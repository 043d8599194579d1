/-
  File:      Rdmalib/Providers/Service.lean
  Subject:   The threads of the metadata service in `src/providers.rs`: `Service::run` with
             `handshake`, and `SessionThread::wait_for_updates`.

  A `while` loop is given turn by turn: what a turn returns says how the thread goes on.
-/
import Rdmalib.Providers.Provider

namespace Rdmalib

open Base

/-! ## 1. `Service::handshake` -/

/-- The greeting of `handshake`. -/
def Service.greet (c : Chan) : Sys Unit := do
  match ← Channel.receive c with
  | .hello version =>
      if version = PROTOCOL_VERSION then
        Channel.send c (.welcome version)
      else
        throw (.err (.other s!"the reader speaks protocol version {version}, not {PROTOCOL_VERSION}"))
  | other => throw (.err (.other s!"expected a greeting, got {other.debug}"))

/-- The group join of `handshake`. -/
def Service.join (c : Chan) : Sys UInt32 := do
  match ← Channel.receive c with
  | .wantGroup group => return group
  | other => throw (.err (.other s!"expected a group join, got {other.debug}"))

/-- The rendezvous of `handshake`: accept into the group's domain, which is cloned before. -/
def Service.rendezvous (listener : Nat) (group : UInt32) : Sys Connection := do
  match ← perform (.groupsGetPd group) with
  | none => Listener.acceptImpl listener none
  | some pd =>
      let result ← attempt (Listener.acceptImpl listener (some pd))
      verb (.dropPd pd.pd)
      result

/-- `Service::handshake`: the session thread it started. -/
def Service.handshake (listener : Nat) (stream : Chan) : Sys Nat := do
  let c ← Channel.new stream
  Service.greet c
  let group ← Service.join c
  let connection ← Service.rendezvous listener group
  ExceptT.mk (perform (.groupsPush group connection))
  let (catalog, tuples) ← Shared.catalogAndTuples group
  Channel.send c catalog
  Channel.send c tuples
  perform (.spawnSession c group)

/-! ## 2. `Service::run` -/

/-- How a thread goes on. -/
inductive Loop where
  | app
  | serviceStart
  | service (listener : Nat) (sessions : List Nat)
  | sessionStart
  | session (c : Chan) (group : UInt32)
  | reader (state : RemoteMemoryProvider)
  | net

/-- `self.sessions.retain(|handle| !handle.is_finished())`. -/
def Service.retainRunning : List Nat → Code (List Nat)
  | [] => return []
  | n :: rest => do
      if ← perform (.isFinished n) then
        Service.retainRunning rest
      else
        let rest ← Service.retainRunning rest
        return n :: rest

/-- The joins after the loop of `run`. -/
def Service.joinAll : List Nat → Code Unit
  | [] => return ()
  | n :: rest => do
      perform (.joinSession n)
      Service.joinAll rest

/-- One turn of the loop of `Service::run`. -/
def Service.run (listener : Nat) (sessions : List Nat) : Code (Option Loop) := do
  if ← perform .loadShutdown then
    Service.joinAll sessions
    perform .exit
    return none
  match ← perform .tcpAccept with
  | none =>
      -- `thread::sleep(SERVICE_POLL)`
      return some (.service listener (← Service.retainRunning sessions))
  | some stream =>
      match ← (Service.handshake listener stream).run with
      | .ok session => return some (.service listener (← Service.retainRunning (sessions ++ [session])))
      | .error (.err _) => return some (.service listener (← Service.retainRunning sessions))
      | .error .panic =>
          perform (.note .panicked)
          return none

/-! ## 3. `SessionThread::wait_for_updates` -/

/-- The end of a session thread: its return, or a panic. -/
def SessionThread.leave : Fault → Code (Option Loop)
  | .err _ => do
      perform .exit
      return none
  | .panic => do
      perform (.note .panicked)
      perform .exit
      return none

/-- One turn of the loop of `wait_for_updates`. -/
def SessionThread.waitForUpdates (c : Chan) (group : UInt32) : Code (Option Loop) := do
  if ← perform .loadShutdown then
    perform .exit
    return none
  match ← (Channel.receive c).run with
  | .ok .update =>
      let (catalog, tuples) ← Shared.catalogAndTuples group
      match ← (do Channel.send c catalog; Channel.send c tuples : Sys Unit).run with
      | .ok () => return some (.session c group)
      | .error e => SessionThread.leave e
  | .ok _ =>
      perform .exit
      return none
  | .error e => SessionThread.leave e

/-! ## 4. What the threads perform beside the service -/

theorem retainRunning_still (sessions : List Nat) : Only Op.Still (Service.retainRunning sessions) := by
  induction sessions with
  | nil => exact only_pure
  | cons n rest ih =>
      refine only_bind (only_perform trivial) fun finished => ?_
      cases finished with
      | true => exact ih
      | false => exact only_bind ih fun _ => only_pure

theorem joinAll_still (sessions : List Nat) : Only Op.Still (Service.joinAll sessions) := by
  induction sessions with
  | nil => exact only_pure
  | cons n rest ih => exact only_bind (only_perform trivial) fun _ => ih

/-- The end of a thread. -/
theorem exit_still : Only Op.Still (do perform .exit; return none : Code (Option Loop)) :=
  only_bind (only_perform trivial) fun _ => only_pure

theorem leave_still (e : Fault) : Only Op.Still (SessionThread.leave e) := by
  cases e with
  | err e => exact exit_still
  | panic => exact only_bind (only_perform trivial) fun _ => exit_still

end Rdmalib
