/-
  File:      Rdmalib/Rdma/Cm.lean
  Subject:   Setting up connections: `Connection::connect`, `Listener::bind`, `Listener::accept`
             and the drops of `src/rdma/verbs.rs`.

  A step that fails while a connection is being built throws the error together with what has
  been built (`Build`): the caller drops it.
-/
import Rdmalib.Op

namespace Rdmalib

open Base

/-! ## 1. Results of C calls -/

/-- `check_ptr`, without the text of the last OS error. -/
def checkPtr {α : Type} (call : String) : Option α → Except Fault α
  | some p => .ok p
  | none => .error (.err (.other s!"{call} failed"))

/-- `check` of a call that also writes a result. -/
def checkOut {α : Type} (call : String) : Except Int α → Except Fault α
  | .ok a => .ok a
  | .error ret => .error (.err (.other s!"{call} failed: os error {ret}"))

/-- `event_name` (`rdma_event_str`). -/
def eventName : CmEventType → String
  | .addrResolved => "RDMA_CM_EVENT_ADDR_RESOLVED"
  | .routeResolved => "RDMA_CM_EVENT_ROUTE_RESOLVED"
  | .connectRequest => "RDMA_CM_EVENT_CONNECT_REQUEST"
  | .established => "RDMA_CM_EVENT_ESTABLISHED"
  | .disconnected => "RDMA_CM_EVENT_DISCONNECTED"
  | .other code => s!"event {code}"

/-- `resolve_v4`. -/
def resolveV4 : Sys Unit := do
  match ← perform .toSocketAddrs with
  | .error e => throw (.err e)
  | .ok addrs =>
      match addrs.head? with
      | none => throw (invalid "the address did not resolve to a socket address")
      | some .v4 => return ()
      | some .v6 => throw (.err ⟨.unsupported, "IPv6 addresses are not supported yet"⟩)

/-- `wait_event`: block on `channel` until `expected` arrives, acknowledging it. -/
def waitEvent (channel : Nat) (expected : CmEventType) (step : String) : Sys Unit := do
  let event ← checkOut step (← verb (.getCmEvent channel))
  let ack ← verb .ackCmEvent
  if event.event ≠ expected ∨ event.status ≠ 0 then
    throw (.err (.other s!"{step}: expected {eventName expected}, got {eventName event.event
      } (status {event.status})"))
  check "rdma_ack_cm_event" ack

/-! ## 2. Building and dropping a connection -/

/-- Code that builds a connection. -/
abbrev Build := ExceptT (Fault × Connection) Code

/-- A fallible step while `conn` has been built. -/
def built {α : Type} (conn : Connection) (x : Sys α) : Build α := do
  match ← x.run with
  | .ok a => return a
  | .error e => throw (e, conn)

/-- `ProtectionDomain::alloc`. -/
def ProtectionDomain.alloc (context : Nat) : Sys ProtectionDomain := do
  let pd ← checkPtr "ibv_alloc_pd" (← verb (.allocPd context))
  return ⟨context, pd⟩

/-- `Drop for Connection`: the id, with its queue pair if it has one. -/
def Connection.dropId : Option Nat → Code Unit
  | none => return ()
  | some id => do
      if ← verb (.qpOf id) then
        let _ ← verb (.disconnect id)
        verb (.destroyQp id)
      verb (.destroyId id)

/-- A C call on a handle, unless it is null. -/
def unlessNull (call : Nat → Code Unit) : Option Nat → Code Unit
  | none => return ()
  | some handle => call handle

/-- `Drop for Connection`; the field `pd` drops after the body. -/
def Connection.drop (conn : Connection) : Code Unit := do
  Connection.dropId conn.id
  unlessNull (fun cq => verb (.destroyCq cq)) conn.cq
  unlessNull (fun channel => verb (.destroyEventChannel channel)) conn.eventChannel
  unlessNull (fun pd => verb (.dropPd pd)) (conn.pd.map (·.pd))

/-- `create_resources` on the id of `conn`; the domain handle is dropped where it is not kept. -/
def createResources (conn : Connection) (id : Nat) (pd : ProtectionDomain) : Build Connection := do
  let context ← verb (.verbsOf id)
  match checkPtr "ibv_create_cq" (← verb (.createCq context)) with
  | .error e =>
      verb (.dropPd pd.pd)
      throw (e, conn)
  | .ok cq =>
      let conn := { conn with cq := some cq }
      match check "rdma_create_qp" (← verb (.createQp id pd.pd cq)) with
      | .error e =>
          verb (.dropPd pd.pd)
          throw (e, conn)
      | .ok () => return { conn with pd := some pd }

/-- The caller's `?` on a connection under construction: what was built is dropped. -/
def Build.orDrop (x : Build Connection) : Sys Connection := do
  match ← x.run with
  | .ok conn => return conn
  | .error (e, conn) =>
      conn.drop
      throw e

/-! ## 3. `Connection::connect` -/

/-- `connect_to`. -/
def connectTo (conn : Connection) (channel : Nat) : Build Connection := do
  let id ← built conn do checkOut "rdma_create_id" (← verb (.createId channel))
  let conn := { conn with id := some id }
  built conn do check "rdma_resolve_addr" (← verb (.resolveAddr id))
  built conn (waitEvent channel .addrResolved "rdma_resolve_addr")
  built conn do check "rdma_resolve_route" (← verb (.resolveRoute id))
  built conn (waitEvent channel .routeResolved "rdma_resolve_route")
  let context ← verb (.verbsOf id)
  let pd ← built conn (ProtectionDomain.alloc context)
  let conn ← createResources conn id pd
  built conn do check "rdma_connect" (← verb (.connect id))
  built conn (waitEvent channel .established "rdma_connect")
  return conn

/-- `Connection::connect`. -/
def Connection.connect : Sys Connection := do
  resolveV4
  let channel ← checkPtr "rdma_create_event_channel" (← verb .createEventChannel)
  Build.orDrop (connectTo { id := none, cq := none, pd := none, eventChannel := some channel } channel)

/-! ## 4. `Listener` -/

/-- `rdma::Listener`. -/
structure Listener where
  id : Nat
  eventChannel : Nat
  deriving DecidableEq, Repr

/-- `Listener::bind`. -/
def Listener.bind : Sys Listener := do
  resolveV4
  let channel ← checkPtr "rdma_create_event_channel" (← verb .createEventChannel)
  let id ← checkOut "rdma_create_id" (← verb (.createId channel))
  let result ← attempt do
    check "rdma_bind_addr" (← verb (.bindAddr id))
    check "rdma_listen" (← verb (.listen id))
  match result with
  | .ok () => return { id, eventChannel := channel }
  | .error e =>
      verb (.destroyId id)
      verb (.destroyEventChannel channel)
      throw e

/-- The domain an accepted connection is created in: the group's, or one of its own. -/
def acceptDomain (pd : Option ProtectionDomain) (context : Nat) : Sys ProtectionDomain := do
  match pd with
  | some pd =>
      if pd.context ≠ context then
        throw (.err (.other ("rdma accept_into: the connection arrived on a different device " ++
          "than the protection domain")))
      verb (.clonePd pd.pd)
      return pd
  | none => ProtectionDomain.alloc context

/-- `accept_impl` once the request was taken off the channel: from `conn` to the established
    connection. -/
def acceptRequest (channel child : Nat) (pd : Option ProtectionDomain) : Build Connection := do
  -- the child shares the listener's event channel
  let conn : Connection := { id := some child, cq := none, pd := none, eventChannel := none }
  let context ← verb (.verbsOf child)
  let pd ← built conn (acceptDomain pd context)
  let conn ← createResources conn child pd
  built conn do check "rdma_accept" (← verb (.accept child))
  built conn (waitEvent channel .established "rdma_accept")
  return conn

/-- `accept_impl`. -/
def Listener.acceptImpl (channel : Nat) (pd : Option ProtectionDomain) : Sys Connection := do
  let event ← checkOut "rdma_get_cm_event" (← verb (.getCmEvent channel))
  let ack ← verb .ackCmEvent
  if event.event ≠ .connectRequest ∨ event.status ≠ 0 then
    throw (.err (.other s!"expected a connection request, got {eventName event.event
      } (status {event.status})"))
  check "rdma_ack_cm_event" ack
  Build.orDrop (acceptRequest channel event.id pd)

/-! ## 5. Rules -/

section Rules

variable {K : Type} {P : Protocol Op Op.Ans K} {k : K} {α : Type}

theorem follows_op {o : Op} {Q : K → o.Ans → Prop} :
    Follows P k (perform o) Q ↔ P.may k o ∧ ∀ a, Q (P.next k o a) a := Iff.rfl

theorem follows_call {v : Verb} {Q : K → v.Ans → Prop} :
    Follows P k (verb v) Q ↔ P.may k (.verb v) ∧ ∀ a, Q (P.next k (.verb v) a) a := Iff.rfl

@[simp] theorem tries_attempt {x : Sys α} {Q : K → Except Fault α → Prop} {E : K → Fault → Prop} :
    Tries P k (attempt x) Q E ↔
      Tries P k x (fun k' a => Q k' (.ok a)) fun k' e => Q k' (.error e) :=
  tries_lift.trans follows_run

theorem checkPtr_ends {call : String} {p : Option α} {Q : K → α → Prop}
    {E : K → Fault → Prop} (hQ : ∀ a, p = some a → Q k a) (hE : p = none → ∀ e, E k e) :
    Ends Q E k (checkPtr call p) := by
  cases p with
  | none => exact hE rfl _
  | some a => exact hQ a rfl

theorem checkOut_ends {call : String} {r : Except Int α} {Q : K → α → Prop}
    {E : K → Fault → Prop} (hQ : ∀ a, r = .ok a → Q k a) (hE : ∀ ret, r = .error ret → ∀ e, E k e) :
    Ends Q E k (checkOut call r) := by
  cases r with
  | error ret => exact hE ret rfl _
  | ok a => exact hQ a rfl

theorem check_ends {call : String} {ret : Int} {Q : K → Unit → Prop}
    {E : K → Fault → Prop} (hQ : ret = 0 → Q k ()) (hE : ret ≠ 0 → ∀ e, E k e) :
    Ends Q E k (check call ret) := by
  unfold check
  by_cases h : ret = 0
  · simp only [h, if_true]
    exact hQ h
  · simp only [h, if_false]
    exact hE h _

theorem tries_built {conn : Connection} {x : Sys α} {Q : K → α → Prop}
    {E : K → Fault × Connection → Prop} :
    Tries P k (built conn x) Q E ↔ Tries P k x Q fun k' e => E k' (e, conn) := by
  unfold built
  rw [tries_bind, tries_lift, follows_run]
  exact Iff.rfl

theorem tries_orDrop {x : Build Connection} {Q : K → Connection → Prop}
    {E : K → Fault → Prop} :
    Tries P k x.orDrop Q E ↔ Tries P k x Q fun k' e =>
      Follows P k' e.2.drop fun k'' _ => E k'' e.1 := by
  unfold Build.orDrop
  rw [tries_bind, tries_lift, follows_run]
  have hdrop (k' : K) (e : Fault × Connection) :
      Tries P k' (do e.2.drop; throw e.1 : Sys Connection) Q E ↔
        Follows P k' e.2.drop fun k'' _ => E k'' e.1 := by
    rw [tries_bind, tries_lift]
    exact Iff.rfl
  constructor
  · intro h
    exact Tries.mono h (fun _ _ h => h) fun k' e h => (hdrop k' e).mp h
  · intro h
    exact Tries.mono h (fun _ _ h => h) fun k' e h => (hdrop k' e).mpr h

end Rules

/-! ## 6. What these functions perform -/

/-- The operations of this file: name resolution and C calls that register no memory. -/
def CmOp : Op → Prop
  | .toSocketAddrs => True
  | .verb (.regMr _ _ _) => False
  | .verb _ => True
  | _ => False

section Performed

variable {α : Type} {conn : Connection} {channel id : Nat}

theorem only_built {x : Sys α} (h : Only CmOp x.run) : Only CmOp (built conn x).run := by
  unfold built
  refine only_try (only_lift h) fun r => ?_
  cases r with
  | ok a => exact only_pure
  | error e => exact only_pure

theorem only_verb {v : Verb} (h : CmOp (.verb v)) : Only CmOp (verb v) := only_perform h

/-- A C call whose result is checked. -/
theorem only_call {β : Type} {v : Verb} {f : v.Ans → Except Fault β} (h : CmOp (.verb v)) :
    Only CmOp (do f (← verb v) : Sys β).run :=
  only_try (only_lift (only_verb h)) fun _ => only_except

theorem resolveV4_only : Only CmOp resolveV4.run := by
  unfold resolveV4
  refine only_try (only_lift (only_perform trivial)) fun a => ?_
  rcases a with e | _ | ⟨addr, rest⟩
  · exact only_pure
  · exact only_pure
  · cases addr with
    | v4 => exact only_pure
    | v6 => exact only_pure

theorem waitEvent_only {expected : CmEventType} {step : String} :
    Only CmOp (waitEvent channel expected step).run := by
  unfold waitEvent
  refine only_try (only_lift (only_verb trivial)) fun a => only_try only_except fun event => ?_
  refine only_try (only_lift (only_verb trivial)) fun ack => ?_
  split
  · exact only_pure
  · exact only_except

/-- The C calls of a drop. -/
def Op.TearsDown : Op → Prop
  | .verb (.qpOf _) | .verb (.disconnect _) | .verb (.destroyQp _) | .verb (.destroyId _)
  | .verb (.destroyCq _) | .verb (.destroyEventChannel _) | .verb (.dropPd _) => True
  | _ => False

theorem unlessNull_only {C : Op → Prop} {call : Nat → Code Unit} {p : Option Nat}
    (h : ∀ n, Only C (call n)) : Only C (unlessNull call p) := by
  cases p with
  | none => exact only_pure
  | some n => exact h n

theorem drop_tearsDown (conn : Connection) : Only Op.TearsDown conn.drop := by
  have hid : Only Op.TearsDown (Connection.dropId conn.id) := by
    cases conn.id with
    | none => exact only_pure
    | some id =>
        refine only_bind (only_perform trivial) fun hasQp => ?_
        cases hasQp with
        | false => exact only_perform trivial
        | true =>
            exact only_bind (only_perform trivial) fun _ => only_bind (only_perform trivial) fun _ =>
              only_perform trivial
  exact only_bind hid fun _ => only_bind (unlessNull_only fun _ => only_perform trivial) fun _ =>
    only_bind (unlessNull_only fun _ => only_perform trivial) fun _ =>
      unlessNull_only fun _ => only_perform trivial

theorem cmOp_of_tearsDown {o : Op} (h : o.TearsDown) : CmOp o := by
  cases o with
  | verb v =>
      cases v with
      | regMr => exact h
      | _ => trivial
  | _ => exact h.elim

theorem connectionDrop_only (conn : Connection) : Only CmOp conn.drop :=
  (drop_tearsDown conn).mono fun _ => cmOp_of_tearsDown

theorem orDrop_only {x : Build Connection} (h : Only CmOp x.run) : Only CmOp x.orDrop.run := by
  unfold Build.orDrop
  refine only_try (only_lift h) fun r => ?_
  cases r with
  | ok conn => exact only_pure
  | error e => exact only_try (only_lift (connectionDrop_only _)) fun _ => only_pure

theorem alloc_only {context : Nat} : Only CmOp (ProtectionDomain.alloc context).run :=
  only_try (only_lift (only_verb trivial)) fun _ => only_try only_except fun _ => only_pure

theorem createResources_only {pd : ProtectionDomain} :
    Only CmOp (createResources conn id pd).run := by
  have hfail (e : Fault) (conn : Connection) :
      Only CmOp (do verb (.dropPd pd.pd); throw (e, conn) : Build Connection).run :=
    only_try (only_lift (only_verb trivial)) fun _ => only_pure
  unfold createResources
  refine only_try (only_lift (only_verb trivial)) fun context => ?_
  refine only_try (only_lift (only_verb trivial)) fun cq => ?_
  split
  · exact hfail _ _
  · refine only_try (only_lift (only_verb trivial)) fun ret => ?_
    split
    · exact hfail _ _
    · exact only_pure

theorem connect_only : Only CmOp Connection.connect.run := by
  unfold Connection.connect
  refine only_try resolveV4_only fun _ => ?_
  refine only_try (only_lift (only_verb trivial)) fun _ => only_try only_except fun channel => ?_
  refine orDrop_only ?_
  unfold connectTo
  refine only_try (only_built (only_call trivial)) fun id => ?_
  refine only_try (only_built (only_call trivial)) fun _ => ?_
  refine only_try (only_built waitEvent_only) fun _ => ?_
  refine only_try (only_built (only_call trivial)) fun _ => ?_
  refine only_try (only_built waitEvent_only) fun _ => ?_
  refine only_try (only_lift (only_verb trivial)) fun context => ?_
  refine only_try (only_built alloc_only) fun pd => ?_
  refine only_try createResources_only fun conn => ?_
  refine only_try (only_built (only_call trivial)) fun _ => ?_
  exact only_try (only_built waitEvent_only) fun _ => only_pure

theorem bind_only : Only CmOp Listener.bind.run := by
  unfold Listener.bind
  refine only_try resolveV4_only fun _ => ?_
  refine only_try (only_lift (only_verb trivial)) fun _ => only_try only_except fun channel => ?_
  refine only_try (only_lift (only_verb trivial)) fun _ => only_try only_except fun id => ?_
  have hlisten : Only CmOp (do
      check "rdma_bind_addr" (← verb (.bindAddr id))
      check "rdma_listen" (← verb (.listen id)) : Sys Unit).run :=
    only_try (only_lift (only_verb trivial)) fun _ => only_try only_except fun _ =>
      only_call (v := .listen id) trivial
  refine only_try (only_lift hlisten) fun result => ?_
  cases result with
  | ok u => exact only_pure
  | error e =>
      exact only_try (only_lift (only_verb (v := .destroyId id) trivial)) fun _ =>
        only_try (only_lift (only_verb (v := .destroyEventChannel channel) trivial)) fun _ => only_pure

theorem acceptImpl_only {pd : Option ProtectionDomain} :
    Only CmOp (Listener.acceptImpl channel pd).run := by
  unfold Listener.acceptImpl
  refine only_try (only_lift (only_verb trivial)) fun _ => only_try only_except fun event => ?_
  refine only_try (only_lift (only_verb trivial)) fun ack => ?_
  split
  · exact only_pure
  refine only_try only_except fun _ => orDrop_only ?_
  unfold acceptRequest
  refine only_try (only_lift (only_verb trivial)) fun context => ?_
  have hdomain : Only CmOp (acceptDomain pd context).run := by
    unfold acceptDomain
    split
    · split
      · exact only_pure
      · exact only_try (only_lift (only_verb trivial)) fun _ => only_pure
    · exact alloc_only
  refine only_try (only_built hdomain) fun pd => ?_
  refine only_try createResources_only fun conn => ?_
  refine only_try (only_built (only_call trivial)) fun _ => ?_
  exact only_try (only_built waitEvent_only) fun _ => only_pure

end Performed

end Rdmalib
