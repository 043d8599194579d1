/-
  File:      Rdmalib/System/Protocol.lean
  Subject:   What each thread of the system does, and in which order.

  * `Know` -- what a thread knows from the answers it got;
  * `may` -- what it does next; `next` -- what it learns.

  Every loop of the code follows this protocol whatever it is answered (`provider_follows` of
  `System/Walk.lean`), so the results about the system argue from the protocol and never from
  the code.
-/
import Rdmalib.System.World

namespace Rdmalib

open Base

/-! ## 1. What a thread knows -/

/-- How far a thread has come; the stages after `running` are those of the drop. -/
inductive Stage where
  | waiting
  | running
  | stopping
  | joined
  | cleared
  | bare
  | ended
  deriving DecidableEq, Repr

/-- Within `tuple_of`: its arguments, the group's domain, the region's entry, the registration
    not yet stored; `seen` are the entries of `tuples` it found or stored. -/
structure TupleKnow where
  asked : Option (UInt32 × UInt32) := none
  looked : Option (UInt32 × Option ProtectionDomain) := none
  region : Option (UInt32 × RegionInfo) := none
  held : Option MemoryRegion := none
  seen : List ((UInt32 × UInt32) × MemoryRegion) := []

/-- Within a handshake: its TCP connection, the group asked for, the id of the request taken, a
    domain allocated for it, and its queue pair. -/
structure AcceptKnow where
  chan : Option Chan := none
  wants : Option UInt32 := none
  child : Option Nat := none
  fresh : Option Nat := none
  qp : Option (Nat × Nat) := none

/-- Within `register_typed`: the id read, the id taken, the buffer stored under it. -/
structure RegisterKnow where
  newId : Option UInt32 := none
  taken : Option UInt32 := none
  owned : Option (UInt32 × Buffer) := none

/-- What a thread knows. `open_` are, for the service, the session threads it has not seen
    finished. -/
structure Know where
  role : Tid
  stage : Stage
  open_ : List Nat := []
  tup : TupleKnow := {}
  acc : AcceptKnow := {}
  reg : RegisterKnow := {}

/-- A thread of the provider at work. -/
structure Know.Works (k : Know) : Prop where
  role : k.role.isProvider = true
  stage : k.stage = .running

/-- The registration that `tuple_of` makes is of the region asked for, in the domain of the
    group asked for. -/
structure Know.Registers (k : Know) (pd : Nat) (addr size : UInt64) : Prop where
  works : k.Works
  free : k.tup.held = none
  here : ∃ id g dom info, k.tup.asked = some (id, g) ∧ k.tup.looked = some (g, some dom) ∧
    dom.pd = pd ∧ k.tup.region = some (id, info) ∧ addr = info.remoteAddr ∧ size = info.size

/-- The registration that `tuple_of` stores is the one it made for these arguments. -/
structure Know.Stores (k : Know) (id g : UInt32) (mr : MemoryRegion) : Prop where
  works : k.Works
  held : k.tup.held = some mr
  asked : k.tup.asked = some (id, g)
  domain : ∃ dom, k.tup.looked = some (g, some dom) ∧ mr.pd = dom.pd
  region : ∃ info, k.tup.region = some (id, info) ∧ mr.addr = info.remoteAddr ∧ mr.size = info.size

/-- The connection that a handshake adds to a group has its queue pair in the group's domain, or
    in the domain allocated for it if the group was not there. -/
structure Know.Pushes (k : Know) (g : UInt32) (conn : Connection) : Prop where
  service : k.role = .service
  stage : k.stage = .running
  wants : k.acc.wants = some g
  made : ∃ id pd, conn.id = some id ∧ conn.pd = some pd ∧ k.acc.child = some id ∧
    k.acc.qp = some (id, pd.pd) ∧
    (k.tup.looked = some (g, some pd) ∨
      (k.tup.looked = some (g, none) ∧ k.acc.fresh = some pd.pd))

/-- The domain `pd` is that of the group `g`, or one allocated while there was no group `g`. -/
def Know.InDomain (k : Know) (g : UInt32) (pd : Nat) : Prop :=
  (∃ dom, k.tup.looked = some (g, some dom) ∧ dom.pd = pd) ∨
    (k.tup.looked = some (g, none) ∧ k.acc.fresh = some pd)

/-- The connection that a handshake accepts has its queue pair in the domain of the group it
    serves. -/
structure Know.Accepts (k : Know) (id : Nat) : Prop where
  service : k.role = .service
  stage : k.stage = .running
  child : k.acc.child = some id
  into : ∃ g pd, k.acc.wants = some g ∧ k.acc.qp = some (id, pd) ∧ k.InDomain g pd

/-- The application drops what the groups held. -/
structure Know.Frees (k : Know) : Prop where
  app : k.role = .app
  stage : k.stage = .bare

/-- Every tuple of a message was found or stored in `tuples` under its region and group. -/
def Know.Saw (k : Know) (g : UInt32) (ts : List TupleDesc) : Prop :=
  ∀ d ∈ ts, ∃ mr, ((d.regionId, g), mr) ∈ k.tup.seen ∧ mr.tuple = (d.remoteAddr, d.size, d.rkey)

/-! ## 2. The protocol -/

/-- The C calls a thread may make. A reader's are its own affair. -/
def mayVerb (k : Know) : Verb → Prop
  | .regMr pd addr size => k.Registers pd addr size
  | .createQp id pd _ =>
      k.role.isProvider = true → k.role = .service ∧ k.stage = .running ∧ k.acc.child = some id ∧
        (k.acc.fresh = some pd ∨ ∃ g dom, k.tup.looked = some (g, some dom) ∧ dom.pd = pd)
  | .destroyQp id => k.role.isProvider = true →
      (k.role = .service ∧ k.stage = .running ∧ k.acc.child = some id) ∨ k.Frees
  | .destroyId id => k.role.isProvider = true →
      (k.stage = .running ∧ (k.role = .service → k.acc.child = some id)) ∨ k.Frees
  | .qpOf _ | .disconnect _ | .destroyCq _ | .destroyEventChannel _ | .dropPd _ =>
      k.role.isProvider = true → k.stage = .running ∨ k.Frees
  | .accept id => k.role.isProvider = true → k.Accepts id
  | .getCmEvent _ | .allocPd _ =>
      k.role.isProvider = true → k.role = .service ∧ k.stage = .running
  | _ => k.role.isProvider = true → k.stage = .running

def may (k : Know) : Op → Prop
  | .verb v => mayVerb k v
  | .toSocketAddrs | .armTimeouts _ => k.role.isProvider = true → k.stage = .running
  | .receive _ => k.role.isProvider = true → k.stage = .running
  | .send _ (.tuples g ts) => k.Works ∧ k.Saw g ts
  | .send _ _ => k.role.isProvider = true → k.stage = .running
  | .tcpConnect | .nextReaderCall => k.role.isProvider = false
  | .deliver => k.role = .net
  | .tcpAccept | .isFinished _ | .joinSession _ | .spawnSession _ _ =>
      k.role = .service ∧ k.stage = .running
  | .loadShutdown => k.role ≠ .app ∧ k.Works
  | .tcpBind | .isServing | .nextAppCall | .nextIdGet | .spawnService _ =>
      k.role = .app ∧ k.stage = .running
  | .takeService => k.role = .app ∧ k.stage = .running ∧ k.tup.held = none
  | .nextIdSet id => k.role = .app ∧ k.stage = .running ∧
      ∃ i, k.reg.newId = some i ∧ id = i + 1 ∧ i.toNat + 1 < 2 ^ 32
  | .ownersInsert id _ => k.role = .app ∧ k.stage = .running ∧ k.reg.taken = some id
  | .catalogInsert id info => k.role = .app ∧ k.stage = .running ∧
      ∃ b, k.reg.owned = some (id, b) ∧ info.remoteAddr = b.ptr ∧ info.size = b.size
  | .catalogGet _ | .catalogSnapshot | .groupsGetPd _ => k.Works
  | .tuplesGet _ _ => k.Works ∧ k.tup.held = none
  | .tuplesInsert id g mr => k.Stores id g mr
  | .groupsPush g conn => k.Pushes g conn
  | .setShutdown | .joinService => k.role = .app ∧ k.stage = .stopping
  | .tuplesClear => k.role = .app ∧ k.stage = .joined
  | .dropShared => k.role = .app ∧ k.stage = .cleared
  | .dropOwners => k.role = .app ∧ k.stage = .bare
  | .awaitService => k.role = .service ∧ k.stage = .waiting
  | .awaitSession => (∃ n, k.role = .session n) ∧ k.stage = .waiting
  | .exit =>
      (k.role = .app ∧ k.stage = .bare) ∨
        (k.role ≠ .app ∧ k.Works ∧ k.tup.held = none ∧ k.open_ = [])
  | .note (.tupleOf id g (.ok (some t))) =>
      k.Works ∧ ∃ mr, ((id, g), mr) ∈ k.tup.seen ∧ mr.tuple = t
  | .note _ => True

/-- What a C call teaches. -/
def nextVerb (k : Know) : (v : Verb) → v.Ans → Know
  | .getCmEvent _, .ok e => if k.acc.child = none then { k with acc.child := e.child } else k
  | .allocPd _, some pd => { k with acc.fresh := some pd }
  | .dropPd pd, _ => if k.acc.fresh = some pd then { k with acc.fresh := none } else k
  | .createQp id pd _, ret => if ret = 0 then { k with acc.qp := some (id, pd) } else k
  | .destroyQp _, _ => { k with acc.qp := none }
  | .destroyId _, _ => { k with acc.child := none }
  | .regMr pd addr size, some (mr, lkey, rkey) =>
      { k with tup.held := some { mr, pd, addr, size, lkey, rkey } }
  | _, _ => k

/-- The end of a thread, or of the provider: nothing is left to know. -/
def Know.leave (k : Know) (stage : Stage) : Know :=
  { k with stage := stage, tup := {}, acc := {}, reg := {} }

def next (k : Know) (o : Op) (a : o.Ans) : Know :=
  match o, a with
  | .verb v, a => nextVerb k v a
  | .tcpAccept, some c => { k with acc := { chan := some c }, tup.looked := none }
  | .receive c, (.ok (.wantGroup g), _) =>
      if k.acc.chan = some c then { k with acc.wants := some g } else k
  | .nextIdGet, id => { k with reg := { newId := some id } }
  | .nextIdSet _, _ => { k with reg := { taken := k.reg.newId } }
  | .ownersInsert id b, _ => { k with reg := { owned := some (id, b) } }
  | .catalogInsert _ _, _ => { k with reg := {} }
  | .catalogSnapshot, _ => { k with tup.seen := [] }
  | .catalogGet id, a => { k with tup.region := a.map (id, ·) }
  | .groupsGetPd g, a => { k with tup.looked := some (g, a) }
  | .groupsPush _ _, _ => { k with acc := {}, tup.looked := none }
  | .tuplesGet id g, a =>
      { k with tup :=
        { asked := some (id, g), seen := (a.map fun mr => ((id, g), mr)).toList ++ k.tup.seen } }
  | .tuplesInsert id g mr, _ =>
      { k with tup.held := none, tup.seen := ((id, g), mr) :: k.tup.seen }
  | .awaitService, _ | .awaitSession, _ => { k with stage := .running }
  | .spawnSession _ _, n => { k with open_ := n :: k.open_ }
  | .isFinished n, a => if a then { k with open_ := k.open_.filter (· ≠ n) } else k
  | .joinSession n, _ => { k with open_ := k.open_.filter (· ≠ n) }
  | .takeService, a => k.leave (if a then .stopping else .joined)
  | .joinService, _ => { k with stage := .joined }
  | .tuplesClear, _ => { k with stage := .cleared }
  | .dropShared, _ => { k with stage := .bare }
  | .exit, _ => k.leave .ended
  | _, _ => k

/-- **The protocol of the system.** -/
def protocol : Protocol Op Op.Ans Know where
  may := may
  next := next

/-- What a thread knows at the start of a turn of its loop. -/
def entry (k : Know) : Loop → Prop
  | .app => k.role = .app ∧ k.stage = .running ∧ k.tup.held = none
  | .serviceStart => k.role = .service ∧ k.stage = .waiting ∧ k.tup.held = none ∧ k.open_ = []
  | .service _ sessions => k.role = .service ∧ k.stage = .running ∧ k.tup.held = none ∧
      ∀ n ∈ k.open_, n ∈ sessions
  | .sessionStart =>
      (∃ n, k.role = .session n) ∧ k.stage = .waiting ∧ k.tup.held = none ∧ k.open_ = []
  | .session _ _ =>
      (∃ n, k.role = .session n) ∧ k.stage = .running ∧ k.tup.held = none ∧ k.open_ = []
  | .reader _ => ∃ i, k.role = .reader i
  | .net => k.role = .net

/-- What the threads know at the start. -/
def firstKnow : Tid → Know
  | .app => ⟨.app, .running, [], {}, {}, {}⟩
  | t => ⟨t, .waiting, [], {}, {}, {}⟩

theorem entry_first (t : Tid) : entry (firstKnow t) (firstLoop t) := by
  cases t with
  | app => exact ⟨rfl, rfl, rfl⟩
  | service => exact ⟨rfl, rfl, rfl, rfl⟩
  | session n => exact ⟨⟨n, rfl⟩, rfl, rfl, rfl⟩
  | reader i => exact ⟨i, rfl⟩
  | net => exact rfl

/-! ## 3. What an operation does not teach -/

/-- The operations that begin or end a stage, or tell the service about its sessions. -/
def Op.staged : Op → Bool
  | .spawnService _ | .awaitService | .takeService | .setShutdown | .joinService | .tuplesClear
  | .dropShared | .spawnSession _ _ | .awaitSession | .isFinished _ | .joinSession _ | .exit => true
  | _ => false

def Op.teachesTup : Op → Bool
  | .verb (.regMr _ _ _) | .tcpAccept | .catalogSnapshot | .catalogGet _ | .groupsGetPd _
  | .groupsPush _ _ | .tuplesGet _ _ | .tuplesInsert _ _ _ | .takeService | .exit => true
  | _ => false

def Op.teachesAcc : Op → Bool
  | .verb _ | .tcpAccept | .receive _ | .groupsPush _ _ | .takeService | .exit => true
  | _ => false

def Op.teachesReg : Op → Bool
  | .nextIdGet | .nextIdSet _ | .ownersInsert _ _ | .catalogInsert _ _ | .takeService | .exit => true
  | _ => false

/-- A thread still knows what an operation is not about. -/
structure Recalls (o : Op) (k k' : Know) : Prop where
  role : k'.role = k.role
  stage : o.staged = false → k'.stage = k.stage
  open_ : o.staged = false → k'.open_ = k.open_
  tup : o.teachesTup = false → k'.tup = k.tup
  acc : o.teachesAcc = false → k'.acc = k.acc
  reg : o.teachesReg = false → k'.reg = k.reg

theorem Recalls.same {o : Op} {k : Know} : Recalls o k k :=
  ⟨rfl, fun _ => rfl, fun _ => rfl, fun _ => rfl, fun _ => rfl, fun _ => rfl⟩

theorem nextVerb_recalls (k : Know) (v : Verb) (a : v.Ans) : Recalls (.verb v) k (nextVerb k v a) := by
  unfold nextVerb
  split <;> first
    | exact ⟨rfl, fun _ => rfl, fun _ => rfl, fun _ => rfl, nofun, fun _ => rfl⟩
    | exact ⟨rfl, fun _ => rfl, fun _ => rfl, nofun, nofun, fun _ => rfl⟩
    | (split <;> exact ⟨rfl, fun _ => rfl, fun _ => rfl, fun _ => rfl, nofun, fun _ => rfl⟩)

theorem next_recalls (k : Know) (o : Op) (a : o.Ans) : Recalls o k (next k o a) := by
  cases o with
  | verb v => exact nextVerb_recalls k v a
  | tcpAccept =>
      cases a with
      | none => exact .same
      | some c => exact ⟨rfl, fun _ => rfl, fun _ => rfl, nofun, nofun, fun _ => rfl⟩
  | receive c =>
      obtain ⟨a, n⟩ := a
      rcases a with e | m
      · exact .same
      · cases m with
        | wantGroup g =>
            simp only [next]
            split
            · exact ⟨rfl, fun _ => rfl, fun _ => rfl, fun _ => rfl, nofun, fun _ => rfl⟩
            · exact .same
        | hello | welcome | update | metadata | tuples => exact .same
  | nextIdGet | nextIdSet | ownersInsert | catalogInsert =>
      exact ⟨rfl, fun _ => rfl, fun _ => rfl, fun _ => rfl, fun _ => rfl, nofun⟩
  | catalogSnapshot | catalogGet | groupsGetPd | tuplesGet | tuplesInsert =>
      exact ⟨rfl, fun _ => rfl, fun _ => rfl, nofun, fun _ => rfl, fun _ => rfl⟩
  | groupsPush => exact ⟨rfl, fun _ => rfl, fun _ => rfl, nofun, nofun, fun _ => rfl⟩
  | awaitService | awaitSession | joinService | tuplesClear | dropShared | spawnSession
  | joinSession => exact ⟨rfl, nofun, nofun, fun _ => rfl, fun _ => rfl, fun _ => rfl⟩
  | isFinished n =>
      cases a with
      | false => exact .same
      | true => exact ⟨rfl, nofun, nofun, fun _ => rfl, fun _ => rfl, fun _ => rfl⟩
  | takeService | exit => exact ⟨rfl, nofun, nofun, nofun, nofun, nofun⟩
  | _ => exact .same

theorem next_role (k : Know) (o : Op) (a : o.Ans) : (next k o a).role = k.role :=
  (next_recalls k o a).role

/-- A message teaches at most the group wanted. -/
theorem next_receive (k : Know) (c : Chan) (a : Op.Ans (.receive c)) :
    ∃ wants, (next k (.receive c) a).acc = { k.acc with wants } := by
  obtain ⟨a, n⟩ := a
  rcases a with e | m
  · exact ⟨k.acc.wants, rfl⟩
  · cases m with
    | wantGroup g =>
        simp only [next]
        split
        · exact ⟨some g, rfl⟩
        · exact ⟨k.acc.wants, rfl⟩
    | hello | welcome | update | metadata | tuples => exact ⟨k.acc.wants, rfl⟩

end Rdmalib
