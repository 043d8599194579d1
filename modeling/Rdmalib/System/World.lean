/-
  File:      Rdmalib/System/World.lean
  Subject:   One provider and any number of readers, in one world.

  * `Tid` -- the application thread of the provider, its service thread, its session threads,
    the readers, and the network;
  * `World` -- the provider's state, its device, the connection manager, the TCP connections and
    the threads' lives;
  * `can`, `post` -- which answers an operation can have, and what it does. All that is left to
    the environment (schedules, failures at any step, the order of a hash map, which bytes of a
    failed transfer got through, when a notice arrives) is in the answer;
  * `provider` -- the system; its threads run the code of `Providers/` and `Readers/`.
-/
import Rdmalib.Base.Threads
import Rdmalib.Providers.Service
import Rdmalib.Readers.Provider

namespace Rdmalib

open Base

/-! ## 1. The code of the threads -/

inductive Tid where
  | app
  | service
  | session (n : Nat)
  | reader (i : Nat)
  | net
  deriving DecidableEq, Repr

/-- A panic is recorded. It unwinds into the application, which may catch it. -/
def unwinds {α : Type} : Except Fault α → Code Unit
  | .error .panic => perform (.note .panicked)
  | _ => return ()

theorem unwinds_only {α : Type} {C : Op → Prop} (h : C (.note .panicked)) (r : Except Fault α) :
    Only C (unwinds r) := by
  rcases r with (_ | _) | _
  · exact only_pure
  · exact only_perform h
  · exact only_pure

/-- One call of the application into the provider. -/
def appTurn : Code (Option Loop) := do
  match ← perform .nextAppCall with
  | .registerTyped name buffer =>
      unwinds (← (registerTyped name buffer).run)
      return some .app
  | .getSharedMr id group =>
      unwinds (← getSharedMr id group)
      return some .app
  | .serve =>
      unwinds (← serve.run)
      return some .app
  | .drop =>
      SharedMemoryRegionProvider.drop
      perform .exit
      return none

/-- One call of an application into a reader. -/
def readerTurn (st : RemoteMemoryProvider) : Code (Option Loop) := do
  match ← perform .nextReaderCall with
  | .update group =>
      perform (.note (.updateBegins group))
      let (result, st) ← st.update group
      perform (.note (.updateReturns group result st))
      return some (.reader st)
  | .drop =>
      st.drop
      return some (.reader .new)

def code : Loop → Code (Option Loop)
  | .app => appTurn
  | .serviceStart => do
      let listener ← perform .awaitService
      return some (.service listener [])
  | .service listener sessions => Service.run listener sessions
  | .sessionStart => do
      let (c, group) ← perform .awaitSession
      return some (.session c group)
  | .session c group => SessionThread.waitForUpdates c group
  | .reader st => readerTurn st
  | .net => do
      let _ ← perform .deliver
      return some .net

/-- Where each thread starts; sessions and readers are there from the beginning and wait. -/
def firstLoop : Tid → Loop
  | .app => .app
  | .service => .serviceStart
  | .session _ => .sessionStart
  | .reader _ => .reader .new
  | .net => .net

/-! ## 2. The world -/

/-- The provider's state on the application thread; `assigned` are the ids handed out. -/
structure AppState where
  nextId : UInt32 := 0
  owners : HashMap UInt32 Buffer := ∅
  assigned : List UInt32 := []

/-- `Shared`; `editions` are the values the catalog has had, `cleared` and `gone` say how far the
    drop has come. -/
structure SharedState where
  catalog : HashMap UInt32 RegionInfo := ∅
  groups : HashMap UInt32 GroupEntry := ∅
  tuples : HashMap (UInt32 × UInt32) MemoryRegion := ∅
  editions : List (HashMap UInt32 RegionInfo) := [∅]
  cleared : Bool := false
  gone : Bool := false

/-- A registration, and the arguments of the `tuple_of` that made it. -/
structure Registration where
  mr : MemoryRegion
  key : UInt32 × UInt32
  deriving DecidableEq, Repr

/-- An instant of a run: how many values the catalog has had, how many notes were made. -/
structure Instant where
  editions : Nat
  records : Nat
  deriving DecidableEq, Repr

/-- A registration that `ibv_reg_mr` refused: when and to which thread, the arguments of the
    `tuple_of` that asked for it, and the domain that its group had then. -/
structure Refusal where
  thread : Tid
  instant : Instant
  key : UInt32 × UInt32
  domain : Option Nat
  pd : Nat
  addr : UInt64
  size : UInt64

/-- Who holds a handle of a protection domain. -/
inductive Holder where
  | thread (t : Tid)
  | group (g : UInt32)
  | connection (id : Nat)
  deriving DecidableEq, Repr

/-- The provider's device: live registrations, all those made and all those refused so far, handles
    of protection domains, and the domain of the queue pair of each cm id. -/
structure Hca where
  regs : List Registration := []
  made : List Registration := []
  refused : List Refusal := []
  handles : List (Holder × Nat) := []
  qps : HashMap Nat Nat := ∅

/-- The provider's threads; `sessions` are the session threads started, in order. -/
structure Life where
  serving : Bool := false
  started : Option Nat := none
  shutdown : Bool := false
  serviceDone : Bool := false
  sessions : List (Chan × UInt32) := []
  finished : List Nat := []

/-- A connect request that was accepted: who opened it, the session being served, the domain of its
    queue pair, and the domains that the groups had then. -/
structure Acceptance where
  opener : Option Nat
  session : Option Chan
  domain : Option Nat
  domains : List (UInt32 × Nat)

/-- The connection manager: connect requests under way (by reader), the listener's event channel,
    and who opened each id of the listener in use. For each connection in a group, `servedFor` has
    the TCP session and the group that its handshake was serving; `accepted` are the requests
    accepted. -/
structure Cm where
  inFlight : List Nat := []
  events : List Notice := []
  opener : HashMap Nat Nat := ∅
  servedFor : HashMap Nat (Option Chan × UInt32) := ∅
  accepted : List Acceptance := []

/-- A TCP connection: the reader it belongs to, the bytes under way in both directions, and the
    messages sent and received at both ends. `asked` are the instants of the messages the reader
    has sent. -/
structure ChanState where
  owner : Nat
  toP : List UInt8 := []
  toR : List UInt8 := []
  sentR : List Message := []
  recvP : List Message := []
  sentP : List Message := []
  recvR : List Message := []
  asked : List Instant := []

/-- The TCP side: connections, those not accepted yet, and the one accepted last. -/
structure Tcp where
  chans : List ChanState := []
  backlog : List Chan := []
  lastSession : Option Chan := none

/-- What is recorded: a note, its thread, and when. -/
structure Record where
  thread : Tid
  instant : Instant
  note : Note

/-- The arguments of the last `tuple_of` of each thread, and the notes. -/
structure Log where
  asking : Tid → Option (UInt32 × UInt32) := fun _ => none
  records : List Record := []

structure World where
  app : AppState := {}
  shared : SharedState := {}
  hca : Hca := {}
  life : Life := {}
  cm : Cm := {}
  tcp : Tcp := {}
  log : Log := {}

/-- The present instant. -/
def World.now (w : World) : Instant := ⟨w.shared.editions.length, w.log.records.length⟩

/-- The domains of the groups. -/
def SharedState.domains (shared : SharedState) : List (UInt32 × Nat) :=
  (HashMap.toList shared.groups).map fun e => (e.1, e.2.pd.pd)

/-! ## 3. The C calls -/

/-- Is `t` a thread of the provider? -/
def Tid.isProvider : Tid → Bool
  | .app | .service | .session _ => true
  | .reader _ | .net => false

/-- Which event the listener's channel can give: the first notice; a request comes with an id
    that is not in use. -/
def eventCan (cm : Cm) (e : CmEvent) : Prop :=
  match cm.events with
  | [] => False
  | .request _ status :: _ =>
      e.event = .connectRequest ∧ e.status = status ∧ cm.opener.lookup e.id = none
  | .later event :: _ => e = event

instance (cm : Cm) (e : CmEvent) : Decidable (eventCan cm e) := by
  unfold eventCan
  split <;> infer_instance

def eventPost (cm : Cm) (e : CmEvent) : Cm :=
  match cm.events with
  | [] => cm
  | .request opener _ :: rest => { cm with events := rest, opener := cm.opener.insert e.id opener }
  | .later _ :: rest => { cm with events := rest }

/-- C calls of the provider's threads. Registrations get keys that no live one has, domains a
    handle that no live one has. -/
def verbCan (w : World) : (v : Verb) → v.Ans → Prop
  | .getCmEvent _, .ok e => eventCan w.cm e
  | .getCmEvent _, .error ret => ret ≠ 0
  | .allocPd _, some pd => ∀ h ∈ w.hca.handles, h.2 ≠ pd
  | .regMr _ _ _, some (mr, _, rkey) => ∀ r ∈ w.hca.regs, r.mr.mr ≠ mr ∧ r.mr.rkey ≠ rkey
  | _, _ => True

def verbPost (t : Tid) (w : World) : (v : Verb) → v.Ans → World
  | .getCmEvent _, .ok e => { w with cm := eventPost w.cm e }
  | .allocPd _, some pd => { w with hca.handles := (.thread t, pd) :: w.hca.handles }
  | .clonePd pd, _ => { w with hca.handles := (.thread t, pd) :: w.hca.handles }
  | .dropPd pd, _ => { w with hca.handles := w.hca.handles.erase (.thread t, pd) }
  | .createQp id pd _, ret =>
      if ret = 0 then { w with hca.qps := w.hca.qps.insert id pd } else w
  | .destroyQp id, _ => { w with hca.qps := w.hca.qps.erase id }
  | .accept id, ret =>
      if ret = 0 then
        let acceptance : Acceptance :=
          { opener := w.cm.opener.lookup id, session := w.tcp.lastSession,
            domain := w.hca.qps.lookup id, domains := w.shared.domains }
        { w with cm.accepted := acceptance :: w.cm.accepted }
      else w
  | .destroyId id, _ =>
      if t = .service then { w with cm.opener := w.cm.opener.erase id } else w
  | .regMr pd addr size, some (mr, lkey, rkey) =>
      let r : Registration := ⟨{ mr, pd, addr, size, lkey, rkey }, (w.log.asking t).getD (0, 0)⟩
      { w with hca.regs := r :: w.hca.regs, hca.made := r :: w.hca.made }
  | .regMr pd addr size, none =>
      let key := (w.log.asking t).getD (0, 0)
      let domain := (w.shared.groups.lookup key.2).map (·.pd.pd)
      { w with hca.refused := ⟨t, w.now, key, domain, pd, addr, size⟩ :: w.hca.refused }
  | _, _ => w

/-- C calls of a reader, on its own machine: the provider sees its connect requests. -/
def readerVerbPost (i : Nat) (w : World) : (v : Verb) → v.Ans → World
  | .connect _, ret => if ret = 0 then { w with cm.inFlight := i :: w.cm.inFlight } else w
  | _, _ => w

/-! ## 4. TCP -/

/-- The first frame of a byte stream, and its length. -/
def takeFrame (bytes : List UInt8) : Option (Message × Nat) :=
  match (readFrame : ExceptT Fault (StateM (List UInt8)) Message).run.run bytes with
  | (.ok m, rest) => some (m, bytes.length - rest.length)
  | (.error _, _) => none

/-- The message that an operation sends. -/
def Op.sends : Op → Option Message
  | .send _ m => some m
  | _ => none

/-- A send ends after the whole frame, or fails after a part of it. -/
def sendCan (m : Message) : Except IoError Unit × Nat → Prop
  | (.ok (), n) => n = m.encode.length
  | (.error _, n) => n < m.encode.length

instance (m : Message) (a : Except IoError Unit × Nat) : Decidable (sendCan m a) := by
  unfold sendCan
  split <;> infer_instance

/-- A receive ends with the next frame, or fails after any number of bytes. -/
def receiveCan (queue : List UInt8) : Except IoError Message × Nat → Prop
  | (.ok m, n) => takeFrame queue = some (m, n)
  | (.error _, n) => n ≤ queue.length

instance (queue : List UInt8) (a : Except IoError Message × Nat) : Decidable (receiveCan queue a) := by
  unfold receiveCan
  split <;> infer_instance

/-- `x` added where the transfer succeeded. -/
def addIf {α : Type} (xs : List α) (x : α) : Except IoError Unit → List α
  | .ok () => xs ++ [x]
  | .error _ => xs

def ChanState.queue (s : ChanState) (byProvider : Bool) : List UInt8 :=
  if byProvider then s.toP else s.toR

def ChanState.send (s : ChanState) (byProvider : Bool) (now : Instant) (m : Message)
    (a : Except IoError Unit × Nat) : ChanState :=
  if byProvider then
    { s with toR := s.toR ++ m.encode.take a.2, sentP := addIf s.sentP m a.1 }
  else
    { s with
      toP := s.toP ++ m.encode.take a.2
      sentR := addIf s.sentR m a.1
      asked := addIf s.asked now a.1 }

def ChanState.receive (s : ChanState) (byProvider : Bool) (a : Except IoError Message × Nat) :
    ChanState :=
  let got := match a.1 with
    | .ok m => [m]
    | .error _ => []
  if byProvider then { s with toP := s.toP.drop a.2, recvP := s.recvP ++ got }
  else { s with toR := s.toR.drop a.2, recvR := s.recvR ++ got }

def Tcp.modify (tcp : Tcp) (c : Chan) (f : ChanState → ChanState) : Tcp :=
  { tcp with chans := tcp.chans.modify c f }

/-! ## 5. The operations -/

/-- `groups.entry(group).or_insert_with(..).connections.push(connection)`. -/
def groupsPushed (groups : HashMap UInt32 GroupEntry) (g : UInt32) (conn : Connection) :
    Option (HashMap UInt32 GroupEntry) :=
  match groups.lookup g, conn.pd with
  | some e, _ => some (groups.insert g { e with connections := e.connections ++ [conn] })
  | none, some pd => some (groups.insert g ⟨pd, [conn]⟩)
  | none, none => none

/-- The handles after a connection with domain `pd` moved into group `g`, which clones it if it is
    new. -/
def handlesPushed (t : Tid) (handles : List (Holder × Nat)) (isNew : Bool) (g : UInt32) (id pd : Nat) :
    List (Holder × Nat) :=
  (if isNew then [(.group g, pd)] else []) ++ (.connection id, pd) :: handles.erase (.thread t, pd)

def pushPost (t : Tid) (w : World) (g : UInt32) (conn : Connection) : World :=
  match groupsPushed w.shared.groups g conn with
  | none => w
  | some groups =>
      let id := conn.id.getD 0
      { w with
        shared.groups := groups
        hca.handles := handlesPushed t w.hca.handles (w.shared.groups.lookup g).isNone g id
          ((conn.pd.map (·.pd)).getD 0)
        cm.servedFor := w.cm.servedFor.insert id (w.tcp.lastSession, g) }

/-- A critical section that inserts a tuple drops the registration it replaces. -/
def tuplesInsertPost (w : World) (id g : UInt32) (mr : MemoryRegion) : World :=
  { w with
    shared.tuples := w.shared.tuples.insert (id, g) mr
    hca.regs := w.hca.regs.filter fun r => some r.mr ≠ w.shared.tuples.lookup (id, g) }

/-- `tuples.clear()` drops every registration stored. -/
def tuplesClearPost (w : World) : World :=
  { w with
    shared.tuples := ∅
    shared.cleared := true
    hca.regs := w.hca.regs.filter fun r => r.mr ∉ (HashMap.toList w.shared.tuples).map Prod.snd }

/-- What the groups and their connections held is in the hands of `t`, which drops them. -/
def Holder.passed (t : Tid) : Holder → Holder
  | .thread u => .thread u
  | .group _ | .connection _ => .thread t

/-- The maps of `Shared` are given up: the catalog is gone, and the groups' entries pass to the
    thread that drops them. -/
def dropSharedPost (t : Tid) (w : World) : World :=
  { w with
    shared.catalog := ∅
    shared.editions := w.shared.editions ++ [∅]
    shared.groups := ∅
    shared.gone := true
    hca.handles := w.hca.handles.map fun h => (h.1.passed t, h.2) }

/-- The end of a thread. -/
def exitPost (t : Tid) (w : World) : World :=
  match t with
  | .service => { w with life.serviceDone := true }
  | .session n => { w with life.finished := n :: w.life.finished }
  | _ => w

/-- Which answers an operation of thread `t` can have. -/
def can (t : Tid) (o : Op) (w : World) (a : o.Ans) : Prop :=
  match o, a with
  | .verb v, a => t.isProvider = true → verbCan w v a
  | .tcpConnect, .ok c => c = w.tcp.chans.length
  | .tcpAccept, some c => c ∈ w.tcp.backlog
  | .send c m, a => c < w.tcp.chans.length ∧ sendCan m a
  | .receive c, a =>
      match w.tcp.chans[c]? with
      | some s => receiveCan (s.queue t.isProvider) a
      | none => False
  | .nextIdGet, a => a = w.app.nextId
  | .isServing, a | .takeService, a => a = w.life.serving
  | .catalogGet id, a => a = w.shared.catalog.lookup id
  | .catalogSnapshot, a => a.Perm (HashMap.toList w.shared.catalog)
  | .groupsGetPd g, a => a = (w.shared.groups.lookup g).map (·.pd)
  | .groupsPush g conn, a =>
      a = if (groupsPushed w.shared.groups g conn).isSome then .ok () else .error .panic
  | .tuplesGet id g, a => a = w.shared.tuples.lookup (id, g)
  | .dropShared, a => a.Perm (HashMap.toList w.shared.groups)
  | .awaitService, a => w.life.started = some a
  -- a relaxed load may miss the store for a while
  | .loadShutdown, a => a = true → w.life.shutdown = true
  | .joinService, _ => w.life.serviceDone = true
  | .spawnSession _ _, a => a = w.life.sessions.length
  | .awaitSession, a =>
      match t with
      | .session n => w.life.sessions[n]? = some a
      | _ => False
  | .isFinished n, a => a = true → n ∈ w.life.finished
  | .joinSession n, _ => n ∈ w.life.finished
  | .deliver, .request opener _ => opener ∈ w.cm.inFlight
  | .deliver, .later e => e.event ≠ .connectRequest ∧ (w.cm.opener.lookup e.id).isSome
  | _, _ => True

/-- The world after an operation of thread `t` was answered by `a`. -/
def post (t : Tid) (o : Op) (a : o.Ans) (w : World) : World :=
  match o, a with
  | .verb v, a =>
      match t with
      | .reader i => readerVerbPost i w v a
      | .net => w
      | .app | .service | .session _ => verbPost t w v a
  | .tcpConnect, .ok c =>
      match t with
      | .reader i =>
          { w with tcp.chans := w.tcp.chans ++ [{ owner := i }], tcp.backlog := c :: w.tcp.backlog }
      | _ => w
  | .tcpAccept, some c =>
      { w with tcp.backlog := w.tcp.backlog.erase c, tcp.lastSession := some c }
  | .send c m, a =>
      { w with tcp := w.tcp.modify c (·.send t.isProvider w.now m a) }
  | .receive c, a => { w with tcp := w.tcp.modify c (·.receive t.isProvider a) }
  | .nextIdSet id, _ => { w with app.nextId := id }
  | .ownersInsert id buffer, _ =>
      { w with
        app.owners := w.app.owners.insert id buffer
        app.assigned := id :: w.app.assigned }
  | .takeService, _ => { w with life.serving := false }
  | .dropOwners, _ => { w with app.owners := ∅ }
  | .catalogInsert id info, _ =>
      { w with
        shared.catalog := w.shared.catalog.insert id info
        shared.editions := w.shared.editions ++ [w.shared.catalog.insert id info] }
  | .groupsGetPd _, some pd => { w with hca.handles := (.thread t, pd.pd) :: w.hca.handles }
  | .groupsPush g conn, _ => pushPost t w g conn
  | .tuplesGet id g, _ => { w with log.asking := Function.update w.log.asking t (some (id, g)) }
  | .tuplesInsert id g mr, _ => tuplesInsertPost w id g mr
  | .tuplesClear, _ => tuplesClearPost w
  | .dropShared, _ => dropSharedPost t w
  | .spawnService listener, _ => { w with life.serving := true, life.started := some listener }
  | .setShutdown, _ => { w with life.shutdown := true }
  | .spawnSession c g, _ => { w with life.sessions := w.life.sessions ++ [(c, g)] }
  | .exit, _ => exitPost t w
  | .note n, _ =>
      { w with log.records := ⟨t, w.now, n⟩ :: w.log.records }
  | .deliver, notice =>
      match notice with
      | .request opener _ =>
          { w with cm.inFlight := w.cm.inFlight.erase opener, cm.events := w.cm.events ++ [notice] }
      | .later _ => { w with cm.events := w.cm.events ++ [notice] }
  | _, _ => w

/-! ## 6. What an operation leaves alone -/

def Op.writesApp : Op → Bool
  | .nextIdSet _ | .ownersInsert _ _ | .dropOwners => true
  | _ => false

def Op.writesShared : Op → Bool
  | .catalogInsert _ _ | .groupsPush _ _ | .tuplesInsert _ _ _ | .tuplesClear | .dropShared => true
  | _ => false

def Op.writesHca : Op → Bool
  | .verb _ | .groupsGetPd _ | .groupsPush _ _ | .tuplesInsert _ _ _ | .tuplesClear
  | .dropShared => true
  | _ => false

def Op.writesLife : Op → Bool
  | .takeService | .spawnService _ | .setShutdown | .spawnSession _ _ | .exit => true
  | _ => false

def Op.writesCm : Op → Bool
  | .verb _ | .groupsPush _ _ | .deliver => true
  | _ => false

def Op.writesTcp : Op → Bool
  | .tcpConnect | .tcpAccept | .send _ _ | .receive _ => true
  | _ => false

def Op.writesLog : Op → Bool
  | .tuplesGet _ _ | .note _ => true
  | _ => false

section Frame

variable {t : Tid} {w : World}

/-- An operation leaves what it does not write. -/
structure Frame (o : Op) (w w' : World) : Prop where
  app : o.writesApp = false → w'.app = w.app
  shared : o.writesShared = false → w'.shared = w.shared
  hca : o.writesHca = false → w'.hca = w.hca
  life : o.writesLife = false → w'.life = w.life
  cm : o.writesCm = false → w'.cm = w.cm
  tcp : o.writesTcp = false → w'.tcp = w.tcp
  log : o.writesLog = false → w'.log = w.log

theorem Frame.same {o : Op} : Frame o w w :=
  ⟨fun _ => rfl, fun _ => rfl, fun _ => rfl, fun _ => rfl, fun _ => rfl, fun _ => rfl, fun _ => rfl⟩

theorem verbPost_frame (v : Verb) (a : v.Ans) : Frame (.verb v) w (verbPost t w v a) := by
  unfold verbPost
  split <;> first
    | exact ⟨fun _ => rfl, fun _ => rfl, nofun, fun _ => rfl, nofun, fun _ => rfl, fun _ => rfl⟩
    | (split <;>
        exact ⟨fun _ => rfl, fun _ => rfl, nofun, fun _ => rfl, nofun, fun _ => rfl, fun _ => rfl⟩)

theorem readerVerbPost_frame (i : Nat) (v : Verb) (a : v.Ans) :
    Frame (.verb v) w (readerVerbPost i w v a) := by
  unfold readerVerbPost
  split
  · split
    · exact ⟨fun _ => rfl, fun _ => rfl, nofun, fun _ => rfl, nofun, fun _ => rfl, fun _ => rfl⟩
    · exact .same
  · exact .same

theorem post_frame (o : Op) (a : o.Ans) : Frame o w (post t o a w) := by
  cases o with
  | verb v =>
      cases t with
      | reader i => exact readerVerbPost_frame i v a
      | net => exact .same
      | app | service | session => exact verbPost_frame v a
  | tcpConnect =>
      cases a with
      | error e => exact .same
      | ok c =>
          cases t with
          | reader i =>
              exact ⟨fun _ => rfl, fun _ => rfl, fun _ => rfl, fun _ => rfl, fun _ => rfl, nofun,
                fun _ => rfl⟩
          | app | service | session | net => exact .same
  | tcpAccept =>
      cases a with
      | none => exact .same
      | some c =>
          exact ⟨fun _ => rfl, fun _ => rfl, fun _ => rfl, fun _ => rfl, fun _ => rfl, nofun,
            fun _ => rfl⟩
  | send | receive =>
      exact ⟨fun _ => rfl, fun _ => rfl, fun _ => rfl, fun _ => rfl, fun _ => rfl, nofun, fun _ => rfl⟩
  | nextIdSet | ownersInsert | dropOwners =>
      exact ⟨nofun, fun _ => rfl, fun _ => rfl, fun _ => rfl, fun _ => rfl, fun _ => rfl, fun _ => rfl⟩
  | catalogInsert =>
      exact ⟨fun _ => rfl, nofun, fun _ => rfl, fun _ => rfl, fun _ => rfl, fun _ => rfl, fun _ => rfl⟩
  | groupsGetPd =>
      cases a with
      | none => exact .same
      | some pd =>
          exact ⟨fun _ => rfl, fun _ => rfl, nofun, fun _ => rfl, fun _ => rfl, fun _ => rfl,
            fun _ => rfl⟩
  | groupsPush g conn =>
      show Frame _ w (pushPost t w g conn)
      unfold pushPost
      split
      · exact .same
      · exact ⟨fun _ => rfl, nofun, nofun, fun _ => rfl, nofun, fun _ => rfl, fun _ => rfl⟩
  | tuplesInsert | tuplesClear | dropShared =>
      exact ⟨fun _ => rfl, nofun, nofun, fun _ => rfl, fun _ => rfl, fun _ => rfl, fun _ => rfl⟩
  | takeService | spawnService | setShutdown | spawnSession =>
      exact ⟨fun _ => rfl, fun _ => rfl, fun _ => rfl, nofun, fun _ => rfl, fun _ => rfl, fun _ => rfl⟩
  | exit =>
      cases t with
      | service | session =>
          exact ⟨fun _ => rfl, fun _ => rfl, fun _ => rfl, nofun, fun _ => rfl, fun _ => rfl,
            fun _ => rfl⟩
      | app | reader | net => exact .same
  | tuplesGet | note =>
      exact ⟨fun _ => rfl, fun _ => rfl, fun _ => rfl, fun _ => rfl, fun _ => rfl, fun _ => rfl, nofun⟩
  | deliver =>
      cases a with
      | request | later =>
          exact ⟨fun _ => rfl, fun _ => rfl, fun _ => rfl, fun _ => rfl, nofun, fun _ => rfl,
            fun _ => rfl⟩
  | _ => exact .same

theorem mem_modify {α : Type} {xs : List α} {i : Nat} {f : α → α} {y : α} (h : y ∈ xs.modify i f) :
    ∃ x ∈ xs, y = x ∨ y = f x := by
  obtain ⟨j, hj⟩ := List.mem_iff_getElem?.mp h
  rw [List.getElem?_modify] at hj
  obtain ⟨x, hx, hy⟩ := Option.map_eq_some_iff.mp hj
  refine ⟨x, List.mem_of_getElem? hx, ?_⟩
  split at hy
  · exact Or.inr hy.symm
  · exact Or.inl hy.symm

theorem ChanState.receive_sentP (s : ChanState) (byProvider : Bool)
    (a : Except IoError Message × Nat) : (s.receive byProvider a).sentP = s.sentP := by
  cases byProvider <;> rfl

/-- The messages that the provider has sent on some connection: a send adds one. -/
theorem sentP_post {o : Op} {a : o.Ans} {s' : ChanState} {m : Message}
    (hs : s' ∈ (post t o a w).tcp.chans) (hm : m ∈ s'.sentP) :
    (∃ s ∈ w.tcp.chans, m ∈ s.sentP) ∨ (t.isProvider = true ∧ ∃ c, o = .send c m) := by
  have hf := post_frame (t := t) (w := w) o a
  have hsame (htcp : (post t o a w).tcp.chans = w.tcp.chans) : ∃ s ∈ w.tcp.chans, m ∈ s.sentP :=
    ⟨s', htcp ▸ hs, hm⟩
  cases o with
  | send c m' =>
      obtain ⟨s, hold, rfl | rfl⟩ := mem_modify hs
      · exact Or.inl ⟨s', hold, hm⟩
      · unfold ChanState.send at hm
        by_cases hp : t.isProvider = true
        · rw [if_pos hp] at hm
          obtain ⟨a, n⟩ := a
          cases a with
          | error e => exact Or.inl ⟨s, hold, hm⟩
          | ok u =>
              rcases List.mem_append.mp hm with hm | hm
              · exact Or.inl ⟨s, hold, hm⟩
              · exact Or.inr ⟨hp, c, by rw [List.mem_singleton.mp hm]⟩
        · rw [if_neg hp] at hm
          exact Or.inl ⟨s, hold, hm⟩
  | receive c =>
      obtain ⟨s, hold, rfl | rfl⟩ := mem_modify hs
      · exact Or.inl ⟨s', hold, hm⟩
      · rw [ChanState.receive_sentP] at hm
        exact Or.inl ⟨s, hold, hm⟩
  | tcpConnect =>
      cases a with
      | error e => exact Or.inl ⟨s', hs, hm⟩
      | ok c =>
          cases t with
          | reader i =>
              rcases List.mem_append.mp hs with hs | hs
              · exact Or.inl ⟨s', hs, hm⟩
              · rw [List.mem_singleton.mp hs] at hm
                cases hm
          | app | service | session | net => exact Or.inl ⟨s', hs, hm⟩
  | tcpAccept =>
      cases a with
      | none => exact Or.inl (hsame rfl)
      | some c => exact Or.inl (hsame rfl)
  | _ => exact Or.inl (hsame (by rw [hf.tcp rfl]))

end Frame

/-! ## 7. The system -/

/-- **The system.** -/
def provider : System Tid Op World Loop Op.Ans where
  code := code
  can := can
  post := post

/-- Its start: nothing is registered, nobody is served. -/
def start : Config Tid Op World Loop Op.Ans := provider.start {} firstLoop

/-! ## 8. Playing a run -/

instance (w : World) (v : Verb) (a : v.Ans) : Decidable (verbCan w v a) := by
  unfold verbCan
  split <;> infer_instance

instance (t : Tid) (o : Op) (w : World) (a : o.Ans) : Decidable (can t o w a) := by
  unfold can
  split <;> first | infer_instance | (split <;> infer_instance)

instance (t : Tid) (o : Op) (w : World) (a : o.Ans) : Decidable (provider.can t o w a) :=
  inferInstanceAs (Decidable (can t o w a))

/-- A number that is not in the list. -/
def unused (ns : List Nat) : Nat := ns.foldr max 0 + 1

/-- The answer to a C call where all goes well. -/
def obligingVerb (w : World) : (v : Verb) → v.Ans
  | .createEventChannel | .createCq _ => some 0
  | .allocPd _ => some (unused (w.hca.handles.map Prod.snd))
  | .createId _ => .ok 0
  | .getCmEvent _ =>
      match w.cm.events with
      | .request _ status :: _ => .ok ⟨unused w.cm.opener.keys, .connectRequest, status⟩
      | .later e :: _ => .ok e
      | [] => .error 1
  | .verbsOf _ => 0
  | .qpOf _ => true
  | .regMr _ _ _ =>
      some (unused (w.hca.regs.map (·.mr.mr)), 0,
        UInt32.ofNat (unused (w.hca.regs.map (·.mr.rkey.toNat))))
  | .bindAddr _ | .listen _ | .resolveAddr _ | .resolveRoute _ | .ackCmEvent | .createQp _ _ _
  | .connect _ | .accept _ | .disconnect _ => (0 : Int)
  | .destroyEventChannel _ | .destroyId _ | .clonePd _ | .dropPd _ | .destroyCq _
  | .destroyQp _ => ()

/-- The answer to an operation of `t` where all goes well. -/
def obliging (t : Tid) (o : Op) (w : World) : o.Ans :=
  match o with
  | .verb v => obligingVerb w v
  | .toSocketAddrs => .ok [.v4]
  | .tcpBind | .armTimeouts _ => .ok ()
  | .tcpConnect => .ok w.tcp.chans.length
  | .tcpAccept => w.tcp.backlog.head?
  | .send _ m => (.ok (), m.encode.length)
  | .receive c =>
      match (w.tcp.chans[c]?).bind fun s => takeFrame (s.queue t.isProvider) with
      | some (m, n) => (.ok m, n)
      | none => (.error ⟨.unexpectedEof, ""⟩, 0)
  | .nextIdGet => w.app.nextId
  | .isServing | .takeService => w.life.serving
  | .loadShutdown => w.life.shutdown
  | .isFinished n => decide (n ∈ w.life.finished)
  | .catalogGet id => w.shared.catalog.lookup id
  | .catalogSnapshot => HashMap.toList w.shared.catalog
  | .groupsGetPd g => (w.shared.groups.lookup g).map (·.pd)
  | .groupsPush g conn =>
      if (groupsPushed w.shared.groups g conn).isSome then .ok () else .error .panic
  | .tuplesGet id g => w.shared.tuples.lookup (id, g)
  | .dropShared => HashMap.toList w.shared.groups
  | .awaitService => w.life.started.getD 0
  | .spawnSession _ _ => w.life.sessions.length
  | .awaitSession =>
      match t with
      | .session n => (w.life.sessions[n]?).getD (0, 0)
      | _ => (0, 0)
  | .nextAppCall => .drop
  | .nextReaderCall => .drop
  | .deliver => .request (w.cm.inFlight.head?.getD 0) 0
  | .nextIdSet _ | .ownersInsert _ _ | .dropOwners | .catalogInsert _ _ | .tuplesInsert _ _ _
  | .tuplesClear | .spawnService _ | .setShutdown | .joinService | .joinSession _ | .exit
  | .note _ => ()

/-- A move of a thread, with the answer it gets. -/
abbrev Move := Tid × ((o : Op) → World → o.Ans)

/-- The next `n` moves of `t`, where all goes well. -/
def moves (t : Tid) (n : Nat) : List Move := List.replicate n (t, obliging t)

/-- The application calls the provider. -/
def calls (call : AppCall) : Move :=
  (.app, fun o w =>
    match o with
    | .nextAppCall => call
    | o => obliging .app o w)

/-- An application calls reader `i`. -/
def asks (i : Nat) (call : ReaderCall) : Move :=
  (.reader i, fun o w =>
    match o with
    | .nextReaderCall => call
    | o => obliging (.reader i) o w)

/-- Reader `i` meets an event on its own channel. -/
def meets (i : Nat) (event : CmEventType) : Move :=
  (.reader i, fun o w =>
    match o with
    | .verb (.getCmEvent _) => .ok ⟨0, event, 0⟩
    | o => obliging (.reader i) o w)

/-- The network delivers a notice to the listener. -/
def delivers (notice : Notice) : List Move :=
  [(.net, fun o w =>
    match o with
    | .deliver => notice
    | o => obliging .net o w), (.net, obliging .net)]

/-- Reader `i` asks for a fresh session of `group`, up to its greeting. -/
def greets (i : Nat) (group : UInt32) : List Move := asks i (.update group) :: moves (.reader i) 4

/-- Reader `i` joins the group and sends its connect request. -/
def connects (i : Nat) : List Move :=
  moves (.reader i) 6 ++ [meets i .addrResolved] ++ moves (.reader i) 2 ++
    [meets i .routeResolved] ++ moves (.reader i) 7

end Rdmalib
