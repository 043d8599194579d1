/-
  File:      Rdmalib/Op.lean
  Subject:   The atomic operations of the two sides: C calls of libibverbs and librdmacm, TCP,
             the mutex critical sections of the provider, and the life of its threads.

  The code of `src/rdma/verbs.rs`, `src/providers.rs` and `src/readers.rs` is written over these
  (`Sys`): every C call, every critical section, every send and receive is one operation, and
  what comes back is up to the world. A `note` performs nothing: it records what a call returned.
-/
import Rdmalib.Base.HashMap
import Rdmalib.Base.Prog
import Rdmalib.Meta.Wire
import Rdmalib.Readers.Region

namespace Rdmalib

open Base

/-! ## 1. The C calls -/

/-- `rdma_cm_event_type`, the events the library waits for and those it only meets. -/
inductive CmEventType where
  | addrResolved
  | routeResolved
  | connectRequest
  | established
  | disconnected
  | other (code : Nat)
  deriving DecidableEq, Repr, Inhabited

/-- `struct rdma_cm_event`. -/
structure CmEvent where
  id : Nat
  event : CmEventType
  status : Int
  deriving DecidableEq, Repr, Inhabited

/-- The child id of a connect request, if the event is one. -/
def CmEvent.child (e : CmEvent) : Option Nat := if e.event = .connectRequest then some e.id else none

/-- A C call. Handles (`rdma_cm_id`, `rdma_event_channel`, `ibv_cq`, `ibv_pd`) are numbers; `qpOf`
    and `verbsOf` read a field of an id; `clonePd` and `dropPd` clone and drop a handle of a
    protection domain, which is deallocated with its last one. -/
inductive Verb where
  | createEventChannel
  | destroyEventChannel (channel : Nat)
  | createId (channel : Nat)
  | destroyId (id : Nat)
  | bindAddr (id : Nat)
  | listen (id : Nat)
  | resolveAddr (id : Nat)
  | resolveRoute (id : Nat)
  | getCmEvent (channel : Nat)
  | ackCmEvent
  | verbsOf (id : Nat)
  | allocPd (context : Nat)
  | clonePd (pd : Nat)
  | dropPd (pd : Nat)
  | createCq (context : Nat)
  | destroyCq (cq : Nat)
  | createQp (id pd cq : Nat)
  | destroyQp (id : Nat)
  | qpOf (id : Nat)
  | connect (id : Nat)
  | accept (id : Nat)
  | disconnect (id : Nat)
  | regMr (pd : Nat) (addr size : UInt64)
  deriving DecidableEq, Repr

/-- What a C call returns: a null pointer is `none`, a non-zero return value an `error`. -/
@[reducible] def Verb.Ans : Verb → Type
  | .createEventChannel | .allocPd _ | .createCq _ => Option Nat
  | .createId _ => Except Int Nat
  | .getCmEvent _ => Except Int CmEvent
  | .bindAddr _ | .listen _ | .resolveAddr _ | .resolveRoute _ | .ackCmEvent | .createQp _ _ _
  | .connect _ | .accept _ | .disconnect _ => Int
  | .verbsOf _ => Nat
  | .qpOf _ => Bool
  | .regMr _ _ _ => Option (Nat × UInt32 × UInt32)
  | .destroyEventChannel _ | .destroyId _ | .clonePd _ | .dropPd _ | .destroyCq _
  | .destroyQp _ => Unit

instance : (v : Verb) → Inhabited v.Ans
  | .createEventChannel | .allocPd _ | .createCq _ => inferInstanceAs (Inhabited (Option Nat))
  | .createId _ => inferInstanceAs (Inhabited (Except Int Nat))
  | .getCmEvent _ => inferInstanceAs (Inhabited (Except Int CmEvent))
  | .bindAddr _ | .listen _ | .resolveAddr _ | .resolveRoute _ | .ackCmEvent | .createQp _ _ _
  | .connect _ | .accept _ | .disconnect _ => inferInstanceAs (Inhabited Int)
  | .verbsOf _ => inferInstanceAs (Inhabited Nat)
  | .qpOf _ => inferInstanceAs (Inhabited Bool)
  | .regMr _ _ _ => inferInstanceAs (Inhabited (Option (Nat × UInt32 × UInt32)))
  | .destroyEventChannel _ | .destroyId _ | .clonePd _ | .dropPd _ | .destroyCq _
  | .destroyQp _ => inferInstanceAs (Inhabited Unit)

/-! ## 2. Data the operations carry -/

/-- A TCP connection. -/
abbrev Chan := Nat

/-- `std::net::SocketAddr`: which of the two kinds. -/
inductive SocketAddr where
  | v4
  | v6
  deriving DecidableEq, Repr

/-- The `Vec<T>` of some element type that `register_typed` takes. -/
structure Buffer where
  ptr : UInt64
  len : UInt64
  elemSize : Nat
  elemAlign : Nat
  elemType : String
  bound : len.toNat * elemSize ≤ isizeMax
  deriving DecidableEq, Repr

/-- The buffer's size in bytes. -/
def Buffer.size (b : Buffer) : UInt64 := UInt64.ofNat (b.len.toNat * b.elemSize)

/-- `RegionInfo`: a region's entry in the catalog. -/
structure RegionInfo where
  name : String
  remoteAddr : UInt64
  size : UInt64
  elemSize : UInt32
  elemAlign : UInt32
  elemType : String
  deriving DecidableEq, Repr

/-- A (remote_addr, size, rkey) tuple. -/
abbrev Tuple := UInt64 × UInt64 × UInt32

/-- `MemoryRegion::tuple`. -/
def MemoryRegion.tuple (mr : MemoryRegion) : Tuple := (mr.addr, mr.size, mr.rkey)

/-- `RemoteMemoryRegionMetadata`. -/
structure RemoteMemoryRegionMetadata where
  name : String
  id : UInt32
  size : UInt64
  elemSize : UInt32
  elemAlign : UInt32
  elemType : String
  deriving DecidableEq, Repr

/-- `CachedRegion`. -/
structure CachedRegion where
  remoteAddr : UInt64
  size : UInt64
  rkey : UInt32
  group : UInt32
  elemSize : UInt32
  elemAlign : UInt32
  elemType : String
  deriving DecidableEq, Repr

/-- `GroupSession`: the metadata channel and the group's connection slot. -/
structure GroupSession where
  channel : Option Chan
  connection : GroupConnection
  deriving DecidableEq, Repr

/-- `GroupEntry`. -/
structure GroupEntry where
  pd : ProtectionDomain
  connections : List Connection
  deriving DecidableEq, Repr

/-- `RemoteMemoryProvider`: the reader's state. -/
structure RemoteMemoryProvider where
  sessions : HashMap UInt32 GroupSession
  metadata : List RemoteMemoryRegionMetadata
  regions : HashMap (String × UInt32) (List CachedRegion)

/-- What the application asks the provider for. -/
inductive AppCall where
  | registerTyped (name : String) (buffer : Buffer)
  | getSharedMr (id group : UInt32)
  | serve
  | drop
  deriving DecidableEq, Repr, Inhabited

/-- What the application asks a reader for. -/
inductive ReaderCall where
  | update (group : UInt32)
  | drop
  deriving DecidableEq, Repr, Inhabited

/-- What is recorded of a call. -/
inductive Note where
  /-- `register_typed` returned the handle of region `id`. -/
  | registered (id : UInt32)
  /-- `tuple_of(id, group)` returned. -/
  | tupleOf (id group : UInt32) (result : Except Fault (Option Tuple))
  /-- `update(group)` was called. -/
  | updateBegins (group : UInt32)
  /-- `ingest` of `group` returned. -/
  | ingested (group : UInt32) (result : Except Fault Unit)
  /-- `update(group)` returned, leaving the reader in `state`. -/
  | updateReturns (group : UInt32) (result : Except Fault Unit) (state : RemoteMemoryProvider)
  /-- The thread panicked. -/
  | panicked

/-! ## 3. The operations -/

inductive Op where
  | verb (v : Verb)
  -- TCP and names
  | toSocketAddrs
  | tcpBind
  | tcpConnect
  | tcpAccept
  | armTimeouts (c : Chan)
  | send (c : Chan) (m : Message)
  | receive (c : Chan)
  -- the provider's state on the application thread
  | nextIdGet
  | nextIdSet (id : UInt32)
  | ownersInsert (id : UInt32) (buffer : Buffer)
  | isServing
  | takeService
  | dropOwners
  -- critical sections of `Shared`
  | catalogInsert (id : UInt32) (info : RegionInfo)
  | catalogGet (id : UInt32)
  | catalogSnapshot
  | groupsGetPd (group : UInt32)
  | groupsPush (group : UInt32) (connection : Connection)
  | tuplesGet (id group : UInt32)
  | tuplesInsert (id group : UInt32) (mr : MemoryRegion)
  | tuplesClear
  | dropShared
  -- threads
  | spawnService (listener : Nat)
  | awaitService
  | setShutdown
  | loadShutdown
  | joinService
  | spawnSession (c : Chan) (group : UInt32)
  | awaitSession
  | isFinished (session : Nat)
  | joinSession (session : Nat)
  | exit
  -- the callers, and what is recorded
  | nextAppCall
  | nextReaderCall
  | note (n : Note)
  -- the network
  | deliver

/-- A connection-manager notice under way to the listener's event channel. -/
inductive Notice where
  /-- A connect request opened by reader `opener`. -/
  | request (opener : Nat) (status : Int)
  /-- An event of an id the listener already knows. -/
  | later (event : CmEvent)
  deriving DecidableEq, Repr, Inhabited

@[reducible] def Op.Ans : Op → Type
  | .verb v => v.Ans
  | .toSocketAddrs => Except IoError (List SocketAddr)
  | .tcpBind => Except IoError Unit
  | .tcpConnect => Except IoError Chan
  | .tcpAccept => Option Chan
  | .armTimeouts _ => Except IoError Unit
  -- the result, and how many bytes were written or read
  | .send _ _ => Except IoError Unit × Nat
  | .receive _ => Except IoError Message × Nat
  | .nextIdGet => UInt32
  | .isServing | .takeService | .loadShutdown | .isFinished _ => Bool
  | .catalogGet _ => Option RegionInfo
  | .catalogSnapshot => List (UInt32 × RegionInfo)
  | .groupsGetPd _ => Option ProtectionDomain
  | .groupsPush _ _ => Except Fault Unit
  | .tuplesGet _ _ => Option MemoryRegion
  -- the groups, in the order in which the map drops them
  | .dropShared => List (UInt32 × GroupEntry)
  | .awaitService => Nat
  | .spawnSession _ _ => Nat
  | .awaitSession => Chan × UInt32
  | .nextAppCall => AppCall
  | .nextReaderCall => ReaderCall
  | .deliver => Notice
  | .nextIdSet _ | .ownersInsert _ _ | .dropOwners | .catalogInsert _ _ | .tuplesInsert _ _ _
  | .tuplesClear | .spawnService _ | .setShutdown | .joinService | .joinSession _
  | .exit | .note _ => Unit

/-- Every operation can be answered. -/
instance : (o : Op) → Inhabited o.Ans
  | .verb v => inferInstanceAs (Inhabited v.Ans)
  | .toSocketAddrs => inferInstanceAs (Inhabited (Except IoError (List SocketAddr)))
  | .tcpBind | .armTimeouts _ => inferInstanceAs (Inhabited (Except IoError Unit))
  | .tcpConnect => inferInstanceAs (Inhabited (Except IoError Chan))
  | .tcpAccept => inferInstanceAs (Inhabited (Option Chan))
  | .send _ _ => inferInstanceAs (Inhabited (Except IoError Unit × Nat))
  | .receive _ => inferInstanceAs (Inhabited (Except IoError Message × Nat))
  | .nextIdGet => inferInstanceAs (Inhabited UInt32)
  | .isServing | .takeService | .loadShutdown | .isFinished _ => inferInstanceAs (Inhabited Bool)
  | .catalogGet _ => inferInstanceAs (Inhabited (Option RegionInfo))
  | .catalogSnapshot => inferInstanceAs (Inhabited (List (UInt32 × RegionInfo)))
  | .groupsGetPd _ => inferInstanceAs (Inhabited (Option ProtectionDomain))
  | .groupsPush _ _ => inferInstanceAs (Inhabited (Except Fault Unit))
  | .tuplesGet _ _ => inferInstanceAs (Inhabited (Option MemoryRegion))
  | .dropShared => inferInstanceAs (Inhabited (List (UInt32 × GroupEntry)))
  | .awaitService | .spawnSession _ _ => inferInstanceAs (Inhabited Nat)
  | .awaitSession => inferInstanceAs (Inhabited (Chan × UInt32))
  | .nextAppCall => inferInstanceAs (Inhabited AppCall)
  | .nextReaderCall => inferInstanceAs (Inhabited ReaderCall)
  | .deliver => inferInstanceAs (Inhabited Notice)
  | .nextIdSet _ | .ownersInsert _ _ | .dropOwners | .catalogInsert _ _ | .tuplesInsert _ _ _
  | .tuplesClear | .spawnService _ | .setShutdown | .joinService | .joinSession _
  | .exit | .note _ => inferInstanceAs (Inhabited Unit)

/-- Code that performs operations. -/
abbrev Code := Prog Op Op.Ans

/-- Code with early returns: an `io::Result` or a panic. -/
abbrev Sys := ExceptT Fault Code

/-- The result of `x`, not returned early. -/
def attempt {α : Type} (x : Sys α) : Sys (Except Fault α) := ExceptT.lift x.run

def perform (o : Op) : Code o.Ans := Prog.perform o

def verb (v : Verb) : Code v.Ans := Prog.perform (Op.verb v)

end Rdmalib
