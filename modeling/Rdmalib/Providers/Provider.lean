/-
  File:      Rdmalib/Providers/Provider.lean
  Subject:   The application's side of `src/providers.rs`: `SharedMemoryRegionProvider` and the
             state `Shared` with the service.
-/
import Rdmalib.Rdma.Cm
import Rdmalib.Meta.Channel

namespace Rdmalib

open Base

/-! ## 1. `Shared` -/

/-- The body of `Shared::tuple_of`. The clone of the domain's handle is dropped at every exit. -/
def Shared.tupleOfBody (id group : UInt32) : Sys (Option Tuple) := do
  match ← perform (.tuplesGet id group) with
  | some mr => return some mr.tuple
  | none =>
  match ← perform (.groupsGetPd group) with
  | none => return none
  | some pd =>
  match ← perform (.catalogGet id) with
  | none =>
      verb (.dropPd pd.pd)
      return none
  | some info =>
  match ← attempt (pd.registerAddr (verb (.regMr pd.pd info.remoteAddr info.size))
      info.remoteAddr info.size) with
  | .error e =>
      verb (.dropPd pd.pd)
      throw e
  | .ok mr =>
      perform (.tuplesInsert id group mr)
      verb (.dropPd pd.pd)
      return some mr.tuple

/-- `Shared::tuple_of`, with what it returned. -/
def Shared.tupleOf (id group : UInt32) : Code (Except Fault (Option Tuple)) := do
  let result ← (Shared.tupleOfBody id group).run
  perform (.note (.tupleOf id group result))
  return result

/-- What the catalog message says of a region. -/
def RegionInfo.desc (id : UInt32) (info : RegionInfo) : RegionDesc :=
  { id, name := info.name, size := info.size, elemSize := info.elemSize,
    elemAlign := info.elemAlign, elemType := info.elemType }

/-- The tuple of a region that `tuple_of` answered with, if it did. -/
def tupleDescs (id : UInt32) : Except Fault (Option Tuple) → List TupleDesc
  | .ok (some (remoteAddr, size, rkey)) => [{ regionId := id, remoteAddr, size, rkey }]
  | _ => []

/-- The tuples of a listing, by the answers of `tuple_of`. -/
def tuplesOf (listing : List (UInt32 × RegionInfo)) (found : List (Except Fault (Option Tuple))) :
    List TupleDesc :=
  (listing.zip found).flatMap fun e => tupleDescs e.1.1 e.2

/-- The loop of `catalog_and_tuples` over the snapshot. -/
def Shared.describe (group : UInt32) :
    List (UInt32 × RegionInfo) → Code (List RegionDesc × List TupleDesc)
  | [] => return ([], [])
  | (id, info) :: rest => do
      let tuple ← Shared.tupleOf id group
      let (regions, tuples) ← Shared.describe group rest
      return (info.desc id :: regions, tupleDescs id tuple ++ tuples)

/-- `Shared::catalog_and_tuples`. -/
def Shared.catalogAndTuples (group : UInt32) : Code (Message × Message) := do
  let catalog ← perform .catalogSnapshot
  let (regions, tuples) ← Shared.describe group catalog
  return (.metadata regions, .tuples group tuples)

/-! ## 2. `SharedMemoryRegionProvider` -/

/-- `register_typed`; `register` is the case of bytes. -/
def registerTyped (name : String) (buffer : Buffer) : Sys UInt32 := do
  -- `assert!(size_of::<T>() > 0)`
  if buffer.elemSize = 0 then
    throw .panic
  let id ← perform .nextIdGet
  if id.toNat + 1 ≥ 2 ^ 32 then
    throw .panic
  perform (.nextIdSet (id + 1))
  perform (.ownersInsert id buffer)
  perform (.catalogInsert id
    { name, remoteAddr := buffer.ptr, size := buffer.size,
      elemSize := UInt32.ofNat buffer.elemSize, elemAlign := UInt32.ofNat buffer.elemAlign,
      elemType := buffer.elemType })
  perform (.note (.registered id))
  return id

/-- `get_shared_mr`. -/
def getSharedMr (id group : UInt32) : Code (Except Fault (Option Tuple)) :=
  Shared.tupleOf id group

/-- `serve`. -/
def serve : Sys Unit := do
  if ← perform .isServing then
    throw (invalid "the provider is already serving")
  match ← perform .tcpBind with
  | .error e => throw (.err e)
  | .ok () =>
      let listener ← Listener.bind
      perform (.spawnService listener.eventChannel)

/-- `ServiceThread::stop`. -/
def ServiceThread.stop : Code Unit := do
  perform .setShutdown
  perform .joinService

/-- The drop of a vector of connections. -/
def Connection.dropAll : List Connection → Code Unit
  | [] => return ()
  | conn :: rest => do
      conn.drop
      Connection.dropAll rest

/-- The drop of a `GroupEntry`: its domain handle, then its connections. -/
def GroupEntry.drop (entry : GroupEntry) : Code Unit := do
  verb (.dropPd entry.pd.pd)
  Connection.dropAll entry.connections

/-- The drop of the groups' entries. -/
def Shared.dropGroups : List (UInt32 × GroupEntry) → Code Unit
  | [] => return ()
  | (_, entry) :: rest => do
      entry.drop
      Shared.dropGroups rest

/-- The drop of the last `Shared`: what its maps held is dropped by this thread. -/
def Shared.drop : Code Unit := do
  let groups ← perform .dropShared
  Shared.dropGroups groups

/-- `Drop for SharedMemoryRegionProvider`, and the drops of its fields after it. -/
def SharedMemoryRegionProvider.drop : Code Unit := do
  if ← perform .takeService then
    ServiceThread.stop
  perform .tuplesClear
  Shared.drop
  perform .dropOwners

/-! ## 3. What the functions perform -/

/-- The operations of `tuple_of` up to its return. -/
def Op.InTuple : Op → Prop
  | .tuplesGet _ _ | .groupsGetPd _ | .catalogGet _ | .tuplesInsert _ _ _ => True
  | .verb (.dropPd _) | .verb (.regMr _ _ _) => True
  | _ => False

/-- The operations of `tuple_of`. -/
def Op.OfTuple : Op → Prop
  | .note (.tupleOf _ _ _) => True
  | o => o.InTuple

theorem ofTuple_of_inTuple {o : Op} (h : o.InTuple) : o.OfTuple := by
  cases o with
  | note => exact h.elim
  | _ => exact h

theorem registerAddr_only (pd : ProtectionDomain) (addr size : UInt64) :
    Only Op.InTuple (pd.registerAddr (verb (.regMr pd.pd addr size)) addr size : Sys MemoryRegion).run := by
  unfold ProtectionDomain.registerAddr
  split
  · exact only_pure
  · refine only_try (only_lift (only_perform trivial)) fun reg => ?_
    cases reg with
    | none => exact only_pure
    | some reg => exact only_pure

theorem tupleOfBody_only (id g : UInt32) : Only Op.InTuple (Shared.tupleOfBody id g).run := by
  unfold Shared.tupleOfBody
  refine only_try (only_lift (only_perform trivial)) fun found => ?_
  cases found with
  | some mr => exact only_pure
  | none =>
  refine only_try (only_lift (only_perform trivial)) fun pd => ?_
  cases pd with
  | none => exact only_pure
  | some pd =>
  refine only_try (only_lift (only_perform trivial)) fun info => ?_
  cases info with
  | none => exact only_try (only_lift (only_perform trivial)) fun _ => only_pure
  | some info =>
  refine only_try (only_lift (registerAddr_only pd info.remoteAddr info.size)) fun r => ?_
  cases r with
  | error e => exact only_try (only_lift (only_perform trivial)) fun _ => only_pure
  | ok mr =>
      exact only_try (only_lift (only_perform trivial)) fun _ =>
        only_try (only_lift (only_perform trivial)) fun _ => only_pure

theorem tupleOf_only (id g : UInt32) : Only Op.OfTuple (Shared.tupleOf id g) :=
  only_bind ((tupleOfBody_only id g).mono fun _ => ofTuple_of_inTuple) fun _ =>
    only_bind (only_perform trivial) fun _ => only_pure

/-- The drop of connections performs what the drop of one does. -/
theorem dropGroups_only {C : Op → Prop} (hdrop : ∀ o, o.TearsDown → C o)
    (groups : List (UInt32 × GroupEntry)) : Only C (Shared.dropGroups groups) := by
  have hall (conns : List Connection) : Only C (Connection.dropAll conns) := by
    induction conns with
    | nil => exact only_pure
    | cons conn rest ih => exact only_bind ((drop_tearsDown conn).mono hdrop) fun _ => ih
  induction groups with
  | nil => exact only_pure
  | cons e rest ih =>
      exact only_bind (only_bind (only_perform (hdrop (.verb (.dropPd e.2.pd.pd)) trivial)) fun _ =>
        hall e.2.connections) fun _ => ih

/-- What the drop of the provider performs once its service has ended. -/
theorem clear_only {C : Op → Prop} (hclear : C .tuplesClear) (hshared : C .dropShared)
    (howners : C .dropOwners) (hdrop : ∀ o, o.TearsDown → C o) : Only C (do
      perform .tuplesClear
      Shared.drop
      perform .dropOwners : Code Unit) :=
  only_bind (only_perform hclear) fun _ =>
    only_bind (only_bind (only_perform hshared) fun groups => dropGroups_only hdrop groups)
      fun _ => only_perform howners

/-- An operation that has nothing to do with the catalog, the tuples or the messages. -/
def Op.Still : Op → Prop
  | .verb (.regMr _ _ _) => False
  | .verb _ | .toSocketAddrs | .tcpBind | .armTimeouts _ | .nextIdGet | .nextIdSet _
  | .ownersInsert _ _ | .isServing | .takeService | .dropOwners | .tuplesInsert _ _ _ | .tuplesClear
  | .dropShared | .spawnService _ | .awaitService | .setShutdown | .loadShutdown | .joinService
  | .isFinished _ | .joinSession _ | .exit | .nextAppCall | .nextReaderCall | .deliver
  | .note .panicked => True
  | _ => False

theorem still_of_cmOp {o : Op} (h : CmOp o) : o.Still := by
  cases o with
  | verb v =>
      cases v with
      | regMr => exact h
      | _ => trivial
  | toSocketAddrs => trivial
  | _ => exact absurd h id

theorem still_of_tearsDown {o : Op} (h : o.TearsDown) : o.Still := still_of_cmOp (cmOp_of_tearsDown h)

theorem channelNew_still (c : Chan) : Only Op.Still (Channel.new c).run := by
  refine only_try (only_lift (only_perform trivial)) fun armed => ?_
  cases armed with
  | ok u => exact only_pure
  | error e => exact only_pure

theorem serve_still : Only Op.Still serve.run := by
  unfold serve
  refine only_try (only_lift (only_perform trivial)) fun serving => ?_
  cases serving with
  | true => exact only_pure
  | false =>
  refine only_try (only_lift (only_perform trivial)) fun bound => ?_
  cases bound with
  | error e => exact only_pure
  | ok u =>
      exact only_try (bind_only.mono fun _ => still_of_cmOp) fun listener =>
        only_lift (only_perform (o := Op.spawnService listener.eventChannel) trivial)

theorem providerDrop_still : Only Op.Still SharedMemoryRegionProvider.drop := by
  have hclear := clear_only (C := Op.Still) trivial trivial trivial fun _ => still_of_tearsDown
  unfold SharedMemoryRegionProvider.drop
  refine only_bind (only_perform trivial) fun serving => ?_
  cases serving with
  | false => exact hclear
  | true =>
      exact only_bind (only_bind (only_perform trivial) fun _ => only_perform trivial) fun _ => hclear

end Rdmalib
