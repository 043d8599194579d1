/-
  File:      Rdmalib/Readers/Provider.lean
  Subject:   `RemoteMemoryProvider` of `src/readers.rs`: `update`, `ingest`, `get_remote_mr`.

  The reader's state is passed explicitly; it survives an `update` that fails. A slot of
  `GroupConnection` belongs to the session of one group and is named by it.
-/
import Rdmalib.Rdma.Cm
import Rdmalib.Meta.Channel

namespace Rdmalib

open Base

namespace RemoteMemoryProvider

/-- `RemoteMemoryProvider::new`. -/
def new : RemoteMemoryProvider := ⟨∅, [], ∅⟩

/-! ## 1. `ingest` and `get_remote_mr` -/

def metadataOf (region : RegionDesc) : RemoteMemoryRegionMetadata :=
  { name := region.name, id := region.id, size := region.size, elemSize := region.elemSize,
    elemAlign := region.elemAlign, elemType := region.elemType }

def cachedOf (group : UInt32) (region : RegionDesc) (tuple : TupleDesc) : CachedRegion :=
  { remoteAddr := tuple.remoteAddr, size := tuple.size, rkey := tuple.rkey, group,
    elemSize := region.elemSize, elemAlign := region.elemAlign, elemType := region.elemType }

/-- `tuples_by_id`: of several tuples of one region the last stays. -/
def tuplesById (tuples : List TupleDesc) : HashMap UInt32 TupleDesc :=
  tuples.foldl (fun m tuple => m.insert tuple.regionId tuple) ∅

/-- The body of the loop of `ingest` over the catalog. -/
def ingestRegion (group : UInt32) (byId : HashMap UInt32 TupleDesc)
    (active : HashMap (String × UInt32) (List CachedRegion)) (region : RegionDesc) :
    HashMap (String × UInt32) (List CachedRegion) :=
  let entry := (active.lookup (region.name, region.id)).getD []
  let entry := entry.filter (·.group ≠ group)
  let entry :=
    match byId.lookup region.id with
    | some tuple => entry ++ [cachedOf group region tuple]
    | none => entry
  active.insert (region.name, region.id) entry

/-- `ingest`: the result and the state after it. -/
def ingest (st : RemoteMemoryProvider) (group : UInt32) :
    Message × Message → Except Fault Unit × RemoteMemoryProvider
  | (.metadata regions, .tuples served ts) =>
      if served ≠ group then
        (.error (.err (.other s!"the remote served group {served}, not {group}")), st)
      else
        let active := regions.foldl (ingestRegion group (tuplesById ts)) st.regions
        let live := regions.map fun region => (region.name, region.id)
        (.ok (), { st with
          metadata := regions.map metadataOf
          regions := HashMap.retain active (fun key => decide (key ∈ live)) })
  | _ => (.error (.err (.other
      "the remote replied with something other than the catalog and the tuples")), st)

/-- `get_remote_mr`: the region, without its slot. -/
def getRemoteMr (st : RemoteMemoryProvider) (metadata : RemoteMemoryRegionMetadata)
    (group : Option UInt32) : Option RemoteMemoryRegion := do
  let cached ← (← st.regions.lookup (metadata.name, metadata.id)).find? fun region =>
    group.all (region.group = ·)
  return { remoteAddr := cached.remoteAddr, size := cached.size, rkey := cached.rkey,
           group := cached.group, elemSize := cached.elemSize, elemAlign := cached.elemAlign,
           elemType := cached.elemType }

/-! ## 2. Sessions -/

/-- `sessions.entry(group).or_insert_with(..)`: the group's session. -/
def session (st : RemoteMemoryProvider) (group : UInt32) : GroupSession :=
  (st.sessions.lookup group).getD ⟨none, .empty⟩

def setSession (st : RemoteMemoryProvider) (group : UInt32) (s : GroupSession) :
    RemoteMemoryProvider :=
  { st with sessions := st.sessions.insert group s }

def setChannel (st : RemoteMemoryProvider) (group : UInt32) (c : Option Chan) :
    RemoteMemoryProvider :=
  st.setSession group { st.session group with channel := c }

def setConnection (st : RemoteMemoryProvider) (group : UInt32) (conn : Connection) :
    RemoteMemoryProvider :=
  st.setSession group { st.session group with connection := ⟨some conn⟩ }

end RemoteMemoryProvider

/-! ## 3. `update` -/

/-- `receive_exchange`. -/
def receiveExchange (c : Chan) : Sys (Message × Message) := do
  let catalog ← Channel.receive c
  let tuples ← Channel.receive c
  return (catalog, tuples)

/-- `refresh`. -/
def refresh (c : Chan) : Sys (Message × Message) := do
  Channel.send c .update
  receiveExchange c

namespace RemoteMemoryProvider

/-- The greeting of a fresh session, up to the group join. -/
def greet (group : UInt32) : Sys Chan := do
  let c ← Channel.connect
  Channel.send c (.hello PROTOCOL_VERSION)
  match ← Channel.receive c with
  | .welcome version =>
      if version ≠ PROTOCOL_VERSION then
        throw (.err (.other
          s!"the remote speaks protocol version {version}, not {PROTOCOL_VERSION}"))
  | other => throw (.err (.other s!"expected a greeting reply, got {other.debug}"))
  Channel.send c (.wantGroup group)
  return c

/-- `self.ingest(group, exchange)`, with what it returned. -/
def ingestNoted (st : RemoteMemoryProvider) (group : UInt32) (exchange : Message × Message) :
    Code (Except Fault Unit × RemoteMemoryProvider) := do
  let (result, st) := st.ingest group exchange
  perform (.note (.ingested group result))
  return (result, st)

/-- The fresh session of `update`: greeting, RDMA connection, first exchange. -/
def freshSession (st : RemoteMemoryProvider) (group : UInt32) :
    Code (Except Fault Unit × RemoteMemoryProvider) := do
  match ← (greet group).run with
  | .error e => return (.error e, st)
  | .ok c =>
  match ← Connection.connect.run with
  | .error e => return (.error e, st)
  | .ok conn =>
      -- the assignment to the slot drops the connection it held
      if let some old := (st.session group).connection.connection then
        old.drop
      let st := st.setConnection group conn
      match ← (receiveExchange c).run with
      | .error e => return (.error e, st)
      | .ok exchange => (st.setChannel group (some c)).ingestNoted group exchange

/-- `update`: the result and the state after it. -/
def update (st : RemoteMemoryProvider) (group : UInt32) :
    Code (Except Fault Unit × RemoteMemoryProvider) := do
  let st := st.setSession group (st.session group)
  match (st.session group).channel with
  | some c =>
      match ← (refresh c).run with
      | .ok exchange => st.ingestNoted group exchange
      | .error e => return (.error e, st.setChannel group none)
  | none => st.freshSession group

/-- The drop of the sessions' connections. -/
def dropConnections : List (UInt32 × GroupSession) → Code Unit
  | [] => return ()
  | (_, s) :: rest => do
      if let some conn := s.connection.connection then
        conn.drop
      dropConnections rest

/-- The drop of a reader. -/
def drop (st : RemoteMemoryProvider) : Code Unit := dropConnections (HashMap.toList st.sessions)

end RemoteMemoryProvider

end Rdmalib
