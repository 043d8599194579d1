/-
  File:      Rdmalib/Meta/Channel.lean
  Subject:   `Channel` of `src/meta.rs`: a TCP stream speaking the metadata protocol, and the
             `Debug` texts of messages in its users' errors.
-/
import Rdmalib.Op

namespace Rdmalib

open Base

/-! ## 1. `Channel` -/

/-- `Channel::new`: adopt a stream, arming its timeouts. -/
def Channel.new (c : Chan) : Sys Chan := do
  match ← perform (.armTimeouts c) with
  | .ok () => return c
  | .error e => throw (.err e)

/-- `Channel::connect`. -/
def Channel.connect : Sys Chan := do
  match ← perform .tcpConnect with
  | .ok c => Channel.new c
  | .error e => throw (.err e)

/-- `Channel::send`. -/
def Channel.send (c : Chan) (m : Message) : Sys Unit := do
  match (← perform (.send c m)).1 with
  | .ok () => return ()
  | .error e => throw (.err e)

/-- `Channel::receive`. -/
def Channel.receive (c : Chan) : Sys Message := do
  match (← perform (.receive c)).1 with
  | .ok m => return m
  | .error e => throw (.err e)

/-! ## 2. `{:?}` of a message

A string is quoted with the escapes of `String.quote`, which are not all of them Rust's. -/

def RegionDesc.debug (r : RegionDesc) : String :=
  s!"RegionDesc \x7b id: {r.id}, name: {r.name.quote}, size: {r.size}, elem_size: {r.elemSize
    }, elem_align: {r.elemAlign}, elem_type: {r.elemType.quote} \x7d"

def TupleDesc.debug (t : TupleDesc) : String :=
  s!"TupleDesc \x7b region_id: {t.regionId}, remote_addr: {t.remoteAddr}, size: {t.size
    }, rkey: {t.rkey} \x7d"

def Message.debug : Message → String
  | .hello version => s!"Hello \x7b version: {version} \x7d"
  | .welcome version => s!"Welcome \x7b version: {version} \x7d"
  | .wantGroup group => s!"WantGroup \x7b group: {group} \x7d"
  | .update => "Update"
  | .metadata regions =>
      "Metadata \x7b regions: [" ++ ", ".intercalate (regions.map RegionDesc.debug) ++ "] \x7d"
  | .tuples group ts =>
      s!"Tuples \x7b group: {group}, tuples: [" ++ ", ".intercalate (ts.map TupleDesc.debug) ++
        "] \x7d"

end Rdmalib
