/-
  File:      Rdmalib/Meta/Wire.lean
  Subject:   The wire protocol of `src/meta.rs`: messages, `Message::encode`, `decode`,
             `read_frame`, `write_frame`.

  A byte stream is a `List UInt8`; Rust's integers keep their widths (`UInt16`, `UInt32`,
  `UInt64`), Rust's strings are Lean's, which carry the proof that their bytes are UTF-8. The
  cursor `Reader` is the source's, with its position and its slice: an out-of-range slice or a
  `usize` underflow is a panic here, not a silent truncation.
-/
import Rdmalib.Io
import Rdmalib.Base.LittleEndian
import Rdmalib.Base.Codec

namespace Rdmalib

open Base

/-! ## 1. Messages -/

/-- The protocol version this library speaks. -/
def PROTOCOL_VERSION : UInt16 := 1

/-- Largest accepted frame. -/
def MAX_FRAME : Nat := 1 <<< 20

def MSG_HELLO : UInt8 := 1
def MSG_WELCOME : UInt8 := 2
def MSG_WANT_GROUP : UInt8 := 3
def MSG_UPDATE : UInt8 := 4
def MSG_METADATA : UInt8 := 5
def MSG_TUPLES : UInt8 := 6

/-- A region as advertised in the catalog. -/
structure RegionDesc where
  id : UInt32
  name : String
  size : UInt64
  elemSize : UInt32
  elemAlign : UInt32
  elemType : String
  deriving DecidableEq, Repr

/-- One (remote_addr, size, rkey) tuple, of the region `regionId`. -/
structure TupleDesc where
  regionId : UInt32
  remoteAddr : UInt64
  size : UInt64
  rkey : UInt32
  deriving DecidableEq, Repr

/-- One message of the metadata exchange. -/
inductive Message where
  | hello (version : UInt16)
  | welcome (version : UInt16)
  | wantGroup (group : UInt32)
  | update
  | metadata (regions : List RegionDesc)
  | tuples (group : UInt32) (tuples : List TupleDesc)
  deriving DecidableEq, Repr

/-! ## 2. The encoder -/

/-- `v.to_le_bytes()`. -/
def u16Bytes (v : UInt16) : List UInt8 := leBytes 2 v.toNat
def u32Bytes (v : UInt32) : List UInt8 := leBytes 4 v.toNat
def u64Bytes (v : UInt64) : List UInt8 := leBytes 8 v.toNat

/-- `s.as_bytes()`. -/
def strBytes (s : String) : List UInt8 := s.toByteArray.data.toList

def putU16 (buf : List UInt8) (v : UInt16) : List UInt8 := buf ++ u16Bytes v
def putU32 (buf : List UInt8) (v : UInt32) : List UInt8 := buf ++ u32Bytes v
def putU64 (buf : List UInt8) (v : UInt64) : List UInt8 := buf ++ u64Bytes v

/-- The byte length as a `u32` (a truncating cast), then the bytes. -/
def putStr (buf : List UInt8) (s : String) : List UInt8 :=
  putU32 buf (UInt32.ofNat (strBytes s).length) ++ strBytes s

/-- The body of the loop over `regions` in `Message::encode`. -/
def putRegion (payload : List UInt8) (region : RegionDesc) : List UInt8 :=
  let payload := putU32 payload region.id
  let payload := putStr payload region.name
  let payload := putU64 payload region.size
  let payload := putU32 payload region.elemSize
  let payload := putU32 payload region.elemAlign
  putStr payload region.elemType

/-- The body of the loop over `tuples` in `Message::encode`. -/
def putTuple (payload : List UInt8) (tuple : TupleDesc) : List UInt8 :=
  let payload := putU32 payload tuple.regionId
  let payload := putU64 payload tuple.remoteAddr
  let payload := putU64 payload tuple.size
  putU32 payload tuple.rkey

/-- The payload and the type code of a message (the `match` of `Message::encode`). -/
def Message.body : Message → List UInt8 × UInt8
  | .hello version => (putU16 [] version, MSG_HELLO)
  | .welcome version => (putU16 [] version, MSG_WELCOME)
  | .wantGroup group => (putU32 [] group, MSG_WANT_GROUP)
  | .update => ([], MSG_UPDATE)
  | .metadata regions =>
      (regions.foldl putRegion (putU32 [] (UInt32.ofNat regions.length)), MSG_METADATA)
  | .tuples group ts =>
      (ts.foldl putTuple (putU32 (putU32 [] group) (UInt32.ofNat ts.length)), MSG_TUPLES)

def Message.payload (m : Message) : List UInt8 := m.body.1

def Message.ty (m : Message) : UInt8 := m.body.2

/-- The message as one framed wire image: `[len][type][payload]`, `len` counting the type byte.
    The length is a truncating cast of `payload.len()`, and the addition wraps: with overflow checks
    on, the source panics where the cast is 2^32 - 1. A result that turns on this takes such a
    length out of its runs. -/
def Message.encode (m : Message) : List UInt8 :=
  let (payload, ty) := m.body
  let frame := putU32 [] (1 + UInt32.ofNat payload.length)
  let frame := frame ++ [ty]
  frame ++ payload

/-! ## 3. The cursor over a received payload -/

/-- A protocol violation as an `io::Error`. -/
def bad (text : String) : Fault := .err ⟨.invalidData, text⟩

structure Reader where
  buf : List UInt8
  pos : Nat
  deriving DecidableEq, Repr

namespace Reader

/-- The next `len` bytes, advancing past them. -/
def take (len : Nat) : StateT Reader (Except Fault) (List UInt8) := fun r => do
  let left ← usizeSub r.buf.length r.pos
  if len > left then
    throw (bad "the payload ends mid-message")
  let stop ← usizeAdd r.pos len
  let bytes ← slice r.buf r.pos stop
  return (bytes, { r with pos := stop })

def u16 : StateT Reader (Except Fault) UInt16 := do
  let bytes ← take 2
  let b0 ← indexAt bytes 0
  let b1 ← indexAt bytes 1
  return UInt16.ofNat (leValue [b0, b1])

def u32 : StateT Reader (Except Fault) UInt32 := do
  let bytes ← take 4
  let b0 ← indexAt bytes 0
  let b1 ← indexAt bytes 1
  let b2 ← indexAt bytes 2
  let b3 ← indexAt bytes 3
  return UInt32.ofNat (leValue [b0, b1, b2, b3])

/-- `raw.copy_from_slice(bytes)` panics unless the lengths agree. -/
def u64 : StateT Reader (Except Fault) UInt64 := do
  let bytes ← take 8
  if bytes.length ≠ 8 then
    throw .panic
  return UInt64.ofNat (leValue bytes)

def string : StateT Reader (Except Fault) String := do
  let len ← u32
  let bytes ← take len.toNat
  match String.fromUTF8? bytes.toByteArray with
  | some s => return s
  | none => throw (bad "a string is not valid UTF-8")

/-- The payload must end here. -/
def done : StateT Reader (Except Fault) Unit := fun r =>
  if r.pos = r.buf.length then .ok ((), r)
  else .error (bad "trailing bytes after the payload")

end Reader

/-! ## 4. The decoder -/

/-- The body of the `MSG_METADATA` loop. -/
def regionDesc : StateT Reader (Except Fault) RegionDesc := do
  let id ← Reader.u32
  let name ← Reader.string
  let size ← Reader.u64
  let elemSize ← Reader.u32
  let elemAlign ← Reader.u32
  let elemType ← Reader.string
  return { id, name, size, elemSize, elemAlign, elemType }

/-- The body of the `MSG_TUPLES` loop. -/
def tupleDesc : StateT Reader (Except Fault) TupleDesc := do
  let regionId ← Reader.u32
  let remoteAddr ← Reader.u64
  let size ← Reader.u64
  let rkey ← Reader.u32
  return { regionId, remoteAddr, size, rkey }

/-- The `match` of `decode` on the message type. -/
def decodeBody (ty : UInt8) : StateT Reader (Except Fault) Message :=
  if ty = MSG_HELLO then return .hello (← Reader.u16)
  else if ty = MSG_WELCOME then return .welcome (← Reader.u16)
  else if ty = MSG_WANT_GROUP then return .wantGroup (← Reader.u32)
  else if ty = MSG_UPDATE then return .update
  else if ty = MSG_METADATA then do
    let count ← Reader.u32
    let regions ← times regionDesc count.toNat []
    return .metadata regions
  else if ty = MSG_TUPLES then do
    let group ← Reader.u32
    let count ← Reader.u32
    let tuples ← times tupleDesc count.toNat []
    return .tuples group tuples
  else throw (bad s!"unknown message type {ty}")

/-- Decode the message of type `ty` from its `payload`, which must be consumed exactly. -/
def decode (ty : UInt8) (payload : List UInt8) : Except Fault Message := do
  let (msg, r) ← decodeBody ty { buf := payload, pos := 0 }
  let _ ← Reader.done r
  return msg

/-! ## 5. Frames on a stream -/

/-- `std::io::Read`, as far as `read_frame` uses it. -/
class Read (σ : Type) where
  readExact : Nat → σ → Except IoError (List UInt8) × σ

/-- `read_exact` on a stream. -/
def readExact {σ : Type} [Read σ] (n : Nat) : ExceptT Fault (StateM σ) (List UInt8) := fun s =>
  match Read.readExact n s with
  | (.ok bytes, s') => (.ok bytes, s')
  | (.error e, s') => (.error (.err e), s')

/-- Read one frame from `stream` and decode it. -/
def readFrame {σ : Type} [Read σ] : ExceptT Fault (StateM σ) Message := do
  let header ← readExact 5
  let len := (UInt32.ofNat (leValue (header.take 4))).toNat
  if len = 0 ∨ len > MAX_FRAME then
    throw (bad s!"frame length {len} is out of range")
  let payload ← readExact (len - 1)
  let ty ← indexAt header 4
  decode ty payload

/-- A finite byte stream read from its start (`std::io::Cursor`): a short read ends with
    `UnexpectedEof` and leaves nothing behind. -/
instance : Read (List UInt8) where
  readExact n s :=
    if n ≤ s.length then (.ok (s.take n), s.drop n)
    else (.error ⟨.unexpectedEof, "failed to fill whole buffer"⟩, [])

/-- Encode `msg` and write its frame to a stream collecting bytes. -/
def writeFrame (stream : List UInt8) (msg : Message) : List UInt8 := stream ++ msg.encode

end Rdmalib
