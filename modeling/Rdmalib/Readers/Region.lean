/-
  File:      Rdmalib/Readers/Region.lean
  Subject:   `RemoteMemoryRegion` of `src/readers.rs`: the six entry points that read and write
             a remote region.

  A `&[T]` and a `Vec<T>` are ranges of the local memory (`Slice`); what they hold is read off
  that memory (`elems`). The content of the group's connection slot at the time of a call is an
  argument of the call.
-/
import Rdmalib.Base.LittleEndian
import Rdmalib.Rdma.OneSided

namespace Rdmalib

open Base

/-! ## 1. Element types and buffers -/

/-- `RemoteSafe` (`src/pod.rs`): a type with a layout, of which every bit pattern of `size` bytes
    is a value. -/
class RemoteSafe (T : Type) where
  byteSize : Nat
  byteAlign : Nat
  typeName : String
  bits : T ≃ { bs : List UInt8 // bs.length = byteSize }

export RemoteSafe (byteSize byteAlign typeName bits)

instance : RemoteSafe UInt8 where
  byteSize := 1
  byteAlign := 1
  typeName := "u8"
  bits :=
    { toFun := fun b => ⟨[b], rfl⟩
      invFun := fun v => v.1.headD 0
      left_inv := fun _ => rfl
      right_inv := fun v => by
        obtain ⟨l, h⟩ := v
        obtain ⟨b, rfl⟩ := List.length_eq_one_iff.mp h
        rfl }

/-- A `u64` is its bytes on a little-endian machine. -/
instance : RemoteSafe UInt64 where
  byteSize := 8
  byteAlign := 8
  typeName := "u64"
  bits :=
    { toFun := fun v => ⟨leBytes 8 v.toNat, length_leBytes 8 v.toNat⟩
      invFun := fun bs => UInt64.ofNat (leValue bs.1)
      left_inv := leValue_leBytes_u64
      right_inv := fun bs => Subtype.ext (leBytes_leValue_u64 bs.2) }

/-- A `&[T]`: no slice is larger than `isize::MAX` bytes. -/
structure Slice (T : Type) [RemoteSafe T] where
  ptr : UInt64
  len : UInt64
  bound : len.toNat * byteSize T ≤ isizeMax

/-- `size_of_val`. -/
def Slice.byteLen {T : Type} [RemoteSafe T] (s : Slice T) : Nat := s.len.toNat * byteSize T

/-- The `n` bytes at `a`, with their number. -/
def byteVec (m : Mem) (a n : Nat) : { bs : List UInt8 // bs.length = n } :=
  ⟨m.bytes a n, Mem.length_bytes m a n⟩

/-- The `n` elements of type `T` at `a`. -/
def elems (T : Type) [RemoteSafe T] (m : Mem) (a n : Nat) : List T :=
  (List.range n).map fun i => (bits (T := T)).symm (byteVec m (a + i * byteSize T) (byteSize T))

/-- What a buffer holds. -/
def Slice.elems {T : Type} [RemoteSafe T] (s : Slice T) (m : Mem) : List T :=
  Rdmalib.elems T m s.ptr.toNat s.len.toNat

/-- `h` after `n` bytes at `a` were set to zero. -/
def Host.zeroed (h : Host) (a n : Nat) : Host :=
  { h with mem.loc := Mem.copy (fun _ => 0) 0 h.mem.loc a n }

/-- `zeroed_vec` (and `vec![0u8; len]`): a fresh buffer of `len` all-zero elements. -/
def zeroedVec (T : Type) [RemoteSafe T] (len : UInt64) : Call (Slice T) := do
  let dev ← read
  if given : Obtainable dev.grants (len.toNat * byteSize T) then
    let buffer : Slice T := ⟨dev.alloc, len, given.1⟩
    modify fun h => h.zeroed buffer.ptr.toNat buffer.byteLen
    return buffer
  else
    -- `capacity overflow`, or the abort of `handle_alloc_error`
    throw .panic

/-! ## 2. `GroupConnection` and `RemoteMemoryRegion` -/

/-- The content of a group's connection slot. -/
structure GroupConnection where
  connection : Option Connection
  deriving DecidableEq, Repr

def GroupConnection.empty : GroupConnection := ⟨none⟩

def GroupConnection.get (slot : GroupConnection) : Except Fault Connection :=
  match slot.connection with
  | some c => .ok c
  | none => .error (.err (.other
      "the group has no RDMA connection: a successful update is required first"))

/-- `RemoteMemoryRegion`, without its connection slot. -/
structure RemoteMemoryRegion where
  remoteAddr : UInt64
  size : UInt64
  rkey : UInt32
  group : UInt32
  elemSize : UInt32
  elemAlign : UInt32
  elemType : String
  deriving DecidableEq, Repr

namespace RemoteMemoryRegion

variable (r : RemoteMemoryRegion) (slot : GroupConnection)

/-- Reject a `T` whose layout is not the layout the region is shared as. -/
def checkElem (T : Type) [RemoteSafe T] : Except Fault Unit :=
  if UInt32.ofNat (byteSize T) = r.elemSize ∧ UInt32.ofNat (byteAlign T) = r.elemAlign then .ok ()
  else .error (invalid s!"the region is shared as elements of {r.elemType} (size {r.elemSize
    }, alignment {r.elemAlign}), not {typeName T} (size {byteSize T}, alignment {byteAlign T})")

def readInto (offset size : UInt64) (buf : Slice UInt8) : Call Unit := do
  if size > buf.len then
    throw (invalid s!"read of {size} bytes exceeds the buffer of {buf.len} bytes")
  if saturatingAdd offset.toNat size.toNat > r.size.toNat then
    throw (invalid
      s!"read of {size} bytes at offset {offset} exceeds the region of {r.size} bytes")
  let connection ← slot.get
  let mr ← connection.registerAddr buf.ptr size
  connection.read mr (← usizeAdd r.remoteAddr.toNat offset.toNat) r.rkey size.toNat

def read (offset size : UInt64) : Call (List UInt8) := do
  let buffer ← zeroedVec UInt8 size
  r.readInto slot offset size buffer
  return buffer.elems (← get).mem.loc

def readIntoTyped (T : Type) [RemoteSafe T] (offset : UInt64) (buf : Slice T) : Call Unit := do
  r.checkElem T
  let byteOffset := saturatingMul offset.toNat (byteSize T)
  if saturatingAdd byteOffset buf.byteLen > r.size.toNat then
    throw (invalid s!"read of {buf.len} elements at element offset {offset
      } exceeds the region of {r.size.toNat / byteSize T} elements of {byteSize T} bytes")
  if ¬ byteAlign T ∣ (← usizeAdd r.remoteAddr.toNat byteOffset) then
    throw (invalid
      s!"read at element offset {offset} is misaligned for elements of alignment {byteAlign T}")
  let connection ← slot.get
  let mr ← connection.registerAddr buf.ptr (UInt64.ofNat buf.byteLen)
  connection.read mr (← usizeAdd r.remoteAddr.toNat byteOffset) r.rkey buf.byteLen

def readTyped (T : Type) [RemoteSafe T] (offset count : UInt64) : Call (List T) := do
  let buffer ← zeroedVec T count
  r.readIntoTyped slot T offset buffer
  return buffer.elems (← get).mem.loc

def write (offset : UInt64) (buf : Slice UInt8) : Call Unit := do
  if saturatingAdd offset.toNat buf.len.toNat > r.size.toNat then
    throw (invalid
      s!"write of {buf.len} bytes at offset {offset} exceeds the region of {r.size} bytes")
  let connection ← slot.get
  let mr ← connection.registerAddr buf.ptr buf.len
  connection.write mr (← usizeAdd r.remoteAddr.toNat offset.toNat) r.rkey buf.len.toNat

def writeTyped (T : Type) [RemoteSafe T] (offset : UInt64) (buf : Slice T) : Call Unit := do
  r.checkElem T
  let byteOffset := saturatingMul offset.toNat (byteSize T)
  if saturatingAdd byteOffset buf.byteLen > r.size.toNat then
    throw (invalid s!"write of {buf.len} elements at element offset {offset
      } exceeds the region of {r.size.toNat / byteSize T} elements of {byteSize T} bytes")
  if ¬ byteAlign T ∣ (← usizeAdd r.remoteAddr.toNat byteOffset) then
    throw (invalid
      s!"write at element offset {offset} is misaligned for elements of alignment {byteAlign T}")
  let connection ← slot.get
  let mr ← connection.registerAddr buf.ptr (UInt64.ofNat buf.byteLen)
  connection.write mr (← usizeAdd r.remoteAddr.toNat byteOffset) r.rkey buf.byteLen

end RemoteMemoryRegion

end Rdmalib
