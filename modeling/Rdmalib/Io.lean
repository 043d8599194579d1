/-
  File:      Rdmalib/Io.lean
  Subject:   Results of fallible calls: `std::io::Error`, panics, and the checked arithmetic of
             `usize` and `u64` (an overflow is a panic, as with overflow checks on). One sum is taken
             modulo 2^32 instead, the 32-bit length in `Message::encode`.
-/
import Mathlib.Tactic.Ring

namespace Rdmalib

/-- `std::io::ErrorKind`, the kinds the library builds or receives. -/
inductive ErrorKind where
  | unexpectedEof
  | invalidData
  | invalidInput
  | wouldBlock
  | timedOut
  | unsupported
  | other
  deriving DecidableEq, Repr, Inhabited

/-- `std::io::Error`: a kind and a text. -/
structure IoError where
  kind : ErrorKind
  text : String
  deriving DecidableEq, Repr, Inhabited

/-- `io::Error::other`. -/
def IoError.other (text : String) : IoError := ⟨.other, text⟩

/-- How a Rust call ends when it does not end with `Ok`. `panic` is a panic, or the abort of the
    process where the allocator refuses a buffer. -/
inductive Fault where
  | err (e : IoError)
  | panic
  deriving DecidableEq, Repr, Inhabited

/-- `usize` and `u64` of the 64-bit targets. -/
def wordSize : Nat := 2 ^ 64

/-- `isize::MAX`: no allocation is larger. -/
def isizeMax : Nat := 2 ^ 63 - 1

/-- A buffer of `n` bytes is to be had, from an allocator that grants the sizes `grants`. An empty
    buffer asks it for nothing. -/
def Obtainable (grants : Nat → Bool) (n : Nat) : Prop := n ≤ isizeMax ∧ (n = 0 ∨ grants n = true)

instance (grants : Nat → Bool) (n : Nat) : Decidable (Obtainable grants n) :=
  inferInstanceAs (Decidable (_ ∧ _))

/-- `a - b` on `usize`. -/
def usizeSub (a b : Nat) : Except Fault Nat :=
  if b ≤ a then .ok (a - b) else .error .panic

/-- `a + b` on `usize` and `u64`. -/
def usizeAdd (a b : Nat) : Except Fault Nat :=
  if a + b < wordSize then .ok (a + b) else .error .panic

/-- `a.saturating_add(b)`. -/
def saturatingAdd (a b : Nat) : Nat := min (a + b) (wordSize - 1)

/-- `a.saturating_mul(b)`. -/
def saturatingMul (a b : Nat) : Nat := min (a * b) (wordSize - 1)

/-- `buf[i]`. -/
def indexAt {α : Type} (buf : List α) (i : Nat) : Except Fault α :=
  match buf[i]? with
  | some x => .ok x
  | none => .error .panic

/-- `&buf[start..stop]`. -/
def slice {α : Type} (buf : List α) (start stop : Nat) : Except Fault (List α) :=
  if start ≤ stop ∧ stop ≤ buf.length then .ok ((buf.drop start).take (stop - start))
  else .error .panic

end Rdmalib
