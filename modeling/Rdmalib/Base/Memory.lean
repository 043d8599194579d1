/-
  File:      Rdmalib/Base/Memory.lean
  Subject:   Byte memories, ranges of them, and copies between two of them.
-/
import Mathlib.Tactic.Ring

namespace Rdmalib.Base

/-- A byte memory: a byte at every address. -/
abbrev Mem := Nat → UInt8

namespace Mem

/-- `dst` after `n` bytes from `src` at `s` were copied to `d`. -/
def copy (src : Mem) (s : Nat) (dst : Mem) (d n : Nat) : Mem := fun a =>
  if d ≤ a ∧ a < d + n then src (s + (a - d)) else dst a

/-- The `n` bytes at `a`. -/
def bytes (m : Mem) (a n : Nat) : List UInt8 := (List.range n).map fun i => m (a + i)

variable {src dst : Mem} {s d n : Nat}

theorem copy_inside {i : Nat} (h : i < n) : copy src s dst d n (d + i) = src (s + i) := by
  unfold copy
  rw [if_pos ⟨by omega, by omega⟩]
  congr 1
  omega

theorem copy_outside {a : Nat} (h : a < d ∨ d + n ≤ a) : copy src s dst d n a = dst a := by
  unfold copy
  rw [if_neg (by omega)]

@[simp] theorem length_bytes (m : Mem) (a n : Nat) : (bytes m a n).length = n := by
  simp [bytes]

theorem bytes_eq_iff {m m' : Mem} {a a' : Nat} :
    bytes m a n = bytes m' a' n ↔ ∀ i < n, m (a + i) = m' (a' + i) := by
  simp [bytes]

/-- The range copied to holds what the range copied from held. -/
theorem bytes_copy : bytes (copy src s dst d n) d n = bytes src s n :=
  bytes_eq_iff.mpr fun _ h => copy_inside h

/-- A copy that is too short leaves the last byte of the range behind. -/
theorem bytes_copy_short {k : Nat} (hk : k < n) (hne : dst (d + (n - 1)) ≠ src (s + (n - 1))) :
    bytes (copy src s dst d k) d n ≠ bytes src s n := by
  intro h
  have hlast := bytes_eq_iff.mp h (n - 1) (by omega)
  rw [copy_outside (by omega)] at hlast
  exact hne hlast

end Mem

end Rdmalib.Base
