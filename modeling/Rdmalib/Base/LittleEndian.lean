/-
  File:      Rdmalib/Base/LittleEndian.lean
  Subject:   Little-endian byte images of natural numbers, of any width.

  * `leBytes w v` -- the `w` low bytes of `v`, lowest first; `leValue bs` -- the number a byte
    list spells;
  * `leValue_leBytes`, `leBytes_leValue` -- the two are inverse below `256 ^ w`;
  * the fixed widths used by wire formats (`UInt16`, `UInt32`, `UInt64`) as instances.
-/
import Mathlib.Tactic.Ring
import Mathlib.Data.List.Basic

namespace Rdmalib.Base

/-- The `w` low bytes of `v`, lowest first. -/
def leBytes : Nat → Nat → List UInt8
  | 0, _ => []
  | w + 1, v => UInt8.ofNat v :: leBytes w (v / 256)

/-- The number a byte list spells, lowest byte first. -/
def leValue : List UInt8 → Nat
  | [] => 0
  | b :: bs => b.toNat + 256 * leValue bs

@[simp] theorem length_leBytes (w v : Nat) : (leBytes w v).length = w := by
  induction w generalizing v with
  | zero => rfl
  | succ w ih => simp [leBytes, ih]

theorem leValue_lt (bs : List UInt8) : leValue bs < 256 ^ bs.length := by
  induction bs with
  | nil => simp [leValue]
  | cons b bs ih =>
      have hb : b.toNat < 256 := b.toNat_lt
      simp only [leValue, List.length_cons, Nat.pow_succ]
      omega

theorem leValue_leBytes {w v : Nat} (h : v < 256 ^ w) : leValue (leBytes w v) = v := by
  induction w generalizing v with
  | zero => simp at h; simp [leBytes, leValue, h]
  | succ w ih =>
      have hq : v / 256 < 256 ^ w := by
        rw [Nat.pow_succ] at h
        omega
      simp only [leBytes, leValue, ih hq, UInt8.toNat_ofNat']
      omega

theorem leBytes_leValue (bs : List UInt8) : leBytes bs.length (leValue bs) = bs := by
  induction bs with
  | nil => rfl
  | cons b bs ih =>
      have hb : b.toNat < 256 := b.toNat_lt
      have hq : (b.toNat + 256 * leValue bs) / 256 = leValue bs := by omega
      have hr : UInt8.ofNat (b.toNat + 256 * leValue bs) = b := by
        apply UInt8.toNat_inj.mp
        rw [UInt8.toNat_ofNat']
        omega
      simp only [List.length_cons, leValue, leBytes, hq, hr, ih]

/-! ## The widths of the wire -/

theorem leValue_leBytes_u16 (v : UInt16) : UInt16.ofNat (leValue (leBytes 2 v.toNat)) = v := by
  rw [leValue_leBytes (by simpa using v.toNat_lt)]
  exact UInt16.ofNat_toNat

theorem leValue_leBytes_u32 (v : UInt32) : UInt32.ofNat (leValue (leBytes 4 v.toNat)) = v := by
  rw [leValue_leBytes (by simpa using v.toNat_lt)]
  exact UInt32.ofNat_toNat

theorem leValue_leBytes_u64 (v : UInt64) : UInt64.ofNat (leValue (leBytes 8 v.toNat)) = v := by
  rw [leValue_leBytes (by simpa using v.toNat_lt)]
  exact UInt64.ofNat_toNat

theorem leBytes_leValue_u16 {bs : List UInt8} (h : bs.length = 2) :
    leBytes 2 (UInt16.ofNat (leValue bs)).toNat = bs := by
  have hlt := leValue_lt bs
  rw [h] at hlt
  rw [UInt16.toNat_ofNat_of_lt' (by simpa using hlt)]
  simpa [h] using leBytes_leValue bs

theorem leBytes_leValue_u32 {bs : List UInt8} (h : bs.length = 4) :
    leBytes 4 (UInt32.ofNat (leValue bs)).toNat = bs := by
  have hlt := leValue_lt bs
  rw [h] at hlt
  rw [UInt32.toNat_ofNat_of_lt' (by simpa using hlt)]
  simpa [h] using leBytes_leValue bs

theorem leBytes_leValue_u64 {bs : List UInt8} (h : bs.length = 8) :
    leBytes 8 (UInt64.ofNat (leValue bs)).toNat = bs := by
  have hlt := leValue_lt bs
  rw [h] at hlt
  rw [UInt64.toNat_ofNat_of_lt' (by simpa using hlt)]
  simpa [h] using leBytes_leValue bs

end Rdmalib.Base
