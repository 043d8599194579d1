/-
  File:      Rdmalib/Base/Text.lean
  Subject:   Texts made of fields and numerals.

  * `pieces` -- the fields between the occurrences of a character; splitting and joining are inverse
    to each other (`pieces_eq_iff`);
  * `readNumeral` -- an unsigned decimal number below a bound, checked for overflow at every digit;
    it reads exactly the numerals of numbers below the bound (`readNumeral_ok_iff`);
  * reading one after the other: all are read iff each is (`mapM_ok_iff`), and else the first error
    counts (`mapM_error`).
-/
import Mathlib.Data.List.Forall2

namespace Rdmalib.Base

/-! ## 1. Fields -/

/-- The fields of a text, between the occurrences of `sep`. -/
def pieces (sep : Char) (s : String) : List String := (s.toList.splitOn sep).map String.ofList

/-- The fields with `sep` between them. -/
def joined (sep : Char) (ps : List String) : String := (String.singleton sep).intercalate ps

section Fields

variable {sep : Char} {s : String} {ps : List String}

theorem toList_joined : (joined sep ps).toList = [sep].intercalate (ps.map String.toList) := by
  simp [joined]

/-- What is joined is in the whole. -/
theorem infix_intercalate {sep : String} (h : s ∈ ps) :
    s.toList <:+: (sep.intercalate ps).toList := by
  induction ps with
  | nil => cases h
  | cons p ps ih =>
      by_cases hps : ps = []
      · subst hps
        obtain rfl := List.mem_singleton.mp h
        simp
      · rw [String.intercalate_cons_of_ne_nil hps]
        rcases List.mem_cons.mp h with rfl | h
        · simp only [String.toList_append, List.append_assoc]
          exact List.infix_append' [] _ _
        · simp only [String.toList_append]
          exact (ih h).trans (List.suffix_append _ _).isInfix

/-- No field of a split has the separator in it. -/
theorem not_mem_splitOn {α : Type} [DecidableEq α] {a : α} {xs l : List α} (h : l ∈ xs.splitOn a) :
    a ∉ l := by
  induction xs generalizing l with
  | nil =>
      simp only [List.splitOn_nil, List.mem_singleton] at h
      simp [h]
  | cons x xs ih =>
      rw [List.splitOn_cons_eq_if_modifyHead] at h
      by_cases hx : x = a
      · subst hx
        simp only [beq_self_eq_true, if_true, List.mem_cons] at h
        rcases h with rfl | h
        · simp
        · exact ih h
      · obtain ⟨first, rest, hsplit⟩ := List.exists_cons_of_ne_nil (List.splitOn_ne_nil a xs)
        simp only [beq_iff_eq, hx, if_false, hsplit, List.modifyHead_cons, List.mem_cons] at h
        rcases h with rfl | h
        · have hfirst : a ∉ first := ih (by simp [hsplit])
          simp [hfirst, Ne.symm hx]
        · exact ih (by simp [hsplit, h])

/-- **Splitting undoes joining**, and the other way round. -/
theorem pieces_eq_iff :
    pieces sep s = ps ↔ ps ≠ [] ∧ (∀ p ∈ ps, sep ∉ p.toList) ∧ s = joined sep ps := by
  constructor
  · rintro rfl
    refine ⟨?_, fun p hp => ?_, ?_⟩
    · simp [pieces]
    · obtain ⟨l, hl, rfl⟩ := List.mem_map.mp hp
      simpa using not_mem_splitOn hl
    · refine String.toList_injective ?_
      rw [toList_joined]
      simp [pieces, Function.comp_def]
  · rintro ⟨hne, hfree, rfl⟩
    have hsplit : (joined sep ps).toList.splitOn sep = ps.map String.toList := by
      rw [toList_joined]
      refine List.splitOn_intercalate sep (fun l hl => ?_) (by simpa using hne)
      obtain ⟨p, hp, rfl⟩ := List.mem_map.mp hl
      exact hfree p hp
    simp [pieces, hsplit, Function.comp_def]

end Fields

/-! ## 2. Numerals -/

/-- Why a text is no numeral. -/
inductive NumeralError where
  | empty
  | invalidDigit
  | tooLarge
  deriving DecidableEq, Repr

/-- The digits after those that make `n`. -/
def readDigits (bound : Nat) : List Char → Nat → Except NumeralError Nat
  | [], n => .ok n
  | c :: cs, n =>
      if c.isDigit then
        if 10 * n < bound ∧ 10 * n + (c.toNat - '0'.toNat) < bound then
          readDigits bound cs (10 * n + (c.toNat - '0'.toNat))
        else .error .tooLarge
      else .error .invalidDigit

/-- A number below `bound`; a plus sign is allowed before its digits. -/
def readNumeral (bound : Nat) (s : String) : Except NumeralError Nat :=
  match s.toList with
  | [] => .error .empty
  | ['+'] | ['-'] => .error .invalidDigit
  | '+' :: digits => readDigits bound digits 0
  | digits => readDigits bound digits 0

/-- `s` is a numeral of the number `n`. -/
def Numeral (s : String) (n : Nat) : Prop :=
  ∃ digits, digits ≠ [] ∧ (∀ c ∈ digits, c.isDigit = true) ∧
    (s.toList = digits ∨ s.toList = '+' :: digits) ∧ Nat.ofDigitChars 10 digits 0 = n

section Numerals

variable {bound n m : Nat} {s : String} {cs : List Char}

theorem le_ofDigitChars (n : Nat) (cs : List Char) : n ≤ Nat.ofDigitChars 10 cs n := by
  induction cs generalizing n with
  | nil => simp
  | cons c cs ih =>
      rw [Nat.ofDigitChars_cons]
      have hstep := ih (10 * n + (c.toNat - '0'.toNat))
      omega

/-- **What the digits make**: the checks on the way are those of the whole. -/
theorem readDigits_ok_iff (hn : n < bound) : readDigits bound cs n = .ok m ↔
    (∀ c ∈ cs, c.isDigit = true) ∧ Nat.ofDigitChars 10 cs n = m ∧ m < bound := by
  induction cs generalizing n with
  | nil =>
      simp only [readDigits, Nat.ofDigitChars_nil, List.not_mem_nil, false_implies, implies_true,
        true_and, Except.ok.injEq]
      constructor
      · rintro rfl
        exact ⟨rfl, hn⟩
      · exact fun h => h.1
  | cons c cs ih =>
      rw [Nat.ofDigitChars_cons]
      by_cases hc : c.isDigit = true
      · by_cases hfits : 10 * n < bound ∧ 10 * n + (c.toNat - '0'.toNat) < bound
        · simp only [readDigits, hc, if_true, if_pos hfits, ih hfits.2, List.forall_mem_cons, true_and]
        · have hle := le_ofDigitChars (10 * n + (c.toNat - '0'.toNat)) cs
          simp only [readDigits, hc, if_true, if_neg hfits]
          refine ⟨nofun, fun ⟨_, hm, hlt⟩ => absurd hlt ?_⟩
          omega
      · simp [readDigits, hc]

/-- **A text is read iff it is a numeral of a number below the bound.** -/
theorem readNumeral_ok_iff (hbound : 0 < bound) :
    readNumeral bound s = .ok n ↔ Numeral s n ∧ n < bound := by
  have hsigns : '+'.isDigit = false ∧ '-'.isDigit = false := by decide
  unfold readNumeral
  split
  · next hs =>
    refine ⟨nofun, fun ⟨⟨digits, hne, _, htext, _⟩, _⟩ => ?_⟩
    rcases htext with h | h <;> simp_all
  · next hs =>
    refine ⟨nofun, fun ⟨⟨digits, hne, hdigits, htext, _⟩, _⟩ => ?_⟩
    rcases htext with h | h <;> simp_all
  · next hs =>
    refine ⟨nofun, fun ⟨⟨digits, hne, hdigits, htext, _⟩, _⟩ => ?_⟩
    rcases htext with h | h <;> simp_all
  · next _ digits hplus hs =>
    rw [readDigits_ok_iff hbound]
    constructor
    · rintro ⟨hdigits, hvalue, hlt⟩
      refine ⟨⟨digits, ?_, hdigits, Or.inr hs, hvalue⟩, hlt⟩
      rintro rfl
      exact hplus rfl
    · rintro ⟨⟨digits', _, hdigits, htext, hvalue⟩, hlt⟩
      rw [hs] at htext
      rcases htext with rfl | htext
      · have hsign := hdigits '+' List.mem_cons_self
        rw [hsigns.1] at hsign
        cases hsign
      · cases htext
        exact ⟨hdigits, hvalue, hlt⟩
  · next hne _ _ hplus =>
    rw [readDigits_ok_iff hbound]
    constructor
    · rintro ⟨hdigits, hvalue, hlt⟩
      exact ⟨⟨s.toList, hne, hdigits, Or.inl rfl, hvalue⟩, hlt⟩
    · rintro ⟨⟨digits, _, hdigits, htext, hvalue⟩, hlt⟩
      rcases htext with rfl | htext
      · exact ⟨hdigits, hvalue, hlt⟩
      · exact absurd htext (hplus digits)

/-- What is printed is a numeral. -/
theorem numeral_toString (n : Nat) : Numeral (toString n) n := by
  refine ⟨Nat.toDigits 10 n, Nat.toDigits_ne_nil, fun c hc => ?_, Or.inl (by simp), by simp⟩
  exact Nat.isDigit_of_mem_toDigits (by decide) (by decide) hc

theorem Numeral.unique (h : Numeral s n) (h' : Numeral s m) : n = m := by
  have hbound : 0 < n + m + 1 := Nat.succ_pos _
  have hn := (readNumeral_ok_iff hbound).mpr ⟨h, by omega⟩
  have hm := (readNumeral_ok_iff hbound).mpr ⟨h', by omega⟩
  exact Except.ok.inj (hn.symm.trans hm)

/-- The characters of a numeral. -/
theorem Numeral.free (h : Numeral s n) {sep : Char} (hdigit : sep.isDigit = false)
    (hplus : sep ≠ '+') : sep ∉ s.toList := by
  obtain ⟨digits, _, hdigits, htext, _⟩ := h
  have hfree : sep ∉ digits := fun hmem => by
    rw [hdigits sep hmem] at hdigit
    cases hdigit
  rcases htext with h | h <;> simp [h, hfree, hplus]

end Numerals

/-! ## 3. Reading one after the other -/

section Collect

variable {ε α β : Type} {f : α → Except ε β} {xs : List α} {ys : List β} {e : ε}

/-- **All are read iff each is.** -/
theorem mapM_ok_iff : xs.mapM f = .ok ys ↔ List.Forall₂ (fun x y => f x = .ok y) xs ys := by
  induction xs generalizing ys with
  | nil => simp [List.forall₂_nil_left_iff, pure, Except.pure, eq_comm]
  | cons x xs ih =>
      rw [List.mapM_cons, List.forall₂_cons_left_iff]
      cases hx : f x with
      | error e => exact ⟨nofun, fun ⟨_, _, h, _⟩ => nomatch h⟩
      | ok y =>
      cases hxs : xs.mapM f with
      | error e =>
          refine ⟨nofun, fun ⟨_, rest, _, hrest, _⟩ => ?_⟩
          rw [ih.mpr hrest] at hxs
          cases hxs
      | ok rest =>
          have hrest := ih.mp hxs
          constructor
          · intro h
            cases h
            exact ⟨y, rest, rfl, hrest, rfl⟩
          · rintro ⟨y', rest', hy, hrest', rfl⟩
            cases hy
            rw [ih.mpr hrest'] at hxs
            cases hxs
            rfl

/-- The error is that of the first that is not read. -/
theorem mapM_error (h : xs.mapM f = .error e) :
    ∃ i, ∃ hi : i < xs.length, f xs[i] = .error e ∧ ∃ ys, (xs.take i).mapM f = .ok ys := by
  induction xs with
  | nil => cases h
  | cons x xs ih =>
      rw [List.mapM_cons] at h
      cases hx : f x with
      | error e' =>
          rw [hx] at h
          cases h
          exact ⟨0, Nat.zero_lt_succ _, hx, [], rfl⟩
      | ok y =>
      rw [hx] at h
      cases hxs : xs.mapM f with
      | ok rest =>
          rw [hxs] at h
          cases h
      | error e' =>
          rw [hxs] at h
          cases h
          obtain ⟨i, hi, herror, ys, hys⟩ := ih hxs
          refine ⟨i + 1, Nat.succ_lt_succ hi, herror, y :: ys, ?_⟩
          rw [List.take_succ_cons, List.mapM_cons, hx, hys]
          rfl

end Collect

end Rdmalib.Base
