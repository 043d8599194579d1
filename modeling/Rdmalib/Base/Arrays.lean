/-
  File:      Rdmalib/Base/Arrays.lean
  Subject:   Byte arrays that several parties share, and how they lie in one memory.

  * `Arrays.Step`, `Arrays.Run` -- what can happen to the arrays: a part is fetched or stored, or a
    store that did not succeed has left anything in its range;
  * `expect` -- the byte that the events so far let one expect at an index: every fetch gets the
    bytes expected (`Arrays.Run.fetched`), and what was stored last is there
    (`Arrays.Run.last_stored`);
  * `Layout` -- arrays in a memory, no byte in two of them: bytes that arrive in one of them are
    stored there (`Layout.stored`), and no other array changes (`Layout.torn`).
-/
import Mathlib.Logic.Function.Basic
import Rdmalib.Base.Memory

namespace Rdmalib.Base

open Function (update)

/-! ## 1. Splicing -/

/-- `xs` with `ys` in place of its elements from `k` on. -/
def splice {α : Type} (xs : List α) (k : Nat) (ys : List α) : List α :=
  xs.take k ++ ys ++ xs.drop (k + ys.length)

section Splice

variable {α : Type} {xs ys : List α} {k p : Nat}

@[simp] theorem length_splice (h : k + ys.length ≤ xs.length) :
    (splice xs k ys).length = xs.length := by
  simp [splice]
  omega

theorem splice_inside (h : k + ys.length ≤ xs.length) (hp : k ≤ p) (hp' : p < k + ys.length) :
    (splice xs k ys)[p]? = ys[p - k]? := by
  have hk : (xs.take k).length = k := by simp; omega
  rw [splice, List.append_assoc, List.getElem?_append_right (by omega), hk,
    List.getElem?_append_left (by omega)]

theorem splice_outside (h : k + ys.length ≤ xs.length) (hp : p < k ∨ k + ys.length ≤ p) :
    (splice xs k ys)[p]? = xs[p]? := by
  have hk : (xs.take k).length = k := by simp; omega
  rcases hp with hp | hp
  · rw [splice, List.append_assoc, List.getElem?_append_left (by omega), List.getElem?_take_of_lt hp]
  · rw [splice, List.getElem?_append_right (by simp; omega), List.getElem?_drop]
    congr 1
    simp
    omega

end Splice

/-! ## 2. Arrays and what happens to them -/

/-- Byte arrays by name. -/
abbrev Arrays (ι : Type) := ι → List UInt8

namespace Arrays

variable {ι : Type}

inductive Event (ι : Type) where
  /-- These bytes were got from index `k` of array `i` on. -/
  | fetched (i : ι) (k : Nat) (bytes : List UInt8)
  /-- These bytes were put there. -/
  | stored (i : ι) (k : Nat) (bytes : List UInt8)
  /-- Anything may have been put into the `n` bytes there. -/
  | torn (i : ι) (k n : Nat)
  | nothing
  deriving DecidableEq, Repr

variable [DecidableEq ι]

def Step (c : Arrays ι) : Event ι → Arrays ι → Prop
  | .fetched i k bytes, c' =>
      k + bytes.length ≤ (c i).length ∧ ((c i).drop k).take bytes.length = bytes ∧ c' = c
  | .stored i k bytes, c' => k + bytes.length ≤ (c i).length ∧ c' = update c i (splice (c i) k bytes)
  | .torn i k n, c' => (∀ j ≠ i, c' j = c j) ∧ (c' i).length = (c i).length ∧
      ∀ p, p < k ∨ k + n ≤ p → (c' i)[p]? = (c i)[p]?
  | .nothing, c' => c' = c

/-- Events one after the other. -/
def Run : Arrays ι → List (Event ι) → Arrays ι → Prop
  | c, [], c' => c' = c
  | c, e :: es, c' => ∃ d, Step c e d ∧ Run d es c'

/-- The byte an event puts at index `p` of array `i`. -/
def Event.puts (i : ι) (p : Nat) : Event ι → Option UInt8
  | .stored j k bytes => if j = i ∧ k ≤ p then bytes[p - k]? else none
  | _ => none

/-- After the event, nothing is known of this byte. -/
def Event.tears (i : ι) (p : Nat) : Event ι → Bool
  | .torn j k n => decide (j = i ∧ k ≤ p ∧ p < k + n)
  | _ => false

/-- **The byte to expect** at index `p` of array `i` after the events: the one put there last, and
    none where a later store has left it open. -/
def expect (i : ι) (p : Nat) (before : Option UInt8) (es : List (Event ι)) : Option UInt8 :=
  es.foldl (fun v e => if e.tears i p then none else (e.puts i p).or v) before

/-- The event puts nothing into the `n` bytes from index `k` of array `i` on. -/
def Event.Spares (i : ι) (k n : Nat) (e : Event ι) : Prop :=
  ∀ p, k ≤ p → p < k + n → e.puts i p = none ∧ e.tears i p = false

section Rules

variable {c c' d : Arrays ι} {e : Event ι} {es es' : List (Event ι)} {i : ι} {k p : Nat}

theorem run_append : Run c (es ++ es') c' ↔ ∃ d, Run c es d ∧ Run d es' c' := by
  induction es generalizing c with
  | nil => simp [Run]
  | cons e es ih =>
      simp only [List.cons_append, Run, ih]
      constructor
      · rintro ⟨d, hd, f, hf, hf'⟩
        exact ⟨f, ⟨d, hd, hf⟩, hf'⟩
      · rintro ⟨f, ⟨d, hd, hf⟩, hf'⟩
        exact ⟨d, hd, f, hf, hf'⟩

/-- An array keeps its length. -/
theorem Step.length (h : Step c e d) (i : ι) : (d i).length = (c i).length := by
  cases e with
  | fetched j k bytes => rw [h.2.2]
  | stored j k bytes =>
      obtain ⟨hfit, rfl⟩ := h
      by_cases hi : i = j
      · subst hi
        simp [hfit]
      · simp [hi]
  | torn j k n =>
      by_cases hi : i = j
      · subst hi
        exact h.2.1
      · rw [h.1 i hi]
  | nothing => rw [h]

theorem Run.length (h : Run c es c') (i : ι) : (c' i).length = (c i).length := by
  induction es generalizing c with
  | nil => rw [show c' = c from h]
  | cons e es ih =>
      obtain ⟨d, hd, hrun⟩ := h
      rw [ih hrun, hd.length]

/-- **One event**: a byte is the one put, or what it was. -/
theorem Step.byte (h : Step c e d) (htorn : e.tears i p = false) :
    (d i)[p]? = (e.puts i p).or (c i)[p]? := by
  cases e with
  | fetched j k bytes => simp [h.2.2, Event.puts]
  | stored j k bytes =>
      obtain ⟨hfit, rfl⟩ := h
      by_cases hi : j = i
      · subst hi
        simp only [Function.update_self, Event.puts, true_and]
        by_cases hp : k ≤ p ∧ p < k + bytes.length
        · rw [splice_inside hfit hp.1 hp.2, if_pos hp.1, List.getElem?_eq_getElem (by omega)]
          rfl
        · rw [splice_outside hfit (by omega)]
          by_cases hk : k ≤ p
          · have hnone : bytes[p - k]? = none := List.getElem?_eq_none (by omega)
            rw [if_pos hk, hnone, Option.none_or]
          · rw [if_neg hk, Option.none_or]
      · simp [Event.puts, hi, Function.update_of_ne (Ne.symm hi)]
  | torn j k n =>
      simp only [Event.puts, Option.none_or]
      by_cases hi : i = j
      · subst hi
        simp [Event.tears] at htorn
        exact h.2.2 p (by omega)
      · rw [h.1 i hi]
  | nothing =>
      obtain rfl : d = c := h
      rfl

/-- **What is expected is there.** -/
theorem Run.expected (h : Run c es c') {before : Option UInt8} {b : UInt8}
    (hbefore : ∀ b, before = some b → (c i)[p]? = some b) (hb : expect i p before es = some b) :
    (c' i)[p]? = some b := by
  induction es generalizing c before with
  | nil =>
      rw [show c' = c from h]
      exact hbefore b hb
  | cons e es ih =>
      obtain ⟨d, hd, hrun⟩ := h
      refine ih hrun (fun b hb => ?_) hb
      have hb : (if e.tears i p then none else (e.puts i p).or before) = some b := hb
      by_cases htorn : e.tears i p
      · simp [htorn] at hb
      · rw [hd.byte (by simpa using htorn)]
        rw [if_neg htorn] at hb
        cases hput : e.puts i p with
        | some b' =>
            rw [hput] at hb
            exact hb
        | none =>
            rw [hput] at hb
            exact hbefore b hb

/-- Events that spare a byte leave open what to expect there. -/
theorem expect_spared {before : Option UInt8} {n : Nat} (h : ∀ e ∈ es, e.Spares i k n)
    (hp : k ≤ p) (hp' : p < k + n) : expect i p before es = before := by
  induction es with
  | nil => rfl
  | cons e es ih =>
      obtain ⟨hputs, htears⟩ := h e List.mem_cons_self p hp hp'
      have hrest := ih fun e he => h e (List.mem_cons_of_mem _ he)
      simpa [expect, hputs, htears] using hrest

/-- **What was stored and then spared is there.** -/
theorem Run.last_stored {bytes : List UInt8}
    (h : Run c (es ++ .stored i k bytes :: es') c') (hspare : ∀ e ∈ es', e.Spares i k bytes.length) :
    ∀ p < bytes.length, (c' i)[k + p]? = bytes[p]? := by
  intro p hp
  have hb : expect i (k + p) none (es ++ .stored i k bytes :: es') = some bytes[p] := by
    unfold expect
    rw [List.foldl_append, List.foldl_cons]
    refine (expect_spared hspare (by omega) (by omega)).trans ?_
    simp [Event.tears, Event.puts, hp]
  rw [h.expected (fun _ hnone => by cases hnone) hb, List.getElem?_eq_getElem hp]

/-- **Every fetch of a run gets the bytes expected.** -/
theorem Run.fetched (h : Run c es c') {n : Nat} {bytes : List UInt8}
    (hn : es[n]? = some (.fetched i k bytes)) {b : UInt8} (hp : p < bytes.length)
    (hb : expect i (k + p) (c i)[k + p]? (es.take n) = some b) : bytes[p]? = some b := by
  obtain ⟨hlt, he⟩ := List.getElem?_eq_some_iff.mp hn
  rw [← List.take_append_drop n es, run_append] at h
  obtain ⟨d, hbefore, hafter⟩ := h
  rw [List.drop_eq_getElem_cons hlt, he] at hafter
  obtain ⟨_, ⟨_, hgot, _⟩, _⟩ := hafter
  have hd : (d i)[k + p]? = some b := hbefore.expected (fun _ hb => hb) hb
  rw [← hgot, List.getElem?_take_of_lt hp, List.getElem?_drop, hd]

end Rules

end Arrays

/-! ## 3. Arrays in a memory -/

/-- Where the arrays named by `ι` lie; no byte lies in two of them. -/
structure Layout (ι : Type) where
  base : ι → Nat
  size : ι → Nat
  apart : ∀ {i j a}, base i ≤ a → a < base i + size i → base j ≤ a → a < base j + size j → i = j

namespace Layout

variable {ι : Type} (L : Layout ι)

/-- The arrays that a memory holds. -/
def arrays (m : Mem) : Arrays ι := fun i => m.bytes (L.base i) (L.size i)

/-- The byte belongs to array `i`. -/
def In (i : ι) (a : Nat) : Prop := L.base i ≤ a ∧ a < L.base i + L.size i

variable {L} {m m' : Mem} {i : ι} {k n : Nat}

@[simp] theorem length_arrays : (L.arrays m i).length = L.size i := by simp [arrays]

theorem getElem?_arrays {p : Nat} :
    (L.arrays m i)[p]? = if p < L.size i then some (m (L.base i + p)) else none := by
  by_cases hp : p < L.size i
  · simp [arrays, Mem.bytes, hp]
  · rw [if_neg hp, List.getElem?_eq_none (by simp; omega)]

variable [DecidableEq ι]

/-- **A change inside one array** changes nothing else. -/
theorem torn (hfit : k + n ≤ L.size i)
    (hrest : ∀ a, a < L.base i + k ∨ L.base i + k + n ≤ a → m' a = m a) :
    Arrays.Step (L.arrays m) (.torn i k n) (L.arrays m') := by
  refine ⟨fun j hj => ?_, by simp, fun p hp => ?_⟩
  · refine Mem.bytes_eq_iff.mpr fun q hq => hrest _ ?_
    -- a byte of array `j` is none of array `i`
    by_contra hin
    exact hj (L.apart (a := L.base j + q) (by omega) (by omega) (by omega) (by omega))
  · rw [getElem?_arrays, getElem?_arrays]
    split
    · rw [hrest _ (by omega)]
    · rfl

/-- **Bytes that arrive inside one array** are stored there. -/
theorem stored {bytes : List UInt8} (hfit : k + bytes.length ≤ L.size i)
    (harrived : m'.bytes (L.base i + k) bytes.length = bytes)
    (hrest : ∀ a, a < L.base i + k ∨ L.base i + k + bytes.length ≤ a → m' a = m a) :
    Arrays.Step (L.arrays m) (.stored i k bytes) (L.arrays m') := by
  have hlen : k + bytes.length ≤ (L.arrays m i).length := by simpa using hfit
  have htorn : Arrays.Step (L.arrays m) (.torn i k bytes.length) (L.arrays m') := torn hfit hrest
  refine ⟨hlen, funext fun j => ?_⟩
  by_cases hj : j = i
  · subst hj
    rw [Function.update_self]
    refine List.ext_getElem? fun p => ?_
    by_cases hp : k ≤ p ∧ p < k + bytes.length
    · have hbyte : (m'.bytes (L.base j + k) bytes.length)[p - k]? = bytes[p - k]? := by rw [harrived]
      rw [splice_inside hlen hp.1 hp.2, ← hbyte, getElem?_arrays, if_pos (by omega)]
      have hp' : p - k < bytes.length := by omega
      simp [Mem.bytes, hp', show L.base j + k + (p - k) = L.base j + p by omega]
    · rw [splice_outside hlen (by omega)]
      exact htorn.2.2 p (by omega)
  · rw [Function.update_of_ne hj]
    exact htorn.1 j hj

/-- **A range of an array is a fetch.** -/
theorem fetched (hfit : k + n ≤ L.size i) :
    Arrays.Step (L.arrays m) (.fetched i k (m.bytes (L.base i + k) n)) (L.arrays m) := by
  refine ⟨by simpa using hfit, List.ext_getElem? fun p => ?_, rfl⟩
  by_cases hp : p < n
  · rw [List.getElem?_take_of_lt (by simpa using hp), List.getElem?_drop, getElem?_arrays,
      if_pos (by omega)]
    simp [Mem.bytes, hp, Nat.add_assoc]
  · rw [List.getElem?_eq_none (by simp; omega), List.getElem?_eq_none (by simp; omega)]

end Layout

end Rdmalib.Base
