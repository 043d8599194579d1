/-
  File:      Rdmalib/Base/Arrivals.lean
  Subject:   A stream on which items arrive at given times, read with a timeout.

  * `Arrivals` -- the clock, and the items still to be read, each with the time it is there;
  * `next` -- one blocking read, which gives up when nothing arrives in time;
  * `fill` -- the reads that fill a buffer: items that arrived are lost where a later one is late;
  * `Soon` -- the next item is there before a read that starts now gives up.
-/
import Mathlib.Tactic.Ring

namespace Rdmalib.Base

/-- The clock, and what is under way. -/
structure Arrivals (α : Type) where
  now : Nat
  due : List (Nat × α)

namespace Arrivals

variable {α : Type} {timeout n : Nat} {s s' : Arrivals α}

/-- The next item, waiting at most `timeout` for it. -/
def next (timeout : Nat) (s : Arrivals α) : Option α × Arrivals α :=
  match s.due with
  | [] => (none, { s with now := s.now + timeout })
  | (time, a) :: rest =>
      if time < s.now + timeout then (some a, ⟨max s.now time, rest⟩)
      else (none, { s with now := s.now + timeout })

/-- The next `n` items, waiting at most `timeout` for each. -/
def fill (timeout : Nat) : Nat → Arrivals α → Option (List α) × Arrivals α
  | 0, s => (some [], s)
  | n + 1, s =>
      match s.next timeout with
      | (none, s) => (none, s)
      | (some a, s) =>
          match fill timeout n s with
          | (none, s) => (none, s)
          | (some as, s) => (some (a :: as), s)

/-- The next item is there in time. -/
def Soon (timeout : Nat) (s : Arrivals α) : Prop :=
  ∃ time a rest, s.due = (time, a) :: rest ∧ time < s.now + timeout

/-- Items that arrive together. -/
def together (time : Nat) (as : List α) : List (Nat × α) := as.map (time, ·)

theorem next_late (h : ¬ s.Soon timeout) :
    s.next timeout = (none, { s with now := s.now + timeout }) := by
  unfold next
  split
  · rfl
  · next time a rest hdue =>
      exact if_neg fun hlt => h ⟨time, a, rest, hdue, hlt⟩

theorem next_soon {time : Nat} {a : α} {rest : List (Nat × α)} (hdue : s.due = (time, a) :: rest)
    (htime : time < s.now + timeout) : s.next timeout = (some a, ⟨max s.now time, rest⟩) := by
  unfold next
  rw [hdue]
  exact if_pos htime

/-- **A read that starts too early** ends with nothing, after the whole timeout. -/
theorem fill_late (hn : 0 < n) (h : ¬ s.Soon timeout) :
    s.fill timeout n = (none, { s with now := s.now + timeout }) := by
  cases n with
  | zero => exact absurd hn (Nat.lt_irrefl 0)
  | succ n =>
      unfold fill
      rw [next_late h]

/-- Items that are there are read without waiting. -/
theorem fill_there {now time : Nat} {rest : List (Nat × α)} (hthere : time ≤ now)
    (htime : time < now + timeout) (as : List α) :
    fill timeout as.length ⟨now, together time as ++ rest⟩ = (some as, ⟨now, rest⟩) := by
  induction as with
  | nil => rfl
  | cons a as ih =>
      have hnext : next timeout ⟨now, together time (a :: as) ++ rest⟩ =
          (some a, ⟨now, together time as ++ rest⟩) := by
        rw [next_soon (s := ⟨now, together time (a :: as) ++ rest⟩) rfl htime,
          Nat.max_eq_left hthere]
        rfl
      rw [List.length_cons, fill]
      simp only [hnext, ih]

/-- **A read that starts in time** takes items that arrive together. -/
theorem fill_together {time : Nat} {as : List α} {rest : List (Nat × α)} (hne : as ≠ [])
    (hdue : s.due = together time as ++ rest) (htime : time < s.now + timeout) :
    s.fill timeout as.length = (some as, ⟨max s.now time, rest⟩) := by
  cases as with
  | nil => exact absurd rfl hne
  | cons a as =>
      have htime' : time < max s.now time + timeout := by omega
      have hthere : fill timeout as.length ⟨max s.now time, together time as ++ rest⟩ =
          (some as, ⟨max s.now time, rest⟩) := fill_there (Nat.le_max_right s.now time) htime' as
      have hnext : s.next timeout = (some a, ⟨max s.now time, together time as ++ rest⟩) :=
        next_soon hdue htime
      rw [List.length_cons, fill]
      simp only [hnext, hthere]

/-- What arrives together arrives in time when its first item does. -/
theorem soon_together {time : Nat} {as : List α} {rest : List (Nat × α)} (hne : as ≠ [])
    (hdue : s.due = together time as ++ rest) : s.Soon timeout ↔ time < s.now + timeout := by
  cases as with
  | nil => exact absurd rfl hne
  | cons a as =>
      constructor
      · intro ⟨time', a', rest', hdue', htime⟩
        rw [hdue] at hdue'
        obtain ⟨hhead, _⟩ := List.cons.inj hdue'
        rw [← Prod.mk.inj hhead |>.1] at htime
        exact htime
      · intro htime
        exact ⟨time, a, _, hdue, htime⟩

end Arrivals

end Rdmalib.Base
