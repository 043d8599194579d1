/-
  File:      Rdmalib/Base/History.lean
  Subject:   Past-time properties of a history: `Since P Q` -- some event was a `P`, and every later
             one is a `Q`; `Before` -- of two such, the one began before the other.
-/
import Mathlib.Data.List.Induction
import Mathlib.Data.List.Perm.Basic

namespace Rdmalib.Base

variable {α : Type} {P Q : α → Prop} {xs : List α} {x : α}

/-- Some event of the history (oldest first) meets `P`, and all after it meet `Q`. -/
def Since (P Q : α → Prop) (xs : List α) : Prop :=
  ∃ pre x post, xs = pre ++ x :: post ∧ P x ∧ ∀ y ∈ post, Q y

theorem not_since_nil : ¬ Since P Q [] := by
  intro ⟨pre, x, post, h, _⟩
  cases pre <;> cases h

/-- **The last event decides**: it is a `P`, or a `Q` after a history that had its `P`. -/
theorem since_snoc : Since P Q (xs ++ [x]) ↔ P x ∨ Q x ∧ Since P Q xs := by
  constructor
  · intro ⟨pre, y, post, h, hy, hpost⟩
    induction post using List.reverseRecOn with
    | nil =>
        have := List.append_inj_right' h rfl
        cases this
        exact Or.inl hy
    | append_singleton post z _ =>
        have h : xs ++ [x] = (pre ++ y :: post) ++ [z] := by rw [h]; simp
        have hx := List.append_inj_right' h rfl
        cases hx
        refine Or.inr ⟨hpost x (by simp), pre, y, post, List.append_cancel_right h, hy, fun w hw => ?_⟩
        exact hpost w (List.mem_append_left _ hw)
  · intro h
    rcases h with h | ⟨hx, pre, y, post, rfl, hy, hpost⟩
    · exact ⟨xs, x, [], rfl, h, nofun⟩
    · refine ⟨pre, y, post ++ [x], by simp, hy, fun w hw => ?_⟩
      rcases List.mem_append.mp hw with hw | hw
      · exact hpost w hw
      · rw [List.mem_singleton.mp hw]
        exact hx

/-- An event was a `P`, a later one a `P'`; all after the first meet `Q`, all after the second `Q'`. -/
def Before (P Q P' Q' : α → Prop) (xs : List α) : Prop :=
  ∃ pre x mid y post, xs = pre ++ x :: mid ++ y :: post ∧ P x ∧ (∀ z ∈ mid ++ y :: post, Q z) ∧
    P' y ∧ ∀ z ∈ post, Q' z

section Order

variable {P' Q' : α → Prop}

/-- One more event that both keep. -/
theorem Before.snoc (h : Before P Q P' Q' xs) (hq : Q x) (hq' : Q' x) :
    Before P Q P' Q' (xs ++ [x]) := by
  obtain ⟨pre, y, mid, z, post, rfl, hy, hafter, hz, hpost⟩ := h
  refine ⟨pre, y, mid, z, post ++ [x], by simp, hy, fun w hw => ?_, hz, fun w hw => ?_⟩
  · rw [← List.cons_append, ← List.append_assoc, List.mem_append] at hw
    rcases hw with hw | hw
    · exact hafter w hw
    · rw [List.mem_singleton.mp hw]
      exact hq
  · rcases List.mem_append.mp hw with hw | hw
    · exact hpost w hw
    · rw [List.mem_singleton.mp hw]
      exact hq'

/-- What is a `P'` now comes after a `P` that it keeps. -/
theorem Since.before (h : Since P Q xs) (hq : Q x) (hp : P' x) : Before P Q P' Q' (xs ++ [x]) := by
  obtain ⟨pre, y, post, rfl, hy, hafter⟩ := h
  refine ⟨pre, y, post, x, [], by simp, hy, fun w hw => ?_, hp, nofun⟩
  rcases List.mem_append.mp hw with hw | hw
  · exact hafter w hw
  · rw [List.mem_singleton.mp hw]
    exact hq

end Order

/-- A value that each event sets, clears or keeps: it is `b` iff some event set it to `b` and every
    later one has kept it. -/
theorem foldl_eq_some_iff {β : Type} {f : Option β → α → Option β} {b : β}
    (hset : ∀ x, P x → ∀ old, f old x = some b) (hkeep : ∀ x, Q x → ∀ old, f old x = old)
    (helse : ∀ x old, ¬ P x → ¬ Q x → f old x ≠ some b) :
    xs.foldl f none = some b ↔ Since P Q xs := by
  induction xs using List.reverseRecOn with
  | nil => exact ⟨nofun, fun h => absurd h not_since_nil⟩
  | append_singleton xs x ih =>
      rw [List.foldl_append, List.foldl_cons, List.foldl_nil, since_snoc]
      by_cases hp : P x
      · exact ⟨fun _ => Or.inl hp, fun _ => hset x hp _⟩
      by_cases hq : Q x
      · rw [hkeep x hq, ih]
        exact ⟨fun h => Or.inr ⟨hq, h⟩, fun h => (h.resolve_left hp).2⟩
      · refine ⟨fun h => absurd h (helse x _ hp hq), fun h => ?_⟩
        rcases h with h | h
        · exact absurd h hp
        · exact absurd h.1 hq

/-- Events that keep every value are as good as none. -/
theorem foldl_filter_of_keep {β : Type} {f : β → α → β} {p : α → Bool} {b : β}
    (h : ∀ x ∈ xs, p x = false → ∀ old, f old x = old) : (xs.filter p).foldl f b = xs.foldl f b := by
  induction xs generalizing b with
  | nil => rfl
  | cons x xs ih =>
      have ih := ih (b := f b x) fun y hy => h y (List.mem_cons_of_mem _ hy)
      rw [List.foldl_cons, ← ih]
      cases hp : p x with
      | true => rw [List.filter_cons_of_pos hp, List.foldl_cons]
      | false => rw [List.filter_cons_of_neg (by simp [hp]), h x List.mem_cons_self hp]

end Rdmalib.Base
