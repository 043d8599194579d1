/-
  File:      Rdmalib/Base/Ledger.lean
  Subject:   What a program has acquired, and what it has given back, each in order.

  * `Ledger.Holds` -- conservation: what was acquired is what was released and what is still held;
  * `Ledger.Settled` -- everything acquired was released, as often as it was acquired, and nothing
    else; a ledger is settled iff nothing is held (`Holds.settled_iff`);
  * `Ledger.InOrder` -- one thing was released before another.
-/
import Mathlib.Data.List.Basic

namespace Rdmalib.Base

structure Ledger (α : Type) where
  acquired : List α
  released : List α

namespace Ledger

variable {α : Type} {l : Ledger α} {xs ys held held' : List α} {x y : α}

def empty : Ledger α := ⟨[], []⟩

def acquire (l : Ledger α) (xs : List α) : Ledger α := { l with acquired := l.acquired ++ xs }

def release (l : Ledger α) (xs : List α) : Ledger α := { l with released := l.released ++ xs }

/-- What was acquired is what was released and what is held, in any order. -/
def Holds (l : Ledger α) (held : List α) : Prop := l.acquired.Perm (l.released ++ held)

/-- Everything acquired was released exactly as often, and nothing else was. -/
def Settled (l : Ledger α) : Prop := l.released.Perm l.acquired

/-- `x` was released, and `y` after it. -/
def InOrder (l : Ledger α) (x y : α) : Prop := [x, y].Sublist l.released

@[simp] theorem release_nil : l.release [] = l := by
  unfold release
  rw [List.append_nil]

theorem release_release : (l.release xs).release ys = l.release (xs ++ ys) := by
  unfold release
  rw [List.append_assoc]

theorem holds_empty : (empty : Ledger α).Holds [] := .refl _

theorem Holds.perm (h : l.Holds held) (hp : held.Perm held') : l.Holds held' :=
  List.Perm.trans h (hp.append_left _)

theorem Holds.acquire (h : l.Holds held) (xs : List α) : (l.acquire xs).Holds (held ++ xs) := by
  have := List.Perm.append_right xs h
  rwa [List.append_assoc] at this

theorem Holds.release (h : l.Holds (xs ++ held)) : (l.release xs).Holds held := by
  show List.Perm l.acquired ((l.released ++ xs) ++ held)
  rw [List.append_assoc]
  exact h

/-- **A ledger is settled iff nothing is held.** -/
theorem Holds.settled_iff (h : l.Holds held) : l.Settled ↔ held = [] := by
  constructor
  · intro hsettled
    have hlength := (List.Perm.trans hsettled h).length_eq
    rw [List.length_append] at hlength
    exact List.eq_nil_of_length_eq_zero (Nat.add_eq_left.mp hlength.symm)
  · intro hnone
    subst hnone
    unfold Holds at h
    rw [List.append_nil] at h
    exact h.symm

end Ledger

end Rdmalib.Base
