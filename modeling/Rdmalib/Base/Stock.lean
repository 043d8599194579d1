/-
  File:      Rdmalib/Base/Stock.lean
  Subject:   Things that are made of one another and live until they are freed.

  * `Stock` -- the live things, each with those it was made of;
  * `Stock.Free` -- a thing may be freed: it lives, and nothing that lives was made of it;
  * `Stock.Holds` -- the stock is a part that is held and a frame that is left alone. What is made
    goes to the part (`Holds.make`), and what may be freed within the part may be freed in the
    stock, which leaves the frame (`Holds.free`).
-/
import Mathlib.Data.List.Nodup

namespace Rdmalib.Base

/-- The live things, in the order in which they were made. -/
abbrev Stock (α : Type) := List (α × List α)

namespace Stock

variable {α : Type} {s t part part' frame frame' : Stock α} {x y : α} {of : List α}

def live (s : Stock α) : List α := s.map Prod.fst

def make (s : Stock α) (x : α) (of : List α) : Stock α := s ++ [(x, of)]

/-- `x` lives, and nothing that lives was made of it. -/
def Free (s : Stock α) (x : α) : Prop := x ∈ s.live ∧ ∀ e ∈ s, x ∉ e.2

/-- Whatever a live thing was made of lives. -/
def Closed (s : Stock α) : Prop := ∀ e ∈ s, ∀ y ∈ e.2, y ∈ s.live

@[simp] theorem live_append : (s ++ t).live = s.live ++ t.live := List.map_append

theorem mem_live (h : s.Perm t) : x ∈ s.live ↔ x ∈ t.live := (h.map Prod.fst).mem_iff

theorem closed_nil : Closed ([] : Stock α) := nofun

theorem Closed.append (h : Closed s) (h' : Closed t) : Closed (s ++ t) := by
  intro e he y hy
  rw [live_append, List.mem_append]
  rcases List.mem_append.mp he with he | he
  · exact Or.inl (h e he y hy)
  · exact Or.inr (h' e he y hy)

theorem Closed.perm (h : Closed s) (hp : s.Perm t) : Closed t := fun e he y hy =>
  (mem_live hp).mp (h e (hp.mem_iff.mpr he) y hy)

/-- A union of closed stocks. -/
theorem closed_flatMap {β : Type} {xs : List β} {f : β → Stock α} (h : ∀ b ∈ xs, Closed (f b)) :
    Closed (xs.flatMap f) := by
  induction xs with
  | nil => exact closed_nil
  | cons b xs ih =>
      rw [List.flatMap_cons]
      exact (h b List.mem_cons_self).append (ih fun b' hb' => h b' (List.mem_cons_of_mem _ hb'))

/-- **The stock is what is held and the frame**, and the frame is made of itself. -/
structure Holds (s part frame : Stock α) : Prop where
  perm : s.Perm (part ++ frame)
  nodup : s.live.Nodup
  closed : Closed frame

theorem holds_nil : Holds ([] : Stock α) [] [] := ⟨.refl _, .nil, closed_nil⟩

theorem Holds.split (h : Holds s part frame) : (part.live ++ frame.live).Nodup := by
  rw [← live_append]
  exact (h.perm.map Prod.fst).nodup_iff.mp h.nodup

theorem Holds.mem (h : Holds s part frame) : x ∈ s.live ↔ x ∈ part.live ∨ x ∈ frame.live := by
  rw [mem_live h.perm, live_append, List.mem_append]

/-- The held and the frame may be divided anew. -/
theorem Holds.divide (h : Holds s part frame) (hp : (part ++ frame).Perm (part' ++ frame'))
    (hclosed : Closed frame') : Holds s part' frame' :=
  ⟨h.perm.trans hp, h.nodup, hclosed⟩

/-- What is made is held. -/
theorem Holds.make (h : Holds s part frame) (hx : x ∉ s.live) :
    Holds (s.make x of) (part.make x of) frame := by
  refine ⟨?_, ?_, h.closed⟩
  · show (s ++ [(x, of)]).Perm (part ++ [(x, of)] ++ frame)
    have hswap : (part ++ frame ++ [(x, of)]).Perm (part ++ [(x, of)] ++ frame) := by
      rw [List.append_assoc, List.append_assoc]
      exact List.perm_append_comm.append_left part
    exact (h.perm.append_right _).trans hswap
  · unfold Stock.make
    rw [live_append]
    refine List.nodup_append.mpr ⟨h.nodup, List.nodup_singleton x, fun y hy z hz hyz => ?_⟩
    obtain rfl := List.mem_singleton.mp hz
    exact hx (hyz ▸ hy)

variable [DecidableEq α]

/-- What is left when `x` was freed. -/
def free (s : Stock α) (x : α) : Stock α := s.filter (·.1 ≠ x)

theorem free_of_not_mem (h : x ∉ s.live) : s.free x = s := by
  refine List.filter_eq_self.mpr fun e he => ?_
  have hne : e.1 ≠ x := fun hx => h (hx ▸ List.mem_map_of_mem he)
  simpa using hne

/-- **The frame rule**: what may be freed within the part may be freed, and the frame stays. -/
theorem Holds.free (h : Holds s part frame) (hx : part.Free x) :
    s.Free x ∧ Holds (s.free x) (part.free x) frame := by
  have hout : x ∉ frame.live := fun hin => List.disjoint_of_nodup_append h.split hx.1 hin
  refine ⟨⟨h.mem.mpr (Or.inl hx.1), fun e he hmem => ?_⟩, ?_, ?_, h.closed⟩
  · rcases List.mem_append.mp (h.perm.mem_iff.mp he) with he | he
    · exact hx.2 e he hmem
    · exact hout (h.closed e he x hmem)
  · have hfilter := h.perm.filter (fun e => decide (e.1 ≠ x))
    rw [List.filter_append] at hfilter
    have hsame : frame.filter (fun e => decide (e.1 ≠ x)) = frame := free_of_not_mem hout
    rwa [hsame] at hfilter
  · exact h.nodup.sublist (List.filter_sublist.map Prod.fst)

/-- What the rest of the part was not made of may be freed. -/
theorem Holds.pop (h : Holds s (part ++ [(x, of)]) frame) (hpart : ∀ e ∈ part, x ∉ e.2)
    (hof : x ∉ of) : s.Free x ∧ Holds (s.free x) part frame := by
  have hfree : (part ++ [(x, of)]).Free x := by
    refine ⟨List.mem_map_of_mem (List.mem_append_right _ (List.mem_singleton_self _)), ?_⟩
    intro e he
    rcases List.mem_append.mp he with he | he
    · exact hpart e he
    · rwa [List.mem_singleton.mp he]
  have hout : x ∉ part.live := fun hin => by
    have hnodup := (List.nodup_append.mp h.split).1
    rw [live_append] at hnodup
    exact List.disjoint_of_nodup_append hnodup hin (List.mem_singleton_self x)
  have hleft : (part ++ [(x, of)]).free x = part := by
    unfold Stock.free
    rw [List.filter_append, List.filter_cons_of_neg (by simp), List.filter_nil, List.append_nil]
    exact free_of_not_mem hout
  exact hleft ▸ h.free hfree

end Stock

end Rdmalib.Base
