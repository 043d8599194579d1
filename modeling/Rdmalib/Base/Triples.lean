/-
  File:      Rdmalib/Base/Triples.lean
  Subject:   Preconditions and postconditions of programs, under an assumption on the answers.

  * `Excuses` -- a protocol asks nothing of a program once the answers have broken the assumption;
  * `Triple` -- from the precondition a program follows the protocol, and where it ends with the
    assumption unbroken the postcondition holds;
  * one rule per way of building a program (`Triple.bind`, `Triple.attempt`, …), and `Triple.runs`:
    what a triple says of the runs.
-/
import Rdmalib.Base.Prog

namespace Rdmalib.Base

section Triples

variable {Op : Type} {Ans : Op → Type} {α β K : Type}

/-- Where the assumption is broken, anything may be performed, and it stays broken. -/
structure Excuses (P : Protocol Op Ans K) (D : K → Prop) : Prop where
  may : ∀ k o, ¬ D k → P.may k o
  stays : ∀ k o a, ¬ D k → ¬ D (P.next k o a)

variable {P : Protocol Op Ans K} {D : K → Prop} {pre pre' : K → Prop} {post post' : K → α → Prop}

theorem Excuses.follows (hD : Excuses P D) {k : K} (hk : ¬ D k) (p : Prog Op Ans α) :
    Follows P k p fun k' _ => ¬ D k' := by
  induction p generalizing k with
  | ret a => exact hk
  | act o p ih => exact ⟨hD.may k o hk, fun a => ih a (hD.stays k o a hk)⟩

variable (P D) in
/-- **What holds before and after a program**, as long as the assumption does. -/
def Triple (pre : K → Prop) (p : Prog Op Ans α) (post : K → α → Prop) : Prop :=
  ∀ k, D k → pre k → Follows P k p fun k' a => D k' → post k' a

theorem Triple.ret {a : α} (h : ∀ k, pre k → post k a) : Triple P D pre (pure a) post :=
  fun k _ hpre _ => h k hpre

theorem Triple.perform {o : Op} {post : K → Ans o → Prop}
    (h : ∀ k, D k → pre k →
      P.may k o ∧ ∀ a, D (P.next k o a) → post (P.next k o a) a) :
    Triple P D pre (.perform o) post := h

theorem Triple.conseq {p : Prog Op Ans α} (h : Triple P D pre p post)
    (hpre : ∀ k, pre' k → pre k) (hpost : ∀ k a, post k a → post' k a) :
    Triple P D pre' p post' := fun k hk hk' =>
  (h k hk (hpre k hk')).mono fun k' a hend hk'' => hpost k' a (hend hk'')

theorem Triple.and {p : Prog Op Ans α} (h : Triple P D pre p post) (h' : Triple P D pre' p post') :
    Triple P D (fun k => pre k ∧ pre' k) p fun k a => post k a ∧ post' k a := fun k hk hpre =>
  ((h k hk hpre.1).and (h' k hk hpre.2)).mono fun _ _ hend hk' => ⟨hend.1 hk', hend.2 hk'⟩

/-- What does not depend on the state is assumed. -/
theorem Triple.given {c : Prop} {p : Prog Op Ans α} (h : c → Triple P D pre p post) :
    Triple P D (fun k => c ∧ pre k) p post := fun k hk hpre => h hpre.1 k hk hpre.2

theorem Triple.some {β : Type} {pre : β → K → Prop} {p : Prog Op Ans α}
    (h : ∀ b, Triple P D (pre b) p post) : Triple P D (fun k => ∃ b, pre b k) p post :=
  fun k hk ⟨b, hpre⟩ => h b k hk hpre

theorem Triple.bind (hD : Excuses P D) (mid : K → α → Prop) {p : Prog Op Ans α}
    {f : α → Prog Op Ans β} {post : K → β → Prop} (hp : Triple P D pre p mid)
    (hf : ∀ a, Triple P D (mid · a) (f a) post) : Triple P D pre (p >>= f) post := by
  intro k hk hpre
  rw [follows_bind]
  refine (hp k hk hpre).mono fun k' a hmid => ?_
  by_cases hk' : D k'
  · exact hf a k' hk' (hmid hk')
  · exact (hD.follows hk' (f a)).mono fun k'' b hbroken hk'' => (hbroken hk'').elim

/-- Operations of one kind, each of which keeps what holds. -/
theorem Triple.only (hD : Excuses P D) {C : Op → Prop} {p : Prog Op Ans α} (h : Only C p)
    (hstep : ∀ k o, C o → D k → pre k →
      P.may k o ∧ ∀ a, D (P.next k o a) → pre (P.next k o a)) :
    Triple P D pre p fun k _ => pre k := by
  intro k hk hpre
  refine h.follows (I := fun k => D k → pre k) (fun k' o ho hk' => ?_) fun _ => hpre
  by_cases hk'' : D k'
  · exact hstep k' o ho hk'' (hk' hk'')
  · exact ⟨hD.may k' o hk'', fun a hnext => (hD.stays k' o a hk'' hnext).elim⟩

/-- **What a triple says of a run**: each operation was permitted at its point, and the end is as
    the postcondition says unless the answers broke the assumption. -/
theorem Triple.runs {p : Prog Op Ans α} (h : Triple P D pre p post) {k : K} (hk : D k)
    (hpre : pre k) {tr : Trace Op Ans} {a : α} (hr : p.Runs tr a) :
    (∀ t₁ e t₂, tr = t₁ ++ e :: t₂ → P.may (P.after k t₁) e.1) ∧
      (D (P.after k tr) → post (P.after k tr) a) :=
  ⟨fun _ _ _ htr => (h k hk hpre).may_of_runs (htr ▸ hr), (h k hk hpre).runs hr⟩

variable {ε : Type} {err : K → ε → Prop}

/-- An early return, or what comes next. -/
theorem Triple.attempt (hD : Excuses P D) (mid : K → α → Prop) {x : ExceptT ε (Prog Op Ans) α}
    {f : α → ExceptT ε (Prog Op Ans) β} {post : K → β → Prop}
    (hx : Triple P D pre x.run (Ends mid err))
    (hf : ∀ a, Triple P D (mid · a) (f a).run (Ends post err)) :
    Triple P D pre (x >>= f).run (Ends post err) := by
  refine Triple.bind hD _ hx fun r => ?_
  cases r with
  | ok a => exact hf a
  | error e => exact Triple.ret fun k h => h

theorem Triple.lift {p : Prog Op Ans α} (h : Triple P D pre p post) :
    Triple P D pre (liftM p : ExceptT ε (Prog Op Ans) α).run (Ends post err) := by
  intro k hk hpre
  show Follows P k (p >>= fun a => pure (Except.ok a)) _
  rw [follows_bind]
  exact h k hk hpre

theorem Triple.except {r : Except ε α} (h : ∀ k, pre k → Ends post err k r) :
    Triple P D pre (liftM r : ExceptT ε (Prog Op Ans) α).run (Ends post err) :=
  fun k _ hpre _ => h k hpre

end Triples

end Rdmalib.Base
