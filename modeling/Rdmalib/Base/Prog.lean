/-
  File:      Rdmalib/Base/Prog.lean
  Subject:   Programs that perform atomic operations, and the rules they follow.

  * `Prog Op Ans α` -- a program ends with a value of `α` or performs an operation `o : Op` and
    goes on with the answer of type `Ans o`;
  * `Protocol` -- what one thread may do next, given what it learnt from the answers so far (its
    knowledge);
  * `Follows` -- a program follows a protocol WHATEVER the answers are, with one rule per way of
    building a program (`follows_bind`, `tries_bind`, …);
  * `Only` -- a program performs operations of one kind only, so it follows every protocol that
    leaves that kind free (`Only.follows`);
  * `Prog.Runs` -- one run of a program, as the trace of its operations and their answers. What is
    known after a program that follows a protocol is known after each of its runs
    (`Follows.runs`); `Prog.drive` runs a program against a scripted environment.
-/
import Mathlib.Tactic.Ring

namespace Rdmalib.Base

/-! ## 1. Programs -/

/-- A program over the operations `Op` with answers `Ans`. -/
inductive Prog (Op : Type) (Ans : Op → Type) (α : Type) : Type where
  | ret (a : α)
  | act (o : Op) (k : Ans o → Prog Op Ans α)

section Programs

variable {Op : Type} {Ans : Op → Type} {α β : Type}

namespace Prog

def bind : Prog Op Ans α → (α → Prog Op Ans β) → Prog Op Ans β
  | .ret a, f => f a
  | .act o k, f => .act o fun a => (k a).bind f

instance : Monad (Prog Op Ans) where
  pure := .ret
  bind := bind

/-- One operation. -/
def perform (o : Op) : Prog Op Ans (Ans o) := .act o .ret

end Prog

/-! ## 2. Protocols -/

/-- What a thread may do, by what it knows, and what it learns from an answer. -/
structure Protocol (Op : Type) (Ans : Op → Type) (K : Type) where
  may : K → Op → Prop
  next : K → (o : Op) → Ans o → K

variable {K : Type} (P : Protocol Op Ans K)

/-- Started with the knowledge `k`, the program performs only what it may, and where it ends with
    `a`, knowing `k'`, `Q k' a` holds. -/
def Follows : K → Prog Op Ans α → (K → α → Prop) → Prop
  | k, .ret a, Q => Q k a
  | k, .act o p, Q => P.may k o ∧ ∀ a, Follows (P.next k o a) (p a) Q

variable {P} {k : K}

@[simp] theorem follows_ret {a : α} {Q : K → α → Prop} : Follows P k (.ret a) Q ↔ Q k a := Iff.rfl

@[simp] theorem follows_pure {a : α} {Q : K → α → Prop} :
    Follows P k (pure a : Prog Op Ans α) Q ↔ Q k a := Iff.rfl

@[simp] theorem follows_act {o : Op} {p : Ans o → Prog Op Ans α} {Q : K → α → Prop} :
    Follows P k (.act o p) Q ↔ P.may k o ∧ ∀ a, Follows P (P.next k o a) (p a) Q := Iff.rfl

@[simp] theorem follows_perform {o : Op} {Q : K → Ans o → Prop} :
    Follows P k (.perform o) Q ↔ P.may k o ∧ ∀ a, Q (P.next k o a) a := Iff.rfl

@[simp] theorem follows_bind {p : Prog Op Ans α} {f : α → Prog Op Ans β} {Q : K → β → Prop} :
    Follows P k (p >>= f) Q ↔ Follows P k p fun k' a => Follows P k' (f a) Q := by
  show Follows P k (p.bind f) Q ↔ _
  induction p generalizing k with
  | ret a => exact Iff.rfl
  | act o p ih =>
      show (P.may k o ∧ ∀ a, Follows P _ ((p a).bind f) Q) ↔ _
      simp only [ih, follows_act]

theorem Follows.mono {p : Prog Op Ans α} {Q Q' : K → α → Prop} (h : Follows P k p Q)
    (hQ : ∀ k' a, Q k' a → Q' k' a) : Follows P k p Q' := by
  induction p generalizing k with
  | ret a => exact hQ k a h
  | act o p ih => exact ⟨h.1, fun a => ih a (h.2 a)⟩

theorem Follows.and {p : Prog Op Ans α} {Q Q' : K → α → Prop} (h : Follows P k p Q)
    (h' : Follows P k p Q') : Follows P k p fun k' a => Q k' a ∧ Q' k' a := by
  induction p generalizing k with
  | ret a => exact ⟨h, h'⟩
  | act o p ih => exact ⟨h.1, fun a => ih a (h.2 a) (h'.2 a)⟩

/-- What no operation changes of what is known. -/
theorem Follows.keeps {β : Type} (f : K → β) (hf : ∀ k o a, f (P.next k o a) = f k)
    {p : Prog Op Ans α} {Q : K → α → Prop} (h : Follows P k p Q) :
    Follows P k p fun k' a => Q k' a ∧ f k' = f k := by
  induction p generalizing k with
  | ret a => exact ⟨h, rfl⟩
  | act o p ih =>
      exact ⟨h.1, fun a => (ih a (h.2 a)).mono fun k' b hb => ⟨hb.1, hb.2.trans (hf k o a)⟩⟩

/-- Two protocols side by side. -/
def Protocol.prod {K' : Type} (P : Protocol Op Ans K) (P' : Protocol Op Ans K') :
    Protocol Op Ans (K × K') where
  may k o := P.may k.1 o ∧ P'.may k.2 o
  next k o a := (P.next k.1 o a, P'.next k.2 o a)

theorem Follows.prod {K' : Type} {P' : Protocol Op Ans K'} {k' : K'} {p : Prog Op Ans α}
    {Q : K → α → Prop} {Q' : K' → α → Prop} (h : Follows P k p Q) (h' : Follows P' k' p Q') :
    Follows (P.prod P') (k, k') p fun κ a => Q κ.1 a ∧ Q' κ.2 a := by
  induction p generalizing k k' with
  | ret a => exact ⟨h, h'⟩
  | act o p ih => exact ⟨⟨h.1, h'.1⟩, fun a => ih a (h.2 a) (h'.2 a)⟩

/-- A program that follows two protocols ends as both say. -/
theorem Follows.both {K' : Type} {P' : Protocol Op Ans K'} {k' : K'} {p : Prog Op Ans α}
    {Q : K → α → Prop} {Q' : K' → α → Prop} (h : Follows P k p Q) (h' : Follows P' k' p Q') :
    Follows P k p fun k₁ a => Q k₁ a ∧ ∃ k₂, Q' k₂ a := by
  induction p generalizing k k' with
  | ret a => exact ⟨h, k', h'⟩
  | act o p ih => exact ⟨h.1, fun a => ih a (h.2 a) (h'.2 a)⟩

end Programs

/-! ## 3. Programs that may fail -/

section Failing

variable {Op : Type} {Ans : Op → Type} {α β ε K : Type}
variable {P : Protocol Op Ans K} {k : K}

/-- What holds where a program ends with `Ok`, and what where it ends with an error. -/
def Ends (Q : K → α → Prop) (E : K → ε → Prop) (k : K) : Except ε α → Prop
  | .ok a => Q k a
  | .error e => E k e

@[simp] theorem ends_ok {Q : K → α → Prop} {E : K → ε → Prop} {a : α} :
    Ends Q E k (.ok a) ↔ Q k a := Iff.rfl

@[simp] theorem ends_error {Q : K → α → Prop} {E : K → ε → Prop} {e : ε} :
    Ends Q E k (.error e : Except ε α) ↔ E k e := Iff.rfl

variable (P) in
/-- `Follows` for a program with early returns. -/
def Tries (k : K) (x : ExceptT ε (Prog Op Ans) α) (Q : K → α → Prop) (E : K → ε → Prop) : Prop :=
  Follows P k x.run (Ends Q E)

variable {Q : K → α → Prop} {R : K → β → Prop} {E : K → ε → Prop}

@[simp] theorem tries_pure {a : α} :
    Tries P k (pure a : ExceptT ε (Prog Op Ans) α) Q E ↔ Q k a := Iff.rfl

@[simp] theorem tries_throw {e : ε} :
    Tries P k (throw e : ExceptT ε (Prog Op Ans) α) Q E ↔ E k e := Iff.rfl

@[simp] theorem tries_bind {x : ExceptT ε (Prog Op Ans) α} {f : α → ExceptT ε (Prog Op Ans) β} :
    Tries P k (x >>= f) R E ↔ Tries P k x (fun k' a => Tries P k' (f a) R E) E := by
  show Follows P k (x.run >>= ExceptT.bindCont f) (Ends R E) ↔ _
  rw [follows_bind]
  unfold Tries
  constructor
  · intro h
    refine h.mono fun k' r hr => ?_
    cases r with
    | ok a => exact hr
    | error e => exact hr
  · intro h
    refine h.mono fun k' r hr => ?_
    cases r with
    | ok a => exact hr
    | error e => exact hr

@[simp] theorem tries_lift {p : Prog Op Ans α} :
    Tries P k (liftM p : ExceptT ε (Prog Op Ans) α) Q E ↔ Follows P k p Q := by
  show Follows P k (p >>= fun a => pure (Except.ok a)) (Ends Q E) ↔ _
  rw [follows_bind]
  exact Iff.rfl

@[simp] theorem tries_except {r : Except ε α} :
    Tries P k (liftM r : ExceptT ε (Prog Op Ans) α) Q E ↔ Ends Q E k r := Iff.rfl

theorem Tries.mono {x : ExceptT ε (Prog Op Ans) α} {Q' : K → α → Prop} {E' : K → ε → Prop}
    (h : Tries P k x Q E) (hQ : ∀ k' a, Q k' a → Q' k' a) (hE : ∀ k' e, E k' e → E' k' e) :
    Tries P k x Q' E' := by
  refine Follows.mono h fun k' r hr => ?_
  cases r with
  | ok a => exact hQ k' a hr
  | error e => exact hE k' e hr

/-- A program with early returns, run to its result. -/
theorem follows_run {x : ExceptT ε (Prog Op Ans) α} {Q : K → Except ε α → Prop} :
    Follows P k x.run Q ↔ Tries P k x (fun k' a => Q k' (.ok a)) fun k' e => Q k' (.error e) := by
  unfold Tries
  constructor
  · intro h
    refine h.mono fun k' r hr => ?_
    cases r with
    | ok a => exact hr
    | error e => exact hr
  · intro h
    refine h.mono fun k' r hr => ?_
    cases r with
    | ok a => exact hr
    | error e => exact hr

end Failing

/-! ## 4. Programs with operations of one kind -/

section Kinds

variable {Op : Type} {Ans : Op → Type} {α β ε K : Type}
variable {P : Protocol Op Ans K} {k : K} {C : Op → Prop}

/-- Every operation of the program is one of `C`. -/
def Only (C : Op → Prop) : Prog Op Ans α → Prop
  | .ret _ => True
  | .act o p => C o ∧ ∀ a, Only C (p a)

theorem only_pure {a : α} : Only C (pure a : Prog Op Ans α) := trivial

theorem only_perform {o : Op} (h : C o) : Only C (.perform o : Prog Op Ans (Ans o)) :=
  ⟨h, fun _ => trivial⟩

theorem only_bind {p : Prog Op Ans α} {f : α → Prog Op Ans β} (hp : Only C p)
    (hf : ∀ a, Only C (f a)) : Only C (p >>= f) := by
  show Only C (p.bind f)
  induction p with
  | ret a => exact hf a
  | act o p ih => exact ⟨hp.1, fun a => ih a (hp.2 a)⟩

theorem only_lift {p : Prog Op Ans α} (h : Only C p) :
    Only C (liftM p : ExceptT ε (Prog Op Ans) α).run :=
  only_bind h fun _ => only_pure

theorem only_try {x : ExceptT ε (Prog Op Ans) α} {f : α → ExceptT ε (Prog Op Ans) β}
    (hx : Only C x.run) (hf : ∀ a, Only C (f a).run) : Only C (x >>= f).run := by
  refine only_bind hx fun r => ?_
  cases r with
  | ok a => exact hf a
  | error e => exact only_pure

theorem only_except {r : Except ε α} : Only C (liftM r : ExceptT ε (Prog Op Ans) α).run := trivial

/-- A program keeps what each of its operations keeps. -/
theorem Only.follows {I : K → Prop} {p : Prog Op Ans α} (h : Only C p)
    (hstep : ∀ k o, C o → I k → P.may k o ∧ ∀ a, I (P.next k o a)) (hk : I k) :
    Follows P k p fun k' _ => I k' := by
  induction p generalizing k with
  | ret a => exact hk
  | act o p ih => exact ⟨(hstep k o h.1 hk).1, fun a => ih a (h.2 a) ((hstep k o h.1 hk).2 a)⟩

theorem Only.mono {C' : Op → Prop} {p : Prog Op Ans α} (h : Only C p) (hC : ∀ o, C o → C' o) :
    Only C' p := by
  induction p with
  | ret a => trivial
  | act o p ih => exact ⟨hC o h.1, fun a => ih a (h.2 a)⟩

/-- Any program, under a protocol that permits everything. -/
theorem follows_any {I : K → Prop} (hmay : ∀ k o, P.may k o)
    (hstep : ∀ k (o : Op) a, I k → I (P.next k o a)) (hk : I k) (p : Prog Op Ans α) :
    Follows P k p fun k' _ => I k' := by
  induction p generalizing k with
  | ret a => exact hk
  | act o p ih => exact ⟨hmay k o, fun a => ih a (hstep k o a hk)⟩

end Kinds

/-! ## 5. Single runs -/

section Traces

variable {Op : Type} {Ans : Op → Type} {α β K σ : Type}
variable {P : Protocol Op Ans K} {k : K}

/-- Operations with their answers. -/
abbrev Trace (Op : Type) (Ans : Op → Type) := List (Σ o : Op, Ans o)

/-- Answered as in the trace, the program ends with `b`. -/
def Prog.Runs : Prog Op Ans α → Trace Op Ans → α → Prop
  | .ret a, tr, b => tr = [] ∧ a = b
  | .act o p, tr, b => ∃ a rest, tr = ⟨o, a⟩ :: rest ∧ (p a).Runs rest b

theorem runs_bind {p : Prog Op Ans α} {f : α → Prog Op Ans β} {tr : Trace Op Ans} {b : β} :
    (p >>= f).Runs tr b ↔ ∃ t₁ t₂ a, tr = t₁ ++ t₂ ∧ p.Runs t₁ a ∧ (f a).Runs t₂ b := by
  show (p.bind f).Runs tr b ↔ _
  induction p generalizing tr with
  | ret a =>
      constructor
      · intro h
        exact ⟨[], tr, a, rfl, ⟨rfl, rfl⟩, h⟩
      · intro ⟨_, _, _, ht, ⟨h₁, ha⟩, h⟩
        subst h₁ ha
        exact ht ▸ h
  | act o p ih =>
      constructor
      · intro ⟨a, rest, ht, h⟩
        obtain ⟨t₁, t₂, b', hr, h₁, h₂⟩ := (ih a).mp h
        exact ⟨⟨o, a⟩ :: t₁, t₂, b', by rw [ht, hr]; rfl, ⟨a, t₁, rfl, h₁⟩, h₂⟩
      · intro ⟨_, t₂, b', ht, ⟨a, t₁, ht₁, h₁⟩, h₂⟩
        subst ht₁
        exact ⟨a, t₁ ++ t₂, ht, (ih a).mpr ⟨t₁, t₂, b', rfl, h₁, h₂⟩⟩

/-- What is known after the trace. -/
def Protocol.after (P : Protocol Op Ans K) (k : K) (tr : Trace Op Ans) : K :=
  tr.foldl (fun k e => P.next k e.1 e.2) k

/-- **What a program achieves, each of its runs achieves.** -/
theorem Follows.runs {p : Prog Op Ans α} {Q : K → α → Prop} (h : Follows P k p Q)
    {tr : Trace Op Ans} {b : α} (hr : p.Runs tr b) : Q (P.after k tr) b := by
  induction p generalizing k tr with
  | ret a =>
      obtain ⟨rfl, rfl⟩ := hr
      exact h
  | act o p ih =>
      obtain ⟨a, rest, rfl, hr⟩ := hr
      exact ih a (h.2 a) hr

/-- Each operation of a run is one that the program may perform. -/
theorem Follows.may_of_runs {p : Prog Op Ans α} {Q : K → α → Prop} (h : Follows P k p Q)
    {pre post : Trace Op Ans} {e : Σ o : Op, Ans o} {b : α} (hr : p.Runs (pre ++ e :: post) b) :
    P.may (P.after k pre) e.1 := by
  induction p generalizing k pre with
  | ret a => simp [Prog.Runs] at hr
  | act o p ih =>
      obtain ⟨a, rest, htr, hr⟩ := hr
      cases pre with
      | nil =>
          cases htr
          exact h.1
      | cons e' pre =>
          cases htr
          exact ih a (h.2 a) hr

/-- The run in which `f` answers, in a state of its own, with the answer and the next state. -/
def Prog.drive (f : σ → (o : Op) → Ans o × σ) : Prog Op Ans α → σ → Trace Op Ans × α
  | .ret a, _ => ([], a)
  | .act o p, s =>
      let rest := (p (f s o).1).drive f (f s o).2
      (⟨o, (f s o).1⟩ :: rest.1, rest.2)

theorem Prog.drive_runs (f : σ → (o : Op) → Ans o × σ) (p : Prog Op Ans α) (s : σ) :
    p.Runs (p.drive f s).1 (p.drive f s).2 := by
  induction p generalizing s with
  | ret a => exact ⟨rfl, rfl⟩
  | act o p ih => exact ⟨_, _, rfl, ih _ _⟩

/-- The state in which that run ends. -/
def Prog.final (f : σ → (o : Op) → Ans o × σ) : Prog Op Ans α → σ → σ
  | .ret _, s => s
  | .act o p, s => (p (f s o).1).final f (f s o).2

/-- That run step by step: the state before each operation, the operation with its answer, and the
    state after it. -/
def Prog.visits (f : σ → (o : Op) → Ans o × σ) :
    Prog Op Ans α → σ → List (σ × (Σ o : Op, Ans o) × σ)
  | .ret _, _ => []
  | .act o p, s => (s, ⟨o, (f s o).1⟩, (f s o).2) :: (p (f s o).1).visits f (f s o).2

theorem Prog.drive_bind (f : σ → (o : Op) → Ans o × σ) (p : Prog Op Ans α) (q : α → Prog Op Ans β)
    (s : σ) : ((p >>= q).drive f s).2 = ((q (p.drive f s).2).drive f (p.final f s)).2 ∧
      (p >>= q).final f s = (q (p.drive f s).2).final f (p.final f s) := by
  induction p generalizing s with
  | ret a => exact ⟨rfl, rfl⟩
  | act o p ih => exact ih _ _

theorem Prog.visits_trace (f : σ → (o : Op) → Ans o × σ) (p : Prog Op Ans α) (s : σ) :
    (p.visits f s).map (·.2.1) = (p.drive f s).1 := by
  induction p generalizing s with
  | ret a => rfl
  | act o p ih => exact congrArg (_ :: ·) (ih _ _)

/-- **What every answer preserves holds in every state of the run.** -/
theorem Prog.visits_forall {f : σ → (o : Op) → Ans o × σ} {I : σ → Prop}
    (hstep : ∀ s o, I s → I (f s o).2) (p : Prog Op Ans α) {s : σ} (hs : I s) :
    ∀ v ∈ p.visits f s, ∃ s o, I s ∧ v = (s, ⟨o, (f s o).1⟩, (f s o).2) := by
  induction p generalizing s with
  | ret a => nofun
  | act o p ih =>
      intro v hv
      rcases List.mem_cons.mp hv with rfl | hv
      · exact ⟨s, o, hs, rfl⟩
      · exact ih _ (hstep s o hs) v hv

/-- What is known after the run, and the state it ends in, stay related. -/
theorem Prog.drive_after {f : σ → (o : Op) → Ans o × σ} {R : σ → K → Prop}
    (hstep : ∀ s k o, R s k → R (f s o).2 (P.next k o (f s o).1)) (p : Prog Op Ans α) {s : σ}
    (h : R s k) : R (p.final f s) (P.after k (p.drive f s).1) := by
  induction p generalizing s k with
  | ret a => exact h
  | act o p ih => exact ih _ (hstep s k o h)

end Traces

end Rdmalib.Base
