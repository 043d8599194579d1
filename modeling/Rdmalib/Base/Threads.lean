/-
  File:      Rdmalib/Base/Threads.lean
  Subject:   Threads that share a world, in any interleaving of their operations.

  * `System` -- the code of each loop, which answers an operation can have in a world and what
    it does to the world; `Step`, `Reach` -- one step of any thread, whole runs;
  * `System.restrict` -- the runs whose every step meets a condition;
  * `Watched` -- a run together with what each thread knows by a protocol; every run is one
    (`Reach.watched`), and no thread leaves its protocol (`Watched.follows`) or is over before its
    end (`Watched.ended`);
  * `Watched.invariant` -- **the invariant rule**: what the start satisfies and every permitted
    operation preserves holds in every state of every run. Results may be stacked: the step may
    use what is already known of all runs;
  * `System.play` -- runs as lists of threads with their answers, to exhibit one.
-/
import Mathlib.Logic.Function.Basic
import Mathlib.Logic.Relation
import Rdmalib.Base.Prog

namespace Rdmalib.Base

open Function (update)

variable {T Op W L K : Type} {Ans : Op → Type} [DecidableEq T]

/-! ## 1. Systems and their runs -/

/-- Threads named by `T` that perform `Op` on a world `W`. A thread's program ends with the loop
    it continues with, or with `none`. -/
structure System (T Op W L : Type) (Ans : Op → Type) where
  code : L → Prog Op Ans (Option L)
  can : T → (o : Op) → W → Ans o → Prop
  post : T → (o : Op) → Ans o → W → W

structure Config (T Op W L : Type) (Ans : Op → Type) where
  world : W
  prog : T → Prog Op Ans (Option L)

namespace System

variable (S : System T Op W L Ans)

/-- Every thread `t` at the start of its loop `l t`. -/
def start (w : W) (l : T → L) : Config T Op W L Ans := ⟨w, fun t => S.code (l t)⟩

/-- One step: an operation of one thread with one of its possible answers, or the start of the
    next turn of its loop. -/
inductive Step : Config T Op W L Ans → Config T Op W L Ans → Prop where
  | act {c : Config T Op W L Ans} (t : T) {o : Op} {k : Ans o → Prog Op Ans (Option L)} (a : Ans o)
      (ht : c.prog t = .act o k) (hc : S.can t o c.world a) :
      Step c ⟨S.post t o a c.world, update c.prog t (k a)⟩
  | loop {c : Config T Op W L Ans} (t : T) (l : L) (ht : c.prog t = .ret (some l)) :
      Step c ⟨c.world, update c.prog t (S.code l)⟩

/-- `c'` is reached from `c` by any number of steps. -/
abbrev Reach : Config T Op W L Ans → Config T Op W L Ans → Prop := Relation.ReflTransGen S.Step

/-- The system whose every operation also meets `C`. -/
def restrict (C : T → (o : Op) → W → Ans o → Prop) : System T Op W L Ans where
  code := S.code
  can t o w a := S.can t o w a ∧ C t o w a
  post := S.post

/-! ## 2. Watched runs -/

/-- The loops follow the protocol: started where `entry` allows it, a turn ends where `entry`
    allows the next. -/
structure Follows (P : Protocol Op Ans K) (entry : K → L → Prop) : Prop where
  turn : ∀ k l, entry k l → Base.Follows P k (S.code l) fun k' r => ∀ l' ∈ r, entry k' l'

omit [DecidableEq T] in
variable {S} in
theorem Follows.restrict {P : Protocol Op Ans K} {entry : K → L → Prop} (h : S.Follows P entry)
    (C : T → (o : Op) → W → Ans o → Prop) : (S.restrict C).Follows P entry := ⟨h.turn⟩

omit [DecidableEq T] in
variable {S} in
/-- Loops that follow two protocols follow both side by side. -/
theorem Follows.prod {K' : Type} {P : Protocol Op Ans K} {P' : Protocol Op Ans K'}
    {entry : K → L → Prop} {entry' : K' → L → Prop} (h : S.Follows P entry) (h' : S.Follows P' entry') :
    S.Follows (P.prod P') fun κ l => entry κ.1 l ∧ entry' κ.2 l where
  turn κ l hκ := ((h.turn κ.1 l hκ.1).prod (h'.turn κ.2 l hκ.2)).mono fun _ _ hr l' hl' =>
    ⟨hr.1 l' hl', hr.2 l' hl'⟩

/-- The loops follow the protocol, and a thread whose program is over has reached `ended`. -/
structure Finishes (P : Protocol Op Ans K) (entry : K → L → Prop) (ended : K → Prop) : Prop
    extends S.Follows P entry where
  last : ∀ k l, entry k l → Base.Follows P k (S.code l) fun k' r => r = none → ended k'

omit [DecidableEq T] in
variable {S} in
theorem Follows.finishes {K' : Type} {P : Protocol Op Ans K} {P' : Protocol Op Ans K'}
    {entry : K → L → Prop} {entry' : K' → L → Prop} {ended : K' → Prop} (h : S.Follows P entry)
    (h' : S.Finishes P' entry' ended) :
    S.Finishes (P.prod P') (fun κ l => entry κ.1 l ∧ entry' κ.2 l) fun κ => ended κ.2 where
  turn := (h.prod h'.toFollows).turn
  last κ l hκ := ((h.turn κ.1 l hκ.1).prod (h'.last κ.2 l hκ.2)).mono fun _ _ hr => hr.2

/-- A run from `w₀` and the loops `l₀`, with what each thread knows. -/
inductive Watched (P : Protocol Op Ans K) (w₀ : W) (l₀ : T → L) (k₀ : T → K) :
    W → (T → Prog Op Ans (Option L)) → (T → K) → Prop where
  | start : Watched P w₀ l₀ k₀ w₀ (fun t => S.code (l₀ t)) k₀
  | act {w : W} {prog : T → Prog Op Ans (Option L)} {know : T → K}
      (h : Watched P w₀ l₀ k₀ w prog know) (t : T) {o : Op} {p : Ans o → Prog Op Ans (Option L)}
      (a : Ans o) (ht : prog t = .act o p) (hc : S.can t o w a) :
      Watched P w₀ l₀ k₀ (S.post t o a w) (update prog t (p a))
        (update know t (P.next (know t) o a))
  | loop {w : W} {prog : T → Prog Op Ans (Option L)} {know : T → K}
      (h : Watched P w₀ l₀ k₀ w prog know) (t : T) (l : L) (ht : prog t = .ret (some l)) :
      Watched P w₀ l₀ k₀ w (update prog t (S.code l)) know

end System

/-- What a step does not change of what a thread knows, it changes for no thread. -/
theorem proj_update {β : Type} (f : K → β) {know : T → K} {t : T} {k : K} (h : f k = f (know t))
    (u : T) : f (update know t k u) = f (know u) := by
  by_cases hu : u = t
  · subst hu
    rw [Function.update_self, h]
  · rw [Function.update_of_ne hu]

section Runs

variable {S : System T Op W L Ans} {P : Protocol Op Ans K} {entry : K → L → Prop}
variable {w₀ w : W} {l₀ : T → L} {k₀ know : T → K} {prog : T → Prog Op Ans (Option L)}

variable (P) (k₀) in
/-- Every run can be watched. -/
theorem System.Reach.watched {c : Config T Op W L Ans} (h : S.Reach (S.start w₀ l₀) c) :
    ∃ know, S.Watched P w₀ l₀ k₀ c.world c.prog know := by
  induction h with
  | refl => exact ⟨k₀, .start⟩
  | tail _ hstep ih =>
      obtain ⟨know, hw⟩ := ih
      cases hstep with
      | act t a ht hc => exact ⟨_, hw.act t a ht hc⟩
      | loop t l ht => exact ⟨_, hw.loop t l ht⟩

/-- A watched run stays watched. -/
theorem System.Watched.extend {c c' : Config T Op W L Ans}
    (hw : S.Watched P w₀ l₀ k₀ c.world c.prog know) (h : S.Reach c c') :
    ∃ know', S.Watched P w₀ l₀ k₀ c'.world c'.prog know' := by
  induction h with
  | refl => exact ⟨know, hw⟩
  | tail _ hstep ih =>
      obtain ⟨know, hw⟩ := ih
      cases hstep with
      | act t a ht hc => exact ⟨_, hw.act t a ht hc⟩
      | loop t l ht => exact ⟨_, hw.loop t l ht⟩

/-- **No thread leaves its protocol.** -/
theorem System.Watched.follows (hS : S.Follows P entry) (h₀ : ∀ t, entry (k₀ t) (l₀ t))
    (hw : S.Watched P w₀ l₀ k₀ w prog know) (t : T) :
    Base.Follows P (know t) (prog t) fun k' r => ∀ l' ∈ r, entry k' l' := by
  induction hw with
  | start => exact hS.turn _ _ (h₀ t)
  | act _ u a hu _ ih =>
      by_cases htu : t = u
      · subst htu
        rw [hu] at ih
        rw [Function.update_self, Function.update_self]
        exact ih.2 a
      · rw [Function.update_of_ne htu, Function.update_of_ne htu]
        exact ih
  | loop _ u l hu ih =>
      by_cases htu : t = u
      · subst htu
        rw [hu] at ih
        rw [Function.update_self]
        exact hS.turn _ _ (ih l rfl)
      · rw [Function.update_of_ne htu]
        exact ih

/-- **A thread whose program is over has reached its end.** -/
theorem System.Watched.ended {ended : K → Prop} (hS : S.Finishes P entry ended)
    (h₀ : ∀ t, entry (k₀ t) (l₀ t)) (hw : S.Watched P w₀ l₀ k₀ w prog know) {t : T}
    (ht : prog t = .ret none) : ended (know t) := by
  have hlast : Base.Follows P (know t) (prog t) fun k' r => r = none → ended k' := by
    clear ht
    induction hw with
    | start => exact hS.last _ _ (h₀ t)
    | act _ u a hu _ ih =>
        by_cases htu : t = u
        · subst htu
          rw [hu] at ih
          rw [Function.update_self, Function.update_self]
          exact ih.2 a
        · rw [Function.update_of_ne htu, Function.update_of_ne htu]
          exact ih
    | loop hw u l hu ih =>
        by_cases htu : t = u
        · subst htu
          have hentry := hw.follows hS.toFollows h₀ t
          rw [hu] at hentry
          rw [Function.update_self]
          exact hS.last _ _ (hentry l rfl)
        · rw [Function.update_of_ne htu]
          exact ih
  rw [ht] at hlast
  exact hlast rfl

theorem System.Watched.may (hS : S.Follows P entry) (h₀ : ∀ t, entry (k₀ t) (l₀ t))
    (hw : S.Watched P w₀ l₀ k₀ w prog know) {t : T} {o : Op} {p : Ans o → Prog Op Ans (Option L)}
    (ht : prog t = .act o p) : P.may (know t) o := by
  have := hw.follows hS h₀ t
  rw [ht] at this
  exact this.1

/-! ## 3. Invariants -/

/-- **The invariant rule.** -/
theorem System.Watched.invariant (hS : S.Follows P entry) (h₀ : ∀ t, entry (k₀ t) (l₀ t))
    {I : W → (T → K) → Prop} (hI₀ : I w₀ k₀)
    (hstep : ∀ {w : W} {prog : T → Prog Op Ans (Option L)} {know : T → K},
      S.Watched P w₀ l₀ k₀ w prog know → I w know →
      ∀ (t : T) (o : Op) (a : Ans o), P.may (know t) o → S.can t o w a →
        I (S.post t o a w) (update know t (P.next (know t) o a)))
    (hw : S.Watched P w₀ l₀ k₀ w prog know) : I w know := by
  induction hw with
  | start => exact hI₀
  | act hw t a ht hc ih => exact hstep hw ih t _ a (hw.may hS h₀ ht) hc
  | loop _ _ _ _ ih => exact ih

/-- **The progress rule**: what every permitted operation of every run relates (a reflexive and
    transitive relation) relates any two successive states of a run. -/
theorem System.Watched.progress (hS : S.Follows P entry) (h₀ : ∀ t, entry (k₀ t) (l₀ t))
    {R : W → W → Prop} (hrefl : ∀ w, R w w) (htrans : ∀ {u v w}, R u v → R v w → R u w)
    (hstep : ∀ {w : W} {prog : T → Prog Op Ans (Option L)} {know : T → K},
      S.Watched P w₀ l₀ k₀ w prog know →
      ∀ (t : T) (o : Op) (a : Ans o), P.may (know t) o → S.can t o w a → R w (S.post t o a w))
    {c c' : Config T Op W L Ans} (h : S.Reach (S.start w₀ l₀) c) (h' : S.Reach c c') :
    R c.world c'.world := by
  obtain ⟨know, hw⟩ := h.watched P k₀
  clear h
  induction h' with
  | refl => exact hrefl _
  | @tail d e hcd hde ih =>
      obtain ⟨know', hd⟩ := hw.extend hcd
      cases hde with
      | act t a ht hc => exact htrans ih (hstep hd t _ a (hd.may hS h₀ ht) hc)
      | loop t l ht => exact ih

/-- What is known by one of two protocols side by side. -/
theorem System.Watched.fst {K' : Type} {P' : Protocol Op Ans K'} {k₀ know : T → K × K'}
    (hw : S.Watched (P.prod P') w₀ l₀ k₀ w prog know) :
    S.Watched P w₀ l₀ (fun t => (k₀ t).1) w prog fun t => (know t).1 := by
  induction hw with
  | start => exact .start
  | @act w prog know _ t o p a ht hc ih =>
      have hknow : (fun u => (update know t ((P.prod P').next (know t) o a) u).1) =
          update (fun u => (know u).1) t (P.next (know t).1 o a) := by
        funext u
        by_cases hu : u = t
        · subst hu
          rw [Function.update_self, Function.update_self]
          rfl
        · rw [Function.update_of_ne hu, Function.update_of_ne hu]
      rw [hknow]
      exact ih.act t a ht hc
  | loop _ t l ht ih => exact ih.loop t l ht

theorem System.Reach.unrestrict {C : T → (o : Op) → W → Ans o → Prop} {c c' : Config T Op W L Ans}
    (h : (S.restrict C).Reach c c') : S.Reach c c' := by
  induction h with
  | refl => exact .refl
  | tail _ hstep ih =>
      cases hstep with
      | act t a ht hc => exact ih.tail (.act t a ht hc.1)
      | loop t l ht => exact ih.tail (.loop t l ht)

/-- A run of the restricted system is a run of the system. -/
theorem System.Watched.unrestrict {C : T → (o : Op) → W → Ans o → Prop}
    (hw : (S.restrict C).Watched P w₀ l₀ k₀ w prog know) : S.Watched P w₀ l₀ k₀ w prog know := by
  induction hw with
  | start => exact .start
  | act _ t a ht hc ih => exact ih.act t a ht hc.1
  | loop _ t l ht ih => exact ih.loop t l ht

end Runs

/-! ## 4. Playing a run -/

section Play

variable (S : System T Op W L Ans)
variable [∀ (t : T) (o : Op) (w : W) (a : Ans o), Decidable (S.can t o w a)]

instance {C : T → (o : Op) → W → Ans o → Prop}
    [∀ (t : T) (o : Op) (w : W) (a : Ans o), Decidable (C t o w a)] (t : T) (o : Op) (w : W)
    (a : Ans o) : Decidable ((S.restrict C).can t o w a) :=
  inferInstanceAs (Decidable (S.can t o w a ∧ C t o w a))

/-- The step of thread `t` whose operation is answered by `f`. -/
def System.move (c : Config T Op W L Ans) (t : T) (f : (o : Op) → W → Ans o) :
    Option (Config T Op W L Ans) :=
  match c.prog t with
  | .act o k =>
      if S.can t o c.world (f o c.world) then
        some ⟨S.post t o (f o c.world) c.world, update c.prog t (k (f o c.world))⟩
      else none
  | .ret (some l) => some ⟨c.world, update c.prog t (S.code l)⟩
  | .ret none => none

def System.play : Config T Op W L Ans → List (T × ((o : Op) → W → Ans o)) →
    Option (Config T Op W L Ans)
  | c, [] => some c
  | c, (t, f) :: rest => (S.move c t f).bind fun c' => System.play c' rest

variable {S}

theorem System.move_step {c c' : Config T Op W L Ans} {t : T} {f : (o : Op) → W → Ans o}
    (h : S.move c t f = some c') : S.Step c c' := by
  unfold System.move at h
  split at h
  · rename_i o k ht
    split at h
    · rename_i hc
      cases h
      exact .act t _ ht hc
    · cases h
  · rename_i l ht
    cases h
    exact .loop t l ht
  · cases h

/-- What was played is a run. -/
theorem System.play_reach {c c' : Config T Op W L Ans} {moves : List (T × ((o : Op) → W → Ans o))}
    (h : S.play c moves = some c') : S.Reach c c' := by
  induction moves generalizing c with
  | nil =>
      cases h
      exact .refl
  | cons m rest ih =>
      obtain ⟨t, f⟩ := m
      obtain ⟨d, hd, hrest⟩ := Option.bind_eq_some_iff.mp h
      exact Relation.ReflTransGen.head (System.move_step hd) (ih hrest)

end Play

end Rdmalib.Base
