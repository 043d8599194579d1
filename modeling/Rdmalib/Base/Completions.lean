/-
  File:      Rdmalib/Base/Completions.lean
  Subject:   A device that is handed requests and reports each of them at most once, in any order,
             and that is polled for its reports.

  * `Tickets` -- the requests handed over, named by their position, and the reports made;
  * `Serves`  -- what the polls of a while may answer, with the request each report is about;
  * `Tickets.Sound`, kept by handing over and by serving: a report is about a request handed over,
    it carries that request's id, and it is the only one.
-/
import Mathlib.Data.List.Basic

namespace Rdmalib.Base

/-- The requests `R` handed to a device and its reports `C` on them. -/
structure Tickets (R C : Type) where
  handed : List R
  /-- The requests that are still to be reported. -/
  inFlight : List Nat
  /-- The reports that no poll has taken yet. -/
  queue : List (Nat × C)
  /-- Every report so far. -/
  reported : List (Nat × C)

namespace Tickets

variable {R C P : Type}

def empty : Tickets R C := ⟨[], [], [], []⟩

/-- A request is handed over; the device takes it or refuses it. -/
def hand (t : Tickets R C) (r : R) (taken : Bool) : Tickets R C :=
  { t with
    handed := t.handed ++ [r]
    inFlight := if taken then t.handed.length :: t.inFlight else t.inFlight }

/-- The device reports request `k`. -/
def report (t : Tickets R C) (k : Nat) (c : C) : Tickets R C :=
  { t with
    inFlight := t.inFlight.erase k
    queue := t.queue ++ [(k, c)]
    reported := t.reported ++ [(k, c)] }

section Serving

variable (carries : R → C → Prop) (yields : P → Option C)

/-- **What the polls of a while answer**: the device reports requests in flight at any time, with
    their ids; a poll yields nothing, or takes any report from the queue. -/
inductive Serves : Tickets R C → List (Option Nat × P) → Tickets R C → Prop where
  | done (t : Tickets R C) : Serves t [] t
  | report {t t' : Tickets R C} {es : List (Option Nat × P)} {k : Nat} {r : R} {c : C}
      (hk : k ∈ t.inFlight) (hr : t.handed[k]? = some r) (hc : carries r c)
      (h : Serves (t.report k c) es t') : Serves t es t'
  | nothing {t t' : Tickets R C} {es : List (Option Nat × P)} {p : P} (hp : yields p = none)
      (h : Serves t es t') : Serves t ((none, p) :: es) t'
  | take {t t' : Tickets R C} {es : List (Option Nat × P)} {p : P} {k : Nat} {c : C}
      {before after : List (Nat × C)} (hq : t.queue = before ++ (k, c) :: after)
      (hp : yields p = some c) (h : Serves { t with queue := before ++ after } es t') :
      Serves t ((some k, p) :: es) t'

/-- Reports are about requests handed over, carry their ids, and are made once. -/
structure Sound (t : Tickets R C) : Prop where
  flying : ∀ k ∈ t.inFlight, k < t.handed.length ∧ ∀ c, (k, c) ∉ t.reported
  single : t.inFlight.Nodup
  queued : ∀ e ∈ t.queue, e ∈ t.reported
  rightful : ∀ k c, (k, c) ∈ t.reported → ∃ r, t.handed[k]? = some r ∧ carries r c
  once : ∀ k c c', (k, c) ∈ t.reported → (k, c') ∈ t.reported → c = c'

end Serving

section Laws

variable {carries : R → C → Prop} {yields : P → Option C} {t t' : Tickets R C}
  {es : List (Option Nat × P)}

theorem sound_empty : (empty : Tickets R C).Sound carries :=
  ⟨by simp [empty], List.nodup_nil, by simp [empty], by simp [empty], by simp [empty]⟩

theorem Sound.hand (h : t.Sound carries) (r : R) (taken : Bool) : (t.hand r taken).Sound carries where
  flying k hk := by
    show k < (t.handed ++ [r]).length ∧ ∀ c, (k, c) ∉ t.reported
    have hnew : ∀ c, (t.handed.length, c) ∉ t.reported := fun c hc => by
      obtain ⟨r', hr', _⟩ := h.rightful _ _ hc
      exact absurd (List.getElem?_eq_some_iff.mp hr').1 (Nat.lt_irrefl _)
    have hcases : k = t.handed.length ∨ k ∈ t.inFlight := by
      cases taken with
      | true => exact List.mem_cons.mp hk
      | false => exact Or.inr hk
    rw [List.length_append, List.length_singleton]
    rcases hcases with rfl | hk
    · exact ⟨Nat.lt_succ_self _, hnew⟩
    · exact ⟨Nat.lt_succ_of_lt (h.flying k hk).1, (h.flying k hk).2⟩
  single := by
    cases taken with
    | true =>
        exact List.nodup_cons.mpr ⟨fun hm => absurd (h.flying _ hm).1 (Nat.lt_irrefl _), h.single⟩
    | false => exact h.single
  queued := h.queued
  rightful k c hc := by
    obtain ⟨r', hr', hcarries⟩ := h.rightful k c hc
    exact ⟨r', by rw [Tickets.hand, List.getElem?_append_left (List.getElem?_eq_some_iff.mp hr').1, hr'],
      hcarries⟩
  once := h.once

theorem Sound.report (h : t.Sound carries) {k : Nat} {r : R} {c : C} (hk : k ∈ t.inFlight)
    (hr : t.handed[k]? = some r) (hc : carries r c) : (t.report k c).Sound carries where
  flying j hj := by
    have hne : j ≠ k := fun e => h.single.not_mem_erase (e ▸ hj)
    refine ⟨(h.flying j (List.mem_of_mem_erase hj)).1, fun c' hc' => ?_⟩
    rcases List.mem_append.mp hc' with hc' | hc'
    · exact (h.flying j (List.mem_of_mem_erase hj)).2 c' hc'
    · exact hne (congrArg Prod.fst (List.mem_singleton.mp hc'))
  single := h.single.erase k
  queued e he := by
    refine List.mem_append.mpr ?_
    exact (List.mem_append.mp he).imp (h.queued e) id
  rightful j c' hc' := by
    rcases List.mem_append.mp hc' with hc' | hc'
    · exact h.rightful j c' hc'
    · cases List.mem_singleton.mp hc'
      exact ⟨r, hr, hc⟩
  once j c₁ c₂ h₁ h₂ := by
    -- the new report is the first on its request
    have hnew : ∀ c', (k, c') ∉ t.reported := (h.flying k hk).2
    rcases List.mem_append.mp h₁ with h₁ | h₁ <;> rcases List.mem_append.mp h₂ with h₂ | h₂
    · exact h.once j c₁ c₂ h₁ h₂
    · cases List.mem_singleton.mp h₂
      exact absurd h₁ (hnew _)
    · cases List.mem_singleton.mp h₁
      exact absurd h₂ (hnew _)
    · cases List.mem_singleton.mp h₁
      cases List.mem_singleton.mp h₂
      rfl

theorem Sound.dequeue (h : t.Sound carries) {k : Nat} {c : C} {before after : List (Nat × C)}
    (hq : t.queue = before ++ (k, c) :: after) :
    Sound carries { t with queue := before ++ after } where
  flying := h.flying
  single := h.single
  queued e he := by
    refine h.queued e ?_
    rw [hq, List.mem_append]
    exact (List.mem_append.mp he).imp id (List.mem_cons_of_mem _)
  rightful := h.rightful
  once := h.once

/-- **Serving** keeps the device sound and forgets nothing; every report that a poll took is one of
    those made. -/
theorem Serves.keeps (hs : Serves carries yields t es t') (h : t.Sound carries) :
    t'.Sound carries ∧ t'.handed = t.handed ∧ (∀ e ∈ t.reported, e ∈ t'.reported) ∧
      ∀ k p, (some k, p) ∈ es → ∃ c, yields p = some c ∧ (k, c) ∈ t'.reported := by
  induction hs with
  | done t => exact ⟨h, rfl, fun _ he => he, by simp⟩
  | report hk hr hc _ ih =>
      obtain ⟨hsound, hhanded, hkept, htaken⟩ := ih (h.report hk hr hc)
      exact ⟨hsound, hhanded, fun e he => hkept e (List.mem_append_left _ he), htaken⟩
  | nothing hp _ ih =>
      obtain ⟨hsound, hhanded, hkept, htaken⟩ := ih h
      refine ⟨hsound, hhanded, hkept, fun k p hm => htaken k p ?_⟩
      exact (List.mem_cons.mp hm).resolve_left (by simp)
  | take hq hp _ ih =>
      obtain ⟨hsound, hhanded, hkept, htaken⟩ := ih (h.dequeue hq)
      refine ⟨hsound, hhanded, hkept, fun k p hm => ?_⟩
      rcases List.mem_cons.mp hm with hm | hm
      · cases hm
        exact ⟨_, hp, hkept _ (h.queued _ (by rw [hq]; simp))⟩
      · exact htaken k p hm

/-- A poll without a source yields nothing. -/
theorem Serves.nothing_of_none (hs : Serves carries yields t es t') {p : P}
    (hm : (none, p) ∈ es) : yields p = none := by
  induction hs with
  | done => cases hm
  | report _ _ _ _ ih => exact ih hm
  | nothing hp _ ih =>
      rcases List.mem_cons.mp hm with hm | hm
      · cases hm
        exact hp
      · exact ih hm
  | take _ _ _ ih => exact ih ((List.mem_cons.mp hm).resolve_left (by simp))

/-- Every id is carried for one request only. -/
def Told (carries : R → C → Prop) (t : Tickets R C) : Prop :=
  ∀ (i j : Nat) (r r' : R) (c : C), t.handed[i]? = some r → t.handed[j]? = some r' → carries r c → carries r' c → i = j

/-- **Whose report it is** can be told from the id, where ids are not used twice. -/
theorem Sound.whose (h : t.Sound carries) (htold : t.Told carries) {j k : Nat} {r : R} {c : C}
    (hc : (k, c) ∈ t.reported) (hr : t.handed[j]? = some r) (hcarries : carries r c) : k = j := by
  obtain ⟨r', hr', hcarries'⟩ := h.rightful k c hc
  exact htold k j r' r c hr' hr hcarries' hcarries

end Laws

end Tickets

end Rdmalib.Base
