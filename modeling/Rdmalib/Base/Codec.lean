/-
  File:      Rdmalib/Base/Codec.lean
  Subject:   Parsers that read EXACTLY the image of an encoder.

  A parser of a state `σ` with errors `ε` is a `StateT σ (Except ε)` computation. What it works
  on is described by an `Input`: the bytes still ahead of a state, the states that can occur, and
  the errors that count as a refusal of the input. `Reads I p fits enc` says of a parser `p` all
  three directions at once:

  * it accepts the image of `enc` (on values that fit) and stops right behind it;
  * what it accepts is the image of the value it returns;
  * where it does not accept, it refuses (no other failure).

  Sequencing (`Reads.field`), a value (`Reads.value`) and the counted loop (`Reads.times`) keep
  the property, so a format made of them is proved field by field.
-/
import Mathlib.Data.List.Basic

namespace Rdmalib.Base

/-- What a parser works on: the bytes ahead of a state, the states that can occur, and the
    errors that refuse the input. -/
structure Input (σ ε : Type) where
  rest : σ → List UInt8
  valid : σ → Prop
  refusal : ε → Prop

section Reads

variable {σ ε α β : Type}

/-- **`p` reads exactly the image of `enc` on the values that fit.** -/
structure Reads (I : Input σ ε) (p : StateT σ (Except ε) α) (fits : α → Prop)
    (enc : α → List UInt8) : Prop where
  accepts : ∀ s x tail, I.valid s → fits x → I.rest s = enc x ++ tail →
    ∃ s', p s = .ok (x, s') ∧ I.rest s' = tail ∧ I.valid s'
  spells : ∀ s x s', I.valid s → p s = .ok (x, s') →
    fits x ∧ I.rest s = enc x ++ I.rest s' ∧ I.valid s'
  refuses : ∀ s e, I.valid s → p s = .error e → I.refusal e

variable {I : Input σ ε}

/-- A parser that reads nothing and answers `b`. -/
theorem Reads.value (b : β) : Reads I (pure b) (fun x => x = b) (fun _ => []) where
  accepts s x tail hv hx hs := by
    subst hx
    exact ⟨s, rfl, by simpa using hs, hv⟩
  spells s x s' hv h := by
    cases h
    exact ⟨rfl, by simp, hv⟩
  refuses s e _ h := by cases h

theorem Reads.congr {p : StateT σ (Except ε) α} {fits fits' : α → Prop}
    {enc enc' : α → List UInt8} (h : Reads I p fits enc) (hf : ∀ x, fits x ↔ fits' x)
    (he : ∀ x, fits x → enc x = enc' x) : Reads I p fits' enc' where
  accepts s x tail hv hx hs := by
    have hx' := (hf x).mpr hx
    exact h.accepts s x tail hv hx' (by rw [he x hx']; exact hs)
  spells s x s' hv hp := by
    obtain ⟨hx, hs, hv'⟩ := h.spells s x s' hv hp
    exact ⟨(hf x).mp hx, by rw [← he x hx]; exact hs, hv'⟩
  refuses := h.refuses

/-- **Sequencing**: `proj` recovers the first field from the whole value, and the rest of the
    parser answers only values that carry the field it was given. -/
theorem Reads.field {p : StateT σ (Except ε) α} {f : α → StateT σ (Except ε) β}
    {fitsA : α → Prop} {fits : β → Prop} {encA : α → List UInt8} {enc encB : β → List UInt8}
    (proj : β → α) (hp : Reads I p fitsA encA) (hfits : ∀ b, fits b → fitsA (proj b))
    (henc : ∀ b, fits b → enc b = encA (proj b) ++ encB b)
    (hf : ∀ a, fitsA a → Reads I (f a) (fun b => proj b = a ∧ fits b) encB) :
    Reads I (p >>= f) fits enc where
  accepts s b tail hv hb hs := by
    rw [henc b hb, List.append_assoc] at hs
    obtain ⟨s₁, h₁, hr₁, hv₁⟩ := hp.accepts s (proj b) _ hv (hfits b hb) hs
    obtain ⟨s₂, h₂, hr₂, hv₂⟩ := (hf _ (hfits b hb)).accepts s₁ b tail hv₁ ⟨rfl, hb⟩ hr₁
    refine ⟨s₂, ?_, hr₂, hv₂⟩
    simp only [Bind.bind, StateT.bind, h₁, Except.bind, h₂]
  spells s b s' hv h := by
    simp only [Bind.bind, StateT.bind, Except.bind] at h
    cases h₁ : p s with
    | error e => rw [h₁] at h; cases h
    | ok r =>
        obtain ⟨a, s₁⟩ := r
        rw [h₁] at h
        obtain ⟨ha, hr, hv₁⟩ := hp.spells s a s₁ hv h₁
        obtain ⟨⟨rfl, hb⟩, hr', hv'⟩ := (hf a ha).spells s₁ b s' hv₁ h
        exact ⟨hb, by rw [hr, hr', henc b hb, List.append_assoc], hv'⟩
  refuses s e hv h := by
    simp only [Bind.bind, StateT.bind, Except.bind] at h
    cases h₁ : p s with
    | error e' =>
        rw [h₁] at h
        cases h
        exact hp.refuses s e hv h₁
    | ok r =>
        obtain ⟨a, s₁⟩ := r
        rw [h₁] at h
        obtain ⟨ha, _, hv₁⟩ := hp.spells s a s₁ hv h₁
        exact (hf a ha).refuses s₁ e hv₁ h

/-- `p`, run `n` times; the answers are pushed behind `acc`. -/
def times (p : StateT σ (Except ε) α) : Nat → List α → StateT σ (Except ε) (List α)
  | 0, acc => pure acc
  | n + 1, acc => p >>= fun x => times p n (acc ++ [x])

/-- **The counted loop** reads the images of exactly `n` values, in order. -/
theorem Reads.times {p : StateT σ (Except ε) α} {fits : α → Prop} {enc : α → List UInt8}
    (hp : Reads I p fits enc) : ∀ (n : Nat) (acc : List α),
    Reads I (times p n acc)
      (fun xs => ∃ ys, xs = acc ++ ys ∧ ys.length = n ∧ ∀ y ∈ ys, fits y)
      (fun xs => (xs.drop acc.length).flatMap enc) := by
  intro n
  induction n with
  | zero =>
      intro acc
      refine (Reads.value acc).congr (fun xs => ⟨fun h => ⟨[], by simp [h], rfl, by simp⟩, ?_⟩)
        fun xs h => by simp [h]
      rintro ⟨ys, rfl, hlen, _⟩
      simp [List.length_eq_zero_iff.mp hlen]
  | succ n ih =>
      intro acc
      -- stated on the tail `ys`, so that the head read first can be recovered from the answer
      refine ⟨fun s xs tail hv hx hs => ?_, fun s xs s' hv h => ?_, fun s e hv h => ?_⟩
      · obtain ⟨ys, rfl, hlen, hfit⟩ := hx
        cases ys with
        | nil => simp at hlen
        | cons y ys =>
            simp only [List.drop_left, List.flatMap_cons, List.append_assoc] at hs
            obtain ⟨s₁, h₁, hr₁, hv₁⟩ := hp.accepts s y _ hv (hfit y List.mem_cons_self) hs
            have hrest : ∀ z ∈ ys, fits z := fun z hz => hfit z (List.mem_cons_of_mem _ hz)
            obtain ⟨s₂, h₂, hr₂, hv₂⟩ := (ih (acc ++ [y])).accepts s₁ (acc ++ y :: ys) tail hv₁
              ⟨ys, by simp, by simpa using hlen, hrest⟩ (by
                have hd : (acc ++ y :: ys).drop (acc ++ [y]).length = ys := by
                  rw [show acc ++ y :: ys = (acc ++ [y]) ++ ys by simp, List.drop_left]
                rw [hd, hr₁])
            refine ⟨s₂, ?_, hr₂, hv₂⟩
            simp only [Base.times, Bind.bind, StateT.bind, h₁, Except.bind, h₂]
      · simp only [Base.times, Bind.bind, StateT.bind, Except.bind] at h
        cases h₁ : p s with
        | error e => rw [h₁] at h; cases h
        | ok r =>
            obtain ⟨y, s₁⟩ := r
            rw [h₁] at h
            obtain ⟨hy, hr, hv₁⟩ := hp.spells s y s₁ hv h₁
            obtain ⟨⟨ys, rfl, hlen, hfit⟩, hr', hv'⟩ := (ih (acc ++ [y])).spells s₁ xs s' hv₁ h
            rw [List.drop_left] at hr'
            refine ⟨⟨y :: ys, by simp, by simp [hlen], ?_⟩, ?_, hv'⟩
            · intro z hz
              rcases List.mem_cons.mp hz with rfl | hz
              · exact hy
              · exact hfit z hz
            · rw [hr, hr', show acc ++ [y] ++ ys = acc ++ y :: ys by simp, List.drop_left,
                List.flatMap_cons, List.append_assoc]
      · simp only [Base.times, Bind.bind, StateT.bind, Except.bind] at h
        cases h₁ : p s with
        | error e' =>
            rw [h₁] at h
            cases h
            exact hp.refuses s e hv h₁
        | ok r =>
            obtain ⟨y, s₁⟩ := r
            rw [h₁] at h
            obtain ⟨_, _, hv₁⟩ := hp.spells s y s₁ hv h₁
            exact (ih (acc ++ [y])).refuses s₁ e hv₁ h

theorem Reads.times_nil {p : StateT σ (Except ε) α} {fits : α → Prop} {enc : α → List UInt8}
    (hp : Reads I p fits enc) (n : Nat) :
    Reads I (Base.times p n []) (fun xs => xs.length = n ∧ ∀ x ∈ xs, fits x)
      (fun xs => xs.flatMap enc) :=
  (hp.times n []).congr
    (fun xs => ⟨fun ⟨ys, e, h⟩ => by rw [e, List.nil_append]; exact h, fun h => ⟨xs, rfl, h⟩⟩)
    fun _ _ => rfl

end Reads

end Rdmalib.Base
