/-
  File:      Rdmalib/Meta/Cursor.lean
  Subject:   What `decode` does to its cursor, and how many records it completes.

  * `DecodeOp` -- a `take` of the cursor, the check for its end, and the `push` of a record that is
    complete; `decodeSteps` -- `decode` over these, step by step;
  * `Erases` -- a program of steps, run on a cursor, computes what the code of the same name does
    (`decodeSteps_erases`);
  * `metering` -- the bytes taken and the records completed, whatever the bytes are;
  * result: no step leaves the payload, and the count field does not decide how many records are
    completed: the bytes do (`decode_within`).
-/
import Rdmalib.Base.Prog
import Rdmalib.Meta.RoundTrip

namespace Rdmalib

open Base

/-! ## 1. The steps -/

inductive DecodeOp where
  | take (len : Nat)
  | push
  | done
  deriving DecidableEq, Repr

@[reducible] def DecodeOp.Ans : DecodeOp → Type
  | .take _ => Except Fault (List UInt8)
  | .push => Unit
  | .done => Except Fault Unit

/-- Code with early returns over the steps. -/
abbrev Decoder := ExceptT Fault (Prog DecodeOp DecodeOp.Ans)

namespace Decoder

def step (o : DecodeOp) : Prog DecodeOp DecodeOp.Ans o.Ans := Prog.perform o

/-- `self.take(len)?`. -/
def take (len : Nat) : Decoder (List UInt8) := ExceptT.mk (step (.take len))

def u16 : Decoder UInt16 := do
  let bytes ← take 2
  let b0 ← indexAt bytes 0
  let b1 ← indexAt bytes 1
  return UInt16.ofNat (leValue [b0, b1])

def u32 : Decoder UInt32 := do
  let bytes ← take 4
  let b0 ← indexAt bytes 0
  let b1 ← indexAt bytes 1
  let b2 ← indexAt bytes 2
  let b3 ← indexAt bytes 3
  return UInt32.ofNat (leValue [b0, b1, b2, b3])

def u64 : Decoder UInt64 := do
  let bytes ← take 8
  if bytes.length ≠ 8 then
    throw .panic
  return UInt64.ofNat (leValue bytes)

def string : Decoder String := do
  let len ← u32
  let bytes ← take len.toNat
  match String.fromUTF8? bytes.toByteArray with
  | some s => return s
  | none => throw (bad "a string is not valid UTF-8")

def done : Decoder Unit := ExceptT.mk (step .done)

/-- The body of the `MSG_METADATA` loop, up to its `push`. -/
def regionDesc : Decoder RegionDesc := do
  let id ← u32
  let name ← string
  let size ← u64
  let elemSize ← u32
  let elemAlign ← u32
  let elemType ← string
  return { id, name, size, elemSize, elemAlign, elemType }

/-- The body of the `MSG_TUPLES` loop, up to its `push`. -/
def tupleDesc : Decoder TupleDesc := do
  let regionId ← u32
  let remoteAddr ← u64
  let size ← u64
  let rkey ← u32
  return { regionId, remoteAddr, size, rkey }

/-- `for _ in 0..count`, with the record pushed at the end of each turn. -/
def records {α : Type} (record : Decoder α) : Nat → List α → Decoder (List α)
  | 0, acc => return acc
  | count + 1, acc => do
      let x ← record
      step .push
      records record count (acc ++ [x])

end Decoder

/-- The `match` of `decode` on the message type. -/
def bodySteps (ty : UInt8) : Decoder Message :=
  if ty = MSG_HELLO then return .hello (← Decoder.u16)
  else if ty = MSG_WELCOME then return .welcome (← Decoder.u16)
  else if ty = MSG_WANT_GROUP then return .wantGroup (← Decoder.u32)
  else if ty = MSG_UPDATE then return .update
  else if ty = MSG_METADATA then do
    let count ← Decoder.u32
    let regions ← Decoder.records Decoder.regionDesc count.toNat []
    return .metadata regions
  else if ty = MSG_TUPLES then do
    let group ← Decoder.u32
    let count ← Decoder.u32
    let tuples ← Decoder.records Decoder.tupleDesc count.toNat []
    return .tuples group tuples
  else throw (bad s!"unknown message type {ty}")

/-- `decode`, step by step. -/
def decodeSteps (ty : UInt8) : Decoder Message := do
  let msg ← bodySteps ty
  Decoder.done
  return msg

/-- The cursor answers the steps. -/
def Reader.answer (r : Reader) : (o : DecodeOp) → o.Ans × Reader
  | .take len =>
      match Reader.take len r with
      | .ok (bytes, r') => (.ok bytes, r')
      | .error e => (.error e, r)
  | .push => ((), r)
  | .done => ((Reader.done r).map (·.1), r)

/-- The steps that `decode` takes on a payload, each with the cursor before and after it. -/
def decodeVisits (ty : UInt8) (payload : List UInt8) :
    List (Reader × (Σ o : DecodeOp, o.Ans) × Reader) :=
  (decodeSteps ty).run.visits Reader.answer ⟨payload, 0⟩

/-- The records that it completes. -/
def completed (ty : UInt8) (payload : List UInt8) : Nat :=
  (decodeVisits ty payload).countP (·.2.1.1 = .push)

/-! ## 2. The steps compute what the code does -/

/-- **Run on a cursor, the program `x` computes what the code `p` does.** -/
structure Erases {α : Type} (x : Decoder α) (p : StateT Reader (Except Fault) α) : Prop where
  ok : ∀ r a r', p r = .ok (a, r') →
    (x.run.drive Reader.answer r).2 = .ok a ∧ x.run.final Reader.answer r = r'
  error : ∀ r e, p r = .error e → (x.run.drive Reader.answer r).2 = .error e

section Erasure

variable {α β : Type}

theorem erases_pure (a : α) : Erases (pure a : Decoder α) (pure a) where
  ok r b r' h := by
    cases h
    exact ⟨rfl, rfl⟩
  error r e h := by cases h

theorem erases_throw (e : Fault) : Erases (throw e : Decoder α) (throw e) where
  ok r a r' h := by cases h
  error r e' h := by
    cases h
    rfl

theorem erases_lift (x : Except Fault α) : Erases (liftM x : Decoder α) (liftM x) where
  ok r a r' h := by
    cases x with
    | error e => cases h
    | ok b =>
        cases h
        exact ⟨rfl, rfl⟩
  error r e h := by
    cases x with
    | error e' =>
        cases h
        rfl
    | ok b => cases h

theorem Erases.bind {x : Decoder α} {p : StateT Reader (Except Fault) α} {f : α → Decoder β}
    {q : α → StateT Reader (Except Fault) β} (h : Erases x p) (hf : ∀ a, Erases (f a) (q a)) :
    Erases (x >>= f) (p >>= q) := by
  have hrun (r : Reader) : ((x >>= f).run.drive Reader.answer r).2 =
        ((ExceptT.bindCont f (x.run.drive Reader.answer r).2).drive Reader.answer
          (x.run.final Reader.answer r)).2 ∧
      (x >>= f).run.final Reader.answer r =
        (ExceptT.bindCont f (x.run.drive Reader.answer r).2).final Reader.answer
          (x.run.final Reader.answer r) :=
    Prog.drive_bind Reader.answer x.run (ExceptT.bindCont f) r
  have hbind (r : Reader) : (p >>= q) r = (p r).bind fun s => q s.1 s.2 := rfl
  refine ⟨fun r b r' hb => ?_, fun r e he => ?_⟩
  · rw [hbind] at hb
    rw [(hrun r).1, (hrun r).2]
    cases hp : p r with
    | error e =>
        rw [hp] at hb
        cases hb
    | ok s =>
        rw [hp] at hb
        obtain ⟨hx, hfinal⟩ := h.ok r s.1 s.2 hp
        rw [hx, hfinal]
        exact (hf s.1).ok s.2 b r' hb
  · rw [hbind] at he
    rw [(hrun r).1]
    cases hp : p r with
    | error e' =>
        rw [hp] at he
        cases he
        rw [h.error r e hp]
        rfl
    | ok s =>
        rw [hp] at he
        obtain ⟨hx, hfinal⟩ := h.ok r s.1 s.2 hp
        rw [hx, hfinal]
        exact (hf s.1).error s.2 e he

theorem Erases.ite {c : Prop} [Decidable c] {x y : Decoder α} {p q : StateT Reader (Except Fault) α}
    (h : Erases x p) (h' : Erases y q) : Erases (if c then x else y) (if c then p else q) := by
  by_cases hc : c
  · rwa [if_pos hc, if_pos hc]
  · rwa [if_neg hc, if_neg hc]

/-- A `push` leaves the cursor where it is. -/
theorem Erases.push {x : Decoder α} {p : StateT Reader (Except Fault) α} (h : Erases x p) :
    Erases (do Decoder.step .push; x) p := ⟨h.ok, h.error⟩

theorem take_erases (len : Nat) : Erases (Decoder.take len) (Reader.take len) := by
  have hanswer (r : Reader) : (((Decoder.take len).run.drive Reader.answer r).2 =
      (Reader.answer r (.take len)).1) ∧ (Decoder.take len).run.final Reader.answer r =
        (Reader.answer r (.take len)).2 := ⟨rfl, rfl⟩
  refine ⟨fun r bytes r' h => ?_, fun r e h => ?_⟩
  · rw [(hanswer r).1, (hanswer r).2]
    simp only [Reader.answer, h]
    exact ⟨trivial, trivial⟩
  · rw [(hanswer r).1]
    simp only [Reader.answer, h]

theorem u16_erases : Erases Decoder.u16 Reader.u16 :=
  (take_erases 2).bind fun _ => (erases_lift _).bind fun _ => (erases_lift _).bind fun _ =>
    erases_pure _

theorem u32_erases : Erases Decoder.u32 Reader.u32 :=
  (take_erases 4).bind fun _ => (erases_lift _).bind fun _ => (erases_lift _).bind fun _ =>
    (erases_lift _).bind fun _ => (erases_lift _).bind fun _ => erases_pure _

theorem u64_erases : Erases Decoder.u64 Reader.u64 :=
  (take_erases 8).bind fun _ =>
    .ite ((erases_throw .panic).bind fun _ => erases_pure _) (erases_pure _)

theorem string_erases : Erases Decoder.string Reader.string := by
  refine u32_erases.bind fun len => (take_erases len.toNat).bind fun bytes => ?_
  cases String.fromUTF8? bytes.toByteArray with
  | none => exact erases_throw _
  | some s => exact erases_pure _

theorem regionDesc_erases : Erases Decoder.regionDesc regionDesc :=
  u32_erases.bind fun _ => string_erases.bind fun _ => u64_erases.bind fun _ =>
    u32_erases.bind fun _ => u32_erases.bind fun _ => string_erases.bind fun _ => erases_pure _

theorem tupleDesc_erases : Erases Decoder.tupleDesc tupleDesc :=
  u32_erases.bind fun _ => u64_erases.bind fun _ => u64_erases.bind fun _ =>
    u32_erases.bind fun _ => erases_pure _

theorem records_erases {record : Decoder α} {p : StateT Reader (Except Fault) α}
    (h : Erases record p) (count : Nat) (acc : List α) :
    Erases (Decoder.records record count acc) (times p count acc) := by
  induction count generalizing acc with
  | zero => exact erases_pure acc
  | succ count ih => exact h.bind fun x => (ih (acc ++ [x])).push

theorem bodySteps_erases (ty : UInt8) : Erases (bodySteps ty) (decodeBody ty) := by
  refine .ite (u16_erases.bind fun _ => erases_pure _) ?_
  refine .ite (u16_erases.bind fun _ => erases_pure _) ?_
  refine .ite (u32_erases.bind fun _ => erases_pure _) ?_
  refine .ite (erases_pure _) ?_
  refine .ite (u32_erases.bind fun count => ?_) (.ite ?_ (erases_throw _))
  · exact (records_erases regionDesc_erases count.toNat []).bind fun _ => erases_pure _
  · refine u32_erases.bind fun group => u32_erases.bind fun count => ?_
    exact (records_erases tupleDesc_erases count.toNat []).bind fun _ => erases_pure _

/-- **`decodeSteps` computes `decode`.** -/
theorem decodeSteps_erases (ty : UInt8) (payload : List UInt8) :
    ((decodeSteps ty).run.drive Reader.answer ⟨payload, 0⟩).2 = decode ty payload := by
  have hdone : Erases Decoder.done Reader.done := by
    refine ⟨fun r u r' h => ?_, fun r e h => ?_⟩
    · show Except.map _ (Reader.done r) = .ok u ∧ r = r'
      unfold Reader.done at h ⊢
      split at h
      · next hpos =>
        cases h
        exact ⟨by rw [if_pos hpos]; rfl, rfl⟩
      · cases h
    · show Except.map _ (Reader.done r) = .error e
      rw [h]
      rfl
  have hall : Erases (decodeSteps ty) (do
      let msg ← decodeBody ty
      Reader.done
      return msg) := (bodySteps_erases ty).bind fun _ => hdone.bind fun _ => erases_pure _
  unfold decode
  have hbind : (do
      let msg ← decodeBody ty
      Reader.done
      return msg : StateT Reader (Except Fault) Message) ⟨payload, 0⟩ =
        (decodeBody ty ⟨payload, 0⟩).bind fun s => (Reader.done s.2).bind fun t => .ok (s.1, t.2) := rfl
  cases hbody : decodeBody ty ⟨payload, 0⟩ with
  | error e =>
      rw [hbody] at hbind
      exact hall.error _ e hbind
  | ok s =>
      rw [hbody] at hbind
      cases hend : Reader.done s.2 with
      | error e =>
          refine (hall.error _ e ?_).trans ?_
          · rw [hbind]
            show (Reader.done s.2).bind _ = _
            rw [hend]
            rfl
          · show _ = (Reader.done s.2).bind _
            rw [hend]
            rfl
      | ok t =>
          refine (hall.ok _ s.1 t.2 ?_).1.trans ?_
          · rw [hbind]
            show (Reader.done s.2).bind _ = _
            rw [hend]
            rfl
          · show _ = (Reader.done s.2).bind _
            rw [hend]
            rfl

end Erasure

/-! ## 3. Bytes taken and records completed -/

/-- What has been taken and completed so far. -/
structure Meter where
  taken : Nat
  records : Nat

/-- Every step is metered, whatever the payload has in it. -/
def metering : Protocol DecodeOp DecodeOp.Ans Meter where
  may _ _ := True
  next k o a :=
    match o, a with
    | .take len, .ok _ => { k with taken := k.taken + len }
    | .push, _ => { k with records := k.records + 1 }
    | _, _ => k

/-- Nothing is completed, and at least `n` bytes are taken. -/
structure Takes (n : Nat) (k k' : Meter) : Prop where
  records : k'.records = k.records
  taken : k.taken + n ≤ k'.taken

/-- **A piece of a record that is at least `n` bytes long.** -/
def Weighs {α : Type} (n : Nat) (x : Decoder α) : Prop :=
  ∀ k, Tries metering k x (fun k' _ => Takes n k k') fun k' _ => Takes 0 k k'

section Weights

variable {α β : Type} {n m : Nat}

theorem Takes.trans {k k₁ k₂ : Meter} (h : Takes n k k₁) (h' : Takes m k₁ k₂) :
    Takes (n + m) k k₂ :=
  ⟨h'.records.trans h.records, by
    have := h.taken
    have := h'.taken
    omega⟩

theorem Takes.mono {k k' : Meter} (h : Takes n k k') (hle : m ≤ n) : Takes m k k' :=
  ⟨h.records, (Nat.add_le_add_left hle _).trans h.taken⟩

theorem takes_refl (k : Meter) : Takes 0 k k := ⟨rfl, Nat.le_refl _⟩

theorem weighs_pure (a : α) : Weighs 0 (pure a) := takes_refl

theorem weighs_throw (e : Fault) : Weighs n (throw e : Decoder α) := takes_refl

theorem weighs_lift (x : Except Fault α) : Weighs 0 (liftM x : Decoder α) := by
  intro k
  rw [tries_except]
  cases x <;> exact takes_refl k

theorem Weighs.bind {x : Decoder α} {f : α → Decoder β} (h : Weighs n x)
    (hf : ∀ a, Weighs m (f a)) : Weighs (n + m) (x >>= f) := by
  intro k
  rw [tries_bind]
  refine (h k).mono (fun k₁ a h₁ => ?_) fun _ _ h₁ => h₁
  exact (hf a k₁).mono (fun _ _ h₂ => h₁.trans h₂) fun _ _ h₂ => (h₁.trans h₂).mono (Nat.zero_le _)

theorem Weighs.ite {c : Prop} [Decidable c] {x y : Decoder α} (h : Weighs n x) (h' : Weighs n y) :
    Weighs n (if c then x else y) := by
  by_cases hc : c
  · rwa [if_pos hc]
  · rwa [if_neg hc]

theorem take_weighs (len : Nat) : Weighs len (Decoder.take len) := by
  refine fun k => ⟨trivial, fun a => ?_⟩
  cases a with
  | ok bytes => exact ⟨rfl, Nat.le_refl _⟩
  | error e => exact takes_refl k

theorem u32_weighs : Weighs 4 Decoder.u32 :=
  (take_weighs 4).bind fun _ => (weighs_lift _).bind fun _ => (weighs_lift _).bind fun _ =>
    (weighs_lift _).bind fun _ => (weighs_lift _).bind fun _ => weighs_pure _

theorem u64_weighs : Weighs 8 Decoder.u64 :=
  (take_weighs 8).bind fun _ =>
    .ite ((weighs_throw (n := 0) .panic).bind fun _ => weighs_pure _) (weighs_pure _)

/-- A string has its length field at least. -/
theorem string_weighs : Weighs 4 Decoder.string := by
  refine u32_weighs.bind (m := 0) fun len => ?_
  have hrest (bytes : List UInt8) : Weighs 0 (match String.fromUTF8? bytes.toByteArray with
      | some s => (pure s : Decoder String)
      | none => throw (bad "a string is not valid UTF-8")) := by
    cases String.fromUTF8? bytes.toByteArray with
    | none => exact weighs_throw _
    | some s => exact weighs_pure s
  exact fun k => ((take_weighs len.toNat).bind hrest k).mono
    (fun _ _ h => h.mono (Nat.zero_le _)) fun _ _ h => h

theorem regionDesc_weighs : Weighs 28 Decoder.regionDesc :=
  u32_weighs.bind fun _ => string_weighs.bind fun _ => u64_weighs.bind fun _ =>
    u32_weighs.bind fun _ => u32_weighs.bind fun _ => string_weighs.bind fun _ => weighs_pure _

theorem tupleDesc_weighs : Weighs 24 Decoder.tupleDesc :=
  u32_weighs.bind fun _ => u64_weighs.bind fun _ => u64_weighs.bind fun _ =>
    u32_weighs.bind fun _ => weighs_pure _

/-- Every record that was completed has taken its `w` bytes. -/
def PaidFor (w : Nat) (k k' : Meter) : Prop := k.taken + w * k'.records ≤ k'.taken + w * k.records

/-- **The loop**, whatever its count. -/
theorem records_paid {w : Nat} {record : Decoder α} (h : Weighs w record) (count : Nat)
    (acc : List α) (k : Meter) :
    Tries metering k (Decoder.records record count acc) (fun k' _ => PaidFor w k k')
      fun k' _ => PaidFor w k k' := by
  induction count generalizing acc k with
  | zero => exact Nat.le_refl _
  | succ count ih =>
      unfold Decoder.records
      rw [tries_bind]
      refine (h k).mono (fun k₁ x h₁ => ?_) fun k₁ _ h₁ => ?_
      · rw [tries_bind]
        refine ⟨trivial, fun _ => ?_⟩
        -- the record is complete: the bytes it has taken pay for it
        have hone (k₂ : Meter) (h₂ : PaidFor w ⟨k₁.taken, k₁.records + 1⟩ k₂) : PaidFor w k k₂ := by
          have h₂ : k₁.taken + w * k₂.records ≤ k₂.taken + w * (k₁.records + 1) := h₂
          have := h₁.taken
          rw [h₁.records, Nat.mul_add, Nat.mul_one] at h₂
          unfold PaidFor
          omega
        exact (ih (acc ++ [x]) ⟨k₁.taken, k₁.records + 1⟩).mono (fun k₂ _ => hone k₂)
          fun k₂ _ => hone k₂
      · unfold PaidFor
        rw [h₁.records]
        exact Nat.add_le_add_right h₁.taken _

/-- What a message with `head` bytes before its records has taken when `decode` ends. -/
def Metered (head w : Nat) (k : Meter) : Prop := k.records = 0 ∨ head + w * k.records ≤ k.taken

/-- The records behind fields of `head` bytes. -/
theorem metered_after {head w : Nat} {k : Meter} {x : Decoder α} (hk : Takes head ⟨0, 0⟩ k)
    (hx : Tries metering k x (fun k' _ => PaidFor w k k') fun k' _ => PaidFor w k k') :
    Tries metering k x (fun k' _ => Metered head w k') fun k' _ => Metered head w k' := by
  have hall (k' : Meter) (h : PaidFor w k k') : Metered head w k' := by
    unfold PaidFor at h
    rw [hk.records] at h
    exact Or.inr ((Nat.add_le_add_right ((Nat.zero_add head).symm.le.trans hk.taken) _).trans h)
  exact hx.mono (fun k' _ => hall k') fun k' _ => hall k'

/-- The end of `decode` completes nothing. -/
theorem done_metered {head w : Nat} {x : Decoder α}
    (hx : Tries metering ⟨0, 0⟩ x (fun k' _ => Metered head w k') fun k' _ => Metered head w k') :
    Tries metering ⟨0, 0⟩ (do let msg ← x; Decoder.done; return msg)
      (fun k' _ => Metered head w k') fun k' _ => Metered head w k' := by
  rw [tries_bind]
  refine hx.mono (fun k msg hk => ⟨trivial, fun a => ?_⟩) fun _ _ hk => hk
  cases a with
  | ok u => exact hk
  | error e => exact hk

theorem metadata_metered : Tries metering ⟨0, 0⟩ (decodeSteps MSG_METADATA)
    (fun k' _ => Metered 4 28 k') fun k' _ => Metered 4 28 k' := by
  refine done_metered ?_
  show Tries metering ⟨0, 0⟩ (Decoder.u32 >>= fun count =>
    Decoder.records Decoder.regionDesc count.toNat [] >>= fun regions =>
      pure (Message.metadata regions)) _ _
  rw [tries_bind]
  refine (u32_weighs ⟨0, 0⟩).mono (fun k₁ count h₁ => ?_) fun k₁ _ h₁ => Or.inl h₁.records
  refine metered_after h₁ ?_
  rw [tries_bind]
  exact (records_paid regionDesc_weighs count.toNat [] k₁).mono (fun _ _ h => h) fun _ _ h => h

theorem tuples_metered : Tries metering ⟨0, 0⟩ (decodeSteps MSG_TUPLES)
    (fun k' _ => Metered 8 24 k') fun k' _ => Metered 8 24 k' := by
  refine done_metered ?_
  show Tries metering ⟨0, 0⟩ (Decoder.u32 >>= fun group => Decoder.u32 >>= fun count =>
    Decoder.records Decoder.tupleDesc count.toNat [] >>= fun tuples =>
      pure (Message.tuples group tuples)) _ _
  rw [tries_bind]
  refine (u32_weighs ⟨0, 0⟩).mono (fun k₁ group h₁ => ?_) fun k₁ _ h₁ => Or.inl h₁.records
  rw [tries_bind]
  refine (u32_weighs k₁).mono (fun k₂ count h₂ => ?_) fun k₂ _ h₂ =>
    Or.inl (h₂.records.trans h₁.records)
  refine metered_after (h₁.trans h₂) ?_
  rw [tries_bind]
  exact (records_paid tupleDesc_weighs count.toNat [] k₂).mono (fun _ _ h => h) fun _ _ h => h

end Weights

/-! ## 4. `decode` stays within the payload -/

/-- The cursor is in the payload. -/
structure Reader.Within (payload : List UInt8) (r : Reader) : Prop where
  buf : r.buf = payload
  pos : r.pos ≤ payload.length

section Within

variable {payload : List UInt8} {r : Reader} {ty : UInt8}

/-- **One `take`**: the next `len` bytes, or a refusal. -/
theorem take_within (hlen : payload.length < wordSize) (h : r.Within payload) (len : Nat) :
    Reader.answer r (.take len) =
      if len ≤ payload.length - r.pos then
        (.ok ((payload.drop r.pos).take len), { r with pos := r.pos + len })
      else (.error (bad "the payload ends mid-message"), r) := by
  have hv : readerInput.valid r := ⟨h.buf ▸ h.pos, h.buf ▸ hlen⟩
  have hrest : readerInput.rest r = payload.drop r.pos := by rw [← h.buf]; rfl
  simp only [Reader.answer]
  rw [take_run hv, hrest, List.length_drop]
  by_cases hfit : len ≤ payload.length - r.pos
  · rw [if_pos hfit, if_pos hfit]
  · rw [if_neg hfit, if_neg hfit]

theorem answer_within (hlen : payload.length < wordSize) (r : Reader) (o : DecodeOp)
    (h : r.Within payload) : (Reader.answer r o).2.Within payload := by
  cases o with
  | push | done => exact h
  | take len =>
      rw [take_within hlen h]
      split
      · next hfit =>
        refine ⟨h.buf, ?_⟩
        show r.pos + len ≤ payload.length
        have := h.pos
        omega
      · exact h

/-- The meter reads what the cursor has passed. -/
theorem answer_metered (hlen : payload.length < wordSize) (r : Reader) (k : Meter) (o : DecodeOp)
    (h : r.Within payload ∧ r.pos = k.taken) : (Reader.answer r o).2.Within payload ∧
      (Reader.answer r o).2.pos = (metering.next k o (Reader.answer r o).1).taken := by
  refine ⟨answer_within hlen r o h.1, ?_⟩
  cases o with
  | push | done => exact h.2
  | take len =>
      rw [take_within hlen h.1]
      split
      · exact congrArg (· + len) h.2
      · exact h.2

/-- The meter counts the records. -/
theorem metering_records (k : Meter) (tr : Trace DecodeOp DecodeOp.Ans) :
    (metering.after k tr).records = k.records + tr.countP (·.1 = .push) := by
  induction tr generalizing k with
  | nil => rfl
  | cons step tr ih =>
      show (metering.after (metering.next k step.1 step.2) tr).records = _
      rw [ih, List.countP_cons]
      obtain ⟨o, a⟩ := step
      cases o with
      | push =>
          show k.records + 1 + _ = k.records + (_ + 1)
          omega
      | take len => cases a <;> rfl
      | done => rfl

/-- The bytes of the payload pay for the records. -/
theorem completed_le (hlen : payload.length < wordSize) {head w : Nat} (hw : 0 < w)
    (h : Tries metering ⟨0, 0⟩ (decodeSteps ty) (fun k' _ => Metered head w k')
      fun k' _ => Metered head w k') : completed ty payload ≤ (payload.length - head) / w := by
  let x := (decodeSteps ty).run
  have hruns : Metered head w (metering.after ⟨0, 0⟩ (x.drive Reader.answer ⟨payload, 0⟩).1) := by
    have := Follows.runs h (Prog.drive_runs Reader.answer x ⟨payload, 0⟩)
    rcases hres : (x.drive Reader.answer ⟨payload, 0⟩).2 with e | msg
    · rwa [hres] at this
    · rwa [hres] at this
  have hend := Prog.drive_after (P := metering) (k := (⟨0, 0⟩ : Meter))
    (R := fun (r : Reader) (k : Meter) => r.Within payload ∧ r.pos = k.taken) (answer_metered hlen) x
    (s := (⟨payload, 0⟩ : Reader)) ⟨⟨rfl, Nat.zero_le _⟩, rfl⟩
  have hcount : (metering.after ⟨0, 0⟩ (x.drive Reader.answer ⟨payload, 0⟩).1).records =
      completed ty payload := by
    rw [metering_records, Nat.zero_add, ← Prog.visits_trace, List.countP_map]
    rfl
  have htaken := hend.2 ▸ hend.1.pos
  rcases hruns with hnone | hpaid
  · rw [← hcount, hnone]
    exact Nat.zero_le _
  · rw [← hcount, Nat.le_div_iff_mul_le hw, Nat.mul_comm]
    omega

end Within

/-- **`decode` stays within the payload**: it does not panic, so no slice, index, subtraction or
    addition goes out of range; every `take` begins inside the payload, and one that succeeds takes
    its bytes and advances by exactly their number; and the loops complete no more records than the
    payload has bytes for. -/
structure DecodeWithin (ty : UInt8) (payload : List UInt8) : Prop where
  decodes : ((decodeSteps ty).run.drive Reader.answer ⟨payload, 0⟩).2 = decode ty payload
  exact : decode ty payload ≠ .error .panic
  inside : ∀ before len result after, (before, ⟨.take len, result⟩, after) ∈ decodeVisits ty payload →
    before.buf = payload ∧ before.pos ≤ before.buf.length ∧ result ≠ .error .panic
  advances : ∀ before len bytes after,
    (before, ⟨.take len, .ok bytes⟩, after) ∈ decodeVisits ty payload →
      bytes = (payload.drop before.pos).take len ∧ bytes.length = len ∧
        after = { before with pos := before.pos + len }
  metadata : ty = MSG_METADATA → completed ty payload ≤ (payload.length - 4) / 28
  tuples : ty = MSG_TUPLES → completed ty payload ≤ (payload.length - 8) / 24

/-- **Every type byte and every payload** (its length is a `usize`). -/
theorem decode_within (ty : UInt8) (payload : List UInt8) (hlen : payload.length < wordSize) :
    DecodeWithin ty payload := by
  have hvisit (v) (hv : v ∈ decodeVisits ty payload) : ∃ r o, r.Within payload ∧
      v = (r, ⟨o, (Reader.answer r o).1⟩, (Reader.answer r o).2) :=
    Prog.visits_forall (answer_within hlen) _ ⟨rfl, Nat.zero_le _⟩ v hv
  refine ⟨decodeSteps_erases ty payload, fun hpanic => ?_, fun before len result after hv => ?_,
    fun before len bytes after hv => ?_, fun hty => ?_, fun hty => ?_⟩
  · obtain ⟨text, hbad⟩ := decode_refuses hlen hpanic
    cases hbad
  · obtain ⟨r, o, hr, hv⟩ := hvisit _ hv
    obtain ⟨rfl, hpair⟩ := Prod.mk.inj hv
    obtain ⟨hop, rfl⟩ := Prod.mk.inj hpair
    cases hop
    refine ⟨hr.buf, hr.buf ▸ hr.pos, fun hpanic => ?_⟩
    rw [take_within hlen hr] at hpanic
    split at hpanic <;> cases hpanic
  · obtain ⟨r, o, hr, hv⟩ := hvisit _ hv
    obtain ⟨rfl, hpair⟩ := Prod.mk.inj hv
    obtain ⟨hop, rfl⟩ := Prod.mk.inj hpair
    obtain ⟨rfl, hanswer⟩ := Sigma.mk.inj hop
    have hbytes := eq_of_heq hanswer
    rw [take_within hlen hr] at hbytes ⊢
    split at hbytes
    · next hfit =>
      obtain rfl := Except.ok.inj hbytes
      rw [if_pos hfit]
      refine ⟨rfl, ?_, rfl⟩
      rw [List.length_take, List.length_drop]
      exact Nat.min_eq_left hfit
    · cases hbytes
  · subst hty
    exact completed_le hlen (by decide) metadata_metered
  · subst hty
    exact completed_le hlen (by decide) tuples_metered

/-- A catalog that claims more records than there are bytes for. -/
theorem decode_within_bogus :
    DecodeWithin MSG_METADATA [255, 255, 255, 255, 0, 0, 0, 0, 3] ∧
      completed MSG_METADATA [255, 255, 255, 255, 0, 0, 0, 0, 3] = 0 :=
  ⟨decode_within _ _ (by decide), by decide +kernel⟩

end Rdmalib
