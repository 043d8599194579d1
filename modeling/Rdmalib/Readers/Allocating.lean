/-
  File:      Rdmalib/Readers/Allocating.lean
  Subject:   `read` and `read_typed`, which allocate their buffer, beside the reads in place that
             they make of it.

  * `Request.onto` -- that read in place; `allocating_outcome` -- an allocating read is it, on a
    fresh buffer, unless there is none of that size;
  * `Request.Outside` -- the range exceeds the region, or the element layout is another one;
  * result: such a read is refused as an invalid input iff its buffer is to be had from the
    allocator and the checks behind the allocation see what is wrong (`allocating_agrees_iff`).
-/
import Rdmalib.Readers.Bounds

namespace Rdmalib

open Base

/-! ## 1. The read in place -/

namespace Request

/-- The reads that allocate their buffer. -/
def Allocating : Request → Prop
  | .read .. | @readTyped _ _ _ _ => True
  | _ => False

/-- The read in place that an allocating read makes, of the buffer at `ptr`. -/
def onto (ptr : UInt64) : (q : Request) → q.byteLen ≤ isizeMax → Request
  | .read offset size, h => .readInto offset size ⟨ptr, size, (Nat.mul_one _).trans_le h⟩
  | @readTyped T _ offset count, h => .readIntoTyped T offset ⟨ptr, count, h⟩
  | q, _ => q

/-- The layout of the element type is not the one the region is shared as. -/
def LayoutDiffers (q : Request) (r : RemoteMemoryRegion) : Prop :=
  match q with
  | @readTyped T _ _ _ | @readIntoTyped T _ _ _ | @writeTyped T _ _ _ =>
      byteSize T ≠ r.elemSize.toNat ∨ byteAlign T ≠ r.elemAlign.toNat
  | _ => False

/-- The exact range of the request exceeds the region, or its layout is another one. -/
def Outside (q : Request) (r : RemoteMemoryRegion) : Prop := q.LayoutDiffers r ∨ ¬ q.FitsIn r

/-- **Where the range or the layout is not the region's, the request is an invalid input**, over any
    connection, device and host with such an allocator. -/
def Agrees (q : Request) (r : RemoteMemoryRegion) (grants : Nat → Bool) : Prop :=
  q.Outside r → ∀ slot (dev : Device) h, dev.grants = grants →
    ∃ text, (q.outcome r slot dev h).1 = .error (invalid text)

/-- The checks see what is wrong: the layouts differ in their 32 bits, the range exceeds a region of
    fewer than 2 ^ 64 - 1 bytes, or the address is one and is misaligned. -/
def Refused (q : Request) (r : RemoteMemoryRegion) : Prop :=
  ¬ q.Suits r ∨ ¬ q.InBounds r ∨
    (q.Typed ∧ r.remoteAddr.toNat + q.start < wordSize ∧ ¬ q.align ∣ r.remoteAddr.toNat + q.start)

end Request

section Onto

variable {q : Request} {r : RemoteMemoryRegion} {slot : GroupConnection} {dev : Device} {h : Host}
variable {ptr : UInt64} {hfit : q.byteLen ≤ isizeMax}

theorem onto_inPlace (hq : q.Allocating) : (q.onto ptr hfit).InPlace := by
  cases q with
  | read | readTyped => trivial
  | readInto | readIntoTyped | write | writeTyped => cases hq

/-- The checks see of an allocating read what they see of its read in place. -/
theorem onto_refused (hq : q.Allocating) : (q.onto ptr hfit).Refused r ↔ q.Refused r := by
  cases q with
  | read offset size =>
      have hsuits : ((Request.read offset size).onto ptr hfit).Suits r ↔
          (Request.read offset size).Suits r := iff_of_true (UInt64.le_refl size) trivial
      exact or_congr (not_congr hsuits) Iff.rfl
  | readTyped => exact Iff.rfl
  | readInto | readIntoTyped | write | writeTyped => cases hq

/-- **An allocating read is a read in place**, of a fresh buffer if there is one of that size. -/
theorem allocating_outcome (hq : q.Allocating) :
    q.outcome r slot dev h =
      if given : Obtainable dev.grants q.byteLen then
        (q.onto dev.alloc given.1).outcome r slot dev (h.zeroed dev.alloc.toNat q.byteLen)
      else (.error .panic, h) := by
  -- what was read is handed out; the result and the state are those of the read
  have hdrop {α : Type} {x : Call Unit} {f : Host → α} (h₁ : Host) :
      (((do x; return f (← get) : Call α).outcome dev h₁).1.map fun _ => (),
          ((do x; return f (← get) : Call α).outcome dev h₁).2) =
        ((x.outcome dev h₁).1.map fun _ => (), (x.outcome dev h₁).2) := by
    rw [outcome_bind]
    rcases x.outcome dev h₁ with ⟨e | u, h₂⟩
    · rfl
    · rfl
  cases q with
  | read offset size =>
      show (((r.read slot offset size).outcome dev h).1.map fun _ => (),
        ((r.read slot offset size).outcome dev h).2) = _
      unfold RemoteMemoryRegion.read
      rw [outcome_bind, zeroedVec_outcome]
      have hone : (Request.read offset size).byteLen = size.toNat * byteSize UInt8 :=
        (Nat.mul_one _).symm
      by_cases given : Obtainable dev.grants (size.toNat * byteSize UInt8)
      · have given' : Obtainable dev.grants (Request.read offset size).byteLen := by rwa [hone]
        rw [dif_pos given, dif_pos given']
        dsimp only
        rw [hdrop, congrArg (h.zeroed dev.alloc.toNat) hone.symm]
        rfl
      · have given' : ¬ Obtainable dev.grants (Request.read offset size).byteLen := by rwa [hone]
        rw [dif_neg given, dif_neg given']
        rfl
  | readTyped T offset count =>
      show (((r.readTyped slot T offset count).outcome dev h).1.map fun _ => (),
        ((r.readTyped slot T offset count).outcome dev h).2) = _
      unfold RemoteMemoryRegion.readTyped
      rw [outcome_bind, zeroedVec_outcome]
      by_cases given : Obtainable dev.grants (count.toNat * byteSize T)
      · have given' : Obtainable dev.grants (Request.readTyped T offset count).byteLen := given
        rw [dif_pos given, dif_pos given']
        dsimp only
        rw [hdrop]
        rfl
      · have given' : ¬ Obtainable dev.grants (Request.readTyped T offset count).byteLen := given
        rw [dif_neg given, dif_neg given']
        rfl
  | readInto | readIntoTyped | write | writeTyped => cases hq

end Onto

/-! ## 2. What the checks refuse -/

section Refusals

variable {q : Request} {r : RemoteMemoryRegion}

/-- A refusal is a matter of the numbers alone. -/
theorem refused_iff (hq : q.InPlace) : q.Refused r ↔ ∃ text, q.plan r = .error (invalid text) := by
  have hp := plan_planned (r := r) hq
  constructor
  · intro href
    cases hplan : q.plan r with
    | error e =>
        rw [hplan] at hp
        cases hp with
        | unsuited text | outside text | misaligned text => exact ⟨text, rfl⟩
        | overflow hs hb _ ha =>
            rcases href with h | h | h
            · exact absurd hs h
            · exact absurd hb h
            · exact absurd h.2.1 (Nat.not_lt.mpr ha)
    | ok p =>
        rw [hplan] at hp
        cases hp with
        | passed _ hs hb _ hd =>
            rcases href with h | h | h
            · exact absurd hs h
            · exact absurd hb h
            · exact absurd hd h.2.2
  · intro ⟨text, hplan⟩
    rw [hplan] at hp
    cases hp with
    | unsuited _ hs => exact Or.inl hs
    | outside _ _ hb => exact Or.inr (Or.inl hb)
    | misaligned _ _ _ ht ha hd => exact Or.inr (Or.inr ⟨ht, ha, hd⟩)

/-- What is refused is an invalid input, over every connection. -/
theorem invalid_of_refused (hq : q.InPlace) (h : q.Refused r) (slot : GroupConnection) (dev : Device)
    (host : Host) : ∃ text, (q.outcome r slot dev host).1 = .error (invalid text) := by
  obtain ⟨text, hplan⟩ := (refused_iff hq).mp h
  exact ⟨text, by rw [run_plan hq, hplan]⟩

/-- What is not refused goes on to the connection, and without one the error is another. -/
theorem refused_of_invalid (hq : q.InPlace) {dev : Device} {host : Host} {text : String}
    (h : (q.outcome r .empty dev host).1 = .error (invalid text)) : q.Refused r := by
  rw [refused_iff hq]
  rw [run_plan hq] at h
  cases hplan : q.plan r with
  | error e =>
      rw [hplan] at h
      exact ⟨text, by rw [Except.error.inj h]⟩
  | ok p =>
      rw [hplan] at h
      obtain ⟨e, he, ho⟩ : ∃ e : Fault, e.IsIo ∧
          (p.transfer r .empty).outcome dev host = (.error e, host) := transfer_closed r dev host p rfl
      dsimp only at h
      rw [ho] at h
      exact absurd (Except.error.inj h) (he.ne_invalid text)

end Refusals

/-! ## 3. Agreement -/

/-- **When the allocating reads agree with the reads in place**, for every region, offset, size and
    allocator: where the range or the layout is not the region's, iff a buffer of that size is to be
    had and the checks behind the allocation see what is wrong. -/
theorem allocating_agrees_iff {q : Request} (hq : q.Allocating) (r : RemoteMemoryRegion)
    (grants : Nat → Bool) :
    q.Agrees r grants ↔ (q.Outside r → Obtainable grants q.byteLen ∧ q.Refused r) := by
  refine forall_congr' fun _ => ⟨fun hagrees => ?_, fun ⟨given, href⟩ slot dev h halloc => ?_⟩
  · obtain ⟨text, hinvalid⟩ := hagrees .empty { obedient with grants } (hostOf 0 0) rfl
    rw [allocating_outcome hq] at hinvalid
    by_cases given : Obtainable grants q.byteLen
    · rw [dif_pos given] at hinvalid
      exact ⟨given, (onto_refused hq).mp (refused_of_invalid (onto_inPlace hq) hinvalid)⟩
    · rw [dif_neg given] at hinvalid
      cases hinvalid
  · subst halloc
    rw [allocating_outcome hq, dif_pos given]
    exact invalid_of_refused (onto_inPlace hq) ((onto_refused hq).mpr href) slot dev _

/-- A region of 64 bytes. -/
def smallRegion : RemoteMemoryRegion :=
  { remoteAddr := 4096, size := 64, rkey := 7, group := 0, elemSize := 1, elemAlign := 1,
    elemType := "u8" }

/-- An allocator with 1 TiB to give. -/
def oneTiB (n : Nat) : Bool := n ≤ 2 ^ 40

/-- One byte more than the region has, and elements of another layout. -/
theorem allocating_agrees_small :
    (Request.read 0 65).Agrees smallRegion oneTiB ∧
      (Request.readTyped UInt8 0 2).Agrees { smallRegion with elemSize := 4 } oneTiB :=
  ⟨(allocating_agrees_iff (by trivial) _ _).mpr fun _ =>
      ⟨by decide, Or.inr (Or.inl fun h => h.elim (by decide) (by decide))⟩,
    (allocating_agrees_iff (by trivial) _ _).mpr fun _ =>
      ⟨by decide, Or.inl fun h => absurd h.1 (by decide)⟩⟩

/-- **A size that no buffer has**, and the largest one, which the allocator refuses: far outside the
    region, the allocating reads do not return. -/
theorem allocating_read_panics :
    (¬ (Request.read 0 9223372036854775808).Agrees smallRegion oneTiB ∧
      ¬ (Request.readTyped UInt8 0 9223372036854775808).Agrees smallRegion oneTiB) ∧
    ¬ (Request.read 0 9223372036854775807).Agrees smallRegion oneTiB ∧
      ¬ (Request.readTyped UInt8 0 9223372036854775807).Agrees smallRegion oneTiB := by
  have hlarge (q : Request) (hq : q.Allocating) (hout : q.Outside smallRegion)
      (hsize : ¬ Obtainable oneTiB q.byteLen) : ¬ q.Agrees smallRegion oneTiB := by
    intro hagrees
    obtain ⟨text, h⟩ := hagrees hout .empty { obedient with grants := oneTiB } (hostOf 0 0) rfl
    rw [allocating_outcome hq, dif_neg hsize] at h
    cases h
  exact ⟨⟨hlarge _ trivial (Or.inr (by decide)) (by decide),
      hlarge _ trivial (Or.inr (by decide)) (by decide)⟩,
    hlarge _ trivial (Or.inr (by decide)) (by decide),
    hlarge _ trivial (Or.inr (by decide)) (by decide)⟩

end Rdmalib
