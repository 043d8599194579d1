/-
  File:      Rdmalib/Base/Stream.lean
  Subject:   Messages in frames over a byte stream that one side writes and the other reads.

  * `Framing` -- how a message is written, and what a reader takes off the front of the stream;
  * `Framing.InFlight` -- what was sent is what was got and what is still in the stream, which may
    end within a frame: a writer whose write failed;
  * a write adds a message (`InFlight.send`) or ends the stream (`InFlight.cut`), a read gets the
    next message (`InFlight.receive`).
-/
import Mathlib.Data.List.Basic

namespace Rdmalib.Base

variable {M B : Type}

/-- A message written to a stream, and the message read from one with its length. -/
structure Framing (M B : Type) where
  encode : M → List B
  decode : List B → Option (M × Nat)

namespace Framing

variable (F : Framing M B)

/-- The message is read back, whatever follows it. -/
def Reads (m : M) : Prop := ∀ s, F.decode (F.encode m ++ s) = some (m, (F.encode m).length)

/-- Of the messages `sent`, `got` were read; the rest is in the stream, before a `tail` from which
    no message is read. -/
def InFlight (sent got : List M) (stream tail : List B) : Prop :=
  ∃ rest, sent = got ++ rest ∧ stream = rest.flatMap F.encode ++ tail ∧
    (∀ m ∈ rest, F.Reads m) ∧ F.decode tail = none

variable {F} {sent got : List M} {stream tail part : List B} {m : M} {n : Nat}

theorem inFlight_nil (h : F.decode [] = none) : F.InFlight [] [] [] [] :=
  ⟨[], rfl, rfl, (fun _ hm => by cases hm), h⟩

theorem InFlight.send (h : F.InFlight sent got stream []) (hm : F.Reads m) :
    F.InFlight (sent ++ [m]) got (stream ++ F.encode m) [] := by
  obtain ⟨rest, hsent, hstream, hreads, hnil⟩ := h
  refine ⟨rest ++ [m], by rw [hsent, List.append_assoc], ?_, fun m' hm' => ?_, hnil⟩
  · rw [hstream, List.flatMap_append, List.flatMap_singleton, List.append_nil, List.append_nil]
  · rcases List.mem_append.mp hm' with hm' | hm'
    · exact hreads m' hm'
    · rwa [List.mem_singleton.mp hm']

theorem InFlight.cut (h : F.InFlight sent got stream []) (hpart : F.decode part = none) :
    F.InFlight sent got (stream ++ part) part := by
  obtain ⟨rest, hsent, hstream, hreads, _⟩ := h
  exact ⟨rest, hsent, by rw [hstream, List.append_nil], hreads, hpart⟩

/-- **Messages are read in the order in which they were sent.** -/
theorem InFlight.receive (h : F.InFlight sent got stream tail) (hm : F.decode stream = some (m, n)) :
    sent[got.length]? = some m ∧ F.InFlight sent (got ++ [m]) (stream.drop n) tail := by
  obtain ⟨rest, hsent, hstream, hreads, htail⟩ := h
  cases rest with
  | nil =>
      have hnone : F.decode stream = none := by rw [hstream]; exact htail
      cases hnone.symm.trans hm
  | cons m' rest =>
      have hstream : stream = F.encode m' ++ (rest.flatMap F.encode ++ tail) := by
        rw [hstream, List.flatMap_cons, List.append_assoc]
      have hread := hreads m' List.mem_cons_self (rest.flatMap F.encode ++ tail)
      rw [← hstream, hm] at hread
      cases hread
      refine ⟨?_, rest, ?_, ?_, fun m' hm' => hreads m' (List.mem_cons_of_mem _ hm'), htail⟩
      · rw [hsent, List.getElem?_append_right (Nat.le_refl _), Nat.sub_self]
        rfl
      · rw [hsent, List.append_assoc]
        rfl
      · rw [hstream, List.drop_left]

/-- A message that was sent and not got is there to be read. -/
theorem InFlight.ready (h : F.InFlight sent got stream tail) (hne : got ≠ sent) :
    ∃ m n, F.decode stream = some (m, n) := by
  obtain ⟨rest, hsent, hstream, hreads, _⟩ := h
  cases rest with
  | nil => exact absurd (by rw [hsent, List.append_nil]) hne
  | cons m rest =>
      refine ⟨m, (F.encode m).length, ?_⟩
      rw [hstream, List.flatMap_cons, List.append_assoc]
      exact hreads m List.mem_cons_self _

theorem InFlight.isPrefix (h : F.InFlight sent got stream tail) : got <+: sent := by
  obtain ⟨rest, hsent, _⟩ := h
  exact ⟨rest, hsent.symm⟩

end Framing

end Rdmalib.Base
