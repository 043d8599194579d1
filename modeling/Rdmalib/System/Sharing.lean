/-
  File:      Rdmalib/System/Sharing.lean
  Subject:   From `register_typed` on one machine to `read_typed` on another.

  * `tidy` -- the system whose messages fit a frame and whose insertions find their key vacant;
  * `World.LaysOut` -- the owners' buffers as arrays in the memory of the provider's machine;
  * results: what a reader obtained after an update is, until the provider drops its registrations,
    the owner's buffer under the key of a live registration (`obtained_live`); and through it the
    reader reads what was last stored there (`owner_to_reader`).
-/
import Rdmalib.System.Sequence
import Rdmalib.System.SharedMemory
import Rdmalib.System.Tuples

namespace Rdmalib

open Base

/-! ## 1. Keys that are good -/

/-- The system of which every message fits a frame and every insertion finds its key vacant. -/
def tidy : System Tid Op World Loop Op.Ans := fitting.restrict InsertsVacant

section Tidy

variable {c : Config Tid Op World Loop Op.Ans} {κ : Tid → Both}

theorem tidy_watched (h : tidy.Reach start c) :
    ∃ κ, Talked c.world c.prog κ ∧ Stays c.world fun t => (κ t).1 := by
  obtain ⟨κ, hw⟩ := System.Reach.watched (S := tidy) (protocol.prod talks) firstBoth h
  refine ⟨κ, hw.unrestrict, ?_⟩
  refine hw.fst.invariant (provider_follows.restrict _ |>.restrict _) entry_first stays_start
    fun hw h _ _ _ hm hc => ?_
  exact h.step (lives_watched hw.unrestrict.unrestrict) hm hc.1.1 hc.2

/-- What an update has obtained of a region is a registration that is in `tuples` until it is
    cleared. -/
theorem Refreshes.live {cat : HashMap UInt32 RegionInfo} {g id : UInt32} {b e : Instant}
    {st : RemoteMemoryProvider} {info : RegionInfo} {region : RemoteMemoryRegion}
    (hw : Talked c.world c.prog κ) (hstays : Stays c.world fun t => (κ t).1)
    (hkept : c.world.shared.cleared = false) (h : Refreshes c g b e cat st)
    (hinfo : cat.lookup id = some info) (hknown : c.world.Known id info)
    (hregion : st.getRemoteMr (RemoteMemoryProvider.metadataOf (info.desc id)) (some g) = some region) :
    ∃ mr, ⟨mr, (id, g)⟩ ∈ c.world.hca.regs ∧
      mr.tuple = (region.remoteAddr, region.size, region.rkey) := by
  have ho := owned_watched (Talked.watched hw)
  have hed := editions_watched (Talked.watched hw)
  obtain ⟨result, hanswered, hobtained⟩ := h.regions id info hinfo
  unfold Obtained at hobtained
  split at hobtained
  · next addr size rkey =>
    obtain ⟨r, earlier, hr, hnote, _⟩ := hanswered.noted
    have hreturned : (addr, size, rkey) ∈ c.world.returned id g := by
      refine List.mem_filterMap.mpr ⟨r, hr.subset List.mem_cons_self, ?_⟩
      simp [hnote, Note.tuple]
    obtain ⟨mr, hmr, htuple⟩ := hstays.returned hkept id g _ hreturned
    have hlive := ho.registered.stored hmr
    -- the registration is of the range of the region's entry, of which there is one
    obtain ⟨info', hknown', haddr, hsize⟩ := hed.made _ (ho.served.live _ hlive)
    obtain rfl : info' = info := hed.agree hknown' hknown
    rw [hobtained.region] at hregion
    obtain rfl := Option.some.inj hregion
    refine ⟨mr, hlive, ?_⟩
    have hrkey : mr.rkey = rkey := congrArg (fun t : Tuple => t.2.2) htuple
    rw [← haddr, ← hsize, ← hrkey]
    rfl
  · rw [hobtained] at hregion
    cases hregion

end Tidy

/-- **What a reader has obtained is the owner's buffer under a live key**: in every state of every
    run before the registrations are dropped, whatever reader made the update, whenever it did. -/
theorem obtained_live {c : Config Tid Op World Loop Op.Ans} (h : tidy.Reach start c)
    (hkept : c.world.shared.cleared = false) {u : Update} (hu : u ∈ c.world.updates)
    {m : RemoteMemoryRegionMetadata} (hm : m ∈ u.left.metadata) {region : RemoteMemoryRegion}
    (hregion : u.left.getRemoteMr m (some u.group) = some region) :
    ∃ mr b, ⟨mr, (m.id, u.group)⟩ ∈ c.world.hca.regs ∧
      mr.tuple = (region.remoteAddr, region.size, region.rkey) ∧
      c.world.app.owners.lookup m.id = some b ∧ region.remoteAddr = b.ptr ∧ region.size = b.size := by
  obtain ⟨κ, hw, hstays⟩ := tidy_watched h
  obtain ⟨n, cat, hcat, _, _, hrefreshes⟩ := refreshed_at (System.Reach.unrestrict h) hw hu
  obtain ⟨id, info, hinfo, rfl⟩ := hrefreshes.mem_metadata.mp hm
  obtain ⟨mr, hlive, htuple⟩ := hrefreshes.live hw hstays hkept hinfo
    ⟨cat, List.mem_of_getElem? hcat, hinfo⟩ hregion
  obtain ⟨b, hb, haddr, hsize⟩ := (owned_watched (Talked.watched hw)).registered.covers _ hlive
  obtain ⟨hra, hrest⟩ := Prod.mk.inj htuple
  obtain ⟨hrs, _⟩ := Prod.mk.inj hrest
  exact ⟨mr, b, hlive, htuple, hb, hra.symm.trans haddr, hrs.symm.trans hsize⟩

/-! ## 2. From the owner to a reader -/

/-- The owners' buffers lie like this, as the allocator has placed them. -/
structure World.LaysOut (w : World) (L : Layout UInt32) : Prop where
  base : ∀ {id b}, w.app.owners.lookup id = some b → L.base id = b.ptr.toNat
  size : ∀ {id b}, w.app.owners.lookup id = some b → L.size id = b.size.toNat
  ends : ∀ {id b}, w.app.owners.lookup id = some b → b.ptr.toNat + b.size.toNat < wordSize

theorem Buffer.size_le (b : Buffer) : b.size.toNat ≤ isizeMax := by
  have hbound := b.bound
  unfold Buffer.size
  rw [UInt64.toNat_ofNat']
  exact (Nat.mod_le _ _).trans hbound

/-- The region that a reader has obtained names the owner's array. -/
theorem obtained_is {c : Config Tid Op World Loop Op.Ans} {L : Layout UInt32}
    (hL : c.world.LaysOut L) {id : UInt32} {b : Buffer} {region : RemoteMemoryRegion}
    (hb : c.world.app.owners.lookup id = some b) (haddr : region.remoteAddr = b.ptr)
    (hsize : region.size = b.size) : region.Is L id := by
  refine ⟨⟨?_, ?_⟩, ?_, ?_⟩
  · rw [hsize]
    exact b.size_le
  · rw [haddr, hsize]
    exact hL.ends hb
  · rw [haddr, hL.base hb]
  · rw [hsize, hL.size hb]

/-- **From the owner to a reader.** Let a reader have obtained a region of its group by an update
    that returned `Ok`, in any run of the system, and let the provider not have dropped its
    registrations. The region's key is that of a live registration of exactly the owner's buffer.
    And however the owner and all readers then read and write: if elements of fewer than 2^32 bytes
    were stored to a range of this buffer and every later store and torn write was elsewhere, a
    `read_typed` of the range through the region returns those elements, if it returns `Ok`. -/
theorem owner_to_reader {c : Config Tid Op World Loop Op.Ans} (h : tidy.Reach start c)
    (hkept : c.world.shared.cleared = false) {u : Update} (hu : u ∈ c.world.updates)
    {m : RemoteMemoryRegionMetadata} (hm : m ∈ u.left.metadata) {region : RemoteMemoryRegion}
    (hregion : u.left.getRemoteMr m (some u.group) = some region) :
    (∃ mr b, ⟨mr, (m.id, u.group)⟩ ∈ c.world.hca.regs ∧
      mr.tuple = (region.remoteAddr, region.size, region.rkey) ∧
      c.world.app.owners.lookup m.id = some b ∧ region.remoteAddr = b.ptr ∧ region.size = b.size) ∧
    ∀ (L : Layout UInt32), c.world.LaysOut L → ∀ (T : Type) [RemoteSafe T] (offset count : UInt64)
      (xs v : List T) (before after : Machines UInt32) (es es' : List (Arrays.Event UInt32)),
      before.pending = [] →
      Machines.Run L before
        (es ++ .stored m.id (offset.toNat * byteSize T) (image T xs) :: es') after →
      (∀ e ∈ es', e.Spares m.id (offset.toNat * byteSize T) (image T xs).length) →
      count.toNat = xs.length → xs.length * byteSize T < 2 ^ 32 →
      ∀ (p : Nat) (slot : GroupConnection) (dev : Device) (nextWrId : Nat) (h' : Host), dev.Executes →
        Call.Returns (region.readTyped slot T offset count) dev
          ⟨⟨after.loc p, after.rem⟩, nextWrId, []⟩ v h' → v = xs := by
  obtain ⟨mr, b, hlive, htuple, hb, haddr, hsize⟩ := obtained_live h hkept hu hm hregion
  refine ⟨⟨mr, b, hlive, htuple, hb, haddr, hsize⟩, ?_⟩
  intro L hL T _ offset count xs v before after es es' hnone hrun hspare hcount hlen p slot dev nextWrId
    h' hexec hcall
  exact reads_last_written hnone hrun hspare (obtained_is hL hb haddr hsize) hexec hcount hlen hcall

/-- The buffers of `untilRefreshed`, and where they lie. -/
def bufferA : Buffer := ⟨4096, 8, 1, 1, "", Nat.le_of_ble_eq_true rfl⟩

def bufferB : Buffer := ⟨8192, 4, 2, 2, "", Nat.le_of_ble_eq_true rfl⟩

def twoBuffers : Layout UInt32 where
  base id := if id = 0 then 4096 else 8192
  size id := if id = 0 then 8 else if id = 1 then 8 else 0
  apart {i j a} hi hi' hj hj' := by
    by_cases hi0 : i = 0 <;> by_cases hj0 : j = 0 <;> by_cases hi1 : i = 1 <;>
      by_cases hj1 : j = 1 <;> simp_all <;> omega

/-- The region of the first buffer, for group 7. -/
def regionA : RemoteMemoryRegion :=
  { remoteAddr := 4096, size := 8, rkey := 1, group := 7, elemSize := 1, elemAlign := 1,
    elemType := "" }

/-- The owner has stored three bytes in the first buffer. -/
theorem owner_stores_first : Machines.Step twoBuffers ⟨idleMachines.rem, idleMachines.loc, []⟩
    (.stored 0 5 [1, 2, 3]) ⟨ownerStored.rem, ownerStored.loc, []⟩ := by
  refine .borrowMut (by decide) (by decide) fun a ha => ?_
  have ha : a < 4101 ∨ 4104 ≤ a := by simpa [twoBuffers] using ha
  have hkept : Mem.copy (fun a => UInt8.ofNat (a + 1)) 0 (fun _ => 0) 4101 3 a = 0 :=
    Mem.copy_outside ha
  exact hkept

/-- A reader reads what the owner of the first buffer has stored. -/
theorem owner_to_reader_first : ∃ c u m v h', tidy.Reach start c ∧ u ∈ c.world.updates ∧
    m ∈ u.left.metadata ∧ u.left.getRemoteMr m (some u.group) = some regionA ∧
      Call.Returns (regionA.readTyped openSlot UInt8 5 3) obedient firstHost v h' ∧
        v = [1, 2, 3] := by
  have hplay : ((((provider.restrict FramesFit).restrict InsertsVacant).play start
      untilRefreshed).map fun c => (c.world.shared.cleared,
        (HashMap.toList c.world.app.owners == [(1, bufferB), (0, bufferA)]),
        c.world.updates.map fun u => u.left.metadata.map fun m =>
          (m.id, u.left.getRemoteMr m (some u.group) == some regionA))) =
        some (false, true, [[(1, false), (0, true)], [(0, true)]]) := by
    decide +kernel
  obtain ⟨c, hc, hfinal⟩ := Option.map_eq_some_iff.mp hplay
  obtain ⟨hkept, hfinal⟩ := Prod.mk.inj hfinal
  obtain ⟨howners, hupdates⟩ := Prod.mk.inj hfinal
  have hreach : tidy.Reach start c :=
    System.play_reach (S := (provider.restrict FramesFit).restrict InsertsVacant) hc
  have hL : c.world.LaysOut twoBuffers := by
    have hmem {id : UInt32} {b : Buffer} (hb : c.world.app.owners.lookup id = some b) :
        (id = 1 ∧ b = bufferB) ∨ (id = 0 ∧ b = bufferA) := by
      have hb := HashMap.mem_toList.mpr hb
      rw [beq_iff_eq.mp howners] at hb
      simpa using hb
    refine ⟨fun hb => ?_, fun hb => ?_, fun hb => ?_⟩ <;>
      rcases hmem hb with ⟨rfl, rfl⟩ | ⟨rfl, rfl⟩ <;> decide
  -- the first update has obtained the first region
  obtain ⟨_, us, hcons, _, hrest⟩ := List.map_eq_cons_iff.mp hupdates
  obtain ⟨u, _, rfl, hfirst, _⟩ := List.map_eq_cons_iff.mp hrest
  obtain ⟨m, _, hmetadata, hm, _⟩ := List.map_eq_cons_iff.mp hfirst
  obtain ⟨hid, hregion⟩ := Prod.mk.inj hm
  have hu : u ∈ c.world.updates := by simp [hcons]
  have hmem : m ∈ u.left.metadata := by simp [hmetadata]
  have hpostable : Postable openSlot 4096 5 3 := ⟨⟨_, _, rfl, rfl⟩, by decide, by decide⟩
  obtain ⟨h', hmoves⟩ := moves_obedient "read" .rdmaRead obedient.alloc regionA.rkey
    (show (firstHost.zeroed obedient.alloc.toNat 3).nextWrId = 0 from rfl) hpostable
  have hcall : Call.Returns (regionA.readTyped openSlot UInt8 5 3) obedient firstHost
      (elems UInt8 h'.mem.loc obedient.alloc.toNat 3) h' :=
    (readTyped_returns (by decide)).mpr ⟨obedient_grants (by decide), ⟨by decide, by decide, by decide⟩, hmoves, rfl⟩
  have hrun : Machines.Run twoBuffers ⟨idleMachines.rem, idleMachines.loc, []⟩
      ([] ++ .stored m.id ((5 : UInt64).toNat * byteSize UInt8) (image UInt8 [1, 2, 3]) :: [])
      ⟨ownerStored.rem, ownerStored.loc, []⟩ := by
    rw [hid]
    exact .cons owner_stores_first .nil
  refine ⟨c, u, m, _, h', hreach, hu, hmem, beq_iff_eq.mp hregion, hcall, ?_⟩
  exact (owner_to_reader hreach hkept hu hmem (beq_iff_eq.mp hregion)).2 twoBuffers hL UInt8 5 3
    [1, 2, 3] _ _ _ [] [] rfl hrun nofun rfl (by decide) 0 openSlot obedient 0 h' obedient_executes hcall

end Rdmalib
