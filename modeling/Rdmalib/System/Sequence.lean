/-
  File:      Rdmalib/System/Sequence.lean
  Subject:   The updates of a run one against the other: whose are they, in what order do they see
             the catalog.

  * `World.updates` -- the updates that have returned `Ok`, of all readers, by the records;
  * `refreshed_at` -- each has a place among the values of the catalog, between its begin and its
    return; `Refreshes.mono` -- a later place shows every region of an earlier one;
  * result: the updates of a run are ordered (`updates_ordered`).
-/
import Rdmalib.System.Snapshots

namespace Rdmalib

open Base

/-! ## 1. The updates of a run -/

/-- An update that returned `Ok`: whose, of what group, between which instants, and what it left. -/
structure Update where
  reader : Nat
  group : UInt32
  began : Instant
  returned : Instant
  left : RemoteMemoryProvider

/-- The update whose return the record notes, after these earlier ones. -/
def Record.update (r : Record) (earlier : List Record) : Option Update :=
  match r.thread, r.note with
  | .reader i, .updateReturns g (.ok ()) st =>
      (callOf i earlier).map fun call => ⟨i, g, call.2, r.instant, st⟩
  | _, _ => none

def updatesOf : List Record → List Update
  | [] => []
  | r :: earlier => (r.update earlier).toList ++ updatesOf earlier

/-- The updates that have returned `Ok`, the last one first. -/
def World.updates (w : World) : List Update := updatesOf w.log.records

theorem mem_updatesOf {rs : List Record} {u : Update} (h : u ∈ updatesOf rs) :
    ∃ r earlier, (r :: earlier) <:+ rs ∧ r.thread = .reader u.reader ∧
      r.note = .updateReturns u.group (.ok ()) u.left ∧ r.instant = u.returned ∧
      (callOf u.reader earlier).map Prod.snd = some u.began := by
  induction rs with
  | nil => cases h
  | cons r rs ih =>
      rcases List.mem_append.mp h with h | h
      · obtain ⟨t, now, note⟩ := r
        unfold Record.update at h
        split at h
        · rename_i i g st hthread hnote
          cases hthread
          cases hnote
          obtain ⟨call, hcall, rfl⟩ := Option.map_eq_some_iff.mp (Option.mem_toList.mp h)
          exact ⟨_, rs, List.suffix_refl _, rfl, rfl, rfl, by rw [hcall]; rfl⟩
        · cases h
      · obtain ⟨r', earlier, hsuffix, hrest⟩ := ih h
        exact ⟨r', earlier, hsuffix.trans (List.suffix_cons _ _), hrest⟩

/-! ## 2. Their places among the values of the catalog -/

section Places

variable {c : Config Tid Op World Loop Op.Ans} {u u' : Update} {κ : Tid → Both}
variable {cat cat' : HashMap UInt32 RegionInfo} {g g' id : UInt32} {b b' e e' : Instant}
variable {st st' : RemoteMemoryProvider} {info : RegionInfo}

/-- **The place of an update.** -/
theorem refreshed_at (hreach : fitting.Reach start c) (hw : Talked c.world c.prog κ)
    (hu : u ∈ c.world.updates) : ∃ n cat, c.world.catalogs[n]? = some cat ∧
      u.began.editions ≤ n + 1 ∧ n + 1 ≤ u.returned.editions ∧
      Refreshes c u.group u.began u.returned cat u.left := by
  obtain ⟨r, earlier, hr, hi, hnote, hreturned, hbegan⟩ := mem_updatesOf hu
  obtain ⟨b, regions, ts, active, hcall, hex, hmeta, hst⟩ :=
    (recorded_watched hw).returned r earlier hr u.reader u.group u.left hi hnote
  obtain rfl : b = u.began := by
    rw [hcall] at hbegan
    exact Option.some.inj hbegan
  obtain ⟨begin, hbegin, _, _, hinstant⟩ := callOf_recorded hcall
  have hbegin : begin ∈ c.world.log.records := hr.subset (List.mem_cons_of_mem _ hbegin)
  rw [← hinstant, hreturned] at hex
  obtain ⟨cat, ⟨n, hcat, hfrom, hto⟩, hrefreshes⟩ := refreshes_exchange hreach hw hbegin hex hmeta hst
  rw [hinstant] at hfrom hrefreshes
  exact ⟨n, cat, hcat, hfrom, hto, hrefreshes⟩

/-- What the reader then lists is what the catalog holds. -/
theorem Refreshes.mem_metadata (h : Refreshes c g b e cat st) {m : RemoteMemoryRegionMetadata} :
    m ∈ st.metadata ↔ ∃ id info, cat.lookup id = some info ∧
      m = RemoteMemoryProvider.metadataOf (info.desc id) := by
  rw [h.metadata.mem_iff, List.mem_map]
  constructor
  · rintro ⟨⟨id, info⟩, hmem, rfl⟩
    exact ⟨id, info, HashMap.mem_toList.mp hmem, rfl⟩
  · rintro ⟨id, info, hinfo, rfl⟩
    exact ⟨(id, info), HashMap.mem_toList.mpr hinfo, rfl⟩

/-- **A later place shows every region of an earlier one.** -/
theorem Refreshes.mono (h : Refreshes c g b e cat st) (h' : Refreshes c g' b' e' cat' st')
    (hext : Extends cat cat') : st.metadata ⊆ st'.metadata := by
  intro m hm
  obtain ⟨id, info, hinfo, rfl⟩ := h.mem_metadata.mp hm
  exact h'.mem_metadata.mpr ⟨id, info, hext id info hinfo, rfl⟩

/-- The region that a reader gets of a catalog entry has the entry's range. -/
theorem Refreshes.region (h : Refreshes c g b e cat st) (hinfo : cat.lookup id = some info)
    {region : RemoteMemoryRegion}
    (hregion : st.getRemoteMr (RemoteMemoryProvider.metadataOf (info.desc id)) (some g) = some region) :
    ∃ rkey, region =
      { remoteAddr := info.remoteAddr, size := info.size, rkey, group := g,
        elemSize := info.elemSize, elemAlign := info.elemAlign, elemType := info.elemType } := by
  obtain ⟨result, -, hobtained⟩ := h.regions id info hinfo
  unfold Obtained at hobtained
  split at hobtained
  · next rkey =>
    rw [hobtained.1] at hregion
    exact ⟨rkey, (Option.some.inj hregion).symm⟩
  · rw [hobtained] at hregion
    cases hregion

/-- What was recorded earlier saw the catalog earlier. -/
theorem returned_before (hw : Talked c.world c.prog κ) (hu : u ∈ c.world.updates)
    (hu' : u' ∈ c.world.updates) (hlt : u.returned.records < u'.began.records) :
    u.returned.editions ≤ u'.began.editions := by
  obtain ⟨r, earlier, hr, _, _, hreturned, _⟩ := mem_updatesOf hu
  obtain ⟨r', earlier', hr', _, _, _, hbegan⟩ := mem_updatesOf hu'
  obtain ⟨⟨g, b⟩, hcall, rfl⟩ := Option.map_eq_some_iff.mp hbegan
  obtain ⟨begin, hbegin, _, _, hinstant⟩ := callOf_recorded hcall
  have hmem : r ∈ c.world.log.records := hr.subset List.mem_cons_self
  have hbegin : begin ∈ c.world.log.records := hr'.subset (List.mem_cons_of_mem _ hbegin)
  rw [← hreturned] at hlt ⊢
  rw [← hinstant] at hlt ⊢
  exact (chronicle_watched hw).earlier hmem hbegin hlt

/-! ## 3. Results -/

/-- **The updates of a run are ordered.** Of any two updates that returned `Ok`, of any readers and
    groups, one shows every region that the other shows; if one returned before the other began, it
    is the other that shows no less. Whatever both show they describe alike, and the regions
    obtained of it are the same but for the key and the group. -/
theorem updates_ordered (h : fitting.Reach start c) (hu : u ∈ c.world.updates)
    (hu' : u' ∈ c.world.updates) :
    (u.left.metadata ⊆ u'.left.metadata ∨ u'.left.metadata ⊆ u.left.metadata) ∧
      (u.returned.records < u'.began.records → u.left.metadata ⊆ u'.left.metadata) ∧
      ∀ m ∈ u.left.metadata, ∀ m' ∈ u'.left.metadata, m.id = m'.id → m = m' ∧
        ∀ region region', u.left.getRemoteMr m (some u.group) = some region →
          u'.left.getRemoteMr m' (some u'.group) = some region' →
            region' = { region with rkey := region'.rkey, group := u'.group } := by
  obtain ⟨κ, hw⟩ := System.Reach.watched (protocol.prod talks) firstBoth h
  obtain ⟨n, cat, hcat, hfrom, hto, hrefreshes⟩ := refreshed_at h hw hu
  obtain ⟨n', cat', hcat', hfrom', hto', hrefreshes'⟩ := refreshed_at h hw hu'
  have hed := editions_watched (Talked.watched hw)
  -- a value extends those before it
  have hext {m m' : Nat} {k k' : HashMap UInt32 RegionInfo} (hle : m ≤ m')
      (hk : c.world.catalogs[m]? = some k) (hk' : c.world.catalogs[m']? = some k') : Extends k k' :=
    fun id info hinfo => known_during hed hk' ⟨m, k, hk, Nat.le_refl _, hinfo⟩
      (i := ⟨m + 1, 0⟩) (Nat.succ_le_succ hle)
  refine ⟨?_, fun hbefore => ?_, fun m hm m' hm' hid => ?_⟩
  · rcases Nat.le_total n n' with hle | hle
    · exact Or.inl (hrefreshes.mono hrefreshes' (hext hle hcat hcat'))
    · exact Or.inr (hrefreshes'.mono hrefreshes (hext hle hcat' hcat))
  · have hbetween := returned_before hw hu hu' hbefore
    exact hrefreshes.mono hrefreshes' (hext (by omega) hcat hcat')
  · obtain ⟨id, info, hinfo, rfl⟩ := hrefreshes.mem_metadata.mp hm
    obtain ⟨id', info', hinfo', rfl⟩ := hrefreshes'.mem_metadata.mp hm'
    obtain rfl : id = id' := hid
    obtain rfl : info = info' := hed.agree ⟨cat, List.mem_of_getElem? hcat, hinfo⟩
      ⟨cat', List.mem_of_getElem? hcat', hinfo'⟩
    refine ⟨rfl, fun region region' hregion hregion' => ?_⟩
    obtain ⟨rkey, rfl⟩ := hrefreshes.region hinfo hregion
    obtain ⟨rkey', rfl⟩ := hrefreshes'.region hinfo' hregion'
    rfl

/-- A region is registered between two updates of one reader. -/
theorem updates_ordered_twice : ∃ c u u', fitting.Reach start c ∧ u ∈ c.world.updates ∧
    u' ∈ c.world.updates ∧ u.left.metadata.map (·.id) = [0] ∧ u'.left.metadata.map (·.id) = [1, 0] ∧
      u.left.metadata ⊆ u'.left.metadata := by
  have hplay : (((provider.restrict FramesFit).play start untilRefreshed).map fun c =>
      c.world.updates.map fun u =>
        (u.left.metadata.map (·.id), u.began.records, u.returned.records)) =
        some [([1, 0], 6, 10), ([0], 1, 4)] := by decide +kernel
  obtain ⟨c, hc, hupdates⟩ := Option.map_eq_some_iff.mp hplay
  have hreach : fitting.Reach start c := System.play_reach (S := provider.restrict FramesFit) hc
  obtain ⟨u', us, hcons, hlast, hrest⟩ := List.map_eq_cons_iff.mp hupdates
  obtain ⟨u, us, rfl, hfirst, _⟩ := List.map_eq_cons_iff.mp hrest
  obtain ⟨hids, hnumbers⟩ := Prod.mk.inj hfirst
  obtain ⟨hids', hnumbers'⟩ := Prod.mk.inj hlast
  obtain ⟨_, hreturned⟩ := Prod.mk.inj hnumbers
  obtain ⟨hbegan, _⟩ := Prod.mk.inj hnumbers'
  have hu : u ∈ c.world.updates := by simp [hcons]
  have hu' : u' ∈ c.world.updates := by simp [hcons]
  exact ⟨c, u, u', hreach, hu, hu', hids, hids', (updates_ordered hreach hu hu').2.1 (by omega)⟩

end Places

end Rdmalib
