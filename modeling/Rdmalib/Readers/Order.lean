/-
  File:      Rdmalib/Readers/Order.lean
  Subject:   The order of the entries under one key of a reader's cache, and which of them
             `get_remote_mr` picks where any group will do.

  * `EntersBefore` -- of two groups with an entry, the one entered its entry before the other;
  * `entries_ordered` -- the entries under a key are in the order in which they were entered;
  * result: `get_remote_mr(m, None)` picks the group whose entry is the oldest (`oldest_picked`).
-/
import Rdmalib.Readers.Cache

namespace Rdmalib

open Base

/-! ## 1. The order of the entries -/

/-- The update that entered `e` was before the one that entered `e'`, and both entries stayed. -/
def EntersBefore (k : String × UInt32) (calls : List UpdateCall) (e e' : CachedRegion) : Prop :=
  Before (·.Enters e.group k e) (·.Keeps e.group k) (·.Enters e'.group k e') (·.Keeps e'.group k)
    calls

section Order

variable {calls : List UpdateCall} {st : RemoteMemoryProvider} {g : UInt32} {k : String × UInt32}
variable {u : UpdateCall} {e e' : CachedRegion} {regions : List RegionDesc} {ts : List TupleDesc}

theorem keeps_unserved (h : u.served = none) : u.Keeps g k := by
  intro regions ts hserved
  rw [h] at hserved
  cases hserved

theorem keeps_other (hserved : u.served = some (regions, ts)) (hg : u.group ≠ g)
    (hk : (lastRegion k regions).isSome = true) : u.Keeps g k := by
  intro regions' ts' hserved'
  rw [hserved] at hserved'
  cases hserved'
  exact ⟨hg, lastRegion_isSome.mp hk⟩

/-- **The entries under a key are in the order of their updates.** -/
theorem entries_ordered (h : Updates calls st) (k : String × UInt32) :
    (cachedUnder st.regions k).Pairwise (EntersBefore k calls) := by
  induction h with
  | new => exact .nil
  | @update calls st st' g result tr h hr ih =>
      have hstep := (update_runs h.connected hr).step
      have hsince {e : CachedRegion} (he : e ∈ cachedUnder st.regions k) :
          Since (·.Enters e.group k e) (·.Keeps e.group k) calls :=
        entry_iff.mp (h.mem_cached.mp ⟨he, rfl⟩)
      cases hserved : (UpdateCall.mk g result (received tr)).served with
      | none =>
          -- a failed update changes nothing
          rw [hserved] at hstep
          rw [hstep.2]
          exact ih.imp fun hbefore => hbefore.snoc (keeps_unserved hserved) (keeps_unserved hserved)
      | some served =>
      obtain ⟨regions, ts⟩ := served
      rw [hserved] at hstep
      rw [hstep.2.2, recached_cached]
      cases hlast : lastRegion k regions with
      | none => exact .nil
      | some region =>
      have hkeeps {e : CachedRegion} (he : e ∈ (cachedUnder st.regions k).filter (·.group ≠ g)) :
          (UpdateCall.mk g result (received tr)).Keeps e.group k := by
        have hg : e.group ≠ g := of_decide_eq_true (List.mem_filter.mp he).2
        exact keeps_other hserved (Ne.symm hg) (by rw [hlast]; rfl)
      refine List.pairwise_append.mpr ⟨?_, ?_, fun e he e' he' => ?_⟩
      · refine (ih.filter _).imp_of_mem fun he he' hbefore => ?_
        exact hbefore.snoc (hkeeps he) (hkeeps he')
      · cases entryOf g ts region with
        | none => exact .nil
        | some e => exact List.pairwise_singleton _ _
      · -- the group's own entry is the newest
        have hmem := (List.mem_filter.mp he).1
        obtain ⟨tuple, htuple, rfl⟩ := Option.map_eq_some_iff.mp (Option.mem_toList.mp he')
        refine (hsince hmem).before (hkeeps he) ⟨rfl, regions, ts, region, tuple, hserved, hlast, ?_, rfl⟩
        rw [← lastRegion_key hlast]
        exact htuple

/-! ## 2. The group that is picked -/

/-- **Where any group will do, the oldest entry is picked**: after any run of updates, the region
    that `get_remote_mr(m, None)` returns is that of an entry whose last update was before the last
    update of every other group that has an entry for `m`. -/
theorem oldest_picked (h : Updates calls st) (m : RemoteMemoryRegionMetadata)
    {region : RemoteMemoryRegion} (hregion : st.getRemoteMr m none = some region) :
    ∃ e, regionOf e = region ∧ Since (·.Enters e.group (m.name, m.id) e)
        (·.Keeps e.group (m.name, m.id)) calls ∧
      ∀ g e', g ≠ e.group →
        Since (·.Enters g (m.name, m.id) e') (·.Keeps g (m.name, m.id)) calls →
          Before (·.Enters e.group (m.name, m.id) e) (·.Keeps e.group (m.name, m.id))
            (·.Enters g (m.name, m.id) e') (·.Keeps g (m.name, m.id)) calls := by
  have hordered := entries_ordered h (m.name, m.id)
  rw [getRemoteMr_eq] at hregion
  obtain ⟨e, hfound, rfl⟩ := Option.map_eq_some_iff.mp hregion
  have hmem := List.mem_of_find?_eq_some hfound
  refine ⟨e, rfl, entry_iff.mp (h.mem_cached.mp ⟨hmem, rfl⟩), fun g e' hg hsince => ?_⟩
  obtain ⟨hmem', rfl⟩ := h.mem_cached.mpr (entry_iff.mpr hsince)
  cases hcached : cachedUnder st.regions (m.name, m.id) with
  | nil =>
      rw [hcached] at hmem
      cases hmem
  | cons first rest =>
      rw [hcached] at hfound hmem' hordered
      obtain rfl : first = e := by simpa using hfound
      rcases List.mem_cons.mp hmem' with rfl | hrest
      · exact absurd rfl hg
      · exact (List.pairwise_cons.mp hordered).1 e' hrest

end Order

/-- Two groups with one region; group 7 is updated again after group 9. -/
def heapTuples (g : UInt32) (addr : UInt64) : List Message :=
  [.metadata [⟨3, "heap", 64, 8, 8, "u64"⟩], .tuples g [⟨3, addr, 64, 11⟩]]

def firstTurn : Trace Op Op.Ans × Except Fault Unit × RemoteMemoryProvider :=
  friendlyUpdate .new 7 (.welcome PROTOCOL_VERSION :: heapTuples 7 4096)

def secondTurn : Trace Op Op.Ans × Except Fault Unit × RemoteMemoryProvider :=
  friendlyUpdate firstTurn.2.2 9 (.welcome PROTOCOL_VERSION :: heapTuples 9 8192)

def thirdTurn : Trace Op Op.Ans × Except Fault Unit × RemoteMemoryProvider :=
  friendlyUpdate secondTurn.2.2 7 (heapTuples 7 4096)

theorem friendly_updates {calls : List UpdateCall} {st : RemoteMemoryProvider} (h : Updates calls st)
    (g : UInt32) (ms : List Message) :
    Updates (calls ++ [⟨g, (friendlyUpdate st g ms).2.1, received (friendlyUpdate st g ms).1⟩])
      (friendlyUpdate st g ms).2.2 :=
  h.update (Prog.drive_runs _ _ _)

theorem turns_run : ∃ calls, Updates calls thirdTurn.2.2 :=
  ⟨_, friendly_updates (friendly_updates (friendly_updates .new _ _) _ _) _ _⟩

theorem oldest_picked_again : thirdTurn.2.2.getRemoteMr ⟨"heap", 3, 64, 8, 8, "u64"⟩ none =
      some ⟨8192, 64, 11, 9, 8, 8, "u64"⟩ ∧
    ∃ e, regionOf e = ⟨8192, 64, 11, 9, 8, 8, "u64"⟩ ∧ e.group = 9 := by
  have hpicked : thirdTurn.2.2.getRemoteMr ⟨"heap", 3, 64, 8, 8, "u64"⟩ none =
      some ⟨8192, 64, 11, 9, 8, 8, "u64"⟩ := by decide +kernel
  obtain ⟨calls, hruns⟩ := turns_run
  obtain ⟨e, he, _⟩ := oldest_picked hruns _ hpicked
  exact ⟨hpicked, e, he, congrArg RemoteMemoryRegion.group he⟩

end Rdmalib
