/-
  File:      Rdmalib/Base/HashMap.lean
  Subject:   Hash maps as association lists without duplicate keys.
-/
import Mathlib.Data.List.AList

namespace Rdmalib.Base

/-- A hash map. The order of its entries means nothing: whoever iterates over one is given them
    in an order of the world's choosing. -/
abbrev HashMap (K V : Type) := AList fun _ : K => V

namespace HashMap

variable {K V : Type} [DecidableEq K]

theorem lookup_insert (m : HashMap K V) (k k' : K) (v : V) :
    (AList.insert k' v m).lookup k = if k = k' then some v else m.lookup k := by
  by_cases h : k = k'
  · subst h
    rw [if_pos rfl]
    exact AList.lookup_insert m
  · rw [if_neg h]
    exact AList.lookup_insert_ne h

/-- The entries, in some order. -/
def toList (m : HashMap K V) : List (K × V) := m.entries.map fun e => (e.1, e.2)

theorem mem_toList {m : HashMap K V} {k : K} {v : V} :
    (k, v) ∈ toList m ↔ m.lookup k = some v := by
  unfold toList
  rw [← Option.mem_def, AList.mem_lookup_iff, List.mem_map]
  constructor
  · intro h
    obtain ⟨⟨k', v'⟩, hm, he⟩ := h
    cases he
    exact hm
  · intro h
    exact ⟨⟨k, v⟩, h, rfl⟩

omit [DecidableEq K] in
/-- Each key is listed once. -/
theorem nodup_toList (m : HashMap K V) : ((toList m).map Prod.fst).Nodup := by
  unfold toList
  rw [List.map_map]
  exact m.nodupKeys

/-- An insertion, beside the other entries. -/
theorem toList_insert (m : HashMap K V) (k : K) (v : V) :
    toList (AList.insert k v m) = (k, v) :: toList (AList.erase k m) := rfl

/-- An entry that is there, beside the others. -/
theorem toList_perm {m : HashMap K V} {k : K} {v : V} (h : m.lookup k = some v) :
    (toList m).Perm ((k, v) :: toList (AList.erase k m)) := by
  rw [← toList_insert]
  refine (List.perm_ext_iff_of_nodup (nodup_toList m).of_map (nodup_toList _).of_map).mpr ?_
  rintro ⟨k', v'⟩
  rw [mem_toList, mem_toList, lookup_insert]
  by_cases hk : k' = k
  · rw [if_pos hk, hk, h]
  · rw [if_neg hk]

/-- No entry, and the others are all. -/
theorem toList_erase_of_none {m : HashMap K V} {k : K} (h : m.lookup k = none) :
    toList (AList.erase k m) = toList m := by
  have hkeys : k ∉ m.entries.keys := AList.lookup_eq_none.mp h
  exact congrArg (List.map fun e => (e.1, e.2)) (List.kerase_of_notMem_keys hkeys)

/-- The entries whose key `f` keeps. -/
def retain (m : HashMap K V) (f : K → Bool) : HashMap K V where
  entries := m.entries.filter fun e => f e.1
  nodupKeys := m.nodupKeys.sublist List.filter_sublist

theorem lookup_retain (m : HashMap K V) (f : K → Bool) (k : K) :
    (retain m f).lookup k = if f k then m.lookup k else none := by
  apply Option.ext
  intro v
  rw [← Option.mem_def, AList.mem_lookup_iff]
  show (⟨k, v⟩ : Sigma fun _ : K => V) ∈ m.entries.filter (fun e => f e.1) ↔ _
  rw [List.mem_filter, ← AList.mem_lookup_iff, Option.mem_def]
  by_cases h : f k = true <;> simp [h]

end HashMap

end Rdmalib.Base
