/-
  File:      Rdmalib/System/Editions.lean
  Subject:   The values that the catalog has had.

  * `World.catalogs` -- every value until the drop of `Shared`; each extends those before it
    (`Editions.grow`), so a region has one entry in all of them (`Editions.agree`);
  * every registration made is of the range that its region's entry says (`Editions.made`).
-/
import Rdmalib.System.Domains

namespace Rdmalib

open Base

/-! ## 1. The invariant -/

/-- Every entry stays. -/
def Extends (cat cat' : HashMap UInt32 RegionInfo) : Prop :=
  ∀ id info, cat.lookup id = some info → cat'.lookup id = some info

/-- The values of the catalog; the drop of `Shared` leaves one more, which is empty. -/
def World.catalogs (w : World) : List (HashMap UInt32 RegionInfo) :=
  if w.shared.gone then w.shared.editions.dropLast else w.shared.editions

/-- The region has this entry in some value of the catalog. -/
def World.Known (w : World) (id : UInt32) (info : RegionInfo) : Prop :=
  ∃ cat ∈ w.catalogs, cat.lookup id = some info

/-- The registration is of its region's range. -/
def World.Ranged (w : World) (r : Registration) : Prop :=
  ∃ info, w.Known r.key.1 info ∧ r.mr.addr = info.remoteAddr ∧ r.mr.size = info.size

structure Editions (w : World) (region : Tid → Option (UInt32 × RegionInfo)) : Prop where
  current : w.shared.gone = false → ∃ earlier, w.shared.editions = earlier ++ [w.shared.catalog]
  grow : w.catalogs.Pairwise Extends
  region : ∀ {t id info}, region t = some (id, info) → w.Known id info
  made : ∀ r ∈ w.hca.made, w.Ranged r

section Catalogs

variable {w w' : World} {region region' : Tid → Option (UInt32 × RegionInfo)} {id : UInt32}
variable {info info' : RegionInfo}

theorem catalogs_present (h : w.shared.gone = false) : w.catalogs = w.shared.editions := by
  unfold World.catalogs
  rw [h]
  rfl

/-- What is known stays so while the catalog only gets new values. -/
theorem World.Known.mono (h : w.Known id info) (hc : ∀ cat ∈ w.catalogs, cat ∈ w'.catalogs) :
    w'.Known id info := by
  obtain ⟨cat, hmem, hinfo⟩ := h
  exact ⟨cat, hc cat hmem, hinfo⟩

theorem World.Ranged.mono {r : Registration} (h : w.Ranged r)
    (hc : ∀ cat ∈ w.catalogs, cat ∈ w'.catalogs) : w'.Ranged r := by
  obtain ⟨info, hknown, hrange⟩ := h
  exact ⟨info, hknown.mono hc, hrange⟩

/-- The catalog itself is one of its values. -/
theorem Editions.current_known (h : Editions w region) (hgone : w.shared.gone = false)
    (hinfo : w.shared.catalog.lookup id = some info) : w.Known id info := by
  obtain ⟨earlier, he⟩ := h.current hgone
  refine ⟨w.shared.catalog, ?_, hinfo⟩
  rw [catalogs_present hgone, he]
  exact List.mem_append_right _ (List.mem_singleton_self _)

/-- **A region has one entry**, whenever one looks. -/
theorem Editions.agree (h : Editions w region) (hk : w.Known id info) (hk' : w.Known id info') :
    info = info' := by
  obtain ⟨cat, hmem, hinfo⟩ := hk
  obtain ⟨cat', hmem', hinfo'⟩ := hk'
  obtain ⟨i, hi, rfl⟩ := List.mem_iff_getElem.mp hmem
  obtain ⟨j, hj, rfl⟩ := List.mem_iff_getElem.mp hmem'
  have hgrow := List.pairwise_iff_getElem.mp h.grow
  rcases Nat.lt_trichotomy i j with hlt | rfl | hlt
  · exact Option.some.inj ((hgrow i j hi hj hlt id info hinfo).symm.trans hinfo')
  · exact Option.some.inj (hinfo.symm.trans hinfo')
  · exact Option.some.inj (hinfo.symm.trans (hgrow j i hj hi hlt id info' hinfo'))

/-- The catalog extends all its earlier values. -/
theorem Editions.current_extends (h : Editions w region) (hgone : w.shared.gone = false) :
    ∀ cat ∈ w.catalogs, Extends cat w.shared.catalog := by
  obtain ⟨earlier, he⟩ := h.current hgone
  have hgrow := h.grow
  rw [catalogs_present hgone, he] at hgrow ⊢
  intro cat hcat
  rcases List.mem_append.mp hcat with hcat | hcat
  · exact (List.pairwise_append.mp hgrow).2.2 cat hcat _ (List.mem_singleton_self _)
  · rw [List.mem_singleton.mp hcat]
    exact fun _ _ hinfo => hinfo

end Catalogs

/-! ## 2. Every operation -/

section Steps

variable {w : World} {know : Tid → Know} {t : Tid} {o : Op} {a : o.Ans}

/-- What an operation does to the values of the catalog. -/
inductive CatalogStep (w w' : World) : Prop where
  | same (hshared : w'.shared.catalog = w.shared.catalog) (hgone : w'.shared.gone = w.shared.gone)
      (heditions : w'.shared.editions = w.shared.editions)
  | insert (id : UInt32) (info : RegionInfo) (hpresent : w.shared.gone = false)
      (hnew : w.shared.catalog.lookup id = none) (hgone : w'.shared.gone = false)
      (hcatalog : w'.shared.catalog = w.shared.catalog.insert id info)
      (heditions : w'.shared.editions = w.shared.editions ++ [w'.shared.catalog])
  | drop (hpresent : w.shared.gone = false) (hgone : w'.shared.gone = true)
      (heditions : w'.shared.editions = w.shared.editions ++ [∅])

theorem catalog_step (hl : Lives w know) (ho : Owned w know) (hm : may (know t) o) :
    CatalogStep w (post t o a w) := by
  by_cases hs : o.writesShared = false
  · have hf := (post_frame (t := t) (w := w) o a).shared hs
    exact .same (by rw [hf]) (by rw [hf]) (by rw [hf])
  cases o with
  | catalogInsert id info =>
      obtain ⟨ht, hstage, b, howned, _⟩ := hm
      have htid : t = .app := (hl.role t).symm.trans ht
      subst htid
      have hpresent := hl.present (t := .app) ⟨by rw [ht]; rfl, hstage⟩
      exact .insert id info hpresent (ho.ids.owned howned).2 hpresent rfl rfl
  | dropShared =>
      obtain ⟨ht, hstage⟩ := hm
      have htid : t = .app := (hl.role t).symm.trans ht
      subst htid
      refine .drop ?_ rfl rfl
      by_contra hgone
      have hbare := hl.drop.gone (by simpa using hgone)
      rw [hstage] at hbare
      simp at hbare
  | groupsPush g conn =>
      refine .same ?_ ?_ ?_ <;>
        · simp only [post, pushPost]
          split <;> rfl
  | tuplesInsert | tuplesClear => exact .same rfl rfl rfl
  | _ => exact absurd rfl hs

theorem CatalogStep.catalogs {w' : World} (h : CatalogStep w w') :
    w'.catalogs = w.catalogs ∨
      (w.shared.gone = false ∧ w'.catalogs = w.catalogs ++ [w'.shared.catalog]) := by
  cases h with
  | same _ hgone heditions =>
      left
      unfold World.catalogs
      rw [hgone, heditions]
  | insert _ _ hpresent _ hgone _ heditions =>
      right
      rw [catalogs_present hpresent, catalogs_present hgone, heditions]
      exact ⟨hpresent, rfl⟩
  | drop hpresent hgone heditions =>
      left
      rw [catalogs_present hpresent]
      unfold World.catalogs
      rw [hgone, heditions, if_pos rfl, List.dropLast_concat]

theorem CatalogStep.kept {w' : World} (h : CatalogStep w w') :
    ∀ cat ∈ w.catalogs, cat ∈ w'.catalogs := by
  intro cat hcat
  rcases h.catalogs with hsame | ⟨_, hmore⟩
  · rwa [hsame]
  · rw [hmore]
    exact List.mem_append_left _ hcat

/-- The registrations made before, or one that `tuple_of` makes of the entry it has read, while
    `Shared` is there. -/
theorem made_post (hl : Lives w know) (ho : Owned w know) (hm : may (know t) o) :
    ∀ r ∈ (post t o a w).hca.made, r ∈ w.hca.made ∨
      ((post t o a w).shared.gone = false ∧ ∃ info, (know t).tup.region = some (r.key.1, info) ∧
        r.mr.addr = info.remoteAddr ∧ r.mr.size = info.size) := by
  intro r hr
  have hsame (h : (post t o a w).hca.made = w.hca.made) : r ∈ w.hca.made := h ▸ hr
  by_cases hh : o.writesHca = false
  · exact Or.inl (hsame (by rw [(post_frame (t := t) (w := w) o a).hca hh]))
  cases o with
  | verb v =>
      by_cases hv : ∀ pd addr size, v ≠ .regMr pd addr size
      · exact Or.inl (hsame (post_verb_regs hv).2)
      · push Not at hv
        obtain ⟨pd, addr, size, rfl⟩ := hv
        obtain ⟨hworks, _, id, g, dom, info, hasked, _, _, hregion, haddr, hsize⟩ := hm
        have hasking := ho.registered.asked (t := t) hasked
        have hprovider : t.isProvider = true := by rw [← hl.role t]; exact hworks.role
        cases a with
        | none =>
            left
            cases t <;> exact hr
        | some reg =>
            obtain ⟨mr, lkey, rkey⟩ := reg
            have hr : r ∈ (⟨{ mr, pd, addr, size, lkey, rkey }, (w.log.asking t).getD (0, 0)⟩ ::
                w.hca.made : List Registration) := by
              cases t with
              | app | service | session => exact hr
              | reader | net => cases hprovider
            rcases List.mem_cons.mp hr with rfl | hr
            · have hgone : w.shared.gone = false := hl.present hworks
              refine Or.inr ⟨?_, info, ?_, haddr, hsize⟩
              · rwa [(post_frame (t := t) (w := w) (.verb (.regMr pd addr size)) _).shared rfl]
              · rw [hasking]
                exact hregion
            · exact Or.inl hr
  | groupsGetPd g => exact Or.inl (hsame (by cases a <;> rfl))
  | groupsPush g conn =>
      refine Or.inl (hsame ?_)
      simp only [post, pushPost]
      split <;> rfl
  | tuplesInsert | tuplesClear | dropShared => exact Or.inl (hsame rfl)
  | _ => exact absurd rfl hh

theorem Editions.step (hl : Lives w know) (ho : Owned w know)
    (h : Editions w fun u => (know u).tup.region) (hm : may (know t) o) (hc : can t o w a) :
    Editions (post t o a w) fun u => (Function.update know t (next (know t) o a) u).tup.region := by
  have hstep := catalog_step (a := a) hl ho hm
  refine ⟨fun hgone => ?_, ?_, fun {u id info} hu => ?_, fun r hr => ?_⟩
  · cases hstep with
    | same hcatalog hgone' heditions =>
        rw [hcatalog, heditions]
        exact h.current (hgone'.symm.trans hgone)
    | insert _ _ _ _ _ _ heditions => exact ⟨_, heditions⟩
    | drop _ hgone' => cases hgone.symm.trans hgone'
  · rcases hstep.catalogs with hsame | ⟨hpresent, hmore⟩
    · rw [hsame]
      exact h.grow
    · rw [hmore]
      refine List.pairwise_append.mpr ⟨h.grow, List.pairwise_singleton _ _,
        fun cat hcat cat' hcat' => ?_⟩
      rw [List.mem_singleton.mp hcat']
      have hold := h.current_extends hpresent cat hcat
      cases hstep with
      | same hcatalog =>
          rw [hcatalog]
          exact hold
      | insert id info _ hnew _ hcatalog =>
          intro id' info' hinfo
          rw [hcatalog, HashMap.lookup_insert, if_neg]
          · exact hold id' info' hinfo
          · rintro rfl
            cases hnew.symm.trans (hold id' info' hinfo)
      | drop _ hgone heditions =>
          rw [catalogs_present hpresent] at hmore
          unfold World.catalogs at hmore
          rw [hgone, if_pos rfl, heditions, List.dropLast_concat] at hmore
          have := congrArg List.length hmore
          rw [List.length_append, List.length_singleton] at this
          omega
  · -- a thread knows of an entry from before, or has just read it
    have hold (hregion : (know u).tup.region = some (id, info)) : (post t o a w).Known id info :=
      (h.region hregion).mono hstep.kept
    by_cases hut : u = t
    · subst hut
      rw [Function.update_self] at hu
      by_cases hteach : o.teachesTup = false
      · exact hold (by rwa [(next_recalls _ _ _).tup hteach] at hu)
      cases o with
      | catalogGet id' =>
          have ha : a = w.shared.catalog.lookup id' := hc
          have hu : a.map (id', ·) = some (id, info) := hu
          rw [ha] at hu
          obtain ⟨info', hinfo, he⟩ := Option.map_eq_some_iff.mp hu
          cases he
          exact (h.current_known (hl.present hm) hinfo).mono hstep.kept
      | verb v =>
          cases v with
          | regMr =>
              cases a with
              | none => exact hold hu
              | some reg => exact hold hu
          | _ => exact absurd rfl hteach
      | tcpAccept =>
          cases a with
          | none => exact hold hu
          | some c => exact hold hu
      | catalogSnapshot | groupsGetPd | groupsPush | tuplesInsert => exact hold hu
      | tuplesGet | takeService | exit => cases hu
      | _ => exact absurd rfl hteach
    · rw [Function.update_of_ne hut] at hu
      exact hold hu
  · rcases made_post hl ho hm r hr with hr | ⟨_, info, hregion, hrange⟩
    · exact (h.made r hr).mono hstep.kept
    · exact ⟨info, (h.region hregion).mono hstep.kept, hrange⟩

end Steps

/-! ## 3. Every run -/

section Runs

variable {w : World} {know : Tid → Know} {prog : Tid → Code (Option Loop)}

theorem editions_start : Editions {} fun t => (firstKnow t).tup.region where
  current _ := ⟨[], rfl⟩
  grow := List.pairwise_singleton _ _
  region {t} _ _ e := by cases t <;> cases e
  made _ hr := by cases hr

theorem editions_watched (hw : provider.Watched protocol {} firstLoop firstKnow w prog know) :
    Editions w fun t => (know t).tup.region :=
  hw.invariant (I := fun w know => Editions w fun t => (know t).tup.region) provider_follows
    entry_first editions_start fun hw h _ _ _ hm hc =>
      h.step (lives_watched hw) (owned_watched hw) hm hc

end Runs

end Rdmalib
