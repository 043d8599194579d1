/-
  File:      Rdmalib/System/Snapshots.lean
  Subject:   What a successful `update` leaves in a reader: the catalog at one instant of the call,
             with the keys of the registrations made for its group.

  * `Recorded` -- what the records of a run say: regions whose registration returned are in the
    catalog, `ingest` takes every exchange, and what an update leaves is the exchange of its call;
  * `Refreshes` -- what the reader has then, in the words of the catalog;
  * result: every update that returns `Ok` has it (`update_refreshes`).
-/
import Rdmalib.Readers.Cache
import Rdmalib.System.Exchanges

namespace Rdmalib

open Base

open Function (update)

/-! ## 1. What is recorded -/

/-- By this instant the region had this entry in the catalog. -/
def World.KnownBy (w : World) (b : Instant) (id : UInt32) (info : RegionInfo) : Prop :=
  ∃ n cat, w.catalogs[n]? = some cat ∧ n + 1 ≤ b.editions ∧ cat.lookup id = some info

/-- The caches are those that an exchange of the update's call leaves. -/
def Refreshed (w : World) (call : Option (UInt32 × Instant)) (g : UInt32) (e : Instant)
    (st : RemoteMemoryProvider) : Prop :=
  ∃ b regions ts active, call = some (g, b) ∧ w.Exchange g b e (.metadata regions, .tuples g ts) ∧
    st.metadata = regions.map RemoteMemoryProvider.metadataOf ∧
      st.regions = recached g regions ts active

/-- **What the records say.** -/
structure Recorded (w : World) (V : Tid → Party) : Prop where
  inserted : ∀ {t id}, (V t).inserted = some id → ∃ info, w.KnownBy w.now id info
  registered : ∀ r ∈ w.log.records, ∀ id, r.note = .registered id →
    ∃ info, w.KnownBy r.instant id info
  ingested : ∀ r ∈ w.log.records, ∀ g result, r.note = .ingested g result → result = .ok ()
  returned : ∀ r earlier, (r :: earlier) <:+ w.log.records → ∀ i g st, r.thread = .reader i →
    r.note = .updateReturns g (.ok ()) st → Refreshed w (callOf i earlier) g r.instant st

section Records

variable {w w' : World} {V : Tid → Party} {t : Tid} {o : Op} {a : o.Ans} {b b' : Instant}
variable {id g : UInt32} {info : RegionInfo} {k : Party}

theorem World.KnownBy.mono (h : w.KnownBy b id info) (hg : w.Grows w') (hb : b.Upto b') :
    w'.KnownBy b' id info := by
  obtain ⟨n, cat, hcat, hn, hinfo⟩ := h
  exact ⟨n, cat, kept_at hg.catalogs hcat, hn.trans hb.1, hinfo⟩

theorem Refreshed.mono {call : Option (UInt32 × Instant)} {e : Instant} {st : RemoteMemoryProvider}
    (h : Refreshed w call g e st) (hg : w.Grows w') : Refreshed w' call g e st := by
  obtain ⟨b, regions, ts, active, hcall, hex, hst⟩ := h
  exact ⟨b, regions, ts, active, hcall, hex.mono hg .rfl .rfl, hst⟩

/-- An entry that is inserted is in the catalog from now on. -/
theorem inserted_known {know : Tid → Know} (hl : Lives w know)
    (hm : may (know t) (.catalogInsert id info)) (a : Op.Ans (.catalogInsert id info)) :
    (post t (.catalogInsert id info) a w).KnownBy (post t (.catalogInsert id info) a w).now id
      info := by
  have hgone : w.shared.gone = false := hl.present (t := t) ⟨by rw [hm.1]; rfl, hm.2.1⟩
  have hgone' : (post t (.catalogInsert id info) a w).shared.gone = false := hgone
  refine ⟨w.shared.editions.length, w.shared.catalog.insert id info, ?_, ?_, ?_⟩
  · rw [catalogs_present hgone']
    show (w.shared.editions ++ [_])[_]? = _
    rw [List.getElem?_append_right (Nat.le_refl _), Nat.sub_self]
    rfl
  · show _ ≤ (w.shared.editions ++ [_]).length
    rw [List.length_append]
    exact Nat.le_refl _
  · rw [HashMap.lookup_insert, if_pos rfl]

/-- Who was inserted last only an insertion changes. -/
theorem next_inserted (ho : ∀ id info, o ≠ .catalogInsert id info) :
    (k.next o a).inserted = k.inserted := by
  cases o with
  | catalogInsert id info => exact absurd rfl (ho id info)
  | tcpConnect | tcpAccept | groupsPush => cases a <;> rfl
  | send =>
      obtain ⟨a, n⟩ := a
      cases a <;> rfl
  | receive =>
      obtain ⟨a, n⟩ := a
      cases a with
      | error e => rfl
      | ok m =>
          show (k.hears m).inserted = k.inserted
          unfold Party.hears
          split <;> rfl
  | note n => cases n <;> rfl
  | verb v =>
      obtain ⟨refused, hk⟩ := k.next_verb v a
      rw [hk]
  | _ => rfl

end Records

section RecordedRuns

variable {w : World} {κ : Tid → Both} {prog : Tid → Code (Option Loop)}

/-- What a reader has heard in its update is an exchange of this update. -/
theorem Talked.heard_exchange (hw : Talked w prog κ) {i : Nat} {g : UInt32} {x : Message × Message}
    (hcall : (view w κ (.reader i)).call = some g)
    (hheard : (view w κ (.reader i)).heard = [x.1, x.2]) :
    ∃ b, callOf i w.log.records = some (g, b) ∧ w.Exchange g b w.now x := by
  have h := attending_watched hw i
  rw [h.calls] at hcall
  obtain ⟨⟨g', b⟩, hb, rfl⟩ := Option.map_eq_some_iff.mp hcall
  exact ⟨b, hb, h.heard hb hheard⟩

theorem Recorded.acts (hw : Talked w prog κ) (h : Recorded w (view w κ)) {t : Tid} {o : Op}
    {a : o.Ans} (hm : may (κ t).1 o) (hmay : (view w κ t).may o) :
    Recorded (post t o a w) (update (view w κ) t ((view w κ t).next o a)) := by
  have hg : w.Grows (post t o a w) := hw.grows hm
  have hreader {i : Nat} (hi : (view w κ t).role = .reader i) : t = .reader i :=
    ((conversing_watched hw).role t).symm.trans hi
  have hinserted {u : Tid} {id : UInt32}
      (hu : (update (view w κ) t ((view w κ t).next o a) u).inserted = some id) :
      ∃ info, (post t o a w).KnownBy (post t o a w).now id info := by
    have hold {k : Tid} (hk : (view w κ k).inserted = some id) :
        ∃ info, (post t o a w).KnownBy (post t o a w).now id info := by
      obtain ⟨info, hinfo⟩ := h.inserted hk
      exact ⟨info, hinfo.mono hg hg.now⟩
    by_cases hut : u = t
    · subst hut
      rw [Function.update_self] at hu
      by_cases ho : ∃ id info, o = .catalogInsert id info
      · obtain ⟨id', info, rfl⟩ := ho
        cases hu
        exact ⟨info, inserted_known (lives_watched hw.watched) hm a⟩
      · rw [next_inserted fun id info hid => ho ⟨id, info, hid⟩] at hu
        exact hold hu
    · rw [Function.update_of_ne hut] at hu
      exact hold hu
  -- what was recorded before stays so
  have hregistered : ∀ r ∈ w.log.records, ∀ id, r.note = .registered id →
      ∃ info, (post t o a w).KnownBy r.instant id info := fun r hr id hn => by
    obtain ⟨info, hinfo⟩ := h.registered r hr id hn
    exact ⟨info, hinfo.mono hg .rfl⟩
  have hreturned : ∀ r earlier, (r :: earlier) <:+ w.log.records → ∀ i g st, r.thread = .reader i →
      r.note = .updateReturns g (.ok ()) st →
        Refreshed (post t o a w) (callOf i earlier) g r.instant st :=
    fun r earlier hr i g st hi hn => (h.returned r earlier hr i g st hi hn).mono hg
  rcases post_records (t := t) (o := o) (a := a) (w := w) with hsame | ⟨n, rfl, hmore⟩
  · exact ⟨hinserted, hsame ▸ hregistered, hsame ▸ h.ingested, hsame ▸ hreturned⟩
  refine ⟨hinserted, fun r hr id hn => ?_, fun r hr g result hn => ?_,
    fun r earlier hr i g st hi hn => ?_⟩
  · rw [hmore] at hr
    rcases List.mem_cons.mp hr with rfl | hr
    · cases hn
      obtain ⟨info, hinfo⟩ := h.inserted hmay
      exact ⟨info, hinfo.mono hg .rfl⟩
    · exact hregistered r hr id hn
  · rw [hmore] at hr
    rcases List.mem_cons.mp hr with rfl | hr
    · cases hn
      obtain ⟨⟨i, hi⟩, hcall, c, j, x, _, hheard, hserves⟩ := hmay
      cases hreader hi
      obtain ⟨_, _, l, found, _, _, rfl⟩ := hw.heard_exchange hcall hheard
      exact hserves ⟨_, _, rfl⟩
    · exact h.ingested r hr g result hn
  · rw [hmore] at hr
    rcases List.suffix_cons_iff.mp hr with hhead | hr
    · cases hhead
      cases hn
      cases (show t = .reader i from hi)
      obtain ⟨_, hcall, hreturns⟩ := hmay
      obtain ⟨regions, ts, active, hheard, hst⟩ := hreturns rfl
      obtain ⟨b, hb, hex⟩ := hw.heard_exchange (x := (.metadata regions, .tuples g ts)) hcall hheard
      exact ⟨b, regions, ts, active, hb, hex.mono hg .rfl .rfl, hst⟩
    · exact hreturned r earlier hr i g st hi hn

/-- **The records of every run.** -/
theorem recorded_watched (h : Talked w prog κ) : Recorded w (view w κ) := by
  refine h.invariant (I := Recorded) ?_ (fun hw hI t o a _ hm hmay _ _ => hI.acts hw hm hmay)
    fun {w κ prog} hw hI c g n hm _ _ _ => ?_
  · exact ⟨(fun hid => by cases hid), nofun, nofun,
      fun r earlier hr => by cases List.suffix_nil.mp hr⟩
  · have hg : w.Grows (post .service (.spawnSession c g) n w) := hw.grows hm
    refine ⟨fun {u id} hu => ?_, fun r hr id hn => ?_, hI.ingested,
      fun r earlier hr i g st hi hn => (hI.returned r earlier hr i g st hi hn).mono hg⟩
    · have hu : (view w κ u).inserted = some id := by
        rw [proj_update Party.inserted (k := (view w κ (.session n)).take c g)
          (by rw [Function.update_of_ne Tid.noConfusion]; rfl) u,
            proj_update Party.inserted (by rfl) u] at hu
        exact hu
      obtain ⟨info, hinfo⟩ := hI.inserted hu
      exact ⟨info, hinfo.mono hg hg.now⟩
    · obtain ⟨info, hinfo⟩ := hI.registered r hr id hn
      exact ⟨info, hinfo.mono hg .rfl⟩

end RecordedRuns

/-! ## 2. The tables of an exchange -/

section Tables

variable {l : List (UInt32 × RegionInfo)} {found : List (Except Fault (Option Tuple))}
variable {id g : UInt32} {info : RegionInfo} {r : Except Fault (Option Tuple)}
variable {ts : List TupleDesc} {d : TupleDesc} {e : UInt32 × RegionInfo}

theorem mem_tupleDescs (h : d ∈ tupleDescs id r) : d.regionId = id := by
  unfold tupleDescs at h
  split at h
  · cases List.mem_singleton.mp h
    rfl
  · cases h

theorem mem_tuplesOf :
    d ∈ tuplesOf l found ↔ ∃ e r, (e, r) ∈ l.zip found ∧ d ∈ tupleDescs e.1 r := by
  unfold tuplesOf
  rw [List.mem_flatMap]
  constructor
  · rintro ⟨⟨e, r⟩, he, hd⟩
    exact ⟨e, r, he, hd⟩
  · rintro ⟨e, r, he, hd⟩
    exact ⟨(e, r), he, hd⟩

/-- An id is listed once, and answered once. -/
theorem answered_once (hids : (l.map Prod.fst).Nodup) (hlen : l.length = found.length)
    {e' : UInt32 × RegionInfo} {r' : Except Fault (Option Tuple)} (h : (e, r) ∈ l.zip found)
    (h' : (e', r') ∈ l.zip found) (hid : e.1 = e'.1) : r = r' := by
  have hkeys : ((l.zip found).map fun x => x.1.1).Nodup := by
    have hfst : (l.zip found).map Prod.fst = l := List.map_fst_zip (Nat.le_of_eq hlen)
    rw [← hfst, List.map_map] at hids
    exact hids
  exact congrArg Prod.snd (List.inj_on_of_nodup_map hkeys h h' hid)

theorem lastTuple_mem (h : lastTuple id ts = some d) : d ∈ ts ∧ d.regionId = id := by
  have hmem := List.mem_filter.mp (List.mem_of_getLast? h)
  exact ⟨hmem.1, of_decide_eq_true hmem.2⟩

theorem lastTuple_isSome (hd : d ∈ ts) (hid : d.regionId = id) :
    (lastTuple id ts).isSome = true := by
  unfold lastTuple
  rw [List.getLast?_isSome]
  exact List.ne_nil_of_mem (List.mem_filter.mpr ⟨hd, decide_eq_true hid⟩)

/-- The tuple of a listed region is the one that `tuple_of` answered for it. -/
theorem lastTuple_answered (hids : (l.map Prod.fst).Nodup) (hlen : l.length = found.length)
    (h : ((id, info), r) ∈ l.zip found) :
    lastTuple id (tuplesOf l found) = (tupleDescs id r).head? := by
  have hown {d : TupleDesc} (hd : lastTuple id (tuplesOf l found) = some d) :
      d ∈ tupleDescs id r := by
    obtain ⟨hmem, hid⟩ := lastTuple_mem hd
    obtain ⟨e', r', he', hd'⟩ := mem_tuplesOf.mp hmem
    have hid' : e'.1 = id := (mem_tupleDescs hd').symm.trans hid
    cases answered_once hids hlen h he' hid'.symm
    rwa [← hid']
  cases hlast : lastTuple id (tuplesOf l found) with
  | none =>
      cases hdescs : tupleDescs id r with
      | nil => rfl
      | cons d rest =>
          have hd : d ∈ tupleDescs id r := by
            rw [hdescs]
            exact List.mem_cons_self
          have hsome := lastTuple_isSome (mem_tuplesOf.mpr ⟨_, _, h, hd⟩) (mem_tupleDescs hd)
          rw [hlast] at hsome
          cases hsome
  | some d =>
      have hd := hown hlast
      unfold tupleDescs at hd ⊢
      split at hd
      · cases List.mem_singleton.mp hd
        rfl
      · cases hd

/-- The region of a listed key is the one listed with its id. -/
theorem lastRegion_listed (hids : (l.map Prod.fst).Nodup) (h : (id, info) ∈ l) :
    lastRegion (info.desc id).key (l.map fun e => e.2.desc e.1) = some (info.desc id) := by
  have hmem : info.desc id ∈ l.map fun e => e.2.desc e.1 :=
    List.mem_map_of_mem (f := fun e : UInt32 × RegionInfo => e.2.desc e.1) h
  have hkey := List.mem_map_of_mem (f := RegionDesc.key) hmem
  obtain ⟨region, hregion⟩ := Option.isSome_iff_exists.mp (lastRegion_isSome.mpr hkey)
  have hlisted := (List.mem_filter.mp (List.mem_of_getLast? hregion)).1
  obtain ⟨e, he, rfl⟩ := List.mem_map.mp hlisted
  have hid : e.1 = id := congrArg Prod.snd (lastRegion_key hregion)
  cases List.inj_on_of_nodup_map hids he h hid
  exact hregion

/-- What `get_remote_mr` returns for the group whose exchange was ingested. -/
theorem recached_getRemoteMr {st : RemoteMemoryProvider} {regions : List RegionDesc}
    {active : HashMap (String × UInt32) (List CachedRegion)} {region : RegionDesc}
    (hst : st.regions = recached g regions ts active)
    (hregion : lastRegion region.key regions = some region) :
    st.getRemoteMr (RemoteMemoryProvider.metadataOf region) (some g) =
      (entryOf g ts region).map regionOf := by
  have hcached : cachedUnder st.regions region.key =
      (cachedUnder active region.key).filter (·.group ≠ g) ++ (entryOf g ts region).toList := by
    rw [hst, recached_cached, hregion]
  rw [getRemoteMr_eq]
  show ((cachedUnder st.regions region.key).find? fun e => decide (e.group = g)).map regionOf = _
  have hothers : ((cachedUnder active region.key).filter (·.group ≠ g)).find?
      (fun e => decide (e.group = g)) = none := by
    rw [List.find?_eq_none]
    intro e he
    have hother : e.group ≠ g := of_decide_eq_true (List.mem_filter.mp he).2
    exact fun hg => hother (of_decide_eq_true hg)
  rw [hcached, List.find?_append, hothers, Option.none_or]
  cases hentry : entryOf g ts region with
  | none => rfl
  | some e =>
      have hgroup : e.group = g := entryOf_group (by rw [hentry]; exact List.mem_singleton_self e)
      have hfound : [e].find? (fun e => decide (e.group = g)) = some e :=
        List.find?_cons_of_pos (decide_eq_true hgroup)
      show ([e].find? _).map regionOf = _
      rw [hfound]

end Tables

/-! ## 3. Registrations and their domains -/

/-- The registration was made in its group's domain, as this was at some earlier time of the run. -/
def MadeInDomain (c : Config Tid Op World Loop Op.Ans) (r : Registration) : Prop :=
  r ∈ c.world.hca.made ∧ ∃ c₀, fitting.Reach start c₀ ∧ fitting.Reach c₀ c ∧
    Placed c₀.world.shared.groups r

theorem made_in_domain {c : Config Tid Op World Loop Op.Ans} (h : fitting.Reach start c) :
    ∀ r ∈ c.world.hca.made, MadeInDomain c r := by
  induction h with
  | refl => nofun
  | @tail d e hd hstep ih =>
      intro r hr
      have hold (hr : r ∈ d.world.hca.made) : ∃ c₀, fitting.Reach start c₀ ∧ fitting.Reach c₀ e ∧
          Placed c₀.world.shared.groups r := by
        obtain ⟨_, c₀, h₀, hbetween, hplaced⟩ := ih r hr
        exact ⟨c₀, h₀, hbetween.tail hstep, hplaced⟩
      refine ⟨hr, ?_⟩
      obtain ⟨κ, hw⟩ := System.Reach.watched (protocol.prod talks) firstBoth hd
      cases hstep with
      | loop t l ht => exact hold hr
      | act t a ht hc =>
          have hm := (hw.may fitting_follows bothEntry_first ht).1
          have hlives := lives_watched (Talked.watched hw)
          rcases made_post hlives (owned_watched (Talked.watched hw)) hm r hr with hr | ⟨hgone, _⟩
          · exact hold hr
          · have hafter := domains_watched (Talked.watched (hw.act t a ht hc))
            exact ⟨_, hd.tail (.act t a ht hc), .refl, hafter.looked.made hgone r hr⟩

/-! ## 4. `register_typed` -/

/-- What `register_typed` captures of the region. -/
def captured (name : String) (buffer : Buffer) : RegionInfo :=
  { name, remoteAddr := buffer.ptr, size := buffer.size,
    elemSize := UInt32.ofNat buffer.elemSize, elemAlign := UInt32.ofNat buffer.elemAlign,
    elemType := buffer.elemType }

/-- **What a `register_typed` that returns has done**: what it captured is in the catalog before its
    return is on record. -/
theorem registerTyped_runs {name : String} {buffer : Buffer} {tr : Trace Op Op.Ans} {id : UInt32}
    (h : (registerTyped name buffer).run.Runs tr (.ok id)) :
    tr = [⟨.nextIdGet, id⟩, ⟨.nextIdSet (id + 1), ()⟩, ⟨.ownersInsert id buffer, ()⟩,
      ⟨.catalogInsert id (captured name buffer), ()⟩, ⟨.note (.registered id), ()⟩] := by
  unfold registerTyped at h
  by_cases hzero : buffer.elemSize = 0
  · rw [if_pos hzero] at h
    obtain ⟨_, hfault⟩ := h
    cases hfault
  rw [if_neg hzero] at h
  obtain ⟨id', rest, rfl, h⟩ := h
  change Prog.Runs (if id'.toNat + 1 ≥ 2 ^ 32 then _ else _ : Sys UInt32).run rest _ at h
  by_cases hbound : id'.toNat + 1 ≥ 2 ^ 32
  · rw [if_pos hbound] at h
    obtain ⟨_, hfault⟩ := h
    cases hfault
  rw [if_neg hbound] at h
  obtain ⟨_, _, rfl, _, _, rfl, _, _, rfl, _, _, rfl, rfl, hid⟩ := h
  cases hid
  rfl

/-! ## 5. A successful update -/

/-- At some instant between two the catalog had this value. -/
def World.During (w : World) (b e : Instant) (cat : HashMap UInt32 RegionInfo) : Prop :=
  ∃ n, w.catalogs[n]? = some cat ∧ b.editions ≤ n + 1 ∧ n + 1 ≤ e.editions

/-- `get_remote_mr` returns the range captured at registration, with the key of a registration made
    of it in the group's domain. -/
structure Obtains (c : Config Tid Op World Loop Op.Ans) (st : RemoteMemoryProvider) (g id : UInt32)
    (info : RegionInfo) (rkey : UInt32) : Prop where
  region : st.getRemoteMr (RemoteMemoryProvider.metadataOf (info.desc id)) (some g) =
    some { remoteAddr := info.remoteAddr, size := info.size, rkey, group := g,
           elemSize := info.elemSize, elemAlign := info.elemAlign, elemType := info.elemType }
  made : ∃ mr, MadeInDomain c ⟨mr, (id, g)⟩ ∧ mr.addr = info.remoteAddr ∧ mr.size = info.size ∧
    mr.rkey = rkey

/-- What `get_remote_mr` returns for a region of the catalog, by what `tuple_of` answered. -/
def Obtained (c : Config Tid Op World Loop Op.Ans) (st : RemoteMemoryProvider) (g id : UInt32)
    (info : RegionInfo) : Except Fault (Option Tuple) → Prop
  | .ok (some (_, _, rkey)) => Obtains c st g id info rkey
  | _ => st.getRemoteMr (RemoteMemoryProvider.metadataOf (info.desc id)) (some g) = none

/-- **What a reader has of the catalog** after an update of `g` between two instants. -/
structure Refreshes (c : Config Tid Op World Loop Op.Ans) (g : UInt32) (b e : Instant)
    (cat : HashMap UInt32 RegionInfo) (st : RemoteMemoryProvider) : Prop where
  metadata : st.metadata.Perm
    ((HashMap.toList cat).map fun entry => RemoteMemoryProvider.metadataOf (entry.2.desc entry.1))
  once : (st.metadata.map (·.id)).Nodup
  /-- Every registration that returned before the update began. -/
  registered : ∀ r ∈ c.world.log.records, ∀ id, r.note = .registered id →
    r.instant.records < b.records →
      ∃ info, cat.lookup id = some info ∧ c.world.KnownBy r.instant id info
  /-- Every region was asked for during the update. -/
  regions : ∀ id info, cat.lookup id = some info →
    ∃ result, c.world.Answered g b e (id, info) result ∧ Obtained c st g id info result
  /-- A region that is not empty is looked up, unless the device refused it during the update. -/
  obtained : ∀ id info, cat.lookup id = some info → info.size ≠ 0 →
    (∀ x ∈ c.world.hca.refused, x.key = (id, g) → b.records ≤ x.instant.records →
      e.records ≤ x.instant.records) → ∃ rkey, Obtains c st g id info rkey

section Refresh

variable {c : Config Tid Op World Loop Op.Ans} {st : RemoteMemoryProvider} {g id : UInt32}
variable {b e : Instant} {info : RegionInfo} {κ : Tid → Both}
variable {l : List (UInt32 × RegionInfo)} {found : List (Except Fault (Option Tuple))}

/-- A region that was registered by then is in every later value of the catalog. -/
theorem known_during {cat : HashMap UInt32 RegionInfo} {n : Nat} {i : Instant}
    (hed : Editions c.world fun t => (κ t).1.tup.region) (hcat : c.world.catalogs[n]? = some cat)
    (hknown : c.world.KnownBy i id info) (hi : i.editions ≤ n + 1) : cat.lookup id = some info := by
  obtain ⟨m, cat', hcat', hm, hinfo⟩ := hknown
  obtain ⟨hn, rfl⟩ := List.getElem?_eq_some_iff.mp hcat
  obtain ⟨hm', rfl⟩ := List.getElem?_eq_some_iff.mp hcat'
  rcases Nat.lt_or_ge m n with hlt | hge
  · exact List.pairwise_iff_getElem.mp hed.grow m n hm' hn hlt id info hinfo
  · obtain rfl : m = n := by omega
    exact hinfo

/-- A `tuple_of` whose registration the device did not refuse returned a tuple. -/
theorem answered_tuple {w : World} {result : Except Fault (Option Tuple)}
    (h : w.Answered g b e (id, info) result) (hsize : info.size ≠ 0)
    (hgranted : ∀ x ∈ w.hca.refused, x.key = (id, g) → b.records ≤ x.instant.records →
      e.records ≤ x.instant.records) : ∃ tuple, result = .ok (some tuple) := by
  cases result with
  | error f =>
      obtain ⟨r, earlier, _, _, _, hto, hfailed⟩ := h.noted
      rcases hfailed f rfl with hempty | ⟨_, x, hx, hof, hsince, hbefore⟩
      · exact absurd hempty hsize
      · exact absurd ((hgranted x hx hof.key hsince).trans hbefore) (Nat.not_le.mpr hto)
  | ok tuple =>
      cases tuple with
      | none => exact absurd rfl h.present
      | some tuple => exact ⟨tuple, rfl⟩

/-- What the reader obtains of a region that was listed and answered. -/
theorem obtained_answered {regions : HashMap (String × UInt32) (List CachedRegion)}
    {result : Except Fault (Option Tuple)} (hreach : fitting.Reach start c)
    (hw : Talked c.world c.prog κ) (hids : (l.map Prod.fst).Nodup)
    (hlen : l.length = found.length) (hmem : ((id, info), result) ∈ l.zip found)
    (hknown : c.world.Known id info) (hanswered : c.world.Answered g b e (id, info) result)
    (hst : st.regions = recached g (l.map fun e => e.2.desc e.1) (tuplesOf l found) regions) :
    Obtained c st g id info result := by
  have hlisted : (id, info) ∈ l := (List.of_mem_zip hmem).1
  have hmr := recached_getRemoteMr hst (lastRegion_listed hids hlisted)
  unfold entryOf at hmr
  rw [show lastTuple (info.desc id).id _ = _ from lastTuple_answered hids hlen hmem] at hmr
  cases result with
  | error f => exact hmr
  | ok tuple =>
  cases tuple with
  | none => exact hmr
  | some tuple =>
      obtain ⟨r, earlier, hr, hnote, _⟩ := hanswered.noted
      have ho := owned_watched hw.watched
      have hed := editions_watched hw.watched
      obtain ⟨mr, hmade, rfl⟩ := ho.served.returned r (hr.subset List.mem_cons_self) hnote
      -- the registration is of the range of the region's entry, of which there is one
      obtain ⟨info', hknown', haddr, hsize⟩ := hed.made _ hmade
      cases hed.agree hknown' hknown
      refine ⟨hmr.trans ?_, mr, made_in_domain hreach _ hmade, haddr, hsize, rfl⟩
      rw [← haddr, ← hsize]
      rfl

theorem refreshes_exchange {regions : List RegionDesc} {ts : List TupleDesc}
    {active : HashMap (String × UInt32) (List CachedRegion)} (hreach : fitting.Reach start c)
    (hw : Talked c.world c.prog κ) {begin : Record} (hbegin : begin ∈ c.world.log.records)
    (hex : c.world.Exchange g begin.instant e (.metadata regions, .tuples g ts))
    (hmeta : st.metadata = regions.map RemoteMemoryProvider.metadataOf)
    (hst : st.regions = recached g regions ts active) :
    ∃ cat, c.world.During begin.instant e cat ∧ Refreshes c g begin.instant e cat st := by
  obtain ⟨l, found, ⟨n, cat, hcat, hfrom, hto, hperm⟩, hfound, hx⟩ := hex
  cases hx
  have hed := editions_watched hw.watched
  have hids : (l.map Prod.fst).Nodup :=
    (hperm.map Prod.fst).nodup_iff.mpr (HashMap.nodup_toList cat)
  have hlen : l.length = found.length := hfound.length_eq
  have hregions {id : UInt32} {info : RegionInfo} (hinfo : cat.lookup id = some info) :
      ∃ result, c.world.Answered g begin.instant e (id, info) result ∧
        Obtained c st g id info result := by
    have hlisted : (id, info) ∈ l := hperm.mem_iff.mpr (HashMap.mem_toList.mpr hinfo)
    rw [← List.map_fst_zip (Nat.le_of_eq hlen)] at hlisted
    obtain ⟨⟨entry, result⟩, hmem, he⟩ := List.mem_map.mp hlisted
    cases he
    have hanswered := List.forall₂_zip hfound hmem
    exact ⟨result, hanswered, obtained_answered hreach hw hids hlen hmem
      ⟨cat, List.mem_of_getElem? hcat, hinfo⟩ hanswered hst⟩
  refine ⟨cat, ⟨n, hcat, hfrom, hto⟩, ?_, ?_, fun r hr id hn hbefore => ?_,
    fun _ _ hinfo => hregions hinfo, fun id info hinfo hsize hgranted => ?_⟩
  · rw [hmeta, List.map_map]
    exact hperm.map _
  · rw [hmeta, List.map_map, List.map_map]
    exact hids
  · obtain ⟨info, hknown⟩ := (recorded_watched hw).registered r hr id hn
    have hearlier := (chronicle_watched hw).earlier hr hbegin hbefore
    exact ⟨info, known_during hed hcat hknown (hearlier.trans hfrom), hknown⟩
  · obtain ⟨result, hanswered, hobtained⟩ := hregions hinfo
    obtain ⟨⟨_, _, rkey⟩, rfl⟩ := answered_tuple hanswered hsize hgranted
    exact ⟨rkey, hobtained⟩

/-- **An update that returns `Ok` leaves the catalog of one instant.** In every run of the system,
    however its threads interleave and wherever their transfers fail: what a reader has after a
    successful update of `g` is the catalog that the provider had at an instant of this update,
    with the range and a key of each region that is not empty and whose registration for `g` was
    not refused by the device; `ingest` never refuses an exchange; and a `register_typed` that
    returns has inserted what it captured. -/
theorem update_refreshes (h : fitting.Reach start c) :
    (∀ r earlier, (r :: earlier) <:+ c.world.log.records → ∀ i g st, r.thread = .reader i →
      r.note = .updateReturns g (.ok ()) st → ∃ b cat, callOf i earlier = some (g, b) ∧
        c.world.During b r.instant cat ∧ Refreshes c g b r.instant cat st) ∧
    (∀ r ∈ c.world.log.records, ∀ g result, r.note = .ingested g result → result = .ok ()) ∧
    ∀ name buffer tr id, (registerTyped name buffer).run.Runs tr (.ok id) →
      tr = [⟨.nextIdGet, id⟩, ⟨.nextIdSet (id + 1), ()⟩, ⟨.ownersInsert id buffer, ()⟩,
        ⟨.catalogInsert id (captured name buffer), ()⟩, ⟨.note (.registered id), ()⟩] := by
  obtain ⟨κ, hw⟩ := System.Reach.watched (protocol.prod talks) firstBoth h
  have hrecorded := recorded_watched hw
  refine ⟨fun r earlier hr i g st hi hn => ?_, hrecorded.ingested, fun _ _ _ _ => registerTyped_runs⟩
  obtain ⟨b, regions, ts, active, hcall, hex, hmeta, hst⟩ :=
    hrecorded.returned r earlier hr i g st hi hn
  obtain ⟨begin, hbegin, _, _, rfl⟩ := callOf_recorded hcall
  have hbegin : begin ∈ c.world.log.records := hr.subset (List.mem_cons_of_mem _ hbegin)
  obtain ⟨cat, hduring, hrefreshes⟩ := refreshes_exchange h hw hbegin hex hmeta hst
  exact ⟨_, cat, hcall, hduring, hrefreshes⟩

/-- What the last record says, if it is the return of a successful update. -/
def lastRefresh : List Record → Option (Nat × UInt32 × RemoteMemoryProvider)
  | ⟨.reader i, _, .updateReturns g (.ok ()) st⟩ :: _ => some (i, g, st)
  | _ => none

theorem lastRefresh_eq {rs : List Record} {i : Nat} (h : lastRefresh rs = some (i, g, st)) :
    ∃ e earlier, rs = ⟨.reader i, e, .updateReturns g (.ok ()) st⟩ :: earlier := by
  unfold lastRefresh at h
  split at h
  · cases h
    exact ⟨_, _, rfl⟩
  · cases h

/-- A second region is registered between two updates; the second one asks on the same connection. -/
def untilRefreshed : List Move :=
  untilServed ++ meets 0 .established :: moves (.reader 0) 6 ++
    calls (.registerTyped "b" ⟨8192, 4, 2, 2, "", by decide⟩) :: moves .app 6 ++
    asks 0 (.update 7) :: moves (.reader 0) 2 ++ moves (.session 0) 16 ++ moves (.reader 0) 4

/-- What a reader looks up for a group, of each region that it has. -/
def looksUp (st : RemoteMemoryProvider) (g : UInt32) : List (Option RemoteMemoryRegion) :=
  st.metadata.map fun m => st.getRemoteMr m (some g)

theorem update_refreshes_second : ∃ c st e earlier, fitting.Reach start c ∧
    c.world.log.records = ⟨.reader 0, e, .updateReturns 7 (.ok ()) st⟩ :: earlier ∧
    looksUp st 7 = [some ⟨8192, 8, 2, 7, 2, 2, ""⟩, some ⟨4096, 8, 1, 7, 1, 1, ""⟩] ∧
    ∃ b cat, callOf 0 earlier = some (7, b) ∧ c.world.During b e cat ∧ Refreshes c 7 b e cat st := by
  have hplay : (((provider.restrict FramesFit).play start untilRefreshed).bind fun c =>
      (lastRefresh c.world.log.records).map fun r => (r.1, r.2.1, looksUp r.2.2 7)) =
        some (0, 7, [some ⟨8192, 8, 2, 7, 2, 2, ""⟩, some ⟨4096, 8, 1, 7, 1, 1, ""⟩]) := by
    decide +kernel
  obtain ⟨c, hc, hlast⟩ := Option.bind_eq_some_iff.mp hplay
  obtain ⟨⟨i, g, st⟩, hrefresh, he⟩ := Option.map_eq_some_iff.mp hlast
  obtain ⟨rfl, he⟩ := Prod.mk.inj he
  obtain ⟨rfl, hfound⟩ := Prod.mk.inj he
  obtain ⟨e, earlier, hrecords⟩ := lastRefresh_eq hrefresh
  have hreach : fitting.Reach start c := System.play_reach (S := provider.restrict FramesFit) hc
  have hlast :
      (⟨.reader 0, e, .updateReturns 7 (.ok ()) st⟩ :: earlier) <:+ c.world.log.records := by
    simp only [hrecords, List.suffix_refl]
  exact ⟨c, st, e, earlier, hreach, hrecords, hfound,
    (update_refreshes hreach).1 _ earlier hlast 0 7 st rfl rfl⟩

end Refresh

end Rdmalib
