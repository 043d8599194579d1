/-
  File:      Rdmalib/System/Ownership.lean
  Subject:   Registrations and the buffers they cover.

  * `Ids`, `Listed`, `Registered` -- the ids handed out, the catalog, and the live registrations,
    each with what the threads know about them;
  * `owned_watched` -- together with the threads' lives they hold in every run.
-/
import Rdmalib.System.Lifetimes

namespace Rdmalib

open Base

/-! ## 1. The invariant -/

/-- The buffer of region `id` is held, and `addr` and `size` are its address and size. -/
def Covers (owners : HashMap UInt32 Buffer) (id : UInt32) (addr size : UInt64) : Prop :=
  ∃ b, owners.lookup id = some b ∧ addr = b.ptr ∧ size = b.size

/-- The ids handed out, and where `register_typed` stands. -/
structure Ids (app : AppState) (catalog : HashMap UInt32 RegionInfo) (reg : RegisterKnow) : Prop where
  nodup : app.assigned.Nodup
  below : ∀ id ∈ app.assigned, id.toNat < app.nextId.toNat
  owners : ∀ {id b}, app.owners.lookup id = some b → id ∈ app.assigned
  newId : ∀ {id}, reg.newId = some id → id = app.nextId
  taken : ∀ {id}, reg.taken = some id → id ∉ app.assigned ∧ id.toNat < app.nextId.toNat
  owned : ∀ {id b}, reg.owned = some (id, b) →
    app.owners.lookup id = some b ∧ catalog.lookup id = none

/-- The catalog and the entries that threads have read from it. -/
structure Listed (owners : HashMap UInt32 Buffer) (catalog : HashMap UInt32 RegionInfo) (gone : Bool)
    (region : Tid → Option (UInt32 × RegionInfo)) : Prop where
  entries : ∀ {id info}, catalog.lookup id = some info → Covers owners id info.remoteAddr info.size
  gone : gone = true → catalog = ∅
  region : ∀ {t id info}, region t = some (id, info) → Covers owners id info.remoteAddr info.size

/-- The live registrations: each is stored in `tuples`, or held by a thread inside `tuple_of`. -/
structure Registered (owners : HashMap UInt32 Buffer) (shared : SharedState)
    (regs : List Registration) (asking : Tid → Option (UInt32 × UInt32)) (tup : Tid → TupleKnow) :
    Prop where
  covers : ∀ r ∈ regs, Covers owners r.key.1 r.mr.addr r.mr.size
  asked : ∀ {t key}, (tup t).asked = some key → asking t = some key
  stored : ∀ {key mr}, shared.tuples.lookup key = some mr → ⟨mr, key⟩ ∈ regs
  held : ∀ {t mr}, (tup t).held = some mr → ∃ key, (tup t).asked = some key ∧ ⟨mr, key⟩ ∈ regs
  apart : ∀ {t mr}, (tup t).held = some mr → ∀ key, shared.tuples.lookup key ≠ some mr
  alone : ∀ {t u mr}, (tup t).held = some mr → (tup u).held = some mr → t = u
  holder : ∀ r ∈ regs, shared.tuples.lookup r.key = some r.mr ∨ ∃ t, (tup t).held = some r.mr
  handles : ∀ r ∈ regs, ∀ r' ∈ regs, r.mr.mr = r'.mr.mr ∨ r.mr.rkey = r'.mr.rkey → r = r'
  cleared : shared.cleared = true → shared.tuples = ∅ ∧ regs = []

/-- Every live registration, and every entry of `tuples` that a thread has seen, was made for its
    key; so was every tuple that a `tuple_of` returned. -/
structure Served (hca : Hca) (seen : Tid → List ((UInt32 × UInt32) × MemoryRegion))
    (records : List Record) : Prop where
  live : ∀ r ∈ hca.regs, r ∈ hca.made
  seen : ∀ {t key mr}, (key, mr) ∈ seen t → ⟨mr, key⟩ ∈ hca.made
  returned : ∀ r ∈ records, ∀ {id g tuple}, r.note = .tupleOf id g (.ok (some tuple)) →
    ∃ mr, ⟨mr, (id, g)⟩ ∈ hca.made ∧ mr.tuple = tuple

structure Owned (w : World) (know : Tid → Know) : Prop where
  ids : Ids w.app w.shared.catalog (know .app).reg
  listed : Listed w.app.owners w.shared.catalog w.shared.gone fun t => (know t).tup.region
  registered : Registered w.app.owners w.shared w.hca.regs w.log.asking fun t => (know t).tup
  served : Served w.hca (fun t => (know t).tup.seen) w.log.records

theorem owned_start : Owned {} firstKnow where
  ids := ⟨List.nodup_nil, nofun, nofun, nofun,
    nofun, nofun⟩
  listed := ⟨nofun, fun _ => rfl, fun {t} _ _ h => by cases t <;> cases h⟩
  registered := ⟨nofun, (fun {t} _ h => by cases t <;> cases h),
    nofun, (fun {t} _ h => by cases t <;> cases h),
    (fun {t} _ h => by cases t <;> cases h), (fun {t} _ _ h => by cases t <;> cases h),
    nofun, nofun, nofun⟩
  served := ⟨nofun, (fun {t} _ _ h => by cases t <;> cases h), nofun⟩

/-! ## 2. Ids -/

section Ids

variable {app : AppState} {catalog : HashMap UInt32 RegionInfo} {reg : RegisterKnow} {id : UInt32}

theorem Ids.get (h : Ids app catalog reg) : Ids app catalog { newId := some app.nextId } where
  nodup := h.nodup
  below := h.below
  owners := h.owners
  newId e := by cases e; rfl
  taken e := by cases e
  owned e := by cases e

theorem Ids.take (h : Ids app catalog reg) (hid : reg.newId = some id)
    (hbound : id.toNat + 1 < 2 ^ 32) :
    Ids { app with nextId := id + 1 } catalog { taken := reg.newId } := by
  have hnext := h.newId hid
  have hsucc : (id + 1).toNat = id.toNat + 1 := by
    rw [UInt32.toNat_add]
    exact Nat.mod_eq_of_lt hbound
  refine ⟨h.nodup, fun i hi => ?_, h.owners, nofun, fun {i} e => ?_, nofun⟩
  · have := h.below i hi
    rw [← hnext] at this
    show i.toNat < (id + 1).toNat
    omega
  · have e : reg.newId = some i := e
    rw [hid] at e
    cases e
    refine ⟨fun hi => ?_, ?_⟩
    · have := h.below id hi
      rw [← hnext] at this
      omega
    · show id.toNat < (id + 1).toNat
      omega

theorem Ids.own (h : Ids app catalog reg) (hid : reg.taken = some id) (b : Buffer)
    (hcatalog : catalog.lookup id = none) :
    Ids { app with owners := app.owners.insert id b, assigned := id :: app.assigned } catalog
      { owned := some (id, b) } := by
  obtain ⟨hfresh, hbelow⟩ := h.taken hid
  refine ⟨List.nodup_cons.mpr ⟨hfresh, h.nodup⟩, fun i hi => ?_, fun {i b'} hi => ?_,
    nofun, nofun, fun {i b'} e => ?_⟩
  · rcases List.mem_cons.mp hi with rfl | hi
    · exact hbelow
    · exact h.below i hi
  · rw [HashMap.lookup_insert] at hi
    by_cases hii : i = id
    · exact hii ▸ List.mem_cons_self
    · rw [if_neg hii] at hi
      exact List.mem_cons_of_mem _ (h.owners hi)
  · cases e
    exact ⟨by rw [HashMap.lookup_insert, if_pos rfl], hcatalog⟩

/-- With nothing left of `register_typed`. -/
theorem Ids.rest {catalog' : HashMap UInt32 RegionInfo} (h : Ids app catalog reg) :
    Ids app catalog' {} :=
  ⟨h.nodup, h.below, h.owners, nofun, nofun, nofun⟩

end Ids

section Steps

variable {w : World} {know : Tid → Know} {t : Tid} {o : Op}

theorem Owned.ids_step (hl : Lives w know) (h : Owned w know) {a : o.Ans} (hm : may (know t) o)
    (hc : can t o w a) :
    Ids (post t o a w).app (post t o a w).shared.catalog
      (Function.update know t (next (know t) o a) .app).reg := by
  have hf := post_frame (t := t) (w := w) o a
  have hrole := hl.role t
  have hi := h.ids
  -- what is left of an operation of the application itself
  have happ {reg : RegisterKnow} {app : AppState} {catalog : HashMap UInt32 RegionInfo}
      (ht : (know t).role = .app) (hreg : (next (know t) o a).reg = reg)
      (hids : Ids app catalog reg) :
      Ids app catalog (Function.update know t (next (know t) o a) .app).reg := by
    have ht : t = .app := hrole.symm.trans ht
    subst ht
    rw [Function.update_self, hreg]
    exact hids
  have hoff (ht : (know t).role = .app) (hstage : (know t).stage ≠ .running) :
      (know t).reg = {} := by
    have ht : t = .app := hrole.symm.trans ht
    exact (hl.idle t (ht ▸ rfl) hstage).2.2
  cases o with
  | nextIdGet =>
      have ha : a = w.app.nextId := hc
      subst ha
      exact happ hm.1 rfl hi.get
  | nextIdSet id =>
      obtain ⟨ht, _, i, hnew, rfl, hbound⟩ := hm
      refine happ ht rfl ?_
      rw [hrole] at ht
      subst ht
      exact hi.take hnew hbound
  | ownersInsert id b =>
      refine happ hm.1 rfl ?_
      have ht : t = .app := hrole.symm.trans hm.1
      subst ht
      refine hi.own hm.2.2 b ?_
      by_contra hne
      obtain ⟨info, hinfo⟩ := Option.ne_none_iff_exists'.mp hne
      obtain ⟨b', hb', _⟩ := h.listed.entries hinfo
      exact (hi.taken hm.2.2).1 (hi.owners hb')
  | catalogInsert id info => exact happ hm.1 rfl hi.rest
  | takeService => exact happ hm.1 rfl hi.rest
  | dropShared => exact happ hm.1 (hoff hm.1 (by rw [hm.2]; exact Stage.noConfusion)) hi.rest
  | dropOwners =>
      refine happ hm.1 (hoff hm.1 (by rw [hm.2]; exact Stage.noConfusion)) ?_
      exact ⟨hi.nodup, hi.below, nofun, nofun, nofun, nofun⟩
  | exit =>
      rw [hf.app rfl, hf.shared rfl]
      by_cases ht : t = .app
      · exact happ (hrole.trans ht) rfl hi.rest
      · rw [Function.update_of_ne (Ne.symm ht)]
        exact hi
  | groupsPush g conn =>
      rw [proj_update Know.reg ((next_recalls _ _ _).reg rfl), hf.app rfl]
      have hcatalog : (post t (.groupsPush g conn) a w).shared.catalog = w.shared.catalog := by
        simp only [post, pushPost]
        split <;> rfl
      rw [hcatalog]
      exact hi
  | tuplesInsert | tuplesClear =>
      rw [proj_update Know.reg ((next_recalls _ _ _).reg rfl)]
      exact hi
  | _ =>
      rw [proj_update Know.reg ((next_recalls _ _ _).reg rfl), hf.app rfl, hf.shared rfl]
      exact hi

/-! ## 3. The catalog -/

/-- Buffers stay where they are: what they cover they still cover. -/
theorem Covers.own {owners : HashMap UInt32 Buffer} {id id' : UInt32} {addr size : UInt64}
    (h : Covers owners id addr size) (hne : owners.lookup id' = none) (b : Buffer) :
    Covers (owners.insert id' b) id addr size := by
  obtain ⟨b', hb', he⟩ := h
  refine ⟨b', ?_, he⟩
  rw [HashMap.lookup_insert, if_neg]
  · exact hb'
  · intro e
    rw [e, hne] at hb'
    cases hb'

theorem Owned.unowned (h : Owned w know) {id : UInt32} (hid : (know .app).reg.taken = some id) :
    w.app.owners.lookup id = none := by
  by_contra hne
  obtain ⟨b, hb⟩ := Option.ne_none_iff_exists'.mp hne
  exact (h.ids.taken hid).1 (h.ids.owners hb)

/-- What an operation leaves of the catalog, and of what threads know of it. -/
abbrev ListedIn (w : World) (know : Tid → Know) : Prop :=
  Listed w.app.owners w.shared.catalog w.shared.gone fun t => (know t).tup.region

/-- A thread learns of a region that is there, or forgets about one. -/
theorem Owned.listed_learn (h : Owned w know) {k : Know}
    (hk : ∀ id info, k.tup.region = some (id, info) →
      Covers w.app.owners id info.remoteAddr info.size) :
    ListedIn w (Function.update know t k) := by
  refine ⟨h.listed.entries, h.listed.gone, fun {u id info} hu => ?_⟩
  by_cases hut : u = t
  · subst hut
    rw [Function.update_self] at hu
    exact hk id info hu
  · rw [Function.update_of_ne hut] at hu
    exact h.listed.region hu

theorem Owned.listed_keep (h : Owned w know) {k : Know}
    (hk : k.tup.region = (know t).tup.region) : ListedIn w (Function.update know t k) :=
  h.listed_learn fun _ _ e => h.listed.region (hk ▸ e)

theorem Owned.listed_ownersInsert (hl : Lives w know) (h : Owned w know) {id : UInt32} {b : Buffer}
    {a : (Op.ownersInsert id b).Ans} (hm : may (know t) (.ownersInsert id b)) :
    ListedIn (post t (.ownersInsert id b) a w)
      (Function.update know t (next (know t) (.ownersInsert id b) a)) := by
  obtain rfl : t = .app := (hl.role t).symm.trans hm.1
  have hnone := h.unowned hm.2.2
  have hi := h.listed_keep (t := .app) (k := next (know .app) (.ownersInsert id b) a) rfl
  exact ⟨fun e => (hi.entries e).own hnone b, hi.gone, fun e => (hi.region e).own hnone b⟩

theorem Owned.listed_dropOwners (hl : Lives w know) (h : Owned w know) {a : Op.dropOwners.Ans}
    (hm : may (know t) .dropOwners) :
    ListedIn (post t .dropOwners a w) (Function.update know t (next (know t) .dropOwners a)) := by
  obtain rfl : t = .app := (hl.role t).symm.trans hm.1
  have hgone : w.shared.gone = true := hl.drop.bare (by rw [hm.2]; decide)
  refine ⟨fun e => ?_, h.listed.gone, fun {u id info} e => ?_⟩
  · rw [show (post .app .dropOwners a w).shared.catalog = ∅ from h.listed.gone hgone] at e
    cases e
  · have hsilent := hl.silent (by rw [hm.2]; rfl) u
    rw [proj_update Know.tup ((next_recalls _ _ _).tup rfl), hsilent] at e
    cases e

theorem Owned.listed_catalogInsert (hl : Lives w know) (h : Owned w know) {id : UInt32}
    {info : RegionInfo} {a : (Op.catalogInsert id info).Ans}
    (hm : may (know t) (.catalogInsert id info)) :
    ListedIn (post t (.catalogInsert id info) a w)
      (Function.update know t (next (know t) (.catalogInsert id info) a)) := by
  obtain ⟨ht, hstage, b, howned, haddr, hsize⟩ := hm
  obtain rfl : t = .app := (hl.role t).symm.trans ht
  have hi := h.listed_keep (t := .app) (k := next (know .app) (.catalogInsert id info) a) rfl
  refine ⟨fun {i info'} e => ?_, fun e => ?_, hi.region⟩
  · have e : (w.shared.catalog.insert id info).lookup i = some info' := e
    rw [HashMap.lookup_insert] at e
    by_cases hii : i = id
    · rw [if_pos hii] at e
      cases e
      subst hii
      exact ⟨b, (h.ids.owned howned).1, haddr, hsize⟩
    · rw [if_neg hii] at e
      exact hi.entries e
  · have hbare := hl.drop.gone e
    rw [hstage] at hbare
    simp at hbare

theorem Owned.listed_catalogGet (h : Owned w know) {id : UInt32} {a : (Op.catalogGet id).Ans}
    (hc : can t (.catalogGet id) w a) :
    ListedIn w (Function.update know t (next (know t) (.catalogGet id) a)) := by
  refine h.listed_learn fun i info e => ?_
  have ha : a = w.shared.catalog.lookup id := hc
  have e : a.map (id, ·) = some (i, info) := e
  rw [ha] at e
  obtain ⟨info', hinfo, he⟩ := Option.map_eq_some_iff.mp e
  cases he
  exact h.listed.entries hinfo

theorem Owned.listed_step (hl : Lives w know) (h : Owned w know) {a : o.Ans} (hm : may (know t) o)
    (hc : can t o w a) :
    ListedIn (post t o a w) (Function.update know t (next (know t) o a)) := by
  have hf := post_frame (t := t) (w := w) o a
  unfold ListedIn
  cases o with
  | ownersInsert id b => exact h.listed_ownersInsert hl hm
  | dropOwners => exact h.listed_dropOwners hl hm
  | catalogInsert id info => exact h.listed_catalogInsert hl hm
  | dropShared =>
      have hi := h.listed_keep (t := t) (k := next (know t) .dropShared a) rfl
      exact ⟨nofun, fun _ => rfl, hi.region⟩
  | catalogGet id => exact h.listed_catalogGet hc
  | tuplesGet id g => exact h.listed_learn nofun
  | takeService => exact h.listed_learn nofun
  | exit =>
      rw [hf.app rfl, hf.shared rfl]
      exact h.listed_learn nofun
  | verb v =>
      rw [hf.app rfl, hf.shared rfl]
      refine h.listed_keep ?_
      by_cases hv : Op.teachesTup (.verb v) = false
      · rw [(next_recalls _ _ _).tup hv]
      · cases v with
        | regMr => cases a <;> rfl
        | _ => exact absurd rfl hv
  | tcpAccept =>
      rw [hf.app rfl, hf.shared rfl]
      refine h.listed_keep ?_
      cases a <;> rfl
  | groupsPush g conn =>
      rw [hf.app rfl]
      have hshared : (post t (.groupsPush g conn) a w).shared.catalog = w.shared.catalog ∧
          (post t (.groupsPush g conn) a w).shared.gone = w.shared.gone := by
        simp only [post, pushPost]
        split <;> exact ⟨rfl, rfl⟩
      rw [hshared.1, hshared.2]
      exact h.listed_keep rfl
  | catalogSnapshot => exact h.listed_keep rfl
  | groupsGetPd g =>
      rw [hf.app rfl, hf.shared rfl]
      exact h.listed_keep rfl
  | tuplesInsert | tuplesClear | nextIdSet => exact h.listed_keep rfl
  | _ =>
      rw [hf.app rfl, hf.shared rfl]
      exact h.listed_keep (by rw [(next_recalls _ _ _).tup rfl])

/-! ## 4. Registrations -/

section Registrations

variable {owners : HashMap UInt32 Buffer} {shared : SharedState} {regs : List Registration}
  {asking : Tid → Option (UInt32 × UInt32)} {tup tup' : Tid → TupleKnow}

/-- `Registered` reads `asked` and `held` only. -/
theorem Registered.keep (h : Registered owners shared regs asking tup)
    (ha : ∀ u, (tup' u).asked = (tup u).asked) (hh : ∀ u, (tup' u).held = (tup u).held) :
    Registered owners shared regs asking tup' where
  covers := h.covers
  asked e := h.asked (ha _ ▸ e)
  stored := h.stored
  held {u mr} e := by
    rw [ha u]
    exact h.held (hh u ▸ e)
  apart e := h.apart (hh _ ▸ e)
  alone e e' := h.alone (hh _ ▸ e) (hh _ ▸ e')
  holder r hr := by
    rcases h.holder r hr with e | ⟨u, e⟩
    · exact Or.inl e
    · exact Or.inr ⟨u, (hh u).trans e⟩
  handles := h.handles
  cleared := h.cleared

/-- `tuple_of` begins: thread `t` holds nothing and asks for `key`. -/
theorem Registered.ask (h : Registered owners shared regs asking tup) (key : UInt32 × UInt32)
    (hfree : (tup t).held = none) (ht : (tup' t).held = none) (hasked : (tup' t).asked = some key)
    (hother : ∀ u, u ≠ t → tup' u = tup u) :
    Registered owners shared regs (Function.update asking t (some key)) tup' := by
  have hheld {u : Tid} {mr : MemoryRegion} (e : (tup' u).held = some mr) :
      u ≠ t ∧ (tup u).held = some mr := by
    by_cases hu : u = t
    · rw [hu, ht] at e
      cases e
    · exact ⟨hu, hother u hu ▸ e⟩
  refine ⟨h.covers, fun {u k} e => ?_, h.stored, fun {u mr} e => ?_, fun e => h.apart (hheld e).2,
    fun e e' => h.alone (hheld e).2 (hheld e').2, fun r hr => ?_, h.handles, h.cleared⟩
  · by_cases hu : u = t
    · subst hu
      rw [hasked] at e
      cases e
      rw [Function.update_self]
    · rw [Function.update_of_ne hu]
      exact h.asked (hother u hu ▸ e)
  · obtain ⟨hu, e⟩ := hheld e
    rw [hother u hu]
    exact h.held e
  · rcases h.holder r hr with e | ⟨u, e⟩
    · exact Or.inl e
    · refine Or.inr ⟨u, ?_⟩
      rw [hother u]
      · exact e
      · intro hu
        rw [hu, hfree] at e
        cases e

/-- A registration is made: thread `t` holds it. -/
theorem Registered.register (h : Registered owners shared regs asking tup) {key : UInt32 × UInt32}
    {mr : MemoryRegion} (hcovers : Covers owners key.1 mr.addr mr.size)
    (hasked : (tup t).asked = some key) (hfree : (tup t).held = none)
    (hfresh : ∀ r ∈ regs, r.mr.mr ≠ mr.mr ∧ r.mr.rkey ≠ mr.rkey) (hcleared : shared.cleared = false)
    (ha : ∀ u, (tup' u).asked = (tup u).asked) (ht : (tup' t).held = some mr)
    (hother : ∀ u, u ≠ t → (tup' u).held = (tup u).held) :
    Registered owners shared (⟨mr, key⟩ :: regs) asking tup' := by
  have hnew {key : UInt32 × UInt32} : ⟨mr, key⟩ ∉ regs := fun hr => (hfresh _ hr).1 rfl
  -- what another thread holds is older
  have hold {u : Tid} (hu : u ≠ t) (e : (tup' u).held = some mr) : False := by
    rw [hother u hu] at e
    obtain ⟨_, _, hr⟩ := h.held e
    exact hnew hr
  refine ⟨fun r hr => ?_, fun e => h.asked (ha _ ▸ e), fun e => List.mem_cons_of_mem _ (h.stored e),
    fun {u m} e => ?_, fun {u m} e k hk => ?_, fun {u v m} e e' => ?_, fun r hr => ?_,
    fun r hr r' hr' he => ?_, fun e => ?_⟩
  · rcases List.mem_cons.mp hr with rfl | hr
    · exact hcovers
    · exact h.covers r hr
  · rw [ha u]
    by_cases hu : u = t
    · subst hu
      rw [ht] at e
      cases e
      exact ⟨key, hasked, List.mem_cons_self⟩
    · rw [hother u hu] at e
      obtain ⟨key', hk, hr⟩ := h.held e
      exact ⟨key', hk, List.mem_cons_of_mem _ hr⟩
  · by_cases hu : u = t
    · subst hu
      rw [ht] at e
      cases e
      exact hnew (h.stored hk)
    · rw [hother u hu] at e
      exact h.apart e k hk
  · by_cases hu : u = t
    · by_cases hv : v = t
      · rw [hu, hv]
      · subst hu
        rw [ht] at e
        cases e
        exact (hold hv e').elim
    · by_cases hv : v = t
      · subst hv
        rw [ht] at e'
        cases e'
        exact (hold hu e).elim
      · rw [hother u hu] at e
        rw [hother v hv] at e'
        exact h.alone e e'
  · rcases List.mem_cons.mp hr with rfl | hr
    · exact Or.inr ⟨t, ht⟩
    · rcases h.holder r hr with e | ⟨u, e⟩
      · exact Or.inl e
      · refine Or.inr ⟨u, ?_⟩
        rw [hother u]
        · exact e
        · intro hu
          rw [hu, hfree] at e
          cases e
  · rcases List.mem_cons.mp hr with rfl | hr
    · rcases List.mem_cons.mp hr' with rfl | hr'
      · rfl
      · exact (he.elim (fun e => (hfresh r' hr').1 e.symm) fun e => (hfresh r' hr').2 e.symm).elim
    · rcases List.mem_cons.mp hr' with rfl | hr'
      · exact (he.elim (hfresh r hr).1 (hfresh r hr).2).elim
      · exact h.handles r hr r' hr' he
  · rw [hcleared] at e
    cases e

/-- A registration is stored: the one it replaces is dropped. -/
theorem Registered.store (h : Registered owners shared regs asking tup) {key : UInt32 × UInt32}
    {mr : MemoryRegion} (hheld : (tup t).held = some mr) (hasked : (tup t).asked = some key)
    (hcleared : shared.cleared = false) (ha : ∀ u, (tup' u).asked = (tup u).asked)
    (ht : (tup' t).held = none) (hother : ∀ u, u ≠ t → (tup' u).held = (tup u).held) :
    Registered owners { shared with tuples := shared.tuples.insert key mr }
      (regs.filter fun r => some r.mr ≠ shared.tuples.lookup key) asking tup' := by
  have hmr : ⟨mr, key⟩ ∈ regs := by
    obtain ⟨key', hk, hr⟩ := h.held hheld
    rw [hasked] at hk
    cases hk
    exact hr
  -- a registration that is not the one replaced stays
  have hstays {r : Registration} (hr : r ∈ regs) (hne : shared.tuples.lookup key ≠ some r.mr) :
      r ∈ regs.filter fun r => some r.mr ≠ shared.tuples.lookup key :=
    List.mem_filter.mpr ⟨hr, by simpa using hne.symm⟩
  have hthread {u : Tid} {m : MemoryRegion} (e : (tup' u).held = some m) :
      u ≠ t ∧ (tup u).held = some m := by
    by_cases hu : u = t
    · rw [hu, ht] at e
      cases e
    · exact ⟨hu, hother u hu ▸ e⟩
  refine ⟨fun r hr => h.covers r (List.mem_filter.mp hr).1, fun e => h.asked (ha _ ▸ e),
    fun {k m} e => ?_, fun {u m} e => ?_, fun {u m} e k hk => ?_, fun {u v m} e e' => ?_,
    fun r hr => ?_, fun r hr r' hr' he => ?_, fun e => ?_⟩
  · have e : (shared.tuples.insert key mr).lookup k = some m := e
    rw [HashMap.lookup_insert] at e
    by_cases hk : k = key
    · rw [if_pos hk] at e
      cases e
      exact hk ▸ hstays hmr (h.apart hheld key)
    · rw [if_neg hk] at e
      refine hstays (h.stored e) fun hold => hk ?_
      have := h.handles _ (h.stored e) _ (h.stored hold) (Or.inl rfl)
      exact congrArg Registration.key this
  · obtain ⟨hu, e⟩ := hthread e
    obtain ⟨k, hk, hr⟩ := h.held e
    exact ⟨k, (ha u).trans hk, hstays hr (h.apart e key)⟩
  · obtain ⟨hu, e⟩ := hthread e
    have hk : (shared.tuples.insert key mr).lookup k = some m := hk
    rw [HashMap.lookup_insert] at hk
    by_cases hkk : k = key
    · rw [if_pos hkk] at hk
      cases hk
      exact hu (h.alone e hheld)
    · rw [if_neg hkk] at hk
      exact h.apart e k hk
  · exact h.alone (hthread e).2 (hthread e').2
  · obtain ⟨hr, hne⟩ := List.mem_filter.mp hr
    have hne : some r.mr ≠ shared.tuples.lookup key := by simpa using hne
    show (shared.tuples.insert key mr).lookup r.key = some r.mr ∨ _
    rw [HashMap.lookup_insert]
    rcases h.holder r hr with e | ⟨u, e⟩
    · by_cases hk : r.key = key
      · rw [hk] at e
        exact absurd e.symm hne
      · rw [if_neg hk]
        exact Or.inl e
    · by_cases hu : u = t
      · rw [hu, hheld] at e
        cases e
        have := h.handles r hr _ hmr (Or.inl rfl)
        rw [if_pos (congrArg Registration.key this)]
        exact Or.inl rfl
      · exact Or.inr ⟨u, (hother u hu).trans e⟩
  · exact h.handles r (List.mem_filter.mp hr).1 r' (List.mem_filter.mp hr').1 he
  · have e : shared.cleared = true := e
    rw [hcleared] at e
    cases e

/-- The tuples are cleared while no thread holds a registration: none is left. -/
theorem Registered.clear (h : Registered owners shared regs asking tup)
    (hfree : ∀ u, (tup u).held = none) :
    Registered owners { shared with tuples := ∅, cleared := true }
      (regs.filter fun r => r.mr ∉ (HashMap.toList shared.tuples).map Prod.snd) asking tup := by
  have hnone : regs.filter (fun r => r.mr ∉ (HashMap.toList shared.tuples).map Prod.snd) = [] := by
    refine List.filter_eq_nil_iff.mpr fun r hr => ?_
    rcases h.holder r hr with e | ⟨u, e⟩
    · have hmem := List.mem_map_of_mem (f := Prod.snd) (HashMap.mem_toList.mpr e)
      simpa using hmem
    · rw [hfree u] at e
      cases e
  rw [hnone]
  have hheld {u : Tid} {m : MemoryRegion} {P : Prop} (e : (tup u).held = some m) : P := by
    rw [hfree u] at e
    cases e
  exact ⟨nofun, h.asked, nofun, fun e => hheld e, fun e => hheld e, fun e => hheld e, nofun, nofun,
    fun _ => ⟨rfl, rfl⟩⟩

/-- A thread leaves, holding nothing. -/
theorem Registered.leave (h : Registered owners shared regs asking tup)
    (hfree : (tup t).held = none) (ht : tup' t = {}) (hother : ∀ u, u ≠ t → tup' u = tup u) :
    Registered owners shared regs asking tup' := by
  have hheld (u : Tid) : (tup' u).held = (tup u).held := by
    by_cases hu : u = t
    · rw [hu, ht, hfree]
    · rw [hother u hu]
  refine ⟨h.covers, fun {u k} e => ?_, h.stored, fun {u m} e => ?_, fun e => h.apart (hheld _ ▸ e),
    fun e e' => h.alone (hheld _ ▸ e) (hheld _ ▸ e'), fun r hr => ?_, h.handles, h.cleared⟩
  · by_cases hu : u = t
    · rw [hu, ht] at e
      cases e
    · exact h.asked (hother u hu ▸ e)
  · have hu : u ≠ t := by
      intro hu
      rw [hu, ht] at e
      cases e
    rw [hother u hu] at e ⊢
    exact h.held e
  · rcases h.holder r hr with e | ⟨u, e⟩
    · exact Or.inl e
    · exact Or.inr ⟨u, (hheld u).trans e⟩

/-- `Registered` reads `tuples` and `cleared` only. -/
theorem Registered.congr {shared' : SharedState} (h : Registered owners shared regs asking tup)
    (ht : shared'.tuples = shared.tuples) (hc : shared'.cleared = shared.cleared) :
    Registered owners shared' regs asking tup where
  covers := h.covers
  asked := h.asked
  stored e := h.stored (ht ▸ e)
  held := h.held
  apart e := ht ▸ h.apart e
  alone := h.alone
  holder r hr := ht ▸ h.holder r hr
  handles := h.handles
  cleared e := by
    rw [ht]
    exact h.cleared (hc ▸ e)

end Registrations

/-- Only a registration adds to those made. -/
theorem post_verb_regs {v : Verb} {a : v.Ans} (hv : ∀ pd addr size, v ≠ .regMr pd addr size) :
    (post t (.verb v) a w).hca.regs = w.hca.regs ∧ (post t (.verb v) a w).hca.made = w.hca.made := by
  cases t with
  | reader i =>
      simp only [post, readerVerbPost]
      split <;> first | exact ⟨rfl, rfl⟩ | (split <;> exact ⟨rfl, rfl⟩)
  | net => exact ⟨rfl, rfl⟩
  | app | service | session =>
      simp only [post, verbPost]
      split <;> first | exact ⟨rfl, rfl⟩ | (split <;> exact ⟨rfl, rfl⟩) | exact absurd rfl (hv _ _ _)

/-- One that was refused adds nothing. -/
theorem post_refused_regs (pd : Nat) (addr size : UInt64) :
    (post t (.verb (.regMr pd addr size)) none w).hca.regs = w.hca.regs ∧
      (post t (.verb (.regMr pd addr size)) none w).hca.made = w.hca.made := by
  cases t <;> exact ⟨rfl, rfl⟩

theorem next_verb_tup {k : Know} {v : Verb} {a : v.Ans} (hv : ∀ pd addr size, v ≠ .regMr pd addr size) :
    (next k (.verb v) a).tup = k.tup := by
  refine (next_recalls _ _ _).tup ?_
  cases v with
  | regMr pd addr size => exact absurd rfl (hv pd addr size)
  | _ => rfl

/-- What an operation leaves of the registrations. -/
abbrev RegisteredIn (w : World) (know : Tid → Know) : Prop :=
  Registered w.app.owners w.shared w.hca.regs w.log.asking fun t => (know t).tup

/-- The other threads know what they knew. -/
theorem update_other {k' : Know} (u : Tid) (hu : u ≠ t) :
    (Function.update know t k' u).tup = (know u).tup := by rw [Function.update_of_ne hu]

theorem Owned.registered_keep (h : Owned w know) {k : Know}
    (ha : k.tup.asked = (know t).tup.asked) (hh : k.tup.held = (know t).tup.held) :
    RegisteredIn w (Function.update know t k) :=
  h.registered.keep (fun u => proj_update (fun k : Know => k.tup.asked) ha u)
    (fun u => proj_update (fun k : Know => k.tup.held) hh u)

theorem Owned.registered_regMr (hl : Lives w know) (h : Owned w know) {pd : Nat} {addr size : UInt64}
    {a : Verb.Ans (.regMr pd addr size)} (hm : may (know t) (.verb (.regMr pd addr size)))
    (hc : can t (.verb (.regMr pd addr size)) w a) :
    RegisteredIn (post t (.verb (.regMr pd addr size)) a w)
      (Function.update know t (next (know t) (.verb (.regMr pd addr size)) a)) := by
  have hf := post_frame (t := t) (w := w) (.verb (.regMr pd addr size)) a
  have hrole := hl.role t
  unfold RegisteredIn
  rw [hf.app rfl, hf.shared rfl, hf.log rfl]
  obtain ⟨id, g, dom, info, hasked, _, _, hregion, rfl, rfl⟩ := hm.here
  have hwork := hm.works
  have hprov : t.isProvider = true := hrole ▸ hwork.role
  cases a with
  | none =>
      rw [(post_refused_regs pd _ _).1]
      exact h.registered_keep rfl rfl
  | some q =>
      obtain ⟨mr, lkey, rkey⟩ := q
      have hregs : (post t (.verb (.regMr pd info.remoteAddr info.size))
          (some (mr, lkey, rkey)) w).hca.regs =
          ⟨⟨mr, pd, info.remoteAddr, info.size, lkey, rkey⟩, (w.log.asking t).getD (0, 0)⟩ ::
            w.hca.regs := by
        cases t with
        | app | service | session => rfl
        | reader | net => cases hprov
      rw [hregs, h.registered.asked hasked]
      refine h.registered.register (t := t) (h.listed.region hregion) hasked hm.free
        (hc hprov) (hl.uncleared hwork) (fun u => ?_) ?_ fun u hu => ?_
      · apply proj_update (fun k : Know => k.tup.asked); rfl
      · simp only [Function.update_self]
        rfl
      · rw [update_other u hu]

theorem Owned.registered_verb (hl : Lives w know) (h : Owned w know) {v : Verb} {a : v.Ans}
    (hm : may (know t) (.verb v)) (hc : can t (.verb v) w a) :
    RegisteredIn (post t (.verb v) a w) (Function.update know t (next (know t) (.verb v) a)) := by
  have hf := post_frame (t := t) (w := w) (.verb v) a
  by_cases hv : ∃ pd addr size, v = .regMr pd addr size
  · obtain ⟨pd, addr, size, rfl⟩ := hv
    exact h.registered_regMr hl hm hc
  · have hne (pd : Nat) (addr size : UInt64) : v ≠ .regMr pd addr size :=
      fun e => hv ⟨pd, addr, size, e⟩
    unfold RegisteredIn
    rw [hf.app rfl, hf.shared rfl, hf.log rfl, (post_verb_regs hne).1]
    exact h.registered_keep (by rw [next_verb_tup hne]) (by rw [next_verb_tup hne])

theorem Owned.registered_tuplesInsert (hl : Lives w know) (h : Owned w know) {id g : UInt32}
    {mr : MemoryRegion} (hm : (know t).Stores id g mr) :
    RegisteredIn (post t (.tuplesInsert id g mr) () w)
      (Function.update know t (next (know t) (.tuplesInsert id g mr) ())) := by
  refine h.registered.store (t := t) hm.held hm.asked (hl.uncleared hm.works) (fun u => ?_) ?_
    fun u hu => ?_
  · apply proj_update (fun k : Know => k.tup.asked); rfl
  · simp only [Function.update_self]
    rfl
  · rw [update_other u hu]

theorem Owned.registered_dropOwners (hl : Lives w know) (h : Owned w know)
    (hm : may (know .app) .dropOwners) :
    RegisteredIn (post .app .dropOwners () w)
      (Function.update know .app (next (know .app) .dropOwners ())) := by
  have hi := h.registered_keep (t := .app) (k := next (know .app) .dropOwners ()) rfl rfl
  have hnone := (hi.cleared (hl.drop.clear (by rw [hm.2]; decide))).2
  refine { hi with covers := fun r hr => ?_ }
  rw [show (post .app .dropOwners () w).hca.regs = [] from hnone] at hr
  cases hr

theorem Owned.registered_exit (hl : Lives w know) (h : Owned w know) (hm : may (know t) .exit) :
    RegisteredIn (post t .exit () w) (Function.update know t (next (know t) .exit ())) := by
  have hf := post_frame (t := t) (w := w) .exit ()
  unfold RegisteredIn
  rw [hf.app rfl, hf.shared rfl, hf.hca rfl, hf.log rfl]
  refine h.registered.leave (t := t) ?_ ?_ update_other
  · rcases hm with ⟨hm₁, hm₂⟩ | hm
    · rw [(hl.idle t ?_ ?_).1]
      · rw [← hl.role t, hm₁]
        rfl
      · rw [hm₂]
        exact Stage.noConfusion
    · exact hm.2.2.1
  · simp only [Function.update_self]
    rfl

theorem Owned.registered_groupsPush (h : Owned w know) {g : UInt32} {conn : Connection}
    {a : Op.Ans (.groupsPush g conn)} :
    RegisteredIn (post t (.groupsPush g conn) a w)
      (Function.update know t (next (know t) (.groupsPush g conn) a)) := by
  have hf := post_frame (t := t) (w := w) (.groupsPush g conn) a
  have hsame : (post t (.groupsPush g conn) a w).shared.tuples = w.shared.tuples ∧
      (post t (.groupsPush g conn) a w).shared.cleared = w.shared.cleared ∧
      (post t (.groupsPush g conn) a w).hca.regs = w.hca.regs := by
    simp only [post, pushPost]
    split <;> exact ⟨rfl, rfl, rfl⟩
  unfold RegisteredIn
  rw [hf.app rfl, hf.log rfl, hsame.2.2]
  apply Registered.congr _ hsame.1 hsame.2.1
  exact h.registered_keep rfl rfl

theorem Owned.registered_step (hl : Lives w know) (h : Owned w know) {a : o.Ans}
    (hm : may (know t) o) (hc : can t o w a) :
    RegisteredIn (post t o a w) (Function.update know t (next (know t) o a)) := by
  have hf := post_frame (t := t) (w := w) o a
  have hrole := hl.role t
  unfold RegisteredIn
  cases o with
  | verb v => exact h.registered_verb hl hm hc
  | tuplesGet id g =>
      refine h.registered.ask (t := t) (id, g) hm.2 ?_ ?_ update_other
      · simp only [Function.update_self]
        rfl
      · simp only [Function.update_self]
        rfl
  | tuplesInsert id g mr => exact h.registered_tuplesInsert hl hm
  | tuplesClear =>
      have ht : t = .app := hrole.symm.trans hm.1
      subst ht
      have hi := h.registered_keep (t := .app) (k := next (know .app) .tuplesClear a) rfl rfl
      refine hi.clear fun u => ?_
      rw [proj_update Know.tup ((next_recalls _ _ _).tup rfl), hl.silent (by rw [hm.2]; rfl)]
  | ownersInsert id b =>
      have ht : t = .app := hrole.symm.trans hm.1
      subst ht
      have hnone := h.unowned hm.2.2
      have hi := h.registered_keep (t := .app) (k := next (know .app) (.ownersInsert id b) a) rfl rfl
      exact { hi with covers := fun r hr => (hi.covers r hr).own hnone b }
  | dropOwners =>
      have ht : t = .app := hrole.symm.trans hm.1
      subst ht
      exact h.registered_dropOwners hl hm
  | takeService =>
      refine h.registered.leave (t := t) hm.2.2 ?_ update_other
      simp only [Function.update_self]
      rfl
  | exit => exact h.registered_exit hl hm
  | catalogInsert | dropShared =>
      refine Registered.congr (?_ : Registered _ w.shared _ _ _) rfl rfl
      exact h.registered_keep rfl rfl
  | groupsPush g conn => exact h.registered_groupsPush
  | tcpAccept =>
      rw [hf.app rfl, hf.shared rfl, hf.hca rfl, hf.log rfl]
      cases a <;> exact h.registered_keep rfl rfl
  | groupsGetPd g => cases a <;> exact h.registered_keep rfl rfl
  | catalogSnapshot | catalogGet | nextIdSet | note => exact h.registered_keep rfl rfl
  | _ =>
      rw [hf.app rfl, hf.shared rfl, hf.hca rfl, hf.log rfl]
      exact h.registered_keep (by rw [(next_recalls _ _ _).tup rfl])
        (by rw [(next_recalls _ _ _).tup rfl])

/-! ## 5. Tuples served -/

theorem Served.keep {hca hca' : Hca} {seen seen' : Tid → List ((UInt32 × UInt32) × MemoryRegion)}
    {records : List Record} (h : Served hca seen records) (hlive : ∀ r ∈ hca'.regs, r ∈ hca'.made)
    (hmade : ∀ r ∈ hca.made, r ∈ hca'.made)
    (hseen : ∀ u key mr, (key, mr) ∈ seen' u → (key, mr) ∈ seen u ∨ ⟨mr, key⟩ ∈ hca'.made) :
    Served hca' seen' records := by
  refine ⟨hlive, fun {u key mr} e => ?_, fun r hr {id g tuple} e => ?_⟩
  · rcases hseen u key mr e with e | e
    · exact hmade _ (h.seen e)
    · exact e
  · obtain ⟨mr, hmr, ht⟩ := h.returned r hr e
    exact ⟨mr, hmade _ hmr, ht⟩

/-- What an operation leaves of the tuples served. -/
abbrev ServedIn (w : World) (know : Tid → Know) : Prop :=
  Served w.hca (fun t => (know t).tup.seen) w.log.records

/-- The registrations change, and thread `t` may have seen more of them. -/
theorem Owned.served_keep (h : Owned w know) {hca' : Hca} {k' : Know}
    (hlive : ∀ r ∈ hca'.regs, r ∈ hca'.made) (hmade : ∀ r ∈ w.hca.made, r ∈ hca'.made)
    (hk : ∀ key mr, (key, mr) ∈ k'.tup.seen →
      (key, mr) ∈ (know t).tup.seen ∨ ⟨mr, key⟩ ∈ hca'.made) :
    Served hca' (fun u => (Function.update know t k' u).tup.seen) w.log.records := by
  refine h.served.keep hlive hmade fun u key mr e => ?_
  by_cases hu : u = t
  · subst hu
    rw [Function.update_self] at e
    exact hk key mr e
  · rw [Function.update_of_ne hu] at e
    exact Or.inl e

theorem Owned.served_same (h : Owned w know) {k : Know} (hk : k.tup.seen = (know t).tup.seen) :
    ServedIn w (Function.update know t k) :=
  h.served_keep h.served.live (fun _ e => e) fun _ _ e => Or.inl (hk ▸ e)

theorem Owned.served_regMr (hl : Lives w know) (h : Owned w know) {pd : Nat} {addr size : UInt64}
    {a : Verb.Ans (.regMr pd addr size)} (hm : may (know t) (.verb (.regMr pd addr size))) :
    ServedIn (post t (.verb (.regMr pd addr size)) a w)
      (Function.update know t (next (know t) (.verb (.regMr pd addr size)) a)) := by
  have hf := post_frame (t := t) (w := w) (.verb (.regMr pd addr size)) a
  have hprov : t.isProvider = true := hl.role t ▸ hm.works.role
  unfold ServedIn
  rw [hf.log rfl]
  cases a with
  | none =>
      obtain ⟨hregs, hmade⟩ := post_refused_regs (t := t) (w := w) pd addr size
      refine h.served_keep (fun r hr => ?_) (fun r hr => hmade ▸ hr) fun _ _ e => Or.inl e
      rw [hregs] at hr
      rw [hmade]
      exact h.served.live r hr
  | some q =>
      refine h.served_keep (fun r hr => ?_) (fun r hr => ?_) fun _ _ e => Or.inl e
      · cases t with
        | app | service | session =>
            rcases List.mem_cons.mp hr with rfl | hr
            · exact List.mem_cons_self
            · exact List.mem_cons_of_mem _ (h.served.live r hr)
        | reader | net => cases hprov
      · cases t with
        | app | service | session => exact List.mem_cons_of_mem _ hr
        | reader | net => cases hprov

theorem Owned.served_verb (hl : Lives w know) (h : Owned w know) {v : Verb} {a : v.Ans}
    (hm : may (know t) (.verb v)) :
    ServedIn (post t (.verb v) a w) (Function.update know t (next (know t) (.verb v) a)) := by
  have hf := post_frame (t := t) (w := w) (.verb v) a
  by_cases hv : ∃ pd addr size, v = .regMr pd addr size
  · obtain ⟨pd, addr, size, rfl⟩ := hv
    exact h.served_regMr hl hm
  · have hne (pd : Nat) (addr size : UInt64) : v ≠ .regMr pd addr size :=
      fun e => hv ⟨pd, addr, size, e⟩
    obtain ⟨hregs, hmade⟩ := post_verb_regs (t := t) (w := w) (a := a) hne
    unfold ServedIn
    rw [hf.log rfl]
    refine h.served_keep (fun r hr => ?_) (fun r hr => hmade ▸ hr) fun _ _ e => Or.inl ?_
    · rw [hregs] at hr
      rw [hmade]
      exact h.served.live r hr
    · rw [next_verb_tup hne] at e
      exact e

theorem Owned.served_tuplesGet (h : Owned w know) {id g : UInt32} {a : Op.Ans (.tuplesGet id g)}
    (hc : can t (.tuplesGet id g) w a) :
    ServedIn (post t (.tuplesGet id g) a w)
      (Function.update know t (next (know t) (.tuplesGet id g) a)) := by
  refine h.served_keep h.served.live (fun _ e => e) fun key mr e => ?_
  have ha : a = w.shared.tuples.lookup (id, g) := hc
  rcases List.mem_append.mp e with e | e
  · rw [Option.mem_toList] at e
    obtain ⟨mr', hmr, he⟩ := Option.map_eq_some_iff.mp e
    cases he
    exact Or.inr (h.served.live _ (h.registered.stored (ha ▸ hmr)))
  · exact Or.inl e

theorem Owned.served_tuplesInsert (h : Owned w know) {id g : UInt32} {mr : MemoryRegion}
    (hm : (know t).Stores id g mr) :
    ServedIn (post t (.tuplesInsert id g mr) () w)
      (Function.update know t (next (know t) (.tuplesInsert id g mr) ())) := by
  refine h.served_keep (fun r hr => h.served.live r (List.mem_filter.mp hr).1) (fun _ e => e)
    fun key mr' e => ?_
  rcases List.mem_cons.mp e with e | e
  · cases e
    obtain ⟨key, hkey, hr⟩ := h.registered.held hm.held
    have hkey : (know t).tup.asked = some key := hkey
    rw [hm.asked] at hkey
    cases hkey
    exact Or.inr (h.served.live _ hr)
  · exact Or.inl e

theorem Owned.served_note (h : Owned w know) {n : Note} (hm : may (know t) (.note n)) :
    ServedIn (post t (.note n) () w) (Function.update know t (next (know t) (.note n) ())) := by
  have hi := h.served_same (t := t) (k := next (know t) (.note n) ()) rfl
  refine ⟨hi.live, hi.seen, fun r hr {id g tuple} e => ?_⟩
  rcases List.mem_cons.mp hr with rfl | hr
  · have e : n = .tupleOf id g (.ok (some tuple)) := e
    subst e
    obtain ⟨_, mr, hmr, ht⟩ := hm
    exact ⟨mr, h.served.seen hmr, ht⟩
  · exact hi.returned r hr e

theorem Owned.served_groupsPush (h : Owned w know) {g : UInt32} {conn : Connection}
    {a : Op.Ans (.groupsPush g conn)} :
    ServedIn (post t (.groupsPush g conn) a w)
      (Function.update know t (next (know t) (.groupsPush g conn) a)) := by
  have hf := post_frame (t := t) (w := w) (.groupsPush g conn) a
  have hhca : (post t (.groupsPush g conn) a w).hca.regs = w.hca.regs ∧
      (post t (.groupsPush g conn) a w).hca.made = w.hca.made := by
    simp only [post, pushPost]
    split <;> exact ⟨rfl, rfl⟩
  unfold ServedIn
  rw [hf.log rfl]
  refine h.served_keep (fun r hr => ?_) (fun r hr => hhca.2 ▸ hr) fun _ _ e => Or.inl e
  rw [hhca.1] at hr
  rw [hhca.2]
  exact h.served.live r hr

theorem Owned.served_step (hl : Lives w know) (h : Owned w know) {a : o.Ans} (hm : may (know t) o)
    (hc : can t o w a) :
    ServedIn (post t o a w) (Function.update know t (next (know t) o a)) := by
  have hf := post_frame (t := t) (w := w) o a
  unfold ServedIn
  cases o with
  | verb v => exact h.served_verb hl hm
  | tuplesGet id g => exact h.served_tuplesGet hc
  | tuplesInsert id g mr => exact h.served_tuplesInsert hm
  | catalogSnapshot | takeService => exact h.served_keep h.served.live (fun _ e => e) nofun
  | exit =>
      rw [hf.hca rfl, hf.log rfl]
      exact h.served_keep h.served.live (fun _ e => e) nofun
  | note n => exact h.served_note hm
  | tuplesClear =>
      exact h.served_keep (fun r hr => h.served.live r (List.mem_filter.mp hr).1) (fun _ e => e)
        fun _ _ e => Or.inl e
  | dropShared => exact h.served_keep h.served.live (fun _ e => e) fun _ _ e => Or.inl e
  | groupsPush g conn => exact h.served_groupsPush
  | groupsGetPd g =>
      rw [hf.log rfl]
      refine h.served_keep (fun r hr => ?_) (fun r hr => ?_) fun _ _ e => Or.inl e
      · cases a <;> exact h.served.live r hr
      · cases a <;> exact hr
  | tcpAccept =>
      rw [hf.hca rfl, hf.log rfl]
      cases a <;> exact h.served_same rfl
  | catalogGet => exact h.served_same rfl
  | _ =>
      rw [hf.hca rfl, hf.log rfl]
      exact h.served_same (by rw [(next_recalls _ _ _).tup rfl])

end Steps

/-! ## 6. Every run -/

section Runs

variable {w : World} {know : Tid → Know} {prog : Tid → Code (Option Loop)}

theorem owned_watched (hw : provider.Watched protocol {} firstLoop firstKnow w prog know) :
    Owned w know :=
  hw.invariant provider_follows entry_first owned_start fun hw h _ _ _ hm hc =>
    have hl := lives_watched hw
    ⟨h.ids_step hl hm hc, h.listed_step hl hm hc, h.registered_step hl hm hc,
      h.served_step hl hm hc⟩

/-- The catalog only grows, until it is dropped. -/
structure CatalogKept (w w' : World) : Prop where
  gone : w.shared.gone = true → w'.shared.gone = true
  entry : ∀ id info, w.shared.catalog.lookup id = some info →
    w'.shared.catalog.lookup id = some info ∨ w'.shared.gone = true

theorem CatalogKept.trans {u v w : World} (h : CatalogKept u v) (h' : CatalogKept v w) :
    CatalogKept u w := by
  refine ⟨fun e => h'.gone (h.gone e), fun id info e => ?_⟩
  rcases h.entry id info e with e | e
  · exact h'.entry id info e
  · exact Or.inr (h'.gone e)

theorem CatalogKept.of_same {w w' : World} (hc : w'.shared.catalog = w.shared.catalog)
    (hg : w'.shared.gone = w.shared.gone) : CatalogKept w w' :=
  ⟨fun e => hg ▸ e, fun _ _ e => Or.inl (hc ▸ e)⟩

theorem catalogKept_step {t : Tid} {o : Op} {a : o.Ans}
    (hw : provider.Watched protocol {} firstLoop firstKnow w prog know) (hm : may (know t) o) :
    CatalogKept w (post t o a w) := by
  by_cases hs : o.writesShared = false
  · have hf := post_frame (t := t) (w := w) o a
    exact .of_same (by rw [hf.shared hs]) (by rw [hf.shared hs])
  cases o with
  | catalogInsert id info =>
      obtain ⟨ht, _, b, howned, _⟩ := hm
      have ht : t = .app := ((lives_watched hw).role t).symm.trans ht
      subst ht
      have hnone := ((owned_watched hw).ids.owned howned).2
      refine ⟨fun e => e, fun i info' e => Or.inl ?_⟩
      show (w.shared.catalog.insert id info).lookup i = some info'
      rw [HashMap.lookup_insert, if_neg]
      · exact e
      · intro hi
        rw [hi, hnone] at e
        cases e
  | groupsPush g conn =>
      refine .of_same ?_ ?_
      · simp only [post, pushPost]
        split <;> rfl
      · simp only [post, pushPost]
        split <;> rfl
  | tuplesInsert | tuplesClear => exact .of_same rfl rfl
  | dropShared => exact ⟨fun _ => rfl, fun _ _ _ => Or.inr rfl⟩
  | _ => exact absurd rfl hs

theorem catalog_kept {c c' : Config Tid Op World Loop Op.Ans} (h : provider.Reach start c)
    (h' : provider.Reach c c') : CatalogKept c.world c'.world :=
  System.Watched.progress provider_follows entry_first (fun _ => .of_same rfl rfl)
    (fun h h' => h.trans h') (fun hw _ _ _ hm _ => catalogKept_step hw hm) h h'

/-- Once `tuples` is cleared it stays so. -/
theorem cleared_kept {c c' : Config Tid Op World Loop Op.Ans} (h : provider.Reach start c)
    (h' : provider.Reach c c') : c.world.shared.cleared = true → c'.world.shared.cleared = true := by
  refine System.Watched.progress (R := fun w w' => w.shared.cleared = true → w'.shared.cleared = true)
    provider_follows entry_first (fun _ e => e) (fun h h' e => h' (h e))
    (fun {w} _ _ hw t o a hm hc e => ?_) h h'
  by_cases hs : o.writesShared = false
  · rw [show (provider.post t o a w).shared = w.shared from (post_frame o a).shared hs]
    exact e
  cases o with
  | groupsPush g conn =>
      simp only [provider, post, pushPost]
      split <;> exact e
  | catalogInsert | tuplesInsert | dropShared => exact e
  | tuplesClear => rfl
  | _ => exact absurd rfl hs

/-- The buffers held, at one instant: each live registration covers one, whether it is stored in
    `tuples` or still held inside `tuple_of`; so does each catalog entry; no id was given twice. -/
structure BuffersHeld (w : World) : Prop where
  live : ∀ r ∈ w.hca.regs, ∃ b, w.app.owners.lookup r.key.1 = some b ∧
    r.mr.addr = b.ptr ∧ r.mr.size = b.size
  stored : ∀ key mr, w.shared.tuples.lookup key = some mr → ⟨mr, key⟩ ∈ w.hca.regs
  catalog : ∀ id info, w.shared.catalog.lookup id = some info → ∃ b,
    w.app.owners.lookup id = some b ∧ info.remoteAddr = b.ptr ∧ info.size = b.size
  ids : w.app.assigned.Nodup

/-- **No registration outlives its buffer.** At every step of every run, the drop of the provider
    included, the buffers of all live registrations and catalog entries are held; a catalog entry
    stays as it is until the catalog is dropped; and once `tuples` was cleared no thread is about
    to insert into it. -/
theorem registrations_within_owners {c c' : Config Tid Op World Loop Op.Ans}
    (h : provider.Reach start c) (h' : provider.Reach c c') :
    BuffersHeld c'.world ∧
    (∀ id info, c.world.shared.catalog.lookup id = some info →
      c'.world.shared.catalog.lookup id = some info ∨
        (c'.world.shared.gone = true ∧ c'.world.shared.catalog = ∅)) ∧
    (c.world.shared.cleared = true →
      ∀ t id g mr k, c'.prog t ≠ .act (.tuplesInsert id g mr) k) := by
  obtain ⟨know, hw⟩ := System.Reach.watched protocol firstKnow (h.trans h')
  have hl := lives_watched hw
  have ho := owned_watched hw
  refine ⟨⟨ho.registered.covers, fun _ _ e => ho.registered.stored e, fun _ _ e => ho.listed.entries e,
    ho.ids.nodup⟩, fun id info e => ?_, fun hcleared t id g mr k ht => ?_⟩
  · rcases (catalog_kept h h').entry id info e with e | e
    · exact Or.inl e
    · exact Or.inr ⟨e, ho.listed.gone e⟩
  · have hm := hw.may provider_follows entry_first ht
    have huncleared := hl.uncleared hm.works
    rw [cleared_kept h h' hcleared] at huncleared
    cases huncleared

/-- A run up to a registration that a handshake holds inside `tuple_of`. -/
def untilHeld : List Move :=
  calls (.registerTyped "" ⟨4096, 8, 1, 1, "", by decide⟩) :: moves .app 6 ++
    (calls .serve :: moves .app 9) ++ moves .service 2 ++ greets 0 7 ++ moves .service 5 ++
    connects 0 ++ delivers (.request 0 0) ++ moves .service 10 ++
    delivers (.later ⟨1, .established, 0⟩) ++ moves .service 8

theorem registrations_within_owners_held : ∃ c, provider.Reach start c ∧
    c.world.hca.regs.length = 1 ∧ c.world.shared.tuples.keys = [] ∧ BuffersHeld c.world := by
  have hplay : ((provider.play start untilHeld).map fun c =>
      (c.world.hca.regs.length, c.world.shared.tuples.keys)) = some (1, []) := by decide +kernel
  obtain ⟨c, hc, he⟩ := Option.map_eq_some_iff.mp hplay
  obtain ⟨hlen, htuples⟩ := Prod.mk.inj he
  have hreach := System.play_reach hc
  exact ⟨c, hreach, hlen, htuples, (registrations_within_owners hreach .refl).1⟩

end Runs

end Rdmalib
