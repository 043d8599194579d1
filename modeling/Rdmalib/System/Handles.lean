/-
  File:      Rdmalib/System/Handles.lean
  Subject:   The handles of protection domains, across all threads of the provider.

  * `Sustained` -- what the threads have in hand is what the device knows of them, and what the
    groups hold is what the device has for them;
  * result: in every run and every interleaving no thread uses or drops a handle it does not hold,
    every live registration and queue pair has its domain, and once the provider is dropped none
    of them is left (`domains_held`).
-/
import Mathlib.Data.List.Count
import Rdmalib.System.Hands

namespace Rdmalib

open Base

/-! ## 1. What the device knows of what is in hand -/

/-- Of a group or a connection. -/
def Holder.shared : Holder → Bool
  | .thread _ => false
  | .group _ | .connection _ => true

/-- The handles of a group and of its connections. -/
def GroupEntry.handles (g : UInt32) (entry : GroupEntry) : List (Holder × Nat) :=
  (.group g, entry.pd.pd) :: entry.connections.filterMap fun conn =>
    conn.pd.map fun pd => (.connection (conn.id.getD 0), pd.pd)

def stockOf (groups : Groups) : List (Holder × Nat) :=
  (HashMap.toList groups).flatMap fun e => e.2.handles e.1

/-- The handles of groups and connections are those that the groups' entries have. -/
def Stocked (handles : List (Holder × Nat)) (groups : Groups) : Prop :=
  (handles.filter (·.1.shared)).Perm (stockOf groups)

/-- **The threads' hands and the device agree.** -/
structure InHand (handles : List (Holder × Nat)) (qps : HashMap Nat Nat) (hand : Tid → Hand) :
    Prop where
  counts : ∀ t pd, handles.count (.thread t, pd) = (hand t).pds.count pd
  qp : ∀ {t id pd}, (id, pd) ∈ (hand t).qps → pd ∈ (hand t).pds ∧ qps.lookup id = some pd
  reg : ∀ {t pd}, (hand t).reg = some pd → pd ∈ (hand t).pds
  qps : ∀ {id pd}, qps.lookup id = some pd →
    (∃ t, (id, pd) ∈ (hand t).qps) ∨ (.connection id, pd) ∈ handles

section Stock

variable {handles : List (Holder × Nat)} {groups : Groups} {t : Tid} {id pd : Nat}

/-- The handles that threads come by and drop are beside the stock. -/
theorem filter_erase_thread : (handles.erase (.thread t, pd)).filter (·.1.shared) =
    handles.filter (·.1.shared) := by
  rw [← List.erase_filter, List.erase_of_not_mem fun h => ?_]
  exact Bool.false_ne_true (List.mem_filter.mp h).2

/-- A connection joins its group. -/
theorem Stocked.push (h : Stocked handles groups) {g : UInt32} {conn : Connection}
    {dom : ProtectionDomain} (hid : conn.id = some id) (hpd : conn.pd = some dom) :
    Stocked (handlesPushed t handles (groups.lookup g).isNone g id dom.pd)
      (groups.insert g (GroupEntry.pushed (groups.lookup g) dom conn)) := by
  have hconn : [conn].filterMap (fun conn => conn.pd.map fun pd =>
      (Holder.connection (conn.id.getD 0), pd.pd)) = [(.connection id, dom.pd)] := by
    rw [List.filterMap_cons, hpd, hid]
    rfl
  unfold Stocked stockOf at h ⊢
  rw [HashMap.toList_insert, List.flatMap_cons]
  unfold handlesPushed
  rw [List.filter_append, List.filter_cons_of_pos (by rfl), filter_erase_thread]
  cases hlookup : groups.lookup g with
  | none =>
      rw [HashMap.toList_erase_of_none hlookup]
      unfold GroupEntry.handles GroupEntry.pushed
      rw [hconn]
      exact (h.cons _).cons _
  | some e =>
      have hold := h.trans ((HashMap.toList_perm hlookup).flatMap_right _)
      rw [List.flatMap_cons] at hold
      unfold GroupEntry.handles GroupEntry.pushed at *
      rw [List.filterMap_append, hconn, ← List.cons_append, List.append_assoc]
      exact (hold.cons _).trans List.perm_middle.symm

end Stock

section Device

open Function (update)

variable {handles : List (Holder × Nat)} {qps : HashMap Nat Nat} {hand : Tid → Hand} {t : Tid}
variable {pd id : Nat}

theorem inHand_empty (h : ∀ t, (hand t).Empty) : InHand [] ∅ hand where
  counts t pd := by rw [(h t).1]; rfl
  qp {t id pd} e := by rw [(h t).2.1] at e; cases e
  reg {t pd} e := by rw [(h t).2.2] at e; cases e
  qps := nofun

variable {handles' : List (Holder × Nat)} {qps' : HashMap Nat Nat} {k : Hand}

/-- The hand of `t` has changed, and what the device knows of it. -/
theorem InHand.change (h : InHand handles qps hand)
    (hcounts : ∀ pd, handles'.count (.thread t, pd) = k.pds.count pd)
    (hothers : ∀ u ≠ t, ∀ pd, handles'.count (.thread u, pd) = handles.count (.thread u, pd))
    (hqp : ∀ id pd, (id, pd) ∈ k.qps → pd ∈ k.pds ∧ qps'.lookup id = some pd)
    (hkept : ∀ u ≠ t, ∀ id pd, (id, pd) ∈ (hand u).qps → qps'.lookup id = some pd)
    (hreg : ∀ pd, k.reg = some pd → pd ∈ k.pds)
    (hqps : ∀ id pd, qps'.lookup id = some pd → (id, pd) ∈ k.qps ∨
      (∃ u ≠ t, (id, pd) ∈ (hand u).qps) ∨ (.connection id, pd) ∈ handles') :
    InHand handles' qps' (update hand t k) := by
  refine ⟨fun u pd => ?_, fun {u id pd} e => ?_, fun {u pd} e => ?_, fun {id pd} e => ?_⟩
  · by_cases hu : u = t
    · rw [hu, Function.update_self]
      exact hcounts pd
    · rw [Function.update_of_ne hu, hothers u hu]
      exact h.counts u pd
  · by_cases hu : u = t
    · rw [hu, Function.update_self] at e ⊢
      exact hqp id pd e
    · rw [Function.update_of_ne hu] at e ⊢
      exact ⟨(h.qp e).1, hkept u hu id pd e⟩
  · by_cases hu : u = t
    · rw [hu, Function.update_self] at e ⊢
      exact hreg pd e
    · rw [Function.update_of_ne hu] at e ⊢
      exact h.reg e
  · rcases hqps id pd e with hown | ⟨u, hu, hother⟩ | hmem
    · exact Or.inl ⟨t, by rwa [Function.update_self]⟩
    · exact Or.inl ⟨u, by rwa [Function.update_of_ne hu]⟩
    · exact Or.inr hmem

/-- A change of the hand of `t` that leaves its queue pairs. -/
theorem InHand.regrip (h : InHand handles qps hand) (hsame : k.qps = (hand t).qps)
    (hcounts : ∀ pd, handles'.count (.thread t, pd) = k.pds.count pd)
    (hothers : ∀ holder, (∀ pd, holder ≠ (.thread t, pd)) →
      handles'.count holder = handles.count holder)
    (hqp : ∀ id pd, (id, pd) ∈ (hand t).qps → pd ∈ k.pds)
    (hreg : ∀ pd, k.reg = some pd → pd ∈ k.pds) : InHand handles' qps (update hand t k) := by
  refine h.change hcounts (fun u hu pd => hothers _ fun pd' e => hu ?_) (fun id pd e => ?_)
    (fun u _ id pd e => (h.qp e).2) hreg fun id pd e => ?_
  · cases e
    rfl
  · rw [hsame] at e
    exact ⟨hqp id pd e, (h.qp e).2⟩
  · rcases h.qps e with ⟨u, hu⟩ | hmem
    · by_cases hut : u = t
      · exact Or.inl (hsame ▸ hut ▸ hu)
      · exact Or.inr (Or.inl ⟨u, hut, hu⟩)
    · refine Or.inr (Or.inr ?_)
      rw [← List.count_pos_iff] at hmem ⊢
      rwa [hothers _ (fun _ => by rintro ⟨⟩)]

/-- A thread has got a handle. -/
theorem InHand.take (h : InHand handles qps hand) (t : Tid) (pd : Nat) :
    InHand ((.thread t, pd) :: handles) qps (update hand t { hand t with pds := pd :: (hand t).pds }) := by
  refine h.regrip rfl (fun pd' => ?_) (fun holder hne => ?_) (fun id pd' e => ?_) fun pd' e => ?_
  · rw [List.count_cons, List.count_cons, h.counts]
    simp
  · exact List.count_cons_of_ne (hne pd).symm
  · exact List.mem_cons_of_mem _ (h.qp e).1
  · exact List.mem_cons_of_mem _ (h.reg e)

/-- A thread has dropped one of its handles. -/
theorem InHand.drop (h : InHand handles qps hand) (hreg : (hand t).reg = none)
    (hqp : ∀ id, (id, pd) ∈ (hand t).qps → 2 ≤ (hand t).pds.count pd) :
    InHand (handles.erase (.thread t, pd)) qps
      (update hand t { hand t with pds := (hand t).pds.erase pd }) := by
  refine h.regrip rfl (fun pd' => ?_) (fun holder hne => ?_) (fun id pd' e => ?_) fun pd' e => ?_
  · rw [List.count_erase, List.count_erase, h.counts]
    simp
  · exact List.count_erase_of_ne (hne pd)
  · by_cases hpd : pd' = pd
    · subst hpd
      have := hqp id e
      refine List.count_pos_iff.mp ?_
      rw [List.count_erase_self]
      omega
    · exact (List.mem_erase_of_ne hpd).mpr (h.qp e).1
  · have e : (hand t).reg = some pd' := e
    rw [hreg] at e
    cases e

/-- A thread has made a registration in a domain it holds, or stored one. -/
theorem InHand.register (h : InHand handles qps hand) {k : Hand} (hqps : k.qps = (hand t).qps)
    (hpds : k.pds = (hand t).pds) (hreg : ∀ pd, k.reg = some pd → pd ∈ k.pds) :
    InHand handles qps (update hand t k) := by
  refine h.regrip hqps (fun pd => ?_) (fun _ _ => rfl) (fun id pd e => ?_) hreg
  · rw [hpds]
    exact h.counts t pd
  · rw [hpds]
    exact (h.qp e).1

/-- A thread has made a queue pair in a domain it holds. -/
theorem InHand.create (h : InHand handles qps hand) (hpd : pd ∈ (hand t).pds)
    (hnone : ∀ u, (hand u).qps = []) : InHand handles (qps.insert id pd)
      (update hand t { hand t with qps := (id, pd) :: (hand t).qps }) := by
  have hno {u : Tid} {q : Nat × Nat} {P : Prop} (hq : q ∈ (hand u).qps) : P := by
    rw [hnone] at hq
    cases hq
  refine h.change (h.counts _) (fun _ _ _ => rfl) (fun id' pd' e => ?_)
    (fun _ _ _ _ e => hno e) (fun _ e => h.reg e) fun id' pd' e => ?_
  · rcases List.mem_cons.mp e with e | e
    · cases e
      exact ⟨hpd, AList.lookup_insert qps⟩
    · exact hno e
  · rw [HashMap.lookup_insert] at e
    by_cases hid : id' = id
    · rw [if_pos hid] at e
      cases e
      exact Or.inl (hid ▸ List.mem_cons_self)
    · rw [if_neg hid] at e
      rcases h.qps e with ⟨u, hu⟩ | hmem
      · exact hno hu
      · exact Or.inr (Or.inr hmem)

/-- A thread has destroyed a queue pair, and no other has one in hand. -/
theorem InHand.destroy (h : InHand handles qps hand) (hothers : ∀ u ≠ t, (hand u).qps = [])
    (id : Nat) : InHand handles (qps.erase id)
      (update hand t { hand t with qps := (hand t).qps.filter (·.1 ≠ id) }) := by
  refine h.change (h.counts _) (fun _ _ _ => rfl) (fun id' pd' e => ?_)
    (fun u hu id' pd' e => ?_) (fun _ e => h.reg e) fun id' pd' e => ?_
  · obtain ⟨hqp, hid⟩ := List.mem_filter.mp e
    have hid : id' ≠ id := by simpa using hid
    exact ⟨(h.qp hqp).1, (AList.lookup_erase_ne hid).trans (h.qp hqp).2⟩
  · rw [hothers u hu] at e
    cases e
  · have hid : id' ≠ id := by
      intro hid
      rw [hid, AList.lookup_erase] at e
      cases e
    rw [AList.lookup_erase_ne hid] at e
    rcases h.qps e with ⟨u, hu⟩ | hmem
    · by_cases hut : u = t
      · exact Or.inl (List.mem_filter.mpr ⟨hut ▸ hu, by simpa using hid⟩)
      · exact Or.inr (Or.inl ⟨u, hut, hu⟩)
    · exact Or.inr (Or.inr hmem)

/-- The service has moved its connection into a group. -/
theorem InHand.push (h : InHand handles qps hand) (hreg : (hand .service).reg = none)
    (hqp : (hand .service).qps = [(id, pd)]) {isNew : Bool} {g : UInt32} :
    InHand (handlesPushed .service handles isNew g id pd) qps
      (update hand .service { hand .service with pds := (hand .service).pds.erase pd, qps := [] }) := by
  have hcount (u : Tid) (pd' : Nat) : (handlesPushed .service handles isNew g id pd).count (.thread u, pd') =
      (handles.erase (.thread .service, pd)).count (.thread u, pd') := by
    unfold handlesPushed
    rw [List.count_append, List.count_cons_of_ne (by rintro ⟨⟩)]
    cases isNew with
    | false => simp
    | true => simp
  refine h.change (fun pd' => ?_) (fun u hu pd' => ?_) nofun (fun u _ id pd e => (h.qp e).2)
    (fun pd' e => ?_) fun id' pd' e => Or.inr ?_
  · rw [hcount, List.count_erase, List.count_erase, h.counts]
    simp
  · rw [hcount]
    exact List.count_erase_of_ne fun e => hu (by cases e; rfl)
  · have e : (hand .service).reg = some pd' := e
    rw [hreg] at e
    cases e
  · rcases h.qps e with ⟨u, hu⟩ | hmem
    · by_cases hus : u = .service
      · rw [hus, hqp, List.mem_singleton] at hu
        cases hu
        exact Or.inr (List.mem_append_right _ List.mem_cons_self)
      · exact Or.inl ⟨u, hus, hu⟩
    · exact Or.inr (List.mem_append_right _
        (List.mem_cons_of_mem _ ((List.mem_erase_of_ne (by rintro ⟨⟩)).mpr hmem)))

/-- With nothing in hand, no handle is a thread's. -/
theorem InHand.shared (h : InHand handles qps hand) (hempty : ∀ t, (hand t).Empty) :
    handles.filter (·.1.shared) = handles := by
  refine List.filter_eq_self.mpr fun e he => ?_
  obtain ⟨holder, pd⟩ := e
  cases holder with
  | thread u =>
      have hcount := h.counts u pd
      rw [(hempty u).1, List.count_nil, List.count_eq_zero] at hcount
      exact absurd he hcount
  | group | connection => rfl

/-- **The groups' entries pass to the thread that drops them**: their handles and their queue pairs
    are in its hand. -/
theorem InHand.pass (h : InHand handles qps hand) (hempty : ∀ t, (hand t).Empty) {groups : Groups}
    (hstock : Stocked handles groups)
    (hmember : ∀ {g e}, groups.lookup g = some e → ∀ conn ∈ e.connections, ∃ id,
      conn.id = some id ∧ conn.pd = some e.pd ∧ qps.lookup id = some e.pd.pd)
    {entries : List (UInt32 × GroupEntry)} (hentries : entries.Perm (HashMap.toList groups)) :
    InHand (handles.map fun x => (x.1.passed t, x.2)) qps
      (update hand t ((hand t).changed .dropShared entries)) := by
  have hshared : ∀ x ∈ handles, x.1.shared = true := List.filter_eq_self.mp (h.shared hempty)
  have hall : handles.Perm (stockOf groups) := h.shared hempty ▸ hstock
  have hpassed : (handles.map fun x => (x.1.passed t, x.2)) =
      (handles.map Prod.snd).map (Prod.mk (Holder.thread t)) := by
    rw [List.map_map]
    refine List.map_congr_left fun x hx => ?_
    obtain ⟨holder, pd⟩ := x
    cases holder with
    | thread u => cases hshared _ hx
    | group | connection => rfl
  have hdomains : (handles.map Prod.snd).Perm (entries.flatMap fun e => e.2.domains) := by
    refine (hall.map Prod.snd).trans ?_
    unfold stockOf
    rw [List.map_flatMap]
    refine List.Perm.trans ?_ (hentries.flatMap_right fun e => e.2.domains).symm
    refine List.Perm.of_eq (List.flatMap_congr fun e _ => ?_)
    unfold GroupEntry.handles GroupEntry.domains domainsOf
    rw [List.map_cons, List.map_filterMap]
    simp [Option.map_map, Function.comp_def]
  have hno {u : Tid} {q : Nat × Nat} {P : Prop} (hq : q ∈ (hand u).qps) : P := by
    rw [(hempty u).2.1] at hq
    cases hq
  rw [hpassed]
  refine h.change (fun pd => ?_) (fun u hu pd => ?_) (fun id pd e => ?_)
    (fun _ _ _ _ e => hno e) (fun pd e => ?_) fun id pd e => ?_
  · rw [List.count_map_of_injective _ _ (Prod.mk_right_injective _)]
    exact hdomains.count_eq pd
  · rw [h.counts, (hempty u).1, List.count_nil, List.count_eq_zero]
    rintro hmem
    obtain ⟨_, _, he⟩ := List.mem_map.mp hmem
    cases he
    exact hu rfl
  · obtain ⟨conn, hconn, hpair⟩ := List.mem_filterMap.mp e
    obtain ⟨hid, dom, hdom, rfl⟩ := queuePair_eq hpair
    obtain ⟨entry, hentry, hmem⟩ := List.mem_flatMap.mp hconn
    obtain ⟨id', hid', hpd', hqp⟩ :=
      hmember (HashMap.mem_toList.mp (hentries.mem_iff.mp hentry)) conn hmem
    cases hid.symm.trans hid'
    cases hdom.symm.trans hpd'
    exact ⟨mem_domains_flat hconn hdom, hqp⟩
  · have e : (hand t).reg = some pd := e
    rw [(hempty t).2.2] at e
    cases e
  · rcases h.qps e with ⟨u, hu⟩ | hmem
    · exact hno hu
    · refine Or.inl ?_
      obtain ⟨entry, hentry, hhandle⟩ := List.mem_flatMap.mp (hall.mem_iff.mp hmem)
      rcases List.mem_cons.mp hhandle with hgroup | hheld
      · cases hgroup
      · obtain ⟨conn, hconn, he⟩ := List.mem_filterMap.mp hheld
        obtain ⟨dom, hdom, he⟩ := Option.map_eq_some_iff.mp he
        obtain ⟨id', hid', _, _⟩ := hmember (HashMap.mem_toList.mp hentry) conn hconn
        rw [hid'] at he
        cases he
        refine List.mem_filterMap.mpr ⟨conn, List.mem_flatMap.mpr
          ⟨entry, hentries.mem_iff.mpr hentry, hconn⟩, ?_⟩
        unfold Connection.queuePair
        rw [hid', hdom]
        rfl

end Device

/-! ## 2. The invariant -/

/-- The id whose queue pair was read, and whether there was one. -/
def Op.queried : (o : Op) → o.Ans → Option (Nat × Bool)
  | .verb (.qpOf id), has => some (id, has)
  | _, _ => none

/-- An id of the listener has its queue pair from `rdma_create_qp` to `rdma_destroy_qp`. -/
def QpTold (t : Tid) (o : Op) (w : World) (a : o.Ans) : Prop :=
  ∀ q ∈ o.queried a, t.isProvider = true → q.2 = (w.hca.qps.lookup q.1).isSome

instance (t : Tid) (o : Op) (w : World) (a : o.Ans) : Decidable (QpTold t o w a) :=
  inferInstanceAs (Decidable (∀ q ∈ o.queried a, _))

/-- What the threads have in hand is what the device knows of them, and is in hand only at work or
    in the drop; what the groups hold is what the device has for them. -/
structure Sustained (w : World) (know : Tid → Know) (hand : Tid → Hand) : Prop where
  role : ∀ t, (hand t).role = t
  truthful : ∀ t, (hand t).truthful = true
  idle : ∀ t, (know t).Works ∨ (know t).Frees ∨ (hand t).Empty
  /-- Queue pairs are in the hands of the service, or of the application in the drop. -/
  owner : ∀ t ≠ .service, (hand t).qps = [] ∨ (know t).Frees
  device : InHand w.hca.handles w.hca.qps hand
  stocked : Stocked w.hca.handles w.shared.groups
  held : ∀ t mr, (know t).tup.held = some mr → (hand t).reg = some mr.pd

theorem sustained_start : Sustained {} firstKnow fun t => { role := t } where
  role _ := rfl
  truthful _ := rfl
  idle _ := Or.inr (Or.inr ⟨rfl, rfl, rfl⟩)
  owner _ _ := Or.inl rfl
  device := inHand_empty fun _ => ⟨rfl, rfl, rfl⟩
  stocked := .nil
  held t _ e := by cases t <;> cases e

section Steps

open Function (update)

variable {w : World} {know : Tid → Know} {hand : Tid → Hand} {t : Tid} {o : Op} {a : o.Ans}

theorem post_verb {v : Verb} (ht : t.isProvider = true) (a : v.Ans) :
    post t (.verb v) a w = verbPost t w v a := by
  cases t with
  | app | service | session => rfl
  | reader | net => cases ht

/-- The handles and the queue pairs are as they were. -/
def SameDevice (w w' : World) : Prop :=
  w'.hca.handles = w.hca.handles ∧ w'.hca.qps = w.hca.qps

/-- The C calls of a reader are not on the provider's device. -/
theorem elsewhere_device {v : Verb} (ht : t.isProvider = false) (a : v.Ans) :
    SameDevice w (post t (.verb v) a w) := by
  cases t with
  | app | service | session => cases ht
  | reader i =>
      simp only [post, readerVerbPost]
      split <;> first | exact ⟨rfl, rfl⟩ | (split <;> exact ⟨rfl, rfl⟩)
  | net => exact ⟨rfl, rfl⟩

theorem plain_device (ho : o.Plain) (a : o.Ans) : SameDevice w (post t o a w) := by
  have hf := post_frame (t := t) (w := w) o a
  cases o with
  | verb v =>
      have hverb : SameDevice w (verbPost t w v a) := by
        unfold verbPost
        split <;> first | exact ho.elim | exact ⟨rfl, rfl⟩ | (split <;> exact ⟨rfl, rfl⟩)
      cases t with
      | reader | net => exact elsewhere_device rfl a
      | app | service | session => exact hverb
  | groupsGetPd | groupsPush | tuplesInsert | takeService | dropShared | exit => exact ho.elim
  | tuplesClear => exact ⟨rfl, rfl⟩
  | _ =>
      rw [SameDevice, hf.hca rfl]
      exact ⟨rfl, rfl⟩

/-- A thread that is not the provider's changes nothing here. -/
theorem outside_device (hp : t.isProvider = false) (hrole : (know t).role = t) (hm : may (know t) o)
    (a : o.Ans) : SameDevice w (post t o a w) := by
  have hno {P : Prop} (h : (know t).role.isProvider = true) : P := by
    rw [hrole, hp] at h
    cases h
  by_cases ho : o.Plain
  · exact plain_device ho a
  · cases o with
    | verb v => exact elsewhere_device hp a
    | groupsGetPd => exact hno hm.role
    | groupsPush => exact hno (by rw [hm.service]; rfl)
    | tuplesInsert => exact hno hm.works.role
    | dropShared => exact hno (by rw [hm.1]; rfl)
    | takeService | exit =>
        rw [SameDevice, (post_frame (t := t) (w := w) _ a).hca rfl]
        exact ⟨rfl, rfl⟩
    | _ => exact absurd trivial ho

/-- Off work a thread has in hand what it had, until the drop. -/
theorem off_work (hrole : (know t).role = t) (hrole' : (hand t).role = t) (hm : may (know t) o)
    (a : o.Ans) :
    o = .dropShared ∨ (know t).Works ∨ (know t).Frees ∨ (hand t).next o a = hand t := by
  by_cases hp : t.isProvider = true
  · have hnext : (hand t).next o a = (hand t).changed o a := if_pos (by rw [hrole']; exact hp)
    have hrole : (know t).role.isProvider = true := by rw [hrole]; exact hp
    have hworks (hstage : (know t).stage = .running) : o = .dropShared ∨ (know t).Works ∨
        (know t).Frees ∨ (hand t).next o a = hand t := Or.inr (Or.inl ⟨hrole, hstage⟩)
    by_cases ho : o.Plain
    · exact Or.inr (Or.inr (Or.inr (hnext.trans (plain_op ho (hand t) a).2)))
    · cases o with
      | verb v =>
          cases v with
          | regMr => exact hworks hm.works.stage
          | createQp => exact hworks (hm hrole).2.1
          | allocPd => exact hworks (hm hrole).2
          | clonePd => exact hworks (hm hrole)
          | destroyQp =>
              exact (hm hrole).elim (fun h => hworks h.2.1) fun h => Or.inr (Or.inr (Or.inl h))
          | dropPd | qpOf =>
              exact (hm hrole).elim hworks fun h => Or.inr (Or.inr (Or.inl h))
          | _ => exact absurd trivial ho
      | groupsGetPd => exact hworks hm.stage
      | groupsPush => exact hworks hm.stage
      | tuplesInsert => exact hworks hm.works.stage
      | takeService | exit => exact Or.inr (Or.inr (Or.inr hnext))
      | dropShared => exact Or.inl rfl
      | _ => exact absurd trivial ho
  · exact Or.inr (Or.inr (Or.inr (if_neg (by rw [hrole']; exact hp))))

/-- A thread at work stays at work until it ends, with nothing in hand. -/
theorem works_stays (hm : may (know t) o) (hworks : (know t).Works) (a : o.Ans) :
    (next (know t) o a).Works ∨ o = .takeService ∨ o = .exit := by
  have hrecalls := next_recalls (know t) o a
  by_cases ho : o.staged = false
  · exact Or.inl ⟨hrecalls.role ▸ hworks.role, (hrecalls.stage ho).trans hworks.stage⟩
  have hstage {s : Stage} {P : Prop} (h : (know t).stage = s) (hs : s ≠ .running) : P :=
    absurd (h.symm.trans hworks.stage) hs
  cases o with
  | spawnService | spawnSession | joinSession => exact Or.inl ⟨hworks.role, hworks.stage⟩
  | isFinished n =>
      cases a with
      | false => exact Or.inl hworks
      | true => exact Or.inl ⟨hworks.role, hworks.stage⟩
  | awaitService | awaitSession | setShutdown | joinService | tuplesClear | dropShared =>
      exact hstage hm.2 (by decide)
  | takeService => exact Or.inr (Or.inl rfl)
  | exit => exact Or.inr (Or.inr rfl)
  | _ => exact absurd rfl ho

/-- What the application does in the drop, until it ends. -/
theorem frees_stays (hm : may (know t) o) (hfrees : (know t).Frees) (a : o.Ans) :
    (next (know t) o a).Frees ∨ o = .exit := by
  have hrecalls := next_recalls (know t) o a
  by_cases ho : o.staged = false
  · exact Or.inl ⟨hrecalls.role.trans hfrees.app, (hrecalls.stage ho).trans hfrees.stage⟩
  have hstage {s : Stage} {P : Prop} (h : (know t).stage = s) (hs : s ≠ .bare) : P :=
    absurd (h.symm.trans hfrees.stage) hs
  cases o with
  | takeService => exact hstage hm.2.1 (by decide)
  | spawnService | spawnSession | joinSession | isFinished | awaitService | awaitSession
  | setShutdown | joinService | tuplesClear | dropShared => exact hstage hm.2 (by decide)
  | exit => exact Or.inr rfl
  | _ => exact absurd rfl ho

/-- In the drop no thread of the provider is at work. -/
theorem Know.Frees.alone (hl : Lives w know) (hfrees : (know t).Frees) {u : Tid}
    (hworks : (know u).Works) : False := by
  have ht : t = .app := (hl.role t).symm.trans hfrees.app
  subst ht
  refine hl.quiet (t := u) (by rw [hfrees.stage]; rfl) ?_ hworks.stage
  rw [← hl.role u]
  exact hworks.role

/-- One thread at most frees. -/
theorem Know.Frees.same (hl : Lives w know) {u : Tid} (ht : (know t).Frees) (hu : (know u).Frees) :
    u = t :=
  (((hl.role u).symm.trans hu.app).trans ht.app.symm).trans (hl.role t)

/-- When the provider's state is dropped, no thread has anything in hand. -/
theorem Sustained.empty (hl : Lives w know) (h : Sustained w know hand)
    (hm : may (know t) .dropShared) (u : Tid) : (hand u).Empty := by
  have ht : t = .app := (hl.role t).symm.trans hm.1
  subst ht
  rcases h.idle u with hworks | hfrees | hempty
  · refine (hl.quiet (t := u) (by rw [hm.2]; rfl) ?_ hworks.stage).elim
    rw [← hl.role u]
    exact hworks.role
  · have hu : u = .app := (hl.role u).symm.trans hfrees.app
    subst hu
    cases hm.2.symm.trans hfrees.stage
  · exact hempty

/-- The service at work, or the application in the drop, is the only one with queue pairs. -/
theorem Sustained.sole (hl : Lives w know) (h : Sustained w know hand)
    (ht : (t = .service ∧ (know t).Works) ∨ (know t).Frees) : ∀ u ≠ t, (hand u).qps = [] := by
  intro u hu
  rcases ht with ⟨rfl, hworks⟩ | hfrees
  · exact (h.owner u hu).resolve_right fun hfrees => hfrees.alone hl hworks
  · rcases h.idle u with hworks | hfrees' | hempty
    · exact (hfrees.alone hl hworks).elim
    · exact absurd (hfrees.same hl hfrees') hu
    · exact hempty.2.1

theorem Hand.next_empty {k : Hand} (ho : o = .takeService ∨ o = .exit) (a : o.Ans) :
    k.next o a = k := by
  unfold Hand.next
  split
  · rcases ho with rfl | rfl <;> rfl
  · rfl

theorem Sustained.idle_step (hl : Lives w know) (h : Sustained w know hand)
    (hm : may (know t) o) (ha : (hand t).Told → (hand t).Allows o) (a : o.Ans) (u : Tid) :
    (update know t (next (know t) o a) u).Works ∨ (update know t (next (know t) o a) u).Frees ∨
      (update hand t ((hand t).next o a) u).Empty := by
  by_cases hu : u = t
  · subst hu
    rw [Function.update_self, Function.update_self]
    -- at its end a thread has nothing in hand
    have hend (hp : (know u).role.isProvider = true) (ho : o = .takeService ∨ o = .exit) :
        ((hand u).next o a).Empty := by
      have htold : (hand u).Told := ⟨by rw [h.role u, ← hl.role u]; exact hp, h.truthful u⟩
      rw [Hand.next_empty ho]
      rcases ho with rfl | rfl <;> exact ha htold
    by_cases hworks : (know u).Works
    · rcases works_stays hm hworks a with hstays | ho
      · exact Or.inl hstays
      · exact Or.inr (Or.inr (hend hworks.role ho))
    by_cases hfrees : (know u).Frees
    · rcases frees_stays hm hfrees a with hstays | ho
      · exact Or.inr (Or.inl hstays)
      · exact Or.inr (Or.inr (hend (by rw [hfrees.app]; rfl) (Or.inr ho)))
    have hempty := ((h.idle u).resolve_left hworks).resolve_left hfrees
    rcases off_work (hl.role u) (h.role u) hm a with rfl | hworks' | hfrees' | hsame
    · exact Or.inr (Or.inl ⟨hm.1, rfl⟩)
    · exact absurd hworks' hworks
    · exact absurd hfrees' hfrees
    · rw [hsame]
      exact Or.inr (Or.inr hempty)
  · rw [Function.update_of_ne hu, Function.update_of_ne hu]
    exact h.idle u

/-- Only the making of a queue pair, and the drop, bring one into a hand. -/
theorem next_qps {k : Hand} (hcreate : ∀ id pd cq, o ≠ .verb (.createQp id pd cq))
    (hdrop : o ≠ .dropShared) (hnone : k.qps = []) (a : o.Ans) : (k.next o a).qps = [] := by
  unfold Hand.next
  split
  · fun_cases Hand.changed <;> first
      | exact hnone
      | rfl
      | exact absurd rfl (hcreate _ _ _)
      | exact absurd rfl hdrop
      | exact (congrArg (List.filter _) hnone).trans rfl
  · exact hnone

theorem Sustained.owner_step (hl : Lives w know) (h : Sustained w know hand) (hm : may (know t) o)
    (ha : (hand t).Told → (hand t).Allows o) (a : o.Ans) (u : Tid) (hu : u ≠ .service) :
    (update hand t ((hand t).next o a) u).qps = [] ∨
      (update know t (next (know t) o a) u).Frees := by
  by_cases hut : u = t
  · subst hut
    rw [Function.update_self, Function.update_self]
    by_cases hdrop : o = .dropShared
    · subst hdrop
      exact Or.inr ⟨hm.1, rfl⟩
    rcases h.owner u hu with hnone | hfrees
    · by_cases hp : u.isProvider = true
      · refine Or.inl (next_qps (fun id pd cq ho => hu ?_) hdrop hnone a)
        subst ho
        exact (hl.role u).symm.trans (hm (by rw [hl.role u]; exact hp)).1
      · left
        rw [show (hand u).next o a = hand u from if_neg (by rw [h.role u]; exact hp)]
        exact hnone
    · rcases frees_stays hm hfrees a with hstays | rfl
      · exact Or.inr hstays
      · have htold : (hand u).Told :=
          ⟨by rw [h.role u, ← hl.role u, hfrees.app]; rfl, h.truthful u⟩
        rw [Hand.next_empty (Or.inr rfl)]
        exact Or.inl (ha htold).2.1
  · rw [Function.update_of_ne hut, Function.update_of_ne hut]
    exact h.owner u hu

/-- **What a thread has in hand after an operation, the device knows of it.** -/
theorem Sustained.device_step (hl : Lives w know) (hd : Domains w know) (h : Sustained w know hand)
    (hm : may (know t) o) (ha : (hand t).Told → (hand t).Allows o) {a : o.Ans} (hc : can t o w a) :
    InHand (post t o a w).hca.handles (post t o a w).hca.qps
      (update hand t ((hand t).next o a)) := by
  have hi := h.device
  have hf := post_frame (t := t) (w := w) o a
  have hsame (hw : SameDevice w (post t o a w)) (hk : (hand t).next o a = hand t) :
      InHand (post t o a w).hca.handles (post t o a w).hca.qps (update hand t ((hand t).next o a)) := by
    rw [hw.1, hw.2, hk, Function.update_eq_self]
    exact hi
  by_cases hp : t.isProvider = true
  · have hrole : (know t).role.isProvider = true := by rw [hl.role t, hp]
    have hrole' : (hand t).role.isProvider = true := by rw [h.role t, hp]
    have hnext : (hand t).next o a = (hand t).changed o a := if_pos hrole'
    have ha := ha ⟨hrole', h.truthful t⟩
    by_cases ho : o.Plain
    · exact hsame (plain_device ho a) (hnext.trans (plain_op ho (hand t) a).2)
    rw [hnext]
    cases o with
    | verb v =>
        rw [post_verb hp]
        cases v with
        | allocPd context =>
            cases a with
            | none => exact (Function.update_eq_self t hand).symm ▸ hi
            | some pd => exact hi.take t pd
        | clonePd pd => exact hi.take t pd
        | dropPd pd => exact hi.drop ha.2.1 ha.2.2
        | createQp id pd cq =>
            obtain ⟨hservice, hrun, _⟩ := hm hrole
            have ht : t = .service := (hl.role t).symm.trans hservice
            have hsole := h.sole hl (Or.inl ⟨ht, hrole, hrun⟩)
            have hchanged : (hand t).changed (.verb (.createQp id pd cq)) a =
              if a = 0 then { hand t with qps := (id, pd) :: (hand t).qps } else hand t := rfl
            have hpost : verbPost t w (.createQp id pd cq) a =
              if a = 0 then { w with hca.qps := w.hca.qps.insert id pd } else w := rfl
            rw [hchanged, hpost]
            by_cases hret : a = 0
            · rw [if_pos hret, if_pos hret]
              refine hi.create ha.1 fun u => ?_
              by_cases hu : u = t
              · exact hu ▸ ha.2
              · exact hsole u hu
            · rw [if_neg hret, if_neg hret, Function.update_eq_self]
              exact hi
        | destroyQp id =>
            rcases hm hrole with ⟨hservice, hrun, _⟩ | hfrees
            · have ht : t = .service := (hl.role t).symm.trans hservice
              exact hi.destroy (h.sole hl (Or.inl ⟨ht, hrole, hrun⟩)) id
            · exact hi.destroy (h.sole hl (Or.inr hfrees)) id
        | qpOf id => exact hi.register rfl rfl fun pd e => hi.reg e
        | regMr pd addr size =>
            cases a with
            | none => exact (Function.update_eq_self t hand).symm ▸ hi
            | some made =>
                refine hi.register rfl rfl fun pd' e => ?_
                cases e
                exact ha
        | _ => exact absurd trivial ho
    | groupsGetPd g =>
        cases a with
        | none => exact (Function.update_eq_self t hand).symm ▸ hi
        | some pd => exact hi.take t pd.pd
    | groupsPush g conn =>
        have ht : t = .service := (hl.role t).symm.trans hm.service
        subst ht
        obtain ⟨hreg, id, pd, hid, hpd, hqp, _⟩ := ha
        show InHand (pushPost .service w g conn).hca.handles (pushPost .service w g conn).hca.qps
          (update hand .service ((hand .service).changed (.groupsPush g conn) a))
        have hchanged : (hand .service).changed (.groupsPush g conn) a = { hand .service with
          pds := (hand .service).pds.erase ((conn.pd.map (·.pd)).getD 0), qps := [] } := rfl
        rw [pushPost_eq hid hpd, hchanged, hpd]
        exact hi.push hreg hqp
    | dropShared =>
        refine hi.pass (h.empty hl hm) h.stocked (fun he conn hconn => ?_) hc
        obtain ⟨id, hid, hpd, hqp, _⟩ := hd.joined.member he conn hconn
        exact ⟨id, hid, hpd, hqp⟩
    | tuplesInsert id g mr => exact hi.register rfl rfl nofun
    | takeService | exit =>
        rw [hf.hca rfl, show (hand t).changed _ a = hand t from rfl, Function.update_eq_self]
        exact hi
    | _ => exact absurd trivial ho
  · exact hsame (outside_device (by simpa using hp) (hl.role t) hm a)
      (if_neg (by rw [h.role t]; exact hp))

theorem changed_reg (ho : o.teachesTup = false) (k : Hand) (a : o.Ans) :
    (k.changed o a).reg = k.reg := by
  fun_cases Hand.changed <;> first | rfl | cases ho

theorem Sustained.held_step (hl : Lives w know) (h : Sustained w know hand) (hm : may (know t) o)
    (a : o.Ans) (u : Tid) (mr : MemoryRegion)
    (e : (update know t (next (know t) o a) u).tup.held = some mr) :
    (update hand t ((hand t).next o a) u).reg = some mr.pd := by
  by_cases hu : u = t
  · subst hu
    rw [Function.update_self] at e ⊢
    have hstays (hnext : (next (know u) o a).tup.held = (know u).tup.held)
        (hreg : ((hand u).changed o a).reg = (hand u).reg) : ((hand u).next o a).reg = some mr.pd := by
      rw [hnext] at e
      unfold Hand.next
      split
      · rw [hreg]
        exact h.held u mr e
      · exact h.held u mr e
    by_cases ho : o.teachesTup = false
    · exact hstays (by rw [(next_recalls (know u) o a).tup ho]) (changed_reg ho _ a)
    cases o with
    | verb v =>
        cases v with
        | regMr pd addr size =>
            cases a with
            | none => exact hstays rfl rfl
            | some made =>
                have hp : (hand u).role.isProvider = true := by
                  rw [h.role u, ← hl.role u]
                  exact hm.works.role
                cases e
                rw [show (hand u).next _ _ = _ from if_pos hp]
                rfl
        | _ => exact absurd rfl ho
    | tcpAccept | groupsGetPd =>
        cases a with
        | none => exact hstays rfl rfl
        | some => exact hstays rfl rfl
    | catalogSnapshot | catalogGet | groupsPush => exact hstays rfl rfl
    | tuplesGet | tuplesInsert | takeService | exit => cases e
    | _ => exact absurd rfl ho
  · rw [Function.update_of_ne hu] at e ⊢
    exact h.held u mr e

theorem Sustained.role_step (h : Sustained w know hand) (a : o.Ans) (u : Tid) :
    (update hand t ((hand t).next o a) u).role = u :=
  (proj_update Hand.role ((hand t).next_role o a) u).trans (h.role u)

theorem changed_truthful (ho : ∀ id, o ≠ .verb (.qpOf id)) (k : Hand) (a : o.Ans) :
    (k.changed o a).truthful = k.truthful := by
  fun_cases Hand.changed <;> first | rfl | exact absurd rfl (ho _)

theorem Sustained.truthful_step (h : Sustained w know hand) (hq : QpTold t o w a) (u : Tid) :
    (update hand t ((hand t).next o a) u).truthful = true := by
  by_cases hu : u = t
  · subst hu
    rw [Function.update_self]
    unfold Hand.next
    split
    · rename_i hp
      by_cases ho : ∃ id, o = .verb (.qpOf id)
      · obtain ⟨id, rfl⟩ := ho
        -- the queue pair in hand is one that the device has
        have hhas : a = (w.hca.qps.lookup id).isSome :=
          hq (id, a) rfl (by rw [← h.role u]; exact hp)
        show ((hand u).truthful && (a || decide (∀ q ∈ (hand u).qps, q.1 ≠ id))) = true
        rw [h.truthful u, Bool.true_and, Bool.or_eq_true, decide_eq_true_eq]
        by_cases hid : ∃ pd, (id, pd) ∈ (hand u).qps
        · obtain ⟨pd, hid⟩ := hid
          rw [hhas, (h.device.qp hid).2]
          exact Or.inl rfl
        · refine Or.inr fun q hq hid' => hid ⟨q.2, ?_⟩
          rwa [← hid']
      · rw [changed_truthful fun id e => ho ⟨id, e⟩]
        exact h.truthful u
    · exact h.truthful u
  · rw [Function.update_of_ne hu]
    exact h.truthful u

/-- Only a connection that joins, and the drop, change what the groups hold. -/
theorem stock_kept (hpush : ∀ g conn, o ≠ .groupsPush g conn) (hdrop : o ≠ .dropShared) (a : o.Ans) :
    (post t o a w).hca.handles.filter (·.1.shared) = w.hca.handles.filter (·.1.shared) ∧
      (post t o a w).shared.groups = w.shared.groups := by
  have hf := post_frame (t := t) (w := w) o a
  cases o with
  | verb v =>
      refine ⟨?_, congrArg SharedState.groups (hf.shared rfl)⟩
      by_cases hp : t.isProvider = true
      · rw [post_verb hp]
        unfold verbPost
        split <;> first
          | rfl
          | exact filter_erase_thread
          | (split <;> rfl)
      · rw [(elsewhere_device (by simpa using hp) a).1]
  | groupsGetPd => cases a <;> exact ⟨rfl, rfl⟩
  | groupsPush g conn => exact absurd rfl (hpush g conn)
  | dropShared => exact absurd rfl hdrop
  | catalogInsert | tuplesInsert | tuplesClear => exact ⟨rfl, rfl⟩
  | _ => exact ⟨by rw [hf.hca rfl], by rw [hf.shared rfl]⟩

theorem Sustained.stocked_step (hl : Lives w know) (h : Sustained w know hand) (hm : may (know t) o)
    (ha : (hand t).Told → (hand t).Allows o) (a : o.Ans) :
    Stocked (post t o a w).hca.handles (post t o a w).shared.groups := by
  by_cases hpush : ∃ g conn, o = .groupsPush g conn
  · obtain ⟨g, conn, rfl⟩ := hpush
    have ht : t = .service := (hl.role t).symm.trans hm.service
    subst ht
    obtain ⟨_, id, pd, hid, hpd, _⟩ := ha ⟨by rw [h.role]; rfl, h.truthful _⟩
    show Stocked (pushPost .service w g conn).hca.handles (pushPost .service w g conn).shared.groups
    rw [pushPost_eq hid hpd]
    exact h.stocked.push hid hpd
  by_cases hdrop : o = .dropShared
  · subst hdrop
    show List.Perm ((w.hca.handles.map fun x => (x.1.passed t, x.2)).filter (·.1.shared)) []
    refine List.Perm.of_eq (List.filter_eq_nil_iff.mpr fun x hx => ?_)
    obtain ⟨⟨holder, pd⟩, _, rfl⟩ := List.mem_map.mp hx
    cases holder <;> exact Bool.false_ne_true
  obtain ⟨hhandles, hgroups⟩ := stock_kept (w := w) (t := t) (fun g conn e => hpush ⟨g, conn, e⟩)
    hdrop a
  unfold Stocked
  rw [hhandles, hgroups]
  exact h.stocked

/-- Once the application has ended, nothing is left. -/
theorem Sustained.left (hl : Lives w know) (hd : Domains w know) (h : Sustained w know hand)
    (hended : (know .app).stage = .ended) : w.hca.handles = [] ∧ w.hca.qps = ∅ := by
  have hempty (u : Tid) : (hand u).Empty := by
    rcases h.idle u with hworks | hfrees | hempty
    · refine (hl.quiet (t := u) (by rw [hended]; rfl) ?_ hworks.stage).elim
      rw [← hl.role u]
      exact hworks.role
    · have hu : u = .app := (hl.role u).symm.trans hfrees.app
      subst hu
      cases hended.symm.trans hfrees.stage
    · exact hempty
  have hhandles : w.hca.handles = [] := by
    have hstock := h.stocked
    rw [Stocked, hd.looked.dropped (hl.drop.bare (by rw [hended]; decide)), h.device.shared hempty]
      at hstock
    exact hstock.eq_nil
  refine ⟨hhandles, AList.ext ?_⟩
  refine List.eq_nil_iff_forall_not_mem.mpr fun ⟨id, pd⟩ hmem => ?_
  rcases h.device.qps (AList.mem_lookup_iff.mpr hmem) with ⟨u, hu⟩ | hheld
  · rw [(hempty u).2.1] at hu
    cases hu
  · rw [hhandles] at hheld
    cases hheld

end Steps

/-! ## 3. Every run -/

section Runs

open Function (update)

/-- What the threads know and have in hand at the start. -/
def firstHeld (t : Tid) : Know × Hand := (firstKnow t, { role := t })

theorem entry_firstHeld (t : Tid) : entry (firstHeld t).1 (firstLoop t) ∧
    HandEntry (firstHeld t).2 (firstLoop t) :=
  ⟨entry_first t, fun _ => ⟨rfl, rfl, rfl⟩, firstKnow t, entry_first t, by cases t <;> rfl⟩

variable {w : World} {κ : Tid → Know × Hand} {prog : Tid → Code (Option Loop)}

theorem sustained_watched (hw : (provider.restrict QpTold).Watched (protocol.prod handling) {} firstLoop
    firstHeld w prog κ) : Sustained w (fun t => (κ t).1) fun t => (κ t).2 := by
  refine hw.invariant ((provider_follows.prod provider_handles).restrict QpTold) entry_firstHeld
    (I := fun w κ => Sustained w (fun t => (κ t).1) fun t => (κ t).2) sustained_start ?_
  intro w prog κ hw h t o a hm hc
  have hl := lives_watched hw.unrestrict.fst
  have hknow : (fun u => (update κ t ((protocol.prod handling).next (κ t) o a) u).1) =
      update (fun u => (κ u).1) t (next (κ t).1 o a) := Function.comp_update Prod.fst κ t _
  have hhand : (fun u => (update κ t ((protocol.prod handling).next (κ t) o a) u).2) =
      update (fun u => (κ u).2) t ((κ t).2.next o a) := Function.comp_update Prod.snd κ t _
  rw [hknow, hhand]
  have hd := domains_watched hw.unrestrict.fst
  exact ⟨h.role_step a, h.truthful_step hc.2, h.idle_step hl hm.1 hm.2 a,
    h.owner_step hl hm.1 hm.2 a, h.device_step hl hd hm.1 hm.2 hc.1, h.stocked_step hl hm.1 hm.2 a,
    h.held_step hl hm.1 a⟩

/-- The domain of which the next operation of a thread needs a handle. -/
def needs : Code (Option Loop) → Option Nat
  | .act (.verb (.clonePd pd)) _ | .act (.verb (.dropPd pd)) _ | .act (.verb (.regMr pd _ _)) _
  | .act (.verb (.createQp _ pd _)) _ => some pd
  | _ => none

theorem needs_held {p : Code (Option Loop)} {k : Hand} {pd : Nat}
    (h : ∀ o rest, p = .act o rest → k.Allows o) (hpd : needs p = some pd) : pd ∈ k.pds := by
  unfold needs at hpd
  split at hpd
  · cases hpd
    exact h _ _ rfl
  · cases hpd
    exact (h _ _ rfl).1
  · cases hpd
    exact h _ _ rfl
  · cases hpd
    exact (h _ _ rfl).1
  · cases hpd

/-- A handle of the domain is held by somebody. -/
def Alive (w : World) (pd : Nat) : Prop := ∃ holder, (holder, pd) ∈ w.hca.handles

/-- Domains at one instant: every live registration and queue pair has its own, and nothing is left
    once the application has dropped the provider. -/
structure DomainsHeld (c : Config Tid Op World Loop Op.Ans) : Prop where
  regs : ∀ r ∈ c.world.hca.regs, Alive c.world r.mr.pd
  qps : ∀ id pd, c.world.hca.qps.lookup id = some pd → Alive c.world pd
  dropped : c.prog .app = .ret none →
    c.world.hca.regs = [] ∧ c.world.hca.qps = ∅ ∧ c.world.hca.handles = []

/-- **No registration and no queue pair outlives its domain.** At every step of every run, those of
    the drop included, the domain of every live registration and queue pair has a handle, that of a
    thread, of a group or of a connection; a thread of the provider that is about to use or to drop
    a handle has it; and when the drop of the provider has come to its end, no registration, queue
    pair or handle is left. -/
theorem domains_held {c : Config Tid Op World Loop Op.Ans}
    (h : (provider.restrict QpTold).Reach start c) :
    DomainsHeld c ∧ ∀ t pd, t.isProvider = true → needs (c.prog t) = some pd →
      (.thread t, pd) ∈ c.world.hca.handles := by
  obtain ⟨κ, hw⟩ := System.Reach.watched (S := provider.restrict QpTold) (protocol.prod handling)
    firstHeld h
  have hs := sustained_watched hw
  have hwatched := hw.unrestrict.fst
  have hl := lives_watched hwatched
  have ho := owned_watched hwatched
  have hd := domains_watched hwatched
  have hmine {t : Tid} {pd : Nat} (hpd : pd ∈ (κ t).2.pds) : (.thread t, pd) ∈ c.world.hca.handles := by
    rw [← List.count_pos_iff] at hpd ⊢
    rw [hs.device.counts]
    exact hpd
  have hcleared (hgone : c.world.shared.gone = true) : c.world.hca.regs = [] :=
    (ho.registered.cleared (hl.drop.clear (List.mem_cons_of_mem _ (hl.drop.gone hgone)))).2
  refine ⟨⟨fun r hr => ?_, fun id pd e => ?_, fun hover => ?_⟩, fun t pd ht hpd => hmine ?_⟩
  · rcases ho.registered.holder r hr with hstored | ⟨t, hheld⟩
    · -- stored: the group has a handle
      have hgone : c.world.shared.gone = false := by
        by_contra hgone
        rw [hcleared (by simpa using hgone)] at hr
        cases hr
      obtain ⟨e, he, hmr⟩ := hd.looked.made hgone r (ho.served.live r hr)
      rw [hmr]
      exact ⟨.group r.key.2, hd.allotted.handle he⟩
    · -- not stored yet: `tuple_of` has one
      exact ⟨.thread t, hmine (hs.device.reg (hs.held t r.mr hheld))⟩
  · rcases hs.device.qps e with ⟨t, hown⟩ | hmem
    · exact ⟨.thread t, hmine (hs.device.qp hown).1⟩
    · exact ⟨.connection id, hmem⟩
  · have hended : (κ .app).1.stage = .ended :=
      hwatched.ended provider_finishes entry_first hover (hl.role .app)
    obtain ⟨hhandles, hqps⟩ := hs.left hl hd hended
    exact ⟨hcleared (hl.drop.bare (by rw [hended]; decide)), hqps, hhandles⟩
  · have hrole : (κ t).2.role = t := hs.role t
    refine needs_held (fun o rest hprog => ?_) hpd
    exact (hw.may ((provider_follows.prod provider_handles).restrict QpTold) entry_firstHeld hprog).2
      ⟨by rw [hrole]; exact ht, hs.truthful t⟩

/-- A run up to the end of a `tuple_of` that is about to drop its handle. -/
def untilStored : List Move := untilHeld ++ moves .service 1

/-- A run in which the drop stops the service while a session waits for updates. -/
def untilStopped : List Move :=
  untilServed ++ moves .service 2 ++ calls .drop :: moves .app 2 ++ moves (.session 0) 4 ++
    moves .service 3

/-- The drop comes to its end. -/
def untilDropped : List Move := untilStopped ++ moves .app 12

def isOver : Code (Option Loop) → Bool
  | .ret none => true
  | _ => false

theorem over_of_isOver {p : Code (Option Loop)} (h : isOver p = true) : p = .ret none := by
  unfold isOver at h
  split at h
  · rfl
  · cases h

theorem domains_held_stored :
    (∃ c, (provider.restrict QpTold).Reach start c ∧
      c.world.hca.regs.length = 1 ∧ c.world.hca.qps.keys = [1] ∧
      (∃ pd, needs (c.prog .service) = some pd ∧ (.thread .service, pd) ∈ c.world.hca.handles) ∧
      DomainsHeld c) ∧
    ∃ c, (provider.restrict QpTold).Reach start c ∧
      c.world.hca.made.length = 1 ∧ c.world.cm.servedFor.keys = [1] ∧ c.prog .app = .ret none ∧
      c.world.hca.regs = [] ∧ c.world.hca.qps = ∅ ∧ c.world.hca.handles = [] := by
  have hstored : (((provider.restrict QpTold).play start untilStored).map fun c =>
      (c.world.hca.regs.length, c.world.hca.qps.keys, needs (c.prog .service))) =
        some (1, [1], some 1) := by decide +kernel
  have hdropped : (((provider.restrict QpTold).play start untilDropped).map fun c =>
      (c.world.hca.made.length, c.world.cm.servedFor.keys, isOver (c.prog .app))) =
        some (1, [1], true) := by decide +kernel
  constructor
  · obtain ⟨c, hc, he⟩ := Option.map_eq_some_iff.mp hstored
    obtain ⟨hregs, he⟩ := Prod.mk.inj he
    obtain ⟨hqps, hneeds⟩ := Prod.mk.inj he
    have hreach : (provider.restrict QpTold).Reach start c := System.play_reach hc
    have hheld := domains_held hreach
    exact ⟨c, hreach, hregs, hqps, ⟨1, hneeds, hheld.2 _ _ rfl hneeds⟩, hheld.1⟩
  · obtain ⟨c, hc, he⟩ := Option.map_eq_some_iff.mp hdropped
    obtain ⟨hmade, he⟩ := Prod.mk.inj he
    obtain ⟨hserved, hover⟩ := Prod.mk.inj he
    have hreach : (provider.restrict QpTold).Reach start c := System.play_reach hc
    exact ⟨c, hreach, hmade, hserved, over_of_isOver hover,
      (domains_held hreach).1.dropped (over_of_isOver hover)⟩

end Runs

end Rdmalib
