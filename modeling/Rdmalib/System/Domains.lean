/-
  File:      Rdmalib/System/Domains.lean
  Subject:   Groups and their protection domains.

  * `Allotted` -- every group has a domain of its own; `Joined` -- every connection of a group has
    its queue pair in the group's domain; `Looked` -- every registration stored for a group was
    made there, and what threads have looked up of a group still holds;
  * `domains_watched` -- they hold in every run; `GroupDomains` -- what they say at one instant.
-/
import Rdmalib.System.Ownership

namespace Rdmalib

open Base

/-! ## 1. The invariant -/

abbrev Groups := HashMap UInt32 GroupEntry

/-- Every group's domain is live and its own; a domain allocated for an accept is no group's. -/
structure Allotted (groups : Groups) (handles : List (Holder × Nat)) (fresh : Option Nat) : Prop where
  handle : ∀ {g e}, groups.lookup g = some e → (.group g, e.pd.pd) ∈ handles
  apart : ∀ {g g' e e'}, groups.lookup g = some e → groups.lookup g' = some e' → g ≠ g' →
    e.pd.pd ≠ e'.pd.pd
  fresh : ∀ {pd}, fresh = some pd → ∀ {g e}, groups.lookup g = some e → e.pd.pd ≠ pd

/-- `id` is the id of a connection of some group. -/
def Member (groups : Groups) (id : Nat) : Prop :=
  ∃ g e conn, groups.lookup g = some e ∧ conn ∈ e.connections ∧ conn.id = some id

/-- Every connection of a group has its queue pair in the group's domain, and its id is in use. -/
structure Joined (groups : Groups) (qps : HashMap Nat Nat) (opener : HashMap Nat Nat)
    (acc : AcceptKnow) : Prop where
  member : ∀ {g e}, groups.lookup g = some e → ∀ conn ∈ e.connections, ∃ id, conn.id = some id ∧
    conn.pd = some e.pd ∧ qps.lookup id = some e.pd.pd ∧ (opener.lookup id).isSome = true
  qp : ∀ {id pd}, acc.qp = some (id, pd) → qps.lookup id = some pd
  child : ∀ {id}, acc.child = some id → (opener.lookup id).isSome = true ∧ ¬ Member groups id

/-- A registration was made in its group's domain. -/
def Placed (groups : Groups) (r : Registration) : Prop :=
  ∃ e, groups.lookup r.key.2 = some e ∧ r.mr.pd = e.pd.pd

/-- Registrations were made in their group's domain; what was looked up still holds. -/
structure Looked (groups : Groups) (gone : Bool) (made : List Registration)
    (looked : Tid → Option (UInt32 × Option ProtectionDomain)) : Prop where
  made : gone = false → ∀ r ∈ made, Placed groups r
  dropped : gone = true → groups = ∅
  found : ∀ {t g pd}, looked t = some (g, some pd) → ∃ e, groups.lookup g = some e ∧ e.pd = pd
  absent : ∀ {g}, looked .service = some (g, none) → groups.lookup g = none

/-- Only a connect request comes with an id of its own. -/
def Orderly (events : List Notice) : Prop := ∀ e, .later e ∈ events → e.event ≠ .connectRequest

structure Domains (w : World) (know : Tid → Know) : Prop where
  allotted : Allotted w.shared.groups w.hca.handles (know .service).acc.fresh
  joined : Joined w.shared.groups w.hca.qps w.cm.opener (know .service).acc
  looked : Looked w.shared.groups w.shared.gone w.hca.made fun t => (know t).tup.looked
  orderly : Orderly w.cm.events

theorem domains_start : Domains {} firstKnow where
  allotted := ⟨nofun, nofun, nofun⟩
  joined := ⟨nofun, nofun, nofun⟩
  looked := ⟨fun _ => nofun, nofun, (fun {t} _ _ e => by cases t <;> cases e), nofun⟩
  orderly := nofun

/-! ## 2. A connection joins a group -/

/-- The group's entry after a connection with domain `pd` was added. -/
def GroupEntry.pushed (old : Option GroupEntry) (pd : ProtectionDomain) (conn : Connection) :
    GroupEntry :=
  match old with
  | some e => { e with connections := e.connections ++ [conn] }
  | none => ⟨pd, [conn]⟩

theorem groupsPushed_eq {groups : Groups} {g : UInt32} {conn : Connection} {pd : ProtectionDomain}
    (hpd : conn.pd = some pd) : groupsPushed groups g conn =
      some (groups.insert g (GroupEntry.pushed (groups.lookup g) pd conn)) := by
  unfold groupsPushed
  rw [hpd]
  cases groups.lookup g <;> rfl

theorem pushPost_eq {t : Tid} {w : World} {g : UInt32} {conn : Connection} {pd : ProtectionDomain}
    {id : Nat} (hid : conn.id = some id) (hpd : conn.pd = some pd) : pushPost t w g conn =
      { w with
        shared.groups := w.shared.groups.insert g
          (GroupEntry.pushed (w.shared.groups.lookup g) pd conn)
        hca.handles := handlesPushed t w.hca.handles (w.shared.groups.lookup g).isNone g id pd.pd
        cm.servedFor := w.cm.servedFor.insert id (w.tcp.lastSession, g) } := by
  unfold pushPost
  rw [groupsPushed_eq hpd, hid, hpd]
  rfl

section Push

variable {groups : Groups} {g : UInt32} {conn : Connection} {pd : ProtectionDomain} {id : Nat}

/-- The entry keeps the group's domain. -/
theorem pushed_pd (conn : Connection) (hdom : ∀ e, groups.lookup g = some e → e.pd = pd) :
    (GroupEntry.pushed (groups.lookup g) pd conn).pd = pd := by
  cases h : groups.lookup g with
  | none => rfl
  | some e => exact hdom e h

theorem mem_pushed {conn' : Connection}
    (h : conn' ∈ (GroupEntry.pushed (groups.lookup g) pd conn).connections) :
    conn' = conn ∨ ∃ e, groups.lookup g = some e ∧ conn' ∈ e.connections := by
  cases he : groups.lookup g with
  | none =>
      rw [he] at h
      exact Or.inl (List.mem_singleton.mp h)
  | some e =>
      rw [he] at h
      rcases List.mem_append.mp h with h | h
      · exact Or.inr ⟨e, rfl, h⟩
      · exact Or.inl (List.mem_singleton.mp h)

theorem handle_pushed {t : Tid} {handles : List (Holder × Nat)} {isNew : Bool} {g' : UInt32} {n : Nat}
    (h : (Holder.group g', n) ∈ handles) :
    (Holder.group g', n) ∈ handlesPushed t handles isNew g id pd.pd := by
  refine List.mem_append_right _ (List.mem_cons_of_mem _ ?_)
  refine (List.mem_erase_of_ne ?_).mpr h
  intro e
  cases e

theorem Allotted.push {handles : List (Holder × Nat)} {fresh : Option Nat} {t : Tid}
    (h : Allotted groups handles fresh) (hdom : ∀ e, groups.lookup g = some e → e.pd = pd)
    (hnew : groups.lookup g = none → fresh = some pd.pd) :
    Allotted (groups.insert g (GroupEntry.pushed (groups.lookup g) pd conn))
      (handlesPushed t handles (groups.lookup g).isNone g id pd.pd) none := by
  have hpd := pushed_pd conn hdom
  -- the domain of the entry is no other group's
  have hother {g' : UInt32} {e' : GroupEntry} (hg : g ≠ g') (he' : groups.lookup g' = some e') :
      pd.pd ≠ e'.pd.pd := by
    cases he : groups.lookup g with
    | none => exact (h.fresh (hnew he) he').symm
    | some e =>
        have := h.apart he he' hg
        rwa [hdom e he] at this
  refine ⟨fun {g' e'} he => ?_, fun {g₁ g₂ e₁ e₂} he₁ he₂ hne => ?_, nofun⟩
  · rw [HashMap.lookup_insert] at he
    by_cases hg : g' = g
    · rw [if_pos hg] at he
      cases he
      rw [hpd, hg]
      cases he : groups.lookup g with
      | none => exact List.mem_append_left _ (List.mem_singleton.mpr rfl)
      | some e => exact handle_pushed (hdom e he ▸ h.handle he)
    · rw [if_neg hg] at he
      exact handle_pushed (h.handle he)
  · rw [HashMap.lookup_insert] at he₁ he₂
    by_cases hg₁ : g₁ = g
    · by_cases hg₂ : g₂ = g
      · exact absurd (hg₁.trans hg₂.symm) hne
      · rw [if_pos hg₁] at he₁
        rw [if_neg hg₂] at he₂
        cases he₁
        rw [hpd]
        exact hother (Ne.symm hg₂) he₂
    · rw [if_neg hg₁] at he₁
      by_cases hg₂ : g₂ = g
      · rw [if_pos hg₂] at he₂
        cases he₂
        rw [hpd]
        exact (hother (Ne.symm hg₁) he₁).symm
      · rw [if_neg hg₂] at he₂
        exact h.apart he₁ he₂ hne

theorem Joined.push {qps opener : HashMap Nat Nat} {acc : AcceptKnow}
    (h : Joined groups qps opener acc) (hdom : ∀ e, groups.lookup g = some e → e.pd = pd)
    (hid : conn.id = some id) (hpd : conn.pd = some pd) (hchild : acc.child = some id)
    (hqp : acc.qp = some (id, pd.pd)) :
    Joined (groups.insert g (GroupEntry.pushed (groups.lookup g) pd conn)) qps opener {} := by
  refine ⟨fun {g' e'} he conn' hconn => ?_, nofun, nofun⟩
  rw [HashMap.lookup_insert] at he
  by_cases hg : g' = g
  · rw [if_pos hg] at he
    cases he
    rw [pushed_pd _ hdom]
    rcases mem_pushed hconn with rfl | ⟨e, he, hconn⟩
    · exact ⟨id, hid, hpd, h.qp hqp, (h.child hchild).1⟩
    · obtain ⟨i, hi, hp, hq, ho⟩ := h.member he conn' hconn
      rw [hdom e he] at hp hq
      exact ⟨i, hi, hp, hq, ho⟩
  · rw [if_neg hg] at he
    exact h.member he conn' hconn

theorem Looked.push {gone : Bool} {made : List Registration}
    {looked looked' : Tid → Option (UInt32 × Option ProtectionDomain)}
    (h : Looked groups gone made looked) (hdom : ∀ e, groups.lookup g = some e → e.pd = pd)
    (hgone : gone = false) (hservice : looked' .service = none)
    (hother : ∀ u, u ≠ .service → looked' u = looked u) :
    Looked (groups.insert g (GroupEntry.pushed (groups.lookup g) pd conn)) gone made looked' := by
  have hkeep {g' : UInt32} {e : GroupEntry} (he : groups.lookup g' = some e) :
      ∃ e', (groups.insert g (GroupEntry.pushed (groups.lookup g) pd conn)).lookup g' = some e' ∧
        e'.pd = e.pd := by
    rw [HashMap.lookup_insert]
    by_cases hg : g' = g
    · subst hg
      rw [if_pos rfl]
      exact ⟨_, rfl, (pushed_pd _ hdom).trans (hdom e he).symm⟩
    · rw [if_neg hg]
      exact ⟨e, he, rfl⟩
  refine ⟨fun hgone r hr => ?_, fun e => ?_, fun {u g' dom} e => ?_, fun e => ?_⟩
  · obtain ⟨e₀, he, hmr⟩ := h.made hgone r hr
    obtain ⟨e', he', hpd⟩ := hkeep he
    exact ⟨e', he', hmr.trans (by rw [hpd])⟩
  · rw [hgone] at e
    cases e
  · have hu : u ≠ .service := by
      intro hu
      rw [hu, hservice] at e
      cases e
    rw [hother u hu] at e
    obtain ⟨e₀, he, hpd'⟩ := h.found e
    obtain ⟨e', he', hpd⟩ := hkeep he
    exact ⟨e', he', hpd.trans hpd'⟩
  · rw [hservice] at e
    cases e

end Push

/-! ## 3. Every operation -/

section Steps

variable {w : World} {know : Tid → Know} {t : Tid} {o : Op}

/-- The domain of the connection that a handshake pushes. -/
theorem Domains.pushes (h : Domains w know) {g : UInt32} {conn : Connection}
    (hm : (know .service).Pushes g conn) : ∃ id pd, conn.id = some id ∧ conn.pd = some pd ∧
      (know .service).acc.child = some id ∧ (know .service).acc.qp = some (id, pd.pd) ∧
      (∀ e, w.shared.groups.lookup g = some e → e.pd = pd) ∧
      (w.shared.groups.lookup g = none → (know .service).acc.fresh = some pd.pd) := by
  obtain ⟨id, pd, hid, hpd, hchild, hqp, hdom⟩ := hm.made
  refine ⟨id, pd, hid, hpd, hchild, hqp, fun e he => ?_, fun hnone => ?_⟩
  · rcases hdom with hl | ⟨hl, _⟩
    · obtain ⟨e', he', hpd'⟩ := h.looked.found hl
      rw [he] at he'
      cases he'
      exact hpd'
    · rw [h.looked.absent hl] at he
      cases he
  · rcases hdom with hl | ⟨_, hf⟩
    · obtain ⟨e', he', _⟩ := h.looked.found hl
      rw [hnone] at he'
      cases he'
    · exact hf

theorem mem_domains {shared : SharedState} {g : UInt32} {pd : Nat} :
    (g, pd) ∈ shared.domains ↔ ∃ e, shared.groups.lookup g = some e ∧ e.pd.pd = pd := by
  unfold SharedState.domains
  rw [List.mem_map]
  constructor
  · intro ⟨⟨g', e⟩, hmem, he⟩
    obtain ⟨rfl, rfl⟩ := Prod.mk.inj he
    exact ⟨e, HashMap.mem_toList.mp hmem, rfl⟩
  · intro ⟨e, he, hpd⟩
    exact ⟨(g, e), HashMap.mem_toList.mpr he, by rw [hpd]⟩

/-- The domain of the connection that a handshake accepts: of the groups that there are, the one
    it serves has it, and no other. -/
theorem Domains.accepts (h : Domains w know) {id : Nat} (hm : (know .service).Accepts id) :
    ∃ g pd, (know .service).acc.wants = some g ∧ w.hca.qps.lookup id = some pd ∧
      ∀ d ∈ w.shared.domains, d.2 = pd ↔ d.1 = g := by
  obtain ⟨g, pd, hwants, hqp, hdom⟩ := hm.into
  refine ⟨g, pd, hwants, h.joined.qp hqp, fun ⟨g', pd'⟩ hd => ?_⟩
  obtain ⟨e, he, rfl⟩ := mem_domains.mp hd
  rcases hdom with ⟨dom, hl, rfl⟩ | ⟨hl, hf⟩
  · obtain ⟨e', he', rfl⟩ := h.looked.found hl
    constructor
    · intro hpd
      by_contra hne
      exact h.allotted.apart he he' hne hpd
    · intro hg
      have hg : g' = g := hg
      rw [hg, he'] at he
      cases he
      rfl
  · constructor
    · intro hpd
      exact absurd hpd (h.allotted.fresh hf he)
    · intro hg
      have hg : g' = g := hg
      rw [hg, h.looked.absent hl] at he
      cases he

/-- Handles of groups are not lost. -/
theorem Allotted.keep {groups : Groups} {handles handles' : List (Holder × Nat)}
    {fresh fresh' : Option Nat} (h : Allotted groups handles fresh)
    (hh : ∀ g n, (Holder.group g, n) ∈ handles → (Holder.group g, n) ∈ handles')
    (hf : ∀ n, fresh' = some n → fresh = some n) : Allotted groups handles' fresh' :=
  ⟨fun e => hh _ _ (h.handle e), h.apart, fun e => h.fresh (hf _ e)⟩

/-- A C call other than an allocation takes no group's handle and brings no fresh domain. -/
theorem verb_handles {v : Verb} {a : v.Ans} (hv : ∀ context, v ≠ .allocPd context) {g : UInt32}
    {n : Nat} (h : (Holder.group g, n) ∈ w.hca.handles) :
    (Holder.group g, n) ∈ (post t (.verb v) a w).hca.handles := by
  have hverb : (Holder.group g, n) ∈ (verbPost t w v a).hca.handles := by
    unfold verbPost
    split
    · exact h
    · exact absurd rfl (hv _)
    · exact List.mem_cons_of_mem _ h
    · refine (List.mem_erase_of_ne ?_).mpr h
      intro e
      cases e
    all_goals first | exact h | (split <;> exact h)
  cases t with
  | reader i =>
      simp only [post, readerVerbPost]
      split <;> first | exact h | (split <;> exact h)
  | net => exact h
  | app | service | session => exact hverb

theorem verb_fresh {k : Know} {v : Verb} {a : v.Ans} (hv : ∀ context, v ≠ .allocPd context) {n : Nat}
    (h : (nextVerb k v a).acc.fresh = some n) : k.acc.fresh = some n := by
  unfold nextVerb at h
  split at h
  · split at h <;> exact h
  · exact absurd rfl (hv _)
  · split at h
    · cases h
    · exact h
  · split at h <;> exact h
  all_goals exact h

/-- What a thread still knows of a part of the handshake, the service still knows. -/
theorem acc_update {β : Type} (f : AcceptKnow → Option β) (know : Tid → Know) {t : Tid} {k : Know}
    (hk : ∀ b, f k.acc = some b → f (know t).acc = some b) (b : β)
    (h : f (Function.update know t k .service).acc = some b) : f (know .service).acc = some b := by
  by_cases ht : t = .service
  · subst ht
    rw [Function.update_self] at h
    exact hk b h
  · rw [Function.update_of_ne (Ne.symm ht)] at h
    exact h

theorem Domains.allotted_step (hl : Lives w know) (h : Domains w know) {a : o.Ans}
    (hm : may (know t) o) (hc : can t o w a) :
    Allotted (post t o a w).shared.groups (post t o a w).hca.handles
      (Function.update know t (next (know t) o a) .service).acc.fresh := by
  have hf := post_frame (t := t) (w := w) o a
  have hrole := hl.role t
  have hi := h.allotted
  have hfresh := acc_update AcceptKnow.fresh know (t := t) (k := next (know t) o a)
  cases o with
  | verb v =>
      rw [hf.shared rfl]
      by_cases hv : ∃ context, v = .allocPd context
      · obtain ⟨context, rfl⟩ := hv
        cases a with
        | none =>
            refine hi.keep (fun g n e => ?_) (hfresh fun n e => e)
            cases t <;> exact e
        | some pd =>
            by_cases hp : t.isProvider = true
            · have ht : t = .service := hrole.symm.trans (hm (by rw [hrole]; exact hp)).1
              subst ht
              rw [Function.update_self]
              refine ⟨fun e => List.mem_cons_of_mem _ (hi.handle e), hi.apart, fun {n} e {g e'} he => ?_⟩
              have e : some pd = some n := e
              cases e
              exact hc rfl _ (hi.handle he)
            · have ht : t ≠ .service := fun e => hp (by rw [e]; rfl)
              rw [Function.update_of_ne ht.symm]
              refine hi.keep (fun g n e => ?_) fun n e => e
              cases t with
              | app | service | session => exact absurd rfl hp
              | reader | net => exact e
      · have hne (context : Nat) : v ≠ .allocPd context := fun e => hv ⟨context, e⟩
        exact hi.keep (fun g n e => verb_handles hne e) (hfresh fun n e => verb_fresh hne e)
  | groupsGetPd g =>
      rw [hf.shared rfl]
      refine hi.keep (fun g n e => ?_) (hfresh fun n e => e)
      cases a with
      | none => exact e
      | some pd => exact List.mem_cons_of_mem _ e
  | groupsPush g conn =>
      have ht : t = .service := hrole.symm.trans hm.service
      subst ht
      obtain ⟨id, pd, hid, hpd, _, _, hdom, hnew⟩ := h.pushes hm
      rw [Function.update_self]
      show Allotted (pushPost .service w g conn).shared.groups (pushPost .service w g conn).hca.handles
        none
      rw [pushPost_eq hid hpd]
      exact hi.push hdom hnew
  | dropShared => exact ⟨nofun, nofun, fun _ => nofun⟩
  | tcpAccept =>
      rw [hf.shared rfl, hf.hca rfl]
      refine hi.keep (fun _ _ e => e) (hfresh fun n e => ?_)
      cases a with
      | none => exact e
      | some c => cases e
  | takeService => exact hi.keep (fun _ _ e => e) (hfresh nofun)
  | exit =>
      rw [hf.shared rfl, hf.hca rfl]
      exact hi.keep (fun _ _ e => e) (hfresh nofun)
  | receive c =>
      rw [hf.shared rfl, hf.hca rfl]
      refine hi.keep (fun _ _ e => e) (hfresh fun n e => ?_)
      obtain ⟨wants, hwants⟩ := next_receive (know t) c a
      rw [hwants] at e
      exact e
  | catalogInsert | tuplesInsert | tuplesClear => exact hi.keep (fun _ _ e => e) (hfresh fun _ e => e)
  | _ =>
      rw [hf.shared rfl, hf.hca rfl]
      refine hi.keep (fun _ _ e => e) (hfresh fun n e => ?_)
      rw [← (next_recalls (know t) _ a).acc rfl]
      exact e

/-- `Joined` reads the queue pairs and openers of members and of the accept under way. -/
theorem Joined.keep {groups : Groups} {qps qps' opener opener' : HashMap Nat Nat}
    {acc acc' : AcceptKnow} (h : Joined groups qps opener acc)
    (hq : ∀ id, Member groups id → qps'.lookup id = qps.lookup id)
    (ho : ∀ id, Member groups id → (opener.lookup id).isSome = true →
      (opener'.lookup id).isSome = true)
    (hqp : ∀ id pd, acc'.qp = some (id, pd) → qps'.lookup id = some pd)
    (hchild : ∀ id, acc'.child = some id →
      (opener'.lookup id).isSome = true ∧ ¬ Member groups id) : Joined groups qps' opener' acc' := by
  refine ⟨fun {g e} he conn hconn => ?_, fun e => hqp _ _ e, fun e => hchild _ e⟩
  obtain ⟨id, hid, hpd, hlookup, hopen⟩ := h.member he conn hconn
  have hmember : Member groups id := ⟨g, e, conn, he, hconn, hid⟩
  exact ⟨id, hid, hpd, (hq id hmember).trans hlookup, ho id hmember hopen⟩

/-- With the same device and the accept as it was, or given up. -/
theorem Joined.same {groups : Groups} {qps opener : HashMap Nat Nat} {acc acc' : AcceptKnow}
    (h : Joined groups qps opener acc) (hqp : ∀ q, acc'.qp = some q → acc.qp = some q)
    (hchild : ∀ id, acc'.child = some id → acc.child = some id) : Joined groups qps opener acc' :=
  h.keep (fun _ _ => rfl) (fun _ _ e => e) (fun _ _ e => h.qp (hqp _ e))
    fun _ e => h.child (hchild _ e)

theorem Joined.member_opener {groups : Groups} {qps opener : HashMap Nat Nat} {acc : AcceptKnow}
    (h : Joined groups qps opener acc) {id : Nat} (hid : Member groups id) :
    (opener.lookup id).isSome = true := by
  obtain ⟨g, e, conn, he, hconn, hi⟩ := hid
  obtain ⟨id', hid', _, _, hopen⟩ := h.member he conn hconn
  rw [hi] at hid'
  cases hid'
  exact hopen

/-- The listener's side of the connection manager is as it was. -/
structure SameListener (w w' : World) : Prop where
  opener : w'.cm.opener = w.cm.opener
  events : w'.cm.events = w.cm.events
  servedFor : w'.cm.servedFor = w.cm.servedFor
  accepted : w'.cm.accepted = w.cm.accepted

/-- The C calls of other threads do not reach the listener, nor a queue pair, unless they drop what
    the groups held. -/
theorem verb_elsewhere {v : Verb} {a : v.Ans} (hrole : (know t).role = t) (ht : t ≠ .service)
    (hm : mayVerb (know t) v) : SameListener w (post t (.verb v) a w) ∧
      ((post t (.verb v) a w).hca.qps = w.hca.qps ∨ (know t).Frees) := by
  have hservice {P : Prop} (hp : t.isProvider = true)
      (h : (know t).role.isProvider = true → (know t).role = .service) : P := by
    rw [hrole] at h
    exact absurd (h hp) ht
  have hverb (hp : t.isProvider = true) : SameListener w (verbPost t w v a) ∧
      ((verbPost t w v a).hca.qps = w.hca.qps ∨ (know t).Frees) := by
    cases v with
    | getCmEvent | createQp => exact hservice hp fun e => (hm e).1
    | accept => exact hservice hp fun e => (hm e).service
    | destroyQp id =>
        rcases hm (by rw [hrole]; exact hp) with hm | hfrees
        · exact hservice hp fun _ => hm.1
        · exact ⟨⟨rfl, rfl, rfl, rfl⟩, Or.inr hfrees⟩
    | destroyId id =>
        simp only [verbPost, if_neg ht]
        exact ⟨⟨rfl, rfl, rfl, rfl⟩, Or.inl trivial⟩
    | allocPd | regMr => cases a <;> exact ⟨⟨rfl, rfl, rfl, rfl⟩, Or.inl rfl⟩
    | _ => exact ⟨⟨rfl, rfl, rfl, rfl⟩, Or.inl rfl⟩
  cases t with
  | reader i =>
      simp only [post, readerVerbPost]
      split <;> first
        | exact ⟨⟨rfl, rfl, rfl, rfl⟩, Or.inl rfl⟩
        | (split <;> exact ⟨⟨rfl, rfl, rfl, rfl⟩, Or.inl rfl⟩)
  | net => exact ⟨⟨rfl, rfl, rfl, rfl⟩, Or.inl rfl⟩
  | service => exact absurd rfl ht
  | app | session => exact hverb rfl

/-- An event off the listener's channel: a request comes with an id not in use. -/
theorem Domains.event (h : Domains w know) {e : CmEvent} (hcan : eventCan w.cm e) :
    (∀ id, (w.cm.opener.lookup id).isSome = true →
      ((eventPost w.cm e).opener.lookup id).isSome = true) ∧
    (∀ id, e.child = some id → ((eventPost w.cm e).opener.lookup id).isSome = true ∧
      ¬ Member w.shared.groups id) := by
  unfold eventCan at hcan
  unfold eventPost
  rcases hevents : w.cm.events with _ | ⟨notice, rest⟩
  · rw [hevents] at hcan
    exact hcan.elim
  · rw [hevents] at hcan
    cases notice with
    | request opener status =>
        obtain ⟨hreq, _, hfree⟩ := hcan
        simp only
        refine ⟨fun id hid => ?_, fun id hid => ?_⟩
        · rw [HashMap.lookup_insert]
          split
          · rfl
          · exact hid
        · have hid : id = e.id := by
            simp only [CmEvent.child, if_pos hreq] at hid
            exact (Option.some.inj hid).symm
          subst hid
          refine ⟨by rw [HashMap.lookup_insert, if_pos rfl]; rfl, fun hmember => ?_⟩
          have := h.joined.member_opener hmember
          rw [hfree] at this
          cases this
    | later event =>
        have hne := h.orderly event (by rw [hevents]; exact List.mem_cons_self)
        have hcan : e = event := hcan
        subst hcan
        refine ⟨fun id hid => hid, fun id hid => ?_⟩
        simp only [CmEvent.child, if_neg hne] at hid
        cases hid

theorem Domains.joined_verb (h : Domains w know) {v : Verb} {a : v.Ans}
    (hrole : (know .service).role = .service) (hm : mayVerb (know .service) v)
    (hc : verbCan w v a) :
    Joined w.shared.groups (verbPost .service w v a).hca.qps (verbPost .service w v a).cm.opener
      (nextVerb (know .service) v a).acc := by
  have hi := h.joined
  have hp : (know .service).role.isProvider = true := by rw [hrole]; rfl
  have hnotApp (hfrees : (know .service).Frees) : False := by
    have happ := hfrees.app
    rw [hrole] at happ
    cases happ
  -- a queue pair of the accept under way is no member's
  have hother {id id' : Nat} (hid : (know .service).acc.child = some id)
      (hmember : Member w.shared.groups id') : id' ≠ id := by
    intro e
    exact (hi.child hid).2 (e ▸ hmember)
  cases v with
  | getCmEvent channel =>
      cases a with
      | error e => exact hi
      | ok e =>
          obtain ⟨hopen, hnew⟩ := h.event hc
          refine hi.keep (fun _ _ => rfl) (fun id _ => hopen id) (fun id pd e' => ?_) fun id e' => ?_
          · refine hi.qp ?_
            simp only [nextVerb] at e'
            split at e' <;> exact e'
          · simp only [nextVerb] at e'
            split at e'
            · exact hnew id e'
            · exact ⟨hopen id (hi.child e').1, (hi.child e').2⟩
  | createQp id pd cq =>
      obtain ⟨_, _, hchild, _⟩ := hm hp
      simp only [verbPost, nextVerb]
      split
      · refine hi.keep (fun id' hid' => ?_) (fun _ _ e => e) (fun id' pd' e => ?_) fun id' e => ?_
        · rw [HashMap.lookup_insert, if_neg (hother hchild hid')]
        · cases e
          rw [HashMap.lookup_insert, if_pos rfl]
        · exact hi.child e
      · exact hi
  | destroyQp id =>
      obtain ⟨_, _, hchild⟩ := (hm hp).resolve_right hnotApp
      refine hi.keep (fun id' hid' => ?_) (fun _ _ e => e) (fun id' pd' e => by cases e)
        fun id' e => hi.child e
      exact AList.lookup_erase_ne (hother hchild hid')
  | destroyId id =>
      have hchild := ((hm hp).resolve_right hnotApp).2 hrole
      refine hi.keep (fun _ _ => rfl) (fun id' hid' e => ?_) (fun _ _ e => hi.qp e) fun id' e => by cases e
      have hlookup : (w.cm.opener.erase id).lookup id' = w.cm.opener.lookup id' :=
        AList.lookup_erase_ne (hother hchild hid')
      show ((w.cm.opener.erase id).lookup id').isSome = true
      rw [hlookup]
      exact e
  | dropPd pd =>
      simp only [nextVerb]
      split
      · exact hi.same (fun _ e => e) fun _ e => e
      · exact hi
  | allocPd context =>
      cases a with
      | none => exact hi
      | some pd => exact hi.same (fun _ e => e) fun _ e => e
  | regMr pd addr size => cases a <;> exact hi
  | accept id =>
      simp only [verbPost]
      split <;> exact hi
  | _ => exact hi

/-- Once the groups are given up there is nothing to keep. -/
theorem Domains.joined_freed (hl : Lives w know) (h : Domains w know) (hm : (know .app).Frees)
    {qps opener : HashMap Nat Nat} : Joined w.shared.groups qps opener (know .service).acc := by
  have hstage := hm.stage
  rw [h.looked.dropped (hl.drop.bare (by rw [hstage]; decide)), (hl.idle .service rfl fun e =>
    hl.quiet (by rw [hstage]; rfl) rfl e).2.1]
  exact ⟨nofun, nofun, nofun⟩

theorem Domains.joined_step (hl : Lives w know) (h : Domains w know) {a : o.Ans}
    (hm : may (know t) o) (hc : can t o w a) :
    Joined (post t o a w).shared.groups (post t o a w).hca.qps (post t o a w).cm.opener
      (Function.update know t (next (know t) o a) .service).acc := by
  have hf := post_frame (t := t) (w := w) o a
  have hrole := hl.role t
  have hi := h.joined
  have hqp := acc_update AcceptKnow.qp know (t := t) (k := next (know t) o a)
  have hchild := acc_update AcceptKnow.child know (t := t) (k := next (know t) o a)
  cases o with
  | verb v =>
      rw [hf.shared rfl]
      by_cases ht : t = .service
      · subst ht
        rw [Function.update_self]
        exact h.joined_verb hrole hm (hc rfl)
      · obtain ⟨hsame, hqps⟩ := verb_elsewhere (w := w) (a := a) hrole ht hm
        rw [Function.update_of_ne (Ne.symm ht), hsame.opener]
        rcases hqps with hqps | hfrees
        · rw [hqps]
          exact hi
        · -- no group has a connection any more, and no handshake is under way
          have ht : t = .app := hrole.symm.trans hfrees.app
          subst ht
          exact h.joined_freed hl hfrees
  | groupsPush g conn =>
      have ht : t = .service := hrole.symm.trans hm.service
      subst ht
      obtain ⟨id, pd, hid, hpd, hchild, hqp, hdom, _⟩ := h.pushes hm
      rw [Function.update_self]
      show Joined (pushPost .service w g conn).shared.groups (pushPost .service w g conn).hca.qps
        (pushPost .service w g conn).cm.opener {}
      rw [pushPost_eq hid hpd]
      exact hi.push hdom hid hpd hchild hqp
  | dropShared =>
      have ht : t = .app := hrole.symm.trans hm.1
      subst ht
      have hpast : (know .app).stage.past = true := by rw [hm.2]; rfl
      have hidle := hl.idle .service rfl fun e => hl.quiet hpast rfl e
      rw [Function.update_of_ne Tid.noConfusion, hidle.2.1]
      exact ⟨nofun, nofun, nofun⟩
  | groupsGetPd g =>
      rw [hf.shared rfl, hf.cm rfl]
      have hqps : (post t (.groupsGetPd g) a w).hca.qps = w.hca.qps := by cases a <;> rfl
      rw [hqps]
      exact hi.same (hqp fun _ e => e) (hchild fun _ e => e)
  | tcpAccept =>
      rw [hf.shared rfl, hf.hca rfl, hf.cm rfl]
      refine hi.same (hqp fun _ e => ?_) (hchild fun _ e => ?_)
      all_goals
        cases a with
        | none => exact e
        | some c => cases e
  | takeService => exact hi.same (hqp nofun) (hchild nofun)
  | exit =>
      rw [hf.shared rfl, hf.hca rfl, hf.cm rfl]
      exact hi.same (hqp nofun) (hchild nofun)
  | receive c =>
      rw [hf.shared rfl, hf.hca rfl, hf.cm rfl]
      obtain ⟨wants, hwants⟩ := next_receive (know t) c a
      refine hi.same (hqp fun _ e => ?_) (hchild fun _ e => ?_)
      all_goals
        rw [hwants] at e
        exact e
  | deliver =>
      rw [hf.shared rfl, hf.hca rfl]
      have hopener : (post t .deliver a w).cm.opener = w.cm.opener := by cases a <;> rfl
      rw [hopener]
      exact hi.same (hqp fun _ e => e) (hchild fun _ e => e)
  | catalogInsert | tuplesInsert | tuplesClear =>
      exact hi.same (hqp fun _ e => e) (hchild fun _ e => e)
  | _ =>
      rw [hf.shared rfl, hf.hca rfl, hf.cm rfl]
      refine hi.same (hqp fun _ e => ?_) (hchild fun _ e => ?_)
      all_goals
        rw [← (next_recalls (know t) _ a).acc rfl]
        exact e

theorem Looked.keep {groups : Groups} {gone : Bool} {made : List Registration}
    {looked looked' : Tid → Option (UInt32 × Option ProtectionDomain)}
    (h : Looked groups gone made looked) (hl : ∀ u q, looked' u = some q → looked u = some q) :
    Looked groups gone made looked' :=
  ⟨h.made, h.dropped, fun e => h.found (hl _ _ e), fun e => h.absent (hl _ _ e)⟩

/-- What an operation leaves of what was looked up. -/
abbrev LookedIn (w : World) (know : Tid → Know) : Prop :=
  Looked w.shared.groups w.shared.gone w.hca.made fun t => (know t).tup.looked

theorem Domains.looked_keep (h : Domains w know) {k : Know}
    (hk : ∀ q, k.tup.looked = some q → (know t).tup.looked = some q) :
    LookedIn w (Function.update know t k) := by
  refine h.looked.keep fun u q e => ?_
  by_cases hu : u = t
  · subst hu
    rw [Function.update_self] at e
    exact hk q e
  · rw [Function.update_of_ne hu] at e
    exact e

theorem Domains.looked_groupsGetPd (h : Domains w know) {g : UInt32}
    {a : Op.Ans (.groupsGetPd g)} (hc : can t (.groupsGetPd g) w a) :
    LookedIn (post t (.groupsGetPd g) a w)
      (Function.update know t (next (know t) (.groupsGetPd g) a)) := by
  have hf := post_frame (t := t) (w := w) (.groupsGetPd g) a
  have hi := h.looked
  have hmade : (post t (.groupsGetPd g) a w).hca.made = w.hca.made := by cases a <;> rfl
  have ha : a = (w.shared.groups.lookup g).map (·.pd) := hc
  have hread {q : UInt32 × Option ProtectionDomain}
      (e : (next (know t) (.groupsGetPd g) a).tup.looked = some q) :
      q = (g, (w.shared.groups.lookup g).map (·.pd)) := by
    rw [← ha]
    exact (Option.some.inj e).symm
  unfold LookedIn
  rw [hf.shared rfl, hmade]
  refine ⟨hi.made, hi.dropped, fun {u g' pd} e => ?_, fun {g'} e => ?_⟩
  · by_cases hu : u = t
    · subst hu
      rw [Function.update_self] at e
      obtain ⟨rfl, hpd⟩ := Prod.mk.inj (hread e)
      obtain ⟨e', he', hpd'⟩ := Option.map_eq_some_iff.mp hpd.symm
      exact ⟨e', he', hpd'⟩
    · rw [Function.update_of_ne hu] at e
      exact hi.found e
  · by_cases hu : .service = t
    · subst hu
      rw [Function.update_self] at e
      obtain ⟨rfl, hpd⟩ := Prod.mk.inj (hread e)
      exact Option.map_eq_none_iff.mp hpd.symm
    · rw [Function.update_of_ne hu] at e
      exact hi.absent e

theorem Domains.looked_groupsPush (hl : Lives w know) (h : Domains w know) {g : UInt32}
    {conn : Connection} {a : Op.Ans (.groupsPush g conn)} (hm : (know .service).Pushes g conn) :
    LookedIn (post .service (.groupsPush g conn) a w)
      (Function.update know .service (next (know .service) (.groupsPush g conn) a)) := by
  obtain ⟨id, pd, hid, hpd, _, _, hdom, _⟩ := h.pushes hm
  show LookedIn (pushPost .service w g conn) _
  rw [pushPost_eq hid hpd]
  have hworks : (know .service).Works := ⟨by rw [hl.role]; rfl, hm.stage⟩
  refine h.looked.push hdom (hl.present hworks) ?_ fun u hu => ?_
  · rw [Function.update_self]
    rfl
  · rw [Function.update_of_ne hu]

theorem Domains.looked_dropShared (hl : Lives w know) {a : Op.Ans .dropShared}
    (hm : may (know .app) .dropShared) :
    LookedIn (post .app .dropShared a w)
      (Function.update know .app (next (know .app) .dropShared a)) := by
  have hsilent (u : Tid) :
      (Function.update know .app (next (know .app) .dropShared a) u).tup.looked = none := by
    rw [proj_update Know.tup ((next_recalls _ _ _).tup rfl), hl.silent (by rw [hm.2]; rfl)]
  refine ⟨nofun, fun _ => rfl, fun {u g pd} e => ?_, fun e => ?_⟩
  · rw [hsilent u] at e
    cases e
  · rw [hsilent] at e
    cases e

/-- A registration is made in the domain that was looked up. -/
theorem Domains.looked_regMr (hl : Lives w know) (ho : Owned w know) (h : Domains w know)
    {pd : Nat} {addr size : UInt64} {a : Verb.Ans (.regMr pd addr size)}
    (hm : (know t).Registers pd addr size) :
    LookedIn (post t (.verb (.regMr pd addr size)) a w)
      (Function.update know t (next (know t) (.verb (.regMr pd addr size)) a)) := by
  have hf := post_frame (t := t) (w := w) (.verb (.regMr pd addr size)) a
  obtain ⟨id, g, dom, info, hasked, hlooked, rfl, _⟩ := hm.here
  have hprov : t.isProvider = true := hl.role t ▸ hm.works.role
  have hi := h.looked_keep (t := t) (k := next (know t) (.verb (.regMr dom.pd addr size)) a)
    fun q e => by cases a <;> exact e
  unfold LookedIn
  rw [hf.shared rfl]
  cases a with
  | none =>
      rw [(post_refused_regs dom.pd _ _).2]
      exact hi
  | some q =>
      refine ⟨fun hgone r hr => ?_, hi.dropped, hi.found, hi.absent⟩
      have hkey : (w.log.asking t).getD (0, 0) = (id, g) := by
        rw [ho.registered.asked hasked]
        rfl
      obtain ⟨e, he, rfl⟩ := h.looked.found hlooked
      cases t with
      | app | service | session =>
          rcases List.mem_cons.mp hr with rfl | hr
          · exact ⟨e, by rw [hkey]; exact he, rfl⟩
          · exact hi.made hgone r hr
      | reader | net => cases hprov

theorem Domains.looked_verb (hl : Lives w know) (ho : Owned w know) (h : Domains w know) {v : Verb}
    {a : v.Ans} (hm : mayVerb (know t) v) :
    LookedIn (post t (.verb v) a w) (Function.update know t (next (know t) (.verb v) a)) := by
  have hf := post_frame (t := t) (w := w) (.verb v) a
  by_cases hv : ∃ pd addr size, v = .regMr pd addr size
  · obtain ⟨pd, addr, size, rfl⟩ := hv
    exact h.looked_regMr hl ho hm
  · have hne (pd : Nat) (addr size : UInt64) : v ≠ .regMr pd addr size :=
      fun e => hv ⟨pd, addr, size, e⟩
    unfold LookedIn
    rw [hf.shared rfl, (post_verb_regs hne).2]
    refine h.looked_keep fun _ e => ?_
    rw [next_verb_tup hne] at e
    exact e

theorem Domains.looked_step (hl : Lives w know) (ho : Owned w know) (h : Domains w know) {a : o.Ans}
    (hm : may (know t) o) (hc : can t o w a) :
    LookedIn (post t o a w) (Function.update know t (next (know t) o a)) := by
  have hf := post_frame (t := t) (w := w) o a
  have hrole := hl.role t
  unfold LookedIn
  cases o with
  | groupsGetPd g => exact h.looked_groupsGetPd hc
  | groupsPush g conn =>
      have ht : t = .service := hrole.symm.trans hm.service
      subst ht
      exact h.looked_groupsPush hl hm
  | dropShared =>
      have ht : t = .app := hrole.symm.trans hm.1
      subst ht
      exact Domains.looked_dropShared hl hm
  | verb v => exact h.looked_verb hl ho hm
  | tcpAccept =>
      rw [hf.shared rfl, hf.hca rfl]
      refine h.looked_keep fun _ e => ?_
      cases a with
      | none => exact e
      | some c => cases e
  | tuplesGet | takeService => exact h.looked_keep nofun
  | exit =>
      rw [hf.shared rfl, hf.hca rfl]
      exact h.looked_keep nofun
  | catalogInsert | catalogSnapshot | catalogGet | tuplesInsert | tuplesClear =>
      exact h.looked_keep fun _ e => e
  | _ =>
      rw [hf.shared rfl, hf.hca rfl]
      refine h.looked_keep fun _ e => ?_
      rw [← (next_recalls (know t) _ a).tup rfl]
      exact e

/-- C calls only take events off the channel. -/
theorem verbPost_events {v : Verb} {a : v.Ans} {n : Notice}
    (h : n ∈ (verbPost t w v a).cm.events) : n ∈ w.cm.events := by
  unfold verbPost at h
  split at h
  · simp only [eventPost] at h
    split at h
    · exact h
    all_goals
      rename_i heq
      rw [heq]
      exact List.mem_cons_of_mem _ h
  all_goals first | exact h | (split at h <;> exact h)

theorem Domains.orderly_step (hl : Lives w know) (h : Domains w know) {a : o.Ans}
    (hm : may (know t) o) (hc : can t o w a) : Orderly (post t o a w).cm.events := by
  have hf := post_frame (t := t) (w := w) o a
  have hi := h.orderly
  cases o with
  | verb v =>
      by_cases ht : t = .service
      · subst ht
        exact fun e he => hi e (verbPost_events he)
      · rw [(verb_elsewhere (hl.role t) ht hm).1.events]
        exact hi
  | groupsPush g conn =>
      have hevents : (post t (.groupsPush g conn) a w).cm.events = w.cm.events := by
        simp only [post, pushPost]
        split <;> rfl
      rw [hevents]
      exact hi
  | deliver =>
      cases a with
      | request opener status =>
          intro e he
          rcases List.mem_append.mp he with he | he
          · exact hi e he
          · cases List.mem_singleton.mp he
      | later event =>
          intro e he
          rcases List.mem_append.mp he with he | he
          · exact hi e he
          · cases List.mem_singleton.mp he
            exact hc.1
  | _ =>
      rw [hf.cm rfl]
      exact hi

end Steps

/-! ## 4. Every run -/

section Runs

variable {w : World} {know : Tid → Know} {prog : Tid → Code (Option Loop)}

theorem domains_watched (hw : provider.Watched protocol {} firstLoop firstKnow w prog know) :
    Domains w know :=
  hw.invariant provider_follows entry_first domains_start fun hw h _ _ _ hm hc =>
    have hl := lives_watched hw
    ⟨h.allotted_step hl hm hc, h.joined_step hl hm hc, h.looked_step hl (owned_watched hw) hm hc,
      h.orderly_step hl hm hc⟩

/-- A group keeps its domain until the groups are dropped. -/
structure GroupsKept (w w' : World) : Prop where
  gone : w.shared.gone = true → w'.shared.gone = true
  entry : ∀ g e, w.shared.groups.lookup g = some e →
    (∃ e', w'.shared.groups.lookup g = some e' ∧ e'.pd = e.pd) ∨ w'.shared.gone = true

theorem GroupsKept.trans {u v w : World} (h : GroupsKept u v) (h' : GroupsKept v w) :
    GroupsKept u w := by
  refine ⟨fun e => h'.gone (h.gone e), fun g e he => ?_⟩
  rcases h.entry g e he with ⟨e', he', hpd⟩ | hgone
  · rcases h'.entry g e' he' with ⟨e'', he'', hpd'⟩ | hgone
    · exact Or.inl ⟨e'', he'', hpd'.trans hpd⟩
    · exact Or.inr hgone
  · exact Or.inr (h'.gone hgone)

theorem GroupsKept.of_same {w w' : World} (hg : w'.shared.groups = w.shared.groups)
    (hgone : w'.shared.gone = w.shared.gone) : GroupsKept w w' :=
  ⟨fun e => hgone ▸ e, fun _ e he => Or.inl ⟨e, hg ▸ he, rfl⟩⟩

theorem groupsKept_step {t : Tid} {o : Op} {a : o.Ans}
    (hw : provider.Watched protocol {} firstLoop firstKnow w prog know) (hm : may (know t) o) :
    GroupsKept w (post t o a w) := by
  by_cases hs : o.writesShared = false
  · have hf := post_frame (t := t) (w := w) o a
    exact .of_same (by rw [hf.shared hs]) (by rw [hf.shared hs])
  cases o with
  | groupsPush g conn =>
      have ht : t = .service := ((lives_watched hw).role t).symm.trans hm.service
      subst ht
      obtain ⟨id, pd, hid, hpd, _, _, hdom, _⟩ := (domains_watched hw).pushes hm
      show GroupsKept w (pushPost .service w g conn)
      rw [pushPost_eq hid hpd]
      refine ⟨fun e => e, fun g' e he => Or.inl ?_⟩
      show ∃ e', (w.shared.groups.insert g _).lookup g' = some e' ∧ e'.pd = e.pd
      rw [HashMap.lookup_insert]
      by_cases hg : g' = g
      · subst hg
        rw [if_pos rfl]
        exact ⟨_, rfl, (pushed_pd _ hdom).trans (hdom e he).symm⟩
      · rw [if_neg hg]
        exact ⟨e, he, rfl⟩
  | catalogInsert | tuplesInsert | tuplesClear => exact .of_same rfl rfl
  | dropShared => exact ⟨fun _ => rfl, fun _ _ _ => Or.inr rfl⟩
  | _ => exact absurd rfl hs

theorem groups_kept {c c' : Config Tid Op World Loop Op.Ans} (h : provider.Reach start c)
    (h' : provider.Reach c c') : GroupsKept c.world c'.world :=
  System.Watched.progress provider_follows entry_first (fun _ => .of_same rfl rfl)
    (fun h h' => h.trans h') (fun hw _ _ _ hm _ => groupsKept_step hw hm) h h'

/-- Groups and domains at one instant. -/
structure GroupDomains (w : World) : Prop where
  connections : ∀ g e, w.shared.groups.lookup g = some e → ∀ conn ∈ e.connections, ∃ id,
    conn.id = some id ∧ w.hca.qps.lookup id = some e.pd.pd
  tuples : ∀ id g mr, w.shared.tuples.lookup (id, g) = some mr → ∃ e,
    w.shared.groups.lookup g = some e ∧ mr.pd = e.pd.pd
  apart : ∀ g g' e e', w.shared.groups.lookup g = some e → w.shared.groups.lookup g' = some e' →
    g ≠ g' → e.pd.pd ≠ e'.pd.pd

theorem group_domains_watched
    (hw : provider.Watched protocol {} firstLoop firstKnow w prog know) : GroupDomains w := by
  have hl := lives_watched hw
  have ho := owned_watched hw
  have hd := domains_watched hw
  refine ⟨fun g e he conn hconn => ?_, fun id g mr e => ?_,
    fun _ _ _ _ he he' => hd.allotted.apart he he'⟩
  · obtain ⟨id, hid, _, hqp, _⟩ := hd.joined.member he conn hconn
    exact ⟨id, hid, hqp⟩
  · refine hd.looked.made ?_ _ (ho.served.live _ (ho.registered.stored e))
    by_contra hgone
    have hstage := hl.drop.gone (by simpa using hgone)
    have hcleared := hl.drop.clear (List.mem_cons_of_mem _ hstage)
    rw [(ho.registered.cleared hcleared).1] at e
    cases e

/-- A run up to a served session, and the group it was served in. -/
def untilServed : List Move := untilHeld ++ moves .service 6

end Runs

end Rdmalib
