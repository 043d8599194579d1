/-
  File:      Rdmalib/System/Exchanges.lean
  Subject:   What an exchange tells: one listing of the catalog, and the answers of `tuple_of` about
             this listing, both made after the request was sent.

  * `World.Grows` -- catalogs, records and what connections have carried only grow;
  * `World.Exchange` -- a catalog message and a tuples message about one value that the catalog
    had between two instants;
  * `Hosting` -- what a thread of the provider has done of its exchange; `Attending` -- what a
    reader has heard of the exchange of its call;
  * result: what a reader hears in a call is an exchange made since the call began
    (`attending_watched`).
-/
import Rdmalib.System.Conversations

namespace Rdmalib

open Base

open Function (update)

/-! ## 1. What only grows -/

/-- Not after. -/
def Instant.Upto (a b : Instant) : Prop := a.editions ≤ b.editions ∧ a.records ≤ b.records

theorem Instant.Upto.rfl {a : Instant} : a.Upto a := ⟨Nat.le_refl _, Nat.le_refl _⟩

theorem Instant.Upto.trans {a b c : Instant} (h : a.Upto b) (h' : b.Upto c) : a.Upto c :=
  ⟨h.1.trans h'.1, h.2.trans h'.2⟩

/-- A later state of the world. -/
structure World.Grows (w w' : World) : Prop where
  catalogs : w.catalogs <+: w'.catalogs
  records : w.log.records <:+ w'.log.records
  refused : ∀ x ∈ w.hca.refused, x ∈ w'.hca.refused
  now : w.now.Upto w'.now
  chans : ∀ {c : Chan} {s : ChanState}, w.tcp.chans[c]? = some s →
    ∃ s', w'.tcp.chans[c]? = some s' ∧ s.Grown s'

section Growth

variable {w : World} {t : Tid} {o : Op} {a : o.Ans}

theorem modified_grown {chans : List ChanState} {f : ChanState → ChanState}
    (hf : ∀ s : ChanState, s.Grown (f s))
    (c : Chan) {c' : Chan} {s : ChanState} (hs : chans[c']? = some s) :
    ∃ s', (chans.modify c f)[c']? = some s' ∧ s.Grown s' := by
  rw [List.getElem?_modify, hs]
  refine ⟨_, rfl, ?_⟩
  split
  · exact hf s
  · exact .rfl

theorem post_chans {c : Chan} {s : ChanState} (hs : w.tcp.chans[c]? = some s) :
    ∃ s', (post t o a w).tcp.chans[c]? = some s' ∧ s.Grown s' := by
  have hsame (htcp : (post t o a w).tcp.chans = w.tcp.chans) :
      ∃ s', (post t o a w).tcp.chans[c]? = some s' ∧ s.Grown s' := ⟨s, htcp ▸ hs, .rfl⟩
  by_cases htcp : o.writesTcp = false
  · exact hsame (by rw [(post_frame (t := t) (w := w) o a).tcp htcp])
  cases o with
  | tcpConnect =>
      cases a with
      | error e => exact hsame rfl
      | ok c' =>
          cases t with
          | reader i =>
              refine ⟨s, ?_, .rfl⟩
              show (w.tcp.chans ++ [{ owner := i }])[c]? = some s
              rw [List.getElem?_append_left (List.getElem?_eq_some_iff.mp hs).1]
              exact hs
          | app | service | session | net => exact hsame rfl
  | tcpAccept => exact hsame (by cases a <;> rfl)
  | send c' m => exact modified_grown (fun s => ChanState.send_grown _) c' hs
  | receive c' => exact modified_grown (fun s => ChanState.receive_grown _) c' hs
  | _ => exact absurd rfl htcp

/-- What an operation does to a connection. -/
inductive Touches (t : Tid) (now : Instant) (c : Chan) (s : ChanState) :
    (o : Op) → o.Ans → ChanState → Prop where
  | same (o : Op) (a : o.Ans) : Touches t now c s o a s
  | send (m : Message) (a : Except IoError Unit × Nat) :
      Touches t now c s (.send c m) a (s.send t.isProvider now m a)
  | receive (a : Except IoError Message × Nat) :
      Touches t now c s (.receive c) a (s.receive t.isProvider a)

/-- A connection is new, or was there and was touched. -/
theorem chan_touched {c : Chan} {s' : ChanState} (hs' : (post t o a w).tcp.chans[c]? = some s') :
    (∃ i, s' = { owner := i }) ∨
      ∃ s, w.tcp.chans[c]? = some s ∧ Touches t w.now c s o a s' := by
  have hsame (htcp : (post t o a w).tcp.chans = w.tcp.chans) :
      (∃ i, s' = { owner := i }) ∨ ∃ s, w.tcp.chans[c]? = some s ∧ Touches t w.now c s o a s' :=
    Or.inr ⟨s', htcp ▸ hs', .same o a⟩
  by_cases htcp : o.writesTcp = false
  · exact hsame (by rw [(post_frame (t := t) (w := w) o a).tcp htcp])
  cases o with
  | tcpConnect =>
      cases a with
      | error e => exact hsame rfl
      | ok c' =>
          cases t with
          | reader i =>
              have hs' : (w.tcp.chans ++ [{ owner := i }])[c]? = some s' := hs'
              rw [List.getElem?_append] at hs'
              split at hs'
              · exact Or.inr ⟨s', hs', .same _ _⟩
              · exact Or.inl ⟨i, List.mem_singleton.mp (List.mem_of_getElem? hs')⟩
          | app | service | session | net => exact hsame rfl
  | tcpAccept => exact hsame (by cases a <;> rfl)
  | send c' m =>
      obtain ⟨s, hs, rfl⟩ := getElem?_modified hs'
      refine Or.inr ⟨s, hs, ?_⟩
      by_cases hc : c' = c
      · subst hc
        rw [if_pos rfl]
        exact .send m a
      · rw [if_neg hc]
        exact .same _ _
  | receive c' =>
      obtain ⟨s, hs, rfl⟩ := getElem?_modified hs'
      refine Or.inr ⟨s, hs, ?_⟩
      by_cases hc : c' = c
      · subst hc
        rw [if_pos rfl]
        exact .receive a
      · rw [if_neg hc]
        exact .same _ _
  | _ => exact absurd rfl htcp

/-- The records, and one more where something is recorded. -/
theorem post_records : (post t o a w).log.records = w.log.records ∨
    ∃ n, o = .note n ∧ (post t o a w).log.records = ⟨t, w.now, n⟩ :: w.log.records := by
  by_cases hlog : o.writesLog = false
  · exact Or.inl (by rw [(post_frame (t := t) (w := w) o a).log hlog])
  cases o with
  | note n => exact Or.inr ⟨n, rfl, rfl⟩
  | tuplesGet => exact Or.inl rfl
  | _ => exact absurd rfl hlog

/-- A `tuple_of` that has returned has done so before, or does so now. -/
theorem tupleOf_post {r : Record} {id g : UInt32} {result : Except Fault (Option Tuple)}
    (hr : r ∈ (post t o a w).log.records) (hnote : r.note = .tupleOf id g result) :
    r ∈ w.log.records ∨ (r.thread = t ∧ o = .note (.tupleOf id g result)) := by
  rcases post_records (t := t) (o := o) (a := a) (w := w) with hsame | ⟨n, ho, hmore⟩
  · exact Or.inl (hsame ▸ hr)
  · rw [hmore] at hr
    rcases List.mem_cons.mp hr with rfl | hr
    · obtain rfl : n = .tupleOf id g result := hnote
      exact Or.inr ⟨rfl, ho⟩
    · exact Or.inl hr

theorem verbPost_refused (v : Verb) (a : v.Ans) :
    ∀ x ∈ w.hca.refused, x ∈ (verbPost t w v a).hca.refused := by
  intro x hx
  unfold verbPost
  split <;> first
    | exact hx
    | exact List.mem_cons_of_mem _ hx
    | (split <;> exact hx)

/-- A refusal stays on record. -/
theorem refused_post : ∀ x ∈ w.hca.refused, x ∈ (post t o a w).hca.refused := by
  intro x hx
  by_cases hhca : o.writesHca = false
  · rwa [(post_frame (t := t) (w := w) o a).hca hhca]
  cases o with
  | verb v =>
      cases t with
      | reader i =>
          show x ∈ (readerVerbPost i w v a).hca.refused
          unfold readerVerbPost
          split <;> first
            | exact hx
            | (split <;> exact hx)
      | net => exact hx
      | app | service | session => exact verbPost_refused v a x hx
  | groupsGetPd => cases a <;> exact hx
  | groupsPush g conn =>
      show x ∈ (pushPost t w g conn).hca.refused
      unfold pushPost
      split <;> exact hx
  | tuplesInsert | tuplesClear | dropShared => exact hx
  | _ => exact absurd rfl hhca

/-- **The world only grows.** -/
theorem grows_step {know : Tid → Know} (hl : Lives w know) (ho : Owned w know)
    (hm : may (know t) o) : w.Grows (post t o a w) := by
  have hstep := catalog_step (a := a) hl ho hm
  have heditions : w.shared.editions.length ≤ (post t o a w).shared.editions.length := by
    cases hstep with
    | same _ _ he => rw [he]
    | insert _ _ _ _ _ _ he | drop _ _ he =>
        rw [he, List.length_append]
        exact Nat.le_add_right _ _
  have hrecords : w.log.records <:+ (post t o a w).log.records := by
    rcases post_records (t := t) (o := o) (a := a) (w := w) with hsame | ⟨n, _, hmore⟩
    · exact hsame ▸ List.suffix_refl _
    · rw [hmore]
      exact List.suffix_cons _ _
  refine ⟨?_, hrecords, refused_post, ⟨heditions, hrecords.length_le⟩, post_chans⟩
  · rcases hstep.catalogs with hsame | ⟨_, hmore⟩
    · simp only [hsame, List.prefix_refl]
    · rw [hmore]
      exact List.prefix_append _ _

end Growth

/-! ## 2. Exchanges -/

/-- The side has sent this message as its `i`-th; the provider's side is `true`. -/
def World.Sent (w : World) (byProvider : Bool) (c : Chan) (i : Nat) (m : Message) : Prop :=
  ∃ s, w.tcp.chans[c]? = some s ∧ (s.sent byProvider)[i]? = some m

/-- The side has got this message as its `i`-th. -/
def World.Got (w : World) (byProvider : Bool) (c : Chan) (i : Nat) (m : Message) : Prop :=
  ∃ s, w.tcp.chans[c]? = some s ∧ (s.got byProvider)[i]? = some m

/-- The reader sent its `i`-th message at this instant. -/
def World.AskedAt (w : World) (c : Chan) (i : Nat) (n : Instant) : Prop :=
  ∃ s, w.tcp.chans[c]? = some s ∧ s.asked[i]? = some n

/-- The entries are those of the catalog at some instant between two. -/
def World.Snapshot (w : World) (a b : Instant) (l : List (UInt32 × RegionInfo)) : Prop :=
  ∃ n cat, w.catalogs[n]? = some cat ∧ a.editions ≤ n + 1 ∧ n + 1 ≤ b.editions ∧
    l.Perm (HashMap.toList cat)

/-- `ibv_reg_mr` refused the region `e` to a thread, in the domain of the group `g`, and no
    `tuple_of` of this thread has returned since, by these records. -/
structure Refusal.Of (x : Refusal) (t : Tid) (g : UInt32) (e : UInt32 × RegionInfo)
    (records : List Record) : Prop where
  thread : x.thread = t
  key : x.key = (e.1, g)
  domain : x.domain = some x.pd
  range : x.addr = e.2.remoteAddr ∧ x.size = e.2.size
  last : ∀ r ∈ records, r.thread = t → ∀ id g result, r.note = .tupleOf id g result →
    r.instant.records < x.instant.records

/-- Between two instants, `tuple_of` returned this for the region: an error only where `ibv_reg_mr`
    refused the registration within this call of `tuple_of`, or the region is empty. -/
structure World.Answered (w : World) (g : UInt32) (a b : Instant) (e : UInt32 × RegionInfo)
    (result : Except Fault (Option Tuple)) : Prop where
  noted : ∃ r earlier, (r :: earlier) <:+ w.log.records ∧ r.note = .tupleOf e.1 g result ∧
    a.records ≤ r.instant.records ∧ r.instant.records < b.records ∧
      ∀ f, result = .error f → e.2.size = 0 ∨ (f = regRefused ∧ ∃ x ∈ w.hca.refused,
        x.Of r.thread g e earlier ∧ a.records ≤ x.instant.records ∧
          x.instant.records ≤ r.instant.records)
  present : result ≠ .ok none

/-- **An exchange** of group `g`, made between two instants. -/
def World.Exchange (w : World) (g : UInt32) (a b : Instant) (x : Message × Message) : Prop :=
  ∃ l found, w.Snapshot a b l ∧ List.Forall₂ (w.Answered g a b) l found ∧
    x = (.metadata (l.map fun e => e.2.desc e.1), .tuples g (tuplesOf l found))

section Facts

variable {w w' : World} {b : Bool} {c : Chan} {i : Nat} {m m' : Message} {n n' : Instant}
variable {g : UInt32} {a₁ b₁ a₂ b₂ : Instant}

/-- What a list has at a place, a longer one has there too. -/
theorem kept_at {α : Type} {xs ys : List α} {x : α} (h : xs <+: ys) (hx : xs[i]? = some x) :
    ys[i]? = some x := by
  obtain ⟨hi, rfl⟩ := List.getElem?_eq_some_iff.mp hx
  exact List.prefix_iff_getElem?.mp h i hi

theorem World.Sent.mono (h : w.Sent b c i m) (hg : w.Grows w') : w'.Sent b c i m := by
  obtain ⟨s, hs, hm⟩ := h
  obtain ⟨s', hs', hgrown⟩ := hg.chans hs
  exact ⟨s', hs', kept_at (hgrown.sent b) hm⟩

theorem World.Got.mono (h : w.Got b c i m) (hg : w.Grows w') : w'.Got b c i m := by
  obtain ⟨s, hs, hm⟩ := h
  obtain ⟨s', hs', hgrown⟩ := hg.chans hs
  exact ⟨s', hs', kept_at (hgrown.got b) hm⟩

theorem World.AskedAt.mono (h : w.AskedAt c i n) (hg : w.Grows w') : w'.AskedAt c i n := by
  obtain ⟨s, hs, hm⟩ := h
  obtain ⟨s', hs', hgrown⟩ := hg.chans hs
  exact ⟨s', hs', kept_at hgrown.asked hm⟩

theorem World.Sent.unique (h : w.Sent b c i m) (h' : w.Sent b c i m') : m = m' := by
  obtain ⟨s, hs, hm⟩ := h
  obtain ⟨s', hs', hm'⟩ := h'
  cases hs.symm.trans hs'
  exact Option.some.inj (hm.symm.trans hm')

theorem World.AskedAt.unique (h : w.AskedAt c i n) (h' : w.AskedAt c i n') : n = n' := by
  obtain ⟨s, hs, hn⟩ := h
  obtain ⟨s', hs', hn'⟩ := h'
  cases hs.symm.trans hs'
  exact Option.some.inj (hn.symm.trans hn')

theorem World.Snapshot.mono {l : List (UInt32 × RegionInfo)} (h : w.Snapshot a₁ b₁ l)
    (hg : w.Grows w') (ha : a₂.Upto a₁) (hb : b₁.Upto b₂) : w'.Snapshot a₂ b₂ l := by
  obtain ⟨n, cat, hcat, hfrom, hto, hperm⟩ := h
  exact ⟨n, cat, kept_at hg.catalogs hcat, ha.1.trans hfrom, hto.trans hb.1, hperm⟩

theorem World.Answered.mono {e : UInt32 × RegionInfo} {result : Except Fault (Option Tuple)}
    (h : w.Answered g a₁ b₁ e result) (hg : w.Grows w') (ha : a₂.Upto a₁) (hb : b₁.Upto b₂) :
    w'.Answered g a₂ b₂ e result := by
  obtain ⟨r, earlier, hr, hnote, hfrom, hto, hfailed⟩ := h.noted
  refine ⟨⟨r, earlier, hr.trans hg.records, hnote, ha.2.trans hfrom, hto.trans_le hb.2,
    fun f hf => (hfailed f hf).imp_right ?_⟩, h.present⟩
  rintro ⟨hrefused, x, hx, hof, hsince, hbefore⟩
  exact ⟨hrefused, x, hg.refused x hx, hof, ha.2.trans hsince, hbefore⟩

theorem World.Exchange.mono {x : Message × Message} (h : w.Exchange g a₁ b₁ x) (hg : w.Grows w')
    (ha : a₂.Upto a₁) (hb : b₁.Upto b₂) : w'.Exchange g a₂ b₂ x := by
  obtain ⟨l, found, hlisted, hfound, hx⟩ := h
  exact ⟨l, found, hlisted.mono hg ha hb, hfound.imp fun _ _ he => he.mono hg ha hb, hx⟩

theorem World.Grows.rfl : w.Grows w :=
  ⟨List.prefix_refl _, List.suffix_refl _, fun _ h => h, .rfl, fun hs => ⟨_, hs, .rfl⟩⟩

theorem World.Known.grow {id : UInt32} {info : RegionInfo} (h : w.Known id info) (hg : w.Grows w') :
    w'.Known id info := h.mono fun _ hcat => hg.catalogs.subset hcat

end Facts

/-! ## 3. The order of instants -/

/-- What was recorded earlier has the earlier instant, and requests were sent in the past. -/
structure Chronicle (w : World) : Prop where
  past : ∀ r ∈ w.log.records, r.instant.editions ≤ w.now.editions ∧
    r.instant.records < w.now.records
  order : w.log.records.Pairwise fun r r' =>
    r'.instant.editions ≤ r.instant.editions ∧ r'.instant.records < r.instant.records
  asked : ∀ {c i n}, w.AskedAt c i n → n.Upto w.now

section Order

variable {w : World} {t : Tid} {o : Op} {a : o.Ans} {κ : Tid → Both}
variable {prog : Tid → Code (Option Loop)}

theorem chronicle_start : Chronicle {} where
  past r hr := by cases hr
  order := .nil
  asked h := by
    obtain ⟨s, hs, _⟩ := h
    cases hs

/-- What was recorded earlier saw no later value of the catalog. -/
theorem Chronicle.earlier (h : Chronicle w) {r r' : Record} (hr : r ∈ w.log.records)
    (hr' : r' ∈ w.log.records) (hlt : r.instant.records < r'.instant.records) :
    r.instant.editions ≤ r'.instant.editions := by
  refine List.Pairwise.forall_of_forall_of_flip (R := fun r r' : Record =>
    r.instant.records < r'.instant.records → r.instant.editions ≤ r'.instant.editions)
      (fun r _ hself => absurd hself (Nat.lt_irrefl _)) ?_ ?_ hr hr' hlt
  · exact h.order.imp fun horder hlater => absurd hlater (Nat.lt_asymm horder.2)
  · exact h.order.imp fun horder _ => horder.1

/-- A request that was sent by now was sent before, or is sent now. -/
theorem askedAt_post {c : Chan} {i : Nat} {n : Instant} (h : (post t o a w).AskedAt c i n) :
    w.AskedAt c i n ∨ n = w.now := by
  obtain ⟨s', hs', hn⟩ := h
  rcases chan_touched hs' with ⟨j, rfl⟩ | ⟨s, hs, htouched⟩
  · cases hn
  cases htouched with
  | same => exact Or.inl ⟨_, hs, hn⟩
  | receive a =>
      rw [ChanState.receive_other.2.2.2] at hn
      exact Or.inl ⟨s, hs, hn⟩
  | send m a =>
      obtain ⟨result, len⟩ := a
      cases hside : t.isProvider with
      | true =>
          rw [hside] at hn
          exact Or.inl ⟨s, hs, hn⟩
      | false =>
          rw [hside] at hn
          have hn : (addIf s.asked w.now result)[i]? = some n := hn
          cases result with
          | error e => exact Or.inl ⟨s, hs, hn⟩
          | ok u =>
              have hn : (s.asked ++ [w.now])[i]? = some n := hn
              rw [List.getElem?_append] at hn
              split at hn
              · exact Or.inl ⟨s, hs, hn⟩
              · exact Or.inr (List.mem_singleton.mp (List.mem_of_getElem? hn))

theorem Chronicle.step (h : Chronicle w) (hg : w.Grows (post t o a w)) :
    Chronicle (post t o a w) := by
  have hpast : ∀ r ∈ w.log.records, r.instant.editions ≤ (post t o a w).now.editions ∧
      r.instant.records < (post t o a w).now.records := fun r hr =>
    ⟨(h.past r hr).1.trans hg.now.1, (h.past r hr).2.trans_le hg.now.2⟩
  have hasked {c : Chan} {i : Nat} {n : Instant} (hn : (post t o a w).AskedAt c i n) :
      n.Upto (post t o a w).now := by
    rcases askedAt_post hn with hold | rfl
    · exact (h.asked hold).trans hg.now
    · exact hg.now
  rcases post_records (t := t) (o := o) (a := a) (w := w) with hsame | ⟨x, _, hmore⟩
  · exact ⟨hsame ▸ hpast, hsame ▸ h.order, hasked⟩
  · refine ⟨fun r hr => ?_, ?_, hasked⟩
    · rw [hmore] at hr
      rcases List.mem_cons.mp hr with rfl | hr
      · refine ⟨hg.now.1, ?_⟩
        show w.log.records.length < (post t o a w).log.records.length
        rw [hmore]
        exact Nat.lt_succ_self _
      · exact hpast r hr
    · rw [hmore]
      exact .cons (fun r hr => h.past r hr) h.order

theorem Talked.grows (h : Talked w prog κ) (hm : may (κ t).1 o) : w.Grows (post t o a w) :=
  grows_step (lives_watched h.watched) (owned_watched h.watched) hm

theorem chronicle_watched (h : Talked w prog κ) : Chronicle w :=
  System.Watched.invariant (I := fun w _ => Chronicle w) fitting_follows bothEntry_first
    chronicle_start (fun hw hI _ _ _ hm _ => hI.step (Talked.grows hw hm.1)) h

end Order

/-! ## 4. The provider's side -/

/-- The group has been asked for. -/
def Phase.joined : Phase → Bool
  | .fresh | .greeted | .idle 0 => false
  | .idle (_ + 1) | .asked _ | .told _ => true

/-- The request that is being answered. -/
def Phase.answers : Phase → Option Nat
  | .asked j | .told j => some j
  | .fresh | .greeted | .idle _ => none

/-- **What a thread of the provider has done of its exchange.** -/
structure Hosting (w : World) (k : Party) : Prop where
  group : ∀ {g c p}, k.group = some g → k.line = some (c, p) → p.joined = true →
    w.Got true c 1 (.wantGroup g)
  present : ∀ {g}, k.joined = some g → w.shared.gone = false →
    (w.shared.groups.lookup g).isSome = true
  listed : ∀ {l c p j}, k.listing = some l → k.line = some (c, p) → p.answers = some j →
    ∃ g n, k.group = some g ∧ w.AskedAt c (j + 1) n ∧ w.Snapshot n w.now l ∧
      List.Forall₂ (w.Answered g n w.now) (l.take k.found.length) k.found
  told : ∀ {c j}, k.line = some (c, .told j) → ∃ l, k.listing = some l ∧
    k.found.length = l.length ∧ w.Sent true c (2 * j + 1) (.metadata (l.map fun e => e.2.desc e.1))
  asking : ∀ {l id g}, k.listing = some l → k.lookup.asking = some (id, g) →
    k.joined = some g ∧ k.group = some g ∧ k.lookup.missing = false ∧
      ∃ info, l[k.found.length]? = some (id, info) ∧ w.Known id info ∧
        ∀ info', k.lookup.region = some info' → info' = info

/-- **What a `tuple_of` under way has met**: the log has its arguments, and a refusal that it met is
    of the next region of the listing, in the group's domain. -/
structure LookingUp (w : World) (k : Party) : Prop where
  asking : ∀ {key}, k.lookup.asking = some key → w.log.asking k.role = some key
  refused : ∀ {l id g}, k.listing = some l → k.lookup.asking = some (id, g) →
    k.lookup.refused = true → ∃ info, l[k.found.length]? = some (id, info) ∧
      ∃ x ∈ w.hca.refused, x.Of k.role g (id, info) w.log.records ∧
        x.instant.records ≤ w.now.records ∧
          ∀ {c p j}, k.line = some (c, p) → p.answers = some j →
            ∃ n, w.AskedAt c (j + 1) n ∧ n.records ≤ x.instant.records

/-- Two messages that the provider has sent one after the other, the first in answer to a request,
    are an exchange made since this request, for the group that was asked for. -/
def Replied (w : World) : Prop :=
  ∀ c j x₁ x₂, w.Sent true c (2 * j + 1) x₁ → w.Sent true c (2 * j + 2) x₂ →
    ∃ g n, w.Got true c 1 (.wantGroup g) ∧ w.AskedAt c (j + 1) n ∧ w.Exchange g n w.now (x₁, x₂)

section Provider

variable {w w' : World} {k : Party} {t : Tid} {c : Chan} {p : Phase} {m : Message} {g id : UInt32}
variable {j : Nat} {V : Tid → Party} {l : List (UInt32 × RegionInfo)}

/-- What a holder sends is counted by its phase. -/
theorem sent_post (hconv : Conversing w V) (hline : (V t).line = some (c, p)) :
    (post t (.send c m) (.ok (), m.encode.length) w).Sent t.isProvider c (p.said t.isProvider)
      m := by
  obtain ⟨s, hs, hcounts⟩ := hconv.sound.counts (x := .thread t) hline
  have hs : w.tcp.chans[c]? = some s := hs
  refine ⟨s.send t.isProvider w.now m (.ok (), m.encode.length), modified_at hs, ?_⟩
  have hlen : (s.sent t.isProvider).length = p.said t.isProvider := hcounts.1
  rw [ChanState.send_sent, ← hlen, List.getElem?_append_right (Nat.le_refl _), Nat.sub_self]
  rfl

/-- So is what it receives. -/
theorem got_post {n : Nat} (hconv : Conversing w V) (hline : (V t).line = some (c, p)) :
    (post t (.receive c) (.ok m, n) w).Got t.isProvider c (p.said !t.isProvider) m := by
  obtain ⟨s, hs, hcounts⟩ := hconv.sound.counts (x := .thread t) hline
  have hs : w.tcp.chans[c]? = some s := hs
  refine ⟨s.receive t.isProvider (.ok m, n), modified_at hs, ?_⟩
  have hlen : (s.got t.isProvider).length = p.said !t.isProvider := hcounts.2
  rw [ChanState.receive_got, ← hlen, List.getElem?_append_right (Nat.le_refl _), Nat.sub_self]
  rfl

/-- What is received was sent, in this place. -/
theorem sent_received {n : Nat} (hconv : Conversing w V) (hline : (V t).line = some (c, p))
    (hc : can t (.receive c) w (.ok m, n)) : w.Sent (!t.isProvider) c (p.said !t.isProvider) m := by
  obtain ⟨s, hs, hcounts⟩ := hconv.sound.counts (x := .thread t) hline
  have hs : w.tcp.chans[c]? = some s := hs
  obtain ⟨s', hs', hc⟩ := can_receive hc
  cases hs.symm.trans hs'
  obtain ⟨tail, hflight, _⟩ :=
    hconv.sound.stream (b := t.isProvider) hs (.held (x := .thread t) hline rfl)
  have hlen : (s.got t.isProvider).length = p.said !t.isProvider := hcounts.2
  exact ⟨s, hs, hlen ▸ (hflight.receive hc).1⟩

/-- The request that a thread of the provider answers was sent at some instant. -/
theorem asked_answered (hconv : Conversing w V) (ht : t.isProvider = true)
    (hline : (V t).line = some (c, .asked j)) : ∃ n, w.AskedAt c (j + 1) n := by
  obtain ⟨s, hs, hcounts⟩ := hconv.sound.counts (x := .thread t) hline
  have hs : w.tcp.chans[c]? = some s := hs
  have hgot : (s.got t.isProvider).length = (Phase.asked j).said !t.isProvider := hcounts.2
  rw [ht] at hgot
  have hgot : (s.got true).length = j + 2 := hgot
  have hsent : (s.got true).length ≤ s.sentR.length :=
    (hconv.ordered s (List.mem_of_getElem? hs) true).length_le
  have hasked : s.asked.length = s.sentR.length := hconv.sound.asked s (List.mem_of_getElem? hs)
  have hlt : j + 1 < s.asked.length := by omega
  exact ⟨s.asked[j + 1], s, hs, List.getElem?_eq_getElem hlt⟩

theorem Hosting.mono (h : Hosting w k) (hg : w.Grows w') (hkept : GroupsKept w w') :
    Hosting w' k where
  group hgroup hline hp := (h.group hgroup hline hp).mono hg
  present {g} hjoined hgone := by
    have hbefore : w.shared.gone = false := by
      by_contra hgone'
      cases hgone.symm.trans (hkept.gone (by simpa using hgone'))
    obtain ⟨e, he⟩ := Option.isSome_iff_exists.mp (h.present hjoined hbefore)
    rcases hkept.entry g e he with ⟨e', he', _⟩ | hgone'
    · exact Option.isSome_iff_exists.mpr ⟨e', he'⟩
    · cases hgone.symm.trans hgone'
  listed hl hline hp := by
    obtain ⟨g, n, hgroup, hasked, hsnapshot, hfound⟩ := h.listed hl hline hp
    exact ⟨g, n, hgroup, hasked.mono hg, hsnapshot.mono hg .rfl hg.now,
      hfound.imp fun _ _ he => he.mono hg .rfl hg.now⟩
  told hline := by
    obtain ⟨l, hl, hlen, hsent⟩ := h.told hline
    exact ⟨l, hl, hlen, hsent.mono hg⟩
  asking hl hasking := by
    obtain ⟨hjoined, hgroup, hmissing, info, hinfo, hknown, hregion⟩ := h.asking hl hasking
    exact ⟨hjoined, hgroup, hmissing, info, hinfo, hknown.grow hg, hregion⟩

/-- Without a connection there is no exchange. -/
theorem Hosting.unline (h : Hosting w k) : Hosting w { k with line := none } where
  group _ hline := by cases hline
  present := h.present
  listed _ hline := by cases hline
  told hline := by cases hline
  asking := h.asking

theorem Hosting.accept (c : Chan) :
    Hosting w
      { k with line := some (c, .fresh), group := none, joined := none, listing := none } where
  group hgroup := by cases hgroup
  present hjoined := by cases hjoined
  listed hl := by cases hl
  told hline := by cases hline
  asking hl := by cases hl

/-- A message of the exchange goes out. -/
theorem Hosting.send (h : Hosting w k) (hrole : k.role.isProvider = true)
    (hline : k.line = some (c, p)) (hspoken : k.Says p m) (hg : w.Grows w') (hkept : GroupsKept w w')
    (hsent : w'.Sent true c (p.said true) m) : Hosting w' { k with line := some (c, p.next) } := by
  have h' := h.mono hg hkept
  unfold Party.Says at hspoken
  rw [if_pos hrole] at hspoken
  refine ⟨fun {g c' q} hgroup hq hjoined => ?_, h'.present, fun {l c' q j} hl hq hj => ?_,
    fun {c' j} hq => ?_, h'.asking⟩
  · cases hq
    cases p with
    | greeted => cases hjoined
    | asked | told => exact h'.group hgroup hline rfl
    | fresh | idle => exact hspoken.elim
  · cases hq
    cases p with
    | asked j' => exact h'.listed hl hline hj
    | greeted | told => cases hj
    | fresh | idle => exact hspoken.elim
  · cases p with
    | asked j' =>
        cases hq
        obtain ⟨l, hl, hlen, rfl⟩ := hspoken
        exact ⟨l, hl, hlen, hsent⟩
    | greeted | told => cases hq
    | fresh | idle => exact hspoken.elim

/-- A request comes in. -/
theorem Hosting.hears (h : Hosting w k) (hline : k.line = some (c, p)) (hturn : p.turn = false)
    (hg : w.Grows w') (hkept : GroupsKept w w') (hgot : w'.Got true c (p.said false) m) :
    Hosting w' (k.hears m) := by
  have h' := h.mono hg hkept
  unfold Party.hears
  rw [hline]
  refine ⟨fun {g c' q} hgroup hq hjoined => ?_, h'.present, (fun hl => by cases hl),
    fun {c' j} hq => ?_, (fun hl => by cases hl)⟩
  · cases hq
    cases p with
    | fresh => cases hjoined
    | idle j =>
        cases j with
        | zero =>
            cases m with
            | wantGroup g' =>
                cases hgroup
                exact hgot
            | hello | welcome | update | metadata | tuples => cases hgroup
        | succ j => exact h'.group hgroup hline rfl
    | greeted | asked | told => cases hturn
  · cases p with
    | fresh | idle => cases hq
    | greeted | asked | told => cases hturn

/-- The listing is made. -/
theorem Hosting.list (h : Hosting w k) (hline : k.line = some (c, .asked j))
    (hgroup : k.group = some g) {n : Instant} (hasked : w.AskedAt c (j + 1) n) (hsnapshot : w.Snapshot n w.now l) :
    Hosting w (k.next .catalogSnapshot l) where
  group := h.group
  present := h.present
  listed {l' c' q j'} hl hq hj := by
    cases hl
    cases hline.symm.trans hq
    cases hj
    exact ⟨g, n, hgroup, hasked, hsnapshot, .nil⟩
  told {c' j'} hq := by cases hline.symm.trans hq
  asking _ hasking := by cases hasking

/-- The regions of a listing have their entries. -/
theorem World.Snapshot.known {a b : Instant} {info : RegionInfo} (h : w.Snapshot a b l)
    (hmem : (id, info) ∈ l) : w.Known id info := by
  obtain ⟨n, cat, hcat, _, _, hperm⟩ := h
  exact ⟨cat, List.mem_of_getElem? hcat, HashMap.mem_toList.mp (hperm.mem_iff.mp hmem)⟩

/-- `tuple_of` begins. -/
theorem Hosting.ask (h : Hosting w k) (hm : k.may (.tuplesGet id g)) (a : Op.Ans (.tuplesGet id g)) :
    Hosting w (k.next (.tuplesGet id g) a) where
  group := h.group
  present := h.present
  listed := h.listed
  told := h.told
  asking {l id' g'} hl hasking := by
    cases hasking
    obtain ⟨c, j, info, hline, hgroup, hjoined, hinfo⟩ := hm l hl
    obtain ⟨_, _, _, _, hsnapshot, _⟩ := h.listed hl hline rfl
    exact ⟨hjoined, hgroup, rfl, info, hinfo, hsnapshot.known (List.mem_of_getElem? hinfo),
      (fun _ hregion => by cases hregion)⟩

/-- The group is there. -/
theorem Hosting.group_found (h : Hosting w k) (hm : k.may (.groupsGetPd g))
    (hgone : w.shared.gone = false) {a : Op.Ans (.groupsGetPd g)} (hc : can t (.groupsGetPd g) w a) :
    Hosting w (k.next (.groupsGetPd g) a) where
  group := h.group
  present := h.present
  listed := h.listed
  told := h.told
  asking {l id' g'} hl hasking := by
    obtain ⟨hjoined, hgroup, _, hinfo⟩ := h.asking hl hasking
    refine ⟨hjoined, hgroup, ?_, hinfo⟩
    obtain ⟨id, hid⟩ := hm l hl
    cases hid.symm.trans hasking
    have ha : a = (w.shared.groups.lookup g).map (·.pd) := hc
    obtain ⟨e, he⟩ := Option.isSome_iff_exists.mp (h.present hjoined hgone)
    show a.isNone = false
    rw [ha, he]
    rfl

/-- The region is there, with the entry of the listing. -/
theorem Hosting.region_found {region : Tid → Option (UInt32 × RegionInfo)} (h : Hosting w k)
    (hm : k.may (.catalogGet id)) (hgone : w.shared.gone = false) (hed : Editions w region)
    {a : Op.Ans (.catalogGet id)} (hc : can t (.catalogGet id) w a) :
    Hosting w (k.next (.catalogGet id) a) where
  group := h.group
  present := h.present
  listed := h.listed
  told := h.told
  asking {l id' g'} hl hasking := by
    obtain ⟨hjoined, hgroup, _, info, hinfo, hknown, _⟩ := h.asking hl hasking
    obtain ⟨g, hid⟩ := hm l hl
    cases hid.symm.trans hasking
    have ha : a = w.shared.catalog.lookup id := hc
    obtain ⟨cat, hcat, hentry⟩ := hknown
    rw [hed.current_extends hgone cat hcat id info hentry] at ha
    subst ha
    refine ⟨hjoined, hgroup, rfl, info, hinfo, ⟨cat, hcat, hentry⟩, fun info' hregion => ?_⟩
    cases hregion
    rfl

/-- `tuple_of` returns, on the thread whose record it is. -/
theorem Hosting.answer {result : Except Fault (Option Tuple)} (h : Hosting w k)
    (hlook : LookingUp w k) (hrole : k.role = t) (hm : k.may (.note (.tupleOf id g result)))
    (hch : Chronicle w)
    (hg : w.Grows (post t (.note (.tupleOf id g result)) () w))
    (hkept : GroupsKept w (post t (.note (.tupleOf id g result)) () w)) :
    Hosting (post t (.note (.tupleOf id g result)) () w)
      (k.next (.note (.tupleOf id g result)) ()) := by
  have h' := h.mono hg hkept
  obtain ⟨hasking, hanswer⟩ := hm
  refine ⟨h'.group, h'.present, fun {l c p j} hl hline hj => ?_, fun {c j} hline => ?_,
    (fun _ hasking => by cases hasking)⟩
  · obtain ⟨_, hgroup, hmissing, info, hinfo, _, hregion⟩ := h.asking hl hasking
    obtain ⟨g', n, hgroup', hasked, hsnapshot, hfound⟩ := h'.listed hl hline hj
    cases hgroup.symm.trans hgroup'
    refine ⟨g, n, hgroup, hasked, hsnapshot, ?_⟩
    -- the answer is about the next region of the listing
    have htake : l.take (k.found ++ [result]).length = l.take k.found.length ++ [(id, info)] := by
      rw [List.length_append, List.length_singleton, List.take_add_one, hinfo]
      rfl
    show List.Forall₂ _ (l.take (k.found ++ [result]).length) (k.found ++ [result])
    rw [htake]
    refine List.rel_append hfound (.cons ⟨⟨_, w.log.records, List.suffix_refl _, rfl, ?_,
      Nat.lt_succ_self _, fun f hf => ?_⟩, ?_⟩ .nil)
    · obtain ⟨g'', n', _, hasked', _⟩ := h.listed hl hline hj
      cases hasked.unique (hasked'.mono hg)
      exact (hch.asked hasked').2
    · subst hf
      rcases hanswer with ⟨hrefused, hmet⟩ | ⟨info', hinfo', hsize⟩
      · obtain ⟨info', hinfo', x, hx, hof, hbefore, hsince⟩ := hlook.refused hl hasking hmet
        cases hinfo.symm.trans hinfo'
        obtain ⟨n', hasked', hn'⟩ := hsince hline hj
        cases hasked.unique (hasked'.mono hg)
        exact Or.inr ⟨hrefused, x, hx, hrole ▸ hof, hn', hbefore⟩
      · cases hregion info' hinfo'
        exact Or.inl hsize
    · rintro rfl
      have hanswer : k.lookup.missing = true := hanswer
      cases hmissing.symm.trans hanswer
  · -- all regions were answered before the first message went out
    obtain ⟨l, hl, hlen, _⟩ := h.told hline
    obtain ⟨_, _, _, info, hinfo, _⟩ := h.asking hl hasking
    rw [hlen, List.getElem?_eq_none (Nat.le_refl _)] at hinfo
    cases hinfo

/-- Another operation of the thread, or one of another thread, while no `tuple_of` of it returns. -/
theorem LookingUp.mono (h : LookingUp w k) (hg : w.Grows w')
    (hasking : w'.log.asking k.role = w.log.asking k.role)
    (hquiet : ∀ r ∈ w'.log.records, r.thread = k.role → ∀ id g result,
      r.note = .tupleOf id g result → r ∈ w.log.records) : LookingUp w' k where
  asking hkey := hasking.trans (h.asking hkey)
  refused hl hkey hmet := by
    obtain ⟨info, hinfo, x, hx, hof, hbefore, hsince⟩ := h.refused hl hkey hmet
    refine ⟨info, hinfo, x, hg.refused x hx,
      ⟨hof.thread, hof.key, hof.domain, hof.range, fun r hr ht id g result hnote =>
        hof.last r (hquiet r hr ht id g result hnote) ht id g result hnote⟩,
      hbefore.trans hg.now.2, fun hline hp => ?_⟩
    obtain ⟨n, hasked, hn⟩ := hsince hline hp
    exact ⟨n, hasked.mono hg, hn⟩

/-- The call goes on, whatever else the thread learns of its conversation. -/
theorem LookingUp.kept {k' : Party} (h : LookingUp w k) (hrole : k'.role = k.role)
    (hlookup : k'.lookup = k.lookup)
    (hlisting : ∀ l, k'.listing = some l → k.listing = some l ∧ k'.found = k.found ∧
      ∀ c p j, k'.line = some (c, p) → p.answers = some j →
        ∃ q, k.line = some (c, q) ∧ q.answers = some j) : LookingUp w k' where
  asking hkey := by
    rw [hlookup] at hkey
    exact hrole ▸ h.asking hkey
  refused hl hkey hmet := by
    rw [hlookup] at hkey hmet
    obtain ⟨hl, hfound, hline⟩ := hlisting _ hl
    obtain ⟨info, hinfo, x, hx, hof, hbefore, hsince⟩ := h.refused hl hkey hmet
    refine ⟨info, hfound ▸ hinfo, x, hx, hrole ▸ hof, hbefore, fun hk' hp => ?_⟩
    obtain ⟨q, hk, hq⟩ := hline _ _ _ hk' hp
    exact hsince hk hq

/-- Nothing has been asked for, or nothing refused. -/
theorem LookingUp.fresh (hasking : ∀ key, k.lookup.asking = some key → w.log.asking k.role = some key)
    (hrefused : k.lookup.refused = false) : LookingUp w k where
  asking hkey := hasking _ hkey
  refused _ _ hmet := by cases hrefused.symm.trans hmet

/-- The arguments on record are those of the thread's own last call. -/
theorem asking_post {o : Op} {a : o.Ans} {u : Tid}
    (h : u = t → ∀ id g, o ≠ .tuplesGet id g) : (post t o a w).log.asking u = w.log.asking u := by
  by_cases hlog : o.writesLog = false
  · rw [(post_frame (t := t) (w := w) o a).log hlog]
  cases o with
  | note n => exact rfl
  | tuplesGet id g => exact Function.update_of_ne (fun hu => h hu id g rfl) _ _
  | _ => exact absurd rfl hlog

/-- Another thread acts. -/
theorem LookingUp.other {o : Op} {a : o.Ans} {u : Tid} (h : LookingUp w k) (hrole : k.role = u)
    (hut : u ≠ t) (hg : w.Grows (post t o a w)) : LookingUp (post t o a w) k :=
  h.mono hg (asking_post fun ht => absurd (hrole.symm.trans ht) hut) fun _ hr hthread _ _ _ hn =>
    (tupleOf_post hr hn).resolve_right fun hthis =>
      hut ((hthread.trans hrole).symm.trans hthis.1)

theorem groupsPushed_lookup {groups groups' : HashMap UInt32 GroupEntry} {conn : Connection}
    (h : groupsPushed groups g conn = some groups') : (groups'.lookup g).isSome = true := by
  unfold groupsPushed at h
  split at h
  · cases h
    rw [HashMap.lookup_insert, if_pos rfl]
    rfl
  · cases h
    rw [HashMap.lookup_insert, if_pos rfl]
    rfl
  · cases h

/-- The group is joined. -/
theorem Hosting.join {conn : Connection} {a : Op.Ans (.groupsPush g conn)} (h : Hosting w k)
    (hgroup : k.group = some g) (hc : can t (.groupsPush g conn) w a)
    (hg : w.Grows (post t (.groupsPush g conn) a w))
    (hkept : GroupsKept w (post t (.groupsPush g conn) a w)) :
    Hosting (post t (.groupsPush g conn) a w) (k.next (.groupsPush g conn) a) := by
  have h' := h.mono hg hkept
  cases a with
  | error e => exact h'
  | ok u =>
      refine ⟨h'.group, fun {g'} hjoined _ => ?_, h'.listed, h'.told, fun {l id g'} hl hasking => ?_⟩
      · cases hjoined
        have hc : Except.ok () = if (groupsPushed w.shared.groups g conn).isSome then
          (Except.ok () : Except Fault Unit) else .error .panic := hc
        split at hc
        · next hsome =>
          obtain ⟨groups', hgroups⟩ := Option.isSome_iff_exists.mp hsome
          show ((pushPost t w g conn).shared.groups.lookup g).isSome = true
          unfold pushPost
          rw [hgroups]
          exact groupsPushed_lookup hgroups
        · cases hc
      · obtain ⟨_, hgroup', hrest⟩ := h'.asking hl hasking
        cases hgroup.symm.trans hgroup'
        exact ⟨rfl, hgroup', hrest⟩

/-- What the provider has sent by now it has sent before, or a thread of it sends it now. -/
theorem sent_cases {o : Op} {a : o.Ans} {i : Nat} (h : (post t o a w).Sent true c i m) :
    w.Sent true c i m ∨ (t.isProvider = true ∧
      (∃ n, (⟨o, a⟩ : Σ o : Op, o.Ans) = ⟨.send c m, (.ok (), n)⟩) ∧
        ∃ s, w.tcp.chans[c]? = some s ∧ i = (s.sent true).length) := by
  obtain ⟨s', hs', hm⟩ := h
  rcases chan_touched hs' with ⟨j, rfl⟩ | ⟨s, hs, htouched⟩
  · cases hm
  cases htouched with
  | same => exact Or.inl ⟨_, hs, hm⟩
  | receive a =>
      rw [ChanState.receive_other.1] at hm
      exact Or.inl ⟨s, hs, hm⟩
  | send m' a =>
      obtain ⟨result, n⟩ := a
      cases hside : t.isProvider with
      | false =>
          rw [hside] at hm
          exact Or.inl ⟨s, hs, hm⟩
      | true =>
          rw [hside] at hm
          cases result with
          | error e => exact Or.inl ⟨s, hs, hm⟩
          | ok u =>
              rw [ChanState.send_sent, List.getElem?_append] at hm
              split at hm
              · exact Or.inl ⟨s, hs, hm⟩
              · next hlt =>
                have hzero : i - (s.sent true).length = 0 :=
                  Nat.lt_one_iff.mp (List.getElem?_eq_some_iff.mp hm).1
                obtain rfl := List.mem_singleton.mp (List.mem_of_getElem? hm)
                exact Or.inr ⟨rfl, ⟨n, rfl⟩, s, hs, by omega⟩

theorem World.Sent.lt {b : Bool} {i : Nat} {s : ChanState} (h : w.Sent b c i m)
    (hs : w.tcp.chans[c]? = some s) : i < (s.sent b).length := by
  obtain ⟨s', hs', hm⟩ := h
  cases hs.symm.trans hs'
  exact (List.getElem?_eq_some_iff.mp hm).1

/-- **The second message completes the exchange.** -/
theorem Replied.step {o : Op} {a : o.Ans} (h : Replied w) (hconv : Conversing w V)
    (hhost : t.isProvider = true → Hosting w (V t)) (hm : (V t).may o)
    (hg : w.Grows (post t o a w)) : Replied (post t o a w) := by
  intro c j x₁ x₂ h₁ h₂
  rcases sent_cases h₂ with h₂ | ⟨ht, ⟨n, ho⟩, s, hs, hlen⟩
  · have h₁ : w.Sent true c (2 * j + 1) x₁ := by
      rcases sent_cases h₁ with h₁ | ⟨_, _, s, hs, hlen⟩
      · exact h₁
      · have := h₂.lt hs
        omega
    obtain ⟨g, n, hgot, hasked, hex⟩ := h c j x₁ x₂ h₁ h₂
    exact ⟨g, n, hgot.mono hg, hasked.mono hg, hex.mono hg .rfl hg.now⟩
  · have hfirst : w.Sent true c (2 * j + 1) x₁ := by
      rcases sent_cases h₁ with h₁ | ⟨_, _, s', hs', hlen'⟩
      · exact h₁
      · cases hs.symm.trans hs'
        omega
    cases ho
    obtain ⟨p, hline, hspoken⟩ := hm
    -- as many messages have been sent as there are before the second one of this exchange
    obtain ⟨s', hs', hcounts⟩ := hconv.sound.counts (x := .thread t) hline
    cases hs.symm.trans (show w.tcp.chans[c]? = some s' from hs')
    have hsaid : p.said true = 2 * j + 2 := by
      have hsaid : (s.sent t.isProvider).length = p.said t.isProvider := hcounts.1
      rw [ht] at hsaid
      omega
    obtain rfl : p = .told j := by
      cases p with
      | fresh | greeted => cases hsaid
      | idle i | asked i =>
          have hsaid : 2 * i + 1 = 2 * j + 2 := hsaid
          omega
      | told i =>
          have hsaid : 2 * i + 2 = 2 * j + 2 := hsaid
          obtain rfl : i = j := by omega
          rfl
    have hhost := hhost ht
    obtain ⟨l, hlisting, hlength, hsent⟩ := hhost.told hline
    obtain ⟨g, n, hgroup, hasked, hsnapshot, hfound⟩ := hhost.listed hlisting hline rfl
    unfold Party.Says at hspoken
    rw [hconv.role t, if_pos ht] at hspoken
    obtain ⟨l', g', hlisting', _, hgroup', rfl⟩ := hspoken
    cases hlisting.symm.trans hlisting'
    cases hgroup.symm.trans hgroup'
    rw [hlength, List.take_length] at hfound
    refine ⟨g, n, (hhost.group hgroup hline rfl).mono hg, hasked.mono hg, ?_⟩
    refine World.Exchange.mono ⟨l, (V t).found, hsnapshot, hfound, ?_⟩ hg .rfl hg.now
    rw [hfirst.unique hsent]

/-- The threads of the provider, and what they have sent. -/
structure Hosted (w : World) (V : Tid → Party) : Prop where
  hosting : ∀ t, t.isProvider = true → Hosting w (V t)
  looking : ∀ t, t.isProvider = true → LookingUp w (V t)
  replied : Replied w

end Provider

section HostedRuns

variable {w : World} {κ : Tid → Both} {prog : Tid → Code (Option Loop)}

/-- **The device refuses the registration**, to the `tuple_of` whose arguments are on record. -/
theorem Talked.looking_refused (hw : Talked w prog κ) {t : Tid} {pd : Nat} {addr size : UInt64}
    (ht : t.isProvider = true) (hhost : Hosting w (view w κ t)) (h : LookingUp w (view w κ t))
    (hm : may (κ t).1 (.verb (.regMr pd addr size)))
    (hmay : (view w κ t).may (.verb (.regMr pd addr size))) :
    LookingUp (post t (.verb (.regMr pd addr size)) none w)
      ((view w κ t).next (.verb (.regMr pd addr size)) none) := by
  have hconv := conversing_watched hw
  have hg : w.Grows (post t (.verb (.regMr pd addr size)) none w) := hw.grows hm
  have hkeys {key : UInt32 × UInt32} (hkey : (view w κ t).lookup.asking = some key) :
      (w.log.asking t).getD (0, 0) = key := by
    rw [← hconv.role t, h.asking hkey]
    rfl
  have hnew : (⟨t, w.now, (w.log.asking t).getD (0, 0),
      (w.shared.groups.lookup ((w.log.asking t).getD (0, 0)).2).map (·.pd.pd), pd, addr, size⟩ :
        Refusal) ∈ (post t (.verb (.regMr pd addr size)) none w).hca.refused := by
    cases t with
    | reader | net => cases ht
    | app | service | session => exact List.mem_cons_self
  have hlog : (post t (.verb (.regMr pd addr size)) none w).log = w.log :=
    (post_frame (t := t) (w := w) (.verb (.regMr pd addr size)) none).log rfl
  refine ⟨fun {key} hkey => (asking_post fun _ _ _ ho => by cases ho).trans (h.asking hkey),
    fun {l id g} hl hkey _ => ?_⟩
  obtain ⟨id', g', info, hkey', hregion, haddr, hsize⟩ := hmay l hl
  cases hkey'.symm.trans hkey
  obtain ⟨_, _, _, info', hinfo, _, hsame⟩ := hhost.asking hl hkey
  obtain rfl : info = info' := hsame info hregion
  refine ⟨info, hinfo, _, hnew, ⟨(hconv.role t).symm, hkeys hkey, ?_, ⟨haddr, hsize⟩,
    fun r hr _ _ _ _ _ => ?_⟩, hg.now.2, fun {c p j} hline hp => ?_⟩
  · -- the domain of the registration is that of the group looked up
    obtain ⟨_, _, id', g', dom, _, hasked, hlooked, hpd, _⟩ := hm
    have hasking : w.log.asking t = some (id', g') :=
      (owned_watched hw.watched).registered.asked hasked
    have hkey' : (w.log.asking t).getD (0, 0) = (id', g') := by
      rw [hasking]
      rfl
    obtain ⟨e, he, hdom⟩ := (domains_watched hw.watched).looked.found hlooked
    show (w.shared.groups.lookup ((w.log.asking t).getD (0, 0)).2).map (·.pd.pd) = some pd
    rw [hkey', he, ← hpd, ← hdom]
    rfl
  · rw [hlog] at hr
    exact ((chronicle_watched hw).past r hr).2
  · obtain ⟨_, n, _, hasked, _⟩ := hhost.listed hl hline hp
    exact ⟨n, hasked.mono hg, ((chronicle_watched hw).asked hasked).2⟩

/-- What a `tuple_of` under way has met, after one more operation of its thread. -/
theorem Talked.looking_acts (hw : Talked w prog κ) {t : Tid} {o : Op} {a : o.Ans}
    (ht : t.isProvider = true) (hhost : Hosting w (view w κ t)) (h : LookingUp w (view w κ t))
    (ho : o.hands = false) (hm : may (κ t).1 o) (hmay : (view w κ t).may o) :
    LookingUp (post t o a w) ((view w κ t).next o a) := by
  have hconv := conversing_watched hw
  have hg : w.Grows (post t o a w) := hw.grows hm
  have hprovider : (view w κ t).role.isProvider = true := by rw [hconv.role t, ht]
  have hkeep (hget : ∀ id g, o ≠ .tuplesGet id g)
      (hnote : ∀ id g result, o ≠ .note (.tupleOf id g result)) :
      LookingUp (post t o a w) (view w κ t) :=
    h.mono hg (asking_post fun _ => hget) fun r hr _ id g result hn =>
      (tupleOf_post hr hn).resolve_right fun hthis => hnote id g result hthis.2
  cases o with
  | tcpAccept =>
      cases a with
      | none => exact hkeep nofun nofun
      | some c => exact (hkeep nofun nofun).kept rfl rfl nofun
  | send c m =>
      obtain ⟨p, hline, hspoken⟩ := hmay
      obtain ⟨result, n⟩ := a
      cases result with
      | error e => exact (hkeep nofun nofun).kept rfl rfl fun l hl => ⟨hl, rfl, nofun⟩
      | ok u =>
          rw [Party.next_sent hline]
          refine (hkeep nofun nofun).kept rfl rfl fun l hl => ⟨hl, rfl, fun c' q j hq hj => ?_⟩
          cases hq
          unfold Party.Says at hspoken
          rw [if_pos hprovider] at hspoken
          cases p with
          | asked j' => exact ⟨_, hline, hj⟩
          | greeted | told => cases hj
          | fresh | idle => exact hspoken.elim
  | receive c =>
      obtain ⟨p, hline, _⟩ := hmay
      obtain ⟨result, n⟩ := a
      cases result with
      | error e => exact (hkeep nofun nofun).kept rfl rfl fun l hl => ⟨hl, rfl, nofun⟩
      | ok m =>
          show LookingUp _ ((view w κ t).hears m)
          unfold Party.hears
          rw [hline]
          exact (hkeep nofun nofun).kept rfl rfl nofun
  | tcpConnect =>
      obtain ⟨i, g, hi, _⟩ := hmay
      rw [hi] at hprovider
      cases hprovider
  | spawnSession | awaitSession => cases ho
  | groupsPush =>
      cases a <;>
        exact (hkeep nofun nofun).kept rfl rfl fun l hl => ⟨hl, rfl, fun c p j hq hj => ⟨p, hq, hj⟩⟩
  | catalogInsert =>
      exact (hkeep nofun nofun).kept rfl rfl fun l hl => ⟨hl, rfl, fun c p j hq hj => ⟨p, hq, hj⟩⟩
  | catalogSnapshot => exact .fresh nofun rfl
  | tuplesGet id g =>
      refine .fresh (fun key hkey => ?_) rfl
      cases hkey
      show Function.update w.log.asking t (some (id, g)) (view w κ t).role = _
      rw [hconv.role t, Function.update_self]
  | groupsGetPd | catalogGet => exact ⟨(hkeep nofun nofun).asking, (hkeep nofun nofun).refused⟩
  | note n =>
      cases n with
      | tupleOf => exact .fresh nofun rfl
      | updateBegins | ingested | updateReturns =>
          obtain ⟨i, hi⟩ := hmay.1
          rw [hi] at hprovider
          cases hprovider
      | registered | panicked => exact hkeep nofun nofun
  | verb v =>
      cases v with
      | regMr pd addr size =>
          cases a with
          | none => exact hw.looking_refused ht hhost h hm hmay
          | some reg => exact hkeep nofun nofun
      | _ => exact hkeep nofun nofun
  | _ => exact hkeep nofun nofun

/-- What a thread of the provider has done of its exchange, after one more operation. -/
theorem Talked.hosting_acts (hw : Talked w prog κ) {t : Tid} {o : Op} {a : o.Ans}
    (ht : t.isProvider = true) (h : Hosting w (view w κ t)) (hlook : LookingUp w (view w κ t))
    (ho : o.hands = false)
    (hm : may (κ t).1 o) (hmay : (view w κ t).may o) (hc : can t o w a)
    (hg : w.Grows (post t o a w)) (hkept : GroupsKept w (post t o a w)) :
    Hosting (post t o a w) ((view w κ t).next o a) := by
  have hconv := conversing_watched hw
  have hlives := lives_watched hw.watched
  have h' := h.mono hg hkept
  have hprovider : (view w κ t).role.isProvider = true := by rw [hconv.role t, ht]
  have hreader {P : Prop} (h : ∃ i, (view w κ t).role = .reader i) : P := by
    obtain ⟨i, hi⟩ := h
    rw [hi] at hprovider
    cases hprovider
  cases o with
  | tcpConnect =>
      obtain ⟨i, g, hi, _⟩ := hmay
      exact hreader ⟨i, hi⟩
  | tcpAccept =>
      cases a with
      | none => exact h'
      | some c => exact Hosting.accept c
  | send c m =>
      obtain ⟨p, hline, hspoken⟩ := hmay
      obtain ⟨result, n⟩ := a
      cases result with
      | error e => exact h'.unline
      | ok u =>
          have hn : n = m.encode.length := hc.2
          subst hn
          have hsent := sent_post (m := m) hconv hline
          rw [ht] at hsent
          rw [Party.next_sent hline]
          exact h.send hprovider hline hspoken hg hkept hsent
  | receive c =>
      obtain ⟨p, hline, hturn⟩ := hmay
      obtain ⟨result, n⟩ := a
      cases result with
      | error e => exact h'.unline
      | ok m =>
          have hgot := got_post (m := m) (n := n) hconv hline
          rw [ht] at hgot
          exact h.hears hline (hturn.trans (by rw [hprovider]; rfl)) hg hkept hgot
  | spawnSession | awaitSession => cases ho
  | groupsPush g conn => exact h.join hmay.2 hc hg hkept
  | catalogInsert id info => exact ⟨h'.group, h'.present, h'.listed, h'.told, h'.asking⟩
  | catalogSnapshot =>
      obtain ⟨c, j, g, hline, hgroup, _⟩ := hmay
      obtain ⟨n, hasked⟩ := asked_answered hconv ht hline
      have hgone := hlives.present hm
      obtain ⟨earlier, he⟩ := (editions_watched hw.watched).current hgone
      have hnow : w.now.editions = earlier.length + 1 := by
        show w.shared.editions.length = _
        rw [he, List.length_append]
        rfl
      have hsnapshot : w.Snapshot n w.now a := by
        refine ⟨earlier.length, w.shared.catalog, ?_, hnow ▸ ((chronicle_watched hw).asked hasked).1,
          Nat.le_of_eq hnow.symm, hc⟩
        rw [catalogs_present hgone, he, List.getElem?_append_right (Nat.le_refl _), Nat.sub_self]
        rfl
      exact h'.list hline hgroup (hasked.mono hg) (hsnapshot.mono hg .rfl hg.now)
  | tuplesGet id g => exact h'.ask hmay a
  | groupsGetPd g => exact (h.group_found hmay (hlives.present hm) hc).mono hg hkept
  | catalogGet id =>
      exact (h.region_found hmay (hlives.present hm) (editions_watched hw.watched) hc).mono hg hkept
  | note x =>
      cases x with
      | tupleOf id g result => exact h.answer hlook (hconv.role t) hmay (chronicle_watched hw) hg hkept
      | updateBegins | ingested | updateReturns => exact hreader hmay.1
      | registered | panicked => exact h'
  | verb v =>
      obtain ⟨refused, hk⟩ := (view w κ t).next_verb v a
      rw [hk]
      exact ⟨h'.group, h'.present, h'.listed, h'.told, h'.asking⟩
  | _ => exact h'

/-- **In every run the provider's messages are exchanges.** -/
theorem hosted_watched (h : Talked w prog κ) : Hosted w (view w κ) := by
  refine h.invariant (I := Hosted) ?_ (fun {w κ prog} hw hI t o a ho hm hmay hc _ => ?_)
    fun {w κ prog} hw hI c g n hm hline hgroup hjoined => ?_
  · refine ⟨fun t _ => ⟨(fun hgroup => by cases hgroup), (fun hjoined => by cases hjoined),
      (fun hl => by cases hl), (fun hline => by cases hline), (fun hl => by cases hl)⟩,
      fun t _ => .fresh nofun rfl, fun c j x₁ x₂ h₁ => ?_⟩
    obtain ⟨s, hs, _⟩ := h₁
    cases hs
  · have hg : w.Grows (post t o a w) := hw.grows hm
    have hkept : GroupsKept w (post t o a w) := groupsKept_step hw.watched hm
    refine ⟨fun u hu => ?_, fun u hu => ?_,
      hI.replied.step (conversing_watched hw) (hI.hosting t) hmay hg⟩
    · by_cases hut : u = t
      · subst hut
        rw [Function.update_self]
        exact hw.hosting_acts hu (hI.hosting u hu) (hI.looking u hu) ho hm hmay hc hg hkept
      · rw [Function.update_of_ne hut]
        exact (hI.hosting u hu).mono hg hkept
    · by_cases hut : u = t
      · subst hut
        rw [Function.update_self]
        exact hw.looking_acts hu (hI.hosting u hu) (hI.looking u hu) ho hm hmay
      · rw [Function.update_of_ne hut]
        exact (hI.looking u hu).other ((conversing_watched hw).role u) hut hg
  · have hg : w.Grows (post .service (.spawnSession c g) n w) := hw.grows hm
    have hkept : GroupsKept w (post .service (.spawnSession c g) n w) :=
      groupsKept_step hw.watched hm
    have hservice := (hI.hosting .service rfl).mono hg hkept
    have hlooking {u : Tid} (hu : u.isProvider = true) :
        LookingUp (post .service (.spawnSession c g) n w) (view w κ u) :=
      (hI.looking u hu).mono hg (asking_post fun _ _ _ => nofun) fun r hr _ id g' result hn =>
        (tupleOf_post hr hn).resolve_right (by rintro ⟨_, ho⟩; cases ho)
    refine ⟨fun u hu => ?_, fun u hu => ?_, fun c' j x₁ x₂ h₁ h₂ => ?_⟩
    · by_cases hun : u = .session n
      · subst hun
        rw [Function.update_self]
        refine ⟨fun {g' c' p} hg' hline' _ => ?_, fun {g'} hg' hgone => ?_, (fun hl => by cases hl),
          (fun hline' => by cases hline'), (fun hl => by cases hl)⟩
        · cases hg'
          cases hline'
          exact hservice.group hgroup hline rfl
        · cases hg'
          exact hservice.present hjoined hgone
      · rw [Function.update_of_ne hun]
        by_cases hus : u = .service
        · subst hus
          rw [Function.update_self]
          exact hservice.unline
        · rw [Function.update_of_ne hus]
          exact (hI.hosting u hu).mono hg hkept
    · by_cases hun : u = .session n
      · subst hun
        rw [Function.update_self]
        exact (hlooking hu).kept rfl rfl nofun
      · rw [Function.update_of_ne hun]
        by_cases hus : u = .service
        · subst hus
          rw [Function.update_self]
          exact (hlooking hu).kept rfl rfl fun l hl => ⟨hl, rfl, nofun⟩
        · rw [Function.update_of_ne hus]
          exact hlooking hu
    · obtain ⟨g', n', hgot, hasked, hex⟩ := hI.replied c' j x₁ x₂ h₁ h₂
      exact ⟨g', n', hgot.mono hg, hasked.mono hg, hex.mono hg .rfl hg.now⟩

end HostedRuns

/-! ## 5. The readers -/

/-- The update that a reader is in, with the instant of its begin, after a note of it. -/
def Note.calls (now : Instant) (call : Option (UInt32 × Instant)) : Note → Option (UInt32 × Instant)
  | .updateBegins g => some (g, now)
  | .updateReturns _ _ _ => none
  | _ => call

/-- The update that a reader is in, by the records; the last one comes first. -/
def callOf (i : Nat) : List Record → Option (UInt32 × Instant)
  | [] => none
  | r :: earlier =>
      if r.thread = .reader i then r.note.calls r.instant (callOf i earlier) else callOf i earlier

/-- **What a reader has heard of the exchange of its call.** -/
structure Attending (w : World) (call : Option (UInt32 × Instant)) (k : Party) : Prop where
  calls : k.call = call.map Prod.fst
  joined : ∀ {g c p}, k.call = some g → k.line = some (c, p) → p.joined = true →
    w.Sent false c 1 (.wantGroup g)
  parked : ∀ {g c p}, k.parked g = some (c, p) →
    (∃ j, p = .idle (j + 1)) ∧ w.Sent false c 1 (.wantGroup g)
  since : ∀ {g b c p j}, call = some (g, b) → k.line = some (c, p) → p.answers = some j →
    ∃ n, w.AskedAt c (j + 1) n ∧ b.Upto n
  told : ∀ {c j}, k.line = some (c, .told j) → ∃ x, k.heard = [x] ∧ w.Sent true c (2 * j + 1) x
  heard : ∀ {g b x₁ x₂}, call = some (g, b) → k.heard = [x₁, x₂] → w.Exchange g b w.now (x₁, x₂)

section Reader

variable {w w' : World} {k : Party} {c : Chan} {p : Phase} {m : Message} {g : UInt32} {i : Nat}
variable {call : Option (UInt32 × Instant)} {b : Instant} {V : Tid → Party} {o : Op} {a : o.Ans}

/-- The begin of the update is on record. -/
theorem callOf_recorded {rs : List Record} (h : callOf i rs = some (g, b)) :
    ∃ r ∈ rs, r.thread = .reader i ∧ r.note = .updateBegins g ∧ r.instant = b := by
  induction rs with
  | nil => cases h
  | cons r rs ih =>
      have hold (h : callOf i rs = some (g, b)) :
          ∃ r' ∈ r :: rs, r'.thread = .reader i ∧ r'.note = .updateBegins g ∧ r'.instant = b := by
        obtain ⟨r', hr', hrest⟩ := ih h
        exact ⟨r', List.mem_cons_of_mem _ hr', hrest⟩
      unfold callOf at h
      split at h
      · next hthread =>
        cases hnote : r.note with
        | updateBegins g' =>
            rw [hnote] at h
            cases h
            exact ⟨r, List.mem_cons_self, hthread, hnote, rfl⟩
        | updateReturns g' result st =>
            rw [hnote] at h
            cases h
        | registered | ingested | tupleOf | panicked =>
            rw [hnote] at h
            exact hold h
      · exact hold h

theorem callOf_self : callOf i (post (.reader i) o a w).log.records =
    match o with
    | .note n => n.calls w.now (callOf i w.log.records)
    | _ => callOf i w.log.records := by
  cases o with
  | note n => exact if_pos rfl
  | tuplesGet => rfl
  | _ => rw [(post_frame (t := .reader i) (w := w) _ a).log rfl]

theorem callOf_other {t : Tid} (ht : t ≠ .reader i) :
    callOf i (post t o a w).log.records = callOf i w.log.records := by
  rcases post_records (t := t) (o := o) (a := a) (w := w) with hsame | ⟨n, _, hmore⟩
  · rw [hsame]
  · rw [hmore]
    exact if_neg ht

/-- The update began before now. -/
theorem Chronicle.begun (h : Chronicle w) (hcall : callOf i w.log.records = some (g, b)) :
    b.Upto w.now := by
  obtain ⟨r, hr, _, _, rfl⟩ := callOf_recorded hcall
  exact ⟨(h.past r hr).1, (h.past r hr).2.le⟩

theorem Attending.mono (h : Attending w call k) (hg : w.Grows w') : Attending w' call k where
  calls := h.calls
  joined hcall hline hp := (h.joined hcall hline hp).mono hg
  parked hparked := ⟨(h.parked hparked).1, (h.parked hparked).2.mono hg⟩
  since hcall hline hp := by
    obtain ⟨n, hasked, hb⟩ := h.since hcall hline hp
    exact ⟨n, hasked.mono hg, hb⟩
  told hline := by
    obtain ⟨x, hx, hsent⟩ := h.told hline
    exact ⟨x, hx, hsent.mono hg⟩
  heard hcall hheard := (h.heard hcall hheard).mono hg .rfl hg.now

/-- Without a connection, a reader hears nothing more. -/
theorem Attending.unline (h : Attending w call k) : Attending w call { k with line := none } where
  calls := h.calls
  joined _ hline := by cases hline
  parked := h.parked
  since _ hline := by cases hline
  told hline := by cases hline
  heard := h.heard

theorem Attending.connect (h : Attending w call k) (c : Chan) :
    Attending w call { k with line := some (c, .fresh), heard := [] } where
  calls := h.calls
  joined _ hline hp := by
    cases hline
    cases hp
  parked := h.parked
  since _ hline hp := by
    cases hline
    cases hp
  told hline := by cases hline
  heard _ hheard := by cases hheard

/-- An instant is noted of what a reader sends. -/
theorem asked_post (hconv : Conversing w V) (hline : (V (.reader i)).line = some (c, p)) :
    (post (.reader i) (.send c m) (.ok (), m.encode.length) w).AskedAt c (p.said false) w.now := by
  obtain ⟨s, hs, hcounts⟩ := hconv.sound.counts (x := .thread (.reader i)) hline
  have hs : w.tcp.chans[c]? = some s := hs
  refine ⟨s.send false w.now m (.ok (), m.encode.length), modified_at hs, ?_⟩
  have hlen : s.sentR.length = p.said false := hcounts.1
  have hasked : s.asked.length = s.sentR.length := hconv.sound.asked s (List.mem_of_getElem? hs)
  show (s.asked ++ [w.now])[p.said false]? = _
  rw [List.getElem?_append_right (by omega), ← hlen, hasked, Nat.sub_self]
  rfl

/-- A request goes out. -/
theorem Attending.send (h : Attending w call k) (hrole : k.role.isProvider = false)
    (hline : k.line = some (c, p)) (hspoken : k.Says p m) (hg : w.Grows w')
    (hsent : w'.Sent false c (p.said false) m) (hasked : w'.AskedAt c (p.said false) w.now)
    (hbegun : ∀ {g b}, call = some (g, b) → b.Upto w.now) :
    Attending w' call { k with line := some (c, p.next) } := by
  have h' := h.mono hg
  unfold Party.Says at hspoken
  rw [hrole, if_neg Bool.false_ne_true] at hspoken
  refine ⟨h'.calls, fun {g c' q} hcall hq hjoined => ?_, h'.parked,
    fun {g b c' q j} hcall hq hj => ?_, fun {c' j} hq => ?_, h'.heard⟩
  · cases hq
    cases p with
    | fresh => cases hjoined
    | idle j =>
        cases j with
        | zero =>
            obtain ⟨g', hcall', rfl⟩ := hspoken
            cases hcall.symm.trans hcall'
            exact hsent
        | succ j => exact h'.joined hcall hline rfl
    | greeted | asked | told => exact hspoken.elim
  · cases hq
    cases p with
    | fresh => cases hj
    | idle j' =>
        cases hj
        exact ⟨w.now, hasked, hbegun hcall⟩
    | greeted | asked | told => exact hspoken.elim
  · cases p with
    | fresh | idle => cases hq
    | greeted | asked | told => exact hspoken.elim

/-- **A message comes in**; the second one of an exchange completes it. -/
theorem Attending.hears (h : Attending w call k) (hline : k.line = some (c, p))
    (hturn : p.turn = true) (hg : w.Grows w') (hsent : w'.Sent true c (p.said true) m)
    (hreplied : ∀ {g b j x}, call = some (g, b) → p = .told j → w'.Sent true c (2 * j + 1) x →
      w'.Exchange g b w'.now (x, m)) : Attending w' call (k.hears m) := by
  have h' := h.mono hg
  unfold Party.hears
  rw [hline]
  refine ⟨h'.calls, fun {g c' q} hcall hq hjoined => ?_, h'.parked,
    fun {g b c' q j} hcall hq hj => ?_, fun {c' j} hq => ?_, fun {g b x₁ x₂} hcall hheard => ?_⟩
  · cases hq
    cases p with
    | greeted => cases hjoined
    | asked | told => exact h'.joined hcall hline rfl
    | fresh | idle => cases hturn
  · cases hq
    cases p with
    | asked j' => exact h'.since hcall hline hj
    | greeted | told => cases hj
    | fresh | idle => cases hturn
  · cases p with
    | asked j' =>
        cases hq
        exact ⟨m, rfl, hsent⟩
    | greeted | told => cases hq
    | fresh | idle => cases hturn
  · cases p with
    | told j =>
        obtain ⟨x, hx, hfirst⟩ := h'.told hline
        have hheard : k.heard ++ [m] = [x₁, x₂] := hheard
        rw [hx] at hheard
        cases hheard
        exact hreplied hcall rfl hfirst
    | greeted | asked => cases hheard
    | fresh | idle => cases hturn

/-- An update begins: the reader takes up the connection of the group. -/
theorem Attending.begins (h : Attending w call k) (g : UInt32) (now : Instant) :
    Attending w (some (g, now)) (k.next (.note (.updateBegins g)) ()) where
  calls := rfl
  joined hcall hline _ := by
    cases hcall
    exact (h.parked hline).2
  parked {g' c p} hparked := by
    have hparked : update k.parked g none g' = some (c, p) := hparked
    by_cases hg : g' = g
    · rw [hg, Function.update_self] at hparked
      cases hparked
    · rw [Function.update_of_ne hg] at hparked
      exact h.parked hparked
  since _ hline hp := by
    obtain ⟨⟨j, rfl⟩, _⟩ := h.parked hline
    cases hp
  told hline := by
    obtain ⟨⟨j, hj⟩, _⟩ := h.parked hline
    cases hj
  heard _ hheard := by cases hheard

/-- The exchange is ingested: the reader parks its connection. -/
theorem Attending.parks {result : Except Fault Unit} (h : Attending w call k)
    (hm : k.Ingests g result) : Attending w call (k.next (.note (.ingested g result)) ()) where
  calls := h.calls
  joined _ hline := by cases hline
  parked {g' c p} hparked := by
    have hparked : update k.parked g k.line g' = some (c, p) := hparked
    by_cases hg : g' = g
    · obtain ⟨hcall, c', j, x, hline, _⟩ := hm
      rw [hg, Function.update_self, hline] at hparked
      cases hparked
      exact ⟨⟨j, rfl⟩, hg ▸ h.joined hcall hline rfl⟩
    · rw [Function.update_of_ne hg] at hparked
      exact h.parked hparked
  since _ hline := by cases hline
  told hline := by cases hline
  heard := h.heard

/-- An update returns. -/
theorem Attending.returns (h : Attending w call k) : Attending w none
    { k with call := none, line := none } where
  calls := rfl
  joined _ hline := by cases hline
  parked := h.parked
  since hcall := by cases hcall
  told hline := by cases hline
  heard hcall := by cases hcall

/-- A reader and the provider mean the same group and the same request. -/
theorem Attending.replied {j : Nat} {x : Message} (h : Attending w call (V (.reader i)))
    (hconv : Conversing w V) (hreplied : Replied w)
    (hline : (V (.reader i)).line = some (c, .told j)) (hcall : call = some (g, b))
    (hfirst : w.Sent true c (2 * j + 1) x) (hsecond : w.Sent true c (2 * j + 2) m) :
    w.Exchange g b w.now (x, m) := by
  obtain ⟨g', n, ⟨s, hs, hgot⟩, hasked, hex⟩ := hreplied c j x m hfirst hsecond
  have hjoined : w.Sent false c 1 (.wantGroup g) := by
    refine h.joined ?_ hline rfl
    rw [h.calls, hcall]
    rfl
  have hprefix := hconv.ordered s (List.mem_of_getElem? hs) true
  have hgroup : w.Sent false c 1 (.wantGroup g') := ⟨s, hs, kept_at hprefix hgot⟩
  cases hjoined.unique hgroup
  obtain ⟨n', hasked', hb⟩ := h.since hcall hline rfl
  cases hasked.unique hasked'
  exact hex.mono .rfl hb .rfl

end Reader

section AttendingRuns

variable {w : World} {κ : Tid → Both} {prog : Tid → Code (Option Loop)}

/-- What a reader has heard, after one more operation of it. -/
theorem Talked.attending_acts (hw : Talked w prog κ) {i : Nat} {o : Op} {a : o.Ans}
    (h : Attending w (callOf i w.log.records) (view w κ (.reader i))) (ho : o.hands = false)
    (hmay : (view w κ (.reader i)).may o) (hc : can (.reader i) o w a)
    (hg : w.Grows (post (.reader i) o a w)) :
    Attending (post (.reader i) o a w) (callOf i (post (.reader i) o a w).log.records)
      ((view w κ (.reader i)).next o a) := by
  have hconv := conversing_watched hw
  have hrole : (view w κ (.reader i)).role.isProvider = false := by
    rw [hconv.role (.reader i)]
    rfl
  have h' := h.mono hg
  rw [callOf_self]
  cases o with
  | tcpConnect =>
      cases a with
      | error e => exact h'
      | ok c => exact h'.connect c
  | tcpAccept =>
      have hservice : (view w κ (.reader i)).role = .service := hmay
      rw [hconv.role (.reader i)] at hservice
      cases hservice
  | send c m =>
      obtain ⟨p, hline, hspoken⟩ := hmay
      obtain ⟨result, n⟩ := a
      cases result with
      | error e => exact h'.unline
      | ok u =>
          have hn : n = m.encode.length := hc.2
          subst hn
          rw [Party.next_sent hline]
          exact h.send hrole hline hspoken hg (sent_post hconv hline) (asked_post hconv hline)
            fun hcall => (chronicle_watched hw).begun hcall
  | receive c =>
      obtain ⟨p, hline, hturn⟩ := hmay
      obtain ⟨result, n⟩ := a
      cases result with
      | error e => exact h'.unline
      | ok m =>
          have hsent : w.Sent true c (p.said true) m := sent_received hconv hline hc
          refine h.hears hline (hturn.trans (by rw [hrole]; rfl)) hg (hsent.mono hg)
            fun {g b j x} hcall hp hfirst => ?_
          subst hp
          rcases sent_cases hfirst with hfirst | ⟨hprovider, _⟩
          · exact (h.replied hconv (hosted_watched hw).replied hline hcall hfirst hsent).mono hg .rfl
              hg.now
          · cases hprovider
  | spawnSession | awaitSession => cases ho
  | groupsPush g conn => cases a <;>
      exact ⟨h'.calls, h'.joined, h'.parked, h'.since, h'.told, h'.heard⟩
  | note x =>
      cases x with
      | updateBegins g => exact h'.begins g w.now
      | ingested g result => exact h'.parks hmay.2
      | updateReturns g result st => exact h'.returns
      | registered | tupleOf | panicked =>
          exact ⟨h'.calls, h'.joined, h'.parked, h'.since, h'.told, h'.heard⟩
  | verb v =>
      obtain ⟨refused, hk⟩ := (view w κ (.reader i)).next_verb v a
      rw [hk]
      exact ⟨h'.calls, h'.joined, h'.parked, h'.since, h'.told, h'.heard⟩
  | _ => exact ⟨h'.calls, h'.joined, h'.parked, h'.since, h'.told, h'.heard⟩

/-- **In every run what a reader hears in an update is an exchange made since it began.** -/
theorem attending_watched (h : Talked w prog κ) (i : Nat) :
    Attending w (callOf i w.log.records) (view w κ (.reader i)) := by
  refine h.invariant (I := fun w V => ∀ i, Attending w (callOf i w.log.records) (V (.reader i)))
    (fun i => ?_) (fun {w κ prog} hw hI t o a ho hm hmay hc _ i => ?_)
    (fun {w κ prog} hw hI c g n hm _ _ _ i => ?_) i
  · exact ⟨rfl, (fun hcall => by cases hcall), (fun hparked => by cases hparked),
      (fun hcall => by cases hcall), (fun hline => by cases hline), (fun hcall => by cases hcall)⟩
  · have hg : w.Grows (post t o a w) := hw.grows hm
    by_cases ht : t = .reader i
    · subst ht
      rw [Function.update_self]
      exact hw.attending_acts (hI i) ho hmay hc hg
    · rw [Function.update_of_ne (Ne.symm ht), callOf_other ht]
      exact (hI i).mono hg
  · have hg : w.Grows (post .service (.spawnSession c g) n w) := hw.grows hm
    rw [Function.update_of_ne Tid.noConfusion, Function.update_of_ne Tid.noConfusion,
      callOf_other Tid.noConfusion]
    exact (hI i).mono hg

end AttendingRuns

end Rdmalib
