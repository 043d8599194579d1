/-
  File:      Rdmalib/System/Walk.lean
  Subject:   The code of every thread follows the protocol of the system.

  One lemma for each function of the code, in the order of the calls, up to the turns of the
  loops (`provider_follows`). Each says what the function leaves of what the thread knows.
-/
import Rdmalib.System.Protocol

namespace Rdmalib

open Base

/-! ## 1. Messages -/

/-- What stays while a thread is inside one of its functions. -/
structure Kept (k k' : Know) : Prop where
  role : k'.role = k.role
  stage : k'.stage = k.stage
  open_ : k'.open_ = k.open_

theorem Kept.rfl {k : Know} : Kept k k := ⟨Eq.refl _, Eq.refl _, Eq.refl _⟩

theorem Kept.trans {k k' k'' : Know} (h : Kept k k') (h' : Kept k' k'') : Kept k k'' :=
  ⟨h'.role.trans h.role, h'.stage.trans h.stage, h'.open_.trans h.open_⟩

section Messages

variable {k : Know} {c : Chan} {E : Know → Fault → Prop}

@[simp] theorem follows_operation {o : Op} {Q : Know → o.Ans → Prop} :
    Follows protocol k (perform o) Q ↔ may k o ∧ ∀ a, Q (next k o a) a := Iff.rfl

@[simp] theorem follows_verb {v : Verb} {Q : Know → v.Ans → Prop} :
    Follows protocol k (verb v) Q ↔ mayVerb k v ∧ ∀ a, Q (nextVerb k v a) a := Iff.rfl

theorem send_tries {m : Message} {Q : Know → Unit → Prop} (hm : may k (.send c m)) (hQ : Q k ())
    (hE : ∀ e, E k e) : Tries protocol k (Channel.send c m) Q E := by
  unfold Channel.send
  rw [tries_bind, tries_lift, follows_operation]
  refine ⟨hm, fun a => ?_⟩
  obtain ⟨a, n⟩ := a
  cases a with
  | ok u => exact hQ
  | error e => exact hE _

theorem receive_tries {Q : Know → Message → Prop} (hm : may k (.receive c))
    (hQ : ∀ m n, Q (next k (.receive c) (.ok m, n)) m) (hE : ∀ e, E k e) :
    Tries protocol k (Channel.receive c) Q E := by
  unfold Channel.receive
  rw [tries_bind, tries_lift, follows_operation]
  refine ⟨hm, fun a => ?_⟩
  obtain ⟨a, n⟩ := a
  cases a with
  | ok m => exact hQ m n
  | error e => exact hE _

end Messages

/-! ## 2. `Shared` -/

section Shared

variable {k : Know} {id g : UInt32}

theorem Kept.dropPd {k' : Know} (h : Kept k k') (pd : Nat) :
    Kept k (nextVerb k' (.dropPd pd) ()) := by
  unfold nextVerb
  by_cases hf : k'.acc.fresh = some pd
  · simp only [hf, if_true]
    exact ⟨h.role, h.stage, h.open_⟩
  · simp only [hf, if_false]
    exact h

theorem dropPd_tup (pd : Nat) : (nextVerb k (.dropPd pd) ()).tup = k.tup := by
  unfold nextVerb
  by_cases h : k.acc.fresh = some pd
  · simp only [h, if_true]
  · simp only [h, if_false]

theorem registerAddr_tries {dom : ProtectionDomain} {addr size : UInt64}
    {Q : Know → MemoryRegion → Prop} {E : Know → Fault → Prop}
    (hm : k.Registers dom.pd addr size)
    (hQ : ∀ mr, mr.pd = dom.pd → mr.addr = addr → mr.size = size →
      Q { k with tup.held := some mr } mr)
    (hE : ∀ e, E k e) :
    Tries protocol k (dom.registerAddr (verb (.regMr dom.pd addr size)) addr size) Q E := by
  unfold ProtectionDomain.registerAddr
  by_cases h0 : size = 0
  · simp only [h0, if_true]
    exact hE _
  · simp only [h0, if_false]
    rw [tries_bind, tries_lift, follows_verb]
    refine ⟨hm, fun a => ?_⟩
    cases a with
    | none => exact hE _
    | some q =>
        obtain ⟨mr, lkey, rkey⟩ := q
        exact hQ ⟨mr, dom.pd, addr, size, lkey, rkey⟩ rfl rfl rfl

/-- `tuple_of` leaves no registration behind, and what it returns it has seen. -/
structure Answered (k k' : Know) (id g : UInt32) (r : Except Fault (Option Tuple)) : Prop where
  kept : Kept k k'
  free : k'.tup.held = none
  more : ∀ e ∈ k.tup.seen, e ∈ k'.tup.seen
  saw : ∀ t, r = .ok (some t) → ∃ mr, ((id, g), mr) ∈ k'.tup.seen ∧ mr.tuple = t

theorem Answered.dropPd {k' : Know} {r : Except Fault (Option Tuple)} (h : Answered k k' id g r)
    (pd : Nat) : Answered k (nextVerb k' (.dropPd pd) ()) id g r := by
  refine ⟨h.kept.dropPd pd, ?_, ?_, ?_⟩
  · rw [dropPd_tup]
    exact h.free
  · rw [dropPd_tup]
    exact h.more
  · rw [dropPd_tup]
    exact h.saw

theorem tupleOfBody_tries (hw : k.Works) (hfree : k.tup.held = none) :
    Tries protocol k (Shared.tupleOfBody id g) (fun k' r => Answered k k' id g (.ok r))
      fun k' e => Answered k k' id g (.error e) := by
  unfold Shared.tupleOfBody
  rw [tries_bind, tries_lift, follows_operation]
  refine ⟨⟨hw, hfree⟩, fun found => ?_⟩
  cases found with
  | some mr =>
      refine ⟨⟨rfl, rfl, rfl⟩, rfl, fun e he => List.mem_cons_of_mem _ he, fun t ht => ?_⟩
      cases ht
      exact ⟨mr, List.mem_cons_self, rfl⟩
  | none =>
  rw [tries_bind, tries_lift, follows_operation]
  refine ⟨⟨hw.role, hw.stage⟩, fun dom => ?_⟩
  cases dom with
  | none => exact ⟨⟨rfl, rfl, rfl⟩, rfl, fun e he => he, fun t ht => by cases ht⟩
  | some dom =>
  rw [tries_bind, tries_lift, follows_operation]
  refine ⟨⟨hw.role, hw.stage⟩, fun info => ?_⟩
  cases info with
  | none =>
      rw [tries_bind, tries_lift, follows_verb]
      refine ⟨fun _ => Or.inl hw.stage, fun _ => ?_⟩
      rw [tries_pure]
      apply Answered.dropPd
      refine ⟨⟨rfl, rfl, rfl⟩, rfl, fun e he => he, fun t ht => ?_⟩
      cases ht
  | some info =>
  rw [tries_bind, tries_attempt]
  refine registerAddr_tries
    ⟨⟨hw.role, hw.stage⟩, rfl, id, g, dom, info, rfl, rfl, rfl, rfl, rfl, rfl⟩
    (fun mr hpd haddr hsize => ?_) fun e => ?_
  · rw [tries_bind, tries_lift, follows_operation]
    refine ⟨⟨⟨hw.role, hw.stage⟩, rfl, rfl, ⟨dom, rfl, hpd⟩, ⟨info, rfl, haddr, hsize⟩⟩,
      fun _ => ?_⟩
    rw [tries_bind, tries_lift, follows_verb]
    refine ⟨fun _ => Or.inl hw.stage, fun _ => ?_⟩
    rw [tries_pure]
    apply Answered.dropPd
    refine ⟨⟨rfl, rfl, rfl⟩, rfl, fun e he => List.mem_cons_of_mem _ he, fun t ht => ?_⟩
    cases ht
    exact ⟨mr, List.mem_cons_self, rfl⟩
  · rw [tries_bind, tries_lift, follows_verb]
    refine ⟨fun _ => Or.inl hw.stage, fun _ => ?_⟩
    rw [tries_throw]
    apply Answered.dropPd
    refine ⟨⟨rfl, rfl, rfl⟩, rfl, fun e he => he, fun t ht => ?_⟩
    cases ht

theorem tupleOf_follows (hw : k.Works) (hfree : k.tup.held = none) :
    Follows protocol k (Shared.tupleOf id g) (Answered k · id g) := by
  unfold Shared.tupleOf
  rw [follows_bind, follows_run]
  have hnote {k' : Know} {r : Except Fault (Option Tuple)} (h : Answered k k' id g r) :
      Follows protocol k' (do perform (.note (.tupleOf id g r)); return r) (Answered k · id g) := by
    rw [follows_bind, follows_operation]
    refine ⟨?_, fun _ => h⟩
    rcases r with e | _ | t
    · exact trivial
    · exact trivial
    · exact ⟨⟨h.kept.role ▸ hw.role, h.kept.stage.trans hw.stage⟩, h.saw t rfl⟩
  exact (tupleOfBody_tries hw hfree).mono (fun _ _ h => hnote h) fun _ _ h => hnote h

/-- The loop over the snapshot, and what its tuples come from. -/
structure Described (k k' : Know) (g : UInt32) (ts : List TupleDesc) : Prop where
  kept : Kept k k'
  free : k'.tup.held = none
  more : ∀ e ∈ k.tup.seen, e ∈ k'.tup.seen
  saw : k'.Saw g ts

theorem describe_follows (catalog : List (UInt32 × RegionInfo)) (hw : k.Works)
    (hfree : k.tup.held = none) :
    Follows protocol k (Shared.describe g catalog) (fun k' r => Described k k' g r.2) := by
  induction catalog generalizing k with
  | nil => exact ⟨.rfl, hfree, fun e he => he, fun d hd => by cases hd⟩
  | cons entry rest ih =>
      obtain ⟨id, info⟩ := entry
      unfold Shared.describe
      rw [follows_bind]
      refine (tupleOf_follows hw hfree).mono fun k₁ r h₁ => ?_
      rw [follows_bind]
      have hw₁ : k₁.Works := ⟨h₁.kept.role ▸ hw.role, h₁.kept.stage.trans hw.stage⟩
      refine (ih hw₁ h₁.free).mono fun k₂ q h₂ => ?_
      obtain ⟨regions, tuples⟩ := q
      refine ⟨h₁.kept.trans h₂.kept, h₂.free, fun e he => h₂.more e (h₁.more e he), fun d hd => ?_⟩
      rcases List.mem_append.mp hd with hd | hd
      · rcases r with e | _ | ⟨addr, size, rkey⟩
        · cases hd
        · cases hd
        · obtain ⟨mr, hmr, ht⟩ := h₁.saw _ rfl
          cases List.mem_singleton.mp hd
          exact ⟨mr, h₂.more _ hmr, ht⟩
      · exact h₂.saw d hd

/-- `catalog_and_tuples` returns the catalog message and tuples it has seen. -/
theorem catalogAndTuples_follows (hw : k.Works) (hfree : k.tup.held = none) :
    Follows protocol k (Shared.catalogAndTuples g) fun k' r =>
      ∃ regions ts, r = (.metadata regions, .tuples g ts) ∧ Kept k k' ∧ k'.tup.held = none ∧
        k'.Saw g ts := by
  unfold Shared.catalogAndTuples
  rw [follows_bind, follows_operation]
  refine ⟨hw, fun catalog => ?_⟩
  rw [follows_bind]
  refine (describe_follows (k := next k .catalogSnapshot catalog) catalog ⟨hw.role, hw.stage⟩
    hfree).mono fun k' r h => ?_
  obtain ⟨regions, ts⟩ := r
  exact ⟨regions, ts, rfl, ⟨h.kept.role, h.kept.stage, h.kept.open_⟩, h.free, h.saw⟩

end Shared

/-! ## 3. The application thread -/

section Application

variable {k : Know}

theorem registerTyped_tries {name : String} {buffer : Buffer} (hrole : k.role = .app)
    (hstage : k.stage = .running) (hfree : k.tup.held = none) :
    Tries protocol k (registerTyped name buffer) (fun k' _ => Kept k k' ∧ k'.tup.held = none)
      fun k' _ => Kept k k' ∧ k'.tup.held = none := by
  unfold registerTyped
  by_cases h0 : buffer.elemSize = 0
  · simp only [h0, if_true]
    exact ⟨.rfl, hfree⟩
  simp only [h0, if_false]
  rw [tries_bind, tries_lift, follows_operation]
  refine ⟨⟨hrole, hstage⟩, fun id => ?_⟩
  by_cases hid : id.toNat + 1 ≥ 2 ^ 32
  · simp only [hid, if_true]
    exact ⟨⟨rfl, rfl, rfl⟩, hfree⟩
  simp only [hid, if_false]
  rw [tries_bind, tries_lift, follows_operation]
  refine ⟨⟨hrole, hstage, id, rfl, rfl, by omega⟩, fun _ => ?_⟩
  rw [tries_bind, tries_lift, follows_operation]
  refine ⟨⟨hrole, hstage, rfl⟩, fun _ => ?_⟩
  rw [tries_bind, tries_lift, follows_operation]
  refine ⟨⟨hrole, hstage, buffer, rfl, rfl, rfl⟩, fun _ => ?_⟩
  rw [tries_bind, tries_lift, follows_operation]
  exact ⟨trivial, fun _ => ⟨⟨rfl, rfl, rfl⟩, hfree⟩⟩

theorem resolveV4_tries {Q : Know → Unit → Prop} {E : Know → Fault → Prop}
    (hm : k.role.isProvider = true → k.stage = .running) (hQ : Q k ()) (hE : ∀ e, E k e) :
    Tries protocol k resolveV4 Q E := by
  unfold resolveV4
  rw [tries_bind, tries_lift, follows_operation]
  refine ⟨hm, fun a => ?_⟩
  rcases a with e | _ | ⟨addr, rest⟩
  · exact hE _
  · exact hE _
  · cases addr with
    | v4 => exact hQ
    | v6 => exact hE _

theorem bind_tries (hrole : k.role = .app) (hstage : k.stage = .running) :
    Tries protocol k Listener.bind (fun k' _ => Kept k k' ∧ k'.tup = k.tup)
      fun k' _ => Kept k k' ∧ k'.tup = k.tup := by
  unfold Listener.bind
  rw [tries_bind]
  refine resolveV4_tries (fun _ => hstage) ?_ fun e => ⟨.rfl, rfl⟩
  rw [tries_bind, tries_lift, follows_verb]
  refine ⟨fun _ => hstage, fun channel => ?_⟩
  rw [tries_bind, tries_except]
  refine checkPtr_ends (fun channel _ => ?_) fun _ _ => ⟨.rfl, rfl⟩
  rw [tries_bind, tries_lift, follows_verb]
  refine ⟨fun _ => hstage, fun id => ?_⟩
  rw [tries_bind, tries_except]
  refine checkOut_ends (fun id _ => ?_) fun _ _ _ => ⟨.rfl, rfl⟩
  have hfail (e : Fault) :
      Tries protocol k (do
          verb (.destroyId id)
          verb (.destroyEventChannel channel)
          throw e : Sys Listener) (fun k' _ => Kept k k' ∧ k'.tup = k.tup)
        fun k' _ => Kept k k' ∧ k'.tup = k.tup := by
    rw [tries_bind, tries_lift, follows_verb]
    refine ⟨fun _ => Or.inl ⟨hstage, fun h => ?_⟩, fun _ => ?_⟩
    · rw [hrole] at h
      cases h
    · rw [tries_bind, tries_lift, follows_verb]
      exact ⟨fun _ => Or.inl hstage, fun _ => ⟨⟨rfl, rfl, rfl⟩, rfl⟩⟩
  rw [tries_bind, tries_attempt, tries_bind, tries_lift, follows_verb]
  refine ⟨fun _ => hstage, fun ret => ?_⟩
  rw [tries_bind, tries_except]
  refine check_ends (fun _ => ?_) fun _ => hfail
  rw [tries_bind, tries_lift, follows_verb]
  refine ⟨fun _ => hstage, fun ret => ?_⟩
  rw [tries_except]
  exact check_ends (fun _ => ⟨.rfl, rfl⟩) fun _ => hfail

theorem serve_tries (hrole : k.role = .app) (hstage : k.stage = .running) :
    Tries protocol k serve (fun k' _ => Kept k k' ∧ k'.tup = k.tup)
      fun k' _ => Kept k k' ∧ k'.tup = k.tup := by
  unfold serve
  rw [tries_bind, tries_lift, follows_operation]
  refine ⟨⟨hrole, hstage⟩, fun serving => ?_⟩
  cases serving with
  | true => exact ⟨.rfl, rfl⟩
  | false =>
  simp only [Bool.false_eq_true, if_false]
  rw [tries_bind, tries_lift, follows_operation]
  refine ⟨⟨hrole, hstage⟩, fun bound => ?_⟩
  cases bound with
  | error e => exact ⟨.rfl, rfl⟩
  | ok u =>
      show Tries protocol k (do
        let listener ← Listener.bind
        perform (.spawnService listener.eventChannel) : Sys Unit) _ _
      rw [tries_bind]
      refine (bind_tries hrole hstage).mono (fun k' listener h => ?_) fun k' e h => h
      rw [tries_lift, follows_operation]
      exact ⟨⟨h.1.role.trans hrole, h.1.stage.trans hstage⟩, fun _ => h⟩

theorem nextVerb_kept (k : Know) (v : Verb) (a : v.Ans) : Kept k (nextVerb k v a) :=
  have h := nextVerb_recalls k v a
  ⟨h.role, h.stage rfl, h.open_ rfl⟩

/-- What the groups held may be torn down by the application's thread. -/
theorem tearsDown_follows {α : Type} {x : Code α} (h : Only Op.TearsDown x) (hk : k.Frees) :
    Follows protocol k x fun k' _ => k'.Frees := by
  refine h.follows (I := Know.Frees) (fun k o ho hk => ?_) hk
  cases o with
  | verb v =>
      refine ⟨?_, fun a => ?_⟩
      · cases v with
        | qpOf | disconnect | destroyQp | destroyId | destroyCq | destroyEventChannel | dropPd =>
            exact fun _ => Or.inr hk
        | _ => exact ho.elim
      · have hkept := nextVerb_kept k v a
        exact ⟨hkept.role.trans hk.app, hkept.stage.trans hk.stage⟩
  | _ => exact ho.elim

theorem drop_follows (hrole : k.role = .app) (hstage : k.stage = .running)
    (hfree : k.tup.held = none) :
    Follows protocol k SharedMemoryRegionProvider.drop fun k' _ => k'.Frees := by
  have hrest {k₁ : Know} (hrole : k₁.role = .app) (hstage : k₁.stage = .joined) :
      Follows protocol k₁ (do
          perform .tuplesClear
          Shared.drop
          perform .dropOwners) fun k' _ => k'.Frees := by
    rw [follows_bind, follows_operation]
    refine ⟨⟨hrole, hstage⟩, fun _ => ?_⟩
    rw [follows_bind, Shared.drop, follows_bind, follows_operation]
    refine ⟨⟨hrole, rfl⟩, fun groups => ?_⟩
    have hfrees : Know.Frees { k₁ with stage := .bare } := ⟨hrole, rfl⟩
    refine (tearsDown_follows (dropGroups_only (fun _ => id) groups) hfrees).mono fun k₂ _ h₂ => ?_
    rw [follows_operation]
    exact ⟨⟨h₂.app, h₂.stage⟩, fun _ => h₂⟩
  unfold SharedMemoryRegionProvider.drop
  rw [follows_bind, follows_operation]
  refine ⟨⟨hrole, hstage, hfree⟩, fun serving => ?_⟩
  cases serving with
  | false => exact hrest hrole rfl
  | true =>
      simp only [if_true]
      rw [follows_bind, ServiceThread.stop, follows_bind, follows_operation]
      refine ⟨⟨hrole, rfl⟩, fun _ => ?_⟩
      rw [follows_operation]
      exact ⟨⟨hrole, rfl⟩, fun _ => hrest hrole rfl⟩

/-- A panic teaches nothing. -/
theorem unwinds_follows {α : Type} {r : Except Fault α} {Q : Know → Unit → Prop} (h : Q k ()) :
    Follows protocol k (unwinds r) Q := by
  rcases r with (_ | _) | _
  · exact h
  · exact ⟨trivial, fun _ => h⟩
  · exact h

/-- A turn of the application thread. Its last one is the drop. -/
theorem appTurn_follows (h : entry k .app) :
    Follows protocol k appTurn fun k' r => (∀ l ∈ r, entry k' l) ∧ (r = none → k'.stage = .ended) := by
  obtain ⟨hrole, hstage, hfree⟩ := h
  have hback {α : Type} {k' : Know} {r : Except Fault α} (hk : Kept k k')
      (hfree : k'.tup.held = none) :
      Follows protocol k' (do unwinds r; return some Loop.app)
        fun k' r => (∀ l ∈ r, entry k' l) ∧ (r = none → k'.stage = .ended) := by
    rw [follows_bind]
    refine unwinds_follows ⟨fun l hl => ?_, nofun⟩
    cases hl
    exact ⟨hk.role.trans hrole, hk.stage.trans hstage, hfree⟩
  unfold appTurn
  rw [follows_bind, follows_operation]
  refine ⟨⟨hrole, hstage⟩, fun call => ?_⟩
  cases call with
  | registerTyped name buffer =>
      simp only
      rw [follows_bind, follows_run]
      exact (registerTyped_tries hrole hstage hfree).mono (fun _ _ h => hback h.1 h.2)
        fun _ _ h => hback h.1 h.2
  | getSharedMr id group =>
      have hw : k.Works := ⟨by rw [hrole]; rfl, hstage⟩
      simp only
      rw [follows_bind, getSharedMr]
      exact (tupleOf_follows hw hfree).mono fun _ _ h => hback h.kept h.free
  | serve =>
      simp only
      rw [follows_bind, follows_run]
      exact (serve_tries hrole hstage).mono (fun _ _ h => hback h.1 (h.2 ▸ hfree))
        fun _ _ h => hback h.1 (h.2 ▸ hfree)
  | drop =>
      simp only
      rw [follows_bind]
      refine (drop_follows hrole hstage hfree).mono fun k' _ h => ?_
      rw [follows_bind, follows_operation]
      refine ⟨Or.inl ⟨h.app, h.stage⟩, fun _ => ⟨fun l hl => ?_, fun _ => rfl⟩⟩
      cases hl

end Application

/-! ## 4. Accepting a connection -/

section Accept

variable {k k' : Know} {id : Nat}

/-- The service holds the id of the request it took off the channel. -/
structure Accepting (k k' : Know) (id : Nat) : Prop where
  kept : Kept k k'
  tup : k'.tup = k.tup
  chan : k'.acc.chan = k.acc.chan
  wants : k'.acc.wants = k.acc.wants
  child : k'.acc.child = some id

theorem Accepting.dropPd (h : Accepting k k' id) (pd : Nat) :
    Accepting k (nextVerb k' (.dropPd pd) ()) id := by
  unfold nextVerb
  by_cases hf : k'.acc.fresh = some pd
  · simp only [hf, if_true]
    exact ⟨⟨h.kept.role, h.kept.stage, h.kept.open_⟩, h.tup, h.chan, h.wants, h.child⟩
  · simp only [hf, if_false]
    exact h

/-- What is left of an accept that failed. -/
structure Refused (k k' : Know) : Prop where
  kept : Kept k k'
  tup : k'.tup = k.tup

theorem Refused.dropPd (h : Refused k k') (pd : Nat) : Refused k (nextVerb k' (.dropPd pd) ()) :=
  ⟨h.kept.dropPd pd, by rw [dropPd_tup]; exact h.tup⟩

theorem unlessNull_follows {call : Nat → Code Unit} {p : Option Nat} {Q : Know → Unit → Prop}
    (hcall : ∀ h, Follows protocol k (call h) Q) (hQ : Q k ()) :
    Follows protocol k (unlessNull call p) Q := by
  cases p with
  | none => exact hQ
  | some h => exact hcall h

/-- The rest of the drop of a connection, after its id. -/
theorem dropRest_follows {conn : Connection} (hstage : k.stage = .running) (h : Refused k k') :
    Follows protocol k' (do
      unlessNull (fun cq => verb (.destroyCq cq)) conn.cq
      unlessNull (fun channel => verb (.destroyEventChannel channel)) conn.eventChannel
      unlessNull (fun pd => verb (.dropPd pd)) (conn.pd.map (·.pd)))
      fun k'' _ => Refused k k'' := by
  have hs : k'.stage = .running := h.kept.stage.trans hstage
  have hpd : Follows protocol k' (unlessNull (fun pd => verb (.dropPd pd)) (conn.pd.map (·.pd)))
      fun k'' _ => Refused k k'' :=
    unlessNull_follows (fun pd => follows_verb.mpr ⟨fun _ => Or.inl hs, fun _ => h.dropPd pd⟩) h
  rw [follows_bind]
  refine unlessNull_follows (fun cq => ?_) ?_
  · rw [follows_verb]
    refine ⟨fun _ => Or.inl hs, fun _ => ?_⟩
    rw [follows_bind]
    exact unlessNull_follows (fun ch => follows_verb.mpr ⟨fun _ => Or.inl hs, fun _ => hpd⟩) hpd
  · rw [follows_bind]
    exact unlessNull_follows (fun ch => follows_verb.mpr ⟨fun _ => Or.inl hs, fun _ => hpd⟩) hpd

/-- Dropping a connection that was being accepted. -/
theorem acceptDrop_follows {conn : Connection} (hrole : k.role = .service)
    (hstage : k.stage = .running) (h : Accepting k k' id) (hid : conn.id = some id) :
    Follows protocol k' conn.drop fun k'' _ => Refused k k'' := by
  have hrole' := h.kept.role.trans hrole
  have hstage' := h.kept.stage.trans hstage
  have hdestroy {k₁ : Know} (h₁ : Accepting k k₁ id) :
      Follows protocol k₁ (verb (.destroyId id)) fun k₂ _ => Refused k k₂ := by
    rw [follows_verb]
    exact ⟨fun _ => Or.inl ⟨h₁.kept.stage.trans hstage, fun _ => h₁.child⟩,
      fun _ => ⟨⟨h₁.kept.role, h₁.kept.stage, h₁.kept.open_⟩, h₁.tup⟩⟩
  unfold Connection.drop
  rw [hid, follows_bind, Connection.dropId, follows_bind, follows_verb]
  refine ⟨fun _ => Or.inl hstage', fun hasQp => ?_⟩
  cases hasQp with
  | false => exact (hdestroy h).mono fun k₂ _ h₂ => dropRest_follows hstage h₂
  | true =>
      simp only [if_true]
      rw [follows_bind, follows_verb]
      refine ⟨fun _ => Or.inl hstage', fun _ => ?_⟩
      rw [follows_bind, follows_verb]
      refine ⟨fun _ => Or.inl ⟨hrole', hstage', h.child⟩, fun _ => ?_⟩
      have h₁ : Accepting k (nextVerb k' (.destroyQp id) ()) id :=
        ⟨⟨h.kept.role, h.kept.stage, h.kept.open_⟩, h.tup, h.chan, h.wants, h.child⟩
      exact (hdestroy h₁).mono fun k₂ _ h₂ => dropRest_follows hstage h₂

/-- `wait_event` while what is known has a property no event takes away. -/
theorem waitEvent_tries {I : Know → Prop} (channel : Nat) (expected : CmEventType) (step : String)
    (hget : ∀ k, I k → mayVerb k (.getCmEvent channel) ∧ ∀ a, I (nextVerb k (.getCmEvent channel) a))
    (hack : ∀ k, I k → mayVerb k .ackCmEvent) (hk : I k) :
    Tries protocol k (waitEvent channel expected step) (fun k' _ => I k') fun k' _ => I k' := by
  unfold waitEvent
  rw [tries_bind, tries_lift, follows_verb]
  refine ⟨(hget k hk).1, fun a => ?_⟩
  have h₁ := (hget k hk).2 a
  rw [tries_bind, tries_except]
  cases a with
  | error e => exact h₁
  | ok event =>
  apply ends_ok.mpr
  rw [tries_bind, tries_lift, follows_verb]
  refine ⟨hack _ h₁, fun ack => ?_⟩
  have hack' : nextVerb (nextVerb k (.getCmEvent channel) (.ok event)) .ackCmEvent ack =
    nextVerb k (.getCmEvent channel) (.ok event) := rfl
  rw [hack']
  by_cases hbad : event.event ≠ expected ∨ event.status ≠ 0
  · rw [if_pos hbad]
    exact h₁
  · rw [if_neg hbad, tries_except]
    apply check_ends
    · exact fun _ => h₁
    · exact fun _ _ => h₁

/-- The domain that `pd` names: the one the group had, or a new one for a group that had none. -/
def Know.Domain (k : Know) (g : UInt32) (pd : ProtectionDomain) : Prop :=
  k.tup.looked = some (g, some pd) ∨ (k.tup.looked = some (g, none) ∧ k.acc.fresh = some pd.pd)

theorem Know.Domain.inDomain {g : UInt32} {pd : ProtectionDomain} (h : k.Domain g pd) :
    k.InDomain g pd.pd :=
  h.imp_left fun h => ⟨pd, h, rfl⟩

theorem acceptDomain_tries {g : UInt32} {found : Option ProtectionDomain} {context : Nat}
    (hrole : k.role = .service) (hstage : k.stage = .running) (h : Accepting k k' id)
    (hlooked : k.tup.looked = some (g, found)) :
    Tries protocol k' (acceptDomain found context)
      (fun k₁ pd => Accepting k k₁ id ∧ k₁.Domain g pd) fun k₁ _ => Accepting k k₁ id := by
  have hrole' := h.kept.role.trans hrole
  have hstage' := h.kept.stage.trans hstage
  have hlooked' : k'.tup.looked = some (g, found) := by rw [h.tup, hlooked]
  unfold acceptDomain
  cases found with
  | none =>
      simp only
      unfold ProtectionDomain.alloc
      rw [tries_bind, tries_lift, follows_verb]
      refine ⟨fun _ => ⟨hrole', hstage'⟩, fun a => ?_⟩
      rw [tries_bind, tries_except]
      cases a with
      | none => exact h
      | some pd =>
          exact ⟨⟨⟨h.kept.role, h.kept.stage, h.kept.open_⟩, h.tup, h.chan, h.wants, h.child⟩,
            Or.inr ⟨hlooked', rfl⟩⟩
  | some pd =>
      simp only
      by_cases hctx : pd.context ≠ context
      · rw [if_pos hctx]
        exact h
      · rw [if_neg hctx]
        rw [tries_bind, tries_lift, follows_verb]
        exact ⟨fun _ => hstage', fun _ => ⟨h, Or.inl hlooked'⟩⟩

theorem createResources_tries {g : UInt32} {conn : Connection} {pd : ProtectionDomain}
    (hrole : k.role = .service) (hstage : k.stage = .running) (h : Accepting k k' id)
    (hpd : k'.Domain g pd) (hid : conn.id = some id) :
    Tries protocol k' (createResources conn id pd)
      (fun k₁ conn' => Accepting k k₁ id ∧ k₁.Domain g pd ∧ conn'.id = some id ∧
        conn'.pd = some pd ∧ k₁.acc.qp = some (id, pd.pd))
      fun k₁ e => Accepting k k₁ id ∧ e.2.id = some id := by
  have hrole' := h.kept.role.trans hrole
  have hstage' := h.kept.stage.trans hstage
  have hfail (conn : Connection) (hid : conn.id = some id) (e : Fault) :
      Tries protocol k' (do verb (.dropPd pd.pd); throw (e, conn) : Build Connection)
        (fun k₁ conn' => Accepting k k₁ id ∧ k₁.Domain g pd ∧ conn'.id = some id ∧
          conn'.pd = some pd ∧ k₁.acc.qp = some (id, pd.pd))
        fun k₁ e => Accepting k k₁ id ∧ e.2.id = some id := by
    rw [tries_bind, tries_lift, follows_verb]
    exact ⟨fun _ => Or.inl hstage', fun _ => ⟨h.dropPd pd.pd, hid⟩⟩
  unfold createResources
  rw [tries_bind, tries_lift, follows_verb]
  refine ⟨fun _ => hstage', fun context => ?_⟩
  rw [tries_bind, tries_lift, follows_verb]
  refine ⟨fun _ => hstage', fun cq => ?_⟩
  cases cq with
  | none => exact hfail conn hid _
  | some cq =>
      simp only [checkPtr]
      rw [tries_bind, tries_lift, follows_verb]
      refine ⟨fun _ => ⟨hrole', hstage', h.child, ?_⟩, fun ret => ?_⟩
      · rcases hpd with hl | ⟨_, hf⟩
        · exact Or.inr ⟨g, pd, hl, rfl⟩
        · exact Or.inl hf
      · by_cases hret : ret = 0
        · subst hret
          exact ⟨⟨⟨h.kept.role, h.kept.stage, h.kept.open_⟩, h.tup, h.chan, h.wants, h.child⟩, hpd,
            hid, rfl, rfl⟩
        · simp only [check, hret, nextVerb, if_false]
          exact hfail { conn with cq := some cq } hid _

/-- An accepted connection, its queue pair and its domain. -/
structure Accepted (k k' : Know) (g : UInt32) (conn : Connection) : Prop where
  kept : Kept k k'
  tup : k'.tup = k.tup
  chan : k'.acc.chan = k.acc.chan
  wants : k'.acc.wants = k.acc.wants
  made : ∃ id pd, conn.id = some id ∧ conn.pd = some pd ∧ k'.acc.child = some id ∧
    k'.acc.qp = some (id, pd.pd) ∧ k'.Domain g pd

/-- The handle of the group's domain, cloned before the accept, is dropped after it. -/
theorem Accepted.dropPd {g : UInt32} {conn : Connection} {dom : ProtectionDomain}
    (h : Accepted k k' g conn) (hlooked : k.tup.looked = some (g, some dom)) (pd : Nat) :
    Accepted k (nextVerb k' (.dropPd pd) ()) g conn := by
  obtain ⟨id, dom', hid, hpd, hchild, hqp, hdom⟩ := h.made
  have hgroup : k'.tup.looked = some (g, some dom') := by
    rcases hdom with hdom | ⟨hdom, _⟩
    · exact hdom
    · rw [h.tup, hlooked] at hdom
      cases hdom
  have hkept := h.kept.dropPd pd
  have htup := dropPd_tup (k := k') pd
  unfold nextVerb at hkept htup ⊢
  by_cases hf : k'.acc.fresh = some pd
  · simp only [hf, if_true] at hkept htup ⊢
    exact ⟨hkept, h.tup, h.chan, h.wants, id, dom', hid, hpd, hchild, hqp, Or.inl hgroup⟩
  · simp only [hf, if_false]
    exact h

theorem acceptRequest_tries (channel : Nat) {g : UInt32} {found : Option ProtectionDomain}
    (hrole : k.role = .service) (hstage : k.stage = .running) (hwants : k.acc.wants = some g)
    (h : Accepting k k' id) (hlooked : k.tup.looked = some (g, found)) :
    Tries protocol k' (acceptRequest channel id found) (fun k₁ conn => Accepted k k₁ g conn)
      fun k₁ e => Accepting k k₁ id ∧ e.2.id = some id := by
  unfold acceptRequest
  simp only
  rw [tries_bind, tries_lift, follows_verb]
  refine ⟨fun _ => h.kept.stage.trans hstage, fun context => ?_⟩
  rw [tries_bind, tries_built]
  refine (acceptDomain_tries hrole hstage h hlooked).mono (fun k₁ pd h₁ => ?_)
    fun k₁ e h₁ => ⟨h₁, rfl⟩
  rw [tries_bind]
  refine (createResources_tries hrole hstage h₁.1 h₁.2 rfl).mono (fun k₂ conn h₂ => ?_)
    fun _ _ h₂ => h₂
  obtain ⟨ha, hdom, hid, hpd, hqp⟩ := h₂
  have hs : k₂.stage = .running := ha.kept.stage.trans hstage
  rw [tries_bind, tries_built, tries_bind, tries_lift, follows_verb]
  refine ⟨fun _ => ⟨ha.kept.role.trans hrole, hs, ha.child, g, pd.pd, ha.wants.trans hwants, hqp,
    hdom.inDomain⟩, fun ret => ?_⟩
  rw [tries_except]
  refine check_ends (fun _ => ?_) fun _ _ => ⟨ha, hid⟩
  rw [tries_bind, tries_built]
  -- an id is held, so no event on the channel teaches another
  have hwait := waitEvent_tries (k := k₂) (I := fun k' => k' = k₂) channel .established "rdma_accept"
    (by
      intro k' hk
      subst hk
      refine ⟨fun _ => ⟨ha.kept.role.trans hrole, hs⟩, fun a => ?_⟩
      cases a with
      | error e => rfl
      | ok e => simp [nextVerb, ha.child])
    (by intro k' hk; subst hk; exact fun _ => hs) rfl
  refine hwait.mono (fun k₃ _ h₃ => ?_) fun k₃ _ h₃ => ?_
  · subst h₃
    exact ⟨ha.kept, ha.tup, ha.chan, ha.wants, id, pd, hid, hpd, ha.child, hqp, hdom⟩
  · subst h₃
    exact ⟨ha, hid⟩

theorem acceptImpl_tries (channel : Nat) {g : UInt32} {found : Option ProtectionDomain}
    (hrole : k.role = .service) (hstage : k.stage = .running) (hwants : k.acc.wants = some g)
    (hchild : k.acc.child = none) (hlooked : k.tup.looked = some (g, found)) :
    Tries protocol k (Listener.acceptImpl channel found) (fun k₁ conn => Accepted k k₁ g conn)
      fun k₁ _ => Refused k k₁ := by
  unfold Listener.acceptImpl
  rw [tries_bind, tries_lift, follows_verb]
  refine ⟨fun _ => ⟨hrole, hstage⟩, fun a => ?_⟩
  rw [tries_bind, tries_except]
  cases a with
  | error e => exact ⟨.rfl, rfl⟩
  | ok e =>
      have hnext : nextVerb k (.getCmEvent channel) (.ok e) = { k with acc.child := e.child } := by
        simp [nextVerb, hchild]
      rw [hnext]
      show Tries protocol _ (do
        let ack ← verb .ackCmEvent
        if e.event ≠ .connectRequest ∨ e.status ≠ 0 then
          throw _
        check "rdma_ack_cm_event" ack
        Build.orDrop (acceptRequest channel e.id found) : Sys Connection) _ _
      rw [tries_bind, tries_lift, follows_verb]
      refine ⟨fun _ => hstage, fun ack => ?_⟩
      by_cases hbad : e.event ≠ .connectRequest ∨ e.status ≠ 0
      · simp only [hbad, if_true]
        exact ⟨⟨rfl, rfl, rfl⟩, rfl⟩
      · simp only [hbad, if_false]
        rw [tries_bind, tries_except]
        refine check_ends (fun _ => ?_) fun _ _ => ⟨⟨rfl, rfl, rfl⟩, rfl⟩
        rw [tries_orDrop]
        have hreq : e.event = .connectRequest := by
          by_contra hne
          exact hbad (Or.inl hne)
        have ha : Accepting k { k with acc.child := e.child } e.id :=
          ⟨⟨rfl, rfl, rfl⟩, rfl, rfl, rfl, by simp [CmEvent.child, hreq]⟩
        exact (acceptRequest_tries channel hrole hstage hwants ha hlooked).mono (fun _ _ h => h)
          fun k₁ q h => acceptDrop_follows hrole hstage h.1 h.2

end Accept

/-! ## 5. The service thread -/

section Service

variable {k : Know} {c : Chan} {g : UInt32} {listener : Nat}

/-- What a handshake leaves when it ends early. -/
structure Left (k k' : Know) : Prop where
  kept : Kept k k'
  free : k'.tup.held = none

theorem rendezvous_tries (hrole : k.role = .service) (hstage : k.stage = .running)
    (hfree : k.tup.held = none) (hchild : k.acc.child = none) (hwants : k.acc.wants = some g) :
    Tries protocol k (Service.rendezvous listener g)
      (fun k' conn => Left k k' ∧ k'.Pushes g conn) fun k' _ => Left k k' := by
  have hw : k.Works := ⟨by rw [hrole]; rfl, hstage⟩
  unfold Service.rendezvous
  rw [tries_bind, tries_lift, follows_operation]
  refine ⟨hw, fun found => ?_⟩
  have haccept := acceptImpl_tries (k := { k with tup.looked := some (g, found) }) (g := g) listener
    hrole hstage hwants hchild rfl
  have hdone {k' : Know} {conn : Connection}
      (h : Accepted { k with tup.looked := some (g, found) } k' g conn) :
      Left k k' ∧ k'.Pushes g conn := by
    have hk : Kept k k' := ⟨h.kept.role, h.kept.stage, h.kept.open_⟩
    refine ⟨⟨hk, by rw [h.tup]; exact hfree⟩, ?_⟩
    exact ⟨h.kept.role.trans hrole, h.kept.stage.trans hstage, h.wants.trans hwants, h.made⟩
  have hfail {k' : Know} (h : Refused { k with tup.looked := some (g, found) } k') : Left k k' :=
    ⟨⟨h.kept.role, h.kept.stage, h.kept.open_⟩, by rw [h.tup]; exact hfree⟩
  cases found with
  | none => exact haccept.mono (fun k' conn h => hdone h) fun k' e h => hfail h
  | some pd =>
      rw [tries_bind, tries_attempt]
      refine haccept.mono (fun k' conn h => ?_) fun k' e h => ?_
      · rw [tries_bind, tries_lift, follows_verb]
        refine ⟨fun _ => Or.inl (h.kept.stage.trans hstage), fun _ => ?_⟩
        rw [tries_except]
        exact hdone (h.dropPd rfl pd.pd)
      · rw [tries_bind, tries_lift, follows_verb]
        refine ⟨fun _ => Or.inl (h.kept.stage.trans hstage), fun _ => ?_⟩
        rw [tries_except]
        exact hfail (h.dropPd pd.pd)

/-- A receive inside a handshake. -/
theorem Left.receive {k' : Know} (h : Left k k') (m : Message) (n : Nat) :
    Left k (next k' (.receive c) (.ok m, n)) := by
  cases m with
  | wantGroup group =>
      simp only [next]
      by_cases hc : k'.acc.chan = some c
      · rw [if_pos hc]
        exact ⟨⟨h.kept.role, h.kept.stage, h.kept.open_⟩, h.free⟩
      · rw [if_neg hc]
        exact h
  | hello | welcome | update | metadata | tuples => exact h

/-- In a handshake before the accept. -/
structure Greeting (k k' : Know) (c : Chan) : Prop where
  left : Left k k'
  chan : k'.acc.chan = some c
  child : k'.acc.child = none

theorem Greeting.receive {k' : Know} (h : Greeting k k' c) (m : Message) (n : Nat) :
    Greeting k (next k' (.receive c) (.ok m, n)) c := by
  refine ⟨h.left.receive m n, ?_, ?_⟩
  · cases m with
    | wantGroup group =>
        simp only [next, if_pos h.chan]
        exact h.chan
    | hello | welcome | update | metadata | tuples => exact h.chan
  · cases m with
    | wantGroup group =>
        simp only [next, if_pos h.chan]
        exact h.child
    | hello | welcome | update | metadata | tuples => exact h.child

theorem greet_tries {k' : Know} (hstage : k.stage = .running) (h : Greeting k k' c) :
    Tries protocol k' (Service.greet c) (fun k₁ _ => Greeting k k₁ c) fun k₁ _ => Left k k₁ := by
  have hs : k'.stage = .running := h.left.kept.stage.trans hstage
  unfold Service.greet
  rw [tries_bind]
  refine receive_tries (fun _ => hs) (fun m n => ?_) fun e => h.left
  have h₁ := h.receive m n
  cases m with
  | hello version =>
      simp only
      by_cases hv : version = PROTOCOL_VERSION
      · rw [if_pos hv]
        exact send_tries (fun _ => h₁.left.kept.stage.trans hstage) h₁ fun e => h₁.left
      · rw [if_neg hv]
        exact h₁.left
  | wantGroup group => exact h₁.left
  | welcome | update | metadata | tuples => exact h.left

theorem join_tries {k' : Know} (hstage : k.stage = .running) (h : Greeting k k' c) :
    Tries protocol k' (Service.join c) (fun k₁ group => Greeting k k₁ c ∧ k₁.acc.wants = some group)
      fun k₁ _ => Left k k₁ := by
  unfold Service.join
  rw [tries_bind]
  refine receive_tries (fun _ => h.left.kept.stage.trans hstage) (fun m n => ?_) fun e => h.left
  cases m with
  | wantGroup group =>
      refine ⟨h.receive _ n, ?_⟩
      simp only [next, if_pos h.chan]
  | hello | welcome | update | metadata | tuples => exact h.left

/-- A handshake that ends with `Ok` has started a session thread. -/
structure Began (k k' : Know) (n : Nat) : Prop where
  role : k'.role = k.role
  stage : k'.stage = k.stage
  open_ : k'.open_ = n :: k.open_
  free : k'.tup.held = none

theorem Left.trans {k' k'' : Know} (h : Left k k') (h' : Left k' k'') : Left k k'' :=
  ⟨h.kept.trans h'.kept, h'.free⟩

/-- The first exchange of a session, and its thread. -/
theorem firstExchange_tries (hrole : k.role = .service) (hstage : k.stage = .running)
    (hfree : k.tup.held = none) :
    Tries protocol k (do
        let (catalog, tuples) ← Shared.catalogAndTuples g
        Channel.send c catalog
        Channel.send c tuples
        perform (.spawnSession c g) : Sys Nat)
      (fun k' n => Began k k' n) fun k' _ => Left k k' := by
  have hw : k.Works := ⟨by rw [hrole]; rfl, hstage⟩
  rw [tries_bind, tries_lift]
  refine (catalogAndTuples_follows hw hfree).mono fun k₁ r h => ?_
  obtain ⟨regions, ts, rfl, hk, hfree₁, hsaw⟩ := h
  have hs : k₁.stage = .running := hk.stage.trans hstage
  have hr : k₁.role = .service := hk.role.trans hrole
  simp only
  rw [tries_bind]
  refine send_tries (fun _ => hs) ?_ fun e => ⟨hk, hfree₁⟩
  rw [tries_bind]
  refine send_tries ⟨⟨by rw [hr]; rfl, hs⟩, hsaw⟩ ?_ fun e => ⟨hk, hfree₁⟩
  rw [tries_lift, follows_operation]
  refine ⟨⟨hr, hs⟩, fun n => ⟨hk.role, hk.stage, ?_, hfree₁⟩⟩
  show n :: k₁.open_ = n :: k.open_
  rw [hk.open_]

theorem handshake_tries (hrole : k.role = .service) (hstage : k.stage = .running)
    (hfree : k.tup.held = none) (hchan : k.acc.chan = some c) (hchild : k.acc.child = none) :
    Tries protocol k (Service.handshake listener c) (fun k' n => Began k k' n)
      fun k' _ => Left k k' := by
  have hleft : Left k k := ⟨.rfl, hfree⟩
  unfold Service.handshake
  rw [tries_bind, Channel.new, tries_bind, tries_lift, follows_operation]
  refine ⟨fun _ => hstage, fun armed => ?_⟩
  cases armed with
  | error e => exact hleft
  | ok u =>
  simp only
  rw [tries_pure, tries_bind]
  refine (greet_tries hstage ⟨hleft, hchan, hchild⟩).mono (fun k₁ _ h₁ => ?_) fun _ _ h => h
  rw [tries_bind]
  refine (join_tries hstage h₁).mono (fun k₂ group h₂ => ?_) fun _ _ h => h
  obtain ⟨h₂, hwants⟩ := h₂
  rw [tries_bind]
  refine (rendezvous_tries (h₂.left.kept.role.trans hrole) (h₂.left.kept.stage.trans hstage)
    h₂.left.free h₂.child hwants).mono (fun k₃ conn h₃ => ?_) fun k₃ _ h₃ => h₂.left.trans h₃
  obtain ⟨h₃, hpush⟩ := h₃
  rw [tries_bind]
  refine ⟨hpush, fun pushed => ?_⟩
  have h₄ : Left k (next k₃ (.groupsPush group conn) pushed) := by
    have h₄ := h₂.left.trans h₃
    exact ⟨⟨h₄.kept.role, h₄.kept.stage, h₄.kept.open_⟩, h₄.free⟩
  cases pushed with
  | error e => exact h₄
  | ok u =>
      have hr := h₄.kept.role.trans hrole
      have hs := h₄.kept.stage.trans hstage
      refine (firstExchange_tries hr hs h₄.free).mono (fun k₅ n h₅ => ?_)
        fun k₅ _ h₅ => h₄.trans h₅
      exact ⟨h₅.role.trans h₄.kept.role, h₅.stage.trans h₄.kept.stage,
        by rw [h₅.open_, h₄.kept.open_], h₅.free⟩

/-- Looking after the session threads: some are seen to have finished. -/
structure Tended (k k' : Know) (sessions : List Nat) : Prop where
  role : k'.role = k.role
  stage : k'.stage = k.stage
  tup : k'.tup = k.tup
  fewer : ∀ n ∈ k'.open_, n ∈ k.open_
  listed : ∀ n ∈ k'.open_, n ∈ sessions

theorem retainRunning_follows (before sessions : List Nat) (hrole : k.role = .service)
    (hstage : k.stage = .running) (hopen : ∀ n ∈ k.open_, n ∈ before ++ sessions) :
    Follows protocol k (Service.retainRunning sessions) fun k' rest => Tended k k' (before ++ rest) := by
  induction sessions generalizing k before with
  | nil => exact ⟨rfl, rfl, rfl, fun n hn => hn, hopen⟩
  | cons m sessions ih =>
      unfold Service.retainRunning
      rw [follows_bind, follows_operation]
      refine ⟨⟨hrole, hstage⟩, fun done => ?_⟩
      cases done with
      | false =>
          have hopen' : ∀ n ∈ k.open_, n ∈ (before ++ [m]) ++ sessions := by
            intro n hn
            rw [List.append_assoc]
            exact hopen n hn
          rw [if_neg Bool.false_ne_true, follows_bind]
          refine (ih (before ++ [m]) hrole hstage hopen').mono fun k' rest h => ?_
          refine ⟨h.role, h.stage, h.tup, h.fewer, fun n hn => ?_⟩
          have := h.listed n hn
          rwa [List.append_assoc] at this
      | true =>
          have hopen' : ∀ n ∈ k.open_.filter (· ≠ m), n ∈ before ++ sessions := by
            intro n hn
            obtain ⟨hn, hne⟩ := List.mem_filter.mp hn
            have := hopen n hn
            simp only [List.mem_append, List.mem_cons, decide_eq_true_eq] at this hne ⊢
            tauto
          rw [if_pos rfl]
          refine (ih (k := { k with open_ := k.open_.filter (· ≠ m) }) before hrole hstage hopen').mono
            fun k' rest h => ?_
          exact ⟨h.role, h.stage, h.tup, fun n hn => (List.mem_filter.mp (h.fewer n hn)).1, h.listed⟩

theorem joinAll_follows (sessions : List Nat) (hrole : k.role = .service)
    (hstage : k.stage = .running) (hopen : ∀ n ∈ k.open_, n ∈ sessions) :
    Follows protocol k (Service.joinAll sessions) fun k' _ =>
      k'.role = .service ∧ k'.stage = .running ∧ k'.tup = k.tup ∧ k'.open_ = [] := by
  induction sessions generalizing k with
  | nil =>
      refine ⟨hrole, hstage, rfl, List.eq_nil_iff_forall_not_mem.mpr fun n hn => ?_⟩
      cases hopen n hn
  | cons m sessions ih =>
      unfold Service.joinAll
      rw [follows_bind, follows_operation]
      refine ⟨⟨hrole, hstage⟩, fun _ => ?_⟩
      have hopen' : ∀ n ∈ k.open_.filter (· ≠ m), n ∈ sessions := by
        intro n hn
        obtain ⟨hn, hne⟩ := List.mem_filter.mp hn
        rcases List.mem_cons.mp (hopen n hn) with h | h
        · exact absurd h (by simpa using hne)
        · exact h
      exact ih (k := { k with open_ := k.open_.filter (· ≠ m) }) hrole hstage hopen'

/-- A turn of the service thread. -/
theorem serviceRun_follows {sessions : List Nat} (h : entry k (.service listener sessions)) :
    Follows protocol k (Service.run listener sessions) fun k' r => ∀ l ∈ r, entry k' l := by
  obtain ⟨hrole, hstage, hfree, hopen⟩ := h
  have hw : k.Works := ⟨by rw [hrole]; rfl, hstage⟩
  -- the end of a turn: the finished sessions are forgotten
  have hback {k₁ : Know} (sessions : List Nat) (hr : k₁.role = .service) (hs : k₁.stage = .running)
      (hf : k₁.tup.held = none) (ho : ∀ n ∈ k₁.open_, n ∈ sessions) :
      Follows protocol k₁ (do return some (.service listener (← Service.retainRunning sessions)))
        fun k' r => ∀ l ∈ r, entry k' l := by
    rw [follows_bind]
    refine (retainRunning_follows [] sessions hr hs ho).mono fun k' rest h => ?_
    intro l hl
    cases hl
    exact ⟨h.role.trans hr, h.stage.trans hs, by rw [h.tup, hf], h.listed⟩
  unfold Service.run
  rw [follows_bind, follows_operation]
  refine ⟨⟨by rw [hrole]; exact Tid.noConfusion, hw⟩, fun shutdown => ?_⟩
  cases shutdown with
  | true =>
      rw [if_pos rfl, follows_bind]
      refine (joinAll_follows sessions hrole hstage hopen).mono fun k₁ _ h₁ => ?_
      obtain ⟨hr, hs, htup, ho⟩ := h₁
      rw [follows_bind, follows_operation]
      refine ⟨Or.inr ⟨by rw [hr]; exact Tid.noConfusion, ⟨by rw [hr]; rfl, hs⟩, by rw [htup, hfree], ho⟩,
        fun _ => ?_⟩
      intro l hl
      cases hl
  | false =>
  rw [if_neg Bool.false_ne_true, follows_bind, follows_operation]
  refine ⟨⟨hrole, hstage⟩, fun stream => ?_⟩
  cases stream with
  | none => exact hback sessions hrole hstage hfree hopen
  | some stream =>
      simp only
      rw [follows_bind, follows_run]
      refine (handshake_tries (k := { k with acc := { chan := some stream }, tup.looked := none })
        hrole hstage hfree rfl rfl).mono (fun k₁ n h₁ => ?_) fun k₁ e h₁ => ?_
      · refine hback (sessions ++ [n]) (h₁.role.trans hrole) (h₁.stage.trans hstage) h₁.free ?_
        intro m hm
        rw [h₁.open_] at hm
        rcases List.mem_cons.mp hm with rfl | hm
        · exact List.mem_append_right _ List.mem_cons_self
        · exact List.mem_append_left _ (hopen m hm)
      · cases e with
        | err e =>
            refine hback sessions (h₁.kept.role.trans hrole) (h₁.kept.stage.trans hstage) h₁.free ?_
            rw [h₁.kept.open_]
            exact hopen
        | panic =>
            rw [follows_bind, follows_operation]
            refine ⟨trivial, fun _ => ?_⟩
            intro l hl
            cases hl

end Service

/-! ## 6. Session threads -/

theorem waitForUpdates_follows {k : Know} {c : Chan} {g : UInt32} (h : entry k (.session c g)) :
    Follows protocol k (SessionThread.waitForUpdates c g) fun k' r => ∀ l ∈ r, entry k' l := by
  obtain ⟨⟨n, hrole⟩, hstage, hfree, hopen⟩ := h
  have hw : k.Works := ⟨by rw [hrole]; rfl, hstage⟩
  have hexit {k₁ : Know} (h₁ : Left k k₁) :
      Follows protocol k₁ (do perform .exit; return none : Code (Option Loop))
        fun k' r => ∀ l ∈ r, entry k' l := by
    rw [follows_bind, follows_operation]
    have hr := h₁.kept.role.trans hrole
    refine ⟨Or.inr ⟨by rw [hr]; exact Tid.noConfusion,
      ⟨by rw [hr]; rfl, h₁.kept.stage.trans hstage⟩, h₁.free, h₁.kept.open_.trans hopen⟩, fun _ => ?_⟩
    intro l hl
    cases hl
  unfold SessionThread.waitForUpdates
  rw [follows_bind, follows_operation]
  refine ⟨⟨by rw [hrole]; exact Tid.noConfusion, hw⟩, fun shutdown => ?_⟩
  have hleft : Left k k := ⟨.rfl, hfree⟩
  have hleave {k₁ : Know} {fault : Fault} (h₁ : Left k k₁) :
      Follows protocol k₁ (SessionThread.leave fault) fun k' r => ∀ l ∈ r, entry k' l := by
    cases fault with
    | err e => exact hexit h₁
    | panic => exact ⟨trivial, fun _ => hexit h₁⟩
  cases shutdown with
  | true =>
      rw [if_pos rfl]
      exact hexit hleft
  | false =>
  rw [if_neg Bool.false_ne_true, follows_bind, follows_run]
  refine receive_tries (fun _ => hstage) (fun m bytes => ?_) fun e => hleave hleft
  cases m with
  | update =>
      simp only
      rw [follows_bind]
      refine (catalogAndTuples_follows hw hfree).mono fun k₁ r h₁ => ?_
      obtain ⟨regions, ts, rfl, hk, hfree₁, hsaw⟩ := h₁
      have hs : k₁.stage = .running := hk.stage.trans hstage
      have hr : k₁.role = .session n := hk.role.trans hrole
      have hleft₁ : Left k k₁ := ⟨hk, hfree₁⟩
      simp only
      rw [follows_bind, follows_run, tries_bind]
      refine send_tries (fun _ => hs) ?_ fun e => hleave hleft₁
      refine send_tries ⟨⟨by rw [hr]; rfl, hs⟩, hsaw⟩ ?_ fun e => hleave hleft₁
      intro l hl
      cases hl
      exact ⟨⟨n, hr⟩, hs, hfree₁, hk.open_.trans hopen⟩
  | wantGroup group => exact hexit (hleft.receive _ bytes)
  | hello | welcome | metadata | tuples => exact hexit hleft

/-! ## 7. Readers -/

/-- The operations of a reader. -/
def ReaderOp : Op → Prop
  | .tcpConnect | .armTimeouts _ | .receive _ | .nextReaderCall => True
  | .send _ (.tuples _ _) | .note (.tupleOf _ _ _) => False
  | .send _ _ | .note _ => True
  | o => CmOp o

section Reader

variable {c : Chan} {g : UInt32}

theorem readerOp_of_cmOp {o : Op} (h : CmOp o) : ReaderOp o := by
  cases o with
  | verb | toSocketAddrs => exact h
  | _ => exact absurd h id

theorem readerSend_only {m : Message} (h : ReaderOp (.send c m)) :
    Only ReaderOp (Channel.send c m).run := by
  refine only_try (only_lift (only_perform h)) fun a => ?_
  obtain ⟨a, n⟩ := a
  cases a with
  | ok u => exact only_pure
  | error e => exact only_pure

theorem readerReceive_only : Only ReaderOp (Channel.receive c).run := by
  refine only_try (only_lift (only_perform trivial)) fun a => ?_
  obtain ⟨a, n⟩ := a
  cases a with
  | ok m => exact only_pure
  | error e => exact only_pure

theorem channelConnect_only : Only ReaderOp Channel.connect.run := by
  refine only_try (only_lift (only_perform trivial)) fun a => ?_
  cases a with
  | error e => exact only_pure
  | ok c =>
      refine only_try (only_lift (only_perform trivial)) fun armed => ?_
      cases armed with
      | ok u => exact only_pure
      | error e => exact only_pure

theorem readerGreet_only : Only ReaderOp (RemoteMemoryProvider.greet g).run := by
  refine only_try channelConnect_only fun c => only_try (readerSend_only trivial) fun _ => ?_
  refine only_try readerReceive_only fun m => ?_
  cases m with
  | welcome version =>
      simp only
      split
      · exact only_pure
      · exact only_try (readerSend_only trivial) fun _ => only_pure
  | hello | wantGroup | update | metadata | tuples => exact only_pure

theorem receiveExchange_only : Only ReaderOp (receiveExchange c).run :=
  only_try readerReceive_only fun _ => only_try readerReceive_only fun _ => only_pure

theorem ingestNoted_only {st : RemoteMemoryProvider} {exchange : Message × Message} :
    Only ReaderOp (st.ingestNoted g exchange) :=
  only_bind (only_perform trivial) fun _ => only_pure

theorem slotDrop_only (slot : Option Connection) {α : Type} {f : Code α} (h : Only ReaderOp f) :
    Only ReaderOp (do
      if let some old := slot then
        old.drop
      f) := by
  cases slot with
  | none => exact h
  | some old => exact only_bind ((connectionDrop_only old).mono fun _ => readerOp_of_cmOp) fun _ => h

theorem freshSession_only {st : RemoteMemoryProvider} : Only ReaderOp (st.freshSession g) := by
  unfold RemoteMemoryProvider.freshSession
  refine only_bind readerGreet_only fun r => ?_
  cases r with
  | error e => exact only_pure
  | ok c =>
  refine only_bind (connect_only.mono fun _ => readerOp_of_cmOp) fun r => ?_
  cases r with
  | error e => exact only_pure
  | ok conn =>
  refine slotDrop_only _ ?_
  refine only_bind receiveExchange_only fun r => ?_
  cases r with
  | error e => exact only_pure
  | ok exchange => exact ingestNoted_only

theorem update_only {st : RemoteMemoryProvider} : Only ReaderOp (st.update g) := by
  unfold RemoteMemoryProvider.update
  simp only
  split
  · refine only_bind (only_try (readerSend_only trivial) fun _ => receiveExchange_only) fun r => ?_
    cases r with
    | ok exchange => exact ingestNoted_only
    | error e => exact only_pure
  · exact freshSession_only

theorem dropConnections_only (sessions : List (UInt32 × GroupSession)) :
    Only ReaderOp (RemoteMemoryProvider.dropConnections sessions) := by
  induction sessions with
  | nil => exact only_pure
  | cons s rest ih =>
      obtain ⟨g, s⟩ := s
      exact slotDrop_only _ ih

/-- A reader may perform its operations at any time. -/
theorem reader_may {i : Nat} (k : Know) (o : Op) (ho : ReaderOp o) (hk : k.role = .reader i) :
    may k o ∧ ∀ a, (next k o a).role = .reader i := by
  refine ⟨?_, fun a => (next_role k o a).trans hk⟩
  have hfree {P : Prop} : k.role.isProvider = true → P := by
    rw [hk]
    exact fun h => absurd h Bool.false_ne_true
  cases o with
  | verb v =>
      cases v with
      | regMr => exact absurd ho id
      | _ => exact hfree
  | toSocketAddrs | armTimeouts | receive => exact hfree
  | tcpConnect | nextReaderCall =>
      show k.role.isProvider = false
      rw [hk]
      rfl
  | send c m =>
      cases m with
      | tuples => exact absurd ho id
      | hello | welcome | wantGroup | update | metadata => exact hfree
  | note n =>
      cases n with
      | tupleOf => exact absurd ho id
      | _ => trivial
  | _ => exact absurd ho id

end Reader

/-! ## 8. The system -/

/-- A turn of the reader follows. -/
theorem readerTurn_follows {k : Know} {st : RemoteMemoryProvider} (h : entry k (.reader st)) :
    Follows protocol k (readerTurn st) fun k' r => ∀ l ∈ r, entry k' l := by
  obtain ⟨i, hrole⟩ := h
  have hback {k' : Know} {st : RemoteMemoryProvider} (h : k'.role = .reader i) :
      ∀ l ∈ some (Loop.reader st), entry k' l := by
    intro l hl
    cases hl
    exact ⟨i, h⟩
  have honly {α : Type} {x : Code α} (hx : Only ReaderOp x) :
      Follows protocol k x fun k' _ => k'.role = .reader i :=
    hx.follows (I := fun k' : Know => k'.role = .reader i) reader_may hrole
  unfold readerTurn
  rw [follows_bind, follows_operation]
  refine ⟨(reader_may k .nextReaderCall trivial hrole).1, fun call => ?_⟩
  cases call with
  | update group =>
      simp only
      rw [follows_bind, follows_operation]
      refine ⟨trivial, fun _ => ?_⟩
      rw [follows_bind]
      refine (honly update_only).mono fun k' r h => ?_
      rw [follows_bind, follows_operation]
      exact ⟨trivial, fun _ => hback h⟩
  | drop =>
      simp only
      rw [follows_bind]
      exact (honly (dropConnections_only _)).mono fun k' _ h => hback h

/-- **Every loop of the code follows the protocol.** -/
theorem provider_follows : provider.Follows protocol entry where
  turn k l h := by
    cases l with
    | app => exact (appTurn_follows h).mono fun _ _ h => h.1
    | serviceStart =>
        obtain ⟨hrole, hstage, hfree, hopen⟩ := h
        refine follows_bind.mpr ⟨⟨hrole, hstage⟩, fun listener => ?_⟩
        intro l hl
        cases hl
        refine ⟨hrole, rfl, hfree, fun n hn => ?_⟩
        have hn : n ∈ k.open_ := hn
        rw [hopen] at hn
        exact hn
    | service listener sessions => exact serviceRun_follows h
    | sessionStart =>
        obtain ⟨hrole, hstage, hfree, hopen⟩ := h
        refine follows_bind.mpr ⟨⟨hrole, hstage⟩, fun started => ?_⟩
        intro l hl
        cases hl
        exact ⟨hrole, rfl, hfree, hopen⟩
    | session c g => exact waitForUpdates_follows h
    | reader st => exact readerTurn_follows h
    | net =>
        refine follows_bind.mpr ⟨h, fun notice => ?_⟩
        intro l hl
        cases hl
        exact h

/-- The application's thread is over when the provider was dropped. -/
theorem provider_finishes :
    provider.Finishes protocol entry fun k => k.role = .app → k.stage = .ended where
  toFollows := provider_follows
  last k l h := by
    have hother (hrole : k.role ≠ .app) :
        Follows protocol k (code l) fun k' r => r = none → k'.role = .app → k'.stage = .ended :=
      ((provider_follows.turn k l h).keeps Know.role next_role).mono fun _ _ hk _ hrole' =>
        absurd (hk.2.symm.trans hrole') hrole
    cases l with
    | app => exact (appTurn_follows h).mono fun _ _ hk hr _ => hk.2 hr
    | serviceStart | service => exact hother (by rw [h.1]; exact Tid.noConfusion)
    | sessionStart | session =>
        obtain ⟨⟨n, hrole⟩, _⟩ := h
        exact hother (by rw [hrole]; exact Tid.noConfusion)
    | reader st =>
        obtain ⟨i, hrole⟩ := h
        exact hother (by rw [hrole]; exact Tid.noConfusion)
    | net => exact hother (by rw [show k.role = .net from h]; exact Tid.noConfusion)

end Rdmalib
