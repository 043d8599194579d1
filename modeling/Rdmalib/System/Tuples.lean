/-
  File:      Rdmalib/System/Tuples.lean
  Subject:   What `tuple_of` answers, and how long its answers are good.

  `tuple_of` looks a tuple up, registers the region if it is not there, and then inserts it: four
  critical sections, between which another thread may do the same.

  * `TuplesStable` -- all answers for a region and a group are one tuple, and what was returned
    or sent is backed by a live registration until the drop;
  * `tuples_stable` -- it holds in every run whose insertions all find their key vacant;
  * `tuples_race` -- a run of two `tuple_of`s in which it does not;
  * `group_domains` -- every group has a domain of its own; and **where insertions find their key
    vacant, what a group is served is usable through every connection of the group and through no
    connection of another.**
-/
import Rdmalib.System.Domains

namespace Rdmalib

open Base

/-! ## 1. Answers -/

/-- The tuple that a note says `tuple_of(id, group)` returned. -/
def Note.tuple (id g : UInt32) : Note → Option Tuple
  | .tupleOf id' g' (.ok (some tuple)) => if id' = id ∧ g' = g then some tuple else none
  | _ => none

/-- The tuples that `tuple_of(id, group)` has returned, the latest first. -/
def World.returned (w : World) (id g : UInt32) : List Tuple :=
  w.log.records.filterMap fun r => r.note.tuple id g

/-- The tuples of a message for `group`. -/
def Message.tuplesOf (g : UInt32) : Message → List TupleDesc
  | .tuples g' ts => if g' = g then ts else []
  | _ => []

/-- The tuples sent to readers of `group`. -/
def World.sent (w : World) (g : UInt32) : List TupleDesc :=
  w.tcp.chans.flatMap fun s => s.sentP.flatMap (Message.tuplesOf g)

/-- A live registration of the region for the group has this tuple. -/
def World.Backed (w : World) (id g : UInt32) (tuple : Tuple) : Prop :=
  ∃ mr, ⟨mr, (id, g)⟩ ∈ w.hca.regs ∧ mr.tuple = tuple

structure TuplesStable (w : World) : Prop where
  same : ∀ id g, ∀ tuple ∈ w.returned id g, ∀ tuple' ∈ w.returned id g, tuple = tuple'
  returned : w.shared.cleared = false → ∀ id g, ∀ tuple ∈ w.returned id g, w.Backed id g tuple
  sent : w.shared.cleared = false → ∀ g, ∀ d ∈ w.sent g,
    w.Backed d.regionId g (d.remoteAddr, d.size, d.rkey)

/-- The key under which an operation enters a registration in `tuples`. -/
def Op.inserts : Op → Option (UInt32 × UInt32)
  | .tuplesInsert id g _ => some (id, g)
  | _ => none

/-- The condition on a step: an insertion finds its key vacant, so no other `tuple_of` for the same
    region and group has inserted since this one looked. -/
def InsertsVacant (_ : Tid) (o : Op) (w : World) (_ : o.Ans) : Prop :=
  ∀ key ∈ o.inserts, w.shared.tuples.lookup key = none

instance (t : Tid) (o : Op) (w : World) (a : o.Ans) : Decidable (InsertsVacant t o w a) :=
  Option.decidableForallMem o.inserts

/-! ## 2. Runs whose insertions find their key vacant -/

/-- `tuples` has an entry of this key with this tuple. -/
def Entered (w : World) (key : UInt32 × UInt32) (tuple : Tuple) : Prop :=
  ∃ mr, w.shared.tuples.lookup key = some mr ∧ mr.tuple = tuple

/-- What was seen, returned or sent is still in `tuples`. -/
structure Stays (w : World) (know : Tid → Know) : Prop where
  seen : ∀ {t key mr}, (key, mr) ∈ (know t).tup.seen → w.shared.tuples.lookup key = some mr
  same : ∀ id g, ∀ tuple ∈ w.returned id g, ∀ tuple' ∈ w.returned id g, tuple = tuple'
  returned : w.shared.cleared = false → ∀ id g, ∀ tuple ∈ w.returned id g, Entered w (id, g) tuple
  sent : w.shared.cleared = false → ∀ g, ∀ d ∈ w.sent g,
    Entered w (d.regionId, g) (d.remoteAddr, d.size, d.rkey)

theorem stays_start : Stays {} firstKnow :=
  ⟨(fun {t} _ _ e => by cases t <;> cases e), nofun, fun _ => nofun, fun _ => nofun⟩

section Steps

variable {w w' : World} {know : Tid → Know} {t : Tid} {o : Op}

theorem Entered.grow {key : UInt32 × UInt32} {tuple : Tuple} (h : Entered w key tuple)
    (hgrow : ∀ key mr, w.shared.tuples.lookup key = some mr → w'.shared.tuples.lookup key = some mr) :
    Entered w' key tuple := by
  obtain ⟨mr, hmr, ht⟩ := h
  exact ⟨mr, hgrow key mr hmr, ht⟩

/-- `tuples` grows, and what threads newly see is in it. -/
theorem Stays.keep {k' : Know} (h : Stays w know)
    (hgrow : ∀ key mr, w.shared.tuples.lookup key = some mr → w'.shared.tuples.lookup key = some mr)
    (hcleared : w'.shared.cleared = w.shared.cleared) (hrecords : w'.log.records = w.log.records)
    (hsent : ∀ g, ∀ d ∈ w'.sent g, d ∈ w.sent g)
    (hseen : ∀ key mr, (key, mr) ∈ k'.tup.seen →
      (key, mr) ∈ (know t).tup.seen ∨ w'.shared.tuples.lookup key = some mr) :
    Stays w' (Function.update know t k') := by
  have hreturned (id g : UInt32) : w'.returned id g = w.returned id g := by
    unfold World.returned
    rw [hrecords]
  refine ⟨fun {u key mr} e => ?_, fun id g => ?_, fun hc id g tuple ht => ?_, fun hc g d hd => ?_⟩
  · by_cases hu : u = t
    · subst hu
      rw [Function.update_self] at e
      rcases hseen key mr e with e | e
      · exact hgrow key mr (h.seen e)
      · exact e
    · rw [Function.update_of_ne hu] at e
      exact hgrow key mr (h.seen e)
  · rw [hreturned]
    exact h.same id g
  · rw [hreturned] at ht
    exact (h.returned (hcleared ▸ hc) id g tuple ht).grow hgrow
  · exact (h.sent (hcleared ▸ hc) g d (hsent g d hd)).grow hgrow

theorem mem_sent {g : UInt32} {d : TupleDesc} : d ∈ w.sent g ↔
    ∃ s ∈ w.tcp.chans, ∃ m ∈ s.sentP, d ∈ m.tuplesOf g := by
  simp only [World.sent, List.mem_flatMap]

/-- A record adds the tuple it notes. -/
theorem returned_note {n : Note} {a : Op.Ans (.note n)} {id g : UInt32} {tuple : Tuple}
    (h : tuple ∈ (post t (.note n) a w).returned id g) :
    n.tuple id g = some tuple ∨ tuple ∈ w.returned id g := by
  obtain ⟨r, hr, hrt⟩ := List.mem_filterMap.mp h
  rcases List.mem_cons.mp hr with rfl | hr
  · exact Or.inl hrt
  · exact Or.inr (List.mem_filterMap.mpr ⟨r, hr, hrt⟩)

theorem tuple_of_note {n : Note} {id g : UInt32} {tuple : Tuple} (h : n.tuple id g = some tuple) :
    n = .tupleOf id g (.ok (some tuple)) := by
  unfold Note.tuple at h
  split at h
  · split at h
    · rename_i heq
      cases h
      rw [heq.1, heq.2]
    · cases h
  · cases h

/-- A message sent adds its tuples, if it was sent by the provider. -/
theorem sent_send {c : Chan} {m : Message} {a : Op.Ans (.send c m)} {g : UInt32} {d : TupleDesc}
    (h : d ∈ (post t (.send c m) a w).sent g) :
    (t.isProvider = true ∧ d ∈ m.tuplesOf g) ∨ d ∈ w.sent g := by
  obtain ⟨s', hs', m', hm', hd⟩ := mem_sent.mp h
  obtain ⟨s, hs, rfl | rfl⟩ := mem_modify hs'
  · exact Or.inr (mem_sent.mpr ⟨s', hs, m', hm', hd⟩)
  · have hold (hmem : m' ∈ s.sentP) : d ∈ w.sent g := mem_sent.mpr ⟨s, hs, m', hmem, hd⟩
    unfold ChanState.send at hm'
    by_cases hp : t.isProvider = true
    · rw [if_pos hp] at hm'
      obtain ⟨a, n⟩ := a
      cases a with
      | error e => exact Or.inr (hold hm')
      | ok u =>
          rcases List.mem_append.mp hm' with hm' | hm'
          · exact Or.inr (hold hm')
          · cases List.mem_singleton.mp hm'
            exact Or.inl ⟨hp, hd⟩
    · rw [if_neg hp] at hm'
      exact Or.inr (hold hm')

/-- An operation that is not about tuples. -/
theorem Stays.same_tuples {k' : Know} (h : Stays w know)
    (htuples : w'.shared.tuples = w.shared.tuples) (hcleared : w'.shared.cleared = w.shared.cleared)
    (hlog : w'.log.records = w.log.records) (htcp : w'.tcp.chans = w.tcp.chans)
    (hk : ∀ q, q ∈ k'.tup.seen → q ∈ (know t).tup.seen) : Stays w' (Function.update know t k') := by
  refine h.keep (fun key mr e => htuples ▸ e) hcleared hlog (fun g d hd => ?_)
    fun key mr e => Or.inl (hk _ e)
  unfold World.sent at hd ⊢
  rw [htcp] at hd
  exact hd

theorem Stays.step_tuplesGet (h : Stays w know) {id g : UInt32} {a : Op.Ans (.tuplesGet id g)}
    (hc : can t (.tuplesGet id g) w a) :
    Stays (post t (.tuplesGet id g) a w)
      (Function.update know t (next (know t) (.tuplesGet id g) a)) := by
  refine h.keep (fun _ _ e => e) rfl rfl (fun _ _ e => e) fun key mr e => ?_
  have ha : a = w.shared.tuples.lookup (id, g) := hc
  rcases List.mem_append.mp e with e | e
  · rw [Option.mem_toList] at e
    obtain ⟨mr', hmr, he⟩ := Option.map_eq_some_iff.mp e
    cases he
    exact Or.inr (ha ▸ hmr)
  · exact Or.inl e

/-- An insertion that finds its key vacant takes nothing away. -/
theorem Stays.step_tuplesInsert (h : Stays w know) {id g : UInt32} {mr : MemoryRegion}
    (hvacant : w.shared.tuples.lookup (id, g) = none) :
    Stays (post t (.tuplesInsert id g mr) () w)
      (Function.update know t (next (know t) (.tuplesInsert id g mr) ())) := by
  have hlookup (key : UInt32 × UInt32) : (post t (.tuplesInsert id g mr) () w).shared.tuples.lookup
      key = if key = (id, g) then some mr else w.shared.tuples.lookup key :=
    HashMap.lookup_insert _ _ _ _
  refine h.keep (fun key mr' e => ?_) rfl rfl (fun _ _ e => e) fun key mr' e => ?_
  · rw [hlookup, if_neg]
    · exact e
    · intro hk
      rw [hk, hvacant] at e
      cases e
  · rcases List.mem_cons.mp e with e | e
    · cases e
      rw [hlookup, if_pos rfl]
      exact Or.inr rfl
    · exact Or.inl e

/-- The tuple noted is the one in `tuples`, and so are the tuples noted before. -/
theorem Stays.step_note (hl : Lives w know) (h : Stays w know) {n : Note}
    (hm : may (know t) (.note n)) :
    Stays (post t (.note n) () w) (Function.update know t (next (know t) (.note n) ())) := by
  have hnew {id g : UInt32} {tuple : Tuple} (e : n.tuple id g = some tuple) :
      w.shared.cleared = false ∧ Entered w (id, g) tuple := by
    have e := tuple_of_note e
    subst e
    obtain ⟨hworks, mr, hmr, ht⟩ := hm
    exact ⟨hl.uncleared hworks, mr, h.seen hmr, ht⟩
  have hagree {id g : UInt32} {tuple tuple' : Tuple} (e : n.tuple id g = some tuple)
      (e' : n.tuple id g = some tuple' ∨ tuple' ∈ w.returned id g) : tuple = tuple' := by
    obtain ⟨hcleared, mr, hmr, ht⟩ := hnew e
    have hentered : Entered w (id, g) tuple' := by
      rcases e' with e' | e'
      · exact (hnew e').2
      · exact h.returned hcleared id g tuple' e'
    obtain ⟨mr', hmr', ht'⟩ := hentered
    rw [hmr] at hmr'
    cases hmr'
    exact ht.symm.trans ht'
  refine ⟨fun {u key mr} e => ?_, fun id g tuple e tuple' e' => ?_, fun hcleared id g tuple e => ?_,
    h.sent⟩
  · rw [proj_update Know.tup ((next_recalls _ _ _).tup rfl)] at e
    exact h.seen e
  · rcases returned_note e with e | e
    · exact hagree e (returned_note e')
    · rcases returned_note e' with e' | e'
      · exact (hagree e' (Or.inr e)).symm
      · exact h.same id g tuple e tuple' e'
  · rcases returned_note e with e | e
    · exact (hnew e).2
    · exact h.returned hcleared id g tuple e

/-- The tuples of a message sent were seen in `tuples`. -/
theorem Stays.step_send (h : Stays w know) {c : Chan} {m : Message} {a : Op.Ans (.send c m)}
    (hm : may (know t) (.send c m)) :
    Stays (post t (.send c m) a w) (Function.update know t (next (know t) (.send c m) a)) := by
  refine ⟨fun {u key mr} e => ?_, h.same, h.returned, fun hcleared g d hd => ?_⟩
  · rw [proj_update Know.tup ((next_recalls _ _ _).tup rfl)] at e
    exact h.seen e
  · rcases sent_send hd with ⟨_, hnew⟩ | hold
    · cases m with
      | tuples g' ts =>
          simp only [Message.tuplesOf] at hnew
          split at hnew
          · rename_i hg
            subst hg
            obtain ⟨mr, hmr, ht⟩ := hm.2 d hnew
            exact ⟨mr, h.seen hmr, ht⟩
          · cases hnew
      | hello | welcome | wantGroup | update | metadata => cases hnew
    · exact h.sent hcleared g d hold

theorem Stays.step_receive (h : Stays w know) {c : Chan} {a : Op.Ans (.receive c)} :
    Stays (post t (.receive c) a w) (Function.update know t (next (know t) (.receive c) a)) := by
  refine h.keep (fun _ _ e => e) rfl rfl (fun g d hd => ?_) fun key mr e => Or.inl ?_
  · obtain ⟨s', hs', m', hm', hd⟩ := mem_sent.mp hd
    obtain ⟨s, hs, rfl | rfl⟩ := mem_modify hs'
    · exact mem_sent.mpr ⟨s', hs, m', hm', hd⟩
    · refine mem_sent.mpr ⟨s, hs, m', ?_, hd⟩
      rw [ChanState.receive_sentP] at hm'
      exact hm'
  · rw [(next_recalls _ _ _).tup rfl] at e
    exact e

/-- On a new connection nothing has been sent. -/
theorem Stays.step_tcpConnect (h : Stays w know) {a : Op.Ans .tcpConnect} :
    Stays (post t .tcpConnect a w) (Function.update know t (next (know t) .tcpConnect a)) := by
  have hf := post_frame (t := t) (w := w) .tcpConnect a
  refine h.keep (fun _ _ e => ?_) ?_ ?_ (fun g d hd => ?_) fun key mr e => Or.inl ?_
  · rw [hf.shared rfl]
    exact e
  · rw [hf.shared rfl]
  · rw [hf.log rfl]
  · obtain ⟨s, hs, m, hsent, htuple⟩ := mem_sent.mp hd
    have hold (hs : s ∈ w.tcp.chans) : d ∈ w.sent g := mem_sent.mpr ⟨s, hs, m, hsent, htuple⟩
    cases a with
    | error e => exact hold hs
    | ok c =>
        cases t with
        | reader i =>
            rcases List.mem_append.mp hs with hs | hs
            · exact hold hs
            · cases List.mem_singleton.mp hs
              cases hsent
        | app | service | session | net => exact hold hs
  · rw [(next_recalls _ _ _).tup rfl] at e
    exact e

theorem Stays.step (hl : Lives w know) (h : Stays w know) {a : o.Ans}
    (hm : may (know t) o) (hc : can t o w a) (hvacant : InsertsVacant t o w a) :
    Stays (post t o a w) (Function.update know t (next (know t) o a)) := by
  have hf := post_frame (t := t) (w := w) o a
  cases o with
  | tuplesGet id g => exact h.step_tuplesGet hc
  | tuplesInsert id g mr => exact h.step_tuplesInsert (hvacant _ rfl)
  | tuplesClear =>
      have hrole : t = .app := (hl.role t).symm.trans hm.1
      subst hrole
      refine ⟨fun {u key mr} e => ?_, h.same, nofun, nofun⟩
      rw [proj_update Know.tup ((next_recalls _ _ _).tup rfl), hl.silent (by rw [hm.2]; rfl)] at e
      cases e
  | note n => exact h.step_note hl hm
  | send c m => exact h.step_send hm
  | receive c => exact h.step_receive
  | tcpConnect => exact h.step_tcpConnect
  | catalogSnapshot | takeService => exact h.same_tuples rfl rfl rfl rfl nofun
  | exit =>
      refine h.same_tuples ?_ ?_ ?_ ?_ nofun
      · rw [hf.shared rfl]
      · rw [hf.shared rfl]
      · rw [hf.log rfl]
      · rw [hf.tcp rfl]
  | verb v =>
      refine h.same_tuples ?_ ?_ ?_ ?_ fun q e => ?_
      · rw [hf.shared rfl]
      · rw [hf.shared rfl]
      · rw [hf.log rfl]
      · rw [hf.tcp rfl]
      · by_cases hv : Op.teachesTup (.verb v) = false
        · rw [(next_recalls _ _ _).tup hv] at e
          exact e
        · cases v with
          | regMr => cases a <;> exact e
          | _ => exact absurd rfl hv
  | groupsPush g conn =>
      refine h.same_tuples ?_ ?_ ?_ ?_ fun q e => e
      · simp only [post, pushPost]
        split <;> rfl
      · simp only [post, pushPost]
        split <;> rfl
      · rw [hf.log rfl]
      · rw [hf.tcp rfl]
  | tcpAccept => cases a <;> exact h.same_tuples rfl rfl rfl rfl fun _ e => e
  | groupsGetPd g =>
      refine h.same_tuples ?_ ?_ ?_ ?_ fun q e => e
      · rw [hf.shared rfl]
      · rw [hf.shared rfl]
      · rw [hf.log rfl]
      · rw [hf.tcp rfl]
  | catalogGet | catalogInsert | dropShared => exact h.same_tuples rfl rfl rfl rfl fun _ e => e
  | _ =>
      refine h.same_tuples ?_ ?_ ?_ ?_ fun q e => ?_
      · rw [hf.shared rfl]
      · rw [hf.shared rfl]
      · rw [hf.log rfl]
      · rw [hf.tcp rfl]
      · rw [(next_recalls _ _ _).tup rfl] at e
        exact e

end Steps

/-! ## 3. The condition, and a run that breaks it -/

theorem tuplesStable_reached {c : Config Tid Op World Loop Op.Ans}
    (h : (provider.restrict InsertsVacant).Reach start c) : TuplesStable c.world := by
  obtain ⟨know, hw⟩ := System.Reach.watched (S := provider.restrict InsertsVacant) protocol firstKnow h
  have hstays : Stays c.world know :=
    hw.invariant (provider_follows.restrict _) entry_first stays_start fun hw h _ _ _ hm hc =>
      h.step (lives_watched hw.unrestrict) hm hc.1 hc.2
  have ho := owned_watched hw.unrestrict
  have hbacked {id g : UInt32} {tuple : Tuple} (e : Entered c.world (id, g) tuple) :
      c.world.Backed id g tuple := by
    obtain ⟨mr, hmr, ht⟩ := e
    exact ⟨mr, ho.registered.stored hmr, ht⟩
  exact ⟨hstays.same, fun hc id g tuple e => hbacked (hstays.returned hc id g tuple e),
    fun hc g d e => hbacked (hstays.sent hc g d e)⟩

/-- **Where insertions find their key vacant, tuples are stable.** -/
theorem tuples_stable {c : Config Tid Op World Loop Op.Ans}
    (h : (provider.restrict InsertsVacant).Reach start c) : TuplesStable c.world :=
  tuplesStable_reached h

/-- The application asks for the tuple that a handshake has inserted. -/
def untilRepeated : List Move := untilServed ++ calls (.getSharedMr 0 7) :: moves .app 2

theorem tuples_stable_repeated : ∃ c, (provider.restrict InsertsVacant).Reach start c ∧
    c.world.returned 0 7 = [(4096, 8, 1), (4096, 8, 1)] ∧ TuplesStable c.world := by
  have hplay : (((provider.restrict InsertsVacant).play start untilRepeated).map fun c =>
      c.world.returned 0 7) = some [(4096, 8, 1), (4096, 8, 1)] := by decide +kernel
  obtain ⟨c, hc, hreturned⟩ := Option.map_eq_some_iff.mp hplay
  have hreach := System.play_reach hc
  exact ⟨c, hreach, hreturned, tuples_stable hreach⟩

/-- The application asks for the tuple that a handshake is about to insert. -/
def untilReplaced : List Move :=
  untilHeld ++ calls (.getSharedMr 0 7) :: moves .app 7 ++ moves .service 3

/-- The two answers differ, and the first is no longer backed. -/
theorem tuples_race : ∃ c, provider.Reach start c ∧
    c.world.returned 0 7 = [(4096, 8, 1), (4096, 8, 2)] ∧
    c.world.hca.regs.map (·.mr.tuple) = [(4096, 8, 1)] ∧
    c.world.shared.cleared = false ∧ ¬ TuplesStable c.world := by
  have hplay : ((provider.play start untilReplaced).map fun c =>
      (c.world.returned 0 7, c.world.hca.regs.map (·.mr.tuple), c.world.shared.cleared)) =
        some ([(4096, 8, 1), (4096, 8, 2)], [(4096, 8, 1)], false) := by decide +kernel
  obtain ⟨c, hc, he⟩ := Option.map_eq_some_iff.mp hplay
  obtain ⟨hreturned, he⟩ := Prod.mk.inj he
  obtain ⟨hregs, hcleared⟩ := Prod.mk.inj he
  refine ⟨c, System.play_reach hc, hreturned, hregs, hcleared, fun hstable => ?_⟩
  have hsame := hstable.same 0 7
  rw [hreturned] at hsame
  exact absurd (hsame (4096, 8, 1) (by decide) (4096, 8, 2) (by decide)) (by decide)

/-! ## 4. What is served is usable -/

/-- A tuple can be used through a connection: a live registration has it, and the connection's queue
    pair is in that registration's domain. -/
def Usable (w : World) (tuple : Tuple) (conn : Connection) : Prop :=
  ∃ r ∈ w.hca.regs, r.mr.tuple = tuple ∧
    ∃ id, conn.id = some id ∧ w.hca.qps.lookup id = some r.mr.pd

/-- A tuple is usable through every connection of `g` and through no connection of another group. -/
def UsableIn (w : World) (g : UInt32) (tuple : Tuple) : Prop :=
  ∀ g' e conn, w.shared.groups.lookup g' = some e → conn ∈ e.connections →
    (Usable w tuple conn ↔ g' = g)

/-- The tuples returned and sent for a group are usable there, and nowhere else. -/
structure ServedUsable (w : World) : Prop where
  returned : ∀ id g, ∀ tuple ∈ w.returned id g, UsableIn w g tuple
  sent : ∀ g, ∀ d ∈ w.sent g, UsableIn w g (d.remoteAddr, d.size, d.rkey)

section Usable

variable {w : World} {know : Tid → Know} {prog : Tid → Code (Option Loop)}

/-- The tuple of a live registration is usable in its group. No other live one has its key. -/
theorem usableIn_of_live (hw : provider.Watched protocol {} firstLoop firstKnow w prog know)
    {id g : UInt32} {mr : MemoryRegion} (hr : ⟨mr, (id, g)⟩ ∈ w.hca.regs) :
    UsableIn w g mr.tuple := by
  have ho := owned_watched hw
  have hd := domains_watched hw
  have hgroups := group_domains_watched hw
  intro g' e' conn he' hconn
  have hgone : w.shared.gone = false := by
    by_contra hgone
    rw [hd.looked.dropped (by simpa using hgone)] at he'
    cases he'
  obtain ⟨e, he, hpd⟩ := hd.looked.made hgone _ (ho.served.live _ hr)
  obtain ⟨n, hn, hqp⟩ := hgroups.connections g' e' he' conn hconn
  constructor
  · intro ⟨r', hr', htuple, n', hn', hqp'⟩
    have hrkey : r'.mr.rkey = mr.rkey := congrArg (fun t : Tuple => t.2.2) htuple
    have hsame := ho.registered.handles r' hr' _ hr (Or.inr hrkey)
    rw [hn] at hn'
    cases hn'
    rw [hqp, hsame] at hqp'
    by_contra hne
    exact hgroups.apart g' g e' e he' he hne ((Option.some.inj hqp').trans hpd)
  · intro hg
    subst hg
    have he : w.shared.groups.lookup g' = some e := he
    rw [he'] at he
    cases he
    exact ⟨_, hr, rfl, n, hn, hqp.trans (congrArg some hpd.symm)⟩

end Usable

/-- **Every group has a domain of its own.** In every run a group keeps its domain, the queue pairs
    of its connections and the registrations stored for it are in it, and no other group has it; so a
    stored tuple is usable through every connection of its group and through no other. Where
    insertions find their key vacant, and the provider is not being dropped, so is every tuple that a
    `tuple_of` returned or that was sent to a reader. -/
theorem group_domains {c c' : Config Tid Op World Loop Op.Ans} (h : provider.Reach start c)
    (h' : provider.Reach c c') :
    GroupDomains c'.world ∧
    (∀ g e, c.world.shared.groups.lookup g = some e →
      (∃ e', c'.world.shared.groups.lookup g = some e' ∧ e'.pd = e.pd) ∨
        c'.world.shared.gone = true) ∧
    (∀ id g mr, c'.world.shared.tuples.lookup (id, g) = some mr → UsableIn c'.world g mr.tuple) ∧
    ((provider.restrict InsertsVacant).Reach start c' → c'.world.shared.cleared = false →
      ServedUsable c'.world) := by
  obtain ⟨know, hw⟩ := System.Reach.watched protocol firstKnow (h.trans h')
  refine ⟨group_domains_watched hw, (groups_kept h h').entry, fun id g mr e => ?_,
    fun hvacant hcleared => ?_⟩
  · exact usableIn_of_live hw ((owned_watched hw).registered.stored e)
  · have hstable := tuplesStable_reached hvacant
    have hbacked {id g : UInt32} {tuple : Tuple} (hb : c'.world.Backed id g tuple) :
        UsableIn c'.world g tuple := by
      obtain ⟨mr, hmr, ht⟩ := hb
      exact ht ▸ usableIn_of_live hw hmr
    exact ⟨fun id g tuple e => hbacked (hstable.returned hcleared id g tuple e),
      fun g d e => hbacked (hstable.sent hcleared g d e)⟩

theorem group_domains_served : ∃ c e conn, (provider.restrict InsertsVacant).Reach start c ∧
    c.world.shared.groups.lookup 7 = some e ∧ conn ∈ e.connections ∧
    c.world.returned 0 7 = [(4096, 8, 1)] ∧ Usable c.world (4096, 8, 1) conn ∧
    GroupDomains c.world ∧ ServedUsable c.world := by
  have hplay : (((provider.restrict InsertsVacant).play start untilServed).map fun c =>
      ((c.world.shared.groups.lookup 7).map (·.connections.length), c.world.returned 0 7,
        c.world.shared.cleared)) = some (some 1, [(4096, 8, 1)], false) := by decide +kernel
  obtain ⟨c, hc, he⟩ := Option.map_eq_some_iff.mp hplay
  obtain ⟨hgroup, he⟩ := Prod.mk.inj he
  obtain ⟨hreturned, hcleared⟩ := Prod.mk.inj he
  obtain ⟨e, hentry, hlen⟩ := Option.map_eq_some_iff.mp hgroup
  obtain ⟨conn, hconns⟩ := List.length_eq_one_iff.mp hlen
  have hconn : conn ∈ e.connections := hconns ▸ List.mem_singleton_self _
  have hreach := System.play_reach hc
  obtain ⟨hgroups, _, _, hserved⟩ := group_domains hreach.unrestrict .refl
  have husable := hserved hreach hcleared
  exact ⟨c, e, conn, hreach, hentry, hconn, hreturned, (husable.returned 0 7 (4096, 8, 1)
    (hreturned ▸ List.mem_singleton_self _) 7 e conn hentry hconn).mpr rfl, hgroups, husable⟩

/-- In the run of the race, a tuple was served to a group through whose connection it cannot be
    used: its registration is gone. -/
theorem served_unusable : ∃ c e conn, provider.Reach start c ∧ c.world.shared.cleared = false ∧
    (4096, 8, 2) ∈ c.world.returned 0 7 ∧ c.world.shared.groups.lookup 7 = some e ∧
    conn ∈ e.connections ∧ ¬ Usable c.world (4096, 8, 2) conn ∧ ¬ ServedUsable c.world := by
  have hplay : ((provider.play start untilReplaced).map fun c =>
      ((c.world.shared.groups.lookup 7).map (·.connections.length), c.world.returned 0 7,
        c.world.shared.cleared)) = some (some 1, [(4096, 8, 1), (4096, 8, 2)], false) := by
    decide +kernel
  have hlive : ((provider.play start untilReplaced).map fun c => c.world.hca.regs.map (·.mr.tuple)) =
      some [(4096, 8, 1)] := by decide +kernel
  obtain ⟨c, hc, he⟩ := Option.map_eq_some_iff.mp hplay
  obtain ⟨hgroup, he⟩ := Prod.mk.inj he
  obtain ⟨hreturned, hcleared⟩ := Prod.mk.inj he
  rw [hc] at hlive
  have hregs : c.world.hca.regs.map (·.mr.tuple) = [(4096, 8, 1)] := Option.some.inj hlive
  obtain ⟨e, hentry, hlen⟩ := Option.map_eq_some_iff.mp hgroup
  obtain ⟨conn, hconns⟩ := List.length_eq_one_iff.mp hlen
  have hconn : conn ∈ e.connections := hconns ▸ List.mem_singleton_self _
  have hmem : (4096, 8, 2) ∈ c.world.returned 0 7 := by
    rw [hreturned]
    exact List.mem_cons_of_mem _ (List.mem_singleton_self _)
  have hunusable : ¬ Usable c.world (4096, 8, 2) conn := by
    intro ⟨r, hr, ht, _⟩
    have hlive := List.mem_map_of_mem (f := fun r : Registration => r.mr.tuple) hr
    rw [hregs, ht] at hlive
    exact absurd hlive (by decide)
  exact ⟨c, e, conn, System.play_reach hc, hcleared, hmem, hentry, hconn, hunusable,
    fun h => hunusable ((h.returned 0 7 _ hmem 7 e conn hentry hconn).mpr rfl)⟩

end Rdmalib
