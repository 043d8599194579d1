/-
  File:      Rdmalib/System/Conversations.lean
  Subject:   The conversations of the system's threads are in order.

  * `FramesFit` -- the condition on the runs: what is sent fits a frame;
  * `view` -- what a thread knows of its conversation, where a session thread that has not come up
    yet counts as holding the connection it was started with;
  * `linesOf` -- who holds which connection; every step of the system is a `LineStep` or leaves the
    lines as they are (`lines_step`), so they are in order in every run (`conversing_watched`).
-/
import Rdmalib.System.Dialog
import Rdmalib.System.Editions

namespace Rdmalib

open Base

open Function (update)

/-! ## 1. Runs with both protocols -/

/-- Every message that is sent fits a frame. -/
def FramesFit (_ : Tid) (o : Op) (_ : World) (_ : o.Ans) : Prop := ∀ m ∈ o.sends, m.Capped

instance (m : Message) : Decidable m.Capped := inferInstanceAs (Decidable (_ ≤ _))

instance (t : Tid) (o : Op) (w : World) (a : o.Ans) : Decidable (FramesFit t o w a) :=
  Option.decidableForallMem o.sends

/-- The system, of which every message fits a frame. -/
def fitting : System Tid Op World Loop Op.Ans := provider.restrict FramesFit

/-- What a thread knows by the protocol of the system and by that of the conversations. -/
abbrev Both := Know × Party

def firstBoth (t : Tid) : Both := (firstKnow t, firstParty t)

def bothEntry (κ : Both) (l : Loop) : Prop := entry κ.1 l ∧ partyEntry κ.2 l

theorem fitting_follows : fitting.Follows (protocol.prod talks) bothEntry :=
  (provider_follows.prod provider_talks).restrict FramesFit

theorem bothEntry_first (t : Tid) : bothEntry (firstBoth t) (firstLoop t) :=
  ⟨entry_first t, partyEntry_first t⟩

/-! ## 2. Views -/

/-- The connection and the group that a session thread was started with. -/
def World.handed (w : World) : Tid → Option (Chan × UInt32)
  | .session n => w.life.sessions[n]?
  | _ => none

/-- What a thread knows of its conversation, if this was handed to it. -/
def seen (κ : Both) : Option (Chan × UInt32) → Party
  | some (c, g) => if κ.1.stage = .waiting then κ.2.take c g else κ.2
  | none => κ.2

def view (w : World) (κ : Tid → Both) (t : Tid) : Party := seen (κ t) (w.handed t)

section Views

variable {w w' : World} {κ : Tid → Both} {t : Tid} {o : Op} {a : o.Ans}

theorem seen_working {κ : Both} (h : κ.1.stage ≠ .waiting) (handed : Option (Chan × UInt32)) :
    seen κ handed = κ.2 := by
  cases handed with
  | none => rfl
  | some e => exact if_neg h

theorem seen_waiting {κ : Both} (h : κ.1.stage = .waiting) (c : Chan) (g : UInt32) :
    seen κ (some (c, g)) = κ.2.take c g := if_pos h

theorem party_role (k : Party) (o : Op) (a : o.Ans) : (k.next o a).role = k.role := by
  cases o with
  | tcpConnect | tcpAccept | groupsPush => cases a <;> rfl
  | send =>
      obtain ⟨a, n⟩ := a
      cases a <;> rfl
  | receive =>
      obtain ⟨a, n⟩ := a
      cases a with
      | error e => rfl
      | ok m =>
          show (k.hears m).role = k.role
          unfold Party.hears
          split <;> rfl
  | note n => cases n <;> rfl
  | verb v =>
      obtain ⟨refused, hk⟩ := k.next_verb v a
      rw [hk]
  | _ => rfl

/-- No thread goes back to waiting. -/
theorem next_waiting {k : Know} (h : (next k o a).stage = .waiting) : k.stage = .waiting := by
  by_cases ho : o.staged = false
  · rwa [(next_recalls k o a).stage ho] at h
  · cases o with
    | isFinished n => cases a <;> exact h
    | spawnService | setShutdown | spawnSession | joinSession => exact h
    | awaitService | awaitSession | joinService | tuplesClear | dropShared => cases h
    | takeService => cases a <;> cases h
    | exit => cases h
    | _ => exact absurd rfl ho

/-- A session thread that has not come up does nothing but that. -/
theorem waiting_may {k : Know} {n : Nat} (hrole : k.role = .session n) (hstage : k.stage = .waiting)
    (hm : may k o) : o = .awaitSession ∨ ∃ x, o = .note x := by
  have hprovider : k.role.isProvider = true := by rw [hrole]; rfl
  have hnot {P : Prop} (h : k.stage = .running) : P := by
    rw [hstage] at h
    cases h
  have happ {P : Prop} {t : Tid} (h : k.role = t) (ht : ∀ m, t ≠ .session m) : P :=
    absurd (h.symm.trans hrole) (ht n)
  cases o with
  | awaitSession => exact Or.inl rfl
  | note x => exact Or.inr ⟨x, rfl⟩
  | verb v =>
      have hfrees {P : Prop} (h : k.Frees) : P := happ h.app fun _ => Tid.noConfusion
      cases v with
      | regMr => exact hnot hm.works.stage
      | accept => exact hnot (hm hprovider).stage
      | createQp => exact hnot (hm hprovider).2.1
      | getCmEvent | allocPd => exact hnot (hm hprovider).2
      | destroyQp => exact (hm hprovider).elim (fun h => hnot h.2.1) hfrees
      | destroyId => exact (hm hprovider).elim (fun h => hnot h.1) hfrees
      | qpOf | disconnect | destroyCq | destroyEventChannel | dropPd =>
          exact (hm hprovider).elim hnot hfrees
      | _ => exact hnot (hm hprovider)
  | toSocketAddrs | armTimeouts | receive => exact hnot (hm hprovider)
  | send c m =>
      cases m with
      | tuples => exact hnot hm.1.stage
      | _ => exact hnot (hm hprovider)
  | tcpConnect | nextReaderCall =>
      rw [show k.role.isProvider = false from hm] at hprovider
      cases hprovider
  | deliver => exact happ hm fun _ => Tid.noConfusion
  | tcpAccept | isFinished | joinSession | spawnSession | tcpBind | isServing | nextAppCall
  | nextIdGet | spawnService => exact hnot hm.2
  | nextIdSet | ownersInsert | catalogInsert | takeService => exact hnot hm.2.1
  | loadShutdown => exact hnot hm.2.stage
  | catalogGet | catalogSnapshot | groupsGetPd => exact hnot hm.stage
  | tuplesGet => exact hnot hm.1.stage
  | tuplesInsert => exact hnot hm.works.stage
  | groupsPush => exact hnot hm.stage
  | setShutdown | joinService | tuplesClear | dropShared | dropOwners | awaitService =>
      exact happ hm.1 fun _ => Tid.noConfusion
  | exit =>
      rcases hm with ⟨hm, _⟩ | ⟨_, hm, _⟩
      · exact happ hm fun _ => Tid.noConfusion
      · exact hnot hm.stage

/-- The operations by which a connection is handed to a session thread. -/
def Op.hands : Op → Bool
  | .spawnSession _ _ | .awaitSession => true
  | _ => false

theorem post_handed (ho : o.hands = false) : (post t o a w).handed = w.handed := by
  have hsessions : (post t o a w).life.sessions = w.life.sessions := by
    by_cases hlife : o.writesLife = false
    · rw [(post_frame (t := t) (w := w) o a).life hlife]
    · cases o with
      | spawnSession => cases ho
      | takeService | spawnService | setShutdown => rfl
      | exit => cases t <;> rfl
      | _ => exact absurd rfl hlife
  funext u
  unfold World.handed
  rw [hsessions]

/-- Taking a connection over has nothing to do with a note of a thread of the provider. -/
theorem take_note {k : Party} {n : Nat} (hrole : k.role = .session n) {x : Note}
    (hk : k.may (.note x)) (c : Chan) (g : UInt32) :
    (k.take c g).may (.note x) ∧
      (k.next (.note x) ()).take c g = (k.take c g).next (.note x) () := by
  have hreader {P : Prop} (h : ∃ i, k.role = .reader i) : P := by
    obtain ⟨i, hi⟩ := h
    rw [hrole] at hi
    cases hi
  cases x with
  | updateBegins | ingested | updateReturns => exact hreader hk.1
  | registered | tupleOf | panicked => exact ⟨hk, rfl⟩

/-- A thread acts by what it knows. -/
theorem view_acts (hl : Lives w fun t => (κ t).1) (hr : ∀ t, (κ t).2.role = t) (ho : o.hands = false)
    (hm : may (κ t).1 o) (hk : (κ t).2.may o) :
    (view w κ t).may o ∧ view (post t o a w) (update κ t ((protocol.prod talks).next (κ t) o a)) =
      update (view w κ) t ((view w κ t).next o a) := by
  have hself : (view w κ t).may o ∧
      seen (next (κ t).1 o a, (κ t).2.next o a) (w.handed t) = (view w κ t).next o a := by
    unfold view
    by_cases hstage : (κ t).1.stage = .waiting
    · cases hhanded : w.handed t with
      | none => exact ⟨hk, rfl⟩
      | some e =>
          obtain ⟨c, g⟩ := e
          have hrole := hl.role t
          cases t with
          | app | service | reader | net => cases hhanded
          | session n =>
              -- it has not come up, and records something
              rcases waiting_may hrole hstage hm with rfl | ⟨x, rfl⟩
              · cases ho
              · have hafter : seen (next (κ (.session n)).1 (.note x) a,
                    (κ (.session n)).2.next (.note x) a) (some (c, g)) =
                      ((κ (.session n)).2.next (.note x) a).take c g := if_pos hstage
                rw [seen_waiting hstage, hafter]
                exact take_note (hr (.session n)) hk c g
    · rw [seen_working hstage, seen_working fun h => hstage (next_waiting h)]
      exact ⟨hk, rfl⟩
  refine ⟨hself.1, ?_⟩
  funext u
  show seen _ ((post t o a w).handed u) = _
  rw [post_handed ho]
  by_cases hu : u = t
  · subst hu
    rw [Function.update_self, Function.update_self]
    exact hself.2
  · rw [Function.update_of_ne hu, Function.update_of_ne hu]
    rfl

/-- A session thread comes up: it holds what it was handed. -/
theorem view_await (hl : Lives w fun t => (κ t).1) {a : Op.Ans .awaitSession}
    (hm : may (κ t).1 .awaitSession) (hc : can t .awaitSession w a) :
    view (post t .awaitSession a w) (update κ t ((protocol.prod talks).next (κ t) .awaitSession a)) =
      view w κ := by
  obtain ⟨⟨n, hrole⟩, hstage⟩ := hm
  have htid : t = .session n := (hl.role t).symm.trans hrole
  subst htid
  have hhanded : w.handed (.session n) = some a := hc
  funext u
  by_cases hu : u = .session n
  · subst hu
    unfold view
    rw [Function.update_self, hhanded]
    show seen _ (w.handed (.session n)) = _
    rw [hhanded, seen_waiting hstage, seen_working]
    · rfl
    · exact Stage.noConfusion
  · unfold view
    rw [Function.update_of_ne hu]
    rfl

/-- The service hands its connection to a new session thread. -/
theorem view_spawn (hl : Lives w fun t => (κ t).1) {c : Chan} {g : UInt32} {n : Nat}
    (hm : may (κ t).1 (.spawnSession c g)) (hc : can t (.spawnSession c g) w n) :
    view (post t (.spawnSession c g) n w)
        (update κ t ((protocol.prod talks).next (κ t) (.spawnSession c g) n)) =
      update (update (view w κ) .service { view w κ .service with line := none }) (.session n)
        ((view w κ (.session n)).take c g) := by
  have htid : t = .service := (hl.role t).symm.trans hm.1
  subst htid
  have hn : n = w.life.sessions.length := hc
  have hwaiting : (κ (.session n)).1.stage = .waiting :=
    hl.sessions.unspawned n (Nat.le_of_eq hn.symm)
  funext u
  have hold (hu : u ≠ .session n) :
      (post .service (.spawnSession c g) n w).handed u = w.handed u := by
    cases u with
    | session m =>
        show (w.life.sessions ++ [(c, g)])[m]? = w.life.sessions[m]?
        have hm : m ≠ w.life.sessions.length := fun h => hu (by rw [h, hn])
        rw [List.getElem?_append]
        split
        · rfl
        · next hlt =>
          have hlt : w.life.sessions.length < m :=
            Nat.lt_of_le_of_ne (Nat.not_lt.mp hlt) (Ne.symm hm)
          rw [List.getElem?_eq_none (Nat.le_of_lt hlt), List.getElem?_eq_none]
          exact Nat.le_sub_of_add_le (Nat.add_comm _ _ ▸ hlt)
    | app | service | reader | net => rfl
  by_cases hu : u = .session n
  · subst hu
    have hnone : w.handed (.session n) = none :=
      List.getElem?_eq_none (Nat.le_of_eq hn.symm)
    have hsome : (post .service (.spawnSession c g) n w).handed (.session n) = some (c, g) := by
      show (w.life.sessions ++ [(c, g)])[n]? = _
      rw [hn, List.getElem?_append_right (Nat.le_refl _), Nat.sub_self]
      rfl
    rw [Function.update_self]
    unfold view
    rw [hsome, hnone, Function.update_of_ne Tid.noConfusion, seen_waiting hwaiting]
    rfl
  · unfold view
    rw [hold hu, Function.update_of_ne hu]
    by_cases hservice : u = .service
    · subst hservice
      rw [Function.update_self, Function.update_self]
      rfl
    · rw [Function.update_of_ne hservice, Function.update_of_ne hservice]

end Views

/-! ## 3. Lines -/

/-- Who holds what: a thread its line, a reader also what it has parked. -/
def holds (V : Tid → Party) : Place → Option (Chan × Phase)
  | .thread t => (V t).line
  | .parked i g => (V (.reader i)).parked g

/-- The lines of the system, by what the threads know. -/
def linesOf (w : World) (V : Tid → Party) : Lines := ⟨w.tcp.chans, w.tcp.backlog, holds V⟩

/-- The operations that change what a thread holds. -/
def Op.relines : Op → Bool
  | .tcpConnect | .tcpAccept | .send _ _ | .receive _ | .spawnSession _ _ | .awaitSession => true
  | .note (.updateBegins _) | .note (.ingested _ _) | .note (.updateReturns _ _ _) => true
  | _ => false

section Lines

variable {w : World} {V : Tid → Party} {t : Tid} {o : Op} {a : o.Ans} {k : Party}

theorem next_line (ho : o.relines = false) (k : Party) (a : o.Ans) :
    (k.next o a).line = k.line ∧ (k.next o a).parked = k.parked := by
  cases o with
  | groupsPush => cases a <;> exact ⟨rfl, rfl⟩
  | tcpConnect | tcpAccept | send | receive | spawnSession | awaitSession => cases ho
  | note n =>
      cases n with
      | updateBegins | ingested | updateReturns => cases ho
      | registered | tupleOf | panicked => exact ⟨rfl, rfl⟩
  | verb v =>
      obtain ⟨refused, hk⟩ := k.next_verb v a
      rw [hk]
      exact ⟨rfl, rfl⟩
  | _ => exact ⟨rfl, rfl⟩

/-- A thread changes its line, and what it has parked stays. -/
theorem holds_line (hparked : k.parked = (V t).parked) :
    holds (update V t k) = update (holds V) (.thread t) k.line := by
  funext x
  cases x with
  | thread u =>
      by_cases hu : u = t
      · subst hu
        show (update V u k u).line = _
        rw [Function.update_self, Function.update_self]
      · show (update V t k u).line = _
        rw [Function.update_of_ne hu, Function.update_of_ne (by rintro ⟨⟩; exact hu rfl)]
        rfl
  | parked i g =>
      rw [Function.update_of_ne Place.noConfusion]
      show (update V t k (.reader i)).parked g = (V (.reader i)).parked g
      by_cases hu : .reader i = t
      · subst hu
        rw [Function.update_self, hparked]
      · rw [Function.update_of_ne hu]

theorem holds_same (hline : k.line = (V t).line) (hparked : k.parked = (V t).parked) :
    holds (update V t k) = holds V := by
  rw [holds_line hparked, hline]
  exact Function.update_eq_self _ _

/-- A reader takes up what it has parked of a group. -/
theorem holds_begin {i : Nat} {g : UInt32} (hline : k.line = (V (.reader i)).parked g)
    (hparked : k.parked = update (V (.reader i)).parked g none) :
    holds (update V (.reader i) k) =
      update (update (holds V) (.parked i g) none) (.thread (.reader i))
        (holds V (.parked i g)) := by
  funext x
  cases x with
  | thread u =>
      by_cases hu : u = .reader i
      · subst hu
        rw [Function.update_self]
        show (update V (.reader i) k (.reader i)).line = _
        rw [Function.update_self, hline]
        rfl
      · rw [Function.update_of_ne (by rintro ⟨⟩; exact hu rfl),
          Function.update_of_ne Place.noConfusion]
        show (update V (.reader i) k u).line = (V u).line
        rw [Function.update_of_ne hu]
  | parked i' g' =>
      rw [Function.update_of_ne Place.noConfusion]
      show (update V (.reader i) k (.reader i')).parked g' = _
      by_cases hi : i' = i
      · subst hi
        rw [Function.update_self, hparked]
        by_cases hg : g' = g
        · subst hg
          rw [Function.update_self, Function.update_self]
        · rw [Function.update_of_ne hg, Function.update_of_ne (by rintro ⟨⟩; exact hg rfl)]
          rfl
      · rw [Function.update_of_ne (by rintro ⟨⟩; exact hi rfl),
          Function.update_of_ne (by rintro ⟨⟩; exact hi rfl)]
        rfl

/-- A reader parks its connection. -/
theorem holds_park {i : Nat} {g : UInt32} (hline : k.line = none)
    (hparked : k.parked = update (V (.reader i)).parked g (V (.reader i)).line) :
    holds (update V (.reader i) k) =
      update (update (holds V) (.thread (.reader i)) none) (.parked i g)
        (holds V (.thread (.reader i))) := by
  funext x
  cases x with
  | thread u =>
      rw [Function.update_of_ne Place.noConfusion]
      show (update V (.reader i) k u).line = _
      by_cases hu : u = .reader i
      · subst hu
        rw [Function.update_self, Function.update_self, hline]
      · rw [Function.update_of_ne hu, Function.update_of_ne (by rintro ⟨⟩; exact hu rfl)]
        rfl
  | parked i' g' =>
      show (update V (.reader i) k (.reader i')).parked g' = _
      by_cases hi : i' = i
      · subst hi
        rw [Function.update_self, hparked]
        by_cases hg : g' = g
        · subst hg
          rw [Function.update_self, Function.update_self]
          rfl
        · rw [Function.update_of_ne hg, Function.update_of_ne (by rintro ⟨⟩; exact hg rfl),
            Function.update_of_ne Place.noConfusion]
          rfl
      · rw [Function.update_of_ne (by rintro ⟨⟩; exact hi rfl),
          Function.update_of_ne (by rintro ⟨⟩; exact hi rfl), Function.update_of_ne Place.noConfusion]
        rfl

/-- Who may say something in a phase is whose turn it is. -/
theorem Party.Says.turn {p : Phase} {m : Message} (h : k.Says p m) : p.turn = k.role.isProvider := by
  unfold Party.Says at h
  split at h
  · next hp =>
    rw [hp]
    cases p with
    | greeted | asked | told => rfl
    | fresh | idle => exact h.elim
  · next hp =>
    rw [Bool.eq_false_of_not_eq_true hp]
    cases p with
    | fresh => rfl
    | idle j => cases j <;> rfl
    | greeted | asked | told => exact h.elim

/-- A receive is from the queue of its connection. -/
theorem can_receive {c : Chan} {a : Op.Ans (.receive c)} (hc : can t (.receive c) w a) :
    ∃ s, w.tcp.chans[c]? = some s ∧ receiveCan (s.queue t.isProvider) a := by
  simp only [can] at hc
  split at hc
  · next s hs => exact ⟨s, hs, hc⟩
  · exact hc.elim

/-- **An operation is a step of the conversations**, or leaves the lines as they are. -/
theorem lines_acts (hrole : (V t).role = t) (hm : (V t).may o) (hh : o.hands = false)
    (hc : can t o w a) (hfit : FramesFit t o w a) :
    linesOf (post t o a w) (update V t ((V t).next o a)) = linesOf w V ∨
      LineStep (linesOf w V) (linesOf (post t o a w) (update V t ((V t).next o a))) := by
  by_cases ho : o.relines = false
  · left
    have htcp : (post t o a w).tcp = w.tcp := by
      refine (post_frame (t := t) (w := w) o a).tcp ?_
      cases o with
      | tcpConnect | tcpAccept | send | receive => cases ho
      | _ => rfl
    obtain ⟨hline, hparked⟩ := next_line ho (V t) a
    unfold linesOf
    rw [htcp, holds_same hline hparked]
  have hsame (htcp : (post t o a w).tcp = w.tcp) (hk : (V t).next o a = V t) :
      linesOf (post t o a w) (update V t ((V t).next o a)) = linesOf w V := by
    unfold linesOf
    rw [htcp, hk, Function.update_eq_self]
  have hmoved {hold : Place → Option (Chan × Phase)}
      (hholds : holds (update V t ((V t).next o a)) = hold)
      (hstep : LineStep (linesOf w V) ⟨(post t o a w).tcp.chans, (post t o a w).tcp.backlog, hold⟩) :
      linesOf (post t o a w) (update V t ((V t).next o a)) = linesOf w V ∨
        LineStep (linesOf w V) (linesOf (post t o a w) (update V t ((V t).next o a))) := by
    subst hholds
    exact Or.inr hstep
  cases o with
  | tcpConnect =>
      obtain ⟨i, g, hreader, _⟩ := hm
      have htid : t = .reader i := hrole.symm.trans hreader
      subst htid
      cases a with
      | error e => exact Or.inl (hsame rfl rfl)
      | ok c =>
          have hc : c = w.tcp.chans.length := hc
          subst hc
          exact hmoved (holds_line rfl) (.connect (.thread (.reader i)) i rfl)
  | tcpAccept =>
      have htid : t = .service := hrole.symm.trans hm
      subst htid
      cases a with
      | none => exact Or.inl (hsame rfl rfl)
      | some c =>
          exact hmoved (holds_line rfl) (.accept (.thread .service) rfl hc)
  | send c m =>
      obtain ⟨p, hline, hspoken⟩ := hm
      have hturn : p.turn = t.isProvider := hspoken.turn.trans (congrArg Tid.isProvider hrole)
      obtain ⟨result, n⟩ := a
      cases result with
      | ok u =>
          have hn : n = m.encode.length := hc.2
          subst hn
          have hnext :
              ((V t).next (.send c m) (.ok (), m.encode.length)).line = some (c, p.next) := by
            rw [Party.next_sent hline]
          exact hmoved (hnext ▸ holds_line rfl)
            (.send (.thread t) w.now m hline hturn (frames_reads (hfit m rfl)))
      | error e =>
          exact hmoved (holds_line rfl)
            (.cut (.thread t) w.now m e n hline (frames_cut (hfit m rfl) hc.2))
  | receive c =>
      obtain ⟨p, hline, hturn⟩ := hm
      have hturn : p.turn = !t.isProvider := hturn.trans (by rw [hrole])
      obtain ⟨s, hs, hc⟩ := can_receive hc
      obtain ⟨result, n⟩ := a
      cases result with
      | ok m =>
          have hnext : ((V t).hears m).line = some (c, p.next) ∧
              ((V t).hears m).parked = (V t).parked := by
            unfold Party.hears
            rw [hline]
            exact ⟨rfl, rfl⟩
          exact hmoved (hnext.1 ▸ holds_line (k := (V t).hears m) hnext.2)
            (.receive (.thread t) m n hline hturn hs hc)
      | error e =>
          exact hmoved (holds_line rfl) (.lost (.thread t) e n hline)
  | spawnSession | awaitSession => cases hh
  | note x =>
      have hreader (h : ∃ i, (V t).role = .reader i) : ∃ i, t = .reader i := by
        obtain ⟨i, hi⟩ := h
        exact ⟨i, hrole.symm.trans hi⟩
      cases x with
      | updateBegins g =>
          obtain ⟨i, rfl⟩ := hreader hm.1
          exact hmoved (holds_begin rfl rfl) (.hand (.parked i g) (.thread (.reader i)) rfl)
      | ingested g result =>
          obtain ⟨i, rfl⟩ := hreader hm.1
          exact hmoved (holds_park rfl rfl) (.hand (.thread (.reader i)) (.parked i g) rfl)
      | updateReturns g result st =>
          exact hmoved (holds_line rfl) (.forget (.thread t))
      | registered | tupleOf | panicked => exact absurd rfl ho
  | _ => exact absurd rfl ho

theorem lines_spawn {c : Chan} {g : UInt32} {n : Nat}
    (hline : (V .service).line = some (c, .idle 1)) :
    LineStep (linesOf w V) (linesOf (post t (.spawnSession c g) n w)
      (update (update V .service { V .service with line := none }) (.session n)
        ((V (.session n)).take c g))) := by
  have hstep := LineStep.hand (L := linesOf w V) (.thread .service) (.thread (.session n)) rfl
  have hholds : holds (update (update V .service { V .service with line := none }) (.session n)
      ((V (.session n)).take c g)) =
        update (update (holds V) (.thread .service) none) (.thread (.session n))
          (holds V (.thread .service)) := by
    rw [holds_line (V := update V .service { V .service with line := none })]
    · rw [holds_line (V := V) (k := { V .service with line := none }) rfl]
      congr 1
      exact hline.symm
    · rw [Function.update_of_ne Tid.noConfusion]
      rfl
  show LineStep _ ⟨w.tcp.chans, w.tcp.backlog, _⟩
  rw [hholds]
  exact hstep

end Lines

/-! ## 4. Every run -/

section Runs

variable {w : World} {κ : Tid → Both} {prog : Tid → Code (Option Loop)}

/-- A run of the fitting system, with what its threads know. -/
abbrev Talked (w : World) (prog : Tid → Code (Option Loop)) (κ : Tid → Both) : Prop :=
  fitting.Watched (protocol.prod talks) {} firstLoop firstBoth w prog κ

/-- It is a run of the system. -/
theorem Talked.watched (h : Talked w prog κ) :
    provider.Watched protocol {} firstLoop firstKnow w prog fun t => (κ t).1 := h.unrestrict.fst

theorem party_roles (h : Talked w prog κ) : ∀ t, (κ t).2.role = t :=
  h.invariant (I := fun _ κ => ∀ t, (κ t).2.role = t) fitting_follows bothEntry_first (fun _ => rfl)
    fun _ hr t o a _ _ u => by
      rw [proj_update (fun κ : Both => κ.2.role) (party_role _ o a) u]
      exact hr u

/-- **The rule for what the conversations keep**: it holds at the start, a thread that acts keeps
    it, and so does the service when it hands its connection to a session thread. -/
theorem Talked.invariant {I : World → (Tid → Party) → Prop} (hstart : I {} firstParty)
    (hacts : ∀ {w κ prog}, Talked w prog κ → I w (view w κ) → ∀ t o (a : o.Ans), o.hands = false →
      may (κ t).1 o → (view w κ t).may o → can t o w a → FramesFit t o w a →
        I (post t o a w) (update (view w κ) t ((view w κ t).next o a)))
    (hspawn : ∀ {w κ prog}, Talked w prog κ → I w (view w κ) → ∀ c g n,
      may (κ .service).1 (.spawnSession c g) → (view w κ .service).line = some (c, .idle 1) →
        (view w κ .service).group = some g → (view w κ .service).joined = some g →
          I (post .service (.spawnSession c g) n w)
            (update (update (view w κ) .service { view w κ .service with line := none }) (.session n)
              ((view w κ (.session n)).take c g)))
    (h : Talked w prog κ) : I w (view w κ) := by
  refine System.Watched.invariant (I := fun w κ => I w (view w κ)) fitting_follows bothEntry_first
    ?_ (fun {w prog κ} hw hI t o a hm hc => ?_) h
  · have hfirst : view {} firstBoth = firstParty := by
      funext t
      unfold view
      cases t with
      | session n => rfl
      | app | service | reader | net => rfl
    show I {} (view {} firstBoth)
    rw [hfirst]
    exact hstart
  · have hlives := lives_watched (Talked.watched hw)
    have hroles := party_roles hw
    by_cases ho : o.hands = false
    · obtain ⟨hmay, hview⟩ := view_acts (a := a) hlives hroles ho hm.1 hm.2
      show I (post t o a w) (view (post t o a w) (update κ t ((protocol.prod talks).next (κ t) o a)))
      rw [hview]
      exact hacts hw hI t o a ho hm.1 hmay hc.1 hc.2
    · cases o with
      | awaitSession =>
          show I (post t .awaitSession a w) (view (post t .awaitSession a w)
            (update κ t ((protocol.prod talks).next (κ t) .awaitSession a)))
          rw [view_await hlives hm.1 hc.1]
          exact hI
      | spawnSession c g =>
          have htid : t = .service := (hlives.role t).symm.trans hm.1.1
          subst htid
          show I (post .service (.spawnSession c g) a w) (view (post .service (.spawnSession c g) a w)
            (update κ .service ((protocol.prod talks).next (κ .service) (.spawnSession c g) a)))
          rw [view_spawn hlives hm.1 hc.1]
          obtain ⟨_, hline, hgroup, hjoined⟩ := hm.2
          exact hspawn hw hI c g a hm.1 hline hgroup hjoined
      | _ => exact absurd rfl ho

/-- What the conversations are at any time. -/
structure Conversing (w : World) (V : Tid → Party) : Prop where
  role : ∀ t, (V t).role = t
  sound : Sound (linesOf w V)
  ordered : (linesOf w V).Ordered

theorem conversing_start : Conversing {} firstParty where
  role _ := rfl
  sound :=
    { counts := fun {x c p} h => by cases x <;> cases h
      apart := fun {x y c p q} h => by cases x <;> cases h
      nodup := List.nodup_nil
      waiting := fun c h => by cases h
      unheld := fun c h => by cases h
      stream := fun {c s b} h => by cases h
      asked := fun s h => by cases h }
  ordered s h := by cases h

/-- **In every run the conversations are in order.** -/
theorem conversing_watched (h : Talked w prog κ) : Conversing w (view w κ) := by
  refine h.invariant (I := Conversing) conversing_start
    (fun {w κ prog} _ hI t o a ho _ hm hc hfit => ?_) fun {w κ prog} _ hI c g n _ hline _ _ => ?_
  · have hrole (u : Tid) : (update (view w κ) t ((view w κ t).next o a) u).role = u := by
      rw [proj_update Party.role (party_role _ o a) u]
      exact hI.role u
    rcases lines_acts (hI.role t) hm ho hc hfit with hsame | hstep
    · exact ⟨hrole, hsame ▸ hI.sound, hsame ▸ hI.ordered⟩
    · exact ⟨hrole, hI.sound.step hstep, hI.sound.ordered hstep hI.ordered⟩
  · have hstep := lines_spawn (w := w) (t := .service) (g := g) (n := n) hline
    refine ⟨fun u => ?_, hI.sound.step hstep, hI.sound.ordered hstep hI.ordered⟩
    rw [proj_update Party.role (k := (view w κ (.session n)).take c g)
      (by rw [Function.update_of_ne Tid.noConfusion]; rfl) u, proj_update Party.role (by rfl) u]
    exact hI.role u

end Runs

end Rdmalib
