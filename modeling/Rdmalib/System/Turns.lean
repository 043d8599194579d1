/-
  File:      Rdmalib/System/Turns.lean
  Subject:   Who says what on a connection of the metadata protocol, and when.

  * `opening` -- the protocol in which the first thing said on a connection is a greeting; every
    loop of the code follows it (`provider_opens`);
  * `Script` -- what either side says, message by message; `allowed` -- how much it may have said by
    what it has got;
  * results: on every connection both sides keep to the script and to their turns, and get what the
    other has said (`conversations_conform`); of two threads at a connection one is at each end, at
    most one of them speaks, and if both listen there is something to hear (`one_end_proceeds`).
-/
import Rdmalib.System.Endurance
import Rdmalib.System.Frames
import Rdmalib.System.Snapshots

namespace Rdmalib

open Base

open Function (update)

/-! ## 1. Openings -/

/-- What a thread knows of the connection it opened last: whether it has said something on it. -/
structure Opening where
  role : Tid
  opened : Bool := false

namespace Opening

/-- The greeting of the thread's side. -/
def words (k : Opening) : Message :=
  if k.role.isProvider then .welcome PROTOCOL_VERSION else .hello PROTOCOL_VERSION

def may (k : Opening) : Op → Prop
  | .send _ m => k.opened = true → m = k.words
  | _ => True

def next (k : Opening) : (o : Op) → o.Ans → Opening
  | .tcpConnect, .ok _ => { k with opened := true }
  | .tcpAccept, some _ => { k with opened := true }
  | .send _ _, _ => { k with opened := false }
  | .note (.updateBegins _), _ => { k with opened := false }
  | _, _ => k

theorem next_role (k : Opening) (o : Op) (a : o.Ans) : (k.next o a).role = k.role := by
  fun_cases Opening.next <;> rfl

end Opening

/-- **The first thing said on a connection is the greeting.** -/
def opening : Protocol Op Op.Ans Opening where
  may := Opening.may
  next := Opening.next

/-- An operation that opens no connection. -/
def Op.Steady : Op → Prop
  | .tcpConnect | .tcpAccept => False
  | _ => True

section Moves

variable {k : Opening} {α : Type} {c : Chan} {g : UInt32}

@[simp] theorem follows_opening {o : Op} {Q : Opening → o.Ans → Prop} :
    Follows opening k (perform o) Q ↔ k.may o ∧ ∀ a, Q (k.next o a) a := Iff.rfl

theorem steady_of {C : Op → Prop} (hconnect : ¬ C .tcpConnect) (haccept : ¬ C .tcpAccept) (o : Op)
    (h : C o) : o.Steady := by
  cases o with
  | tcpConnect => exact hconnect h
  | tcpAccept => exact haccept h
  | _ => trivial

/-- Code that opens no connection goes on without one. -/
theorem steady_opens {x : Code α} (h : Only Op.Steady x) (hk : k.opened = false) :
    Follows opening k x fun k' _ => k'.opened = false := by
  refine h.follows (I := fun k' : Opening => k'.opened = false)
    (fun k' o ho hk' => ⟨?_, fun a => ?_⟩) hk
  · cases o with
    | send c m => exact fun hopened => absurd (hk'.symm.trans hopened) Bool.false_ne_true
    | _ => trivial
  · show (k'.next o a).opened = false
    fun_cases Opening.next with
    | case1 | case2 => exact ho.elim
    | case3 | case4 => rfl
    | case5 => exact hk'

/-- It says what it likes. -/
theorem steady_follows {x : Code α} (h : Only Op.Steady x) (hk : k.opened = false) :
    Follows opening k x fun _ _ => True := (steady_opens h hk).mono fun _ _ _ => trivial

theorem mute_opens {x : Code α} (h : Only Op.Mute x) : Follows opening k x fun _ _ => True :=
  h.follows (I := fun _ => True) (fun _ o ho _ => ⟨by cases o <;> trivial, fun _ => trivial⟩)
    trivial

/-- A message goes out: on a new connection, the greeting. -/
theorem send_opens {m : Message} (h : k.opened = true → m = k.words) :
    Tries opening k (Channel.send c m) (fun k' _ => k' = { k with opened := false })
      fun _ _ => True := by
  unfold Channel.send
  rw [tries_bind, tries_lift]
  refine ⟨h, fun a => ?_⟩
  obtain ⟨a, n⟩ := a
  cases a with
  | ok u => exact rfl
  | error e => exact trivial

theorem receive_opens :
    Tries opening k (Channel.receive c) (fun k' _ => k' = k) fun _ _ => True := by
  unfold Channel.receive
  rw [tries_bind, tries_lift]
  refine ⟨trivial, fun a => ?_⟩
  obtain ⟨a, n⟩ := a
  cases a with
  | ok m => exact rfl
  | error e => exact trivial

theorem new_opens : Tries opening k (Channel.new c) (fun k' _ => k' = k) fun _ _ => True := by
  unfold Channel.new
  rw [tries_bind, tries_lift]
  refine ⟨trivial, fun armed => ?_⟩
  cases armed with
  | ok u => exact rfl
  | error e => exact trivial

end Moves

/-! ## 2. The threads -/

section Threads

variable {k : Opening} {c : Chan} {g : UInt32} {st : RemoteMemoryProvider}

theorem words_welcome (h : k.role.isProvider = true) : k.words = .welcome PROTOCOL_VERSION :=
  if_pos h

theorem words_hello (h : k.role.isProvider = false) : k.words = .hello PROTOCOL_VERSION := by
  unfold Opening.words
  rw [h]
  rfl

theorem greet_opens (hrole : k.role.isProvider = true) :
    Tries opening k (Service.greet c) (fun k' _ => k'.opened = false) fun _ _ => True := by
  unfold Service.greet
  rw [tries_bind]
  refine receive_opens.mono (fun k' m hk' => ?_) fun _ _ _ => trivial
  subst hk'
  cases m with
  | hello version =>
      by_cases hversion : version = PROTOCOL_VERSION
      · simp only [if_pos hversion]
        refine (send_opens fun _ => ?_).mono (fun _ _ h => h ▸ rfl) fun _ _ h => h
        rw [words_welcome hrole, hversion]
      · simp only [if_neg hversion]
        exact trivial
  | welcome | wantGroup | update | metadata | tuples => exact trivial

/-- What follows the greeting opens nothing. -/
theorem handshake_opens {listener : Nat} (hrole : k.role.isProvider = true) :
    Follows opening k (Service.handshake listener c).run fun _ _ => True := by
  rw [follows_run]
  unfold Service.handshake
  rw [tries_bind]
  refine new_opens.mono (fun k₁ c' hk₁ => ?_) fun _ _ _ => trivial
  subst hk₁
  rw [tries_bind]
  refine (greet_opens hrole).mono (fun k₂ _ hopened => ?_) fun _ _ _ => trivial
  refine follows_run.mp (steady_follows ?_ hopened)
  have hjoin : Only Op.Steady (Service.join c').run := by
    refine only_try (receive_within c' trivial) fun m => ?_
    cases m with
    | hello | welcome | wantGroup | update | metadata | tuples => exact only_pure
  refine only_try hjoin fun group => ?_
  refine only_try (rendezvous_within trivial (steady_of id id)) fun conn => ?_
  refine only_try (only_perform (o := Op.groupsPush group conn) trivial) fun _ => ?_
  refine only_try (only_lift (catalogAndTuples_within group trivial (steady_of id id))) fun _ => ?_
  refine only_try (send_within c' _ trivial) fun _ => ?_
  refine only_try (send_within c' _ trivial) fun _ => ?_
  exact only_lift (only_perform (o := Op.spawnSession c' group) trivial)

theorem serviceRun_opens {listener : Nat} {sessions : List Nat} (hrole : k.role.isProvider = true) :
    Follows opening k (Service.run listener sessions) fun _ _ => True := by
  have hretain {k' : Opening} (sessions : List Nat) : Follows opening k' (do
      return some (Loop.service listener (← Service.retainRunning sessions)) : Code (Option Loop))
      fun _ _ => True :=
    mute_opens (only_bind (retainRunning_only (fun _ => trivial) sessions) fun _ => only_pure)
  unfold Service.run
  rw [follows_bind, follows_opening]
  refine ⟨trivial, fun shutdown => ?_⟩
  cases shutdown with
  | true =>
      exact mute_opens (only_bind (joinAll_only (fun _ => trivial) sessions) fun _ =>
        only_bind (only_perform trivial) fun _ => only_pure)
  | false =>
  rw [if_neg Bool.false_ne_true, follows_bind, follows_opening]
  refine ⟨trivial, fun accepted => ?_⟩
  cases accepted with
  | none => exact hretain sessions
  | some stream =>
  simp only
  rw [follows_bind]
  refine (handshake_opens (k := k.next .tcpAccept (some stream)) hrole).mono fun k' r _ => ?_
  rcases r with (e | _) | session
  · exact hretain sessions
  · exact ⟨trivial, fun _ => trivial⟩
  · exact hretain _

theorem leave_steady (e : Fault) : Only Op.Steady (SessionThread.leave e) := by
  have hexit : Only Op.Steady (do perform .exit; return none : Code (Option Loop)) :=
    only_bind (only_perform trivial) fun _ => only_pure
  cases e with
  | err e => exact hexit
  | panic => exact only_bind (only_perform trivial) fun _ => hexit

theorem waitForUpdates_steady : Only Op.Steady (SessionThread.waitForUpdates c g) := by
  have hexit : Only Op.Steady (do perform .exit; return none : Code (Option Loop)) :=
    only_bind (only_perform trivial) fun _ => only_pure
  unfold SessionThread.waitForUpdates
  refine only_bind (only_perform trivial) fun shutdown => ?_
  cases shutdown with
  | true => exact hexit
  | false =>
  refine only_bind (receive_within c trivial) fun r => ?_
  rcases r with e | m
  · exact leave_steady e
  cases m with
  | hello | welcome | wantGroup | metadata | tuples => exact hexit
  | update =>
      refine only_bind (catalogAndTuples_within g trivial (steady_of id id)) fun exchange => ?_
      have hsends (exchange : Message × Message) : Only Op.Steady (do
          Channel.send c exchange.1
          Channel.send c exchange.2 : Sys Unit).run :=
        only_try (send_within c _ trivial) fun _ => send_within c _ trivial
      refine only_bind (hsends exchange) fun sent => ?_
      cases sent with
      | error e => exact leave_steady e
      | ok u => exact only_pure

theorem readerGreet_opens (hrole : k.role.isProvider = false) :
    Tries opening k (RemoteMemoryProvider.greet g) (fun k' _ => k'.opened = false)
      fun _ _ => True := by
  have hconnect :
      Tries opening k Channel.connect (fun k' _ => k'.role = k.role) fun _ _ => True := by
    unfold Channel.connect
    rw [tries_bind, tries_lift]
    refine ⟨trivial, fun a => ?_⟩
    cases a with
    | error e => exact trivial
    | ok c => exact new_opens.mono (fun _ _ h => h ▸ rfl) fun _ _ h => h
  unfold RemoteMemoryProvider.greet
  rw [tries_bind]
  refine hconnect.mono (fun k₁ c hrole₁ => ?_) fun _ _ h => h
  rw [tries_bind]
  refine (send_opens fun _ => ?_).mono (fun k₂ _ hk₂ => ?_) fun _ _ h => h
  · rw [words_hello (by rw [hrole₁, hrole])]
  rw [tries_bind]
  refine receive_opens.mono (fun k₃ m hk₃ => ?_) fun _ _ h => h
  have hopened : k₃.opened = false := by rw [hk₃, hk₂]
  cases m with
  | welcome version =>
      simp only
      split
      · exact trivial
      · rw [tries_bind]
        refine (send_opens fun h => absurd (hopened.symm.trans h) Bool.false_ne_true).mono
          (fun _ _ h => h ▸ rfl) fun _ _ h => h
  | hello | wantGroup | update | metadata | tuples => exact trivial

theorem receiveExchange_steady : Only Op.Steady (receiveExchange c).run :=
  only_try (receive_within c trivial) fun _ =>
    only_try (receive_within c trivial) fun _ => only_pure

theorem ingestNoted_steady (exchange : Message × Message) :
    Only Op.Steady (st.ingestNoted g exchange) :=
  only_bind (only_perform trivial) fun _ => only_pure

theorem freshSession_opens (hrole : k.role.isProvider = false) :
    Follows opening k (st.freshSession g) fun _ _ => True := by
  unfold RemoteMemoryProvider.freshSession
  rw [follows_bind, follows_run]
  refine (readerGreet_opens hrole).mono (fun k₁ c hopened => ?_) fun _ _ _ => trivial
  refine steady_follows ?_ hopened
  refine only_bind (connect_only.mono (steady_of id id)) fun connected => ?_
  cases connected with
  | error e => exact only_pure
  | ok conn =>
  -- the old connection is dropped, if there is one
  dsimp only
  cases (st.session g).connection.connection with
  | none =>
      refine only_bind receiveExchange_steady fun r => ?_
      cases r with
      | error e => exact only_pure
      | ok exchange => exact ingestNoted_steady exchange
  | some old =>
      refine only_bind ((connectionDrop_only old).mono (steady_of id id)) fun _ => ?_
      refine only_bind receiveExchange_steady fun r => ?_
      cases r with
      | error e => exact only_pure
      | ok exchange => exact ingestNoted_steady exchange

theorem update_opens (hrole : k.role.isProvider = false) (hopened : k.opened = false) :
    Follows opening k (st.update g) fun _ _ => True := by
  unfold RemoteMemoryProvider.update
  dsimp only
  split
  · next c hc =>
    refine steady_follows ?_ hopened
    refine only_bind
      (only_try (send_within c _ trivial) fun _ => receiveExchange_steady) fun r => ?_
    cases r with
    | ok exchange => exact ingestNoted_steady exchange
    | error e => exact only_pure
  · exact freshSession_opens hrole

theorem readerTurn_opens (hrole : k.role.isProvider = false) :
    Follows opening k (readerTurn st) fun _ _ => True := by
  unfold readerTurn
  rw [follows_bind, follows_opening]
  refine ⟨trivial, fun call => ?_⟩
  cases call with
  | update g =>
      simp only
      rw [follows_bind, follows_opening]
      refine ⟨trivial, fun _ => ?_⟩
      rw [follows_bind]
      exact (update_opens (k := k.next (.note (.updateBegins g)) ()) hrole rfl).mono
        fun k' r _ => ⟨trivial, fun _ => trivial⟩
  | drop =>
      exact mute_opens
        (only_bind ((dropConnections_still _).mono fun _ => mute_of_still) fun _ => only_pure)

/-- A loop that the protocol of the system lets a thread of this role run; a session thread opens
    no connection. -/
structure Opening.Enters (k : Opening) (l : Loop) : Prop where
  runs : ∃ know, entry know l ∧ know.role = k.role
  session : ∀ n, k.role = .session n → k.opened = false

/-- **Every loop of the code greets first.** -/
theorem provider_opens : provider.Follows opening Opening.Enters where
  turn k l h := by
    obtain ⟨⟨know, hentry, hrole⟩, hsession⟩ := h
    have hnext := (provider_follows.turn know l hentry).keeps Know.role next_role
    have hgreets : Follows opening k (code l) fun k' _ =>
        ∀ n, k.role = .session n → k'.opened = false := by
      -- only a session thread has something to keep
      have hother {t : Tid} {p : Code (Option Loop)} (hp : Follows opening k p fun _ _ => True)
          (ht : know.role = t) (hn : ∀ n, t ≠ .session n) :
          Follows opening k p fun k' _ => ∀ n, k.role = .session n → k'.opened = false :=
        hp.mono fun _ _ _ n h => absurd (ht.symm.trans (hrole.trans h)) (hn n)
      have hkept {p : Code (Option Loop)} (hp : Only Op.Steady p)
          (ht : ∃ n, know.role = .session n) :
          Follows opening k p fun k' _ => ∀ n, k.role = .session n → k'.opened = false := by
        obtain ⟨n, ht⟩ := ht
        exact (steady_opens hp (hsession n (hrole.symm.trans ht))).mono fun _ _ h _ _ => h
      cases l with
      | app => exact hother (mute_opens appTurn_only) hentry.1 fun _ => Tid.noConfusion
      | serviceStart =>
          exact hother (mute_opens (only_bind (only_perform trivial) fun _ => only_pure)) hentry.1
            fun _ => Tid.noConfusion
      | service listener sessions =>
          refine hother (serviceRun_opens ?_) hentry.1 fun _ => Tid.noConfusion
          rw [← hrole, hentry.1]
          rfl
      | sessionStart =>
          exact hkept (only_bind (only_perform trivial) fun _ => only_pure) hentry.1
      | session c g => exact hkept waitForUpdates_steady hentry.1
      | reader st =>
          obtain ⟨i, hi⟩ := hentry
          refine hother (readerTurn_opens ?_) hi fun _ => Tid.noConfusion
          rw [← hrole, hi]
          rfl
      | net =>
          exact hother (mute_opens (only_bind (only_perform trivial) fun _ => only_pure)) hentry
            fun _ => Tid.noConfusion
    refine ((hgreets.keeps Opening.role Opening.next_role).both hnext).mono fun k' r hr l' hl' => ?_
    obtain ⟨⟨hopened, hk'⟩, know', hl, hknow'⟩ := hr
    exact ⟨⟨know', hl l' hl', by rw [hknow', hrole, hk']⟩, fun n hn => hopened n (hk' ▸ hn)⟩

end Threads

/-! ## 3. The script -/

/-- What a side says as its `i`-th message when the group is `g`; the provider's side is `true`. -/
def Script (g : UInt32) : Bool → Nat → Message → Prop
  | false, 0, m => m = .hello PROTOCOL_VERSION
  | false, 1, m => m = .wantGroup g
  | false, _ + 2, m => m = .update
  | true, 0, m => m = .welcome PROTOCOL_VERSION
  | true, i + 1, m =>
      if i % 2 = 0 then ∃ regions, m = .metadata regions else ∃ ts, m = .tuples g ts

/-- How much a side may have said once it has got `n` messages: a reader its greeting, and a request
    after the reply and after each exchange; the provider its reply, and two messages for each
    request. -/
def allowed : Bool → Nat → Nat
  | false, n => (n + 1) / 2 + 1
  | true, n => 2 * n - 1

theorem allowed_mono (b : Bool) {m n : Nat} (h : m ≤ n) : allowed b m ≤ allowed b n := by
  cases b with
  | false =>
      show (m + 1) / 2 + 1 ≤ (n + 1) / 2 + 1
      omega
  | true =>
      show 2 * m - 1 ≤ 2 * n - 1
      omega

/-- Whose turn it is may speak. -/
theorem said_allowed (p : Phase) : p.said p.turn + 1 ≤ allowed p.turn (p.said !p.turn) := by
  cases p <;> simp [Phase.said, Phase.turn, allowed] <;> omega

namespace ChanState

variable {s : ChanState} {b : Bool} {i n : Nat} {m : Message} {now : Instant}

/-- The message is in the script, of the group that the provider was asked for. -/
def Due (s : ChanState) (b : Bool) (i : Nat) (m : Message) : Prop :=
  ∃ g, Script g b i m ∧ (b = true → i ≠ 0 → s.recvP[1]? = some (.wantGroup g))

/-- **Both sides keep to the script and to their turns.** -/
structure Conforms (s : ChanState) : Prop where
  said : ∀ b i m, (s.sent b)[i]? = some m → s.Due b i m
  turns : ∀ b, (s.sent b).length ≤ allowed b (s.got b).length

theorem Due.grown {s' : ChanState} (h : s.Due b i m) (hg : s.Grown s') : s'.Due b i m := by
  obtain ⟨g, hscript, hgroup⟩ := h
  exact ⟨g, hscript, fun hb hi => kept_at (hg.got true) (hgroup hb hi)⟩

theorem conforms_new (i : Nat) : Conforms { owner := i } where
  said b i m hm := by cases b <;> cases hm
  turns b := by cases b <;> exact Nat.zero_le _

/-- Getting a message, or part of one, is always in turn. -/
theorem Conforms.grown {s' : ChanState} (h : s.Conforms) (hg : s.Grown s')
    (hsent : ∀ b, s'.sent b = s.sent b) : s'.Conforms where
  said b i m hm := (h.said b i m (hsent b ▸ hm)).grown hg
  turns b := by
    rw [hsent b]
    exact (h.turns b).trans (allowed_mono b (hg.got b).length_le)

theorem Conforms.receive (h : s.Conforms) (a : Except IoError Message × Nat) :
    (s.receive b a).Conforms := h.grown (receive_grown a) receive_other.1

theorem Conforms.cut (h : s.Conforms) {e : IoError} : (s.send b now m (.error e, n)).Conforms := by
  refine h.grown (send_grown _) fun b' => ?_
  by_cases hb : b' = b
  · rw [hb, cut_sent]
  · rw [Bool.eq_not.mpr hb, send_other.1]

/-- A message in turn. -/
theorem Conforms.say (h : s.Conforms) (hdue : s.Due b (s.sent b).length m)
    (hturn : (s.sent b).length + 1 ≤ allowed b (s.got b).length) :
    (s.send b now m (.ok (), n)).Conforms := by
  have hgrown : s.Grown (s.send b now m (.ok (), n)) := send_grown _
  refine ⟨fun b' i m' hm' => ?_, fun b' => ?_⟩
  · by_cases hb : b' = b
    · subst hb
      rw [send_sent, List.getElem?_append] at hm'
      split at hm'
      · exact (h.said b' i m' hm').grown hgrown
      · next hi =>
        obtain ⟨hlt, hm'⟩ := List.getElem?_eq_some_iff.mp hm'
        rw [List.length_singleton] at hlt
        obtain rfl : i = (s.sent b').length := by omega
        simp only [Nat.sub_self, List.getElem_cons_zero] at hm'
        exact hm' ▸ hdue.grown hgrown
    · rw [Bool.eq_not.mpr hb, send_other.1] at hm'
      rw [Bool.eq_not.mpr hb]
      exact (h.said _ i m' hm').grown hgrown
  · rw [send_other.2.1]
    by_cases hb : b' = b
    · rw [hb, send_sent, List.length_append]
      exact hturn
    · rw [Bool.eq_not.mpr hb, send_other.1]
      exact h.turns _

end ChanState

/-! ## 4. What a thread says is due -/

section Due

variable {k : Party} {q : Opening} {o : Op} {a : o.Ans} {c : Chan} {p : Phase} {m : Message}
variable {w : World} {κ : Tid → Both} {t : Tid} {s : ChanState}

/-- A connection on which the thread has said nothing is the one it opened last. -/
structure Meets (k : Party) (q : Opening) : Prop where
  role : q.role = k.role
  line : ∀ {c p}, k.line = some (c, p) → p.said k.role.isProvider = 0 → q.opened = true
  parked : ∀ {g c p}, k.parked g = some (c, p) → p.said k.role.isProvider ≠ 0

theorem meets_first (t : Tid) : Meets (firstParty t) { role := t } :=
  ⟨rfl, (fun h => by cases h), (fun h => by cases h)⟩

theorem idle_said (j : Nat) (b : Bool) : (Phase.idle (j + 1)).said b ≠ 0 := by
  cases b <;> exact Nat.succ_ne_zero _

theorem opening_same (ho : o.relines = false) (q : Opening) (a : o.Ans) : q.next o a = q := by
  cases o with
  | tcpConnect | tcpAccept | send => cases ho
  | note n =>
      cases n with
      | updateBegins => cases ho
      | _ => rfl
  | _ => rfl

theorem Meets.next (h : Meets k q) (hm : k.may o) : Meets (k.next o a) (q.next o a) := by
  have hrole : (q.next o a).role = (k.next o a).role := by
    rw [Opening.next_role, party_role]
    exact h.role
  -- the line is new, and what is parked stays
  have hmoved {x : Option (Chan × Phase)} (hx : (k.next o a).line = x)
      (hparked : (k.next o a).parked = k.parked)
      (hline : ∀ {c p}, x = some (c, p) → p.said k.role.isProvider = 0 →
        (q.next o a).opened = true) :
      Meets (k.next o a) (q.next o a) := by
    refine ⟨hrole, fun {c p} hc hp => ?_, fun {g c p} hc => ?_⟩
    · rw [party_role] at hp
      exact hline (hx.symm.trans hc) hp
    · rw [party_role]
      exact h.parked (hparked ▸ hc)
  have hclosed (hx : (k.next o a).line = none) (hparked : (k.next o a).parked = k.parked) :
      Meets (k.next o a) (q.next o a) := hmoved hx hparked fun hc => by cases hc
  by_cases ho : o.relines = false
  · obtain ⟨hline, hparked⟩ := next_line ho k a
    refine hmoved hline hparked fun hc hp => ?_
    rw [opening_same ho]
    exact h.line hc hp
  cases o with
  | tcpConnect =>
      cases a with
      | error e => exact h
      | ok c => exact hmoved rfl rfl fun _ _ => rfl
  | tcpAccept =>
      cases a with
      | none => exact h
      | some c => exact hmoved rfl rfl fun _ _ => rfl
  | send c m =>
      obtain ⟨p, hline, hspoken⟩ := hm
      obtain ⟨result, n⟩ := a
      cases result with
      | error e => exact hclosed rfl rfl
      | ok u =>
          refine hmoved (congrArg Party.line (Party.next_sent hline)) rfl fun hc hp => ?_
          cases hc
          rw [← hspoken.turn, Phase.said_next] at hp
          exact absurd hp (Nat.succ_ne_zero _)
  | receive c =>
      obtain ⟨p, hline, hturn⟩ := hm
      obtain ⟨result, n⟩ := a
      cases result with
      | error e => exact hclosed rfl rfl
      | ok m =>
          have hheard : (k.hears m).line = some (c, p.next) ∧ (k.hears m).parked = k.parked := by
            unfold Party.hears
            rw [hline]
            exact ⟨rfl, rfl⟩
          refine hmoved hheard.1 hheard.2 fun hc hp => ?_
          cases hc
          have hside : k.role.isProvider = !p.turn := by rw [hturn, Bool.not_not]
          rw [hside, Phase.said_next_other, ← hside] at hp
          exact h.line hline hp
  | spawnSession => exact hclosed rfl rfl
  | awaitSession =>
      refine hmoved rfl rfl fun hc hp => ?_
      cases hc
      exact absurd hp (idle_said 0 _)
  | note x =>
      cases x with
      | updateBegins g =>
          refine ⟨hrole, fun {c p} hc hp => absurd hp (h.parked hc), fun {g' c p} hc => ?_⟩
          have hc : update k.parked g none g' = some (c, p) := hc
          by_cases hg : g' = g
          · rw [hg, Function.update_self] at hc
            cases hc
          · rw [Function.update_of_ne hg] at hc
            exact h.parked hc
      | ingested g result =>
          obtain ⟨-, -, c, j, x, hline, -⟩ := hm
          refine ⟨hrole, (fun hc => by cases hc), fun {g' c' p} hc => ?_⟩
          have hc : update k.parked g k.line g' = some (c', p) := hc
          by_cases hg : g' = g
          · rw [hg, Function.update_self, hline] at hc
            cases hc
            exact idle_said j _
          · rw [Function.update_of_ne hg] at hc
            exact h.parked hc
      | updateReturns g result st => exact hclosed rfl rfl
      | registered | tupleOf | panicked => exact absurd rfl ho
  | _ => exact absurd rfl ho

/-- A session thread that has not come up says nothing. -/
theorem view_send (hl : Lives w fun t => (κ t).1) (hm : may (κ t).1 (.send c m)) :
    view w κ t = (κ t).2 := by
  cases t with
  | session n =>
      refine seen_working (fun hstage => ?_) _
      rcases waiting_may (hl.role (.session n)) hstage hm with h | ⟨x, h⟩ <;> cases h
  | app | service | reader | net => rfl

/-- What a reader says, but for the greeting. -/
theorem due_reader (h : k.Says p m) (hrole : k.role.isProvider = false) (hp : p.said false ≠ 0) :
    s.Due false (p.said false) m := by
  unfold Party.Says at h
  rw [hrole] at h
  cases p with
  | fresh => exact absurd rfl hp
  | idle j =>
      cases j with
      | zero =>
          obtain ⟨g, -, rfl⟩ := h
          exact ⟨g, rfl, fun hb => by cases hb⟩
      | succ j => exact ⟨0, h, fun hb => by cases hb⟩
  | greeted | asked | told => exact h.elim

/-- What the provider says, but for the greeting, is about the group it was asked for. -/
theorem due_provider (h : k.Says p m) (hrole : k.role.isProvider = true) (hp : p.said true ≠ 0)
    (hline : k.line = some (c, p)) (hhosting : Hosting w k) (hs : w.tcp.chans[c]? = some s) :
    s.Due true (p.said true) m := by
  unfold Party.Says at h
  rw [if_pos hrole] at h
  have hgroup {g : UInt32} (hg : k.group = some g) (hjoined : p.joined = true) :
      s.recvP[1]? = some (.wantGroup g) := by
    obtain ⟨s', hs', hgot⟩ := hhosting.group hg hline hjoined
    cases hs.symm.trans hs'
    exact hgot
  cases p with
  | fresh | idle => exact h.elim
  | greeted => exact absurd rfl hp
  | asked j =>
      obtain ⟨l, hl, -, rfl⟩ := h
      obtain ⟨g, -, hg, -⟩ := hhosting.listed hl hline rfl
      refine ⟨g, ?_, fun _ _ => hgroup hg rfl⟩
      show if 2 * j % 2 = 0 then _ else _
      rw [if_pos (by omega)]
      exact ⟨_, rfl⟩
  | told j =>
      obtain ⟨l, g, -, -, hg, rfl⟩ := h
      refine ⟨g, ?_, fun _ _ => hgroup hg rfl⟩
      show if (2 * j + 1) % 2 = 0 then _ else _
      rw [if_neg (by omega)]
      exact ⟨_, rfl⟩

/-- **What a thread says is due.** -/
theorem due_said {prog : Tid → Code (Option Loop)} (hw : Talked w prog κ) (hmeets : Meets (κ t).2 q)
    (hm : may (κ t).1 (.send c m)) (hk : (κ t).2.may (.send c m)) (hgreet : q.may (.send c m))
    (hs : w.tcp.chans[c]? = some s) :
    s.Due t.isProvider (s.sent t.isProvider).length m ∧
      (s.sent t.isProvider).length + 1 ≤ allowed t.isProvider (s.got t.isProvider).length := by
  have hview := view_send (lives_watched (Talked.watched hw)) hm
  have hconv := conversing_watched hw
  have hrole : (κ t).2.role = t := party_roles hw t
  obtain ⟨p, hline, hspoken⟩ := hk
  have hprovider : (κ t).2.role.isProvider = t.isProvider := congrArg Tid.isProvider hrole
  have hturn : p.turn = t.isProvider := hspoken.turn.trans hprovider
  obtain ⟨s', hs', hsent, hgot⟩ := hconv.sound.counts (x := .thread t) (hview ▸ hline)
  cases hs.symm.trans hs'
  have hsent : (s.sent t.isProvider).length = p.said t.isProvider := hsent
  have hgot : (s.got t.isProvider).length = p.said !t.isProvider := hgot
  refine ⟨?_, by rw [hsent, hgot, ← hturn]; exact said_allowed p⟩
  rw [hsent]
  by_cases hp : p.said t.isProvider = 0
  · -- nothing has been said: the greeting
    have hm : m = q.words := hgreet (hmeets.line hline (by rw [hprovider, hp]))
    have hq : q.role = t := hmeets.role.trans hrole
    rw [hp]
    refine ⟨0, ?_, fun _ hi => absurd rfl hi⟩
    cases hside : t.isProvider with
    | true => exact hm.trans (words_welcome (hq ▸ hside))
    | false => exact hm.trans (words_hello (hq ▸ hside))
  · cases hside : t.isProvider with
    | true =>
        rw [hside] at hp
        refine due_provider hspoken (hprovider.trans hside) hp hline ?_ hs
        exact hview ▸ (hosted_watched hw).hosting t hside
    | false =>
        rw [hside] at hp
        exact due_reader hspoken (hprovider.trans hside) hp

end Due

/-! ## 5. Every run -/

section Runs

variable {w : World} {κ : Tid → Both × Opening} {prog : Tid → Code (Option Loop)}
variable {c : Config Tid Op World Loop Op.Ans} {s : ChanState} {t u : Tid} {ch : Chan}

/-- What a thread knows of its conversation and its greeting. -/
def firstWords (t : Tid) : Both × Opening := (firstBoth t, { role := t })

def wordsEntry (κ : Both × Opening) (l : Loop) : Prop := bothEntry κ.1 l ∧ κ.2.Enters l

theorem fitting_opens : fitting.Follows ((protocol.prod talks).prod opening) wordsEntry :=
  fitting_follows.prod (provider_opens.restrict FramesFit)

theorem wordsEntry_first (t : Tid) : wordsEntry (firstWords t) (firstLoop t) :=
  ⟨bothEntry_first t, ⟨firstKnow t, entry_first t, by cases t <;> rfl⟩, fun _ _ => rfl⟩

/-- The connections are used as the protocol has it. -/
structure Courteous (w : World) (κ : Tid → Both × Opening) : Prop where
  meets : ∀ t, Meets (κ t).1.2 (κ t).2
  conforms : ∀ s ∈ w.tcp.chans, s.Conforms

theorem Courteous.step {o : Op} {a : o.Ans} (h : Courteous w κ)
    (hw : Talked w prog fun t => (κ t).1) (hm : may (κ t).1.1 o) (hk : (κ t).1.2.may o)
    (hq : (κ t).2.may o) :
    Courteous (post t o a w)
      (update κ t (((protocol.prod talks).prod opening).next (κ t) o a)) where
  meets u := by
    by_cases hu : u = t
    · subst hu
      rw [Function.update_self]
      exact (h.meets u).next hk
    · rw [Function.update_of_ne hu]
      exact h.meets u
  conforms s' hs' := by
    obtain ⟨c', hs'⟩ := List.getElem?_of_mem hs'
    rcases chan_touched hs' with ⟨i, rfl⟩ | ⟨s, hs, htouched⟩
    · exact ChanState.conforms_new i
    · have hconforms := h.conforms s (List.mem_of_getElem? hs)
      cases htouched with
      | same => exact hconforms
      | receive a => exact hconforms.receive a
      | send m a =>
          obtain ⟨result, n⟩ := a
          cases result with
          | error e => exact hconforms.cut
          | ok u =>
              obtain ⟨hdue, hturn⟩ := due_said hw (h.meets t) hm hk hq hs
              exact hconforms.say hdue hturn

theorem courteous_watched
    (h : fitting.Watched ((protocol.prod talks).prod opening) {} firstLoop firstWords w prog κ) :
    Courteous w κ :=
  System.Watched.invariant (I := Courteous) fitting_opens wordsEntry_first
    ⟨fun t => meets_first t, fun s hs => by cases hs⟩
    (fun hw hI _ _ _ hm _ => hI.step hw.fst hm.1.1 hm.1.2 hm.2) h

/-- **Conversations conform to the script.** On every connection of every run the messages that the
    reader and the provider have sent are those of the script for one group, each side has got a
    first part of what the other has sent, and has sent no more than it may by what it has got. -/
theorem conversations_conform (h : fitting.Reach start c) (hs : s ∈ c.world.tcp.chans) :
    (∃ g, ∀ b i m, (s.sent b)[i]? = some m → Script g b i m) ∧
      ∀ b, s.got b <+: s.sent (!b) ∧ (s.sent b).length ≤ allowed b (s.got b).length := by
  obtain ⟨κ, hw⟩ := System.Reach.watched ((protocol.prod talks).prod opening) firstWords h
  have hconforms := (courteous_watched hw).conforms s hs
  have hordered := (conversing_watched hw.fst).ordered s hs
  refine ⟨?_, fun b => ⟨hordered b, hconforms.turns b⟩⟩
  -- the group is the one that the reader has asked for
  obtain ⟨g, hg⟩ : ∃ g, ∀ g', s.sentR[1]? = some (.wantGroup g') → g' = g := by
    by_cases hasked : ∃ g, s.sentR[1]? = some (.wantGroup g)
    · obtain ⟨g, hg⟩ := hasked
      exact ⟨g, fun g' hg' => Message.wantGroup.inj (Option.some.inj (hg'.symm.trans hg))⟩
    · exact ⟨0, fun g' hg' => absurd ⟨g', hg'⟩ hasked⟩
  refine ⟨g, fun b i m hm => ?_⟩
  obtain ⟨g', hscript, hgroup⟩ := hconforms.said b i m hm
  cases b with
  | false =>
      match i, hscript with
      | 0, hscript => exact hscript
      | 1, hscript =>
          obtain rfl : m = .wantGroup g' := hscript
          exact congrArg Message.wantGroup (hg g' hm)
      | _ + 2, hscript => exact hscript
  | true =>
      match i, hscript with
      | 0, hscript => exact hscript
      | i + 1, hscript =>
          have hasked : s.sentR[1]? = some (.wantGroup g') :=
            kept_at (hordered true) (hgroup rfl (Nat.succ_ne_zero i))
          exact hg g' hasked ▸ hscript

/-- A fresh session and an update: two exchanges on one connection. -/
theorem conversations_conform_refreshed : ∃ c s, fitting.Reach start c ∧ s ∈ c.world.tcp.chans ∧
    s.sentR = [.hello PROTOCOL_VERSION, .wantGroup 7, .update] ∧
      s.sentP.map (·.ty) = [2, 5, 6, 5, 6] ∧ ∃ g, ∀ b i m, (s.sent b)[i]? = some m → Script g b i m := by
  have hplay : (((provider.restrict FramesFit).play start untilRefreshed).map fun c =>
      c.world.tcp.chans.map fun s => (s.sentR, s.sentP.map (·.ty))) =
        some [([.hello PROTOCOL_VERSION, .wantGroup 7, .update], [2, 5, 6, 5, 6])] := by
    decide +kernel
  obtain ⟨c, hc, hchans⟩ := Option.map_eq_some_iff.mp hplay
  have hreach : fitting.Reach start c := System.play_reach (S := provider.restrict FramesFit) hc
  obtain ⟨s, rest, hcons, hs, _⟩ := List.map_eq_cons_iff.mp hchans
  obtain ⟨hsentR, hsentP⟩ := Prod.mk.inj hs
  have hmem : s ∈ c.world.tcp.chans := by simp [hcons]
  exact ⟨c, s, hreach, hmem, hsentR, hsentP, (conversations_conform hreach hmem).1⟩

end Runs

/-! ## 6. The two ends of a connection -/

section Ends

variable {L : Lines} {x y : Place} {ch : Chan} {p q : Phase}

/-- What the ends of a connection have said, by the phases in which they hold it. -/
theorem Sound.ends (h : Sound L) (ho : L.Ordered) (hx : L.hold x = some (ch, p))
    (hy : L.hold y = some (ch, q)) (hside : x.isProvider = !y.isProvider) :
    ∃ s, L.chans[ch]? = some s ∧ p.Counts x.isProvider s ∧ q.Counts y.isProvider s ∧
      q.said x.isProvider ≤ p.said x.isProvider ∧ p.said y.isProvider ≤ q.said y.isProvider := by
  obtain ⟨s, hs, hp⟩ := h.counts hx
  obtain ⟨s', hs', hq⟩ := h.counts hy
  cases hs.symm.trans hs'
  have hle (b : Bool) : (s.got b).length ≤ (s.sent !b).length :=
    (ho s (List.mem_of_getElem? hs) b).length_le
  refine ⟨s, hs, hp, hq, ?_, ?_⟩
  · have hgot := hq.2
    rw [← hside] at hgot
    rw [← hgot, ← hp.1, hside]
    exact hle _
  · have hgot := hp.2
    have hback : (!x.isProvider) = y.isProvider := by rw [hside, Bool.not_not]
    rw [hback] at hgot
    rw [← hgot, ← hq.1, ← hback]
    exact hle _

/-- Whoever speaks has heard all there is, and the other end listens. -/
theorem listens_while_spoken {b : Bool} (hown : q.said b ≤ p.said b)
    (hother : p.said (!b) ≤ q.said !b) (hp : p.turn = b) : q.turn = b := by
  subst hp
  cases p <;> cases q <;> simp [Phase.said, Phase.turn] at * <;> omega

/-- If both listen, one has said what the other has not heard. -/
theorem unheard_of_listening {b : Bool} (hp : p.turn = !b) (hq : q.turn = b) :
    p.said (!b) ≠ q.said (!b) ∨ q.said b ≠ p.said b := by
  subst hq
  cases p <;> cases q <;> simp [Phase.said, Phase.turn] at * <;> omega

/-- **Two ends that listen**: one of them has a whole message to hear. -/
theorem Sound.ready (h : Sound L) (ho : L.Ordered) (hx : L.hold x = some (ch, p))
    (hy : L.hold y = some (ch, q)) (hside : x.isProvider = !y.isProvider)
    (hp : p.turn = !x.isProvider) (hq : q.turn = !y.isProvider) :
    ∃ z s m n, (z = x ∨ z = y) ∧ L.chans[ch]? = some s ∧
      takeFrame (s.queue z.isProvider) = some (m, n) := by
  obtain ⟨s, hs, hpc, hqc, -⟩ := h.ends ho hx hy hside
  have hback : (!x.isProvider) = y.isProvider := by rw [hside, Bool.not_not]
  have hhear {z : Place} {r : Phase} (hz : L.hold z = some (ch, r))
      (hne : s.got z.isProvider ≠ s.sent !z.isProvider) :
      ∃ m n, takeFrame (s.queue z.isProvider) = some (m, n) := by
    obtain ⟨tail, hflight, _⟩ := h.stream hs (.held hz rfl)
    exact hflight.ready hne
  rcases unheard_of_listening hp (hq.trans hside.symm) with hne | hne
  · obtain ⟨m, n, hm⟩ := hhear hx fun heq => hne (by rw [← hpc.2, heq, hback, hqc.1])
    exact ⟨x, s, m, n, Or.inl rfl, hs, hm⟩
  · obtain ⟨m, n, hm⟩ := hhear hy fun heq => hne (by rw [hside, ← hqc.2, heq, ← hside, hpc.1])
    exact ⟨y, s, m, n, Or.inr rfl, hs, hm⟩

end Ends

section Runs

variable {c : Config Tid Op World Loop Op.Ans} {κ : Tid → Both} {t u : Tid} {ch : Chan} {o o' : Op}
variable {x : o.Ans → Code (Option Loop)} {y : o'.Ans → Code (Option Loop)}

/-- The connection that an operation uses. -/
def Op.uses : Op → Option Chan
  | .send c _ | .receive c => some c
  | _ => none

def Op.speaks : Op → Bool
  | .send _ _ => true
  | _ => false

/-- A thread that uses a connection holds it, and it is its turn. -/
theorem holds_used (hw : Talked c.world c.prog κ) (ht : c.prog t = .act o x)
    (ho : o.uses = some ch) :
    ∃ p, (linesOf c.world (view c.world κ)).hold (.thread t) = some (ch, p) ∧
      p.turn = (o.speaks == t.isProvider) := by
  have hm := hw.may fitting_follows bothEntry_first ht
  have hrole := (conversing_watched hw).role t
  have hk (hhands : o.hands = false) : (view c.world κ t).may o :=
    (view_acts (a := default) (lives_watched (Talked.watched hw)) (party_roles hw) hhands
      hm.1 hm.2).1
  cases o with
  | send c' m =>
      cases ho
      obtain ⟨p, hline, hspoken⟩ := hk rfl
      refine ⟨p, hline, hspoken.turn.trans ?_⟩
      rw [hrole]
      exact (Bool.true_beq _).symm
  | receive c' =>
      cases ho
      obtain ⟨p, hline, hturn⟩ := hk rfl
      refine ⟨p, hline, hturn.trans ?_⟩
      rw [hrole]
      exact (Bool.false_beq _).symm
  | _ => cases ho

/-- **One end proceeds.** In every run, of two threads that are about to send or receive on the same
    connection one is a reader and one is of the provider; at most one of them sends; and if both
    receive, a whole message is there for one of them. -/
theorem one_end_proceeds (h : fitting.Reach start c) (htu : t ≠ u) (ht : c.prog t = .act o x)
    (hu : c.prog u = .act o' y) (ho : o.uses = some ch) (ho' : o'.uses = some ch) :
    t.isProvider = !u.isProvider ∧ (o.speaks = true → o'.speaks = false) ∧
      (o.speaks = false → o'.speaks = false →
        ∃ v m n, (v = t ∨ v = u) ∧ can v (.receive ch) c.world (.ok m, n)) := by
  obtain ⟨κ, hw⟩ := System.Reach.watched (protocol.prod talks) firstBoth h
  have hconv := conversing_watched hw
  obtain ⟨p, hp, hpturn⟩ := holds_used hw ht ho
  obtain ⟨q, hq, hqturn⟩ := holds_used hw hu ho'
  have hside : t.isProvider = !u.isProvider := by
    by_contra hsame
    have hsame : t.isProvider = u.isProvider := by simpa using hsame
    exact htu (Place.thread.inj (hconv.sound.apart hp hq hsame))
  obtain ⟨s, hs, -, -, hown, hother⟩ := hconv.sound.ends hconv.ordered hp hq hside
  have hback : u.isProvider = !t.isProvider := by rw [hside, Bool.not_not]
  refine ⟨hside, fun hspeaks => ?_, fun hlistens hlistens' => ?_⟩
  · rw [hspeaks, Bool.true_beq] at hpturn
    have hother : p.said (!t.isProvider) ≤ q.said !t.isProvider := hback ▸ hother
    have hlistens : (!u.isProvider) = (o'.speaks == u.isProvider) :=
      hside.symm.trans ((listens_while_spoken hown hother hpturn).symm.trans hqturn)
    cases hspeaks' : o'.speaks with
    | false => rfl
    | true =>
        rw [hspeaks', Bool.true_beq] at hlistens
        exact absurd hlistens (Bool.not_ne_self _)
  · rw [hlistens, Bool.false_beq] at hpturn
    rw [hlistens', Bool.false_beq] at hqturn
    obtain ⟨z, s, m, n, hz, hs, hm⟩ := hconv.sound.ready hconv.ordered hp hq hside hpturn hqturn
    have hcan (v : Tid) (hv : takeFrame (s.queue v.isProvider) = some (m, n)) :
        can v (.receive ch) c.world (.ok m, n) := by
      have hs : c.world.tcp.chans[ch]? = some s := hs
      simp only [can, hs]
      exact hv
    rcases hz with rfl | rfl
    · exact ⟨t, m, n, Or.inl rfl, hcan t hm⟩
    · exact ⟨u, m, n, Or.inr rfl, hcan u hm⟩

/-- The connection that a thread is about to use, and whether it is about to speak. -/
def nextUse (c : Config Tid Op World Loop Op.Ans) (t : Tid) : Option (Chan × Bool) :=
  match c.prog t with
  | .act o _ => o.uses.map fun ch => (ch, o.speaks)
  | .ret _ => none

theorem nextUse_eq {b : Bool} (h : nextUse c t = some (ch, b)) :
    ∃ o x, c.prog t = .act o x ∧ o.uses = some ch ∧ o.speaks = b := by
  unfold nextUse at h
  split at h
  · next o x ht =>
    obtain ⟨ch', huses, he⟩ := Option.map_eq_some_iff.mp h
    cases he
    exact ⟨o, x, ht, huses, rfl⟩
  · cases h

/-- A reader that has greeted and the service that has accepted its connection both listen. -/
def untilGreeted : List Move :=
  (calls .serve :: moves .app 9) ++ moves .service 2 ++ greets 0 7 ++ moves .service 3

theorem one_end_proceeds_greeted : ∃ c, fitting.Reach start c ∧
    nextUse c (.reader 0) = some (0, false) ∧ nextUse c .service = some (0, false) ∧
      ∃ v m n, (v = .reader 0 ∨ v = .service) ∧ can v (.receive 0) c.world (.ok m, n) := by
  have hplay : (((provider.restrict FramesFit).play start untilGreeted).map fun c =>
      (nextUse c (.reader 0), nextUse c .service)) = some (some (0, false), some (0, false)) := by
    decide +kernel
  obtain ⟨c, hc, huses⟩ := Option.map_eq_some_iff.mp hplay
  have hreach : fitting.Reach start c := System.play_reach (S := provider.restrict FramesFit) hc
  obtain ⟨hreader, hservice⟩ := Prod.mk.inj huses
  obtain ⟨o, x, ht, ho, hlistens⟩ := nextUse_eq hreader
  obtain ⟨o', y, hu, ho', hlistens'⟩ := nextUse_eq hservice
  exact ⟨c, hreach, hreader, hservice,
    (one_end_proceeds hreach Tid.noConfusion ht hu ho ho').2.2 hlistens hlistens'⟩

end Runs

end Rdmalib
