/-
  File:      Rdmalib/Readers/Recovery.lean
  Subject:   What an `update` that fails leaves of the group's session.

  * `exchangeIn` -- the catalog and the tuples among the messages that an update receives, if it
    receives both;
  * `update_ends` -- the two ways in which an update ends: before its exchange is complete, or by
    the ingest of that exchange;
  * result: the next update runs a fresh session unless the remote replied with a complete exchange
    of the wrong kind (`update_recovers_iff`).
-/
import Mathlib.Data.List.ReduceOption
import Rdmalib.Readers.Cache

namespace Rdmalib

open Base

/-! ## 1. What the remote replied -/

/-- The exchange among the messages that an update of `g` receives. A fresh session receives the
    reply to its greeting first, a refresh nothing but the exchange. -/
def RemoteMemoryProvider.exchangeIn (st : RemoteMemoryProvider) (g : UInt32)
    (ms : List Message) : Option (Message × Message) :=
  match (st.session g).channel, ms with
  | some _, [catalog, tuples] => some (catalog, tuples)
  | none, [_, catalog, tuples] => some (catalog, tuples)
  | _, _ => none

/-- The exchange is the catalog and the tuples of the group. -/
def Serves (g : UInt32) (exchange : Message × Message) : Prop :=
  ∃ regions ts, exchange = (.metadata regions, .tuples g ts)

/-- **The remote replied with a complete exchange, and the wrong one.** -/
def Misserved (st : RemoteMemoryProvider) (g : UInt32) (ms : List Message) : Prop :=
  ∃ exchange, st.exchangeIn g ms = some exchange ∧ ¬ Serves g exchange

/-- A fresh session, from the greeting on: the next update of `g` is one, and whatever the answers
    are, it starts by connecting to the remote's metadata service. -/
structure StartsFresh (st : RemoteMemoryProvider) (g : UInt32) : Prop where
  fresh : st.update g = (st.setSession g (st.session g)).freshSession g
  connects : ∀ tr r, (st.update g).Runs tr r → ∃ a rest, tr = ⟨.tcpConnect, a⟩ :: rest

/-- After an update that returned `Err` the session holds no metadata channel, and the next update
    runs a fresh session. -/
def Recovers (g : UInt32) (result : Except Fault Unit) (st' : RemoteMemoryProvider) : Prop :=
  ∀ e, result = .error (.err e) → (st'.session g).channel = none ∧ StartsFresh st' g

/-! ## 2. How an update ends -/

/-- What an answer adds to the replies awaited: a message, or none where its receive failed. -/
def replies : (o : Op) → o.Ans → List (Option Message)
  | .receive _, (.ok m, _) => [some m]
  | .receive _, (.error _, _) => [none]
  | _, _ => []

/-- A thread that knows the replies it has waited for, and may do anything. -/
def attending : Protocol Op Op.Ans (List (Option Message)) where
  may _ _ := True
  next ks o a := ks ++ replies o a

/-- The replies that were waited for in a trace. -/
def replied (tr : Trace Op Op.Ans) : List (Option Message) := tr.flatMap fun e => replies e.1 e.2

theorem after_attending (ks : List (Option Message)) (tr : Trace Op Op.Ans) :
    attending.after ks tr = ks ++ replied tr := by
  induction tr generalizing ks with
  | nil => exact (List.append_nil ks).symm
  | cons e tr ih =>
      show attending.after (ks ++ replies e.1 e.2) tr = _
      rw [ih, replied, replied, List.flatMap_cons, List.append_assoc]

theorem received_replied (tr : Trace Op Op.Ans) : received tr = (replied tr).reduceOption := by
  induction tr with
  | nil => rfl
  | cons e tr ih =>
      have hstep : heard e.1 e.2 = (replies e.1 e.2).reduceOption := by
        obtain ⟨o, a⟩ := e
        cases o with
        | receive c =>
            obtain ⟨r, n⟩ := a
            cases r <;> rfl
        | _ => rfl
      show heard e.1 e.2 ++ received tr = (replies e.1 e.2 ++ replied tr).reduceOption
      rw [ih, hstep, List.reduceOption_append]

/-- What an ingest of `g` returns and leaves in the cache. -/
inductive Ingested (g : UInt32) (active : HashMap (String × UInt32) (List CachedRegion)) :
    Message × Message → Except Fault Unit → HashMap (String × UInt32) (List CachedRegion) → Prop where
  | served (regions : List RegionDesc) (ts : List TupleDesc) :
      Ingested g active (.metadata regions, .tuples g ts) (.ok ()) (recached g regions ts active)
  | refused (exchange : Message × Message) (e : IoError) (h : ¬ Serves g exchange) :
      Ingested g active exchange (.error (.err e)) active

/-- **The ways in which an update of `g` ends**, by the replies that it has waited for. -/
inductive UpdateEnds (st : RemoteMemoryProvider) (g : UInt32) (ks : List (Option Message)) :
    Except Fault Unit → RemoteMemoryProvider → Prop where
  /-- A refresh that fails, or a fresh session that is not connected: the slot stays. -/
  | broken {st' : RemoteMemoryProvider} (e : Fault) (hks : st.exchangeIn g ks.reduceOption = none)
      (hwaited : (st.session g).channel = none → ks.length ≤ 1)
      (hsession : st'.session g = ⟨none, (st.session g).connection⟩)
      (hregions : st'.regions = st.regions)
      (hothers : ∀ g' ≠ g, st'.session g' = st.session g') : UpdateEnds st g ks (.error e) st'
  /-- A fresh session that is connected, and does not get its exchange. -/
  | lost {st' : RemoteMemoryProvider} (e : Fault) (conn : Connection)
      (hfresh : (st.session g).channel = none) (hks : st.exchangeIn g ks.reduceOption = none)
      (hwaited : 2 ≤ ks.length) (hsession : st'.session g = ⟨none, ⟨some conn⟩⟩)
      (hregions : st'.regions = st.regions)
      (hothers : ∀ g' ≠ g, st'.session g' = st.session g') : UpdateEnds st g ks (.error e) st'
  /-- A refresh that gets its exchange. -/
  | refreshed {st' : RemoteMemoryProvider} {result : Except Fault Unit} (exchange : Message × Message)
      (hopen : (st.session g).channel.isSome) (hks : st.exchangeIn g ks.reduceOption = some exchange)
      (hsession : st'.session g = st.session g)
      (hingested : Ingested g st.regions exchange result st'.regions)
      (hothers : ∀ g' ≠ g, st'.session g' = st.session g') : UpdateEnds st g ks result st'
  /-- A fresh session that gets its exchange. -/
  | exchanged {st' : RemoteMemoryProvider} {result : Except Fault Unit} (exchange : Message × Message)
      (c : Chan) (conn : Connection) (hfresh : (st.session g).channel = none)
      (hks : st.exchangeIn g ks.reduceOption = some exchange) (hwaited : 2 ≤ ks.length)
      (hsession : st'.session g = ⟨some c, ⟨some conn⟩⟩)
      (hingested : Ingested g st.regions exchange result st'.regions)
      (hothers : ∀ g' ≠ g, st'.session g' = st.session g') : UpdateEnds st g ks result st'

section Endings

variable {st st₁ : RemoteMemoryProvider} {g : UInt32} {ks : List (Option Message)}

theorem receive_attends (c : Chan) : Tries attending ks (Channel.receive c)
    (fun ks' m => ks' = ks ++ [some m]) fun ks' _ => ks' = ks ++ [none] := by
  unfold Channel.receive
  rw [tries_bind, tries_lift]
  refine ⟨trivial, fun a => ?_⟩
  obtain ⟨r, n⟩ := a
  cases r with
  | ok m => exact rfl
  | error e => exact rfl

theorem send_attends (c : Chan) (m : Message) :
    Tries attending ks (Channel.send c m) (fun ks' _ => ks' = ks) fun ks' _ => ks' = ks := by
  unfold Channel.send
  rw [tries_bind, tries_lift]
  refine ⟨trivial, fun a => ?_⟩
  obtain ⟨r, n⟩ := a
  cases r with
  | ok u => exact List.append_nil ks
  | error e => exact List.append_nil ks

/-- The exchange fails at its first message, or at its second. -/
def ExchangeCut (ks ks' : List (Option Message)) : Prop :=
  ks' = ks ++ [none] ∨ ∃ m, ks' = ks ++ [some m, none]

theorem receiveExchange_attends (c : Chan) : Tries attending ks (receiveExchange c)
    (fun ks' x => ks' = ks ++ [some x.1, some x.2]) fun ks' _ => ExchangeCut ks ks' := by
  unfold receiveExchange
  rw [tries_bind]
  refine (receive_attends c).mono (fun ks₁ catalog h₁ => ?_) fun _ _ h => Or.inl h
  rw [tries_bind]
  refine (receive_attends c).mono (fun ks₂ tuples h₂ => ?_) fun ks₂ _ h₂ => Or.inr ⟨catalog, ?_⟩
  · show ks₂ = ks ++ [some catalog, some tuples]
    rw [h₂, h₁, List.append_assoc]
    rfl
  · rw [h₂, h₁, List.append_assoc]
    rfl

theorem refresh_attends (c : Chan) : Tries attending ks (refresh c)
    (fun ks' x => ks' = ks ++ [some x.1, some x.2]) fun ks' _ => ks' = ks ∨ ExchangeCut ks ks' := by
  unfold refresh
  rw [tries_bind]
  refine (send_attends c _).mono (fun ks₁ _ h₁ => ?_) fun _ _ h => Or.inl h
  rw [h₁]
  exact (receiveExchange_attends c).mono (fun _ _ h => h) fun _ _ h => Or.inr h

/-- Nothing is received while a connection is set up or dropped. -/
theorem cm_attends {α : Type} {p : Code α} (h : Only CmOp p) :
    Follows attending ks p fun ks' _ => ks' = ks := by
  refine h.follows (I := (· = ks)) (fun ks' o ho hks => ⟨trivial, fun a => ?_⟩) rfl
  subst hks
  cases o with
  | receive c => exact ho.elim
  | _ => exact List.append_nil _

/-- The greeting waits for one reply. -/
theorem greet_attends : Tries attending ks (RemoteMemoryProvider.greet g)
    (fun ks' _ => ∃ reply, ks' = ks ++ [some reply])
    fun ks' _ => ks' = ks ∨ ∃ reply, ks' = ks ++ [reply] := by
  have hnew (c : Chan) : Tries attending ks (Channel.new c) (fun ks' _ => ks' = ks)
      fun ks' _ => ks' = ks := by
    unfold Channel.new
    rw [tries_bind, tries_lift]
    refine ⟨trivial, fun a => ?_⟩
    cases a with
    | error e => exact List.append_nil ks
    | ok u => exact List.append_nil ks
  have hconnect : Tries attending ks Channel.connect (fun ks' _ => ks' = ks) fun ks' _ => ks' = ks := by
    unfold Channel.connect
    rw [tries_bind, tries_lift]
    refine ⟨trivial, fun a => ?_⟩
    cases a with
    | error e => exact List.append_nil ks
    | ok c =>
        show Tries attending (ks ++ []) (Channel.new c) _ _
        rw [List.append_nil]
        exact hnew c
  unfold RemoteMemoryProvider.greet
  rw [tries_bind]
  refine hconnect.mono (fun ks₁ c h₁ => ?_) fun _ _ h => Or.inl h
  subst h₁
  rw [tries_bind]
  refine (send_attends c _).mono (fun ks₁ _ h₁ => ?_) fun _ _ h => Or.inl h
  subst h₁
  rw [tries_bind]
  refine (receive_attends c).mono (fun ks₂ reply h₂ => ?_) fun _ _ h => Or.inr ⟨_, h⟩
  have hjoin : Tries attending ks₂ (do Channel.send c (.wantGroup g); return c : Sys Chan)
      (fun ks' _ => ∃ reply, ks' = ks₁ ++ [some reply])
      fun ks' _ => ks' = ks₁ ∨ ∃ reply, ks' = ks₁ ++ [reply] := by
    rw [tries_bind]
    exact (send_attends c _).mono (fun _ _ h => ⟨reply, h.trans h₂⟩) fun _ _ h =>
      Or.inr ⟨some reply, h.trans h₂⟩
  cases reply with
  | welcome version =>
      dsimp only
      split
      · exact Or.inr ⟨_, h₂⟩
      · exact hjoin
  | hello | wantGroup | update | metadata | tuples => exact Or.inr ⟨_, h₂⟩

theorem session_setConnection (conn : Connection) :
    (st.setConnection g conn).session g = { st.session g with connection := ⟨some conn⟩ } :=
  session_setSession _

theorem session_setChannel (c : Option Chan) :
    (st.setChannel g c).session g = { st.session g with channel := c } :=
  session_setSession _

theorem session_other (s : GroupSession) {g' : UInt32} (hg : g' ≠ g) :
    (st.setSession g s).session g' = st.session g' := by
  show ((st.setSession g s).sessions.lookup g').getD _ = _
  rw [lookup_setSession, if_neg hg]
  rfl

/-- What an ingest does is decided by the exchange and the cache. -/
theorem ingest_ingested (st : RemoteMemoryProvider) (exchange : Message × Message) :
    Ingested g st.regions exchange (st.ingest g exchange).1 (st.ingest g exchange).2.regions := by
  by_cases h : Serves g exchange
  · obtain ⟨regions, ts, rfl⟩ := h
    rw [ingest_served]
    exact .served regions ts
  · obtain ⟨e, he⟩ : ∃ e, (st.ingest g exchange).1 = .error (.err e) := by
      obtain ⟨catalog, tuples⟩ := exchange
      unfold RemoteMemoryProvider.ingest
      split
      · next regions served ts heq =>
        cases heq
        have hserved : served ≠ g := fun e => h ⟨regions, ts, by rw [e]⟩
        exact ⟨_, by rw [if_pos hserved]⟩
      · exact ⟨_, rfl⟩
    rw [ingest_error he, he]
    exact .refused exchange e h

theorem exchangeIn_short (hms : ks.reduceOption.length ≤ 1) :
    st.exchangeIn g ks.reduceOption = none := by
  unfold RemoteMemoryProvider.exchangeIn
  generalize ks.reduceOption = ms at hms
  split
  · simp at hms
  · simp at hms
  · rfl

theorem exchangeIn_fresh (hc : (st.session g).channel = none) (hms : ks.reduceOption.length ≤ 2) :
    st.exchangeIn g ks.reduceOption = none := by
  unfold RemoteMemoryProvider.exchangeIn
  generalize ks.reduceOption = ms at hms
  rw [hc]
  split
  · next heq => cases heq
  · simp at hms
  · rfl

/-- `ingest`, and what it returned. -/
theorem ingestNoted_attends {exchange : Message × Message}
    {Q : List (Option Message) → Except Fault Unit × RemoteMemoryProvider → Prop}
    (hQ : Q ks (st₁.ingest g exchange)) : Follows attending ks (st₁.ingestNoted g exchange) Q := by
  unfold RemoteMemoryProvider.ingestNoted
  rw [follows_bind]
  refine ⟨trivial, fun _ => ?_⟩
  show Q (ks ++ []) (st₁.ingest g exchange)
  rw [List.append_nil]
  exact hQ

theorem session_ingest (exchange : Message × Message) (g' : UInt32) :
    (st.ingest g exchange).2.session g' = st.session g' := by
  unfold RemoteMemoryProvider.session
  rw [ingest_sessions]

theorem freshSession_ends (hc : (st.session g).channel = none)
    (hsame : ∀ g', st₁.session g' = st.session g') (hregions : st₁.regions = st.regions) :
    Follows attending [] (st₁.freshSession g) fun ks r => UpdateEnds st g ks r.1 r.2 := by
  have hsession : st₁.session g = ⟨none, (st.session g).connection⟩ := by rw [hsame, ← hc]
  have hothers (g' : UInt32) (_ : g' ≠ g) : st₁.session g' = st.session g' := hsame g'
  unfold RemoteMemoryProvider.freshSession
  rw [follows_bind]
  refine Follows.mono greet_attends fun ks₁ greeted h₁ => ?_
  cases greeted with
  | error e =>
      rcases h₁ with rfl | ⟨reply, rfl⟩
      · exact .broken e (exchangeIn_short (Nat.zero_le _)) (fun _ => Nat.zero_le _) hsession hregions
          hothers
      · refine .broken e (exchangeIn_short ?_) (fun _ => Nat.le_refl _) hsession hregions hothers
        exact List.reduceOption_length_le _
  | ok c =>
  obtain ⟨reply, rfl⟩ := h₁
  rw [follows_bind]
  refine (cm_attends connect_only).mono fun ks₂ connected h₂ => ?_
  subst h₂
  cases connected with
  | error e =>
      exact .broken e (exchangeIn_short (Nat.le_refl 1)) (fun _ => Nat.le_refl 1) hsession hregions
        hothers
  | ok conn =>
  have hother₂ (g' : UInt32) (hg : g' ≠ g) : (st₁.setConnection g conn).session g' = st.session g' :=
    (session_other _ hg).trans (hsame g')
  have hsession₂ : (st₁.setConnection g conn).session g = ⟨none, ⟨some conn⟩⟩ := by
    rw [session_setConnection, hsession]
  have hrest (ks₃ : List (Option Message)) (h₃ : ks₃ = [] ++ [some reply])
      (k : Except Fault (Message × Message) → Code (Except Fault Unit × RemoteMemoryProvider))
      (herror : ∀ e, k (.error e) = pure (.error e, st₁.setConnection g conn))
      (hok : ∀ exchange, k (.ok exchange) =
        ((st₁.setConnection g conn).setChannel g (some c)).ingestNoted g exchange) :
      Follows attending ks₃ ((receiveExchange c).run >>= k) fun ks r => UpdateEnds st g ks r.1 r.2 := by
    subst h₃
    rw [follows_bind]
    refine Follows.mono (receiveExchange_attends c) fun ks₄ r h₄ => ?_
    cases r with
    | error e =>
        rw [herror]
        rcases h₄ with rfl | ⟨m, rfl⟩
        · exact .lost e conn hc (exchangeIn_fresh hc (Nat.le_succ 1)) (Nat.le_refl 2) hsession₂
            hregions hother₂
        · exact .lost e conn hc (exchangeIn_fresh hc (Nat.le_refl 2)) (Nat.le_succ 2) hsession₂
            hregions hother₂
    | ok exchange =>
        rw [hok]
        refine ingestNoted_attends ?_
        have h₄ : ks₄ = [some reply, some exchange.1, some exchange.2] := h₄
        subst h₄
        refine .exchanged exchange c conn hc ?_ (Nat.le_succ 2) ?_ ?_ fun g' hg => ?_
        · unfold RemoteMemoryProvider.exchangeIn
          rw [hc]
          rfl
        · rw [session_ingest, session_setChannel, hsession₂]
        · have := ingest_ingested (g := g) ((st₁.setConnection g conn).setChannel g (some c))
            exchange
          rwa [show ((st₁.setConnection g conn).setChannel g (some c)).regions = st.regions
            from hregions] at this
        · rw [session_ingest]
          exact (session_other _ hg).trans (hother₂ g' hg)
  dsimp only
  cases (st₁.session g).connection.connection with
  | none => exact hrest _ rfl _ (fun _ => rfl) fun _ => rfl
  | some old =>
      dsimp only
      rw [follows_bind]
      exact (cm_attends (connectionDrop_only old)).mono fun ks₃ _ h₃ =>
        hrest ks₃ h₃ _ (fun _ => rfl) fun _ => rfl

/-- **One update, from any state.** -/
theorem update_ends : Follows attending [] (st.update g) fun ks r => UpdateEnds st g ks r.1 r.2 := by
  have hsame (g' : UInt32) : (st.setSession g (st.session g)).session g' = st.session g' := by
    by_cases hg : g' = g
    · rw [hg, session_setSession]
    · exact session_other _ hg
  unfold RemoteMemoryProvider.update
  dsimp only
  split
  · next c hc =>
    rw [session_setSession] at hc
    have hopen : (st.session g).channel ≠ none := by rw [hc]; rintro ⟨⟩
    rw [follows_bind]
    refine Follows.mono (refresh_attends c) fun ks₁ r h₁ => ?_
    cases r with
    | error e =>
        refine .broken e (exchangeIn_short ?_) (fun h => (hopen h).elim) ?_ rfl fun g' hg => ?_
        · rcases h₁ with rfl | rfl | ⟨m, rfl⟩
          · exact Nat.zero_le _
          · exact Nat.zero_le _
          · exact Nat.le_refl _
        · rw [session_setChannel, session_setSession]
        · exact (session_other _ hg).trans (hsame g')
    | ok exchange =>
        refine ingestNoted_attends ?_
        have h₁ : ks₁ = [some exchange.1, some exchange.2] := h₁
        subst h₁
        refine .refreshed exchange (by rw [hc]; rfl) ?_ ?_ ?_ fun g' _ => ?_
        · unfold RemoteMemoryProvider.exchangeIn
          rw [hc]
          rfl
        · rw [session_ingest, hsame]
        · exact ingest_ingested (st.setSession g (st.session g)) exchange
        · rw [session_ingest, hsame]
  · next hc => exact freshSession_ends (by rwa [session_setSession] at hc) hsame rfl

/-- Every run of an update ends so. -/
theorem update_ended {st' : RemoteMemoryProvider} {tr : Trace Op Op.Ans} {result : Except Fault Unit}
    (hr : (st.update g).Runs tr (result, st')) : UpdateEnds st g (replied tr) result st' := by
  have := Follows.runs update_ends hr
  rwa [after_attending, List.nil_append] at this

/-- A session without a channel. -/
theorem startsFresh (hc : (st.session g).channel = none) : StartsFresh st g := by
  have hfresh : st.update g = (st.setSession g (st.session g)).freshSession g := by
    unfold RemoteMemoryProvider.update
    dsimp only
    rw [session_setSession, hc]
  refine ⟨hfresh, fun tr r hr => ?_⟩
  rw [hfresh] at hr
  obtain ⟨a, rest, htr, _⟩ := hr
  exact ⟨a, rest, htr⟩

end Endings

/-! ## 3. Recovery -/

/-- **When a failed update recovers**: from every state and whatever the remote and the network do,
    exactly when the remote's reply is not a complete exchange of the wrong kind. -/
theorem update_recovers_iff {st st' : RemoteMemoryProvider} {g : UInt32} {tr : Trace Op Op.Ans}
    {result : Except Fault Unit} (hr : (st.update g).Runs tr (result, st')) :
    Recovers g result st' ↔ ¬ Misserved st g (received tr) := by
  have hends := update_ended hr
  rw [received_replied]
  constructor
  · rintro hrec ⟨exchange, hms, hwrong⟩
    have hkept (hchannel : (st'.session g).channel.isSome) (exchange' : Message × Message) {active'}
        (hks : st.exchangeIn g (replied tr).reduceOption = some exchange')
        (hingested : Ingested g st.regions exchange' result active') : False := by
      cases Option.some.inj (hks.symm.trans hms)
      cases hingested with
      | served regions ts => exact hwrong ⟨regions, ts, rfl⟩
      | refused _ e =>
          -- the ingest failed, and the channel stayed
          rw [(hrec e rfl).1] at hchannel
          cases hchannel
    cases hends with
    | broken _ hks | lost _ _ _ hks => cases hks.symm.trans hms
    | refreshed exchange' hopen hks hsession hingested =>
        exact hkept (by rw [hsession]; exact hopen) exchange' hks hingested
    | exchanged exchange' c conn _ hks _ hsession hingested =>
        exact hkept (by rw [hsession]; rfl) exchange' hks hingested
  · intro hmis e he
    subst he
    cases hends with
    | broken _ _ _ hsession | lost _ _ _ _ _ hsession =>
        have hchannel : (st'.session g).channel = none := by rw [hsession]
        exact ⟨hchannel, startsFresh hchannel⟩
    | refreshed exchange _ hks _ hingested | exchanged exchange _ _ _ hks _ _ hingested =>
        generalize st'.regions = active' at hingested
        cases hingested with
        | refused _ _ hwrong => exact (hmis ⟨exchange, hks, hwrong⟩).elim

/-- A remote that goes away before it has sent the tuples. -/
theorem update_recovers_lost :
    (Recovers 7 (friendlyUpdate .new 7 [.welcome PROTOCOL_VERSION, .metadata []]).2.1
        (friendlyUpdate .new 7 [.welcome PROTOCOL_VERSION, .metadata []]).2.2 ↔
      ¬ Misserved .new 7
        (received (friendlyUpdate .new 7 [.welcome PROTOCOL_VERSION, .metadata []]).1)) ∧
      (friendlyUpdate .new 7 [.welcome PROTOCOL_VERSION, .metadata []]).2.1 ≠ .ok () :=
  ⟨update_recovers_iff (Prog.drive_runs _ _ _), by decide +kernel⟩

/-- The remote serves another group. -/
def strayUpdate : Trace Op Op.Ans × Except Fault Unit × RemoteMemoryProvider :=
  friendlyUpdate .new 7 [.welcome PROTOCOL_VERSION, .metadata [], .tuples 8 []]

/-- A fresh session, greeted, connected and served, of which `ingest` refuses the exchange: the
    session keeps its channel. -/
theorem update_keeps_channel :
    (RemoteMemoryProvider.new.update 7).Runs strayUpdate.1 strayUpdate.2 ∧
      ¬ Recovers 7 strayUpdate.2.1 strayUpdate.2.2 := by
  refine ⟨Prog.drive_runs _ _ _, fun h => ?_⟩
  have hresult : strayUpdate.2.1 =
      .error (.err (.other "the remote served group 8, not 7")) := by decide +kernel
  have hchannel : (strayUpdate.2.2.session 7).channel = some 0 := by decide +kernel
  rw [(h _ hresult).1] at hchannel
  cases hchannel

end Rdmalib
