/-
  File:      Rdmalib/Synch/Rounds.lean
  Subject:   The barrier holds each round until every node has entered it.

  * `Local` -- what a node and its two threads agree on: the calls counted, the clock of the call,
    and that a responder runs only inside of one;
  * `Carried` -- wherever a clock is held or under way (in a request, a reply, a queue, a thread or
    `known_clocks`), its node has got that far;
  * `Reached` -- both, in every state of every run;
  * results: no entry of `known_clocks` exceeds the calls of its peer (`known_le_entered`), and a
    call returns after every other node has entered it (`returns_entered`).
-/
import Rdmalib.Synch.Protocol

namespace Rdmalib.GlobalSynch

open Base
open Function (update)

/-! ## 1. What an operation changes -/

section Post

variable {cluster : List Ipv4Addr} {t : Tid} {w : World} {i : NodeId}

/-- The connection that an operation accepts, and the one that it opens. -/
def Op.accepts : (o : Op) → o.Ans → Option Conn
  | .accept, a => a
  | _, _ => none

def Op.opens : (o : Op) → o.Ans → Option (Ipv4Addr × Conn)
  | .connect peer, .ok c => some (peer, c)
  | _, _ => none

/-- **The nodes**: the thread's own one, and the backlog of the one it connects to. -/
theorem nodes_post (o : Op) (a : o.Ans) (i : NodeId) :
    (post cluster t o a w).nodes i = (if i = t.node then nodePost o a (w.nodes i) else w.nodes i) ∨
      ∃ peer c, o.opens a = some (peer, c) ∧ i = World.nodeAt cluster peer ∧
        (post cluster t o a w).nodes i =
          { w.nodes i with backlog := (w.nodes i).backlog ++ [c] } := by
  have hnode (f : Node → Node) : (w.modifyNode t.node f).nodes i =
      if i = t.node then f (w.nodes i) else w.nodes i := by
    show update w.nodes t.node (f (w.nodes t.node)) i = _
    by_cases hi : i = t.node
    · rw [if_pos hi, hi, Function.update_self]
    · rw [if_neg hi, Function.update_of_ne hi]
  cases o with
  | returned ok => cases ok <;> exact Or.inl (hnode _)
  | accept => cases a <;> exact Or.inl (hnode _)
  | connect peer =>
      have hsame : (w.modifyNode t.node id).nodes i = w.nodes i := by rw [hnode]; split <;> rfl
      cases a with
      | error e => exact Or.inl (hnode _)
      | ok c =>
          show update (w.modifyNode t.node id).nodes (World.nodeAt cluster peer) _ i = _ ∨ _
          by_cases hi : i = World.nodeAt cluster peer
          · refine Or.inr ⟨peer, c, rfl, hi, ?_⟩
            show update (w.modifyNode t.node id).nodes (World.nodeAt cluster peer) _ i = _
            rw [← hi, Function.update_self, ← hsame]
            rfl
          · rw [Function.update_of_ne hi, hnode]
            exact Or.inl rfl
  | _ => exact Or.inl (hnode _)

/-- Of another node, only the backlog changes. -/
theorem node_post {β : Type} (f : Node → β) (hf : ∀ n backlog, f { n with backlog } = f n) (o : Op)
    (a : o.Ans) : f ((post cluster t o a w).nodes i) =
      f (if i = t.node then nodePost o a (w.nodes i) else w.nodes i) := by
  rcases (show (post cluster t o a w).nodes i = _ ∨ _ from nodes_post o a i) with h | h
  · rw [h]
  · obtain ⟨peer, c, hopens, _, h⟩ := h
    have hsame : nodePost o a (w.nodes i) = w.nodes i := by
      cases o with
      | connect peer' => rfl
      | _ => cases hopens
    rw [h, hf, hsame, ite_self]

/-- No clock goes back. -/
theorem clock_mono (o : Op) (a : o.Ans) (hcan : canAnswer cluster t o w a) :
    (w.nodes i).clock ≤ ((post cluster t o a w).nodes i).clock := by
  rw [node_post Node.clock (fun _ _ => rfl)]
  split
  · next hi =>
    subst hi
    cases o with
    | raiseClock =>
        have hcan : a = if (w.nodes t.node).clock.toNat + 1 < 2 ^ 64 then
          some ((w.nodes t.node).clock + 1) else none := hcan
        rw [hcan]
        split
        · next hlt =>
          show _ ≤ (w.nodes t.node).clock + 1
          rw [UInt64.le_iff_toNat_le, UInt64.toNat_add]
          show _ ≤ (_ + 1) % 2 ^ 64
          omega
        · exact UInt64.le_refl _
    | bind | accept | tryRecv => cases a <;> exact UInt64.le_refl _
    | _ => exact UInt64.le_refl _
  · exact UInt64.le_refl _

/-- What an operation does to the poll on connection `c`. -/
def pollPost (w : World) (t : Tid) (o : Op) (a : o.Ans) (c : Conn) (p : Poll) : Poll :=
  match o, a with
  | .accept, some c' => if c' = c then { p with accepted := true } else p
  | .seenSend c' _ clock, _ =>
      if c' = c then { p with told := some (clock, (w.nodes t.node).clock) } else p
  | .writeAll c' bytes, (_, n) => if c' = c then p.write (bytes.take n) t else p
  | _, _ => p

theorem getElem?_modifyPoll {c c' : Conn} (f : Poll → Poll) :
    (w.modifyPoll c' f).polls[c]? = w.polls[c]?.map fun p => if c' = c then f p else p :=
  List.getElem?_modify ..

/-- The polls that there are, and a new one. -/
theorem polls_post (o : Op) (a : o.Ans) (c : Conn) :
    (post cluster t o a w).polls[c]? = w.polls[c]?.map (pollPost w t o a c) ∨
      (c = w.polls.length ∧ ∃ peer, o = .connect peer ∧ (post cluster t o a w).polls[c]? =
        some { poller := t.node, target := World.nodeAt cluster peer }) := by
  have hsame (hpolls : (post cluster t o a w).polls = w.polls)
      (hpost : ∀ p, pollPost w t o a c p = p) :
      (post cluster t o a w).polls[c]? = w.polls[c]?.map (pollPost w t o a c) := by
    rw [hpolls, show pollPost w t o a c = id from funext hpost, Option.map_id]
    rfl
  cases o with
  | returned ok => cases ok <;> exact Or.inl (hsame rfl fun _ => rfl)
  | accept =>
      cases a with
      | none => exact Or.inl (hsame rfl fun _ => rfl)
      | some c' => exact Or.inl (getElem?_modifyPoll _)
  | writeAll c' bytes => exact Or.inl (getElem?_modifyPoll _)
  | seenSend c' ip clock =>
      refine Or.inl ((getElem?_modifyPoll _).trans ?_)
      have hclock : ((w.modifyNode t.node (nodePost (.seenSend c' ip clock) a)).nodes t.node).clock =
          (w.nodes t.node).clock := by
        show (update w.nodes t.node _ t.node).clock = _
        rw [Function.update_self]
        rfl
      rw [hclock]
      rfl
  | connect peer =>
      cases a with
      | error e => exact Or.inl (hsame rfl fun _ => rfl)
      | ok c' =>
          show (w.polls ++ [_])[c]? = w.polls[c]?.map id ∨ _
          rcases Nat.lt_trichotomy c w.polls.length with hlt | rfl | hgt
          · left
            rw [List.getElem?_append_left hlt, Option.map_id]
            rfl
          · right
            refine ⟨rfl, peer, rfl, ?_⟩
            show (w.polls ++ [_])[w.polls.length]? = _
            rw [List.getElem?_append_right (Nat.le_refl _), Nat.sub_self]
            rfl
          · left
            rw [List.getElem?_eq_none (by simp; omega), List.getElem?_eq_none (by omega)]
            rfl
  | _ => exact Or.inl (hsame rfl fun _ => rfl)

/-- A poll stays, with what the operation does to it. -/
theorem polls_kept (o : Op) (a : o.Ans) {c : Conn} {p : Poll}
    (hp : w.polls[c]? = some p) :
    (post cluster t o a w).polls[c]? = some (pollPost w t o a c p) := by
  rcases (show (post cluster t o a w).polls[c]? = _ ∨ _ from polls_post o a c) with h | ⟨rfl, _⟩
  · rw [h, hp]
    rfl
  · rw [List.getElem?_eq_none (Nat.le_refl _)] at hp
    cases hp

/-- Whose a poll is does not change. -/
theorem pollPost_ends (o : Op) (a : o.Ans) (c : Conn) (p : Poll) :
    (pollPost w t o a c p).poller = p.poller ∧ (pollPost w t o a c p).target = p.target := by
  unfold pollPost
  split
  · split <;> exact ⟨rfl, rfl⟩
  · split <;> exact ⟨rfl, rfl⟩
  · split
    · cases t <;> exact ⟨rfl, rfl⟩
    · exact ⟨rfl, rfl⟩
  · exact ⟨rfl, rfl⟩

end Post

/-! ## 2. A node and its threads -/

/-- What a node, its main thread and its responder agree on. -/
structure Local (n : Node) (main responder : Know) : Prop where
  entered : n.entered = n.clock.toNat + if main.stage = .called then 1 else 0
  clock : main.stage ≠ .outside → main.stage ≠ .called →
    main.clock = n.clock ∧ main.round = n.clock
  spawned : ∀ c ∈ n.spawned, c = n.clock ∧ main.stage = .inside
  active : responder.active = true →
    n.running = some n.clock ∧ responder.clock = n.clock ∧ main.stage = .inside
  knows : ∀ e ∈ main.knows, e.2 ≤ n.knownClocks.getD e.1 0

section Local

variable {cluster peers : List Ipv4Addr} {n : Node} {main responder : Know} {w : World} {i : NodeId}

theorem u64_max_cases (a b : UInt64) : (max a b = b ∧ a ≤ b) ∨ (max a b = a ∧ b ≤ a) := by
  show ((if a ≤ b then b else a) = b ∧ a ≤ b) ∨ ((if a ≤ b then b else a) = a ∧ b ≤ a)
  by_cases h : a ≤ b
  · rw [if_pos h]
    exact Or.inl ⟨rfl, h⟩
  · rw [if_neg h]
    refine Or.inr ⟨rfl, ?_⟩
    rw [UInt64.le_iff_toNat_le] at h ⊢
    omega

/-- An entry of `known_clocks` after `hear`. -/
theorem getD_hear (clocks : List UInt64) (index : Nat) (clock : UInt64) (j : Nat) :
    (clocks.modify index (max · clock)).getD j 0 =
      if j = index ∧ j < clocks.length then max (clocks.getD j 0) clock else clocks.getD j 0 := by
  simp only [List.getD_eq_getElem?_getD, List.getElem?_modify]
  by_cases hj : index = j
  · subst hj
    by_cases hlt : index < clocks.length
    · simp [hlt]
    · simp [hlt]
  · simp [hj, Ne.symm hj]

theorem le_getD_hear (clocks : List UInt64) (index : Nat) (clock : UInt64) (j : Nat) :
    clocks.getD j 0 ≤ (clocks.modify index (max · clock)).getD j 0 := by
  rw [getD_hear]
  split
  · rcases u64_max_cases (clocks.getD j 0) clock with ⟨h, hle⟩ | ⟨h, _⟩
    · rw [h]
      exact hle
    · rw [h]
      exact UInt64.le_refl _
  · exact UInt64.le_refl _

/-- An entry of `known_clocks` only grows. -/
theorem known_mono (o : Op) (a : o.Ans) (j : Nat) :
    n.knownClocks.getD j 0 ≤ (nodePost o a n).knownClocks.getD j 0 := by
  cases o with
  | hear index clock => exact le_getD_hear _ index clock j
  | tryRecv peers' =>
      cases a with
      | none => exact UInt64.le_refl _
      | some item =>
          show _ ≤ (record peers' n.knownClocks item).getD j 0
          unfold record
          split
          · next index _ => exact le_getD_hear _ index item.2 j
          · exact UInt64.le_refl _
  | bind | accept | raiseClock => cases a <;> exact UInt64.le_refl _
  | _ => exact UInt64.le_refl _

/-- A responder is about only inside of a call. -/
theorem Local.idle (h : Local n main responder) (hstage : main.stage ≠ .inside) :
    n.spawned = none ∧ responder.active = false := by
  constructor
  · by_contra hspawned
    obtain ⟨c, hc⟩ := Option.ne_none_iff_exists'.mp hspawned
    exact hstage (h.spawned c hc).2
  · by_contra hactive
    exact hstage (h.active (by simpa using hactive)).2.2

/-- A call begins. -/
theorem Local.callSynch (h : Local (w.nodes i) main responder) {a : Op.callSynch.Ans}
    (hstage : main.stage = .outside) :
    Local (nodePost .callSynch a (w.nodes i)) (mainNext main .callSynch a) responder := by
  obtain ⟨hspawned, hactive⟩ := h.idle (by simp [hstage])
  refine ⟨?_, fun _ hne => absurd rfl hne, fun c hc => ?_, fun hr => ?_, h.knows⟩
  · have hentered := h.entered
    rw [hstage] at hentered
    show (w.nodes i).entered + 1 = _
    rw [hentered]
    rfl
  · exact nomatch hspawned.symm.trans hc
  · exact nomatch hactive.symm.trans hr

/-- The clock is raised: the round is the node's next. -/
theorem Local.raiseClock (h : Local (w.nodes i) main responder) {a : Op.raiseClock.Ans}
    (hstage : main.stage = .called) (hcan : canAnswer cluster (.main i) .raiseClock w a) :
    Local (nodePost .raiseClock a (w.nodes i)) (mainNext main .raiseClock a) responder := by
  obtain ⟨hspawned, hactive⟩ := h.idle (by simp [hstage])
  cases a with
  | none => exact h
  | some clock =>
      refine ⟨?_, fun _ _ => ⟨rfl, rfl⟩, fun c hc => ?_, fun hr => ?_,
        fun _ he => absurd he List.not_mem_nil⟩
      · have hentered := h.entered
        rw [hstage] at hentered
        have hcan : some clock = if (w.nodes i).clock.toNat + 1 < 2 ^ 64 then
          some ((w.nodes i).clock + 1) else none := hcan
        split at hcan
        · next hlt =>
          obtain rfl := Option.some.inj hcan
          show (w.nodes i).entered = ((w.nodes i).clock + 1).toNat + 0
          rw [hentered, UInt64.toNat_add]
          show _ + 1 = (_ + 1) % 2 ^ 64 + 0
          omega
        · cases hcan
      · exact nomatch hspawned.symm.trans hc
      · exact nomatch hactive.symm.trans hr

/-- The responder is started, with the clock of the round. -/
theorem Local.spawn (h : Local (w.nodes i) main responder) {a : (Op.spawn main.clock).Ans}
    (hstage : main.stage = .raised) :
    Local (nodePost (.spawn main.clock) a (w.nodes i)) (mainNext main (.spawn main.clock) a)
      responder := by
  obtain ⟨_, hactive⟩ := h.idle (by simp [hstage])
  have hclock := h.clock (by simp [hstage]) (by simp [hstage])
  have hentered := h.entered
  rw [hstage] at hentered
  refine ⟨hentered, fun _ _ => hclock, fun c hc => ?_, fun hr => ?_, h.knows⟩
  · obtain rfl := Option.some.inj hc
    exact ⟨hclock.1, rfl⟩
  · exact nomatch hactive.symm.trans hr

/-- The responder has ended. -/
theorem Local.join (h : Local (w.nodes i) main responder) {a : Op.join.Ans}
    (hstage : main.stage = .inside) (hcan : canAnswer cluster (.main i) .join w a) :
    Local (nodePost .join a (w.nodes i)) (mainNext main .join a) responder := by
  obtain ⟨hspawned, hrunning⟩ : (w.nodes i).spawned = none ∧ (w.nodes i).running = none := hcan
  have hentered := h.entered
  rw [hstage] at hentered
  refine ⟨hentered, fun _ _ => h.clock (by simp [hstage]) (by simp [hstage]), fun c hc => ?_,
    fun hr => ?_, h.knows⟩
  · exact nomatch hspawned.symm.trans hc
  · exact nomatch hrunning.symm.trans (h.active hr).1

/-- The call is over. -/
theorem Local.returned (h : Local (w.nodes i) main responder) {ok : Bool} {a : (Op.returned ok).Ans}
    (hmay : mainMay peers main (.returned ok)) :
    Local (nodePost (.returned ok) a (w.nodes i)) (mainNext main (.returned ok) a) responder := by
  have hstage : main.stage = .raised ∨ main.stage = .joined := by
    cases ok with
    | true => exact hmay.1
    | false => exact Or.inl hmay
  have hne : main.stage ≠ .inside ∧ main.stage ≠ .called := by
    rcases hstage with hstage | hstage <;> simp [hstage]
  obtain ⟨hspawned, hactive⟩ := h.idle hne.1
  have hentered := h.entered
  rw [if_neg hne.2] at hentered
  refine ⟨hentered, fun hne _ => absurd rfl hne, fun c hc => ?_, fun hr => ?_, h.knows⟩
  · exact nomatch hspawned.symm.trans hc
  · exact nomatch hactive.symm.trans hr

theorem Local.main_step (h : Local (w.nodes i) main responder) {o : Op} {a : o.Ans}
    (hmay : mainMay peers main o) (hcan : canAnswer cluster (.main i) o w a) :
    Local (nodePost o a (w.nodes i)) (mainNext main o a) responder := by
  cases o with
  | callSynch => exact h.callSynch hmay
  | raiseClock => exact h.raiseClock hmay hcan
  | clock =>
      refine ⟨h.entered, fun hne hne' => ⟨?_, (h.clock hne hne').2⟩, h.spawned, h.active, h.knows⟩
      exact (hcan : a = (w.nodes i).clock)
  | known index =>
      refine ⟨h.entered, h.clock, h.spawned, h.active, fun e he => ?_⟩
      rcases List.mem_cons.mp he with rfl | he
      · have hcan : a = (w.nodes i).knownClocks.getD index 0 := hcan
        rw [hcan]
        exact UInt64.le_refl _
      · exact h.knows e he
  | hear index clock =>
      refine ⟨h.entered, h.clock, h.spawned, h.active, fun e he => ?_⟩
      exact UInt64.le_trans (h.knows e he) (known_mono (.hear index clock) a e.1)
  | tryRecv peers' =>
      cases a with
      | none => exact h
      | some item =>
          refine ⟨h.entered, h.clock, h.spawned, h.active, fun e he => ?_⟩
          exact UInt64.le_trans (h.knows e he) (known_mono (.tryRecv peers') (some item) e.1)
  | spawn myClock =>
      obtain ⟨hstage, rfl⟩ : main.stage = .raised ∧ myClock = main.clock := hmay
      exact h.spawn hstage
  | join => exact h.join hmay.1 hcan
  | returned ok => exact h.returned hmay
  | bind | connect | readExact | setTimeouts =>
      cases a <;> exact ⟨h.entered, h.clock, h.spawned, h.active, h.knows⟩
  | writeAll c bytes =>
      obtain ⟨r, n⟩ := a
      cases r <;> exact ⟨h.entered, h.clock, h.spawned, h.active, h.knows⟩
  | awaitSpawn | loadShutdown | accept | peerAddr | seenSend | finish => exact absurd hmay id
  | _ => exact ⟨h.entered, h.clock, h.spawned, h.active, h.knows⟩

theorem Local.responder_step (h : Local (w.nodes i) main responder) {o : Op} {a : o.Ans}
    (hmay : responderMay responder o) (hcan : canAnswer cluster (.responder i) o w a) :
    Local (nodePost o a (w.nodes i)) main (responderNext responder o a) := by
  cases o with
  | awaitSpawn =>
      have hspawned : (w.nodes i).spawned = some a := hcan
      obtain ⟨rfl, hstage⟩ := h.spawned a hspawned
      exact ⟨h.entered, h.clock, fun _ hc => (by cases hc), fun _ => ⟨rfl, rfl, hstage⟩, h.knows⟩
  | finish => exact ⟨h.entered, h.clock, h.spawned, fun hr => (by cases hr), h.knows⟩
  | accept | readExact | peerAddr =>
      cases a <;> exact ⟨h.entered, h.clock, h.spawned, h.active, h.knows⟩
  | seenSend | writeAll | loadShutdown | setTimeouts =>
      exact ⟨h.entered, h.clock, h.spawned, h.active, h.knows⟩
  | _ => exact absurd hmay id

end Local

/-! ## 3. The clocks under way -/

theorem fromLeBytes_toLeBytes (clock : UInt64) : fromLeBytes (toLeBytes clock) = clock :=
  leValue_leBytes_u64 clock

/-- Eight bytes of what was written are all of it. -/
theorem fromLeBytes_of_whole {bytes stream : List UInt8} {clock : UInt64} (hlen : bytes.length = 8)
    (h : bytes <+: stream) (h' : stream <+: toLeBytes clock) : fromLeBytes bytes = clock := by
  have heq : bytes = toLeBytes clock :=
    (h.trans h').eq_of_length (hlen.trans (length_leBytes 8 _).symm)
  rw [heq, fromLeBytes_toLeBytes]

/-- The node with this address has had this clock. -/
def Got (cluster : List Ipv4Addr) (w : World) (ip : Ipv4Addr) (clock : UInt64) : Prop :=
  ∀ j : NodeId, cluster[j]? = some ip → clock ≤ (w.nodes j).clock

/-- What a main thread's connection has on it. -/
structure Asks (cluster : List Ipv4Addr) (w : World) (i : NodeId) (l : Line) (p : Poll) : Prop where
  poller : p.poller = i
  target : p.target = World.nodeAt cluster l.peer
  request : l.wrote = false → p.request = []
  got : ∀ clock ∈ l.got, Got cluster w l.peer clock

/-- What a responder's connection has on it. -/
structure Answers (cluster : List Ipv4Addr) (i : NodeId) (a : Answering) (p : Poll) : Prop where
  target : p.target = i
  accepted : p.accepted = true
  reply : p.reply = []
  request : ∀ bytes ∈ a.request, bytes.length = 8 ∧ bytes <+: p.request
  addr : ∀ ip ∈ a.addr, cluster[p.poller]? = some ip

/-- **The clocks that are carried** are clocks that their nodes have had. -/
structure Carried (cluster : List Ipv4Addr) (w : World) (know : Tid → Know) : Prop where
  request : ∀ (c : Conn) (p : Poll), w.polls[c]? = some p →
    ∃ clock ≤ (w.nodes p.poller).clock, p.request <+: toLeBytes clock
  reply : ∀ (c : Conn) (p : Poll), w.polls[c]? = some p →
    ∃ clock ≤ (w.nodes p.target).clock, p.reply <+: toLeBytes clock
  backlog : ∀ i, ∀ c ∈ (w.nodes i).backlog, ∃ p, w.polls[c]? = some p ∧ p.target = i ∧
    p.accepted = false ∧ p.reply = []
  line : ∀ i, ∀ l ∈ (know (.main i)).line, ∃ p, w.polls[l.conn]? = some p ∧ Asks cluster w i l p
  answering : ∀ i, ∀ a ∈ (know (.responder i)).answering, ∃ p, w.polls[a.conn]? = some p ∧
    Answers cluster i a p
  seen : ∀ i, ∀ e ∈ (w.nodes i).seen, Got cluster w e.1 e.2
  known : ∀ i index ip, (others cluster i)[index]? = some ip →
    Got cluster w ip ((w.nodes i).knownClocks.getD index 0)
  returns : ∀ e ∈ w.returns, ∀ j < cluster.length, j ≠ e.1 → e.2 ≤ (w.nodes j).clock.toNat

section Step

variable {cluster : List Ipv4Addr} {t : Tid} {w : World} {know : Tid → Know} {o : Op} {a : o.Ans}

theorem Got.mono {ip : Ipv4Addr} {clock : UInt64} (h : Got cluster w ip clock)
    (hcan : canAnswer cluster t o w a) : Got cluster (post cluster t o a w) ip clock :=
  fun j hj => UInt64.le_trans (h j hj) (clock_mono o a hcan)

/-- The poll that a `connect` opens. -/
theorem polls_new {peer : Ipv4Addr} {c : Conn} (hcan : canAnswer cluster t o w a)
    (hopens : o.opens a = some (peer, c)) : (post cluster t o a w).polls[c]? =
      some { poller := t.node, target := World.nodeAt cluster peer } := by
  cases o with
  | connect peer' =>
      cases a with
      | error e => cases hopens
      | ok c' =>
          cases hopens
          obtain ⟨rfl, _⟩ : c = w.polls.length ∧ _ := hcan
          show (w.polls ++ [_])[w.polls.length]? = _
          rw [List.getElem?_append_right (Nat.le_refl _), Nat.sub_self]
          rfl
  | _ => cases hopens

/-- A property of polls that the operation keeps, and a new poll has. -/
theorem polls_forall {P : Poll → Prop} (hnew : ∀ target, P { poller := t.node, target })
    (hold : ∀ c p, w.polls[c]? = some p → P (pollPost w t o a c p)) {c : Conn} {p : Poll}
    (hp : (post cluster t o a w).polls[c]? = some p) : P p := by
  rcases (show (post cluster t o a w).polls[c]? = _ ∨ _ from polls_post o a c) with h | h
  · rw [h] at hp
    obtain ⟨p₀, hp₀, rfl⟩ := Option.map_eq_some_iff.mp hp
    exact hold c p₀ hp₀
  · obtain ⟨_, peer, _, h⟩ := h
    rw [h] at hp
    obtain rfl := Option.some.inj hp
    exact hnew _

/-- A request is written by the thread that polls. -/
theorem pollPost_request (c : Conn) (p : Poll) : (pollPost w t o a c p).request = p.request ∨
    ∃ i bytes, t = .main i ∧ o = .writeAll c bytes ∧
      ∃ n, (pollPost w t o a c p).request = p.request ++ bytes.take n := by
  cases o with
  | writeAll c' bytes =>
      show (if c' = c then p.write (bytes.take a.2) t else p).request = _ ∨ _
      by_cases hc : c' = c
      · subst hc
        cases t with
        | main i => exact Or.inr ⟨i, bytes, rfl, rfl, a.2, by simp [pollPost, Poll.write]⟩
        | responder i => exact Or.inl (by simp [Poll.write])
      · exact Or.inl (by rw [if_neg hc])
  | accept =>
      cases a with
      | none => exact Or.inl rfl
      | some c' => exact Or.inl (by simp only [pollPost]; split <;> rfl)
  | seenSend c' ip clock => exact Or.inl (by simp only [pollPost]; split <;> rfl)
  | _ => exact Or.inl rfl

/-- A reply is written by a responder. -/
theorem pollPost_reply (c : Conn) (p : Poll) : (pollPost w t o a c p).reply = p.reply ∨
    ∃ i bytes, t = .responder i ∧ o = .writeAll c bytes ∧
      ∃ n, (pollPost w t o a c p).reply = p.reply ++ bytes.take n := by
  cases o with
  | writeAll c' bytes =>
      show (if c' = c then p.write (bytes.take a.2) t else p).reply = _ ∨ _
      by_cases hc : c' = c
      · subst hc
        cases t with
        | main i => exact Or.inl (by simp [Poll.write])
        | responder i => exact Or.inr ⟨i, bytes, rfl, rfl, a.2, by simp [pollPost, Poll.write]⟩
      · exact Or.inl (by rw [if_neg hc])
  | accept =>
      cases a with
      | none => exact Or.inl rfl
      | some c' => exact Or.inl (by simp only [pollPost]; split <;> rfl)
  | seenSend c' ip clock => exact Or.inl (by simp only [pollPost]; split <;> rfl)
  | _ => exact Or.inl rfl

/-- A poll is accepted when it is taken from the backlog. -/
theorem pollPost_accepted (c : Conn) (p : Poll) :
    (pollPost w t o a c p).accepted = p.accepted ∨ o.accepts a = some c := by
  cases o with
  | accept =>
      cases a with
      | none => exact Or.inl rfl
      | some c' =>
          by_cases hc : c' = c
          · exact Or.inr (congrArg some hc)
          · exact Or.inl (by simp only [pollPost, if_neg hc])
  | writeAll c' bytes =>
      refine Or.inl ?_
      show (if c' = c then p.write (bytes.take a.2) t else p).accepted = _
      split
      · cases t <;> rfl
      · rfl
  | seenSend c' ip clock => exact Or.inl (by simp only [pollPost]; split <;> rfl)
  | _ => exact Or.inl rfl

/-- What is in a backlog was there before and is not accepted now, or has just been opened. -/
theorem backlog_post {i : NodeId} {c : Conn} (h : c ∈ ((post cluster t o a w).nodes i).backlog) :
    (c ∈ (w.nodes i).backlog ∧ (i = t.node → o.accepts a ≠ some c)) ∨
      ∃ peer, o.opens a = some (peer, c) ∧ i = World.nodeAt cluster peer := by
  have hquiet {o : Op} {a : o.Ans} (hopens : ∃ x, o.opens a = some x) : o.accepts a ≠ some c := by
    obtain ⟨x, hx⟩ := hopens
    cases o with
    | connect peer => exact nofun
    | _ => cases hx
  rcases (show (post cluster t o a w).nodes i = _ ∨ _ from nodes_post o a i) with hnode | hnode
  · rw [hnode] at h
    by_cases hi : i = t.node
    · rw [if_pos hi] at h
      cases o with
      | accept =>
          cases a with
          | none => exact Or.inl ⟨h, nofun⟩
          | some c' =>
              obtain ⟨hmem, hne⟩ := List.mem_filter.mp h
              refine Or.inl ⟨hmem, fun _ hc => ?_⟩
              obtain rfl := Option.some.inj hc
              exact absurd rfl (of_decide_eq_true hne)
      | dropListener | exitProcess | finish => cases h
      | bind | raiseClock | tryRecv => cases a <;> exact Or.inl ⟨h, nofun⟩
      | _ => exact Or.inl ⟨h, nofun⟩
    · rw [if_neg hi] at h
      exact Or.inl ⟨h, fun hi' => absurd hi' hi⟩
  · obtain ⟨peer, c', hopens, hi, hnode⟩ := hnode
    rw [hnode] at h
    rcases List.mem_append.mp h with h | h
    · exact Or.inl ⟨h, fun _ => hquiet ⟨_, hopens⟩⟩
    · obtain rfl := List.mem_singleton.mp h
      exact Or.inr ⟨peer, hopens, hi⟩

variable (cluster) in
/-- An operation of a run, with what is known before it. -/
structure Operates (w : World) (know : Tid → Know) (t : Tid) (o : Op) (a : o.Ans) : Prop where
  sound : Carried cluster w know
  agree : ∀ i, Local (w.nodes i) (know (.main i)) (know (.responder i))
  role : (know t).role = t
  may : (protocol cluster).may (know t) o
  can : canAnswer cluster t o w a

/-- What each thread knows after it. -/
def learnt (cluster : List Ipv4Addr) (know : Tid → Know) (t : Tid) (o : Op) (a : o.Ans) :
    Tid → Know :=
  update know t ((protocol cluster).next (know t) o a)

variable {i : NodeId}

theorem Operates.main (h : Operates cluster w know (.main i) o a) :
    mainMay (others cluster i) (know (.main i)) o := (protocol_main h.role o).1.mp h.may

theorem Operates.responder (h : Operates cluster w know (.responder i) o a) :
    responderMay (know (.responder i)) o := (protocol_responder h.role o).1.mp h.may

theorem Operates.learnt_main (h : Operates cluster w know (.main i) o a) :
    learnt cluster know (.main i) o a (.main i) = mainNext (know (.main i)) o a :=
  (Function.update_self _ _ _).trans ((protocol_main h.role o).2 a)

theorem Operates.learnt_responder (h : Operates cluster w know (.responder i) o a) :
    learnt cluster know (.responder i) o a (.responder i) =
      responderNext (know (.responder i)) o a :=
  (Function.update_self _ _ _).trans ((protocol_responder h.role o).2 a)

theorem learnt_of_ne {u : Tid} (hu : u ≠ t) : learnt cluster know t o a u = know u :=
  Function.update_of_ne hu _ _

theorem Operates.request (h : Operates cluster w know t o a) (c : Conn) (p : Poll)
    (hp : (post cluster t o a w).polls[c]? = some p) :
    ∃ clock ≤ ((post cluster t o a w).nodes p.poller).clock, p.request <+: toLeBytes clock := by
  revert hp
  refine polls_forall (t := t) (P := fun p => ∃ clock ≤
    ((post cluster t o a w).nodes p.poller).clock, p.request <+: toLeBytes clock)
    (fun _ => ⟨0, UInt64.zero_le, List.nil_prefix⟩) fun c p hp => ?_
  have hmono := clock_mono (i := p.poller) o a h.can
  rw [(pollPost_ends o a c p).1]
  rcases pollPost_request (w := w) (t := t) (o := o) (a := a) c p with hold | hnew
  · obtain ⟨clock, hle, hpre⟩ := h.sound.request c p hp
    exact ⟨clock, UInt64.le_trans hle hmono, hold ▸ hpre⟩
  · obtain ⟨i, bytes, rfl, rfl, n, hwritten⟩ := hnew
    obtain ⟨hstage, rfl, l, hl, rfl, hwrote⟩ := h.main
    obtain ⟨p', hp', hasks⟩ := h.sound.line i l hl
    obtain rfl := Option.some.inj (hp.symm.trans hp')
    have hclock := (h.agree i).clock (by simp [hstage]) (by simp [hstage])
    rw [hwritten, hasks.request hwrote, List.nil_append]
    refine ⟨(know (.main i)).clock, ?_, List.take_prefix _ _⟩
    have hsame : (know (.main i)).clock = (w.nodes p.poller).clock := by rw [hclock.1, hasks.poller]
    exact (congrArg (· ≤ _) hsame).mpr hmono

theorem Operates.reply (h : Operates cluster w know t o a) (c : Conn) (p : Poll)
    (hp : (post cluster t o a w).polls[c]? = some p) :
    ∃ clock ≤ ((post cluster t o a w).nodes p.target).clock, p.reply <+: toLeBytes clock := by
  revert hp
  refine polls_forall (t := t) (P := fun p => ∃ clock ≤
    ((post cluster t o a w).nodes p.target).clock, p.reply <+: toLeBytes clock)
    (fun _ => ⟨0, UInt64.zero_le, List.nil_prefix⟩) fun c p hp => ?_
  have hmono := clock_mono (i := p.target) o a h.can
  rw [(pollPost_ends o a c p).2]
  rcases pollPost_reply (w := w) (t := t) (o := o) (a := a) c p with hold | hnew
  · obtain ⟨clock, hle, hpre⟩ := h.sound.reply c p hp
    exact ⟨clock, UInt64.le_trans hle hmono, hold ▸ hpre⟩
  · obtain ⟨i, bytes, rfl, rfl, n, hwritten⟩ := hnew
    obtain ⟨hactive, rfl, b, hb, rfl, _⟩ := h.responder
    obtain ⟨p', hp', hanswers⟩ := h.sound.answering i b hb
    obtain rfl := Option.some.inj (hp.symm.trans hp')
    rw [hwritten, hanswers.reply, List.nil_append]
    refine ⟨(know (.responder i)).clock, ?_, List.take_prefix _ _⟩
    have hsame : (know (.responder i)).clock = (w.nodes p.target).clock := by
      rw [((h.agree i).active hactive).2.1, hanswers.target]
    exact (congrArg (· ≤ _) hsame).mpr hmono

theorem Operates.backlog (h : Operates cluster w know t o a) (i : NodeId) (c : Conn)
    (hc : c ∈ ((post cluster t o a w).nodes i).backlog) :
    ∃ p, (post cluster t o a w).polls[c]? = some p ∧ p.target = i ∧ p.accepted = false ∧
      p.reply = [] := by
  rcases backlog_post hc with ⟨hold, hkept⟩ | ⟨peer, hopens, rfl⟩
  · obtain ⟨p, hp, htarget, haccepted, hreply⟩ := h.sound.backlog i c hold
    refine ⟨_, polls_kept o a hp, (pollPost_ends o a c p).2.trans htarget, ?_, ?_⟩
    · -- only its own node accepts it, and then it is no longer in the backlog
      rcases pollPost_accepted (w := w) (t := t) (o := o) (a := a) c p with hsame | haccepts
      · exact hsame.trans haccepted
      · refine absurd haccepts (hkept ?_)
        cases o with
        | accept =>
            obtain rfl : a = some c := haccepts
            obtain ⟨p', hp', htarget', _⟩ := h.sound.backlog t.node c h.can
            obtain rfl := Option.some.inj (hp.symm.trans hp')
            exact htarget.symm.trans htarget'
        | _ => cases haccepts
    · rcases pollPost_reply (w := w) (t := t) (o := o) (a := a) c p with hsame | hnew
      · exact hsame.trans hreply
      · obtain ⟨j, bytes, rfl, rfl, _⟩ := hnew
        obtain ⟨_, _, b, hb, rfl, _⟩ := h.responder
        obtain ⟨p', hp', hanswers⟩ := h.sound.answering j b hb
        obtain rfl := Option.some.inj (hp.symm.trans hp')
        exact nomatch haccepted.symm.trans hanswers.accepted
  · exact ⟨_, polls_new h.can hopens, rfl, rfl, rfl⟩

/-- A position in the cluster is found by its address. -/
theorem nodeAt_eq (hdistinct : cluster.Nodup) {ip : Ipv4Addr} {j : NodeId}
    (hj : cluster[j]? = some ip) : World.nodeAt cluster ip = j := by
  obtain ⟨hlt, rfl⟩ := List.getElem?_eq_some_iff.mp hj
  exact hdistinct.idxOf_getElem j hlt

theorem position_unique (hdistinct : cluster.Nodup) {ip : Ipv4Addr} {j j' : NodeId}
    (hj : cluster[j]? = some ip) (hj' : cluster[j']? = some ip) : j = j' :=
  (nodeAt_eq hdistinct hj).symm.trans (nodeAt_eq hdistinct hj')

/-- A line on which its main thread does not write. -/
theorem Operates.line_kept (h : Operates cluster w know t o a) {l : Line}
    (hl : l ∈ (know (.main i)).line) (hwrites : t = .main i → ∀ bytes, o ≠ .writeAll l.conn bytes) :
    ∃ p, (post cluster t o a w).polls[l.conn]? = some p ∧
      Asks cluster (post cluster t o a w) i l p := by
  obtain ⟨p, hp, hasks⟩ := h.sound.line i l hl
  have hends := pollPost_ends (w := w) (t := t) o a l.conn p
  refine ⟨_, polls_kept o a hp, hends.1.trans hasks.poller, hends.2.trans hasks.target,
    fun hwrote => ?_, fun clock hclock => (hasks.got clock hclock).mono h.can⟩
  rcases pollPost_request (w := w) (t := t) (o := o) (a := a) l.conn p with hsame | hnew
  · exact hsame.trans (hasks.request hwrote)
  · obtain ⟨j, bytes, rfl, rfl, _⟩ := hnew
    obtain ⟨_, _, l', hl', hconn, _⟩ := h.main
    obtain ⟨p', hp', hasks'⟩ := h.sound.line j l' hl'
    rw [hconn] at hp'
    obtain rfl := Option.some.inj (hp.symm.trans hp')
    have hj : j = i := hasks'.poller.symm.trans hasks.poller
    exact absurd rfl (hwrites (congrArg Tid.main hj) bytes)

theorem Operates.line (hdistinct : cluster.Nodup) (h : Operates cluster w know t o a) (i : NodeId)
    (l : Line) (hl : l ∈ (learnt cluster know t o a (.main i)).line) :
    ∃ p, (post cluster t o a w).polls[l.conn]? = some p ∧
      Asks cluster (post cluster t o a w) i l p := by
  by_cases ht : t = .main i
  · subst ht
    rw [h.learnt_main] at hl
    have hmay := h.main
    have hcan := h.can
    cases o with
    | connect peer =>
        cases a with
        | error e => exact h.line_kept hl fun _ _ => nofun
        | ok c =>
            obtain rfl := Option.some.inj hl
            exact ⟨_, polls_new h.can rfl, rfl, rfl, fun _ => rfl, nofun⟩
    | writeAll c bytes =>
        obtain ⟨r, n⟩ := a
        cases r with
        | error e => cases hl
        | ok u =>
            obtain ⟨l', hl', rfl⟩ := Option.map_eq_some_iff.mp hl
            obtain ⟨p, hp, hasks⟩ := h.sound.line i l' hl'
            have hends := pollPost_ends (w := w) (t := .main i) (.writeAll c bytes) (.ok u, n) l'.conn p
            exact ⟨_, polls_kept _ _ hp, hends.1.trans hasks.poller, hends.2.trans hasks.target, nofun,
              fun clock hclock => (hasks.got clock hclock).mono hcan⟩
    | readExact c =>
        cases a with
        | error e => cases hl
        | ok bytes =>
            obtain ⟨l', hl', rfl⟩ := Option.map_eq_some_iff.mp hl
            obtain ⟨l'', hl'', rfl, hwrote, _⟩ := hmay
            obtain rfl := Option.some.inj (hl'.symm.trans hl'')
            obtain ⟨p, hp, hasks⟩ := h.line_kept hl' fun _ _ => nofun
            refine ⟨p, hp, hasks.poller, hasks.target, hasks.request, fun clock hclock => ?_⟩
            obtain rfl := Option.some.inj hclock
            obtain ⟨p', hp', hlen, hpre⟩ := hcan
            have hsame : (post cluster (.main i) (.readExact l'.conn) (.ok bytes) w).polls[l'.conn]? =
              some p' := polls_kept _ _ hp'
            obtain rfl := Option.some.inj (hp.symm.trans hsame)
            obtain ⟨clock, hle, hreply⟩ := h.sound.reply _ p hp'
            intro j hj
            show fromLeBytes bytes ≤ _
            rw [fromLeBytes_of_whole hlen hpre hreply]
            rw [hasks.target, nodeAt_eq hdistinct hj] at hle
            exact UInt64.le_trans hle (clock_mono _ _ h.can)
    | setTimeouts c =>
        cases a with
        | error e => cases hl
        | ok u => exact h.line_kept hl fun _ _ => nofun
    | hear index clock => cases hl
    | raiseClock => cases a <;> exact h.line_kept hl fun _ _ => nofun
    | _ => exact h.line_kept hl fun _ _ => nofun
  · rw [learnt_of_ne (Ne.symm ht)] at hl
    exact h.line_kept hl fun hi => absurd hi ht

/-- What a responder is answering, where it does not write. -/
theorem Operates.answering_kept (h : Operates cluster w know t o a) {b : Answering}
    (hb : b ∈ (know (.responder i)).answering)
    (hwrites : t = .responder i → ∀ bytes, o ≠ .writeAll b.conn bytes) :
    ∃ p, (post cluster t o a w).polls[b.conn]? = some p ∧ Answers cluster i b p := by
  obtain ⟨p, hp, hanswers⟩ := h.sound.answering i b hb
  have hends := pollPost_ends (w := w) (t := t) o a b.conn p
  refine ⟨_, polls_kept o a hp, hends.2.trans hanswers.target, ?_, ?_, fun bytes hbytes => ?_, ?_⟩
  · rcases pollPost_accepted (w := w) (t := t) (o := o) (a := a) b.conn p with hsame | haccepts
    · exact hsame.trans hanswers.accepted
    · cases o with
      | accept =>
          obtain rfl : a = some b.conn := haccepts
          simp only [pollPost, if_true]
      | _ => cases haccepts
  · rcases pollPost_reply (w := w) (t := t) (o := o) (a := a) b.conn p with hsame | hnew
    · exact hsame.trans hanswers.reply
    · obtain ⟨j, bytes, rfl, rfl, _⟩ := hnew
      obtain ⟨_, _, b', hb', hconn, _⟩ := h.responder
      obtain ⟨p', hp', hanswers'⟩ := h.sound.answering j b' hb'
      rw [hconn] at hp'
      obtain rfl := Option.some.inj (hp.symm.trans hp')
      have hj : j = i := hanswers'.target.symm.trans hanswers.target
      exact absurd rfl (hwrites (congrArg Tid.responder hj) bytes)
  · refine ⟨(hanswers.request bytes hbytes).1, (hanswers.request bytes hbytes).2.trans ?_⟩
    rcases pollPost_request (w := w) (t := t) (o := o) (a := a) b.conn p with hsame | hnew
    · exact hsame ▸ List.prefix_refl _
    · obtain ⟨_, _, _, _, n, hnew⟩ := hnew
      exact hnew ▸ List.prefix_append _ _
  · exact fun ip hip => hends.1.symm ▸ hanswers.addr ip hip

theorem Operates.answering (h : Operates cluster w know t o a) (i : NodeId) (b : Answering)
    (hb : b ∈ (learnt cluster know t o a (.responder i)).answering) :
    ∃ p, (post cluster t o a w).polls[b.conn]? = some p ∧ Answers cluster i b p := by
  by_cases ht : t = .responder i
  · subst ht
    rw [h.learnt_responder] at hb
    have hmay := h.responder
    have hcan := h.can
    cases o with
    | accept =>
        cases a with
        | none => exact h.answering_kept hb fun _ _ => nofun
        | some c =>
            obtain rfl := Option.some.inj hb
            obtain ⟨p, hp, htarget, _, hreply⟩ := h.sound.backlog i c hcan
            refine ⟨_, polls_kept _ _ hp, ?_⟩
            simp only [pollPost, if_true]
            exact ⟨htarget, rfl, hreply, nofun, nofun⟩
    | readExact c =>
        cases a with
        | error e => exact h.answering_kept hb fun _ _ => nofun
        | ok bytes =>
            obtain ⟨b', hb', rfl⟩ := Option.map_eq_some_iff.mp hb
            obtain ⟨b'', hb'', rfl, _⟩ := hmay
            obtain rfl := Option.some.inj (hb'.symm.trans hb'')
            obtain ⟨p, hp, hanswers⟩ := h.answering_kept hb' fun _ _ => nofun
            obtain ⟨p', hp', hlen, hpre⟩ := hcan
            refine ⟨p, hp, hanswers.target, hanswers.accepted, hanswers.reply, ?_, hanswers.addr⟩
            intro bytes' hbytes'
            obtain rfl := Option.some.inj hbytes'
            have hsame : (post cluster (.responder i) (.readExact b'.conn) (.ok bytes) w).polls[b'.conn]?
              = some p' := polls_kept _ _ hp'
            obtain rfl := Option.some.inj (hp.symm.trans hsame)
            exact ⟨hlen, hpre⟩
    | peerAddr c =>
        cases a with
        | error e => exact h.answering_kept hb fun _ _ => nofun
        | ok ip =>
            obtain ⟨b', hb', rfl⟩ := Option.map_eq_some_iff.mp hb
            obtain ⟨b'', hb'', rfl⟩ := hmay
            obtain rfl := Option.some.inj (hb'.symm.trans hb'')
            obtain ⟨p, hp, hanswers⟩ := h.answering_kept hb' fun _ _ => nofun
            obtain ⟨p', hp', hip⟩ := hcan
            refine ⟨p, hp, hanswers.target, hanswers.accepted, hanswers.reply, hanswers.request, ?_⟩
            intro ip' hip'
            obtain rfl := Option.some.inj hip'
            have hsame : (post cluster (.responder i) (.peerAddr b'.conn) (.ok ip) w).polls[b'.conn]?
              = some p' := polls_kept _ _ hp'
            obtain rfl := Option.some.inj (hp.symm.trans hsame)
            exact hip
    | seenSend c ip clock =>
        obtain ⟨b', hb', rfl⟩ := Option.map_eq_some_iff.mp hb
        obtain ⟨p, hp, hanswers⟩ := h.answering_kept hb' fun _ _ => nofun
        exact ⟨p, hp, hanswers.target, hanswers.accepted, hanswers.reply, hanswers.request,
          hanswers.addr⟩
    | writeAll c bytes => cases hb
    | awaitSpawn | finish | loadShutdown | setTimeouts => exact h.answering_kept hb fun _ _ => nofun
    | _ => exact absurd hmay id
  · rw [learnt_of_ne (Ne.symm ht)] at hb
    exact h.answering_kept hb fun hi => absurd hi ht

theorem Operates.seen (hdistinct : cluster.Nodup) (h : Operates cluster w know t o a) (i : NodeId)
    (e : Ipv4Addr × UInt64) (he : e ∈ ((post cluster t o a w).nodes i).seen) :
    Got cluster (post cluster t o a w) e.1 e.2 := by
  rw [node_post Node.seen (fun _ _ => rfl)] at he
  have hold (he : e ∈ (w.nodes i).seen) : Got cluster (post cluster t o a w) e.1 e.2 :=
    (h.sound.seen i e he).mono h.can
  by_cases hi : i = t.node
  · rw [if_pos hi] at he
    cases o with
    | seenSend c ip clock =>
        rcases List.mem_append.mp he with he | he
        · exact hold he
        · obtain rfl := List.mem_singleton.mp he
          cases t with
          | main i => exact absurd h.main id
          | responder j =>
          obtain ⟨_, b, hb, rfl, haddr, _, bytes, hbytes, rfl⟩ := h.responder
          obtain ⟨p, hp, hanswers⟩ := h.sound.answering j b hb
          obtain ⟨clock, hle, hrequest⟩ := h.sound.request _ p hp
          intro j' hj'
          obtain rfl := position_unique hdistinct hj' (hanswers.addr ip haddr)
          show fromLeBytes bytes ≤ _
          rw [fromLeBytes_of_whole (hanswers.request bytes hbytes).1
            (hanswers.request bytes hbytes).2 hrequest]
          exact UInt64.le_trans hle (clock_mono _ _ h.can)
    | tryRecv =>
        cases a with
        | none => exact hold he
        | some item => exact hold (List.mem_of_mem_tail he)
    | channel | returned => cases he
    | bind | raiseClock | accept => cases a <;> exact hold he
    | _ => exact hold he
  · rw [if_neg hi] at he
    exact hold he

theorem Operates.known (h : Operates cluster w know t o a) (i index : Nat) (ip : Ipv4Addr)
    (hindex : (others cluster i)[index]? = some ip) :
    Got cluster (post cluster t o a w) ip
      (((post cluster t o a w).nodes i).knownClocks.getD index 0) := by
  have hold : Got cluster (post cluster t o a w) ip ((w.nodes i).knownClocks.getD index 0) :=
    (h.sound.known i index ip hindex).mono h.can
  rw [node_post Node.knownClocks (fun _ _ => rfl)]
  by_cases hi : i = t.node
  · rw [if_pos hi]
    -- an entry that is raised, to a clock that its peer has had
    have hraise {index' : Nat} {clock : UInt64}
        (hgot : index' = index → Got cluster (post cluster t o a w) ip clock) :
        Got cluster (post cluster t o a w) ip
          (((w.nodes i).knownClocks.modify index' (max · clock)).getD index 0) := by
      rw [getD_hear]
      split
      · next hat =>
        rcases u64_max_cases ((w.nodes i).knownClocks.getD index 0) clock with ⟨hmax, _⟩ | ⟨hmax, _⟩
        · rw [hmax]
          exact hgot hat.1.symm
        · rw [hmax]
          exact hold
      · exact hold
    cases o with
    | hear index' clock =>
        refine hraise fun hat => ?_
        subst hat
        cases t with
        | responder j => exact absurd h.responder id
        | main j =>
        obtain rfl : i = j := hi
        obtain ⟨l, hl, hpeer, hgot⟩ := h.main
        obtain rfl := Option.some.inj (hindex.symm.trans hpeer)
        obtain ⟨p, _, hasks⟩ := h.sound.line i l hl
        exact (hasks.got clock hgot).mono h.can
    | tryRecv peers =>
        cases a with
        | none => exact hold
        | some item =>
        cases t with
        | responder j => exact absurd h.responder id
        | main j =>
        obtain rfl : i = j := hi
        obtain ⟨_, rfl⟩ := h.main
        show Got cluster _ ip ((record (others cluster i) (w.nodes i).knownClocks item).getD index 0)
        unfold record
        split
        · next index' hfind =>
          refine hraise fun hat => ?_
          subst hat
          obtain ⟨hlt, hip, _⟩ := List.findIdx?_eq_some_iff_getElem.mp hfind
          rw [List.getElem?_eq_getElem hlt] at hindex
          obtain rfl : item.1 = ip := (beq_iff_eq.mp hip).symm.trans (Option.some.inj hindex)
          have hitem : some item = (w.nodes i).seen.head? := h.can
          exact (h.sound.seen i item (List.mem_of_head? hitem.symm)).mono h.can
        · exact hold
    | bind | raiseClock | accept => cases a <;> exact hold
    | _ => exact hold
  · rw [if_neg hi]
    exact hold

/-- Every other node is one of the peers. -/
theorem peer_of_ne {i j : NodeId} (hj : j < cluster.length) (hne : j ≠ i) :
    ∃ index < (others cluster i).length, ∃ ip, (others cluster i)[index]? = some ip ∧
      cluster[j]? = some ip := by
  have hget : cluster[j]? = some cluster[j] := List.getElem?_eq_getElem hj
  unfold others
  rcases Nat.lt_or_gt_of_ne hne with hlt | hgt
  · have hindex : (cluster.eraseIdx i)[j]? = some cluster[j] := by
      rw [List.getElem?_eraseIdx_of_lt hlt, hget]
    exact ⟨j, (List.getElem?_eq_some_iff.mp hindex).1, _, hindex, hget⟩
  · have hindex : (cluster.eraseIdx i)[j - 1]? = some cluster[j] := by
      rw [List.getElem?_eraseIdx_of_ge (Nat.le_sub_one_of_lt hgt),
        Nat.sub_add_cancel (Nat.one_le_of_lt hgt), hget]
    exact ⟨j - 1, (List.getElem?_eq_some_iff.mp hindex).1, _, hindex, hget⟩

theorem Operates.returns (h : Operates cluster w know t o a) (e : NodeId × Nat)
    (he : e ∈ (post cluster t o a w).returns) (j : NodeId) (hj : j < cluster.length)
    (hne : j ≠ e.1) : e.2 ≤ ((post cluster t o a w).nodes j).clock.toNat := by
  have hold (he : e ∈ w.returns) : e.2 ≤ ((post cluster t o a w).nodes j).clock.toNat :=
    (h.sound.returns e he j hj hne).trans (UInt64.le_iff_toNat_le.mp (clock_mono o a h.can))
  cases o with
  | returned ok =>
      cases ok with
      | false => exact hold he
      | true =>
          rcases List.mem_append.mp he with he | he
          · exact hold he
          obtain rfl := List.mem_singleton.mp he
          cases t with
          | responder i => exact absurd h.responder id
          | main i =>
          -- every entry of `known_clocks` has reached the round, and none is ahead of its peer
          obtain ⟨hstage, hall⟩ := h.main
          obtain ⟨index, hlt, ip, hindex, hip⟩ := peer_of_ne hj hne
          obtain ⟨clock, hknows, hround⟩ := hall index hlt
          have hlocal := h.agree i
          have hne : (know (.main i)).stage ≠ .outside ∧ (know (.main i)).stage ≠ .called := by
            rcases hstage with hstage | hstage <;> simp [hstage]
          have hentered : (w.nodes i).entered = (w.nodes i).clock.toNat := by
            rw [hlocal.entered, if_neg hne.2, Nat.add_zero]
          have hreached : (w.nodes i).clock ≤ (w.nodes j).clock := by
            rw [← (hlocal.clock hne.1 hne.2).2]
            exact UInt64.le_trans hround (UInt64.le_trans (hlocal.knows _ hknows)
              (h.sound.known i index ip hindex j hip))
          show ((w.modifyNode i _).nodes i).entered ≤ _
          have hsame : ((w.modifyNode i (nodePost (.returned true) a)).nodes i).entered =
              (w.nodes i).entered := by
            show (update w.nodes i _ i).entered = _
            rw [Function.update_self]
            rfl
          rw [show ((w.modifyNode i _).nodes i).entered = (w.nodes i).entered from hsame, hentered]
          exact (UInt64.le_iff_toNat_le.mp hreached).trans
            (UInt64.le_iff_toNat_le.mp (clock_mono _ a h.can))
  | accept => cases a <;> exact hold he
  | connect => cases a <;> exact hold he
  | _ => exact hold he

end Step

/-! ## 4. Every state of every run -/

/-- What holds in every state. -/
structure Reached (cluster : List Ipv4Addr) (w : World) (know : Tid → Know) : Prop where
  roles : ∀ t, (know t).role = t
  agree : ∀ i, Local (w.nodes i) (know (.main i)) (know (.responder i))
  sound : Carried cluster w know

section Runs

variable {cluster : List Ipv4Addr} {c : Config Tid Op World Loop Op.Ans}

/-- The nodes when nobody has called `synch`. -/
def firstWorld (cluster : List Ipv4Addr) : World :=
  { nodes := fun _ => { knownClocks := List.replicate (cluster.length - 1) 0 } }

theorem reached_first : Reached cluster (firstWorld cluster) firstKnow where
  roles _ := rfl
  agree _ := ⟨rfl, fun hne _ => absurd rfl hne, nofun, nofun, nofun⟩
  sound :=
    { request := nofun
      reply := nofun
      backlog := nofun
      line := nofun
      answering := nofun
      seen := nofun
      known := fun i index ip _ j _ => by
        have hzero : (List.replicate (cluster.length - 1) (0 : UInt64)).getD index 0 = 0 := by
          rw [List.getD_eq_getElem?_getD, List.getElem?_replicate]
          split <;> rfl
        show (List.replicate (cluster.length - 1) (0 : UInt64)).getD index 0 ≤ _
        rw [hzero]
        exact UInt64.zero_le
      returns := nofun }

/-- **One step.** -/
theorem Reached.step (hdistinct : cluster.Nodup) {w : World} {know : Tid → Know}
    (h : Reached cluster w know) (t : Tid) (o : Op) (a : o.Ans)
    (hmay : (protocol cluster).may (know t) o) (hcan : can cluster t o w a) :
    Reached cluster (post cluster t o a w) (learnt cluster know t o a) := by
  have hop : Operates cluster w know t o a := ⟨h.sound, h.agree, h.roles t, hmay, hcan.2⟩
  refine ⟨fun u => ?_, fun i => ?_, ⟨hop.request, hop.reply, hop.backlog, hop.line hdistinct,
    hop.answering, hop.seen hdistinct, hop.known, hop.returns⟩⟩
  · by_cases hu : u = t
    · subst hu
      cases u with
      | main i =>
          rw [hop.learnt_main]
          cases o with
          | raiseClock | connect | readExact | setTimeouts => cases a <;> exact h.roles _
          | writeAll c bytes =>
              obtain ⟨r, n⟩ := a
              cases r <;> exact h.roles _
          | _ => exact h.roles _
      | responder i =>
          rw [hop.learnt_responder]
          cases o with
          | accept | readExact | peerAddr => cases a <;> exact h.roles _
          | _ => exact h.roles _
    · rw [learnt_of_ne hu]
      exact h.roles u
  · have hbacklog (m r : Know) (n : Node) (backlog : List Conn) :
        Local { n with backlog } m r = Local n m r :=
      propext ⟨fun h => ⟨h.entered, h.clock, h.spawned, h.active, h.knows⟩,
        fun h => ⟨h.entered, h.clock, h.spawned, h.active, h.knows⟩⟩
    refine (node_post (fun n => Local n _ _) (hbacklog _ _) o a).mpr ?_
    by_cases hi : i = t.node
    · rw [if_pos hi]
      cases t with
      | main j =>
          obtain rfl : i = j := hi
          rw [hop.learnt_main, learnt_of_ne (show Tid.responder i ≠ .main i from nofun)]
          exact (h.agree i).main_step hop.main hop.can
      | responder j =>
          obtain rfl : i = j := hi
          rw [hop.learnt_responder, learnt_of_ne (show Tid.main i ≠ .responder i from nofun)]
          exact (h.agree i).responder_step hop.responder hop.can
    · have hne (u : Tid) (hu : u.node = i) : u ≠ t := fun hut => hi (hut ▸ hu.symm)
      rw [if_neg hi, learnt_of_ne (hne (.main i) rfl), learnt_of_ne (hne (.responder i) rfl)]
      exact h.agree i

/-- **All of it, in every state of every run.** -/
theorem reached_of_reach (hdistinct : cluster.Nodup) (hreach : (barrier cluster).Reach (start cluster) c) :
    ∃ know, Reached cluster c.world know := by
  obtain ⟨know, hw⟩ := hreach.watched (protocol cluster) firstKnow
  exact ⟨know, hw.invariant (barrier_follows cluster) entry_firstKnow reached_first
    fun _ h t o a hmay hcan => h.step hdistinct t o a hmay hcan⟩

/-- **The rounds are held**: a call of `synch`, a node's `r`-th, has returned `Ok` only where every
    other node has entered its own `r`-th call; and no entry of `known_clocks` exceeds the calls
    that the peer has entered. -/
structure RoundsHeld (cluster : List Ipv4Addr) (w : World) : Prop where
  returned : ∀ i r, (i, r) ∈ w.returns → ∀ j < cluster.length, j ≠ i → r ≤ (w.nodes j).entered
  known : ∀ i j index ip, (others cluster i)[index]? = some ip → cluster[j]? = some ip →
    ((w.nodes i).knownClocks.getD index 0).toNat ≤ (w.nodes j).entered

/-- **The barrier holds** in every state of every run, whatever exchanges fail, for nodes with
    distinct addresses. -/
theorem barrier_holds (hdistinct : cluster.Nodup)
    (hreach : (barrier cluster).Reach (start cluster) c) : RoundsHeld cluster c.world := by
  obtain ⟨know, h⟩ := reached_of_reach hdistinct hreach
  refine ⟨fun i r hreturned j hj hne => ?_, fun i j index ip hindex hj => ?_⟩
  · rw [(h.agree j).entered]
    exact (h.sound.returns (i, r) hreturned j hj hne).trans (Nat.le_add_right _ _)
  · rw [(h.agree j).entered]
    have hle := UInt64.le_iff_toNat_le.mp (h.sound.known i index ip hindex j hj)
    exact hle.trans (Nat.le_add_right _ _)

end Runs

/-- Two nodes enter a round, and the first leaves it. -/
def untilLeft : List Move :=
  enters [1, 2] 0 ++ enters [1, 2] 1 ++ exchanges [1, 2] 0 1 ++ leaves [1, 2] 0

theorem barrier_holds_left : ∃ c, (barrier [1, 2]).Reach (start [1, 2]) c ∧
    c.world.returns = [(0, 1)] ∧ RoundsHeld [1, 2] c.world := by
  have hplay : (((barrier [1, 2]).play (start [1, 2]) untilLeft).map (·.world.returns)) =
      some [(0, 1)] := by decide +kernel
  obtain ⟨c, hc, hreturns⟩ := Option.map_eq_some_iff.mp hplay
  have hreach := System.play_reach hc
  exact ⟨c, hreach, hreturns, barrier_holds (by decide) hreach⟩

end Rdmalib.GlobalSynch
