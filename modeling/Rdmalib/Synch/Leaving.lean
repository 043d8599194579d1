/-
  File:      Rdmalib/Synch/Leaving.lean
  Subject:   Who still needs to hear from a node that leaves the barrier.

  The exit test of a round asks what is known of the peers' clocks, whenever it was learnt. A clock
  that a poll brings in a round was paid for with one's own clock in that round; one that was
  already there when the round began was not.

  * `Lossless` -- nothing of an accepted exchange is lost, and no deadline passes;
  * `EntersApart` -- a node enters a round before it knows that a peer has;
  * `Informed` -- the invariant of such runs: who has reached the round of a node, as that node
    knows, has heard of its clock, or has been sent it;
  * results: under both conditions, every peer has learnt the clock of a node that returns
    (`leaves_informed`); without the second one, a node leaves its second round and is still to be
    heard from (`leaves_unheard`).
-/
import Rdmalib.Synch.Rounds

namespace Rdmalib.GlobalSynch

open Base
open Function (update)

/-! ## 1. What is learnt, and from which runs -/

/-- **Node `j` has learnt that node `i` has entered its `r`-th call**: it is in its `known_clocks`,
    in its responder's queue, or in a reply written to it. -/
inductive Learned (cluster : List Ipv4Addr) (w : World) (j i : NodeId) (r : Nat) : Prop
  | known (index : Nat) (ip : Ipv4Addr) (hindex : (others cluster j)[index]? = some ip)
      (hi : cluster[i]? = some ip) (hr : r ≤ ((w.nodes j).knownClocks.getD index 0).toNat) :
      Learned cluster w j i r
  | queued (item : Ipv4Addr × UInt64) (hitem : item ∈ (w.nodes j).seen)
      (hi : cluster[i]? = some item.1) (hr : r ≤ item.2.toNat) : Learned cluster w j i r
  | replied (c : Conn) (p : Poll) (clock : UInt64) (hp : w.polls[c]? = some p)
      (hpoller : p.poller = j) (htarget : p.target = i) (hreply : p.reply = toLeBytes clock)
      (hr : r ≤ clock.toNat) : Learned cluster w j i r

/-- **No message is lost, and no timeout fires.** A poller's read fails only where the peer's
    listener has gone without taking up the connection. -/
def Lossless (_ : Tid) (o : Op) (w : World) (a : o.Ans) : Prop :=
  match o, a with
  | .writeAll _ _, (r, _) => r = .ok ()
  | .setTimeouts _, r => r = .ok ()
  | .peerAddr _, .error _ => False
  | .readExact c, .error _ =>
      ∀ p ∈ w.polls[c]?, p.accepted = false ∧ c ∉ (w.nodes p.target).backlog
  | .pastDeadline, past => past = false
  | _, _ => True

/-- **No node enters a round knowing a clock that is already as high.** -/
def EntersApart (t : Tid) (o : Op) (w : World) (_ : o.Ans) : Prop :=
  o = .raiseClock → ∀ clock ∈ (w.nodes t.node).knownClocks, clock ≤ (w.nodes t.node).clock

/-- The runs in which all messages arrive, and those that meet both. -/
def lossless (cluster : List Ipv4Addr) : System Tid Op World Loop Op.Ans :=
  (barrier cluster).restrict Lossless

def apart (cluster : List Ipv4Addr) : System Tid Op World Loop Op.Ans :=
  (barrier cluster).restrict fun t o w a => Lossless t o w a ∧ EntersApart t o w a

/-! ## 2. The invariant -/

/-- What node `j` knows of node `i`'s clock, or has in its queue. -/
def Knows (cluster : List Ipv4Addr) (w : World) (j i : NodeId) (clock : UInt64) : Prop :=
  ∃ index ip, (others cluster j)[index]? = some ip ∧ cluster[i]? = some ip ∧
    clock ≤ (w.nodes j).knownClocks.getD index 0

def Heard (cluster : List Ipv4Addr) (w : World) (j i : NodeId) (clock : UInt64) : Prop :=
  Knows cluster w j i clock ∨
    ∃ item ∈ (w.nodes j).seen, cluster[i]? = some item.1 ∧ clock ≤ item.2

/-- A responder has passed a request on, and is about to reply with this clock. -/
def Replies (responder : Know) (c : Conn) (clock : UInt64) : Prop :=
  responder.active = true ∧ responder.clock = clock ∧
    ∃ a ∈ responder.answering, a.conn = c ∧ a.told = true

/-- **An exchange of the clocks `asked` and `mine`**: the polled node has heard of the poller's
    clock, where its own is as high, and its own is in the reply, or will be. -/
structure Exchanged (cluster : List Ipv4Addr) (w : World) (know : Tid → Know) (c : Conn) (p : Poll)
    (asked mine : UInt64) : Prop where
  accepted : p.accepted = true
  current : mine ≤ (w.nodes p.target).clock
  request : p.request = toLeBytes asked
  heard : asked ≤ mine → Heard cluster w p.target p.poller asked
  reply : p.reply = toLeBytes mine ∨ Replies (know (.responder p.target)) c mine

/-- Node `j` has heard of the clock of node `i`, or was told it in an exchange. -/
def Paid (cluster : List Ipv4Addr) (w : World) (i j : NodeId) : Prop :=
  Heard cluster w j i (w.nodes i).clock ∨
    ∃ (c : Conn) (p : Poll) (asked mine : UInt64), w.polls[c]? = some p ∧ p.poller = j ∧
      p.target = i ∧ p.told = some (asked, mine) ∧ (w.nodes i).clock ≤ mine

/-- **What lossless runs keep**, as long as nodes enter apart. -/
structure Informed (cluster : List Ipv4Addr) (w : World) (know : Tid → Know) : Prop where
  member : ∀ i, (know (.main i)).stage ≠ .outside → i < cluster.length
  sized : ∀ i, (w.nodes i).knownClocks.length = cluster.length - 1
  ends : ∀ (c : Conn) (p : Poll), w.polls[c]? = some p →
    p.poller < cluster.length ∧ p.target < cluster.length ∧ p.poller ≠ p.target
  told : ∀ (c : Conn) (p : Poll) asked mine, w.polls[c]? = some p → p.told = some (asked, mine) →
    Exchanged cluster w know c p asked mine
  replied : ∀ (c : Conn) (p : Poll), w.polls[c]? = some p → p.reply ≠ [] →
    ∃ asked mine, p.told = some (asked, mine) ∧ p.reply = toLeBytes mine
  answering : ∀ i, ∀ a ∈ (know (.responder i)).answering, ∀ p, w.polls[a.conn]? = some p →
    (a.told = false → p.told = none) ∧
      (a.told = true → ∃ asked, p.told = some (asked, (know (.responder i)).clock))
  -- the poller waits until it has taken up the reply
  waits : ∀ (c : Conn) (p : Poll), w.polls[c]? = some p →
    c ∈ (w.nodes p.target).backlog ∨ p.accepted = true →
      (∃ asked mine, p.told = some (asked, mine) ∧ Knows cluster w p.poller p.target mine) ∨
        ∃ l ∈ (know (.main p.poller)).line, l.conn = c
  line : ∀ i, ∀ l ∈ (know (.main i)).line, (know (.main i)).stage = .inside ∧
    ∀ p, w.polls[l.conn]? = some p → (l.wrote = true → p.request = toLeBytes (w.nodes i).clock) ∧
      ∀ clock ∈ l.got, l.wrote = true ∧ ∃ asked, p.told = some (asked, clock)
  quiet : ∀ i, (know (.main i)).stage ≠ .inside → (know (.main i)).stage ≠ .joined →
    (w.nodes i).seen = []
  queue : ∀ i, ∀ item ∈ (w.nodes i).seen, ∃ (c : Conn) (p : Poll), w.polls[c]? = some p ∧
    p.target = i ∧ cluster[p.poller]? = some item.1 ∧ p.told = some (item.2, (w.nodes i).clock)
  evidence : ∀ i < cluster.length, ∀ j index ip, (others cluster i)[index]? = some ip → cluster[j]? = some ip →
    (w.nodes i).clock ≤ (w.nodes i).knownClocks.getD index 0 → Paid cluster w i j

/-! ## 3. One step -/

/-- An operation of such a run. -/
structure Apart (cluster : List Ipv4Addr) (w : World) (know : Tid → Know) (t : Tid) (o : Op)
    (a : o.Ans) : Prop where
  distinct : cluster.Nodup
  op : Operates cluster w know t o a
  informed : Informed cluster w know
  lossless : Lossless t o w a
  apart : EntersApart t o w a

section Step

variable {cluster : List Ipv4Addr} {t : Tid} {w : World} {know : Tid → Know} {o : Op} {a : o.Ans}
variable {i j : NodeId} {clock : UInt64}

theorem toLeBytes_ne_nil : toLeBytes clock ≠ [] := by
  intro h
  have hlen : (toLeBytes clock).length = 8 := length_leBytes 8 _
  rw [h] at hlen
  cases hlen

theorem toLeBytes_inj {clock' : UInt64} (h : toLeBytes clock = toLeBytes clock') : clock = clock' := by
  have heq := congrArg fromLeBytes h
  rwa [fromLeBytes_toLeBytes, fromLeBytes_toLeBytes] at heq

/-- Eight bytes of a clock's are all of them. -/
theorem whole_of_read {bytes stream : List UInt8} (hlen : bytes.length = 8) (h : bytes <+: stream)
    (h' : stream <+: toLeBytes clock) : stream = toLeBytes clock := by
  refine h'.eq_of_length (Nat.le_antisymm h'.length_le ?_)
  rw [show (toLeBytes clock).length = 8 from length_leBytes 8 _, ← hlen]
  exact h.length_le

/-- The clock of a node changes only where its main thread raises it. -/
theorem Operates.clock_same (h : Operates cluster w know t o a)
    (hstage : (know (.main i)).stage ≠ .called) :
    ((post cluster t o a w).nodes i).clock = (w.nodes i).clock := by
  rw [node_post Node.clock (fun _ _ => rfl)]
  split
  · next hi =>
    cases o with
    | raiseClock =>
        cases t with
        | main j =>
            obtain rfl : i = j := hi
            exact absurd h.main hstage
        | responder j => exact absurd h.responder id
    | bind | accept | tryRecv => cases a <;> rfl
    | _ => rfl
  · rfl

/-- A poll's exchange is noted where a responder passes its request on. -/
theorem pollPost_told (c : Conn) (p : Poll) : (pollPost w t o a c p).told = p.told ∨
    ∃ ip clock, o = .seenSend c ip clock ∧
      (pollPost w t o a c p).told = some (clock, (w.nodes t.node).clock) := by
  cases o with
  | writeAll c' bytes =>
      refine Or.inl ?_
      show (if c' = c then p.write (bytes.take a.2) t else p).told = _
      split
      · cases t <;> rfl
      · rfl
  | accept =>
      cases a with
      | none => exact Or.inl rfl
      | some c' => exact Or.inl (by simp only [pollPost]; split <;> rfl)
  | seenSend c' ip clock =>
      by_cases hc : c' = c
      · subst hc
        exact Or.inr ⟨ip, clock, rfl, by simp only [pollPost, if_true]⟩
      · exact Or.inl (by simp only [pollPost, if_neg hc])
  | _ => exact Or.inl rfl

/-- What a responder passes on: the whole request, of a poll that it has not passed on before. -/
theorem Apart.passed {c : Conn} {ip : Ipv4Addr} {a : (Op.seenSend c ip clock).Ans} {p : Poll}
    (h : Apart cluster w know t (.seenSend c ip clock) a) (hp : w.polls[c]? = some p) :
    t = .responder p.target ∧ p.told = none ∧ p.accepted = true ∧ p.request = toLeBytes clock ∧
      cluster[p.poller]? = some ip ∧ ∃ b ∈ (know t).answering, b.conn = c := by
  cases t with
  | main i => exact absurd h.op.main id
  | responder i =>
      obtain ⟨_, b, hb, rfl, haddr, htold, bytes, hbytes, rfl⟩ := h.op.responder
      obtain ⟨p', hp', hanswers⟩ := h.op.sound.answering i b hb
      obtain rfl := Option.some.inj (hp.symm.trans hp')
      obtain ⟨hlen, hpre⟩ := hanswers.request bytes hbytes
      obtain ⟨clock, _, hrequest⟩ := h.op.sound.request _ p hp
      refine ⟨congrArg Tid.responder hanswers.target.symm, (h.informed.answering i b hb p hp).1 htold,
        hanswers.accepted, ?_, hanswers.addr ip haddr, b, hb, rfl⟩
      rw [fromLeBytes_of_whole hlen hpre hrequest]
      exact whole_of_read hlen hpre hrequest

/-- What was exchanged on a poll stays. -/
theorem Apart.told_kept {c : Conn} {p : Poll} {e : UInt64 × UInt64}
    (h : Apart cluster w know t o a) (hp : w.polls[c]? = some p) (htold : p.told = some e) :
    (pollPost w t o a c p).told = some e := by
  rcases pollPost_told (w := w) (t := t) (o := o) (a := a) c p with hsame | ⟨ip, clock, rfl, _⟩
  · exact hsame.trans htold
  · exact nomatch (h.passed hp).2.1.symm.trans htold

/-- A lossless write goes through. -/
theorem Apart.written {c : Conn} {bytes : List UInt8} {a : (Op.writeAll c bytes).Ans}
    (h : Apart cluster w know t (.writeAll c bytes) a) :
    pollPost w t (.writeAll c bytes) a c = fun p => p.write bytes t := by
  obtain ⟨r, n⟩ := a
  obtain rfl : r = .ok () := h.lossless
  obtain rfl : n = bytes.length := h.op.can
  funext p
  show (if c = c then p.write (bytes.take bytes.length) t else p) = _
  rw [if_pos rfl, List.take_length]

theorem Knows.step (h : Knows cluster w j i clock) : Knows cluster (post cluster t o a w) j i clock := by
  obtain ⟨index, ip, hindex, hi, hle⟩ := h
  refine ⟨index, ip, hindex, hi, UInt64.le_trans hle ?_⟩
  rw [node_post Node.knownClocks (fun _ _ => rfl)]
  split
  · exact known_mono o a index
  · exact UInt64.le_refl _

/-- The other node's position among the peers, and its entry in `known_clocks`. -/
theorem peer_index (hsized : (w.nodes j).knownClocks.length = cluster.length - 1)
    (hi : i < cluster.length) (hj : j < cluster.length) (hne : i ≠ j) : ∃ index ip,
      (others cluster j)[index]? = some ip ∧ cluster[i]? = some ip ∧
        index < (w.nodes j).knownClocks.length := by
  obtain ⟨index, hlt, ip, hindex, hip⟩ := peer_of_ne hi hne
  refine ⟨index, ip, hindex, hip, ?_⟩
  have hlen : (others cluster j).length = cluster.length - 1 := List.length_eraseIdx_of_lt hj
  rw [hsized, ← hlen]
  exact hlt

/-- A queue item that is recorded. -/
theorem le_record {peers : List Ipv4Addr} {clocks : List UInt64} {item : Ipv4Addr × UInt64}
    (hpeer : item.1 ∈ peers) (hsize : peers.length ≤ clocks.length) :
    ∃ index, peers[index]? = some item.1 ∧ item.2 ≤ (record peers clocks item).getD index 0 := by
  unfold record
  cases hfind : peers.findIdx? (· == item.1) with
  | none =>
      have hother := List.findIdx?_eq_none_iff.mp hfind _ hpeer
      rw [beq_self_eq_true] at hother
      cases hother
  | some index =>
      obtain ⟨hlt, hip, _⟩ := List.findIdx?_eq_some_iff_getElem.mp hfind
      refine ⟨index, by rw [List.getElem?_eq_getElem hlt, beq_iff_eq.mp hip], ?_⟩
      show item.2 ≤ (clocks.modify index (max · item.2)).getD index 0
      rw [getD_hear, if_pos ⟨rfl, hlt.trans_le hsize⟩]
      rcases u64_max_cases (clocks.getD index 0) item.2 with ⟨hmax, _⟩ | ⟨hmax, hle⟩
      · rw [hmax]
        exact UInt64.le_refl _
      · rw [hmax]
        exact hle

theorem Apart.sized (h : Apart cluster w know t o a) (i : NodeId) :
    ((post cluster t o a w).nodes i).knownClocks.length = cluster.length - 1 := by
  rw [node_post Node.knownClocks (fun _ _ => rfl)]
  have hold := h.informed.sized i
  split
  · cases o with
    | hear index clock => exact (List.length_modify _ _ _).trans hold
    | tryRecv peers =>
        cases a with
        | none => exact hold
        | some item =>
            show (record peers (w.nodes i).knownClocks item).length = _
            unfold record
            split
            · exact (List.length_modify _ _ _).trans hold
            · exact hold
    | bind | accept | raiseClock => cases a <;> exact hold
    | _ => exact hold
  · exact hold

/-- **Who has heard of a clock keeps it**, as long as it is in a round as high: a node that leaves
    a round has seen every entry reach it. -/
theorem Apart.heard (h : Apart cluster w know t o a) (hheard : Heard cluster w j i clock)
    (hclock : clock ≤ (w.nodes j).clock) (hi : i < cluster.length) (hj : j < cluster.length)
    (hne : i ≠ j) : Heard cluster (post cluster t o a w) j i clock := by
  rcases hheard with hknows | ⟨item, hitem, hip, hle⟩
  · exact Or.inl hknows.step
  have hkeep (hitem : item ∈ ((post cluster t o a w).nodes j).seen) :
      Heard cluster (post cluster t o a w) j i clock := Or.inr ⟨item, hitem, hip, hle⟩
  have hseen : ((post cluster t o a w).nodes j).seen =
      (if j = t.node then nodePost o a (w.nodes j) else w.nodes j).seen :=
    node_post Node.seen (fun _ _ => rfl) o a
  rw [hseen] at hkeep
  by_cases hat : j = t.node
  · rw [if_pos hat] at hkeep
    cases t with
    | responder j' =>
        have hmay := h.op.responder
        cases o with
        | seenSend c ip clock' => exact hkeep (List.mem_append_left _ hitem)
        | accept => cases a <;> exact hkeep hitem
        | awaitSpawn | finish | readExact | peerAddr | writeAll | loadShutdown | setTimeouts =>
            exact hkeep hitem
        | _ => exact absurd hmay id
    | main j' =>
        obtain rfl : j = j' := hat
        have hmay := h.op.main
        have hidle (hstage : (know (.main j)).stage = .raised) : False := by
          rw [h.informed.quiet j (by simp [hstage]) (by simp [hstage])] at hitem
          cases hitem
        cases o with
        | tryRecv peers =>
            obtain ⟨_, rfl⟩ := hmay
            cases a with
            | none => exact hkeep hitem
            | some first =>
                have hfirst : some first = (w.nodes j).seen.head? := h.op.can
                obtain ⟨rest, hcons⟩ := List.head?_eq_some_iff.mp hfirst.symm
                rw [hcons] at hitem
                rcases List.mem_cons.mp hitem with rfl | hitem
                · -- the item is recorded
                  have hpeer : item.1 ∈ others cluster j := by
                    obtain ⟨index, ip, hindex, hip', _⟩ := peer_index (h.informed.sized j) hi hj hne
                    obtain rfl := Option.some.inj (hip'.symm.trans hip)
                    exact List.mem_of_getElem? hindex
                  have hlen : (others cluster j).length ≤ (w.nodes j).knownClocks.length := by
                    rw [h.informed.sized j]
                    exact Nat.le_of_eq (List.length_eraseIdx_of_lt hj)
                  obtain ⟨index, hindex, hle'⟩ := le_record hpeer hlen
                  refine Or.inl ⟨index, item.1, hindex, hip, UInt64.le_trans hle ?_⟩
                  rw [node_post Node.knownClocks (fun _ _ => rfl),
                    if_pos (show j = (Tid.main j).node from rfl)]
                  exact hle'
                · refine hkeep ?_
                  show item ∈ (w.nodes j).seen.tail
                  rw [hcons]
                  exact hitem
        | channel => exact (hidle hmay).elim
        | returned ok =>
            cases ok with
            | false => exact (hidle hmay).elim
            | true =>
                obtain ⟨hstage, hall⟩ := hmay
                obtain ⟨index, hlt, ip, hindex, hip⟩ := peer_of_ne hi hne
                obtain ⟨known, hknows, hround⟩ := hall index hlt
                have hlocal := h.op.agree j
                have hcurrent := hlocal.clock (by rcases hstage with hs | hs <;> simp [hs])
                  (by rcases hstage with hs | hs <;> simp [hs])
                refine Or.inl (Knows.step ⟨index, ip, hindex, hip, ?_⟩)
                refine UInt64.le_trans hclock (UInt64.le_trans ?_ (hlocal.knows _ hknows))
                rw [← hcurrent.2]
                exact hround
        | bind | raiseClock => cases a <;> exact hkeep hitem
        | awaitSpawn | loadShutdown | accept | peerAddr | seenSend | finish => exact absurd hmay id
        | _ => exact hkeep hitem
  · rw [if_neg hat] at hkeep
    exact hkeep hitem

theorem Apart.member (h : Apart cluster w know t o a) (i : NodeId)
    (hstage : (learnt cluster know t o a (.main i)).stage ≠ .outside) : i < cluster.length := by
  by_cases ht : t = .main i
  · subst ht
    rw [h.op.learnt_main] at hstage
    have hmay := h.op.main
    have hinside (hs : (know (.main i)).stage ≠ .outside) := h.informed.member i hs
    cases o with
    | callSynch => exact h.op.can
    | raiseClock => exact hinside (by rw [show (know (.main i)).stage = .called from hmay]; nofun)
    | spawn clock => exact hinside (by rw [hmay.1]; nofun)
    | join => exact hinside (by rw [hmay.1]; nofun)
    | returned ok => exact absurd rfl hstage
    | connect | readExact | setTimeouts => cases a <;> exact hinside hstage
    | writeAll c bytes =>
        obtain ⟨r, n⟩ := a
        cases r <;> exact hinside hstage
    | _ => exact hinside hstage
  · rw [learnt_of_ne (Ne.symm ht)] at hstage
    exact h.informed.member i hstage

/-- A peer is another node. -/
theorem nodeAt_others (hdistinct : cluster.Nodup) {peer : Ipv4Addr}
    (hpeer : peer ∈ others cluster i) :
    cluster[World.nodeAt cluster peer]? = some peer ∧ World.nodeAt cluster peer ≠ i := by
  obtain ⟨j, hne, hj⟩ := List.mem_eraseIdx_iff_getElem?.mp hpeer
  rw [nodeAt_eq hdistinct hj]
  exact ⟨hj, hne⟩

theorem ne_of_others (hdistinct : cluster.Nodup) {index : Nat} {ip : Ipv4Addr}
    (hindex : (others cluster i)[index]? = some ip) (hj : cluster[j]? = some ip) : i ≠ j :=
  fun hij => (nodeAt_others hdistinct (List.mem_of_getElem? hindex)).2
    ((nodeAt_eq hdistinct hj).trans hij.symm)

theorem Apart.ends (h : Apart cluster w know t o a) (c : Conn) (p : Poll)
    (hp : (post cluster t o a w).polls[c]? = some p) :
    p.poller < cluster.length ∧ p.target < cluster.length ∧ p.poller ≠ p.target := by
  rcases (show (post cluster t o a w).polls[c]? = _ ∨ _ from polls_post o a c) with hold | hnew
  · rw [hold] at hp
    obtain ⟨p₀, hp₀, rfl⟩ := Option.map_eq_some_iff.mp hp
    rw [(pollPost_ends o a c p₀).1, (pollPost_ends o a c p₀).2]
    exact h.informed.ends c p₀ hp₀
  · obtain ⟨rfl, peer, rfl, hnew⟩ := hnew
    obtain rfl := Option.some.inj (hnew.symm.trans hp)
    cases t with
    | responder i => exact absurd h.op.responder id
    | main i =>
        obtain ⟨hstage, _, hpeer⟩ := h.op.main
        obtain ⟨hat, hne⟩ := nodeAt_others h.distinct hpeer
        exact ⟨h.informed.member i (by simp [hstage]), (List.getElem?_eq_some_iff.mp hat).1,
          hne.symm⟩

/-- A reply that is owed stays owed, until it is written. -/
theorem Apart.owed {c : Conn} {p : Poll} (h : Apart cluster w know t o a)
    (hp : w.polls[c]? = some p) (howed : Replies (know (.responder p.target)) c clock) :
    (pollPost w t o a c p).reply = toLeBytes clock ∨
      Replies (learnt cluster know t o a (.responder p.target)) c clock := by
  obtain ⟨hactive, hclock, b, hb, hconn, htold⟩ := howed
  by_cases ht : t = .responder p.target
  · subst ht
    rw [h.op.learnt_responder]
    have hmay := h.op.responder
    have hpart : ∃ b' ∈ (know (.responder p.target)).answering, b'.conn = c ∧ b'.told = true :=
      ⟨b, hb, hconn, htold⟩
    have hnone : ¬ (∃ b' ∈ (know (.responder p.target)).answering, b'.told = false) := by
      rintro ⟨b', hb', hfalse⟩
      obtain rfl := Option.some.inj (hb.symm.trans hb')
      exact nomatch hfalse.symm.trans htold
    cases o with
    | awaitSpawn => exact absurd hmay.1 (by simp [hactive])
    | accept | finish => exact absurd ⟨b, hb, htold⟩ hmay.2
    | readExact c' =>
        obtain ⟨b', hb', _, hfalse⟩ := hmay
        exact absurd ⟨b', hb', hfalse⟩ hnone
    | seenSend c' ip clock' =>
        obtain ⟨_, b', hb', _, _, hfalse, _⟩ := hmay
        exact absurd ⟨b', hb', hfalse⟩ hnone
    | peerAddr c' =>
        cases a with
        | error e => exact Or.inr ⟨hactive, hclock, hpart⟩
        | ok ip => exact Or.inr ⟨hactive, hclock, _, Option.map_eq_some_iff.mpr ⟨b, hb, rfl⟩,
            hconn, htold⟩
    | writeAll c' bytes =>
        obtain ⟨_, rfl, b', hb', rfl, _⟩ := hmay
        obtain rfl := Option.some.inj (hb.symm.trans hb')
        subst hconn
        obtain ⟨p', hp', hanswers⟩ := h.op.sound.answering _ b hb
        obtain rfl := Option.some.inj (hp.symm.trans hp')
        left
        rw [h.written, ← hclock]
        show p.reply ++ _ = _
        rw [hanswers.reply]
        rfl
    | loadShutdown | setTimeouts => exact Or.inr ⟨hactive, hclock, hpart⟩
    | _ => exact absurd hmay id
  · refine Or.inr ?_
    rw [learnt_of_ne (Ne.symm ht)]
    exact ⟨hactive, hclock, b, hb, hconn, htold⟩

/-- An exchange stays one. -/
theorem Apart.exchanged {c : Conn} {p : Poll} {asked mine : UInt64}
    (h : Apart cluster w know t o a) (hp : w.polls[c]? = some p)
    (hold : Exchanged cluster w know c p asked mine) :
    Exchanged cluster (post cluster t o a w) (learnt cluster know t o a) c
      (pollPost w t o a c p) asked mine := by
  obtain ⟨hpoller, htarget⟩ := pollPost_ends (w := w) (t := t) o a c p
  obtain ⟨hi, hj, hne⟩ := h.informed.ends c p hp
  refine ⟨?_, ?_, ?_, fun hle => ?_, ?_⟩
  · rcases pollPost_accepted (w := w) (t := t) (o := o) (a := a) c p with hsame | haccepts
    · exact hsame.trans hold.accepted
    · cases o with
      | accept =>
          obtain rfl : a = some c := haccepts
          simp only [pollPost, if_true]
      | _ => cases haccepts
  · rw [htarget]
    exact UInt64.le_trans hold.current (clock_mono o a h.op.can)
  · rcases pollPost_request (w := w) (t := t) (o := o) (a := a) c p with hsame | hnew
    · exact hsame.trans hold.request
    · -- the request is whole: its poller does not write any more
      obtain ⟨i, bytes, rfl, rfl, _⟩ := hnew
      obtain ⟨_, _, l, hl, rfl, hwrote⟩ := h.op.main
      obtain ⟨p', hp', hasks⟩ := h.op.sound.line i l hl
      obtain rfl := Option.some.inj (hp.symm.trans hp')
      exact absurd (hold.request.symm.trans (hasks.request hwrote)) toLeBytes_ne_nil
  · rw [hpoller, htarget]
    exact h.heard (hold.heard hle) (UInt64.le_trans hle hold.current) hi hj hne
  · rw [htarget]
    rcases hold.reply with hreply | howed
    · rcases pollPost_reply (w := w) (t := t) (o := o) (a := a) c p with hsame | hnew
      · exact Or.inl (hsame.trans hreply)
      · obtain ⟨i, bytes, rfl, rfl, _⟩ := hnew
        obtain ⟨_, _, b, hb, rfl, _⟩ := h.op.responder
        obtain ⟨p', hp', hanswers⟩ := h.op.sound.answering i b hb
        obtain rfl := Option.some.inj (hp.symm.trans hp')
        exact absurd (hreply.symm.trans hanswers.reply) toLeBytes_ne_nil
    · exact h.owed hp howed

/-- The polls after an operation: new ones are silent. -/
theorem polls_cases {c : Conn} {p : Poll} (hp : (post cluster t o a w).polls[c]? = some p) :
    (∃ p₀, w.polls[c]? = some p₀ ∧ p = pollPost w t o a c p₀) ∨
      ∃ peer, o = .connect peer ∧ c = w.polls.length ∧
        p = { poller := t.node, target := World.nodeAt cluster peer } := by
  rcases (show (post cluster t o a w).polls[c]? = _ ∨ _ from polls_post o a c) with hold | hnew
  · rw [hold] at hp
    obtain ⟨p₀, hp₀, rfl⟩ := Option.map_eq_some_iff.mp hp
    exact Or.inl ⟨p₀, hp₀, rfl⟩
  · obtain ⟨rfl, peer, rfl, hnew⟩ := hnew
    exact Or.inr ⟨peer, rfl, rfl, Option.some.inj (hp.symm.trans hnew)⟩

/-- **An exchange begins** where a responder passes a request on. -/
theorem Apart.told (h : Apart cluster w know t o a) (c : Conn) (p : Poll) (asked mine : UInt64)
    (hp : (post cluster t o a w).polls[c]? = some p) (htold : p.told = some (asked, mine)) :
    Exchanged cluster (post cluster t o a w) (learnt cluster know t o a) c p asked mine := by
  rcases polls_cases hp with ⟨p, hp₀, rfl⟩ | ⟨_, _, _, rfl⟩
  · rcases pollPost_told (w := w) (t := t) (o := o) (a := a) c p with hsame | hnew
    · exact h.exchanged hp₀ (h.informed.told c p asked mine hp₀ (hsame.symm.trans htold))
    · obtain ⟨ip, clock, rfl, hnew⟩ := hnew
      obtain ⟨rfl, _, haccepted, hrequest, haddr, b, hb, hconn⟩ := h.passed hp₀
      obtain ⟨rfl, rfl⟩ := Prod.mk.inj (Option.some.inj (htold.symm.trans hnew))
      have hpost : pollPost w (.responder p.target) (.seenSend c ip asked) a c p =
          { p with told := some (asked, (w.nodes p.target).clock) } := by
        simp only [pollPost, if_true, Tid.node]
      rw [hpost]
      obtain ⟨hactive, _⟩ := h.op.responder
      refine ⟨haccepted, clock_mono _ a h.op.can, hrequest, fun _ => Or.inr ⟨(ip, asked), ?_, haddr,
        UInt64.le_refl _⟩, Or.inr ?_⟩
      · show (ip, asked) ∈ ((post cluster _ _ a w).nodes p.target).seen
        rw [node_post Node.seen (fun _ _ => rfl),
          if_pos (show p.target = (Tid.responder p.target).node from rfl)]
        exact List.mem_append_right _ (List.mem_singleton.mpr rfl)
      · rw [h.op.learnt_responder]
        exact ⟨hactive, ((h.op.agree p.target).active hactive).2.1, _,
          Option.map_eq_some_iff.mpr ⟨b, hb, rfl⟩, hconn, rfl⟩
  · cases htold

theorem Apart.replied (h : Apart cluster w know t o a) (c : Conn) (p : Poll)
    (hp : (post cluster t o a w).polls[c]? = some p) (hreply : p.reply ≠ []) :
    ∃ asked mine, p.told = some (asked, mine) ∧ p.reply = toLeBytes mine := by
  rcases polls_cases hp with ⟨p, hp₀, rfl⟩ | ⟨_, _, _, rfl⟩
  · rcases pollPost_reply (w := w) (t := t) (o := o) (a := a) c p with hsame | hnew
    · rw [hsame] at hreply ⊢
      obtain ⟨asked, mine, htold, hreply⟩ := h.informed.replied c p hp₀ hreply
      exact ⟨asked, mine, h.told_kept hp₀ htold, hreply⟩
    · obtain ⟨i, bytes, rfl, rfl, _⟩ := hnew
      obtain ⟨_, rfl, b, hb, rfl, htold⟩ := h.op.responder
      obtain ⟨p', hp', hanswers⟩ := h.op.sound.answering i b hb
      obtain rfl := Option.some.inj (hp₀.symm.trans hp')
      obtain ⟨asked, hasked⟩ := (h.informed.answering i b hb p hp₀).2 htold
      refine ⟨asked, _, h.told_kept hp₀ hasked, ?_⟩
      rw [h.written]
      show p.reply ++ _ = _
      rw [hanswers.reply]
      rfl
  · exact absurd rfl hreply

/-- What a responder is answering stays, where it does not pass its request on. -/
theorem Apart.answering_kept (h : Apart cluster w know t o a) {b : Answering} {p : Poll}
    (hb : b ∈ (know (.responder i)).answering)
    (hp : (post cluster t o a w).polls[b.conn]? = some p)
    (hpasses : t = .responder i → ∀ ip clock, o ≠ .seenSend b.conn ip clock) :
    (b.told = false → p.told = none) ∧
      (b.told = true → ∃ asked, p.told = some (asked, (know (.responder i)).clock)) := by
  obtain ⟨p₀, hp₀, hanswers⟩ := h.op.sound.answering i b hb
  obtain rfl := Option.some.inj (hp.symm.trans (polls_kept o a hp₀))
  have hsame : (pollPost w t o a b.conn p₀).told = p₀.told := by
    rcases pollPost_told (w := w) (t := t) (o := o) (a := a) b.conn p₀ with hsame | hnew
    · exact hsame
    · obtain ⟨ip, clock, rfl, _⟩ := hnew
      have ht := (h.passed hp₀).1
      rw [hanswers.target] at ht
      exact absurd rfl (hpasses ht ip clock)
  rw [hsame]
  exact h.informed.answering i b hb p₀ hp₀

theorem Apart.answering (h : Apart cluster w know t o a) (i : NodeId) (b : Answering)
    (hb : b ∈ (learnt cluster know t o a (.responder i)).answering) (p : Poll)
    (hp : (post cluster t o a w).polls[b.conn]? = some p) :
    (b.told = false → p.told = none) ∧ (b.told = true → ∃ asked,
      p.told = some (asked, (learnt cluster know t o a (.responder i)).clock)) := by
  by_cases ht : t = .responder i
  · subst ht
    rw [h.op.learnt_responder] at hb ⊢
    have hmay := h.op.responder
    cases o with
    | awaitSpawn =>
        have hkept := h.answering_kept hb hp (by rintro _ _ _ ⟨⟩)
        exact ⟨hkept.1, fun htold => absurd ⟨b, hb, htold⟩ hmay.2⟩
    | accept =>
        cases a with
        | none => exact h.answering_kept hb hp (by rintro _ _ _ ⟨⟩)
        | some c =>
            obtain rfl := Option.some.inj hb
            refine ⟨fun _ => ?_, by rintro ⟨⟩⟩
            -- it was in the backlog: nothing has been read from it
            obtain ⟨p₀, hp₀, _, haccepted, _⟩ := h.op.sound.backlog i c h.op.can
            obtain rfl := Option.some.inj (hp.symm.trans (polls_kept _ _ hp₀))
            simp only [pollPost, if_true]
            by_contra htold
            obtain ⟨⟨asked, mine⟩, htold⟩ := Option.ne_none_iff_exists'.mp htold
            have haccepted' := (h.informed.told c p₀ asked mine hp₀ htold).accepted
            rw [haccepted] at haccepted'
            cases haccepted'
    | readExact c =>
        cases a with
        | error e => exact h.answering_kept hb hp (by rintro _ _ _ ⟨⟩)
        | ok bytes =>
            obtain ⟨b', hb', rfl⟩ := Option.map_eq_some_iff.mp hb
            exact h.answering_kept (b := b') hb' hp (by rintro _ _ _ ⟨⟩)
    | peerAddr c =>
        cases a with
        | error e => exact h.answering_kept hb hp (by rintro _ _ _ ⟨⟩)
        | ok ip =>
            obtain ⟨b', hb', rfl⟩ := Option.map_eq_some_iff.mp hb
            exact h.answering_kept (b := b') hb' hp (by rintro _ _ _ ⟨⟩)
    | seenSend c ip clock =>
        obtain ⟨b', hb', rfl⟩ := Option.map_eq_some_iff.mp hb
        obtain ⟨hactive, b'', hb'', hconn, _⟩ := hmay
        obtain rfl := Option.some.inj (hb'.symm.trans hb'')
        obtain ⟨p₀, hp₀, _⟩ := h.op.sound.answering i b' hb'
        obtain rfl := Option.some.inj (hp.symm.trans (polls_kept _ _ hp₀))
        refine ⟨by rintro ⟨⟩, fun _ => ⟨clock, ?_⟩⟩
        show (if c = b'.conn then { p₀ with told := some (clock, (w.nodes i).clock) } else p₀).told =
          some (clock, (know (.responder i)).clock)
        rw [if_pos hconn.symm, ((h.op.agree i).active hactive).2.1]
    | writeAll c bytes => cases hb
    | finish | loadShutdown | setTimeouts => exact h.answering_kept hb hp (by rintro _ _ _ ⟨⟩)
    | _ => exact absurd hmay id
  · rw [learnt_of_ne (Ne.symm ht)] at hb ⊢
    exact h.answering_kept hb hp fun hi => absurd hi ht

/-- The poll that a main thread has open stays, where it does not write on it or read from it. -/
theorem Apart.line_kept (h : Apart cluster w know t o a) {l : Line} {p : Poll}
    (hl : l ∈ (know (.main i)).line) (hp : (post cluster t o a w).polls[l.conn]? = some p)
    (hwrites : t = .main i → ∀ bytes, o ≠ .writeAll l.conn bytes) :
    (l.wrote = true → p.request = toLeBytes ((post cluster t o a w).nodes i).clock) ∧
      ∀ clock ∈ l.got, l.wrote = true ∧ ∃ asked, p.told = some (asked, clock) := by
  obtain ⟨hstage, hline⟩ := h.informed.line i l hl
  obtain ⟨p₀, hp₀, hasks⟩ := h.op.sound.line i l hl
  obtain rfl := Option.some.inj (hp.symm.trans (polls_kept o a hp₀))
  refine ⟨fun hwrote => ?_, fun clock hclock => ?_⟩
  · rw [h.op.clock_same (by simp [hstage])]
    rcases pollPost_request (w := w) (t := t) (o := o) (a := a) l.conn p₀ with hsame | hnew
    · exact hsame.trans ((hline p₀ hp₀).1 hwrote)
    · obtain ⟨j, bytes, rfl, rfl, _⟩ := hnew
      obtain ⟨_, _, l', hl', hconn, _⟩ := h.op.main
      obtain ⟨p', hp', hasks'⟩ := h.op.sound.line j l' hl'
      rw [hconn] at hp'
      obtain rfl := Option.some.inj (hp₀.symm.trans hp')
      have hj : j = i := hasks'.poller.symm.trans hasks.poller
      exact absurd rfl (hwrites (congrArg Tid.main hj) bytes)
  · obtain ⟨hwrote, asked, htold⟩ := (hline p₀ hp₀).2 clock hclock
    exact ⟨hwrote, asked, h.told_kept hp₀ htold⟩

theorem Apart.line (h : Apart cluster w know t o a) (i : NodeId) (l : Line)
    (hl : l ∈ (learnt cluster know t o a (.main i)).line) :
    (learnt cluster know t o a (.main i)).stage = .inside ∧
      ∀ p, (post cluster t o a w).polls[l.conn]? = some p →
        (l.wrote = true → p.request = toLeBytes ((post cluster t o a w).nodes i).clock) ∧
          ∀ clock ∈ l.got, l.wrote = true ∧ ∃ asked, p.told = some (asked, clock) := by
  by_cases ht : t = .main i
  · subst ht
    rw [h.op.learnt_main] at hl ⊢
    have hmay := h.op.main
    -- outside of the loop no poll is open
    have hopen {l : Line} (hl : l ∈ (know (.main i)).line) : (know (.main i)).stage = .inside :=
      (h.informed.line i l hl).1
    cases o with
    | connect peer =>
        cases a with
        | error e => exact ⟨hopen hl, fun p hp => h.line_kept hl hp fun _ _ => nofun⟩
        | ok c =>
            obtain rfl := Option.some.inj hl
            exact ⟨hmay.1, fun p hp => ⟨nofun, nofun⟩⟩
    | writeAll c bytes =>
        obtain ⟨hstage, rfl, l₁, hl₁, rfl, hwrote⟩ := hmay
        have hwritten := h.written
        obtain ⟨r, n⟩ := a
        obtain rfl : r = .ok () := h.lossless
        obtain ⟨l₀, hl₀, rfl⟩ := Option.map_eq_some_iff.mp hl
        obtain rfl := Option.some.inj (hl₀.symm.trans hl₁)
        refine ⟨hstage, fun p hp => ?_⟩
        obtain ⟨p₀, hp₀, hasks⟩ := h.op.sound.line i l₀ hl₀
        obtain rfl := Option.some.inj (hp.symm.trans (polls_kept _ _ hp₀))
        refine ⟨fun _ => ?_, fun clock hclock => ⟨rfl, ?_⟩⟩
        · rw [hwritten, h.op.clock_same (by simp [hstage])]
          show p₀.request ++ _ = _
          rw [hasks.request hwrote, ((h.op.agree i).clock (by simp [hstage]) (by simp [hstage])).1]
          rfl
        · obtain ⟨_, asked, htold⟩ := ((h.informed.line i l₀ hl₀).2 p₀ hp₀).2 clock hclock
          exact ⟨asked, h.told_kept hp₀ htold⟩
    | readExact c =>
        cases a with
        | error e => cases hl
        | ok bytes =>
            obtain ⟨l₀, hl₀, rfl⟩ := Option.map_eq_some_iff.mp hl
            obtain ⟨l₁, hl₁, rfl, hwrote, _⟩ := hmay
            obtain rfl := Option.some.inj (hl₀.symm.trans hl₁)
            refine ⟨hopen hl₀, fun p hp => ⟨(h.line_kept (l := l₀) hl₀ hp fun _ _ => nofun).1, ?_⟩⟩
            intro clock hclock
            obtain rfl := Option.some.inj hclock
            -- the reply is whole
            obtain ⟨p₀, hp₀, hlen, hpre⟩ := h.op.can
            obtain rfl := Option.some.inj (hp.symm.trans (polls_kept _ _ hp₀))
            have hreply : p.reply ≠ [] := fun hnil => by
              have hpre : bytes <+: p.reply := hpre
              rw [hnil] at hpre
              rw [List.prefix_nil.mp hpre] at hlen
              cases hlen
            obtain ⟨asked, mine, htold, hmine⟩ := h.informed.replied _ p hp₀ hreply
            have hwhole : p.reply <+: toLeBytes mine := hmine ▸ List.prefix_refl p.reply
            rw [fromLeBytes_of_whole hlen hpre hwhole]
            exact ⟨hwrote, asked, h.told_kept hp₀ htold⟩
    | setTimeouts c =>
        cases a with
        | error e => cases hl
        | ok u => exact ⟨hopen hl, fun p hp => h.line_kept hl hp fun _ _ => nofun⟩
    | hear index clock => cases hl
    | callSynch => exact nomatch (hopen hl).symm.trans hmay
    | raiseClock =>
        have hl : l ∈ (know (.main i)).line := by cases a <;> exact hl
        exact nomatch (hopen hl).symm.trans hmay
    | spawn clock => exact nomatch (hopen hl).symm.trans hmay.1
    | join => exact nomatch hmay.2.symm.trans hl
    | returned ok =>
        have hstage := hopen hl
        cases ok with
        | true => rcases hmay.1 with hs | hs <;> exact nomatch hstage.symm.trans hs
        | false => exact nomatch hstage.symm.trans hmay
    | awaitSpawn | loadShutdown | accept | peerAddr | seenSend | finish => exact absurd hmay id
    | _ => exact ⟨hopen hl, fun p hp => h.line_kept hl hp fun _ _ => nofun⟩
  · rw [learnt_of_ne (Ne.symm ht)] at hl ⊢
    exact ⟨(h.informed.line i l hl).1, fun p hp => h.line_kept hl hp fun hi => absurd hi ht⟩

/-- A poll that is there, in the queue of its target or accepted, has been there before. -/
theorem Apart.there_before {c : Conn} {p : Poll} (h : Apart cluster w know t o a)
    (hp : w.polls[c]? = some p)
    (hthere : c ∈ ((post cluster t o a w).nodes p.target).backlog ∨
      (pollPost w t o a c p).accepted = true) :
    c ∈ (w.nodes p.target).backlog ∨ p.accepted = true := by
  rcases hthere with hbacklog | haccepted
  · rcases backlog_post hbacklog with ⟨hold, _⟩ | ⟨peer, hopens, _⟩
    · exact Or.inl hold
    · cases o with
      | connect peer' =>
          cases a with
          | error e => cases hopens
          | ok c' =>
              cases hopens
              obtain ⟨rfl, _⟩ : c = w.polls.length ∧ _ := h.op.can
              rw [List.getElem?_eq_none (Nat.le_refl _)] at hp
              cases hp
      | _ => cases hopens
  · rcases pollPost_accepted (w := w) (t := t) (o := o) (a := a) c p with hsame | haccepts
    · exact Or.inr (hsame.symm.trans haccepted)
    · cases o with
      | accept =>
          obtain rfl : a = some c := haccepts
          obtain ⟨p', hp', htarget, _⟩ := h.op.sound.backlog t.node c h.op.can
          obtain rfl := Option.some.inj (hp.symm.trans hp')
          rw [htarget]
          exact Or.inl h.op.can
      | _ => cases haccepts

/-- A poller that hears a reply has taken up the clock of its exchange. -/
theorem Apart.waits_hear {index : Nat} {a : (Op.hear index clock).Ans} {p : Poll} {l : Line}
    (h : Apart cluster w know (.main p.poller) (.hear index clock) a)
    (hl : (know (.main p.poller)).line = some l) (hp : w.polls[l.conn]? = some p) :
    ∃ asked mine, p.told = some (asked, mine) ∧
      Knows cluster (post cluster (.main p.poller) (.hear index clock) a w) p.poller p.target mine := by
  obtain ⟨l', hl', hpeer, hgot⟩ := h.op.main
  obtain rfl := Option.some.inj (hl.symm.trans hl')
  obtain ⟨p', hp', hasks⟩ := h.op.sound.line _ l hl
  obtain rfl := Option.some.inj (hp.symm.trans hp')
  obtain ⟨_, asked, htold⟩ := ((h.informed.line _ l hl).2 p hp).2 clock hgot
  refine ⟨asked, clock, htold, index, l.peer, hpeer, ?_, ?_⟩
  · rw [hasks.target]
    exact (nodeAt_others h.distinct (List.mem_of_getElem? hpeer)).1
  · have hlt : index < (w.nodes p.poller).knownClocks.length := by
      rw [h.informed.sized, ← List.length_eraseIdx_of_lt (h.informed.ends _ p hp).1]
      exact (List.getElem?_eq_some_iff.mp hpeer).1
    rw [node_post Node.knownClocks (fun _ _ => rfl),
      if_pos (show p.poller = (Tid.main p.poller).node from rfl)]
    show clock ≤ ((w.nodes p.poller).knownClocks.modify index (max · clock)).getD index 0
    rw [getD_hear, if_pos ⟨rfl, hlt⟩]
    rcases u64_max_cases ((w.nodes p.poller).knownClocks.getD index 0) clock with hmax | hmax
    · rw [hmax.1]
      exact UInt64.le_refl _
    · rw [hmax.1]
      exact hmax.2

/-- A read fails only of a poll that is not there any more. -/
theorem Apart.read_gone {c : Conn} {e : IoError} {p : Poll} {l : Line}
    (h : Apart cluster w know (.main p.poller) (.readExact c) (.error e))
    (hl : (know (.main p.poller)).line = some l) (hp : w.polls[l.conn]? = some p) :
    ¬ (l.conn ∈ (w.nodes p.target).backlog ∨ p.accepted = true) := by
  obtain ⟨l', hl', rfl, _⟩ := h.op.main
  obtain rfl := Option.some.inj (hl.symm.trans hl')
  obtain ⟨haccepted, hgone⟩ := h.lossless p hp
  rintro (hbacklog | haccepted')
  · exact absurd hbacklog hgone
  · exact nomatch haccepted.symm.trans haccepted'

/-- A poller that waits goes on waiting, or has taken up the reply. -/
theorem Apart.waits_kept {p : Poll} {l : Line} (h : Apart cluster w know (.main p.poller) o a)
    (hl : (know (.main p.poller)).line = some l) (hp : w.polls[l.conn]? = some p)
    (hthere : l.conn ∈ (w.nodes p.target).backlog ∨ p.accepted = true) :
    (∃ asked mine, p.told = some (asked, mine) ∧
        Knows cluster (post cluster (.main p.poller) o a w) p.poller p.target mine) ∨
      ∃ l' ∈ (mainNext (know (.main p.poller)) o a).line, l'.conn = l.conn := by
  have hmay := h.op.main
  have hlossless := h.lossless
  have hkept : ∃ l' ∈ (know (.main p.poller)).line, l'.conn = l.conn := ⟨l, hl, rfl⟩
  cases o with
  | connect peer => exact nomatch hmay.2.1.symm.trans hl
  | hear index clock => exact Or.inl (h.waits_hear hl hp)
  | writeAll c' bytes =>
      obtain ⟨r, n⟩ := a
      obtain rfl : r = .ok () := hlossless
      exact Or.inr ⟨_, Option.map_eq_some_iff.mpr ⟨l, hl, rfl⟩, rfl⟩
  | readExact c' =>
      cases a with
      | ok bytes => exact Or.inr ⟨_, Option.map_eq_some_iff.mpr ⟨l, hl, rfl⟩, rfl⟩
      | error e => exact absurd hthere (h.read_gone hl hp)
  | setTimeouts c' =>
      obtain rfl : a = .ok () := hlossless
      exact Or.inr hkept
  | raiseClock => cases a <;> exact Or.inr hkept
  | _ => exact Or.inr hkept

theorem Apart.waits (h : Apart cluster w know t o a) (c : Conn) (p : Poll)
    (hp : (post cluster t o a w).polls[c]? = some p)
    (hthere : c ∈ ((post cluster t o a w).nodes p.target).backlog ∨ p.accepted = true) :
    (∃ asked mine, p.told = some (asked, mine) ∧
        Knows cluster (post cluster t o a w) p.poller p.target mine) ∨
      ∃ l ∈ (learnt cluster know t o a (.main p.poller)).line, l.conn = c := by
  rcases polls_cases hp with ⟨p, hp₀, rfl⟩ | ⟨peer, rfl, rfl, rfl⟩
  · obtain ⟨hpoller, htarget⟩ := pollPost_ends (w := w) (t := t) o a c p
    rw [htarget] at hthere ⊢
    rw [hpoller]
    have hbefore := h.there_before hp₀ hthere
    rcases h.informed.waits c p hp₀ hbefore with ⟨asked, mine, htold, hknows⟩ | ⟨l, hl, rfl⟩
    · exact Or.inl ⟨asked, mine, h.told_kept hp₀ htold, hknows.step⟩
    by_cases ht : t = .main p.poller
    · subst ht
      rw [h.op.learnt_main]
      refine (h.waits_kept hl hp₀ hbefore).imp_left fun ⟨asked, mine, htold, hknows⟩ => ?_
      exact ⟨asked, mine, h.told_kept hp₀ htold, hknows⟩
    · rw [learnt_of_ne (Ne.symm ht)]
      exact Or.inr ⟨l, hl, rfl⟩
  · refine Or.inr ?_
    cases t with
    | responder i => exact absurd h.op.responder id
    | main i =>
        show ∃ l ∈ (learnt cluster know _ _ a (.main i)).line, l.conn = _
        rw [h.op.learnt_main]
        cases a with
        | error e =>
            have hgone : w.polls[w.polls.length]? = some _ := hp
            rw [List.getElem?_eq_none (Nat.le_refl _)] at hgone
            cases hgone
        | ok c =>
            obtain ⟨rfl, _⟩ : c = w.polls.length ∧ _ := h.op.can
            exact ⟨_, rfl, rfl⟩

theorem Apart.quiet (h : Apart cluster w know t o a) (i : NodeId)
    (hinside : (learnt cluster know t o a (.main i)).stage ≠ .inside)
    (hjoined : (learnt cluster know t o a (.main i)).stage ≠ .joined) :
    ((post cluster t o a w).nodes i).seen = [] := by
  rw [node_post Node.seen (fun _ _ => rfl)]
  by_cases hi : i = t.node
  · rw [if_pos hi]
    cases t with
    | main j =>
        obtain rfl : i = j := hi
        rw [h.op.learnt_main] at hinside hjoined
        have hmay := h.op.main
        have hquiet := h.informed.quiet i
        cases o with
        | callSynch =>
            have hstage : (know (.main i)).stage = .outside := hmay
            exact hquiet (by simp [hstage]) (by simp [hstage])
        | raiseClock =>
            have hstage : (know (.main i)).stage = .called := hmay
            have hold := hquiet (by simp [hstage]) (by simp [hstage])
            cases a <;> exact hold
        | channel | returned => rfl
        | spawn clock => exact absurd rfl hinside
        | join => exact absurd rfl hjoined
        | tryRecv peers => exact absurd hmay.1 hinside
        | bind | connect | readExact | setTimeouts => cases a <;> exact hquiet hinside hjoined
        | writeAll c bytes =>
            obtain ⟨r, n⟩ := a
            cases r <;> exact hquiet hinside hjoined
        | awaitSpawn | loadShutdown | accept | peerAddr | seenSend | finish => exact absurd hmay id
        | _ => exact hquiet hinside hjoined
    | responder j =>
        obtain rfl : i = j := hi
        rw [learnt_of_ne (show Tid.main i ≠ .responder i from nofun)] at hinside hjoined
        have hmay := h.op.responder
        have hquiet := h.informed.quiet i hinside hjoined
        cases o with
        | seenSend c ip clock => exact absurd ((h.op.agree i).active hmay.1).2.2 hinside
        | accept => cases a <;> exact hquiet
        | awaitSpawn | finish | readExact | peerAddr | writeAll | loadShutdown | setTimeouts =>
            exact hquiet
        | _ => exact absurd hmay id
  · have hne : Tid.main i ≠ t := fun ht => hi (ht ▸ rfl)
    rw [learnt_of_ne hne] at hinside hjoined
    rw [if_neg hi]
    exact h.informed.quiet i hinside hjoined

/-- What is in the queue was passed on in this round. -/
theorem Apart.queue (h : Apart cluster w know t o a) (i : NodeId) (item : Ipv4Addr × UInt64)
    (hitem : item ∈ ((post cluster t o a w).nodes i).seen) :
    ∃ (c : Conn) (p : Poll), (post cluster t o a w).polls[c]? = some p ∧ p.target = i ∧
      cluster[p.poller]? = some item.1 ∧
        p.told = some (item.2, ((post cluster t o a w).nodes i).clock) := by
  have hold (hitem : item ∈ (w.nodes i).seen) : ∃ (c : Conn) (p : Poll),
      (post cluster t o a w).polls[c]? = some p ∧ p.target = i ∧ cluster[p.poller]? = some item.1 ∧
        p.told = some (item.2, ((post cluster t o a w).nodes i).clock) := by
    have hstage : (know (.main i)).stage ≠ .called := fun hs => by
      rw [h.informed.quiet i (by simp [hs]) (by simp [hs])] at hitem
      cases hitem
    obtain ⟨c, p, hp, htarget, hpoller, htold⟩ := h.informed.queue i item hitem
    obtain ⟨hpoller', htarget'⟩ := pollPost_ends (w := w) (t := t) o a c p
    refine ⟨c, _, polls_kept o a hp, htarget'.trans htarget, hpoller'.symm ▸ hpoller, ?_⟩
    rw [h.op.clock_same hstage]
    exact h.told_kept hp htold
  rw [node_post Node.seen (fun _ _ => rfl)] at hitem
  by_cases hi : i = t.node
  · rw [if_pos hi] at hitem
    cases o with
    | seenSend c ip clock =>
        rcases List.mem_append.mp hitem with hitem | hitem
        · exact hold hitem
        obtain rfl := List.mem_singleton.mp hitem
        cases t with
        | main j => exact absurd h.op.main id
        | responder j =>
            obtain rfl : i = j := hi
            obtain ⟨hactive, b, hb, rfl, _⟩ := h.op.responder
            obtain ⟨p, hp, hanswers⟩ := h.op.sound.answering i b hb
            obtain ⟨_, _, _, _, haddr, _⟩ := h.passed hp
            have hstage := ((h.op.agree i).active hactive).2.2
            refine ⟨b.conn, _, polls_kept _ _ hp, ?_, ?_, ?_⟩
            · exact (pollPost_ends _ _ _ _).2.trans hanswers.target
            · rw [(pollPost_ends _ _ _ _).1]
              exact haddr
            · rw [h.op.clock_same (by simp [hstage])]
              simp only [pollPost, if_true, Tid.node]
    | tryRecv peers =>
        cases a with
        | none => exact hold hitem
        | some item' => exact hold (List.mem_of_mem_tail hitem)
    | channel | returned => cases hitem
    | bind | raiseClock | accept => cases a <;> exact hold hitem
    | _ => exact hold hitem
  · rw [if_neg hi] at hitem
    exact hold hitem

theorem Apart.paid (h : Apart cluster w know t o a) (hpaid : Paid cluster w i j)
    (hclock : ((post cluster t o a w).nodes i).clock = (w.nodes i).clock)
    (hle : (w.nodes i).clock ≤ (w.nodes j).clock) (hi : i < cluster.length)
    (hj : j < cluster.length) (hne : i ≠ j) : Paid cluster (post cluster t o a w) i j := by
  unfold Paid
  rw [hclock]
  rcases hpaid with hheard | ⟨c, p, asked, mine, hp, rfl, rfl, htold, hmine⟩
  · exact Or.inl (h.heard hheard hle hi hj hne)
  · obtain ⟨hpoller, htarget⟩ := pollPost_ends (w := w) (t := t) o a c p
    exact Or.inr ⟨c, _, asked, mine, polls_kept o a hp, hpoller, htarget, h.told_kept hp htold, hmine⟩

theorem getD_le {clocks : List UInt64} (h : ∀ mine ∈ clocks, mine ≤ clock) (index : Nat) :
    clocks.getD index 0 ≤ clock := by
  rw [List.getD_eq_getElem?_getD]
  cases hget : clocks[index]? with
  | none => exact UInt64.zero_le
  | some mine => exact h mine (List.mem_of_getElem? hget)

theorem le_max {known clock mine : UInt64} (h : clock ≤ max known mine) :
    clock ≤ known ∨ clock ≤ mine := by
  rcases u64_max_cases known mine with ⟨hmax, _⟩ | ⟨hmax, _⟩
  · exact Or.inr (hmax ▸ h)
  · exact Or.inl (hmax ▸ h)

/-- What was known of a peer before, in the same round. -/
theorem Apart.evidence_before {index : Nat} {ip : Ipv4Addr} (h : Apart cluster w know t o a)
    (hi : i < cluster.length) (hindex : (others cluster i)[index]? = some ip)
    (hj : cluster[j]? = some ip)
    (hclock : ((post cluster t o a w).nodes i).clock = (w.nodes i).clock)
    (hle : (w.nodes i).clock ≤ (w.nodes i).knownClocks.getD index 0) :
    Paid cluster (post cluster t o a w) i j :=
  h.paid (h.informed.evidence i hi j index ip hindex hj hle) hclock
    (UInt64.le_trans hle (h.op.sound.known i index ip hindex j hj)) hi
    (List.getElem?_eq_some_iff.mp hj).1 (ne_of_others h.distinct hindex hj)

/-- A clock is taken up: what is known was known before, or is this clock. -/
theorem Apart.evidence_taken {index index' : Nat} {ip : Ipv4Addr} (h : Apart cluster w know t o a)
    (hi : i < cluster.length) (hindex : (others cluster i)[index]? = some ip)
    (hj : cluster[j]? = some ip)
    (hclock : ((post cluster t o a w).nodes i).clock = (w.nodes i).clock)
    (hle : (w.nodes i).clock ≤ ((w.nodes i).knownClocks.modify index' (max · clock)).getD index 0)
    (hpaid : index = index' → (w.nodes i).clock ≤ clock → Paid cluster (post cluster t o a w) i j) :
    Paid cluster (post cluster t o a w) i j := by
  rw [getD_hear] at hle
  split at hle
  · next hat =>
    rcases le_max hle with hle | hmine
    · exact h.evidence_before hi hindex hj hclock hle
    · exact hpaid hat.1 hmine
  · exact h.evidence_before hi hindex hj hclock hle

/-- Nothing is known yet that is as high as the clock of a new round. -/
theorem Apart.evidence_raise (h : Apart cluster w know t .raiseClock (some clock)) (index : Nat) :
    ¬ clock ≤ (w.nodes t.node).knownClocks.getD index 0 := by
  intro hle
  have hcan : some clock = if (w.nodes t.node).clock.toNat + 1 < 2 ^ 64 then
    some ((w.nodes t.node).clock + 1) else none := h.op.can
  split at hcan
  · next hlt =>
    obtain rfl := Option.some.inj hcan
    have hlt : (w.nodes t.node).clock + 1 ≤ (w.nodes t.node).clock :=
      UInt64.le_trans hle (getD_le (h.apart rfl) index)
    rw [UInt64.le_iff_toNat_le, UInt64.toNat_add] at hlt
    exact absurd hlt (by show ¬ (_ + 1) % 2 ^ 64 ≤ _; omega)
  · cases hcan

/-- The reply that a node hears says that the peer was told of its round. -/
theorem Apart.evidence_hear {index index' : Nat} {ip : Ipv4Addr} {a : (Op.hear index' clock).Ans}
    (h : Apart cluster w know (.main i) (.hear index' clock) a) (hi : i < cluster.length)
    (hindex : (others cluster i)[index]? = some ip) (hj : cluster[j]? = some ip)
    (hclock : ((post cluster (.main i) (.hear index' clock) a w).nodes i).clock = (w.nodes i).clock)
    (hle : (w.nodes i).clock ≤
      ((w.nodes i).knownClocks.modify index' (max · clock)).getD index 0) :
    Paid cluster (post cluster (.main i) (.hear index' clock) a w) i j := by
  obtain ⟨l, hl, hpeer, hgot⟩ := h.op.main
  refine h.evidence_taken hi hindex hj hclock hle fun hat hmine => ?_
  subst hat
  obtain rfl := Option.some.inj (hindex.symm.trans hpeer)
  obtain ⟨p, hp, hasks⟩ := h.op.sound.line i l hl
  obtain ⟨_, hline⟩ := h.informed.line i l hl
  obtain ⟨hwrote, asked, htold⟩ := (hline p hp).2 clock hgot
  have hexchanged := h.informed.told l.conn p asked clock hp htold
  obtain rfl := toLeBytes_inj (((hline p hp).1 hwrote).symm.trans hexchanged.request)
  obtain rfl : p.target = j := hasks.target.trans (nodeAt_eq h.distinct hj)
  have hheard := hexchanged.heard hmine
  rw [hasks.poller] at hheard
  exact h.paid (Or.inl hheard) hclock (UInt64.le_trans hmine hexchanged.current) hi
    (List.getElem?_eq_some_iff.mp hj).1 (ne_of_others h.distinct hindex hj)

/-- The item that a node takes from its queue was passed on by its responder, in an exchange. -/
theorem Apart.evidence_tryRecv {index : Nat} {ip : Ipv4Addr} {peers : List Ipv4Addr}
    {item : Ipv4Addr × UInt64} (h : Apart cluster w know (.main i) (.tryRecv peers) (some item))
    (hi : i < cluster.length) (hindex : (others cluster i)[index]? = some ip)
    (hj : cluster[j]? = some ip)
    (hclock : ((post cluster (.main i) (.tryRecv peers) (some item) w).nodes i).clock =
      (w.nodes i).clock)
    (hle : (w.nodes i).clock ≤ (record peers (w.nodes i).knownClocks item).getD index 0) :
    Paid cluster (post cluster (.main i) (.tryRecv peers) (some item) w) i j := by
  obtain ⟨_, rfl⟩ := h.op.main
  unfold record at hle
  split at hle
  · next index' hfind =>
    refine h.evidence_taken hi hindex hj hclock hle fun hat hmine => ?_
    subst hat
    obtain ⟨hlt, hip, _⟩ := List.findIdx?_eq_some_iff_getElem.mp hfind
    have hhere := hindex
    rw [List.getElem?_eq_getElem hlt] at hhere
    obtain rfl : item.1 = ip := (beq_iff_eq.mp hip).symm.trans (Option.some.inj hhere)
    have hitem : some item = (w.nodes i).seen.head? := h.op.can
    obtain ⟨c, p, hp, htarget, hpoller, htold⟩ :=
      h.informed.queue i item (List.mem_of_head? hitem.symm)
    have hpaid : Paid cluster w i j := Or.inr ⟨c, p, item.2, (w.nodes i).clock, hp,
      position_unique h.distinct hpoller hj, htarget, htold, UInt64.le_refl _⟩
    have hcurrent := h.op.sound.seen i item (List.mem_of_head? hitem.symm) j hj
    exact h.paid hpaid hclock (UInt64.le_trans hmine hcurrent) hi
      (List.getElem?_eq_some_iff.mp hj).1 (ne_of_others h.distinct hindex hj)
  · exact h.evidence_before hi hindex hj hclock hle

/-- **What is known of a peer in a round was paid for in it**: the exchange that brought it left
    one's own clock with the peer. -/
theorem Apart.evidence (h : Apart cluster w know t o a) (i : NodeId) (hi : i < cluster.length)
    (j : NodeId) (index : Nat) (ip : Ipv4Addr) (hindex : (others cluster i)[index]? = some ip)
    (hj : cluster[j]? = some ip) (hle : ((post cluster t o a w).nodes i).clock ≤
      ((post cluster t o a w).nodes i).knownClocks.getD index 0) :
    Paid cluster (post cluster t o a w) i j := by
  have hclock : ((post cluster t o a w).nodes i).clock =
      (if i = t.node then nodePost o a (w.nodes i) else w.nodes i).clock :=
    node_post Node.clock (fun _ _ => rfl) o a
  have hknown : ((post cluster t o a w).nodes i).knownClocks =
      (if i = t.node then nodePost o a (w.nodes i) else w.nodes i).knownClocks :=
    node_post Node.knownClocks (fun _ _ => rfl) o a
  rw [hclock, hknown] at hle
  by_cases hat : i = t.node
  · rw [if_pos hat] at hclock hle
    cases o with
    | raiseClock =>
        cases a with
        | none => exact h.evidence_before hi hindex hj hclock hle
        | some clock =>
            obtain rfl := hat
            exact absurd hle (h.evidence_raise index)
    | hear index' clock =>
        cases t with
        | responder => exact absurd h.op.responder id
        | main =>
            obtain rfl := hat
            exact h.evidence_hear hi hindex hj hclock hle
    | tryRecv peers =>
        cases a with
        | none => exact h.evidence_before hi hindex hj hclock hle
        | some item =>
            cases t with
            | responder => exact absurd h.op.responder id
            | main =>
                obtain rfl := hat
                exact h.evidence_tryRecv hi hindex hj hclock hle
    | bind | accept => cases a <;> exact h.evidence_before hi hindex hj hclock hle
    | _ => exact h.evidence_before hi hindex hj hclock hle
  · rw [if_neg hat] at hclock hle
    exact h.evidence_before hi hindex hj hclock hle

/-- **One step.** -/
theorem Apart.step (h : Apart cluster w know t o a) :
    Informed cluster (post cluster t o a w) (learnt cluster know t o a) where
  member := h.member
  sized := h.sized
  ends := h.ends
  told := h.told
  replied := h.replied
  answering := h.answering
  waits := h.waits
  line := h.line
  quiet := h.quiet
  queue := h.queue
  evidence := h.evidence

end Step

/-! ## 4. Runs -/

section Runs

variable {cluster : List Ipv4Addr}

theorem informed_first (hdistinct : cluster.Nodup) :
    Informed cluster (firstWorld cluster) firstKnow where
  member i hstage := absurd rfl hstage
  sized i := List.length_replicate
  ends := nofun
  told := nofun
  replied := nofun
  answering := nofun
  waits := nofun
  line := nofun
  quiet _ _ _ := rfl
  queue := nofun
  evidence i hi j index ip hindex hj _ := by
    obtain ⟨index', ip', hindex', hip', _⟩ := peer_index (w := firstWorld cluster)
      List.length_replicate hi (List.getElem?_eq_some_iff.mp hj).1 (ne_of_others hdistinct hindex hj)
    exact Or.inl (Or.inl ⟨index', ip', hindex', hip', UInt64.zero_le⟩)

/-- The next step of node `i` is to return `Ok` from its call. -/
def Returns (c : Config Tid Op World Loop Op.Ans) (i : NodeId) : Prop :=
  match c.prog (.main i) with
  | .act o _ => o = .returned true
  | .ret _ => False

instance (c : Config Tid Op World Loop Op.Ans) (i : NodeId) : Decidable (Returns c i) := by
  unfold Returns
  split <;> infer_instance

/-- A clock that a node has heard of is one that it has learnt. -/
theorem Heard.learned {w : World} {i j : NodeId} {clock : UInt64} (h : Heard cluster w j i clock) :
    Learned cluster w j i clock.toNat := by
  rcases h with ⟨index, ip, hindex, hi, hle⟩ | ⟨item, hitem, hi, hle⟩
  · exact .known index ip hindex hi (UInt64.le_iff_toNat_le.mp hle)
  · exact .queued item hitem hi (UInt64.le_iff_toNat_le.mp hle)

/-- **Every peer has learnt the clock of a node that leaves**, in a run in which no message is lost,
    no timeout fires, and nodes enter their rounds apart. -/
theorem leaves_informed (hdistinct : cluster.Nodup) {c : Config Tid Op World Loop Op.Ans}
    (hreach : (apart cluster).Reach (start cluster) c) {i : NodeId} (hret : Returns c i) :
    ∀ j < cluster.length, j ≠ i → Learned cluster c.world j i (c.world.nodes i).entered := by
  intro j hj hne
  have hfollows := (barrier_follows cluster).restrict fun t o w a => Lossless t o w a ∧
    EntersApart t o w a
  obtain ⟨know, hw⟩ := System.Reach.watched (protocol cluster) firstKnow
    (show (apart cluster).Reach ((apart cluster).start (firstWorld cluster) firstLoop) c from hreach)
  obtain ⟨hreached, hinformed⟩ := hw.invariant hfollows entry_firstKnow
    (I := fun w know => Reached cluster w know ∧ Informed cluster w know)
    ⟨reached_first, informed_first hdistinct⟩ fun _ h t o a hmay hcan =>
      ⟨h.1.step hdistinct t o a hmay hcan.1, Apart.step ⟨hdistinct,
        ⟨h.1.sound, h.1.agree, h.1.roles t, hmay, hcan.1.2⟩, h.2, hcan.2.1, hcan.2.2⟩⟩
  unfold Returns at hret
  split at hret
  · next o k hprog =>
    subst hret
    have hmay := (protocol_main (hreached.roles (.main i)) _).1.mp (hw.may hfollows entry_firstKnow hprog)
    obtain ⟨hstage, hall⟩ := hmay
    obtain ⟨index, hlt, ip, hindex, hip⟩ := peer_of_ne hj hne
    obtain ⟨known, hknows, hround⟩ := hall index hlt
    have hlocal := hreached.agree i
    have houtside : (know (.main i)).stage ≠ .outside := by
      rcases hstage with hs | hs <;> simp [hs]
    have hcalled : (know (.main i)).stage ≠ .called := by
      rcases hstage with hs | hs <;> simp [hs]
    have hentered : (c.world.nodes i).entered = (c.world.nodes i).clock.toNat := by
      rw [hlocal.entered, if_neg hcalled, Nat.add_zero]
    have hle : (c.world.nodes i).clock ≤ (c.world.nodes i).knownClocks.getD index 0 := by
      rw [← (hlocal.clock houtside hcalled).2]
      exact UInt64.le_trans hround (hlocal.knows _ hknows)
    rw [hentered]
    rcases hinformed.evidence i (hinformed.member i houtside) j index ip hindex hip hle with h | h
    · exact h.learned
    · obtain ⟨conn, p, asked, mine, hp, hpoller, htarget, htold, hmine⟩ := h
      rcases (hinformed.told conn p asked mine hp htold).reply with hreply | howed
      · exact .replied conn p mine hp hpoller htarget hreply (UInt64.le_iff_toNat_le.mp hmine)
      · -- the responder has been joined
        rw [htarget] at howed
        have hinside := (hlocal.active howed.1).2.2
        rcases hstage with hs | hs <;> exact nomatch hs.symm.trans hinside
  · cases hret

end Runs

section Play

variable (cluster : List Ipv4Addr) (t : Tid) (o : Op) (w : World) (a : o.Ans)

instance : Decidable (Lossless t o w a) :=
  match o, a with
  | .writeAll _ _, (r, _) => inferInstanceAs (Decidable (r = .ok ()))
  | .setTimeouts _, r => inferInstanceAs (Decidable (r = .ok ()))
  | .peerAddr _, .error _ => inferInstanceAs (Decidable False)
  | .readExact c, .error _ => inferInstanceAs (Decidable (∀ p ∈ w.polls[c]?,
      p.accepted = false ∧ c ∉ (w.nodes p.target).backlog))
  | .pastDeadline, past => inferInstanceAs (Decidable (past = false))
  | .peerAddr _, .ok _ | .readExact _, .ok _ => inferInstanceAs (Decidable True)
  | .callSynch, _ | .returned _, _ | .raiseClock, _ | .clock, _ | .known _, _ | .hear _ _, _
  | .bind, _ | .setNonblocking, _ | .dropListener, _ | .channel, _ | .spawn _, _ | .tryRecv _, _
  | .setShutdown, _ | .join, _ | .exitProcess, _ | .awaitSpawn, _ | .loadShutdown, _ | .accept, _
  | .seenSend _ _ _, _ | .finish, _ | .connect _, _ => inferInstanceAs (Decidable True)

instance : Decidable (EntersApart t o w a) :=
  let := List.decidableBAll (· ≤ (w.nodes t.node).clock) (w.nodes t.node).knownClocks
  inferInstanceAs (Decidable (_ → _))

instance : Decidable ((lossless cluster).can t o w a) := inferInstanceAs (Decidable (_ ∧ _))

instance : Decidable ((apart cluster).can t o w a) := inferInstanceAs (Decidable (_ ∧ _))

end Play

/-- In a cluster of two, a node that has heard from the other one joins its responder. -/
def joins (i : NodeId) : List Move :=
  moves [1, 2] (.main i) 3 ++ moves [1, 2] (.responder i) 3 ++ moves [1, 2] (.main i) 1

/-- Two nodes enter a round, and the first is about to leave it. -/
def leaving : List Move :=
  enters [1, 2] 0 ++ enters [1, 2] 1 ++ exchanges [1, 2] 0 1 ++ joins 0

theorem leaves_informed_leaving : ∃ c, (apart [1, 2]).Reach (start [1, 2]) c ∧ Returns c 0 ∧
    ∀ j < 2, j ≠ 0 → Learned [1, 2] c.world j 0 (c.world.nodes 0).entered := by
  have hplay : (((apart [1, 2]).play (start [1, 2]) leaving).map fun c => decide (Returns c 0)) =
      some true := by decide +kernel
  obtain ⟨c, hc, hreturns⟩ := Option.map_eq_some_iff.mp hplay
  have hreach := System.play_reach hc
  have hreturns := of_decide_eq_true hreturns
  exact ⟨c, hreach, hreturns, leaves_informed (by decide) hreach hreturns⟩

/-- What a node would have learnt a clock from. -/
structure Unheard (w : World) (j : NodeId) (r : Nat) : Prop where
  known : ∀ clock ∈ (w.nodes j).knownClocks, clock.toNat < r
  seen : (w.nodes j).seen = []
  replies : ∀ p ∈ w.polls, (fromLeBytes p.reply).toNat < r

theorem Unheard.not_learned {cluster : List Ipv4Addr} {w : World} {i j : NodeId} {r : Nat}
    (h : Unheard w j r) (hr : 0 < r) : ¬ Learned cluster w j i r := by
  rintro (⟨index, ip, _, _, hle⟩ | ⟨item, hitem, _, _⟩ | ⟨c, p, clock, hp, _, _, hreply, hle⟩)
  · rw [List.getD_eq_getElem?_getD] at hle
    cases hget : (w.nodes j).knownClocks[index]? with
    | none =>
        rw [hget] at hle
        exact absurd hle (Nat.not_le.mpr hr)
    | some clock =>
        rw [hget] at hle
        exact absurd hle (Nat.not_le.mpr (h.known clock (List.mem_of_getElem? hget)))
  · rw [h.seen] at hitem
    cases hitem
  · have hlt := h.replies p (List.mem_of_getElem? hp)
    rw [hreply, fromLeBytes_toLeBytes] at hlt
    exact absurd hle (Nat.not_le.mpr hlt)

/-- The second node leaves the first round, enters the second one and polls the first node, which
    is still in the first round: it leaves that, and enters the second round with the clock of the
    second node in `known_clocks`. -/
def ahead : List Move :=
  enters [1, 2] 0 ++ enters [1, 2] 1 ++ exchanges [1, 2] 1 0 ++ leaves [1, 2] 1 ++
    enters [1, 2] 1 ++ exchanges [1, 2] 1 0 ++
    -- two items of its queue
    moves [1, 2] (.main 0) 4 ++ leaves [1, 2] 0 ++ enters [1, 2] 0 ++ joins 0

/-- **A node leaves its second round, and the other one has yet to hear from it**: nothing was lost,
    and no timeout has fired. -/
theorem leaves_unheard : ∃ c, (lossless [1, 2]).Reach (start [1, 2]) c ∧ Returns c 0 ∧
    (c.world.nodes 0).entered = 2 ∧ ¬ Learned [1, 2] c.world 1 0 2 := by
  have hplay : (((lossless [1, 2]).play (start [1, 2]) ahead).map fun c =>
      decide (Returns c 0 ∧ (c.world.nodes 0).entered = 2 ∧ (c.world.nodes 1).knownClocks = [1] ∧
        (c.world.nodes 1).seen = [] ∧ ∀ p ∈ c.world.polls, (fromLeBytes p.reply).toNat < 2)) =
      some true := by decide +kernel
  obtain ⟨c, hc, hends⟩ := Option.map_eq_some_iff.mp hplay
  obtain ⟨hreturns, hentered, hknown, hseen, hreplies⟩ := of_decide_eq_true hends
  have hunheard : Unheard c.world 1 2 := by
    refine ⟨fun clock hclock => ?_, hseen, hreplies⟩
    rw [hknown] at hclock
    obtain rfl := List.mem_singleton.mp hclock
    decide
  exact ⟨c, System.play_reach hc, hreturns, hentered, hunheard.not_learned (by decide)⟩

end Rdmalib.GlobalSynch
