/-
  File:      Rdmalib/Synch/Protocol.lean
  Subject:   What the two threads of a node do in a barrier.

  * `protocol` -- a main thread sends its own clock, takes up only clocks that it read from a peer's
    reply or from its queue, and returns when it has seen every peer's clock reach the round; a
    responder passes on what it read, and replies with the clock it was spawned with;
  * `barrier_follows` -- the code follows it, whatever the answers are.
-/
import Rdmalib.Synch.Barrier

namespace Rdmalib.GlobalSynch

open Base

/-! ## 1. What the threads do -/

/-- Where a main thread is in its call of `synch`. -/
inductive Stage where
  | outside
  | called
  | raised
  | inside
  | joined
  deriving DecidableEq

/-- The poll that a main thread has open, and the clock it read from the reply. -/
structure Line where
  conn : Conn
  peer : Ipv4Addr
  wrote : Bool := false
  got : Option UInt64 := none

/-- The poll that a responder is answering. -/
structure Answering where
  conn : Conn
  request : Option (List UInt8) := none
  addr : Option Ipv4Addr := none
  told : Bool := false

/-- What a thread knows: the round and the clock of its call, the poll it has open and the entries
    of `known_clocks` it has seen; of a responder, whether it runs, and what it is answering. -/
structure Know where
  role : Tid
  stage : Stage := .outside
  round : UInt64 := 0
  clock : UInt64 := 0
  line : Option Line := none
  knows : List (Nat × UInt64) := []
  active : Bool := false
  answering : Option Answering := none

/-- A responder that passed a request on has not replied yet. -/
def Know.Owes (k : Know) : Prop := ∃ a ∈ k.answering, a.told = true

/-- Every entry of `known_clocks` has been seen to reach the round. -/
def Know.HeardFromAll (k : Know) (peers : List Ipv4Addr) : Prop :=
  ∀ index < peers.length, ∃ clock, (index, clock) ∈ k.knows ∧ k.round ≤ clock

def Tid.isMain : Tid → Bool
  | .main _ => true
  | .responder _ => false

/-- What a main thread may do. -/
def mainMay (peers : List Ipv4Addr) (k : Know) : Op → Prop
  | .callSynch => k.stage = .outside
  | .raiseClock => k.stage = .called
  | .bind | .setNonblocking | .dropListener | .channel => k.stage = .raised
  | .spawn myClock => k.stage = .raised ∧ myClock = k.clock
  | .returned true => (k.stage = .raised ∨ k.stage = .joined) ∧ k.HeardFromAll peers
  | .returned false => k.stage = .raised
  | .setShutdown | .join => k.stage = .inside ∧ k.line = none
  | .tryRecv peers' => k.stage = .inside ∧ peers' = peers
  | .connect peer => k.stage = .inside ∧ k.line = none ∧ peer ∈ peers
  | .hear index clock => ∃ l ∈ k.line, peers[index]? = some l.peer ∧ l.got = some clock
  | .writeAll c bytes =>
      k.stage = .inside ∧ bytes = toLeBytes k.clock ∧ ∃ l ∈ k.line, l.conn = c ∧ l.wrote = false
  | .readExact c => ∃ l ∈ k.line, l.conn = c ∧ l.wrote = true ∧ l.got = none
  | .clock => k.stage = .raised ∨ k.stage = .inside
  | .known _ | .pastDeadline | .exitProcess | .setTimeouts _ => True
  | .awaitSpawn | .loadShutdown | .accept | .peerAddr _ | .seenSend _ _ _ | .finish => False

/-- What a responder may do. -/
def responderMay (k : Know) : Op → Prop
  | .awaitSpawn => k.active = false ∧ ¬ k.Owes
  | .accept | .finish => k.active = true ∧ ¬ k.Owes
  | .readExact c => ∃ a ∈ k.answering, a.conn = c ∧ a.told = false
  | .peerAddr c => ∃ a ∈ k.answering, a.conn = c
  | .seenSend c ip clock => k.active = true ∧ ∃ a ∈ k.answering, a.conn = c ∧ a.addr = some ip ∧
      a.told = false ∧ ∃ bytes ∈ a.request, clock = fromLeBytes bytes
  | .writeAll c bytes => k.active = true ∧ bytes = toLeBytes k.clock ∧
      ∃ a ∈ k.answering, a.conn = c ∧ a.told = true
  | .loadShutdown | .setTimeouts _ => True
  | _ => False

def mainNext (k : Know) (o : Op) (a : o.Ans) : Know :=
  match o, a with
  | .callSynch, _ => { k with stage := .called }
  | .raiseClock, some clock => { k with stage := .raised, round := clock, clock, knows := [] }
  | .clock, clock => { k with clock }
  | .known index, clock => { k with knows := (index, clock) :: k.knows }
  | .hear _ _, _ => { k with line := none }
  | .spawn _, _ => { k with stage := .inside }
  | .join, _ => { k with stage := .joined }
  | .returned _, _ => { k with stage := .outside }
  | .connect peer, .ok conn => { k with line := some { conn, peer } }
  | .writeAll _ _, (.ok (), _) => { k with line := k.line.map ({ · with wrote := true }) }
  | .readExact _, .ok bytes =>
      { k with line := k.line.map ({ · with got := some (fromLeBytes bytes) }) }
  -- a poll that fails is over
  | .setTimeouts _, .error _ | .writeAll _ _, (.error _, _) | .readExact _, .error _ =>
      { k with line := none }
  | _, _ => k

def responderNext (k : Know) (o : Op) (a : o.Ans) : Know :=
  match o, a with
  | .awaitSpawn, clock => { k with clock, active := true }
  | .finish, _ => { k with active := false }
  | .accept, some conn => { k with answering := some { conn } }
  | .readExact _, .ok bytes =>
      { k with answering := k.answering.map ({ · with request := some bytes }) }
  | .peerAddr _, .ok ip => { k with answering := k.answering.map ({ · with addr := some ip }) }
  | .seenSend _ _ _, _ => { k with answering := k.answering.map ({ · with told := true }) }
  | .writeAll _ _, _ => { k with answering := none }
  | _, _ => k

/-- **What the threads of a node may do, and learn.** -/
def protocol (cluster : List Ipv4Addr) : Protocol Op Op.Ans Know where
  may k := if k.role.isMain then mainMay (others cluster k.role.node) k else responderMay k
  next k o a := if k.role.isMain then mainNext k o a else responderNext k o a

/-- What a thread knows at the start of a turn. -/
def entry (k : Know) : Loop → Prop
  | .outside i => k.role = .main i ∧ k.stage = .outside ∧ k.line = none
  | .waiting i round =>
      k.role = .main i ∧ k.stage = .inside ∧ round = k.round ∧ k.line = none
  | .spawnable i => k.role = .responder i ∧ k.active = false ∧ ¬ k.Owes
  | .responding i myClock =>
      k.role = .responder i ∧ k.active = true ∧ ¬ k.Owes ∧ myClock = k.clock

section Code

variable {cluster : List Ipv4Addr} {k : Know} {i : NodeId} {α : Type}

theorem protocol_main (hrole : k.role = .main i) (o : Op) :
    ((protocol cluster).may k o ↔ mainMay (others cluster i) k o) ∧
      ∀ a, (protocol cluster).next k o a = mainNext k o a := by
  have hmain : k.role.isMain = true := by rw [hrole]; rfl
  have hnode : k.role.node = i := by rw [hrole]; rfl
  simp only [protocol, hmain, hnode, if_true, implies_true, and_self]

theorem protocol_responder (hrole : k.role = .responder i) (o : Op) :
    ((protocol cluster).may k o ↔ responderMay k o) ∧
      ∀ a, (protocol cluster).next k o a = responderNext k o a := by
  have hmain : k.role.isMain = false := by rw [hrole]; rfl
  simp only [protocol, hmain, Bool.false_eq_true, if_false, implies_true, and_self]

theorem follows_main (hrole : k.role = .main i) {o : Op} {Q : Know → o.Ans → Prop} :
    Follows (protocol cluster) k (perform o) Q ↔
      mainMay (others cluster i) k o ∧ ∀ a, Q (mainNext k o a) a := by
  show ((protocol cluster).may k o ∧ ∀ a, Q ((protocol cluster).next k o a) a) ↔ _
  simp only [protocol_main hrole o]

theorem follows_responder (hrole : k.role = .responder i) {o : Op} {Q : Know → o.Ans → Prop} :
    Follows (protocol cluster) k (perform o) Q ↔
      responderMay k o ∧ ∀ a, Q (responderNext k o a) a := by
  show ((protocol cluster).may k o ∧ ∀ a, Q ((protocol cluster).next k o a) a) ↔ _
  simp only [protocol_responder hrole o]

theorem tries_question {x : Code (Except IoError α)} {Q : Know → α → Prop}
    {E : Know → IoError → Prop} :
    Tries (protocol cluster) k (question x) Q E ↔
      Follows (protocol cluster) k x (Ends Q E) := Iff.rfl

/-- What does not change in a call, and that what was seen of `known_clocks` stays seen. -/
structure Inside (i : NodeId) (k k' : Know) : Prop where
  role : k'.role = .main i
  stage : k'.stage = .inside
  round : k'.round = k.round
  knows : ∀ e ∈ k.knows, e ∈ k'.knows

theorem Inside.trans {k₁ k₂ : Know} (h : Inside i k k₁) (h' : Inside i k₁ k₂) : Inside i k k₂ :=
  ⟨h'.role, h'.stage, h'.round.trans h.round, fun e he => h'.knows e (h.knows e he)⟩

theorem poll_tries {peer : Ipv4Addr} (hrole : k.role = .main i) (hstage : k.stage = .inside)
    (hline : k.line = none) (hpeer : peer ∈ others cluster i) :
    Tries (protocol cluster) k (poll peer)
      (fun k' clock => Inside i k k' ∧ ∃ l ∈ k'.line, l.peer = peer ∧ l.got = some clock)
      fun k' _ => Inside i k k' ∧ k'.line = none := by
  have hinside (line : Option Line) (clock : UInt64) : Inside i k { k with line, clock } :=
    ⟨hrole, hstage, rfl, fun _ h => h⟩
  unfold poll
  rw [tries_bind, tries_question, follows_main hrole]
  refine ⟨⟨hstage, hline, hpeer⟩, fun connected => ?_⟩
  cases connected with
  | error e => exact ⟨⟨hrole, hstage, rfl, fun _ h => h⟩, hline⟩
  | ok c =>
  let k₁ : Know := { k with line := some { conn := c, peer } }
  show Tries (protocol cluster) k₁ _ _ _
  rw [tries_bind, tries_question, follows_main (k := k₁) hrole]
  refine ⟨trivial, fun armed => ?_⟩
  cases armed with
  | error e => exact ⟨hinside none k.clock, rfl⟩
  | ok u =>
  show Tries (protocol cluster) k₁ _ _ _
  rw [tries_bind, tries_question, follows_main (k := k₁) hrole]
  refine ⟨trivial, fun armed => ?_⟩
  cases armed with
  | error e => exact ⟨hinside none k.clock, rfl⟩
  | ok u =>
  show Tries (protocol cluster) k₁ _ _ _
  rw [tries_bind, tries_lift, follows_main (k := k₁) hrole]
  refine ⟨Or.inr hstage, fun clock => ?_⟩
  let k₂ : Know := { k₁ with clock }
  show Tries (protocol cluster) k₂ _ _ _
  rw [tries_bind, tries_question, follows_bind, follows_main (k := k₂) hrole]
  refine ⟨⟨hstage, rfl, _, rfl, rfl, rfl⟩, fun written => ?_⟩
  obtain ⟨written, n⟩ := written
  cases written with
  | error e => exact ⟨hinside none clock, rfl⟩
  | ok u =>
  let k₃ : Know := { k₂ with line := some { conn := c, peer, wrote := true } }
  show Tries (protocol cluster) k₃
    (question (perform (.readExact c)) >>= fun reply => pure (fromLeBytes reply)) _ _
  rw [tries_bind, tries_question, follows_main (k := k₃) hrole]
  refine ⟨⟨_, rfl, rfl, rfl, rfl⟩, fun reply => ?_⟩
  cases reply with
  | error e => exact ⟨hinside none clock, rfl⟩
  | ok bytes => exact ⟨hinside _ clock, _, rfl, rfl, rfl⟩

/-- **The loop over the peers**: where it has heard from all, it has seen every entry from `index`
    on reach the round. -/
theorem pollPeers_follows {rest : List Ipv4Addr} {index : Nat} {heardFromAll : Bool}
    (hrole : k.role = .main i) (hstage : k.stage = .inside) (hline : k.line = none)
    (hrest : (others cluster i).drop index = rest) :
    Follows (protocol cluster) k (pollPeers k.round rest index heardFromAll) fun k' r =>
      Inside i k k' ∧ k'.line = none ∧ (r = true → heardFromAll = true ∧ ∀ j, index ≤ j →
        j < (others cluster i).length → ∃ clock, (j, clock) ∈ k'.knows ∧ k.round ≤ clock) := by
  induction rest generalizing k index heardFromAll with
  | nil =>
      refine ⟨⟨hrole, hstage, rfl, fun _ h => h⟩, hline, fun h => ⟨h, fun j hle hlt => ?_⟩⟩
      exact absurd hlt (Nat.not_lt.mpr ((List.drop_eq_nil_iff.mp hrest).trans hle))
  | cons peer rest ih =>
      have hpeer : (others cluster i)[index]? = some peer := by
        rw [← List.head?_drop, hrest]
        rfl
      have hdrop : (others cluster i).drop (index + 1) = rest := by
        rw [← List.drop_drop, hrest]
        rfl
      unfold pollPeers
      rw [follows_bind, follows_main hrole]
      refine ⟨trivial, fun known => ?_⟩
      let k₁ : Know := { k with knows := (index, known) :: k.knows }
      have hinside : Inside i k k₁ := ⟨hrole, hstage, rfl, fun e he => List.mem_cons_of_mem _ he⟩
      show Follows (protocol cluster) k₁ _ _
      by_cases hround : k.round ≤ known
      · -- heard from: the entry is there for good
        simp only [hround, if_true]
        refine (ih (k := k₁) hrole hstage hline hdrop).mono fun k₂ r h => ?_
        refine ⟨hinside.trans h.1, h.2.1, fun hr => ⟨(h.2.2 hr).1, fun j hle hlt => ?_⟩⟩
        rcases Nat.eq_or_lt_of_le hle with rfl | hle
        · exact ⟨known, h.1.knows _ List.mem_cons_self, hround⟩
        · exact (h.2.2 hr).2 j hle hlt
      · simp only [hround, if_false]
        -- whatever the poll brings, the round is not over
        have hgo (k₃ : Know) (h₃ : Inside i k k₃) (hline : k₃.line = none) :
            Follows (protocol cluster) k₃ (pollPeers k.round rest (index + 1) false) fun k' r =>
              Inside i k k' ∧ k'.line = none ∧ (r = true → heardFromAll = true ∧ ∀ j, index ≤ j →
                j < (others cluster i).length →
                  ∃ clock, (j, clock) ∈ k'.knows ∧ k.round ≤ clock) := by
          rw [← h₃.round]
          refine (ih h₃.role h₃.stage hline hdrop).mono fun k₄ r h => ?_
          exact ⟨h₃.trans h.1, h.2.1, fun hr => absurd (h.2.2 hr).1 Bool.false_ne_true⟩
        rw [follows_bind, follows_run]
        have hpoll := poll_tries (k := k₁) hrole hstage hline (List.mem_of_getElem? hpeer)
        refine hpoll.mono (fun k₂ clock h₂ => ?_) fun k₂ e h₂ => hgo _ (hinside.trans h₂.1) h₂.2
        obtain ⟨h₂, l, hl, rfl, hgot⟩ := h₂
        simp only
        rw [follows_bind, follows_main h₂.role]
        refine ⟨⟨l, hl, hpeer, hgot⟩, fun _ => hgo _ ?_ rfl⟩
        exact hinside.trans ⟨h₂.role, h₂.stage, h₂.round, h₂.knows⟩

theorem answer_follows {c : Conn} {myClock : UInt64} {a : Answering} (hrole : k.role = .responder i)
    (hactive : k.active = true) (hclock : myClock = k.clock) (ha : k.answering = some a)
    (hconn : a.conn = c) (htold : a.told = false) :
    Follows (protocol cluster) k (answer c myClock).run fun k' _ =>
      entry k' (.responding i myClock) := by
  have hstop {q : Know} {a : Answering} (hrole : q.role = .responder i) (hactive : q.active = true)
      (hclock : myClock = q.clock) (ha : q.answering = some a) (htold : a.told = false) :
      entry q (.responding i myClock) := by
    refine ⟨hrole, hactive, fun ⟨a', ha', ht⟩ => ?_, hclock⟩
    obtain rfl := Option.some.inj (ha.symm.trans ha')
    rw [htold] at ht
    cases ht
  have hself := hstop hrole hactive hclock ha htold
  rw [follows_run]
  unfold answer
  rw [tries_bind, tries_question, follows_responder hrole]
  refine ⟨trivial, fun armed => ?_⟩
  cases armed with
  | error e => exact hself
  | ok u =>
  show Tries (protocol cluster) k _ _ _
  rw [tries_bind, tries_question, follows_responder hrole]
  refine ⟨trivial, fun armed => ?_⟩
  cases armed with
  | error e => exact hself
  | ok u =>
  show Tries (protocol cluster) k _ _ _
  rw [tries_bind, tries_question, follows_responder hrole]
  refine ⟨⟨a, ha, hconn, htold⟩, fun request => ?_⟩
  cases request with
  | error e => exact hself
  | ok bytes =>
  let k₁ : Know := { k with answering := some { a with request := some bytes } }
  have hk₁ : responderNext k (.readExact c) (.ok bytes) = k₁ := by
    show { k with answering := k.answering.map _ } = k₁
    rw [ha]
    rfl
  rw [hk₁]
  show Tries (protocol cluster) k₁ _ _ _
  rw [tries_bind, tries_question, follows_responder (k := k₁) hrole]
  refine ⟨⟨_, rfl, hconn⟩, fun addr => ?_⟩
  cases addr with
  | error e => exact hstop (q := k₁) hrole hactive hclock rfl htold
  | ok ip =>
  let k₂ : Know := { k with answering := some { a with request := some bytes, addr := some ip } }
  show Tries (protocol cluster) k₂ _ _ _
  rw [tries_bind, tries_lift, follows_responder (k := k₂) hrole]
  refine ⟨⟨hactive, _, rfl, hconn, rfl, htold, bytes, rfl, rfl⟩, fun _ => ?_⟩
  let k₃ : Know :=
    { k with answering := some { a with request := some bytes, addr := some ip, told := true } }
  show Tries (protocol cluster) k₃ _ _ _
  rw [tries_question, follows_bind, follows_responder (k := k₃) hrole]
  refine ⟨⟨hactive, hclock ▸ rfl, _, rfl, hconn, rfl⟩, fun written => ?_⟩
  have hdone : entry { k with answering := none } (.responding i myClock) :=
    ⟨hrole, hactive, fun ⟨_, ha', _⟩ => (by cases ha'), hclock⟩
  obtain ⟨written, n⟩ := written
  cases written with
  | error e => exact hdone
  | ok u => exact hdone

theorem respond_follows {myClock : UInt64} (h : entry k (.responding i myClock)) :
    Follows (protocol cluster) k (respond i myClock) fun k' r => ∀ l ∈ r, entry k' l := by
  obtain ⟨hrole, hactive, howes, hclock⟩ := h
  unfold respond
  rw [follows_bind, follows_responder hrole]
  refine ⟨trivial, fun down => ?_⟩
  cases down with
  | true =>
      simp only [if_true]
      rw [follows_bind, follows_responder (by exact hrole)]
      refine ⟨⟨hactive, howes⟩, fun _ l hl => ?_⟩
      cases hl
      exact ⟨hrole, rfl, howes⟩
  | false =>
      simp only [Bool.false_eq_true, if_false]
      show Follows (protocol cluster) k _ _
      rw [follows_bind, follows_responder hrole]
      refine ⟨⟨hactive, howes⟩, fun got => ?_⟩
      cases got with
      | none =>
          intro l hl
          cases hl
          exact ⟨hrole, hactive, howes, hclock⟩
      | some c =>
          simp only
          rw [follows_bind]
          let k₁ : Know := { k with answering := some { conn := c } }
          show Follows (protocol cluster) k₁ _ _
          refine (answer_follows (k := k₁) hrole hactive hclock rfl rfl rfl).mono fun k' r h l hl => ?_
          cases hl
          exact h

theorem synch_follows (h : entry k (.outside i)) :
    Follows (protocol cluster) k (synch (others cluster i) i) fun k' r => ∀ l ∈ r, entry k' l := by
  obtain ⟨hrole, hstage, hline⟩ := h
  have hout {q : Know} {ok : Bool} (hrole : q.role = .main i) (hline : q.line = none)
      (hmay : mainMay (others cluster i) q (.returned ok)) :
      Follows (protocol cluster) q (do perform (.returned ok); return some (.outside i))
        fun k' r => ∀ l ∈ r, entry k' l := by
    rw [follows_bind, follows_main hrole]
    refine ⟨hmay, fun _ l hl => ?_⟩
    cases hl
    exact ⟨hrole, rfl, hline⟩
  unfold synch
  rw [follows_bind, follows_main hrole]
  refine ⟨hstage, fun _ => ?_⟩
  let k₁ : Know := { k with stage := .called }
  show Follows (protocol cluster) k₁ _ _
  rw [follows_bind, follows_main (k := k₁) hrole]
  refine ⟨rfl, fun raised => ?_⟩
  cases raised with
  | none => exact fun l hl => by cases hl
  | some round =>
  let k₂ : Know := { k with stage := .raised, round := round, clock := round, knows := [] }
  show Follows (protocol cluster) k₂ _ _
  by_cases hpeers : (others cluster i).isEmpty
  · simp only [hpeers, if_true]
    refine hout (q := k₂) hrole hline ⟨Or.inl rfl, fun index hlt => ?_⟩
    rw [List.isEmpty_iff.mp hpeers] at hlt
    exact absurd hlt (Nat.not_lt_zero _)
  simp only [hpeers]
  show Follows (protocol cluster) k₂ (perform .bind >>= _) _
  rw [follows_bind, follows_main (k := k₂) hrole]
  refine ⟨rfl, fun bound => ?_⟩
  cases bound with
  | error e => exact hout (q := k₂) hrole hline rfl
  | ok u =>
  show Follows (protocol cluster) k₂ (perform .setNonblocking >>= _) _
  rw [follows_bind, follows_main (k := k₂) hrole]
  refine ⟨rfl, fun set => ?_⟩
  cases set with
  | error e =>
      show Follows (protocol cluster) k₂ (perform .dropListener >>= _) _
      rw [follows_bind, follows_main (k := k₂) hrole]
      exact ⟨rfl, fun _ => hout (q := k₂) hrole hline rfl⟩
  | ok u =>
  show Follows (protocol cluster) k₂ (perform .channel >>= _) _
  rw [follows_bind, follows_main (k := k₂) hrole]
  refine ⟨rfl, fun _ => ?_⟩
  show Follows (protocol cluster) k₂ _ _
  rw [follows_bind, follows_main (k := k₂) hrole]
  refine ⟨Or.inl rfl, fun myClock => ?_⟩
  let k₃ : Know := { k₂ with clock := myClock }
  show Follows (protocol cluster) k₃ _ _
  rw [follows_bind, follows_main (k := k₃) hrole]
  refine ⟨⟨rfl, rfl⟩, fun _ l hl => ?_⟩
  cases hl
  exact ⟨hrole, rfl, rfl, hline⟩

theorem synchLoop_follows {round : UInt64} (h : entry k (.waiting i round)) :
    Follows (protocol cluster) k (synchLoop (others cluster i) i round)
      fun k' r => ∀ l ∈ r, entry k' l := by
  obtain ⟨hrole, hstage, rfl, hline⟩ := h
  unfold synchLoop
  rw [follows_bind, follows_main hrole]
  refine ⟨⟨hstage, rfl⟩, fun item => ?_⟩
  show Follows (protocol cluster) k _ _
  cases item with
  | some item =>
      intro l hl
      cases hl
      exact ⟨hrole, hstage, rfl, hline⟩
  | none =>
      simp only
      rw [follows_bind]
      refine (pollPeers_follows hrole hstage hline List.drop_zero).mono fun k₁ heardFromAll h => ?_
      have hback : ∀ l ∈ some (Loop.waiting i k.round), entry k₁ l := fun l hl => by
        cases hl
        exact ⟨h.1.role, h.1.stage, h.1.round.symm, h.2.1⟩
      cases heardFromAll with
      | true =>
          simp only [if_true]
          rw [follows_bind, follows_main h.1.role]
          refine ⟨⟨h.1.stage, h.2.1⟩, fun _ => ?_⟩
          show Follows (protocol cluster) k₁ _ _
          rw [follows_bind, follows_main h.1.role]
          refine ⟨⟨h.1.stage, h.2.1⟩, fun _ => ?_⟩
          let k₂ : Know := { k₁ with stage := .joined }
          show Follows (protocol cluster) k₂ _ _
          rw [follows_bind, follows_main (k := k₂) h.1.role]
          refine ⟨⟨Or.inr rfl, fun index hlt => ?_⟩, fun _ l hl => ?_⟩
          · obtain ⟨clock, hmem, hle⟩ := (h.2.2 rfl).2 index (Nat.zero_le _) hlt
            exact ⟨clock, hmem, h.1.round ▸ hle⟩
          · cases hl
            exact ⟨h.1.role, rfl, h.2.1⟩
      | false =>
          simp only [Bool.false_eq_true, if_false]
          rw [follows_bind, follows_main h.1.role]
          refine ⟨trivial, fun past => ?_⟩
          show Follows (protocol cluster) k₁ _ _
          cases past with
          | true =>
              simp only [if_true]
              rw [follows_bind, follows_main h.1.role]
              exact ⟨trivial, fun _ l hl => by cases hl⟩
          | false => exact hback

end Code

/-- **The code follows the protocol.** -/
theorem barrier_follows (cluster : List Ipv4Addr) :
    (barrier cluster).Follows (protocol cluster) entry where
  turn k l h := by
    cases l with
    | outside i => exact synch_follows h
    | waiting i round => exact synchLoop_follows h
    | spawnable i =>
        obtain ⟨hrole, hidle⟩ := h
        show Follows (protocol cluster) k (perform .awaitSpawn >>= _) _
        rw [follows_bind, follows_responder hrole]
        refine ⟨hidle, fun myClock l hl => ?_⟩
        cases hl
        exact ⟨hrole, rfl, hidle.2, rfl⟩
    | responding i myClock => exact respond_follows h

/-- What the threads know at the start. -/
def firstKnow (t : Tid) : Know := { role := t }

theorem entry_firstKnow (t : Tid) : entry (firstKnow t) (firstLoop t) := by
  cases t with
  | main i => exact ⟨rfl, rfl, rfl⟩
  | responder i => exact ⟨rfl, rfl, fun ⟨_, ha, _⟩ => by cases ha⟩

end Rdmalib.GlobalSynch
