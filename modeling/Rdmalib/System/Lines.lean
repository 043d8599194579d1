/-
  File:      Rdmalib/System/Lines.lean
  Subject:   The conversations of the metadata protocol, apart from the code that holds them.

  * `Phase` -- how far a conversation is: greeting, reply, and then any number of requests, each
    answered by a catalog and by tuples;
  * `Lines` -- the TCP connections, and who holds which of them in which phase; `LineStep` -- what
    can happen to them: messages, failures within one, connections handed on and dropped;
  * `Sound` -- each connection is held at most once on either side, its holders have exchanged what
    their phase says, and what one of them got is what the other has sent, in order;
  * result: every step keeps it (`Sound.step`).
-/
import Rdmalib.Base.Stream
import Rdmalib.Meta.RoundTrip
import Rdmalib.System.World

namespace Rdmalib

open Base

open Function (update)

/-! ## 1. Frames and phases -/

/-- The frames of the metadata protocol. -/
def frames : Framing Message UInt8 := ⟨Message.encode, takeFrame⟩

theorem frames_reads {m : Message} (h : m.Capped) : frames.Reads m := by
  intro s
  show takeFrame (m.encode ++ s) = some (m, m.encode.length)
  have hread : (readFrame : ExceptT Fault (StateM (List UInt8)) Message).run.run (m.encode ++ s) =
      (.ok m, s) := readFrame_encode h s
  unfold takeFrame
  rw [hread]
  dsimp only
  rw [List.length_append, Nat.add_sub_cancel]

/-- A frame that was written in part is not read. -/
theorem frames_cut {m : Message} (h : m.Capped) {n : Nat} (hn : n < m.encode.length) :
    takeFrame (m.encode.take n) = none := by
  have hne : m.encode.take n ≠ m.encode := by
    intro heq
    have hlen := congrArg List.length heq
    rw [List.length_take] at hlen
    omega
  have hkind := (eof_iff_cutShort _).mpr (prefix_cutShort h (List.take_prefix _ _) hne)
  unfold takeFrame
  split
  · next hread =>
    have hread : readFrame (m.encode.take n) = _ := hread
    rw [hread] at hkind
    cases hkind
  · rfl

/-- How far a conversation is; `served` are the requests answered so far. -/
inductive Phase where
  | fresh
  | greeted
  | idle (served : Nat)
  | asked (served : Nat)
  | told (served : Nat)
  deriving DecidableEq, Repr

namespace Phase

def next : Phase → Phase
  | fresh => greeted
  | greeted => idle 0
  | idle j => asked j
  | asked j => told j
  | told j => idle (j + 1)

/-- Is it the provider who speaks next? -/
def turn : Phase → Bool
  | fresh | idle _ => false
  | greeted | asked _ | told _ => true

/-- The number of messages spoken by the provider, and by the reader. -/
def said : Phase → Bool → Nat
  | fresh, _ | greeted, true => 0
  | greeted, false => 1
  | idle j, true | asked j, true => 2 * j + 1
  | told j, true => 2 * j + 2
  | idle j, false => j + 1
  | asked j, false | told j, false => j + 2

theorem said_next (p : Phase) : p.next.said p.turn = p.said p.turn + 1 := by
  cases p <;> rfl

theorem said_next_other (p : Phase) : p.next.said (!p.turn) = p.said (!p.turn) := by
  cases p <;> rfl

end Phase

/-! ## 2. Conversations -/

namespace ChanState

/-- What a side has sent; the provider's side is `true`. -/
def sent (s : ChanState) (byProvider : Bool) : List Message :=
  if byProvider then s.sentP else s.sentR

/-- What a side has got from the other. -/
def got (s : ChanState) (byProvider : Bool) : List Message :=
  if byProvider then s.recvP else s.recvR

variable {s : ChanState} {b : Bool} {now : Instant} {m : Message} {n : Nat} {e : IoError}

theorem send_sent : (s.send b now m (.ok (), n)).sent b = s.sent b ++ [m] := by cases b <;> rfl

theorem cut_sent : (s.send b now m (.error e, n)).sent b = s.sent b := by cases b <;> rfl

theorem send_queue {a : Except IoError Unit × Nat} :
    (s.send b now m a).queue (!b) = s.queue (!b) ++ m.encode.take a.2 := by cases b <;> rfl

theorem receive_got : (s.receive b (.ok m, n)).got b = s.got b ++ [m] := by cases b <;> rfl

theorem lost_got : (s.receive b (.error e, n)).got b = s.got b := by
  cases b <;> exact List.append_nil _

theorem receive_queue {a : Except IoError Message × Nat} :
    (s.receive b a).queue b = (s.queue b).drop a.2 := by cases b <;> rfl

/-- What a send leaves alone. -/
theorem send_other {a : Except IoError Unit × Nat} : (s.send b now m a).sent (!b) = s.sent (!b) ∧
    (∀ b', (s.send b now m a).got b' = s.got b') ∧ (s.send b now m a).queue b = s.queue b := by
  cases b
  · exact ⟨rfl, fun b' => by cases b' <;> rfl, rfl⟩
  · exact ⟨rfl, fun b' => by cases b' <;> rfl, rfl⟩

/-- What a receive leaves alone. -/
theorem receive_other {a : Except IoError Message × Nat} :
    (∀ b', (s.receive b a).sent b' = s.sent b') ∧ (s.receive b a).got (!b) = s.got (!b) ∧
      (s.receive b a).queue (!b) = s.queue (!b) ∧ (s.receive b a).asked = s.asked := by
  cases b
  · exact ⟨fun b' => by cases b' <;> rfl, rfl, rfl, rfl⟩
  · exact ⟨fun b' => by cases b' <;> rfl, rfl, rfl, rfl⟩

theorem send_asked {a : Except IoError Unit × Nat} (h : s.asked.length = s.sentR.length) :
    (s.send b now m a).asked.length = (s.send b now m a).sentR.length := by
  cases b with
  | true => exact h
  | false =>
      obtain ⟨a, n⟩ := a
      cases a with
      | error e => exact h
      | ok u =>
          show (s.asked ++ [now]).length = (s.sentR ++ [m]).length
          rw [List.length_append, List.length_append, h]
          rfl

/-- What is recorded of a connection only grows. -/
structure Grown (s s' : ChanState) : Prop where
  sent : ∀ b, s.sent b <+: s'.sent b
  got : ∀ b, s.got b <+: s'.got b
  asked : s.asked <+: s'.asked

theorem Grown.rfl : Grown s s :=
  ⟨fun _ => List.prefix_refl _, fun _ => List.prefix_refl _, List.prefix_refl _⟩

theorem addIf_prefix {α : Type} (xs : List α) (x : α) (r : Except IoError Unit) :
    xs <+: addIf xs x r := by
  cases r with
  | ok u => exact List.prefix_append _ _
  | error e => exact List.prefix_refl _

theorem send_grown (a : Except IoError Unit × Nat) : Grown s (s.send b now m a) := by
  have hgot : ∀ b', s.got b' <+: (s.send b now m a).got b' := fun b' => by
    simp only [send_other.2.1, List.prefix_refl]
  cases b with
  | true =>
      refine ⟨fun b' => ?_, hgot, List.prefix_refl _⟩
      cases b' with
      | true => exact addIf_prefix _ _ _
      | false => exact List.prefix_refl _
  | false =>
      refine ⟨fun b' => ?_, hgot, addIf_prefix _ _ _⟩
      cases b' with
      | true => exact List.prefix_refl _
      | false => exact addIf_prefix _ _ _

theorem receive_grown (a : Except IoError Message × Nat) : Grown s (s.receive b a) := by
  refine ⟨fun b' => ?_, fun b' => ?_, ?_⟩
  · simp only [receive_other.1, List.prefix_refl]
  · cases b <;> cases b' <;> first | exact List.prefix_refl _ | exact List.prefix_append _ _
  · simp only [receive_other.2.2.2, List.prefix_refl]

end ChanState

/-- Who can hold a connection: a thread, or a reader between two updates of a group. -/
inductive Place where
  | thread (t : Tid)
  | parked (i : Nat) (g : UInt32)
  deriving DecidableEq, Repr

def Place.isProvider : Place → Bool
  | .thread t => t.isProvider
  | .parked _ _ => false

/-- The TCP connections, those not accepted yet, and who holds which in which phase. -/
structure Lines where
  chans : List ChanState
  backlog : List Chan
  hold : Place → Option (Chan × Phase)

/-- **What can happen to a conversation.** -/
inductive LineStep (L : Lines) : Lines → Prop where
  | connect (x : Place) (owner : Nat) (hx : x.isProvider = false) :
      LineStep L ⟨L.chans ++ [{ owner := owner }], L.chans.length :: L.backlog,
        update L.hold x (some (L.chans.length, .fresh))⟩
  | accept (x : Place) {c : Chan} (hx : x.isProvider = true) (hc : c ∈ L.backlog) :
      LineStep L ⟨L.chans, L.backlog.erase c, update L.hold x (some (c, .fresh))⟩
  | send (x : Place) {c : Chan} {p : Phase} (now : Instant) (m : Message)
      (hx : L.hold x = some (c, p)) (hturn : p.turn = x.isProvider) (hm : frames.Reads m) :
      LineStep L ⟨L.chans.modify c (·.send x.isProvider now m (.ok (), m.encode.length)), L.backlog,
        update L.hold x (some (c, p.next))⟩
  /-- A send that fails within the frame: its sender gives the connection up. -/
  | cut (x : Place) {c : Chan} {p : Phase} (now : Instant) (m : Message) (e : IoError) (n : Nat)
      (hx : L.hold x = some (c, p)) (hm : takeFrame (m.encode.take n) = none) :
      LineStep L ⟨L.chans.modify c (·.send x.isProvider now m (.error e, n)), L.backlog,
        update L.hold x none⟩
  | receive (x : Place) {c : Chan} {p : Phase} {s : ChanState} (m : Message) (n : Nat)
      (hx : L.hold x = some (c, p)) (hturn : p.turn = !x.isProvider) (hs : L.chans[c]? = some s)
      (hm : takeFrame (s.queue x.isProvider) = some (m, n)) :
      LineStep L ⟨L.chans.modify c (·.receive x.isProvider (.ok m, n)), L.backlog,
        update L.hold x (some (c, p.next))⟩
  /-- A receive that fails, after any number of bytes: its receiver gives the connection up. -/
  | lost (x : Place) {c : Chan} {p : Phase} (e : IoError) (n : Nat) (hx : L.hold x = some (c, p)) :
      LineStep L ⟨L.chans.modify c (·.receive x.isProvider (.error e, n)), L.backlog,
        update L.hold x none⟩
  | forget (x : Place) : LineStep L ⟨L.chans, L.backlog, update L.hold x none⟩
  /-- A connection is handed on, on its side. -/
  | hand (x y : Place) (hside : x.isProvider = y.isProvider) :
      LineStep L ⟨L.chans, L.backlog, update (update L.hold x none) y (L.hold x)⟩

/-- A side may still use the connection. -/
def Lines.On (L : Lines) (byProvider : Bool) (c : Chan) : Prop :=
  (byProvider = true ∧ c ∈ L.backlog) ∨ ∃ x p, x.isProvider = byProvider ∧ L.hold x = some (c, p)

/-- What the holder of a connection has said and heard is what its phase says. -/
def Phase.Counts (p : Phase) (byProvider : Bool) (s : ChanState) : Prop :=
  (s.sent byProvider).length = p.said byProvider ∧ (s.got byProvider).length = p.said (!byProvider)

/-- **The conversations are in order.** -/
structure Sound (L : Lines) : Prop where
  counts : ∀ {x c p}, L.hold x = some (c, p) →
    ∃ s, L.chans[c]? = some s ∧ p.Counts x.isProvider s
  apart : ∀ {x y c p q}, L.hold x = some (c, p) → L.hold y = some (c, q) →
    x.isProvider = y.isProvider → x = y
  nodup : L.backlog.Nodup
  waiting : ∀ c ∈ L.backlog, ∃ s, L.chans[c]? = some s ∧ s.sent true = [] ∧ s.got true = []
  unheld : ∀ c ∈ L.backlog, ∀ x p, x.isProvider = true → L.hold x ≠ some (c, p)
  stream : ∀ {c s b}, L.chans[c]? = some s → L.On b c →
    ∃ tail, frames.InFlight (s.sent !b) (s.got b) (s.queue b) tail ∧ (L.On (!b) c → tail = [])
  asked : ∀ s ∈ L.chans, s.asked.length = s.sentR.length

/-! ## 3. Every step -/

section Steps

variable {L : Lines} {x : Place} {c : Chan} {p : Phase} {s : ChanState}

theorem Lines.On.held {b : Bool} (hx : L.hold x = some (c, p)) (hb : x.isProvider = b) : L.On b c :=
  Or.inr ⟨x, p, hb, hx⟩

/-- Whoever holds a connection is its only holder on that side, and it is not waiting there. -/
theorem Sound.others (h : Sound L) (hx : L.hold x = some (c, p)) {y : Place} {q : Phase}
    (hy : L.hold y = some (c, q)) (hne : y ≠ x) : y.isProvider = !x.isProvider := by
  by_contra hside
  exact hne (h.apart hy hx (by simpa using hside))

/-- Connections stay in use on the sides where they are, where holders only change places. -/
theorem Lines.On.of_hold {hold' : Place → Option (Chan × Phase)} {chans' : List ChanState} {b : Bool}
    {backlog' : List Chan} (hback : c ∈ backlog' → c ∈ L.backlog)
    (hhold : ∀ y q, hold' y = some (c, q) → ∃ z q', z.isProvider = y.isProvider ∧
      L.hold z = some (c, q')) (h : Lines.On ⟨chans', backlog', hold'⟩ b c) : L.On b c := by
  rcases h with ⟨hb, hc⟩ | ⟨y, q, hy, hq⟩
  · exact Or.inl ⟨hb, hback hc⟩
  · obtain ⟨z, q', hz, hq'⟩ := hhold y q hq
    exact Or.inr ⟨z, q', hz.trans hy, hq'⟩

theorem modified_at {chans : List ChanState} {f : ChanState → ChanState} {c : Chan} {s : ChanState}
    (hs : chans[c]? = some s) : (chans.modify c f)[c]? = some (f s) := by
  rw [List.getElem?_modify_eq, hs]
  rfl

theorem getElem?_modified {chans : List ChanState} {f : ChanState → ChanState} {c' : Chan}
    {s' : ChanState} (h : (chans.modify c f)[c']? = some s') :
    ∃ s, chans[c']? = some s ∧ s' = if c = c' then f s else s := by
  rw [List.getElem?_modify] at h
  obtain ⟨s, hs, he⟩ := Option.map_eq_some_iff.mp h
  exact ⟨s, hs, he.symm⟩

/-- Who holds something after one place was given something else. -/
theorem held_update {hold : Place → Option (Chan × Phase)} {v : Option (Chan × Phase)} {z : Place}
    {e : Chan × Phase} (hz : update hold x v z = some e) :
    (z = x ∧ v = some e) ∨ (z ≠ x ∧ hold z = some e) := by
  by_cases hzx : z = x
  · subst hzx
    rw [Function.update_self] at hz
    exact Or.inl ⟨rfl, hz⟩
  · rw [Function.update_of_ne hzx] at hz
    exact Or.inr ⟨hzx, hz⟩

/-- **A holder uses its connection**: it sends or receives, and then keeps the connection in a new
    phase, or gives it up. -/
theorem Sound.touch (h : Sound L) (hx : L.hold x = some (c, p)) (hs : L.chans[c]? = some s)
    {f : ChanState → ChanState} {held : Option (Chan × Phase)}
    (hheld : ∀ e ∈ held, e.1 = c ∧ e.2.Counts x.isProvider (f s))
    (hsent : (f s).sent (!x.isProvider) = s.sent (!x.isProvider))
    (hgot : (f s).got (!x.isProvider) = s.got (!x.isProvider))
    (hasked : ∀ s, s.asked.length = s.sentR.length → (f s).asked.length = (f s).sentR.length)
    (hown : held ≠ none → ∀ tail, frames.InFlight (s.sent !x.isProvider) (s.got x.isProvider)
        (s.queue x.isProvider) tail →
      frames.InFlight ((f s).sent !x.isProvider) ((f s).got x.isProvider)
        ((f s).queue x.isProvider) tail)
    (hother : frames.InFlight (s.sent x.isProvider) (s.got !x.isProvider)
        (s.queue !x.isProvider) [] →
      ∃ tail, frames.InFlight ((f s).sent x.isProvider) ((f s).got !x.isProvider)
        ((f s).queue !x.isProvider) tail ∧ (held ≠ none → tail = [])) :
    Sound ⟨L.chans.modify c f, L.backlog, update L.hold x held⟩ := by
  have hat : (L.chans.modify c f)[c]? = some (f s) := modified_at hs
  have haway {c' : Chan} (hc : c ≠ c') : (L.chans.modify c f)[c']? = L.chans[c']? :=
    List.getElem?_modify_ne _ _ hc
  -- the connection is held after the step by whom it was held before it
  have hholder {y : Place} {c' : Chan} {q : Phase} (hy : update L.hold x held y = some (c', q)) :
      (y = x ∧ held = some (c', q) ∧ c' = c) ∨ (y ≠ x ∧ L.hold y = some (c', q)) := by
    rcases held_update hy with ⟨hyx, hkept⟩ | hkept
    · exact Or.inl ⟨hyx, hkept, (hheld _ hkept).1⟩
    · exact Or.inr hkept
  have hon {b : Bool} {c' : Chan}
      (hOn : Lines.On ⟨L.chans.modify c f, L.backlog, update L.hold x held⟩ b c') : L.On b c' := by
    refine hOn.of_hold (fun hc => hc) fun y q hy => ?_
    rcases hholder hy with ⟨rfl, _, rfl⟩ | ⟨_, hy⟩
    · exact ⟨y, p, rfl, hx⟩
    · exact ⟨y, q, rfl, hy⟩
  have hgiven {b : Bool} (hb : x.isProvider = b)
      (hOn : Lines.On ⟨L.chans.modify c f, L.backlog, update L.hold x held⟩ b c) : held ≠ none := by
    rintro rfl
    rcases hOn with ⟨hb', hc⟩ | ⟨y, q, hy, hq⟩
    · exact h.unheld c hc x p (hb.trans hb') hx
    · rcases hholder hq with ⟨_, hnone, _⟩ | ⟨hyx, hq⟩
      · cases hnone
      · exact hyx (h.apart hq hx (hy.trans hb.symm))
  refine ⟨fun {y c' q} hy => ?_, fun {y z c' q r} hy hz hside => ?_, h.nodup, fun c' hc => ?_,
    fun c' hc y q hy hq => ?_, fun {c' s' b} hs' hOn => ?_, fun s' hs' => ?_⟩
  · rcases hholder hy with ⟨rfl, hkept, rfl⟩ | ⟨hyx, hy'⟩
    · exact ⟨f s, hat, (hheld (_, q) hkept).2⟩
    · obtain ⟨s', hs', hcounts⟩ := h.counts hy'
      by_cases hc : c = c'
      · subst hc
        cases hs.symm.trans hs'
        have hside := h.others hx hy' hyx
        refine ⟨f s, hat, ?_⟩
        unfold Phase.Counts at hcounts ⊢
        rw [hside] at hcounts ⊢
        rw [hsent, hgot]
        exact hcounts
      · exact ⟨s', (haway hc).trans hs', hcounts⟩
  · rcases hholder hy with ⟨rfl, _, rfl⟩ | ⟨_, hy'⟩
    · rcases hholder hz with ⟨rfl, _, _⟩ | ⟨_, hz'⟩
      · rfl
      · exact h.apart hx hz' hside
    · rcases hholder hz with ⟨rfl, _, rfl⟩ | ⟨_, hz'⟩
      · exact h.apart hy' hx hside
      · exact h.apart hy' hz' hside
  · obtain ⟨s', hs', hempty⟩ := h.waiting c' hc
    by_cases hcc : c = c'
    · subst hcc
      cases hs.symm.trans hs'
      have hside : (!x.isProvider) = true := by
        by_contra hside
        exact h.unheld c hc x p (by simpa using hside) hx
      rw [hside] at hsent hgot
      exact ⟨f s, hat, hsent.trans hempty.1, hgot.trans hempty.2⟩
    · exact ⟨s', (haway hcc).trans hs', hempty⟩
  · rcases hholder hq with ⟨rfl, _, rfl⟩ | ⟨_, hq⟩
    · exact h.unheld c' hc y p hy hx
    · exact h.unheld c' hc y q hy hq
  · by_cases hc : c = c'
    · subst hc
      cases hat.symm.trans hs'
      have hstream := h.stream (b := b) hs (hon hOn)
      by_cases hb : x.isProvider = b
      · subst hb
        obtain ⟨tail, hflight, htail⟩ := hstream
        exact ⟨tail, hown (hgiven rfl hOn) tail hflight, fun h' => htail (hon h')⟩
      · have hb : b = !x.isProvider := Bool.eq_not_of_ne (Ne.symm hb)
        subst hb
        rw [Bool.not_not] at hstream ⊢
        obtain ⟨tail, hflight, htail⟩ := hstream
        rw [htail (.held hx rfl)] at hflight
        obtain ⟨tail', hflight', htail'⟩ := hother hflight
        exact ⟨tail', hflight', fun h' => htail' (hgiven rfl h')⟩
    · obtain ⟨tail, hflight, htail⟩ := h.stream ((haway hc).symm.trans hs') (hon hOn)
      exact ⟨tail, hflight, fun h' => htail (hon h')⟩
  · obtain ⟨s₀, hs₀, rfl | rfl⟩ := mem_modify hs'
    · exact h.asked _ hs₀
    · exact hasked _ (h.asked _ hs₀)

/-- A holder says or hears a message: what counts after it. -/
theorem Phase.Counts.said {b : Bool} {s' : ChanState} (hp : p.Counts b s) (hturn : p.turn = b)
    {m : Message} (hsent : s'.sent b = s.sent b ++ [m]) (hgot : s'.got b = s.got b) :
    p.next.Counts b s' := by
  subst hturn
  refine ⟨?_, ?_⟩
  · rw [hsent, List.length_append, hp.1, Phase.said_next]
    rfl
  · rw [hgot, hp.2, Phase.said_next_other]

theorem Phase.Counts.heard {b : Bool} {s' : ChanState} (hp : p.Counts b s) (hturn : p.turn = !b)
    {m : Message} (hgot : s'.got b = s.got b ++ [m]) (hsent : s'.sent b = s.sent b) :
    p.next.Counts b s' := by
  have hb : b = !p.turn := by rw [hturn, Bool.not_not]
  subst hb
  refine ⟨?_, ?_⟩
  · rw [hsent, hp.1, Phase.said_next_other]
  · rw [hgot, List.length_append, hp.2, Bool.not_not, Phase.said_next]
    rfl

theorem Sound.send (h : Sound L) (hx : L.hold x = some (c, p)) (hturn : p.turn = x.isProvider)
    (now : Instant) {m : Message} (hm : frames.Reads m) :
    Sound ⟨L.chans.modify c (·.send x.isProvider now m (.ok (), m.encode.length)), L.backlog,
      update L.hold x (some (c, p.next))⟩ := by
  obtain ⟨s, hs, hcounts⟩ := h.counts hx
  obtain ⟨hsent, hgot, hqueue⟩ :=
    @ChanState.send_other s x.isProvider now m (.ok (), m.encode.length)
  refine h.touch hx hs (fun e he => ?_) hsent (hgot _) (fun _ hlen => ChanState.send_asked hlen)
    (fun _ tail ht => ?_) fun hf => ?_
  · cases he
    exact ⟨rfl, hcounts.said hturn ChanState.send_sent (hgot _)⟩
  · rw [hsent, hgot, hqueue]
    exact ht
  · refine ⟨[], ?_, fun _ => rfl⟩
    rw [ChanState.send_sent, hgot, ChanState.send_queue, List.take_length]
    exact hf.send hm

theorem Sound.cut (h : Sound L) (hx : L.hold x = some (c, p)) (now : Instant) {m : Message}
    (e : IoError) {n : Nat} (hm : takeFrame (m.encode.take n) = none) :
    Sound ⟨L.chans.modify c (·.send x.isProvider now m (.error e, n)), L.backlog,
      update L.hold x none⟩ := by
  obtain ⟨s, hs, hcounts⟩ := h.counts hx
  obtain ⟨hsent, hgot, hqueue⟩ := @ChanState.send_other s x.isProvider now m (.error e, n)
  refine h.touch hx hs (fun e he => by cases he) hsent (hgot _)
    (fun _ hlen => ChanState.send_asked hlen) (fun hnone => (hnone rfl).elim) fun hf => ?_
  refine ⟨m.encode.take n, ?_, fun hnone => (hnone rfl).elim⟩
  rw [ChanState.cut_sent, hgot, ChanState.send_queue]
  exact hf.cut hm

theorem Sound.receive (h : Sound L) (hx : L.hold x = some (c, p)) (hturn : p.turn = !x.isProvider)
    (hs : L.chans[c]? = some s) {m : Message} {n : Nat}
    (hm : takeFrame (s.queue x.isProvider) = some (m, n)) :
    Sound ⟨L.chans.modify c (·.receive x.isProvider (.ok m, n)), L.backlog,
      update L.hold x (some (c, p.next))⟩ := by
  obtain ⟨s', hs', hcounts⟩ := h.counts hx
  cases hs.symm.trans hs'
  obtain ⟨hsent, hgot, hqueue, hasked⟩ := ChanState.receive_other (s := s) (b := x.isProvider)
    (a := (.ok m, n))
  refine h.touch hx hs (fun e he => ?_) (hsent _) hgot (fun s₀ h₀ => ?_) (fun _ tail ht => ?_)
    fun hf => ?_
  · cases he
    exact ⟨rfl, hcounts.heard hturn ChanState.receive_got (hsent _)⟩
  · exact ((ChanState.receive_other (s := s₀)).2.2.2 ▸ h₀.trans
      (congrArg List.length ((ChanState.receive_other (s := s₀)).1 false)).symm)
  · rw [hsent, ChanState.receive_got, ChanState.receive_queue]
    exact (ht.receive hm).2
  · exact ⟨[], by rw [hsent, hgot, hqueue]; exact hf, fun _ => rfl⟩

theorem Sound.lost (h : Sound L) (hx : L.hold x = some (c, p)) (e : IoError) (n : Nat) :
    Sound ⟨L.chans.modify c (·.receive x.isProvider (.error e, n)), L.backlog,
      update L.hold x none⟩ := by
  obtain ⟨s, hs, hcounts⟩ := h.counts hx
  obtain ⟨hsent, hgot, hqueue, hasked⟩ := ChanState.receive_other (s := s) (b := x.isProvider)
    (a := (.error e, n))
  refine h.touch hx hs (fun e he => by cases he) (hsent _) hgot (fun s₀ h₀ => ?_)
    (fun hnone => (hnone rfl).elim) fun hf => ?_
  · exact ((ChanState.receive_other (s := s₀)).2.2.2 ▸ h₀.trans
      (congrArg List.length ((ChanState.receive_other (s := s₀)).1 false)).symm)
  · exact ⟨[], by rw [hsent, hgot, hqueue]; exact hf, fun _ => rfl⟩

/-- Connections change hands: on each side every connection is held by whom holds one now. -/
theorem Sound.rehold (h : Sound L) {hold' : Place → Option (Chan × Phase)}
    (hhold : ∀ {y e}, hold' y = some e → ∃ z, L.hold z = some e ∧ z.isProvider = y.isProvider)
    (hapart : ∀ {y z c q r}, hold' y = some (c, q) → hold' z = some (c, r) →
      y.isProvider = z.isProvider → y = z) : Sound ⟨L.chans, L.backlog, hold'⟩ := by
  have hon {b : Bool} {c : Chan} (hOn : Lines.On ⟨L.chans, L.backlog, hold'⟩ b c) : L.On b c := by
    refine hOn.of_hold (fun hc => hc) fun y q hy => ?_
    obtain ⟨z, hz, hside⟩ := hhold hy
    exact ⟨z, q, hside, hz⟩
  refine ⟨fun {y c q} hy => ?_, hapart, h.nodup, h.waiting, fun c hc y q hside hy => ?_,
    fun {c s b} hs hOn => ?_, h.asked⟩
  · obtain ⟨z, hz, hside⟩ := hhold hy
    obtain ⟨s, hs, hcounts⟩ := h.counts hz
    exact ⟨s, hs, hside ▸ hcounts⟩
  · obtain ⟨z, hz, hzy⟩ := hhold hy
    exact h.unheld c hc z q (hzy.trans hside) hz
  · obtain ⟨tail, hflight, htail⟩ := h.stream hs (hon hOn)
    exact ⟨tail, hflight, fun h' => htail (hon h')⟩

theorem Sound.forget (h : Sound L) (x : Place) :
    Sound ⟨L.chans, L.backlog, update L.hold x none⟩ := by
  have hkept {y : Place} {e : Chan × Phase} (hy : update L.hold x none y = some e) :
      L.hold y = some e := by
    rcases held_update hy with ⟨_, hnone⟩ | ⟨_, hkept⟩
    · cases hnone
    · exact hkept
  exact h.rehold (fun hy => ⟨_, hkept hy, rfl⟩) fun hy hz => h.apart (hkept hy) (hkept hz)

theorem Sound.hand (h : Sound L) (x y : Place) (hside : x.isProvider = y.isProvider) :
    Sound ⟨L.chans, L.backlog, update (update L.hold x none) y (L.hold x)⟩ := by
  -- who holds something now held it before, or it is `y`, and it was `x` who did
  have hfrom {z : Place} {e : Chan × Phase}
      (hz : update (update L.hold x none) y (L.hold x) z = some e) :
      (z = y ∧ L.hold x = some e) ∨ (z ≠ y ∧ z ≠ x ∧ L.hold z = some e) := by
    rcases held_update hz with ⟨hzy, hx⟩ | ⟨hzy, hz⟩
    · exact Or.inl ⟨hzy, hx⟩
    · rcases held_update hz with ⟨_, hnone⟩ | ⟨hzx, hz⟩
      · cases hnone
      · exact Or.inr ⟨hzy, hzx, hz⟩
  refine h.rehold (fun hz => ?_) fun {z u c q r} hz hu hzu => ?_
  · rcases hfrom hz with ⟨rfl, hx⟩ | ⟨_, _, hz⟩
    · exact ⟨x, hx, hside⟩
    · exact ⟨_, hz, rfl⟩
  · rcases hfrom hz with ⟨rfl, hx⟩ | ⟨_, hzx, hz'⟩
    · rcases hfrom hu with ⟨rfl, _⟩ | ⟨_, hux, hu'⟩
      · rfl
      · exact (hux (h.apart hu' hx (hzu.symm.trans hside.symm))).elim
    · rcases hfrom hu with ⟨rfl, hx⟩ | ⟨_, _, hu'⟩
      · exact (hzx (h.apart hz' hx (hzu.trans hside.symm))).elim
      · exact h.apart hz' hu' hzu

theorem Sound.accept (h : Sound L) (hx : x.isProvider = true) (hc : c ∈ L.backlog) :
    Sound ⟨L.chans, L.backlog.erase c, update L.hold x (some (c, .fresh))⟩ := by
  obtain ⟨s, hs, hempty⟩ := h.waiting c hc
  have hfrom {z : Place} {e : Chan × Phase} (hz : update L.hold x (some (c, .fresh)) z = some e) :
      (z = x ∧ (c, .fresh) = e) ∨ (z ≠ x ∧ L.hold z = some e) := by
    rcases held_update hz with ⟨hzx, he⟩ | hkept
    · exact Or.inl ⟨hzx, Option.some.inj he⟩
    · exact Or.inr hkept
  have hon {b : Bool} {c' : Chan}
      (hOn : Lines.On ⟨L.chans, L.backlog.erase c, update L.hold x (some (c, .fresh))⟩ b c') :
      L.On b c' := by
    rcases hOn with ⟨hb, hc'⟩ | ⟨y, q, hy, hq⟩
    · exact Or.inl ⟨hb, List.mem_of_mem_erase hc'⟩
    · rcases hfrom hq with ⟨rfl, he⟩ | ⟨_, hq⟩
      · cases he
        exact Or.inl ⟨hy.symm.trans hx, hc⟩
      · exact Or.inr ⟨y, q, hy, hq⟩
  refine ⟨fun {y c' q} hy => ?_, fun {y z c' q r} hy hz hside => ?_, h.nodup.erase c,
    fun c' hc' => h.waiting c' (List.mem_of_mem_erase hc'), fun c' hc' y q hside hy => ?_,
    fun {c' s' b} hs' hOn => ?_, h.asked⟩
  · rcases hfrom hy with ⟨rfl, he⟩ | ⟨_, hy⟩
    · cases he
      refine ⟨s, hs, ?_⟩
      rw [hx]
      exact ⟨congrArg List.length hempty.1, congrArg List.length hempty.2⟩
    · exact h.counts hy
  · rcases hfrom hy with ⟨rfl, he⟩ | ⟨_, hy'⟩
    · cases he
      rcases hfrom hz with ⟨rfl, _⟩ | ⟨_, hz'⟩
      · rfl
      · exact (h.unheld _ hc z r (hside.symm.trans hx) hz').elim
    · rcases hfrom hz with ⟨rfl, he⟩ | ⟨_, hz'⟩
      · cases he
        exact (h.unheld _ hc y q (hside.trans hx) hy').elim
      · exact h.apart hy' hz' hside
  · rcases hfrom hy with ⟨_, he⟩ | ⟨_, hy⟩
    · cases he
      exact h.nodup.not_mem_erase hc'
    · exact h.unheld c' (List.mem_of_mem_erase hc') y q hside hy
  · obtain ⟨tail, hflight, htail⟩ := h.stream hs' (hon hOn)
    exact ⟨tail, hflight, fun h' => htail (hon h')⟩

theorem Sound.held_lt (h : Sound L) (hx : L.hold x = some (c, p)) : c < L.chans.length := by
  obtain ⟨s, hs, _⟩ := h.counts hx
  exact (List.getElem?_eq_some_iff.mp hs).1

theorem Sound.connect (h : Sound L) (hx : x.isProvider = false) (owner : Nat) :
    Sound ⟨L.chans ++ [{ owner := owner }], L.chans.length :: L.backlog,
      update L.hold x (some (L.chans.length, .fresh))⟩ := by
  have hold {c : Chan} {s : ChanState} (hs : L.chans[c]? = some s) :
      (L.chans ++ [({ owner := owner } : ChanState)])[c]? = some s := by
    rw [List.getElem?_append_left (List.getElem?_eq_some_iff.mp hs).1]
    exact hs
  have hnew : (L.chans ++ [({ owner := owner } : ChanState)])[L.chans.length]? =
      some { owner := owner } := by
    rw [List.getElem?_append_right (Nat.le_refl _), Nat.sub_self]
    rfl
  have hbound : ∀ c ∈ L.backlog, c < L.chans.length := by
    intro c hc
    obtain ⟨s, hs, _⟩ := h.waiting c hc
    exact (List.getElem?_eq_some_iff.mp hs).1
  have hfrom {z : Place} {e : Chan × Phase}
      (hz : update L.hold x (some (L.chans.length, .fresh)) z = some e) :
      (z = x ∧ (L.chans.length, .fresh) = e) ∨ (z ≠ x ∧ L.hold z = some e) := by
    rcases held_update hz with ⟨hzx, he⟩ | hkept
    · exact Or.inl ⟨hzx, Option.some.inj he⟩
    · exact Or.inr hkept
  refine ⟨fun {y c q} hy => ?_, fun {y z c q r} hy hz hside => ?_, ?_, fun c hc => ?_,
    fun c hc y q hside hy => ?_, fun {c s b} hs hOn => ?_, fun s hs => ?_⟩
  · rcases hfrom hy with ⟨rfl, he⟩ | ⟨_, hy⟩
    · cases he
      refine ⟨_, hnew, ?_⟩
      rw [hx]
      exact ⟨rfl, rfl⟩
    · obtain ⟨s, hs, hcounts⟩ := h.counts hy
      exact ⟨s, hold hs, hcounts⟩
  · rcases hfrom hy with ⟨rfl, he⟩ | ⟨_, hy'⟩
    · cases he
      rcases hfrom hz with ⟨rfl, _⟩ | ⟨_, hz'⟩
      · rfl
      · exact absurd (h.held_lt hz') (Nat.lt_irrefl _)
    · rcases hfrom hz with ⟨rfl, he⟩ | ⟨_, hz'⟩
      · cases he
        exact absurd (h.held_lt hy') (Nat.lt_irrefl _)
      · exact h.apart hy' hz' hside
  · exact List.nodup_cons.mpr ⟨fun hc => Nat.lt_irrefl _ (hbound _ hc), h.nodup⟩
  · rcases List.mem_cons.mp hc with rfl | hc
    · exact ⟨_, hnew, rfl, rfl⟩
    · obtain ⟨s, hs, hempty⟩ := h.waiting c hc
      exact ⟨s, hold hs, hempty⟩
  · rcases hfrom hy with ⟨rfl, _⟩ | ⟨_, hy⟩
    · exact Bool.false_ne_true (hx.symm.trans hside)
    · rcases List.mem_cons.mp hc with rfl | hc
      · exact Nat.lt_irrefl _ (h.held_lt hy)
      · exact h.unheld c hc y q hside hy
  · by_cases hc : c = L.chans.length
    · subst hc
      cases hnew.symm.trans hs
      refine ⟨[], ?_, fun _ => rfl⟩
      have hnil : frames.InFlight [] [] [] [] := Framing.inFlight_nil rfl
      cases b <;> exact hnil
    · have hlt : c < L.chans.length := by
        have := (List.getElem?_eq_some_iff.mp hs).1
        rw [List.length_append, List.length_singleton] at this
        exact Nat.lt_of_le_of_ne (Nat.lt_succ_iff.mp this) hc
      rw [List.getElem?_append_left hlt] at hs
      have hon {b : Bool} (h' : Lines.On ⟨L.chans ++ [{ owner := owner }],
          L.chans.length :: L.backlog, update L.hold x (some (L.chans.length, .fresh))⟩ b c) :
          L.On b c := by
        rcases h' with ⟨hb, hc'⟩ | ⟨y, q, hy, hq⟩
        · exact Or.inl ⟨hb, (List.mem_cons.mp hc').resolve_left hc⟩
        · rcases hfrom hq with ⟨_, he⟩ | ⟨_, hq⟩
          · cases he
            exact (hc rfl).elim
          · exact Or.inr ⟨y, q, hy, hq⟩
      obtain ⟨tail, hflight, htail⟩ := h.stream hs (hon hOn)
      exact ⟨tail, hflight, fun h' => htail (hon h')⟩
  · rcases List.mem_append.mp hs with hs | hs
    · exact h.asked s hs
    · rw [List.mem_singleton.mp hs]
      rfl

/-- **The conversations stay in order.** -/
theorem Sound.step {L' : Lines} (h : Sound L) (hstep : LineStep L L') : Sound L' := by
  cases hstep with
  | connect x owner hx => exact h.connect hx owner
  | accept x hx hc => exact h.accept hx hc
  | send x now m hx hturn hm => exact h.send hx hturn now hm
  | cut x now m e n hx hm => exact h.cut hx now e hm
  | receive x m n hx hturn hs hm => exact h.receive hx hturn hs hm
  | lost x e n hx => exact h.lost hx e n
  | forget x => exact h.forget x
  | hand x y hside => exact h.hand x y hside

/-- What a side has got is the beginning of what the other has sent. -/
def Lines.Ordered (L : Lines) : Prop := ∀ s ∈ L.chans, ∀ b, s.got b <+: s.sent !b

/-- **Messages are got in order**, also by a side that has given its connection up since. -/
theorem Sound.ordered {L' : Lines} (h : Sound L) (hstep : LineStep L L') (ho : L.Ordered) :
    L'.Ordered := by
  cases hstep with
  | connect x owner hx =>
      intro s hs b
      rcases List.mem_append.mp hs with hs | hs
      · exact ho s hs b
      · rw [List.mem_singleton.mp hs]
        cases b <;> exact List.prefix_refl _
  | accept | forget | hand => exact ho
  | send x now m hx hturn hm | cut x now m e n hx hm =>
      intro s hs b
      obtain ⟨s₀, hs₀, rfl | rfl⟩ := mem_modify hs
      · exact ho s hs₀ b
      · rw [ChanState.send_other.2.1]
        exact (ho s₀ hs₀ b).trans ((ChanState.send_grown _).sent _)
  | receive x m n hx hturn hs hm =>
      intro s' hs' b
      obtain ⟨c', hc'⟩ := List.mem_iff_getElem?.mp hs'
      obtain ⟨s₀, hs₀, rfl⟩ := getElem?_modified hc'
      have hold := ho s₀ (List.mem_of_getElem? hs₀)
      split
      · next hc =>
        subst hc
        cases hs.symm.trans hs₀
        rw [ChanState.receive_other.1]
        by_cases hb : b = x.isProvider
        · subst hb
          obtain ⟨tail, hflight, _⟩ := h.stream hs (.held hx rfl)
          rw [ChanState.receive_got]
          exact (hflight.receive hm).2.isPrefix
        · have hb : b = !x.isProvider := Bool.eq_not_of_ne hb
          rw [hb, ChanState.receive_other.2.1]
          exact hold _
      · exact hold b
  | lost x e n hx =>
      intro s hs b
      obtain ⟨s₀, hs₀, rfl | rfl⟩ := mem_modify hs
      · exact ho s hs₀ b
      · have hgot : (s₀.receive x.isProvider (.error e, n)).got b = s₀.got b := by
          by_cases hb : b = x.isProvider
          · rw [hb, ChanState.lost_got]
          · have hb : b = !x.isProvider := Bool.eq_not_of_ne hb
            rw [hb, ChanState.receive_other.2.1]
        rw [hgot, ChanState.receive_other.1]
        exact ho s₀ hs₀ b

end Steps

end Rdmalib
