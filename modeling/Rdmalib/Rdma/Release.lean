/-
  File:      Rdmalib/Rdma/Release.lean
  Subject:   What becomes of the C resources when `Connection::connect`, `Listener::bind`,
             `Listener::accept` or `Listener::accept_into` fails.

  * `Books` -- the resources created by a call or handed to it by a connect request, those it
    destroyed, the queue pairs and the handles of domains; `bookkeeping` -- what a C call enters;
  * `Built` -- a connection under construction holds what the call has acquired;
    `drop_left` -- its drop destroys that, queue pairs first;
  * result: a call that fails has destroyed exactly what it acquired iff it did not leave an event
    channel or a connect request behind (`release_iff`).
-/
import Rdmalib.Base.Ledger
import Rdmalib.Rdma.Cm

namespace Rdmalib

open Base

/-! ## 1. Resources and books -/

/-- A C resource: a queue pair is named by its id. -/
inductive Resource where
  | channel (n : Nat)
  | id (n : Nat)
  | cq (n : Nat)
  | qp (id : Nat)
  | pd (n : Nat)
  deriving DecidableEq, Repr

/-- The state of the resources during a call. -/
structure Books where
  ledger : Ledger Resource
  /-- The queue pairs created: the id, the protection domain, the completion queue. -/
  pairs : List (Nat × Nat × Nat)
  /-- How many handles of each protection domain there are. -/
  handles : Nat → Nat
  /-- The events taken, and what acknowledging them returned. -/
  events : List CmEvent
  acks : List Int
  /-- An `rdma_create_id` failed. -/
  unmade : Prop
  /-- An id's `qp` was null exactly where it had no queue pair. -/
  truthful : Prop

namespace Books

/-- Before a call. -/
def opening (handles : Nat → Nat) : Books :=
  { ledger := .empty, pairs := [], handles, events := [], acks := [], unmade := False,
    truthful := True }

def acquire (k : Books) (xs : List Resource) : Books := { k with ledger := k.ledger.acquire xs }

def release (k : Books) (xs : List Resource) : Books := { k with ledger := k.ledger.release xs }

/-- What goes with a handle: the domain, with its last one. -/
def last (k : Books) (pd : Nat) : List Resource := if k.handles pd = 1 then [.pd pd] else []

def setHandles (k : Books) (pd n : Nat) : Books :=
  { k with handles := Function.update k.handles pd n }

/-- The id has a queue pair. -/
def HasQp (k : Books) (id : Nat) : Prop :=
  id ∈ k.pairs.map (·.1) ∧ .qp id ∉ k.ledger.released

/-- The child that a connect request hands over. -/
def took (k : Books) (event : CmEvent) : Books :=
  { k.acquire (event.child.toList.map .id) with events := k.events ++ [event] }

/-- What an answered operation enters. -/
def next (k : Books) : (o : Op) → o.Ans → Books
  | .verb .createEventChannel, some n => k.acquire [.channel n]
  | .verb (.destroyEventChannel n), _ => k.release [.channel n]
  | .verb (.createId _), .ok n => k.acquire [.id n]
  | .verb (.createId _), .error _ => { k with unmade := True }
  | .verb (.destroyId n), _ => k.release [.id n]
  | .verb (.getCmEvent _), .ok event => k.took event
  | .verb .ackCmEvent, ret => { k with acks := k.acks ++ [ret] }
  | .verb (.allocPd _), some n => (k.acquire [.pd n]).setHandles n 1
  | .verb (.clonePd n), _ => k.setHandles n (k.handles n + 1)
  | .verb (.dropPd n), _ => (k.release (k.last n)).setHandles n (k.handles n - 1)
  | .verb (.createCq _), some n => k.acquire [.cq n]
  | .verb (.destroyCq n), _ => k.release [.cq n]
  | .verb (.createQp id pd cq), ret =>
      if ret = 0 then { k.acquire [.qp id] with pairs := k.pairs ++ [(id, pd, cq)] } else k
  | .verb (.destroyQp id), _ => k.release [.qp id]
  | .verb (.qpOf id), has => { k with truthful := k.truthful ∧ (has = true ↔ k.HasQp id) }
  | _, _ => k

end Books

/-- Any call may be made; what is known are the books. -/
def bookkeeping : Protocol Op Op.Ans Books where
  may _ _ := True
  next := Books.next

/-! ## 2. The calls, and what they owe -/

inductive CmCall where
  | connect
  | bind
  | accept (channel : Nat)
  | acceptInto (channel : Nat) (pd : ProtectionDomain)

namespace CmCall

def Result : CmCall → Type
  | .bind => Listener
  | _ => Connection

def run : (c : CmCall) → Sys c.Result
  | .connect => Connection.connect
  | .bind => Listener.bind
  | .accept channel => Listener.acceptImpl channel none
  | .acceptInto channel pd => Listener.acceptImpl channel (some pd)

/-- The resources in reach of a call that others own: the listener's channel, the shared domain. -/
def Others : CmCall → Resource → Prop
  | .accept channel, x => x = .channel channel
  | .acceptInto channel pd, x => x = .channel channel ∨ x = .pd pd.pd
  | _, _ => False

/-- A shared domain is borrowed from someone who has a handle of it. -/
def Borrows : CmCall → (Nat → Nat) → Prop
  | .acceptInto _ pd, handles => 1 ≤ handles pd.pd
  | _, _ => True

/-- A connect request is left behind: it is the first event, and has an error status or is not
    acknowledged, or it comes where the establishment is awaited. -/
def StrayRequest (events : List CmEvent) (acks : List Int) : Prop :=
  (∃ event ∈ events.head?, event.event = .connectRequest ∧ (event.status ≠ 0 ∨ acks.head? ≠ some 0)) ∨
    ∃ event ∈ events.tail, event.event = .connectRequest

/-- **What the call leaves behind, by the events and return codes**: `bind` the channel for which no
    id can be created, the others the children of requests that are not theirs. -/
def Leaks : CmCall → Books → Prop
  | .bind, k => k.unmade
  | .connect, k => ∃ event ∈ k.events, event.event = .connectRequest
  | .accept _, k | .acceptInto _ _, k => StrayRequest k.events k.acks

end CmCall

/-- Queue pairs go before their completion queue and their domain. -/
def Books.Ordered (k : Books) : Prop :=
  ∀ p ∈ k.pairs, k.ledger.InOrder (.qp p.1) (.cq p.2.2) ∧
    (.pd p.2.1 ∈ k.ledger.released → k.ledger.InOrder (.qp p.1) (.pd p.2.1))

/-- **What a call that failed owes**: everything that it acquired is destroyed, exactly once and in
    order, and nothing that others own. -/
structure Released (c : CmCall) (k : Books) : Prop where
  settled : k.ledger.Settled
  ordered : k.Ordered
  spared : ∀ x ∈ k.ledger.released, ¬ c.Others x

/-! ## 3. Steps -/

section Steps

variable {k k' : Books} {α β : Type}

theorem follows_book {v : Verb} {Q : Books → v.Ans → Prop} :
    Follows bookkeeping k (verb v) Q ↔ ∀ a, Q (k.next (.verb v) a) a :=
  ⟨fun h => h.2, fun h => ⟨trivial, h⟩⟩

/-- A C call that enters nothing, and whose result is checked. -/
theorem tries_quiet {v : Verb} {f : v.Ans → Except Fault β} {Q : Books → β → Prop}
    {E : Books → Fault → Prop} (hv : ∀ a, k.next (.verb v) a = k) (hQ : ∀ b, Q k b)
    (hE : ∀ e, E k e) : Tries bookkeeping k (do f (← verb v) : Sys β) Q E := by
  rw [tries_bind, tries_lift, follows_book]
  intro a
  rw [hv, tries_except]
  cases f a with
  | ok b => exact hQ b
  | error e => exact hE e

/-- Such a call, and what comes after it. -/
theorem tries_quiet_then {v : Verb} {f : v.Ans → Except Fault β} {g : β → Sys α}
    {Q : Books → α → Prop} {E : Books → Fault → Prop} (hv : ∀ a, k.next (.verb v) a = k)
    (hg : ∀ b, Tries bookkeeping k (g b) Q E) (hE : ∀ e, E k e) :
    Tries bookkeeping k (do let b ← f (← verb v); g b : Sys α) Q E := by
  rw [tries_bind, tries_lift, follows_book]
  intro a
  rw [hv, tries_bind, tries_except]
  cases f a with
  | ok b => exact hg b
  | error e => exact hE e

/-- `k'` after resources were destroyed, one after the other. -/
structure Dropped (k : Books) (xs : List Resource) (k' : Books) : Prop where
  ledger : k'.truthful → k'.ledger = k.ledger.release xs
  pairs : k'.pairs = k.pairs
  events : k'.events = k.events
  acks : k'.acks = k.acks
  truthful : k'.truthful → k.truthful

/-- The same, and no handle of a domain has gone. -/
structure Freed (k : Books) (xs : List Resource) (k' : Books) : Prop extends Dropped k xs k' where
  handles : k'.handles = k.handles

theorem Freed.nothing : Freed k [] k :=
  ⟨⟨fun _ => Ledger.release_nil.symm, rfl, rfl, rfl, id⟩, rfl⟩

theorem freed_release (xs : List Resource) : Freed k xs (k.release xs) :=
  ⟨⟨fun _ => rfl, rfl, rfl, rfl, id⟩, rfl⟩

theorem Dropped.after {k₁ : Books} {xs ys : List Resource} (h : Dropped k xs k₁)
    (h' : Dropped k₁ ys k') : Dropped k (xs ++ ys) k' where
  ledger ht := by rw [h'.ledger ht, h.ledger (h'.truthful ht), Ledger.release_release]
  pairs := h'.pairs.trans h.pairs
  events := h'.events.trans h.events
  acks := h'.acks.trans h.acks
  truthful ht := h.truthful (h'.truthful ht)

theorem Freed.after {k₁ : Books} {xs ys : List Resource} (h : Freed k xs k₁) (h' : Freed k₁ ys k') :
    Freed k (xs ++ ys) k' :=
  ⟨h.toDropped.after h'.toDropped, h'.handles.trans h.handles⟩

/-- A handle that may be null, released by a C call. -/
theorem unlessNull_freed {call : Nat → Code Unit} {kind : Nat → Resource} (p : Option Nat)
    (hcall : ∀ n, Follows bookkeeping k (call n) fun k' _ => Freed k [kind n] k') :
    Follows bookkeeping k (unlessNull call p) fun k' _ => Freed k (p.toList.map kind) k' := by
  cases p with
  | none => exact Freed.nothing
  | some n => exact hcall n

end Steps

/-! ## 4. The drop of a connection -/

/-- What the drop of a connection destroys, in order. -/
def Connection.destroys (conn : Connection) (k : Books) : List Resource :=
  (if conn.pd.isSome then conn.id.toList.map .qp else []) ++ conn.id.toList.map .id ++
    conn.cq.toList.map .cq ++ conn.eventChannel.toList.map .channel ++
    conn.pd.toList.flatMap fun pd => k.last pd.pd

/-- The queue pair of a connection under construction, if it has one: then nothing was destroyed
    yet, and the connection has its domain. -/
inductive PairOf (k : Books) (conn : Connection) : Prop where
  | without (hpd : conn.pd = none) (hpairs : k.pairs = [])
  | withQp (id cq : Nat) (pd : ProtectionDomain) (hid : conn.id = some id) (hcq : conn.cq = some cq)
      (hpd : conn.pd = some pd) (hpairs : k.pairs = [(id, pd.pd, cq)])
      (hreleased : k.ledger.released = [])

/-- **The connection holds what the call has acquired**, but `rest`; and what was and will be
    destroyed is not of others. -/
structure Built (c : CmCall) (k : Books) (conn : Connection) (rest : List Resource) : Prop where
  held : k.ledger.Holds (conn.destroys k ++ rest)
  paired : PairOf k conn
  spared : ∀ x ∈ k.ledger.released ++ conn.destroys k, ¬ c.Others x

/-- **What a call has left** when its connection is gone. -/
structure Leaves (c : CmCall) (k : Books) (rest : List Resource) : Prop where
  held : k.ledger.Holds rest
  ordered : k.Ordered
  spared : ∀ x ∈ k.ledger.released, ¬ c.Others x

section Drop

variable {c : CmCall} {k : Books} {conn : Connection} {rest : List Resource}

theorem PairOf.hasQp_iff (h : PairOf k conn) {id : Nat} (hid : conn.id = some id) :
    k.HasQp id ↔ conn.pd.isSome = true := by
  unfold Books.HasQp
  cases h with
  | without hpd hpairs => simp [hpd, hpairs]
  | withQp id' cq pd hid' hcq hpd hpairs hreleased =>
      have : id' = id := Option.some.inj (hid'.symm.trans hid)
      simp [hpd, hpairs, hreleased, this]

theorem dropId_freed (id : Option Nat) {paired : Bool}
    (hqp : ∀ n, id = some n → (k.HasQp n ↔ paired = true)) :
    Follows bookkeeping k (Connection.dropId id) fun k' _ =>
      Freed k ((if paired then id.toList.map .qp else []) ++ id.toList.map .id) k' := by
  cases id with
  | none => cases paired <;> exact Freed.nothing
  | some n =>
      unfold Connection.dropId
      rw [follows_bind, follows_book]
      intro has
      -- a field that tells the truth says whether there is a queue pair
      have htruth (h : (k.next (.verb (.qpOf n)) has).truthful) : has = paired :=
        Bool.eq_iff_iff.mpr (h.2.trans (hqp n rfl))
      cases has with
      | false =>
          refine follows_book.mpr fun _ => ⟨⟨fun h => ?_, rfl, rfl, rfl, fun h => h.1⟩, rfl⟩
          rw [← htruth h]
          rfl
      | true =>
          refine follows_bind.mpr (follows_book.mpr fun _ => ?_)
          refine follows_bind.mpr (follows_book.mpr fun _ => ?_)
          refine follows_book.mpr fun _ => ⟨⟨fun h => ?_, rfl, rfl, rfl, fun h => h.1⟩, rfl⟩
          rw [← htruth h]
          exact Ledger.release_release

/-- **The drop**: it destroys what the connection holds. -/
theorem drop_dropped (h : PairOf k conn) :
    Follows bookkeeping k conn.drop fun k' _ => Dropped k (conn.destroys k) k' := by
  unfold Connection.drop
  rw [follows_bind]
  refine (dropId_freed conn.id fun n hn => h.hasQp_iff hn).mono fun k₁ _ h₁ => ?_
  rw [follows_bind]
  refine (unlessNull_freed conn.cq fun n => follows_book.mpr fun _ => freed_release [.cq n]).mono
    fun k₂ _ h₂ => ?_
  rw [follows_bind]
  refine (unlessNull_freed conn.eventChannel fun n =>
    follows_book.mpr fun _ => freed_release [.channel n]).mono fun k₃ _ h₃ => ?_
  have hbefore := (h₁.after h₂).after h₃
  unfold Connection.destroys
  refine Follows.mono ?_ fun k₄ _ h₄ => hbefore.toDropped.after h₄
  cases conn.pd with
  | none => exact Freed.nothing.toDropped
  | some pd =>
      refine follows_book.mpr fun _ => ⟨fun _ => ?_, rfl, rfl, rfl, id⟩
      show k₃.ledger.release (k₃.last pd.pd) = _
      unfold Books.last
      rw [hbefore.handles]
      simp

/-- In the order of a drop a queue pair goes first. -/
theorem destroys_ordered (h : PairOf k conn) {k' : Books} (hpairs : k'.pairs = k.pairs)
    (hledger : k'.ledger = k.ledger.release (conn.destroys k)) : k'.Ordered := by
  intro p hp
  rw [hpairs] at hp
  cases h with
  | without hpd hpairs => rw [hpairs] at hp; cases hp
  | withQp id cq pd hid hcq hpd hpairs hreleased =>
      rw [hpairs, List.mem_singleton] at hp
      subst hp
      have hlist : k'.ledger.released = [.qp id, .id id, .cq cq] ++
          (conn.eventChannel.toList.map .channel ++ k.last pd.pd) := by
        rw [hledger]
        show k.ledger.released ++ conn.destroys k = _
        unfold Connection.destroys
        rw [hreleased, hid, hcq, hpd]
        simp
      unfold Ledger.InOrder
      rw [hlist]
      refine ⟨?_, fun hmem => ?_⟩
      · exact .cons_cons _ (.cons _ (.cons_cons _ (List.nil_sublist _)))
      · refine .cons_cons _ (List.singleton_sublist.mpr ?_)
        simpa using hmem

/-- **A connection under construction, dropped**, leaves what it did not hold. -/
theorem drop_left (h : Built c k conn rest) :
    Follows bookkeeping k conn.drop fun k' _ =>
      (k'.truthful → Leaves c k' rest) ∧ k'.events = k.events ∧ k'.acks = k.acks := by
  refine (drop_dropped h.paired).mono fun k' _ hd => ⟨fun ht => ?_, hd.events, hd.acks⟩
  have hledger := hd.ledger ht
  refine ⟨?_, destroys_ordered h.paired hd.pairs hledger, ?_⟩
  · rw [hledger]
    exact h.held.release
  · rw [hledger]
    exact h.spared

end Drop

/-! ## 5. Building a connection -/

/-- An event was taken and acknowledged. -/
def Books.awaited (k : Books) (event : CmEvent) (ret : Int) : Books :=
  { k.took event with acks := k.acks ++ [ret] }

theorem child_eq_none {event : CmEvent} : event.child = none ↔ event.event ≠ .connectRequest := by
  unfold CmEvent.child
  split <;> simp_all

section Building

variable {c : CmCall} {k : Books} {conn : Connection} {rest : List Resource} {id : Nat}
variable {pd : ProtectionDomain}

theorem waitEvent_books {channel : Nat} {expected : CmEventType} {step : String}
    {Q : Books → Unit → Prop} {E : Books → Fault → Prop} (hexpected : expected ≠ .connectRequest)
    (hQ : ∀ event, event.event ≠ .connectRequest → Q (k.awaited event 0) ())
    (hnone : ∀ e, E k e) (hE : ∀ event ret e, E (k.awaited event ret) e) :
    Tries bookkeeping k (waitEvent channel expected step) Q E := by
  unfold waitEvent
  rw [tries_bind, tries_lift, follows_book]
  intro got
  rw [tries_bind, tries_except]
  cases got with
  | error ret => exact hnone _
  | ok event =>
      show Tries bookkeeping (k.took event) _ _ _
      rw [tries_bind, tries_lift, follows_book]
      intro ack
      by_cases hbad : event.event ≠ expected ∨ event.status ≠ 0
      · simp only [hbad, if_true]
        exact hE event ack _
      · simp only [hbad, if_false]
        rw [tries_except]
        refine check_ends (fun hack => ?_) fun _ e => hE event ack e
        subst hack
        refine hQ event fun hreq => hexpected ?_
        rw [← hreq]
        exact (not_not.mp fun h => hbad (Or.inl h)).symm

/-- What is acquired is held, by the connection or beside it. -/
theorem Built.grow {k' : Books} {conn' : Connection} {rest' xs : List Resource}
    (h : Built c k conn rest) (hledger : k'.ledger = k.ledger.acquire xs)
    (hperm : (conn.destroys k ++ rest ++ xs).Perm (conn'.destroys k' ++ rest'))
    (hpaired : PairOf k' conn') (hspared : ∀ x ∈ conn'.destroys k', ¬ c.Others x) :
    Built c k' conn' rest' := by
  refine ⟨?_, hpaired, fun x hx => ?_⟩
  · rw [hledger]
    exact (h.held.acquire xs).perm hperm
  · rw [hledger] at hx
    rcases List.mem_append.mp hx with hx | hx
    · exact h.spared x (List.mem_append_left _ hx)
    · exact hspared x hx

/-- What an event hands over is held beside the connection. -/
theorem Built.awaited (h : Built c k conn rest) (event : CmEvent) (ret : Int) :
    Built c (k.awaited event ret) conn (rest ++ event.child.toList.map .id) := by
  refine h.grow rfl ?_ ?_ fun x hx => h.spared x (List.mem_append_right _ hx)
  · rw [List.append_assoc]
    exact .refl _
  · cases h.paired with
    | without hpd hpairs => exact .without hpd hpairs
    | withQp id cq pd hid hcq hpd hpairs hreleased =>
        exact .withQp id cq pd hid hcq hpd hpairs hreleased

/-- Others own channels and domains only. -/
theorem not_others {x : Resource} (hchannel : ∀ n, x ≠ .channel n) (hpd : ∀ n, x ≠ .pd n) :
    ¬ c.Others x := by
  intro h
  cases c with
  | connect | bind => exact h
  | accept channel => exact hchannel _ h
  | acceptInto channel pd =>
      rcases h with h | h
      · exact hchannel _ h
      · exact hpd _ h

theorem mem_last {n : Nat} {x : Resource} (hx : x ∈ k.last n) : x = .pd n := by
  unfold Books.last at hx
  split at hx
  · exact List.mem_singleton.mp hx
  · cases hx

/-- The handle of the domain that was not kept is dropped. -/
theorem Built.dropHandle (h : Built c k conn (k.last pd.pd)) (hpd : conn.pd = none)
    (hlast : ∀ x ∈ k.last pd.pd, ¬ c.Others x) :
    Built c (k.next (.verb (.dropPd pd.pd)) ()) conn [] := by
  have hdestroys : conn.destroys (k.next (.verb (.dropPd pd.pd)) ()) = conn.destroys k := by
    unfold Connection.destroys
    rw [hpd]
    rfl
  refine ⟨?_, ?_, ?_⟩
  · rw [hdestroys, List.append_nil]
    exact (h.held.perm List.perm_append_comm).release
  · cases h.paired with
    | without hpd hpairs => exact .without hpd hpairs
    | withQp _ _ _ _ _ hpd' => cases hpd.symm.trans hpd'
  · rw [hdestroys]
    intro x hx
    rcases List.mem_append.mp hx with hx | hx
    · rcases List.mem_append.mp hx with hx | hx
      · exact h.spared x (List.mem_append_left _ hx)
      · exact hlast x hx
    · exact h.spared x (List.mem_append_right _ hx)

theorem Built.pairs_nil (h : Built c k conn rest) (hpd : conn.pd = none) : k.pairs = [] := by
  cases h.paired with
  | without _ hpairs => exact hpairs
  | withQp _ _ _ _ _ hpd' => cases hpd.symm.trans hpd'

/-- What the drop of a connection without queue pair destroys. -/
theorem destroys_unpaired (k : Books) {conn : Connection} (hpd : conn.pd = none) :
    conn.destroys k = conn.id.toList.map .id ++ conn.cq.toList.map .cq ++
      conn.eventChannel.toList.map .channel := by
  unfold Connection.destroys
  rw [hpd]
  simp

/-- A completion queue was created. -/
theorem Built.addCq (h : Built c k conn rest) (hpd : conn.pd = none) (hcq : conn.cq = none)
    (cq : Nat) : Built c (k.acquire [.cq cq]) { conn with cq := some cq } rest := by
  have hold := destroys_unpaired k hpd
  have hnew : ({ conn with cq := some cq } : Connection).destroys (k.acquire [.cq cq]) = _ :=
    destroys_unpaired _ hpd
  rw [hcq] at hold
  refine h.grow rfl ?_ (.without hpd (h.pairs_nil hpd)) fun x hx => ?_
  · rw [hold, hnew]
    simp only [Option.toList_none, List.map_nil, List.append_nil, Option.toList_some, List.map_cons,
      List.append_assoc]
    exact .append_left _ ((List.append_assoc _ _ _).symm ▸ List.perm_append_singleton _ _)
  · have hspared (x) (hx : x ∈ conn.destroys k) : ¬ c.Others x :=
      h.spared x (List.mem_append_right _ hx)
    rw [hold] at hspared
    rw [hnew] at hx
    simp only [List.mem_append] at hspared hx
    rcases hx with (hx | hx) | hx
    · exact hspared x (Or.inl (Or.inl hx))
    · obtain ⟨n, _, rfl⟩ := List.mem_map.mp hx
      exact not_others nofun nofun
    · exact hspared x (Or.inr hx)

/-- The queue pair was created, and the connection keeps the handle of its domain. -/
theorem Built.addQp {cq : Nat} (h : Built c k conn (k.last pd.pd)) (hpd : conn.pd = none)
    (hid : conn.id = some id) (hcq : conn.cq = some cq) (hreleased : k.ledger.released = [])
    (hlast : ∀ x ∈ k.last pd.pd, ¬ c.Others x) :
    Built c (k.next (.verb (.createQp id pd.pd cq)) (0 : Int)) { conn with pd := some pd } [] := by
  have hnew : ({ conn with pd := some pd } : Connection).destroys
      (k.next (.verb (.createQp id pd.pd cq)) (0 : Int)) =
        .qp id :: (conn.destroys k ++ k.last pd.pd) := by
    rw [destroys_unpaired k hpd]
    unfold Connection.destroys
    rw [hid]
    simp [Books.next, Books.last, Books.acquire]
  have hledger : (k.next (.verb (.createQp id pd.pd cq)) (0 : Int)).ledger =
      k.ledger.acquire [.qp id] := rfl
  refine h.grow hledger ?_ ?_ fun x hx => ?_
  · rw [hnew, List.append_nil]
    exact List.perm_append_singleton _ _
  · refine .withQp id cq pd hid hcq rfl ?_ hreleased
    show k.pairs ++ [(id, pd.pd, cq)] = _
    rw [h.pairs_nil hpd]
    rfl
  · rw [hnew] at hx
    rcases List.mem_cons.mp hx with rfl | hx
    · exact not_others nofun nofun
    · rcases List.mem_append.mp hx with hx | hx
      · exact h.spared x (List.mem_append_right _ hx)
      · exact hlast x hx

/-- **`create_resources`**: the connection takes over the handle of its domain, or it is dropped. -/
theorem createResources_books (h : Built c k conn (k.last pd.pd)) (hid : conn.id = some id)
    (hcq : conn.cq = none) (hpd : conn.pd = none) (hreleased : k.ledger.released = [])
    (hlast : ∀ x ∈ k.last pd.pd, ¬ c.Others x) :
    Tries bookkeeping k (createResources conn id pd)
      (fun k' made => Built c k' made [] ∧ k'.events = k.events ∧ k'.acks = k.acks)
      fun k' e => Built c k' e.2 [] ∧ k'.events = k.events ∧ k'.acks = k.acks := by
  unfold createResources
  rw [tries_bind, tries_lift, follows_book]
  intro context
  rw [tries_bind, tries_lift, follows_book]
  intro made
  cases made with
  | none =>
      simp only [checkPtr]
      rw [tries_bind, tries_lift, follows_book]
      exact fun _ => ⟨h.dropHandle hpd hlast, rfl, rfl⟩
  | some cq =>
      simp only [checkPtr]
      have h₁ := h.addCq hpd hcq cq
      show Tries bookkeeping (k.acquire [.cq cq]) _ _ _
      rw [tries_bind, tries_lift, follows_book]
      intro ret
      unfold check
      by_cases hret : ret = 0
      · simp only [hret, if_true]
        exact ⟨h₁.addQp hpd hid rfl hreleased hlast, rfl, rfl⟩
      · simp only [hret, if_false]
        rw [show (k.acquire [.cq cq]).next (.verb (.createQp id pd.pd cq)) ret = k.acquire [.cq cq]
          from if_neg hret]
        rw [tries_bind, tries_lift, follows_book]
        exact fun _ => ⟨h₁.dropHandle hpd hlast, rfl, rfl⟩

end Building

/-! ## 6. The calls -/

/-- **A call that failed**: what it left is nothing exactly where it does not leak. -/
def Abandons (c : CmCall) (k : Books) : Prop :=
  k.truthful → ∃ rest, Leaves c k rest ∧ (rest = [] ↔ ¬ c.Leaks k)

section Calls

variable {c : CmCall} {k : Books} {conn : Connection} {rest : List Resource} {id channel : Nat}
variable {handles : Nat → Nat}

/-- Nothing was made yet, or no connection. -/
theorem abandons_unpaired (hheld : k.ledger.Holds rest) (hpairs : k.pairs = [])
    (hspared : ∀ x ∈ k.ledger.released, ¬ c.Others x) (hrest : rest = [] ↔ ¬ c.Leaks k) :
    Abandons c k := by
  refine fun _ => ⟨rest, ⟨hheld, fun p hp => ?_, hspared⟩, hrest⟩
  rw [hpairs] at hp
  cases hp

theorem opening_abandons (hleaks : ¬ c.Leaks (.opening handles)) :
    Abandons c (.opening handles) := by
  refine abandons_unpaired Ledger.holds_empty rfl ?_ ?_
  · exact fun x hx => by cases hx
  · exact iff_of_true rfl hleaks

theorem Built.abandons (h : Built c k conn rest)
    (hrest : ∀ k', k'.events = k.events → k'.acks = k.acks → (rest = [] ↔ ¬ c.Leaks k')) :
    Follows bookkeeping k conn.drop fun k' _ => Abandons c k' :=
  (drop_left h).mono fun k' _ hl ht => ⟨rest, hl.1 ht, hrest k' hl.2.1 hl.2.2⟩

/-- An id was made, or handed over. -/
theorem Built.addId (h : Built c k conn rest) (hpd : conn.pd = none) (hid : conn.id = none) (n : Nat) :
    Built c (k.acquire [.id n]) { conn with id := some n } rest := by
  have hold := destroys_unpaired k hpd
  have hnew : ({ conn with id := some n } : Connection).destroys (k.acquire [.id n]) = _ :=
    destroys_unpaired _ hpd
  rw [hid] at hold
  refine h.grow rfl ?_ (.without hpd (h.pairs_nil hpd)) fun x hx => ?_
  · rw [hold, hnew]
    exact List.perm_append_singleton _ _
  · have hspared (x) (hx : x ∈ conn.destroys k) : ¬ c.Others x :=
      h.spared x (List.mem_append_right _ hx)
    rw [hold] at hspared
    rw [hnew] at hx
    rcases List.mem_cons.mp hx with rfl | hx
    · exact not_others nofun nofun
    · exact hspared x hx

/-- A domain was allocated: its handle is held beside the connection. -/
theorem Built.allocPd (h : Built c k conn []) (hpd : conn.pd = none) (pd : ProtectionDomain) :
    Built c ((k.acquire [.pd pd.pd]).setHandles pd.pd 1) conn
      (((k.acquire [.pd pd.pd]).setHandles pd.pd 1).last pd.pd) := by
  have hlast : ((k.acquire [.pd pd.pd]).setHandles pd.pd 1).last pd.pd = [.pd pd.pd] := by
    simp [Books.last, Books.setHandles]
  have hsame := destroys_unpaired ((k.acquire [.pd pd.pd]).setHandles pd.pd 1) hpd
  rw [← destroys_unpaired k hpd] at hsame
  refine h.grow rfl ?_ (.without hpd (h.pairs_nil hpd)) fun x hx => ?_
  · rw [hlast, hsame, List.append_nil]
  · rw [hsame] at hx
    exact h.spared x (List.mem_append_right _ hx)

/-- Name resolution enters nothing. -/
theorem resolveV4_books {Q : Books → Unit → Prop} {E : Books → Fault → Prop} (hQ : Q k ())
    (hE : ∀ e, E k e) : Tries bookkeeping k resolveV4 Q E := by
  unfold resolveV4
  rw [tries_bind, tries_lift]
  refine ⟨trivial, fun a => ?_⟩
  rcases a with e | _ | ⟨addr, rest⟩
  · exact hE _
  · exact hE _
  · cases addr with
    | v4 => exact hQ
    | v6 => exact hE _

theorem bind_books : Tries bookkeeping (.opening handles) Listener.bind
    (fun k' _ => ¬ CmCall.bind.Leaks k') fun k' _ => Abandons .bind k' := by
  have hclean : ¬ CmCall.bind.Leaks (.opening handles) := id
  unfold Listener.bind
  rw [tries_bind]
  refine resolveV4_books ?_ fun e => opening_abandons hclean
  rw [tries_bind, tries_lift, follows_book]
  intro made
  rw [tries_bind, tries_except]
  cases made with
  | none => exact opening_abandons hclean
  | some channel =>
  show Tries bookkeeping ((Books.opening handles).acquire [.channel channel]) _ _ _
  rw [tries_bind, tries_lift, follows_book]
  intro made
  rw [tries_bind, tries_except]
  have hchannel : ((Books.opening handles).acquire [.channel channel]).ledger.Holds
      [.channel channel] := Ledger.holds_empty.acquire _
  cases made with
  | error ret =>
      -- the early return forgets the channel
      refine abandons_unpaired hchannel rfl (fun x hx => by cases hx) ?_
      exact iff_of_false (by rintro ⟨⟩) (not_not.mpr trivial)
  | ok id =>
  show Tries bookkeeping (((Books.opening handles).acquire [.channel channel]).acquire [.id id]) _ _ _
  rw [tries_bind, tries_attempt]
  have hfail (e : Fault) : Tries bookkeeping
      (((Books.opening handles).acquire [.channel channel]).acquire [.id id])
      (do verb (.destroyId id); verb (.destroyEventChannel channel); throw e : Sys Listener)
      (fun k' _ => ¬ CmCall.bind.Leaks k') fun k' _ => Abandons .bind k' := by
    rw [tries_bind, tries_lift, follows_book]
    intro _
    rw [tries_bind, tries_lift, follows_book]
    intro _
    refine abandons_unpaired ?_ rfl (fun x _ h => h) (iff_of_true rfl hclean)
    have hboth : (((Books.opening handles).acquire [.channel channel]).acquire [.id id]).ledger.Holds
        ([.id id] ++ ([.channel channel] ++ [])) :=
      (hchannel.acquire [.id id]).perm List.perm_append_comm
    exact hboth.release.release
  refine tries_quiet_then (v := .bindAddr id) (fun _ => rfl) ?_ ?_
  · intro _
    refine tries_quiet (v := .listen id) (fun _ => rfl) ?_ ?_
    · exact fun _ => hclean
    · exact hfail
  · exact hfail

/-- A connection that `connect` is building, when no connect request has come. -/
structure Connecting (k : Books) (conn : Connection) : Prop where
  holds : Built .connect k conn []
  requests : ∀ event ∈ k.events, event.event ≠ .connectRequest

theorem Connecting.not_leaks (h : Connecting k conn) : ¬ CmCall.connect.Leaks k :=
  fun ⟨event, hmem, hreq⟩ => h.requests event hmem hreq

theorem Connecting.abandons (h : Connecting k conn) :
    Follows bookkeeping k conn.drop fun k' _ => Abandons .connect k' :=
  h.holds.abandons fun _ hevents _ => iff_of_true rfl fun ⟨event, hmem, hreq⟩ =>
    h.requests event (hevents ▸ hmem) hreq

theorem snoc_events {P : CmEvent → Prop} {event : CmEvent} {ret : Int} (h : ∀ e ∈ k.events, P e)
    (hevent : P event) : ∀ e ∈ (k.awaited event ret).events, P e := by
  intro e he
  rcases List.mem_append.mp he with he | he
  · exact h e he
  · rw [List.mem_singleton.mp he]
    exact hevent

theorem Connecting.awaited {event : CmEvent} {ret : Int} (h : Connecting k conn)
    (hreq : event.event ≠ .connectRequest) : Connecting (k.awaited event ret) conn := by
  have := h.holds.awaited event ret
  rw [child_eq_none.mpr hreq] at this
  exact ⟨this, snoc_events h.requests hreq⟩

/-- A step of `connect_to` that waits for an event: a connect request that comes instead is left. -/
theorem Connecting.waits {expected : CmEventType} {step : String} {Q : Books → Unit → Prop}
    (h : Connecting k conn) (hexpected : expected ≠ .connectRequest)
    (hQ : ∀ event, Connecting (k.awaited event 0) conn → Q (k.awaited event 0) ()) :
    Tries bookkeeping k (built conn (waitEvent channel expected step)) Q fun k' e =>
      Follows bookkeeping k' e.2.drop fun k'' _ => Abandons .connect k'' := by
  rw [tries_built]
  refine waitEvent_books hexpected (fun event hreq => hQ event (h.awaited hreq))
    (fun _ => h.abandons) fun event ret _ => ?_
  by_cases hreq : event.event = .connectRequest
  · refine (h.holds.awaited event ret).abandons fun k' hevents _ => ?_
    have hchild : event.child = some event.id := if_pos hreq
    refine iff_of_false (by rw [hchild]; rintro ⟨⟩) (not_not.mpr ⟨event, ?_, hreq⟩)
    rw [hevents]
    exact List.mem_append_right _ (List.mem_singleton_self event)
  · exact (h.awaited hreq).abandons

theorem connect_books : Tries bookkeeping (.opening handles) Connection.connect
    (fun k' _ => ¬ CmCall.connect.Leaks k') fun k' _ => Abandons .connect k' := by
  have hclean : ¬ CmCall.connect.Leaks (.opening handles) := fun ⟨_, hmem, _⟩ => by cases hmem
  unfold Connection.connect
  rw [tries_bind]
  refine resolveV4_books ?_ fun e => opening_abandons hclean
  rw [tries_bind, tries_lift, follows_book]
  intro made
  rw [tries_bind, tries_except]
  cases made with
  | none => exact opening_abandons hclean
  | some channel =>
  show Tries bookkeeping ((Books.opening handles).acquire [.channel channel]) _ _ _
  rw [tries_orDrop]
  have h : Connecting ((Books.opening handles).acquire [.channel channel])
      { id := none, cq := none, pd := none, eventChannel := some channel } := by
    refine ⟨⟨?_, .without rfl rfl, fun _ _ h => h⟩, fun _ hmem => by cases hmem⟩
    exact Ledger.holds_empty.acquire [Resource.channel channel]
  unfold connectTo
  rw [tries_bind, tries_built, tries_bind, tries_lift, follows_book]
  intro made
  rw [tries_except]
  cases made with
  | error ret =>
      refine Connecting.abandons (k := { (Books.opening handles).acquire [.channel channel] with
        unmade := True }) ⟨⟨h.holds.held, .without rfl rfl, h.holds.spared⟩, h.requests⟩
  | ok id =>
  have h : Connecting (((Books.opening handles).acquire [.channel channel]).acquire [.id id])
      { id := some id, cq := none, pd := none, eventChannel := some channel } :=
    ⟨h.holds.addId rfl rfl id, h.requests⟩
  show Tries bookkeeping (((Books.opening handles).acquire [.channel channel]).acquire [.id id]) _ _ _
  have hreleased : (((Books.opening handles).acquire [.channel channel]).acquire
      [.id id]).ledger.released = [] := rfl
  generalize ((Books.opening handles).acquire [.channel channel]).acquire [.id id] = k at h hreleased
  rw [tries_bind, tries_built]
  refine tries_quiet (v := .resolveAddr id) (fun _ => rfl) (fun _ => ?_) fun _ => h.abandons
  rw [tries_bind]
  refine h.waits (by decide) fun event₁ h => ?_
  rw [tries_bind, tries_built]
  refine tries_quiet (v := .resolveRoute id) (fun _ => rfl) (fun _ => ?_) fun _ => h.abandons
  rw [tries_bind]
  refine h.waits (by decide) fun event₂ h => ?_
  rw [tries_bind, tries_lift, follows_book]
  intro context
  rw [tries_bind, tries_built]
  unfold ProtectionDomain.alloc
  rw [tries_bind, tries_lift, follows_book]
  intro made
  rw [tries_bind, tries_except]
  cases made with
  | none => exact h.abandons
  | some domain =>
  rw [checkPtr, ends_ok, tries_pure, tries_bind]
  refine (createResources_books (h.holds.allocPd rfl ⟨context, domain⟩) rfl rfl rfl hreleased
    fun _ _ h => h).mono (fun k₁ conn h₁ => ?_) fun k₁ e h₁ => ?_
  · have h : Connecting k₁ conn := ⟨h₁.1, h₁.2.1.symm ▸ h.requests⟩
    rw [tries_bind, tries_built]
    refine tries_quiet (v := .connect id) (fun _ => rfl) (fun _ => ?_) fun _ => h.abandons
    rw [tries_bind]
    refine h.waits (by decide) fun event₃ h => ?_
    rw [tries_pure]
    exact h.not_leaks
  · exact Connecting.abandons ⟨h₁.1, h₁.2.1.symm ▸ h.requests⟩

/-- A connection that an accept is building: it has taken its request, and no other. -/
structure Admitting (c : CmCall) (k : Books) (conn : Connection) : Prop where
  holds : Built c k conn []
  events : ∃ event, k.events = [event] ∧ event.status = 0
  acks : k.acks = [0]

theorem Admitting.not_stray (h : Admitting c k conn) : ¬ CmCall.StrayRequest k.events k.acks := by
  obtain ⟨event, hevents, hstatus⟩ := h.events
  rw [hevents, h.acks]
  rintro (⟨e, he, _, hbad⟩ | ⟨e, he, _⟩)
  · cases Option.mem_some.mp he
    exact hbad.elim (fun hs => hs hstatus) fun hack => hack rfl
  · cases he

/-- What comes where the establishment is awaited is left if it is a request. -/
theorem Admitting.stray_iff (h : Admitting c k conn) {event : CmEvent} {ret : Int} {k' : Books}
    (hevents : k'.events = k.events ++ [event]) (hacks : k'.acks = k.acks ++ [ret]) :
    CmCall.StrayRequest k'.events k'.acks ↔ event.event = .connectRequest := by
  obtain ⟨first, hfirst, hstatus⟩ := h.events
  rw [hevents, hacks, hfirst, h.acks]
  constructor
  · rintro (⟨e, he, _, hbad⟩ | ⟨e, he, hreq⟩)
    · cases Option.mem_some.mp he
      exact (hbad.elim (fun hs => hs hstatus) fun hack => hack rfl).elim
    · rwa [← List.mem_singleton.mp he]
  · intro hreq
    exact Or.inr ⟨event, List.mem_singleton_self event, hreq⟩

variable (hleaks : ∀ k, c.Leaks k ↔ CmCall.StrayRequest k.events k.acks)

include hleaks

theorem Admitting.abandons (h : Admitting c k conn) :
    Follows bookkeeping k conn.drop fun k' _ => Abandons c k' :=
  h.holds.abandons fun k' hevents hacks => iff_of_true rfl fun hleak => by
    rw [hleaks, hevents, hacks] at hleak
    exact h.not_stray hleak

/-- The wait for the establishment. -/
theorem Admitting.waits {step : String} (h : Admitting c k conn) :
    Tries bookkeeping k (built conn (waitEvent channel .established step)) (fun k' _ => ¬ c.Leaks k')
      fun k' e => Follows bookkeeping k' e.2.drop fun k'' _ => Abandons c k'' := by
  rw [tries_built]
  refine waitEvent_books (by decide) (fun event hreq => ?_) (fun _ => h.abandons hleaks)
    fun event ret _ => ?_
  · rw [hleaks, h.stray_iff rfl rfl]
    exact hreq
  · refine (h.holds.awaited event ret).abandons fun k' hevents hacks => ?_
    rw [hleaks, h.stray_iff (hevents.trans rfl) (hacks.trans rfl), ← ne_eq, ← child_eq_none]
    cases event.child with
    | none => exact iff_of_true rfl rfl
    | some n => exact iff_of_false (by rintro ⟨⟩) (by rintro ⟨⟩)

/-- `accept_impl` when the connection has its domain's handle beside it. -/
theorem Admitting.createsResources {pd : ProtectionDomain} {conn : Connection}
    (hbuilt : Built c k conn (k.last pd.pd)) (hevents : ∃ event, k.events = [event] ∧ event.status = 0)
    (hacks : k.acks = [0]) (hid : conn.id = some id) (hcq : conn.cq = none) (hpd : conn.pd = none)
    (hreleased : k.ledger.released = []) (hlast : ∀ x ∈ k.last pd.pd, ¬ c.Others x) :
    Tries bookkeeping k (do
        let conn ← createResources conn id pd
        built conn do check "rdma_accept" (← verb (.accept id))
        built conn (waitEvent channel .established "rdma_accept")
        return conn) (fun k' _ => ¬ c.Leaks k') fun k' e =>
      Follows bookkeeping k' e.2.drop fun k'' _ => Abandons c k'' := by
  rw [tries_bind]
  refine (createResources_books hbuilt hid hcq hpd hreleased hlast).mono (fun k₁ made h₁ => ?_)
    fun k₁ e h₁ => ?_
  · have h : Admitting c k₁ made := ⟨h₁.1, h₁.2.1.symm ▸ hevents, h₁.2.2.trans hacks⟩
    rw [tries_bind, tries_built]
    refine tries_quiet (v := .accept id) (fun _ => rfl) (fun _ => ?_) fun _ => h.abandons hleaks
    rw [tries_bind]
    refine (h.waits hleaks).mono (fun k₂ _ h₂ => ?_) fun _ _ h₂ => h₂
    rw [tries_pure]
    exact h₂
  · exact Admitting.abandons hleaks ⟨h₁.1, h₁.2.1.symm ▸ hevents, h₁.2.2.trans hacks⟩

omit hleaks

end Calls

/-- The call that accepts, into the shared domain if there is one. -/
def CmCall.accepts (channel : Nat) : Option ProtectionDomain → CmCall
  | none => .accept channel
  | some pd => .acceptInto channel pd

section Accepts

variable {channel : Nat} {handles : Nat → Nat} {pd : Option ProtectionDomain}

theorem accepts_leaks (k : Books) :
    (CmCall.accepts channel pd).Leaks k ↔ CmCall.StrayRequest k.events k.acks := by
  cases pd <;> exact Iff.rfl

/-- `accept_impl` once the request was taken and acknowledged. -/
theorem acceptRequest_books {k : Books} {child : Nat} (hpd : ∀ dom ∈ pd, 1 ≤ k.handles dom.pd)
    (h : Admitting (CmCall.accepts channel pd) k
      { id := some child, cq := none, pd := none, eventChannel := none })
    (hreleased : k.ledger.released = []) :
    Tries bookkeeping k (acceptRequest channel child pd).orDrop
      (fun k' _ => ¬ (CmCall.accepts channel pd).Leaks k')
      fun k' _ => Abandons (CmCall.accepts channel pd) k' := by
  rw [tries_orDrop]
  unfold acceptRequest
  rw [tries_bind, tries_lift, follows_book]
  intro context
  rw [tries_bind, tries_built]
  unfold acceptDomain
  cases pd with
  | none =>
      simp only [ProtectionDomain.alloc]
      rw [tries_bind, tries_lift, follows_book]
      intro made
      rw [tries_bind, tries_except]
      cases made with
      | none => exact h.abandons accepts_leaks
      | some domain =>
          rw [checkPtr, ends_ok, tries_pure]
          refine Admitting.createsResources accepts_leaks (h.holds.allocPd rfl ⟨context, domain⟩) h.events
            h.acks rfl rfl rfl hreleased fun x hx => ?_
          rw [mem_last hx]
          rintro ⟨⟩
  | some dom =>
      simp only
      by_cases hdevice : dom.context ≠ context
      · rw [if_pos hdevice, tries_bind, tries_throw]
        exact h.abandons accepts_leaks
      · rw [if_neg hdevice, tries_bind, tries_lift, follows_book]
        intro _
        -- the owner of the shared domain keeps a handle
        have hlast : (k.setHandles dom.pd (k.handles dom.pd + 1)).last dom.pd = [] := by
          have hkept : (k.setHandles dom.pd (k.handles dom.pd + 1)).handles dom.pd ≠ 1 := by
            have := hpd dom rfl
            simp only [Books.setHandles, Function.update_self]
            omega
          exact if_neg hkept
        refine Admitting.createsResources accepts_leaks (k := k.setHandles dom.pd (k.handles dom.pd + 1))
          ?_ h.events h.acks rfl rfl rfl hreleased fun x hx => ?_
        · rw [hlast]
          exact ⟨h.holds.held, .without rfl (h.holds.pairs_nil rfl), h.holds.spared⟩
        · rw [hlast] at hx
          cases hx

theorem accept_books (pd : Option ProtectionDomain) (hpd : ∀ dom ∈ pd, 1 ≤ handles dom.pd) :
    Tries bookkeeping (.opening handles) (Listener.acceptImpl channel pd)
      (fun k' _ => ¬ (CmCall.accepts channel pd).Leaks k')
      fun k' _ => Abandons (CmCall.accepts channel pd) k' := by
  have hclean : ¬ CmCall.StrayRequest [] [] := by
    rintro (⟨_, he, _⟩ | ⟨_, he, _⟩) <;> cases he
  unfold Listener.acceptImpl
  rw [tries_bind, tries_lift, follows_book]
  intro got
  rw [tries_bind, tries_except]
  cases got with
  | error ret => exact opening_abandons fun hleak => hclean ((accepts_leaks _).mp hleak)
  | ok event =>
  show Tries bookkeeping ((Books.opening handles).took event) _ _ _
  rw [tries_bind, tries_lift, follows_book]
  intro ack
  show Tries bookkeeping ((Books.opening handles).awaited event ack) _ _ _
  have hheld : ((Books.opening handles).awaited event ack).ledger.Holds
      (event.child.toList.map .id) := Ledger.holds_empty.acquire (event.child.toList.map Resource.id)
  -- the request is left behind where the call ends here
  have hleft (hbad : event.event = .connectRequest → event.status ≠ 0 ∨ ack ≠ 0) :
      Abandons (CmCall.accepts channel pd) ((Books.opening handles).awaited event ack) := by
    refine abandons_unpaired hheld rfl (fun x hx => by cases hx) ?_
    rw [accepts_leaks]
    by_cases hreq : event.event = .connectRequest
    · rw [show event.child = some event.id from if_pos hreq]
      refine iff_of_false (by rintro ⟨⟩) (not_not.mpr (Or.inl ⟨event, rfl, hreq, ?_⟩))
      exact (hbad hreq).imp id fun hack he => hack (Option.some.inj he)
    · rw [child_eq_none.mpr hreq]
      refine iff_of_true rfl ?_
      rintro (⟨e, he, he', _⟩ | ⟨e, he, _⟩)
      · cases Option.mem_some.mp he
        exact hreq he'
      · cases he
  by_cases hbad : event.event ≠ .connectRequest ∨ event.status ≠ 0
  · simp only [hbad, if_true]
    exact hleft fun hreq => Or.inl (hbad.resolve_left (not_not.mpr hreq))
  simp only [hbad, if_false]
  rw [tries_bind, tries_except]
  refine check_ends (fun hack => ?_) fun hack _ => hleft fun _ => Or.inr hack
  subst hack
  rw [not_or, not_not, not_not] at hbad
  have hchild : event.child = some event.id := if_pos hbad.1
  rw [hchild] at hheld
  refine acceptRequest_books hpd ⟨⟨hheld, .without rfl rfl, fun x hx => ?_⟩, ⟨event, rfl, hbad.2⟩, rfl⟩ rfl
  rw [show x = .id event.id from List.mem_singleton.mp hx]
  exact not_others nofun nofun

end Accepts

/-! ## 7. When a call that failed has released everything -/

/-- The books at the end of a run. -/
def Books.ofRun (handles : Nat → Nat) (tr : Trace Op Op.Ans) : Books :=
  bookkeeping.after (.opening handles) tr

section Release

variable {c : CmCall} {handles : Nat → Nat}

/-- **Each of the four calls.** -/
theorem call_books (hborrows : c.Borrows handles) :
    Tries bookkeeping (.opening handles) c.run (fun k' _ => ¬ c.Leaks k') fun k' _ => Abandons c k' := by
  cases c with
  | connect => exact connect_books
  | bind => exact bind_books
  | accept channel => exact accept_books none fun dom hdom => by cases hdom
  | acceptInto channel pd =>
      refine accept_books (some pd) fun dom hdom => ?_
      cases Option.mem_some.mp hdom
      exact hborrows

/-- **When a call that fails has released what it acquired**: in every run, whatever the C calls
    return, exactly where it leaves no event channel and no connect request behind. -/
theorem release_iff (c : CmCall) (handles : Nat → Nat) (hborrows : c.Borrows handles)
    {tr : Trace Op Op.Ans} {result : Except Fault c.Result} (hruns : c.run.run.Runs tr result)
    (htruth : (Books.ofRun handles tr).truthful) :
    (∀ e, result = .error e → Released c (Books.ofRun handles tr)) ↔
      ¬ c.Leaks (Books.ofRun handles tr) := by
  have hends := Follows.runs (call_books hborrows) hruns
  cases result with
  | ok made => exact iff_of_true (fun e he => by cases he) hends
  | error e =>
      obtain ⟨rest, hleft, hrest⟩ := (show Abandons c (Books.ofRun handles tr) from hends) htruth
      rw [← hrest]
      constructor
      · intro h
        exact hleft.held.settled_iff.mp (h e rfl).settled
      · intro hnone _ _
        exact ⟨hleft.held.settled_iff.mpr hnone, hleft.ordered, hleft.spared⟩

end Release

/-- A device on which no id can be created, every event is a connect request and `rdma_accept`
    returns `ret`; everything else succeeds. -/
def churlish (ret : Int) : (o : Op) → o.Ans × Int
  | .toSocketAddrs => (.ok [.v4], ret)
  | .verb .createEventChannel => (some 5, ret)
  | .verb (.createId _) => (.error (-12), ret)
  | .verb (.getCmEvent _) => (.ok ⟨1, .connectRequest, 0⟩, ret)
  | .verb (.allocPd _) => (some 3, ret)
  | .verb (.createCq _) => (some 2, ret)
  | .verb (.qpOf _) => (true, ret)
  | .verb (.accept _) => (ret, ret)
  | _ => (default, ret)

/-- An accept into the domain 9 that is refused when all resources are there. -/
def refusedAccept : Trace Op Op.Ans × Except Fault Connection :=
  (CmCall.acceptInto 0 ⟨0, 9⟩).run.run.drive churlish (-1)

theorem refusedAccept_truthful : (Books.ofRun (fun _ => 1) refusedAccept.1).truthful := by
  show True ∧ (true = true ↔ 1 ∈ [1] ∧ Resource.qp 1 ∉ [])
  decide

theorem release_iff_refused :
    (∃ e, refusedAccept.2 = .error e) ∧
      Released (.acceptInto 0 ⟨0, 9⟩) (Books.ofRun (fun _ => 1) refusedAccept.1) ∧
      (Books.ofRun (fun _ => 1) refusedAccept.1).ledger.released = [.qp 1, .id 1, .cq 2] := by
  refine ⟨⟨_, rfl⟩, ?_, by decide +kernel⟩
  refine (release_iff (.acceptInto 0 ⟨0, 9⟩) (fun _ => 1) (Nat.le_refl 1)
    (Prog.drive_runs churlish _ (-1)) refusedAccept_truthful).mpr ?_ _ rfl
  rintro (⟨event, hmem, hreq, hbad⟩ | ⟨event, hmem, _⟩)
  · cases Option.mem_some.mp hmem
    exact hbad.elim (fun h => h rfl) fun h => h rfl
  · cases hmem

/-- A `bind` for which no id can be created, and an accept that meets a second request. -/
def lostBind : Trace Op Op.Ans × Except Fault Listener := CmCall.bind.run.run.drive churlish 0

def lostAccept : Trace Op Op.Ans × Except Fault Connection :=
  (CmCall.accept 0).run.run.drive churlish 0

/-- **Resources are left behind**: by `bind` its event channel, by `accept` the child of the request
    that it took for the establishment. -/
theorem resources_lost :
    ((∃ e, lostBind.2 = .error e) ∧ (Books.ofRun (fun _ => 1) lostBind.1).truthful ∧
        ¬ Released .bind (Books.ofRun (fun _ => 1) lostBind.1)) ∧
      (∃ e, lostAccept.2 = .error e) ∧ (Books.ofRun (fun _ => 1) lostAccept.1).truthful ∧
        ¬ Released (.accept 0) (Books.ofRun (fun _ => 1) lostAccept.1) := by
  refine ⟨⟨⟨_, rfl⟩, trivial, fun h => ?_⟩, ⟨_, rfl⟩, ?_, fun h => ?_⟩
  · exact absurd h.settled.length_eq (by decide +kernel)
  · show True ∧ (true = true ↔ 1 ∈ [1] ∧ Resource.qp 1 ∉ [])
    decide
  · exact absurd h.settled.length_eq (by decide +kernel)

end Rdmalib
