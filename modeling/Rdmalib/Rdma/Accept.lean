/-
  File:      Rdmalib/Rdma/Accept.lean
  Subject:   Which events one accept takes off the listener's channel, and whose they are.

  The channel carries the connect requests of every client and the events of every connection
  that was accepted through the listener. `accept_impl` takes the next event for a request and,
  after `rdma_accept`, the next one for that request's establishment.

  * `taken` -- the events that a run takes, in order; `Faultless` -- none of them is of another
    connection and makes the call fail, and no other client's request is among them;
  * `acceptImpl_ends` -- the ways in which an accept ends;
  * result: a run is faultless iff the events it takes are its own (`accept_faultless_iff`).
-/
import Rdmalib.Rdma.Cm

namespace Rdmalib

open Base

/-! ## 1. Events and failures of a run -/

/-- The event that an operation takes off a channel. -/
def Op.takes : (o : Op) → o.Ans → Option CmEvent
  | .verb (.getCmEvent _), .ok event => some event
  | _, _ => none

/-- The events that a run takes, in order. -/
def taken (tr : Trace Op Op.Ans) : List CmEvent := tr.flatMap fun e => (e.1.takes e.2).toList

/-- A C call of an accept into `pd` fails, or finds the connection on another device. -/
def Op.Fails (pd : Option ProtectionDomain) : (o : Op) → o.Ans → Prop
  | .verb (.getCmEvent _), .error _ => True
  | .verb .ackCmEvent, ret => ret ≠ 0
  | .verb (.verbsOf _), context => ∃ dom ∈ pd, dom.context ≠ context
  | .verb (.allocPd _), none => True
  | .verb (.createCq _), none => True
  | .verb (.createQp _ _ _), ret => ret ≠ 0
  | .verb (.accept _), ret => ret ≠ 0
  | _, _ => False

/-- The event is of this type, and reports no error. -/
def CmEvent.Is (e : CmEvent) (type : CmEventType) : Prop := e.event = type ∧ e.status = 0

/-- The connection that a call is accepting: that of the request it took. -/
def accepted (events : List CmEvent) : Option Nat := events.head?.bind CmEvent.child

/-- The event makes the call fail that takes these: it comes where a request is awaited, or where
    the establishment is, and is something else. -/
def FailsOn (events : List CmEvent) (event : CmEvent) : Prop :=
  (events.head? = some event ∧ ¬ event.Is .connectRequest) ∨
    (event ∈ events.tail ∧ ¬ event.Is .established)

/-- **An accept minds its own connection**: it fails because of a C call, or of an event of the
    connection it is accepting, never because of another connection's event; and every request it
    takes off the channel is of the connection that it returns or fails on. -/
structure Faultless (pd : Option ProtectionDomain) (tr : Trace Op Op.Ans)
    (result : Except Fault Connection) : Prop where
  cause : ∀ e, result = .error e → (∃ step ∈ tr, step.1.Fails pd step.2) ∨
    ∃ event ∈ taken tr, FailsOn (taken tr) event ∧ accepted (taken tr) = some event.id
  spared : ∀ event ∈ taken tr, FailsOn (taken tr) event → accepted (taken tr) = some event.id
  requests : ∀ event ∈ taken tr, event.event = .connectRequest →
    accepted (taken tr) = some event.id ∧ ∀ conn, result = .ok conn → conn.id = some event.id

/-- **The events are the call's own**: the first is a request, and what follows is of the same
    connection, or is an establishment. -/
def OwnEvents (events : List CmEvent) : Prop :=
  ∀ first rest, events = first :: rest → first.event = .connectRequest ∧
    ∀ event ∈ rest, event.id = first.id ∨ event.Is .established

/-! ## 2. How an accept ends -/

/-- What is known of a run so far. -/
structure Taking where
  events : List CmEvent
  failed : Prop

/-- The events taken, and whether a C call has failed. -/
def accepting (pd : Option ProtectionDomain) : Protocol Op Op.Ans Taking where
  may _ _ := True
  next k o a := ⟨k.events ++ (o.takes a).toList, k.failed ∨ o.Fails pd a⟩

theorem accepting_after (pd : Option ProtectionDomain) (k : Taking) (tr : Trace Op Op.Ans) :
    ((accepting pd).after k tr).events = k.events ++ taken tr ∧
      (((accepting pd).after k tr).failed ↔ k.failed ∨ ∃ step ∈ tr, step.1.Fails pd step.2) := by
  induction tr generalizing k with
  | nil => simp [Protocol.after, taken]
  | cons step tr ih =>
      have hstep := ih ((accepting pd).next k step.1 step.2)
      have hafter : (accepting pd).after k (step :: tr) =
          (accepting pd).after ((accepting pd).next k step.1 step.2) tr := rfl
      rw [hafter, hstep.1, hstep.2]
      refine ⟨?_, ?_⟩
      · show k.events ++ (step.1.takes step.2).toList ++ taken tr = _
        rw [List.append_assoc]
        rfl
      · show (k.failed ∨ step.1.Fails pd step.2) ∨ _ ↔ _
        simp only [List.mem_cons, exists_eq_or_imp, or_assoc]

/-- **The ways an accept ends.** -/
inductive AcceptEnds (k : Taking) : Except Fault Connection → Prop where
  | early (e : Fault) (hevents : k.events = []) (hfailed : k.failed) : AcceptEnds k (.error e)
  | unrequested (e : Fault) (event : CmEvent) (hevents : k.events = [event])
      (hbad : ¬ event.Is .connectRequest) : AcceptEnds k (.error e)
  | broken (e : Fault) (event : CmEvent) (hevents : k.events = [event])
      (hreq : event.Is .connectRequest) (hfailed : k.failed) : AcceptEnds k (.error e)
  | unestablished (e : Fault) (event next : CmEvent) (hevents : k.events = [event, next])
      (hreq : event.Is .connectRequest) (hbad : ¬ next.Is .established) : AcceptEnds k (.error e)
  | unacknowledged (e : Fault) (event next : CmEvent) (hevents : k.events = [event, next])
      (hreq : event.Is .connectRequest) (hest : next.Is .established) (hfailed : k.failed) :
      AcceptEnds k (.error e)
  | established (conn : Connection) (event next : CmEvent) (hevents : k.events = [event, next])
      (hreq : event.Is .connectRequest) (hest : next.Is .established)
      (hconn : conn.id = some event.id) : AcceptEnds k (.ok conn)

section Ends

variable {pd : Option ProtectionDomain} {k k' : Taking} {conn : Connection} {id channel : Nat}

/-- What an operation that takes no event leaves known. -/
structure After (k k' : Taking) : Prop where
  events : k'.events = k.events
  failed : k.failed → k'.failed

theorem After.rfl : After k k := ⟨Eq.refl _, fun h => h⟩

theorem After.trans {k₁ k₂ : Taking} (h : After k k₁) (h' : After k₁ k₂) : After k k₂ :=
  ⟨h'.events.trans h.events, fun hf => h'.failed (h.failed hf)⟩

theorem after_next {o : Op} {a : o.Ans} (h : o.takes a = none) :
    After k ((accepting pd).next k o a) := by
  refine ⟨?_, Or.inl⟩
  show k.events ++ (o.takes a).toList = _
  rw [h, Option.toList_none, List.append_nil]

/-- Code that takes no event off a channel. -/
theorem after_of_only {α : Type} {x : Code α} (h : Only (fun o => ∀ a, o.takes a = none) x) :
    Follows (accepting pd) k x fun k' _ => After k k' :=
  h.follows (I := fun k' => After k k')
    (fun _ _ ho hk => ⟨trivial, fun a => hk.trans (after_next (ho a))⟩) .rfl

theorem drop_takes_nothing (conn : Connection) :
    Only (fun o => ∀ a, o.takes a = none) conn.drop :=
  (drop_tearsDown conn).mono fun o ho a => by
    cases o with
    | verb v =>
        cases v with
        | getCmEvent channel => exact ho.elim
        | _ => rfl
    | _ => rfl

/-- A C call that takes no event, as a step of a run. -/
theorem after_call {v : Verb} {Q : Taking → v.Ans → Prop} (htakes : ∀ a, (Op.verb v).takes a = none)
    (hQ : ∀ (k' : Taking) a, After k k' → ((Op.verb v).Fails pd a → k'.failed) → Q k' a) :
    Follows (accepting pd) k (verb v) Q :=
  follows_call.mpr ⟨trivial, fun a => hQ _ a (after_next (htakes a)) fun hf => Or.inr hf⟩

/-- `wait_event`, on the event that it takes. -/
structure Waited (k k' : Taking) (expected : CmEventType) (event : CmEvent) : Prop where
  events : k'.events = k.events ++ [event]
  failed : k.failed → k'.failed
  expected : event.Is expected

/-- What is left of a `wait_event` that failed. -/
inductive WaitFailed (k k' : Taking) (expected : CmEventType) : Prop where
  | untaken (hevents : k'.events = k.events) (hfailed : k'.failed)
  | unexpected (event : CmEvent) (hevents : k'.events = k.events ++ [event])
      (hbad : ¬ event.Is expected)
  | unacknowledged (event : CmEvent) (hevents : k'.events = k.events ++ [event])
      (hgood : event.Is expected) (hfailed : k'.failed)

theorem not_is {event : CmEvent} {expected : CmEventType} :
    (event.event ≠ expected ∨ event.status ≠ 0) ↔ ¬ event.Is expected := by
  unfold CmEvent.Is
  rw [not_and_or]

theorem waitEvent_ends (expected : CmEventType) (step : String) :
    Tries (accepting pd) k (waitEvent channel expected step)
      (fun k' _ => ∃ event, Waited k k' expected event) fun k' _ => WaitFailed k k' expected := by
  unfold waitEvent
  rw [tries_bind, tries_lift, follows_call]
  refine ⟨trivial, fun got => ?_⟩
  rw [tries_bind, tries_except]
  refine checkOut_ends (fun event hgot => ?_) fun ret hgot e => ?_
  · subst hgot
    rw [tries_bind, tries_lift]
    refine after_call (fun _ => rfl) fun k' ack hafter hfails => ?_
    have hevents : k'.events = k.events ++ [event] := hafter.events
    by_cases hbad : event.event ≠ expected ∨ event.status ≠ 0
    · simp only [hbad, if_true]
      exact .unexpected event hevents (not_is.mp hbad)
    · simp only [hbad, if_false]
      have hgood : event.Is expected := not_not.mp fun h => hbad (not_is.mpr h)
      rw [tries_except]
      refine check_ends (fun _ => ⟨event, hevents, fun h => hafter.failed (Or.inl h), hgood⟩) ?_
      exact fun hret _ => .unacknowledged event hevents hgood (hfails hret)
  · subst hgot
    exact .untaken (List.append_nil _) (Or.inr trivial)

theorem acceptDomain_ends {context : Nat} (hdevice : (∃ dom ∈ pd, dom.context ≠ context) → k.failed) :
    Tries (accepting pd) k (acceptDomain pd context) (fun k' _ => After k k')
      fun k' _ => After k k' ∧ k'.failed := by
  unfold acceptDomain
  cases pd with
  | none =>
      simp only [ProtectionDomain.alloc]
      rw [tries_bind, tries_lift]
      refine after_call (fun _ => rfl) fun k₁ domain hafter hfails => ?_
      rw [tries_bind, tries_except]
      refine checkPtr_ends (fun _ _ => ?_) fun hnone _ => ⟨hafter, hfails (by subst hnone; trivial)⟩
      rw [tries_pure]
      exact hafter
  | some dom =>
      simp only
      by_cases hne : dom.context ≠ context
      · rw [if_pos hne]
        exact ⟨.rfl, hdevice ⟨dom, rfl, hne⟩⟩
      · rw [if_neg hne, tries_bind, tries_lift]
        exact after_call (fun _ => rfl) fun k₁ _ hafter _ => hafter

theorem createResources_ends {dom : ProtectionDomain} :
    Tries (accepting pd) k (createResources conn id dom)
      (fun k' made => After k k' ∧ made.id = conn.id) fun k' _ => After k k' ∧ k'.failed := by
  have hfail (k₁ : Taking) (e : Fault) (left : Connection) (hafter : After k k₁) (hf : k₁.failed) :
      Tries (accepting pd) k₁ (do verb (.dropPd dom.pd); throw (e, left) : Build Connection)
        (fun k' made => After k k' ∧ made.id = conn.id) fun k' _ => After k k' ∧ k'.failed := by
    rw [tries_bind, tries_lift]
    exact after_call (fun _ => rfl) fun k₂ _ h _ => ⟨hafter.trans h, h.failed hf⟩
  unfold createResources
  rw [tries_bind, tries_lift]
  refine after_call (fun _ => rfl) fun k₁ context h₁ hf₁ => ?_
  rw [tries_bind, tries_lift]
  refine after_call (fun _ => rfl) fun k₂ cq h₂ hf₂ => ?_
  cases cq with
  | none => exact hfail k₂ _ conn (h₁.trans h₂) (hf₂ trivial)
  | some cq =>
      simp only [checkPtr]
      rw [tries_bind, tries_lift]
      refine after_call (fun _ => rfl) fun k₃ ret h₃ hf₃ => ?_
      unfold check
      by_cases hret : ret = 0
      · simp only [hret, if_true]
        exact ⟨(h₁.trans h₂).trans h₃, rfl⟩
      · simp only [hret, if_false]
        exact hfail k₃ _ _ ((h₁.trans h₂).trans h₃) (hf₃ hret)

/-- What is left of a `wait_event` that failed after more code that took no event. -/
theorem WaitFailed.after {k₁ k₂ : Taking} {expected : CmEventType} (h : WaitFailed k k₁ expected)
    (hafter : After k₁ k₂) : WaitFailed k k₂ expected := by
  cases h with
  | untaken hevents hfailed => exact .untaken (hafter.events.trans hevents) (hafter.failed hfailed)
  | unexpected event hevents hbad => exact .unexpected event (hafter.events.trans hevents) hbad
  | unacknowledged event hevents hgood hfailed =>
      exact .unacknowledged event (hafter.events.trans hevents) hgood (hafter.failed hfailed)

theorem WaitFailed.before {k₁ k₂ : Taking} {expected : CmEventType} (hafter : After k k₁)
    (h : WaitFailed k₁ k₂ expected) : WaitFailed k k₂ expected := by
  cases h with
  | untaken hevents hfailed => exact .untaken (hevents.trans hafter.events) hfailed
  | unexpected event hevents hbad => exact .unexpected event (by rw [hevents, hafter.events]) hbad
  | unacknowledged event hevents hgood hfailed =>
      exact .unacknowledged event (by rw [hevents, hafter.events]) hgood hfailed

/-- `accept_impl` after the request: the child is established by the next event, or is dropped. -/
theorem acceptRequest_ends (channel child : Nat) :
    Tries (accepting pd) k (acceptRequest channel child pd).orDrop
      (fun k' conn => conn.id = some child ∧ ∃ event, Waited k k' .established event)
      fun k' _ => WaitFailed k k' .established := by
  rw [tries_orDrop]
  have hdropped {k₁ : Taking} {e : Fault × Connection} (h : WaitFailed k k₁ .established) :
      Follows (accepting pd) k₁ e.2.drop fun k' _ => WaitFailed k k' .established :=
    (after_of_only (drop_takes_nothing e.2)).mono fun _ _ hafter => h.after hafter
  unfold acceptRequest
  rw [tries_bind, tries_lift]
  refine after_call (fun _ => rfl) fun k₁ context h₁ hdevice => ?_
  rw [tries_bind, tries_built]
  refine (acceptDomain_ends hdevice).mono (fun k₂ dom h₂ => ?_) fun k₂ e h₂ =>
    hdropped (.untaken (h₁.trans h₂.1).events h₂.2)
  rw [tries_bind]
  refine createResources_ends.mono (fun k₃ made h₃ => ?_) fun k₃ e h₃ =>
    hdropped (.untaken ((h₁.trans h₂).trans h₃.1).events h₃.2)
  have hbefore := (h₁.trans h₂).trans h₃.1
  rw [tries_bind, tries_built, tries_bind, tries_lift]
  refine after_call (fun _ => rfl) fun k₄ ret h₄ hfails => ?_
  have hbefore := hbefore.trans h₄
  rw [tries_except]
  refine check_ends (fun _ => ?_) fun hret _ => hdropped (.untaken hbefore.events (hfails hret))
  rw [tries_bind, tries_built]
  refine (waitEvent_ends .established "rdma_accept").mono (fun k₅ _ h => ?_) fun k₅ e h =>
    hdropped (h.before hbefore)
  obtain ⟨event, h⟩ := h
  rw [tries_pure]
  exact ⟨h₃.2, event, h.events.trans (by rw [hbefore.events]), fun hf => h.failed (hbefore.failed hf),
    h.expected⟩

/-- **Every accept ends in one of these ways.** -/
theorem acceptImpl_ends (channel : Nat) :
    Tries (accepting pd) ⟨[], False⟩ (Listener.acceptImpl channel pd)
      (fun k' conn => AcceptEnds k' (.ok conn)) fun k' e => AcceptEnds k' (.error e) := by
  unfold Listener.acceptImpl
  rw [tries_bind, tries_lift, follows_call]
  refine ⟨trivial, fun got => ?_⟩
  rw [tries_bind, tries_except]
  refine checkOut_ends (fun event hgot => ?_) fun ret hgot e => ?_
  · subst hgot
    rw [tries_bind, tries_lift]
    refine after_call (fun _ => rfl) fun k₁ ack hafter hfails => ?_
    have hevents : k₁.events = [event] := hafter.events
    by_cases hbad : event.event ≠ .connectRequest ∨ event.status ≠ 0
    · simp only [hbad, if_true]
      exact .unrequested _ event hevents (not_is.mp hbad)
    simp only [hbad, if_false]
    have hreq : event.Is .connectRequest := not_not.mp fun h => hbad (not_is.mpr h)
    rw [tries_bind, tries_except]
    refine check_ends (fun _ => ?_) fun hret e => .broken e event hevents hreq (hfails hret)
    refine (acceptRequest_ends channel event.id).mono (fun k₂ conn h => ?_) fun k₂ e h => ?_
    · obtain ⟨hconn, next, h⟩ := h
      exact .established conn event next (by rw [h.events, hevents]; rfl) hreq h.expected hconn
    · cases h with
      | untaken h hfailed => exact .broken e event (h.trans hevents) hreq hfailed
      | unexpected next h hbad =>
          exact .unestablished e event next (by rw [h, hevents]; rfl) hreq hbad
      | unacknowledged next h hgood hfailed =>
          exact .unacknowledged e event next (by rw [h, hevents]; rfl) hreq hgood hfailed
  · subst hgot
    exact .early e rfl (Or.inr trivial)

end Ends

/-! ## 3. When an accept minds its own connection -/

section Own

variable {pd : Option ProtectionDomain} {tr : Trace Op Op.Ans} {result : Except Fault Connection}

theorem accepted_request {event : CmEvent} {rest : List CmEvent} (hreq : event.Is .connectRequest) :
    accepted (event :: rest) = some event.id := by
  show event.child = _
  unfold CmEvent.child
  rw [if_pos hreq.1]

/-- A run that ended in one of the ways, on what it took. -/
theorem accept_ended {channel : Nat} (hruns : (Listener.acceptImpl channel pd).run.Runs tr result) :
    ∃ k, AcceptEnds k result ∧ k.events = taken tr ∧
      (k.failed → ∃ step ∈ tr, step.1.Fails pd step.2) := by
  have hafter := accepting_after pd ⟨[], False⟩ tr
  refine ⟨(accepting pd).after ⟨[], False⟩ tr, ?_, hafter.1, fun h => ?_⟩
  · have hends := Follows.runs (acceptImpl_ends channel) hruns
    cases result with
    | ok conn => exact hends
    | error e => exact hends
  · exact (hafter.2.mp h).resolve_left id

/-- An event that is not awaited makes the call fail, so a faultless call took its own. -/
theorem own_of_faultless {k : Taking} (hends : AcceptEnds k result) (hevents : k.events = taken tr)
    (h : Faultless pd tr result) : OwnEvents (taken tr) := by
  have hspared := h.spared
  rw [← hevents] at hspared ⊢
  -- the second event: the establishment that was awaited, or of the call's own connection
  have hsecond {event next : CmEvent} (hk : k.events = [event, next])
      (hreq : event.Is .connectRequest) : OwnEvents k.events := by
    intro first rest hcons
    rw [hk] at hcons
    obtain ⟨rfl, rfl⟩ := List.cons.inj hcons
    refine ⟨hreq.1, fun e he => ?_⟩
    obtain rfl := List.mem_singleton.mp he
    by_cases hest : e.Is .established
    · exact Or.inr hest
    · have hown := hspared e (by rw [hk]; simp) (Or.inr ⟨by rw [hk]; simp, hest⟩)
      rw [hk, accepted_request hreq] at hown
      exact Or.inl (Option.some.inj hown).symm
  cases hends with
  | early e hnil _ =>
      intro first rest hcons
      rw [hnil] at hcons
      cases hcons
  | unrequested e event hone hbad =>
      intro first rest hcons
      rw [hone] at hcons
      obtain ⟨rfl, rfl⟩ := List.cons.inj hcons
      refine ⟨?_, fun e he => by cases he⟩
      have hown := hspared event (by rw [hone]; simp) (Or.inl ⟨by rw [hone]; rfl, hbad⟩)
      rw [hone] at hown
      by_contra hnot
      rw [show accepted [event] = event.child from rfl, CmEvent.child, if_neg hnot] at hown
      cases hown
  | broken e event hone hreq _ =>
      intro first rest hcons
      rw [hone] at hcons
      obtain ⟨rfl, rfl⟩ := List.cons.inj hcons
      exact ⟨hreq.1, fun e he => by cases he⟩
  | unestablished e event next hk hreq _ => exact hsecond hk hreq
  | unacknowledged e event next hk hreq _ _ => exact hsecond hk hreq
  | established conn event next hk hreq _ _ => exact hsecond hk hreq

/-- Of one's own events, each is of the accepted connection, or is an establishment. -/
theorem own_accepted {events : List CmEvent} (h : OwnEvents events) {event : CmEvent}
    (hmem : event ∈ events) (hnot : events.head? = some event ∨ ¬ event.Is .established) :
    accepted events = some event.id := by
  cases events with
  | nil => cases hmem
  | cons first rest =>
      obtain ⟨hfirst, hrest⟩ := h first rest rfl
      have haccepted : accepted (first :: rest) = some first.id := by
        show first.child = _
        rw [CmEvent.child, if_pos hfirst]
      rw [haccepted]
      rcases hnot with hhead | hnot
      · rw [Option.some.inj hhead]
      · rcases List.mem_cons.mp hmem with rfl | hmem
        · rfl
        · rw [(hrest event hmem).resolve_right hnot]

theorem own_fails {events : List CmEvent} (h : OwnEvents events) {event : CmEvent}
    (hfails : FailsOn events event) : event ∈ events ∧ accepted events = some event.id := by
  rcases hfails with ⟨hhead, _⟩ | ⟨htail, hbad⟩
  · have hmem := List.mem_of_head? hhead
    exact ⟨hmem, own_accepted h hmem (Or.inl hhead)⟩
  · have hmem := List.mem_of_mem_tail htail
    exact ⟨hmem, own_accepted h hmem (Or.inr hbad)⟩

theorem faultless_of_own {k : Taking} (hends : AcceptEnds k result) (hevents : k.events = taken tr)
    (hfailed : k.failed → ∃ step ∈ tr, step.1.Fails pd step.2) (h : OwnEvents (taken tr)) :
    Faultless pd tr result := by
  rw [← hevents] at h
  have hfault {event : CmEvent} (hbad : FailsOn k.events event) :
      ∃ event ∈ taken tr, FailsOn (taken tr) event ∧ accepted (taken tr) = some event.id := by
    rw [← hevents]
    exact ⟨event, (own_fails h hbad).1, hbad, (own_fails h hbad).2⟩
  refine ⟨fun e he => ?_, fun event _ hbad => ?_, fun event hmem hreq => ?_⟩
  · cases hends with
    | early e _ hf => exact Or.inl (hfailed hf)
    | unrequested e event hone hbad =>
        exact Or.inr (hfault (Or.inl ⟨by rw [hone]; rfl, hbad⟩))
    | broken e event _ _ hf => exact Or.inl (hfailed hf)
    | unestablished e event next hk _ hbad =>
        exact Or.inr (hfault (Or.inr ⟨by rw [hk]; exact List.mem_singleton_self next, hbad⟩))
    | unacknowledged e event next _ _ _ hf => exact Or.inl (hfailed hf)
    | established conn event next hk _ _ _ => cases he
  · rw [← hevents] at hbad ⊢
    exact (own_fails h hbad).2
  · rw [← hevents] at hmem ⊢
    have hunest : ¬ event.Is .established := fun hest => by
      rw [hest.1] at hreq
      cases hreq
    have hown := own_accepted h hmem (Or.inr hunest)
    refine ⟨hown, fun conn hok => ?_⟩
    cases hends with
    | established conn' first next hk hfirst _ hconn =>
        obtain rfl := Except.ok.inj hok
        rw [hk, accepted_request hfirst] at hown
        rw [hconn, hown]
    | _ => cases hok

/-- **When an accept minds its own connection**: exactly when the events it takes are its own. -/
theorem accept_faultless_iff (channel : Nat)
    (hruns : (Listener.acceptImpl channel pd).run.Runs tr result) :
    Faultless pd tr result ↔ OwnEvents (taken tr) := by
  obtain ⟨k, hends, hevents, hfailed⟩ := accept_ended hruns
  exact ⟨own_of_faultless hends hevents, faultless_of_own hends hevents hfailed⟩

end Own

/-! ## 4. Two clients -/

/-- A device where every call succeeds, and a channel on which these events arrive in this order. -/
def arriving (events : List CmEvent) (o : Op) : o.Ans × List CmEvent :=
  match o, events with
  | .verb (.getCmEvent _), event :: events => (.ok event, events)
  | .verb (.createCq _), _ | .verb (.allocPd _), _ => (some 0, events)
  | _, _ => (default, events)

/-- An accept of such a listener. -/
def serveEvents (events : List CmEvent) : Trace Op Op.Ans × Except Fault Connection :=
  (Listener.acceptImpl 0 none).run.drive arriving events

theorem serveEvents_runs (events : List CmEvent) :
    (Listener.acceptImpl 0 none).run.Runs (serveEvents events).1 (serveEvents events).2 :=
  Prog.drive_runs _ _ _

def request (id : Nat) : CmEvent := ⟨id, .connectRequest, 0⟩

def establishment (id : Nat) : CmEvent := ⟨id, .established, 0⟩

/-- The peer of an established connection went away. -/
def farewell (id : Nat) : CmEvent := ⟨id, .disconnected, 0⟩

theorem own_cons {first : CmEvent} {rest : List CmEvent} :
    OwnEvents (first :: rest) ↔ first.event = .connectRequest ∧
      ∀ event ∈ rest, event.id = first.id ∨ event.Is .established := by
  constructor
  · intro h
    exact h first rest rfl
  · intro h first' rest' hcons
    obtain ⟨rfl, rfl⟩ := List.cons.inj hcons
    exact h

theorem lone_client_accepted :
    Faultless none (serveEvents [request 1, establishment 1]).1
      (serveEvents [request 1, establishment 1]).2 := by
  refine (accept_faultless_iff 0 (serveEvents_runs _)).mpr ?_
  rw [show taken (serveEvents [request 1, establishment 1]).1 = [request 1, establishment 1] by
    decide +kernel]
  exact own_cons.mpr ⟨rfl, fun event h => Or.inr (List.mem_singleton.mp h ▸ ⟨rfl, rfl⟩)⟩

/-- **Other connections' events make an accept fail.** After one client was served, its disconnect
    is taken by the next accept, which fails; and of two clients that knock at once, the second
    one's request is taken as the answer to the first, and both are gone. -/
theorem other_client_refused :
    (∃ conn e, (serveEvents [request 1, establishment 1]).2 = .ok conn ∧
      (serveEvents [farewell 1]).2 = .error e ∧
      taken (serveEvents [farewell 1]).1 = [farewell 1] ∧
      ¬ Faultless none (serveEvents [farewell 1]).1 (serveEvents [farewell 1]).2) ∧
    ∃ e, (serveEvents [request 1, request 2]).2 = .error e ∧
      taken (serveEvents [request 1, request 2]).1 = [request 1, request 2] ∧
      ¬ Faultless none (serveEvents [request 1, request 2]).1
        (serveEvents [request 1, request 2]).2 := by
  have hgone : taken (serveEvents [farewell 1]).1 = [farewell 1] := by decide +kernel
  have hboth : taken (serveEvents [request 1, request 2]).1 = [request 1, request 2] := by
    decide +kernel
  refine ⟨⟨_, _, rfl, rfl, hgone, fun h => ?_⟩, _, rfl, hboth, fun h => ?_⟩
  · have hcause := h.spared (farewell 1) (by rw [hgone]; exact List.mem_singleton_self _)
    rw [hgone] at hcause
    exact nomatch hcause (Or.inl ⟨rfl, nofun⟩)
  · have hmem : request 2 ∈ taken (serveEvents [request 1, request 2]).1 := by rw [hboth]; simp
    have hown := (h.requests (request 2) hmem rfl).1
    rw [hboth] at hown
    exact absurd hown (by decide)

end Rdmalib
