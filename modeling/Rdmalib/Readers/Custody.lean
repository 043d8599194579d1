/-
  File:      Rdmalib/Readers/Custody.lean
  Subject:   The C resources of a reader over its whole life, from `new` to the drop.

  * `Custody` -- what is alive and what it was made of, the events not acknowledged yet, and whether
    the C calls have answered as documented; `Custody.Allows` -- when each C call may be made;
  * `Connection.stock` -- the resources of a connection, also of one under construction;
    `drop_keeps`, `connect_keeps`, `update_keeps` -- what becomes of them;
  * result: in a reader's whole life no C call gets a handle that is not alive, nothing is destroyed
    twice or while something made of it lives, the slots of the sessions own exactly what is alive,
    and after the drop nothing is (`reader_custody`).
-/
import Rdmalib.Base.Stock
import Rdmalib.Base.Triples
import Rdmalib.Rdma.Release
import Rdmalib.Readers.Cache

namespace Rdmalib

open Base

/-! ## 1. What is alive -/

/-- The C resources of one thread. -/
structure Custody where
  stock : Stock Resource
  /-- The events taken and not acknowledged. -/
  unacked : Nat
  /-- New handles were new, an id's `qp` was null exactly where it had no queue pair, and no
      connect request came. -/
  documented : Bool

namespace Custody

/-- Before the first call. -/
def fresh : Custody := ⟨[], 0, true⟩

def made (k : Custody) (x : Resource) (of : List Resource) : Custody :=
  { k with stock := k.stock.make x of, documented := k.documented && x ∉ k.stock.live }

def freed (k : Custody) (x : Resource) : Custody := { k with stock := k.stock.free x }

/-- What an answered operation changes. -/
def next (k : Custody) : (o : Op) → o.Ans → Custody
  | .verb .createEventChannel, some n => k.made (.channel n) []
  | .verb (.createId channel), .ok n => k.made (.id n) [.channel channel]
  | .verb (.allocPd _), some n => k.made (.pd n) []
  | .verb (.createCq _), some n => k.made (.cq n) []
  | .verb (.createQp id pd cq), ret =>
      if ret = 0 then k.made (.qp id) [.id id, .cq cq, .pd pd] else k
  | .verb (.destroyEventChannel n), _ => k.freed (.channel n)
  | .verb (.destroyId n), _ => k.freed (.id n)
  | .verb (.dropPd n), _ => k.freed (.pd n)
  | .verb (.destroyCq n), _ => k.freed (.cq n)
  | .verb (.destroyQp id), _ => k.freed (.qp id)
  | .verb (.getCmEvent _), .ok event =>
      { k with unacked := k.unacked + 1
               documented := k.documented && event.event ≠ .connectRequest }
  | .verb .ackCmEvent, _ => { k with unacked := k.unacked - 1 }
  | .verb (.qpOf id), has =>
      { k with documented := k.documented && (has == decide (.qp id ∈ k.stock.live)) }
  | _, _ => k

/-- **When a C call may be made**, by the manual: on what is alive, and a destruction of what nothing
    alive was made of; ids and event channels once every event is acknowledged. -/
def Allows (k : Custody) : Verb → Prop
  | .createEventChannel | .allocPd _ | .createCq _ => True
  | .createId channel | .getCmEvent channel => .channel channel ∈ k.stock.live
  | .destroyEventChannel n => k.stock.Free (.channel n) ∧ k.unacked = 0
  | .destroyId n => k.stock.Free (.id n) ∧ k.unacked = 0
  | .bindAddr id | .listen id | .resolveAddr id | .resolveRoute id | .verbsOf id | .qpOf id =>
      .id id ∈ k.stock.live
  | .connect id | .accept id | .disconnect id => .id id ∈ k.stock.live ∧ .qp id ∈ k.stock.live
  | .ackCmEvent => 0 < k.unacked
  -- a reader's domain has one handle
  | .clonePd _ => False
  | .dropPd n => k.stock.Free (.pd n)
  | .destroyCq n => k.stock.Free (.cq n)
  | .createQp id pd cq => .id id ∈ k.stock.live ∧ .pd pd ∈ k.stock.live ∧ .cq cq ∈ k.stock.live ∧
      .qp id ∉ k.stock.live
  | .destroyQp id => k.stock.Free (.qp id)
  | .regMr pd _ _ => .pd pd ∈ k.stock.live

/-- As long as the C calls answer as documented, they are made as allowed. -/
def May (k : Custody) : Op → Prop
  | .verb v => k.documented = true → k.Allows v
  | _ => True

end Custody

def custody : Protocol Op Op.Ans Custody where
  may := Custody.May
  next := Custody.next

theorem custody_excuses : Excuses custody fun k => k.documented = true where
  may k o hk := by
    cases o with
    | verb v => exact fun h => (hk h).elim
    | _ => trivial
  stays k o a hk hnext := by
    refine hk ?_
    change (k.next o a).documented = true at hnext
    revert hnext
    fun_cases Custody.next <;> simp +contextual [Custody.made, Custody.freed]

/-- What holds before and after a program of a reader, as long as the C calls answer as
    documented. -/
abbrev Keeps {α : Type} (pre : Custody → Prop) (p : Code α) (post : Custody → α → Prop) : Prop :=
  Triple custody (fun k => k.documented = true) pre p post

/-! ## 2. A part and its frame -/

/-- A queue pair lives only as long as its id. -/
def Attached (s : Stock Resource) : Prop := ∀ n, .qp n ∈ s.live → .id n ∈ s.live

/-- **The program at work owns `part`**, the rest is `frame`, and every event is acknowledged. -/
structure Owns (part frame : Stock Resource) (k : Custody) : Prop where
  holds : k.stock.Holds part frame
  attached : Attached frame
  settled : k.unacked = 0

section Steps

variable {α β : Type} {part part' frame frame' : Stock Resource} {k : Custody} {v : Verb}
variable {x : Resource} {of : List Resource}

theorem attached_nil : Attached [] := nofun

theorem Attached.append {s t : Stock Resource} (h : Attached s) (h' : Attached t) : Attached (s ++ t) := by
  intro n hn
  rw [Stock.live_append, List.mem_append] at hn ⊢
  exact hn.imp (h n) (h' n)

/-- The same resources, divided anew. -/
theorem Owns.divide (h : Owns part frame k) (hperm : (part ++ frame).Perm (part' ++ frame'))
    (hclosed : frame'.Closed) (hattached : Attached frame') : Owns part' frame' k :=
  ⟨h.holds.divide hperm hclosed, hattached, h.settled⟩

theorem Owns.perm (h : Owns part frame k) (hperm : part.Perm part') : Owns part' frame k :=
  h.divide (hperm.append_right _) h.holds.closed h.attached

theorem Owns.live (h : Owns part frame k) (hx : x ∈ part.live) : x ∈ k.stock.live :=
  h.holds.mem.mpr (Or.inl hx)

/-- No queue pair under an id of the part but the part's own. -/
theorem Owns.without_qp (h : Owns part frame k) {n : Nat} (hid : .id n ∈ part.live)
    (hpart : .qp n ∉ part.live) : .qp n ∉ k.stock.live := by
  rw [h.holds.mem, not_or]
  exact ⟨hpart, fun hframe => List.disjoint_of_nodup_append h.holds.split hid (h.attached n hframe)⟩

/-- A C call that changes nothing. -/
theorem use_keeps {post : Custody → v.Ans → Prop} (hnext : ∀ (k : Custody) a, k.next (.verb v) a = k)
    (hallows : ∀ k, Owns part frame k → k.Allows v)
    (hpost : ∀ k a, Owns part frame k → post k a) : Keeps (Owns part frame) (verb v) post := by
  refine Triple.perform fun k _ h => ⟨fun _ => hallows k h, fun a _ => ?_⟩
  show post (k.next (.verb v) a) a
  rw [hnext]
  exact hpost k a h

/-- Such a call, with its result checked. -/
theorem call_keeps {f : v.Ans → Except Fault β} {E : Custody → Fault → Prop}
    (hnext : ∀ (k : Custody) a, k.next (.verb v) a = k) (hallows : ∀ k, Owns part frame k → k.Allows v)
    (hE : ∀ k e, Owns part frame k → E k e) :
    Keeps (Owns part frame) (do f (← verb v) : Sys β).run (Ends (fun k _ => Owns part frame k) E) := by
  refine Triple.attempt custody_excuses _ (Triple.lift (use_keeps hnext hallows fun _ _ h => h))
    fun a => Triple.except fun k h => ?_
  cases f a with
  | ok b => exact h
  | error e => exact hE k e h

/-- What a C call made is owned. -/
theorem Owns.make (h : Owns part frame k) (hdocumented : (k.made x of).documented = true) :
    Owns (part ++ [(x, of)]) frame (k.made x of) := by
  have hnew : x ∉ k.stock.live := by
    unfold Custody.made at hdocumented
    simp only [Bool.and_eq_true, decide_eq_true_eq] at hdocumented
    exact hdocumented.2
  exact ⟨h.holds.make hnew, h.attached, h.settled⟩

/-- The last that was made is destroyed first. -/
theorem destroy_keeps {post : Custody → v.Ans → Prop} (hnext : ∀ (k : Custody) a, k.next (.verb v) a = k.freed x)
    (hallows : ∀ k : Custody, k.stock.Free x → k.unacked = 0 → k.Allows v)
    (hpart : ∀ e ∈ part, x ∉ e.2) (hof : x ∉ of) (hpost : ∀ k a, Owns part frame k → post k a) :
    Keeps (Owns (part ++ [(x, of)]) frame) (verb v) post := by
  refine Triple.perform fun k _ h => ?_
  obtain ⟨hfree, hholds⟩ := h.holds.pop hpart hof
  refine ⟨fun _ => hallows k hfree h.settled, fun a _ => ?_⟩
  show post (k.next (.verb v) a) a
  rw [hnext]
  exact hpost _ a ⟨hholds, h.attached, h.settled⟩

end Steps

/-! ## 3. The resources of a connection -/

/-- A handle that may be null. -/
def nullable (kind : Nat → Resource) (p : Option Nat) : Stock Resource :=
  p.toList.map fun n => (kind n, [])

/-- The queue pair: a connection has its domain beside the other two once it was created. -/
def Connection.pair (conn : Connection) : Stock Resource :=
  match conn.id, conn.cq, conn.pd with
  | some id, some cq, some pd => [(.qp id, [.id id, .cq cq, .pd pd.pd])]
  | _, _, _ => []

/-- What a connection owns, what is destroyed first standing last. -/
def Connection.stock (conn : Connection) : Stock Resource :=
  nullable .pd (conn.pd.map (·.pd)) ++ nullable .channel conn.eventChannel ++ nullable .cq conn.cq ++
    conn.id.toList.map (fun n => (.id n, conn.eventChannel.toList.map .channel)) ++ conn.pair

section Drop

variable {part frame : Stock Resource} {kind : Nat → Resource} {x : Resource}

theorem nullable_of {p : Option Nat} : ∀ e ∈ nullable kind p, x ∉ e.2 := by
  intro e he
  obtain ⟨n, _, rfl⟩ := List.mem_map.mp he
  exact List.not_mem_nil

theorem unlessNull_keeps (part : Stock Resource) {call : Nat → Code Unit} (p : Option Nat)
    (hcall : ∀ n, Keeps (Owns (part ++ [(kind n, [])]) frame) (call n) fun k _ => Owns part frame k) :
    Keeps (Owns (part ++ nullable kind p) frame) (unlessNull call p) fun k _ => Owns part frame k := by
  cases p with
  | none =>
      refine Triple.ret fun k h => ?_
      rwa [show part ++ nullable kind none = part from List.append_nil part] at h
  | some n => exact hcall n

/-- The id with its queue pair, if it has one. -/
theorem dropId_keeps {n : Nat} {of : List Resource} {pair : Stock Resource}
    (hpair : pair = [] ∨ ∃ of', pair = [(.qp n, of')] ∧ .qp n ∉ of')
    (hpart : ∀ e ∈ part, e.1 ≠ .qp n ∧ .qp n ∉ e.2 ∧ .id n ∉ e.2) (hof : .qp n ∉ of ∧ .id n ∉ of) :
    Keeps (Owns (part ++ [(.id n, of)] ++ pair) frame) (Connection.dropId (some n)) fun k _ =>
      Owns part frame k := by
  have hid : Keeps (Owns (part ++ [(.id n, of)]) frame) (verb (.destroyId n)) fun k _ =>
      Owns part frame k :=
    destroy_keeps (fun _ _ => rfl) (fun _ hfree hacked => ⟨hfree, hacked⟩)
      (fun e he => (hpart e he).2.2) hof.2 fun _ _ h => h
  have hlive : Resource.id n ∈ (part ++ [(Resource.id n, of)] ++ pair).live := by simp [Stock.live]
  have hqp (k : Custody) (h : Owns (part ++ [(.id n, of)] ++ pair) frame k) :
      .qp n ∈ k.stock.live ↔ pair ≠ [] := by
    rcases hpair with rfl | ⟨of', rfl, _⟩
    · refine iff_of_false (h.without_qp hlive fun hmem => ?_) (not_not.mpr rfl)
      obtain ⟨e, he, hqp⟩ := List.mem_map.mp hmem
      rw [List.append_nil, List.mem_append, List.mem_singleton] at he
      rcases he with he | rfl
      · exact (hpart e he).1 hqp
      · cases hqp
    · exact iff_of_true (h.live (by simp [Stock.live])) (by rintro ⟨⟩)
  unfold Connection.dropId
  refine Triple.bind custody_excuses
    (fun k has => Owns (part ++ [(.id n, of)] ++ pair) frame k ∧ (has = true ↔ pair ≠ [])) ?_ ?_
  · refine Triple.perform fun k _ h => ⟨fun _ => h.live hlive, fun has hdoc => ?_⟩
    refine ⟨⟨h.holds, h.attached, h.settled⟩, ?_⟩
    have hhas : has = decide (.qp n ∈ k.stock.live) := by
      change (k.documented && (has == decide (.qp n ∈ k.stock.live))) = true at hdoc
      rw [Bool.and_eq_true, beq_iff_eq] at hdoc
      exact hdoc.2
    rw [hhas, decide_eq_true_eq]
    exact hqp k h
  · intro has
    cases has with
    | false =>
        refine hid.conseq (fun k h => ?_) fun _ _ h => h
        obtain ⟨h, hhas⟩ := h
        have hnone : pair = [] := by_contra fun hne => by cases hhas.mpr hne
        rwa [hnone, List.append_nil] at h
    | true =>
        refine Triple.bind custody_excuses (fun k _ =>
          Owns (part ++ [(.id n, of)] ++ pair) frame k ∧ pair ≠ []) ?_ fun _ => ?_
        · refine Triple.perform fun k _ h => ⟨fun _ => ?_, fun _ _ => ⟨h.1, h.2.mp rfl⟩⟩
          exact ⟨h.1.live hlive, (hqp k h.1).mpr (h.2.mp rfl)⟩
        · rcases hpair with rfl | ⟨of', rfl, hof'⟩
          · exact fun k _ h => (h.2 rfl).elim
          refine Triple.bind custody_excuses (fun k _ => Owns (part ++ [(.id n, of)]) frame k)
            ?_ fun _ => hid
          refine (destroy_keeps (v := .destroyQp n) (fun _ _ => rfl) (fun _ hfree _ => hfree)
            (fun e he => ?_) hof' fun _ _ h => h).conseq (fun _ h => h.1) fun _ _ h => h
          rcases List.mem_append.mp he with he | he
          · exact (hpart e he).2.1
          · rw [List.mem_singleton.mp he]
            exact hof.1

/-- **The drop of a connection** destroys what it owns, whatever it has been built of. -/
theorem drop_keeps (conn : Connection) :
    Keeps (Owns conn.stock frame) conn.drop fun k _ => Owns [] frame k := by
  unfold Connection.drop
  refine Triple.bind custody_excuses (fun k _ => Owns (nullable .pd (conn.pd.map (·.pd)) ++
    nullable .channel conn.eventChannel ++ nullable .cq conn.cq) frame k) ?_ fun _ => ?_
  · have hpair (n : Nat) (hid : conn.id = some n) :
        conn.pair = [] ∨ ∃ of, conn.pair = [(.qp n, of)] ∧ .qp n ∉ of := by
      unfold Connection.pair
      rw [hid]
      cases conn.cq with
      | none => exact Or.inl rfl
      | some cq =>
          cases conn.pd with
          | none => exact Or.inl rfl
          | some pd => exact Or.inr ⟨_, rfl, by simp⟩
    unfold Connection.stock
    cases hid : conn.id with
    | none =>
        refine Triple.ret fun k h => ?_
        rw [show conn.pair = [] by unfold Connection.pair; rw [hid]] at h
        simpa using h
    | some n =>
        refine dropId_keeps (hpair n hid) (fun e he => ?_) (by simp)
        simp only [List.mem_append] at he
        rcases he with (he | he) | he
        all_goals
          refine ⟨?_, nullable_of e he, nullable_of e he⟩
          obtain ⟨m, _, rfl⟩ := List.mem_map.mp he
          rintro ⟨⟩
  refine Triple.bind custody_excuses (fun k _ => Owns (nullable .pd (conn.pd.map (·.pd)) ++
    nullable .channel conn.eventChannel) frame k) ?_ fun _ => ?_
  · refine unlessNull_keeps _ conn.cq fun n => destroy_keeps (fun _ _ => rfl) (fun _ hfree _ => hfree)
      (fun e he => ?_) List.not_mem_nil fun _ _ h => h
    rcases List.mem_append.mp he with he | he
    · exact nullable_of e he
    · exact nullable_of e he
  refine Triple.bind custody_excuses (fun k _ => Owns (nullable .pd (conn.pd.map (·.pd))) frame k)
    ?_ fun _ => ?_
  · exact unlessNull_keeps _ conn.eventChannel fun n => destroy_keeps (fun _ _ => rfl)
      (fun _ hfree hacked => ⟨hfree, hacked⟩) (fun e he => nullable_of e he) List.not_mem_nil fun _ _ h => h
  · exact unlessNull_keeps [] _ fun n => destroy_keeps (fun _ _ => rfl)
      (fun _ hfree _ => hfree) (fun e he => nomatch he) List.not_mem_nil fun _ _ h => h

end Drop

/-! ## 4. Building a connection -/

section Building

variable {α : Type} {part frame : Stock Resource} {pre : Custody → Prop} {channel id context : Nat}
variable {conn : Connection}

theorem Owns.nullable_none (kind : Nat → Resource) {k : Custody} (h : Owns part frame k) :
    Owns (part ++ nullable kind none) frame k := by
  rwa [show part ++ nullable kind none = part from List.append_nil part]

theorem createCq_keeps : Keeps (Owns part frame) (verb (.createCq context)) fun k cq =>
    Owns (part ++ nullable .cq cq) frame k := by
  refine Triple.perform fun k _ h => ⟨fun _ => trivial, fun cq hdoc => ?_⟩
  cases cq with
  | none => exact h.nullable_none _
  | some n => exact h.make hdoc

theorem allocPd_keeps : Keeps (Owns part frame) (verb (.allocPd context)) fun k pd =>
    Owns (part ++ nullable .pd pd) frame k := by
  refine Triple.perform fun k _ h => ⟨fun _ => trivial, fun pd hdoc => ?_⟩
  cases pd with
  | none => exact h.nullable_none _
  | some n => exact h.make hdoc

theorem createEventChannel_keeps : Keeps (Owns part frame) (verb .createEventChannel) fun k channel =>
    Owns (part ++ nullable .channel channel) frame k := by
  refine Triple.perform fun k _ h => ⟨fun _ => trivial, fun channel hdoc => ?_⟩
  cases channel with
  | none => exact h.nullable_none _
  | some n => exact h.make hdoc

/-- Every event that is taken is acknowledged. -/
theorem waitEvent_keeps {expected : CmEventType} {step : String}
    (hchannel : .channel channel ∈ part.live) :
    Keeps (Owns part frame) (waitEvent channel expected step).run
      (Ends (fun k _ => Owns part frame k) fun k _ => Owns part frame k) := by
  unfold waitEvent
  refine Triple.attempt custody_excuses
    (fun k got => (∃ event, got = .ok event ∧ k.stock.Holds part frame ∧ Attached frame ∧
      k.unacked = 1) ∨ (∃ ret, got = .error ret) ∧ Owns part frame k)
    (Triple.lift <| Triple.perform fun k _ h => ⟨fun _ => h.live hchannel, fun got hdoc => ?_⟩)
    fun got => ?_
  · cases got with
    | error ret => exact Or.inr ⟨⟨ret, rfl⟩, h⟩
    | ok event => exact Or.inl ⟨event, rfl, h.holds, h.attached, congrArg (· + 1) h.settled⟩
  cases got with
  | error ret =>
      refine Triple.attempt custody_excuses (fun _ _ => False) (Triple.except fun k h => ?_)
        fun _ _ _ h => h.elim
      rcases h with ⟨event, hgot, _⟩ | ⟨_, h⟩
      · cases hgot
      · exact h
  | ok event =>
      refine Triple.attempt custody_excuses
        (fun k _ => k.stock.Holds part frame ∧ Attached frame ∧ k.unacked = 1)
        (Triple.except fun k h => ?_) fun event => ?_
      · rcases h with ⟨_, _, h⟩ | ⟨⟨_, hgot⟩, _⟩
        · exact h
        · cases hgot
      refine Triple.attempt custody_excuses (fun k _ => Owns part frame k)
        (Triple.lift <| Triple.perform fun k _ h => ⟨fun _ => ?_, fun ack _ => ?_⟩) fun ack => ?_
      · show 0 < k.unacked
        rw [h.2.2]
        exact Nat.one_pos
      · exact ⟨h.1, h.2.1, by show k.unacked - 1 = 0; rw [h.2.2]⟩
      · split
        · exact Triple.except fun k h => h
        · refine Triple.except fun k h => ?_
          exact check_ends (fun _ => h) fun _ _ => h

/-- A step while `conn` has been built: where it fails, that is what is owned. -/
theorem built_keeps {x : Sys α} {post : Custody → α → Prop}
    (h : Keeps pre x.run (Ends post fun k _ => Owns conn.stock frame k)) :
    Keeps pre (built conn x).run (Ends post fun k e => Owns e.2.stock frame k) := by
  unfold built
  refine Triple.attempt custody_excuses _ (Triple.lift h) fun r => ?_
  cases r with
  | ok a => exact Triple.ret fun k h => h
  | error e => exact Triple.ret fun k h => h

/-- The caller of a step that failed drops what was built. -/
theorem orDrop_keeps {x : Build Connection}
    (h : Keeps pre x.run (Ends (fun k conn => Owns conn.stock frame k) fun k e =>
      Owns e.2.stock frame k)) :
    Keeps pre x.orDrop.run (Ends (fun k conn => Owns conn.stock frame k) fun k _ =>
      Owns [] frame k) := by
  unfold Build.orDrop
  refine Triple.attempt custody_excuses _ (Triple.lift h) fun r => ?_
  cases r with
  | ok conn => exact Triple.ret fun k h => h
  | error e =>
      refine Triple.attempt custody_excuses _ (Triple.lift (drop_keeps e.2)) fun _ => ?_
      exact Triple.ret fun k h => h

/-- The handle of a domain that the connection does not keep is dropped. -/
theorem dropPd_keeps {pd : Nat} {β : Type} (e : Fault) (part : Stock Resource) (hpart : conn.stock.Perm part)
    (hof : ∀ e ∈ part, .pd pd ∉ e.2) :
    Keeps (Owns (part ++ [(.pd pd, [])]) frame)
      (do verb (.dropPd pd); throw (e, conn) : Build β).run
      (Ends (fun _ _ => False) fun k e => Owns e.2.stock frame k) := by
  refine Triple.attempt custody_excuses _ (Triple.lift (destroy_keeps (v := .dropPd pd)
    (fun _ _ => rfl) (fun _ hfree _ => hfree) hof List.not_mem_nil fun _ _ h => h)) fun _ => ?_
  exact Triple.ret fun k h => h.perm hpart.symm

theorem createResources_keeps (pd : ProtectionDomain) :
    Keeps (Owns [(.channel channel, []), (.id id, [.channel channel]), (.pd pd.pd, [])] frame)
      (createResources { id := some id, cq := none, pd := none, eventChannel := some channel }
        id pd).run
      (Ends (fun k conn => (.channel channel ∈ conn.stock.live ∧ .id id ∈ conn.stock.live ∧
        .qp id ∈ conn.stock.live) ∧ Owns conn.stock frame k) fun k e => Owns e.2.stock frame k) := by
  unfold createResources
  refine Triple.attempt custody_excuses _ (Triple.lift (use_keeps (fun _ _ => rfl)
    (fun k h => h.live (by simp [Stock.live])) fun _ _ h => h)) fun context => ?_
  refine Triple.attempt custody_excuses _ (Triple.lift createCq_keeps) fun cq => ?_
  cases cq with
  | none =>
      refine (dropPd_keeps _ [(.channel channel, []), (.id id, [.channel channel])] 
        (.refl _) (by simp)).conseq (fun k h => h) fun k r h => ?_
      cases r with
      | ok conn => exact h.elim
      | error e => exact h
  | some cq =>
  dsimp only [checkPtr]
  refine Triple.attempt custody_excuses (fun k ret => Owns ([(.channel channel, []),
    (.id id, [.channel channel]), (.pd pd.pd, []), (.cq cq, [])] ++
      if ret = 0 then [(.qp id, [.id id, .cq cq, .pd pd.pd])] else []) frame k)
    (Triple.lift <| Triple.perform fun k _ h => ⟨fun _ => ?_, fun ret hdoc => ?_⟩) fun ret => ?_
  · have hqp : .qp id ∉ k.stock.live := h.without_qp (by simp [Stock.live]) (by simp [Stock.live, nullable])
    exact ⟨h.live (by simp [Stock.live]), h.live (by simp [Stock.live]),
      h.live (by simp [Stock.live, nullable]), hqp⟩
  · change (k.next (.verb (.createQp id pd.pd cq)) ret).documented = true at hdoc
    change Owns _ frame (k.next (.verb (.createQp id pd.pd cq)) ret)
    unfold Custody.next at hdoc ⊢
    by_cases hret : ret = 0
    · simp only [hret, if_true] at hdoc ⊢
      exact h.make hdoc
    · simp only [hret, if_false] at hdoc ⊢
      exact h
  · unfold check
    by_cases hret : ret = 0
    · simp only [hret, if_true]
      refine Triple.ret fun k h => ⟨by simp [Connection.stock, Connection.pair, Stock.live, nullable], ?_⟩
      refine h.perm ?_
      exact ((List.Perm.swap _ _ _).cons _).trans
        ((List.Perm.swap _ _ _).trans (((List.Perm.swap _ _ _).cons _).cons _))
    · simp only [hret, if_false]
      refine (dropPd_keeps _ [(.channel channel, []), (.cq cq, []), (.id id, [.channel channel])]
         (.refl _) (by simp)).conseq (fun k h => h.perm ?_) fun k r h => ?_
      · exact (((List.Perm.swap _ _ _).cons _).cons _).trans ((List.Perm.swap _ _ _).cons _)
      · cases r with
        | ok conn => exact h.elim
        | error e => exact h

theorem createId_keeps (hchannel : .channel channel ∈ part.live) :
    Keeps (Owns part frame) (do checkOut "rdma_create_id" (← verb (.createId channel)) : Sys Nat).run
      (Ends (fun k id => Owns (part ++ [(.id id, [.channel channel])]) frame k) fun k _ =>
        Owns part frame k) := by
  refine Triple.attempt custody_excuses (fun k got => Owns (part ++
      got.toOption.toList.map fun id => (.id id, [.channel channel])) frame k)
    (Triple.lift <| Triple.perform fun k _ h => ⟨fun _ => h.live hchannel, fun got hdoc => ?_⟩)
    fun got => Triple.except fun k h => ?_
  · cases got with
    | error ret => exact h.nullable_none .id
    | ok id => exact h.make hdoc
  · cases got with
    | error ret => exact (List.append_nil part) ▸ h
    | ok id => exact h

theorem alloc_keeps : Keeps (Owns part frame) (ProtectionDomain.alloc context).run
    (Ends (fun k pd => Owns (part ++ [(.pd pd.pd, [])]) frame k) fun k _ => Owns part frame k) := by
  unfold ProtectionDomain.alloc
  refine Triple.attempt custody_excuses _ (Triple.lift allocPd_keeps) fun pd => ?_
  cases pd with
  | none =>
      refine Triple.attempt custody_excuses (fun _ _ => False) (Triple.except fun k h => ?_)
        fun _ _ _ h => h.elim
      exact (List.append_nil part) ▸ h
  | some pd =>
      exact Triple.attempt custody_excuses (fun k pd => Owns (part ++ [(Resource.pd pd, [])]) frame k)
        (Triple.except fun k h => h) fun pd => Triple.ret fun k h => h

theorem connectTo_keeps :
    Keeps (Owns [(.channel channel, [])] frame)
      (connectTo { id := none, cq := none, pd := none, eventChannel := some channel } channel).run
      (Ends (fun k conn => Owns conn.stock frame k) fun k e => Owns e.2.stock frame k) := by
  unfold connectTo
  refine Triple.attempt custody_excuses _ (built_keeps (createId_keeps (by simp [Stock.live])))
    fun id => ?_
  -- with its id on the channel
  have huse {v : Verb} {f : v.Ans → Except Fault Unit} (hnext : ∀ (k : Custody) a, k.next (.verb v) a = k)
      (hallows : ∀ k : Custody, .id id ∈ k.stock.live → k.Allows v) :
      Keeps (Owns [(.channel channel, []), (.id id, [.channel channel])] frame)
        (built { id := some id, cq := none, pd := none, eventChannel := some channel }
          (do f (← verb v))).run
        (Ends (fun k _ => Owns [(.channel channel, []), (.id id, [.channel channel])] frame k)
          fun k e => Owns e.2.stock frame k) :=
    built_keeps (call_keeps hnext (fun k h => hallows k (h.live (by simp [Stock.live]))) fun _ _ h => h)
  refine Triple.attempt custody_excuses _ (huse (fun _ _ => rfl) fun _ h => h) fun _ => ?_
  refine Triple.attempt custody_excuses _ (built_keeps (waitEvent_keeps (by simp [Stock.live])))
    fun _ => ?_
  refine Triple.attempt custody_excuses _ (huse (fun _ _ => rfl) fun _ h => h) fun _ => ?_
  refine Triple.attempt custody_excuses _ (built_keeps (waitEvent_keeps (by simp [Stock.live])))
    fun _ => ?_
  refine Triple.attempt custody_excuses _ (Triple.lift (use_keeps (fun _ _ => rfl)
    (fun k h => h.live (by simp [Stock.live])) fun _ _ h => h)) fun context => ?_
  refine Triple.attempt custody_excuses _ (built_keeps alloc_keeps) fun pd => ?_
  refine Triple.attempt custody_excuses _ (createResources_keeps pd) fun conn => ?_
  refine Triple.given fun ⟨hchannel, hid, hqp⟩ => ?_
  refine Triple.attempt custody_excuses _ (built_keeps (call_keeps (fun _ _ => rfl)
    (fun k h => ⟨h.live hid, h.live hqp⟩) fun _ _ h => h)) fun _ => ?_
  exact Triple.attempt custody_excuses _ (built_keeps (waitEvent_keeps hchannel)) fun _ =>
    Triple.ret fun k h => h

/-- Operations that are not C calls. -/
def Op.Remote : Op → Prop
  | .verb _ => False
  | _ => True

theorem remote_keeps {p : Code α} (h : Only Op.Remote p) :
    Keeps (Owns part frame) p fun k _ => Owns part frame k := by
  refine Triple.only custody_excuses h fun k o ho _ hk => ?_
  cases o with
  | verb => exact ho.elim
  | _ => exact ⟨trivial, fun _ _ => hk⟩

theorem resolveV4_remote : Only Op.Remote resolveV4.run := by
  unfold resolveV4
  refine only_try (only_lift (only_perform trivial)) fun a => ?_
  rcases a with e | _ | ⟨addr, rest⟩
  · exact only_pure
  · exact only_pure
  · cases addr with
    | v4 => exact only_pure
    | v6 => exact only_pure

/-- **`Connection::connect`** owns what its connection is made of, and nothing where it fails. -/
theorem connect_keeps : Keeps (Owns [] frame) Connection.connect.run
    (Ends (fun k conn => Owns conn.stock frame k) fun k _ => Owns [] frame k) := by
  unfold Connection.connect
  refine Triple.attempt custody_excuses (fun k _ => Owns [] frame k)
    ((remote_keeps resolveV4_remote).conseq (fun _ h => h) fun k r h => ?_) fun _ => ?_
  · cases r with
    | ok u => exact h
    | error e => exact h
  refine Triple.attempt custody_excuses _ (Triple.lift createEventChannel_keeps) fun channel => ?_
  cases channel with
  | none =>
      exact Triple.attempt custody_excuses (fun _ _ => False) (Triple.except fun k h => h)
        fun _ _ _ h => h.elim
  | some channel =>
      refine Triple.attempt custody_excuses (fun k c => c = channel ∧
        Owns [(.channel channel, [])] frame k) (Triple.except fun k h => ⟨rfl, h⟩) fun c => ?_
      exact Triple.given fun hc => hc ▸ orDrop_keeps connectTo_keeps

end Building

/-! ## 5. The sessions of a reader -/

/-- What a slot owns. -/
def GroupConnection.stock (slot : GroupConnection) : Stock Resource :=
  slot.connection.toList.flatMap Connection.stock

namespace RemoteMemoryProvider

/-- What the slots of the sessions own. -/
def stock (st : RemoteMemoryProvider) : Stock Resource :=
  (HashMap.toList st.sessions).flatMap fun e => e.2.connection.stock

/-- What the slots of the other sessions own. -/
def elsewhere (st : RemoteMemoryProvider) (g : UInt32) : Stock Resource :=
  (HashMap.toList (AList.erase g st.sessions)).flatMap fun e => e.2.connection.stock

/-- Updates of the groups in turn, whatever each of them returns. -/
def updates (st : RemoteMemoryProvider) : List UInt32 → Code RemoteMemoryProvider
  | [] => return st
  | g :: gs => do
      let (_, st) ← st.update g
      st.updates gs

end RemoteMemoryProvider

section Sessions

variable {st : RemoteMemoryProvider} {g : UInt32} {frame : Stock Resource} {k : Custody}

theorem connection_closed (conn : Connection) : conn.stock.Closed := by
  obtain ⟨id, cq, pd, channel⟩ := conn
  cases id <;> cases cq <;> cases pd <;> cases channel <;>
    simp [Connection.stock, Connection.pair, nullable, Stock.Closed, Stock.live]

theorem connection_attached (conn : Connection) : Attached conn.stock := by
  obtain ⟨id, cq, pd, channel⟩ := conn
  cases id <;> cases cq <;> cases pd <;> cases channel <;>
    simp [Connection.stock, Connection.pair, nullable, Attached, Stock.live]

theorem slot_closed (slot : GroupConnection) : slot.stock.Closed :=
  Stock.closed_flatMap fun conn _ => connection_closed conn

theorem attached_flatMap {β : Type} {xs : List β} {f : β → Stock Resource}
    (h : ∀ b ∈ xs, Attached (f b)) : Attached (xs.flatMap f) := by
  induction xs with
  | nil => exact attached_nil
  | cons b xs ih =>
      rw [List.flatMap_cons]
      exact (h b List.mem_cons_self).append (ih fun b' hb' => h b' (List.mem_cons_of_mem _ hb'))

theorem slot_attached (slot : GroupConnection) : Attached slot.stock :=
  attached_flatMap fun conn _ => connection_attached conn

theorem elsewhere_closed : (st.elsewhere g).Closed := Stock.closed_flatMap fun _ _ => slot_closed _

theorem elsewhere_attached : Attached (st.elsewhere g) := attached_flatMap fun _ _ => slot_attached _

/-- The group's slot, beside the others. -/
theorem stock_perm (st : RemoteMemoryProvider) (g : UInt32) :
    st.stock.Perm ((st.session g).connection.stock ++ st.elsewhere g) := by
  unfold RemoteMemoryProvider.stock RemoteMemoryProvider.elsewhere RemoteMemoryProvider.session
  cases h : st.sessions.lookup g with
  | none => rw [HashMap.toList_erase_of_none h]; exact .refl _
  | some s => exact (HashMap.toList_perm h).flatMap_right _

theorem stock_setSession (s : GroupSession) :
    (st.setSession g s).stock = s.connection.stock ++ st.elsewhere g := rfl

/-- Another channel in the group's session leaves its slot. -/
theorem Owns.rechannel (h : Owns [] st.stock k) {s : GroupSession}
    (hs : s.connection = (st.session g).connection) : Owns [] (st.setSession g s).stock k := by
  have hperm : st.stock.Perm (st.setSession g s).stock := by
    rw [stock_setSession, hs]
    exact stock_perm st g
  exact h.divide hperm (h.holds.closed.perm hperm) ((slot_attached _).append elsewhere_attached)

/-! ## 6. Updates and the drop -/

theorem send_remote (c : Chan) (m : Message) : Only Op.Remote (Channel.send c m).run := by
  refine only_try (only_lift (only_perform trivial)) fun a => ?_
  obtain ⟨r, n⟩ := a
  cases r with
  | ok u => exact only_pure
  | error e => exact only_pure

theorem receive_remote (c : Chan) : Only Op.Remote (Channel.receive c).run := by
  refine only_try (only_lift (only_perform trivial)) fun a => ?_
  obtain ⟨r, n⟩ := a
  cases r with
  | ok m => exact only_pure
  | error e => exact only_pure

theorem exchange_remote (c : Chan) : Only Op.Remote (receiveExchange c).run :=
  only_try (receive_remote c) fun _ => only_try (receive_remote c) fun _ => only_pure

theorem greet_remote : Only Op.Remote (RemoteMemoryProvider.greet g).run := by
  have hconnect : Only Op.Remote Channel.connect.run := by
    refine only_try (only_lift (only_perform trivial)) fun a => ?_
    cases a with
    | error e => exact only_pure
    | ok c =>
        refine only_try (only_lift (only_perform trivial)) fun armed => ?_
        cases armed with
        | ok u => exact only_pure
        | error e => exact only_pure
  refine only_try hconnect fun c => only_try (send_remote c _) fun _ => ?_
  refine only_try (receive_remote c) fun reply => ?_
  cases reply with
  | welcome version =>
      simp only
      split
      · exact only_pure
      · exact only_try (send_remote c _) fun _ => only_pure
  | hello | wantGroup | update | metadata | tuples => exact only_pure

/-- `ingest` touches no slot. -/
theorem ingestNoted_keeps {exchange : Message × Message} :
    Keeps (Owns [] st.stock) (st.ingestNoted g exchange) fun k r => Owns [] r.2.stock k := by
  unfold RemoteMemoryProvider.ingestNoted
  refine Triple.bind custody_excuses _ (remote_keeps (only_perform trivial)) fun _ =>
    Triple.ret fun k h => ?_
  show Owns [] (st.ingest g exchange).2.stock k
  unfold RemoteMemoryProvider.stock
  rwa [ingest_sessions]

theorem freshSession_keeps :
    Keeps (Owns [] st.stock) (st.freshSession g) fun k r => Owns [] r.2.stock k := by
  unfold RemoteMemoryProvider.freshSession
  refine Triple.bind custody_excuses _ (remote_keeps greet_remote) fun greeted => ?_
  cases greeted with
  | error e => exact Triple.ret fun k h => h
  | ok c =>
  refine Triple.bind custody_excuses _ connect_keeps fun connected => ?_
  cases connected with
  | error e => exact Triple.ret fun k h => h
  | ok conn =>
  -- the new connection is in the slot, and the one that it held is gone
  have hslot (rest : Except Fault (Message × Message) → Code (Except Fault Unit × RemoteMemoryProvider))
      (herror : ∀ e, rest (.error e) = pure (.error e, st.setConnection g conn))
      (hok : ∀ exchange, rest (.ok exchange) =
        ((st.setConnection g conn).setChannel g (some c)).ingestNoted g exchange) :
      Keeps (Owns [] (conn.stock ++ st.elsewhere g)) ((receiveExchange c).run >>= rest)
        fun k r => Owns [] r.2.stock k := by
    refine Triple.bind custody_excuses _ (remote_keeps (exchange_remote c)) fun exchanged => ?_
    have hset : (st.setConnection g conn).stock = conn.stock ++ st.elsewhere g := by
      show [conn].flatMap Connection.stock ++ st.elsewhere g = _
      rw [List.flatMap_singleton]
    rw [← hset]
    cases exchanged with
    | error e =>
        rw [herror]
        exact Triple.ret fun k h => h
    | ok exchange =>
        rw [hok]
        exact ingestNoted_keeps.conseq (fun k h => h.rechannel rfl) fun _ _ h => h
  have hclosed : (conn.stock ++ st.elsewhere g).Closed := (connection_closed conn).append elsewhere_closed
  have hattached : Attached (conn.stock ++ st.elsewhere g) :=
    (connection_attached conn).append elsewhere_attached
  have hperm := (stock_perm st g).append_left conn.stock
  unfold GroupConnection.stock at hperm
  dsimp only
  cases hold : (st.session g).connection.connection with
  | none =>
      rw [hold] at hperm
      exact (hslot _ (fun _ => rfl) fun _ => rfl).conseq
        (fun k h => h.divide hperm hclosed hattached) fun _ _ h => h
  | some old =>
      rw [hold] at hperm
      refine Triple.bind custody_excuses _ ((drop_keeps old).conseq (fun k h => ?_) fun _ _ h => h)
        fun _ => hslot _ (fun _ => rfl) fun _ => rfl
      refine Owns.divide h (hperm.trans ?_) hclosed hattached
      show (conn.stock ++ ([old].flatMap Connection.stock ++ st.elsewhere g)).Perm _
      rw [List.flatMap_singleton, ← List.append_assoc, ← List.append_assoc]
      exact List.perm_append_comm.append_right _

/-- **An update** leaves the reader owning what its slots hold, and nothing else. -/
theorem update_keeps : Keeps (Owns [] st.stock) (st.update g) fun k r => Owns [] r.2.stock k := by
  unfold RemoteMemoryProvider.update
  dsimp only
  refine Triple.conseq (?_ : Keeps (Owns [] (st.setSession g (st.session g)).stock) _ _)
    (fun k h => h.rechannel rfl) fun _ _ h => h
  split
  · next c _ =>
    have hrefresh : Only Op.Remote (refresh c).run :=
      only_try (send_remote c _) fun _ => exchange_remote c
    refine Triple.bind custody_excuses _ (remote_keeps hrefresh) fun r => ?_
    cases r with
    | ok exchange => exact ingestNoted_keeps
    | error e => exact Triple.ret fun k h => h.rechannel rfl
  · exact freshSession_keeps

theorem updates_keeps (st : RemoteMemoryProvider) (gs : List UInt32) :
    Keeps (Owns [] st.stock) (st.updates gs) fun k st' => Owns [] st'.stock k := by
  induction gs generalizing st with
  | nil => exact Triple.ret fun k h => h
  | cons g gs ih => exact Triple.bind custody_excuses _ update_keeps fun r => ih r.2

theorem dropConnections_keeps (sessions : List (UInt32 × GroupSession)) :
    Keeps (Owns [] (sessions.flatMap fun e => e.2.connection.stock))
      (RemoteMemoryProvider.dropConnections sessions) fun k _ => Owns [] [] k := by
  induction sessions with
  | nil => exact Triple.ret fun k h => h
  | cons e sessions ih =>
      obtain ⟨g, s⟩ := e
      unfold RemoteMemoryProvider.dropConnections
      rw [List.flatMap_cons]
      unfold GroupConnection.stock at ih ⊢
      dsimp only
      cases s.connection.connection with
      | none => exact ih
      | some conn =>
          refine Triple.bind custody_excuses _ ((drop_keeps conn).conseq (fun k h => ?_)
            fun _ _ h => h) fun _ => ih
          refine Owns.divide h (.of_eq ?_) ?_ ?_
          · show [conn].flatMap Connection.stock ++ _ = _
            rw [List.flatMap_singleton]
          · exact Stock.closed_flatMap fun e _ => slot_closed e.2.connection
          · exact attached_flatMap fun e _ => slot_attached e.2.connection

/-- What is alive after a trace, from a fresh reader on. -/
def Custody.ofRun (tr : Trace Op Op.Ans) : Custody := custody.after .fresh tr

/-- Every C call of the trace is one that may be made at its point, as long as the C calls before it
    answered as documented. -/
def Cared (tr : Trace Op Op.Ans) : Prop :=
  ∀ pre e post, tr = pre ++ e :: post → (Custody.ofRun pre).May e.1

/-- **A reader takes care of its C resources**: in every run of updates of any groups, whatever the
    network, the remote and the C calls do, no C call gets a handle that is not alive, nothing is
    destroyed twice or before what was made of it, every event is acknowledged, and what is alive
    is what the slots of the sessions hold; the drop leaves nothing, where no region handle keeps
    a slot. -/
theorem reader_custody {gs : List UInt32} {st : RemoteMemoryProvider} {tr : Trace Op Op.Ans}
    (hr : (RemoteMemoryProvider.new.updates gs).Runs tr st) :
    Cared tr ∧ ((Custody.ofRun tr).documented = true → (Custody.ofRun tr).stock.Perm st.stock) ∧
      ∀ tr', st.drop.Runs tr' () → Cared (tr ++ tr') ∧
        ((Custody.ofRun (tr ++ tr')).documented = true → (Custody.ofRun (tr ++ tr')).stock = []) := by
  have hfresh : Owns [] RemoteMemoryProvider.new.stock .fresh :=
    ⟨Stock.holds_nil, attached_nil, rfl⟩
  obtain ⟨hcared, hkept⟩ := (updates_keeps _ gs).runs rfl hfresh hr
  refine ⟨fun pre e post htr => hcared pre e post htr, fun hdoc => (hkept hdoc).holds.perm, ?_⟩
  intro tr' hdrop
  have hlife : Keeps (Owns [] RemoteMemoryProvider.new.stock) (do
      let st ← RemoteMemoryProvider.new.updates gs
      st.drop) fun k _ => Owns [] [] k :=
    Triple.bind custody_excuses _ (updates_keeps _ gs) fun st => dropConnections_keeps _
  obtain ⟨hcared, hkept⟩ := hlife.runs rfl hfresh (runs_bind.mpr ⟨tr, tr', st, rfl, hr, hdrop⟩)
  refine ⟨fun pre e post htr => hcared pre e post htr, fun hdoc => ?_⟩
  exact (hkept hdoc).holds.perm.eq_nil

end Sessions

/-- A device that numbers its handles; the replies of the remote, `none` where a receive fails, and
    the events to come are listed. -/
def numbering (s : Nat × List (Option Message) × List CmEventType) (o : Op) :
    o.Ans × Nat × List (Option Message) × List CmEventType :=
  match o, s with
  | .receive _, (n, reply :: replies, events) =>
      ((reply.elim (.error default) .ok, 0), n, replies, events)
  | .verb (.getCmEvent _), (n, replies, event :: events) => (.ok ⟨0, event, 0⟩, n, replies, events)
  | .verb .createEventChannel, (n, rest) | .verb (.createCq _), (n, rest)
  | .verb (.allocPd _), (n, rest) => (some n, n + 1, rest)
  | .verb (.createId _), (n, rest) => (.ok n, n + 1, rest)
  | .verb (.qpOf _), s => (true, s)
  | o, s => ((friendly ([], []) o).1, s)

/-- A group whose refresh fails, so that the next update sets up another connection. -/
def renewal : Trace Op Op.Ans × RemoteMemoryProvider :=
  (RemoteMemoryProvider.new.updates [7, 7, 7]).drive numbering (0,
    [some (.welcome PROTOCOL_VERSION), some (.metadata []), some (.tuples 7 []), none,
      some (.welcome PROTOCOL_VERSION), some (.metadata []), some (.tuples 7 [])],
    [.addrResolved, .routeResolved, .established, .addrResolved, .routeResolved, .established])

def renewalDrop : Trace Op Op.Ans × Unit := renewal.2.drop.drive numbering (0, [], [])

theorem reader_custody_renewed :
    Cared renewal.1 ∧ (Custody.ofRun renewal.1).stock.Perm renewal.2.stock ∧
      renewal.2.stock.live = [.pd 6, .channel 4, .cq 7, .id 5, .qp 5] ∧
      Cared (renewal.1 ++ renewalDrop.1) ∧ (Custody.ofRun (renewal.1 ++ renewalDrop.1)).stock = [] := by
  have hr : (RemoteMemoryProvider.new.updates [7, 7, 7]).Runs renewal.1 renewal.2 :=
    Prog.drive_runs numbering _ _
  obtain ⟨hcared, hlive, hdrop⟩ := reader_custody hr
  obtain ⟨hcared', hnone⟩ := hdrop renewalDrop.1 (Prog.drive_runs numbering _ _)
  exact ⟨hcared, hlive (by decide +kernel), by decide +kernel, hcared', hnone (by decide +kernel)⟩

end Rdmalib
