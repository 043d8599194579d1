/-
  File:      Rdmalib/System/Hands.lean
  Subject:   What each thread of the provider has in hand of domains and queue pairs.

  * `Hand` -- the handles that a thread holds, the queue pairs that belong to no group and the
    domain of a registration it has not stored; `handling` -- the protocol: a thread uses and
    drops only domains of which it has a handle, and keeps one under what it has in hand;
  * one triple for each function that handles domains, up to the drop of the groups
    (`dropGroups_handles`);
  * result: every loop of the provider follows the protocol (`provider_handles`).
-/
import Rdmalib.Base.Triples
import Rdmalib.System.Domains

namespace Rdmalib

open Base

/-! ## 1. What a thread holds -/

/-- What a thread has in hand. -/
structure Hand where
  role : Tid
  /-- The handles of domains, each as often as it is held. -/
  pds : List Nat := []
  /-- The queue pairs that belong to no group, yet or any more: their ids and domains. -/
  qps : List (Nat × Nat) := []
  /-- The domain of the registration that is not stored yet. -/
  reg : Option Nat := none
  /-- No id with this queue pair was said to have none. -/
  truthful : Bool := true

/-- The queue pair of a connection. -/
def Connection.queuePair (conn : Connection) : Option (Nat × Nat) :=
  conn.id.bind fun id => conn.pd.map fun pd => (id, pd.pd)

/-- The domains of which connections have a handle. -/
def domainsOf (conns : List Connection) : List Nat := conns.filterMap fun conn => conn.pd.map (·.pd)

/-- The domains of which a group and its connections have a handle. -/
def GroupEntry.domains (entry : GroupEntry) : List Nat := entry.pd.pd :: domainsOf entry.connections

namespace Hand

/-- A thread of the provider to which the C calls tell the truth. -/
def Told (k : Hand) : Prop := k.role.isProvider = true ∧ k.truthful = true

/-- Nothing in hand. -/
def Empty (k : Hand) : Prop := k.pds = [] ∧ k.qps = [] ∧ k.reg = none

/-- What a thread may do with what it has in hand. -/
def Allows (k : Hand) : Op → Prop
  | .verb (.clonePd pd) | .verb (.regMr pd _ _) => pd ∈ k.pds
  | .verb (.dropPd pd) =>
      pd ∈ k.pds ∧ k.reg = none ∧ ∀ id, (id, pd) ∈ k.qps → 2 ≤ k.pds.count pd
  | .verb (.createQp _ pd _) => pd ∈ k.pds ∧ k.qps = []
  | .groupsPush _ conn => k.reg = none ∧ ∃ id pd, conn.id = some id ∧ conn.pd = some pd ∧
      k.qps = [(id, pd.pd)] ∧ k.pds = [pd.pd]
  | .takeService | .dropShared | .exit => k.Empty
  | _ => True

/-- What an answered operation changes of it. -/
def changed (k : Hand) : (o : Op) → o.Ans → Hand
  | .verb (.allocPd _), some pd => { k with pds := pd :: k.pds }
  | .verb (.clonePd pd), _ => { k with pds := pd :: k.pds }
  | .verb (.dropPd pd), _ => { k with pds := k.pds.erase pd }
  | .groupsGetPd _, some pd => { k with pds := pd.pd :: k.pds }
  | .verb (.createQp id pd _), ret => if ret = 0 then { k with qps := (id, pd) :: k.qps } else k
  | .verb (.destroyQp id), _ => { k with qps := k.qps.filter (·.1 ≠ id) }
  | .verb (.qpOf id), has =>
      { k with truthful := k.truthful && (has || decide (∀ q ∈ k.qps, q.1 ≠ id)) }
  | .verb (.regMr pd _ _), some _ => { k with reg := some pd }
  | .tuplesInsert _ _ _, _ => { k with reg := none }
  | .groupsPush _ conn, _ =>
      { k with pds := k.pds.erase ((conn.pd.map (·.pd)).getD 0), qps := [] }
  | .dropShared, groups =>
      { k with
        pds := groups.flatMap fun e => e.2.domains
        qps := (groups.flatMap fun e => e.2.connections).filterMap Connection.queuePair }
  | _, _ => k

/-- A reader's domains are its own affair. -/
def next (k : Hand) (o : Op) (a : o.Ans) : Hand := if k.role.isProvider then k.changed o a else k

end Hand

def handling : Protocol Op Op.Ans Hand where
  may k o := k.Told → k.Allows o
  next := Hand.next

theorem Hand.changed_role (k : Hand) (o : Op) (a : o.Ans) : (k.changed o a).role = k.role := by
  fun_cases Hand.changed <;> rfl

theorem Hand.next_role (k : Hand) (o : Op) (a : o.Ans) : (k.next o a).role = k.role := by
  unfold Hand.next
  split
  · exact k.changed_role o a
  · rfl

theorem handling_excuses : Excuses handling Hand.Told where
  may _ _ hk := fun h => (hk h).elim
  stays k o a hk hnext := by
    refine hk ⟨?_, ?_⟩
    · rw [← k.next_role o a]
      exact hnext.1
    · have htrue : (k.next o a).truthful = true := hnext.2
      revert htrue
      unfold Hand.next
      split
      · fun_cases Hand.changed <;> simp +contextual
      · exact id

/-- What holds before and after the code of a thread of the provider. -/
abbrev Handles {α : Type} (pre : Hand → Prop) (p : Code α) (post : Hand → α → Prop) : Prop :=
  Triple handling Hand.Told pre p post

/-- Exactly this is in hand, and no registration. -/
structure Holding (pds : List Nat) (qp : Option (Nat × Nat)) (k : Hand) : Prop where
  pds : k.pds = pds
  qps : k.qps = qp.toList
  reg : k.reg = none

/-! ## 2. The code beside the domains -/

/-- An operation that has nothing to do with domains. -/
def Op.Plain : Op → Prop
  | .verb (.allocPd _) | .verb (.clonePd _) | .verb (.dropPd _) | .verb (.createQp _ _ _)
  | .verb (.destroyQp _) | .verb (.qpOf _) | .verb (.regMr _ _ _) => False
  | .groupsGetPd _ | .groupsPush _ _ | .tuplesInsert _ _ _ | .takeService | .dropShared | .exit => False
  | _ => True

section Plain

variable {α : Type} {pre : Hand → Prop}

theorem act_handles {o : Op} {post : Hand → o.Ans → Prop}
    (h : ∀ k, pre k → k.Allows o ∧ ∀ a, (k.changed o a).Told → post (k.changed o a) a) :
    Handles pre (perform o) post := by
  refine Triple.perform fun k hk hpre => ?_
  have hnext (a : o.Ans) : handling.next k o a = k.changed o a := if_pos hk.1
  refine ⟨fun _ => (h k hpre).1, fun a => ?_⟩
  rw [hnext]
  exact (h k hpre).2 a

theorem plain_op {o : Op} (ho : o.Plain) (k : Hand) (a : o.Ans) :
    k.Allows o ∧ k.changed o a = k := by
  cases o with
  | verb v =>
      cases v with
      | allocPd | clonePd | dropPd | createQp | destroyQp | qpOf | regMr => exact ho.elim
      | _ => exact ⟨trivial, rfl⟩
  | groupsGetPd | groupsPush | tuplesInsert | takeService | dropShared | exit => exact ho.elim
  | _ => exact ⟨trivial, rfl⟩

theorem plain_handles {p : Code α} (h : Only Op.Plain p) : Handles pre p fun k _ => pre k := by
  refine Triple.only handling_excuses h fun k o ho hk hpre => ?_
  refine ⟨fun _ => (plain_op ho k default).1, fun a _ => ?_⟩
  show pre (k.next o a)
  rw [show k.next o a = k.changed o a from if_pos hk.1, (plain_op ho k a).2]
  exact hpre

/-- Such code with early returns. -/
theorem plain_ends {x : Sys α} (h : Only Op.Plain x.run) :
    Handles pre x.run (Ends (fun k _ => pre k) fun k _ => pre k) :=
  (plain_handles h).conseq (fun _ h => h) fun k r h => by
    cases r with
    | ok a => exact h
    | error e => exact h

theorem send_within {C : Op → Prop} (c : Chan) (m : Message) (h : C (.send c m)) :
    Only C (Channel.send c m).run := by
  refine only_try (only_lift (only_perform h)) fun a => ?_
  obtain ⟨r, n⟩ := a
  cases r with
  | ok u => exact only_pure
  | error e => exact only_pure

theorem receive_within {C : Op → Prop} (c : Chan) (h : C (.receive c)) :
    Only C (Channel.receive c).run := by
  refine only_try (only_lift (only_perform h)) fun a => ?_
  obtain ⟨r, n⟩ := a
  cases r with
  | ok m => exact only_pure
  | error e => exact only_pure

theorem channelNew_plain (c : Chan) : Only Op.Plain (Channel.new c).run := by
  refine only_try (only_lift (only_perform trivial)) fun armed => ?_
  cases armed with
  | ok u => exact only_pure
  | error e => exact only_pure

theorem serviceGreet_plain (c : Chan) : Only Op.Plain (Service.greet c).run := by
  refine only_try (receive_within c trivial) fun m => ?_
  cases m with
  | hello version =>
      simp only
      split
      · exact send_within c _ trivial
      · exact only_pure
  | welcome | wantGroup | update | metadata | tuples => exact only_pure

theorem join_plain (c : Chan) : Only Op.Plain (Service.join c).run := by
  refine only_try (receive_within c trivial) fun m => ?_
  cases m with
  | wantGroup g => exact only_pure
  | hello | welcome | update | metadata | tuples => exact only_pure

theorem retainRunning_only {C : Op → Prop} (h : ∀ n, C (.isFinished n)) (sessions : List Nat) :
    Only C (Service.retainRunning sessions) := by
  induction sessions with
  | nil => exact only_pure
  | cons n rest ih =>
      refine only_bind (only_perform (h n)) fun finished => ?_
      cases finished with
      | true => exact ih
      | false => exact only_bind ih fun _ => only_pure

theorem joinAll_only {C : Op → Prop} (h : ∀ n, C (.joinSession n)) (sessions : List Nat) :
    Only C (Service.joinAll sessions) := by
  induction sessions with
  | nil => exact only_pure
  | cons n rest ih => exact only_bind (only_perform (h n)) fun _ => ih

theorem rendezvous_within {C : Op → Prop} {listener : Nat} {g : UInt32} (hget : C (.groupsGetPd g))
    (hcm : ∀ o, CmOp o → C o) : Only C (Service.rendezvous listener g).run := by
  refine only_try (only_lift (only_perform hget)) fun found => ?_
  cases found with
  | none => exact acceptImpl_only.mono hcm
  | some pd =>
      exact only_try (only_lift (acceptImpl_only.mono hcm)) fun r =>
        only_try (only_lift (only_perform (hcm (.verb (.dropPd pd.pd)) trivial))) fun _ => only_except

theorem catalogAndTuples_within {C : Op → Prop} (g : UInt32) (hlist : C .catalogSnapshot)
    (htuple : ∀ o, o.OfTuple → C o) : Only C (Shared.catalogAndTuples g) := by
  have hdescribe (catalog : List (UInt32 × RegionInfo)) : Only C (Shared.describe g catalog) := by
    induction catalog with
    | nil => exact only_pure
    | cons e rest ih =>
        exact only_bind ((tupleOf_only e.1 g).mono htuple) fun _ => only_bind ih fun _ => only_pure
  exact only_bind (only_perform hlist) fun catalog => only_bind (hdescribe catalog) fun _ => only_pure

theorem call_plain {β : Type} {v : Verb} {f : v.Ans → Except Fault β} (h : Op.Plain (.verb v)) :
    Only Op.Plain (do f (← verb v) : Sys β).run :=
  only_try (only_lift (only_perform h)) fun _ => only_except

theorem waitEvent_plain {channel : Nat} {expected : CmEventType} {step : String} :
    Only Op.Plain (waitEvent channel expected step).run := by
  unfold waitEvent
  refine only_try (only_lift (only_perform trivial)) fun a => only_try only_except fun event => ?_
  refine only_try (only_lift (only_perform trivial)) fun ack => ?_
  split
  · exact only_pure
  · exact only_except

/-- The operations of `register_typed` and of `serve`. -/
def Op.OfApp : Op → Prop
  | .toSocketAddrs | .tcpBind | .isServing | .spawnService _ | .nextIdGet | .nextIdSet _
  | .ownersInsert _ _ | .catalogInsert _ _ | .note (.registered _) => True
  | .verb .createEventChannel | .verb (.createId _) | .verb (.bindAddr _) | .verb (.listen _)
  | .verb (.destroyId _) | .verb (.destroyEventChannel _) => True
  | _ => False

theorem plain_of_ofApp {o : Op} (h : o.OfApp) : o.Plain := by
  cases o with
  | verb v =>
      cases v with
      | allocPd | clonePd | dropPd | createQp | destroyQp | qpOf | regMr => exact h
      | _ => trivial
  | groupsGetPd | groupsPush | tuplesInsert | takeService | dropShared | exit => exact h
  | _ => trivial

theorem resolveV4_ofApp : Only Op.OfApp resolveV4.run := by
  unfold resolveV4
  refine only_try (only_lift (only_perform trivial)) fun a => ?_
  rcases a with e | _ | ⟨addr, rest⟩
  · exact only_pure
  · exact only_pure
  · cases addr with
    | v4 => exact only_pure
    | v6 => exact only_pure

theorem bind_ofApp : Only Op.OfApp Listener.bind.run := by
  unfold Listener.bind
  refine only_try resolveV4_ofApp fun _ => ?_
  refine only_try (only_lift (only_perform trivial)) fun _ => only_try only_except fun channel => ?_
  refine only_try (only_lift (only_perform trivial)) fun _ => only_try only_except fun id => ?_
  have hlisten : Only Op.OfApp (do
      check "rdma_bind_addr" (← verb (.bindAddr id))
      check "rdma_listen" (← verb (.listen id)) : Sys Unit).run :=
    only_try (only_lift (only_perform trivial)) fun _ => only_try only_except fun _ =>
      only_try (only_lift (only_perform (o := Op.verb (.listen id)) trivial)) fun _ => only_except
  refine only_try (only_lift hlisten) fun result => ?_
  cases result with
  | ok u => exact only_pure
  | error e =>
      exact only_try (only_lift (only_perform (o := Op.verb (.destroyId id)) trivial)) fun _ =>
        only_try (only_lift (only_perform (o := Op.verb (.destroyEventChannel channel)) trivial))
          fun _ => only_pure

theorem serve_ofApp : Only Op.OfApp serve.run := by
  unfold serve
  refine only_try (only_lift (only_perform trivial)) fun serving => ?_
  cases serving with
  | true => exact only_pure
  | false =>
  refine only_try (only_lift (only_perform trivial)) fun bound => ?_
  cases bound with
  | error e => exact only_pure
  | ok u =>
      exact only_try bind_ofApp fun listener =>
        only_lift (only_perform (o := Op.spawnService listener.eventChannel) trivial)

theorem registerTyped_ofApp (name : String) (buffer : Buffer) :
    Only Op.OfApp (registerTyped name buffer).run := by
  unfold registerTyped
  split
  · exact only_pure
  refine only_try (only_lift (only_perform trivial)) fun id => ?_
  split
  · exact only_pure
  refine only_try (only_lift (only_perform trivial)) fun _ => ?_
  refine only_try (only_lift (only_perform trivial)) fun _ => ?_
  refine only_try (only_lift (only_perform trivial)) fun _ => ?_
  exact only_try (only_lift (only_perform trivial)) fun _ => only_pure

end Plain

/-! ## 3. `tuple_of` -/

section Tuples

variable {pds : List Nat} {qp : Option (Nat × Nat)} {pd : Nat}

/-- A handle is dropped while another is left for the queue pair, if there is one. -/
theorem dropPd_handles (hqp : ∀ id, qp = some (id, pd) → pd ∈ pds) :
    Handles (Holding (pd :: pds) qp) (verb (.dropPd pd)) fun k _ => Holding pds qp k := by
  refine act_handles fun k h => ⟨⟨?_, h.reg, fun id hid => ?_⟩, fun _ _ => ⟨?_, h.qps, h.reg⟩⟩
  · rw [h.pds]
    exact List.mem_cons_self
  · rw [h.qps, Option.mem_toList] at hid
    rw [h.pds, List.count_cons_self]
    have := List.count_pos_iff.mpr (hqp id hid)
    omega
  · show k.pds.erase pd = pds
    rw [h.pds, List.erase_cons_head]

theorem getPd_handles (g : UInt32) :
    Handles (Holding pds qp) (perform (.groupsGetPd g)) fun k found =>
      Holding ((found.map (·.pd)).toList ++ pds) qp k := by
  refine act_handles fun k h => ⟨trivial, fun found _ => ?_⟩
  cases found with
  | none => exact h
  | some pd => exact ⟨congrArg (pd.pd :: ·) h.pds, h.qps, h.reg⟩

/-- A registration was made and is not stored. -/
def Registering (pd : Nat) (k : Hand) : Prop := k.pds = [pd] ∧ k.qps = [] ∧ k.reg = some pd

theorem registerAddr_handles (dom : ProtectionDomain) (addr size : UInt64) :
    Handles (Holding [dom.pd] none)
      (dom.registerAddr (verb (.regMr dom.pd addr size)) addr size : Sys MemoryRegion).run
      (Ends (fun k _ => Registering dom.pd k) fun k _ => Holding [dom.pd] none k) := by
  unfold ProtectionDomain.registerAddr
  split
  · exact Triple.ret fun _ h => h
  · refine Triple.attempt handling_excuses
      (fun k reg => if reg.isSome then Registering dom.pd k else Holding [dom.pd] none k)
      (Triple.lift (act_handles fun k h => ⟨?_, fun reg _ => ?_⟩)) fun reg => ?_
    · show dom.pd ∈ k.pds
      rw [h.pds]
      exact List.mem_singleton_self _
    · cases reg with
      | none => exact h
      | some reg => exact ⟨h.pds, h.qps, rfl⟩
    · cases reg with
      | none => exact Triple.ret fun _ h => h
      | some reg => exact Triple.ret fun _ h => h

/-- `tuple_of` keeps its handle until its registration is stored. -/
theorem tupleOfBody_handles (id g : UInt32) :
    Handles (Holding [] none) (Shared.tupleOfBody id g).run fun k _ => Holding [] none k := by
  have hends {α : Type} {x : Sys α} {pre : Hand → Prop}
      (h : Handles pre x.run (Ends (fun k _ => Holding [] none k) fun k _ => Holding [] none k)) :
      Handles pre x.run fun k _ => Holding [] none k :=
    h.conseq (fun _ h => h) fun k r h => by
      cases r with
      | ok a => exact h
      | error e => exact h
  refine hends ?_
  unfold Shared.tupleOfBody
  refine Triple.attempt handling_excuses _ (Triple.lift (plain_handles (only_perform trivial)))
    fun found => ?_
  cases found with
  | some mr => exact Triple.ret fun _ h => h
  | none =>
  refine Triple.attempt handling_excuses _ (Triple.lift (getPd_handles g)) fun dom => ?_
  cases dom with
  | none => exact Triple.ret fun _ h => h
  | some dom =>
  have hdrop {α : Type} {x : Sys α} (hx : Handles (Holding [] none) x.run
      (Ends (fun k _ => Holding [] none k) fun k _ => Holding [] none k)) :
      Handles (Holding [dom.pd] none) (do verb (.dropPd dom.pd); x : Sys α).run
        (Ends (fun k _ => Holding [] none k) fun k _ => Holding [] none k) :=
    Triple.attempt handling_excuses _ (Triple.lift (dropPd_handles nofun)) fun _ => hx
  refine Triple.attempt handling_excuses _ (Triple.lift (plain_handles (only_perform trivial)))
    fun info => ?_
  cases info with
  | none => exact hdrop (Triple.ret fun _ h => h)
  | some info =>
  refine Triple.attempt handling_excuses _
    (Triple.lift (registerAddr_handles dom info.remoteAddr info.size)) fun r => ?_
  cases r with
  | error e => exact hdrop (Triple.ret fun _ h => h)
  | ok mr =>
      refine Triple.attempt handling_excuses (fun k _ => Holding [dom.pd] none k)
        (Triple.lift (act_handles fun k h => ⟨trivial, fun _ _ => ⟨h.1, h.2.1, rfl⟩⟩)) fun _ => ?_
      exact hdrop (Triple.ret fun _ h => h)

theorem tupleOf_handles (id g : UInt32) :
    Handles (Holding [] none) (Shared.tupleOf id g) fun k _ => Holding [] none k :=
  Triple.bind handling_excuses _ (tupleOfBody_handles id g) fun _ =>
    Triple.bind handling_excuses _ (plain_handles (only_perform trivial)) fun _ =>
      Triple.ret fun _ h => h

theorem describe_handles (g : UInt32) (catalog : List (UInt32 × RegionInfo)) :
    Handles (Holding [] none) (Shared.describe g catalog) fun k _ => Holding [] none k := by
  induction catalog with
  | nil => exact Triple.ret fun _ h => h
  | cons e rest ih =>
      exact Triple.bind handling_excuses _ (tupleOf_handles e.1 g) fun _ =>
        Triple.bind handling_excuses _ ih fun _ => Triple.ret fun _ h => h

theorem catalogAndTuples_handles (g : UInt32) :
    Handles (Holding [] none) (Shared.catalogAndTuples g) fun k _ => Holding [] none k :=
  Triple.bind handling_excuses _ (plain_handles (only_perform trivial)) fun catalog =>
    Triple.bind handling_excuses _ (describe_handles g catalog) fun _ => Triple.ret fun _ h => h

end Tuples

/-! ## 4. The handshake -/

section Handshake

variable {pds : List Nat} {id : Nat}

/-- An id that is said to have no queue pair has none in hand. -/
theorem queried_truly {k : Hand} {has : Bool} (htold : (k.changed (.verb (.qpOf id)) has).Told) :
    has = true ∨ ∀ q ∈ k.qps, q.1 ≠ id := by
  have htrue : (k.truthful && (has || decide (∀ q ∈ k.qps, q.1 ≠ id))) = true := htold.2
  rw [Bool.and_eq_true, Bool.or_eq_true, decide_eq_true_eq] at htrue
  exact htrue.2

/-- After the drop of an id no queue pair of it is in hand. -/
theorem dropId_handles {qp : Option (Nat × Nat)} (hqp : ∀ q ∈ qp, q.1 = id) :
    Handles (Holding pds qp) (Connection.dropId (some id)) fun k _ => Holding pds none k := by
  have hdestroyId : Handles (Holding pds none) (verb (.destroyId id)) fun k _ => Holding pds none k :=
    plain_handles (only_perform trivial)
  unfold Connection.dropId
  refine Triple.bind handling_excuses (fun k has => (has = true ∨ qp = none) ∧ Holding pds qp k)
    (act_handles fun k h => ⟨trivial, fun has htold => ⟨?_, h.pds, h.qps, h.reg⟩⟩) fun has => ?_
  · refine (queried_truly htold).imp_right fun hother => ?_
    rw [h.qps] at hother
    cases qp with
    | none => rfl
    | some q => exact (hother q (List.mem_singleton_self q) (hqp q rfl)).elim
  refine Triple.given fun hhas => ?_
  cases has with
  | false => exact hhas.resolve_left Bool.false_ne_true ▸ hdestroyId
  | true =>
      refine Triple.bind handling_excuses _ (plain_handles (only_perform trivial)) fun _ => ?_
      refine Triple.bind handling_excuses (fun k _ => Holding pds none k)
        (act_handles fun k h => ⟨trivial, fun _ _ => ⟨h.pds, ?_, h.reg⟩⟩) fun _ => hdestroyId
      show k.qps.filter (fun q => decide (q.1 ≠ id)) = []
      rw [h.qps, List.filter_eq_nil_iff]
      simpa using hqp

/-- A connection that the service may drop: the handle of its domain, and its queue pair if there
    is one, are in hand. -/
def Droppable (pds : List Nat) (id : Nat) (conn : Connection) (k : Hand) : Prop :=
  conn.id = some id ∧ ∃ qp, (∀ q ∈ qp, q.1 = id) ∧
    Holding ((conn.pd.map (·.pd)).toList ++ pds) qp k

theorem connectionDrop_handles (conn : Connection) :
    Handles (Droppable pds id conn) conn.drop fun k _ => Holding pds none k := by
  refine Triple.given fun hid => Triple.some fun qp => Triple.given fun hqp => ?_
  unfold Connection.drop
  rw [hid]
  refine Triple.bind handling_excuses _ (dropId_handles hqp) fun _ => ?_
  refine Triple.bind handling_excuses _
    (plain_handles (unlessNull_only fun _ => only_perform trivial)) fun _ => ?_
  refine Triple.bind handling_excuses _
    (plain_handles (unlessNull_only fun _ => only_perform trivial)) fun _ => ?_
  cases conn.pd with
  | none => exact Triple.ret fun _ h => h
  | some pd => exact dropPd_handles nofun

/-- The domain of an accept: the clone of one in hand, or a new one. -/
theorem acceptDomain_handles {found : Option ProtectionDomain} {context : Nat}
    (hfound : ∀ dom ∈ found, dom.pd ∈ pds) :
    Handles (Holding pds none) (acceptDomain found context).run
      (Ends (fun k pd => (∀ dom ∈ found, dom = pd) ∧ Holding (pd.pd :: pds) none k) fun k _ =>
        Holding pds none k) := by
  unfold acceptDomain
  cases found with
  | none =>
      unfold ProtectionDomain.alloc
      refine Triple.attempt handling_excuses (fun k made => Holding (made.toList ++ pds) none k)
        (Triple.lift (act_handles fun k h => ⟨trivial, fun made _ => ?_⟩)) fun made => ?_
      · cases made with
        | none => exact h
        | some pd => exact ⟨congrArg (pd :: ·) h.pds, h.qps, h.reg⟩
      · cases made with
        | none =>
            exact Triple.attempt handling_excuses (fun _ _ => False) (Triple.except fun _ h => h)
              fun _ _ _ h => h.elim
        | some pd =>
            exact Triple.attempt handling_excuses (fun k pd => Holding (pd :: pds) none k)
              (Triple.except fun _ h => h) fun _ => Triple.ret fun _ h => ⟨nofun, h⟩
  | some dom =>
      simp only
      split
      · exact Triple.ret fun _ h => h
      · refine Triple.attempt handling_excuses (fun k _ => Holding (dom.pd :: pds) none k)
          (Triple.lift (act_handles fun k h => ⟨?_, fun _ _ => ?_⟩)) fun _ =>
            Triple.ret fun _ h => ⟨fun _ hdom => (Option.mem_some.mp hdom).symm, h⟩
        · show dom.pd ∈ k.pds
          rw [h.pds]
          exact hfound dom rfl
        · exact ⟨congrArg (dom.pd :: ·) h.pds, h.qps, h.reg⟩

theorem createResources_handles {conn : Connection} {pd : ProtectionDomain}
    (hid : conn.id = some id) (hpd : conn.pd = none) :
    Handles (Holding (pd.pd :: pds) none) (createResources conn id pd).run
      (Ends (fun k conn => (conn.id = some id ∧ conn.pd = some pd) ∧
        Holding (pd.pd :: pds) (some (id, pd.pd)) k) fun k e => Droppable pds id e.2 k) := by
  have hfail {conn : Connection} (e : Fault) (hid : conn.id = some id) (hpd : conn.pd = none) :
      Handles (Holding (pd.pd :: pds) none)
        (do verb (.dropPd pd.pd); throw (e, conn) : Build Connection).run
        (Ends (fun k conn => (conn.id = some id ∧ conn.pd = some pd) ∧
          Holding (pd.pd :: pds) (some (id, pd.pd)) k) fun k e => Droppable pds id e.2 k) := by
    refine Triple.attempt handling_excuses _ (Triple.lift (dropPd_handles nofun)) fun _ => ?_
    refine Triple.ret fun k h => ⟨hid, none, nofun, ?_⟩
    rw [hpd]
    exact h
  unfold createResources
  refine Triple.attempt handling_excuses _ (Triple.lift (plain_handles (only_perform trivial)))
    fun context => ?_
  refine Triple.attempt handling_excuses _ (Triple.lift (plain_handles (only_perform trivial)))
    fun cq => ?_
  cases cq with
  | none => exact hfail _ hid hpd
  | some cq =>
  refine Triple.attempt handling_excuses (fun k ret => Holding (pd.pd :: pds)
    (if ret = 0 then some (id, pd.pd) else none) k)
    (Triple.lift (act_handles fun k h => ⟨⟨?_, h.qps⟩, fun ret _ => ?_⟩)) fun ret => ?_
  · rw [h.pds]
    exact List.mem_cons_self
  · show Holding _ _ (if ret = 0 then { k with qps := (id, pd.pd) :: k.qps } else k)
    by_cases hret : ret = 0
    · rw [if_pos hret, if_pos hret]
      exact ⟨h.pds, congrArg ((id, pd.pd) :: ·) h.qps, h.reg⟩
    · rw [if_neg hret, if_neg hret]
      exact h
  · unfold check
    by_cases hret : ret = 0
    · simp only [hret, if_true]
      exact Triple.ret fun k h => ⟨⟨hid, rfl⟩, h⟩
    · simp only [hret, if_false]
      exact hfail _ hid hpd

/-- A step while `conn` has been built. -/
theorem built_handles {α : Type} {pre : Hand → Prop} {conn : Connection} {x : Sys α}
    {post : Hand → α → Prop}
    (h : Handles pre x.run (Ends post fun k _ => Droppable pds id conn k)) :
    Handles pre (built conn x).run (Ends post fun k e => Droppable pds id e.2 k) := by
  unfold built
  refine Triple.attempt handling_excuses _ (Triple.lift h) fun r => ?_
  cases r with
  | ok a => exact Triple.ret fun _ h => h
  | error e => exact Triple.ret fun _ h => h

/-- A connection that was accepted: its domain, that of the group if there is one, and its queue
    pair are in hand. -/
def Established (found : Option ProtectionDomain) (pds : List Nat) (conn : Connection) (k : Hand) :
    Prop :=
  ∃ id pd, (conn.id = some id ∧ conn.pd = some pd ∧ ∀ dom ∈ found, dom = pd) ∧
    Holding (pd.pd :: pds) (some (id, pd.pd)) k

theorem acceptRequest_handles {channel : Nat} {found : Option ProtectionDomain}
    (hfound : ∀ dom ∈ found, dom.pd ∈ pds) :
    Handles (Holding pds none) (acceptRequest channel id found).run
      (Ends (fun k conn => Established found pds conn k) fun k e => Droppable pds id e.2 k) := by
  unfold acceptRequest
  refine Triple.attempt handling_excuses _ (Triple.lift (plain_handles (only_perform trivial)))
    fun context => ?_
  refine Triple.attempt handling_excuses
    (fun k pd => (∀ dom ∈ found, dom = pd) ∧ Holding (pd.pd :: pds) none k)
    (built_handles ((acceptDomain_handles hfound).conseq (fun _ h => h) fun k r h => ?_)) fun pd => ?_
  · cases r with
    | ok pd => exact h
    | error e => exact ⟨rfl, none, nofun, h⟩
  refine Triple.given fun hdom => ?_
  refine Triple.attempt handling_excuses _ (createResources_handles rfl rfl) fun conn => ?_
  refine Triple.given fun ⟨hid, hpd⟩ => ?_
  -- with its queue pair in the domain
  have hwhole {x : Sys Unit} (hx : Only Op.Plain x.run) :
      Handles (Holding (pd.pd :: pds) (some (id, pd.pd))) (built conn x).run
        (Ends (fun k _ => Holding (pd.pd :: pds) (some (id, pd.pd)) k) fun k e =>
          Droppable pds id e.2 k) := by
    refine built_handles ((plain_ends hx).conseq (fun _ h => h) fun k r h => ?_)
    cases r with
    | ok u => exact h
    | error e =>
        refine ⟨hid, some (id, pd.pd), fun q hq => ?_, ?_⟩
        · obtain rfl := Option.mem_some.mp hq
          rfl
        · rw [hpd]
          exact h
  refine Triple.attempt handling_excuses _ (hwhole (call_plain (v := .accept id) trivial)) fun _ => ?_
  refine Triple.attempt handling_excuses _ (hwhole waitEvent_plain) fun _ => ?_
  exact Triple.ret fun k h => ⟨id, pd, ⟨hid, hpd, hdom⟩, h⟩

theorem acceptImpl_handles {channel : Nat} (found : Option ProtectionDomain)
    (hfound : ∀ dom ∈ found, dom.pd ∈ pds) :
    Handles (Holding pds none) (Listener.acceptImpl channel found).run
      (Ends (fun k conn => Established found pds conn k) fun k _ => Holding pds none k) := by
  unfold Listener.acceptImpl
  refine Triple.attempt handling_excuses _ (Triple.lift (plain_handles (only_perform trivial)))
    fun got => ?_
  refine Triple.attempt handling_excuses _ (plain_ends only_except) fun event => ?_
  refine Triple.attempt handling_excuses _ (Triple.lift (plain_handles (only_perform trivial)))
    fun ack => ?_
  split
  · exact Triple.ret fun _ h => h
  refine Triple.attempt handling_excuses _ (plain_ends only_except) fun _ => ?_
  unfold Build.orDrop
  refine Triple.attempt handling_excuses _ (Triple.lift (acceptRequest_handles hfound)) fun r => ?_
  cases r with
  | ok conn => exact Triple.ret fun _ h => h
  | error e =>
      exact Triple.attempt handling_excuses _ (Triple.lift (connectionDrop_handles e.2)) fun _ =>
        Triple.ret fun _ h => h

theorem rendezvous_handles {listener : Nat} {g : UInt32} :
    Handles (Holding [] none) (Service.rendezvous listener g).run
      (Ends (fun k conn => Established none [] conn k) fun k _ => Holding [] none k) := by
  unfold Service.rendezvous
  refine Triple.attempt handling_excuses _ (Triple.lift (getPd_handles g)) fun found => ?_
  cases found with
  | none => exact acceptImpl_handles none nofun
  | some dom =>
  refine Triple.attempt handling_excuses _ (Triple.lift (acceptImpl_handles
    (some dom) fun dom' hdom => ?_)) fun result => ?_
  · obtain rfl := Option.mem_some.mp hdom
    exact List.mem_cons_self
  -- the service's own handle goes, the connection's stays
  refine Triple.attempt handling_excuses (fun k _ => Ends (fun k conn => Established none [] conn k)
    (fun k _ => Holding [] none k) k result) (Triple.lift ?_) fun _ => Triple.except fun _ h => h
  cases result with
  | error e => exact dropPd_handles nofun
  | ok conn =>
      refine Triple.some fun id => Triple.some fun pd => Triple.given fun ⟨hid, hpd, hdom⟩ => ?_
      obtain rfl := hdom dom rfl
      refine (dropPd_handles fun _ _ => List.mem_singleton_self _).conseq (fun _ h => h)
        fun k _ h => ⟨id, dom, ⟨hid, hpd, nofun⟩, h⟩

theorem handshake_handles {listener : Nat} {stream : Chan} :
    Handles (Holding [] none) (Service.handshake listener stream).run fun k _ =>
      Holding [] none k := by
  refine Triple.conseq (?_ : Handles _ _ (Ends (fun k _ => Holding [] none k) fun k _ =>
    Holding [] none k)) (fun _ h => h) fun k r h => ?_
  · unfold Service.handshake
    refine Triple.attempt handling_excuses _ (plain_ends (channelNew_plain stream)) fun c => ?_
    refine Triple.attempt handling_excuses _ (plain_ends (serviceGreet_plain c)) fun _ => ?_
    refine Triple.attempt handling_excuses _ (plain_ends (join_plain c)) fun g => ?_
    refine Triple.attempt handling_excuses _ rendezvous_handles fun conn => ?_
    refine Triple.attempt handling_excuses (fun k _ => Holding [] none k) ?_ fun _ => ?_
    · -- both move into the group
      have hpush : Handles (Established none [] conn) (perform (.groupsPush g conn)) fun k _ =>
          Holding [] none k := by
        refine act_handles fun k ⟨id, pd, ⟨hid, hpd, _⟩, h⟩ => ?_
        refine ⟨⟨h.reg, id, pd, hid, hpd, h.qps, h.pds⟩, fun _ _ => ⟨?_, rfl, h.reg⟩⟩
        show k.pds.erase ((conn.pd.map (·.pd)).getD 0) = []
        rw [h.pds, hpd]
        exact List.erase_cons_head _ _
      refine hpush.conseq (fun _ h => h) fun k r h => ?_
      cases r with
      | ok u => exact h
      | error e => exact h
    · refine Triple.attempt handling_excuses _ (Triple.lift (catalogAndTuples_handles g)) fun _ => ?_
      refine Triple.attempt handling_excuses _ (plain_ends (send_within c _ trivial)) fun _ => ?_
      refine Triple.attempt handling_excuses _ (plain_ends (send_within c _ trivial)) fun _ => ?_
      exact Triple.lift (plain_handles (only_perform trivial))
  · cases r with
    | ok n => exact h
    | error e => exact h

end Handshake

/-! ## 5. The drop of the groups -/

/-- These handles are left to drop, and no queue pair but of these connections. -/
structure Freeing (pds : List Nat) (conns : List Connection) (k : Hand) : Prop where
  pds : k.pds = pds
  qps : ∀ q ∈ k.qps, ∃ conn ∈ conns, conn.queuePair = some q
  reg : k.reg = none

section Drop

variable {pds : List Nat} {conns : List Connection} {conn : Connection} {k : Hand}

theorem queuePair_eq {q : Nat × Nat} (h : conn.queuePair = some q) :
    conn.id = some q.1 ∧ ∃ pd, conn.pd = some pd ∧ pd.pd = q.2 := by
  obtain ⟨id, hid, h⟩ := Option.bind_eq_some_iff.mp h
  obtain ⟨pd, hpd, rfl⟩ := Option.map_eq_some_iff.mp h
  exact ⟨hid, pd, hpd, rfl⟩

theorem domainsOf_cons (conn : Connection) (conns : List Connection) :
    domainsOf (conn :: conns) = (conn.pd.map (·.pd)).toList ++ domainsOf conns := by
  unfold domainsOf
  rw [List.filterMap_cons]
  cases conn.pd <;> rfl

/-- A connection without a queue pair in hand is off the list. -/
theorem Freeing.without (h : Freeing pds (conn :: conns) k) (hid : ∀ q ∈ k.qps, conn.id ≠ some q.1) :
    Freeing pds conns k := by
  refine ⟨h.pds, fun q hq => ?_, h.reg⟩
  obtain ⟨c, hc, hpair⟩ := h.qps q hq
  rcases List.mem_cons.mp hc with rfl | hc
  · exact absurd (queuePair_eq hpair).1 (hid q hq)
  · exact ⟨c, hc, hpair⟩

/-- A handle is dropped while each of the connections left has another of its domain. -/
theorem dropPd_frees {pd : Nat} (hpds : ∀ c ∈ conns, ∀ dom ∈ c.pd, dom.pd ∈ pds) :
    Handles (Freeing (pd :: pds) conns) (verb (.dropPd pd)) fun k _ => Freeing pds conns k := by
  refine act_handles fun k h => ⟨⟨?_, h.reg, fun id hid => ?_⟩, fun _ _ => ⟨?_, h.qps, h.reg⟩⟩
  · rw [h.pds]
    exact List.mem_cons_self
  · obtain ⟨c, hc, hpair⟩ := h.qps _ hid
    obtain ⟨_, dom, hdom, rfl⟩ := queuePair_eq hpair
    rw [h.pds, List.count_cons_self]
    have := List.count_pos_iff.mpr (hpds c hc dom hdom)
    omega
  · show k.pds.erase pd = pds
    rw [h.pds, List.erase_cons_head]

/-- The drop of an id takes the connection's queue pair out of hand. -/
theorem dropId_frees : Handles (Freeing pds (conn :: conns)) (Connection.dropId conn.id)
    fun k _ => Freeing pds conns k := by
  cases hid : conn.id with
  | none => exact Triple.ret fun _ h => h.without fun _ _ => hid ▸ nofun
  | some id =>
  have hdestroyId : Handles (Freeing pds conns) (verb (.destroyId id)) fun k _ => Freeing pds conns k :=
    plain_handles (only_perform trivial)
  have hdisconnect : Handles (Freeing pds (conn :: conns)) (verb (.disconnect id))
      fun k _ => Freeing pds (conn :: conns) k := plain_handles (only_perform trivial)
  have hother {q : Nat × Nat} (hq : q.1 ≠ id) : conn.id ≠ some q.1 := by
    rw [hid]
    exact fun e => hq (Option.some.inj e).symm
  unfold Connection.dropId
  refine Triple.bind handling_excuses
    (fun k has => (has = true ∨ Freeing pds conns k) ∧ Freeing pds (conn :: conns) k)
    (act_handles fun k h => ⟨trivial, fun has htold => ⟨?_, h.pds, h.qps, h.reg⟩⟩) fun has => ?_
  · refine (queried_truly htold).imp_right fun hnone => ?_
    exact Freeing.without (k := k.changed (.verb (.qpOf id)) has) ⟨h.pds, h.qps, h.reg⟩
      fun q hq => hother (hnone q hq)
  cases has with
  | false =>
      exact hdestroyId.conseq (fun _ h => h.1.resolve_left Bool.false_ne_true) fun _ _ h => h
  | true =>
      refine Triple.bind handling_excuses (fun k _ => Freeing pds (conn :: conns) k)
        (hdisconnect.conseq (fun _ h => h.2) fun _ _ h => h) fun _ => ?_
      refine Triple.bind handling_excuses (fun k _ => Freeing pds conns k)
        (act_handles fun k h => ⟨trivial, fun _ _ => ?_⟩) fun _ => hdestroyId
      have hkept (q : Nat × Nat) (hq : q ∈ k.qps.filter (·.1 ≠ id)) : q ∈ k.qps ∧ q.1 ≠ id := by
        simpa using List.mem_filter.mp hq
      exact Freeing.without (k := k.changed (.verb (.destroyQp id)) ())
        ⟨h.pds, fun q hq => h.qps q (hkept q hq).1, h.reg⟩ fun q hq => hother (hkept q hq).2

/-- A connection is dropped, before others that have handles of their domains. -/
theorem connectionDrop_frees (hpds : ∀ c ∈ conns, ∀ dom ∈ c.pd, dom.pd ∈ pds) :
    Handles (Freeing ((conn.pd.map (·.pd)).toList ++ pds) (conn :: conns)) conn.drop
      fun k _ => Freeing pds conns k := by
  unfold Connection.drop
  refine Triple.bind handling_excuses _ dropId_frees fun _ => ?_
  refine Triple.bind handling_excuses _
    (plain_handles (unlessNull_only fun _ => only_perform trivial)) fun _ => ?_
  refine Triple.bind handling_excuses _
    (plain_handles (unlessNull_only fun _ => only_perform trivial)) fun _ => ?_
  cases conn.pd with
  | none => exact Triple.ret fun _ h => h
  | some pd => exact dropPd_frees hpds

/-- The connections of a group are dropped, before those of other groups. -/
theorem dropAll_frees {others : List Connection} (hpds : ∀ c ∈ others, ∀ dom ∈ c.pd, dom.pd ∈ pds) :
    Handles (Freeing (domainsOf conns ++ pds) (conns ++ others)) (Connection.dropAll conns)
      fun k _ => Freeing pds others k := by
  induction conns with
  | nil => exact Triple.ret fun _ h => h
  | cons conn rest ih =>
      rw [domainsOf_cons, List.append_assoc]
      refine Triple.bind handling_excuses _ (connectionDrop_frees fun c hc dom hdom => ?_) fun _ => ih
      rcases List.mem_append.mp hc with hc | hc
      · exact List.mem_append_left _ (List.mem_filterMap.mpr ⟨c, hc, by rw [hdom]; rfl⟩)
      · exact List.mem_append_right _ (hpds c hc dom hdom)

theorem mem_domains_flat {groups : List (UInt32 × GroupEntry)} {c : Connection}
    (hc : c ∈ groups.flatMap fun e => e.2.connections) {dom : ProtectionDomain} (hdom : dom ∈ c.pd) :
    dom.pd ∈ groups.flatMap fun e => e.2.domains := by
  obtain ⟨e, he, hmem⟩ := List.mem_flatMap.mp hc
  exact List.mem_flatMap.mpr ⟨e, he, List.mem_cons_of_mem _
    (List.mem_filterMap.mpr ⟨c, hmem, by rw [hdom]; rfl⟩)⟩

/-- **The drop of the groups drops every handle and destroys every queue pair that they have.** -/
theorem dropGroups_handles (groups : List (UInt32 × GroupEntry)) :
    Handles (Freeing (groups.flatMap fun e => e.2.domains) (groups.flatMap fun e => e.2.connections))
      (Shared.dropGroups groups) fun k _ => Holding [] none k := by
  induction groups with
  | nil =>
      refine Triple.ret fun k h => ⟨h.pds, List.eq_nil_iff_forall_not_mem.mpr fun q hq => ?_, h.reg⟩
      obtain ⟨_, hc, _⟩ := h.qps q hq
      cases hc
  | cons e rest ih =>
      rw [List.flatMap_cons, List.flatMap_cons]
      refine Triple.bind handling_excuses _ ?_ fun _ => ih
      unfold GroupEntry.drop
      refine Triple.bind handling_excuses _ (dropPd_frees fun c hc dom hdom => ?_) fun _ =>
        dropAll_frees fun c hc dom hdom => mem_domains_flat hc hdom
      rcases List.mem_append.mp hc with hc | hc
      · exact List.mem_append_left _ (List.mem_filterMap.mpr ⟨c, hc, by rw [hdom]; rfl⟩)
      · exact List.mem_append_right _ (mem_domains_flat hc hdom)

/-- What the maps of `Shared` held is in hand, and is dropped. -/
theorem sharedDrop_handles : Handles (Holding [] none) Shared.drop fun k _ => Holding [] none k := by
  refine Triple.bind handling_excuses
    (fun k groups => Freeing (groups.flatMap fun e => e.2.domains)
      (groups.flatMap fun e => e.2.connections) k)
    (act_handles fun k h => ⟨⟨h.pds, h.qps, h.reg⟩, fun groups _ => ⟨rfl, fun q hq => ?_, h.reg⟩⟩)
    dropGroups_handles
  exact List.mem_filterMap.mp hq

end Drop

/-! ## 6. The threads -/

/-- Between two turns of a loop that the protocol of the system lets it run, a thread has nothing
    in hand. -/
structure HandEntry (k : Hand) (l : Loop) : Prop where
  empty : k.Told → k.Empty
  runs : ∃ know, entry know l ∧ know.role = k.role

section Threads

variable {listener : Nat} {sessions : List Nat} {c : Chan} {g : UInt32}

theorem Holding.empty {k : Hand} (h : Holding [] none k) : k.Empty := ⟨h.pds, h.qps, h.reg⟩

theorem exit_handles : Handles (Holding [] none) (do perform .exit; return none : Code (Option Loop))
    fun k _ => Holding [] none k :=
  Triple.bind handling_excuses _ (act_handles fun _ h => ⟨h.empty, fun _ _ => h⟩) fun _ =>
    Triple.ret fun _ h => h

theorem leave_handles (e : Fault) :
    Handles (Holding [] none) (SessionThread.leave e) fun k _ => Holding [] none k := by
  cases e with
  | err => exact exit_handles
  | panic =>
      exact Triple.bind handling_excuses _ (plain_handles (only_perform trivial)) fun _ => exit_handles

theorem serviceRun_handles :
    Handles (Holding [] none) (Service.run listener sessions) fun k _ => Holding [] none k := by
  have hretain (sessions : List Nat) : Handles (Holding [] none) (do
      return some (Loop.service listener (← Service.retainRunning sessions)) : Code (Option Loop))
      fun k _ => Holding [] none k :=
    plain_handles (only_bind (retainRunning_only (fun _ => trivial) sessions) fun _ => only_pure)
  unfold Service.run
  refine Triple.bind handling_excuses _ (plain_handles (only_perform trivial)) fun shutdown => ?_
  cases shutdown with
  | true =>
      exact Triple.bind handling_excuses _
        (plain_handles (joinAll_only (fun _ => trivial) sessions)) fun _ => exit_handles
  | false =>
  refine Triple.bind handling_excuses _ (plain_handles (only_perform trivial)) fun accepted => ?_
  cases accepted with
  | none => exact hretain sessions
  | some stream =>
  refine Triple.bind handling_excuses _ handshake_handles fun r => ?_
  rcases r with (e | _) | session
  · exact hretain sessions
  · exact plain_handles (only_bind (only_perform trivial) fun _ => only_pure)
  · exact hretain _

theorem waitForUpdates_handles :
    Handles (Holding [] none) (SessionThread.waitForUpdates c g) fun k _ => Holding [] none k := by
  unfold SessionThread.waitForUpdates
  refine Triple.bind handling_excuses _ (plain_handles (only_perform trivial)) fun shutdown => ?_
  cases shutdown with
  | true => exact exit_handles
  | false =>
  refine Triple.bind handling_excuses _ (plain_handles (receive_within c trivial)) fun r => ?_
  rcases r with e | m
  · exact leave_handles e
  cases m with
  | hello | welcome | wantGroup | metadata | tuples => exact exit_handles
  | update =>
      refine Triple.bind handling_excuses _ (catalogAndTuples_handles g) fun exchange => ?_
      refine Triple.bind handling_excuses _ (plain_handles
        (only_try (send_within c _ trivial) fun _ => send_within c _ trivial)) fun sent => ?_
      cases sent with
      | error e => exact leave_handles e
      | ok u => exact Triple.ret fun _ h => h

theorem appTurn_handles :
    Handles (Holding [] none) appTurn fun k _ => Holding [] none k := by
  unfold appTurn
  refine Triple.bind handling_excuses _ (plain_handles (only_perform trivial)) fun call => ?_
  cases call with
  | registerTyped name buffer =>
      exact plain_handles (only_bind
        ((registerTyped_ofApp name buffer).mono fun _ => plain_of_ofApp) fun r =>
          only_bind (unwinds_only trivial r) fun _ => only_pure)
  | getSharedMr id g =>
      exact Triple.bind handling_excuses _ (tupleOf_handles id g) fun r =>
        plain_handles (only_bind (unwinds_only trivial r) fun _ => only_pure)
  | serve => exact plain_handles (only_bind
      (serve_ofApp.mono fun _ => plain_of_ofApp) fun r =>
        only_bind (unwinds_only trivial r) fun _ => only_pure)
  | drop =>
      refine Triple.bind handling_excuses _ ?_ fun _ => exit_handles
      unfold SharedMemoryRegionProvider.drop
      refine Triple.bind handling_excuses (fun k _ => Holding [] none k)
        (act_handles fun k h => ⟨h.empty, fun _ _ => h⟩) fun serving => ?_
      have hclear : Handles (Holding [] none) (do
          perform .tuplesClear
          Shared.drop
          perform .dropOwners : Code Unit) fun k _ => Holding [] none k :=
        Triple.bind handling_excuses _ (plain_handles (only_perform trivial)) fun _ =>
          Triple.bind handling_excuses _ sharedDrop_handles fun _ =>
            plain_handles (only_perform trivial)
      cases serving with
      | false => exact hclear
      | true =>
          have hstop : Only Op.Plain ServiceThread.stop :=
            only_bind (only_perform trivial) fun _ => only_perform trivial
          exact Triple.bind handling_excuses _ (plain_handles hstop) fun _ => hclear

/-- **Every loop of the provider handles its domains so.** -/
theorem provider_handles : provider.Follows handling HandEntry where
  turn k l h := by
    obtain ⟨know, hentry, hrole⟩ := h.runs
    -- a turn that starts with nothing in hand ends with nothing in hand
    have hturn (hp : k.Told → Handles (Holding [] none) (code l) fun k _ => Holding [] none k) :
        Follows handling k (code l) fun k' _ => k'.Told → k'.Empty := by
      by_cases hk : k.Told
      · obtain ⟨hpds, hqps, hreg⟩ := h.empty hk
        exact (hp hk k hk ⟨hpds, hqps, hreg⟩).mono fun k' _ h hk' => (h hk').empty
      · exact (handling_excuses.follows hk _).mono fun k' _ h hk' => (h hk').elim
    have houtside (hrole : k.role.isProvider = false) (hk : k.Told) : False :=
      absurd (hrole.symm.trans hk.1) Bool.false_ne_true
    have hempty : Follows handling k (code l) fun k' _ => k'.Told → k'.Empty := by
      cases l with
      | app => exact hturn fun _ => appTurn_handles
      | serviceStart | sessionStart =>
          exact hturn fun _ => plain_handles (only_bind (only_perform trivial) fun _ => only_pure)
      | service listener sessions => exact hturn fun _ => serviceRun_handles
      | session c g => exact hturn fun _ => waitForUpdates_handles
      | reader st =>
          obtain ⟨i, hi⟩ := hentry
          exact hturn fun hk => (houtside (by rw [← hrole, hi]; rfl) hk).elim
      | net => exact hturn fun hk => (houtside (by rw [← hrole, hentry]; rfl) hk).elim
    have hnext := (provider_follows.turn know l hentry).keeps Know.role next_role
    refine ((hempty.keeps Hand.role Hand.next_role).both hnext).mono fun k' r hr l' hl' => ?_
    obtain ⟨⟨hk', hrole'⟩, know', hl, hknow'⟩ := hr
    exact ⟨hk', know', hl l' hl', by rw [hknow', hrole, hrole']⟩

end Threads

end Rdmalib
