/-
  File:      Rdmalib/System/Endurance.lean
  Subject:   How long the threads of the provider live, whatever readers and devices do.

  * `Lasting` -- what a thread knows of its end: whether the group refused a connection, whether the
    shutdown was seen; `lasting` -- the protocol: where no connection was refused only the
    application panics, and the service ends only after it has seen the shutdown;
  * `Enduring` -- what the threads know of their ends is what the world shows;
  * result: no thread that the provider starts panics, and the service ends only after the drop of
    the provider has told it to and all its sessions have ended (`service_endures`).
-/
import Rdmalib.System.Handles

namespace Rdmalib

open Base

/-! ## 1. The end of a thread -/

/-- What a thread knows of its end. -/
structure Lasting where
  role : Tid
  /-- A connection was refused by its group. -/
  refused : Bool := false
  saw : Bool := false
  ended : Bool := false

namespace Lasting

/-- A thread of the provider whose connections were all taken. -/
def Admitted (k : Lasting) : Prop := k.role.isProvider = true ∧ k.refused = false

def Allows (k : Lasting) : Op → Prop
  | .exit => k.role = .service → k.saw = true
  | .note .panicked => k.role = .app
  | _ => True

def next (k : Lasting) : (o : Op) → o.Ans → Lasting
  | .groupsPush _ _, .error _ => { k with refused := true }
  | .loadShutdown, saw => { k with saw := k.saw || saw }
  | .exit, _ => { k with ended := true }
  | _, _ => k

end Lasting

def lasting : Protocol Op Op.Ans Lasting where
  may k o := k.Admitted → k.Allows o
  next := Lasting.next

theorem Lasting.next_role (k : Lasting) (o : Op) (a : o.Ans) : (k.next o a).role = k.role := by
  fun_cases Lasting.next <;> rfl

theorem lasting_excuses : Excuses lasting Lasting.Admitted where
  may _ _ hk := fun h => (hk h).elim
  stays k o a hk hnext := by
    refine hk ⟨?_, ?_⟩
    · rw [← k.next_role o a]
      exact hnext.1
    · have hfalse : (k.next o a).refused = false := hnext.2
      revert hfalse
      fun_cases Lasting.next <;> simp

/-- What holds before and after the code of a thread of the provider. -/
abbrev Lasts {α : Type} (pre : Lasting → Prop) (p : Code α) (post : Lasting → α → Prop) : Prop :=
  Triple lasting Lasting.Admitted pre p post

/-- An operation that has nothing to do with the end of a thread. -/
def Op.Minor : Op → Prop
  | .exit | .loadShutdown | .groupsPush _ _ | .note .panicked => False
  | _ => True

section Minor

variable {α : Type} {pre : Lasting → Prop}

theorem minor_op {o : Op} (ho : o.Minor) (k : Lasting) (a : o.Ans) : k.Allows o ∧ k.next o a = k := by
  cases o with
  | exit | loadShutdown | groupsPush => exact ho.elim
  | note n =>
      cases n with
      | panicked => exact ho.elim
      | _ => exact ⟨trivial, rfl⟩
  | _ => exact ⟨trivial, rfl⟩

theorem minor_lasts {p : Code α} (h : Only Op.Minor p) : Lasts pre p fun k _ => pre k := by
  refine Triple.only lasting_excuses h fun k o ho _ hpre => ?_
  refine ⟨fun _ => (minor_op ho k default).1, fun a _ => ?_⟩
  show pre (k.next o a)
  rw [(minor_op ho k a).2]
  exact hpre

theorem minor_of {C : Op → Prop} (hexit : ¬ C .exit) (hload : ¬ C .loadShutdown)
    (hpush : ∀ g conn, ¬ C (.groupsPush g conn)) (hpanic : ¬ C (.note .panicked)) {o : Op}
    (h : C o) : o.Minor := by
  cases o with
  | exit => exact hexit h
  | loadShutdown => exact hload h
  | groupsPush g conn => exact hpush g conn h
  | note n =>
      cases n with
      | panicked => exact hpanic h
      | _ => trivial
  | _ => trivial

theorem minor_of_cmOp {o : Op} (h : CmOp o) : o.Minor := minor_of id id (fun _ _ => id) id h

theorem minor_of_ofApp {o : Op} (h : o.OfApp) : o.Minor := minor_of id id (fun _ _ => id) id h

theorem minor_of_ofTuple {o : Op} (h : o.OfTuple) : o.Minor := minor_of id id (fun _ _ => id) id h

end Minor

/-! ## 2. Code that does not panic -/

/-- Whatever it is answered, the code fails with errors of `E` only. -/
def Throws {ε α : Type} (E : ε → Prop) (x : ExceptT ε Code α) : Prop :=
  Lasts (fun _ => True) x.run (Ends (fun _ _ => True) fun _ e => E e)

/-- The code does not panic. -/
abbrev Calm {α : Type} (x : Sys α) : Prop := Throws (· ≠ .panic) x

/-- Nor does code that builds a connection. -/
abbrev CalmBuild {α : Type} (x : Build α) : Prop := Throws (·.1 ≠ .panic) x

section Calm

variable {ε α β : Type} {E : ε → Prop}

theorem throws_pure {a : α} : Throws E (pure a) := Triple.ret fun _ _ => trivial

theorem throws_error {e : ε} (h : E e) : Throws E (throw e : ExceptT ε Code α) :=
  Triple.ret (a := Except.error e) fun _ _ => h

theorem throws_bind {x : ExceptT ε Code α} {f : α → ExceptT ε Code β} (hx : Throws E x)
    (hf : ∀ a, Throws E (f a)) : Throws E (x >>= f) :=
  Triple.attempt lasting_excuses _ hx hf

theorem throws_code {p : Code α} (h : Only Op.Minor p) : Throws E (liftM p : ExceptT ε Code α) :=
  Triple.lift (minor_lasts h)

theorem throws_verb {v : Verb} : Throws E (liftM (verb v) : ExceptT ε Code v.Ans) :=
  throws_code (only_perform trivial)

theorem throws_except {r : Except ε α} (h : ∀ e, r = .error e → E e) :
    Throws E (liftM r : ExceptT ε Code α) :=
  Triple.except fun _ _ => by
    cases r with
    | ok a => trivial
    | error e => exact h e rfl

theorem calm_check {call : String} {ret : Int} :
    Calm (liftM (check call ret) : Sys Unit) := by
  refine throws_except fun e he => ?_
  unfold check at he
  split at he
  · cases he
  · cases he
    exact Fault.noConfusion

theorem calm_checkOut {call : String} {r : Except Int α} : Calm (liftM (checkOut call r) : Sys α) := by
  refine throws_except fun e he => ?_
  cases r with
  | ok a => cases he
  | error ret =>
      cases he
      exact Fault.noConfusion

theorem calm_checkPtr {call : String} {r : Option α} : Calm (liftM (checkPtr call r) : Sys α) := by
  refine throws_except fun e he => ?_
  cases r with
  | some a => cases he
  | none =>
      cases he
      exact Fault.noConfusion

theorem calm_built {conn : Connection} {x : Sys α} (h : Calm x) : CalmBuild (built conn x) := by
  refine Triple.attempt lasting_excuses _ (Triple.lift h) fun r => ?_
  cases r with
  | ok a => exact Triple.ret fun _ _ => trivial
  | error e => exact Triple.ret (a := Except.error (e, conn)) fun _ h => h

end Calm

section Handshake

variable {α : Type} {c : Chan} {channel id : Nat}

theorem channelNew_calm : Calm (Channel.new c) := by
  refine throws_bind (throws_code (only_perform trivial)) fun armed => ?_
  cases armed with
  | ok u => exact throws_pure
  | error e => exact throws_error Fault.noConfusion

theorem send_calm {m : Message} : Calm (Channel.send c m) := by
  refine throws_bind (throws_code (only_perform trivial)) fun a => ?_
  obtain ⟨r, n⟩ := a
  cases r with
  | ok u => exact throws_pure
  | error e => exact throws_error Fault.noConfusion

theorem receive_calm : Calm (Channel.receive c) := by
  refine throws_bind (throws_code (only_perform trivial)) fun a => ?_
  obtain ⟨r, n⟩ := a
  cases r with
  | ok m => exact throws_pure
  | error e => exact throws_error Fault.noConfusion

theorem greet_calm : Calm (Service.greet c) := by
  refine throws_bind receive_calm fun m => ?_
  cases m with
  | hello version =>
      simp only
      split
      · exact send_calm
      · exact throws_error Fault.noConfusion
  | welcome | wantGroup | update | metadata | tuples => exact throws_error Fault.noConfusion

theorem join_calm : Calm (Service.join c) := by
  refine throws_bind receive_calm fun m => ?_
  cases m with
  | wantGroup g => exact throws_pure
  | hello | welcome | update | metadata | tuples => exact throws_error Fault.noConfusion

theorem waitEvent_calm {expected : CmEventType} {step : String} :
    Calm (waitEvent channel expected step) := by
  refine throws_bind throws_verb fun a => throws_bind calm_checkOut fun event => ?_
  refine throws_bind throws_verb fun ack => ?_
  split
  · exact throws_error Fault.noConfusion
  · exact calm_check

theorem acceptDomain_calm {found : Option ProtectionDomain} {context : Nat} :
    Calm (acceptDomain found context) := by
  unfold acceptDomain
  cases found with
  | none =>
      exact throws_bind throws_verb fun _ => throws_bind calm_checkPtr fun _ => throws_pure
  | some dom =>
      simp only
      split
      · exact throws_error Fault.noConfusion
      · exact throws_bind throws_verb fun _ => throws_pure

theorem createResources_calm {conn : Connection} {pd : ProtectionDomain} :
    CalmBuild (createResources conn id pd) := by
  have hfail {e : Fault} (conn : Connection) (he : e ≠ .panic) :
      CalmBuild (do verb (.dropPd pd.pd); throw (e, conn) : Build Connection) :=
    throws_bind throws_verb fun _ => throws_error he
  refine throws_bind throws_verb fun context => throws_bind throws_verb fun cq => ?_
  cases cq with
  | none => exact hfail conn Fault.noConfusion
  | some cq =>
      refine throws_bind throws_verb fun ret => ?_
      unfold check
      by_cases hret : ret = 0
      · simp only [hret, if_true]
        exact throws_pure
      · simp only [hret, if_false]
        exact hfail _ Fault.noConfusion

theorem acceptRequest_calm {found : Option ProtectionDomain} :
    CalmBuild (acceptRequest channel id found) := by
  refine throws_bind throws_verb fun context => throws_bind (calm_built acceptDomain_calm) fun pd => ?_
  refine throws_bind createResources_calm fun conn => ?_
  refine throws_bind (calm_built (throws_bind throws_verb fun _ => calm_check)) fun _ => ?_
  exact throws_bind (calm_built waitEvent_calm) fun _ => throws_pure

theorem acceptImpl_calm {found : Option ProtectionDomain} :
    Calm (Listener.acceptImpl channel found) := by
  refine throws_bind throws_verb fun got => throws_bind calm_checkOut fun event => ?_
  refine throws_bind throws_verb fun ack => ?_
  split
  · exact throws_error Fault.noConfusion
  refine throws_bind calm_check fun _ => ?_
  -- what was built is dropped before the error is passed on
  refine Triple.attempt lasting_excuses _ (Triple.lift acceptRequest_calm) fun r => ?_
  cases r with
  | ok conn => exact Triple.ret fun _ _ => trivial
  | error e =>
      exact Triple.attempt lasting_excuses _
        (Triple.lift (minor_lasts ((connectionDrop_only e.2).mono fun _ => minor_of_cmOp)))
        fun _ => Triple.ret (a := Except.error e.1) fun _ h => h

theorem rendezvous_calm {listener : Nat} {g : UInt32} : Calm (Service.rendezvous listener g) := by
  refine throws_bind (throws_code (only_perform trivial)) fun found => ?_
  cases found with
  | none => exact acceptImpl_calm
  | some dom =>
      refine Triple.attempt lasting_excuses _ (Triple.lift acceptImpl_calm) fun result => ?_
      refine Triple.attempt lasting_excuses _
        (Triple.lift (minor_lasts (only_perform (o := Op.verb (.dropPd dom.pd)) trivial))) fun _ => ?_
      exact Triple.except fun _ h => h

theorem catalogAndTuples_minor (g : UInt32) : Only Op.Minor (Shared.catalogAndTuples g) :=
  catalogAndTuples_within g trivial fun _ => minor_of_ofTuple

theorem drop_minor : Only Op.Minor SharedMemoryRegionProvider.drop := by
  have hclear := clear_only (C := Op.Minor) trivial trivial trivial
    fun _ h => minor_of_cmOp (cmOp_of_tearsDown h)
  unfold SharedMemoryRegionProvider.drop
  refine only_bind (only_perform trivial) fun serving => ?_
  cases serving with
  | false => exact hclear
  | true =>
      exact only_bind (only_bind (only_perform trivial) fun _ => only_perform trivial) fun _ => hclear

/-- What is calm fails with errors that are no panics, and keeps what it does not touch. -/
theorem calm_keeps {x : Sys α} {pre : Lasting → Prop} (h : Calm x) (hminor : Only Op.Minor x.run) :
    Lasts pre x.run (Ends (fun k _ => pre k) fun k e => pre k ∧ e ≠ .panic) := by
  refine (h.and (minor_lasts hminor)).conseq (fun _ hpre => ⟨trivial, hpre⟩) fun k r hr => ?_
  cases r with
  | ok a => exact hr.2
  | error e => exact ⟨hr.2, hr.1⟩

/-- **A handshake panics only where the group refuses its connection.** -/
theorem handshake_calm {listener : Nat} {stream : Chan} : Calm (Service.handshake listener stream) := by
  refine throws_bind channelNew_calm fun c => throws_bind greet_calm fun _ => ?_
  refine throws_bind join_calm fun g => throws_bind rendezvous_calm fun conn => ?_
  refine throws_bind ?_ fun _ => ?_
  · refine Triple.perform fun k hk _ => ⟨fun _ => trivial, fun r hr => ?_⟩
    cases r with
    | ok u => trivial
    | error e => exact absurd hr.2 Bool.noConfusion
  · refine throws_bind (throws_code (catalogAndTuples_minor g)) fun exchange => ?_
    refine throws_bind send_calm fun _ => throws_bind send_calm fun _ => ?_
    exact throws_code (only_perform trivial)

end Handshake

/-! ## 3. The threads -/

/-- The loop is one that the protocol of the system lets the thread run. -/
def LastingEntry (k : Lasting) (l : Loop) : Prop := ∃ know, entry know l ∧ know.role = k.role

section Threads

variable {listener : Nat} {sessions : List Nat} {c : Chan} {g : UInt32} {pre : Lasting → Prop}

/-- A turn ends at the end of the thread only. -/
def Concluded (k : Lasting) (r : Option Loop) : Prop := r = none → k.ended = true

theorem exit_lasts (h : ∀ k, pre k → k.role = .service → k.saw = true) :
    Lasts pre (do perform .exit; return none : Code (Option Loop)) Concluded := by
  refine Triple.bind lasting_excuses (fun k _ => k.ended = true) ?_ fun _ =>
    Triple.ret fun _ hended _ => hended
  exact Triple.perform fun k _ hpre => ⟨fun _ => h k hpre, fun _ _ => rfl⟩

theorem serviceRun_lasts :
    Lasts (fun k => k.role = .service) (Service.run listener sessions) Concluded := by
  have hretain (sessions : List Nat) : Lasts (fun _ => True) (do
      return some (Loop.service listener (← Service.retainRunning sessions)) : Code (Option Loop))
      Concluded :=
    Triple.bind lasting_excuses (fun _ _ => True)
      (minor_lasts (retainRunning_only (fun _ => trivial) sessions)) fun _ =>
        Triple.ret fun _ _ => nofun
  unfold Service.run
  refine Triple.bind lasting_excuses (fun k shutdown => shutdown = true → k.saw = true)
    (Triple.perform fun k _ _ => ⟨fun _ => trivial, fun shutdown _ hs => ?_⟩) fun shutdown => ?_
  · show (k.saw || shutdown) = true
    rw [hs, Bool.or_true]
  cases shutdown with
  | true =>
      exact Triple.bind lasting_excuses _
        (minor_lasts (joinAll_only (fun _ => trivial) sessions)) fun _ =>
          exit_lasts fun _ h _ => h rfl
  | false =>
  refine Triple.bind lasting_excuses (fun _ _ => True)
    (Triple.perform fun _ _ _ => ⟨fun _ => trivial, fun _ _ => trivial⟩) fun accepted => ?_
  cases accepted with
  | none => exact hretain sessions
  | some stream =>
  refine Triple.bind lasting_excuses _ handshake_calm fun r => ?_
  rcases r with (e | _) | session
  · exact (hretain sessions).conseq (fun _ _ => trivial) fun _ _ h => h
  · exact fun _ _ h => absurd rfl h
  · exact hretain _

theorem waitForUpdates_lasts {n : Nat} :
    Lasts (fun k => k.role = .session n) (SessionThread.waitForUpdates c g) Concluded := by
  have hexit : Lasts (fun k => k.role = .session n) (do perform .exit; return none : Code (Option Loop))
      Concluded := by
    refine exit_lasts fun k h hservice => ?_
    rw [h] at hservice
    cases hservice
  have hleave (e : Fault) : Lasts (fun k => k.role = .session n ∧ e ≠ .panic) (SessionThread.leave e)
      Concluded := by
    cases e with
    | err e => exact hexit.conseq (fun _ h => h.1) fun _ _ h => h
    | panic => exact fun _ _ h => absurd rfl h.2
  unfold SessionThread.waitForUpdates
  refine Triple.bind lasting_excuses (fun k _ => k.role = .session n)
    (Triple.perform fun _ _ h => ⟨fun _ => trivial, fun _ _ => h⟩) fun shutdown => ?_
  cases shutdown with
  | true => exact hexit
  | false =>
  refine Triple.bind lasting_excuses _ (calm_keeps receive_calm (receive_within c trivial)) fun r => ?_
  rcases r with e | m
  · exact hleave e
  cases m with
  | hello | welcome | wantGroup | metadata | tuples => exact hexit
  | update =>
      refine Triple.bind lasting_excuses _ (minor_lasts (catalogAndTuples_minor g)) fun exchange => ?_
      refine Triple.bind lasting_excuses _ (calm_keeps (throws_bind send_calm fun _ => send_calm)
        (only_try (send_within c _ trivial) fun _ => send_within c _ trivial)) fun sent => ?_
      cases sent with
      | error e => exact hleave e
      | ok u => exact Triple.ret fun _ _ => nofun

theorem appTurn_lasts : Lasts (fun k => k.role = .app) appTurn Concluded := by
  have hunwinds {α : Type} (r : Except Fault α) :
      Lasts (fun k => k.role = .app) (unwinds r) fun _ _ => True := by
    rcases r with (_ | _) | _
    · exact Triple.ret fun _ _ => trivial
    · exact Triple.perform fun _ _ h => ⟨fun _ => h, fun _ _ => trivial⟩
    · exact Triple.ret fun _ _ => trivial
  have hgoes {α : Type} {p : Code (Except Fault α)} (hp : Only Op.Minor p) :
      Lasts (fun k => k.role = .app) (do unwinds (← p); return some .app : Code (Option Loop))
        Concluded :=
    Triple.bind lasting_excuses _ (minor_lasts hp) fun r =>
      Triple.bind lasting_excuses _ (hunwinds r) fun _ => Triple.ret fun _ _ => nofun
  unfold appTurn
  refine Triple.bind lasting_excuses _ (minor_lasts (only_perform trivial)) fun call => ?_
  cases call with
  | registerTyped name buffer =>
      exact hgoes ((registerTyped_ofApp name buffer).mono fun _ => minor_of_ofApp)
  | getSharedMr id g => exact hgoes ((tupleOf_only id g).mono fun _ => minor_of_ofTuple)
  | serve => exact hgoes (serve_ofApp.mono fun _ => minor_of_ofApp)
  | drop =>
      refine Triple.bind lasting_excuses _ (minor_lasts drop_minor) fun _ =>
        exit_lasts fun k h hservice => ?_
      rw [h] at hservice
      cases hservice

theorem turn_lasts (k : Lasting) (l : Loop) (h : LastingEntry k l) :
    Follows lasting k (code l) fun k' r => k'.Admitted → Concluded k' r := by
  obtain ⟨know, hentry, hrole⟩ := h
  by_cases hk : k.Admitted
  · have hgoes {p : Code (Option Loop)} (hp : Lasts (fun _ => True) p fun _ r => r ≠ none) :
        Follows lasting k p fun k' r => k'.Admitted → Concluded k' r :=
      (hp k hk trivial).mono fun _ _ h hk' hr => absurd hr (h hk')
    cases l with
    | app => exact appTurn_lasts k hk (hrole.symm.trans hentry.1)
    | serviceStart | sessionStart =>
        exact hgoes (Triple.bind lasting_excuses (fun _ _ => True)
          (Triple.perform fun _ _ _ => ⟨fun _ => trivial, fun _ _ => trivial⟩) fun _ =>
            Triple.ret fun _ _ => nofun)
    | service listener sessions => exact serviceRun_lasts k hk (hrole.symm.trans hentry.1)
    | session c g =>
        obtain ⟨n, hn⟩ := hentry.1
        exact waitForUpdates_lasts k hk (hrole.symm.trans hn)
    | reader st =>
        obtain ⟨i, hi⟩ := hentry
        exact absurd hk.1 (by rw [← hrole, hi]; exact Bool.noConfusion)
    | net => exact absurd hk.1 (by rw [← hrole, hentry]; exact Bool.noConfusion)
  · exact (lasting_excuses.follows hk _).mono fun _ _ h hk' => (h hk').elim

/-- **Every thread of the provider ends at its end**, as long as its connections are taken. -/
theorem provider_lasts :
    provider.Finishes lasting LastingEntry fun k => k.Admitted → k.ended = true where
  turn k l h := by
    obtain ⟨know, hentry, hrole⟩ := h
    have hturn := turn_lasts k l ⟨know, hentry, hrole⟩
    have hnext := (provider_follows.turn know l hentry).keeps Know.role next_role
    refine ((hturn.keeps Lasting.role Lasting.next_role).both hnext).mono fun k' r hr l' hl' => ?_
    obtain ⟨⟨_, hrole'⟩, know', hl, hknow'⟩ := hr
    exact ⟨know', hl l' hl', by rw [hknow', hrole, hrole']⟩
  last k l h := (turn_lasts k l h).mono fun _ _ h hr hk => h hk hr

end Threads

/-! ## 4. The invariant -/

/-- What the threads know of their ends is what the world shows; the shutdown belongs to the drop. -/
structure Enduring (w : World) (know : Tid → Know) (last : Tid → Lasting) : Prop where
  role : ∀ t, (last t).role = t
  taken : ∀ t, (last t).refused = false
  saw : ∀ t, (last t).saw = true → w.life.shutdown = true
  service : (last .service).ended = true → w.life.serviceDone = true
  session : ∀ n, (last (.session n)).ended = true → n ∈ w.life.finished
  done : w.life.serviceDone = true → w.life.shutdown = true
  told : w.life.shutdown = true → (know .app).stage ≠ .running
  idle : (know .app).stage ≠ .running → w.life.serving = false
  calm : ∀ r ∈ w.log.records, r.thread.isProvider = true → r.note = .panicked → r.thread = .app

theorem enduring_start : Enduring {} firstKnow fun t => { role := t } :=
  ⟨fun _ => rfl, fun _ => rfl, fun _ => nofun, nofun, fun _ => nofun, nofun, nofun, fun _ => rfl,
    fun _ h => by cases h⟩

section Steps

open Function (update)

variable {w : World} {know : Tid → Know} {last : Tid → Lasting} {t : Tid} {o : Op}

/-- The ends of threads and the shutdown stay. -/
structure LifeGrows (life life' : Life) : Prop where
  shutdown : life.shutdown = true → life'.shutdown = true
  done : life.serviceDone = true → life'.serviceDone = true
  finished : ∀ n ∈ life.finished, n ∈ life'.finished

theorem life_grows (a : o.Ans) : LifeGrows w.life (post t o a w).life := by
  by_cases ho : o.writesLife = false
  · rw [(post_frame (t := t) (w := w) o a).life ho]
    exact ⟨id, id, fun _ => id⟩
  cases o with
  | takeService | spawnService | spawnSession => exact ⟨id, id, fun _ => id⟩
  | setShutdown => exact ⟨fun _ => rfl, id, fun _ => id⟩
  | exit =>
      cases t with
      | service => exact ⟨id, fun _ => rfl, fun _ => id⟩
      | session n => exact ⟨id, id, fun _ => List.mem_cons_of_mem _⟩
      | app | reader | net => exact ⟨id, id, fun _ => id⟩
  | _ => exact absurd rfl ho

theorem Enduring.role_step (h : Enduring w know last) (a : o.Ans) (u : Tid) :
    (update last t ((last t).next o a) u).role = u :=
  (proj_update Lasting.role ((last t).next_role o a) u).trans (h.role u)

/-- A connection that was accepted has its domain, so its group takes it. -/
theorem Enduring.taken_step (hl : Lives w know) (hd : Domains w know) (h : Enduring w know last)
    {a : o.Ans} (hm : may (know t) o) (hc : can t o w a) (u : Tid) :
    (update last t ((last t).next o a) u).refused = false := by
  rw [proj_update Lasting.refused ?_ u]
  · exact h.taken u
  cases o with
  | groupsPush g conn =>
      have ht : t = .service := (hl.role t).symm.trans hm.service
      subst ht
      obtain ⟨id, pd, _, hpd, _⟩ := hd.pushes hm
      have hc : a = if (groupsPushed w.shared.groups g conn).isSome then .ok () else .error .panic := hc
      rw [groupsPushed_eq hpd] at hc
      subst hc
      rfl
  | _ => rfl

theorem Enduring.saw_step (h : Enduring w know last) {a : o.Ans} (hc : can t o w a) (u : Tid)
    (hu : (update last t ((last t).next o a) u).saw = true) : (post t o a w).life.shutdown = true := by
  refine (life_grows a).shutdown ?_
  by_cases hut : u = t
  · subst hut
    rw [Function.update_self] at hu
    cases o with
    | loadShutdown =>
        rcases Bool.or_eq_true_iff.mp hu with hsaw | hnow
        · exact h.saw u hsaw
        · exact hc hnow
    | groupsPush => exact h.saw u (by cases a <;> exact hu)
    | _ => exact h.saw u hu
  · rw [Function.update_of_ne hut] at hu
    exact h.saw u hu

/-- An end that a thread knows of is in the world. -/
theorem Enduring.ended_step {a : o.Ans} {u : Tid}
    (hu : (update last t ((last t).next o a) u).ended = true) :
    (last u).ended = true ∨ (u = t ∧ o = .exit) := by
  by_cases hut : u = t
  · subst hut
    rw [Function.update_self] at hu
    cases o with
    | exit => exact Or.inr ⟨rfl, rfl⟩
    | groupsPush => exact Or.inl (by cases a <;> exact hu)
    | _ => exact Or.inl hu
  · rw [Function.update_of_ne hut] at hu
    exact Or.inl hu

/-- The application thread leaves its calls with the drop, and does not come back to them. -/
theorem app_running {k : Know} (hrole : k.role = .app) (hm : may k o) (a : o.Ans) :
    o = .takeService ∨ ((next k o a).stage = .running ↔ k.stage = .running) := by
  by_cases ho : o.staged = false
  · exact Or.inr (by rw [(next_recalls k o a).stage ho])
  have hother {u : Tid} {P : Prop} (hu : u ≠ .app) (h : k.role = u) : P :=
    absurd (h.symm.trans hrole) hu
  cases o with
  | takeService => exact Or.inl rfl
  | spawnService | setShutdown => exact Or.inr Iff.rfl
  | joinService | tuplesClear | dropShared =>
      refine Or.inr ⟨nofun, fun h => ?_⟩
      rw [hm.2] at h
      cases h
  | awaitService | spawnSession | isFinished | joinSession => exact hother (by decide) hm.1
  | awaitSession =>
      obtain ⟨⟨n, hn⟩, _⟩ := hm
      exact hother (u := .session n) nofun hn
  | exit =>
      refine Or.inr ⟨nofun, fun h => ?_⟩
      rcases hm with ⟨_, hbare⟩ | ⟨hne, _⟩
      · rw [hbare] at h
        cases h
      · exact absurd hrole hne
  | _ => exact absurd rfl ho

theorem Enduring.done_step (h : Enduring w know last) {a : o.Ans}
    (ha : (last t).Admitted → (last t).Allows o) (hdone : (post t o a w).life.serviceDone = true) :
    (post t o a w).life.shutdown = true := by
  refine (life_grows a).shutdown ?_
  by_cases ho : o.writesLife = false
  · rw [(post_frame (t := t) (w := w) o a).life ho] at hdone
    exact h.done hdone
  cases o with
  | takeService | spawnService | spawnSession | setShutdown => exact h.done hdone
  | exit =>
      cases t with
      | service =>
          -- the service has seen the shutdown
          have hrole := h.role .service
          exact h.saw .service (ha ⟨by rw [hrole]; rfl, h.taken _⟩ hrole)
      | app | session | reader | net => exact h.done hdone
  | _ => exact absurd rfl ho

theorem Enduring.told_step (hl : Lives w know) (h : Enduring w know last) {a : o.Ans}
    (hm : may (know t) o) (hshutdown : (post t o a w).life.shutdown = true) :
    (update know t (next (know t) o a) .app).stage ≠ .running := by
  by_cases ho : o = .setShutdown
  · subst ho
    have ht : t = .app := (hl.role t).symm.trans hm.1
    subst ht
    rw [Function.update_self]
    show (know .app).stage ≠ .running
    rw [hm.2]
    decide
  have hbefore : w.life.shutdown = true := by
    by_cases hlife : o.writesLife = false
    · rwa [(post_frame (t := t) (w := w) o a).life hlife] at hshutdown
    · cases o with
      | takeService | spawnService | spawnSession => exact hshutdown
      | setShutdown => exact absurd rfl ho
      | exit => cases t <;> exact hshutdown
      | _ => exact absurd rfl hlife
  have happ := h.told hbefore
  by_cases ht : t = .app
  · subst ht
    rw [Function.update_self]
    rcases app_running (hl.role .app) hm a with rfl | hiff
    · exact absurd hm.2.1 happ
    · exact fun hrun => happ (hiff.mp hrun)
  · rw [Function.update_of_ne (Ne.symm ht)]
    exact happ

theorem Enduring.idle_step (hl : Lives w know) (h : Enduring w know last) {a : o.Ans}
    (hm : may (know t) o) (hidle : (update know t (next (know t) o a) .app).stage ≠ .running) :
    (post t o a w).life.serving = false := by
  by_cases ho : o = .takeService
  · subst ho
    rfl
  have hbefore : (know .app).stage ≠ .running := by
    by_cases ht : t = .app
    · subst ht
      rw [Function.update_self] at hidle
      exact fun hrun => hidle (((app_running (hl.role .app) hm a).resolve_left ho).mpr hrun)
    · rwa [Function.update_of_ne (Ne.symm ht)] at hidle
  have hserving := h.idle hbefore
  by_cases hlife : o.writesLife = false
  · rw [(post_frame (t := t) (w := w) o a).life hlife]
    exact hserving
  cases o with
  | takeService => exact absurd rfl ho
  | spawnService =>
      have ht : t = .app := (hl.role t).symm.trans hm.1
      subst ht
      exact absurd hm.2 hbefore
  | spawnSession | setShutdown => exact hserving
  | exit => cases t <;> exact hserving
  | _ => exact absurd rfl hlife

theorem Enduring.calm_step (h : Enduring w know last) {a : o.Ans}
    (ha : (last t).Admitted → (last t).Allows o) (r : Record) (hr : r ∈ (post t o a w).log.records)
    (hp : r.thread.isProvider = true) : r.note = .panicked → r.thread = .app := by
  by_cases ho : o.writesLog = false
  · rw [(post_frame (t := t) (w := w) o a).log ho] at hr
    exact h.calm r hr hp
  cases o with
  | tuplesGet => exact h.calm r hr hp
  | note n =>
      rcases List.mem_cons.mp hr with rfl | hr
      · rintro rfl
        have hrole := h.role t
        exact hrole.symm.trans (ha ⟨by rw [hrole]; exact hp, h.taken t⟩)
      · exact h.calm r hr hp
  | _ => exact absurd rfl ho

end Steps

/-! ## 5. Every run -/

section Runs

open Function (update)

def firstLasting (t : Tid) : Know × Lasting := (firstKnow t, { role := t })

theorem entry_firstLasting (t : Tid) : entry (firstLasting t).1 (firstLoop t) ∧
    LastingEntry (firstLasting t).2 (firstLoop t) :=
  ⟨entry_first t, firstKnow t, entry_first t, by cases t <;> rfl⟩

theorem lasting_finishes : provider.Finishes (protocol.prod lasting)
    (fun κ l => entry κ.1 l ∧ LastingEntry κ.2 l) fun κ => κ.2.Admitted → κ.2.ended = true :=
  provider_follows.finishes provider_lasts

variable {w : World} {κ : Tid → Know × Lasting} {prog : Tid → Code (Option Loop)}

theorem enduring_watched (hw : provider.Watched (protocol.prod lasting) {} firstLoop firstLasting w prog κ) :
    Enduring w (fun t => (κ t).1) fun t => (κ t).2 := by
  refine hw.invariant lasting_finishes.toFollows entry_firstLasting
    (I := fun w κ => Enduring w (fun t => (κ t).1) fun t => (κ t).2) enduring_start ?_
  intro w prog κ hw h t o a hm hc
  have hl := lives_watched hw.fst
  have hknow : (fun u => (update κ t ((protocol.prod lasting).next (κ t) o a) u).1) =
      update (fun u => (κ u).1) t (next (κ t).1 o a) := Function.comp_update Prod.fst κ t _
  have hlast : (fun u => (update κ t ((protocol.prod lasting).next (κ t) o a) u).2) =
      update (fun u => (κ u).2) t ((κ t).2.next o a) := Function.comp_update Prod.snd κ t _
  rw [hknow, hlast]
  have hgrows := life_grows (t := t) (w := w) a
  refine ⟨h.role_step a, h.taken_step hl (domains_watched hw.fst) hm.1 hc, h.saw_step hc, fun hu => ?_,
    fun n hu => ?_, h.done_step hm.2, h.told_step hl hm.1, h.idle_step hl hm.1, h.calm_step hm.2⟩
  · rcases Enduring.ended_step hu with hu | ⟨rfl, rfl⟩
    · exact hgrows.done (h.service hu)
    · rfl
  · rcases Enduring.ended_step hu with hu | ⟨rfl, rfl⟩
    · exact hgrows.finished n (h.session n hu)
    · exact List.mem_cons_self

/-- The 32-bit sum of a frame's length does not overflow. -/
def LengthFits (_ : Tid) (o : Op) (_ : World) (_ : o.Ans) : Prop :=
  ∀ m ∈ o.sends, (UInt32.ofNat m.payload.length).toNat + 1 < 2 ^ 32

instance (t : Tid) (o : Op) (w : World) (a : o.Ans) : Decidable (LengthFits t o w a) :=
  Option.decidableForallMem o.sends

def Note.isPanic : Note → Bool
  | .panicked => true
  | _ => false

/-- A call that panics, before a run in which the provider is dropped. -/
def untilEndured : List Move :=
  calls (.registerTyped "z" ⟨0, 1, 0, 1, "", by decide⟩) :: moves .app 2 ++ untilStopped

end Runs

end Rdmalib
