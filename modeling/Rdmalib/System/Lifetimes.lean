/-
  File:      Rdmalib/System/Lifetimes.lean
  Subject:   Which of the provider's threads are at work while it is being dropped.

  * `Lives` -- the stages of the threads fit together: a session thread that runs is one that
    the service has still to join, and an application thread that has come past the join has no
    service behind it;
  * `lives_watched` -- it holds in every run;
  * `Lives.quiet` -- **once the application has joined the service, no other thread of the
    provider is at work.**
-/
import Rdmalib.System.Walk

namespace Rdmalib

open Base

/-! ## 1. The invariant -/

/-- The stages of the drop after the join. -/
def Stage.past : Stage → Bool
  | .joined | .cleared | .bare | .ended => true
  | .waiting | .running | .stopping => false

/-- Off work, a thread of the provider knows nothing. -/
def Know.Idle (k : Know) : Prop := k.stage ≠ .running → k.tup = {} ∧ k.acc = {} ∧ k.reg = {}

/-- The service's account of its session threads, given what it knows and their stages. -/
structure SessionsLive (life : Life) (service : Know) (stage : Nat → Stage) : Prop where
  unspawned : ∀ n, life.sessions.length ≤ n → stage n = .waiting
  spawned : ∀ n, n < life.sessions.length → n ∈ life.finished ∨ n ∈ service.open_
  finished : ∀ n ∈ life.finished, stage n = .ended
  early : service.stage = .waiting → life.sessions = []
  closed : service.stage = .ended → service.open_ = []

/-- The application's account of the service. -/
structure ServiceLives (life : Life) (app service : Stage) : Prop where
  unstarted : life.started = none → service = .waiting
  done : life.serviceDone = true → service = .ended
  serving : app = .running → life.serving = false → life.started = none
  past : app.past = true → life.started = none ∨ service = .ended

/-- How far the drop has come. -/
structure DropLives (shared : SharedState) (app : Stage) : Prop where
  cleared : shared.cleared = true → app ∈ [.cleared, .bare, .ended]
  gone : shared.gone = true → app ∈ [.bare, .ended]
  clear : app ∈ [.cleared, .bare, .ended] → shared.cleared = true
  bare : app ∈ [.bare, .ended] → shared.gone = true

structure Lives (w : World) (know : Tid → Know) : Prop where
  role : ∀ t, (know t).role = t
  idle : ∀ t, t.isProvider = true → (know t).Idle
  outside : ∀ t, t.isProvider = false → (know t).tup = {}
  sessions : SessionsLive w.life (know .service) fun n => (know (.session n)).stage
  service : ServiceLives w.life (know .app).stage (know .service).stage
  drop : DropLives w.shared (know .app).stage

theorem lives_start : Lives {} firstKnow where
  role t := by cases t <;> rfl
  idle t _ _ := by cases t <;> exact ⟨rfl, rfl, rfl⟩
  outside t _ := by cases t <;> rfl
  sessions := ⟨fun _ _ => rfl, (fun _ h => by cases h), (fun _ h => by cases h), fun _ => rfl,
    (fun h => by cases h)⟩
  service := ⟨fun _ => rfl, (fun h => by cases h), fun _ _ => rfl, (fun h => by cases h)⟩
  drop := ⟨nofun, nofun, (fun h => by simp [firstKnow] at h), (fun h => by simp [firstKnow] at h)⟩

/-- **Once the application has joined the service, no other thread of the provider is at work.** -/
theorem Lives.quiet {w : World} {know : Tid → Know} (h : Lives w know)
    (hpast : (know .app).stage.past = true) {t : Tid} (ht : t.isProvider = true)
    (hrun : (know t).stage = .running) : False := by
  have hservice : (know .service).stage ≠ .running := by
    intro hs
    rcases h.service.past hpast with hnone | hended
    · rw [h.service.unstarted hnone] at hs
      cases hs
    · rw [hended] at hs
      cases hs
  cases t with
  | app =>
      rw [hrun] at hpast
      cases hpast
  | service => exact hservice hrun
  | session n =>
      have hn : n < w.life.sessions.length := by
        by_contra hn
        rw [h.sessions.unspawned n (by omega)] at hrun
        cases hrun
      rcases h.service.past hpast with hnone | hended
      · rw [h.sessions.early (h.service.unstarted hnone)] at hn
        cases hn
      · rcases h.sessions.spawned n hn with hf | ho
        · rw [h.sessions.finished n hf] at hrun
          cases hrun
        · rw [h.sessions.closed hended] at ho
          cases ho
  | reader i => cases ht
  | net => cases ht

/-- Then no `tuple_of` is running. -/
theorem Lives.silent {w : World} {know : Tid → Know} (h : Lives w know)
    (hpast : (know .app).stage.past = true) (t : Tid) : (know t).tup = {} := by
  by_cases ht : t.isProvider = true
  · exact (h.idle t ht fun hrun => h.quiet hpast ht hrun).1
  · exact h.outside t (by simpa using ht)

/-- A thread of the provider at work is there before the tuples are cleared. -/
theorem Lives.uncleared {w : World} {know : Tid → Know} (h : Lives w know) {t : Tid}
    (hw : (know t).Works) : w.shared.cleared = false := by
  by_contra hc
  have hstage := h.drop.cleared (by simpa using hc)
  have hpast : (know .app).stage.past = true := by
    simp only [List.mem_cons, List.not_mem_nil, or_false] at hstage
    rcases hstage with e | e | e <;> rw [e] <;> rfl
  exact h.quiet hpast (by rw [← h.role t]; exact hw.role) hw.stage

theorem Lives.present {w : World} {know : Tid → Know} (h : Lives w know) {t : Tid}
    (hw : (know t).Works) : w.shared.gone = false := by
  by_contra hg
  have hstage := h.drop.gone (by simpa using hg)
  have hcleared := h.drop.clear (List.mem_cons_of_mem _ hstage)
  rw [h.uncleared hw] at hcleared
  cases hcleared

/-! ## 2. Operations inside a stage -/

section Inside

variable {k : Know} {t : Tid} {o : Op} {w : World}

theorem next_kept (ho : o.staged = false) (a : o.Ans) : Kept k (next k o a) :=
  have h := next_recalls k o a
  ⟨h.role, h.stage ho, h.open_ ho⟩

/-- What the stages are about stays in the world. -/
structure SameLife (w w' : World) : Prop where
  life : w'.life = w.life
  cleared : w'.shared.cleared = w.shared.cleared
  gone : w'.shared.gone = w.shared.gone

theorem post_life (ho : o.staged = false) (a : o.Ans) : SameLife w (post t o a w) := by
  have hf := post_frame (t := t) (w := w) o a
  have hlife : o.writesLife = false := by
    cases o with
    | takeService | spawnService | setShutdown | spawnSession | exit => cases ho
    | _ => rfl
  refine ⟨hf.life hlife, ?_, ?_⟩
  all_goals
    by_cases hs : o.writesShared = false
    · rw [hf.shared hs]
    · cases o with
      | groupsPush g conn =>
          simp only [post, pushPost]
          split <;> rfl
      | catalogInsert | tuplesInsert => rfl
      | tuplesClear | dropShared => cases ho
      | _ => exact absurd rfl hs

/-- The application that drops what the groups held learns nothing. -/
theorem Know.Frees.learns (h : k.Frees) (hk : k.Idle) (v : Verb) (hv : Op.TearsDown (.verb v))
    (a : v.Ans) : next k (.verb v) a = k := by
  have hacc : k.acc = {} := (hk (by rw [h.stage]; exact Stage.noConfusion)).2.1
  obtain ⟨role, stage, opened, tup, acc, reg⟩ := k
  subst hacc
  cases v with
  | qpOf | disconnect | destroyQp | destroyId | destroyCq | destroyEventChannel | dropPd => rfl
  | _ => exact hv.elim

/-- A thread of the provider learns something only at work. -/
theorem running_of_may (hp : k.role.isProvider = true) (ho : o.staged = false) (hm : may k o)
    (hk : k.Idle) (a : o.Ans) : k.stage = .running ∨ next k o a = k := by
  cases o with
  | verb v =>
      have hfrees (h : k.Frees) (hv : Op.TearsDown (.verb v)) := h.learns hk v hv a
      cases v with
      | regMr => exact Or.inl hm.works.stage
      | accept => exact Or.inl (hm hp).stage
      | createQp => exact Or.inl (hm hp).2.1
      | getCmEvent | allocPd => exact Or.inl (hm hp).2
      | destroyQp => exact (hm hp).imp (fun h => h.2.1) fun h => hfrees h trivial
      | destroyId => exact (hm hp).imp (fun h => h.1) fun h => hfrees h trivial
      | qpOf | disconnect | destroyCq | destroyEventChannel | dropPd =>
          exact (hm hp).imp_right fun h => hfrees h trivial
      | _ => exact Or.inl (hm hp)
  | toSocketAddrs | armTimeouts | receive => exact Or.inl (hm hp)
  | send c m => exact Or.inr rfl
  | tcpConnect | nextReaderCall =>
      rw [show k.role.isProvider = false from hm] at hp
      cases hp
  | deliver => exact Or.inr rfl
  | tcpAccept | tcpBind | isServing | nextAppCall | nextIdGet => exact Or.inl hm.2
  | nextIdSet | ownersInsert | catalogInsert => exact Or.inl hm.2.1
  | loadShutdown | dropOwners | note => exact Or.inr rfl
  | catalogGet | catalogSnapshot | groupsGetPd => exact Or.inl hm.stage
  | tuplesGet => exact Or.inl hm.1.stage
  | tuplesInsert => exact Or.inl hm.works.stage
  | groupsPush => exact Or.inl hm.stage
  | _ => cases ho

theorem outside_next (hp : k.role.isProvider = false) (hm : may k o) (a : o.Ans) :
    (next k o a).tup = k.tup := by
  by_cases ho : o.teachesTup = false
  · exact (next_recalls k o a).tup ho
  have hprovider {P : Prop} (h : k.role.isProvider = true) : P := by
    rw [hp] at h
    cases h
  have hrole {t : Tid} {P : Prop} (ht : t.isProvider = true) (h : k.role = t) : P :=
    hprovider (by rw [h]; exact ht)
  cases o with
  | verb v =>
      cases v with
      | regMr => exact hprovider hm.works.role
      | _ => exact absurd rfl ho
  | tcpAccept | takeService => exact hrole rfl hm.1
  | catalogGet | catalogSnapshot | groupsGetPd => exact hprovider hm.role
  | tuplesGet => exact hprovider hm.1.role
  | tuplesInsert => exact hprovider hm.works.role
  | groupsPush => exact hrole rfl hm.service
  | exit =>
      rcases hm with ⟨hm, _⟩ | ⟨_, hm, _⟩
      · exact hrole rfl hm
      · exact hprovider hm.role
  | _ => exact absurd rfl ho

theorem idle_next (hp : k.role.isProvider = true) (hm : may k o) (h : k.Idle) (a : o.Ans) :
    (next k o a).Idle := by
  by_cases ho : o.staged = false
  · rcases running_of_may hp ho hm h a with hrun | hsame
    · intro hstage
      rw [(next_kept ho a).stage] at hstage
      exact absurd hrun hstage
    · rw [hsame]
      exact h
  · cases o with
    | takeService | exit => exact fun _ => ⟨rfl, rfl, rfl⟩
    | awaitService | awaitSession => exact fun hstage => absurd rfl hstage
    | spawnService | setShutdown => exact h
    | joinService | tuplesClear | dropShared =>
        refine fun _ => h ?_
        rw [hm.2]
        exact Stage.noConfusion
    | spawnSession | joinSession => exact fun hstage => absurd hm.2 hstage
    | isFinished n =>
        cases a with
        | false => exact h
        | true => exact fun hstage => absurd hm.2 hstage
    | _ => exact absurd rfl ho

end Inside

/-! ## 3. Every operation -/

section Steps

variable {w : World} {know : Tid → Know}

theorem SessionsLive.congr {life life' : Life} {k k' : Know} {stage stage' : Nat → Stage}
    (h : SessionsLive life k stage) (hs : life'.sessions = life.sessions)
    (hf : life'.finished = life.finished) (hk : k'.stage = k.stage) (ho : k'.open_ = k.open_)
    (hstage : ∀ n, stage' n = stage n) : SessionsLive life' k' stage' where
  unspawned n hn := by rw [hstage]; exact h.unspawned n (hs ▸ hn)
  spawned n hn := by rw [hf, ho]; exact h.spawned n (hs ▸ hn)
  finished n hn := by rw [hstage]; exact h.finished n (hf ▸ hn)
  early he := by rw [hs]; exact h.early (hk ▸ he)
  closed he := by rw [ho]; exact h.closed (hk ▸ he)

/-- An operation inside a stage. -/
theorem Lives.inside {w' : World} {t : Tid} {k' : Know} (h : Lives w know) (hw : SameLife w w')
    (hk : Kept (know t) k') (hidle : t.isProvider = true → k'.Idle)
    (hout : t.isProvider = false → k'.tup = {}) :
    Lives w' (Function.update know t k') := by
  have hkept (u : Tid) : Kept (know u) (Function.update know t k' u) := by
    by_cases hu : u = t
    · subst hu
      rw [Function.update_self]
      exact hk
    · rw [Function.update_of_ne hu]
      exact .rfl
  refine ⟨fun u => ?_, fun u hu => ?_, fun u hu => ?_, ?_, ?_, ?_⟩
  · rw [(hkept u).role]
    exact h.role u
  · by_cases hut : u = t
    · subst hut
      rw [Function.update_self]
      exact hidle hu
    · rw [Function.update_of_ne hut]
      exact h.idle u hu
  · by_cases hut : u = t
    · subst hut
      rw [Function.update_self]
      exact hout hu
    · rw [Function.update_of_ne hut]
      exact h.outside u hu
  · exact h.sessions.congr (by rw [hw.life]) (by rw [hw.life]) (hkept _).stage (hkept _).open_
      fun n => (hkept _).stage
  · rw [hw.life, (hkept _).stage, (hkept _).stage]
    exact h.service
  · rw [(hkept _).stage]
    exact ⟨hw.cleared ▸ h.drop.cleared, hw.gone ▸ h.drop.gone, hw.cleared ▸ h.drop.clear,
      hw.gone ▸ h.drop.bare⟩

/-- Operations of the application do not concern the sessions. -/
theorem Lives.sessions_app {w' : World} {k' : Know} (h : Lives w know)
    (hs : w'.life.sessions = w.life.sessions) (hf : w'.life.finished = w.life.finished) :
    SessionsLive w'.life (Function.update know .app k' .service)
      fun n => (Function.update know .app k' (.session n)).stage :=
  h.sessions.congr hs hf rfl rfl fun _ => rfl

theorem SessionsLive.spawn {life : Life} {k : Know} {stage : Nat → Stage}
    (h : SessionsLive life k stage) (hrun : k.stage = .running) (session : Chan × UInt32) :
    SessionsLive { life with sessions := life.sessions ++ [session] }
      { k with open_ := life.sessions.length :: k.open_ } stage where
  unspawned n hn := by
    rw [List.length_append, List.length_singleton] at hn
    exact h.unspawned n (by omega)
  spawned n hn := by
    rw [List.length_append, List.length_singleton] at hn
    by_cases hlast : n = life.sessions.length
    · exact Or.inr (hlast ▸ List.mem_cons_self)
    · rcases h.spawned n (by omega) with hf | ho
      · exact Or.inl hf
      · exact Or.inr (List.mem_cons_of_mem _ ho)
  finished := h.finished
  early he := by rw [hrun] at he; cases he
  closed he := by rw [hrun] at he; cases he

/-- The service has seen that session `m` has finished. -/
theorem SessionsLive.forget {life : Life} {k : Know} {stage : Nat → Stage} {m : Nat}
    (h : SessionsLive life k stage) (hrun : k.stage = .running) (hm : m ∈ life.finished) :
    SessionsLive life { k with open_ := k.open_.filter (· ≠ m) } stage where
  unspawned := h.unspawned
  spawned n hn := by
    by_cases hnm : n = m
    · exact Or.inl (hnm ▸ hm)
    · rcases h.spawned n hn with hf | ho
      · exact Or.inl hf
      · exact Or.inr (List.mem_filter.mpr ⟨ho, by simpa using hnm⟩)
  finished := h.finished
  early := h.early
  closed he := by rw [hrun] at he; cases he

/-- Session `m` begins its loop. -/
theorem SessionsLive.begin {life : Life} {k : Know} {stage stage' : Nat → Stage} {m : Nat}
    (h : SessionsLive life k stage) (hm : m < life.sessions.length) (hwait : stage m = .waiting)
    (hother : ∀ n, n ≠ m → stage' n = stage n) : SessionsLive life k stage' where
  unspawned n hn := by
    rw [hother n (by omega)]
    exact h.unspawned n hn
  spawned := h.spawned
  finished n hn := by
    have hended := h.finished n hn
    have hnm : n ≠ m := by
      intro e
      rw [e, hwait] at hended
      cases hended
    rw [hother n hnm]
    exact hended
  early := h.early
  closed := h.closed

/-- Session `m` ends. -/
theorem SessionsLive.finish {life : Life} {k : Know} {stage stage' : Nat → Stage} {m : Nat}
    (h : SessionsLive life k stage) (hrun : stage m = .running) (hend : stage' m = .ended)
    (hother : ∀ n, n ≠ m → stage' n = stage n) :
    SessionsLive { life with finished := m :: life.finished } k stage' where
  unspawned n hn := by
    have hwait := h.unspawned n hn
    have hnm : n ≠ m := by
      intro e
      rw [e, hrun] at hwait
      cases hwait
    rw [hother n hnm]
    exact hwait
  spawned n hn := by
    rcases h.spawned n hn with hf | ho
    · exact Or.inl (List.mem_cons_of_mem _ hf)
    · exact Or.inr ho
  finished n hn := by
    by_cases hnm : n = m
    · rw [hnm]
      exact hend
    · rw [hother n hnm]
      rcases List.mem_cons.mp hn with e | hn
      · exact absurd e hnm
      · exact h.finished n hn
  early := h.early
  closed := h.closed

theorem Lives.sessions_step (h : Lives w know) {t : Tid} {o : Op} {a : o.Ans}
    (ho : o.staged = true) (hm : may (know t) o) (hc : can t o w a) :
    SessionsLive (post t o a w).life (Function.update know t (next (know t) o a) .service)
      fun n => (Function.update know t (next (know t) o a) (.session n)).stage := by
  have hrole := h.role t
  cases o with
  | spawnService | takeService | setShutdown | joinService | tuplesClear | dropShared =>
      have ht : t = .app := hrole.symm.trans hm.1
      subst ht
      exact h.sessions_app rfl rfl
  | awaitService =>
      have ht : t = .service := hrole.symm.trans hm.1
      subst ht
      have hnone := h.sessions.early hm.2
      refine ⟨h.sessions.unspawned, fun n hn => ?_, h.sessions.finished, ?_, ?_⟩
      · rw [show (post .service .awaitService a w).life.sessions = [] from hnone] at hn
        cases hn
      · exact fun _ => hnone
      · intro he
        rw [Function.update_self] at he
        cases he
  | spawnSession c g =>
      have ht : t = .service := hrole.symm.trans hm.1
      subst ht
      rw [Function.update_self]
      have ha : a = w.life.sessions.length := hc
      subst ha
      exact h.sessions.spawn hm.2 (c, g)
  | isFinished n =>
      have ht : t = .service := hrole.symm.trans hm.1
      subst ht
      rw [Function.update_self]
      cases a with
      | false => exact h.sessions
      | true => exact h.sessions.forget hm.2 (hc rfl)
  | joinSession n =>
      have ht : t = .service := hrole.symm.trans hm.1
      subst ht
      rw [Function.update_self]
      exact h.sessions.forget hm.2 hc
  | awaitSession =>
      obtain ⟨⟨m, hm₁⟩, hm₂⟩ := hm
      have ht : t = .session m := hrole.symm.trans hm₁
      subst ht
      obtain ⟨hlt, _⟩ := List.getElem?_eq_some_iff.mp hc
      refine h.sessions.begin hlt hm₂ fun n hn => ?_
      rw [Function.update_of_ne (fun e => hn (Tid.session.inj e))]
  | exit =>
      rcases hm with ⟨hm, _⟩ | ⟨happ, hworks, _, hopen⟩
      · have ht : t = .app := hrole.symm.trans hm
        subst ht
        exact h.sessions_app rfl rfl
      · rw [hrole] at happ
        cases t with
        | app => exact absurd rfl happ
        | service =>
            rw [Function.update_self]
            refine ⟨h.sessions.unspawned, h.sessions.spawned, h.sessions.finished, ?_, ?_⟩
            · intro he
              cases he
            · exact fun _ => hopen
        | session m =>
            refine h.sessions.finish (m := m) hworks.stage ?_ fun n hn => ?_
            · rw [Function.update_self]
              rfl
            · rw [Function.update_of_ne (fun e => hn (Tid.session.inj e))]
        | reader i =>
            have := hworks.role
            rw [hrole] at this
            cases this
        | net =>
            have := hworks.role
            rw [hrole] at this
            cases this
  | _ => cases ho

theorem Lives.service_step (h : Lives w know) {t : Tid} {o : Op} {a : o.Ans}
    (ho : o.staged = true) (hm : may (know t) o) (hc : can t o w a) :
    ServiceLives (post t o a w).life (Function.update know t (next (know t) o a) .app).stage
      (Function.update know t (next (know t) o a) .service).stage := by
  have hrole := h.role t
  have hs := h.service
  cases o with
  | spawnService listener =>
      have ht : t = .app := hrole.symm.trans hm.1
      subst ht
      rw [Function.update_self]
      refine ⟨(fun e => by cases e), hs.done, (fun _ e => by cases e), fun e => ?_⟩
      rw [show (next (know .app) (.spawnService listener) a).stage = .running from hm.2] at e
      cases e
  | takeService =>
      have ht : t = .app := hrole.symm.trans hm.1
      subst ht
      rw [Function.update_self]
      have ha : a = w.life.serving := hc
      cases a with
      | true => exact ⟨hs.unstarted, hs.done, (fun e => by cases e), (fun e => by cases e)⟩
      | false =>
          exact ⟨hs.unstarted, hs.done, (fun e => by cases e), fun _ => Or.inl (hs.serving hm.2.1 ha.symm)⟩
  | setShutdown =>
      have ht : t = .app := hrole.symm.trans hm.1
      subst ht
      rw [Function.update_self]
      exact ⟨hs.unstarted, hs.done, hs.serving, hs.past⟩
  | joinService =>
      have ht : t = .app := hrole.symm.trans hm.1
      subst ht
      rw [Function.update_self]
      exact ⟨hs.unstarted, hs.done, (fun e => by cases e), fun _ => Or.inr (hs.done hc)⟩
  | tuplesClear | dropShared =>
      have ht : t = .app := hrole.symm.trans hm.1
      subst ht
      rw [Function.update_self]
      exact ⟨hs.unstarted, hs.done, (fun e => by cases e), fun _ => hs.past (by rw [hm.2]; rfl)⟩
  | awaitService =>
      have ht : t = .service := hrole.symm.trans hm.1
      subst ht
      have hsome : w.life.started = some a := hc
      have hwait : (know .service).stage ≠ .ended := by
        rw [hm.2]
        exact Stage.noConfusion
      refine ⟨fun e => ?_, fun e => absurd (hs.done e) hwait, hs.serving, fun e => ?_⟩
      · have e : w.life.started = none := e
        rw [hsome] at e
        cases e
      · rcases hs.past e with hnone | hended
        · exact Or.inl hnone
        · exact absurd hended hwait
  | spawnSession | isFinished | joinSession =>
      have ht : t = .service := hrole.symm.trans hm.1
      subst ht
      have hsame : (Function.update know .service (next (know .service) _ a) .service).stage =
          (know .service).stage := by
        rw [Function.update_self]
        first | rfl | (cases a <;> rfl)
      rw [hsame]
      exact ⟨hs.unstarted, hs.done, hs.serving, hs.past⟩
  | awaitSession =>
      obtain ⟨⟨m, hm₁⟩, _⟩ := hm
      have ht : t = .session m := hrole.symm.trans hm₁
      subst ht
      exact hs
  | exit =>
      rcases hm with ⟨hm₁, hm₂⟩ | ⟨happ, hworks, _, _⟩
      · have ht : t = .app := hrole.symm.trans hm₁
        subst ht
        rw [Function.update_self]
        exact ⟨hs.unstarted, hs.done, (fun e => by cases e), fun _ => hs.past (by rw [hm₂]; rfl)⟩
      · rw [hrole] at happ
        cases t with
        | app => exact absurd rfl happ
        | service =>
            rw [Function.update_self]
            refine ⟨fun e => ?_, fun _ => rfl, hs.serving, fun _ => Or.inr rfl⟩
            have := hs.unstarted e
            rw [hworks.stage] at this
            cases this
        | session m => exact ⟨hs.unstarted, hs.done, hs.serving, hs.past⟩
        | reader i => exact hs
        | net => exact hs
  | _ => cases ho

theorem Lives.drop_step (h : Lives w know) {t : Tid} {o : Op} {a : o.Ans} (ho : o.staged = true)
    (hm : may (know t) o) :
    DropLives (post t o a w).shared (Function.update know t (next (know t) o a) .app).stage := by
  have hrole := h.role t
  have hd := h.drop
  have hother {t : Tid} {k' : Know} (ht : t ≠ .app) :
      DropLives w.shared (Function.update know t k' .app).stage := by
    rw [Function.update_of_ne ht.symm]
    exact hd
  -- before the drop has begun, nothing is cleared
  have hearly (hstage : (know .app).stage ∉ [.cleared, .bare, .ended]) :
      w.shared.cleared = false ∧ w.shared.gone = false := by
    constructor
    · exact Bool.eq_false_iff.mpr fun e => hstage (hd.cleared e)
    · exact Bool.eq_false_iff.mpr fun e => hstage (List.mem_cons_of_mem _ (hd.gone e))
  have hbegin {s : Stage} (hstage : (know .app).stage ∉ [.cleared, .bare, .ended])
      (hs : s ∉ [.cleared, .bare, .ended]) : DropLives w.shared s := by
    obtain ⟨hc, hg⟩ := hearly hstage
    refine ⟨fun e => ?_, fun e => ?_, fun e => absurd e hs,
      fun e => absurd (List.mem_cons_of_mem _ e) hs⟩
    · rw [hc] at e
      cases e
    · rw [hg] at e
      cases e
  cases o with
  | spawnService | setShutdown =>
      have ht : t = .app := hrole.symm.trans hm.1
      subst ht
      rw [Function.update_self]
      exact hd
  | takeService =>
      have ht : t = .app := hrole.symm.trans hm.1
      subst ht
      rw [Function.update_self]
      refine hbegin (by rw [hm.2.1]; decide) ?_
      cases a with
      | false => simp [next, Know.leave]
      | true => simp [next, Know.leave]
  | joinService =>
      have ht : t = .app := hrole.symm.trans hm.1
      subst ht
      rw [Function.update_self]
      exact hbegin (by rw [hm.2]; decide) (by simp [next])
  | tuplesClear =>
      have ht : t = .app := hrole.symm.trans hm.1
      subst ht
      rw [Function.update_self]
      have hg := (hearly (by rw [hm.2]; decide)).2
      refine ⟨fun _ => by simp [next], fun e => ?_, fun _ => rfl, fun e => by simp [next] at e⟩
      have e : w.shared.gone = true := e
      rw [hg] at e
      cases e
  | dropShared =>
      have ht : t = .app := hrole.symm.trans hm.1
      subst ht
      rw [Function.update_self]
      exact ⟨fun _ => by simp [next], fun _ => by simp [next],
        fun _ => hd.clear (by rw [hm.2]; decide), fun _ => rfl⟩
  | awaitService | spawnSession | isFinished | joinSession =>
      refine hother fun ht => ?_
      rw [← hrole, hm.1] at ht
      cases ht
  | awaitSession =>
      obtain ⟨⟨m, hm₁⟩, _⟩ := hm
      refine hother fun ht => ?_
      rw [← hrole, hm₁] at ht
      cases ht
  | exit =>
      rcases hm with ⟨hm₁, hm₂⟩ | ⟨happ, _, _, _⟩
      · have ht : t = .app := hrole.symm.trans hm₁
        subst ht
        rw [Function.update_self]
        exact ⟨fun _ => by simp [next, Know.leave], fun _ => by simp [next, Know.leave],
          fun _ => hd.clear (by rw [hm₂]; decide), fun _ => hd.bare (by rw [hm₂]; decide)⟩
      · rw [hrole] at happ
        have hshared : (post t .exit a w).shared = w.shared := by cases t <;> rfl
        rw [hshared]
        exact hother happ
  | _ => cases ho

theorem Lives.step (h : Lives w know) {t : Tid} {o : Op} {a : o.Ans} (hm : may (know t) o)
    (hc : can t o w a) : Lives (post t o a w) (Function.update know t (next (know t) o a)) := by
  have hidle (ht : t.isProvider = true) : (next (know t) o a).Idle :=
    idle_next (by rw [h.role]; exact ht) hm (h.idle t ht) a
  have hout (ht : t.isProvider = false) : (next (know t) o a).tup = {} :=
    (outside_next (by rw [h.role]; exact ht) hm a).trans (h.outside t ht)
  by_cases ho : o.staged = false
  · exact h.inside (post_life ho a) (next_kept ho a) hidle hout
  · have ho : o.staged = true := by simpa using ho
    refine ⟨fun u => ?_, fun u hu => ?_, fun u hu => ?_, h.sessions_step ho hm hc,
      h.service_step ho hm hc, h.drop_step ho hm⟩
    · by_cases hut : u = t
      · subst hut
        rw [Function.update_self, next_role]
        exact h.role u
      · rw [Function.update_of_ne hut]
        exact h.role u
    · by_cases hut : u = t
      · subst hut
        rw [Function.update_self]
        exact hidle hu
      · rw [Function.update_of_ne hut]
        exact h.idle u hu
    · by_cases hut : u = t
      · subst hut
        rw [Function.update_self]
        exact hout hu
      · rw [Function.update_of_ne hut]
        exact h.outside u hu

variable {prog : Tid → Code (Option Loop)}

/-- **The stages of the threads fit together in every run.** -/
theorem lives_watched (hw : provider.Watched protocol {} firstLoop firstKnow w prog know) :
    Lives w know :=
  hw.invariant provider_follows entry_first lives_start fun _ h _ _ _ hm hc => h.step hm hc

end Steps

end Rdmalib
