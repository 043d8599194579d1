/-
  File:      Rdmalib/System/Dialog.lean
  Subject:   What the threads of the provider and the readers say to each other over TCP.

  * `Party` -- what a thread knows of the conversation it is in: the connection and its phase, and
    for a reader its call and what it has heard, for a thread of the provider the group, the
    listing of the catalog and the answers of `tuple_of`;
  * `talks` -- the protocol: who speaks when, and what an answer consists of;
  * result: every loop of the code follows it (`provider_talks`).
-/
import Rdmalib.Readers.Recovery
import Rdmalib.System.Lines
import Rdmalib.System.Walk

namespace Rdmalib

open Base

open Function (update)

/-! ## 1. What a thread knows -/

/-- Within `tuple_of`: its arguments, whether the group or the region was missing, the region's
    entry, and whether its registration was refused. -/
structure Lookup where
  asking : Option (UInt32 × UInt32) := none
  missing : Bool := false
  region : Option RegionInfo := none
  refused : Bool := false

/-- What a thread knows of its conversation. -/
structure Party where
  role : Tid
  line : Option (Chan × Phase) := none
  /-- A reader: its connections between two updates, by group. -/
  parked : UInt32 → Option (Chan × Phase) := fun _ => none
  /-- A reader: the group of the update it is in, and the messages of the last exchange. -/
  call : Option UInt32 := none
  heard : List Message := []
  /-- A thread of the provider: the group asked for, and the group once it is there. -/
  group : Option UInt32 := none
  joined : Option UInt32 := none
  /-- The listing made for the request, and the answers of `tuple_of` since. -/
  listing : Option (List (UInt32 × RegionInfo)) := none
  found : List (Except Fault (Option Tuple)) := []
  lookup : Lookup := {}
  /-- The application thread: the id that was inserted last. -/
  inserted : Option UInt32 := none

/-- The error of a registration that the device refuses. -/
def regRefused : Fault := .err (.other "ibv_reg_mr failed")

namespace Party

/-- What the thread may say in a phase: a thread of the provider answers with a listing and its
    tuples, a reader asks for the group of its call. -/
def Says (k : Party) (p : Phase) (m : Message) : Prop :=
  if k.role.isProvider then
    match p with
    | .greeted => True
    | .asked _ => ∃ l, k.listing = some l ∧ k.found.length = l.length ∧
        m = .metadata (l.map fun e => e.2.desc e.1)
    | .told _ => ∃ l g, k.listing = some l ∧ k.found.length = l.length ∧ k.group = some g ∧
        m = .tuples g (tuplesOf l k.found)
    | .fresh | .idle _ => False
  else
    match p with
    | .fresh => True
    | .idle 0 => ∃ g, k.call = some g ∧ m = .wantGroup g
    | .idle (_ + 1) => m = .update
    | .greeted | .asked _ | .told _ => False

/-- `tuple_of` may return this. -/
def Answers (k : Party) (id g : UInt32) (r : Except Fault (Option Tuple)) : Prop :=
  k.lookup.asking = some (id, g) ∧
    match r with
    | .ok (some _) => True
    | .ok none => k.lookup.missing = true
    | .error e => (e = regRefused ∧ k.lookup.refused = true) ∨
        ∃ info, k.lookup.region = some info ∧ info.size = 0

/-- The exchange is the last thing heard, and `ingest` returns this. -/
def Ingests (k : Party) (g : UInt32) (result : Except Fault Unit) : Prop :=
  k.call = some g ∧ ∃ c j x, k.line = some (c, .idle (j + 1)) ∧ k.heard = [x.1, x.2] ∧
    (Serves g x → result = .ok ())

/-- What `update` leaves where it returns `Ok`. -/
def Returns (k : Party) (g : UInt32) (result : Except Fault Unit) (st : RemoteMemoryProvider) :
    Prop :=
  k.call = some g ∧ (result = .ok () → ∃ regions ts active,
    k.heard = [.metadata regions, .tuples g ts] ∧
      st.metadata = regions.map RemoteMemoryProvider.metadataOf ∧
        st.regions = recached g regions ts active)

/-! ## 2. The protocol -/

def may (k : Party) : Op → Prop
  | .send c m => ∃ p, k.line = some (c, p) ∧ k.Says p m
  | .receive c => ∃ p, k.line = some (c, p) ∧ p.turn = !k.role.isProvider
  | .tcpConnect => ∃ i g, k.role = .reader i ∧ k.call = some g
  | .tcpAccept => k.role = .service
  | .spawnSession c g => k.role = .service ∧ k.line = some (c, .idle 1) ∧ k.group = some g ∧
      k.joined = some g
  | .awaitSession => ∃ n, k.role = .session n
  | .catalogSnapshot => ∃ c j g, k.line = some (c, .asked j) ∧ k.group = some g ∧ k.joined = some g
  | .tuplesGet id g => ∀ l, k.listing = some l → ∃ c j info, k.line = some (c, .asked j) ∧
      k.group = some g ∧ k.joined = some g ∧ l[k.found.length]? = some (id, info)
  | .groupsGetPd g => ∀ l, k.listing = some l → ∃ id, k.lookup.asking = some (id, g)
  | .catalogGet id => ∀ l, k.listing = some l → ∃ g, k.lookup.asking = some (id, g)
  | .verb (.regMr _ addr size) => ∀ l, k.listing = some l → ∃ id g info,
      k.lookup.asking = some (id, g) ∧ k.lookup.region = some info ∧ addr = info.remoteAddr ∧
        size = info.size
  | .note (.tupleOf id g r) => k.Answers id g r
  | .note (.registered id) => k.inserted = some id
  | .note (.updateBegins _) => (∃ i, k.role = .reader i) ∧ k.call = none
  | .note (.ingested g result) => (∃ i, k.role = .reader i) ∧ k.Ingests g result
  | .note (.updateReturns g result st) => (∃ i, k.role = .reader i) ∧ k.Returns g result st
  | .groupsPush g _ => k.role = .service ∧ k.group = some g
  | .catalogInsert _ _ => k.role = .app
  | _ => True

/-- The thread has heard a message. -/
def hears (k : Party) (m : Message) : Party :=
  match k.line with
  | none => k
  | some (c, p) =>
      { k with
        line := some (c, p.next)
        heard := match p with
          | .told _ => k.heard ++ [m]
          | _ => [m]
        group := match p, m with
          | .idle 0, .wantGroup g => some g
          | .idle 0, _ => none
          | _, _ => k.group
        listing := none }

/-- The session thread takes its connection over. -/
def take (k : Party) (c : Chan) (g : UInt32) : Party :=
  { k with line := some (c, .idle 1), group := some g, joined := some g, listing := none }

def next (k : Party) (o : Op) (a : o.Ans) : Party :=
  match o, a with
  | .tcpConnect, .ok c => { k with line := some (c, .fresh), heard := [] }
  | .tcpAccept, some c =>
      { k with line := some (c, .fresh), group := none, joined := none, listing := none }
  | .send _ _, (.ok (), _) => { k with line := k.line.map fun e => (e.1, e.2.next) }
  | .send _ _, (.error _, _) => { k with line := none }
  | .receive _, (.ok m, _) => k.hears m
  | .receive _, (.error _, _) => { k with line := none }
  | .spawnSession _ _, _ => { k with line := none }
  | .awaitSession, (c, g) => k.take c g
  | .groupsPush g _, .ok () => { k with joined := some g }
  | .catalogInsert id _, _ => { k with inserted := some id }
  | .catalogSnapshot, l => { k with listing := some l, found := [], lookup := {} }
  | .tuplesGet id g, _ => { k with lookup := { asking := some (id, g) } }
  | .groupsGetPd _, a => { k with lookup.missing := a.isNone }
  | .catalogGet _, a => { k with lookup.missing := a.isNone, lookup.region := a }
  | .verb (.regMr _ _ _), none => { k with lookup.refused := true }
  | .note (.tupleOf _ _ r), _ => { k with found := k.found ++ [r], lookup := {} }
  | .note (.updateBegins g), _ =>
      { k with call := some g, line := k.parked g, parked := update k.parked g none, heard := [] }
  | .note (.ingested g _), _ => { k with line := none, parked := update k.parked g k.line }
  | .note (.updateReturns _ _ _), _ => { k with call := none, line := none }
  | _, _ => k

end Party

/-- **The protocol of the conversations.** -/
def talks : Protocol Op Op.Ans Party where
  may := Party.may
  next := Party.next

/-- The channels of a reader are connections that it keeps, each between two requests. -/
def RemoteMemoryProvider.Parks (st : RemoteMemoryProvider)
    (parked : UInt32 → Option (Chan × Phase)) : Prop :=
  ∀ g c, (st.session g).channel = some c → ∃ j, parked g = some (c, .idle (j + 1))

/-- What a thread knows at the start of a turn of its loop. -/
def partyEntry (k : Party) : Loop → Prop
  | .app => k.role = .app ∧ k.listing = none
  | .serviceStart | .service _ _ => k.role = .service
  | .sessionStart => ∃ n, k.role = .session n
  | .session c g => (∃ n, k.role = .session n) ∧ (∃ j, k.line = some (c, .idle (j + 1))) ∧
      k.group = some g ∧ k.joined = some g
  | .reader st => (∃ i, k.role = .reader i) ∧ k.call = none ∧ st.Parks k.parked
  | .net => k.role = .net

/-- What the threads know at the start. -/
def firstParty (t : Tid) : Party := { role := t }

theorem partyEntry_first (t : Tid) : partyEntry (firstParty t) (firstLoop t) := by
  cases t with
  | app => exact ⟨rfl, rfl⟩
  | service => exact rfl
  | session n => exact ⟨n, rfl⟩
  | reader i => exact ⟨⟨i, rfl⟩, rfl, fun g c hc => by cases hc⟩
  | net => exact rfl

/-! ## 3. Sending, receiving, and everything else -/

section Moves

variable {k : Party} {c : Chan} {p : Phase}

theorem still_next {o : Op} (h : o.Still) (k : Party) (a : o.Ans) : k.may o ∧ k.next o a = k := by
  cases o with
  | note n =>
      cases n with
      | panicked => exact ⟨trivial, rfl⟩
      | _ => exact absurd h id
  | verb v =>
      cases v with
      | regMr => exact absurd h id
      | _ => exact ⟨trivial, rfl⟩
  | tcpConnect | tcpAccept | send | receive | spawnSession | awaitSession | groupsPush
  | catalogInsert | catalogSnapshot | tuplesGet | groupsGetPd | catalogGet => exact absurd h id
  | _ => exact ⟨trivial, rfl⟩

/-- A C call is beside the conversation, but for a registration that is refused. -/
theorem Party.next_verb (k : Party) (v : Verb) (a : v.Ans) :
    ∃ refused, k.next (.verb v) a = { k with lookup.refused := refused } := by
  cases v with
  | regMr => cases a <;> exact ⟨_, rfl⟩
  | _ => exact ⟨_, rfl⟩

/-- Code beside the conversation changes nothing of it. -/
theorem still_follows {α : Type} {x : Code α} (h : Only Op.Still x) :
    Follows talks k x fun k' _ => k' = k := by
  refine h.follows (I := fun k' => k' = k) (fun k' o ho hk => ?_) rfl
  subst hk
  exact ⟨(still_next ho k' default).1, fun a => (still_next ho k' a).2⟩

theorem still_tries {α : Type} {x : Sys α} (h : Only Op.Still x.run) :
    Tries talks k x (fun k' _ => k' = k) fun k' _ => k' = k :=
  (still_follows h).mono fun k' r hk => by
    cases r with
    | ok a => exact hk
    | error e => exact hk

@[simp] theorem follows_party_verb {v : Verb} {Q : Party → v.Ans → Prop} :
    Follows talks k (verb v) Q ↔ k.may (.verb v) ∧ ∀ a, Q (k.next (.verb v) a) a := Iff.rfl

@[simp] theorem follows_party {o : Op} {Q : Party → o.Ans → Prop} :
    Follows talks k (perform o) Q ↔ k.may o ∧ ∀ a, Q (k.next o a) a := Iff.rfl

theorem Party.next_sent {m : Message} {n : Nat} (hline : k.line = some (c, p)) :
    k.next (.send c m) (.ok (), n) = { k with line := some (c, p.next) } := by
  unfold Party.next
  rw [hline]
  rfl

theorem send_talks {m : Message} (hline : k.line = some (c, p)) (hspoken : k.Says p m) :
    Tries talks k (Channel.send c m) (fun k' _ => k' = { k with line := some (c, p.next) })
      fun k' _ => k' = { k with line := none } := by
  unfold Channel.send
  rw [tries_bind, tries_lift]
  refine ⟨⟨p, hline, hspoken⟩, fun a => ?_⟩
  obtain ⟨a, n⟩ := a
  cases a with
  | ok u => exact Party.next_sent (m := m) (n := n) hline
  | error e => exact rfl

theorem receive_talks (hline : k.line = some (c, p)) (hturn : p.turn = !k.role.isProvider) :
    Tries talks k (Channel.receive c) (fun k' m => k' = k.hears m)
      fun k' _ => k' = { k with line := none } := by
  unfold Channel.receive
  rw [tries_bind, tries_lift]
  refine ⟨⟨p, hline, hturn⟩, fun a => ?_⟩
  obtain ⟨a, n⟩ := a
  cases a with
  | ok m => exact rfl
  | error e => exact rfl

end Moves

/-! ## 4. `catalog_and_tuples` -/

section Shared

variable {k : Party} {id g : UInt32}

/-- Inside `tuple_of`, about to return `r`. -/
structure Answering (k k' : Party) (id g : UInt32) (r : Except Fault (Option Tuple)) : Prop where
  same : k' = { k with lookup := k'.lookup }
  answers : k'.Answers id g r

theorem tupleOfBody_talks (hget : k.may (.tuplesGet id g)) :
    Follows talks k (Shared.tupleOfBody id g).run fun k' r => Answering k k' id g r := by
  rw [follows_run]
  have hdropped {k' : Party} {pd : Nat} {r : Except Fault (Option Tuple)}
      (h : Answering k k' id g r) :
      Follows talks k' (verb (.dropPd pd)) fun k₁ _ => Answering k k₁ id g r :=
    follows_party_verb.mpr ⟨trivial, fun _ => h⟩
  unfold Shared.tupleOfBody
  rw [tries_bind, tries_lift, follows_party]
  refine ⟨hget, fun found => ?_⟩
  cases found with
  | some mr => exact ⟨rfl, rfl, trivial⟩
  | none =>
  rw [tries_bind, tries_lift, follows_party]
  refine ⟨fun _ _ => ⟨id, rfl⟩, fun dom => ?_⟩
  cases dom with
  | none => exact ⟨rfl, rfl, rfl⟩
  | some dom =>
  rw [tries_bind, tries_lift, follows_party]
  refine ⟨fun _ _ => ⟨g, rfl⟩, fun info => ?_⟩
  cases info with
  | none =>
      rw [tries_bind, tries_lift]
      exact hdropped ⟨rfl, rfl, rfl⟩
  | some info =>
  rw [tries_bind, tries_attempt]
  have hfailed {k' : Party} {e : Fault} (h : Answering k k' id g (.error e)) :
      Tries talks k' (do verb (.dropPd dom.pd); throw e : Sys (Option Tuple))
        (fun k' a => Answering k k' id g (.ok a)) fun k' e => Answering k k' id g (.error e) := by
    rw [tries_bind, tries_lift]
    exact hdropped h
  unfold ProtectionDomain.registerAddr
  by_cases hsize : info.size = 0
  · rw [if_pos hsize]
    exact hfailed ⟨rfl, rfl, Or.inr ⟨info, rfl, hsize⟩⟩
  · rw [if_neg hsize, tries_bind, tries_lift, follows_party_verb]
    refine ⟨fun _ _ => ⟨id, g, info, rfl, rfl, rfl, rfl⟩, fun reg => ?_⟩
    cases reg with
    | none => exact hfailed ⟨rfl, rfl, Or.inl ⟨rfl, rfl⟩⟩
    | some reg =>
        obtain ⟨mr, lkey, rkey⟩ := reg
        simp only [tries_pure]
        rw [tries_bind, tries_lift, follows_party]
        refine ⟨trivial, fun _ => ?_⟩
        rw [tries_bind, tries_lift]
        exact hdropped ⟨rfl, rfl, trivial⟩

theorem tupleOf_talks (hget : k.may (.tuplesGet id g)) :
    Follows talks k (Shared.tupleOf id g) fun k' r =>
      k' = { k with found := k.found ++ [r], lookup := k'.lookup } := by
  unfold Shared.tupleOf
  rw [follows_bind]
  refine (tupleOfBody_talks hget).mono fun k₁ r h => ?_
  rw [follows_bind]
  refine ⟨h.answers, fun _ => ?_⟩
  have hsame := h.same
  generalize k₁.lookup = lookup at hsame
  subst hsame
  exact rfl

/-- The loop over the listing, of which `s` is left. -/
theorem describe_talks {l s : List (UInt32 × RegionInfo)} {c : Chan} {j : Nat}
    (hline : k.line = some (c, .asked j)) (hgroup : k.group = some g) (hjoined : k.joined = some g)
    (hlisting : k.listing = some l) (hs : l.drop k.found.length = s) :
    Follows talks k (Shared.describe g s) fun k' r => ∃ found,
      k' = { k with found := k.found ++ found, lookup := k'.lookup } ∧ found.length = s.length ∧
        r = (s.map fun e => e.2.desc e.1, tuplesOf s found) := by
  induction s generalizing k with
  | nil =>
      refine ⟨[], ?_, rfl, rfl⟩
      rw [List.append_nil]
  | cons e s ih =>
      obtain ⟨id, info⟩ := e
      unfold Shared.describe
      rw [follows_bind]
      have hhead : l[k.found.length]? = some (id, info) := by
        rw [← List.head?_drop, hs]
        rfl
      have hget : k.may (.tuplesGet id g) := by
        intro l' hl'
        cases hlisting.symm.trans hl'
        exact ⟨c, j, info, hline, hgroup, hjoined, hhead⟩
      refine (tupleOf_talks hget).mono fun k₁ r hk₁ => ?_
      rw [follows_bind]
      generalize k₁.lookup = lookup at hk₁
      subst hk₁
      have hrest : l.drop (k.found ++ [r]).length = s := by
        rw [List.length_append, List.length_singleton, ← List.drop_drop, hs]
        rfl
      refine (ih (k := { k with found := k.found ++ [r], lookup }) hline hgroup hjoined hlisting
        hrest).mono fun k₂ q h₂ => ?_
      obtain ⟨found, hk₂, hlen, rfl⟩ := h₂
      refine ⟨r :: found, ?_, congrArg (· + 1) hlen, rfl⟩
      rw [hk₂, List.append_assoc]
      rfl

theorem catalogAndTuples_talks {c : Chan} {j : Nat} (hline : k.line = some (c, .asked j))
    (hgroup : k.group = some g) (hjoined : k.joined = some g) :
    Follows talks k (Shared.catalogAndTuples g) fun k' r => ∃ l,
      k' = { k with listing := some l, found := k'.found, lookup := k'.lookup } ∧
        k'.found.length = l.length ∧
          r = (.metadata (l.map fun e => e.2.desc e.1), .tuples g (tuplesOf l k'.found)) := by
  unfold Shared.catalogAndTuples
  rw [follows_bind]
  refine ⟨⟨c, j, g, hline, hgroup, hjoined⟩, fun l => ?_⟩
  show Follows talks (k.next .catalogSnapshot l) (Shared.describe g l >>= _) _
  rw [follows_bind]
  refine (describe_talks (k := k.next .catalogSnapshot l) hline hgroup hjoined rfl
    rfl).mono fun k' r h => ?_
  obtain ⟨found, hk', hlen, rfl⟩ := h
  generalize k'.lookup = lookup at hk'
  subst hk'
  exact ⟨l, rfl, hlen, rfl⟩

end Shared

/-! ## 5. The threads of the provider -/

section Provider

variable {k : Party} {c : Chan} {g : UInt32} {j : Nat}

/-- In a handshake, before the group is known to be there. -/
structure Shaking (k k' : Party) (c : Chan) (p : Phase) : Prop where
  role : k'.role = k.role
  line : k'.line = some (c, p)
  listing : k'.listing = none

theorem Shaking.hears {k' : Party} {p : Phase} (h : Shaking k k' c p) (m : Message) :
    Shaking k (k'.hears m) c p.next := by
  unfold Party.hears
  rw [h.line]
  exact ⟨h.role, rfl, rfl⟩

theorem greet_talks (hrole : k.role.isProvider = true) (h : Shaking k k c .fresh) :
    Tries talks k (Service.greet c) (fun k' _ => Shaking k k' c (.idle 0))
      fun k' _ => k'.role = k.role := by
  unfold Service.greet
  rw [tries_bind]
  refine (receive_talks h.line (by rw [hrole]; rfl)).mono (fun k₁ m h₁ => ?_) fun k₁ _ h₁ => by
    rw [h₁]
  have hheard : Shaking k k₁ c .greeted := h₁ ▸ h.hears m
  cases m with
  | hello version =>
      by_cases hversion : version = PROTOCOL_VERSION
      · simp only [if_pos hversion]
        have hspoken : k₁.Says .greeted (.welcome version) := by
          unfold Party.Says
          rw [hheard.role, if_pos hrole]
          trivial
        refine (send_talks hheard.line hspoken).mono (fun k₂ _ h₂ => ?_) fun k₂ _ h₂ => ?_
        · exact h₂ ▸ ⟨hheard.role, rfl, hheard.listing⟩
        · exact h₂ ▸ hheard.role
      · simp only [if_neg hversion]
        exact hheard.role
  | welcome | wantGroup | update | metadata | tuples => exact hheard.role

theorem join_talks (hrole : k.role.isProvider = true) (h : Shaking k k c (.idle 0)) :
    Tries talks k (Service.join c)
      (fun k' group => Shaking k k' c (.asked 0) ∧ k'.group = some group)
      fun k' _ => k'.role = k.role := by
  unfold Service.join
  rw [tries_bind]
  refine (receive_talks h.line (by rw [hrole]; rfl)).mono (fun k₁ m h₁ => ?_) fun k₁ _ h₁ => by
    rw [h₁]
  have hheard : Shaking k k₁ c (.asked 0) := h₁ ▸ h.hears m
  cases m with
  | wantGroup group =>
      refine ⟨hheard, ?_⟩
      rw [h₁]
      unfold Party.hears
      rw [h.line]
      rfl
  | hello | welcome | update | metadata | tuples => exact hheard.role

/-- The rendezvous is not about the listing. -/
theorem rendezvous_talks {listener : Nat} (hlisting : k.listing = none) :
    Tries talks k (Service.rendezvous listener g)
      (fun k' _ => k' = { k with lookup := k'.lookup }) fun k' _ => k'.role = k.role := by
  unfold Service.rendezvous
  rw [tries_bind, tries_lift, follows_party]
  have hget : k.may (.groupsGetPd g) := by
    intro l hl
    cases hlisting.symm.trans hl
  refine ⟨hget, fun found => ?_⟩
  have honly : Only CmOp (Listener.acceptImpl listener found).run := acceptImpl_only
  have haccept := still_tries (k := talks.next k (.groupsGetPd g) found)
    (honly.mono fun _ => still_of_cmOp)
  cases found with
  | none => exact haccept.mono (fun k₁ _ h₁ => h₁ ▸ rfl) fun k₁ _ h₁ => h₁ ▸ rfl
  | some pd =>
      rw [tries_bind, tries_attempt]
      refine haccept.mono (fun k₁ conn h₁ => ?_) fun k₁ e h₁ => ?_
      · rw [tries_bind, tries_lift, follows_party_verb]
        exact ⟨trivial, fun _ => h₁ ▸ rfl⟩
      · rw [tries_bind, tries_lift, follows_party_verb]
        exact ⟨trivial, fun _ => h₁ ▸ rfl⟩

/-- The two messages of an exchange. -/
theorem exchange_talks {l : List (UInt32 × RegionInfo)} (hrole : k.role.isProvider = true)
    (hline : k.line = some (c, .asked j)) (hgroup : k.group = some g) (hlisting : k.listing = some l)
    (hlen : k.found.length = l.length) :
    Tries talks k (Channel.send c (.metadata (l.map fun e => e.2.desc e.1)))
      (fun k₁ _ => Tries talks k₁ (Channel.send c (.tuples g (tuplesOf l k.found)))
        (fun k' _ => k' = { k with line := some (c, .idle (j + 1)) })
        fun k' _ => k' = { k with line := none })
      fun k' _ => k' = { k with line := none } := by
  have hmetadata : k.Says (.asked j) (.metadata (l.map fun e => e.2.desc e.1)) := by
    unfold Party.Says
    rw [if_pos hrole]
    exact ⟨l, hlisting, hlen, rfl⟩
  refine (send_talks hline hmetadata).mono (fun k₁ _ h₁ => ?_) fun _ _ h₁ => h₁
  subst h₁
  have htuples : { k with line := some (c, .told j) }.Says (.told j)
      (.tuples g (tuplesOf l k.found)) := by
    unfold Party.Says
    rw [if_pos hrole]
    exact ⟨l, g, hlisting, hlen, hgroup, rfl⟩
  exact send_talks (k := { k with line := some (c, .told j) }) rfl htuples

/-- The first exchange of a session, and its thread. -/
theorem firstExchange_talks (hrole : k.role = .service) (hline : k.line = some (c, .asked 0))
    (hgroup : k.group = some g) (hjoined : k.joined = some g) :
    Tries talks k (do
        let (catalog, tuples) ← Shared.catalogAndTuples g
        Channel.send c catalog
        Channel.send c tuples
        perform (.spawnSession c g) : Sys Nat)
      (fun k' _ => k'.role = .service) fun k' _ => k'.role = .service := by
  rw [tries_bind, tries_lift]
  refine (catalogAndTuples_talks hline hgroup hjoined).mono fun k₁ r h₁ => ?_
  obtain ⟨l, hk₁, hlen, rfl⟩ := h₁
  generalize k₁.lookup = lookup at hk₁
  generalize k₁.found = found at hk₁ hlen
  subst hk₁
  have hexchange := exchange_talks (k := { k with listing := some l, found, lookup })
    (by rw [hrole]; rfl) hline hgroup rfl hlen
  simp only
  rw [tries_bind]
  refine hexchange.mono (fun k₂ _ h₂ => ?_) fun k₂ _ h₂ => h₂ ▸ hrole
  rw [tries_bind]
  refine h₂.mono (fun k₃ _ h₃ => ?_) fun k₃ _ h₃ => h₃ ▸ hrole
  subst h₃
  rw [tries_lift, follows_party]
  exact ⟨⟨hrole, rfl, hgroup, hjoined⟩, fun _ => hrole⟩

theorem handshake_talks {listener : Nat} (hrole : k.role = .service) (h : Shaking k k c .fresh) :
    Tries talks k (Service.handshake listener c) (fun k' _ => k'.role = .service)
      fun k' _ => k'.role = .service := by
  have hprovider : k.role.isProvider = true := by rw [hrole]; rfl
  unfold Service.handshake
  rw [tries_bind]
  have hnew : Tries talks k (Channel.new c) (fun k' c' => k' = k ∧ c' = c) fun k' _ => k' = k := by
    unfold Channel.new
    rw [tries_bind, tries_lift, follows_party]
    refine ⟨trivial, fun armed => ?_⟩
    cases armed with
    | ok u => exact ⟨rfl, rfl⟩
    | error e => exact rfl
  refine hnew.mono (fun k₀ c' h₀ => ?_) fun k₀ _ h₀ => h₀ ▸ hrole
  obtain ⟨rfl, rfl⟩ := h₀
  rw [tries_bind]
  refine (greet_talks hprovider h).mono (fun k₁ _ h₁ => ?_) fun _ _ h₁ => h₁.trans hrole
  have hrole₁ := h₁.role.trans hrole
  rw [tries_bind]
  refine (join_talks (by rw [hrole₁]; rfl) ⟨rfl, h₁.line, h₁.listing⟩).mono (fun k₂ group h₂ => ?_)
    fun _ _ h₂ => h₂.trans hrole₁
  obtain ⟨hshaking, hgroup⟩ := h₂
  have hrole₂ := hshaking.role.trans hrole₁
  rw [tries_bind]
  refine (rendezvous_talks hshaking.listing).mono (fun k₃ conn h₃ => ?_)
    fun _ _ h₃ => h₃.trans hrole₂
  generalize k₃.lookup = lookup at h₃
  subst h₃
  rw [tries_bind]
  refine ⟨⟨hrole₂, hgroup⟩, fun pushed => ?_⟩
  cases pushed with
  | error e => exact hrole₂
  | ok u =>
  exact firstExchange_talks (k := { k₂ with lookup := lookup, joined := some group }) hrole₂
    hshaking.line hgroup rfl

theorem serviceRun_talks {listener : Nat} {sessions : List Nat} (hrole : k.role = .service) :
    Follows talks k (Service.run listener sessions) fun k' r => ∀ l ∈ r, partyEntry k' l := by
  have hretain {k₁ : Party} (sessions : List Nat) (hrole₁ : k₁.role = .service) :
      Follows talks k₁ (do return some (.service listener (← Service.retainRunning sessions)))
        fun k' r => ∀ l ∈ r, partyEntry k' l := by
    rw [follows_bind]
    refine (still_follows (retainRunning_still sessions)).mono fun k₂ rest h₂ => ?_
    subst h₂
    intro l hl
    cases hl
    exact hrole₁
  unfold Service.run
  rw [follows_bind, follows_party]
  refine ⟨trivial, fun shutdown => ?_⟩
  cases shutdown with
  | true =>
      rw [if_pos rfl, follows_bind]
      refine (still_follows (joinAll_still sessions)).mono fun k₁ _ _ => ?_
      rw [follows_bind, follows_party]
      exact ⟨trivial, fun _ l hl => by cases hl⟩
  | false =>
  rw [if_neg Bool.false_ne_true, follows_bind, follows_party]
  refine ⟨hrole, fun stream => ?_⟩
  cases stream with
  | none => exact hretain sessions hrole
  | some stream =>
      simp only
      rw [follows_bind, follows_run]
      refine (handshake_talks (k := k.next .tcpAccept (some stream)) hrole ⟨rfl, rfl, rfl⟩).mono
        (fun k₁ n h₁ => hretain _ h₁) fun k₁ e h₁ => ?_
      cases e with
      | err e => exact hretain sessions h₁
      | panic =>
          rw [follows_bind, follows_party]
          exact ⟨trivial, fun _ l hl => by cases hl⟩

theorem waitForUpdates_talks (h : partyEntry k (.session c g)) :
    Follows talks k (SessionThread.waitForUpdates c g) fun k' r => ∀ l ∈ r, partyEntry k' l := by
  obtain ⟨⟨n, hrole⟩, ⟨j, hline⟩, hgroup, hjoined⟩ := h
  have hprovider : k.role.isProvider = true := by rw [hrole]; rfl
  have hexit (k₁ : Party) : Follows talks k₁ (do perform .exit; return none : Code (Option Loop))
      fun k' r => ∀ l ∈ r, partyEntry k' l := by
    rw [follows_bind, follows_party]
    exact ⟨trivial, fun _ l hl => by cases hl⟩
  have hleave (fault : Fault) (k₁ : Party) : Follows talks k₁ (SessionThread.leave fault)
      fun k' r => ∀ l ∈ r, partyEntry k' l := by
    cases fault with
    | err e => exact hexit k₁
    | panic => exact ⟨trivial, fun _ => hexit k₁⟩
  unfold SessionThread.waitForUpdates
  rw [follows_bind, follows_party]
  refine ⟨trivial, fun shutdown => ?_⟩
  cases shutdown with
  | true =>
      rw [if_pos rfl]
      exact hexit k
  | false =>
  rw [if_neg Bool.false_ne_true, follows_bind, follows_run]
  refine (receive_talks hline (by rw [hprovider]; rfl)).mono (fun k₁ m h₁ => ?_)
    fun k₁ fault _ => hleave fault k₁
  cases m with
  | hello | welcome | wantGroup | metadata | tuples => exact hexit k₁
  | update =>
  -- what is left of the turn, once the update is heard
  have hheard : k₁.line = some (c, .asked (j + 1)) ∧ k₁.group = some g ∧ k₁.joined = some g ∧
      k₁.role = .session n := by
    rw [h₁]
    unfold Party.hears
    rw [hline]
    exact ⟨rfl, hgroup, hjoined, hrole⟩
  clear h₁
  obtain ⟨hline₁, hgroup₁, hjoined₁, hrole₁⟩ := hheard
  simp only
  rw [follows_bind]
  refine (catalogAndTuples_talks hline₁ hgroup₁ hjoined₁).mono fun k₂ r h₂ => ?_
  obtain ⟨l, hk₂, hlen, rfl⟩ := h₂
  generalize k₂.lookup = lookup at hk₂
  generalize k₂.found = found at hk₂ hlen
  subst hk₂
  have hexchange := exchange_talks (k := { k₁ with listing := some l, found, lookup })
    (by rw [hrole₁]; rfl) hline₁ hgroup₁ rfl hlen
  simp only
  rw [follows_bind, follows_run, tries_bind]
  refine hexchange.mono (fun k₃ _ h₃ => ?_) fun k₃ fault _ => hleave fault k₃
  refine h₃.mono (fun k₄ _ h₄ => ?_) fun k₄ fault _ => hleave fault k₄
  intro l' hl'
  cases hl'
  exact h₄ ▸ ⟨⟨n, hrole₁⟩, ⟨j + 1, rfl⟩, hgroup₁, hjoined₁⟩

theorem registerTyped_talks {name : String} {buffer : Buffer} (hrole : k.role = .app) :
    Tries talks k (registerTyped name buffer) (fun k' _ => k' = { k with inserted := k'.inserted })
      fun k' _ => k' = k := by
  unfold registerTyped
  by_cases hsize : buffer.elemSize = 0
  · rw [if_pos hsize]
    exact rfl
  rw [if_neg hsize, tries_bind, tries_lift, follows_party]
  refine ⟨trivial, fun id => ?_⟩
  by_cases hid : id.toNat + 1 ≥ 2 ^ 32
  · simp only [if_pos hid]
    exact rfl
  simp only [if_neg hid]
  rw [tries_bind, tries_lift, follows_party]
  refine ⟨trivial, fun _ => ?_⟩
  rw [tries_bind, tries_lift, follows_party]
  refine ⟨trivial, fun _ => ?_⟩
  rw [tries_bind, tries_lift, follows_party]
  refine ⟨hrole, fun _ => ?_⟩
  rw [tries_bind, tries_lift, follows_party]
  exact ⟨rfl, fun _ => rfl⟩

theorem appTurn_talks (h : partyEntry k .app) :
    Follows talks k appTurn fun k' r => ∀ l ∈ r, partyEntry k' l := by
  obtain ⟨hrole, hlisting⟩ := h
  have hback {α : Type} {k' : Party} {r : Except Fault α} (hrole' : k'.role = k.role)
      (hlisting' : k'.listing = k.listing) :
      Follows talks k' (do unwinds r; return some Loop.app) fun k' r => ∀ l ∈ r, partyEntry k' l := by
    rw [follows_bind]
    refine (still_follows (unwinds_only trivial r)).mono fun k₁ _ h₁ l hl => ?_
    cases hl
    rw [h₁]
    exact ⟨hrole'.trans hrole, hlisting'.trans hlisting⟩
  unfold appTurn
  rw [follows_bind, follows_party]
  refine ⟨trivial, fun call => ?_⟩
  cases call with
  | registerTyped name buffer =>
      simp only
      rw [follows_bind, follows_run]
      refine (registerTyped_talks hrole).mono (fun k₁ _ h₁ => ?_) fun k₁ _ h₁ => ?_
      · rw [h₁]
        exact hback rfl rfl
      · rw [h₁]
        exact hback rfl rfl
  | getSharedMr id group =>
      have hget : k.may (.tuplesGet id group) := by
        intro l hl
        cases hlisting.symm.trans hl
      simp only
      rw [follows_bind, getSharedMr]
      refine (tupleOf_talks hget).mono fun k₁ r h₁ => ?_
      rw [h₁]
      exact hback rfl rfl
  | serve =>
      simp only
      rw [follows_bind]
      refine (still_follows serve_still).mono fun k₁ r h₁ => ?_
      rw [h₁]
      exact hback rfl rfl
  | drop =>
      simp only
      rw [follows_bind]
      refine (still_follows providerDrop_still).mono fun k₁ r h₁ => ?_
      rw [follows_bind, follows_party]
      exact ⟨trivial, fun _ l hl => by cases hl⟩

end Provider

/-! ## 6. Readers -/

section Reader

variable {k : Party} {c : Chan} {g : UInt32} {i : Nat} {st st₁ : RemoteMemoryProvider}

/-- Inside an update: the reader keeps its call and its other connections. -/
structure Within (k k' : Party) : Prop where
  role : k'.role = k.role
  call : k'.call = k.call
  parked : k'.parked = k.parked

theorem Within.trans {k' k'' : Party} (h : Within k k') (h' : Within k' k'') : Within k k'' :=
  ⟨h'.role.trans h.role, h'.call.trans h.call, h'.parked.trans h.parked⟩

theorem hears_within (m : Message) : Within k (k.hears m) := by
  unfold Party.hears
  split
  · exact ⟨rfl, rfl, rfl⟩
  · exact ⟨rfl, rfl, rfl⟩

/-- A reader sends what its phase says. -/
theorem readerSend_talks {m : Message} {p : Phase} (hline : k.line = some (c, p))
    (hspoken : k.Says p m) :
    Tries talks k (Channel.send c m) (fun k' _ => Within k k' ∧ k'.line = some (c, p.next))
      fun k' _ => Within k k' :=
  (send_talks hline hspoken).mono (fun _ _ h => h ▸ ⟨⟨rfl, rfl, rfl⟩, rfl⟩) fun _ _ h =>
    h ▸ ⟨rfl, rfl, rfl⟩

theorem readerReceive_talks {p : Phase} (hrole : k.role = .reader i) (hline : k.line = some (c, p))
    (hturn : p.turn = true) :
    Tries talks k (Channel.receive c)
      (fun k' m => Within k k' ∧ k'.line = some (c, p.next) ∧ k' = k.hears m)
      fun k' _ => Within k k' := by
  refine (receive_talks hline (by rw [hrole, hturn]; rfl)).mono (fun k' m h => ?_) fun k' _ h => ?_
  · refine ⟨h ▸ hears_within m, ?_, h⟩
    rw [h]
    unfold Party.hears
    rw [hline]
  · exact h ▸ ⟨rfl, rfl, rfl⟩

theorem connect_talks (hrole : k.role = .reader i) (hcall : k.call = some g) :
    Tries talks k Channel.connect (fun k' c => Within k k' ∧ k'.line = some (c, .fresh))
      fun k' _ => Within k k' := by
  unfold Channel.connect
  rw [tries_bind, tries_lift, follows_party]
  refine ⟨⟨i, g, hrole, hcall⟩, fun a => ?_⟩
  cases a with
  | error e => exact ⟨rfl, rfl, rfl⟩
  | ok c =>
      simp only
      unfold Channel.new
      rw [tries_bind, tries_lift, follows_party]
      refine ⟨trivial, fun armed => ?_⟩
      cases armed with
      | ok u => exact ⟨⟨rfl, rfl, rfl⟩, rfl⟩
      | error e => exact ⟨rfl, rfl, rfl⟩

/-- The greeting of a fresh session. -/
theorem readerGreet_talks (hrole : k.role = .reader i) (hcall : k.call = some g) :
    Tries talks k (RemoteMemoryProvider.greet g)
      (fun k' c => Within k k' ∧ k'.line = some (c, .asked 0)) fun k' _ => Within k k' := by
  have hreader {k' : Party} (h : Within k k') : k'.role.isProvider = false := by
    rw [h.role, hrole]
    rfl
  unfold RemoteMemoryProvider.greet
  rw [tries_bind]
  refine (connect_talks hrole hcall).mono (fun k₁ c h₁ => ?_) fun _ _ h => h
  obtain ⟨hwithin₁, hline₁⟩ := h₁
  rw [tries_bind]
  have hhello : k₁.Says .fresh (.hello PROTOCOL_VERSION) := by
    unfold Party.Says
    rw [hreader hwithin₁]
    trivial
  refine (readerSend_talks hline₁ hhello).mono (fun k₂ _ h₂ => ?_) fun _ _ h => hwithin₁.trans h
  obtain ⟨hwithin₂, hline₂⟩ := h₂
  have hwithin₂ := hwithin₁.trans hwithin₂
  rw [tries_bind]
  refine (readerReceive_talks (hwithin₂.role.trans hrole) hline₂ rfl).mono (fun k₃ m h₃ => ?_)
    fun _ _ h => hwithin₂.trans h
  obtain ⟨hwithin₃, hline₃, _⟩ := h₃
  have hwithin₃ := hwithin₂.trans hwithin₃
  have hjoin : Tries talks k₃ (do Channel.send c (.wantGroup g); return c : Sys Chan)
      (fun k' c => Within k k' ∧ k'.line = some (c, .asked 0)) fun k' _ => Within k k' := by
    have hwant : k₃.Says (.idle 0) (.wantGroup g) := by
      unfold Party.Says
      rw [hreader hwithin₃]
      exact ⟨g, hwithin₃.call.trans hcall, rfl⟩
    rw [tries_bind]
    exact (readerSend_talks hline₃ hwant).mono (fun _ _ h => ⟨hwithin₃.trans h.1, h.2⟩)
      fun _ _ h => hwithin₃.trans h
  cases m with
  | welcome version =>
      simp only
      by_cases hversion : version ≠ PROTOCOL_VERSION
      · rw [if_pos hversion]
        exact hwithin₃
      · rw [if_neg hversion]
        exact hjoin
  | hello | wantGroup | update | metadata | tuples => exact hwithin₃

/-- The exchange, and what was heard of it. -/
theorem receiveExchange_talks {j : Nat} (hrole : k.role = .reader i)
    (hline : k.line = some (c, .asked j)) :
    Tries talks k (receiveExchange c)
      (fun k' x => Within k k' ∧ k'.line = some (c, .idle (j + 1)) ∧ k'.heard = [x.1, x.2])
      fun k' _ => Within k k' := by
  unfold receiveExchange
  rw [tries_bind]
  refine (readerReceive_talks hrole hline rfl).mono (fun k₁ m₁ h₁ => ?_) fun _ _ h => h
  obtain ⟨hwithin₁, hline₁, hk₁⟩ := h₁
  rw [tries_bind]
  refine (readerReceive_talks (hwithin₁.role.trans hrole) hline₁ rfl).mono (fun k₂ m₂ h₂ => ?_)
    fun _ _ h => hwithin₁.trans h
  obtain ⟨hwithin₂, hline₂, hk₂⟩ := h₂
  refine ⟨hwithin₁.trans hwithin₂, hline₂, ?_⟩
  have hheard₁ : k₁.heard = [m₁] := by
    rw [hk₁]
    unfold Party.hears
    rw [hline]
  rw [hk₂]
  unfold Party.hears
  rw [hline₁]
  show k₁.heard ++ [m₂] = [m₁, m₂]
  rw [hheard₁]
  rfl

/-- An update has returned. -/
structure Spoken (k k' : Party) (g : UInt32) (result : Except Fault Unit)
    (st' : RemoteMemoryProvider) : Prop where
  role : k'.role = k.role
  returns : k'.Returns g result st'
  parks : st'.Parks k'.parked

/-- In an update of `g`: the connections of the other groups are parked. -/
structure Updating (k k' : Party) (g : UInt32) (st : RemoteMemoryProvider) : Prop where
  role : k'.role = k.role
  call : k'.call = some g
  others : ∀ g' c, g' ≠ g → (st.session g').channel = some c →
    ∃ j, k'.parked g' = some (c, .idle (j + 1))

theorem Updating.within {k₁ k₂ : Party} (h : Updating k k₁ g st) (hw : Within k₁ k₂) :
    Updating k k₂ g st :=
  ⟨hw.role.trans h.role, hw.call.trans h.call, hw.parked ▸ h.others⟩

/-- The session of `g` changes, and no other. -/
theorem Updating.settled {k₁ : Party} (h : Updating k k₁ g st)
    (hsame : ∀ g' ≠ g, st₁.session g' = st.session g') : Updating k k₁ g st₁ :=
  ⟨h.role, h.call, fun g' c hg hc => h.others g' c hg (by rwa [hsame g' hg] at hc)⟩

/-- An update that fails without a channel. -/
theorem Updating.failed {k₁ : Party} (h : Updating k k₁ g st) (e : Fault)
    (hchannel : (st.session g).channel = none) : Spoken k k₁ g (.error e) st := by
  refine ⟨h.role, ⟨h.call, fun hok => by cases hok⟩, fun g' c hc => ?_⟩
  refine h.others g' c (fun hg => ?_) hc
  rw [hg, hchannel] at hc
  cases hc

theorem ingestNoted_talks {k₁ : Party} {x : Message × Message} {j : Nat} (hrole : k.role = .reader i)
    (h : Updating k k₁ g st) (hline : k₁.line = some (c, .idle (j + 1)))
    (hheard : k₁.heard = [x.1, x.2]) (hchannel : (st.session g).channel = some c) :
    Follows talks k₁ (st.ingestNoted g x) fun k' r => Spoken k k' g r.1 r.2 := by
  have hingests : k₁.Ingests g (st.ingest g x).1 := by
    refine ⟨h.call, c, j, x, hline, hheard, fun hserves => ?_⟩
    obtain ⟨regions, ts, rfl⟩ := hserves
    rw [ingest_served]
  unfold RemoteMemoryProvider.ingestNoted
  rw [follows_bind]
  refine ⟨⟨⟨i, h.role.trans hrole⟩, hingests⟩, fun _ => ?_⟩
  refine ⟨h.role, ⟨h.call, fun hok => ?_⟩, fun g' c' hc' => ?_⟩
  · obtain ⟨regions, ts, rfl⟩ := ingest_ok hok
    refine ⟨regions, ts, st.regions, hheard, ?_⟩
    rw [ingest_served]
    exact ⟨rfl, rfl⟩
  · have hsession : (st.ingest g x).2.session g' = st.session g' := session_ingest x g'
    rw [hsession] at hc'
    show ∃ j, update k₁.parked g k₁.line g' = _
    by_cases hg : g' = g
    · subst hg
      cases hchannel.symm.trans hc'
      rw [Function.update_self]
      exact ⟨j, hline⟩
    · rw [Function.update_of_ne hg]
      exact h.others g' c' hg hc'

theorem freshSession_talks {k₁ : Party} (hrole : k.role = .reader i) (h : Updating k k₁ g st)
    (hchannel : (st.session g).channel = none) :
    Follows talks k₁ (st.freshSession g) fun k' r => Spoken k k' g r.1 r.2 := by
  have hrole₁ := h.role.trans hrole
  unfold RemoteMemoryProvider.freshSession
  rw [follows_bind, follows_run]
  refine (readerGreet_talks hrole₁ h.call).mono (fun k₂ c h₂ => ?_) fun k₂ e h₂ =>
    (h.within h₂).failed e hchannel
  obtain ⟨hwithin, hline⟩ := h₂
  have hup := h.within hwithin
  simp only
  rw [follows_bind]
  refine (still_follows (connect_only.mono fun _ => still_of_cmOp)).mono fun k₃ connected h₃ => ?_
  subst h₃
  cases connected with
  | error e => exact hup.failed e hchannel
  | ok conn =>
  have hup₃ : Updating k k₃ g (st.setConnection g conn) :=
    hup.settled fun g' hg => session_other _ hg
  have hchannel₃ : ((st.setConnection g conn).session g).channel = none := by
    rw [session_setConnection]
    exact hchannel
  -- the old connection is dropped, if there is one
  have hrest
      (next : Except Fault (Message × Message) → Code (Except Fault Unit × RemoteMemoryProvider))
      (herror : ∀ e, next (.error e) = pure (.error e, st.setConnection g conn))
      (hok : ∀ x, next (.ok x) =
        ((st.setConnection g conn).setChannel g (some c)).ingestNoted g x) :
      Follows talks k₃ ((receiveExchange c).run >>= next) fun k' r => Spoken k k' g r.1 r.2 := by
    rw [follows_bind, follows_run]
    refine (receiveExchange_talks (hup.role.trans hrole) hline).mono (fun k₄ x h₄ => ?_)
      fun k₄ e h₄ => by
        rw [herror]
        exact (hup₃.within h₄).failed e hchannel₃
    obtain ⟨hwithin₄, hline₄, hheard⟩ := h₄
    rw [hok]
    refine ingestNoted_talks hrole ((hup₃.within hwithin₄).settled fun g' hg => session_other _ hg)
      hline₄ hheard ?_
    rw [session_setChannel]
  dsimp only
  cases (st.session g).connection.connection with
  | none => exact hrest _ (fun _ => rfl) fun _ => rfl
  | some old =>
      dsimp only
      rw [follows_bind]
      refine (still_follows ((connectionDrop_only old).mono fun _ => still_of_cmOp)).mono
        fun k₄ _ h₄ => ?_
      subst h₄
      exact hrest _ (fun _ => rfl) fun _ => rfl

theorem update_talks {k₁ : Party} (hrole : k.role = .reader i) (h : Updating k k₁ g st)
    (hline : ∀ c, (st.session g).channel = some c → ∃ j, k₁.line = some (c, .idle (j + 1))) :
    Follows talks k₁ (st.update g) fun k' r => Spoken k k' g r.1 r.2 := by
  have hup : Updating k k₁ g (st.setSession g (st.session g)) :=
    h.settled fun g' hg => session_other _ hg
  unfold RemoteMemoryProvider.update
  dsimp only
  split
  · next c hc =>
    have hchannel := hc
    rw [session_setSession] at hc
    obtain ⟨j, hline⟩ := hline c hc
    have hasks : k₁.Says (.idle (j + 1)) .update := by
      unfold Party.Says
      rw [h.role, hrole]
      rfl
    have hbroken {k₂ : Party} (e : Fault) (hwithin : Within k₁ k₂) :
        Spoken k k₂ g (.error e) ((st.setSession g (st.session g)).setChannel g none) := by
      have hclosed : (((st.setSession g (st.session g)).setChannel g none).session g).channel =
          none := by
        rw [session_setChannel]
      exact Updating.failed ((hup.within hwithin).settled fun g' hg => session_other _ hg) e hclosed
    rw [follows_bind, refresh, follows_run, tries_bind]
    refine (readerSend_talks hline hasks).mono (fun k₂ _ h₂ => ?_) fun k₂ e h₂ => hbroken e h₂
    refine (receiveExchange_talks ((h₂.1.role.trans h.role).trans hrole) h₂.2).mono
      (fun k₃ x h₃ => ?_) fun k₃ e h₃ => hbroken e (h₂.1.trans h₃)
    exact ingestNoted_talks hrole (hup.within (h₂.1.trans h₃.1)) h₃.2.1 h₃.2.2 hchannel
  · next hc => exact freshSession_talks hrole hup hc

theorem dropConnections_still (sessions : List (UInt32 × GroupSession)) :
    Only Op.Still (RemoteMemoryProvider.dropConnections sessions) := by
  induction sessions with
  | nil => exact only_pure
  | cons s rest ih =>
      obtain ⟨g, s⟩ := s
      unfold RemoteMemoryProvider.dropConnections
      cases s.connection.connection with
      | none => exact ih
      | some conn =>
          exact only_bind ((connectionDrop_only conn).mono fun _ => still_of_cmOp) fun _ => ih

theorem readerTurn_talks (h : partyEntry k (.reader st)) :
    Follows talks k (readerTurn st) fun k' r => ∀ l ∈ r, partyEntry k' l := by
  obtain ⟨⟨i, hrole⟩, hcall, hparks⟩ := h
  unfold readerTurn
  rw [follows_bind, follows_party]
  refine ⟨trivial, fun call => ?_⟩
  cases call with
  | update g =>
      simp only
      rw [follows_bind, follows_party]
      refine ⟨⟨⟨i, hrole⟩, hcall⟩, fun _ => ?_⟩
      rw [follows_bind]
      have hup : Updating k (k.next (.note (.updateBegins g)) ()) g st := by
        refine ⟨rfl, rfl, fun g' c hg hc => ?_⟩
        show ∃ j, update k.parked g none g' = _
        rw [Function.update_of_ne hg]
        exact hparks g' c hc
      refine (update_talks hrole hup fun c hc => hparks g c hc).mono fun k₁ r h₁ => ?_
      obtain ⟨result, st'⟩ := r
      simp only
      rw [follows_bind, follows_party]
      refine ⟨⟨⟨i, h₁.role.trans hrole⟩, h₁.returns⟩, fun _ => ?_⟩
      intro l hl
      cases hl
      exact ⟨⟨i, h₁.role.trans hrole⟩, rfl, h₁.parks⟩
  | drop =>
      simp only
      rw [follows_bind]
      refine (still_follows (dropConnections_still _)).mono fun k₁ _ h₁ => ?_
      subst h₁
      intro l hl
      cases hl
      exact ⟨⟨i, hrole⟩, hcall, fun g c hc => by cases hc⟩

end Reader

/-! ## 7. The system -/

/-- **Every loop of the code follows the protocol of the conversations.** -/
theorem provider_talks : provider.Follows talks partyEntry where
  turn k l h := by
    cases l with
    | app => exact appTurn_talks h
    | serviceStart =>
        refine follows_bind.mpr ⟨trivial, fun listener => ?_⟩
        intro l hl
        cases hl
        exact h
    | service listener sessions => exact serviceRun_talks h
    | sessionStart =>
        refine follows_bind.mpr ⟨h, fun started => ?_⟩
        intro l hl
        cases hl
        exact ⟨h, ⟨0, rfl⟩, rfl, rfl⟩
    | session c g => exact waitForUpdates_talks h
    | reader st => exact readerTurn_talks h
    | net =>
        refine follows_bind.mpr ⟨trivial, fun notice => ?_⟩
        intro l hl
        cases hl
        exact h

end Rdmalib
