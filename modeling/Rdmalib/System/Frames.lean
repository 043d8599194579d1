/-
  File:      Rdmalib/System/Frames.lean
  Subject:   The size of the messages that the provider's threads send, and which of them the
             other side accepts.

  * `accepted_iff` -- `read_frame` accepts an encoded message iff it fits `MAX_FRAME`;
  * `catalogFrame` -- the length of the catalog message of a catalog, as `read_frame` counts it;
  * `announces` -- the protocol in which a thread sends what it has last listed;
  * result: the two messages of an exchange are accepted iff the catalog fits a frame
    (`exchange_accepted_iff`).
-/
import Rdmalib.Meta.RoundTrip
import Rdmalib.System.Walk

namespace Rdmalib

open Base

/-! ## 1. What is accepted -/

/-- `read_frame` on the message's encoded frame returns `Ok` of that same message. -/
def Message.Accepted (m : Message) : Prop :=
  (readFrame : ExceptT Fault (StateM (List UInt8)) Message) m.encode = (.ok m, [])

theorem accepted_iff {m : Message} : m.Accepted ↔ m.Capped := by
  constructor
  · intro h
    obtain ⟨b0, b1, b2, b3, hb⟩ : ∃ b0 b1 b2 b3,
        u32Bytes (1 + UInt32.ofNat m.payload.length) = [b0, b1, b2, b3] := ⟨_, _, _, _, rfl⟩
    unfold Message.Accepted at h
    rw [encode_eq, hb] at h
    -- the frame is read to its end, and what the length field says is at most the cap
    have hread := readFrame_header b0 b1 b2 b3 m.ty m.payload
    rw [show b0 :: b1 :: b2 :: b3 :: m.ty :: m.payload =
      [b0, b1, b2, b3] ++ m.ty :: m.payload from rfl, h] at hread
    dsimp only at hread
    split at hread
    · cases hread
    · rename_i hlen
      split at hread
      · have hrest := List.drop_eq_nil_iff.mp (congrArg Prod.snd hread).symm
        unfold Message.Capped
        omega
      · cases hread
  · intro h
    have hread := readFrame_encode h []
    rwa [List.append_nil] at hread

/-- What a region adds to the catalog message. -/
def RegionInfo.frameShare (info : RegionInfo) : Nat :=
  28 + (strBytes info.name).length + (strBytes info.elemType).length

/-- The length of the catalog message, as `read_frame` counts it: its type, the count, and the
    regions. -/
def listingFrame (listing : List (UInt32 × RegionInfo)) : Nat :=
  5 + (listing.map fun e => e.2.frameShare).sum

def catalogFrame (catalog : HashMap UInt32 RegionInfo) : Nat :=
  listingFrame (HashMap.toList catalog)

theorem listingFrame_perm {s s' : List (UInt32 × RegionInfo)} (h : s.Perm s') :
    listingFrame s = listingFrame s' := by
  unfold listingFrame
  rw [(h.map _).sum_nat]

theorem images_length (s : List (UInt32 × RegionInfo)) :
    ((s.map fun e => e.2.desc e.1).flatMap regionImage).length =
      (s.map fun e => e.2.frameShare).sum := by
  induction s with
  | nil => rfl
  | cons e s ih =>
      rw [List.map_cons, List.flatMap_cons, List.length_append, ih, List.map_cons, List.sum_cons,
        length_regionImage]
      rfl

/-- **The catalog message** is accepted iff it fits. -/
theorem metadata_accepted_iff (s : List (UInt32 × RegionInfo)) :
    (Message.metadata (s.map fun e => e.2.desc e.1)).Accepted ↔ listingFrame s ≤ MAX_FRAME := by
  rw [accepted_iff]
  unfold Message.Capped listingFrame
  rw [metadata_payload, List.length_append, images_length]
  simp only [u32Bytes, length_leBytes]
  omega

/-- The tuples of a catalog are shorter than its regions. -/
theorem tuples_accepted {s : List (UInt32 × RegionInfo)} (hs : listingFrame s ≤ MAX_FRAME)
    (g : UInt32) {ts : List TupleDesc} (hts : ts.length ≤ s.length) :
    (Message.tuples g ts).Accepted := by
  have hshare : 28 * s.length ≤ (s.map fun e => e.2.frameShare).sum := by
    clear hs hts
    induction s with
    | nil => simp
    | cons e s ih =>
        rw [List.map_cons, List.sum_cons, List.length_cons]
        unfold RegionInfo.frameShare at ih ⊢
        omega
  have himages : (ts.flatMap tupleImage).length = 24 * ts.length := by
    clear hts
    induction ts with
    | nil => rfl
    | cons t ts ih =>
        rw [List.flatMap_cons, List.length_append, ih, length_tupleImage, List.length_cons]
        omega
  rw [accepted_iff]
  unfold Message.Capped
  unfold listingFrame at hs
  rw [MAX_FRAME_eq] at hs ⊢
  rw [tuples_payload, List.length_append, List.length_append, himages]
  simp only [u32Bytes, length_leBytes]
  omega

/-! ## 2. The exchange -/

/-- What a thread knows of its listing: the catalog it has read last. -/
structure Announce where
  role : Tid
  listing : List (UInt32 × RegionInfo) := []

/-- A message that a thread of the provider may send: the catalog message is of the regions it
    listed, the tuples are of some of them. -/
def Announce.Says (k : Announce) : Message → Prop
  | .metadata regions => regions = k.listing.map fun e => e.2.desc e.1
  | .tuples _ ts => ts.length ≤ k.listing.length
  | .hello _ | .welcome _ | .wantGroup _ | .update => True

/-- **Threads of the provider send what they have listed.** -/
def announces : Protocol Op Op.Ans Announce where
  may k
    | .send _ m => k.role.isProvider = true → k.Says m
    | _ => True
  next k
    | .catalogSnapshot, a => { k with listing := a }
    | _, _ => k

/-- An operation that neither sends nor lists. -/
def Op.Mute : Op → Prop
  | .send _ _ | .catalogSnapshot => False
  | _ => True

section Exchange

variable {k : Announce} {α : Type}

theorem mute_of_still {o : Op} (h : o.Still) : o.Mute := by
  cases o with
  | send | catalogSnapshot => exact h.elim
  | _ => trivial

theorem mute_of_cmOp {o : Op} (h : CmOp o) : o.Mute := mute_of_still (still_of_cmOp h)

theorem mute_of_ofTuple {o : Op} (h : o.OfTuple) : o.Mute := by
  cases o with
  | send | catalogSnapshot => exact h.elim
  | _ => trivial

/-- Mute code changes nothing. -/
theorem mute_follows {x : Code α} (h : Only Op.Mute x) :
    Follows announces k x fun k' _ => k' = k := by
  refine h.follows (I := fun k' => k' = k) (fun k' o ho hk => ?_) rfl
  cases o with
  | send | catalogSnapshot => exact absurd ho id
  | _ => exact ⟨trivial, fun _ => hk⟩

/-- **The loop of `catalog_and_tuples`**: a region for each entry of the listing, a tuple for some
    of them. -/
theorem describe_announces (g : UInt32) (s : List (UInt32 × RegionInfo)) :
    Follows announces k (Shared.describe g s) fun k' r => k' = k ∧
      r.1 = s.map (fun e => e.2.desc e.1) ∧ r.2.length ≤ s.length := by
  induction s generalizing k with
  | nil => exact ⟨rfl, rfl, Nat.le_refl _⟩
  | cons e s ih =>
      obtain ⟨id, info⟩ := e
      unfold Shared.describe
      rw [follows_bind]
      have htuple := mute_follows (k := k) ((tupleOf_only id g).mono fun _ => mute_of_ofTuple)
      refine htuple.mono fun k₁ found hk₁ => ?_
      rw [follows_bind]
      refine ih.mono fun k₂ r hr => ?_
      obtain ⟨regions, ts⟩ := r
      obtain ⟨hk₂, hregions, hrest⟩ := hr
      have hregions : regions = s.map fun e => e.2.desc e.1 := hregions
      have hrest : ts.length ≤ s.length := hrest
      refine ⟨hk₂.trans hk₁, ?_, ?_⟩
      · show info.desc id :: regions = _
        rw [hregions]
        rfl
      · have hone : (tupleDescs id found).length ≤ 1 := by
          unfold tupleDescs
          split
          · exact Nat.le_refl _
          · exact Nat.zero_le _
        show (tupleDescs id found ++ ts).length ≤ s.length + 1
        rw [List.length_append]
        omega

/-- **`catalog_and_tuples`** announces what it has listed. -/
theorem catalogAndTuples_announces (g : UInt32) :
    Follows announces k (Shared.catalogAndTuples g) fun k' r =>
      k'.role = k.role ∧ k'.Says r.1 ∧ k'.Says r.2 ∧
        r.1 = .metadata (k'.listing.map fun e => e.2.desc e.1) ∧ ∃ ts, r.2 = .tuples g ts := by
  unfold Shared.catalogAndTuples
  rw [follows_bind]
  refine ⟨trivial, fun listing => ?_⟩
  show Follows announces _ (Shared.describe g listing >>= _) _
  rw [follows_bind]
  refine (describe_announces g listing).mono fun k' r hr => ?_
  obtain ⟨regions, ts⟩ := r
  obtain ⟨rfl, hregions, hts⟩ := hr
  exact ⟨rfl, hregions, hts, congrArg Message.metadata hregions, ts, rfl⟩

end Exchange

/-! ## 3. The threads -/

section Threads

variable {k : Announce} {c : Chan} {g : UInt32}

/-- What holds of a thread between its operations: its role. -/
abbrev KeepsRole (k : Announce) {α : Type} (x : Code α) : Prop :=
  Follows announces k x fun k' _ => k'.role = k.role

theorem mute_keepsRole {α : Type} {x : Code α} (h : Only Op.Mute x) : KeepsRole k x :=
  (mute_follows h).mono fun _ _ hk => hk ▸ rfl

/-- Code beside the service keeps the role. -/
theorem still_keepsRole {α : Type} {x : Code α} (h : Only Op.Still x) : KeepsRole k x :=
  mute_keepsRole (h.mono fun _ => mute_of_still)

theorem keepsRole_bind {α β : Type} {x : Code α} {f : α → Code β} (hx : KeepsRole k x)
    (hf : ∀ k' a, k'.role = k.role → KeepsRole k' (f a)) : KeepsRole k (x >>= f) := by
  unfold KeepsRole at hx ⊢
  rw [follows_bind]
  exact hx.mono fun k' a hk => (hf k' a hk).mono fun k₂ _ hk₂ => hk₂.trans hk

theorem keepsRole_try {α β : Type} {x : Sys α} {f : α → Sys β} (hx : KeepsRole k x.run)
    (hf : ∀ k' a, k'.role = k.role → KeepsRole k' (f a).run) : KeepsRole k (x >>= f).run := by
  refine keepsRole_bind hx fun k' r hk => ?_
  cases r with
  | ok a => exact hf k' a hk
  | error e => exact rfl

theorem send_said {m : Message} (h : k.role.isProvider = true → k.Says m) :
    Follows announces k (Channel.send c m).run fun k' _ => k' = k := by
  refine ⟨h, fun a => ?_⟩
  obtain ⟨a, n⟩ := a
  cases a with
  | ok u => exact rfl
  | error e => exact rfl

theorem receive_keepsRole : KeepsRole k (Channel.receive c).run := by
  refine ⟨trivial, fun a => ?_⟩
  obtain ⟨a, n⟩ := a
  cases a with
  | ok m => exact rfl
  | error e => exact rfl

/-- The exchange: its two messages, and what follows. -/
theorem exchange_keepsRole {α : Type} {f : Sys α} (hf : ∀ k', k'.role = k.role → KeepsRole k' f.run) :
    KeepsRole k (do
      let (catalog, tuples) ← Shared.catalogAndTuples g
      Channel.send c catalog
      Channel.send c tuples
      f : Sys α).run := by
  show Follows announces k ((liftM (Shared.catalogAndTuples g) : Sys _).run >>= _) _
  rw [follows_bind]
  show Follows announces k ((Shared.catalogAndTuples g) >>= _) _
  rw [follows_bind]
  refine (catalogAndTuples_announces g).mono fun k₁ exchange h => ?_
  obtain ⟨hrole, hcatalog, htuples, _⟩ := h
  show Follows announces k₁ ((Channel.send c exchange.1).run >>= _) _
  rw [follows_bind]
  refine (send_said fun _ => hcatalog).mono fun k₂ sent hk₂ => ?_
  subst hk₂
  cases sent with
  | error e => exact hrole
  | ok u =>
  show Follows announces _ ((Channel.send c exchange.2).run >>= _) _
  rw [follows_bind]
  refine (send_said fun _ => htuples).mono fun k₃ sent hk₃ => ?_
  subst hk₃
  cases sent with
  | error e => exact hrole
  | ok u => exact (hf _ hrole).mono fun k₄ _ hk₄ => hk₄.trans hrole

theorem send_keepsRole {m : Message} (h : k.role.isProvider = true → k.Says m) :
    KeepsRole k (Channel.send c m).run :=
  (send_said h).mono fun _ _ hk => hk ▸ rfl

theorem rendezvous_only (listener : Nat) : Only Op.Mute (Service.rendezvous listener g).run := by
  have haccept (pd : Option ProtectionDomain) :
      Only Op.Mute (Listener.acceptImpl listener pd).run := acceptImpl_only.mono fun _ => mute_of_cmOp
  refine only_try (only_lift (only_perform trivial)) fun pd => ?_
  cases pd with
  | none => exact haccept none
  | some pd =>
      exact only_try (only_lift (haccept (some pd))) fun r =>
        only_try (only_lift (only_perform trivial)) fun _ => only_pure

theorem handshake_keepsRole (listener : Nat) : KeepsRole k (Service.handshake listener c).run := by
  refine keepsRole_try (still_keepsRole (channelNew_still c)) fun k₁ c hk₁ => ?_
  refine keepsRole_try ?_ fun k₂ _ hk₂ => ?_
  · refine keepsRole_try receive_keepsRole fun k' m hk' => ?_
    cases m with
    | hello version =>
        dsimp only
        split
        · exact send_keepsRole fun _ => trivial
        · exact rfl
    | welcome | wantGroup | update | metadata | tuples => exact rfl
  refine keepsRole_try ?_ fun k₃ group hk₃ => ?_
  · refine keepsRole_try receive_keepsRole fun k' m hk' => ?_
    cases m with
    | hello | welcome | wantGroup | update | metadata | tuples => exact rfl
  refine keepsRole_try (mute_keepsRole (rendezvous_only listener)) fun k₄ conn hk₄ => ?_
  refine keepsRole_try (mute_keepsRole (only_perform trivial)) fun k₅ _ hk₅ => ?_
  exact exchange_keepsRole fun k' _ =>
    mute_keepsRole (only_lift (only_perform (o := Op.spawnSession c group) trivial))

theorem serviceRun_keepsRole (listener : Nat) (sessions : List Nat) :
    KeepsRole k (Service.run listener sessions) := by
  unfold Service.run
  refine keepsRole_bind (mute_keepsRole (only_perform trivial)) fun k₁ shutdown hk₁ => ?_
  have hretain (sessions : List Nat) : Only Op.Still (do
      return some (Loop.service listener (← Service.retainRunning sessions)) : Code (Option Loop)) :=
    only_bind (retainRunning_still sessions) fun _ => only_pure
  cases shutdown with
  | true =>
      exact still_keepsRole (only_bind (joinAll_still sessions) fun _ => exit_still)
  | false =>
  refine keepsRole_bind (mute_keepsRole (only_perform trivial)) fun k₂ accepted hk₂ => ?_
  cases accepted with
  | none => exact still_keepsRole (hretain sessions)
  | some stream =>
  refine keepsRole_bind (handshake_keepsRole listener) fun k₃ r hk₃ => ?_
  rcases r with (e | _) | session
  · exact still_keepsRole (hretain sessions)
  · exact mute_keepsRole (only_bind (only_perform trivial) fun _ => only_pure)
  · exact still_keepsRole (hretain _)

theorem waitForUpdates_keepsRole : KeepsRole k (SessionThread.waitForUpdates c g) := by
  unfold SessionThread.waitForUpdates
  refine keepsRole_bind (mute_keepsRole (only_perform trivial)) fun k₁ shutdown hk₁ => ?_
  cases shutdown with
  | true => exact still_keepsRole exit_still
  | false =>
  refine keepsRole_bind receive_keepsRole fun k₂ r hk₂ => ?_
  rcases r with e | m
  · exact still_keepsRole (leave_still e)
  cases m with
  | hello | welcome | wantGroup | metadata | tuples => exact still_keepsRole exit_still
  | update =>
      show Follows announces k₂ (Shared.catalogAndTuples g >>= _) _
      rw [follows_bind]
      refine (catalogAndTuples_announces g).mono fun k₃ exchange h => ?_
      obtain ⟨hrole, hcatalog, htuples, _⟩ := h
      refine Follows.mono (Q := fun k' _ => k'.role = k₃.role) ?_ fun k₄ _ hk₄ => hk₄.trans hrole
      refine keepsRole_bind ?_ fun k₄ sent hk₄ => ?_
      · show Follows announces k₃ ((Channel.send c exchange.1).run >>= _) _
        rw [follows_bind]
        refine (send_said fun _ => hcatalog).mono fun k₄ sent hk₄ => ?_
        subst hk₄
        cases sent with
        | error e => exact rfl
        | ok u => exact send_keepsRole fun _ => htuples
      · cases sent with
        | error e => exact still_keepsRole (leave_still e)
        | ok u => exact rfl

theorem appTurn_only : Only Op.Mute appTurn := by
  have hregister (name : String) (buffer : Buffer) : Only Op.Mute (registerTyped name buffer).run := by
    unfold registerTyped
    split
    · exact only_pure
    refine only_try (only_lift (only_perform trivial)) fun id => ?_
    split
    · exact only_pure
    refine only_try (only_lift (only_perform trivial)) fun _ => ?_
    refine only_try (only_lift (only_perform trivial)) fun _ => ?_
    refine only_try (only_lift (only_perform trivial)) fun _ => ?_
    exact only_try (only_lift (only_perform trivial)) fun _ => only_pure
  have hback {α : Type} (r : Except Fault α) :
      Only Op.Mute (do unwinds r; return some Loop.app : Code (Option Loop)) :=
    only_bind (unwinds_only trivial r) fun _ => only_pure
  unfold appTurn
  refine only_bind (only_perform trivial) fun call => ?_
  cases call with
  | registerTyped name buffer => exact only_bind (hregister name buffer) hback
  | getSharedMr id g => exact only_bind ((tupleOf_only id g).mono fun _ => mute_of_ofTuple) hback
  | serve => exact only_bind (serve_still.mono fun _ => mute_of_still) hback
  | drop =>
      exact (only_bind providerDrop_still fun _ => exit_still).mono fun _ => mute_of_still

/-- What a thread that is none of the provider's does is its own affair. -/
theorem outside_keepsRole {α : Type} (hrole : k.role.isProvider = false) (x : Code α) :
    KeepsRole k x := by
  induction x generalizing k with
  | ret a => exact rfl
  | act o p ih =>
      have hnext (a : o.Ans) : (announces.next k o a).role = k.role := by
        cases o <;> rfl
      refine ⟨?_, fun a => ?_⟩
      · cases o with
        | send c m => exact fun h => absurd (hrole.symm.trans h) Bool.false_ne_true
        | _ => trivial
      · exact (ih a ((congrArg Tid.isProvider (hnext a)).trans hrole)).mono
          fun k' _ hk => hk.trans (hnext a)

end Threads

/-- A loop that the protocol of the system lets a thread of this role run. -/
def Announce.Runs (k : Announce) (l : Loop) : Prop := ∃ know, entry know l ∧ know.role = k.role

/-- **Every loop of the code announces what it has listed.** -/
theorem provider_announces : provider.Follows announces Announce.Runs where
  turn k l h := by
    obtain ⟨know, hentry, hrole⟩ := h
    have hnext := (provider_follows.turn know l hentry).keeps Know.role next_role
    have hkeeps : KeepsRole k (code l) := by
      cases l with
      | app => exact mute_keepsRole appTurn_only
      | serviceStart | sessionStart =>
          exact mute_keepsRole (only_bind (only_perform trivial) fun _ => only_pure)
      | service listener sessions => exact serviceRun_keepsRole listener sessions
      | session c g => exact waitForUpdates_keepsRole
      | reader st =>
          obtain ⟨i, hi⟩ := hentry
          exact outside_keepsRole (by rw [← hrole, hi]; rfl) _
      | net => exact mute_keepsRole (only_bind (only_perform trivial) fun _ => only_pure)
    refine (hkeeps.both hnext).mono fun k' r hr l' hl' => ?_
    obtain ⟨hk', know', hl, hknow'⟩ := hr
    exact ⟨know', hl l' hl', by rw [hknow', hrole, hk']⟩

/-! ## 4. Runs -/

/-- A message of the provider is about a catalog. -/
def Message.Tells (m : Message) (catalog : HashMap UInt32 RegionInfo) : Prop :=
  ∃ k : Announce, k.listing.Perm (HashMap.toList catalog) ∧ k.Says m

/-- The catalogs that threads have listed, and those that messages sent are about, are editions
    of the provider's. -/
structure Announced (w : World) (know : Tid → Announce) : Prop where
  role : ∀ t, (know t).role = t
  current : w.shared.catalog ∈ w.shared.editions
  listing : ∀ t, ∃ catalog ∈ w.shared.editions, (know t).listing.Perm (HashMap.toList catalog)
  sent : ∀ s ∈ w.tcp.chans, ∀ m ∈ s.sentP, ∃ catalog ∈ w.shared.editions, m.Tells catalog

section Runs

variable {w : World} {t : Tid} {know : Tid → Announce}

/-- What a thread starts with. -/
def firstAnnounce (t : Tid) : Announce := { role := t }

theorem runs_first (t : Tid) : (firstAnnounce t).Runs (firstLoop t) := by
  refine ⟨firstKnow t, entry_first t, ?_⟩
  cases t <;> rfl

theorem announced_start : Announced ({} : World) firstAnnounce where
  role _ := rfl
  current := List.mem_singleton.mpr rfl
  listing _ := ⟨∅, List.mem_singleton.mpr rfl, .nil⟩
  sent s hs := by cases hs

/-- The catalog is the last of its editions, and none is forgotten. -/
theorem editions_post (o : Op) (a : o.Ans) :
    (∀ catalog ∈ w.shared.editions, catalog ∈ (post t o a w).shared.editions) ∧
      (w.shared.catalog ∈ w.shared.editions →
        (post t o a w).shared.catalog ∈ (post t o a w).shared.editions) := by
  have hf := post_frame (t := t) (w := w) o a
  have hsame (h : (post t o a w).shared.editions = w.shared.editions)
      (h' : (post t o a w).shared.catalog = w.shared.catalog) :
      (∀ catalog ∈ w.shared.editions, catalog ∈ (post t o a w).shared.editions) ∧
        (w.shared.catalog ∈ w.shared.editions →
          (post t o a w).shared.catalog ∈ (post t o a w).shared.editions) := by
    rw [h, h']
    exact ⟨fun _ h => h, fun h => h⟩
  cases o with
  | catalogInsert id info =>
      exact ⟨fun _ h => List.mem_append_left _ h, fun _ => List.mem_append_right _ (List.mem_singleton.mpr rfl)⟩
  | dropShared =>
      exact ⟨fun _ h => List.mem_append_left _ h, fun _ => List.mem_append_right _ (List.mem_singleton.mpr rfl)⟩
  | tuplesInsert | tuplesClear => exact hsame rfl rfl
  | groupsPush g conn =>
      have hpush : (post t (.groupsPush g conn) a w) = pushPost t w g conn := rfl
      rw [hpush] at hsame ⊢
      unfold pushPost at hsame ⊢
      split at hsame
      · exact hsame rfl rfl
      · exact hsame rfl rfl
  | _ => exact hsame (by rw [hf.shared rfl]) (by rw [hf.shared rfl])

theorem Announced.step (h : Announced w know) {o : Op} {a : o.Ans} (hm : announces.may (know t) o)
    (hc : provider.can t o w a) :
    Announced (post t o a w) (Function.update know t (announces.next (know t) o a)) := by
  obtain ⟨hkept, hcurrent⟩ := editions_post (w := w) (t := t) o a
  refine ⟨fun u => ?_, hcurrent h.current, fun u => ?_, fun s hs m hmem => ?_⟩
  · have hrole : (announces.next (know t) o a).role = (know t).role := by
      cases o <;> rfl
    rw [proj_update Announce.role hrole u]
    exact h.role u
  · by_cases hu : u = t
    · subst hu
      rw [Function.update_self]
      cases o with
      | catalogSnapshot => exact ⟨_, hkept _ h.current, hc⟩
      | _ =>
          obtain ⟨catalog, hin, hperm⟩ := h.listing u
          exact ⟨catalog, hkept _ hin, hperm⟩
    · rw [Function.update_of_ne hu]
      obtain ⟨catalog, hin, hperm⟩ := h.listing u
      exact ⟨catalog, hkept _ hin, hperm⟩
  · rcases sentP_post hs hmem with ⟨s₀, hs₀, hold⟩ | ⟨hp, c, rfl⟩
    · obtain ⟨catalog, hin, htells⟩ := h.sent s₀ hs₀ m hold
      exact ⟨catalog, hkept _ hin, htells⟩
    · obtain ⟨catalog, hin, hperm⟩ := h.listing t
      exact ⟨catalog, hkept _ hin, know t, hperm, hm (by rw [h.role]; exact hp)⟩

theorem announced_reached {c : Config Tid Op World Loop Op.Ans} (h : provider.Reach start c) :
    ∃ know, Announced c.world know := by
  obtain ⟨know, hw⟩ := h.watched announces firstAnnounce
  exact ⟨know, hw.invariant provider_announces runs_first announced_start
    fun _ hl _ _ _ hm hc => hl.step hm hc⟩

end Runs

theorem greeting_accepted {m : Message}
    (h : match m with
      | .metadata _ | .tuples _ _ => False
      | _ => True) : m.Accepted := by
  rw [accepted_iff, Message.Capped, MAX_FRAME_eq]
  cases m with
  | hello v | welcome v =>
      show 1 + (putU16 [] v).length ≤ _
      simp [putU16, u16Bytes]
  | wantGroup g =>
      show 1 + (putU32 [] g).length ≤ _
      simp [putU32, u32Bytes]
  | update => decide
  | metadata | tuples => exact h.elim

/-- What is said of a catalog that fits a frame is accepted; its catalog message only then. -/
theorem Message.Tells.accepted {m : Message} {catalog : HashMap UInt32 RegionInfo}
    (h : m.Tells catalog) :
    (catalogFrame catalog ≤ MAX_FRAME → m.Accepted) ∧
      (∀ regions, m = .metadata regions → m.Accepted → catalogFrame catalog ≤ MAX_FRAME) := by
  obtain ⟨k, hperm, hsaid⟩ := h
  unfold catalogFrame
  rw [← listingFrame_perm hperm]
  cases m with
  | metadata regions =>
      have hregions : regions = k.listing.map fun e => e.2.desc e.1 := hsaid
      rw [hregions, metadata_accepted_iff]
      exact ⟨fun h => h, fun _ _ h => h⟩
  | tuples g ts => exact ⟨fun h => tuples_accepted h g hsaid, nofun⟩
  | hello | welcome | wantGroup | update => exact ⟨fun _ => greeting_accepted trivial, nofun⟩

/-- **What is sent is accepted iff the catalog fits a frame.** In every reachable state, the two
    messages that `catalog_and_tuples` makes from it are accepted iff its catalog fits; and every
    message that the provider has sent until then is about a catalog it has had: it is accepted
    where that one fits, and its catalog message only there. -/
theorem exchange_accepted_iff {c : Config Tid Op World Loop Op.Ans} (h : provider.Reach start c) :
    (∀ (t : Tid) (g : UInt32) (listing : List (UInt32 × RegionInfo)) (tr : Trace Op Op.Ans)
        (catalog tuples : Message), can t .catalogSnapshot c.world listing →
      (Shared.catalogAndTuples g).Runs (⟨.catalogSnapshot, listing⟩ :: tr) (catalog, tuples) →
        ((catalog.Accepted ∧ tuples.Accepted) ↔ catalogFrame c.world.shared.catalog ≤ MAX_FRAME)) ∧
    ∀ s ∈ c.world.tcp.chans, ∀ m ∈ s.sentP, ∃ catalog ∈ c.world.shared.editions,
      (catalogFrame catalog ≤ MAX_FRAME → m.Accepted) ∧
        (∀ regions, m = .metadata regions → m.Accepted → catalogFrame catalog ≤ MAX_FRAME) := by
  refine ⟨fun t g listing tr catalog tuples hc hruns => ?_, fun s hs m hm => ?_⟩
  · obtain ⟨listing', rest, htr, hruns⟩ := hruns
    cases htr
    have hruns : (Shared.describe g listing >>= _).Runs tr (catalog, tuples) := hruns
    obtain ⟨t₁, t₂, r, _, hdescribe, hends⟩ := runs_bind.mp hruns
    obtain ⟨regions, ts⟩ := r
    obtain ⟨_, hregions, hts⟩ := (describe_announces (k := ⟨t, []⟩) g listing).runs hdescribe
    have hregions : regions = listing.map fun e => e.2.desc e.1 := hregions
    cases hends.2
    unfold catalogFrame
    rw [← listingFrame_perm hc, hregions, metadata_accepted_iff]
    exact ⟨fun h => h.1, fun h => ⟨h, tuples_accepted h g hts⟩⟩
  · obtain ⟨know, hl⟩ := announced_reached h
    obtain ⟨catalog, hin, htells⟩ := hl.sent s hs m hm
    exact ⟨catalog, hin, htells.accepted⟩

/-- A run that registers one region, of this name. -/
def untilRegistered (name : String) : List Move :=
  calls (.registerTyped name ⟨4096, 16, 1, 1, "u8", by decide⟩) :: moves .app 6

/-- The region it registers. -/
def namedRegion (name : String) : RegionInfo := ⟨name, 4096, 16, 1, 1, "u8"⟩

theorem registered_reach (name : String) : ∃ c, provider.Reach start c ∧
    HashMap.toList c.world.shared.catalog = [(0, namedRegion name)] := by
  have hplay : ((provider.play start (untilRegistered name)).map fun c =>
      HashMap.toList c.world.shared.catalog) = some [(0, namedRegion name)] := rfl
  obtain ⟨c, hc, hcatalog⟩ := Option.map_eq_some_iff.mp hplay
  exact ⟨c, System.play_reach hc, hcatalog⟩

/-- The exchange about that region, for a group that nobody has joined. -/
def exchangeTrace (name : String) : Trace Op Op.Ans :=
  [⟨.catalogSnapshot, [(0, namedRegion name)]⟩, ⟨.tuplesGet 0 7, none⟩, ⟨.groupsGetPd 7, none⟩,
    ⟨.note (.tupleOf 0 7 (.ok none)), ()⟩]

theorem exchange_runs (name : String) : (Shared.catalogAndTuples 7).Runs (exchangeTrace name)
    (.metadata [(namedRegion name).desc 0], .tuples 7 []) :=
  ⟨_, _, rfl, _, _, rfl, _, _, rfl, _, _, rfl, rfl, rfl⟩

/-- A name of `2 ^ k` bytes. -/
def longName : Nat → String
  | 0 => "a"
  | k + 1 => longName k ++ longName k

theorem length_longName (k : Nat) : (strBytes (longName k)).length = 2 ^ k := by
  induction k with
  | zero => rfl
  | succ k ih =>
      have happend : strBytes (longName k ++ longName k) =
          strBytes (longName k) ++ strBytes (longName k) := by
        unfold strBytes
        rw [String.toByteArray_append, ByteArray.data_append, Array.toList_append]
      rw [longName, happend, List.length_append, ih]
      omega

theorem name_refused {name : String} (h : 2 ^ 20 ≤ (strBytes name).length) :
    ¬ Message.Accepted (.metadata [(namedRegion name).desc 0]) := by
  have haccepted := metadata_accepted_iff [(0, namedRegion name)]
  intro hread
  have hfits := haccepted.mp hread
  rw [MAX_FRAME_eq] at hfits
  have hframe : listingFrame [(0, namedRegion name)] = 35 + (strBytes name).length := by
    have htype : (strBytes "u8").length = 2 := by decide
    simp only [listingFrame, RegionInfo.frameShare, namedRegion, List.map_cons, List.map_nil,
      List.sum_cons, List.sum_nil, htype]
    omega
  omega

/-- A region with a long name, and the exchange about it. -/
theorem exchange_refused {name : String} (h : 2 ^ 20 ≤ (strBytes name).length) :
    ∃ c, provider.Reach start c ∧
      HashMap.toList c.world.shared.catalog = [(0, namedRegion name)] ∧
      ∃ listing tr catalog tuples, can .service .catalogSnapshot c.world listing ∧
        (Shared.catalogAndTuples 7).Runs (⟨.catalogSnapshot, listing⟩ :: tr) (catalog, tuples) ∧
          ¬ catalog.Accepted := by
  obtain ⟨c, hc, hcatalog⟩ := registered_reach name
  refine ⟨c, hc, hcatalog, [(0, namedRegion name)], _, _, _, ?_, exchange_runs name,
    name_refused h⟩
  show List.Perm _ (HashMap.toList c.world.shared.catalog)
  rw [hcatalog]

/-- **They are not always accepted**: the application registers one region of 16 bytes with a
    name of a mebibyte, and the catalog message of every exchange is refused. -/
theorem long_name_refused : ∃ c, provider.Reach start c ∧
    HashMap.toList c.world.shared.catalog = [(0, namedRegion (longName 20))] ∧
    ∃ listing tr catalog tuples, can .service .catalogSnapshot c.world listing ∧
      (Shared.catalogAndTuples 7).Runs (⟨.catalogSnapshot, listing⟩ :: tr) (catalog, tuples) ∧
        ¬ catalog.Accepted :=
  exchange_refused (length_longName 20).ge

/-- A short name is accepted. -/
theorem short_name_accepted : ∃ c, provider.Reach start c ∧
    Message.Accepted (.metadata [(namedRegion "r").desc 0]) ∧ Message.Accepted (.tuples 7 []) := by
  obtain ⟨c, hc, hcatalog⟩ := registered_reach "r"
  refine ⟨c, hc, ?_⟩
  refine ((exchange_accepted_iff hc).1 .service 7 [(0, namedRegion "r")] _ _ _ ?_
    (exchange_runs "r")).mpr ?_
  · show List.Perm _ (HashMap.toList c.world.shared.catalog)
    rw [hcatalog]
  · unfold catalogFrame
    rw [hcatalog]
    decide

end Rdmalib
