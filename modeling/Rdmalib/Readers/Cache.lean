/-
  File:      Rdmalib/Readers/Cache.lean
  Subject:   The caches of a `RemoteMemoryProvider` over any sequence of updates, whatever the
             remote replies and wherever they fail.

  * `Updates` -- the runs: any updates, with any answers to every operation in them;
  * `UpdateCall.served` -- the exchange that a successful update served;
  * `entryAfter` -- what one update does to the entry of one group under one key: the abstract
    cache, one entry at a time;
  * `Sound` -- what the sessions, the metadata and the regions have to do with each other.
-/
import Rdmalib.Base.History
import Rdmalib.Readers.Provider

namespace Rdmalib

open Base

/-! ## 1. What an update hears and leaves behind -/

/-- What an answer adds to the messages received. -/
def heard : (o : Op) → o.Ans → List Message
  | .receive _, (.ok m, _) => [m]
  | _, _ => []

/-- A thread that knows the messages it has received, and may do anything. -/
def listening : Protocol Op Op.Ans (List Message) where
  may _ _ := True
  next ms o a := ms ++ heard o a

/-- The messages received in a trace. -/
def received (tr : Trace Op Op.Ans) : List Message := tr.flatMap fun e => heard e.1 e.2

theorem after_listening (ms : List Message) (tr : Trace Op Op.Ans) :
    listening.after ms tr = ms ++ received tr := by
  induction tr generalizing ms with
  | nil => exact (List.append_nil ms).symm
  | cons e tr ih =>
      show listening.after (ms ++ heard e.1 e.2) tr = _
      rw [ih, received, received, List.flatMap_cons, List.append_assoc]

/-- The group has a session whose connection slot is filled. -/
def RemoteMemoryProvider.Filled (st : RemoteMemoryProvider) (g : UInt32) : Prop :=
  ∃ s, st.sessions.lookup g = some s ∧ s.connection.connection.isSome

/-- A session with a metadata channel has its slot filled. -/
def RemoteMemoryProvider.Connected (st : RemoteMemoryProvider) : Prop :=
  ∀ g s, st.sessions.lookup g = some s → s.channel.isSome → s.connection.connection.isSome

/-- A slot as the sessions keep it: empty, or with an established connection. -/
def GroupConnection.Usable (slot : GroupConnection) : Prop :=
  ∀ c, slot.connection = some c → c.pd.isSome

/-- Every slot is usable. -/
def RemoteMemoryProvider.Usable (st : RemoteMemoryProvider) : Prop :=
  ∀ g s, st.sessions.lookup g = some s → s.connection.Usable

/-- The key of a region in the cache. -/
def RegionDesc.key (region : RegionDesc) : String × UInt32 := (region.name, region.id)

/-- The cached regions after an ingest of `g`. -/
def recached (g : UInt32) (regions : List RegionDesc) (ts : List TupleDesc)
    (active : HashMap (String × UInt32) (List CachedRegion)) :
    HashMap (String × UInt32) (List CachedRegion) :=
  HashMap.retain
    (regions.foldl (RemoteMemoryProvider.ingestRegion g (RemoteMemoryProvider.tuplesById ts)) active)
    (regions.map RegionDesc.key).contains

/-- **What an update of `g` leaves behind**, by the messages received and the result: a failed one
    leaves the caches, a successful one has ingested the last two messages. -/
structure Updated (st : RemoteMemoryProvider) (g : UInt32) (ms : List Message)
    (result : Except Fault Unit) (st' : RemoteMemoryProvider) : Prop where
  failed : ∀ e, result = .error e → st'.metadata = st.metadata ∧ st'.regions = st.regions
  ingested : result = .ok () → ∃ before regions ts, ms = before ++ [.metadata regions, .tuples g ts] ∧
    st'.metadata = regions.map RemoteMemoryProvider.metadataOf ∧
      st'.regions = recached g regions ts st.regions
  connected : st'.Connected
  usable : st.Usable → st'.Usable
  filled : ∀ g', st.Filled g' → st'.Filled g'
  established : result = .ok () → st'.Filled g

section Update

variable {st : RemoteMemoryProvider} {g : UInt32} {ms : List Message}

theorem receive_listens (c : Chan) :
    Tries listening ms (Channel.receive c) (fun ms' m => ms' = ms ++ [m]) fun _ _ => True := by
  unfold Channel.receive
  rw [tries_bind, tries_lift]
  refine ⟨trivial, fun a => ?_⟩
  obtain ⟨r, n⟩ := a
  cases r with
  | ok m => exact rfl
  | error e => exact trivial

theorem receiveExchange_listens (c : Chan) :
    Tries listening ms (receiveExchange c) (fun ms' e => ms' = ms ++ [e.1, e.2]) fun _ _ => True := by
  unfold receiveExchange
  rw [tries_bind]
  refine (receive_listens c).mono (fun ms₁ catalog h₁ => ?_) fun _ _ h => h
  rw [tries_bind]
  refine (receive_listens c).mono (fun ms₂ tuples h₂ => ?_) fun _ _ h => h
  show ms₂ = ms ++ [catalog, tuples]
  rw [h₂, h₁, List.append_assoc]
  rfl

/-- Whatever else runs only adds to the messages. -/
theorem any_listens {α : Type} (p : Code α) :
    Follows listening ms p fun ms' _ => ∃ more, ms' = ms ++ more := by
  refine follows_any (I := fun ms' => ∃ more, ms' = ms ++ more) (fun _ _ => trivial) ?_
    ⟨[], (List.append_nil ms).symm⟩ p
  intro ms' o a ⟨more, h⟩
  exact ⟨more ++ heard o a, by rw [← List.append_assoc, ← h]; rfl⟩

theorem any_tries {α ε : Type} (x : ExceptT ε Code α) :
    Tries listening ms x (fun _ _ => True) fun _ _ => True :=
  (any_listens x.run).mono fun _ r _ => by cases r <;> trivial

/-- A step of which only the success matters. -/
theorem any_then {α β ε : Type} {x : ExceptT ε Code α} {f : α → ExceptT ε Code β}
    {Q : List Message → β → Prop}
    (hf : ∀ ms' a, Tries listening ms' (f a) Q fun _ _ => True) :
    Tries listening ms (x >>= f) Q fun _ _ => True := by
  rw [tries_bind]
  exact (any_tries x).mono (fun ms' a _ => hf ms' a) fun _ _ h => h

theorem createResources_listens {conn : Connection} {id : Nat} {pd : ProtectionDomain} :
    Tries listening ms (createResources conn id pd) (fun _ conn => conn.pd.isSome)
      fun _ _ => True := by
  unfold createResources
  refine any_then fun ms₁ context => any_then fun ms₂ cq => ?_
  split
  · exact any_then fun _ _ => trivial
  · refine any_then fun ms₃ ret => ?_
    split
    · exact any_then fun _ _ => trivial
    · exact rfl

/-- An established connection has a protection domain. -/
theorem connect_listens :
    Tries listening ms Connection.connect (fun _ conn => conn.pd.isSome) fun _ _ => True := by
  unfold Connection.connect
  refine any_then fun ms₁ _ => any_then fun ms₂ ptr => any_then fun ms₃ channel => ?_
  unfold Build.orDrop
  rw [tries_bind, tries_lift]
  have hconnect (conn : Connection) :
      Tries listening ms₃ (connectTo conn channel) (fun _ conn => conn.pd.isSome)
        fun _ _ => True := by
    unfold connectTo
    refine any_then fun _ id => any_then fun _ _ => any_then fun _ _ => any_then fun _ _ =>
      any_then fun _ _ => any_then fun _ _ => any_then fun ms₄ pd => ?_
    rw [tries_bind]
    refine createResources_listens.mono (fun ms₅ conn hpd => ?_) fun _ _ h => h
    exact any_then fun _ _ => any_then fun _ _ => hpd
  refine Follows.mono (hconnect _) fun ms₄ r hr => ?_
  cases r with
  | ok conn => exact hr
  | error e => exact any_then fun _ _ => trivial

theorem refresh_listens (c : Chan) : Tries listening ms (refresh c)
    (fun ms' e => ∃ before, ms' = before ++ [e.1, e.2]) fun _ _ => True := by
  unfold refresh
  rw [tries_bind]
  have hsend : Tries listening ms (Channel.send c .update) (fun _ _ => True) fun _ _ => True :=
    (any_listens _).mono fun _ r _ => by cases r <;> trivial
  refine hsend.mono (fun ms₁ _ _ => ?_) fun _ _ h => h
  exact (receiveExchange_listens c).mono (fun _ _ h => ⟨ms₁, h⟩) fun _ _ h => h

theorem lookup_setSession (s : GroupSession) (g' : UInt32) :
    (st.setSession g s).sessions.lookup g' = if g' = g then some s else st.sessions.lookup g' :=
  HashMap.lookup_insert _ _ _ _

theorem session_setSession (s : GroupSession) : (st.setSession g s).session g = s := by
  show ((st.setSession g s).sessions.lookup g).getD _ = s
  rw [lookup_setSession, if_pos rfl]
  rfl

theorem session_filled (h : st.Filled g) : (st.session g).connection.connection.isSome := by
  obtain ⟨s, hs, hf⟩ := h
  unfold RemoteMemoryProvider.session
  rw [hs]
  exact hf

/-- A session replaced by one that is no emptier. -/
theorem setSession_filled {s : GroupSession} {g' : UInt32}
    (hs : (st.session g).connection.connection.isSome → s.connection.connection.isSome)
    (h : st.Filled g') : (st.setSession g s).Filled g' := by
  by_cases hg : g' = g
  · subst hg
    exact ⟨s, by rw [lookup_setSession, if_pos rfl], hs (session_filled h)⟩
  · obtain ⟨s', hs', hf⟩ := h
    exact ⟨s', by rw [lookup_setSession, if_neg hg, hs'], hf⟩

theorem setSession_connected {s : GroupSession} (h : st.Connected)
    (hs : s.channel.isSome → s.connection.connection.isSome) : (st.setSession g s).Connected := by
  intro g' s' hlookup
  rw [lookup_setSession] at hlookup
  by_cases hg : g' = g
  · rw [if_pos hg] at hlookup
    cases hlookup
    exact hs
  · rw [if_neg hg] at hlookup
    exact h g' s' hlookup

theorem session_connected (h : st.Connected) :
    (st.session g).channel.isSome → (st.session g).connection.connection.isSome := by
  unfold RemoteMemoryProvider.session
  cases hs : st.sessions.lookup g with
  | none => exact fun e => by cases e
  | some s => exact h g s hs

theorem setSession_usable {s : GroupSession} (h : st.Usable) (hs : s.connection.Usable) :
    (st.setSession g s).Usable := by
  intro g' s' hlookup
  rw [lookup_setSession] at hlookup
  by_cases hg : g' = g
  · rw [if_pos hg] at hlookup
    cases hlookup
    exact hs
  · rw [if_neg hg] at hlookup
    exact h g' s' hlookup

theorem session_usable (h : st.Usable) : (st.session g).connection.Usable := by
  unfold RemoteMemoryProvider.session
  cases hs : st.sessions.lookup g with
  | none => exact nofun
  | some s => exact h g s hs

/-- An ingest that returns `Ok` got the catalog and the tuples of the group. -/
theorem ingest_ok {exchange : Message × Message} (h : (st.ingest g exchange).1 = .ok ()) :
    ∃ regions ts, exchange = (.metadata regions, .tuples g ts) := by
  obtain ⟨catalog, tuples⟩ := exchange
  unfold RemoteMemoryProvider.ingest at h
  split at h
  · rename_i regions served ts heq
    cases heq
    by_cases hs : served ≠ g
    · rw [if_pos hs] at h
      cases h
    · exact ⟨regions, ts, by rw [not_not.mp hs]⟩
  · cases h

theorem ingest_error {exchange : Message × Message} {e : Fault}
    (h : (st.ingest g exchange).1 = .error e) : (st.ingest g exchange).2 = st := by
  obtain ⟨catalog, tuples⟩ := exchange
  unfold RemoteMemoryProvider.ingest at h ⊢
  split at h
  · split at h
    · rename_i hs
      simp only [if_pos hs]
    · cases h
  · rfl

theorem ingest_served (regions : List RegionDesc) (ts : List TupleDesc) :
    st.ingest g (.metadata regions, .tuples g ts) = (.ok (), { st with
      metadata := regions.map RemoteMemoryProvider.metadataOf
      regions := recached g regions ts st.regions }) := by
  show (if g ≠ g then _ else _) = _
  have hlive : (fun key => decide (key ∈ regions.map RegionDesc.key)) =
      (regions.map RegionDesc.key).contains :=
    funext fun key => (List.contains_eq_mem key _).symm
  rw [if_neg (not_not.mpr rfl), recached, ← hlive]
  rfl

theorem ingest_sessions (exchange : Message × Message) :
    (st.ingest g exchange).2.sessions = st.sessions := by
  obtain ⟨catalog, tuples⟩ := exchange
  unfold RemoteMemoryProvider.ingest
  split
  · split <;> rfl
  · rfl

/-- `ingest` after the session was settled: the end of both paths of `update`. -/
theorem ingestNoted_updated {st₁ : RemoteMemoryProvider} {exchange : Message × Message}
    {before : List Message} (hms : ms = before ++ [exchange.1, exchange.2])
    (hmeta : st₁.metadata = st.metadata) (hregions : st₁.regions = st.regions)
    (hconn : st₁.Connected) (huse : st.Usable → st₁.Usable)
    (hfill : ∀ g', st.Filled g' → st₁.Filled g') (hg : st₁.Filled g) :
    Follows listening ms (st₁.ingestNoted g exchange) fun ms' r => Updated st g ms' r.1 r.2 := by
  have hfilled {g' : UInt32} (h : st₁.Filled g') : (st₁.ingest g exchange).2.Filled g' := by
    obtain ⟨s, hs, hf⟩ := h
    exact ⟨s, by rw [ingest_sessions, hs], hf⟩
  unfold RemoteMemoryProvider.ingestNoted
  rw [follows_bind]
  refine ⟨trivial, fun _ => ?_⟩
  show Updated st g (ms ++ []) (st₁.ingest g exchange).1 (st₁.ingest g exchange).2
  rw [List.append_nil]
  refine ⟨fun e he => ?_, fun hok => ?_, fun g' s hs => ?_, fun h g' s hs => ?_,
    fun g' h => hfilled (hfill g' h), fun _ => hfilled hg⟩
  · rw [ingest_error he]
    exact ⟨hmeta, hregions⟩
  · obtain ⟨regions, ts, rfl⟩ := ingest_ok hok
    refine ⟨before, regions, ts, hms, ?_⟩
    rw [ingest_served, ← hregions]
    exact ⟨rfl, rfl⟩
  · rw [ingest_sessions] at hs
    exact hconn g' s hs
  · rw [ingest_sessions] at hs
    exact huse h g' s hs

/-- An update that ends before the exchange was ingested. -/
theorem failed_updated {e : Fault} {st' : RemoteMemoryProvider} (hmeta : st'.metadata = st.metadata)
    (hregions : st'.regions = st.regions) (hconn : st'.Connected) (huse : st.Usable → st'.Usable)
    (hfill : ∀ g', st.Filled g' → st'.Filled g') : Updated st g ms (.error e) st' :=
  ⟨fun _ _ => ⟨hmeta, hregions⟩, nofun, hconn, huse, hfill, nofun⟩

theorem freshSession_updated {st₁ : RemoteMemoryProvider} (hmeta : st₁.metadata = st.metadata)
    (hregions : st₁.regions = st.regions) (hconn : st₁.Connected) (huse : st.Usable → st₁.Usable)
    (hfill : ∀ g', st.Filled g' → st₁.Filled g') :
    Follows listening ms (st₁.freshSession g) fun ms' r => Updated st g ms' r.1 r.2 := by
  unfold RemoteMemoryProvider.freshSession
  rw [follows_bind]
  refine (any_listens _).mono fun ms₁ greeted _ => ?_
  cases greeted with
  | error e => exact failed_updated hmeta hregions hconn huse hfill
  | ok c =>
  rw [follows_bind]
  refine Follows.mono connect_listens fun ms₂ connected hpd => ?_
  cases connected with
  | error e => exact failed_updated hmeta hregions hconn huse hfill
  | ok conn =>
  -- from here on the slot of the group is filled
  have hconn₂ : (st₁.setConnection g conn).Connected := setSession_connected hconn fun _ => rfl
  have huse₂ (h : st.Usable) : (st₁.setConnection g conn).Usable :=
    setSession_usable (huse h) fun c hc => Option.some.inj hc ▸ hpd
  have hfill₂ (g' : UInt32) (h : st.Filled g') : (st₁.setConnection g conn).Filled g' :=
    setSession_filled (fun _ => rfl) (hfill g' h)
  have hg : (st₁.setConnection g conn).Filled g :=
    ⟨_, by unfold RemoteMemoryProvider.setConnection; rw [lookup_setSession, if_pos rfl], rfl⟩
  have hrest (ms₃ : List Message)
      (k : Except Fault (Message × Message) → Code (Except Fault Unit × RemoteMemoryProvider))
      (herror : ∀ e, k (.error e) = pure (.error e, st₁.setConnection g conn))
      (hok : ∀ exchange, k (.ok exchange) =
        ((st₁.setConnection g conn).setChannel g (some c)).ingestNoted g exchange) :
      Follows listening ms₃ ((receiveExchange c).run >>= k) fun ms' r => Updated st g ms' r.1 r.2 := by
    rw [follows_bind]
    refine Follows.mono (receiveExchange_listens c) fun ms₄ r hr => ?_
    cases r with
    | error e =>
        rw [herror]
        exact failed_updated hmeta hregions hconn₂ huse₂ hfill₂
    | ok exchange =>
        rw [hok]
        refine ingestNoted_updated hr hmeta hregions ?_ (fun h => ?_) (fun g' h => ?_) ?_
        · exact setSession_connected hconn₂ fun _ => session_filled hg
        · exact setSession_usable (huse₂ h) (session_usable (huse₂ h))
        · exact setSession_filled (fun h => h) (hfill₂ g' h)
        · exact setSession_filled (fun h => h) hg
  dsimp only
  cases (st₁.session g).connection.connection with
  | none => exact hrest ms₂ _ (fun _ => rfl) fun _ => rfl
  | some old =>
      dsimp only
      rw [follows_bind]
      exact (any_listens _).mono fun ms₃ _ _ => hrest ms₃ _ (fun _ => rfl) fun _ => rfl

/-- **One update.** -/
theorem update_updated (hconn : st.Connected) :
    Follows listening ms (st.update g) fun ms' r => Updated st g ms' r.1 r.2 := by
  have hconn₁ : (st.setSession g (st.session g)).Connected :=
    setSession_connected hconn (session_connected hconn)
  have huse₁ (h : st.Usable) : (st.setSession g (st.session g)).Usable :=
    setSession_usable h (session_usable h)
  have hfill₁ (g' : UInt32) (h : st.Filled g') : (st.setSession g (st.session g)).Filled g' :=
    setSession_filled (fun h => h) h
  unfold RemoteMemoryProvider.update
  dsimp only
  split
  · rename_i c hc
    rw [follows_bind]
    refine Follows.mono (refresh_listens c) fun ms₁ r hr => ?_
    cases r with
    | error e =>
        refine failed_updated rfl rfl (setSession_connected hconn₁ fun h => by cases h) (fun h => ?_)
          fun g' h => ?_
        · exact setSession_usable (huse₁ h) (session_usable (huse₁ h))
        · exact setSession_filled (fun h => h) (hfill₁ g' h)
    | ok exchange =>
        obtain ⟨before, hms⟩ := hr
        refine ingestNoted_updated hms rfl rfl hconn₁ huse₁ hfill₁ ?_
        rw [session_setSession] at hc
        exact ⟨st.session g, by rw [lookup_setSession, if_pos rfl],
          session_connected hconn (by rw [hc]; rfl)⟩
  · exact freshSession_updated rfl rfl hconn₁ huse₁ hfill₁

end Update

/-! ## 2. One ingest, one entry -/

/-- The regions cached under a key. -/
def cachedUnder (active : HashMap (String × UInt32) (List CachedRegion)) (k : String × UInt32) :
    List CachedRegion :=
  (active.lookup k).getD []

/-- The last region of the catalog with key `k`. -/
def lastRegion (k : String × UInt32) (regions : List RegionDesc) : Option RegionDesc :=
  (regions.filter (·.key = k)).getLast?

/-- The last tuple of region `id`. -/
def lastTuple (id : UInt32) (ts : List TupleDesc) : Option TupleDesc :=
  (ts.filter (·.regionId = id)).getLast?

section Ingest

variable {g : UInt32} {k : String × UInt32} {active : HashMap (String × UInt32) (List CachedRegion)}

theorem lastRegion_snoc (regions : List RegionDesc) (region : RegionDesc) :
    lastRegion k (regions ++ [region]) =
      if region.key = k then some region else lastRegion k regions := by
  unfold lastRegion
  rw [List.filter_append]
  by_cases h : region.key = k <;> simp [h]

theorem lastRegion_isSome {regions : List RegionDesc} :
    (lastRegion k regions).isSome ↔ k ∈ regions.map RegionDesc.key := by
  unfold lastRegion
  rw [List.getLast?_isSome, ne_eq, List.filter_eq_nil_iff, List.mem_map]
  simp

theorem lastRegion_key {regions : List RegionDesc} {region : RegionDesc}
    (h : lastRegion k regions = some region) : region.key = k := by
  have := List.mem_of_getLast? h
  simpa using (List.mem_filter.mp this).2

theorem tuplesById_lookup (ts : List TupleDesc) (id : UInt32) :
    (RemoteMemoryProvider.tuplesById ts).lookup id = lastTuple id ts := by
  unfold RemoteMemoryProvider.tuplesById lastTuple
  induction ts using List.reverseRecOn with
  | nil => rfl
  | append_singleton ts tuple ih =>
      rw [List.foldl_append, List.filter_append]
      rw [List.foldl_cons, List.foldl_nil, HashMap.lookup_insert]
      by_cases h : id = tuple.regionId
      · simp [h]
      · rw [if_neg h, ih]
        simp [Ne.symm h]

/-- The entry of group `g` for a region, if the exchange had a tuple of it. -/
def entryOf (g : UInt32) (ts : List TupleDesc) (region : RegionDesc) : Option CachedRegion :=
  (lastTuple region.id ts).map (RemoteMemoryProvider.cachedOf g region)

theorem entryOf_group {ts : List TupleDesc} {region : RegionDesc} {e : CachedRegion}
    (h : e ∈ (entryOf g ts region).toList) : e.group = g := by
  obtain ⟨tuple, _, rfl⟩ := Option.map_eq_some_iff.mp (Option.mem_toList.mp h)
  rfl

/-- One turn of the loop of `ingest`. -/
theorem ingestRegion_cached (ts : List TupleDesc) (region : RegionDesc) :
    cachedUnder (RemoteMemoryProvider.ingestRegion g (RemoteMemoryProvider.tuplesById ts) active
        region) k =
      if region.key = k then
        (cachedUnder active k).filter (·.group ≠ g) ++ (entryOf g ts region).toList
      else cachedUnder active k := by
  unfold RemoteMemoryProvider.ingestRegion cachedUnder entryOf
  rw [show (region.name, region.id) = region.key from rfl, HashMap.lookup_insert, tuplesById_lookup]
  by_cases h : region.key = k
  · subst h
    rw [if_pos rfl, if_pos rfl]
    cases lastTuple region.id ts with
    | none => exact (List.append_nil _).symm
    | some tuple => rfl
  · rw [if_neg (Ne.symm h), if_neg h]

/-- **The loop of `ingest`**: under the key of a served region the other groups' entries stay, and
    the group's own is the one of the last such region; other keys are left alone. -/
theorem ingestRegions_cached (regions : List RegionDesc) (ts : List TupleDesc) :
    cachedUnder (regions.foldl
        (RemoteMemoryProvider.ingestRegion g (RemoteMemoryProvider.tuplesById ts)) active) k =
      match lastRegion k regions with
      | none => cachedUnder active k
      | some region =>
          (cachedUnder active k).filter (·.group ≠ g) ++ (entryOf g ts region).toList := by
  induction regions using List.reverseRecOn with
  | nil => rfl
  | append_singleton regions region ih =>
      rw [List.foldl_append, List.foldl_cons, List.foldl_nil, ingestRegion_cached, lastRegion_snoc]
      by_cases h : region.key = k
      · rw [if_pos h, if_pos h, ih]
        cases lastRegion k regions with
        | none => rfl
        | some before =>
            have hnone : (entryOf g ts before).toList.filter (·.group ≠ g) = [] :=
              List.filter_eq_nil_iff.mpr fun e he => by simp [entryOf_group he]
            simp only [List.filter_append, List.filter_filter, hnone, List.append_nil,
              Bool.and_self]
      · rw [if_neg h, if_neg h, ih]

/-- **One ingest**: keys that are not served go. -/
theorem recached_cached (regions : List RegionDesc) (ts : List TupleDesc) :
    cachedUnder (recached g regions ts active) k =
      match lastRegion k regions with
      | none => []
      | some region =>
          (cachedUnder active k).filter (·.group ≠ g) ++ (entryOf g ts region).toList := by
  have hloop : cachedUnder (regions.foldl
      (RemoteMemoryProvider.ingestRegion g (RemoteMemoryProvider.tuplesById ts)) active) k = _ :=
    ingestRegions_cached regions ts
  have hlive : k ∈ regions.map RegionDesc.key ↔ (lastRegion k regions).isSome := lastRegion_isSome.symm
  show ((recached g regions ts active).lookup k).getD [] = _
  rw [recached, HashMap.lookup_retain]
  cases h : lastRegion k regions with
  | none =>
      rw [h] at hlive
      rw [if_neg (by simpa using hlive)]
      rfl
  | some region =>
      rw [h] at hlive hloop
      rw [if_pos (by simpa using hlive)]
      exact hloop

theorem ingestRegions_isSome (regions : List RegionDesc) (byId : HashMap UInt32 TupleDesc) :
    ((regions.foldl (RemoteMemoryProvider.ingestRegion g byId) active).lookup k).isSome ↔
      k ∈ regions.map RegionDesc.key ∨ (active.lookup k).isSome := by
  induction regions using List.reverseRecOn with
  | nil => simp
  | append_singleton regions region ih =>
      rw [List.foldl_append, List.foldl_cons, List.foldl_nil]
      unfold RemoteMemoryProvider.ingestRegion at ih ⊢
      rw [HashMap.lookup_insert]
      by_cases h : k = (region.name, region.id)
      · simp [h, RegionDesc.key]
      · rw [if_neg h, ih]
        simp [h, RegionDesc.key]

/-- The keys after an ingest are those of the catalog. -/
theorem recached_isSome (regions : List RegionDesc) (ts : List TupleDesc) :
    ((recached g regions ts active).lookup k).isSome ↔ k ∈ regions.map RegionDesc.key := by
  rw [recached, HashMap.lookup_retain]
  by_cases h : k ∈ regions.map RegionDesc.key
  · rw [if_pos (by simpa using h), ingestRegions_isSome]
    exact ⟨fun _ => h, fun _ => Or.inl h⟩
  · rw [if_neg (by simpa using h)]
    exact ⟨nofun, fun h' => absurd h' h⟩

end Ingest

/-! ## 3. Runs of updates -/

/-- A call of `update`: its result, and the messages it received. -/
structure UpdateCall where
  group : UInt32
  result : Except Fault Unit
  heard : List Message

/-- The runs of a reader: updates of any groups, with any answers to what they perform. -/
inductive Updates : List UpdateCall → RemoteMemoryProvider → Prop where
  | new : Updates [] .new
  | update {calls : List UpdateCall} {st st' : RemoteMemoryProvider} {g : UInt32}
      {result : Except Fault Unit} {tr : Trace Op Op.Ans} (h : Updates calls st)
      (hr : (st.update g).Runs tr (result, st')) :
      Updates (calls ++ [⟨g, result, received tr⟩]) st'

/-- The exchange that a successful update served: the catalog and the tuples received last. -/
def UpdateCall.served (u : UpdateCall) : Option (List RegionDesc × List TupleDesc) :=
  match u.result, u.heard.reverse with
  | .ok (), .tuples _ ts :: .metadata regions :: _ => some (regions, ts)
  | _, _ => none

/-- **The abstract cache**: what an update does to the entry of group `g` under key `k`. -/
def entryAfter (g : UInt32) (k : String × UInt32) (old : Option CachedRegion) (u : UpdateCall) :
    Option CachedRegion :=
  match u.served with
  | none => old
  | some (regions, ts) =>
      match lastRegion k regions with
      | none => none
      | some region => if u.group = g then entryOf g ts region else old

/-- The entry of group `g` under key `k` after a history. -/
def heldEntry (g : UInt32) (k : String × UInt32) (calls : List UpdateCall) : Option CachedRegion :=
  calls.foldl (entryAfter g k) none

/-- The update was a successful one of group `g`, and served `e` under key `k`: the last tuple of
    the region with the layout of the last region with that key. -/
def UpdateCall.Enters (u : UpdateCall) (g : UInt32) (k : String × UInt32) (e : CachedRegion) : Prop :=
  u.group = g ∧ ∃ regions ts region tuple, u.served = some (regions, ts) ∧
    lastRegion k regions = some region ∧ lastTuple k.2 ts = some tuple ∧
      e = RemoteMemoryProvider.cachedOf g region tuple

/-- The update failed, or was one of another group whose catalog contained `k`. -/
def UpdateCall.Keeps (u : UpdateCall) (g : UInt32) (k : String × UInt32) : Prop :=
  ∀ regions ts, u.served = some (regions, ts) → u.group ≠ g ∧ k ∈ regions.map RegionDesc.key

/-- What `get_remote_mr` makes of an entry. -/
def regionOf (cached : CachedRegion) : RemoteMemoryRegion :=
  { remoteAddr := cached.remoteAddr, size := cached.size, rkey := cached.rkey,
    group := cached.group, elemSize := cached.elemSize, elemAlign := cached.elemAlign,
    elemType := cached.elemType }

section Runs

variable {calls : List UpdateCall} {st st' : RemoteMemoryProvider} {g : UInt32}
variable {k : String × UInt32} {result : Except Fault Unit} {tr : Trace Op Op.Ans}

theorem update_runs (hconn : st.Connected) (hr : (st.update g).Runs tr (result, st')) :
    Updated st g (received tr) result st' := by
  have hall : Follows listening [] (st.update g) fun ms r => Updated st g ms r.1 r.2 :=
    update_updated hconn
  have hupdated := hall.runs hr
  rwa [after_listening] at hupdated

/-- What one update does to the caches, by the exchange it served. -/
theorem Updated.step {ms : List Message} (h : Updated st g ms result st') :
    match (UpdateCall.mk g result ms).served with
    | none => st'.metadata = st.metadata ∧ st'.regions = st.regions
    | some (regions, ts) => result = .ok () ∧
        st'.metadata = regions.map RemoteMemoryProvider.metadataOf ∧
        st'.regions = recached g regions ts st.regions := by
  cases result with
  | error e => exact h.failed e rfl
  | ok u =>
      obtain ⟨before, regions, ts, rfl, hmeta, hregions⟩ := h.ingested rfl
      have hserved : (UpdateCall.mk g (.ok u) (before ++ [.metadata regions, .tuples g ts])).served =
          some (regions, ts) := by
        unfold UpdateCall.served
        simp
      rw [hserved]
      exact ⟨rfl, hmeta, hregions⟩

theorem Updates.connected (h : Updates calls st) : st.Connected := by
  induction h with
  | new => exact fun _ _ h => by cases h
  | update _ hr ih => exact (update_runs ih hr).connected

theorem Updates.usable (h : Updates calls st) : st.Usable := by
  induction h with
  | new => exact fun _ _ h => by cases h
  | update h hr ih => exact (update_runs h.connected hr).usable ih

/-- **The cache refines the abstract one**: under every key, the entries of a group are its abstract
    entry. -/
theorem Updates.refines (h : Updates calls st) (g : UInt32) (k : String × UInt32) :
    (cachedUnder st.regions k).filter (·.group = g) = (heldEntry g k calls).toList := by
  induction h with
  | new => rfl
  | @update calls st st' g' result tr h hr ih =>
      have hstep := (update_runs h.connected hr).step
      unfold heldEntry at ih ⊢
      rw [List.foldl_append, List.foldl_cons, List.foldl_nil]
      generalize calls.foldl (entryAfter g k) none = old at ih ⊢
      unfold entryAfter
      cases hs : (UpdateCall.mk g' result (received tr)).served with
      | none =>
          rw [hs] at hstep
          rw [hstep.2]
          exact ih
      | some s =>
          obtain ⟨regions, ts⟩ := s
          rw [hs] at hstep
          rw [hstep.2.2, recached_cached]
          dsimp only
          cases hl : lastRegion k regions with
          | none => rfl
          | some region =>
              dsimp only
              rw [List.filter_append, List.filter_filter]
              by_cases hg : g' = g
              · -- the group's own entry is the new one
                subst hg
                rw [if_pos rfl, List.filter_eq_nil_iff.mpr (by simp), List.nil_append]
                exact List.filter_eq_self.mpr fun e he => by simp [entryOf_group he]
              · -- another group's exchange leaves the entry alone
                have hfresh : (entryOf g' ts region).toList.filter (·.group = g) = [] :=
                  List.filter_eq_nil_iff.mpr fun e he => by simp [entryOf_group he, hg]
                rw [if_neg hg, hfresh, List.append_nil, ← ih]
                refine List.filter_congr fun e _ => ?_
                by_cases he : e.group = g
                · simp [he, Ne.symm hg]
                · simp [he]

theorem Updates.mem_cached (h : Updates calls st) {e : CachedRegion} :
    e ∈ cachedUnder st.regions k ∧ e.group = g ↔ heldEntry g k calls = some e := by
  rw [← Option.mem_toList, ← h.refines g k, List.mem_filter]
  simp

/-- At most one entry of a group under a key. -/
theorem Updates.nodup (h : Updates calls st) (k : String × UInt32) :
    ((cachedUnder st.regions k).map (·.group)).Nodup := by
  rw [List.nodup_iff_count_le_one]
  intro g
  have hcount : ((cachedUnder st.regions k).map (·.group)).count g =
      ((cachedUnder st.regions k).filter (·.group = g)).length := by
    rw [List.count_eq_countP, List.countP_map, List.countP_eq_length_filter]
    rfl
  rw [hcount, h.refines g k]
  cases heldEntry g k calls <;> simp

theorem getRemoteMr_eq (m : RemoteMemoryRegionMetadata) (q : Option UInt32) :
    st.getRemoteMr m q =
      ((cachedUnder st.regions (m.name, m.id)).find? fun e => q.all (e.group = ·)).map regionOf := by
  unfold RemoteMemoryProvider.getRemoteMr cachedUnder
  cases st.regions.lookup (m.name, m.id) with
  | none => rfl
  | some entries =>
      show (entries.find? _).bind _ = (entries.find? _).map _
      cases entries.find? fun e => q.all (e.group = ·) <;> rfl

/-- `get_remote_mr` of a group looks its abstract entry up. -/
theorem Updates.getRemoteMr (h : Updates calls st) (m : RemoteMemoryRegionMetadata) (g : UInt32) :
    st.getRemoteMr m (some g) = (heldEntry g (m.name, m.id) calls).map regionOf := by
  have hentry := h.refines g (m.name, m.id)
  rw [getRemoteMr_eq, show (fun e : CachedRegion => (some g).all (e.group = ·)) =
    fun e => decide (e.group = g) from rfl, ← List.head?_filter, hentry]
  cases heldEntry g (m.name, m.id) calls <;> rfl

/-- **What the cache holds for a group**, in terms of the history. -/
theorem entry_iff {e : CachedRegion} :
    heldEntry g k calls = some e ↔ Since (·.Enters g k e) (·.Keeps g k) calls := by
  unfold heldEntry
  refine foldl_eq_some_iff (fun u hu old => ?_) (fun u hu old => ?_) fun u old hp hq he => ?_
  · obtain ⟨hg, regions, ts, region, tuple, hs, hl, ht, rfl⟩ := hu
    have hkey := lastRegion_key hl
    subst hkey
    have he : entryOf g ts region = some (RemoteMemoryProvider.cachedOf g region tuple) := by
      unfold entryOf
      rw [show lastTuple region.id ts = some tuple from ht]
      rfl
    unfold entryAfter
    simp only [hs, hl, hg, if_true, he]
  · unfold entryAfter
    cases hs : u.served with
    | none => rfl
    | some s =>
        obtain ⟨hg, hk⟩ := hu s.1 s.2 hs
        obtain ⟨region, hl⟩ := Option.isSome_iff_exists.mp (lastRegion_isSome.mpr hk)
        simp only [hl, if_neg hg]
  · unfold entryAfter at he
    cases hs : u.served with
    | none => exact hq fun regions ts h => by rw [hs] at h; cases h
    | some s =>
        simp only [hs] at he
        cases hl : lastRegion k s.1 with
        | none => simp [hl] at he
        | some region =>
            simp only [hl] at he
            by_cases hg : u.group = g
            · rw [if_pos hg] at he
              obtain ⟨tuple, ht, he⟩ := Option.map_eq_some_iff.mp he
              have hkey := lastRegion_key hl
              subst hkey
              exact hp ⟨hg, s.1, s.2, region, tuple, hs, hl, ht, he.symm⟩
            · refine hq fun regions ts h => ⟨hg, ?_⟩
              rw [hs] at h
              cases h
              exact lastRegion_isSome.mp (by rw [hl]; rfl)

/-- A successful update has served the last two messages it received. -/
theorem Updates.served (h : Updates calls st) : ∀ u ∈ calls, u.result = .ok () →
    ∃ before regions ts, u.heard = before ++ [.metadata regions, .tuples u.group ts] ∧
      u.served = some (regions, ts) := by
  induction h with
  | new => exact nofun
  | @update calls st st' g result tr h hr ih =>
      intro u hu hok
      rcases List.mem_append.mp hu with hu | hu
      · exact ih u hu hok
      · rw [List.mem_singleton.mp hu] at hok ⊢
        obtain ⟨before, regions, ts, hheard, _⟩ := (update_runs h.connected hr).ingested hok
        refine ⟨before, regions, ts, hheard, ?_⟩
        have hok : result = .ok () := hok
        unfold UpdateCall.served
        simp [hok, hheard]

/-- An update of another group keeps the entry or clears it. -/
theorem entryAfter_other {u : UpdateCall} (hg : u.group ≠ g) (old : Option CachedRegion) :
    entryAfter g k old u = old ∨ ∀ old', entryAfter g k old' u = none := by
  unfold entryAfter
  cases u.served with
  | none => exact Or.inl rfl
  | some s =>
      dsimp only
      cases lastRegion k s.1 with
      | none => exact Or.inr fun _ => rfl
      | some region => exact Or.inl (if_neg hg)

theorem entryAfter_none {u : UpdateCall} (hg : u.group ≠ g) : entryAfter g k none u = none :=
  (entryAfter_other hg none).elim id fun h => h none

/-- **Updates of other groups commute.** -/
theorem entry_perm {pre us us' post : List UpdateCall} (hperm : us.Perm us')
    (hother : ∀ u ∈ us, u.group ≠ g) :
    heldEntry g k (pre ++ us ++ post) = heldEntry g k (pre ++ us' ++ post) := by
  unfold heldEntry
  simp only [List.foldl_append]
  congr 1
  refine hperm.foldl_eq' (fun u hu v hv old => ?_) _
  rcases entryAfter_other (k := k) (hother u hu) old with h | h
  · rw [h]
    rcases entryAfter_other (k := k) (hother v hv) old with h' | h'
    · rw [h', h]
    · rw [h', entryAfter_none (hother u hu)]
  · rw [h, entryAfter_none (hother v hv), h]

/-- Every successful update served a catalog with these keys. -/
def AllServe (catalog : List RegionDesc) (calls : List UpdateCall) : Prop :=
  ∀ u ∈ calls, ∀ regions ts, u.served = some (regions, ts) →
    ∀ k, k ∈ regions.map RegionDesc.key ↔ k ∈ catalog.map RegionDesc.key

/-- While all serve the same catalog, only the group's own updates count. -/
theorem entry_filter {catalog : List RegionDesc} (h : AllServe catalog calls) :
    heldEntry g k (calls.filter (·.group = g)) = heldEntry g k calls := by
  unfold heldEntry
  by_cases hk : k ∈ catalog.map RegionDesc.key
  · refine foldl_filter_of_keep fun u hu hg old => ?_
    unfold entryAfter
    cases hs : u.served with
    | none => rfl
    | some s =>
        have hks := (h u hu s.1 s.2 hs k).mpr hk
        obtain ⟨region, hl⟩ := Option.isSome_iff_exists.mp (lastRegion_isSome.mpr hks)
        simp only [hl]
        exact if_neg (by simpa using hg)
  · -- nothing is ever served under the key
    have hnone (us : List UpdateCall) (hus : ∀ u ∈ us, u ∈ calls) :
        us.foldl (entryAfter g k) none = none := by
      induction us with
      | nil => rfl
      | cons u us ih =>
          have hu : entryAfter g k none u = none := by
            unfold entryAfter
            cases hs : u.served with
            | none => rfl
            | some s =>
                have hl : lastRegion k s.1 = none := by
                  rw [← Option.not_isSome_iff_eq_none, lastRegion_isSome,
                    h u (hus u List.mem_cons_self) s.1 s.2 hs k]
                  exact hk
                simp only [hl]
          rw [List.foldl_cons, hu]
          exact ih fun v hv => hus v (List.mem_cons_of_mem _ hv)
    rw [hnone _ fun u hu => (List.mem_filter.mp hu).1, hnone _ fun u hu => hu]

end Runs

/-! ## 4. Results -/

/-- What the caches of a reader are, by its history of updates. -/
structure CachedBy (calls : List UpdateCall) (st : RemoteMemoryProvider) : Prop where
  served : ∀ u ∈ calls, u.result = .ok () →
    ∃ before regions ts, u.heard = before ++ [.metadata regions, .tuples u.group ts] ∧
      u.served = some (regions, ts)
  entries : ∀ (k : String × UInt32) (g : UInt32) (e : CachedRegion),
    e ∈ cachedUnder st.regions k ∧ e.group = g ↔ Since (·.Enters g k e) (·.Keeps g k) calls
  failed : ∀ (g : UInt32) (tr : Trace Op Op.Ans) (e : Fault) (st' : RemoteMemoryProvider),
    (st.update g).Runs tr (.error e, st') → st'.metadata = st.metadata ∧ st'.regions = st.regions
  reordered : ∀ (g : UInt32) (pre us us' post : List UpdateCall) (st' : RemoteMemoryProvider),
    calls = pre ++ us ++ post → us.Perm us' → (∀ u ∈ us, u.group ≠ g) →
      Updates (pre ++ us' ++ post) st' → ∀ m, st.getRemoteMr m (some g) = st'.getRemoteMr m (some g)
  interleaved : ∀ (g : UInt32) (catalog : List RegionDesc) (calls' : List UpdateCall)
    (st' : RemoteMemoryProvider), AllServe catalog calls → AllServe catalog calls' →
      calls.filter (·.group = g) = calls'.filter (·.group = g) → Updates calls' st' →
        ∀ m, st.getRemoteMr m (some g) = st'.getRemoteMr m (some g)

/-- **The cache after any run of updates**: under every key, a group has the entry that its last
    successful update served, if every later successful update served the key; failed updates
    change nothing; and a lookup does not depend on the order of other groups' updates. -/
theorem cached_by_history {calls : List UpdateCall} {st : RemoteMemoryProvider}
    (h : Updates calls st) : CachedBy calls st where
  served := h.served
  entries _ _ _ := h.mem_cached.trans entry_iff
  failed _ _ _ _ hr := (update_runs h.connected hr).failed _ rfl
  reordered g pre us us' post st' hcalls hperm hother h' m := by
    subst hcalls
    rw [h.getRemoteMr, h'.getRemoteMr, entry_perm hperm hother]
  interleaved g catalog calls' st' hall hall' hfilter h' m := by
    rw [h.getRemoteMr, h'.getRemoteMr, ← entry_filter hall, ← entry_filter hall', hfilter]

/-- The next message and the next event of a remote that answers well, and the ones after them. -/
def friendly (s : List Message × List CmEventType) (o : Op) : o.Ans × List Message × List CmEventType :=
  match o, s with
  | .receive _, (m :: ms, events) => ((.ok m, m.encode.length), ms, events)
  | .verb (.getCmEvent _), (ms, event :: events) => (.ok ⟨0, event, 0⟩, ms, events)
  | .verb .createEventChannel, _ | .verb (.createCq _), _ | .verb (.allocPd _), _ => (some 0, s)
  | .verb (.createId _), _ => (.ok 0, s)
  | .toSocketAddrs, _ => (.ok [.v4], s)
  | .tcpConnect, _ => (.ok 0, s)
  | .armTimeouts _, _ => (.ok (), s)
  | .send _ m, _ => ((.ok (), m.encode.length), s)
  | _, _ => (default, s)

/-- An update against such a remote. -/
def friendlyUpdate (st : RemoteMemoryProvider) (g : UInt32) (ms : List Message) :
    Trace Op Op.Ans × Except Fault Unit × RemoteMemoryProvider :=
  (st.update g).drive friendly (ms, [.addrResolved, .routeResolved, .established])

/-- Two regions with one key, and two tuples of it: the last ones stay. -/
def twinExchange : List Message :=
  [.welcome PROTOCOL_VERSION,
    .metadata [⟨3, "heap", 64, 1, 1, "u8"⟩, ⟨3, "heap", 64, 8, 8, "u64"⟩],
    .tuples 7 [⟨3, 4096, 64, 11⟩, ⟨3, 8192, 64, 12⟩]]

def twinUpdate : Trace Op Op.Ans × Except Fault Unit × RemoteMemoryProvider :=
  friendlyUpdate .new 7 twinExchange

theorem twinUpdate_runs :
    Updates ([] ++ [⟨7, twinUpdate.2.1, received twinUpdate.1⟩]) twinUpdate.2.2 :=
  .update .new (Prog.drive_runs _ _ _)

theorem cached_by_history_twins :
    CachedBy [⟨7, twinUpdate.2.1, received twinUpdate.1⟩] twinUpdate.2.2 ∧
      cachedUnder twinUpdate.2.2.regions ("heap", 3) = [⟨8192, 64, 12, 7, 8, 8, "u64"⟩] :=
  ⟨cached_by_history twinUpdate_runs, by decide +kernel⟩

/-- How the sessions, the metadata and the cached regions of a reader fit together. -/
structure CachesSound (st : RemoteMemoryProvider) : Prop where
  keys : ∀ k, (st.regions.lookup k).isSome ↔ k ∈ st.metadata.map fun m => (m.name, m.id)
  groups : ∀ k, ((cachedUnder st.regions k).map (·.group)).Nodup
  slots : ∀ k, ∀ e ∈ cachedUnder st.regions k, st.Filled e.group
  handed : ∀ m q r, st.getRemoteMr m q = some r → st.Filled r.group
  any : ∀ m, (st.getRemoteMr m none).isSome ↔ ∃ g, (st.getRemoteMr m (some g)).isSome
  first : ∀ m r, st.getRemoteMr m none = some r → st.getRemoteMr m (some r.group) = some r

section Sound

variable {calls : List UpdateCall} {st : RemoteMemoryProvider}

theorem Updates.keys (h : Updates calls st) (k : String × UInt32) :
    (st.regions.lookup k).isSome ↔ k ∈ st.metadata.map fun m => (m.name, m.id) := by
  induction h with
  | new => exact ⟨nofun, nofun⟩
  | @update calls st st' g result tr h hr ih =>
      have hstep := (update_runs h.connected hr).step
      split at hstep
      · rw [hstep.1, hstep.2]
        exact ih
      · rw [hstep.2.1, hstep.2.2, recached_isSome, List.map_map]
        exact Iff.rfl

theorem Updates.slots (h : Updates calls st) (k : String × UInt32) :
    ∀ e ∈ cachedUnder st.regions k, st.Filled e.group := by
  induction h with
  | new => exact nofun
  | @update calls st st' g result tr h hr ih =>
      have hup := update_runs h.connected hr
      have hstep := hup.step
      intro e he
      split at hstep
      · rw [hstep.2] at he
        exact hup.filled _ (ih e he)
      · rw [hstep.2.2, recached_cached] at he
        split at he
        · cases he
        · rcases List.mem_append.mp he with he | he
          · exact hup.filled _ (ih e (List.mem_filter.mp he).1)
          · rw [entryOf_group he]
            exact hup.established hstep.1

theorem getRemoteMr_some {m : RemoteMemoryRegionMetadata} {q : Option UInt32}
    {r : RemoteMemoryRegion} (h : st.getRemoteMr m q = some r) :
    ∃ e ∈ cachedUnder st.regions (m.name, m.id), q.all (e.group = ·) ∧ r = regionOf e := by
  rw [getRemoteMr_eq] at h
  obtain ⟨e, he, rfl⟩ := Option.map_eq_some_iff.mp h
  have hall := List.find?_some (p := fun e : CachedRegion => q.all (e.group = ·)) he
  exact ⟨e, List.mem_of_find?_eq_some he, hall, rfl⟩

theorem getRemoteMr_isSome (m : RemoteMemoryRegionMetadata) (q : Option UInt32) :
    (st.getRemoteMr m q).isSome ↔
      ∃ e ∈ cachedUnder st.regions (m.name, m.id), q.all (e.group = ·) := by
  rw [getRemoteMr_eq, Option.isSome_map, List.find?_isSome]

/-- **The caches in every reachable state**: the cached keys are those of the metadata, a key has
    one entry of a group, every entry's group has a filled slot; so a lookup without a group finds
    a region iff one with some group does, and it is the one that its own group finds. -/
theorem caches_sound (h : Updates calls st) : CachesSound st where
  keys := h.keys
  groups := h.nodup
  slots := h.slots
  handed m q r hr := by
    obtain ⟨e, he, _, rfl⟩ := getRemoteMr_some hr
    exact h.slots _ e he
  any m := by
    simp only [getRemoteMr_isSome]
    constructor
    · intro ⟨e, he, _⟩
      exact ⟨e.group, e, he, by simp⟩
    · intro ⟨g, e, he, _⟩
      exact ⟨e, he, rfl⟩
  first m r hr := by
    rw [getRemoteMr_eq] at hr ⊢
    cases hc : cachedUnder st.regions (m.name, m.id) with
    | nil => simp [hc] at hr
    | cons e rest =>
        rw [hc] at hr
        cases hr
        simp [regionOf]

theorem caches_sound_twins : CachesSound twinUpdate.2.2 ∧
    (twinUpdate.2.2.getRemoteMr ⟨"heap", 3, 64, 8, 8, "u64"⟩ none).isSome :=
  ⟨caches_sound twinUpdate_runs, by decide +kernel⟩

end Sound

end Rdmalib
