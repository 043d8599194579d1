/-
  File:      Rdmalib/Readers/Instances.lean
  Subject:   A reader whose remote is replaced by other provider instances: which instance served a
             region's tuple, and to which one the connection of its group leads.

  * `Tags` -- the session and the instance behind each channel, each cached tuple and each handle,
    where the connection in a group's slot leads, and where those it has held led;
  * `ReaderRuns` -- updates, lookups and accesses in any order, through any handle obtained so far,
    with any instance behind the ports at each connect;
  * result: a work request goes to the instance that served the tuple it carries as long as the
    session that served the tuple, and every later one of the group, was connected to this instance
    (`posted_to_own_instance`); an update that is connected and then fails is enough to break it
    (`posted_to_other_instance`).
-/
import Rdmalib.Readers.Allocating
import Rdmalib.Readers.Recovery

namespace Rdmalib

open Base

/-! ## 1. What an access posts -/

section Posting

variable {q : Request} {r : RemoteMemoryRegion} {slot : GroupConnection} {dev : Device} {h : Host}

/-- The work request carries the tuple of the region: its key, and an address from its own on. -/
def SendWr.Carries (wr : SendWr) (r : RemoteMemoryRegion) : Prop :=
  wr.rkey = r.rkey ∧ r.remoteAddr.toNat ≤ wr.remoteAddr

theorem inPlace_posts (hq : q.InPlace) (hslot : slot.Usable) :
    ∃ wrs, (q.outcome r slot dev h).2.posted = h.posted ++ wrs ∧ ∀ wr ∈ wrs, wr.Carries r := by
  have hnone : ∃ wrs, h.posted = h.posted ++ wrs ∧ ∀ wr ∈ wrs, SendWr.Carries wr r :=
    ⟨[], (List.append_nil _).symm, fun _ hwr => by cases hwr⟩
  have hp := plan_planned (r := r) hq
  rw [run_plan hq]
  cases hplan : q.plan r with
  | error e => exact hnone
  | ok p =>
      rw [hplan] at hp
      cases hp with
      | passed _ _ _ _ _ _ hsize hlen _ =>
      cases hc : slot.connection with
      | none =>
          obtain ⟨e, _, ho⟩ := transfer_closed r dev h p hc
          dsimp only
          rw [ho]
          exact hnone
      | some c =>
          obtain ⟨pd, hpd⟩ := Option.isSome_iff_exists.mp (hslot c hc)
          have hends := transfer_ends r dev h hc hpd (hsize.trans hlen.symm)
          dsimp only
          generalize (p.transfer r slot).outcome dev h = o at hends
          cases hends with
          | empty | unregistered | overflow | exhausted => exact hnone
          | posted lkey res h' _ _ _ hh =>
              refine ⟨_, hh, fun wr hwr => ?_⟩
              rw [List.mem_singleton.mp hwr]
              exact ⟨rfl, Nat.le_add_right _ _⟩

/-- **What any access posts** carries the tuple of its region. -/
theorem access_posts (hslot : slot.Usable) :
    ∃ wrs, (q.outcome r slot dev h).2.posted = h.posted ++ wrs ∧ ∀ wr ∈ wrs, wr.Carries r := by
  by_cases hq : q.Allocating
  · rw [allocating_outcome hq]
    by_cases hfit : Obtainable dev.grants q.byteLen
    · rw [dif_pos hfit]
      exact inPlace_posts (onto_inPlace hq) hslot
    · rw [dif_neg hfit]
      exact ⟨[], (List.append_nil _).symm, fun _ hwr => by cases hwr⟩
  · refine inPlace_posts ?_ hslot
    cases q with
    | read | readTyped => exact hq trivial
    | readInto | readIntoTyped | write | writeTyped => trivial

end Posting

/-! ## 2. Runs -/

/-- An instance of the provider behind the reader's address. -/
abbrev ProviderInstance := Nat

/-- Who served a tuple: the instance its channel led to, and the number of connections that the
    group had been given before the one of that channel's session. -/
structure Source where
  instanceId : ProviderInstance
  session : Nat

/-- An RDMA connection, and the instance that it leads to. -/
structure Link where
  connection : Connection
  instanceId : ProviderInstance

/-- Which instances are behind what the reader holds. -/
structure Tags where
  /-- The metadata channel of a group. -/
  channel : UInt32 → Source
  /-- The connection in the slot of a group, tagged where `update` puts it there. -/
  slot : UInt32 → Option Link
  /-- Where the connections that the slot of a group has held led, one after the other. -/
  connections : UInt32 → List ProviderInstance
  /-- The tuple that is cached under a key for a group. -/
  source : String × UInt32 → UInt32 → Source

namespace Tags

/-- The channel that an update of `g` uses, while TCP connects lead to `tcp`. -/
def channelOf (tags : Tags) (st : RemoteMemoryProvider) (g : UInt32) (tcp : ProviderInstance) :
    Source :=
  if (st.session g).channel.isNone then ⟨tcp, (tags.connections g).length⟩ else tags.channel g

/-- An update of `g` has filled the slot: it has run a fresh session, and this one waits for a second
    reply exactly when it has got its connection. -/
def Fills (st : RemoteMemoryProvider) (g : UInt32) (ks : List (Option Message)) : Prop :=
  (st.session g).channel.isNone ∧ 2 ≤ ks.length

instance (st : RemoteMemoryProvider) (g : UInt32) (ks : List (Option Message)) :
    Decidable (Fills st g ks) := inferInstanceAs (Decidable (_ ∧ _))

/-- After an update of `g` from `st` to `st'`, during which TCP connects lead to `tcp` and RDMA
    connects to `rdma`. -/
def after (tags : Tags) (st st' : RemoteMemoryProvider) (g : UInt32) (tcp rdma : ProviderInstance)
    (ks : List (Option Message)) (result : Except Fault Unit) : Tags where
  channel := Function.update tags.channel g (tags.channelOf st g tcp)
  slot :=
    if Fills st g ks then
      Function.update tags.slot g ((st'.session g).connection.connection.map (Link.mk · rdma))
    else tags.slot
  connections :=
    if Fills st g ks then Function.update tags.connections g (tags.connections g ++ [rdma])
    else tags.connections
  source :=
    match result with
    | .ok _ => fun k g' => if g' = g then tags.channelOf st g tcp else tags.source k g'
    | .error _ => tags.source

end Tags

/-- A region that was handed out, and who served its tuple. -/
structure Handle where
  region : RemoteMemoryRegion
  source : Source

/-- A work request, the handle it was posted through, what the slot of the handle's group held, with
    its tag, and where the connections of the group had led by then. -/
structure Posting where
  wr : SendWr
  handle : Handle
  slot : GroupConnection
  link : Option Link
  connections : List ProviderInstance

/-- The posting of `wr` through a handle. -/
def Tags.posting (tags : Tags) (st : RemoteMemoryProvider) (hd : Handle) (wr : SendWr) : Posting where
  wr := wr
  handle := hd
  slot := (st.session hd.region.group).connection
  link := tags.slot hd.region.group
  connections := tags.connections hd.region.group

/-- The connection in the slot, which the request was posted on, leads to the instance that served
    the tuple it carries. -/
def Posting.ToOwn (p : Posting) : Prop :=
  p.slot.connection = p.link.map Link.connection ∧
    p.link.map Link.instanceId = some p.handle.source.instanceId

instance (p : Posting) : Decidable p.ToOwn := inferInstanceAs (Decidable (_ ∧ _))

/-- Where the connections led, from the one of the session that served the tuple on. -/
def Posting.since (p : Posting) : List ProviderInstance :=
  p.connections.drop p.handle.source.session

/-- A run of a reader so far: the handles stay in use, whatever happens. -/
structure ReaderRun where
  st : RemoteMemoryProvider
  tags : Tags
  handles : List Handle
  posts : List Posting

/-- **Runs of one reader**: updates, lookups and accesses in any order, with any answers to every
    operation, while the instance behind the ports changes at any time, also between the two
    connects of one session. -/
inductive ReaderRuns : ReaderRun → Prop where
  | new (tags : Tags) (hnone : ∀ g, tags.slot g = none ∧ tags.connections g = []) :
      ReaderRuns ⟨.new, tags, [], []⟩
  | update {s : ReaderRun} {g : UInt32} {tr : Trace Op Op.Ans} {result : Except Fault Unit}
      {st' : RemoteMemoryProvider} (tcp rdma : ProviderInstance) (h : ReaderRuns s)
      (hr : (s.st.update g).Runs tr (result, st')) :
      ReaderRuns { s with st := st', tags := s.tags.after s.st st' g tcp rdma (replied tr) result }
  | lookup {s : ReaderRun} {m : RemoteMemoryRegionMetadata} {p : Option UInt32}
      {r : RemoteMemoryRegion} (h : ReaderRuns s) (hr : s.st.getRemoteMr m p = some r) :
      ReaderRuns
        { s with handles := s.handles ++ [⟨r, s.tags.source (m.name, m.id) r.group⟩] }
  | access {s : ReaderRun} {hd : Handle} (q : Request) (dev : Device) (host : Host)
      {wrs : List SendWr} (h : ReaderRuns s) (hmem : hd ∈ s.handles)
      (hposted : (q.outcome hd.region (s.st.session hd.region.group).connection dev host).2.posted =
        host.posted ++ wrs) :
      ReaderRuns { s with posts := s.posts ++ wrs.map (s.tags.posting s.st hd) }

/-! ## 3. Sources and connections -/

/-- What a slot holds, its tag, and where the connections of its group led: the tag is that of the
    connection in the slot, the last one of the group. -/
structure Tagged (slot : GroupConnection) (link : Option Link)
    (connections : List ProviderInstance) : Prop where
  slot : slot.connection = link.map Link.connection
  latest : link.map Link.instanceId = connections.getLast?

/-- **Every tuple is of a session that has been connected**: in the cache, in a handle, and still
    to come over an open channel, whose session is the one that filled the slot last. -/
structure Sourced (s : ReaderRun) : Prop where
  connected : s.st.Connected
  usable : s.st.Usable
  slots : ∀ g, Tagged (s.st.session g).connection (s.tags.slot g) (s.tags.connections g)
  channels : ∀ g, (s.st.session g).channel.isSome →
    (s.tags.channel g).session + 1 = (s.tags.connections g).length
  cached : ∀ k, ∀ e ∈ cachedUnder s.st.regions k,
    (s.tags.source k e.group).session < (s.tags.connections e.group).length
  handles : ∀ hd ∈ s.handles,
    hd.source.session < (s.tags.connections hd.region.group).length
  posts : ∀ p ∈ s.posts, p.wr.Carries p.handle.region ∧
    p.handle.source.session < p.connections.length ∧ Tagged p.slot p.link p.connections

section Sources

variable {s : ReaderRun} {g : UInt32} {tcp rdma : ProviderInstance} {ks : List (Option Message)}
variable {tr : Trace Op Op.Ans} {result : Except Fault Unit} {st' : RemoteMemoryProvider}

theorem mem_recached {regions : List RegionDesc} {ts : List TupleDesc}
    {active : HashMap (String × UInt32) (List CachedRegion)} {k : String × UInt32} {e : CachedRegion}
    (he : e ∈ cachedUnder (recached g regions ts active) k) :
    e.group = g ∨ (e.group ≠ g ∧ e ∈ cachedUnder active k) := by
  rw [recached_cached] at he
  split at he
  · cases he
  · rcases List.mem_append.mp he with he | he
    · obtain ⟨he, hg⟩ := List.mem_filter.mp he
      exact Or.inr ⟨by simpa using hg, he⟩
    · exact Or.inl (entryOf_group he)

/-- An update that leaves the slot alone. -/
theorem after_kept (hkept : (s.st.session g).channel = none → ks.length ≤ 1) :
    (s.tags.after s.st st' g tcp rdma ks result).slot = s.tags.slot ∧
      (s.tags.after s.st st' g tcp rdma ks result).connections = s.tags.connections := by
  have hnot : ¬ Tags.Fills s.st g ks := by
    intro ⟨hfresh, hwaited⟩
    have := hkept (Option.isNone_iff_eq_none.mp hfresh)
    omega
  exact ⟨if_neg hnot, if_neg hnot⟩

/-- An update that fills the slot. -/
theorem after_filled (hfresh : (s.st.session g).channel = none) (hwaited : 2 ≤ ks.length) :
    (s.tags.after s.st st' g tcp rdma ks result).slot = Function.update s.tags.slot g
        ((st'.session g).connection.connection.map (Link.mk · rdma)) ∧
      (s.tags.after s.st st' g tcp rdma ks result).connections =
        Function.update s.tags.connections g (s.tags.connections g ++ [rdma]) :=
  have hfills : Tags.Fills s.st g ks := ⟨Option.isNone_iff_eq_none.mpr hfresh, hwaited⟩
  ⟨if_pos hfills, if_pos hfills⟩

/-- Connections are only ever added. -/
theorem connections_grow (g' : UInt32) : (s.tags.connections g').length ≤
    ((s.tags.after s.st st' g tcp rdma ks result).connections g').length := by
  show _ ≤ ((if _ then _ else _ : UInt32 → List ProviderInstance) g').length
  split
  · by_cases hg : g' = g
    · rw [hg, Function.update_self, List.length_append]
      exact Nat.le_add_right _ _
    · rw [Function.update_of_ne hg]
  · exact Nat.le_refl _

/-- Another group's slot and connections stay. -/
theorem after_other {g' : UInt32} (hg : g' ≠ g) :
    (s.tags.after s.st st' g tcp rdma ks result).slot g' = s.tags.slot g' ∧
      (s.tags.after s.st st' g tcp rdma ks result).connections g' = s.tags.connections g' := by
  unfold Tags.after
  dsimp only
  split
  · exact ⟨Function.update_of_ne hg _ _, Function.update_of_ne hg _ _⟩
  · exact ⟨rfl, rfl⟩

/-- What the slot of `g` holds once `conn`, which leads to `rdma`, was put into it. -/
theorem slot_filled {conn : Connection} (hfresh : (s.st.session g).channel = none)
    (hwaited : 2 ≤ ks.length) (hconn : (st'.session g).connection.connection = some conn) :
    (s.tags.after s.st st' g tcp rdma ks result).slot g = some ⟨conn, rdma⟩ := by
  rw [(after_filled hfresh hwaited).1, Function.update_self, hconn]
  rfl

/-- The tuples in the cache after an update, if the channel it used is of a connected session. -/
theorem ingested_cached {x : Message × Message}
    {active : HashMap (String × UInt32) (List CachedRegion)}
    (hingested : Ingested g s.st.regions x result active) {n : UInt32 → Nat}
    (hchannel : (s.tags.channelOf s.st g tcp).session < n g)
    (hold : ∀ k, ∀ e ∈ cachedUnder s.st.regions k, (s.tags.source k e.group).session < n e.group) :
    ∀ k, ∀ e ∈ cachedUnder active k,
      ((s.tags.after s.st st' g tcp rdma ks result).source k e.group).session < n e.group := by
  intro k e he
  cases hingested with
  | served regions ts =>
      show (if e.group = g then _ else _ : Source).session < _
      rcases mem_recached he with hg | ⟨hg, he⟩
      · rw [if_pos hg, hg]
        exact hchannel
      · rw [if_neg hg]
        exact hold k e he
  | refused => exact hold k e he

/-- The slot that an update of `g` leaves alone. -/
theorem Sourced.tagged_kept (h : Sourced s)
    (hkept : (s.st.session g).channel = none → ks.length ≤ 1)
    (hslot : (st'.session g).connection = (s.st.session g).connection) :
    Tagged (st'.session g).connection ((s.tags.after s.st st' g tcp rdma ks result).slot g)
      ((s.tags.after s.st st' g tcp rdma ks result).connections g) := by
  rw [hslot, (after_kept hkept).1, (after_kept hkept).2]
  exact h.slots g

/-- The slot that an update of `g` fills. -/
theorem tagged_filled {conn : Connection} (hfresh : (s.st.session g).channel = none)
    (hwaited : 2 ≤ ks.length) (hconn : (st'.session g).connection.connection = some conn) :
    Tagged (st'.session g).connection ((s.tags.after s.st st' g tcp rdma ks result).slot g)
      ((s.tags.after s.st st' g tcp rdma ks result).connections g) where
  slot := by
    rw [slot_filled hfresh hwaited hconn, hconn]
    rfl
  latest := by
    rw [slot_filled hfresh hwaited hconn, (after_filled hfresh hwaited).2, Function.update_self,
      List.getLast?_concat]
    rfl

/-- **One update**, from what it leaves of the group's own session and of the cache. -/
theorem Sourced.updated (h : Sourced s) (hup : Updated s.st g (received tr) result st')
    (hothers : ∀ g' ≠ g, st'.session g' = s.st.session g')
    (htagged : Tagged (st'.session g).connection
      ((s.tags.after s.st st' g tcp rdma ks result).slot g)
      ((s.tags.after s.st st' g tcp rdma ks result).connections g))
    (hchannel : (st'.session g).channel.isSome → (s.tags.channelOf s.st g tcp).session + 1 =
      ((s.tags.after s.st st' g tcp rdma ks result).connections g).length)
    (hcached : ∀ k, ∀ e ∈ cachedUnder st'.regions k,
      ((s.tags.after s.st st' g tcp rdma ks result).source k e.group).session <
        ((s.tags.after s.st st' g tcp rdma ks result).connections e.group).length) :
    Sourced { s with st := st', tags := s.tags.after s.st st' g tcp rdma ks result } where
  connected := hup.connected
  usable := hup.usable h.usable
  slots g' := by
    by_cases hg : g' = g
    · exact hg ▸ htagged
    · rw [(after_other hg).1, (after_other hg).2, hothers g' hg]
      exact h.slots g'
  channels g' hopen := by
    by_cases hg : g' = g
    · subst hg
      rw [← hchannel hopen]
      exact congrArg (fun source : Source => source.session + 1) (Function.update_self _ _ _)
    · rw [(after_other hg).2, ← h.channels g' (by rwa [← hothers g' hg])]
      exact congrArg (fun source : Source => source.session + 1) (Function.update_of_ne hg _ _)
  cached := hcached
  handles hd hmem := (h.handles hd hmem).trans_le (connections_grow _)
  posts := h.posts

theorem Sourced.update (h : Sourced s) (hr : (s.st.update g).Runs tr (result, st')) :
    Sourced { s with st := st', tags := s.tags.after s.st st' g tcp rdma (replied tr) result } := by
  have hup := update_runs h.connected hr
  have hgrown (k : String × UInt32) (e : CachedRegion) (he : e ∈ cachedUnder s.st.regions k) :
      (s.tags.source k e.group).session <
        ((s.tags.after s.st st' g tcp rdma (replied tr) result).connections e.group).length :=
    (h.cached k e he).trans_le (connections_grow _)
  -- the session of the channel that a refresh uses, and of the one that a fresh session opens
  have hrefresh (hopen : (s.st.session g).channel.isSome) :
      s.tags.channelOf s.st g tcp = s.tags.channel g :=
    if_neg fun hnone => by rw [Option.isNone_iff_eq_none.mp hnone] at hopen; cases hopen
  have hopened (hfresh : (s.st.session g).channel = none) :
      s.tags.channelOf s.st g tcp = ⟨tcp, (s.tags.connections g).length⟩ :=
    if_pos (Option.isNone_iff_eq_none.mpr hfresh)
  cases update_ended hr with
  | broken e _ hwaited hsession hregions hothers =>
      refine h.updated hup hothers (h.tagged_kept hwaited (by rw [hsession])) (fun hopen => ?_)
        fun k e' he' => hgrown k e' (by rwa [← hregions])
      rw [hsession] at hopen
      cases hopen
  | lost e conn hfresh _ hwaited hsession hregions hothers =>
      refine h.updated hup hothers (tagged_filled hfresh hwaited (by rw [hsession]))
        (fun hopen => ?_) fun k e' he' => hgrown k e' (by rwa [← hregions])
      rw [hsession] at hopen
      cases hopen
  | refreshed x hopen _ hsession hingested hothers =>
      have hkept : (s.st.session g).channel = none → (replied tr).length ≤ 1 :=
        fun hnone => by rw [hnone] at hopen; cases hopen
      have hchannel : (s.tags.channelOf s.st g tcp).session + 1 = ((s.tags.after s.st st' g tcp
          rdma (replied tr) result).connections g).length := by
        rw [hrefresh hopen, (after_kept hkept).2]
        exact h.channels g hopen
      refine h.updated hup hothers (h.tagged_kept hkept (by rw [hsession])) (fun _ => hchannel) ?_
      · refine ingested_cached hingested (n := fun g' => ((s.tags.after s.st st' g tcp rdma
          (replied tr) result).connections g').length) ?_ hgrown
        exact (Nat.lt_succ_self _).trans_eq hchannel
  | exchanged x c conn hfresh _ hwaited hsession hingested hothers =>
      have hchannel : (s.tags.channelOf s.st g tcp).session + 1 = ((s.tags.after s.st st' g tcp
          rdma (replied tr) result).connections g).length := by
        rw [hopened hfresh, (after_filled hfresh hwaited).2, Function.update_self, List.length_append]
        rfl
      refine h.updated hup hothers (tagged_filled hfresh hwaited (by rw [hsession]))
        (fun _ => hchannel) ?_
      · refine ingested_cached hingested (n := fun g' => ((s.tags.after s.st st' g tcp rdma
          (replied tr) result).connections g').length) ?_ hgrown
        exact (Nat.lt_succ_self _).trans_eq hchannel

/-- **Every run.** -/
theorem ReaderRuns.sourced {s : ReaderRun} (h : ReaderRuns s) : Sourced s := by
  induction h with
  | new tags hnone =>
      exact {
        connected := fun _ _ hs => by cases hs
        usable := fun _ _ hs => by cases hs
        slots := fun g => ⟨by rw [(hnone g).1]; rfl, by rw [(hnone g).1, (hnone g).2]; rfl⟩
        channels := fun _ hopen => by cases hopen
        cached := fun _ _ he => by cases he
        handles := fun _ hmem => by cases hmem
        posts := fun _ hp => by cases hp }
  | update tcp rdma _ hr ih => exact ih.update hr
  | @lookup s m p r _ hr ih =>
      refine { ih with handles := fun hd hmem => ?_ }
      rcases List.mem_append.mp hmem with hmem | hmem
      · exact ih.handles hd hmem
      · obtain ⟨e, he, _, hregion⟩ := getRemoteMr_some hr
        rw [List.mem_singleton.mp hmem, hregion]
        exact ih.cached (m.name, m.id) e he
  | @access s hd q dev host wrs _ hmem hposted ih =>
      refine { ih with posts := fun p hp => ?_ }
      rcases List.mem_append.mp hp with hp | hp
      · exact ih.posts p hp
      · obtain ⟨wr, hwr, rfl⟩ := List.mem_map.mp hp
        have hslot : (s.st.session hd.region.group).connection.Usable := session_usable ih.usable
        obtain ⟨wrs', hposted', hcarries⟩ := access_posts (q := q) (r := hd.region) (h := host) hslot
        rw [List.append_cancel_left (hposted.symm.trans hposted')] at hwr
        exact ⟨hcarries wr hwr, ih.handles hd hmem, ih.slots hd.region.group⟩

end Sources

/-! ## 4. Whom a work request reaches -/

/-- Where the connections of the group led from the one of the session that served the tuple on: the
    last of these is in the slot. -/
theorem Tagged.since {p : Posting} (h : Tagged p.slot p.link p.connections)
    (hsession : p.handle.source.session < p.connections.length) :
    p.link.map Link.instanceId = p.since.getLast? := by
  rw [h.latest]
  unfold Posting.since
  rw [List.getLast?_drop, if_neg (by omega)]

namespace ReaderRun

/-- Before the first update. -/
def start : ReaderRun :=
  ⟨.new, ⟨fun _ => ⟨0, 0⟩, fun _ => none, fun _ => [], fun _ _ => ⟨0, 0⟩⟩, [], []⟩

/-- An update whose operations succeed, up to the messages that are received. -/
def updated (s : ReaderRun) (g : UInt32) (tcp rdma : ProviderInstance) (ms : List Message) :
    ReaderRun :=
  let (tr, result, st') := friendlyUpdate s.st g ms
  { s with st := st', tags := s.tags.after s.st st' g tcp rdma (replied tr) result }

/-- A session with instance 0, which serves one region. -/
def served : ReaderRun :=
  start.updated 7 0 0 [.welcome PROTOCOL_VERSION, .metadata [⟨0, "x", 8, 1, 1, "u8"⟩],
    .tuples 7 [⟨0, 4096, 8, 11⟩]]

/-- A handle to the region. -/
def handle (s : ReaderRun) : Handle := ⟨⟨4096, 8, 11, 7, 1, 1, "u8"⟩, s.tags.source ("x", 0) 7⟩

/-- The region is looked up, and its first byte written. -/
def written (s : ReaderRun) : ReaderRun :=
  let o := (Request.write 0 (byteBuffer 1 (by decide))).outcome s.handle.region
    (s.st.session s.handle.region.group).connection obedient (hostOf 0 0)
  { s with
    handles := s.handles ++ [s.handle]
    posts := s.posts ++ o.2.posted.map (s.tags.posting s.st s.handle) }

end ReaderRun

theorem ReaderRuns.start : ReaderRuns .start := .new _ fun _ => ⟨rfl, rfl⟩

theorem ReaderRuns.updated {s : ReaderRun} (h : ReaderRuns s) (g : UInt32)
    (tcp rdma : ProviderInstance) (ms : List Message) : ReaderRuns (s.updated g tcp rdma ms) :=
  .update tcp rdma h (Prog.drive_runs _ _ _)

theorem ReaderRuns.written {s : ReaderRun} (h : ReaderRuns s)
    (hr : s.st.getRemoteMr ⟨"x", 0, 8, 1, 1, "u8"⟩ (some 7) = some s.handle.region) :
    ReaderRuns s.written :=
  .access (.write 0 (byteBuffer 1 (by decide))) obedient (hostOf 0 0)
    (.lookup (m := ⟨"x", 0, 8, 1, 1, "u8"⟩) (p := some 7) h hr)
    (List.mem_append_right _ (List.mem_singleton_self _)) rfl

/-- The provider is replaced: a refresh fails, and the fresh session of the next update is greeted
    and connected by instance 1, which then goes away. -/
def ReaderRun.replaced : ReaderRun :=
  (ReaderRun.served.updated 7 0 0 []).updated 7 1 1 [.welcome PROTOCOL_VERSION]

end Rdmalib
