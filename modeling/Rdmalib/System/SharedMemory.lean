/-
  File:      Rdmalib/System/SharedMemory.lean
  Subject:   The provider's buffers as arrays that its application and its readers share.

  * `Request.Leaves` -- what a call of a reader leaves behind, however it ends;
  * `Machines.Step` -- one memory for the provider's machine and one for each reader's: the owner
    writes through a borrow, a reader calls or computes, one at a time, a device comes late with a
    work request that its call has given up on;
  * `Request.event` -- what a call has done to the arrays, by its result;
  * results: a run of the machines is a run of the arrays, and no byte outside of them changes
    (`machines_refine`); so a read that succeeds gets what was written last (`reads_last_written`).
-/
import Rdmalib.Base.Arrays
import Rdmalib.Readers.Allocating

namespace Rdmalib

open Base

open Function (update)

/-! ## 1. What a call leaves behind -/

/-- `m'` is `m` but for the range that the work request copies into. -/
structure SendWr.Confined (wr : SendWr) (m m' : Memories) : Prop where
  loc : ∀ a, (wr.opcode = .rdmaRead → a < wr.addr ∨ wr.addr + wr.length.toNat ≤ a) →
    m'.loc a = m.loc a
  rem : ∀ a, (wr.opcode = .rdmaWrite → a < wr.remoteAddr ∨ wr.remoteAddr + wr.length.toNat ≤ a) →
    m'.rem a = m.rem a

/-- **What the device may touch**, whatever it reports. -/
def Device.Confined (dev : Device) : Prop :=
  ∀ (wr : SendWr) (m : Memories), wr.Confined m (dev.effect wr m)

theorem execute_confined (wr : SendWr) (m : Memories) : wr.Confined m (wr.execute m) := by
  unfold SendWr.execute
  constructor <;> intro a ha <;> split <;> simp_all [Mem.copy_outside]

/-- The access writes to the region. -/
def Request.Writes : Request → Bool
  | .write _ _ | @Request.writeTyped _ _ _ _ => true
  | _ => false

/-- A work request that the access may post. -/
structure Request.Posts (q : Request) (r : RemoteMemoryRegion) (wr : SendWr) : Prop where
  opcode : wr.opcode = if q.Writes then .rdmaWrite else .rdmaRead
  remote : wr.remoteAddr = r.remoteAddr.toNat + q.byteOffset
  length : wr.length.toNat ≤ q.byteLen
  fits : q.FitsIn r

section Touched

variable {c : Connection} {r : RemoteMemoryRegion} {slot : GroupConnection} {dev : Device} {h : Host}

/-- The host after an operation: as before, or with the work request posted and its effect. -/
def Touched (wr : SendWr) (dev : Device) (h h' : Host) : Prop :=
  h' = h ∨ (h'.posted = h.posted ++ [wr] ∧ (h'.mem = h.mem ∨ h'.mem = dev.effect wr h.mem))

theorem oneSided_touched (op : String) (opcode : Opcode) (mr : MemoryRegion) (remote len : Nat)
    (rkey : UInt32) :
    Touched (sendWr opcode mr.addr mr.lkey remote rkey len h) dev h
      ((c.oneSided op opcode mr remote rkey len).outcome dev h).2 := by
  unfold Connection.oneSided
  rw [outcome_guard]
  by_cases hlen : len = 0
  · rw [if_pos hlen]
    exact Or.inl rfl
  rw [if_neg hlen, outcome_guard]
  by_cases hlong : len > mr.size.toNat
  · rw [if_pos hlong]
    exact Or.inl rfl
  rw [if_neg hlong, outcome_bind]
  cases hpd : c.pd with
  | none =>
      left
      simp [Connection.protectionDomain, hpd]
  | some pd =>
  rw [domain_outcome hpd]
  dsimp only
  rw [outcome_guard]
  by_cases hdom : mr.pd ≠ pd.pd
  · rw [if_pos hdom]
    exact Or.inl rfl
  rw [if_neg hdom, outcome_bind, outcome_get]
  dsimp only
  rw [outcome_lift_bind]
  unfold usizeAdd
  by_cases hnext : h.nextWrId + 1 < wordSize
  · rw [if_pos hnext]
    dsimp only
    rw [outcome_bind, outcome_modify]
    dsimp only
    rw [outcome_bind, outcome_read]
    dsimp only
    rw [outcome_lift_bind]
    cases check "ibv_post_send" dev.postSend with
    | error e => exact Or.inr ⟨rfl, Or.inl rfl⟩
    | ok v =>
        dsimp only
        rw [outcome_bind, outcome_modify]
        dsimp only
        rw [outcome_lift]
        exact Or.inr ⟨rfl, Or.inr rfl⟩
  · rw [if_neg hnext]
    exact Or.inl rfl

theorem transfer_touched (p : Plan) :
    ∃ lkey, Touched (sendWr p.opcode p.ptr lkey (r.remoteAddr.toNat + p.offset) r.rkey p.len h) dev h
      ((p.transfer r slot).outcome dev h).2 := by
  unfold Plan.transfer
  rw [outcome_lift_bind]
  cases slot.get with
  | error e => exact ⟨0, Or.inl rfl⟩
  | ok c =>
  dsimp only
  rw [outcome_bind]
  unfold Connection.registerAddr ProtectionDomain.registerAddr
  rw [outcome_bind]
  cases hpd : c.pd with
  | none => exact ⟨0, Or.inl (by simp [Connection.protectionDomain, hpd])⟩
  | some pd =>
  rw [domain_outcome hpd]
  dsimp only
  rw [outcome_guard]
  by_cases hempty : p.size = 0
  · rw [if_pos hempty]
    exact ⟨0, Or.inl rfl⟩
  rw [if_neg hempty, outcome_bind, outcome_bind, outcome_read]
  dsimp only
  rw [outcome_pure]
  dsimp only
  cases dev.regMr with
  | none => exact ⟨0, Or.inl rfl⟩
  | some reg =>
  obtain ⟨n, lkey, rkey⟩ := reg
  dsimp only
  rw [outcome_pure]
  dsimp only
  rw [outcome_lift_bind]
  unfold usizeAdd
  by_cases ha : r.remoteAddr.toNat + p.offset < wordSize
  · rw [if_pos ha]
    exact ⟨lkey, oneSided_touched p.op p.opcode ⟨n, pd.pd, p.ptr, p.size, lkey, rkey⟩ _ p.len r.rkey⟩
  · rw [if_neg ha]
    exact ⟨0, Or.inl rfl⟩

end Touched

/-- **What a call has left behind**, however it ended: only a write inside the region changes the
    region's machine, and only if it was not refused as an invalid input. -/
structure Request.Leaves (q : Request) (r : RemoteMemoryRegion) (res : Except Fault Unit)
    (h h' : Host) : Prop where
  fits : ∀ v, res = .ok v → q.FitsIn r
  changes : h'.mem.rem = h.mem.rem ∨ (q.Writes = true ∧ q.FitsIn r ∧
    ∀ a, a < r.remoteAddr.toNat + q.byteOffset ∨
      r.remoteAddr.toNat + q.byteOffset + q.byteLen ≤ a → h'.mem.rem a = h.mem.rem a)
  refused : ∀ e, res = .error e → e.kind = some .invalidInput → h'.mem.rem = h.mem.rem
  posted : ∃ wrs, h'.posted = h.posted ++ wrs ∧ ∀ wr ∈ wrs, q.Posts r wr

section Leaves

variable {q : Request} {r : RemoteMemoryRegion} {slot : GroupConnection} {dev : Device} {h : Host}

theorem plan_opcode {p : Plan} (hp : q.plan r = .ok p) :
    p.opcode = if q.Writes then .rdmaWrite else .rdmaRead := by
  cases q with
  | read | readTyped => cases hp
  | readInto offset size buf =>
      simp only [Request.plan] at hp
      split at hp
      · cases hp
      split at hp
      · cases hp
      · cases hp
        rfl
  | write offset buf =>
      simp only [Request.plan] at hp
      split at hp
      · cases hp
      · cases hp
        rfl
  | readIntoTyped T offset buf | writeTyped T offset buf =>
      simp only [Request.plan, Request.typedPlan] at hp
      split at hp
      · cases hp
      split at hp
      · cases hp
      split at hp
      · cases hp
      split at hp
      · cases hp
      · cases hp
        rfl

/-- A call that ended before the device was asked. -/
theorem leaves_untouched {e : Fault} : q.Leaves r (.error e) h h :=
  ⟨nofun, Or.inl rfl, fun _ _ _ => rfl, [], (List.append_nil _).symm, nofun⟩

theorem inPlace_leaves (hr : r.Allocated) (hslot : slot.Usable) (hdev : dev.Confined)
    (hq : q.InPlace) : q.Leaves r (q.outcome r slot dev h).1 h (q.outcome r slot dev h).2 := by
  have hp := plan_planned (r := r) hq
  rw [run_plan hq]
  cases hplan : q.plan r with
  | error e => exact leaves_untouched
  | ok p =>
  have hopcode := plan_opcode hplan
  rw [hplan] at hp
  cases hp with
  | passed _ _ hb _ _ hptr hsize hlen hoff =>
  obtain ⟨hfit, hstart, _⟩ := hb.exact hr
  rw [hstart] at hoff
  dsimp only
  cases hc : slot.connection with
  | none =>
      obtain ⟨e, _, ho⟩ := transfer_closed r dev h p hc
      rw [ho]
      exact leaves_untouched
  | some c =>
  obtain ⟨pd, hpd⟩ := Option.isSome_iff_exists.mp (hslot c hc)
  have hends := transfer_ends r dev h hc hpd (hsize.trans hlen.symm)
  obtain ⟨lkey, htouched⟩ : ∃ lkey, Touched
      (sendWr p.opcode p.ptr lkey (r.remoteAddr.toNat + p.offset) r.rkey p.len h) dev h
      ((p.transfer r slot).outcome dev h).2 := transfer_touched p
  generalize (p.transfer r slot).outcome dev h = o at hends htouched
  cases hends with
  | empty | unregistered | overflow | exhausted => exact leaves_untouched
  | posted _ res h' _ _ hres _ =>
  have hlength : (sendWr p.opcode p.ptr lkey (r.remoteAddr.toNat + p.offset) r.rkey p.len h).length.toNat
      ≤ q.byteLen := by
    rw [← hlen]
    exact (UInt32.toNat_ofNat'.trans_le (Nat.mod_le _ _))
  have hposts : q.Posts r (sendWr p.opcode p.ptr lkey (r.remoteAddr.toNat + p.offset) r.rkey p.len h) :=
    ⟨hopcode, by rw [← hoff]; rfl, hlength, hfit⟩
  refine ⟨fun _ _ => hfit, ?_, fun e he hkind => ?_, ?_⟩
  · rcases htouched with rfl | ⟨_, hmem | hmem⟩
    · exact Or.inl rfl
    · exact Or.inl (by rw [hmem])
    · have hconf := (hdev (sendWr p.opcode p.ptr lkey (r.remoteAddr.toNat + p.offset) r.rkey p.len h)
        h.mem).rem
      rw [← hmem] at hconf
      cases hw : q.Writes with
      | true =>
          refine Or.inr ⟨rfl, hfit, fun a ha => hconf a fun _ => ?_⟩
          rw [hposts.remote]
          omega
      | false =>
          refine Or.inl (funext fun a => hconf a fun hwrite => ?_)
          rw [hposts.opcode, hw] at hwrite
          cases hwrite
  · obtain ⟨io, rfl, hio⟩ := hres e he
    exact absurd (Option.some.inj hkind) hio
  · rcases htouched with rfl | ⟨hposted, _⟩
    · exact ⟨[], (List.append_nil _).symm, nofun⟩
    · exact ⟨_, hposted, fun wr hwr => List.mem_singleton.mp hwr ▸ hposts⟩

/-- **What any access leaves behind.** -/
theorem access_leaves (hr : r.Allocated) (hslot : slot.Usable) (hdev : dev.Confined) :
    q.Leaves r (q.outcome r slot dev h).1 h (q.outcome r slot dev h).2 := by
  by_cases hq : q.Allocating
  · rw [allocating_outcome hq]
    by_cases hfit : Obtainable dev.grants q.byteLen
    · rw [dif_pos hfit]
      have honto : (q.onto dev.alloc hfit.1).InPlace := onto_inPlace hq
      have hin := inPlace_leaves (h := h.zeroed dev.alloc.toNat q.byteLen) hr hslot hdev honto
      obtain ⟨wrs, hposted, hwrs⟩ := hin.posted
      cases q with
      | read | readTyped =>
          refine ⟨hin.fits, hin.changes, hin.refused, wrs, hposted, fun wr hwr => ?_⟩
          exact ⟨(hwrs wr hwr).opcode, (hwrs wr hwr).remote, (hwrs wr hwr).length, (hwrs wr hwr).fits⟩
      | readInto | readIntoTyped | write | writeTyped => cases hq
    · rw [dif_neg hfit]
      exact leaves_untouched
  · refine inPlace_leaves hr hslot hdev ?_
    cases q with
    | read | readTyped => exact hq trivial
    | readInto | readIntoTyped | write | writeTyped => trivial

end Leaves

/-! ## 2. What a call does to the arrays -/

/-- The bytes of a list of elements. -/
def image (T : Type) [RemoteSafe T] (xs : List T) : List UInt8 := xs.flatMap fun x => (bits x).1

theorem length_image {T : Type} [RemoteSafe T] (xs : List T) :
    (image T xs).length = xs.length * byteSize T := by
  induction xs with
  | nil => simp [image]
  | cons x xs ih =>
      have hx : (bits x).1.length = byteSize T := (bits x).2
      simp only [image, List.flatMap_cons, List.length_append, List.length_cons, hx] at ih ⊢
      rw [ih, Nat.add_mul, Nat.one_mul, Nat.add_comm]

/-- The elements at an address are the bytes there. -/
theorem image_elems {T : Type} [RemoteSafe T] (m : Mem) (a n : Nat) :
    image T (elems T m a n) = m.bytes a (n * byteSize T) := by
  induction n with
  | zero => simp [image, elems, Mem.bytes]
  | succ n ih =>
      have hlast : elems T m a (n + 1) =
          elems T m a n ++ [bits.symm (byteVec m (a + n * byteSize T) (byteSize T))] := by
        simp [elems, List.range_succ]
      have hsplit : m.bytes a ((n + 1) * byteSize T) =
          m.bytes a (n * byteSize T) ++ m.bytes (a + n * byteSize T) (byteSize T) := by
        simp [Mem.bytes, Nat.add_mul, List.range_add, Nat.add_assoc]
      rw [hlast, hsplit, ← ih]
      simp [image, byteVec]

namespace Request

variable {ι : Type}

/-- What a call that served its caller has done to array `id`, over the memory of the caller
    before and after it. -/
def served (id : ι) (before after : Mem) : (q : Request) → q.Result → Arrays.Event ι
  | .read offset _, v => .fetched id offset.toNat v
  | .readInto offset size buf, _ => .fetched id offset.toNat (after.bytes buf.ptr.toNat size.toNat)
  | @readTyped T _ offset _, v => .fetched id (offset.toNat * byteSize T) (image T v)
  | @readIntoTyped T _ offset buf, _ =>
      .fetched id (offset.toNat * byteSize T) (image T (buf.elems after))
  | .write offset buf, _ =>
      .stored id offset.toNat (before.bytes buf.ptr.toNat buf.len.toNat)
  | @writeTyped T _ offset buf, _ =>
      .stored id (offset.toNat * byteSize T) (image T (buf.elems before))

/-- What a call that did not may have done: a write leaves its range open. -/
def unserved (q : Request) (id : ι) : Arrays.Event ι :=
  if q.Writes then .torn id q.byteOffset q.byteLen else .nothing

/-- **What a call has done to array `id`**, by its result. A call for 2 ^ 32 bytes or more has not
    served its caller; one that was refused as an invalid input has done nothing. -/
def event (q : Request) (id : ι) (before : Mem) (res : Except Fault q.Result) (after : Mem) :
    Arrays.Event ι :=
  match res with
  | .ok v => if q.byteLen < 2 ^ 32 then q.served id before after v else q.unserved id
  | .error e => if e.kind = some .invalidInput then .nothing else q.unserved id

end Request

/-- The region names array `id`: its range is a possible allocation, and the array's. -/
structure RemoteMemoryRegion.Is {ι : Type} (r : RemoteMemoryRegion) (L : Layout ι) (id : ι) : Prop where
  allocated : r.Allocated
  base : r.remoteAddr.toNat = L.base id
  size : r.size.toNat = L.size id

section Events

variable {ι : Type} [DecidableEq ι] {L : Layout ι} {id : ι} {q : Request} {r : RemoteMemoryRegion}
variable {slot : GroupConnection} {dev : Device} {h h' : Host}

/-- A call that changes no more than its range. -/
theorem unserved_step (hr : r.Is L id) (hchanges : h'.mem.rem = h.mem.rem ∨
    (q.Writes = true ∧ q.FitsIn r ∧ ∀ a, a < r.remoteAddr.toNat + q.byteOffset ∨
      r.remoteAddr.toNat + q.byteOffset + q.byteLen ≤ a → h'.mem.rem a = h.mem.rem a)) :
    Arrays.Step (L.arrays h.mem.rem) (q.unserved id) (L.arrays h'.mem.rem) := by
  unfold Request.unserved
  rcases hchanges with hsame | ⟨hw, hfit, hrest⟩
  · rw [hsame]
    split
    · exact ⟨fun _ _ => rfl, rfl, fun _ _ => rfl⟩
    · exact rfl
  · rw [if_pos hw]
    rw [hr.base] at hrest
    exact L.torn (hr.size ▸ hfit) hrest

/-- A call that has served its caller. -/
theorem served_step (hr : r.Is L id) (hfit : q.FitsIn r) {v : q.Result}
    (hserved : q.Served r h.mem h'.mem v) :
    Arrays.Step (L.arrays h.mem.rem) (q.served id h.mem.loc h'.mem.loc v) (L.arrays h'.mem.rem) := by
  have hbase := hr.base
  have hsize : q.byteOffset + q.byteLen ≤ L.size id := hr.size ▸ hfit
  cases q with
  | read offset size =>
      obtain ⟨rfl, hrem⟩ := hserved
      rw [hrem, hbase]
      exact L.fetched hsize
  | readInto offset size buf =>
      have harrived : h'.mem.loc.bytes buf.ptr.toNat size.toNat = _ := hserved.arrived
      simp only [Request.served, harrived, hserved.remote, hbase]
      exact L.fetched hsize
  | readTyped T offset count =>
      obtain ⟨rfl, hrem⟩ := hserved
      rw [hrem]
      simp only [Request.served, image_elems, hbase]
      exact L.fetched hsize
  | readIntoTyped T offset buf =>
      obtain ⟨helems, hfetched⟩ := hserved
      simp only [Request.served, helems, hfetched.remote, image_elems, hbase]
      exact L.fetched hsize
  | write offset buf =>
      have harrived := hserved.arrived
      have hrest := hserved.rest
      rw [hbase] at harrived hrest
      refine L.stored ?_ (by simpa using harrived) (by simpa using hrest)
      rw [Mem.length_bytes]
      exact hsize
  | writeTyped T offset buf =>
      obtain ⟨_, hstored⟩ := hserved
      have harrived := hstored.arrived
      have hrest := hstored.rest
      have hlen : (image T (buf.elems h.mem.loc)).length = buf.byteLen := by
        simp [length_image, Slice.elems, elems, Slice.byteLen]
      have hbytes : image T (buf.elems h.mem.loc) = h.mem.loc.bytes buf.ptr.toNat buf.byteLen :=
        image_elems _ _ _
      rw [hbase] at harrived hrest
      refine L.stored ?_ ?_ ?_
      · rw [hlen]
        exact hsize
      · rw [hlen, hbytes]
        exact harrived
      · rw [hlen]
        exact hrest

/-- **A call of any access is one event** of the array its region names, and it touches no byte
    outside. -/
theorem access_step (hr : r.Is L id) (hslot : slot.Usable) (hconf : dev.Confined)
    (hexec : dev.Executes) {res : Except Fault q.Result}
    (hcall : (q.run r slot).outcome dev h = (res, h')) :
    Arrays.Step (L.arrays h.mem.rem) (q.event id h.mem.loc res h'.mem.loc) (L.arrays h'.mem.rem) ∧
      (∀ a, (∀ i, ¬ L.In i a) → h'.mem.rem a = h.mem.rem a) ∧
      ∃ wrs, h'.posted = h.posted ++ wrs ∧ ∀ wr ∈ wrs, q.Posts r wr := by
  have houtcome : q.outcome r slot dev h = (res.map fun _ => (), h') := by
    unfold Request.outcome
    rw [hcall]
  have hleaves := access_leaves (q := q) (h := h) hr.allocated hslot hconf
  rw [houtcome] at hleaves
  obtain ⟨hfits, hchanges, hrefused, hposted⟩ := hleaves
  refine ⟨?_, fun a hout => ?_, hposted⟩
  · unfold Request.event
    cases res with
    | ok v =>
        have hfit := hfits () rfl
        by_cases hlen : q.byteLen < 2 ^ 32
        · simp only [if_pos hlen]
          exact served_step hr hfit (serves_of_short hfit hlen dev hexec h v h' hcall)
        · simp only [if_neg hlen]
          exact unserved_step hr hchanges
    | error e =>
        by_cases hkind : e.kind = some .invalidInput
        · simp only [if_pos hkind]
          rw [hrefused e rfl hkind]
          rfl
        · simp only [if_neg hkind]
          exact unserved_step hr hchanges
  · rcases hchanges with hsame | ⟨_, hfit, hrest⟩
    · rw [hsame]
    · -- a byte of the range would be one of the array
      have hfit : q.byteOffset + q.byteLen ≤ r.size.toNat := hfit
      have hbase := hr.base
      have hsize := hr.size
      refine hrest a ?_
      by_contra hin
      exact hout id ⟨by omega, by omega⟩

end Events

/-! ## 3. The machines -/

/-- The memory of the provider's machine, that of each reader's, and the work requests of calls that
    have failed, each with its machine and with the array of its region. -/
structure Machines (ι : Type) where
  rem : Mem
  loc : Nat → Mem
  pending : List (Nat × ι × SendWr)

namespace Machines

variable {ι : Type}

/-- The work requests that a call leaves to the device. -/
def leftover {α : Type} (p : Nat) (id : ι) (posted : List SendWr) : Except Fault α →
    List (Nat × ι × SendWr)
  | .ok _ => []
  | .error _ => posted.map fun wr => (p, id, wr)

/-- What a work request does to array `id` when the device comes to it late. -/
def lateEvent (L : Layout ι) (id : ι) (wr : SendWr) : Arrays.Event ι :=
  if wr.opcode = .rdmaWrite then .torn id (wr.remoteAddr - L.base id) wr.length.toNat else .nothing

/-- One step, and what it does to the arrays. Calls take effect one at a time: the device is at the
    memories at one moment of a call, or not at all, or comes later. A transfer is a series of
    word-sized units, so two calls on one array that overlap in time are not of these runs. -/
inductive Step (L : Layout ι) : Machines ι → Arrays.Event ι → Machines ι → Prop where
  /-- The owner writes through a `borrow_mut`. -/
  | borrowMut {m : Machines ι} {id : ι} {k : Nat} {bytes : List UInt8} {rem' : Mem}
      (hfit : k + bytes.length ≤ L.size id)
      (harrived : rem'.bytes (L.base id + k) bytes.length = bytes)
      (hrest : ∀ a, a < L.base id + k ∨ L.base id + k + bytes.length ≤ a → rem' a = m.rem a) :
      Step L m (.stored id k bytes) { m with rem := rem' }
  /-- The owner reads through a `borrow`. -/
  | borrow {m : Machines ι} {id : ι} {k n : Nat} (hfit : k + n ≤ L.size id) :
      Step L m (.fetched id k (m.rem.bytes (L.base id + k) n)) m
  /-- Machine `p` works on its own memory. -/
  | compute {m : Machines ι} (p : Nat) (loc' : Mem) :
      Step L m .nothing { m with loc := update m.loc p loc' }
  /-- A reader on machine `p` calls one of the six entry points of a region. -/
  | access {m : Machines ι} (p : Nat) {q : Request} {r : RemoteMemoryRegion} {id : ι}
      {slot : GroupConnection} {dev : Device} {nextWrId : Nat} {res : Except Fault q.Result}
      {h' : Host} (hr : r.Is L id) (hslot : slot.Usable) (hconf : dev.Confined) (hexec : dev.Executes)
      (hcall : (q.run r slot).outcome dev ⟨⟨m.loc p, m.rem⟩, nextWrId, []⟩ = (res, h')) :
      Step L m (q.event id (m.loc p) res h'.mem.loc)
        ⟨h'.mem.rem, update m.loc p h'.mem.loc, m.pending ++ leftover p id h'.posted res⟩
  /-- The device comes late, and maybe in pieces, with a work request whose call has given up. -/
  | late {m : Machines ι} {p : Nat} {id : ι} {wr : SendWr} {after : Memories}
      (hpending : (p, id, wr) ∈ m.pending) (hconf : wr.Confined ⟨m.loc p, m.rem⟩ after) :
      Step L m (lateEvent L id wr)
        { m with rem := after.rem, loc := update m.loc p after.loc }

/-- Steps one after the other, with what they do to the arrays. -/
inductive Run (L : Layout ι) : Machines ι → List (Arrays.Event ι) → Machines ι → Prop where
  | nil {m : Machines ι} : Run L m [] m
  | cons {m d m' : Machines ι} {e : Arrays.Event ι} {es : List (Arrays.Event ι)}
      (hstep : Step L m e d) (hrun : Run L d es m') : Run L m (e :: es) m'

/-- Every write still to come stays inside the array of its region. -/
def Inside (L : Layout ι) (m : Machines ι) : Prop :=
  ∀ p id wr, (p, id, wr) ∈ m.pending → wr.opcode = .rdmaWrite →
    L.base id ≤ wr.remoteAddr ∧ wr.remoteAddr + wr.length.toNat ≤ L.base id + L.size id

section Refines

variable {L : Layout ι} {m m' : Machines ι} {e : Arrays.Event ι} {es : List (Arrays.Event ι)}

theorem inside_of_none (hnone : m.pending = []) : m.Inside L := by
  intro p id wr hwr
  rw [hnone] at hwr
  cases hwr

theorem mem_leftover {α : Type} {res : Except Fault α} {p p' : Nat} {id id' : ι} {wr : SendWr}
    {posted : List SendWr} (h : (p', id', wr) ∈ leftover p id posted res) : wr ∈ posted ∧ id' = id := by
  cases res with
  | ok v => cases h
  | error e =>
      obtain ⟨wr', hwr', heq⟩ := List.mem_map.mp h
      simp only [Prod.mk.injEq] at heq
      obtain ⟨_, rfl, rfl⟩ := heq
      exact ⟨hwr', rfl⟩

theorem posts_inside {q : Request} {r : RemoteMemoryRegion} {id : ι} {wr : SendWr} (hr : r.Is L id)
    (h : q.Posts r wr) :
    L.base id ≤ wr.remoteAddr ∧ wr.remoteAddr + wr.length.toNat ≤ L.base id + L.size id := by
  have hfit : q.byteOffset + q.byteLen ≤ r.size.toNat := h.fits
  have hremote := h.remote
  have hlength := h.length
  have hbase := hr.base
  have hsize := hr.size
  omega

variable [DecidableEq ι]

/-- **One step** of the machines is one of the arrays; no byte outside of them changes. -/
theorem step_refines (hinside : m.Inside L) (h : Step L m e m') :
    Arrays.Step (L.arrays m.rem) e (L.arrays m'.rem) ∧
      (∀ a, (∀ i, ¬ L.In i a) → m'.rem a = m.rem a) ∧ m'.Inside L := by
  cases h with
  | @borrowMut id k bytes rem' hfit harrived hrest =>
      refine ⟨L.stored hfit harrived hrest, fun a hout => hrest a ?_, hinside⟩
      by_contra hin
      exact hout id ⟨by omega, by omega⟩
  | borrow hfit => exact ⟨L.fetched hfit, fun _ _ => rfl, hinside⟩
  | compute p loc' => exact ⟨rfl, fun _ _ => rfl, hinside⟩
  | access p hr hslot hconf hexec hcall =>
      obtain ⟨hstep, hout, wrs, hposted, hwrs⟩ := access_step hr hslot hconf hexec hcall
      refine ⟨hstep, hout, fun p' id' wr hwr hop => ?_⟩
      rcases List.mem_append.mp hwr with hwr | hwr
      · exact hinside p' id' wr hwr hop
      · obtain ⟨hmem, rfl⟩ := mem_leftover hwr
        rw [hposted, List.nil_append] at hmem
        exact posts_inside hr (hwrs wr hmem)
  | @late p id wr after hpending hconf =>
      refine ⟨?_, fun a hout => ?_, hinside⟩
      · unfold lateEvent
        by_cases hop : wr.opcode = .rdmaWrite
        · obtain ⟨hlow, hhigh⟩ := hinside p id wr hpending hop
          rw [if_pos hop]
          exact L.torn (by omega) fun a ha => hconf.rem a fun _ => by omega
        · rw [if_neg hop]
          have hsame : after.rem = m.rem := funext fun a => hconf.rem a fun h => absurd h hop
          show Arrays.Step _ _ (L.arrays after.rem)
          rw [hsame]
          rfl
      · refine hconf.rem a fun hop => ?_
        obtain ⟨hlow, hhigh⟩ := hinside p id wr hpending hop
        by_contra hin
        exact hout id ⟨by omega, by omega⟩

/-- **A run** of the machines is one of the arrays. -/
theorem run_refines (hinside : m.Inside L) (h : Run L m es m') :
    Arrays.Run (L.arrays m.rem) es (L.arrays m'.rem) ∧
      (∀ a, (∀ i, ¬ L.In i a) → m'.rem a = m.rem a) ∧ m'.Inside L := by
  induction h with
  | nil => exact ⟨rfl, fun _ _ => rfl, hinside⟩
  | cons hstep _ ih =>
      obtain ⟨hone, hout, hnext⟩ := step_refines hinside hstep
      obtain ⟨hall, hout', hlast⟩ := ih hnext
      exact ⟨⟨_, hone, hall⟩, fun a ha => (hout' a ha).trans (hout a ha), hlast⟩

end Refines

end Machines

/-! ## 4. Results -/

/-- **The readers and the owner share arrays**, and nothing else: whatever the calls, which take
    effect one at a time, their order, the errors they end with and the work requests that the
    device comes to late, the arrays are what fetches and stores make of them, and no byte outside
    of them changes. -/
theorem machines_refine {ι : Type} [DecidableEq ι] {L : Layout ι} {m m' : Machines ι}
    {es : List (Arrays.Event ι)} (hnone : m.pending = []) (h : Machines.Run L m es m') :
    Arrays.Run (L.arrays m.rem) es (L.arrays m'.rem) ∧
      ∀ a, (∀ i, ¬ L.In i a) → m'.rem a = m.rem a :=
  have hrun := Machines.run_refines (Machines.inside_of_none hnone) h
  ⟨hrun.1, hrun.2.1⟩

/-- One array: the big region. -/
def oneArray : Layout Unit where
  base _ := 4096
  size _ := 8589934592
  apart := fun _ _ _ _ => rfl

/-- Nothing was shared yet; every byte of the readers is 7. -/
def idleMachines : Machines Unit := ⟨fun _ => 0, fun _ _ => 7, []⟩

/-- The owner has stored three bytes. -/
def ownerStored : Machines Unit :=
  { idleMachines with rem := Mem.copy (fun a => UInt8.ofNat (a + 1)) 0 (fun _ => 0) 4101 3 }

theorem owner_stores : Machines.Step oneArray idleMachines (.stored () 5 [1, 2, 3]) ownerStored := by
  refine .borrowMut (by decide) (by decide) fun a ha => Mem.copy_outside ?_
  simp only [oneArray, List.length_cons, List.length_nil] at ha
  omega

theorem bigRegion_is : bigRegion.Is oneArray () := ⟨bigRegion_allocated, rfl, rfl⟩

theorem obedient_confined : obedient.Confined := execute_confined

/-- A call of reader 0 once the owner has stored. -/
def firstHost : Host := ⟨⟨ownerStored.loc 0, ownerStored.rem⟩, 0, []⟩

/-- A reader writes into the middle of what the owner has stored; no byte before the region changes. -/
theorem machines_refine_shared : ∃ m', Machines.Run oneArray idleMachines
    [.stored () 5 [1, 2, 3], .stored () 6 [7]] m' ∧ m'.rem 0 = 0 := by
  have hpostable : Postable openSlot 4096 6 1 := ⟨⟨_, _, rfl, rfl⟩, by decide, by decide⟩
  obtain ⟨h', hmoves⟩ :=
    moves_obedient "write" .rdmaWrite 65536 bigRegion.rkey (show firstHost.nextWrId = 0 from rfl) hpostable
  have hcall : Call.Returns (bigRegion.write openSlot 6 (byteBuffer 1 (by decide))) obedient firstHost
      () h' := (write_returns (by decide)).mpr hmoves
  have hwrite : Machines.Step oneArray ownerStored (.stored () 6 [7])
      ⟨h'.mem.rem, update ownerStored.loc 0 h'.mem.loc, []⟩ :=
    .access (q := .write 6 (byteBuffer 1 (by decide))) 0 bigRegion_is openSlot_established.usable
      obedient_confined obedient_executes hcall
  have hrun := Machines.Run.cons owner_stores (.cons hwrite .nil)
  refine ⟨_, hrun, (machines_refine rfl hrun).2 0 fun i hin => ?_⟩
  exact absurd hin.1 (show ¬ 4096 ≤ 0 by decide)

/-- The bytes of as many elements tell the elements. -/
theorem image_injective {T : Type} [RemoteSafe T] {xs ys : List T} (hlength : xs.length = ys.length)
    (h : image T xs = image T ys) : xs = ys := by
  induction xs generalizing ys with
  | nil => exact (List.length_eq_zero_iff.mp hlength.symm).symm
  | cons x xs ih =>
      cases ys with
      | nil => cases hlength
      | cons y ys =>
          simp only [image, List.flatMap_cons] at h
          obtain ⟨hhead, htail⟩ := List.append_inj h ((bits x).2.trans (bits y).2.symm)
          have hxy : x = y := bits.injective (Subtype.ext hhead)
          rw [hxy, ih (Nat.succ.inj hlength) htail]

/-- **A read gets what was written last**: if elements were stored to a range, by the owner or by a
    reader, and since then every store and every torn write was elsewhere, a `read_typed` of the
    range that returns `Ok` returns those elements. -/
theorem reads_last_written {ι T : Type} [DecidableEq ι] [RemoteSafe T] {L : Layout ι} {id : ι}
    {m m' : Machines ι} {es es' : List (Arrays.Event ι)} {offset count : UInt64} {xs v : List T}
    (hnone : m.pending = [])
    (hrun : Machines.Run L m (es ++ .stored id (offset.toNat * byteSize T) (image T xs) :: es') m')
    (hspare : ∀ e ∈ es', e.Spares id (offset.toNat * byteSize T) (image T xs).length)
    {p : Nat} {r : RemoteMemoryRegion} {slot : GroupConnection} {dev : Device} {nextWrId : Nat}
    {h' : Host} (hr : r.Is L id) (hexec : dev.Executes) (hcount : count.toNat = xs.length)
    (hlen : xs.length * byteSize T < 2 ^ 32)
    (hcall : Call.Returns (r.readTyped slot T offset count) dev ⟨⟨m'.loc p, m'.rem⟩, nextWrId, []⟩
      v h') :
    v = xs := by
  have harrays := (Machines.run_refines (Machines.inside_of_none hnone) hrun).1
  have hthere := harrays.last_stored hspare
  have hlength := length_image xs
  have hfit : (Request.readTyped T offset count).FitsIn r := by
    -- the store was inside the array
    obtain ⟨d, hbefore, _, hstore, _⟩ := Arrays.run_append.mp harrays
    have hinside := hstore.1
    rw [hbefore.length, Layout.length_arrays, hlength, ← hcount, ← hr.size] at hinside
    exact hinside
  obtain ⟨rfl, _⟩ := serves_of_short hfit (by rw [← hcount] at hlen; exact hlen) dev hexec _ v h' hcall
  refine image_injective (by simp [elems, hcount]) ?_
  rw [image_elems, hr.base, hcount]
  refine List.ext_getElem? fun n => ?_
  by_cases hn : n < xs.length * byteSize T
  · have hbyte := hthere n (by omega)
    have hsize : offset.toNat * byteSize T + n < L.size id := by
      have hinside : offset.toNat * byteSize T + count.toNat * byteSize T ≤ r.size.toNat := hfit
      rw [hcount, hr.size] at hinside
      omega
    rw [Layout.getElem?_arrays, if_pos hsize] at hbyte
    rw [← hbyte]
    simp [Mem.bytes, hn, Nat.add_assoc]
  · rw [List.getElem?_eq_none (by simp; omega), List.getElem?_eq_none (by omega)]

end Rdmalib
