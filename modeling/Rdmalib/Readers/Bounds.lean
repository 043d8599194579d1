/-
  File:      Rdmalib/Readers/Bounds.lean
  Subject:   The address and bounds arithmetic of the reads and writes of a `RemoteMemoryRegion`
             that use a buffer of their caller's: `read_into`, `write` and the two typed ones.

  * `Request.plan` -- what an access has settled when its checks have passed: a value of the pure
    arithmetic alone; `Plan.transfer` -- what it then does with the connection;
  * `run_plan` -- an access is its plan, then the transfer;
  * results: on possible allocations the checks are exact (`accesses_in_bounds`), the typed accesses
    agree with the byte ones (`typed_as_bytes`), and for regions with any numbers at all it is said
    when they still hold (`untrusted_access_iff`).
-/
import Rdmalib.Rdma.Completions
import Rdmalib.Readers.Cache
import Rdmalib.Readers.Transfer

namespace Rdmalib

open Base

/-! ## 1. The plan of an access -/

/-- What an access has settled when its checks have passed. -/
structure Plan where
  op : String
  opcode : Opcode
  ptr : UInt64
  size : UInt64
  offset : Nat
  len : Nat

/-- The rest of an access: connection, registration, operation. -/
def Plan.transfer (p : Plan) (r : RemoteMemoryRegion) (slot : GroupConnection) : Call Unit := do
  let connection ← slot.get
  let mr ← connection.registerAddr p.ptr p.size
  connection.oneSided p.op p.opcode mr (← usizeAdd r.remoteAddr.toNat p.offset) r.rkey p.len

namespace Request

/-- The accesses that use a buffer of their caller's. -/
def InPlace : Request → Prop
  | .read .. | @readTyped _ _ _ _ => False
  | _ => True

/-- The buffer of the caller: its address and its length in bytes. -/
def buffer : Request → Nat × Nat
  | .readInto _ _ buf | .write _ buf => (buf.ptr.toNat, buf.len.toNat)
  | @readIntoTyped _ _ _ buf | @writeTyped _ _ _ buf => (buf.ptr.toNat, buf.byteLen)
  | .read .. | @readTyped _ _ _ _ => (0, 0)

/-- The result and the state after the call, whatever it returned with `Ok`. -/
def outcome (q : Request) (r : RemoteMemoryRegion) (slot : GroupConnection) (dev : Device)
    (h : Host) : Except Fault Unit × Host :=
  let o := (q.run r slot).outcome dev h
  (o.1.map fun _ => (), o.2)

/-- The checks of the two typed accesses, with the errors of a range that is too long and of one
    that is misaligned. -/
def typedPlan (r : RemoteMemoryRegion) (T : Type) [RemoteSafe T] (offset : UInt64) (buf : Slice T)
    (op : String) (opcode : Opcode) (tooLong misaligned : String) : Except Fault Plan :=
  let byteOffset := saturatingMul offset.toNat (byteSize T)
  match r.checkElem T with
  | .error e => .error e
  | .ok () =>
  if saturatingAdd byteOffset buf.byteLen > r.size.toNat then .error (invalid tooLong)
  else
  match usizeAdd r.remoteAddr.toNat byteOffset with
  | .error e => .error e
  | .ok addr =>
  if ¬ byteAlign T ∣ addr then .error (invalid misaligned)
  else .ok ⟨op, opcode, buf.ptr, UInt64.ofNat buf.byteLen, byteOffset, buf.byteLen⟩

/-- The checks of an access. -/
def plan (r : RemoteMemoryRegion) : Request → Except Fault Plan
  | .readInto offset size buf =>
      if size > buf.len then
        .error (invalid s!"read of {size} bytes exceeds the buffer of {buf.len} bytes")
      else if saturatingAdd offset.toNat size.toNat > r.size.toNat then
        .error (invalid
          s!"read of {size} bytes at offset {offset} exceeds the region of {r.size} bytes")
      else .ok ⟨"read", .rdmaRead, buf.ptr, size, offset.toNat, size.toNat⟩
  | .write offset buf =>
      if saturatingAdd offset.toNat buf.len.toNat > r.size.toNat then
        .error (invalid
          s!"write of {buf.len} bytes at offset {offset} exceeds the region of {r.size} bytes")
      else .ok ⟨"write", .rdmaWrite, buf.ptr, buf.len, offset.toNat, buf.len.toNat⟩
  | @readIntoTyped T _ offset buf =>
      typedPlan r T offset buf "read" .rdmaRead
        s!"read of {buf.len} elements at element offset {offset
          } exceeds the region of {r.size.toNat / byteSize T} elements of {byteSize T} bytes"
        s!"read at element offset {offset} is misaligned for elements of alignment {byteAlign T}"
  | @writeTyped T _ offset buf =>
      typedPlan r T offset buf "write" .rdmaWrite
        s!"write of {buf.len} elements at element offset {offset
          } exceeds the region of {r.size.toNat / byteSize T} elements of {byteSize T} bytes"
        s!"write at element offset {offset} is misaligned for elements of alignment {byteAlign T}"
  | .read .. | @readTyped _ _ _ _ => .error .panic

end Request

section Plans

variable {r : RemoteMemoryRegion} {slot : GroupConnection} {dev : Device} {h : Host}

/-- A typed access is its plan, then the transfer. -/
theorem typed_plan {T : Type} [RemoteSafe T] {offset : UInt64} {buf : Slice T} {op : String}
    {opcode : Opcode} {tooLong misaligned : String} :
    (do
        r.checkElem T
        let byteOffset := saturatingMul offset.toNat (byteSize T)
        if saturatingAdd byteOffset buf.byteLen > r.size.toNat then
          throw (invalid tooLong)
        if ¬ byteAlign T ∣ (← usizeAdd r.remoteAddr.toNat byteOffset) then
          throw (invalid misaligned)
        Plan.transfer ⟨op, opcode, buf.ptr, UInt64.ofNat buf.byteLen, byteOffset, buf.byteLen⟩ r slot
        : Call Unit).outcome dev h =
      match Request.typedPlan r T offset buf op opcode tooLong misaligned with
      | .error e => (.error e, h)
      | .ok p => (p.transfer r slot).outcome dev h := by
  unfold Request.typedPlan
  rw [outcome_lift_bind]
  cases r.checkElem T with
  | error e => rfl
  | ok v =>
  dsimp only
  rw [outcome_guard]
  by_cases hlong : saturatingAdd (saturatingMul offset.toNat (byteSize T)) buf.byteLen > r.size.toNat
  · rw [if_pos hlong, if_pos hlong]
  rw [if_neg hlong, if_neg hlong, outcome_lift_bind]
  cases usizeAdd r.remoteAddr.toNat (saturatingMul offset.toNat (byteSize T)) with
  | error e => rfl
  | ok addr =>
  dsimp only
  rw [outcome_guard]
  by_cases halign : ¬ byteAlign T ∣ addr
  · rw [if_pos halign, if_pos halign]
  · rw [if_neg halign, if_neg halign]

/-- **An access is its plan, then the transfer.** -/
theorem run_plan {q : Request} (hq : q.InPlace) :
    q.outcome r slot dev h =
      match q.plan r with
      | .error e => (.error e, h)
      | .ok p => (p.transfer r slot).outcome dev h := by
  have hmap (o : Except Fault Unit × Host) : (o.1.map fun _ => (), o.2) = o := by
    rcases o with ⟨e | v, h'⟩ <;> rfl
  cases q with
  | read | readTyped => cases hq
  | readInto offset size buf =>
      refine (hmap ((r.readInto slot offset size buf).outcome dev h)).trans ?_
      unfold RemoteMemoryRegion.readInto Request.plan
      rw [outcome_guard, outcome_guard]
      dsimp only
      by_cases hbuf : size > buf.len
      · rw [if_pos hbuf, if_pos hbuf]
      rw [if_neg hbuf, if_neg hbuf]
      by_cases hlong : saturatingAdd offset.toNat size.toNat > r.size.toNat
      · rw [if_pos hlong, if_pos hlong]
      · rw [if_neg hlong, if_neg hlong]
        rfl
  | write offset buf =>
      refine (hmap ((r.write slot offset buf).outcome dev h)).trans ?_
      unfold RemoteMemoryRegion.write Request.plan
      rw [outcome_guard]
      dsimp only
      by_cases hlong : saturatingAdd offset.toNat buf.len.toNat > r.size.toNat
      · rw [if_pos hlong, if_pos hlong]
      · rw [if_neg hlong, if_neg hlong]
        rfl
  | readIntoTyped T offset buf =>
      exact (hmap ((r.readIntoTyped slot T offset buf).outcome dev h)).trans typed_plan
  | writeTyped T offset buf =>
      exact (hmap ((r.writeTyped slot T offset buf).outcome dev h)).trans typed_plan

end Plans

/-! ## 2. What the checks let through -/

namespace Request

/-- The access works in elements. -/
def Typed : Request → Prop
  | @readTyped _ _ _ _ | @readIntoTyped _ _ _ _ | @writeTyped _ _ _ _ => True
  | _ => False

/-- The alignment an access asks for. -/
def align : Request → Nat
  | @readTyped T _ _ _ | @readIntoTyped T _ _ _ | @writeTyped T _ _ _ => byteAlign T
  | _ => 1

/-- The size of the elements, by which the text of a range that is too long divides. -/
def elemBytes : Request → Nat
  | @readTyped T _ _ _ | @readIntoTyped T _ _ _ | @writeTyped T _ _ _ => byteSize T
  | _ => 1

/-- The buffer is long enough, and its elements are laid out like the region's. -/
def Suits (q : Request) (r : RemoteMemoryRegion) : Prop :=
  match q with
  | .readInto _ size buf => size ≤ buf.len
  | @readTyped T _ _ _ | @readIntoTyped T _ _ _ | @writeTyped T _ _ _ =>
      UInt32.ofNat (byteSize T) = r.elemSize ∧ UInt32.ofNat (byteAlign T) = r.elemAlign
  | _ => True

/-- Where the range starts, on `u64`. -/
def start (q : Request) : Nat := min q.byteOffset (wordSize - 1)

/-- The bounds check passes: the range lies in the region, or no saturated sum exceeds its size. -/
def InBounds (q : Request) (r : RemoteMemoryRegion) : Prop :=
  q.FitsIn r ∨ r.size.toNat = wordSize - 1

/-- **What the checks of an access can say.** -/
inductive Planned (q : Request) (r : RemoteMemoryRegion) : Except Fault Plan → Prop where
  | unsuited (text : String) (hs : ¬ q.Suits r) : Planned q r (.error (invalid text))
  | outside (text : String) (hs : q.Suits r) (hb : ¬ q.InBounds r) :
      Planned q r (.error (invalid text))
  | overflow (hs : q.Suits r) (hb : q.InBounds r) (ht : q.Typed)
      (ha : wordSize ≤ r.remoteAddr.toNat + q.start) : Planned q r (.error .panic)
  | misaligned (text : String) (hs : q.Suits r) (hb : q.InBounds r) (ht : q.Typed)
      (ha : r.remoteAddr.toNat + q.start < wordSize)
      (hd : ¬ q.align ∣ r.remoteAddr.toNat + q.start) : Planned q r (.error (invalid text))
  | passed (p : Plan) (hs : q.Suits r) (hb : q.InBounds r)
      (ha : q.Typed → r.remoteAddr.toNat + q.start < wordSize)
      (hd : q.align ∣ r.remoteAddr.toNat + q.start) (hptr : p.ptr.toNat = q.buffer.1)
      (hsize : p.size.toNat = q.byteLen) (hlen : p.len = q.byteLen) (hoff : p.offset = q.start) :
      Planned q r (.ok p)

end Request

section Checks

variable {r : RemoteMemoryRegion}

theorem saturatingMul_start (a b : Nat) : saturatingMul a b = min (a * b) (wordSize - 1) := rfl

/-- The bounds check, on exact numbers. -/
theorem exceeds_iff {a len : Nat} {size : UInt64} :
    saturatingAdd (min a (wordSize - 1)) len > size.toNat ↔
      ¬ (a + len ≤ size.toNat ∨ size.toNat = wordSize - 1) := by
  have := size.toNat_lt
  unfold saturatingAdd wordSize
  omega

theorem start_u64 (a : UInt64) : min a.toNat (wordSize - 1) = a.toNat := by
  have := a.toNat_lt
  unfold wordSize
  omega

theorem typedPlan_planned {T : Type} [RemoteSafe T] {offset : UInt64} {buf : Slice T} {op : String}
    {opcode : Opcode} {tooLong misaligned : String} {q : Request} (hq : q.Typed)
    (hsuits : q.Suits r ↔ UInt32.ofNat (byteSize T) = r.elemSize ∧
      UInt32.ofNat (byteAlign T) = r.elemAlign)
    (halign : q.align = byteAlign T) (hoff : q.byteOffset = offset.toNat * byteSize T)
    (hlen : q.byteLen = buf.byteLen) (hptr : q.buffer.1 = buf.ptr.toNat) :
    q.Planned r (Request.typedPlan r T offset buf op opcode tooLong misaligned) := by
  have hstart : saturatingMul offset.toNat (byteSize T) = q.start := by
    rw [Request.start, hoff]
    rfl
  unfold Request.typedPlan
  simp only [hstart]
  cases hc : r.checkElem T with
  | error e =>
      obtain ⟨text, rfl⟩ : ∃ text, e = invalid text := by
        unfold RemoteMemoryRegion.checkElem at hc
        split at hc
        · cases hc
        · exact ⟨_, (Except.error.inj hc).symm⟩
      refine .unsuited text fun hs => ?_
      rw [checkElem_ok (v := ()) |>.mpr (hsuits.mp hs)] at hc
      cases hc
  | ok v =>
      have hs : q.Suits r := hsuits.mpr (checkElem_ok.mp hc)
      have hbounds : saturatingAdd q.start buf.byteLen > r.size.toNat ↔ ¬ q.InBounds r := by
        rw [Request.start, exceeds_iff, ← hlen]
        rfl
      dsimp only
      by_cases hb : saturatingAdd q.start buf.byteLen > r.size.toNat
      · rw [if_pos hb]
        exact .outside _ hs (hbounds.mp hb)
      rw [if_neg hb]
      have hb : q.InBounds r := not_not.mp fun h => hb (hbounds.mpr h)
      unfold usizeAdd
      by_cases ha : r.remoteAddr.toNat + q.start < wordSize
      · rw [if_pos ha]
        dsimp only
        by_cases hd : ¬ byteAlign T ∣ r.remoteAddr.toNat + q.start
        · rw [if_pos hd]
          exact .misaligned _ hs hb hq ha (halign ▸ hd)
        · rw [if_neg hd]
          exact .passed _ hs hb (fun _ => ha) (halign ▸ not_not.mp hd) hptr.symm
            ((byteLen_toNat buf).trans hlen.symm) hlen.symm rfl
      · rw [if_neg ha]
        exact .overflow hs hb hq (Nat.le_of_not_lt ha)

/-- **The checks.** -/
theorem plan_planned {q : Request} (hq : q.InPlace) : q.Planned r (q.plan r) := by
  cases q with
  | read | readTyped => cases hq
  | readInto offset size buf =>
      have hbounds : saturatingAdd offset.toNat size.toNat > r.size.toNat ↔
          ¬ (Request.readInto offset size buf).InBounds r := by
        rw [← start_u64 offset, exceeds_iff]
        rfl
      unfold Request.plan
      dsimp only
      by_cases hbuf : size > buf.len
      · rw [if_pos hbuf]
        exact .unsuited _ fun hs => absurd hs (UInt64.not_le.mpr hbuf)
      have hs : size ≤ buf.len := UInt64.not_lt.mp hbuf
      rw [if_neg hbuf]
      by_cases hb : saturatingAdd offset.toNat size.toNat > r.size.toNat
      · rw [if_pos hb]
        exact .outside _ hs (hbounds.mp hb)
      · rw [if_neg hb]
        exact .passed _ hs (not_not.mp fun h => hb (hbounds.mpr h)) nofun (one_dvd _) rfl rfl rfl
          (start_u64 offset).symm
  | write offset buf =>
      have hbounds : saturatingAdd offset.toNat buf.len.toNat > r.size.toNat ↔
          ¬ (Request.write offset buf).InBounds r := by
        rw [← start_u64 offset, exceeds_iff]
        rfl
      unfold Request.plan
      dsimp only
      by_cases hb : saturatingAdd offset.toNat buf.len.toNat > r.size.toNat
      · rw [if_pos hb]
        exact .outside _ trivial (hbounds.mp hb)
      · rw [if_neg hb]
        exact .passed _ trivial (not_not.mp fun h => hb (hbounds.mpr h)) nofun (one_dvd _) rfl rfl rfl
          (start_u64 offset).symm
  | readIntoTyped T offset buf | writeTyped T offset buf =>
      exact typedPlan_planned trivial Iff.rfl rfl rfl rfl rfl

end Checks

/-! ## 3. What a transfer does -/

/-- The error is one of an I/O operation that is not an invalid input. -/
def Fault.IsIo (e : Fault) : Prop := ∃ io : IoError, e = .err io ∧ io.kind ≠ .invalidInput

section Transfers

variable {r : RemoteMemoryRegion} {slot : GroupConnection} {dev : Device} {h : Host}

theorem isIo_other (text : String) : (Fault.err (.other text)).IsIo :=
  ⟨_, rfl, by simp [IoError.other]⟩

theorem check_error {call : String} {ret : Int} {e : Fault} (he : check call ret = .error e) :
    e.IsIo := by
  unfold check at he
  split at he
  · cases he
  · rw [← Except.error.inj he]
    exact isIo_other _

theorem pollOnce_error {op : String} {wrId : Nat} {p : Poll} {e : Fault}
    (he : pollOnce op wrId p = .error e) : e.IsIo := by
  have ht := pollOnce_turn op wrId p
  rw [he] at ht
  cases ht with
  | failed _ _ hcheck => exact check_error hcheck
  | reported => exact isIo_other _

theorem pollLoop_error {op : String} {wrId : Nat} {polls : List Poll} {last : Poll} {e : Fault}
    (he : pollLoop op wrId polls last = .error e) : e.IsIo := by
  obtain ⟨_, p, _, _, hloop⟩ := pollLoop_polled op wrId polls last
  rw [hloop] at he
  rcases hp : pollOnce op wrId p with e' | _ | _
  · rw [hp] at he
    exact Except.error.inj he ▸ pollOnce_error hp
  · rw [hp] at he
    exact Except.error.inj he ▸ ⟨_, rfl, by simp⟩
  · rw [hp] at he
    cases he

/-- An operation on a registration that is long enough is posted, unless the ids are used up. -/
theorem oneSided_outcome {c : Connection} {pd : ProtectionDomain} (op : String) (opcode : Opcode)
    (mr : MemoryRegion) (remote : Nat) {len : Nat} (rkey : UInt32) (dev : Device) (h : Host)
    (hpd : c.pd = some pd) (hmr : mr.pd = pd.pd) (hlen : len ≠ 0) (hsize : len ≤ mr.size.toNat) :
    (wordSize ≤ h.nextWrId + 1 ∧
        (c.oneSided op opcode mr remote rkey len).outcome dev h = (.error .panic, h)) ∨
      ∃ res h', (c.oneSided op opcode mr remote rkey len).outcome dev h = (res, h') ∧
        (∀ e, res = .error e → e.IsIo) ∧
        h'.posted = h.posted ++ [sendWr opcode mr.addr mr.lkey remote rkey len h] := by
  refine (oneSided_issued op opcode mr remote rkey dev h hpd hmr hlen hsize).imp_right ?_
  rintro ⟨h', he, hposted, _⟩
  refine ⟨_, h', he, fun e herror => ?_, hposted⟩
  cases hp : check "ibv_post_send" dev.postSend with
  | error e' =>
      rw [hp] at herror
      exact Except.error.inj herror ▸ check_error hp
  | ok v =>
      rw [hp] at herror
      exact pollLoop_error herror

/-- **How a transfer ends** over an established connection. -/
inductive Plan.Ends (p : Plan) (r : RemoteMemoryRegion) (dev : Device) (h : Host) :
    Except Fault Unit × Host → Prop where
  | empty (text : String) (hlen : p.len = 0) : Ends p r dev h (.error (invalid text), h)
  | unregistered (e : Fault) (hlen : p.len ≠ 0) (hreg : dev.regMr = none) (he : e.IsIo) :
      Ends p r dev h (.error e, h)
  | overflow (hlen : p.len ≠ 0) (hreg : dev.regMr.isSome)
      (ha : wordSize ≤ r.remoteAddr.toNat + p.offset) : Ends p r dev h (.error .panic, h)
  | exhausted (hlen : p.len ≠ 0) (ha : r.remoteAddr.toNat + p.offset < wordSize)
      (hn : wordSize ≤ h.nextWrId + 1) : Ends p r dev h (.error .panic, h)
  | posted (lkey : UInt32) (res : Except Fault Unit) (h' : Host) (hlen : p.len ≠ 0)
      (ha : r.remoteAddr.toNat + p.offset < wordSize) (hres : ∀ e, res = .error e → e.IsIo)
      (hh : h'.posted = h.posted ++
        [sendWr p.opcode p.ptr lkey (r.remoteAddr.toNat + p.offset) r.rkey p.len h]) :
      Ends p r dev h (res, h')

theorem transfer_ends (r : RemoteMemoryRegion) (dev : Device) (h : Host) {p : Plan} {c : Connection}
    {pd : ProtectionDomain}
    (hslot : slot.connection = some c) (hpd : c.pd = some pd) (hsize : p.size.toNat = p.len) :
    p.Ends r dev h ((p.transfer r slot).outcome dev h) := by
  have hget : slot.get = .ok c := get_ok.mpr hslot
  have hempty : p.size = 0 ↔ p.len = 0 := by
    rw [← hsize]
    exact ⟨fun e => by rw [e]; rfl, fun e => UInt64.toNat_inj.mp e⟩
  unfold Plan.transfer
  rw [outcome_lift_bind, hget]
  dsimp only
  rw [outcome_bind]
  unfold Connection.registerAddr ProtectionDomain.registerAddr
  rw [outcome_bind, domain_outcome hpd]
  dsimp only
  rw [outcome_guard]
  by_cases hlen : p.len = 0
  · rw [if_pos (hempty.mpr hlen)]
    exact .empty _ hlen
  rw [if_neg fun e => hlen (hempty.mp e)]
  rw [outcome_bind, outcome_bind, outcome_read]
  dsimp only
  rw [outcome_pure]
  dsimp only
  cases hreg : dev.regMr with
  | none => exact .unregistered _ hlen hreg (isIo_other _)
  | some reg =>
  obtain ⟨n, lkey, rkey⟩ := reg
  dsimp only
  rw [outcome_pure]
  dsimp only
  rw [outcome_lift_bind]
  unfold usizeAdd
  by_cases ha : r.remoteAddr.toNat + p.offset < wordSize
  · rw [if_pos ha]
    dsimp only
    have hone := oneSided_outcome p.op p.opcode ⟨n, pd.pd, p.ptr, p.size, lkey, rkey⟩
      (r.remoteAddr.toNat + p.offset) r.rkey dev h hpd rfl hlen (Nat.le_of_eq hsize.symm)
    rcases hone with ⟨hn, he⟩ | ⟨res, h', he, hres, hh⟩
    · rw [he]
      exact .exhausted hlen ha hn
    · rw [he]
      exact .posted lkey res h' hlen ha hres hh
  · rw [if_neg ha]
    exact .overflow hlen (by rw [hreg]; rfl) (Nat.le_of_not_lt ha)

/-- Without a connection nothing is registered or posted. -/
theorem transfer_closed (r : RemoteMemoryRegion) (dev : Device) (h : Host) (p : Plan)
    (hslot : slot.connection = none) :
    ∃ e : Fault, e.IsIo ∧ (p.transfer r slot).outcome dev h = (.error e, h) := by
  unfold Plan.transfer GroupConnection.get
  rw [outcome_lift_bind, hslot]
  refine ⟨_, ?_, rfl⟩
  exact isIo_other _

theorem Fault.IsIo.ne_panic {e : Fault} (h : e.IsIo) : e ≠ .panic := by
  obtain ⟨io, rfl, _⟩ := h
  nofun

theorem Fault.IsIo.ne_invalid {e : Fault} (h : e.IsIo) (text : String) : e ≠ invalid text := by
  obtain ⟨io, rfl, hk⟩ := h
  intro he
  exact hk (by rw [Fault.err.inj he])

/-- An access that passes its checks goes on to the device. -/
def Request.Uses (q : Request) (r : RemoteMemoryRegion) (slot : GroupConnection) : Prop :=
  slot.connection.isSome ∧ 0 < q.byteLen ∧ q.align ∣ r.remoteAddr.toNat + q.start

/-- **How an access ends.** -/
inductive Request.Ends (q : Request) (r : RemoteMemoryRegion) (slot : GroupConnection) (dev : Device)
    (h : Host) : Except Fault Unit × Host → Prop where
  | refused (e : Fault) (he : e ≠ .panic) : Ends q r slot dev h (.error e, h)
  | overflow (hs : q.Suits r) (hb : q.InBounds r) (huse : q.Typed ∨ q.Uses r slot)
      (ha : wordSize ≤ r.remoteAddr.toNat + q.start) : Ends q r slot dev h (.error .panic, h)
  | exhausted (hn : wordSize ≤ h.nextWrId + 1) : Ends q r slot dev h (.error .panic, h)
  | posted (res : Except Fault Unit) (h' : Host) (wr : SendWr) (hs : q.Suits r) (hb : q.InBounds r)
      (huse : q.Uses r slot) (hres : res ≠ .error .panic) (hh : h'.posted = h.posted ++ [wr])
      (hremote : wr.remoteAddr = r.remoteAddr.toNat + q.start) (haddr : wr.addr = q.buffer.1)
      (hlength : wr.length.toNat = q.byteLen % 2 ^ 32) : Ends q r slot dev h (res, h')

theorem run_ends (r : RemoteMemoryRegion) (dev : Device) (h : Host) {q : Request} (hq : q.InPlace) (hslot : slot.Usable) :
    q.Ends r slot dev h (q.outcome r slot dev h) := by
  have hp := plan_planned (r := r) hq
  rw [run_plan hq]
  cases hplan : q.plan r with
  | error e =>
      rw [hplan] at hp
      cases hp with
      | unsuited | outside | misaligned => exact .refused _ nofun
      | overflow hs hb ht ha => exact .overflow hs hb (Or.inl ht) ha
  | ok p =>
      rw [hplan] at hp
      cases hp with
      | passed _ hs hb _ hd hptr hsize hplen hoff =>
      dsimp only
      cases hc : slot.connection with
      | none =>
          obtain ⟨e, he, ho⟩ := transfer_closed r dev h p hc
          rw [ho]
          exact .refused e he.ne_panic
      | some c =>
          obtain ⟨pd, hpd⟩ := Option.isSome_iff_exists.mp (hslot c hc)
          have hends := transfer_ends r dev h hc hpd (hsize.trans hplen.symm)
          have huse (hlen : p.len ≠ 0) : q.Uses r slot := ⟨by rw [hc]; rfl, by omega, hd⟩
          generalize (p.transfer r slot).outcome dev h = o at hends
          cases hends with
          | empty => exact .refused _ nofun
          | unregistered e _ _ he => exact .refused e he.ne_panic
          | overflow hlen _ ha => exact .overflow hs hb (Or.inr (huse hlen)) (by omega)
          | exhausted _ _ hn => exact .exhausted hn
          | posted lkey res h' hlen _ hres hh =>
              refine .posted res h' _ hs hb (huse hlen) (fun he => (hres _ he).ne_panic rfl) hh ?_ ?_ ?_
              · simp only [sendWr, hoff]
              · simp only [sendWr, hptr]
              · simp only [sendWr, hplen, UInt32.toNat_ofNat']

end Transfers

/-! ## 4. Regions that are possible allocations -/

/-- The region's range is a possible Rust allocation. -/
structure RemoteMemoryRegion.Allocated (r : RemoteMemoryRegion) : Prop where
  size : r.size.toNat ≤ isizeMax
  range : r.remoteAddr.toNat + r.size.toNat < wordSize

/-- The slot holds an established connection. -/
def GroupConnection.Established (slot : GroupConnection) : Prop :=
  ∃ c pd, slot.connection = some c ∧ c.pd = some pd

theorem GroupConnection.Established.usable {slot : GroupConnection} (h : slot.Established) :
    slot.Usable := by
  obtain ⟨c, pd, hc, hpd⟩ := h
  intro c' hc'
  rw [hc] at hc'
  cases hc'
  rw [hpd]
  rfl

namespace Request

/-- The element type has a size below 2 ^ 32 that is a multiple of its alignment. -/
def SoundType : Request → Prop
  | @readTyped T _ _ _ | @readIntoTyped T _ _ _ | @writeTyped T _ _ _ =>
      byteSize T < 2 ^ 32 ∧ byteAlign T ∣ byteSize T
  | _ => True

/-- The buffer is too short, the layout is not the region's, or the region's base is not aligned. -/
def Unfit (q : Request) (r : RemoteMemoryRegion) : Prop :=
  match q with
  | .readInto _ size buf => buf.len.toNat < size.toNat
  | @readTyped T _ _ _ | @readIntoTyped T _ _ _ | @writeTyped T _ _ _ =>
      byteSize T ≠ r.elemSize.toNat ∨ byteAlign T ≠ r.elemAlign.toNat ∨
        ¬ byteAlign T ∣ r.remoteAddr.toNat
  | _ => False

/-- The access is rejected as an invalid input before the device is asked: whatever it would
    answer, the result is the same and nothing has changed. -/
def Rejected (q : Request) (r : RemoteMemoryRegion) (slot : GroupConnection) : Prop :=
  ∀ dev h, ∃ text, q.outcome r slot dev h = (.error (invalid text), h)

end Request

/-- A device that registers nothing. -/
def refusing : Device := { obedient with regMr := none }

section Allocated

variable {r : RemoteMemoryRegion} {slot : GroupConnection} {q : Request}

/-- On a possible allocation the bounds check is exact, and the address does not overflow. -/
theorem Request.InBounds.exact (hr : r.Allocated) (hb : q.InBounds r) :
    q.FitsIn r ∧ q.start = q.byteOffset ∧ r.remoteAddr.toNat + q.start < wordSize := by
  have hsize := hr.size
  have hrange := hr.range
  unfold isizeMax at hsize
  unfold wordSize at hrange
  have hfit : q.FitsIn r := by
    refine hb.resolve_right fun h => ?_
    rw [h] at hsize
    exact absurd hsize (by decide)
  have hle : q.byteOffset + q.byteLen ≤ r.size.toNat := hfit
  unfold Request.start wordSize
  exact ⟨hfit, by omega, by omega⟩

theorem Request.Suits.buffer (hq : q.InPlace) (hs : q.Suits r) : q.byteLen ≤ q.buffer.2 := by
  cases q with
  | read | readTyped => cases hq
  | readInto offset size buf => exact UInt64.le_iff_toNat_le.mp hs
  | write | readIntoTyped | writeTyped => exact Nat.le_refl _

/-- The alignment of the address is that of the base. -/
theorem align_dvd_iff (ht : q.SoundType) :
    q.align ∣ r.remoteAddr.toNat + q.byteOffset ↔ q.align ∣ r.remoteAddr.toNat := by
  have hoff : q.align ∣ q.byteOffset := by
    cases q with
    | readTyped T offset count | readIntoTyped T offset buf | writeTyped T offset buf =>
        exact Dvd.dvd.mul_left ht.2 _
    | read | readInto | write => exact one_dvd _
  exact (Nat.dvd_add_left hoff)

theorem u32_ofNat_eq {n : Nat} {u : UInt32} (hn : n < 2 ^ 32) : UInt32.ofNat n = u ↔ n = u.toNat := by
  constructor
  · intro h
    rw [← h, UInt32.toNat_ofNat']
    exact (Nat.mod_eq_of_lt hn).symm
  · intro h
    rw [h, UInt32.ofNat_toNat]

/-- An access that fits is not unfit iff it suits and the base is aligned. -/
theorem unfit_iff (hq : q.InPlace) (ht : q.SoundType) (hlen : 0 < q.byteLen) :
    q.Unfit r ↔ ¬ (q.Suits r ∧ q.align ∣ r.remoteAddr.toNat) := by
  have htyped {T : Type} [RemoteSafe T] (hsize : byteSize T < 2 ^ 32)
      (hdvd : byteAlign T ∣ byteSize T) (hpos : 0 < byteSize T) :
      (byteSize T ≠ r.elemSize.toNat ∨ byteAlign T ≠ r.elemAlign.toNat ∨
          ¬ byteAlign T ∣ r.remoteAddr.toNat) ↔
        ¬ ((UInt32.ofNat (byteSize T) = r.elemSize ∧ UInt32.ofNat (byteAlign T) = r.elemAlign) ∧
          byteAlign T ∣ r.remoteAddr.toNat) := by
    have halign : byteAlign T < 2 ^ 32 := Nat.lt_of_le_of_lt (Nat.le_of_dvd hpos hdvd) hsize
    rw [u32_ofNat_eq hsize, u32_ofNat_eq halign]
    tauto
  cases q with
  | read | readTyped => cases hq
  | readInto offset size buf =>
      have hle : size ≤ buf.len ↔ ¬ buf.len.toNat < size.toNat := by
        rw [UInt64.le_iff_toNat_le, Nat.not_lt]
      simp [Request.Unfit, Request.Suits, Request.align, hle]
  | write offset buf => simp [Request.Unfit, Request.Suits, Request.align]
  | readIntoTyped T offset buf | writeTyped T offset buf =>
      exact htyped ht.1 ht.2 (Nat.pos_of_mul_pos_left hlen)

/-- Rejection is a matter of the plan alone. -/
theorem rejected_iff (hq : q.InPlace) (hslot : slot.Established) (hlen : 0 < q.byteLen) :
    q.Rejected r slot ↔ ∃ text, q.plan r = .error (invalid text) := by
  constructor
  · intro h
    obtain ⟨text, ho⟩ := h refusing (hostOf 0 0)
    rw [run_plan hq] at ho
    have hp := plan_planned (r := r) hq
    cases hplan : q.plan r with
    | error e =>
        rw [hplan] at ho
        cases ho
        exact ⟨text, rfl⟩
    | ok p =>
        rw [hplan] at ho hp
        obtain ⟨c, pd, hc, hpd⟩ := hslot
        cases hp with
        | passed _ _ _ _ _ _ hsize hplen _ =>
        have hends := transfer_ends r refusing (hostOf 0 0) hc hpd
          (hsize.trans hplen.symm)
        dsimp only at ho
        rw [ho] at hends
        -- a transfer that has something to move asks the device for a registration
        cases hends with
        | empty _ h0 => omega
        | unregistered e _ _ he => exact absurd rfl (he.ne_invalid _)
        | posted lkey res h' _ _ hres _ => exact absurd rfl ((hres _ rfl).ne_invalid _)
  · intro ⟨text, hplan⟩ dev h
    exact ⟨text, by rw [run_plan hq, hplan]⟩

/-- **The accesses on possible allocations**: nothing overflows but the ids of work requests; what
    is posted lies inside the region and the caller's buffer; and an access of at least one byte is
    rejected before the device is asked iff its exact range exceeds the region or it is unfit. -/
theorem accesses_in_bounds (hr : r.Allocated) (hslot : slot.Established) (hq : q.InPlace)
    (ht : q.SoundType) :
    (∀ dev h, (q.outcome r slot dev h).1 = .error .panic → wordSize ≤ h.nextWrId + 1) ∧
      (∀ dev h, ∀ wr ∈ (q.outcome r slot dev h).2.posted, wr ∈ h.posted ∨
        (r.remoteAddr.toNat ≤ wr.remoteAddr ∧
          wr.remoteAddr + wr.length.toNat ≤ r.remoteAddr.toNat + r.size.toNat ∧
          q.buffer.1 ≤ wr.addr ∧ wr.addr + wr.length.toNat ≤ q.buffer.1 + q.buffer.2)) ∧
      (0 < q.byteLen → (q.Rejected r slot ↔ ¬ q.FitsIn r ∨ q.Unfit r)) := by
  have hends (dev : Device) (h : Host) := run_ends r dev h hq hslot.usable
  refine ⟨fun dev h hpanic => ?_, fun dev h wr hwr => ?_, fun hlen => ?_⟩
  · have he := hends dev h
    generalize q.outcome r slot dev h = o at he hpanic
    cases he with
    | refused e he => exact absurd (Except.error.inj hpanic) he
    | overflow _ hb _ ha => exact absurd (hb.exact hr).2.2 (Nat.not_lt.mpr ha)
    | exhausted hn => exact hn
    | posted _ _ _ _ _ _ hres => exact absurd hpanic hres
  · have he := hends dev h
    generalize q.outcome r slot dev h = o at he hwr
    cases he with
    | refused | overflow | exhausted => exact Or.inl hwr
    | posted res h' wr' hs hb _ _ hh hremote haddr hlength =>
        rw [hh] at hwr
        refine (List.mem_append.mp hwr).imp id fun hnew => ?_
        rw [List.mem_singleton.mp hnew, hremote, haddr, hlength]
        obtain ⟨hfit, hstart, _⟩ := hb.exact hr
        have hfit : q.byteOffset + q.byteLen ≤ r.size.toNat := hfit
        have hbuf := hs.buffer hq
        have htrunc := Nat.mod_le q.byteLen (2 ^ 32)
        omega
  · rw [rejected_iff hq hslot hlen, unfit_iff hq ht hlen]
    have hp := plan_planned (r := r) hq
    constructor
    · intro ⟨text, he⟩
      rw [he] at hp
      cases hp with
      | unsuited _ hs => exact Or.inr fun h => hs h.1
      | outside _ _ hb => exact Or.inl fun h => hb (Or.inl h)
      | misaligned _ _ hb _ _ hd =>
          rw [(hb.exact hr).2.1, align_dvd_iff ht] at hd
          exact Or.inr fun h => hd h.2
    · intro hbad
      cases hplan : q.plan r with
      | error e =>
          rw [hplan] at hp
          cases hp with
          | unsuited text | outside text | misaligned text => exact ⟨text, rfl⟩
          | overflow _ hb _ ha => exact absurd (hb.exact hr).2.2 (Nat.not_lt.mpr ha)
      | ok p =>
          rw [hplan] at hp
          cases hp with
          | passed _ hs hb _ hd =>
          rw [(hb.exact hr).2.1, align_dvd_iff ht] at hd
          rcases hbad with hfit | hunfit
          · exact absurd (hb.exact hr).1 hfit
          · exact absurd ⟨hs, hd⟩ hunfit

end Allocated

theorem bigRegion_allocated : bigRegion.Allocated := ⟨by decide, by decide⟩

theorem openSlot_established : openSlot.Established := ⟨_, _, rfl, rfl⟩

/-- The last three bytes of the big region are written; three bytes from the next offset are not. -/
theorem accesses_in_bounds_last :
    ¬ (Request.write 8589934589 (byteBuffer 3 (by decide))).Rejected bigRegion openSlot ∧
      (Request.write 8589934590 (byteBuffer 3 (by decide))).Rejected bigRegion openSlot := by
  constructor
  · have h := (accesses_in_bounds (q := .write 8589934589 (byteBuffer 3 (by decide)))
      bigRegion_allocated openSlot_established trivial trivial).2.2 (by decide)
    rw [h]
    exact fun hbad => hbad.elim (fun hfit => hfit (by decide)) id
  · have h := (accesses_in_bounds (q := .write 8589934590 (byteBuffer 3 (by decide)))
      bigRegion_allocated openSlot_established trivial trivial).2.2 (by decide)
    rw [h]
    exact Or.inl (by decide)

/-! ## 5. Typed accesses and byte accesses -/

/-- The bytes of a slice. -/
def Slice.toBytes {T : Type} [RemoteSafe T] (buf : Slice T) : Slice UInt8 where
  ptr := buf.ptr
  len := UInt64.ofNat buf.byteLen
  bound := by
    rw [byteLen_toNat]
    exact (Nat.mul_one _).trans_le buf.bound

/-- The kind of an error; a panic has none. -/
def Fault.kind : Fault → Option ErrorKind
  | .err e => some e.kind
  | .panic => none

/-- Two accesses have the same result, up to the texts of errors, and leave the same state: the
    same memory and the same work requests posted. -/
def Request.SameAs (q q' : Request) (r : RemoteMemoryRegion) (slot : GroupConnection) : Prop :=
  ∀ dev h, (q.outcome r slot dev h).1.mapError Fault.kind =
      (q'.outcome r slot dev h).1.mapError Fault.kind ∧
    (q.outcome r slot dev h).2 = (q'.outcome r slot dev h).2

/-- The element type has the layout the region is shared as. -/
structure RemoteMemoryRegion.SharedAs (r : RemoteMemoryRegion) (T : Type) [RemoteSafe T] : Prop where
  size : UInt32.ofNat (byteSize T) = r.elemSize
  align : UInt32.ofNat (byteAlign T) = r.elemAlign

section Typed

variable {r : RemoteMemoryRegion} {T : Type} [RemoteSafe T] {o : UInt64} {buf : Slice T}

/-- Plans that are equal, or errors of the same kind, make the same access. -/
theorem sameAs_of_plan {q q' : Request} (hq : q.InPlace) (hq' : q'.InPlace) (slot : GroupConnection)
    (h : (∃ text text', q.plan r = .error (invalid text) ∧ q'.plan r = .error (invalid text')) ∨
      q.plan r = q'.plan r) : q.SameAs q' r slot := by
  intro dev h'
  rw [run_plan hq, run_plan hq']
  rcases h with ⟨text, text', h₁, h₂⟩ | h
  · rw [h₁, h₂]
    exact ⟨rfl, rfl⟩
  · rw [h]
    exact ⟨rfl, rfl⟩

/-- On a region shared as `T` with an aligned base, the typed checks are the bounds check. -/
theorem typedPlan_aligned {op : String} {opcode : Opcode} {tooLong misaligned : String}
    (hr : r.Allocated) (hshared : r.SharedAs T) (hdvd : byteAlign T ∣ byteSize T)
    (hbase : byteAlign T ∣ r.remoteAddr.toNat) :
    Request.typedPlan r T o buf op opcode tooLong misaligned =
      if saturatingAdd (saturatingMul o.toNat (byteSize T)) buf.byteLen > r.size.toNat then
        .error (invalid tooLong)
      else .ok ⟨op, opcode, buf.ptr, UInt64.ofNat buf.byteLen, o.toNat * byteSize T, buf.byteLen⟩ := by
  have hc : r.checkElem T = .ok () := checkElem_ok.mpr ⟨hshared.size, hshared.align⟩
  unfold Request.typedPlan
  simp only [hc]
  by_cases hb : saturatingAdd (saturatingMul o.toNat (byteSize T)) buf.byteLen > r.size.toNat
  · rw [if_pos hb, if_pos hb]
  rw [if_neg hb, if_neg hb]
  have hexact : (Request.readIntoTyped T o buf).InBounds r := by
    rw [saturatingMul_start, exceeds_iff] at hb
    exact not_not.mp hb
  obtain ⟨_, hstart, hlt⟩ := hexact.exact hr
  have hmul : saturatingMul o.toNat (byteSize T) = o.toNat * byteSize T := hstart
  have hadd : usizeAdd r.remoteAddr.toNat (o.toNat * byteSize T) =
      .ok (r.remoteAddr.toNat + o.toNat * byteSize T) := by
    rw [hstart] at hlt
    exact usizeAdd_ok.mpr ⟨hlt, rfl⟩
  rw [hmul, hadd]
  exact if_neg (not_not.mpr (Nat.dvd_add hbase (Dvd.dvd.mul_left hdvd _)))

/-- Below 2 ^ 64 the element offset is a byte offset. -/
theorem u64_ofNat {n : Nat} (hn : n < wordSize) : (UInt64.ofNat n).toNat = n := by
  unfold wordSize at hn
  rw [UInt64.toNat_ofNat']
  exact Nat.mod_eq_of_lt hn

theorem saturatingMul_of_lt {a b : Nat} (h : a * b < wordSize) : saturatingMul a b = a * b := by
  rw [saturatingMul_start]
  omega

theorem rejected_of_plan {q : Request} (hq : q.InPlace) {text : String}
    (h : q.plan r = .error (invalid text)) (slot : GroupConnection) : q.Rejected r slot :=
  fun dev h' => ⟨text, by rw [run_plan hq, h]⟩

/-- The elements of an access that is not rejected. -/
theorem elements_of_accepted {q : Request} (hq : q.InPlace) (hr : r.Allocated)
    (hdvd : byteAlign T ∣ byteSize T) (halign : q.align = byteAlign T)
    (hoff : q.byteOffset = o.toNat * byteSize T) (hlen : q.byteLen = buf.len.toNat * byteSize T)
    {slot : GroupConnection} {dev : Device} {h : Host}
    (hok : ∀ text, (q.outcome r slot dev h).1 ≠ .error (invalid text)) {i : Nat}
    (hi : i < buf.len.toNat) :
    byteAlign T ∣ r.remoteAddr.toNat + (o.toNat + i) * byteSize T ∧
      r.remoteAddr.toNat + (o.toNat + i) * byteSize T + byteSize T ≤
        r.remoteAddr.toNat + r.size.toNat := by
  have hp := plan_planned (r := r) hq
  rw [run_plan hq] at hok
  cases hplan : q.plan r with
  | error e =>
      rw [hplan] at hp hok
      cases hp with
      | unsuited text | outside text | misaligned text => exact absurd rfl (hok text)
      | overflow _ hb _ ha => exact absurd (hb.exact hr).2.2 (Nat.not_lt.mpr ha)
  | ok p =>
      rw [hplan] at hp
      cases hp with
      | passed _ _ hb _ hd =>
      obtain ⟨hfit, hstart, _⟩ := hb.exact hr
      have hfit : q.byteOffset + q.byteLen ≤ r.size.toNat := hfit
      rw [hstart, halign, hoff] at hd
      rw [hoff, hlen] at hfit
      have hsplit : (o.toNat + i) * byteSize T = o.toNat * byteSize T + i * byteSize T := by ring
      have hinside : i * byteSize T + byteSize T ≤ buf.len.toNat * byteSize T := by
        calc i * byteSize T + byteSize T = (i + 1) * byteSize T := by ring
          _ ≤ buf.len.toNat * byteSize T := Nat.mul_le_mul_right _ hi
      rw [hsplit]
      refine ⟨?_, by omega⟩
      rw [← Nat.add_assoc]
      exact Nat.dvd_add hd (Dvd.dvd.mul_left hdvd i)

/-- A typed access out of the range of `u64`, or of a region whose base is not aligned. -/
theorem typed_rejected {q : Request} (hq : q.InPlace) (hr : r.Allocated) (slot : GroupConnection)
    (hbad : ¬ q.FitsIn r ∨ ¬ q.align ∣ r.remoteAddr.toNat + q.byteOffset) : q.Rejected r slot := by
  have hp := plan_planned (r := r) hq
  cases hplan : q.plan r with
  | error e =>
      rw [hplan] at hp
      cases hp with
      | unsuited text | outside text | misaligned text => exact rejected_of_plan hq hplan slot
      | overflow _ hb _ ha => exact absurd (hb.exact hr).2.2 (Nat.not_lt.mpr ha)
  | ok p =>
      rw [hplan] at hp
      cases hp with
      | passed _ _ hb _ hd =>
      rw [(hb.exact hr).2.1] at hd
      exact (hbad.elim (fun h => h (hb.exact hr).1) fun h => h hd).elim

/-- **The typed accesses are the byte accesses**: on a region shared as `T` whose base is aligned
    they agree with `read_into` and `write` of the same bytes where the byte offset is below 2 ^ 64,
    and are rejected where it is not; with a base that is not aligned they are rejected; and each
    element of an access that is not rejected is aligned and lies inside the region. -/
theorem typed_as_bytes (hr : r.Allocated) (hdvd : byteAlign T ∣ byteSize T)
    (hshared : r.SharedAs T) (slot : GroupConnection) (o : UInt64) (buf : Slice T) :
    (byteAlign T ∣ r.remoteAddr.toNat → o.toNat * byteSize T < wordSize →
      (Request.readIntoTyped T o buf).SameAs
          (.readInto (UInt64.ofNat (o.toNat * byteSize T)) (UInt64.ofNat buf.byteLen) buf.toBytes)
          r slot ∧
        (Request.writeTyped T o buf).SameAs
          (.write (UInt64.ofNat (o.toNat * byteSize T)) buf.toBytes) r slot) ∧
      (byteAlign T ∣ r.remoteAddr.toNat → wordSize ≤ o.toNat * byteSize T →
        (Request.readIntoTyped T o buf).Rejected r slot ∧
          (Request.writeTyped T o buf).Rejected r slot) ∧
      (¬ byteAlign T ∣ r.remoteAddr.toNat → (Request.readIntoTyped T o buf).FitsIn r →
        (Request.readIntoTyped T o buf).Rejected r slot ∧
          (Request.writeTyped T o buf).Rejected r slot) ∧
      ∀ q ∈ [Request.readIntoTyped T o buf, Request.writeTyped T o buf], ∀ dev h,
        (∀ text, (q.outcome r slot dev h).1 ≠ .error (invalid text)) → ∀ i < buf.len.toNat,
          byteAlign T ∣ r.remoteAddr.toNat + (o.toNat + i) * byteSize T ∧
            r.remoteAddr.toNat + (o.toNat + i) * byteSize T + byteSize T ≤
              r.remoteAddr.toNat + r.size.toNat := by
  have hsize := hr.size
  unfold isizeMax at hsize
  refine ⟨fun hbase hlt => ?_, fun hbase hge => ?_, fun hbase hfit => ?_, fun q hq dev h hok i hi => ?_⟩
  · have hoff := u64_ofNat hlt
    have hlen := byteLen_toNat buf
    constructor
    · refine sameAs_of_plan (by trivial) (by trivial) slot ?_
      unfold Request.plan
      dsimp only
      rw [typedPlan_aligned hr hshared hdvd hbase, saturatingMul_of_lt hlt,
        if_neg (show ¬ UInt64.ofNat buf.byteLen > buf.toBytes.len from
          UInt64.not_lt.mpr (UInt64.le_refl _)), hoff, hlen]
      by_cases hb : saturatingAdd (o.toNat * byteSize T) buf.byteLen > r.size.toNat
      · exact Or.inl ⟨_, _, if_pos hb, if_pos hb⟩
      · exact Or.inr (by rw [if_neg hb, if_neg hb]; rfl)
    · refine sameAs_of_plan (by trivial) (by trivial) slot ?_
      unfold Request.plan
      dsimp only
      rw [typedPlan_aligned hr hshared hdvd hbase, saturatingMul_of_lt hlt, hoff,
        show buf.toBytes.len.toNat = buf.byteLen from hlen]
      by_cases hb : saturatingAdd (o.toNat * byteSize T) buf.byteLen > r.size.toNat
      · exact Or.inl ⟨_, _, if_pos hb, if_pos hb⟩
      · exact Or.inr (by rw [if_neg hb, if_neg hb]; rfl)
  · have hout : ¬ (Request.readIntoTyped T o buf).FitsIn r := by
      intro hfit
      have hfit : o.toNat * byteSize T + buf.byteLen ≤ r.size.toNat := hfit
      unfold wordSize at hge
      omega
    exact ⟨typed_rejected (by trivial) hr slot (Or.inl hout),
      typed_rejected (by trivial) hr slot (Or.inl hout)⟩
  · have hmis : ¬ byteAlign T ∣ r.remoteAddr.toNat + o.toNat * byteSize T := fun hd =>
      hbase ((Nat.dvd_add_left (Dvd.dvd.mul_left hdvd _)).mp hd)
    exact ⟨typed_rejected (by trivial) hr slot (Or.inr hmis),
      typed_rejected (by trivial) hr slot (Or.inr hmis)⟩
  · rcases List.mem_pair.mp hq with rfl | rfl
    · exact elements_of_accepted (by trivial) hr hdvd rfl rfl rfl hok hi
    · exact elements_of_accepted (by trivial) hr hdvd rfl rfl rfl hok hi

end Typed

/-- A region of eight `u64`, at `base`. -/
def wordRegion (base : UInt64) : RemoteMemoryRegion :=
  { remoteAddr := base, size := 64, rkey := 7, group := 0, elemSize := 8, elemAlign := 8,
    elemType := "u64" }

def wordBuffer : Slice UInt64 := ⟨65536, 3, by decide⟩

/-- Elements 5 to 7 are bytes 40 to 63; an offset of 2 ^ 61 elements is refused, and so is an address
    that is no multiple of 8. -/
theorem typed_as_bytes_u64 :
    (Request.readIntoTyped UInt64 5 wordBuffer).SameAs (.readInto 40 24 wordBuffer.toBytes)
        (wordRegion 4096) openSlot ∧
      (Request.writeTyped UInt64 2305843009213693952 wordBuffer).Rejected (wordRegion 4096)
        openSlot ∧
      (Request.writeTyped UInt64 5 wordBuffer).Rejected (wordRegion 4100) openSlot :=
  have haligned := typed_as_bytes (T := UInt64) (r := wordRegion 4096) ⟨by decide, by decide⟩
    (by decide) ⟨by decide, by decide⟩ openSlot
  have hskewed := typed_as_bytes (T := UInt64) (r := wordRegion 4100) ⟨by decide, by decide⟩
    (by decide) ⟨by decide, by decide⟩ openSlot
  ⟨((haligned 5 wordBuffer).1 (by decide) (by decide)).1,
    ((haligned 2305843009213693952 wordBuffer).2.1 (by decide) (by decide)).2,
    ((hskewed 5 wordBuffer).2.2.1 (by decide) (by decide)).2⟩

/-! ## 6. Regions with any numbers -/

/-- Whatever the device answers, no address or bound overflows, the work request stays inside the
    advertised range, and no text divides by zero. -/
structure Request.Safe (q : Request) (r : RemoteMemoryRegion) (slot : GroupConnection) : Prop where
  exact : ∀ dev h, h.nextWrId + 1 < wordSize → (q.outcome r slot dev h).1 ≠ .error .panic
  inside : ∀ dev h, ∀ wr ∈ (q.outcome r slot dev h).2.posted, wr ∈ h.posted ∨
    (r.remoteAddr.toNat ≤ wr.remoteAddr ∧
      wr.remoteAddr + wr.length.toNat ≤ r.remoteAddr.toNat + r.size.toNat)
  divisor : q.Suits r → ¬ q.InBounds r → 0 < q.elemBytes

section Untrusted

variable {r : RemoteMemoryRegion} {slot : GroupConnection} {q : Request}

/-- An access of elements without size fits every region. -/
theorem elemBytes_pos (hb : ¬ q.InBounds r) : 0 < q.elemBytes := by
  refine Nat.pos_of_ne_zero fun h0 => hb (Or.inl ?_)
  show q.byteOffset + q.byteLen ≤ r.size.toNat
  cases q with
  | read | readInto | write => cases h0
  | readTyped T offset count | readIntoTyped T offset buf | writeTyped T offset buf =>
      have h0 : byteSize T = 0 := h0
      simp [Request.byteOffset, Request.byteLen, Slice.byteLen, h0]

/-- An access that reaches its connection panics where its address is out of range, and is posted
    elsewhere, on a device that registers its buffer. -/
theorem outcome_used (hq : q.InPlace) (hslot : slot.Usable) (hs : q.Suits r) (hb : q.InBounds r)
    (huse : q.Uses r slot) :
    (wordSize ≤ r.remoteAddr.toNat + q.start ∧
        (q.outcome r slot obedient (hostOf 0 0)).1 = .error .panic) ∨
      (r.remoteAddr.toNat + q.start < wordSize ∧
        ∃ wr ∈ (q.outcome r slot obedient (hostOf 0 0)).2.posted,
          wr.remoteAddr = r.remoteAddr.toNat + q.start ∧ wr.length.toNat = q.byteLen % 2 ^ 32) := by
  have hp := plan_planned (r := r) hq
  rw [run_plan hq]
  cases hplan : q.plan r with
  | error e =>
      rw [hplan] at hp
      cases hp with
      | unsuited _ hs' => exact absurd hs hs'
      | outside _ _ hb' => exact absurd hb hb'
      | misaligned _ _ _ _ _ hd => exact absurd huse.2.2 hd
      | overflow _ _ _ ha => exact Or.inl ⟨ha, rfl⟩
  | ok p =>
      rw [hplan] at hp
      cases hp with
      | passed _ _ _ _ _ _ hsize hplen hoff =>
      obtain ⟨c, hc⟩ := Option.isSome_iff_exists.mp huse.1
      obtain ⟨pd, hpd⟩ := Option.isSome_iff_exists.mp (hslot c hc)
      have hends := transfer_ends r obedient (hostOf 0 0) hc hpd
        (hsize.trans hplen.symm)
      have hpos := huse.2.1
      dsimp only
      generalize (p.transfer r slot).outcome obedient (hostOf 0 0) = o at hends
      cases hends with
      | empty => omega
      | unregistered _ _ hreg => cases hreg
      | overflow _ _ ha => exact Or.inl ⟨hoff ▸ ha, rfl⟩
      | exhausted _ _ hn => exact absurd hn (by decide)
      | posted lkey res h' _ ha _ hh =>
          refine Or.inr ⟨hoff ▸ ha, _, by rw [hh]; exact List.mem_append_right _ List.mem_cons_self,
            ?_, ?_⟩
          · simp only [sendWr, hoff]
          · simp only [sendWr, hplen, UInt32.toNat_ofNat']

/-- A typed access computes its address before it looks at the slot. -/
theorem outcome_typed (hq : q.InPlace) (hs : q.Suits r) (hb : q.InBounds r) (ht : q.Typed)
    (ha : wordSize ≤ r.remoteAddr.toNat + q.start) :
    (q.outcome r slot obedient (hostOf 0 0)).1 = .error .panic := by
  have hp := plan_planned (r := r) hq
  rw [run_plan hq]
  generalize q.plan r = plan at hp
  cases hp with
  | unsuited _ hs' => exact absurd hs hs'
  | outside _ _ hb' => exact absurd hb hb'
  | misaligned _ _ _ _ ha' => exact absurd ha' (Nat.not_lt.mpr ha)
  | overflow => rfl
  | passed _ _ _ ha' => exact absurd (ha' ht) (Nat.not_lt.mpr ha)

/-- **When an access is safe**, whatever the numbers of its region: iff the address it computes does
    not overflow, and what it posts does not exceed the advertised size. -/
theorem safe_iff (hq : q.InPlace) (hslot : slot.Usable) :
    q.Safe r slot ↔ (q.Suits r → q.InBounds r →
      (q.Typed ∨ q.Uses r slot → r.remoteAddr.toNat + q.start < wordSize) ∧
        (q.Uses r slot → q.start + q.byteLen % 2 ^ 32 ≤ r.size.toNat)) := by
  constructor
  · intro h hs hb
    have hexact : (q.outcome r slot obedient (hostOf 0 0)).1 ≠ .error .panic :=
      h.exact obedient (hostOf 0 0) (by decide)
    have hposts (huse : q.Uses r slot) :=
      (outcome_used hq hslot hs hb huse).resolve_left fun hover => hexact hover.2
    refine ⟨?_, fun huse => ?_⟩
    · rintro (ht | huse)
      · exact Nat.lt_of_not_le fun ha => hexact (outcome_typed hq hs hb ht ha)
      · exact (hposts huse).1
    · obtain ⟨_, wr, hwr, hremote, hlength⟩ := hposts huse
      rcases h.inside _ _ wr hwr with hold | hin
      · cases hold
      · omega
  · intro h
    refine ⟨fun dev host hn hpanic => ?_, fun dev host wr hwr => ?_, fun _ hb => elemBytes_pos hb⟩
    · have he := run_ends r dev host hq hslot
      generalize q.outcome r slot dev host = o at he hpanic
      cases he with
      | refused e he => exact absurd (Except.error.inj hpanic) he
      | overflow hs hb huse ha => exact absurd ((h hs hb).1 huse) (Nat.not_lt.mpr ha)
      | exhausted hn' => omega
      | posted _ _ _ _ _ _ hres => exact absurd hpanic hres
    · have he := run_ends r dev host hq hslot
      generalize q.outcome r slot dev host = o at he hwr
      cases he with
      | refused | overflow | exhausted => exact Or.inl hwr
      | posted res h' wr' hs hb huse _ hh hremote _ hlength =>
          rw [hh] at hwr
          refine (List.mem_append.mp hwr).imp id fun hnew => ?_
          have hinside := (h hs hb).2 huse
          rw [List.mem_singleton.mp hnew, hremote, hlength]
          omega

end Untrusted

/-- A region that a lookup hands out has the numbers of a tuple and the layout of a region of some
    exchange. -/
theorem lookup_served {calls : List UpdateCall} {st : RemoteMemoryProvider} (h : Updates calls st)
    {m : RemoteMemoryRegionMetadata} {p : Option UInt32} {r : RemoteMemoryRegion}
    (hr : st.getRemoteMr m p = some r) :
    ∃ u ∈ calls, ∃ regions ts region tuple, u.served = some (regions, ts) ∧ region ∈ regions ∧
      tuple ∈ ts ∧ r = regionOf (RemoteMemoryProvider.cachedOf u.group region tuple) := by
  obtain ⟨e, he, _, rfl⟩ := getRemoteMr_some hr
  obtain ⟨pre, u, post, rfl, hu, _⟩ := entry_iff.mp (h.mem_cached.mp ⟨he, rfl⟩)
  obtain ⟨hg, regions, ts, region, tuple, hs, hl, ht, he⟩ := hu
  refine ⟨u, by simp, regions, ts, region, tuple, hs, ?_, ?_, by rw [he, hg]⟩
  · exact (List.mem_filter.mp (List.mem_of_getLast? hl)).1
  · exact (List.mem_filter.mp (List.mem_of_getLast? ht)).1

/-- **Accesses to regions from untrusted exchanges**: a region looked up after any updates has the
    numbers that some exchange put in it, and an access to it at any later time, over the slot its
    group has then, is safe iff its address does not overflow and it does not exceed the size. -/
theorem untrusted_access_iff {calls : List UpdateCall} {st st' : RemoteMemoryProvider}
    (h : Updates calls st) {m : RemoteMemoryRegionMetadata} {p : Option UInt32}
    {r : RemoteMemoryRegion} (hr : st.getRemoteMr m p = some r) (later : List UpdateCall)
    (h' : Updates (calls ++ later) st') :
    (∃ u ∈ calls, ∃ regions ts region tuple, u.served = some (regions, ts) ∧ region ∈ regions ∧
      tuple ∈ ts ∧ r = regionOf (RemoteMemoryProvider.cachedOf u.group region tuple)) ∧
    ∀ q : Request, q.InPlace → (q.Safe r (st'.session r.group).connection ↔
      (q.Suits r → q.InBounds r →
        (q.Typed ∨ q.Uses r (st'.session r.group).connection →
          r.remoteAddr.toNat + q.start < wordSize) ∧
        (q.Uses r (st'.session r.group).connection →
          q.start + q.byteLen % 2 ^ 32 ≤ r.size.toNat))) :=
  ⟨lookup_served h hr, fun _ hq => safe_iff hq (session_usable h'.usable)⟩

/-- An exchange with a region that ends where the address space does, and one that has every
    address. -/
def wildExchange : List Message :=
  [.welcome PROTOCOL_VERSION,
    .metadata [⟨0, "high", 18446744073709551615, 1, 1, "u8"⟩,
      ⟨1, "all", 18446744073709551615, 1, 1, "u8"⟩],
    .tuples 7 [⟨0, 4096, 18446744073709551615, 11⟩, ⟨1, 0, 18446744073709551615, 12⟩]]

def wildUpdate : Trace Op Op.Ans × Except Fault Unit × RemoteMemoryProvider :=
  friendlyUpdate .new 7 wildExchange

theorem wildUpdate_runs :
    Updates ([] ++ [⟨7, wildUpdate.2.1, received wildUpdate.1⟩]) wildUpdate.2.2 :=
  .update .new (Prog.drive_runs _ _ _)

/-- The two regions, as a lookup hands them out. -/
def wildRegion (remoteAddr : UInt64) (rkey : UInt32) : RemoteMemoryRegion :=
  ⟨remoteAddr, 18446744073709551615, rkey, 7, 1, 1, "u8"⟩

theorem wild_high : wildUpdate.2.2.getRemoteMr ⟨"high", 0, 0, 1, 1, "u8"⟩ (some 7) =
    some (wildRegion 4096 11) := by decide +kernel

theorem wild_all : wildUpdate.2.2.getRemoteMr ⟨"all", 1, 0, 1, 1, "u8"⟩ (some 7) =
    some (wildRegion 0 12) := by decide +kernel

theorem wild_slot : (wildUpdate.2.2.session 7).connection.connection.isSome := by decide +kernel

/-- **They are not always safe**: of the region at 4096, the byte at offset 2 ^ 64 - 2 has an
    address that overflows; of the region at 0, five bytes at offset 2 ^ 64 - 1 pass the saturating
    bounds check, and the work request exceeds the advertised range. -/
theorem untrusted_access_unsafe :
    ∃ calls st r r', Updates calls st ∧
      st.getRemoteMr ⟨"high", 0, 0, 1, 1, "u8"⟩ (some 7) = some r ∧
      st.getRemoteMr ⟨"all", 1, 0, 1, 1, "u8"⟩ (some 7) = some r' ∧
      ¬ (Request.write 18446744073709551614 (byteBuffer 1 (by decide))).Safe r
        (st.session r.group).connection ∧
      ¬ (Request.write 18446744073709551615 (byteBuffer 5 (by decide))).Safe r'
        (st.session r'.group).connection := by
  have husable := session_usable (g := 7) wildUpdate_runs.usable
  refine ⟨_, _, _, _, wildUpdate_runs, wild_high, wild_all, fun hsafe => ?_, fun hsafe => ?_⟩
  · have h := (safe_iff (by trivial) husable).mp hsafe trivial (Or.inr (by decide))
    exact absurd (h.1 (Or.inr ⟨wild_slot, by decide, one_dvd _⟩)) (by decide)
  · have h := (safe_iff (by trivial) husable).mp hsafe trivial (Or.inr (by decide))
    exact absurd (h.2 ⟨wild_slot, by decide, one_dvd _⟩) (by decide)

/-- The first byte of the region at 4096 is written safely. -/
theorem untrusted_access_first :
    (Request.write 0 (byteBuffer 1 (by decide))).Safe (wildRegion 4096 11)
      (wildUpdate.2.2.session 7).connection := by
  have h := (untrusted_access_iff wildUpdate_runs wild_high [] wildUpdate_runs).2
    (.write 0 (byteBuffer 1 (by decide))) trivial
  exact h.mpr fun _ _ => ⟨fun _ => by decide, fun _ => by decide⟩

end Rdmalib
