/-
  File:      Rdmalib/Readers/Transfer.lean
  Subject:   What the reads and writes of a `RemoteMemoryRegion` transfer.

  * `Call.Returns` -- a call returns `Ok` with a value and a state; one rule per statement;
  * `transfer_returns` -- the path all six entry points share, from the connection slot to the
    completion;
  * `Request`, `Request.Served` -- a call of an entry point and what it owes its caller;
  * result: a call serves its caller iff fewer than 2 ^ 32 bytes are to be moved or a check
    rejects it before anything is posted (`transfers_iff`).
-/
import Rdmalib.Readers.Region

namespace Rdmalib

open Base

/-! ## 1. Calls that return `Ok` -/

/-- `x`, called with the device `dev` in state `h`, returns `Ok(v)` in state `h'`. -/
def Call.Returns {α : Type} (x : Call α) (dev : Device) (h : Host) (v : α) (h' : Host) : Prop :=
  (x.run dev).run.run h = (.ok v, h')

section Returns

variable {α β : Type} {dev : Device} {h h' : Host}

@[simp] theorem returns_pure {a v : α} :
    Call.Returns (pure a : Call α) dev h v h' ↔ a = v ∧ h = h' := by
  show (Except.ok a, h) = (Except.ok v, h') ↔ _
  simp

@[simp] theorem returns_throw {e : Fault} {v : α} :
    ¬ Call.Returns (throw e : Call α) dev h v h' := by
  intro hr
  have : (Except.error e, h) = (Except.ok v, h') := hr
  simp at this

@[simp] theorem returns_bind {x : Call α} {f : α → Call β} {v : β} :
    Call.Returns (x >>= f) dev h v h' ↔
      ∃ a h₁, Call.Returns x dev h a h₁ ∧ Call.Returns (f a) dev h₁ v h' := by
  unfold Call.Returns
  rw [ReaderT.run_bind, ExceptT.run_bind, StateT.run_bind]
  rcases (x.run dev).run.run h with ⟨a | a, h₁⟩
  · constructor
    · intro hv
      cases hv
    · intro ⟨_, _, ha, _⟩
      cases ha
  · constructor
    · intro hv
      exact ⟨a, h₁, rfl, hv⟩
    · intro ⟨_, _, ha, hv⟩
      cases ha
      exact hv

@[simp] theorem returns_read {v : Device} :
    Call.Returns (read : Call Device) dev h v h' ↔ dev = v ∧ h = h' := by
  show (Except.ok dev, h) = (Except.ok v, h') ↔ _
  simp

@[simp] theorem returns_get {v : Host} :
    Call.Returns (get : Call Host) dev h v h' ↔ h = v ∧ h = h' := by
  show (Except.ok h, h) = (Except.ok v, h') ↔ _
  simp

@[simp] theorem returns_modify {f : Host → Host} {v : PUnit} :
    Call.Returns (modify f : Call PUnit) dev h v h' ↔ f h = h' := by
  show (Except.ok PUnit.unit, f h) = (Except.ok v, h') ↔ _
  simp

@[simp] theorem returns_lift {e : Except Fault α} {v : α} :
    Call.Returns (liftM e : Call α) dev h v h' ↔ e = .ok v ∧ h = h' := by
  show (e, h) = (Except.ok v, h') ↔ _
  simp

/-- An early return with an error: the rest runs iff the condition is false. -/
@[simp] theorem returns_guard {c : Prop} [Decidable c] {e : Fault} {f : α → Call β} {y : Call β}
    {v : β} :
    Call.Returns (if c then (throw e >>= f) else y) dev h v h' ↔ ¬ c ∧ Call.Returns y dev h v h' := by
  by_cases hc : c <;> simp [hc]

end Returns

@[simp] theorem usizeAdd_ok {a b v : Nat} :
    usizeAdd a b = .ok v ↔ a + b < wordSize ∧ a + b = v := by
  unfold usizeAdd
  by_cases h : a + b < wordSize <;> simp [h]

@[simp] theorem check_ok {call : String} {ret : Int} {v : Unit} :
    check call ret = .ok v ↔ ret = 0 := by
  unfold check
  by_cases h : ret = 0 <;> simp [h]

/-! ## 2. The path from the slot to the completion -/

/-- A poll loop ends with `Ok` only on a poll that reports the operation's success. -/
theorem pollLoop_ok {op : String} {wrId : Nat} {polls : List Poll} {last : Poll} {v : Unit}
    (h : pollLoop op wrId polls last = .ok v) : ∃ p ∈ polls ++ [last], p.Succeeds wrId := by
  have once {p : Poll} {b : Bool} (hb : pollOnce op wrId p = .ok b) (ht : b = true) :
      p.Succeeds wrId := by
    subst ht
    unfold pollOnce at hb
    by_cases hneg : p.ret < 0
    · have hne : ¬ (-p.ret = 0) := by omega
      simp [hneg, check, hne, Bind.bind, Except.bind] at hb
    · by_cases hret : p.ret = 1 ∧ p.wc.wrId = wrId
      · by_cases hst : p.wc.status = IBV_WC_SUCCESS
        · exact ⟨hret.1, hret.2, hst⟩
        · simp [hret, hst, Bind.bind, Except.bind, throw, throwThe,
            MonadExceptOf.throw] at hb
      · simp [hneg, hret, Pure.pure, Except.pure] at hb
  induction polls with
  | nil =>
      unfold pollLoop at h
      cases hb : pollOnce op wrId last with
      | error e => simp [hb, Bind.bind, Except.bind] at h
      | ok b =>
          cases b with
          | true => exact ⟨last, by simp, once hb rfl⟩
          | false =>
              simp [hb, Bind.bind, Except.bind, throw, throwThe, MonadExceptOf.throw] at h
  | cons p ps ih =>
      unfold pollLoop at h
      cases hb : pollOnce op wrId p with
      | error e => simp [hb, Bind.bind, Except.bind] at h
      | ok b =>
          cases b with
          | true => exact ⟨p, by simp, once hb rfl⟩
          | false =>
              simp only [hb, Bind.bind, Except.bind, Bool.false_eq_true, if_false] at h
              obtain ⟨q, hq, hs⟩ := ih h
              exact ⟨q, by simpa using Or.inr hq, hs⟩

/-- The slot holds an established connection, and a transfer of `len` bytes to `base + off` is
    not rejected. -/
structure Postable (slot : GroupConnection) (base off len : Nat) : Prop where
  connected : ∃ c pd, slot.connection = some c ∧ c.pd = some pd
  inRange : base + off < wordSize
  nonempty : len ≠ 0

/-- The device registered the buffer, took the work request and reported its completion. -/
structure Device.Completes (dev : Device) (op : String) (lkey : UInt32) (h : Host) : Prop where
  registered : ∃ mr rkey, dev.regMr = some (mr, lkey, rkey)
  counter : h.nextWrId + 1 < wordSize
  posted : dev.postSend = 0
  polled : pollLoop op h.nextWrId dev.polls dev.lastPoll = .ok ()

theorem get_ok {slot : GroupConnection} {c : Connection} :
    slot.get = .ok c ↔ slot.connection = some c := by
  unfold GroupConnection.get
  cases slot.connection <;> simp

theorem protectionDomain_returns {c : Connection} {dev : Device} {h h' : Host}
    {pd : ProtectionDomain} :
    Call.Returns c.protectionDomain dev h pd h' ↔ c.pd = some pd ∧ h = h' := by
  unfold Connection.protectionDomain
  cases c.pd <;> simp

theorem registerAddr_returns {c : Connection} {ptr size : UInt64} {dev : Device} {h h' : Host}
    {mr : MemoryRegion} :
    Call.Returns (c.registerAddr ptr size) dev h mr h' ↔
      ∃ pd n lkey rkey, c.pd = some pd ∧ size ≠ 0 ∧ dev.regMr = some (n, lkey, rkey) ∧ h = h' ∧
        mr = ⟨n, pd.pd, ptr, size, lkey, rkey⟩ := by
  unfold Connection.registerAddr ProtectionDomain.registerAddr
  simp only [returns_guard, returns_bind, protectionDomain_returns, returns_read, returns_pure]
  constructor
  · intro hr
    obtain ⟨pd, _, ⟨hpd, rfl⟩, hsize, _, _, ⟨_, _, ⟨rfl, rfl⟩, rfl, rfl⟩, hr⟩ := hr
    cases hreg : dev.regMr with
    | none => simp [hreg] at hr
    | some q =>
        obtain ⟨n, lkey, rkey⟩ := q
        simp only [hreg, returns_pure] at hr
        exact ⟨pd, n, lkey, rkey, hpd, hsize, rfl, hr.2, hr.1.symm⟩
  · intro hr
    obtain ⟨pd, n, lkey, rkey, hpd, hsize, hreg, hh, hmr⟩ := hr
    refine ⟨pd, h, ⟨hpd, rfl⟩, hsize, _, h, ⟨dev, h, ⟨rfl, rfl⟩, rfl, rfl⟩, ?_⟩
    simp [hreg, hmr, hh]

theorem oneSided_returns {c : Connection} {op : String} {opcode : Opcode} {mr : MemoryRegion}
    {remote len : Nat} {rkey : UInt32} {dev : Device} {h h' : Host} :
    Call.Returns (c.oneSided op opcode mr remote rkey len) dev h () h' ↔
      len ≠ 0 ∧ len ≤ mr.size.toNat ∧ (∃ pd, c.pd = some pd ∧ mr.pd = pd.pd) ∧
        h.nextWrId + 1 < wordSize ∧ dev.postSend = 0 ∧
        pollLoop op h.nextWrId dev.polls dev.lastPoll = .ok () ∧
        h' =
          let wr := sendWr opcode mr.addr mr.lkey remote rkey len h
          { mem := dev.effect wr h.mem, nextWrId := h.nextWrId + 1, posted := h.posted ++ [wr] } := by
  unfold Connection.oneSided
  simp only [returns_guard, returns_bind, protectionDomain_returns, returns_read, returns_get,
    returns_modify, returns_lift, usizeAdd_ok, check_ok]
  constructor
  · intro hr
    obtain ⟨hl, hs, pd, _, ⟨hpd, rfl⟩, hm, _, _, ⟨rfl, rfl⟩, _, _, ⟨⟨hn, rfl⟩, rfl⟩, _, _, rfl, _,
      _, ⟨rfl, rfl⟩, _, _, ⟨hp, rfl⟩, _, _, rfl, hpoll, hh⟩ := hr
    exact ⟨hl, by omega, ⟨pd, hpd, by simpa using hm⟩, hn, hp, hpoll, hh.symm⟩
  · intro hr
    obtain ⟨hl, hs, ⟨pd, hpd, hm⟩, hn, hp, hpoll, hh⟩ := hr
    exact ⟨hl, by omega, pd, _, ⟨hpd, rfl⟩, by simpa using hm, _, _, ⟨rfl, rfl⟩, _, _,
      ⟨⟨hn, rfl⟩, rfl⟩, (), _, rfl, _, _, ⟨rfl, rfl⟩, (), _, ⟨hp, rfl⟩, (), _, rfl, hpoll,
      hh.symm⟩

/-- A transfer of `len` bytes between `ptr` and `base + off` was posted and reported complete. -/
def Moves (slot : GroupConnection) (op : String) (opcode : Opcode) (ptr : UInt64) (base off : Nat)
    (rkey : UInt32) (len : Nat) (dev : Device) (h h' : Host) : Prop :=
  Postable slot base off len ∧ ∃ lkey, dev.Completes op lkey h ∧
    h' =
      let wr := sendWr opcode ptr lkey (base + off) rkey len h
      { mem := dev.effect wr h.mem, nextWrId := h.nextWrId + 1, posted := h.posted ++ [wr] }

/-- **The path all six entry points share**: connection, registration, operation. -/
theorem transfer_returns {slot : GroupConnection} {ptr size : UInt64} {base off len : Nat}
    {op : String} {opcode : Opcode} {rkey : UInt32} {dev : Device} {h h' : Host}
    (hlen : size.toNat = len) :
    Call.Returns (do
        let connection ← slot.get
        let mr ← connection.registerAddr ptr size
        connection.oneSided op opcode mr (← usizeAdd base off) rkey len) dev h () h' ↔
      Moves slot op opcode ptr base off rkey len dev h h' := by
  unfold Moves
  simp only [returns_bind, returns_lift, get_ok, registerAddr_returns, usizeAdd_ok,
    oneSided_returns]
  constructor
  · intro hr
    obtain ⟨c, _, ⟨hc, rfl⟩, _, _, ⟨pd, n, lkey, rk, hpd, _, hreg, rfl, rfl⟩, _, _, ⟨⟨hb, rfl⟩, rfl⟩,
      hl, _, _, hn, hp, hpoll, hh⟩ := hr
    exact ⟨⟨⟨c, pd, hc, hpd⟩, hb, hl⟩, lkey, ⟨⟨n, rk, hreg⟩, hn, hp, hpoll⟩, hh⟩
  · intro hr
    obtain ⟨⟨⟨c, pd, hc, hpd⟩, hb, hl⟩, lkey, ⟨⟨n, rk, hreg⟩, hn, hp, hpoll⟩, hh⟩ := hr
    have hs : size ≠ 0 := by
      intro h0
      subst h0
      exact hl hlen.symm
    exact ⟨c, _, ⟨hc, rfl⟩, _, _, ⟨pd, n, lkey, rk, hpd, hs, hreg, rfl, rfl⟩, _, _,
      ⟨⟨hb, rfl⟩, rfl⟩, hl, hlen.ge, ⟨pd, hpd, rfl⟩, hn, hp, hpoll, hh⟩

/-! ## 3. Elements -/

theorem elems_eq_iff {T : Type} [RemoteSafe T] {m m' : Mem} {a a' n : Nat} :
    elems T m a n = elems T m' a' n ↔
      m.bytes a (n * byteSize T) = m'.bytes a' (n * byteSize T) := by
  have hrow (i : Nat) : (bits (T := T)).symm (byteVec m (a + i * byteSize T) (byteSize T)) =
      bits.symm (byteVec m' (a' + i * byteSize T) (byteSize T)) ↔
        ∀ j < byteSize T, m (a + (i * byteSize T + j)) = m' (a' + (i * byteSize T + j)) := by
    rw [bits.symm.apply_eq_iff_eq, byteVec, byteVec, Subtype.mk.injEq, Mem.bytes_eq_iff]
    simp only [Nat.add_assoc]
  unfold elems
  rw [List.map_inj_left, Mem.bytes_eq_iff]
  simp only [List.mem_range, hrow]
  constructor
  · intro h k hk
    -- byte `k` is byte `k % size` of element `k / size`
    have hpos : 0 < byteSize T := Nat.pos_of_lt_mul_left hk
    have hdiv : k / byteSize T < n := Nat.div_lt_of_lt_mul (by rwa [Nat.mul_comm])
    have := h (k / byteSize T) hdiv (k % byteSize T) (Nat.mod_lt _ hpos)
    rwa [Nat.div_add_mod'] at this
  · intro h i hi j hj
    refine h (i * byteSize T + j) ?_
    calc i * byteSize T + j < i * byteSize T + byteSize T := by omega
      _ = (i + 1) * byteSize T := by ring
      _ ≤ n * byteSize T := Nat.mul_le_mul_right _ hi

/-- A buffer of bytes holds its bytes. -/
theorem elems_u8 (m : Mem) (a n : Nat) : elems UInt8 m a n = m.bytes a n := by
  unfold elems Mem.bytes
  refine List.map_congr_left fun i _ => ?_
  show m (a + i * 1 + 0) = m (a + i)
  congr 1
  omega

/-! ## 4. What the six entry points do -/

section Entries

variable {r : RemoteMemoryRegion} {slot : GroupConnection} {dev : Device} {h h' : Host}

theorem saturatingAdd_le {a b : Nat} {n : UInt64} (hfit : a + b ≤ n.toNat) :
    ¬ saturatingAdd a b > n.toNat := by
  unfold saturatingAdd
  omega

theorem saturatingMul_eq {a b : Nat} {n : UInt64} (hfit : a * b ≤ n.toNat) :
    saturatingMul a b = a * b := by
  unfold saturatingMul wordSize
  have := n.toNat_lt
  omega

theorem zeroedVec_outcome {T : Type} [RemoteSafe T] {len : UInt64} :
    (zeroedVec T len).outcome dev h =
      if given : Obtainable dev.grants (len.toNat * byteSize T) then
        (.ok ⟨dev.alloc, len, given.1⟩, h.zeroed dev.alloc.toNat (len.toNat * byteSize T))
      else (.error .panic, h) := by
  unfold zeroedVec
  rw [outcome_bind, outcome_read]
  dsimp only
  by_cases given : Obtainable dev.grants (len.toNat * byteSize T)
  · rw [dif_pos given, dif_pos given]
    rfl
  · rw [dif_neg given, dif_neg given]
    rfl

theorem zeroedVec_returns {T : Type} [RemoteSafe T] {len : UInt64} {buf : Slice T} :
    Call.Returns (zeroedVec T len) dev h buf h' ↔
      Obtainable dev.grants (len.toNat * byteSize T) ∧ buf.ptr = dev.alloc ∧ buf.len = len ∧
        h' = h.zeroed dev.alloc.toNat (len.toNat * byteSize T) := by
  show (zeroedVec T len).outcome dev h = (.ok buf, h') ↔ _
  rw [zeroedVec_outcome]
  by_cases given : Obtainable dev.grants (len.toNat * byteSize T)
  · rw [dif_pos given]
    constructor
    · intro hr
      obtain ⟨hbuf, hh⟩ := Prod.mk.inj hr
      rw [← Except.ok.inj hbuf]
      exact ⟨given, rfl, rfl, hh.symm⟩
    · intro ⟨_, hp, hl, hh⟩
      obtain ⟨ptr, n, hbound⟩ := buf
      subst hp hl hh
      rfl
  · rw [dif_neg given]
    exact ⟨fun hr => (nomatch (Prod.mk.inj hr).1), fun hr => absurd hr.1 given⟩

theorem readInto_returns {offset size : UInt64} {buf : Slice UInt8}
    (hfit : offset.toNat + size.toNat ≤ r.size.toNat) :
    Call.Returns (r.readInto slot offset size buf) dev h () h' ↔
      size ≤ buf.len ∧ Moves slot "read" .rdmaRead buf.ptr r.remoteAddr.toNat offset.toNat r.rkey
        size.toNat dev h h' := by
  unfold RemoteMemoryRegion.readInto Connection.read
  rw [returns_guard, returns_guard, transfer_returns rfl]
  simp [saturatingAdd_le hfit]

theorem read_returns {offset size : UInt64} {v : List UInt8}
    (hfit : offset.toNat + size.toNat ≤ r.size.toNat) :
    Call.Returns (r.read slot offset size) dev h v h' ↔
      Obtainable dev.grants size.toNat ∧
        Moves slot "read" .rdmaRead dev.alloc r.remoteAddr.toNat offset.toNat r.rkey size.toNat dev
          (h.zeroed dev.alloc.toNat size.toNat) h' ∧
        v = elems UInt8 h'.mem.loc dev.alloc.toNat size.toNat := by
  unfold RemoteMemoryRegion.read
  have hone : size.toNat * byteSize UInt8 = size.toNat := Nat.mul_one _
  simp only [returns_bind, zeroedVec_returns, readInto_returns hfit, returns_get, returns_pure, hone]
  constructor
  · intro hr
    obtain ⟨⟨_, _, _⟩, _, ⟨hgiven, rfl, rfl, rfl⟩, _, _, ⟨_, hm⟩, _, _, ⟨rfl, rfl⟩, rfl, rfl⟩ := hr
    exact ⟨hgiven, hm, rfl⟩
  · intro hr
    obtain ⟨hgiven, hm, hv⟩ := hr
    exact ⟨⟨dev.alloc, size, hone.symm ▸ hgiven.1⟩, _, ⟨hgiven, rfl, rfl, rfl⟩, (), _,
      ⟨UInt64.le_refl _, hm⟩, _, _, ⟨rfl, rfl⟩, hv.symm, rfl⟩

theorem write_returns {offset : UInt64} {buf : Slice UInt8}
    (hfit : offset.toNat + buf.len.toNat ≤ r.size.toNat) :
    Call.Returns (r.write slot offset buf) dev h () h' ↔
      Moves slot "write" .rdmaWrite buf.ptr r.remoteAddr.toNat offset.toNat r.rkey buf.len.toNat dev
        h h' := by
  unfold RemoteMemoryRegion.write Connection.write
  rw [returns_guard, transfer_returns rfl]
  simp [saturatingAdd_le hfit]

variable {T : Type} [RemoteSafe T]

/-- The region is shared as elements with the layout of `T`, and the element at `offset` is
    aligned for it. -/
structure LaidOut (r : RemoteMemoryRegion) (T : Type) [RemoteSafe T] (offset : UInt64) : Prop where
  size : UInt32.ofNat (byteSize T) = r.elemSize
  align : UInt32.ofNat (byteAlign T) = r.elemAlign
  aligned : byteAlign T ∣ r.remoteAddr.toNat + offset.toNat * byteSize T

theorem checkElem_ok {v : Unit} : r.checkElem T = .ok v ↔
    UInt32.ofNat (byteSize T) = r.elemSize ∧ UInt32.ofNat (byteAlign T) = r.elemAlign := by
  unfold RemoteMemoryRegion.checkElem
  split <;> rename_i hc
  · simp [hc]
  · simp only [reduceCtorEq, false_iff]
    exact hc

theorem byteLen_toNat (buf : Slice T) : (UInt64.ofNat buf.byteLen).toNat = buf.byteLen := by
  have := buf.bound
  unfold isizeMax at this
  rw [UInt64.toNat_ofNat']
  exact Nat.mod_eq_of_lt (by unfold Slice.byteLen; omega)

/-- The checks the two element-wise transfers share, around any transfer. -/
theorem typed_returns {offset : UInt64} {len : Nat} {tooLong misaligned : Fault} {tail : Call Unit}
    (hfit : offset.toNat * byteSize T + len ≤ r.size.toNat) :
    Call.Returns (do
        r.checkElem T
        let byteOffset := saturatingMul offset.toNat (byteSize T)
        if saturatingAdd byteOffset len > r.size.toNat then
          throw tooLong
        if ¬ byteAlign T ∣ (← usizeAdd r.remoteAddr.toNat byteOffset) then
          throw misaligned
        tail) dev h () h' ↔
      LaidOut r T offset ∧ r.remoteAddr.toNat + offset.toNat * byteSize T < wordSize ∧
        Call.Returns tail dev h () h' := by
  rw [saturatingMul_eq (by omega : offset.toNat * byteSize T ≤ r.size.toNat)]
  simp only [returns_bind, returns_lift, checkElem_ok, returns_guard, usizeAdd_ok]
  constructor
  · intro hr
    obtain ⟨_, _, ⟨⟨hs, ha⟩, rfl⟩, _, _, _, ⟨⟨hlt, rfl⟩, rfl⟩, hd, ht⟩ := hr
    exact ⟨⟨hs, ha, by simpa using hd⟩, hlt, ht⟩
  · intro hr
    obtain ⟨⟨hs, ha, hd⟩, hlt, ht⟩ := hr
    exact ⟨(), h, ⟨⟨hs, ha⟩, rfl⟩, saturatingAdd_le hfit, _, h, ⟨⟨hlt, rfl⟩, rfl⟩, not_not.mpr hd, ht⟩

theorem readIntoTyped_returns {offset : UInt64} {buf : Slice T}
    (hfit : offset.toNat * byteSize T + buf.byteLen ≤ r.size.toNat) :
    Call.Returns (r.readIntoTyped slot T offset buf) dev h () h' ↔
      LaidOut r T offset ∧ Moves slot "read" .rdmaRead buf.ptr r.remoteAddr.toNat
        (offset.toNat * byteSize T) r.rkey buf.byteLen dev h h' := by
  unfold RemoteMemoryRegion.readIntoTyped Connection.read
  rw [typed_returns hfit, saturatingMul_eq (by omega : offset.toNat * byteSize T ≤ r.size.toNat),
    transfer_returns (byteLen_toNat buf)]
  exact and_congr_right fun _ => and_iff_right_of_imp fun hm => hm.1.inRange

theorem writeTyped_returns {offset : UInt64} {buf : Slice T}
    (hfit : offset.toNat * byteSize T + buf.byteLen ≤ r.size.toNat) :
    Call.Returns (r.writeTyped slot T offset buf) dev h () h' ↔
      LaidOut r T offset ∧ Moves slot "write" .rdmaWrite buf.ptr r.remoteAddr.toNat
        (offset.toNat * byteSize T) r.rkey buf.byteLen dev h h' := by
  unfold RemoteMemoryRegion.writeTyped Connection.write
  rw [typed_returns hfit, saturatingMul_eq (by omega : offset.toNat * byteSize T ≤ r.size.toNat),
    transfer_returns (byteLen_toNat buf)]
  exact and_congr_right fun _ => and_iff_right_of_imp fun hm => hm.1.inRange

theorem readTyped_returns {offset count : UInt64} {v : List T}
    (hfit : offset.toNat * byteSize T + count.toNat * byteSize T ≤ r.size.toNat) :
    Call.Returns (r.readTyped slot T offset count) dev h v h' ↔
      Obtainable dev.grants (count.toNat * byteSize T) ∧ LaidOut r T offset ∧
        Moves slot "read" .rdmaRead dev.alloc r.remoteAddr.toNat (offset.toNat * byteSize T) r.rkey
          (count.toNat * byteSize T) dev (h.zeroed dev.alloc.toNat (count.toNat * byteSize T)) h' ∧
        v = elems T h'.mem.loc dev.alloc.toNat count.toNat := by
  unfold RemoteMemoryRegion.readTyped
  simp only [returns_bind, zeroedVec_returns, returns_get, returns_pure]
  constructor
  · intro hr
    obtain ⟨⟨_, _, _⟩, _, ⟨hgiven, rfl, rfl, rfl⟩, _, _, hm, _, _, ⟨rfl, rfl⟩, rfl, rfl⟩ := hr
    obtain ⟨hlaid, hm⟩ := (readIntoTyped_returns hfit).mp hm
    exact ⟨hgiven, hlaid, hm, rfl⟩
  · intro hr
    obtain ⟨hgiven, hlaid, hm, hv⟩ := hr
    exact ⟨⟨dev.alloc, count, hgiven.1⟩, _, ⟨hgiven, rfl, rfl, rfl⟩, (), _,
      (readIntoTyped_returns hfit).mpr ⟨hlaid, hm⟩, _, _, ⟨rfl, rfl⟩, hv.symm, rfl⟩

end Entries

/-! ## 5. Requests -/

/-- A call of one of the six entry points. -/
inductive Request : Type 1 where
  | read (offset size : UInt64)
  | readInto (offset size : UInt64) (buf : Slice UInt8)
  | readTyped (T : Type) [RemoteSafe T] (offset count : UInt64)
  | readIntoTyped (T : Type) [RemoteSafe T] (offset : UInt64) (buf : Slice T)
  | write (offset : UInt64) (buf : Slice UInt8)
  | writeTyped (T : Type) [RemoteSafe T] (offset : UInt64) (buf : Slice T)

/-- The `len` bytes at `remote` have arrived at `loc`; nothing else has changed. -/
structure Fetched (before after : Memories) (loc remote len : Nat) : Prop where
  arrived : after.loc.bytes loc len = before.rem.bytes remote len
  rest : ∀ a, a < loc ∨ loc + len ≤ a → after.loc a = before.loc a
  remote : after.rem = before.rem

/-- The `len` bytes at `loc` have arrived at `remote`; nothing else has changed. -/
structure Stored (before after : Memories) (loc remote len : Nat) : Prop where
  arrived : after.rem.bytes remote len = before.loc.bytes loc len
  rest : ∀ a, a < remote ∨ remote + len ≤ a → after.rem a = before.rem a
  loc : after.loc = before.loc

namespace Request

/-- What the entry point returns with `Ok`. -/
def Result : Request → Type
  | .read .. => List UInt8
  | @readTyped T _ _ _ => List T
  | _ => Unit

def run (r : RemoteMemoryRegion) (slot : GroupConnection) : (q : Request) → Call q.Result
  | .read offset size => r.read slot offset size
  | .readInto offset size buf => r.readInto slot offset size buf
  | @readTyped T _ offset count => r.readTyped slot T offset count
  | @readIntoTyped T _ offset buf => r.readIntoTyped slot T offset buf
  | .write offset buf => r.write slot offset buf
  | @writeTyped T _ offset buf => r.writeTyped slot T offset buf

/-- Where in the region the requested range starts, in bytes. -/
def byteOffset : Request → Nat
  | .read offset _ | .readInto offset _ _ | .write offset _ => offset.toNat
  | @readTyped T _ offset _ | @readIntoTyped T _ offset _ | @writeTyped T _ offset _ =>
      offset.toNat * byteSize T

/-- How many bytes are requested. -/
def byteLen : Request → Nat
  | .read _ size | .readInto _ size _ => size.toNat
  | @readTyped T _ _ count => count.toNat * byteSize T
  | .write _ buf => buf.len.toNat
  | @readIntoTyped _ _ _ buf | @writeTyped _ _ _ buf => buf.byteLen

/-- The requested range lies in the region. -/
def FitsIn (q : Request) (r : RemoteMemoryRegion) : Prop :=
  q.byteOffset + q.byteLen ≤ r.size.toNat

instance (q : Request) (r : RemoteMemoryRegion) : Decidable (q.FitsIn r) :=
  inferInstanceAs (Decidable (_ ≤ _))

/-- **What a request that returned `Ok(v)` owes its caller**, over the memories before and after. -/
def Served (r : RemoteMemoryRegion) (before after : Memories) : (q : Request) → q.Result → Prop
  | .read offset size, v =>
      v = before.rem.bytes (r.remoteAddr.toNat + offset.toNat) size.toNat ∧ after.rem = before.rem
  | .readInto offset size buf, _ =>
      Fetched before after buf.ptr.toNat (r.remoteAddr.toNat + offset.toNat) size.toNat
  | @readTyped T _ offset count, v =>
      v = elems T before.rem (r.remoteAddr.toNat + offset.toNat * byteSize T) count.toNat ∧
        after.rem = before.rem
  | @readIntoTyped T _ offset buf, _ =>
      buf.elems after.loc =
          elems T before.rem (r.remoteAddr.toNat + offset.toNat * byteSize T) buf.len.toNat ∧
        Fetched before after buf.ptr.toNat (r.remoteAddr.toNat + offset.toNat * byteSize T)
          buf.byteLen
  | .write offset buf, _ =>
      Stored before after buf.ptr.toNat (r.remoteAddr.toNat + offset.toNat) buf.len.toNat
  | @writeTyped T _ offset buf, _ =>
      elems T after.rem (r.remoteAddr.toNat + offset.toNat * byteSize T) buf.len.toNat =
          buf.elems before.loc ∧
        Stored before after buf.ptr.toNat (r.remoteAddr.toNat + offset.toNat * byteSize T)
          buf.byteLen

/-- Whenever the request returns `Ok`, on a device that executes what it reports, it has served
    its caller. -/
def Serves (q : Request) (r : RemoteMemoryRegion) (slot : GroupConnection) : Prop :=
  ∀ dev : Device, dev.Executes → ∀ h v h', Call.Returns (q.run r slot) dev h v h' →
    q.Served r h.mem h'.mem v

/-- No check of the library rejects the request before the work request is posted. -/
def Accepted (r : RemoteMemoryRegion) (slot : GroupConnection) (q : Request) : Prop :=
  Postable slot r.remoteAddr.toNat q.byteOffset q.byteLen ∧
    match q with
    | .read _ size => size.toNat ≤ isizeMax
    | .readInto _ size buf => size ≤ buf.len
    | @readTyped T _ offset count => count.toNat * byteSize T ≤ isizeMax ∧ LaidOut r T offset
    | @readIntoTyped T _ offset _ | @writeTyped T _ offset _ => LaidOut r T offset
    | .write .. => True

end Request

/-- A successful `write_typed` followed, with no other write to the remote memory, by a
    successful `read_typed` of the same elements returns what was written. -/
def RoundTrips (r : RemoteMemoryRegion) (slot : GroupConnection) (T : Type) [RemoteSafe T]
    (offset : UInt64) (buf : Slice T) : Prop :=
  ∀ dev dev' : Device, dev.Executes → dev'.Executes → ∀ h h₁ h₂ h₃ xs,
    Call.Returns (r.writeTyped slot T offset buf) dev h () h₁ → h₂.mem.rem = h₁.mem.rem →
    Call.Returns (r.readTyped slot T offset buf.len) dev' h₂ xs h₃ → xs = buf.elems h.mem.loc

/-! ## 6. Short transfers are served -/

/-- What a work request of `len` bytes does to the memories: its length field holds
    `len % 2 ^ 32`. -/
theorem execute_sendWr (opcode : Opcode) (ptr : UInt64) (lkey : UInt32) (remote : Nat)
    (rkey : UInt32) (len : Nat) (h : Host) (m : Memories) :
    (sendWr opcode ptr lkey remote rkey len h).execute m =
      match opcode with
      | .rdmaRead => { m with loc := Mem.copy m.rem remote m.loc ptr.toNat (len % 2 ^ 32) }
      | .rdmaWrite => { m with rem := Mem.copy m.loc ptr.toNat m.rem remote (len % 2 ^ 32) } := by
  cases opcode <;> simp [SendWr.execute, sendWr]

section Short

variable {slot : GroupConnection} {op : String} {opcode : Opcode} {ptr : UInt64}
variable {base off len : Nat} {rkey : UInt32} {dev : Device} {h h' : Host}

theorem Moves.executed (hm : Moves slot op opcode ptr base off rkey len dev h h')
    (hx : dev.Executes) :
    ∃ lkey, h'.mem = (sendWr opcode ptr lkey (base + off) rkey len h).execute h.mem := by
  obtain ⟨_, lkey, hc, rfl⟩ := hm
  exact ⟨lkey, hx _ _ (pollLoop_ok hc.polled)⟩

theorem Moves.fetched (hm : Moves slot op .rdmaRead ptr base off rkey len dev h h')
    (hx : dev.Executes) (hlen : len < 2 ^ 32) :
    Fetched h.mem h'.mem ptr.toNat (base + off) len := by
  obtain ⟨lkey, hmem⟩ := hm.executed hx
  rw [execute_sendWr, Nat.mod_eq_of_lt hlen] at hmem
  rw [hmem]
  exact ⟨Mem.bytes_copy, fun _ => Mem.copy_outside, rfl⟩

theorem Moves.stored (hm : Moves slot op .rdmaWrite ptr base off rkey len dev h h')
    (hx : dev.Executes) (hlen : len < 2 ^ 32) :
    Stored h.mem h'.mem ptr.toNat (base + off) len := by
  obtain ⟨lkey, hmem⟩ := hm.executed hx
  rw [execute_sendWr, Nat.mod_eq_of_lt hlen] at hmem
  rw [hmem]
  exact ⟨Mem.bytes_copy, fun _ => Mem.copy_outside, rfl⟩

end Short

/-- A request for fewer than 2 ^ 32 bytes is served. -/
theorem serves_of_short {r : RemoteMemoryRegion} {slot : GroupConnection} {q : Request}
    (hfit : q.FitsIn r) (hlen : q.byteLen < 2 ^ 32) : q.Serves r slot := by
  intro dev hx h v h' hr
  cases q with
  | read offset size =>
      obtain ⟨_, hm, hv⟩ := (read_returns hfit).mp hr
      have hf := hm.fetched hx hlen
      exact ⟨by rw [hv, elems_u8]; exact hf.arrived, hf.remote⟩
  | readInto offset size buf =>
      exact ((readInto_returns hfit).mp hr).2.fetched hx hlen
  | readTyped T offset count =>
      obtain ⟨_, _, hm, hv⟩ := (readTyped_returns hfit).mp hr
      have hf := hm.fetched hx hlen
      exact ⟨by rw [hv]; exact elems_eq_iff.mpr hf.arrived, hf.remote⟩
  | readIntoTyped T offset buf =>
      have hf := ((readIntoTyped_returns hfit).mp hr).2.fetched hx hlen
      exact ⟨elems_eq_iff.mpr hf.arrived, hf⟩
  | write offset buf =>
      exact ((write_returns hfit).mp hr).stored hx hlen
  | writeTyped T offset buf =>
      have hs := ((writeTyped_returns hfit).mp hr).2.stored hx hlen
      exact ⟨elems_eq_iff.mpr hs.arrived, hs⟩

/-! ## 7. Longer transfers are not -/

/-- A device that allocates, registers, posts and executes whatever it is given. -/
def obedient : Device where
  alloc := 0
  grants := fun _ => true
  regMr := some (0, 0, 0)
  postSend := 0
  polls := []
  lastPoll := ⟨1, ⟨0, IBV_WC_SUCCESS, 0⟩⟩
  effect := SendWr.execute

theorem obedient_executes : obedient.Executes := fun _ _ _ => rfl

theorem obedient_grants {n : Nat} (h : n ≤ isizeMax) : Obtainable obedient.grants n :=
  ⟨h, Or.inr rfl⟩

/-- A fresh connection, every local byte `x` and every remote byte `y`. -/
def hostOf (x y : UInt8) : Host := ⟨⟨fun _ => x, fun _ => y⟩, 0, []⟩

/-- A postable transfer on the obedient device completes. -/
theorem moves_obedient (op : String) (opcode : Opcode) (ptr : UInt64) (rkey : UInt32) {h : Host}
    (hh : h.nextWrId = 0) {slot : GroupConnection} {base off len : Nat}
    (hp : Postable slot base off len) :
    ∃ h', Moves slot op opcode ptr base off rkey len obedient h h' := by
  refine ⟨_, hp, 0, ⟨⟨0, 0, rfl⟩, ?_, rfl, ?_⟩, rfl⟩
  · rw [hh]
    decide
  · rw [hh]
    rfl

section Long

variable {slot : GroupConnection} {op : String} {ptr : UInt64}
variable {base off len : Nat} {rkey : UInt32} {dev : Device} {h h' : Host}

/-- The last byte of a long read does not arrive. -/
theorem Moves.last_kept (hm : Moves slot op .rdmaRead ptr base off rkey len dev h h')
    (hx : dev.Executes) (hlen : 2 ^ 32 ≤ len) :
    h'.mem.loc (ptr.toNat + (len - 1)) = h.mem.loc (ptr.toNat + (len - 1)) := by
  obtain ⟨lkey, hmem⟩ := hm.executed hx
  rw [execute_sendWr] at hmem
  rw [hmem]
  exact Mem.copy_outside (by omega)

theorem Moves.not_fetched (hm : Moves slot op .rdmaRead ptr base off rkey len dev h h')
    (hx : dev.Executes) (hlen : 2 ^ 32 ≤ len)
    (hne : h.mem.loc (ptr.toNat + (len - 1)) ≠ h.mem.rem (base + off + (len - 1))) :
    h'.mem.loc.bytes ptr.toNat len ≠ h.mem.rem.bytes (base + off) len := by
  intro hf
  have hlast := Mem.bytes_eq_iff.mp hf (len - 1) (by omega)
  rw [hm.last_kept hx hlen] at hlast
  exact hne hlast

theorem Moves.not_stored (hm : Moves slot op .rdmaWrite ptr base off rkey len dev h h')
    (hx : dev.Executes) (hlen : 2 ^ 32 ≤ len)
    (hne : h.mem.rem (base + off + (len - 1)) ≠ h.mem.loc (ptr.toNat + (len - 1))) :
    h'.mem.rem.bytes (base + off) len ≠ h.mem.loc.bytes ptr.toNat len := by
  obtain ⟨lkey, hmem⟩ := hm.executed hx
  rw [execute_sendWr] at hmem
  rw [hmem]
  exact Mem.bytes_copy_short (by omega) hne

theorem zeroed_last (h : Host) {a n : Nat} (hn : 2 ^ 32 ≤ n) :
    (h.zeroed a n).mem.loc (a + (n - 1)) = 0 := by
  show Mem.copy (fun _ => 0) 0 h.mem.loc a n (a + (n - 1)) = 0
  exact Mem.copy_inside (by omega)

/-- Memory set to zero differs from a remote memory of ones. -/
theorem zeroed_ne {a b n : Nat} (hn : 2 ^ 32 ≤ n) :
    ((hostOf 0 1).zeroed a n).mem.loc (a + (n - 1)) ≠ ((hostOf 0 1).zeroed a n).mem.rem b := by
  rw [zeroed_last _ hn]
  exact show (0 : UInt8) ≠ 1 by decide

end Long

/-- An accepted request for 2 ^ 32 bytes or more returns `Ok` without having served. -/
theorem not_serves_of_long {r : RemoteMemoryRegion} {slot : GroupConnection} {q : Request}
    (hfit : q.FitsIn r) (ha : q.Accepted r slot) (hlen : 2 ^ 32 ≤ q.byteLen) :
    ¬ q.Serves r slot := by
  intro hs
  obtain ⟨hp, ha⟩ := ha
  have hserved := hs obedient obedient_executes
  have hne : (0 : UInt8) ≠ 1 := by decide
  -- the last byte of the range is 1 at the source and 0 at the target, and stays 0
  cases q with
  | read offset size =>
      obtain ⟨h', hm⟩ := moves_obedient "read" .rdmaRead obedient.alloc r.rkey
        (show ((hostOf 0 1).zeroed obedient.alloc.toNat size.toNat).nextWrId = 0 from rfl) hp
      have hv := (hserved _ _ _ ((read_returns hfit).mpr ⟨obedient_grants ha, hm, rfl⟩)).1
      rw [elems_u8] at hv
      exact hm.not_fetched obedient_executes hlen (zeroed_ne hlen) hv
  | readInto offset size buf =>
      obtain ⟨h', hm⟩ := moves_obedient "read" .rdmaRead buf.ptr r.rkey
        (show (hostOf 0 1).nextWrId = 0 from rfl) hp
      have hf := hserved _ _ _ ((readInto_returns hfit).mpr ⟨ha, hm⟩)
      exact hm.not_fetched obedient_executes hlen hne hf.arrived
  | readTyped T offset count =>
      obtain ⟨h', hm⟩ := moves_obedient "read" .rdmaRead obedient.alloc r.rkey
        (show ((hostOf 0 1).zeroed obedient.alloc.toNat
          (count.toNat * byteSize T)).nextWrId = 0 from rfl) hp
      have hv := (hserved _ _ _ ((readTyped_returns hfit).mpr
        ⟨obedient_grants ha.1, ha.2, hm, rfl⟩)).1
      exact hm.not_fetched obedient_executes hlen (zeroed_ne hlen) (elems_eq_iff.mp hv)
  | readIntoTyped T offset buf =>
      obtain ⟨h', hm⟩ := moves_obedient "read" .rdmaRead buf.ptr r.rkey
        (show (hostOf 0 1).nextWrId = 0 from rfl) hp
      have hf := (hserved _ _ _ ((readIntoTyped_returns hfit).mpr ⟨ha, hm⟩)).2
      exact hm.not_fetched obedient_executes hlen hne hf.arrived
  | write offset buf =>
      obtain ⟨h', hm⟩ := moves_obedient "write" .rdmaWrite buf.ptr r.rkey
        (show (hostOf 1 0).nextWrId = 0 from rfl) hp
      have hf := hserved _ _ _ ((write_returns hfit).mpr hm)
      exact hm.not_stored obedient_executes hlen hne hf.arrived
  | writeTyped T offset buf =>
      obtain ⟨h', hm⟩ := moves_obedient "write" .rdmaWrite buf.ptr r.rkey
        (show (hostOf 1 0).nextWrId = 0 from rfl) hp
      have hf := (hserved _ _ _ ((writeTyped_returns hfit).mpr ⟨ha, hm⟩)).2
      exact hm.not_stored obedient_executes hlen hne hf.arrived

/-- A request no check lets through never returns `Ok`. -/
theorem accepted_of_returns {r : RemoteMemoryRegion} {slot : GroupConnection} {q : Request}
    (hfit : q.FitsIn r) {dev : Device} {h h' : Host} {v : q.Result}
    (hr : Call.Returns (q.run r slot) dev h v h') : q.Accepted r slot := by
  cases q with
  | read offset size =>
      obtain ⟨hgiven, hm, _⟩ := (read_returns hfit).mp hr
      exact ⟨hm.1, hgiven.1⟩
  | readInto offset size buf =>
      obtain ⟨hb, hm⟩ := (readInto_returns hfit).mp hr
      exact ⟨hm.1, hb⟩
  | readTyped T offset count =>
      obtain ⟨hgiven, hl, hm, _⟩ := (readTyped_returns hfit).mp hr
      exact ⟨hm.1, hgiven.1, hl⟩
  | readIntoTyped T offset buf =>
      obtain ⟨hl, hm⟩ := (readIntoTyped_returns hfit).mp hr
      exact ⟨hm.1, hl⟩
  | write offset buf =>
      have hm := (write_returns hfit).mp hr
      exact ⟨hm.1, trivial⟩
  | writeTyped T offset buf =>
      obtain ⟨hl, hm⟩ := (writeTyped_returns hfit).mp hr
      exact ⟨hm.1, hl⟩

/-- **When a request is served**: iff it is short or rejected. -/
theorem serves_iff {r : RemoteMemoryRegion} {slot : GroupConnection} {q : Request}
    (hfit : q.FitsIn r) : q.Serves r slot ↔ q.byteLen < 2 ^ 32 ∨ ¬ q.Accepted r slot := by
  constructor
  · intro hs
    by_cases hlen : q.byteLen < 2 ^ 32
    · exact Or.inl hlen
    · exact Or.inr fun ha => not_serves_of_long hfit ha (by omega) hs
  · intro hc
    rcases hc with hlen | hrej
    · exact serves_of_short hfit hlen
    · intro dev _ h v h' hr
      exact absurd (accepted_of_returns hfit hr) hrej

/-- **When a written buffer is read back**: iff the write is short or rejected. -/
theorem roundTrips_iff {r : RemoteMemoryRegion} {slot : GroupConnection} {T : Type} [RemoteSafe T]
    {offset : UInt64} {buf : Slice T} (hfit : (Request.writeTyped T offset buf).FitsIn r) :
    RoundTrips r slot T offset buf ↔
      buf.byteLen < 2 ^ 32 ∨ ¬ (Request.writeTyped T offset buf).Accepted r slot := by
  have hfit' : (Request.readTyped T offset buf.len).FitsIn r := hfit
  constructor
  · intro hrt
    by_cases hlen : buf.byteLen < 2 ^ 32
    · exact Or.inl hlen
    refine Or.inr fun ha => ?_
    obtain ⟨hp, hlaid⟩ := ha
    have hlong : 2 ^ 32 ≤ buf.len.toNat * byteSize T := Nat.le_of_not_lt hlen
    obtain ⟨h₁, hw⟩ := moves_obedient "write" .rdmaWrite buf.ptr r.rkey
      (show (hostOf 1 0).nextWrId = 0 from rfl) hp
    let h₂ : Host := { h₁ with nextWrId := 0 }
    obtain ⟨h₃, hr⟩ := moves_obedient "read" .rdmaRead obedient.alloc r.rkey
      (show (h₂.zeroed obedient.alloc.toNat (buf.len.toNat * byteSize T)).nextWrId = 0 from rfl) hp
    have hxs := hrt obedient obedient obedient_executes obedient_executes _ h₁ h₂ h₃ _
      ((writeTyped_returns hfit).mpr ⟨hlaid, hw⟩) rfl
      ((readTyped_returns hfit').mpr ⟨obedient_grants buf.bound, hlaid, hr, rfl⟩)
    -- the last byte read back is the 0 of the fresh buffer, the last byte written was 1
    have hlast := Mem.bytes_eq_iff.mp (elems_eq_iff.mp hxs) (buf.len.toNat * byteSize T - 1)
      (by omega)
    have hkept := (hr.last_kept obedient_executes hlong).trans (zeroed_last h₂ hlong)
    exact absurd (hkept.symm.trans hlast) (show (0 : UInt8) ≠ 1 by decide)
  · intro hc dev dev' hx hx' h h₁ h₂ h₃ xs hw hrem hr
    rcases hc with hlen | hrej
    · have hstored := (serves_of_short hfit hlen dev hx h () h₁ hw).1
      have hread := (serves_of_short hfit' hlen dev' hx' h₂ xs h₃ hr).1
      rw [hread, hrem]
      exact hstored
    · exact absurd (accepted_of_returns hfit hw) hrej

/-! ## 8. Results -/

/-- **Transfers of a remote region**: whatever the region, the slot and the range inside the
    region, each of the six entry points serves its caller iff fewer than 2 ^ 32 bytes are
    requested or the library's checks reject the request; and under the same condition a written
    buffer is read back. -/
theorem transfers_iff (r : RemoteMemoryRegion) (slot : GroupConnection) :
    (∀ q : Request, q.FitsIn r →
      (q.Serves r slot ↔ q.byteLen < 2 ^ 32 ∨ ¬ q.Accepted r slot)) ∧
    ∀ (T : Type) [RemoteSafe T] (offset : UInt64) (buf : Slice T),
      (Request.writeTyped T offset buf).FitsIn r →
        (RoundTrips r slot T offset buf ↔
          buf.byteLen < 2 ^ 32 ∨ ¬ (Request.writeTyped T offset buf).Accepted r slot) :=
  ⟨fun _ hfit => serves_iff hfit, fun _ _ _ _ hfit => roundTrips_iff hfit⟩

/-- A region of 8 GiB, shared as bytes. -/
def bigRegion : RemoteMemoryRegion :=
  { remoteAddr := 4096, size := 8589934592, rkey := 7, group := 0, elemSize := 1, elemAlign := 1,
    elemType := "u8" }

def openSlot : GroupConnection :=
  ⟨some { id := some 1, cq := some 1, pd := some ⟨0, 1⟩, eventChannel := some 1 }⟩

/-- A buffer of `n` bytes at address 65536. -/
def byteBuffer (n : UInt64) (h : n.toNat * byteSize UInt8 ≤ isizeMax) : Slice UInt8 := ⟨65536, n, h⟩

/-- Three bytes of the big region are transferred and read back. -/
theorem transfers_three :
    (Request.write 5 (byteBuffer 3 (by decide))).Serves bigRegion openSlot ∧
      RoundTrips bigRegion openSlot UInt8 5 (byteBuffer 3 (by decide)) :=
  ⟨((transfers_iff bigRegion openSlot).1 _ (by decide)).mpr (Or.inl (by decide)),
    ((transfers_iff bigRegion openSlot).2 UInt8 5 _ (by decide)).mpr (Or.inl (by decide))⟩

/-- **4 GiB are not**: `read_into` of exactly 2 ^ 32 bytes of the big region returns `Ok` on a
    device that executes what it reports, and the buffer does not hold the remote bytes. -/
theorem readInto_four_gib_not_served :
    (Request.readInto 0 4294967296 (byteBuffer 4294967296 (by decide))).FitsIn bigRegion ∧
      ¬ (Request.readInto 0 4294967296 (byteBuffer 4294967296 (by decide))).Serves bigRegion
        openSlot := by
  have hfit : (Request.readInto 0 4294967296 (byteBuffer 4294967296 (by decide))).FitsIn
      bigRegion := by decide
  refine ⟨hfit, not_serves_of_long hfit ⟨⟨⟨_, _, rfl, rfl⟩, by decide, by decide⟩, ?_⟩ (by decide)⟩
  exact show (4294967296 : UInt64) ≤ 4294967296 by decide

end Rdmalib
