/-
  File:      Rdmalib/Rdma/OneSided.lean
  Subject:   One-sided reads and writes: `ProtectionDomain::register_addr` and
             `Connection::one_sided` of `src/rdma/verbs.rs`.

  The device is the environment of a call: `Device` holds what each libibverbs call answers
  during it (the registration, `ibv_post_send`, every `ibv_poll_cq` until the deadline) and what
  the two memories are when it returns. The memories, the work request counter and the work
  requests handed to the device are the state of the call (`Host`).
-/
import Rdmalib.Io
import Rdmalib.Base.Memory

namespace Rdmalib

open Base

/-! ## 1. Handles -/

/-- `rdma::ProtectionDomain`: the device it belongs to and its raw handle. -/
structure ProtectionDomain where
  context : Nat
  pd : Nat
  deriving DecidableEq, Repr

/-- `rdma::MemoryRegion`: a registration. -/
structure MemoryRegion where
  mr : Nat
  pd : Nat
  addr : UInt64
  size : UInt64
  lkey : UInt32
  rkey : UInt32
  deriving DecidableEq, Repr

/-- `rdma::Connection`; a null pointer is `none`. -/
structure Connection where
  id : Option Nat
  cq : Option Nat
  pd : Option ProtectionDomain
  eventChannel : Option Nat
  deriving DecidableEq, Repr

/-! ## 2. The device during one call -/

inductive Opcode where
  | rdmaWrite
  | rdmaRead
  deriving DecidableEq, Repr

/-- `IbvSendWr` with its one scatter/gather entry: `addr`, `length` and `lkey` are the entry's. -/
structure SendWr where
  wrId : Nat
  opcode : Opcode
  addr : Nat
  length : UInt32
  lkey : UInt32
  remoteAddr : Nat
  rkey : UInt32
  deriving DecidableEq, Repr

/-- `IbvWc`, the fields `one_sided` reads. -/
structure Wc where
  wrId : Nat
  status : Nat
  vendorErr : UInt32
  deriving DecidableEq, Repr

def IBV_WC_SUCCESS : Nat := 0

/-- One `ibv_poll_cq`: its return value and the completion it wrote. -/
structure Poll where
  ret : Int
  wc : Wc
  deriving DecidableEq, Repr

/-- The memory of this machine and of the remote one. -/
structure Memories where
  loc : Mem
  rem : Mem

/-- What a work request does when the device executes it: it copies exactly `length` bytes. -/
def SendWr.execute (wr : SendWr) (m : Memories) : Memories :=
  match wr.opcode with
  | .rdmaRead => { m with loc := Mem.copy m.rem wr.remoteAddr m.loc wr.addr wr.length.toNat }
  | .rdmaWrite => { m with rem := Mem.copy m.loc wr.addr m.rem wr.remoteAddr wr.length.toNat }

/-- What the device and the allocator answer during one call. -/
structure Device where
  /-- Where the allocator places a fresh buffer. -/
  alloc : UInt64
  /-- The buffer sizes, in bytes, that the allocator grants. -/
  grants : Nat → Bool
  /-- `ibv_reg_mr`: handle, local and remote key; `none` is the null pointer. -/
  regMr : Option (Nat × UInt32 × UInt32)
  postSend : Int
  /-- The polls before the deadline, and the first one after which it has passed. -/
  polls : List Poll
  lastPoll : Poll
  /-- The memories when the call returns, for a work request that was posted. -/
  effect : SendWr → Memories → Memories

/-- A poll that reports the success of work request `wrId`. -/
def Poll.Succeeds (p : Poll) (wrId : Nat) : Prop :=
  p.ret = 1 ∧ p.wc.wrId = wrId ∧ p.wc.status = IBV_WC_SUCCESS

/-- **The device's promise**: it reports success of a work request only if it has executed it,
    and nothing else has touched the two memories. -/
def Device.Executes (dev : Device) : Prop :=
  ∀ wr m, (∃ p ∈ dev.polls ++ [dev.lastPoll], p.Succeeds wr.wrId) → dev.effect wr m = wr.execute m

/-- The state of a call: the memories, the connection's next work request id, and the work
    requests handed to `ibv_post_send`. -/
structure Host where
  mem : Memories
  nextWrId : Nat
  posted : List SendWr

abbrev Call := ReaderT Device (ExceptT Fault (StateM Host))

/-! ## 3. `Connection::one_sided` -/

def invalid (text : String) : Fault := .err ⟨.invalidInput, text⟩

/-- Turn a non-zero C return value into an `io::Error`; its number stands for the OS error's text. -/
def check (call : String) (ret : Int) : Except Fault Unit :=
  if ret = 0 then .ok () else .error (.err (.other s!"{call} failed: os error {ret}"))

/-- `ProtectionDomain::register_addr`; `ibvRegMr` is the call of `ibv_reg_mr` for the range. -/
def ProtectionDomain.registerAddr {m : Type → Type} [Monad m] [MonadExceptOf Fault m]
    (ibvRegMr : m (Option (Nat × UInt32 × UInt32))) (pd : ProtectionDomain) (addr size : UInt64) :
    m MemoryRegion := do
  if size = 0 then
    throw (invalid "cannot register an empty region")
  match ← ibvRegMr with
  | none => throw (.err (.other "ibv_reg_mr failed"))
  | some (mr, lkey, rkey) => return { mr, pd := pd.pd, addr, size, lkey, rkey }

/-- `Connection::protection_domain`. -/
def Connection.protectionDomain (c : Connection) : Call ProtectionDomain :=
  match c.pd with
  | some pd => return pd
  | none => throw .panic

def Connection.registerAddr (c : Connection) (addr size : UInt64) : Call MemoryRegion := do
  (← c.protectionDomain).registerAddr (do return (← read).regMr) addr size

/-- One turn of the poll loop: `true` when the operation has completed. -/
def pollOnce (op : String) (wrId : Nat) (p : Poll) : Except Fault Bool := do
  if p.ret < 0 then
    check "ibv_poll_cq" (-p.ret)
  if p.ret = 1 ∧ p.wc.wrId = wrId then
    if p.wc.status ≠ IBV_WC_SUCCESS then
      throw (.err (.other
        s!"RDMA {op} failed: {p.wc.status} (vendor error {p.wc.vendorErr})"))
    return true
  return false

/-- The poll loop: until the operation's completion, an error, or the deadline. -/
def pollLoop (op : String) (wrId : Nat) : List Poll → Poll → Except Fault Unit
  | [], last => do
    if ← pollOnce op wrId last then
      return ()
    throw (.err ⟨.timedOut, s!"timed out waiting for the RDMA {op} completion"⟩)
  | p :: ps, last => do
    if ← pollOnce op wrId p then
      return ()
    pollLoop op wrId ps last

/-- Post one one-sided RDMA operation and wait for its completion. The length becomes the `u32`
    of the scatter/gather entry by a truncating cast. -/
def Connection.oneSided (c : Connection) (op : String) (opcode : Opcode) (mr : MemoryRegion)
    (remoteAddr : Nat) (rkey : UInt32) (len : Nat) : Call Unit := do
  if len = 0 then
    throw (invalid s!"cannot {op} zero bytes")
  if len > mr.size.toNat then
    throw (invalid s!"{op} of {len} bytes exceeds the registered region of {mr.size} bytes")
  let pd ← c.protectionDomain
  if mr.pd ≠ pd.pd then
    throw (invalid "the memory region is registered in another protection domain")
  let wrId := (← get).nextWrId
  let next ← usizeAdd wrId 1
  let wr : SendWr :=
    { wrId, opcode, addr := mr.addr.toNat, length := UInt32.ofNat len, lkey := mr.lkey,
      remoteAddr, rkey }
  modify fun h => { h with nextWrId := next, posted := h.posted ++ [wr] }
  let dev ← read
  check "ibv_post_send" dev.postSend
  modify fun h => { h with mem := dev.effect wr h.mem }
  pollLoop op wrId dev.polls dev.lastPoll

/-- `Connection::read`. -/
def Connection.read (c : Connection) (mr : MemoryRegion) (remoteAddr : Nat) (rkey : UInt32)
    (len : Nat) : Call Unit :=
  c.oneSided "read" .rdmaRead mr remoteAddr rkey len

/-- `Connection::write`. -/
def Connection.write (c : Connection) (mr : MemoryRegion) (remoteAddr : Nat) (rkey : UInt32)
    (len : Nat) : Call Unit :=
  c.oneSided "write" .rdmaWrite mr remoteAddr rkey len

/-- The work request `one_sided` posts in state `h`. -/
def sendWr (opcode : Opcode) (ptr : UInt64) (lkey : UInt32) (remote : Nat) (rkey : UInt32)
    (len : Nat) (h : Host) : SendWr :=
  { wrId := h.nextWrId, opcode, addr := ptr.toNat, length := UInt32.ofNat len, lkey,
    remoteAddr := remote, rkey }

/-! ## 4. How a call ends -/

/-- The result of a call and the state after it. -/
def Call.outcome {α : Type} (x : Call α) (dev : Device) (h : Host) : Except Fault α × Host :=
  (x.run dev).run.run h

section Outcome

variable {α β : Type} {dev : Device} {h : Host}

@[simp] theorem outcome_pure (a : α) : (pure a : Call α).outcome dev h = (.ok a, h) := rfl

@[simp] theorem outcome_throw (e : Fault) : (throw e : Call α).outcome dev h = (.error e, h) := rfl

@[simp] theorem outcome_lift (e : Except Fault α) : (liftM e : Call α).outcome dev h = (e, h) := rfl

@[simp] theorem outcome_read : (read : Call Device).outcome dev h = (.ok dev, h) := rfl

@[simp] theorem outcome_get : (get : Call Host).outcome dev h = (.ok h, h) := rfl

@[simp] theorem outcome_modify (f : Host → Host) :
    (modify f : Call PUnit).outcome dev h = (.ok ⟨⟩, f h) := rfl

theorem outcome_bind (x : Call α) (f : α → Call β) :
    (x >>= f).outcome dev h =
      match x.outcome dev h with
      | (.ok a, h₁) => (f a).outcome dev h₁
      | (.error e, h₁) => (.error e, h₁) := by
  unfold Call.outcome
  rw [ReaderT.run_bind, ExceptT.run_bind, StateT.run_bind]
  rcases (x.run dev).run.run h with ⟨a | a, h₁⟩ <;> rfl

/-- An early return with an error. -/
theorem outcome_guard {c : Prop} [Decidable c] {e : Fault} {f : α → Call β} {y : Call β} :
    (if c then (throw e >>= f) else y : Call β).outcome dev h =
      if c then (.error e, h) else y.outcome dev h := by
  by_cases hc : c
  · rw [if_pos hc, if_pos hc]
    rfl
  · rw [if_neg hc, if_neg hc]

/-- A step that fails or has a value, first. -/
theorem outcome_lift_bind (e : Except Fault α) (f : α → Call β) :
    (liftM e >>= f : Call β).outcome dev h =
      match e with
      | .ok a => (f a).outcome dev h
      | .error e => (.error e, h) := by
  rw [outcome_bind, outcome_lift]
  cases e <;> rfl

theorem domain_outcome {c : Connection} {pd : ProtectionDomain} (hpd : c.pd = some pd) :
    c.protectionDomain.outcome dev h = (.ok pd, h) := by
  unfold Connection.protectionDomain
  rw [hpd]
  rfl

/-- **An operation past its checks** is posted and polled for, unless the ids are used up. -/
theorem oneSided_issued {c : Connection} {pd : ProtectionDomain} (op : String) (opcode : Opcode)
    (mr : MemoryRegion) (remote : Nat) {len : Nat} (rkey : UInt32) (dev : Device) (h : Host)
    (hpd : c.pd = some pd) (hmr : mr.pd = pd.pd) (hlen : len ≠ 0) (hsize : len ≤ mr.size.toNat) :
    (wordSize ≤ h.nextWrId + 1 ∧
        (c.oneSided op opcode mr remote rkey len).outcome dev h = (.error .panic, h)) ∨
      ∃ h', (c.oneSided op opcode mr remote rkey len).outcome dev h =
          ((do check "ibv_post_send" dev.postSend; pollLoop op h.nextWrId dev.polls dev.lastPoll), h') ∧
        h'.posted = h.posted ++ [sendWr opcode mr.addr mr.lkey remote rkey len h] ∧
        h'.nextWrId = h.nextWrId + 1 := by
  unfold Connection.oneSided
  rw [outcome_guard, if_neg hlen, outcome_guard, if_neg (Nat.not_lt.mpr hsize), outcome_bind,
    domain_outcome hpd]
  dsimp only
  rw [outcome_guard, if_neg (not_not.mpr hmr), outcome_bind, outcome_get]
  dsimp only
  rw [outcome_lift_bind]
  unfold usizeAdd
  by_cases hn : h.nextWrId + 1 < wordSize
  · rw [if_pos hn]
    dsimp only
    rw [outcome_bind, outcome_modify]
    dsimp only
    rw [outcome_bind, outcome_read]
    dsimp only
    rw [outcome_lift_bind]
    cases hp : check "ibv_post_send" dev.postSend with
    | error e => exact Or.inr ⟨_, rfl, rfl, rfl⟩
    | ok v =>
        dsimp only
        rw [outcome_bind, outcome_modify]
        dsimp only
        rw [outcome_lift]
        exact Or.inr ⟨_, rfl, rfl, rfl⟩
  · rw [if_neg hn]
    exact Or.inl ⟨Nat.le_of_not_lt hn, rfl⟩

end Outcome

end Rdmalib
