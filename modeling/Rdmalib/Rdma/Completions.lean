/-
  File:      Rdmalib/Rdma/Completions.lean
  Subject:   Reads and writes of one connection over the whole of its life: which completion decides
             which call.

  * `polled` -- the polls that the loop of `one_sided` makes;
  * `ConnectionRun` -- any calls, one after the other, and any schedule of the device: completions
    come late, in any order or not at all, and polls fail or find nothing;
  * result: a call is decided by the completion of the work request that it posted
    (`decided_by_own_completion`).
-/
import Rdmalib.Base.Completions
import Rdmalib.Rdma.OneSided

namespace Rdmalib

open Base

/-! ## 1. One turn of the poll loop -/

/-- An "RDMA read failed" or "RDMA write failed" error. -/
def CompletionError (op : String) (e : Fault) : Prop :=
  ∃ rest : String, e = .err (.other s!"RDMA {op} failed: {rest}")

/-- **One turn**, by what the poll found. -/
inductive Turn (op : String) (wrId : Nat) (p : Poll) : Except Fault Bool → Prop where
  | failed (e : Fault) (hret : p.ret < 0) (he : check "ibv_poll_cq" (-p.ret) = .error e) :
      Turn op wrId p (.error e)
  | succeeded (hp : p.Succeeds wrId) : Turn op wrId p (.ok true)
  | reported (hret : p.ret = 1) (hid : p.wc.wrId = wrId) (hs : p.wc.status ≠ IBV_WC_SUCCESS) :
      Turn op wrId p (.error (.err (.other
        s!"RDMA {op} failed: {p.wc.status} (vendor error {p.wc.vendorErr})")))
  | skipped (hret : 0 ≤ p.ret) (hother : ¬ (p.ret = 1 ∧ p.wc.wrId = wrId)) :
      Turn op wrId p (.ok false)

theorem pollOnce_turn (op : String) (wrId : Nat) (p : Poll) :
    Turn op wrId p (pollOnce op wrId p) := by
  unfold pollOnce
  by_cases hneg : p.ret < 0
  · have hne : ¬ (-p.ret = 0) := by omega
    rw [if_pos hneg, check, if_neg hne]
    refine .failed _ hneg ?_
    rw [check, if_neg hne]
  · rw [if_neg hneg]
    by_cases hown : p.ret = 1 ∧ p.wc.wrId = wrId
    · rw [if_pos hown]
      by_cases hs : p.wc.status = IBV_WC_SUCCESS
      · rw [if_neg (not_not.mpr hs)]
        exact .succeeded ⟨hown.1, hown.2, hs⟩
      · rw [if_pos hs]
        exact .reported hown.1 hown.2 hs
    · rw [if_neg hown]
      exact .skipped (Int.not_lt.mp hneg) hown

/-- A completion of another work request is skipped. -/
theorem pollOnce_skips {op : String} {wrId : Nat} {p : Poll} (hret : p.ret = 1)
    (hid : p.wc.wrId ≠ wrId) : pollOnce op wrId p = .ok false := by
  have ht := pollOnce_turn op wrId p
  generalize pollOnce op wrId p = turn at ht
  cases ht with
  | failed _ hneg => omega
  | succeeded hs => exact absurd hs.2.1 hid
  | reported _ hid' => exact absurd hid' hid
  | skipped => rfl

/-- The first character of an error's text. -/
def Fault.initial : Fault → Option Char
  | .err io => io.text.toList.head?
  | .panic => none

/-- A failed C call has another text. -/
theorem check_not_completion {call : String} {ret : Int} {e : Fault} (he : check call ret = .error e)
    (hcall : call = "ibv_post_send" ∨ call = "ibv_poll_cq") (op : String) :
    ¬ CompletionError op e := by
  unfold check at he
  split at he
  · cases he
  · intro h
    obtain ⟨rest, rfl⟩ := h
    have htext := congrArg Fault.initial (Except.error.inj he)
    rcases hcall with rfl | rfl <;> simp [Fault.initial, IoError.other, String.toList_append, toString] at htext

/-! ## 2. The poll loop -/

/-- The polls that the loop makes, of those that it would be answered until the deadline. -/
def polled (op : String) (wrId : Nat) : List Poll → Poll → List Poll
  | [], last => [last]
  | p :: ps, last =>
      match pollOnce op wrId p with
      | .ok false => p :: polled op wrId ps last
      | _ => [p]

/-- **The loop** skips polls until one decides it, or it times out. -/
theorem pollLoop_polled (op : String) (wrId : Nat) (polls : List Poll) (last : Poll) :
    ∃ skipped p, polled op wrId polls last = skipped ++ [p] ∧
      (∀ q ∈ skipped, pollOnce op wrId q = .ok false) ∧
      pollLoop op wrId polls last =
        match pollOnce op wrId p with
        | .ok true => .ok ()
        | .ok false => .error (.err ⟨.timedOut, s!"timed out waiting for the RDMA {op} completion"⟩)
        | .error e => .error e := by
  induction polls with
  | nil =>
      refine ⟨[], last, rfl, by simp, ?_⟩
      unfold pollLoop
      rcases pollOnce op wrId last with e | _ | _ <;> rfl
  | cons q qs ih =>
      unfold polled pollLoop
      rcases hq : pollOnce op wrId q with e | _ | _
      · exact ⟨[], q, rfl, by simp, by rw [hq]; rfl⟩
      · obtain ⟨skipped, p, hp, hskip, hloop⟩ := ih
        refine ⟨q :: skipped, p, by rw [hp]; rfl, fun q' hq' => ?_, hloop⟩
        rcases List.mem_cons.mp hq' with rfl | hq'
        · exact hq
        · exact hskip q' hq'
      · exact ⟨[], q, rfl, by simp, by rw [hq]; rfl⟩

/-- **What decides the loop**: a poll of the operation's own completion. -/
theorem pollLoop_decided (op : String) (wrId : Nat) (polls : List Poll) (last : Poll) :
    (pollLoop op wrId polls last = .ok () →
      ∃ p ∈ polled op wrId polls last, p.Succeeds wrId) ∧
    (∀ e, pollLoop op wrId polls last = .error e → CompletionError op e →
      ∃ p ∈ polled op wrId polls last, p.ret = 1 ∧ p.wc.wrId = wrId ∧
        p.wc.status ≠ IBV_WC_SUCCESS) := by
  obtain ⟨skipped, p, hp, _, hloop⟩ := pollLoop_polled op wrId polls last
  have hm : p ∈ polled op wrId polls last := by rw [hp]; simp
  have ht := pollOnce_turn op wrId p
  rw [hloop]
  generalize pollOnce op wrId p = turn at ht
  cases ht with
  | failed e hret he =>
      refine ⟨nofun, fun e' he' hc => ?_⟩
      rw [← Except.error.inj he'] at hc
      exact absurd hc (check_not_completion he (Or.inr rfl) op)
  | succeeded hs => exact ⟨fun _ => ⟨p, hm, hs⟩, nofun⟩
  | reported hret hid hs => exact ⟨nofun, fun _ _ _ => ⟨p, hm, hret, hid, hs⟩⟩
  | skipped =>
      refine ⟨nofun, fun e he hc => ?_⟩
      obtain ⟨rest, rfl⟩ := hc
      cases Except.error.inj he

/-! ## 3. One call -/

/-- **How `one_sided` ends**: refused before anything is posted, or posted and polled for. -/
theorem oneSided_ends (c : Connection) (op : String) (opcode : Opcode) (mr : MemoryRegion)
    (remote : Nat) (rkey : UInt32) (len : Nat) (dev : Device) (h : Host) :
    (∃ e, (e = .panic ∨ ∃ text, e = invalid text) ∧
        (c.oneSided op opcode mr remote rkey len).outcome dev h = (.error e, h)) ∨
      ∃ h', (c.oneSided op opcode mr remote rkey len).outcome dev h =
          ((do check "ibv_post_send" dev.postSend; pollLoop op h.nextWrId dev.polls dev.lastPoll), h') ∧
        h'.posted = h.posted ++ [sendWr opcode mr.addr mr.lkey remote rkey len h] ∧
        h'.nextWrId = h.nextWrId + 1 := by
  by_cases hpast : ∃ pd, c.pd = some pd ∧ mr.pd = pd.pd ∧ len ≠ 0 ∧ len ≤ mr.size.toNat
  · obtain ⟨pd, hpd, hmr, hlen, hsize⟩ := hpast
    rcases oneSided_issued op opcode mr remote rkey dev h hpd hmr hlen hsize with ⟨_, hpanic⟩ | hissued
    · exact Or.inl ⟨.panic, Or.inl rfl, hpanic⟩
    · exact Or.inr hissued
  left
  unfold Connection.oneSided
  rw [outcome_guard]
  by_cases hlen : len = 0
  · rw [if_pos hlen]
    exact ⟨_, Or.inr ⟨_, rfl⟩, rfl⟩
  rw [if_neg hlen, outcome_guard]
  by_cases hsize : len > mr.size.toNat
  · rw [if_pos hsize]
    exact ⟨_, Or.inr ⟨_, rfl⟩, rfl⟩
  rw [if_neg hsize, outcome_bind]
  cases hpd : c.pd with
  | none =>
      unfold Connection.protectionDomain
      rw [hpd]
      exact ⟨_, Or.inl rfl, rfl⟩
  | some pd =>
      have hmr : mr.pd ≠ pd.pd := fun hmr => hpast ⟨pd, hpd, hmr, hlen, Nat.not_lt.mp hsize⟩
      rw [domain_outcome hpd]
      dsimp only
      rw [outcome_guard, if_pos hmr]
      exact ⟨_, Or.inr ⟨_, rfl⟩, rfl⟩

/-! ## 4. The calls of a connection -/

/-- A call of `Connection::read` or `Connection::write`. -/
inductive RwCall where
  | read (mr : MemoryRegion) (remoteAddr : Nat) (rkey : UInt32) (len : Nat)
  | write (mr : MemoryRegion) (remoteAddr : Nat) (rkey : UInt32) (len : Nat)

namespace RwCall

def run (c : Connection) : RwCall → Call Unit
  | .read mr remoteAddr rkey len => c.read mr remoteAddr rkey len
  | .write mr remoteAddr rkey len => c.write mr remoteAddr rkey len

/-- The name of the operation in its errors. -/
def op : RwCall → String
  | .read _ _ _ _ => "read"
  | .write _ _ _ _ => "write"

/-- The polls that the call makes, once it has posted `wr`. -/
def polls (q : RwCall) (dev : Device) : Option SendWr → List Poll
  | none => []
  | some wr => if dev.postSend = 0 then polled q.op wr.wrId dev.polls dev.lastPoll else []

end RwCall

/-- A completion carries the id of its work request. -/
def Wc.Of (wr : SendWr) (wc : Wc) : Prop := wc.wrId = wr.wrId

/-- What a poll takes from the completion queue. -/
def Poll.taken (p : Poll) : Option Wc := if p.ret = 1 then some p.wc else none

/-- The work requests of a connection and their completions. -/
abbrev Completions := Tickets SendWr Wc

/-- A call that has returned. -/
structure Returned where
  call : RwCall
  result : Except Fault Unit
  /-- The work request it posted, and its position among all of the connection. -/
  posted : Option (Nat × SendWr)
  /-- The polls it made, with the work request that each completion is of. -/
  polls : List (Option Nat × Poll)

/-- The work request that a call in state `h` has posted by `h'`. -/
def Host.newlyPosted (h h' : Host) : Option SendWr := h'.posted[h.posted.length]?

/-- `ibv_post_send`, for the device: it takes what it accepts. -/
def Completions.post (t : Completions) (dev : Device) : Option SendWr → Completions
  | none => t
  | some wr => t.hand wr (decide (dev.postSend = 0))

/-- **The life of a connection**: any calls, one after the other. During each and between them,
    the device completes work requests that it accepted, each at most once, and the polls take
    completions in any order, or nothing. -/
inductive ConnectionRun (c : Connection) : List Returned → Host → Completions → Prop where
  | new (mem : Memories) : ConnectionRun c [] ⟨mem, 0, []⟩ .empty
  | call {calls : List Returned} {h h' : Host} {t t' : Completions} {result : Except Fault Unit}
      {es : List (Option Nat × Poll)} (hrun : ConnectionRun c calls h t) (q : RwCall) (dev : Device)
      (hout : (q.run c).outcome dev h = (result, h'))
      (hserved : Tickets.Serves Wc.Of Poll.taken (Completions.post t dev (h.newlyPosted h')) es t')
      (hpolls : es.map Prod.snd = q.polls dev (h.newlyPosted h')) :
      ConnectionRun c
        (calls ++ [⟨q, result, (h.newlyPosted h').map fun wr => (h.posted.length, wr), es⟩]) h' t'

/-- The call's own work request completed, with a status that `S` says, and the call polled for
    that completion. -/
def Returned.Own (d : Returned) (t : Completions) (S : Nat → Prop) : Prop :=
  ∃ k wr p, d.posted = some (k, wr) ∧ t.handed[k]? = some wr ∧ (some k, p) ∈ d.polls ∧
    S p.wc.status ∧ ∀ wc, (k, wc) ∈ t.reported ↔ wc = p.wc

/-- **What decided a call.** -/
structure Returned.Decided (d : Returned) (t : Completions) : Prop where
  ok : d.result = .ok () → d.Own t (· = IBV_WC_SUCCESS)
  error : ∀ e, d.result = .error e → CompletionError d.call.op e → d.Own t (· ≠ IBV_WC_SUCCESS)
  stale : ∀ k wr, d.posted = some (k, wr) → ∀ j p, (some j, p) ∈ d.polls → j ≠ k →
    pollOnce d.call.op wr.wrId p = .ok false

/-- Ids count the work requests posted. -/
structure Posted (h : Host) (t : Completions) : Prop where
  handed : t.handed = h.posted
  next : h.nextWrId = h.posted.length
  ids : ∀ (i : Nat) (wr : SendWr), h.posted[i]? = some wr → wr.wrId = i
  sound : t.Sound Wc.Of

section Runs

variable {c : Connection} {calls : List Returned} {h h' : Host} {t t' : Completions} {d : Returned}

theorem Returned.Own.mono {S : Nat → Prop} (ho : d.Own t S) (hsound : t'.Sound Wc.Of)
    (hhanded : ∀ (k : Nat) (wr : SendWr), t.handed[k]? = some wr → t'.handed[k]? = some wr)
    (hkept : ∀ e ∈ t.reported, e ∈ t'.reported) : d.Own t' S := by
  obtain ⟨k, wr, p, hp, hk, hm, hs, hreported⟩ := ho
  have hin : (k, p.wc) ∈ t'.reported := hkept _ ((hreported _).mpr rfl)
  refine ⟨k, wr, p, hp, hhanded k wr hk, hm, hs, fun wc => ⟨fun hwc => ?_, fun hwc => hwc ▸ hin⟩⟩
  exact hsound.once k _ _ hwc hin

theorem Returned.Decided.mono (hd : d.Decided t) (hsound : t'.Sound Wc.Of)
    (hhanded : ∀ (k : Nat) (wr : SendWr), t.handed[k]? = some wr → t'.handed[k]? = some wr)
    (hkept : ∀ e ∈ t.reported, e ∈ t'.reported) : d.Decided t' where
  ok hok := (hd.ok hok).mono hsound hhanded hkept
  error e he hc := (hd.error e he hc).mono hsound hhanded hkept
  stale := hd.stale

theorem Posted.told (hp : Posted h t) : t.Told Wc.Of := by
  intro i j r r' wc hi hj hr hr'
  rw [hp.handed] at hi hj
  calc i = r.wrId := (hp.ids i r hi).symm
    _ = r'.wrId := by rw [← hr, ← hr']
    _ = j := hp.ids j r' hj

/-- What a call leaves of the state: it has posted nothing, or one work request with the next id. -/
theorem call_posts (q : RwCall) (dev : Device) (h : Host) :
    (∃ e, (e = .panic ∨ ∃ text, e = invalid text) ∧ (q.run c).outcome dev h = (.error e, h)) ∨
      ∃ h' wr, (q.run c).outcome dev h =
          ((do check "ibv_post_send" dev.postSend
               pollLoop q.op h.nextWrId dev.polls dev.lastPoll), h') ∧
        h'.posted = h.posted ++ [wr] ∧ wr.wrId = h.nextWrId ∧ h'.nextWrId = h.nextWrId + 1 := by
  have hone (op : String) (opcode : Opcode) (mr : MemoryRegion) (remote : Nat) (rkey : UInt32)
      (len : Nat) := oneSided_ends c op opcode mr remote rkey len dev h
  cases q with
  | read mr remote rkey len =>
      refine (hone "read" .rdmaRead mr remote rkey len).imp id fun hends => ?_
      obtain ⟨h', hout, hposted, hnext⟩ := hends
      exact ⟨h', _, hout, hposted, rfl, hnext⟩
  | write mr remote rkey len =>
      refine (hone "write" .rdmaWrite mr remote rkey len).imp id fun hends => ?_
      obtain ⟨h', hout, hposted, hnext⟩ := hends
      exact ⟨h', _, hout, hposted, rfl, hnext⟩

theorem newlyPosted_self (h : Host) : h.newlyPosted h = none := by
  simp [Host.newlyPosted]

theorem newlyPosted_append {wr : SendWr} (hp : h'.posted = h.posted ++ [wr]) :
    h.newlyPosted h' = some wr := by
  simp [Host.newlyPosted, hp]

theorem Posted.append {wr : SendWr} (hp : Posted h t) (hposted : h'.posted = h.posted ++ [wr])
    (hid : wr.wrId = h.nextWrId) (hnext : h'.nextWrId = h.nextWrId + 1)
    (hhanded : t'.handed = t.handed ++ [wr]) (hsound : t'.Sound Wc.Of) : Posted h' t' where
  handed := by rw [hhanded, hp.handed, hposted]
  next := by rw [hnext, hposted, hp.next, List.length_append, List.length_singleton]
  ids i wr' hi := by
    rw [hposted, List.getElem?_append] at hi
    split at hi
    · exact hp.ids i wr' hi
    · rw [List.getElem?_singleton] at hi
      split at hi
      · have hnew := Option.some.inj hi
        have hnext' := hp.next
        rw [← hnew]
        omega
      · cases hi
  sound := hsound

/-- **One call**: it is decided by its own completion. -/
theorem call_decided (hp : Posted h t) {q : RwCall} {dev : Device} {result : Except Fault Unit}
    {es : List (Option Nat × Poll)} (hout : (q.run c).outcome dev h = (result, h'))
    (hserved : Tickets.Serves Wc.Of Poll.taken (Completions.post t dev (h.newlyPosted h')) es t')
    (hpolls : es.map Prod.snd = q.polls dev (h.newlyPosted h')) :
    Posted h' t' ∧ (∀ (k : Nat) (wr : SendWr), t.handed[k]? = some wr → t'.handed[k]? = some wr) ∧
      (∀ e ∈ t.reported, e ∈ t'.reported) ∧
      Returned.Decided
        ⟨q, result, (h.newlyPosted h').map fun wr => (h.posted.length, wr), es⟩ t' := by
  rcases call_posts (c := c) q dev h with ⟨e, he, hcall⟩ | ⟨h₁, wr, hcall, hposted, hid, hnext⟩
  · -- refused: nothing is posted and nothing polled
    cases hout.symm.trans hcall
    rw [newlyPosted_self] at hserved hpolls ⊢
    obtain ⟨hsound, hhanded, hkept, _⟩ := hserved.keeps hp.sound
    refine ⟨⟨hhanded.trans hp.handed, hp.next, hp.ids, hsound⟩, fun k wr hk => by rwa [hhanded],
      hkept, nofun, fun e' he' hc => ?_, nofun⟩
    cases Except.error.inj he'
    obtain ⟨rest, hrest⟩ := hc
    rcases he with rfl | ⟨text, rfl⟩ <;> cases hrest
  · cases hout.symm.trans hcall
    rw [newlyPosted_append hposted] at hserved hpolls ⊢
    obtain ⟨hsound, hhanded, hkept, htaken⟩ := hserved.keeps (hp.sound.hand wr _)
    have hp' : Posted h' t' := hp.append hposted hid hnext hhanded hsound
    have hk : t'.handed[h.posted.length]? = some wr := by
      rw [hp'.handed, hposted, List.getElem?_append_right (Nat.le_refl _), Nat.sub_self]
      rfl
    -- a poll with the id of the call's work request has taken that one's completion
    have hown (p : Poll) (hm : p ∈ es.map Prod.snd) (hret : p.ret = 1) (hwc : p.wc.wrId = wr.wrId)
        (res : Except Fault Unit) (S : Nat → Prop) (hs : S p.wc.status) :
        Returned.Own ⟨q, res, some (h.posted.length, wr), es⟩ t' S := by
      have htook : p.taken = some p.wc := if_pos hret
      obtain ⟨⟨source, _⟩, hsource, rfl⟩ := List.mem_map.mp hm
      cases source with
      | none => cases htook.symm.trans (hserved.nothing_of_none hsource)
      | some k =>
      obtain ⟨wc, hwc', hreported⟩ := htaken k _ hsource
      cases Option.some.inj (htook.symm.trans hwc')
      cases hsound.whose hp'.told hreported hk hwc
      exact ⟨_, wr, _, rfl, hk, hsource, hs, fun wc => ⟨fun h₂ => hsound.once _ _ _ h₂ hreported,
        fun h₂ => h₂ ▸ hreported⟩⟩
    refine ⟨hp', fun k wr' hk' => ?_, hkept, ?_⟩
    · rw [hhanded]
      exact (List.getElem?_append_left (List.getElem?_eq_some_iff.mp hk').1).trans hk'
    by_cases hsend : dev.postSend = 0
    · have hmade : es.map Prod.snd = polled q.op wr.wrId dev.polls dev.lastPoll :=
        hpolls.trans (if_pos hsend)
      have hloop := pollLoop_decided q.op wr.wrId dev.polls dev.lastPoll
      rw [check, if_pos hsend, ← hid]
      rw [← hmade] at hloop
      refine ⟨fun hok => ?_, fun e he hc => ?_, fun k wr' hpair j p hm hj => ?_⟩
      · obtain ⟨p, hm, hs⟩ := hloop.1 hok
        exact hown p hm hs.1 hs.2.1 _ _ hs.2.2
      · obtain ⟨p, hm, hret, hwc, hs⟩ := hloop.2 e he hc
        exact hown p hm hret hwc _ _ hs
      · cases Option.some.inj hpair
        obtain ⟨wc, hwc, hreported⟩ := htaken j p hm
        by_cases hret : p.ret = 1
        · cases Option.some.inj ((if_pos hret).symm.trans hwc)
          exact pollOnce_skips hret fun hid' => hj (hsound.whose hp'.told hreported hk hid')
        · cases (if_neg hret).symm.trans hwc
    · have hnone : es = [] := List.map_eq_nil_iff.mp (hpolls.trans (if_neg hsend))
      rw [check, if_neg hsend]
      refine ⟨nofun, fun e he hc => ?_, fun k wr' _ j p hm => by rw [hnone] at hm; cases hm⟩
      have hfailed : check "ibv_post_send" dev.postSend = .error e := by
        rw [check, if_neg hsend]
        exact he
      exact absurd hc (check_not_completion hfailed (Or.inl rfl) q.op)

theorem ConnectionRun.decided (hrun : ConnectionRun c calls h t) :
    Posted h t ∧ ∀ d ∈ calls, d.Decided t := by
  induction hrun with
  | new mem => exact ⟨⟨rfl, rfl, by simp, Tickets.sound_empty⟩, by simp⟩
  | call _ q dev hout hserved hpolls ih =>
      obtain ⟨hp, hhanded, hkept, hnew⟩ := call_decided ih.1 hout hserved hpolls
      refine ⟨hp, fun d hd => ?_⟩
      rcases List.mem_append.mp hd with hd | hd
      · exact (ih.2 d hd).mono hp.sound hhanded hkept
      · rw [List.mem_singleton.mp hd]
        exact hnew

/-- **Completions decide their own calls**: over the whole life of a connection, a call that
    returned `Ok` has polled the successful completion of the work request it posted itself, one
    that returned the completion error has polled its own with another status, and the completions
    of other work requests that it polled were skipped. -/
theorem decided_by_own_completion (hrun : ConnectionRun c calls h t) (hd : d ∈ calls) :
    d.Decided t :=
  hrun.decided.2 d hd

end Runs

/-- A read that finds no completion in time. -/
def idleDevice : Device where
  alloc := 0
  grants := fun _ => true
  regMr := none
  postSend := 0
  polls := [⟨0, ⟨0, 0, 0⟩⟩]
  lastPoll := ⟨0, ⟨0, 0, 0⟩⟩
  effect := fun _ m => m

/-- The next read: it is given the failure of the first one, then its own success. -/
def lateDevice : Device :=
  { idleDevice with
    polls := [⟨1, ⟨0, 12, 0⟩⟩]
    lastPoll := ⟨1, ⟨1, IBV_WC_SUCCESS, 0⟩⟩ }

def eightBytes : RwCall := .read ⟨1, 7, 4096, 8, 11, 12⟩ 8192 5 8

def eightBytesWr (wrId : Nat) : SendWr := ⟨wrId, .rdmaRead, 4096, 8, 11, 8192, 5⟩

def timedOutRead : Returned where
  call := eightBytes
  result := .error (.err ⟨.timedOut, "timed out waiting for the RDMA read completion"⟩)
  posted := some (0, eightBytesWr 0)
  polls := [(none, ⟨0, ⟨0, 0, 0⟩⟩), (none, ⟨0, ⟨0, 0, 0⟩⟩)]

def laterRead : Returned where
  call := eightBytes
  result := .ok ()
  posted := some (1, eightBytesWr 1)
  polls := [(some 0, ⟨1, ⟨0, 12, 0⟩⟩), (some 1, ⟨1, ⟨1, IBV_WC_SUCCESS, 0⟩⟩)]

/-- The completions of the two reads: the first one's arrives during the second. -/
def lateCompletions : Completions where
  handed := [eightBytesWr 0, eightBytesWr 1]
  inFlight := []
  queue := []
  reported := [(0, ⟨0, 12, 0⟩), (1, ⟨1, IBV_WC_SUCCESS, 0⟩)]

/-- A connection on which both reads pass their checks. -/
def eightBytesConnection : Connection := ⟨some 1, some 2, some ⟨3, 7⟩, some 4⟩

theorem late_served : Tickets.Serves Wc.Of Poll.taken
    ⟨[eightBytesWr 0, eightBytesWr 1], [1, 0], [], []⟩ laterRead.polls lateCompletions := by
  refine .report (k := 0) (c := ⟨0, 12, 0⟩) (by decide) rfl rfl ?_
  refine .take (k := 0) (List.nil_append _).symm rfl ?_
  refine .report (k := 1) (c := ⟨1, IBV_WC_SUCCESS, 0⟩) (by decide) rfl rfl ?_
  refine .take (k := 1) (List.nil_append _).symm rfl ?_
  exact .done _

theorem late_run (mem : Memories) :
    ConnectionRun eightBytesConnection [timedOutRead, laterRead]
      ⟨mem, 2, [eightBytesWr 0, eightBytesWr 1]⟩ lateCompletions := by
  have hread₀ : (eightBytes.run eightBytesConnection).outcome idleDevice ⟨mem, 0, []⟩ =
      (timedOutRead.result, ⟨mem, 1, [eightBytesWr 0]⟩) := rfl
  have hread₁ : (eightBytes.run eightBytesConnection).outcome lateDevice
      ⟨mem, 1, [eightBytesWr 0]⟩ =
      (laterRead.result, ⟨mem, 2, [eightBytesWr 0, eightBytesWr 1]⟩) := rfl
  have first : ConnectionRun eightBytesConnection [timedOutRead] ⟨mem, 1, [eightBytesWr 0]⟩
      ⟨[eightBytesWr 0], [0], [], []⟩ :=
    .call (.new mem) eightBytes idleDevice hread₀ (.nothing rfl (.nothing rfl (.done _))) rfl
  exact .call first eightBytes lateDevice hread₁ late_served rfl

/-- The second read is decided by its own completion, although it was given another one first. -/
theorem late_decided : laterRead.Decided lateCompletions :=
  decided_by_own_completion (late_run ⟨fun _ => 0, fun _ => 0⟩) (by simp)

end Rdmalib
