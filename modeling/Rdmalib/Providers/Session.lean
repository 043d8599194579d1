/-
  File:      Rdmalib/Providers/Session.lean
  Subject:   How long the session of `SessionThread::wait_for_updates` serves a reader that keeps
             its channel open and sends nothing but updates, now and then.

  The thread's stream is one with the read timeout of `Channel::new`: `read_frame` on it is the
  generic one, on bytes that arrive at given times.

  * `Converses` -- how the world answers the thread: no shutdown, no failed send, and what arrives
    in time is received;
  * `turn_ends` -- the ways a turn of the loop ends;
  * `turn_timed`, `sessionRun_served` -- a turn, and a run, serve the reader iff every update of it
    is there within the timeout of the `receive` that waits for it (`session_serves_iff`).
-/
import Rdmalib.Base.Arrivals
import Rdmalib.Meta.RoundTrip
import Rdmalib.Providers.Service

namespace Rdmalib

open Base

/-! ## 1. The stream -/

/-- `IO_TIMEOUT`, in nanoseconds. -/
def IO_TIMEOUT : Nat := 10 * 10 ^ 9

/-- `TcpStream` as `Channel::new` leaves it, on an open connection. -/
abbrev TcpStream := Arrivals UInt8

/-- `read_exact`: each read waits as long as the timeout that was armed. -/
instance : Read TcpStream where
  readExact n s :=
    match s.fill IO_TIMEOUT n with
    | (some bytes, s) => (.ok bytes, s)
    | (none, s) => (.error ⟨.wouldBlock, "Resource temporarily unavailable (os error 11)"⟩, s)

/-- Updates of the reader, each sent at once. -/
def updates (times : List Nat) : List (Nat × UInt8) :=
  times.flatMap fun time => Arrivals.together time Message.update.encode

section Stream

variable {s : TcpStream} {time : Nat} {times : List Nat}

theorem updates_cons :
    updates (time :: times) = Arrivals.together time Message.update.encode ++ updates times := rfl

theorem update_encode : Message.update.encode = [1, 0, 0, 0, 4] := by decide +kernel

/-- `read_exact` of a buffer that arrives in time, and of one that does not. -/
theorem readExact_filled {n : Nat} {bytes : List UInt8} {s' : TcpStream}
    (h : s.fill IO_TIMEOUT n = (some bytes, s')) :
    readExact (σ := TcpStream) n s = (.ok bytes, s') := by
  simp only [readExact, Read.readExact, h]

theorem readExact_late {n : Nat} {s' : TcpStream} (h : s.fill IO_TIMEOUT n = (none, s')) :
    ∃ e, readExact (σ := TcpStream) n s = (.error (.err e), s') := by
  simp only [readExact, Read.readExact, h]
  exact ⟨_, rfl⟩

/-- An update that is there in time is received. -/
theorem readFrame_update (hdue : s.due = updates (time :: times))
    (htime : time < s.now + IO_TIMEOUT) :
    readFrame (σ := TcpStream) s = (.ok .update, ⟨max s.now time, updates times⟩) := by
  have hheader : s.fill IO_TIMEOUT 5 = (some [1, 0, 0, 0, 4], ⟨max s.now time, updates times⟩) := by
    rw [← update_encode]
    exact Arrivals.fill_together (by rw [update_encode]; exact List.cons_ne_nil _ _) hdue htime
  have hlen : (UInt32.ofNat (leValue ([1, 0, 0, 0, 4].take 4))).toNat = 1 := by decide +kernel
  unfold readFrame
  rw [stream_bind, readExact_filled hheader]
  simp only [hlen]
  rfl

/-- A read that times out ends `receive`. -/
theorem readFrame_late (h : ¬ s.Soon IO_TIMEOUT) :
    ∃ e, readFrame (σ := TcpStream) s =
      (.error (.err e), { s with now := s.now + IO_TIMEOUT }) := by
  obtain ⟨e, he⟩ := readExact_late (Arrivals.fill_late (show 0 < 5 by decide) h)
  unfold readFrame
  rw [stream_bind, he]
  exact ⟨e, rfl⟩

end Stream

/-! ## 2. Runs of the session thread -/

/-- Time passes. -/
def Elapses (s s' : TcpStream) : Prop := s'.due = s.due ∧ s.now ≤ s'.now

/-- **How the world answers** a session whose reader stays and whose provider serves on: `receive`
    is `read_frame` on the stream; everything else takes some time. -/
def Converses (s : TcpStream) : (o : Op) → o.Ans → TcpStream → Prop
  | .loadShutdown, down, s' => down = false ∧ Elapses s s'
  | .send _ _, answer, s' => answer.1 = .ok () ∧ Elapses s s'
  | .receive _, answer, s' => readFrame (σ := TcpStream) s = (answer.1.mapError .err, s')
  | _, _, s' => Elapses s s'

/-- An operation with its answer, and the stream when it starts. -/
abbrev TimedOp := TcpStream × (o : Op) × o.Ans

/-- What the thread performed, without the times. -/
def untimed (steps : List TimedOp) : Trace Op Op.Ans := steps.map fun step => ⟨step.2.1, step.2.2⟩

/-- The steps are answered so, from the stream `s` on. -/
def Conversed : TcpStream → List TimedOp → TcpStream → Prop
  | s, [], s' => s' = s
  | s, step :: steps, s' =>
      step.1 = s ∧ ∃ s₁, Converses s step.2.1 step.2.2 s₁ ∧ Conversed s₁ steps s'

/-- **The loop of `wait_for_updates`**, as far as it got: its turns, the stream, and how the thread
    goes on. -/
inductive SessionRun (c : Chan) (g : UInt32) (s : TcpStream) :
    List (List TimedOp) → TcpStream → Option Loop → Prop
  | start : SessionRun c g s [] s (some (.session c g))
  | turn {turns : List (List TimedOp)} {s₁ s₂ : TcpStream} {steps : List TimedOp} {result : Option Loop}
      (hbefore : SessionRun c g s turns s₁ (some (.session c g)))
      (hruns : (SessionThread.waitForUpdates c g).Runs (untimed steps) result)
      (hanswered : Conversed s₁ steps s₂) : SessionRun c g s (turns ++ [steps]) s₂ result

/-- What is said on the channel, what the catalog was, and what `tuple_of` answered. -/
inductive Talk where
  | heard (r : Except IoError Message)
  | listed (catalog : List (UInt32 × RegionInfo))
  | looked (id group : UInt32) (result : Except Fault (Option Tuple))
  | told (m : Message) (r : Except IoError Unit)

/-- What an operation says, hears or lists, and the answers of `tuple_of`. -/
def Op.talk : (o : Op) → o.Ans → List Talk
  | .receive _, answer => [.heard answer.1]
  | .catalogSnapshot, catalog => [.listed catalog]
  | .note (.tupleOf id group result), _ => [.looked id group result]
  | .send _ m, answer => [.told m answer.1]
  | _, _ => []

/-- What is said, heard, listed and looked up in a turn. -/
def talk (steps : List TimedOp) : List Talk := steps.flatMap fun step => step.2.1.talk step.2.2

/-- `tuple_of` is called once for each region of the listing, for the group. -/
def lookups (g : UInt32) (catalog : List (UInt32 × RegionInfo))
    (found : List (Except Fault (Option Tuple))) : List Talk :=
  (catalog.zip found).map fun e => .looked e.1.1 g e.2

/-- Both replies to an update: the catalog that was listed, and the tuples that `tuple_of` answered
    with. -/
def answers (g : UInt32) (catalog : List (UInt32 × RegionInfo))
    (found : List (Except Fault (Option Tuple))) : List Talk :=
  [.told (.metadata (catalog.map fun e => e.2.desc e.1)) (.ok ()),
    .told (.tuples g (tuplesOf catalog found)) (.ok ())]

/-- **A turn that serves the reader**: it lists the catalog after the update came, looks up every
    region of it in the group, and sends the catalog and then what it found. -/
def TurnServes (g : UInt32) (steps : List TimedOp) : Prop :=
  ∃ catalog found, found.length = catalog.length ∧
    talk steps = .heard (.ok .update) :: .listed catalog ::
      (lookups g catalog found ++ answers g catalog found)

/-- The next update is there before a `receive` of these gives up. -/
def PromptTurn (steps : List TimedOp) : Prop :=
  ∀ step ∈ steps, ∀ c, step.2.1 = .receive c → step.1.Soon IO_TIMEOUT

/-! ## 3. A turn -/

section Turn

variable {c : Chan} {g : UInt32} {l : List Talk}

/-- What is said, heard and listed, as it goes on. -/
def conversing : Protocol Op Op.Ans (List Talk) where
  may _ _ := True
  next l o a := l ++ o.talk a

theorem conversing_after (l : List Talk) (steps : List TimedOp) :
    conversing.after l (untimed steps) = l ++ talk steps := by
  induction steps generalizing l with
  | nil => exact (List.append_nil l).symm
  | cons step steps ih =>
      show conversing.after (l ++ step.2.1.talk step.2.2) (untimed steps) = _
      rw [ih, List.append_assoc]
      rfl

/-- Code that does not talk. -/
theorem silent_follows {α : Type} {x : Code α} (h : Only Op.InTuple x) :
    Follows conversing l x fun l' _ => l' = l := by
  refine h.follows (I := fun l' => l' = l) (fun l' o ho hl => ⟨trivial, fun a => ?_⟩) rfl
  have hsilent : o.talk a = [] := by
    cases o with
    | receive | catalogSnapshot | send | note => exact ho.elim
    | _ => rfl
  show l' ++ o.talk a = l
  rw [hsilent, List.append_nil, hl]

/-- `tuple_of` is heard of by its answer. -/
theorem tupleOf_talk (id : UInt32) :
    Follows conversing l (Shared.tupleOf id g) fun l' r => l' = l ++ [.looked id g r] := by
  unfold Shared.tupleOf
  rw [follows_bind]
  refine (silent_follows (tupleOfBody_only id g)).mono fun l₁ r hl₁ => ?_
  subst hl₁
  exact ⟨trivial, fun _ => rfl⟩

theorem describe_talk (catalog : List (UInt32 × RegionInfo)) :
    Follows conversing l (Shared.describe g catalog) fun l' r => ∃ found,
      found.length = catalog.length ∧ l' = l ++ lookups g catalog found ∧
        r = (catalog.map fun e => e.2.desc e.1, tuplesOf catalog found) := by
  induction catalog generalizing l with
  | nil => exact ⟨[], rfl, (List.append_nil l).symm, rfl⟩
  | cons e rest ih =>
      obtain ⟨id, info⟩ := e
      unfold Shared.describe
      rw [follows_bind]
      refine (tupleOf_talk id).mono fun l₁ answer hl₁ => ?_
      subst hl₁
      rw [follows_bind]
      refine ih.mono fun l₂ r hr => ?_
      obtain ⟨found, hlength, rfl, rfl⟩ := hr
      exact ⟨answer :: found, congrArg Nat.succ hlength, List.append_assoc .., rfl⟩

/-- `catalog_and_tuples` lists the catalog and looks up every region of it. -/
theorem catalogAndTuples_talk :
    Follows conversing l (Shared.catalogAndTuples g) fun l' r => ∃ catalog found,
      found.length = catalog.length ∧ l' = l ++ .listed catalog :: lookups g catalog found ∧
        r = (.metadata (catalog.map fun e => e.2.desc e.1), .tuples g (tuplesOf catalog found)) := by
  unfold Shared.catalogAndTuples
  rw [follows_bind]
  refine ⟨trivial, fun catalog => ?_⟩
  show Follows conversing (l ++ [.listed catalog]) (Shared.describe g catalog >>= _) _
  rw [follows_bind]
  refine (describe_talk catalog).mono fun l' r hr => ?_
  obtain ⟨found, hlength, rfl, rfl⟩ := hr
  exact ⟨catalog, found, hlength, List.append_assoc .., rfl⟩

/-- What the thread does with an update. -/
def answerUpdate (c : Chan) (g : UInt32) : Code (Option Loop) := do
  let (catalog, tuples) ← Shared.catalogAndTuples g
  match ← (do Channel.send c catalog; Channel.send c tuples : Sys Unit).run with
  | .ok () => return some (.session c g)
  | .error e => SessionThread.leave e

theorem send_talk {m : Message} :
    Tries conversing l (Channel.send c m) (fun l' _ => l' = l ++ [.told m (.ok ())])
      fun l' _ => ∃ e, l' = l ++ [.told m (.error e)] := by
  unfold Channel.send
  rw [tries_bind, tries_lift, follows_op]
  refine ⟨trivial, fun answer => ?_⟩
  obtain ⟨r, n⟩ := answer
  cases r with
  | ok u => exact rfl
  | error e => exact ⟨e, rfl⟩

/-- A thread that leaves says nothing any more. -/
theorem leave_talk {fault : Fault} {t : Talk} (h : t ∈ l) :
    Follows conversing l (SessionThread.leave fault) fun l' _ => t ∈ l' := by
  cases fault with
  | err e => exact ⟨trivial, fun _ => List.mem_append_left _ h⟩
  | panic => exact ⟨trivial, fun _ => ⟨trivial, fun _ =>
      List.mem_append_left _ (List.mem_append_left _ h)⟩⟩

/-- How an update is dealt with: it is answered, or a message of the answer is lost. -/
def Dealt (c : Chan) (g : UInt32) (l : List Talk) (result : Option Loop) : Prop :=
  (result = some (.session c g) ∧ ∃ catalog found, found.length = catalog.length ∧
    l = .listed catalog :: (lookups g catalog found ++ answers g catalog found)) ∨
  ∃ m e, .told m (.error e) ∈ l

/-- **An update is answered**, unless a message cannot be sent. -/
theorem answerUpdate_talk : Follows conversing [] (answerUpdate c g) (Dealt c g) := by
  unfold answerUpdate
  rw [follows_bind]
  refine catalogAndTuples_talk.mono fun l₁ r h => ?_
  obtain ⟨catalog, found, hlength, rfl, rfl⟩ := h
  have hfail {l' : List Talk} {m : Message} {e : IoError} {fault : Fault}
      (h : .told m (.error e) ∈ l') :
      Follows conversing l' (SessionThread.leave fault) (Dealt c g) :=
    (leave_talk h).mono fun _ _ h => Or.inr ⟨m, e, h⟩
  simp only
  rw [follows_bind, follows_run, tries_bind]
  refine send_talk.mono (fun l₂ _ h₂ => ?_) fun l₂ _ h₂ => ?_
  · subst h₂
    refine send_talk.mono (fun l₃ _ h₃ => ?_) fun l₃ _ h₃ => ?_
    · subst h₃
      exact Or.inl ⟨rfl, catalog, found, hlength, by simp only [answers, List.append_assoc,
        List.cons_append, List.nil_append]⟩
    · obtain ⟨e, rfl⟩ := h₃
      exact hfail (List.mem_append_right _ (List.mem_singleton_self _))
  · obtain ⟨e, rfl⟩ := h₂
    exact hfail (List.mem_append_right _ (List.mem_singleton_self _))

/-- Nothing the thread says is lost. -/
theorem conversed_told {s s' : TcpStream} {steps : List TimedOp} (h : Conversed s steps s')
    {m : Message} {e : IoError} : .told m (.error e) ∉ talk steps := by
  induction steps generalizing s with
  | nil => exact List.not_mem_nil
  | cons step steps ih =>
      obtain ⟨_, s₁, hstep, hrest⟩ := h
      show _ ∉ step.2.1.talk step.2.2 ++ talk steps
      rw [List.mem_append, not_or]
      refine ⟨fun hmem => ?_, ih hrest⟩
      obtain ⟨s₀, o, a⟩ := step
      cases o with
      | send c' m' =>
          obtain ⟨_, hok⟩ := Talk.told.inj (List.mem_singleton.mp hmem)
          exact nomatch hok.trans hstep.1
      | receive | catalogSnapshot => cases List.mem_singleton.mp hmem
      | note n =>
          cases n with
          | tupleOf => cases List.mem_singleton.mp hmem
          | _ => cases hmem
      | _ => cases hmem

/-- Without a `receive`, nothing is taken off the stream. -/
theorem conversed_quiet {s s' : TcpStream} {steps : List TimedOp} (h : Conversed s steps s')
    (hquiet : ∀ r, .heard r ∉ talk steps) : PromptTurn steps ∧ s'.due = s.due := by
  induction steps generalizing s with
  | nil => exact ⟨fun _ hmem => absurd hmem List.not_mem_nil, congrArg Arrivals.due h⟩
  | cons step steps ih =>
      obtain ⟨hfirst, s₁, hstep, hrest⟩ := h
      have hsplit : talk (step :: steps) = step.2.1.talk step.2.2 ++ talk steps := rfl
      simp only [hsplit, List.mem_append, not_or] at hquiet
      obtain ⟨hprompt, hdue⟩ := ih hrest fun r => (hquiet r).2
      obtain ⟨s₀, o, a⟩ := step
      have hreceive (c' : Chan) : o ≠ .receive c' := fun ho => by
        subst ho
        exact (hquiet _).1 (List.mem_singleton_self _)
      have helapses : s₁.due = s.due := by
        cases o with
        | receive c' => exact absurd rfl (hreceive c')
        | loadShutdown => exact hstep.2.1
        | send => exact hstep.2.1
        | _ => exact hstep.1
      refine ⟨fun step' hmem c' ho => ?_, hdue.trans helapses⟩
      rcases List.mem_cons.mp hmem with rfl | hmem
      · exact absurd ho (hreceive c')
      · exact hprompt step' hmem c' ho

theorem soon_iff {s : TcpStream} {times : List Nat} (hdue : s.due = updates times) :
    s.Soon IO_TIMEOUT ↔ ∃ time rest, times = time :: rest ∧ time < s.now + IO_TIMEOUT := by
  cases times with
  | nil =>
      constructor
      · intro ⟨time, a, rest, h, _⟩
        rw [hdue] at h
        cases h
      · intro ⟨time, rest, h, _⟩
        cases h
  | cons time rest =>
      rw [Arrivals.soon_together (by rw [update_encode]; exact List.cons_ne_nil _ _)
        (hdue.trans updates_cons)]
      constructor
      · intro htime
        exact ⟨time, rest, rfl, htime⟩
      · intro ⟨time', rest', h, htime⟩
        obtain ⟨rfl, rfl⟩ := List.cons.inj h
        exact htime

/-- How a turn ends: it serves the next update, or gives up on it. -/
inductive TurnEnds (c : Chan) (g : UInt32) (times : List Nat) (steps : List TimedOp)
    (s' : TcpStream) : Option Loop → Prop
  | served (time : Nat) (rest : List Nat) (htimes : times = time :: rest)
      (hdue : s'.due = updates rest) (hprompt : PromptTurn steps) (hserves : TurnServes g steps) :
      TurnEnds c g times steps s' (some (.session c g))
  | timedOut (hprompt : ¬ PromptTurn steps) : TurnEnds c g times steps s' none

/-- **A turn of the session**, from the moment it asks for the shutdown flag. -/
theorem turn_timed {s s' : TcpStream} {times : List Nat} {steps : List TimedOp}
    {result : Option Loop} (hdue : s.due = updates times)
    (hruns : (SessionThread.waitForUpdates c g).Runs (untimed steps) result)
    (hconversed : Conversed s steps s') : TurnEnds c g times steps s' result := by
  -- the turn asks for the flag, which is down, and receives
  obtain ⟨down, tr, htr, hruns⟩ := hruns
  cases steps with
  | nil => cases htr
  | cons step steps =>
  obtain ⟨s₀, o, a⟩ := step
  obtain ⟨hhead, htail⟩ := List.cons.inj htr
  cases hhead
  subst htail
  obtain ⟨hs₀, s₁, ⟨rfl, hwait⟩, hconversed⟩ := hconversed
  have hdue : s₁.due = updates times := hwait.1.trans hdue
  obtain ⟨answer, tr, htr, hruns⟩ := hruns
  cases steps with
  | nil => cases htr
  | cons step steps =>
  obtain ⟨s₂, o, a⟩ := step
  obtain ⟨hhead, htail⟩ := List.cons.inj htr
  cases hhead
  subst htail
  obtain ⟨hs₂, s₃, hread, hconversed⟩ := hconversed
  obtain ⟨r, n⟩ := a
  have hread : readFrame (σ := TcpStream) s₁ = (r.mapError .err, s₃) := hread
  by_cases hsoon : s₁.Soon IO_TIMEOUT
  · obtain ⟨time, rest, rfl, htime⟩ := (soon_iff hdue).mp hsoon
    rw [readFrame_update hdue htime] at hread
    obtain ⟨hr, rfl⟩ := Prod.mk.inj hread
    obtain rfl : r = .ok .update := by
      cases r with
      | ok m => exact congrArg Except.ok (Except.ok.inj hr).symm
      | error e => cases hr
    have hanswer : (answerUpdate c g).Runs (untimed steps) result := hruns
    have htalk := Follows.runs answerUpdate_talk hanswer
    rw [conversing_after, List.nil_append] at htalk
    obtain ⟨rfl, catalog, found, hlength, htalk⟩ := htalk.resolve_right fun ⟨m, e, h⟩ =>
      conversed_told hconversed h
    obtain ⟨hprompt, hleft⟩ := conversed_quiet hconversed fun r h => by
      rw [htalk] at h
      simp [lookups, answers] at h
    refine .served time rest rfl hleft (fun step hmem c' ho => ?_) ⟨catalog, found, hlength, ?_⟩
    · rcases List.mem_cons.mp hmem with rfl | hmem
      · cases ho
      · rcases List.mem_cons.mp hmem with rfl | hmem
        · exact hs₂ ▸ hsoon
        · exact hprompt step hmem c' ho
    · show .heard (.ok .update) :: talk steps = _
      rw [htalk]
  · obtain ⟨e, he⟩ := readFrame_late hsoon
    rw [he] at hread
    obtain ⟨hr, _⟩ := Prod.mk.inj hread
    cases r with
    | ok m => cases hr
    | error e' =>
        have hleave : (SessionThread.leave (.err e')).Runs (untimed steps) result := hruns
        obtain ⟨_, _, _, _, rfl⟩ := hleave
        refine .timedOut fun hprompt => hsoon ?_
        exact hs₂ ▸ hprompt _ (List.mem_cons_of_mem _ List.mem_cons_self) c rfl

end Turn

/-! ## 4. The session -/

section Session

variable {c : Chan} {g : UInt32} {s s' : TcpStream} {turns : List (List TimedOp)}
  {result : Option Loop}

/-- A run of the session, on updates that arrive at these times. -/
theorem sessionRun_served {times : List Nat} (hdue : s.due = updates times)
    (hrun : SessionRun c g s turns s' result) :
    ((result = some (.session c g) ∧ ∃ rest, s'.due = updates rest) ∧
        ∀ steps ∈ turns, PromptTurn steps ∧ TurnServes g steps) ∨
      (result = none ∧ ∃ steps ∈ turns, ¬ PromptTurn steps) := by
  induction hrun with
  | start => exact Or.inl ⟨⟨rfl, times, hdue⟩, fun _ h => absurd h List.not_mem_nil⟩
  | @turn turns s₁ s₂ steps result hbefore hruns hconversed ih =>
      obtain ⟨⟨_, rest, hrest⟩, hserved⟩ := ih.resolve_right fun h => nomatch h.1
      cases turn_timed hrest hruns hconversed with
      | served time rest' _ hdue hprompt hserves =>
          refine Or.inl ⟨⟨rfl, rest', hdue⟩, fun steps' hmem => ?_⟩
          rcases List.mem_append.mp hmem with hmem | hmem
          · exact hserved steps' hmem
          · exact List.mem_singleton.mp hmem ▸ ⟨hprompt, hserves⟩
      | timedOut hlate =>
          exact Or.inr ⟨rfl, steps, List.mem_append_right _ (List.mem_singleton_self _), hlate⟩

/-- **When a session serves its reader**: in every run on which the reader sends nothing but
    updates, the thread has not returned and has answered each update before it received again,
    iff it never waited as long as the timeout for the next update. -/
theorem session_serves_iff {times : List Nat} (hdue : s.due = updates times)
    (hrun : SessionRun c g s turns s' result) :
    (result = some (.session c g) ∧ ∀ steps ∈ turns, TurnServes g steps) ↔
      ∀ steps ∈ turns, PromptTurn steps := by
  rcases sessionRun_served hdue hrun with ⟨⟨hresult, _⟩, h⟩ | ⟨hresult, steps, hmem, hlate⟩
  · exact ⟨fun _ steps hmem => (h steps hmem).1, fun _ => ⟨hresult, fun _ hmem => (h _ hmem).2⟩⟩
  · refine ⟨fun h => ?_, fun h => absurd (h steps hmem) hlate⟩
    exact nomatch hresult.symm.trans h.1

end Session

/-- A stream on which one update arrives at this time. -/
def oneUpdate (time : Nat) : TcpStream := ⟨0, updates [time]⟩

/-- A region of the catalog, and its registration. -/
def sessionRegion : RegionInfo :=
  { name := "a", remoteAddr := 4096, size := 8, elemSize := 1, elemAlign := 1, elemType := "u8" }

def sessionMr : MemoryRegion := { mr := 0, pd := 3, addr := 4096, size := 8, lkey := 1, rkey := 2 }

/-- An update, answered three nanoseconds after the last one: one region, registered before. -/
def promptTurn : List TimedOp :=
  [(oneUpdate 3, ⟨.loadShutdown, false⟩), (oneUpdate 3, ⟨.receive 5, (.ok .update, 5)⟩),
    (⟨3, []⟩, ⟨.catalogSnapshot, [(0, sessionRegion)]⟩),
    (⟨3, []⟩, ⟨.tuplesGet 0 7, some sessionMr⟩),
    (⟨3, []⟩, ⟨.note (.tupleOf 0 7 (.ok (some sessionMr.tuple))), ()⟩),
    (⟨3, []⟩, ⟨.send 5 (.metadata [sessionRegion.desc 0]), (.ok (), 9)⟩),
    (⟨3, []⟩, ⟨.send 5 (.tuples 7 [⟨0, 4096, 8, 2⟩]), (.ok (), 13)⟩)]

theorem promptTurn_run :
    SessionRun 5 7 (oneUpdate 3) ([] ++ [promptTurn]) ⟨3, []⟩ (some (.session 5 7)) := by
  have hread : readFrame (σ := TcpStream) (oneUpdate 3) = (.ok .update, ⟨3, []⟩) :=
    readFrame_update (show (oneUpdate 3).due = updates [3] from rfl) (show 3 < 0 + IO_TIMEOUT by decide)
  refine .turn .start ⟨_, _, rfl, _, _, rfl, _, _, rfl, _, _, rfl, _, _, rfl, _, _, rfl, _, _, rfl,
    rfl, rfl⟩ ?_
  have hsame (s : TcpStream) : Elapses s s := ⟨rfl, Nat.le_refl _⟩
  exact ⟨rfl, _, ⟨rfl, hsame _⟩, rfl, _, hread, rfl, _, hsame _, rfl, _, hsame _, rfl, _, hsame _,
    rfl, _, ⟨rfl, hsame _⟩, rfl, _, ⟨rfl, hsame _⟩, rfl⟩

theorem prompt_session_serves : TurnServes 7 promptTurn := by
  have hserved := session_serves_iff (show (oneUpdate 3).due = updates [3] from rfl) promptTurn_run
  refine (hserved.mpr fun steps hmem step hstep c ho => ?_).2 promptTurn (List.mem_singleton_self _)
  obtain rfl := List.mem_singleton.mp hmem
  -- the one `receive` of the turn is its second operation
  rcases hstep with _ | ⟨_, _ | ⟨_, hrest⟩⟩
  · cases ho
  · exact (soon_iff rfl).mpr ⟨3, [], rfl, by decide⟩
  · rcases hrest with _ | ⟨_, _ | ⟨_, _ | ⟨_, _ | ⟨_, _ | ⟨_, hnone⟩⟩⟩⟩⟩ <;> first | cases ho | cases hnone

/-- **An idle reader is hung up on**: of an update that is sent ten seconds after the last one, the
    thread has not received a byte when it returns. -/
theorem idle_session_closed :
    ∃ turns s', SessionRun 5 7 (oneUpdate IO_TIMEOUT) turns s' none ∧
      s'.due = updates [IO_TIMEOUT] := by
  have hlate : ¬ (oneUpdate IO_TIMEOUT).Soon IO_TIMEOUT := fun h => by
    obtain ⟨time, rest, htimes, htime⟩ := (soon_iff rfl).mp h
    obtain ⟨rfl, _⟩ := List.cons.inj htimes
    exact Nat.lt_irrefl _ (htime.trans_le (Nat.le_of_eq (Nat.zero_add _)))
  obtain ⟨fault, hread⟩ := readFrame_late hlate
  let idleTurn : List TimedOp :=
    [(oneUpdate IO_TIMEOUT, ⟨.loadShutdown, false⟩),
      (oneUpdate IO_TIMEOUT, ⟨.receive 5, (.error fault, 0)⟩),
      (⟨0 + IO_TIMEOUT, updates [IO_TIMEOUT]⟩, ⟨.exit, ()⟩)]
  have hsame (s : TcpStream) : Elapses s s := ⟨rfl, Nat.le_refl _⟩
  refine ⟨[] ++ [idleTurn], ⟨0 + IO_TIMEOUT, updates [IO_TIMEOUT]⟩, .turn .start
    ⟨_, _, rfl, _, _, rfl, _, _, rfl, rfl, rfl⟩ ?_, rfl⟩
  exact ⟨rfl, _, ⟨rfl, hsame _⟩, rfl, _, hread, rfl, _, hsame _, rfl⟩

end Rdmalib
