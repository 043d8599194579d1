/-
  File:      Rdmalib/Synch/Barrier.lean
  Subject:   `GlobalSynch` of `tests/common/mod.rs`, the barrier across the nodes of a cluster.

  * `Op` -- what the two threads of a node do to their node and to the network;
  * `poll`, `answer`, `synch`, `respond` -- the code, with the loops of `synch` and of the
    responder given turn by turn;
  * `World`, `can`, `post` -- the nodes and the polls under way. Exchanges fail at any step, loads
    are late and calls come when they come: all that is in the answers;
  * `barrier` -- the system of a cluster, for addresses given in cluster order.
-/
import Rdmalib.Io
import Rdmalib.Base.LittleEndian
import Rdmalib.Base.Threads

namespace Rdmalib.GlobalSynch

open Base

/-! ## 1. Operations -/

abbrev Ipv4Addr := UInt32

/-- A node, by its position in the cluster; and a poll's connection. -/
abbrev NodeId := Nat

abbrev Conn := Nat

inductive Op where
  -- the caller of `synch`, and what it gets
  | callSynch
  | returned (ok : Bool)
  -- the fields of `self`
  | raiseClock
  | clock
  | known (index : Nat)
  | hear (index : Nat) (clock : UInt64)
  -- the listener, the channel and the responder of one call
  | bind
  | setNonblocking
  | dropListener
  | channel
  | spawn (myClock : UInt64)
  | tryRecv (peers : List Ipv4Addr)
  | setShutdown
  | join
  | pastDeadline
  | exitProcess
  -- the responder
  | awaitSpawn
  | loadShutdown
  | accept
  | peerAddr (c : Conn)
  | seenSend (c : Conn) (ip : Ipv4Addr) (clock : UInt64)
  | finish
  -- streams
  | connect (peer : Ipv4Addr)
  | setTimeouts (c : Conn)
  | writeAll (c : Conn) (bytes : List UInt8)
  | readExact (c : Conn)
  deriving DecidableEq, Repr

@[reducible] def Op.Ans : Op → Type
  | .raiseClock => Option UInt64
  | .clock | .known _ | .awaitSpawn => UInt64
  | .bind | .setNonblocking | .setTimeouts _ => Except IoError Unit
  | .tryRecv _ => Option (Ipv4Addr × UInt64)
  | .pastDeadline | .loadShutdown => Bool
  | .accept => Option Conn
  | .peerAddr _ => Except IoError Ipv4Addr
  | .connect _ => Except IoError Conn
  -- the result, and how many bytes were written
  | .writeAll _ _ => Except IoError Unit × Nat
  | .readExact _ => Except IoError (List UInt8)
  | .callSynch | .returned _ | .hear _ _ | .dropListener | .channel | .spawn _ | .setShutdown | .join
  | .exitProcess | .seenSend _ _ _ | .finish => Unit

abbrev Code := Prog Op Op.Ans

/-- Code with early returns: an `io::Result`. -/
abbrev Try := ExceptT IoError Code

def perform (o : Op) : Code o.Ans := Prog.perform o

/-- The `?` operator. -/
def question {α : Type} (x : Code (Except IoError α)) : Try α := ExceptT.mk x

/-- `to_le_bytes` and `from_le_bytes`. -/
def toLeBytes (clock : UInt64) : List UInt8 := leBytes 8 clock.toNat

def fromLeBytes (bytes : List UInt8) : UInt64 := UInt64.ofNat (leValue bytes)

/-! ## 2. The code -/

/-- `poll`. -/
def poll (peer : Ipv4Addr) : Try UInt64 := do
  let stream ← question (perform (.connect peer))
  -- `set_read_timeout`, `set_write_timeout`
  question (perform (.setTimeouts stream))
  question (perform (.setTimeouts stream))
  let clock ← perform .clock
  question do return (← perform (.writeAll stream (toLeBytes clock))).1
  let reply ← question (perform (.readExact stream))
  return fromLeBytes reply

/-- `answer`. -/
def answer (stream : Conn) (myClock : UInt64) : Try Unit := do
  question (perform (.setTimeouts stream))
  question (perform (.setTimeouts stream))
  let request ← question (perform (.readExact stream))
  let theirClock := fromLeBytes request
  let peerIp ← question (perform (.peerAddr stream))
  perform (.seenSend stream peerIp theirClock)
  question do return (← perform (.writeAll stream (toLeBytes myClock))).1

/-- The `for` loop of `synch`, from the peer at `index` on. -/
def pollPeers (round : UInt64) : List Ipv4Addr → Nat → Bool → Code Bool
  | [], _, heardFromAll => return heardFromAll
  | peer :: rest, index, heardFromAll => do
      if round ≤ (← perform (.known index)) then
        pollPeers round rest (index + 1) heardFromAll
      else
        match ← (poll peer).run with
        | .ok clock => perform (.hear index clock)
        | .error _ => pure ()
        pollPeers round rest (index + 1) false

/-- How a thread goes on. -/
inductive Loop where
  | outside (i : NodeId)
  | waiting (i : NodeId) (round : UInt64)
  | spawnable (i : NodeId)
  | responding (i : NodeId) (myClock : UInt64)

/-- `cluster.others()`: the addresses of the other nodes. -/
def others (cluster : List Ipv4Addr) (i : NodeId) : List Ipv4Addr := cluster.eraseIdx i

/-- `synch`, up to its loop. -/
def synch (peers : List Ipv4Addr) (i : NodeId) : Code (Option Loop) := do
  perform .callSynch
  match ← perform .raiseClock with
  | none => return none
  | some round =>
      if peers.isEmpty then
        perform (.returned true)
        return some (.outside i)
      match ← perform .bind with
      | .error _ =>
          perform (.returned false)
          return some (.outside i)
      | .ok () =>
          match ← perform .setNonblocking with
          | .error _ =>
              perform .dropListener
              perform (.returned false)
              return some (.outside i)
          | .ok () =>
              perform .channel
              let myClock ← perform .clock
              perform (.spawn myClock)
              return some (.waiting i round)

/-- The body of the `while` over the responder's queue. -/
def record (peers : List Ipv4Addr) (knownClocks : List UInt64) (item : Ipv4Addr × UInt64) :
    List UInt64 :=
  match peers.findIdx? (· == item.1) with
  | some index => knownClocks.modify index (max · item.2)
  | none => knownClocks

/-- One turn of the `loop` of `synch`; the `while` over the responder's queue takes one item, and
    records it in one step: `known_clocks` is this thread's own. -/
def synchLoop (peers : List Ipv4Addr) (i : NodeId) (round : UInt64) : Code (Option Loop) := do
  match ← perform (.tryRecv peers) with
  | some _ => return some (.waiting i round)
  | none =>
      if ← pollPeers round peers 0 true then
        perform .setShutdown
        perform .join
        perform (.returned true)
        return some (.outside i)
      else if ← perform .pastDeadline then
        -- `bail_out`
        perform .exitProcess
        return none
      else
        return some (.waiting i round)

/-- One turn of the responder's loop. -/
def respond (i : NodeId) (myClock : UInt64) : Code (Option Loop) := do
  if ← perform .loadShutdown then
    perform .finish
    return some (.spawnable i)
  else
    match ← perform .accept with
    | some stream =>
        let _ ← (answer stream myClock).run
        return some (.responding i myClock)
    | none => return some (.responding i myClock)

def code (cluster : List Ipv4Addr) : Loop → Code (Option Loop)
  | .outside i => synch (others cluster i) i
  | .waiting i round => synchLoop (others cluster i) i round
  | .spawnable i => do
      let myClock ← perform .awaitSpawn
      return some (.responding i myClock)
  | .responding i myClock => respond i myClock

/-! ## 3. The nodes -/

inductive Tid where
  | main (i : NodeId)
  | responder (i : NodeId)
  deriving DecidableEq, Repr

/-- A thread's node. -/
def Tid.node : Tid → NodeId
  | .main i | .responder i => i

/-- `GlobalSynch` with what its calls make: the calls of `synch` so far, the listener with the
    connections it has not accepted, the channel from the responder, and the responder, spawned
    or running with its clock. -/
structure Node where
  entered : Nat := 0
  clock : UInt64 := 0
  knownClocks : List UInt64
  listening : Bool := false
  backlog : List Conn := []
  seen : List (Ipv4Addr × UInt64) := []
  shutdown : Bool := false
  spawned : Option UInt64 := none
  running : Option UInt64 := none
  exited : Bool := false

/-- A poll's connection: whose it is, what each side has written, and, once the polled node has
    passed the request on to its bookkeeping, the clocks of both that were exchanged. -/
structure Poll where
  poller : NodeId
  target : NodeId
  request : List UInt8 := []
  reply : List UInt8 := []
  accepted : Bool := false
  told : Option (UInt64 × UInt64) := none

/-- All nodes, the polls so far, and the calls that returned `Ok`, by node and number. -/
structure World where
  nodes : NodeId → Node
  polls : List Poll := []
  returns : List (NodeId × Nat) := []

namespace World

def modifyNode (w : World) (i : NodeId) (f : Node → Node) : World :=
  { w with nodes := Function.update w.nodes i (f (w.nodes i)) }

def modifyPoll (w : World) (c : Conn) (f : Poll → Poll) : World :=
  { w with polls := w.polls.modify c f }

/-- The node that has this address. -/
def nodeAt (cluster : List Ipv4Addr) (ip : Ipv4Addr) : NodeId := cluster.findIdx (· == ip)

end World

/-- What the other side wrote on a poll's connection. -/
def Poll.incoming (p : Poll) : Tid → List UInt8
  | .main _ => p.reply
  | .responder _ => p.request

def Poll.write (p : Poll) (bytes : List UInt8) : Tid → Poll
  | .main _ => { p with request := p.request ++ bytes }
  | .responder _ => { p with reply := p.reply ++ bytes }

/-- A transfer ends after all bytes, or fails after fewer. -/
def writeCan (bytes : List UInt8) (a : Except IoError Unit × Nat) : Prop :=
  if a.1.isOk then a.2 = bytes.length else a.2 < bytes.length

instance (bytes : List UInt8) (a : Except IoError Unit × Nat) : Decidable (writeCan bytes a) :=
  inferInstanceAs (Decidable (ite _ _ _))

/-- Which answers an operation of thread `t` can have, on a node that has not exited. -/
def canAnswer (cluster : List Ipv4Addr) (t : Tid) (o : Op) (w : World) (a : o.Ans) : Prop :=
  match o, a with
  | .callSynch, _ => t.node < cluster.length
  | .raiseClock, a =>
      let clock := (w.nodes t.node).clock
      a = if clock.toNat + 1 < 2 ^ 64 then some (clock + 1) else none
  | .clock, a => a = (w.nodes t.node).clock
  | .known index, a => a = (w.nodes t.node).knownClocks.getD index 0
  | .tryRecv _, a => a = (w.nodes t.node).seen.head?
  | .join, _ => (w.nodes t.node).spawned = none ∧ (w.nodes t.node).running = none
  | .awaitSpawn, a => (w.nodes t.node).spawned = some a
  | .loadShutdown, a => a = true → (w.nodes t.node).shutdown = true
  | .accept, some c => c ∈ (w.nodes t.node).backlog
  | .peerAddr c, .ok ip => ∃ p ∈ w.polls[c]?, cluster[p.poller]? = some ip
  | .connect peer, .ok c => c = w.polls.length ∧
      (w.nodes (World.nodeAt cluster peer)).listening = true
  | .writeAll _ bytes, a => writeCan bytes a
  | .readExact c, .ok bytes =>
      ∃ p ∈ w.polls[c]?, bytes.length = 8 ∧ bytes <+: p.incoming t
  | _, _ => True

def can (cluster : List Ipv4Addr) (t : Tid) (o : Op) (w : World) (a : o.Ans) : Prop :=
  (w.nodes t.node).exited = false ∧ canAnswer cluster t o w a

/-- What an operation does to its own node. -/
def nodePost (o : Op) (a : o.Ans) (n : Node) : Node :=
  match o, a with
  | .callSynch, _ => { n with entered := n.entered + 1 }
  | .raiseClock, some clock => { n with clock := clock }
  | .hear index clock, _ => { n with knownClocks := n.knownClocks.modify index (max · clock) }
  | .bind, .ok () => { n with listening := true }
  | .dropListener, _ => { n with listening := false, backlog := [] }
  | .channel, _ => { n with seen := [], shutdown := false }
  | .spawn myClock, _ => { n with spawned := some myClock }
  | .tryRecv peers, some item =>
      { n with seen := n.seen.tail, knownClocks := record peers n.knownClocks item }
  | .setShutdown, _ => { n with shutdown := true }
  -- the receiver is dropped
  | .returned _, _ => { n with seen := [] }
  | .exitProcess, _ => { n with exited := true, listening := false, backlog := [] }
  | .awaitSpawn, myClock => { n with spawned := none, running := some myClock }
  | .accept, some c => { n with backlog := n.backlog.filter (· ≠ c) }
  | .seenSend _ ip clock, _ => { n with seen := n.seen ++ [(ip, clock)] }
  -- the listener is dropped with the responder's closure
  | .finish, _ => { n with running := none, listening := false, backlog := [] }
  | _, _ => n

/-- What it does to the network. -/
def networkPost (cluster : List Ipv4Addr) (t : Tid) (o : Op) (a : o.Ans) (w : World) : World :=
  match o, a with
  | .returned true, _ =>
      { w with returns := w.returns ++ [(t.node, (w.nodes t.node).entered)] }
  | .accept, some c => w.modifyPoll c ({ · with accepted := true })
  | .seenSend c _ clock, _ =>
      w.modifyPoll c ({ · with told := some (clock, (w.nodes t.node).clock) })
  | .connect peer, .ok c =>
      let target := World.nodeAt cluster peer
      let asked : World := { w with polls := w.polls ++ [{ poller := t.node, target }] }
      asked.modifyNode target fun n => { n with backlog := n.backlog ++ [c] }
  | .writeAll c bytes, (_, n) => w.modifyPoll c (·.write (bytes.take n) t)
  | _, _ => w

def post (cluster : List Ipv4Addr) (t : Tid) (o : Op) (a : o.Ans) (w : World) : World :=
  networkPost cluster t o a (w.modifyNode t.node (nodePost o a))

/-! ## 4. The system -/

/-- **The barrier** of a cluster. -/
def barrier (cluster : List Ipv4Addr) : System Tid Op World Loop Op.Ans where
  code := code cluster
  can := can cluster
  post := post cluster

def firstLoop : Tid → Loop
  | .main i => .outside i
  | .responder i => .spawnable i

/-- Nobody has called `synch`. -/
def start (cluster : List Ipv4Addr) : Config Tid Op World Loop Op.Ans :=
  (barrier cluster).start
    { nodes := fun _ => { knownClocks := List.replicate (cluster.length - 1) 0 } } firstLoop

/-! ## 5. Playing a run -/

section Play

variable (cluster : List Ipv4Addr)

instance (t : Tid) (o : Op) (w : World) (a : o.Ans) : Decidable (canAnswer cluster t o w a) := by
  unfold canAnswer
  split <;> infer_instance

instance (t : Tid) (o : Op) (w : World) (a : o.Ans) : Decidable ((barrier cluster).can t o w a) :=
  inferInstanceAs (Decidable ((w.nodes t.node).exited = false ∧ canAnswer cluster t o w a))

/-- The answer to an operation of `t` where all goes well. -/
def obliging (t : Tid) (o : Op) (w : World) : o.Ans :=
  let node := w.nodes t.node
  match o with
  | .raiseClock => if node.clock.toNat + 1 < 2 ^ 64 then some (node.clock + 1) else none
  | .clock => node.clock
  | .known index => node.knownClocks.getD index 0
  | .bind | .setNonblocking | .setTimeouts _ => .ok ()
  | .tryRecv _ => node.seen.head?
  | .pastDeadline => false
  | .loadShutdown => node.shutdown
  | .awaitSpawn => node.spawned.getD 0
  | .accept => node.backlog.head?
  | .peerAddr c =>
      match w.polls[c]? with
      | some p => .ok (cluster.getD p.poller 0)
      | none => .error (.other "")
  | .connect peer =>
      if (w.nodes (World.nodeAt cluster peer)).listening then .ok w.polls.length
      else .error (.other "Connection refused (os error 111)")
  | .writeAll _ bytes => (.ok (), bytes.length)
  | .readExact c =>
      match w.polls[c]? with
      | some p =>
          if 8 ≤ (p.incoming t).length then .ok ((p.incoming t).take 8)
          else .error ⟨.unexpectedEof, "failed to fill whole buffer"⟩
      | none => .error (.other "")
  | .callSynch | .returned _ | .hear _ _ | .dropListener | .channel | .spawn _ | .setShutdown | .join
  | .exitProcess | .seenSend _ _ _ | .finish => ()

abbrev Move := Tid × ((o : Op) → World → o.Ans)

/-- The next `n` moves of `t`, where all goes well. -/
def moves (t : Tid) (n : Nat) : List Move := List.replicate n (t, obliging cluster t)

/-- Node `i` enters a round, up to its loop, and its responder starts. -/
def enters (i : NodeId) : List Move := moves cluster (.main i) 8 ++ moves cluster (.responder i) 2

/-- In a cluster of two, node `i` polls `j`, which answers: the poll, the answer, and the reply. -/
def exchanges (i j : NodeId) : List Move :=
  moves cluster (.main i) 7 ++ moves cluster (.responder j) 9 ++ moves cluster (.main i) 4

/-- In a cluster of two, a node that has heard from the other one leaves the round. -/
def leaves (i : NodeId) : List Move :=
  moves cluster (.main i) 3 ++ moves cluster (.responder i) 3 ++ moves cluster (.main i) 3

end Play

end Rdmalib.GlobalSynch
