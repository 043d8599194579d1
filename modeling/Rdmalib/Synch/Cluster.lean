/-
  File:      Rdmalib/Synch/Cluster.lean
  Subject:   The layout of a cluster: what `scripts/test_runner.py` writes, what `TestCluster::parse`
             of `tests/common/mod.rs` reads, and the `GlobalSynch` that each node builds of it.

  * `TestCluster.parse`, `GlobalSynch.new` -- with the texts of their errors and panics;
  * `nodesEnv` -- the runner's description of the nodes it deploys on;
  * results: which texts are read, as what, and which error is reported (`parse_exact`); a runner's
    deployment starts the barrier of its addresses, on every node alike (`deployed_barrier`).
-/
import Mathlib.Data.List.InsertIdx
import Rdmalib.Base.Text
import Rdmalib.Synch.Barrier

namespace Rdmalib.GlobalSynch

open Base

/-! ## 1. `TestCluster` -/

structure NodeInfo where
  index : Nat
  ip : String
  tcpPort : UInt16
  rdmaPort : UInt16
  deriving DecidableEq, Repr

structure TestCluster where
  myNode : Nat
  nodes : List NodeInfo
  deriving DecidableEq, Repr

/-- `ParseIntError`, as it is displayed. -/
def intError : NumeralError → String
  | .empty => "cannot parse integer from empty string"
  | .invalidDigit => "invalid digit found in string"
  | .tooLarge => "number too large to fit in target type"

/-- `port` of `parse_node`. -/
def parsePort (index : Nat) (name raw : String) : Except String UInt16 :=
  match readNumeral (2 ^ 16) raw with
  | .ok n => .ok (UInt16.ofNat n)
  | .error e => .error s!"node {index}: bad {name} port `{raw}`: {intError e}"

def parseNode (index : Nat) (spec : String) : Except String NodeInfo :=
  match pieces ':' spec with
  | [ip, tcp, rdma] => do
      let tcpPort ← parsePort index "tcp" tcp
      let rdmaPort ← parsePort index "rdma" rdma
      return { index, ip, tcpPort, rdmaPort }
  | _ => .error s!"node {index}: expected `<ip>:<tcp-port>:<rdma-port>`, got `{spec}`"

/-- The specs with their positions, up to the first that is refused. -/
def parseNodes (specs : List String) : Except String (List NodeInfo) :=
  specs.zipIdx.mapM fun e => parseNode e.2 e.1

namespace TestCluster

def parse (myNode nodes : String) : Except String TestCluster := do
  let parsed ← parseNodes (pieces ',' nodes)
  if parsed.isEmpty then
    throw s!"no nodes in `{nodes}`"
  match readNumeral wordSize myNode with
  | .error e => throw s!"bad RDMALIB_TEST_MY_NODE `{myNode}`: {intError e}"
  | .ok my =>
      if my ≥ parsed.length then
        throw s!"RDMALIB_TEST_MY_NODE={my} out of range ({parsed.length} nodes deployed)"
      return { myNode := my, nodes := parsed }

variable (cluster : TestCluster)

/-- `me`: the index is checked. -/
def me : Except String NodeInfo :=
  match cluster.nodes[cluster.myNode]? with
  | some node => .ok node
  | none => .error s!"index out of bounds: the len is {cluster.nodes.length} but the index is {
      cluster.myNode}"

def others : List NodeInfo :=
  (cluster.nodes.zipIdx.filter fun e => e.2 ≠ cluster.myNode).map Prod.fst

end TestCluster

/-! ## 2. `GlobalSynch` -/

/-- An octet of an address: up to three digits, no zero before another digit. -/
def parseOctet (s : String) : Option Nat :=
  match s.toList with
  | [] => none
  | c :: cs =>
      if (c :: cs).all Char.isDigit ∧ cs.length < 3 ∧ (c = '0' → cs = []) ∧
          Nat.ofDigitChars 10 (c :: cs) 0 < 256 then
        some (Nat.ofDigitChars 10 (c :: cs) 0)
      else none

/-- `str::parse::<Ipv4Addr>`. -/
def parseIpv4 (s : String) : Option Ipv4Addr :=
  match pieces '.' s with
  | [a, b, c, d] => do
      let a ← parseOctet a
      let b ← parseOctet b
      let c ← parseOctet c
      let d ← parseOctet d
      return UInt32.ofNat (((a * 256 + b) * 256 + c) * 256 + d)
  | _ => none

/-- `GlobalSynch`, without its timeout. -/
structure Synch where
  peers : List Ipv4Addr
  myIp : Ipv4Addr
  port : UInt16
  clock : UInt64
  knownClocks : List UInt64
  deriving DecidableEq, Repr

/-- `ip` of `with_port`; an error is the text of a panic, here and below. -/
def nodeIp (node : NodeInfo) : Except String Ipv4Addr :=
  match parseIpv4 node.ip with
  | some ip => .ok ip
  | none => .error s!"node {node.index}: bad IPv4 `{node.ip}`: invalid IPv4 address syntax"

def Synch.withPort (cluster : TestCluster) (port : UInt16) : Except String Synch := do
  let peers ← cluster.others.mapM nodeIp
  let myIp ← nodeIp (← cluster.me)
  return { peers, myIp, port, clock := 0, knownClocks := List.replicate (cluster.nodes.length - 1) 0 }

def Synch.new (cluster : TestCluster) : Except String Synch :=
  match (cluster.nodes.map (·.tcpPort)).min? with
  | none => .error "a cluster of at least one node"
  | some smallest =>
      if smallest > 1 then Synch.withPort cluster (smallest - 1)
      else .error s!"no port below the smallest node TCP port {smallest}"

/-! ## 3. `scripts/test_runner.py` -/

/-- One entry of `nodes_env`. -/
def nodeEntry (baseTcp baseRdma i : Nat) (ip : String) : String :=
  s!"{ip}:{baseTcp + i}:{baseRdma + i}"

/-- `nodes_env`: the nodes in the order of the configuration. -/
def nodesEnv (baseTcp baseRdma : Nat) (ips : List String) : String :=
  joined ',' (ips.mapIdx (nodeEntry baseTcp baseRdma))

/-! ## 4. What is read -/

/-- The spec describes the node: an address without colons, and two ports. -/
structure Describes (index : Nat) (spec : String) (node : NodeInfo) : Prop where
  fields : ∃ tcp rdma, spec = joined ':' [node.ip, tcp, rdma] ∧
    Numeral tcp node.tcpPort.toNat ∧ Numeral rdma node.rdmaPort.toNat
  ip : ':' ∉ node.ip.toList
  index : node.index = index

section Parse

variable {index : Nat} {name raw spec myNode nodes e : String} {node : NodeInfo} {port : UInt16}
variable {specs : List String} {parsed : List NodeInfo} {c : TestCluster}

theorem parsePort_ok_iff : parsePort index name raw = .ok port ↔ Numeral raw port.toNat := by
  have hbound : (0 : Nat) < 2 ^ 16 := by decide
  unfold parsePort
  cases hread : readNumeral (2 ^ 16) raw with
  | ok n =>
      obtain ⟨hnumeral, hlt⟩ := (readNumeral_ok_iff hbound).mp hread
      simp only [Except.ok.injEq]
      constructor
      · rintro rfl
        rw [UInt16.toNat_ofNat', Nat.mod_eq_of_lt hlt]
        exact hnumeral
      · intro h
        rw [hnumeral.unique h, UInt16.ofNat_toNat]
  | error why =>
      refine ⟨nofun, fun h => ?_⟩
      rw [(readNumeral_ok_iff hbound).mpr ⟨h, port.toNat_lt⟩] at hread
      cases hread

/-- **A spec is read iff it describes the node.** -/
theorem parseNode_ok_iff : parseNode index spec = .ok node ↔ Describes index spec node := by
  unfold parseNode
  constructor
  · intro h
    split at h
    · next ip tcp rdma hpieces =>
      obtain ⟨_, hfree, hspec⟩ := pieces_eq_iff.mp hpieces
      cases htcp : parsePort index "tcp" tcp with
      | error e =>
          simp only [htcp] at h
          cases h
      | ok tcpPort =>
      cases hrdma : parsePort index "rdma" rdma with
      | error e =>
          simp only [htcp, hrdma] at h
          cases h
      | ok rdmaPort =>
      simp only [htcp, hrdma] at h
      cases h
      exact ⟨⟨tcp, rdma, hspec, parsePort_ok_iff.mp htcp, parsePort_ok_iff.mp hrdma⟩,
        hfree ip (by simp), rfl⟩
    · cases h
  · rintro ⟨⟨tcp, rdma, hspec, htcp, hrdma⟩, hip, hindex⟩
    have hpieces : pieces ':' spec = [node.ip, tcp, rdma] := by
      refine pieces_eq_iff.mpr ⟨by simp, fun p hp => ?_, hspec⟩
      simp only [List.mem_cons, List.not_mem_nil, or_false] at hp
      rcases hp with rfl | rfl | rfl
      · exact hip
      · exact htcp.free (by decide) (by decide)
      · exact hrdma.free (by decide) (by decide)
    simp only [hpieces, parsePort_ok_iff.mpr htcp, parsePort_ok_iff.mpr hrdma]
    subst hindex
    rfl

/-- The specs describe the nodes, in order. -/
def DescribesAll (specs : List String) (nodes : List NodeInfo) : Prop :=
  List.Forall₂ (fun e node => Describes e.2 e.1 node) specs.zipIdx nodes

theorem parseNodes_ok_iff : parseNodes specs = .ok parsed ↔ DescribesAll specs parsed := by
  unfold parseNodes DescribesAll
  simp only [mapM_ok_iff, parseNode_ok_iff]

/-- The error is that of the first spec that is refused. -/
theorem parseNodes_error (h : parseNodes specs = .error e) :
    ∃ i spec parsed, specs[i]? = some spec ∧ DescribesAll (specs.take i) parsed ∧
      parseNode i spec = .error e := by
  obtain ⟨i, hi, herror, parsed, hparsed⟩ := mapM_error h
  have hlt : i < specs.length := by simpa using hi
  have hbefore : specs.zipIdx.take i = (specs.take i).zipIdx := by
    refine List.ext_getElem? fun j => ?_
    simp only [List.getElem?_take, List.getElem?_zipIdx]
    split <;> rfl
  rw [hbefore] at hparsed
  refine ⟨i, specs[i], parsed, List.getElem?_eq_getElem hlt, parseNodes_ok_iff.mp hparsed, ?_⟩
  simpa using herror

/-- `parse`, in terms of what it reads. -/
theorem parse_eq : TestCluster.parse myNode nodes =
    match parseNodes (pieces ',' nodes) with
    | .error e => .error e
    | .ok parsed =>
        match readNumeral wordSize myNode with
        | .error why => .error s!"bad RDMALIB_TEST_MY_NODE `{myNode}`: {intError why}"
        | .ok my =>
            if my ≥ parsed.length then
              .error s!"RDMALIB_TEST_MY_NODE={my} out of range ({parsed.length} nodes deployed)"
            else .ok ⟨my, parsed⟩ := by
  unfold TestCluster.parse
  cases hparsed : parseNodes (pieces ',' nodes) with
  | error e => rfl
  | ok parsed =>
  cases parsed with
  | nil =>
      -- a split has a first piece
      have hlength := (parseNodes_ok_iff.mp hparsed).length_eq
      simp [pieces] at hlength
  | cons node rest =>
  have hok (f : List NodeInfo → Except String TestCluster) :
      (Except.ok (node :: rest) >>= f) = f (node :: rest) := rfl
  rw [hok]
  cases readNumeral wordSize myNode with
  | error why => rfl
  | ok my =>
      by_cases hmy : my ≥ (node :: rest).length
      · simp only [if_pos hmy]
        rfl
      · simp only [if_neg hmy]
        rfl

end Parse

/-- **Which texts are read, as what, and which error is reported.** What is read are comma-separated
    specs, none of them with a comma, each of which describes a node, and a numeral below their
    number; a list without nodes cannot occur. Otherwise the error is that of the first spec that is
    refused, or, where none is, that of the index. -/
theorem parse_exact (myNode nodes : String) :
    (∀ c, TestCluster.parse myNode nodes = .ok c ↔ ∃ specs, specs ≠ [] ∧
      (∀ spec ∈ specs, ',' ∉ spec.toList) ∧ nodes = joined ',' specs ∧
      DescribesAll specs c.nodes ∧ Numeral myNode c.myNode ∧ c.myNode < wordSize ∧
      c.myNode < c.nodes.length) ∧
    ∀ e, TestCluster.parse myNode nodes = .error e →
      (∃ i spec parsed, (pieces ',' nodes)[i]? = some spec ∧
        DescribesAll ((pieces ',' nodes).take i) parsed ∧ parseNode i spec = .error e) ∨
      ∃ parsed, DescribesAll (pieces ',' nodes) parsed ∧
        ((∃ why, readNumeral wordSize myNode = .error why ∧
            e = s!"bad RDMALIB_TEST_MY_NODE `{myNode}`: {intError why}") ∨
          ∃ my, Numeral myNode my ∧ parsed.length ≤ my ∧
            e = s!"RDMALIB_TEST_MY_NODE={my} out of range ({parsed.length} nodes deployed)") := by
  have hbound : 0 < wordSize := by decide
  have hpieces {specs : List String} : pieces ',' nodes = specs ↔ specs ≠ [] ∧
      (∀ spec ∈ specs, ',' ∉ spec.toList) ∧ nodes = joined ',' specs := pieces_eq_iff
  rw [parse_eq]
  cases hparsed : parseNodes (pieces ',' nodes) with
  | error e =>
      refine ⟨fun c => ⟨nofun, ?_⟩, fun e' he => ?_⟩
      · rintro ⟨specs, hne, hfree, hnodes, hall, _⟩
        rw [hpieces.mpr ⟨hne, hfree, hnodes⟩, parseNodes_ok_iff.mpr hall] at hparsed
        cases hparsed
      · cases he
        exact Or.inl (parseNodes_error hparsed)
  | ok parsed =>
  obtain ⟨hne, hfree, hnodes⟩ := hpieces.mp rfl
  have hall := parseNodes_ok_iff.mp hparsed
  -- the specs of the text are its pieces
  have hunique {specs : List String} {nodes' : List NodeInfo} (hne : specs ≠ [])
      (hfree : ∀ spec ∈ specs, ',' ∉ spec.toList) (hnodes : nodes = joined ',' specs)
      (hall' : DescribesAll specs nodes') : nodes' = parsed := by
    rw [hpieces.mpr ⟨hne, hfree, hnodes⟩, parseNodes_ok_iff.mpr hall'] at hparsed
    exact Except.ok.inj hparsed
  cases hread : readNumeral wordSize myNode with
  | error why =>
      refine ⟨fun c => ⟨nofun, ?_⟩, fun e he => ?_⟩
      · rintro ⟨_, _, _, _, _, hmy, hlt, _⟩
        rw [(readNumeral_ok_iff hbound).mpr ⟨hmy, hlt⟩] at hread
        cases hread
      · cases he
        exact Or.inr ⟨parsed, hall, Or.inl ⟨why, rfl, rfl⟩⟩
  | ok my =>
      obtain ⟨hmy, hlt⟩ := (readNumeral_ok_iff hbound).mp hread
      by_cases hrange : my ≥ parsed.length
      · simp only [if_pos hrange]
        refine ⟨fun c => ⟨nofun, ?_⟩, fun e he => ?_⟩
        · rintro ⟨specs, hne', hfree', hnodes', hall', hmy', _, hlt'⟩
          rw [hunique hne' hfree' hnodes' hall', hmy'.unique hmy] at hlt'
          omega
        · cases he
          exact Or.inr ⟨parsed, hall, Or.inr ⟨my, hmy, hrange, rfl⟩⟩
      · simp only [if_neg hrange]
        refine ⟨fun c => ⟨?_, ?_⟩, nofun⟩
        · intro he
          cases he
          exact ⟨pieces ',' nodes, hne, hfree, hnodes, hall, hmy, hlt, Nat.not_le.mp hrange⟩
        · rintro ⟨specs, hne', hfree', hnodes', hall', hmy', _, _⟩
          obtain ⟨my', nodes'⟩ := c
          rw [show nodes' = parsed from hunique hne' hfree' hnodes' hall',
            show my' = my from hmy'.unique hmy]

/-! ## 5. What each node builds -/

section New

variable {c : TestCluster} {s : Synch} {as : List Ipv4Addr} {infos : List NodeInfo} {i : Nat}

theorem filter_ne_eraseIdx {α : Type} (xs : List α) (k i : Nat) :
    ((xs.zipIdx k).filter fun e => e.2 ≠ k + i).map Prod.fst = xs.eraseIdx i := by
  induction xs generalizing k i with
  | nil => simp
  | cons x xs ih =>
      cases i with
      | zero =>
          have hrest : (xs.zipIdx (k + 1)).filter (fun e => e.2 ≠ k + 0) = xs.zipIdx (k + 1) := by
            refine List.filter_eq_self.mpr fun e he => ?_
            have hle := (List.mem_zipIdx he).1
            simp
            omega
          rw [List.zipIdx_cons, List.filter_cons_of_neg (by simp), hrest, List.eraseIdx_cons_zero]
          simp
      | succ i =>
          have hih := ih (k + 1) i
          rw [List.zipIdx_cons, List.filter_cons_of_pos (by simp), List.eraseIdx_cons_succ, List.map_cons,
            ← hih]
          simp only [Nat.add_assoc, Nat.add_comm 1 i]

theorem others_eq (c : TestCluster) : c.others = c.nodes.eraseIdx c.myNode := by
  have h := filter_ne_eraseIdx c.nodes 0 c.myNode
  simpa [TestCluster.others] using h

/-- The addresses of the nodes, in cluster order. -/
def Addresses (infos : List NodeInfo) (as : List Ipv4Addr) : Prop :=
  infos.map (fun node => parseIpv4 node.ip) = as.map some

theorem Addresses.length (h : Addresses infos as) : infos.length = as.length := by
  have hlengths := congrArg List.length h
  simpa using hlengths

theorem Addresses.unique {as' : List Ipv4Addr} (h : Addresses infos as) (h' : Addresses infos as') :
    as = as' := by
  have hmaps : as.map some = as'.map some := h.symm.trans h'
  exact List.map_injective_iff.mpr (Option.some_injective _) hmaps

/-- The nodes' addresses are known iff each of them is an IPv4 address. -/
theorem addresses_iff :
    (∃ as, Addresses infos as) ↔ ∀ node ∈ infos, (parseIpv4 node.ip).isSome = true := by
  unfold Addresses
  constructor
  · rintro ⟨as, h⟩ node hnode
    have hmem := List.mem_map_of_mem (f := fun node => parseIpv4 node.ip) hnode
    rw [h] at hmem
    obtain ⟨a, _, ha⟩ := List.mem_map.mp hmem
    rw [← ha]
    rfl
  · intro h
    refine ⟨infos.map fun node => (parseIpv4 node.ip).getD 0, ?_⟩
    rw [List.map_map]
    refine List.map_congr_left fun node hnode => ?_
    obtain ⟨a, ha⟩ := Option.isSome_iff_exists.mp (h node hnode)
    simp [ha]

theorem nodeIp_ok_iff {node : NodeInfo} {a : Ipv4Addr} :
    nodeIp node = .ok a ↔ parseIpv4 node.ip = some a := by
  unfold nodeIp
  cases parseIpv4 node.ip <;> simp

theorem addresses_ok_iff : infos.mapM nodeIp = .ok as ↔ Addresses infos as := by
  unfold Addresses
  simp only [mapM_ok_iff, nodeIp_ok_iff]
  rw [← List.forall₂_eq_eq_eq, List.forall₂_map_left_iff, List.forall₂_map_right_iff]

/-- What `with_port` builds for a node of the cluster. -/
theorem withPort_ok_iff {port : UInt16} (hmy : c.myNode < c.nodes.length) :
    Synch.withPort c port = .ok s ↔ ∃ as a, Addresses c.nodes as ∧ as[c.myNode]? = some a ∧
      s = ⟨others as c.myNode, a, port, 0, List.replicate (c.nodes.length - 1) 0⟩ := by
  have hme : c.me = .ok c.nodes[c.myNode] := by simp [TestCluster.me, hmy]
  unfold Synch.withPort
  rw [others_eq, hme]
  constructor
  · intro h
    cases hpeers : (c.nodes.eraseIdx c.myNode).mapM nodeIp with
    | error e =>
        rw [hpeers] at h
        cases h
    | ok peers =>
    rw [hpeers] at h
    cases hip : nodeIp c.nodes[c.myNode] with
    | error e =>
        simp only [bind, Except.bind, hip] at h
        cases h
    | ok a =>
    simp only [bind, Except.bind, hip] at h
    cases h
    have hpeers := addresses_ok_iff.mp hpeers
    have hip := nodeIp_ok_iff.mp hip
    -- each node is this one or one of the others
    obtain ⟨as, has⟩ := addresses_iff.mpr fun node hnode => by
      obtain ⟨j, hj, rfl⟩ := List.mem_iff_getElem.mp hnode
      by_cases hsame : j = c.myNode
      · subst hsame
        rw [hip]
        rfl
      · refine addresses_iff.mp ⟨peers, hpeers⟩ _ ?_
        exact List.mem_eraseIdx_iff_getElem.mpr ⟨j, hj, hsame, rfl⟩
    refine ⟨as, a, has, ?_, ?_⟩
    · have hget := congrArg (fun l => l[c.myNode]?) has
      simpa [hmy, hip, eq_comm] using hget
    · have herase : Addresses (c.nodes.eraseIdx c.myNode) (as.eraseIdx c.myNode) := by
        unfold Addresses at has ⊢
        rw [← List.eraseIdx_map, has, List.eraseIdx_map]
      rw [hpeers.unique herase]
      rfl
  · rintro ⟨as, a, has, ha, rfl⟩
    have hpeers : (c.nodes.eraseIdx c.myNode).mapM nodeIp = .ok (others as c.myNode) := by
      refine addresses_ok_iff.mpr ?_
      unfold Addresses others at *
      rw [← List.eraseIdx_map, has, List.eraseIdx_map]
    have hip : nodeIp c.nodes[c.myNode] = .ok a := by
      refine nodeIp_ok_iff.mpr ?_
      have hget := congrArg (fun l => l[c.myNode]?) has
      simpa [hmy, ha] using hget
    rw [hpeers]
    simp only [bind, Except.bind, hip]
    rfl

theorem new_ok_iff (hmy : c.myNode < c.nodes.length) : Synch.new c = .ok s ↔
    ∃ as a smallest, Addresses c.nodes as ∧ as[c.myNode]? = some a ∧ 1 < smallest ∧
      smallest ∈ c.nodes.map (·.tcpPort) ∧ (∀ port ∈ c.nodes.map (·.tcpPort), smallest ≤ port) ∧
      s = ⟨others as c.myNode, a, smallest - 1, 0, List.replicate (c.nodes.length - 1) 0⟩ := by
  unfold Synch.new
  cases hmin : (c.nodes.map (·.tcpPort)).min? with
  | none =>
      rw [List.min?_eq_none_iff, List.map_eq_nil_iff] at hmin
      simp [hmin] at hmy
  | some smallest =>
  have hleast := List.min?_eq_some_iff.mp hmin
  have hunique {port : UInt16} (hmem : port ∈ c.nodes.map (·.tcpPort))
      (hle : ∀ port' ∈ c.nodes.map (·.tcpPort), port ≤ port') : port = smallest := by
    have hmin' := List.min?_eq_some_iff.mpr ⟨hmem, hle⟩
    exact Option.some.inj (hmin'.symm.trans hmin)
  by_cases hone : smallest > 1
  · simp only [if_pos hone, withPort_ok_iff hmy]
    constructor
    · rintro ⟨as, a, has, ha, rfl⟩
      exact ⟨as, a, smallest, has, ha, hone, hleast.1, hleast.2, rfl⟩
    · rintro ⟨as, a, port, has, ha, _, hmem, hle, rfl⟩
      rw [hunique hmem hle]
      exact ⟨as, a, has, ha, rfl⟩
  · simp only [if_neg hone]
    refine ⟨nofun, ?_⟩
    rintro ⟨_, _, port, _, _, hport, hmem, hle, _⟩
    rw [hunique hmem hle] at hport
    exact absurd hport hone

/-- **What each node builds.** A node of a cluster builds a barrier iff every node has an IPv4
    address and a TCP port that leaves one below it. It then listens at its own address, below the
    TCP ports of all nodes, on the same port as they; its peers are the other nodes in cluster
    order; and it is as the barrier of these addresses starts. -/
theorem new_exact (hmy : c.myNode < c.nodes.length) :
    ((∃ s, Synch.new c = .ok s) ↔
      ∀ node ∈ c.nodes, 1 < node.tcpPort ∧ (parseIpv4 node.ip).isSome = true) ∧
    ∀ s, Synch.new c = .ok s →
      (∃ as, Addresses c.nodes as ∧ as[c.myNode]? = some s.myIp ∧ s.peers = others as c.myNode ∧
        s.clock = ((start as).world.nodes c.myNode).clock ∧
        s.knownClocks = ((start as).world.nodes c.myNode).knownClocks) ∧
      (∀ node ∈ c.nodes, s.port < node.tcpPort) ∧
      ∀ my < c.nodes.length, ∀ s', Synch.new { c with myNode := my } = .ok s' → s'.port = s.port := by
  refine ⟨⟨?_, fun h => ?_⟩, fun s hs => ?_⟩
  · rintro ⟨s, hs⟩
    obtain ⟨as, a, smallest, has, _, hone, _, hle, _⟩ := (new_ok_iff hmy).mp hs
    refine fun node hnode => ⟨?_, addresses_iff.mp ⟨as, has⟩ node hnode⟩
    exact UInt16.lt_of_lt_of_le hone (hle _ (List.mem_map_of_mem hnode))
  · obtain ⟨as, has⟩ := addresses_iff.mpr fun node hnode => (h node hnode).2
    cases hmin : (c.nodes.map (·.tcpPort)).min? with
    | none =>
        rw [List.min?_eq_none_iff, List.map_eq_nil_iff] at hmin
        simp [hmin] at hmy
    | some smallest =>
        obtain ⟨hmem, hle⟩ := List.min?_eq_some_iff.mp hmin
        obtain ⟨node, hnode, hport⟩ := List.mem_map.mp hmem
        have hlt : c.myNode < as.length := by rwa [← has.length]
        exact ⟨_, (new_ok_iff hmy).mpr ⟨as, as[c.myNode], smallest, has, by simp [hlt],
          hport ▸ (h node hnode).1, hmem, hle, rfl⟩⟩
  · obtain ⟨as, a, smallest, has, ha, hone, hmem, hle, rfl⟩ := (new_ok_iff hmy).mp hs
    refine ⟨⟨as, has, ha, rfl, rfl, ?_⟩, fun node hnode => ?_, fun my hmy' s' hs' => ?_⟩
    · rw [has.length]
      rfl
    · have hport := hle _ (List.mem_map_of_mem hnode)
      rw [UInt16.lt_iff_toNat_lt] at hone ⊢
      rw [UInt16.le_iff_toNat_le] at hport
      have hone : 1 < smallest.toNat := hone
      have hsub : (smallest - 1).toNat = smallest.toNat - 1 :=
        UInt16.toNat_sub_of_le _ _ (UInt16.le_iff_toNat_le.mpr (show 1 ≤ smallest.toNat by omega))
      rw [hsub]
      omega
    · obtain ⟨_, _, smallest', _, _, _, hmem', hle', rfl⟩ := (new_ok_iff hmy').mp hs'
      have hsame : smallest' = smallest := UInt16.le_antisymm (hle' _ hmem) (hle _ hmem')
      rw [hsame]

/-- Two nodes of one machine. -/
def pairOfNodes : TestCluster :=
  ⟨0, [⟨0, "127.0.0.1", 18100, 19100⟩, ⟨1, "127.0.0.2", 18101, 19101⟩]⟩

theorem new_exact_pair : ∃ s, Synch.new pairOfNodes = .ok s ∧
    ∀ node ∈ pairOfNodes.nodes, s.port < node.tcpPort := by
  have hmy : pairOfNodes.myNode < pairOfNodes.nodes.length := by decide
  obtain ⟨s, hs⟩ := (new_exact hmy).1.mpr (by decide)
  exact ⟨s, hs, ((new_exact hmy).2 s hs).2.1⟩

end New

/-! ## 6. From the runner to the barrier -/

section Runner

variable {baseTcp baseRdma i : Nat} {ip : String} {ips : List String} {as : List Ipv4Addr} {sep : Char}

theorem parseOctet_digits {s : String} {n : Nat} (h : parseOctet s = some n) :
    ∀ ch ∈ s.toList, ch.isDigit = true := by
  unfold parseOctet at h
  split at h
  · cases h
  · next ch chs hs =>
    split at h
    · next hc => simpa [hs] using hc.1
    · cases h

/-- The characters of an address. -/
theorem ipv4_free {a : Ipv4Addr} (h : parseIpv4 ip = some a) (hdigit : sep.isDigit = false)
    (hdot : sep ≠ '.') : sep ∉ ip.toList := by
  have hfree {s : String} {n : Nat} (hs : parseOctet s = some n) : sep ∉ s.toList := fun hmem => by
    rw [parseOctet_digits hs sep hmem] at hdigit
    cases hdigit
  unfold parseIpv4 at h
  split at h
  · next a b c d hpieces =>
    simp only [Option.bind_eq_bind, Option.bind_eq_some_iff] at h
    obtain ⟨_, ha, _, hb, _, hc, _, hd, _⟩ := h
    rw [(pieces_eq_iff.mp hpieces).2.2, toList_joined]
    simp [List.intercalate, hfree ha, hfree hb, hfree hc, hfree hd, hdot]
  · cases h

theorem toList_nodeEntry : (nodeEntry baseTcp baseRdma i ip).toList =
    ip.toList ++ ':' :: (toString (baseTcp + i)).toList ++ ':' :: (toString (baseRdma + i)).toList := by
  have hentry : nodeEntry baseTcp baseRdma i ip =
      ip ++ ":" ++ toString (baseTcp + i) ++ ":" ++ toString (baseRdma + i) := rfl
  rw [hentry]
  simp

/-- The node of an entry. -/
def nodeOf (baseTcp baseRdma i : Nat) (ip : String) : NodeInfo :=
  ⟨i, ip, UInt16.ofNat (baseTcp + i), UInt16.ofNat (baseRdma + i)⟩

/-- What the runner writes for a node describes it. -/
theorem nodeEntry_describes (hip : ':' ∉ ip.toList) (htcp : baseTcp + i < 2 ^ 16)
    (hrdma : baseRdma + i < 2 ^ 16) :
    Describes i (nodeEntry baseTcp baseRdma i ip) (nodeOf baseTcp baseRdma i ip) := by
  have hport {n : Nat} (hn : n < 2 ^ 16) : Numeral (toString n) (UInt16.ofNat n).toNat := by
    rw [UInt16.toNat_ofNat', Nat.mod_eq_of_lt hn]
    exact numeral_toString n
  refine ⟨⟨toString (baseTcp + i), toString (baseRdma + i), ?_, hport htcp, hport hrdma⟩, hip, rfl⟩
  refine String.toList_injective ?_
  rw [toList_nodeEntry, toList_joined]
  simp [nodeOf, List.intercalate]

/-- **The runner's text is read back**, on each node it deploys on. -/
theorem parse_nodesEnv (hips : ∀ ip ∈ ips, ':' ∉ ip.toList ∧ ',' ∉ ip.toList)
    (htcp : baseTcp + ips.length ≤ 2 ^ 16) (hrdma : baseRdma + ips.length ≤ 2 ^ 16)
    (hi : i < ips.length) :
    TestCluster.parse (toString i) (nodesEnv baseTcp baseRdma ips) =
      .ok ⟨i, ips.mapIdx (nodeOf baseTcp baseRdma)⟩ := by
  have hpieces : pieces ',' (nodesEnv baseTcp baseRdma ips) =
      ips.mapIdx (nodeEntry baseTcp baseRdma) := by
    refine pieces_eq_iff.mpr ⟨?_, fun spec hspec => ?_, rfl⟩
    · intro hnil
      rw [List.mapIdx_eq_nil_iff] at hnil
      simp [hnil] at hi
    · obtain ⟨j, hj, rfl⟩ := List.mem_mapIdx.mp hspec
      have hfree {n : Nat} : ',' ∉ (toString n).toList :=
        (numeral_toString n).free (by decide) (by decide)
      rw [toList_nodeEntry]
      simp only [List.mem_append, List.mem_cons, not_or]
      exact ⟨⟨(hips _ (List.getElem_mem hj)).2, by decide, hfree⟩, by decide, hfree⟩
  have hall : DescribesAll (ips.mapIdx (nodeEntry baseTcp baseRdma))
      (ips.mapIdx (nodeOf baseTcp baseRdma)) := by
    refine List.forall₂_iff_get.mpr ⟨by simp, fun j hj hj' => ?_⟩
    have hlt : j < ips.length := by simpa using hj'
    simp only [List.get_eq_getElem, List.getElem_zipIdx, List.getElem_mapIdx, Nat.zero_add]
    exact nodeEntry_describes (hips _ (List.getElem_mem hlt)).1 (by omega) (by omega)
  have hword : 2 ^ 16 ≤ wordSize := by decide
  have hread : readNumeral wordSize (toString i) = .ok i :=
    (readNumeral_ok_iff (by decide)).mpr ⟨numeral_toString i, by omega⟩
  rw [parse_eq, hpieces, parseNodes_ok_iff.mpr hall]
  simp only [hread, List.length_mapIdx]
  rw [if_neg (Nat.not_le.mpr hi)]

/-- **From the runner to the barrier.** Wherever the runner deploys on nodes with IPv4 addresses and
    has ports for all of them, with one below the first TCP port: every node reads its own index and
    the same nodes, and builds the barrier of their addresses as it starts, listening at its own
    address on the port below the first TCP port. -/
theorem deployed_barrier (haddresses : ips.map parseIpv4 = as.map some) (hfirst : 1 < baseTcp)
    (htcp : baseTcp + ips.length ≤ 2 ^ 16) (hrdma : baseRdma + ips.length ≤ 2 ^ 16)
    (hi : i < ips.length) :
    ∃ c s, TestCluster.parse (toString i) (nodesEnv baseTcp baseRdma ips) = .ok c ∧
      c.myNode = i ∧ c.nodes = ips.mapIdx (nodeOf baseTcp baseRdma) ∧ Synch.new c = .ok s ∧
      s.port.toNat + 1 = baseTcp ∧ as[i]? = some s.myIp ∧ s.peers = others as i ∧
      s.clock = ((start as).world.nodes i).clock ∧
      s.knownClocks = ((start as).world.nodes i).knownClocks := by
  have hips : ∀ ip ∈ ips, ':' ∉ ip.toList ∧ ',' ∉ ip.toList := fun ip hip => by
    have hmem := List.mem_map_of_mem (f := parseIpv4) hip
    rw [haddresses] at hmem
    obtain ⟨a, _, ha⟩ := List.mem_map.mp hmem
    exact ⟨ipv4_free ha.symm (by decide) (by decide), ipv4_free ha.symm (by decide) (by decide)⟩
  have hlength : ips.length = as.length := by
    have hlengths := congrArg List.length haddresses
    simpa using hlengths
  have has : Addresses (ips.mapIdx (nodeOf baseTcp baseRdma)) as := by
    unfold Addresses
    rw [← haddresses]
    refine List.ext_getElem (by simp) fun j hj hj' => ?_
    simp [nodeOf]
  have hport {j : Nat} (hj : j < ips.length) : (UInt16.ofNat (baseTcp + j)).toNat = baseTcp + j := by
    rw [UInt16.toNat_ofNat', Nat.mod_eq_of_lt (by omega)]
  have hbase : (UInt16.ofNat baseTcp).toNat = baseTcp := by
    rw [UInt16.toNat_ofNat', Nat.mod_eq_of_lt (by omega)]
  have hone : 1 < UInt16.ofNat baseTcp := by
    rw [UInt16.lt_iff_toNat_lt, hbase]
    exact hfirst
  have hmy : i < (ips.mapIdx (nodeOf baseTcp baseRdma)).length := by simpa using hi
  refine ⟨_, _, parse_nodesEnv hips htcp hrdma hi, rfl, rfl,
    (new_ok_iff hmy).mpr ⟨as, as[i], UInt16.ofNat baseTcp, has, by simp, hone, ?_, fun port hmem => ?_,
      rfl⟩, ?_, by simp, rfl, rfl, ?_⟩
  · have hzero : 0 < ips.length := by omega
    refine List.mem_map.mpr ⟨nodeOf baseTcp baseRdma 0 ips[0], ?_, rfl⟩
    exact List.mem_mapIdx.mpr ⟨0, hzero, rfl⟩
  · obtain ⟨node, hnode, rfl⟩ := List.mem_map.mp hmem
    obtain ⟨j, hj, rfl⟩ := List.mem_mapIdx.mp hnode
    rw [UInt16.le_iff_toNat_le, hbase]
    show baseTcp ≤ (UInt16.ofNat (baseTcp + j)).toNat
    rw [hport hj]
    omega
  · have hsub : (UInt16.ofNat baseTcp - 1).toNat = (UInt16.ofNat baseTcp).toNat - 1 := by
      refine UInt16.toNat_sub_of_le _ _ (UInt16.le_iff_toNat_le.mpr ?_)
      show 1 ≤ (UInt16.ofNat baseTcp).toNat
      omega
    rw [hsub, hbase]
    omega
  · rw [List.length_mapIdx, hlength]
    rfl

/-- The first two nodes of the test configuration. -/
def testIps : List String := ["192.168.4.1", "192.168.4.3"]

def testAddresses : List Ipv4Addr := [3232236545, 3232236547]

theorem deployed_barrier_test : ∃ c s, TestCluster.parse (toString 1) (nodesEnv 8100 9100 testIps) = .ok c ∧
    Synch.new c = .ok s ∧ s.port.toNat + 1 = 8100 ∧ s.peers = [3232236545] := by
  have haddresses : testIps.map parseIpv4 = testAddresses.map some := by decide
  obtain ⟨c, s, hparse, _, _, hnew, hport, _, hpeers, _⟩ := deployed_barrier (i := 1) haddresses
    (show 1 < 8100 by decide) (show 8100 + 2 ≤ 2 ^ 16 by decide) (show 9100 + 2 ≤ 2 ^ 16 by decide)
    (show 1 < 2 by decide)
  exact ⟨c, s, hparse, hnew, hport, hpeers⟩

end Runner

end Rdmalib.GlobalSynch
