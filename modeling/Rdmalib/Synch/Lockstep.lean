/-
  File:      Rdmalib/Synch/Lockstep.lean
  Subject:   How far apart the nodes of a cluster get, and what a node that gives up reports.

  * `unfailing` -- the barrier whose calls of `synch` return no error;
  * `Kept` -- the calls of a node before its present one have returned `Ok`;
  * `waiting` -- the peers that `bail_out` names, each with its line;
  * results: no node gets more than one round ahead of another, and two nodes that are outside of
    the barrier are in one phase (`lockstep`); the report of `bail_out` names every peer that has yet
    to enter the round, and only clocks that its peers have had (`bail_out_names`).
-/
import Rdmalib.Synch.Cluster
import Rdmalib.Synch.Rounds

namespace Rdmalib.GlobalSynch

open Base
open Function (update)

/-! ## 1. Calls that return no error -/

/-- A node can listen when it enters a round. -/
def Unfailing (_ : Tid) (o : Op) (_ : World) (_ : o.Ans) : Prop := o ≠ .returned false

def unfailing (cluster : List Ipv4Addr) : System Tid Op World Loop Op.Ans :=
  (barrier cluster).restrict Unfailing

/-- **Every call that is over has returned `Ok`.** -/
def Kept (w : World) (know : Tid → Know) : Prop :=
  ∀ i r, 0 < r →
    r < (w.nodes i).entered ∨ (r = (w.nodes i).entered ∧ (know (.main i)).stage = .outside) →
      (i, r) ∈ w.returns

section Step

variable {cluster : List Ipv4Addr} {t : Tid} {w : World} {know : Tid → Know} {o : Op} {a : o.Ans}
variable {i : NodeId} {k : Know}

/-- A call is counted when it begins. -/
theorem entered_post : ((post cluster t o a w).nodes i).entered =
    if i = t.node ∧ o = .callSynch then (w.nodes i).entered + 1 else (w.nodes i).entered := by
  rw [node_post Node.entered (fun _ _ => rfl)]
  by_cases hi : i = t.node
  · rw [if_pos hi]
    cases o with
    | callSynch => simp [hi, nodePost]
    | bind | accept | tryRecv | raiseClock => cases a <;> simp [nodePost]
    | _ => simp [nodePost]
  · rw [if_neg hi, if_neg fun h => hi h.1]

/-- What has returned stays so. -/
theorem returns_post {e : NodeId × Nat} (he : e ∈ w.returns) : e ∈ (post cluster t o a w).returns := by
  cases o with
  | returned ok =>
      cases ok with
      | true => exact List.mem_append_left _ he
      | false => exact he
  | accept | connect => cases a <;> exact he
  | _ => exact he

/-- A main thread gets outside by returning. -/
theorem outside_of_next (h : (mainNext k o a).stage = .outside) :
    (∃ ok, o = .returned ok) ∨ (k.stage = .outside ∧ o ≠ .callSynch) := by
  cases o with
  | returned ok => exact Or.inl ⟨ok, rfl⟩
  | callSynch | spawn | join => cases h
  | raiseClock =>
      cases a with
      | none => exact Or.inr ⟨h, nofun⟩
      | some clock => cases h
  | connect | readExact | setTimeouts => cases a <;> exact Or.inr ⟨h, nofun⟩
  | writeAll c bytes =>
      obtain ⟨r, n⟩ := a
      cases r <;> exact Or.inr ⟨h, nofun⟩
  | _ => exact Or.inr ⟨h, nofun⟩

/-- **One step.** -/
theorem Kept.step (hrole : (know t).role = t) (h : Kept w know)
    (hmay : (protocol cluster).may (know t) o) (hok : o ≠ .returned false) :
    Kept (post cluster t o a w) (learnt cluster know t o a) := by
  intro i r hr hover
  rw [entered_post] at hover
  -- a thread other than the node's main thread changes neither the count nor the stage
  have hother (hi : t ≠ .main i) : (i, r) ∈ (post cluster t o a w).returns := by
    have hcount : ¬ (i = t.node ∧ o = .callSynch) := by
      rintro ⟨rfl, rfl⟩
      cases t with
      | main j => exact hi rfl
      | responder j => exact ((protocol_responder hrole .callSynch).1.mp hmay).elim
    rw [if_neg hcount, learnt_of_ne (Ne.symm hi)] at hover
    exact returns_post (h i r hr hover)
  by_cases ht : t = .main i
  · subst ht
    have hmay := (protocol_main hrole o).1.mp hmay
    have hnext : learnt cluster know (.main i) o a (.main i) = mainNext (know (.main i)) o a :=
      (Function.update_self _ _ _).trans ((protocol_main hrole o).2 a)
    rw [hnext] at hover
    by_cases hcall : o = .callSynch
    · -- the call before this one is over
      subst hcall
      have hstage : (know (.main i)).stage = .outside := hmay
      rw [if_pos ⟨rfl, rfl⟩] at hover
      rcases hover with hlt | ⟨_, hout⟩
      · refine returns_post (h i r hr ?_)
        rcases Nat.lt_succ_iff_lt_or_eq.mp hlt with hlt | heq
        · exact Or.inl hlt
        · exact Or.inr ⟨heq, hstage⟩
      · cases hout
    · rw [if_neg fun hc => hcall hc.2] at hover
      rcases hover with hlt | ⟨rfl, hout⟩
      · exact returns_post (h i r hr (Or.inl hlt))
      · rcases outside_of_next hout with ⟨ok, rfl⟩ | ⟨hout, _⟩
        · obtain rfl : ok = true := by simpa using hok
          have hsame : ((w.modifyNode i (nodePost (.returned true) a)).nodes i).entered =
              (w.nodes i).entered := by
            show (update w.nodes i _ i).entered = _
            rw [Function.update_self]
            rfl
          show (i, (w.nodes i).entered) ∈ w.returns ++ [(i, _)]
          rw [← hsame]
          exact List.mem_append_right _ (List.mem_singleton.mpr rfl)
        · exact returns_post (h i _ hr (Or.inr ⟨rfl, hout⟩))
  · exact hother ht

end Step

/-! ## 2. One round apart -/

/-- Node `i` is between its `r`-th call of `synch` and the next. -/
def Between (w : World) (i : NodeId) (r : Nat) : Prop :=
  (w.nodes i).entered = r ∧ (r = 0 ∨ (i, r) ∈ w.returns)

/-- **The nodes are in step**: none is more than one round ahead of another, and those that are
    outside of the barrier are in the same phase. -/
structure InStep (cluster : List Ipv4Addr) (w : World) : Prop where
  apart : ∀ i < cluster.length, ∀ j < cluster.length, (w.nodes i).entered ≤ (w.nodes j).entered + 1
  phases : ∀ i < cluster.length, ∀ j < cluster.length, ∀ r s, Between w i r → Between w j s → r = s

section Runs

variable {cluster : List Ipv4Addr} {c : Config Tid Op World Loop Op.Ans}

theorem kept_first : Kept (firstWorld cluster) firstKnow := by
  intro i r hr hover
  rcases hover with hlt | ⟨rfl, _⟩
  · exact absurd hlt (Nat.not_lt_zero r)
  · exact absurd hr (Nat.lt_irrefl 0)

/-- In runs without errors all is known of the rounds, and every call that is over returned `Ok`. -/
theorem kept_of_reach (hdistinct : cluster.Nodup)
    (hreach : (unfailing cluster).Reach (start cluster) c) :
    ∃ know, Reached cluster c.world know ∧ Kept c.world know := by
  obtain ⟨know, hw⟩ := hreach.watched (protocol cluster) firstKnow
  refine ⟨know, hw.invariant ((barrier_follows cluster).restrict Unfailing) entry_firstKnow
    (I := fun w know => Reached cluster w know ∧ Kept w know) ⟨reached_first, kept_first⟩
    fun _ h t o a hmay hcan => ?_⟩
  exact ⟨h.1.step hdistinct t o a hmay hcan.1, h.2.step (h.1.roles t) hmay hcan.2⟩

/-- A call that has returned `Ok` has been entered by all. -/
theorem Reached.entered {w : World} {know : Tid → Know} (h : Reached cluster w know) {i j : NodeId}
    {r : Nat} (hreturned : (i, r) ∈ w.returns) (hj : j < cluster.length) (hne : j ≠ i) :
    r ≤ (w.nodes j).entered := by
  rw [(h.agree j).entered]
  exact (h.sound.returns _ hreturned j hj hne).trans (Nat.le_add_right _ _)

/-- **The barrier holds the nodes in step**, whatever exchanges fail and however the nodes are
    scheduled, as long as each can listen when it enters a round. -/
theorem lockstep (hdistinct : cluster.Nodup) (hreach : (unfailing cluster).Reach (start cluster) c) :
    InStep cluster c.world := by
  obtain ⟨know, h, hkept⟩ := kept_of_reach hdistinct hreach
  have hphase {i j : NodeId} {r s : Nat} (hj : j < cluster.length) (hi : Between c.world i r)
      (hs : Between c.world j s) : r ≤ s := by
    rcases hi.2 with rfl | hreturned
    · exact Nat.zero_le s
    · by_cases hij : j = i
      · subst hij
        exact (hi.1.symm.trans hs.1).le
      · exact hs.1 ▸ h.entered hreturned hj hij
  refine ⟨fun i hi j hj => ?_, fun i hi j hj r s hr hs => ?_⟩
  · by_cases hij : j = i
    · subst hij
      omega
    · rcases Nat.lt_or_ge 1 (c.world.nodes i).entered with hlt | hle
      · -- the call of `i` before its present one has returned
        have hreturned := hkept i ((c.world.nodes i).entered - 1) (by omega) (Or.inl (by omega))
        have := h.entered hreturned hj hij
        omega
      · omega
  · exact Nat.le_antisymm (hphase hj hr hs) (hphase hi hs hr)

end Runs

/-- In a cluster of two, both nodes enter a round, the first leaves it and enters the next one. -/
def oneAhead : List Move :=
  enters [1, 2] 0 ++ enters [1, 2] 1 ++ exchanges [1, 2] 0 1 ++ leaves [1, 2] 0 ++ enters [1, 2] 0

section Play

variable {cluster : List Ipv4Addr}

instance (t : Tid) (o : Op) (w : World) (a : o.Ans) : Decidable (Unfailing t o w a) :=
  inferInstanceAs (Decidable (¬ _))

instance (t : Tid) (o : Op) (w : World) (a : o.Ans) : Decidable ((unfailing cluster).can t o w a) :=
  inferInstanceAs (Decidable (_ ∧ _))

end Play

theorem lockstep_ahead : ∃ c, (unfailing [1, 2]).Reach (start [1, 2]) c ∧
    (c.world.nodes 0).entered = 2 ∧ (c.world.nodes 1).entered = 1 ∧ InStep [1, 2] c.world := by
  have hplay : (((unfailing [1, 2]).play (start [1, 2]) oneAhead).map fun c =>
      decide ((c.world.nodes 0).entered = 2 ∧ (c.world.nodes 1).entered = 1)) = some true := by
    decide +kernel
  obtain ⟨c, hc, hends⟩ := Option.map_eq_some_iff.mp hplay
  obtain ⟨hfirst, hsecond⟩ := of_decide_eq_true hends
  have hreach := System.play_reach hc
  exact ⟨c, hreach, hfirst, hsecond, lockstep (by decide) hreach⟩

/-! ## 3. `bail_out` -/

/-- `Display` of an `Ipv4Addr`. -/
def showIpv4 (ip : Ipv4Addr) : String :=
  joined '.' [toString (ip.toNat / 2 ^ 24), toString (ip.toNat / 2 ^ 16 % 256),
    toString (ip.toNat / 2 ^ 8 % 256), toString (ip.toNat % 256)]

/-- The line of a peer in `bail_out`, by the last clock heard from it. -/
def missingLine (peer : Ipv4Addr) (known : UInt64) : String :=
  if known = 0 then s!"{showIpv4 peer} (never heard from)"
  else s!"{showIpv4 peer} (last clock {known})"

/-- `waiting` of `bail_out`. -/
def waiting (peers : List Ipv4Addr) (knownClocks : List UInt64) (round : UInt64) : List String :=
  ((peers.zip knownClocks).filter fun e => e.2 < round).map fun e => missingLine e.1 e.2

/-- What `bail_out` prints; `timeout` is the timeout as it is printed. -/
def Synch.bailOut (s : Synch) (timeout : String) (round : UInt64) : String :=
  let missing := ", ".intercalate (waiting s.peers s.knownClocks round)
  s!"GlobalSynch: barrier {round} on {showIpv4 s.myIp}:{s.port} did not resolve within {timeout
    }; still waiting for: {missing}. A node may have crashed or be stuck; exiting."

section Report

variable {cluster : List Ipv4Addr} {c : Config Tid Op World Loop Op.Ans} {ip ip' : Ipv4Addr}
variable {known known' round : UInt64}

theorem parseOctet_toString {n : Nat} (hn : n < 256) : parseOctet (toString n) = some n := by
  revert n
  decide +kernel

/-- **What is shown of an address is that address.** -/
theorem parseIpv4_showIpv4 (ip : Ipv4Addr) : parseIpv4 (showIpv4 ip) = some ip := by
  have hlt : ip.toNat < 2 ^ 32 := ip.toNat_lt
  have hfree (n : Nat) : '.' ∉ (toString n).toList := (numeral_toString n).free (by decide) (by decide)
  have hpieces : pieces '.' (showIpv4 ip) = [toString (ip.toNat / 2 ^ 24),
      toString (ip.toNat / 2 ^ 16 % 256), toString (ip.toNat / 2 ^ 8 % 256),
      toString (ip.toNat % 256)] := by
    refine pieces_eq_iff.mpr ⟨by simp, fun s hs => ?_, rfl⟩
    simp only [List.mem_cons, List.not_mem_nil, or_false] at hs
    rcases hs with rfl | rfl | rfl | rfl <;> exact hfree _
  unfold parseIpv4
  rw [hpieces]
  simp only [parseOctet_toString (show ip.toNat / 2 ^ 24 < 256 by omega),
    parseOctet_toString (Nat.mod_lt _ (show 0 < 256 by decide)), Option.bind_eq_bind, Option.bind_some]
  refine congrArg some (UInt32.toNat_inj.mp ?_)
  rw [UInt32.toNat_ofNat']
  omega

/-- What a line says of the clock of its peer. -/
def clockText (known : UInt64) : List Char :=
  if known = 0 then "(never heard from)".toList
  else "(last clock ".toList ++ ((toString known).toList ++ [')'])

theorem toList_missingLine (ip : Ipv4Addr) (known : UInt64) :
    (missingLine ip known).toList = (showIpv4 ip).toList ++ ' ' :: clockText known := by
  unfold missingLine clockText
  by_cases hknown : known = 0
  · rw [if_pos hknown, if_pos hknown]
    exact String.toList_append ..
  · rw [if_neg hknown, if_neg hknown]
    show (showIpv4 ip ++ " (last clock " ++ toString known ++ ")").toList = _
    simp

theorem clockText_inj (h : clockText known = clockText known') : known = known' := by
  unfold clockText at h
  by_cases hknown : known = 0 <;> by_cases hknown' : known' = 0
  · rw [hknown, hknown']
  · rw [if_pos hknown, if_neg hknown'] at h
    exact absurd (congrArg (fun text : List Char => text[1]?) h) (by simp)
  · rw [if_neg hknown, if_pos hknown'] at h
    exact absurd (congrArg (fun text : List Char => text[1]?) h) (by simp)
  · rw [if_neg hknown, if_neg hknown'] at h
    have hshown : toString known.toNat = toString known'.toNat :=
      String.toList_injective (List.append_cancel_right (List.append_cancel_left h))
    have hvalue := numeral_toString known.toNat
    rw [hshown] at hvalue
    exact UInt64.toNat_inj.mp (hvalue.unique (numeral_toString known'.toNat))

/-- **A line is of one peer**, and of one clock of it. -/
theorem missingLine_inj (h : missingLine ip known = missingLine ip' known') :
    ip = ip' ∧ known = known' := by
  have hshown (ip : Ipv4Addr) (known : UInt64) :
      (missingLine ip known).toList.takeWhile (· != ' ') = (showIpv4 ip).toList := by
    have hfree : ' ' ∉ (showIpv4 ip).toList := ipv4_free (parseIpv4_showIpv4 ip) (by decide) (by decide)
    rw [toList_missingLine, List.takeWhile_append_of_pos fun ch hch => ?_]
    · simp
    · rw [bne_iff_ne]
      rintro rfl
      exact hfree hch
  have hsame : showIpv4 ip = showIpv4 ip' :=
    String.toList_injective (by rw [← hshown ip known, h, hshown])
  have hread := parseIpv4_showIpv4 ip
  rw [hsame, parseIpv4_showIpv4] at hread
  refine ⟨(Option.some.inj hread).symm, clockText_inj ?_⟩
  have hlines := congrArg String.toList h
  rw [toList_missingLine, toList_missingLine, hsame] at hlines
  exact (List.cons.inj (List.append_cancel_left hlines)).2

theorem mem_waiting {peers : List Ipv4Addr} {knownClocks : List UInt64} {line : String} :
    line ∈ waiting peers knownClocks round ↔ ∃ (index : Nat) (ip : Ipv4Addr) (known : UInt64),
      peers[index]? = some ip ∧ knownClocks[index]? = some known ∧ known < round ∧
        line = missingLine ip known := by
  simp only [waiting, List.mem_map, List.mem_filter, decide_eq_true_eq, Prod.exists]
  constructor
  · rintro ⟨ip, known, ⟨hmem, hlt⟩, rfl⟩
    obtain ⟨index, hindex⟩ := List.mem_iff_getElem?.mp hmem
    obtain ⟨hip, hknown⟩ := List.getElem?_zip_eq_some.mp hindex
    exact ⟨index, ip, known, hip, hknown, hlt, rfl⟩
  · rintro ⟨index, ip, known, hip, hknown, hlt, rfl⟩
    have hindex : (peers.zip knownClocks)[index]? = some (ip, known) :=
      List.getElem?_zip_eq_some.mpr ⟨hip, hknown⟩
    exact ⟨ip, known, ⟨List.mem_of_getElem? hindex, hlt⟩, rfl⟩

/-- A line is in the text. -/
theorem infix_bailOut {s : Synch} {timeout line : String}
    (h : line ∈ waiting s.peers s.knownClocks round) :
    line.toList <:+: (s.bailOut timeout round).toList := by
  have hmissing : line.toList <:+: (", ".intercalate (waiting s.peers s.knownClocks round)).toList :=
    infix_intercalate h
  refine hmissing.trans ?_
  show _ <:+: ("GlobalSynch: barrier " ++ toString round ++ " on " ++ showIpv4 s.myIp ++ ":" ++
    toString s.port ++ " did not resolve within " ++ timeout ++ "; still waiting for: " ++
      ", ".intercalate (waiting s.peers s.knownClocks round) ++
        ". A node may have crashed or be stuck; exiting.").toList
  rw [String.toList_append, String.toList_append]
  exact List.infix_append _ _ _

/-- No entry of `known_clocks` is added or lost. -/
theorem length_known {t : Tid} {o : Op} {a : o.Ans} {w : World} (i : NodeId) :
    ((post cluster t o a w).nodes i).knownClocks.length = (w.nodes i).knownClocks.length := by
  rw [node_post Node.knownClocks (fun _ _ => rfl)]
  split
  · cases o with
    | hear index clock => exact List.length_modify _ _ _
    | tryRecv peers =>
        cases a with
        | none => rfl
        | some item =>
            show (record peers (w.nodes i).knownClocks item).length = _
            unfold record
            split
            · exact List.length_modify _ _ _
            · rfl
    | bind | accept | raiseClock => cases a <;> rfl
    | _ => rfl
  · rfl

/-- Every peer has its entry. -/
theorem known_sized (hreach : (barrier cluster).Reach (start cluster) c) (i : NodeId) :
    (c.world.nodes i).knownClocks.length = cluster.length - 1 := by
  induction hreach with
  | refl => exact List.length_replicate
  | tail _ hstep ih =>
      cases hstep with
      | act t a ht hc => exact (length_known i).trans ih
      | loop t l ht => exact ih

/-- **A node that gives up names whom it waits for**: the report of a round has a line for every
    peer that has yet to enter the round; and whoever it names is a peer that the node has not heard
    from in the round, and the clock it shows is the one last heard from that peer, which the peer
    has had. -/
theorem bail_out_names (hdistinct : cluster.Nodup)
    (hreach : (barrier cluster).Reach (start cluster) c) {i : NodeId} (hi : i < cluster.length)
    {s : Synch} (hpeers : s.peers = others cluster i)
    (hclocks : s.knownClocks = (c.world.nodes i).knownClocks) (timeout : String) (round : UInt64) :
    (∀ j ip, j ≠ i → cluster[j]? = some ip → (c.world.nodes j).entered < round.toNat →
      ∃ known, known.toNat ≤ (c.world.nodes j).entered ∧
        missingLine ip known ∈ waiting s.peers s.knownClocks round ∧
          (missingLine ip known).toList <:+: (s.bailOut timeout round).toList) ∧
      ∀ ip known, missingLine ip known ∈ waiting s.peers s.knownClocks round →
        ∃ j index, j ≠ i ∧ cluster[j]? = some ip ∧ (others cluster i)[index]? = some ip ∧
          known = (c.world.nodes i).knownClocks.getD index 0 ∧ known < round ∧
            known.toNat ≤ (c.world.nodes j).entered := by
  obtain ⟨know, h⟩ := reached_of_reach hdistinct hreach
  have hlength : (others cluster i).length = cluster.length - 1 := List.length_eraseIdx_of_lt hi
  have hentry {index : Nat} {ip : Ipv4Addr} (hindex : (others cluster i)[index]? = some ip) :
      (c.world.nodes i).knownClocks[index]? =
        some ((c.world.nodes i).knownClocks.getD index 0) := by
    have hlt : index < (c.world.nodes i).knownClocks.length := by
      rw [known_sized hreach, ← hlength]
      exact (List.getElem?_eq_some_iff.mp hindex).1
    rw [List.getD_eq_getElem?_getD, List.getElem?_eq_getElem hlt]
    rfl
  -- what is known of a peer is no more than the rounds it has entered
  have hknown {j index : Nat} {ip : Ipv4Addr} (hindex : (others cluster i)[index]? = some ip)
      (hj : cluster[j]? = some ip) :
      ((c.world.nodes i).knownClocks.getD index 0).toNat ≤ (c.world.nodes j).entered := by
    rw [(h.agree j).entered]
    exact (UInt64.le_iff_toNat_le.mp (h.sound.known i index ip hindex j hj)).trans (Nat.le_add_right _ _)
  refine ⟨fun j ip hne hj hmissing => ?_, fun ip known hline => ?_⟩
  · obtain ⟨index, _, ip', hindex, hj'⟩ := peer_of_ne (List.getElem?_eq_some_iff.mp hj).1 hne
    obtain rfl : ip = ip' := Option.some.inj (hj.symm.trans hj')
    have hline : missingLine ip ((c.world.nodes i).knownClocks.getD index 0) ∈
        waiting s.peers s.knownClocks round := by
      refine mem_waiting.mpr ⟨index, ip, _, hpeers ▸ hindex, hclocks ▸ hentry hindex, ?_, rfl⟩
      exact UInt64.lt_iff_toNat_lt.mpr ((hknown hindex hj).trans_lt hmissing)
    exact ⟨_, hknown hindex hj, hline, infix_bailOut hline⟩
  · obtain ⟨index, ip', known', hindex, hentry', hlt, hsame⟩ := mem_waiting.mp hline
    obtain ⟨rfl, rfl⟩ := missingLine_inj hsame
    rw [hpeers] at hindex
    rw [hclocks, hentry hindex] at hentry'
    obtain rfl := Option.some.inj hentry'
    obtain ⟨j, hne, hj⟩ := List.mem_eraseIdx_iff_getElem?.mp (List.mem_of_getElem? hindex)
    exact ⟨j, index, hne, hj, hindex, rfl, hlt, hknown hindex hj⟩

/-- The first node has entered a round alone, and gives up. -/
def synchAlone (known : List UInt64) : Synch := ⟨[2], 1, 8099, 1, known⟩

theorem bail_out_names_alone : ∃ c, (barrier [1, 2]).Reach (start [1, 2]) c ∧ ∃ known,
    missingLine 2 known ∈ waiting [2] (c.world.nodes 0).knownClocks 1 := by
  have hplay : (((barrier [1, 2]).play (start [1, 2]) (enters [1, 2] 0)).map fun c =>
      (c.world.nodes 1).entered) = some 0 := by decide +kernel
  obtain ⟨c, hc, hentered⟩ := Option.map_eq_some_iff.mp hplay
  have hreach := System.play_reach hc
  obtain ⟨known, _, hline, _⟩ := (bail_out_names (i := 0) (by decide) hreach (by decide)
    (s := synchAlone (c.world.nodes 0).knownClocks) rfl rfl "60s" 1).1 1 2 (by decide) rfl
    (by rw [hentered]; decide)
  exact ⟨c, hreach, known, hline⟩

end Report

end Rdmalib.GlobalSynch
