/-
  File:      Rdmalib/System/Rendezvous.lean
  Subject:   Which reader's RDMA connection a handshake accepts.

  A handshake pairs the TCP session it serves with a connect request by the order of two blocking
  calls: it takes the next event off the listener's channel.

  * `RightlyPaired` -- every connection of a group was opened by the reader whose TCP session
    asked for the group in the handshake that stored it, and every request accepted is one of the
    reader being served, and was accepted into the domain of the group that this reader asked for;
  * `rightly_paired` -- it holds in every run in which requests are on the channel only while
    their reader is being served;
  * `wrongly_paired` -- a run of three readers in which it does not.
-/
import Rdmalib.System.Domains

namespace Rdmalib

open Base

/-! ## 1. Sessions and requests -/

/-- The reader that a TCP connection belongs to. -/
def World.ownerOf (w : World) (c : Chan) : Option Nat := (w.tcp.chans[c]?).map (·.owner)

/-- The provider has received `WantGroup` on a TCP connection. -/
def World.Asked (w : World) (c : Chan) (g : UInt32) : Prop :=
  ∃ s, w.tcp.chans[c]? = some s ∧ .wantGroup g ∈ s.recvP

/-- A request was accepted for the reader that opened it, into the domain of the group `g` that this
    reader asked for: of the groups there were, `g` had it and no other. -/
structure Acceptance.Right (q : Acceptance) (w : World) (i : Nat) (c : Chan) (g : UInt32) (pd : Nat) :
    Prop where
  opener : q.opener = some i
  session : q.session = some c
  owner : w.ownerOf c = some i
  asked : w.Asked c g
  domain : q.domain = some pd
  group : ∀ d ∈ q.domains, d.2 = pd ↔ d.1 = g

structure RightlyPaired (w : World) : Prop where
  stored : ∀ g e, w.shared.groups.lookup g = some e → ∀ conn ∈ e.connections, ∃ id c i,
    conn.id = some id ∧ w.cm.servedFor.lookup id = some (some c, g) ∧ w.Asked c g ∧
      w.cm.opener.lookup id = some i ∧ w.ownerOf c = some i
  accepted : ∀ q ∈ w.cm.accepted, ∃ i c g pd, q.Right w i c g pd

/-- The reader that opened a connect request. -/
def Notice.opener : Notice → Option Nat
  | .request i _ => some i
  | .later _ => none

/-- The session that the service turns to. -/
def Op.turn : (o : Op) → o.Ans → Option Chan
  | .tcpAccept, c => c
  | _, _ => none

/-- The reader whose connect request reaches the listener's channel. -/
def Op.requester : (o : Op) → o.Ans → Option Nat
  | .deliver, n => n.opener
  | _, _ => none

/-- The condition on a step: a connect request reaches the listener's channel only while the
    service serves a session of the reader that sent it, and the service turns to a session of
    another reader only when none is left there. -/
def ServedInTurn (_ : Tid) (o : Op) (w : World) (a : o.Ans) : Prop :=
  (∀ c ∈ o.turn a, ∀ n ∈ w.cm.events, ∀ i ∈ n.opener, w.ownerOf c = some i) ∧
    ∀ i ∈ o.requester a, w.tcp.lastSession.bind w.ownerOf = some i

instance (t : Tid) (o : Op) (w : World) (a : o.Ans) : Decidable (ServedInTurn t o w a) :=
  inferInstanceAs (Decidable ((∀ c ∈ o.turn a, _) ∧ ∀ i ∈ o.requester a, _))

/-! ## 2. The TCP side only grows -/

/-- Connections stay, with their owners, and more is received on them. -/
def Tcp.Grows (tcp tcp' : Tcp) : Prop :=
  ∀ (c : Chan) (s : ChanState), tcp.chans[c]? = some s →
    ∃ s' : ChanState, tcp'.chans[c]? = some s' ∧ s'.owner = s.owner ∧ ∀ m ∈ s.recvP, m ∈ s'.recvP

section Tcp

variable {w w' : World} {t : Tid}

theorem Tcp.Grows.same {tcp tcp' : Tcp} (h : tcp'.chans = tcp.chans) : tcp.Grows tcp' := by
  intro c s hs
  exact ⟨s, h ▸ hs, rfl, fun _ hm => hm⟩

theorem Tcp.Grows.modify {tcp : Tcp} {c : Chan} {f : ChanState → ChanState}
    (howner : ∀ s, (f s).owner = s.owner) (hrecv : ∀ s, ∀ m ∈ s.recvP, m ∈ (f s).recvP) :
    tcp.Grows (tcp.modify c f) := by
  intro c' s hs
  have hmod : (tcp.modify c f).chans[c']? = some (if c = c' then f s else s) := by
    show (tcp.chans.modify c f)[c']? = _
    rw [List.getElem?_modify, hs]
    rfl
  refine ⟨_, hmod, ?_, ?_⟩
  · split
    · exact howner s
    · rfl
  · intro m hm
    split
    · exact hrecv s m hm
    · exact hm

theorem post_tcp_grows (o : Op) (a : o.Ans) : w.tcp.Grows (post t o a w).tcp := by
  by_cases hw : o.writesTcp = false
  · exact .same (by rw [(post_frame o a).tcp hw])
  cases o with
  | tcpConnect =>
      cases a with
      | error e => exact .same rfl
      | ok c =>
          cases t with
          | reader i =>
              intro c' s hs
              obtain ⟨hlt, _⟩ := List.getElem?_eq_some_iff.mp hs
              exact ⟨s, by rw [← hs]; exact List.getElem?_append_left hlt, rfl, fun _ hm => hm⟩
          | app | service | session | net => exact .same rfl
  | tcpAccept => cases a <;> exact .same rfl
  | send c m =>
      refine .modify (fun s => ?_) fun s m hm => ?_
      · unfold ChanState.send
        split <;> rfl
      · unfold ChanState.send
        split <;> exact hm
  | receive c =>
      refine .modify (fun s => ?_) fun s m hm => ?_
      · unfold ChanState.receive
        cases t.isProvider <;> rfl
      · unfold ChanState.receive
        cases t.isProvider with
        | true => exact List.mem_append_left _ hm
        | false => exact hm
  | _ => exact absurd rfl hw

theorem World.ownerOf_grows {c : Chan} {i : Nat} (hg : w.tcp.Grows w'.tcp)
    (h : w.ownerOf c = some i) : w'.ownerOf c = some i := by
  obtain ⟨s, hs, hi⟩ := Option.map_eq_some_iff.mp h
  obtain ⟨s', hs', ho, _⟩ := hg c s hs
  exact Option.map_eq_some_iff.mpr ⟨s', hs', ho.trans hi⟩

theorem World.Asked.grows {c : Chan} {g : UInt32} (hg : w.tcp.Grows w'.tcp) (h : w.Asked c g) :
    w'.Asked c g := by
  obtain ⟨s, hs, hm⟩ := h
  obtain ⟨s', hs', _, hr⟩ := hg c s hs
  exact ⟨s', hs', hr _ hm⟩

end Tcp

/-! ## 3. Runs in which readers are served in turn -/

/-- The requests pending and the one being accepted belong to the session being served; `acc` is
    what the service knows of its handshake. -/
structure Paired (w : World) (acc : AcceptKnow) : Prop where
  pending : ∀ {i status}, .request i status ∈ w.cm.events → ∃ c, w.tcp.lastSession = some c ∧
    w.ownerOf c = some i
  chan : ∀ {c}, acc.chan = some c → w.tcp.lastSession = some c
  wants : ∀ {g}, acc.wants = some g → ∃ c, acc.chan = some c ∧ w.Asked c g
  child : ∀ {id}, acc.child = some id → ∃ i c, w.cm.opener.lookup id = some i ∧
    w.tcp.lastSession = some c ∧ w.ownerOf c = some i
  paired : RightlyPaired w

theorem paired_start : Paired {} (firstKnow .service).acc :=
  ⟨nofun, nofun, nofun, nofun, nofun, nofun⟩

section Steps

variable {w w' : World} {acc acc' : AcceptKnow}

/-- What was accepted for a reader stays its own. -/
theorem RightlyPaired.kept (h : RightlyPaired w) (hg : w.tcp.Grows w'.tcp) :
    ∀ q ∈ w.cm.accepted, ∃ i c g pd, q.Right w' i c g pd := by
  intro q hq
  obtain ⟨i, c, g, pd, hq⟩ := h.accepted q hq
  exact ⟨i, c, g, pd, { hq with
    owner := World.ownerOf_grows hg hq.owner
    asked := hq.asked.grows hg }⟩

theorem RightlyPaired.grows (h : RightlyPaired w) (hg : w.tcp.Grows w'.tcp)
    (hgroups : w'.shared.groups = w.shared.groups)
    (hserved : w'.cm.servedFor = w.cm.servedFor) (haccepted : w'.cm.accepted = w.cm.accepted)
    (hopener : ∀ id, Member w.shared.groups id → ∀ i, w.cm.opener.lookup id = some i →
      w'.cm.opener.lookup id = some i) : RightlyPaired w' := by
  refine ⟨fun g e he conn hconn => ?_, fun q hq => ?_⟩
  · rw [hgroups] at he
    obtain ⟨id, c, i, hid, hs, ha, ho, hown⟩ := h.stored g e he conn hconn
    exact ⟨id, c, i, hid, hserved ▸ hs, ha.grows hg, hopener id ⟨g, e, conn, he, hconn, hid⟩ i ho,
      World.ownerOf_grows hg hown⟩
  · rw [haccepted] at hq
    exact h.kept hg q hq

/-- No request comes in; the service knows no more than before. -/
theorem Paired.keep (h : Paired w acc) (hg : w.tcp.Grows w'.tcp)
    (hlast : w'.tcp.lastSession = w.tcp.lastSession)
    (hevents : ∀ n ∈ w'.cm.events, n ∈ w.cm.events)
    (hopener : ∀ id, Member w.shared.groups id ∨ acc'.child = some id → ∀ i,
      w.cm.opener.lookup id = some i → w'.cm.opener.lookup id = some i)
    (hserved : w'.cm.servedFor = w.cm.servedFor) (haccepted : w'.cm.accepted = w.cm.accepted)
    (hgroups : w'.shared.groups = w.shared.groups)
    (hchan : ∀ c, acc'.chan = some c → acc.chan = some c)
    (hwants : ∀ g, acc'.wants = some g → acc.wants = some g ∧ acc'.chan = acc.chan)
    (hchild : ∀ id, acc'.child = some id → acc.child = some id) : Paired w' acc' := by
  refine ⟨fun e => ?_, fun e => hlast ▸ h.chan (hchan _ e), fun e => ?_, fun e => ?_,
    h.paired.grows hg hgroups hserved haccepted fun id hid => hopener id (Or.inl hid)⟩
  · obtain ⟨c, hc, ho⟩ := h.pending (hevents _ e)
    exact ⟨c, hlast ▸ hc, World.ownerOf_grows hg ho⟩
  · obtain ⟨hw, hsame⟩ := hwants _ e
    obtain ⟨c, hc, ha⟩ := h.wants hw
    exact ⟨c, hsame ▸ hc, ha.grows hg⟩
  · obtain ⟨i, c, hi, hc, ho⟩ := h.child (hchild _ e)
    exact ⟨i, c, hopener _ (Or.inr e) i hi, hlast ▸ hc, World.ownerOf_grows hg ho⟩

/-- The listener is left alone. -/
theorem Paired.same (h : Paired w acc) (hg : w.tcp.Grows w'.tcp)
    (hlast : w'.tcp.lastSession = w.tcp.lastSession) (hl : SameListener w w')
    (hgroups : w'.shared.groups = w.shared.groups)
    (hchan : ∀ c, acc'.chan = some c → acc.chan = some c)
    (hwants : ∀ g, acc'.wants = some g → acc.wants = some g ∧ acc'.chan = acc.chan)
    (hchild : ∀ id, acc'.child = some id → acc.child = some id) : Paired w' acc' :=
  h.keep hg hlast (fun _ e => hl.events ▸ e) (fun _ _ _ e => hl.opener ▸ e) hl.servedFor hl.accepted
    hgroups hchan hwants hchild

variable {know : Tid → Know}

/-- The event a handshake takes off the channel: a request is one of the session being served. -/
theorem Paired.event (hd : Domains w know) (h : Paired w (know .service).acc) {e : CmEvent}
    {channel : Nat} (hcan : eventCan w.cm e) :
    Paired { w with cm := eventPost w.cm e }
      (nextVerb (know .service) (.getCmEvent channel) (.ok e)).acc := by
  have hacc : (nextVerb (know .service) (.getCmEvent channel) (.ok e)).acc =
      { (know .service).acc with
        child := if (know .service).acc.child = none then e.child
          else (know .service).acc.child } := by
    simp only [nextVerb]
    split <;> rfl
  rw [hacc]
  unfold eventCan at hcan
  unfold eventPost
  rcases hevents : w.cm.events with _ | ⟨notice, rest⟩
  · rw [hevents] at hcan
    exact hcan.elim
  rw [hevents] at hcan
  have hrest (n : Notice) (hn : n ∈ rest) : n ∈ w.cm.events := by
    rw [hevents]
    exact List.mem_cons_of_mem _ hn
  cases notice with
  | request opener status =>
      obtain ⟨hreq, _, hfree⟩ := hcan
      obtain ⟨c, hlast, hown⟩ := h.pending (by rw [hevents]; exact List.mem_cons_self)
      -- ids in use are not the new one
      have hkeep {id i : Nat} (hi : w.cm.opener.lookup id = some i) :
          (w.cm.opener.insert e.id opener).lookup id = some i := by
        rw [HashMap.lookup_insert, if_neg]
        · exact hi
        · intro hid
          rw [hid, hfree] at hi
          cases hi
      refine ⟨fun {i st} hn => h.pending (hrest _ hn), h.chan, h.wants, fun {id} hid => ?_,
        h.paired.grows (.same rfl) rfl rfl rfl fun _ _ _ hi => hkeep hi⟩
      by_cases hnone : (know .service).acc.child = none
      · have hid : e.child = some id := by simpa [hnone] using hid
        have hid : e.id = id := by simpa [CmEvent.child, hreq] using hid
        subst hid
        refine ⟨opener, c, ?_, hlast, hown⟩
        show (w.cm.opener.insert e.id opener).lookup e.id = some opener
        rw [HashMap.lookup_insert, if_pos rfl]
      · have hid : (know .service).acc.child = some id := by simpa [hnone] using hid
        obtain ⟨i, c', hi, hc', ho'⟩ := h.child hid
        exact ⟨i, c', hkeep hi, hc', ho'⟩
  | later event =>
      have hne := hd.orderly event (by rw [hevents]; exact List.mem_cons_self)
      have hcan : e = event := hcan
      subst hcan
      refine h.keep (.same rfl) rfl hrest (fun _ _ _ hi => hi) rfl rfl rfl (fun _ e => e)
        (fun _ e => ⟨e, rfl⟩) fun id hid => ?_
      by_cases hnone : (know .service).acc.child = none
      · simp [hnone, CmEvent.child, hne] at hid
      · simpa [hnone] using hid

/-- The service's own C calls. -/
theorem Paired.verb (hd : Domains w know) (h : Paired w (know .service).acc) {v : Verb} {a : v.Ans}
    (hrole : (know .service).role = .service) (hm : mayVerb (know .service) v) (hc : verbCan w v a) :
    Paired (verbPost .service w v a) (nextVerb (know .service) v a).acc := by
  have hp : (know .service).role.isProvider = true := by rw [hrole]; rfl
  have hnotApp (hfrees : (know .service).Frees) : False := by
    have happ := hfrees.app
    rw [hrole] at happ
    cases happ
  have hf := verbPost_frame (t := .service) (w := w) v a
  have hg : w.tcp.Grows (verbPost .service w v a).tcp := .same (by rw [hf.tcp rfl])
  have hlast : (verbPost .service w v a).tcp.lastSession = w.tcp.lastSession := by rw [hf.tcp rfl]
  have hgroups : (verbPost .service w v a).shared.groups = w.shared.groups := by rw [hf.shared rfl]
  -- a request of the session being served, which is not a member of a group yet
  have hfresh {id id' : Nat} (hid : (know .service).acc.child = some id)
      (hmember : Member w.shared.groups id') : id' ≠ id :=
    fun e => (hd.joined.child hid).2 (e ▸ hmember)
  cases v with
  | getCmEvent channel =>
      cases a with
      | error e =>
          exact h.same hg hlast ⟨rfl, rfl, rfl, rfl⟩ hgroups (fun _ e => e) (fun _ e => ⟨e, rfl⟩)
            fun _ e => e
      | ok e => exact h.event hd hc
  | accept id =>
      have haccepts := hm hp
      obtain ⟨g, pd, hwants, hqp, hdomains⟩ := hd.accepts haccepts
      obtain ⟨i, c, hi, hlast', hown⟩ := h.child haccepts.child
      obtain ⟨c', hc', hasked⟩ := h.wants hwants
      have hsame : c' = c := by
        have := h.chan hc'
        rw [hlast'] at this
        exact (Option.some.inj this).symm
      subst hsame
      simp only [verbPost]
      split
      · refine ⟨h.pending, h.chan, h.wants, h.child, h.paired.stored, fun q hq => ?_⟩
        rcases List.mem_cons.mp hq with rfl | hq
        · exact ⟨i, c', g, pd, hi, hlast', hown, hasked, hqp, hdomains⟩
        · exact h.paired.kept (by exact .same rfl) q hq
      · exact h
  | destroyId id =>
      have hchild := ((hm hp).resolve_right hnotApp).2 hrole
      refine h.keep hg hlast (fun _ e => e) (fun id' hid' i hi => ?_) rfl rfl hgroups (fun _ e => e)
        (fun _ e => ⟨e, rfl⟩) (fun _ e => by cases e)
      rcases hid' with hid' | hid'
      · have hlookup : (w.cm.opener.erase id).lookup id' = w.cm.opener.lookup id' :=
          AList.lookup_erase_ne (hfresh hchild hid')
        exact hlookup.trans hi
      · cases hid'
  | dropPd pd =>
      simp only [nextVerb]
      split
      · exact h.same hg hlast ⟨rfl, rfl, rfl, rfl⟩ hgroups (fun _ e => e) (fun _ e => ⟨e, rfl⟩)
          fun _ e => e
      · exact h.same hg hlast ⟨rfl, rfl, rfl, rfl⟩ hgroups (fun _ e => e) (fun _ e => ⟨e, rfl⟩)
          fun _ e => e
  | allocPd context =>
      cases a with
      | none | some =>
          exact h.same hg hlast ⟨rfl, rfl, rfl, rfl⟩ hgroups (fun _ e => e) (fun _ e => ⟨e, rfl⟩)
            fun _ e => e
  | createQp id pd cq =>
      simp only [verbPost, nextVerb]
      split
      · exact h.same (.same rfl) rfl ⟨rfl, rfl, rfl, rfl⟩ rfl (fun _ e => e) (fun _ e => ⟨e, rfl⟩)
          fun _ e => e
      · exact h
  | regMr pd addr size =>
      cases a with
      | none | some =>
          exact h.same hg hlast ⟨rfl, rfl, rfl, rfl⟩ hgroups (fun _ e => e) (fun _ e => ⟨e, rfl⟩)
            fun _ e => e
  | _ =>
      exact h.same hg hlast ⟨rfl, rfl, rfl, rfl⟩ hgroups (fun _ e => e) (fun _ e => ⟨e, rfl⟩)
        fun _ e => e

/-- The handshake stores the connection for the session it serves. -/
theorem Paired.push (hd : Domains w know) (h : Paired w (know .service).acc) {g : UInt32}
    {conn : Connection} (hm : (know .service).Pushes g conn) : Paired (pushPost .service w g conn) {} := by
  obtain ⟨id, pd, hid, hpd, hchild, _, _, _⟩ := hd.pushes hm
  obtain ⟨i, c, hi, hlast, hown⟩ := h.child hchild
  obtain ⟨c', hc', hasked⟩ := h.wants hm.wants
  have hsame : c' = c := by
    have := h.chan hc'
    rw [hlast] at this
    exact (Option.some.inj this).symm
  subst hsame
  rw [pushPost_eq hid hpd]
  refine ⟨h.pending, nofun, nofun, nofun, fun g' e he conn' hconn => ?_, h.paired.kept (.same rfl)⟩
  -- a connection that was there before
  have hold {g' : UInt32} {e : GroupEntry} (he : w.shared.groups.lookup g' = some e)
      (hconn : conn' ∈ e.connections) : ∃ id' c i, conn'.id = some id' ∧
        (w.cm.servedFor.insert id (w.tcp.lastSession, g)).lookup id' = some (some c, g') ∧
        w.Asked c g' ∧ w.cm.opener.lookup id' = some i ∧ w.ownerOf c = some i := by
    obtain ⟨id', c, i, hid', hserved, ha, ho, hown⟩ := h.paired.stored g' e he conn' hconn
    refine ⟨id', c, i, hid', ?_, ha, ho, hown⟩
    rw [HashMap.lookup_insert, if_neg]
    · exact hserved
    · intro e'
      exact (hd.joined.child hchild).2 ⟨g', e, conn', he, hconn, e' ▸ hid'⟩
  have he : (w.shared.groups.insert g _).lookup g' = some e := he
  rw [HashMap.lookup_insert] at he
  by_cases hg : g' = g
  · rw [if_pos hg] at he
    cases he
    rcases mem_pushed hconn with rfl | ⟨e', he', hconn⟩
    · refine ⟨id, c', i, hid, ?_, hg ▸ hasked, hi, hown⟩
      show (w.cm.servedFor.insert id (w.tcp.lastSession, g)).lookup id = some (some c', g')
      rw [HashMap.lookup_insert, if_pos rfl, hlast, hg]
    · exact hg ▸ hold he' hconn
  · rw [if_neg hg] at he
    exact hold he hconn

/-- A message on the session being served may name the group wanted. -/
theorem Paired.receive (h : Paired w (know .service).acc) {c : Chan} {a : Op.Ans (.receive c)}
    (hc : can .service (.receive c) w a) :
    Paired (post .service (.receive c) a w) (next (know .service) (.receive c) a).acc := by
  have hg := post_tcp_grows (w := w) (t := .service) (.receive c) a
  obtain ⟨a, n⟩ := a
  have hkeep : Paired (post .service (.receive c) (a, n) w) (know .service).acc :=
    h.same hg rfl ⟨rfl, rfl, rfl, rfl⟩ rfl (fun _ e => e) (fun _ e => ⟨e, rfl⟩) fun _ e => e
  rcases a with e | m
  · exact hkeep
  · cases m with
    | wantGroup g =>
        simp only [next]
        split
        · rename_i hchan
          refine ⟨hkeep.pending, hkeep.chan, fun {g'} e => ?_, hkeep.child, hkeep.paired⟩
          cases e
          refine ⟨c, hchan, ?_⟩
          simp only [can] at hc
          split at hc
          · rename_i s hs
            have hmod : (post .service (.receive c) (.ok (.wantGroup g), n) w).tcp.chans[c]? =
                some (s.receive true (.ok (.wantGroup g), n)) := by
              show (w.tcp.chans.modify c _)[c]? = _
              rw [List.getElem?_modify, hs]
              simp [Tid.isProvider]
            exact ⟨_, hmod, List.mem_append_right _ List.mem_cons_self⟩
          · exact hc.elim
        · exact hkeep
    | hello | welcome | update | metadata | tuples => exact hkeep

/-- What a thread still knows of a handshake, or no longer knows. -/
theorem Paired.less (h : Paired w (know .service).acc) {t : Tid} {k' : Know}
    (hg : w.tcp.Grows w'.tcp) (hlast : w'.tcp.lastSession = w.tcp.lastSession)
    (hlistener : SameListener w w') (hgroups : w'.shared.groups = w.shared.groups)
    (hk : k'.acc = (know t).acc ∨ k'.acc = {}) :
    Paired w' (Function.update know t k' .service).acc := by
  have hkeep : Paired w' (know .service).acc :=
    h.same hg hlast hlistener hgroups (fun _ e => e) (fun _ e => ⟨e, rfl⟩) fun _ e => e
  by_cases ht : t = .service
  · subst ht
    rw [Function.update_self]
    rcases hk with hk | hk
    · rw [hk]
      exact hkeep
    · rw [hk]
      exact ⟨hkeep.pending, nofun, nofun, nofun, hkeep.paired⟩
  · rw [Function.update_of_ne (Ne.symm ht)]
    exact hkeep

/-- A connect request reaches the channel: its reader is the one being served. -/
theorem Paired.deliver (h : Paired w (know .service).acc) {t : Tid} {n : Notice}
    (hturn : ServedInTurn t .deliver w n) : Paired (post t .deliver n w) (know .service).acc := by
  have hg := post_tcp_grows (w := w) (t := t) .deliver n
  cases n with
  | request i status =>
      refine ⟨fun {i' st} e => ?_, h.chan, h.wants, h.child, h.paired.grows hg rfl rfl rfl
        fun _ _ _ e => e⟩
      rcases List.mem_append.mp e with e | e
      · exact h.pending e
      · cases List.mem_singleton.mp e
        exact Option.bind_eq_some_iff.mp (hturn.2 _ rfl)
  | later event =>
      refine ⟨fun {i' st} e => ?_, h.chan, h.wants, h.child, h.paired.grows hg rfl rfl rfl
        fun _ _ _ e => e⟩
      rcases List.mem_append.mp e with e | e
      · exact h.pending e
      · cases List.mem_singleton.mp e

theorem Paired.step (hl : Lives w know) (hd : Domains w know) (h : Paired w (know .service).acc)
    {t : Tid} {o : Op} {a : o.Ans} (hm : may (know t) o) (hc : can t o w a)
    (hturn : ServedInTurn t o w a) :
    Paired (post t o a w) (Function.update know t (next (know t) o a) .service).acc := by
  have hf := post_frame (t := t) (w := w) o a
  have hg := post_tcp_grows (w := w) (t := t) o a
  have hrole := hl.role t
  cases o with
  | verb v =>
      by_cases ht : t = .service
      · subst ht
        rw [Function.update_self]
        exact h.verb hd hrole hm (hc rfl)
      · rw [Function.update_of_ne (Ne.symm ht)]
        refine h.same hg ?_ (verb_elsewhere hrole ht hm).1 ?_ (fun _ e => e) (fun _ e => ⟨e, rfl⟩)
          fun _ e => e
        · rw [hf.tcp rfl]
        · rw [hf.shared rfl]
  | tcpAccept =>
      have ht : t = .service := hrole.symm.trans hm.1
      subst ht
      cases a with
      | none => exact h.less hg rfl ⟨rfl, rfl, rfl, rfl⟩ rfl (Or.inl rfl)
      | some c =>
          rw [Function.update_self]
          refine ⟨fun {i st} e => ⟨c, rfl, hturn.1 c rfl _ e i rfl⟩, fun e => e, nofun, nofun, ?_⟩
          exact h.paired.grows hg rfl rfl rfl fun _ _ _ e => e
  | receive c =>
      by_cases ht : t = .service
      · subst ht
        rw [Function.update_self]
        exact h.receive hc
      · rw [Function.update_of_ne (Ne.symm ht)]
        exact h.same hg rfl ⟨rfl, rfl, rfl, rfl⟩ rfl (fun _ e => e) (fun _ e => ⟨e, rfl⟩) fun _ e => e
  | groupsPush g conn =>
      have ht : t = .service := hrole.symm.trans hm.service
      subst ht
      rw [Function.update_self]
      exact h.push hd hm
  | dropShared =>
      rw [proj_update Know.acc ((next_recalls _ _ _).acc rfl)]
      exact ⟨h.pending, h.chan, h.wants, h.child, nofun, h.paired.kept (.same rfl)⟩
  | deliver =>
      rw [proj_update Know.acc ((next_recalls _ _ _).acc rfl)]
      exact h.deliver hturn
  | tcpConnect =>
      cases a with
      | error e => exact h.less hg rfl ⟨rfl, rfl, rfl, rfl⟩ rfl (Or.inl rfl)
      | ok c => cases t <;> exact h.less hg rfl ⟨rfl, rfl, rfl, rfl⟩ rfl (Or.inl rfl)
  | takeService => exact h.less hg rfl ⟨rfl, rfl, rfl, rfl⟩ rfl (Or.inr rfl)
  | exit =>
      have hcm := hf.cm rfl
      refine h.less hg ?_ ?_ ?_ (Or.inr rfl)
      · rw [hf.tcp rfl]
      · exact ⟨by rw [hcm], by rw [hcm], by rw [hcm], by rw [hcm]⟩
      · rw [hf.shared rfl]
  | send | catalogInsert | tuplesInsert | tuplesClear =>
      exact h.less hg rfl ⟨rfl, rfl, rfl, rfl⟩ rfl (Or.inl rfl)
  | _ =>
      have hcm := hf.cm rfl
      refine h.less hg ?_ ?_ ?_ (Or.inl ((next_recalls _ _ _).acc rfl))
      · rw [hf.tcp rfl]
      · exact ⟨by rw [hcm], by rw [hcm], by rw [hcm], by rw [hcm]⟩
      · rw [hf.shared rfl]

end Steps

/-! ## 4. The condition, and a run that breaks it -/

/-- **Where readers are served in turn, connections are rightly paired.** -/
theorem rightly_paired {c : Config Tid Op World Loop Op.Ans}
    (h : (provider.restrict ServedInTurn).Reach start c) : RightlyPaired c.world := by
  obtain ⟨know, hw⟩ := System.Reach.watched (S := provider.restrict ServedInTurn) protocol firstKnow h
  have hpaired : Paired c.world (know .service).acc :=
    hw.invariant (provider_follows.restrict _) entry_first
      (I := fun w know => Paired w (know .service).acc) paired_start fun hw h _ _ _ hm hc =>
        h.step (lives_watched hw.unrestrict) (domains_watched hw.unrestrict) hm hc.1 hc.2
  exact hpaired.paired

theorem rightly_paired_served : ∃ c, (provider.restrict ServedInTurn).Reach start c ∧
    (c.world.shared.groups.lookup 7).isSome = true ∧ RightlyPaired c.world := by
  have hplay : (((provider.restrict ServedInTurn).play start untilServed).map fun c =>
      (c.world.shared.groups.lookup 7).isSome) = some true := by decide +kernel
  obtain ⟨c, hc, hgroup⟩ := Option.map_eq_some_iff.mp hplay
  have hreach := System.play_reach hc
  exact ⟨c, hreach, hgroup, rightly_paired hreach⟩

/-- Reader 0 is served in group 7 and disconnects. The handshake of reader 1 for group 8 meets the
    disconnect and fails; its request stays. The handshake of reader 2 for group 9 takes it. -/
def untilMispaired : List Move :=
  calls .serve :: moves .app 9 ++ moves .service 2 ++
    -- reader 0
    greets 0 7 ++ moves .service 5 ++ connects 0 ++ delivers (.request 0 0) ++ moves .service 10 ++
    delivers (.later ⟨1, .established, 0⟩) ++ moves .service 9 ++
    meets 0 .established :: moves (.reader 0) 6 ++ asks 0 .drop :: moves (.reader 0) 2 ++
    -- reader 1
    greets 1 8 ++ moves .service 5 ++ connects 1 ++ delivers (.later ⟨1, .disconnected, 0⟩) ++
    delivers (.request 1 0) ++ moves .service 6 ++
    -- reader 2
    greets 2 9 ++ moves .service 5 ++ connects 2 ++ moves .service 10 ++
    delivers (.later ⟨2, .established, 0⟩) ++ moves .service 3

/-- Reader 1's connection is in group 9, which only reader 2 asked for. -/
theorem wrongly_paired : ∃ c, provider.Reach start c ∧
    (c.world.shared.groups.lookup 9).map (fun e => e.connections.map (·.id)) = some [some 2] ∧
    c.world.cm.servedFor.lookup 2 = some (some 2, 9) ∧ c.world.cm.opener.lookup 2 = some 1 ∧
    c.world.ownerOf 2 = some 2 ∧ ¬ RightlyPaired c.world := by
  have hplay : ((provider.play start untilMispaired).map fun c => decide
      ((c.world.shared.groups.lookup 9).map (fun e => e.connections.map (·.id)) = some [some 2] ∧
        c.world.cm.servedFor.lookup 2 = some (some 2, 9) ∧ c.world.cm.opener.lookup 2 = some 1 ∧
        c.world.ownerOf 2 = some 2)) = some true := by decide +kernel
  obtain ⟨c, hc, he⟩ := Option.map_eq_some_iff.mp hplay
  obtain ⟨hgroup, hserved, hopener, howner⟩ := of_decide_eq_true he
  refine ⟨c, System.play_reach hc, hgroup, hserved, hopener, howner, fun hpaired => ?_⟩
  obtain ⟨e, he, hids⟩ := Option.map_eq_some_iff.mp hgroup
  have hmem : some 2 ∈ e.connections.map (·.id) := by rw [hids]; exact List.mem_cons_self
  obtain ⟨conn, hconn, hid⟩ := List.mem_map.mp hmem
  obtain ⟨id, c', i, hid', hs, _, ho, hown⟩ := hpaired.stored 9 e he conn hconn
  rw [hid] at hid'
  cases hid'
  rw [hserved] at hs
  cases hs
  rw [hopener] at ho
  cases ho
  rw [howner] at hown
  cases hown

end Rdmalib
