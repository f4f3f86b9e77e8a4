import Wawo.Wcp.Numbering
import Wawo.Wcp.Eof
import Wawo.Wcp.Control

/-!
# Two connected control blocks

A client and a server over a network that loses, duplicates and reorders packs: the pack delivered
next is any of those the peer has sent so far. `Feeds` is the invariant of one direction: the packs the
receiving side has taken carry the contents the sending side gave to their numbers. It rests on the
sending side counting every pack that the receiving side counts, which is so until `update_rwnd` sends
its pack (`WndClear`). Then what was read is a prefix of what was sent (`streamPrefix`).
-/

namespace Wawo

open Lts Relation

/-! ### What a sender emits -/

namespace Sender

variable {m : Mode} {s s' : Sender} {G : Sender → Prop} {K : Datagram → Prop}

/-- The contents of the packs that took a number. -/
def contents (s : Sender) : List (Nat × WcpFlag × List Byte) := s.hist.numbered.map fun p => p.content

/-- What holds of the packs without a number that are queued where `G` holds, and is not lost on their
way out. -/
structure CtlClass (m : Mode) (G : Sender → Prop) (K : Datagram → Prop) : Prop where
  pushed : ∀ {s d}, G s → Ctl m s d → K d
  merged : ∀ {d}, K d → K (withWnd d)
  stamped : ∀ {d} (a n : Nat), K d → K (d.stamp a n)

/-- What is queued, in flight and sent: packs that took a number, and control packs. -/
structure Emits (K : Datagram → Prop) (s : Sender) : Prop where
  queued : ∀ p ∈ s.sending ++ s.standby ++ s.flights, p.content ∈ s.contents
  ctl : ∀ q ∈ s.ctl, K q.pack
  emitted : ∀ d ∈ s.hist.emitted, d.content ∈ s.contents ∨ K d

theorem inSeqSpace_withWnd (d : Datagram) : (withWnd d).inSeqSpace = d.inSeqSpace := by
  have h : ∀ f : WcpFlag, .wnd &&& f = 0#16 → (withWnd d).testFlag f = d.testFlag f := by
    intro f hf
    show ((d.header.flag ||| .wnd) &&& f != 0) = (d.header.flag &&& f != 0)
    rw [BitVec.and_or_distrib_right, hf, BitVec.or_zero]
  simp only [Datagram.inSeqSpace]
  rw [h .sack (by decide), h .keepAlive (by decide), h .keepAliveReply (by decide)]

theorem inSeqSpace_fresh {seq : Nat} {flag : WcpFlag} {data : List Byte} {h : data.length ≤ wcpMdu} :
    (Datagram.fresh seq flag data h).inSeqSpace =
      (!(flag &&& .sack != 0) && !(flag &&& .keepAlive != 0) && !(flag &&& .keepAliveReply != 0)) := rfl

theorem ctlClass_not_inSeqSpace (hm : m.bareWnd = false) :
    CtlClass m (fun _ => True) fun d => d.inSeqSpace = false where
  pushed _ h := by
    cases h with
    | sack l _ _ => rw [inSeqSpace_fresh]; decide
    | keepalive => rw [inSeqSpace_fresh]; decide
    | keepaliveReply => rw [inSeqSpace_fresh]; decide
    | wnd _ hw => rw [hm] at hw; cases hw
  merged h := (inSeqSpace_withWnd _).trans h
  stamped _ _ h := h

theorem contents_subset (hs : Step m s s') : ∀ c ∈ s.contents, c ∈ s'.contents := by
  intro c hc
  obtain ⟨l, hl⟩ := hs.numbered_append
  rw [contents, hl, List.map_append]
  exact List.mem_append_left _ hc

/-- A new number goes to a pack that enters a queue. -/
theorem Emits.number (h : Emits K s) (p : WcbPack) (hs : Step m s s') (hp : p.content ∈ s'.contents)
    (hq : ∀ q ∈ s'.sending ++ s'.standby ++ s'.flights, q = p ∨ q ∈ s.sending ++ s.standby ++ s.flights)
    (hc : s'.ctl = s.ctl) (he : s'.hist.emitted = s.hist.emitted) : Emits K s' := by
  refine ⟨?_, by rw [hc]; exact h.ctl, ?_⟩
  · intro q hq'
    rcases hq q hq' with rfl | hq'
    · exact hp
    · exact contents_subset hs _ (h.queued q hq')
  · intro d hd
    rw [he] at hd
    exact (h.emitted d hd).imp_left (contents_subset hs _)

theorem Emits.launch (h : Emits K s) {p q : WcbPack} {rest : List WcbPack} (hp : s.sending = p :: rest)
    (hq : q.content = p.content) (sending : List WcbPack) (hsub : ∀ x ∈ sending, x = q ∨ x ∈ rest) (a wnd : Nat) :
    Emits K (s.launch q sending (p.stamp a wnd)) := by
  have hpc : p.content ∈ s.contents := h.queued p (by simp [hp])
  have hold : ∀ x ∈ rest ++ s.standby ++ s.flights, x.content ∈ s.contents := by
    intro x hx
    refine h.queued x ?_
    rw [hp]
    exact List.mem_cons_of_mem _ hx
  refine ⟨?_, h.ctl, ?_⟩
  · intro x hx
    show x.content ∈ s.contents
    have hx : x ∈ sending ++ s.standby ++ (s.flights ++ [q]) := hx
    simp only [List.mem_append, List.mem_singleton] at hx hold
    rcases hx with (hx | hx) | hx | rfl
    · rcases hsub x hx with rfl | hx
      · rw [hq]; exact hpc
      · exact hold x (.inl (.inl hx))
    · exact hold x (.inl (.inr hx))
    · exact hold x (.inr hx)
    · rw [hq]; exact hpc
  · intro d hd
    rcases List.mem_append.1 hd with hd | hd
    · exact h.emitted d hd
    · rw [List.mem_singleton.1 hd]; exact .inl hpc

theorem Emits.step (h : Emits K s) (hK : CtlClass m G K) (hG : G s) (hs : Step m s s') : Emits K s' := by
  have hstep := hs
  cases hs with
  | dropFlight pre p post hf _ _ _ =>
    refine ⟨fun x hx => h.queued x ?_, h.ctl, h.emitted⟩
    simp only [List.mem_append, hf, List.mem_cons] at hx ⊢
    tauto
  | restampFlight pre p q post hf hq =>
    refine ⟨?_, h.ctl, h.emitted⟩
    intro x hx
    by_cases hxq : x = q
    · rw [hxq, hq]; exact h.queued p (by simp [hf])
    · refine h.queued x ?_
      simp only [List.mem_append, hf, List.mem_cons] at hx ⊢
      tauto
  | emitFlight p wnd hp =>
    refine ⟨h.queued, h.ctl, ?_⟩
    intro d hd
    rcases List.mem_append.1 hd with hd | hd
    · exact h.emitted d hd
    · rw [List.mem_singleton.1 hd]; exact .inl (h.queued p (List.mem_append_right _ hp))
  | pushCtl d dup hd =>
    refine ⟨h.queued, ?_, h.emitted⟩
    intro q hq
    rcases List.mem_append.1 hq with hq | hq
    · exact h.ctl q hq
    · rw [List.mem_singleton.1 hq]; exact hK.pushed hG hd
  | mergeWnd q rest hq =>
    have hctl := h.ctl
    rw [hq] at hctl
    refine ⟨h.queued, ?_, h.emitted⟩
    intro x hx
    rcases List.mem_cons.1 hx with rfl | hx
    · exact hK.merged (hctl q (by simp))
    · exact hctl x (by simp [hx])
  | emitCtl q rest wnd hq =>
    refine ⟨h.queued, ?_, ?_⟩
    · intro x hx
      obtain ⟨y, hy, he⟩ := pack_of_mem_pop hx
      rw [← he]; exact h.ctl y hy
    · intro d hd
      rcases List.mem_append.1 hd with hd | hd
      · exact h.emitted d hd
      · rw [List.mem_singleton.1 hd]; exact .inr (hK.stamped _ _ (h.ctl q (by simp [hq])))
  | number flag _ =>
    refine h.number ⟨.fresh s.dsn flag [] (Nat.zero_le _), 0, 0⟩ hstep (by simp [contents, Sender.number]) ?_ rfl rfl
    intro x hx
    simp [Sender.number] at hx ⊢; tauto
  | shutFin _ _ =>
    refine h.number ⟨.fresh s.dsn .fin [] (Nat.zero_le _), 0, 0⟩ hstep (by simp [contents, Sender.number]) ?_ rfl rfl
    intro x hx
    simp [Sender.number] at hx ⊢; tauto
  | package _ _ =>
    refine h.number ⟨.fresh s.dsn (.dat ||| .ack) (s.sb.take wcpMdu) (List.length_take_le _ _), 0, 0⟩ hstep
      (by simp [contents, Sender.package]) ?_ rfl rfl
    intro x hx
    simp [Sender.package] at hx ⊢; tauto
  | moveStandby =>
    refine ⟨fun x hx => h.queued x ?_, h.ctl, h.emitted⟩
    simpa using hx
  | restampSending p q rest hp hq =>
    refine ⟨?_, h.ctl, h.emitted⟩
    intro x hx
    by_cases hxq : x = q
    · rw [hxq, hq]; exact h.queued p (by simp [hp])
    · refine h.queued x ?_
      simp only [List.mem_append, hp, List.mem_cons] at hx ⊢
      tauto
  | launch p q rest wnd hp hq _ _ _ _ _ => exact h.launch hp hq rest (fun x hx => .inr hx) _ _
  | launchFin p q rest wnd hp hq _ _ _ _ _ => exact h.launch hp hq (q :: rest) (fun x hx => List.mem_cons.1 hx) _ _
  | _ => exact ⟨h.queued, h.ctl, h.emitted⟩

end Sender

/-! ### What a receiver takes -/

namespace Receiver

variable {P : WcbReceivedPack → Prop} {r r' : Receiver}

/-- Every pack that came in satisfies `P`, and those behind the classification are counted. -/
structure All (P : WcbReceivedPack → Prop) (r : Receiver) : Prop where
  arrived : ∀ p ∈ r.arrived, P p
  held : ∀ p ∈ r.received, P p ∧ p.inSeqSpace = true
  consumed : ∀ p ∈ r.consumed, P p ∧ p.inSeqSpace = true

theorem All.mono {P' : WcbReceivedPack → Prop} (h : All P r) (hP : ∀ p, P p → P' p) : All P' r :=
  ⟨fun p hp => hP p (h.arrived p hp), fun p hp => (h.held p hp).imp_left (hP p),
    fun p hp => (h.consumed p hp).imp_left (hP p)⟩

theorem All.step (h : All P r) (hs : Step P r r') : All P r' := by
  have harr := hs.arrived h.arrived
  cases hs with
  | insert p hp hsp _ =>
    refine ⟨harr, ?_, h.consumed⟩
    intro q hq
    rcases SeqList.mem_insertByKey hq with rfl | hq
    · exact ⟨hp, hsp⟩
    · exact h.held q hq
  | consume p rest fin hr _ _ =>
    have hheld := h.held
    rw [hr] at hheld
    refine ⟨harr, fun q hq => hheld q (by simp [show q ∈ rest from hq]), ?_⟩
    intro q hq
    rcases List.mem_append.1 hq with hq | hq
    · exact h.consumed q hq
    · rw [List.mem_singleton.1 hq]; exact hheld p (by simp)
  | consumeRst p rest hr _ _ =>
    refine ⟨harr, h.held, ?_⟩
    intro q hq
    rcases List.mem_append.1 hq with hq | hq
    · exact h.consumed q hq
    · rw [List.mem_singleton.1 hq]; exact h.held p (by simp [hr])
  | drop p rest hr _ => exact ⟨harr, fun q hq => h.held q (by simp [hr, show q ∈ rest from hq]), h.consumed⟩
  | _ => exact ⟨harr, h.held, h.consumed⟩

/-- What was consumed stays consumed. -/
theorem Step.consumed_append (hs : Step P r r') : ∃ l, r'.consumed = r.consumed ++ l := by
  cases hs with
  | consume p rest fin _ _ _ => exact ⟨[p], rfl⟩
  | consumeRst p rest _ _ _ => exact ⟨[p], rfl⟩
  | _ => exact ⟨[], (List.append_nil _).symm⟩

theorem Step.consumed_le (hs : Step P r r') : r.consumed.length ≤ r'.consumed.length := by
  obtain ⟨l, hl⟩ := hs.consumed_append
  rw [hl, List.length_append]
  exact Nat.le_add_right _ _

end Receiver

/-! ### One party -/

section

variable {w w' w₁ w₂ : Wcb} {e : Event} {now : Nat} {b : Bool}

/-- Each time `check_send` runs during the event, `update_rwnd` is not due. -/
def WndClear (w : Wcb) : Event → Prop
  | .checkSend t => ¬ BareWndDue t.now (w.prepare t)
  | .update t => ∀ w₁ w₂, (w.state = .syning ∧ w₁ = w.prepare t ∨ checkRecv t.now (w.prepare t) = .ok w₁) →
      checkFlights t.now w₁ = .ok w₂ → ¬ BareWndDue t.now w₂
  | _ => True

/-- The steps of a sender whose packs carry `stamp`; without `update_rwnd` if `b` is false. -/
def Sender.StampedBy (b : Bool) (stamp : Nat) (s s' : Sender) : Prop :=
  ∃ m : Mode, m.stamp = stamp ∧ m.bareWnd = b ∧ Step m s s'

theorem SndSim.stampedBy {m : Sender.Mode} (h : SndSim m Wcb.snd w.snd.sender (.ok w')) :
    ReflTransGen (Sender.StampedBy m.bareWnd m.stamp) w.snd.sender w'.snd.sender :=
  ReflTransGen.mono (fun _ _ hs => ⟨m, rfl, rfl, hs⟩) _ _ h

theorem checkSend_next (h : checkSend now w = .ok w') : w'.rcv.next = w.rcv.next :=
  congrArg Receiver.next (checkSend_receiver h)

theorem checkFlights_stamped (h : checkFlights now w = .ok w') :
    ReflTransGen (Sender.StampedBy b w'.rcv.next) w.snd.sender w'.snd.sender := by
  have hn := congrArg Rcv.next (checkFlights_rcv h)
  have hsim : SndSim ⟨.flights, w'.rcv.next, fun _ => True, b⟩ Wcb.snd w.snd.sender (checkFlights now w) :=
    checkFlights_sim nofun hn.symm
  rw [h] at hsim
  exact hsim.stampedBy

theorem checkSend_stamped (hb : b = true ∨ ¬ BareWndDue now w) (h : checkSend now w = .ok w') :
    ReflTransGen (Sender.StampedBy b w'.rcv.next) w.snd.sender w'.snd.sender := by
  have hn := checkSend_next h
  have hsim : SndSim ⟨.send, w'.rcv.next, fun _ => True, b⟩ Wcb.snd w.snd.sender (checkSend now w) :=
    checkSend_sim rfl hn.symm hb
  rw [h] at hsim
  exact hsim.stampedBy

theorem checkRecv_stamped (stamp : Nat) (h : checkRecv now w = .ok w') :
    ReflTransGen (Sender.StampedBy b stamp) w.snd.sender w'.snd.sender := by
  have hsim : SndSim ⟨.recv, stamp, fun _ => True, b⟩ Wcb.snd w.snd.sender (checkRecv now w) :=
    checkRecv_sim rfl fun _ _ => trivial
  rw [h] at hsim
  exact hsim.stampedBy

theorem checkAll_stamped
    (hb : b = true ∨ ∀ w₁ w₂, checkRecv now w = .ok w₁ → checkFlights now w₁ = .ok w₂ → ¬ BareWndDue now w₂)
    (h : checkAll now w = .ok w') : ReflTransGen (Sender.StampedBy b w'.rcv.next) w.snd.sender w'.snd.sender := by
  unfold checkAll at h
  obtain ⟨w₁, h₁, h⟩ := bind_eq_ok.1 h
  obtain ⟨w₂, h₂, h₃⟩ := bind_eq_ok.1 h
  have hn : w'.rcv.next = w₂.rcv.next := checkSend_next h₃
  refine (checkRecv_stamped _ h₁).trans (ReflTransGen.trans ?_ (checkSend_stamped (hb.imp_right fun hb => hb _ _ h₁ h₂) h₃))
  rw [hn]
  exact checkFlights_stamped h₂

/-- Whatever happens to a connection, its packs carry the `rcv_info.next` of the state reached. -/
theorem step_stamped (hb : b = true ∨ WndClear w e) (h : step e w = .ok w') :
    ReflTransGen (Sender.StampedBy b w'.rcv.next) w.snd.sender w'.snd.sender := by
  cases hc : e.isCall with
  | true =>
    have hsim : SndSim ⟨.user, w'.rcv.next, fun _ => True, b⟩ Wcb.snd w.snd.sender (step e w) := call_sim hc rfl
    rw [h] at hsim
    exact hsim.stampedBy
  | false =>
    cases e with
    | checkRecv t => exact checkRecv_stamped (w := w.prepare t) _ h
    | checkFlights t => exact checkFlights_stamped (w := w.prepare t) h
    | checkSend t => exact checkSend_stamped (w := w.prepare t) hb h
    | update t =>
      have h : update t.now (w.prepare t) = .ok w' := h
      rcases update_eq t.now (w.prepare t) with ⟨state, errno, -, he⟩ | ⟨-, k, -, he⟩ | ⟨hst, he⟩ <;> rw [he] at h
      · cases h; exact .refl
      · obtain ⟨w₁, h₁, rfl⟩ := map_eq_ok.1 h
        have hs := checkAll_stamped (w := w.prepare t) (hb.imp_right fun hb v₁ v₂ hv => hb v₁ v₂ (.inr hv)) h₁
        exact hs
      · obtain ⟨w₂, h₂, h₃⟩ := bind_eq_ok.1 h
        have hclear := hb.imp_right fun hb => hb _ w₂ (.inl ⟨hst, rfl⟩) h₂
        refine ReflTransGen.trans ?_ (checkSend_stamped hclear h₃)
        rw [checkSend_next h₃]
        exact checkFlights_stamped (w := w.prepare t) h₂
    | _ => cases hc

end

/-! ### Both parties -/

inductive Side
  | client | server
deriving DecidableEq

def Side.peer : Side → Side
  | .client => .server
  | .server => .client

@[simp] theorem Side.peer_ne (x : Side) : x.peer ≠ x := by cases x <;> decide

@[simp] theorem Side.peer_peer (x : Side) : x.peer.peer = x := by cases x <;> rfl

theorem Side.eq_or_eq_peer (x y : Side) : y = x ∨ y = x.peer := by cases x <;> cases y <;> simp [Side.peer]

/-- The control blocks of the two ends. -/
abbrev Pair := Side → Wcb

inductive PairEvent
  | on (x : Side) (e : Event) -- a user call or a tick at `x`
  | deliver (x : Side) (k : Nat) -- the `k`-th pack the peer has sent reaches `x`
  | accept (k : Nat) -- the `k`-th pack of the client reaches the listener and makes the server

/-- One step of the two ends and the network; `addr` are their addresses. A pack may be delivered any
number of times, in any order or never. -/
def pairStep (addr : Side → Address) : PairEvent → Pair → Except Fault Pair
  | .on _ (.arrive _), s => .ok s
  | .on x e, s => (step e (s x)).map (Function.update s x)
  | .deliver x k, s =>
    match (s x.peer).snd.hist.emitted[k]? with
    | none => .ok s
    | some d => .ok (Function.update s x (arrive ⟨d, addr x.peer⟩ (s x)))
  | .accept k, s =>
    match (s .client).snd.hist.emitted[k]? with
    | none => .ok s
    | some d =>
      if (s .server).remoteAddr.isNull ∧ d.testFlag .syn ∧ ¬ d.testFlag .rst then
        .ok (Function.update s .server (synRcvd ⟨d, addr .client⟩ (s .server)))
      else .ok s

/-- The client has called `connect`, the server does not exist yet. -/
structure PairStart (addr : Side → Address) (s : Pair) : Prop where
  addr_ne : ∀ x, (addr x).isNull = false
  client : ∃ u now rcvCap sndCap, connect (addr .server) now (Wcb.init u now rcvCap sndCap) = .ok (s .client)
  server : ∃ u now rcvCap sndCap, s .server = Wcb.init u now rcvCap sndCap

variable {addr : Side → Address} {s s' s₀ : Pair} {x : Side} {K : Datagram → Prop} {pe : PairEvent} {es : List PairEvent}

/-- What a step of the pair does: something happens at one end, and a pack that arrives there was sent
by the other. -/
theorem pairStep_cases (h : pairStep addr pe s = .ok s') :
    s' = s ∨
    (∃ y e w, pe = .on y e ∧ (∀ p, e ≠ .arrive p) ∧ step e (s y) = .ok w ∧ s' = Function.update s y w) ∨
    (∃ y d, d ∈ (s y.peer).snd.hist.emitted ∧ s' = Function.update s y (arrive ⟨d, addr y.peer⟩ (s y))) ∨
    (∃ d, d ∈ (s .client).snd.hist.emitted ∧ (s .server).remoteAddr.isNull = true ∧ d.testFlag .syn = true ∧
      s' = Function.update s .server (synRcvd ⟨d, addr .client⟩ (s .server))) := by
  cases pe with
  | on y e =>
    by_cases ha : ∃ p, e = .arrive p
    · obtain ⟨p, rfl⟩ := ha
      cases h; exact .inl rfl
    · have ha : ∀ p, e ≠ .arrive p := fun p hp => ha ⟨p, hp⟩
      have h : (step e (s y)).map (Function.update s y) = .ok s' := by
        cases e <;> first | exact absurd rfl (ha _) | exact h
      obtain ⟨w, hw, rfl⟩ := map_eq_ok.1 h
      exact .inr (.inl ⟨y, e, w, rfl, ha, hw, rfl⟩)
  | deliver y k =>
    unfold pairStep at h
    dsimp only at h
    cases hd : (s y.peer).snd.hist.emitted[k]? with
    | none => rw [hd] at h; cases h; exact .inl rfl
    | some d => rw [hd] at h; cases h; exact .inr (.inr (.inl ⟨y, d, List.mem_of_getElem? hd, rfl⟩))
  | accept k =>
    unfold pairStep at h
    dsimp only at h
    cases hd : (s .client).snd.hist.emitted[k]? with
    | none => rw [hd] at h; cases h; exact .inl rfl
    | some d =>
      rw [hd] at h
      dsimp only at h
      split_ifs at h with hc
      · cases h; exact .inr (.inr (.inr ⟨d, List.mem_of_getElem? hd, hc.1, hc.2.1, rfl⟩))
      · cases h; exact .inl rfl

/-- The packs that reach the peer of `x`: those that took a number at `x`, and control packs. -/
def Known (K : Datagram → Prop) (s : Snd) (p : WcbReceivedPack) : Prop := p.content ∈ s.sender.contents ∨ K p.toDatagram

/-- The direction from `x` to its peer. -/
structure Feeds (K : Datagram → Prop) (x : Side) (s : Pair) : Prop where
  numbered : (s x).snd.sender.Numbered
  emits : (s x).snd.sender.Emits K
  taken : (s x.peer).rcv.receiver.All (Known K (s x).snd)
  log : (s x.peer).rcv.receiver.Log

/-- `K` is lost neither by any step of a sender nor, without `update_rwnd`, by the others. -/
def Classes (b : Bool) (K : Datagram → Prop) : Prop :=
  ∀ m : Sender.Mode, m.bareWnd = b → Sender.CtlClass m (fun _ => True) K

theorem Sender.contents_subset_star {R : Sender → Sender → Prop} (hR : ∀ v v', R v v' → ∃ m, Step m v v')
    {v v' : Sender} (hs : ReflTransGen R v v') : ∀ c ∈ v.contents, c ∈ v'.contents := by
  intro c hc
  refine Simulates.star_inv (I := fun v => c ∈ v.contents) (fun u u' hu hr => ?_) hc hs
  obtain ⟨m, hs⟩ := hR u u' hr
  exact contents_subset hs c hu

theorem Feeds.sender {w : Wcb} {b : Bool} {stamp : Nat} (h : Feeds K x s) (hK : Classes b K)
    (hs : ReflTransGen (Sender.StampedBy b stamp) (s x).snd.sender w.snd.sender) :
    Feeds K x (Function.update s x w) := by
  have hn : w.snd.sender.Numbered := Simulates.star_inv (fun _ _ hv ⟨_, _, _, hs⟩ => hv.step hs) h.numbered hs
  have he : w.snd.sender.Emits K :=
    Simulates.star_inv (fun _ _ hv ⟨m, _, hm, hs⟩ => hv.step (hK m hm) trivial hs) h.emits hs
  have hsub := Sender.contents_subset_star (fun _ _ ⟨m, _, _, hs⟩ => ⟨m, hs⟩) hs
  refine ⟨by simpa using hn, by simpa using he, ?_, ?_⟩
  · rw [Function.update_self, Function.update_of_ne x.peer_ne]
    exact h.taken.mono fun p hp => hp.imp_left (hsub _)
  · rw [Function.update_of_ne x.peer_ne]; exact h.log

theorem Feeds.receiver {w : Wcb} (h : Feeds K x s)
    (hs : ReflTransGen (Receiver.Step (Known K (s x).snd)) (s x.peer).rcv.receiver w.rcv.receiver) :
    Feeds K x (Function.update s x.peer w) := by
  have hx : Function.update s x.peer w x = s x := Function.update_of_ne x.peer_ne.symm _ _
  refine ⟨by rw [hx]; exact h.numbered, by rw [hx]; exact h.emits, ?_, ?_⟩
  · rw [hx, Function.update_self]
    exact Simulates.star_inv (fun _ _ hv hs => hv.step hs) h.taken hs
  · rw [Function.update_self]
    exact Simulates.star_inv (fun _ _ hv hs => hv.step hs) h.log hs

/-- A pack that `x` has sent reaches its peer. -/
theorem Feeds.arrive {d : Datagram} (h : Feeds K x s) (hd : d ∈ (s x).snd.hist.emitted) (from_ : Address) {w : Wcb}
    (hw : w.rcv.receiver = { (s x.peer).rcv.receiver with arrived := (s x.peer).rcv.receivedVecStandby ++ [⟨d, from_⟩] }) :
    Feeds K x (Function.update s x.peer w) := by
  refine h.receiver ?_
  rw [hw]
  exact .single (.arrive ⟨d, from_⟩ (h.emits.emitted d hd))

/-- An arrival at `x` does not concern this direction. -/
theorem Feeds.frame {w : Wcb} (h : Feeds K x s) (hw : w.snd = (s x).snd) : Feeds K x (Function.update s x w) := by
  have hx : (Function.update s x w x).snd = (s x).snd := by rw [Function.update_self]; exact hw
  have hp : Function.update s x w x.peer = s x.peer := Function.update_of_ne x.peer_ne _ _
  exact ⟨by rw [hx]; exact h.numbered, by rw [hx]; exact h.emits, by rw [hx, hp]; exact h.taken, by rw [hp]; exact h.log⟩

/-- A step of the pair keeps the direction from `x`; `update_rwnd` must not be due there unless `K`
allows for its pack. -/
theorem Feeds.step {b : Bool} (h : Feeds K x s) (hK : Classes b K)
    (hb : b = true ∨ ∀ e, pe = .on x e → WndClear (s x) e) (hs : pairStep addr pe s = .ok s') : Feeds K x s' := by
  rcases pairStep_cases hs with rfl | ⟨y, e, w, rfl, ha, hw, rfl⟩ | ⟨y, d, hd, rfl⟩ | ⟨d, hd, -, -, rfl⟩
  · exact h
  · rcases x.eq_or_eq_peer y with rfl | rfl
    · exact h.sender hK (step_stamped (hb.imp_right fun hb => hb e rfl) hw)
    · exact h.receiver (step_receiver h.taken.arrived (fun p hp => absurd hp (ha p)) hw)
  · rcases x.eq_or_eq_peer y with rfl | rfl
    · exact h.frame rfl
    · rw [Side.peer_peer] at hd ⊢
      exact h.arrive hd (addr x) rfl
  · cases x with
    | client => exact h.arrive hd (addr .client) rfl
    | server => exact h.frame rfl

theorem PairStart.feeds (h : PairStart addr s) (x : Side) : Feeds K x s := by
  obtain ⟨uc, nc, rc, sc, hc⟩ := h.client
  obtain ⟨us, ns, rs, ss, hs⟩ := h.server
  unfold connect at hc
  split_ifs at hc
  have hc : s .client = _ := (Except.ok.inj hc).symm
  cases x with
  | client =>
    refine ⟨?_, ?_, ?_, ?_⟩
    · rw [hc]
      exact Sender.Numbered.number (s := (Wcb.init uc nc rc sc).snd.sender) ⟨rfl, rfl, rfl, nofun, nofun⟩ .syn false
        fun _ => ⟨rfl, by decide⟩
    · rw [hc]; exact ⟨fun p hp => List.mem_map.2 ⟨p, hp, rfl⟩, nofun, nofun⟩
    · show Receiver.All _ (s .server).rcv.receiver
      rw [hs]; exact ⟨nofun, nofun, nofun⟩
    · show (s .server).rcv.receiver.Log
      rw [hs]; exact ⟨rfl, rfl, rfl, nofun⟩
  | server =>
    refine ⟨?_, ?_, ?_, ?_⟩
    · rw [hs]; exact ⟨rfl, rfl, rfl, nofun, nofun⟩
    · rw [hs]; exact ⟨nofun, nofun, nofun⟩
    · show Receiver.All _ (s .client).rcv.receiver
      rw [hc]; exact ⟨nofun, nofun, nofun⟩
    · show (s .client).rcv.receiver.Log
      rw [hc]; exact ⟨rfl, rfl, rfl, nofun⟩

/-! ### The stream -/

/-- Every pack consumed carries what `x` gave to its number, in order. -/
theorem Feeds.prefix (h : Feeds (fun d => d.inSeqSpace = false) x s) (hlt : (s x).snd.hist.numbered.length < 2 ^ 32) :
    (s x.peer).rcv.hist.consumed.map (fun p => p.content) <+: (s x).snd.sender.contents := by
  refine SeqList.prefix_of_numbered (M := 2 ^ 32) ?_ ?_ (by rw [Sender.contents, List.length_map]; exact hlt) ?_
  · rw [List.map_map, List.length_map]; exact h.log.seqs
  · rw [Sender.contents, List.map_map, List.length_map]; exact h.numbered.seqs
  · intro c hc
    obtain ⟨p, hp, rfl⟩ := List.mem_map.1 hc
    obtain ⟨hknown, hseq⟩ := h.taken.consumed p hp
    exact hknown.resolve_right fun hK => Bool.false_ne_true (hK.symm.trans hseq)

/-- In every run of two connected ends over a network that loses, duplicates and reorders, with fewer
than `2 ^ 32` numbers taken and no bare window update sent by `x`: what the user at the peer of `x` has
read is a prefix of what the user at `x` has handed over. -/
theorem streamPrefix (h₀ : PairStart addr s₀)
    (h : Run (pairStep addr) (fun s pe => ∀ e, pe = .on x e → WndClear (s x) e) s₀ es s)
    (hlt : (s x).snd.hist.numbered.length < 2 ^ 32) :
    (s x.peer).rcv.hist.returned <+: (s x).snd.hist.accepted := by
  have hf : Feeds (fun d => d.inSeqSpace = false) x s := by
    refine h.inv _ (fun s pe s' hf hC hs => ?_) (h₀.feeds x)
    exact hf.step (b := false) (fun m hm => Sender.ctlClass_not_inSeqSpace hm) (.inr hC) hs
  obtain ⟨l, hl⟩ := hf.prefix hlt
  have hacc : (s x).snd.hist.accepted = Sender.payload (s x).snd.hist.numbered ++ (s x).snd.sb.items :=
    hf.numbered.accepted
  have hstream : (s x.peer).rcv.hist.returned ++ (s x.peer).rcv.rb.items ++ (s x.peer).rcv.rbStandby.items =
      (s x.peer).rcv.hist.consumed.flatMap (fun p => p.data) := hf.log.stream_eq
  have hpay : Sender.payload (s x).snd.hist.numbered =
      (s x.peer).rcv.hist.consumed.flatMap (fun p => p.data) ++ l.flatMap (fun c => c.2.2) := by
    have := congrArg (List.flatMap fun c => c.2.2) hl
    rw [List.flatMap_append, List.flatMap_map, Sender.contents, List.flatMap_map] at this
    exact this.symm
  rw [hacc, hpay, ← hstream, List.append_assoc, List.append_assoc, List.append_assoc]
  exact List.prefix_append _ _

/-! ### Two runs -/

def addrs : Side → Address
  | .client => ⟨1⟩
  | .server => ⟨2⟩

/-- A client that has called `connect`, with the smallest buffers. -/
def Pair.opening : Pair
  | .client => Wcb.connecting
  | .server => Wcb.init ⟨0, 0, 0, 0⟩ 0 (2 * wcpRcvBufferMin) (2 * wcpSndBufferMin)

theorem pairStart_opening : PairStart addrs Pair.opening where
  addr_ne x := by cases x <;> rfl
  client := ⟨⟨0, 0, 0, 0⟩, 0, 2 * wcpRcvBufferMin, 2 * wcpSndBufferMin, rfl⟩
  server := ⟨⟨0, 0, 0, 0⟩, 0, 2 * wcpRcvBufferMin, 2 * wcpSndBufferMin, rfl⟩

/-- Both ends reach `WCB_ESTABLISHED`. -/
def pairHandshake : List PairEvent :=
  [.on .client (.checkSend (.at 1)), .accept 0, .on .server (.update (.at 1)), .deliver .client 2,
    .on .client (.checkRecv (.at 2)), .on .client (.checkSend (.at 2)), .deliver .server 3, .on .server (.update (.at 2))]

/-- A byte goes from the client to the server. -/
def pairByte : List PairEvent :=
  pairHandshake ++ [.on .client (.send [7]), .on .client (.checkSend (.at 3)), .deliver .server 4,
    .on .server (.update (.at 4)), .on .server (.recv 1)]

/-- `WndClear` at the client, for evaluation. -/
def clientWndClear (s : Pair) : PairEvent → Bool
  | .on .client (.checkSend t) => !decide (BareWndDue t.now ((s .client).prepare t))
  | .on .client (.update _) => false
  | _ => true

theorem wndClear_of_client {e : Event} (h : clientWndClear s (.on .client e) = true) : WndClear (s .client) e := by
  cases e with
  | checkSend t => exact of_decide_eq_false (by simpa [clientWndClear] using h)
  | update t => cases h
  | _ => trivial

theorem streamPrefix_byte : ∃ s, Run (pairStep addrs) (fun _ _ => True) Pair.opening pairByte s ∧
    (s .server).rcv.hist.returned = [7] ∧ (s .server).rcv.hist.returned <+: (s .client).snd.hist.accepted := by
  obtain ⟨s, hpass, hs⟩ := Run.of_passes (f := pairStep addrs) (P := clientWndClear)
    (Q := fun s => decide ((s .server).rcv.hist.returned = [7] ∧ (s .client).snd.hist.numbered.length < 2 ^ 32)) pairByte
    (s := Pair.opening) (by decide +kernel)
  have hrun := hpass.mono fun _ _ _ => trivial
  obtain ⟨hret, hlt⟩ := of_decide_eq_true hs
  have hclear := hpass.mono (fun s pe h e (he : pe = .on .client e) => wndClear_of_client (he ▸ h))
  exact ⟨s, hrun, hret, streamPrefix (x := .client) pairStart_opening hclear hlt⟩

/-- The server fills the client's receive buffer; the client then sends a bare window update, the
server takes it for the number of the next data pack, and the byte 1 in that pack is lost. -/
def pairLoss : List PairEvent :=
  pairHandshake ++ [.on .server (.send (List.replicate (7 * wcpMdu) 8)), .on .server (.update (.at 3))] ++
    (List.range 7).map (fun k => .deliver .client (5 + k)) ++
    [.on .client (.update (.at 4)), .on .client (.update (.at 2000)), .deliver .server 4, .deliver .server 6,
      .on .server (.update (.at 2001)), .on .client (.send [1]), .on .client (.update (.at 2002)), .deliver .server 7,
      .on .server (.update (.at 2003)), .on .client (.send [2]), .on .client (.update (.at 2004)), .deliver .server 8,
      .on .server (.update (.at 2005)), .on .server (.recv 1)]

theorem not_streamPrefix_loss : ∃ s, Run (pairStep addrs) (fun _ _ => True) Pair.opening pairLoss s ∧
    (s .client).snd.hist.numbered.length < 2 ^ 32 ∧
    ¬ (s .server).rcv.hist.returned <+: (s .client).snd.hist.accepted := by
  obtain ⟨s, hrun, hs⟩ := Run.of_reaches (f := pairStep addrs) pairLoss Pair.opening
    (P := fun s => decide ((s .client).snd.hist.numbered.length < 2 ^ 32 ∧
      ¬ (s .server).rcv.hist.returned <+: (s .client).snd.hist.accepted)) (by decide +kernel)
  exact ⟨s, hrun, of_decide_eq_true hs⟩

end Wawo
