import Wawo.Wcp.Pair

/-!
# Teardown: what acknowledges a FIN

Behind its own FIN a connection waits for the peer to acknowledge it, and the ACK branch of
`check_recv` takes any delivered pack with the ACK flag for that. `ackTrace` lists what the ACK branch
does in a call: the pack, the state before and the state after. If the packs with the ACK flag that a
tick can deliver all acknowledge the FIN, every move of the teardown rests on such a pack, and the
peer has consumed the FIN (`teardown`).
-/

namespace Wawo

open Lts Relation

/-- What the ACK branch does in one round of the delivery loop, if the round gets there. -/
def ackRound (now : Nat) (p : WcbReceivedPack) (rest : List WcbReceivedPack) (w : Wcb) : Option (WcbState × WcbState) :=
  if p.seq ≠ w.rcv.next then none
  else
    match deliverData w p rest with
    | .ok (w, .more) =>
      if p.testFlag .rst then none
      else
        match deliverSyn { w with rcv := w.rcv.advance p } p rest with
        | (w, .more) =>
          match deliverAck now w p with
          | .ok w' => some (w.state, w'.state)
          | .error _ => none
        | (_, .stop) => none
    | _ => none

structure AckMade where
  pack : WcbReceivedPack
  before : WcbState
  after : WcbState

/-- The rounds of `deliverLoop` in which the ACK branch is reached. -/
def ackTrace (now : Nat) : List WcbReceivedPack → Wcb → List AckMade
  | [], _ => []
  | p :: rest, w =>
    let made := ((ackRound now p rest w).map fun c => ⟨p, c.1, c.2⟩).toList
    match deliverOne now p rest w with
    | .ok (w, .more) => made ++ ackTrace now rest w
    | _ => made

/-- The rounds of `checkRecv` in which the ACK branch is reached. -/
def recvAckTrace (now : Nat) (w : Wcb) : List AckMade :=
  if w.rcv.receivedVecStandby = [] then []
  else
    match takeBatch now w.rcv.receivedVecStandby w.takeArrived with
    | .ok w => ackTrace now w.rcv.received w
    | .error _ => []

/-- The moves of the ACK branch behind a FIN. -/
def AckMade.tearsDown (m : AckMade) : Prop :=
  (m.before, m.after) ∈ [(WcbState.finWait1, WcbState.finWait2), (.closing, .timeWait), (.lastAck, .closed)]

variable {w w' : Wcb} {now f : Nat} {p : WcbReceivedPack} {rest l : List WcbReceivedPack} {m : AckMade}

/-- A round that goes on has passed the ACK branch as the trace has it, and the FIN branch after it. -/
theorem ackRound_of_more (h : deliverOne now p rest w = .ok (w', .more)) :
    ∃ w₁ w₂, ackRound now p rest w = some (w₁.state, w₂.state) ∧ deliverAck now w₁ p = .ok w₂ ∧
      w' = { deliverFin now w₂ p with rcv := { (deliverFin now w₂ p).rcv with received := rest } } := by
  unfold deliverOne at h
  split_ifs at h with hlt hne
  · cases h
  obtain ⟨⟨v, y⟩, hd, h⟩ := bind_eq_ok.1 h
  cases y with
  | stop => cases h
  | more =>
    rcases deliverFlags_cases h with ⟨-, hx, -⟩ | ⟨-, hx, -⟩ | ⟨hrst, -, w₁, w₂, hs, ha, rfl⟩
    · cases hx
    · cases hx
    · refine ⟨w₁, w₂, ?_, ha, rfl⟩
      unfold ackRound
      rw [if_neg hne, hd]
      dsimp only
      rw [if_neg (by simp [hrst]), hs]
      dsimp only
      rw [ha]

/-- The ACK branch moves only with a pack that has the ACK flag. -/
theorem ackRound_moved {c : WcbState × WcbState} (h : ackRound now p rest w = some c) (hc : c.1 ≠ c.2) :
    p.testFlag .ack = true := by
  unfold ackRound at h
  split at h
  · cases h
  split at h
  · split at h
    · cases h
    split at h
    · split at h
      · rename_i w₁ _ w₂ ha
        cases h
        rcases deliverAck_cases ha with rfl | ⟨hf, -⟩
        · exact absurd rfl hc
        · exact hf
      · cases h
    · cases h
  · cases h

theorem mem_ackTrace (h : m ∈ ackTrace now l w) :
    m.pack ∈ l ∧ (m.before ≠ m.after → m.pack.testFlag .ack = true) := by
  induction l generalizing w with
  | nil => cases h
  | cons p rest ih =>
    have hmade : m ∈ ((ackRound now p rest w).map fun c => AckMade.mk p c.1 c.2).toList →
        m.pack ∈ p :: rest ∧ (m.before ≠ m.after → m.pack.testFlag .ack = true) := by
      intro hm
      obtain ⟨c, hc, rfl⟩ := Option.map_eq_some_iff.1 (Option.mem_toList.1 hm)
      exact ⟨by simp, fun hne => ackRound_moved hc hne⟩
    unfold ackTrace at h
    dsimp only at h
    split at h
    · rcases List.mem_append.1 h with h | h
      · exact hmade h
      · exact (ih h).imp_left fun hp => List.mem_cons_of_mem _ hp
    · exact hmade h

/-- Every pack with the ACK flag that the next tick can deliver acknowledges the number `f`. -/
def AcksBeyond (f : Nat) (w : Wcb) : Prop :=
  ∀ p ∈ w.rcv.received ++ w.rcv.receivedVecStandby, p.testFlag .ack = true → f < p.header.ack

/-- What the ACK branch sees was held or has arrived. -/
theorem mem_recvAckTrace (h : m ∈ recvAckTrace now w) :
    m.pack ∈ w.rcv.received ++ w.rcv.receivedVecStandby ∧ (m.before ≠ m.after → m.pack.testFlag .ack = true) := by
  unfold recvAckTrace at h
  split_ifs at h
  · cases h
  split at h
  · rename_i w₁ ht
    obtain ⟨hp, hflag⟩ := mem_ackTrace h
    refine ⟨?_, hflag⟩
    have hsteps : ReflTransGen (Receiver.Step fun p => p ∈ w.rcv.received ++ w.rcv.receivedVecStandby)
        w.takeArrived.rcv.receiver w₁.rcv.receiver := takeBatch_receiver (fun p hp => List.mem_append_right _ hp) ht
    exact Simulates.star_inv (I := fun r : Receiver => ∀ p ∈ r.received, p ∈ w.rcv.received ++ w.rcv.receivedVecStandby)
      (fun _ _ hr hs => hs.held hr) (fun p hp => List.mem_append_left _ hp) hsteps m.pack hp
  · cases h

theorem AckMade.tearsDown.ne (h : m.tearsDown) : m.before ≠ m.after := by
  intro he
  unfold AckMade.tearsDown at h
  rw [he] at h
  simp only [List.mem_cons, Prod.mk.injEq, List.not_mem_nil, or_false] at h
  rcases h with ⟨h1, h2⟩ | ⟨h1, h2⟩ | ⟨h1, h2⟩ <;> rw [h1] at h2 <;> cases h2

theorem AcksBeyond.tearsDown (h : AcksBeyond f w) (hm : m ∈ recvAckTrace now w) (ht : m.tearsDown) :
    f < m.pack.header.ack := by
  obtain ⟨hp, hflag⟩ := mem_recvAckTrace hm
  exact h _ hp (hflag ht.ne)

/-! ### Two parties -/

namespace Sender

variable {s s' : Sender} {N stamp : Nat} {b : Bool}

/-- The packs sent acknowledge at most `N` numbers. -/
def AcksUpTo (N : Nat) (s : Sender) : Prop := ∀ d ∈ s.hist.emitted, d.header.ack ≤ N

theorem AcksUpTo.step (h : AcksUpTo N s) (hN : stamp ≤ N) (hs : StampedBy b stamp s s') : AcksUpTo N s' := by
  obtain ⟨m, rfl, -, hs⟩ := hs
  have hcat : ∀ p : Datagram, p.header.ack = m.stamp → ∀ d ∈ s.hist.emitted ++ [p], d.header.ack ≤ N := by
    intro p hp d hd
    rcases List.mem_append.1 hd with hd | hd
    · exact h d hd
    · rw [List.mem_singleton.1 hd, hp]; exact hN
  cases hs with
  | emitFlight p wnd _ => exact hcat _ rfl
  | emitCtl q rest wnd _ => exact hcat _ rfl
  | launch p q rest wnd _ _ _ _ _ _ _ => exact hcat _ rfl
  | launchFin p q rest wnd _ _ _ _ _ _ _ => exact hcat _ rfl
  | _ => exact h

end Sender

section

variable {addr : Side → Address} {s s' s₀ : Pair} {x : Side} {pe : PairEvent} {es : List PairEvent}

/-- What `x` has sent, and what its peer has got of it, acknowledges only what `x` has consumed. -/
structure Answers (x : Side) (s : Pair) : Prop where
  log : (s x).rcv.receiver.Log
  emitted : (s x).snd.sender.AcksUpTo (s x).rcv.hist.consumed.length
  arrived : ∀ p ∈ (s x.peer).rcv.receivedVecStandby, p.header.ack ≤ (s x).rcv.hist.consumed.length
  held : ∀ p ∈ (s x.peer).rcv.received, p.header.ack ≤ (s x).rcv.hist.consumed.length

theorem Answers.sender {w : Wcb} {e : Event} (h : Answers x s) (hs : step e (s x) = .ok w) :
    Answers x (Function.update s x w) := by
  have hsteps : ReflTransGen (Receiver.Step fun _ => True) (s x).rcv.receiver w.rcv.receiver :=
    step_receiver (fun _ _ => trivial) (fun _ _ => trivial) hs
  have hlog : w.rcv.receiver.Log := Simulates.star_inv (fun _ _ hv hs => hv.step hs) h.log hsteps
  have hle : (s x).rcv.hist.consumed.length ≤ w.rcv.hist.consumed.length :=
    Simulates.star_inv (I := fun r : Receiver => (s x).rcv.hist.consumed.length ≤ r.consumed.length)
      (fun _ _ hv hs => Nat.le_trans hv hs.consumed_le) (Nat.le_refl _) hsteps
  have hnext : w.rcv.next ≤ w.rcv.hist.consumed.length := by
    have : w.rcv.next = w.rcv.hist.consumed.length % 2 ^ 32 := hlog.next_eq
    rw [this]; exact Nat.mod_le _ _
  have hem : w.snd.sender.AcksUpTo w.rcv.hist.consumed.length :=
    Simulates.star_inv (fun _ _ hv hs => hv.step hnext hs) (fun d hd => Nat.le_trans (h.emitted d hd) hle)
      (step_stamped (b := true) (.inl rfl) hs)
  have hp : Function.update s x w x.peer = s x.peer := Function.update_of_ne x.peer_ne _ _
  refine ⟨?_, ?_, ?_, ?_⟩
  · rw [Function.update_self]; exact hlog
  · rw [Function.update_self]; exact hem
  · rw [Function.update_self, hp]; exact fun p hp => Nat.le_trans (h.arrived p hp) hle
  · rw [Function.update_self, hp]; exact fun p hp => Nat.le_trans (h.held p hp) hle

theorem Answers.receiver {w : Wcb} (h : Answers x s)
    (hs : ReflTransGen (Receiver.Step fun p => p.header.ack ≤ (s x).rcv.hist.consumed.length)
      (s x.peer).rcv.receiver w.rcv.receiver) : Answers x (Function.update s x.peer w) := by
  have hx : Function.update s x.peer w x = s x := Function.update_of_ne x.peer_ne.symm _ _
  refine ⟨by rw [hx]; exact h.log, by rw [hx]; exact h.emitted, ?_, ?_⟩
  · rw [hx, Function.update_self]
    exact Simulates.star_inv (I := fun r : Receiver => ∀ p ∈ r.arrived, p.header.ack ≤ (s x).rcv.hist.consumed.length)
      (fun _ _ hv hs => hs.arrived hv) h.arrived hs
  · rw [hx, Function.update_self]
    exact Simulates.star_inv (I := fun r : Receiver => ∀ p ∈ r.received, p.header.ack ≤ (s x).rcv.hist.consumed.length)
      (fun _ _ hv hs => hs.held hv) h.held hs

/-- Something arrives at `x`: nothing sent changes. -/
theorem Answers.frame {w : Wcb} (h : Answers x s) (hw : w.snd = (s x).snd) (hr : w.rcv.hist = (s x).rcv.hist)
    (hlog : w.rcv.receiver.Log) : Answers x (Function.update s x w) := by
  have hp : Function.update s x w x.peer = s x.peer := Function.update_of_ne x.peer_ne _ _
  refine ⟨?_, ?_, ?_, ?_⟩ <;> rw [Function.update_self]
  · exact hlog
  · rw [hw, hr]; exact h.emitted
  · rw [hp, hr]; exact h.arrived
  · rw [hp, hr]; exact h.held

theorem Answers.step (h : Answers x s) (hs : pairStep addr pe s = .ok s') : Answers x s' := by
  have hlog : ∀ l, Receiver.Log { (s x).rcv.receiver with arrived := l } :=
    fun l => ⟨h.log.stream_eq, h.log.next_eq, h.log.seqs, h.log.fin⟩
  rcases pairStep_cases hs with rfl | ⟨y, e, w, rfl, ha, hw, rfl⟩ | ⟨y, d, hd, rfl⟩ | ⟨d, hd, -, -, rfl⟩
  · exact h
  · rcases x.eq_or_eq_peer y with rfl | rfl
    · exact h.sender hw
    · exact h.receiver (step_receiver h.arrived (fun p hp => absurd hp (ha p)) hw)
  · rcases x.eq_or_eq_peer y with rfl | rfl
    · exact h.frame rfl rfl (hlog _)
    · rw [Side.peer_peer] at hd ⊢
      exact h.receiver (.single (.arrive ⟨d, addr x⟩ (h.emitted d hd)))
  · cases x with
    | client => exact h.receiver (.single (.arrive ⟨d, addr .client⟩ (h.emitted d hd)))
    | server => exact h.frame rfl rfl (hlog _)

theorem PairStart.answers (h : PairStart addr s) (x : Side) : Answers x s := by
  obtain ⟨uc, nc, rc, sc, hc⟩ := h.client
  obtain ⟨us, ns, rs, ss, hs⟩ := h.server
  unfold connect at hc
  split_ifs at hc
  have hc : s .client = _ := (Except.ok.inj hc).symm
  cases x with
  | client =>
    have hp : s Side.client.peer = s .server := rfl
    refine ⟨?_, ?_, ?_, ?_⟩
    · rw [hc]; exact ⟨rfl, rfl, rfl, nofun⟩
    · rw [hc]; exact nofun
    · rw [hp, hs]; exact nofun
    · rw [hp, hs]; exact nofun
  | server =>
    have hp : s Side.server.peer = s .client := rfl
    refine ⟨?_, ?_, ?_, ?_⟩
    · rw [hs]; exact ⟨rfl, rfl, rfl, nofun⟩
    · rw [hs]; exact nofun
    · rw [hp, hc]; exact nofun
    · rw [hp, hc]; exact nofun

/-- The peer of `x` has consumed every number that a pack at `x` acknowledges. -/
theorem Answers.consumed {p : WcbReceivedPack} (h : Answers x.peer s) (hf : Feeds (fun d => d.inSeqSpace = false) x s)
    (hlt : (s x).snd.hist.numbered.length < 2 ^ 32)
    (hp : p ∈ (s x).rcv.received ++ (s x).rcv.receivedVecStandby) {q : WcbPack} (hq : q ∈ (s x).snd.hist.numbered)
    (hack : q.seq < p.header.ack) : ∃ c ∈ (s x.peer).rcv.hist.consumed, c.content = q.content := by
  have hle : p.header.ack ≤ (s x.peer).rcv.hist.consumed.length := by
    have hheld := h.held
    have harr := h.arrived
    rw [Side.peer_peer] at hheld harr
    rcases List.mem_append.1 hp with hp | hp
    · exact hheld p hp
    · exact harr p hp
  -- the number of `q` is its place in the list of packs numbered
  obtain ⟨⟨i, hi⟩, rfl⟩ := List.mem_iff_get.1 hq
  have hseq : ((s x).snd.hist.numbered.get ⟨i, hi⟩).seq = i := by
    have := congrArg (fun l => l[i]?) hf.numbered.seqs
    have hi' : i < (s x).snd.sender.hist.numbered.length := hi
    simp only [List.getElem?_map, List.getElem?_eq_getElem hi', List.getElem?_range hi', Option.map_some,
      Option.some.injEq] at this
    rw [Nat.mod_eq_of_lt (by omega)] at this
    exact this
  rw [hseq] at hack
  have hic : i < (s x.peer).rcv.hist.consumed.length := by omega
  obtain ⟨l, hl⟩ := hf.prefix hlt
  refine ⟨(s x.peer).rcv.hist.consumed.get ⟨i, hic⟩, List.get_mem _ _, ?_⟩
  have := congrArg (fun l => l[i]?) hl
  have hi' : i < (s x).snd.sender.hist.numbered.length := hi
  rw [List.getElem?_append_left (by simpa using hic)] at this
  simp only [Sender.contents, List.getElem?_map, List.getElem?_eq_getElem hic, List.getElem?_eq_getElem hi',
    Option.map_some, Option.some.injEq] at this
  exact this

/-- If the packs with the ACK flag that a connection can deliver all acknowledge the number `f` of its
FIN, the ACK branch moves the teardown only with a pack that acknowledges it; in every run of two
parties the peer has then consumed the FIN. -/
theorem teardown (w : Wcb) (f now : Nat) :
    (AcksBeyond f w → ∀ m ∈ recvAckTrace now w, m.tearsDown → f < m.pack.header.ack) ∧
    (∀ (addr : Side → Address) (s₀ : Pair) (es : List PairEvent) (s : Pair) (x : Side), PairStart addr s₀ →
      Run (pairStep addr) (fun s pe => ∀ e, pe = .on x e → WndClear (s x) e) s₀ es s →
      (s x).snd.hist.numbered.length < 2 ^ 32 →
      ∀ fin ∈ (s x).snd.hist.numbered, fin.testFlag .fin = true → AcksBeyond fin.seq (s x) →
      ∀ t, ∀ m ∈ recvAckTrace t.now ((s x).prepare t), m.tearsDown →
        fin.seq < m.pack.header.ack ∧ ∃ q ∈ (s x.peer).rcv.hist.consumed, q.content = fin.content) := by
  refine ⟨fun h m hm ht => h.tearsDown hm ht, ?_⟩
  intro addr s₀ es s x h₀ h hlt fin hfin _ hacks t m hm ht
  have hf : Feeds (fun d => d.inSeqSpace = false) x s := by
    refine h.inv _ (fun s pe s' hf hC hs => ?_) (h₀.feeds x)
    exact hf.step (b := false) (fun m hm => Sender.ctlClass_not_inSeqSpace hm) (.inr hC) hs
  have hans : Answers x.peer s := h.inv _ (fun _ _ _ ha _ hs => ha.step hs) (h₀.answers x.peer)
  have hback : fin.seq < m.pack.header.ack := AcksBeyond.tearsDown (w := (s x).prepare t) hacks hm ht
  exact ⟨hback, hans.consumed hf hlt (mem_recvAckTrace (w := (s x).prepare t) hm).1 hfin hback⟩

/-! ### Two runs -/

instance (m : AckMade) : Decidable m.tearsDown := inferInstanceAs (Decidable (_ ∈ _))

/-- The client fills the window, sends its FIN and is in `WCB_FIN_WAIT_1`. -/
def pairFin : List PairEvent :=
  pairHandshake ++ [.on .client (.send (List.replicate (7 * wcpMdu + 1200) 8)), .on .client (.checkSend (.at 3)),
    .on .client (.shutdown .wr), .on .client (.checkSend (.at 4))]

/-- The server takes everything and answers the FIN. -/
def pairFinAcked : List PairEvent :=
  pairFin ++ (List.range 9).map (fun k => .deliver .server (4 + k)) ++
    [.on .server (.update (.at 5)), .deliver .client 7]

/-- The server has got nothing and sends a byte. -/
def pairFinCrossed : List PairEvent :=
  pairFin ++ [.on .server (.send [9]), .on .server (.update (.at 5)), .deliver .client 5]

/-- The FINs sent by the client, with the teardown moves of its next `check_recv`. -/
def clientTeardown (s : Pair) : List (WcbPack × AckMade) :=
  ((s .client).snd.hist.numbered.filter fun p => p.testFlag .fin).flatMap fun fin =>
    ((recvAckTrace 6 ((s .client).prepare (.at 6))).filter fun m => m.tearsDown).map fun m => (fin, m)

theorem teardown_acked : ∃ s, Run (pairStep addrs) (fun _ _ => True) Pair.opening pairFinAcked s ∧
    ∃ fin ∈ (s .client).snd.hist.numbered, fin.testFlag .fin = true ∧
    ∃ m ∈ recvAckTrace 6 ((s .client).prepare (.at 6)), m.tearsDown ∧
    ∃ q ∈ (s .server).rcv.hist.consumed, q.content = fin.content := by
  obtain ⟨s, hpass, hs⟩ := Run.of_passes (f := pairStep addrs) (P := clientWndClear)
    (Q := fun s => decide ((s .client).snd.hist.numbered.length < 2 ^ 32) && (clientTeardown s).any fun c =>
      ((s .client).rcv.received ++ (s .client).rcv.receivedVecStandby).all fun p =>
        !p.testFlag .ack || decide (c.1.seq < p.header.ack)) pairFinAcked (s := Pair.opening) (by decide +kernel)
  have hrun := hpass.mono fun _ _ _ => trivial
  rw [Bool.and_eq_true, decide_eq_true_eq] at hs
  obtain ⟨⟨fin, m⟩, hmem, hacks⟩ := List.any_eq_true.1 hs.2
  obtain ⟨fin', hfin, hm⟩ := List.mem_flatMap.1 hmem
  obtain ⟨m', hm, he⟩ := List.mem_map.1 hm
  cases he
  obtain ⟨hfin, hflag⟩ := List.mem_filter.1 hfin
  obtain ⟨hm, ht⟩ := List.mem_filter.1 hm
  have hbeyond : AcksBeyond fin.seq (s .client) := fun p hp ha => by
    simpa [ha] using List.all_eq_true.1 hacks p hp
  have hclear := hpass.mono (fun s pe h e (he : pe = .on .client e) => wndClear_of_client (he ▸ h))
  exact ⟨s, hrun, fin, hfin, hflag, m, hm, of_decide_eq_true ht, ((teardown (s .client) fin.seq 6).2 addrs Pair.opening pairFinAcked s .client
    pairStart_opening hclear hs.1 fin hfin hflag hbeyond (.at 6) m hm (of_decide_eq_true ht)).2⟩

/-- A data pack that crosses the FIN moves the client to `WCB_FIN_WAIT_2`; the server has not seen the
FIN. -/
theorem teardown_crossed : ∃ s, Run (pairStep addrs) (fun _ _ => True) Pair.opening pairFinCrossed s ∧
    ∃ fin ∈ (s .client).snd.hist.numbered, fin.testFlag .fin = true ∧
    ∃ m ∈ recvAckTrace 6 ((s .client).prepare (.at 6)), m.tearsDown ∧ ¬ fin.seq < m.pack.header.ack ∧
    ∀ q ∈ (s .server).rcv.hist.consumed, q.content ≠ fin.content := by
  obtain ⟨s, hrun, hs⟩ := Run.of_reaches (f := pairStep addrs) pairFinCrossed Pair.opening
    (P := fun s => (clientTeardown s).any fun c => !decide (c.1.seq < c.2.pack.header.ack) &&
      (s .server).rcv.hist.consumed.all fun q => q.content != c.1.content) (by decide +kernel)
  obtain ⟨⟨fin, m⟩, hmem, hc⟩ := List.any_eq_true.1 hs
  obtain ⟨fin', hfin, hm⟩ := List.mem_flatMap.1 hmem
  obtain ⟨m', hm, he⟩ := List.mem_map.1 hm
  cases he
  obtain ⟨hfin, hflag⟩ := List.mem_filter.1 hfin
  obtain ⟨hm, ht⟩ := List.mem_filter.1 hm
  rw [Bool.and_eq_true] at hc
  refine ⟨s, hrun, fin, hfin, hflag, m, hm, of_decide_eq_true ht, by simpa using hc.1, fun q hq => ?_⟩
  simpa using List.all_eq_true.1 hc.2 q hq

end

end Wawo
