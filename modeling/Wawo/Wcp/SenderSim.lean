import Wawo.Wcp.Sender

/-!
# The functions of a connection as steps of the abstract sender

One simulation lemma for each function of `check_recv`, `check_flights` and `check_send` and for the
user calls, assembled into `step_sim`. The lemmas `…_cases` and `…_error` say what a function can
return; `…_rcv` that it leaves the receiving half alone.
-/

namespace Wawo

open Lts Relation

/-- Every state the sending half passes through during `x` is reached by steps from `v`. -/
abbrev SndSim {α : Type} (m : Sender.Mode) (get : α → Snd) (v : Sender) (x : Except Fault α) : Prop :=
  Simulates (Sender.Step m) Sender.Faulty (fun a => (get a).sender) v x

variable {m : Sender.Mode} {s s' : Snd} {w w' : Wcb} {e : Fault}

/-! ### `check_recv` -/

theorem sender_sampleRtt (s : Snd) (rtt : Nat) : (s.sampleRtt rtt).sender = s.sender := by
  unfold Snd.sampleRtt
  dsimp only
  split_ifs <;> rfl

theorem sender_checkCwnd (s : Snd) (curr k : Nat) :
    ∃ c ≤ wcpSndCwndMax, (s.checkCwnd curr k).sender = { s.sender with cwnd := c } := by
  refine ⟨(s.checkCwnd curr k).cwnd, Nat.min_le_right _ _, ?_⟩
  unfold Snd.checkCwnd
  dsimp only
  split_ifs <;> rfl

theorem handlePackAcked_ok {p : WcbPack} {now curr : Nat} (h : s.handlePackAcked p now curr = .ok s') :
    p.totalBytes ≤ s.nflightBytes ∧
      ∃ c ≤ wcpSndCwndMax,
        s'.sender = { s.sender with nflight := s.nflightBytes - p.totalBytes, cwnd := c } := by
  unfold Snd.handlePackAcked at h
  dsimp only at h
  set t := if p.sentTimes = 1 then s.sampleRtt (u32 (subU64 now p.sentTs)) else s with ht
  have hts : t.sender = s.sender := by
    rw [ht]; split_ifs
    · exact sender_sampleRtt _ _
    · rfl
  have hnf : t.nflightBytes = s.nflightBytes := congrArg Sender.nflight hts
  split_ifs at h with hlt
  injection h with h
  subst h
  obtain ⟨c, hc, he⟩ := sender_checkCwnd { t with nflightBytes := t.nflightBytes - p.totalBytes } curr p.totalBytes
  refine ⟨by rw [← hnf]; omega, c, hc, ?_⟩
  rw [he, ← hts, ← hnf]
  rfl

theorem handlePackAcked_error {p : WcbPack} {now curr : Nat} (h : s.handlePackAcked p now curr = .error e) :
    e = .nflightBytes ∧ s.nflightBytes < p.totalBytes := by
  unfold Snd.handlePackAcked at h
  dsimp only at h
  have hnf : (if p.sentTimes = 1 then s.sampleRtt (u32 (subU64 now p.sentTs)) else s).nflightBytes =
      s.nflightBytes := by
    split_ifs
    · exact congrArg Sender.nflight (sender_sampleRtt _ _)
    · rfl
  rw [hnf] at h
  by_cases hlt : s.nflightBytes < p.totalBytes
  · rw [if_pos hlt] at h; cases h; exact ⟨rfl, hlt⟩
  · rw [if_neg hlt] at h; cases h

/-- A flight that is named by a SACK or lies below `una` is accounted for and erased. -/
theorem handlePackAcked_sim {p : WcbPack} {pre post : List WcbPack} {now curr : Nat} (hm : m.actor ≠ .send)
    (hf : s.flights = pre ++ p :: post) (hp : p.seq ∈ s.hist.sacked ∨ p.seq < s.una) :
    SndSim m (fun t : Snd => { t with flights := pre ++ post }) s.sender (s.handlePackAcked p now curr) := by
  cases h : s.handlePackAcked p now curr with
  | ok t =>
    obtain ⟨hle, c, hc, he⟩ := handlePackAcked_ok h
    have h1 : Sender.Step m s.sender _ := .dropFlight pre p post hf hp hle hm
    refine (ReflTransGen.single h1).tail ?_
    show Sender.Step m _ { t.sender with flights := pre ++ post }
    rw [he]
    exact .setCwnd c hc
  | error e =>
    obtain ⟨rfl, hlt⟩ := handlePackAcked_error h
    exact ⟨_, .refl, p, by show p ∈ s.flights; rw [hf]; simp, hlt⟩

theorem ackFlight_sim {now curr ack : Nat} (hm : m.actor ≠ .send) (hack : ack ∈ s.hist.sacked) :
    SndSim m id s.sender (s.ackFlight now curr ack) := by
  unfold Snd.ackFlight
  split
  · exact .refl
  · rename_i p hfind
    obtain ⟨hp, pre, post, hf, hpre⟩ := List.find?_eq_some_iff_append.1 hfind
    have hseq : p.seq = ack := by simpa using hp
    have herase : s.flights.eraseP (fun p => p.seq == ack) = pre ++ post := by
      rw [hf, List.eraseP_append_right _ (fun b hb => by simpa using hpre b hb)]
      simp [hseq]
    refine Simulates.bind (handlePackAcked_sim hm hf (.inl (hseq ▸ hack))) fun t ht => ?_
    obtain ⟨-, c, -, he⟩ := handlePackAcked_ok ht
    have hfl : t.flights = s.flights := congrArg Sender.flights he
    rw [hfl, herase]
    exact .refl

theorem sender_fastRecover (s : Snd) (ack : Nat) :
    ReflTransGen (Sender.Step m) s.sender (s.fastRecover ack).sender := by
  unfold Snd.fastRecover
  dsimp only
  split_ifs
  · exact .single (.setCwnd _ (Nat.min_le_right _ _))
  · exact .refl
  · exact .refl

theorem ackOne_sim {now ack : Nat} {clock : Nat → Nat} (hm : m.actor ≠ .send) (hack : ack ∈ s.hist.sacked) :
    SndSim m id s.sender (s.ackOne now clock ack) := by
  unfold Snd.ackOne
  split_ifs
  · exact .refl
  · exact Simulates.bind (ackFlight_sim hm (by exact hack)) fun t _ => sender_fastRecover t ack
  · exact Simulates.bind (ackFlight_sim hm hack) fun t _ => sender_fastRecover t ack

theorem Sender.Step.mem_sacked {v v' : Sender} {a : Nat} (h : a ∈ v.hist.sacked) (hs : Step m v v') :
    a ∈ v'.hist.sacked := by
  cases hs <;> first | exact h | exact List.mem_append_left _ h

theorem ackLoop_sim {now : Nat} {clock : Nat → Nat} {acks : List Nat} (hm : m.actor ≠ .send) (h : ∀ a ∈ acks, a ∈ s.hist.sacked) :
    SndSim m id s.sender (s.ackLoop now clock acks) :=
  Simulates.foldlM (fun v => ∀ a ∈ acks, a ∈ v.hist.sacked)
    (fun _ _ hP hs a ha => Sender.Step.mem_sacked (hP a ha) hs)
    (fun a ha _ hP => ackOne_sim hm (hP a ha)) h

theorem sender_takeAck (s : Snd) (h : WcpHeader) (ha : m.acks h.ack) :
    ReflTransGen (Sender.Step m) s.sender (s.takeAck h).sender := by
  unfold Snd.takeAck
  dsimp only
  split_ifs
  · exact .single (.ackUna _ ‹_› ha)
  · exact .refl
  · exact .single (.ackUna _ ‹_› ha)
  · exact .refl

theorem readSack_error : ∀ {l : List Byte}, readSack l = .error e → e = .sackShort
  | [], h => by cases h
  | [_], h => by cases h; rfl
  | [_, _], h => by cases h; rfl
  | [_, _, _], h => by cases h; rfl
  | a :: b :: c :: d :: rest, h => by
    unfold readSack at h
    cases hr : readSack rest with
    | ok l => rw [hr] at h; cases h
    | error e' => rw [hr] at h; cases h; exact readSack_error hr

theorem classifyOne_sim {c : Wcb × List Nat} {p : WcbReceivedPack} (ha : m.acks p.header.ack) :
    SndSim m (fun c : Wcb × List Nat => c.1.snd) c.1.snd.sender (classifyOne c p) := by
  unfold classifyOne
  dsimp only
  split_ifs
  · exact ⟨_, .refl, trivial⟩
  · cases h : readSack p.data with
    | error e => cases readSack_error h; exact ⟨_, .refl, trivial⟩
    | ok acks => exact (sender_takeAck _ _ ha).tail (.nameSacked acks)
  · exact (sender_takeAck _ _ ha).tail (.pushCtl _ 0 .keepaliveReply)
  · exact sender_takeAck _ _ ha
  · exact sender_takeAck _ _ ha

theorem classify_sim {batch : List WcbReceivedPack} (hb : ∀ p ∈ batch, m.acks p.header.ack) :
    SndSim m (fun c : Wcb × List Nat => c.1.snd) w.snd.sender (classify batch w) :=
  Simulates.foldlM (s := (w, [])) (fun _ => True) (fun _ _ _ _ => trivial) (fun p hp _ _ => classifyOne_sim (hb p hp))
    trivial

theorem classifyOne_acked {c c' : Wcb × List Nat} {p : WcbReceivedPack} (h : classifyOne c p = .ok c')
    (hc : ∀ a ∈ c.2, a ∈ c.1.snd.hist.sacked) : ∀ a ∈ c'.2, a ∈ c'.1.snd.hist.sacked := by
  have hack : (c.1.snd.takeAck p.header).hist = c.1.snd.hist := by
    unfold Snd.takeAck; dsimp only; split_ifs <;> rfl
  unfold classifyOne at h
  dsimp only at h
  split_ifs at h
  · cases hr : readSack p.data with
    | error e => rw [hr] at h; cases h
    | ok acks =>
      rw [hr] at h
      cases h
      intro a ha
      show a ∈ (c.1.snd.takeAck p.header).hist.sacked ++ acks
      rw [hack]
      rcases List.mem_append.1 ha with ha | ha
      · exact List.mem_append_left _ (hc a ha)
      · exact List.mem_append_right _ ha
  all_goals
    cases h
    intro a ha
    show a ∈ (c.1.snd.takeAck p.header).hist.sacked
    rw [hack]
    exact hc a ha

/-- What the classification loop puts into `acked_queue` was named by a SACK. -/
theorem classify_acked {batch : List WcbReceivedPack} {c : Wcb × List Nat} (h : classify batch w = .ok c) :
    ∀ a ∈ c.2, a ∈ c.1.snd.hist.sacked := by
  unfold classify at h
  exact foldlM_inv (fun c => ∀ a ∈ c.2, a ∈ c.1.snd.hist.sacked)
    (fun _ _ _ _ hc h => classifyOne_acked h hc) h (by simp)

theorem sack_steps (k : Nat) (l : List Nat) (s : Snd) :
    ReflTransGen (Sender.Step m) s.sender (Snd.SACK k l s).sender := by
  induction k generalizing l s with
  | zero => exact .refl
  | succ k ih =>
    cases l with
    | nil => exact .refl
    | cons a l =>
      rw [Snd.SACK.eq_3 _ _ _ (by simp)]
      refine .head ?_ (ih _ _)
      exact .pushCtl _ _ (.sack ((a :: l).take packAckedMax) (by simp [packAckedMax, wcpMdu, wcpMtu, wcpHeaderLen]) _)

theorem sender_queueSack (w : Wcb) : ReflTransGen (Sender.Step m) w.snd.sender (queueSack w).snd.sender :=
  sack_steps _ _ _

theorem takeBatch_sim {now : Nat} {batch : List WcbReceivedPack} (hm : m.actor ≠ .send)
    (hb : ∀ p ∈ batch, m.acks p.header.ack) :
    SndSim m Wcb.snd w.snd.sender (takeBatch now batch w) := by
  unfold takeBatch
  dsimp only
  refine Simulates.bind (classify_sim hb) fun c hc => ?_
  refine Simulates.after (sender_queueSack c.1) ?_
  have hs : ∀ a ∈ c.2, a ∈ (queueSack c.1).snd.hist.sacked := fun a ha =>
    Simulates.star_inv (I := fun v => a ∈ v.hist.sacked) (fun _ _ h hs => Sender.Step.mem_sacked h hs)
      (classify_acked hc a ha) (sender_queueSack (m := m) c.1)
  exact Simulates.bind (ackLoop_sim hm hs) fun t _ => .refl

theorem deliverData_snd {p : WcbReceivedPack} {rest : List WcbReceivedPack} {c : Wcb × Delivery}
    (h : deliverData w p rest = .ok c) : c.1.snd = w.snd := by
  unfold deliverData at h
  split_ifs at h <;> cases h <;> rfl

theorem deliverData_error {p : WcbReceivedPack} {rest : List WcbReceivedPack}
    (h : deliverData w p rest = .error e) : e = .dataNotDat ∨ e = .dataSynFin := by
  unfold deliverData at h
  split_ifs at h <;> cases h
  · exact .inr rfl
  · exact .inl rfl

theorem deliverSyn_steps (hm : m.actor = .recv) (w : Wcb) (p : WcbReceivedPack) (rest : List WcbReceivedPack) :
    ReflTransGen (Sender.Step m) w.snd.sender (deliverSyn w p rest).1.snd.sender := by
  unfold deliverSyn
  split_ifs
  · split
    · exact .single (.number (.syn ||| .ack) (by simp) (.inr hm))
    · exact .single (.number .ack (by simp) (.inr hm))
    · exact .refl
  · exact .refl

/-- The state changes of the ACK branch of the delivery loop. -/
inductive AckMove : WcbState → WcbState → Prop
  | connected : AckMove .synSent .established
  | refused : AckMove .synSent .closed
  | accepted : AckMove .synReceived .established
  | finAcked : AckMove .finWait1 .finWait2
  | lastAcked : AckMove .lastAck .closed
  | closingAcked : AckMove .closing .timeWait

theorem deliverAck_cases {now : Nat} {p : WcbReceivedPack} (h : deliverAck now w p = .ok w') :
    w' = w ∨ (p.testFlag .ack = true ∧ AckMove w.state w'.state ∧ ∃ timer errno,
      w' = { w with state := w'.state, timerState := timer, wcbErrno := errno }) := by
  unfold deliverAck at h
  by_cases hf : p.testFlag .ack = true
  · rw [if_pos hf] at h
    cases hs : w.state <;> rw [hs] at h <;> dsimp only at h
    case synSent =>
      split_ifs at h <;> cases h
      · exact .inr ⟨hf, .connected, _, _, rfl⟩
      · exact .inr ⟨hf, .refused, _, _, rfl⟩
    case synReceived => cases h; exact .inr ⟨hf, .accepted, _, _, rfl⟩
    case finWait1 => cases h; exact .inr ⟨hf, .finAcked, _, _, rfl⟩
    case lastAck => cases h; exact .inr ⟨hf, .lastAcked, _, _, rfl⟩
    case closing => cases h; exact .inr ⟨hf, .closingAcked, _, _, rfl⟩
    all_goals cases h <;> exact .inl rfl
  · rw [if_neg hf] at h; cases h; exact .inl rfl

theorem deliverAck_error {now : Nat} {p : WcbReceivedPack} (h : deliverAck now w p = .error e) :
    e = .ackRemoteNull ∨ e = .ackRemoteOther ∨ e = .ackState := by
  unfold deliverAck at h
  by_cases hf : p.testFlag .ack = true
  · rw [if_pos hf] at h
    cases hs : w.state <;> rw [hs] at h <;> dsimp only at h
    case synSent =>
      split_ifs at h <;> cases h
      · exact .inl rfl
      · exact .inr (.inl rfl)
    all_goals cases h <;> exact .inr (.inr rfl)
  · rw [if_neg hf] at h; cases h

theorem deliverAck_snd {now : Nat} {p : WcbReceivedPack} (h : deliverAck now w p = .ok w') : w'.snd = w.snd := by
  rcases deliverAck_cases h with rfl | ⟨-, -, timer, errno, he⟩
  · rfl
  · rw [he]

theorem deliverFin_steps (hm : m.actor = .recv) (now : Nat) (w : Wcb) (p : WcbReceivedPack) :
    ReflTransGen (Sender.Step m) w.snd.sender (deliverFin now w p).snd.sender := by
  unfold deliverFin
  split_ifs
  · dsimp only
    split <;> exact .single (.number .ack (by simp) (.inr hm))
  · exact .refl

theorem deliverFlags_sim {now : Nat} {p : WcbReceivedPack} {rest : List WcbReceivedPack} (hm : m.actor = .recv) :
    SndSim m (fun c : Wcb × Delivery => c.1.snd) w.snd.sender (deliverFlags now w p rest) := by
  unfold deliverFlags
  split_ifs
  · exact .refl
  have hsyn := deliverSyn_steps hm w p rest
  split
  · rename_i w₁ h₁; rw [h₁] at hsyn; exact hsyn
  · rename_i w₁ h₁
    rw [h₁] at hsyn
    refine Simulates.after hsyn ?_
    cases hack : deliverAck now w₁ p with
    | error e =>
      rcases deliverAck_error hack with rfl | rfl | rfl <;> exact ⟨_, .refl, trivial⟩
    | ok w₂ =>
      show ReflTransGen _ w₁.snd.sender _
      rw [← deliverAck_snd hack]
      exact deliverFin_steps hm now w₂ p

theorem deliverOne_sim {now : Nat} {p : WcbReceivedPack} {rest : List WcbReceivedPack} (hm : m.actor = .recv) :
    SndSim m (fun c : Wcb × Delivery => c.1.snd) w.snd.sender (deliverOne now p rest w) := by
  unfold deliverOne
  split_ifs
  · exact ⟨_, .refl, trivial⟩
  · exact .refl
  · cases hd : deliverData w p rest with
    | error e => rcases deliverData_error hd with rfl | rfl <;> exact ⟨_, .refl, trivial⟩
    | ok c =>
      obtain ⟨w₁, d⟩ := c
      have hs : w₁.snd = w.snd := deliverData_snd hd
      cases d with
      | stop => show ReflTransGen _ w.snd.sender w₁.snd.sender; rw [hs]
      | more => rw [← hs]; exact deliverFlags_sim hm

theorem deliverLoop_sim {now : Nat} {l : List WcbReceivedPack} (hm : m.actor = .recv) :
    SndSim m Wcb.snd w.snd.sender (deliverLoop now l w) := by
  induction l generalizing w with
  | nil => exact .refl
  | cons p rest ih =>
    unfold deliverLoop
    refine Simulates.bind (deliverOne_sim hm) fun c _ => ?_
    obtain ⟨w₁, d⟩ := c
    cases d with
    | stop => exact .refl
    | more => exact ih

theorem checkKeepalive_steps (now : Nat) (w : Wcb) :
    ReflTransGen (Sender.Step m) w.snd.sender (checkKeepalive now w).snd.sender := by
  unfold checkKeepalive
  dsimp only
  split_ifs
  · exact .refl
  · exact .single (.pushCtl _ 0 .keepalive)
  · exact .refl

theorem checkRecv_sim {now : Nat} (hm : m.actor = .recv)
    (hb : ∀ p ∈ w.rcv.receivedVecStandby, m.acks p.header.ack) : SndSim m Wcb.snd w.snd.sender (checkRecv now w) := by
  unfold checkRecv
  dsimp only
  split_ifs
  · exact checkKeepalive_steps now { w with rcv := { w.rcv with receivedVecStandby := [] } }
  · have hne : m.actor ≠ .send := by rw [hm]; nofun
    exact Simulates.bind (Simulates.bind (takeBatch_sim hne hb) fun _ _ => deliverLoop_sim hm) fun _ _ => .refl

/-! ### `check_flights` -/

theorem sendPack_error {d : Datagram} (h : sendPack w d = .error e) : e = .sendRemoteNull := by
  unfold sendPack at h
  dsimp only at h
  split_ifs at h
  cases h; rfl

/-- `send_pack` stamps the pack with `rcv_info` and, if it succeeds, emits it. -/
theorem sendPack_cases {d d' : Datagram} {rt : Int} (h : sendPack w d = .ok (rt, d', w')) :
    d' = d.stamp w.rcv.next w.rcv.wnd ∧ w'.rcv = w.rcv ∧ w'.state = w.state ∧
      (rt = ok ∧ w'.snd = { w.snd with hist := { w.snd.hist with emitted := w.snd.hist.emitted ++ [d'] } } ∨
        rt ≠ ok ∧ w'.snd = w.snd) := by
  unfold sendPack at h
  dsimp only at h
  split_ifs at h with hn hok
  · cases h; exact ⟨rfl, rfl, rfl, .inl ⟨hok, rfl⟩⟩
  · cases h; exact ⟨rfl, rfl, rfl, .inr ⟨hok, rfl⟩⟩

theorem sender_noteSendError (w : Wcb) (rt : Int) : (noteSendError w rt).snd.sender = w.snd.sender := by
  unfold noteSendError; split_ifs <;> rfl

theorem noteSendError_rcv (w : Wcb) (rt : Int) : (noteSendError w rt).rcv = w.rcv := by
  unfold noteSendError; split_ifs <;> rfl

theorem noteSendError_state (w : Wcb) (rt : Int) : (noteSendError w rt).state = w.state := by
  unfold noteSendError; split_ifs <;> rfl

theorem sender_noteLost (s : Snd) (reason : Nat) (p : WcbPack) : (s.noteLost reason p).sender = s.sender := by
  unfold Snd.noteLost; split_ifs <;> rfl

theorem handlePackAcked_una {p : WcbPack} {now curr : Nat} (h : s.handlePackAcked p now curr = .ok s') :
    s'.una = s.una ∧ s'.unaUpdate = s.unaUpdate := by
  obtain ⟨-, c, -, he⟩ := handlePackAcked_ok h
  exact ⟨congrArg Sender.una he, congrArg Sender.unaUpdate he⟩

@[simp] theorem Wcb.setSnd_snd (w : Wcb) (s : Snd) : (w.setSnd s).snd = s := rfl

@[simp] theorem Wcb.setSnd_rcv (w : Wcb) (s : Snd) : (w.setSnd s).rcv = w.rcv := rfl

@[simp] theorem Wcb.setSnd_state (w : Wcb) (s : Snd) : (w.setSnd s).state = w.state := rfl

/-- A flight that is sent again keeps its place and its contents. -/
theorem retransmit_sim {now : Nat} {p : WcbPack} {pre post : List WcbPack} (hn : w.rcv.next = m.stamp)
    (hf : w.snd.flights = pre ++ p :: post) :
    SndSim m (fun c : Int × WcbPack × Wcb => c.2.2.snd.setFlights (pre ++ c.2.1 :: post)) w.snd.sender
      (retransmit now p w) := by
  unfold retransmit
  cases hs : sendPack w p.toDatagram with
  | error e => cases sendPack_error hs; exact ⟨_, .refl, trivial⟩
  | ok c =>
    obtain ⟨rt, q, w₁⟩ := c
    obtain ⟨rfl, -, -, ⟨rfl, he⟩ | ⟨hrt, he⟩⟩ := sendPack_cases hs
    · have h1 : Sender.Step m w.snd.sender w₁.snd.sender := by
        rw [he, hn]
        exact .emitFlight p w.rcv.wnd (by show p ∈ w.snd.flights; rw [hf]; simp)
      refine (ReflTransGen.single h1).tail ?_
      exact .restampFlight pre p _ post (by show w₁.snd.flights = _; rw [he]; exact hf) rfl
    · rw [← he] at hf ⊢
      show Simulates _ _ _ _ (if rt ≠ ok then _ else _)
      rw [if_pos hrt, ← sender_noteSendError w₁ rt]
      have hf' : (noteSendError w₁ rt).snd.flights = pre ++ p :: post :=
        (congrArg Sender.flights (sender_noteSendError w₁ rt)).trans hf
      exact .single (.restampFlight pre p _ post hf' rfl)

theorem retransmit_ok {now : Nat} {p q : WcbPack} {rt : Int} (h : retransmit now p w = .ok (rt, q, w')) :
    w'.rcv = w.rcv ∧ q.content = p.content ∧ w'.snd.una = w.snd.una ∧ w'.snd.unaUpdate = w.snd.unaUpdate := by
  unfold retransmit at h
  cases hs : sendPack w p.toDatagram with
  | error e => rw [hs] at h; cases h
  | ok c =>
    obtain ⟨rt', d, w₁⟩ := c
    obtain ⟨rfl, hr, -, ho⟩ := sendPack_cases hs
    have hsnd : w₁.snd.una = w.snd.una ∧ w₁.snd.unaUpdate = w.snd.unaUpdate := by
      rcases ho with ⟨-, he⟩ | ⟨-, he⟩ <;> rw [he] <;> exact ⟨rfl, rfl⟩
    rw [hs] at h
    dsimp only [bind, Except.bind] at h
    by_cases hrt : rt' ≠ ok
    · rw [if_pos hrt] at h
      cases h
      have he := sender_noteSendError w₁ rt
      exact ⟨(noteSendError_rcv w₁ rt).trans hr, rfl, (congrArg Sender.una he).trans hsnd.1,
        (congrArg Sender.unaUpdate he).trans hsnd.2⟩
    · rw [if_neg hrt] at h
      cases h
      exact ⟨hr, rfl, hsnd⟩

theorem scanFlights_sim {now : Nat} {rest pre : List WcbPack} {lost maxSent : Nat} (hm : m.actor ≠ .send)
    (hn : w.rcv.next = m.stamp) (hf : w.snd.flights = pre ++ rest) :
    SndSim m (fun c : Nat × Nat × Wcb => c.2.2.snd) w.snd.sender (scanFlights now pre rest lost maxSent w) := by
  induction rest generalizing pre lost maxSent w with
  | nil => exact .refl
  | cons p rest ih =>
    unfold scanFlights
    by_cases hu : w.snd.unaUpdate = true ∧ p.seq < w.snd.una
    · rw [if_pos hu]
      refine Simulates.bind (handlePackAcked_sim hm hf (.inr hu.2)) fun t _ => ?_
      refine ih (w := w.setSnd (t.setFlights (pre ++ rest))) hn rfl
    rw [if_neg hu]
    dsimp only
    generalize w.snd.retransmitReason now p = reason
    have hs : w.snd.sender = (w.setSnd (w.snd.noteLost reason p)).snd.sender := by
      rw [Wcb.setSnd_snd, sender_noteLost]
    have hn' : (w.setSnd (w.snd.noteLost reason p)).rcv.next = m.stamp := by rw [Wcb.setSnd_rcv, hn]
    obtain ⟨w₁, hw₁⟩ : ∃ w₁, w₁ = w.setSnd (w.snd.noteLost reason p) := ⟨_, rfl⟩
    rw [← hw₁] at hs hn' ⊢
    rw [hs]
    have hf' : w₁.snd.flights = pre ++ p :: rest := (congrArg Sender.flights hs).symm.trans hf
    by_cases h0 : reason = 0
    · rw [if_pos h0]
      exact ih (w := w₁) hn' (by rw [List.append_assoc]; exact hf')
    rw [if_neg h0]
    refine Simulates.bind (retransmit_sim hn' hf') fun c hc => ?_
    obtain ⟨rt, q, w₂⟩ := c
    have hr := (retransmit_ok hc).1
    dsimp only
    by_cases hrt : rt ≠ ok
    · rw [if_pos hrt]; exact .refl
    rw [if_neg hrt]
    refine ih (w := w₂.setSnd (w₂.snd.setFlights (pre ++ q :: rest))) ?_ ?_
    · show w₂.rcv.next = m.stamp; rw [hr]; exact hn'
    · show pre ++ q :: rest = _; simp

theorem detectLost_sim {now lost maxSent : Nat} :
    SndSim m Wcb.snd w.snd.sender (detectLost now lost maxSent w) := by
  unfold detectLost
  dsimp only
  split_ifs with _ hrto _ hmax
  · exact ⟨_, .refl, trivial⟩
  · exact ⟨_, .refl, hmax⟩
  · have h1 : Sender.Step m w.snd.sender
        { w.snd.sender with nflightMax := max (w.snd.nflightBytesMax >>> 1) w.snd.nflightBytes } :=
      .setNflightMax _ (Nat.le_max_right _ _)
    exact (ReflTransGen.single h1).tail (.setCwnd (wcpLw * wcpMtu) (by decide))
  · exact .refl
  · exact .refl

theorem checkFlights_sim {now : Nat} (hm : m.actor ≠ .send) (hn : w.rcv.next = m.stamp) :
    SndSim m Wcb.snd w.snd.sender (checkFlights now w) := by
  unfold checkFlights
  dsimp only
  split_ifs
  · exact .refl
  · refine Simulates.bind (scanFlights_sim (w := { w with snd := { w.snd with lastRtoTimer := now } }) hm hn rfl)
      fun c _ => ?_
    refine Simulates.after (ReflTransGen.single ?_) detectLost_sim
    exact .clearUna

/-! ### `check_send` -/

theorem pushWnd_steps (s : Snd) (hw : m.bareWnd = true ∨ s.sendingIgnoreSeqSpace ≠ []) : ReflTransGen (Sender.Step m) s.sender s.pushWnd.sender := by
  unfold Snd.pushWnd
  split
  · rename_i h; exact .single (.pushCtl _ 0 (.wnd h (hw.resolve_right (not_not.2 h))))
  · rename_i q rest h; exact .single (.mergeWnd q rest h)

theorem checkRwnd_steps (now : Nat) (w : Wcb) (he : w.snd.sendError = false)
    (hw : m.bareWnd = true ∨ ¬ BareWndDue now w) :
    ReflTransGen (Sender.Step m) w.snd.sender (checkRwnd now w).snd.sender := by
  unfold checkRwnd
  split_ifs with hdue
  · refine pushWnd_steps _ (hw.imp_right fun hn hnil => hn ⟨he, hdue, hnil⟩)
  · exact .refl

theorem checkRwnd_next (now : Nat) (w : Wcb) : (checkRwnd now w).rcv.next = w.rcv.next := by
  unfold checkRwnd; split_ifs <;> rfl

theorem sendCtlOne_sim {q : QueuedPack} {rest : List QueuedPack} (hn : w.rcv.next = m.stamp)
    (hq : w.snd.sendingIgnoreSeqSpace = q :: rest) :
    SndSim m (fun c : Wcb × SendExit => c.1.snd) w.snd.sender (sendCtlOne q.pack w) := by
  unfold sendCtlOne
  cases hs : sendPack w q.pack with
  | error e => cases sendPack_error hs; exact ⟨_, .refl, trivial⟩
  | ok c =>
    obtain ⟨rt, d, w₁⟩ := c
    obtain ⟨rfl, -, -, ⟨rfl, he⟩ | ⟨hrt, he⟩⟩ := sendPack_cases hs
    · refine ReflTransGen.single ?_
      show Sender.Step m _ (Snd.sender { w₁.snd with
        sendingIgnoreSeqSpace := popIgnoreSeqSpace w₁.snd.sendingIgnoreSeqSpace, hist := _ })
      rw [he, hn]
      exact .emitCtl q rest w.rcv.wnd hq
    · show Simulates _ _ _ _ (if rt ≠ ok then _ else _)
      rw [if_pos hrt, ← he, ← sender_noteSendError w₁ rt]
      exact .refl

theorem sendCtlOne_rcv {d : Datagram} {c : Wcb × SendExit} (h : sendCtlOne d w = .ok c) :
    c.1.rcv = w.rcv ∧ c.1.state = w.state := by
  unfold sendCtlOne at h
  cases hs : sendPack w d with
  | error e => rw [hs] at h; cases h
  | ok c' =>
    obtain ⟨rt, q, w₁⟩ := c'
    obtain ⟨-, hr, hst, -⟩ := sendPack_cases hs
    rw [hs] at h
    by_cases hrt : rt = ok
    · simp only [bind, Except.bind, hrt, ne_eq, not_true_eq_false, if_false] at h
      cases h; exact ⟨hr, hst⟩
    · simp only [bind, Except.bind, hrt, ne_eq, not_false_eq_true, if_true] at h
      cases h; exact ⟨(noteSendError_rcv w₁ rt).trans hr, (noteSendError_state w₁ rt).trans hst⟩

theorem sendCtlLoop_sim {k : Nat} (hn : w.rcv.next = m.stamp) :
    SndSim m (fun c : Wcb × SendExit => c.1.snd) w.snd.sender (sendCtlLoop k w) := by
  induction k generalizing w with
  | zero => exact .refl
  | succ k ih =>
    unfold sendCtlLoop
    split
    · exact .refl
    · rename_i q rest hq
      refine Simulates.bind (sendCtlOne_sim hn hq) fun c hc => ?_
      have hr := (sendCtlOne_rcv hc).1
      obtain ⟨w₁, x⟩ := c
      cases x with
      | more => exact ih (w := w₁) (by rw [← hn]; exact congrArg Rcv.next hr)
      | stop => exact .refl
      | brk => exact .refl

theorem afterLaunch_cases {now : Nat} {p : WcbPack} {rest : List WcbPack} {c : Wcb × SendExit}
    (h : afterLaunch now p rest w = .ok c) :
    (p.testFlag .fin = true ∧ c.2 = .brk ∧ c.1.rcv = w.rcv ∧ c.1.snd.sender = w.snd.sender) ∨
    (p.testFlag .fin = false ∧ c.2 = .more ∧ c.1.rcv = w.rcv ∧
      c.1.snd = { w.snd with sending := rest } ∧
      c.1.state = if p.testFlag .syn ∧ w.state = .syning then .synSent else w.state) := by
  unfold afterLaunch at h
  by_cases hf : p.testFlag .fin = true
  · rw [if_pos hf] at h
    split at h
    · cases h; exact .inl ⟨hf, rfl, rfl, rfl⟩
    · cases h; exact .inl ⟨hf, rfl, rfl, rfl⟩
    · cases h
  · rw [if_neg hf] at h
    by_cases hs : p.testFlag .syn = true ∧ ¬ (w.state = .syning ∨ w.state = .synReceived)
    · rw [if_pos hs] at h; cases h
    · rw [if_neg hs] at h
      cases h
      exact .inr ⟨by simpa using hf, rfl, rfl, rfl, rfl⟩

theorem afterLaunch_error {now : Nat} {p : WcbPack} {rest : List WcbPack}
    (h : afterLaunch now p rest w = .error e) :
    (e = .finState ∧ p.testFlag .fin = true) ∨ (e = .synState ∧ p.testFlag .syn = true) := by
  unfold afterLaunch at h
  split_ifs at h with hf hs
  · split at h <;> cases h
    exact .inl ⟨rfl, hf⟩
  · cases h; exact .inr ⟨rfl, hs.1⟩

theorem transmitOne_sim {now : Nat} {p : WcbPack} {rest : List WcbPack} (hm : m.actor = .send) (hn : w.rcv.next = m.stamp)
    (hs : w.snd.sending = p :: rest) :
    SndSim m (fun c : Wcb × SendExit => c.1.snd) w.snd.sender (transmitOne now p rest w) := by
  have hp : p ∈ w.snd.sending := by rw [hs]; simp
  unfold transmitOne
  split_ifs with hcwnd hnext huna
  · exact .refl
  · exact ⟨_, .refl, p, rest, hs, hnext⟩
  · exact ⟨_, .refl, p, rest, hs, not_not.1 hnext, huna⟩
  have hseq : p.seq = w.snd.next := not_not.1 hnext
  have hw : u32 (p.totalBytes + w.snd.nflightBytes) < w.snd.cwnd := by omega
  cases hsend : sendPack w p.toDatagram with
  | error e => cases sendPack_error hsend; exact ⟨_, .refl, trivial⟩
  | ok c =>
    obtain ⟨rt, d, w₁⟩ := c
    obtain ⟨rfl, hr, -, ⟨rfl, he⟩ | ⟨hrt, he⟩⟩ := sendPack_cases hsend
    · dsimp only [bind, Except.bind]
      rw [if_neg (by simp)]
      split_ifs with hctl
      · exact ⟨_, .refl, p, hp, hctl⟩
      generalize hq : (⟨p.stamp w.rcv.next w.rcv.wnd, now, 1⟩ : WcbPack) = q
      have hqc : q.content = p.content := by rw [← hq]; rfl
      cases ha : afterLaunch now q rest { w₁ with snd := { w₁.snd.launch q with sending := q :: rest } } with
      | error e =>
        rcases afterLaunch_error ha with ⟨rfl, hf⟩ | ⟨rfl, hf⟩
        · exact ⟨_, .refl, p, hp, by rw [← Datagram.testFlag_of_content hqc]; exact hf⟩
        · exact ⟨_, .refl, p, hp, by rw [← Datagram.testFlag_of_content hqc]; exact hf⟩
      | ok c =>
        refine ReflTransGen.single ?_
        dsimp only
        rcases afterLaunch_cases ha with ⟨hf, -, -, hc⟩ | ⟨hf, -, -, hc, -⟩
        · rw [Datagram.testFlag_of_content hqc] at hf
          rw [hc, he, hn]
          exact .launchFin p q rest w.rcv.wnd hs hqc hseq (Nat.le_of_not_lt huna) hw hf hm
        · rw [Datagram.testFlag_of_content hqc] at hf
          rw [hc, he, hn]
          exact .launch p q rest w.rcv.wnd hs hqc hseq (Nat.le_of_not_lt huna) hw hf hm
    · dsimp only [bind, Except.bind]
      rw [if_pos hrt, ← he]
      refine ReflTransGen.single ?_
      dsimp only
      rw [sender_noteSendError]
      exact .restampSending p _ rest (by rw [he]; exact hs) rfl

/-- What a round of the sending loop comes to: the window is full, `sendto` failed, or the pack is in
flight. -/
theorem transmitOne_cases {now : Nat} {p : WcbPack} {rest : List WcbPack} {c : Wcb × SendExit}
    (h : transmitOne now p rest w = .ok c) :
    c = (w, .stop) ∨
    (∃ rt d w₁, sendPack w p.toDatagram = .ok (rt, d, w₁) ∧
      c = (noteSendError (w₁.setSnd { w₁.snd with sending := { p with toDatagram := d } :: rest }) rt, .stop)) ∨
    (∃ d w₁, sendPack w p.toDatagram = .ok (ok, d, w₁) ∧
      u32 (p.totalBytes + w.snd.nflightBytes) < min w.snd.cwnd w.snd.rwnd ∧ p.seq = w.snd.next ∧ w.snd.una ≤ p.seq ∧
      afterLaunch now ⟨d, now, 1⟩ rest
        (w₁.setSnd { w₁.snd.launch ⟨d, now, 1⟩ with sending := ⟨d, now, 1⟩ :: rest }) = .ok c) := by
  unfold transmitOne at h
  by_cases hcwnd : u32 (p.totalBytes + w.snd.nflightBytes) ≥ min w.snd.cwnd w.snd.rwnd
  · rw [if_pos hcwnd] at h; cases h; exact .inl rfl
  rw [if_neg hcwnd] at h
  by_cases hnext : p.seq ≠ w.snd.next
  · rw [if_pos hnext] at h; cases h
  rw [if_neg hnext] at h
  by_cases huna : p.seq < w.snd.una
  · rw [if_pos huna] at h; cases h
  rw [if_neg huna] at h
  obtain ⟨⟨rt, d, w₁⟩, hsend, h⟩ := bind_eq_ok.1 h
  dsimp only at h
  by_cases hrt : rt ≠ ok
  · rw [if_pos hrt] at h; cases h; exact .inr (.inl ⟨rt, d, w₁, hsend, rfl⟩)
  rw [if_neg hrt] at h
  split at h
  · cases h
  rw [not_not.1 hrt] at hsend
  exact .inr (.inr ⟨d, w₁, hsend, Nat.lt_of_not_le hcwnd, not_not.1 hnext, Nat.le_of_not_lt huna, h⟩)

theorem transmitOne_rcv {now : Nat} {p : WcbPack} {rest : List WcbPack} {c : Wcb × SendExit}
    (h : transmitOne now p rest w = .ok c) : c.1.rcv = w.rcv ∧ (c.2 = .more → c.1.snd.sending = rest) := by
  rcases transmitOne_cases h with rfl | ⟨rt, d, w₁, hs, rfl⟩ | ⟨d, w₁, hs, -, -, -, ha⟩
  · exact ⟨rfl, nofun⟩
  · obtain ⟨-, hr, -⟩ := sendPack_cases hs
    exact ⟨(noteSendError_rcv _ rt).trans hr, nofun⟩
  · obtain ⟨-, hr, -⟩ := sendPack_cases hs
    rcases afterLaunch_cases ha with ⟨-, hx, hc, -⟩ | ⟨-, -, hc, hs, -⟩
    · exact ⟨hc.trans hr, by rw [hx]; nofun⟩
    · exact ⟨hc.trans hr, fun _ => by rw [hs]⟩

theorem transmitLoop_sim {now : Nat} {l : List WcbPack} (hm : m.actor = .send) (hn : w.rcv.next = m.stamp) (hs : w.snd.sending = l) :
    SndSim m (fun c : Wcb × SendExit => c.1.snd) w.snd.sender (transmitLoop now l w) := by
  induction l generalizing w with
  | nil => exact .refl
  | cons p rest ih =>
    unfold transmitLoop
    refine Simulates.bind (transmitOne_sim hm hn hs) fun c hc => ?_
    obtain ⟨hr, hm⟩ := transmitOne_rcv hc
    obtain ⟨w₁, x⟩ := c
    cases x with
    | more => exact ih (w := w₁) (by rw [← hn]; exact congrArg Rcv.next hr) (hm rfl)
    | stop => exact .refl
    | brk => exact .refl

theorem transmitLoop_rcv {now : Nat} {l : List WcbPack} {c : Wcb × SendExit} (h : transmitLoop now l w = .ok c) :
    c.1.rcv = w.rcv := by
  induction l generalizing w with
  | nil => cases h; rfl
  | cons p rest ih =>
    unfold transmitLoop at h
    cases ho : transmitOne now p rest w with
    | error e => rw [ho] at h; cases h
    | ok c' =>
      have hr := (transmitOne_rcv ho).1
      obtain ⟨w₁, x⟩ := c'
      rw [ho] at h
      cases x with
      | more => exact (ih h).trans hr
      | stop => cases h; exact hr
      | brk => cases h; exact hr

theorem packageLoop_steps (hm : m.actor = .send) (k nmax : Nat) (s : Snd) (hs : s.sendingStandby = []) :
    ReflTransGen (Sender.Step m) s.sender (Snd.packageLoop k nmax s).sender := by
  induction k generalizing nmax s with
  | zero => exact .refl
  | succ k ih =>
    unfold Snd.packageLoop
    split_ifs with h
    · refine .head ?_ (ih _ s.package hs)
      refine .package (fun hsb => ?_) hs hm
      rw [BoundedQueue.count, show s.sb.items = [] from hsb] at h; simp at h
    · exact .refl

theorem refill_steps (hm : m.actor = .send) (s : Snd) : ReflTransGen (Sender.Step m) s.sender s.refill.sender := by
  have h1 : Sender.Step m s.sender s.moveStandby.sender := .moveStandby
  unfold Snd.refill
  dsimp only
  split_ifs
  · exact .head h1 (packageLoop_steps hm _ _ _ rfl)
  · exact .single h1

theorem sendRounds_sim {now k : Nat} (hm : m.actor = .send) (hn : w.rcv.next = m.stamp) : SndSim m Wcb.snd w.snd.sender (sendRounds now k w) := by
  induction k generalizing w with
  | zero => exact ⟨_, .refl, trivial⟩
  | succ k ih =>
    have hround : ∀ w₁ : Wcb, w₁.rcv = w.rcv →
        SndSim m Wcb.snd w₁.snd.sender
          (if (w₁.setSnd w₁.snd.refill).snd.sending = [] then pure (w₁.setSnd w₁.snd.refill)
            else sendRounds now k (w₁.setSnd w₁.snd.refill)) := by
      intro w₁ hr
      refine Simulates.after (refill_steps hm w₁.snd) ?_
      split_ifs
      · exact .refl
      · exact ih (w := w₁.setSnd w₁.snd.refill) (by rw [Wcb.setSnd_rcv, hr, hn])
    unfold sendRounds
    refine Simulates.bind (transmitLoop_sim hm hn rfl) fun c hc => ?_
    have hr := transmitLoop_rcv hc
    obtain ⟨w₁, x⟩ := c
    cases x with
    | stop => exact .refl
    | more => exact hround w₁ hr
    | brk => exact hround w₁ hr

theorem sendCtlLoop_rcv {k : Nat} {c : Wcb × SendExit} (h : sendCtlLoop k w = .ok c) :
    c.1.rcv = w.rcv ∧ c.1.state = w.state := by
  induction k generalizing w with
  | zero => cases h; exact ⟨rfl, rfl⟩
  | succ k ih =>
    unfold sendCtlLoop at h
    split at h
    · cases h; exact ⟨rfl, rfl⟩
    · rename_i q rest hq
      cases ho : sendCtlOne q.pack w with
      | error e => rw [ho] at h; cases h
      | ok c' =>
        obtain ⟨hr, hst⟩ := sendCtlOne_rcv ho
        obtain ⟨w₁, x⟩ := c'
        rw [ho] at h
        cases x with
        | more => exact ⟨(ih h).1.trans hr, (ih h).2.trans hst⟩
        | stop => cases h; exact ⟨hr, hst⟩
        | brk => cases h; exact ⟨hr, hst⟩

theorem checkSend_sim {now : Nat} (hm : m.actor = .send) (hn : w.rcv.next = m.stamp)
    (hw : m.bareWnd = true ∨ ¬ BareWndDue now w) : SndSim m Wcb.snd w.snd.sender (checkSend now w) := by
  unfold checkSend
  split_ifs with he
  · exact .refl
  have hn₁ : (checkRwnd now w).rcv.next = m.stamp := by rw [checkRwnd_next, hn]
  refine Simulates.after (checkRwnd_steps now w (Bool.eq_false_iff.2 he) hw) ?_
  refine Simulates.bind (sendCtlLoop_sim hn₁) fun c hc => ?_
  have hr := (sendCtlLoop_rcv hc).1
  obtain ⟨w₁, x⟩ := c
  cases x with
  | more => exact sendRounds_sim (w := w₁) hm (by rw [← hn₁]; exact congrArg Rcv.next hr)
  | stop => exact .refl
  | brk => exact .refl

/-! ### User calls, `update` and whole steps -/

theorem send_sim {buffer : List Byte} (hm : m.actor = .user) :
    SndSim m (fun c : Int × Wcb => c.2.snd) w.snd.sender (send buffer w) := by
  unfold send
  dsimp only
  split_ifs with hshut hblock hnil
  · exact .refl
  · exact .refl
  · exact .refl
  · exact ⟨_, .refl, trivial⟩
  · refine ReflTransGen.single ?_
    have hopen : w.snd.localWriteShutdowned = false := by simp at hshut; exact hshut.2
    have h : Sender.Step m w.snd.sender _ := .accept (buffer.take w.snd.sb.leftCapacity) hopen hm
    have htake : buffer.take (min w.snd.sb.leftCapacity buffer.length) = buffer.take w.snd.sb.leftCapacity := by
      simp
    dsimp only
    rw [htake]
    exact h

theorem recv_snd {size : Nat} {c : RecvResult × Wcb} (h : recv size w = .ok c) : c.2.snd = w.snd := by
  unfold recv at h
  split_ifs at h <;> cases h <;> rfl

theorem recv_error {size : Nat} (h : recv size w = .error e) :
    e = .recvNothing ∨ e = .recvErrorNoErrno ∨ e = .recvErrno := by
  unfold recv at h
  split_ifs at h <;> cases h <;> simp

theorem shutWrite_steps (s : Snd) (hm : m.actor = .user) : ReflTransGen (Sender.Step m) s.sender s.shutWrite.sender := by
  unfold Snd.shutWrite
  split_ifs with h
  · exact .refl
  · exact .single (.shutFin (Bool.eq_false_iff.2 h) hm)

theorem shutdown_steps (how : Shut) (w : Wcb) (hm : m.actor = .user) :
    ReflTransGen (Sender.Step m) w.snd.sender (shutdown how w).2.snd.sender := by
  unfold shutdown
  cases how
  · exact .refl
  · exact shutWrite_steps _ hm
  · exact shutWrite_steps _ hm

theorem closeAborts_eq (state : WcbState) : closeAborts state = true := by simp [closeAborts]

/-- Every first `close` takes the branch of a connection that is not established yet. -/
theorem close_eq (h : w.closedCalled = false) :
    close w = .ok (ok, { w with
      closedCalled := true, state := .closed
      wcbErrno := if w.wcbErrno = ok then eConnaborted else w.wcbErrno
      snd := { w.snd with localWriteShutdowned := true }
      rcv := { w.rcv with localReadShutdowned := true } }) := by
  unfold close
  rw [if_neg (by simp [h])]
  by_cases hl : w.state = .listen
  · simp only [hl, if_true, closeAborts_eq]
  · simp only [hl, if_false, closeAborts_eq, if_true]

theorem close_sim (hm : m.actor = .user) : SndSim m (fun c : Int × Wcb => c.2.snd) w.snd.sender (close w) := by
  cases hc : w.closedCalled with
  | true => unfold close; rw [if_pos hc]; exact ReflTransGen.refl
  | false => rw [close_eq hc]; exact ReflTransGen.single (.shut hm)

/-- The sending half of a connection passes through states of the abstract sender only. -/
abbrev WcbSim (w : Wcb) (x : Except Fault Wcb) : Prop :=
  Simulates Sender.Move Sender.Faulty (fun w : Wcb => w.snd.sender) w.snd.sender x

theorem SndSim.move {α : Type} {get : α → Snd} {v : Sender} {x : Except Fault α} (h : SndSim m get v x) :
    Simulates Sender.Move Sender.Faulty (fun a => (get a).sender) v x :=
  h.mono fun _ _ hs => ⟨m, hs⟩

theorem checkFlights_any {now : Nat} : WcbSim w (checkFlights now w) :=
  (checkFlights_sim (m := .any .flights w.rcv.next) nofun rfl).move

theorem checkSend_any {now : Nat} : WcbSim w (checkSend now w) :=
  (checkSend_sim (m := .any .send w.rcv.next) rfl rfl (.inl rfl)).move

theorem checkRecv_any {now : Nat} : WcbSim w (checkRecv now w) :=
  (checkRecv_sim (m := .any .recv w.rcv.next) rfl fun _ _ => trivial).move

theorem checkAll_sim {now : Nat} : WcbSim w (checkAll now w) :=
  Simulates.bind checkRecv_any fun _ _ => Simulates.bind checkFlights_any fun _ _ => checkSend_any

theorem update_sim {now : Nat} : WcbSim w (update now w) := by
  rcases update_eq now w with ⟨state, errno, -, h⟩ | ⟨-, k, -, h⟩ | ⟨-, h⟩ <;> rw [h]
  · exact .refl
  · exact Simulates.map checkAll_sim fun _ => rfl
  · exact Simulates.bind checkFlights_any fun _ _ => checkSend_any

/-- The events of other threads than the background one. -/
theorem call_sim {ev : Event} (hc : ev.isCall = true) (hm : m.actor = .user) :
    SndSim m Wcb.snd w.snd.sender (step ev w) := by
  cases ev with
  | send buffer => exact Simulates.map (send_sim hm) fun _ => rfl
  | recv size =>
    show SndSim m Wcb.snd w.snd.sender ((recv size w).map Prod.snd)
    cases h : recv size w with
    | ok c => show ReflTransGen _ _ c.2.snd.sender; rw [recv_snd h]
    | error e => rcases recv_error h with rfl | rfl | rfl <;> exact ⟨_, .refl, trivial⟩
  | shutdown how => exact shutdown_steps how w hm
  | close => exact Simulates.map (close_sim hm) fun _ => rfl
  | setfl b => exact .refl
  | arrive p => exact .refl
  | _ => cases hc

theorem step_sim (ev : Event) (w : Wcb) : WcbSim w (step ev w) := by
  cases hc : ev.isCall with
  | true => exact (call_sim (m := .any .user 0) hc rfl).move
  | false =>
    cases ev with
    | update t => exact update_sim (w := w.prepare t)
    | checkRecv t => exact checkRecv_any (w := w.prepare t)
    | checkFlights t => exact checkFlights_any (w := w.prepare t)
    | checkSend t => exact checkSend_any (w := w.prepare t)
    | _ => cases hc

/-- Where the abstract sender of a connection starts. -/
theorem Opened.sender (h : Opened w) : ∃ u now rcvCap sndCap,
    w.snd.sender = (Wcb.init u now rcvCap sndCap).snd.sender ∨
    w.snd.sender = (Wcb.init u now rcvCap sndCap).snd.sender.number .syn := by
  cases h with
  | active u now rcvCap sndCap addr w h =>
    refine ⟨u, now, rcvCap, sndCap, .inr ?_⟩
    unfold connect at h
    split_ifs at h
    cases h; rfl
  | passive u now rcvCap sndCap synpack _ _ => exact ⟨u, now, rcvCap, sndCap, .inl rfl⟩

theorem run_moves {C : Wcb → Event → Prop} {es : List Event} (h : Run step C w es w') :
    ReflTransGen Sender.Move w.snd.sender w'.snd.sender := by
  induction h with
  | nil => exact .refl
  | @cons w w₁ w₂ e es _ hs _ ih =>
    have hsim := step_sim e w
    rw [hs] at hsim
    exact ReflTransGen.trans hsim ih

/-- An invariant of the abstract sender that holds at the start holds in every state of every run. -/
theorem run_sender_inv {C : Wcb → Event → Prop} {w₀ : Wcb} {es : List Event} (I : Sender → Prop)
    (hinit : ∀ u now rcvCap sndCap, I (Wcb.init u now rcvCap sndCap).snd.sender)
    (hmove : ∀ v v', I v → Sender.Move v v' → I v') (h₀ : Opened w₀) (h : Run step C w₀ es w) : I w.snd.sender := by
  refine Simulates.star_inv hmove ?_ (run_moves h)
  obtain ⟨u, now, rcvCap, sndCap, h | h⟩ := h₀.sender
  · rw [h]; exact hinit _ _ _ _
  · rw [h]; exact hmove _ _ (hinit _ _ _ _) ⟨.any .user 0, .number .syn (by simp) (.inl rfl)⟩

end Wawo
