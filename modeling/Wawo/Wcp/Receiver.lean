import Wawo.Wcp.SenderSim

/-!
# The receiving half as an abstract machine

`Receiver` is what reassembly is about: `rcv_info.next`, the packs that arrived and wait for
`check_recv`, the packs held in `rcv_received`, the packs consumed so far and the byte stream they stand for (what the user has read, then `rb`, then
`rb_standby`: reading and swapping the buffers do not change it). `Receiver.Step P` says once what
can happen to it when the packs that arrive satisfy `P`.
-/

namespace Wawo

open Lts Relation

/-- A pack that `check_recv` takes for a sequence-space pack: none of the flags that it sorts out. -/
def Datagram.inSeqSpace (d : Datagram) : Bool :=
  !d.testFlag .sack && !d.testFlag .keepAlive && !d.testFlag .keepAliveReply

structure Receiver where
  next : Nat
  arrived : List WcbReceivedPack
  received : List WcbReceivedPack
  stream : List Byte
  consumed : List WcbReceivedPack
  finReceived : Bool

def Rcv.receiver (r : Rcv) : Receiver where
  next := r.next
  arrived := r.receivedVecStandby
  received := r.received
  stream := r.hist.returned ++ r.rb.items ++ r.rbStandby.items
  consumed := r.hist.consumed
  finReceived := r.remoteFinReceived

namespace Receiver

/-- `p` is the next pack in order and is consumed; `received` is what is held afterwards. -/
def consume (r : Receiver) (p : WcbReceivedPack) (received : List WcbReceivedPack) (fin : Bool) : Receiver where
  next := u32 (r.next + 1)
  arrived := r.arrived
  received := received
  stream := r.stream ++ p.data
  consumed := r.consumed ++ [p]
  finReceived := fin

/-- What can happen to the receiving half when the packs that arrive satisfy `P`. A pack with RST is
consumed but stays in the list; a pack from another address is dropped. -/
inductive Step (P : WcbReceivedPack → Prop) (r : Receiver) : Receiver → Prop
  | arrive (p : WcbReceivedPack) (hp : P p) : Step P r { r with arrived := r.arrived ++ [p] }
  | take : Step P r { r with arrived := [] }
  | insert (p : WcbReceivedPack) (hp : P p) (hs : p.inSeqSpace = true) (hn : r.next ≤ p.seq) :
      Step P r { r with received := SeqList.insertByKey (fun q : WcbReceivedPack => q.seq) p r.received }
  | consume (p : WcbReceivedPack) (rest : List WcbReceivedPack) (fin : Bool) (hr : r.received = p :: rest)
      (hn : p.seq = r.next) (hfin : fin = r.finReceived ∨ p.testFlag .fin = true) : Step P r (r.consume p rest fin)
  | consumeRst (p : WcbReceivedPack) (rest : List WcbReceivedPack) (hr : r.received = p :: rest)
      (hn : p.seq = r.next) (hf : p.testFlag .rst = true) : Step P r (r.consume p r.received r.finReceived)
  | drop (p : WcbReceivedPack) (rest : List WcbReceivedPack) (hr : r.received = p :: rest)
      (hn : p.seq = r.next) : Step P r { r with received := rest }

theorem Step.arrived {P : WcbReceivedPack → Prop} {r r' : Receiver} (hs : Step P r r')
    (h : ∀ p ∈ r.arrived, P p) : ∀ p ∈ r'.arrived, P p := by
  cases hs with
  | arrive p hp =>
    intro q hq
    rcases List.mem_append.1 hq with hq | hq
    · exact h q hq
    · rw [List.mem_singleton.1 hq]; exact hp
  | take => simp
  | _ => exact h

theorem Step.held {P : WcbReceivedPack → Prop} {r r' : Receiver} (hs : Step P r r')
    (h : ∀ p ∈ r.received, P p) : ∀ p ∈ r'.received, P p := by
  cases hs with
  | insert p hp _ _ =>
    intro q hq
    rcases SeqList.mem_insertByKey hq with rfl | hq
    · exact hp
    · exact h q hq
  | consume p rest fin hr _ _ => exact fun q hq => h q (by rw [hr]; exact List.mem_cons_of_mem _ hq)
  | drop p rest hr _ => exact fun q hq => h q (by rw [hr]; exact List.mem_cons_of_mem _ hq)
  | _ => exact h

end Receiver

variable {P : WcbReceivedPack → Prop} {w w' : Wcb} {now : Nat} {p : WcbReceivedPack}
  {rest : List WcbReceivedPack} {x : Delivery}

/-! ### The delivery loop -/

theorem deliverData_cases (h : deliverData w p rest = .ok (w', x)) :
    (x = .stop ∧ p.fromAddr ≠ w.remoteAddr ∧ w'.state = .closed ∧ w'.rcv = { w.rcv with received := rest }) ∨
    (x = .stop ∧ w' = { w with rcv := { w.rcv with rwndLessThanMtu := true } }) ∨
    (x = .more ∧ ∃ r, w' = { w with rcv := r } ∧
      r.receiver = { w.rcv.receiver with stream := w.rcv.receiver.stream ++ p.data }) := by
  unfold deliverData at h
  by_cases hd : p.header.dlen > 0
  · rw [if_pos hd] at h
    split_ifs at h with h1 h2 h3 h4
    · cases h; exact .inl ⟨rfl, h3, rfl, rfl⟩
    · cases h; exact .inr (.inl ⟨rfl, rfl⟩)
    · cases h
      refine .inr (.inr ⟨rfl, _, rfl, ?_⟩)
      have hfit : p.data.length ≤ w.rcv.rbStandby.leftCapacity := by rw [← p.dlen_eq]; omega
      simp only [Rcv.receiver, BoundedQueue.items_write_of_le _ hfit, List.append_assoc]
  · rw [if_neg hd] at h
    cases h
    have hnil : p.data = [] := List.length_eq_zero_iff.1 (by rw [← p.dlen_eq]; omega)
    exact .inr (.inr ⟨rfl, _, rfl, by simp [hnil]⟩)

theorem deliverSyn_rcv (h : deliverSyn w p rest = (w', x)) :
    (x = .stop ∧ w'.rcv = { w.rcv with received := rest }) ∨ (x = .more ∧ w'.rcv = w.rcv) := by
  unfold deliverSyn at h
  split_ifs at h
  · split at h <;> cases h
    · exact .inr ⟨rfl, rfl⟩
    · exact .inr ⟨rfl, rfl⟩
    · exact .inl ⟨rfl, rfl⟩
  · cases h; exact .inr ⟨rfl, rfl⟩

theorem deliverAck_rcv (h : deliverAck now w p = .ok w') : w'.rcv = w.rcv := by
  rcases deliverAck_cases h with rfl | ⟨-, -, timer, errno, he⟩
  · rfl
  · rw [he]

theorem deliverFin_receiver (now : Nat) (w : Wcb) (p : WcbReceivedPack) :
    ∃ b, (b = w.rcv.remoteFinReceived ∨ p.testFlag .fin = true) ∧
      (deliverFin now w p).rcv.receiver = { w.rcv.receiver with finReceived := b } := by
  unfold deliverFin
  split_ifs with hf
  · dsimp only
    split <;> exact ⟨_, .inr hf, rfl⟩
  · exact ⟨_, .inl rfl, rfl⟩

theorem deliverFlags_cases (h : deliverFlags now w p rest = .ok (w', x)) :
    (p.testFlag .rst = true ∧ x = .stop ∧ w' = { w with state := .closed, wcbErrno := eConnreset }) ∨
    (p.testFlag .rst = false ∧ x = .stop ∧ deliverSyn w p rest = (w', .stop)) ∨
    (p.testFlag .rst = false ∧ x = .more ∧ ∃ w₁ w₂, deliverSyn w p rest = (w₁, .more) ∧
      deliverAck now w₁ p = .ok w₂ ∧
      w' = { deliverFin now w₂ p with rcv := { (deliverFin now w₂ p).rcv with received := rest } }) := by
  unfold deliverFlags at h
  by_cases hrst : p.testFlag .rst = true
  · rw [if_pos hrst] at h; cases h; exact .inl ⟨hrst, rfl, rfl⟩
  rw [if_neg hrst] at h
  have hrst' : p.testFlag .rst = false := Bool.eq_false_iff.2 hrst
  obtain ⟨w₁, y, hs⟩ : ∃ w₁ y, deliverSyn w p rest = (w₁, y) := ⟨_, _, rfl⟩
  rw [hs] at h
  cases y with
  | stop => cases h; exact .inr (.inl ⟨hrst', rfl, hs⟩)
  | more =>
    dsimp only at h
    cases ha : deliverAck now w₁ p with
    | error e => rw [ha] at h; cases h
    | ok w₂ => rw [ha] at h; cases h; exact .inr (.inr ⟨hrst', rfl, w₁, w₂, hs, ha, rfl⟩)

/-- What `deliverFlags` leaves in the receiving half, of which `rcv_info.next` is already past `p`. -/
theorem deliverFlags_receiver (h : deliverFlags now w p rest = .ok (w', x)) :
    (x = .stop ∧ p.testFlag .rst = true ∧ w'.rcv = w.rcv) ∨
    ∃ b, (b = w.rcv.remoteFinReceived ∨ p.testFlag .fin = true) ∧
      w'.rcv.receiver = { w.rcv.receiver with received := rest, finReceived := b } := by
  rcases deliverFlags_cases h with ⟨hrst, rfl, rfl⟩ | ⟨-, rfl, hs⟩ | ⟨-, rfl, w₁, w₂, hs, ha, rfl⟩
  · exact .inl ⟨rfl, hrst, rfl⟩
  · rcases deliverSyn_rcv hs with ⟨-, hr⟩ | ⟨hx, -⟩
    · rw [hr]; exact .inr ⟨_, .inl rfl, rfl⟩
    · cases hx
  · rcases deliverSyn_rcv hs with ⟨hx, -⟩ | ⟨-, hr⟩
    · cases hx
    · obtain ⟨b, hb, hfin⟩ := deliverFin_receiver now w₂ p
      rw [deliverAck_rcv ha, hr] at hb hfin
      refine .inr ⟨b, hb, ?_⟩
      show { (deliverFin now w₂ p).rcv.receiver with received := rest } = _
      rw [hfin]

theorem deliverFlags_more (h : deliverFlags now w p rest = .ok (w', .more)) : w'.rcv.received = rest := by
  rcases deliverFlags_cases h with ⟨-, hx, -⟩ | ⟨-, hx, -⟩ | ⟨-, -, w₁, w₂, -, -, rfl⟩
  · cases hx
  · cases hx
  · rfl

theorem deliverOne_receiver (hr : w.rcv.received = p :: rest) (h : deliverOne now p rest w = .ok (w', x)) :
    ReflTransGen (Receiver.Step P) w.rcv.receiver w'.rcv.receiver ∧ (x = .more → w'.rcv.received = rest) := by
  unfold deliverOne at h
  split_ifs at h with hlt hne
  · cases h; exact ⟨.refl, nofun⟩
  have hseq : p.seq = w.rcv.next := not_not.1 hne
  cases hd : deliverData w p rest with
  | error e => rw [hd] at h; cases h
  | ok c =>
    obtain ⟨w₁, y⟩ := c
    rw [hd] at h
    rcases deliverData_cases hd with ⟨rfl, -, -, hw⟩ | ⟨rfl, rfl⟩ | ⟨rfl, r, rfl, hrec⟩
    · cases h
      rw [hw]
      exact ⟨.single (.drop p rest hr hseq), nofun⟩
    · cases h; exact ⟨.refl, nofun⟩
    · dsimp only [bind, Except.bind] at h
      have hadv : (r.advance p).receiver = w.rcv.receiver.consume p w.rcv.received w.rcv.remoteFinReceived := by
        show { r.receiver with next := u32 (r.receiver.next + 1), consumed := r.receiver.consumed ++ [p] } = _
        rw [hrec]; rfl
      have hmore : x = .more → w'.rcv.received = rest := by rintro rfl; exact deliverFlags_more h
      refine ⟨?_, hmore⟩
      rcases deliverFlags_receiver h with ⟨-, hrst, hw⟩ | ⟨b, hb, hw⟩
      · rw [hw, hadv]
        exact .single (.consumeRst p rest hr hseq hrst)
      · rw [hw]
        show ReflTransGen _ _ { (r.advance p).receiver with received := rest, finReceived := b }
        have hb' : b = w.rcv.remoteFinReceived ∨ p.testFlag .fin = true := by
          rw [show r.advance p = { r with next := _, hist := _ } from rfl] at hb
          rcases hb with hb | hb
          · exact .inl (hb.trans (congrArg Receiver.finReceived hrec))
          · exact .inr hb
        rw [hadv]
        exact .single (.consume p rest b hr hseq hb')

theorem deliverLoop_receiver {l : List WcbReceivedPack} (hl : w.rcv.received = l)
    (h : deliverLoop now l w = .ok w') : ReflTransGen (Receiver.Step P) w.rcv.receiver w'.rcv.receiver := by
  induction l generalizing w with
  | nil => cases h; exact .refl
  | cons p rest ih =>
    unfold deliverLoop at h
    cases ho : deliverOne now p rest w with
    | error e => rw [ho] at h; cases h
    | ok c =>
      obtain ⟨w₁, x⟩ := c
      obtain ⟨hs, hm⟩ := deliverOne_receiver (P := P) hl ho
      rw [ho] at h
      cases x with
      | stop => cases h; exact hs
      | more => exact hs.trans (ih (hm rfl) h)

/-! ### The whole call -/

theorem takePack_receiver (r : Rcv) (hp : P p) (hs : p.inSeqSpace = true) :
    ReflTransGen (Receiver.Step P) r.receiver (r.takePack p).receiver := by
  unfold Rcv.takePack
  dsimp only
  split_ifs with h
  · exact .refl
  · exact .single (.insert p hp hs (Nat.le_of_not_lt h))

theorem classifyOne_rcv {c c' : Wcb × List Nat} (h : classifyOne c p = .ok c') :
    c'.1.rcv = if p.inSeqSpace then c.1.rcv.takePack p else c.1.rcv := by
  unfold classifyOne at h
  dsimp only at h
  split_ifs at h with hs hn hk hkr
  · cases hr : readSack p.data with
    | error e => rw [hr] at h; cases h
    | ok acks => rw [hr] at h; cases h; simp [Datagram.inSeqSpace, hs]
  · cases h; simp [Datagram.inSeqSpace, hk]
  · cases h; simp [Datagram.inSeqSpace, hkr]
  · cases h; simp [Datagram.inSeqSpace, hs, hk, hkr]

/-- The classification loop touches the receiving half with the sequence-space packs only. -/
theorem classify_rcv {batch : List WcbReceivedPack} {c : Wcb × List Nat} (h : classify batch w = .ok c) :
    c.1.rcv = (batch.filter (fun p => p.inSeqSpace)).foldl Rcv.takePack w.rcv := by
  unfold classify at h
  generalize ([] : List Nat) = acks at h
  induction batch generalizing w acks with
  | nil => cases h; rfl
  | cons p batch ih =>
    rw [List.foldlM_cons] at h
    cases ho : classifyOne (w, acks) p with
    | error e => rw [ho] at h; cases h
    | ok c₁ =>
      rw [ho] at h
      rw [ih (w := c₁.1) c₁.2 h, classifyOne_rcv ho]
      by_cases hs : p.inSeqSpace = true
      · simp [hs]
      · simp [hs]

/-- Taking a batch changes nothing but the two halves. -/
theorem classify_frame {batch : List WcbReceivedPack} {c : Wcb × List Nat} (h : classify batch w = .ok c) :
    ∃ s r, c.1 = { w with snd := s, rcv := r } := by
  unfold classify at h
  refine foldlM_inv (fun c => ∃ s r, c.1 = { w with snd := s, rcv := r }) ?_ h ⟨_, _, rfl⟩
  rintro p - ⟨w₁, acks⟩ c' ⟨s, r, rfl⟩ hone
  unfold classifyOne at hone
  dsimp only at hone
  split_ifs at hone
  · cases hr : readSack p.data with
    | error e => rw [hr] at hone; cases hone
    | ok l => rw [hr] at hone; cases hone; exact ⟨_, _, rfl⟩
  all_goals cases hone; exact ⟨_, _, rfl⟩

theorem takeBatch_frame {batch : List WcbReceivedPack} (h : takeBatch now batch w = .ok w') :
    ∃ s r, w' = { w with snd := s, rcv := r } := by
  unfold takeBatch at h
  dsimp only at h
  cases hc : classify batch { w with rcv := { w.rcv with
      keepaliveTimerLastReceivedPack := now, keepaliveProbesSent := 0 } } with
  | error e => rw [hc] at h; cases h
  | ok c =>
    obtain ⟨s, r, hw⟩ := classify_frame hc
    rw [hc] at h
    dsimp only [bind, Except.bind] at h
    split at h
    · cases h
    · cases h
      rw [queueSack, hw]
      exact ⟨_, _, rfl⟩

/-- Taking packs touches the SACK list and what is held only. -/
theorem foldl_takePack_eq (l : List WcbReceivedPack) (r : Rcv) :
    ∃ tmp held, l.foldl Rcv.takePack r = { r with sackedPackTmp := tmp, received := held } := by
  induction l generalizing r with
  | nil => exact ⟨_, _, rfl⟩
  | cons p l ih =>
    obtain ⟨tmp, held, he⟩ := ih (r.takePack p)
    rw [List.foldl_cons, he]
    unfold Rcv.takePack
    dsimp only
    split_ifs <;> exact ⟨_, _, rfl⟩

theorem foldl_takePack_receiver {l : List WcbReceivedPack} (r : Rcv)
    (hl : ∀ p ∈ l, P p ∧ p.inSeqSpace = true) :
    ReflTransGen (Receiver.Step P) r.receiver (l.foldl Rcv.takePack r).receiver := by
  induction l generalizing r with
  | nil => exact .refl
  | cons p l ih =>
    obtain ⟨hp, hs⟩ := hl p (by simp)
    exact (takePack_receiver r hp hs).trans (ih _ fun q hq => hl q (by simp [hq]))

theorem takeBatch_classify {batch : List WcbReceivedPack} (h : takeBatch now batch w = .ok w') :
    ∃ c, classify batch { w with rcv := { w.rcv with
      keepaliveTimerLastReceivedPack := now, keepaliveProbesSent := 0 } } = .ok c := by
  unfold takeBatch at h
  dsimp only at h
  cases hc : classify batch { w with rcv := { w.rcv with
      keepaliveTimerLastReceivedPack := now, keepaliveProbesSent := 0 } } with
  | error e => rw [hc] at h; cases h
  | ok c => exact ⟨c, rfl⟩

theorem takeBatch_rcv {batch : List WcbReceivedPack} (h : takeBatch now batch w = .ok w') :
    w'.rcv = { (batch.filter (fun p => p.inSeqSpace)).foldl Rcv.takePack
        { w.rcv with keepaliveTimerLastReceivedPack := now, keepaliveProbesSent := 0 } with sackedPackTmp := [] } := by
  unfold takeBatch at h
  dsimp only at h
  cases hc : classify batch { w with rcv := { w.rcv with
      keepaliveTimerLastReceivedPack := now, keepaliveProbesSent := 0 } } with
  | error e => rw [hc] at h; cases h
  | ok c =>
    rw [hc] at h
    dsimp only [bind, Except.bind] at h
    split at h
    · cases h
    · cases h
      rw [← classify_rcv hc]
      rfl

theorem swapRb_receiver (r : Rcv) : r.swapRb.receiver = r.receiver := by
  unfold Rcv.swapRb
  by_cases h : r.rb.count = 0 ∧ r.rbStandby.count ≠ 0
  · have hrb : r.rb.items = [] := r.rb.count_eq_zero.1 h.1
    rw [if_pos h]
    dsimp only
    split_ifs <;> simp only [Rcv.receiver, hrb, List.append_nil]
  · rw [if_neg h]

theorem checkKeepalive_receiver (now : Nat) (w : Wcb) : (checkKeepalive now w).rcv.receiver = w.rcv.receiver := by
  unfold checkKeepalive
  dsimp only
  split_ifs <;> rfl

theorem takeBatch_receiver {batch : List WcbReceivedPack} (hb : ∀ p ∈ batch, P p)
    (h : takeBatch now batch w = .ok w') : ReflTransGen (Receiver.Step P) w.rcv.receiver w'.rcv.receiver := by
  rw [takeBatch_rcv h]
  refine foldl_takePack_receiver { w.rcv with keepaliveTimerLastReceivedPack := now, keepaliveProbesSent := 0 } ?_
  intro p hp
  rw [List.mem_filter] at hp
  exact ⟨hb p hp.1, hp.2⟩

/-- `received_vec.swap(received_vec_standby)` at the start of `check_recv`. -/
def Wcb.takeArrived (w : Wcb) : Wcb := { w with rcv := { w.rcv with receivedVecStandby := [] } }

theorem checkRecv_cases (h : checkRecv now w = .ok w') :
    ∃ w₁, w' = { w₁ with rcv := w₁.rcv.swapRb } ∧
      (w.rcv.receivedVecStandby = [] ∧ w₁ = checkKeepalive now w.takeArrived ∨
        w.rcv.receivedVecStandby ≠ [] ∧ ∃ w₂, takeBatch now w.rcv.receivedVecStandby w.takeArrived = .ok w₂ ∧
          deliverLoop now w₂.rcv.received w₂ = .ok w₁) := by
  unfold checkRecv recvBatch at h
  dsimp only at h
  by_cases hnil : w.rcv.receivedVecStandby = []
  · rw [if_pos hnil] at h
    cases h
    exact ⟨_, rfl, .inl ⟨hnil, rfl⟩⟩
  · rw [if_neg hnil] at h
    obtain ⟨w₁, hb, h⟩ := bind_eq_ok.1 h
    obtain ⟨w₂, ht, hl⟩ := bind_eq_ok.1 hb
    cases h
    exact ⟨w₁, rfl, .inr ⟨hnil, w₂, ht, hl⟩⟩

theorem checkRecv_receiver (hb : ∀ p ∈ w.rcv.receivedVecStandby, P p) (h : checkRecv now w = .ok w') :
    ReflTransGen (Receiver.Step P) w.rcv.receiver w'.rcv.receiver := by
  have htake : Receiver.Step P w.rcv.receiver w.takeArrived.rcv.receiver := .take
  obtain ⟨w₁, rfl, ⟨-, rfl⟩ | ⟨-, w₂, ht, hl⟩⟩ := checkRecv_cases h
  · show ReflTransGen _ _ (Rcv.swapRb _).receiver
    rw [swapRb_receiver, checkKeepalive_receiver]
    exact .single htake
  · show ReflTransGen _ _ (Rcv.swapRb _).receiver
    rw [swapRb_receiver]
    exact .head htake ((takeBatch_receiver hb ht).trans (deliverLoop_receiver rfl hl))

/-! ### The other calls -/

theorem recv_receiver {size : Nat} {rt : RecvResult} (h : recv size w = .ok (rt, w')) :
    w'.rcv.receiver = w.rcv.receiver := by
  unfold recv at h
  split_ifs at h <;> cases h <;> first | rfl | skip
  simp only [Rcv.receiver, List.append_assoc, ← BoundedQueue.front_append_items_skip w.rcv.rb size]

theorem scanFlights_rcv {rest pre : List WcbPack} {lost maxSent : Nat} {c : Nat × Nat × Wcb}
    (h : scanFlights now pre rest lost maxSent w = .ok c) : c.2.2.rcv = w.rcv := by
  induction rest generalizing pre lost maxSent w with
  | nil => cases h; rfl
  | cons p rest ih =>
    unfold scanFlights at h
    by_cases hu : w.snd.unaUpdate = true ∧ p.seq < w.snd.una
    · rw [if_pos hu] at h
      cases ha : w.snd.handlePackAcked p now (w.so.clock p.seq) with
      | error e => rw [ha] at h; cases h
      | ok t => rw [ha] at h; exact ih (w := w.setSnd (t.setFlights (pre ++ rest))) h
    rw [if_neg hu] at h
    dsimp only at h
    generalize w.snd.retransmitReason now p = reason at h
    obtain ⟨w₁, hw₁⟩ : ∃ w₁, w₁ = w.setSnd (w.snd.noteLost reason p) := ⟨_, rfl⟩
    have hr₁ : w₁.rcv = w.rcv := by rw [hw₁, Wcb.setSnd_rcv]
    rw [← hw₁] at h
    by_cases h0 : reason = 0
    · rw [if_pos h0] at h; exact (ih h).trans hr₁
    rw [if_neg h0] at h
    cases hr : retransmit now p w₁ with
    | error e => rw [hr] at h; cases h
    | ok c' =>
      obtain ⟨rt, q, w₂⟩ := c'
      have hr₂ : w₂.rcv = w.rcv := by rw [(retransmit_ok hr).1, hr₁]
      rw [hr] at h
      dsimp only [bind, Except.bind] at h
      by_cases hrt : rt ≠ ok
      · rw [if_pos hrt] at h; cases h; exact hr₂
      · rw [if_neg hrt] at h
        exact (ih (w := w₂.setSnd (w₂.snd.setFlights (pre ++ q :: rest))) h).trans hr₂

theorem detectLost_rcv {lost maxSent : Nat} (h : detectLost now lost maxSent w = .ok w') : w'.rcv = w.rcv := by
  unfold detectLost at h
  dsimp only at h
  split_ifs at h <;> cases h <;> rfl

theorem checkFlights_rcv (h : checkFlights now w = .ok w') : w'.rcv = w.rcv := by
  unfold checkFlights at h
  dsimp only at h
  split_ifs at h
  · cases h; rfl
  · cases hs : scanFlights now [] w.snd.flights 0 0 { w with snd := { w.snd with lastRtoTimer := now } } with
    | error e => rw [hs] at h; cases h
    | ok c =>
      rw [hs] at h
      exact (detectLost_rcv h).trans (scanFlights_rcv (w := { w with snd := { w.snd with lastRtoTimer := now } }) hs)

theorem sendRounds_rcv {k : Nat} (h : sendRounds now k w = .ok w') : w'.rcv = w.rcv := by
  induction k generalizing w with
  | zero => cases h
  | succ k ih =>
    unfold sendRounds at h
    cases ht : transmitLoop now w.snd.sending w with
    | error e => rw [ht] at h; cases h
    | ok c =>
      have hr := transmitLoop_rcv ht
      obtain ⟨w₁, y⟩ := c
      rw [ht] at h
      cases y with
      | stop => cases h; exact hr
      | more =>
        dsimp only [bind, Except.bind] at h
        split at h
        · cases h; exact hr
        · exact (ih (w := w₁.setSnd w₁.snd.refill) h).trans hr
      | brk =>
        dsimp only [bind, Except.bind] at h
        split at h
        · cases h; exact hr
        · exact (ih (w := w₁.setSnd w₁.snd.refill) h).trans hr

theorem checkSend_rcv (h : checkSend now w = .ok w') : w'.rcv = w.rcv ∨ w'.rcv = (checkRwnd now w).rcv := by
  unfold checkSend at h
  by_cases he : w.snd.sendError = true
  · rw [if_pos he] at h; cases h; exact .inl rfl
  rw [if_neg he] at h
  right
  dsimp only at h
  cases hc : sendCtlLoop (queuedCount (checkRwnd now w).snd.sendingIgnoreSeqSpace) (checkRwnd now w) with
  | error e => rw [hc] at h; cases h
  | ok c =>
    have hr := (sendCtlLoop_rcv hc).1
    obtain ⟨w₁, y⟩ := c
    rw [hc] at h
    cases y with
    | more => exact (sendRounds_rcv h).trans hr
    | stop => cases h; exact hr
    | brk => cases h; exact hr

theorem checkSend_receiver (h : checkSend now w = .ok w') : w'.rcv.receiver = w.rcv.receiver := by
  rcases checkSend_rcv h with h | h
  · rw [h]
  · rw [h]; unfold checkRwnd; split_ifs <;> rfl

theorem checkAll_receiver (hb : ∀ p ∈ w.rcv.receivedVecStandby, P p) (h : checkAll now w = .ok w') :
    ReflTransGen (Receiver.Step P) w.rcv.receiver w'.rcv.receiver := by
  unfold checkAll at h
  cases h₁ : checkRecv now w with
  | error e => rw [h₁] at h; cases h
  | ok w₁ =>
    rw [h₁] at h
    dsimp only [bind, Except.bind] at h
    cases h₂ : checkFlights now w₁ with
    | error e => rw [h₂] at h; cases h
    | ok w₂ =>
      rw [h₂] at h
      rw [checkSend_receiver h, checkFlights_rcv h₂]
      exact checkRecv_receiver hb h₁

theorem update_receiver (hb : ∀ p ∈ w.rcv.receivedVecStandby, P p) (h : update now w = .ok w') :
    ReflTransGen (Receiver.Step P) w.rcv.receiver w'.rcv.receiver := by
  rcases update_eq now w with ⟨state, errno, -, he⟩ | ⟨-, k, -, he⟩ | ⟨-, he⟩ <;> rw [he] at h
  · cases h; exact .refl
  · obtain ⟨w₁, h₁, rfl⟩ := map_eq_ok.1 h
    have hsteps := checkAll_receiver hb h₁
    exact hsteps
  · obtain ⟨w₁, h₁, h₂⟩ := bind_eq_ok.1 h
    rw [checkSend_receiver h₂, checkFlights_rcv h₁]

/-- Whatever happens to a connection, its receiving half makes steps of the abstract receiver. -/
theorem step_receiver {e : Event} (hb : ∀ p ∈ w.rcv.receivedVecStandby, P p) (he : ∀ p, e = .arrive p → P p)
    (h : step e w = .ok w') : ReflTransGen (Receiver.Step P) w.rcv.receiver w'.rcv.receiver := by
  cases e with
  | send buffer =>
    cases hs : send buffer w with
    | error e => rw [step, hs] at h; cases h
    | ok c =>
      rw [step, hs] at h
      cases h
      have : c.2.rcv = w.rcv := by
        unfold send at hs
        dsimp only at hs
        split_ifs at hs <;> cases hs <;> rfl
      show ReflTransGen _ _ c.2.rcv.receiver
      rw [this]
  | recv size =>
    cases hs : recv size w with
    | error e => rw [step, hs] at h; cases h
    | ok c => rw [step, hs] at h; cases h; rw [recv_receiver (show recv size w = .ok (c.1, c.2) from hs)]
  | shutdown how => cases h; cases how <;> exact .refl
  | close =>
    cases hc : w.closedCalled with
    | true => rw [step, close, if_pos hc] at h; cases h; exact .refl
    | false => rw [step, close_eq hc] at h; cases h; exact .refl
  | setfl b => cases h; exact .refl
  | arrive p => cases h; exact .single (.arrive p (he p rfl))
  | update t => exact update_receiver (w := w.prepare t) hb h
  | checkRecv t => exact checkRecv_receiver (w := w.prepare t) hb h
  | checkFlights t => rw [checkFlights_rcv h]; exact .refl
  | checkSend t => rw [checkSend_receiver h]; exact .refl

end Wawo
