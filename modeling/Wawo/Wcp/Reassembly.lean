import Wawo.Wcp.Receiver

/-!
# Reassembly on an established connection

The packs of the peer's stream (`SeqPack f`) arrive in any order, any number of times, and the user
reads in between. `Receiver.Ordered f r₀` is the invariant: what is held is strictly increasing and
not below `next`, and since the state `r₀` exactly the pieces `f r₀.next, …, f (next - 1)` have joined
the stream. It is kept by every step of the abstract receiver; the delivery loop cannot fail where it
holds.
-/

namespace Wawo

open Lts Relation

variable {f : Nat → List Byte} {w w' w₀ : Wcb} {now : Nat} {p : WcbReceivedPack}
  {rest : List WcbReceivedPack}

/-- A data pack or an empty acknowledgement of the peer at `addr` whose stream has the piece
`f seq` at each number `seq`. -/
structure SeqPack (f : Nat → List Byte) (addr : Address) (p : WcbReceivedPack) : Prop where
  inSeqSpace : p.inSeqSpace = true
  not_syn : p.testFlag .syn = false
  not_fin : p.testFlag .fin = false
  not_rst : p.testFlag .rst = false
  dat_or_ack : p.testFlag .dat = true ∨ (p.data = [] ∧ p.testFlag .ack = true)
  seq_lt : p.seq < 2 ^ 32 - 1
  fromAddr_eq : p.fromAddr = addr
  data_eq : p.data = f p.seq

/-- The invariant of reassembly; `r₀` is where it started. -/
structure Receiver.Ordered (f : Nat → List Byte) (addr : Address) (r₀ r : Receiver) : Prop where
  sorted : r.received.Pairwise (fun p q => p.seq < q.seq)
  ge_next : ∀ p ∈ r.received, r.next ≤ p.seq
  held : ∀ p ∈ r.received, SeqPack f addr p
  arrived : ∀ p ∈ r.arrived, SeqPack f addr p
  le_next : r₀.next ≤ r.next
  next_lt : r.next < 2 ^ 32
  stream : r.stream = r₀.stream ++ SeqList.concatFrom f r₀.next (r.next - r₀.next)
  consumed : r.consumed.map (fun p => p.seq) =
    r₀.consumed.map (fun p => p.seq) ++ List.range' r₀.next (r.next - r₀.next)

namespace Receiver.Ordered

variable {addr : Address} {r₀ r r' : Receiver}

/-- Removing the first pack held keeps the others in order. -/
theorem tail (h : Ordered f addr r₀ r) (hr : r.received = p :: rest) :
    rest.Pairwise (fun p q => p.seq < q.seq) ∧ (∀ q ∈ rest, p.seq < q.seq) ∧ ∀ q ∈ rest, SeqPack f addr q := by
  have hs := h.sorted
  rw [hr] at hs
  obtain ⟨hp, hrest⟩ := List.pairwise_cons.1 hs
  exact ⟨hrest, hp, fun q hq => h.held q (by rw [hr]; simp [hq])⟩

theorem step (h : Ordered f addr r₀ r) (hs : Receiver.Step (SeqPack f addr) r r') : Ordered f addr r₀ r' := by
  cases hs with
  | arrive p hp =>
    refine { h with arrived := ?_ }
    intro q hq
    rcases List.mem_append.1 hq with hq | hq
    · exact h.arrived q hq
    · rw [List.mem_singleton.1 hq]; exact hp
  | take => exact { h with arrived := by simp }
  | insert p hp _ hn =>
    refine ⟨SeqList.pairwise_insertByKey h.sorted, ?_, ?_, h.arrived, h.le_next, h.next_lt, h.stream, h.consumed⟩
    · intro q hq
      rcases SeqList.mem_insertByKey hq with rfl | hq
      · exact hn
      · exact h.ge_next q hq
    · intro q hq
      rcases SeqList.mem_insertByKey hq with rfl | hq
      · exact hp
      · exact h.held q hq
  | consume p rest fin hr hn _ =>
    have hp : SeqPack f addr p := h.held p (by rw [hr]; simp)
    obtain ⟨hsorted, hlt, hheld⟩ := h.tail hr
    have hseq := hp.seq_lt
    have hnext : u32 (r.next + 1) = r.next + 1 := u32_of_lt (by omega)
    have hle := h.le_next
    have hcount : r.next + 1 - r₀.next = (r.next - r₀.next) + 1 := by omega
    have hidx : r₀.next + (r.next - r₀.next) = p.seq := by omega
    refine ⟨hsorted, ?_, hheld, h.arrived, ?_, ?_, ?_, ?_⟩
    · intro q hq
      have := hlt q hq
      show u32 (r.next + 1) ≤ q.seq; omega
    · show r₀.next ≤ u32 (r.next + 1); omega
    · show u32 (r.next + 1) < 2 ^ 32; omega
    · show r.stream ++ p.data = _ ++ SeqList.concatFrom f r₀.next (u32 (r.next + 1) - r₀.next)
      rw [hnext, hcount, SeqList.concatFrom_succ, hidx, h.stream, hp.data_eq, List.append_assoc]
    · show (r.consumed ++ [p]).map _ = _ ++ List.range' r₀.next (u32 (r.next + 1) - r₀.next)
      rw [hnext, hcount, List.map_append, h.consumed, List.range'_concat, List.append_assoc]
      simp [hidx]
  | consumeRst p rest hr _ hf =>
    have := (h.held p (by rw [hr]; simp)).not_rst
    rw [this] at hf
    cases hf
  | drop p rest hr _ =>
    obtain ⟨hsorted, -, hheld⟩ := h.tail hr
    refine ⟨hsorted, fun q hq => h.ge_next q ?_, hheld, h.arrived, h.le_next, h.next_lt, h.stream, h.consumed⟩
    rw [hr]; simp [hq]

theorem steps (h : Ordered f addr r₀ r) (hs : ReflTransGen (Receiver.Step (SeqPack f addr)) r r') :
    Ordered f addr r₀ r' :=
  Simulates.star_inv (fun _ _ h hs => h.step hs) h hs

end Receiver.Ordered

/-! ### `check_recv` does not fail -/

theorem deliverFlags_seqPack (hst : w.state = .established) (hp : SeqPack f w.remoteAddr p) :
    deliverFlags now w p rest = .ok ({ w with rcv := { w.rcv with received := rest } }, .more) := by
  have hsyn : deliverSyn w p rest = (w, .more) := by simp [deliverSyn, hp.not_syn]
  have hack : deliverAck now w p = .ok w := by
    unfold deliverAck
    rw [hst]
    split_ifs <;> rfl
  have hfin : deliverFin now w p = w := by simp [deliverFin, hp.not_fin]
  unfold deliverFlags
  rw [if_neg (by simp [hp.not_rst]), hsyn]
  dsimp only
  rw [hack]
  dsimp only [bind, Except.bind]
  rw [hfin]
  rfl

theorem deliverOne_seqPack (now : Nat) (rest : List WcbReceivedPack) (hst : w.state = .established) (hp : SeqPack f w.remoteAddr p)
    (hge : w.rcv.next ≤ p.seq) :
    ∃ r x, deliverOne now p rest w = .ok ({ w with rcv := r }, x) := by
  unfold deliverOne
  rw [if_neg (Nat.not_lt.2 hge)]
  split_ifs
  · exact ⟨_, _, rfl⟩
  cases hd : deliverData w p rest with
  | error e =>
    -- the assertions on a pack with payload
    exfalso
    unfold deliverData at hd
    have hdat : 0 < p.header.dlen → p.testFlag .dat = true := by
      intro hlen
      rcases hp.dat_or_ack with h | ⟨h, -⟩
      · exact h
      · rw [p.dlen_eq, h] at hlen; simp at hlen
    have hsf : p.testFlag (.syn ||| .fin) = false := by
      have h1 := hp.not_syn
      have h2 := hp.not_fin
      simp only [Datagram.testFlag, WcpHeader.testFlag, bne_eq_false_iff_eq] at h1 h2 ⊢
      rw [BitVec.and_or_distrib_left, h1, h2]; rfl
    by_cases hlen : p.header.dlen > 0
    · rw [if_pos hlen, if_neg (by simp [hdat hlen]), if_neg (by simp [hsf])] at hd
      split_ifs at hd
    · rw [if_neg hlen] at hd; cases hd
  | ok c =>
    obtain ⟨w₁, y⟩ := c
    rcases deliverData_cases hd with ⟨-, hne, -⟩ | ⟨rfl, rfl⟩ | ⟨rfl, r, rfl, -⟩
    · exact absurd hp.fromAddr_eq hne
    · exact ⟨_, _, rfl⟩
    · refine ⟨{ r.advance p with received := rest }, .more, ?_⟩
      exact deliverFlags_seqPack (w := { w with rcv := r.advance p }) hst hp

theorem deliverLoop_seqPack (now : Nat) {l : List WcbReceivedPack} {r₀ : Receiver} (hst : w.state = .established)
    (ho : Receiver.Ordered f w.remoteAddr r₀ w.rcv.receiver) (hl : w.rcv.received = l) :
    ∃ r, deliverLoop now l w = .ok { w with rcv := r } := by
  induction l generalizing w with
  | nil => exact ⟨_, rfl⟩
  | cons p rest ih =>
    have hmem : p ∈ w.rcv.received := by rw [hl]; simp
    obtain ⟨r, x, hone⟩ := deliverOne_seqPack now rest hst (ho.held p hmem) (ho.ge_next p hmem)
    obtain ⟨hs, hm⟩ := deliverOne_receiver (P := SeqPack f w.remoteAddr) hl hone
    unfold deliverLoop
    rw [hone]
    cases x with
    | stop => exact ⟨r, rfl⟩
    | more => exact ih (w := { w with rcv := r }) hst (ho.steps hs) (hm rfl)

theorem classify_seqPack {batch : List WcbReceivedPack} (hb : ∀ p ∈ batch, p.inSeqSpace = true) :
    ∃ s r, classify batch w = .ok ({ w with snd := s, rcv := r }, []) := by
  unfold classify
  induction batch generalizing w with
  | nil => exact ⟨_, _, rfl⟩
  | cons p batch ih =>
    have hp := hb p (by simp)
    simp only [Datagram.inSeqSpace, Bool.and_eq_true, Bool.not_eq_true'] at hp
    have hone : classifyOne (w, []) p =
        .ok ({ w with snd := w.snd.takeAck p.header, rcv := w.rcv.takePack p }, []) := by
      unfold classifyOne
      simp [hp]
    rw [List.foldlM_cons, hone]
    exact ih (w := { w with snd := w.snd.takeAck p.header, rcv := w.rcv.takePack p }) fun q hq => hb q (by simp [hq])

theorem takeBatch_seqPack (now : Nat) {batch : List WcbReceivedPack} (hb : ∀ p ∈ batch, p.inSeqSpace = true) :
    ∃ s r, takeBatch now batch w = .ok { w with snd := s, rcv := r } := by
  unfold takeBatch
  obtain ⟨s, r, hc⟩ := classify_seqPack hb
    (w := { w with rcv := { w.rcv with keepaliveTimerLastReceivedPack := now, keepaliveProbesSent := 0 } })
  dsimp only
  rw [hc]
  exact ⟨_, _, rfl⟩

/-! ### Whole runs -/

/-- An established connection whose held and waiting packs belong to the peer's stream. -/
structure ReassemblyStart (f : Nat → List Byte) (w : Wcb) : Prop where
  established : w.state = .established
  next_lt : w.rcv.next < 2 ^ 32
  sorted : w.rcv.received.Pairwise (fun p q => p.seq < q.seq)
  ge_next : ∀ p ∈ w.rcv.received, w.rcv.next ≤ p.seq
  held : ∀ p ∈ w.rcv.received ++ w.rcv.receivedVecStandby, SeqPack f w.remoteAddr p

/-- Packs of the stream arrive, `check_recv` is called, the user reads. -/
def SeqEvent (f : Nat → List Byte) (w : Wcb) : Event → Prop
  | .arrive p => SeqPack f w.remoteAddr p
  | .checkRecv _ => True
  | .recv _ => True
  | _ => False

/-- The bytes that joined the stream: read by the user, in `rb`, in `rb_standby`. -/
def Rcv.bytes (r : Rcv) : List Byte := r.hist.returned ++ r.rb.items ++ r.rbStandby.items

/-- What reassembly guarantees at `w`, having started at `w₀`. -/
structure Reassembled (f : Nat → List Byte) (w₀ w : Wcb) : Prop where
  sorted : w.rcv.received.Pairwise (fun p q => p.seq < q.seq)
  ge_next : ∀ p ∈ w.rcv.received, w.rcv.next ≤ p.seq
  bytes : w.rcv.bytes = w₀.rcv.bytes ++ SeqList.concatFrom f w₀.rcv.next (w.rcv.next - w₀.rcv.next)
  consumed : w.rcv.hist.consumed.map (fun p => p.seq) =
    w₀.rcv.hist.consumed.map (fun p => p.seq) ++ List.range' w₀.rcv.next (w.rcv.next - w₀.rcv.next)

/-- The invariant of a run. -/
structure Reassembling (f : Nat → List Byte) (w₀ w : Wcb) : Prop where
  established : w.state = .established
  ordered : Receiver.Ordered f w.remoteAddr w₀.rcv.receiver w.rcv.receiver

theorem ReassemblyStart.reassembling (h : ReassemblyStart f w) : Reassembling f w w where
  established := h.established
  ordered :=
    { sorted := h.sorted
      ge_next := h.ge_next
      held := fun p hp => h.held p (List.mem_append_left _ hp)
      arrived := fun p hp => h.held p (List.mem_append_right _ hp)
      le_next := Nat.le_refl _
      next_lt := h.next_lt
      stream := by simp
      consumed := by simp }

theorem Reassembling.checkRecv_ok (h : Reassembling f w₀ w) (now : Nat) :
    ∃ s r e, checkRecv now w = .ok { w with snd := s, rcv := r, wcbErrno := e } := by
  unfold checkRecv
  dsimp only
  by_cases hnil : w.rcv.receivedVecStandby = []
  · rw [if_pos hnil]
    dsimp only [bind, Except.bind]
    unfold checkKeepalive
    dsimp only
    split_ifs <;> exact ⟨_, _, _, rfl⟩
  · rw [if_neg hnil]
    have hb : ∀ p ∈ w.rcv.receivedVecStandby, p.inSeqSpace = true := fun p hp => (h.ordered.arrived p hp).inSeqSpace
    obtain ⟨s, r, ht⟩ := takeBatch_seqPack now hb (w := { w with rcv := { w.rcv with receivedVecStandby := [] } })
    have ho : Receiver.Ordered f w.remoteAddr w₀.rcv.receiver r.receiver :=
      (h.ordered.step .take).steps (takeBatch_receiver h.ordered.arrived ht)
    obtain ⟨r', hl⟩ := deliverLoop_seqPack now (w := { w with snd := s, rcv := r }) h.established ho rfl
    unfold recvBatch
    rw [ht]
    dsimp only [bind, Except.bind]
    rw [hl]
    exact ⟨_, _, _, rfl⟩

theorem Reassembling.step {e : Event} (h : Reassembling f w₀ w) (he : SeqEvent f w e)
    (hs : Wawo.step e w = .ok w') : Reassembling f w₀ w' := by
  have hsteps : ReflTransGen (Receiver.Step (SeqPack f w.remoteAddr)) w.rcv.receiver w'.rcv.receiver := by
    refine step_receiver h.ordered.arrived ?_ hs
    rintro p rfl
    exact he
  have ho := h.ordered.steps hsteps
  suffices hsame : w'.state = w.state ∧ w'.remoteAddr = w.remoteAddr from
    ⟨hsame.1.trans h.established, by rw [hsame.2]; exact ho⟩
  cases e with
  | arrive p => cases hs; exact ⟨rfl, rfl⟩
  | checkRecv t =>
    have hw : Reassembling f w₀ (w.prepare t) := ⟨h.established, h.ordered⟩
    obtain ⟨s, r, errno, hok⟩ := hw.checkRecv_ok t.now
    rw [show Wawo.step (.checkRecv t) w = Wawo.checkRecv t.now (w.prepare t) from rfl, hok] at hs
    cases hs
    exact ⟨rfl, rfl⟩
  | recv size =>
    cases hr : recv size w with
    | error e => rw [Wawo.step, hr] at hs; cases hs
    | ok c =>
      rw [Wawo.step, hr] at hs
      cases hs
      unfold recv at hr
      split_ifs at hr <;> cases hr <;> exact ⟨rfl, rfl⟩
  | _ => exact he.elim

/-- On an established connection, whatever packs of the peer's stream arrive in whatever order and
however often, and whenever the user reads: the held packs stay strictly increasing and not below
`next`, and the stream grows by exactly the pieces between the first `next` and the current one,
each taken from one consumed pack. `check_recv` never fails. -/
theorem reassembly {es : List Event} (h₀ : ReassemblyStart f w₀) (h : Run step (SeqEvent f) w₀ es w) :
    Reassembled f w₀ w ∧ ∀ t, ∃ w', step (.checkRecv t) w = .ok w' := by
  have hw : Reassembling f w₀ w := h.inv (Reassembling f w₀) (fun _ _ _ hw he hs => hw.step he hs) h₀.reassembling
  refine ⟨⟨hw.ordered.sorted, hw.ordered.ge_next, hw.ordered.stream, hw.ordered.consumed⟩, fun t => ?_⟩
  have hp : Reassembling f w₀ (w.prepare t) := ⟨hw.established, hw.ordered⟩
  obtain ⟨s, r, e, hok⟩ := hp.checkRecv_ok t.now
  exact ⟨_, hok⟩

/-- Two packs in the wrong order, then a read of one byte. -/
theorem reassembly_reordered :
    ((Wcb.connecting.after handshake).after [.arrive (serverData 2 [3] (by decide)),
      .arrive (serverData 1 [1, 2] (by decide)), .checkRecv (.at 3), .recv 1]).rcv.bytes = [1, 2, 3] := by
  let f : Nat → List Byte := fun k => if k = 1 then [1, 2] else if k = 2 then [3] else []
  have h₀ : ReassemblyStart f (Wcb.connecting.after handshake) :=
    ⟨by decide, by decide, by decide, by decide, fun p (hp : p ∈ []) => absurd hp (by simp)⟩
  have hrun : Run step (SeqEvent f) (Wcb.connecting.after handshake) [.arrive (serverData 2 [3] (by decide)),
      .arrive (serverData 1 [1, 2] (by decide)), .checkRecv (.at 3), .recv 1] _ :=
    .cons ⟨by decide, by decide, by decide, by decide, by decide, by decide, by decide, by decide⟩ rfl
      (.cons ⟨by decide, by decide, by decide, by decide, by decide, by decide, by decide, by decide⟩ rfl
        (.cons trivial rfl (.cons trivial rfl (.nil _))))
  exact (reassembly h₀ hrun).1.bytes

end Wawo
