import Wawo.Wcp.Control
import Wawo.Wcp.Flights
import Wawo.Wcp.SackSound

/-!
# Datagrams of arbitrary content (`WCB::pump_packs`, `wcp.cpp`)

`pumpPacks` reads what the UDP socket of a connection holds and makes packs of it, `pumpRecv` puts
`check_recv` behind it. Both assert what the sender of a datagram controls. `Delivering` is what the
delivery loop goes by (the state, `rcv_info.next`, the room in `rb_standby`, the remote address);
`Delivering.Bad` are the packs that an assertion of the loop does not take. `datagrams_tolerated`: in
every reachable state the two calls take a sequence of datagrams, and drop the malformed ones, exactly
if none of them is malformed, the SACKs waiting can be read and the loop meets no bad pack; ones that
are well formed but acknowledge a connection that the batch has closed still stop the process
(`datagrams_fatal`).
-/

namespace Wawo

open Lts Relation

/-! ### `WCB::pump_packs` -/

/-- A datagram as `recvfrom` hands it out; at most `WCP_MTU` bytes of it are read. -/
structure UdpMessage where
  bytes : List Byte
  fromAddr : Address
  len_le : bytes.length ≤ wcpMtu

/-- The assertions of `pump_packs` and of the `recvfrom` that it calls. -/
inductive PumpFault
  | nbytes -- `recvfrom` of an unconnected socket: `nbytes == -1`
  | headerLen -- `pump_packs`: `nbytes >= WCP_HeaderLen`
  | dlenMax -- `WCP_RECEIVED_PACK_FROM_UDPMESSAGE`: `header.dlen <= WCP_MDU`
  | dlen -- `WCP_RECEIVED_PACK_FROM_UDPMESSAGE`: `header.dlen == (len - rlen)`
deriving DecidableEq

/-- `bytes_helper::read_u16` at an offset. -/
def readU16At (l : List Byte) (i : Nat) : Nat := (l.getD i 0).toNat <<< 8 ||| (l.getD (i + 1) 0).toNat

/-- `bytes_helper::read_u32` at an offset. -/
def readU32At (l : List Byte) (i : Nat) : Nat :=
  readU32 (l.getD i 0) (l.getD (i + 1) 0) (l.getD (i + 2) 0) (l.getD (i + 3) 0)

namespace UdpMessage

variable (m : UdpMessage)

def header : WcpHeader where
  seq := readU32At m.bytes 0
  ack := readU32At m.bytes 4
  wnd := readU32At m.bytes 8
  flag := BitVec.ofNat 16 (readU16At m.bytes 12)
  dlen := readU16At m.bytes 14

/-- `WCP_RECEIVED_PACK_FROM_UDPMESSAGE`: what stands behind the header is looked at only if the header
announces a payload. -/
def receivedPack : Except PumpFault WcbReceivedPack :=
  if m.bytes.length < wcpHeaderLen then .error .headerLen
  else if h0 : m.header.dlen = 0 then .ok ⟨⟨m.header, [], h0, Nat.zero_le _⟩, m.fromAddr⟩
  else if hmax : m.header.dlen ≤ wcpMdu then
    if hlen : m.header.dlen = (m.bytes.drop wcpHeaderLen).length then
      .ok ⟨⟨m.header, m.bytes.drop wcpHeaderLen, hlen, hlen ▸ hmax⟩, m.fromAddr⟩
    else .error .dlen
  else .error .dlenMax

end UdpMessage

/-- `wcb_errno = recvfrom_ec`, `r_flag |= READ_RECV_ERROR` -/
def Wcb.noteRecvError (ec : Int) (w : Wcb) : Wcb := { w with wcbErrno := ec, rcv := { w.rcv with recvError := true } }

/-- One round of `pump_packs`, and whether the loop goes on. A datagram without a byte ends the loop as
an error of a connected socket, and fails an assertion of `recvfrom` on another. -/
def pumpOne (connected : Bool) (m : UdpMessage) (w : Wcb) : Except PumpFault (Wcb × Delivery) :=
  if m.bytes = [] then
    if connected then .ok (w.noteRecvError eSocketGraceClose, .stop) else .error .nbytes
  else do
    let p ← m.receivedPack
    return (arrive p w, .more)

/-- `WCB::pump_packs`: the datagrams that wait in the socket, and the `recvfrom` behind them that
returns `ec`. -/
def pumpPacks (connected : Bool) (ec : Int) : List UdpMessage → Wcb → Except PumpFault Wcb
  | [], w => .ok (if ec = eSocketRecvBlock then w else w.noteRecvError ec)
  | m :: ms, w => do
    match ← pumpOne connected m w with
    | (w, .stop) => return w
    | (w, .more) => pumpPacks connected ec ms w

/-- `pump_packs`, then `check_recv` in the tick `t`. -/
def pumpRecv (connected : Bool) (ec : Int) (t : Tick) (ms : List UdpMessage) (w : Wcb) : Except (PumpFault ⊕ Fault) Wcb :=
  match pumpPacks connected ec ms w with
  | .error e => .error (.inl e)
  | .ok w =>
    match checkRecv t.now (w.prepare t) with
    | .error e => .error (.inr e)
    | .ok w => .ok w

/-! ### What is expected of datagrams -/

/-- The header is there and announces the payload that follows; a SACK brings whole numbers, any other
payload is plain data. -/
def UdpMessage.WellFormed (m : UdpMessage) : Prop :=
  wcpHeaderLen ≤ m.bytes.length ∧ m.header.dlen = m.bytes.length - wcpHeaderLen ∧
    (m.header.testFlag .sack = true → m.header.dlen ≠ 0 ∧ 4 ∣ m.header.dlen) ∧
    (m.header.testFlag .sack = false → m.header.dlen ≠ 0 →
      m.header.testFlag .dat = true ∧ m.header.testFlag (.syn ||| .fin) = false)

instance (m : UdpMessage) : Decidable m.WellFormed := inferInstanceAs (Decidable (_ ∧ _))

/-- Reading the datagram leaves the connection as it is and the loop of `pump_packs` goes on. -/
def UdpMessage.Dropped (connected : Bool) (m : UdpMessage) : Prop := ∀ w : Wcb, pumpOne connected m w = .ok (w, .more)

/-- No assertion fails on the datagrams, and the malformed ones are dropped. -/
def Tolerates (connected : Bool) (ec : Int) (t : Tick) (ms : List UdpMessage) (w : Wcb) : Prop :=
  (∃ w', pumpRecv connected ec t ms w = .ok w') ∧ ∀ m ∈ ms, ¬ m.WellFormed → m.Dropped connected

/-! ### The delivery loop by its control data -/

/-- What the delivery loop goes by. -/
structure Delivering where
  state : WcbState
  next : Nat
  room : Nat -- `rb_standby->left_capacity()`
  remoteAddr : Address

def Wcb.delivering (w : Wcb) : Delivering := ⟨w.state, w.rcv.next, w.rcv.rbStandby.leftCapacity, w.remoteAddr⟩

/-- The state behind an ACK; `connRet` is the result of `so->connect`. -/
def WcbState.acked (connRet : Int) : WcbState → WcbState
  | .synSent => if connRet = ok then .established else .closed
  | .synReceived => .established
  | .finWait1 => .finWait2
  | .lastAck => .closed
  | .closing => .timeWait
  | s => s

/-- The state behind a FIN. -/
def WcbState.finished : WcbState → WcbState
  | .established => .closeWait
  | .finWait1 => .closing
  | .finWait2 => .timeWait
  | _ => .closed

/-- No ACK is expected: the connection is closed, or not begun. -/
def WcbState.noAck : WcbState → Bool
  | .closed | .listen | .syning | .recycle => true
  | _ => false

namespace Delivering

variable (connRet : Int) (d : Delivering) (p : WcbReceivedPack)

/-- The pack is in order, its payload is the peer's and fits, and it is no RST: its other flags count. -/
def Takes : Prop :=
  p.seq = d.next ∧ (p.data ≠ [] → p.fromAddr = d.remoteAddr ∧ p.data.length ≤ d.room) ∧ p.testFlag .rst = false

instance : Decidable (d.Takes p) := inferInstanceAs (Decidable (_ ∧ _))

/-- Behind the SYN of a pack, if it has one; a SYN that is not expected ends the loop. -/
def syn : Option Delivering :=
  if p.testFlag .syn then
    match d.state with
    | .synReceived => some d
    | .synSent => some { d with remoteAddr := p.fromAddr }
    | _ => none
  else some d

/-- The ACK of the pack is taken in no state, or, by a client that waits for the answer to its SYN, from
the remote address only. -/
def BadAck : Prop :=
  p.testFlag .ack = true ∧
    (d.state.noAck = true ∨ d.state = .synSent ∧ (d.remoteAddr.isNull = true ∨ d.remoteAddr ≠ p.fromAddr))

instance : Decidable (d.BadAck p) := inferInstanceAs (Decidable (_ ∧ _))

/-- Behind the payload of a pack that is taken. -/
def advance : Delivering := { d with next := u32 (d.next + 1), room := d.room - p.data.length }

/-- Behind the ACK and the FIN of a pack. -/
def flags : Delivering :=
  let state := if p.testFlag .ack then d.state.acked connRet else d.state
  { d with state := if p.testFlag .fin then state.finished else state }

/-- The loop goes on behind the pack. -/
def after : Option Delivering :=
  if d.Takes p then ((d.advance p).syn p).map fun d => d.flags connRet p else none

/-- An assertion of the loop does not take the pack: it is held although its number is past, its payload
is no plain data, or its ACK is not expected. -/
def Bad : Prop :=
  p.seq < d.next ∨
  (p.seq = d.next ∧ p.data ≠ [] ∧ ¬ (p.testFlag .dat = true ∧ p.testFlag (.syn ||| .fin) = false)) ∨
  (d.Takes p ∧ ∃ d' ∈ (d.advance p).syn p, d'.BadAck p)

instance : Decidable (d.Bad p) := inferInstanceAs (Decidable (_ ∨ _ ∨ _ ∧ _))

/-- The loop meets no bad pack in the list. -/
def Smooth : List WcbReceivedPack → Delivering → Prop
  | [], _ => True
  | p :: l, d => ¬ d.Bad p ∧ ∀ d' ∈ d.after connRet p, Smooth l d'

instance decidableSmooth : ∀ (l : List WcbReceivedPack) (d : Delivering), Decidable (Smooth connRet l d)
  | [], _ => isTrue trivial
  | _ :: l, _ =>
    haveI := decidableSmooth l
    inferInstanceAs (Decidable (_ ∧ _))

end Delivering

/-- What `rcv_received` holds when a batch has been sorted in. -/
def Rcv.waiting (r : Rcv) (batch : List WcbReceivedPack) : List WcbReceivedPack :=
  ((batch.filter fun p => p.inSeqSpace).foldl Rcv.takePack r).received

/-- `check_recv` takes the batch: every SACK in it can be read, and the loop meets no bad pack. -/
def Wcb.Takes (connRet : Int) (batch : List WcbReceivedPack) (w : Wcb) : Prop :=
  batch = [] ∨ (∀ p ∈ batch, p.testFlag .sack = true → p.data ≠ [] ∧ 4 ∣ p.data.length) ∧
    Delivering.Smooth connRet (w.rcv.waiting batch) w.delivering

instance (connRet : Int) (batch : List WcbReceivedPack) (w : Wcb) : Decidable (w.Takes connRet batch) :=
  inferInstanceAs (Decidable (_ ∨ _ ∧ _))

/-- The packs that well-formed datagrams bring. -/
def packsOf (ms : List UdpMessage) : List WcbReceivedPack := ms.filterMap fun m => m.receivedPack.toOption

/-! ### Decoding -/

section

variable {m : UdpMessage} {ms : List UdpMessage} {connected : Bool} {ec : Int} {t : Tick} {w w' : Wcb}

theorem UdpMessage.WellFormed.receivedPack (h : m.WellFormed) :
    ∃ p, m.receivedPack = .ok p ∧ p.header = m.header ∧ p.data.length = m.header.dlen := by
  obtain ⟨hlen, hdlen, -, -⟩ := h
  have hmtu := m.len_le
  unfold UdpMessage.receivedPack
  rw [if_neg (Nat.not_lt.2 hlen)]
  by_cases h0 : m.header.dlen = 0
  · rw [dif_pos h0]
    exact ⟨_, rfl, rfl, h0.symm⟩
  · have hmax : m.header.dlen ≤ wcpMdu := by
      rw [hdlen]
      exact Nat.sub_le_sub_right hmtu _
    have hdrop : m.header.dlen = (m.bytes.drop wcpHeaderLen).length := by rw [List.length_drop, hdlen]
    rw [dif_neg h0, dif_pos hmax, dif_pos hdrop]
    exact ⟨_, rfl, rfl, hdrop.symm⟩

theorem UdpMessage.WellFormed.ne_nil (h : m.WellFormed) : m.bytes ≠ [] := by
  intro hnil
  have hlen := h.1
  rw [hnil] at hlen
  exact absurd hlen (by decide)

/-- Nothing that is read is dropped: it ends the loop, or it is queued. -/
theorem not_dropped (connected : Bool) (m : UdpMessage) : ¬ m.Dropped connected := by
  intro h
  have hone := h Wcb.connecting
  unfold pumpOne at hone
  split_ifs at hone
  · cases hone
  · obtain ⟨p, -, harr⟩ := bind_eq_ok.1 hone
    have hstandby := congrArg (fun c : Wcb × Delivery => c.1.rcv.receivedVecStandby.length) (Except.ok.inj harr)
    dsimp only [arrive] at hstandby
    rw [List.length_append, List.length_singleton] at hstandby
    omega

/-- Well-formed datagrams are all queued, in order. -/
theorem pumpPacks_wellFormed (connected : Bool) (ec : Int) (h : ∀ m ∈ ms, m.WellFormed) (w : Wcb) :
    ∃ ps w', packsOf ms = ps ∧ pumpPacks connected ec ms w = .ok w' ∧
      w'.rcv = { w.rcv with receivedVecStandby := w.rcv.receivedVecStandby ++ ps, recvError := w'.rcv.recvError } ∧
      w' = { w with wcbErrno := w'.wcbErrno, rcv := w'.rcv } := by
  induction ms generalizing w with
  | nil =>
    refine ⟨[], _, rfl, rfl, ?_, ?_⟩
    · split_ifs
      · rw [List.append_nil]
      · rw [List.append_nil]; rfl
    · split_ifs <;> rfl
  | cons m ms ih =>
    obtain ⟨hm, hms⟩ := List.forall_mem_cons.1 h
    obtain ⟨p, hp, -, -⟩ := hm.receivedPack
    obtain ⟨ps, w', hps, hpump, hrcv, hw⟩ := ih hms (arrive p w)
    have hone : pumpOne connected m w = .ok (arrive p w, .more) := by
      unfold pumpOne
      rw [if_neg hm.ne_nil, hp]
      rfl
    refine ⟨p :: ps, w', ?_, ?_, ?_, hw⟩
    · rw [← hps, packsOf, List.filterMap_cons, hp]
      rfl
    · unfold pumpPacks
      rw [hone]
      exact hpump
    · rw [hrcv]
      simp only [arrive, List.append_assoc, List.singleton_append]

end

/-! ### The batch -/

section

variable {now : Nat} {w w' : Wcb} {p : WcbReceivedPack} {rest batch : List WcbReceivedPack} {s : Snd}

theorem readSack_isOk : ∀ l : List Byte, (∃ acks, readSack l = .ok acks) ↔ 4 ∣ l.length
  | [] => ⟨fun _ => Nat.dvd_zero 4, fun _ => ⟨[], rfl⟩⟩
  | [_] => by simp [readSack]
  | [_, _] => by simp [readSack]
  | [_, _, _] => by simp [readSack]
  | a :: b :: c :: d :: rest => by
    have ih := readSack_isOk rest
    have hlen : (a :: b :: c :: d :: rest).length = rest.length + 4 := rfl
    rw [hlen, Nat.dvd_add_self_right, ← ih, readSack]
    constructor
    · rintro ⟨acks, h⟩
      obtain ⟨l, hl, -⟩ := bind_eq_ok.1 h
      exact ⟨l, hl⟩
    · rintro ⟨l, hl⟩
      rw [hl]
      exact ⟨_, rfl⟩

theorem readable_iff : p.Readable ↔ (p.testFlag .sack = true → p.data ≠ [] ∧ 4 ∣ p.data.length) := by
  unfold Datagram.Readable
  rw [readSack_isOk]

theorem ackLoop_error {clock : Nat → Nat} {acks : List Nat} {e : Fault} (h : s.ackLoop now clock acks = .error e) :
    e = .nflightBytes := by
  unfold Snd.ackLoop at h
  induction acks generalizing s with
  | nil => cases h
  | cons a acks ih =>
    rw [List.foldlM_cons] at h
    cases hone : s.ackOne now clock a with
    | ok s' =>
      rw [hone] at h
      exact ih h
    | error e' =>
      rw [hone] at h
      cases h
      unfold Snd.ackOne at hone
      dsimp only at hone
      split_ifs at hone
      all_goals
        unfold Snd.ackFlight at hone
        split at hone
        · cases hone
        · rename_i q _
          cases hack : Snd.handlePackAcked _ q now (clock a) with
          | ok s' => rw [hack] at hone; cases hone
          | error e' => rw [hack] at hone; cases hone; exact (handlePackAcked_error hack).1

/-- The bytes in flight are counted, so a batch is taken unless a SACK in it cannot be read. -/
theorem takeBatch_isOk (hb : w.snd.sender.FlightBytes) :
    (∃ w', takeBatch now batch w = .ok w') ↔ ∀ p ∈ batch, p.Readable := by
  constructor
  · rintro ⟨w', h⟩
    obtain ⟨c, hc⟩ := takeBatch_classify h
    exact readable_of_classify hc
  · intro hread
    obtain ⟨c, hc⟩ := classify_of_readable hread { w with rcv := { w.rcv with
      keepaliveTimerLastReceivedPack := now, keepaliveProbesSent := 0 } }
    cases ht : takeBatch now batch w with
    | ok w' => exact ⟨w', rfl⟩
    | error e =>
      have he : e = .nflightBytes := by
        unfold takeBatch at ht
        dsimp only at ht
        rw [hc] at ht
        dsimp only [bind, Except.bind] at ht
        split at ht
        case h_1 e' hack =>
          cases ht
          exact ackLoop_error hack
        case h_2 => cases ht
      have hsim : SndSim (.any .recv 0) Wcb.snd w.snd.sender (takeBatch now batch w) := takeBatch_sim nofun fun _ _ => trivial
      rw [ht, he] at hsim
      obtain ⟨v, hv, q, hq, hlt⟩ := hsim
      have hbv : v.FlightBytes := Simulates.star_inv (fun _ _ h hs => h.step hs) hb hv
      exact absurd hlt (Nat.not_lt.2 (hbv.totalBytes_le hq))

/-! ### The delivery loop -/

theorem dlen_pos_iff (d : Datagram) : d.header.dlen > 0 ↔ d.data ≠ [] := by
  rw [d.dlen_eq, gt_iff_lt, List.length_pos_iff]

/-- The payload of a pack in order: it fails, ends the loop, or is in `rb_standby`. -/
theorem deliverData_eq (w : Wcb) (p : WcbReceivedPack) (rest : List WcbReceivedPack) :
    (p.data ≠ [] ∧ ¬ (p.testFlag .dat = true ∧ p.testFlag (.syn ||| .fin) = false) ∧ ∃ e, deliverData w p rest = .error e) ∨
    (p.data = [] ∨ p.testFlag .dat = true ∧ p.testFlag (.syn ||| .fin) = false) ∧
      ((p.data ≠ [] ∧ ¬ (p.fromAddr = w.remoteAddr ∧ p.data.length ≤ w.rcv.rbStandby.leftCapacity) ∧
        ∃ w', deliverData w p rest = .ok (w', .stop)) ∨
      (p.data ≠ [] → p.fromAddr = w.remoteAddr ∧ p.data.length ≤ w.rcv.rbStandby.leftCapacity) ∧
        ∃ r : Rcv, deliverData w p rest = .ok ({ w with rcv := r }, .more) ∧ r.next = w.rcv.next ∧
          r.rbStandby.leftCapacity = w.rcv.rbStandby.leftCapacity - p.data.length) := by
  have hlen := p.dlen_eq
  unfold deliverData
  by_cases hne : p.data = []
  · rw [if_neg fun h => (dlen_pos_iff p.toDatagram).1 h hne]
    exact .inr ⟨.inl hne, .inr ⟨fun h => absurd hne h, w.rcv, rfl, rfl, by rw [hne]; rfl⟩⟩
  rw [if_pos ((dlen_pos_iff p.toDatagram).2 hne)]
  by_cases hdat : p.testFlag .dat = true
  case neg =>
    rw [if_pos hdat]
    exact .inl ⟨hne, fun h => hdat h.1, _, rfl⟩
  rw [if_neg (not_not_intro hdat)]
  by_cases hctl : p.testFlag (.syn ||| .fin) = true
  case pos =>
    rw [if_pos hctl]
    exact .inl ⟨hne, fun h => Bool.eq_false_iff.1 h.2 hctl, _, rfl⟩
  rw [if_neg hctl]
  refine .inr ⟨.inr ⟨hdat, Bool.eq_false_iff.2 hctl⟩, ?_⟩
  by_cases hfrom : p.fromAddr = w.remoteAddr
  case neg =>
    rw [if_pos hfrom]
    exact .inl ⟨hne, fun h => hfrom h.1, _, rfl⟩
  rw [if_neg (not_not_intro hfrom), hlen]
  by_cases hroom : w.rcv.rbStandby.leftCapacity < p.data.length
  · rw [if_pos hroom]
    exact .inl ⟨hne, fun h => Nat.not_le.2 hroom h.2, _, rfl⟩
  · rw [if_neg hroom]
    refine .inr ⟨fun _ => ⟨hfrom, Nat.not_lt.1 hroom⟩, _, rfl, rfl, ?_⟩
    simp only [BoundedQueue.leftCapacity, BoundedQueue.count, BoundedQueue.write, List.length_append,
      List.length_take] at hroom ⊢
    omega

theorem deliverSyn_stop (h : w.delivering.syn p = none) (rest : List WcbReceivedPack) :
    ∃ w', deliverSyn w p rest = (w', .stop) := by
  unfold Delivering.syn at h
  unfold deliverSyn
  by_cases hsyn : p.testFlag .syn = true
  · rw [if_pos hsyn] at h ⊢
    dsimp only [Wcb.delivering] at h
    cases hs : w.state with
    | synReceived | synSent => rw [hs] at h; cases h
    | _ => exact ⟨_, rfl⟩
  · rw [if_neg hsyn] at h
    cases h

theorem deliverSyn_more {d : Delivering} (h : w.delivering.syn p = some d) (rest : List WcbReceivedPack) :
    ∃ w', deliverSyn w p rest = (w', .more) ∧ w'.delivering = d ∧ w'.so = w.so := by
  unfold Delivering.syn at h
  unfold deliverSyn
  by_cases hsyn : p.testFlag .syn = true
  · rw [if_pos hsyn] at h ⊢
    dsimp only [Wcb.delivering] at h
    cases hs : w.state with
    | synReceived | synSent => rw [hs] at h; cases h; exact ⟨_, rfl, by rw [← hs]; rfl, rfl⟩
    | _ => rw [hs] at h; cases h
  · rw [if_neg hsyn] at h ⊢
    cases h
    exact ⟨w, rfl, rfl, rfl⟩

theorem deliverAck_bad (h : w.delivering.BadAck p) (now : Nat) : ∃ e, deliverAck now w p = .error e := by
  obtain ⟨hack, h⟩ := h
  unfold deliverAck
  rw [if_pos hack]
  rcases h with hst | ⟨hst, hrem⟩
  · have hno : w.state.noAck = true := hst
    cases hs : w.state <;> rw [hs] at hno <;> cases hno <;> exact ⟨_, rfl⟩
  · have hs : w.state = .synSent := hst
    simp only [hs]
    by_cases hnull : w.remoteAddr.isNull = true
    · rw [if_pos hnull]
      exact ⟨_, rfl⟩
    · have hother : w.remoteAddr ≠ p.fromAddr := hrem.resolve_left hnull
      rw [if_neg hnull, if_pos hother]
      exact ⟨_, rfl⟩

theorem deliverAck_good (h : ¬ w.delivering.BadAck p) (now : Nat) :
    ∃ w', deliverAck now w p = .ok w' ∧ w'.so = w.so ∧
      w'.delivering = { w.delivering with state := if p.testFlag .ack then w.state.acked w.so.connRet else w.state } := by
  unfold deliverAck
  by_cases hack : p.testFlag .ack = true
  · rw [if_pos hack, if_pos hack]
    have hno : ¬ w.state.noAck = true := fun hno => h ⟨hack, .inl hno⟩
    cases hs : w.state with
    | synSent =>
      have hnull : ¬ w.remoteAddr.isNull = true := fun hnull => h ⟨hack, .inr ⟨hs, .inl hnull⟩⟩
      have hfrom : w.remoteAddr = p.fromAddr := not_not.1 fun hne => h ⟨hack, .inr ⟨hs, .inr hne⟩⟩
      dsimp only
      rw [if_neg hnull, if_neg (not_not_intro hfrom)]
      by_cases hret : w.so.connRet = ok
      · rw [if_pos hret]
        exact ⟨_, rfl, rfl, by rw [WcbState.acked, if_pos hret]; rfl⟩
      · rw [if_neg hret]
        exact ⟨_, rfl, rfl, by rw [WcbState.acked, if_neg hret]; rfl⟩
    | closed | listen | syning | recycle => exact absurd (by rw [hs]; rfl) hno
    | synReceived | finWait1 | closing | lastAck => exact ⟨_, rfl, rfl, rfl⟩
    | established | finWait2 | closeWait | timeWait =>
      exact ⟨w, rfl, rfl, congrArg (fun state => { w.delivering with state := state }) hs⟩
  · rw [if_neg hack, if_neg hack]
    exact ⟨w, rfl, rfl, rfl⟩

theorem deliverFin_delivering (now : Nat) (w : Wcb) (p : WcbReceivedPack) :
    (deliverFin now w p).so.connRet = w.so.connRet ∧
      (deliverFin now w p).delivering = { w.delivering with state := if p.testFlag .fin then w.state.finished else w.state } := by
  unfold deliverFin
  by_cases hfin : p.testFlag .fin = true
  · rw [if_pos hfin, if_pos hfin]
    cases hs : w.state <;> exact ⟨rfl, rfl⟩
  · rw [if_neg hfin, if_neg hfin]
    exact ⟨rfl, rfl⟩

/-- How the flags of a pack in order are taken, once `rcv_info.next` is past it. -/
theorem deliverFlags_eq (hrst : p.testFlag .rst = false) (now : Nat) (rest : List WcbReceivedPack) :
    (w.delivering.syn p = none ∧ ∃ w', deliverFlags now w p rest = .ok (w', .stop)) ∨
    ∃ d, w.delivering.syn p = some d ∧
      (d.BadAck p ∧ (∃ e, deliverFlags now w p rest = .error e) ∨
        ¬ d.BadAck p ∧ ∃ w', deliverFlags now w p rest = .ok (w', .more) ∧ w'.delivering = d.flags w.so.connRet p ∧
          w'.so.connRet = w.so.connRet) := by
  unfold deliverFlags
  rw [if_neg (Bool.eq_false_iff.1 hrst)]
  cases hsyn : w.delivering.syn p with
  | none =>
    obtain ⟨w', hw'⟩ := deliverSyn_stop hsyn rest
    rw [hw']
    exact .inl ⟨rfl, _, rfl⟩
  | some d =>
    obtain ⟨w₁, hw₁, hd, hso⟩ := deliverSyn_more hsyn rest
    rw [hw₁]
    refine .inr ⟨d, rfl, ?_⟩
    by_cases hbad : d.BadAck p
    · obtain ⟨e, he⟩ := deliverAck_bad (hd ▸ hbad) now
      dsimp only
      rw [he]
      exact .inl ⟨hbad, _, rfl⟩
    · obtain ⟨w₂, hw₂, hso₂, hd₂⟩ := deliverAck_good (w := w₁) (hd ▸ hbad) now
      obtain ⟨hret, hd₃⟩ := deliverFin_delivering now w₂ p
      dsimp only
      rw [hw₂]
      refine .inr ⟨hbad, _, rfl, ?_, ?_⟩
      · show (deliverFin now w₂ p).delivering = _
        have hst : w₂.state = if p.testFlag .ack then w₁.state.acked w₁.so.connRet else w₁.state :=
          congrArg Delivering.state hd₂
        rw [hd₃, hd₂, hst, hso, ← hd]
        rfl
      · show (deliverFin now w₂ p).so.connRet = _
        rw [hret, hso₂, hso]

/-- What one round of the loop comes to. -/
theorem deliverOne_eq (now : Nat) (p : WcbReceivedPack) (rest : List WcbReceivedPack) (w : Wcb) :
    (w.delivering.Bad p ∧ ∃ e, deliverOne now p rest w = .error e) ∨
    ¬ w.delivering.Bad p ∧
      (w.delivering.after w.so.connRet p = none ∧ (∃ w', deliverOne now p rest w = .ok (w', .stop)) ∨
        ∃ w', deliverOne now p rest w = .ok (w', .more) ∧ w.delivering.after w.so.connRet p = some w'.delivering ∧
          w'.so.connRet = w.so.connRet) := by
  unfold deliverOne
  by_cases hlt : p.seq < w.rcv.next
  · rw [if_pos hlt]
    exact .inl ⟨.inl hlt, _, rfl⟩
  rw [if_neg hlt]
  by_cases hseq : p.seq = w.rcv.next
  case neg =>
    rw [if_pos hseq]
    refine .inr ⟨?_, .inl ⟨if_neg fun h => hseq h.1, _, rfl⟩⟩
    rintro (h | ⟨h, -⟩ | ⟨⟨h, -⟩, -⟩)
    · exact hlt h
    · exact hseq h
    · exact hseq h
  rw [if_neg (not_not_intro hseq)]
  rcases deliverData_eq w p rest with ⟨hne, hdat, e, he⟩ | ⟨hdat, ⟨hne, hfits, w', hstop⟩ | ⟨hfits, r, hmore, hnext, hroom⟩⟩
  · rw [he]
    exact .inl ⟨.inr (.inl ⟨hseq, hne, hdat⟩), _, rfl⟩
  · rw [hstop]
    have htakes : ¬ w.delivering.Takes p := fun h => hfits (h.2.1 hne)
    refine .inr ⟨?_, .inl ⟨if_neg htakes, _, rfl⟩⟩
    rintro (h | ⟨-, -, h⟩ | ⟨h, -⟩)
    · exact hlt h
    · exact h (hdat.resolve_left hne)
    · exact htakes h
  · rw [hmore]
    have hnotData : ¬ (p.data ≠ [] ∧ ¬ (p.testFlag .dat = true ∧ p.testFlag (.syn ||| .fin) = false)) := fun h =>
      h.2 (hdat.resolve_left h.1)
    by_cases hrst : p.testFlag .rst = true
    · have htakes : ¬ w.delivering.Takes p := fun h => Bool.eq_false_iff.1 h.2.2 hrst
      have hstop : ∀ v : Wcb, ∃ w', deliverFlags now v p rest = .ok (w', .stop) := fun v => by
        unfold deliverFlags
        rw [if_pos hrst]
        exact ⟨_, rfl⟩
      refine .inr ⟨?_, .inl ⟨if_neg htakes, hstop _⟩⟩
      rintro (h | ⟨-, h⟩ | ⟨h, -⟩)
      · exact hlt h
      · exact hnotData h
      · exact htakes h
    · have hrst' := Bool.eq_false_iff.2 hrst
      have htakes : w.delivering.Takes p := ⟨hseq, hfits, hrst'⟩
      have hadv : Wcb.delivering { w with rcv := r.advance p } = w.delivering.advance p := by
        show Delivering.mk _ (u32 (r.next + 1)) r.rbStandby.leftCapacity _ = _
        rw [hnext, hroom]
        rfl
      have hbad : w.delivering.Bad p ↔ ∃ d' ∈ (w.delivering.advance p).syn p, d'.BadAck p := by
        refine ⟨?_, fun h => .inr (.inr ⟨htakes, h⟩)⟩
        rintro (h | ⟨-, h⟩ | ⟨-, h⟩)
        · exact absurd h hlt
        · exact absurd h hnotData
        · exact h
      have hflags := deliverFlags_eq (w := { w with rcv := r.advance p }) hrst' now rest
      rw [hadv] at hflags
      unfold Delivering.after
      rw [if_pos htakes, hbad]
      rcases hflags with ⟨hsyn, hstop⟩ | ⟨d, hsyn, ⟨hack, he⟩ | ⟨hack, w', hmore', hd, hret⟩⟩
      · rw [hsyn]
        exact .inr ⟨(fun ⟨_, h, _⟩ => nomatch h), .inl ⟨rfl, hstop⟩⟩
      · exact .inl ⟨⟨d, hsyn, hack⟩, he⟩
      · rw [hsyn]
        refine .inr ⟨?_, .inr ⟨w', hmore', ?_, hret⟩⟩
        · rintro ⟨d', h, hd'⟩
          cases h
          exact hack hd'
        · rw [hd]
          rfl

/-- The loop fails exactly if it meets a bad pack. -/
theorem deliverLoop_isOk (l : List WcbReceivedPack) (w : Wcb) :
    (∃ w', deliverLoop now l w = .ok w') ↔ Delivering.Smooth w.so.connRet l w.delivering := by
  induction l generalizing w with
  | nil => exact ⟨fun _ => trivial, fun _ => ⟨w, rfl⟩⟩
  | cons p rest ih =>
    unfold deliverLoop Delivering.Smooth
    rcases deliverOne_eq now p rest w with ⟨hbad, e, he⟩ | ⟨hbad, ⟨hafter, w', hstop⟩ | ⟨w', hmore, hafter, hret⟩⟩
    · rw [he]
      refine ⟨fun hw => ?_, fun h => absurd hbad h.1⟩
      obtain ⟨w', hw⟩ := hw
      cases hw
    · rw [hstop, hafter]
      exact ⟨fun _ => ⟨hbad, fun d' hd' => by cases hd'⟩, fun _ => ⟨w', rfl⟩⟩
    · rw [hmore, hafter]
      have ih := ih w'
      rw [hret] at ih
      refine ih.trans ⟨fun h => ⟨hbad, ?_⟩, fun h => h.2 _ rfl⟩
      rintro d' hd'
      cases hd'
      exact h

/-! ### `pump_packs`, then `check_recv` -/

theorem foldl_takePack_congr {r r' : Rcv} (hn : r'.next = r.next) (hr : r'.received = r.received) (l : List WcbReceivedPack) :
    (l.foldl Rcv.takePack r').received = (l.foldl Rcv.takePack r).received := by
  induction l generalizing r r' with
  | nil => exact hr
  | cons p l ih =>
    refine ih ?_ ?_
    · rw [Rcv.takePack_next, Rcv.takePack_next, hn]
    · rw [Rcv.takePack_received, Rcv.takePack_received, hn, hr]

/-- What is taken depends on what is held and on what the delivery loop goes by. -/
theorem Wcb.takes_congr (hr : w'.rcv.received = w.rcv.received) (hd : w'.delivering = w.delivering) (connRet : Int)
    (batch : List WcbReceivedPack) : w'.Takes connRet batch ↔ w.Takes connRet batch := by
  have hn : w'.rcv.next = w.rcv.next := congrArg Delivering.next hd
  unfold Wcb.Takes Rcv.waiting
  rw [foldl_takePack_congr hn hr, hd]

/-- `check_recv` fails unless every SACK of the batch can be read and the delivery loop meets no bad pack. -/
theorem checkRecv_isOk (hb : w.snd.sender.FlightBytes) (now : Nat) :
    (∃ w', checkRecv now w = .ok w') ↔ w.Takes w.so.connRet w.rcv.receivedVecStandby := by
  unfold Wcb.Takes checkRecv
  dsimp only
  by_cases hnil : w.rcv.receivedVecStandby = []
  · rw [if_pos hnil]
    exact ⟨fun _ => .inl hnil, fun _ => ⟨_, rfl⟩⟩
  rw [if_neg hnil, or_iff_right hnil]
  have htake : (∃ w₂, takeBatch now w.rcv.receivedVecStandby w.takeArrived = .ok w₂) ↔ _ := takeBatch_isOk hb
  simp only [readable_iff] at htake
  rw [← htake]
  have hloop : ∀ w₂, takeBatch now w.rcv.receivedVecStandby w.takeArrived = .ok w₂ →
      ((∃ w', deliverLoop now w₂.rcv.received w₂ = .ok w') ↔
        Delivering.Smooth w.so.connRet (w.rcv.waiting w.rcv.receivedVecStandby) w.delivering) := by
    intro w₂ ht
    have hrcv := takeBatch_rcv ht
    have hheld : w₂.rcv.received = w.rcv.waiting w.rcv.receivedVecStandby := by
      have hn : Rcv.next { w.takeArrived.rcv with keepaliveTimerLastReceivedPack := now, keepaliveProbesSent := 0 } =
        w.rcv.next := rfl
      rw [hrcv]
      exact foldl_takePack_congr hn rfl _
    have hd : w₂.delivering = w.delivering := by
      obtain ⟨s, r, rfl⟩ := takeBatch_frame ht
      obtain ⟨tmp, held, he⟩ := foldl_takePack_eq (w.rcv.receivedVecStandby.filter fun p => p.inSeqSpace)
        { w.takeArrived.rcv with keepaliveTimerLastReceivedPack := now, keepaliveProbesSent := 0 }
      rw [he] at hrcv
      dsimp only at hrcv
      rw [hrcv]
      rfl
    have hso : w₂.so = w.so := by
      obtain ⟨s, r, rfl⟩ := takeBatch_frame ht
      rfl
    rw [deliverLoop_isOk, hheld, hd, hso]
  unfold recvBatch
  constructor
  · rintro ⟨w', h⟩
    obtain ⟨w₁, h, -⟩ := bind_eq_ok.1 h
    obtain ⟨w₂, ht, hl⟩ := bind_eq_ok.1 h
    exact ⟨⟨w₂, ht⟩, (hloop w₂ ht).1 ⟨w₁, hl⟩⟩
  · rintro ⟨⟨w₂, ht⟩, hsmooth⟩
    obtain ⟨w₁, hl⟩ := (hloop w₂ ht).2 hsmooth
    refine ⟨_, bind_eq_ok.2 ⟨w₁, bind_eq_ok.2 ⟨w₂, ht, hl⟩, rfl⟩⟩

end

/-- In every state of every run, whatever packs it has seen: `pump_packs` and `check_recv` take the
datagrams without a failed assertion and drop the malformed ones among them, if and only if none is
malformed, every SACK that waits can be read, and the delivery loop meets no bad pack. -/
theorem datagrams_tolerated {w₀ w : Wcb} {es : List Event} (h₀ : Opened w₀) (h : Run step (fun _ _ => True) w₀ es w)
    (connected : Bool) (ec : Int) (t : Tick) (ms : List UdpMessage) :
    Tolerates connected ec t ms w ↔
      (∀ m ∈ ms, m.WellFormed) ∧ w.Takes t.connRet (w.rcv.receivedVecStandby ++ packsOf ms) := by
  have hb := run_flightBytes h₀ h
  unfold Tolerates
  have hdrop : (∀ m ∈ ms, ¬ m.WellFormed → m.Dropped connected) ↔ ∀ m ∈ ms, m.WellFormed :=
    ⟨fun h m hm => not_not.1 fun hwf => not_dropped connected m (h m hm hwf), fun h m hm hwf => absurd (h m hm) hwf⟩
  rw [hdrop, and_comm]
  refine and_congr_right fun hwf => ?_
  obtain ⟨ps, w₁, hps, hpump, hrcv, hw⟩ := pumpPacks_wellFormed connected ec hwf w
  have hsame : (w₁.prepare t).delivering = w.delivering := by rw [hw, hrcv]; rfl
  have hheld : (w₁.prepare t).rcv.received = w.rcv.received := by
    show w₁.rcv.received = _
    rw [hrcv]
  have harrived : (w₁.prepare t).rcv.receivedVecStandby = w.rcv.receivedVecStandby ++ packsOf ms := by
    show w₁.rcv.receivedVecStandby = _
    rw [hrcv, hps]
  have hsnd : (w₁.prepare t).snd = w.snd := by
    show w₁.snd = _
    rw [hw]
  rw [← Wcb.takes_congr hheld hsame, ← harrived]
  refine Iff.trans ?_ (checkRecv_isOk (hsnd ▸ hb) t.now)
  unfold pumpRecv
  rw [hpump]
  dsimp only
  cases checkRecv t.now (w₁.prepare t) with
  | error e => exact ⟨(fun ⟨_, h⟩ => nomatch h), fun ⟨_, h⟩ => nomatch h⟩
  | ok w' => exact ⟨fun _ => ⟨w', rfl⟩, fun _ => ⟨w', rfl⟩⟩

/-- A datagram of the server of `handshake` that is a header only. -/
def control (seq flag : Byte) : UdpMessage where
  bytes := [0, 0, 0, seq, 0, 0, 0, 1, 0, 0, 0x15, 0xa0, 0, flag, 0, 0]
  fromAddr := ⟨2⟩
  len_le := by show 16 ≤ 1400; decide

/-- The server ends its stream, and acknowledges what the client answers. -/
theorem datagrams_tolerated_fin : Tolerates true eSocketRecvBlock (.at 3) [control 1 8, control 2 2] (Wcb.connecting.after handshake) :=
  (datagrams_tolerated opened_connecting (Wcb.run_after (by decide)) _ _ _ _).2 (by decide)

/-- A client right behind the handshake, and what its server can send it: three bytes, a SACK of nothing,
and two FINs in one batch with an ACK behind them, each well formed. -/
theorem datagrams_fatal : ∃ w, Run step (fun _ _ => True) Wcb.connecting handshake w ∧ w.state = .established ∧ w.remoteAddr = ⟨2⟩ ∧
    pumpRecv true eSocketRecvBlock (.at 3) [⟨[1, 2, 3], ⟨2⟩, by decide⟩] w = .error (.inl .headerLen) ∧
    pumpRecv true eSocketRecvBlock (.at 3) [control 1 4] w = .error (.inr .sackEmpty) ∧
    (∀ m ∈ [control 1 8, control 2 8, control 3 2], m.WellFormed) ∧
    pumpRecv true eSocketRecvBlock (.at 3) [control 1 8, control 2 8, control 3 2] w = .error (.inr .ackState) ∧
    ¬ Tolerates true eSocketRecvBlock (.at 3) [control 1 8, control 2 8, control 3 2] w := by
  have hfault : pumpRecv true eSocketRecvBlock (.at 3) [control 1 8, control 2 8, control 3 2]
      (Wcb.connecting.after handshake) = .error (.inr .ackState) := fault?_eq_some.1 (by decide)
  refine ⟨_, Wcb.run_after (by decide), by decide, by decide, fault?_eq_some.1 (by decide),
    fault?_eq_some.1 (by decide), by decide, hfault, ?_⟩
  rintro ⟨⟨w', hok⟩, -⟩
  rw [hfault] at hok
  cases hok

end Wawo
