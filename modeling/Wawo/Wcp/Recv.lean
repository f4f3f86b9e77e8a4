import Wawo.Wcp.Basic

/-!
# `WCB::check_recv` (`wcp.cpp`, `wcp.hpp`)

One call takes the packs that arrived since the last one (the batch), sorts them into
acknowledgements, control packs and sequence-space packs (`classify`), queues the SACKs, applies the
received SACKs to `snd_flights` (`ackLoop`), delivers what is in order (`deliverLoop`) and swaps the
two receive buffers when the user's one is drained (`swapRb`).
-/

namespace Wawo

/-! ### Packs that `check_recv` queues -/

namespace Snd

/-- The body shared by `SYN`, `SYNACK`, `SYNSYNACK`, `FIN` and `FINACK`: a pack without payload
takes the next sequence number and goes to `s_sending_standby`. -/
def pushStandby (s : Snd) (flag : WcpFlag) : Snd :=
  let opack : WcbPack := ⟨.fresh s.dsn flag [] (Nat.zero_le _), 0, 0⟩
  { s with
    dsn := u32 (s.dsn + 1)
    sendingStandby := s.sendingStandby ++ [opack]
    hist := { s.hist with numbered := s.hist.numbered ++ [opack] } }

def SYN (s : Snd) : Snd := s.pushStandby .syn
def SYNACK (s : Snd) : Snd := s.pushStandby .ack
def SYNSYNACK (s : Snd) : Snd := s.pushStandby (.syn ||| .ack)
def FIN (s : Snd) : Snd := s.pushStandby .fin
def FINACK (s : Snd) : Snd := s.pushStandby .ack

/-- The body shared by `SACK`, `keepalive`, `keepalive_reply` and `update_rwnd`: the pack carries
`snd_info.dsn`, which is not incremented. -/
def pushIgnoreSeqSpace (s : Snd) (flag : WcpFlag) (data : List Byte) (h : data.length ≤ wcpMdu)
    (dup : Nat) : Snd :=
  { s with sendingIgnoreSeqSpace := s.sendingIgnoreSeqSpace ++ [⟨.fresh s.dsn flag data h, dup⟩] }

def keepalive (s : Snd) : Snd := s.pushIgnoreSeqSpace .keepAlive [] (Nat.zero_le _) 0
def keepaliveReply (s : Snd) : Snd := s.pushIgnoreSeqSpace .keepAliveReply [] (Nat.zero_le _) 0
def updateRwnd (s : Snd) : Snd := s.pushIgnoreSeqSpace .wnd [] (Nat.zero_le _) 0

end Snd

/-- `bytes_helper::write_impl<u32_t>` -/
def writeU32 (val : Nat) : List Byte :=
  [UInt8.ofNat (val >>> 24), UInt8.ofNat (val >>> 16), UInt8.ofNat (val >>> 8), UInt8.ofNat val]

/-- `bytes_helper::read_impl` on four bytes. -/
def readU32 (a b c d : Byte) : Nat :=
  ((a.toNat <<< 8 ||| b.toNat) <<< 8 ||| c.toNat) <<< 8 ||| d.toNat

theorem length_flatMap_writeU32 (l : List Nat) : (l.flatMap writeU32).length = 4 * l.length := by
  induction l with
  | nil => rfl
  | cons a l ih => rw [List.flatMap_cons, List.length_append, ih]; simp [writeU32]; omega

/-- `pack_acked_max_bytes / sizeof(u32_t)`: the numbers that fit into one SACK. -/
def packAckedMax : Nat := wcpMdu / 4

/-- `WCB::SACK`: the numbers in chunks, each chunk pushed `1 + WCP_SND_SACK_DUP_COUNT` times. The
first argument bounds the number of chunks. -/
def Snd.SACK : Nat → List Nat → Snd → Snd
  | 0, _, s => s
  | _, [], s => s
  | n + 1, l, s =>
    Snd.SACK n (l.drop packAckedMax)
      (s.pushIgnoreSeqSpace .sack ((l.take packAckedMax).flatMap writeU32)
        (by rw [length_flatMap_writeU32, List.length_take]; simp only [packAckedMax, wcpMdu, wcpMtu, wcpHeaderLen]; omega)
        wcpSndSackDupCount)

/-! ### RTT, congestion window and acknowledged packs -/

namespace Snd

/-- `WCB::_check_cwnd`; `curr` is what `curr_milliseconds()` returns. -/
def checkCwnd (s : Snd) (curr checkSize : Nat) : Snd :=
  let s :=
    if s.cwndSlowStart then
      let cwnd := u32 (s.cwnd + checkSize)
      if cwnd ≥ s.ssthresh then
        { s with cwnd := cwnd, cwndCongestAvoidance := true, cwndSlowStart := false }
      else { s with cwnd := cwnd }
    else if s.cwndCongestAvoidance then
      if subU64 curr s.timerCwndCongestAvoidance ≥ s.srtt then
        { s with cwnd := u32 (s.cwnd + wcpMtu), timerCwndCongestAvoidance := curr }
      else s
    else s
  { s with cwnd := min s.cwnd wcpSndCwndMax }

/-- The RTT sample of `_handle_pack_acked`, taken from packs sent once. -/
def sampleRtt (s : Snd) (rtt : Nat) : Snd :=
  let s :=
    if s.firstRttDone then
      let rttvar := u32 ((1 - wcpRttvarBeta) * s.rttvar +
        wcpRttvarBeta * (if s.srtt > rtt then s.srtt - rtt else rtt - s.srtt))
      let srtt := u32 ((1 - wcpSrttAlpha) * s.srtt + wcpSrttAlpha * rtt)
      { s with rttvar := rttvar, srtt := srtt, rto := u32 (srtt + max wcpRtoClockGranularity (u32 (2 * rttvar))) }
    else
      let rttvar := rtt >>> 1
      { s with
        firstRttDone := true, srtt := rtt, rttvar := rttvar
        rto := u32 (rtt + max wcpRtoClockGranularity (u32 (2 * rttvar))) }
  { s with rto := if s.rto > wcpRtoMax then wcpRtoMax else if s.rto < wcpRtoMin then wcpRtoMin else s.rto }

/-- `WCB::_handle_pack_acked` -/
def handlePackAcked (s : Snd) (p : WcbPack) (now curr : Nat) : Except Fault Snd :=
  let s := if p.sentTimes = 1 then s.sampleRtt (u32 (subU64 now p.sentTs)) else s
  if s.nflightBytes < p.totalBytes then .error .nflightBytes
  else .ok ({ s with nflightBytes := s.nflightBytes - p.totalBytes }.checkCwnd curr p.totalBytes)

/-- A flight of sequence number `ack` is acknowledged by a SACK: account for it and erase it. -/
def ackFlight (s : Snd) (now curr ack : Nat) : Except Fault Snd :=
  match s.flights.find? (fun p => p.seq == ack) with
  | none => .ok s
  | some p => do
    let s ← s.handlePackAcked p now curr
    return { s with flights := s.flights.eraseP (fun p => p.seq == ack) }

/-- The end of fast recovery, when a SACK beyond the lost packs arrives. -/
def fastRecover (s : Snd) (ack : Nat) : Snd :=
  if s.lostDetected ∧ ack > s.lostBiggestSeq then
    let s := { s with lostBiggerThanLostSeqTime := (s.lostBiggerThanLostSeqTime + 1) % 2 ^ 8 }
    if s.lostBiggerThanLostSeqTime ≥ 1 ∧ s.una > s.lostBiggestSeq then
      let cwnd := min (u32 (s.cwnd + s.lostCwndForFastRecoveryCompensation)) wcpSndCwndMax
      { s with
        cwnd := cwnd
        ssthresh := max (min cwnd wcpSndSsthreshMax) s.ssthresh
        lostCwndForFastRecoveryCompensation := 0
        fastRecovered := true
        lostDetected := false }
    else s
  else s

/-- One round of the `acked_queue` loop of `check_recv`. -/
def ackOne (now : Nat) (clock : Nat → Nat) (s : Snd) (ack : Nat) : Except Fault Snd :=
  if ack < s.una then .ok s
  else do
    let s := if ack > s.biggestAck then { s with biggestAck := ack, biggestSackUpdate := true } else s
    let s ← s.ackFlight now (clock ack) ack
    return s.fastRecover ack

/-- The `acked_queue` loop of `check_recv`. -/
def ackLoop (now : Nat) (clock : Nat → Nat) (acks : List Nat) (s : Snd) : Except Fault Snd :=
  acks.foldlM (ackOne now clock) s

/-- What every received pack does to the sending half: a new `ack` moves `una` and brings a window,
and `WCP_FLAG_WND` brings a window anyway. The source does not check the range of `ack`. -/
def takeAck (s : Snd) (h : WcpHeader) : Snd :=
  let s := if s.una < h.ack then { s with una := h.ack, unaUpdate := true, rwnd := h.wnd } else s
  if h.testFlag .wnd then { s with rwnd := h.wnd } else s

end Snd

/-! ### The classification loop -/

/-- The payload of a SACK, read by `packet::read<u32_t>` until it is empty. -/
def readSack : List Byte → Except Fault (List Nat)
  | [] => .ok []
  | a :: b :: c :: d :: rest => do
    let l ← readSack rest
    return readU32 a b c d :: l
  | _ => .error .sackShort

/-- A sequence-space pack: its number goes to the SACK list; an old one is dropped, a new one is put
in order into `rcv_received`, unless its number is there. -/
def Rcv.takePack (r : Rcv) (p : WcbReceivedPack) : Rcv :=
  let r := { r with sackedPackTmp := r.sackedPackTmp ++ [p.seq] }
  if p.seq < r.next then r
  else { r with received := SeqList.insertByKey (fun q : WcbReceivedPack => q.seq) p r.received }

/-- One round of the classification loop; the list is `acked_queue`. -/
def classifyOne (c : Wcb × List Nat) (p : WcbReceivedPack) : Except Fault (Wcb × List Nat) :=
  let w := { c.1 with snd := c.1.snd.takeAck p.header }
  if p.testFlag .sack then
    if p.data = [] then .error .sackEmpty
    else do
      let acks ← readSack p.data
      return ({ w with snd := { w.snd with hist := { w.snd.hist with sacked := w.snd.hist.sacked ++ acks } } },
        c.2 ++ acks)
  else if p.testFlag .keepAlive then .ok ({ w with snd := w.snd.keepaliveReply }, c.2)
  else if p.testFlag .keepAliveReply then .ok (w, c.2)
  else .ok ({ w with rcv := w.rcv.takePack p }, c.2)

def classify (batch : List WcbReceivedPack) (w : Wcb) : Except Fault (Wcb × List Nat) :=
  batch.foldlM classifyOne (w, [])

/-! ### In-order delivery -/

/-- `reply_rst_to_address` -/
def Sock.replyRst (so : Sock) (seq : Nat) : Sock :=
  { so with rsts := so.rsts ++ [.fresh seq .rst [] (Nat.zero_le _)] }

/-- How one round of the delivery loop ends. -/
inductive Delivery
  | more -- the pack is erased and the loop goes on
  | stop -- `break`
deriving DecidableEq

/-- The payload of the pack `p` at the head of `rcv_received` (`rest` behind it) goes to
`rb_standby`; after `.stop`, `rcv_info.next` stays. -/
def deliverData (w : Wcb) (p : WcbReceivedPack) (rest : List WcbReceivedPack) :
    Except Fault (Wcb × Delivery) :=
  if p.header.dlen > 0 then
    if ¬ p.testFlag .dat then .error .dataNotDat
    else if p.testFlag (.syn ||| .fin) then .error .dataSynFin
    else if p.fromAddr ≠ w.remoteAddr then
      .ok ({ w with
        so := w.so.replyRst p.header.ack, state := .closed, wcbErrno := eConnaborted
        rcv := { w.rcv with received := rest } }, .stop)
    else if w.rcv.rbStandby.leftCapacity < p.header.dlen then
      .ok ({ w with rcv := { w.rcv with rwndLessThanMtu := true } }, .stop)
    else
      let rbStandby := w.rcv.rbStandby.write p.data
      let wnd := rbStandby.leftCapacity
      .ok ({ w with rcv := { w.rcv with
        rbStandby := rbStandby
        wnd := wnd
        rwndLessThanMtu := wnd ≤ wcpMtu
        rwndMoreThanMtu := if wnd ≤ wcpMtu then w.rcv.rwndMoreThanMtu else false } }, .more)
  else .ok (w, .more)

/-- `WCP_FLAG_SYN` of a delivered pack. -/
def deliverSyn (w : Wcb) (p : WcbReceivedPack) (rest : List WcbReceivedPack) : Wcb × Delivery :=
  if p.testFlag .syn then
    match w.state with
    | .synReceived => ({ w with snd := w.snd.SYNSYNACK }, .more)
    | .synSent => ({ w with remoteAddr := p.fromAddr, snd := w.snd.SYNACK }, .more)
    | _ =>
      ({ w with
        so := w.so.replyRst p.header.ack, state := .closed, wcbErrno := eConnaborted
        rcv := { w.rcv with received := rest } }, .stop)
  else (w, .more)

/-- `WCP_FLAG_ACK` of a delivered pack: the state changes whatever the pack acknowledges. -/
def deliverAck (now : Nat) (w : Wcb) (p : WcbReceivedPack) : Except Fault Wcb :=
  if p.testFlag .ack then
    match w.state with
    | .synSent =>
      if w.remoteAddr.isNull then .error .ackRemoteNull
      else if w.remoteAddr ≠ p.fromAddr then .error .ackRemoteOther
      else if w.so.connRet = ok then .ok { w with state := .established }
      else .ok { w with state := .closed, wcbErrno := w.so.connRet }
    | .synReceived => .ok { w with state := .established }
    | .finWait1 => .ok { w with state := .finWait2 }
    | .lastAck => .ok { w with state := .closed }
    | .closing => .ok { w with state := .timeWait, timerState := now }
    | .established | .finWait2 | .closeWait | .timeWait => .ok w
    | .closed | .listen | .syning | .recycle => .error .ackState
  else .ok w

/-- `WCP_FLAG_FIN` of a delivered pack. -/
def deliverFin (now : Nat) (w : Wcb) (p : WcbReceivedPack) : Wcb :=
  if p.testFlag .fin then
    let w :=
      match w.state with
      | .established =>
        { w with state := .closeWait, rcv := { w.rcv with remoteFinReceived := true, remoteFinReadByUser := false } }
      | .finWait1 => { w with state := .closing }
      | .finWait2 => { w with state := .timeWait, timerState := now }
      | _ => { w with state := .closed, wcbErrno := eConnaborted, so := w.so.replyRst p.header.ack }
    { w with snd := w.snd.FINACK }
  else w

/-- `rcv_info.next++` -/
def Rcv.advance (r : Rcv) (p : WcbReceivedPack) : Rcv :=
  { r with next := u32 (r.next + 1), hist := { r.hist with consumed := r.hist.consumed ++ [p] } }

/-- The control flags of the pack at the head of `rcv_received`, once `rcv_info.next` is past it. -/
def deliverFlags (now : Nat) (w : Wcb) (p : WcbReceivedPack) (rest : List WcbReceivedPack) :
    Except Fault (Wcb × Delivery) :=
  if p.testFlag .rst then .ok ({ w with state := .closed, wcbErrno := eConnreset }, .stop)
  else
    match deliverSyn w p rest with
    | (w, .stop) => .ok (w, .stop)
    | (w, .more) => do
      let w ← deliverAck now w p
      let w := deliverFin now w p
      return ({ w with rcv := { w.rcv with received := rest } }, .more)

/-- One round of the delivery loop: `p` is the first pack of `rcv_received`, `rest` the others. -/
def deliverOne (now : Nat) (p : WcbReceivedPack) (rest : List WcbReceivedPack) (w : Wcb) :
    Except Fault (Wcb × Delivery) :=
  if p.seq < w.rcv.next then .error .heldBelowNext
  else if p.seq ≠ w.rcv.next then .ok (w, .stop)
  else do
    match ← deliverData w p rest with
    | (w, .stop) => return (w, .stop)
    | (w, .more) => deliverFlags now { w with rcv := w.rcv.advance p } p rest

/-- The delivery loop, over the packs of `rcv_received`. -/
def deliverLoop (now : Nat) : List WcbReceivedPack → Wcb → Except Fault Wcb
  | [], w => .ok w
  | p :: rest, w => do
    match ← deliverOne now p rest w with
    | (w, .stop) => return w
    | (w, .more) => deliverLoop now rest w

/-! ### The whole call -/

/-- The buffers are swapped when the user has drained `rb`. -/
def Rcv.swapRb (r : Rcv) : Rcv :=
  if r.rb.count = 0 ∧ r.rbStandby.count ≠ 0 then
    let r := { r with rb := r.rbStandby, rbStandby := r.rb }
    if r.rwndLessThanMtu then { r with rwndMoreThanMtu := true, wnd := r.rbStandby.leftCapacity } else r
  else r

/-- An empty batch: keepalive probes, and the receive error once they are used up. -/
def checkKeepalive (now : Nat) (w : Wcb) : Wcb :=
  let timediff := subU64 now w.rcv.keepaliveTimerLastReceivedPack / 1000
  if w.rcv.keepaliveProbesSent ≥ w.rcv.keepaliveProbes then
    { w with wcbErrno := eTimeout, rcv := { w.rcv with recvError := true } }
  else if timediff ≥ w.rcv.keepaliveIdle + w.rcv.keepaliveInterval * w.rcv.keepaliveProbesSent then
    { w with
      snd := w.snd.keepalive
      rcv := { w.rcv with keepaliveProbesSent := w.rcv.keepaliveProbesSent + 1 } }
  else w

/-- `SACK(snd_sacked_pack_tmp)`, `snd_sacked_pack_tmp->reset()` -/
def queueSack (w : Wcb) : Wcb :=
  { w with
    snd := w.snd.SACK w.rcv.sackedPackTmp.length w.rcv.sackedPackTmp
    rcv := { w.rcv with sackedPackTmp := [] } }

/-- What `check_recv` does with a batch before it delivers. -/
def takeBatch (now : Nat) (batch : List WcbReceivedPack) (w : Wcb) : Except Fault Wcb := do
  let w := { w with rcv := { w.rcv with keepaliveTimerLastReceivedPack := now, keepaliveProbesSent := 0 } }
  let (w, ackedQueue) ← classify batch w
  let w := queueSack w
  let snd ← w.snd.ackLoop now w.so.clock ackedQueue
  return { w with snd := snd }

/-- What `check_recv` does with a batch. -/
def recvBatch (now : Nat) (batch : List WcbReceivedPack) (w : Wcb) : Except Fault Wcb := do
  let w ← takeBatch now batch w
  deliverLoop now w.rcv.received w

/-- `WCB::check_recv` -/
def checkRecv (now : Nat) (w : Wcb) : Except Fault Wcb := do
  let batch := w.rcv.receivedVecStandby
  let w := { w with rcv := { w.rcv with receivedVecStandby := [] } }
  let w ← if batch = [] then Except.ok (checkKeepalive now w) else recvBatch now batch w
  return { w with rcv := w.rcv.swapRb }

end Wawo
