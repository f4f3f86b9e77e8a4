import Wawo.Wcp.Recv

/-!
# `WCB::check_flights` and `WCB::check_send` (`wcp.cpp`)

`checkFlights` scans `snd_flights` once (`scanFlights`): it drops what is acknowledged, retransmits
what looks lost and then adjusts the congestion window. `checkSend` empties
`s_sending_ignore_seq_space`, transmits from `snd_sending`, refills it from `s_sending_standby` and
`sb`, and starts over (the `goto _begin_send`) until there is nothing left to send or the window is
full.
-/

namespace Wawo

/-- `WCB::send_pack`: the result of `sendto` and the stamped pack. -/
def sendPack (w : Wcb) (p : Datagram) : Except Fault (Int × Datagram × Wcb) :=
  if w.remoteAddr.isNull then .error .sendRemoteNull
  else
    let p := p.stamp w.rcv.next w.rcv.wnd
    let rt := w.so.sendRets.headD ok
    let w := { w with so := { w.so with sendRets := w.so.sendRets.tail } }
    if rt = ok then
      .ok (rt, p, { w with snd := { w.snd with hist := { w.snd.hist with emitted := w.snd.hist.emitted ++ [p] } } })
    else .ok (rt, p, w)

/-- A failed `sendto` other than a would-block ends the sending. -/
def noteSendError (w : Wcb) (rt : Int) : Wcb :=
  if rt = eSocketSendBlock then w
  else { w with wcbErrno := rt, snd := { w.snd with sendError := true } }

/-! ### `check_flights` -/

/-- `i32_t skip = snd_biggest_ack - seq; skip >= 1` -/
def Snd.ackSkips (s : Snd) (seq : Nat) : Bool :=
  let d := subU32 s.biggestAck seq
  1 ≤ d ∧ d < 2 ^ 31

/-- The `retransmit` reason of a flight: 0 none, 1 ack skip, 2 fast recovery, 3 rto. -/
def Snd.retransmitReason (s : Snd) (now : Nat) (p : WcbPack) : Nat :=
  let timediff := u32 (subU64 now p.sentTs)
  if s.ackSkips p.seq ∧ timediff ≥ u32 (s.srtt + (s.rttvar >>> 2)) then 1
  else if s.fastRecovered ∧ timediff ≥ u32 (s.srtt + (s.rttvar >>> 2)) then 2
  else if timediff ≥ s.rto then 3
  else 0

/-- `snd_lost_biggest_seq` of a flight that is retransmitted for an expired rto. -/
def Snd.noteLost (s : Snd) (reason : Nat) (p : WcbPack) : Snd :=
  if reason = 3 ∧ ¬ s.lostDetected ∧ p.seq > s.lostBiggestSeq then { s with lostBiggestSeq := p.seq } else s

def Wcb.setSnd (w : Wcb) (s : Snd) : Wcb := { w with snd := s }

def Snd.setFlights (s : Snd) (l : List WcbPack) : Snd := { s with flights := l }

/-- Send a flight again: the result of `sendto` and the flight afterwards. -/
def retransmit (now : Nat) (p : WcbPack) (w : Wcb) : Except Fault (Int × WcbPack × Wcb) := do
  let (rt, q, w) ← sendPack w p.toDatagram
  if rt ≠ ok then return (rt, { p with toDatagram := q }, noteSendError w rt)
  else return (rt, { p with toDatagram := q, sentTs := now, sentTimes := p.sentTimes + 1 }, w)

/-- The scan of `snd_flights`: `pre` is already passed, the list is still to come, and
`w.snd.flights` is `pre` followed by the list. The result carries `lost_count` and
`max_sent_time`. -/
def scanFlights (now : Nat) (pre : List WcbPack) :
    List WcbPack → Nat → Nat → Wcb → Except Fault (Nat × Nat × Wcb)
  | [], lost, maxSent, w => .ok (lost, maxSent, w)
  | p :: rest, lost, maxSent, w =>
    if w.snd.unaUpdate ∧ p.seq < w.snd.una then do
      let s ← w.snd.handlePackAcked p now (w.so.clock p.seq)
      scanFlights now pre rest lost maxSent (w.setSnd (s.setFlights (pre ++ rest)))
    else
      let reason := w.snd.retransmitReason now p
      let lost := if reason = 3 then lost + 1 else lost
      let maxSent := if reason = 3 then max maxSent p.sentTimes else maxSent
      let w := w.setSnd (w.snd.noteLost reason p)
      if reason = 0 then scanFlights now (pre ++ [p]) rest lost maxSent w
      else do
        let (rt, p, w) ← retransmit now p w
        let w := w.setSnd (w.snd.setFlights (pre ++ p :: rest))
        if rt ≠ ok then return (lost, maxSent, w) else scanFlights now (pre ++ [p]) rest lost maxSent w

/-- `new_ssthresh` of the loss detection. -/
def Snd.newSsthresh (s : Snd) : Nat := max (s.nflightBytesMax >>> 1) wcpSndSsthreshMin

/-- The loss detection at the end of `check_flights`. -/
def detectLost (now lost maxSent : Nat) (w : Wcb) : Except Fault Wcb :=
  let s := w.snd
  if lost ≥ wcpLostThreshold ∨ maxSent ≥ 5 then
    if s.rto < wcpRtoMin then .error .rtoMin
    else
      let s := { s with rto := min (u32 ((s.rto >>> 1) + s.rto)) wcpRtoMax }
      if w.state = .established ∧ subU64 now s.lostDetectedTimer ≥ max s.srtt 30 then
        if s.nflightBytesMax < s.nflightBytes then .error .nflightBytesMax
        else
          .ok { w with snd := { s with
            lostDetectedTimer := now
            lostBiggerThanLostSeqTime := 0
            lostCwndForFastRecoveryCompensation := subU32 s.newSsthresh (s.nflightBytes >>> 1)
            ssthresh := min s.newSsthresh s.ssthresh
            nflightBytesMax := max (s.nflightBytesMax >>> 1) s.nflightBytes
            cwndSlowStart := true
            lostDetected := true
            cwndCongestAvoidance := false
            cwnd := wcpLw * wcpMtu } }
      else .ok { w with snd := s }
  else .ok w

/-- `wcb_flag &= ~(SND_BIGGEST_SACK_UPDATE | SND_UNA_UPDATE | SND_FAST_RECOVERED)` -/
def Snd.clearUpdates (s : Snd) : Snd :=
  { s with biggestSackUpdate := false, unaUpdate := false, fastRecovered := false }

/-- `WCB::check_flights` -/
def checkFlights (now : Nat) (w : Wcb) : Except Fault Wcb :=
  let s := w.snd
  if ¬ (s.unaUpdate ∨ s.fastRecovered ∨ s.biggestSackUpdate) ∧ now < s.lastRtoTimer + wcpRtoClockGranularity then
    .ok w
  else do
    let w := { w with snd := { s with lastRtoTimer := now } }
    let (lost, maxSent, w) ← scanFlights now [] w.snd.flights 0 0 w
    detectLost now lost maxSent { w with snd := w.snd.clearUpdates }

/-! ### `check_send` -/

/-- The window update of `check_send`: on its own, or merged into the first queued pack. -/
def Snd.pushWnd (s : Snd) : Snd :=
  match s.sendingIgnoreSeqSpace with
  | [] => s.updateRwnd
  | q :: rest =>
    let header := { q.pack.header with flag := q.pack.header.flag ||| .wnd }
    { s with sendingIgnoreSeqSpace := { q with pack := { q.pack with header := header } } :: rest }

/-- `check_send` is due to update the peer's view of the window. -/
def rwndUpdateDue (now : Nat) (w : Wcb) : Bool :=
  w.rcv.rwndMoreThanMtu ∧ subU64 now w.rcv.timerLastRwndUpdate > wcpRwndCheckGranularity

def checkRwnd (now : Nat) (w : Wcb) : Wcb :=
  if rwndUpdateDue now w then
    { w with snd := w.snd.pushWnd, rcv := { w.rcv with timerLastRwndUpdate := now } }
  else w

/-- How a sending loop of `check_send` ends. -/
inductive SendExit
  | more -- the queue is empty
  | stop -- `return`: the window is full or `sendto` failed
  | brk -- `break` behind a FIN
deriving DecidableEq

/-- `s_sending_ignore_seq_space.pop()` -/
def popIgnoreSeqSpace : List QueuedPack → List QueuedPack
  | [] => []
  | ⟨_, 0⟩ :: rest => rest
  | ⟨p, dup + 1⟩ :: rest => ⟨p, dup⟩ :: rest

/-- Send the first pack of `s_sending_ignore_seq_space`. -/
def sendCtlOne (p : Datagram) (w : Wcb) : Except Fault (Wcb × SendExit) := do
  let (rt, p, w) ← sendPack w p
  if rt ≠ ok then return (noteSendError w rt, .stop)
  else
    let s := w.snd
    return ({ w with snd := { s with
      sendingIgnoreSeqSpace := popIgnoreSeqSpace s.sendingIgnoreSeqSpace
      hist := { s.hist with emittedCtl := s.hist.emittedCtl ++ [p] } } }, .more)

/-- The loop over `s_sending_ignore_seq_space`; the first argument bounds its rounds. -/
def sendCtlLoop : Nat → Wcb → Except Fault (Wcb × SendExit)
  | 0, w => .ok (w, .more)
  | n + 1, w =>
    match w.snd.sendingIgnoreSeqSpace with
    | [] => .ok (w, .more)
    | q :: _ => do
      match ← sendCtlOne q.pack w with
      | (w, .more) => sendCtlLoop n w
      | (w, e) => return (w, e)

/-- The number of packs in `s_sending_ignore_seq_space`, further copies included. -/
def queuedCount (l : List QueuedPack) : Nat := (l.map fun q => q.dup + 1).sum

/-- The pack just sent enters `snd_flights`. -/
def Snd.launch (s : Snd) (p : WcbPack) : Snd :=
  let nflight := u32 (s.nflightBytes + p.totalBytes)
  { s with
    flights := s.flights ++ [p]
    nflightBytes := nflight
    nflightBytesMax := if nflight > s.nflightBytesMax then nflight else s.nflightBytesMax
    next := u32 (s.next + 1)
    hist := { s.hist with flown := s.hist.flown ++ [p] } }

/-- What the flags of a pack do once it is in flight. The `break` behind a FIN skips the pop. -/
def afterLaunch (now : Nat) (p : WcbPack) (rest : List WcbPack) (w : Wcb) : Except Fault (Wcb × SendExit) :=
  if p.testFlag .fin then
    match w.state with
    | .established =>
      .ok ({ w with timerState := now, state := .finWait1, snd := { w.snd with localFinSent := true } }, .brk)
    | .closeWait => .ok ({ w with timerState := now, state := .lastAck }, .brk)
    | _ => .error .finState
  else
    if p.testFlag .syn ∧ ¬ (w.state = .syning ∨ w.state = .synReceived) then .error .synState
    else
      let state := if p.testFlag .syn ∧ w.state = .syning then .synSent else w.state
      .ok ({ w with state := state, snd := { w.snd with sending := rest } }, .more)

/-- One round of the `_begin_send` loop: `p` is the first pack of `snd_sending`, `rest` the
others. -/
def transmitOne (now : Nat) (p : WcbPack) (rest : List WcbPack) (w : Wcb) : Except Fault (Wcb × SendExit) :=
  if u32 (p.totalBytes + w.snd.nflightBytes) ≥ min w.snd.cwnd w.snd.rwnd then .ok (w, .stop)
  else if p.seq ≠ w.snd.next then .error .seqNotNext
  else if p.seq < w.snd.una then .error .seqBelowUna
  else do
    let (rt, q, w) ← sendPack w p.toDatagram
    let p : WcbPack := { p with toDatagram := q }
    if rt ≠ ok then
      let w := { w with snd := { w.snd with sending := p :: rest } }
      return (noteSendError w rt, .stop)
    else if p.testFlag (.sack ||| .keepAlive ||| .keepAliveReply) then .error .ctlInSending
    else
      let p : WcbPack := { p with sentTs := now, sentTimes := 1 }
      afterLaunch now p rest { w with snd := { w.snd.launch p with sending := p :: rest } }

/-- The `_begin_send` loop, over the packs of `snd_sending`. -/
def transmitLoop (now : Nat) : List WcbPack → Wcb → Except Fault (Wcb × SendExit)
  | [], w => .ok (w, .more)
  | p :: rest, w => do
    match ← transmitOne now p rest w with
    | (w, .more) => transmitLoop now rest w
    | (w, e) => return (w, e)

/-- `s_sending_standby` is moved behind `snd_sending`. -/
def Snd.moveStandby (s : Snd) : Snd :=
  { s with sending := s.sending ++ s.sendingStandby, sendingStandby := [] }

/-- The next `WCP_MDU` bytes of `sb` become a numbered pack. -/
def Snd.package (s : Snd) : Snd :=
  let opack : WcbPack := ⟨.fresh s.dsn (.dat ||| .ack) (s.sb.front wcpMdu) (List.length_take_le _ _), 0, 0⟩
  { s with
    dsn := u32 (s.dsn + 1)
    sb := s.sb.skip wcpMdu
    sending := s.sending ++ [opack]
    hist := { s.hist with numbered := s.hist.numbered ++ [opack] } }

/-- The packaging loop; every round takes at least a byte from `sb`, so `sb->count()` bounds the
rounds. The budget `nmax_try_bytes` is a `u32_t`. -/
def Snd.packageLoop : Nat → Nat → Snd → Snd
  | 0, _, s => s
  | n + 1, nmax, s =>
    if s.sb.count > 0 ∧ nmax > 0 then
      Snd.packageLoop n (subU32 nmax (min s.sb.count wcpMdu)) s.package
    else s

/-- Refill `snd_sending` from `s_sending_standby` and `sb`. -/
def Snd.refill (s : Snd) : Snd :=
  let s := s.moveStandby
  let nmax := subU32 s.cwnd s.nflightBytes
  if ¬ s.localFinSent ∧ nmax > wcpMtu then s.packageLoop s.sb.count nmax else s

/-- The part of `check_send` from `_begin_send` on; the first argument bounds the number of times
the goto is taken (`sendRounds_ne_fuel`). -/
def sendRounds (now : Nat) : Nat → Wcb → Except Fault Wcb
  | 0, _ => .error .fuel
  | n + 1, w => do
    match ← transmitLoop now w.snd.sending w with
    | (w, .stop) => return w
    | (w, _) =>
      let w := { w with snd := w.snd.refill }
      if w.snd.sending = [] then return w else sendRounds now n w

/-- `WCB::check_send` -/
def checkSend (now : Nat) (w : Wcb) : Except Fault Wcb :=
  if w.snd.sendError then .ok w
  else do
    let w := checkRwnd now w
    match ← sendCtlLoop (queuedCount w.snd.sendingIgnoreSeqSpace) w with
    | (w, .more) => sendRounds now (w.snd.sb.count + w.snd.sendingStandby.length + 2) w
    | (w, _) => return w

end Wawo
