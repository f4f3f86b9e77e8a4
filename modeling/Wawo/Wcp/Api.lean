import Wawo.Wcp.Send
import Wawo.Lib.Run

/-!
# User calls, `WCB::update` and runs of a connection (`wcp.hpp`, `wcp.cpp`)

`Wcb.init` is the state after `WCB::init`; the fields that `init` leaves unset are parameters.
`Event` lists what can happen to a connection from outside: user calls, arriving packs and ticks.
A tick is `WCB::update` for a given time and a given behaviour of the socket (`Tick`); the three
functions that `update` composes are events of their own as well, so that a run can interleave user
calls with the parts of a tick.
-/

namespace Wawo

/-! ### Initial states -/

/-- The fields that `WCB::init` does not set. -/
structure Uninit where
  srtt : Nat
  rttvar : Nat
  compensation : Nat
  biggerTime : Nat

/-- `WCB::init`, followed by `set_rcv_buffer_size` and `set_snd_buffer_size` where the buffers have
other than the default capacities; `now` is the time of the call. -/
def Wcb.init (u : Uninit) (now rcvCap sndCap : Nat) : Wcb where
  state := .closed
  timerState := 0
  wcbErrno := 0
  nonblock := false
  isListener := false
  closedCalled := false
  remoteAddr := ⟨0⟩
  so := { sendRets := [], connRet := ok, clock := fun _ => 0, rsts := [] }
  snd :=
    { dsn := 0, next := 0, una := 0, ssthresh := wcpSndSsthreshMax, cwnd := wcpIw * wcpMtu
      rwnd := wcpRcvWndDefault, biggestAck := 0, lostDetectedTimer := 0, lostBiggestSeq := 0
      lostCwndForFastRecoveryCompensation := u.compensation, lostBiggerThanLostSeqTime := u.biggerTime
      timerCwndCongestAvoidance := 0, sending := [], nflightBytes := 0, nflightBytesMax := 0
      flights := [], lastRtoTimer := 0, sb := .empty sndCap, sendingStandby := []
      sendingIgnoreSeqSpace := [], biggestSackUpdate := false, unaUpdate := false
      fastRecovered := false, cwndSlowStart := true, cwndCongestAvoidance := false
      lostDetected := false, firstRttDone := false, localFinSent := false
      localWriteShutdowned := false, sendError := false, rto := wcpRtoInit, srtt := u.srtt
      rttvar := u.rttvar, hist := {} }
  rcv :=
    { wnd := rcvCap, next := 0, received := [], receivedVecStandby := []
      sackedPackTmp := [], rb := .empty rcvCap, rbStandby := .empty rcvCap
      timerLastRwndUpdate := 0, rwndLessThanMtu := false, rwndMoreThanMtu := false
      remoteFinReceived := false, remoteFinReadByUser := false, localReadShutdowned := false
      recvError := false, keepaliveTimerLastReceivedPack := now, keepaliveIdle := 60
      keepaliveInterval := 60, keepaliveProbes := 5, keepaliveProbesSent := 0, hist := {} }

/-- `WCB::connect`, up to the wait of the blocking mode. -/
def connect (addr : Address) (now : Nat) (w : Wcb) : Except Fault Wcb :=
  if ¬ w.remoteAddr.isNull then .error .connectRemote
  else if w.state ≠ .closed then .error .synNotClosed
  else .ok { w with remoteAddr := addr, snd := w.snd.SYN, state := .syning, timerState := now }

/-- `WCB::SYN_RCVD` on a control block that `listen_handle_syn` made for the sender of `synpack`. -/
def synRcvd (synpack : WcbReceivedPack) (w : Wcb) : Wcb :=
  { w with
    remoteAddr := synpack.fromAddr, state := .synReceived
    rcv := { w.rcv with receivedVecStandby := w.rcv.receivedVecStandby ++ [synpack] } }

/-- A pack read by `pump_packs`. -/
def arrive (p : WcbReceivedPack) (w : Wcb) : Wcb :=
  { w with rcv := { w.rcv with receivedVecStandby := w.rcv.receivedVecStandby ++ [p] } }

/-! ### `wcp::send`, `wcp::recv` -/

/-- `wcp::send`: the return value is the number of bytes accepted, or an error code. -/
def send (buffer : List Byte) (w : Wcb) : Except Fault (Int × Wcb) :=
  if w.snd.sendError ∨ w.snd.localWriteShutdowned then
    .ok (if w.wcbErrno ≠ 0 then w.wcbErrno else eConnaborted, w)
  else if w.snd.sb.leftCapacity < buffer.length ∧ w.snd.sb.leftCapacity < 2 * wcpMdu then .ok (eWouldblock, w)
  else if buffer = [] then .error .writeNothing
  else
    let n := min w.snd.sb.leftCapacity buffer.length
    .ok (n, { w with snd := { w.snd with
      sb := w.snd.sb.write buffer
      hist := { w.snd.hist with accepted := w.snd.hist.accepted ++ buffer.take n } } })

/-- What a call of `wcp::recv` comes to. -/
inductive RecvResult
  | bytes (l : List Byte)
  | eof
  | error (code : Int)
  | wait -- a blocking call waits on `r_cond`
deriving DecidableEq

/-- `wcp::recv`, one pass from `read_begin`. -/
def recv (size : Nat) (w : Wcb) : Except Fault (RecvResult × Wcb) :=
  if w.rcv.localReadShutdowned then .ok (.error eConnaborted, w)
  else if w.rcv.rb.count > 0 then
    if size = 0 then .error .recvNothing
    else
      .ok (.bytes (w.rcv.rb.front size), { w with rcv := { w.rcv with
        rb := w.rcv.rb.skip size
        hist := { w.rcv.hist with returned := w.rcv.hist.returned ++ w.rcv.rb.front size } } })
  else if w.rcv.remoteFinReceived then
    if w.rcv.remoteFinReadByUser then .ok (.error eConnreset, w)
    else .ok (.eof, { w with rcv := { w.rcv with remoteFinReadByUser := true } })
  else if w.rcv.recvError then
    if w.wcbErrno = 0 then .error .recvErrorNoErrno
    else .ok (.error (if w.wcbErrno < 0 then w.wcbErrno else - w.wcbErrno), w)
  else if w.wcbErrno ≠ 0 then .error .recvErrno
  else if w.nonblock then .ok (.error eWouldblock, w)
  else .ok (.wait, w)

/-! ### `WCB::shutdown`, `WCB::close` -/

/-- `WCB_SHUT_RD`, `WCB_SHUT_WR`, `WCB_SHUT_RDWR` -/
inductive Shut
  | rd | wr | rdwr
deriving DecidableEq

def Shut.writes : Shut → Bool
  | .rd => false
  | .wr | .rdwr => true

def Shut.reads : Shut → Bool
  | .wr => false
  | .rd | .rdwr => true

/-- `if (!(s_flag&WRITE_LOCAL_WRITE_SHUTDOWNED)) { FIN(); s_flag |= … }`, in `shutdown` and in
`close`. -/
def Snd.shutWrite (s : Snd) : Snd :=
  if s.localWriteShutdowned then s else { s.FIN with localWriteShutdowned := true }

/-- `WCB::shutdown`: -1 if every side asked for was shut already. -/
def shutdown (how : Shut) (w : Wcb) : Int × Wcb :=
  let done := (how.writes && !w.snd.localWriteShutdowned) || (how.reads && !w.rcv.localReadShutdowned)
  let w := if how.writes then { w with snd := w.snd.shutWrite } else w
  let w := if how.reads then { w with rcv := { w.rcv with localReadShutdowned := true } } else w
  (if done then ok else -1, w)

/-- The condition `state == WCB_SYN_SENT || state == WCB_SYNING || WCB_SYN_RECEIVED` of
`WCB::close`: its last operand is the enumerator itself, which is not zero. -/
def closeAborts (state : WcbState) : Bool :=
  state == .synSent || state == .syning || (4 : Nat) != 0

/-- `WCB::close`: the return code and the state after the call. -/
def close (w : Wcb) : Except Fault (Int × Wcb) :=
  if w.closedCalled then .ok (eAlready, w)
  else
    let w := { w with closedCalled := true }
    let w := if w.state = .listen then { w with state := .closed } else w
    let w :=
      if closeAborts w.state then
        { w with state := .closed, wcbErrno := if w.wcbErrno = ok then eConnaborted else w.wcbErrno }
      else w
    if w.state = .closed then
      .ok (ok, { w with
        snd := { w.snd with localWriteShutdowned := true }
        rcv := { w.rcv with localReadShutdowned := true } })
    else if w.state = .established ∨ w.state = .closeWait then
      .ok (ok, { w with snd := w.snd.shutWrite, rcv := { w.rcv with localReadShutdowned := true } })
    else .error .closeState

/-! ### `WCB::update` -/

/-- The calls that `update` makes in the states of a live connection. -/
def checkAll (now : Nat) (w : Wcb) : Except Fault Wcb := do
  let w ← checkRecv now w
  let w ← checkFlights now w
  checkSend now w

/-- `WCB::update` of a connection. (The `WCB_LISTEN` branch works on the backlog of a listener.) -/
def update (now : Nat) (w : Wcb) : Except Fault Wcb :=
  match w.state with
  | .closed =>
    .ok (if w.rcv.localReadShutdowned ∧ w.snd.localWriteShutdowned ∧ w.closedCalled then
      { w with state := .recycle } else w)
  | .listen | .recycle => .ok w
  | .syning => do
    let w ← checkFlights now w
    checkSend now w
  | .synSent =>
    if subU64 now w.timerState ≥ wcpSynMaxTime then .ok { w with state := .closed, wcbErrno := eTimeout }
    else checkAll now w
  | .synReceived | .established | .closeWait =>
    if w.wcbErrno ≠ 0 then .ok { w with state := .closed } else checkAll now w
  | .finWait1 | .closing | .finWait2 =>
    if w.wcbErrno ≠ 0 ∨ subU64 now w.timerState ≥ wcpFinMaxTime then .ok { w with state := .closed }
    else checkAll now w
  | .lastAck => do
    let w ← checkAll now w
    return if w.wcbErrno ≠ 0 ∨ subU64 now w.timerState ≥ wcpLastAckMaxTime then { w with state := .closed } else w
  | .timeWait =>
    .ok (if subU64 now w.timerState ≥ wcpTimewaitMaxTime then { w with state := .closed } else w)

/-- The states in which `update` calls `check_recv`. -/
def WcbState.live : WcbState → Bool
  | .synSent | .synReceived | .established | .closeWait | .finWait1 | .closing | .finWait2 | .lastAck => true
  | .closed | .listen | .recycle | .syning | .timeWait => false

/-- A tick changes the state only, or it runs the checks and then changes the state. -/
theorem update_eq (now : Nat) (w : Wcb) :
    (∃ state errno, (state = w.state ∨ state = .closed ∨ state = .recycle ∧ w.state = .closed ∧ w.closedCalled = true) ∧
      update now w = .ok { w with state := state, wcbErrno := errno }) ∨
    (w.state.live = true ∧ ∃ k : Wcb → WcbState, (∀ w, k w = w.state ∨ k w = .closed) ∧
      update now w = (checkAll now w).map fun w => { w with state := k w }) ∨
    (w.state = .syning ∧ update now w = checkFlights now w >>= checkSend now) := by
  have hall : checkAll now w = (checkAll now w).map fun w => { w with state := w.state } :=
    (congrFun Except.map_id _).symm
  have hid : (.ok w : Except Fault Wcb) = .ok { w with state := w.state, wcbErrno := w.wcbErrno } := rfl
  unfold update
  cases hst : w.state <;> dsimp only
  case closed =>
    split_ifs with hclose
    · exact .inl ⟨_, _, .inr (.inr ⟨rfl, rfl, hclose.2.2⟩), rfl⟩
    · exact .inl ⟨_, _, .inl hst, hid⟩
  case listen => exact .inl ⟨_, _, .inl hst, hid⟩
  case recycle => exact .inl ⟨_, _, .inl hst, hid⟩
  case timeWait =>
    split_ifs
    · exact .inl ⟨_, _, .inr (.inl rfl), rfl⟩
    · exact .inl ⟨_, _, .inl hst, hid⟩
  case syning => exact .inr (.inr ⟨rfl, rfl⟩)
  case lastAck =>
    refine .inr (.inl ⟨rfl, fun w => if w.wcbErrno ≠ 0 ∨ subU64 now w.timerState ≥ wcpLastAckMaxTime then .closed
      else w.state, fun w => ?_, ?_⟩)
    · dsimp only
      split_ifs
      · exact .inr rfl
      · exact .inl rfl
    · cases checkAll now w with
      | error e => rfl
      | ok w =>
        dsimp only [bind, Except.bind, pure, Except.pure, Except.map]
        split_ifs <;> rfl
  all_goals
    split_ifs
    · exact .inl ⟨_, _, .inr (.inl rfl), rfl⟩
    · exact .inr (.inl ⟨rfl, fun w => w.state, fun _ => .inl rfl, hall⟩)

/-! ### Runs -/

/-- The time of a tick and what the socket and the clock do during it. -/
structure Tick where
  now : Nat
  sendRets : List Int
  connRet : Int
  clock : Nat → Nat

def Wcb.prepare (t : Tick) (w : Wcb) : Wcb :=
  { w with so := { w.so with sendRets := t.sendRets, connRet := t.connRet, clock := t.clock } }

inductive Event
  | send (buffer : List Byte)
  | recv (size : Nat)
  | shutdown (how : Shut)
  | close
  | setfl (nonblock : Bool) -- `wcp::fcntl_setfl`
  | arrive (p : WcbReceivedPack)
  | update (t : Tick)
  | checkRecv (t : Tick)
  | checkFlights (t : Tick)
  | checkSend (t : Tick)

/-- The events of other threads than the background one. -/
def Event.isCall : Event → Bool
  | .send _ | .recv _ | .shutdown _ | .close | .setfl _ | .arrive _ => true
  | .update _ | .checkRecv _ | .checkFlights _ | .checkSend _ => false

/-- A connection at its start: after `connect`, or made by `listen_handle_syn` for a SYN. -/
inductive Opened : Wcb → Prop
  | active (u : Uninit) (now rcvCap sndCap : Nat) (addr : Address) (w : Wcb)
      (h : connect addr now (Wcb.init u now rcvCap sndCap) = .ok w) : Opened w
  | passive (u : Uninit) (now rcvCap sndCap : Nat) (synpack : WcbReceivedPack)
      (hsyn : synpack.testFlag .syn = true) (hrst : synpack.testFlag .rst = false) :
      Opened (synRcvd synpack (Wcb.init u now rcvCap sndCap))

def step : Event → Wcb → Except Fault Wcb
  | .send buffer, w => (send buffer w).map Prod.snd
  | .recv size, w => (recv size w).map Prod.snd
  | .shutdown how, w => .ok (shutdown how w).2
  | .close, w => (close w).map Prod.snd
  | .setfl nonblock, w => .ok { w with nonblock := nonblock }
  | .arrive p, w => .ok (arrive p w)
  | .update t, w => update t.now (w.prepare t)
  | .checkRecv t, w => checkRecv t.now (w.prepare t)
  | .checkFlights t, w => checkFlights t.now (w.prepare t)
  | .checkSend t, w => checkSend t.now (w.prepare t)

/-- The state after the events, for evaluating the model; a fault leaves the state as it was. -/
def Wcb.after (es : List Event) (w : Wcb) : Wcb :=
  match Lts.exec step es w with
  | .ok w' => w'
  | .error _ => w

theorem Wcb.run_after {es : List Event} {w : Wcb} (h : (Lts.exec step es w).isOk = true) :
    Lts.Run step (fun _ _ => True) w es (w.after es) := by
  refine Lts.Run.of_exec (fun _ _ => trivial) ?_
  unfold Wcb.after
  cases he : Lts.exec step es w with
  | ok w' => rfl
  | error e => rw [he] at h; cases h

/-- A tick at a time at which every `sendto` succeeds. -/
def Tick.at (now : Nat) : Tick := { now := now, sendRets := [], connRet := ok, clock := fun _ => now }

/-- A tick whose first `sendto` would block. -/
def Tick.blocked (now : Nat) : Tick := { Tick.at now with sendRets := [eSocketSendBlock] }

/-- A client right after `connect`, with the smallest buffers. -/
def Wcb.connecting : Wcb :=
  let w := Wcb.init ⟨0, 0, 0, 0⟩ 0 (2 * wcpRcvBufferMin) (2 * wcpSndBufferMin)
  { w with remoteAddr := ⟨2⟩, snd := w.snd.SYN, state := .syning, timerState := 0 }

theorem opened_connecting : Opened Wcb.connecting :=
  .active ⟨0, 0, 0, 0⟩ 0 (2 * wcpRcvBufferMin) (2 * wcpSndBufferMin) ⟨2⟩ _ rfl

/-- The server's answer to the client's SYN. -/
def synSynAckPack : WcbReceivedPack :=
  ⟨(Datagram.fresh 0 (.syn ||| .ack) [] (Nat.zero_le _)).stamp 1 (2 * wcpRcvBufferMin), ⟨2⟩⟩

/-- The events that bring `Wcb.connecting` to `WCB_ESTABLISHED`. -/
def handshake : List Event := [.update (.at 1), .arrive synSynAckPack, .update (.at 2)]

/-- A data pack of the server. -/
def serverData (seq : Nat) (data : List Byte) (h : data.length ≤ wcpMdu) : WcbReceivedPack :=
  ⟨(Datagram.fresh seq (.dat ||| .ack) data h).stamp 1 (2 * wcpRcvBufferMin), ⟨2⟩⟩

/-- The first data pack of the server, of one byte. -/
def serverByte : WcbReceivedPack := serverData 1 [8] (by decide)

example : (Wcb.connecting.after handshake).state = .established := by decide

end Wawo
