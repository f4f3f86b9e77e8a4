import Wawo.Net.Socket

/-!
# The receiving half of a socket (`socket_base.cpp`, `socket.cpp`)

What a data socket does with the bytes that arrive. `_pump` puts what `::recv` hands over into `m_rb`, from where
`decode_packets` of the protocol, here `hlen_packet`, takes packets; `handle_async_read` goes on until the kernel
has no more and pushes the packets to `m_rps_q_standby`. It holds the lock of the receiving half up to there. With
a call come the answers of the kernel to its `::recv`s. `F_RCV_BLOCK_UNTIL_PACKET_ARRIVE`, which
`handle_async_read` does not pass, is left out.
-/

namespace Wawo

open Memory Lts

/-- What `::recv` does. -/
inductive RecvAnswer
  | chunk (b : Byte) (bytes : List Byte) -- it hands over these bytes, or as many as are asked for and the others later
  | interrupted -- `EINTR`
  | wouldBlock
  | eof
  | failed (errno : Nat)
deriving DecidableEq

/-- What a call of `recv` leaves: the bytes, `ec_o`, and the answers that are left. -/
structure Received where
  bytes : List Byte
  ecO : Int
  answers : List RecvAnswer
deriving DecidableEq

/-- The loop of `standard_socket::recv`. Without further answers nothing has arrived. -/
def tryRecv (size : Nat) : List RecvAnswer → Except ByteFault Received
  | [] => .ok ⟨[], eSocketRecvBlock, []⟩
  | .chunk b bytes :: answers =>
    match (b :: bytes).drop size with
    | [] => .ok ⟨b :: bytes, ok, answers⟩
    | b' :: bytes' => .ok ⟨(b :: bytes).take size, ok, .chunk b' bytes' :: answers⟩
  | .interrupted :: answers => tryRecv size answers
  | .wouldBlock :: answers => .ok ⟨[], eSocketRecvBlock, answers⟩
  | .eof :: answers => .ok ⟨[], eSocketGraceClose, answers⟩
  | .failed errno :: answers => do
    require (errno ≠ 0) .socketErrno
    return ⟨[], -errno, answers⟩

/-- What has arrived before the kernel has no more -/
def arrived : List RecvAnswer → List Byte
  | .chunk b bytes :: answers => b :: bytes ++ arrived answers
  | .interrupted :: answers => arrived answers
  | _ => []

namespace Socket

/-- `_begin_async_read()`. Where reading is shut down, the callback for errors is scheduled; it is not modelled. -/
def beginAsyncRead (s : Socket) : Except ByteFault Socket := do
  require (s.nonblocking = true) .socketMode
  if s.mRflag.shutdown then return s
  else if s.mRflag.watch then return s
  else return { s with mRflag := { s.mRflag with watch := true } }

/-- `socket_base::recv(buffer_o, size, ec_o, flag)` -/
def baseRecv (s : Socket) (size : Nat) (answers : List RecvAnswer) : Except ByteFault Received := do
  require (size > 0) .socketSize
  if s.mRflag.shutdown then return ⟨[], eSocketRdShutdownAlready, answers⟩ else tryRecv size answers

/-- `_pump(ec_o, flag)`: `ec_o`, and the answers that are left -/
def pump (s : Socket) (answers : List RecvAnswer) : Except ByteFault (Int × Socket × List RecvAnswer) := do
  require (s.mSm ≠ .listener) .socketMode
  let leftSpace := s.mRb.leftCapacity
  if leftSpace = 0 then return (eSocketRecvBufferFull, s, answers)
  else
    let r ← s.baseRecv (if s.rcvSize ≤ leftSpace then s.rcvSize else leftSpace) answers
    if r.bytes.length > 0 then
      let (rbWBC, mRb) ← s.mRb.write r.bytes r.bytes.length
      require (r.bytes.length = rbWBC) .socketCount
      return (r.ecO, { s with mRb := mRb }, r.answers)
    else return (r.ecO, s, r.answers)

/-- What a call of `_receive_packets` leaves: the packets in the array, `ec_o`, and the answers that are left. -/
structure Receiving where
  arrives : List Packet
  ecO : Int
  s : Socket
  answers : List RecvAnswer

/-- `_receive_packets`, after the pump; `hlen_packet` returns no code of a handshake and no packet to send. -/
def decodeArrives (s : Socket) (size : Nat) (pumpEc : Int) (answers : List RecvAnswer) : Except ByteFault Receiving := do
  let r ← s.mTlp.decodePackets s.mRb size
  let s : Socket := { s with mTlp := r.tlp, mRb := r.buffer }
  if ¬ (r.ecO = ok ∨ r.ecO = eTlpTryAgain) then return ⟨r.arrives, r.ecO, s, answers⟩
  else
    let ecO := if (pumpEc = ok ∨ pumpEc = eSocketRecvBufferFull) ∧ s.nonblocking then eSocketPumpTryAgain else r.ecO
    let ecO := if r.arrives.length = size ∧ s.mRb.count ≠ 0 then eTlpTryAgain else ecO
    return ⟨r.arrives, ecO, s, answers⟩

/-- `_receive_packets(arrives, size, ec_o, flag)`; `alwaysPump` is `F_RCV_ALWAYS_PUMP`. -/
def receivePackets (s : Socket) (size : Nat) (alwaysPump : Bool) (answers : List RecvAnswer) : Except ByteFault Receiving :=
  if s.mRb.count = 0 ∨ alwaysPump then do
    let (pumpEc, s, answers) ← s.pump answers
    if ¬ (pumpEc = ok ∨ pumpEc = eSocketRecvBlock ∨ pumpEc = eSocketRecvBufferFull) then return ⟨[], pumpEc, s, answers⟩
    else if s.mRb.count = 0 then
      require (s.nonblocking = true → pumpEc = eSocketRecvBlock) .socketPumped
      require (s.nonblocking = false → pumpEc ≠ ok) .socketPumped
      return ⟨[], pumpEc, s, answers⟩
    else s.decodeArrives size pumpEc answers
  else s.decodeArrives size ok answers

/-- The variables of the loop of `handle_async_read` -/
structure Reading where
  s : Socket
  alwaysPump : Bool
  ecO : Int
  hasNewArrives : Bool
  answers : List RecvAnswer

/-- The loop goes on. -/
def Reading.more (r : Reading) : Bool := r.ecO = eTlpTryAgain ∨ r.ecO = eSocketPumpTryAgain

/-- One round of the loop -/
def readRound (r : Reading) : Except ByteFault Reading := do
  let n ← r.s.receivePackets 5 r.alwaysPump r.answers
  return {
    s := { n.s with mRpsQStandby := n.s.mRpsQStandby ++ n.arrives }
    alwaysPump := n.ecO = eSocketPumpTryAgain, ecO := n.ecO
    hasNewArrives := r.hasNewArrives || n.arrives.length > 0, answers := n.answers }

/-- `handle_async_read`, under the lock of the receiving half; as in the source, `WATCH_OPTION_INFINITE` is looked
for in `m_wflag`. -/
def readArrives (s : Socket) (answers : List RecvAnswer) : Except ByteFault Reading := do
  require (s.mSm ≠ .listener) .socketMode
  require (s.nonblocking = true) .socketMode
  let isOneTimeAsyncRead := !s.mWflag.infinite
  let r ← readRound ⟨if isOneTimeAsyncRead then s.endAsyncRead else s, true, ok, false, answers⟩
  let r ← loopWhile Reading.more readRound .loop (8 * (arrived answers).length + 4 * s.mRb.count + 24) r
  if isOneTimeAsyncRead ∧ ¬ r.hasNewArrives then return { r with s := ← r.s.beginAsyncRead } else return r

/-- `handle_async_read`, after the lock: the packets that are given to the listeners of `E_PACKET_ARRIVE`. It waits
while `m_rps_q` is not empty. -/
def triggerArrives (s : Socket) : Except ByteFault (List Packet × Socket) := do
  require (s.mRpsQ = []) .waits
  let s ← (if s.mRpsQStandby.length ≠ 0 then do
      let s : Socket := { s with mRpsQ := s.mRpsQStandby, mRpsQStandby := s.mRpsQ }
      require (s.mRpsQStandby.length = 0) .socketQueue
      require (s.mRpsQ.length ≠ 0) .socketQueue
      return s
    else .ok s : Except ByteFault Socket)
  return (s.mRpsQ, { s with mRpsQ := [] })

/-- `handle_async_read(ec_o)`: `ec_o`, and the packets that are given to the listeners -/
def handleAsyncRead (s : Socket) (answers : List RecvAnswer) : Except ByteFault (Int × List Packet × Socket) := do
  let r ← s.readArrives answers
  if r.hasNewArrives then
    let (packets, s) ← r.s.triggerArrives
    return (r.ecO, packets, s)
  else return (r.ecO, [], r.s)

end Socket

end Wawo
