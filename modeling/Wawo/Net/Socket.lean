import Wawo.Tlp.HlenPacket

/-!
# The sending half of a socket (`socket_base.hpp`, `socket_base.cpp`, `socket.cpp`)

What a data socket does with bytes to send. `send` gives them to the kernel at once; what the kernel does
not take is kept in `m_sb`, from where `flush` and `handle_async_write` send it. Each of these holds the
lock of the sending half from beginning to end, so that a call is one step. With a call come the answers
the kernel gives to its `::send`s and the times its clock reads; `kernel` is every byte the kernel has
taken. `watch` and `unwatch` are requests to the observer, which calls what was passed to the last
`watch`. The bits of `m_rflag` and `m_wflag` are `Bool` fields.
-/

namespace Wawo

open Memory Lts

def eSocketSendIoBlockExpired : Int := -30002
def eSocketRecvBufferFull : Int := -30003
def eSocketLargePacket : Int := -30008
def eSocketRdShutdownAlready : Int := -30009
def eSocketWrShutdownAlready : Int := -30010
def eSocketPumpTryAgain : Int := -30011

def sockSndMaxSize : Nat := 1024 * 1024 * 2
def sockSndMinSize : Nat := 1024 * 4
def sockRcvMaxSize : Nat := 1024 * 1024 * 2
def sockRcvMinSize : Nat := 1024 * 4

theorem sockSndMinSize_le : sockSndMinSize ≤ sockSndMaxSize := by decide

def flushDefaultBlockTime : Int := 5 * 1000
def flushBlockTimeInfinite : Int := -1
def wawoMaxAsyncWritePeriod : Nat := 90000

/-- `socket_mode` -/
inductive SocketMode
  | none
  | active
  | passive
  | listener
deriving DecidableEq

/-- `socket_state` -/
inductive SocketState
  | closed
  | opened
  | binded
  | listen
  | connecting
  | connected
deriving DecidableEq

/-- `SHUTDOWN_RD` or `SHUTDOWN_WR`, `WATCH_READ` or `WATCH_WRITE`, and `WATCH_OPTION_INFINITE`, in `m_rflag` or
`m_wflag`. -/
structure HalfFlag where
  shutdown : Bool
  watch : Bool
  infinite : Bool
deriving DecidableEq

/-- The `flag` of `shutdown` -/
inductive ShutdownFlag
  | rd
  | wr
  | rdwr
deriving DecidableEq

def ShutdownFlag.hasRd : ShutdownFlag → Bool
  | .wr => false
  | _ => true

def ShutdownFlag.hasWr : ShutdownFlag → Bool
  | .rd => false
  | _ => true

/-- The `socket_event`s that are scheduled. -/
inductive SocketEvent
  | wrBlock
  | wrUnblock
  | rdShutdown (ec : Int)
  | wrShutdown (ec : Int)
  | close (ec : Int)
  | error (ec : Int)
deriving DecidableEq

/-- What is passed to `watch` for `IOE_WRITE`. -/
inductive WriteCallback
  | asyncConnected
  | asyncWrite
deriving DecidableEq

/-- What `::send` does. -/
inductive SendAnswer
  | sent (n : Nat) -- it takes `n + 1` bytes, or all if there are fewer
  | wouldBlock
  | interrupted -- `EINTR`
  | failed (errno : Nat)
deriving DecidableEq

/-- A data socket. `writeCallback` is what the observer calls; `kernel` and `events` only grow. -/
structure Socket where
  nonblocking : Bool
  mSm : SocketMode
  mState : SocketState
  sndSize : Nat
  rcvSize : Nat
  mRflag : HalfFlag
  mWflag : HalfFlag
  mSb : RingBuffer
  mRb : RingBuffer
  mTlp : HlenPacket
  mDelayWp : Nat
  mAsyncWt : Nat
  mRpsQ : List Packet
  mRpsQStandby : List Packet
  writeCallback : Option WriteCallback
  kernel : List Byte
  events : List SocketEvent

/-- What a call of `send` leaves: what it returns, `ec_o`, and the answers that are left. -/
structure Sending where
  sent : Nat
  ecO : Int
  answers : List SendAnswer
deriving DecidableEq

/-- The loop of `standard_socket::send` from `sent_total` on, with the bytes that the kernel takes. Without
further answers it takes none. -/
def trySend (buffer : List Byte) : List SendAnswer → Nat → List Byte × Sending
  | [], sentTotal => ([], ⟨sentTotal, eSocketSendBlock, []⟩)
  | .sent n :: answers, sentTotal =>
    let sent := min (n + 1) (buffer.length - sentTotal)
    if sentTotal + sent = buffer.length then (slice buffer sentTotal sent, ⟨sentTotal + sent, ok, answers⟩)
    else
      let (taken, r) := trySend buffer answers (sentTotal + sent)
      (slice buffer sentTotal sent ++ taken, r)
  | .wouldBlock :: answers, sentTotal => ([], ⟨sentTotal, eSocketSendBlock, answers⟩)
  | .interrupted :: answers, sentTotal => trySend buffer answers sentTotal
  | .failed errno :: answers, sentTotal => ([], ⟨sentTotal, -errno, answers⟩)

namespace Socket

/-- `_init()`, for a socket in some state. -/
def init (nonblocking : Bool) (mSm : SocketMode) (mState : SocketState) (sndSize rcvSize mSize : Nat) : Except ByteFault Socket := do
  require (sndSize ≤ sockSndMaxSize ∧ sndSize ≥ sockSndMinSize) .socketSize
  require (rcvSize ≤ sockRcvMaxSize ∧ rcvSize ≥ sockRcvMinSize) .socketSize
  let mRb ← RingBuffer.new rcvSize
  let mSb ← RingBuffer.new sndSize
  return {
    nonblocking := nonblocking, mSm := mSm, mState := mState, sndSize := sndSize, rcvSize := rcvSize
    mRflag := ⟨false, false, false⟩, mWflag := ⟨false, false, false⟩, mSb := mSb, mRb := mRb, mTlp := .new mSize
    mDelayWp := wawoMaxAsyncWritePeriod, mAsyncWt := 0, mRpsQ := [], mRpsQStandby := []
    writeCallback := none, kernel := [], events := [] }

def schedule (s : Socket) (evt : SocketEvent) : Socket := { s with events := s.events ++ [evt] }

/-- `_end_async_read()` -/
def endAsyncRead (s : Socket) : Socket :=
  if s.mRflag.watch ∧ s.nonblocking then { s with mRflag := { s.mRflag with watch := false, infinite := false } } else s

/-- `_end_async_write()` -/
def endAsyncWrite (s : Socket) : Socket :=
  if s.mWflag.watch ∧ s.nonblocking then
    { s with mWflag := { s.mWflag with watch := false, infinite := false }, writeCallback := none }
  else s

/-- `_begin_async_write()`, for `async_write` -/
def beginAsyncWrite (s : Socket) : Except ByteFault Socket := do
  require (s.mState = .connected ∨ s.mState = .connecting) .socketState
  require (s.nonblocking = true) .socketMode
  if s.mWflag.shutdown then return s
  else if s.mWflag.watch then return s
  else return { s with mWflag := { s.mWflag with watch := true }, writeCallback := some .asyncWrite }

/-- `socket_base::send(buffer, length, ec_o, flag)` -/
def baseSend (s : Socket) (buffer : List Byte) (answers : List SendAnswer) : Except ByteFault (Sending × Socket) := do
  require (buffer.length > 0) .socketSize
  if s.mWflag.shutdown then return (⟨0, eSocketWrShutdownAlready, answers⟩, s)
  else
    let (taken, r) := trySend buffer answers 0
    return (r, { s with kernel := s.kernel ++ taken })

/-- `send`, where the bytes go behind those in `m_sb` -/
def sendBehind (s : Socket) (buffer : List Byte) (ecO : Int) : Except ByteFault (Nat × Int × Socket) := do
  let (wcount, mSb) ← s.mSb.write buffer buffer.length
  require (wcount = buffer.length) .socketCount
  return (wcount, ecO, { s with mSb := mSb })

/-- `send`, where the kernel is asked first -/
def sendNow (s : Socket) (buffer : List Byte) (answers : List SendAnswer) (now : Nat) : Except ByteFault (Nat × Int × Socket) := do
  let (r, s) ← s.baseSend buffer answers
  if r.sent < buffer.length ∧ r.ecO = eSocketSendBlock then
    require (s.nonblocking = true) .socketMode
    let toBufferC := buffer.length - r.sent
    require (s.mSb.leftCapacity ≥ toBufferC) .socketRoom
    let (writeC, mSb) ← s.mSb.write (buffer.drop r.sent) toBufferC
    require (toBufferC = writeC) .socketCount
    let s ← beginAsyncWrite ({ s with mSb := mSb, mAsyncWt := now }.schedule .wrBlock)
    return (r.sent + writeC, r.ecO, s)
  else return (r.sent, r.ecO, s)

/-- `send(buffer, size, ec_o, flag)`: what it returns, and `ec_o`; `useSndBuffer` is `F_SEND_USE_SND_BUFFER`. -/
def send (s : Socket) (buffer : List Byte) (useSndBuffer : Bool) (ecO : Int) (answers : List SendAnswer) (now : Nat) :
    Except ByteFault (Nat × Int × Socket) := do
  require (buffer.length > 0 ∧ buffer.length ≤ s.mSb.capacity) .socketSize
  if s.mWflag.shutdown then return (0, eSocketWrShutdownAlready, s)
  else if buffer.length > s.sndSize then return (0, eSocketLargePacket, s)
  else if s.nonblocking ∧ s.mSb.count > 0 then
    if useSndBuffer ∧ s.mSb.leftCapacity > buffer.length then s.sendBehind buffer ecO
    else return (0, eSocketSendBlock, s)
  else s.sendNow buffer answers now

/-- The variables of the loops that flush. -/
structure Flushing where
  s : Socket
  flushed : Nat
  left : Nat
  ecO : Int
  answers : List SendAnswer

/-- A loop goes on: `left != 0 && ec_o == wawo::OK` -/
def Flushing.more (f : Flushing) : Bool := f.left ≠ 0 ∧ f.ecO = ok

/-- One round of the loop of `_flush` -/
def flushRound (f : Flushing) : Except ByteFault Flushing := do
  let (_, tsb, mSb) ← f.s.mSb.peek f.s.sndSize
  let (r, s) ← baseSend { f.s with mSb := mSb } tsb f.answers
  let mSb ← (if r.sent > 0 then s.mSb.skip r.sent else .ok s.mSb : Except ByteFault RingBuffer)
  return { s := { s with mSb := mSb }, flushed := f.flushed + r.sent, left := mSb.count, ecO := r.ecO, answers := r.answers }

/-- `_flush(left, ec_o)`; `flushed` is added to what has been flushed before. -/
def flushSb (s : Socket) (flushed : Nat) (answers : List SendAnswer) : Except ByteFault Flushing := do
  require (s.mSm ≠ .listener) .socketMode
  require (s.nonblocking = true) .socketMode
  loopWhile Flushing.more flushRound .loop (s.mSb.count + 1) ⟨s, flushed, s.mSb.count, ok, answers⟩

/-- The loop of `flush`, with what `curr_microseconds()` returns -/
def flushLoop (blockTime : Int) (s : Socket) (flushedTotal beginTime : Nat) (answers : List SendAnswer) (nows : List Nat) :
    Except ByteFault Flushing := do
  let f ← s.flushSb flushedTotal answers
  if f.left = 0 ∨ blockTime = 0 ∨ f.ecO ≠ eSocketSendBlock then return f
  else
    match nows with
    | [] => .error .waits
    | now :: nows =>
      let beginTime := if beginTime = 0 then now else beginTime
      -- `begin_time-now` is the negative of the time that has passed
      if blockTime ≠ -1 ∧ subU64 beginTime now > (blockTime % 2 ^ 32).toNat then return f
      else flushLoop blockTime f.s f.flushed beginTime f.answers nows

/-- `flush(left, ec_o, block_time)` -/
def flush (s : Socket) (blockTime : Int) (answers : List SendAnswer) (nows : List Nat) : Except ByteFault Socket :=
  if s.nonblocking then do
    let f ← flushLoop blockTime s 0 0 answers nows
    return if f.left = 0 then { f.s with mAsyncWt := 0 } else f.s
  else .ok s

/-- The loop of `handle_async_write` -/
def asyncWriteLoop (s : Socket) (answers : List SendAnswer) : Except ByteFault Flushing := do
  let f ← s.flushSb 0 answers
  loopWhile Flushing.more (fun f => f.s.flushSb f.flushed f.answers) .loop (s.mSb.count + 1) f

/-- `handle_async_write(ec_o)`: `ec_o`, with what `curr_milliseconds()` returns -/
def handleAsyncWrite (s : Socket) (answers : List SendAnswer) (now : Nat) : Except ByteFault (Int × Socket) := do
  require (s.nonblocking = true) .socketMode
  let f ← asyncWriteLoop (if s.mWflag.infinite then s else s.endAsyncWrite) answers
  if f.left = 0 then
    require (f.ecO = ok) .socketFlushed
    if f.flushed ≠ 0 then return (f.ecO, { f.s.endAsyncWrite with mAsyncWt := 0 }.schedule .wrUnblock)
    else return (f.ecO, f.s)
  else
    require (f.s.mAsyncWt ≠ 0) .socketAsyncWt
    if f.ecO = eSocketSendBlock then
      if f.flushed = 0 ∧ now > (f.s.mAsyncWt + f.s.mDelayWp) % 2 ^ 64 then return (eSocketSendIoBlockExpired, f.s)
      else return (f.ecO, ← beginAsyncWrite (if f.flushed > 0 then { f.s with mAsyncWt := now } else f.s))
    else return (f.ecO, f.s)

/-- What `shutdown` and `close` begin with -/
def flushOpen (s : Socket) (blockTime : Int) (answers : List SendAnswer) (nows : List Nat) : Except ByteFault Socket :=
  if s.nonblocking ∧ s.mSm ≠ .listener ∧ s.mWflag.shutdown = false then s.flush blockTime answers nows else .ok s

/-- `m_rflag |= SHUTDOWN_RD`, and `_end_async_read()`, which does nothing on a blocking socket -/
def shutRd (s : Socket) : Socket := endAsyncRead { s with mRflag := { s.mRflag with shutdown := true } }

/-- `m_wflag |= SHUTDOWN_WR`, and `_end_async_write()` -/
def shutWr (s : Socket) : Socket := endAsyncWrite { s with mWflag := { s.mWflag with shutdown := true } }

/-- The events for the halves that have been shut down -/
def scheduleShut (s : Socket) (rd wr : Bool) (ec : Int) : Socket :=
  let s := if rd then s.schedule (.rdShutdown ec) else s
  if wr then s.schedule (.wrShutdown ec) else s

/-- `close(ec)` of a socket that is not a listener; `m_fn_close` returns `OK`. -/
def close (s : Socket) (ec : Int) (answers : List SendAnswer) (nows : List Nat) : Except ByteFault Socket :=
  if s.mState = .closed then .ok s
  else do
    let s ← s.flushOpen (if ec = ok then flushBlockTimeInfinite else flushDefaultBlockTime) answers nows
    let closed : Socket := { s.shutRd.shutWr with mState := .closed }
    if ¬ s.nonblocking then return closed
    else if s.mState ≠ .connected then
      require (ec ≠ 0) .socketEc
      return closed.schedule (.error ec)
    else return (closed.scheduleShut (!s.mRflag.shutdown) (!s.mWflag.shutdown) ec).schedule (.close ec)

/-- `shutdown(flag, ec)` and `socket_base::_shutdown` -/
def shutdown (s : Socket) (flag : ShutdownFlag) (ec : Int) (answers : List SendAnswer) (nows : List Nat) : Except ByteFault Socket := do
  let s ← s.flushOpen flushDefaultBlockTime answers nows
  require (s.mSm ≠ .listener) .socketMode
  let rd := flag.hasRd && !s.mRflag.shutdown
  let wr := flag.hasWr && !s.mWflag.shutdown
  let shut := if rd then s.shutRd else s
  let shut := if wr then shut.shutWr else shut
  if s.nonblocking then return shut.scheduleShut rd wr ec
  else return shut

/-- `__rdwr_check(ec)`, which `shutdown` schedules after its events -/
def rdwrCheck (s : Socket) (ec : Int) (answers : List SendAnswer) (nows : List Nat) : Except ByteFault Socket :=
  if s.mRflag.shutdown ∧ s.mWflag.shutdown then s.close ec answers nows else .ok s

/-- `async_write(cookie)`. Where it closes the socket it reads what has arrived first; this is left out. -/
def asyncWrite (s : Socket) (answers : List SendAnswer) (now : Nat) (closeAnswers : List SendAnswer) (nows : List Nat) :
    Except ByteFault Socket := do
  let (ec, s) ← s.handleAsyncWrite answers now
  if ec = eSocketSendBlock ∨ ec = ok ∨ ec = eSocketWrShutdownAlready then return s
  else s.close ec closeAnswers nows

/-- What `m_fn_connect` does. -/
inductive ConnectAnswer
  | connected
  | inProgress -- `EINPROGRESS`
  | failed (errno : Nat)
deriving DecidableEq

/-- `connect(addr)`, after the first line of `async_connect`: whether `begin_async_connect` comes next. -/
def connect (s : Socket) (answer : ConnectAnswer) : Except ByteFault (Bool × Socket) := do
  let s : Socket := { s with nonblocking := true }
  if s.mState = .opened ∨ s.mState = .binded then
    require (s.mSm = .none) .socketMode
    let s : Socket := { s with mSm := .active }
    match answer with
    | .connected => return (false, { s with mState := .connected })
    | .inProgress => return (true, { s with mState := .connecting })
    | .failed _ => return (false, s)
  else return (false, s)

/-- `begin_async_connect(cookie, fn, err)` -/
def beginAsyncConnect (s : Socket) : Except ByteFault Socket := do
  require (s.mState = .connected ∨ s.mState = .connecting) .socketState
  require (s.nonblocking = true) .socketMode
  require (s.mWflag.shutdown = false ∧ s.mWflag.watch = false) .socketWatch
  return { s with mWflag := { s.mWflag with watch := true }, writeCallback := some .asyncConnected }

/-- `tlp_handshake` with callbacks, by what `handshake_make_hello_packet` makes: no packet where no handshake
is needed. -/
def tlpHandshake (s : Socket) (hello : Option (List Byte)) (answers : List SendAnswer) : Except ByteFault Socket :=
  match hello with
  | none => .ok s
  | some hello => do
    let (r, s) ← s.baseSend hello answers
    if r.ecO ≠ ok then return s
    else if s.mRflag.shutdown then return s
    else
      require (s.nonblocking = true) .socketMode
      require (s.mRflag.watch = false) .socketWatch
      return { s with mRflag := { s.mRflag with watch := true, infinite := s.mRflag.infinite } }

/-- `async_connected(cookie)` -/
def asyncConnected (s : Socket) (hello : Option (List Byte)) (answers : List SendAnswer) : Except ByteFault Socket := do
  require (s.mSm = .active) .socketMode
  let s := s.endAsyncWrite
  require (s.nonblocking = true) .socketMode
  require (s.mState = .connecting) .socketState
  tlpHandshake { s with mState := .connected } hello answers

/-- A socket is made with empty buffers. -/
theorem init_spec {nonblocking : Bool} {mSm : SocketMode} {mState : SocketState} {sndSize rcvSize mSize : Nat}
    (hsnd : sndSize ≤ sockSndMaxSize ∧ sndSize ≥ sockSndMinSize) (hrcv : rcvSize ≤ sockRcvMaxSize ∧ rcvSize ≥ sockRcvMinSize) :
    ∃ mSb mRb, mSb.Refines (.empty sndSize) ∧ mRb.Refines (.empty rcvSize) ∧
      init nonblocking mSm mState sndSize rcvSize mSize = .ok {
        nonblocking := nonblocking, mSm := mSm, mState := mState, sndSize := sndSize, rcvSize := rcvSize
        mRflag := ⟨false, false, false⟩, mWflag := ⟨false, false, false⟩, mSb := mSb, mRb := mRb, mTlp := .new mSize
        mDelayWp := wawoMaxAsyncWritePeriod, mAsyncWt := 0, mRpsQ := [], mRpsQStandby := []
        writeCallback := none, kernel := [], events := [] } := by
  have hsnd' : minRingBufferSize ≤ sndSize ∧ sndSize ≤ maxRingBufferSize := by
    unfold sockSndMaxSize sockSndMinSize at hsnd
    unfold minRingBufferSize maxRingBufferSize
    omega
  have hrcv' : minRingBufferSize ≤ rcvSize ∧ rcvSize ≤ maxRingBufferSize := by
    unfold sockRcvMaxSize sockRcvMinSize at hrcv
    unfold minRingBufferSize maxRingBufferSize
    omega
  obtain ⟨mRb, hmRb, hrb⟩ := RingBuffer.new_refines hrcv'.1 hrcv'.2
  obtain ⟨mSb, hmSb, hsb⟩ := RingBuffer.new_refines hsnd'.1 hsnd'.2
  refine ⟨mSb, mRb, hsb, hrb, ?_⟩
  unfold init
  rw [require_eq hsnd, ok_bind, require_eq hrcv, ok_bind, hmRb, ok_bind, hmSb, ok_bind, pure_eq_ok]

end Socket

end Wawo
