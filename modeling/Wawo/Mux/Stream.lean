import Wawo.Bytes.RingBuffer
import Wawo.Net.Socket

/-!
# Multiplexed streams (`message/mux_cargo.hpp`, `mux_cargo.cpp`)

A stream buffers what is written and what has arrived; `_flush`, called by the tick of its peer, hands frames
over to the socket. `wb_wnd` is what it may still send, `rb_incre` what has been read since the last `T_UWND`.
The calls are generic in the buffer: `Ring` lists what a stream asks of `bytes_ringbuffer`. A call is taken as
atomic, although not all of it is under a lock: `write` tests `flag` before it locks, and `_flush` looks at `flag` and
at `wb->count()` without one. `So` is the socket during one tick: the codes its `send_packet` is going to return and
the frames it has taken. The bits of `flag` are `Bool` fields.
-/

namespace Wawo.Mux

open Lts

def eMuxStreamCargoStreamReadShutdownedAlready : Int := -43003
def eMuxStreamCargoStreamWriteShutdownedAlready : Int := -43004
def eMuxStreamCargoStreamClosedAlready : Int := -43005
def eMuxStreamWriteBlock : Int := -43006

def muxStreamWndSize : Nat := 256 * 1024

/-- The calls of `bytes_ringbuffer` that a stream makes: `read` moves, and all of `bytes` is to be written. -/
class Ring (ρ : Type) where
  new : Nat → Except ByteFault ρ
  capacity : ρ → Nat
  count : ρ → Nat
  leftCapacity : ρ → Nat
  read : ρ → Nat → Except ByteFault (Nat × List Byte × ρ)
  peek : ρ → Nat → Except ByteFault (Nat × List Byte × ρ)
  skip : ρ → Nat → Except ByteFault ρ
  write : ρ → List Byte → Except ByteFault (Nat × ρ)

instance : Ring RingBuffer where
  new := RingBuffer.new
  capacity := RingBuffer.capacity
  count := RingBuffer.count
  leftCapacity := RingBuffer.leftCapacity
  read rb s := rb.read s true
  peek := RingBuffer.peek
  skip := RingBuffer.skip
  write rb bytes := rb.write bytes bytes.length

/-- `mux_stream_message_type`, for what goes over the channel, with the data of the message -/
inductive Frame
  | syn
  | data (opack : List Byte)
  | uwnd (incre : Nat)
  | rst
  | fin
deriving DecidableEq

/-- `stream_state` -/
inductive StreamState
  | closed
  | established
  | recycle
deriving DecidableEq

/-- `stream_flag` -/
structure StreamFlag where
  readShutdownCalled : Bool := false
  readShutdown : Bool := false
  writeShutdownCalled : Bool := false
  writeShutdown : Bool := false
  planFin : Bool := false
  planSyn : Bool := false
  bufferDetermined : Bool := false
deriving DecidableEq

/-- `stream_write_flag`, as `_flush` and `update` report it -/
structure WriteFlag where
  blocked : Bool := false
  unblocked : Bool := false
deriving DecidableEq

/-- The send buffer a socket accepts -/
structure SocketBufferCfg where
  sndSize : Nat
  le_max : sndSize ≤ sockSndMaxSize
  min_le : sockSndMinSize ≤ sndSize

/-- The socket during one tick -/
structure So where
  cfg : SocketBufferCfg
  codes : List Int
  sent : List Frame

/-- `send_packet` -/
def So.sendPacket (so : So) (m : Frame) : Int × So :=
  match so.codes with
  | [] => (eSocketSendBlock, so)
  | ec :: codes => (ec, { so with codes := codes, sent := if ec = ok then so.sent ++ [m] else so.sent })

/-- `stream` -/
structure Stream (ρ : Type) where
  ctx : Bool -- whether there is one
  state : StreamState
  flag : StreamFlag
  id : Nat
  rb : ρ
  rbIncre : Nat
  wb : ρ
  wbWnd : Nat
  writeBlocked : Bool -- `STREAM_WRITE_BLOCKED` in `write_flag`

namespace Stream

variable {ρ : Type} [Ring ρ]

/-- `stream()` and `init()` -/
def init : Except ByteFault (Stream ρ) := do
  let rb ← Ring.new muxStreamWndSize
  let wb ← Ring.new muxStreamWndSize
  return { ctx := false, state := .closed, flag := {}, id := 0, rb := rb, rbIncre := 0, wb := wb, wbWnd := muxStreamWndSize, writeBlocked := false }

variable (s : Stream ρ)

/-- `_snd_fin` -/
def sndFin : Except ByteFault (Stream ρ) := do
  require (s.state = .established) .muxState
  require (s.id ≠ 0) .muxId
  require (s.flag.writeShutdownCalled = false) .muxFlag
  require (s.flag.planFin = false) .muxFlag
  return { s with flag := { s.flag with planFin := true } }

/-- `_snd_syn` -/
def sndSyn : Except ByteFault (Stream ρ) := do
  require (s.flag.planSyn = false) .muxFlag
  return { s with flag := { s.flag with planSyn := true } }

/-- `_force_close` -/
def forceClose : Stream ρ :=
  { s with
    flag := { s.flag with readShutdownCalled := true, readShutdown := true, writeShutdownCalled := true, writeShutdown := true }
    state := .closed }

/-- `stream::open` -/
def openWith (id : Nat) (ctx : Bool) : Except ByteFault (Stream ρ) := do
  require (s.id = 0) .muxOpen
  require (s.state = .closed) .muxOpen
  sndSyn { s with id := id, state := .established, ctx := ctx }

/-- `write`: what it returns, the stream after it. -/
def write (opack : List Byte) : Except ByteFault (Int × Stream ρ) := do
  if s.flag.writeShutdownCalled = true ∨ s.flag.writeShutdown = true then
    return (eMuxStreamCargoStreamWriteShutdownedAlready, s)
  if Ring.leftCapacity s.wb < opack.length then
    return (eMuxStreamWriteBlock, { s with writeBlocked := true })
  let (nwrites, wb) ← Ring.write s.wb opack
  require (nwrites = opack.length) .muxWrite
  return (ok, { s with wb := wb })

/-- `read`: what it returns, the packet if that is not zero, the stream after it. -/
def read (max : Nat) : Except ByteFault (Nat × List Byte × Stream ρ) := do
  if Ring.count s.rb = 0 then
    return (0, [], s)
  let tryMax := if max ≠ 0 ∧ Ring.count s.rb > max then max else Ring.count s.rb
  let (rcount, pack, rb) ← Ring.read s.rb tryMax
  return (rcount, pack, { s with rb := rb, rbIncre := u32 (s.rbIncre + rcount) })

/-- What `close_read` and `close` do to a stream that may still read -/
def shutRead : Stream ρ :=
  { s with
    flag := { s.flag with readShutdownCalled := true, readShutdown := true }
    rbIncre := if Ring.count s.rb ≠ 0 then u32 (s.rbIncre + Ring.count s.rb) else s.rbIncre }

/-- What `close_write` and `close` do to a stream that may still write -/
def shutWrite : Except ByteFault (Stream ρ) := do
  let s ← s.sndFin
  return { s with flag := { s.flag with writeShutdownCalled := true } }

def closeRead : Int × Stream ρ :=
  if s.flag.readShutdownCalled = true then (eMuxStreamCargoStreamReadShutdownedAlready, s) else (ok, s.shutRead)

def closeWrite : Except ByteFault (Int × Stream ρ) := do
  if s.flag.writeShutdownCalled = true then
    return (eMuxStreamCargoStreamWriteShutdownedAlready, s)
  return (ok, ← s.shutWrite)

def close : Except ByteFault (Int × Stream ρ) := do
  if s.flag.readShutdownCalled = true ∧ s.flag.writeShutdownCalled = true then
    return (eMuxStreamCargoStreamClosedAlready, s)
  let s := if s.flag.readShutdownCalled = true then s else s.shutRead
  if s.flag.writeShutdownCalled = true then
    return (ok, s)
  return (ok, ← s.shutWrite)

/-! ### `_flush` -/

/-- The bytes of `tmp` -/
def copySize : Nat := 8192

/-- `while (wb->count())`: `wb` goes over to `sb_new`, in pieces; what does not fit is dropped. -/
def copyAll (rings : ρ × ρ) : Except ByteFault (ρ × ρ) :=
  loopWhile (fun rings => Ring.count rings.1 ≠ 0)
    (fun rings => do
      let (nbytes, tmp, wb) ← Ring.read rings.1 copySize
      let (_, sbNew) ← Ring.write rings.2 (tmp.take nbytes)
      return (wb, sbNew))
    .loop (muxStreamWndSize + 1) rings

/-- The buffer is made as large as the socket lets it, the first time there is something in it. -/
def determine (cfg : SocketBufferCfg) : Except ByteFault (Stream ρ) := do
  if s.flag.bufferDetermined = true then
    return s
  let trySize := subU32 cfg.sndSize 1024
  let size := min trySize (Ring.capacity s.wb)
  if size ≠ Ring.capacity s.wb then
    let sbNew ← Ring.new size
    let (wb, sbNew) ← copyAll (s.wb, sbNew)
    require (Ring.count wb = 0) .muxResize
    return { s with flag := { s.flag with bufferDetermined := true }, wb := sbNew }
  return { s with flag := { s.flag with bufferDetermined := true } }

/-- The loop that sends what is in `wb` -/
structure Sending (ρ : Type) where
  s : Stream ρ
  so : So
  flushed : Nat
  ecO : Int

def sendDataRound (l : Sending ρ) : Except ByteFault (Sending ρ) := do
  let canSendMax := if muxStreamWndSize - l.flushed > l.s.wbWnd then l.s.wbWnd else muxStreamWndSize - l.flushed
  let (nbytes, opack, _) ← Ring.peek l.s.wb canSendMax
  require (nbytes > 0 ∧ nbytes ≤ canSendMax) .muxPeek
  let (ecO, so) := l.so.sendPacket (.data opack)
  if ecO ≠ ok then
    return { l with so := so, ecO := ecO } -- `break`
  let wb ← Ring.skip l.s.wb nbytes
  require (l.s.wbWnd ≥ nbytes) .muxWnd
  return { l with s := { l.s with wb := wb, wbWnd := l.s.wbWnd - nbytes }, so := so, flushed := l.flushed + nbytes }

/-- `break` ends the loop with a code that is not `OK`, nothing else does. -/
def sendData (so : So) : Except ByteFault (Stream ρ × So × Int × WriteFlag) := do
  let l ← loopWhile (fun l : Sending ρ => l.ecO = ok ∧ Ring.count l.s.wb ≠ 0 ∧ l.flushed < muxStreamWndSize ∧ l.s.wbWnd > 0) sendDataRound
    .loop (muxStreamWndSize + 1) ⟨s, so, 0, ok⟩
  if l.flushed > 0 ∧ l.s.writeBlocked = true then
    return ({ l.s with writeBlocked := false }, l.so, l.ecO, { blocked := true, unblocked := true })
  return (l.s, l.so, l.ecO, {})

/-- From the `T_SYN` on -/
def sendSyn (so : So) : Except ByteFault (Stream ρ × So × Int × WriteFlag) :=
  if s.flag.planSyn = true then
    let (ecO, so) := so.sendPacket .syn
    if ecO ≠ ok then .ok (s, so, ecO, {})
    else sendData { s with flag := { s.flag with planSyn := false } } so
  else s.sendData so

/-- `T_FIN`, where `wb` is empty -/
def sendFin (so : So) : Stream ρ × So × Int × WriteFlag :=
  if s.flag.planFin = true then
    let (ecO, so) := so.sendPacket .fin
    if ecO = ok then ({ s with flag := { s.flag with planFin := false, writeShutdown := true } }, so, ecO, {})
    else (s, so, ecO, {})
  else (s, so, ok, {})

/-- From the test for the shutdowns on -/
def flushWrite (so : So) : Except ByteFault (Stream ρ × So × Int × WriteFlag) := do
  if s.rbIncre = 0 ∧ s.flag.writeShutdown = true ∧ s.flag.readShutdown = true then
    return ({ s with state := .closed }, so, ok, {})
  if s.flag.writeShutdown = true then
    return (s, so, ok, {})
  if Ring.count s.wb = 0 then
    return s.sendFin so
  let s ← s.determine so.cfg
  s.sendSyn so

/-- `_flush`: the stream and the socket after it, `ec_o` and `wflag`. -/
def flush (so : So) : Except ByteFault (Stream ρ × So × Int × WriteFlag) :=
  if s.rbIncre > 0 then
    let (ecO, so) := so.sendPacket (.uwnd s.rbIncre)
    if ecO ≠ ok then .ok (s, so, ecO, {})
    else flushWrite { s with rbIncre := 0 } so
  else s.flushWrite so

/-- `update`: the stream and the socket after it, and `wflag`; it returns the state of the stream. -/
def update (so : So) : Except ByteFault (Stream ρ × So × WriteFlag) :=
  match s.state with
  | .established => do
    let (s, so, ecO, wflag) ← s.flush so
    if ecO = ok then
      return (s, so, wflag)
    if ecO = eSocketSendBlock then
      return (s, so, { wflag with blocked := true })
    return (s.forceClose, so, wflag)
  | .closed =>
    if s.flag.readShutdown = true ∧ s.flag.writeShutdown = true then .ok ({ s with state := .recycle }, so, {})
    else .ok (s, so, {})
  | .recycle => .ok (s, so, {})

end Stream

/-! ### What the peer does to a stream (`mux_cargo.hpp`) -/

section

variable {ρ : Type} [Ring ρ]

/-- `stream_open` of an id that is not in the map -/
def streamOpen (id : Nat) (ctx : Bool) : Except ByteFault (Stream ρ) := do
  let s ← Stream.init
  s.openWith id ctx

/-- `T_SYN` for an id that is not in the map; `ctx` is what the receiver of `T_ACCEPTED` makes of it. -/
def streamAccept (id : Nat) (ctx : Bool) : Except ByteFault (Stream ρ) := do
  let s ← Stream.init
  return { s with state := .established, id := id, ctx := ctx }

variable (s : Stream ρ)

/-- `_do_tick`, for one stream of the map -/
def Stream.tick (connected : Bool) (so : So) : Except ByteFault (Stream ρ × So × WriteFlag) :=
  let s := if connected then s else s.forceClose
  s.update so

/-- `on_event(E_PACKET_ARRIVE)`, for a stream of the map: the stream after it, and whether a `T_RST` is the reply. -/
def Stream.onEvent (inpack : Frame) : Except ByteFault (Stream ρ × Bool) :=
  match inpack with
  | .syn => .ok (s, true)
  | .data inpack => do
    if s.flag.readShutdown = true then
      return (s, true)
    require (inpack.length ≤ Ring.leftCapacity s.rb) .muxRoom
    let (_, rb) ← Ring.write s.rb inpack
    return ({ s with rb := rb }, false)
  | .fin => do
    require (s.ctx = true) .muxCtx
    return (s, false)
  | .rst => .ok (s.forceClose, false)
  | .uwnd incre => .ok ({ s with wbWnd := min muxStreamWndSize (u32 (s.wbWnd + incre)) }, false)

end

/-- The calls a stream gets, from its user and from its peer -/
inductive StreamCall
  | write (opack : List Byte)
  | read (max : Nat)
  | closeRead
  | closeWrite
  | close
  | tick (connected : Bool) (cfg : SocketBufferCfg) (codes : List Int)
  | arrive (inpack : Frame)

/-- What a call makes of a stream: the frames it has sent, the bytes it has accepted, and whether the peer is to
reply with `T_RST` -/
structure Outcome (ρ : Type) where
  s : Stream ρ
  sent : List Frame := []
  accepted : List Byte := []
  rst : Bool := false

def Stream.call {ρ : Type} [Ring ρ] (s : Stream ρ) : StreamCall → Except ByteFault (Outcome ρ)
  | .write opack => do
    let (ec, s) ← s.write opack
    return { s := s, accepted := if ec = ok then opack else [] }
  | .read max => do
    let (_, _, s) ← s.read max
    return { s := s }
  | .closeRead => .ok { s := s.closeRead.2 }
  | .closeWrite => do return { s := (← s.closeWrite).2 }
  | .close => do return { s := (← s.close).2 }
  | .tick connected cfg codes => do
    let (s, so, _) ← s.tick connected ⟨cfg, codes, []⟩
    return { s := s, sent := so.sent }
  | .arrive inpack => do
    let (s, rst) ← s.onEvent inpack
    return { s := s, rst := rst }

/-- A stream with all it has sent and all it has accepted -/
structure Life (ρ : Type) where
  s : Stream ρ
  sent : List Frame
  accepted : List Byte

def begun {ρ : Type} (s : Stream ρ) : Life ρ := ⟨s, [], []⟩

def live {ρ : Type} [Ring ρ] (c : StreamCall) (l : Life ρ) : Except ByteFault (Life ρ) := do
  let o ← l.s.call c
  return ⟨o.s, l.sent ++ o.sent, l.accepted ++ o.accepted⟩

end Wawo.Mux
