import Wawo.Lib.BoundedQueue
import Wawo.Lib.SeqList

/-!
# WCP packs and the control block (`wcp.hpp`)

The data of one WCP connection. `WCB` is split into its sending half `Snd` and its receiving half
`Rcv`; the fields keep the source's names without the `snd_` / `s_` / `rcv_` / `r_` prefix, and the
bits of `wcb_flag`, `r_flag` and `s_flag` are `Bool` fields of the half that uses them. `u32_t` and
`u64_t` values are `Nat`, with the wrap-around written out where the source computes. `rb`,
`rb_standby` and `sb` are bounded queues of bytes, `snd_sacked_pack_tmp` (a packet written by
`write<u32_t>` only) is the list of the numbers written, and `received_vec`, which is refilled from
`received_vec_standby` at the start of each `check_recv`, is that call's batch.

`SndHist` and `RcvHist` are history variables: nothing in the model reads them.
-/

namespace Wawo

abbrev Byte := UInt8

/-- A `u32_t` result. -/
def u32 (n : Nat) : Nat := n % 2 ^ 32

/-- `a - b` on `u32_t`. -/
def subU32 (a b : Nat) : Nat := (a + 2 ^ 32 - b) % 2 ^ 32

/-- `a - b` on `u64_t`. -/
def subU64 (a b : Nat) : Nat := (a + 2 ^ 64 - b) % 2 ^ 64

theorem u32_of_lt {n : Nat} (h : n < 2 ^ 32) : u32 n = n := Nat.mod_eq_of_lt h

/-! ### Constants -/

def wcpMtu : Nat := 1400
def wcpHeaderLen : Nat := 16
def wcpMdu : Nat := wcpMtu - wcpHeaderLen
def wcpRcvBufferMax : Nat := 1024 * 1024
def wcpRcvBufferMin : Nat := wcpMdu * 4
def wcpRcvWndDefault : Nat := 64 * 1024
def wcpSndBufferMax : Nat := 1024 * 1024
def wcpSndBufferMin : Nat := wcpMdu * 4
def wcpSndWndDefault : Nat := 64 * 1024
def wcpSndSsthreshMax : Nat := 1024 * 1024 * 2
def wcpSndSsthreshMin : Nat := 4 * wcpMtu
def wcpSndCwndMax : Nat := wcpSndSsthreshMax * 4
def wcpSndSackDupCount : Nat := 1
def wcpRwndCheckGranularity : Nat := 1000
def wcpSrttAlpha : Nat := 1 / 8 -- an integer division, as in the source
def wcpRttvarBeta : Nat := 1 / 4 -- an integer division, as in the source
def wcpRtoClockGranularity : Nat := 5
def wcpRtoInit : Nat := 1000
def wcpRtoMin : Nat := 100
def wcpRtoMax : Nat := 60 * 1000
def wcpLostThreshold : Nat := 3
def wcpSynMaxTime : Nat := 30 * 1000
def wcpFinMaxTime : Nat := 2 * 60 * 1000
def wcpTimewaitMaxTime : Nat := 2 * 60 * 1000
def wcpLastAckMaxTime : Nat := 30 * 1000
def wcpIw : Nat := 10
def wcpLw : Nat := 5

/-! ### Return codes -/

def ok : Int := 0
def eWouldblock : Int := -11
def eConnaborted : Int := -103
def eConnreset : Int := -104
def eTimeout : Int := -110
def eAlready : Int := -114
def eSocketGraceClose : Int := -30000
def eSocketSendBlock : Int := -30001
def eSocketRecvBlock : Int := -30004

/-! ### Packs -/

/-- `WCP_Flag` -/
abbrev WcpFlag := BitVec 16

namespace WcpFlag
def syn : WcpFlag := 1#16 <<< 0
def ack : WcpFlag := 1#16 <<< 1
def sack : WcpFlag := 1#16 <<< 2
def fin : WcpFlag := 1#16 <<< 3
def rst : WcpFlag := 1#16 <<< 4
def wnd : WcpFlag := 1#16 <<< 5
def dat : WcpFlag := 1#16 <<< 6
def keepAlive : WcpFlag := 1#16 <<< 7
def keepAliveReply : WcpFlag := 1#16 <<< 8
end WcpFlag

/-- `WCP_Header` -/
structure WcpHeader where
  seq : Nat
  ack : Nat
  wnd : Nat
  flag : WcpFlag
  dlen : Nat
deriving DecidableEq

/-- `WCPPACK_TEST_FLAG` -/
def WcpHeader.testFlag (h : WcpHeader) (f : WcpFlag) : Bool := h.flag &&& f != 0

/-- A pack as it crosses the network. Both ends of the codec assert that `dlen` is the length of
the payload and at most `WCP_MDU`. -/
structure Datagram where
  header : WcpHeader
  data : List Byte
  dlen_eq : header.dlen = data.length
  len_le : data.length ≤ wcpMdu
deriving DecidableEq

namespace Datagram

variable (d : Datagram)

def seq : Nat := d.header.seq

def testFlag (f : WcpFlag) : Bool := d.header.testFlag f

/-- `header.dlen + WCP_HeaderLen` -/
def totalBytes : Nat := d.header.dlen + wcpHeaderLen

/-- What a later transmission of the same pack repeats. -/
def content : Nat × WcpFlag × List Byte := (d.header.seq, d.header.flag, d.data)

/-- `send_pack` writes these two header fields just before it sends. -/
def stamp (ack wnd : Nat) : Datagram :=
  { d with header := { d.header with ack := ack, wnd := wnd } }

/-- A pack just made: `ack` and `wnd` are set when it is sent. -/
def fresh (seq : Nat) (flag : WcpFlag) (data : List Byte) (h : data.length ≤ wcpMdu) : Datagram where
  header := { seq := seq, ack := 0, wnd := 0, flag := flag, dlen := data.length }
  data := data
  dlen_eq := rfl
  len_le := h

@[simp] theorem content_stamp (a n : Nat) : (d.stamp a n).content = d.content := rfl

@[simp] theorem testFlag_fresh (seq : Nat) (flag : WcpFlag) (data : List Byte) (h : data.length ≤ wcpMdu)
    (f : WcpFlag) : (fresh seq flag data h).testFlag f = (flag &&& f != 0) := rfl

theorem totalBytes_of_content {d d' : Datagram} (h : d.content = d'.content) :
    d.totalBytes = d'.totalBytes := by
  have hd : d.data = d'.data := congrArg (fun c => c.2.2) h
  rw [totalBytes, totalBytes, d.dlen_eq, d'.dlen_eq, hd]

theorem seq_of_content {d d' : Datagram} (h : d.content = d'.content) : d.seq = d'.seq :=
  congrArg (fun c => c.1) h

theorem testFlag_of_content {d d' : Datagram} (h : d.content = d'.content) (f : WcpFlag) :
    d.testFlag f = d'.testFlag f := by
  have hf : d.header.flag = d'.header.flag := congrArg (fun c => c.2.1) h
  rw [testFlag, testFlag, WcpHeader.testFlag, WcpHeader.testFlag, hf]

end Datagram

/-- `WCB_pack` -/
structure WcbPack extends Datagram where
  sentTs : Nat
  sentTimes : Nat
deriving DecidableEq

/-- `wawo::net::address` as the connection uses it: `m_identity`, 0 for the null address. -/
structure Address where
  identity : Nat
deriving DecidableEq

def Address.isNull (a : Address) : Bool := a.identity == 0

/-- `WCB_received_pack` -/
structure WcbReceivedPack extends Datagram where
  fromAddr : Address
deriving DecidableEq

/-- An entry of `s_sending_ignore_seq_space`. `SACK` pushes one shared pack several times in a row;
`dup` counts the further copies that stand right behind this one. -/
structure QueuedPack where
  pack : Datagram
  dup : Nat
deriving DecidableEq

/-- `WCB_State` -/
inductive WcbState
  | closed | listen | syning | synSent | synReceived | finWait1 | closing | finWait2
  | established | closeWait | timeWait | lastAck | recycle
deriving DecidableEq

/-- The assertions (and one throw) of the modelled functions, one constructor each. -/
inductive Fault
  | sackEmpty -- `check_recv`: `pack->data != NULL && pack->data->len()` of a SACK
  | sackShort -- `packet::read<u32_t>`: `sizeof(T) <= len()`
  | heldBelowNext -- `check_recv`: `(*it)->header.seq >= rcv_info.next`
  | dataNotDat -- `check_recv`: a pack with payload has `WCP_FLAG_DAT`
  | dataSynFin -- `check_recv`: a pack with payload has neither `WCP_FLAG_SYN` nor `WCP_FLAG_FIN`
  | ackRemoteNull -- `check_recv`, `SYN_SENT`: `!remote_addr.is_null()`
  | ackRemoteOther -- `check_recv`, `SYN_SENT`: `remote_addr == inpack->from`
  | ackState -- `check_recv`: "wcp state logic issue"
  | nflightBytes -- `_handle_pack_acked`: `snd_nflight_bytes >= ntotal_bytes`
  | rtoMin -- `check_flights`: `rto >= WCP_RTO_MIN`
  | nflightBytesMax -- `check_flights`: `snd_nflight_bytes_max >= snd_nflight_bytes`
  | seqNotNext -- `check_send`: `pack->header.seq == snd_info.next`
  | seqBelowUna -- `check_send`: `pack->header.seq >= snd_info.una`
  | ctlInSending -- `check_send`: no SACK or keepalive in `snd_sending`
  | finState -- `check_send`: "wcp state logic issue"
  | synState -- `check_send`: `state == WCB_SYNING || state == WCB_SYN_RECEIVED`
  | fuel -- the goto of `check_send` was taken more often than the model allows for
  | sendRemoteNull -- `send_pack`: `!remote_addr.is_null()`
  | connectRemote -- `WCB::connect`: `remote_addr.is_null()`
  | synNotClosed -- `SYN`: `state == WCB_CLOSED`
  | writeNothing -- `bytes_ringbuffer::write`: `s != 0`
  | recvNothing -- `wcp::recv`: `nbytes > 0`
  | recvErrorNoErrno -- `wcp::recv`: `wcb_errno != 0` after a receive error
  | recvErrno -- `wcp::recv`: `wcb_errno == 0`
  | closeState -- `WCB::close`: throws "wcp state logic issue"
deriving DecidableEq

/-! ### The two halves of the control block -/

/-- What the sending half did so far. -/
structure SndHist where
  accepted : List Byte := [] -- bytes accepted by `wcp::send`
  numbered : List WcbPack := [] -- packs that took a sequence number, in that order
  flown : List WcbPack := [] -- packs pushed into `snd_flights`, in that order
  sacked : List Nat := [] -- numbers read from received SACKs
  emitted : List Datagram := [] -- packs handed to the network by `send_pack`
  emittedCtl : List Datagram := [] -- those of them that came from `s_sending_ignore_seq_space`

/-- The sending half: `snd_info`, the `snd_` and `s_` fields, the sender's bits of `wcb_flag` and
`s_flag`, and the RTT estimator. -/
structure Snd where
  dsn : Nat
  next : Nat
  una : Nat
  ssthresh : Nat
  cwnd : Nat
  rwnd : Nat
  biggestAck : Nat
  lostDetectedTimer : Nat
  lostBiggestSeq : Nat
  lostCwndForFastRecoveryCompensation : Nat
  lostBiggerThanLostSeqTime : Nat
  timerCwndCongestAvoidance : Nat
  sending : List WcbPack
  nflightBytes : Nat
  nflightBytesMax : Nat
  flights : List WcbPack
  lastRtoTimer : Nat
  sb : BoundedQueue Byte
  sendingStandby : List WcbPack
  sendingIgnoreSeqSpace : List QueuedPack
  biggestSackUpdate : Bool
  unaUpdate : Bool
  fastRecovered : Bool
  cwndSlowStart : Bool
  cwndCongestAvoidance : Bool
  lostDetected : Bool
  firstRttDone : Bool
  localFinSent : Bool
  localWriteShutdowned : Bool
  sendError : Bool
  rto : Nat
  srtt : Nat
  rttvar : Nat
  hist : SndHist

/-- What the receiving half did so far. -/
structure RcvHist where
  consumed : List WcbReceivedPack := [] -- packs for which `rcv_info.next` was advanced, in that order
  returned : List Byte := [] -- bytes returned by `wcp::recv`

/-- The receiving half: `rcv_info`, the `rcv_` and `r_` fields, the bits of `r_flag`, the received
packs and the keepalive counters. -/
structure Rcv where
  wnd : Nat
  next : Nat
  received : List WcbReceivedPack
  receivedVecStandby : List WcbReceivedPack
  sackedPackTmp : List Nat
  rb : BoundedQueue Byte
  rbStandby : BoundedQueue Byte
  timerLastRwndUpdate : Nat
  rwndLessThanMtu : Bool
  rwndMoreThanMtu : Bool
  remoteFinReceived : Bool
  remoteFinReadByUser : Bool
  localReadShutdowned : Bool
  recvError : Bool
  keepaliveTimerLastReceivedPack : Nat
  keepaliveIdle : Nat
  keepaliveInterval : Nat
  keepaliveProbes : Nat
  keepaliveProbesSent : Nat
  hist : RcvHist

/-- The UDP socket and the clock under a connection, as far as one call sees them. -/
structure Sock where
  sendRets : List Int -- results of the following `sendto` calls; `OK` once the list is used up
  connRet : Int -- result of `so->connect`
  clock : Nat → Nat -- `curr_milliseconds()` in `_check_cwnd`, by the sequence number of the pack acknowledged
  rsts : List Datagram -- RST packs replied so far

/-- `WCB`, without the fields of a listener. -/
structure Wcb where
  state : WcbState
  timerState : Nat
  wcbErrno : Int
  nonblock : Bool
  isListener : Bool
  closedCalled : Bool
  remoteAddr : Address
  so : Sock
  snd : Snd
  rcv : Rcv

end Wawo
