import Wawo.Lib.KeyMap
import Wawo.Wcp.Api

/-!
# The `wcp` singleton and its listeners (`wcp.hpp`, `wcp.cpp`)

The control blocks of a process and the tables that hold them: `m_wcb_create_pending_map` for those
`socket` has made, `m_wcb_map` for those that are connected, listening or accepted, the queue `m_ops` on
the way to it, the backlog of each listener and the table of four-tuple hashes. A control block is known
by its number in `obj`; the maps hold these numbers, as the source's hold pointers.

`SysEvent` cuts the work of a tick (`_execute_ops`, `_update`) into the rounds of its loops: one queued
operation, one `WCB::update`, one pack of `listen_handle_syn`, one pending connection of a listener, one
control block to delete. A tick is a run of such events.
-/

namespace Wawo

open Lts

/-! ### Addresses -/

/-- `ntohs`, on a little-endian machine -/
def ntohs (n : Nat) : Nat := n % 2 ^ 8 * 2 ^ 8 + n / 2 ^ 8 % 2 ^ 8

/-- `ntohl`, on a little-endian machine -/
def ntohl (n : Nat) : Nat := ntohs (n % 2 ^ 16) * 2 ^ 16 + ntohs (n / 2 ^ 16)

def Address.hostsequencePort (a : Address) : Nat := ntohs (a.identity % 2 ^ 16)
def Address.hostsequenceUlongip (a : Address) : Nat := ntohl (a.identity / 2 ^ 16 % 2 ^ 32)

def fourTupleHash (addr1 addr2 : Address) : Nat :=
  u32 (addr1.hostsequenceUlongip * 59) ^^^ addr2.hostsequenceUlongip ^^^
    u32 (addr1.hostsequencePort <<< 16) ^^^ addr2.hostsequencePort

/-! ### The state -/

def wcpFdMax : Nat := 2048
def eBadf : Int := -9
def eMfile : Int := -24
def eOpnotsupp : Int := -95
def eAddrinuse : Int := -98
def eInprogress : Int := -115
def eWcpInternalError : Int := -31000

/-- `make_wcb_fd` for the value of the counter before the increment; `%` truncates. -/
def makeWcbFd (counter : BitVec 32) : Nat := (counter.toInt.tmod wcpFdMax + 0xFFFFFF).toNat

/-- A control block with the fields that only the singleton and a listener use. The last three are
history: how many descriptors were issued before this one, for whom a listener made it, and the RST packs
that `listen_handle_syn` has replied. -/
structure WcbObj where
  fd : Nat
  fourTupleHashId : Nat
  passiveOpen : Bool
  localAddr : Address
  backlogSize : Nat
  backlogq : List Nat
  backloglistPending : List Nat
  conn : Wcb
  birth : Nat
  origin : Option (Nat × Address) -- the listener and the sender of the SYN
  rsts : List (Address × Datagram)

/-- `class wcp`, running -/
structure Wcp where
  autoIncrementId : BitVec 32
  allocated : Nat -- the control blocks made so far are `obj 0`, …, `obj (allocated - 1)`
  obj : Nat → WcbObj
  createPendingMap : KeyMap Nat
  wcbMap : KeyMap Nat
  fourTupleMap : KeyMap Nat
  ops : List Nat -- `m_ops`, of which every entry is an `OP_WATCH`
  issued : Nat -- history: the descriptors issued so far

inductive WcpFault
  | wcb (f : Fault) -- an assertion of the control block
  | hashZero -- `add_to_four_tuple_hash_map`: `wcb->four_tuple_hash_id != 0`
  | listenState -- `WCB::listen`: `state == WCB_CLOSED`
  | backlogFull -- `WCB::update`: `backlogq.size() <= backlog_size`
  | pendingState -- `WCB::update`: throws "wcp logic issue"
  | recycleHash -- `remove_from_four_tuple_hash_map`: `wcb->four_tuple_hash_id != 0`
deriving DecidableEq

/-- Where the process starts. -/
def Wcp.start (u : Uninit) : Wcp where
  autoIncrementId := 1
  allocated := 0
  obj := fun _ =>
    { fd := 0, fourTupleHashId := 0, passiveOpen := false, localAddr := ⟨0⟩, backlogSize := 128, backlogq := []
      backloglistPending := [], conn := Wcb.init u 0 wcpRcvWndDefault wcpSndWndDefault, birth := 0
      origin := none, rsts := [] }
  createPendingMap := []
  wcbMap := []
  fourTupleMap := []
  ops := []
  issued := 0

namespace Wcp

variable (s : Wcp)

def nextFd : Nat := makeWcbFd s.autoIncrementId

/-- `make_wcb_fd` increments the counter. -/
def issue : Wcp := { s with autoIncrementId := s.autoIncrementId + 1, issued := s.issued + 1 }

def setObj (id : Nat) (o : WcbObj) : Wcp := { s with obj := Function.update s.obj id o }

def setConn (id : Nat) (w : Wcb) : Wcp := s.setObj id { s.obj id with conn := w }

/-- A new control block. -/
def alloc (o : WcbObj) : Wcp :=
  { s with obj := Function.update s.obj s.allocated o, allocated := s.allocated + 1 }

/-! ### User calls -/

/-- `wcp::socket`; `openRt` is the outcome of opening the UDP socket. -/
def socket (openRt : Int) (u : Uninit) (now : Nat) : Int × Wcp :=
  if openRt ≠ ok then (openRt, s)
  else
    let fd := s.nextFd
    let o : WcbObj :=
      { fd := fd, fourTupleHashId := 0, passiveOpen := false, localAddr := ⟨0⟩, backlogSize := 128, backlogq := []
        backloglistPending := [], conn := Wcb.init u now wcpRcvWndDefault wcpSndWndDefault, birth := s.issued
        origin := none, rsts := [] }
    if (s.createPendingMap.find? fd).isSome then (eWcpInternalError, s.issue)
    else (fd, { s.issue.alloc o with createPendingMap := s.createPendingMap.insert fd s.allocated })

/-- `wcp::connect`; `nbRt` is the outcome of `turnon_nonblocking`. -/
def connect (fd : Nat) (addr : Address) (now : Nat) (nbRt : Int) : Except WcpFault (Int × Wcp) :=
  match s.createPendingMap.find? fd with
  | none => .ok (eBadf, s)
  | some id =>
    if nbRt ≠ ok then .ok (nbRt, s)
    else
      match Wawo.connect addr now (s.obj id).conn with
      | .error f => .error (.wcb f)
      | .ok w =>
        .ok (eInprogress, { s.setConn id w with
          createPendingMap := s.createPendingMap.erase fd, wcbMap := s.wcbMap.insert fd id })

/-- `wcp::bind` -/
def bind (fd : Nat) (addr : Address) (rt : Int) : Int × Wcp :=
  match s.createPendingMap.find? fd with
  | none => (eBadf, s)
  | some id =>
    let o := { s.obj id with localAddr := addr }
    if rt ≠ ok then (rt, s.setObj id { o with conn := { o.conn with wcbErrno := rt } })
    else (ok, s.setObj id o)

/-- `wcp::listen`; a failed `so->listen` makes the call return the `OK` of `turnon_nonblocking`. -/
def listen (fd backlog : Nat) (nbRt udpRt : Int) : Except WcpFault (Int × Wcp) :=
  match s.createPendingMap.find? fd with
  | none => .ok (eBadf, s)
  | some id =>
    if nbRt ≠ ok ∨ udpRt ≠ ok then .ok (nbRt, s)
    else
      let o := s.obj id
      if o.localAddr.isNull then .ok (eOpnotsupp, s)
      else if o.conn.state ≠ .closed then .error .listenState
      else
        .ok (ok, { s.setObj id { o with
            backlogSize := u32 backlog, conn := { o.conn with state := .listen, isListener := true } } with
          createPendingMap := s.createPendingMap.erase fd, wcbMap := s.wcbMap.insert fd id })

/-- `wcp::accept` -/
def accept (fd : Nat) : Int × Wcp :=
  match s.wcbMap.find? fd with
  | none => (eBadf, s)
  | some id =>
    let o := s.obj id
    if o.conn.rcv.recvError ∨ o.conn.rcv.localReadShutdowned then
      (if o.conn.wcbErrno ≠ 0 then o.conn.wcbErrno else eConnaborted, s)
    else
      match o.backlogq with
      | [] => (eWouldblock, s)
      | a :: rest => ((s.obj a).fd, s.setObj id { o with backlogq := rest })

/-- `wcp::close` -/
def close (fd : Nat) : Except WcpFault (Int × Wcp) :=
  match s.wcbMap.find? fd with
  | some id =>
    match Wawo.close (s.obj id).conn with
    | .error f => .error (.wcb f)
    | .ok (rt, w) => .ok (rt, s.setConn id w)
  | none =>
    match s.createPendingMap.find? fd with
    | none => .ok (eBadf, s)
    | some id =>
      match Wawo.close (s.obj id).conn with
      | .error f => .error (.wcb f)
      | .ok (rt, w) => .ok (rt, { s.setConn id w with createPendingMap := s.createPendingMap.erase fd })

/-- The calls that reach one connection through `m_wcb_map`: `send`, `recv`, `shutdown` and
`fcntl_setfl`. A listener is not shut down. -/
def call (fd : Nat) (e : Event) : Except WcpFault Wcp :=
  match s.wcbMap.find? fd with
  | none => .ok s
  | some id =>
    match e with
    | .send _ | .recv _ | .setfl _ =>
      match step e (s.obj id).conn with
      | .error f => .error (.wcb f)
      | .ok w => .ok (s.setConn id w)
    | .shutdown how =>
      if (s.obj id).conn.isListener then .ok s else .ok (s.setConn id (shutdown how (s.obj id).conn).2)
    | _ => .ok s

/-! ### `listen_handle_syn` -/

/-- The outcomes of the calls on the socket of an accepted connection, in the order of
`listen_handle_syn`, and what `get_local_addr` returns. -/
structure AcceptRets where
  rets : List Int -- `open`, `reuse_addr`, `reuse_port`, `bind`, `connect`, `turnon_nonblocking`
  localAddr : Address
  uninit : Uninit
  now : Nat

/-- `set_rcv_buffer_size(get_rcv_buffer_size())`: the capacity that a buffer of this capacity hands on. -/
def inheritCapacity (capacity lo hi : Nat) : Nat := 2 * max (min (capacity / 2) hi) lo

/-- `reply_rst_to_address(so, pack->header.ack, from)` -/
def replyRst (lid : Nat) (p : WcbReceivedPack) : Wcp :=
  let o := s.obj lid
  s.setObj lid { o with rsts := o.rsts ++ [(p.fromAddr, .fresh p.header.ack .rst [] (Nat.zero_le _))] }

/-- The control block that `listen_handle_syn` makes for a SYN. -/
def passiveObj (lid : Nat) (r : AcceptRets) (p : WcbReceivedPack) : WcbObj :=
  let o := s.obj lid
  { fd := s.nextFd
    fourTupleHashId := fourTupleHash o.localAddr p.fromAddr
    passiveOpen := true
    localAddr := r.localAddr
    backlogSize := 128
    backlogq := []
    backloglistPending := []
    conn := synRcvd p (Wcb.init r.uninit r.now
      (inheritCapacity o.conn.rcv.rb.capacity wcpRcvBufferMin wcpRcvBufferMax)
      (inheritCapacity o.conn.snd.sb.capacity wcpSndBufferMin wcpSndBufferMax))
    birth := s.issued
    origin := some (lid, p.fromAddr)
    rsts := [] }

/-- `add_to_four_tuple_hash_map` -/
def addToFourTupleHashMap (hash id : Nat) : Except WcpFault (Int × KeyMap Nat) :=
  if hash = 0 then .error .hashZero
  else if s.fourTupleMap.length ≥ wcpFdMax then .ok (eMfile, s.fourTupleMap)
  else if (s.fourTupleMap.find? hash).isSome then .ok (eAddrinuse, s.fourTupleMap)
  else .ok (ok, s.fourTupleMap.insert hash id)

/-- One round of the loop of `listen_handle_syn`. -/
def handleSyn (lid : Nat) (r : AcceptRets) (p : WcbReceivedPack) : Except WcpFault Wcp :=
  let o := s.obj lid
  if o.backlogq.length + o.backloglistPending.length = o.backlogSize then .ok (s.replyRst lid p)
  else if p.testFlag .rst then .ok s
  else if ¬ p.testFlag .syn then .ok (s.replyRst lid p)
  else if r.rets.any (· ≠ ok) then .ok (s.replyRst lid p)
  else
    match s.addToFourTupleHashMap (fourTupleHash o.localAddr p.fromAddr) s.allocated with
    | .error f => .error f
    | .ok (rt, m) =>
      if rt < 0 then .ok (s.issue.replyRst lid p)
      else
        let t := s.issue.alloc (s.passiveObj lid r p)
        .ok { t.setObj lid { t.obj lid with backloglistPending := (t.obj lid).backloglistPending ++ [s.allocated] } with
          fourTupleMap := m, ops := s.ops ++ [s.allocated] }

/-- `WCB::listen_handle_syn` on a batch; `rs` are the outcomes for its packs. -/
def listenHandleSyn (lid : Nat) : List (AcceptRets × WcbReceivedPack) → Wcp → Except WcpFault Wcp
  | [], s => .ok s
  | (r, p) :: batch, s => do
    let s ← s.handleSyn lid r p
    listenHandleSyn lid batch s

/-! ### Ticks -/

/-- A round of `_execute_ops`. -/
def executeOp : Wcp :=
  match s.ops with
  | [] => s
  | id :: rest => { s with ops := rest, wcbMap := s.wcbMap.insert (s.obj id).fd id }

/-- `WCB::update` of a connection. -/
def updateConn (id : Nat) (t : Tick) : Except WcpFault Wcp :=
  match step (.update t) (s.obj id).conn with
  | .error f => .error (.wcb f)
  | .ok w => .ok (s.setConn id w)

/-- A round of the loop over `backloglist_pending`, behind the `update` of the connection `id`. -/
def settlePending (lid id : Nat) : Except WcpFault Wcp :=
  let o := s.obj lid
  match (s.obj id).conn.state with
  | .established =>
    if o.backlogq.length ≤ o.backlogSize then
      .ok (s.setObj lid { o with backlogq := o.backlogq ++ [id], backloglistPending := o.backloglistPending.erase id })
    else .error .backlogFull
  | .closeWait | .closed =>
    match Wawo.close (s.obj id).conn with
    | .error f => .error (.wcb f)
    | .ok (_, w) =>
      let s := s.setConn id w
      .ok (s.setObj lid { s.obj lid with backloglistPending := o.backloglistPending.erase id })
  | .synReceived => .ok s
  | _ => .error .pendingState

/-- The end of `_update` for a control block that `WCB::update` has left in `WCB_RECYCLE`. -/
def recycle (id : Nat) : Except WcpFault Wcp :=
  let o := s.obj id
  if o.passiveOpen ∧ o.fourTupleHashId = 0 then .error .recycleHash
  else
    .ok { s with
      fourTupleMap := if o.passiveOpen then s.fourTupleMap.erase o.fourTupleHashId else s.fourTupleMap
      wcbMap := s.wcbMap.erase o.fd }

/-- A connection whose `WCB::update` is called in a tick: it is in `m_wcb_map`, or pending at a listener
that is. -/
def ticks (id : Nat) : Bool :=
  id ∈ s.wcbMap.vals ∨ s.wcbMap.vals.any fun lid => id ∈ (s.obj lid).backloglistPending

/-- A control block whose socket may be read: `begin_async_read` stands behind the insertion into
`m_wcb_map`, whether or not the place there was free. -/
def watched (id : Nat) : Bool :=
  id < s.allocated ∧ id ∉ s.createPendingMap.vals ∧ id ∉ s.ops

/-- A listener that is open. -/
def listening (lid : Nat) : Bool :=
  lid ∈ s.wcbMap.vals ∧ (s.obj lid).conn.state = .listen

end Wcp

inductive SysEvent
  | socket (openRt : Int) (u : Uninit) (now : Nat)
  | bind (fd : Nat) (addr : Address) (rt : Int)
  | connect (fd : Nat) (addr : Address) (now : Nat) (nbRt : Int)
  | listen (fd backlog : Nat) (nbRt udpRt : Int)
  | accept (fd : Nat)
  | close (fd : Nat)
  | call (fd : Nat) (e : Event)
  | arrive (id : Nat) (p : WcbReceivedPack) -- `pump_packs`
  | executeOp
  | update (id : Nat) (t : Tick)
  | handleSyn (lid : Nat) (r : Wcp.AcceptRets) -- the first pack that waits at the listener
  | settle (lid id : Nat)
  | recycle (id : Nat)

/-- One step of the process; an event that the tables do not allow for changes nothing. -/
def sysStep : SysEvent → Wcp → Except WcpFault Wcp
  | .socket openRt u now, s => .ok (s.socket openRt u now).2
  | .bind fd addr rt, s => .ok (s.bind fd addr rt).2
  | .connect fd addr now nbRt, s => (s.connect fd addr now nbRt).map Prod.snd
  | .listen fd backlog nbRt udpRt, s => (s.listen fd backlog nbRt udpRt).map Prod.snd
  | .accept fd, s => .ok (s.accept fd).2
  | .close fd, s => (s.close fd).map Prod.snd
  | .call fd e, s => s.call fd e
  | .arrive id p, s => .ok (if s.watched id then s.setConn id (arrive p (s.obj id).conn) else s)
  | .executeOp, s => .ok s.executeOp
  | .update id t, s => if s.ticks id ∧ (s.obj id).conn.state ≠ .listen then s.updateConn id t else .ok s
  | .handleSyn lid r, s =>
    match (s.obj lid).conn.rcv.receivedVecStandby with
    | [] => .ok s
    | p :: rest =>
      if s.listening lid ∧ ¬ (s.obj lid).conn.rcv.localReadShutdowned then
        (s.setConn lid { (s.obj lid).conn with
          rcv := { (s.obj lid).conn.rcv with receivedVecStandby := rest } }).handleSyn lid r p
      else .ok s
  | .settle lid id, s =>
    if s.listening lid ∧ id ∈ (s.obj lid).backloglistPending then s.settlePending lid id else .ok s
  | .recycle id, s => if id ∈ s.wcbMap.vals ∧ (s.obj id).conn.state = .recycle then s.recycle id else .ok s

end Wawo
