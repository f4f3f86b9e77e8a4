import Wawo.Wcp.System

/-!
# `wpoll` (`wcp.hpp`, `wcp.cpp`)

A `wpoll` handle has a list of watches, each for one descriptor. `wpoll_wait` goes through the list of its
handle and reports what is ready; events that do not fit into the result array are parked in
`m_event_pending_queue`, which all handles share, and the next `wpoll_wait` hands them out first. Watches
are shared objects: the queue refers to a watch, and `wpoll_ctl` changes it. They are known by their
numbers, and so are the `wpoll` objects.
-/

namespace Wawo

open Lts

abbrev WpollEvts := BitVec 32

def wpollin : WpollEvts := 0x01#32
def wpollout : WpollEvts := 0x02#32
def wpollerr : WpollEvts := 0x04#32

def eWcpWpollHandleNotExists : Int := -31001

structure WpollWatchEvent where
  fd : Nat
  evts : WpollEvts
  cookie : Nat -- the pointer, 0 for `NULL`
  wcb : Nat

structure WpollEvent where
  fd : Nat
  evts : WpollEvts
  cookie : Nat
deriving DecidableEq

inductive WpollOp
  | add | del
deriving DecidableEq

inductive WpollFault
  | wcp (f : WcpFault)
  | ctlFd -- `wpoll_ctl`: `evt.fd > 0`
  | ctlHandle -- `wpoll_ctl`: `wpoll_handle > 0`
  | ctlNull -- `wpoll_ctl`: `evt.cookie != NULL`
  | ctlCookie -- `wpoll_ctl`: `(*evt_it)->cookie == evt.cookie`
  | waitQueue -- `wpoll_wait`: `m_event_pending_queue.size() == 0`
  | waitReadErrno -- `wpoll_wait`: `wcb_errno != OK`, with `WPOLLIN`
  | waitWriteErrno -- `wpoll_wait`: `wcb_errno != OK`, with `WPOLLOUT`
  | waitListener -- `wpoll_wait`: not `WCB_FLAG_IS_LISTENER`, with `WPOLLOUT`
deriving DecidableEq

/-- The singleton with its `wpoll` part. A handle is an `int`, here by its bits. -/
structure WpollSys where
  wcp : Wcp
  autoIncrementId : BitVec 32
  wpollMap : KeyMap Nat -- from handles to `wpoll` objects
  wpolls : Nat -- `wpoll` objects made so far
  evts : Nat → List Nat -- the watches of a `wpoll` object
  watches : Nat -- watches made so far
  watch : Nat → WpollWatchEvent
  pending : List (WpollEvent × Nat) -- `m_event_pending_queue`, with the numbers of the watches

def WpollSys.start (u : Uninit) : WpollSys where
  wcp := .start u
  autoIncrementId := 1
  wpollMap := []
  wpolls := 0
  evts := fun _ => []
  watches := 0
  watch := fun _ => ⟨0, 0, 0, 0⟩
  pending := []

namespace WpollSys

variable (s : WpollSys)

def setWatch (id : Nat) (w : WpollWatchEvent) : WpollSys := { s with watch := Function.update s.watch id w }

def setEvts (pid : Nat) (l : List Nat) : WpollSys := { s with evts := Function.update s.evts pid l }

/-- `wcp::wpoll_create` -/
def wpollCreate : Int × WpollSys :=
  let id := s.autoIncrementId
  (id.toInt, { s with
    autoIncrementId := id + 1
    wpollMap := s.wpollMap.insert id.toNat s.wpolls
    wpolls := s.wpolls + 1 })

/-- `wcp::wpoll_close` -/
def wpollClose (handle : Nat) : Int × WpollSys :=
  match s.wpollMap.find? handle with
  | none => (eWcpWpollHandleNotExists, s)
  | some _ => (ok, { s with wpollMap := s.wpollMap.erase handle })

/-- The `std::find_if` of `wpoll_ctl`. -/
def findWatch (pid fd : Nat) : Option Nat := (s.evts pid).find? fun id => (s.watch id).fd == fd

/-- `WPOLL_CTL_ADD`; `wcb` is what `m_wcb_map` has for the descriptor. -/
def ctlAdd (pid wcb : Nat) (evt : WpollEvent) : Except WpollFault (Int × WpollSys) :=
  if evt.cookie = 0 then .error .ctlNull
  else
    match s.findWatch pid evt.fd with
    | some id =>
      let w := s.watch id
      if w.cookie ≠ evt.cookie then .error .ctlCookie
      else .ok (ok, s.setWatch id { w with evts := w.evts ||| evt.evts })
    | none =>
      let s' := (s.setWatch s.watches ⟨evt.fd, evt.evts, evt.cookie, wcb⟩).setEvts pid (s.evts pid ++ [s.watches])
      .ok (ok, { s' with watches := s.watches + 1 })

/-- `WPOLL_CTL_DEL` -/
def ctlDel (pid : Nat) (evt : WpollEvent) : Int × WpollSys :=
  match s.findWatch pid evt.fd with
  | none => (eBadf, s)
  | some id =>
    let w := { s.watch id with evts := (s.watch id).evts &&& ~~~evt.evts }
    let s' := s.setWatch id w
    (ok, if w.evts = 0 then s'.setEvts pid ((s.evts pid).erase id) else s')

/-- `wcp::wpoll_ctl` -/
def wpollCtl (handle : Nat) (op : WpollOp) (evt : WpollEvent) : Except WpollFault (Int × WpollSys) :=
  if evt.fd = 0 then .error .ctlFd
  else if ¬ (0 < handle ∧ handle < 2 ^ 31) then .error .ctlHandle
  else
    match s.wpollMap.find? handle with
    | none => .ok (eWcpWpollHandleNotExists, s)
    | some pid =>
      match s.wcp.wcbMap.find? evt.fd with
      | none => .ok (eBadf, s)
      | some wcb =>
        match op with
        | .add => s.ctlAdd pid wcb evt
        | .del => .ok (s.ctlDel pid evt)

/-! ### `wpoll_wait` -/

/-- The loop over `m_event_pending_queue`: the events handed out, behind `out`, and what is left. -/
def drain (size : Nat) : List (WpollEvent × Nat) → List WpollEvent → List WpollEvent × List (WpollEvent × Nat)
  | [], out => (out, [])
  | (evt, id) :: rest, out =>
    if out.length < size then drain size rest (if (s.watch id).evts ≠ 0 then out ++ [evt] else out)
    else (out, (evt, id) :: rest)

/-- What a watch for `WPOLLIN` reports. -/
def readEvts (o : WcbObj) : Except WpollFault WpollEvts :=
  let ready :=
    if o.conn.isListener then o.backlogq ≠ []
    else o.conn.rcv.rb.count ≠ 0 ∨ (o.conn.rcv.remoteFinReceived ∧ ¬ o.conn.rcv.remoteFinReadByUser)
  let evts := if ready then wpollin else 0
  if o.conn.rcv.recvError ∨ o.conn.rcv.localReadShutdowned then
    if o.conn.wcbErrno = ok then .error .waitReadErrno else .ok (evts ||| wpollerr)
  else .ok evts

/-- What a watch for `WPOLLOUT` reports, and whether it stays one. -/
def writeEvts (o : WcbObj) : Except WpollFault (WpollEvts × Bool) :=
  if o.conn.isListener then .error .waitListener
  else if o.conn.snd.localWriteShutdowned ∨ o.conn.snd.sendError then
    if o.conn.wcbErrno = ok then .error .waitWriteErrno else .ok (wpollerr, false)
  else .ok (if o.conn.state = .established ∧ o.conn.snd.sb.leftCapacity > wcpMdu * 2 then wpollout else 0, true)

/-- The `WPOLLOUT` part of a watch: the events to report and the watch afterwards. -/
def pollOut (w : WpollWatchEvent) (o : WcbObj) : Except WpollFault (WpollEvts × WpollWatchEvent) :=
  if w.evts &&& wpollout ≠ 0 then
    match writeEvts o with
    | .error f => .error f
    | .ok (evts, keep) => .ok (evts, if keep then w else { w with evts := w.evts &&& ~~~wpollout })
  else .ok (0, w)

/-- One watch: the events to report and the watch afterwards. -/
def poll (w : WpollWatchEvent) (o : WcbObj) : Except WpollFault (WpollEvts × WpollWatchEvent) :=
  match if w.evts &&& wpollin ≠ 0 then readEvts o else .ok 0 with
  | .error f => .error f
  | .ok evts =>
    match pollOut w o with
    | .error f => .error f
    | .ok (out, w) => .ok (if o.conn.wcbErrno ≠ 0 then evts ||| out ||| wpollerr else evts ||| out, w)

/-- Where the loop over the watches has got to: the events handed out. -/
structure Scan where
  sys : WpollSys
  out : List WpollEvent

/-- One round of the loop over the watches of `pid`. -/
def scanOne (size pid : Nat) (c : Scan) (id : Nat) : Except WpollFault Scan :=
  let s := c.sys
  let w := s.watch id
  let o := s.wcp.obj w.wcb
  if o.conn.state = .recycle then .ok { c with sys := s.setEvts pid ((s.evts pid).erase id) }
  else
    match poll w o with
    | .error f => .error f
    | .ok (evts, w') =>
      let s := s.setWatch id w'
      let evt : WpollEvent := ⟨w.fd, evts, w.cookie⟩
      if evts = 0 then .ok ⟨s, c.out⟩
      else if c.out.length < size then .ok ⟨s, c.out ++ [evt]⟩
      else .ok ⟨{ s with pending := s.pending ++ [(evt, id)] }, c.out⟩

/-- `wcp::wpoll_wait`: the return value, the events in the result array and the state afterwards. -/
def wpollWait (handle size : Nat) : Except WpollFault (Int × List WpollEvent × WpollSys) :=
  match s.wpollMap.find? handle with
  | none => .ok (eWcpWpollHandleNotExists, [], s)
  | some pid =>
    let (out, rest) := s.drain size s.pending []
    let s := { s with pending := rest }
    if out ≠ [] then .ok (out.length, out, s)
    else if rest ≠ [] then .error .waitQueue
    else
      match (s.evts pid).foldlM (scanOne size pid) ⟨s, []⟩ with
      | .error f => .error f
      | .ok c => .ok (c.out.length, c.out, c.sys)

end WpollSys

inductive WpollCall
  | sys (e : SysEvent)
  | create
  | close (handle : Nat)
  | ctl (handle : Nat) (op : WpollOp) (evt : WpollEvent)
  | wait (handle size : Nat)

def wpollStep : WpollCall → WpollSys → Except WpollFault WpollSys
  | .sys e, s =>
    match sysStep e s.wcp with
    | .error f => .error (.wcp f)
    | .ok t => .ok { s with wcp := t }
  | .create, s => .ok s.wpollCreate.2
  | .close handle, s => .ok (s.wpollClose handle).2
  | .ctl handle op evt, s => (s.wpollCtl handle op evt).map Prod.snd
  | .wait handle size, s => (s.wpollWait handle size).map fun r => r.2.2

end Wawo
