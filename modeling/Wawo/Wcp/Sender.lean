import Wawo.Wcp.Api

/-!
# The sending half as an abstract machine

`Sender` is what the invariants of the sending half talk about: the sequence counters, the queues a
pack passes through, the bytes in flight and the history. `Sender.Step` says once what can happen
to it; the functions of `check_recv`, `check_flights` and `check_send` and the user calls are
simulated by such steps (`step_sim` at the end), and `Sender.Faulty` says in which abstract state
each assertion of the sending side can fail. An invariant of the sending half is then one case
analysis over `Sender.Step`.

The parameter of `Step`, a `Mode`, says whose step it is and what is known of the packs that come in
and go out.
-/

namespace Wawo

open Lts Relation

structure Sender where
  dsn : Nat
  next : Nat
  una : Nat
  cwnd : Nat
  sending : List WcbPack
  standby : List WcbPack
  flights : List WcbPack
  ctl : List QueuedPack
  sb : List Byte
  nflight : Nat
  nflightMax : Nat
  unaUpdate : Bool
  writeShut : Bool
  hist : SndHist

def Snd.sender (s : Snd) : Sender where
  dsn := s.dsn
  next := s.next
  una := s.una
  cwnd := s.cwnd
  sending := s.sending
  standby := s.sendingStandby
  flights := s.flights
  ctl := s.sendingIgnoreSeqSpace
  sb := s.sb.items
  nflight := s.nflightBytes
  nflightMax := s.nflightBytesMax
  unaUpdate := s.unaUpdate
  writeShut := s.localWriteShutdowned
  hist := s.hist

/-- `check_send` is about to call `update_rwnd`. -/
def BareWndDue (now : Nat) (w : Wcb) : Prop :=
  w.snd.sendError = false ∧ rwndUpdateDue now w = true ∧ w.snd.sendingIgnoreSeqSpace = []

instance (now : Nat) (w : Wcb) : Decidable (BareWndDue now w) := inferInstanceAs (Decidable (_ ∧ _))

namespace Sender

/-- A pack takes the number `dsn` and goes to the standby queue. -/
def number (s : Sender) (flag : WcpFlag) : Sender :=
  let p : WcbPack := ⟨.fresh s.dsn flag [] (Nat.zero_le _), 0, 0⟩
  { s with
    dsn := u32 (s.dsn + 1), standby := s.standby ++ [p]
    hist := { s.hist with numbered := s.hist.numbered ++ [p] } }

/-- A pack of user data takes the number `dsn` and goes to the sending queue. -/
def package (s : Sender) : Sender :=
  let p : WcbPack := ⟨.fresh s.dsn (.dat ||| .ack) (s.sb.take wcpMdu) (List.length_take_le _ _), 0, 0⟩
  { s with
    dsn := u32 (s.dsn + 1), sb := s.sb.drop wcpMdu, sending := s.sending ++ [p]
    hist := { s.hist with numbered := s.hist.numbered ++ [p] } }

/-- The pack `q` is in flight and `sending` is what is left to send. -/
def launch (s : Sender) (q : WcbPack) (sending : List WcbPack) (d : Datagram) : Sender :=
  let nflight := u32 (s.nflight + q.totalBytes)
  { s with
    sending := sending, flights := s.flights ++ [q], nflight := nflight
    nflightMax := if nflight > s.nflightMax then nflight else s.nflightMax
    next := u32 (s.next + 1)
    hist := { s.hist with flown := s.hist.flown ++ [q], emitted := s.hist.emitted ++ [d] } }

/-- Who makes a step of the sender. -/
inductive Actor
  | user | recv | flights | send
deriving DecidableEq

structure Mode where
  actor : Actor
  stamp : Nat -- the `ack` of the packs emitted
  acks : Nat → Prop -- what the packs received may acknowledge
  bareWnd : Bool -- `update_rwnd` is among the steps

/-- The packs that `SACK`, `keepalive`, `keepalive_reply` and `update_rwnd` queue; the last one only
when the queue is empty. -/
inductive Ctl (m : Mode) (s : Sender) : Datagram → Prop
  | sack (l : List Nat) (hl : l ≠ []) (h : (l.flatMap writeU32).length ≤ wcpMdu) :
      Ctl m s (.fresh s.dsn .sack (l.flatMap writeU32) h)
  | keepalive : Ctl m s (.fresh s.dsn .keepAlive [] (Nat.zero_le _))
  | keepaliveReply : Ctl m s (.fresh s.dsn .keepAliveReply [] (Nat.zero_le _))
  | wnd (h : s.ctl = []) (hm : m.bareWnd = true) : Ctl m s (.fresh s.dsn .wnd [] (Nat.zero_le _))

/-- `pack->header.flag |= WCP_FLAG_WND` -/
def withWnd (d : Datagram) : Datagram := { d with header := { d.header with flag := d.header.flag ||| .wnd } }

/-- What can happen to the sending half. -/
inductive Step (m : Mode) (s : Sender) : Sender → Prop
  | ackUna (a : Nat) (h : s.una < a) (ha : m.acks a) : Step m s { s with una := a, unaUpdate := true }
  | clearUna : Step m s { s with unaUpdate := false }
  | setCwnd (c : Nat) (h : c ≤ wcpSndCwndMax) : Step m s { s with cwnd := c }
  | setNflightMax (k : Nat) (h : s.nflight ≤ k) : Step m s { s with nflightMax := k }
  | nameSacked (l : List Nat) : Step m s { s with hist := { s.hist with sacked := s.hist.sacked ++ l } }
  | dropFlight (pre : List WcbPack) (p : WcbPack) (post : List WcbPack) (hf : s.flights = pre ++ p :: post)
      (h : p.seq ∈ s.hist.sacked ∨ p.seq < s.una) (hb : p.totalBytes ≤ s.nflight) (hm : m.actor ≠ .send) :
      Step m s { s with flights := pre ++ post, nflight := s.nflight - p.totalBytes }
  | restampFlight (pre : List WcbPack) (p q : WcbPack) (post : List WcbPack) (hf : s.flights = pre ++ p :: post)
      (hq : q.content = p.content) : Step m s { s with flights := pre ++ q :: post }
  | emitFlight (p : WcbPack) (wnd : Nat) (hp : p ∈ s.flights) :
      Step m s { s with hist := { s.hist with emitted := s.hist.emitted ++ [p.stamp m.stamp wnd] } }
  | pushCtl (d : Datagram) (dup : Nat) (h : Ctl m s d) : Step m s { s with ctl := s.ctl ++ [⟨d, dup⟩] }
  | mergeWnd (q : QueuedPack) (rest : List QueuedPack) (h : s.ctl = q :: rest) :
      Step m s { s with ctl := { q with pack := withWnd q.pack } :: rest }
  | emitCtl (q : QueuedPack) (rest : List QueuedPack) (wnd : Nat) (h : s.ctl = q :: rest) :
      Step m s { s with
        ctl := popIgnoreSeqSpace s.ctl
        hist := { s.hist with
          emitted := s.hist.emitted ++ [q.pack.stamp m.stamp wnd]
          emittedCtl := s.hist.emittedCtl ++ [q.pack.stamp m.stamp wnd] } }
  | number (flag : WcpFlag) (h : flag ∈ [WcpFlag.syn, .ack, .syn ||| .ack]) (hm : m.actor = .user ∨ m.actor = .recv) :
      Step m s (s.number flag)
  | shutFin (h : s.writeShut = false) (hm : m.actor = .user) : Step m s { s.number .fin with writeShut := true }
  | shut (hm : m.actor = .user) : Step m s { s with writeShut := true }
  | moveStandby : Step m s { s with sending := s.sending ++ s.standby, standby := [] }
  | package (h : s.sb ≠ []) (hs : s.standby = []) (hm : m.actor = .send) : Step m s s.package
  | restampSending (p q : WcbPack) (rest : List WcbPack) (h : s.sending = p :: rest) (hq : q.content = p.content) :
      Step m s { s with sending := q :: rest }
  | launch (p q : WcbPack) (rest : List WcbPack) (wnd : Nat) (h : s.sending = p :: rest)
      (hq : q.content = p.content) (hn : p.seq = s.next) (hu : s.una ≤ p.seq)
      (hw : u32 (p.totalBytes + s.nflight) < s.cwnd) (hf : p.testFlag .fin = false) (hm : m.actor = .send) :
      Step m s (s.launch q rest (p.stamp m.stamp wnd))
  | launchFin (p q : WcbPack) (rest : List WcbPack) (wnd : Nat) (h : s.sending = p :: rest)
      (hq : q.content = p.content) (hn : p.seq = s.next) (hu : s.una ≤ p.seq)
      (hw : u32 (p.totalBytes + s.nflight) < s.cwnd) (hf : p.testFlag .fin = true) (hm : m.actor = .send) :
      Step m s (s.launch q (q :: rest) (p.stamp m.stamp wnd))
  | accept (bs : List Byte) (h : s.writeShut = false) (hm : m.actor = .user) :
      Step m s { s with sb := s.sb ++ bs, hist := { s.hist with accepted := s.hist.accepted ++ bs } }

/-- The mode in which nothing is known of the packs received. -/
def Mode.any (actor : Actor) (stamp : Nat) : Mode := ⟨actor, stamp, fun _ => True, true⟩

/-- A step of whatever mode. -/
def Move (s s' : Sender) : Prop := ∃ m, Step m s s'

/-- The abstract states in which an assertion of the sending half can fail; the other assertions
are not restricted. -/
def Faulty : Fault → Sender → Prop
  | .nflightBytes, s => ∃ p ∈ s.flights, s.nflight < p.totalBytes
  | .nflightBytesMax, s => s.nflightMax < s.nflight
  | .seqNotNext, s => ∃ p rest, s.sending = p :: rest ∧ p.seq ≠ s.next
  | .seqBelowUna, s => ∃ p rest, s.sending = p :: rest ∧ p.seq = s.next ∧ p.seq < s.una
  | .ctlInSending, s => ∃ p ∈ s.sending, p.testFlag (.sack ||| .keepAlive ||| .keepAliveReply)
  | .finState, s => ∃ p ∈ s.sending, p.testFlag .fin
  | .synState, s => ∃ p ∈ s.sending, p.testFlag .syn
  | _, _ => True

theorem pack_of_mem_pop {l : List QueuedPack} {q : QueuedPack} (h : q ∈ popIgnoreSeqSpace l) :
    ∃ q' ∈ l, q'.pack = q.pack := by
  unfold popIgnoreSeqSpace at h
  split at h
  · cases h
  · exact ⟨q, by simp [h], rfl⟩
  · rename_i p dup rest
    rcases List.mem_cons.1 h with rfl | h
    · exact ⟨_, List.mem_cons_self, rfl⟩
    · exact ⟨q, by simp [h], rfl⟩

/-- Numbers are taken for good. -/
theorem Step.numbered_append {m : Mode} {s s' : Sender} (hs : Step m s s') :
    ∃ l, s'.hist.numbered = s.hist.numbered ++ l := by
  cases hs with
  | number flag _ => exact ⟨_, rfl⟩
  | shutFin _ _ => exact ⟨_, rfl⟩
  | package _ _ => exact ⟨_, rfl⟩
  | _ => exact ⟨[], (List.append_nil _).symm⟩

/-- Only `check_send` transmits. -/
theorem Step.flown_eq {m : Mode} {s s' : Sender} (hs : Step m s s') (hm : m.actor ≠ .send) :
    s'.hist.flown = s.hist.flown := by
  cases hs with
  | launch _ _ _ _ _ _ _ _ _ _ h => exact absurd h hm
  | launchFin _ _ _ _ _ _ _ _ _ _ h => exact absurd h hm
  | _ => rfl

end Sender
end Wawo
