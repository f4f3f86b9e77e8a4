import Wawo.Wcp.Eof
import Wawo.Wcp.States
import Wawo.Wcp.Datagrams

/-!
# The sections of the threads of a connection

A call of `recv` holds `r_mutex`, so it can come in between any two sections of the other threads that
hold it or write what it reads. `part` cuts their work at these points: the two writes of `pump_packs` and
of `close`, the rounds of `check_recv`, and what `WCB::update` does around its checks. Ticks, `close` and
`pump_packs` are runs of such parts (`update_parts`, `close_run`, `pumpPacks_run`).
-/

namespace Wawo

open Lts Relation

/-! ### The parts of `close` and `update` -/

/-- `WCB::close` up to `state == WCB_CLOSED`. -/
def closeBegin (w : Wcb) : Wcb :=
  let w := { w with closedCalled := true }
  let w := if w.state = .listen then { w with state := .closed } else w
  if closeAborts w.state then
    { w with state := .closed, wcbErrno := if w.wcbErrno = ok then eConnaborted else w.wcbErrno }
  else w

/-- `WCB::close` from there on. -/
def closeEnd (w : Wcb) : Except Fault (Int × Wcb) :=
  if w.state = .closed then
    .ok (ok, { w with
      snd := { w.snd with localWriteShutdowned := true }
      rcv := { w.rcv with localReadShutdowned := true } })
  else if w.state = .established ∨ w.state = .closeWait then
    .ok (ok, { w with snd := w.snd.shutWrite, rcv := { w.rcv with localReadShutdowned := true } })
  else .error .closeState

theorem close_parts (w : Wcb) : close w = if w.closedCalled then .ok (eAlready, w) else closeEnd (closeBegin w) := rfl

/-- `WCB::update` less the three checks. -/
def turn (now : Nat) (w : Wcb) : Wcb :=
  match w.state with
  | .closed => if w.rcv.localReadShutdowned ∧ w.snd.localWriteShutdowned ∧ w.closedCalled then { w with state := .recycle } else w
  | .synSent =>
    if subU64 now w.timerState ≥ wcpSynMaxTime then { w with state := .closed, wcbErrno := eTimeout } else w
  | .synReceived | .established | .closeWait => if w.wcbErrno ≠ 0 then { w with state := .closed } else w
  | .finWait1 | .closing | .finWait2 =>
    if w.wcbErrno ≠ 0 ∨ subU64 now w.timerState ≥ wcpFinMaxTime then { w with state := .closed } else w
  | .lastAck => if w.wcbErrno ≠ 0 ∨ subU64 now w.timerState ≥ wcpLastAckMaxTime then { w with state := .closed } else w
  | .timeWait => if subU64 now w.timerState ≥ wcpTimewaitMaxTime then { w with state := .closed } else w
  | .listen | .syning | .recycle => w

/-! ### Runs of parts -/

/-- A connection between two parts. -/
structure Parted extends Ticking where
  pumping : Bool -- `pump_packs` has written `wcb_errno` and waits for `r_mutex`
  closing : Bool -- so has `close`

inductive Part
  | call (e : Event)
  | closeBegin
  | closeEnd
  | pumpErrno (ec : Int)
  | pumpFlag
  | turn (t : Tick)
  | beginRecv (t : Tick)
  | deliver
  | swap
  | checkFlights (t : Tick)
  | checkSend (t : Tick)

/-- The calls that a part is made of as a whole. -/
def Event.isPart : Event → Bool
  | .send _ | .recv _ | .shutdown _ | .setfl _ | .arrive _ => true
  | .close | .update _ | .checkRecv _ | .checkFlights _ | .checkSend _ => false

namespace Parted

variable (s : Parted)

def setWcb (w : Wcb) : Parted := { s with wcb := w }

def setTicking (c : Ticking) : Parted := { s with toTicking := c }

end Parted

/-- One part; what is not ready for it leaves the state as it is. -/
def part : Part → Parted → Except Fault Parted
  | .call e, s => if e.isPart then (step e s.wcb).map s.setWcb else .ok s
  | .closeBegin, s => .ok (if s.wcb.closedCalled then s else { s.setWcb (closeBegin s.wcb) with closing := true })
  | .closeEnd, s => if s.closing then (closeEnd s.wcb).map fun r => { s.setWcb r.2 with closing := false } else .ok s
  | .pumpErrno ec, s =>
    .ok (if ec = ok ∨ ec = eSocketRecvBlock ∨ s.pumping then s
      else { s.setWcb { s.wcb with wcbErrno := ec } with pumping := true })
  | .pumpFlag, s =>
    .ok (if s.pumping then { s.setWcb { s.wcb with rcv := { s.wcb.rcv with recvError := true } } with pumping := false } else s)
  | .turn t, s => .ok (if s.phase = .idle then s.setWcb (turn t.now (s.wcb.prepare t)) else s)
  | .beginRecv t, s => if s.wcb.state.live then (micro (.beginRecv t) s.toTicking).map s.setTicking else .ok s
  | .deliver, s => (micro .deliver s.toTicking).map s.setTicking
  | .swap, s => (micro .swap s.toTicking).map s.setTicking
  | .checkFlights t, s => if s.phase = .idle then (checkFlights t.now (s.wcb.prepare t)).map s.setWcb else .ok s
  | .checkSend t, s => if s.phase = .idle then (checkSend t.now (s.wcb.prepare t)).map s.setWcb else .ok s

/-- A control block as it comes into `m_wcb_map`; `bindErrno` is what an earlier `bind` has left. -/
inductive Entered (bindErrno : Int) : Wcb → Prop
  | active (u : Uninit) (now rcvCap sndCap : Nat) (addr : Address) (w : Wcb)
      (h : connect addr now { Wcb.init u now rcvCap sndCap with wcbErrno := bindErrno } = .ok w) : Entered bindErrno w
  | passive (u : Uninit) (now rcvCap sndCap : Nat) (synpack : WcbReceivedPack) (h : bindErrno = 0) :
      Entered bindErrno (synRcvd synpack (Wcb.init u now rcvCap sndCap))
  | listener (u : Uninit) (now rcvCap sndCap : Nat) :
      Entered bindErrno { Wcb.init u now rcvCap sndCap with wcbErrno := bindErrno, state := .listen, isListener := true }

def Parted.start (w : Wcb) : Parted := { wcb := w, phase := .idle, pumping := false, closing := false }

/-! ### Ticks and calls are runs of parts -/

/-- The tick that goes on where the parts before it have got to. -/
def Tick.again (now : Nat) (w : Wcb) : Tick := { now := now, sendRets := w.so.sendRets, connRet := w.so.connRet, clock := w.so.clock }

section

variable {s : Parted} {w w' : Wcb} {now : Nat} {p : WcbReceivedPack} {rest : List WcbReceivedPack} {x : Delivery}

theorem part_run {e : Part} {s' : Parted} (h : part e s = .ok s') : Run part (fun _ _ => True) s [e] s' := .cons trivial h (.nil _)

theorem micro_run {c c' : Ticking} {ms : List Micro} (hms : ∀ m ∈ ms, m = .deliver ∨ m = .swap) (h : Run micro (fun _ _ => True) c ms c') :
    ∃ es, Run part (fun _ _ => True) (s.setTicking c) es (s.setTicking c') := by
  induction h with
  | nil => exact ⟨[], .nil _⟩
  | @cons c c₁ c' e ms _ hstep _ ih =>
    obtain ⟨es, hrun⟩ := ih fun m hm => hms m (List.mem_cons_of_mem _ hm)
    rcases hms e List.mem_cons_self with rfl | rfl
    · have hpart : part .deliver (s.setTicking c) = .ok (s.setTicking c₁) := by
        show (micro .deliver c).map _ = _
        rw [hstep]
        rfl
      exact ⟨.deliver :: es, .cons trivial hpart hrun⟩
    · have hpart : part .swap (s.setTicking c) = .ok (s.setTicking c₁) := by
        show (micro .swap c).map _ = _
        rw [hstep]
        rfl
      exact ⟨.swap :: es, .cons trivial hpart hrun⟩

theorem checkRecv_run {t : Tick} (hphase : s.phase = .idle) (hlive : s.wcb.state.live = true)
    (h : checkRecv t.now (s.wcb.prepare t) = .ok w') : ∃ es, Run part (fun _ _ => True) s es (s.setWcb w') := by
  obtain ⟨⟨w, phase⟩, pumping, closing⟩ := s
  obtain rfl : phase = .idle := hphase
  obtain ⟨n, hrun⟩ := checkRecv_micro t h
  cases hrun with
  | @cons _ c _ _ _ _ hbegin hrun =>
    have hpart : part (.beginRecv t) ⟨⟨w, .idle⟩, pumping, closing⟩ = .ok ⟨c, pumping, closing⟩ := by
      dsimp only [part]
      rw [if_pos hlive, hbegin]
      rfl
    have hms : ∀ m ∈ List.replicate n Micro.deliver ++ [Micro.swap], m = .deliver ∨ m = .swap := by
      intro m hm
      rcases List.mem_append.1 hm with hm | hm
      · exact .inl (List.eq_of_mem_replicate hm)
      · exact .inr (List.mem_singleton.1 hm)
    obtain ⟨es, hrun⟩ := micro_run (s := ⟨⟨w, .idle⟩, pumping, closing⟩) hms hrun
    exact ⟨.beginRecv t :: es, .cons trivial hpart hrun⟩

theorem checkFlights_run {t : Tick} (hphase : s.phase = .idle) (h : checkFlights t.now (s.wcb.prepare t) = .ok w') :
    Run part (fun _ _ => True) s [.checkFlights t] (s.setWcb w') := by
  refine part_run ?_
  dsimp only [part]
  rw [if_pos hphase, h]
  rfl

theorem checkSend_run {t : Tick} (hphase : s.phase = .idle) (h : checkSend t.now (s.wcb.prepare t) = .ok w') :
    Run part (fun _ _ => True) s [.checkSend t] (s.setWcb w') := by
  refine part_run ?_
  dsimp only [part]
  rw [if_pos hphase, h]
  rfl

theorem turn_run (t : Tick) (hphase : s.phase = .idle) :
    Run part (fun _ _ => True) s [.turn t] (s.setWcb (turn t.now (s.wcb.prepare t))) := by
  refine part_run ?_
  dsimp only [part]
  rw [if_pos hphase]

theorem checkAll_run {t : Tick} (hphase : s.phase = .idle) (hlive : s.wcb.state.live = true)
    (h : checkAll t.now (s.wcb.prepare t) = .ok w') : ∃ es, Run part (fun _ _ => True) s es (s.setWcb w') := by
  unfold checkAll at h
  obtain ⟨w₁, h₁, h⟩ := bind_eq_ok.1 h
  obtain ⟨w₂, h₂, h₃⟩ := bind_eq_ok.1 h
  obtain ⟨es, hrecv⟩ := checkRecv_run hphase hlive h₁
  have hflights := checkFlights_run (s := s.setWcb w₁) (t := .again t.now w₁) hphase h₂
  have hsend := checkSend_run (s := s.setWcb w₂) (t := .again t.now w₂) hphase h₃
  exact ⟨_, hrecv.append (hflights.append hsend)⟩

/-! ### The end of the `WCB_LAST_ACK` branch -/

/-- `LAST_ACK` is left for `CLOSED` only. -/
def WcbState.Last (st : WcbState) : Prop := st = .lastAck ∨ st = .closed

theorem recvRule_last : RecvRule WcbState.Last where
  closed := .inr rfl
  ack hm h := by
    rcases h with rfl | rfl
    · cases hm; exact .inr rfl
    · cases hm
  fin hm h := by
    rcases h with rfl | rfl
    · cases hm; exact .inr rfl
    · cases hm; exact .inr rfl

theorem checkAll_last (hst : w.state = .lastAck) (h : checkAll now w = .ok w') : w'.state.Last := by
  unfold checkAll at h
  obtain ⟨w₁, h₁, h⟩ := bind_eq_ok.1 h
  obtain ⟨w₂, h₂, h₃⟩ := bind_eq_ok.1 h
  have hrecv : w₁.state.Last := recvRule_last.checkRecv (.inl hst) h₁
  have hflights : w₂.state.Last := by rwa [checkFlights_state h₂]
  have hmove := checkSend_move h₃
  rcases hflights with hst | hst
  · rw [hst] at hmove
    generalize w'.state = st at hmove
    cases hmove
    exact .inl rfl
  · rw [hst] at hmove
    generalize w'.state = st at hmove
    cases hmove
    exact .inr rfl

/-- A tick is a run of parts. -/
theorem update_parts {t : Tick} (hphase : s.phase = .idle) (h : update t.now (s.wcb.prepare t) = .ok w') :
    ∃ es, Run part (fun _ _ => True) s es (s.setWcb w') := by
  have hturn := turn_run t hphase
  have hall (hlive : s.wcb.state.live = true) (hw : checkAll t.now (s.wcb.prepare t) = .ok w') := checkAll_run hphase hlive hw
  have hstate : (s.wcb.prepare t).state = s.wcb.state := rfl
  unfold update at h
  unfold turn at hturn
  rw [hstate] at h hturn
  cases hst : s.wcb.state with
  | closed | listen | recycle | timeWait =>
    rw [hst] at h hturn
    cases h
    exact ⟨_, hturn⟩
  | syning =>
    rw [hst] at h
    obtain ⟨w₁, h₁, h₂⟩ := bind_eq_ok.1 h
    exact ⟨_, (checkFlights_run hphase h₁).append (checkSend_run (s := s.setWcb w₁) (t := .again t.now w₁) hphase h₂)⟩
  | lastAck =>
    rw [hst] at h hall
    obtain ⟨w₁, h₁, h⟩ := bind_eq_ok.1 h
    cases h
    obtain ⟨es, hrun⟩ := checkAll_run hphase (by rw [hst]; rfl) h₁
    have hlast : w₁.state.Last := checkAll_last (w := s.wcb.prepare t) hst h₁
    rcases hlast with hlast | hclosed
    · have hend := turn_run (s := s.setWcb w₁) (.again t.now w₁) hphase
      have hturned : turn t.now w₁ = if w₁.wcbErrno ≠ 0 ∨ subU64 t.now w₁.timerState ≥ wcpLastAckMaxTime then { w₁ with state := .closed } else w₁ := by
        unfold turn
        rw [hlast]
      have hend : Run part (fun _ _ => True) (s.setWcb w₁) [.turn (.again t.now w₁)] (s.setWcb (turn t.now w₁)) := hend
      rw [hturned] at hend
      exact ⟨_, hrun.append hend⟩
    · have hself : { w₁ with state := .closed } = w₁ := by rw [← hclosed]
      rw [hself, ite_self]
      exact ⟨es, hrun⟩
  | _ =>
    rw [hst] at h hturn
    dsimp only at h hturn
    split_ifs at h hturn
    · cases h
      exact ⟨_, hturn⟩
    · exact hall (by rw [hst]; rfl) h

/-- So is a call of `close`. -/
theorem close_run {rt : Int} (hc : s.closing = false) (h : close s.wcb = .ok (rt, w')) :
    ∃ es, Run part (fun _ _ => True) s es (s.setWcb w') := by
  rw [close_parts] at h
  split_ifs at h with hcalled
  · cases h
    exact ⟨[], .nil _⟩
  · have hbegin : part .closeBegin s = .ok { s.setWcb (closeBegin s.wcb) with closing := true } := by
      dsimp only [part]
      rw [if_neg hcalled]
    have hend : part .closeEnd { s.setWcb (closeBegin s.wcb) with closing := true } = .ok { s.setWcb w' with closing := false } := by
      show (closeEnd (closeBegin s.wcb)).map _ = _
      rw [h]
      rfl
    have hself : { s.setWcb w' with closing := false } = s.setWcb w' := by rw [← hc]; rfl
    rw [hself] at hend
    exact ⟨[.closeBegin, .closeEnd], .cons trivial hbegin (part_run hend)⟩

theorem noteRecvError_run {ec : Int} (hp : s.pumping = false) (hec : ec ≠ ok) (hblock : ec ≠ eSocketRecvBlock) :
    Run part (fun _ _ => True) s [.pumpErrno ec, .pumpFlag] (s.setWcb (s.wcb.noteRecvError ec)) := by
  have herrno : part (.pumpErrno ec) s = .ok { s.setWcb { s.wcb with wcbErrno := ec } with pumping := true } := by
    dsimp only [part]
    rw [if_neg (by rw [hp]; simp [hec, hblock])]
  have hflag : part .pumpFlag { s.setWcb { s.wcb with wcbErrno := ec } with pumping := true } =
      .ok { s.setWcb (s.wcb.noteRecvError ec) with pumping := false } := rfl
  have hself : { s.setWcb (s.wcb.noteRecvError ec) with pumping := false } = s.setWcb (s.wcb.noteRecvError ec) := by
    rw [← hp]
    rfl
  rw [hself] at hflag
  exact .cons trivial herrno (part_run hflag)

/-- And so is a call of `pump_packs`. -/
theorem pumpPacks_run {connected : Bool} {ec : Int} {ms : List UdpMessage} (hp : s.pumping = false) (hec : ec ≠ ok)
    (h : pumpPacks connected ec ms s.wcb = .ok w') : ∃ es, Run part (fun _ _ => True) s es (s.setWcb w') := by
  induction ms generalizing s with
  | nil =>
    unfold pumpPacks at h
    split_ifs at h with hblock
    · cases h
      exact ⟨[], .nil _⟩
    · cases h
      exact ⟨_, noteRecvError_run hp hec hblock⟩
  | cons m ms ih =>
    unfold pumpPacks at h
    obtain ⟨⟨w₁, x⟩, hone, h⟩ := bind_eq_ok.1 h
    unfold pumpOne at hone
    split_ifs at hone
    · cases hone
      cases h
      exact ⟨_, noteRecvError_run hp (by decide) (by decide)⟩
    · obtain ⟨p, -, harrive⟩ := bind_eq_ok.1 hone
      cases harrive
      obtain ⟨es, hrun⟩ := ih (s := s.setWcb (arrive p s.wcb)) hp h
      have harrived : part (.call (.arrive p)) s = .ok (s.setWcb (arrive p s.wcb)) := rfl
      exact ⟨_, .cons trivial harrived hrun⟩

end

/-! ### A client that has connected -/

/-- The client sends its SYN and takes the server's answer. -/
def handshakeParts : List Part :=
  [.checkFlights (.at 1), .checkSend (.at 1), .call (.arrive synSynAckPack), .beginRecv (.at 2), .deliver, .deliver, .swap]

theorem entered_connecting : Entered 0 Wcb.connecting :=
  .active ⟨0, 0, 0, 0⟩ 0 (2 * wcpRcvBufferMin) (2 * wcpSndBufferMin) ⟨2⟩ _ rfl

end Wawo
