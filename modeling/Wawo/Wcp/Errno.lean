import Wawo.Wcp.Parts

/-!
# The error of a connection and `wcp::recv`

`wcb_errno` is written in many places, and `recv` asserts that it is zero unless `r_flag` says why it is
not. `ErrorView` is what `recv` goes by when there is nothing to read. A part that writes `wcb_errno` and
no bit of `r_flag` makes a later `recv` fail (`recv_answers_iff`, `recv_asserts`); in a run without such a
part every `recv` answers (`recv_answers`).
-/

namespace Wawo

open Lts Relation

/-! ### What is expected of `recv` -/

/-- A positive number of bytes, the end of the stream, a negative code, or a wait. -/
def RecvResult.Proper : RecvResult → Prop
  | .bytes l => l ≠ []
  | .eof | .wait => True
  | .error code => code < 0

/-- `recv` fails no assertion and returns what it should. -/
def RecvAnswers (size : Nat) (w : Wcb) : Prop := ∃ r w', recv size w = .ok (r, w') ∧ r.Proper

/-! ### What a part does to `wcb_errno` and `r_flag` -/

/-- What `recv` goes by when there is nothing to read. -/
structure ErrorView where
  errno : Int
  recvError : Bool
  readShutdowned : Bool
  finReceived : Bool
deriving DecidableEq

def Wcb.errorView (w : Wcb) : ErrorView := ⟨w.wcbErrno, w.rcv.recvError, w.rcv.localReadShutdowned, w.rcv.remoteFinReceived⟩

/-- A bit of `r_flag` is set that `recv` tests before `wcb_errno`. -/
def ErrorView.Told (v : ErrorView) : Prop := v.recvError = true ∨ v.readShutdowned = true ∨ v.finReceived = true

instance (v : ErrorView) : Decidable v.Told := inferInstanceAs (Decidable (_ ∨ _))

/-- Under the condition, `wcb_errno` is not written without a bit of `r_flag`. -/
structure Tells (C : Prop) (v v' : ErrorView) : Prop where
  errno : v'.errno = v.errno ∨ v'.errno ≠ 0 ∧ (C → v'.Told)
  told : v.Told → v'.Told
  recvError : v'.recvError = true → v.recvError = true ∨ v'.errno ≠ 0

namespace Tells

variable {C D : Prop} {v v' v'' : ErrorView}

theorem refl : Tells C v v := ⟨.inl rfl, id, .inl⟩

theorem trans (h : Tells C v v') (h' : Tells C v' v'') : Tells C v v'' := by
  refine ⟨?_, h'.told ∘ h.told, ?_⟩
  · rcases h'.errno with he | he
    · rcases h.errno with he₀ | ⟨hne, hC⟩
      · exact .inl (he.trans he₀)
      · exact .inr ⟨he ▸ hne, h'.told ∘ hC⟩
    · exact .inr he
  · intro hr
    rcases h'.recvError hr with hr | hne
    · refine (h.recvError hr).imp_right fun hne => ?_
      rcases h'.errno with he | ⟨hne', -⟩
      · rwa [he]
      · exact hne'
    · exact .inr hne

theorem mono (h : Tells D v v') (hCD : C → D) : Tells C v v' :=
  ⟨h.errno.imp_right fun ⟨hne, hD⟩ => ⟨hne, hD ∘ hCD⟩, h.told, h.recvError⟩

/-- An error that is written -/
theorem write {errno : Int} (hne : errno ≠ 0) (hC : ¬ C) : Tells C v { v with errno := errno } :=
  ⟨.inr ⟨hne, fun h => absurd h hC⟩, id, .inl⟩

end Tells

variable {w w' : Wcb} {now : Nat} {p : WcbReceivedPack} {rest : List WcbReceivedPack} {x : Delivery}

/-! ### `check_flights` and `check_send` -/

/-- No `sendto` fails, other than by a would-block. -/
def Wcb.SendsOk (w : Wcb) : Prop := ∀ rt ∈ w.so.sendRets, rt = ok ∨ rt = eSocketSendBlock

/-- Nothing of `r_flag` that `recv` tests changes, and `wcb_errno` only where a `sendto` fails. -/
structure Sends (w w' : Wcb) : Prop where
  tells : Tells w.SendsOk w.errorView w'.errorView
  sendsOk : w.SendsOk → w'.SendsOk

theorem Sends.refl : Sends w w := ⟨.refl, id⟩

theorem Sends.trans {w'' : Wcb} (h : Sends w w') (h' : Sends w' w'') : Sends w w'' :=
  ⟨h.tells.trans (h'.tells.mono h.sendsOk), h'.sendsOk ∘ h.sendsOk⟩

theorem Sends.setSnd (w : Wcb) (s : Snd) : Sends w (w.setSnd s) := ⟨.refl, id⟩

theorem sendPack_sends {d d' : Datagram} {rt : Int} (h : sendPack w d = .ok (rt, d', w')) :
    Sends w w' ∧ (w.SendsOk → rt = ok ∨ rt = eSocketSendBlock) := by
  have hhead : w.SendsOk → w.so.sendRets.headD ok = ok ∨ w.so.sendRets.headD ok = eSocketSendBlock := by
    intro hok
    cases hrets : w.so.sendRets with
    | nil => exact .inl rfl
    | cons rt rets => exact hok rt (by rw [hrets]; exact List.mem_cons_self)
  have htail : w.SendsOk → ∀ rt ∈ w.so.sendRets.tail, rt = ok ∨ rt = eSocketSendBlock :=
    fun hok rt hrt => hok rt (List.mem_of_mem_tail hrt)
  unfold sendPack at h
  dsimp only at h
  split_ifs at h
  · cases h
    exact ⟨⟨.refl, htail⟩, hhead⟩
  · cases h
    exact ⟨⟨.refl, htail⟩, hhead⟩

theorem noteSendError_sends {rt : Int} (hne : rt ≠ ok) {C : Prop} (hC : C → rt = eSocketSendBlock) :
    Tells C w.errorView (noteSendError w rt).errorView := by
  unfold noteSendError
  split_ifs with hblock
  · exact .refl
  · exact .write hne fun h => hblock (hC h)

theorem noteSendError_so (w : Wcb) (rt : Int) : (noteSendError w rt).so = w.so := by
  unfold noteSendError
  split_ifs <;> rfl

/-- `sendto` fails and the failure is noted. -/
theorem sendPack_note {d d' : Datagram} {rt : Int} (h : sendPack w d = .ok (rt, d', w')) (hne : rt ≠ ok) (s : Snd) :
    Sends w (noteSendError (w'.setSnd s) rt) := by
  obtain ⟨hs, hrt⟩ := sendPack_sends h
  have hset := hs.trans (.setSnd w' s)
  refine ⟨hset.tells.trans (noteSendError_sends hne fun hok => (hrt hok).resolve_left hne), fun hok => ?_⟩
  unfold Wcb.SendsOk
  rw [noteSendError_so]
  exact hset.sendsOk hok

theorem retransmit_sends {q q' : WcbPack} {rt : Int} (h : retransmit now q w = .ok (rt, q', w')) : Sends w w' := by
  unfold retransmit at h
  obtain ⟨⟨rt', d, w₁⟩, hs, h⟩ := bind_eq_ok.1 h
  dsimp only at h
  split_ifs at h with hrt
  · cases h
    exact sendPack_note hs hrt w₁.snd
  · cases h
    exact (sendPack_sends hs).1

theorem scanFlights_sends {flights pre : List WcbPack} {lost maxSent : Nat} {c : Nat × Nat × Wcb}
    (h : scanFlights now pre flights lost maxSent w = .ok c) : Sends w c.2.2 := by
  induction flights generalizing pre lost maxSent w with
  | nil => cases h; exact .refl
  | cons q flights ih =>
    unfold scanFlights at h
    by_cases hu : w.snd.unaUpdate = true ∧ q.seq < w.snd.una
    · rw [if_pos hu] at h
      obtain ⟨t, -, h⟩ := bind_eq_ok.1 h
      exact (Sends.setSnd w _).trans (ih h)
    rw [if_neg hu] at h
    dsimp only at h
    generalize w.snd.retransmitReason now q = reason at h
    have hnote := Sends.setSnd w (w.snd.noteLost reason q)
    by_cases h0 : reason = 0
    · rw [if_pos h0] at h
      exact hnote.trans (ih h)
    rw [if_neg h0] at h
    obtain ⟨⟨rt, q', w₂⟩, hr, h⟩ := bind_eq_ok.1 h
    have hsent := hnote.trans (retransmit_sends hr)
    have hset := Sends.setSnd w₂ (w₂.snd.setFlights (pre ++ q' :: flights))
    dsimp only at h
    by_cases hrt : rt ≠ ok
    · rw [if_pos hrt] at h
      cases h
      exact hsent.trans hset
    · rw [if_neg hrt] at h
      exact (hsent.trans hset).trans (ih h)

theorem detectLost_sends {lost maxSent : Nat} (h : detectLost now lost maxSent w = .ok w') : Sends w w' := by
  unfold detectLost at h
  dsimp only at h
  split_ifs at h
  · cases h; exact .setSnd w _
  · cases h; exact .setSnd w _
  · cases h; exact .refl

theorem checkFlights_sends (h : checkFlights now w = .ok w') : Sends w w' := by
  unfold checkFlights at h
  dsimp only at h
  split_ifs at h
  · cases h; exact .refl
  · obtain ⟨c, hs, h⟩ := bind_eq_ok.1 h
    have hscan : Sends (w.setSnd { w.snd with lastRtoTimer := now }) c.2.2 := scanFlights_sends hs
    have hclear : Sends c.2.2 w' := (Sends.setSnd c.2.2 c.2.2.snd.clearUpdates).trans (detectLost_sends h)
    exact (Sends.setSnd w _).trans (hscan.trans hclear)

theorem afterLaunch_sends {q : WcbPack} {l : List WcbPack} {c : Wcb × SendExit} (h : afterLaunch now q l w = .ok c) : Sends w c.1 := by
  unfold afterLaunch at h
  split_ifs at h
  · split at h
    · cases h; exact ⟨.refl, id⟩
    · cases h; exact ⟨.refl, id⟩
    · cases h
  · cases h; exact ⟨.refl, id⟩
  · cases h; exact ⟨.refl, id⟩

theorem transmitOne_sends {q : WcbPack} {l : List WcbPack} {c : Wcb × SendExit} (h : transmitOne now q l w = .ok c) : Sends w c.1 := by
  unfold transmitOne at h
  by_cases hcwnd : u32 (q.totalBytes + w.snd.nflightBytes) ≥ min w.snd.cwnd w.snd.rwnd
  · rw [if_pos hcwnd] at h
    cases h
    exact .refl
  rw [if_neg hcwnd] at h
  by_cases hnext : q.seq ≠ w.snd.next
  · rw [if_pos hnext] at h; cases h
  rw [if_neg hnext] at h
  by_cases huna : q.seq < w.snd.una
  · rw [if_pos huna] at h; cases h
  rw [if_neg huna] at h
  obtain ⟨⟨rt, d, w₁⟩, hs, h⟩ := bind_eq_ok.1 h
  dsimp only at h
  by_cases hrt : rt ≠ ok
  · rw [if_pos hrt] at h
    cases h
    exact sendPack_note hs hrt _
  rw [if_neg hrt] at h
  split at h
  · cases h
  · exact (sendPack_sends hs).1.trans ((Sends.setSnd w₁ _).trans (afterLaunch_sends h))

theorem checkSend_sends (h : checkSend now w = .ok w') : Sends w w' := by
  refine SendRule.checkSend (I := fun v => Sends w v) ⟨?_, ?_, ?_, ?_⟩ .refl h
  · intro v hv
    unfold checkRwnd
    split_ifs
    · exact hv.trans ⟨.refl, id⟩
    · exact hv
  · intro v d c hv hc
    unfold sendCtlOne at hc
    obtain ⟨⟨rt, d', w₁⟩, hs, hc⟩ := bind_eq_ok.1 hc
    dsimp only at hc
    split_ifs at hc with hrt
    · cases hc
      exact hv.trans (sendPack_note hs hrt w₁.snd)
    · cases hc
      exact hv.trans ((sendPack_sends hs).1.trans (Sends.setSnd w₁ _))
  · exact fun v q l c hv _ hc => hv.trans (transmitOne_sends hc)
  · exact fun v hv => hv.trans (.setSnd v _)

/-! ### `check_recv` -/

theorem eConnaborted_ne : eConnaborted ≠ 0 := by decide

theorem eConnreset_ne : eConnreset ≠ 0 := by decide

theorem eTimeout_ne : eTimeout ≠ 0 := by decide

/-- The states in which a FIN is expected. -/
def WcbState.expectsFin : WcbState → Bool
  | .established | .finWait1 | .finWait2 => true
  | _ => false

/-- The pack makes the delivery loop record an error: its payload comes from elsewhere, it is a RST, its
SYN or its FIN is not expected, or the answer to the SYN of the connection cannot be connected to. -/
def Delivering.Aborts (connRet : Int) (d : Delivering) (p : WcbReceivedPack) : Prop :=
  p.seq = d.next ∧
    ((p.data ≠ [] ∧ p.fromAddr ≠ d.remoteAddr) ∨
      ((p.data ≠ [] → p.data.length ≤ d.room) ∧ p.testFlag .rst = true) ∨
      (d.Takes p ∧
        ((p.testFlag .syn = true ∧ d.state ≠ .synReceived ∧ d.state ≠ .synSent) ∨
          (p.testFlag .ack = true ∧ d.state = .synSent ∧ connRet ≠ ok) ∨
          (p.testFlag .fin = true ∧ (if p.testFlag .ack then d.state.acked connRet else d.state).expectsFin = false))))

instance (connRet : Int) (d : Delivering) (p : WcbReceivedPack) : Decidable (d.Aborts connRet p) :=
  inferInstanceAs (Decidable (_ ∧ (_ ∨ _)))

theorem deliverData_tells (h : deliverData w p rest = .ok (w', x)) :
    Tells (¬ (p.data ≠ [] ∧ p.fromAddr ≠ w.remoteAddr)) w.errorView w'.errorView ∧
      (x = .more → (p.data ≠ [] → p.fromAddr = w.remoteAddr ∧ p.data.length ≤ w.rcv.rbStandby.leftCapacity) ∧
        w'.state = w.state ∧ w'.so = w.so) := by
  have hlen : p.header.dlen = p.data.length := p.dlen_eq
  unfold deliverData at h
  by_cases hd : p.header.dlen > 0
  · have hne : p.data ≠ [] := List.length_pos_iff.1 (by omega)
    rw [if_pos hd] at h
    split_ifs at h with h1 h2 h3 h4
    · cases h
      exact ⟨.write eConnaborted_ne (not_not_intro ⟨hne, h3⟩), nofun⟩
    · cases h
      exact ⟨.refl, nofun⟩
    · cases h
      exact ⟨.refl, fun _ => ⟨fun _ => ⟨not_not.1 h3, by omega⟩, rfl, rfl⟩⟩
  · rw [if_neg hd] at h
    cases h
    have hnil : p.data = [] := List.length_eq_zero_iff.1 (by omega)
    exact ⟨.refl, fun _ => ⟨fun hne => absurd hnil hne, rfl, rfl⟩⟩

theorem deliverSyn_tells (h : deliverSyn w p rest = (w', x)) :
    Tells (¬ (p.testFlag .syn = true ∧ w.state ≠ .synReceived ∧ w.state ≠ .synSent)) w.errorView w'.errorView ∧
      (x = .more → w'.state = w.state ∧ w'.so = w.so) := by
  unfold deliverSyn at h
  split_ifs at h with hsyn
  · split at h
    · cases h; exact ⟨.refl, fun _ => ⟨rfl, rfl⟩⟩
    · cases h; exact ⟨.refl, fun _ => ⟨rfl, rfl⟩⟩
    · rename_i h₁ h₂
      cases h
      exact ⟨.write eConnaborted_ne (not_not_intro ⟨hsyn, h₁, h₂⟩), nofun⟩
  · cases h; exact ⟨.refl, fun _ => ⟨rfl, rfl⟩⟩

theorem deliverAck_tells (h : deliverAck now w p = .ok w') :
    Tells (¬ (p.testFlag .ack = true ∧ w.state = .synSent ∧ w.so.connRet ≠ ok)) w.errorView w'.errorView ∧
      w'.state = if p.testFlag .ack then w.state.acked w.so.connRet else w.state := by
  unfold deliverAck at h
  by_cases hack : p.testFlag .ack = true
  · rw [if_pos hack] at h ⊢
    cases hst : w.state <;> rw [hst] at h <;> dsimp only at h
    case synSent =>
      split_ifs at h with h1 h2 h3
      · cases h
        exact ⟨.refl, by rw [WcbState.acked, if_pos h3]⟩
      · cases h
        exact ⟨.write h3 (not_not_intro ⟨hack, rfl, h3⟩), by rw [WcbState.acked, if_neg h3]⟩
    all_goals first
      | cases h; exact ⟨.refl, rfl⟩
      | cases h; exact ⟨.refl, hst⟩
      | cases h
  · rw [if_neg hack] at h ⊢
    cases h
    exact ⟨.refl, rfl⟩

theorem deliverFin_tells (now : Nat) (w : Wcb) (p : WcbReceivedPack) :
    Tells (¬ (p.testFlag .fin = true ∧ w.state.expectsFin = false)) w.errorView (deliverFin now w p).errorView := by
  unfold deliverFin
  by_cases hfin : p.testFlag .fin = true
  · rw [if_pos hfin]
    cases hst : w.state with
    | established => exact ⟨.inl rfl, fun _ => .inr (.inr rfl), .inl⟩
    | finWait1 | finWait2 => exact .refl
    | _ => exact .write eConnaborted_ne (not_not_intro ⟨hfin, rfl⟩)
  · rw [if_neg hfin]
    exact .refl

theorem deliverOne_tells (h : deliverOne now p rest w = .ok (w', x)) :
    Tells (¬ w.delivering.Aborts w.so.connRet p) w.errorView w'.errorView := by
  unfold deliverOne at h
  split_ifs at h with hlt hne
  · cases h; exact .refl
  have hseq : p.seq = w.delivering.next := not_not.1 hne
  obtain ⟨⟨w₁, y⟩, hd, h⟩ := bind_eq_ok.1 h
  obtain ⟨hdata, hmore⟩ := deliverData_tells hd
  have hdata := hdata.mono fun ha : ¬ w.delivering.Aborts w.so.connRet p => fun hfrom => ha ⟨hseq, .inl hfrom⟩
  cases y with
  | stop => cases h; exact hdata
  | more =>
    obtain ⟨hfits, hst, hso⟩ := hmore rfl
    refine hdata.trans ?_
    have hadv : w₁.errorView = Wcb.errorView { w₁ with rcv := w₁.rcv.advance p } := rfl
    rw [hadv]
    rcases deliverFlags_cases h with ⟨hrst, -, rfl⟩ | ⟨hrst, rfl, hs⟩ | ⟨hrst, -, w₂, w₃, hs, ha, rfl⟩
    · exact .write eConnreset_ne (not_not_intro ⟨hseq, .inr (.inl ⟨fun hne => (hfits hne).2, hrst⟩)⟩)
    · have htakes : w.delivering.Takes p := ⟨hseq, hfits, hrst⟩
      have hsyn := (deliverSyn_tells hs).1
      dsimp only at hsyn
      rw [hst] at hsyn
      exact hsyn.mono fun hn hc => hn ⟨hseq, .inr (.inr ⟨htakes, .inl hc⟩)⟩
    · have htakes : w.delivering.Takes p := ⟨hseq, hfits, hrst⟩
      have hother {C : Prop} (hC : C → (p.testFlag .syn = true ∧ w.state ≠ .synReceived ∧ w.state ≠ .synSent) ∨
          (p.testFlag .ack = true ∧ w.state = .synSent ∧ w.so.connRet ≠ ok) ∨
          (p.testFlag .fin = true ∧ (if p.testFlag .ack then w.state.acked w.so.connRet else w.state).expectsFin = false)) :
          ¬ w.delivering.Aborts w.so.connRet p → ¬ C := fun hn hc => hn ⟨hseq, .inr (.inr ⟨htakes, hC hc⟩)⟩
      obtain ⟨hsyn, hsame⟩ := deliverSyn_tells hs
      obtain ⟨hst₂, hso₂⟩ := hsame rfl
      obtain ⟨hack, hst₃⟩ := deliverAck_tells ha
      have hfin := deliverFin_tells now w₃ p
      rw [hst₃] at hfin
      have hst₂ : w₂.state = w.state := hst₂.trans hst
      have hso₂ : w₂.so = w.so := hso₂.trans hso
      rw [hst₂, hso₂] at hack hfin
      dsimp only at hsyn
      rw [hst] at hsyn
      exact (hsyn.mono (hother .inl)).trans ((hack.mono (hother fun hc => .inr (.inl hc))).trans
        (hfin.mono (hother fun hc => .inr (.inr hc))))

theorem checkKeepalive_tells (now : Nat) (w : Wcb) : Tells True w.errorView (checkKeepalive now w).errorView := by
  unfold checkKeepalive
  dsimp only
  split_ifs
  · exact ⟨.inr ⟨eTimeout_ne, fun _ => .inl rfl⟩, fun _ => .inl rfl, fun _ => .inr eTimeout_ne⟩
  · exact .refl
  · exact .refl

theorem takeBatch_errorView {batch : List WcbReceivedPack} (h : takeBatch now batch w = .ok w') : w'.errorView = w.errorView := by
  obtain ⟨s, r, he⟩ := takeBatch_frame h
  obtain ⟨tmp, held, hr⟩ := foldl_takePack_eq (batch.filter (fun p => p.inSeqSpace))
    { w.rcv with keepaliveTimerLastReceivedPack := now, keepaliveProbesSent := 0 }
  have hrcv := takeBatch_rcv h
  rw [hr] at hrcv
  have herrno : w'.wcbErrno = w.wcbErrno := by rw [he]
  unfold Wcb.errorView
  rw [herrno, hrcv]

theorem swapRb_errorView (w : Wcb) : Wcb.errorView { w with rcv := w.rcv.swapRb } = w.errorView := by
  unfold Rcv.swapRb
  dsimp only
  split_ifs <;> rfl

/-! ### The invariants -/

/-- What a run of parts goes through without a failed assertion of `recv`: it is not called for no bytes
while there are some, nor between the two writes of `pump_packs` or of `close`, unless a bit of `r_flag`
is set anyway; and no part writes `wcb_errno` only. -/
def Quiet (s : Parted) : Part → Prop
  | .call (.recv size) =>
    s.wcb.rcv.localReadShutdowned = true ∨
      if s.wcb.rcv.rb.count > 0 then size ≠ 0 else s.wcb.errorView.Told ∨ s.pumping = false ∧ s.closing = false
  | .turn t => s.wcb.errorView.Told ∨ ¬ (s.wcb.state = .synSent ∧ subU64 t.now s.wcb.timerState ≥ wcpSynMaxTime)
  | .deliver => s.wcb.errorView.Told ∨ ∀ p ∈ s.wcb.rcv.received.head?, ¬ s.wcb.delivering.Aborts s.wcb.so.connRet p
  | .checkFlights t | .checkSend t => s.wcb.errorView.Told ∨ ∀ rt ∈ t.sendRets, rt = ok ∨ rt = eSocketSendBlock
  | _ => True

instance (s : Parted) : (e : Part) → Decidable (Quiet s e)
  | .call (.recv size) =>
    inferInstanceAs (Decidable (s.wcb.rcv.localReadShutdowned = true ∨
      if s.wcb.rcv.rb.count > 0 then size ≠ 0 else s.wcb.errorView.Told ∨ s.pumping = false ∧ s.closing = false))
  | .call (.send _) | .call (.shutdown _) | .call .close | .call (.setfl _) | .call (.arrive _) | .call (.update _)
  | .call (.checkRecv _) | .call (.checkFlights _) | .call (.checkSend _) => isTrue trivial
  | .turn _ => inferInstanceAs (Decidable (_ ∨ ¬ _))
  | .deliver => inferInstanceAs (Decidable (_ ∨ ∀ p ∈ s.wcb.rcv.received.head?, ¬ s.wcb.delivering.Aborts s.wcb.so.connRet p))
  | .checkFlights t | .checkSend t => inferInstanceAs (Decidable (_ ∨ ∀ rt ∈ t.sendRets, rt = ok ∨ rt = eSocketSendBlock))
  | .closeBegin | .closeEnd | .pumpErrno _ | .pumpFlag | .beginRecv _ | .swap => isTrue trivial

/-- What any run of parts keeps -/
structure Erring (s : Parted) : Prop where
  recvError : s.wcb.rcv.recvError = true → s.wcb.wcbErrno ≠ 0
  pumping : s.pumping = true → s.wcb.wcbErrno ≠ 0

/-- What a quiet run keeps: an error is known by a bit of `r_flag`, or about to be. -/
def ErrnoKnown (s : Parted) : Prop := s.wcb.wcbErrno ≠ 0 → s.wcb.errorView.Told ∨ s.pumping = true ∨ s.closing = true

section

variable {s s' : Parted} {e : Part} {C : Prop}

theorem Tells.erring (h : Erring s) (ht : Tells C s.wcb.errorView s'.wcb.errorView) (hp : s'.pumping = s.pumping) : Erring s' := by
  have hne : s.wcb.wcbErrno ≠ 0 → s'.wcb.wcbErrno ≠ 0 := by
    intro hne
    rcases ht.errno with he | ⟨hne', -⟩
    · have he : s'.wcb.wcbErrno = s.wcb.wcbErrno := he
      rwa [he]
    · exact hne'
  refine ⟨fun hr => ?_, fun hpump => hne (h.pumping (hp ▸ hpump))⟩
  rcases ht.recvError hr with hr | hne'
  · exact hne (h.recvError hr)
  · exact hne'

theorem Tells.known (h : ErrnoKnown s) (ht : Tells C s.wcb.errorView s'.wcb.errorView) (hC : s.wcb.errorView.Told ∨ C)
    (hp : s'.pumping = s.pumping) (hc : s'.closing = s.closing) : ErrnoKnown s' := by
  intro hne
  rcases ht.errno with he | ⟨-, htold⟩
  · have he : s'.wcb.wcbErrno = s.wcb.wcbErrno := he
    rw [hp, hc]
    exact (h (he ▸ hne)).imp_left ht.told
  · exact .inl (hC.elim ht.told htold)

/-- The parts other than the two writes of `pump_packs` and of `close` -/
def Part.isWrite : Part → Bool
  | .closeBegin | .closeEnd | .pumpErrno _ | .pumpFlag => true
  | _ => false

theorem setWcb_map {x : Except Fault Wcb} (h : x.map s.setWcb = .ok s') :
    x = .ok s'.wcb ∧ s'.pumping = s.pumping ∧ s'.closing = s.closing := by
  obtain ⟨w, hx, rfl⟩ := map_eq_ok.1 h
  exact ⟨hx, rfl, rfl⟩

theorem setTicking_map {x : Except Fault Ticking} (h : x.map s.setTicking = .ok s') :
    x = .ok s'.toTicking ∧ s'.pumping = s.pumping ∧ s'.closing = s.closing := by
  obtain ⟨c, hx, rfl⟩ := map_eq_ok.1 h
  exact ⟨hx, rfl, rfl⟩

theorem step_tells {e : Event} (he : e.isPart = true) (h : step e w = .ok w') : Tells True w.errorView w'.errorView := by
  cases e with
  | send buffer =>
    obtain ⟨⟨rt, w₁⟩, hs, rfl⟩ := map_eq_ok.1 h
    unfold send at hs
    split_ifs at hs <;> cases hs <;> exact .refl
  | recv size =>
    obtain ⟨⟨rt, w₁⟩, hs, rfl⟩ := map_eq_ok.1 h
    unfold recv at hs
    split_ifs at hs <;> cases hs <;> exact .refl
  | shutdown how =>
    cases h
    cases how with
    | wr => exact .refl
    | rd | rdwr => exact ⟨.inl rfl, fun ht => ht.imp_right fun _ => .inl rfl, .inl⟩
  | setfl nonblock => cases h; exact .refl
  | arrive p => cases h; exact .refl
  | close | update t | checkRecv t | checkFlights t | checkSend t => cases he

theorem turn_tells (now : Nat) (w : Wcb) :
    Tells (¬ (w.state = .synSent ∧ subU64 now w.timerState ≥ wcpSynMaxTime)) w.errorView (turn now w).errorView := by
  unfold turn
  cases hst : w.state with
  | synSent =>
    dsimp only
    split_ifs with ht
    · exact .write eTimeout_ne (not_not_intro ⟨rfl, ht⟩)
    · exact .refl
  | listen | syning | recycle => exact .refl
  | _ =>
    dsimp only
    split_ifs
    · exact .refl
    · exact .refl

theorem beginRecv_tells {t : Tick} {c : Ticking} (h : beginRecv t w = .ok c) : Tells True w.errorView c.wcb.errorView := by
  unfold beginRecv at h
  dsimp only at h
  split_ifs at h
  · cases h
    exact checkKeepalive_tells t.now (w.prepare t).takeArrived
  · obtain ⟨w₁, ht, h⟩ := bind_eq_ok.1 h
    cases h
    have hview := takeBatch_errorView (w := (w.prepare t).takeArrived) ht
    have hview : w₁.errorView = w.errorView := hview
    rw [hview]
    exact .refl

theorem micro_begin_tells {t : Tick} {c c' : Ticking} (h : micro (.beginRecv t) c = .ok c') :
    Tells True c.wcb.errorView c'.wcb.errorView := by
  obtain ⟨w, phase⟩ := c
  cases phase with
  | idle => exact beginRecv_tells h
  | delivering now => cases h; exact .refl
  | swapping => cases h; exact .refl

theorem micro_deliver_tells {c' : Ticking} (h : micro .deliver s.toTicking = .ok c') :
    ∃ C : Prop, (Quiet s .deliver → s.wcb.errorView.Told ∨ C) ∧ Tells C s.wcb.errorView c'.wcb.errorView := by
  obtain ⟨⟨w, phase⟩, pumping, closing⟩ := s
  cases phase with
  | delivering now =>
    have h : deliverRound now w = .ok c' := h
    unfold deliverRound at h
    split at h
    · cases h
      exact ⟨True, fun _ => .inr trivial, .refl⟩
    · rename_i p rest hr
      obtain ⟨⟨w₁, x⟩, ho, h⟩ := bind_eq_ok.1 h
      have ht := deliverOne_tells ho
      refine ⟨¬ w.delivering.Aborts w.so.connRet p, fun hq => ?_, ?_⟩
      · have hq : w.errorView.Told ∨ ∀ p ∈ w.rcv.received.head?, ¬ w.delivering.Aborts w.so.connRet p := hq
        rw [hr] at hq
        exact hq.imp_right fun hall => hall p rfl
      · cases x <;> cases h <;> exact ht
  | idle => cases h; exact ⟨True, fun _ => .inr trivial, .refl⟩
  | swapping => cases h; exact ⟨True, fun _ => .inr trivial, .refl⟩

theorem micro_swap_tells {c c' : Ticking} (h : micro .swap c = .ok c') : Tells True c.wcb.errorView c'.wcb.errorView := by
  obtain ⟨w, phase⟩ := c
  cases phase with
  | swapping =>
    cases h
    dsimp only
    rw [swapRb_errorView]
    exact .refl
  | idle => cases h; exact .refl
  | delivering now => cases h; exact .refl

/-- What a part does to `wcb_errno` and `r_flag`, if it is not half of two writes. -/
theorem part_tells (he : e.isWrite = false) (h : part e s = .ok s') :
    ∃ C : Prop, (Quiet s e → s.wcb.errorView.Told ∨ C) ∧ Tells C s.wcb.errorView s'.wcb.errorView ∧
      s'.pumping = s.pumping ∧ s'.closing = s.closing := by
  cases e with
  | closeBegin | closeEnd | pumpErrno ec | pumpFlag => cases he
  | call e =>
    dsimp only [part] at h
    split_ifs at h with hpart
    · obtain ⟨hs, hp, hc⟩ := setWcb_map h
      exact ⟨True, fun _ => .inr trivial, step_tells hpart hs, hp, hc⟩
    · cases h
      exact ⟨True, fun _ => .inr trivial, .refl, rfl, rfl⟩
  | turn t =>
    dsimp only [part] at h
    cases h
    split_ifs
    · exact ⟨_, id, turn_tells t.now (s.wcb.prepare t), rfl, rfl⟩
    · exact ⟨_, id, .refl, rfl, rfl⟩
  | beginRecv t =>
    dsimp only [part] at h
    split_ifs at h
    · obtain ⟨hs, hp, hc⟩ := setTicking_map h
      refine ⟨True, fun _ => .inr trivial, micro_begin_tells hs, hp, hc⟩
    · cases h
      exact ⟨True, fun _ => .inr trivial, .refl, rfl, rfl⟩
  | deliver =>
    obtain ⟨hs, hp, hc⟩ := setTicking_map h
    obtain ⟨C, hC, ht⟩ := micro_deliver_tells hs
    exact ⟨C, hC, ht, hp, hc⟩
  | swap =>
    obtain ⟨hs, hp, hc⟩ := setTicking_map h
    exact ⟨True, fun _ => .inr trivial, micro_swap_tells hs, hp, hc⟩
  | checkFlights t =>
    dsimp only [part] at h
    split_ifs at h
    · obtain ⟨hs, hp, hc⟩ := setWcb_map h
      exact ⟨_, id, (checkFlights_sends hs).tells, hp, hc⟩
    · cases h
      exact ⟨_, id, .refl, rfl, rfl⟩
  | checkSend t =>
    dsimp only [part] at h
    split_ifs at h
    · obtain ⟨hs, hp, hc⟩ := setWcb_map h
      exact ⟨_, id, (checkSend_sends hs).tells, hp, hc⟩
    · cases h
      exact ⟨_, id, .refl, rfl, rfl⟩

theorem closeBegin_view (w : Wcb) : (closeBegin w).wcbErrno ≠ 0 ∧ (closeBegin w).rcv = w.rcv := by
  have haborts (st : WcbState) : closeAborts st = true := by cases st <;> rfl
  unfold closeBegin
  dsimp only
  rw [haborts, if_pos rfl]
  refine ⟨?_, ?_⟩
  · split_ifs with h₁ h₂ h₂
    · exact eConnaborted_ne
    · exact h₂
    · exact eConnaborted_ne
    · exact h₂
  · split_ifs <;> rfl

theorem closeEnd_view {r : Int × Wcb} (h : closeEnd w = .ok r) :
    r.2.wcbErrno = w.wcbErrno ∧ r.2.rcv = { w.rcv with localReadShutdowned := true } := by
  unfold closeEnd at h
  split_ifs at h
  · cases h; exact ⟨rfl, rfl⟩
  · cases h; exact ⟨rfl, rfl⟩

theorem part_erring (h : Erring s) (hs : part e s = .ok s') : Erring s' := by
  by_cases he : e.isWrite = false
  · obtain ⟨C, -, ht, hp, -⟩ := part_tells he hs
    exact ht.erring h hp
  cases e with
  | closeBegin =>
    cases hs
    split_ifs
    · exact h
    · obtain ⟨hne, -⟩ := closeBegin_view s.wcb
      exact ⟨fun _ => hne, fun _ => hne⟩
  | closeEnd =>
    dsimp only [part] at hs
    split_ifs at hs
    · obtain ⟨r, hr, rfl⟩ := map_eq_ok.1 hs
      obtain ⟨herrno, hrcv⟩ := closeEnd_view hr
      refine ⟨fun herr => ?_, fun hp => ?_⟩
      · have herr : r.2.rcv.recvError = true := herr
        rw [hrcv] at herr
        exact herrno ▸ h.recvError herr
      · exact herrno ▸ h.pumping hp
    · cases hs; exact h
  | pumpErrno ec =>
    cases hs
    split_ifs with hec
    · exact h
    · have hne : ec ≠ 0 := fun hz => hec (.inl hz)
      exact ⟨fun _ => hne, fun _ => hne⟩
  | pumpFlag =>
    cases hs
    split_ifs with hp
    · exact ⟨fun _ => h.pumping hp, nofun⟩
    · exact h
  | _ => exact absurd rfl he

theorem part_known (h : ErrnoKnown s) (hq : Quiet s e) (hs : part e s = .ok s') : ErrnoKnown s' := by
  by_cases he : e.isWrite = false
  · obtain ⟨C, hC, ht, hp, hc⟩ := part_tells he hs
    exact ht.known h (hC hq) hp hc
  cases e with
  | closeBegin =>
    cases hs
    split_ifs
    · exact h
    · exact fun _ => .inr (.inr rfl)
  | closeEnd =>
    dsimp only [part] at hs
    split_ifs at hs
    · obtain ⟨r, hr, rfl⟩ := map_eq_ok.1 hs
      obtain ⟨-, hrcv⟩ := closeEnd_view hr
      refine fun _ => .inl (.inr (.inl ?_))
      show r.2.rcv.localReadShutdowned = true
      rw [hrcv]
    · cases hs; exact h
  | pumpErrno ec =>
    cases hs
    split_ifs
    · exact h
    · exact fun _ => .inr (.inl rfl)
  | pumpFlag =>
    cases hs
    split_ifs
    · exact fun _ => .inl (.inl rfl)
    · exact h
  | _ => exact absurd rfl he

theorem Entered.errorView {bindErrno : Int} (h : Entered bindErrno w) : w.errorView = ⟨bindErrno, false, false, false⟩ := by
  cases h with
  | active u now rcvCap sndCap addr w h =>
    unfold connect at h
    split_ifs at h
    cases h
    rfl
  | passive u now rcvCap sndCap synpack h => rw [h]; rfl
  | listener u now rcvCap sndCap => rfl

theorem Entered.erring {bindErrno : Int} (h : Entered bindErrno w) : Erring (.start w) := by
  have hview := congrArg ErrorView.recvError h.errorView
  have hview : w.rcv.recvError = false := hview
  exact ⟨fun hr => absurd (hview.symm.trans hr) nofun, nofun⟩

end

/-! ### `recv` -/

theorem RecvAnswers.of_eq {size : Nat} {r : RecvResult} (h : recv size w = .ok (r, w')) (hr : r.Proper) : RecvAnswers size w := ⟨r, w', h, hr⟩

theorem not_recvAnswers {size : Nat} {f : Fault} (h : recv size w = .error f) : ¬ RecvAnswers size w := by
  rintro ⟨r, w', hr, -⟩
  rw [h] at hr
  cases hr

/-- What a call of `recv` comes to, where a receive error is one of `wcb_errno`. -/
theorem recvAnswers_iff {size : Nat} (h : w.rcv.recvError = true → w.wcbErrno ≠ 0) :
    RecvAnswers size w ↔ w.rcv.localReadShutdowned = true ∨
      if w.rcv.rb.count > 0 then size ≠ 0 else w.errorView.Told ∨ w.wcbErrno = 0 := by
  by_cases hshut : w.rcv.localReadShutdowned = true
  · have hrecv : recv size w = .ok (.error eConnaborted, w) := if_pos hshut
    exact iff_of_true (.of_eq hrecv (show eConnaborted < 0 by decide)) (.inl hshut)
  rw [or_iff_right hshut]
  by_cases hcount : w.rcv.rb.count > 0
  · rw [if_pos hcount]
    by_cases hsize : size = 0
    · refine iff_of_false (not_recvAnswers (f := .recvNothing) ?_) (not_not_intro hsize)
      unfold recv
      rw [if_neg hshut, if_pos hcount, if_pos hsize]
    · refine iff_of_true ?_ hsize
      unfold RecvAnswers recv
      rw [if_neg hshut, if_pos hcount, if_neg hsize]
      refine ⟨_, _, rfl, ?_⟩
      have hpos : 0 < (w.rcv.rb.front size).length := by
        have hitems : 0 < w.rcv.rb.items.length := hcount
        rw [BoundedQueue.front, List.length_take]
        omega
      exact List.length_pos_iff.1 hpos
  rw [if_neg hcount]
  have htold : w.errorView.Told ↔ w.rcv.recvError = true ∨ w.rcv.remoteFinReceived = true :=
    or_congr_right (or_iff_right hshut)
  rw [htold]
  by_cases hfin : w.rcv.remoteFinReceived = true
  · refine iff_of_true ?_ (.inl (.inr hfin))
    unfold RecvAnswers recv
    rw [if_neg hshut, if_neg hcount, if_pos hfin]
    split_ifs
    · exact ⟨_, _, rfl, show eConnreset < 0 by decide⟩
    · exact ⟨_, _, rfl, trivial⟩
  by_cases herr : w.rcv.recvError = true
  · have hne := h herr
    refine iff_of_true ?_ (.inl (.inl herr))
    unfold RecvAnswers recv
    rw [if_neg hshut, if_neg hcount, if_neg hfin, if_pos herr, if_neg hne]
    refine ⟨_, _, rfl, ?_⟩
    show (if w.wcbErrno < 0 then w.wcbErrno else - w.wcbErrno) < 0
    split_ifs with hneg
    · exact hneg
    · omega
  rw [or_iff_right (not_or.2 ⟨herr, hfin⟩)]
  by_cases hzero : w.wcbErrno = 0
  · refine iff_of_true ?_ hzero
    unfold RecvAnswers recv
    rw [if_neg hshut, if_neg hcount, if_neg hfin, if_neg herr, if_neg (not_not_intro hzero)]
    split_ifs
    · exact ⟨_, _, rfl, show eWouldblock < 0 by decide⟩
    · exact ⟨_, _, rfl, trivial⟩
  · refine iff_of_false (not_recvAnswers (f := .recvErrno) ?_) hzero
    unfold recv
    rw [if_neg hshut, if_neg hcount, if_neg hfin, if_neg herr, if_pos hzero]

/-- In every run of parts, a call of `recv` answers exactly if the read side is shut, or there are bytes
and some are asked for, or there are none and `wcb_errno` is zero or known by a bit of `r_flag`. -/
theorem recv_answers_iff {bindErrno : Int} {w₀ : Wcb} {es : List Part} {s : Parted} (h₀ : Entered bindErrno w₀)
    (h : Run part (fun _ _ => True) (.start w₀) es s) (size : Nat) :
    RecvAnswers size s.wcb ↔ s.wcb.rcv.localReadShutdowned = true ∨
      if s.wcb.rcv.rb.count > 0 then size ≠ 0 else s.wcb.errorView.Told ∨ s.wcb.wcbErrno = 0 :=
  recvAnswers_iff (h.inv Erring (fun _ _ _ he _ hs => part_erring he hs) h₀.erring).recvError

/-- In every run, however its parts interleave, in which no part writes `wcb_errno` without a bit of
`r_flag`, every call of `recv` answers. -/
theorem recv_answers {w₀ : Wcb} {es : List Part} {s : Parted} {size : Nat} (h₀ : Entered 0 w₀) (h : Run part Quiet (.start w₀) es s)
    (hq : Quiet s (.call (.recv size))) : RecvAnswers size s.wcb := by
  have hstart : ErrnoKnown (.start w₀) := fun hne => absurd (congrArg ErrorView.errno h₀.errorView) hne
  have hknown : ErrnoKnown s := h.inv ErrnoKnown (fun _ _ _ hk hq hs => part_known hk hq hs) hstart
  have hall : Run part (fun _ _ => True) (.start w₀) es s := h.mono fun _ _ _ => trivial
  refine (recv_answers_iff h₀ hall size).2 (hq.imp_right fun hq => ?_)
  split_ifs with hcount
  · rwa [if_pos hcount] at hq
  · rw [if_neg hcount] at hq
    rcases hq with htold | ⟨hp, hc⟩
    · exact .inl htold
    · by_cases hzero : s.wcb.wcbErrno = 0
      · exact .inr hzero
      · rcases hknown hzero with htold | hp' | hc'
        · exact .inl htold
        · exact absurd (hp.symm.trans hp') nofun
        · exact absurd (hc.symm.trans hc') nofun

/-- A byte follows. -/
def byteParts : List Part :=
  handshakeParts ++ [.call (.arrive serverByte), .beginRecv (.at 3), .deliver, .deliver, .swap]

/-- The client reads it. -/
theorem recv_answers_byte : ∃ es s, Run part Quiet (.start Wcb.connecting) es s ∧ s.wcb.rcv.rb.items = [8] ∧ RecvAnswers 1 s.wcb := by
  obtain ⟨s, hrun, hbyte, hq⟩ := Run.of_decide (f := part) (s := .start Wcb.connecting) (P := Quiet) (Q := fun s => s.wcb.rcv.rb.items = [8] ∧ Quiet s (.call (.recv 1))) byteParts
    (by decide)
  exact ⟨_, s, hrun, hbyte, recv_answers entered_connecting hrun hq⟩

/-- A RST of the server in its place -/
def serverRst (seq : Nat) : WcbReceivedPack :=
  ⟨(Datagram.fresh seq .rst [] (Nat.zero_le _)).stamp 1 (2 * wcpRcvBufferMin), ⟨2⟩⟩

/-- The connection is reset while the client has nothing to read: the next `recv` fails its assertion. -/
theorem recv_asserts : ∃ es s, Run part (fun _ _ => True) (.start Wcb.connecting) es s ∧ Entered 0 Wcb.connecting ∧
    recv 1 s.wcb = .error .recvErrno ∧ ¬ RecvAnswers 1 s.wcb := by
  obtain ⟨s, hrun, hfails⟩ := Run.of_reaches (f := part) (P := fun s => decide (fault? (recv 1 s.wcb) = some .recvErrno))
    (handshakeParts ++ [.call (.arrive (serverRst 1)), .beginRecv (.at 3), .deliver]) (Parted.start Wcb.connecting) (by decide)
  have hfails := fault?_eq_some.1 (of_decide_eq_true hfails)
  exact ⟨_, s, hrun, entered_connecting, hfails, not_recvAnswers hfails⟩

end Wawo
