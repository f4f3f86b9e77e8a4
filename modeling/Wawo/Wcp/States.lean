import Wawo.Wcp.Receiver

/-!
# How `WCB::update` moves the state

`check_flights` leaves the state alone, `check_send` moves it behind a SYN or a FIN (`SendMove`), and
`check_recv` never leads to `WCB_RECYCLE`, which only `close` and a further tick reach
(`update_recycle`).
-/

namespace Wawo

open Lts Relation

variable {w w' : Wcb} {now : Nat} {p : WcbReceivedPack} {rest : List WcbReceivedPack} {x : Delivery}

/-! ### `check_flights` -/

theorem retransmit_state {q q' : WcbPack} {rt : Int} (h : retransmit now q w = .ok (rt, q', w')) : w'.state = w.state := by
  unfold retransmit at h
  obtain ⟨⟨rt', d, w₁⟩, hs, h⟩ := bind_eq_ok.1 h
  obtain ⟨-, -, hst, -⟩ := sendPack_cases hs
  dsimp only at h
  split_ifs at h
  · cases h; exact (noteSendError_state _ _).trans hst
  · cases h; exact hst

theorem scanFlights_state {flights pre : List WcbPack} {lost maxSent : Nat} {c : Nat × Nat × Wcb}
    (h : scanFlights now pre flights lost maxSent w = .ok c) : c.2.2.state = w.state := by
  induction flights generalizing pre lost maxSent w with
  | nil => cases h; rfl
  | cons q flights ih =>
    unfold scanFlights at h
    by_cases hu : w.snd.unaUpdate = true ∧ q.seq < w.snd.una
    · rw [if_pos hu] at h
      obtain ⟨t, -, h⟩ := bind_eq_ok.1 h
      exact ih (w := w.setSnd (t.setFlights (pre ++ flights))) h
    rw [if_neg hu] at h
    dsimp only at h
    generalize w.snd.retransmitReason now q = reason at h
    obtain ⟨w₁, hw₁⟩ : ∃ w₁, w₁ = w.setSnd (w.snd.noteLost reason q) := ⟨_, rfl⟩
    have hst₁ : w₁.state = w.state := by rw [hw₁, Wcb.setSnd_state]
    rw [← hw₁] at h
    by_cases h0 : reason = 0
    · rw [if_pos h0] at h; exact (ih h).trans hst₁
    rw [if_neg h0] at h
    obtain ⟨⟨rt, q', w₂⟩, hr, h⟩ := bind_eq_ok.1 h
    have hst : w₂.state = w.state := (retransmit_state hr).trans hst₁
    dsimp only at h
    by_cases hrt : rt ≠ ok
    · rw [if_pos hrt] at h; cases h; exact hst
    · rw [if_neg hrt] at h
      exact (ih (w := w₂.setSnd (w₂.snd.setFlights (pre ++ q' :: flights))) h).trans hst

theorem checkFlights_state (h : checkFlights now w = .ok w') : w'.state = w.state := by
  unfold checkFlights at h
  dsimp only at h
  split_ifs at h
  · cases h; rfl
  · obtain ⟨c, hs, h⟩ := bind_eq_ok.1 h
    have hscan := scanFlights_state (w := { w with snd := { w.snd with lastRtoTimer := now } }) hs
    refine Eq.trans ?_ hscan
    unfold detectLost at h
    dsimp only at h
    split_ifs at h <;> cases h <;> rfl

/-! ### `check_send` -/

/-- What the parts of `check_send` keep. -/
structure SendRule (now : Nat) (I : Wcb → Prop) : Prop where
  rwnd : ∀ w, I w → I (checkRwnd now w)
  ctl : ∀ w d c, I w → sendCtlOne d w = .ok c → I c.1
  transmit : ∀ w q l c, I w → w.snd.sending = q :: l → transmitOne now q l w = .ok c → I c.1
  refill : ∀ w, I w → I (w.setSnd w.snd.refill)

namespace SendRule

variable {I : Wcb → Prop}

theorem sendCtlLoop {k : Nat} {c : Wcb × SendExit} (hI : SendRule now I) (hw : I w) (h : sendCtlLoop k w = .ok c) :
    I c.1 := by
  induction k generalizing w with
  | zero => cases h; exact hw
  | succ k ih =>
    unfold Wawo.sendCtlLoop at h
    split at h
    · cases h; exact hw
    · obtain ⟨⟨w₁, x⟩, ho, h⟩ := bind_eq_ok.1 h
      have hone : I w₁ := hI.ctl _ _ _ hw ho
      cases x with
      | more => exact ih hone h
      | stop => cases h; exact hone
      | brk => cases h; exact hone

theorem transmitLoop {l : List WcbPack} {c : Wcb × SendExit} (hI : SendRule now I) (hw : I w)
    (hl : w.snd.sending = l) (h : transmitLoop now l w = .ok c) : I c.1 := by
  induction l generalizing w with
  | nil => cases h; exact hw
  | cons q l ih =>
    unfold Wawo.transmitLoop at h
    obtain ⟨⟨w₁, x⟩, ho, h⟩ := bind_eq_ok.1 h
    have hone : I w₁ := hI.transmit _ _ _ _ hw hl ho
    cases x with
    | more => exact ih hone ((transmitOne_rcv ho).2 rfl) h
    | stop => cases h; exact hone
    | brk => cases h; exact hone

theorem sendRounds {k : Nat} (hI : SendRule now I) (hw : I w) (h : sendRounds now k w = .ok w') : I w' := by
  induction k generalizing w with
  | zero => cases h
  | succ k ih =>
    unfold Wawo.sendRounds at h
    obtain ⟨⟨w₁, x⟩, ht, h⟩ := bind_eq_ok.1 h
    have hone : I w₁ := hI.transmitLoop hw rfl ht
    have hround : ∀ {y : Except Fault Wcb}, y = .ok w' →
        y = (if (w₁.setSnd w₁.snd.refill).snd.sending = [] then .ok (w₁.setSnd w₁.snd.refill)
          else Wawo.sendRounds now k (w₁.setSnd w₁.snd.refill)) → I w' := by
      rintro y hy rfl
      split_ifs at hy
      · cases hy; exact hI.refill w₁ hone
      · exact ih (hI.refill w₁ hone) hy
    cases x with
    | stop => cases h; exact hone
    | more => exact hround h rfl
    | brk => exact hround h rfl

theorem checkSend (hI : SendRule now I) (hw : I w) (h : checkSend now w = .ok w') : I w' := by
  unfold Wawo.checkSend at h
  by_cases he : w.snd.sendError = true
  · rw [if_pos he] at h; cases h; exact hw
  rw [if_neg he] at h
  obtain ⟨⟨w₁, x⟩, hc, h⟩ := bind_eq_ok.1 h
  have hone : I w₁ := hI.sendCtlLoop (hI.rwnd w hw) hc
  cases x with
  | more => exact hI.sendRounds hone h
  | stop => cases h; exact hone
  | brk => cases h; exact hone

end SendRule

/-- The state changes of `check_send`. -/
inductive SendMove : WcbState → WcbState → Prop
  | stay (st : WcbState) : SendMove st st
  | syn : SendMove .syning .synSent
  | fin : SendMove .established .finWait1
  | lastFin : SendMove .closeWait .lastAck

theorem SendMove.of_eq {st st' : WcbState} (h : st' = st) : SendMove st st' := h ▸ .stay _

theorem SendMove.trans {st st' st'' : WcbState} (h : SendMove st st') (h' : SendMove st' st'') : SendMove st st'' := by
  cases h with
  | stay => exact h'
  | syn => cases h'; exact .syn
  | fin => cases h'; exact .fin
  | lastFin => cases h'; exact .lastFin

theorem afterLaunch_move {q : WcbPack} {l : List WcbPack} {c : Wcb × SendExit} {st : WcbState}
    (h : afterLaunch now q l w = .ok c) (hw : w.state = st) : SendMove st c.1.state := by
  subst hw
  rcases afterLaunch_cases h with ⟨hf, -⟩ | ⟨-, -, -, -, hs⟩
  · unfold afterLaunch at h
    rw [if_pos hf] at h
    split at h
    · rename_i hs; cases h; rw [hs]; exact .fin
    · rename_i hs; cases h; rw [hs]; exact .lastFin
    · cases h
  · split_ifs at hs with hsyn
    · rw [hs, hsyn.2]; exact .syn
    · exact .of_eq hs

theorem transmitOne_move {q : WcbPack} {l : List WcbPack} {c : Wcb × SendExit}
    (h : transmitOne now q l w = .ok c) : SendMove w.state c.1.state := by
  rcases transmitOne_cases h with rfl | ⟨rt, d, w₁, hs, rfl⟩ | ⟨d, w₁, hs, -, -, -, ha⟩
  · exact .stay _
  · obtain ⟨-, -, hst, -⟩ := sendPack_cases hs
    exact .of_eq ((noteSendError_state _ _).trans hst)
  · obtain ⟨-, -, hst, -⟩ := sendPack_cases hs
    exact afterLaunch_move ha hst

theorem checkSend_move (h : checkSend now w = .ok w') : SendMove w.state w'.state := by
  refine SendRule.checkSend (I := fun v => SendMove w.state v.state) ⟨?_, ?_, ?_, ?_⟩ (.stay _) h
  · intro v hv
    refine hv.trans (.of_eq ?_)
    unfold checkRwnd
    split_ifs <;> rfl
  · exact fun v d c hv hc => hv.trans (.of_eq (sendCtlOne_rcv hc).2)
  · exact fun v q l c hv _ hc => hv.trans (transmitOne_move hc)
  · exact fun v hv => hv

/-! ### `check_recv` -/

/-- The state changes of the FIN branch of the delivery loop. -/
inductive FinMove : WcbState → WcbState → Prop
  | received : FinMove .established .closeWait
  | crossed : FinMove .finWait1 .closing
  | finished : FinMove .finWait2 .timeWait
  | aborted (st : WcbState) : FinMove st .closed

theorem deliverSyn_state (h : deliverSyn w p rest = (w', x)) : w'.state = w.state ∨ w'.state = .closed := by
  unfold deliverSyn at h
  split_ifs at h
  · split at h
    · cases h; exact .inl rfl
    · cases h; exact .inl rfl
    · cases h; exact .inr rfl
  · cases h; exact .inl rfl

theorem deliverFin_state (now : Nat) (w : Wcb) (p : WcbReceivedPack) :
    (deliverFin now w p).state = w.state ∨ FinMove w.state (deliverFin now w p).state := by
  unfold deliverFin
  split_ifs
  · right
    dsimp only
    cases w.state with
    | established => exact .received
    | finWait1 => exact .crossed
    | finWait2 => exact .finished
    | _ => exact .aborted _
  · exact .inl rfl

/-- The moves of the delivery loop keep `P`. -/
structure RecvRule (P : WcbState → Prop) : Prop where
  closed : P .closed
  ack : ∀ {st st'}, AckMove st st' → P st → P st'
  fin : ∀ {st st'}, FinMove st st' → P st → P st'

namespace RecvRule

variable {P : WcbState → Prop}

theorem deliverFlags (hP : RecvRule P) (hst : P w.state) (h : deliverFlags now w p rest = .ok (w', x)) : P w'.state := by
  have hsyn : ∀ {v y}, deliverSyn w p rest = (v, y) → P v.state := by
    intro v y hs
    rcases deliverSyn_state hs with he | he
    · rw [he]; exact hst
    · rw [he]; exact hP.closed
  rcases deliverFlags_cases h with ⟨-, -, rfl⟩ | ⟨-, -, hs⟩ | ⟨-, -, w₁, w₂, hs, ha, rfl⟩
  · exact hP.closed
  · exact hsyn hs
  · have hack : P w₂.state := by
      rcases deliverAck_cases ha with rfl | ⟨-, hm, -⟩
      · exact hsyn hs
      · exact hP.ack hm (hsyn hs)
    show P (deliverFin now w₂ p).state
    rcases deliverFin_state now w₂ p with he | hm
    · rw [he]; exact hack
    · exact hP.fin hm hack

theorem deliverOne (hP : RecvRule P) (hst : P w.state) (h : deliverOne now p rest w = .ok (w', x)) : P w'.state := by
  unfold Wawo.deliverOne at h
  split_ifs at h
  · cases h; exact hst
  obtain ⟨⟨w₂, y⟩, hd, h⟩ := bind_eq_ok.1 h
  rcases deliverData_cases hd with ⟨rfl, -, hc, -⟩ | ⟨rfl, rfl⟩ | ⟨rfl, r, rfl, -⟩
  · cases h; rw [hc]; exact hP.closed
  · cases h; exact hst
  · exact hP.deliverFlags (w := { w with rcv := r.advance p }) hst h

theorem deliverLoop {l : List WcbReceivedPack} (hP : RecvRule P) (hst : P w.state) (h : deliverLoop now l w = .ok w') :
    P w'.state := by
  induction l generalizing w with
  | nil => cases h; exact hst
  | cons p rest ih =>
    unfold Wawo.deliverLoop at h
    obtain ⟨⟨w₁, x⟩, ho, h⟩ := bind_eq_ok.1 h
    have hone : P w₁.state := hP.deliverOne hst ho
    cases x with
    | stop => cases h; exact hone
    | more => exact ih hone h

theorem checkRecv (hP : RecvRule P) (hst : P w.state) (h : checkRecv now w = .ok w') : P w'.state := by
  obtain ⟨w₁, rfl, hw₁⟩ := checkRecv_cases h
  rcases hw₁ with ⟨-, rfl⟩ | ⟨-, w₂, ht, hl⟩
  · show P (checkKeepalive now w.takeArrived).state
    unfold checkKeepalive
    dsimp only
    split_ifs <;> exact hst
  · obtain ⟨s, r, he⟩ := takeBatch_frame ht
    have hone : P w₁.state := hP.deliverLoop (by rw [he]; exact hst) hl
    exact hone

end RecvRule

theorem recvRule_ne_recycle : RecvRule (· ≠ .recycle) where
  closed := nofun
  ack hm _ := by cases hm <;> exact nofun
  fin hm _ := by cases hm <;> exact nofun

/-! ### `WCB::update` -/

/-- A tick leads to `WCB_RECYCLE` only from `WCB_CLOSED`, once `close` was called. -/
theorem update_recycle (h : update now w = .ok w') (hst : w'.state = .recycle) :
    w.state = .recycle ∧ w' = w ∨ w.closedCalled = true ∧ w'.closedCalled = true := by
  by_cases hr : w.state = .recycle
  · unfold update at h
    rw [hr] at h
    cases h
    exact .inl ⟨hr, rfl⟩
  by_cases hc : w.state = .closed
  · unfold update at h
    rw [hc] at h
    dsimp only at h
    split_ifs at h with hd
    · cases h; exact .inr ⟨hd.2.2, hd.2.2⟩
    · cases h; exact absurd hst hr
  have hmove : ∀ {v v' : Wcb}, v.state ≠ .recycle → checkFlights now v = .ok v' → v'.state ≠ .recycle := by
    intro v v' hv hf
    rw [checkFlights_state hf]
    exact hv
  have hsend : ∀ {v v' : Wcb}, v.state ≠ .recycle → checkSend now v = .ok v' → v'.state ≠ .recycle := by
    intro v v' hv hs hc
    have hm := checkSend_move hs
    rw [hc] at hm
    generalize v.state = st at hm hv
    cases hm
    exact hv rfl
  exfalso
  rcases update_eq now w with ⟨st, errno, hst', he⟩ | ⟨-, k, hk, he⟩ | ⟨-, he⟩
  · rw [he] at h
    cases h
    rcases hst' with hs | hs | hs
    · exact hr (hs.symm.trans hst)
    · rw [show st = .recycle from hst] at hs; cases hs
    · exact hc hs.2.1
  · rw [he] at h
    obtain ⟨w₁, h₁, rfl⟩ := map_eq_ok.1 h
    unfold checkAll at h₁
    obtain ⟨v₁, hv₁, h₁⟩ := bind_eq_ok.1 h₁
    obtain ⟨v₂, hv₂, hv₃⟩ := bind_eq_ok.1 h₁
    have hne := hsend (hmove (recvRule_ne_recycle.checkRecv hr hv₁) hv₂) hv₃
    rcases hk w₁ with hk | hk
    · exact hne (hk.symm.trans hst)
    · rw [show k w₁ = .recycle from hst] at hk; cases hk
  · rw [he] at h
    obtain ⟨v, hv, hs⟩ := bind_eq_ok.1 h
    exact hsend (hmove hr hv) hs hst

end Wawo
