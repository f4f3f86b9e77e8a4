import Wawo.Wcp.SenderSim

/-!
# `WCB::close`

`CloseSpec` is what `close` is for: a connection that can still exchange data keeps its state and
announces the end of its stream behind what is queued; a connection that never got that far is
dropped. The condition of the second branch of `close` ends in an enumerator instead of a
comparison, so the branch is always taken (`close_eq`).
-/

namespace Wawo

variable {w w' : Wcb}

/-- `close` on a connection whose stream can still be drained. -/
structure GracefulClose (w w' : Wcb) : Prop where
  state_eq : w'.state = w.state
  write_shut : w'.snd.localWriteShutdowned = true
  read_shut : w'.rcv.localReadShutdowned = true
  fin_queued : w'.snd.sendingStandby =
    if w.snd.localWriteShutdowned then w.snd.sendingStandby else w.snd.FIN.sendingStandby
  sb_eq : w'.snd.sb = w.snd.sb
  sending_eq : w'.snd.sending = w.snd.sending
  flights_eq : w'.snd.flights = w.snd.flights
  -- the following ticks go on receiving, retransmitting and sending
  ticks : w.wcbErrno = 0 → ∀ now, update now w' = checkAll now w'

/-- `close` on a connection that is dropped at once. -/
structure DirectClose (w' : Wcb) : Prop where
  state_eq : w'.state = .closed
  recycled : ∀ now, update now w' = .ok { w' with state := .recycle }

/-- The states of a connection without a stream to drain. -/
def WcbState.droppable (state : WcbState) : Prop :=
  state = .listen ∨ state = .syning ∨ state = .synSent ∨ state = .synReceived ∨ state = .closed

/-- What a call of `close` that is not refused does. -/
def CloseSpec (w : Wcb) : Prop :=
  ∀ rt w', close w = .ok (rt, w') → rt ≠ eAlready →
    (w.state = .established ∨ w.state = .closeWait → GracefulClose w w') ∧
    (w.state.droppable → DirectClose w') ∧
    (w'.state = .closed → w.state.droppable)

/-- After a first `close` the next tick recycles the connection, whatever it still had to send. -/
theorem directClose_of_close {rt : Int} (h : w.closedCalled = false) (hc : close w = .ok (rt, w')) :
    DirectClose w' := by
  rw [close_eq h] at hc
  cases hc
  refine ⟨rfl, fun now => ?_⟩
  unfold update
  rfl

/-- `close` does what it is for exactly if it is refused or there is no stream to drain. -/
theorem closeSpec_iff (w : Wcb) : CloseSpec w ↔ w.closedCalled = true ∨ w.state.droppable := by
  constructor
  · intro h
    cases hc : w.closedCalled with
    | true => exact .inl rfl
    | false =>
      refine .inr ?_
      have hw := close_eq hc
      exact (h _ _ hw (by decide)).2.2 rfl
  · rintro (h | h) rt w' hc hrt
    · unfold close at hc
      rw [if_pos h] at hc
      cases hc
      exact absurd rfl hrt
    · cases hcc : w.closedCalled with
      | true =>
        unfold close at hc
        rw [if_pos hcc] at hc
        cases hc
        exact absurd rfl hrt
      | false =>
        refine ⟨?_, fun _ => directClose_of_close hcc hc, fun _ => h⟩
        rintro (he | he) <;> rw [he] at h <;> simp [WcbState.droppable] at h

/-- An established connection with a byte to send is dropped. -/
theorem not_closeSpec_established : ¬ CloseSpec (Wcb.connecting.after (handshake ++ [.send [7]])) := by
  intro h
  have hclose := close_eq (w := Wcb.connecting.after (handshake ++ [.send [7]])) (by decide)
  have he : (Wcb.connecting.after (handshake ++ [.send [7]])).state = .established := by decide
  have hg := (h _ _ hclose (by decide)).1 (.inl he)
  have hstate := hg.state_eq
  rw [he] at hstate
  cases hstate

end Wawo
