import Wawo.Wcp.Control
import Wawo.Wcp.Flights
import Wawo.Wcp.States

/-!
# Congestion control

`Cong.Step` is congestion control on unbounded numbers: the window grows with every acknowledged pack, a
loss sets it back to `WCP_LW` packs, a fast recovery gives back what the loss took. Each addition to the
window carries the fact that it is below `2 ^ 32`. The functions of the control block take such steps
only (`step_cong`), so their `u32_t` arithmetic does not wrap, and `Cong.Bounded` is kept.
-/

namespace Wawo

open Lts Relation

/-- The variables of congestion control. -/
structure Cong where
  cwnd : Nat
  ssthresh : Nat
  rto : Nat
  compensation : Nat
  nflight : Nat
  nflightMax : Nat
  slowStart : Bool
  avoidance : Bool
  lostDetected : Bool

def Snd.cong (s : Snd) : Cong where
  cwnd := s.cwnd
  ssthresh := s.ssthresh
  rto := s.rto
  compensation := s.lostCwndForFastRecoveryCompensation
  nflight := s.nflightBytes
  nflightMax := s.nflightBytesMax
  slowStart := s.cwndSlowStart
  avoidance := s.cwndCongestAvoidance
  lostDetected := s.lostDetected

namespace Cong

variable {c c' : Cong}

inductive Step (c : Cong) : Cong → Prop
  -- a pack of `n` bytes is acknowledged in slow start
  | grow (n : Nat) (hs : c.slowStart = true) (hadd : c.cwnd + n < 2 ^ 32) :
      Step c { c with
        cwnd := min (c.cwnd + n) wcpSndCwndMax
        slowStart := !decide (c.ssthresh ≤ c.cwnd + n)
        avoidance := c.avoidance || decide (c.ssthresh ≤ c.cwnd + n) }
  -- a pack is acknowledged in congestion avoidance, an RTT behind the last one that counted
  | avoid (hadd : c.cwnd + wcpMtu < 2 ^ 32) : Step c { c with cwnd := min (c.cwnd + wcpMtu) wcpSndCwndMax }
  | setRto (rto : Nat) (hlo : wcpRtoMin ≤ rto) (hhi : rto ≤ wcpRtoMax) : Step c { c with rto := rto }
  | backoff : Step c { c with rto := min (c.rto / 2 + c.rto) wcpRtoMax }
  | drop (n : Nat) : Step c { c with nflight := c.nflight - n }
  | launch (n : Nat) (h : n < c.cwnd) :
      Step c { c with nflight := n, nflightMax := if n > c.nflightMax then n else c.nflightMax }
  | lose (h : c.nflight ≤ c.nflightMax) :
      Step c { c with
        compensation := max (c.nflightMax / 2) wcpSndSsthreshMin - c.nflight / 2
        ssthresh := min (max (c.nflightMax / 2) wcpSndSsthreshMin) c.ssthresh
        nflightMax := max (c.nflightMax / 2) c.nflight
        slowStart := true, avoidance := false, lostDetected := true
        cwnd := wcpLw * wcpMtu }
  -- the end of fast recovery
  | recover (hl : c.lostDetected = true) (hadd : c.cwnd + c.compensation < 2 ^ 32) :
      Step c { c with
        cwnd := min (c.cwnd + c.compensation) wcpSndCwndMax
        ssthresh := max (min (min (c.cwnd + c.compensation) wcpSndCwndMax) wcpSndSsthreshMax) c.ssthresh
        compensation := 0, lostDetected := false }

/-- The bounds of congestion control. The compensation, which `init` leaves unset, counts only while a
loss is being recovered from. -/
structure Bounded (c : Cong) : Prop where
  flags : c.slowStart = !c.avoidance
  cwnd_ge : wcpLw * wcpMtu ≤ c.cwnd
  cwnd_le : c.cwnd ≤ wcpSndCwndMax
  ssthresh_ge : wcpSndSsthreshMin ≤ c.ssthresh
  ssthresh_le : c.ssthresh ≤ wcpSndSsthreshMax
  rto_ge : wcpRtoMin ≤ c.rto
  rto_le : c.rto ≤ wcpRtoMax
  nflight_lt : c.nflight < wcpSndCwndMax
  nflightMax_lt : c.nflightMax < wcpSndCwndMax
  compensation_le : c.lostDetected = true → c.compensation ≤ wcpSndCwndMax

theorem Bounded.step (h : Bounded c) (hs : Step c c') : Bounded c' := by
  have hlw : wcpLw * wcpMtu ≤ wcpSndCwndMax := by decide
  have hss : wcpSndSsthreshMin ≤ wcpSndSsthreshMax := by decide
  have hmin : wcpSndSsthreshMin < wcpSndCwndMax := by decide
  have hrto : wcpRtoMin ≤ wcpRtoMax := by decide
  obtain ⟨hf, hc, hc', ht, ht', hr, hr', hn, hm, hk⟩ := h
  cases hs with
  | grow n hs hadd =>
    have hav : c.avoidance = false := by simpa [hs] using hf
    exact ⟨by simp [hav], by dsimp only; omega, by dsimp only; omega, ht, ht', hr, hr', hn, hm, hk⟩
  | avoid hadd => exact ⟨hf, le_min (Nat.le_add_right_of_le hc) hlw, min_le_right _ _, ht, ht', hr, hr', hn, hm, hk⟩
  | setRto rto hlo hhi => exact ⟨hf, hc, hc', ht, ht', hlo, hhi, hn, hm, hk⟩
  | backoff => exact ⟨hf, hc, hc', ht, ht', by dsimp only; omega, by dsimp only; omega, hn, hm, hk⟩
  | drop n => exact ⟨hf, hc, hc', ht, ht', hr, hr', by dsimp only; omega, hm, hk⟩
  | launch n hlt => exact ⟨hf, hc, hc', ht, ht', hr, hr', by dsimp only; omega, by dsimp only; split_ifs <;> omega, hk⟩
  | lose hle =>
    refine ⟨rfl, le_refl _, hlw, ?_, ?_, hr, hr', hn, ?_, fun _ => ?_⟩
    all_goals dsimp only; omega
  | recover hl hadd =>
    have hcomp := hk hl
    refine ⟨hf, ?_, ?_, ?_, ?_, hr, hr', hn, hm, nofun⟩
    all_goals dsimp only; omega

end Cong

section

variable {s s' : Snd} {w w' : Wcb} {now : Nat}

/-! ### `check_recv` -/

/-- From bounded variables, the code takes steps of congestion control. -/
def Follows (s s' : Snd) : Prop := s.cong.Bounded → ReflTransGen Cong.Step s.cong s'.cong

theorem Follows.of_eq (h : s'.cong = s.cong) : Follows s s' := fun _ => h ▸ .refl

theorem Follows.bounded (h : Follows s s') (hb : s.cong.Bounded) : s'.cong.Bounded :=
  Simulates.star_inv (fun _ _ hc hs => hc.step hs) hb (h hb)

theorem Follows.trans {s'' : Snd} (h : Follows s s') (h' : Follows s' s'') : Follows s s'' :=
  fun hb => (h hb).trans (h' (h.bounded hb))

theorem checkCwnd_follows (s : Snd) (curr : Nat) {n : Nat} (hn : n ≤ wcpMtu) : Follows s (s.checkCwnd curr n) := by
  intro hb
  have hcap : wcpSndCwndMax + wcpMtu < 2 ^ 32 := by decide
  have hle : s.cwnd ≤ wcpSndCwndMax := hb.cwnd_le
  have hsize : s.cwnd + n < 2 ^ 32 := by omega
  have hmtu : s.cwnd + wcpMtu < 2 ^ 32 := by omega
  unfold Snd.checkCwnd
  dsimp only
  rw [u32_of_lt hsize, u32_of_lt hmtu]
  by_cases hs : s.cwndSlowStart = true
  · rw [if_pos hs]
    refine .single ?_
    have hg := Cong.Step.grow (c := s.cong) n hs hsize
    by_cases ht : s.cwnd + n ≥ s.ssthresh
    · rw [if_pos ht]
      simpa [Snd.cong, ht] using hg
    · rw [if_neg ht]
      simpa [Snd.cong, ht, hs] using hg
  · rw [if_neg hs]
    have hmin : min s.cwnd wcpSndCwndMax = s.cwnd := min_eq_left hle
    split_ifs
    · exact .single (.avoid hmtu)
    · rw [hmin]
    · rw [hmin]

theorem sampleRtt_follows (s : Snd) (rtt : Nat) : Follows s (s.sampleRtt rtt) := by
  have hrto : wcpRtoMin ≤ wcpRtoMax := by decide
  have hclamp : ∀ x : Nat, wcpRtoMin ≤ (if x > wcpRtoMax then wcpRtoMax else if x < wcpRtoMin then wcpRtoMin else x) ∧
      (if x > wcpRtoMax then wcpRtoMax else if x < wcpRtoMin then wcpRtoMin else x) ≤ wcpRtoMax := by
    intro x
    split_ifs <;> omega
  intro _
  unfold Snd.sampleRtt
  dsimp only
  by_cases hf : s.firstRttDone = true
  · rw [if_pos hf]
    exact .single (.setRto _ (hclamp _).1 (hclamp _).2)
  · rw [if_neg hf]
    exact .single (.setRto _ (hclamp _).1 (hclamp _).2)

theorem handlePackAcked_follows {p : WcbPack} {curr : Nat} (h : s.handlePackAcked p now curr = .ok s') : Follows s s' := by
  have hmtu := Sender.totalBytes_le_mtu p.toDatagram
  unfold Snd.handlePackAcked at h
  dsimp only at h
  obtain ⟨t, ht⟩ : ∃ t, t = if p.sentTimes = 1 then s.sampleRtt (u32 (subU64 now p.sentTs)) else s := ⟨_, rfl⟩
  rw [← ht] at h
  have hst : Follows s t := by
    rw [ht]
    split_ifs
    · exact sampleRtt_follows s _
    · exact .of_eq rfl
  split_ifs at h
  cases h
  have hdrop : Follows t { t with nflightBytes := t.nflightBytes - p.totalBytes } := fun _ => .single (.drop p.totalBytes)
  exact hst.trans (hdrop.trans (checkCwnd_follows _ curr hmtu))

theorem fastRecover_follows (s : Snd) (ack : Nat) : Follows s (s.fastRecover ack) := by
  intro hb
  have hcap : wcpSndCwndMax + wcpSndCwndMax < 2 ^ 32 := by decide
  unfold Snd.fastRecover
  by_cases hl : s.lostDetected = true ∧ ack > s.lostBiggestSeq
  · rw [if_pos hl]
    dsimp only
    split_ifs
    · have hcw : s.cwnd ≤ wcpSndCwndMax := hb.cwnd_le
      have hco : s.lostCwndForFastRecoveryCompensation ≤ wcpSndCwndMax := hb.compensation_le hl.1
      have hadd : s.cwnd + s.lostCwndForFastRecoveryCompensation < 2 ^ 32 := by omega
      rw [u32_of_lt hadd]
      exact .single (.recover hl.1 hadd)
    · exact .refl
  · rw [if_neg hl]

theorem ackOne_follows {clock : Nat → Nat} {ack : Nat} (h : s.ackOne now clock ack = .ok s') : Follows s s' := by
  unfold Snd.ackOne at h
  by_cases hu : ack < s.una
  · rw [if_pos hu] at h; cases h; exact .of_eq rfl
  rw [if_neg hu] at h
  dsimp only at h
  obtain ⟨t, ht⟩ : ∃ t, t = if ack > s.biggestAck then { s with biggestAck := ack, biggestSackUpdate := true } else s :=
    ⟨_, rfl⟩
  rw [← ht] at h
  have hst : Follows s t := by
    rw [ht]
    split_ifs <;> exact .of_eq rfl
  obtain ⟨v, hv, h⟩ := bind_eq_ok.1 h
  cases h
  refine hst.trans (Follows.trans ?_ (fastRecover_follows v ack))
  unfold Snd.ackFlight at hv
  split at hv
  · cases hv; exact .of_eq rfl
  · obtain ⟨x, hx, hv⟩ := bind_eq_ok.1 hv
    cases hv
    exact (handlePackAcked_follows hx).trans (.of_eq rfl)

theorem ackLoop_follows {clock : Nat → Nat} {acks : List Nat} (h : s.ackLoop now clock acks = .ok s') : Follows s s' :=
  foldlM_inv (Follows s) (fun _ _ _ _ hs ho => hs.trans (ackOne_follows ho)) h (.of_eq rfl)

theorem cong_takeAck (s : Snd) (h : WcpHeader) : (s.takeAck h).cong = s.cong := by
  unfold Snd.takeAck
  dsimp only
  split_ifs <;> rfl

theorem cong_SACK (n : Nat) (l : List Nat) (s : Snd) : (Snd.SACK n l s).cong = s.cong := by
  induction n generalizing l s with
  | zero => rfl
  | succ n ih =>
    cases l with
    | nil => rfl
    | cons a l => exact (ih _ _).trans rfl

theorem classify_cong {batch : List WcbReceivedPack} {c : Wcb × List Nat} (h : classify batch w = .ok c) :
    c.1.snd.cong = w.snd.cong := by
  refine foldlM_inv (fun c : Wcb × List Nat => c.1.snd.cong = w.snd.cong) (fun p _ c c' hc ho => ?_) h rfl
  have hack : (c.1.snd.takeAck p.header).cong = w.snd.cong := (cong_takeAck _ _).trans hc
  unfold classifyOne at ho
  dsimp only at ho
  split_ifs at ho
  · obtain ⟨acks, -, ho⟩ := bind_eq_ok.1 ho
    cases ho
    exact hack
  · cases ho; exact hack
  · cases ho; exact hack
  · cases ho; exact hack

theorem takeBatch_follows {batch : List WcbReceivedPack} (h : takeBatch now batch w = .ok w') :
    Follows w.snd w'.snd := by
  unfold takeBatch at h
  dsimp only at h
  obtain ⟨⟨w₁, acks⟩, hc, h⟩ := bind_eq_ok.1 h
  obtain ⟨t, ha, h⟩ := bind_eq_ok.1 h
  cases h
  have hcl : w₁.snd.cong = w.snd.cong :=
    classify_cong (w := { w with rcv := { w.rcv with keepaliveTimerLastReceivedPack := now, keepaliveProbesSent := 0 } }) hc
  have hqueue : Follows w.snd (queueSack w₁).snd := .of_eq ((cong_SACK _ _ _).trans hcl)
  exact hqueue.trans (ackLoop_follows ha)

theorem checkRecv_follows (h : checkRecv now w = .ok w') : Follows w.snd w'.snd := by
  obtain ⟨w₁, rfl, hw₁⟩ := checkRecv_cases h
  rcases hw₁ with ⟨-, rfl⟩ | ⟨-, w₂, ht, hl⟩
  · refine .of_eq ?_
    show (checkKeepalive now w.takeArrived).snd.cong = w.snd.cong
    unfold checkKeepalive
    dsimp only
    split_ifs <;> rfl
  · have hdel : w₁.snd.cong = w₂.snd.cong := deliverLoop_keeps Snd.cong (fun _ _ => rfl) hl
    exact (takeBatch_follows ht).trans (.of_eq hdel)

/-! ### `check_flights` -/

theorem sendPack_cong {d d' : Datagram} {rt : Int} (h : sendPack w d = .ok (rt, d', w')) :
    w'.snd.cong = w.snd.cong := by
  obtain ⟨-, -, -, ⟨-, he⟩ | ⟨-, he⟩⟩ := sendPack_cases h
  · rw [he]; rfl
  · rw [he]

theorem cong_noteSendError (w : Wcb) (rt : Int) : (noteSendError w rt).snd.cong = w.snd.cong := by
  unfold noteSendError; split_ifs <;> rfl

theorem retransmit_cong {p q : WcbPack} {rt : Int} (h : retransmit now p w = .ok (rt, q, w')) :
    w'.snd.cong = w.snd.cong := by
  unfold retransmit at h
  obtain ⟨⟨rt', d, w₁⟩, hs, h⟩ := bind_eq_ok.1 h
  dsimp only at h
  split_ifs at h
  · cases h; exact (cong_noteSendError _ _).trans (sendPack_cong hs)
  · cases h; exact sendPack_cong hs

theorem scanFlights_follows {flights pre : List WcbPack} {lost maxSent : Nat} {c : Nat × Nat × Wcb}
    (h : scanFlights now pre flights lost maxSent w = .ok c) : Follows w.snd c.2.2.snd := by
  induction flights generalizing pre lost maxSent w with
  | nil => cases h; exact .of_eq rfl
  | cons q flights ih =>
    unfold scanFlights at h
    by_cases hu : w.snd.unaUpdate = true ∧ q.seq < w.snd.una
    · rw [if_pos hu] at h
      obtain ⟨t, ht, h⟩ := bind_eq_ok.1 h
      have hset : Follows t (t.setFlights (pre ++ flights)) := .of_eq rfl
      exact (handlePackAcked_follows ht).trans (hset.trans (ih (w := w.setSnd (t.setFlights (pre ++ flights))) h))
    rw [if_neg hu] at h
    dsimp only at h
    generalize w.snd.retransmitReason now q = reason at h
    obtain ⟨w₁, hw₁⟩ : ∃ w₁, w₁ = w.setSnd (w.snd.noteLost reason q) := ⟨_, rfl⟩
    have hc₁ : w₁.snd.cong = w.snd.cong := by
      rw [hw₁, Wcb.setSnd_snd]
      unfold Snd.noteLost
      split_ifs <;> rfl
    rw [← hw₁] at h
    by_cases h0 : reason = 0
    · rw [if_pos h0] at h; exact Follows.trans (.of_eq hc₁) (ih h)
    rw [if_neg h0] at h
    obtain ⟨⟨rt, q', w₂⟩, hr, h⟩ := bind_eq_ok.1 h
    have hc₂ : w₂.snd.cong = w.snd.cong := (retransmit_cong hr).trans hc₁
    dsimp only at h
    by_cases hrt : rt ≠ ok
    · rw [if_pos hrt] at h; cases h; exact .of_eq hc₂
    · rw [if_neg hrt] at h
      have hset : Follows w.snd (w₂.snd.setFlights (pre ++ q' :: flights)) := .of_eq hc₂
      exact hset.trans (ih (w := w₂.setSnd (w₂.snd.setFlights (pre ++ q' :: flights))) h)

theorem detectLost_follows {lost maxSent : Nat} (h : detectLost now lost maxSent w = .ok w') :
    Follows w.snd w'.snd := by
  intro hb
  have hrto_le : w.snd.rto ≤ wcpRtoMax := hb.rto_le
  have hcap : wcpRtoMax + wcpRtoMax < 2 ^ 32 := by decide
  have hmax : w.snd.nflightBytesMax < wcpSndCwndMax := hb.nflightMax_lt
  have hroom : wcpSndCwndMax < 2 ^ 32 := by decide
  have hmin : wcpSndSsthreshMin < 2 ^ 32 := by decide
  have hback : u32 ((w.snd.rto >>> 1) + w.snd.rto) = w.snd.rto / 2 + w.snd.rto := by
    rw [Nat.shiftRight_eq_div_pow, Nat.pow_one]
    exact u32_of_lt (by omega)
  unfold detectLost at h
  dsimp only at h
  by_cases hlost : lost ≥ wcpLostThreshold ∨ maxSent ≥ 5
  · rw [if_pos hlost] at h
    by_cases hlo : w.snd.rto < wcpRtoMin
    · rw [if_pos hlo] at h; cases h
    rw [if_neg hlo, hback] at h
    have hstep : Cong.Step w.snd.cong { w.snd with rto := min (w.snd.rto / 2 + w.snd.rto) wcpRtoMax }.cong := .backoff
    split at h
    · split at h
      · cases h
      · rename_i hle
        have hle : w.snd.nflightBytes ≤ w.snd.nflightBytesMax := Nat.le_of_not_lt hle
        cases h
        refine .head hstep (.single ?_)
        have hl := Cong.Step.lose (c := { w.snd with rto := min (w.snd.rto / 2 + w.snd.rto) wcpRtoMax }.cong) hle
        have hsub : subU32 (max (w.snd.nflightBytesMax / 2) wcpSndSsthreshMin) (w.snd.nflightBytes / 2) =
            max (w.snd.nflightBytesMax / 2) wcpSndSsthreshMin - w.snd.nflightBytes / 2 := by
          unfold subU32
          omega
        simpa [Snd.cong, Snd.newSsthresh, Nat.shiftRight_eq_div_pow, hsub] using hl
    · cases h; exact .single hstep
  · rw [if_neg hlost] at h; cases h; exact .refl

theorem checkFlights_follows (h : checkFlights now w = .ok w') : Follows w.snd w'.snd := by
  unfold checkFlights at h
  dsimp only at h
  split_ifs at h
  · cases h; exact .of_eq rfl
  · obtain ⟨⟨lost, maxSent, w₁⟩, hs, h⟩ := bind_eq_ok.1 h
    have hscan : Follows w.snd w₁.snd := scanFlights_follows (w := { w with snd := { w.snd with lastRtoTimer := now } }) hs
    have hclear : Follows w₁.snd w₁.snd.clearUpdates := .of_eq rfl
    exact hscan.trans (hclear.trans (detectLost_follows (w := { w₁ with snd := w₁.snd.clearUpdates }) h))

/-! ### `check_send` -/

theorem cong_refill (s : Snd) : s.refill.cong = s.cong := by
  have hloop : ∀ (n nmax : Nat) (t : Snd), (Snd.packageLoop n nmax t).cong = t.cong := by
    intro n
    induction n with
    | zero => exact fun _ _ => rfl
    | succ n ih =>
      intro nmax t
      unfold Snd.packageLoop
      split_ifs
      · exact (ih _ _).trans rfl
      · rfl
  unfold Snd.refill
  dsimp only
  split_ifs
  · exact (hloop _ _ _).trans rfl
  · rfl

theorem sendCtlOne_cong {d : Datagram} {c : Wcb × SendExit} (h : sendCtlOne d w = .ok c) : c.1.snd.cong = w.snd.cong := by
  unfold sendCtlOne at h
  obtain ⟨⟨rt, d', w₁⟩, hs, h⟩ := bind_eq_ok.1 h
  have hc₁ : w₁.snd.cong = w.snd.cong := sendPack_cong hs
  dsimp only at h
  split_ifs at h
  · cases h; exact (cong_noteSendError w₁ rt).trans hc₁
  · cases h; exact hc₁

theorem transmitOne_follows {p : WcbPack} {rest : List WcbPack} {c : Wcb × SendExit}
    (h : transmitOne now p rest w = .ok c) : Follows w.snd c.1.snd := by
  rcases transmitOne_cases h with rfl | ⟨rt, d, w₁, hs, rfl⟩ | ⟨d, w₁, hs, hw, -, -, ha⟩
  · exact .of_eq rfl
  · have hc₁ : w₁.snd.cong = w.snd.cong := sendPack_cong hs
    exact .of_eq ((cong_noteSendError _ rt).trans hc₁)
  · have hc₁ := sendPack_cong hs
    obtain ⟨rfl, -⟩ := sendPack_cases hs
    have hafter : c.1.snd.cong = (w₁.snd.launch ⟨p.stamp w.rcv.next w.rcv.wnd, now, 1⟩).cong := by
      rcases afterLaunch_cases ha with ⟨hf, -⟩ | ⟨-, -, -, hs, -⟩
      · unfold afterLaunch at ha
        rw [if_pos hf] at ha
        split at ha <;> cases ha <;> rfl
      · rw [hs]; rfl
    have hlt : u32 (w₁.snd.nflightBytes + (p.stamp w.rcv.next w.rcv.wnd).totalBytes) < w₁.snd.cwnd := by
      have hn : w₁.snd.nflightBytes = w.snd.nflightBytes := congrArg Cong.nflight hc₁
      have hcw : w₁.snd.cwnd = w.snd.cwnd := congrArg Cong.cwnd hc₁
      rw [hn, hcw, Nat.add_comm]
      exact Nat.lt_of_lt_of_le hw (Nat.min_le_left _ _)
    intro _
    rw [hafter, ← hc₁]
    exact .single (.launch (c := w₁.snd.cong) _ hlt)

theorem checkSend_follows (h : checkSend now w = .ok w') : Follows w.snd w'.snd := by
  refine SendRule.checkSend (I := fun v => Follows w.snd v.snd) ⟨?_, ?_, ?_, ?_⟩ (.of_eq rfl) h
  · intro v hv
    refine hv.trans (.of_eq ?_)
    unfold checkRwnd Snd.pushWnd
    split_ifs
    · dsimp only; split <;> rfl
    · rfl
  · exact fun v d c hv hc => hv.trans (.of_eq (sendCtlOne_cong hc))
  · exact fun v q l c hv _ hc => hv.trans (transmitOne_follows hc)
  · exact fun v hv => hv.trans (.of_eq (cong_refill v.snd))

/-! ### Runs -/

theorem checkAll_follows (h : checkAll now w = .ok w') : Follows w.snd w'.snd := by
  obtain ⟨w₁, h₁, h⟩ := bind_eq_ok.1 h
  obtain ⟨w₂, h₂, h₃⟩ := bind_eq_ok.1 h
  exact ((checkRecv_follows h₁).trans (checkFlights_follows h₂)).trans (checkSend_follows h₃)

theorem update_follows (h : update now w = .ok w') : Follows w.snd w'.snd := by
  rcases update_eq now w with ⟨state, errno, -, he⟩ | ⟨-, k, -, he⟩ | ⟨-, he⟩ <;> rw [he] at h
  · cases h; exact .of_eq rfl
  · obtain ⟨w₁, h₁, rfl⟩ := map_eq_ok.1 h
    have hall := checkAll_follows h₁
    exact hall
  · obtain ⟨w₁, h₁, h₂⟩ := bind_eq_ok.1 h
    exact (checkFlights_follows h₁).trans (checkSend_follows h₂)

theorem cong_shutWrite (s : Snd) : s.shutWrite.cong = s.cong := by
  unfold Snd.shutWrite; split_ifs <;> rfl

theorem step_follows {e : Event} (h : step e w = .ok w') : Follows w.snd w'.snd := by
  cases e with
  | send buffer =>
    obtain ⟨c, hc, rfl⟩ := map_eq_ok.1 h
    refine .of_eq ?_
    unfold send at hc
    dsimp only at hc
    split_ifs at hc <;> cases hc <;> rfl
  | recv size =>
    obtain ⟨c, hc, rfl⟩ := map_eq_ok.1 h
    exact .of_eq (congrArg Snd.cong (recv_snd hc))
  | shutdown how =>
    cases h
    refine .of_eq ?_
    unfold shutdown
    cases how
    · rfl
    · exact cong_shutWrite w.snd
    · exact cong_shutWrite w.snd
  | close =>
    obtain ⟨c, hc, rfl⟩ := map_eq_ok.1 h
    refine .of_eq ?_
    cases hd : w.closedCalled with
    | true => unfold close at hc; rw [if_pos hd] at hc; cases hc; rfl
    | false => rw [close_eq hd] at hc; cases hc; rfl
  | setfl b => cases h; exact .of_eq rfl
  | arrive p => cases h; exact .of_eq rfl
  | update t => exact update_follows (w := w.prepare t) h
  | checkRecv t => exact checkRecv_follows (w := w.prepare t) h
  | checkFlights t => exact checkFlights_follows (w := w.prepare t) h
  | checkSend t => exact checkSend_follows (w := w.prepare t) h

theorem init_bounded (u : Uninit) (now rcvCap sndCap : Nat) : (Wcb.init u now rcvCap sndCap).snd.cong.Bounded := by
  refine ⟨rfl, ?_, ?_, ?_, ?_, ?_, ?_, ?_, ?_, nofun⟩
  all_goals
    simp only [Wcb.init, Snd.cong]
    decide

/-- A control block from `WCB::init` on, or from where its connection was opened. -/
inductive Started : Wcb → Prop
  | init (u : Uninit) (now rcvCap sndCap : Nat) : Started (Wcb.init u now rcvCap sndCap)
  | opened {w : Wcb} (h : Opened w) : Started w

theorem Started.bounded (h : Started w) : w.snd.cong.Bounded := by
  cases h with
  | init u now rcvCap sndCap => exact init_bounded u now rcvCap sndCap
  | opened h =>
    cases h with
    | active u now rcvCap sndCap addr w h =>
      unfold connect at h
      split_ifs at h
      cases h
      exact init_bounded u now rcvCap sndCap
    | passive u now rcvCap sndCap synpack _ _ => exact init_bounded u now rcvCap sndCap

/-- What congestion control promises of the variables of a connection. -/
structure CongestionOk (s : Snd) : Prop where
  flags : s.cwndSlowStart = true ∧ s.cwndCongestAvoidance = false ∨
    s.cwndSlowStart = false ∧ s.cwndCongestAvoidance = true
  cwnd : wcpLw * wcpMtu ≤ s.cwnd ∧ s.cwnd ≤ wcpSndCwndMax
  ssthresh : wcpSndSsthreshMin ≤ s.ssthresh ∧ s.ssthresh ≤ wcpSndSsthreshMax
  rto : wcpRtoMin ≤ s.rto ∧ s.rto ≤ wcpRtoMax
  nflightBytes : s.nflightBytes < wcpSndCwndMax
  growth : ∀ n ≤ wcpMtu, s.cwnd + n < 2 ^ 32
  recovery : s.lostDetected = true → s.cwnd + s.lostCwndForFastRecoveryCompensation < 2 ^ 32

theorem Cong.Bounded.congestionOk (h : s.cong.Bounded) : CongestionOk s := by
  have hcw : s.cwnd ≤ wcpSndCwndMax := h.cwnd_le
  have hgrow : wcpSndCwndMax + wcpMtu < 2 ^ 32 := by decide
  have hrec : wcpSndCwndMax + wcpSndCwndMax < 2 ^ 32 := by decide
  refine ⟨?_, ⟨h.cwnd_ge, hcw⟩, ⟨h.ssthresh_ge, h.ssthresh_le⟩, ⟨h.rto_ge, h.rto_le⟩, h.nflight_lt, ?_, ?_⟩
  · have hf : s.cwndSlowStart = !s.cwndCongestAvoidance := h.flags
    cases ha : s.cwndCongestAvoidance with
    | true => exact .inr ⟨by rw [hf, ha]; rfl, rfl⟩
    | false => exact .inl ⟨by rw [hf, ha]; rfl, rfl⟩
  · intro n hn
    omega
  · intro hl
    have hco : s.lostCwndForFastRecoveryCompensation ≤ wcpSndCwndMax := h.compensation_le hl
    omega

/-- In every run of a control block, whatever the RTTs, losses, acknowledgements and SACKs: the variables
of congestion control keep their bounds, and the next event only adds to the window what keeps it below
`2 ^ 32`. -/
theorem congestion_control {w₀ : Wcb} {es : List Event} (h₀ : Started w₀) (h : Run step (fun _ _ => True) w₀ es w) :
    CongestionOk w.snd ∧ ∀ e w', step e w = .ok w' → ReflTransGen Cong.Step w.snd.cong w'.snd.cong := by
  have hb : w.snd.cong.Bounded :=
    h.inv (fun w => w.snd.cong.Bounded) (fun _ _ _ hb _ hs => (step_follows hs).bounded hb) h₀.bounded
  exact ⟨hb.congestionOk, fun e w' hs => step_follows hs hb⟩

/-- A client during its handshake. -/
theorem congestion_control_handshake : CongestionOk (Wcb.connecting.after handshake).snd := by
  have hrun : Run step (fun _ _ => True) Wcb.connecting handshake (Wcb.connecting.after handshake) :=
    Wcb.run_after (by decide)
  exact (congestion_control (.opened opened_connecting) hrun).1

end

end Wawo
