import Wawo.Wcp.Control
import Wawo.Wcp.Parts

/-!
# Keepalive (`WCB::check_recv`)

A call of `check_recv` that finds no pack sends the next probe when it is due, and sets `E_ETIMEOUT` once all
probes are sent: it asks for their number before it asks for the time. `watch` records when a pack was found
last and how long that was ago whenever the error is set. The last probe has its interval exactly in the runs
in which no call comes too early behind it (`keepalive_waits`); the others have theirs (`keepalive_due`).
-/

namespace Wawo

open Lts Relation

/-! ### What touches the keepalive counters -/

/-- The fields of the keepalive -/
structure KeepaliveView where
  last : Nat
  idle : Nat
  interval : Nat
  probes : Nat
  sent : Nat
deriving DecidableEq

def Rcv.keepaliveView (r : Rcv) : KeepaliveView where
  last := r.keepaliveTimerLastReceivedPack
  idle := r.keepaliveIdle
  interval := r.keepaliveInterval
  probes := r.keepaliveProbes
  sent := r.keepaliveProbesSent

/-- The call of `check_recv` that a part begins -/
def Parted.calls (s : Parted) : Part → Option Tick
  | .beginRecv t => if s.phase = .idle ∧ s.wcb.state.live then some t else none
  | _ => none

theorem Rcv.Delivered.keepaliveView {r r' : Rcv} (h : r.Delivered r') : r'.keepaliveView = r.keepaliveView := by
  obtain ⟨_, _, _, _, _, _, _, _, _, rfl⟩ := h
  rfl

section

variable {w w' : Wcb} {s s' : Parted} {e : Part} {t : Tick}

theorem checkSend_keepaliveView {now : Nat} (h : checkSend now w = .ok w') : w'.rcv.keepaliveView = w.rcv.keepaliveView := by
  rcases checkSend_rcv h with h | h <;> rw [h]
  unfold checkRwnd
  split_ifs <;> rfl

theorem call_keepaliveView {e : Event} (he : e.isPart = true) (h : step e w = .ok w') : w'.rcv.keepaliveView = w.rcv.keepaliveView := by
  cases e with
  | send buffer =>
    obtain ⟨c, hs, rfl⟩ := map_eq_ok.1 h
    unfold send at hs
    dsimp only at hs
    split_ifs at hs <;> cases hs <;> rfl
  | recv size =>
    obtain ⟨c, hs, rfl⟩ := map_eq_ok.1 h
    unfold recv at hs
    split_ifs at hs <;> cases hs <;> rfl
  | shutdown how => cases h; cases how <;> rfl
  | setfl b => cases h; rfl
  | arrive p => cases h; rfl
  | close | update t | checkRecv t | checkFlights t | checkSend t => cases he

theorem deliverRound_keepaliveView {now : Nat} {c : Ticking} (h : deliverRound now w = .ok c) :
    c.wcb.rcv.keepaliveView = w.rcv.keepaliveView := by
  unfold deliverRound at h
  split at h
  · cases h; rfl
  · obtain ⟨⟨w₁, x⟩, ho, h⟩ := bind_eq_ok.1 h
    have hone := (deliverOne_delivered ho).keepaliveView
    cases x <;> cases h <;> exact hone

/-- What does not begin a call of `check_recv` leaves the counters alone. -/
theorem part_keepaliveView (h : part e s = .ok s') (hc : s.calls e = none) : s'.wcb.rcv.keepaliveView = s.wcb.rcv.keepaliveView := by
  cases e with
  | call e =>
    dsimp only [part] at h
    split_ifs at h with hpart
    · obtain ⟨w', hs, rfl⟩ := map_eq_ok.1 h
      exact call_keepaliveView hpart hs
    · cases h; rfl
  | closeBegin =>
    cases h
    split_ifs
    · rfl
    · show (closeBegin s.wcb).rcv.keepaliveView = _
      unfold closeBegin
      dsimp only
      split_ifs <;> rfl
  | closeEnd =>
    dsimp only [part] at h
    split_ifs at h
    · obtain ⟨r, hr, rfl⟩ := map_eq_ok.1 h
      unfold closeEnd at hr
      split_ifs at hr <;> cases hr <;> rfl
    · cases h; rfl
  | pumpErrno ec => cases h; split_ifs <;> rfl
  | pumpFlag => cases h; split_ifs <;> rfl
  | turn t =>
    cases h
    split_ifs
    · show (turn t.now (s.wcb.prepare t)).rcv.keepaliveView = _
      unfold turn
      split <;> (try split_ifs) <;> rfl
    · rfl
  | beginRecv t =>
    dsimp only [part, Parted.calls] at h hc
    split_ifs at h hc with hlive hidle
    · obtain ⟨c, hm, rfl⟩ := map_eq_ok.1 h
      obtain ⟨⟨w, phase⟩, pumping, closing⟩ := s
      cases phase with
      | idle => exact absurd ⟨rfl, hlive⟩ hidle
      | delivering | swapping => cases hm; rfl
    · cases h; rfl
  | deliver =>
    obtain ⟨c, hm, rfl⟩ := map_eq_ok.1 h
    obtain ⟨⟨w, phase⟩, pumping, closing⟩ := s
    cases phase with
    | delivering now => exact deliverRound_keepaliveView (w := w) hm
    | idle | swapping => cases hm; rfl
  | swap =>
    obtain ⟨c, hm, rfl⟩ := map_eq_ok.1 h
    obtain ⟨⟨w, phase⟩, pumping, closing⟩ := s
    cases phase with
    | swapping =>
      cases hm
      show w.rcv.swapRb.keepaliveView = _
      unfold Rcv.swapRb
      dsimp only
      split_ifs <;> rfl
    | idle | delivering => cases hm; rfl
  | checkFlights t =>
    dsimp only [part] at h
    split_ifs at h
    · obtain ⟨w', hs, rfl⟩ := map_eq_ok.1 h
      show w'.rcv.keepaliveView = _
      rw [checkFlights_rcv hs]
      rfl
    · cases h; rfl
  | checkSend t =>
    dsimp only [part] at h
    split_ifs at h
    · obtain ⟨w', hs, rfl⟩ := map_eq_ok.1 h
      exact checkSend_keepaliveView (w := s.wcb.prepare t) hs
    · cases h; rfl

theorem checkKeepalive_eq (now : Nat) (w : Wcb) :
    let v := w.rcv.keepaliveView
    (checkKeepalive now w).rcv.keepaliveView =
        (if v.sent ≥ v.probes then v else if subU64 now v.last / 1000 ≥ v.idle + v.interval * v.sent then { v with sent := v.sent + 1 } else v) ∧
      ((checkKeepalive now { w with wcbErrno := ok }).wcbErrno = eTimeout ↔ v.sent ≥ v.probes) := by
  have hok : (ok : Int) ≠ eTimeout := by decide
  by_cases hspent : w.rcv.keepaliveProbesSent ≥ w.rcv.keepaliveProbes
  · have hview : w.rcv.keepaliveView.sent ≥ w.rcv.keepaliveView.probes := hspent
    dsimp only
    rw [if_pos hview, checkKeepalive, checkKeepalive, if_pos hspent, if_pos hspent]
    exact ⟨rfl, fun _ => hview, fun _ => rfl⟩
  · have hview : ¬ w.rcv.keepaliveView.sent ≥ w.rcv.keepaliveView.probes := hspent
    have hkeep : (checkKeepalive now { w with wcbErrno := ok }).wcbErrno = ok := by
      rw [checkKeepalive, if_neg hspent]
      split_ifs <;> rfl
    dsimp only
    rw [if_neg hview, hkeep]
    refine ⟨?_, fun h => absurd h hok, fun h => absurd h hview⟩
    rw [checkKeepalive, if_neg hspent]
    by_cases hdue : subU64 now w.rcv.keepaliveTimerLastReceivedPack / 1000 ≥
        w.rcv.keepaliveIdle + w.rcv.keepaliveInterval * w.rcv.keepaliveProbesSent
    · exact (congrArg (fun v : Wcb => v.rcv.keepaliveView) (if_pos hdue)).trans (if_pos hdue).symm
    · exact (congrArg (fun v : Wcb => v.rcv.keepaliveView) (if_neg hdue)).trans (if_neg hdue).symm

theorem beginRecv_keepaliveView {c : Ticking} (h : beginRecv t w = .ok c) :
    c.wcb.rcv.keepaliveView = if w.rcv.receivedVecStandby = [] then (checkKeepalive t.now w).rcv.keepaliveView
      else { w.rcv.keepaliveView with last := t.now, sent := 0 } := by
  unfold beginRecv at h
  dsimp only at h
  by_cases hnil : w.rcv.receivedVecStandby = []
  · rw [if_pos hnil]
    rw [if_pos (show (w.prepare t).rcv.receivedVecStandby = [] from hnil)] at h
    cases h
    exact (checkKeepalive_eq t.now _).1.trans (checkKeepalive_eq t.now w).1.symm
  · rw [if_neg hnil]
    rw [if_neg (show ¬ (w.prepare t).rcv.receivedVecStandby = [] from hnil)] at h
    obtain ⟨w₁, ht, h⟩ := bind_eq_ok.1 h
    cases h
    obtain ⟨tmp, held, he⟩ := foldl_takePack_eq ((w.prepare t).rcv.receivedVecStandby.filter fun p => p.inSeqSpace)
      { (w.prepare t).rcv with receivedVecStandby := [], keepaliveTimerLastReceivedPack := t.now, keepaliveProbesSent := 0 }
    show w₁.rcv.keepaliveView = _
    rw [takeBatch_rcv ht]
    dsimp only at he ⊢
    rw [he]
    rfl

end

/-! ### When packs are found, and when the error is set -/

structure Watched extends Parted where
  clock : Nat -- the time of the last call of `check_recv`
  heard : Nat -- of the last one that has found a pack, or of `init`
  timeouts : List Nat -- the seconds since then whenever a call has set `E_ETIMEOUT`

namespace Watched

def start (w : Wcb) : Watched :=
  { Parted.start w with
    clock := w.rcv.keepaliveTimerLastReceivedPack, heard := w.rcv.keepaliveTimerLastReceivedPack, timeouts := [] }

/-- What a call at the time `now` finds and sets -/
def observe (s : Watched) (now : Nat) : Watched :=
  if s.wcb.rcv.receivedVecStandby ≠ [] then { s with clock := now, heard := now }
  else if (checkKeepalive now { s.wcb with wcbErrno := ok }).wcbErrno = eTimeout then
    { s with clock := now, timeouts := s.timeouts ++ [subU64 now s.heard / 1000] }
  else { s with clock := now }

end Watched

def watch (e : Part) (s : Watched) : Except Fault Watched :=
  (part e s.toParted).map fun p => { (match s.calls e with | some t => s.observe t.now | none => s) with toParted := p }

/-- `keepalive_vals.idle + keepalive_vals.probes * keepalive_vals.interval` -/
def KeepaliveView.limit (v : KeepaliveView) : Nat := v.idle + v.probes * v.interval

/-- A call that finds no pack once all the probes are sent leaves the last of them its interval. -/
def Waits (s : Watched) (e : Part) : Prop :=
  ∀ t, s.calls e = some t → s.wcb.rcv.receivedVecStandby = [] → s.wcb.rcv.keepaliveProbes ≤ s.wcb.rcv.keepaliveProbesSent →
    s.wcb.rcv.keepaliveView.limit ≤ subU64 t.now s.wcb.rcv.keepaliveTimerLastReceivedPack / 1000

section

variable {s s' : Watched} {e : Part} {es : List Part} {w₀ : Wcb}

theorem watch_eq (h : watch e s = .ok s') : part e s.toParted = .ok s'.toParted ∧
    s' = { (match s.calls e with | some t => s.observe t.now | none => s) with toParted := s'.toParted } := by
  obtain ⟨p, hp, rfl⟩ := map_eq_ok.1 h
  exact ⟨hp, rfl⟩

/-- What one part does: nothing to the counters, or a call finds a pack, finds all the probes sent, sends the
next one, or waits for it. -/
theorem watch_cases (h : watch e s = .ok s') :
    let v := s.wcb.rcv.keepaliveView
    let v' := s'.wcb.rcv.keepaliveView
    s.calls e = none ∧ s'.clock = s.clock ∧ s'.heard = s.heard ∧ s'.timeouts = s.timeouts ∧ v' = v ∨
    ∃ t, s.calls e = some t ∧ s'.clock = t.now ∧
      (s.wcb.rcv.receivedVecStandby ≠ [] ∧ s'.heard = t.now ∧ s'.timeouts = s.timeouts ∧ v' = { v with last := t.now, sent := 0 } ∨
      s.wcb.rcv.receivedVecStandby = [] ∧ s'.heard = s.heard ∧
        (v.probes ≤ v.sent ∧ s'.timeouts = s.timeouts ++ [subU64 t.now s.heard / 1000] ∧ v' = v ∨
        v.sent < v.probes ∧ s'.timeouts = s.timeouts ∧
          (v' = v ∨ v.idle + v.interval * v.sent ≤ subU64 t.now v.last / 1000 ∧ v' = { v with sent := v.sent + 1 }))) := by
  dsimp only
  obtain ⟨hp, hs⟩ := watch_eq h
  cases hc : s.calls e with
  | none =>
    rw [hc] at hs
    exact .inl ⟨rfl, by rw [hs], by rw [hs], by rw [hs], part_keepaliveView hp hc⟩
  | some t =>
    rw [hc] at hs
    refine .inr ⟨t, rfl, ?_⟩
    cases e with
    | beginRecv t' =>
      dsimp only [Parted.calls] at hc
      split_ifs at hc with hready
      cases hc
      obtain ⟨hidle, hlive⟩ := hready
      have hbegin : ∃ c, beginRecv t s.wcb = .ok c ∧ c.wcb = s'.wcb := by
        dsimp only [part] at hp
        rw [if_pos hlive] at hp
        obtain ⟨c, hm, hc⟩ := map_eq_ok.1 hp
        have hmicro : micro (.beginRecv t) s.toTicking = beginRecv t s.wcb := by
          obtain ⟨⟨⟨w, phase⟩, _, _⟩, _, _, _⟩ := s
          cases hidle
          rfl
        rw [hmicro] at hm
        exact ⟨c, hm, congrArg (fun p : Parted => p.wcb) hc⟩
      obtain ⟨c, hbegin, hwcb⟩ := hbegin
      have hview := beginRecv_keepaliveView hbegin
      obtain ⟨hkeep, herrno⟩ := checkKeepalive_eq t.now s.wcb
      rw [hwcb] at hview
      dsimp only [Watched.observe] at hs
      by_cases hnil : s.wcb.rcv.receivedVecStandby = []
      · rw [if_neg (not_not_intro hnil)] at hs
        rw [if_pos hnil, hkeep] at hview
        by_cases hspent : s.wcb.rcv.keepaliveView.sent ≥ s.wcb.rcv.keepaliveView.probes
        · rw [if_pos (herrno.mpr hspent)] at hs
          rw [if_pos hspent] at hview
          exact ⟨by rw [hs], .inr ⟨hnil, by rw [hs], .inl ⟨hspent, by rw [hs], hview⟩⟩⟩
        · rw [if_neg fun h => hspent (herrno.mp h)] at hs
          rw [if_neg hspent] at hview
          refine ⟨by rw [hs], .inr ⟨hnil, by rw [hs], .inr ⟨Nat.lt_of_not_le hspent, by rw [hs], ?_⟩⟩⟩
          split_ifs at hview with hdue
          · exact .inr ⟨hdue, hview⟩
          · exact .inl hview
      · rw [if_pos hnil] at hs
        rw [if_neg hnil] at hview
        exact ⟨by rw [hs], .inl ⟨hnil, by rw [hs], by rw [hs], hview⟩⟩
    | _ => cases hc

/-- The counters say when a pack was found last, and `keepalive_vals` does not change. -/
structure Listens (v₀ : KeepaliveView) (s : Watched) : Prop where
  last_eq : s.wcb.rcv.keepaliveView.last = s.heard
  idle_eq : s.wcb.rcv.keepaliveView.idle = v₀.idle
  interval_eq : s.wcb.rcv.keepaliveView.interval = v₀.interval
  probes_eq : s.wcb.rcv.keepaliveView.probes = v₀.probes

theorem listens_start (w : Wcb) : Listens w.rcv.keepaliveView (Watched.start w) := ⟨rfl, rfl, rfl, rfl⟩

namespace Listens

variable {v₀ : KeepaliveView}

theorem limit_eq (h : Listens v₀ s) : s.wcb.rcv.keepaliveView.limit = v₀.limit := by
  rw [KeepaliveView.limit, h.idle_eq, h.interval_eq, h.probes_eq, KeepaliveView.limit]

theorem step (h : Listens v₀ s) (hs : watch e s = .ok s') : Listens v₀ s' := by
  obtain ⟨h₁, h₂, h₃, h₄⟩ := h
  rcases watch_cases hs with ⟨-, -, hheard, -, hv⟩ | ⟨t, -, -, ⟨-, hheard, -, hv⟩ |
    ⟨-, hheard, ⟨-, -, hv⟩ | ⟨-, -, hv | ⟨-, hv⟩⟩⟩⟩ <;> refine ⟨?_, ?_, ?_, ?_⟩ <;> rw [hv] <;> try rw [hheard]
  all_goals assumption

/-- A call that sets the error leaves the last probe its interval, or it does not wait. -/
theorem timeouts (h : Listens v₀ s) (hs : watch e s = .ok s') :
    s'.timeouts = s.timeouts ∧ Waits s e ∨ ∃ x, s'.timeouts = s.timeouts ++ [x] ∧ (Waits s e ↔ v₀.limit ≤ x) := by
  have hlimit := h.limit_eq
  have hlast := h.last_eq
  have hwaits {t : Tick} (hc : s.calls e = some t)
      (hnot : ¬ (s.wcb.rcv.receivedVecStandby = [] ∧ s.wcb.rcv.keepaliveView.probes ≤ s.wcb.rcv.keepaliveView.sent)) : Waits s e :=
    fun _ _ hnil hspent => absurd ⟨hnil, hspent⟩ hnot
  rcases watch_cases hs with ⟨hc, -, -, ht, -⟩ | ⟨t, hc, -, ⟨hne, -, ht, -⟩ | ⟨hnil, -, ⟨hspent, ht, -⟩ | ⟨hlt, ht, -⟩⟩⟩
  · exact .inl ⟨ht, fun t hc' => by rw [hc] at hc'; cases hc'⟩
  · exact .inl ⟨ht, hwaits hc fun h => hne h.1⟩
  · refine .inr ⟨_, ht, fun hw => ?_, fun hle t' hc' _ _ => ?_⟩
    · rw [← hlimit, ← hlast]
      exact hw t hc hnil hspent
    · rw [hc] at hc'
      cases hc'
      rw [hlimit]
      exact hle.trans_eq (by rw [← hlast]; rfl)
  · exact .inl ⟨ht, hwaits hc fun h => absurd h.2 (Nat.not_le.mpr hlt)⟩

end Listens

theorem timeouts_run {v₀ : KeepaliveView} (h : Listens v₀ s) (hrun : Run watch (fun _ _ => True) s es s') :
    ((∀ x ∈ s'.timeouts, v₀.limit ≤ x) → ∀ x ∈ s.timeouts, v₀.limit ≤ x) ∧
      ((∀ x ∈ s.timeouts, v₀.limit ≤ x) → ((∀ x ∈ s'.timeouts, v₀.limit ≤ x) ↔ Run watch Waits s es s')) := by
  induction hrun with
  | nil s => exact ⟨id, fun h => ⟨fun _ => .nil s, fun _ => h⟩⟩
  | @cons s s₁ s₂ e es hC hf hrun ih =>
    obtain ⟨ih₁, ih₂⟩ := ih (h.step hf)
    rcases h.timeouts hf with ⟨ht, hw⟩ | ⟨x, ht, hw⟩
    · refine ⟨fun h₂ => ht ▸ ih₁ h₂, fun h₀ => ?_⟩
      rw [ih₂ (ht ▸ h₀)]
      refine ⟨fun hr => .cons hw hf hr, fun hr => ?_⟩
      cases hr with
      | cons _ hf' hr =>
        rw [hf] at hf'
        cases hf'
        exact hr
    · have hgrow (h₁ : ∀ y ∈ s₁.timeouts, v₀.limit ≤ y) : (∀ y ∈ s.timeouts, v₀.limit ≤ y) ∧ v₀.limit ≤ x := by
        rw [ht] at h₁
        exact ⟨fun y hy => h₁ y (List.mem_append_left _ hy), h₁ x (List.mem_append_right _ (List.mem_singleton_self x))⟩
      have hback (h₀ : ∀ y ∈ s.timeouts, v₀.limit ≤ y) (hx : v₀.limit ≤ x) : ∀ y ∈ s₁.timeouts, v₀.limit ≤ y := by
        rw [ht]
        intro y hy
        rcases List.mem_append.1 hy with hy | hy
        · exact h₀ y hy
        · rwa [List.mem_singleton.1 hy]
      refine ⟨fun h₂ => (hgrow (ih₁ h₂)).1, fun h₀ => ⟨fun h₂ => ?_, fun hr => ?_⟩⟩
      · have hx := (hgrow (ih₁ h₂)).2
        exact .cons (hw.mpr hx) hf ((ih₂ (hback h₀ hx)).mp h₂)
      · cases hr with
        | cons hw' hf' hr =>
          rw [hf] at hf'
          cases hf'
          exact (ih₂ (hback h₀ (hw.mp hw'))).mpr hr

/-- In a run the error is set after `idle + probes * interval` seconds without a pack at the earliest if and
only if no call that finds no pack comes earlier than that once all the probes are sent. -/
theorem keepalive_waits (h : Run watch (fun _ _ => True) (Watched.start w₀) es s) :
    (∀ x ∈ s.timeouts, w₀.rcv.keepaliveView.limit ≤ x) ↔ Run watch Waits (Watched.start w₀) es s :=
  (timeouts_run (listens_start w₀) h).2 nofun

/-- The calls come in the order of their times. -/
def Ordered (s : Watched) (e : Part) : Prop := ∀ t, s.calls e = some t → s.clock ≤ t.now ∧ t.now < 2 ^ 64

/-- The probes sent since the last pack were due by the last call. -/
structure Probed (v₀ : KeepaliveView) (s : Watched) : Prop extends Listens v₀ s where
  heard_le : s.heard ≤ s.clock
  due : 0 < s.wcb.rcv.keepaliveView.sent → v₀.idle + v₀.interval * (s.wcb.rcv.keepaliveView.sent - 1) ≤ (s.clock - s.heard) / 1000
  timeouts : ∀ x ∈ s.timeouts, v₀.idle + v₀.interval * (v₀.probes - 1) ≤ x

theorem Probed.step {v₀ : KeepaliveView} (h : Probed v₀ s) (hv₀ : 0 < v₀.probes) (ho : Ordered s e) (hs : watch e s = .ok s') :
    Probed v₀ s' := by
  have hlistens := h.toListens.step hs
  have hheard := h.heard_le
  have hdue := h.due
  rcases watch_cases hs with ⟨-, hc, hh, ht, hv⟩ | ⟨t, hcalls, hc, hcase⟩
  · refine ⟨hlistens, by rwa [hc, hh], ?_, by rw [ht]; exact h.timeouts⟩
    rwa [hv, hc, hh]
  obtain ⟨hle, hlt⟩ := ho t hcalls
  have hsub : subU64 t.now s.heard = t.now - s.heard := by
    unfold subU64
    omega
  have hlater : (s.clock - s.heard) / 1000 ≤ (t.now - s.heard) / 1000 := Nat.div_le_div_right (by omega)
  rcases hcase with ⟨-, hh, ht, hv⟩ | ⟨-, hh, ⟨hspent, ht, hv⟩ | ⟨hlt, ht, hv | ⟨hsend, hv⟩⟩⟩
  · refine ⟨hlistens, by rw [hc, hh], ?_, by rw [ht]; exact h.timeouts⟩
    rw [hv]
    exact fun hpos => absurd hpos (lt_irrefl 0)
  · have hprobes := h.probes_eq
    have hlast : v₀.idle + v₀.interval * (v₀.probes - 1) ≤ v₀.idle + v₀.interval * (s.wcb.rcv.keepaliveView.sent - 1) :=
      Nat.add_le_add_left (Nat.mul_le_mul_left _ (by omega)) _
    refine ⟨hlistens, by rw [hc, hh]; omega, ?_, ?_⟩
    · rw [hv, hc, hh]
      exact fun hpos => (hdue hpos).trans hlater
    · rw [ht, hsub]
      intro x hx
      rcases List.mem_append.1 hx with hx | hx
      · exact h.timeouts x hx
      · rw [List.mem_singleton.1 hx]
        exact (hlast.trans (hdue (by omega))).trans hlater
  · refine ⟨hlistens, by rw [hc, hh]; omega, ?_, by rw [ht]; exact h.timeouts⟩
    rw [hv, hc, hh]
    exact fun hpos => (hdue hpos).trans hlater
  · refine ⟨hlistens, by rw [hc, hh]; omega, fun _ => ?_, by rw [ht]; exact h.timeouts⟩
    rw [h.last_eq, hsub, h.idle_eq, h.interval_eq] at hsend
    rw [hv, hc, hh]
    exact hsend

/-- All but the last probe have their interval in every run whose clock does not go back. -/
theorem keepalive_due {bindErrno : Int} (h₀ : Entered bindErrno w₀) (h : Run watch Ordered (Watched.start w₀) es s) :
    ∀ x ∈ s.timeouts, 60 + 60 * (5 - 1) ≤ x := by
  have hview : w₀.rcv.keepaliveView = ⟨w₀.rcv.keepaliveTimerLastReceivedPack, 60, 60, 5, 0⟩ := by
    cases h₀ with
    | active u now rcvCap sndCap addr w h =>
      unfold connect at h
      split_ifs at h
      cases h
      rfl
    | passive | listener => rfl
  have hprobes : 0 < w₀.rcv.keepaliveView.probes := by
    rw [hview]
    exact Nat.succ_pos 4
  have hstart : Probed w₀.rcv.keepaliveView (Watched.start w₀) := by
    refine ⟨listens_start w₀, le_rfl, fun hpos => ?_, nofun⟩
    have hsent : 0 < w₀.rcv.keepaliveView.sent := hpos
    rw [hview] at hsent
    exact absurd hsent (lt_irrefl 0)
  have hrun := (h.inv (Probed w₀.rcv.keepaliveView) (fun _ _ _ hp ho hs => hp.step hprobes ho hs) hstart).timeouts
  rw [hview] at hrun
  exact hrun

/-! ### A connection that is given up an interval too early -/

/-- A tick that finds no pack, on a connection that goes on -/
def Part.tick (t : Tick) : List Part := [.turn t, .beginRecv t, .swap, .checkFlights t, .checkSend t]

/-- The server is silent: a probe every minute, and a tick right after the last one. -/
def silence : List Part :=
  [60002, 120002, 180002, 240002, 300002, 300012].flatMap fun now => Part.tick (.at now)

/-- The error comes after 300 seconds, ten milliseconds behind the fifth probe, and not after 360. -/
theorem keepalive_cuts_short : ∃ w₀ es s, Entered 0 w₀ ∧ Run watch (fun _ _ => True) (Watched.start w₀) es s ∧
    w₀.rcv.keepaliveView.limit = 360 ∧ s.wcb.wcbErrno = eTimeout ∧ s.timeouts = [300] := by
  obtain ⟨s, hrun, hs⟩ := Run.of_decide (f := watch) (handshakeParts ++ silence) (P := fun _ _ => True)
    (Q := fun s => s.wcb.wcbErrno = eTimeout ∧ s.timeouts = [300]) (s := Watched.start Wcb.connecting) (by decide +kernel)
  exact ⟨_, _, s, entered_connecting, hrun, by decide, hs⟩

/-- A tick a minute later leaves the last probe its interval. -/
theorem keepalive_waits_minute : ∃ es s, Run watch (fun _ _ => True) (Watched.start Wcb.connecting) es s ∧
    (∀ x ∈ s.timeouts, Wcb.connecting.rcv.keepaliveView.limit ≤ x) ∧ Run watch Waits (Watched.start Wcb.connecting) es s := by
  obtain ⟨s, hrun, hs⟩ := Run.of_decide (f := watch)
    (handshakeParts ++ [60002, 120002, 180002, 240002, 300002, 360002].flatMap fun now => Part.tick (.at now)) (P := fun _ _ => True)
    (Q := fun s => s.timeouts = [360]) (s := Watched.start Wcb.connecting) (by decide +kernel)
  have hlimit : ∀ x ∈ s.timeouts, Wcb.connecting.rcv.keepaliveView.limit ≤ x := by
    rw [hs]
    decide
  exact ⟨_, s, hrun, hlimit, (keepalive_waits hrun).mp hlimit⟩

end

end Wawo
