import Mathlib.Algebra.Order.Field.Basic
import Mathlib.Algebra.Order.Field.Rat
import Mathlib.Tactic.NormNum
import Mathlib.Tactic.Ring
import Wawo.Wcp.Api

/-!
# The round-trip estimator (`wcp.hpp`)

`_handle_pack_acked` means to average its samples: `srtt` with the weight `WCP_SRTT_ALPHA`, their
deviation `rttvar` with the weight `WCP_RTTVAR_BETA`. `Follows` says this over the rationals. The macros
are divisions of integers and expand to zero, so that after the first sample nothing is added any more
(`sampleRtt_frozen`); `estimator_follows` says for which sequences of samples this makes no difference.
-/

namespace Wawo

open Lts

/-- An acknowledged pack, or whatever the sending half does between two of them: the estimator stays, as
nothing else writes it. -/
inductive AckEvent
  | acked (p : WcbPack) (now curr : Nat)
  | other (t : Snd)

namespace AckEvent

/-- The sample, of a pack that was sent once -/
def sample : AckEvent → Option Nat
  | .acked p now _ => if p.sentTimes = 1 then some (u32 (subU64 now p.sentTs)) else none
  | .other _ => none

def step (e : AckEvent) (s : Snd) : Except Fault Snd :=
  match e with
  | .acked p now curr => s.handlePackAcked p now curr
  | .other t => .ok { t with firstRttDone := s.firstRttDone, srtt := s.srtt, rttvar := s.rttvar }

end AckEvent

namespace Snd

/-- An update with the sample `r` averages it in, up to the rounding of an integer. -/
def Follows (s s' : Snd) (r : Nat) : Prop :=
  |(s'.srtt : ℚ) - (7 * s.srtt + r) / 8| ≤ 1 ∧ |(s'.rttvar : ℚ) - (3 * s.rttvar + |(s.srtt : ℚ) - r|) / 4| ≤ 1

/-- All updates of a run but the one with the first sample average their sample in. -/
def AllFollow (es : List AckEvent) (s : Snd) : Prop :=
  ∀ es₁ e es₂ s₁ s₂ r, es = es₁ ++ e :: es₂ → exec AckEvent.step es₁ s = .ok s₁ → AckEvent.step e s₁ = .ok s₂ → e.sample = some r →
    s₁.firstRttDone = true → Follows s₁ s₂ r

/-- Samples that are as near to the first one as the average of the two may be wrong -/
def Near (first r : Nat) : Prop := |(first : ℚ) - r| ≤ 8 ∧ abs (((first / 2 : Nat) : ℚ) - |(first : ℚ) - r|) ≤ 4

/-- The estimator has had its first sample. -/
structure Sampled (first : Nat) (s : Snd) : Prop where
  done : s.firstRttDone = true
  srtt_eq : s.srtt = first
  rttvar_eq : s.rttvar = first / 2
  first_lt : first < 2 ^ 32

variable {s s' : Snd} {first r : Nat}

theorem checkCwnd_rtt (s : Snd) (curr checkSize : Nat) :
    (s.checkCwnd curr checkSize).firstRttDone = s.firstRttDone ∧ (s.checkCwnd curr checkSize).srtt = s.srtt ∧
      (s.checkCwnd curr checkSize).rttvar = s.rttvar := by
  unfold checkCwnd
  dsimp only
  split_ifs <;> exact ⟨rfl, rfl, rfl⟩

/-- The first sample is the average, and half of it the deviation. -/
theorem sampleRtt_first (hs : s.firstRttDone = false) (hr : r < 2 ^ 32) : (s.sampleRtt r).Sampled r := by
  unfold sampleRtt
  rw [hs]
  exact ⟨rfl, rfl, Nat.shiftRight_one r, hr⟩

/-- With a weight of zero, later samples leave the average and the deviation as they are. -/
theorem sampleRtt_frozen (hs : s.Sampled first) (r : Nat) : (s.sampleRtt r).Sampled first := by
  have hzero : wcpSrttAlpha = 0 := rfl
  have hzero' : wcpRttvarBeta = 0 := rfl
  have hlt := hs.first_lt
  have hrttvar : u32 (first / 2) = first / 2 := u32_of_lt (by omega)
  unfold sampleRtt
  rw [hs.done, hzero, hzero', hs.srtt_eq, hs.rttvar_eq]
  simp only [Nat.sub_zero, Nat.one_mul, Nat.zero_mul, Nat.add_zero, u32_of_lt hlt, hrttvar, if_true]
  exact ⟨rfl, rfl, rfl, hlt⟩

/-- The estimator of one state is that of another. -/
def SameRtt (s s' : Snd) : Prop := s'.firstRttDone = s.firstRttDone ∧ s'.srtt = s.srtt ∧ s'.rttvar = s.rttvar

theorem Sampled.congr (hs : s.Sampled first) (h : SameRtt s s') : s'.Sampled first :=
  ⟨h.1.trans hs.done, h.2.1.trans hs.srtt_eq, h.2.2.trans hs.rttvar_eq, hs.first_lt⟩

theorem handlePackAcked_rtt {p : WcbPack} {now curr : Nat} (h : s.handlePackAcked p now curr = .ok s') :
    SameRtt (if p.sentTimes = 1 then s.sampleRtt (u32 (subU64 now p.sentTs)) else s) s' := by
  unfold handlePackAcked at h
  dsimp only at h
  generalize (if p.sentTimes = 1 then s.sampleRtt (u32 (subU64 now p.sentTs)) else s) = t at h ⊢
  split at h
  case isTrue => cases h
  case isFalse =>
    cases h
    exact checkCwnd_rtt _ _ _

/-- What an event does to the estimator -/
theorem ackEvent_rtt {e : AckEvent} (h : e.step s = .ok s') :
    (e.sample = none ∧ SameRtt s s') ∨ ∃ r, e.sample = some r ∧ r < 2 ^ 32 ∧ SameRtt (s.sampleRtt r) s' := by
  cases e with
  | acked p now curr =>
    have hrtt := handlePackAcked_rtt h
    unfold AckEvent.sample
    dsimp only
    by_cases hp : p.sentTimes = 1
    · rw [if_pos hp] at hrtt ⊢
      exact .inr ⟨_, rfl, Nat.mod_lt _ (by decide), hrtt⟩
    · rw [if_neg hp] at hrtt ⊢
      exact .inl ⟨rfl, hrtt⟩
  | other t =>
    cases h
    exact .inl ⟨rfl, rfl, rfl, rfl⟩

/-- After a run from an estimator without a sample, it still has none, or it is as the first sample of the
run has left it. -/
theorem exec_rtt {es : List AckEvent} (hs : s.firstRttDone = false) (h : exec AckEvent.step es s = .ok s') :
    (es.filterMap AckEvent.sample = [] ∧ s'.firstRttDone = false) ∨
      ∃ first rest, es.filterMap AckEvent.sample = first :: rest ∧ s'.Sampled first := by
  have hafter : ∀ {es : List AckEvent} {s s' : Snd} {first : Nat}, s.Sampled first → exec AckEvent.step es s = .ok s' → s'.Sampled first := by
    intro es
    induction es with
    | nil =>
      rintro s s' first hs h
      cases h
      exact hs
    | cons e es ih =>
      rintro s s' first hs h
      obtain ⟨u, hu, h⟩ := exec_cons_eq_ok.mp h
      rcases ackEvent_rtt hu with ⟨-, hsame⟩ | ⟨r, -, -, hsame⟩
      · exact ih (hs.congr hsame) h
      · exact ih ((sampleRtt_frozen hs r).congr hsame) h
  induction es generalizing s with
  | nil =>
    cases h
    exact .inl ⟨rfl, hs⟩
  | cons e es ih =>
    obtain ⟨u, hu, h⟩ := exec_cons_eq_ok.mp h
    rcases ackEvent_rtt hu with ⟨he, hsame⟩ | ⟨r, he, hr, hsame⟩
    · rw [List.filterMap_cons_none he]
      exact ih (hsame.1.trans hs) h
    · rw [List.filterMap_cons_some he]
      exact .inr ⟨r, _, rfl, hafter ((sampleRtt_first hs hr).congr hsame) h⟩

/-- An update of an estimator that stays as it is averages a sample in just if the sample is near. -/
theorem follows_iff (hs : s.Sampled first) (hs' : s'.Sampled first) (r : Nat) : Follows s s' r ↔ Near first r := by
  unfold Follows Near
  rw [hs.srtt_eq, hs.rttvar_eq, hs'.srtt_eq, hs'.rttvar_eq]
  have havg : (first : ℚ) - (7 * first + r) / 8 = ((first : ℚ) - r) / 8 := by ring
  have hdev : ((first / 2 : Nat) : ℚ) - (3 * (first / 2 : Nat) + |(first : ℚ) - r|) / 4 = (((first / 2 : Nat) : ℚ) - |(first : ℚ) - r|) / 4 := by ring
  have h8 : (0 : ℚ) < 8 := by norm_num
  have h4 : (0 : ℚ) < 4 := by norm_num
  rw [havg, hdev, abs_div, abs_div, abs_of_pos h8, abs_of_pos h4, div_le_iff₀ h8, div_le_iff₀ h4, one_mul, one_mul]

end Snd

open Snd

/-- In a run of acknowledged packs from an estimator without a sample, every update after the first sample
averages its sample in, just if all samples are near the first one: the average and the deviation
never move from where the first sample has put them. -/
theorem estimator_follows {es : List AckEvent} {s t : Snd} (hs : s.firstRttDone = false) (h : exec AckEvent.step es s = .ok t) :
    s.AllFollow es ↔ ∀ first rest, es.filterMap AckEvent.sample = first :: rest → ∀ r ∈ rest, Near first r := by
  constructor
  · intro hall first rest hsamples r hr
    obtain ⟨a, b, rfl⟩ := List.append_of_mem hr
    rw [← List.cons_append] at hsamples
    obtain ⟨l₁, l₂, rfl, hl₁, hl₂⟩ := List.filterMap_eq_append_iff.mp hsamples
    obtain ⟨m, e, l₃, rfl, hm, he, -⟩ := List.filterMap_eq_cons_iff.mp hl₂
    rw [← List.append_assoc] at h
    obtain ⟨s₁, hs₁, h⟩ := exec_append_eq_ok.mp h
    obtain ⟨s₂, hs₂, -⟩ := exec_cons_eq_ok.mp h
    have hl : (l₁ ++ m).filterMap AckEvent.sample = first :: a := by
      rw [List.filterMap_append, hl₁, List.filterMap_eq_nil_iff.mpr hm, List.append_nil]
    rcases exec_rtt hs hs₁ with ⟨hnil, -⟩ | ⟨first', rest', hcons, hsampled⟩
    · rw [hl] at hnil
      cases hnil
    · obtain ⟨rfl, -⟩ := List.cons.inj (hl.symm.trans hcons)
      have hfollows := hall (l₁ ++ m) e l₃ s₁ s₂ r (List.append_assoc ..).symm hs₁ hs₂ he hsampled.done
      rcases ackEvent_rtt hs₂ with ⟨hnone, -⟩ | ⟨r', -, -, hsame⟩
      · rw [he] at hnone
        cases hnone
      · exact (follows_iff hsampled ((sampleRtt_frozen hsampled r').congr hsame) r).mp hfollows
  · rintro hnear es₁ e es₂ s₁ s₂ r rfl hs₁ hs₂ he hdone
    rcases exec_rtt hs hs₁ with ⟨-, hnot⟩ | ⟨first, rest, hcons, hsampled⟩
    · rw [hdone] at hnot
      cases hnot
    · rcases ackEvent_rtt hs₂ with ⟨hnone, -⟩ | ⟨r', -, -, hsame⟩
      · rw [he] at hnone
        cases hnone
      · refine (follows_iff hsampled ((sampleRtt_frozen hsampled r').congr hsame) r).mpr (hnear first (rest ++ r :: es₂.filterMap AckEvent.sample) ?_ r ?_)
        · rw [List.filterMap_append, hcons, List.filterMap_cons_some he, List.cons_append]
        · exact List.mem_append_right _ List.mem_cons_self

/-- A new control block, with packs in flight that carry no data and were sent at the time 0 -/
def Snd.awaiting : Snd := { (Wcb.init ⟨0, 0, 0, 0⟩ 0 wcpRcvWndDefault wcpRcvWndDefault).snd with nflightBytes := 2 * wcpHeaderLen }

def AckEvent.sampled (now : Nat) : AckEvent := .acked ⟨.fresh 0 .dat [] (Nat.zero_le _), 0, 1⟩ now now

/-- Samples of 10 and 13 ms -/
theorem estimator_follows_near : Snd.awaiting.AllFollow [.sampled 10, .sampled 13] := by
  refine (@estimator_follows [.sampled 10, .sampled 13] Snd.awaiting _ rfl rfl).mpr ?_
  intro first rest hsamples r hr
  obtain ⟨rfl, rfl⟩ := List.cons.inj (show [10, 13] = first :: rest from hsamples)
  obtain rfl := List.mem_singleton.mp hr
  unfold Near
  norm_num [abs_le]

/-- After samples of 100 and 200 ms the average is still 100 ms. -/
theorem estimator_stuck : ∃ t, exec AckEvent.step [.sampled 100, .sampled 200] Snd.awaiting = .ok t ∧ t.srtt = 100 ∧ t.rttvar = 50 ∧
    ¬ Snd.awaiting.AllFollow [.sampled 100, .sampled 200] := by
  refine ⟨_, rfl, rfl, rfl, fun h => ?_⟩
  have hfollows := (h [.sampled 100] (.sampled 200) [] _ _ 200 rfl rfl rfl rfl rfl).1
  have hsrtt : |(100 : ℚ) - (7 * 100 + 200) / 8| ≤ 1 := by exact_mod_cast hfollows
  norm_num [abs_le] at hsrtt

end Wawo
