import Wawo.Net.SendRuns

/-!
# How long `flush` waits

Between two attempts `flush` reads the clock. What it compares with `block_time` is `begin_time - now`, which
is zero as long as the clock shows the time of the first attempt and nearly `2^64` as soon as it has moved on:
a `flush` with a limit gives up at the first attempt that is blocked later than the first one. `BlockedTo` is
the kernel's part in that, and `startOf` what `begin_time` is set to, the first reading but for zeros.
-/

namespace Wawo.Socket

open Lts

/-- Something is left because the kernel blocks. -/
def Flushing.Blocked (f : Flushing) : Prop := f.left ≠ 0 ∧ f.ecO = eSocketSendBlock

instance (f : Flushing) : Decidable f.Blocked := inferInstanceAs (Decidable (_ ∧ _))

/-- `_flush`, called again and again, is blocked each time up to the one with number `k`. -/
def BlockedTo (s : Socket) (flushed : Nat) (answers : List SendAnswer) : Nat → Prop
  | 0 => ∃ f, s.flushSb flushed answers = .ok f ∧ f.Blocked
  | k + 1 => ∃ f, s.flushSb flushed answers = .ok f ∧ f.Blocked ∧ BlockedTo f.s f.flushed f.answers k

/-- `begin_time`, after the readings `nows` -/
def startOf (beginTime : Nat) (nows : List Nat) : Nat :=
  if beginTime = 0 then (nows.find? (· ≠ 0)).getD 0 else beginTime

/-- A `flush` that returns while the kernel blocks does so after a reading that is at least `block_time` later
than `first`. It is the last one it takes: with those before it alone it goes on. -/
def ReturnsLate (blockTime : Int) (s : Socket) (flushed beginTime : Nat) (answers : List SendAnswer) (first : Nat) (nows : List Nat) : Prop :=
  ∀ f, flushLoop blockTime s flushed beginTime answers nows = .ok f → f.Blocked →
    ∃ (k : Nat) (last : Nat), nows[k]? = some last ∧ flushLoop blockTime s flushed beginTime answers (nows.take k) = .error .waits ∧
      flushLoop blockTime s flushed beginTime answers (nows.take (k + 1)) = .ok f ∧ first + blockTime ≤ last

/-- `flush`, with readings `nows` of the clock, waits for `block_time` before it returns while the kernel blocks. -/
def FlushBounded (blockTime : Int) (s : Socket) (answers : List SendAnswer) (nows : List Nat) : Prop :=
  s.nonblocking = true → ReturnsLate blockTime s 0 0 answers (nows.headD 0) nows

/-- No attempt is blocked at a reading after `begin_time` and less than `block_time` after `first`. -/
def NoneBetween (blockTime : Int) (s : Socket) (flushed beginTime : Nat) (answers : List SendAnswer) (first : Nat) (nows : List Nat) : Prop :=
  ∀ (k : Nat) (now : Nat), nows[k]? = some now → BlockedTo s flushed answers k → now ≤ startOf beginTime nows ∨ first + blockTime ≤ now

variable {s : Socket} {flushed beginTime first now : Nat} {answers : List SendAnswer} {nows : List Nat} {blockTime : Int} {f : Flushing}

theorem startOf_cons (beginTime now : Nat) (nows : List Nat) :
    startOf beginTime (now :: nows) = startOf (if beginTime = 0 then now else beginTime) nows := by
  unfold startOf
  by_cases hbegin : beginTime = 0
  · by_cases hnow : now = 0
    · simp [hbegin, hnow]
    · simp [hbegin, hnow]
  · simp [hbegin]

theorem startOf_of_ne (h : beginTime ≠ 0) (nows : List Nat) : startOf beginTime nows = beginTime := if_neg h

/-- The difference that `flush` compares, at readings not before `begin_time` -/
theorem subU64_of_le (hle : beginTime ≤ now) (hnow : now < 2 ^ 64) :
    subU64 beginTime now = if now = beginTime then 0 else 2 ^ 64 - (now - beginTime) := by
  unfold subU64
  split_ifs with h
  · rw [h, Nat.add_sub_cancel_left, Nat.mod_self]
  · rw [Nat.mod_eq_of_lt (by omega)]
    omega

theorem flushLoop_nil (hblock : blockTime ≠ 0) (hf : s.flushSb flushed answers = .ok f) (hblocked : f.Blocked) :
    flushLoop blockTime s flushed beginTime answers [] = .error .waits := by
  unfold flushLoop
  rw [hf, ok_bind]
  dsimp only
  rw [if_neg]
  rintro (h | h | h)
  · exact hblocked.1 h
  · exact hblock h
  · exact h hblocked.2

theorem flushLoop_cons (hblock : blockTime ≠ 0) (hf : s.flushSb flushed answers = .ok f) (hblocked : f.Blocked) :
    flushLoop blockTime s flushed beginTime answers (now :: nows) =
      if blockTime ≠ -1 ∧ subU64 (if beginTime = 0 then now else beginTime) now > (blockTime % 2 ^ 32).toNat then .ok f
      else flushLoop blockTime f.s f.flushed (if beginTime = 0 then now else beginTime) f.answers nows := by
  conv_lhs => unfold flushLoop
  rw [hf, ok_bind]
  dsimp only
  rw [if_neg]
  · rfl
  · rintro (h | h | h)
    · exact hblocked.1 h
    · exact hblock h
    · exact h hblocked.2

/-- An attempt that is not blocked ends `flush`, or fails with it. -/
theorem flushLoop_unblocked (hf : ∀ f, s.flushSb flushed answers = .ok f → ¬ f.Blocked) (nows : List Nat) :
    ∀ f, flushLoop blockTime s flushed beginTime answers nows = .ok f → ¬ f.Blocked := by
  intro f hloop
  unfold flushLoop at hloop
  obtain ⟨f', hf', hloop⟩ := bind_eq_ok.mp hloop
  have hunblocked := hf f' hf'
  have hend : f'.left = 0 ∨ blockTime = 0 ∨ f'.ecO ≠ eSocketSendBlock := by
    by_contra hgo
    simp only [not_or, not_not] at hgo
    exact hunblocked ⟨hgo.1, hgo.2.2⟩
  rw [if_pos hend] at hloop
  cases hloop
  exact hunblocked

theorem BlockedTo.head {k : Nat} (h : BlockedTo s flushed answers k) : ∃ f, s.flushSb flushed answers = .ok f ∧ f.Blocked := by
  cases k with
  | zero => exact h
  | succ k =>
    obtain ⟨f, hf, hblocked, -⟩ := h
    exact ⟨f, hf, hblocked⟩

/-- The attempt is blocked and `flush` gives up: it is this reading that has to be late. -/
theorem returnsLate_iff_of_late (hblock : blockTime ≠ 0) (hf : s.flushSb flushed answers = .ok f) (hblocked : f.Blocked)
    (hlate : blockTime ≠ -1 ∧ subU64 (if beginTime = 0 then now else beginTime) now > (blockTime % 2 ^ 32).toNat) :
    ReturnsLate blockTime s flushed beginTime answers first (now :: nows) ↔ first + blockTime ≤ now := by
  have hnil : flushLoop blockTime s flushed beginTime answers [] = .error .waits := flushLoop_nil hblock hf hblocked
  have hcons (nows : List Nat) : flushLoop blockTime s flushed beginTime answers (now :: nows) = .ok f := by
    rw [flushLoop_cons hblock hf hblocked, if_pos hlate]
  constructor
  · intro h
    obtain ⟨k, last, hlast, hwaits, -, hle⟩ := h f (hcons nows) hblocked
    cases k with
    | zero =>
      cases hlast
      exact hle
    | succ k =>
      rw [List.take_succ_cons, hcons] at hwaits
      cases hwaits
  · intro hle f' hf' _
    rw [hcons] at hf'
    cases hf'
    exact ⟨0, now, rfl, hnil, hcons [], hle⟩

/-- The attempt is blocked and `flush` tries again. -/
theorem returnsLate_cons (hblock : blockTime ≠ 0) (hf : s.flushSb flushed answers = .ok f) (hblocked : f.Blocked)
    (hlate : ¬ (blockTime ≠ -1 ∧ subU64 (if beginTime = 0 then now else beginTime) now > (blockTime % 2 ^ 32).toNat)) :
    ReturnsLate blockTime s flushed beginTime answers first (now :: nows) ↔
      ReturnsLate blockTime f.s f.flushed (if beginTime = 0 then now else beginTime) f.answers first nows := by
  have hcons (nows : List Nat) : flushLoop blockTime s flushed beginTime answers (now :: nows) =
      flushLoop blockTime f.s f.flushed (if beginTime = 0 then now else beginTime) f.answers nows := by
    rw [flushLoop_cons hblock hf hblocked, if_neg hlate]
  constructor
  · intro h f' hf' hblocked'
    obtain ⟨k, last, hlast, hwaits, hreturns, hle⟩ := h f' ((hcons nows).trans hf') hblocked'
    cases k with
    | zero =>
      -- without a further reading the next attempt is not the last one
      rw [List.take_succ_cons, List.take_zero, hcons] at hreturns
      by_cases hnext : ∀ f'', f.s.flushSb f.flushed f.answers = .ok f'' → ¬ f''.Blocked
      · exact absurd hblocked' (flushLoop_unblocked hnext [] f' hreturns)
      · push Not at hnext
        obtain ⟨f'', hf'', hblocked''⟩ := hnext
        rw [flushLoop_nil hblock hf'' hblocked''] at hreturns
        cases hreturns
    | succ k =>
      rw [List.take_succ_cons, hcons] at hwaits hreturns
      exact ⟨k, last, hlast, hwaits, hreturns, hle⟩
  · intro h f' hf' hblocked'
    rw [hcons] at hf'
    obtain ⟨k, last, hlast, hwaits, hreturns, hle⟩ := h f' hf' hblocked'
    refine ⟨k + 1, last, hlast, ?_, ?_, hle⟩
    · rw [List.take_succ_cons, hcons, hwaits]
    · rw [List.take_succ_cons, hcons, hreturns]

theorem noneBetween_cons (hf : s.flushSb flushed answers = .ok f) (hblocked : f.Blocked) :
    NoneBetween blockTime s flushed beginTime answers first (now :: nows) ↔
      (now ≤ startOf beginTime (now :: nows) ∨ first + blockTime ≤ now) ∧
        NoneBetween blockTime f.s f.flushed (if beginTime = 0 then now else beginTime) f.answers first nows := by
  unfold NoneBetween
  rw [← startOf_cons]
  constructor
  · intro h
    exact ⟨h 0 now rfl ⟨f, hf, hblocked⟩, fun k now' hnow' hto => h (k + 1) now' hnow' ⟨f, hf, hblocked, hto⟩⟩
  · rintro ⟨hnow, h⟩ k now' hnow' hto
    cases k with
    | zero =>
      cases hnow'
      exact hnow
    | succ k =>
      obtain ⟨f', hf', -, hto⟩ := hto
      rw [hf] at hf'
      cases hf'
      exact h k now' hnow' hto

theorem returnsLate_iff (hpos : 0 < blockTime) (hlt : blockTime < 2 ^ 31) (hsorted : nows.Pairwise (· ≤ ·)) (hnows : ∀ now ∈ nows, now < 2 ^ 64)
    (hfirst : ∀ now ∈ nows, first ≤ now) (hbegin : beginTime ≠ 0 → first ≤ beginTime ∧ ∀ now ∈ nows, beginTime ≤ now) :
    ReturnsLate blockTime s flushed beginTime answers first nows ↔ NoneBetween blockTime s flushed beginTime answers first nows := by
  have hblock : blockTime ≠ 0 := by omega
  have hblock' : blockTime ≠ -1 := by omega
  have hmod : (blockTime % 2 ^ 32).toNat = blockTime.toNat := by
    rw [Int.emod_eq_of_lt (by omega) (by omega)]
  induction nows generalizing s flushed beginTime answers with
  | nil =>
    refine ⟨fun _ k now hnow => by simp at hnow, fun _ f hloop hblocked => ?_⟩
    by_cases hattempt : ∀ f, s.flushSb flushed answers = .ok f → ¬ f.Blocked
    · exact absurd hblocked (flushLoop_unblocked hattempt [] f hloop)
    · push Not at hattempt
      obtain ⟨f', hf', hblocked'⟩ := hattempt
      rw [flushLoop_nil hblock hf' hblocked'] at hloop
      cases hloop
  | cons now nows ih =>
    obtain ⟨hnow, hsorted⟩ := List.pairwise_cons.mp hsorted
    have hnowlt := hnows now (by simp)
    have hfirstnow := hfirst now (by simp)
    by_cases hattempt : ∀ f, s.flushSb flushed answers = .ok f → ¬ f.Blocked
    · refine ⟨fun _ k now' _ hto => ?_, fun _ f hloop hblocked => absurd hblocked (flushLoop_unblocked hattempt _ f hloop)⟩
      obtain ⟨f, hf, hblocked⟩ := hto.head
      exact absurd hblocked (hattempt f hf)
    push Not at hattempt
    obtain ⟨f, hf, hblocked⟩ := hattempt
    obtain ⟨start, hstart⟩ : ∃ start, start = if beginTime = 0 then now else beginTime := ⟨_, rfl⟩
    have hle : start ≤ now := by
      rw [hstart]
      split_ifs with h
      · exact Nat.le_refl now
      · exact (hbegin h).2 now (by simp)
    have hfirststart : first ≤ start := by
      rw [hstart]
      split_ifs with h
      · exact hfirstnow
      · exact (hbegin h).1
    have hsub := subU64_of_le hle hnowlt
    by_cases hlate : blockTime ≠ -1 ∧ subU64 start now > (blockTime % 2 ^ 32).toNat
    · have hne : now ≠ start := by
        intro heq
        rw [if_pos heq] at hsub
        omega
      have hbeginne : beginTime ≠ 0 := by
        intro h
        rw [if_pos h] at hstart
        exact hne hstart.symm
      rw [returnsLate_iff_of_late hblock hf hblocked (hstart ▸ hlate), noneBetween_cons hf hblocked, startOf_cons, ← hstart,
        startOf_of_ne (by rw [hstart, if_neg hbeginne]; exact hbeginne)]
      constructor
      · intro h
        refine ⟨.inr h, fun k now' hnow' _ => .inr ?_⟩
        have := hnow now' (List.mem_of_getElem? hnow')
        omega
      · rintro ⟨h | h, -⟩
        · omega
        · exact h
    · rw [returnsLate_cons hblock hf hblocked (hstart ▸ hlate), noneBetween_cons hf hblocked, startOf_cons, ← hstart]
      have hnext := @ih f.s f.flushed start f.answers hsorted (fun now' h => hnows now' (by simp [h])) (fun now' h => hfirst now' (by simp [h]))
        fun _ => ⟨hfirststart, fun now' h => hle.trans (hnow now' h)⟩
      refine hnext.trans (and_iff_right ?_).symm
      by_cases hzero : start = 0
      · left
        have hbeginzero : beginTime = 0 := by
          by_contra h
          rw [if_neg h] at hstart
          exact h (hstart.symm.trans hzero)
        rw [if_pos hbeginzero] at hstart
        omega
      · rw [startOf_of_ne hzero]
        by_cases heq : now = start
        · exact .inl heq.le
        · -- so late that the difference has wrapped round again
          right
          rw [if_neg heq] at hsub
          simp only [not_and, not_lt] at hlate
          have := hlate hblock'
          omega

/-- `flush` with a limit waits for it, before it returns while the kernel blocks, if and only if no attempt is
blocked at a reading after `begin_time` that is still within the limit. -/
theorem flush_bounded (s : Socket) (answers : List SendAnswer) (hpos : 0 < blockTime) (hlt : blockTime < 2 ^ 31) (hsorted : nows.Pairwise (· ≤ ·))
    (hnows : ∀ now ∈ nows, now < 2 ^ 64) :
    FlushBounded blockTime s answers nows ↔ (s.nonblocking = true → NoneBetween blockTime s 0 0 answers (nows.headD 0) nows) := by
  refine imp_congr_right fun _ => returnsLate_iff hpos hlt hsorted hnows ?_ fun h => absurd rfl h
  cases nows with
  | nil => simp
  | cons first nows => exact List.forall_mem_cons.mpr ⟨Nat.le_refl first, (List.pairwise_cons.mp hsorted).1⟩

/-- Whether a `flush` returns while the kernel blocks -/
def endsBlocked : Except ByteFault Flushing → Bool
  | .ok f => decide f.Blocked
  | .error _ => false

theorem exists_of_endsBlocked {r : Except ByteFault Flushing} (h : endsBlocked r = true) : ∃ f, r = .ok f ∧ f.Blocked := by
  cases r with
  | ok f => exact ⟨f, rfl, of_decide_eq_true h⟩
  | error => cases h

/-- The kernel blocks one byte, and again a millisecond later: `flush` with a limit of a millisecond gives up then. -/
theorem flush_bounded_millisecond :
    ∃ s p, init true .passive .connected sockSndMinSize sockRcvMinSize 1024 = .ok s ∧
      Run call (fun _ c => c.Sound sockSndMinSize) (inUse s) [.send [1] false 0 [.wouldBlock] 1] p ∧
      flushLoop 1000 p.s 0 0 [] [5] = .error .waits ∧ (∃ f, flushLoop 1000 p.s 0 0 [] [5, 1005] = .ok f ∧ f.Blocked) ∧
      FlushBounded 1000 p.s [] [5, 1005] := by
  obtain ⟨s, p, hs, hrun, hp⟩ := exists_of_runs .passive .connected (fun _ c => c.Sound sockSndMinSize)
    (fun p => decide (fault? (flushLoop 1000 p.s 0 0 [] [5]) = some .waits) && endsBlocked (flushLoop 1000 p.s 0 0 [] [5, 1005]))
    [.send [1] false 0 [.wouldBlock] 1] (by decide +kernel)
  obtain ⟨hwaits, hp⟩ := Bool.and_eq_true_iff.mp hp
  have hnone : NoneBetween 1000 p.s 0 0 [] 5 [5, 1005] := by
    intro k now hnow _
    cases k with
    | zero =>
      cases hnow
      exact .inl (by decide)
    | succ k =>
      cases k with
      | zero =>
        cases hnow
        exact .inr (by decide)
      | succ k => cases hnow
  exact ⟨s, p, hs, hrun.mono fun _ _ hc => of_decide_eq_true hc, fault?_eq_some.mp (of_decide_eq_true hwaits), exists_of_endsBlocked hp,
    (flush_bounded p.s [] (by decide) (by decide) (by decide) (by decide)).mpr fun _ => hnone⟩

/-- The kernel blocks one byte; a microsecond later `flush` with a limit of a millisecond gives up. -/
theorem flush_returns_early :
    ∃ s p, init true .passive .connected sockSndMinSize sockRcvMinSize 1024 = .ok s ∧
      Run call (fun _ c => c.Sound sockSndMinSize) (inUse s) [.send [1] false 0 [.wouldBlock] 1] p ∧ ¬ FlushBounded 1000 p.s [] [5, 6] := by
  obtain ⟨s, p, hs, hrun, hp⟩ := exists_of_runs .passive .connected (fun _ c => c.Sound sockSndMinSize)
    (fun p => p.s.nonblocking && endsBlocked (flushLoop 1000 p.s 0 0 [] [5, 6]))
    [.send [1] false 0 [.wouldBlock] 1] (by decide +kernel)
  refine ⟨s, p, hs, hrun.mono fun _ _ hc => of_decide_eq_true hc, fun h => ?_⟩
  obtain ⟨hnon, hp⟩ := Bool.and_eq_true_iff.mp hp
  obtain ⟨f, hf, hblocked⟩ := exists_of_endsBlocked hp
  obtain ⟨k, last, hlast, -, -, hle⟩ := h hnon f hf hblocked
  have hlast := List.mem_of_getElem? hlast
  have : last = 5 ∨ last = 6 := by simpa using hlast
  simp only [List.headD_cons] at hle
  omega

end Wawo.Socket
