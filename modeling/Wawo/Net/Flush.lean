import Wawo.Net.Socket

/-!
# What the kernel takes

`ready` is how many bytes the kernel takes before it blocks, by its answers; `flushReady` is how many it
takes before `flush` gives up. With no error among the answers, `send` hands over as much of its bytes and
`_flush`, `flush` and the loop of `handle_async_write` as much of the bytes in `m_sb`, from the front, and
stops with `E_SOCKET_SEND_BLOCK` where something is left.
-/

namespace Wawo

open Memory Lts

instance (a : SendAnswer) : Decidable (∃ errno, a = .failed errno) :=
  match a with
  | .sent _ => isFalse nofun
  | .wouldBlock => isFalse nofun
  | .interrupted => isFalse nofun
  | .failed errno => isTrue ⟨errno, rfl⟩

/-- No answer is an error. -/
def Calm (answers : List SendAnswer) : Prop := ∀ errno, .failed errno ∉ answers

instance (answers : List SendAnswer) : Decidable (Calm answers) :=
  decidable_of_iff (∀ a ∈ answers, ¬ ∃ errno, a = .failed errno) ⟨fun h errno he => h _ he ⟨errno, rfl⟩, fun h _ ha ⟨errno, he⟩ => h errno (he ▸ ha)⟩

/-- The bytes that the kernel takes before it blocks -/
def ready : List SendAnswer → Nat
  | .sent n :: answers => n + 1 + ready answers
  | .interrupted :: answers => ready answers
  | _ => 0

/-- The answers after the kernel has blocked -/
def afterBlock : List SendAnswer → List SendAnswer
  | .sent _ :: answers => afterBlock answers
  | .interrupted :: answers => afterBlock answers
  | _ :: answers => answers
  | [] => []

/-- The bytes that the kernel takes before `flush` gives up -/
def flushReady (blockTime : Int) (beginTime : Nat) (answers : List SendAnswer) (nows : List Nat) : Nat :=
  if blockTime = 0 then ready answers
  else
    match nows with
    | [] => ready answers
    | now :: nows =>
      let beginTime := if beginTime = 0 then now else beginTime
      if blockTime ≠ -1 ∧ subU64 beginTime now > (blockTime % 2 ^ 32).toNat then ready answers
      else ready answers + flushReady blockTime beginTime (afterBlock answers) nows

theorem Calm.tail {a : SendAnswer} {answers : List SendAnswer} (h : Calm (a :: answers)) : Calm answers :=
  fun errno he => h errno (List.mem_cons_of_mem _ he)

theorem Calm.afterBlock {answers : List SendAnswer} (h : Calm answers) : Calm (afterBlock answers) := by
  induction answers with
  | nil => exact h
  | cons a answers ih =>
    cases a with
    | sent n => exact ih h.tail
    | interrupted => exact ih h.tail
    | wouldBlock => exact h.tail
    | failed errno => exact h.tail

/-- From `sent_total` on, the kernel takes what it is ready to take. -/
theorem trySend_eq {buffer : List Byte} {answers : List SendAnswer} (hcalm : Calm answers) {sentTotal : Nat} (hlt : sentTotal < buffer.length) :
    ∃ r, trySend buffer answers sentTotal = (slice buffer sentTotal (min (buffer.length - sentTotal) (ready answers)), r) ∧
      r.sent = sentTotal + min (buffer.length - sentTotal) (ready answers) ∧
      (buffer.length - sentTotal ≤ ready answers → r.ecO = ok) ∧
      (ready answers < buffer.length - sentTotal → r.ecO = eSocketSendBlock ∧ r.answers = afterBlock answers) := by
  induction answers generalizing sentTotal with
  | nil => exact ⟨⟨sentTotal, eSocketSendBlock, []⟩, by simp [trySend, ready, slice], by simp [ready], by simp [ready]; omega, fun _ => ⟨rfl, rfl⟩⟩
  | cons a answers ih =>
    cases a with
    | wouldBlock =>
      exact ⟨⟨sentTotal, eSocketSendBlock, answers⟩, by simp [trySend, ready, slice], by simp [ready], by simp [ready]; omega, fun _ => ⟨rfl, rfl⟩⟩
    | failed errno => exact absurd (by simp) (hcalm errno)
    | interrupted => exact ih hcalm.tail hlt
    | sent n =>
      by_cases hall : sentTotal + min (n + 1) (buffer.length - sentTotal) = buffer.length
      · have hn : min (n + 1) (buffer.length - sentTotal) = buffer.length - sentTotal := by omega
        have hmin : min (buffer.length - sentTotal) (n + 1 + ready answers) = buffer.length - sentTotal := by omega
        refine ⟨⟨buffer.length, ok, answers⟩, ?_, ?_, fun _ => rfl, fun hlt => ?_⟩
        · simp only [trySend, ready, hn, hmin]
          rw [if_pos (by omega), show sentTotal + (buffer.length - sentTotal) = buffer.length by omega]
        · show buffer.length = sentTotal + min (buffer.length - sentTotal) (n + 1 + ready answers)
          omega
        · have hlt' : n + 1 + ready answers < buffer.length - sentTotal := hlt
          omega
      · obtain ⟨r, hr, hsent, hok, hblock⟩ := ih hcalm.tail (show sentTotal + min (n + 1) (buffer.length - sentTotal) < buffer.length by omega)
        have hn : min (n + 1) (buffer.length - sentTotal) = n + 1 := by omega
        rw [hn] at hr hsent hok hblock hall
        refine ⟨r, ?_, ?_, fun hle => hok ?_, fun hlt => ?_⟩
        · simp only [trySend, ready, hn]
          rw [if_neg hall, hr]
          dsimp only
          rw [← slice_add]
          congr 2
          omega
        · rw [hsent, ready]
          omega
        · rw [ready] at hle
          omega
        · rw [ready] at hlt
          exact hblock (by omega)

namespace Socket

variable {s : Socket} {q : BoundedQueue Byte} {answers : List SendAnswer}

/-- The kernel takes bytes from the front of a buffer, all that it is ready to take. -/
theorem baseSend_eq {buffer : List Byte} (hne : 0 < buffer.length) (hcalm : Calm answers) (hopen : s.mWflag.shutdown = false) :
    ∃ r, s.baseSend buffer answers = .ok (r, { s with kernel := s.kernel ++ buffer.take (min buffer.length (ready answers)) }) ∧
      r.sent = min buffer.length (ready answers) ∧ (buffer.length ≤ ready answers → r.ecO = ok) ∧
      (ready answers < buffer.length → r.ecO = eSocketSendBlock ∧ r.answers = afterBlock answers) := by
  obtain ⟨r, hr, hsent, hok, hblock⟩ := trySend_eq hcalm hne
  rw [Nat.sub_zero] at hr hsent hok hblock
  refine ⟨r, ?_, by rw [hsent, Nat.zero_add], hok, hblock⟩
  unfold baseSend
  rw [require_eq hne, ok_bind, hopen, if_neg Bool.false_ne_true, hr]
  rfl

/-- Some bytes have gone from the front of `m_sb` to the kernel. -/
structure Flushed (s : Socket) (q : BoundedQueue Byte) (flushed n : Nat) (f : Flushing) : Prop where
  s_eq : f.s = { s with mSb := f.s.mSb, kernel := s.kernel ++ q.front n }
  refines : f.s.mSb.Refines (q.skip n)
  le : n ≤ q.count
  flushed_eq : f.flushed = flushed + n
  left_eq : f.left = q.count - n

theorem flushRound_eq {f : Flushing} (hq : f.s.mSb.Refines q) (hcap : q.capacity = f.s.sndSize) (hne : 0 < q.count) (hcalm : Calm f.answers)
    (hopen : f.s.mWflag.shutdown = false) :
    ∃ f', flushRound f = .ok f' ∧ Flushed f.s q f.flushed (min q.count (ready f.answers)) f' ∧ (q.count ≤ ready f.answers → f'.ecO = ok) ∧
      (ready f.answers < q.count → f'.ecO = eSocketSendBlock ∧ f'.answers = afterBlock f.answers) := by
  have hall : q.front f.s.sndSize = q.items := List.take_of_length_le (by rw [← hcap]; exact q.length_le)
  have hlen : q.items.length = q.count := rfl
  obtain ⟨r, hr, hsent, hok, hblock⟩ := baseSend_eq (s := f.s) (hlen ▸ hne) hcalm hopen
  obtain ⟨rb, hskip, hq'⟩ := hq.skip (Nat.min_le_left q.count (ready f.answers))
  have hmSb : (if r.sent > 0 then f.s.mSb.skip r.sent else .ok f.s.mSb) = .ok (if r.sent > 0 then rb else f.s.mSb) := by
    rw [hsent]
    split_ifs
    · exact hskip
    · rfl
  have hrefines : (if r.sent > 0 then rb else f.s.mSb).Refines (q.skip (min q.count (ready f.answers))) := by
    split_ifs with hpos
    · exact hq'
    · rw [hsent, hlen] at hpos
      rw [Nat.eq_zero_of_not_pos hpos]
      exact ⟨hq.begin_lt, hq.end_lt, hq.length_buffer, hq.capacity_eq, hq.min_le, hq.le_max, hq.items_eq⟩
  refine ⟨⟨{ f.s with mSb := if r.sent > 0 then rb else f.s.mSb, kernel := f.s.kernel ++ q.front (min q.count (ready f.answers)) },
    f.flushed + r.sent, (if r.sent > 0 then rb else f.s.mSb).count, r.ecO, r.answers⟩, ?_, ⟨rfl, hrefines, Nat.min_le_left _ _, ?_, ?_⟩, hok, hblock⟩
  · unfold flushRound
    rw [hq.peek_eq, ok_bind]
    dsimp only
    rw [hall, hr, ok_bind]
    dsimp only
    rw [hmSb, ok_bind, pure_eq_ok]
    rfl
  · show f.flushed + r.sent = _
    rw [hsent, hlen]
  · show RingBuffer.count _ = _
    rw [hrefines.count_eq, BoundedQueue.count_skip]

/-- The kernel has taken as many bytes as it takes, and none if the half is shut down. -/
structure FlushedBy (s : Socket) (q : BoundedQueue Byte) (flushed takes n : Nat) (f : Flushing) : Prop where
  flushed : Flushed s q flushed n f
  ok_of_all : n = q.count → f.ecO = ok
  of_shutdown : s.mWflag.shutdown = true → n = 0
  of_open : s.mWflag.shutdown = false → n = min q.count takes

/-- `_flush` ends with an error where something is left. -/
theorem flushSb_eq (hq : s.mSb.Refines q) (hcap : q.capacity = s.sndSize) (hdata : s.mSm ≠ .listener) (hnon : s.nonblocking = true)
    (hcalm : Calm answers) (flushed : Nat) :
    ∃ n f, s.flushSb flushed answers = .ok f ∧ FlushedBy s q flushed (ready answers) n f ∧
      (s.mWflag.shutdown = true → q.count ≠ 0 → f.ecO = eSocketWrShutdownAlready) ∧
      (s.mWflag.shutdown = false → ready answers < q.count → f.ecO = eSocketSendBlock ∧ f.answers = afterBlock answers) := by
  unfold flushSb
  rw [require_eq hdata, ok_bind, require_eq hnon, ok_bind, hq.count_eq]
  by_cases h0 : q.count = 0
  · refine ⟨0, ⟨s, flushed, q.count, ok, answers⟩, loopWhile_done (by simp [Flushing.more, h0]) _,
      ⟨⟨?_, ?_, Nat.zero_le _, rfl, rfl⟩, fun _ => rfl, fun _ => rfl, fun _ => by rw [h0, Nat.zero_min]⟩, fun _ h => absurd h0 h,
      fun _ h => absurd h (by omega)⟩
    · simp [BoundedQueue.front]
    · exact hq
  · have hmore : Flushing.more ⟨s, flushed, q.count, ok, answers⟩ = true := by simp [Flushing.more, h0]
    have hpos := Nat.pos_of_ne_zero h0
    cases hdown : s.mWflag.shutdown with
    | true =>
      have hround : flushRound ⟨s, flushed, q.count, ok, answers⟩ = .ok ⟨s, flushed, q.count, eSocketWrShutdownAlready, answers⟩ := by
        have hall : (q.front s.sndSize).length > 0 := by
          rw [BoundedQueue.front, List.take_of_length_le (by rw [← hcap]; exact q.length_le)]
          exact hpos
        unfold flushRound baseSend
        rw [hq.peek_eq, ok_bind]
        dsimp only
        rw [require_eq hall, ok_bind, hdown, if_pos rfl, pure_eq_ok, ok_bind]
        dsimp only
        rw [if_neg (Nat.lt_irrefl 0), ok_bind, pure_eq_ok, hq.count_eq, Nat.add_zero]
      refine ⟨0, _, (loopWhile_next hmore hround _).trans (loopWhile_done ?_ _),
        ⟨⟨?_, hq, Nat.zero_le _, rfl, rfl⟩, fun h => absurd h.symm h0, fun _ => rfl, fun h => Bool.noConfusion (hdown.symm.trans h)⟩, fun _ _ => rfl, fun h => Bool.noConfusion h⟩
      · simp [Flushing.more, eSocketWrShutdownAlready, ok]
      · simp [BoundedQueue.front]
    | false =>
      obtain ⟨f, hround, hf, hok, hblock⟩ := flushRound_eq (f := ⟨s, flushed, q.count, ok, answers⟩) hq hcap hpos hcalm hdown
      refine ⟨_, f, (loopWhile_next hmore hround _).trans (loopWhile_done ?_ _),
        ⟨hf, fun hn => hok (min_eq_left_iff.mp hn), fun h => Bool.noConfusion (hdown.symm.trans h), fun _ => rfl⟩, fun h => Bool.noConfusion h, fun _ => hblock⟩
      have hleft := hf.left_eq
      by_cases hle : q.count ≤ ready answers
      · rw [Nat.min_eq_left hle, Nat.sub_self] at hleft
        simp [Flushing.more, hleft]
      · simp [Flushing.more, (hblock (Nat.lt_of_not_le hle)).1, eSocketSendBlock, ok]

theorem Flushed.trans {flushed n m : Nat} {f f' : Flushing} (h : Flushed s q flushed n f) (h' : Flushed f.s (q.skip n) f.flushed m f') :
    Flushed s q flushed (n + m) f' := by
  have hle := h'.le
  rw [BoundedQueue.count_skip] at hle
  refine ⟨?_, ?_, ?_, ?_, ?_⟩
  · rw [h'.s_eq, h.s_eq]
    dsimp only
    rw [List.append_assoc, BoundedQueue.front, BoundedQueue.front, BoundedQueue.items_skip, ← List.take_add]
    rfl
  · have hskip : (q.skip n).skip m = q.skip (n + m) := by
      simp [BoundedQueue.skip, List.drop_drop]
    rw [← hskip]
    exact h'.refines
  · have := h.le
    omega
  · rw [h'.flushed_eq, h.flushed_eq, Nat.add_assoc]
  · rw [h'.left_eq, BoundedQueue.count_skip, Nat.sub_sub]

theorem FlushedBy.trans {flushed takes takes' n m : Nat} {f f' : Flushing} (h : FlushedBy s q flushed takes n f)
    (h' : FlushedBy f.s (q.skip n) f.flushed takes' m f') : FlushedBy s q flushed (takes + takes') (n + m) f' := by
  have hwflag : f.s.mWflag = s.mWflag := by rw [h.flushed.s_eq]
  have hle := h.flushed.le
  refine ⟨h.flushed.trans h'.flushed, fun hn => h'.ok_of_all ?_, fun hdown => ?_, fun hopen => ?_⟩
  · rw [BoundedQueue.count_skip]
    omega
  · rw [h.of_shutdown hdown, h'.of_shutdown (by rwa [hwflag])]
  · have h₁ := h.of_open hopen
    have h₂ := h'.of_open (by rwa [hwflag])
    rw [BoundedQueue.count_skip] at h₂
    omega

/-- The kernel could have taken more, but there was no more. -/
theorem FlushedBy.mono {flushed takes takes' n : Nat} {f : Flushing} (h : FlushedBy s q flushed takes n f) (hle : takes ≤ takes')
    (hall : s.mWflag.shutdown = false → takes = takes' ∨ q.count ≤ takes) : FlushedBy s q flushed takes' n f := by
  refine ⟨h.flushed, h.ok_of_all, h.of_shutdown, fun hopen => ?_⟩
  have h₁ := h.of_open hopen
  have h₂ := hall hopen
  omega

theorem ready_le_flushReady (blockTime : Int) (beginTime : Nat) (answers : List SendAnswer) (nows : List Nat) :
    ready answers ≤ flushReady blockTime beginTime answers nows := by
  cases nows with
  | nil =>
    unfold flushReady
    split_ifs <;> exact Nat.le_refl _
  | cons now nows =>
    unfold flushReady
    dsimp only
    split_ifs <;> omega

theorem flushLoop_spec {blockTime : Int} {nows : List Nat} {beginTime flushedTotal : Nat} (hq : s.mSb.Refines q) (hcap : q.capacity = s.sndSize)
    (hdata : s.mSm ≠ .listener) (hnon : s.nonblocking = true) (hcalm : Calm answers) :
    Ensures (fun f => ∃ n, FlushedBy s q flushedTotal (flushReady blockTime beginTime answers nows) n f) (· = .waits)
      (flushLoop blockTime s flushedTotal beginTime answers nows) := by
  induction nows generalizing s q answers beginTime flushedTotal with
  | nil =>
    obtain ⟨n, f, hf, hflushed, -, -⟩ := flushSb_eq hq hcap hdata hnon hcalm flushedTotal
    have hready : flushReady blockTime beginTime answers [] = ready answers := by
      unfold flushReady
      split_ifs <;> rfl
    unfold flushLoop
    rw [hf, ok_bind, hready]
    dsimp only
    split_ifs with hend
    · exact ⟨n, hflushed⟩
    · rfl
  | cons now nows ih =>
    obtain ⟨n, f, hf, hflushed, hrefused, hblocked⟩ := flushSb_eq hq hcap hdata hnon hcalm flushedTotal
    have hleft := hflushed.flushed.left_eq
    have hle := hflushed.flushed.le
    unfold flushLoop
    rw [hf, ok_bind]
    dsimp only
    by_cases hend : f.left = 0 ∨ blockTime = 0 ∨ f.ecO ≠ eSocketSendBlock
    · rw [if_pos hend]
      refine ⟨n, hflushed.mono (ready_le_flushReady ..) fun hopen => ?_⟩
      have hn := hflushed.of_open hopen
      rcases hend with hall | hblock | hec
      · exact .inr (by omega)
      · refine .inl ?_
        rw [flushReady, if_pos hblock]
      · exact .inr (Nat.le_of_not_lt fun hlt => hec (hblocked hopen hlt).1)
    · obtain ⟨hsome, hblock, hec⟩ : f.left ≠ 0 ∧ blockTime ≠ 0 ∧ f.ecO = eSocketSendBlock := by
        simpa only [not_or, not_not] using hend
      rw [if_neg hend, flushReady, if_neg hblock]
      dsimp only
      generalize (if beginTime = 0 then now else beginTime) = beginTime
      by_cases hlate : blockTime ≠ -1 ∧ subU64 beginTime now > (blockTime % 2 ^ 32).toNat
      · rw [if_pos hlate, if_pos hlate]
        exact ⟨n, hflushed⟩
      · rw [if_neg hlate, if_neg hlate]
        have hopen : s.mWflag.shutdown = false := by
          refine Bool.eq_false_iff.mpr fun hdown => ?_
          have hrefused := hrefused hdown (by omega)
          rw [hec] at hrefused
          cases hrefused
        have hn := hflushed.of_open hopen
        have hanswers := (hblocked hopen (by omega)).2
        have hs := hflushed.flushed.s_eq
        rw [hanswers]
        have hnext := @ih f.s (q.skip n) (afterBlock answers) beginTime f.flushed hflushed.flushed.refines (by rw [hs]; exact hcap)
          (by rw [hs]; exact hdata) (by rw [hs]; exact hnon) hcalm.afterBlock
        exact hnext.mono fun f' ⟨m, hf'⟩ => ⟨n + m, hflushed.trans hf'⟩

/-- The loop of `handle_async_write` ends after its first round. -/
theorem asyncWriteLoop_eq (hq : s.mSb.Refines q) (hcap : q.capacity = s.sndSize) (hdata : s.mSm ≠ .listener) (hnon : s.nonblocking = true)
    (hcalm : Calm answers) :
    ∃ n f, s.asyncWriteLoop answers = .ok f ∧ FlushedBy s q 0 (ready answers) n f ∧
      (s.mWflag.shutdown = true → q.count ≠ 0 → f.ecO = eSocketWrShutdownAlready) ∧
      (s.mWflag.shutdown = false → ready answers < q.count → f.ecO = eSocketSendBlock) := by
  obtain ⟨n, f, hf, hflushed, hrefused, hblocked⟩ := flushSb_eq hq hcap hdata hnon hcalm 0
  refine ⟨n, f, ?_, hflushed, hrefused, fun hopen hlt => (hblocked hopen hlt).1⟩
  have hmore : f.more = false := by
    have hleft := hflushed.flushed.left_eq
    unfold Flushing.more
    refine decide_eq_false fun ⟨hsome, hok⟩ => ?_
    cases hdown : s.mWflag.shutdown with
    | true =>
      rw [hrefused hdown (by omega)] at hok
      cases hok
    | false =>
      have hn := hflushed.of_open hdown
      rw [(hblocked hdown (by omega)).1] at hok
      cases hok
  unfold asyncWriteLoop
  rw [hf, ok_bind, loopWhile_done hmore]

end Socket

end Wawo
