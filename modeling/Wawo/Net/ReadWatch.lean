import Wawo.Net.ReceivePath

/-!
# The read watch

`begin_async_read` sets `WATCH_READ` in `m_rflag`, and with it the option it is given. `handle_async_read` is to
leave an infinite watch as it is and to end any other one when it has packets (`readWatch`). The option it looks
at is the one of the write watch: it does what it is to do as long as both watches have the option or neither.
-/

namespace Wawo.Socket

open Lts

/-- `_begin_async_read(async_flag)`, with or without `WATCH_OPTION_INFINITE` -/
def beginAsyncReadWith (s : Socket) (infinite : Bool) : Except ByteFault Socket := do
  require (s.nonblocking = true) .socketMode
  if s.mRflag.shutdown then return s
  else if s.mRflag.watch then return s
  else return { s with mRflag := { s.mRflag with watch := true, infinite := s.mRflag.infinite || infinite } }

/-- `_begin_async_write(async_flag)`, with or without `WATCH_OPTION_INFINITE`, for `async_write` -/
def beginAsyncWriteWith (s : Socket) (infinite : Bool) : Except ByteFault Socket := do
  require (s.mState = .connected ∨ s.mState = .connecting) .socketState
  require (s.nonblocking = true) .socketMode
  if s.mWflag.shutdown then return s
  else if s.mWflag.watch then return s
  else return { s with mWflag := { s.mWflag with watch := true, infinite := s.mWflag.infinite || infinite }, writeCallback := some .asyncWrite }

theorem beginAsyncReadWith_false (s : Socket) : s.beginAsyncReadWith false = s.beginAsyncRead := by
  unfold beginAsyncReadWith beginAsyncRead
  rw [Bool.or_false]

theorem beginAsyncWriteWith_false (s : Socket) : s.beginAsyncWriteWith false = s.beginAsyncWrite := by
  unfold beginAsyncWriteWith beginAsyncWrite
  rw [Bool.or_false]

/-- The calls that watch, and what the observer calls then -/
inductive WatchCall
  | beginAsyncRead (infinite : Bool)
  | beginAsyncWrite (infinite : Bool)
  | handleAsyncRead (answers : List RecvAnswer)
  | handleAsyncWrite (answers : List SendAnswer) (now : Nat)
deriving DecidableEq

def watchCall : WatchCall → Socket → Except ByteFault Socket
  | .beginAsyncRead infinite, s => s.beginAsyncReadWith infinite
  | .beginAsyncWrite infinite, s => s.beginAsyncWriteWith infinite
  | .handleAsyncRead answers, s => do
    let (_, _, s) ← s.handleAsyncRead answers
    return s
  | .handleAsyncWrite answers now, s => do
    let (_, s) ← s.handleAsyncWrite answers now
    return s

/-- What `handle_async_read` is to leave in `m_rflag`, by what it finds there and the packets it delivers -/
def readWatch (flag : HalfFlag) (packets : List Packet) : HalfFlag :=
  if flag.watch ∧ flag.infinite then flag else { flag with watch := packets.isEmpty }

/-- `handle_async_read` is called while both watches have `WATCH_OPTION_INFINITE` or neither. -/
def Alike (s : Socket) : WatchCall → Prop
  | .handleAsyncRead _ => s.mWflag.infinite = s.mRflag.infinite
  | _ => True

instance (s : Socket) : (c : WatchCall) → Decidable (s.Alike c)
  | .beginAsyncRead _ => isTrue trivial
  | .beginAsyncWrite _ => isTrue trivial
  | .handleAsyncRead _ => inferInstanceAs (Decidable (s.mWflag.infinite = s.mRflag.infinite))
  | .handleAsyncWrite _ _ => isTrue trivial

variable {s s' : Socket} {packets : List Packet} {ec : Int}

/-! ### What the loops keep -/

/-- A call has touched neither the read watch nor the packets that wait to be delivered. -/
structure Fetched (s s' : Socket) : Prop where
  rflag : s'.mRflag = s.mRflag
  nonblocking : s'.nonblocking = s.nonblocking
  standby : s'.mRpsQStandby = s.mRpsQStandby

theorem Fetched.trans {s'' : Socket} (h : Fetched s s') (h' : Fetched s' s'') : Fetched s s'' :=
  ⟨h'.rflag.trans h.rflag, h'.nonblocking.trans h.nonblocking, h'.standby.trans h.standby⟩

theorem pump_fetched {answers answers' : List RecvAnswer} (h : s.pump answers = .ok (ec, s', answers')) : Fetched s s' := by
  unfold pump at h
  obtain ⟨_, -, h⟩ := bind_eq_ok.mp h
  dsimp only at h
  split at h
  · cases h
    exact ⟨rfl, rfl, rfl⟩
  · obtain ⟨r, -, h⟩ := bind_eq_ok.mp h
    split at h
    · obtain ⟨⟨rbWBC, mRb⟩, -, h⟩ := bind_eq_ok.mp h
      obtain ⟨_, -, h⟩ := bind_eq_ok.mp h
      cases h
      exact ⟨rfl, rfl, rfl⟩
    · cases h
      exact ⟨rfl, rfl, rfl⟩

theorem decodeArrives_fetched {size : Nat} {answers : List RecvAnswer} {n : Receiving} (h : s.decodeArrives size ec answers = .ok n) :
    Fetched s n.s := by
  unfold decodeArrives at h
  obtain ⟨r, -, h⟩ := bind_eq_ok.mp h
  dsimp only at h
  split at h <;> (cases h; exact ⟨rfl, rfl, rfl⟩)

theorem receivePackets_fetched {size : Nat} {alwaysPump : Bool} {answers : List RecvAnswer} {n : Receiving}
    (h : s.receivePackets size alwaysPump answers = .ok n) : Fetched s n.s := by
  unfold receivePackets at h
  split at h
  · obtain ⟨⟨pumpEc, s₁, answers₁⟩, hpump, h⟩ := bind_eq_ok.mp h
    have hs₁ := pump_fetched hpump
    dsimp only at h
    split at h
    · cases h
      exact hs₁
    · split at h
      · obtain ⟨_, -, h⟩ := bind_eq_ok.mp h
        obtain ⟨_, -, h⟩ := bind_eq_ok.mp h
        cases h
        exact hs₁
      · exact hs₁.trans (decodeArrives_fetched h)
  · exact decodeArrives_fetched h

/-- What the loop of `handle_async_read` keeps: packets that have arrived are in `m_rps_q_standby`. -/
structure ReadsOn (s : Socket) (r : Reading) : Prop where
  rflag : r.s.mRflag = s.mRflag
  nonblocking : r.s.nonblocking = s.nonblocking
  standby : r.hasNewArrives = true → r.s.mRpsQStandby ≠ []

theorem ReadsOn.round {r r' : Reading} (h : ReadsOn s r) (hr' : readRound r = .ok r') : ReadsOn s r' := by
  unfold readRound at hr'
  obtain ⟨n, hn, hr'⟩ := bind_eq_ok.mp hr'
  have hfetched := receivePackets_fetched hn
  cases hr'
  refine ⟨hfetched.rflag.trans h.rflag, hfetched.nonblocking.trans h.nonblocking, fun hnew => ?_⟩
  show n.s.mRpsQStandby ++ n.arrives ≠ []
  rw [hfetched.standby]
  rcases Bool.or_eq_true_iff.mp hnew with hold | harrives
  · exact List.append_ne_nil_of_left_ne_nil (h.standby hold) _
  · exact List.append_ne_nil_of_right_ne_nil _ (List.ne_nil_of_length_pos (of_decide_eq_true harrives))

theorem flushRound_rflag {f f' : Flushing} (h : flushRound f = .ok f') : f'.s.mRflag = f.s.mRflag := by
  unfold flushRound at h
  obtain ⟨⟨n, tsb, mSb⟩, -, h⟩ := bind_eq_ok.mp h
  obtain ⟨⟨r, s⟩, hsend, h⟩ := bind_eq_ok.mp h
  obtain ⟨mSb', -, h⟩ := bind_eq_ok.mp h
  cases h
  unfold baseSend at hsend
  obtain ⟨_, -, hsend⟩ := bind_eq_ok.mp hsend
  split at hsend <;> (cases hsend; rfl)

theorem flushSb_rflag {flushed : Nat} {answers : List SendAnswer} {f : Flushing} (h : s.flushSb flushed answers = .ok f) :
    f.s.mRflag = s.mRflag := by
  unfold flushSb at h
  obtain ⟨_, -, h⟩ := bind_eq_ok.mp h
  obtain ⟨_, -, h⟩ := bind_eq_ok.mp h
  exact loopWhile_inv (fun f => f.s.mRflag = s.mRflag) (fun _ _ hf hround => (flushRound_rflag hround).trans hf) h rfl

theorem endAsyncWrite_rflag (s : Socket) : s.endAsyncWrite.mRflag = s.mRflag := by
  unfold endAsyncWrite
  split <;> rfl

theorem beginAsyncWriteWith_rflag {infinite : Bool} (h : s.beginAsyncWriteWith infinite = .ok s') : s'.mRflag = s.mRflag := by
  unfold beginAsyncWriteWith at h
  obtain ⟨_, -, h⟩ := bind_eq_ok.mp h
  obtain ⟨_, -, h⟩ := bind_eq_ok.mp h
  split at h
  · cases h
    rfl
  · split at h <;> (cases h; rfl)

/-- Sending does not touch the read watch. -/
theorem handleAsyncWrite_rflag {answers : List SendAnswer} {now : Nat} (h : s.handleAsyncWrite answers now = .ok (ec, s')) :
    s'.mRflag = s.mRflag := by
  unfold handleAsyncWrite at h
  obtain ⟨_, -, h⟩ := bind_eq_ok.mp h
  obtain ⟨f, hloop, h⟩ := bind_eq_ok.mp h
  have hf : f.s.mRflag = s.mRflag := by
    unfold asyncWriteLoop at hloop
    obtain ⟨f₁, hf₁, hloop⟩ := bind_eq_ok.mp hloop
    refine loopWhile_inv (fun f => f.s.mRflag = s.mRflag) (fun _ _ hf hround => (flushSb_rflag hround).trans hf) hloop
      ((flushSb_rflag hf₁).trans ?_)
    split
    · rfl
    · exact endAsyncWrite_rflag s
  split at h
  · obtain ⟨_, -, h⟩ := bind_eq_ok.mp h
    split at h
    · cases h
      exact (endAsyncWrite_rflag f.s).trans hf
    · cases h
      exact hf
  · obtain ⟨_, -, h⟩ := bind_eq_ok.mp h
    split at h
    · split at h
      · cases h
        exact hf
      · obtain ⟨s₁, hs₁, h⟩ := bind_eq_ok.mp h
        cases h
        rw [← beginAsyncWriteWith_false] at hs₁
        refine (beginAsyncWriteWith_rflag hs₁).trans ?_
        split <;> exact hf
    · cases h
      exact hf

/-! ### The read watch in a run -/

/-- Reading is not shut down, and `WATCH_OPTION_INFINITE` goes with a watch. -/
structure ReadOpen (s : Socket) : Prop where
  opened : s.mRflag.shutdown = false
  watched : s.mRflag.infinite = true → s.mRflag.watch = true

theorem beginAsyncReadWith_eq {infinite : Bool} (hopen : s.mRflag.shutdown = false) (h : s.beginAsyncReadWith infinite = .ok s') :
    s'.mRflag = if s.mRflag.watch then s.mRflag else { s.mRflag with watch := true, infinite := s.mRflag.infinite || infinite } := by
  unfold beginAsyncReadWith at h
  obtain ⟨_, -, h⟩ := bind_eq_ok.mp h
  rw [hopen, if_neg Bool.false_ne_true] at h
  split at h
  · cases h
    rw [if_pos ‹_›]
  · cases h
    rw [if_neg ‹_›]

theorem HalfFlag.eq_clear {f : HalfFlag} (hshutdown : f.shutdown = false) (hwatch : f.watch = false) (hinfinite : f.infinite = false) :
    f = { shutdown := false, watch := false, infinite := false } := by
  cases f
  cases hshutdown
  cases hwatch
  cases hinfinite
  rfl

/-- Where the watch is not infinite it is ended first. -/
theorem endAsyncRead_rflag (hopen : ReadOpen s) (hnon : s.nonblocking = true) :
    s.endAsyncRead.mRflag = { shutdown := false, watch := false, infinite := false } := by
  obtain ⟨hshutdown, hwatched⟩ := hopen
  unfold endAsyncRead
  cases hwatch : s.mRflag.watch with
  | true =>
    rw [if_pos ⟨rfl, hnon⟩, ← hshutdown]
  | false =>
    have hinfinite : s.mRflag.infinite = false := Bool.eq_false_iff.mpr fun h => nomatch hwatch.symm.trans (hwatched h)
    rw [if_neg (fun h => nomatch h.1)]
    exact HalfFlag.eq_clear hshutdown hwatch hinfinite

theorem readArrives_rflag {answers : List RecvAnswer} {r : Reading} (hopen : ReadOpen s) (h : s.readArrives answers = .ok r) :
    (r.hasNewArrives = true → r.s.mRpsQStandby ≠ []) ∧
      r.s.mRflag = if s.mWflag.infinite then s.mRflag else { shutdown := false, watch := !r.hasNewArrives, infinite := false } := by
  unfold readArrives at h
  obtain ⟨_, -, h⟩ := bind_eq_ok.mp h
  obtain ⟨_, hnon, h⟩ := bind_eq_ok.mp h
  have hnon := require_eq_ok.mp hnon
  dsimp only at h
  obtain ⟨r₁, hr₁, h⟩ := bind_eq_ok.mp h
  obtain ⟨r₂, hr₂, h⟩ := bind_eq_ok.mp h
  cases hinfinite : s.mWflag.infinite with
  | true =>
    rw [hinfinite, Bool.not_true, if_neg Bool.false_ne_true] at hr₁
    rw [hinfinite, Bool.not_true, if_neg (fun h => Bool.false_ne_true h.1)] at h
    have hfirst : ReadsOn s r₁ := ReadsOn.round (r := ⟨s, true, ok, false, answers⟩) ⟨rfl, rfl, nofun⟩ hr₁
    have hlast := loopWhile_inv (ReadsOn s) (fun _ _ hr hround => hr.round hround) hr₂ hfirst
    cases h
    exact ⟨hlast.standby, hlast.rflag⟩
  | false =>
    rw [hinfinite, Bool.not_false, if_pos rfl] at hr₁
    rw [hinfinite, Bool.not_false] at h
    have hfirst : ReadsOn s.endAsyncRead r₁ := ReadsOn.round (r := ⟨s.endAsyncRead, true, ok, false, answers⟩) ⟨rfl, rfl, nofun⟩ hr₁
    have hlast := loopWhile_inv (ReadsOn s.endAsyncRead) (fun _ _ hr hround => hr.round hround) hr₂ hfirst
    have hended := hlast.rflag.trans (endAsyncRead_rflag hopen hnon)
    rw [if_neg Bool.false_ne_true]
    cases hnew : r₂.hasNewArrives with
    | true =>
      rw [if_neg (fun h => h.2 hnew)] at h
      cases h
      exact ⟨hlast.standby, by rw [hended, hnew]; rfl⟩
    | false =>
      rw [if_pos ⟨rfl, by rw [hnew]; exact Bool.false_ne_true⟩] at h
      obtain ⟨s₃, hs₃, h⟩ := bind_eq_ok.mp h
      rw [← beginAsyncReadWith_false] at hs₃
      have hbegun := beginAsyncReadWith_eq (by rw [hended]) hs₃
      cases h
      refine ⟨fun h => (nomatch hnew.symm.trans h), ?_⟩
      rw [hbegun, hended, hnew]
      rfl

/-- One call: where both watches are alike, the read watch is left as it is to be. -/
theorem handleAsyncRead_readWatch {answers : List RecvAnswer} (hopen : ReadOpen s) (halike : s.mWflag.infinite = s.mRflag.infinite)
    (h : s.handleAsyncRead answers = .ok (ec, packets, s')) : s'.mRflag = readWatch s.mRflag packets := by
  unfold handleAsyncRead at h
  obtain ⟨r, hr, h⟩ := bind_eq_ok.mp h
  obtain ⟨hstandby, hrflag⟩ := readArrives_rflag hopen hr
  have hresult : s'.mRflag = r.s.mRflag ∧ packets.isEmpty = !r.hasNewArrives := by
    cases hnew : r.hasNewArrives with
    | true =>
      rw [if_pos hnew] at h
      obtain ⟨⟨packets', s₁⟩, htrigger, h⟩ := bind_eq_ok.mp h
      have hempty : r.s.mRpsQ = [] := by
        unfold triggerArrives at htrigger
        obtain ⟨_, hreq, -⟩ := bind_eq_ok.mp htrigger
        exact require_eq_ok.mp hreq
      rw [triggerArrives_eq hempty] at htrigger
      cases htrigger
      cases h
      exact ⟨rfl, by rw [List.isEmpty_eq_false_iff.mpr (hstandby hnew)]; rfl⟩
    | false =>
      rw [if_neg (by rw [hnew]; exact Bool.false_ne_true)] at h
      cases h
      exact ⟨rfl, rfl⟩
  rw [hresult.1, hrflag, halike, readWatch, hresult.2]
  cases hinfinite : s.mRflag.infinite with
  | true => rw [if_pos rfl, if_pos ⟨hopen.watched hinfinite, rfl⟩]
  | false => rw [if_neg Bool.false_ne_true, if_neg (fun h => Bool.false_ne_true h.2), hopen.opened]

theorem ReadOpen.of_eq (hopen : ReadOpen s) (h : s'.mRflag = s.mRflag) : ReadOpen s' :=
  ⟨by rw [h]; exact hopen.opened, by rw [h]; exact hopen.watched⟩

/-- What one call keeps; an infinite watch is not touched. -/
theorem ReadOpen.call {c : WatchCall} (hopen : ReadOpen s) (halike : s.Alike c) (h : watchCall c s = .ok s') :
    ReadOpen s' ∧ (s.mRflag.infinite = true → s'.mRflag = s.mRflag) := by
  cases c with
  | beginAsyncRead infinite =>
    rw [watchCall] at h
    have hflag := beginAsyncReadWith_eq hopen.opened h
    by_cases hwatch : s.mRflag.watch = true
    · rw [if_pos hwatch] at hflag
      exact ⟨hopen.of_eq hflag, fun _ => hflag⟩
    · rw [if_neg hwatch] at hflag
      exact ⟨⟨by rw [hflag]; exact hopen.opened, by rw [hflag]; exact fun _ => rfl⟩, fun hinfinite => absurd (hopen.watched hinfinite) hwatch⟩
  | beginAsyncWrite infinite =>
    rw [watchCall] at h
    have hflag := beginAsyncWriteWith_rflag h
    exact ⟨hopen.of_eq hflag, fun _ => hflag⟩
  | handleAsyncRead answers =>
    rw [watchCall] at h
    obtain ⟨⟨ec, packets, s₁⟩, hs₁, h⟩ := bind_eq_ok.mp h
    cases h
    have hflag := handleAsyncRead_readWatch hopen halike hs₁
    by_cases hinfinite : s.mRflag.infinite = true
    · rw [readWatch, if_pos ⟨hopen.watched hinfinite, hinfinite⟩] at hflag
      exact ⟨hopen.of_eq hflag, fun _ => hflag⟩
    · rw [readWatch, if_neg fun h => hinfinite h.2] at hflag
      exact ⟨⟨by rw [hflag]; exact hopen.opened, by rw [hflag]; exact fun h => absurd h hinfinite⟩, fun h => absurd h hinfinite⟩
  | handleAsyncWrite answers now =>
    rw [watchCall] at h
    obtain ⟨⟨ec, s₁⟩, hs₁, h⟩ := bind_eq_ok.mp h
    cases h
    have hflag := handleAsyncWrite_rflag hs₁
    exact ⟨hopen.of_eq hflag, fun _ => hflag⟩

theorem ReadOpen.run {cs : List WatchCall} (hrun : Run watchCall Alike s cs s') (hopen : ReadOpen s) :
    ReadOpen s' ∧ (s.mRflag.infinite = true → s'.mRflag = s.mRflag) := by
  refine hrun.inv (fun t => ReadOpen t ∧ (s.mRflag.infinite = true → t.mRflag = s.mRflag)) ?_ ⟨hopen, fun _ => rfl⟩
  rintro t c t' ⟨ht, hkept⟩ halike ht'
  obtain ⟨hopen', hkept'⟩ := ht.call halike ht'
  refine ⟨hopen', fun hinfinite => ?_⟩
  have hflag := hkept hinfinite
  exact (hkept' (by rw [hflag]; exact hinfinite)).trans hflag

/-- From a socket on which reading has neither begun nor been shut down, in every run whose calls of
`handle_async_read` find both watches alike: each of these calls leaves the read watch as it is to be, and an
infinite one is left as it is by all calls. -/
theorem read_watch_kept {cs : List WatchCall} (hfresh : s.mRflag = { shutdown := false, watch := false, infinite := false })
    (hrun : Run watchCall Alike s cs s') :
    (∀ answers ec packets t, s'.Alike (.handleAsyncRead answers) → s'.handleAsyncRead answers = .ok (ec, packets, t) →
        t.mRflag = readWatch s'.mRflag packets) ∧
      ∀ cs' t, Run watchCall Alike s' cs' t → s'.mRflag.infinite = true → t.mRflag = s'.mRflag := by
  have hopen : ReadOpen s := ⟨by rw [hfresh], by rw [hfresh]; exact nofun⟩
  have hopen' := (hopen.run hrun).1
  exact ⟨fun answers ec packets t halike h => handleAsyncRead_readWatch hopen' halike h, fun cs' t hrun' => (hopen'.run hrun').2⟩

theorem exists_of_watches (P : Socket → WatchCall → Bool) (Q : Socket → Bool) (cs : List WatchCall)
    (h : (match init true .passive .connected sockSndMinSize sockRcvMinSize 1024 with
      | .ok s => meets watchCall P cs s && reaches watchCall Q cs s
      | .error _ => false) = true) :
    ∃ s t, init true .passive .connected sockSndMinSize sockRcvMinSize 1024 = .ok s ∧ Run watchCall (fun s c => P s c = true) s cs t ∧ Q t = true := by
  split at h
  case h_1 s hs =>
    obtain ⟨t, hrun, ht⟩ := Run.of_checks h
    exact ⟨s, t, hs, hrun, ht⟩
  case h_2 => cases h

/-- Both watches are infinite, and a packet arrives. -/
def bothInfinite : List WatchCall := [.beginAsyncRead true, .beginAsyncWrite true, .handleAsyncRead [.chunk 0 [0, 0, 1, 7]]]

theorem read_watch_kept_bothInfinite :
    ∃ s t, init true .passive .connected sockSndMinSize sockRcvMinSize 1024 = .ok s ∧ Run watchCall Alike s bothInfinite t ∧
      (∀ answers ec packets t', t.Alike (.handleAsyncRead answers) → t.handleAsyncRead answers = .ok (ec, packets, t') →
        t'.mRflag = readWatch t.mRflag packets) ∧
      ∀ cs' t', Run watchCall Alike t cs' t' → t.mRflag.infinite = true → t'.mRflag = t.mRflag := by
  obtain ⟨s, t, hs, hrun, -⟩ := exists_of_watches (fun s c => s.Alike c) (fun _ => true) bothInfinite (by decide +kernel)
  have hrun := hrun.mono fun _ _ hc => of_decide_eq_true hc
  obtain ⟨_, _, -, -, hinit⟩ := @init_spec true .passive .connected sockSndMinSize sockRcvMinSize 1024 (by decide +kernel) (by decide +kernel)
  rw [hs] at hinit
  cases hinit
  exact ⟨_, t, hs, hrun, read_watch_kept rfl hrun⟩

/-- Reading is begun with `WATCH_OPTION_INFINITE` and writing is not watched: the first packet ends the read watch. -/
theorem read_watch_lost :
    ∃ s t ec packets t', init true .passive .connected sockSndMinSize sockRcvMinSize 1024 = .ok s ∧
      Run watchCall (fun _ _ => True) s [.beginAsyncRead true] t ∧ t.handleAsyncRead [.chunk 0 [0, 0, 1, 7]] = .ok (ec, packets, t') ∧
      t.mRflag.watch = true ∧ t.mRflag.infinite = true ∧ packets.length = 1 ∧ t'.mRflag.watch = false ∧ ¬ t'.mRflag = readWatch t.mRflag packets := by
  obtain ⟨s, t, hs, hrun, ht⟩ := exists_of_watches (fun _ _ => true)
    (fun t => match t.handleAsyncRead [.chunk 0 [0, 0, 1, 7]] with
      | .ok (_, packets, t') => decide (t.mRflag.watch = true ∧ t.mRflag.infinite = true ∧ packets.length = 1 ∧ t'.mRflag.watch = false ∧
          ¬ t'.mRflag = readWatch t.mRflag packets)
      | .error _ => false)
    [.beginAsyncRead true] (by decide +kernel)
  split at ht
  case h_1 ec packets t' h => exact ⟨s, t, ec, packets, t', hs, hrun.mono fun _ _ _ => trivial, h, of_decide_eq_true ht⟩
  case h_2 => cases ht

end Wawo.Socket
