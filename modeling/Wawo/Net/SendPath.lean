import Wawo.Net.Flush

/-!
# The sending half: one call

`Half` says what holds of the sending half while no call is in it: `m_sb` is a queue as large as `snd_size`,
and the timer runs while it holds bytes. `Watched` says that `async_write` is watched for while they can
still be sent. `Moved` and `Noted` say what a call does: the bytes the kernel has taken, followed by those in
`m_sb`, stay what they are but for what a `send` accepts, and an event is scheduled where `m_sb` fills and
where `handle_async_write` has drained it.
-/

namespace Wawo.Socket

open Lts

variable {s s' s'' : Socket} {q q' q'' : BoundedQueue Byte} {answers : List SendAnswer} {given given' : List Byte}

/-- The sending half -/
structure Half (s : Socket) (q : BoundedQueue Byte) : Prop where
  refines : s.mSb.Refines q
  capacity_eq : q.capacity = s.sndSize
  nonblocking : s.nonblocking = true
  data : s.mSm ≠ .listener
  infinite : s.mWflag.infinite = false
  registered : s.mWflag.watch = s.writeCallback.isSome
  sending : s.mWflag.shutdown = false → q.items ≠ [] → s.mState = .connected ∨ s.mState = .connecting
  asyncWt : q.items ≠ [] → s.mAsyncWt ≠ 0
  closed : s.mState = .closed → s.mWflag.shutdown = true

/-- `async_write` will be called while there is something to send. -/
def Watched (s : Socket) (q : BoundedQueue Byte) : Prop :=
  s.mWflag.shutdown = false → q.items ≠ [] → s.writeCallback = some .asyncWrite

/-- The socket is connected, or has been closed, and no connect is waited for. -/
def Settled (s : Socket) : Prop := (s.mState = .connected ∨ s.mState = .closed) ∧ s.writeCallback ≠ some .asyncConnected

/-- Why a call does not return: `flush` goes on, or the socket is not connected and an assertion says so. -/
def Stops (s : Socket) (e : ByteFault) : Prop := e = .waits ∨ ¬ s.Settled

/-- A call has given the kernel bytes, or kept them in `m_sb`, behind those before. -/
structure Moved (s : Socket) (q : BoundedQueue Byte) (s' : Socket) (q' : BoundedQueue Byte) (given : List Byte) : Prop where
  half : Half s' q'
  bytes_eq : s'.kernel ++ q'.items = s.kernel ++ q.items ++ given
  shutdown : s.mWflag.shutdown = true → s'.mWflag.shutdown = true
  settled : s.Settled → s'.Settled
  capacity : q'.capacity = q.capacity

/-- The events of the sending half that are about its being blocked -/
def notes (s : Socket) : List SocketEvent := s.events.filter fun evt => evt = .wrBlock ∨ evt = .wrUnblock

/-- What is scheduled in a call where `m_sb` fills or is drained; once the half is shut down, nothing need be. -/
inductive Noted (s : Socket) (q : BoundedQueue Byte) (s' : Socket) (q' : BoundedQueue Byte) : Prop
  | same (hnotes : s'.notes = s.notes) (hitems : s'.mWflag.shutdown = false → (q'.items = [] ↔ q.items = []))
  | block (hnotes : s'.notes = s.notes ++ [.wrBlock]) (hopen : s.mWflag.shutdown = false) (hitems : q.items = []) (hitems' : q'.items ≠ [])
  | unblock (hnotes : s'.notes = s.notes ++ [.wrUnblock]) (hopen : s.mWflag.shutdown = false) (hitems : q.items ≠ []) (hitems' : q'.items = [])

theorem Moved.refl (h : Half s q) : Moved s q s q [] := ⟨h, by rw [List.append_nil], id, id, rfl⟩

theorem Moved.trans (h : Moved s q s' q' given) (h' : Moved s' q' s'' q'' given') : Moved s q s'' q'' (given ++ given') := by
  refine ⟨h'.half, ?_, fun hdown => h'.shutdown (h.shutdown hdown), fun hsettled => h'.settled (h.settled hsettled),
    h'.capacity.trans h.capacity⟩
  rw [h'.bytes_eq, h.bytes_eq, List.append_assoc]

theorem Noted.refl : Noted s q s q := .same rfl fun _ => Iff.rfl

/-! ### Watching -/

theorem HalfFlag.idle {f : HalfFlag} (hwatch : f.watch = false) (hinfinite : f.infinite = false) :
    f = { f with watch := false, infinite := false } := by
  cases f
  cases hwatch
  cases hinfinite
  rfl

/-- Nothing is watched for. -/
def unwatched (s : Socket) : Socket := { s with mWflag := { s.mWflag with watch := false, infinite := false }, writeCallback := none }

theorem Half.endAsyncWrite_eq (h : Half s q) : s.endAsyncWrite = s.unwatched := by
  unfold endAsyncWrite unwatched
  split_ifs with hwatch
  · rfl
  · have hwatch : s.mWflag.watch = false := by simpa [h.nonblocking] using hwatch
    have hnone : s.writeCallback = none := by simpa [hwatch] using h.registered
    rw [← HalfFlag.idle hwatch h.infinite, ← hnone]

/-- What `_begin_async_write` leaves: a watch that is there already stays. -/
def watching (s : Socket) : Socket :=
  if s.mWflag.watch then s else { s with mWflag := { s.mWflag with watch := true }, writeCallback := some .asyncWrite }

theorem beginAsyncWrite_eq (hstate : s.mState = .connected ∨ s.mState = .connecting) (hnon : s.nonblocking = true)
    (hopen : s.mWflag.shutdown = false) : s.beginAsyncWrite = .ok s.watching := by
  unfold beginAsyncWrite watching
  rw [require_eq hstate, ok_bind, require_eq hnon, ok_bind, if_neg (by rw [hopen]; exact Bool.false_ne_true)]
  split_ifs <;> rfl

theorem beginAsyncWrite_error (hstate : ¬ (s.mState = .connected ∨ s.mState = .connecting)) : s.beginAsyncWrite = .error .socketState := by
  unfold beginAsyncWrite require
  rw [if_neg hstate]
  rfl

theorem Half.watching (h : Half s q) : Moved s q s.watching q [] := by
  unfold Socket.watching
  split_ifs
  · exact .refl h
  · exact ⟨⟨h.refines, h.capacity_eq, h.nonblocking, h.data, h.infinite, rfl, h.sending, h.asyncWt, h.closed⟩,
      by rw [List.append_nil], id, fun hsettled => ⟨hsettled.1, nofun⟩, rfl⟩

theorem watching_notes (s : Socket) : s.watching.notes = s.notes := by
  unfold watching
  split_ifs <;> rfl

theorem Half.watching_watched (h : Half s q) (hcallback : s.writeCallback ≠ some .asyncConnected) : Watched s.watching q := by
  intro _ _
  unfold Socket.watching
  split_ifs with hwatch
  · obtain ⟨callback, hcallback'⟩ := Option.isSome_iff_exists.mp (h.registered.symm.trans hwatch)
    cases callback with
    | asyncConnected => exact absurd hcallback' hcallback
    | asyncWrite => exact hcallback'
  · rfl

theorem skip_items_eq_nil {n : Nat} : (q.skip n).items = [] ↔ q.count ≤ n := by
  rw [BoundedQueue.items_skip, List.drop_eq_nil_iff]
  exact Iff.rfl

theorem front_append_skip (n : Nat) : q.front n ++ (q.skip n).items = q.items := List.take_append_drop n q.items

/-! ### `send` -/

/-- The kernel takes the whole of `buffer` if it is asked while the socket is waiting for its connect. -/
def Through (s : Socket) (q : BoundedQueue Byte) (buffer : List Byte) (answers : List SendAnswer) : Prop :=
  s.writeCallback = some .asyncConnected → s.mWflag.shutdown = false → q.items = [] → buffer.length ≤ ready answers

/-- A `send` accepts the whole buffer or nothing. -/
structure Accepts (s : Socket) (q : BoundedQueue Byte) (buffer : List Byte) (answers : List SendAnswer) (n : Nat) (s' : Socket)
    (q' : BoundedQueue Byte) : Prop where
  moved : n = buffer.length ∧ Moved s q s' q' buffer ∨ n = 0 ∧ Moved s q s' q' []
  noted : Noted s q s' q'
  watched : Watched s q → Through s q buffer answers → Watched s' q'

theorem Half.sent_nothing (h : Half s q) (buffer : List Byte) (answers : List SendAnswer) : Accepts s q buffer answers 0 s q :=
  ⟨.inr ⟨rfl, .refl h⟩, .refl, fun hw _ => hw⟩

theorem Half.sendBehind (h : Half s q) (hsome : q.items ≠ []) {buffer : List Byte} (hne : 0 < buffer.length) (hroom : buffer.length < q.leftCapacity)
    (ecO : Int) (answers : List SendAnswer) :
    ∃ s' q', s.sendBehind buffer ecO = .ok (buffer.length, ecO, s') ∧ Accepts s q buffer answers buffer.length s' q' := by
  obtain ⟨mSb, hwrite, hq'⟩ := h.refines.write hne (Nat.le_refl _)
  have hall : min buffer.length q.leftCapacity = buffer.length := by omega
  have hitems := q.items_write_of_le (Nat.le_of_lt hroom)
  rw [List.take_length] at hq'
  refine ⟨{ s with mSb := mSb }, q.write buffer, ?_, .inl ⟨rfl, ?_, ?_, id, id, rfl⟩, .same rfl fun _ => ?_, fun hw _ hopen _ => hw hopen hsome⟩
  · unfold Socket.sendBehind
    rw [hwrite, ok_bind, hall]
    dsimp only
    rw [require_eq rfl, ok_bind, pure_eq_ok]
  · exact ⟨hq', h.capacity_eq, h.nonblocking, h.data, h.infinite, h.registered, fun hopen _ => h.sending hopen hsome,
      fun _ => h.asyncWt hsome, h.closed⟩
  · rw [hitems, List.append_assoc]
  · rw [hitems]
    simp [hsome]

theorem Half.sendNow (h : Half s q) (hnil : q.items = []) (hopen : s.mWflag.shutdown = false) (hcalm : Calm answers) {buffer : List Byte}
    (hne : 0 < buffer.length) (hsize : buffer.length ≤ q.capacity) {now : Nat} (hnow : now ≠ 0) :
    Ensures (fun r => ∃ q', Accepts s q buffer answers r.1 r.2.2 q') (Stops s) (s.sendNow buffer answers now) := by
  obtain ⟨r, hr, hsent, hok, hblocked⟩ := baseSend_eq (s := s) hne hcalm hopen
  unfold Socket.sendNow
  rw [hr, ok_bind]
  dsimp only
  by_cases hready : buffer.length ≤ ready answers
  · rw [Nat.min_eq_left hready] at hsent
    rw [if_neg (by omega), Nat.min_eq_left hready, List.take_length]
    refine ⟨q, .inl ⟨hsent, ?_, ?_, id, id, rfl⟩, .same rfl fun _ => Iff.rfl, fun hw _ => hw⟩
    · exact ⟨h.refines, h.capacity_eq, h.nonblocking, h.data, h.infinite, h.registered, h.sending, h.asyncWt, h.closed⟩
    · rw [hnil, List.append_nil, List.append_nil]
  · have hlt : ready answers < buffer.length := Nat.lt_of_not_le hready
    rw [Nat.min_eq_right (Nat.le_of_lt hlt)] at hsent
    have hcount : q.count = 0 := q.count_eq_zero.mpr hnil
    have hroom : q.leftCapacity = q.capacity := by
      unfold BoundedQueue.leftCapacity
      omega
    have hdrop : (buffer.drop (ready answers)).length = buffer.length - ready answers := List.length_drop
    obtain ⟨mSb, hwrite, hq'⟩ := h.refines.write (s := buffer.length - ready answers) (by omega) (Nat.le_of_eq hdrop.symm)
    rw [List.take_of_length_le (Nat.le_of_eq hdrop)] at hq'
    have hitems : (q.write (buffer.drop (ready answers))).items = buffer.drop (ready answers) := by
      rw [q.items_write_of_le (by omega), hnil, List.nil_append]
    have hsome : (q.write (buffer.drop (ready answers))).items ≠ [] := by
      rw [hitems]
      exact List.ne_nil_of_length_pos (by omega)
    have hall : min (buffer.length - ready answers) q.leftCapacity = buffer.length - ready answers := by omega
    rw [if_pos ⟨by omega, (hblocked hlt).1⟩, require_eq h.nonblocking, ok_bind, h.refines.leftCapacity_eq, require_eq (by omega), ok_bind, hsent,
      Nat.min_eq_right (Nat.le_of_lt hlt), hwrite, ok_bind]
    dsimp only
    rw [hall, require_eq rfl, ok_bind]
    by_cases hstate : s.mState = .connected ∨ s.mState = .connecting
    · have hhalf : Half ({ s with kernel := s.kernel ++ buffer.take (ready answers), mSb := mSb, mAsyncWt := now }.schedule .wrBlock)
          (q.write (buffer.drop (ready answers))) :=
        ⟨hq', h.capacity_eq, h.nonblocking, h.data, h.infinite, h.registered, fun _ _ => hstate, fun _ => hnow, h.closed⟩
      have hmoved := hhalf.watching
      have hbytes := hmoved.bytes_eq
      have hbegin := beginAsyncWrite_eq (s := { s with kernel := s.kernel ++ buffer.take (ready answers), mSb := mSb, mAsyncWt := now }.schedule .wrBlock)
        hstate h.nonblocking hopen
      rw [hbegin, ok_bind, pure_eq_ok]
      refine ⟨_, .inl ⟨by show ready answers + (buffer.length - ready answers) = _; omega, hmoved.half, ?_, hmoved.shutdown, hmoved.settled, rfl⟩,
        .block ?_ hopen hnil hsome, fun _ hthrough => hhalf.watching_watched fun hcallback => hready (hthrough hcallback hopen hnil)⟩
      · rw [hbytes, List.append_nil, hitems, hnil, List.append_nil]
        show s.kernel ++ buffer.take (ready answers) ++ _ = _
        rw [List.append_assoc, List.take_append_drop]
      · rw [watching_notes]
        simp [notes, schedule]
    · have hbegin := beginAsyncWrite_error (s := { s with kernel := s.kernel ++ buffer.take (ready answers), mSb := mSb, mAsyncWt := now }.schedule .wrBlock)
        hstate
      rw [hbegin]
      refine .inr fun hsettled => ?_
      rcases hsettled.1 with hconnected | hclosed
      · exact hstate (.inl hconnected)
      · rw [h.closed hclosed] at hopen
        cases hopen

theorem Half.send (h : Half s q) (hcalm : Calm answers) {buffer : List Byte} (hne : 0 < buffer.length) (hsize : buffer.length ≤ q.capacity)
    (useSndBuffer : Bool) (ecO : Int) {now : Nat} (hnow : now ≠ 0) :
    Ensures (fun r => ∃ q', Accepts s q buffer answers r.1 r.2.2 q') (Stops s) (s.send buffer useSndBuffer ecO answers now) := by
  unfold Socket.send
  rw [require_eq ⟨hne, by rwa [h.refines.capacity_fn_eq]⟩, ok_bind]
  by_cases hdown : s.mWflag.shutdown = true
  · rw [if_pos hdown]
    exact ⟨q, h.sent_nothing ..⟩
  rw [if_neg hdown, if_neg (by rw [← h.capacity_eq]; omega), h.refines.count_eq, h.nonblocking]
  by_cases hcount : q.count > 0
  · have hsome : q.items ≠ [] := List.ne_nil_of_length_pos hcount
    rw [if_pos ⟨rfl, hcount⟩, h.refines.leftCapacity_eq]
    split_ifs with hroom
    · obtain ⟨s', q', hr, haccepts⟩ := h.sendBehind hsome hne hroom.2 ecO answers
      rw [hr]
      exact ⟨q', haccepts⟩
    · exact ⟨q, h.sent_nothing ..⟩
  · have hnil : q.items = [] := q.count_eq_zero.mp (Nat.eq_zero_of_not_pos hcount)
    rw [if_neg (fun hc => hcount hc.2)]
    exact h.sendNow hnil (by simpa using hdown) hcalm hne hsize hnow

/-! ### `flush` and `handle_async_write` -/

theorem Flushed.moved {flushed n : Nat} {f : Flushing} (hf : Flushed s q flushed n f) (h : Half s q) : Moved s q f.s (q.skip n) [] := by
  have hs := hf.s_eq
  have hsome : (q.skip n).items ≠ [] → q.items ≠ [] := by
    intro hne hnil
    refine hne ?_
    rw [BoundedQueue.items_skip, hnil, List.drop_nil]
  rw [hs]
  refine ⟨⟨hf.refines, h.capacity_eq, h.nonblocking, h.data, h.infinite, h.registered, fun hopen hne => h.sending hopen (hsome hne),
    fun hne => h.asyncWt (hsome hne), h.closed⟩, ?_, id, id, rfl⟩
  rw [List.append_nil]
  show s.kernel ++ q.front n ++ _ = _
  rw [List.append_assoc, front_append_skip]

/-- Some bytes of `m_sb` have gone to the kernel, all of them if it could take as many. -/
structure FlushedTo (s : Socket) (q : BoundedQueue Byte) (takes : Nat) (s' : Socket) (q' : BoundedQueue Byte) : Prop where
  s_eq : s' = { s with mSb := s'.mSb, mAsyncWt := s'.mAsyncWt, kernel := s'.kernel }
  moved : Moved s q s' q' []
  items : s.mWflag.shutdown = true ∨ q.items = [] ∨ takes < q.count → (q'.items = [] ↔ q.items = [])

theorem FlushedTo.refl (h : Half s q) (takes : Nat) : FlushedTo s q takes s q := ⟨rfl, .refl h, fun _ => Iff.rfl⟩

theorem FlushedTo.watched {takes : Nat} (h : FlushedTo s q takes s' q') (hw : Watched s q) : Watched s' q' := by
  intro hopen hne
  rw [h.s_eq] at hopen ⊢
  exact hw hopen fun hnil => hne ((h.items (.inr (.inl hnil))).mpr hnil)

theorem FlushedTo.notes_eq {takes : Nat} (h : FlushedTo s q takes s' q') : s'.notes = s.notes := by
  rw [h.s_eq]
  rfl

theorem FlushedTo.noted {takes : Nat} (h : FlushedTo s q takes s' q') (hleft : s.mWflag.shutdown = true ∨ q.items = [] ∨ takes < q.count) :
    Noted s q s' q' :=
  .same h.notes_eq fun _ => h.items hleft

theorem FlushedBy.skip_items {flushed takes n : Nat} {f : Flushing} (hf : FlushedBy s q flushed takes n f)
    (hleft : s.mWflag.shutdown = true ∨ q.items = [] ∨ takes < q.count) : (q.skip n).items = [] ↔ q.items = [] := by
  have hle := hf.flushed.le
  rw [skip_items_eq_nil, ← BoundedQueue.count_eq_zero]
  by_cases hdown : s.mWflag.shutdown = true
  · have := hf.of_shutdown hdown
    omega
  · have hn := hf.of_open (by simpa using hdown)
    rcases hleft with hdown' | hnil | hlt
    · exact absurd hdown' hdown
    · have := q.count_eq_zero.mpr hnil
      omega
    · omega

/-- Whatever the kernel answers and however long it may block. -/
theorem Half.flush (h : Half s q) (hcalm : Calm answers) (blockTime : Int) (nows : List Nat) :
    Ensures (fun s' => ∃ q', FlushedTo s q (flushReady blockTime 0 answers nows) s' q') (· = .waits) (s.flush blockTime answers nows) := by
  unfold Socket.flush
  rw [if_pos h.nonblocking]
  refine (flushLoop_spec h.refines h.capacity_eq h.data h.nonblocking hcalm).bind fun f ⟨n, hf⟩ => ?_
  have hs := hf.flushed.s_eq
  have hmoved := hf.flushed.moved h
  have hhalf := hmoved.half
  show Ensures _ _ (.ok _)
  refine ⟨q.skip n, ?_, ?_, hf.skip_items⟩
  · split_ifs <;> rw [hs]
  · split_ifs with hleft
    · have hnil : (q.skip n).items = [] := by
        rw [skip_items_eq_nil]
        have := hf.flushed.left_eq
        omega
      exact ⟨⟨hhalf.refines, hhalf.capacity_eq, hhalf.nonblocking, hhalf.data, hhalf.infinite, hhalf.registered, hhalf.sending,
        fun hne => absurd hnil hne, hhalf.closed⟩, hmoved.bytes_eq, hmoved.shutdown, hmoved.settled, rfl⟩
    · exact hmoved

theorem Half.unwatched (h : Half s q) : Moved s q s.unwatched q [] :=
  ⟨⟨h.refines, h.capacity_eq, h.nonblocking, h.data, rfl, rfl, h.sending, h.asyncWt, h.closed⟩, by rw [List.append_nil]; rfl, id,
    fun hsettled => ⟨hsettled.1, nofun⟩, rfl⟩

/-- The socket is not given up: `async_write` does not close it. -/
def Kept (ec : Int) : Prop := ec = eSocketSendBlock ∨ ec = ok ∨ ec = eSocketWrShutdownAlready

theorem Half.handleAsyncWrite (h : Half s q) (hcalm : Calm answers) {now : Nat} (hnow : now ≠ 0) :
    ∃ ec s' q', s.handleAsyncWrite answers now = .ok (ec, s') ∧ Moved s q s' q' [] ∧
      (Kept ec ∧ Watched s' q' ∧ Noted s q s' q' ∨ ec = eSocketSendIoBlockExpired ∧ s'.notes = s.notes) := by
  have hunwatched := h.unwatched
  obtain ⟨n, f, hloop, hf, hrefused, hblocked⟩ := asyncWriteLoop_eq (s := s.unwatched) hunwatched.half.refines hunwatched.half.capacity_eq
    hunwatched.half.data hunwatched.half.nonblocking hcalm
  have hleft := hf.flushed.left_eq
  have hle := hf.flushed.le
  have hflushed := hf.flushed.flushed_eq
  have hs := hf.flushed.s_eq
  have hmoved := hunwatched.trans (hf.flushed.moved hunwatched.half)
  rw [List.append_nil] at hmoved
  unfold Socket.handleAsyncWrite
  rw [require_eq h.nonblocking, ok_bind, h.infinite, if_neg Bool.false_ne_true, h.endAsyncWrite_eq, hloop, ok_bind]
  have hnotes : f.s.notes = s.notes := by
    rw [hs]
    rfl
  have hwflag : f.s.mWflag = s.unwatched.mWflag := by rw [hs]
  by_cases hall : f.left = 0
  · have hn : n = q.count := by omega
    have hec := hf.ok_of_all hn
    have hnil : (q.skip n).items = [] := skip_items_eq_nil.mpr (Nat.le_of_eq hn.symm)
    rw [if_pos hall, require_eq hec, ok_bind]
    split_ifs with hsome
    · have hopen : s.mWflag.shutdown = false := Bool.eq_false_iff.mpr fun hdown => hsome (by rw [hflushed, hf.of_shutdown hdown])
      have hmoved' := hmoved.trans hmoved.half.unwatched
      rw [hmoved.half.endAsyncWrite_eq]
      refine ⟨f.ecO, _, q.skip n, rfl, ⟨⟨hmoved'.half.refines, hmoved'.half.capacity_eq, hmoved'.half.nonblocking, hmoved'.half.data, rfl, rfl,
        fun _ hne => absurd hnil hne, fun hne => absurd hnil hne, hmoved'.half.closed⟩, hmoved'.bytes_eq, hmoved'.shutdown, hmoved'.settled, rfl⟩,
        .inl ⟨.inr (.inl hec), fun _ hne => absurd hnil hne, .unblock ?_ hopen ?_ hnil⟩⟩
      · show List.filter _ (f.s.events ++ [.wrUnblock]) = _
        rw [List.filter_append]
        exact congrArg (· ++ _) hnotes
      · exact List.ne_nil_of_length_pos (show 0 < q.count by omega)
    · have hnil' : q.items = [] := q.count_eq_zero.mp (by omega)
      exact ⟨f.ecO, f.s, q.skip n, rfl, hmoved, .inl ⟨.inr (.inl hec), fun _ hne => absurd hnil hne, .same hnotes fun _ => iff_of_true hnil hnil'⟩⟩
  · have hne : q.items ≠ [] := List.ne_nil_of_length_pos (show 0 < q.count by omega)
    have hne' : (q.skip n).items ≠ [] := fun hnil => hall (by rw [skip_items_eq_nil] at hnil; omega)
    have hwt : f.s.mAsyncWt ≠ 0 := hmoved.half.asyncWt hne'
    rw [if_neg hall, require_eq hwt, ok_bind]
    by_cases hopen : s.mWflag.shutdown = false
    · have hn := hf.of_open hopen
      have hec := hblocked hopen (by omega)
      have hopen' : f.s.mWflag.shutdown = false := by rw [hwflag]; exact hopen
      rw [if_pos hec]
      by_cases hlate : f.flushed = 0 ∧ now > (f.s.mAsyncWt + f.s.mDelayWp) % 2 ^ 64
      · rw [if_pos hlate]
        exact ⟨_, f.s, q.skip n, rfl, hmoved, .inr ⟨rfl, hnotes⟩⟩
      · have hhalf := hmoved.half
        have hnow' : (if f.flushed > 0 then now else f.s.mAsyncWt) ≠ 0 := by
          split_ifs
          · exact hnow
          · exact hwt
        have hif : (if f.flushed > 0 then { f.s with mAsyncWt := now } else f.s : Socket) =
            { f.s with mAsyncWt := if f.flushed > 0 then now else f.s.mAsyncWt } := by
          split_ifs <;> rfl
        have hhalf' : Half { f.s with mAsyncWt := if f.flushed > 0 then now else f.s.mAsyncWt } (q.skip n) :=
          ⟨hhalf.refines, hhalf.capacity_eq, hhalf.nonblocking, hhalf.data, hhalf.infinite, hhalf.registered, hhalf.sending,
            fun _ => hnow', hhalf.closed⟩
        have hmoved' := hhalf'.watching
        rw [if_neg hlate, hif, beginAsyncWrite_eq (s := { f.s with mAsyncWt := if f.flushed > 0 then now else f.s.mAsyncWt })
          (hhalf.sending hopen' hne') hhalf.nonblocking hopen', ok_bind, pure_eq_ok]
        refine ⟨f.ecO, _, q.skip n, rfl, ?_, .inl ⟨.inl hec, hhalf'.watching_watched ?_, .same ?_ fun _ => iff_of_false hne' hne⟩⟩
        · refine ⟨hmoved'.half, ?_, fun hdown => hmoved'.shutdown (hmoved.shutdown hdown), fun hsettled => hmoved'.settled (hmoved.settled hsettled),
            rfl⟩
          rw [hmoved'.bytes_eq, List.append_nil]
          exact hmoved.bytes_eq
        · show f.s.writeCallback ≠ _
          rw [hs]
          nofun
        · rw [watching_notes]
          exact hnotes
    · have hdown : s.mWflag.shutdown = true := by simpa using hopen
      have hec := hrefused hdown (by omega)
      have hdown' : f.s.mWflag.shutdown = true := hmoved.shutdown hdown
      rw [if_neg (by rw [hec]; decide)]
      refine ⟨f.ecO, f.s, q.skip n, rfl, hmoved, .inl ⟨.inr (.inr hec), fun hopen => ?_, .same hnotes fun hopen => ?_⟩⟩
      all_goals
        rw [hdown'] at hopen
        cases hopen

/-! ### `close` and `shutdown` -/

/-- Nothing of the sending half has changed. -/
structure ReadOnly (s s' : Socket) : Prop where
  eq : s' = { s with mRflag := s'.mRflag, events := s'.events }
  notes_eq : s'.notes = s.notes

theorem ReadOnly.trans (h : ReadOnly s s') (h' : ReadOnly s' s'') : ReadOnly s s'' := by
  refine ⟨?_, h'.notes_eq.trans h.notes_eq⟩
  rw [h'.eq, h.eq]

theorem ReadOnly.moved (hr : ReadOnly s s') (h : Half s q) : Moved s q s' q [] := by
  rw [hr.eq]
  exact ⟨⟨h.refines, h.capacity_eq, h.nonblocking, h.data, h.infinite, h.registered, h.sending, h.asyncWt, h.closed⟩,
    by rw [List.append_nil], id, id, rfl⟩

theorem ReadOnly.watched (h : ReadOnly s s') (hw : Watched s q) : Watched s' q := by
  rw [h.eq]
  exact hw

theorem shutRd_readOnly (s : Socket) : ReadOnly s s.shutRd := by
  unfold shutRd endAsyncRead
  split_ifs <;> exact ⟨rfl, rfl⟩

theorem shutRd_readOnly_of (s : Socket) (rd : Bool) : ReadOnly s (if rd then s.shutRd else s) := by
  cases rd
  · exact ⟨rfl, rfl⟩
  · exact shutRd_readOnly s

theorem schedule_readOnly (s : Socket) {evt : SocketEvent} (hblock : evt ≠ .wrBlock) (hunblock : evt ≠ .wrUnblock) : ReadOnly s (s.schedule evt) :=
  ⟨rfl, by simp [notes, schedule, hblock, hunblock]⟩

theorem scheduleShut_readOnly (s : Socket) (rd wr : Bool) (ec : Int) : ReadOnly s (s.scheduleShut rd wr ec) := by
  unfold scheduleShut
  cases rd <;> cases wr <;> exact ⟨rfl, by simp [notes, schedule]⟩

/-- The sending half is shut down: no event of it is due any more. -/
structure Down (s : Socket) (q : BoundedQueue Byte) (s' : Socket) (q' : BoundedQueue Byte) : Prop where
  moved : Moved s q s' q' []
  notes_eq : s'.notes = s.notes
  down : s'.mWflag.shutdown = true

theorem Down.readOnly (h : Down s q s' q') (hr : ReadOnly s' s'') : Down s q s'' q' :=
  have hmoved := hr.moved h.moved.half
  ⟨h.moved.trans hmoved, hr.notes_eq.trans h.notes_eq, hmoved.shutdown h.down⟩

theorem Down.after (h : Down s' q' s'' q'') (hmoved : Moved s q s' q' []) (hnotes : s'.notes = s.notes) : Down s q s'' q'' :=
  ⟨hmoved.trans h.moved, h.notes_eq.trans hnotes, h.down⟩

theorem Down.watched (h : Down s q s' q') : Watched s' q' := by
  intro hopen
  rw [h.down] at hopen
  cases hopen

theorem Down.noted (h : Down s q s' q') : Noted s q s' q' := by
  refine .same h.notes_eq fun hopen => ?_
  rw [h.down] at hopen
  cases hopen

theorem Half.shutWr_eq (h : Half s q) : s.shutWr = { s with mWflag := ⟨true, false, false⟩, writeCallback := none } := by
  have hhalf : Half { s with mWflag := { s.mWflag with shutdown := true } } q :=
    ⟨h.refines, h.capacity_eq, h.nonblocking, h.data, h.infinite, h.registered, nofun, h.asyncWt, fun _ => rfl⟩
  exact hhalf.endAsyncWrite_eq

theorem Half.shutWr (h : Half s q) : Down s q s.shutWr q := by
  rw [h.shutWr_eq]
  exact ⟨⟨⟨h.refines, h.capacity_eq, h.nonblocking, h.data, rfl, rfl, nofun, h.asyncWt, fun _ => rfl⟩, by rw [List.append_nil], fun _ => rfl, fun hsettled => ⟨hsettled.1, nofun⟩, rfl⟩,
    rfl, rfl⟩

/-- `m_state = S_CLOSED` comes after `SHUTDOWN_WR`. -/
theorem Half.shutWr_closed (h : Half s q) : Down s q { s.shutWr with mState := .closed } q := by
  rw [h.shutWr_eq]
  exact ⟨⟨⟨h.refines, h.capacity_eq, h.nonblocking, h.data, rfl, rfl, nofun, h.asyncWt, fun _ => rfl⟩, by rw [List.append_nil], fun _ => rfl,
    fun _ => ⟨.inr rfl, nofun⟩, rfl⟩, rfl, rfl⟩

theorem Half.flushOpen (h : Half s q) (hcalm : Calm answers) (blockTime : Int) (nows : List Nat) :
    Ensures (fun s' => ∃ q', FlushedTo s q (flushReady blockTime 0 answers nows) s' q') (· = .waits) (s.flushOpen blockTime answers nows) := by
  unfold Socket.flushOpen
  split_ifs
  · exact h.flush hcalm blockTime nows
  · exact ⟨q, .refl h _⟩

theorem Half.close (h : Half s q) (hcalm : Calm answers) (ec : Int) (nows : List Nat) :
    Ensures (fun s' => ∃ q', Down s q s' q') (fun e => e = .waits ∨ e = .socketEc ∧ ec = 0 ∧ ¬ s.Settled) (s.close ec answers nows) := by
  unfold Socket.close
  by_cases hclosed : s.mState = .closed
  · rw [if_pos hclosed]
    exact ⟨q, .refl h, rfl, h.closed hclosed⟩
  rw [if_neg hclosed]
  refine ((h.flushOpen hcalm _ nows).mono_error fun e he => .inl he).bind fun s₁ ⟨q₁, hf⟩ => ?_
  have hhalf := hf.moved.half
  have hstate : s₁.mState = s.mState := by rw [hf.s_eq]
  have hread := shutRd_readOnly s₁
  have hdown := (((hread.moved hhalf).half.shutWr_closed.after (hread.moved hhalf) hread.notes_eq).after hf.moved hf.notes_eq)
  rw [if_neg (not_not_intro hhalf.nonblocking)]
  by_cases hconnected : s₁.mState = .connected
  · rw [if_neg (not_not_intro hconnected)]
    exact ⟨q₁, (hdown.readOnly (scheduleShut_readOnly ..)).readOnly (schedule_readOnly _ nofun nofun)⟩
  · rw [if_pos hconnected]
    by_cases hec : ec = 0
    · rw [require, if_neg (not_not_intro hec)]
      refine .inr ⟨rfl, hec, fun hsettled => ?_⟩
      rw [Settled, ← hstate] at hsettled
      exact hsettled.1.elim hconnected fun hc => hclosed (hstate ▸ hc)
    · rw [require_eq hec, ok_bind]
      exact ⟨q₁, hdown.readOnly (schedule_readOnly _ nofun nofun)⟩

/-- `async_write`, which closes the socket when nothing has been taken for too long -/
theorem Half.asyncWrite (h : Half s q) (hcalm : Calm answers) {closeAnswers : List SendAnswer} (hcalm' : Calm closeAnswers) {now : Nat} (hnow : now ≠ 0)
    (nows : List Nat) :
    Ensures (fun s' => ∃ q', Moved s q s' q' [] ∧ Watched s' q' ∧ Noted s q s' q') (Stops s) (s.asyncWrite answers now closeAnswers nows) := by
  obtain ⟨ec, s₁, q₁, hr, hmoved, ⟨hec, hwatched, hnoted⟩ | ⟨hec, hnotes⟩⟩ := h.handleAsyncWrite hcalm hnow
  · unfold Socket.asyncWrite
    rw [hr, ok_bind]
    dsimp only
    rw [if_pos (show _ ∨ _ from hec)]
    exact ⟨q₁, hmoved, hwatched, hnoted⟩
  · unfold Socket.asyncWrite
    rw [hr, ok_bind, hec]
    dsimp only
    rw [if_neg (by decide)]
    refine ((hmoved.half.close hcalm' _ nows).mono fun s' ⟨q', hdown⟩ => ?_).mono_error fun e he => .inl (he.resolve_right fun hc => nomatch hc.2.1)
    have hdown' := hdown.after hmoved hnotes
    exact ⟨q', hdown'.moved, hdown'.watched, hdown'.noted⟩

theorem Half.rdwrCheck (h : Half s q) (hcalm : Calm answers) (ec : Int) (nows : List Nat) :
    Ensures (fun s' => ∃ q', Moved s q s' q' [] ∧ (Watched s q → Watched s' q') ∧ Noted s q s' q') (Stops s) (s.rdwrCheck ec answers nows) := by
  unfold Socket.rdwrCheck
  split_ifs
  · exact ((h.close hcalm ec nows).mono fun s' ⟨q', hdown⟩ => ⟨q', hdown.moved, fun _ => hdown.watched, hdown.noted⟩).mono_error
      fun e he => he.imp_right fun hc => hc.2.2
  · exact ⟨q, .refl h, id, .refl⟩

/-- Where only reading is shut down, an event is missing if `flush` drains `m_sb`. -/
theorem Half.shutdown (h : Half s q) (hcalm : Calm answers) (flag : ShutdownFlag) (ec : Int) (nows : List Nat) :
    Ensures (fun s' => ∃ q', Moved s q s' q' [] ∧ (Watched s q → Watched s' q') ∧
      (flag.hasWr = true ∨ s.mWflag.shutdown = true ∨ q.items = [] ∨ flushReady flushDefaultBlockTime 0 answers nows < q.count →
        Noted s q s' q')) (· = .waits) (s.shutdown flag ec answers nows) := by
  unfold Socket.shutdown
  refine (h.flushOpen hcalm _ nows).bind fun s₁ ⟨q₁, hf⟩ => ?_
  have hhalf := hf.moved.half
  have hread := shutRd_readOnly_of s₁ (flag.hasRd && !s₁.mRflag.shutdown)
  rw [require_eq hhalf.data, ok_bind, if_pos hhalf.nonblocking]
  by_cases hwr : (flag.hasWr && !s₁.mWflag.shutdown) = true
  · rw [if_pos hwr]
    have hdown := (((hread.moved hhalf).half.shutWr.after (hread.moved hhalf) hread.notes_eq).after hf.moved hf.notes_eq).readOnly
      (scheduleShut_readOnly _ (flag.hasRd && !s₁.mRflag.shutdown) (flag.hasWr && !s₁.mWflag.shutdown) ec)
    exact ⟨q₁, hdown.moved, fun _ => hdown.watched, fun _ => hdown.noted⟩
  · rw [if_neg hwr]
    have hall := hread.trans (scheduleShut_readOnly _ (flag.hasRd && !s₁.mRflag.shutdown) (flag.hasWr && !s₁.mWflag.shutdown) ec)
    have hmoved := hall.moved hhalf
    refine ⟨q₁, hf.moved.trans hmoved, fun hw => hall.watched (hf.watched hw), fun hleft => .same (hall.notes_eq.trans hf.notes_eq) fun hopen => ?_⟩
    rcases hleft with hwr' | hleft
    · have hopen₁ : s₁.mWflag.shutdown = false := Bool.eq_false_iff.mpr fun hdown => by
        rw [hmoved.shutdown hdown] at hopen
        cases hopen
      exact absurd (by rw [hwr', hopen₁]; rfl) hwr
    · exact hf.items hleft

end Wawo.Socket
