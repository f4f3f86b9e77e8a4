import Wawo.Net.SendPath

/-!
# The sending half: runs

A run is a sequence of calls, in the order in which they take the lock of the sending half: those of the
application, of the observer (`async_connected`, `async_write`) and of the scheduler (`__rdwr_check`). Between
`connect` and `begin_async_connect`, which `async_connect` calls one after the other, any other call may come.

Only `flush` waits, by itself or called when the socket is shut down or closed: `.waits` says that the clock readings it
has been given are over while it is still to try again. No other call ends so.
-/

namespace Wawo.Socket

open Lts

/-- One call, with what it is given and what it gets from the kernel and the clock -/
inductive SendCall
  | connect (answer : ConnectAnswer)
  | beginAsyncConnect
  | asyncConnected (hello : Option (List Byte)) (answers : List SendAnswer)
  | send (buffer : List Byte) (useSndBuffer : Bool) (ecO : Int) (answers : List SendAnswer) (now : Nat)
  | flush (blockTime : Int) (answers : List SendAnswer) (nows : List Nat)
  | asyncWrite (answers : List SendAnswer) (now : Nat) (closeAnswers : List SendAnswer) (nows : List Nat)
  | shutdown (flag : ShutdownFlag) (ec : Int) (answers : List SendAnswer) (nows : List Nat)
  | rdwrCheck (ec : Int) (answers : List SendAnswer) (nows : List Nat)
  | close (ec : Int) (answers : List SendAnswer) (nows : List Nat)
deriving DecidableEq

/-- A socket in use: whether `begin_async_connect` is to come, and what has been passed to `send`, with what
`send` has returned. -/
structure InUse where
  s : Socket
  pending : Bool
  returned : List (List Byte × Nat)

def inUse (s : Socket) : InUse := ⟨s, false, []⟩

def call : SendCall → InUse → Except ByteFault InUse
  | .connect answer, p => do
    let (pending, s) ← p.s.connect answer
    return { p with s := s, pending := p.pending || pending }
  | .beginAsyncConnect, p =>
    if p.pending then do return { p with s := ← p.s.beginAsyncConnect, pending := false } else .ok p
  | .asyncConnected hello answers, p =>
    if p.s.writeCallback = some .asyncConnected then do return { p with s := ← p.s.asyncConnected hello answers } else .ok p
  | .send buffer useSndBuffer ecO answers now, p => do
    let (n, _, s) ← p.s.send buffer useSndBuffer ecO answers now
    return { p with s := s, returned := p.returned ++ [(buffer, n)] }
  | .flush blockTime answers nows, p => do return { p with s := ← p.s.flush blockTime answers nows }
  | .asyncWrite answers now closeAnswers nows, p => do return { p with s := ← p.s.asyncWrite answers now closeAnswers nows }
  | .shutdown flag ec answers nows, p => do return { p with s := ← p.s.shutdown flag ec answers nows }
  | .rdwrCheck ec answers nows, p => do return { p with s := ← p.s.rdwrCheck ec answers nows }
  | .close ec answers nows, p => do return { p with s := ← p.s.close ec answers nows }

/-- The kernel reports no error, the clock does not show zero, and `size` admits the bytes to send. -/
def SendCall.Sound (size : Nat) : SendCall → Prop
  | .connect _ => True
  | .beginAsyncConnect => True
  | .asyncConnected _ answers => Calm answers
  | .send buffer _ _ answers now => 0 < buffer.length ∧ buffer.length ≤ size ∧ Calm answers ∧ now ≠ 0
  | .flush _ answers _ => Calm answers
  | .asyncWrite answers now closeAnswers _ => Calm answers ∧ now ≠ 0 ∧ Calm closeAnswers
  | .shutdown _ _ answers _ => Calm answers
  | .rdwrCheck _ answers _ => Calm answers
  | .close _ answers _ => Calm answers

instance (size : Nat) (c : SendCall) : Decidable (c.Sound size) :=
  match c with
  | .connect _ | .beginAsyncConnect => isTrue trivial
  | .asyncConnected _ answers => inferInstanceAs (Decidable (Calm answers))
  | .send _ _ _ _ _ => inferInstanceAs (Decidable (_ ∧ _ ∧ _ ∧ _))
  | .flush _ answers _ => inferInstanceAs (Decidable (Calm answers))
  | .asyncWrite _ _ _ _ => inferInstanceAs (Decidable (_ ∧ _ ∧ _))
  | .shutdown _ _ answers _ => inferInstanceAs (Decidable (Calm answers))
  | .rdwrCheck _ answers _ => inferInstanceAs (Decidable (Calm answers))
  | .close _ answers _ => inferInstanceAs (Decidable (Calm answers))

/-- No `send` blocks while the observer waits for the connect. -/
def SendCall.Through (s : Socket) : SendCall → Prop
  | .send buffer _ _ answers _ =>
    s.writeCallback = some .asyncConnected → s.mWflag.shutdown = false → s.mSb.count = 0 → buffer.length ≤ ready answers
  | _ => True

instance (s : Socket) (c : SendCall) : Decidable (c.Through s) :=
  match c with
  | .send _ _ _ _ _ => inferInstanceAs (Decidable (_ → _ → _ → _))
  | .connect _ | .beginAsyncConnect | .asyncConnected _ _ | .flush _ _ _ | .asyncWrite _ _ _ _ => isTrue trivial
  | .shutdown _ _ _ _ | .rdwrCheck _ _ _ | .close _ _ _ => isTrue trivial

/-- Neither `flush` nor `shutdown(SHUTDOWN_RD)` sends all that is left in `m_sb`. -/
def SendCall.Leaves (s : Socket) : SendCall → Prop
  | .flush blockTime answers nows => s.mWflag.shutdown = true ∨ s.mSb.count = 0 ∨ flushReady blockTime 0 answers nows < s.mSb.count
  | .shutdown .rd _ answers nows =>
    s.mWflag.shutdown = true ∨ s.mSb.count = 0 ∨ flushReady flushDefaultBlockTime 0 answers nows < s.mSb.count
  | _ => True

instance (s : Socket) (c : SendCall) : Decidable (c.Leaves s) :=
  match c with
  | .flush _ _ _ | .shutdown .rd _ _ _ => inferInstanceAs (Decidable (_ ∨ _ ∨ _))
  | .shutdown .wr _ _ _ | .shutdown .rdwr _ _ _ | .connect _ | .beginAsyncConnect | .asyncConnected _ _ => isTrue trivial
  | .send _ _ _ _ _ | .asyncWrite _ _ _ _ | .rdwrCheck _ _ _ | .close _ _ _ => isTrue trivial

/-- The buffers for which `send` has returned their full size -/
def accepted (returned : List (List Byte × Nat)) : List Byte := (returned.filter fun r => r.2 = r.1.length).flatMap Prod.fst

variable {s s' : Socket} {q q' : BoundedQueue Byte} {answers : List SendAnswer} {p p' : InUse} {c : SendCall}

theorem accepted_append (returned returned' : List (List Byte × Nat)) : accepted (returned ++ returned') = accepted returned ++ accepted returned' := by
  rw [accepted, List.filter_append, List.flatMap_append, accepted, accepted]

theorem accepted_whole (returned : List (List Byte × Nat)) (buffer : List Byte) :
    accepted (returned ++ [(buffer, buffer.length)]) = accepted returned ++ buffer := by
  rw [accepted_append]
  simp [accepted]

theorem accepted_none (returned : List (List Byte × Nat)) {buffer : List Byte} (hne : 0 < buffer.length) :
    accepted (returned ++ [(buffer, 0)]) = accepted returned := by
  have : 0 ≠ buffer.length := by omega
  rw [accepted_append]
  simp [accepted, this]

/-! ### The connect -/

/-- While `connect` may be called nothing has been kept in `m_sb`. -/
theorem Half.enter (h : Half s q) (hstate : s.mState = .opened ∨ s.mState = .binded) {state : SocketState} (hopen : state ≠ .closed) :
    Half { s with mSm := .active, mState := state } q := by
  refine ⟨h.refines, h.capacity_eq, h.nonblocking, nofun, h.infinite, h.registered, fun hopen' hne => ?_, h.asyncWt, fun hc => absurd hc hopen⟩
  rcases h.sending hopen' hne with hs | hs <;> rcases hstate with hs' | hs' <;> rw [hs'] at hs <;> cases hs

theorem Half.connect (h : Half s q) (answer : ConnectAnswer) :
    Ensures (fun r => Half r.2 q ∧ (Watched s q → Watched r.2 q) ∧
      (r.2.notes = s.notes ∧ r.2.mWflag.shutdown = s.mWflag.shutdown) ∧ (s.Settled → r = (false, s))) (Stops s) (s.connect answer) := by
  have heq : { s with nonblocking := true } = s := by rw [← h.nonblocking]
  unfold Socket.connect
  rw [heq]
  dsimp only
  by_cases hstate : s.mState = .opened ∨ s.mState = .binded
  · have hnot : ¬ s.Settled := by
      unfold Settled
      rcases hstate with hs | hs <;> rw [hs] <;> simp
    have hhalf : Half { s with mSm := .active } q := h.enter hstate fun hc => by rcases hstate with hs | hs <;> rw [hs] at hc <;> cases hc
    rw [if_pos hstate]
    refine ensures_require (fun _ => .inr hnot) fun _ => ?_
    cases answer with
    | connected => exact ⟨h.enter hstate nofun, id, ⟨rfl, rfl⟩, fun hs => absurd hs hnot⟩
    | inProgress => exact ⟨h.enter hstate nofun, id, ⟨rfl, rfl⟩, fun hs => absurd hs hnot⟩
    | failed errno => exact ⟨hhalf, id, ⟨rfl, rfl⟩, fun hs => absurd hs hnot⟩
  · rw [if_neg hstate]
    exact ⟨h, id, ⟨rfl, rfl⟩, fun _ => rfl⟩

theorem Half.beginAsyncConnect (h : Half s q) :
    Ensures (fun s' => Half s' q ∧ (Watched s q → Watched s' q) ∧ s'.notes = s.notes ∧ s'.mWflag.shutdown = s.mWflag.shutdown)
      (fun _ => True) s.beginAsyncConnect := by
  refine ensures_require (fun _ => trivial) fun _ => ensures_require (fun _ => trivial) fun _ => ensures_require (fun _ => trivial) fun hwatch => ?_
  have hnone : s.writeCallback = none := by simpa [hwatch.2] using h.registered
  refine ⟨⟨h.refines, h.capacity_eq, h.nonblocking, h.data, h.infinite, rfl, h.sending, h.asyncWt, h.closed⟩, fun hw hopen hne => ?_,
    rfl, rfl⟩
  have hcallback := hw hopen hne
  rw [hnone] at hcallback
  cases hcallback

theorem tlpHandshake_spec (s : Socket) (hello : Option (List Byte)) (answers : List SendAnswer) :
    Ensures (fun s' => ∃ taken, s' = { s with kernel := s.kernel ++ taken, mRflag := s'.mRflag }) (fun _ => True) (s.tlpHandshake hello answers) := by
  cases hello with
  | none => exact ⟨[], by rw [List.append_nil]⟩
  | some hello =>
    have hsend : Ensures (fun r => ∃ taken, r.2 = { s with kernel := s.kernel ++ taken }) (fun _ => True) (s.baseSend hello answers) := by
      refine ensures_require (fun _ => trivial) fun _ => ?_
      split_ifs
      · exact ⟨[], by rw [List.append_nil]⟩
      · exact ⟨_, rfl⟩
    refine hsend.bind fun r ⟨taken, hr⟩ => ?_
    dsimp only
    rw [hr]
    split_ifs
    · exact ⟨taken, rfl⟩
    · exact ⟨taken, rfl⟩
    · refine ensures_require (fun _ => trivial) fun _ => ensures_require (fun _ => trivial) fun _ => ?_
      exact ⟨taken, rfl⟩

/-- `async_connected` leaves nothing watched for. -/
theorem Half.asyncConnected (h : Half s q) (hcallback : s.writeCallback = some .asyncConnected) (hello : Option (List Byte)) (answers : List SendAnswer) :
    Ensures (fun s' => Half s' q ∧ (Watched s q → Watched s' q) ∧ s'.notes = s.notes ∧ s'.mWflag.shutdown = s.mWflag.shutdown)
      (fun _ => True)
      (s.asyncConnected hello answers) := by
  have hhalf := h.unwatched.half
  refine ensures_require (fun _ => trivial) fun _ => ?_
  rw [h.endAsyncWrite_eq]
  refine ensures_require (fun _ => trivial) fun _ => ensures_require (fun _ => trivial) fun _ => ?_
  refine (tlpHandshake_spec _ hello answers).mono fun s' ⟨taken, hs'⟩ => ?_
  rw [hs']
  refine ⟨⟨hhalf.refines, hhalf.capacity_eq, hhalf.nonblocking, hhalf.data, rfl, rfl, fun _ _ => .inl rfl, hhalf.asyncWt, nofun⟩,
    fun hw hopen hne => ?_, rfl, rfl⟩
  have hwrite := hw hopen hne
  rw [hcallback] at hwrite
  cases hwrite

/-! ### One call -/

/-- What holds between the calls -/
structure Steady (p : InUse) (q : BoundedQueue Byte) : Prop where
  half : Half p.s q
  whole : ∀ r ∈ p.returned, r.2 = r.1.length ∨ r.2 = 0

/-- No connect is made any more. -/
def Joined (p : InUse) : Prop := p.pending = false ∧ p.s.Settled

/-- Where the bytes are that have been accepted -/
def Delivered (p : InUse) (q : BoundedQueue Byte) : Prop := p.s.kernel ++ q.items = accepted p.returned

/-- What a call does -/
structure Called (p : InUse) (q : BoundedQueue Byte) (c : SendCall) (p' : InUse) (q' : BoundedQueue Byte) : Prop where
  steady : Steady p' q'
  capacity : q'.capacity = q.capacity
  shutdown : p.s.mWflag.shutdown = true → p'.s.mWflag.shutdown = true
  joined : Joined p → Joined p' ∧ (Delivered p q → Delivered p' q')
  watched : c.Through p.s → Watched p.s q → Watched p'.s q'
  noted : c.Leaves p.s → Noted p.s q p'.s q'

theorem Steady.called (h : Steady p q) (hmoved : Moved p.s q s' q' []) (hwatched : c.Through p.s → Watched p.s q → Watched s' q')
    (hnoted : c.Leaves p.s → Noted p.s q s' q') : Called p q c { p with s := s' } q' := by
  refine ⟨⟨hmoved.half, h.whole⟩, hmoved.capacity, hmoved.shutdown, fun hjoined => ⟨⟨hjoined.1, hmoved.settled hjoined.2⟩, fun hdelivered => ?_⟩, hwatched, hnoted⟩
  show s'.kernel ++ q'.items = _
  rw [hmoved.bytes_eq, List.append_nil]
  exact hdelivered

/-- A call that is about the connect -/
theorem Steady.called_unjoined (h : Steady p q) {pending : Bool} (hjoined : ¬ Joined p) (hhalf : Half s' q)
    (hwatched : Watched p.s q → Watched s' q) (hsame : s'.notes = p.s.notes ∧ s'.mWflag.shutdown = p.s.mWflag.shutdown) :
    Called p q c { p with s := s', pending := pending } q :=
  ⟨⟨hhalf, h.whole⟩, rfl, hsame.2.trans, fun hj => absurd hj hjoined, fun _ => hwatched, fun _ => .same hsame.1 fun _ => Iff.rfl⟩

theorem Steady.refl (h : Steady p q) : Called p q c p q :=
  ⟨h, rfl, id, fun hjoined => ⟨hjoined, id⟩, fun _ => id, fun _ => .refl⟩

theorem Steady.sent (h : Steady p q) {buffer : List Byte} {useSndBuffer : Bool} {ecO : Int} {now n : Nat} (hne : 0 < buffer.length)
    (hn : Accepts p.s q buffer answers n s' q') :
    Called p q (.send buffer useSndBuffer ecO answers now) { p with s := s', returned := p.returned ++ [(buffer, n)] } q' := by
  have hwhole : ∀ r ∈ p.returned ++ [(buffer, n)], r.2 = r.1.length ∨ r.2 = 0 := by
    intro r hr
    rcases List.mem_append.mp hr with hr | hr
    · exact h.whole r hr
    · rw [List.mem_singleton.mp hr]
      exact hn.moved.imp And.left And.left
  have hthrough : SendCall.Through p.s (.send buffer useSndBuffer ecO answers now) → Watched p.s q → Watched s' q' := by
    intro hthrough hw
    refine hn.watched hw fun hcallback hopen hnil => hthrough hcallback hopen ?_
    rw [h.half.refines.count_eq]
    exact q.count_eq_zero.mpr hnil
  rcases hn.moved with ⟨hall, hmoved⟩ | ⟨hnone, hmoved⟩
  · refine ⟨⟨hmoved.half, hwhole⟩, hmoved.capacity, hmoved.shutdown, fun hjoined => ⟨⟨hjoined.1, hmoved.settled hjoined.2⟩, fun hdelivered => ?_⟩, hthrough,
      fun _ => hn.noted⟩
    show s'.kernel ++ q'.items = accepted (p.returned ++ [(buffer, n)])
    rw [hmoved.bytes_eq, hdelivered, hall, accepted_whole]
  · refine ⟨⟨hmoved.half, hwhole⟩, hmoved.capacity, hmoved.shutdown, fun hjoined => ⟨⟨hjoined.1, hmoved.settled hjoined.2⟩, fun hdelivered => ?_⟩, hthrough,
      fun _ => hn.noted⟩
    show s'.kernel ++ q'.items = accepted (p.returned ++ [(buffer, n)])
    rw [hmoved.bytes_eq, hdelivered, hnone, accepted_none _ hne, List.append_nil]

theorem call_spec (h : Steady p q) (hsound : c.Sound q.capacity) :
    Ensures (fun p' => ∃ q', Called p q c p' q') (fun e => e = .waits ∨ ¬ Joined p) (call c p) := by
  have hstops : ∀ e, Stops p.s e → e = .waits ∨ ¬ Joined p := fun e he => he.imp_right fun hnot hjoined => hnot hjoined.2
  have hcount := h.half.refines.count_eq
  cases c with
  | connect answer =>
    refine ((h.half.connect answer).mono_error hstops).bind fun r ⟨hhalf, hwatched, hsame, hsettled⟩ => ?_
    by_cases hjoined : Joined p
    · rw [hsettled hjoined.2]
      refine ⟨q, ?_⟩
      simp only [Bool.or_false]
      exact h.refl
    · exact ⟨q, h.called_unjoined hjoined hhalf hwatched hsame⟩
  | beginAsyncConnect =>
    rw [call]
    split_ifs with hpending
    · have hjoined : ¬ Joined p := fun hjoined => by rw [hjoined.1] at hpending; cases hpending
      refine (h.half.beginAsyncConnect.mono_error fun _ _ => .inr hjoined).bind fun s' ⟨hhalf, hwatched, hsame⟩ => ?_
      exact ⟨q, h.called_unjoined hjoined hhalf hwatched hsame⟩
    · exact ⟨q, h.refl⟩
  | asyncConnected hello answers =>
    rw [call]
    split_ifs with hcallback
    · have hjoined : ¬ Joined p := fun hjoined => hjoined.2.2 hcallback
      refine ((h.half.asyncConnected hcallback hello answers).mono_error fun _ _ => .inr hjoined).bind fun s' ⟨hhalf, hwatched, hsame⟩ => ?_
      exact ⟨q, h.called_unjoined hjoined hhalf hwatched hsame⟩
    · exact ⟨q, h.refl⟩
  | send buffer useSndBuffer ecO answers now =>
    obtain ⟨hne, hsize, hcalm, hnow⟩ := hsound
    exact ((h.half.send hcalm hne hsize useSndBuffer ecO hnow).mono_error hstops).bind fun r ⟨q', hr⟩ => ⟨q', h.sent hne hr⟩
  | flush blockTime answers nows =>
    refine ((h.half.flush hsound blockTime nows).mono_error fun _ he => .inl he).bind fun s' ⟨q', hf⟩ => ⟨q', h.called hf.moved (fun _ => hf.watched) ?_⟩
    intro hleaves
    unfold SendCall.Leaves at hleaves
    rw [hcount, q.count_eq_zero] at hleaves
    exact hf.noted hleaves
  | asyncWrite answers now closeAnswers nows =>
    obtain ⟨hcalm, hnow, hcalm'⟩ := hsound
    exact ((h.half.asyncWrite hcalm hcalm' hnow nows).mono_error hstops).bind fun s' ⟨q', hmoved, hwatched, hnoted⟩ =>
      ⟨q', h.called hmoved (fun _ _ => hwatched) fun _ => hnoted⟩
  | shutdown flag ec answers nows =>
    refine ((h.half.shutdown hsound flag ec nows).mono_error fun _ he => .inl he).bind fun s' ⟨q', hmoved, hwatched, hnoted⟩ =>
      ⟨q', h.called hmoved (fun _ => hwatched) ?_⟩
    intro hleaves
    refine hnoted ?_
    cases flag with
    | rd =>
      unfold SendCall.Leaves at hleaves
      rw [hcount, q.count_eq_zero] at hleaves
      exact .inr hleaves
    | wr => exact .inl rfl
    | rdwr => exact .inl rfl
  | rdwrCheck ec answers nows =>
    exact ((h.half.rdwrCheck hsound ec nows).mono_error hstops).bind fun s' ⟨q', hmoved, hwatched, hnoted⟩ =>
      ⟨q', h.called hmoved (fun _ => hwatched) fun _ => hnoted⟩
  | close ec answers nows =>
    exact ((h.half.close hsound ec nows).mono_error fun e he => hstops e (he.imp_right fun hc => hc.2.2)).bind fun s' ⟨q', hdown⟩ =>
      ⟨q', h.called hdown.moved (fun _ _ => hdown.watched) fun _ => hdown.noted⟩

/-! ### Runs -/

variable {mSm : SocketMode} {mState : SocketState} {sndSize rcvSize mSize : Nat} {cs : List SendCall}

/-- A socket with nothing to send, and no connect made or waited for -/
structure Fresh (s : Socket) (mState : SocketState) (sndSize : Nat) : Prop where
  steady : Steady (inUse s) (.empty sndSize)
  kernel : s.kernel = []
  events : s.events = []
  state : s.mState = mState
  callback : s.writeCallback = none

theorem init_fresh (hsnd : sndSize ≤ sockSndMaxSize ∧ sndSize ≥ sockSndMinSize) (hrcv : rcvSize ≤ sockRcvMaxSize ∧ rcvSize ≥ sockRcvMinSize)
    (hdata : mSm ≠ .listener) (hopen : mState ≠ .closed) : ∃ s, init true mSm mState sndSize rcvSize mSize = .ok s ∧ Fresh s mState sndSize := by
  obtain ⟨mSb, mRb, hrefines, -, hinit⟩ := @init_spec true mSm mState sndSize rcvSize mSize hsnd hrcv
  exact ⟨_, hinit, ⟨⟨hrefines, rfl, rfl, hdata, rfl, rfl, fun _ hne => absurd rfl hne, fun hne => absurd rfl hne, fun hc => absurd hc hopen⟩, nofun⟩,
    rfl, rfl, rfl, rfl⟩

theorem fresh_of_init (hinit : init true mSm mState sndSize rcvSize mSize = .ok s) (hdata : mSm ≠ .listener) (hopen : mState ≠ .closed) :
    Fresh s mState sndSize := by
  obtain ⟨_, hsnd, h⟩ := bind_eq_ok.mp hinit
  obtain ⟨_, hrcv, -⟩ := bind_eq_ok.mp h
  obtain ⟨s', hs', hfresh⟩ := @init_fresh mSm mState sndSize rcvSize mSize (require_eq_ok.mp hsnd) (require_eq_ok.mp hrcv) hdata hopen
  rw [hinit] at hs'
  cases hs'
  exact hfresh

theorem exec_delivered (h : Steady p q) (hjoined : Joined p) (hdelivered : Delivered p q) (hsound : ∀ c ∈ cs, c.Sound q.capacity) :
    Ensures (fun p' => ∃ q', Steady p' q' ∧ Delivered p' q') (· = .waits) (exec call cs p) := by
  induction cs generalizing p q with
  | nil => exact ⟨q, h, hdelivered⟩
  | cons c cs ih =>
    have hcall := call_spec h (hsound c (List.mem_cons_self ..))
    cases hp' : call c p with
    | error e =>
      rw [hp'] at hcall
      rw [exec, hp']
      exact hcall.resolve_right fun hnot => hnot hjoined
    | ok p' =>
      rw [hp'] at hcall
      obtain ⟨q', hcalled⟩ := hcall
      obtain ⟨hjoined', hdelivered'⟩ := hcalled.joined hjoined
      rw [exec_cons hp']
      refine ih hcalled.steady hjoined' (hdelivered' hdelivered) fun c' hc' => ?_
      rw [hcalled.capacity]
      exact hsound c' (List.mem_cons_of_mem _ hc')

/-- On a connected socket no call fails, and what the kernel has taken, followed by what is left in `m_sb`, is what `send` has
accepted: the whole of a buffer or nothing of it. Where the run does not get to its end, a `flush` has yet to return. -/
theorem send_path_integrity (hinit : init true mSm .connected sndSize rcvSize mSize = .ok s) (hdata : mSm ≠ .listener)
    (hsound : ∀ c ∈ cs, c.Sound sndSize) :
    (∃ p, exec call cs (inUse s) = .ok p ∧ p.s.kernel ++ p.s.mSb.bytes = accepted p.returned ∧ ∀ r ∈ p.returned, r.2 = r.1.length ∨ r.2 = 0) ∨
      exec call cs (inUse s) = .error .waits := by
  have hfresh := fresh_of_init hinit hdata nofun
  have hjoined : Joined (inUse s) := ⟨rfl, .inl hfresh.state, by show s.writeCallback ≠ _; rw [hfresh.callback]; nofun⟩
  have hdelivered : Delivered (inUse s) (.empty sndSize) := by
    show s.kernel ++ [] = []
    rw [hfresh.kernel]
    rfl
  rcases (exec_delivered hfresh.steady hjoined hdelivered hsound).ok_or_error with ⟨p, hp, q, hsteady, hdelivered⟩ | ⟨e, he, rfl⟩
  · refine .inl ⟨p, hp, ?_, hsteady.whole⟩
    rw [hsteady.half.refines.bytes_eq]
    exact hdelivered
  · exact .inr he

/-- A run of a socket with the smallest buffers that ends in `Q`, with calls that meet `P` -/
def runs (mSm : SocketMode) (mState : SocketState) (P : InUse → SendCall → Bool) (Q : InUse → Bool) (cs : List SendCall) : Bool :=
  match init true mSm mState sockSndMinSize sockRcvMinSize 1024 with
  | .ok s => meets call P cs (inUse s) && reaches call Q cs (inUse s)
  | .error _ => false

theorem exists_of_runs (mSm : SocketMode) (mState : SocketState) (P : InUse → SendCall → Bool) (Q : InUse → Bool) (cs : List SendCall)
    (h : runs mSm mState P Q cs = true) :
    ∃ s p, init true mSm mState sockSndMinSize sockRcvMinSize 1024 = .ok s ∧ Run call (fun p c => P p c = true) (inUse s) cs p ∧ Q p = true := by
  unfold runs at h
  split at h
  case h_1 s hs =>
    obtain ⟨p, hrun, hp⟩ := Run.of_checks h
    exact ⟨s, p, hs, hrun, hp⟩
  case h_2 => cases h

/-- The kernel takes one byte of three, then blocks; the rest is sent later, in two calls, with what a second `send` has put
behind it. A third one is refused. -/
def backPressure : List SendCall :=
  [.send [1, 2, 3] false 0 [.sent 0, .wouldBlock] 1, .send [4] true 0 [] 2, .send [5] false 0 [] 2, .asyncWrite [.sent 0, .interrupted] 3 [] [],
    .asyncWrite [.sent 1] 4 [] []]

theorem send_path_integrity_backPressure :
    ∃ s p, init true .passive .connected sockSndMinSize sockRcvMinSize 1024 = .ok s ∧ exec call backPressure (inUse s) = .ok p ∧
      p.returned = [([1, 2, 3], 3), ([4], 1), ([5], 0)] ∧ p.s.kernel ++ p.s.mSb.bytes = accepted p.returned ∧
      ∀ r ∈ p.returned, r.2 = r.1.length ∨ r.2 = 0 := by
  obtain ⟨s, p, hs, hrun, hreturned⟩ := exists_of_runs .passive .connected (fun _ _ => true)
    (fun p => p.returned = [([1, 2, 3], 3), ([4], 1), ([5], 0)]) backPressure (by decide +kernel)
  have hp := hrun.exec_eq
  rcases send_path_integrity hs (by decide) (by decide +kernel : ∀ c ∈ backPressure, c.Sound sockSndMinSize) with ⟨p', hp', hsent⟩ | hwaits
  · cases hp.symm.trans hp'
    exact ⟨s, p, hs, hp, of_decide_eq_true hreturned, hsent⟩
  · cases hp.symm.trans hwaits

/-- What each call keeps is kept by a run. -/
theorem run_steady {C : InUse → SendCall → Prop} {I : InUse → BoundedQueue Byte → Prop} (hrun : Run call C p cs p') (h : Steady p q) (hI : I p q)
    (hC : ∀ p c, C p c → c.Sound q.capacity) (hstep : ∀ p q c p' q', Steady p q → Called p q c p' q' → C p c → I p q → I p' q') :
    ∃ q', Steady p' q' ∧ I p' q' := by
  suffices hinv : ∃ q', Steady p' q' ∧ q'.capacity = q.capacity ∧ I p' q' from hinv.imp fun q' hq' => ⟨hq'.1, hq'.2.2⟩
  refine hrun.inv (fun p => ∃ q', Steady p q' ∧ q'.capacity = q.capacity ∧ I p q') ?_ ⟨q, h, rfl, hI⟩
  rintro p₁ c p₂ ⟨q₁, h₁, hcap, hI₁⟩ hc hp₂
  obtain ⟨q₂, hcalled⟩ := (call_spec h₁ (by rw [hcap]; exact hC p₁ c hc)).of_eq_ok hp₂
  exact ⟨q₂, hcalled.steady, hcalled.capacity.trans hcap, hstep p₁ q₁ c p₂ q₂ h₁ hcalled hc hI₁⟩

/-- Where every `send` that comes while a connect is waited for goes through, `async_write` is watched for and
the timer runs as long as there is something to send. -/
theorem async_write_watched (hinit : init true mSm mState sndSize rcvSize mSize = .ok s) (hdata : mSm ≠ .listener) (hstate : mState ≠ .closed)
    (hrun : Run call (fun p c => c.Sound sndSize ∧ c.Through p.s) (inUse s) cs p) :
    p.s.mSb.count ≠ 0 → p.s.mWflag.shutdown = false →
      p.s.mWflag.watch = true ∧ p.s.writeCallback = some .asyncWrite ∧ p.s.mAsyncWt ≠ 0 := by
  have hfresh := fresh_of_init hinit hdata hstate
  obtain ⟨q, hsteady, hwatched⟩ := run_steady (I := fun p q => Watched p.s q) hrun hfresh.steady (fun _ hne => absurd rfl hne) (fun _ _ hc => hc.1)
    fun p q c p' q' _ hcalled hc => hcalled.watched hc.2
  intro hcount hopen
  have hne : q.items ≠ [] := fun hnil => hcount (by rw [hsteady.half.refines.count_eq]; exact q.count_eq_zero.mpr hnil)
  have hcallback := hwatched hopen hne
  exact ⟨by rw [hsteady.half.registered, hcallback]; rfl, hcallback, hsteady.half.asyncWt hne⟩

theorem async_write_watched_backPressure :
    ∃ s p, init true .none .opened sockSndMinSize sockRcvMinSize 1024 = .ok s ∧
      Run call (fun p c => c.Sound sockSndMinSize ∧ c.Through p.s) (inUse s)
        ([.connect .inProgress, .beginAsyncConnect, .asyncConnected none []] ++ backPressure.take 4) p ∧
      p.s.mSb.count = 2 ∧ p.s.mWflag.watch = true ∧ p.s.writeCallback = some .asyncWrite ∧ p.s.mAsyncWt ≠ 0 := by
  obtain ⟨s, p, hs, hrun, hp⟩ := exists_of_runs .none .opened (fun p c => c.Sound sockSndMinSize ∧ c.Through p.s)
    (fun p => p.s.mSb.count = 2 ∧ p.s.mWflag.shutdown = false)
    ([.connect .inProgress, .beginAsyncConnect, .asyncConnected none []] ++ backPressure.take 4) (by decide +kernel)
  have hrun := hrun.mono fun _ _ hc => of_decide_eq_true hc
  obtain ⟨hcount, hopen⟩ := of_decide_eq_true hp
  exact ⟨s, p, hs, hrun, hcount, async_write_watched hs nofun nofun hrun (by rw [hcount]; decide) hopen⟩

/-- A `send` that blocks while the connect is waited for is never sent on: `async_connected` ends the watch. -/
theorem write_wakeup_lost :
    ∃ s cs p, init true .none .opened sockSndMinSize sockRcvMinSize 1024 = .ok s ∧
      Run call (fun _ c => c.Sound sockSndMinSize) (inUse s) cs p ∧ p.s.mState = .connected ∧
      p.s.mSb.count ≠ 0 ∧ p.s.mWflag.shutdown = false ∧
      ¬ (p.s.mWflag.watch = true ∧ p.s.writeCallback = some .asyncWrite ∧ p.s.mAsyncWt ≠ 0) := by
  obtain ⟨s, p, hs, hrun, hp⟩ := exists_of_runs .none .opened (fun _ c => c.Sound sockSndMinSize)
    (fun p => p.s.mState = .connected ∧ p.s.mSb.count ≠ 0 ∧ p.s.mWflag.shutdown = false ∧
      ¬ (p.s.mWflag.watch = true ∧ p.s.writeCallback = some .asyncWrite ∧ p.s.mAsyncWt ≠ 0))
    [.connect .inProgress, .beginAsyncConnect, .send [1] false 0 [.wouldBlock] 1, .asyncConnected none []] (by decide +kernel)
  exact ⟨s, _, p, hs, hrun.mono fun _ _ hc => of_decide_eq_true hc, of_decide_eq_true hp⟩

/-- `E_WR_BLOCK` and `E_WR_UNBLOCK` take turns, in that order; whether the last one is `E_WR_BLOCK`. -/
inductive Alternate : List SocketEvent → Bool → Prop
  | nil : Alternate [] false
  | block {evts : List SocketEvent} (h : Alternate evts false) : Alternate (evts ++ [.wrBlock]) true
  | unblock {evts : List SocketEvent} (h : Alternate evts true) : Alternate (evts ++ [.wrUnblock]) false

theorem Alternate.count_eq {evts : List SocketEvent} {blocked : Bool} (h : Alternate evts blocked) :
    evts.count .wrBlock = evts.count .wrUnblock + if blocked then 1 else 0 := by
  induction h with
  | nil => rfl
  | block _ ih =>
    simp only [List.count_append, List.count_singleton]
    simp at ih ⊢
    omega
  | unblock _ ih =>
    simp only [List.count_append, List.count_singleton]
    simp at ih ⊢
    omega

/-- The last event tells whether something is left to send. -/
def Notified (s : Socket) (q : BoundedQueue Byte) : Prop :=
  ∃ blocked, Alternate s.notes blocked ∧ (s.mWflag.shutdown = false → (blocked = false ↔ q.items = []))

theorem Notified.noted (h : Notified s q) (hnoted : Noted s q s' q') (hshutdown : s.mWflag.shutdown = true → s'.mWflag.shutdown = true) :
    Notified s' q' := by
  obtain ⟨blocked, halternate, hblocked⟩ := h
  rcases hnoted with ⟨hnotes, hitems⟩ | ⟨hnotes, hopen, hitems, hitems'⟩ | ⟨hnotes, hopen, hitems, hitems'⟩
  · refine ⟨blocked, by rwa [hnotes], fun hopen' => ?_⟩
    have hopen : s.mWflag.shutdown = false := Bool.eq_false_iff.mpr fun hdown => by rw [hshutdown hdown] at hopen'; cases hopen'
    rw [hblocked hopen, hitems hopen']
  · rw [(hblocked hopen).mpr hitems] at halternate
    exact ⟨true, by rw [hnotes]; exact .block halternate, fun _ => iff_of_false nofun hitems'⟩
  · have htrue : blocked = true := by simpa [hitems] using hblocked hopen
    rw [htrue] at halternate
    exact ⟨false, by rw [hnotes]; exact .unblock halternate, fun _ => iff_of_true rfl hitems'⟩

/-- Where `flush` and `shutdown(SHUTDOWN_RD)` leave something in `m_sb`, the two events take turns, and as many of
one kind as of the other have been scheduled when nothing is left. -/
theorem write_events_balanced (hinit : init true mSm mState sndSize rcvSize mSize = .ok s) (hdata : mSm ≠ .listener) (hstate : mState ≠ .closed)
    (hrun : Run call (fun p c => c.Sound sndSize ∧ c.Leaves p.s) (inUse s) cs p) :
    (∃ blocked, Alternate p.s.notes blocked) ∧
      (p.s.mSb.count = 0 → p.s.mWflag.shutdown = false → p.s.events.count .wrBlock = p.s.events.count .wrUnblock) := by
  have hfresh := fresh_of_init hinit hdata hstate
  have hnotified : Notified s (.empty sndSize) := by
    refine ⟨false, ?_, fun _ => iff_of_true rfl rfl⟩
    rw [notes, hfresh.events]
    exact .nil
  obtain ⟨q, hsteady, blocked, halternate, hblocked⟩ := run_steady (I := fun p q => Notified p.s q) hrun hfresh.steady hnotified (fun _ _ hc => hc.1)
    fun p q c p' q' _ hcalled hc h => h.noted (hcalled.noted hc.2) hcalled.shutdown
  refine ⟨⟨blocked, halternate⟩, fun hcount hopen => ?_⟩
  have hnil : q.items = [] := q.count_eq_zero.mp (by rw [← hsteady.half.refines.count_eq]; exact hcount)
  have hfalse := (hblocked hopen).mpr hnil
  have heq := halternate.count_eq
  rw [hfalse, notes, List.count_filter (by simp), List.count_filter (by simp)] at heq
  simpa using heq

theorem write_events_balanced_backPressure :
    ∃ s p, init true .passive .connected sockSndMinSize sockRcvMinSize 1024 = .ok s ∧
      Run call (fun p c => c.Sound sockSndMinSize ∧ c.Leaves p.s) (inUse s) (backPressure ++ [.flush 0 [] [], .shutdown .rd 0 [] []]) p ∧
      (∃ blocked, Alternate p.s.notes blocked) ∧ p.s.events.count .wrBlock = p.s.events.count .wrUnblock := by
  obtain ⟨s, p, hs, hrun, hp⟩ := exists_of_runs .passive .connected (fun p c => c.Sound sockSndMinSize ∧ c.Leaves p.s)
    (fun p => p.s.mSb.count = 0 ∧ p.s.mWflag.shutdown = false)
    (backPressure ++ [.flush 0 [] [], .shutdown .rd 0 [] []]) (by decide +kernel)
  have hrun := hrun.mono fun _ _ hc => of_decide_eq_true hc
  obtain ⟨hcount, hopen⟩ := of_decide_eq_true hp
  have hbalanced := write_events_balanced hs nofun nofun hrun
  exact ⟨s, p, hs, hrun, hbalanced.1, hbalanced.2 hcount hopen⟩

/-- `flush` sends what is left, and no `E_WR_UNBLOCK` follows the `E_WR_BLOCK`. -/
theorem wr_unblock_missing :
    ∃ s cs p, init true .passive .connected sockSndMinSize sockRcvMinSize 1024 = .ok s ∧
      Run call (fun _ c => c.Sound sockSndMinSize) (inUse s) cs p ∧
      p.s.mSb.count = 0 ∧ p.s.mWflag.shutdown = false ∧ p.s.events.count .wrBlock ≠ p.s.events.count .wrUnblock := by
  obtain ⟨s, p, hs, hrun, hp⟩ := exists_of_runs .passive .connected (fun _ c => c.Sound sockSndMinSize)
    (fun p => p.s.mSb.count = 0 ∧ p.s.mWflag.shutdown = false ∧ p.s.events.count .wrBlock ≠ p.s.events.count .wrUnblock)
    [.send [1] false 0 [.wouldBlock] 1, .flush flushDefaultBlockTime [.sent 0] []] (by decide +kernel)
  exact ⟨s, _, p, hs, hrun.mono fun _ _ hc => of_decide_eq_true hc, of_decide_eq_true hp⟩

end Wawo.Socket
