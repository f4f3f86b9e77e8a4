import Wawo.Lib.Agree
import Wawo.Mux.Stream

/-!
# Streams over bounded queues

A stream only uses its buffers through `Ring`, and the ring buffer answers as a bounded queue does. So a
stream over ring buffers and one over the queues they hold (`Stream.Refines`) agree in every call
(`call_agree`): what the modules after this one prove of streams over queues holds of the source's.
-/

namespace Wawo.Mux

open Lts

-- so that nothing evaluates the conditions they stand in
attribute [local irreducible] minRingBufferSize subU32

/-- A queue as a buffer, with the faults of `bytes_ringbuffer` -/
instance : Ring (BoundedQueue Byte) where
  new capacity := do
    require (minRingBufferSize ≤ capacity ∧ capacity ≤ maxRingBufferSize) .ringRange
    return .empty capacity
  capacity q := q.capacity
  count q := q.count
  leftCapacity q := q.leftCapacity
  read q n := .ok (min n q.count, q.front n, q.skip n)
  peek q n := .ok (min n q.count, q.front n, q)
  skip q n := do
    require (n ≤ q.count) .ringSkip
    return q.skip n
  write q bytes := do
    require (bytes.length ≠ 0) .ringWriteEmpty
    return (min bytes.length q.leftCapacity, q.write bytes)

/-! ### The calls of a buffer -/

section

variable {rb : RingBuffer} {q : BoundedQueue Byte} {n : Nat} {bytes : List Byte}

/-- The same number, the same bytes, and the buffer holds the queue. -/
def ReadAgree (x : Nat × List Byte × RingBuffer) (y : Nat × List Byte × BoundedQueue Byte) : Prop :=
  x.1 = y.1 ∧ x.2.1 = y.2.1 ∧ x.2.2.Refines y.2.2

def WriteAgree (x : Nat × RingBuffer) (y : Nat × BoundedQueue Byte) : Prop := x.1 = y.1 ∧ x.2.Refines y.2

theorem queue_new_eq (h : minRingBufferSize ≤ n ∧ n ≤ maxRingBufferSize) :
    (Ring.new n : Except ByteFault (BoundedQueue Byte)) = .ok (.empty n) := by
  show (require (minRingBufferSize ≤ n ∧ n ≤ maxRingBufferSize) .ringRange >>= fun _ => pure (BoundedQueue.empty n)) = _
  rw [require_eq h]
  rfl

theorem new_agree (hn : n < 2 ^ 31) :
    Agree RingBuffer.Refines (Ring.new n : Except ByteFault RingBuffer) (Ring.new n : Except ByteFault (BoundedQueue Byte)) := by
  by_cases h : minRingBufferSize ≤ n ∧ n ≤ maxRingBufferSize
  · obtain ⟨rb, hnew, hrb⟩ := RingBuffer.new_refines h.1 h.2
    show Agree _ (RingBuffer.new n) _
    rw [hnew, queue_new_eq h]
    exact hrb
  · have hsub : subU32 (u32 (n + 1)) 1 = n := by
      unfold subU32 u32
      omega
    show Agree RingBuffer.Refines (RingBuffer.new n) (do
      require (minRingBufferSize ≤ n ∧ n ≤ maxRingBufferSize) .ringRange
      return .empty n)
    unfold RingBuffer.new require
    dsimp only
    rw [hsub, if_neg h]
    rfl

variable (h : rb.Refines q)
include h

theorem capacity_agree : Ring.capacity rb = Ring.capacity q := h.capacity_fn_eq

theorem count_agree : Ring.count rb = Ring.count q := h.count_eq

theorem leftCapacity_agree : Ring.leftCapacity rb = Ring.leftCapacity q := h.leftCapacity_eq

theorem read_agree (n : Nat) : Agree ReadAgree (Ring.read rb n) (Ring.read q n) := by
  obtain ⟨rb', hread, hrb'⟩ := h.read n
  show Agree _ (rb.read n true) _
  rw [hread]
  exact ⟨rfl, rfl, hrb'⟩

theorem peek_agree (n : Nat) : Agree ReadAgree (Ring.peek rb n) (Ring.peek q n) := by
  show Agree _ (rb.peek n) _
  rw [h.peek_eq]
  exact ⟨rfl, rfl, h⟩

theorem skip_agree (n : Nat) : Agree RingBuffer.Refines (Ring.skip rb n) (Ring.skip q n) := by
  show Agree _ (rb.skip n) (require _ _ >>= _)
  by_cases hn : n ≤ q.count
  · obtain ⟨rb', hskip, hrb'⟩ := h.skip hn
    rw [hskip, require_eq hn]
    exact hrb'
  · unfold RingBuffer.skip require
    rw [h.count_eq, if_neg hn]
    rfl

theorem write_agree (bytes : List Byte) : Agree WriteAgree (Ring.write rb bytes) (Ring.write q bytes) := by
  show Agree _ (rb.write bytes bytes.length) (require _ _ >>= _)
  by_cases hb : bytes.length ≠ 0
  · obtain ⟨rb', hwrite, hrb'⟩ := h.write (Nat.pos_of_ne_zero hb) (Nat.le_refl _)
    rw [List.take_length] at hrb'
    rw [hwrite, require_eq hb]
    exact ⟨rfl, hrb'⟩
  · unfold RingBuffer.write require
    rw [if_neg hb]
    rfl

end

/-! ### The calls of a stream -/

abbrev QueueStream := Stream (BoundedQueue Byte)

/-- The buffers of the one stream hold the queues of the other, and they agree in all else. -/
inductive Stream.Refines : Stream RingBuffer → QueueStream → Prop
  | mk (ctx : Bool) (state : StreamState) (flag : StreamFlag) (id rbIncre wbWnd : Nat) (writeBlocked : Bool) {rb wb : RingBuffer}
      {rq wq : BoundedQueue Byte} (hrb : rb.Refines rq) (hwb : wb.Refines wq) :
      Stream.Refines ⟨ctx, state, flag, id, rb, rbIncre, wb, wbWnd, writeBlocked⟩ ⟨ctx, state, flag, id, rq, rbIncre, wq, wbWnd, writeBlocked⟩

namespace Stream.Refines

variable {s : Stream RingBuffer} {t : QueueStream}

/-- The same answer, and streams that agree -/
def WithAgree {α : Type} (x : α × Stream RingBuffer) (y : α × QueueStream) : Prop := x.1 = y.1 ∧ x.2.Refines y.2

theorem require_agree {σ τ : Type} {R : σ → τ → Prop} {p : Prop} [Decidable p] {f : ByteFault} {k : Unit → Except ByteFault σ}
    {k' : Unit → Except ByteFault τ} (h : Agree R (k ()) (k' ())) : Agree R (require p f >>= k) (require p f >>= k') := by
  unfold require
  split_ifs
  · exact h
  · exact .error f

theorem init_agree : Agree Stream.Refines (Stream.init : Except ByteFault (Stream RingBuffer)) Stream.init := by
  have hlt : muxStreamWndSize < 2 ^ 31 := by decide
  refine (new_agree hlt).bind fun rb rq hrb => (new_agree hlt).bind fun wb wq hwb => ?_
  exact .mk _ _ _ _ _ _ _ hrb hwb

variable (h : s.Refines t)
include h

theorem sndFin_agree : Agree Stream.Refines s.sndFin t.sndFin := by
  cases h with
  | mk ctx state flag id rbIncre wbWnd writeBlocked hrb hwb =>
    exact require_agree (require_agree (require_agree (require_agree (.mk _ _ _ _ _ _ _ hrb hwb))))

theorem sndSyn_agree : Agree Stream.Refines s.sndSyn t.sndSyn := by
  cases h with
  | mk ctx state flag id rbIncre wbWnd writeBlocked hrb hwb => exact require_agree (.mk _ _ _ _ _ _ _ hrb hwb)

theorem openWith_agree (id : Nat) (ctx : Bool) : Agree Stream.Refines (s.openWith id ctx) (t.openWith id ctx) := by
  cases h with
  | mk _ _ _ _ _ _ _ hrb hwb =>
    exact require_agree (require_agree (sndSyn_agree (.mk _ _ _ _ _ _ _ hrb hwb)))

theorem forceClose_agree : s.forceClose.Refines t.forceClose := by
  cases h with
  | mk _ _ _ _ _ _ _ hrb hwb => exact .mk _ _ _ _ _ _ _ hrb hwb

theorem write_agree (opack : List Byte) : Agree WithAgree (s.write opack) (t.write opack) := by
  cases h with
  | mk _ _ _ _ _ _ _ hrb hwb =>
    refine .ite Iff.rfl (fun _ _ => ⟨rfl, .mk _ _ _ _ _ _ _ hrb hwb⟩) fun _ _ => ?_
    refine .ite (by rw [leftCapacity_agree hwb]) (fun _ _ => ⟨rfl, .mk _ _ _ _ _ _ _ hrb hwb⟩) fun _ _ => ?_
    refine (Mux.write_agree hwb opack).bind ?_
    rintro ⟨n, wb⟩ ⟨_, wq⟩ ⟨rfl, hwb'⟩
    exact require_agree ⟨rfl, .mk _ _ _ _ _ _ _ hrb hwb'⟩

theorem read_agree (max : Nat) :
    Agree (fun x y => x.1 = y.1 ∧ x.2.1 = y.2.1 ∧ x.2.2.Refines y.2.2) (s.read max) (t.read max) := by
  cases h with
  | mk _ _ _ _ _ _ _ hrb hwb =>
    have hcount := count_agree hrb
    refine .ite (by rw [hcount]) (fun _ _ => ⟨rfl, rfl, .mk _ _ _ _ _ _ _ hrb hwb⟩) fun _ _ => ?_
    dsimp only
    rw [hcount]
    refine (Mux.read_agree hrb _).bind ?_
    rintro ⟨n, pack, rb⟩ ⟨_, _, rq⟩ ⟨rfl, rfl, hrb'⟩
    exact ⟨rfl, rfl, .mk _ _ _ _ _ _ _ hrb' hwb⟩

theorem shutRead_agree : s.shutRead.Refines t.shutRead := by
  cases h with
  | mk _ _ _ _ _ _ _ hrb hwb =>
    unfold shutRead
    dsimp only
    rw [count_agree hrb]
    exact .mk _ _ _ _ _ _ _ hrb hwb

theorem shutWrite_agree : Agree Stream.Refines s.shutWrite t.shutWrite := by
  refine (sndFin_agree h).bind fun s t h => ?_
  cases h with
  | mk _ _ _ _ _ _ _ hrb hwb => exact .mk _ _ _ _ _ _ _ hrb hwb

theorem flag_eq : s.flag = t.flag := by
  cases h with
  | mk _ _ _ _ _ _ _ hrb hwb => rfl

theorem closeRead_agree : WithAgree s.closeRead t.closeRead := by
  unfold closeRead
  rw [flag_eq h]
  split_ifs
  · exact ⟨rfl, h⟩
  · exact ⟨rfl, shutRead_agree h⟩

theorem closeWrite_agree : Agree WithAgree s.closeWrite t.closeWrite := by
  unfold closeWrite
  rw [flag_eq h]
  refine .ite Iff.rfl (fun _ _ => ⟨rfl, h⟩) fun _ _ => ?_
  exact (shutWrite_agree h).bind fun s t h => ⟨rfl, h⟩

theorem close_agree : Agree WithAgree s.close t.close := by
  unfold close
  rw [flag_eq h]
  refine .ite Iff.rfl (fun _ _ => ⟨rfl, h⟩) fun _ _ => ?_
  have h' : Stream.Refines (if t.flag.readShutdownCalled = true then s else s.shutRead)
      (if t.flag.readShutdownCalled = true then t else t.shutRead) := by
    split_ifs
    · exact h
    · exact shutRead_agree h
  dsimp only
  rw [flag_eq h']
  exact .ite Iff.rfl (fun _ _ => ⟨rfl, h'⟩) fun _ _ => (shutWrite_agree h').bind fun s t h => ⟨rfl, h⟩

/-! ### `_flush` -/

omit h in
theorem copyAll_agree {x : RingBuffer × RingBuffer} {y : BoundedQueue Byte × BoundedQueue Byte} (h₁ : x.1.Refines y.1) (h₂ : x.2.Refines y.2) :
    Agree (fun x y => x.1.Refines y.1 ∧ x.2.Refines y.2) (copyAll x) (copyAll y) := by
  unfold copyAll
  refine Agree.loopWhile (R := fun (x : RingBuffer × RingBuffer) (y : _ × _) => x.1.Refines y.1 ∧ x.2.Refines y.2) ?_ ?_ _ ⟨h₁, h₂⟩
  · intro x y hxy
    rw [count_agree hxy.1]
  · rintro ⟨wb, sb⟩ ⟨wq, sq⟩ ⟨h₁, h₂⟩
    refine (Mux.read_agree h₁ _).bind ?_
    rintro ⟨n, tmp, wb⟩ ⟨_, _, wq⟩ ⟨rfl, rfl, h₁⟩
    refine (Mux.write_agree h₂ _).bind ?_
    rintro ⟨n, sb⟩ ⟨_, sq⟩ ⟨rfl, h₂⟩
    exact ⟨h₁, h₂⟩

theorem determine_agree (cfg : SocketBufferCfg) : Agree Stream.Refines (s.determine cfg) (t.determine cfg) := by
  cases h with
  | mk _ _ _ _ _ _ _ hrb hwb =>
    unfold determine
    dsimp only
    refine .ite Iff.rfl (fun _ _ => .mk _ _ _ _ _ _ _ hrb hwb) fun _ _ => ?_
    have hsmall : subU32 cfg.sndSize 1024 < 2 ^ 31 := by
      have h₁ := cfg.le_max
      have h₂ := cfg.min_le
      unfold subU32 sockSndMaxSize sockSndMinSize at *
      omega
    rw [capacity_agree hwb]
    refine .ite Iff.rfl (fun _ _ => ?_) fun _ _ => .mk _ _ _ _ _ _ _ hrb hwb
    refine (new_agree (by omega)).bind fun sb sq hsb => ?_
    refine (copyAll_agree (x := (_, _)) (y := (_, _)) hwb hsb).bind ?_
    rintro ⟨wb, sb⟩ ⟨wq, sq⟩ ⟨hwb', hsb'⟩
    dsimp only
    rw [count_agree hwb']
    exact require_agree (.mk _ _ _ _ _ _ _ hrb hsb')

/-- The same round of the sending loop -/
inductive SendingAgree : Sending RingBuffer → Sending (BoundedQueue Byte) → Prop
  | mk {s : Stream RingBuffer} {t : QueueStream} (h : s.Refines t) (so : So) (flushed : Nat) (ecO : Int) :
      SendingAgree ⟨s, so, flushed, ecO⟩ ⟨t, so, flushed, ecO⟩

omit h in
theorem sendDataRound_agree {x : Sending RingBuffer} {y : Sending (BoundedQueue Byte)} (h : SendingAgree x y) :
    Agree SendingAgree (sendDataRound x) (sendDataRound y) := by
  obtain ⟨h, so, flushed, ecO⟩ := h
  cases h with
  | mk _ _ _ _ _ wbWnd _ hrb hwb =>
    unfold sendDataRound
    dsimp only
    refine (peek_agree hwb _).bind ?_
    rintro ⟨n, opack, wb'⟩ ⟨_, _, wq'⟩ ⟨rfl, rfl, -⟩
    refine require_agree ?_
    refine .ite Iff.rfl (fun _ _ => .mk (.mk _ _ _ _ _ _ _ hrb hwb) _ _ _) fun _ _ => ?_
    refine (skip_agree hwb n).bind fun wb wq hwb' => ?_
    exact require_agree (.mk (.mk _ _ _ _ _ _ _ hrb hwb') _ _ _)

/-- The same socket, code and flag, and streams that agree -/
def FlushAgree (x : Stream RingBuffer × So × Int × WriteFlag) (y : QueueStream × So × Int × WriteFlag) : Prop :=
  x.1.Refines y.1 ∧ x.2 = y.2

theorem sendData_agree (so : So) : Agree FlushAgree (s.sendData so) (t.sendData so) := by
  unfold sendData
  refine (Agree.loopWhile (R := SendingAgree) ?_ (fun _ _ => sendDataRound_agree) _ (.mk h so 0 ok)).bind ?_
  · intro x y h
    have hs : Ring.count x.s.wb = Ring.count y.s.wb ∧ x.s.wbWnd = y.s.wbWnd ∧ x.ecO = y.ecO ∧ x.flushed = y.flushed := by
      obtain ⟨h, so, flushed, ecO⟩ := h
      cases h with
      | mk _ _ _ _ _ _ _ hrb hwb => exact ⟨count_agree hwb, rfl, rfl, rfl⟩
    rw [hs.1, hs.2.1, hs.2.2.1, hs.2.2.2]
  · rintro _ _ ⟨h, so, flushed, ecO⟩
    cases h with
    | mk _ _ _ _ _ _ _ hrb hwb =>
      exact .ite Iff.rfl (fun _ _ => ⟨.mk _ _ _ _ _ _ _ hrb hwb, rfl⟩) fun _ _ => ⟨.mk _ _ _ _ _ _ _ hrb hwb, rfl⟩

theorem sendSyn_agree (so : So) : Agree FlushAgree (s.sendSyn so) (t.sendSyn so) := by
  cases h with
  | mk _ _ _ _ _ _ _ hrb hwb =>
    refine .ite Iff.rfl (fun _ _ => ?_) fun _ _ => sendData_agree (.mk _ _ _ _ _ _ _ hrb hwb) so
    exact .ite Iff.rfl (fun _ _ => ⟨.mk _ _ _ _ _ _ _ hrb hwb, rfl⟩) fun _ _ => sendData_agree (.mk _ _ _ _ _ _ _ hrb hwb) _

theorem sendFin_agree (so : So) : FlushAgree (s.sendFin so) (t.sendFin so) := by
  cases h with
  | mk _ _ _ _ _ _ _ hrb hwb =>
    unfold sendFin
    dsimp only
    split_ifs <;> exact ⟨.mk _ _ _ _ _ _ _ hrb hwb, rfl⟩

theorem flushWrite_agree (so : So) : Agree FlushAgree (s.flushWrite so) (t.flushWrite so) := by
  have hall := h
  cases h with
  | mk _ _ _ _ _ _ _ hrb hwb =>
    refine .ite Iff.rfl (fun _ _ => ⟨.mk _ _ _ _ _ _ _ hrb hwb, rfl⟩) fun _ _ => ?_
    refine .ite Iff.rfl (fun _ _ => ⟨hall, rfl⟩) fun _ _ => ?_
    refine .ite (by rw [count_agree hwb]) (fun _ _ => sendFin_agree hall so) fun _ _ => ?_
    exact (determine_agree hall so.cfg).bind fun s t h => sendSyn_agree h so

theorem flush_agree (so : So) : Agree FlushAgree (s.flush so) (t.flush so) := by
  have hall := h
  cases h with
  | mk _ _ _ _ _ _ _ hrb hwb =>
    refine .ite Iff.rfl (fun _ _ => ?_) fun _ _ => flushWrite_agree hall so
    exact .ite Iff.rfl (fun _ _ => ⟨hall, rfl⟩) fun _ _ => flushWrite_agree (.mk _ _ _ _ _ _ _ hrb hwb) _

def UpdateAgree (x : Stream RingBuffer × So × WriteFlag) (y : QueueStream × So × WriteFlag) : Prop := x.1.Refines y.1 ∧ x.2 = y.2

theorem update_agree (so : So) : Agree UpdateAgree (s.update so) (t.update so) := by
  have hall := h
  cases h with
  | mk ctx state _ _ _ _ _ hrb hwb =>
    cases state with
    | established =>
      refine (flush_agree hall so).bind ?_
      rintro ⟨s, x⟩ ⟨t, y⟩ ⟨h, rfl⟩
      refine .ite Iff.rfl (fun _ _ => ⟨h, rfl⟩) fun _ _ => ?_
      exact .ite Iff.rfl (fun _ _ => ⟨h, rfl⟩) fun _ _ => ⟨forceClose_agree h, rfl⟩
    | closed => exact .ite Iff.rfl (fun _ _ => ⟨.mk _ _ _ _ _ _ _ hrb hwb, rfl⟩) fun _ _ => ⟨hall, rfl⟩
    | recycle => exact ⟨hall, rfl⟩

theorem tick_agree (connected : Bool) (so : So) : Agree UpdateAgree (s.tick connected so) (t.tick connected so) := by
  cases connected with
  | true => exact update_agree h so
  | false => exact update_agree (forceClose_agree h) so

theorem onEvent_agree (inpack : Frame) :
    Agree (fun x y => x.1.Refines y.1 ∧ x.2 = y.2) (s.onEvent inpack) (t.onEvent inpack) := by
  have hall := h
  cases h with
  | mk _ _ _ _ _ _ _ hrb hwb =>
    cases inpack with
    | syn => exact ⟨hall, rfl⟩
    | data inpack =>
      refine .ite Iff.rfl (fun _ _ => ⟨hall, rfl⟩) fun _ _ => ?_
      dsimp only
      rw [leftCapacity_agree hrb]
      refine require_agree ((Mux.write_agree hrb inpack).bind ?_)
      rintro ⟨n, rb⟩ ⟨_, rq⟩ ⟨-, hrb'⟩
      exact ⟨.mk _ _ _ _ _ _ _ hrb' hwb, rfl⟩
    | uwnd incre => exact ⟨.mk _ _ _ _ _ _ _ hrb hwb, rfl⟩
    | rst => exact ⟨forceClose_agree hall, rfl⟩
    | fin => exact require_agree ⟨hall, rfl⟩

end Stream.Refines

/-! ### Lives of streams -/

theorem streamOpen_agree (id : Nat) (ctx : Bool) : Agree Stream.Refines (streamOpen id ctx : Except ByteFault (Stream RingBuffer)) (streamOpen id ctx) :=
  Stream.Refines.init_agree.bind fun _ _ h => h.openWith_agree id ctx

theorem streamAccept_agree (id : Nat) (ctx : Bool) :
    Agree Stream.Refines (streamAccept id ctx : Except ByteFault (Stream RingBuffer)) (streamAccept id ctx) := by
  refine Stream.Refines.init_agree.bind fun s t h => ?_
  cases h with
  | mk _ _ _ _ _ _ _ hrb hwb => exact .mk _ _ _ _ _ _ _ hrb hwb

/-- The same frames, bytes and reply, and streams that agree -/
inductive Outcome.Refines : Outcome RingBuffer → Outcome (BoundedQueue Byte) → Prop
  | mk {s : Stream RingBuffer} {t : QueueStream} (h : s.Refines t) (sent : List Frame) (accepted : List Byte) (rst : Bool) :
      Outcome.Refines ⟨s, sent, accepted, rst⟩ ⟨t, sent, accepted, rst⟩

theorem call_agree {s : Stream RingBuffer} {t : QueueStream} (h : s.Refines t) (c : StreamCall) :
    Agree Outcome.Refines (s.call c) (t.call c) := by
  cases c with
  | write opack =>
    refine (h.write_agree opack).bind ?_
    rintro ⟨ec, s⟩ ⟨_, t⟩ ⟨rfl, h⟩
    exact .mk h _ _ _
  | read max =>
    refine (h.read_agree max).bind ?_
    rintro ⟨n, pack, s⟩ ⟨_, _, t⟩ ⟨-, -, h⟩
    exact .mk h _ _ _
  | closeRead => exact .mk h.closeRead_agree.2 _ _ _
  | closeWrite => exact h.closeWrite_agree.bind fun _ _ h => .mk h.2 _ _ _
  | close => exact h.close_agree.bind fun _ _ h => .mk h.2 _ _ _
  | tick connected cfg codes =>
    refine (h.tick_agree connected _).bind ?_
    rintro ⟨s, x⟩ ⟨t, y⟩ ⟨h, rfl⟩
    exact .mk h _ _ _
  | arrive inpack =>
    refine (h.onEvent_agree inpack).bind ?_
    rintro ⟨s, rst⟩ ⟨t, _⟩ ⟨h, rfl⟩
    exact .mk h _ _ _

inductive Life.Refines : Life RingBuffer → Life (BoundedQueue Byte) → Prop
  | mk {s : Stream RingBuffer} {t : QueueStream} (h : s.Refines t) (sent : List Frame) (accepted : List Byte) :
      Life.Refines ⟨s, sent, accepted⟩ ⟨t, sent, accepted⟩

theorem live_agree (c : StreamCall) (l : Life RingBuffer) (k : Life (BoundedQueue Byte)) (h : l.Refines k) :
    Agree Life.Refines (live c l) (live c k) := by
  obtain ⟨h, sent, accepted⟩ := h
  refine (call_agree h c).bind ?_
  rintro _ _ ⟨h, sent', accepted', rst⟩
  exact .mk h _ _

end Wawo.Mux
