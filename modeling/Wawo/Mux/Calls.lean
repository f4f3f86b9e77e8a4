import Wawo.Mux.Queue

/-!
# What the calls of a stream do

`Act` lists what can happen to a stream over queues, one change at a time. A tick is a sequence of such
changes and never fails (`tick_acts`); it sends at most one `T_DATA`, because the first one takes all that
`wb`, the window or the bound of one `_flush` lets it (`sendData_eq`). Every other call is a change or two
(`live_acts`). The invariants of the later modules are invariants of `Act`.
-/

namespace Wawo.Mux

open Lts Relation

-- so that nothing evaluates the conditions they stand in
attribute [local irreducible] minRingBufferSize subU32

abbrev QueueLife := Life (BoundedQueue Byte)

/-- A socket with the smallest send buffer -/
def smallCfg : SocketBufferCfg := ⟨sockSndMinSize, sockSndMinSize_le, Nat.le_refl _⟩

/-- What becomes of `wb` when the size of its buffer is determined -/
def resized (cfg : SocketBufferCfg) (q : BoundedQueue Byte) : BoundedQueue Byte where
  capacity := min (subU32 cfg.sndSize 1024) q.capacity
  items := q.items.take (min (subU32 cfg.sndSize 1024) q.capacity)
  length_le := List.length_take_le _ _

/-- What is known of the changes -/
structure Mode where
  cfg : SocketBufferCfg -- what the socket accepts
  lim : Nat -- the most that `wb` holds when the size of its buffer is determined
  bare : Prop -- whether another frame may go out before the `T_SYN`
  arrives : Prop -- whether frames come in

/-- One change of a stream -/
inductive Act (m : Mode) (l : QueueLife) : QueueLife → Prop
  -- the user
  | write (opack : List Byte) (ho : l.s.flag.writeShutdownCalled = false) (hw : l.s.flag.writeShutdown = false)
      (hfit : opack.length ≤ l.s.wb.leftCapacity) :
      Act m l { l with s := { l.s with wb := l.s.wb.write opack }, accepted := l.accepted ++ opack }
  | setBlocked (blocked : Bool) : Act m l { l with s := { l.s with writeBlocked := blocked } }
  | read (n : Nat) (hn : n ≤ l.s.rb.count) :
      Act m l { l with s := { l.s with rb := l.s.rb.skip n, rbIncre := u32 (l.s.rbIncre + n) } }
  | shutRead : Act m l { l with s := l.s.shutRead }
  | shutWrite (hs : l.s.state = .established) (hc : l.s.flag.writeShutdownCalled = false) :
      Act m l { l with s := { l.s with flag := { l.s.flag with planFin := true, writeShutdownCalled := true } } }
  -- the peer
  | take (inpack : List Byte) (harr : m.arrives) (hr : l.s.flag.readShutdown = false) (hfit : inpack.length ≤ l.s.rb.leftCapacity) :
      Act m l { l with s := { l.s with rb := l.s.rb.write inpack } }
  | gain (incre : Nat) (harr : m.arrives) : Act m l { l with s := { l.s with wbWnd := min muxStreamWndSize (u32 (l.s.wbWnd + incre)) } }
  | forceClose : Act m l { l with s := l.s.forceClose }
  | recycle (hs : l.s.state = .closed) (hr : l.s.flag.readShutdown = true) (hw : l.s.flag.writeShutdown = true) :
      Act m l { l with s := { l.s with state := .recycle } }
  -- `_flush`
  | credit (h : 0 < l.s.rbIncre) (hbare : l.s.flag.planSyn = true → m.bare) :
      Act m l { l with s := { l.s with rbIncre := 0 }, sent := l.sent ++ [.uwnd l.s.rbIncre] }
  | closed (hr : l.s.flag.readShutdown = true) (hw : l.s.flag.writeShutdown = true) : Act m l { l with s := { l.s with state := .closed } }
  | fin (hw : l.s.flag.writeShutdown = false) (hb : l.s.wb.count = 0) (hp : l.s.flag.planFin = true)
      (hbare : l.s.flag.planSyn = true → m.bare) :
      Act m l { l with s := { l.s with flag := { l.s.flag with planFin := false, writeShutdown := true } }, sent := l.sent ++ [.fin] }
  | determine (hb : 0 < l.s.wb.count) (hd : l.s.flag.bufferDetermined = false) (hlim : l.s.wb.count ≤ m.lim) :
      Act m l { l with s := { l.s with flag := { l.s.flag with bufferDetermined := true }, wb := resized m.cfg l.s.wb } }
  | syn (hw : l.s.flag.writeShutdown = false) (hp : l.s.flag.planSyn = true) :
      Act m l { l with s := { l.s with flag := { l.s.flag with planSyn := false } }, sent := l.sent ++ [.syn] }
  | data (n : Nat) (hw : l.s.flag.writeShutdown = false) (hp : l.s.flag.planSyn = false) (hn : n ≤ l.s.wbWnd) (hc : n ≤ l.s.wb.count) :
      Act m l { l with s := { l.s with wb := l.s.wb.skip n, wbWnd := l.s.wbWnd - n }, sent := l.sent ++ [.data (l.s.wb.front n)] }

/-- The sizes of the buffers: that of `wb` is the window until it is determined. -/
structure Sized (s : QueueStream) : Prop where
  rb_eq : s.rb.capacity = muxStreamWndSize
  wb_le : s.wb.capacity ≤ muxStreamWndSize
  wb_eq : s.flag.bufferDetermined = false → s.wb.capacity = muxStreamWndSize

section

variable {m : Mode} {cfg : SocketBufferCfg} {l l' : QueueLife} {s : QueueStream} {so : So}

theorem Sized.act (h : Sized l.s) (ha : Act m l l') : Sized l'.s := by
  cases ha with
  | determine => exact ⟨h.rb_eq, Nat.le_trans (Nat.min_le_right _ _) h.wb_le, nofun⟩
  | _ => exact ⟨h.rb_eq, h.wb_le, h.wb_eq⟩

theorem sendPacket_sent (so : So) (f : Frame) :
    (so.sendPacket f).2.sent = (if (so.sendPacket f).1 = ok then so.sent ++ [f] else so.sent) ∧ (so.sendPacket f).2.cfg = so.cfg := by
  unfold So.sendPacket
  have hblock : eSocketSendBlock ≠ ok := by decide
  cases so.codes with
  | nil => exact ⟨(if_neg hblock).symm, rfl⟩
  | cons ec codes => exact ⟨rfl, rfl⟩

theorem sent_of_ok {f : Frame} (h : (so.sendPacket f).1 = ok) : (so.sendPacket f).2.sent = so.sent ++ [f] := by
  rw [(sendPacket_sent so f).1, if_pos h]

theorem sent_of_not_ok {f : Frame} (h : (so.sendPacket f).1 ≠ ok) : (so.sendPacket f).2.sent = so.sent := by
  rw [(sendPacket_sent so f).1, if_neg h]

theorem sendPacket_ok {f : Frame} (h : (so.sendPacket f).1 = ok) : so.codes.head? = some ok := by
  unfold So.sendPacket at h
  cases hc : so.codes with
  | nil =>
    rw [hc] at h
    exact absurd h (show eSocketSendBlock ≠ ok by decide)
  | cons ec codes =>
    rw [hc] at h
    exact congrArg some h

/-! ### The loops of `_flush` -/

/-- What has gone over to the new buffer, as far as there was room -/
structure Copied (q : BoundedQueue Byte) (size : Nat) (rings : BoundedQueue Byte × BoundedQueue Byte) : Prop where
  capacity_eq : rings.2.capacity = size
  items_eq : ∃ gone, q.items = gone ++ rings.1.items ∧ rings.2.items = gone.take size

/-- The bytes of `wb` go over as far as the new buffer has room. -/
theorem copyAll_eq {q : BoundedQueue Byte} (size : Nat) (hq : q.count ≤ muxStreamWndSize) :
    ∃ wb, Stream.copyAll (q, BoundedQueue.empty size) = .ok (wb, ⟨size, q.items.take size, List.length_take_le _ _⟩) ∧ wb.count = 0 := by
  have hround : ∀ rings, Copied q size rings → decide (Ring.count rings.1 ≠ 0) = true →
      Ensures (fun rings' => Copied q size rings' ∧ rings'.1.count < rings.1.count) (fun _ => False) (do
        let (nbytes, tmp, wb) ← Ring.read rings.1 Stream.copySize
        let (_, sbNew) ← Ring.write rings.2 (tmp.take nbytes)
        return (wb, sbNew) : Except ByteFault (BoundedQueue Byte × BoundedQueue Byte)) := by
    rintro ⟨wb, sb⟩ ⟨hcap, gone, hitems, hsb⟩ hne
    have hne : wb.count ≠ 0 := of_decide_eq_true hne
    have hpos : 0 < Stream.copySize := by decide
    have hlen : (wb.front Stream.copySize).length = min Stream.copySize wb.count := List.length_take
    have hwrite : Ring.write sb ((wb.front Stream.copySize).take (min Stream.copySize wb.count)) =
        .ok (min (wb.front Stream.copySize).length sb.leftCapacity, sb.write (wb.front Stream.copySize)) := by
      rw [List.take_of_length_le (Nat.le_of_eq hlen)]
      show (require _ _ >>= _) = _
      rw [require_eq (by omega)]
      rfl
    show Ensures _ _ (Ring.write sb ((wb.front Stream.copySize).take (min Stream.copySize wb.count)) >>= _)
    rw [hwrite]
    refine ⟨⟨hcap, gone ++ wb.front Stream.copySize, ?_, ?_⟩, ?_⟩
    · show q.items = _ ++ (wb.skip Stream.copySize).items
      rw [hitems, List.append_assoc, BoundedQueue.front_append_items_skip]
    · show (sb.write (wb.front Stream.copySize)).items = _
      dsimp only at hcap hsb
      rw [BoundedQueue.items_write, BoundedQueue.leftCapacity, BoundedQueue.count, hsb, hcap, List.take_append, List.length_take]
      congr 2
      omega
    · show (wb.skip Stream.copySize).count < wb.count
      rw [BoundedQueue.count_skip]
      omega
  have hloop := @loopWhile_ensures _ _ _ _ ByteFault.loop (muxStreamWndSize + 1) (q, BoundedQueue.empty size) _ _
    (fun rings : BoundedQueue Byte × BoundedQueue Byte => rings.1.count) hround ⟨rfl, [], rfl, List.take_nil.symm⟩ (Nat.lt_succ_of_le hq)
  obtain ⟨⟨wb, sb⟩, heq, ⟨hcap, gone, hitems, hsb⟩, hend⟩ := hloop.exists_ok
  have hend : wb.count = 0 := not_not.1 (of_decide_eq_false hend)
  have hgone : q.items = gone := by rw [hitems, (BoundedQueue.count_eq_zero wb).1 hend, List.append_nil]
  refine ⟨wb, heq.trans ?_, hend⟩
  obtain ⟨capacity, items, hle⟩ := sb
  have hcap : capacity = size := hcap
  have hsb : items = gone.take size := hsb
  subst hcap hsb hgone
  rfl

/-- The largest buffer that the socket lets `wb` have -/
def SocketBufferCfg.room (cfg : SocketBufferCfg) : Nat := cfg.sndSize - 1024

theorem trySize_eq (cfg : SocketBufferCfg) : subU32 cfg.sndSize 1024 = cfg.room := by
  have hmin := cfg.min_le
  have hmax := cfg.le_max
  unfold SocketBufferCfg.room subU32 sockSndMinSize sockSndMaxSize at *
  omega

theorem resized_range (cfg : SocketBufferCfg) {q : BoundedQueue Byte} (hq : q.capacity = muxStreamWndSize) :
    minRingBufferSize ≤ (resized cfg q).capacity ∧ (resized cfg q).capacity ≤ maxRingBufferSize := by
  have hmin := cfg.min_le
  show minRingBufferSize ≤ min (subU32 cfg.sndSize 1024) q.capacity ∧ min (subU32 cfg.sndSize 1024) q.capacity ≤ maxRingBufferSize
  rw [trySize_eq, hq]
  unfold SocketBufferCfg.room sockSndMinSize minRingBufferSize maxRingBufferSize muxStreamWndSize at *
  omega

theorem resized_of_eq {q : BoundedQueue Byte} (h : min (subU32 cfg.sndSize 1024) q.capacity = q.capacity) : resized cfg q = q := by
  unfold resized
  obtain ⟨capacity, items, hle⟩ := q
  dsimp only at h ⊢
  congr 1
  rw [h, List.take_of_length_le hle]

/-- The change that `_flush` makes of `wb` before it sends -/
def determined (cfg : SocketBufferCfg) (s : QueueStream) : QueueStream :=
  if s.flag.bufferDetermined = true then s
  else { s with flag := { s.flag with bufferDetermined := true }, wb := resized cfg s.wb }

theorem determine_eq (hs : Sized s) : s.determine cfg = .ok (determined cfg s) := by
  unfold Stream.determine determined
  split_ifs with hd
  · rfl
  have hq := hs.wb_eq (Bool.eq_false_iff.2 hd)
  obtain ⟨wb, hcopy, hwb⟩ := copyAll_eq (min (subU32 cfg.sndSize 1024) s.wb.capacity)
    (Nat.le_trans s.wb.length_le hs.wb_le)
  have hnew : (Ring.new (min (subU32 cfg.sndSize 1024) s.wb.capacity) : Except ByteFault (BoundedQueue Byte)) = .ok (.empty _) :=
    queue_new_eq (resized_range cfg hq)
  have hcapacity : Ring.capacity s.wb = s.wb.capacity := rfl
  have hempty : Ring.count wb = 0 := hwb
  dsimp only
  rw [hcapacity]
  split_ifs with hsize
  · rw [hnew, ok_bind, hcopy, ok_bind]
    dsimp only
    rw [require_eq hempty]
    rfl
  · rw [resized_of_eq (not_not.1 hsize)]
    rfl

theorem front_min (q : BoundedQueue Byte) (n : Nat) : q.front (min n q.count) = q.front n := by
  unfold BoundedQueue.front BoundedQueue.count
  rcases Nat.le_total n q.items.length with h | h
  · rw [Nat.min_eq_left h]
  · rw [Nat.min_eq_right h, List.take_length, List.take_of_length_le h]

/-- How much one `_flush` sends -/
def sendable (s : QueueStream) : Nat := min (min muxStreamWndSize s.wbWnd) s.wb.count

/-- One `T_DATA` of a stream -/
def dataSent (s : QueueStream) : QueueStream := { s with wb := s.wb.skip (sendable s), wbWnd := s.wbWnd - sendable s }

/-- The first round of the loop that sends -/
theorem sendDataRound_eq (hc : s.wb.count ≠ 0) (hw : s.wbWnd > 0) :
    Stream.sendDataRound ⟨s, so, 0, ok⟩ =
      if (so.sendPacket (.data (s.wb.front (sendable s)))).1 ≠ ok then
        .ok ⟨s, (so.sendPacket (.data (s.wb.front (sendable s)))).2, 0, (so.sendPacket (.data (s.wb.front (sendable s)))).1⟩
      else .ok ⟨dataSent s, (so.sendPacket (.data (s.wb.front (sendable s)))).2, sendable s, ok⟩ := by
  have hmax : 0 < muxStreamWndSize := by decide
  have hcan : (if muxStreamWndSize - 0 > s.wbWnd then s.wbWnd else muxStreamWndSize - 0) = min muxStreamWndSize s.wbWnd := by
    split_ifs <;> omega
  have hn : min (min muxStreamWndSize s.wbWnd) s.wb.count = sendable s := rfl
  have hpos : 0 < sendable s ∧ sendable s ≤ min muxStreamWndSize s.wbWnd := by
    unfold sendable
    omega
  have hpeek : Ring.peek s.wb (min muxStreamWndSize s.wbWnd) = .ok (sendable s, s.wb.front (sendable s), s.wb) := by
    show Except.ok (_, s.wb.front _, _) = _
    rw [hn, ← front_min, hn]
  have hskip : Ring.skip s.wb (sendable s) = .ok (s.wb.skip (sendable s)) := by
    show (require (sendable s ≤ s.wb.count) _ >>= _) = _
    rw [require_eq (show sendable s ≤ s.wb.count from Nat.min_le_right _ _)]
    rfl
  unfold Stream.sendDataRound
  dsimp only
  rw [hcan, hpeek, ok_bind]
  dsimp only
  rw [require_eq hpos, ok_bind]
  split_ifs with hec
  · rfl
  · rw [hskip, ok_bind, require_eq (show s.wbWnd ≥ sendable s by omega), ok_bind, Nat.zero_add]
    rfl

/-- The loop that sends has one round at most. -/
theorem sendData_eq (s : QueueStream) (so : So) :
    s.sendData so =
      if s.wb.count ≠ 0 ∧ s.wbWnd > 0 then
        if (so.sendPacket (.data (s.wb.front (sendable s)))).1 ≠ ok then
          .ok (s, (so.sendPacket (.data (s.wb.front (sendable s)))).2, (so.sendPacket (.data (s.wb.front (sendable s)))).1, {})
        else .ok ({ dataSent s with writeBlocked := false }, (so.sendPacket (.data (s.wb.front (sendable s)))).2, ok,
          { blocked := s.writeBlocked, unblocked := s.writeBlocked })
      else .ok (s, so, ok, {}) := by
  have hmax : 0 < muxStreamWndSize := by decide
  unfold Stream.sendData
  generalize hmore : (fun l : Stream.Sending (BoundedQueue Byte) =>
    decide (l.ecO = ok ∧ Ring.count l.s.wb ≠ 0 ∧ l.flushed < muxStreamWndSize ∧ l.s.wbWnd > 0)) = more
  have hstop : ∀ l : Stream.Sending (BoundedQueue Byte),
      ¬ (l.ecO = ok ∧ Ring.count l.s.wb ≠ 0 ∧ l.flushed < muxStreamWndSize ∧ l.s.wbWnd > 0) → more l = false :=
    fun l hl => hmore ▸ decide_eq_false hl
  split_ifs with h hec
  · have hgo : more ⟨s, so, 0, ok⟩ = true := hmore ▸ decide_eq_true ⟨rfl, h.1, hmax, h.2⟩
    rw [loopWhile_next hgo ((sendDataRound_eq h.1 h.2).trans (if_pos hec)), loopWhile_done (hstop _ fun hcond => hec hcond.1)]
    rfl
  · have hgo : more ⟨s, so, 0, ok⟩ = true := hmore ▸ decide_eq_true ⟨rfl, h.1, hmax, h.2⟩
    have hpos : sendable s > 0 := by
      unfold sendable
      omega
    -- what is left is 0: the bytes, the bound or the window
    have hend : more ⟨dataSent s, (so.sendPacket (.data (s.wb.front (sendable s)))).2, sendable s, ok⟩ = false := by
      refine hstop _ ?_
      rintro ⟨-, hc, hlt, hw⟩
      have hc : (s.wb.skip (sendable s)).count ≠ 0 := hc
      have hlt : sendable s < muxStreamWndSize := hlt
      have hw : s.wbWnd - sendable s > 0 := hw
      rw [BoundedQueue.count_skip] at hc
      unfold sendable at hc hlt hw
      omega
    rw [loopWhile_next hgo ((sendDataRound_eq h.1 h.2).trans (if_neg hec)), loopWhile_done hend, ok_bind]
    dsimp only
    cases hb : s.writeBlocked with
    | true =>
      rw [if_pos ⟨hpos, hb⟩]
      rfl
    | false =>
      rw [if_neg fun hblocked => Bool.eq_false_iff.1 hb hblocked.2, ← hb]
      rfl
  · rw [loopWhile_done (hstop _ fun hcond => h ⟨hcond.2.1, hcond.2.2.2⟩)]
    rfl

/-! ### A tick -/

/-- A tick gets to where the size of the buffer of `wb` is determined. -/
def Determines {ρ : Type} (s : Stream ρ) : StreamCall → Prop
  | .tick connected _ codes =>
    connected = true ∧ s.state = .established ∧ s.flag.bufferDetermined = false ∧ s.flag.writeShutdown = false ∧
      (s.rbIncre = 0 ∨ codes.head? = some ok)
  | _ => False

/-- A tick sends a `T_UWND` or a `T_FIN` while the `T_SYN` is still planned. -/
def SendsBare {ρ : Type} [Ring ρ] (s : Stream ρ) : StreamCall → Prop
  | .tick connected _ codes =>
    connected = true ∧ s.state = .established ∧ s.flag.planSyn = true ∧ codes.head? = some ok ∧
      (0 < s.rbIncre ∨ s.flag.writeShutdown = false ∧ Ring.count s.wb = 0 ∧ s.flag.planFin = true)
  | _ => False

instance (s : QueueStream) (c : StreamCall) : Decidable (Determines s c) := by
  unfold Determines
  split <;> infer_instance

instance (s : QueueStream) (c : StreamCall) : Decidable (SendsBare s c) := by
  unfold SendsBare
  split <;> infer_instance

/-- What is known of a call -/
structure Mode.Allows (m : Mode) (s : QueueStream) (c : StreamCall) : Prop where
  cfg_eq : ∀ connected cfg codes, c = .tick connected cfg codes → cfg = m.cfg
  count_le : Determines s c → s.wb.count ≤ m.lim
  bare : SendsBare s c → m.bare
  arrives : ∀ inpack, c = .arrive inpack → m.arrives

/-- What the socket accepts in a tick -/
def StreamCall.bufferCfg : StreamCall → SocketBufferCfg
  | .tick _ cfg _ => cfg
  | _ => ⟨sockSndMinSize, sockSndMinSize_le, Nat.le_refl _⟩

theorem Mode.allows {c : StreamCall} {lim : Nat} {bare : Prop} (hlim : Determines s c → s.wb.count ≤ lim) (hbare : SendsBare s c → bare) :
    Mode.Allows ⟨c.bufferCfg, lim, bare, ∃ inpack, c = .arrive inpack⟩ s c :=
  ⟨fun _ _ _ hc => hc ▸ rfl, hlim, hbare, fun inpack hc => ⟨inpack, hc⟩⟩

/-- The life of a stream after a tick that has sent what `so` has taken -/
def lifeAfter {α : Type} (sent : List Frame) (accepted : List Byte) (x : QueueStream × So × α) : QueueLife :=
  ⟨x.1, sent ++ x.2.1.sent, accepted⟩

/-- The computation is a sequence of changes, and it does not fail. -/
abbrev Acts {α : Type} (m : Mode) (sent : List Frame) (accepted : List Byte) (s : QueueStream) (so : So)
    (x : Except ByteFault (QueueStream × So × α)) : Prop :=
  Simulates (Act m) (fun _ _ => False) (lifeAfter sent accepted) ⟨s, sent ++ so.sent, accepted⟩ x

section

variable {sent : List Frame} {accepted : List Byte}

theorem Act.send {s' : QueueStream} {f : Frame} (h : Act m ⟨s, sent ++ so.sent, accepted⟩ ⟨s', sent ++ so.sent ++ [f], accepted⟩)
    (hec : (so.sendPacket f).1 = ok) : Act m ⟨s, sent ++ so.sent, accepted⟩ ⟨s', sent ++ (so.sendPacket f).2.sent, accepted⟩ := by
  rw [sent_of_ok hec, ← List.append_assoc]
  exact h

/-- What is not sent changes nothing. -/
theorem Acts.blocked {α : Type} {f : Frame} (hec : (so.sendPacket f).1 ≠ ok) (x : α) :
    ReflTransGen (Act m) ⟨s, sent ++ so.sent, accepted⟩ (lifeAfter sent accepted (s, (so.sendPacket f).2, x)) := by
  unfold lifeAfter
  dsimp only
  rw [sent_of_not_ok hec]

theorem sendData_acts (hw : s.flag.writeShutdown = false) (hp : s.flag.planSyn = false) : Acts m sent accepted s so (s.sendData so) := by
  rw [sendData_eq]
  split_ifs with h hec
  · exact Acts.blocked hec _
  · have hdata : Act m ⟨s, sent ++ so.sent, accepted⟩ ⟨dataSent s, sent ++ (so.sendPacket (.data (s.wb.front (sendable s)))).2.sent, accepted⟩ := by
      refine Act.send (.data (sendable s) hw hp ?_ (Nat.min_le_right _ _)) (not_not.1 hec)
      exact Nat.le_trans (Nat.min_le_left _ _) (Nat.min_le_right _ _)
    exact .tail (.single hdata) (.setBlocked false)
  · exact ReflTransGen.refl

theorem sendSyn_acts (hw : s.flag.writeShutdown = false) : Acts m sent accepted s so (s.sendSyn so) := by
  unfold Stream.sendSyn
  dsimp only
  split_ifs with hp hec
  · exact Acts.blocked hec _
  · exact .after (.single (Act.send (.syn hw hp) (not_not.1 hec))) (sendData_acts hw rfl)
  · exact sendData_acts hw (Bool.eq_false_iff.2 hp)

theorem sendFin_acts (hw : s.flag.writeShutdown = false) (hb : s.wb.count = 0)
    (hbare : s.flag.planSyn = true → so.codes.head? = some ok → s.flag.planFin = true → m.bare) :
    ReflTransGen (Act m) ⟨s, sent ++ so.sent, accepted⟩ (lifeAfter sent accepted (s.sendFin so)) := by
  unfold Stream.sendFin
  dsimp only
  split_ifs with hp hec
  · exact .single (Act.send (.fin hw hb hp fun hsyn => hbare hsyn (sendPacket_ok hec) hp) hec)
  · exact Acts.blocked hec _
  · exact .refl

theorem determined_acts (hb : 0 < s.wb.count) (hlim : s.flag.bufferDetermined = false → s.wb.count ≤ m.lim) :
    ReflTransGen (Act m) ⟨s, sent, accepted⟩ ⟨determined m.cfg s, sent, accepted⟩ := by
  unfold determined
  split_ifs with hd
  · exact .refl
  · have hd := Bool.eq_false_iff.2 hd
    exact .single (.determine hb hd (hlim hd))

theorem determined_writeShutdown (s : QueueStream) : (determined cfg s).flag.writeShutdown = s.flag.writeShutdown := by
  unfold determined
  split_ifs <;> rfl

theorem flushWrite_acts (hs : Sized s) (hcfg : so.cfg = m.cfg)
    (hlim : s.flag.writeShutdown = false → s.flag.bufferDetermined = false → s.wb.count ≤ m.lim)
    (hbare : s.flag.planSyn = true → so.codes.head? = some ok → s.flag.writeShutdown = false → s.wb.count = 0 →
      s.flag.planFin = true → m.bare) : Acts m sent accepted s so (s.flushWrite so) := by
  unfold Stream.flushWrite
  split_ifs with hclosed hw hb
  · exact ReflTransGen.single (.closed hclosed.2.2 hclosed.2.1)
  · exact ReflTransGen.refl
  · have hw := Bool.eq_false_iff.2 hw
    exact sendFin_acts hw hb fun hsyn hcode => hbare hsyn hcode hw hb
  · have hw := Bool.eq_false_iff.2 hw
    rw [determine_eq hs, ok_bind, hcfg]
    exact .after (determined_acts (Nat.pos_of_ne_zero hb) (hlim hw)) (sendSyn_acts ((determined_writeShutdown s).trans hw))

theorem flush_acts (hs : Sized s) (hcfg : so.cfg = m.cfg)
    (hlim : s.flag.bufferDetermined = false → s.flag.writeShutdown = false → (s.rbIncre = 0 ∨ so.codes.head? = some ok) →
      s.wb.count ≤ m.lim)
    (hbare : s.flag.planSyn = true → so.codes.head? = some ok →
      (0 < s.rbIncre ∨ s.flag.writeShutdown = false ∧ s.wb.count = 0 ∧ s.flag.planFin = true) → m.bare) :
    Acts m sent accepted s so (s.flush so) := by
  unfold Stream.flush
  dsimp only
  split_ifs with h hec
  · exact Acts.blocked hec _
  · have hcode := sendPacket_ok (not_not.1 hec)
    refine .after (.single (Act.send (.credit h fun hsyn => hbare hsyn hcode (.inl h)) (not_not.1 hec))) ?_
    refine flushWrite_acts ⟨hs.rb_eq, hs.wb_le, hs.wb_eq⟩ ((sendPacket_sent so _).2.trans hcfg) ?_ ?_
    · exact fun hw hd => hlim hd hw (.inr hcode)
    · exact fun hsyn _ _ _ _ => hbare hsyn hcode (.inl h)
  · have h0 : s.rbIncre = 0 := Nat.eq_zero_of_not_pos h
    exact flushWrite_acts hs hcfg (fun hw hd => hlim hd hw (.inl h0)) fun hsyn hcode hw hb hp => hbare hsyn hcode (.inr ⟨hw, hb, hp⟩)

theorem update_acts (hs : Sized s) (ha : m.Allows s (.tick true so.cfg so.codes)) : Acts m sent accepted s so (s.update so) := by
  unfold Stream.update
  split
  · rename_i hest
    refine .bind (flush_acts hs (ha.cfg_eq _ _ _ rfl) ?_ ?_) ?_
    · exact fun hd hw hcode => ha.count_le ⟨rfl, hest, hd, hw, hcode⟩
    · exact fun hsyn hcode h => ha.bare ⟨rfl, hest, hsyn, hcode, h⟩
    rintro ⟨s', so', ecO, wflag⟩ -
    dsimp only
    split_ifs
    · exact ReflTransGen.refl
    · exact ReflTransGen.refl
    · exact ReflTransGen.single .forceClose
  · rename_i hclosed
    split_ifs with hflag
    · exact ReflTransGen.single (.recycle hclosed hflag.1 hflag.2)
    · exact ReflTransGen.refl
  · exact ReflTransGen.refl

theorem tick_acts {connected : Bool} (hs : Sized s) (ha : m.Allows s (.tick connected so.cfg so.codes)) :
    Acts m sent accepted s so (s.tick connected so) := by
  cases connected with
  | true => exact update_acts hs ha
  | false =>
    refine .after (.single .forceClose) (update_acts ⟨hs.rb_eq, hs.wb_le, hs.wb_eq⟩ ⟨?_, ?_, ?_, nofun⟩)
    · rintro _ _ _ ⟨⟩
      exact ha.cfg_eq _ _ _ rfl
    · exact fun h => nomatch h.2.1
    · exact fun h => nomatch h.2.1

end

/-! ### All calls -/

theorem write_cases {opack : List Byte} {ec : Int} {s' : QueueStream} (h : s.write opack = .ok (ec, s')) :
    (ec ≠ ok ∧ (s' = s ∨ s' = { s with writeBlocked := true })) ∨
    (ec = ok ∧ s.flag.writeShutdownCalled = false ∧ s.flag.writeShutdown = false ∧ opack.length ≤ s.wb.leftCapacity ∧
      s' = { s with wb := s.wb.write opack }) := by
  unfold Stream.write at h
  split_ifs at h with hshut hfit
  · cases h
    exact .inl ⟨by decide, .inl rfl⟩
  · cases h
    exact .inl ⟨by decide, .inr rfl⟩
  · obtain ⟨⟨n, wb⟩, hwrite, h⟩ := bind_eq_ok.1 h
    obtain ⟨-, -, hwrite⟩ := bind_eq_ok.1 hwrite
    cases hwrite
    obtain ⟨-, -, h⟩ := bind_eq_ok.1 h
    cases h
    rw [not_or, Bool.not_eq_true, Bool.not_eq_true] at hshut
    exact .inr ⟨rfl, hshut.1, hshut.2, Nat.not_lt.1 hfit, rfl⟩

theorem read_cases {max n : Nat} {pack : List Byte} {s' : QueueStream} (h : s.read max = .ok (n, pack, s')) :
    s' = s ∨ ∃ k ≤ s.rb.count, s' = { s with rb := s.rb.skip k, rbIncre := u32 (s.rbIncre + k) } := by
  have htry : (if max ≠ 0 ∧ Ring.count s.rb > max then max else Ring.count s.rb) ≤ s.rb.count := by
    split_ifs with hmax
    · exact Nat.le_of_lt hmax.2
    · exact Nat.le_refl _
  unfold Stream.read at h
  dsimp only at h
  generalize (if max ≠ 0 ∧ Ring.count s.rb > max then max else Ring.count s.rb) = k at h htry
  split_ifs at h
  · cases h
    exact .inl rfl
  · cases h
    right
    refine ⟨k, htry, ?_⟩
    show { s with rb := s.rb.skip k, rbIncre := u32 (s.rbIncre + min k s.rb.count) } = _
    rw [Nat.min_eq_left htry]

theorem shutWrite_cases {s' : QueueStream} (h : s.shutWrite = .ok s') :
    s.state = .established ∧ s.flag.writeShutdownCalled = false ∧ s' = { s with flag := { s.flag with planFin := true, writeShutdownCalled := true } } := by
  obtain ⟨t, hfin, h⟩ := bind_eq_ok.1 h
  obtain ⟨_, h₁, hfin⟩ := bind_eq_ok.1 hfin
  obtain ⟨_, -, hfin⟩ := bind_eq_ok.1 hfin
  obtain ⟨_, h₃, hfin⟩ := bind_eq_ok.1 hfin
  obtain ⟨_, -, hfin⟩ := bind_eq_ok.1 hfin
  cases hfin
  cases h
  exact ⟨require_eq_ok.1 h₁, require_eq_ok.1 h₃, rfl⟩

theorem onEvent_cases {inpack : Frame} {rst : Bool} {s' : QueueStream} (h : s.onEvent inpack = .ok (s', rst)) :
    s' = s ∨
    (∃ bytes, inpack = .data bytes ∧ s.flag.readShutdown = false ∧ bytes.length ≤ s.rb.leftCapacity ∧ s' = { s with rb := s.rb.write bytes }) ∨
    (∃ incre, inpack = .uwnd incre ∧ s' = { s with wbWnd := min muxStreamWndSize (u32 (s.wbWnd + incre)) }) ∨
    (inpack = .rst ∧ s' = s.forceClose) := by
  cases inpack with
  | syn => cases h; exact .inl rfl
  | data bytes =>
    unfold Stream.onEvent at h
    dsimp only at h
    split_ifs at h with hr
    · cases h
      exact .inl rfl
    · obtain ⟨_, hroom, h⟩ := bind_eq_ok.1 h
      obtain ⟨⟨n, rb⟩, hwrite, h⟩ := bind_eq_ok.1 h
      obtain ⟨-, -, hwrite⟩ := bind_eq_ok.1 hwrite
      cases hwrite
      cases h
      exact .inr (.inl ⟨bytes, rfl, Bool.eq_false_iff.2 hr, require_eq_ok.1 hroom, rfl⟩)
  | uwnd incre => cases h; exact .inr (.inr (.inl ⟨incre, rfl, rfl⟩))
  | rst => cases h; exact .inr (.inr (.inr ⟨rfl, rfl⟩))
  | fin =>
    obtain ⟨_, -, h⟩ := bind_eq_ok.1 h
    cases h
    exact .inl rfl

theorem closeRead_acts (sent : List Frame) (accepted : List Byte) :
    ReflTransGen (Act m) ⟨s, sent, accepted⟩ ⟨s.closeRead.2, sent, accepted⟩ := by
  unfold Stream.closeRead
  split_ifs
  · exact .refl
  · exact .single .shutRead

theorem closeWrite_acts {ec : Int} {s' : QueueStream} (h : s.closeWrite = .ok (ec, s')) (sent : List Frame) (accepted : List Byte) :
    ReflTransGen (Act m) ⟨s, sent, accepted⟩ ⟨s', sent, accepted⟩ := by
  unfold Stream.closeWrite at h
  split_ifs at h
  · cases h
    exact .refl
  · obtain ⟨t, hshut, h⟩ := bind_eq_ok.1 h
    cases h
    obtain ⟨hs, hc, rfl⟩ := shutWrite_cases hshut
    exact .single (.shutWrite hs hc)

theorem close_acts {ec : Int} {s' : QueueStream} (h : s.close = .ok (ec, s')) (sent : List Frame) (accepted : List Byte) :
    ReflTransGen (Act m) ⟨s, sent, accepted⟩ ⟨s', sent, accepted⟩ := by
  have hread : ReflTransGen (Act m) ⟨s, sent, accepted⟩
      ⟨if s.flag.readShutdownCalled = true then s else s.shutRead, sent, accepted⟩ := by
    split_ifs
    · exact .refl
    · exact .single .shutRead
  unfold Stream.close at h
  dsimp only at h
  generalize (if s.flag.readShutdownCalled = true then s else s.shutRead) = t at h hread
  split_ifs at h
  · cases h
    exact .refl
  · cases h
    exact hread
  · obtain ⟨t', hshut, h⟩ := bind_eq_ok.1 h
    cases h
    obtain ⟨hs, hc, rfl⟩ := shutWrite_cases hshut
    exact hread.tail (.shutWrite hs hc)

/-- A call is a sequence of changes. -/
theorem live_acts {c : StreamCall} (hs : Sized l.s) (hallows : m.Allows l.s c) (h : live c l = .ok l') : ReflTransGen (Act m) l l' := by
  obtain ⟨o, ho, h⟩ := bind_eq_ok.1 h
  cases h
  obtain ⟨s, sent, accepted⟩ := l
  cases c with
  | write opack =>
    obtain ⟨⟨ec, s'⟩, hw, ho⟩ := bind_eq_ok.1 ho
    cases ho
    dsimp only
    rw [List.append_nil]
    rcases write_cases hw with ⟨hec, rfl | rfl⟩ | ⟨rfl, hc, hsh, hfit, rfl⟩
    · rw [if_neg hec, List.append_nil]
    · rw [if_neg hec, List.append_nil]
      exact .single (.setBlocked true)
    · exact .single (.write opack hc hsh hfit)
  | read max =>
    obtain ⟨⟨n, pack, s'⟩, hr, ho⟩ := bind_eq_ok.1 ho
    cases ho
    dsimp only
    rw [List.append_nil, List.append_nil]
    rcases read_cases hr with rfl | ⟨k, hk, rfl⟩
    · exact .refl
    · exact .single (.read k hk)
  | closeRead =>
    cases ho
    dsimp only
    rw [List.append_nil, List.append_nil]
    exact closeRead_acts _ _
  | closeWrite =>
    obtain ⟨⟨ec, s'⟩, hc, ho⟩ := bind_eq_ok.1 ho
    cases ho
    dsimp only
    rw [List.append_nil, List.append_nil]
    exact closeWrite_acts hc _ _
  | close =>
    obtain ⟨⟨ec, s'⟩, hc, ho⟩ := bind_eq_ok.1 ho
    cases ho
    dsimp only
    rw [List.append_nil, List.append_nil]
    exact close_acts hc _ _
  | tick connected cfg codes =>
    obtain ⟨⟨s', so, wflag⟩, ht, ho⟩ := bind_eq_ok.1 ho
    cases ho
    have hacts : Acts m sent accepted s ⟨cfg, codes, []⟩ (s.tick connected ⟨cfg, codes, []⟩) := tick_acts hs hallows
    have hnil : sent ++ So.sent ⟨cfg, codes, []⟩ = sent := List.append_nil sent
    unfold Acts at hacts
    rw [ht, hnil] at hacts
    dsimp only
    rw [List.append_nil]
    exact hacts
  | arrive inpack =>
    obtain ⟨⟨s', rst⟩, ha, ho⟩ := bind_eq_ok.1 ho
    cases ho
    dsimp only
    rw [List.append_nil, List.append_nil]
    rcases onEvent_cases ha with rfl | ⟨bytes, -, hr, hfit, rfl⟩ | ⟨incre, -, rfl⟩ | ⟨-, rfl⟩
    · exact .refl
    · exact .single (.take bytes (hallows.arrives _ rfl) hr hfit)
    · exact .single (.gain incre (hallows.arrives _ rfl))
    · exact .single .forceClose

/-- What the changes keep, the calls keep. -/
theorem live_inv {c : StreamCall} {I : QueueLife → Prop} (hI : ∀ l l' : QueueLife, I l → Act m l l' → I l') (hs : Sized l.s)
    (hallows : m.Allows l.s c) (hl : I l) (h : live c l = .ok l') : I l' :=
  Simulates.star_inv hI hl (live_acts hs hallows h)

end

/-! ### New streams -/

/-- A stream as `stream_open` or a `T_SYN` makes it -/
inductive Made {ρ : Type} [Ring ρ] (s : Stream ρ) : Prop
  | opened (id : Nat) (ctx : Bool) (h : streamOpen id ctx = .ok s)
  | accepted (id : Nat) (ctx : Bool) (h : streamAccept id ctx = .ok s)

def fresh : QueueStream where
  ctx := false
  state := .closed
  flag := {}
  id := 0
  rb := .empty muxStreamWndSize
  rbIncre := 0
  wb := .empty muxStreamWndSize
  wbWnd := muxStreamWndSize
  writeBlocked := false

theorem init_eq : (Stream.init : Except ByteFault QueueStream) = .ok fresh := by
  have hnew : (Ring.new muxStreamWndSize : Except ByteFault (BoundedQueue Byte)) = .ok (.empty _) :=
    queue_new_eq (by unfold minRingBufferSize muxStreamWndSize maxRingBufferSize; omega)
  unfold Stream.init
  rw [hnew]
  rfl

/-- What `stream_open` makes -/
def opened (id : Nat) (ctx : Bool) : QueueStream :=
  { fresh with id := id, state := .established, ctx := ctx, flag := { fresh.flag with planSyn := true } }

/-- What a `T_SYN` makes -/
def accepted (id : Nat) (ctx : Bool) : QueueStream := { fresh with state := .established, id := id, ctx := ctx }

theorem streamOpen_eq (id : Nat) (ctx : Bool) : (streamOpen id ctx : Except ByteFault QueueStream) = .ok (opened id ctx) := by
  unfold streamOpen
  rw [init_eq]
  rfl

theorem streamAccept_eq (id : Nat) (ctx : Bool) : (streamAccept id ctx : Except ByteFault QueueStream) = .ok (accepted id ctx) := by
  unfold streamAccept
  rw [init_eq]
  rfl

theorem sized_opened (id : Nat) (ctx : Bool) : Sized (opened id ctx) := ⟨rfl, Nat.le_refl _, fun _ => rfl⟩

theorem sized_accepted (id : Nat) (ctx : Bool) : Sized (accepted id ctx) := ⟨rfl, Nat.le_refl _, fun _ => rfl⟩

/-! ### Streams over ring buffers -/

section

variable {s : Stream RingBuffer} {t : QueueStream} {c : StreamCall} {cs : List StreamCall}

theorem Made.queue (h : Made s) : ∃ t : QueueStream, Made t ∧ s.Refines t := by
  cases h with
  | opened id ctx h =>
    obtain ⟨t, ht, hst⟩ := (streamOpen_agree id ctx).exists_ok h
    exact ⟨t, .opened id ctx ht, hst⟩
  | accepted id ctx h =>
    obtain ⟨t, ht, hst⟩ := (streamAccept_agree id ctx).exists_ok h
    exact ⟨t, .accepted id ctx ht, hst⟩

theorem streamOpen_ring (id : Nat) (ctx : Bool) : ∃ s : Stream RingBuffer, streamOpen id ctx = .ok s ∧ s.Refines (opened id ctx) :=
  (streamOpen_agree id ctx).symm.exists_ok (streamOpen_eq id ctx)

theorem determines_congr (h : s.Refines t) : Determines s c ↔ Determines t c := by
  cases h with
  | mk => cases c <;> rfl

theorem sendsBare_congr (h : s.Refines t) : SendsBare s c ↔ SendsBare t c := by
  cases h with
  | mk _ _ _ _ _ _ _ hrb hwb =>
    cases c with
    | tick =>
      unfold SendsBare
      dsimp only
      rw [count_agree hwb]
    | _ => rfl

/-- A life over ring buffers is one over queues, with any condition those then meet. -/
theorem run_queue {C : Stream RingBuffer → StreamCall → Prop} {D : QueueStream → StreamCall → Prop} (hst : s.Refines t)
    (hC : ∀ s t c, Stream.Refines s t → C s c → D t c) {l : Life RingBuffer} (h : Run live (fun l c => C l.s c) (begun s) cs l) :
    ∃ k, Run live (fun k c => D k.s c) (begun t) cs k ∧ l.Refines k := by
  refine Agree.run live_agree ?_ (.mk hst [] []) h
  rintro c _ _ ⟨hst, _, _⟩ hc
  exact hC _ _ c hst hc

/-- The other way round -/
theorem run_ring {C : Stream RingBuffer → StreamCall → Prop} {D : QueueStream → StreamCall → Prop} (hst : s.Refines t)
    (hD : ∀ s t c, Stream.Refines s t → D t c → C s c) {k : QueueLife} (h : Run live (fun k c => D k.s c) (begun t) cs k) :
    ∃ l, Run live (fun l c => C l.s c) (begun s) cs l ∧ l.Refines k := by
  refine Agree.run (R := fun k l => Life.Refines l k) (fun c k l hlk => (live_agree c l k hlk).symm) ?_ (.mk hst [] []) h
  rintro c _ _ ⟨hst, _, _⟩ hc
  exact hD _ _ c hst hc

end

end Wawo.Mux
