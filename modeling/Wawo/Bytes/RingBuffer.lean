import Wawo.Bytes.Basic

/-!
# The ring buffer (`bytes_ringbuffer.hpp`)

`m_buffer` is the list of its `m_capacity` bytes. The read and write positions are below `m_capacity`
and one byte stays free, so that equal positions mean an empty buffer. `Refines`: what lies from
`m_begin` to `m_end`, on the circle, is the contents of a bounded queue. Every operation keeps it and
answers as the queue does, whichever of its copies it takes and wherever it moves the positions to.
-/

namespace Wawo

open Memory Lts

def maxRingBufferSize : Nat := 1024 * 1024 * 32
def minRingBufferSize : Nat := 1024 * 2

/-- `bytes_ringbuffer`, once its constructor has allocated `m_buffer`. -/
structure RingBuffer where
  mCapacity : Nat
  mBegin : Nat
  mEnd : Nat
  mBuffer : List Byte
deriving DecidableEq

namespace RingBuffer

/-- The constructor, with the branch of `reset` that allocates. The bytes are as a debug build fills
them. -/
def new (capacity : Nat) : Except ByteFault RingBuffer := do
  let mCapacity := u32 (capacity + 1)
  require (minRingBufferSize ≤ subU32 mCapacity 1 ∧ subU32 mCapacity 1 ≤ maxRingBufferSize) .ringRange
  return { mCapacity := mCapacity, mBegin := 0, mEnd := 0, mBuffer := List.replicate mCapacity 'i'.toUInt8 }

variable (rb : RingBuffer)

def reset : RingBuffer := { rb with mBegin := 0, mEnd := 0 }

def isEmpty : Bool := rb.mBegin = rb.mEnd

def isFull : Bool := u32 (rb.mEnd + 1) % rb.mCapacity = rb.mBegin

def capacity : Nat := subU32 rb.mCapacity 1

def count : Nat := u32 (subU32 rb.mEnd rb.mBegin + rb.mCapacity) % rb.mCapacity

def leftCapacity : Nat := subU32 rb.capacity rb.count

def skip (s : Nat) : Except ByteFault RingBuffer := do
  require (s ≤ rb.count) .ringSkip
  let rb := { rb with mBegin := u32 (rb.mBegin + s) % rb.mCapacity }
  return if rb.isEmpty then rb.reset else rb

/-- The copies of `read`: what `target` holds after them. -/
def copyOut (copyC : Nat) : Except ByteFault (List Byte) :=
  if rb.mEnd > rb.mBegin then
    load rb.mBuffer rb.mBegin copyC
  else
    let tailC := subU32 rb.mCapacity rb.mBegin
    if tailC ≥ copyC then
      load rb.mBuffer rb.mBegin copyC
    else do
      let tail ← load rb.mBuffer rb.mBegin tailC
      let head ← load rb.mBuffer 0 (subU32 copyC tailC)
      return tail ++ head

/-- `read(target, s, move)`: what it returns, what it copies to `target`, the buffer after it. -/
def read (s : Nat) (move : Bool) : Except ByteFault (Nat × List Byte × RingBuffer) := do
  let availC := rb.count
  if availC = 0 then
    return (0, [], rb)
  let copyC := if availC > s then s else availC
  let target ← rb.copyOut copyC
  if move then
    return (copyC, target, ← rb.skip copyC)
  return (copyC, target, rb)

def peek (s : Nat) : Except ByteFault (Nat × List Byte × RingBuffer) := rb.read s false

/-- `try_read(buffer, size)`: what it copies if it returns `true`. -/
def tryRead (size : Nat) : Except ByteFault (Option (List Byte) × RingBuffer) := do
  if rb.count ≥ size then
    let (readCount, target, rb) ← rb.read size true
    require (readCount = size) .ringTryRead
    return (some target, rb)
  return (none, rb)

/-- `read<T>()` with `sizeof(T) = size` -/
def readT (size : Nat) : Except ByteFault (Nat × RingBuffer) := do
  require (rb.count ≥ size) .ringRead
  let (rnbytes, tmp, rb) ← rb.read size true
  require (rnbytes = size) .ringReadCount
  return (readImpl size tmp, rb)

/-- `try_read<T>(t)`: the value if it returns `true`. -/
def tryReadT (size : Nat) : Except ByteFault (Option Nat × RingBuffer) := do
  if rb.count < size then
    return (none, rb)
  let (t, rb) ← rb.readT size
  return (some t, rb)

/-- The copies of `write`, at its rebased positions. -/
def copyIn (bytes : List Byte) (toWriteC : Nat) : Except ByteFault RingBuffer :=
  if rb.mEnd ≤ rb.mBegin then do
    let buffer ← store rb.mBuffer rb.mEnd (← load bytes 0 toWriteC)
    return { rb with mBuffer := buffer, mEnd := u32 (rb.mEnd + toWriteC) % rb.mCapacity }
  else
    let tailS := subU32 rb.mCapacity rb.mEnd
    if tailS ≥ toWriteC then do
      let buffer ← store rb.mBuffer rb.mEnd (← load bytes 0 toWriteC)
      return { rb with mBuffer := buffer, mEnd := u32 (rb.mEnd + toWriteC) % rb.mCapacity }
    else do
      let buffer ← store rb.mBuffer rb.mEnd (← load bytes 0 tailS)
      let mEnd := subU32 toWriteC tailS
      let buffer ← store buffer 0 (← load bytes tailS mEnd)
      return { rb with mBuffer := buffer, mEnd := mEnd }

/-- `write(bytes, s)`: what it returns, the buffer after it. -/
def write (bytes : List Byte) (s : Nat) : Except ByteFault (Nat × RingBuffer) := do
  require (s ≠ 0) .ringWriteEmpty
  let availS := rb.leftCapacity
  if availS = 0 then
    return (0, rb)
  let rb := if rb.mEnd = rb.mBegin then { rb with mEnd := 0, mBegin := 0 } else rb
  let toWriteC := if availS > s then s else availS
  return (toWriteC, ← rb.copyIn bytes toWriteC)

/-! ### The queue in the buffer -/

/-- How far `m_end` is ahead of `m_begin` on the circle. -/
def used : Nat := if rb.mBegin ≤ rb.mEnd then rb.mEnd - rb.mBegin else rb.mEnd + rb.mCapacity - rb.mBegin

/-- The bytes from `m_begin` to `m_end`. -/
def bytes : List Byte := wrap rb.mBuffer rb.mBegin rb.used

/-- The buffer holds the queue. -/
structure Refines (rb : RingBuffer) (q : BoundedQueue Byte) : Prop where
  begin_lt : rb.mBegin < rb.mCapacity
  end_lt : rb.mEnd < rb.mCapacity
  length_buffer : rb.mBuffer.length = rb.mCapacity
  capacity_eq : rb.mCapacity = q.capacity + 1
  min_le : minRingBufferSize ≤ q.capacity
  le_max : q.capacity ≤ maxRingBufferSize
  items_eq : q.items = wrap rb.mBuffer rb.mBegin rb.used

variable {rb} {q : BoundedQueue Byte}

theorem new_refines {capacity : Nat} (hmin : minRingBufferSize ≤ capacity) (hmax : capacity ≤ maxRingBufferSize) :
    ∃ rb, new capacity = .ok rb ∧ Refines rb (.empty capacity) := by
  have hcap : u32 (capacity + 1) = capacity + 1 := u32_of_lt (by unfold maxRingBufferSize at hmax; omega)
  have hsub : subU32 (capacity + 1) 1 = capacity := by
    unfold subU32 maxRingBufferSize at *
    omega
  refine ⟨⟨capacity + 1, 0, 0, List.replicate (capacity + 1) 'i'.toUInt8⟩, ?_, ?_⟩
  · unfold new
    dsimp only
    rw [hcap, hsub, require_eq ⟨hmin, hmax⟩, ok_bind, pure_eq_ok]
  · refine ⟨Nat.succ_pos _, Nat.succ_pos _, by simp, rfl, hmin, hmax, ?_⟩
    simp [used]

namespace Refines

variable (h : Refines rb q)
include h

theorem bytes_eq : rb.bytes = q.items := h.items_eq.symm

theorem capacity_lt : rb.mCapacity < 2 ^ 26 := by
  have h₁ := h.capacity_eq
  have h₂ := h.le_max
  unfold maxRingBufferSize at h₂
  omega

theorem used_lt : rb.used < rb.mCapacity := by
  have h₁ := h.begin_lt
  have h₂ := h.end_lt
  unfold used
  split_ifs <;> omega

/-- The `u32_t` difference of the positions wraps around exactly when adding `m_capacity` undoes it. -/
theorem count_eq_used : rb.count = rb.used := by
  have h₁ := h.begin_lt
  have h₂ := h.end_lt
  have h₃ := h.capacity_lt
  have hsum : u32 (subU32 rb.mEnd rb.mBegin + rb.mCapacity) = rb.mEnd + rb.mCapacity - rb.mBegin := by
    unfold u32 subU32
    omega
  rw [count, hsum, used]
  split_ifs with hle
  · rw [show rb.mEnd + rb.mCapacity - rb.mBegin = rb.mEnd - rb.mBegin + rb.mCapacity by omega, Nat.add_mod_right]
    exact Nat.mod_eq_of_lt (by omega)
  · exact Nat.mod_eq_of_lt (by omega)

theorem used_eq : rb.used = q.count := by
  rw [BoundedQueue.count, h.items_eq, length_wrap (by rw [h.length_buffer]; exact h.begin_lt)]
  rw [h.length_buffer]
  exact h.used_lt.le

theorem count_eq : rb.count = q.count := h.count_eq_used.trans h.used_eq

theorem capacity_fn_eq : rb.capacity = q.capacity := by
  have h₁ := h.capacity_eq
  have h₂ := h.capacity_lt
  unfold capacity subU32
  omega

theorem leftCapacity_eq : rb.leftCapacity = q.leftCapacity := by
  have h₁ := h.capacity_eq
  have h₂ := h.capacity_lt
  have h₃ : q.count ≤ q.capacity := q.length_le
  rw [leftCapacity, h.capacity_fn_eq, h.count_eq, BoundedQueue.leftCapacity]
  unfold subU32
  omega

theorem isEmpty_iff : rb.isEmpty = true ↔ q.items = [] := by
  have h₁ := h.begin_lt
  have h₂ := h.end_lt
  rw [← BoundedQueue.count_eq_zero, ← h.used_eq, isEmpty, decide_eq_true_iff, used]
  split_ifs <;> omega

theorem isFull_iff : rb.isFull = true ↔ q.leftCapacity = 0 := by
  have h₁ := h.begin_lt
  have h₂ := h.end_lt
  have h₃ := h.capacity_lt
  have h₄ := h.capacity_eq
  rw [BoundedQueue.leftCapacity, ← h.used_eq, isFull, decide_eq_true_iff, u32_of_lt (by omega), used]
  by_cases he : rb.mEnd + 1 = rb.mCapacity
  · rw [he, Nat.mod_self]
    split_ifs <;> omega
  · rw [Nat.mod_eq_of_lt (by omega)]
    split_ifs <;> omega

/-! ### Taking from the front -/

theorem copyOut_eq {n : Nat} (hn : n ≤ rb.used) : rb.copyOut n = .ok (wrap rb.mBuffer rb.mBegin n) := by
  have h₁ := h.begin_lt
  have h₂ := h.end_lt
  have h₃ := h.capacity_lt
  have h₄ := h.length_buffer
  have htail : subU32 rb.mCapacity rb.mBegin = rb.mCapacity - rb.mBegin := by
    unfold subU32
    omega
  unfold copyOut
  by_cases hgt : rb.mEnd > rb.mBegin
  · rw [used, if_pos hgt.le] at hn
    rw [if_pos hgt, load_eq (by omega), wrap_of_le (by omega)]
  · rw [if_neg hgt, htail]
    dsimp only
    by_cases hle : rb.mCapacity - rb.mBegin ≥ n
    · rw [if_pos hle, load_eq (by omega), wrap_of_le (by omega)]
    · have hhead : subU32 n (rb.mCapacity - rb.mBegin) = n - (rb.mCapacity - rb.mBegin) := by
        have := h.used_lt
        unfold subU32
        omega
      have hlt := h.used_lt
      rw [if_neg hle, load_eq (by omega), ok_bind, hhead, load_eq (by omega), ok_bind, wrap_of_ge (by omega), h₄, pure_eq_ok]

theorem front_eq (s : Nat) : q.front s = wrap rb.mBuffer rb.mBegin (min s q.count) := by
  have hused := h.used_eq
  have hlt := h.used_lt
  rw [BoundedQueue.front, ← take_wrap (n := rb.used) (by rw [h.length_buffer]; exact h.begin_lt)
    (by rw [h.length_buffer]; omega) (by omega), ← h.items_eq]
  rcases Nat.le_total s q.count with hs | hs
  · rw [Nat.min_eq_left hs]
  · rw [Nat.min_eq_right hs, BoundedQueue.count, List.take_length, List.take_of_length_le hs]

/-- `read` copies the front of the queue, and then skips it if it is to move. -/
theorem read_eq (s : Nat) (move : Bool) :
    rb.read s move =
      if q.count = 0 then .ok (0, [], rb)
      else if move then (rb.skip (min s q.count)).map fun rb' => (min s q.count, q.front s, rb')
      else .ok (min s q.count, q.front s, rb) := by
  have hused := h.used_eq
  unfold read
  dsimp only
  rw [h.count_eq]
  by_cases h0 : q.count = 0
  · rw [if_pos h0, if_pos h0]
    rfl
  · have hcopy : (if q.count > s then s else q.count) = min s q.count := by
      split_ifs <;> omega
    rw [if_neg h0, if_neg h0, hcopy, h.copyOut_eq (by omega), ok_bind, h.front_eq]
    cases move with
    | false => rfl
    | true => cases rb.skip (min s q.count) <;> rfl

theorem peek_eq (s : Nat) : rb.peek s = .ok (min s q.count, q.front s, rb) := by
  rw [peek, h.read_eq]
  by_cases h0 : q.count = 0
  · rw [if_pos h0, h0, Nat.min_zero, h.front_eq, h0, Nat.min_zero, wrap_zero]
  · rw [if_neg h0, if_neg (by decide)]

/-- Moving `m_begin` over `s` bytes, before the positions are rebased. -/
theorem advance {s : Nat} (hs : s ≤ q.count) : Refines { rb with mBegin := (rb.mBegin + s) % rb.mCapacity } (q.skip s) := by
  have h₁ := h.begin_lt
  have h₂ := h.end_lt
  have hused := h.used_eq
  have hlt := h.used_lt
  have hlen := h.length_buffer
  have hpos : (rb.mBegin + s) % rb.mCapacity < rb.mCapacity := Nat.mod_lt _ (by omega)
  have hrest : used { rb with mBegin := (rb.mBegin + s) % rb.mCapacity } = rb.used - s := by
    rw [← hused] at hs
    unfold used at *
    dsimp only
    by_cases hw : rb.mBegin + s < rb.mCapacity
    · rw [Nat.mod_eq_of_lt hw]
      split_ifs at * <;> omega
    · rw [Nat.mod_eq_sub_mod (by omega), Nat.mod_eq_of_lt (by omega)]
      split_ifs at * <;> omega
  refine ⟨hpos, h₂, hlen, h.capacity_eq, h.min_le, h.le_max, ?_⟩
  rw [hrest, BoundedQueue.items_skip, h.items_eq]
  have hdrop := drop_wrap (m := rb.mBuffer) (b := rb.mBegin) (n := rb.used) (k := s) (by omega) (by omega) (by omega)
  rw [hlen] at hdrop
  exact hdrop

theorem reset : Refines rb.reset (.empty q.capacity) := by
  have h₁ := h.capacity_eq
  refine ⟨?_, ?_, h.length_buffer, h.capacity_eq, h.min_le, h.le_max, ?_⟩
  · exact Nat.lt_of_le_of_lt (Nat.zero_le _) h.begin_lt
  · exact Nat.lt_of_le_of_lt (Nat.zero_le _) h.begin_lt
  · simp [used, RingBuffer.reset]

/-- Equal positions may be moved to the front of the buffer: no byte lies between them. -/
theorem rebase (he : rb.mBegin = rb.mEnd) : Refines { rb with mBegin := 0, mEnd := 0 } q := by
  have hitems : q.items = [] := h.isEmpty_iff.mp (decide_eq_true he)
  refine ⟨?_, ?_, h.length_buffer, h.capacity_eq, h.min_le, h.le_max, ?_⟩
  · exact Nat.lt_of_le_of_lt (Nat.zero_le _) h.begin_lt
  · exact Nat.lt_of_le_of_lt (Nat.zero_le _) h.begin_lt
  · simp [used, hitems]

theorem skip {s : Nat} (hs : s ≤ q.count) : ∃ rb', rb.skip s = .ok rb' ∧ Refines rb' (q.skip s) := by
  have h₁ := h.begin_lt
  have h₂ := h.capacity_lt
  have hadv := h.advance hs
  have hused := h.used_eq
  have hlt := h.used_lt
  unfold RingBuffer.skip
  dsimp only
  rw [h.count_eq, require_eq hs, ok_bind, u32_of_lt (by omega), pure_eq_ok]
  refine ⟨_, rfl, ?_⟩
  split_ifs with he
  · exact hadv.rebase (of_decide_eq_true he)
  · exact hadv

theorem read (s : Nat) : ∃ rb', rb.read s true = .ok (min s q.count, q.front s, rb') ∧ Refines rb' (q.skip s) := by
  rw [h.read_eq]
  by_cases h0 : q.count = 0
  · have hitems : q.items = [] := BoundedQueue.count_eq_zero q |>.mp h0
    refine ⟨rb, ?_, h.begin_lt, h.end_lt, h.length_buffer, h.capacity_eq, h.min_le, h.le_max, ?_⟩
    · rw [if_pos h0, h0, Nat.min_zero, BoundedQueue.front, hitems, List.take_nil]
    · rw [BoundedQueue.items_skip, ← h.items_eq, hitems, List.drop_nil]
  · obtain ⟨rb', hskip, hrb'⟩ := h.skip (s := min s q.count) (Nat.min_le_right _ _)
    have hdrop : (q.skip (min s q.count)).items = (q.skip s).items := by
      simp only [BoundedQueue.items_skip, BoundedQueue.count]
      rcases Nat.le_total s q.items.length with hle | hle
      · rw [Nat.min_eq_left hle]
      · rw [Nat.min_eq_right hle, List.drop_length, List.drop_of_length_le hle]
    refine ⟨rb', ?_, hrb'.begin_lt, hrb'.end_lt, hrb'.length_buffer, hrb'.capacity_eq, h.min_le, h.le_max, ?_⟩
    · rw [if_neg h0, if_pos rfl, hskip]
      rfl
    · rw [← hdrop, hrb'.items_eq]

theorem readT {size : Nat} (hs : size ≤ q.count) :
    ∃ rb', rb.readT size = .ok (readImpl size (q.front size), rb') ∧ Refines rb' (q.skip size) := by
  obtain ⟨rb', hread, hrb'⟩ := h.read size
  refine ⟨rb', ?_, hrb'⟩
  unfold RingBuffer.readT
  rw [h.count_eq, require_eq hs, ok_bind, hread, ok_bind]
  dsimp only
  rw [require_eq (Nat.min_eq_left hs), ok_bind, pure_eq_ok]

theorem tryRead (size : Nat) :
    ∃ rb', rb.tryRead size = .ok (if size ≤ q.count then some (q.front size) else none, rb') ∧
      Refines rb' (if size ≤ q.count then q.skip size else q) := by
  unfold RingBuffer.tryRead
  rw [h.count_eq]
  by_cases hs : size ≤ q.count
  · obtain ⟨rb', hread, hrb'⟩ := h.read size
    refine ⟨rb', ?_, by rw [if_pos hs]; exact hrb'⟩
    rw [if_pos hs, if_pos hs, hread, ok_bind]
    dsimp only
    rw [require_eq (Nat.min_eq_left hs), ok_bind, pure_eq_ok]
  · refine ⟨rb, ?_, by rw [if_neg hs]; exact h⟩
    rw [if_neg hs, if_neg hs, pure_eq_ok]

theorem tryReadT (size : Nat) :
    ∃ rb', rb.tryReadT size = .ok (if size ≤ q.count then some (readImpl size (q.front size)) else none, rb') ∧
      Refines rb' (if size ≤ q.count then q.skip size else q) := by
  unfold RingBuffer.tryReadT
  rw [h.count_eq]
  by_cases hs : size ≤ q.count
  · obtain ⟨rb', hread, hrb'⟩ := h.readT hs
    refine ⟨rb', ?_, by rw [if_pos hs]; exact hrb'⟩
    rw [if_pos hs, if_neg (by omega), hread, ok_bind]
    dsimp only
    rw [pure_eq_ok]
  · refine ⟨rb, ?_, by rw [if_neg hs]; exact h⟩
    rw [if_neg hs, if_pos (by omega), pure_eq_ok]

/-! ### Appending -/

/-- A buffer that keeps the queue's bytes and has `chunk` from `m_end` on holds the longer queue. -/
theorem extend {buffer chunk : List Byte} {mEnd : Nat} (hchunk : chunk.length ≤ q.leftCapacity)
    (hlen : buffer.length = rb.mCapacity) (hkeep : wrap buffer rb.mBegin rb.used = wrap rb.mBuffer rb.mBegin rb.used)
    (hnew : wrap buffer rb.mEnd chunk.length = chunk) (hend : mEnd = (rb.mEnd + chunk.length) % rb.mCapacity) {q' : BoundedQueue Byte}
    (hcap : q'.capacity = q.capacity) (hitems : q'.items = q.items ++ chunk) :
    Refines { rb with mBuffer := buffer, mEnd := mEnd } q' := by
  have h₁ := h.begin_lt
  have h₂ := h.end_lt
  have h₃ := h.capacity_eq
  have hlt := h.used_lt
  rw [BoundedQueue.leftCapacity, ← h.used_eq] at hchunk
  have hnext : (rb.mBegin + rb.used) % rb.mCapacity = rb.mEnd := by
    unfold used
    split_ifs with hle
    · rw [Nat.add_sub_cancel' hle, Nat.mod_eq_of_lt h₂]
    · rw [show rb.mBegin + (rb.mEnd + rb.mCapacity - rb.mBegin) = rb.mEnd + rb.mCapacity by omega, Nat.add_mod_right,
        Nat.mod_eq_of_lt h₂]
  have hused : used { rb with mBuffer := buffer, mEnd := mEnd } = rb.used + chunk.length := by
    unfold used at *
    dsimp only
    by_cases hw : rb.mEnd + chunk.length < rb.mCapacity
    · rw [hend, Nat.mod_eq_of_lt hw]
      split_ifs at * <;> omega
    · rw [hend, Nat.mod_eq_sub_mod (by omega), Nat.mod_eq_of_lt (by split_ifs at hchunk <;> omega)]
      split_ifs at * <;> omega
  refine ⟨h₁, ?_, hlen, by rw [hcap]; exact h₃, by rw [hcap]; exact h.min_le, by rw [hcap]; exact h.le_max, ?_⟩
  · rw [hend]
    exact Nat.mod_lt _ (by omega)
  · show q'.items = wrap buffer rb.mBegin (used { rb with mBuffer := buffer, mEnd := mEnd })
    rw [hused, wrap_add (by omega) (by omega), hlen, hnext, hkeep, hnew, ← h.items_eq, hitems]

theorem copyIn {bytes : List Byte} {n : Nat} (hn : n ≤ q.leftCapacity) (hbytes : n ≤ bytes.length)
    (hpos : rb.mEnd = rb.mBegin → rb.mEnd = 0) {q' : BoundedQueue Byte} (hcap : q'.capacity = q.capacity)
    (hitems : q'.items = q.items ++ bytes.take n) : ∃ rb', rb.copyIn bytes n = .ok rb' ∧ Refines rb' q' := by
  have h₁ := h.begin_lt
  have h₂ := h.end_lt
  have h₃ := h.capacity_lt
  have h₄ := h.capacity_eq
  have hlen := h.length_buffer
  have hchunk : (bytes.take n).length = n := by rw [List.length_take, Nat.min_eq_left hbytes]
  have hslice : slice bytes 0 n = bytes.take n := rfl
  have hfree : rb.used + n < rb.mCapacity := by
    rw [BoundedQueue.leftCapacity, ← h.used_eq] at hn
    have := h.used_lt
    omega
  -- one copy of the whole chunk, at a place that the queue does not reach
  have hone : rb.mEnd + n ≤ rb.mCapacity → (rb.mBegin + rb.used ≤ rb.mEnd ∨ rb.mEnd + n ≤ rb.mBegin) →
      rb.mBegin + rb.used ≤ rb.mCapacity + rb.mEnd →
      ∃ rb', (do
        let buffer ← store rb.mBuffer rb.mEnd (← load bytes 0 n)
        return { rb with mBuffer := buffer, mEnd := u32 (rb.mEnd + n) % rb.mCapacity } : Except ByteFault RingBuffer) = .ok rb' ∧
        Refines rb' q' := by
    intro hin hd hw
    have hstore : rb.mEnd + (bytes.take n).length ≤ rb.mBuffer.length := by omega
    rw [load_eq (by omega), ok_bind, hslice, store_eq hstore, ok_bind, pure_eq_ok]
    refine ⟨_, rfl, h.extend (by omega) (by rw [length_poke hstore, hlen]) ?_ ?_ ?_ hcap hitems⟩
    · exact wrap_poke_of_disjoint hstore (by omega) (by omega) (by omega)
    · rw [wrap_of_le (by rw [length_poke hstore]; omega), slice_poke_self hstore]
    · rw [hchunk, u32_of_lt (by omega)]
  unfold RingBuffer.copyIn
  unfold used at hfree hone
  by_cases hle : rb.mEnd ≤ rb.mBegin
  · rw [if_pos hle]
    split_ifs at hfree hone with hbe
    · exact hone (by omega) (by omega) (by omega)
    · exact hone (by omega) (by omega) (by omega)
  · have htail : subU32 rb.mCapacity rb.mEnd = rb.mCapacity - rb.mEnd := by
      unfold subU32
      omega
    rw [if_pos (by omega)] at hfree hone
    rw [if_neg hle, htail]
    dsimp only
    by_cases hfits : rb.mCapacity - rb.mEnd ≥ n
    · rw [if_pos hfits]
      exact hone (by omega) (by omega) (by omega)
    · -- two copies: the end of the buffer, then its front up to below `m_begin`
      have hrest : subU32 n (rb.mCapacity - rb.mEnd) = n - (rb.mCapacity - rb.mEnd) := by
        unfold subU32
        omega
      obtain ⟨tail, htl⟩ : ∃ tail, tail = slice bytes 0 (rb.mCapacity - rb.mEnd) := ⟨_, rfl⟩
      obtain ⟨head, hhd⟩ : ∃ head, head = slice bytes (rb.mCapacity - rb.mEnd) (n - (rb.mCapacity - rb.mEnd)) := ⟨_, rfl⟩
      have htaill : tail.length = rb.mCapacity - rb.mEnd := by rw [htl, length_slice_of_le (by omega)]
      have hheadl : head.length = n - (rb.mCapacity - rb.mEnd) := by rw [hhd, length_slice_of_le (by omega)]
      have hboth : tail ++ head = bytes.take n := by
        rw [← hslice, show n = rb.mCapacity - rb.mEnd + (n - (rb.mCapacity - rb.mEnd)) by omega, slice_add, htl, hhd, Nat.zero_add]
      have hstore₁ : rb.mEnd + tail.length ≤ rb.mBuffer.length := by omega
      have hlen₁ : (poke rb.mBuffer rb.mEnd tail).length = rb.mBuffer.length := length_poke hstore₁
      have hstore₂ : 0 + head.length ≤ (poke rb.mBuffer rb.mEnd tail).length := by omega
      rw [if_neg hfits, load_eq (by omega), ok_bind, ← htl, store_eq hstore₁, ok_bind, hrest, load_eq (by omega), ok_bind,
        ← hhd, store_eq hstore₂, ok_bind, pure_eq_ok]
      have hb : rb.used = rb.mEnd - rb.mBegin := if_pos (by omega)
      refine ⟨_, rfl, h.extend (by omega) (by rw [length_poke hstore₂]; omega) ?_ ?_ ?_ hcap hitems⟩
      · rw [wrap_poke_of_disjoint hstore₂ (by omega) (by omega) (by omega),
          wrap_poke_of_disjoint hstore₁ (by omega) (by omega) (by omega)]
      · rw [wrap_of_ge (by rw [length_poke hstore₂]; omega), length_poke hstore₂, hlen₁, hlen, hchunk, ← htaill, ← hboth]
        congr 1
        · rw [slice_poke_of_disjoint hstore₂ (by omega), slice_poke_self hstore₁]
        · rw [htaill, ← hheadl, slice_poke_self hstore₂]
      · rw [hchunk, Nat.mod_eq_sub_mod (by omega), Nat.mod_eq_of_lt (by omega)]
        omega

theorem write {bytes : List Byte} {s : Nat} (hs : 0 < s) (hbytes : s ≤ bytes.length) :
    ∃ rb', rb.write bytes s = .ok (min s q.leftCapacity, rb') ∧ Refines rb' (q.write (bytes.take s)) := by
  unfold RingBuffer.write
  dsimp only
  rw [require_eq (Nat.pos_iff_ne_zero.mp hs), ok_bind, h.leftCapacity_eq]
  by_cases h0 : q.leftCapacity = 0
  · refine ⟨rb, ?_, h.begin_lt, h.end_lt, h.length_buffer, h.capacity_eq, h.min_le, h.le_max, ?_⟩
    · rw [if_pos h0, h0, Nat.min_zero, pure_eq_ok]
    · rw [BoundedQueue.items_write, h0, List.take_zero, List.append_nil, h.items_eq]
  · have hcopy : (if q.leftCapacity > s then s else q.leftCapacity) = min s q.leftCapacity := by
      split_ifs <;> omega
    have htake : (q.write (bytes.take s)).items = q.items ++ bytes.take (min s q.leftCapacity) := by
      rw [BoundedQueue.items_write, List.take_take, Nat.min_comm]
    have hcap : (q.write (bytes.take s)).capacity = q.capacity := rfl
    have hrb : Refines (if rb.mEnd = rb.mBegin then { rb with mEnd := 0, mBegin := 0 } else rb) q := by
      split_ifs with he
      · exact h.rebase he.symm
      · exact h
    obtain ⟨rb', hin, hrb'⟩ := hrb.copyIn (Nat.min_le_right s _) (by omega) (by split_ifs with he <;> simp [he]) hcap htake
    rw [if_neg h0, hcopy, hin, ok_bind, pure_eq_ok]
    exact ⟨rb', rfl, hrb'⟩

end Refines
end RingBuffer

/-! ### Sequences of calls -/

/-- A call on the buffer. The source of a `write` is the memory its pointer leads to. -/
inductive RingCall
  | write (bytes : List Byte) (s : Nat)
  | read (s : Nat)
  | peek (s : Nat)
  | tryRead (size : Nat)
  | readT (size : Nat)
  | tryReadT (size : Nat)
  | skip (s : Nat)
  | reset
deriving DecidableEq

/-- What a call returns, with what it copies to its target. -/
inductive RingResult
  | written (n : Nat)
  | copied (n : Nat) (target : List Byte)
  | tried (target : Option (List Byte))
  | value (t : Nat)
  | triedValue (t : Option Nat)
  | done
deriving DecidableEq

namespace RingCall

open RingResult

def run (c : RingCall) (rb : RingBuffer) : Except ByteFault (RingResult × RingBuffer) :=
  match c with
  | .write bytes s => (rb.write bytes s).map fun (n, rb) => (written n, rb)
  | .read s => (rb.read s true).map fun (n, target, rb) => (copied n target, rb)
  | .peek s => (rb.peek s).map fun (n, target, rb) => (copied n target, rb)
  | .tryRead size => (rb.tryRead size).map fun (target, rb) => (tried target, rb)
  | .readT size => (rb.readT size).map fun (t, rb) => (value t, rb)
  | .tryReadT size => (rb.tryReadT size).map fun (t, rb) => (triedValue t, rb)
  | .skip s => (rb.skip s).map fun rb => (done, rb)
  | .reset => .ok (done, rb.reset)

/-- What a bounded FIFO queue answers. -/
def answer (c : RingCall) (q : BoundedQueue Byte) : RingResult × BoundedQueue Byte :=
  match c with
  | .write bytes s => (written (min s q.leftCapacity), q.write (bytes.take s))
  | .read s => (copied (min s q.count) (q.front s), q.skip s)
  | .peek s => (copied (min s q.count) (q.front s), q)
  | .tryRead size =>
    (tried (if size ≤ q.count then some (q.front size) else none), if size ≤ q.count then q.skip size else q)
  | .readT size => (value (readImpl size (q.front size)), q.skip size)
  | .tryReadT size =>
    (triedValue (if size ≤ q.count then some (readImpl size (q.front size)) else none),
      if size ≤ q.count then q.skip size else q)
  | .skip s => (done, q.skip s)
  | .reset => (done, .empty q.capacity)

/-- What the caller owes: bytes to write, as many as it says, and no more than there is to skip. -/
def Pre (c : RingCall) (q : BoundedQueue Byte) : Prop :=
  match c with
  | .write bytes s => 0 < s ∧ s ≤ bytes.length
  | .readT size => size ≤ q.count
  | .skip s => s ≤ q.count
  | _ => True

instance : (c : RingCall) → (q : BoundedQueue Byte) → Decidable (c.Pre q)
  | .write bytes s, _ => inferInstanceAs (Decidable (0 < s ∧ s ≤ bytes.length))
  | .readT size, q => inferInstanceAs (Decidable (size ≤ q.count))
  | .skip s, q => inferInstanceAs (Decidable (s ≤ q.count))
  | .read _, _ | .peek _, _ | .tryRead _, _ | .tryReadT _, _ | .reset, _ => .isTrue trivial

theorem run_refines (c : RingCall) (rb : RingBuffer) (q : BoundedQueue Byte) (h : rb.Refines q) (hpre : c.Pre q) :
    ∃ rb', c.run rb = .ok ((c.answer q).1, rb') ∧ rb'.Refines (c.answer q).2 := by
  cases c with
  | write bytes s =>
    obtain ⟨rb', hrun, h'⟩ := h.write hpre.1 hpre.2
    exact ⟨rb', by rw [run, hrun]; rfl, h'⟩
  | read s =>
    obtain ⟨rb', hrun, h'⟩ := h.read s
    exact ⟨rb', by rw [run, hrun]; rfl, h'⟩
  | peek s => exact ⟨rb, by rw [run, h.peek_eq]; rfl, h⟩
  | tryRead size =>
    obtain ⟨rb', hrun, h'⟩ := h.tryRead size
    exact ⟨rb', by rw [run, hrun]; rfl, h'⟩
  | readT size =>
    obtain ⟨rb', hrun, h'⟩ := h.readT hpre
    exact ⟨rb', by rw [run, hrun]; rfl, h'⟩
  | tryReadT size =>
    obtain ⟨rb', hrun, h'⟩ := h.tryReadT size
    exact ⟨rb', by rw [run, hrun]; rfl, h'⟩
  | skip s =>
    obtain ⟨rb', hrun, h'⟩ := h.skip hpre
    exact ⟨rb', by rw [run, hrun]; rfl, h'⟩
  | reset => exact ⟨rb.reset, rfl, h.reset⟩

theorem answer_capacity {n : Nat} (c : RingCall) (q : BoundedQueue Byte) (h : q.capacity = n) :
    (c.answer q).2.capacity = n := by
  cases c with
  | tryRead size | tryReadT size =>
    simp only [answer]
    split_ifs <;> exact h
  | _ => exact h

end RingCall

/-- The calls of any allowed sequence all succeed, so no copy leaves the buffer, and answer as the
bounded queue does; the buffer then holds the queue. -/
theorem ringBuffer_refines {capacity : Nat} (hmin : minRingBufferSize ≤ capacity) (hmax : capacity ≤ maxRingBufferSize)
    (cs : List RingCall) (hcs : Allowed RingCall.Pre RingCall.answer cs (.empty capacity)) :
    ∃ rb rb' q, RingBuffer.new capacity = .ok rb ∧
      outputs RingCall.run cs rb = .ok ((answers RingCall.answer cs (.empty capacity)).1, rb') ∧
      q = (answers RingCall.answer cs (.empty capacity)).2 ∧ rb'.Refines q ∧
      rb'.mCapacity = capacity + 1 ∧ rb'.mBegin < rb'.mCapacity ∧ rb'.mEnd < rb'.mCapacity ∧ rb'.mBuffer.length = rb'.mCapacity ∧
      rb'.count = q.count ∧ rb'.leftCapacity = q.leftCapacity ∧ (rb'.isEmpty = true ↔ q.count = 0) ∧
      (rb'.isFull = true ↔ q.leftCapacity = 0) ∧ ∀ s, rb'.peek s = .ok (min s q.count, q.front s, rb') := by
  obtain ⟨rb, hnew, hrb⟩ := RingBuffer.new_refines hmin hmax
  obtain ⟨rb', hout, hrb'⟩ := outputs_of_step RingCall.run_refines hrb hcs
  have hcap : rb'.mCapacity = capacity + 1 := by
    rw [hrb'.capacity_eq]
    exact congrArg (· + 1) (answers_inv (I := fun q : BoundedQueue Byte => q.capacity = capacity) RingCall.answer_capacity rfl)
  refine ⟨rb, rb', _, hnew, hout, rfl, hrb', hcap, hrb'.begin_lt, hrb'.end_lt, hrb'.length_buffer, hrb'.count_eq,
    hrb'.leftCapacity_eq, ?_, hrb'.isFull_iff, hrb'.peek_eq⟩
  rw [hrb'.isEmpty_iff, BoundedQueue.count_eq_zero]

/-- Two writes, of which the second fills the buffer and is cut, with reads of all kinds. -/
def someCalls : List RingCall :=
  [.write [1, 2, 3, 4, 5, 6, 7] 6, .peek 2, .readT 2, .skip 1, .write (List.replicate 3000 8) 3000, .tryRead 2100, .tryReadT 4,
    .read 1000, .reset]

theorem ringBuffer_refines_someCalls :
    ∃ rb rb', RingBuffer.new 2048 = .ok rb ∧
      outputs RingCall.run someCalls rb = .ok ((answers RingCall.answer someCalls (.empty 2048)).1, rb') := by
  have hmin : minRingBufferSize ≤ 2048 := by decide
  obtain ⟨rb, rb', q, hnew, hout, -⟩ := ringBuffer_refines hmin (by decide) someCalls (by decide +kernel)
  exact ⟨rb, rb', hnew, hout⟩

end Wawo
