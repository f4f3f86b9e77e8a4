import Wawo.Bytes.Basic

/-!
# Packets (`packet.hpp`)

A packet is a buffer with room on both sides of its contents, which lie from `m_read_idx` to
`m_write_idx`. The left room is `m_read_idx`, the right room what `m_left_capacity + m_right_capacity`
leaves after `m_write_idx`; a write that finds too little room grows its side, and the left side grows
by moving the contents. `Holds`: the contents are the given bytes. Every operation that does not throw
keeps it, with the bytes changed as its name says.
-/

namespace Wawo

open Memory Lts

def packMallocHReserver : Nat := 128
def packMinLeftCapacity : Nat := 128
def packMaxLeftCapacity : Nat := 1024 * 1024 * 16
def packMinRightCapacity : Nat := 256
def packMaxRightCapacity : Nat := 1024 * 1024 * 16
def packInitLeftCapacity : Nat := packMinLeftCapacity
def packInitRightCapacity : Nat := 1024 * 4 - packMinLeftCapacity - packMallocHReserver
def packIncrementLeftSize : Nat := 1024 * 8 - packMallocHReserver
def packIncrementRightSize : Nat := 1024 * 8 - packMallocHReserver

/-- `packet`. Its constructors leave `m_buffer` allocated. -/
structure Packet where
  mBuffer : List Byte
  mLeftCapacity : Nat
  mReadIdx : Nat
  mRightCapacity : Nat
  mWriteIdx : Nat
deriving DecidableEq

/-- `realloc(buffer, n)`; new bytes are as a debug build fills them. -/
def realloc (buffer : List Byte) (n : Nat) : List Byte := buffer.take n ++ List.replicate (n - buffer.length) 'w'.toUInt8

namespace Packet

variable (p : Packet)

def capacity : Nat := u32 (p.mLeftCapacity + p.mRightCapacity)

def len : Except ByteFault Nat := do
  require (p.mWriteIdx ≥ p.mReadIdx) .packetLen
  return subU32 p.mWriteIdx p.mReadIdx

/-- `_extend_leftbuffer_capacity__`; an empty packet keeps its positions. -/
def extendLeftbufferCapacity : Except ByteFault Packet := do
  require (u32 (p.mLeftCapacity + packIncrementLeftSize) ≤ packMaxLeftCapacity) .extendLeft
  let p := { p with mLeftCapacity := u32 (p.mLeftCapacity + packIncrementLeftSize) }
  let p := { p with mBuffer := realloc p.mBuffer p.capacity }
  let len ← p.len
  let newLeft := u32 (p.mReadIdx + packIncrementLeftSize)
  -- `_len` is an `int`
  if newLeft ≠ p.mReadIdx ∧ 0 < len ∧ len < 2 ^ 31 then
    let buffer ← store p.mBuffer newLeft (← load p.mBuffer p.mReadIdx len)
    return { p with mBuffer := buffer, mWriteIdx := u32 (p.mWriteIdx + packIncrementLeftSize), mReadIdx := newLeft }
  return p

/-- `_extend_rightbuffer_capacity__` -/
def extendRightbufferCapacity : Except ByteFault Packet := do
  require (p.mRightCapacity ≠ 0) .extendRightZero
  require (u32 (p.mRightCapacity + packIncrementRightSize) ≤ packMaxRightCapacity) .extendRight
  let p := { p with mRightCapacity := u32 (p.mRightCapacity + packIncrementRightSize) }
  return { p with mBuffer := realloc p.mBuffer p.capacity }

def reset : Except ByteFault Packet := do
  require (p.mLeftCapacity > 0 ∧ p.mLeftCapacity < packMaxLeftCapacity) .resetLeft
  return { p with mReadIdx := p.mLeftCapacity, mWriteIdx := p.mLeftCapacity }

/-- `packet(right_capacity, left_capacity)`, with `_init_buffer` -/
def new (rightCapacity leftCapacity : Nat) : Except ByteFault Packet := do
  let p : Packet :=
    { mBuffer := [], mLeftCapacity := max leftCapacity packMinLeftCapacity, mReadIdx := 0
      mRightCapacity := max rightCapacity packMinRightCapacity, mWriteIdx := 0 }
  let p ← p.reset
  require (p.mLeftCapacity ≤ packMaxLeftCapacity) .initLeft
  require (p.mRightCapacity ≤ packMaxRightCapacity) .initRight
  require (p.capacity ≠ 0) .initCapacity
  return { p with mBuffer := realloc [] p.capacity }

/-- The copy constructor. -/
def copy : Except ByteFault Packet := do
  if p.capacity ≠ 0 then
    return { p with mBuffer := ← load p.mBuffer 0 p.capacity }
  return { p with mBuffer := [] }

def leftLeftCapacity : Nat := p.mReadIdx

def leftRightCapacity : Nat := subU32 p.capacity p.mWriteIdx

def forwardWriteIndex (bytes : Nat) : Except ByteFault Packet := do
  require (subU32 p.capacity p.mWriteIdx ≥ bytes) .forwardWriteIndex
  return { p with mWriteIdx := u32 (p.mWriteIdx + bytes) }

/-- Bytes stored at `begin()`. -/
def storeBegin (bytes : List Byte) : Except ByteFault Packet := do
  return { p with mBuffer := ← store p.mBuffer p.mReadIdx bytes }

/-- Bytes stored at `end()`, as a caller of `forward_write_index` does first. -/
def storeEnd (bytes : List Byte) : Except ByteFault Packet := do
  return { p with mBuffer := ← store p.mBuffer p.mWriteIdx bytes }

/-- `while (length > left_left_capacity()) _extend_leftbuffer_capacity__()`: a round without a throw
takes `m_left_capacity` closer to its maximum. -/
def growLeft (length : Nat) : Except ByteFault Packet :=
  loopWhile (fun p => length > p.leftLeftCapacity) extendLeftbufferCapacity .loop
    (packMaxLeftCapacity / packIncrementLeftSize + 1) p

/-- `while (length > left_right_capacity()) _extend_rightbuffer_capacity__()` -/
def growRight (length : Nat) : Except ByteFault Packet :=
  loopWhile (fun p => length > p.leftRightCapacity) extendRightbufferCapacity .loop
    (packMaxRightCapacity / packIncrementRightSize + 1) p

/-- `write_left(buffer, length)` -/
def writeLeft (buffer : List Byte) (length : Nat) : Except ByteFault Packet := do
  let p ← p.growLeft length
  let p := { p with mReadIdx := subU32 p.mReadIdx length }
  return { p with mBuffer := ← store p.mBuffer p.mReadIdx (← load buffer 0 length) }

/-- `write_left<T>(t)` with `sizeof(T) = size` -/
def writeLeftT (size t : Nat) : Except ByteFault Packet := do
  let p ← p.growLeft size
  let p := { p with mReadIdx := subU32 p.mReadIdx size }
  let bytes := writeImpl size t
  let p := { p with mBuffer := ← store p.mBuffer p.mReadIdx bytes }
  require (bytes.length = size) .writeLeftCount
  return p

/-- `write<T>(t)` with `sizeof(T) = size` -/
def writeT (size t : Nat) : Except ByteFault Packet := do
  let p ← p.growRight size
  let bytes := writeImpl size t
  return { p with mBuffer := ← store p.mBuffer p.mWriteIdx bytes, mWriteIdx := u32 (p.mWriteIdx + bytes.length) }

/-- `write(buffer, length)` -/
def write (buffer : List Byte) (length : Nat) : Except ByteFault Packet := do
  let p ← p.growRight length
  return { p with mBuffer := ← store p.mBuffer p.mWriteIdx (← load buffer 0 length), mWriteIdx := u32 (p.mWriteIdx + length) }

/-- `peek<T>()` with `sizeof(T) = size` -/
def peekT (size : Nat) : Except ByteFault Nat := do
  require (size ≤ (← p.len)) .packetRead
  return readImpl size (← load p.mBuffer p.mReadIdx size)

/-- `read<T>()` with `sizeof(T) = size` -/
def readT (size : Nat) : Except ByteFault (Nat × Packet) := do
  require (size ≤ (← p.len)) .packetRead
  let t := readImpl size (← load p.mBuffer p.mReadIdx size)
  return (t, { p with mReadIdx := u32 (p.mReadIdx + size) })

/-- `read(target, length)`: what it returns, what it copies to `target`, the packet after it. -/
def read (length : Nat) : Except ByteFault (Nat × List Byte × Packet) := do
  require (length ≤ (← p.len) ∧ length > 0) .packetRead
  let target ← load p.mBuffer p.mReadIdx length
  return (length, target, { p with mReadIdx := u32 (p.mReadIdx + length) })

def skip (length : Nat) : Except ByteFault Packet := do
  require (length ≤ (← p.len)) .packetSkip
  return { p with mReadIdx := u32 (p.mReadIdx + length) }

/-- `peek(buffer, size)`: what it returns, what it copies to `buffer`. -/
def peek (size : Nat) : Except ByteFault (Nat × List Byte) := do
  let len ← p.len
  let canPeekSize := if size ≥ len then len else size
  return (canPeekSize, ← load p.mBuffer p.mReadIdx canPeekSize)

/-! ### The contents -/

/-- The bytes from `m_read_idx` to `m_write_idx`. -/
def bytes : List Byte := slice p.mBuffer p.mReadIdx (p.mWriteIdx - p.mReadIdx)

/-- The packet is well formed and its contents are `c`. -/
structure Holds (p : Packet) (c : List Byte) : Prop where
  left_pos : 0 < p.mLeftCapacity
  left_le : p.mLeftCapacity ≤ packMaxLeftCapacity
  right_le : p.mRightCapacity ≤ packMaxRightCapacity
  length_buffer : p.mBuffer.length = p.mLeftCapacity + p.mRightCapacity
  write_eq : p.mWriteIdx = p.mReadIdx + c.length
  write_le : p.mWriteIdx ≤ p.mLeftCapacity + p.mRightCapacity
  contents : slice p.mBuffer p.mReadIdx c.length = c

variable {p} {p' : Packet} {c : List Byte}

theorem length_realloc {buffer : List Byte} {n : Nat} (h : buffer.length ≤ n) : (realloc buffer n).length = n := by
  simp only [realloc, List.length_append, List.length_take, List.length_replicate]
  omega

theorem slice_realloc {buffer : List Byte} {n off k : Nat} (h : buffer.length ≤ n) (hk : off + k ≤ buffer.length) :
    slice (realloc buffer n) off k = slice buffer off k := by
  rw [realloc, List.take_of_length_le h, slice_append_of_le hk]

theorem len_noLoop : NoLoop p.len := .bind (.require nofun) fun _ => .ok _

theorem extendLeft_noLoop : NoLoop p.extendLeftbufferCapacity := by
  unfold extendLeftbufferCapacity
  refine .bind (.require nofun) fun _ => .bind len_noLoop fun len => ?_
  dsimp only
  split_ifs
  · exact .bind (.load ..) fun _ => .bind (.store ..) fun _ => .ok _
  · exact .ok _

theorem extendRight_noLoop : NoLoop p.extendRightbufferCapacity := by
  unfold extendRightbufferCapacity
  exact .bind (.require nofun) fun _ => .bind (.require nofun) fun _ => .ok _

theorem reset_eq_ok : p.reset = .ok p' ↔
    (0 < p.mLeftCapacity ∧ p.mLeftCapacity < packMaxLeftCapacity) ∧
      p' = { p with mReadIdx := p.mLeftCapacity, mWriteIdx := p.mLeftCapacity } := by
  unfold reset
  rw [bind_eq_ok]
  constructor
  · rintro ⟨u, hreq, h⟩
    cases h
    exact ⟨require_eq_ok.mp hreq, rfl⟩
  · rintro ⟨hreq, rfl⟩
    exact ⟨(), require_eq hreq, rfl⟩

/-- A packet is new whenever its capacities are within their bounds. -/
theorem new_eq_ok {rightCapacity leftCapacity : Nat} :
    new rightCapacity leftCapacity = .ok p ↔
      max leftCapacity packMinLeftCapacity < packMaxLeftCapacity ∧
      max rightCapacity packMinRightCapacity ≤ packMaxRightCapacity ∧
      p = { mBuffer := realloc [] (max leftCapacity packMinLeftCapacity + max rightCapacity packMinRightCapacity)
            mLeftCapacity := max leftCapacity packMinLeftCapacity, mReadIdx := max leftCapacity packMinLeftCapacity
            mRightCapacity := max rightCapacity packMinRightCapacity, mWriteIdx := max leftCapacity packMinLeftCapacity } := by
  have hcap {r : Nat} (hl : max leftCapacity packMinLeftCapacity < packMaxLeftCapacity) (hr : r ≤ packMaxRightCapacity) :
      u32 (max leftCapacity packMinLeftCapacity + r) = max leftCapacity packMinLeftCapacity + r := by
    unfold packMaxLeftCapacity at hl
    unfold packMaxRightCapacity at hr
    exact u32_of_lt (by omega)
  have hpos : 0 < max leftCapacity packMinLeftCapacity := by
    unfold packMinLeftCapacity
    omega
  unfold new
  dsimp only
  rw [bind_eq_ok]
  constructor
  · rintro ⟨p₁, hreset, h⟩
    obtain ⟨hleft, rfl⟩ := reset_eq_ok.mp hreset
    obtain ⟨u₁, -, h⟩ := bind_eq_ok.mp h
    obtain ⟨u₂, hright, h⟩ := bind_eq_ok.mp h
    obtain ⟨u₃, -, h⟩ := bind_eq_ok.mp h
    have hright := require_eq_ok.mp hright
    refine ⟨hleft.2, hright, ?_⟩
    cases h
    simp only [capacity, hcap hleft.2 hright]
  · rintro ⟨hleft, hright, rfl⟩
    have hne : u32 (max leftCapacity packMinLeftCapacity + max rightCapacity packMinRightCapacity) ≠ 0 := by
      rw [hcap hleft hright]
      omega
    refine ⟨_, reset_eq_ok.mpr ⟨⟨hpos, hleft⟩, rfl⟩, ?_⟩
    refine bind_eq_ok.mpr ⟨(), require_eq hleft.le, bind_eq_ok.mpr ⟨(), require_eq hright, bind_eq_ok.mpr ⟨(), require_eq hne, ?_⟩⟩⟩
    simp only [pure_eq_ok, capacity, hcap hleft hright]

theorem new_holds {rightCapacity leftCapacity : Nat} (h : new rightCapacity leftCapacity = .ok p) : p.Holds [] := by
  obtain ⟨hleft, hright, rfl⟩ := new_eq_ok.mp h
  refine ⟨?_, hleft.le, hright, length_realloc (Nat.zero_le _), rfl, Nat.le_add_right _ _, ?_⟩
  · unfold packMinLeftCapacity
    dsimp only
    omega
  · exact slice_zero

namespace Holds

variable (h : p.Holds c)
include h

theorem bytes_eq : p.bytes = c := by
  rw [bytes, h.write_eq, Nat.add_sub_cancel_left, h.contents]

theorem capacity_le : p.mLeftCapacity + p.mRightCapacity ≤ 2 ^ 25 := by
  have h₁ := h.left_le
  have h₂ := h.right_le
  unfold packMaxLeftCapacity at h₁
  unfold packMaxRightCapacity at h₂
  omega

theorem capacity_eq : p.capacity = p.mLeftCapacity + p.mRightCapacity := by
  have h₁ := h.capacity_le
  exact u32_of_lt (by omega)

theorem len_eq : p.len = .ok c.length := by
  have h₁ := h.capacity_le
  have h₂ := h.write_eq
  have h₃ := h.write_le
  have hsub : subU32 p.mWriteIdx p.mReadIdx = c.length := by
    unfold subU32
    omega
  unfold len
  rw [require_eq (by omega), ok_bind, hsub, pure_eq_ok]

theorem leftRightCapacity_eq : p.leftRightCapacity = p.mLeftCapacity + p.mRightCapacity - p.mWriteIdx := by
  have h₁ := h.capacity_le
  have h₂ := h.write_le
  rw [leftRightCapacity, h.capacity_eq]
  unfold subU32
  omega

/-- The contents move right by the growth of the left side; without contents nothing moves. -/
theorem extendLeft_eq (hleft : p.mLeftCapacity + packIncrementLeftSize ≤ packMaxLeftCapacity) :
    ∃ p', p.extendLeftbufferCapacity = .ok p' ∧ p'.Holds c ∧ p'.mLeftCapacity = p.mLeftCapacity + packIncrementLeftSize ∧
      p'.mRightCapacity = p.mRightCapacity ∧ p'.mReadIdx = if c = [] then p.mReadIdx else p.mReadIdx + packIncrementLeftSize := by
  have h₁ := h.capacity_le
  have h₂ := h.write_eq
  have h₃ := h.write_le
  have hlen := h.length_buffer
  have hinc : packIncrementLeftSize = 8064 := rfl
  have hcap : u32 (p.mLeftCapacity + packIncrementLeftSize + p.mRightCapacity) =
      p.mLeftCapacity + packIncrementLeftSize + p.mRightCapacity := u32_of_lt (by omega)
  obtain ⟨buffer, hbuffer⟩ : ∃ buffer, buffer = realloc p.mBuffer (p.mLeftCapacity + packIncrementLeftSize + p.mRightCapacity) :=
    ⟨_, rfl⟩
  have hblen : buffer.length = p.mLeftCapacity + packIncrementLeftSize + p.mRightCapacity := by
    rw [hbuffer, length_realloc (by omega)]
  have hcont : slice buffer p.mReadIdx c.length = c := by
    rw [hbuffer, slice_realloc (by omega) (by omega), h.contents]
  have hgrown : Holds { p with mLeftCapacity := p.mLeftCapacity + packIncrementLeftSize, mBuffer := buffer } c := by
    refine ⟨?_, hleft, h.right_le, hblen, h₂, ?_, hcont⟩
    · exact Nat.add_pos_left h.left_pos _
    · dsimp only
      omega
  unfold extendLeftbufferCapacity
  rw [u32_of_lt (by omega), require_eq hleft, ok_bind]
  dsimp only [capacity]
  rw [hcap, ← hbuffer, hgrown.len_eq, ok_bind, u32_of_lt (show p.mReadIdx + packIncrementLeftSize < 2 ^ 32 by omega)]
  by_cases hc : c = []
  · subst hc
    rw [if_neg (by simp)]
    exact ⟨_, rfl, hgrown, rfl, rfl, (if_pos rfl).symm⟩
  · have hpos := List.length_pos_iff.mpr hc
    rw [if_pos ⟨by omega, hpos, by omega⟩, load_eq (by omega), ok_bind, hcont, store_eq (by omega), ok_bind, u32_of_lt (by omega)]
    refine ⟨_, rfl, ⟨hgrown.left_pos, hleft, h.right_le, ?_, ?_, ?_, ?_⟩, rfl, rfl, (if_neg hc).symm⟩
    · rw [length_poke (by omega), hblen]
    · dsimp only
      omega
    · dsimp only
      omega
    · exact slice_poke_self (by omega)

theorem extendLeft (hp : p.extendLeftbufferCapacity = .ok p') :
    p'.Holds c ∧ p'.mLeftCapacity = p.mLeftCapacity + packIncrementLeftSize ∧ p'.mRightCapacity = p.mRightCapacity ∧
      p'.mReadIdx = if c = [] then p.mReadIdx else p.mReadIdx + packIncrementLeftSize := by
  have h₁ := h.capacity_le
  have hinc : packIncrementLeftSize = 8064 := rfl
  have hreq := hp
  unfold extendLeftbufferCapacity at hreq
  obtain ⟨_, hreq, -⟩ := bind_eq_ok.mp hreq
  have hreq := require_eq_ok.mp hreq
  rw [u32_of_lt (by omega)] at hreq
  obtain ⟨p'', hp'', hspec⟩ := h.extendLeft_eq hreq
  rw [hp] at hp''
  cases hp''
  exact hspec

theorem extendRight (hp : p.extendRightbufferCapacity = .ok p') :
    p'.Holds c ∧ p'.mRightCapacity = p.mRightCapacity + packIncrementRightSize ∧ p'.mLeftCapacity = p.mLeftCapacity := by
  have h₁ := h.capacity_le
  have h₂ := h.write_eq
  have h₃ := h.write_le
  have hlen := h.length_buffer
  have hinc : packIncrementRightSize = 8064 := rfl
  unfold extendRightbufferCapacity at hp
  obtain ⟨u₁, -, hp⟩ := bind_eq_ok.mp hp
  obtain ⟨u₂, hreq, hp⟩ := bind_eq_ok.mp hp
  have hreq := require_eq_ok.mp hreq
  rw [u32_of_lt (by omega)] at hreq hp
  dsimp only [capacity] at hp
  rw [u32_of_lt (by omega)] at hp
  cases hp
  refine ⟨⟨h.left_pos, h.left_le, hreq, length_realloc (by omega), h₂, ?_, ?_⟩, rfl, rfl⟩
  · dsimp only
    omega
  · dsimp only
    rw [slice_realloc (by omega) (by omega), h.contents]

/-- The left side grows until there is room, or the next round would throw. -/
theorem growLeft_ensures (length : Nat) :
    Ensures (fun p' => p'.Holds c ∧ length ≤ p'.mReadIdx) (· ≠ .loop) (p.growLeft length) := by
  have hinc : packIncrementLeftSize = 8064 := rfl
  have hmax : packMaxLeftCapacity = 16777216 := rfl
  unfold Packet.growLeft
  refine (loopWhile_ensures (I := fun p => p.Holds c) (fun p => (packMaxLeftCapacity - p.mLeftCapacity) / packIncrementLeftSize)
    ?_ h ?_).mono fun p' h' => ⟨h'.1, Nat.le_of_not_lt (of_decide_eq_false h'.2)⟩
  · intro p hs _
    cases hp : p.extendLeftbufferCapacity with
    | error e => exact fun he => extendLeft_noLoop.ne (hp.trans (congrArg _ he))
    | ok p' =>
      obtain ⟨h', hleft, -⟩ := hs.extendLeft hp
      have hle := h'.left_le
      refine ⟨h', ?_⟩
      rw [hleft, hmax, hinc] at *
      omega
  · rw [hmax, hinc]
    omega

theorem growRight_ensures (length : Nat) :
    Ensures (fun p' => p'.Holds c ∧ length ≤ p'.mLeftCapacity + p'.mRightCapacity - p'.mWriteIdx) (· ≠ .loop)
      (p.growRight length) := by
  have hinc : packIncrementRightSize = 8064 := rfl
  have hmax : packMaxRightCapacity = 16777216 := rfl
  unfold Packet.growRight
  refine (loopWhile_ensures (I := fun p => p.Holds c)
    (fun p => (packMaxRightCapacity - p.mRightCapacity) / packIncrementRightSize) ?_ h ?_).mono fun p' h' => ?_
  · intro p hs _
    cases hp : p.extendRightbufferCapacity with
    | error e => exact fun he => extendRight_noLoop.ne (hp.trans (congrArg _ he))
    | ok p' =>
      obtain ⟨h', hright, -⟩ := hs.extendRight hp
      have hle := h'.right_le
      refine ⟨h', ?_⟩
      rw [hright, hmax, hinc] at *
      omega
  · rw [hmax, hinc]
    omega
  · obtain ⟨h', hc⟩ := h'
    rw [h'.leftRightCapacity_eq] at hc
    exact ⟨h', Nat.le_of_not_lt (of_decide_eq_false hc)⟩

/-- Bytes put right before the contents. -/
theorem prepend {bytes : List Byte} (hb : bytes.length ≤ p.mReadIdx) :
    Holds { p with mReadIdx := p.mReadIdx - bytes.length, mBuffer := poke p.mBuffer (p.mReadIdx - bytes.length) bytes }
      (bytes ++ c) := by
  have h₂ := h.write_eq
  have h₃ := h.write_le
  have hlen := h.length_buffer
  have hstore : p.mReadIdx - bytes.length + bytes.length ≤ p.mBuffer.length := by omega
  refine ⟨h.left_pos, h.left_le, h.right_le, ?_, ?_, h₃, ?_⟩
  · rw [length_poke hstore, hlen]
  · rw [List.length_append]
    dsimp only
    omega
  · dsimp only
    rw [List.length_append, slice_add, slice_poke_self hstore, slice_poke_of_disjoint hstore (by omega), Nat.sub_add_cancel hb,
      h.contents]

/-- Bytes put right behind the contents. -/
theorem append {bytes : List Byte} (hb : p.mWriteIdx + bytes.length ≤ p.mLeftCapacity + p.mRightCapacity) :
    Holds { p with mBuffer := poke p.mBuffer p.mWriteIdx bytes, mWriteIdx := p.mWriteIdx + bytes.length } (c ++ bytes) := by
  have h₂ := h.write_eq
  have h₃ := h.write_le
  have hlen := h.length_buffer
  have hstore : p.mWriteIdx + bytes.length ≤ p.mBuffer.length := by omega
  refine ⟨h.left_pos, h.left_le, h.right_le, ?_, ?_, hb, ?_⟩
  · rw [length_poke hstore, hlen]
  · rw [List.length_append]
    dsimp only
    omega
  · dsimp only
    rw [List.length_append, slice_add, ← h₂, slice_poke_self hstore, slice_poke_of_disjoint hstore (by omega), h.contents]

/-- Bytes taken from the front of the contents. -/
theorem advance {n : Nat} (hn : n ≤ c.length) : Holds { p with mReadIdx := u32 (p.mReadIdx + n) } (c.drop n) := by
  have h₁ := h.capacity_le
  have h₂ := h.write_eq
  have h₃ := h.write_le
  rw [u32_of_lt (by omega)]
  refine ⟨h.left_pos, h.left_le, h.right_le, h.length_buffer, ?_, h₃, ?_⟩
  · rw [List.length_drop]
    dsimp only
    omega
  · rw [List.length_drop, ← drop_slice, h.contents]

theorem load_front {n : Nat} (hn : n ≤ c.length) : load p.mBuffer p.mReadIdx n = .ok (c.take n) := by
  have h₂ := h.write_eq
  have h₃ := h.write_le
  have hlen := h.length_buffer
  have htake : (slice p.mBuffer p.mReadIdx c.length).take n = slice p.mBuffer p.mReadIdx (min n c.length) := take_slice
  rw [h.contents, Nat.min_eq_left hn] at htake
  rw [load_eq (by omega), htake]

/-! ### The operations -/

/-- What both `write_left` do with the bytes, once there is room. -/
theorem storeLeft {bytes buffer : List Byte} {n : Nat} (hn : bytes.length = n) (hroom : n ≤ p.mReadIdx)
    (hs : store p.mBuffer (subU32 p.mReadIdx n) bytes = .ok buffer) :
    Holds { p with mReadIdx := subU32 p.mReadIdx n, mBuffer := buffer } (bytes ++ c) := by
  have h₁ := h.capacity_le
  have h₂ := h.write_eq
  have h₃ := h.write_le
  have hsub : subU32 p.mReadIdx n = p.mReadIdx - n := by
    unfold subU32
    omega
  rw [hsub] at hs ⊢
  obtain ⟨-, rfl⟩ := store_eq_ok.mp hs
  subst hn
  exact h.prepend hroom

theorem writeLeft {buffer : List Byte} {length : Nat} (hp : p.writeLeft buffer length = .ok p') :
    p'.Holds (buffer.take length ++ c) := by
  unfold Packet.writeLeft at hp
  obtain ⟨p₁, hgrow, hp₁⟩ := bind_eq_ok.mp hp
  obtain ⟨bytes, hload, hp₂⟩ := bind_eq_ok.mp hp₁
  obtain ⟨buffer', hstore, hp₃⟩ := bind_eq_ok.mp hp₂
  obtain ⟨hin, hbytes⟩ := load_eq_ok.mp hload
  obtain ⟨h', hroom⟩ := (h.growLeft_ensures _).of_eq_ok hgrow
  have hheld := h'.storeLeft (by rw [hbytes, length_slice_of_le hin]) hroom hstore
  rw [hbytes] at hheld
  cases hp₃
  exact hheld

theorem writeLeftT {size t : Nat} (hp : p.writeLeftT size t = .ok p') : p'.Holds (writeImpl size t ++ c) := by
  unfold Packet.writeLeftT at hp
  obtain ⟨p₁, hgrow, hp₁⟩ := bind_eq_ok.mp hp
  obtain ⟨buffer', hstore, hp₂⟩ := bind_eq_ok.mp hp₁
  obtain ⟨u, -, hp₃⟩ := bind_eq_ok.mp hp₂
  obtain ⟨h', hroom⟩ := (h.growLeft_ensures _).of_eq_ok hgrow
  cases hp₃
  exact h'.storeLeft (length_writeImpl size t) hroom hstore

/-- What both `write` do with the bytes, once there is room. -/
theorem storeRight {bytes buffer : List Byte} {n : Nat} (hn : bytes.length = n)
    (hroom : n ≤ p.mLeftCapacity + p.mRightCapacity - p.mWriteIdx) (hs : store p.mBuffer p.mWriteIdx bytes = .ok buffer) :
    Holds { p with mBuffer := buffer, mWriteIdx := u32 (p.mWriteIdx + n) } (c ++ bytes) := by
  have h₁ := h.capacity_le
  have h₃ := h.write_le
  obtain ⟨-, rfl⟩ := store_eq_ok.mp hs
  rw [u32_of_lt (by omega)]
  subst hn
  exact h.append (by omega)

theorem writeT {size t : Nat} (hp : p.writeT size t = .ok p') : p'.Holds (c ++ writeImpl size t) := by
  unfold Packet.writeT at hp
  obtain ⟨p₁, hgrow, hp₁⟩ := bind_eq_ok.mp hp
  obtain ⟨buffer', hstore, hp₂⟩ := bind_eq_ok.mp hp₁
  obtain ⟨h', hroom⟩ := (h.growRight_ensures _).of_eq_ok hgrow
  cases hp₂
  exact h'.storeRight rfl (by rw [length_writeImpl]; exact hroom) hstore

theorem write {buffer : List Byte} {length : Nat} (hp : p.write buffer length = .ok p') :
    p'.Holds (c ++ buffer.take length) := by
  unfold Packet.write at hp
  obtain ⟨p₁, hgrow, hp₁⟩ := bind_eq_ok.mp hp
  obtain ⟨bytes, hload, hp₂⟩ := bind_eq_ok.mp hp₁
  obtain ⟨buffer', hstore, hp₃⟩ := bind_eq_ok.mp hp₂
  obtain ⟨hin, hbytes⟩ := load_eq_ok.mp hload
  obtain ⟨h', hroom⟩ := (h.growRight_ensures _).of_eq_ok hgrow
  have hheld := h'.storeRight (by rw [hbytes, length_slice_of_le hin]) hroom hstore
  rw [hbytes] at hheld
  cases hp₃
  exact hheld

/-- Bytes stored at `end()` and then taken in. They must fit, and then they do not throw. -/
theorem storeEnd_forward {bytes : List Byte} :
    (p.storeEnd bytes >>= fun p => p.forwardWriteIndex bytes.length) = .ok p' ↔
      p.mWriteIdx + bytes.length ≤ p.mLeftCapacity + p.mRightCapacity ∧
      p' = { p with mBuffer := poke p.mBuffer p.mWriteIdx bytes, mWriteIdx := p.mWriteIdx + bytes.length } := by
  have h₁ := h.capacity_le
  have h₃ := h.write_le
  have hlen := h.length_buffer
  have hroom : subU32 p.capacity p.mWriteIdx = p.mLeftCapacity + p.mRightCapacity - p.mWriteIdx := h.leftRightCapacity_eq
  constructor
  · intro hp
    obtain ⟨p₁, hstore, hp⟩ := bind_eq_ok.mp hp
    obtain ⟨buffer, hstore, hp₁⟩ := bind_eq_ok.mp hstore
    obtain ⟨hin, rfl⟩ := store_eq_ok.mp hstore
    cases hp₁
    obtain ⟨u, -, hp⟩ := bind_eq_ok.mp hp
    dsimp only at hp
    rw [u32_of_lt (by omega)] at hp
    cases hp
    exact ⟨by omega, rfl⟩
  · rintro ⟨hin, rfl⟩
    refine bind_eq_ok.mpr ⟨_, bind_eq_ok.mpr ⟨_, store_eq (by omega), rfl⟩, bind_eq_ok.mpr ⟨(), require_eq ?_, ?_⟩⟩
    · show bytes.length ≤ subU32 p.capacity p.mWriteIdx
      omega
    · dsimp only
      rw [u32_of_lt (by omega), pure_eq_ok]

theorem peekT_eq {size : Nat} (hs : size ≤ c.length) : p.peekT size = .ok (readImpl size c) := by
  unfold Packet.peekT
  rw [h.len_eq, ok_bind, require_eq hs, ok_bind, h.load_front hs, ok_bind, pure_eq_ok, readImpl_take]

theorem peekT {size t : Nat} (hp : p.peekT size = .ok t) : t = readImpl size c := by
  have hp' := hp
  unfold Packet.peekT at hp'
  rw [h.len_eq, ok_bind] at hp'
  obtain ⟨u, hreq, -⟩ := bind_eq_ok.mp hp'
  rw [h.peekT_eq (require_eq_ok.mp hreq)] at hp
  cases hp
  rfl

theorem readT_eq {size : Nat} (hs : size ≤ c.length) :
    p.readT size = .ok (readImpl size c, { p with mReadIdx := u32 (p.mReadIdx + size) }) := by
  unfold Packet.readT
  rw [h.len_eq, ok_bind, require_eq hs, ok_bind, h.load_front hs, ok_bind, pure_eq_ok, readImpl_take]

theorem readT_short {size : Nat} (hs : c.length < size) : p.readT size = .error .packetRead := by
  unfold Packet.readT
  rw [h.len_eq, ok_bind, require_ne (Nat.not_le.mpr hs)]
  rfl

theorem readT_drop {size : Nat} (hs : size ≤ c.length) : ∃ p', p.readT size = .ok (readImpl size c, p') ∧ p'.Holds (c.drop size) :=
  ⟨_, h.readT_eq hs, h.advance hs⟩

theorem readT {size t : Nat} (hp : p.readT size = .ok (t, p')) : t = readImpl size c ∧ p'.Holds (c.drop size) := by
  have hp' := hp
  unfold Packet.readT at hp'
  rw [h.len_eq, ok_bind] at hp'
  obtain ⟨u, hreq, -⟩ := bind_eq_ok.mp hp'
  have hs := require_eq_ok.mp hreq
  rw [h.readT_eq hs] at hp
  cases hp
  exact ⟨rfl, h.advance hs⟩

theorem read {length n : Nat} {target : List Byte} (hp : p.read length = .ok (n, target, p')) :
    n = length ∧ target = c.take length ∧ p'.Holds (c.drop length) := by
  unfold Packet.read at hp
  rw [h.len_eq, ok_bind] at hp
  obtain ⟨u, hreq, hp⟩ := bind_eq_ok.mp hp
  have hs := (require_eq_ok.mp hreq).1
  rw [h.load_front hs, ok_bind] at hp
  cases hp
  exact ⟨rfl, rfl, h.advance hs⟩

theorem skip {length : Nat} (hp : p.skip length = .ok p') : p'.Holds (c.drop length) := by
  unfold Packet.skip at hp
  rw [h.len_eq, ok_bind] at hp
  obtain ⟨u, hreq, hp⟩ := bind_eq_ok.mp hp
  cases hp
  exact h.advance (require_eq_ok.mp hreq)

theorem peek (size : Nat) : p.peek size = .ok (min size c.length, c.take size) := by
  unfold Packet.peek
  rw [h.len_eq, ok_bind]
  dsimp only
  have hmin : (if size ≥ c.length then c.length else size) = min size c.length := by
    split_ifs <;> omega
  rw [hmin, h.load_front (Nat.min_le_right _ _), ok_bind, pure_eq_ok]
  rcases Nat.le_total size c.length with hle | hle
  · rw [Nat.min_eq_left hle]
  · rw [Nat.min_eq_right hle, List.take_length, List.take_of_length_le hle]

theorem reset (hp : p.reset = .ok p') : p'.Holds [] := by
  obtain ⟨-, rfl⟩ := reset_eq_ok.mp hp
  exact ⟨h.left_pos, h.left_le, h.right_le, h.length_buffer, rfl, Nat.le_add_right _ _, slice_zero⟩

/-- The copy constructor makes an equal packet. -/
theorem copy : p.copy = .ok p := by
  have hlen := h.length_buffer
  have hpos := h.left_pos
  unfold Packet.copy
  rw [h.capacity_eq, if_pos (by omega), load_eq (by omega), ok_bind, ← hlen, slice_self, pure_eq_ok]

/-- A value written with `T` at the front is read back with `T`. -/
theorem readT_front (size t : Nat) {rest : List Byte} (hc : c = writeImpl size t ++ rest) (ht : t < 2 ^ (8 * size)) :
    ∃ p', p.readT size = .ok (t, p') ∧ p'.Holds rest := by
  subst hc
  have hsize : size ≤ (writeImpl size t ++ rest).length := by
    rw [List.length_append, length_writeImpl]
    omega
  have hrest : (writeImpl size t ++ rest).drop size = rest := List.drop_left' (length_writeImpl size t)
  refine ⟨{ p with mReadIdx := u32 (p.mReadIdx + size) }, ?_, ?_⟩
  · rw [h.readT_eq hsize, readImpl_append (by rw [length_writeImpl]), readImpl_writeImpl ht]
  · have := h.advance hsize
    rwa [hrest] at this

end Holds

/-! ### Writes that have room -/

/-- Room for `l` bytes on the left and for `r` on the right. -/
structure Spare (p : Packet) (l r : Nat) : Prop where
  left : l ≤ p.mReadIdx
  right : p.mWriteIdx + r ≤ p.mLeftCapacity + p.mRightCapacity

/-- A new packet has `PACK_MIN_RIGHT_CAPACITY` at least. -/
theorem new_spare_max {r : Nat} (hr : r ≤ packMaxRightCapacity) :
    ∃ p, new r packInitLeftCapacity = .ok p ∧ p.Holds [] ∧ p.Spare packInitLeftCapacity (max r packMinRightCapacity) := by
  have hright : max r packMinRightCapacity ≤ packMaxRightCapacity := Nat.max_le.mpr ⟨hr, by decide⟩
  obtain ⟨p, hp⟩ : ∃ p, new r packInitLeftCapacity = .ok p := ⟨_, new_eq_ok.mpr ⟨by decide, hright, rfl⟩⟩
  obtain ⟨-, -, heq⟩ := new_eq_ok.mp hp
  refine ⟨p, hp, new_holds hp, ?_, ?_⟩
  · rw [heq]
    exact Nat.le_max_left _ _
  · rw [heq]

theorem new_spare {r : Nat} (hr : r ≤ packMaxRightCapacity) :
    ∃ p, new r packInitLeftCapacity = .ok p ∧ p.Holds [] ∧ p.Spare packInitLeftCapacity r := by
  obtain ⟨p, hp, hheld, hs⟩ := new_spare_max hr
  exact ⟨p, hp, hheld, hs.left, (Nat.add_le_add_left (Nat.le_max_left _ _) _).trans hs.right⟩

theorem growLeft_of_le {n : Nat} (hle : n ≤ p.mReadIdx) : p.growLeft n = .ok p := by
  have hfits : decide (n > p.leftLeftCapacity) = false := decide_eq_false (Nat.not_lt.mpr hle)
  unfold growLeft
  rw [loopWhile, hfits]
  rfl

namespace Holds

variable (h : p.Holds c) {l r : Nat}
include h

theorem growRight_eq {length : Nat} (hs : p.Spare l (length + r)) : p.growRight length = .ok p := by
  have hright := hs.right
  have hfits : decide (length > p.leftRightCapacity) = false := by
    rw [h.leftRightCapacity_eq]
    exact decide_eq_false (by omega)
  unfold Packet.growRight
  rw [loopWhile, hfits]
  rfl

theorem spare_append {bytes buffer : List Byte} (hs : p.Spare l (bytes.length + r)) :
    Spare { p with mBuffer := buffer, mWriteIdx := u32 (p.mWriteIdx + bytes.length) } l r := by
  have h₁ := h.capacity_le
  have hright := hs.right
  refine ⟨hs.left, ?_⟩
  rw [u32_of_lt (by omega)]
  dsimp only
  omega

theorem writeT_spare (size t : Nat) (hs : p.Spare l (size + r)) :
    ∃ p', p.writeT size t = .ok p' ∧ p'.Holds (c ++ writeImpl size t) ∧ p'.Spare l r := by
  have hlen := h.length_buffer
  have hsize := length_writeImpl size t
  have hright := hs.right
  have hs' : p.Spare l ((writeImpl size t).length + r) := by rwa [hsize]
  have hwrite : p.writeT size t = .ok { p with
      mBuffer := poke p.mBuffer p.mWriteIdx (writeImpl size t), mWriteIdx := u32 (p.mWriteIdx + (writeImpl size t).length) } := by
    unfold Packet.writeT
    rw [h.growRight_eq hs, ok_bind]
    dsimp only
    rw [store_eq (by omega), ok_bind, pure_eq_ok]
  exact ⟨_, hwrite, h.writeT hwrite, h.spare_append hs'⟩

theorem write_spare (bytes : List Byte) (hs : p.Spare l (bytes.length + r)) :
    ∃ p', p.write bytes bytes.length = .ok p' ∧ p'.Holds (c ++ bytes) ∧ p'.Spare l r := by
  have hlen := h.length_buffer
  have hright := hs.right
  have hwrite : p.write bytes bytes.length = .ok { p with
      mBuffer := poke p.mBuffer p.mWriteIdx bytes, mWriteIdx := u32 (p.mWriteIdx + bytes.length) } := by
    unfold Packet.write
    rw [h.growRight_eq hs, ok_bind, load_eq (by omega), ok_bind, slice_self, store_eq (by omega), ok_bind, pure_eq_ok]
  have hheld := h.write hwrite
  rw [List.take_length] at hheld
  exact ⟨_, hwrite, hheld, h.spare_append hs⟩

theorem writeLeftT_spare (size t : Nat) (hs : p.Spare (size + l) r) :
    ∃ p', p.writeLeftT size t = .ok p' ∧ p'.Holds (writeImpl size t ++ c) ∧ p'.Spare l r := by
  have hleft := hs.left
  have hgrow : p.growLeft size = .ok p := growLeft_of_le (Nat.le_of_add_right_le hleft)
  have h₁ := h.write_le
  have h₂ := h.length_buffer
  have h₃ := h.capacity_le
  have h₄ := h.write_eq
  have hsize := length_writeImpl size t
  have hsub : subU32 p.mReadIdx size = p.mReadIdx - size := by
    unfold subU32
    omega
  have hwrite : p.writeLeftT size t = .ok { p with
      mReadIdx := p.mReadIdx - size, mBuffer := poke p.mBuffer (p.mReadIdx - size) (writeImpl size t) } := by
    unfold Packet.writeLeftT
    rw [hgrow, ok_bind]
    dsimp only
    rw [hsub, store_eq (by omega), ok_bind, require_eq hsize, ok_bind, pure_eq_ok]
  refine ⟨_, hwrite, h.writeLeftT hwrite, ?_, hs.right⟩
  dsimp only
  omega

end Holds
end Packet

/-! ### Sequences of calls -/

/-- A call on a packet. `size` is `sizeof(T)`; `store` is a store at `end()` followed by
`forward_write_index`. -/
inductive PacketCall
  | write (buffer : List Byte) (length : Nat)
  | writeT (size t : Nat)
  | writeLeft (buffer : List Byte) (length : Nat)
  | writeLeftT (size t : Nat)
  | store (bytes : List Byte)
  | read (length : Nat)
  | readT (size : Nat)
  | peek (size : Nat)
  | peekT (size : Nat)
  | skip (length : Nat)
  | reset
deriving DecidableEq

/-- What a call returns, with what it copies to its target. -/
inductive PacketResult
  | copied (n : Nat) (target : List Byte)
  | value (t : Nat)
  | done
deriving DecidableEq

namespace PacketCall

open PacketResult

def run (call : PacketCall) (p : Packet) : Except ByteFault (PacketResult × Packet) :=
  match call with
  | .write buffer length => (p.write buffer length).map fun p => (done, p)
  | .writeT size t => (p.writeT size t).map fun p => (done, p)
  | .writeLeft buffer length => (p.writeLeft buffer length).map fun p => (done, p)
  | .writeLeftT size t => (p.writeLeftT size t).map fun p => (done, p)
  | .store bytes => (p.storeEnd bytes >>= fun p => p.forwardWriteIndex bytes.length).map fun p => (done, p)
  | .read length => (p.read length).map fun (n, target, p) => (copied n target, p)
  | .readT size => (p.readT size).map fun (t, p) => (value t, p)
  | .peek size => (p.peek size).map fun (n, target) => (copied n target, p)
  | .peekT size => (p.peekT size).map fun t => (value t, p)
  | .skip length => (p.skip length).map fun p => (done, p)
  | .reset => p.reset.map fun p => (done, p)

/-- What a sequence of bytes, written at both ends and read at the front, answers. -/
def answer (call : PacketCall) (c : List Byte) : PacketResult × List Byte :=
  match call with
  | .write buffer length => (done, c ++ buffer.take length)
  | .writeT size t => (done, c ++ writeImpl size t)
  | .writeLeft buffer length => (done, buffer.take length ++ c)
  | .writeLeftT size t => (done, writeImpl size t ++ c)
  | .store bytes => (done, c ++ bytes)
  | .read length => (copied length (c.take length), c.drop length)
  | .readT size => (value (readImpl size c), c.drop size)
  | .peek size => (copied (min size c.length) (c.take size), c)
  | .peekT size => (value (readImpl size c), c)
  | .skip length => (done, c.drop length)
  | .reset => (done, [])

theorem run_holds (call : PacketCall) (p : Packet) (c : List Byte) (o : PacketResult) (p' : Packet) (h : p.Holds c)
    (hrun : call.run p = .ok (o, p')) : o = (call.answer c).1 ∧ p'.Holds (call.answer c).2 := by
  cases call with
  | write buffer length =>
    obtain ⟨p₁, hp, heq⟩ := map_eq_ok.mp hrun
    cases heq
    exact ⟨rfl, h.write hp⟩
  | writeT size t =>
    obtain ⟨p₁, hp, heq⟩ := map_eq_ok.mp hrun
    cases heq
    exact ⟨rfl, h.writeT hp⟩
  | writeLeft buffer length =>
    obtain ⟨p₁, hp, heq⟩ := map_eq_ok.mp hrun
    cases heq
    exact ⟨rfl, h.writeLeft hp⟩
  | writeLeftT size t =>
    obtain ⟨p₁, hp, heq⟩ := map_eq_ok.mp hrun
    cases heq
    exact ⟨rfl, h.writeLeftT hp⟩
  | store bytes =>
    obtain ⟨p₁, hp, heq⟩ := map_eq_ok.mp hrun
    cases heq
    obtain ⟨hin, rfl⟩ := h.storeEnd_forward.mp hp
    exact ⟨rfl, h.append hin⟩
  | read length =>
    obtain ⟨⟨n, target, p₁⟩, hp, heq⟩ := map_eq_ok.mp hrun
    cases heq
    obtain ⟨rfl, rfl, h'⟩ := h.read hp
    exact ⟨rfl, h'⟩
  | readT size =>
    obtain ⟨⟨t, p₁⟩, hp, heq⟩ := map_eq_ok.mp hrun
    cases heq
    obtain ⟨rfl, h'⟩ := h.readT hp
    exact ⟨rfl, h'⟩
  | peek size =>
    obtain ⟨⟨n, target⟩, hp, heq⟩ := map_eq_ok.mp hrun
    cases heq
    rw [h.peek] at hp
    cases hp
    exact ⟨rfl, h⟩
  | peekT size =>
    obtain ⟨t, hp, heq⟩ := map_eq_ok.mp hrun
    cases heq
    obtain rfl := h.peekT hp
    exact ⟨rfl, h⟩
  | skip length =>
    obtain ⟨p₁, hp, heq⟩ := map_eq_ok.mp hrun
    cases heq
    exact ⟨rfl, h.skip hp⟩
  | reset =>
    obtain ⟨p₁, hp, heq⟩ := map_eq_ok.mp hrun
    cases heq
    exact ⟨rfl, h.reset hp⟩

/-- A call on a packet that holds something returns or throws: no growing of a side goes on. -/
theorem run_noLoop (call : PacketCall) {p : Packet} {c : List Byte} (h : p.Holds c) : NoLoop (call.run p) := by
  have hleft (length : Nat) : NoLoop (p.growLeft length) := ⟨(h.growLeft_ensures length).mono fun _ _ => trivial⟩
  have hright (length : Nat) : NoLoop (p.growRight length) := ⟨(h.growRight_ensures length).mono fun _ _ => trivial⟩
  cases call with
  | write buffer length =>
    exact .map _ (.bind (hright _) fun _ => .bind (.load ..) fun _ => .bind (.store ..) fun _ => .ok _)
  | writeT size t => exact .map _ (.bind (hright _) fun _ => .bind (.store ..) fun _ => .ok _)
  | writeLeft buffer length =>
    exact .map _ (.bind (hleft _) fun _ => .bind (.load ..) fun _ => .bind (.store ..) fun _ => .ok _)
  | writeLeftT size t =>
    exact .map _ (.bind (hleft _) fun _ => .bind (.store ..) fun _ => .bind (.require nofun) fun _ => .ok _)
  | store bytes =>
    exact .map _ (.bind (.bind (.store ..) fun _ => .ok _) fun _ => .bind (.require nofun) fun _ => .ok _)
  | read length =>
    exact .map _ (.bind Packet.len_noLoop fun _ => .bind (.require nofun) fun _ => .bind (.load ..) fun _ => .ok _)
  | readT size =>
    exact .map _ (.bind Packet.len_noLoop fun _ => .bind (.require nofun) fun _ => .bind (.load ..) fun _ => .ok _)
  | peek size => exact .map _ (.bind Packet.len_noLoop fun _ => .bind (.load ..) fun _ => .ok _)
  | peekT size =>
    exact .map _ (.bind Packet.len_noLoop fun _ => .bind (.require nofun) fun _ => .bind (.load ..) fun _ => .ok _)
  | skip length => exact .map _ (.bind Packet.len_noLoop fun _ => .bind (.require nofun) fun _ => .ok _)
  | reset => exact .map _ (.bind (.require nofun) fun _ => .ok _)

end PacketCall

/-- Some calls on a new packet have made the packet. -/
def Packet.Made (p : Packet) : Prop :=
  ∃ rightCapacity leftCapacity p₀ calls os, Packet.new rightCapacity leftCapacity = .ok p₀ ∧
    outputs PacketCall.run calls p₀ = .ok (os, p)

theorem Packet.Made.holds {p : Packet} (h : p.Made) : p.Holds p.bytes := by
  obtain ⟨_, _, p₀, calls, os, hnew, hrun⟩ := h
  obtain ⟨-, h⟩ := outputs_eq PacketCall.run_holds (Packet.new_holds hnew) hrun
  rw [h.bytes_eq]
  exact h

/-- After any sequence of calls that does not throw, the bytes between the positions are those of the
double-ended sequence, the calls have answered as it does, a typed read at a value written with the
same type gives the value, and neither side's growth changes the contents. The next call, whichever it
is, returns or throws. -/
theorem packet_refines {rightCapacity leftCapacity : Nat} {p p' : Packet} {calls : List PacketCall} {os : List PacketResult}
    (hnew : Packet.new rightCapacity leftCapacity = .ok p) (hrun : outputs PacketCall.run calls p = .ok (os, p')) :
    ∃ c, (os, c) = answers PacketCall.answer calls [] ∧
      p'.mReadIdx ≤ p'.mWriteIdx ∧ p'.mWriteIdx ≤ p'.mLeftCapacity + p'.mRightCapacity ∧
      p'.mBuffer.length = p'.mLeftCapacity + p'.mRightCapacity ∧ p'.bytes = c ∧
      (∀ size t rest, t < 2 ^ (8 * size) → c = writeImpl size t ++ rest →
        p'.peekT size = .ok t ∧ ∃ p'', p'.readT size = .ok (t, p'') ∧ p''.Holds rest) ∧
      (∀ p'', p'.extendLeftbufferCapacity = .ok p'' → p''.Holds c) ∧
      (∀ p'', p'.extendRightbufferCapacity = .ok p'' → p''.Holds c) ∧ ∀ call : PacketCall, call.run p' ≠ .error .loop := by
  obtain ⟨rfl, h⟩ := outputs_eq PacketCall.run_holds (Packet.new_holds hnew) hrun
  have hlen := h.write_eq
  refine ⟨_, rfl, by omega, h.write_le, h.length_buffer, h.bytes_eq, ?_, fun _ hp => (h.extendLeft hp).1,
    fun _ hp => (h.extendRight hp).1, fun call => (call.run_noLoop h).ne⟩
  intro size t rest ht hc
  have hsize : size ≤ (answers PacketCall.answer calls []).2.length := by
    rw [hc, List.length_append, length_writeImpl]
    omega
  have hval : readImpl size (answers PacketCall.answer calls []).2 = t := by
    rw [hc, readImpl_append (by simp), readImpl_writeImpl ht]
  exact ⟨by rw [h.peekT_eq hsize, hval], h.readT_front size t hc ht⟩

/-- The value written last on the left is read first; the last call grows the left side. -/
def growingCalls : List PacketCall :=
  [.write [1, 2, 3] 2, .writeLeft [5, 6] 2, .writeLeftT 4 70000, .writeT 2 258, .peekT 4, .readT 4, .store [3, 4], .read 3, .peek 2,
    .skip 1, .writeLeft (List.replicate 150 7) 150]

theorem packet_refines_growingCalls :
    ∃ p p' os c, Packet.new 300 0 = .ok p ∧ outputs PacketCall.run growingCalls p = .ok (os, p') ∧
      (os, c) = answers PacketCall.answer growingCalls [] ∧ p'.bytes = c := by
  have hok : (Packet.new 300 0 >>= outputs PacketCall.run growingCalls).isOk = true := by decide +kernel
  cases hrun : Packet.new 300 0 >>= outputs PacketCall.run growingCalls with
  | error f =>
    rw [hrun] at hok
    cases hok
  | ok r =>
    obtain ⟨os, p'⟩ := r
    obtain ⟨p, hnew, hout⟩ := bind_eq_ok.mp hrun
    obtain ⟨c, hc, -, -, -, hslice, -⟩ := packet_refines hnew hout
    exact ⟨p, p', os, c, hnew, hout, hc, hslice⟩

end Wawo
