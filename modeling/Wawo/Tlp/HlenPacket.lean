import Wawo.Bytes.Packet
import Wawo.Bytes.RingBuffer

/-!
# Length-prefixed framing (`hlen_packet.hpp`)

`encode` puts the length of a packet, four bytes, before it. `decode_packets` reads frames off a ring
buffer into an array; between calls it keeps whether the length or the contents come next, and the
length. It is modelled without `WAWO_PACKET_ADD_PREFIX_SYMBOL`, which is not defined. `Parses` relates
the parser, the bytes before it and the payloads still to come; a round of `decode_packets` keeps it
and takes at most one payload.
-/

namespace Wawo

open Memory Lts

def eSocketEmptyPacket : Int := -30007
def eTlpInvalidPacket : Int := -30017
def eTlpSocketBroken : Int := -30021
def eTlpTryAgain : Int := -30022

/-- `packetParseState` -/
inductive PacketParseState
  | readLen
  | readContent
deriving DecidableEq

/-- `hlen_packet`. The constructor leaves `m_size` uninitialized. -/
structure HlenPacket where
  mParseState : PacketParseState
  mSize : Nat
deriving DecidableEq

/-- What a call of `decode_packets` leaves: the protocol, the ring buffer, the packets in the array, `ec_o`. -/
structure TlpResult where
  tlp : HlenPacket
  buffer : RingBuffer
  arrives : List Packet
  ecO : Int
deriving DecidableEq

namespace HlenPacket

def new (mSize : Nat) : HlenPacket := ⟨.readLen, mSize⟩

/-- `encode(in, out)`: what it returns, with `out` if it is set. -/
def encode (inp : Packet) : Except ByteFault (Int × Option Packet) := do
  if (← inp.len) = 0 then
    return (eSocketEmptyPacket, none)
  let o ← inp.copy
  let o ← o.writeLeftT 4 (← inp.len)
  return (ok, some o)

/-- The variables of `decode_packets`; the first `idx` entries of its array are `arrives`. -/
structure Decoding where
  tlp : HlenPacket
  buffer : RingBuffer
  arrives : List Packet
  ecO : Int
  bExit : Bool
deriving DecidableEq

/-- `case S_READ_LEN` -/
def decodeLen (s : Decoding) : Except ByteFault Decoding := do
  let (t, buffer) ← s.buffer.tryReadT 4
  match t with
  | none => return { s with buffer := buffer, bExit := true }
  | some mSize =>
    require (mSize > 0) .hlenSize
    if mSize > buffer.capacity then
      return { s with buffer := buffer, tlp := { s.tlp with mSize := mSize }, ecO := eTlpSocketBroken, bExit := true }
    return { s with buffer := buffer, tlp := ⟨.readContent, mSize⟩ }

/-- `case S_READ_CONTENT` -/
def decodeContent (size : Nat) (s : Decoding) : Except ByteFault Decoding := do
  let mSize := s.tlp.mSize
  require (mSize > 0) .hlenSize
  if mSize = 0 then
    return { s with bExit := true, ecO := eTlpInvalidPacket }
  if s.buffer.count < mSize then
    return { s with bExit := true }
  if s.arrives.length = size then
    return { s with bExit := true, ecO := eTlpTryAgain }
  let pack ← Packet.new mSize packInitLeftCapacity
  let (nbytes, target, buffer) ← s.buffer.read mSize true
  let pack ← pack.storeBegin target
  require (nbytes = mSize) .hlenRead
  let pack ← pack.forwardWriteIndex mSize
  require (s.arrives.length < size) .hlenIdx
  return { s with tlp := { s.tlp with mParseState := .readLen }, buffer := buffer, arrives := s.arrives ++ [pack] }

/-- A round of the loop of `decode_packets`. -/
def decodeRound (size : Nat) (s : Decoding) : Except ByteFault Decoding :=
  match s.tlp.mParseState with
  | .readLen => decodeLen s
  | .readContent => decodeContent size s

/-- The loop of `decode_packets`; a round that does not leave it takes a byte. -/
def decodeLoop (tlp : HlenPacket) (buffer : RingBuffer) (size : Nat) : Except ByteFault Decoding :=
  loopWhile (fun s => !s.bExit) (decodeRound size) .loop (buffer.count + 2)
    { tlp := tlp, buffer := buffer, arrives := [], ecO := ok, bExit := false }

/-- `decode_packets(buffer, arrives, size, ec_o, out)`; `out` is not used. -/
def decodePackets (tlp : HlenPacket) (buffer : RingBuffer) (size : Nat) : Except ByteFault TlpResult := do
  let s ← decodeLoop tlp buffer size
  return { tlp := s.tlp, buffer := s.buffer, arrives := s.arrives, ecO := s.ecO }

/-! ### Frames -/

/-- The frame of a payload. -/
def frame (c : List Byte) : List Byte := writeImpl 4 c.length ++ c

/-- A payload that can be sent to a buffer of this capacity. -/
structure Fits (capacity : Nat) (c : List Byte) : Prop where
  ne_nil : c ≠ []
  le_capacity : c.length ≤ capacity
  le_right : c.length ≤ packMaxRightCapacity

/-- With `pending` before the parser, the payloads to come are `cs`. -/
def Parses (tlp : HlenPacket) (pending : List Byte) (cs : List (List Byte)) : Prop :=
  match tlp.mParseState with
  | .readLen => pending = cs.flatMap frame
  | .readContent => ∃ c cs', cs = c :: cs' ∧ tlp.mSize = c.length ∧ pending = c ++ cs'.flatMap frame

/-- The parser can complete a frame with these bytes. -/
def CompleteFrame (tlp : HlenPacket) (bytes : List Byte) : Prop :=
  match tlp.mParseState with
  | .readLen => 4 ≤ bytes.length ∧ readImpl 4 bytes ≤ bytes.length - 4
  | .readContent => tlp.mSize ≤ bytes.length

/-- The parser waits for more bytes than these. -/
def Starved (tlp : HlenPacket) (bytes : List Byte) : Prop :=
  match tlp.mParseState with
  | .readLen => bytes.length < 4
  | .readContent => bytes.length < tlp.mSize

theorem Starved.not_complete {tlp : HlenPacket} {bytes : List Byte} (h : tlp.Starved bytes) : ¬ tlp.CompleteFrame bytes := by
  unfold Starved at h
  unfold CompleteFrame
  cases hst : tlp.mParseState with
  | readLen =>
    rw [hst] at h
    exact fun hc => absurd hc.1 (Nat.not_le.mpr h)
  | readContent =>
    rw [hst] at h
    exact Nat.not_le.mpr h

/-- What `encode` makes of a packet it accepts. -/
theorem encode_holds {p f : Packet} {c : List Byte} (h : p.Holds c) (hf : encode p = .ok (ok, some f)) :
    c ≠ [] ∧ f.Holds (frame c) := by
  unfold encode at hf
  rw [h.len_eq, ok_bind] at hf
  by_cases hc : c.length = 0
  · rw [if_pos hc] at hf
    cases hf
  · rw [if_neg hc, h.copy, ok_bind, ok_bind] at hf
    obtain ⟨o, ho, hf⟩ := bind_eq_ok.mp hf
    cases hf
    exact ⟨List.ne_nil_of_length_pos (Nat.pos_of_ne_zero hc), h.writeLeftT ho⟩

/-- A packet made for `c` takes it in. -/
theorem newPack_holds {c : List Byte} (hc : c.length ≤ packMaxRightCapacity) :
    ∃ p₁ p₂ p₃, Packet.new c.length packInitLeftCapacity = .ok p₁ ∧ p₁.storeBegin c = .ok p₂ ∧
      p₂.forwardWriteIndex c.length = .ok p₃ ∧ p₃.Holds c := by
  have hright : max c.length packMinRightCapacity ≤ packMaxRightCapacity := Nat.max_le.mpr ⟨hc, by decide⟩
  obtain ⟨p₁, hp₁⟩ : ∃ p₁, Packet.new c.length packInitLeftCapacity = .ok p₁ :=
    ⟨_, Packet.new_eq_ok.mpr ⟨by decide, hright, rfl⟩⟩
  have h := Packet.new_holds hp₁
  obtain ⟨-, -, hp⟩ := Packet.new_eq_ok.mp hp₁
  have hroom : p₁.mWriteIdx + c.length ≤ p₁.mLeftCapacity + p₁.mRightCapacity := by
    rw [hp]
    exact Nat.add_le_add_left (Nat.le_max_left _ _) _
  have hend : p₁.storeBegin c = p₁.storeEnd c := by
    rw [Packet.storeBegin, Packet.storeEnd, h.write_eq]
    rfl
  obtain ⟨p₂, hp₂, hp₃⟩ := bind_eq_ok.mp (h.storeEnd_forward.mpr ⟨hroom, rfl⟩)
  exact ⟨p₁, p₂, _, hp₁, hend.trans hp₂, hp₃, h.append hroom⟩

theorem length_frame (c : List Byte) : (frame c).length = 4 + c.length := by
  rw [frame, List.length_append, length_writeImpl]

/-! ### Rounds -/

section

variable {s : Decoding} {q : BoundedQueue Byte} {more c : List Byte} {cs : List (List Byte)} {size : Nat}

theorem decodeLen_short (hq : s.buffer.Refines q) (hlt : q.count < 4) :
    ∃ buffer, decodeLen s = .ok { s with buffer := buffer, bExit := true } ∧ buffer.Refines q := by
  obtain ⟨buffer, hread, hbuffer⟩ := hq.tryReadT 4
  have h4 : ¬ 4 ≤ q.count := Nat.not_le.mpr hlt
  rw [if_neg h4] at hbuffer
  refine ⟨buffer, ?_, hbuffer⟩
  unfold decodeLen
  rw [hread, ok_bind]
  simp only [if_neg h4]
  rfl

theorem decodeLen_eq (hq : s.buffer.Refines q) (h4 : 4 ≤ q.count) :
    ∃ buffer, buffer.Refines (q.skip 4) ∧ decodeLen s =
      require (readImpl 4 (q.front 4) > 0) .hlenSize >>= fun _ =>
        if readImpl 4 (q.front 4) > q.capacity then
          .ok { s with buffer := buffer, tlp := { s.tlp with mSize := readImpl 4 (q.front 4) }, ecO := eTlpSocketBroken, bExit := true }
        else .ok { s with buffer := buffer, tlp := ⟨.readContent, readImpl 4 (q.front 4)⟩ } := by
  obtain ⟨buffer, hread, hbuffer⟩ := hq.tryReadT 4
  rw [if_pos h4] at hbuffer
  have hcap : buffer.capacity = q.capacity := hbuffer.capacity_fn_eq
  refine ⟨buffer, hbuffer, ?_⟩
  unfold decodeLen
  rw [hread, ok_bind]
  simp only [if_pos h4, hcap]
  rfl

theorem decodeLen_spec (hq : s.buffer.Refines q) (hp : q.items ++ more = cs.flatMap frame) (hfit : ∀ c ∈ cs, Fits q.capacity c) :
    (q.count < 4 ∧ ∃ buffer, decodeLen s = .ok { s with buffer := buffer, bExit := true } ∧ buffer.Refines q) ∨
    (4 ≤ q.count ∧ ∃ c cs' buffer, cs = c :: cs' ∧
      decodeLen s = .ok { s with buffer := buffer, tlp := ⟨.readContent, c.length⟩ } ∧
      buffer.Refines (q.skip 4) ∧ (q.skip 4).items ++ more = c ++ cs'.flatMap frame) := by
  rcases Nat.lt_or_ge q.count 4 with hlt | h4
  · exact .inl ⟨hlt, decodeLen_short hq hlt⟩
  obtain ⟨buffer, hbuffer, hs⟩ := decodeLen_eq hq h4
  obtain ⟨c, cs', rfl⟩ : ∃ c cs', cs = c :: cs' := by
    cases cs with
    | nil =>
      have hnil : q.items = [] := (List.append_eq_nil_iff.mp hp).1
      rw [BoundedQueue.count, hnil] at h4
      exact absurd h4 (by decide)
    | cons c cs' => exact ⟨c, cs', rfl⟩
  obtain ⟨hne, hcap, hright⟩ := hfit c (by simp)
  have hpos := List.length_pos_iff.mpr hne
  rw [List.flatMap_cons, frame, List.append_assoc] at hp
  have hfront : q.front 4 = writeImpl 4 c.length := by
    rw [BoundedQueue.front, ← List.take_append_of_le_length h4, hp]
    exact List.take_left' (length_writeImpl 4 _)
  have hlt : c.length < 2 ^ (8 * 4) := by
    have := hq.le_max
    unfold maxRingBufferSize at this
    omega
  have hlen : readImpl 4 (q.front 4) = c.length := by rw [hfront, readImpl_writeImpl hlt]
  refine .inr ⟨h4, c, cs', buffer, rfl, ?_, hbuffer, ?_⟩
  · rw [hs, hlen, require_eq hpos, ok_bind, if_neg (Nat.not_lt.mpr hcap)]
  · rw [BoundedQueue.items_skip, ← List.drop_append_of_le_length h4, hp]
    exact List.drop_left' (length_writeImpl 4 _)

theorem decodeContent_spec {rest : List Byte} (hq : s.buffer.Refines q) (hsize : s.tlp.mSize = c.length)
    (hp : q.items ++ more = c ++ rest) (hfit : Fits q.capacity c) (hidx : s.arrives.length ≤ size) :
    (q.count < c.length ∧ decodeContent size s = .ok { s with bExit := true }) ∨
    (c.length ≤ q.count ∧ s.arrives.length = size ∧
      decodeContent size s = .ok { s with bExit := true, ecO := eTlpTryAgain }) ∨
    (c.length ≤ q.count ∧ s.arrives.length < size ∧ ∃ buffer pack, pack.Holds c ∧
      decodeContent size s =
        .ok { s with tlp := { s.tlp with mParseState := .readLen }, buffer := buffer, arrives := s.arrives ++ [pack] } ∧
      buffer.Refines (q.skip c.length) ∧ (q.skip c.length).items ++ more = rest) := by
  have hpos := List.length_pos_iff.mpr hfit.ne_nil
  unfold decodeContent
  dsimp only
  rw [hsize, require_eq hpos, ok_bind, if_neg (Nat.pos_iff_ne_zero.mp hpos), hq.count_eq]
  by_cases hc : q.count < c.length
  · rw [if_pos hc, pure_eq_ok]
    exact .inl ⟨hc, rfl⟩
  have hle := Nat.le_of_not_lt hc
  rw [if_neg hc]
  by_cases hfull : s.arrives.length = size
  · rw [if_pos hfull, pure_eq_ok]
    exact .inr (.inl ⟨hle, hfull, rfl⟩)
  rw [if_neg hfull]
  obtain ⟨buffer, hread, hbuffer⟩ := hq.read c.length
  have hfront : q.front c.length = c := by
    rw [BoundedQueue.front, ← List.take_append_of_le_length hle, hp, List.take_left]
  obtain ⟨p₁, p₂, p₃, hp₁, hp₂, hp₃, hpack⟩ := newPack_holds hfit.le_right
  refine .inr (.inr ⟨hle, by omega, buffer, p₃, hpack, ?_, hbuffer, ?_⟩)
  · rw [hp₁, ok_bind, hread, ok_bind]
    dsimp only
    rw [hfront, hp₂, ok_bind, require_eq (Nat.min_eq_left hle), ok_bind, hp₃, ok_bind, require_eq (by omega), ok_bind, pure_eq_ok]
  · rw [BoundedQueue.items_skip, ← List.drop_append_of_le_length hle, hp, List.drop_left]

/-- A payload that has not all arrived is waited for, whatever its length. -/
theorem decodeContent_short (hq : s.buffer.Refines q) (hlt : q.count < s.tlp.mSize) :
    decodeContent size s = .ok { s with bExit := true } := by
  have hpos : 0 < s.tlp.mSize := Nat.zero_lt_of_lt hlt
  unfold decodeContent
  dsimp only
  rw [require_eq hpos, ok_bind, if_neg (Nat.pos_iff_ne_zero.mp hpos), hq.count_eq, if_pos hlt, pure_eq_ok]

end

/-! ### A call -/

/-- How a call ends: the parser waits for bytes, or the array is full and a frame is complete. -/
def Ended (tlp : HlenPacket) (bytes : List Byte) (size idx : Nat) (ecO : Int) : Prop :=
  ecO = ok ∧ tlp.Starved bytes ∨ ecO = eTlpTryAgain ∧ tlp.CompleteFrame bytes ∧ idx = size

/-- A call has returned `done` out of the payloads `cs`, and `rest` are still to come. -/
structure Decoded (more : List Byte) (cs : List (List Byte)) (capacity : Nat) (r : TlpResult)
    (done rest : List (List Byte)) (q : BoundedQueue Byte) : Prop where
  refines : r.buffer.Refines q
  capacity_eq : q.capacity = capacity
  split : cs = done ++ rest
  parses : r.tlp.Parses (q.items ++ more) rest
  arrives : List.Forall₂ Packet.Holds r.arrives done

def Decoding.result (s : Decoding) : TlpResult := ⟨s.tlp, s.buffer, s.arrives, s.ecO⟩

/-- What the rounds of a call keep. -/
structure Decoding.Inv (more : List Byte) (cs : List (List Byte)) (capacity size : Nat) (s : Decoding)
    (done rest : List (List Byte)) (q : BoundedQueue Byte) : Prop where
  decoded : Decoded more cs capacity s.result done rest q
  idx_le : s.arrives.length ≤ size
  running : s.bExit = false → s.ecO = ok
  stopped : s.bExit = true → s.tlp.Ended q.items size s.arrives.length s.ecO

theorem decodeRound_spec {more : List Byte} {cs : List (List Byte)} {capacity size : Nat} {s : Decoding}
    {done rest : List (List Byte)} {q : BoundedQueue Byte} (hfit : ∀ c ∈ cs, Fits capacity c)
    (h : s.Inv more cs capacity size done rest q) (hrun : s.bExit = false) :
    ∃ s' done' rest' q', decodeRound size s = .ok s' ∧ s'.Inv more cs capacity size done' rest' q' ∧ q'.count ≤ q.count ∧
      (s'.bExit = false → q'.count < q.count) := by
  obtain ⟨⟨hq, hcap, hsplit, hp, harr⟩, hidx, hok, -⟩ := h
  have hec := hok hrun
  have hgoes : ∀ {P : Prop}, s.bExit = true → P := fun he => by rw [hrun] at he; cases he
  have hfits : ∀ c ∈ rest, Fits q.capacity c := fun c hc => by
    rw [hcap]
    exact hfit c (by rw [hsplit]; exact List.mem_append_right _ hc)
  have hp' := hp
  unfold decodeRound
  unfold Parses at hp'
  cases hst : s.tlp.mParseState with
  | readLen =>
    have hst' : s.result.tlp.mParseState = .readLen := hst
    rw [hst'] at hp'
    rcases decodeLen_spec hq hp' hfits with ⟨hlt, buffer, hs, hb⟩ | ⟨h4, c, rest', buffer, rfl, hs, hb, hp₁⟩
    · refine ⟨_, done, rest, q, hs, ⟨⟨hb, hcap, hsplit, hp, harr⟩, hidx, nofun, fun _ => .inl ⟨hec, ?_⟩⟩, Nat.le_refl _, nofun⟩
      rw [Starved, hst]
      exact hlt
    · refine ⟨_, done, _, _, hs, ⟨⟨hb, hcap, hsplit, ⟨c, rest', rfl, rfl, hp₁⟩, harr⟩, hidx, hok, hgoes⟩, ?_, fun _ => ?_⟩
      all_goals
        rw [BoundedQueue.count_skip]
        omega
  | readContent =>
    have hst' : s.result.tlp.mParseState = .readContent := hst
    rw [hst'] at hp'
    obtain ⟨c, rest', rfl, hsize, hp'⟩ := hp'
    have hc := hfits c (by simp)
    have hpos := List.length_pos_iff.mpr hc.ne_nil
    rcases decodeContent_spec hq hsize hp' hc hidx with
      ⟨hlt, hs⟩ | ⟨hle, hfull, hs⟩ | ⟨hle, hroom, buffer, pack, hpack, hs, hb, hp₁⟩
    · refine ⟨_, done, _, q, hs, ⟨⟨hq, hcap, hsplit, hp, harr⟩, hidx, nofun, fun _ => .inl ⟨hec, ?_⟩⟩, Nat.le_refl _, nofun⟩
      rw [Starved, hst]
      exact Nat.lt_of_lt_of_eq hlt hsize.symm
    · refine ⟨_, done, _, q, hs, ⟨⟨hq, hcap, hsplit, hp, harr⟩, hidx, nofun, fun _ => .inr ⟨rfl, ?_, hfull⟩⟩, Nat.le_refl _, nofun⟩
      rw [CompleteFrame, hst]
      exact Nat.le_trans (Nat.le_of_eq hsize) hle
    · refine ⟨_, done ++ [c], rest', _, hs, ⟨⟨hb, hcap, ?_, hp₁, ?_⟩, ?_, hok, hgoes⟩, ?_, fun _ => ?_⟩
      · rw [hsplit, List.append_assoc]
        rfl
      · exact List.rel_append harr (.cons hpack .nil)
      · rw [List.length_append]
        exact hroom
      all_goals
        rw [BoundedQueue.count_skip]
        omega

/-- Rounds that keep an invariant, each taking a byte unless it leaves the loop. -/
theorem decodeLoop_inv {tlp : HlenPacket} {buffer : RingBuffer} {q : BoundedQueue Byte} {size : Nat}
    {I : Decoding → BoundedQueue Byte → Prop} (hrefines : ∀ s q, I s q → s.buffer.Refines q)
    (hround : ∀ s q, I s q → s.bExit = false → ∃ s' q', decodeRound size s = .ok s' ∧ I s' q' ∧ q'.count ≤ q.count ∧
      (s'.bExit = false → q'.count < q.count))
    (hstart : I ⟨tlp, buffer, [], ok, false⟩ q) :
    ∃ s q', decodeLoop tlp buffer size = .ok s ∧ I s q' ∧ s.bExit = true ∧ q'.count ≤ q.count := by
  have hbody : ∀ s : Decoding, (∃ q', I s q' ∧ q'.count ≤ q.count) → (!s.bExit) = true →
      Ensures (fun t => (∃ q', I t q' ∧ q'.count ≤ q.count) ∧
        (if t.bExit then 0 else t.buffer.count + 1) < if s.bExit then 0 else s.buffer.count + 1) (fun _ => False)
        (decodeRound size s) := by
    rintro s ⟨q', h, hle⟩ hcond
    have hrun : s.bExit = false := by simpa using hcond
    obtain ⟨s', q'', hs, h', hle', hless⟩ := hround s q' h hrun
    rw [hs]
    refine ⟨⟨q'', h', Nat.le_trans hle' hle⟩, ?_⟩
    have hcount : s.buffer.count = q'.count := (hrefines s q' h).count_eq
    have hcount' : s'.buffer.count = q''.count := (hrefines s' q'' h').count_eq
    rw [if_neg (Bool.eq_false_iff.mp hrun), hcount, hcount']
    split_ifs with he
    · exact Nat.succ_pos _
    · exact Nat.succ_lt_succ (hless (Bool.eq_false_iff.mpr he))
  obtain ⟨s, hs, ⟨q', h, hle⟩, hexit⟩ :=
    (loopWhile_ensures _ hbody ⟨q, hstart, Nat.le_refl _⟩ (Nat.lt_succ_self (buffer.count + 1))).exists_ok
  exact ⟨s, q', hs, h, by simpa using hexit, hle⟩

/-- A call returns payloads from the front, and stops where no frame is complete or its array is full. -/
theorem decodePackets_spec {tlp : HlenPacket} {buffer : RingBuffer} {q : BoundedQueue Byte} {more : List Byte}
    {cs : List (List Byte)} (size : Nat) (hq : buffer.Refines q) (hp : tlp.Parses (q.items ++ more) cs)
    (hfit : ∀ c ∈ cs, Fits q.capacity c) :
    ∃ r done rest q', tlp.decodePackets buffer size = .ok r ∧ Decoded more cs q.capacity r done rest q' ∧
      r.tlp.Ended q'.items size r.arrives.length r.ecO ∧ r.arrives.length ≤ size ∧ q'.count ≤ q.count := by
  have hstart : Decoding.Inv more cs q.capacity size ⟨tlp, buffer, [], ok, false⟩ [] cs q :=
    ⟨⟨hq, rfl, rfl, hp, .nil⟩, Nat.zero_le _, fun _ => rfl, nofun⟩
  obtain ⟨s, q', hs, ⟨done, rest, h⟩, hexit, hle⟩ :=
    decodeLoop_inv (I := fun s q' => ∃ done rest, s.Inv more cs q.capacity size done rest q') (fun _ _ ⟨_, _, h⟩ => h.decoded.refines)
      (fun s q' ⟨done, rest, h⟩ hrun => by
        obtain ⟨s', done', rest', q'', hs, h', hle, hless⟩ := decodeRound_spec hfit h hrun
        exact ⟨s', q'', hs, ⟨done', rest', h'⟩, hle, hless⟩)
      ⟨[], cs, hstart⟩
  refine ⟨s.result, done, rest, q', ?_, h.decoded, h.stopped hexit, h.idx_le, hle⟩
  rw [decodePackets, hs, ok_bind, pure_eq_ok]
  rfl

/-- A frame whose length is over the capacity ends the call. -/
theorem decodePackets_oversize {tlp : HlenPacket} {buffer : RingBuffer} {q : BoundedQueue Byte} (size : Nat) (hq : buffer.Refines q)
    (hst : tlp.mParseState = .readLen) (h4 : 4 ≤ q.count) (hsize : q.capacity < readImpl 4 (q.front 4)) :
    ∃ r, tlp.decodePackets buffer size = .ok r ∧ r.ecO = eTlpSocketBroken ∧ r.arrives = [] ∧ r.tlp.mParseState = .readLen ∧
      r.buffer.Refines (q.skip 4) := by
  obtain ⟨st, mSize⟩ := tlp
  obtain rfl : st = .readLen := hst
  obtain ⟨buffer', hbuffer, hlen⟩ := decodeLen_eq (s := ⟨⟨.readLen, mSize⟩, buffer, [], ok, false⟩) hq h4
  rw [require_eq (by omega), ok_bind, if_pos hsize] at hlen
  have hround : decodeRound size ⟨⟨.readLen, mSize⟩, buffer, [], ok, false⟩ =
      .ok ⟨⟨.readLen, readImpl 4 (q.front 4)⟩, buffer', [], eTlpSocketBroken, true⟩ := hlen
  refine ⟨⟨⟨.readLen, readImpl 4 (q.front 4)⟩, buffer', [], eTlpSocketBroken⟩, ?_, rfl, rfl, rfl, hbuffer⟩
  unfold decodePackets decodeLoop
  rw [loopWhile_next rfl hround, loopWhile_done rfl, ok_bind, pure_eq_ok]

/-- A packet with room on its left is framed. -/
theorem encode_eq {p : Packet} {c : List Byte} {l r : Nat} (h : p.Holds c) (hne : c ≠ []) (hs : p.Spare (4 + l) r) :
    ∃ f, encode p = .ok (ok, some f) ∧ f.Holds (frame c) ∧ f.Spare l r := by
  have hpos := List.length_pos_iff.mpr hne
  obtain ⟨f, hf, hframe, hs'⟩ := h.writeLeftT_spare _ _ hs
  refine ⟨f, ?_, hframe, hs'⟩
  unfold encode
  rw [h.len_eq, ok_bind, if_neg (Nat.pos_iff_ne_zero.mp hpos), h.copy, ok_bind, ok_bind, hf, ok_bind, pure_eq_ok]

end HlenPacket
end Wawo
