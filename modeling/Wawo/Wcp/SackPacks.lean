import Wawo.Lib.Chunks
import Wawo.Wcp.Codec
import Wawo.Wcp.SackSound
import Wawo.Wcp.Control

/-!
# SACK packs (`WCB::SACK`, `WCB::check_recv`)

The numbers of the sequence-space packs of a batch are written to `snd_sacked_pack_tmp`, which `SACK`
then empties into packs of `WCP_MDU` bytes at most. `SackTmp` is what the scratch packet keeps from
batch to batch: its right side grows from 64 KiB in whole increments and never shrinks, so it takes in
`sackTmpMax` bytes and throws on the next number. `Chunked` cuts the numbers into the packs, in memory
(`sackPacks_eq`) as in `Snd.SACK` (`SACK_queue`), and `readSackPacket` undoes one of them.
-/

namespace Wawo

open Memory Lts

/-! ### The code -/

/-- `(WCP_MDU / sizeof(u32_t)) * sizeof(u32_t)` -/
def packAckedMaxBytes : Nat := wcpMdu / 4 * 4

/-- `snd_sacked_pack_tmp->write<u32_t>(pack->header.seq)` in the classification loop -/
def writeSeqs (batch : List WcbReceivedPack) (tmp : Packet) : Except ByteFault Packet :=
  (batch.filter fun p => p.inSeqSpace).foldlM (fun tmp p => tmp.writeT 4 p.seq) tmp

/-- A round of `SACK`: the pack that is pushed, and `sacked_packet` after it -/
def sackRound (dsn : Nat) (sackedPacket : Packet) : Except ByteFault (PackInMemory × Packet) := do
  let data ← Packet.new wcpMdu packInitLeftCapacity
  let len ← sackedPacket.len
  let wlen := if len ≥ packAckedMaxBytes then packAckedMaxBytes else len
  let data ← data.write (sackedPacket.mBuffer.drop sackedPacket.mReadIdx) wlen
  let sackedPacket ← sackedPacket.skip wlen
  let dlen := (← data.len) &&& 0xFFFF
  return ({ header := { seq := dsn, ack := 0, wnd := 0, flag := .sack, dlen := dlen }, data := some data }, sackedPacket)

/-- `SACK`: what it pushes to `s_sending_ignore_seq_space`, and `sacked_packet` after it. The second argument
bounds the rounds. -/
def sackPacks (dsn : Nat) : Nat → Packet → Except ByteFault (List PackInMemory × Packet)
  | 0, _ => .error .loop
  | n + 1, sackedPacket => do
    if (← sackedPacket.len) ≠ 0 then
      let (opack, sackedPacket) ← sackRound dsn sackedPacket
      let (opacks, sackedPacket) ← sackPacks dsn n sackedPacket
      return (List.replicate (1 + wcpSndSackDupCount) opack ++ opacks, sackedPacket)
    else return ([], sackedPacket)

/-- What `check_recv` does with `snd_sacked_pack_tmp` -/
def sackBatch (dsn : Nat) (batch : List WcbReceivedPack) (tmp : Packet) : Except ByteFault (List PackInMemory × Packet) := do
  let tmp ← writeSeqs batch tmp
  let len ← tmp.len
  if len ≠ 0 then
    let (opacks, tmp) ← sackPacks dsn (len / packAckedMaxBytes + 2) tmp
    return (opacks, ← tmp.reset)
  else return ([], tmp)

/-- `while (pack->data->len()) acked_queue.push(pack->data->read<u32_t>())`: what is pushed. The first argument
bounds the rounds. -/
def readSackPacket : Nat → Packet → Except ByteFault (List Nat)
  | 0, _ => .error .loop
  | n + 1, data => do
    if (← data.len) ≠ 0 then
      let (ack, data) ← data.readT 4
      return ack :: (← readSackPacket n data)
    else return []

/-! ### The scratch packet -/

/-- The largest right capacity that whole increments lead to from the first one. -/
def sackTmpMax : Nat :=
  64 * 1024 + (packMaxRightCapacity - 64 * 1024) / packIncrementRightSize * packIncrementRightSize

theorem sackTmpMax_eq : sackTmpMax = 16774144 := by decide

/-- A packet made by `packet(64*1024)` that has grown to the right only. -/
structure Grown (p : Packet) (c : List Byte) : Prop where
  held : p.Holds c
  left : p.mLeftCapacity = packInitLeftCapacity
  right : ∃ k, p.mRightCapacity = 64 * 1024 + k * packIncrementRightSize

/-- The scratch packet while numbers are written to it. -/
structure SackTmp (p : Packet) (c : List Byte) : Prop extends Grown p c where
  start : p.mReadIdx = p.mLeftCapacity

theorem sackTmp_new {p : Packet} (h : Packet.new (64 * 1024) packInitLeftCapacity = .ok p) : SackTmp p [] := by
  have hheld := Packet.new_holds h
  obtain ⟨-, -, rfl⟩ := Packet.new_eq_ok.mp h
  refine ⟨⟨hheld, ?_, 0, ?_⟩, rfl⟩
  · dsimp only
    decide
  · dsimp only
    decide

namespace SackTmp

variable {p : Packet} {c : List Byte} (h : SackTmp p c)
include h

theorem right_le : p.mRightCapacity ≤ sackTmpMax := by
  have hle := h.held.right_le
  obtain ⟨k, hk⟩ := h.right
  rw [show packMaxRightCapacity = 16777216 from rfl] at hle
  rw [show packIncrementRightSize = 8064 from rfl] at hk
  rw [sackTmpMax_eq]
  omega

theorem write_eq : p.mWriteIdx = p.mLeftCapacity + c.length := by
  rw [h.held.write_eq, h.start]

theorem length_le : c.length ≤ p.mRightCapacity := by
  have h₁ := h.held.write_le
  have h₂ := h.write_eq
  omega

theorem extendRight : Ensures (fun p' => SackTmp p' c ∧ p'.mRightCapacity = p.mRightCapacity + packIncrementRightSize)
    (fun e => e = .extendRight ∧ p.mRightCapacity = sackTmpMax) p.extendRightbufferCapacity := by
  have hle := h.held.right_le
  have hmax := h.right_le
  obtain ⟨k, hk⟩ := h.right
  have hpos : p.mRightCapacity ≠ 0 := by omega
  by_cases hroom : u32 (p.mRightCapacity + packIncrementRightSize) ≤ packMaxRightCapacity
  · have hp : p.extendRightbufferCapacity = .ok { p with
        mRightCapacity := u32 (p.mRightCapacity + packIncrementRightSize)
        mBuffer := realloc p.mBuffer (Packet.capacity { p with mRightCapacity := u32 (p.mRightCapacity + packIncrementRightSize) }) } := by
      unfold Packet.extendRightbufferCapacity
      rw [require_eq hpos, ok_bind, require_eq hroom]
      rfl
    obtain ⟨hheld, hright, hleft⟩ := h.held.extendRight hp
    rw [hp]
    refine ⟨⟨⟨hheld, h.left, k + 1, ?_⟩, h.start⟩, hright⟩
    rw [hright, hk]
    exact (Nat.add_assoc _ _ _).trans (congrArg _ (Nat.succ_mul k _).symm)
  · have hp : p.extendRightbufferCapacity = .error .extendRight := by
      unfold Packet.extendRightbufferCapacity
      rw [require_eq hpos, ok_bind, require_ne hroom]
      rfl
    rw [hp]
    refine ⟨rfl, ?_⟩
    rw [show packMaxRightCapacity = 16777216 from rfl] at hle hroom
    rw [show packIncrementRightSize = 8064 from rfl] at hk hroom
    rw [u32_of_lt (by omega)] at hroom
    rw [sackTmpMax_eq] at hmax ⊢
    omega

theorem growRight (n : Nat) : Ensures (fun p' => SackTmp p' c ∧ c.length + n ≤ p'.mRightCapacity)
    (fun e => e = .extendRight ∧ sackTmpMax < c.length + n) (p.growRight n) := by
  have hinc : packIncrementRightSize = 8064 := rfl
  have hmax : packMaxRightCapacity = 16777216 := rfl
  have hroom {p' : Packet} (h' : SackTmp p' c) : p'.leftRightCapacity = p'.mRightCapacity - c.length := by
    have h₁ := h'.write_eq
    rw [h'.held.leftRightCapacity_eq]
    omega
  unfold Packet.growRight
  refine (loopWhile_ensures (I := fun p => SackTmp p c)
    (fun p => (packMaxRightCapacity - p.mRightCapacity) / packIncrementRightSize) ?_ h ?_).mono fun p' h' => ?_
  · intro p h hfull
    have hfull := of_decide_eq_true hfull
    rw [hroom h] at hfull
    have hlen := h.length_le
    refine (h.extendRight.mono fun p' h' => ⟨h'.1, ?_⟩).mono_error fun e he => ⟨he.1, by omega⟩
    have hle := h'.1.held.right_le
    rw [h'.2, hmax, hinc] at *
    omega
  · rw [hmax, hinc]
    omega
  · obtain ⟨h', hc⟩ := h'
    have hc := of_decide_eq_false hc
    have hlen := h'.length_le
    rw [hroom h'] at hc
    exact ⟨h', by omega⟩

theorem writeT (size t : Nat) : Ensures (fun p' => SackTmp p' (c ++ writeImpl size t))
    (fun e => e = .extendRight ∧ sackTmpMax < c.length + size) (p.writeT size t) := by
  unfold Packet.writeT
  refine (h.growRight size).bind fun p' h' => ?_
  obtain ⟨h', hroom⟩ := h'
  have hlen := length_writeImpl size t
  have hbuffer := h'.held.length_buffer
  have hwrite := h'.write_eq
  have hcap := h'.held.capacity_le
  dsimp only
  rw [store_eq (by omega), ok_bind, u32_of_lt (by omega)]
  exact ⟨⟨h'.held.append (by omega), h'.left, h'.right⟩, h'.start⟩

/-- The numbers are written in the order of the packs, or there are too many of them. -/
theorem writeAll (l : List WcbReceivedPack) :
    Ensures (fun p' => SackTmp p' (c ++ (l.map fun p => p.seq).flatMap (writeImpl 4)))
      (fun e => e = .extendRight ∧ sackTmpMax < c.length + 4 * l.length) (l.foldlM (fun tmp p => tmp.writeT 4 p.seq) p) := by
  induction l generalizing p c with
  | nil =>
    rw [List.map_nil, List.flatMap_nil, List.append_nil]
    exact h
  | cons a l ih =>
    have hone : Ensures (fun p' => SackTmp p' (c ++ writeImpl 4 a.seq))
        (fun e => e = .extendRight ∧ sackTmpMax < c.length + 4 * (a :: l).length) (p.writeT 4 a.seq) := by
      refine (h.writeT 4 a.seq).mono_error fun e he => ⟨he.1, he.2.trans_le ?_⟩
      rw [List.length_cons]
      omega
    rw [List.foldlM_cons]
    refine hone.bind fun p' h' => ?_
    rw [List.map_cons, List.flatMap_cons, ← List.append_assoc]
    refine (ih h').mono_error fun e he => ⟨he.1, he.2.trans_le ?_⟩
    rw [List.length_append, length_writeImpl, List.length_cons]
    omega

end SackTmp

/-! ### Emission -/

theorem writeImpl_four_eq (n : Nat) : writeImpl 4 n = writeU32 n := by
  have hbyte (k : Nat) : UInt8.ofNat (k &&& 0xff) = UInt8.ofNat k := by
    rw [show k &&& 0xff = k % 2 ^ 8 from Nat.and_two_pow_sub_one_eq_mod k 8]
    exact UInt8.ofNat_mod_size
  simp only [writeImpl, writeImplFrom, hbyte]
  rfl

theorem length_numbers (l : List Nat) : (l.flatMap (writeImpl 4)).length = 4 * l.length := by
  induction l with
  | nil => rfl
  | cons a l ih =>
    rw [List.flatMap_cons, List.length_append, length_writeImpl, ih, List.length_cons]
    omega

/-- A cut at a multiple of four bytes is a cut between two numbers. -/
theorem cut_numbers (l : List Nat) (n : Nat) :
    (l.flatMap (writeImpl 4)).take (4 * n) = (l.take n).flatMap (writeImpl 4) ∧
      (l.flatMap (writeImpl 4)).drop (4 * n) = (l.drop n).flatMap (writeImpl 4) := by
  by_cases hn : n ≤ l.length
  · have hlen : ((l.take n).flatMap (writeImpl 4)).length = 4 * n := by
      rw [length_numbers, List.length_take, Nat.min_eq_left hn]
    have hsplit : l.flatMap (writeImpl 4) = (l.take n).flatMap (writeImpl 4) ++ (l.drop n).flatMap (writeImpl 4) := by
      rw [← List.flatMap_append, List.take_append_drop]
    rw [hsplit]
    exact ⟨List.take_left' hlen, List.drop_left' hlen⟩
  · have hlen : (l.flatMap (writeImpl 4)).length ≤ 4 * n := by
      rw [length_numbers]
      omega
    rw [List.take_of_length_le hlen, List.drop_of_length_le hlen, List.take_of_length_le (by omega), List.drop_of_length_le (by omega)]
    exact ⟨rfl, rfl⟩

/-- A pack pushed by `SACK`, with the numbers that it names -/
structure SackPack (dsn : Nat) (opack : PackInMemory) (chunk : List Nat) : Prop where
  header_eq : opack.header = { seq := dsn, ack := 0, wnd := 0, flag := .sack, dlen := 4 * chunk.length }
  held : ∃ data, opack.data = some data ∧ data.Holds (chunk.flatMap (writeImpl 4))
  ne_nil : chunk ≠ []
  length_le : chunk.length ≤ packAckedMax

theorem SackPack.payload_eq {dsn : Nat} {opack : PackInMemory} {chunk : List Nat} (h : SackPack dsn opack chunk) :
    payload opack.data = chunk.flatMap (writeImpl 4) := by
  obtain ⟨data, hdata, hheld⟩ := h.held
  rw [hdata, payload, hheld.bytes_eq]

section

variable {p : Packet} {l : List Nat}

/-- Up to `packAckedMaxBytes` bytes go from the front of the packet to the pack pushed. -/
theorem sackRound_bytes (dsn : Nat) {c : List Byte} (h : p.Holds c) :
    ∃ data, sackRound dsn p = .ok
        ({ header := { seq := dsn, ack := 0, wnd := 0, flag := .sack, dlen := (c.take packAckedMaxBytes).length }, data := some data },
          { p with mReadIdx := u32 (p.mReadIdx + (c.take packAckedMaxBytes).length) }) ∧
      data.Holds (c.take packAckedMaxBytes) := by
  have hbytes : packAckedMaxBytes = 1384 := rfl
  have hmdu : wcpMdu = 1384 := rfl
  obtain ⟨bytes, hb⟩ : ∃ bytes, bytes = c.take packAckedMaxBytes := ⟨_, rfl⟩
  have hlen : bytes.length = min packAckedMaxBytes c.length := by rw [hb, List.length_take]
  have hwlen : (if c.length ≥ packAckedMaxBytes then packAckedMaxBytes else c.length) = bytes.length := by
    split_ifs <;> omega
  have hfits : bytes.length ≤ c.length := by omega
  obtain ⟨rest, hfront⟩ : ∃ rest, p.mBuffer.drop p.mReadIdx = bytes ++ rest := by
    have hcontents : (p.mBuffer.drop p.mReadIdx).take c.length = c := h.contents
    have htake := congrArg (List.take packAckedMaxBytes) hcontents
    rw [List.take_take, ← hb] at htake
    exact ⟨_, by rw [← htake, List.take_append_drop]⟩
  rw [← hb]
  obtain ⟨data, hnew, hempty, hs⟩ := Packet.new_spare (r := wcpMdu) (by decide)
  have hs' : data.Spare packInitLeftCapacity (bytes.length + 0) := by
    refine ⟨hs.left, ?_⟩
    have hright := hs.right
    omega
  obtain ⟨data', hwrite, hheld, -⟩ := hempty.write_spare bytes hs'
  rw [List.nil_append] at hheld
  have hand : bytes.length &&& 0xFFFF = bytes.length := by
    rw [show 0xFFFF = 2 ^ 16 - 1 from rfl, Nat.and_two_pow_sub_one_eq_mod, Nat.mod_eq_of_lt (by omega)]
  have hskip : p.skip bytes.length = .ok { p with mReadIdx := u32 (p.mReadIdx + bytes.length) } := by
    unfold Packet.skip
    rw [h.len_eq, ok_bind, require_eq hfits]
    rfl
  refine ⟨data', ?_, hheld⟩
  unfold sackRound
  rw [hnew, ok_bind, h.len_eq, ok_bind, hwlen]
  dsimp only
  rw [hfront, Packet.write_append, hwrite, ok_bind, hskip, ok_bind, hheld.len_eq, ok_bind, hand]
  rfl

theorem sackRound_eq (dsn : Nat) (h : Grown p (l.flatMap (writeImpl 4))) (hl : l ≠ []) :
    ∃ opack p', sackRound dsn p = .ok (opack, p') ∧ SackPack dsn opack (l.take packAckedMax) ∧
      Grown p' ((l.drop packAckedMax).flatMap (writeImpl 4)) := by
  have hmax : packAckedMax = 346 := rfl
  obtain ⟨htake, hdrop⟩ := cut_numbers l packAckedMax
  obtain ⟨data, hround, hdata⟩ := sackRound_bytes dsn h.held
  have hbytes : packAckedMaxBytes = 4 * packAckedMax := rfl
  rw [hbytes, htake] at hround hdata
  have hlen := length_numbers (l.take packAckedMax)
  refine ⟨_, _, hround, ⟨?_, ⟨data, rfl, hdata⟩, ?_, List.length_take_le _ _⟩, ⟨?_, h.left, h.right⟩⟩
  · rw [hlen]
  · intro hnil
    rcases List.take_eq_nil_iff.mp hnil with h0 | h0
    · omega
    · exact hl h0
  · have hfits : ((l.take packAckedMax).flatMap (writeImpl 4)).length ≤ (l.flatMap (writeImpl 4)).length := by
      rw [← htake]
      exact List.length_take_le' _ _
    have hrest : (l.flatMap (writeImpl 4)).drop ((l.take packAckedMax).flatMap (writeImpl 4)).length =
        (l.drop packAckedMax).flatMap (writeImpl 4) := by
      conv_lhs =>
        arg 2
        rw [← List.take_append_drop packAckedMax l, List.flatMap_append]
      exact List.drop_left
    rw [← hrest]
    exact h.held.advance hfits

/-- The packet is emptied into packs of the pieces of the list. -/
theorem sackPacks_eq (dsn n : Nat) (h : Grown p (l.flatMap (writeImpl 4))) (hn : l.length ≤ n * packAckedMax) :
    ∃ packs chunks p', sackPacks dsn (n + 1) p = .ok (packs.flatMap (List.replicate (1 + wcpSndSackDupCount)), p') ∧ Grown p' [] ∧
      List.Chunked packAckedMax l chunks ∧ List.Forall₂ (SackPack dsn) packs chunks := by
  have hmax : packAckedMax = 346 := rfl
  rw [hmax] at hn
  induction n generalizing p l with
  | zero =>
    obtain rfl : l = [] := List.eq_nil_of_length_eq_zero (by omega)
    refine ⟨[], [], p, ?_, h, .nil, .nil⟩
    rw [sackPacks, h.held.len_eq]
    rfl
  | succ n ih =>
    by_cases hl : l = []
    · subst hl
      refine ⟨[], [], p, ?_, h, .nil, .nil⟩
      rw [sackPacks, h.held.len_eq]
      rfl
    · have hpos := List.length_pos_iff.mpr hl
      obtain ⟨opack, p₁, hround, hpack, h₁⟩ := sackRound_eq dsn h hl
      obtain ⟨packs, chunks, p₂, hrest, h₂, hchunks, hpacks⟩ := ih h₁ (by rw [List.length_drop]; omega)
      refine ⟨opack :: packs, l.take packAckedMax :: chunks, p₂, ?_, h₂, .cons hl hchunks, .cons hpack hpacks⟩
      rw [sackPacks, h.held.len_eq, ok_bind, if_pos (by rw [length_numbers]; omega), hround, ok_bind]
      dsimp only
      rw [hrest, ok_bind, List.flatMap_cons]
      rfl

end

/-- What a batch puts into the scratch packet leaves it in packs, and the next batch finds it empty again. The
only batch that fails is one with more numbers than the packet can hold. -/
theorem sackBatch_eq (dsn : Nat) {tmp : Packet} (h : SackTmp tmp []) {batch : List WcbReceivedPack} {l : List Nat}
    (hl : l = (batch.filter fun p => p.inSeqSpace).map fun p => p.seq) :
    (4 * l.length ≤ sackTmpMax → ∃ packs chunks tmp',
        sackBatch dsn batch tmp = .ok (packs.flatMap (List.replicate (1 + wcpSndSackDupCount)), tmp') ∧ SackTmp tmp' [] ∧
        List.Chunked packAckedMax l chunks ∧ List.Forall₂ (SackPack dsn) packs chunks) ∧
      (sackTmpMax < 4 * l.length → sackBatch dsn batch tmp = .error .extendRight) := by
  have hwrite := h.writeAll (batch.filter fun p => p.inSeqSpace)
  rw [← hl, List.nil_append, List.length_nil, Nat.zero_add, ← List.length_map (f := fun p : WcbReceivedPack => p.seq), ← hl] at hwrite
  have hbytes : packAckedMaxBytes = 4 * packAckedMax := rfl
  have hmax : packAckedMax = 346 := rfl
  rcases hwrite.ok_or_error with ⟨tmp₁, htmp, h₁⟩ | ⟨e, htmp, rfl, hlt⟩
  · have hle : 4 * l.length ≤ sackTmpMax := by
      rw [← length_numbers]
      exact h₁.length_le.trans h₁.right_le
    refine ⟨fun _ => ?_, fun hlt => absurd hle hlt.not_ge⟩
    by_cases hnil : l = []
    · subst hnil
      refine ⟨[], [], tmp₁, ?_, h₁, .nil, .nil⟩
      unfold sackBatch writeSeqs
      rw [htmp, ok_bind, h₁.held.len_eq]
      rfl
    · have hpos := List.length_pos_iff.mpr hnil
      have hlen := length_numbers l
      obtain ⟨packs, chunks, tmp₂, hpacks, h₂, hchunks, hall⟩ :=
        sackPacks_eq dsn ((l.flatMap (writeImpl 4)).length / packAckedMaxBytes + 1) h₁.toGrown (by rw [hlen, hbytes, hmax]; omega)
      have hreset : tmp₂.reset = .ok { tmp₂ with mReadIdx := tmp₂.mLeftCapacity, mWriteIdx := tmp₂.mLeftCapacity } :=
        Packet.reset_eq_ok.mpr ⟨⟨h₂.held.left_pos, by rw [h₂.left]; decide⟩, rfl⟩
      refine ⟨packs, chunks, _, ?_, ⟨⟨h₂.held.reset hreset, h₂.left, h₂.right⟩, rfl⟩, hchunks, hall⟩
      unfold sackBatch writeSeqs
      rw [htmp, ok_bind, h₁.held.len_eq, ok_bind, if_pos (by omega), hpacks, ok_bind]
      dsimp only
      rw [hreset]
      rfl
  · refine ⟨fun hle => absurd hle hlt.not_ge, fun _ => ?_⟩
    unfold sackBatch writeSeqs
    rw [htmp]
    rfl

/-! ### The queue of `check_recv` -/

section Queue

variable {w w' w₀ : Wcb} {now : Nat} {es : List Event} {s s' : Snd} {acks : List Nat}

/-- An entry of the queue made by `SACK`, with the numbers that it names -/
structure QueuedSack (dsn : Nat) (q : QueuedPack) (chunk : List Nat) : Prop where
  header_eq : q.pack.header = { seq := dsn, ack := 0, wnd := 0, flag := .sack, dlen := 4 * chunk.length }
  data_eq : q.pack.data = chunk.flatMap (writeImpl 4)
  dup_eq : q.dup = wcpSndSackDupCount

theorem SACK_round (n : Nat) {l : List Nat} (s : Snd) (hl : l ≠ []) :
    ∃ h, Snd.SACK (n + 1) l s =
      Snd.SACK n (l.drop packAckedMax) (s.pushIgnoreSeqSpace .sack ((l.take packAckedMax).flatMap writeU32) h wcpSndSackDupCount) := by
  cases l with
  | nil => exact absurd rfl hl
  | cons a l => exact ⟨_, rfl⟩

theorem SACK_queue (n : Nat) {l : List Nat} (s : Snd) (hn : l.length ≤ n) :
    ∃ qs chunks, (Snd.SACK n l s).sendingIgnoreSeqSpace = s.sendingIgnoreSeqSpace ++ qs ∧ List.Chunked packAckedMax l chunks ∧
      List.Forall₂ (QueuedSack s.dsn) qs chunks := by
  have hmax : packAckedMax = 346 := rfl
  induction n generalizing l s with
  | zero =>
    obtain rfl : l = [] := List.eq_nil_of_length_eq_zero (by omega)
    exact ⟨[], [], (List.append_nil _).symm, .nil, .nil⟩
  | succ n ih =>
    by_cases hl : l = []
    · subst hl
      exact ⟨[], [], (List.append_nil _).symm, .nil, .nil⟩
    obtain ⟨hdata, hround⟩ := SACK_round n s hl
    have hpos := List.length_pos_iff.mpr hl
    obtain ⟨qs, chunks, hqueue, hchunks, hqs⟩ := ih (l := l.drop packAckedMax)
      (s.pushIgnoreSeqSpace .sack ((l.take packAckedMax).flatMap writeU32) hdata wcpSndSackDupCount) (by
        rw [List.length_drop]
        omega)
    rw [hround]
    refine ⟨_, _, hqueue.trans (List.append_assoc _ [_] qs), .cons hl hchunks, .cons ⟨?_, ?_, rfl⟩ hqs⟩
    · rw [← length_flatMap_writeU32]
      rfl
    · rw [funext writeImpl_four_eq]
      rfl

theorem ackLoop_queue {clock : Nat → Nat} (h : s.ackLoop now clock acks = .ok s') : s'.sendingIgnoreSeqSpace = s.sendingIgnoreSeqSpace := by
  refine foldlM_inv (fun v : Snd => v.sendingIgnoreSeqSpace = s.sendingIgnoreSeqSpace) (fun ack _ v v' hv ho => ?_) h rfl
  rw [← hv]
  unfold Snd.ackOne at ho
  by_cases hu : ack < v.una
  · rw [if_pos hu] at ho
    cases ho
    rfl
  rw [if_neg hu] at ho
  obtain ⟨t, ht, ho⟩ := bind_eq_ok.1 ho
  cases ho
  have hrecover : (t.fastRecover ack).sendingIgnoreSeqSpace = t.sendingIgnoreSeqSpace := by
    unfold Snd.fastRecover
    dsimp only
    split_ifs <;> rfl
  have hbiggest : (if ack > v.biggestAck then { v with biggestAck := ack, biggestSackUpdate := true } else v).sendingIgnoreSeqSpace =
      v.sendingIgnoreSeqSpace := by
    split_ifs <;> rfl
  rw [hrecover, ← hbiggest]
  generalize (if ack > v.biggestAck then { v with biggestAck := ack, biggestSackUpdate := true } else v) = v₁ at ht
  unfold Snd.ackFlight at ht
  split at ht
  · cases ht
    rfl
  · obtain ⟨x, hx, ht⟩ := bind_eq_ok.1 ht
    cases ht
    obtain ⟨-, c, -, hsender⟩ := handlePackAcked_ok hx
    exact congrArg Sender.ctl hsender

/-- The classification answers keepalive probes. -/
theorem classify_queue {batch : List WcbReceivedPack} {c : Wcb × List Nat} (h : classify batch w = .ok c) :
    ∃ replies, c.1.snd.sendingIgnoreSeqSpace = w.snd.sendingIgnoreSeqSpace ++ replies ∧
      (∀ q ∈ replies, q.pack.testFlag .sack = false) ∧ c.1.snd.dsn = w.snd.dsn := by
  refine foldlM_inv (fun c : Wcb × List Nat => ∃ replies, c.1.snd.sendingIgnoreSeqSpace = w.snd.sendingIgnoreSeqSpace ++ replies ∧
    (∀ q ∈ replies, q.pack.testFlag .sack = false) ∧ c.1.snd.dsn = w.snd.dsn) (fun p _ c c' hc ho => ?_) h ⟨[], (List.append_nil _).symm, nofun, rfl⟩
  obtain ⟨replies, hqueue, hreplies, hdsn⟩ := hc
  have hack : (c.1.snd.takeAck p.header).sendingIgnoreSeqSpace = c.1.snd.sendingIgnoreSeqSpace ∧
      (c.1.snd.takeAck p.header).dsn = c.1.snd.dsn := by
    unfold Snd.takeAck
    dsimp only
    split_ifs <;> exact ⟨rfl, rfl⟩
  unfold classifyOne at ho
  dsimp only at ho
  split_ifs at ho
  · obtain ⟨l, -, ho⟩ := bind_eq_ok.1 ho
    cases ho
    exact ⟨replies, hack.1.trans hqueue, hreplies, hack.2.trans hdsn⟩
  · cases ho
    refine ⟨replies ++ [⟨.fresh (c.1.snd.takeAck p.header).dsn .keepAliveReply [] (Nat.zero_le _), 0⟩], ?_, ?_, hack.2.trans hdsn⟩
    · rw [← List.append_assoc, ← hqueue, ← hack.1]
      rfl
    · intro q hq
      rcases List.mem_append.1 hq with hq | hq
      · exact hreplies q hq
      · rw [List.mem_singleton.1 hq, Datagram.testFlag_fresh]
        decide
  · cases ho
    exact ⟨replies, hack.1.trans hqueue, hreplies, hack.2.trans hdsn⟩
  · cases ho
    exact ⟨replies, hack.1.trans hqueue, hreplies, hack.2.trans hdsn⟩

/-- The numbers that a call of `check_recv` acknowledges -/
def batchSeqs (batch : List WcbReceivedPack) : List Nat := (batch.filter fun p => p.inSeqSpace).map fun p => p.seq

/-- Behind what was queued stand replies and probes, and then the packs of `SACK`. -/
theorem checkRecv_queue (htmp : w.rcv.sackedPackTmp = []) (h : checkRecv now w = .ok w') :
    ∃ others qs chunks, w'.snd.sendingIgnoreSeqSpace = w.snd.sendingIgnoreSeqSpace ++ others ++ qs ∧
      (∀ q ∈ others, q.pack.testFlag .sack = false) ∧ List.Chunked packAckedMax (batchSeqs w.rcv.receivedVecStandby) chunks ∧
      List.Forall₂ (QueuedSack w.snd.dsn) qs chunks := by
  obtain ⟨w₁, rfl, ⟨hnil, rfl⟩ | ⟨-, w₂, ht, hl⟩⟩ := checkRecv_cases h
  · rw [hnil]
    unfold checkKeepalive
    dsimp only
    split_ifs
    · exact ⟨[], [], [], by simp [Wcb.takeArrived], nofun, .nil, .nil⟩
    · refine ⟨[⟨.fresh w.snd.dsn .keepAlive [] (Nat.zero_le _), 0⟩], [], [], (List.append_nil _).symm, fun q hq => ?_, .nil, .nil⟩
      rw [List.mem_singleton.1 hq, Datagram.testFlag_fresh]
      decide
    · exact ⟨[], [], [], by simp [Wcb.takeArrived], nofun, .nil, .nil⟩
  · have hdeliver : w₁.snd.sendingIgnoreSeqSpace = w₂.snd.sendingIgnoreSeqSpace :=
      deliverLoop_keeps Snd.sendingIgnoreSeqSpace (fun _ _ => rfl) hl
    unfold takeBatch at ht
    obtain ⟨⟨w₃, acks⟩, hc, ht⟩ := bind_eq_ok.1 ht
    obtain ⟨t, ha, ht⟩ := bind_eq_ok.1 ht
    cases ht
    obtain ⟨replies, hqueue, hreplies, hdsn⟩ := classify_queue hc
    have hlist : w₃.rcv.sackedPackTmp = batchSeqs w.rcv.receivedVecStandby := by
      rw [classify_rcv hc, (foldl_takePack_frame _ _).2.2]
      exact (congrArg (· ++ _) htmp).trans (List.nil_append _)
    obtain ⟨qs, chunks, hsack, hchunks, hqs⟩ := SACK_queue w₃.rcv.sackedPackTmp.length w₃.snd le_rfl
    rw [hlist] at hchunks
    rw [hdsn] at hqs
    refine ⟨replies, qs, chunks, ?_, hreplies, hchunks, hqs⟩
    show w₁.snd.sendingIgnoreSeqSpace = _
    rw [hdeliver, ackLoop_queue ha]
    exact hsack.trans (congrArg (· ++ qs) hqueue)

/-! ### The scratch packet between two calls -/

theorem checkRecv_tmp (htmp : w.rcv.sackedPackTmp = []) (h : checkRecv now w = .ok w') : w'.rcv.sackedPackTmp = [] := by
  have hswap (r : Rcv) : r.swapRb.sackedPackTmp = r.sackedPackTmp := by
    unfold Rcv.swapRb
    dsimp only
    split_ifs <;> rfl
  obtain ⟨w₁, rfl, ⟨-, rfl⟩ | ⟨-, w₂, ht, hl⟩⟩ := checkRecv_cases h
  · refine (hswap _).trans (Eq.trans ?_ htmp)
    unfold checkKeepalive
    dsimp only
    split_ifs <;> rfl
  · obtain ⟨_, _, _, _, _, _, _, _, _, he⟩ := deliverLoop_delivered hl
    refine (hswap _).trans ?_
    rw [he, takeBatch_rcv ht]

theorem step_tmp {e : Event} (htmp : w.rcv.sackedPackTmp = []) (h : step e w = .ok w') : w'.rcv.sackedPackTmp = [] := by
  have hsend {now : Nat} {w w' : Wcb} (hw : w.rcv.sackedPackTmp = []) (h : checkSend now w = .ok w') : w'.rcv.sackedPackTmp = [] := by
    rcases checkSend_rcv h with h | h <;> rw [h]
    · exact hw
    · unfold checkRwnd
      split_ifs <;> exact hw
  have hall {now : Nat} {w w' : Wcb} (hw : w.rcv.sackedPackTmp = []) (h : checkAll now w = .ok w') : w'.rcv.sackedPackTmp = [] := by
    obtain ⟨w₁, h₁, h⟩ := bind_eq_ok.1 h
    obtain ⟨w₂, h₂, h⟩ := bind_eq_ok.1 h
    exact hsend (by rw [checkFlights_rcv h₂]; exact checkRecv_tmp hw h₁) h
  cases e with
  | send buffer =>
    obtain ⟨c, hs, rfl⟩ := map_eq_ok.1 h
    unfold send at hs
    dsimp only at hs
    split_ifs at hs <;> cases hs <;> exact htmp
  | recv size =>
    obtain ⟨c, hs, rfl⟩ := map_eq_ok.1 h
    unfold recv at hs
    split_ifs at hs <;> cases hs <;> exact htmp
  | shutdown how => cases h; cases how <;> exact htmp
  | close =>
    cases hc : w.closedCalled with
    | true => rw [step, close, if_pos hc] at h; cases h; exact htmp
    | false => rw [step, close_eq hc] at h; cases h; exact htmp
  | setfl b => cases h; exact htmp
  | arrive p => cases h; exact htmp
  | update t =>
    rcases update_eq t.now (w.prepare t) with ⟨state, errno, -, he⟩ | ⟨-, k, -, he⟩ | ⟨-, he⟩ <;> rw [step, he] at h
    · cases h; exact htmp
    · obtain ⟨w₁, h₁, rfl⟩ := map_eq_ok.1 h
      have hkeep : w₁.rcv.sackedPackTmp = [] := hall (w := w.prepare t) htmp h₁
      exact hkeep
    · obtain ⟨w₁, h₁, h₂⟩ := bind_eq_ok.1 h
      exact hsend (by rw [checkFlights_rcv h₁]; exact htmp) h₂
  | checkRecv t => exact checkRecv_tmp (w := w.prepare t) htmp h
  | checkFlights t => rw [checkFlights_rcv h]; exact htmp
  | checkSend t => exact hsend (w := w.prepare t) htmp h

theorem run_tmp (h₀ : Opened w₀) (h : Run step (fun _ _ => True) w₀ es w) : w.rcv.sackedPackTmp = [] := by
  refine h.inv (fun w => w.rcv.sackedPackTmp = []) (fun _ _ _ hw _ hs => step_tmp hw hs) ?_
  cases h₀ with
  | active u now rcvCap sndCap addr w h =>
    unfold connect at h
    split_ifs at h
    cases h
    rfl
  | passive u now rcvCap sndCap synpack hsyn hrst => rfl

end Queue

/-! ### Consumption -/

/-- `readSack` is the loop on the packet, as long as the rounds reach its end. -/
theorem readSackPacket_eq (n : Nat) {data : Packet} {c : List Byte} (h : data.Holds c) (hn : c.length < n) :
    readSackPacket n data = (readSack c).mapError fun _ => .packetRead := by
  induction n generalizing data c with
  | zero => exact absurd hn (Nat.not_lt_zero _)
  | succ n ih =>
    rw [readSackPacket, h.len_eq, ok_bind]
    rcases c with _ | ⟨b₁, _ | ⟨b₂, _ | ⟨b₃, _ | ⟨b₄, c⟩⟩⟩⟩
    · rfl
    case cons.cons.cons.cons =>
      obtain ⟨data', hread, h'⟩ := h.readT_drop (show 4 ≤ (b₁ :: b₂ :: b₃ :: b₄ :: c).length by
        simp only [List.length_cons]
        omega)
      have happend : readImpl 4 ([b₁, b₂, b₃, b₄] ++ c) = readImpl 4 [b₁, b₂, b₃, b₄] := readImpl_append le_rfl
      have hvalue : readImpl 4 (b₁ :: b₂ :: b₃ :: b₄ :: c) = readU32 b₁ b₂ b₃ b₄ := happend.trans (readImpl_four ..)
      simp only [List.length_cons] at hn
      rw [if_pos (by simp), hread, ok_bind, hvalue]
      dsimp only
      rw [ih h' (by show c.length < n; omega)]
      rw [show (b₁ :: b₂ :: b₃ :: b₄ :: c).drop 4 = c from rfl, readSack]
      cases readSack c <;> rfl
    all_goals
      rw [if_pos (by simp), h.readT_short (by simp)]
      rfl

theorem readSack_numbers {l : List Nat} (hl : ∀ n ∈ l, n < 2 ^ 32) : readSack (l.flatMap (writeImpl 4)) = .ok l := by
  induction l with
  | nil => rfl
  | cons a l ih =>
    obtain ⟨ha, hl⟩ := List.forall_mem_cons.mp hl
    obtain ⟨b₁, b₂, b₃, b₄, hb⟩ : ∃ b₁ b₂ b₃ b₄, writeImpl 4 a = [b₁, b₂, b₃, b₄] := ⟨_, _, _, _, rfl⟩
    have hvalue : readU32 b₁ b₂ b₃ b₄ = a := by rw [← readImpl_four, ← hb, readImpl_writeImpl ha]
    rw [List.flatMap_cons, hb]
    show (do return readU32 b₁ b₂ b₃ b₄ :: (← readSack (l.flatMap (writeImpl 4)))) = _
    rw [ih hl, hvalue]
    rfl

/-- The header `h'` with which the pack of header `h` is sent: `send_pack` sets `ack` and `wnd`, and
`check_send` may add `WCP_FLAG_WND`. -/
structure Stamped (h h' : WcpHeader) : Prop where
  inRange : h'.InRange
  seq_eq : h'.seq = h.seq
  flag_eq : h'.flag = h.flag ∨ h'.flag = h.flag ||| .wnd

/-- The pack received is `opack`, sent with the header `header`; `data` is its packet. -/
def Decoded (opack : PackInMemory) (header : WcpHeader) (p : WcbReceivedPack) (data : Packet) : Prop :=
  ∃ mbuffer m wlen buffer, mbuffer.length = wcpMtu ∧
    ({ opack with header := header } : PackInMemory).toUdpmessage mbuffer wcpMtu = .ok (m, wlen) ∧ buffer.take wlen = m.take wlen ∧
    fromUdpmessage buffer wlen = .ok (p.header, some data) ∧ p.data = data.bytes

def Arrives (opack : PackInMemory) (p : WcbReceivedPack) : Prop :=
  ∃ header data, Stamped opack.header header ∧ Decoded opack header p data

namespace SackPack

variable {dsn : Nat} {opack : PackInMemory} {chunk : List Nat} (h : SackPack dsn opack chunk)
include h

theorem fits (header : WcpHeader) : ({ opack with header := header } : PackInMemory).Fits := by
  have hmax : packAckedMax = 346 := rfl
  have hmdu : wcpMdu = 1384 := rfl
  have hle := h.length_le
  obtain ⟨data, hdata, hheld⟩ := h.held
  refine ⟨fun d hd => ?_, ?_⟩
  · obtain rfl : data = d := Option.some.inj (hdata.symm.trans hd)
    rwa [hheld.bytes_eq]
  · show (payload opack.data).length ≤ wcpMdu
    rw [h.payload_eq, length_numbers]
    omega

theorem payload_ne_nil : payload opack.data ≠ [] := by
  intro hnil
  have hlen := length_numbers chunk
  rw [← h.payload_eq, hnil, List.length_nil] at hlen
  exact h.ne_nil (List.eq_nil_of_length_eq_zero (by omega))

/-- Every such pack can be sent and received, and is read from its packet. -/
theorem decodes (hchunk : ∀ n ∈ chunk, n < 2 ^ 32) {header : WcpHeader} (hs : Stamped opack.header header) (addr : Address) :
    ∃ p data, p.fromAddr = addr ∧ Decoded opack header p data ∧ readSackPacket (wcpMdu + 1) data = .ok chunk := by
  have hmdu := (h.fits header).2
  obtain ⟨m, wlen, hput, hwritten⟩ := (h.fits header).toUdpmessage_mtu (show (List.replicate wcpMtu (0 : Byte)).length = wcpMtu from
    List.length_replicate ..)
  obtain ⟨data, hfrom, hpayload, hheld⟩ := fromUdpmessage_written (h.fits header) hs.inRange hwritten m rfl
  cases data with
  | none => exact absurd (hpayload.symm.trans rfl) h.payload_ne_nil
  | some data =>
    have hheld : data.Holds (chunk.flatMap (writeImpl 4)) := h.payload_eq ▸ hheld data rfl
    refine ⟨⟨⟨{ header with dlen := (payload opack.data).length }, payload opack.data, rfl, hmdu⟩, addr⟩, data, rfl,
      ⟨_, m, wlen, m, List.length_replicate .., hput, rfl, hfrom, hpayload.symm⟩, ?_⟩
    rw [readSackPacket_eq _ hheld (by rw [← h.payload_eq]; exact Nat.lt_succ_of_le hmdu), readSack_numbers hchunk]
    rfl

theorem arrives {p : WcbReceivedPack} (ha : Arrives opack p) : p.data = chunk.flatMap (writeImpl 4) := by
  obtain ⟨header, data, hs, mbuffer, m, wlen, buffer, hbuffer, hput, htake, hfrom, hdata⟩ := ha
  obtain ⟨m', wlen', hput', hwritten⟩ := (h.fits header).toUdpmessage_mtu hbuffer
  rw [hput'] at hput
  cases hput
  obtain ⟨data', hfrom', hpayload, -⟩ := fromUdpmessage_written (h.fits header) hs.inRange hwritten buffer htake
  obtain ⟨-, rfl⟩ := Prod.mk.inj (Except.ok.inj (hfrom'.symm.trans hfrom))
  rw [hdata]
  exact hpayload.trans h.payload_eq

end SackPack

/-- What the SACKs of a batch say goes to `acked_queue` in the order of their arrival, whatever else is in the batch. -/
theorem classify_acks {batch : List WcbReceivedPack} {acks : List (List Nat)}
    (h : List.Forall₂ (fun p l => p.data ≠ [] ∧ readSack p.data = .ok l) (batch.filter fun p => p.testFlag .sack) acks) (w : Wcb) :
    ∃ w', classify batch w = .ok (w', acks.flatten) := by
  suffices hfold : ∀ pre : List Nat, ∃ w', batch.foldlM classifyOne (w, pre) = .ok (w', pre ++ acks.flatten) by
    obtain ⟨w', hw'⟩ := hfold []
    exact ⟨w', hw'⟩
  intro pre
  induction batch generalizing w pre acks with
  | nil =>
    cases h
    exact ⟨w, by rw [List.flatten_nil, List.append_nil]; rfl⟩
  | cons p batch ih =>
    by_cases hs : p.testFlag .sack = true
    · rw [List.filter_cons_of_pos (p := fun p : WcbReceivedPack => p.testFlag .sack) hs] at h
      cases h with
      | @cons _ l _ acks hp h =>
        obtain ⟨hne, hread⟩ := hp
        obtain ⟨w₁, hone⟩ : ∃ w₁, classifyOne (w, pre) p = .ok (w₁, pre ++ l) := by
          unfold classifyOne
          dsimp only
          rw [if_pos hs, if_neg hne, hread]
          exact ⟨_, rfl⟩
        obtain ⟨w', hw'⟩ := ih h w₁ (pre ++ l)
        refine ⟨w', ?_⟩
        rw [List.foldlM_cons, hone, ok_bind, hw', List.flatten_cons, List.append_assoc]
    · rw [List.filter_cons_of_neg (p := fun p : WcbReceivedPack => p.testFlag .sack) hs] at h
      obtain ⟨w₁, hone⟩ : ∃ w₁, classifyOne (w, pre) p = .ok (w₁, pre) := by
        unfold classifyOne
        dsimp only
        rw [if_neg hs]
        split_ifs <;> exact ⟨_, rfl⟩
      obtain ⟨w', hw'⟩ := ih h w₁ pre
      refine ⟨w', ?_⟩
      rw [List.foldlM_cons, hone, ok_bind, hw']

/-! ### Emission and consumption -/

/-- The packet that `init` makes for `snd_sacked_pack_tmp`, after some batches -/
inductive SackScratch : Packet → Prop
  | new {tmp : Packet} (h : Packet.new (64 * 1024) packInitLeftCapacity = .ok tmp) : SackScratch tmp
  | next {tmp tmp' : Packet} {dsn : Nat} {batch : List WcbReceivedPack} {opacks : List PackInMemory} (h : SackScratch tmp)
      (hb : sackBatch dsn batch tmp = .ok (opacks, tmp')) : SackScratch tmp'

theorem sackBatch_tmp {dsn : Nat} {batch : List WcbReceivedPack} {tmp tmp' : Packet} {opacks : List PackInMemory} (h : SackTmp tmp [])
    (hb : sackBatch dsn batch tmp = .ok (opacks, tmp')) : SackTmp tmp' [] := by
  obtain ⟨hroom, hfull⟩ := sackBatch_eq dsn h (show batchSeqs batch = _ from rfl)
  rcases Nat.lt_or_ge sackTmpMax (4 * (batchSeqs batch).length) with hlt | hle
  · rw [hfull hlt] at hb
    cases hb
  · obtain ⟨packs, chunks, tmp₁, hb', h₁, -⟩ := hroom hle
    rw [hb'] at hb
    cases hb
    exact h₁

theorem SackScratch.sackTmp {tmp : Packet} (h : SackScratch tmp) : SackTmp tmp [] := by
  induction h with
  | new h => exact sackTmp_new h
  | next _ hb ih => exact sackBatch_tmp ih hb

/-- The entry `q` of the queue, with its copies, is the pack `opack`. -/
structure QueuedAs (opack : PackInMemory) (q : QueuedPack) : Prop where
  header_eq : q.pack.header = opack.header
  data_eq : q.pack.data = payload opack.data
  dup_eq : q.dup = wcpSndSackDupCount

section

variable {dsn : Nat} {packs : List PackInMemory} {chunks : List (List Nat)} {queued : List QueuedPack}

theorem queuedAs_of_chunks (h : List.Forall₂ (SackPack dsn) packs chunks) (hq : List.Forall₂ (QueuedSack dsn) queued chunks) :
    List.Forall₂ QueuedAs packs queued := by
  induction h generalizing queued with
  | nil => cases hq; exact .nil
  | cons h _ ih =>
    cases hq with
    | cons h' hq => exact .cons ⟨h'.header_eq.trans h.header_eq.symm, h'.data_eq.trans h.payload_eq.symm, h'.dup_eq⟩ (ih hq)

theorem payloads_of_chunks (h : List.Forall₂ (SackPack dsn) packs chunks) :
    (packs.flatMap fun opack => payload opack.data) = chunks.flatten.flatMap (writeImpl 4) := by
  induction h with
  | nil => rfl
  | cons h _ ih => rw [List.flatMap_cons, List.flatten_cons, List.flatMap_append, h.payload_eq, ih]

theorem sackPack_of_mem (h : List.Forall₂ (SackPack dsn) packs chunks) : ∀ opack ∈ packs, ∃ chunk, SackPack dsn opack chunk := by
  induction h with
  | nil => nofun
  | cons h _ ih => exact List.forall_mem_cons.mpr ⟨⟨_, h⟩, ih⟩

/-- The numbers that arrived packs say -/
theorem acks_of_arrives {got : List (PackInMemory × List Nat)} {batch : List WcbReceivedPack}
    (hgot : ∀ g ∈ got, SackPack dsn g.1 g.2 ∧ ∀ n ∈ g.2, n < 2 ^ 32) (h : List.Forall₂ (fun p g => Arrives g.1 p) batch got) :
    List.Forall₂ (fun p l => p.data ≠ [] ∧ readSack p.data = .ok l) batch (got.map fun g => g.2) := by
  induction h with
  | nil => exact .nil
  | @cons p g _ _ h _ ih =>
    obtain ⟨⟨hpack, hseq⟩, hgot⟩ := List.forall_mem_cons.mp hgot
    have hdata : p.data = g.2.flatMap (writeImpl 4) := hpack.arrives h
    refine .cons ⟨?_, ?_⟩ (ih hgot)
    · rw [hdata, ← hpack.payload_eq]
      exact hpack.payload_ne_nil
    · rw [hdata, readSack_numbers hseq]

end

section

variable {w₀ w w' : Wcb} {es : List Event} {now : Nat} {tmp : Packet}

/-- A call of `check_recv`, as long as the numbers of its batch fit into the scratch packet: behind the replies
to keepalive probes it queues packs, each `1 + WCP_SND_SACK_DUP_COUNT` times, not empty, of whole numbers and
within `WCP_MDU`, which together say the numbers of the sequence-space packs in the order of the batch, and the
scratch packet is empty again. Every one of them can be sent and received, and what a peer receives of them,
lost, doubled and in any order, is named in its `acked_queue`, once for each copy. -/
theorem sack_agrees (h₀ : Opened w₀) (h : Run step (fun _ _ => True) w₀ es w) (htmp : SackScratch tmp)
    (hr : checkRecv now w = .ok w') (hseq : ∀ n ∈ batchSeqs w.rcv.receivedVecStandby, n < 2 ^ 32)
    (hroom : 4 * (batchSeqs w.rcv.receivedVecStandby).length ≤ sackTmpMax) :
    ∃ packs chunks tmp' others queued,
      sackBatch w.snd.dsn w.rcv.receivedVecStandby tmp = .ok (packs.flatMap (List.replicate (1 + wcpSndSackDupCount)), tmp') ∧
      SackScratch tmp' ∧ w'.snd.sendingIgnoreSeqSpace = w.snd.sendingIgnoreSeqSpace ++ others ++ queued ∧
      (∀ q ∈ others, q.pack.testFlag .sack = false) ∧ List.Forall₂ QueuedAs packs queued ∧
      (∀ opack ∈ packs, opack.header.flag = .sack ∧ payload opack.data ≠ [] ∧ (payload opack.data).length ≤ wcpMdu ∧
        4 ∣ (payload opack.data).length) ∧
      (packs.flatMap fun opack => payload opack.data) = (batchSeqs w.rcv.receivedVecStandby).flatMap (writeImpl 4) ∧
      chunks.length = packs.length ∧ chunks.flatten = batchSeqs w.rcv.receivedVecStandby ∧
      (∀ g ∈ packs.zip chunks, ∀ header addr, Stamped g.1.header header → ∃ p data, p.fromAddr = addr ∧ Decoded g.1 header p data ∧
        readSackPacket (wcpMdu + 1) data = .ok g.2) ∧
      ∀ (v : Wcb) (batch : List WcbReceivedPack) (got : List (PackInMemory × List Nat)), (∀ g ∈ got, g ∈ packs.zip chunks) →
        List.Forall₂ (fun p g => Arrives g.1 p) (batch.filter fun p => p.testFlag .sack) got →
        ∃ v', classify batch v = .ok (v', got.flatMap fun g => g.2) := by
  have hmax : packAckedMax = 346 := rfl
  have hmdu : wcpMdu = 1384 := rfl
  obtain ⟨packs, chunks, tmp', hbatch, htmp', hchunks, hpacks⟩ := (sackBatch_eq w.snd.dsn htmp.sackTmp rfl).1 hroom
  obtain ⟨others, queued, chunks', hqueue, hothers, hchunks', hqueued⟩ := checkRecv_queue (run_tmp h₀ h) hr
  obtain rfl := hchunks.unique hchunks'
  have hflat := hchunks.flatten_eq
  have hzip (g : PackInMemory × List Nat) (hg : g ∈ packs.zip chunks) : SackPack w.snd.dsn g.1 g.2 ∧ ∀ n ∈ g.2, n < 2 ^ 32 := by
    refine ⟨(List.forall₂_iff_zip.mp hpacks).2 hg, fun n hn => hseq n ?_⟩
    show n ∈ batchSeqs w.rcv.receivedVecStandby
    rw [← show chunks.flatten = batchSeqs w.rcv.receivedVecStandby from hflat]
    exact List.mem_flatten.mpr ⟨g.2, (List.of_mem_zip hg).2, hn⟩
  refine ⟨packs, chunks, tmp', others, queued, hbatch, htmp.next hbatch, hqueue, hothers, queuedAs_of_chunks hpacks hqueued, ?_, ?_,
    hpacks.length_eq.symm, hflat, ?_, ?_⟩
  · intro opack hopack
    obtain ⟨chunk, hpack⟩ := sackPack_of_mem hpacks opack hopack
    have hlen : (payload opack.data).length = 4 * chunk.length := by rw [hpack.payload_eq, length_numbers]
    have hle := hpack.length_le
    exact ⟨by rw [hpack.header_eq], hpack.payload_ne_nil, by omega, ⟨chunk.length, hlen⟩⟩
  · rw [payloads_of_chunks hpacks]
    exact congrArg (List.flatMap (writeImpl 4)) hflat
  · intro g hg header addr hs
    exact (hzip g hg).1.decodes (hzip g hg).2 hs addr
  · intro v batch got hgot harrives
    rw [List.flatMap_def]
    exact classify_acks (acks_of_arrives (fun g hg => hzip g (hgot g hg)) harrives) v

theorem sackScratch_new : ∃ tmp, SackScratch tmp := by
  obtain ⟨tmp, hnew, -⟩ := Packet.new_spare (r := 64 * 1024) (by decide)
  exact ⟨tmp, .new hnew⟩

/-- Packs arrive, which the next `check_recv` takes. -/
def Wcb.arrived (w : Wcb) (batch : List WcbReceivedPack) : Wcb :=
  { w with rcv := { w.rcv with receivedVecStandby := w.rcv.receivedVecStandby ++ batch } }

theorem run_arrivals (w : Wcb) (batch : List WcbReceivedPack) : Run step (fun _ _ => True) w (batch.map .arrive) (w.arrived batch) := by
  induction batch generalizing w with
  | nil =>
    unfold Wcb.arrived
    rw [List.append_nil]
    exact .nil _
  | cons p batch ih =>
    have hrest := ih (arrive p w)
    have hbatch : (arrive p w).arrived batch = w.arrived (p :: batch) := by
      show { w with rcv := { w.rcv with receivedVecStandby := w.rcv.receivedVecStandby ++ [p] ++ batch } } = w.arrived (p :: batch)
      rw [List.append_assoc]
      rfl
    rw [hbatch] at hrest
    exact .cons trivial rfl hrest

theorem length_payloads_le {packs : List PackInMemory} (h : ∀ opack ∈ packs, (payload opack.data).length ≤ wcpMdu) :
    (packs.flatMap fun opack => payload opack.data).length ≤ packs.length * wcpMdu := by
  induction packs with
  | nil => exact Nat.zero_le _
  | cons opack packs ih =>
    obtain ⟨hopack, h⟩ := List.forall_mem_cons.mp h
    rw [List.flatMap_cons, List.length_append, List.length_cons, Nat.succ_mul, Nat.add_comm]
    exact Nat.add_le_add (ih h) hopack

/-- Two packs behind one that is lost come two hundred times each: more numbers than fit into one pack. -/
def servedTwice : List WcbReceivedPack :=
  List.replicate 200 (serverData 2 [5] (by decide)) ++ List.replicate 200 (serverData 3 [6] (by decide))

def Wcb.served : Wcb := (Wcb.connecting.after handshake).arrived servedTwice

theorem sack_agrees_served : ∃ (tmp tmp' : Packet) (packs : List PackInMemory) (chunks : List (List Nat)), SackScratch tmp ∧
    sackBatch Wcb.served.snd.dsn Wcb.served.rcv.receivedVecStandby tmp =
      .ok (packs.flatMap (List.replicate (1 + wcpSndSackDupCount)), tmp') ∧
    (packs.flatMap fun opack => payload opack.data) = (List.replicate 200 2 ++ List.replicate 200 3).flatMap (writeImpl 4) ∧
    1 < packs.length ∧ chunks.length = packs.length ∧ chunks.flatten = List.replicate 200 2 ++ List.replicate 200 3 ∧
    ∀ (v : Wcb) (batch : List WcbReceivedPack) (got : List (PackInMemory × List Nat)), (∀ g ∈ got, g ∈ packs.zip chunks) →
      List.Forall₂ (fun p g => Arrives g.1 p) (batch.filter fun p => p.testFlag .sack) got →
      ∃ v', classify batch v = .ok (v', got.flatMap fun g => g.2) := by
  obtain ⟨tmp, htmp⟩ := sackScratch_new
  have hrun : Run step (fun _ _ => True) Wcb.connecting (handshake ++ servedTwice.map .arrive) Wcb.served :=
    (Wcb.run_after (by decide +kernel)).append (run_arrivals _ _)
  have hseqs : batchSeqs Wcb.served.rcv.receivedVecStandby = List.replicate 200 2 ++ List.replicate 200 3 := by decide +kernel
  obtain ⟨w', hr⟩ : ∃ w', checkRecv 3 Wcb.served = .ok w' := by
    have hok : (checkRecv 3 Wcb.served).isOk = true := by decide +kernel
    cases hr : checkRecv 3 Wcb.served with
    | ok w' => exact ⟨w', rfl⟩
    | error e => rw [hr] at hok; cases hok
  obtain ⟨packs, chunks, tmp', others, queued, hbatch, -, -, -, -, hpacks, hbytes, hlen, hflat, -, hpeer⟩ :=
    sack_agrees opened_connecting hrun htmp hr (by rw [hseqs]; decide +kernel) (by rw [hseqs]; decide +kernel)
  rw [hseqs] at hbytes hflat
  refine ⟨tmp, tmp', packs, chunks, htmp, hbatch, hbytes, ?_, hlen, hflat, hpeer⟩
  have htotal : (packs.flatMap fun opack => payload opack.data).length = 1600 := by
    rw [hbytes, length_numbers]
    decide +kernel
  have hfits := length_payloads_le fun opack hopack => (hpacks opack hopack).2.2.1
  have hmdu : wcpMdu = 1384 := rfl
  rw [htotal, hmdu] at hfits
  omega

/-- One pack more than the scratch packet has room for, and `check_recv` throws before it queues a SACK. -/
theorem sack_overflows : ∃ w es tmp, Run step (fun _ _ => True) Wcb.connecting es w ∧ SackScratch tmp ∧
    (batchSeqs w.rcv.receivedVecStandby).length = 4193537 ∧ (∀ n ∈ batchSeqs w.rcv.receivedVecStandby, n < 2 ^ 32) ∧
    sackBatch w.snd.dsn w.rcv.receivedVecStandby tmp = .error .extendRight := by
  obtain ⟨tmp, htmp⟩ := sackScratch_new
  obtain ⟨p, hp⟩ : ∃ p, p = serverData 1 [5] (by decide) := ⟨_, rfl⟩
  have hspace : p.inSeqSpace = true ∧ p.seq = 1 := by
    rw [hp]
    decide
  obtain ⟨w, hw⟩ : ∃ w, w = Wcb.connecting.after handshake := ⟨_, rfl⟩
  have hempty : w.rcv.receivedVecStandby = [] := by
    rw [hw]
    decide +kernel
  have hrun : Run step (fun _ _ => True) Wcb.connecting handshake w := hw ▸ Wcb.run_after (by decide +kernel)
  obtain ⟨n, hn⟩ : ∃ n, n = 4193537 := ⟨_, rfl⟩
  have hseqs : batchSeqs (w.rcv.receivedVecStandby ++ List.replicate n p) = List.replicate n 1 := by
    rw [hempty, List.nil_append, batchSeqs, List.filter_replicate_of_pos (p := fun p : WcbReceivedPack => p.inSeqSpace) hspace.1, List.map_replicate, hspace.2]
  have hlen : (List.replicate n 1).length = 4193537 := by rw [List.length_replicate, hn]
  refine ⟨_, _, tmp, hrun.append (run_arrivals w (List.replicate n p)), htmp, ?_, ?_, ?_⟩
  · show (batchSeqs (w.rcv.receivedVecStandby ++ List.replicate n p)).length = _
    rw [hseqs, hlen]
  · show ∀ k ∈ batchSeqs (w.rcv.receivedVecStandby ++ List.replicate n p), k < 2 ^ 32
    rw [hseqs]
    intro k hk
    rw [List.eq_of_mem_replicate hk]
    decide
  · refine (sackBatch_eq _ htmp.sackTmp rfl).2 ?_
    show sackTmpMax < 4 * (batchSeqs (w.rcv.receivedVecStandby ++ List.replicate n p)).length
    rw [hseqs, hlen, sackTmpMax_eq]
    omega

end

end Wawo
