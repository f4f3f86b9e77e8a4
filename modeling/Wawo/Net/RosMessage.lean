import Wawo.Bytes.Packet

/-!
# Messages of `peer::ros` (`peer/message/ros.hpp`, `peer/ros.hpp`)

In a packet a message is the length of what follows, its net id, its type and its data. The decoder reads a length,
and where it is that of the rest, the message; where it is smaller, the decoder goes on with the rest as if it were a
packet. `Carries` are the bytes in which it comes upon a message in this way.
-/

namespace Wawo

open Lts Memory

inductive RosType
  | none
  | response
  | request
  | send
  | keepAlive
  | max
  | outside (t : Nat) -- a `ros_type` that the cast of a byte has given
deriving DecidableEq

namespace RosType

def toNat : RosType → Nat
  | none => 0
  | response => 1
  | request => 2
  | send => 3
  | keepAlive => 4
  | max => 5
  | outside t => t

/-- `static_cast<ros_type>(t)` -/
def ofNat : Nat → RosType
  | 0 => none
  | 1 => response
  | 2 => request
  | 3 => send
  | 4 => keepAlive
  | 5 => max
  | t => outside t

end RosType

/-- `message::ros`, with data -/
structure RosMessage where
  netId : UInt32
  type : RosType
  data : Packet
deriving DecidableEq

namespace RosMessage

/-- `ros(net_id, type, pack)` -/
def new (netId : UInt32) (type : RosType) (pack : Packet) : Except ByteFault RosMessage := do
  require (type ≠ .none) .rosType
  return ⟨netId, type, pack⟩

/-- `encode(packet_o)`: what it returns, and the packet. Every length is a `u32_t`. -/
def encode (m : RosMessage) : Except ByteFault (Int × Packet) := do
  require (m.type ≠ .none) .rosType
  require (m.type.toNat < RosType.max.toNat) .rosType
  let len ← m.data.len
  require (len > 0) .rosData
  let ooo ← Packet.new len packInitLeftCapacity
  let ooo ← ooo.writeLeftT 1 (m.type.toNat &&& 0xFF)
  let ooo ← ooo.writeLeftT 4 m.netId.toNat
  let ooo ← ooo.write (← load m.data.mBuffer m.data.mReadIdx len) len
  let ooo ← ooo.writeLeftT 4 (← ooo.len)
  return (ok, ooo)

/-- The loop of `_decode_message_from_packet` for an array of `size` entries: the entries it has set, and `ec_o`. It
goes on only before it has set one, and every round takes the four bytes of a length. -/
def decodeLoop (size : Nat) : Nat → Packet → Except ByteFault (List RosMessage × Int)
  | 0, _ => .error .loop
  | rounds + 1, inpack => do
    let (mlength, inpack) ← inpack.readT 4
    let len ← inpack.len
    require (len ≥ mlength) .rosLength
    if mlength = len then
      let (netId, inpack) ← inpack.readT 4
      let (type, inpack) ← inpack.readT 1
      let message ← new (UInt32.ofNat netId) (RosType.ofNat type) inpack
      require (0 < size) .outOfBounds
      return ([message], ok)
    else if len ≠ 0 ∧ 0 < size then decodeLoop size rounds inpack
    else return ([], ok)

/-- `_decode_message_from_packet(inpack, messages_o, size, ec_o)` -/
def decodeMessageFromPacket (size : Nat) (inpack : Packet) : Except ByteFault (List RosMessage × Int) := do
  decodeLoop size ((← inpack.len) + 1) inpack

/-- The messages that are sent: of these types, and with data -/
structure Sendable (m : RosMessage) (c : List Byte) : Prop where
  type : m.type ∈ [.response, .request, .send, .keepAlive]
  data : m.data.Holds c
  ne_nil : c ≠ []

/-- What `encode` writes. -/
def frame (m : RosMessage) (c : List Byte) : List Byte :=
  writeImpl 4 (c.length + 5) ++ (writeImpl 4 m.netId.toNat ++ (writeImpl 1 m.type.toNat ++ c))

/-- Behind some lengths, each of them too small for what follows it, there is the right length, and then a net id, a
type that is not `T_NONE`, and the data. -/
inductive Carries : List Byte → UInt32 → RosType → List Byte → Prop
  | message {c : List Byte} (hlong : 9 ≤ c.length) (hlength : readImpl 4 c = (c.drop 4).length)
      (htype : RosType.ofNat (readImpl 1 (c.drop 8)) ≠ .none) :
      Carries c (UInt32.ofNat (readImpl 4 (c.drop 4))) (RosType.ofNat (readImpl 1 (c.drop 8))) (c.drop 9)
  | skip {c data : List Byte} {netId : UInt32} {type : RosType} (hlong : 4 ≤ c.length) (hlength : readImpl 4 c < (c.drop 4).length)
      (hrest : Carries (c.drop 4) netId type data) : Carries c netId type data

variable {m : RosMessage} {p : Packet} {c data : List Byte} {netId : UInt32} {type : RosType} {size rounds : Nat}

/-! ### Encoding -/

theorem Sendable.range (h : m.Sendable c) : m.type ≠ .none ∧ m.type.toNat < RosType.max.toNat ∧ RosType.ofNat m.type.toNat = m.type := by
  have htype := h.type
  simp only [List.mem_cons, List.not_mem_nil, or_false] at htype
  rcases htype with heq | heq | heq | heq <;> rw [heq] <;> decide

/-- Up to where the size of the new packet is checked -/
theorem encode_new (h : m.Sendable c) : m.encode = (do
    let ooo ← Packet.new c.length packInitLeftCapacity
    let ooo ← ooo.writeLeftT 1 (m.type.toNat &&& 0xFF)
    let ooo ← ooo.writeLeftT 4 m.netId.toNat
    let ooo ← ooo.write (← load m.data.mBuffer m.data.mReadIdx c.length) c.length
    let ooo ← ooo.writeLeftT 4 (← ooo.len)
    return (ok, ooo)) := by
  obtain ⟨hnone, hmax, -⟩ := h.range
  have hpos : c.length > 0 := List.length_pos_iff.mpr h.ne_nil
  unfold encode
  rw [require_eq hnone, ok_bind, require_eq hmax, ok_bind, h.data.len_eq, ok_bind, require_eq hpos, ok_bind]

theorem encode_eq (h : m.Sendable c) (hc : c.length ≤ packMaxRightCapacity) : ∃ p, m.encode = .ok (ok, p) ∧ p.Holds (m.frame c) := by
  obtain ⟨-, hmax, -⟩ := h.range
  have hmask : m.type.toNat &&& 0xFF = m.type.toNat := by
    rw [show 0xFF = 2 ^ 8 - 1 from rfl, Nat.and_two_pow_sub_one_eq_mod]
    exact Nat.mod_eq_of_lt (hmax.trans (by decide))
  obtain ⟨p₀, hp₀, h₀, hs₀⟩ := Packet.new_spare hc
  obtain ⟨p₁, hp₁, h₁, hs₁⟩ := h₀.writeLeftT_spare (l := 127) 1 m.type.toNat hs₀
  obtain ⟨p₂, hp₂, h₂, hs₂⟩ := h₁.writeLeftT_spare (l := 123) 4 m.netId.toNat hs₁
  obtain ⟨p₃, hp₃, h₃, hs₃⟩ := h₂.write_spare (r := 0) c hs₂
  obtain ⟨p₄, hp₄, h₄, -⟩ := h₃.writeLeftT_spare (l := 119) 4 (c.length + 5) hs₃
  have hlen : (writeImpl 4 m.netId.toNat ++ (writeImpl 1 m.type.toNat ++ []) ++ c).length = c.length + 5 := by
    simp only [List.length_append, length_writeImpl, List.length_nil]
    omega
  have hload := h.data.load_front (Nat.le_refl _)
  rw [List.take_length] at hload
  refine ⟨p₄, ?_, ?_⟩
  · rw [encode_new h, hp₀, ok_bind, hmask, hp₁, ok_bind, hp₂, ok_bind, hload, ok_bind, hp₃, ok_bind, h₃.len_eq, hlen, ok_bind, hp₄, ok_bind, pure_eq_ok]
  · rw [List.append_nil, List.append_assoc] at h₄
    exact h₄

/-- Data that do not fit in a new packet make `encode` throw. -/
theorem encode_long (h : m.Sendable c) (hc : packMaxRightCapacity < c.length) : m.encode = .error .initRight := by
  have hright : ¬ max c.length packMinRightCapacity ≤ packMaxRightCapacity := fun hle =>
    absurd ((Nat.le_max_left _ _).trans hle) (Nat.not_le.mpr hc)
  have hnew : Packet.new c.length packInitLeftCapacity = .error .initRight := by
    have hreset : max packInitLeftCapacity packMinLeftCapacity > 0 ∧ max packInitLeftCapacity packMinLeftCapacity < packMaxLeftCapacity := by decide
    unfold Packet.new Packet.reset
    dsimp only
    rw [require_eq hreset, ok_bind, pure_eq_ok, ok_bind, require_eq hreset.2.le, ok_bind, require_ne hright]
    rfl
  rw [encode_new h, hnew]
  rfl

/-! ### Decoding -/

/-- Where the bytes carry no message, the decoder throws. -/
theorem decodeLoop_throws (h : p.Holds c) (hsize : 0 < size) (hrounds : c.length < rounds) (hnone : ∀ netId type data, ¬ Carries c netId type data) :
    ∃ f, f ≠ .loop ∧ decodeLoop size rounds p = .error f := by
  induction rounds generalizing p c with
  | zero => exact absurd hrounds (Nat.not_lt_zero _)
  | succ rounds ih =>
    unfold decodeLoop
    by_cases hlong : 4 ≤ c.length
    case neg => exact ⟨.packetRead, nofun, by rw [h.readT_short (Nat.not_le.mp hlong)]; rfl⟩
    have hlen₁ : (c.drop 4).length = c.length - 4 := List.length_drop
    obtain ⟨p₁, hread₁, h₁⟩ := h.readT_drop hlong
    rw [hread₁, ok_bind]
    dsimp only
    rw [h₁.len_eq, ok_bind]
    by_cases hle : (c.drop 4).length ≥ readImpl 4 c
    case neg => exact ⟨.rosLength, nofun, by rw [require_ne hle]; rfl⟩
    rw [require_eq hle, ok_bind]
    by_cases heq : readImpl 4 c = (c.drop 4).length
    case neg =>
      have hlt : readImpl 4 c < (c.drop 4).length := Nat.lt_of_le_of_ne hle heq
      rw [if_neg heq, if_pos ⟨by omega, hsize⟩]
      exact ih h₁ (by omega) fun netId type data hrest => hnone netId type data (.skip hlong hlt hrest)
    rw [if_pos heq]
    by_cases hlong₁ : 4 ≤ (c.drop 4).length
    case neg => exact ⟨.packetRead, nofun, by rw [h₁.readT_short (Nat.not_le.mp hlong₁)]; rfl⟩
    have hlen₂ : ((c.drop 4).drop 4).length = c.length - 4 - 4 := by rw [List.length_drop, hlen₁]
    obtain ⟨p₂, hread₂, h₂⟩ := h₁.readT_drop hlong₁
    rw [hread₂, ok_bind]
    dsimp only
    by_cases hlong₂ : 1 ≤ ((c.drop 4).drop 4).length
    case neg => exact ⟨.packetRead, nofun, by rw [h₂.readT_short (Nat.not_le.mp hlong₂)]; rfl⟩
    obtain ⟨p₃, hread₃, -⟩ := h₂.readT_drop hlong₂
    rw [hread₃, ok_bind]
    dsimp only
    rw [List.drop_drop]
    have htype : ¬ RosType.ofNat (readImpl 1 (c.drop (4 + 4))) ≠ .none := fun htype => hnone _ _ _ (.message (by omega) heq htype)
    exact ⟨.rosType, nofun, by unfold new; rw [require_ne htype]; rfl⟩

theorem Carries.decodeLoop (hc : Carries c netId type data) (h : p.Holds c) (hsize : 0 < size) (hrounds : c.length < rounds) :
    ∃ m, decodeLoop size rounds p = .ok ([m], ok) ∧ m.netId = netId ∧ m.type = type ∧ m.data.Holds data := by
  induction hc generalizing p rounds with
  | @message c hlong hlength htype =>
    obtain ⟨rounds, rfl⟩ := Nat.exists_eq_succ_of_ne_zero (Nat.ne_of_gt (Nat.lt_of_le_of_lt (Nat.zero_le _) hrounds))
    have hlen₁ : (c.drop 4).length = c.length - 4 := List.length_drop
    have hlen₂ : ((c.drop 4).drop 4).length = c.length - 4 - 4 := by rw [List.length_drop, hlen₁]
    obtain ⟨p₁, hread₁, h₁⟩ := h.readT_drop (show 4 ≤ c.length by omega)
    obtain ⟨p₂, hread₂, h₂⟩ := h₁.readT_drop (show 4 ≤ (c.drop 4).length by omega)
    obtain ⟨p₃, hread₃, h₃⟩ := h₂.readT_drop (show 1 ≤ ((c.drop 4).drop 4).length by omega)
    rw [List.drop_drop] at hread₃ h₃
    rw [List.drop_drop] at h₃
    refine ⟨⟨UInt32.ofNat (readImpl 4 (c.drop 4)), RosType.ofNat (readImpl 1 (c.drop 8)), p₃⟩, ?_, rfl, rfl, h₃⟩
    unfold RosMessage.decodeLoop RosMessage.new
    rw [hread₁, ok_bind]
    dsimp only
    rw [h₁.len_eq, ok_bind, require_eq hlength.le, ok_bind, if_pos hlength, hread₂, ok_bind]
    dsimp only
    rw [hread₃, ok_bind]
    dsimp only
    rw [require_eq htype, ok_bind, pure_eq_ok, ok_bind, require_eq hsize, ok_bind, pure_eq_ok]
  | @skip c data netId type hlong hlength hrest ih =>
    obtain ⟨rounds, rfl⟩ := Nat.exists_eq_succ_of_ne_zero (Nat.ne_of_gt (Nat.lt_of_le_of_lt (Nat.zero_le _) hrounds))
    obtain ⟨p₁, hread₁, h₁⟩ := h.readT_drop hlong
    have hdrop : (c.drop 4).length < rounds := by
      rw [List.length_drop]
      omega
    obtain ⟨m, hm, hsame⟩ := ih h₁ hdrop
    refine ⟨m, ?_, hsame⟩
    unfold RosMessage.decodeLoop
    rw [hread₁, ok_bind]
    dsimp only
    rw [h₁.len_eq, ok_bind, require_eq hlength.le, ok_bind, if_neg hlength.ne, if_pos ⟨by omega, hsize⟩, hm]

theorem frame_carries (h : m.Sendable c) : Carries (m.frame c) m.netId m.type c := by
  obtain ⟨hnone, hmax, hcast⟩ := h.range
  have hfits : c.length ≤ 2 ^ 25 := by
    have hwrite := h.data.write_eq
    have hle := h.data.write_le.trans h.data.capacity_le
    omega
  have hlen (n t : Nat) (rest : List Byte) : n ≤ (writeImpl n t ++ rest).length := by
    rw [List.length_append, length_writeImpl]
    exact Nat.le_add_right _ _
  have hread (n t : Nat) (rest : List Byte) (ht : t < 2 ^ (8 * n)) : readImpl n (writeImpl n t ++ rest) = t := by
    rw [readImpl_append (length_writeImpl n t).ge, readImpl_writeImpl ht]
  have hdrop₁ : (m.frame c).drop 4 = writeImpl 4 m.netId.toNat ++ (writeImpl 1 m.type.toNat ++ c) := List.drop_left' (length_writeImpl 4 _)
  have hdrop₂ : (m.frame c).drop 8 = writeImpl 1 m.type.toNat ++ c := by
    rw [show 8 = 4 + 4 from rfl, ← List.drop_drop, hdrop₁, List.drop_left' (length_writeImpl 4 _)]
  have hdrop₃ : (m.frame c).drop 9 = c := by
    rw [show 9 = 8 + 1 from rfl, ← List.drop_drop, hdrop₂, List.drop_left' (length_writeImpl 1 _)]
  have hlength : (m.frame c).length = c.length + 9 := by
    simp only [frame, List.length_append, length_writeImpl]
    omega
  have htype : readImpl 1 ((m.frame c).drop 8) = m.type.toNat := by
    rw [hdrop₂]
    exact hread 1 _ _ (hmax.trans (by decide))
  have hnet : readImpl 4 ((m.frame c).drop 4) = m.netId.toNat := by
    rw [hdrop₁]
    exact hread 4 _ _ m.netId.toNat_lt
  have hmessage : Carries (m.frame c) _ _ _ := .message (by omega)
    ((hread 4 (c.length + 5) _ (by omega)).trans (by rw [List.length_drop, hlength]; rfl)) (by rw [htype, hcast]; exact hnone)
  rwa [hnet, htype, hcast, hdrop₃, UInt32.ofNat_toNat] at hmessage

theorem decode_of_carries (h : p.Holds c) (hc : Carries c netId type data) (size : Nat) :
    ∃ m, decodeMessageFromPacket (size + 1) p = .ok ([m], ok) ∧ m.netId = netId ∧ m.type = type ∧ m.data.Holds data := by
  obtain ⟨m, hm, hsame⟩ := hc.decodeLoop h (Nat.succ_pos size) (Nat.lt_succ_self _)
  exact ⟨m, by rw [decodeMessageFromPacket, h.len_eq, ok_bind, hm], hsame⟩

/-! ### What is not an encoding -/

/-- The bytes of a packet that `encode` makes of a message that is sent -/
def Encoded (c : List Byte) : Prop := ∃ (m : RosMessage) (data : List Byte) (p : Packet), m.Sendable data ∧ m.encode = .ok (ok, p) ∧ p.bytes = c

theorem toNat_ofNat (t : Nat) : (RosType.ofNat t).toNat = t := by
  unfold RosType.ofNat
  split <;> rfl

/-- The fields of a message at the start, written again -/
theorem frame_fields (hlong : 9 ≤ c.length) (hlength : readImpl 4 c = (c.drop 4).length) (p : Packet) :
    frame ⟨UInt32.ofNat (readImpl 4 (c.drop 4)), RosType.ofNat (readImpl 1 (c.drop 8)), p⟩ (c.drop 9) = c := by
  have hlen (n : Nat) : (c.drop n).length = c.length - n := List.length_drop
  have hwrite (n k : Nat) (hk : n + k ≤ c.length) : writeImpl k (readImpl k (c.drop n)) = (c.drop n).take k := by
    rw [← readImpl_take]
    exact writeImpl_readImpl (List.length_take_of_le (by rw [hlen]; omega))
  have hnet : (UInt32.ofNat (readImpl 4 (c.drop 4))).toNat = readImpl 4 (c.drop 4) := by
    rw [UInt32.toNat_ofNat']
    exact Nat.mod_eq_of_lt (readImpl_lt (by rw [hlen]; omega))
  have hfirst : (c.drop 9).length + 5 = readImpl 4 (c.drop 0) := by
    rw [List.drop_zero, hlength, hlen, hlen]
    omega
  unfold frame
  rw [hnet, toNat_ofNat, hfirst, hwrite 0 4 (by omega), hwrite 4 4 (by omega), hwrite 8 1 (by omega)]
  have hback (n k : Nat) : (c.drop n).take k ++ c.drop (n + k) = c.drop n := by
    rw [← List.drop_drop, List.take_append_drop]
  rw [hback 8 1, hback 4 4, hback 0 4, List.drop_zero]

/-- What a packet carries that is not an encoding: it is behind a length that is too small, or its type is not one of
the four, or it has no data, or more than a new packet takes. -/
theorem Carries.not_encoded (h : p.Holds c) (hc : Carries c netId type data) (henc : ¬ Encoded c) :
    readImpl 4 c < c.length - 4 ∨ type ∉ [.response, .request, .send, .keepAlive] ∨ data = [] ∨ packMaxRightCapacity < data.length := by
  cases hc with
  | message hlong hlength htype =>
    by_contra hnot
    obtain ⟨-, hsend, hne, hfits⟩ : _ ∧ _ ∧ _ ∧ _ := by simpa only [not_or, not_not] using hnot
    obtain ⟨q, hdata⟩ : ∃ q : Packet, q.Holds (c.drop 9) := ⟨_, h.advance hlong⟩
    have hm : RosMessage.Sendable ⟨UInt32.ofNat (readImpl 4 (c.drop 4)), RosType.ofNat (readImpl 1 (c.drop 8)), q⟩ (c.drop 9) :=
      ⟨hsend, hdata, hne⟩
    obtain ⟨p', hp', hheld⟩ := encode_eq hm (Nat.not_lt.mp hfits)
    rw [frame_fields hlong hlength] at hheld
    exact henc ⟨_, _, p', hm, hp', hheld.bytes_eq⟩
  | skip hlong hlength hrest =>
    rw [List.length_drop] at hlength
    exact .inl hlength

/-! ### The codec -/

/-- A message that is sent is received where its data fit in a new packet. From a packet that is not an encoding none
is received where its bytes do not carry one; where they do, it is as `Carries.not_encoded` says. -/
theorem decode_encode (size : Nat) :
    (∀ (m : RosMessage) (c : List Byte), m.Sendable c →
      ((∃ p m', m.encode = .ok (ok, p) ∧ decodeMessageFromPacket (size + 1) p = .ok ([m'], ok) ∧
        m'.netId = m.netId ∧ m'.type = m.type ∧ m'.data.Holds c) ↔ c.length ≤ packMaxRightCapacity)) ∧
    ∀ (p : Packet) (c : List Byte), p.Holds c → ¬ Encoded c →
      (((∃ f, f ≠ .loop ∧ decodeMessageFromPacket (size + 1) p = .error f) ∨ decodeMessageFromPacket (size + 1) p = .ok ([], ok)) ↔
        ∀ netId type data, ¬ Carries c netId type data) ∧
      ∀ netId type data, Carries c netId type data →
        readImpl 4 c < c.length - 4 ∨ type ∉ [.response, .request, .send, .keepAlive] ∨ data = [] ∨ packMaxRightCapacity < data.length := by
  constructor
  · intro m c hm
    constructor
    · rintro ⟨p, -, hp, -⟩
      by_contra hlong
      rw [encode_long hm (Nat.not_le.mp hlong)] at hp
      cases hp
    · intro hc
      obtain ⟨p, hp, hheld⟩ := encode_eq hm hc
      obtain ⟨m', hm', hsame⟩ := decode_of_carries hheld (frame_carries hm) size
      exact ⟨p, m', hp, hm', hsame⟩
  · intro p c hp henc
    refine ⟨⟨?_, ?_⟩, fun netId type data hc => hc.not_encoded hp henc⟩
    · intro hnone netId type data hc
      obtain ⟨m, hm, -⟩ := decode_of_carries hp hc size
      rw [hm] at hnone
      rcases hnone with ⟨f, -, hf⟩ | hnil
      · cases hf
      · cases hnil
    · intro hnone
      obtain ⟨f, hloop, hf⟩ := decodeLoop_throws hp (Nat.succ_pos size) (Nat.lt_succ_self _) hnone
      exact .inl ⟨f, hloop, by rw [decodeMessageFromPacket, hp.len_eq, ok_bind, hf]⟩

/-- An encoding begins with the length of the rest. -/
theorem Encoded.length (h : Encoded c) : readImpl 4 c = c.length - 4 := by
  obtain ⟨m, data, p, hm, hp, rfl⟩ := h
  by_cases hlong : packMaxRightCapacity < data.length
  · rw [encode_long hm hlong] at hp
    cases hp
  · obtain ⟨p', hp', hheld⟩ := encode_eq hm (Nat.not_lt.mp hlong)
    have hfits : packMaxRightCapacity = 2 ^ 24 := rfl
    rw [hp'] at hp
    cases hp
    rw [hheld.bytes_eq]
    unfold frame
    rw [readImpl_append (length_writeImpl 4 _).ge, readImpl_writeImpl (by omega)]
    simp only [List.length_append, length_writeImpl]
    omega

/-- A message of one byte comes back. -/
theorem decode_encode_one : ∃ (p : Packet) (m m' : RosMessage), m.Sendable [7] ∧ m.encode = .ok (ok, p) ∧ decodeMessageFromPacket 5 p = .ok ([m'], ok) ∧
    m'.netId = m.netId ∧ m'.type = m.type ∧ m'.data.Holds [7] := by
  obtain ⟨p₀, -, h₀, hs₀⟩ := Packet.new_spare (show 1 ≤ packMaxRightCapacity by decide)
  obtain ⟨p, -, hp, -⟩ := h₀.write_spare [7] (r := 0) hs₀
  have hm : RosMessage.Sendable ⟨1, .send, p⟩ [7] := ⟨show RosType.send ∈ [.response, .request, .send, .keepAlive] by decide, hp, by decide⟩
  obtain ⟨p', m', henc, hdec⟩ := ((decode_encode 4).1 _ _ hm).mpr (by decide)
  exact ⟨p', _, m', hm, henc, hdec⟩

/-- Four zeros, which are not the length of the rest, and a message -/
def zeroLength : List Byte := [0, 0, 0, 0, 0, 0, 0, 6, 0, 0, 0, 1, 3, 7]

/-- The decoder takes the message behind a length that is too small. -/
theorem decode_skips : ¬ Encoded zeroLength ∧ ∃ (p : Packet) (m : RosMessage), p.Holds zeroLength ∧
    decodeMessageFromPacket 5 p = .ok ([m], ok) ∧ m.netId = 1 ∧ m.type = .send ∧ m.data.Holds [7] := by
  refine ⟨fun henc => absurd henc.length (by decide), ?_⟩
  obtain ⟨p₀, -, h₀, hs₀⟩ := Packet.new_spare (show zeroLength.length ≤ packMaxRightCapacity by decide)
  obtain ⟨p, -, hp, -⟩ := h₀.write_spare zeroLength (r := 0) hs₀
  have hmessage : Carries (zeroLength.drop 4) 1 .send [7] := .message (by decide) (by decide) (by decide)
  obtain ⟨m, hm, hsame⟩ := decode_of_carries hp (.skip (by decide) (by decide) hmessage) 4
  exact ⟨p, m, hp, hm, hsame⟩

end RosMessage

end Wawo
