import Wawo.Bytes.Packet

/-!
# Room on the left

`write_left` grows the left side until its bytes fit. A growth moves the contents, and `m_read_idx` with them; a
packet without contents grows, but its `m_read_idx` stays, and so does the room. Then the loop goes on until
`m_left_capacity` would exceed its maximum, and throws.
-/

namespace Wawo

open Lts

namespace Packet

variable {p : Packet} {c : List Byte} {n : Nat}

/-- Some growths of the left side would make room for `n` bytes without exceeding `PACK_MAX_LEFT_CAPACITY`. -/
def LeftRoom (p : Packet) (n : Nat) : Prop :=
  ∃ k, n ≤ p.mReadIdx + k * packIncrementLeftSize ∧ p.mLeftCapacity + k * packIncrementLeftSize ≤ packMaxLeftCapacity

/-- Both overloads of `write_left` return, with their `n` bytes before the contents. -/
structure WritesLeft (p : Packet) (n : Nat) : Prop where
  buffer : ∀ buffer, n ≤ buffer.length → ∃ p', p.writeLeft buffer n = .ok p' ∧ p'.bytes = buffer.take n ++ p.bytes
  value : ∀ t, ∃ p', p.writeLeftT n t = .ok p' ∧ p'.bytes = writeImpl n t ++ p.bytes

namespace Holds

/-- With contents a growth makes room, and is one of those that remain. -/
theorem extendLeft_room (h : p.Holds c) (hc : c ≠ []) (hroom : p.LeftRoom n) (hlt : p.mReadIdx < n) :
    ∃ p', p.extendLeftbufferCapacity = .ok p' ∧ p'.Holds c ∧ p'.LeftRoom n ∧ p'.mLeftCapacity = p.mLeftCapacity + packIncrementLeftSize := by
  have hinc : packIncrementLeftSize = 8064 := rfl
  obtain ⟨k, hfits, hleft⟩ := hroom
  rw [hinc] at hfits hleft
  have hk : k ≠ 0 := by
    intro hk
    rw [hk, Nat.zero_mul] at hfits
    omega
  obtain ⟨p', hp', h', hleft', -, hread⟩ := h.extendLeft_eq (by rw [hinc]; omega)
  rw [if_neg hc] at hread
  refine ⟨p', hp', h', ⟨k - 1, ?_, ?_⟩, hleft'⟩
  · rw [hread, hinc]
    omega
  · rw [hleft', hinc]
    omega

theorem growLeft_ok (h : p.Holds c) (hc : c ≠ []) (hroom : p.LeftRoom n) :
    ∃ p', p.growLeft n = .ok p' ∧ p'.Holds c ∧ n ≤ p'.mReadIdx := by
  have hinc : packIncrementLeftSize = 8064 := rfl
  have hmax : packMaxLeftCapacity = 16777216 := rfl
  have hloop : Ensures (fun p' => (p'.Holds c ∧ p'.LeftRoom n) ∧ decide (n > p'.leftLeftCapacity) = false) (fun _ => False) (p.growLeft n) := by
    unfold growLeft
    refine loopWhile_ensures (I := fun p : Packet => p.Holds c ∧ p.LeftRoom n)
      (fun p : Packet => (packMaxLeftCapacity - p.mLeftCapacity) / packIncrementLeftSize) ?_ ⟨h, hroom⟩ ?_
    · rintro p ⟨h, hroom⟩ hmore
      have hnext := h.extendLeft_room hc hroom (of_decide_eq_true hmore)
      generalize p.extendLeftbufferCapacity = grown at hnext ⊢
      obtain ⟨p', rfl, h', hroom', hleft'⟩ := hnext
      refine ⟨⟨h', hroom'⟩, ?_⟩
      have hle := h'.left_le
      rw [hleft', hmax, hinc] at *
      omega
    · rw [hmax, hinc]
      omega
  obtain ⟨p', hp', ⟨h', -⟩, hdone⟩ := hloop.exists_ok
  exact ⟨p', hp', h', Nat.le_of_not_lt (of_decide_eq_false hdone)⟩

/-- Without contents no growth makes room. -/
theorem growLeft_empty (h : p.Holds []) (hlt : p.mReadIdx < n) (p' : Packet) : p.growLeft n ≠ .ok p' := by
  intro hp'
  have hroom := ((h.growLeft_ensures n).of_eq_ok hp').2
  have hkept := loopWhile_inv (fun p' => p'.Holds [] ∧ p'.mReadIdx = p.mReadIdx) ?_ hp' ⟨h, rfl⟩
  · have := hkept.2
    omega
  · rintro p₁ p₂ ⟨h₁, hread₁⟩ hp₂
    obtain ⟨h₂, -, -, hread₂⟩ := h₁.extendLeft hp₂
    rw [if_pos rfl] at hread₂
    exact ⟨h₂, hread₂.trans hread₁⟩

/-- Once there is room both overloads return. -/
theorem writesLeft_of_grown {p' : Packet} (h : p.Holds c) (hgrow : p.growLeft n = .ok p') : WritesLeft p n := by
  obtain ⟨h', hroom⟩ := (h.growLeft_ensures n).of_eq_ok hgrow
  have h₁ := h'.write_le
  have h₂ := h'.length_buffer
  have h₃ := h'.capacity_le
  have h₄ := h'.write_eq
  have hsub : subU32 p'.mReadIdx n = p'.mReadIdx - n := by
    unfold subU32
    omega
  constructor
  · intro buffer hn
    have hlen : (Memory.slice buffer 0 n).length = n := Memory.length_slice_of_le (by omega)
    have hwrite : p.writeLeft buffer n = .ok { p' with
        mReadIdx := p'.mReadIdx - n, mBuffer := Memory.poke p'.mBuffer (p'.mReadIdx - n) (Memory.slice buffer 0 n) } := by
      unfold Packet.writeLeft
      rw [hgrow, ok_bind]
      dsimp only
      rw [hsub, load_eq (by omega), ok_bind, store_eq (by omega), ok_bind, pure_eq_ok]
    exact ⟨_, hwrite, by rw [(h.writeLeft hwrite).bytes_eq, h.bytes_eq]⟩
  · intro t
    have hlen := length_writeImpl n t
    have hwrite : p.writeLeftT n t = .ok { p' with
        mReadIdx := p'.mReadIdx - n, mBuffer := Memory.poke p'.mBuffer (p'.mReadIdx - n) (writeImpl n t) } := by
      unfold Packet.writeLeftT
      rw [hgrow, ok_bind]
      dsimp only
      rw [hsub, store_eq (by omega), ok_bind, require_eq hlen, ok_bind, pure_eq_ok]
    exact ⟨_, hwrite, by rw [(h.writeLeftT hwrite).bytes_eq, h.bytes_eq]⟩

end Holds

/-- A packet that cannot grow room does not return. -/
theorem not_writesLeft (h : ∀ p', p.growLeft n ≠ .ok p') : ¬ ∃ buffer p', p.writeLeft buffer n = .ok p' := by
  rintro ⟨buffer, p', hp'⟩
  unfold writeLeft at hp'
  obtain ⟨p₁, hp₁, -⟩ := bind_eq_ok.mp hp'
  exact h p₁ hp₁

/-- Where growing could make room for `n` bytes, `write_left` prepends them if and only if the packet has contents
to move or has the room already. -/
theorem write_left_grows (hp : p.Made) (hroom : p.LeftRoom n) : WritesLeft p n ↔ p.bytes ≠ [] ∨ n ≤ p.mReadIdx := by
  have h := hp.holds
  constructor
  · intro hwrites
    by_contra hnot
    obtain ⟨hempty, hlt⟩ := not_or.mp hnot
    rw [not_not.mp hempty] at h
    obtain ⟨p', hp', -⟩ := hwrites.buffer (List.replicate n 0) (by rw [List.length_replicate])
    exact not_writesLeft (h.growLeft_empty (Nat.lt_of_not_le hlt)) ⟨_, p', hp'⟩
  · rintro (hne | hle)
    · obtain ⟨p', hp', -⟩ := h.growLeft_ok hne hroom
      exact h.writesLeft_of_grown hp'
    · exact h.writesLeft_of_grown (growLeft_of_le hle)

/-- A packet of one byte, and more bytes than there is room for -/
theorem write_left_grows_one : ∃ p, p.Made ∧ p.LeftRoom 200 ∧ (WritesLeft p 200 ↔ p.bytes ≠ [] ∨ 200 ≤ p.mReadIdx) := by
  have hok : (match Packet.new 0 0 >>= outputs PacketCall.run [.write [1] 1] with
      | .ok (_, p) => decide (p.mReadIdx = 128 ∧ p.mLeftCapacity = 128)
      | .error _ => false) = true := by decide +kernel
  split at hok
  case h_2 => cases hok
  case h_1 os p hrun =>
    obtain ⟨hread, hleft⟩ := of_decide_eq_true hok
    obtain ⟨p₀, hnew, hout⟩ := bind_eq_ok.mp hrun
    have hmade : p.Made := ⟨0, 0, p₀, _, os, hnew, hout⟩
    have hroom : p.LeftRoom 200 := ⟨1, by rw [hread]; decide, by rw [hleft]; decide⟩
    exact ⟨p, hmade, hroom, write_left_grows hmade hroom⟩

/-- A new packet has room for 128 bytes; `write_left` of one more throws, though a single growth would do. -/
theorem write_left_throws :
    ∃ p, Packet.new 0 0 = .ok p ∧ p.Made ∧ p.LeftRoom 129 ∧ ¬ WritesLeft p 129 ∧ ¬ ∃ buffer p', p.writeLeft buffer 129 = .ok p' := by
  obtain ⟨p, hnew⟩ : ∃ p, Packet.new 0 0 = .ok p := ⟨_, new_eq_ok.mpr ⟨by decide, by decide, rfl⟩⟩
  obtain ⟨-, -, heq⟩ := new_eq_ok.mp hnew
  have h : p.Holds [] := new_holds hnew
  have hread : p.mReadIdx = 128 := by rw [heq]; rfl
  have hleft : p.mLeftCapacity = 128 := by rw [heq]; rfl
  have hgrow (p' : Packet) : p.growLeft 129 ≠ .ok p' := h.growLeft_empty (by rw [hread]; decide) p'
  refine ⟨p, hnew, ⟨0, 0, p, [], [], hnew, rfl⟩, ⟨1, by rw [hread]; decide, by rw [hleft]; decide⟩, fun hwrites => ?_, not_writesLeft hgrow⟩
  obtain ⟨p', hp', -⟩ := hwrites.buffer (List.replicate 129 0) (by rw [List.length_replicate])
  exact not_writesLeft hgrow ⟨_, p', hp'⟩

end Packet

end Wawo
