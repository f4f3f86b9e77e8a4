import Wawo.Bytes.Packet

/-!
# Room on the right

A packet of the default constructor that is only written to grows on the right, by the same number of bytes each
time. It takes `packetRoom` bytes; the write that would exceed them throws.
-/

namespace Wawo

open Lts

/-- The bytes that fit behind each other in a packet with the default capacities -/
def packetRoom : Nat :=
  packInitRightCapacity + (packMaxRightCapacity - packInitRightCapacity) / packIncrementRightSize * packIncrementRightSize

/-- `n` bytes fit a packet and `r` returns what `Q` says, or they do not and it throws. -/
def IfFits {σ : Type} (n : Nat) (Q : σ → Prop) (r : Except ByteFault σ) : Prop :=
  (n ≤ packetRoom ∧ ∃ a, r = .ok a ∧ Q a) ∨ (packetRoom < n ∧ ∃ f, r = .error f)

namespace IfFits

variable {σ τ : Type} {n m : Nat} {P : σ → Prop} {Q : τ → Prop} {r : Except ByteFault σ} {k : σ → Except ByteFault τ}

/-- Of a call and what follows it, which is to fit with more bytes. -/
theorem bind (h : IfFits n P r) (hle : n ≤ m) (hk : ∀ a, P a → IfFits m Q (k a)) : IfFits m Q (r >>= k) := by
  rcases h with ⟨-, a, rfl, ha⟩ | ⟨hlong, f, rfl⟩
  · exact hk a ha
  · exact .inr ⟨hlong.trans_le hle, f, rfl⟩

theorem ok {a : σ} (hn : n ≤ packetRoom) (ha : P a) : IfFits n P (.ok a) := .inl ⟨hn, a, rfl, ha⟩

theorem exists_ok (h : IfFits n P r) (hn : n ≤ packetRoom) : ∃ a, r = .ok a ∧ P a := h.elim And.right fun hlong => absurd hn hlong.1.not_ge

theorem of_eq_ok {a : σ} (h : IfFits n P r) (hr : r = .ok a) : n ≤ packetRoom ∧ P a := by
  rcases h with ⟨hn, b, hb, hp⟩ | ⟨-, f, hf⟩
  · rw [hr] at hb
    cases hb
    exact ⟨hn, hp⟩
  · rw [hr] at hf
    cases hf

end IfFits

namespace Packet

/-- The contents have been written to a new packet. -/
structure Grown (p : Packet) (c : List Byte) : Prop where
  holds : p.Holds c
  left : p.mLeftCapacity = packInitLeftCapacity
  read : p.mReadIdx = packInitLeftCapacity
  right : ∃ k, p.mRightCapacity = packInitRightCapacity + k * packIncrementRightSize

variable {p p' : Packet} {c b : List Byte} {n : Nat}

theorem new_grown : ∃ p, new packInitRightCapacity packInitLeftCapacity = .ok p ∧ p.Grown [] := by
  obtain ⟨p, hp, hheld, -⟩ := new_spare (show packInitRightCapacity ≤ packMaxRightCapacity by decide)
  obtain ⟨-, -, heq⟩ := new_eq_ok.mp hp
  exact ⟨p, hp, hheld, by rw [heq]; rfl, by rw [heq]; rfl, 0, by rw [heq]; rfl⟩

namespace Grown

theorem right_le (h : p.Grown c) : p.mRightCapacity ≤ packetRoom := by
  have hinit : packInitRightCapacity = 3840 := rfl
  have hinc : packIncrementRightSize = 8064 := rfl
  have hmax : packMaxRightCapacity = 16777216 := rfl
  have hroom : packetRoom = 3840 + 2080 * 8064 := by decide
  obtain ⟨k, hk⟩ := h.right
  have hle := h.holds.right_le
  rw [hk, hinit, hinc] at hle ⊢
  rw [hmax] at hle
  rw [hroom]
  omega

theorem length_le (h : p.Grown c) : c.length ≤ p.mRightCapacity := by
  have hwrite := h.holds.write_eq
  have hle := h.holds.write_le
  rw [h.left] at hle
  rw [h.read] at hwrite
  omega

theorem leftRightCapacity_eq (h : p.Grown c) : p.leftRightCapacity = p.mRightCapacity - c.length := by
  rw [h.holds.leftRightCapacity_eq, h.holds.write_eq, h.left, h.read]
  omega

theorem extendRight (h : p.Grown c) (hp : p.extendRightbufferCapacity = .ok p') : p'.Grown c := by
  obtain ⟨hheld, hright, hleft⟩ := h.holds.extendRight hp
  obtain ⟨k, hk⟩ := h.right
  have hread : p'.mReadIdx = p.mReadIdx := by
    unfold extendRightbufferCapacity at hp
    obtain ⟨_, -, hp⟩ := bind_eq_ok.mp hp
    obtain ⟨_, -, hp⟩ := bind_eq_ok.mp hp
    rw [← Except.ok.inj hp]
  exact ⟨hheld, hleft.trans h.left, hread.trans h.read, k + 1, by rw [hright, hk, Nat.add_mul, Nat.one_mul, Nat.add_assoc]⟩

theorem extendRight_ok (h : p.Grown c) (hlt : p.mRightCapacity < packetRoom) :
    ∃ p', p.extendRightbufferCapacity = .ok p' ∧ p'.Grown c ∧ p'.mRightCapacity = p.mRightCapacity + packIncrementRightSize := by
  have hinit : packInitRightCapacity = 3840 := rfl
  have hinc : packIncrementRightSize = 8064 := rfl
  have hmax : packMaxRightCapacity = 16777216 := rfl
  have hroom : packetRoom = 3840 + 2080 * 8064 := by decide
  obtain ⟨k, hk⟩ := h.right
  have hfits : p.mRightCapacity + packIncrementRightSize ≤ packMaxRightCapacity := by
    rw [hk, hinit, hinc, hroom] at hlt
    rw [hk, hinit, hinc, hmax]
    omega
  have hne : p.mRightCapacity ≠ 0 := by
    rw [hk, hinit]
    omega
  obtain ⟨p', hp'⟩ : ∃ p', p.extendRightbufferCapacity = .ok p' := by
    unfold extendRightbufferCapacity
    rw [require_eq hne, ok_bind, u32_of_lt (by rw [hmax] at hfits; omega), require_eq hfits, ok_bind]
    exact ⟨_, rfl⟩
  exact ⟨p', hp', h.extendRight hp', (h.holds.extendRight hp').2.1⟩

theorem growRight_ok (h : p.Grown c) (hn : c.length + n ≤ packetRoom) : ∃ p', p.growRight n = .ok p' := by
  have hinc : packIncrementRightSize = 8064 := rfl
  have hmax : packMaxRightCapacity = 16777216 := rfl
  have hloop : Ensures (fun p' => p'.Grown c ∧ decide (n > p'.leftRightCapacity) = false) (fun _ => False) (p.growRight n) := by
    unfold growRight
    refine loopWhile_ensures (I := fun p : Packet => p.Grown c)
      (fun p : Packet => (packMaxRightCapacity - p.mRightCapacity) / packIncrementRightSize) ?_ h ?_
    · intro p h hmore
      have hlt : p.mRightCapacity < packetRoom := by
        have hmore := of_decide_eq_true hmore
        have hlen := h.length_le
        rw [h.leftRightCapacity_eq] at hmore
        omega
      have hnext := h.extendRight_ok hlt
      generalize p.extendRightbufferCapacity = grown at hnext ⊢
      obtain ⟨p', rfl, h', hright⟩ := hnext
      refine ⟨h', ?_⟩
      have hle := h'.holds.right_le
      rw [hright, hmax, hinc] at *
      omega
    · rw [hmax, hinc]
      omega
  obtain ⟨p', hp', -⟩ := hloop.exists_ok
  exact ⟨p', hp'⟩

theorem growRight (h : p.Grown c) (hp : p.growRight n = .ok p') : p'.Grown c ∧ c.length + n ≤ p'.mRightCapacity := by
  have hkept : p'.Grown c := loopWhile_inv (fun p => p.Grown c) (fun p p' h hp => h.extendRight hp) hp h
  have hroom := ((h.holds.growRight_ensures n).of_eq_ok hp).2
  have hlen := hkept.length_le
  rw [hkept.holds.write_eq, hkept.left, hkept.read] at hroom
  exact ⟨hkept, by omega⟩

theorem write (h : p.Grown c) (hp : p.write b b.length = .ok p') : p'.Grown (c ++ b) := by
  have hheld := h.holds.write hp
  rw [List.take_length] at hheld
  unfold Packet.write at hp
  obtain ⟨p₁, hgrow, hp⟩ := bind_eq_ok.mp hp
  obtain ⟨h₁, -⟩ := h.growRight hgrow
  obtain ⟨_, -, hp⟩ := bind_eq_ok.mp hp
  obtain ⟨_, -, hp⟩ := bind_eq_ok.mp hp
  cases hp
  exact ⟨hheld, h₁.left, h₁.read, h₁.right⟩

/-- A write returns if and only if its bytes still fit. -/
theorem write_ifFits (h : p.Grown c) (b : List Byte) : IfFits (c ++ b).length (fun p' => p'.Grown (c ++ b)) (p.write b b.length) := by
  unfold IfFits
  by_cases hfits : (c ++ b).length ≤ packetRoom
  · refine .inl ⟨hfits, ?_⟩
    rw [List.length_append] at hfits
    obtain ⟨p₁, hgrow⟩ := h.growRight_ok hfits
    obtain ⟨h₁, hroom⟩ := h.growRight hgrow
    have hlen := h₁.holds.length_buffer
    have hwrite := h₁.holds.write_eq
    rw [h₁.left] at hlen
    rw [h₁.read] at hwrite
    obtain ⟨p', hp'⟩ : ∃ p', p.write b b.length = .ok p' := by
      unfold Packet.write
      rw [hgrow, ok_bind, load_eq (by omega), ok_bind, Memory.slice_self, store_eq (by omega), ok_bind]
      exact ⟨_, rfl⟩
    exact ⟨p', hp', h.write hp'⟩
  · refine .inr ⟨Nat.lt_of_not_le hfits, ?_⟩
    cases hp : p.write b b.length with
    | error f => exact ⟨f, rfl⟩
    | ok p' =>
      have h' := h.write hp
      exact absurd (h'.length_le.trans h'.right_le) hfits

end Grown
end Packet

end Wawo
