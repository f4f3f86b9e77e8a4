import Wawo.Bytes.Words

/-!
# Obfuscated bytes (`obfuscate.hpp`)

The bits of an integer are spread over a word, `pbcbc` to each byte of it: the lower five bits of that
byte hold them, side by side on a circle from a random place on, and the upper three bits tell the
place. Up to five bits have places of their own there, so `deobfuscate` finds each of them
(`deobfuscateT_obfuscateT`). The templates are over an unsigned type, which is its width.
-/

namespace Wawo

/-- The variables of `obfuscate`: the last entries of `b` and `bii`, and `rr`. -/
structure Obfuscating where
  b : Nat
  bii : Nat
  rr : Word

/-- Round `i` of the loop of `obfuscate<u8_t>`. -/
def obfuscateRound (val : Byte) (r : Word) (s : Obfuscating) (i : Nat) : Obfuscating :=
  let b := if i % 2 = 0 then ((r >>> (5 + (i / 2) <<< 3)) &&& 7).toNat % 5 else (s.b + 1) % 5
  let bii := if i % 2 = 0 then b else s.bii
  let bi : Byte := if val &&& (1 <<< UInt8.ofNat i) ≠ 0 then 1 <<< UInt8.ofNat b else 0
  let bi : Byte := bi ||| ((7 &&& UInt8.ofNat bii) <<< 5)
  { b := b, bii := bii, rr := s.rr ||| byteAtWord bi (i / 2) }

/-- `u8_obfuscate(val, r_u32)` -/
def u8Obfuscate (val : Byte) (r : Word) : Word := ((List.range 8).foldl (obfuscateRound val r) ⟨0, 0, 0⟩).rr

/-- The variables of `deobfuscate`: the last entry of `b`, and `r`. -/
structure Deobfuscating where
  b : Nat
  r : Byte

/-- Round `i` of the loop of `deobfuscate<u8_t>`. -/
def deobfuscateRound (val : Word) (s : Deobfuscating) (i : Nat) : Deobfuscating :=
  let b := if i % 2 = 0 then ((val >>> (5 + (i / 2) <<< 3)) &&& 7).toNat % 5 else (s.b + 1) % 5
  { b := b, r := s.r ||| (UInt8.ofNat ((val >>> (b + (i / 2) <<< 3)) &&& 1).toNat <<< UInt8.ofNat i) }

/-- `u8_deobfuscate(val)` -/
def u8Deobfuscate (val : Word) : Byte := ((List.range 8).foldl (deobfuscateRound val) ⟨0, 0⟩).r

/-- Round `i` of the loop of `obfuscate<UINT_X>` -/
def obfuscateRoundT {w : Nat} (val : BitVec w) (r : Word) (s : Obfuscating) (i : Nat) : Obfuscating :=
  let pbcbc := w / 4
  let b := if i % pbcbc = 0 then ((r >>> (5 + (i / pbcbc) <<< 3)) &&& 7).toNat % 5 else (s.b + 1) % 5
  let bii := if i % pbcbc = 0 then b else s.bii
  let bi : Byte := if val &&& (1#w <<< i) ≠ 0 then 1 <<< UInt8.ofNat b else 0
  let bi : Byte := bi ||| ((7 &&& UInt8.ofNat bii) <<< 5)
  { b := b, bii := bii, rr := s.rr ||| byteAtWord bi (i / pbcbc) }

/-- The variables of `obfuscate<UINT_X>` after `k` rounds -/
def obfuscatingT {w : Nat} (val : BitVec w) (r : Word) (k : Nat) : Obfuscating := (List.range k).foldl (obfuscateRoundT val r) ⟨0, 0, 0⟩

/-- `obfuscate<UINT_X>(val, r_u32)` -/
def obfuscateT {w : Nat} (val : BitVec w) (r : Word) : Word := (obfuscatingT val r w).rr

/-- The variables of `deobfuscate<UINT_X>` -/
structure DeobfuscatingT (w : Nat) where
  b : Nat
  r : BitVec w

/-- Round `i` of the loop of `deobfuscate<UINT_X>` -/
def deobfuscateRoundT {w : Nat} (val : Word) (s : DeobfuscatingT w) (i : Nat) : DeobfuscatingT w :=
  let pbcbc := w / 4
  let b := if i % pbcbc = 0 then ((val >>> (5 + (i / pbcbc) <<< 3)) &&& 7).toNat % 5 else (s.b + 1) % 5
  { b := b, r := s.r ||| (((val >>> (b + (i / pbcbc) <<< 3)) &&& 1) <<< i).setWidth w }

def deobfuscatingT (w : Nat) (val : Word) (k : Nat) : DeobfuscatingT w := (List.range k).foldl (deobfuscateRoundT val) ⟨0, 0⟩

/-- `deobfuscate<UINT_X>(val)` -/
def deobfuscateT (w : Nat) (val : Word) : BitVec w := (deobfuscatingT w val w).r

/-- `u16_obfuscate(val, r_u32)` -/
def u16Obfuscate (val : BitVec 16) (r : Word) : Word := obfuscateT val r

/-- `u16_deobfuscate(val)` -/
def u16Deobfuscate (val : Word) : BitVec 16 := deobfuscateT 16 val

/-! ### The places of the bits -/

/-- The place of the first bit in byte `j`, as drawn. -/
def place (r : Word) (j : Nat) : Nat := ((r >>> (5 + j <<< 3)) &&& 7).toNat % 5

/-- The place of bit `i` in its byte, with `p` bits to a byte. -/
def bitPlace (p : Nat) (r : Word) (i : Nat) : Nat := (place r (i / p) + i % p) % 5

theorem place_lt (r : Word) (j : Nat) : place r j < 5 := Nat.mod_lt _ (by decide)

theorem bitPlace_lt (p : Nat) (r : Word) (i : Nat) : bitPlace p r i < 5 := Nat.mod_lt _ (by decide)

variable {p w i k : Nat} {val : BitVec w} {r : Word}

/-- Up to five bits of a byte have different places. -/
theorem bitPlace_injective {i' : Nat} (hp : 0 < p) (hp5 : p ≤ 5) (hbyte : i / p = i' / p) (h : bitPlace p r i = bitPlace p r i') : i = i' := by
  have hi := Nat.mod_lt i hp
  have hi' := Nat.mod_lt i' hp
  rw [bitPlace, bitPlace, ← hbyte] at h
  have hmod : i % p = i' % p := by omega
  rw [← Nat.div_add_mod i p, ← Nat.div_add_mod i' p, hbyte, hmod]

/-- The bit before one that is not the first of its byte. -/
theorem pred_div_mod (hp : 0 < p) (hk : k % p ≠ 0) : (k - 1) / p = k / p ∧ (k - 1) % p = k % p - 1 := by
  have hlt := Nat.mod_lt k hp
  have hk' : k - 1 = p * (k / p) + (k % p - 1) := by
    have := Nat.div_add_mod k p
    omega
  have hlt' : k % p - 1 < p := by omega
  rw [hk', Nat.mul_add_div hp, Nat.mul_add_mod, Nat.div_eq_of_lt hlt', Nat.mod_eq_of_lt hlt', Nat.add_zero]
  exact ⟨rfl, rfl⟩

/-- What both loops compute: the place drawn, or the one after the last. -/
theorem nextPlace_eq (hp : 0 < p) {b drawn : Nat} (hb : 0 < k → b = bitPlace p r (k - 1)) (hdrawn : drawn = place r (k / p)) :
    (if k % p = 0 then drawn else (b + 1) % 5) = bitPlace p r k := by
  have hlt := place_lt r (k / p)
  by_cases hk : k % p = 0
  · rw [if_pos hk, bitPlace, hk, Nat.add_zero, Nat.mod_eq_of_lt hlt, hdrawn]
  · have hpos : 0 < k := by
      rcases Nat.eq_zero_or_pos k with rfl | h
      · exact absurd (Nat.zero_mod p) hk
      · exact h
    obtain ⟨hdiv, hmod⟩ := pred_div_mod hp hk
    rw [if_neg hk, hb hpos, bitPlace, bitPlace, hdiv, hmod]
    omega

/-! ### The two loops -/

theorem and_shiftLeft_ne_zero (hi : i < w) : val &&& (1#w <<< i) ≠ 0 ↔ val.getLsbD i = true := by
  rw [← BitVec.twoPow_eq, BitVec.and_twoPow]
  by_cases h : val.getLsbD i = true
  · rw [if_pos h]
    refine iff_of_true (fun hzero => ?_) h
    have hbit := congrArg (BitVec.getLsbD · i) hzero
    simp [hi] at hbit
  · rw [if_neg h]
    exact iff_of_false (fun hne => hne rfl) h

/-- What a round adds to a byte: a bit at its place, and the place drawn above. -/
def roundByte (x : Bool) (b bii : Nat) : Byte := (if x then 1 <<< UInt8.ofNat b else 0) ||| ((7 &&& UInt8.ofNat bii) <<< 5)

theorem roundByte_bits : ∀ x : Bool, ∀ b < 5, ∀ bii < 5,
    (∀ m < 5, (roundByte x b bii).toNat.testBit m = (x && decide (m = b))) ∧ (roundByte x b bii).toNat >>> 5 = bii := by
  decide

/-- After `k` rounds of `obfuscate`. -/
structure Obfuscated (p : Nat) (val : BitVec w) (r : Word) (k : Nat) (s : Obfuscating) : Prop where
  b_eq : 0 < k → s.b = bitPlace p r (k - 1)
  bii_eq : 0 < k → s.bii = place r ((k - 1) / p)
  bits : ∀ i < w, (byteOf s.rr (i / p)).toNat.testBit (bitPlace p r i) = (decide (i < k) && val.getLsbD i)
  drawn : ∀ j < 4, (byteOf s.rr j).toNat >>> 5 = if p * j < k then place r j else 0

namespace Obfuscated

variable {s : Obfuscating}

theorem start (p : Nat) (val : BitVec w) (r : Word) : Obfuscated p val r 0 ⟨0, 0, 0⟩ := by
  refine ⟨nofun, nofun, fun i _ => ?_, fun j _ => ?_⟩
  · rw [byteOf_zero]
    exact Nat.zero_testBit _
  · rw [byteOf_zero]
    rfl

theorem round (hp : 0 < p) (hp5 : p ≤ 5) (hw : w = 4 * p) (h : Obfuscated p val r k s) (hk : k < w) :
    Obfuscated p val r (k + 1) (obfuscateRoundT val r s k) := by
  have hpbcbc : w / 4 = p := by omega
  have hbyte : k / p < 4 := Nat.div_lt_of_lt_mul (by omega)
  have hb : (if k % p = 0 then ((r >>> (5 + (k / p) <<< 3)) &&& 7).toNat % 5 else (s.b + 1) % 5) = bitPlace p r k :=
    nextPlace_eq hp h.b_eq rfl
  have hbii : (if k % p = 0 then bitPlace p r k else s.bii) = place r (k / p) := by
    split_ifs with hmod
    · rw [bitPlace, hmod, Nat.add_zero, Nat.mod_eq_of_lt (place_lt r _)]
    · have hpos : 0 < k := Nat.pos_of_ne_zero fun h0 => hmod (by rw [h0, Nat.zero_mod])
      rw [h.bii_eq hpos, (pred_div_mod hp hmod).1]
  have hround : obfuscateRoundT val r s k =
      ⟨bitPlace p r k, place r (k / p), s.rr ||| byteAtWord (roundByte (val.getLsbD k) (bitPlace p r k) (place r (k / p))) (k / p)⟩ := by
    unfold obfuscateRoundT
    simp only [hpbcbc, hb, hbii, and_shiftLeft_ne_zero hk]
    rfl
  obtain ⟨hbits, hdrawn⟩ := roundByte_bits (val.getLsbD k) _ (bitPlace_lt p r k) _ (place_lt r (k / p))
  rw [hround]
  refine ⟨fun _ => rfl, fun _ => rfl, fun i hi => ?_, fun j hj => ?_⟩
  · rw [byteOf_or hbyte]
    by_cases hik : i = k
    · subst hik
      rw [if_pos rfl, UInt8.toNat_or, Nat.testBit_or, h.bits i hi, hbits _ (bitPlace_lt p r i)]
      simp
    · have hlt : decide (i < k + 1) = decide (i < k) := by
        rw [decide_eq_decide]
        omega
      rw [hlt, ← h.bits i hi]
      by_cases hsame : k / p = i / p
      · -- the bit set is another one of this byte
        have hne : bitPlace p r i ≠ bitPlace p r k := fun heq => hik (bitPlace_injective hp hp5 hsame.symm heq)
        rw [if_pos hsame, UInt8.toNat_or, Nat.testBit_or, hbits _ (bitPlace_lt p r i), decide_eq_false hne, Bool.and_false, Bool.or_false]
      · rw [if_neg hsame]
  · have hdiv := Nat.div_add_mod k p
    have hmod := Nat.mod_lt k hp
    rw [byteOf_or hbyte]
    by_cases hsame : k / p = j
    · subst hsame
      rw [if_pos rfl, if_pos (by omega), UInt8.toNat_or, Nat.shiftRight_or_distrib, h.drawn _ hj, hdrawn]
      split_ifs
      · exact Nat.or_self _
      · exact Nat.zero_or _
    · -- the first bit of byte `j` is another one
      have hne : p * j ≠ k := fun heq => hsame (by rw [← heq, Nat.mul_div_cancel_left j hp])
      have hlt : p * j < k + 1 ↔ p * j < k := by omega
      rw [if_neg hsame, h.drawn j hj]
      simp only [hlt]

/-- When the loop of `obfuscate` has ended. -/
theorem run (hp : 0 < p) (hp5 : p ≤ 5) (hw : w = 4 * p) (val : BitVec w) (r : Word) (hk : k ≤ w) : Obfuscated p val r k (obfuscatingT val r k) := by
  induction k with
  | zero => exact start p val r
  | succ k ih =>
    rw [obfuscatingT, List.range_succ, List.foldl_append, List.foldl_cons, List.foldl_nil]
    exact (ih (by omega)).round hp hp5 hw (by omega)

end Obfuscated

/-- A bit of a byte of a word is a bit of the word. -/
theorem testBit_byteOf (v : Word) (j : Nat) {m : Nat} (hm : m < 8) : (byteOf v j).toNat.testBit m = v.getLsbD (j <<< 3 + m) := by
  show ((v >>> (j <<< 3)).setWidth 8).getLsbD m = _
  rw [BitVec.getLsbD_setWidth, BitVec.getLsbD_ushiftRight, decide_eq_true hm, Bool.true_and]

/-- The upper three bits of a byte of a word. -/
theorem and_seven_byteOf (v : Word) (j : Nat) : ((v >>> (5 + j <<< 3)) &&& 7).toNat = (byteOf v j).toNat >>> 5 := by
  have hbyte : (byteOf v j).toNat = v.toNat / 2 ^ (j <<< 3) % 256 := by
    show ((v >>> (j <<< 3)).setWidth 8).toNat = _
    rw [BitVec.toNat_setWidth, BitVec.toNat_ushiftRight, Nat.shiftRight_eq_div_pow]
  have hand : ((v >>> (5 + j <<< 3)) &&& 7).toNat = v.toNat / 2 ^ (j <<< 3) / 2 ^ 5 % 8 := by
    rw [BitVec.toNat_and, BitVec.toNat_ushiftRight, Nat.shiftRight_eq_div_pow, Nat.add_comm, Nat.pow_add, ← Nat.div_div_eq_div_mul]
    exact Nat.and_two_pow_sub_one_eq_mod _ 3
  rw [hand, hbyte, Nat.shiftRight_eq_div_pow]
  omega

/-- The bit that a round of `deobfuscate` adds. -/
theorem getLsbD_roundBit (v : Word) (m k : Nat) {i : Nat} (hi : i < w) (hw : w ≤ 32) :
    ((((v >>> m) &&& 1) <<< k).setWidth w).getLsbD i = (decide (i = k) && v.getLsbD m) := by
  have hi' : i < 32 := by omega
  rw [BitVec.getLsbD_setWidth, BitVec.getLsbD_shiftLeft, BitVec.getLsbD_and, BitVec.getLsbD_ushiftRight]
  by_cases hik : i = k
  · subst hik
    simp [hi, hi']
  · by_cases hlt : i < k
    · simp [hlt, hik]
    · have hne : i - k ≠ 0 := by omega
      simp [hik, BitVec.getLsbD_one, hne]

/-- After `k` rounds of `deobfuscate`, what it has read of `val`. -/
structure Deobfuscated (p : Nat) (val : BitVec w) (r : Word) (k : Nat) (s : DeobfuscatingT w) : Prop where
  b_eq : 0 < k → s.b = bitPlace p r (k - 1)
  bits : ∀ i < w, s.r.getLsbD i = (decide (i < k) && val.getLsbD i)

namespace Deobfuscated

variable {s : DeobfuscatingT w}

theorem start (p : Nat) (val : BitVec w) (r : Word) : Deobfuscated p val r 0 ⟨0, 0⟩ := by
  refine ⟨nofun, fun i _ => ?_⟩
  simp

theorem round (hp : 0 < p) (hp5 : p ≤ 5) (hw : w = 4 * p) (h : Deobfuscated p val r k s) (hk : k < w) :
    Deobfuscated p val r (k + 1) (deobfuscateRoundT (obfuscateT val r) s k) := by
  have hpbcbc : w / 4 = p := by omega
  have hbyte : k / p < 4 := Nat.div_lt_of_lt_mul (by omega)
  have henc := Obfuscated.run hp hp5 hw val r (Nat.le_refl w)
  have hfirst : p * (k / p) < w := by
    have := Nat.div_add_mod k p
    omega
  have hdrawn : ((obfuscateT val r >>> (5 + (k / p) <<< 3)) &&& 7).toNat % 5 = place r (k / p) := by
    rw [and_seven_byteOf, obfuscateT, henc.drawn _ hbyte, if_pos hfirst, Nat.mod_eq_of_lt (place_lt r _)]
  have hbit : (obfuscateT val r).getLsbD (bitPlace p r k + (k / p) <<< 3) = val.getLsbD k := by
    have hlt := bitPlace_lt p r k
    rw [Nat.add_comm, ← testBit_byteOf _ _ (by omega), obfuscateT, henc.bits k hk, decide_eq_true hk, Bool.true_and]
  have hb := nextPlace_eq hp h.b_eq hdrawn
  unfold deobfuscateRoundT
  simp only [hpbcbc, hb]
  refine ⟨fun _ => rfl, fun i hi => ?_⟩
  rw [BitVec.getLsbD_or, h.bits i hi, getLsbD_roundBit _ _ _ hi (by omega), hbit]
  by_cases hik : i = k
  · subst hik
    simp
  · have hlt : decide (i < k + 1) = decide (i < k) := by
      rw [decide_eq_decide]
      omega
    rw [hlt, decide_eq_false hik, Bool.false_and, Bool.or_false]

theorem run (hp : 0 < p) (hp5 : p ≤ 5) (hw : w = 4 * p) (val : BitVec w) (r : Word) (hk : k ≤ w) :
    Deobfuscated p val r k (deobfuscatingT w (obfuscateT val r) k) := by
  induction k with
  | zero => exact start p val r
  | succ k ih =>
    rw [deobfuscatingT, List.range_succ, List.foldl_append, List.foldl_cons, List.foldl_nil]
    exact (ih (by omega)).round hp hp5 hw (by omega)

end Deobfuscated

/-- With up to five bits to a byte, whatever places are drawn, the integer is got back. -/
theorem deobfuscateT_obfuscateT (hp : 0 < p) (hp5 : p ≤ 5) (hw : w = 4 * p) (val : BitVec w) (r : Word) :
    deobfuscateT w (obfuscateT val r) = val := by
  refine BitVec.eq_of_getLsbD_eq fun i hi => ?_
  rw [deobfuscateT, (Deobfuscated.run hp hp5 hw val r (Nat.le_refl w)).bits i hi, decide_eq_true hi, Bool.true_and]

/-! ### Bytes -/

theorem obfuscateRound_eq (val : Byte) (r : Word) (s : Obfuscating) (hi : i < 8) :
    obfuscateRound val r s i = obfuscateRoundT val.toBitVec r s i := by
  have hbit : val &&& (1 <<< UInt8.ofNat i) ≠ 0 ↔ val.toBitVec &&& (1#8 <<< i) ≠ 0 := by
    rw [← UInt8.toBitVec_inj.ne]
    rcases (by omega : i = 0 ∨ i = 1 ∨ i = 2 ∨ i = 3 ∨ i = 4 ∨ i = 5 ∨ i = 6 ∨ i = 7) with rfl | rfl | rfl | rfl | rfl | rfl | rfl | rfl <;> rfl
  unfold obfuscateRound obfuscateRoundT
  simp only [hbit]

theorem u8Obfuscate_eq (val : Byte) (r : Word) : u8Obfuscate val r = obfuscateT val.toBitVec r := by
  rw [u8Obfuscate, obfuscateT, obfuscatingT, List.foldl_ext _ _ _ fun s i hi => obfuscateRound_eq val r s (List.mem_range.mp hi)]

theorem deobfuscateRound_eq (val : Word) (s : Deobfuscating) (hi : i < 8) :
    (⟨(deobfuscateRound val s i).b, (deobfuscateRound val s i).r.toBitVec⟩ : DeobfuscatingT 8) =
      deobfuscateRoundT val ⟨s.b, s.r.toBitVec⟩ i := by
  have hshift : ∀ v : Word, (UInt8.ofNat (v &&& 1).toNat <<< UInt8.ofNat i).toBitVec = ((v &&& 1) <<< i).setWidth 8 := by
    intro v
    have hone : v &&& 1 = 0 ∨ v &&& 1 = 1 := by
      have hmod : (v &&& 1).toNat = v.toNat % 2 := (BitVec.toNat_and v 1).trans (Nat.and_one_is_mod _)
      rcases Nat.mod_two_eq_zero_or_one v.toNat with h | h
      · exact .inl (BitVec.eq_of_toNat_eq (hmod.trans h))
      · exact .inr (BitVec.eq_of_toNat_eq (hmod.trans h))
    rcases hone with h | h <;> rw [h] <;>
      rcases (by omega : i = 0 ∨ i = 1 ∨ i = 2 ∨ i = 3 ∨ i = 4 ∨ i = 5 ∨ i = 6 ∨ i = 7) with rfl | rfl | rfl | rfl | rfl | rfl | rfl | rfl <;> rfl
  unfold deobfuscateRound deobfuscateRoundT
  simp only [UInt8.toBitVec_or, hshift]

theorem u8Deobfuscate_eq (val : Word) : u8Deobfuscate val = ⟨deobfuscateT 8 val⟩ := by
  have hloop : ∀ k ≤ 8, (⟨((List.range k).foldl (deobfuscateRound val) ⟨0, 0⟩).b, ((List.range k).foldl (deobfuscateRound val) ⟨0, 0⟩).r.toBitVec⟩ :
      DeobfuscatingT 8) = deobfuscatingT 8 val k := by
    intro k
    induction k with
    | zero => exact fun _ => rfl
    | succ k ih =>
      intro hk
      rw [deobfuscatingT, List.range_succ, List.foldl_append, List.foldl_cons, List.foldl_nil, List.foldl_append, List.foldl_cons,
        List.foldl_nil, deobfuscateRound_eq val _ (by omega), ih (by omega), deobfuscatingT]
  rw [deobfuscateT, ← hloop 8 (Nat.le_refl 8)]
  rfl

/-- Whatever place is drawn, the byte is got back. -/
theorem deobfuscate_obfuscate (val : Byte) (r : Word) : u8Deobfuscate (u8Obfuscate val r) = val := by
  rw [u8Deobfuscate_eq, u8Obfuscate_eq, deobfuscateT_obfuscateT (p := 2) (by decide) (by decide) rfl]

/-! ### The round trip -/

/-- The bits of a byte of the word are at different places, and below the three bits that tell the place. -/
def Apart (val : BitVec w) (r : Word) : Prop :=
  ∀ i < w, (obfuscatingT val r (i + 1)).b < 5 ∧
    ∀ i' < w, i / (w / 4) = i' / (w / 4) → (obfuscatingT val r (i + 1)).b = (obfuscatingT val r (i' + 1)).b → i = i'

theorem apart (hp : 0 < p) (hp5 : p ≤ 5) (hw : w = 4 * p) (val : BitVec w) (r : Word) : Apart val r := by
  have hpbcbc : w / 4 = p := by omega
  have hb : ∀ i < w, (obfuscatingT val r (i + 1)).b = bitPlace p r i := fun i hi =>
    (Obfuscated.run hp hp5 hw val r hi).b_eq (Nat.succ_pos i)
  intro i hi
  rw [hb i hi]
  refine ⟨bitPlace_lt p r i, fun i' hi' hbyte heq => ?_⟩
  rw [hb i' hi'] at heq
  rw [hpbcbc] at hbyte
  exact bitPlace_injective hp hp5 hbyte heq

/-- For every value of 16 bits, every value of 8 bits and every random word. -/
theorem obfuscate_roundTrip (r : Word) :
    (∀ val : BitVec 16, u16Deobfuscate (u16Obfuscate val r) = val ∧ Apart val r) ∧
      ∀ val : Byte, u8Deobfuscate (u8Obfuscate val r) = val ∧ Apart val.toBitVec r :=
  ⟨fun val => ⟨deobfuscateT_obfuscateT (p := 4) (by decide) (by decide) rfl val r, apart (p := 4) (by decide) (by decide) rfl val r⟩,
    fun val => ⟨deobfuscate_obfuscate val r, apart (p := 2) (by decide) (by decide) rfl val.toBitVec r⟩⟩

end Wawo
