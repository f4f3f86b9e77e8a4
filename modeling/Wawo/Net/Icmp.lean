import Wawo.Bytes.Basic
import Wawo.Lib.OnesComplement
import Wawo.Lib.Tracked

/-!
# The checksum of a ping (`icmp.hpp`)

`_calculate_checksum` adds up big-endian words of 16 bits in 32 bits and folds the carries in at the
end. The internet checksum is the complement of the one's complement sum of the words, where an odd last
byte is the upper half of a word; `_calculate_checksum` adds it as the lower half.
-/

namespace Wawo

open Memory Lts Tracked

namespace Icmp

/-- The loop of `_calculate_checksum`, from `_length` and `checksum` on. -/
def calculateChecksumLoop (data : List Byte) (length : Nat) : Nat → Tracked Nat → Except ByteFault (Nat × Tracked Nat)
  | left + 2, checksum => do
    let bs ← load data (length - (left + 2)) 2
    calculateChecksumLoop data length left (checksum >>= (add 32 · (readImpl 2 bs)))
  | left, checksum => return (left, checksum)

/-- `_calculate_checksum(data, length)` -/
def calculateChecksum (data : List Byte) (length : Nat) : Except ByteFault (Tracked Nat) := do
  let (left, checksum) ← calculateChecksumLoop data length length (pure 0)
  let checksum ← (if left ≠ 0 then do
      let bs ← load data (length - left) 1
      return checksum >>= (add 32 · (readImpl 1 bs))
    else return checksum : Except ByteFault (Tracked Nat))
  return do
    let checksum ← checksum
    let checksum ← add 32 (checksum >>> 16) (checksum &&& 0xffff)
    let checksum ← add 32 checksum (checksum >>> 16)
    return (~~~ BitVec.ofNat 32 checksum).toNat % 2 ^ 16

/-- The words of the internet checksum: an odd last byte is padded with a zero. -/
def checksumWords : List Byte → List Nat
  | b :: b' :: bs => (256 * b.toNat + b'.toNat) :: checksumWords bs
  | [b] => [256 * b.toNat]
  | [] => []

/-- The internet checksum -/
def internetChecksum (data : List Byte) : Nat := 2 ^ 16 - 1 - OnesComplement.sum 16 (checksumWords data)

/-- What the loop adds up. -/
def wordSum : List Byte → Nat
  | b :: b' :: bs => 256 * b.toNat + b'.toNat + wordSum bs
  | _ => 0

/-- The byte that is left then. -/
def oddByte : List Byte → Byte
  | _ :: _ :: bs => oddByte bs
  | [b] => b
  | [] => 0

theorem checksumWords_lt {data : List Byte} : ∀ x ∈ checksumWords data, x < 2 ^ 16 := by
  induction data using checksumWords.induct with
  | case1 b b' bs ih =>
    intro x hx
    have hb := b.toNat_lt
    have hb' := b'.toNat_lt
    rcases List.mem_cons.mp hx with rfl | hx
    · omega
    · exact ih x hx
  | case2 b =>
    intro x hx
    have hb := b.toNat_lt
    rw [List.mem_singleton.mp hx]
    omega
  | case3 => exact nofun

theorem sum_checksumWords (data : List Byte) : (checksumWords data).sum = wordSum data + 256 * (oddByte data).toNat := by
  induction data using checksumWords.induct with
  | case1 b b' bs ih =>
    rw [checksumWords, List.sum_cons, ih, wordSum, oddByte]
    omega
  | case2 b =>
    show 256 * b.toNat + 0 = 0 + 256 * b.toNat
    omega
  | case3 => rfl

theorem wordSum_le (data : List Byte) : wordSum data ≤ 65535 * (data.length / 2) := by
  induction data using checksumWords.induct with
  | case1 b b' bs ih =>
    have hb := b.toNat_lt
    have hb' := b'.toNat_lt
    have hlength : (b :: b' :: bs).length / 2 = bs.length / 2 + 1 := Nat.add_div_right bs.length (Nat.two_pos)
    rw [wordSum, hlength]
    omega
  | case2 b => exact Nat.zero_le _
  | case3 => exact Nat.zero_le _

theorem readImpl_two (b b' : Byte) : readImpl 2 [b, b'] = 256 * b.toNat + b'.toNat := by
  have hb := b.toNat_lt
  have hfirst : readImplRound 2 0 b = b.toNat := (readImplRound_eq (by decide)).trans (by omega)
  rw [readImpl, List.take_of_length_le (Nat.le_refl 2), List.foldl_cons, List.foldl_cons, List.foldl_nil, hfirst, readImplRound_eq (by omega),
    Nat.mul_comm]

theorem readImpl_one (b : Byte) : readImpl 1 [b] = b.toNat := by
  rw [readImpl, List.take_of_length_le (Nat.le_refl 1), List.foldl_cons, List.foldl_nil, readImplRound_eq (by decide), Nat.zero_mul,
    Nat.zero_add]

/-- The loop from any place on: nothing wraps, and a byte is left if the bytes are odd in number. -/
theorem calculateChecksumLoop_eq (pre rest : List Byte) (checksum : Nat) (h : checksum + wordSum rest < 2 ^ 32) :
    calculateChecksumLoop (pre ++ rest) (pre ++ rest).length rest.length ⟨checksum, true⟩ =
      .ok (rest.length % 2, ⟨checksum + wordSum rest, true⟩) := by
  induction rest using checksumWords.induct generalizing pre checksum with
  | case1 b b' bs ih =>
    have hoff : (pre ++ b :: b' :: bs).length - (bs.length + 2) = pre.length := by
      rw [List.length_append, List.length_cons, List.length_cons]
      omega
    have hslice : slice (pre ++ b :: b' :: bs) pre.length 2 = [b, b'] := by rw [slice, List.drop_left]; rfl
    have hstep := ih (pre ++ [b, b']) (checksum + (256 * b.toNat + b'.toNat)) (by rw [wordSum] at h; omega)
    rw [List.append_assoc] at hstep
    rw [wordSum] at h ⊢
    show calculateChecksumLoop _ _ (bs.length + 2) _ = _
    rw [calculateChecksumLoop, hoff, load_eq (by rw [List.length_append, List.length_cons, List.length_cons]; omega), ok_bind, hslice,
      readImpl_two, exact_bind, add_eq (by omega)]
    show calculateChecksumLoop (pre ++ ([b, b'] ++ bs)) (pre ++ ([b, b'] ++ bs)).length _ _ = _
    have hmod : (b :: b' :: bs).length % 2 = bs.length % 2 := Nat.add_mod_right bs.length 2
    rw [hstep, hmod, Nat.add_assoc checksum]
  | case2 b => rfl
  | case3 => rfl


theorem length_mod_two (data : List Byte) : data.length % 2 = 0 ∨ data.length % 2 = 1 ∧ ∃ pre, data = pre ++ [oddByte data] := by
  induction data using checksumWords.induct with
  | case1 b b' bs ih =>
    have hmod : (b :: b' :: bs).length % 2 = bs.length % 2 := Nat.add_mod_right bs.length 2
    rw [hmod]
    rcases ih with h | ⟨h, pre, hpre⟩
    · exact .inl h
    · refine .inr ⟨h, b :: b' :: pre, ?_⟩
      rw [oddByte, List.cons_append, List.cons_append, ← hpre]
  | case2 b => exact .inr ⟨rfl, [], rfl⟩
  | case3 => exact .inl rfl

theorem oddByte_even {data : List Byte} (h : data.length % 2 = 0) : oddByte data = 0 := by
  induction data using checksumWords.induct with
  | case1 b b' bs ih => exact ih ((Nat.add_mod_right bs.length 2).symm.trans h)
  | case2 b => cases h
  | case3 => rfl

/-- What the code computes: nothing wraps, and the folds reduce the sum. -/
theorem calculateChecksum_eq {data : List Byte} (h : data.length ≤ 65535) :
    calculateChecksum data data.length = .ok ⟨2 ^ 16 - 1 - OnesComplement.reduce 16 (wordSum data + (oddByte data).toNat), true⟩ := by
  have hsum := wordSum_le data
  have hodd := (oddByte data).toNat_lt
  have hloop := calculateChecksumLoop_eq [] data 0 (by omega)
  rw [List.nil_append, Nat.zero_add] at hloop
  have htail : (if data.length % 2 ≠ 0 then do
      let bs ← load data (data.length - data.length % 2) 1
      return (⟨wordSum data, true⟩ : Tracked Nat) >>= (add 32 · (readImpl 1 bs))
    else return ⟨wordSum data, true⟩ : Except ByteFault (Tracked Nat)) = .ok ⟨wordSum data + (oddByte data).toNat, true⟩ := by
    rcases length_mod_two data with heven | ⟨hone, pre, hpre⟩
    · rw [if_neg (by omega), oddByte_even heven, pure_eq_ok]
      rfl
    · have hlength := congrArg List.length hpre
      rw [List.length_append, List.length_singleton] at hlength
      have hslice : slice data (data.length - data.length % 2) 1 = [oddByte data] := by
        rw [hone, hlength, Nat.add_sub_cancel, slice]
        conv_lhs => rw [hpre]
        rw [List.drop_left]
        rfl
      rw [if_pos (by omega), load_eq (by omega), ok_bind, hslice, readImpl_one, exact_bind, add_eq (by omega), pure_eq_ok]
  obtain ⟨n, hn⟩ : ∃ n, n = wordSum data + (oddByte data).toNat := ⟨_, rfl⟩
  have hlt : n < 2 ^ 16 * 2 ^ 16 := by omega
  have hfold := OnesComplement.fold_lt hlt
  have hagain : OnesComplement.fold 16 n / 2 ^ 16 < 2 := Nat.div_lt_of_lt_mul (by omega)
  have hfirst : add 32 (n >>> 16) (n &&& 0xffff) = ⟨OnesComplement.fold 16 n, true⟩ := by
    have hand : n &&& 0xffff = n % 2 ^ 16 := Nat.and_two_pow_sub_one_eq_mod n 16
    rw [Nat.shiftRight_eq_div_pow, hand]
    exact add_eq (Nat.lt_trans hfold (by decide))
  have hnot : ∀ c < 2 ^ 32, (~~~ BitVec.ofNat 32 c).toNat % 2 ^ 16 = 2 ^ 16 - 1 - c % 2 ^ 16 := by
    intro c hc
    rw [BitVec.toNat_not, BitVec.toNat_ofNat, Nat.mod_eq_of_lt hc]
    omega
  unfold calculateChecksum
  rw [pure_eq, hloop, ok_bind]
  dsimp only
  rw [htail, ok_bind, pure_eq_ok, ← hn, exact_bind, hfirst, exact_bind, Nat.shiftRight_eq_div_pow, add_eq (by omega), exact_bind, pure_eq,
    hnot _ (by omega), OnesComplement.two_folds hlt]

theorem internetChecksum_eq (data : List Byte) :
    internetChecksum data = 2 ^ 16 - 1 - OnesComplement.reduce 16 (wordSum data + 256 * (oddByte data).toNat) := by
  rw [internetChecksum, OnesComplement.sum_eq checksumWords_lt, sum_checksumWords]

/-- An odd last byte: its weight is not the same in the two halves of a word. -/
theorem reduce_odd (n : Nat) (b : Byte) :
    OnesComplement.reduce 16 (n + b.toNat) = OnesComplement.reduce 16 (n + 256 * b.toNat) ↔ b = 0 := by
  constructor
  · intro h
    by_contra hb
    have hpos : 0 < b.toNat := Nat.pos_of_ne_zero fun hzero => hb (UInt8.toNat_inj.mp hzero)
    have hmod := (OnesComplement.reduce_eq_iff (by omega) (by omega)).mp h
    have hlt := b.toNat_lt
    rw [Nat.ModEq] at hmod
    omega
  · rintro rfl
    rfl

/-- For every byte string of up to 65535 bytes: the checksum is the internet checksum, with no carry out
of 32 bits, if and only if no byte is left behind the words, or it is zero. -/
theorem calculateChecksum_iff (data : List Byte) (h : data.length ≤ 65535) :
    calculateChecksum data data.length = .ok ⟨internetChecksum data, true⟩ ↔ data.length % 2 = 0 ∨ data.getLast? = some 0 := by
  have hlt : ∀ n, OnesComplement.reduce 16 n < 2 ^ 16 := fun n => OnesComplement.reduce_lt (by decide)
  have hlt₁ := hlt (wordSum data + (oddByte data).toNat)
  have hlt₂ := hlt (wordSum data + 256 * (oddByte data).toNat)
  have hodd : oddByte data = 0 ↔ data.length % 2 = 0 ∨ data.getLast? = some 0 := by
    rcases length_mod_two data with heven | ⟨hone, pre, hpre⟩
    · exact iff_of_true (oddByte_even heven) (.inl heven)
    · have hlast : data.getLast? = some (oddByte data) := by
        conv_lhs => rw [hpre]
        rw [List.getLast?_append, List.getLast?_singleton, Option.some_or]
      rw [hlast, Option.some_inj]
      exact (or_iff_right (by omega)).symm
  rw [calculateChecksum_eq h, internetChecksum_eq, ← hodd, ← reduce_odd (wordSum data) (oddByte data)]
  constructor
  · intro heq
    have hval := congrArg Tracked.val (Except.ok.inj heq)
    dsimp only at hval
    omega
  · intro heq
    rw [heq]

/-- The 16 bytes of a ping -/
theorem calculateChecksum_iff_ping :
    calculateChecksum [8, 0, 0, 0, 1, 2, 0, 1, 0, 0, 0, 0, 0, 0, 0, 7] 16 =
        .ok ⟨internetChecksum [8, 0, 0, 0, 1, 2, 0, 1, 0, 0, 0, 0, 0, 0, 0, 7], true⟩ ↔
      16 % 2 = 0 ∨ ([8, 0, 0, 0, 1, 2, 0, 1, 0, 0, 0, 0, 0, 0, 0, 7] : List Byte).getLast? = some 0 :=
  calculateChecksum_iff [8, 0, 0, 0, 1, 2, 0, 1, 0, 0, 0, 0, 0, 0, 0, 7] (by decide)

/-- One byte: the code complements `0x0001`, and not `0x0100`. -/
theorem calculateChecksum_odd : calculateChecksum [1] 1 = .ok ⟨0xfffe, true⟩ ∧ internetChecksum [1] = 0xfeff := by
  decide

end Icmp

end Wawo
