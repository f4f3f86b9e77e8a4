import Mathlib.Data.Nat.ModEq
import Mathlib.Tactic.SplitIfs

/-!
# One's complement sums

A one's complement sum of words of `w` bits adds the carry out of the word at its right end. Carries may
be kept, and folded in at the end: a number keeps its residue modulo `2 ^ w - 1` and whether it is zero,
and `reduce` is the word that has both. Two folds are enough for a number of `2 * w` bits.
-/

namespace OnesComplement

variable {w n a b : Nat}

/-- What is above `w` bits is added at the right end. -/
def fold (w n : Nat) : Nat := n / 2 ^ w + n % 2 ^ w

/-- The one's complement sum of two words. -/
def add (w a b : Nat) : Nat := fold w (a + b)

/-- The one's complement sum of words. -/
def sum (w : Nat) (words : List Nat) : Nat := words.foldl (add w) 0

/-- The word with the residue of `n`: zero only for zero. -/
def reduce (w n : Nat) : Nat := if n = 0 then 0 else (n - 1) % (2 ^ w - 1) + 1

@[simp] theorem reduce_zero (w : Nat) : reduce w 0 = 0 := if_pos rfl

theorem reduce_of_pos (h : 0 < n) : reduce w n = (n - 1) % (2 ^ w - 1) + 1 := if_neg (Nat.ne_of_gt h)

theorem reduce_pos (h : 0 < n) : 0 < reduce w n := by
  rw [reduce_of_pos h]
  exact Nat.succ_pos _

theorem reduce_of_lt (h : n < 2 ^ w) : reduce w n = n := by
  rcases Nat.eq_zero_or_pos n with rfl | hpos
  · exact reduce_zero w
  · rw [reduce_of_pos hpos, Nat.mod_eq_of_lt (by omega)]
    omega

theorem reduce_lt (hw : 0 < w) : reduce w n < 2 ^ w := by
  have hpow : 2 ^ 1 ≤ 2 ^ w := Nat.pow_le_pow_right (by decide) hw
  rcases Nat.eq_zero_or_pos n with rfl | hpos
  · rw [reduce_zero]
    omega
  · have hlt := Nat.mod_lt (n - 1) (y := 2 ^ w - 1) (by omega)
    rw [reduce_of_pos hpos]
    omega

/-- A multiple of `2 ^ w - 1` more of something positive. -/
theorem reduce_add_mul (h : 0 < n) (k : Nat) : reduce w (n + k * (2 ^ w - 1)) = reduce w n := by
  have hsub : n + k * (2 ^ w - 1) - 1 = n - 1 + k * (2 ^ w - 1) := by omega
  rw [reduce_of_pos (by omega), reduce_of_pos h, hsub, Nat.add_mul_mod_self_right]

theorem exists_add_mul (w : Nat) (h : 0 < n) : ∃ k, n = reduce w n + k * (2 ^ w - 1) := by
  refine ⟨(n - 1) / (2 ^ w - 1), ?_⟩
  have := Nat.mod_add_div (n - 1) (2 ^ w - 1)
  rw [reduce_of_pos h, Nat.mul_comm]
  omega

theorem reduce_eq_iff (ha : 0 < a) (hb : 0 < b) : reduce w a = reduce w b ↔ a ≡ b [MOD 2 ^ w - 1] := by
  have hmod : ∀ {n}, 0 < n → n ≡ reduce w n [MOD 2 ^ w - 1] := by
    intro n hn
    obtain ⟨k, hk⟩ := exists_add_mul w hn
    conv_lhs => rw [hk]
    exact Nat.add_mul_mod_self_right _ _ _
  constructor
  · intro h
    exact (hmod ha).trans (h ▸ (hmod hb).symm)
  · intro h
    rw [reduce_of_pos ha, reduce_of_pos hb]
    have hpred : a - 1 ≡ b - 1 [MOD 2 ^ w - 1] := by
      refine Nat.ModEq.add_right_cancel' 1 ?_
      rwa [Nat.sub_add_cancel ha, Nat.sub_add_cancel hb]
    rw [hpred]

theorem fold_eq (w n : Nat) : n = fold w n + n / 2 ^ w * (2 ^ w - 1) := by
  have hdiv := Nat.div_add_mod n (2 ^ w)
  have hmul : n / 2 ^ w * (2 ^ w - 1) = 2 ^ w * (n / 2 ^ w) - n / 2 ^ w := by
    rw [Nat.mul_sub, Nat.mul_one, Nat.mul_comm]
  have hle : n / 2 ^ w ≤ 2 ^ w * (n / 2 ^ w) := Nat.le_mul_of_pos_left _ (Nat.two_pow_pos w)
  rw [fold, hmul]
  omega

theorem fold_pos (h : 0 < n) : 0 < fold w n := by
  have hdiv := Nat.div_add_mod n (2 ^ w)
  rcases Nat.eq_zero_or_pos (n / 2 ^ w) with hzero | hpos
  · rw [hzero] at hdiv
    rw [fold]
    omega
  · rw [fold]
    omega

@[simp] theorem reduce_fold (w n : Nat) : reduce w (fold w n) = reduce w n := by
  rcases Nat.eq_zero_or_pos n with rfl | hpos
  · rw [fold, Nat.zero_div, Nat.zero_mod]
  · conv_rhs => rw [fold_eq w n]
    rw [reduce_add_mul (fold_pos hpos)]

theorem add_lt (ha : a < 2 ^ w) (hb : b < 2 ^ w) : add w a b < 2 ^ w := by
  rcases Nat.lt_or_ge (a + b) (2 ^ w) with h | h
  · rw [add, fold, Nat.div_eq_of_lt h, Nat.mod_eq_of_lt h]
    omega
  · have hmod : (a + b) % 2 ^ w = a + b - 2 ^ w := by
      rw [Nat.mod_eq_sub_mod h, Nat.mod_eq_of_lt (by omega)]
    have hdiv : (a + b) / 2 ^ w = 1 := Nat.div_eq_of_lt_le (by omega) (by omega)
    rw [add, fold, hmod, hdiv]
    omega

/-- A sum of words is the reduced sum of the numbers. -/
theorem sum_eq {words : List Nat} (h : ∀ x ∈ words, x < 2 ^ w) : sum w words = reduce w words.sum := by
  suffices hgen : ∀ acc, acc < 2 ^ w → words.foldl (add w) acc = reduce w (acc + words.sum) by
    have := hgen 0 (Nat.two_pow_pos w)
    rwa [Nat.zero_add] at this
  induction words with
  | nil =>
    intro acc hacc
    rw [List.foldl_nil, List.sum_nil, Nat.add_zero, reduce_of_lt hacc]
  | cons x words ih =>
    intro acc hacc
    have hlt := add_lt hacc (h x List.mem_cons_self)
    have hadd : add w acc x = reduce w (acc + x) := by
      rw [← reduce_of_lt hlt, add, reduce_fold]
    rw [List.foldl_cons, ih (fun y hy => h y (List.mem_cons_of_mem x hy)) _ hlt, List.sum_cons, ← Nat.add_assoc, hadd]
    rcases Nat.eq_zero_or_pos (acc + x) with hzero | hpos
    · rw [hzero, reduce_zero]
    · obtain ⟨k, hk⟩ := exists_add_mul w hpos
      have hpos' := reduce_pos (w := w) hpos
      conv_rhs => rw [hk, Nat.add_right_comm]
      rw [reduce_add_mul (by omega)]

theorem fold_lt (h : n < 2 ^ w * 2 ^ w) : fold w n < 2 * 2 ^ w := by
  have hdiv : n / 2 ^ w < 2 ^ w := Nat.div_lt_of_lt_mul h
  have hmod : n % 2 ^ w < 2 ^ w := Nat.mod_lt _ (Nat.two_pow_pos w)
  rw [fold]
  omega

/-- A number of `2 * w` bits is reduced by one fold, and by adding what that leaves above `w` bits. -/
theorem two_folds (h : n < 2 ^ w * 2 ^ w) : (fold w n + fold w n / 2 ^ w) % 2 ^ w = reduce w n := by
  rcases Nat.lt_or_ge (fold w n) (2 ^ w) with hlt | hge
  · rw [Nat.div_eq_of_lt hlt, Nat.add_zero, Nat.mod_eq_of_lt hlt, ← reduce_fold, reduce_of_lt hlt]
  · have hbound := fold_lt h
    have hone : fold w n / 2 ^ w = 1 := Nat.div_eq_of_lt_le (by omega) (by omega)
    have hmod : fold w n % 2 ^ w = fold w n - 2 ^ w := by
      rw [Nat.mod_eq_sub_mod hge, Nat.mod_eq_of_lt (by omega)]
    have hagain : fold w (fold w n) = 1 + (fold w n - 2 ^ w) := by
      rw [← hmod, ← hone]
      rfl
    have hlt : fold w (fold w n) < 2 ^ w :=
      add_lt (Nat.div_lt_of_lt_mul h) (Nat.mod_lt n (Nat.two_pow_pos w))
    rw [← reduce_fold, ← reduce_fold w (fold w n), reduce_of_lt hlt, hone, Nat.mod_eq_sub_mod (by omega), Nat.mod_eq_of_lt (by omega)]
    omega

end OnesComplement
