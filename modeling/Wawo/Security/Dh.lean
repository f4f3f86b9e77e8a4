import Mathlib.Data.List.Prime
import Mathlib.Data.Nat.ModEq
import Mathlib.FieldTheory.Finite.Basic
import Mathlib.NumberTheory.LucasPrimality
import Mathlib.Tactic.NormNum.Prime
import Mathlib.Tactic.ReduceModChar
import Mathlib.Tactic.Ring
import Wawo.Lib.Tracked

/-!
# Diffie-Hellman (`formula.hpp`, `dh.hpp`)

`Q_mulmod` doubles and adds, `Q_powmod` squares and multiplies, both modulo a `q` right below `2^64`.
Sums that could leave the word are taken as differences from `q`: no operation wraps, for operands below
`q`, and the results are the product and the power modulo `q`. `Q_powmod` takes `q` once from an
exponent above it; both sides of an agreement do that to the same exponents. The power itself is another
one then, as `q` is prime and powers repeat after `q - 1` (`qPowmod_power`).
-/

namespace Wawo

open Tracked

/-- `Q_mulmod` from the head of its loop. -/
def qMulmodLoop (a b q rt : Nat) : Tracked Nat :=
  if _h : b = 0 then pure rt
  else do
    let qa ← sub 64 q a
    let rt ← (if b &&& 1 ≠ 0 then (if rt ≥ qa then sub 64 rt qa else add 64 rt a) else pure rt : Tracked Nat)
    let a ← (if a ≥ qa then sub 64 a qa else add 64 a a : Tracked Nat)
    qMulmodLoop a (b >>> 1) q rt
termination_by b
decreasing_by exact Nat.div_lt_self (Nat.pos_of_ne_zero _h) (by decide)

/-- `Q_mulmod(a, b, q)` -/
def qMulmod (a b q : Nat) : Tracked Nat := qMulmodLoop a b q 0

/-- `Q_powmod` from the head of its loop. -/
def qPowmodLoop (a b q rt : Nat) : Tracked Nat :=
  if _h : b = 0 then pure rt
  else do
    let rt ← (if b &&& 1 ≠ 0 then qMulmod rt a q else pure rt : Tracked Nat)
    let a ← qMulmod a a q
    qPowmodLoop a (b >>> 1) q rt
termination_by b
decreasing_by exact Nat.div_lt_self (Nat.pos_of_ne_zero _h) (by decide)

/-- `Q_powmod(a, b, q)` -/
def qPowmod (a b q : Nat) : Tracked Nat := do
  let a ← (if a > q then sub 64 a q else pure a : Tracked Nat)
  let b ← (if b > q then sub 64 b q else pure b : Tracked Nat)
  qPowmodLoop a b q 1

def dhQ : Nat := 0xffffffffffffffc5
def dhG : Nat := 5

/-- `DH_Factor` -/
structure DhFactor where
  privKey : Nat
  pubKey : Nat
deriving DecidableEq

/-- `dh_generate_factor()`, with what `random_u64` returns. -/
def dhGenerateFactor (random : Nat) : Tracked DhFactor := do
  return { privKey := random, pubKey := ← qPowmod dhG random dhQ }

/-- `dh_generate_key(factor2_pub, factor1_priv)` -/
def dhGenerateKey (pub priv : Nat) : Tracked Nat := qPowmod pub priv dhQ

variable {a b q rt : Nat}

/-- An addition modulo `q` by the difference from `q`. -/
theorem addMod_eq (ha : a < q) (hb : b < q) (hq : q ≤ 2 ^ 64) :
    (if b ≥ q - a then sub 64 b (q - a) else add 64 b a) = ⟨(b + a) % q, true⟩ := by
  split_ifs with h
  · rw [sub_eq h (by omega), Nat.mod_eq_sub_mod (by omega), Nat.mod_eq_of_lt (by omega)]
    congr 1
    omega
  · rw [add_eq (by omega), Nat.mod_eq_of_lt (by omega)]

/-! ### The rounds of the loop -/

/-- The variables of `Q_mulmod` -/
structure Mulmod where
  a : Nat
  b : Nat
  rt : Nat
deriving DecidableEq

/-- A round of the loop of `Q_mulmod`: what is computed before `b` is looked at again. -/
def qMulmodRound (q : Nat) (s : Mulmod) : Tracked Mulmod := do
  let qa ← sub 64 q s.a
  let rt ← (if s.b &&& 1 ≠ 0 then (if s.rt ≥ qa then sub 64 s.rt qa else add 64 s.rt s.a) else pure s.rt : Tracked Nat)
  let a ← (if s.a ≥ qa then sub 64 s.a qa else add 64 s.a s.a : Tracked Nat)
  return { a := a, b := s.b >>> 1, rt := rt }

/-- The loop runs a round from `s`, and then is at `s'`. -/
def Mulmod.Next (q : Nat) (s s' : Mulmod) : Prop := s.b ≠ 0 ∧ (qMulmodRound q s).val = s'

/-- The loop is its rounds, one after the other. -/
theorem qMulmodLoop_round (q : Nat) (s : Mulmod) :
    qMulmodLoop s.a s.b q s.rt = if s.b = 0 then pure s.rt else (do
      let s' ← qMulmodRound q s
      qMulmodLoop s'.a s'.b q s'.rt) := by
  rw [qMulmodLoop]
  by_cases hb : s.b = 0
  · rw [dif_pos hb, if_pos hb]
  · rw [dif_neg hb, if_neg hb, qMulmodRound, bind_assoc]
    congr 1
    funext qa
    rw [bind_assoc]
    congr 1
    funext rt
    rw [bind_assoc]
    rfl

/-- What the rounds keep: the operands are below the modulus, and the product is still to be had. -/
structure Mulmod.Below (q product : Nat) (s : Mulmod) : Prop where
  a_lt : s.a < q
  rt_lt : s.rt < q
  mod_eq : (s.rt + s.a * s.b) % q = product % q

namespace Mulmod.Below

variable {product : Nat} {s s' : Mulmod}

/-- The round of the loop, on integers. -/
theorem round_eq (h : Below q product s) (hq : q < 2 ^ 64) :
    qMulmodRound q s = ⟨⟨(s.a + s.a) % q, s.b / 2, (s.rt + s.a * (s.b % 2)) % q⟩, true⟩ := by
  have hrt : (if s.b &&& 1 ≠ 0 then (if s.rt ≥ q - s.a then sub 64 s.rt (q - s.a) else add 64 s.rt s.a) else pure s.rt) =
      ⟨(s.rt + s.a * (s.b % 2)) % q, true⟩ := by
    rw [Nat.and_one_is_mod]
    rcases Nat.mod_two_eq_zero_or_one s.b with hb | hb
    · rw [if_neg (by omega), hb, Nat.mul_zero, Nat.add_zero, Nat.mod_eq_of_lt h.rt_lt, pure_eq]
    · rw [if_pos (by omega), addMod_eq h.a_lt h.rt_lt hq.le, hb, Nat.mul_one]
  rw [qMulmodRound, sub_eq h.a_lt.le hq, exact_bind, hrt, exact_bind, addMod_eq h.a_lt h.a_lt hq.le, exact_bind, pure_eq,
    Nat.shiftRight_eq_div_pow, Nat.pow_one]

theorem next (h : Below q product s) (hq : q < 2 ^ 64) (hnext : Next q s s') : Below q product s' := by
  obtain ⟨-, rfl⟩ := hnext
  rw [h.round_eq hq]
  have hpos : 0 < q := Nat.zero_lt_of_lt h.a_lt
  refine ⟨Nat.mod_lt _ hpos, Nat.mod_lt _ hpos, ?_⟩
  show (s.rt + s.a * (s.b % 2)) % q + (s.a + s.a) % q * (s.b / 2) ≡ product [MOD q]
  calc (s.rt + s.a * (s.b % 2)) % q + (s.a + s.a) % q * (s.b / 2)
      ≡ (s.rt + s.a * (s.b % 2)) + (s.a + s.a) * (s.b / 2) [MOD q] := (Nat.mod_modEq _ _).add ((Nat.mod_modEq _ _).mul_right _)
    _ = s.rt + s.a * (s.b % 2 + 2 * (s.b / 2)) := by ring
    _ = s.rt + s.a * s.b := by rw [Nat.mod_add_div]
    _ ≡ product [MOD q] := h.mod_eq

/-- In every state the loop gets to. -/
theorem star (h : Below q product s) (hq : q < 2 ^ 64) (hs : Relation.ReflTransGen (Next q) s s') : Below q product s' := by
  induction hs with
  | refl => exact h
  | tail _ hnext ih => exact ih.next hq hnext

end Mulmod.Below

theorem qMulmodLoop_eq (ha : a < q) (hrt : rt < q) (hq : q < 2 ^ 64) : qMulmodLoop a b q rt = ⟨(rt + a * b) % q, true⟩ := by
  suffices h : ∀ (s : Mulmod) (product : Nat), s.Below q product → qMulmodLoop s.a s.b q s.rt = ⟨product % q, true⟩ from
    h ⟨a, b, rt⟩ (rt + a * b) ⟨ha, hrt, rfl⟩
  intro s product h
  obtain ⟨n, hn⟩ : ∃ n, n = s.b := ⟨_, rfl⟩
  induction n using Nat.strong_induction_on generalizing s with
  | _ n ih =>
    rw [qMulmodLoop_round]
    by_cases hb : s.b = 0
    · rw [if_pos hb, pure_eq, ← h.mod_eq, hb, Nat.mul_zero, Nat.add_zero, Nat.mod_eq_of_lt h.rt_lt]
    · have hnext := h.next hq ⟨hb, rfl⟩
      rw [h.round_eq hq] at hnext
      rw [if_neg hb, h.round_eq hq, exact_bind]
      exact ih (s.b / 2) (by omega) _ hnext rfl

/-- `q` itself is not reduced on the way. -/
theorem qMulmodLoop_self (hrt : rt < q) (hq : q < 2 ^ 64) : qMulmodLoop q b q rt = ⟨rt, true⟩ := by
  induction b using Nat.strong_induction_on with
  | _ b ih =>
    unfold qMulmodLoop
    by_cases hb : b = 0
    · rw [dif_pos hb, pure_eq]
    · have hround : (if b &&& 1 ≠ 0 then (if rt ≥ q - q then sub 64 rt (q - q) else add 64 rt q) else pure rt) = ⟨rt, true⟩ := by
        rw [Nat.sub_self, if_pos (Nat.zero_le rt), sub_eq (Nat.zero_le rt) (by omega), Nat.sub_zero, pure_eq, ite_self]
      have hdouble : (if q ≥ q - q then sub 64 q (q - q) else add 64 q q) = ⟨q, true⟩ := by
        rw [Nat.sub_self, if_pos (Nat.zero_le q), sub_eq (Nat.zero_le q) hq, Nat.sub_zero]
      rw [dif_neg hb, sub_eq (Nat.le_refl q) hq, exact_bind, hround, exact_bind, hdouble, exact_bind]
      exact ih _ (Nat.div_lt_self (Nat.pos_of_ne_zero hb) (by decide))

theorem qMulmod_eq (ha : a ≤ q) (hpos : 0 < q) (hq : q < 2 ^ 64) : qMulmod a b q = ⟨a * b % q, true⟩ := by
  rw [qMulmod]
  rcases Nat.lt_or_eq_of_le ha with hlt | rfl
  · rw [qMulmodLoop_eq hlt hpos hq, Nat.zero_add]
  · rw [qMulmodLoop_self hpos hq, Nat.mul_mod_right]

/-- For every modulus and every operand below it: the result is the product modulo `q`, the loop is its rounds one
after the other, and in every round both variables are below the modulus and nothing wraps. -/
theorem qMulmod_rounds (b : Nat) (ha : a < q) (hq : q < 2 ^ 64) :
    qMulmod a b q = ⟨a * b % q, true⟩ ∧
      (∀ s, qMulmodLoop s.a s.b q s.rt = if s.b = 0 then pure s.rt else qMulmodRound q s >>= fun s' => qMulmodLoop s'.a s'.b q s'.rt) ∧
      ∀ s, Relation.ReflTransGen (Mulmod.Next q) ⟨a, b, 0⟩ s → s.rt < q ∧ s.a < q ∧ (qMulmodRound q s).exact = true := by
  have hpos : 0 < q := Nat.zero_lt_of_lt ha
  refine ⟨qMulmod_eq ha.le hpos hq, qMulmodLoop_round q, fun s hs => ?_⟩
  have hstart : Mulmod.Below q (a * b) ⟨a, b, 0⟩ := ⟨ha, hpos, by rw [Nat.zero_add]⟩
  have h := hstart.star hq hs
  rw [h.round_eq hq]
  exact ⟨h.rt_lt, h.a_lt, rfl⟩

/-- Twice the first operand is not a word. -/
theorem qMulmod_rounds_large :
    qMulmod (2 ^ 64 - 2) (2 ^ 64 - 1) (2 ^ 64 - 1) = ⟨(2 ^ 64 - 2) * (2 ^ 64 - 1) % (2 ^ 64 - 1), true⟩ ∧
      (∀ s, qMulmodLoop s.a s.b (2 ^ 64 - 1) s.rt =
        if s.b = 0 then pure s.rt else qMulmodRound (2 ^ 64 - 1) s >>= fun s' => qMulmodLoop s'.a s'.b (2 ^ 64 - 1) s'.rt) ∧
      ∀ s, Relation.ReflTransGen (Mulmod.Next (2 ^ 64 - 1)) ⟨2 ^ 64 - 2, 2 ^ 64 - 1, 0⟩ s →
        s.rt < 2 ^ 64 - 1 ∧ s.a < 2 ^ 64 - 1 ∧ (qMulmodRound (2 ^ 64 - 1) s).exact = true :=
  qMulmod_rounds (2 ^ 64 - 1) (by decide) (by decide)

theorem qPowmodLoop_eq (ha : a ≤ q) (hrt : rt < q) (hq : q < 2 ^ 64) : qPowmodLoop a b q rt = ⟨rt * a ^ b % q, true⟩ := by
  induction b using Nat.strong_induction_on generalizing a rt with
  | _ b ih =>
    unfold qPowmodLoop
    by_cases hb : b = 0
    · rw [dif_pos hb, hb, Nat.pow_zero, Nat.mul_one, Nat.mod_eq_of_lt hrt, pure_eq]
    · have hpos : 0 < q := by omega
      have hshift : b >>> 1 = b / 2 := Nat.shiftRight_eq_div_pow b 1
      have hround : (if b &&& 1 ≠ 0 then qMulmod rt a q else pure rt) = ⟨rt * a ^ (b % 2) % q, true⟩ := by
        rw [Nat.and_one_is_mod]
        rcases Nat.mod_two_eq_zero_or_one b with h | h
        · rw [if_neg (by omega), h, Nat.pow_zero, Nat.mul_one, Nat.mod_eq_of_lt hrt, pure_eq]
        · rw [if_pos (by omega), qMulmod_eq hrt.le hpos hq, h, Nat.pow_one]
      rw [dif_neg hb, hround, exact_bind, qMulmod_eq ha hpos hq, exact_bind, ih _ (by omega) (Nat.mod_lt _ hpos).le (Nat.mod_lt _ hpos),
        hshift]
      congr 1
      show rt * a ^ (b % 2) % q * (a * a % q) ^ (b / 2) ≡ rt * a ^ b [MOD q]
      calc rt * a ^ (b % 2) % q * (a * a % q) ^ (b / 2)
          ≡ rt * a ^ (b % 2) * (a * a) ^ (b / 2) [MOD q] := (Nat.mod_modEq _ _).mul ((Nat.mod_modEq _ _).pow _)
        _ = rt * a ^ (b % 2 + 2 * (b / 2)) := by rw [Nat.pow_add, Nat.pow_mul, ← Nat.pow_two, Nat.mul_assoc]
        _ = rt * a ^ b := by rw [Nat.mod_add_div]

/-- The exponent `Q_powmod` works with. -/
def reduced (b : Nat) : Nat := if b > dhQ then b - dhQ else b

theorem qPowmod_eq (ha : a < 2 ^ 64) (hb : b < 2 ^ 64) : qPowmod a b dhQ = ⟨a ^ reduced b % dhQ, true⟩ := by
  obtain ⟨a', hbase, hle, hmod⟩ : ∃ a', (if a > dhQ then sub 64 a dhQ else pure a) = ⟨a', true⟩ ∧ a' ≤ dhQ ∧ a' ≡ a [MOD dhQ] := by
    split_ifs with h
    · have hdouble : 2 ^ 64 ≤ dhQ + dhQ := by decide
      refine ⟨a - dhQ, sub_eq h.le ha, by omega, ?_⟩
      conv_rhs => rw [← Nat.sub_add_cancel h.le]
      exact (Nat.add_mod_right _ _).symm
    · exact ⟨a, rfl, by omega, rfl⟩
  have hexp : (if b > dhQ then sub 64 b dhQ else pure b) = ⟨reduced b, true⟩ := by
    unfold reduced
    split_ifs with h
    · exact sub_eq h.le hb
    · rfl
  unfold qPowmod
  rw [hbase, exact_bind, hexp, exact_bind, qPowmodLoop_eq hle (by decide) (by decide), Nat.one_mul, hmod.pow (reduced b)]

theorem dhGenerateFactor_eq {k : Nat} (hk : k < 2 ^ 64) : dhGenerateFactor k = ⟨⟨k, dhG ^ reduced k % dhQ⟩, true⟩ := by
  unfold dhGenerateFactor
  rw [qPowmod_eq (by decide) hk, exact_bind, pure_eq]

/-- A public key is not zero: `g` and `q` are coprime. -/
theorem pubKey_ne_zero (k : Nat) : dhG ^ reduced k % dhQ ≠ 0 := by
  have hcoprime : (dhG ^ reduced k).Coprime dhQ := Nat.Coprime.pow_left _ (by decide)
  intro h
  have hone : dhQ = 1 := Nat.Coprime.eq_one_of_dvd hcoprime.symm (Nat.dvd_of_mod_eq_zero h)
  exact absurd hone (by decide)

theorem pubKey_lt (k : Nat) : dhG ^ reduced k % dhQ < 2 ^ 64 := (Nat.mod_lt _ (by decide)).trans (by decide)

/-- The key that the owner of private key `x` gets with the public key of `y`. -/
theorem dhGenerateKey_eq (y : Nat) {x : Nat} (hx : x < 2 ^ 64) :
    dhGenerateKey (dhG ^ reduced y % dhQ) x = ⟨dhG ^ (reduced y * reduced x) % dhQ, true⟩ := by
  rw [dhGenerateKey, qPowmod_eq (pubKey_lt y) hx, ← Nat.pow_mod, ← Nat.pow_mul]

/-! ### The power itself -/

/-- Lucas's test, with the prime factors of `p - 1` in a list -/
theorem prime_of_factors {p : Nat} (a : ZMod p) (fs : List Nat) (hfs : ∀ f ∈ fs, f.Prime) (hprod : fs.prod = p - 1)
    (hone : a ^ (p - 1) = 1) (hne : ∀ f ∈ fs, a ^ ((p - 1) / f) ≠ 1) : p.Prime := by
  refine lucas_primality p a hone fun q hq hdvd => ?_
  rw [← hprod] at hdvd
  obtain ⟨f, hf, hqf⟩ := (Prime.dvd_prod_iff hq.prime).mp hdvd
  rw [(Nat.prime_dvd_prime_iff_eq hq (hfs f hf)).mp hqf]
  exact hne f hf

/-- The largest prime factor of `DH_q - 1` -/
theorem prime_factor : Nat.Prime 5594472617641 := by
  refine prime_of_factors 13 [2, 2, 2, 3, 5, 1427, 2131, 15331] ?_ (by norm_num) (by reduce_mod_char) ?_
  · simp only [List.forall_mem_cons]
    norm_num
  · simp only [List.forall_mem_cons, Nat.reduceSub, Nat.reduceDiv]
    refine ⟨?_, ?_, ?_, ?_, ?_, ?_, ?_, ?_, nofun⟩ <;> reduce_mod_char <;> decide +kernel

theorem prime_dhQ : dhQ.Prime := by
  unfold dhQ
  refine prime_of_factors 2 [2, 2, 11, 137, 547, 5594472617641] ?_ (by norm_num) (by reduce_mod_char) ?_
  · simp only [List.forall_mem_cons]
    exact ⟨by norm_num, by norm_num, by norm_num, by norm_num, by norm_num, prime_factor, nofun⟩
  · simp only [List.forall_mem_cons, Nat.reduceSub, Nat.reduceDiv]
    refine ⟨?_, ?_, ?_, ?_, ?_, ?_, nofun⟩ <;> reduce_mod_char <;> decide +kernel

/-- Taking `q` from an exponent above it takes one factor too much. -/
theorem pow_sub_dhQ (a : Nat) (hb : dhQ < b) : a ^ b ≡ a ^ (b - dhQ) * a [MOD dhQ] := by
  have : Fact dhQ.Prime := ⟨prime_dhQ⟩
  have hfermat : a ^ dhQ ≡ a [MOD dhQ] := by
    rw [← ZMod.natCast_eq_natCast_iff, Nat.cast_pow, ZMod.pow_card]
  calc a ^ b = a ^ (b - dhQ) * a ^ dhQ := by rw [← Nat.pow_add, Nat.sub_add_cancel hb.le]
    _ ≡ a ^ (b - dhQ) * a [MOD dhQ] := hfermat.mul_left _

/-- For every base and exponent nothing wraps; the result is the power modulo `q` if and only if the
exponent is at most `q`, or the base is `0` or `1` modulo `q`. -/
theorem qPowmod_power (ha : a < 2 ^ 64) (hb : b < 2 ^ 64) :
    (qPowmod a b dhQ).exact = true ∧ ((qPowmod a b dhQ).val = a ^ b % dhQ ↔ b ≤ dhQ ∨ a % dhQ ≤ 1) := by
  rw [qPowmod_eq ha hb]
  refine ⟨rfl, ?_⟩
  show a ^ reduced b ≡ a ^ b [MOD dhQ] ↔ _
  by_cases hle : b ≤ dhQ
  · rw [reduced, if_neg (by omega)]
    exact ⟨fun _ => .inl hle, fun _ => .refl _⟩
  have hlt : dhQ < b := Nat.lt_of_not_le hle
  rw [reduced, if_pos hlt]
  have hpow := pow_sub_dhQ a hlt
  have hpos : b - dhQ ≠ 0 := by omega
  constructor
  · intro h
    right
    -- a power that stays the same when it is multiplied by the base
    have : Fact dhQ.Prime := ⟨prime_dhQ⟩
    have hmul : ((a : ZMod dhQ)) ^ (b - dhQ) * ((a : ZMod dhQ) - 1) = 0 := by
      have hcast := (ZMod.natCast_eq_natCast_iff _ _ _).mpr (h.trans hpow)
      push_cast at hcast
      rw [mul_sub, mul_one, ← hcast, sub_self]
    rcases mul_eq_zero.mp hmul with hzero | hone
    · have hbase : (a : ZMod dhQ) = ((0 : Nat) : ZMod dhQ) := by rw [Nat.cast_zero]; exact pow_eq_zero_iff hpos |>.mp hzero
      rw [(ZMod.natCast_eq_natCast_iff a 0 dhQ).mp hbase]
      decide
    · have hbase : (a : ZMod dhQ) = ((1 : Nat) : ZMod dhQ) := by rw [Nat.cast_one]; exact sub_eq_zero.mp hone
      rw [(ZMod.natCast_eq_natCast_iff a 1 dhQ).mp hbase]
      decide
  · rintro (h | h)
    · exact absurd h hle
    · refine .trans ?_ hpow.symm
      have hbase : a ≡ a % dhQ [MOD dhQ] := (Nat.mod_modEq a dhQ).symm
      refine (hbase.pow _).trans (.trans ?_ ((hbase.pow _).mul hbase).symm)
      have hcases : a % dhQ = 0 ∨ a % dhQ = 1 := by omega
      rcases hcases with h | h
      · rw [h, Nat.zero_pow (Nat.pos_of_ne_zero hpos)]
      · rw [h, Nat.one_pow]

/-- The largest exponent that `Q_powmod` leaves as it is -/
theorem qPowmod_power_dhQ : (qPowmod 2 dhQ dhQ).exact = true ∧ ((qPowmod 2 dhQ dhQ).val = 2 ^ dhQ % dhQ ↔ dhQ ≤ dhQ ∨ 2 % dhQ ≤ 1) :=
  qPowmod_power (by decide) (by decide)

/-- `2` to the power of `q + 1` is `4`, and the code's result is `2`. -/
theorem qPowmod_aboveQ : qPowmod 2 (dhQ + 1) dhQ = ⟨2, true⟩ ∧ 2 ^ (dhQ + 1) % dhQ = 4 := by
  have hreduced : reduced (dhQ + 1) = 1 := by decide
  have hpow : 2 ^ (dhQ + 1) ≡ 2 ^ (dhQ + 1 - dhQ) * 2 [MOD dhQ] := pow_sub_dhQ 2 (Nat.lt_succ_self dhQ)
  rw [Nat.add_sub_cancel_left] at hpow
  refine ⟨?_, hpow⟩
  rw [qPowmod_eq (by decide) (by decide), hreduced]
  decide

/-! ### The agreement -/

/-- Two sides that raise each other's public key to their own private key get the same key, and nothing
on the way wraps. -/
theorem dh_agreement {x y : Nat} (hx : x < 2 ^ 64) (hy : y < 2 ^ 64) :
    (do dhGenerateKey (← qPowmod dhG y dhQ) x) = (do dhGenerateKey (← qPowmod dhG x dhQ) y) ∧
      (do dhGenerateKey (← qPowmod dhG y dhQ) x).exact = true := by
  have hkey : ∀ {x y}, x < 2 ^ 64 → y < 2 ^ 64 →
      (do dhGenerateKey (← qPowmod dhG y dhQ) x) = ⟨dhG ^ (reduced y * reduced x) % dhQ, true⟩ := by
    intro x y hx hy
    rw [qPowmod_eq (by decide) hy, exact_bind, dhGenerateKey_eq y hx]
  rw [hkey hx hy, hkey hy hx, Nat.mul_comm]
  exact ⟨rfl, rfl⟩

/-- A private key above `q` and a small one. -/
theorem dh_agreement_aboveQ :
    (do dhGenerateKey (← qPowmod dhG 12 dhQ) (2 ^ 64 - 1)) = (do dhGenerateKey (← qPowmod dhG (2 ^ 64 - 1) dhQ) 12) ∧
      (do dhGenerateKey (← qPowmod dhG 12 dhQ) (2 ^ 64 - 1)).exact = true :=
  dh_agreement (by decide) (by decide)

end Wawo
