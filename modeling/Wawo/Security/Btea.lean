import Wawo.Bytes.Basic
import Wawo.Bytes.Words
import Wawo.Lib.Undo

/-!
# The block cipher (`wikipedia_btea_encrypt`, `wikipedia_btea_decrypt`)

A block is an array of `n` words. Every round goes through the words once and changes each by adding,
or subtracting, a mix of its two neighbours on the circle, the key and a round constant; the variables
`y` and `z` carry the neighbour that has just changed. `mixAt` is that step. With two words or more a
word is not its own neighbour, so subtracting undoes adding, step by step from the last one back.
-/

namespace Wawo

open Lts

/-- `WAWO_XXTEA_DELTA` -/
def xxteaDelta : Word := 0x9e3779b9#32

/-- `v[i]` -/
def wordAt (v : List Word) (i : Nat) : Except ByteFault Word :=
  match v[i]? with
  | some w => .ok w
  | none => .error .outOfBounds

/-- `WAWO_XXTEA_MX` -/
def xxteaMx (key : List Word) (p : Nat) (e y z sum : Word) : Except ByteFault Word := do
  let k ← wordAt key ((p &&& 3) ^^^ e.toNat)
  return (((z >>> 5) ^^^ (y <<< 2)) + ((y >>> 3) ^^^ (z <<< 4))) ^^^ ((sum ^^^ y) + (k ^^^ z))

/-- The array and the variables of the two loops; `yz` is `z` of the encryption and `y` of the
decryption, which live from one round to the next. -/
structure Btea where
  v : List Word
  yz : Word
  sum : Word
deriving DecidableEq

/-- `z = v[p] += WAWO_XXTEA_MX` -/
def Btea.add (key : List Word) (e y : Word) (s : Btea) (p : Nat) : Except ByteFault Btea := do
  let z := s.yz
  let x := (← wordAt s.v p) + (← xxteaMx key p e y z s.sum)
  return { s with v := s.v.set p x, yz := x }

/-- `y = v[p] -= WAWO_XXTEA_MX` -/
def Btea.sub (key : List Word) (e z : Word) (s : Btea) (p : Nat) : Except ByteFault Btea := do
  let y := s.yz
  let x := (← wordAt s.v p) - (← xxteaMx key p e y z s.sum)
  return { s with v := s.v.set p x, yz := x }

/-- A round of `wikipedia_btea_encrypt`. -/
def bteaEncryptRound (key : List Word) (n : Nat) (s : Btea) : Except ByteFault Btea := do
  let s : Btea := { s with sum := s.sum + xxteaDelta }
  let e := (s.sum >>> 2) &&& 3#32
  let s ← (List.range (n - 1)).foldlM (fun s p => do s.add key e (← wordAt s.v (p + 1)) p) s
  s.add key e (← wordAt s.v 0) (n - 1)

/-- `wikipedia_btea_encrypt(v, n, key)` -/
def bteaEncrypt (v : List Word) (n : Nat) (key : List Word) : Except ByteFault (List Word) := do
  require (n ≠ 0) .divideByZero
  let rounds := 6 + 52 / n
  let s ← iterM (bteaEncryptRound key n) rounds { v := v, yz := ← wordAt v (n - 1), sum := 0 }
  return s.v

/-- A round of `wikipedia_btea_decrypt`; `p` goes from `n - 1` down to `1`. -/
def bteaDecryptRound (key : List Word) (n : Nat) (s : Btea) : Except ByteFault Btea := do
  let e := (s.sum >>> 2) &&& 3#32
  let s ← (List.range' 1 (n - 1)).reverse.foldlM (fun s p => do s.sub key e (← wordAt s.v (p - 1)) p) s
  let s ← s.sub key e (← wordAt s.v (n - 1)) 0
  return { s with sum := s.sum - xxteaDelta }

/-- `wikipedia_btea_decrypt(v, n, key)` -/
def bteaDecrypt (v : List Word) (n : Nat) (key : List Word) : Except ByteFault (List Word) := do
  require (n ≠ 0) .divideByZero
  let rounds := 6 + 52 / n
  let s ← iterM (bteaDecryptRound key n) rounds { v := v, yz := ← wordAt v 0, sum := BitVec.ofNat 32 rounds * xxteaDelta }
  return s.v

/-! ### Steps and rounds on arrays in bounds -/

/-- The word at `i` of an array it is in. -/
def wordD (v : List Word) (i : Nat) : Word := v.getD i 0

theorem wordD_eq {v : List Word} {i : Nat} (h : i < v.length) : wordD v i = v[i] := by
  rw [wordD, List.getD_eq_getElem?_getD, List.getElem?_eq_getElem h, Option.getD_some]

theorem wordAt_eq {v : List Word} {i : Nat} (h : i < v.length) : wordAt v i = .ok (wordD v i) := by
  rw [wordAt, wordD_eq h, List.getElem?_eq_getElem h]

theorem wordD_set_self {v : List Word} {i : Nat} {x : Word} (h : i < v.length) : wordD (v.set i x) i = x := by
  rw [wordD_eq (by rwa [List.length_set]), List.getElem_set_self]

theorem wordD_set_ne {v : List Word} {i j : Nat} {x : Word} (h : i ≠ j) : wordD (v.set i x) j = wordD v j := by
  rw [wordD, wordD, List.getD_eq_getElem?_getD, List.getD_eq_getElem?_getD, List.getElem?_set_ne h]

/-- The mix of a round with constant `sum`. -/
def mix (key : List Word) (sum : Word) (p : Nat) (y z : Word) : Word :=
  (((z >>> 5) ^^^ (y <<< 2)) + ((y >>> 3) ^^^ (z <<< 4))) ^^^
    ((sum ^^^ y) + (wordD key ((p &&& 3) ^^^ ((sum >>> 2) &&& 3#32).toNat) ^^^ z))

theorem xxteaMx_eq {key : List Word} (hkey : key.length = 4) (p : Nat) (y z sum : Word) :
    xxteaMx key p ((sum >>> 2) &&& 3#32) y z sum = .ok (mix key sum p y z) := by
  have hp : p &&& 3 < 2 ^ 2 := Nat.and_lt_two_pow p (by decide)
  have he : ((sum >>> 2) &&& 3#32).toNat < 2 ^ 2 := by
    rw [BitVec.toNat_and]
    exact Nat.and_lt_two_pow _ (by decide)
  have hidx : (p &&& 3) ^^^ ((sum >>> 2) &&& 3#32).toNat < key.length := by
    rw [hkey]
    exact Nat.xor_lt_two_pow hp he
  unfold xxteaMx
  rw [wordAt_eq hidx, ok_bind, pure_eq_ok]
  rfl

/-- The neighbours of a word on the circle of `n`. -/
def next (n p : Nat) : Nat := if p + 1 < n then p + 1 else 0
def prev (n p : Nat) : Nat := if p = 0 then n - 1 else p - 1

/-- Change the word at `p` by the mix of its neighbours. -/
def mixAt (op : Word → Word → Word) (key : List Word) (sum : Word) (n : Nat) (v : List Word) (p : Nat) : List Word :=
  v.set p (op (wordD v p) (mix key sum p (wordD v (next n p)) (wordD v (prev n p))))

@[simp] theorem length_mixAt (op : Word → Word → Word) (key : List Word) (sum : Word) (n : Nat) (v : List Word) (p : Nat) :
    (mixAt op key sum n v p).length = v.length := List.length_set

theorem next_ne {n p : Nat} (hn : 2 ≤ n) : p ≠ next n p := by
  unfold next
  split_ifs <;> omega

theorem prev_ne {n p : Nat} (hn : 2 ≤ n) : p ≠ prev n p := by
  unfold prev
  split_ifs <;> omega

/-- A step is undone by the step with the inverse operation: the neighbours have not changed. -/
theorem mixAt_undo {op op' : Word → Word → Word} (hop : ∀ x m, op' (op x m) m = x) (key : List Word) (sum : Word) {n p : Nat}
    {v : List Word} (hn : 2 ≤ n) (hv : v.length = n) (hp : p < n) : mixAt op' key sum n (mixAt op key sum n v p) p = v := by
  have hset (x : Word) : wordD (v.set p x) p = x ∧ wordD (v.set p x) (next n p) = wordD v (next n p) ∧
      wordD (v.set p x) (prev n p) = wordD v (prev n p) :=
    ⟨wordD_set_self (by omega), wordD_set_ne (next_ne hn), wordD_set_ne (prev_ne hn)⟩
  unfold mixAt
  rw [(hset _).1, (hset _).2.1, (hset _).2.2, hop, List.set_set, wordD_eq (by omega), List.set_getElem_self]

/-- All steps of an encryption round, or of a decryption round from the last one back. -/
def mixAll (op : Word → Word → Word) (key : List Word) (n : Nat) (ps : List Nat) (v : List Word) (sum : Word) : List Word :=
  ps.foldl (mixAt op key sum n) v

theorem length_mixAll (op : Word → Word → Word) (key : List Word) (n : Nat) (ps : List Nat) (v : List Word) (sum : Word) :
    (mixAll op key n ps v sum).length = v.length :=
  foldl_inv (I := fun v' : List Word => v'.length = v.length) (fun _ _ _ hv => (length_mixAt ..).trans hv) rfl

theorem mixAll_concat (op : Word → Word → Word) (key : List Word) (n : Nat) (ps : List Nat) (v : List Word) (sum : Word) (p : Nat) :
    mixAll op key n (ps ++ [p]) v sum = mixAt op key sum n (mixAll op key n ps v sum) p := by
  rw [mixAll, List.foldl_append, List.foldl_cons, List.foldl_nil, mixAll]

/-! ### The code runs the steps -/

section

variable {key v : List Word} {n p : Nat} {s : Btea} {y z sum : Word}

theorem Btea.add_eq (hkey : key.length = 4) (hv : v.length = n) (hp : p < n) (hy : y = wordD v (next n p))
    (hz : z = wordD v (prev n p)) :
    Btea.add key ((sum >>> 2) &&& 3#32) y { v := v, yz := z, sum := sum } p =
      .ok { v := mixAt (· + ·) key sum n v p, yz := wordD (mixAt (· + ·) key sum n v p) p, sum := sum } := by
  have hin : p < v.length := by omega
  unfold Btea.add
  dsimp only
  rw [wordAt_eq hin, ok_bind, xxteaMx_eq hkey, ok_bind, pure_eq_ok, mixAt, wordD_set_self hin, hy, hz]

theorem Btea.sub_eq (hkey : key.length = 4) (hv : v.length = n) (hp : p < n) (hz : z = wordD v (prev n p))
    (hy : y = wordD v (next n p)) :
    Btea.sub key ((sum >>> 2) &&& 3#32) z { v := v, yz := y, sum := sum } p =
      .ok { v := mixAt (· - ·) key sum n v p, yz := wordD (mixAt (· - ·) key sum n v p) p, sum := sum } := by
  have hin : p < v.length := by omega
  unfold Btea.sub
  dsimp only
  rw [wordAt_eq hin, ok_bind, xxteaMx_eq hkey, ok_bind, pure_eq_ok, mixAt, wordD_set_self hin, hy, hz]

/-- The state of the loops between two rounds: `yz` is the word at `p`. -/
def Btea.at (v : List Word) (p : Nat) (sum : Word) : Btea := { v := v, yz := wordD v p, sum := sum }

theorem bteaEncryptRound_eq (hkey : key.length = 4) (hn : 0 < n) (hv : v.length = n) :
    bteaEncryptRound key n (.at v (n - 1) sum) =
      .ok (.at (mixAll (· + ·) key n (List.range n) v (sum + xxteaDelta)) (n - 1) (sum + xxteaDelta)) := by
  obtain ⟨sum', hsum⟩ : ∃ sum', sum' = sum + xxteaDelta := ⟨_, rfl⟩
  -- after the words below `k`, `z` is the word before `k`
  have hloop : ∀ k, k ≤ n - 1 →
      (List.range k).foldlM (fun (s : Btea) p => do s.add key ((sum' >>> 2) &&& 3#32) (← wordAt s.v (p + 1)) p)
          (.at v (prev n 0) sum') =
        .ok (.at (mixAll (· + ·) key n (List.range k) v sum') (prev n k) sum') := by
    intro k
    induction k with
    | zero => exact fun _ => rfl
    | succ k ih =>
      intro hk
      have hlen : (mixAll (· + ·) key n (List.range k) v sum').length = n := by rw [length_mixAll, hv]
      have hnext : next n k = k + 1 := if_pos (by omega)
      have hprev : prev n (k + 1) = k := if_neg (Nat.succ_ne_zero k)
      rw [List.range_succ, List.foldlM_append, ih (by omega), ok_bind, List.foldlM_cons, Btea.at]
      dsimp only
      rw [wordAt_eq (by omega), ok_bind, Btea.add_eq hkey hlen (by omega) (by rw [hnext]) rfl, ok_bind, List.foldlM_nil, pure_eq_ok,
        mixAll_concat, hprev, Btea.at]
  have hlast : List.range n = List.range (n - 1) ++ [n - 1] := by
    conv_lhs => rw [← Nat.sub_add_cancel hn, List.range_succ]
  have hlen : (mixAll (· + ·) key n (List.range (n - 1)) v sum').length = n := by rw [length_mixAll, hv]
  have hnext : next n (n - 1) = 0 := if_neg (by omega)
  have hprev : prev n 0 = n - 1 := if_pos rfl
  have hrounds := hloop (n - 1) (Nat.le_refl _)
  rw [hprev] at hrounds
  unfold bteaEncryptRound
  dsimp only [Btea.at] at hrounds ⊢
  rw [← hsum, hrounds, ok_bind]
  dsimp only
  rw [wordAt_eq (by omega), ok_bind, Btea.add_eq hkey hlen (by omega) (by rw [hnext]) rfl, hlast, mixAll_concat]

theorem bteaDecryptRound_eq (hkey : key.length = 4) (hn : 0 < n) (hv : v.length = n) :
    bteaDecryptRound key n (.at v 0 sum) =
      .ok (.at (mixAll (· - ·) key n (List.range n).reverse v sum) 0 (sum - xxteaDelta)) := by
  -- after the words from `k` up, `y` is the word after the one below `k`
  have hloop : ∀ j k, 0 < k → k + j = n →
      (List.range' k j).reverse.foldlM (fun (s : Btea) p => do s.sub key ((sum >>> 2) &&& 3#32) (← wordAt s.v (p - 1)) p)
          (.at v 0 sum) =
        .ok (.at (mixAll (· - ·) key n (List.range' k j).reverse v sum) (next n (k - 1)) sum) := by
    intro j
    induction j with
    | zero =>
      intro k hk hkn
      have hnext : next n (k - 1) = 0 := if_neg (by omega)
      rw [List.range'_zero, List.reverse_nil, List.foldlM_nil, pure_eq_ok, mixAll, List.foldl_nil, hnext]
    | succ j ih =>
      intro k hk hkn
      have hlen : (mixAll (· - ·) key n (List.range' (k + 1) j).reverse v sum).length = n := by rw [length_mixAll, hv]
      have hnext : next n (k - 1) = k := by
        rw [next, if_pos (by omega), Nat.sub_add_cancel hk]
      have hprev : prev n k = k - 1 := if_neg (by omega)
      rw [List.range'_succ, List.reverse_cons, List.foldlM_append, ih (k + 1) (Nat.succ_pos k) (by omega), ok_bind,
        List.foldlM_cons, Btea.at]
      dsimp only
      rw [wordAt_eq (by omega), ok_bind, Btea.sub_eq hkey hlen (by omega) (by rw [hprev]) (by rw [Nat.add_sub_cancel]), ok_bind,
        List.foldlM_nil, pure_eq_ok, mixAll_concat, hnext, Btea.at]
  have hfirst : (List.range n).reverse = (List.range' 1 (n - 1)).reverse ++ [0] := by
    conv_lhs => rw [← Nat.sub_add_cancel hn, List.range_eq_range', List.range'_succ, List.reverse_cons]
  have hlen : (mixAll (· - ·) key n (List.range' 1 (n - 1)).reverse v sum).length = n := by rw [length_mixAll, hv]
  have hprev : prev n 0 = n - 1 := if_pos rfl
  have hrounds := hloop (n - 1) 1 Nat.one_pos (by omega)
  unfold bteaDecryptRound
  dsimp only [Btea.at] at hrounds ⊢
  rw [hrounds, ok_bind]
  dsimp only
  rw [wordAt_eq (by omega), ok_bind, Btea.sub_eq hkey hlen hn (by rw [hprev]) rfl, ok_bind, pure_eq_ok, hfirst, mixAll_concat]

/-- The constant of round `k`, counted from `0`. -/
def roundSum (k : Nat) : Word := BitVec.ofNat 32 (k + 1) * xxteaDelta

theorem roundSum_pred (k : Nat) : BitVec.ofNat 32 k * xxteaDelta + xxteaDelta = roundSum k := by
  rw [roundSum, BitVec.ofNat_add, BitVec.add_mul, BitVec.one_mul]

/-- The rounds of an encryption with a block of `n` words, first to last. -/
def encipher (key : List Word) (n : Nat) (v : List Word) : List Word :=
  ((List.range (6 + 52 / n)).map roundSum).foldl (mixAll (· + ·) key n (List.range n)) v

/-- The rounds of a decryption, last to first. -/
def decipher (key : List Word) (n : Nat) (v : List Word) : List Word :=
  ((List.range (6 + 52 / n)).map roundSum).reverse.foldl (mixAll (· - ·) key n (List.range n).reverse) v

theorem bteaEncrypt_eq (hkey : key.length = 4) (hn : 0 < n) (hv : v.length = n) :
    bteaEncrypt v n key = .ok (encipher key n v) := by
  have hrounds : ∀ j k v, v.length = n →
      iterM (bteaEncryptRound key n) j (.at v (n - 1) (BitVec.ofNat 32 k * xxteaDelta)) =
        .ok (.at (((List.range' k j).map roundSum).foldl (mixAll (· + ·) key n (List.range n)) v) (n - 1)
          (BitVec.ofNat 32 (k + j) * xxteaDelta)) := by
    intro j
    induction j with
    | zero => exact fun k v _ => rfl
    | succ j ih =>
      intro k v hv
      rw [iterM, bteaEncryptRound_eq hkey hn hv, ok_bind, roundSum_pred, roundSum,
        ih (k + 1) _ (by rw [length_mixAll, hv]), List.range'_succ, List.map_cons, List.foldl_cons, roundSum,
        Nat.add_right_comm k 1 j]
      rfl
  have h := hrounds (6 + 52 / n) 0 v hv
  have hzero : BitVec.ofNat 32 0 * xxteaDelta = 0 := BitVec.zero_mul
  rw [Btea.at, hzero] at h
  unfold bteaEncrypt
  rw [require_eq (Nat.pos_iff_ne_zero.mp hn), ok_bind]
  dsimp only
  rw [wordAt_eq (by omega), ok_bind]
  rw [h, ok_bind, pure_eq_ok, ← List.range_eq_range', Btea.at, encipher]

theorem bteaDecrypt_eq (hkey : key.length = 4) (hn : 0 < n) (hv : v.length = n) :
    bteaDecrypt v n key = .ok (decipher key n v) := by
  have hrounds : ∀ j v, v.length = n →
      iterM (bteaDecryptRound key n) j (.at v 0 (BitVec.ofNat 32 j * xxteaDelta)) =
        .ok (.at (((List.range j).map roundSum).reverse.foldl (mixAll (· - ·) key n (List.range n).reverse) v) 0
          (BitVec.ofNat 32 0 * xxteaDelta)) := by
    intro j
    induction j with
    | zero => exact fun v _ => rfl
    | succ j ih =>
      intro v hv
      have hsum : BitVec.ofNat 32 (j + 1) * xxteaDelta - xxteaDelta = BitVec.ofNat 32 j * xxteaDelta := by
        rw [← roundSum, ← roundSum_pred, BitVec.add_sub_cancel]
      rw [iterM, bteaDecryptRound_eq hkey hn hv, ok_bind, hsum, ih _ (by rw [length_mixAll, hv]), List.range_succ, List.map_append,
        List.reverse_append, List.map_singleton, List.reverse_singleton, List.singleton_append, List.foldl_cons, roundSum]
  unfold bteaDecrypt
  rw [require_eq (Nat.pos_iff_ne_zero.mp hn), ok_bind]
  dsimp only
  have h := hrounds (6 + 52 / n) v hv
  rw [Btea.at] at h
  rw [wordAt_eq (by omega), ok_bind, h, ok_bind, pure_eq_ok, Btea.at, decipher]

@[simp] theorem length_encipher : (encipher key n v).length = v.length :=
  foldl_inv (I := fun v' : List Word => v'.length = v.length) (fun _ _ _ hv => (length_mixAll ..).trans hv) rfl

@[simp] theorem length_decipher : (decipher key n v).length = v.length :=
  foldl_inv (I := fun v' : List Word => v'.length = v.length) (fun _ _ _ hv => (length_mixAll ..).trans hv) rfl

/-! ### The block cipher is a permutation of blocks of two words or more -/

/-- A round is undone by a round backwards with the inverse operation. -/
theorem mixAll_undo {op op' : Word → Word → Word} (hop : ∀ x m, op' (op x m) m = x) {ps : List Nat} (hn : 2 ≤ n) (hv : v.length = n)
    (hps : ∀ p ∈ ps, p < n) : mixAll op' key n ps.reverse (mixAll op key n ps v sum) sum = v :=
  foldl_undo (I := fun v : List Word => v.length = n) (fun _ _ v hv => (length_mixAt op key sum n v _).trans hv)
    (fun p hp _ hv => mixAt_undo hop key sum hn hv (hps p hp)) hv

theorem decipher_encipher (hn : 2 ≤ n) (hv : v.length = n) : decipher key n (encipher key n v) = v :=
  foldl_undo (I := fun v : List Word => v.length = n) (fun _ _ _ hv => (length_mixAll ..).trans hv)
    (fun _ _ _ hv => mixAll_undo BitVec.add_sub_cancel hn hv fun _ hp => List.mem_range.mp hp) hv

theorem encipher_decipher (hn : 2 ≤ n) (hv : v.length = n) : encipher key n (decipher key n v) = v := by
  have hround {sum : Word} {v : List Word} (hv : v.length = n) :
      mixAll (· + ·) key n (List.range n) (mixAll (· - ·) key n (List.range n).reverse v sum) sum = v := by
    have hundo : mixAll (· + ·) key n (List.range n).reverse.reverse (mixAll (· - ·) key n (List.range n).reverse v sum) sum = v :=
      mixAll_undo BitVec.sub_add_cancel hn hv fun _ hp => List.mem_range.mp (List.mem_reverse.mp hp)
    rwa [List.reverse_reverse] at hundo
  have hundo := foldl_undo (I := fun v : List Word => v.length = n) (l := ((List.range (6 + 52 / n)).map roundSum).reverse)
    (fun _ _ _ hv => (length_mixAll ..).trans hv) (fun _ _ _ hv => hround hv) hv
  rwa [List.reverse_reverse] at hundo

/-- `wikipedia_btea_decrypt` undoes `wikipedia_btea_encrypt`, and the other way round. -/
theorem btea_inverse (hkey : key.length = 4) (hn : 2 ≤ n) (hv : v.length = n) :
    (bteaEncrypt v n key >>= fun w => bteaDecrypt w n key) = .ok v ∧
      (bteaDecrypt v n key >>= fun w => bteaEncrypt w n key) = .ok v := by
  have hpos : 0 < n := by omega
  constructor
  · rw [bteaEncrypt_eq hkey hpos hv, ok_bind, bteaDecrypt_eq hkey hpos (length_encipher.trans hv), decipher_encipher hn hv]
  · rw [bteaDecrypt_eq hkey hpos hv, ok_bind, bteaEncrypt_eq hkey hpos (length_decipher.trans hv), encipher_decipher hn hv]

/-- A block of two words -/
theorem btea_inverse_two :
    (bteaEncrypt [1, 2] 2 [3, 4, 5, 6] >>= fun w => bteaDecrypt w 2 [3, 4, 5, 6]) = .ok [1, 2] ∧
      (bteaDecrypt [1, 2] 2 [3, 4, 5, 6] >>= fun w => bteaEncrypt w 2 [3, 4, 5, 6]) = .ok [1, 2] :=
  btea_inverse rfl (by decide) rfl

end

end Wawo
