import Mathlib.Data.List.Basic
import Wawo.Wcp.Basic

/-!
# Words and their bytes

The bytes of a word, least significant first, and of an array of words in the memory of a
little-endian machine.
-/

namespace Wawo

abbrev Word := BitVec 32

/-- `(byte_t)(w >> (j << 3))` -/
def byteOf (w : Word) (j : Nat) : Byte := ⟨(w >>> (j <<< 3)).setWidth 8⟩

/-- `(u32_t)b << (j << 3)` -/
def byteAtWord (b : Byte) (j : Nat) : Word := b.toBitVec.setWidth 32 <<< (j <<< 3)

def wordBytes (w : Word) : List Byte := [byteOf w 0, byteOf w 1, byteOf w 2, byteOf w 3]

def memory (ws : List Word) : List Byte := ws.flatMap wordBytes

def words : List Byte → List Word
  | b₀ :: b₁ :: b₂ :: b₃ :: bs => (byteAtWord b₀ 0 ||| byteAtWord b₁ 1 ||| byteAtWord b₂ 2 ||| byteAtWord b₃ 3) :: words bs
  | _ => []

@[simp] theorem memory_nil : memory [] = [] := rfl

@[simp] theorem memory_cons (w : Word) (ws : List Word) : memory (w :: ws) = wordBytes w ++ memory ws := rfl

@[simp] theorem memory_append (ws ws' : List Word) : memory (ws ++ ws') = memory ws ++ memory ws' := List.flatMap_append

@[simp] theorem length_memory (ws : List Word) : (memory ws).length = 4 * ws.length := by
  induction ws with
  | nil => rfl
  | cons w ws ih =>
    rw [memory_cons, List.length_append, ih, List.length_cons]
    show 4 + 4 * ws.length = _
    omega

theorem memory_replicate_zero (k : Nat) : memory (List.replicate k 0) = List.replicate (4 * k) 0 := by
  induction k with
  | zero => rfl
  | succ k ih =>
    rw [List.replicate_succ, memory_cons, ih, Nat.mul_succ, Nat.add_comm, List.replicate_add]
    rfl

theorem getElem?_memory (ws : List Word) (k : Nat) : (memory ws)[k]? = ws[k / 4]?.map (byteOf · (k % 4)) := by
  induction ws generalizing k with
  | nil => simp
  | cons w ws ih =>
    rcases Nat.lt_or_ge k 4 with hk | hk
    · have hdiv : k / 4 = 0 := Nat.div_eq_of_lt hk
      rw [hdiv, Nat.mod_eq_of_lt hk, memory_cons, List.getElem?_append_left (by exact hk)]
      rcases (by omega : k = 0 ∨ k = 1 ∨ k = 2 ∨ k = 3) with rfl | rfl | rfl | rfl <;> rfl
    · obtain ⟨j, rfl⟩ := Nat.exists_eq_add_of_le hk
      have hdiv : (4 + j) / 4 = j / 4 + 1 := by omega
      rw [hdiv, Nat.add_mod_left, List.getElem?_cons_succ, ← ih, memory_cons, List.getElem?_append_right hk]
      congr 1
      show 4 + j - 4 = j
      omega

theorem byteOf_zero (j : Nat) : byteOf 0 j = 0 := by
  have hzero : (0 : Word) >>> (j <<< 3) = 0 := BitVec.zero_ushiftRight
  rw [byteOf, hzero]
  rfl

/-- A byte put into a word is read at its place and leaves the others. -/
theorem byteOf_or {w : Word} {b : Byte} {i j : Nat} (hi : i < 4) :
    byteOf (w ||| byteAtWord b i) j = if i = j then byteOf w j ||| b else byteOf w j := by
  have hshift (k : Nat) : k <<< 3 = 8 * k := by rw [Nat.shiftLeft_eq, Nat.mul_comm]
  have hb : byteOf (w ||| byteAtWord b i) j = ⟨(byteOf w j).toBitVec ||| (if i = j then b.toBitVec else 0)⟩ := by
    unfold byteOf byteAtWord
    rw [hshift, hshift]
    congr 1
    refine BitVec.eq_of_getLsbD_eq fun k hk => ?_
    simp only [BitVec.getLsbD_setWidth, BitVec.getLsbD_ushiftRight, BitVec.getLsbD_or, BitVec.getLsbD_shiftLeft]
    split_ifs with hij
    · subst hij
      have h₁ : 8 * i + k < 32 := by omega
      have h₂ : ¬ 8 * i + k < 8 * i := by omega
      have h₃ : 8 * i + k - 8 * i = k := by omega
      have h₄ : k < 32 := by omega
      simp [hk, h₁, h₂, h₃, h₄]
    · have h₁ : 8 * j + k < 8 * i ∨ 8 ≤ 8 * j + k - 8 * i := by omega
      have h₂ : 8 ≤ 8 * j + k - 8 * i → b.toBitVec.getLsbD (8 * j + k - 8 * i) = false := BitVec.getLsbD_of_ge _ _
      rcases h₁ with h₁ | h₁
      · simp [hk, h₁]
      · simp [hk, h₂ h₁]
  rw [hb]
  split_ifs
  · rfl
  · exact UInt8.eq_of_toBitVec_eq (BitVec.or_zero ..)

theorem getLsbD_byteAtWord (w : Word) (j : Nat) {k : Nat} (hk : k < 32) :
    (byteAtWord (byteOf w j) j).getLsbD k = (decide (k / 8 = j) && w.getLsbD k) := by
  have hshift : j <<< 3 = 8 * j := by rw [Nat.shiftLeft_eq, Nat.mul_comm]
  unfold byteAtWord byteOf
  simp only [hshift, BitVec.getLsbD_shiftLeft, BitVec.getLsbD_setWidth, BitVec.getLsbD_ushiftRight, hk, decide_true, Bool.true_and]
  by_cases h : k / 8 = j
  · have h₁ : ¬ k < 8 * j := by omega
    have h₂ : k - 8 * j < 32 := by omega
    have h₃ : k - 8 * j < 8 := by omega
    have h₄ : 8 * j + (k - 8 * j) = k := by omega
    simp [h, h₁, h₂, h₃, h₄]
  · have h₁ : k < 8 * j ∨ ¬ k - 8 * j < 8 := by omega
    rcases h₁ with h₁ | h₁ <;> simp [h, h₁]

theorem words_memory (ws : List Word) : words (memory ws) = ws := by
  induction ws with
  | nil => rfl
  | cons w ws ih =>
    have hw : byteAtWord (byteOf w 0) 0 ||| byteAtWord (byteOf w 1) 1 ||| byteAtWord (byteOf w 2) 2 ||| byteAtWord (byteOf w 3) 3 = w := by
      refine BitVec.eq_of_getLsbD_eq fun k hk => ?_
      simp only [BitVec.getLsbD_or, getLsbD_byteAtWord w _ hk]
      rcases (by omega : k / 8 = 0 ∨ k / 8 = 1 ∨ k / 8 = 2 ∨ k / 8 = 3) with h | h | h | h <;> simp [h]
    show _ :: words (memory ws) = _
    rw [hw, ih]

theorem wordBytes_or (b₀ b₁ b₂ b₃ : Byte) :
    wordBytes (byteAtWord b₀ 0 ||| byteAtWord b₁ 1 ||| byteAtWord b₂ 2 ||| byteAtWord b₃ 3) = [b₀, b₁, b₂, b₃] := by
  rw [← BitVec.zero_or (x := byteAtWord b₀ 0)]
  have hzero (j : Nat) : byteOf 0#32 j = 0 := byteOf_zero j
  have hor (b : Byte) : 0 ||| b = b := UInt8.zero_or
  simp only [wordBytes, byteOf_or (i := 0), byteOf_or (i := 1), byteOf_or (i := 2), byteOf_or (i := 3), Nat.reduceLT, hzero, hor,
    Nat.reduceEqDiff, if_true, if_false]

theorem memory_words {m : List Byte} {n : Nat} (h : m.length = 4 * n) : memory (words m) = m := by
  induction n generalizing m with
  | zero =>
    rw [List.eq_nil_of_length_eq_zero h]
    rfl
  | succ n ih =>
    rcases m with _ | ⟨b₀, _ | ⟨b₁, _ | ⟨b₂, _ | ⟨b₃, m⟩⟩⟩⟩
    case cons.cons.cons.cons =>
      simp only [List.length_cons] at h
      rw [words, memory_cons, wordBytes_or, ih (by omega)]
      rfl
    all_goals
      simp only [List.length_cons, List.length_nil] at h
      omega

theorem memory_injective {ws ws' : List Word} (h : memory ws = memory ws') : ws = ws' := by
  rw [← words_memory ws, h, words_memory]

end Wawo
