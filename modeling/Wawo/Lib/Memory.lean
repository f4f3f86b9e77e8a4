import Mathlib.Data.List.Basic

/-!
# Memory blocks

A block of memory is the list of its cells. `slice` reads a region, `poke` overwrites one, and `wrap`
reads a region of the block taken as a circle: it goes on at the front where the block ends. What a
`poke` leaves of a region it does not meet is stated once for each of the two views.
-/

universe u

namespace Memory

variable {α : Type u} {m bs : List α} {off o n k b i : Nat}

/-- The `n` cells from `off` on. -/
def slice (m : List α) (off n : Nat) : List α := (m.drop off).take n

/-- The block with `bs` written from `off` on. -/
def poke (m : List α) (off : Nat) (bs : List α) : List α := m.take off ++ bs ++ m.drop (off + bs.length)

theorem getElem?_slice : (slice m off n)[i]? = if i < n then m[off + i]? else none := by
  rw [slice, List.getElem?_take, List.getElem?_drop]

theorem getElem?_poke (h : off + bs.length ≤ m.length) :
    (poke m off bs)[i]? = if off ≤ i ∧ i < off + bs.length then bs[i - off]? else m[i]? := by
  have hoff : (m.take off).length = off := by rw [List.length_take]; omega
  rw [poke, List.append_assoc, List.getElem?_append, hoff]
  by_cases h₁ : i < off
  · rw [if_pos h₁, if_neg (by omega), List.getElem?_take, if_pos h₁]
  · rw [if_neg h₁, List.getElem?_append]
    by_cases h₂ : i - off < bs.length
    · rw [if_pos h₂, if_pos (by omega)]
    · rw [if_neg h₂, if_neg (by omega), List.getElem?_drop]
      congr 1
      omega

@[simp] theorem length_slice : (slice m off n).length = min n (m.length - off) := by
  simp only [slice, List.length_take, List.length_drop]

theorem length_slice_of_le (h : off + n ≤ m.length) : (slice m off n).length = n := by
  rw [length_slice]; omega

@[simp] theorem slice_zero : slice m off 0 = [] := by simp [slice]

theorem slice_self : slice m 0 m.length = m := by simp [slice]

theorem length_poke (h : off + bs.length ≤ m.length) : (poke m off bs).length = m.length := by
  simp only [poke, List.length_append, List.length_take, List.length_drop]
  omega

theorem slice_add : slice m off (n + k) = slice m off n ++ slice m (off + n) k := by
  rw [slice, slice, slice, List.take_add, List.drop_drop]

theorem take_slice : (slice m off n).take k = slice m off (min k n) := by
  rw [slice, slice, List.take_take]

theorem drop_slice : (slice m off n).drop k = slice m (off + k) (n - k) := by
  rw [slice, slice, List.drop_take, List.drop_drop]

theorem slice_poke_self (h : off + bs.length ≤ m.length) : slice (poke m off bs) off bs.length = bs := by
  refine List.ext_getElem? fun i => ?_
  rw [getElem?_slice]
  split_ifs with hi
  · rw [getElem?_poke h, if_pos (by omega)]
    congr 1
    omega
  · exact (List.getElem?_eq_none (by omega)).symm

/-- A block that is written from the front on -/
theorem take_poke (h : off + bs.length ≤ m.length) : (poke m off bs).take (off + bs.length) = m.take off ++ bs :=
  List.take_left' (by rw [List.length_append, List.length_take]; omega)

theorem poke_singleton {a : α} (h : off < m.length) : poke m off [a] = m.set off a := by
  rw [poke, List.set_eq_take_append_cons_drop, if_pos h, List.append_assoc]
  rfl

/-- A copy of `bs` over `m` that has come to cell `k` goes on by it. -/
theorem set_copied (hk : k < bs.length) (hm : k < m.length) :
    (bs.take k ++ m.drop k).set k bs[k] = bs.take (k + 1) ++ m.drop (k + 1) := by
  have hlength : (bs.take k).length = k := by rw [List.length_take]; omega
  rw [List.set_append, hlength, if_neg (Nat.lt_irrefl k), Nat.sub_self, List.drop_eq_getElem_cons hm, List.set_cons_zero,
    List.take_succ_eq_append_getElem hk, List.append_assoc, List.singleton_append]

theorem slice_poke_of_disjoint (h : off + bs.length ≤ m.length) (hd : o + n ≤ off ∨ off + bs.length ≤ o) :
    slice (poke m off bs) o n = slice m o n := by
  refine List.ext_getElem? fun i => ?_
  rw [getElem?_slice, getElem?_slice]
  split_ifs with hi
  · rw [getElem?_poke h, if_neg (by omega)]
  · rfl

theorem slice_append_of_le {m' : List α} (h : off + n ≤ m.length) : slice (m ++ m') off n = slice m off n := by
  refine List.ext_getElem? fun i => ?_
  rw [getElem?_slice, getElem?_slice]
  split_ifs with hi
  · exact List.getElem?_append_left (by omega)
  · rfl

/-! ### The block as a circle -/

/-- The `n` cells from `b` on, going on at the front at the end of the block. -/
def wrap (m : List α) (b n : Nat) : List α := slice m b (min n (m.length - b)) ++ slice m 0 (n - (m.length - b))

theorem wrap_of_le (h : b + n ≤ m.length) : wrap m b n = slice m b n := by
  rw [wrap, Nat.min_eq_left (by omega), Nat.sub_eq_zero_of_le (by omega), slice_zero, List.append_nil]

theorem wrap_of_ge (h : m.length ≤ b + n) : wrap m b n = slice m b (m.length - b) ++ slice m 0 (n - (m.length - b)) := by
  rw [wrap, Nat.min_eq_right (by omega)]

@[simp] theorem wrap_zero : wrap m b 0 = [] := by simp [wrap]

theorem length_wrap (hb : b < m.length) (hn : n ≤ m.length) : (wrap m b n).length = n := by
  simp only [wrap, List.length_append, length_slice]
  omega

theorem wrap_add (hb : b < m.length) (h : n + k ≤ m.length) :
    wrap m b (n + k) = wrap m b n ++ wrap m ((b + n) % m.length) k := by
  by_cases h₁ : b + n < m.length
  · rw [Nat.mod_eq_of_lt h₁, wrap_of_le (n := n) (by omega)]
    by_cases h₂ : b + n + k ≤ m.length
    · rw [wrap_of_le (by omega), wrap_of_le h₂, slice_add]
    · rw [wrap_of_ge (by omega), wrap_of_ge (by omega), ← List.append_assoc, ← slice_add]
      congr 2 <;> omega
  · have hmod : (b + n) % m.length = b + n - m.length := by
      rw [Nat.mod_eq_sub_mod (by omega), Nat.mod_eq_of_lt (by omega)]
    rw [hmod, wrap_of_ge (by omega), wrap_of_ge (n := n) (by omega), wrap_of_le (by omega), List.append_assoc]
    congr 1
    rw [show n + k - (m.length - b) = (n - (m.length - b)) + k by omega, slice_add]
    congr 2
    omega

theorem take_wrap (hb : b < m.length) (hn : n ≤ m.length) (hk : k ≤ n) : (wrap m b n).take k = wrap m b k := by
  obtain ⟨j, rfl⟩ := Nat.exists_eq_add_of_le hk
  rw [wrap_add hb hn]
  exact List.take_left' (length_wrap hb (by omega))

theorem drop_wrap (hb : b < m.length) (hn : n ≤ m.length) (hk : k ≤ n) :
    (wrap m b n).drop k = wrap m ((b + k) % m.length) (n - k) := by
  obtain ⟨j, rfl⟩ := Nat.exists_eq_add_of_le hk
  rw [wrap_add hb hn, Nat.add_sub_cancel_left]
  exact List.drop_left' (length_wrap hb (by omega))

theorem wrap_poke_of_disjoint (h : off + bs.length ≤ m.length) (hb : b < m.length)
    (hd : b + n ≤ off ∨ off + bs.length ≤ b) (hw : b + n ≤ m.length + off) :
    wrap (poke m off bs) b n = wrap m b n := by
  rw [wrap, wrap, length_poke h, slice_poke_of_disjoint h (by omega), slice_poke_of_disjoint h (by omega)]

end Memory
