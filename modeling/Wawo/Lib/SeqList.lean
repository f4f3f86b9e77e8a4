import Mathlib.Algebra.BigOperators.Group.Finset.Basic
import Mathlib.Algebra.GroupWithZero.Nat
import Mathlib.Algebra.Order.BigOperators.Group.Finset

/-!
# Lists ordered by a sequence number

`insertByKey` inserts an element into a list ordered by a numeric key, walking from the back and
dropping the element if its key is already there. `concatFrom f a n` is the concatenation of the
pieces `f a, …, f (a + n - 1)`: the byte stream that a reassembled sequence stands for.
-/

universe u v

namespace SeqList

section Insert

variable {α : Type u} (key : α → Nat)

/-- The walk of `insertByKey`, on the reversed list: the largest key comes first. -/
def insertRev (x : α) : List α → List α
  | [] => [x]
  | y :: ys =>
    if key y = key x then y :: ys
    else if key x < key y then y :: insertRev x ys
    else x :: y :: ys

/-- Insert `x` behind the last element of smaller key, unless its key is taken. -/
def insertByKey (x : α) (l : List α) : List α := (insertRev key x l.reverse).reverse

variable {key}

/-- Either the key was found and nothing changes, or `x` is put between two parts of the list, of
which the second one holds larger keys only and the first one ends in a smaller key. -/
theorem insertRev_cases (x : α) (l : List α) :
    (insertRev key x l = l ∧ ∃ y ∈ l, key y = key x) ∨
    ∃ a b, l = a ++ b ∧ insertRev key x l = a ++ x :: b ∧ (∀ y ∈ a, key x < key y) ∧
      (∀ y, b.head? = some y → key y < key x) := by
  induction l with
  | nil => exact .inr ⟨[], [], rfl, rfl, by simp, by simp⟩
  | cons y ys ih =>
    unfold insertRev
    by_cases heq : key y = key x
    · rw [if_pos heq]; exact .inl ⟨rfl, y, by simp, heq⟩
    rw [if_neg heq]
    by_cases hlt : key x < key y
    · rw [if_pos hlt]
      rcases ih with ⟨h, z, hz, hk⟩ | ⟨a, b, rfl, h, ha, hb⟩
      · exact .inl ⟨by rw [h], z, by simp [hz], hk⟩
      · refine .inr ⟨y :: a, b, rfl, by rw [h]; rfl, ?_, hb⟩
        intro z hz
        rcases List.mem_cons.1 hz with rfl | hz
        · exact hlt
        · exact ha z hz
    · rw [if_neg hlt]
      refine .inr ⟨[], y :: ys, rfl, rfl, by simp, ?_⟩
      intro z hz
      cases hz; omega

theorem insertByKey_cases (x : α) (l : List α) :
    (insertByKey key x l = l ∧ ∃ y ∈ l, key y = key x) ∨
    ∃ a b, l = a ++ b ∧ insertByKey key x l = a ++ x :: b ∧ (∀ y ∈ b, key x < key y) ∧
      (∀ y, a.getLast? = some y → key y < key x) := by
  rcases @insertRev_cases _ key x l.reverse with ⟨h, y, hy, hk⟩ | ⟨a, b, hl, h, ha, hb⟩
  · exact .inl ⟨by rw [insertByKey, h, List.reverse_reverse], y, by simpa using hy, hk⟩
  · refine .inr ⟨b.reverse, a.reverse, ?_, ?_, by simpa using ha, ?_⟩
    · rw [← List.reverse_append, ← hl, List.reverse_reverse]
    · rw [insertByKey, h]; simp
    · intro y hy; exact hb y (by simpa using hy)

theorem mem_insertByKey {x y : α} {l : List α} (h : y ∈ insertByKey key x l) : y = x ∨ y ∈ l := by
  rcases @insertByKey_cases _ key x l with ⟨e, -⟩ | ⟨a, b, rfl, e, -⟩
  · rw [e] at h; exact .inr h
  · rw [e] at h; simp at h; simp; tauto

theorem subset_insertByKey {x y : α} {l : List α} (h : y ∈ l) : y ∈ insertByKey key x l := by
  rcases @insertByKey_cases _ key x l with ⟨e, -⟩ | ⟨a, b, rfl, e, -⟩
  · rwa [e]
  · rw [e]; simp at h ⊢; tauto

/-- Afterwards the key is in the list, carried by `x` itself or by an older element. -/
theorem exists_mem_insertByKey (x : α) (l : List α) :
    x ∈ insertByKey key x l ∨ ∃ y ∈ l, key y = key x := by
  rcases @insertByKey_cases _ key x l with ⟨-, y, hy, hk⟩ | ⟨a, b, -, e, -⟩
  · exact .inr ⟨y, hy, hk⟩
  · left; rw [e]; simp

theorem pairwise_insertByKey {x : α} {l : List α} (h : l.Pairwise (key · < key ·)) :
    (insertByKey key x l).Pairwise (key · < key ·) := by
  rcases @insertByKey_cases _ key x l with ⟨e, -⟩ | ⟨a, b, rfl, e, hb, ha⟩
  · rwa [e]
  rw [e]
  obtain ⟨pa, pb, pab⟩ := List.pairwise_append.1 h
  -- everything in `a` is at most its last element, which is below `x`
  have hax : ∀ y ∈ a, key y < key x := by
    intro y hy
    obtain ⟨a', z, rfl⟩ := List.eq_nil_or_concat a |>.resolve_left (by rintro rfl; simp at hy)
    have hz := ha z (by simp)
    rw [List.concat_eq_append] at hy pa
    rcases List.mem_append.1 hy with hy | hy
    · exact Nat.lt_trans ((List.pairwise_append.1 pa).2.2 y hy z (by simp)) hz
    · rw [List.mem_singleton.1 hy]; exact hz
  refine List.pairwise_append.2 ⟨pa, List.pairwise_cons.2 ⟨hb, pb⟩, ?_⟩
  intro y hy z hz
  rcases List.mem_cons.1 hz with rfl | hz
  · exact hax y hy
  · exact pab y hy z hz

/-- In a list of increasing keys, the elements of smaller key than `x` are those in front of it. -/
theorem filter_lt_of_pairwise {x : α} {a b : List α} (h : (a ++ x :: b).Pairwise (key · < key ·)) :
    (a ++ x :: b).filter (fun y => key y < key x) = a := by
  obtain ⟨-, hb, hab⟩ := List.pairwise_append.1 h
  obtain ⟨hx, -⟩ := List.pairwise_cons.1 hb
  have ha : a.filter (fun y => key y < key x) = a :=
    List.filter_eq_self.2 fun y hy => by simpa using hab y hy x (by simp)
  have hb' : b.filter (fun y => key y < key x) = [] :=
    List.filter_eq_nil_iff.2 fun y hy => by have := hx y hy; simp; omega
  rw [List.filter_append, ha, List.filter_cons_of_neg (by simp), hb', List.append_nil]

end Insert

section Concat

variable {β : Type v} (f : Nat → List β)

/-- The pieces `f a, …, f (a + n - 1)`, one after the other. -/
def concatFrom (a n : Nat) : List β := (List.range' a n).flatMap f

@[simp] theorem concatFrom_zero (a : Nat) : concatFrom f a 0 = [] := rfl

theorem concatFrom_succ (a n : Nat) : concatFrom f a (n + 1) = concatFrom f a n ++ f (a + n) := by
  simp [concatFrom, List.range'_concat]

theorem concatFrom_congr {f g : Nat → List β} {a n : Nat} (h : ∀ k, a ≤ k → k < a + n → f k = g k) :
    concatFrom f a n = concatFrom g a n := by
  induction n with
  | zero => rfl
  | succ n ih =>
    rw [concatFrom_succ, concatFrom_succ, ih fun k h1 h2 => h k h1 (by omega),
      h (a + n) (by omega) (by omega)]

end Concat

/-- Two lists numbered 0, 1, 2, … modulo `M`: if what is in the first is in the second, which is
shorter than `M`, the first is a prefix of the second. -/
theorem prefix_of_numbered {γ : Type*} {M : Nat} {cs ns : List (Nat × γ)}
    (hc : cs.map Prod.fst = (List.range cs.length).map (· % M))
    (hn : ns.map Prod.fst = (List.range ns.length).map (· % M)) (hlt : ns.length < M) (hsub : ∀ c ∈ cs, c ∈ ns) :
    cs <+: ns := by
  have hkey : ∀ {l : List (Nat × γ)}, l.map Prod.fst = (List.range l.length).map (· % M) →
      ∀ i (hi : i < l.length), (l.get ⟨i, hi⟩).1 = i % M := by
    intro l hl i hi
    have := congrArg (fun t => t[i]?) hl
    simpa [List.getElem?_eq_getElem hi, List.getElem?_range hi] using this
  have hget : ∀ i (hi : i < cs.length), i < M → ∃ hj : i < ns.length, ns.get ⟨i, hj⟩ = cs.get ⟨i, hi⟩ := by
    intro i hi hM
    obtain ⟨⟨j, hj⟩, he⟩ := List.mem_iff_get.1 (hsub _ (List.get_mem cs ⟨i, hi⟩))
    have hij : j % M = i % M := by rw [← hkey hn j hj, he, hkey hc i hi]
    rw [Nat.mod_eq_of_lt (by omega), Nat.mod_eq_of_lt hM] at hij
    subst hij
    exact ⟨hj, he⟩
  have hlen : cs.length ≤ ns.length := by
    by_contra hlen
    obtain ⟨hj, -⟩ := hget ns.length (by omega) hlt
    omega
  refine List.prefix_iff_eq_take.2 (List.ext_get (by simp; omega) fun i h1 h2 => ?_)
  obtain ⟨hj, he⟩ := hget i h1 (by omega)
  rw [← he]
  simp

/-- If every number of `K` that weighs anything is the key of an element that weighs as much, then the
numbers weigh no more than the list. -/
theorem sum_le_weight {α : Type u} (key weight : α → Nat) (size : Nat → Nat) (l : List α) (K : Finset Nat)
    (h : ∀ k ∈ K, size k ≠ 0 → ∃ a ∈ l, key a = k ∧ size k ≤ weight a) : ∑ k ∈ K, size k ≤ (l.map weight).sum := by
  induction l generalizing K with
  | nil =>
    refine le_of_eq (Finset.sum_eq_zero fun k hk => ?_)
    by_contra hne
    obtain ⟨a, ha, -⟩ := h k hk hne
    cases ha
  | cons a l ih =>
    simp only [List.map_cons, List.sum_cons]
    by_cases ha : key a ∈ K ∧ size (key a) ≤ weight a
    · rw [← Finset.add_sum_erase K size ha.1]
      refine Nat.add_le_add ha.2 (ih _ fun k hk hne => ?_)
      obtain ⟨hk_ne, hk⟩ := Finset.mem_erase.1 hk
      obtain ⟨b, hb, hkey, hw⟩ := h k hk hne
      rcases List.mem_cons.1 hb with rfl | hb
      · exact absurd hkey.symm hk_ne
      · exact ⟨b, hb, hkey, hw⟩
    · refine Nat.le_add_left_of_le (ih K fun k hk hne => ?_)
      obtain ⟨b, hb, hkey, hw⟩ := h k hk hne
      rcases List.mem_cons.1 hb with rfl | hb
      · exact absurd ⟨hkey ▸ hk, hkey ▸ hw⟩ ha
      · exact ⟨b, hb, hkey, hw⟩

end SeqList
