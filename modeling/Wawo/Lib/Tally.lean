import Mathlib.Algebra.Order.BigOperators.Group.Finset

/-!
# Sums over the members of a family

`tally f s` is what the members of a finite family `s` come to, each with the weight `f` gives it. One
member changes at a time: `tally_update` says by how much the sum does.
-/

universe u v

variable {ι : Type u} {α : Type v} [Fintype ι] {f : α → Nat} {s : ι → α} {i j : ι}

/-- The sum of the weights of the members of `s`. -/
def tally (f : α → Nat) (s : ι → α) : Nat := ∑ i, f (s i)

namespace Tally

theorem congr {t : ι → α} (h : ∀ i, f (t i) = f (s i)) : tally f t = tally f s :=
  Finset.sum_congr rfl fun i _ => h i

theorem weight_le (f : α → Nat) (s : ι → α) (i : ι) : f (s i) ≤ tally f s :=
  Finset.single_le_sum (f := fun i => f (s i)) (fun _ _ => Nat.zero_le _) (Finset.mem_univ i)

theorem eq_zero : tally f s = 0 ↔ ∀ i, f (s i) = 0 := by
  unfold tally
  rw [Finset.sum_eq_zero_iff]
  simp

theorem exists_of_pos (h : 0 < tally f s) : ∃ i, 0 < f (s i) := by
  by_contra hne
  have hz : tally f s = 0 := eq_zero.2 fun i => by
    by_contra hi
    exact hne ⟨i, Nat.pos_of_ne_zero hi⟩
  omega

theorem le {t : ι → α} (h : ∀ i, f (t i) ≤ f (s i)) : tally f t ≤ tally f s :=
  Finset.sum_le_sum fun i _ => h i

theorem add (f g : α → Nat) (s : ι → α) : tally (fun x => f x + g x) s = tally f s + tally g s :=
  Finset.sum_add_distrib

theorem update [DecidableEq ι] (f : α → Nat) (s : ι → α) (i : ι) (x : α) :
    tally f (Function.update s i x) + f (s i) = tally f s + f x := by
  have hnew : tally f (Function.update s i x) = f x + ∑ j ∈ Finset.univ.erase i, f (s j) := by
    unfold tally
    rw [← Finset.add_sum_erase _ _ (Finset.mem_univ i), Function.update_self]
    refine congrArg _ (Finset.sum_congr rfl fun j hj => ?_)
    rw [Function.update_of_ne (Finset.ne_of_mem_erase hj)]
  have hold : f (s i) + ∑ j ∈ Finset.univ.erase i, f (s j) = tally f s :=
    Finset.add_sum_erase _ (fun j => f (s j)) (Finset.mem_univ i)
  omega

/-- Members of weight at most one come to at most their number. -/
theorem le_card (h : ∀ x, f x ≤ 1) (s : ι → α) : tally f s ≤ Fintype.card ι := by
  have := Finset.sum_le_card_nsmul Finset.univ (fun i => f (s i)) 1 fun i _ => h (s i)
  simpa [tally] using this

/-- Two members with a weight make a sum of at least both. -/
theorem add_le [DecidableEq ι] (h : i ≠ j) : f (s i) + f (s j) ≤ tally f s := by
  have hsub := Finset.sum_le_sum_of_subset (f := fun i => f (s i)) (Finset.subset_univ {i, j})
  rwa [Finset.sum_pair h] at hsub

/-- At most one member has a weight. -/
theorem unique [DecidableEq ι] (h : tally f s ≤ 1) (hi : 0 < f (s i)) (hj : 0 < f (s j)) : i = j := by
  by_contra hne
  have := add_le (f := f) (s := s) hne
  omega

end Tally
