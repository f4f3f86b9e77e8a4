import Wawo.Lib.Run

/-!
# Loops and the loops that undo them

`iterM` is a loop that counts its rounds. If every step of one loop is undone by a step of another, the
second loop, run over the same list from its end, undoes the first (`foldl_undo`).
-/

universe u v w

namespace Lts

variable {σ : Type u} {α : Type v} {φ : Type w}

/-- `n` rounds of `f`. -/
def iterM (f : σ → Except φ σ) : Nat → σ → Except φ σ
  | 0, s => .ok s
  | n + 1, s => f s >>= iterM f n

theorem foldl_inv {g : σ → α → σ} {l : List α} {s : σ} {I : σ → Prop} (hg : ∀ a ∈ l, ∀ s, I s → I (g s a)) (hs : I s) :
    I (l.foldl g s) := by
  induction l generalizing s with
  | nil => exact hs
  | cons a l ih => exact ih (fun b hb => hg b (by simp [hb])) (hg a (by simp) s hs)

/-- A loop whose steps undo those of another one undoes it when it runs backwards. -/
theorem foldl_undo {f g : σ → α → σ} {l : List α} {s : σ} {I : σ → Prop} (hf : ∀ a ∈ l, ∀ s, I s → I (f s a))
    (hgf : ∀ a ∈ l, ∀ s, I s → g (f s a) a = s) (hs : I s) : l.reverse.foldl g (l.foldl f s) = s := by
  induction l generalizing s with
  | nil => rfl
  | cons a l ih =>
    rw [List.foldl_cons, List.reverse_cons, List.foldl_append,
      ih (fun b hb => hf b (by simp [hb])) (fun b hb => hgf b (by simp [hb])) (hf a (by simp) s hs)]
    exact hgf a (by simp) s hs

end Lts
