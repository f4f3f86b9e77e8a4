import Mathlib.Data.List.Basic

/-!
# Lists cut into pieces

A loop that takes `n` elements at a time off a list cuts it into pieces of `n` elements, the last one
perhaps shorter. `Chunked` says so without a bound on the rounds, and the pieces are the only ones.
-/

universe u

namespace List

variable {α : Type u} {n : Nat} {l : List α} {cs cs' : List (List α)}

/-- `cs` are the pieces of `l`. -/
inductive Chunked (n : Nat) : List α → List (List α) → Prop
  | nil : Chunked n [] []
  | cons {l : List α} {cs : List (List α)} (hl : l ≠ []) (h : Chunked n (l.drop n) cs) : Chunked n l (l.take n :: cs)

namespace Chunked

theorem flatten_eq (h : Chunked n l cs) : cs.flatten = l := by
  induction h with
  | nil => rfl
  | cons hl h ih => rw [flatten_cons, ih, take_append_drop]

theorem unique (h : Chunked n l cs) (h' : Chunked n l cs') : cs = cs' := by
  induction h generalizing cs' with
  | nil =>
    cases h' with
    | nil => rfl
    | cons hl _ => exact absurd rfl hl
  | cons hl h ih =>
    cases h' with
    | nil => exact absurd rfl hl
    | cons _ h' => rw [ih h']

end Chunked
end List
