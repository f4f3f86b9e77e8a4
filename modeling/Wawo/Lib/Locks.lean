import Mathlib.Logic.Function.Basic

/-!
# Who has a lock

A lock remembers who has it, and every thread knows of itself whether it does. `Tracks`: the two agree, so that
no two threads have the lock. A step of one thread takes the lock where it is free, gives it back or leaves it
alone (`Moves`), and they agree again.
-/

universe u

namespace Lts

variable {ι : Type u}

/-- The lock's owner is the thread that `P` holds of. -/
def Tracks (o : Option ι) (P : ι → Prop) : Prop := ∀ i, o = some i ↔ P i

/-- What a step of `i` does to a lock: `p` before and `p'` after it say whether `i` has it. -/
inductive Moves (i : ι) (o : Option ι) : Option ι → Prop → Prop → Prop
  | keep {p p' : Prop} (h : p' ↔ p) : Moves i o o p p'
  | take {p p' : Prop} (hfree : o = none) (h : p') : Moves i o (some i) p p'
  | give {p p' : Prop} (h : p) (h' : ¬ p') : Moves i o none p p'

namespace Tracks

variable {o o' : Option ι} {P P' : ι → Prop} {i j : ι}

theorem unique (h : Tracks o P) (hi : P i) (hj : P j) : i = j :=
  Option.some.inj (((h i).2 hi).symm.trans ((h j).2 hj))

theorem moves (h : Tracks o P) (hm : Moves i o o' (P i) (P' i)) (hother : ∀ j ≠ i, P' j ↔ P j) : Tracks o' P' := by
  intro j
  by_cases hj : j = i
  · subst hj
    cases hm with
    | keep hp => exact (h j).trans hp.symm
    | take _ hp => exact ⟨fun _ => hp, fun _ => rfl⟩
    | give _ hp => exact ⟨nofun, fun hp' => absurd hp' hp⟩
  · rw [hother j hj, ← h j]
    cases hm with
    | keep _ => exact Iff.rfl
    | take hfree _ =>
      rw [hfree]
      exact ⟨fun heq => absurd (Option.some.inj heq).symm hj, nofun⟩
    | give hp _ =>
      rw [(h i).2 hp]
      exact ⟨nofun, fun heq => absurd (Option.some.inj heq).symm hj⟩

end Tracks
end Lts
