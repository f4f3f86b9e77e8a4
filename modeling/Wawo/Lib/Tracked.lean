import Mathlib.Algebra.Group.Nat.Defs
import Mathlib.Data.Nat.Basic
import Mathlib.Tactic.SplitIfs

/-!
# Machine arithmetic that tells whether it wraps

A computation on words of `w` bits has a value, which is what the machine computes, and is `exact` if no
operation on the way has wrapped. A computation that is exact and whose value is `v` is `⟨v, true⟩`;
`add_eq` and `sub_eq` are when the operations are.
-/

universe u v

/-- A value, and whether every operation it comes from was exact. -/
structure Tracked (α : Type u) where
  val : α
  exact : Bool
deriving DecidableEq

namespace Tracked

variable {α : Type u} {β : Type v} {w a b : Nat}

instance : Monad Tracked where
  pure a := ⟨a, true⟩
  bind x k := ⟨(k x.val).val, x.exact && (k x.val).exact⟩

instance : LawfulMonad Tracked := by
  refine LawfulMonad.mk' Tracked (fun x => ?_) (fun a k => ?_) (fun x k k' => ?_)
  · show (⟨x.val, x.exact && true⟩ : Tracked _) = x
    rw [Bool.and_true]
  · show (⟨(k a).val, true && (k a).exact⟩ : Tracked _) = k a
    rw [Bool.true_and]
  · show (⟨_, (x.exact && (k x.val).exact) && _⟩ : Tracked _) = ⟨_, x.exact && ((k x.val).exact && _)⟩
    rw [Bool.and_assoc]
    rfl

/-- `a + b` on words of `w` bits. -/
def add (w a b : Nat) : Tracked Nat := ⟨(a + b) % 2 ^ w, decide (a + b < 2 ^ w)⟩

/-- `a - b` on words of `w` bits. -/
def sub (w a b : Nat) : Tracked Nat := ⟨(a + 2 ^ w - b) % 2 ^ w, decide (b ≤ a)⟩

theorem pure_eq (a : α) : (pure a : Tracked α) = ⟨a, true⟩ := rfl

@[simp] theorem exact_bind {α β : Type u} (a : α) (k : α → Tracked β) : ((⟨a, true⟩ : Tracked α) >>= k) = k a := rfl

theorem add_eq (h : a + b < 2 ^ w) : add w a b = ⟨a + b, true⟩ := by
  rw [add, Nat.mod_eq_of_lt h, decide_eq_true h]

theorem sub_eq (h : b ≤ a) (ha : a < 2 ^ w) : sub w a b = ⟨a - b, true⟩ := by
  have hsub : a + 2 ^ w - b = a - b + 2 ^ w := by omega
  rw [sub, hsub, Nat.add_mod_right, Nat.mod_eq_of_lt (by omega), decide_eq_true h]

end Tracked
