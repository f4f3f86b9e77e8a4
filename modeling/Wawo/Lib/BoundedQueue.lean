import Mathlib.Data.List.Basic

/-!
# Bounded FIFO queues

A queue of fixed capacity whose contents never exceed it. `write` appends what fits, `read` takes
from the front; the bound is a field, so a queue over its capacity cannot be built.
-/

universe u

/-- A FIFO queue of at most `capacity` elements. -/
structure BoundedQueue (α : Type u) where
  capacity : Nat
  items : List α
  length_le : items.length ≤ capacity

namespace BoundedQueue

variable {α : Type u} (q : BoundedQueue α)

def empty (capacity : Nat) : BoundedQueue α := ⟨capacity, [], Nat.zero_le _⟩

def count : Nat := q.items.length

def leftCapacity : Nat := q.capacity - q.count

/-- Append the longest front part of `xs` that fits. -/
def write (xs : List α) : BoundedQueue α where
  capacity := q.capacity
  items := q.items ++ xs.take q.leftCapacity
  length_le := by
    have := q.length_le
    simp only [List.length_append, List.length_take, leftCapacity, count]; omega

/-- The elements that `read n` returns. -/
def front (n : Nat) : List α := q.items.take n

/-- The queue after `read n`. -/
def skip (n : Nat) : BoundedQueue α where
  capacity := q.capacity
  items := q.items.drop n
  length_le := by have := q.length_le; simp only [List.length_drop]; omega

@[simp] theorem items_empty (c : Nat) : (empty c : BoundedQueue α).items = [] := rfl

@[simp] theorem items_write (xs : List α) :
    (q.write xs).items = q.items ++ xs.take q.leftCapacity := rfl

@[simp] theorem items_skip (n : Nat) : (q.skip n).items = q.items.drop n := rfl

@[simp] theorem front_append_items_skip (n : Nat) : q.front n ++ (q.skip n).items = q.items :=
  List.take_append_drop n q.items

theorem count_eq_zero : q.count = 0 ↔ q.items = [] := List.length_eq_zero_iff

theorem items_write_of_le {xs : List α} (h : xs.length ≤ q.leftCapacity) :
    (q.write xs).items = q.items ++ xs := by
  rw [items_write, List.take_of_length_le h]

theorem count_skip (n : Nat) : (q.skip n).count = q.count - n := List.length_drop

end BoundedQueue
