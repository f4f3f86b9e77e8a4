import Mathlib.Data.List.Sort

/-!
# Ordered maps

A map as the list of its entries in the order of their keys. `insert` keeps the entry that is already
there for a key, as `std::map::insert` does.
-/

universe u

/-- The entries of a map, ordered by key. -/
abbrev KeyMap (α : Type u) := List (Nat × α)

namespace KeyMap

variable {α : Type u} {m : KeyMap α} {k : Nat} {v : α} {e : Nat × α}

def find? (m : KeyMap α) (k : Nat) : Option α := (List.find? (fun e => e.1 == k) m).map Prod.snd

def insert (m : KeyMap α) (k : Nat) (v : α) : KeyMap α :=
  if (m.find? k).isSome then m else List.orderedInsert (fun a b => a.1 ≤ b.1) (k, v) m

def erase (m : KeyMap α) (k : Nat) : KeyMap α := List.filter (fun e => e.1 != k) m

/-- The values of the map. -/
def vals (m : KeyMap α) : List α := m.map Prod.snd

theorem mem_of_find? (h : m.find? k = some v) : (k, v) ∈ m := by
  obtain ⟨e, he, rfl⟩ := Option.map_eq_some_iff.1 h
  have hk : e.1 = k := by simpa using List.find?_some he
  have hm := List.mem_of_find?_eq_some he
  rw [← hk]
  exact hm

theorem find?_eq_none : m.find? k = none ↔ ∀ e ∈ m, e.1 ≠ k := by
  unfold find?
  rw [Option.map_eq_none_iff, List.find?_eq_none]
  simp

theorem mem_insert (h : e ∈ m.insert k v) : e = (k, v) ∨ e ∈ m := by
  unfold insert at h
  split_ifs at h
  · exact .inr h
  · exact (List.mem_orderedInsert _).1 h

theorem mem_insert_of_mem (h : e ∈ m) : e ∈ m.insert k v := by
  unfold insert
  split_ifs
  · exact h
  · exact (List.mem_orderedInsert _).2 (.inr h)

theorem mem_insert_self (h : m.find? k = none) : (k, v) ∈ m.insert k v := by
  unfold insert
  rw [if_neg (by rw [h]; simp)]
  exact (List.mem_orderedInsert _).2 (.inl rfl)

theorem mem_erase : e ∈ m.erase k ↔ e ∈ m ∧ e.1 ≠ k := by
  simp [erase]

theorem mem_vals : v ∈ m.vals ↔ ∃ k, (k, v) ∈ m := by
  unfold vals
  rw [List.mem_map]
  constructor
  · rintro ⟨⟨k, w⟩, h, rfl⟩; exact ⟨k, h⟩
  · rintro ⟨k, h⟩; exact ⟨(k, v), h, rfl⟩

theorem mem_vals_of_find? (h : m.find? k = some v) : v ∈ m.vals :=
  mem_vals.2 ⟨k, mem_of_find? h⟩

theorem mem_vals_insert {w : α} (h : v ∈ (m.insert k w).vals) : v = w ∨ v ∈ m.vals := by
  obtain ⟨k', hk⟩ := mem_vals.1 h
  rcases mem_insert hk with he | he
  · cases he; exact .inl rfl
  · exact .inr (mem_vals.2 ⟨k', he⟩)

theorem mem_vals_erase (h : v ∈ (m.erase k).vals) : v ∈ m.vals := by
  obtain ⟨k', hk⟩ := mem_vals.1 h
  exact mem_vals.2 ⟨k', (mem_erase.1 hk).1⟩

/-- One entry for each key. -/
def Functional (m : KeyMap α) : Prop := ∀ e ∈ m, ∀ e' ∈ m, e.1 = e'.1 → e = e'

theorem Functional.insert (h : Functional m) (k : Nat) (v : α) : Functional (m.insert k v) := by
  cases hf : m.find? k with
  | some w =>
    have he : m.insert k v = m := by unfold KeyMap.insert; rw [hf]; rfl
    rw [he]; exact h
  | none =>
    have hn := find?_eq_none.1 hf
    intro e he e' he' hk
    rcases mem_insert he with rfl | he <;> rcases mem_insert he' with rfl | he'
    · rfl
    · exact absurd hk.symm (hn e' he')
    · exact absurd hk (hn e he)
    · exact h e he e' he' hk

theorem Functional.erase (h : Functional m) (k : Nat) : Functional (m.erase k) :=
  fun e he e' he' hk => h e (mem_erase.1 he).1 e' (mem_erase.1 he').1 hk

end KeyMap
