import Mathlib.Data.List.Basic

/-!
# Reading a list from the front

`scan f l p s` reads the items of `l`, the first of which stands at `p`, each with its place; an item that `f`
refuses ends it. `Loops` is where a reader goes round: what it has read there is a word, and its state is a
function of the word. `Loops.scan_eq_some` takes what is to be read apart: the longest word, and the rest.
-/

universe u v

namespace Lts

variable {α : Type u} {σ : Type v} {f : Nat → α → σ → Option σ} {l l' : List α} {p : Nat} {s t : σ}

/-- Read the items one after the other. -/
def scan (f : Nat → α → σ → Option σ) : List α → Nat → σ → Option σ
  | [], _, s => some s
  | a :: l, p, s =>
    match f p a s with
    | some t => scan f l (p + 1) t
    | none => none

@[simp] theorem scan_nil : scan f [] p s = some s := rfl

theorem scan_cons_eq_some {a : α} : scan f (a :: l) p s = some t ↔ ∃ u, f p a s = some u ∧ scan f l (p + 1) u = some t := by
  rw [scan]
  cases f p a s <;> simp

theorem scan_append_eq_some : scan f (l ++ l') p s = some t ↔ ∃ u, scan f l p s = some u ∧ scan f l' (p + l.length) u = some t := by
  induction l generalizing p s with
  | nil => simp
  | cons a l ih =>
    rw [List.cons_append, scan_cons_eq_some, List.length_cons, Nat.add_comm l.length, ← Nat.add_assoc]
    simp only [scan_cons_eq_some, ih]
    exact ⟨fun ⟨u, hu, v, hv, ht⟩ => ⟨v, ⟨u, hu, hv⟩, ht⟩, fun ⟨v, ⟨u, hu, hv⟩, ht⟩ => ⟨u, hu, v, hv, ht⟩⟩

/-- Each item of the word may follow what stands before it. -/
def Follows (C : List α → α → Bool) (w : List α) : Prop := ∀ front a tail, w = front ++ a :: tail → C front a = true

/-- The reader goes on within the loop with the items that `C` allows, from the place `p` on. -/
def Loops (f : Nat → α → σ → Option σ) (C : List α → α → Bool) (p : Nat) (g : List α → σ) : Prop :=
  ∀ w a, C w a = true → f (p + w.length) a (g w) = some (g (w ++ [a]))

theorem follows_nil {C : List α → α → Bool} : Follows C [] := fun front _ _ h => by simp at h

theorem follows_snoc {C : List α → α → Bool} {w : List α} {a : α} : Follows C (w ++ [a]) ↔ Follows C w ∧ C w a = true := by
  constructor
  · refine fun h => ⟨fun front b tail hw => h front b (tail ++ [a]) (by simp [hw]), h w a [] rfl⟩
  · rintro ⟨hw, ha⟩ front b tail heq
    rcases List.eq_nil_or_concat tail with rfl | ⟨tail, c, rfl⟩
    · obtain ⟨rfl, hb⟩ := List.append_inj' heq rfl
      cases hb
      exact ha
    · refine hw front b tail ?_
      rw [List.concat_eq_append, ← List.cons_append, ← List.append_assoc] at heq
      exact (List.append_inj' heq rfl).1

/-- A condition that does not depend on what stands before -/
theorem follows_iff {C : α → Bool} {w : List α} : Follows (fun _ a => C a) w ↔ ∀ a ∈ w, C a = true := by
  constructor
  · intro h a ha
    obtain ⟨front, tail, rfl⟩ := List.append_of_mem ha
    exact h front a tail rfl
  · rintro h front a tail rfl
    exact h a (by simp)

namespace Loops

variable {C : List α → α → Bool} {g : List α → σ}

theorem scan_word (h : Loops f C p g) {w w' : List α} (hw : Follows C (w ++ w')) : scan f w' (p + w.length) (g w) = some (g (w ++ w')) := by
  induction w' generalizing w with
  | nil => rw [List.append_nil, scan_nil]
  | cons a w' ih =>
    rw [scan_cons_eq_some]
    refine ⟨_, h w a (hw w a w' rfl), ?_⟩
    have hrest := ih (w := w ++ [a]) (by rwa [List.append_assoc])
    rw [List.length_append, List.append_assoc] at hrest
    exact hrest

/-- What is read from the loop on: a word, as long as it goes, and the rest from there. -/
theorem scan_eq_some (h : Loops f C p g) (hnil : g [] = s) : scan f l p s = some t ↔
    ∃ w rest, l = w ++ rest ∧ Follows C w ∧ (∀ a ∈ rest.head?, C w a = false) ∧ scan f rest (p + w.length) (g w) = some t := by
  constructor
  · suffices hgen : ∀ w, Follows C w → scan f l (p + w.length) (g w) = some t → ∃ w' rest, l = w' ++ rest ∧ Follows C (w ++ w') ∧
        (∀ a ∈ rest.head?, C (w ++ w') a = false) ∧ scan f rest (p + (w ++ w').length) (g (w ++ w')) = some t by
      intro ht
      exact hgen [] follows_nil (by rw [hnil]; exact ht)
    intro w hw ht
    induction l generalizing w with
    | nil =>
      refine ⟨[], [], rfl, by rwa [List.append_nil], nofun, ?_⟩
      rw [List.append_nil]
      exact ht
    | cons a l ih =>
      cases hC : C w a with
      | false =>
        refine ⟨[], a :: l, rfl, by rwa [List.append_nil], ?_⟩
        rw [List.append_nil]
        refine ⟨fun b hb => ?_, ht⟩
        cases hb
        exact hC
      | true =>
        obtain ⟨u, hu, hl⟩ := scan_cons_eq_some.1 ht
        rw [h w a hC] at hu
        cases hu
        have hlen : p + w.length + 1 = p + (w ++ [a]).length := by rw [List.length_append]; rfl
        rw [hlen] at hl
        obtain ⟨w', rest, rfl, hrest⟩ := ih (w ++ [a]) (follows_snoc.2 ⟨hw, hC⟩) hl
        rw [List.append_assoc] at hrest
        exact ⟨a :: w', rest, rfl, hrest⟩
  · rintro ⟨w, rest, rfl, hw, -, ht⟩
    have hword := h.scan_word (w := []) hw
    rw [hnil, List.nil_append] at hword
    exact scan_append_eq_some.2 ⟨g w, hword, ht⟩

/-- A loop that nothing leads out of -/
theorem scan_last (h : Loops f C p g) (hnil : g [] = s) (hend : ∀ w a, C w a = false → f (p + w.length) a (g w) = none) :
    scan f l p s = some t ↔ Follows C l ∧ g l = t := by
  rw [h.scan_eq_some hnil]
  constructor
  · rintro ⟨w, rest, rfl, hw, hrest, ht⟩
    cases rest with
    | nil =>
      rw [List.append_nil]
      exact ⟨hw, Option.some.inj ht⟩
    | cons a rest =>
      obtain ⟨u, hu, -⟩ := scan_cons_eq_some.1 ht
      rw [hend w a (hrest a rfl)] at hu
      cases hu
  · rintro ⟨hl, rfl⟩
    exact ⟨l, [], (List.append_nil l).symm, hl, nofun, rfl⟩

end Loops
end Lts
