import Mathlib.Data.List.Infix
import Mathlib.Data.Nat.Find

/-!
# Texts and the pieces between the occurrences of a word

The leftmost occurrence of a word `d` cuts a text in two. Going on behind it, the occurrences that do not overlap
cut the text into its pieces, and `d` between the pieces gives the text again. `Settles` is about replacing the
occurrences one after the other, by looking each time for the leftmost one in the text so far: that finds the
next one of the first text, or one whose replacement makes no difference, and nothing in the end.
-/

universe u

namespace List

variable {α : Type u} {d r s t u v w : List α} {us vs : List (List α)}

/-- `s` is `u`, the leftmost `d` in it, and `t`. -/
structure Leftmost (d s u t : List α) : Prop where
  eq : s = u ++ d ++ t
  le : ∀ u' t', s = u' ++ d ++ t' → u.length ≤ u'.length

/-- `us` are the pieces of `s` between the leftmost occurrences of `d` that do not overlap. -/
inductive Pieces (d : List α) : List α → List (List α) → Prop
  | last {s : List α} (h : ¬ d <:+: s) : Pieces d s [s]
  | cons {s u t : List α} {us : List (List α)} (h : Leftmost d s u t) (ht : Pieces d t us) : Pieces d s (u :: us)

/-- `d` is replaced by `r` in front of each of the pieces `us`, the first first; `done` is in front of them. -/
def Settles (d r : List α) : List α → List (List α) → Prop
  | done, [] => ¬ d <:+: done
  | done, u :: us =>
    (∃ v w, Leftmost d (d.intercalate (done :: u :: us)) v w ∧ v ++ r ++ w = d.intercalate ((done ++ r ++ u) :: us)) ∧
      Settles d r (done ++ r ++ u) us

/-- What is in front of the first word belongs to the first piece. -/
theorem intercalate_cons_append (d u v : List α) (us : List (List α)) : d.intercalate ((u ++ v) :: us) = u ++ d.intercalate (v :: us) := by
  cases us with
  | nil => rw [intercalate_singleton, intercalate_singleton]
  | cons w us => rw [intercalate_cons_cons, intercalate_cons_cons, append_assoc, append_assoc, append_assoc]

theorem intercalate_step (d u v : List α) (us : List (List α)) : d.intercalate (u :: v :: us) = d.intercalate ((u ++ d ++ v) :: us) := by
  rw [intercalate_cons_cons, intercalate_cons_append]

theorem mem_intercalate {a : α} (h : a ∈ d.intercalate us) : a ∈ d ∨ ∃ u ∈ us, a ∈ u := by
  induction us with
  | nil => exact absurd h not_mem_nil
  | cons u us ih =>
    cases us with
    | nil =>
      rw [intercalate_singleton] at h
      exact .inr ⟨u, mem_singleton_self u, h⟩
    | cons v us =>
      rw [intercalate_cons_cons, append_assoc, mem_append, mem_append] at h
      rcases h with h | h | h
      · exact .inr ⟨u, mem_cons_self, h⟩
      · exact .inl h
      · obtain hd | ⟨w, hw, ha⟩ := ih h
        · exact .inl hd
        · exact .inr ⟨w, mem_cons_of_mem u hw, ha⟩

/-! ### The leftmost occurrence -/

theorem exists_leftmost (h : d <:+: s) : ∃ u t, Leftmost d s u t := by
  have hlen : ∃ n u t, u.length = n ∧ s = u ++ d ++ t := by
    obtain ⟨u, t, hs⟩ := h
    exact ⟨u.length, u, t, rfl, hs.symm⟩
  classical
  obtain ⟨u, t, hu, hs⟩ := Nat.find_spec hlen
  refine ⟨u, t, hs, fun u' t' hs' => ?_⟩
  rw [hu]
  exact Nat.find_min' hlen ⟨u', t', rfl, hs'⟩

theorem Leftmost.isInfix (h : Leftmost d s u t) : d <:+: s := ⟨u, t, h.eq.symm⟩

theorem Leftmost.unique (h : Leftmost d s u t) (h' : Leftmost d s v w) : u = v ∧ t = w := by
  have hlen : u.length = v.length := Nat.le_antisymm (h.le v w h'.eq) (h'.le u t h.eq)
  have heq := h.eq.symm.trans h'.eq
  rw [append_assoc, append_assoc] at heq
  obtain ⟨hu, ht⟩ := append_inj heq hlen
  exact ⟨hu, append_cancel_left ht⟩

theorem Leftmost.not_isInfix (h : Leftmost d s u t) (hd : d ≠ []) : ¬ d <:+: u := by
  rintro ⟨v, w, rfl⟩
  have hle := h.le v (w ++ d ++ t) (by rw [h.eq]; simp only [append_assoc])
  have hpos := length_pos_iff.mpr hd
  simp only [length_append] at hle
  omega

/-! ### The pieces -/

theorem exists_pieces (hd : d ≠ []) (s : List α) : ∃ us, Pieces d s us := by
  by_cases h : d <:+: s
  · obtain ⟨u, t, hleft⟩ := exists_leftmost h
    have hlt : t.length < s.length := by
      have hpos := length_pos_iff.mpr hd
      rw [hleft.eq]
      simp only [length_append]
      omega
    obtain ⟨us, hus⟩ := exists_pieces hd t
    exact ⟨u :: us, .cons hleft hus⟩
  · exact ⟨[s], .last h⟩
termination_by s.length

namespace Pieces

theorem unique (h : Pieces d s us) (h' : Pieces d s vs) : us = vs := by
  induction h generalizing vs with
  | last hs =>
    cases h' with
    | last => rfl
    | cons hleft => exact absurd hleft.isInfix hs
  | cons hleft _ ih =>
    cases h' with
    | last hs => exact absurd hleft.isInfix hs
    | cons hleft' ht' =>
      obtain ⟨rfl, rfl⟩ := hleft.unique hleft'
      rw [ih ht']

theorem ne_nil (h : Pieces d s us) : us ≠ [] := by
  cases h <;> exact cons_ne_nil _ _

theorem intercalate_eq (h : Pieces d s us) : d.intercalate us = s := by
  induction h with
  | last => exact intercalate_singleton
  | @cons s u t us hleft ht ih =>
    obtain ⟨v, vs, rfl⟩ := exists_cons_of_ne_nil ht.ne_nil
    rw [intercalate_cons_cons, ih, hleft.eq]

theorem not_isInfix (h : Pieces d s us) (hd : d ≠ []) : ∀ u ∈ us, ¬ d <:+: u := by
  induction h with
  | last hs => exact forall_mem_cons.mpr ⟨hs, nofun⟩
  | cons hleft _ ih => exact forall_mem_cons.mpr ⟨hleft.not_isInfix hd, ih⟩

theorem length_eq_one (h : Pieces d s us) : us.length = 1 ↔ ¬ d <:+: s := by
  cases h with
  | last hs => exact ⟨fun _ => hs, fun _ => rfl⟩
  | cons hleft ht =>
    have hpos := length_pos_iff.mpr ht.ne_nil
    refine ⟨fun h => ?_, fun hs => absurd hleft.isInfix hs⟩
    rw [length_cons] at h
    omega

/-- The next occurrence of the text is behind its first piece. -/
theorem leftmost (h : Pieces d s (u :: v :: us)) : Leftmost d (d.intercalate (u :: v :: us)) u (d.intercalate (v :: us)) := by
  cases h with
  | cons hleft ht =>
    rw [intercalate_cons_cons, ht.intercalate_eq, ← hleft.eq]
    exact hleft

end Pieces

/-- Pieces without `c` are the pieces of the text they make with `c` between them. -/
theorem pieces_intercalate {c : α} (hne : us ≠ []) (hc : ∀ u ∈ us, c ∉ u) : Pieces [c] ([c].intercalate us) us := by
  induction us with
  | nil => exact absurd rfl hne
  | cons u us ih =>
    obtain ⟨hu, hus⟩ := forall_mem_cons.mp hc
    cases us with
    | nil =>
      rw [intercalate_singleton]
      exact .last fun h => hu (h.subset (mem_singleton_self c))
    | cons v us =>
      rw [intercalate_cons_cons]
      refine .cons ⟨rfl, fun u' t' heq => ?_⟩ (ih (cons_ne_nil v us) hus)
      by_contra hlt
      -- the shorter text in front of `c` would end inside `u`
      have htake : u' ++ [c] <+: u := by
        have hpre : u' ++ [c] <+: u ++ [c] ++ [c].intercalate (v :: us) := ⟨t', heq.symm⟩
        rw [append_assoc] at hpre
        refine prefix_of_prefix_length_le hpre (prefix_append _ _) ?_
        rw [length_append, length_singleton]
        omega
      exact hu (htake.subset (by simp))

/-! ### Replacing -/

theorem length_intercalate_le (h : d.length ≤ r.length) (us : List (List α)) : (d.intercalate us).length ≤ (r.intercalate us).length := by
  induction us with
  | nil => exact Nat.le_refl _
  | cons u us ih =>
    cases us with
    | nil => rw [intercalate_singleton, intercalate_singleton]
    | cons v us =>
      rw [intercalate_cons_cons, intercalate_cons_cons]
      simp only [length_append] at ih ⊢
      omega

/-- A word that is not longer makes no text longer. -/
theorem length_replace_le (h : r.length ≤ d.length) (u v : List α) (us : List (List α)) :
    (d.intercalate ((u ++ r ++ v) :: us)).length ≤ (d.intercalate (u :: v :: us)).length := by
  rw [intercalate_cons_cons, intercalate_cons_append]
  simp only [length_append]
  omega

theorem append_intercalate (u r v : List α) (us : List (List α)) : u ++ r ++ d.intercalate (v :: us) = d.intercalate ((u ++ r ++ v) :: us) :=
  (intercalate_cons_append d (u ++ r) v us).symm

end List
