import Wawo.Lib.Run

/-!
# Machines with outputs

A machine `f` takes an event to an output and a next state, or fails; a specification `g` always
answers. `f` refines `g` when a relation between their states is kept by every step and the outputs
are the same: step by step (`outputs_of_step`), hence for every sequence of events.
-/

universe u v w

namespace Lts

variable {σ τ : Type u} {ε : Type v} {ω φ : Type u}

/-- The outputs of the events, one after the other, and the last state. -/
def outputs (f : ε → σ → Except φ (ω × σ)) : List ε → σ → Except φ (List ω × σ)
  | [], s => .ok ([], s)
  | e :: es, s => do
    let (o, s) ← f e s
    let (os, s) ← outputs f es s
    return (o :: os, s)

/-- The outputs a specification gives. -/
def answers (g : ε → τ → ω × τ) : List ε → τ → List ω × τ
  | [], t => ([], t)
  | e :: es, t => ((g e t).1 :: (answers g es (g e t).2).1, (answers g es (g e t).2).2)

/-- Every event meets its precondition where the specification has got to. -/
def Allowed (P : ε → τ → Prop) (g : ε → τ → ω × τ) : List ε → τ → Prop
  | [], _ => True
  | e :: es, t => P e t ∧ Allowed P g es (g e t).2

instance decidableAllowed {P : ε → τ → Prop} [∀ e t, Decidable (P e t)] {g : ε → τ → ω × τ} :
    (es : List ε) → (t : τ) → Decidable (Allowed P g es t)
  | [], _ => .isTrue trivial
  | e :: es, t =>
    have := decidableAllowed (P := P) (g := g) es (g e t).2
    inferInstanceAs (Decidable (P e t ∧ Allowed P g es (g e t).2))

variable {f : ε → σ → Except φ (ω × σ)} {g : ε → τ → ω × τ} {R : σ → τ → Prop} {P : ε → τ → Prop} {es : List ε} {s : σ} {t : τ}

theorem outputs_cons {e : ε} {os : List ω} {s' : σ} :
    outputs f (e :: es) s = .ok (os, s') ↔
      ∃ o s₁ os', f e s = .ok (o, s₁) ∧ outputs f es s₁ = .ok (os', s') ∧ os = o :: os' := by
  constructor
  · intro h
    obtain ⟨⟨o, s₁⟩, hf, h⟩ := bind_eq_ok.mp h
    obtain ⟨⟨os', s₂⟩, hos, h⟩ := bind_eq_ok.mp h
    cases h
    exact ⟨o, s₁, os', hf, hos, rfl⟩
  · rintro ⟨o, s₁, os', hf, hos, rfl⟩
    rw [outputs, hf, ok_bind]
    dsimp only
    rw [hos, ok_bind]
    rfl

/-- Total refinement: if every allowed step succeeds with the output the specification gives, so do
all allowed sequences. -/
theorem outputs_of_step (hstep : ∀ e s t, R s t → P e t → ∃ s', f e s = .ok ((g e t).1, s') ∧ R s' (g e t).2)
    (hR : R s t) (hP : Allowed P g es t) :
    ∃ s', outputs f es s = .ok ((answers g es t).1, s') ∧ R s' (answers g es t).2 := by
  induction es generalizing s t with
  | nil => exact ⟨s, rfl, hR⟩
  | cons e es ih =>
    obtain ⟨s₁, hf, hR₁⟩ := hstep e s t hR hP.1
    obtain ⟨s', hos, hR'⟩ := ih hR₁ hP.2
    exact ⟨s', outputs_cons.mpr ⟨_, _, _, hf, hos, rfl⟩, hR'⟩

/-- Partial refinement: if every step that succeeds gives the output of the specification, so does
every sequence that succeeds. -/
theorem outputs_eq (hstep : ∀ e s t o s', R s t → f e s = .ok (o, s') → o = (g e t).1 ∧ R s' (g e t).2)
    (hR : R s t) {os : List ω} {s' : σ} (h : outputs f es s = .ok (os, s')) :
    os = (answers g es t).1 ∧ R s' (answers g es t).2 := by
  induction es generalizing s t os with
  | nil => cases h; exact ⟨rfl, hR⟩
  | cons e es ih =>
    obtain ⟨o, s₁, os', hf, hos, rfl⟩ := outputs_cons.mp h
    obtain ⟨rfl, hR₁⟩ := hstep e s t o s₁ hR hf
    obtain ⟨rfl, hR'⟩ := ih hR₁ hos
    exact ⟨rfl, hR'⟩

/-- What every answer keeps holds of the last state. -/
theorem answers_inv {I : τ → Prop} (hg : ∀ e t, I t → I (g e t).2) (ht : I t) : I (answers g es t).2 := by
  induction es generalizing t with
  | nil => exact ht
  | cons e es ih => exact ih (hg e t ht)

end Lts
