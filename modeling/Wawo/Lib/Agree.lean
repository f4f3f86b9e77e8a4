import Wawo.Lib.Run

/-!
# Computations that agree

Two fallible computations agree when both give related results or both fail with the same fault.
Machines whose steps agree have the same runs, so that what is proved of one, or evaluated with it,
holds of the other.
-/

universe u v w

namespace Lts

/-- Related results, or the same fault -/
def Agree {σ : Type u} {τ : Type v} {φ : Type w} (R : σ → τ → Prop) : Except φ σ → Except φ τ → Prop
  | .ok s, .ok t => R s t
  | .error e, .error e' => e = e'
  | _, _ => False

namespace Agree

variable {σ σ' : Type u} {τ τ' : Type v} {φ : Type w} {R : σ → τ → Prop} {R' : σ' → τ' → Prop} {x : Except φ σ} {y : Except φ τ}

theorem error (e : φ) : Agree R (.error e : Except φ σ) (.error e) := rfl

theorem bind {k : σ → Except φ σ'} {k' : τ → Except φ τ'} (hx : Agree R x y) (hk : ∀ s t, R s t → Agree R' (k s) (k' t)) :
    Agree R' (x >>= k) (y >>= k') := by
  cases x with
  | ok s =>
    cases y with
    | ok t => exact hk s t hx
    | error e => exact hx.elim
  | error e =>
    cases y with
    | ok t => exact hx.elim
    | error e' => exact hx

theorem symm (hx : Agree R x y) : Agree (fun t s => R s t) y x := by
  cases x with
  | ok s =>
    cases y with
    | ok t => exact hx
    | error e => exact hx
  | error e =>
    cases y with
    | ok t => exact hx
    | error e' => exact Eq.symm hx

theorem exists_ok {s : σ} (hx : Agree R x y) (h : x = .ok s) : ∃ t, y = .ok t ∧ R s t := by
  rw [h] at hx
  cases y with
  | ok t => exact ⟨t, rfl, hx⟩
  | error e => exact hx.elim

theorem eq_error {e : φ} (hx : Agree R x y) (h : y = .error e) : x = .error e := by
  rw [h] at hx
  cases x with
  | ok s => exact hx.elim
  | error e' => exact congrArg _ hx

/-- Both sides take the same branch. -/
theorem ite {p q : Prop} [Decidable p] [Decidable q] {x' : Except φ σ} {y' : Except φ τ} (hpq : p ↔ q) (hx : p → q → Agree R x y) (hx' : ¬ p → ¬ q → Agree R x' y') :
    Agree R (if p then x else x') (if q then y else y') := by
  by_cases hp : p
  · rw [if_pos hp, if_pos (hpq.mp hp)]
    exact hx hp (hpq.mp hp)
  · rw [if_neg hp, if_neg fun hq => hp (hpq.mpr hq)]
    exact hx' hp fun hq => hp (hpq.mpr hq)

theorem loopWhile {cond : σ → Bool} {cond' : τ → Bool} {body : σ → Except φ σ} {body' : τ → Except φ τ} {out : φ}
    (hcond : ∀ s t, R s t → cond s = cond' t) (hbody : ∀ s t, R s t → Agree R (body s) (body' t)) (n : Nat) {s : σ} {t : τ}
    (hR : R s t) : Agree R (loopWhile cond body out n s) (Lts.loopWhile cond' body' out n t) := by
  induction n generalizing s t with
  | zero => exact .ite (by rw [hcond s t hR]) (fun _ _ => rfl) fun _ _ => hR
  | succ n ih => exact .ite (by rw [hcond s t hR]) (fun _ _ => (hbody s t hR).bind fun s t h => ih h) fun _ _ => hR

variable {ε : Type*} {f : ε → σ → Except φ σ} {g : ε → τ → Except φ τ} {es : List ε} {s : σ} {t : τ}

/-- A run of one machine is one of the other, with any condition the other's steps then meet. -/
theorem run {C : σ → ε → Prop} {D : τ → ε → Prop} (hstep : ∀ e s t, R s t → Agree R (f e s) (g e t))
    (hC : ∀ e s t, R s t → C s e → D t e) (hR : R s t) {s' : σ} (h : Run f C s es s') : ∃ t', Run g D t es t' ∧ R s' t' := by
  induction h generalizing t with
  | nil => exact ⟨t, .nil t, hR⟩
  | cons hc hf _ ih =>
    obtain ⟨t₁, hg, hR₁⟩ := (hstep _ _ _ hR).exists_ok hf
    obtain ⟨t', hrun, hR'⟩ := ih hR₁
    exact ⟨t', .cons (hC _ _ _ hR hc) hg hrun, hR'⟩

end Agree
end Lts
