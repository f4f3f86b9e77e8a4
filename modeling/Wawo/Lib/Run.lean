import Mathlib.Logic.Relation

/-!
# Runs of a fallible step function

`Run f C s es t`: the events `es` lead from `s` to `t`, no step of `f` fails, and every step meets
the side condition `C`. `Simulates` relates one fallible computation to the steps of a relation on
an abstract state: a result is reached by steps, a fault is one the reached state allows.
-/

universe u v w

namespace Lts

/-- The events `es` lead from `s` to the last state; each step succeeds and meets `C`. -/
inductive Run {σ : Type u} {ε : Type v} {φ : Type w} (f : ε → σ → Except φ σ)
    (C : σ → ε → Prop) : σ → List ε → σ → Prop
  | nil (s : σ) : Run f C s [] s
  | cons {s t u : σ} {e : ε} {es : List ε} (hC : C s e) (hf : f e s = .ok t)
      (h : Run f C t es u) : Run f C s (e :: es) u

/-- Run the events one after the other, stopping at the first fault. -/
def exec {σ : Type u} {ε : Type v} {φ : Type w} (f : ε → σ → Except φ σ) : List ε → σ → Except φ σ
  | [], s => .ok s
  | e :: es, s =>
    match f e s with
    | .ok t => exec f es t
    | .error err => .error err

theorem exec_cons {σ : Type u} {ε : Type v} {φ : Type w} {f : ε → σ → Except φ σ} {e : ε} {s t : σ} (h : f e s = .ok t) (es : List ε) :
    exec f (e :: es) s = exec f es t := by
  rw [exec, h]

theorem exec_singleton {σ : Type u} {ε : Type v} {φ : Type w} {f : ε → σ → Except φ σ} (e : ε) (s : σ) : exec f [e] s = f e s := by
  rw [exec]
  cases f e s <;> rfl

theorem exec_append {σ : Type u} {ε : Type v} {φ : Type w} {f : ε → σ → Except φ σ} {es es' : List ε} {s t : σ} (h : exec f es s = .ok t) :
    exec f (es ++ es') s = exec f es' t := by
  induction es generalizing s with
  | nil =>
    cases h
    rfl
  | cons e es ih =>
    rw [exec] at h
    split at h
    case h_1 u hu =>
      rw [List.cons_append, exec_cons hu]
      exact ih h
    case h_2 => cases h

theorem exec_cons_eq_ok {σ : Type u} {ε : Type v} {φ : Type w} {f : ε → σ → Except φ σ} {e : ε} {es : List ε} {s t : σ} :
    exec f (e :: es) s = .ok t ↔ ∃ u, f e s = .ok u ∧ exec f es u = .ok t := by
  rw [exec]
  cases f e s <;> simp

theorem exec_append_eq_ok {σ : Type u} {ε : Type v} {φ : Type w} {f : ε → σ → Except φ σ} {es es' : List ε} {s t : σ} :
    exec f (es ++ es') s = .ok t ↔ ∃ u, exec f es s = .ok u ∧ exec f es' u = .ok t := by
  induction es generalizing s with
  | nil => simp [exec]
  | cons e es ih =>
    rw [List.cons_append, exec_cons_eq_ok]
    simp only [exec_cons_eq_ok, ih]
    exact ⟨fun ⟨u, hu, v, hv, ht⟩ => ⟨v, ⟨u, hu, hv⟩, ht⟩, fun ⟨v, ⟨u, hu, hv⟩, ht⟩ => ⟨u, hu, v, hv, ht⟩⟩

/-- No event fails, and the last state satisfies `P`. -/
def reaches {σ : Type u} {ε : Type v} {φ : Type w} (f : ε → σ → Except φ σ) (P : σ → Bool) (es : List ε) (s : σ) : Bool :=
  match exec f es s with
  | .ok t => P t
  | .error _ => false

/-- Every event meets the condition in the state it happens in. -/
def meets {σ : Type u} {ε : Type v} {φ : Type w} (f : ε → σ → Except φ σ) (P : σ → ε → Bool) : List ε → σ → Bool
  | [], _ => true
  | e :: es, s =>
    P s e &&
      match f e s with
      | .ok t => meets f P es t
      | .error _ => true

/-- `meets` and `reaches` at once: no step is taken twice. -/
def passes {σ : Type u} {ε : Type v} {φ : Type w} (f : ε → σ → Except φ σ) (P : σ → ε → Bool) (Q : σ → Bool) :
    List ε → σ → Bool
  | [], s => Q s
  | e :: es, s =>
    P s e &&
      match f e s with
      | .ok t => passes f P Q es t
      | .error _ => false

namespace Run

variable {σ : Type u} {ε : Type v} {φ : Type w} {f : ε → σ → Except φ σ} {C C' : σ → ε → Prop}
  {s t u : σ} {es es' : List ε} {e : ε}

theorem mono (hC : ∀ s e, C s e → C' s e) (h : Run f C s es t) : Run f C' s es t := by
  induction h with
  | nil => exact .nil _
  | cons hc hf _ ih => exact .cons (hC _ _ hc) hf ih

theorem append (h : Run f C s es t) (h' : Run f C t es' u) : Run f C s (es ++ es') u := by
  induction h with
  | nil => exact h'
  | cons hc hf _ ih => exact .cons hc hf (ih h')

/-- What holds initially and is kept by every step that meets `C` holds after the run. -/
theorem inv (I : σ → Prop) (hstep : ∀ s e t, I s → C s e → f e s = .ok t → I t)
    (h : Run f C s es t) (hs : I s) : I t := by
  induction h with
  | nil => exact hs
  | cons hc hf _ ih => exact ih (hstep _ _ _ hs hc hf)

/-- `inv` for what depends on the events that have led to the state, too. -/
theorem inv_trace (I : List ε → σ → Prop) (hstep : ∀ es s e t, I es s → C s e → f e s = .ok t → Run f C u es s → I (es ++ [e]) t)
    (h : Run f C u es t) (hu : I [] u) : I es t := by
  suffices hgen : ∀ {es₁ s₁ es₂ t}, Run f C u es₁ s₁ → I es₁ s₁ → Run f C s₁ es₂ t → I (es₁ ++ es₂) t from hgen (.nil u) hu h
  intro es₁ s₁ es₂ t hpre hI h
  induction h generalizing es₁ with
  | nil =>
    rw [List.append_nil]
    exact hI
  | cons hc hf _ ih =>
    have := ih (hpre.append (.cons hc hf (.nil _))) (hstep _ _ _ _ hI hc hf hpre)
    rwa [List.append_assoc] at this

/-- If every step that meets `C` from a state of `I` meets `D`, and `I` holds wherever the run has got
to, then all its steps meet `D`. -/
theorem strengthen {D : σ → ε → Prop} {I : σ → Prop} (hI : ∀ {es t}, Run f C s es t → I t)
    (hD : ∀ {s e}, I s → C s e → D s e) (h : Run f C s es t) : Run f D s es t := by
  suffices hgen : ∀ {es₁ s₁ es₂ t}, Run f C s es₁ s₁ → Run f C s₁ es₂ t → Run f D s₁ es₂ t from hgen (.nil s) h
  intro es₁ s₁ es₂ t hpre h
  induction h generalizing es₁ with
  | nil => exact .nil _
  | cons hc hf _ ih => exact .cons (hD (hI hpre) hc) hf (ih (hpre.append (.cons hc hf (.nil _))))

theorem of_meets {P : σ → ε → Bool} (h : Run f C s es t) (hP : meets f P es s = true) :
    Run f (fun s e => P s e = true) s es t := by
  induction h with
  | nil => exact .nil _
  | cons _ hf _ ih =>
    unfold meets at hP
    rw [hf, Bool.and_eq_true] at hP
    exact .cons hP.1 hf (ih hP.2)

theorem of_exec (hC : ∀ s e, C s e) (h : exec f es s = .ok t) : Run f C s es t := by
  induction es generalizing s with
  | nil => cases h; exact .nil _
  | cons e es ih =>
    unfold exec at h
    split at h
    · rename_i t' ht; exact .cons (hC _ _) ht (ih h)
    · cases h

theorem of_reaches (es : List ε) (s : σ) {P : σ → Bool} (h : reaches f P es s = true) : ∃ t, Run f (fun _ _ => True) s es t ∧ P t = true := by
  unfold reaches at h
  cases he : exec f es s with
  | error e => rw [he] at h; cases h
  | ok t => rw [he] at h; exact ⟨t, of_exec (fun _ _ => trivial) he, h⟩

theorem of_checks {P : σ → ε → Bool} {Q : σ → Bool} (h : (meets f P es s && reaches f Q es s) = true) :
    ∃ t, Run f (fun s e => P s e = true) s es t ∧ Q t = true := by
  rw [Bool.and_eq_true] at h
  obtain ⟨t, hrun, ht⟩ := of_reaches es s h.2
  exact ⟨t, hrun.of_meets h.1, ht⟩

theorem exec_eq (h : Run f C s es t) : exec f es s = .ok t := by
  induction h with
  | nil => rfl
  | cons _ hf _ ih => exact (exec_cons hf _).trans ih

theorem of_passes {P : σ → ε → Bool} {Q : σ → Bool} (es : List ε) (h : passes f P Q es s = true) :
    ∃ t, Run f (fun s e => P s e = true) s es t ∧ Q t = true := by
  induction es generalizing s with
  | nil => exact ⟨s, .nil s, h⟩
  | cons e es ih =>
    unfold passes at h
    rw [Bool.and_eq_true] at h
    obtain ⟨hP, h⟩ := h
    cases hf : f e s with
    | error err => rw [hf] at h; cases h
    | ok u =>
      rw [hf] at h
      obtain ⟨t, hrun, ht⟩ := ih h
      exact ⟨t, .cons hP hf hrun, ht⟩

/-- `of_passes` for decidable conditions. -/
theorem of_decide (es : List ε) {P : σ → ε → Prop} [∀ s e, Decidable (P s e)] {Q : σ → Prop} [DecidablePred Q]
    (h : passes f (fun s e => decide (P s e)) (fun s => decide (Q s)) es s = true) : ∃ t, Run f P s es t ∧ Q t := by
  obtain ⟨t, hrun, ht⟩ := of_passes es h
  exact ⟨t, hrun.mono fun _ _ h => of_decide_eq_true h, of_decide_eq_true ht⟩

end Run

/-- A fallible computation that succeeds went through its first part. -/
theorem bind_eq_ok {α : Type u} {β : Type u} {φ : Type w} {x : Except φ α} {k : α → Except φ β} {b : β} :
    x >>= k = .ok b ↔ ∃ a, x = .ok a ∧ k a = .ok b := by
  cases x with
  | ok a => exact ⟨fun h => ⟨a, rfl, h⟩, fun ⟨a', ha, h⟩ => by cases ha; exact h⟩
  | error e => exact ⟨nofun, fun ⟨_, ha, _⟩ => nomatch ha⟩

@[simp] theorem ok_bind {α β : Type u} {φ : Type w} (a : α) (k : α → Except φ β) : ((.ok a : Except φ α) >>= k) = k a := rfl

theorem pure_eq_ok {α : Type u} {φ : Type w} (a : α) : (pure a : Except φ α) = .ok a := rfl

theorem map_eq_ok {α β : Type*} {φ : Type w} {x : Except φ α} {k : α → β} {b : β} :
    x.map k = .ok b ↔ ∃ a, x = .ok a ∧ k a = b := by
  cases x with
  | ok a => exact ⟨fun h => ⟨a, rfl, by cases h; rfl⟩, fun ⟨a', ha, h⟩ => by cases ha; rw [← h]; rfl⟩
  | error e => exact ⟨nofun, fun ⟨_, ha, _⟩ => nomatch ha⟩

/-- The fault of a computation, for evaluation. -/
def fault? {σ : Type v} {φ : Type w} : Except φ σ → Option φ
  | .ok _ => none
  | .error e => some e

theorem fault?_eq_some {σ : Type v} {φ : Type w} {x : Except φ σ} {e : φ} : fault? x = some e ↔ x = .error e := by
  cases x <;> simp [fault?]

/-- What every round of a fallible loop keeps holds of its result. -/
theorem foldlM_inv {σ : Type u} {α : Type v} {φ : Type w} {f : σ → α → Except φ σ} {l : List α} {s t : σ}
    (I : σ → Prop) (hf : ∀ a ∈ l, ∀ s t, I s → f s a = .ok t → I t) (h : l.foldlM f s = .ok t) (hs : I s) :
    I t := by
  induction l generalizing s with
  | nil => cases h; exact hs
  | cons a l ih =>
    rw [List.foldlM_cons] at h
    cases ha : f s a with
    | error e => rw [ha] at h; cases h
    | ok s' =>
      rw [ha] at h
      exact ih (fun b hb => hf b (by simp [hb])) h (hf a (by simp) _ _ hs ha)

/-- A fallible loop one of whose rounds fails, and whose rounds fail in one way only, fails in that way. -/
theorem foldlM_error {σ : Type u} {α : Type v} {φ : Type w} {f : σ → α → Except φ σ} {l : List α} {s : σ} {a : α} {err : φ}
    (I : σ → Prop) (hf : ∀ b ∈ l, ∀ s, I s → f s b = .error err ∨ ∃ t, f s b = .ok t ∧ I t) (ha : a ∈ l)
    (hfail : ∀ s, I s → f s a = .error err) (hs : I s) : l.foldlM f s = .error err := by
  induction l generalizing s with
  | nil => cases ha
  | cons b l ih =>
    rw [List.foldlM_cons]
    rcases hf b List.mem_cons_self s hs with h | ⟨t, h, ht⟩
    · rw [h]
      rfl
    · rw [h]
      rcases List.mem_cons.mp ha with rfl | hmem
      · rw [hfail s hs] at h
        cases h
      · exact ih (fun c hc => hf c (List.mem_cons_of_mem b hc)) hmem ht

/-- A result satisfies `Q`, a fault satisfies `E`. -/
def Ensures {σ : Type v} {φ : Type w} (Q : σ → Prop) (E : φ → Prop) : Except φ σ → Prop
  | .ok s => Q s
  | .error e => E e

namespace Ensures

variable {σ τ : Type v} {φ : Type w} {Q Q' : σ → Prop} {R : τ → Prop} {E : φ → Prop}

theorem bind {x : Except φ σ} {k : σ → Except φ τ} (hx : Ensures Q E x) (hk : ∀ s, Q s → Ensures R E (k s)) :
    Ensures R E (x >>= k) := by
  cases x with
  | ok s => exact hk s hx
  | error e => exact hx

theorem map {k : σ → τ} {x : Except φ σ} (hx : Ensures Q E x) (hk : ∀ s, Q s → R (k s)) : Ensures R E (x.map k) := by
  cases x with
  | ok s => exact hk s hx
  | error e => exact hx

theorem mono {x : Except φ σ} (hx : Ensures Q E x) (hQ : ∀ s, Q s → Q' s) : Ensures Q' E x := by
  cases x with
  | ok s => exact hQ s hx
  | error e => exact hx

theorem mono_error {E' : φ → Prop} {x : Except φ σ} (hx : Ensures Q E x) (hE : ∀ e, E e → E' e) : Ensures Q E' x := by
  cases x with
  | ok s => exact hx
  | error e => exact hE e hx

theorem of_eq_ok {x : Except φ σ} {s : σ} (hx : Ensures Q E x) (h : x = .ok s) : Q s := by
  rw [h] at hx
  exact hx

theorem ok_or_error {x : Except φ σ} (hx : Ensures Q E x) : (∃ s, x = .ok s ∧ Q s) ∨ ∃ e, x = .error e ∧ E e := by
  cases x with
  | ok s => exact .inl ⟨s, rfl, hx⟩
  | error e => exact .inr ⟨e, rfl, hx⟩

theorem exists_ok {x : Except φ σ} (hx : Ensures Q (fun _ => False) x) : ∃ s, x = .ok s ∧ Q s := by
  cases x with
  | ok s => exact ⟨s, rfl, hx⟩
  | error e => exact hx.elim

end Ensures

/-- `while (cond) body`, for at most `n` rounds. -/
def loopWhile {σ : Type u} {φ : Type w} (cond : σ → Bool) (body : σ → Except φ σ) (out : φ) : Nat → σ → Except φ σ
  | 0, s => if cond s then .error out else .ok s
  | n + 1, s => if cond s then body s >>= loopWhile cond body out n else .ok s

theorem loopWhile_done {σ : Type u} {φ : Type w} {cond : σ → Bool} {body : σ → Except φ σ} {out : φ} {s : σ} (h : cond s = false) (n : Nat) :
    loopWhile cond body out n s = .ok s := by
  cases n <;> rw [loopWhile, h] <;> rfl

theorem loopWhile_next {σ : Type u} {φ : Type w} {cond : σ → Bool} {body : σ → Except φ σ} {out : φ} {s t : σ} (h : cond s = true)
    (hbody : body s = .ok t) (n : Nat) : loopWhile cond body out (n + 1) s = loopWhile cond body out n t := by
  rw [loopWhile, if_pos h, hbody, ok_bind]

/-- What every round keeps holds where a loop ends. -/
theorem loopWhile_inv {σ : Type u} {φ : Type w} {cond : σ → Bool} {body : σ → Except φ σ} {out : φ} {n : Nat} {s t : σ}
    (I : σ → Prop) (hI : ∀ s t, I s → body s = .ok t → I t) (h : loopWhile cond body out n s = .ok t) (hs : I s) : I t := by
  induction n generalizing s with
  | zero =>
    unfold loopWhile at h
    split at h
    · cases h
    · cases h
      exact hs
  | succ n ih =>
    unfold loopWhile at h
    split at h
    · obtain ⟨s', hs', h⟩ := bind_eq_ok.mp h
      exact ih h (hI s s' hs hs')
    · cases h
      exact hs

/-- A loop whose rounds make a bound smaller ends before its rounds run out: what every round keeps holds
when the condition no longer does, and a fault is a fault of a round. -/
theorem loopWhile_ensures {σ : Type u} {φ : Type w} {cond : σ → Bool} {body : σ → Except φ σ} {out : φ} {n : Nat} {s : σ}
    {I : σ → Prop} {E : φ → Prop} (m : σ → Nat)
    (hI : ∀ s, I s → cond s = true → Ensures (fun t => I t ∧ m t < m s) E (body s)) (hs : I s) (hn : m s < n) :
    Ensures (fun t => I t ∧ cond t = false) E (loopWhile cond body out n s) := by
  induction n generalizing s with
  | zero => exact absurd hn (Nat.not_lt_zero _)
  | succ n ih =>
    unfold loopWhile
    by_cases hc : cond s = true
    · rw [if_pos hc]
      exact (hI s hs hc).bind fun t ht => ih ht.1 (by omega)
    · rw [if_neg hc]
      exact ⟨hs, Bool.eq_false_iff.mpr hc⟩

open Relation in
/-- The computation is matched by steps of `R` from `v`: a result's abstraction is reached by
steps, and a fault happens at a reached state for which `F` allows it. -/
def Simulates {V : Type u} {σ : Type v} {φ : Type w} (R : V → V → Prop) (F : φ → V → Prop)
    (abs : σ → V) (v : V) : Except φ σ → Prop
  | .ok s => ReflTransGen R v (abs s)
  | .error e => ∃ v', ReflTransGen R v v' ∧ F e v'

namespace Simulates

open Relation

variable {V : Type u} {σ τ : Type v} {φ : Type w} {R : V → V → Prop} {F : φ → V → Prop}
  {abs : σ → V} {abs' : τ → V} {v v' : V}

theorem after {x : Except φ σ} (h : ReflTransGen R v v') (hx : Simulates R F abs v' x) :
    Simulates R F abs v x := by
  cases x with
  | ok s => exact h.trans hx
  | error e => obtain ⟨u, hu, hF⟩ := hx; exact ⟨u, h.trans hu, hF⟩

theorem bind {x : Except φ σ} {k : σ → Except φ τ} (hx : Simulates R F abs v x)
    (hk : ∀ s, x = .ok s → Simulates R F abs' (abs s) (k s)) : Simulates R F abs' v (x >>= k) := by
  cases x with
  | ok s => exact after hx (hk s rfl)
  | error e => exact hx

theorem mono {R' : V → V → Prop} {x : Except φ σ} (hR : ∀ v v', R v v' → R' v v')
    (hx : Simulates R F abs v x) : Simulates R' F abs v x := by
  cases x with
  | ok s => exact ReflTransGen.mono hR _ _ hx
  | error e => obtain ⟨u, hu, hF⟩ := hx; exact ⟨u, ReflTransGen.mono hR _ _ hu, hF⟩

theorem map {k : σ → τ} {x : Except φ σ} (hx : Simulates R F abs v x) (hk : ∀ s, abs' (k s) = abs s) :
    Simulates R F abs' v (x.map k) := by
  cases x with
  | ok s => show ReflTransGen R v (abs' (k s)); rw [hk]; exact hx
  | error e => exact hx

theorem of_eq_ok {s : σ} (h : v = abs s) : Simulates R F abs v (.ok s : Except φ σ) := by
  rw [h]; exact ReflTransGen.refl

/-- What every step keeps holds of every state reached. -/
theorem star_inv {I : V → Prop} (hR : ∀ v v', I v → R v v' → I v') (hv : I v)
    (h : ReflTransGen R v v') : I v' := by
  induction h with
  | refl => exact hv
  | tail _ hr ih => exact hR _ _ ih hr

/-- A loop whose rounds are simulated, under an invariant `P` of the steps, is simulated. -/
theorem foldlM {α : Type*} {f : σ → α → Except φ σ} {l : List α} {s : σ} (P : V → Prop)
    (hP : ∀ v v', P v → R v v' → P v') (hf : ∀ a ∈ l, ∀ s, P (abs s) → Simulates R F abs (abs s) (f s a))
    (hs : P (abs s)) : Simulates R F abs (abs s) (l.foldlM f s) := by
  induction l generalizing s with
  | nil => exact ReflTransGen.refl
  | cons a l ih =>
    rw [List.foldlM_cons]
    refine bind (hf a (by simp) s hs) fun t ht => ih (fun b hb => hf b (by simp [hb])) ?_
    have h := hf a (by simp) s hs
    rw [ht] at h
    exact star_inv hP hs h

/-- An invariant of the steps holds of the abstraction of a result. -/
theorem inv {I : V → Prop} (hR : ∀ v v', I v → R v v' → I v') (hv : I v) {s : σ}
    (h : Simulates R F abs v (.ok s)) : I (abs s) :=
  star_inv hR hv h

/-- A computation whose reachable states allow no fault `e` does not end in `e`. -/
theorem ne_error {I : V → Prop} (hR : ∀ v v', I v → R v v' → I v') (hv : I v) {e : φ}
    (hF : ∀ v, I v → ¬ F e v) {x : Except φ σ} (h : Simulates R F abs v x) : x ≠ .error e := by
  rintro rfl
  obtain ⟨u, hu, hFu⟩ := h
  exact hF u (star_inv hR hv hu) hFu

theorem ensures {I : V → Prop} (hR : ∀ v v', I v → R v v' → I v') (hv : I v) {E : φ → Prop}
    (hF : ∀ v e, I v → F e v → E e) {x : Except φ σ} (h : Simulates R F abs v x) :
    Ensures (fun s => I (abs s)) E x := by
  cases x with
  | ok s => exact inv hR hv h
  | error e =>
    obtain ⟨u, hu, hFu⟩ := h
    exact hF u e (star_inv hR hv hu) hFu

end Simulates
end Lts
