import Mathlib.Data.Fintype.BigOperators
import Wawo.SmartPtr.Counter

/-!
# The counts of `shared_ptr` and `weak_ptr`

`sp_c` of a block is the number of its `shared_ptr`, `sp_weak_c` that of its `weak_ptr`, with one for all
`shared_ptr` together. Each function of the counters keeps that, the temporaries counted as well. It does not
hold of a `lock` that comes too late (`lock_expired`), and the assertions of the assignments fail for pointers
to one object (`assign_same`); apart from that a program keeps its counts (`pointers_counted`).
-/

namespace Wawo

open Lts

set_option linter.unusedSectionVars false

namespace SpBlock

/-- The block of `n` shared and `m` weak pointers. -/
structure Counts (x : SpBlock) (n m : Nat) : Prop where
  sp : x.spC = n
  weak : x.weakC = m + if 0 < n then 1 else 0
  disposed : x.disposed = if n = 0 then 1 else 0
  destroyed : x.destroyed = if n = 0 ∧ m = 0 then 1 else 0

variable {x : SpBlock} {n m : Nat}

theorem Counts.new (ptr : Bool) : (new ptr).Counts 1 0 := ⟨rfl, rfl, rfl, rfl⟩

theorem Counts.require (h : x.Counts n m) (hn : 0 < n) : x.require.Counts (n + 1) m := by
  obtain ⟨hsp, hweak, hdisposed, hdestroyed⟩ := h
  refine ⟨?_, ?_, ?_, ?_⟩ <;> unfold SpBlock.require <;> dsimp only <;> grind

theorem Counts.weakRequire (h : x.Counts n m) (hlive : 0 < n ∨ 0 < m) : x.weakRequire.Counts n (m + 1) := by
  obtain ⟨hsp, hweak, hdisposed, hdestroyed⟩ := h
  refine ⟨hsp, ?_, hdisposed, ?_⟩ <;> unfold SpBlock.weakRequire <;> dsimp only <;> grind

theorem Counts.weakRelease (h : x.Counts n (m + 1)) : x.weakRelease.Counts n m := by
  obtain ⟨hsp, hweak, hdisposed, hdestroyed⟩ := h
  unfold SpBlock.weakRelease
  dsimp only
  split <;> refine ⟨hsp, ?_, hdisposed, ?_⟩ <;> dsimp only <;> grind

/-- The last `shared_ptr` also gives back what all of them have of `sp_weak_c`. -/
theorem Counts.release (h : x.Counts (n + 1) m) : x.release.Counts n m := by
  obtain ⟨hsp, hweak, hdisposed, hdestroyed⟩ := h
  unfold SpBlock.release SpBlock.dispose SpBlock.weakRelease
  dsimp only
  split
  · split <;> refine ⟨?_, ?_, ?_, ?_⟩ <;> dsimp only <;> grind
  · refine ⟨?_, ?_, ?_, ?_⟩ <;> dsimp only <;> grind

end SpBlock

namespace SpHeap

variable {ι κ : Type} {s s' : SpHeap ι κ}

/-- Whether an object refers to a block. -/
def refs (b : Nat) (o : Option (Option Nat)) : Nat := if o.join = some b then 1 else 0

@[simp] theorem refs_none (b : Nat) : refs b none = 0 := rfl

@[simp] theorem refs_empty (b : Nat) : refs b (some none) = 0 := rfl

section onBase

variable (s) (f : SpBlock → SpBlock) (ob : Option Nat)

@[simp] theorem onBase_made : (s.onBase f ob).made = s.made := by cases ob <;> rfl

@[simp] theorem onBase_sp : (s.onBase f ob).sp = s.sp := by cases ob <;> rfl

@[simp] theorem onBase_wp : (s.onBase f ob).wp = s.wp := by cases ob <;> rfl

@[simp] theorem onBase_none : s.onBase f none = s := rfl

@[simp] theorem onBase_spBase (l : ι ⊕ Temp) : (s.onBase f ob).spBase l = s.spBase l := by unfold spBase; rw [onBase_sp]

@[simp] theorem onBase_wpBase (l : κ ⊕ Temp) : (s.onBase f ob).wpBase l = s.wpBase l := by unfold wpBase; rw [onBase_wp]

end onBase

section

variable [Fintype ι] [Fintype κ]

def spRefs (s : SpHeap ι κ) (b : Nat) : Nat := tally (refs b) s.sp

def wpRefs (s : SpHeap ι κ) (b : Nat) : Nat := tally (refs b) s.wp

/-- The counts of all blocks, by all objects. -/
structure Counted (s : SpHeap ι κ) : Prop where
  counts : ∀ b, b < s.made → (s.block b).Counts (s.spRefs b) (s.wpRefs b)
  fresh : ∀ b, s.made ≤ b → s.spRefs b = 0 ∧ s.wpRefs b = 0

section counts

variable (s)

@[simp] theorem onBase_spRefs (f : SpBlock → SpBlock) (ob : Option Nat) (b : Nat) : (s.onBase f ob).spRefs b = s.spRefs b := by
  unfold spRefs; rw [onBase_sp]

@[simp] theorem onBase_wpRefs (f : SpBlock → SpBlock) (ob : Option Nat) (b : Nat) : (s.onBase f ob).wpRefs b = s.wpRefs b := by
  unfold wpRefs; rw [onBase_wp]

variable [DecidableEq ι] [DecidableEq κ]

theorem spRefs_setSp (l : ι ⊕ Temp) (o : Option (Option Nat)) (b : Nat) :
    (s.setSp l o).spRefs b + refs b (s.sp l) = s.spRefs b + refs b o := Tally.update _ _ _ _

theorem wpRefs_setWp (l : κ ⊕ Temp) (o : Option (Option Nat)) (b : Nat) :
    (s.setWp l o).wpRefs b + refs b (s.wp l) = s.wpRefs b + refs b o := Tally.update _ _ _ _

@[simp] theorem spRefs_setWp (l : κ ⊕ Temp) (o : Option (Option Nat)) (b : Nat) : (s.setWp l o).spRefs b = s.spRefs b := rfl

@[simp] theorem wpRefs_setSp (l : ι ⊕ Temp) (o : Option (Option Nat)) (b : Nat) : (s.setSp l o).wpRefs b = s.wpRefs b := rfl

end counts

section

variable {l : ι ⊕ Temp} {w : κ ⊕ Temp} {b : Nat}

theorem refs_sp_eq_one (h : s.spBase l = some b) : refs b (s.sp l) = 1 := if_pos h

theorem refs_sp_eq_zero (h : s.spBase l ≠ some b) : refs b (s.sp l) = 0 := if_neg h

theorem refs_wp_eq_one (h : s.wpBase w = some b) : refs b (s.wp w) = 1 := if_pos h

theorem refs_wp_eq_zero (h : s.wpBase w ≠ some b) : refs b (s.wp w) = 0 := if_neg h

theorem spRefs_pos (h : s.spBase l = some b) : 0 < s.spRefs b :=
  Nat.lt_of_lt_of_le (by rw [refs_sp_eq_one h]; decide) (Tally.weight_le (refs b) s.sp l)

theorem wpRefs_pos (h : s.wpBase w = some b) : 0 < s.wpRefs b :=
  Nat.lt_of_lt_of_le (by rw [refs_wp_eq_one h]; decide) (Tally.weight_le (refs b) s.wp w)

end

namespace Counted

theorem congr (h : Counted s) (hblock : s'.block = s.block) (hmade : s'.made = s.made)
    (hsp : ∀ b, s'.spRefs b = s.spRefs b) (hwp : ∀ b, s'.wpRefs b = s.wpRefs b) : Counted s' := by
  refine ⟨fun b hb => ?_, fun b hb => ?_⟩
  · rw [hblock, hsp, hwp]
    exact h.counts b (hmade ▸ hb)
  · rw [hsp, hwp]
    exact h.fresh b (hmade ▸ hb)

/-- A change of the block `ob` by `f`, for a change of the number of its pointers. -/
theorem onBase {f : SpBlock → SpBlock} {ob : Option Nat} (h : Counted s) (hblock : s'.block = (s.onBase f ob).block)
    (hmade : s'.made = s.made) (hother : ∀ b, ob ≠ some b → s'.spRefs b = s.spRefs b ∧ s'.wpRefs b = s.wpRefs b)
    (hf : ∀ b, ob = some b → b < s.made ∧ ((s.block b).Counts (s.spRefs b) (s.wpRefs b) →
      (f (s.block b)).Counts (s'.spRefs b) (s'.wpRefs b))) : Counted s' := by
  refine ⟨fun b hb => ?_, fun b hb => ?_⟩
  · rw [hmade] at hb
    cases ob with
    | none =>
      rw [hblock, (hother b nofun).1, (hother b nofun).2]
      exact h.counts b hb
    | some b₀ =>
      rw [hblock]
      unfold SpHeap.onBase
      dsimp only
      by_cases heq : b = b₀
      · subst heq
        rw [Function.update_self]
        exact (hf b rfl).2 (h.counts b hb)
      · have hne : some b₀ ≠ some b := fun he => heq (Option.some.inj he).symm
        rw [Function.update_of_ne heq, (hother b hne).1, (hother b hne).2]
        exact h.counts b hb
  · rw [hmade] at hb
    have hne : ob ≠ some b := fun he => absurd (hf b he).1 (not_lt.2 hb)
    rw [(hother b hne).1, (hother b hne).2]
    exact h.fresh b hb

theorem lt_made {b : Nat} (h : Counted s) (hpos : 0 < s.spRefs b ∨ 0 < s.wpRefs b) : b < s.made := by
  by_contra hb
  have := h.fresh b (not_lt.1 hb)
  omega

variable [DecidableEq ι] [DecidableEq κ] {l r : ι ⊕ Temp} {w v : κ ⊕ Temp}

/-! ### `sp_counter` -/

theorem spNew (h : Counted s) (hl : s.sp l = none) (ptr : Bool) : Counted (s.spNew l ptr) := by
  have hcount : ∀ b, (s.spNew l ptr).spRefs b = s.spRefs b + refs b (some (some s.made)) := fun b => by
    have heq := spRefs_setSp { s with block := Function.update s.block s.made (.new ptr), made := s.made + 1 } l
      (some (some s.made)) b
    dsimp only at heq
    rw [hl, refs_none] at heq
    exact heq
  have hself : refs s.made (some (some s.made)) = 1 := if_pos rfl
  have hother : ∀ b, b ≠ s.made → refs b (some (some s.made)) = 0 := fun b hb => if_neg fun he => hb (Option.some.inj he).symm
  refine ⟨fun b hb => ?_, fun b hb => ?_⟩
  · rw [hcount]
    show (Function.update s.block s.made (.new ptr) b).Counts _ (s.wpRefs b)
    by_cases hbm : b = s.made
    · subst hbm
      have hfresh := h.fresh _ (Nat.le_refl s.made)
      rw [Function.update_self, hself, hfresh.1, hfresh.2]
      exact .new ptr
    · rw [Function.update_of_ne hbm, hother b hbm]
      exact h.counts b (Nat.lt_of_le_of_ne (Nat.le_of_lt_succ hb) hbm)
  · have hlt : s.made < b := hb
    rw [hcount, hother b (Nat.ne_of_gt hlt)]
    exact h.fresh b (Nat.le_of_lt hlt)

/-- The object `l` no longer refers to its block. -/
theorem released (h : Counted s) (hblock : s'.block = (s.onBase .release (s.spBase l)).block) (hmade : s'.made = s.made)
    (hcount : ∀ b, s'.spRefs b + refs b (s.sp l) = s.spRefs b) (hwp : ∀ b, s'.wpRefs b = s.wpRefs b) : Counted s' := by
  refine h.onBase hblock hmade (fun b hb => ?_) fun b hb => ?_
  · have heq := hcount b
    rw [refs_sp_eq_zero hb] at heq
    exact ⟨heq, hwp b⟩
  · have heq := hcount b
    rw [refs_sp_eq_one hb] at heq
    refine ⟨h.lt_made (.inl (spRefs_pos hb)), fun hc => ?_⟩
    rw [← heq] at hc
    rw [hwp]
    exact hc.release

/-- A new object refers to a block that has others. -/
theorem required (h : Counted s) (ob : Option Nat) (hblock : s'.block = (s.onBase .require ob).block) (hmade : s'.made = s.made)
    (hcount : ∀ b, s'.spRefs b = s.spRefs b + refs b (some ob)) (hwp : ∀ b, s'.wpRefs b = s.wpRefs b)
    (hpos : ∀ b, ob = some b → 0 < s.spRefs b) : Counted s' := by
  refine h.onBase hblock hmade (fun b hb => ?_) fun b hb => ?_
  · rw [hcount, show refs b (some ob) = 0 from if_neg hb]
    exact ⟨rfl, hwp b⟩
  · refine ⟨h.lt_made (.inl (hpos b hb)), fun hc => ?_⟩
    rw [hcount, show refs b (some ob) = 1 from if_pos hb, hwp]
    exact hc.require (hpos b hb)

theorem weakReleased (h : Counted s) (hblock : s'.block = (s.onBase .weakRelease (s.wpBase w)).block) (hmade : s'.made = s.made)
    (hcount : ∀ b, s'.wpRefs b + refs b (s.wp w) = s.wpRefs b) (hsp : ∀ b, s'.spRefs b = s.spRefs b) : Counted s' := by
  refine h.onBase hblock hmade (fun b hb => ?_) fun b hb => ?_
  · have heq := hcount b
    rw [refs_wp_eq_zero hb] at heq
    exact ⟨hsp b, heq⟩
  · have heq := hcount b
    rw [refs_wp_eq_one hb] at heq
    refine ⟨h.lt_made (.inr (wpRefs_pos hb)), fun hc => ?_⟩
    rw [← heq] at hc
    rw [hsp]
    exact hc.weakRelease

theorem weakRequired (h : Counted s) (ob : Option Nat) (hblock : s'.block = (s.onBase .weakRequire ob).block)
    (hmade : s'.made = s.made) (hcount : ∀ b, s'.wpRefs b = s.wpRefs b + refs b (some ob))
    (hsp : ∀ b, s'.spRefs b = s.spRefs b) (hpos : ∀ b, ob = some b → 0 < s.spRefs b ∨ 0 < s.wpRefs b) : Counted s' := by
  refine h.onBase hblock hmade (fun b hb => ?_) fun b hb => ?_
  · rw [hcount, show refs b (some ob) = 0 from if_neg hb]
    exact ⟨hsp b, rfl⟩
  · refine ⟨h.lt_made (hpos b hb), fun hc => ?_⟩
    rw [hcount, show refs b (some ob) = 1 from if_pos hb, hsp]
    exact hc.weakRequire (hpos b hb)

theorem spEmpty (h : Counted s) (hl : s.sp l = none) : Counted (s.setSp l (some none)) := by
  refine h.congr rfl rfl (fun b => ?_) fun b => rfl
  have heq := spRefs_setSp s l (some none) b
  rwa [hl, refs_none, refs_empty] at heq

theorem spDestroy (h : Counted s) (l : ι ⊕ Temp) : Counted (s.spDestroy l) := by
  refine h.released (l := l) rfl (onBase_made ..) (fun b => ?_) fun b => onBase_wpRefs ..
  have heq := spRefs_setSp (s.onBase .release (s.spBase l)) l none b
  rwa [onBase_sp, onBase_spRefs, refs_none, Nat.add_zero] at heq

theorem spCopy (h : Counted s) (hl : s.sp l = none) (r : ι ⊕ Temp) : Counted (s.spCopy l r) := by
  refine h.required (s.spBase r) rfl (onBase_made ..) (fun b => ?_) (fun b => onBase_wpRefs ..) fun b hb => spRefs_pos hb
  have heq := spRefs_setSp (s.onBase .require (s.spBase r)) l (some (s.spBase r)) b
  rwa [onBase_sp, onBase_spRefs, hl, refs_none] at heq

/-- What `r` refers to goes to `l`; both may be one object. -/
theorem spRefs_move (s : SpHeap ι κ) (l r : ι ⊕ Temp) (b : Nat) :
    ((s.setSp l (some (s.spBase r))).setSp r (some none)).spRefs b + refs b (s.sp l) = s.spRefs b := by
  have hset := spRefs_setSp s l (some (s.spBase r)) b
  have hreset := spRefs_setSp (s.setSp l (some (s.spBase r))) r (some none) b
  have hbase : refs b (some (s.spBase r)) = refs b (s.sp r) := rfl
  have hsp : refs b ((s.setSp l (some (s.spBase r))).sp r) = refs b (s.sp r) := by
    unfold setSp
    dsimp only
    by_cases hr : r = l
    · rw [hr, Function.update_self]
      rfl
    · rw [Function.update_of_ne hr]
  rw [hsp, refs_empty] at hreset
  omega

theorem spMove (h : Counted s) (hl : s.sp l = none) (r : ι ⊕ Temp) : Counted (s.spMove l r) := by
  refine h.congr rfl rfl (fun b => ?_) fun b => rfl
  have heq := spRefs_move s l r b
  rwa [hl] at heq

theorem spMoveAssign (h : Counted s) (hs' : s.spMoveAssign l r = .ok s') : Counted s' := by
  unfold SpHeap.spMoveAssign at hs'
  split at hs'
  case isTrue => cases hs'
  case isFalse =>
    cases hs'
    refine h.released (l := l) rfl (onBase_made ..) (fun b => ?_) fun b => onBase_wpRefs ..
    have heq := spRefs_move (s.onBase .release (s.spBase l)) l r b
    rwa [onBase_sp, onBase_spRefs, onBase_spBase] at heq

/-! ### `sp_weak_counter` -/

theorem wpEmpty (h : Counted s) (hw : s.wp w = none) : Counted (s.setWp w (some none)) := by
  refine h.congr rfl rfl (fun b => rfl) fun b => ?_
  have heq := wpRefs_setWp s w (some none) b
  rwa [hw, refs_none, refs_empty] at heq

theorem wpDestroy (h : Counted s) (w : κ ⊕ Temp) : Counted (s.wpDestroy w) := by
  refine h.weakReleased (w := w) rfl (onBase_made ..) (fun b => ?_) fun b => onBase_spRefs ..
  have heq := wpRefs_setWp (s.onBase .weakRelease (s.wpBase w)) w none b
  rwa [onBase_wp, onBase_wpRefs, refs_none, Nat.add_zero] at heq

theorem wpCopy (h : Counted s) (hw : s.wp w = none) (v : κ ⊕ Temp) : Counted (s.wpCopy w v) := by
  refine h.weakRequired (s.wpBase v) rfl (onBase_made ..) (fun b => ?_) (fun b => onBase_spRefs ..)
    fun b hb => .inr (wpRefs_pos hb)
  have heq := wpRefs_setWp (s.onBase .weakRequire (s.wpBase v)) w (some (s.wpBase v)) b
  rwa [onBase_wp, onBase_wpRefs, hw, refs_none] at heq

theorem wpOfSp (h : Counted s) (hw : s.wp w = none) (r : ι ⊕ Temp) : Counted (s.wpOfSp w r) := by
  refine h.weakRequired (s.spBase r) rfl (onBase_made ..) (fun b => ?_) (fun b => onBase_spRefs ..)
    fun b hb => .inl (spRefs_pos hb)
  have heq := wpRefs_setWp (s.onBase .weakRequire (s.spBase r)) w (some (s.spBase r)) b
  rwa [onBase_wp, onBase_wpRefs, hw, refs_none] at heq

theorem wpSwapBase (h : Counted s) (w v : κ ⊕ Temp) : Counted (s.wpSwapBase w v) :=
  h.congr rfl rfl (fun _ => rfl) fun b => Equiv.sum_comp (Equiv.swap w v) fun l => refs b (s.wp l)

/-- `lock`, in time. -/
theorem spLock (h : Counted s) (hl : s.sp l = none) (hw : ∀ b, s.wpBase w = some b → 0 < (s.block b).spC ∧ (s.block b).ptr = true) :
    ∃ s', s.spLock l w = .ok s' ∧ Counted s' ∧ s'.sp = Function.update s.sp l (some (s.wpBase w)) ∧ s'.wp = s.wp := by
  unfold SpHeap.spLock
  split
  case h_1 hb => exact ⟨_, rfl, h.spEmpty hl, by rw [hb]; rfl, rfl⟩
  case h_2 b hb =>
    obtain ⟨hpos, hptr⟩ := hw b hb
    have hsp := (h.counts b (h.lt_made (.inr (wpRefs_pos hb)))).sp
    have hblock : (s.onBase .require (some b)).block b = (s.block b).require := Function.update_self ..
    dsimp only
    rw [if_neg (not_lt.2 (Int.le_of_lt hpos)), if_neg (ne_of_gt hpos), hblock]
    unfold SpBlock.require
    dsimp only
    rw [hptr, Bool.not_true, if_neg Bool.false_ne_true, if_neg (by omega)]
    refine ⟨_, rfl, ?_, by rw [hb]; rfl, rfl⟩
    refine h.required (some b) rfl rfl (fun b' => ?_) (fun _ => rfl) fun b' hb' => ?_
    · have heq := spRefs_setSp (s.onBase .require (some b)) l (some (some b)) b'
      rwa [onBase_sp, onBase_spRefs, hl, refs_none] at heq
    · cases hb'
      omega

end Counted

/-! ### Assignments and swaps -/

section

variable [DecidableEq ι] [DecidableEq κ] {l r a b : ι ⊕ Temp} {w v : κ ⊕ Temp}

theorem spBase_setSp (s : SpHeap ι κ) (l r : ι ⊕ Temp) (o : Option (Option Nat)) :
    (s.setSp l o).spBase r = if r = l then o.join else s.spBase r := by
  unfold spBase setSp
  dsimp only
  rw [Function.update_apply]
  split <;> rfl

theorem wpBase_setWp (s : SpHeap ι κ) (w v : κ ⊕ Temp) (o : Option (Option Nat)) :
    (s.setWp w o).wpBase v = if v = w then o.join else s.wpBase v := by
  unfold wpBase setWp
  dsimp only
  rw [Function.update_apply]
  split <;> rfl

theorem spMoveAssign_empty (h : s.spBase l = none) :
    s.spMoveAssign l r = .ok ((s.setSp l (some (s.spBase r))).setSp r (some none)) := by
  unfold spMoveAssign
  rw [if_neg fun hc => hc.2 h, h, onBase_none]

theorem spDestroy_empty (h : s.spBase l = none) : s.spDestroy l = s.setSp l none := by
  unfold spDestroy
  rw [h, onBase_none]

@[simp] theorem setSp_temp (s : SpHeap ι κ) (i : ι) (o : Option (Option Nat)) (t : Temp) :
    (s.setSp (.inl i) o).sp (.inr t) = s.sp (.inr t) := by
  unfold setSp
  dsimp only
  rw [Function.update_of_ne Sum.inr_ne_inl]

@[simp] theorem setWp_temp (s : SpHeap ι κ) (w : κ) (o : Option (Option Nat)) (t : Temp) :
    (s.setWp (.inl w) o).wp (.inr t) = s.wp (.inr t) := by
  unfold setWp
  dsimp only
  rw [Function.update_of_ne Sum.inr_ne_inl]

theorem temp_ne {α : Type} {t t' : Temp} (h : t ≠ t') : (.inr t : α ⊕ Temp) ≠ .inr t' := fun he => h (Sum.inr.inj he)

theorem some_spBase (h : s.sp l ≠ none) : some (s.spBase l) = s.sp l := by
  obtain ⟨o, ho⟩ := Option.ne_none_iff_exists'.1 h
  unfold spBase
  rw [ho]
  rfl

theorem some_wpBase (h : s.wp w ≠ none) : some (s.wpBase w) = s.wp w := by
  obtain ⟨o, ho⟩ := Option.ne_none_iff_exists'.1 h
  unfold wpBase
  rw [ho]
  rfl

/-- `std::swap` of two `sp_counter` that live, or of one with itself. -/
theorem spSwap_eq (ht : s.sp (.inr .swap) = none) (ha : a ≠ .inr .swap) (hb : b ≠ .inr .swap) (hla : s.sp a ≠ none)
    (hlb : s.sp b ≠ none) : s.spSwap a b = .ok { s with sp := fun l => s.sp (Equiv.swap a b l) } := by
  unfold spSwap
  have h₁ : (s.spMove (.inr .swap) a).spBase a = none := by
    unfold spMove
    rw [spBase_setSp, if_pos rfl]
    rfl
  dsimp only
  rw [spMoveAssign_empty h₁, Lts.ok_bind]
  set s₂ := ((s.spMove (.inr .swap) a).setSp a (some ((s.spMove (.inr .swap) a).spBase b))).setSp b (some none) with hs₂
  have h₂ : s₂.spBase b = none := by
    rw [hs₂, spBase_setSp, if_pos rfl]
    rfl
  rw [spMoveAssign_empty h₂, Lts.ok_bind]
  have h₃ : ((s₂.setSp b (some (s₂.spBase (.inr .swap)))).setSp (.inr .swap) (some none)).spBase (.inr .swap) = none := by
    rw [spBase_setSp, if_pos rfl]
    rfl
  rw [spDestroy_empty h₃]
  have hbaseA : s₂.spBase (.inr .swap) = s.spBase a := by
    rw [hs₂, spBase_setSp, if_neg hb.symm, spBase_setSp, if_neg ha.symm]
    unfold spMove
    rw [spBase_setSp, if_neg ha.symm, spBase_setSp, if_pos rfl]
    rfl
  have hbaseB : b ≠ a → (s.spMove (.inr .swap) a).spBase b = s.spBase b := fun hne => by
    unfold spMove
    rw [spBase_setSp, if_neg hne, spBase_setSp, if_neg hb]
  suffices hsp : (((s₂.setSp b (some (s₂.spBase (.inr .swap)))).setSp (.inr .swap) (some none)).setSp (.inr .swap) none).sp =
      fun l => s.sp (Equiv.swap a b l) from
    congrArg (fun f => (Except.ok { s with sp := f } : Except SpFault (SpHeap ι κ))) hsp
  funext l
  unfold setSp
  dsimp only
  rw [hbaseA, some_spBase hla, Function.update_apply]
  split
  case isTrue hl =>
    rw [hl, Equiv.swap_apply_of_ne_of_ne ha.symm hb.symm]
    exact ht.symm
  case isFalse hl =>
    rw [Function.update_of_ne hl, Function.update_apply]
    split
    case isTrue hlb' => rw [hlb', Equiv.swap_apply_right]
    case isFalse hlb' =>
      have hsp₂ : s₂.sp = Function.update (Function.update (s.spMove (.inr .swap) a).sp a
          (some ((s.spMove (.inr .swap) a).spBase b))) b (some none) := rfl
      rw [hsp₂, Function.update_of_ne hlb', Function.update_apply]
      split
      case isTrue hla' =>
        have hne : b ≠ a := fun h => hlb' (hla'.trans h.symm)
        rw [hla', Equiv.swap_apply_left, hbaseB hne, some_spBase hlb]
      case isFalse hla' =>
        rw [Equiv.swap_apply_of_ne_of_ne hla' hlb']
        unfold spMove setSp
        dsimp only
        rw [Function.update_of_ne hla', Function.update_of_ne hl]

theorem Counted.spSwap (h : Counted s) (ht : s.sp (.inr .swap) = none) (ha : a ≠ .inr .swap) (hb : b ≠ .inr .swap)
    (hla : s.sp a ≠ none) (hlb : s.sp b ≠ none) :
    ∃ s', s.spSwap a b = .ok s' ∧ Counted s' ∧ s'.sp = (fun l => s.sp (Equiv.swap a b l)) ∧ s'.wp = s.wp :=
  ⟨_, spSwap_eq ht ha hb hla hlb, h.congr rfl rfl (fun b' => Equiv.sum_comp (Equiv.swap a b) fun l => refs b' (s.sp l))
    fun _ => rfl, rfl, rfl⟩

/-- Between two calls no temporary lives. -/
structure Settled (s : SpHeap ι κ) : Prop where
  counted : Counted s
  sp : ∀ t, s.sp (.inr t) = none
  wp : ∀ t, s.wp (.inr t) = none

theorem Settled.sharedAssign {i : ι} (h : Settled s) (hi : s.SpLives i) (r : ι) :
    ∃ s', s.sharedAssign i r = .ok s' ∧ Settled s' := by
  have hli : s.sp (.inl i) ≠ none := Option.isSome_iff_ne_none.1 hi
  have hsp₁ : (s.spCopy (.inr .copy) (.inl r)).sp = Function.update s.sp (.inr .copy) (some (s.spBase (.inl r))) := by
    unfold spCopy setSp
    rw [onBase_sp]
  have hwp₁ : (s.spCopy (.inr .copy) (.inl r)).wp = s.wp := onBase_wp ..
  obtain ⟨s₂, hs₂, hcounted₂, hsp₂, hwp₂⟩ := (h.counted.spCopy (h.sp .copy) (.inl r)).spSwap (a := .inr .copy) (b := .inl i)
    (by rw [hsp₁, Function.update_of_ne (temp_ne (by decide))]; exact h.sp .swap) (temp_ne (by decide)) Sum.inl_ne_inr
    (by rw [hsp₁, Function.update_self]; nofun) (by rw [hsp₁, Function.update_of_ne Sum.inl_ne_inr]; exact hli)
  refine ⟨s₂.spDestroy (.inr .copy), ?_, hcounted₂.spDestroy _, fun t => ?_, fun t => ?_⟩
  · unfold SpHeap.sharedAssign
    dsimp only
    rw [hs₂]
    rfl
  · unfold spDestroy setSp
    dsimp only
    rw [onBase_sp, Function.update_apply]
    split
    · rfl
    case isFalse ht =>
      rw [hsp₂]
      dsimp only
      rw [Equiv.swap_apply_of_ne_of_ne ht Sum.inr_ne_inl, hsp₁, Function.update_of_ne ht]
      exact h.sp t
  · have hwp : (s₂.spDestroy (.inr .copy)).wp = s.wp := (onBase_wp ..).trans (hwp₂.trans hwp₁)
    rw [hwp]
    exact h.wp t

/-- `operator=` of `sp_weak_counter`, for counters of different blocks. -/
theorem Counted.wpAssign (h : Counted s) (ht : s.wp (.inr .assign) = none) (hw : w ≠ .inr .assign)
    (hne : s.wpBase w ≠ s.wpBase v) :
    ∃ s', s.wpAssign w v = .ok s' ∧ Counted s' ∧ s'.sp = s.sp ∧ s'.wp = Function.update s.wp w (some (s.wpBase v)) := by
  have hwp₁ : (s.wpCopy (.inr .assign) v).wp = Function.update s.wp (.inr .assign) (some (s.wpBase v)) := by
    unfold SpHeap.wpCopy setWp
    rw [onBase_wp]
  refine ⟨_, ?_, ((h.wpCopy ht v).wpSwapBase (.inr .assign) w).wpDestroy (.inr .assign), ?_, ?_⟩
  · unfold SpHeap.wpAssign
    rw [if_neg hne]
  · exact (onBase_sp ..).trans (onBase_sp ..)
  · funext l
    unfold SpHeap.wpDestroy setWp
    dsimp only
    rw [onBase_wp, Function.update_apply]
    unfold SpHeap.wpSwapBase
    dsimp only
    rw [hwp₁]
    split
    case isTrue hl => rw [hl, Function.update_of_ne hw.symm, ht]
    case isFalse hl =>
      rw [Function.update_apply (s.wp) w]
      split
      case isTrue hlw' => rw [hlw', Equiv.swap_apply_right, Function.update_self]
      case isFalse hlw' => rw [Equiv.swap_apply_of_ne_of_ne hl hlw', Function.update_of_ne hl]

/-- `std::swap` of two `sp_weak_counter`, of different blocks. -/
theorem Counted.wpSwap (h : Counted s) (ht : ∀ t, t ≠ .copy → s.wp (.inr t) = none) (hw : ∀ t, t ≠ .copy → w ≠ .inr t)
    (hv : ∀ t, t ≠ .copy → v ≠ .inr t) (hlw : s.wp w ≠ none) (hlv : s.wp v ≠ none) (hne : s.wpBase w ≠ s.wpBase v) :
    ∃ s', s.wpSwap w v = .ok s' ∧ Counted s' ∧ s'.sp = s.sp ∧
      s'.wp = Function.update (Function.update s.wp w (s.wp v)) v (s.wp w) := by
  have hswap : (.inr .swap : κ ⊕ Temp) ≠ .inr .assign := temp_ne (by decide)
  have hwv : w ≠ v := fun he => hne (by rw [he])
  set s₁ := s.wpCopy (.inr .swap) w with hs₁
  have hwp₁ : s₁.wp = Function.update s.wp (.inr .swap) (some (s.wpBase w)) := by
    rw [hs₁]
    unfold SpHeap.wpCopy setWp
    rw [onBase_wp]
  have hother₁ : ∀ l, l ≠ .inr .swap → s₁.wp l = s.wp l := fun l hl => by rw [hwp₁, Function.update_of_ne hl]
  have hwne := hw .swap (by decide)
  have hvne := hv .swap (by decide)
  have hbase₁ : ∀ l, l ≠ .inr .swap → s₁.wpBase l = s.wpBase l := fun l hl => congrArg Option.join (hother₁ l hl)
  obtain ⟨s₂, hs₂, hcounted₂, hsp₂, hwp₂⟩ := (h.wpCopy (ht .swap (by decide)) w).wpAssign (w := w) (v := v)
    (by rw [← hs₁, hother₁ _ hswap.symm]; exact ht .assign (by decide)) (hw .assign (by decide))
    (by rw [← hs₁, hbase₁ w hwne, hbase₁ v hvne]; exact hne)
  rw [← hs₁] at hs₂ hwp₂ hsp₂
  have htemp₂ : s₂.wpBase (.inr .swap) = s.wpBase w := by
    unfold wpBase
    rw [hwp₂, Function.update_of_ne hwne.symm, hwp₁, Function.update_self]
    rfl
  have hbase₂ : s₂.wpBase v = s.wpBase v := by
    unfold wpBase
    rw [hwp₂, Function.update_of_ne hwv.symm, hother₁ v hvne]
  obtain ⟨s₃, hs₃, hcounted₃, hsp₃, hwp₃⟩ := hcounted₂.wpAssign (w := v) (v := .inr .swap)
    (by rw [hwp₂, Function.update_of_ne (hw .assign (by decide)).symm, hother₁ _ hswap.symm]; exact ht .assign (by decide))
    (hv .assign (by decide)) (by rw [htemp₂, hbase₂]; exact hne.symm)
  refine ⟨s₃.wpDestroy (.inr .swap), ?_, hcounted₃.wpDestroy _, ?_, ?_⟩
  · unfold SpHeap.wpSwap
    dsimp only
    rw [← hs₁, hs₂, Lts.ok_bind, hs₃]
    rfl
  · exact (onBase_sp ..).trans (hsp₃.trans (hsp₂.trans (onBase_sp ..)))
  · funext l
    unfold SpHeap.wpDestroy setWp
    dsimp only
    rw [onBase_wp, hwp₃, hwp₂, htemp₂, hbase₁ v hvne, some_wpBase hlw, some_wpBase hlv, Function.update_apply]
    split
    case isTrue hl => rw [hl, Function.update_of_ne hvne.symm, Function.update_of_ne hwne.symm, ht .swap (by decide)]
    case isFalse hl =>
      by_cases hlv' : l = v
      · rw [hlv', Function.update_self, Function.update_self]
      · rw [Function.update_of_ne hlv', Function.update_of_ne hlv']
        by_cases hlw' : l = w
        · rw [hlw', Function.update_self, Function.update_self]
        · rw [Function.update_of_ne hlw', Function.update_of_ne hlw', hother₁ l hl]

/-- The rest of an assignment of a `weak_ptr`, from the swap with its temporary on; `ob` is the block of that. -/
theorem Settled.swapTemp {s₁ : SpHeap ι κ} {i : κ} {ob : Option Nat} (h : Settled s) (hi : s.WpLives i)
    (hne : s.wpBase (.inl i) ≠ ob) (hcounted : Counted s₁) (hsp : s₁.sp = s.sp)
    (hwp : s₁.wp = Function.update s.wp (.inr .copy) (some ob)) :
    ∃ s', (s₁.wpSwap (.inl i) (.inr .copy) >>= fun s => .ok (s.wpDestroy (.inr .copy))) = .ok s' ∧ Settled s' := by
  have hother : ∀ t, t ≠ .copy → s₁.wp (.inr t) = none := fun t ht => by
    rw [hwp, Function.update_of_ne (temp_ne ht)]
    exact h.wp t
  have hlive : s₁.wp (.inl i) = s.wp (.inl i) := by rw [hwp, Function.update_of_ne Sum.inl_ne_inr]
  have hcopy : s₁.wp (.inr .copy) = some ob := by rw [hwp, Function.update_self]
  obtain ⟨s₂, hs₂, hcounted₂, hsp₂, hwp₂⟩ := hcounted.wpSwap (w := .inl i) (v := .inr .copy) hother
    (fun _ _ => Sum.inl_ne_inr) (fun t ht => temp_ne ht.symm) (by rw [hlive]; exact Option.isSome_iff_ne_none.1 hi)
    (by rw [hcopy]; nofun) (by unfold wpBase at hne ⊢; rw [hlive, hcopy]; exact hne)
  refine ⟨s₂.wpDestroy (.inr .copy), by rw [hs₂]; rfl, hcounted₂.wpDestroy _, fun t => ?_, fun t => ?_⟩
  · have heq : (s₂.wpDestroy (.inr .copy)).sp = s.sp := (onBase_sp ..).trans (hsp₂.trans hsp)
    rw [heq]
    exact h.sp t
  · unfold wpDestroy setWp
    dsimp only
    rw [onBase_wp, hwp₂]
    by_cases ht : t = .copy
    · rw [ht, Function.update_self]
    · rw [Function.update_of_ne (temp_ne ht), Function.update_of_ne (temp_ne ht), Function.update_of_ne Sum.inr_ne_inl]
      exact hother t ht

theorem Settled.weakAssign {i r : κ} (h : Settled s) (hi : s.WpLives i) (hne : s.wpBase (.inl i) ≠ s.wpBase (.inl r)) :
    ∃ s', s.weakAssign i r = .ok s' ∧ Settled s' := by
  refine h.swapTemp hi hne (h.counted.wpCopy (h.wp .copy) (.inl r)) (onBase_sp ..) ?_
  unfold wpCopy setWp
  rw [onBase_wp]

theorem Settled.weakAssignShared {i : κ} {r : ι} (h : Settled s) (hi : s.WpLives i)
    (hne : s.wpBase (.inl i) ≠ s.spBase (.inl r)) : ∃ s', s.weakAssignShared i r = .ok s' ∧ Settled s' := by
  refine h.swapTemp hi hne (h.counted.wpOfSp (h.wp .copy) (.inl r)) (onBase_sp ..) ?_
  unfold wpOfSp setWp
  rw [onBase_wp]

/-- What only concerns the `shared_ptr` with the names in `l`. -/
theorem Settled.of_sp {s' : SpHeap ι κ} (h : Settled s) (hc : Counted s') (hsp : ∀ t, s'.sp (.inr t) = s.sp (.inr t))
    (hwp : s'.wp = s.wp) : Settled s' :=
  ⟨hc, fun t => (hsp t).trans (h.sp t), fun t => by rw [hwp]; exact h.wp t⟩

theorem Settled.of_wp {s' : SpHeap ι κ} (h : Settled s) (hc : Counted s') (hwp : ∀ t, s'.wp (.inr t) = s.wp (.inr t))
    (hsp : s'.sp = s.sp) : Settled s' :=
  ⟨hc, fun t => by rw [hsp]; exact h.sp t, fun t => (hwp t).trans (h.wp t)⟩

end
end

/-- The calls of which nothing goes wrong: a lock of a `weak_ptr` that is empty, or whose object is still owned
(and not `NULL`); a move assignment between pointers of different objects, or from an empty one to an empty
one; and assignments and swaps of `weak_ptr` between pointers of different objects, of which one may be empty. -/
def Guarded (s : SpHeap ι κ) (e : Event ι κ) : Prop :=
  match e with
  | .lock _ w => ∀ b ∈ s.wpBase (.inl w), 0 < (s.block b).spC ∧ (s.block b).ptr = true
  | .moveAssign i r => s.spBase (.inl i) = s.spBase (.inl r) → s.spBase (.inl i) = none
  | .weakAssign w r | .weakSwap w r => s.wpBase (.inl w) ≠ s.wpBase (.inl r)
  | .weakAssignShared w r => s.wpBase (.inl w) ≠ s.spBase (.inl r)
  | _ => True

instance (s : SpHeap ι κ) (e : Event ι κ) : Decidable (s.Guarded e) :=
  match e with
  | .lock .. => inferInstanceAs (Decidable (∀ b ∈ _, _ ∧ _))
  | .moveAssign .. => inferInstanceAs (Decidable (_ → _))
  | .weakAssign .. | .weakSwap .. | .weakAssignShared .. => inferInstanceAs (Decidable (_ ≠ _))
  | .construct .. | .empty .. | .copy .. | .move .. | .assign .. | .swap .. | .destroy .. | .weakEmpty .. | .weakOf ..
  | .weakCopy .. | .weakDestroy .. => isTrue trivial

section

variable [Fintype ι] [Fintype κ] [DecidableEq ι] [DecidableEq κ]

theorem Settled.step {e : Event ι κ} (h : Settled s) (ha : s.Allowed e) (hg : s.Guarded e) :
    ∃ s', step e s = .ok s' ∧ Settled s' := by
  have hdead : ∀ {i : ι}, ¬ s.SpLives i → s.sp (.inl i) = none := fun hi => Option.not_isSome_iff_eq_none.1 hi
  have hwdead : ∀ {w : κ}, ¬ s.WpLives w → s.wp (.inl w) = none := fun hw => Option.not_isSome_iff_eq_none.1 hw
  have hlive : ∀ {i : ι}, s.SpLives i → s.sp (.inl i) ≠ none := fun hi => Option.isSome_iff_ne_none.1 hi
  have hwlive : ∀ {w : κ}, s.WpLives w → s.wp (.inl w) ≠ none := fun hw => Option.isSome_iff_ne_none.1 hw
  cases e with
  | construct i ptr =>
    exact ⟨_, rfl, h.of_sp (h.counted.spNew (hdead ha) ptr) (fun t => setSp_temp ..) rfl⟩
  | empty i => exact ⟨_, rfl, h.of_sp (h.counted.spEmpty (hdead ha)) (fun t => setSp_temp ..) rfl⟩
  | copy i r =>
    refine ⟨_, rfl, h.of_sp (h.counted.spCopy (hdead ha.1) _) (fun t => ?_) (onBase_wp ..)⟩
    exact (setSp_temp ..).trans (congrFun (onBase_sp ..) _)
  | move i r =>
    refine ⟨_, rfl, h.of_sp (h.counted.spMove (hdead ha.1) _) (fun t => ?_) rfl⟩
    exact (setSp_temp ..).trans (setSp_temp ..)
  | assign i r => exact h.sharedAssign ha.1 r
  | moveAssign i r =>
    have hok : ∃ s', s.spMoveAssign (.inl i) (.inl r) = .ok s' ∧ s'.sp = Function.update (Function.update s.sp (.inl i)
        (some (s.spBase (.inl r)))) (.inl r) (some none) ∧ s'.wp = s.wp := by
      unfold spMoveAssign
      rw [if_neg fun hc => hc.2 (hg hc.1)]
      refine ⟨_, rfl, ?_, onBase_wp ..⟩
      unfold setSp
      rw [onBase_sp]
    obtain ⟨s', hs', hsp, hwp⟩ := hok
    refine ⟨s', hs', h.of_sp (h.counted.spMoveAssign hs') (fun t => ?_) hwp⟩
    rw [hsp, Function.update_of_ne Sum.inr_ne_inl, Function.update_of_ne Sum.inr_ne_inl]
  | swap i r =>
    obtain ⟨s', hs', hc, hsp, hwp⟩ := h.counted.spSwap (a := .inl i) (b := .inl r) (h.sp .swap) Sum.inl_ne_inr
      Sum.inl_ne_inr (hlive ha.1) (hlive ha.2)
    refine ⟨s', hs', h.of_sp hc (fun t => ?_) hwp⟩
    rw [hsp]
    dsimp only
    rw [Equiv.swap_apply_of_ne_of_ne Sum.inr_ne_inl Sum.inr_ne_inl]
  | lock i w =>
    obtain ⟨s', hs', hc, hsp, hwp⟩ := h.counted.spLock (l := .inl i) (w := .inl w) (hdead ha.1) fun b hb => hg b hb
    refine ⟨s', hs', h.of_sp hc (fun t => ?_) hwp⟩
    rw [hsp, Function.update_of_ne Sum.inr_ne_inl]
  | destroy i =>
    refine ⟨_, rfl, h.of_sp (h.counted.spDestroy _) (fun t => ?_) (onBase_wp ..)⟩
    exact (setSp_temp ..).trans (congrFun (onBase_sp ..) _)
  | weakEmpty w =>
    exact ⟨_, rfl, h.of_wp (h.counted.wpEmpty (hwdead ha)) (fun t => setWp_temp ..) rfl⟩
  | weakOf w r =>
    refine ⟨_, rfl, h.of_wp (h.counted.wpOfSp (hwdead ha.1) _) (fun t => ?_) (onBase_sp ..)⟩
    exact (setWp_temp ..).trans (congrFun (onBase_wp ..) _)
  | weakCopy w r =>
    refine ⟨_, rfl, h.of_wp (h.counted.wpCopy (hwdead ha.1) _) (fun t => ?_) (onBase_sp ..)⟩
    exact (setWp_temp ..).trans (congrFun (onBase_wp ..) _)
  | weakAssign w r => exact h.weakAssign ha.1 hg
  | weakAssignShared w r => exact h.weakAssignShared ha.1 hg
  | weakSwap w r =>
    obtain ⟨s', hs', hc, hsp, hwp⟩ := h.counted.wpSwap (w := .inl r) (v := .inl w) (fun t _ => h.wp t)
      (fun _ _ => Sum.inl_ne_inr) (fun _ _ => Sum.inl_ne_inr) (hwlive ha.2) (hwlive ha.1) hg.symm
    refine ⟨s', hs', h.of_wp hc (fun t => ?_) hsp⟩
    rw [hwp, Function.update_of_ne Sum.inr_ne_inl, Function.update_of_ne Sum.inr_ne_inl]
  | weakDestroy w =>
    refine ⟨_, rfl, h.of_wp (h.counted.wpDestroy _) (fun t => ?_) (onBase_sp ..)⟩
    exact (setWp_temp ..).trans (congrFun (onBase_wp ..) _)

/-- What the counts of a block say. -/
structure Sound (s : SpHeap ι κ) : Prop where
  sp : ∀ b < s.made, (s.block b).spC = (Finset.univ.filter fun i => s.spBase (.inl i) = some b).card
  weak : ∀ b < s.made, (s.block b).weakC =
    (Finset.univ.filter fun w => s.wpBase (.inl w) = some b).card + if 0 < (s.block b).spC then 1 else 0
  dispose : ∀ b < s.made, (s.block b).disposed = if (s.block b).spC = 0 then 1 else 0
  destroy : ∀ b < s.made, (s.block b).destroyed = if (s.block b).weakC = 0 then 1 else 0

theorem tally_refs {α : Type} [Fintype α] {f : α ⊕ Temp → Option (Option Nat)} (h : ∀ t, f (.inr t) = none) (b : Nat) :
    tally (refs b) f = (Finset.univ.filter fun i => (f (.inl i)).join = some b).card := by
  have htemp : ∑ t : Temp, refs b (f (.inr t)) = 0 := Finset.sum_eq_zero fun t _ => by rw [h, refs_none]
  unfold tally
  rw [Fintype.sum_sum_type, htemp, Nat.add_zero, Finset.card_filter]
  rfl

theorem Settled.sound (h : Settled s) : Sound s := by
  have hsp : ∀ b, s.spRefs b = _ := tally_refs h.sp
  have hwp : ∀ b, s.wpRefs b = _ := tally_refs h.wp
  refine ⟨fun b hb => ?_, fun b hb => ?_, fun b hb => ?_, fun b hb => ?_⟩ <;> have hc := h.counted.counts b hb
  · rw [hc.sp, hsp]
    rfl
  · rw [hc.weak, hc.sp, hwp]
    simp only [Int.natCast_pos]
    rfl
  · rw [hc.disposed, hc.sp]
    simp only [Int.natCast_eq_zero]
  · rw [hc.destroyed, hc.weak]
    congr 1
    rw [eq_iff_iff]
    split <;> omega

theorem Settled.start : Settled (start : SpHeap ι κ) :=
  ⟨⟨fun _ hb => absurd hb (Nat.not_lt_zero _), fun _ _ => ⟨Tally.eq_zero.2 fun _ => rfl, Tally.eq_zero.2 fun _ => rfl⟩⟩,
    fun _ => rfl, fun _ => rfl⟩

theorem run_settled {es : List (Event ι κ)} (h : Run SpHeap.step (fun s e => s.Allowed e ∧ s.Guarded e) start es s) : Settled s := by
  refine h.inv Settled (fun s e s' hs he hstep => ?_) .start
  obtain ⟨t, ht, hsettled⟩ := hs.step he.1 he.2
  cases ht.symm.trans hstep
  exact hsettled

/-- Every program whose calls are guarded: the counts are right, and no assertion fails. -/
theorem pointers_counted {es : List (Event ι κ)} (h : Run SpHeap.step (fun s e => s.Allowed e ∧ s.Guarded e) start es s) :
    Sound s ∧ ∀ e, s.Allowed e → s.Guarded e → ∃ s', SpHeap.step e s = .ok s' :=
  ⟨(run_settled h).sound, fun _ ha hg => ((run_settled h).step ha hg).imp fun _ hs' => hs'.1⟩

/-- A lock that comes too late has a pointer to the block nevertheless, which `sp_c` does not count. -/
theorem lock_expired {i : ι} {w : κ} {b : Nat} (h : Settled s) (hw : s.wpBase (.inl w) = some b) (h0 : (s.block b).spC = 0) :
    ∃ s', s.spLock (.inl i) (.inl w) = .ok s' ∧ s'.spBase (.inl i) = some b ∧ ¬ Sound s' := by
  have hbase : (s.setSp (.inl i) (some (some b))).spBase (.inl i) = some b := by rw [spBase_setSp, if_pos rfl]; rfl
  refine ⟨_, ?_, hbase, fun hsound => ?_⟩
  · unfold spLock
    rw [hw]
    dsimp only
    rw [h0, if_neg (by decide), if_pos rfl]
  · have hb : b < s.made := h.counted.lt_made (.inr (wpRefs_pos hw))
    have hcard : (0 : Int) = _ := h0.symm.trans (hsound.sp b hb)
    have hpos : 0 < (Finset.univ.filter fun j => (s.setSp (.inl i) (some (some b))).spBase (.inl j) = some b).card :=
      Finset.card_pos.2 ⟨i, Finset.mem_filter.2 ⟨Finset.mem_univ i, hbase⟩⟩
    omega

theorem wpSwap_same (h : s.wpBase w = s.wpBase v) (hw : w ≠ .inr .swap) (hv : v ≠ .inr .swap) :
    s.wpSwap w v = .error .weakAssign := by
  have hsame : (s.wpCopy (.inr .swap) w).wpBase w = (s.wpCopy (.inr .swap) w).wpBase v := by
    unfold wpCopy
    rw [wpBase_setWp, wpBase_setWp, if_neg hw, if_neg hv, onBase_wpBase, onBase_wpBase]
    exact h
  unfold wpSwap wpAssign
  dsimp only
  rw [if_pos hsame]
  rfl

/-- The swap with the temporary of an assignment, for a temporary of the same block. -/
theorem swapTemp_same {i : κ} {ob : Option Nat} (h : s.wpBase (.inl i) = ob) :
    ((s.onBase .weakRequire ob).setWp (.inr .copy) (some ob)).wpSwap (.inl i) (.inr .copy) = .error .weakAssign := by
  refine wpSwap_same ?_ Sum.inl_ne_inr (temp_ne (by decide))
  rw [wpBase_setWp, wpBase_setWp, if_neg Sum.inl_ne_inr, if_pos rfl, onBase_wpBase]
  exact h

/-- An assignment or a swap that is not guarded fails. -/
theorem assign_same {e : Event ι κ} (hg : ¬ s.Guarded e) (hlock : ∀ i w, e ≠ .lock i w) : ∃ f, SpHeap.step e s = .error f := by
  cases e with
  | moveAssign i r =>
    obtain ⟨hsame, hne⟩ := Classical.not_imp.1 hg
    exact ⟨_, if_pos ⟨hsame, hne⟩⟩
  | lock i w => exact absurd rfl (hlock i w)
  | weakAssign w r =>
    refine ⟨.weakAssign, ?_⟩
    show s.weakAssign w r = _
    unfold weakAssign wpCopy
    dsimp only
    rw [swapTemp_same (not_not.1 hg)]
    rfl
  | weakAssignShared w r =>
    refine ⟨.weakAssign, ?_⟩
    show s.weakAssignShared w r = _
    unfold weakAssignShared wpOfSp
    dsimp only
    rw [swapTemp_same (not_not.1 hg)]
    rfl
  | weakSwap w r => exact ⟨_, wpSwap_same (not_not.1 hg).symm Sum.inl_ne_inr Sum.inl_ne_inr⟩
  | construct | empty | copy | move | assign | swap | destroy | weakEmpty | weakOf | weakCopy | weakDestroy =>
    exact absurd trivial hg

end

/-- A pointer and a copy of it, one `weak_ptr` that is locked, and one that outlives the object. -/
def outlived : List (Event (Fin 3) (Fin 1)) :=
  [.construct 0 true, .copy 1 0, .weakOf 0 1, .lock 2 0, .swap 0 1, .assign 0 1, .destroy 0, .destroy 1, .destroy 2]

theorem pointers_counted_outlived : ∃ s, Run step (fun s e => s.Allowed e ∧ s.Guarded e) start outlived s ∧
    s.block 0 = ⟨false, 0, 1, 1, 0⟩ ∧ Sound s := by
  obtain ⟨s, hrun, hs⟩ := Run.of_decide (f := step) (P := fun s e => s.Allowed e ∧ s.Guarded e) outlived
    (s := start) (Q := fun s => s.block 0 = ⟨false, 0, 1, 1, 0⟩) (by decide)
  exact ⟨s, hrun, hs, (pointers_counted hrun).1⟩

/-- A lock of an expired `weak_ptr`; and the assertions that fail: of a second lock, of a move assignment between
pointers to one object, of a swap of two empty `weak_ptr`. -/
theorem counts_lost :
    (∃ es s, Run step Allowed (start : SpHeap (Fin 2) (Fin 2)) es s ∧ (s.block 0).spC = 0 ∧ s.spBase (.inl 1) = some 0 ∧ ¬ Sound s) ∧
    (∃ es s e, Run step Allowed (start : SpHeap (Fin 2) (Fin 2)) es s ∧ s.Allowed e ∧ step e s = .error .lockCount) ∧
    (∃ es s e, Run step Allowed (start : SpHeap (Fin 2) (Fin 2)) es s ∧ s.Allowed e ∧ step e s = .error .moveAssign) ∧
    ∃ es s e, Run step Allowed (start : SpHeap (Fin 2) (Fin 2)) es s ∧ s.Allowed e ∧ step e s = .error .weakAssign := by
  have hfault : ∀ (es : List (Event (Fin 2) (Fin 2))) (e : Event (Fin 2) (Fin 2)) (f : SpFault),
      passes step (fun s e => decide (Allowed s e)) (fun s => decide (s.Allowed e ∧ fault? (step e s) = some f)) es start = true →
      ∃ es s e, Run step Allowed (start : SpHeap (Fin 2) (Fin 2)) es s ∧ s.Allowed e ∧ step e s = .error f :=
    fun es e f h => by
      obtain ⟨s, hrun, ha, hs⟩ := Run.of_decide es (f := step) (P := Allowed)
        (Q := fun s => s.Allowed e ∧ fault? (step e s) = some f) h
      exact ⟨es, s, e, hrun, ha, fault?_eq_some.1 hs⟩
  refine ⟨?_, hfault [.construct 0 true, .weakOf 0 0, .destroy 0, .lock 1 0, .destroy 1] (.lock 1 0) _ (by decide),
    hfault [.construct 0 true, .copy 1 0] (.moveAssign 0 1) _ (by decide),
    hfault [.weakEmpty 0, .weakEmpty 1] (.weakSwap 0 1) _ (by decide)⟩
  obtain ⟨s, hrun, hmade, h0, hbase⟩ := Run.of_decide (f := step) (P := Allowed)
    [.construct 0 true, .weakOf 0 0, .destroy 0, .lock 1 0] (s := (start : SpHeap (Fin 2) (Fin 2)))
    (Q := fun s => 0 < s.made ∧ (s.block 0).spC = 0 ∧ s.spBase (.inl 1) = some 0) (by decide)
  refine ⟨_, s, hrun, h0, hbase, fun hsound => ?_⟩
  have hcard := (hsound.sp 0 hmade).symm.trans h0
  have hpos : 0 < (Finset.univ.filter fun j => s.spBase (.inl j) = some 0).card :=
    Finset.card_pos.2 ⟨1, Finset.mem_filter.2 ⟨Finset.mem_univ 1, hbase⟩⟩
  omega

end SpHeap
end Wawo
