import Mathlib.Data.Fintype.Sum
import Mathlib.Logic.Equiv.Basic
import Wawo.Lib.Tally
import Wawo.Lib.Run

/-!
# `shared_ptr`, `weak_ptr` (`smart_ptr.hpp`)

A `shared_ptr` is a `sp_counter`, which has the address of a block (`sp_counter_base`) or is empty, and a
`weak_ptr` is a `sp_weak_counter`. Blocks are known by their numbers. The functions take the objects they are
called on by name, as the source does by reference, so that both may be the same; the temporaries of a call
are objects too. A pointer that is cast or converted is a copy. `sp_c` is of type `long` and does not overflow
with fewer than 2^63 pointers.
-/

namespace Wawo

open Lts

/-- `sp_counter_base` -/
structure SpBlock where
  ptr : Bool -- `__p != 0`
  spC : Int
  weakC : Int
  disposed : Nat -- history: how often `dispose` ran
  destroyed : Nat -- history: how often `destroy` ran
deriving DecidableEq

namespace SpBlock

variable (x : SpBlock)

/-- The constructor; `ptr` says whether the pointer is not `NULL`. -/
def new (ptr : Bool) : SpBlock := ⟨ptr, 1, 1, 0, 0⟩

def require : SpBlock := { x with spC := x.spC + 1 }

def weakRequire : SpBlock := { x with weakC := x.weakC + 1 }

def weakRelease : SpBlock :=
  let y := { x with weakC := x.weakC - 1 }
  if x.weakC = 1 then { y with destroyed := y.destroyed + 1 } else y

def dispose : SpBlock := { x with ptr := false, disposed := x.disposed + 1 }

def release : SpBlock :=
  let y := { x with spC := x.spC - 1 }
  if x.spC = 1 then y.dispose.weakRelease else y

end SpBlock

inductive SpFault
  | moveAssign -- `sp_counter::operator=(sp_counter&&)`: `base == r.base ? base == NULL : true`
  | weakAssign -- `sp_weak_counter::operator=`: `base != weak_counter.base`
  | lockCount -- `atomic_increment_if_not_equal`: `tv >= val`
  | lockNull -- `sp_counter(sp_weak_counter const&)`: `base->__p != 0`
  | lockRelease -- `sp_counter(sp_weak_counter const&)`: `base->sp_count() > 0`
deriving DecidableEq

/-- The temporaries: of an assignment of a pointer, of `std::swap` and of `sp_weak_counter::operator=`. -/
inductive Temp
  | copy
  | swap
  | assign
deriving DecidableEq

instance : Fintype Temp := ⟨{.copy, .swap, .assign}, fun t => by cases t <;> decide⟩

/-- A program with the variables `ι` of type `shared_ptr` and `κ` of type `weak_ptr`. An object that does not
live is `none`; one that does has the number of its block, if it is not empty. -/
structure SpHeap (ι κ : Type) where
  block : Nat → SpBlock
  made : Nat -- blocks made so far
  sp : ι ⊕ Temp → Option (Option Nat)
  wp : κ ⊕ Temp → Option (Option Nat)

namespace SpHeap

variable {ι κ : Type}

def start : SpHeap ι κ := ⟨fun _ => .new false, 0, fun _ => none, fun _ => none⟩

variable (s : SpHeap ι κ)

def spBase (l : ι ⊕ Temp) : Option Nat := (s.sp l).join

def wpBase (l : κ ⊕ Temp) : Option Nat := (s.wp l).join

/-- `if (base != 0) base->f()` -/
def onBase (f : SpBlock → SpBlock) : Option Nat → SpHeap ι κ
  | none => s
  | some b => { s with block := Function.update s.block b (f (s.block b)) }

section

variable [DecidableEq ι] [DecidableEq κ]

def setSp (l : ι ⊕ Temp) (o : Option (Option Nat)) : SpHeap ι κ := { s with sp := Function.update s.sp l o }

def setWp (l : κ ⊕ Temp) (o : Option (Option Nat)) : SpHeap ι κ := { s with wp := Function.update s.wp l o }

/-! ### `sp_counter` -/

/-- `sp_counter(pt* const& p)` -/
def spNew (l : ι ⊕ Temp) (ptr : Bool) : SpHeap ι κ :=
  { s with block := Function.update s.block s.made (.new ptr), made := s.made + 1 }.setSp l (some (some s.made))

/-- `~sp_counter` -/
def spDestroy (l : ι ⊕ Temp) : SpHeap ι κ := (s.onBase .release (s.spBase l)).setSp l none

/-- `sp_counter(sp_counter const& r)` -/
def spCopy (l r : ι ⊕ Temp) : SpHeap ι κ := (s.onBase .require (s.spBase r)).setSp l (some (s.spBase r))

/-- `sp_counter(sp_counter&& r)` -/
def spMove (l r : ι ⊕ Temp) : SpHeap ι κ := (s.setSp l (some (s.spBase r))).setSp r (some none)

/-- `operator=(sp_counter&& r)` -/
def spMoveAssign (l r : ι ⊕ Temp) : Except SpFault (SpHeap ι κ) :=
  if s.spBase l = s.spBase r ∧ s.spBase l ≠ none then .error .moveAssign
  else .ok (((s.onBase .release (s.spBase l)).setSp l (some (s.spBase r))).setSp r (some none))

/-- `sp_counter(sp_weak_counter const& weak)`, with `require_lock(0)` -/
def spLock (l : ι ⊕ Temp) (w : κ ⊕ Temp) : Except SpFault (SpHeap ι κ) :=
  match s.wpBase w with
  | none => .ok (s.setSp l (some none))
  | some b =>
    let tv := (s.block b).spC
    if tv < 0 then .error .lockCount
    else if tv = 0 then .ok (s.setSp l (some (some b)))
    else
      let s := s.onBase .require (some b)
      if !(s.block b).ptr then .error .lockNull
      else if (s.block b).spC ≤ 0 then .error .lockRelease
      else .ok (s.setSp l (some (some b)))

/-- `std::swap` of two `sp_counter`, which moves. -/
def spSwap (a b : ι ⊕ Temp) : Except SpFault (SpHeap ι κ) := do
  let s := s.spMove (.inr .swap) a
  let s ← s.spMoveAssign a b
  let s ← s.spMoveAssign b (.inr .swap)
  .ok (s.spDestroy (.inr .swap))

/-! ### `sp_weak_counter` -/

/-- `~sp_weak_counter` -/
def wpDestroy (l : κ ⊕ Temp) : SpHeap ι κ := (s.onBase .weakRelease (s.wpBase l)).setWp l none

/-- `sp_weak_counter(sp_weak_counter const& counter)` -/
def wpCopy (l r : κ ⊕ Temp) : SpHeap ι κ := (s.onBase .weakRequire (s.wpBase r)).setWp l (some (s.wpBase r))

/-- `sp_weak_counter(sp_counter const& counter)` -/
def wpOfSp (l : κ ⊕ Temp) (r : ι ⊕ Temp) : SpHeap ι κ := (s.onBase .weakRequire (s.spBase r)).setWp l (some (s.spBase r))

/-- `sp_weak_counter::swap` -/
def wpSwapBase (a b : κ ⊕ Temp) : SpHeap ι κ := { s with wp := fun l => s.wp (Equiv.swap a b l) }

/-- `operator=(sp_weak_counter const& weak_counter)` -/
def wpAssign (l r : κ ⊕ Temp) : Except SpFault (SpHeap ι κ) :=
  if s.wpBase l = s.wpBase r then .error .weakAssign
  else .ok (((s.wpCopy (.inr .assign) r).wpSwapBase (.inr .assign) l).wpDestroy (.inr .assign))

/-- `std::swap` of two `sp_weak_counter`, which copies, for they have no move operations. -/
def wpSwap (a b : κ ⊕ Temp) : Except SpFault (SpHeap ι κ) := do
  let s := s.wpCopy (.inr .swap) a
  let s ← s.wpAssign a b
  let s ← s.wpAssign b (.inr .swap)
  .ok (s.wpDestroy (.inr .swap))

/-! ### The pointers -/

/-- `shared_ptr::operator=(THIS_TYPE const& r)` -/
def sharedAssign (l r : ι) : Except SpFault (SpHeap ι κ) := do
  let s := s.spCopy (.inr .copy) (.inl r)
  let s ← s.spSwap (.inr .copy) (.inl l)
  .ok (s.spDestroy (.inr .copy))

/-- `weak_ptr::operator=(THIS_TYPE const& r)` -/
def weakAssign (l r : κ) : Except SpFault (SpHeap ι κ) := do
  let s := s.wpCopy (.inr .copy) (.inl r)
  let s ← s.wpSwap (.inl l) (.inr .copy)
  .ok (s.wpDestroy (.inr .copy))

/-- `weak_ptr::operator=(SHARED_POINTER_TYPE const& r)` -/
def weakAssignShared (l : κ) (r : ι) : Except SpFault (SpHeap ι κ) := do
  let s := s.wpOfSp (.inr .copy) (.inl r)
  let s ← s.wpSwap (.inl l) (.inr .copy)
  .ok (s.wpDestroy (.inr .copy))

/-- What a program does with its pointers. -/
inductive Event (ι κ : Type)
  | construct (i : ι) (ptr : Bool)
  | empty (i : ι)
  | copy (i r : ι)
  | move (i r : ι)
  | assign (i r : ι)
  | moveAssign (i r : ι)
  | swap (i r : ι)
  | lock (i : ι) (w : κ)
  | destroy (i : ι)
  | weakEmpty (w : κ)
  | weakOf (w : κ) (r : ι)
  | weakCopy (w r : κ)
  | weakAssign (w r : κ)
  | weakAssignShared (w : κ) (r : ι)
  | weakSwap (w r : κ)
  | weakDestroy (w : κ)
deriving DecidableEq

def step : Event ι κ → SpHeap ι κ → Except SpFault (SpHeap ι κ)
  | .construct i ptr, s => .ok (s.spNew (.inl i) ptr)
  | .empty i, s => .ok (s.setSp (.inl i) (some none))
  | .copy i r, s => .ok (s.spCopy (.inl i) (.inl r))
  | .move i r, s => .ok (s.spMove (.inl i) (.inl r))
  | .assign i r, s => s.sharedAssign i r
  | .moveAssign i r, s => s.spMoveAssign (.inl i) (.inl r)
  | .swap i r, s => s.spSwap (.inl i) (.inl r)
  | .lock i w, s => s.spLock (.inl i) (.inl w)
  | .destroy i, s => .ok (s.spDestroy (.inl i))
  | .weakEmpty w, s => .ok (s.setWp (.inl w) (some none))
  | .weakOf w r, s => .ok (s.wpOfSp (.inl w) (.inl r))
  | .weakCopy w r, s => .ok (s.wpCopy (.inl w) (.inl r))
  | .weakAssign w r, s => s.weakAssign w r
  | .weakAssignShared w r, s => s.weakAssignShared w r
  | .weakSwap w r, s => s.wpSwap (.inl r) (.inl w)
  | .weakDestroy w, s => .ok (s.wpDestroy (.inl w))

end

def SpLives (s : SpHeap ι κ) (i : ι) : Prop := (s.sp (.inl i)).isSome = true

def WpLives (s : SpHeap ι κ) (w : κ) : Prop := (s.wp (.inl w)).isSome = true

instance (s : SpHeap ι κ) (i : ι) : Decidable (s.SpLives i) := inferInstanceAs (Decidable (_ = true))

instance (s : SpHeap ι κ) (w : κ) : Decidable (s.WpLives w) := inferInstanceAs (Decidable (_ = true))

/-- An object is made where none lives, and used while it lives. -/
def Allowed (s : SpHeap ι κ) (e : Event ι κ) : Prop :=
  match e with
  | .construct i _ | .empty i => ¬ s.SpLives i
  | .copy i r | .move i r => ¬ s.SpLives i ∧ s.SpLives r
  | .assign i r | .moveAssign i r | .swap i r => s.SpLives i ∧ s.SpLives r
  | .lock i w => ¬ s.SpLives i ∧ s.WpLives w
  | .destroy i => s.SpLives i
  | .weakEmpty w => ¬ s.WpLives w
  | .weakOf w r => ¬ s.WpLives w ∧ s.SpLives r
  | .weakCopy w r => ¬ s.WpLives w ∧ s.WpLives r
  | .weakAssign w r | .weakSwap w r => s.WpLives w ∧ s.WpLives r
  | .weakAssignShared w r => s.WpLives w ∧ s.SpLives r
  | .weakDestroy w => s.WpLives w

instance (s : SpHeap ι κ) (e : Event ι κ) : Decidable (s.Allowed e) := by unfold Allowed; cases e <;> infer_instance

end SpHeap
end Wawo
