import Mathlib.Data.Fintype.Basic
import Wawo.Lib.Locks
import Wawo.Lib.Run
import Wawo.Lib.Tally

/-!
# Condition variables that can be interrupted (`thread/condition.hpp`, `thread/thread.hpp`, `thread.cpp`)

`wait` takes the condition's own `m_mtx` before it unlocks the caller's mutex, and `notify_one` and `notify_all`
notify under `m_mtx`. For `thread_data::interrupt` the waiting thread leaves word of the condition in its
`thread_data`, under `thdata->mtx`; the interrupter sets the flag and notifies under both locks.

A step of a thread is what it does up to the next lock it is to take, or to the next change that others see.
`wake` is a wake-up without a notification, the end of the time of `wait_for` and `wait_until` among them. A
thread that `wawo::thread` has not started has no `thread_data`. The model is one condition and the mutex of its
callers; `condition_variable_any` does the same with other fields.

`Monitor` is what a condition is for: to give back the mutex and to fall asleep is one step there, and a
notification reaches whoever sleeps.
-/

namespace Wawo

open Lts

/-! ### What a condition is for -/

inductive MonitorEvent (ι : Type)
  | lock (i : ι)
  | unlock (i : ι)
  | sleep (i : ι)
  | notifyOne (pick : Option ι)
  | notifyAll
  | wake (i : ι)
  | interrupt (i : ι)
  | throw (i : ι)
deriving DecidableEq

structure Monitor (ι : Type) where
  owner : Option ι
  asleep : ι → Bool
  interrupted : ι → Bool

namespace Monitor

variable {ι : Type} [DecidableEq ι] [Fintype ι]

def start : Monitor ι := ⟨none, fun _ => false, fun _ => false⟩

/-- What may happen, and what becomes of it -/
def step : MonitorEvent ι → Monitor ι → Except Unit (Monitor ι)
  | .lock i, m => if m.owner = none then .ok { m with owner := some i } else .error ()
  | .unlock i, m => if m.owner = some i then .ok { m with owner := none } else .error ()
  | .sleep i, m => if m.owner = some i then .ok { m with owner := none, asleep := Function.update m.asleep i true } else .error ()
  | .notifyOne (some i), m => if m.asleep i = true then .ok { m with asleep := Function.update m.asleep i false } else .error ()
  | .notifyOne none, m => if ∀ i, m.asleep i = false then .ok m else .error ()
  | .notifyAll, m => .ok { m with asleep := fun _ => false }
  | .wake i, m => if m.asleep i = true then .ok { m with asleep := Function.update m.asleep i false } else .error ()
  | .interrupt i, m => .ok { m with interrupted := Function.update m.interrupted i true }
  | .throw i, m => if m.interrupted i = true then .ok { m with interrupted := Function.update m.interrupted i false } else .error ()

end Monitor

/-! ### The code -/

/-- Where a thread is -/
inductive CondPhase (ι : Type)
  | user -- in none of the calls
  -- `wait`
  | locking -- in the constructor of `interruption_checker`
  | checking -- with `thdata->mtx`
  | publishing -- behind the stores to `thdata`, in front of `m->lock()`
  | entering -- with `m_mtx`, in front of `guard.activate`
  | released -- in front of `m_impl.wait`
  | waiting (notified : Bool) -- in `m_impl.wait`, perhaps with a notification that has not woken it yet
  | leaving -- behind `m_impl.wait`, with `m_mtx`
  | left -- in the destructor of `interruption_checker`, behind `m->unlock()`
  | clearing -- with `thdata->mtx`
  | relocking -- in the destructor of `lock_on_exit`
  -- `check_point`, which ends `wait` too
  | checkPoint
  | checkPointing -- with `thdata->mtx`
  -- `notify_one` and `notify_all`
  | notifying (all : Bool)
  | notified (all : Bool) -- with `m_mtx`
  -- `thread_data::interrupt`, for the thread `u`
  | interrupting (u : ι)
  | flagging (u : ι) -- with `mtx`
  | alarming (u : ι) -- in front of `lg_current_cond_mtx`
  | alarmed (u : ι) -- with `*current_cond_mutex`
deriving DecidableEq

/-- `thread_data` -/
structure ThreadData (ι : Type) where
  mtx : Option ι -- the thread that has it
  currentCond : Bool -- whether `current_cond` and `current_cond_mutex` are set
  interrupted : Bool
deriving DecidableEq

inductive CondFault
  | blocked -- the lock that the thread is to take is not free
  | asleep
  | idle -- the thread is in no call
  | busy -- the thread is in a call
  | owner -- the thread does not have the mutex it unlocks
  | noData -- no `thread_data`
  | pick -- `notify_one` does not wake this thread
deriving DecidableEq

structure CondVar (ι : Type) where
  hasData : ι → Bool -- whether `tls_get<thread_data>()` finds one
  owner : Option ι -- of the mutex of the callers
  mtx : Option ι -- the thread that has `m_mtx`
  data : ι → ThreadData ι
  phase : ι → CondPhase ι
  trace : List (MonitorEvent ι) -- history

namespace CondVar

variable {ι : Type}

def start (hasData : ι → Bool) : CondVar ι := ⟨hasData, none, none, fun _ => ⟨none, false, false⟩, fun _ => .user, []⟩

/-- `m_impl.notify_all()` -/
def notifyAll (phase : ι → CondPhase ι) (i : ι) : CondPhase ι :=
  match phase i with
  | .waiting _ => .waiting true
  | φ => φ

variable [DecidableEq ι] (s : CondVar ι) (i : ι)

def setPhase (φ : CondPhase ι) : CondVar ι := { s with phase := Function.update s.phase i φ }

def setData (u : ι) (d : ThreadData ι) : CondVar ι := { s with data := Function.update s.data u d }

def log (e : MonitorEvent ι) : CondVar ι := { s with trace := s.trace ++ [e] }

/-- `check_interrupt`, and the beginning of `interruption_checker`, with `mtx`: whether it throws -/
def checkInterrupt : Option (CondVar ι) :=
  if (s.data i).interrupted = true then
    some (((s.setData i { s.data i with mtx := none, interrupted := false }).setPhase i .user).log (.throw i))
  else none

/-- `m_impl.notify_one()` -/
def notifyOne [Fintype ι] : Option ι → Except CondFault (CondVar ι)
  | some u => if s.phase u = .waiting false then .ok ((s.setPhase u (.waiting true)).log (.notifyOne (some u))) else .error .pick
  | none => if ∀ u, s.phase u ≠ .waiting false then .ok (s.log (.notifyOne none)) else .error .pick

/-- The next step of a thread that is in a call; `pick` is the thread that `notify_one` wakes. -/
def goOn [Fintype ι] (pick : Option ι) : Except CondFault (CondVar ι) :=
  match s.phase i with
  | .user => .error .idle
  | .locking =>
    if s.hasData i = false then .ok (s.setPhase i .publishing)
    else if (s.data i).mtx = none then .ok ((s.setData i { s.data i with mtx := some i }).setPhase i .checking)
    else .error .blocked
  | .checking =>
    match s.checkInterrupt i with
    | some s => .ok s
    | none => .ok ((s.setData i { s.data i with currentCond := true }).setPhase i .publishing)
  | .publishing =>
    if s.mtx = none then
      .ok (({ s with mtx := some i }.setData i { s.data i with mtx := none }).setPhase i .entering)
    else .error .blocked
  | .entering =>
    if s.owner = some i then .ok (({ s with owner := none }.setPhase i .released).log (.sleep i)) else .error .owner
  | .released => .ok ({ s with mtx := none }.setPhase i (.waiting false))
  | .waiting notified =>
    if notified = false then .error .asleep
    else if s.mtx = none then .ok ({ s with mtx := some i }.setPhase i .leaving)
    else .error .blocked
  | .leaving => .ok ({ s with mtx := none }.setPhase i (if s.hasData i = true then .left else .relocking))
  | .left =>
    if (s.data i).mtx = none then .ok ((s.setData i { s.data i with mtx := some i }).setPhase i .clearing)
    else .error .blocked
  | .clearing => .ok ((s.setData i { s.data i with mtx := none, currentCond := false }).setPhase i .relocking)
  | .relocking =>
    if s.owner = none then .ok (({ s with owner := some i }.setPhase i .checkPoint).log (.lock i)) else .error .blocked
  | .checkPoint =>
    if s.hasData i = false then .ok (s.setPhase i .user)
    else if (s.data i).mtx = none then .ok ((s.setData i { s.data i with mtx := some i }).setPhase i .checkPointing)
    else .error .blocked
  | .checkPointing =>
    match s.checkInterrupt i with
    | some s => .ok s
    | none => .ok ((s.setData i { s.data i with mtx := none }).setPhase i .user)
  | .notifying all => if s.mtx = none then .ok ({ s with mtx := some i }.setPhase i (.notified all)) else .error .blocked
  | .notified all =>
    let s' := { s with mtx := none }.setPhase i .user
    if all = true then .ok ({ s' with phase := notifyAll s'.phase }.log .notifyAll) else s'.notifyOne pick
  | .interrupting u =>
    if (s.data u).mtx = none then .ok ((s.setData u { s.data u with mtx := some i }).setPhase i (.flagging u))
    else .error .blocked
  | .flagging u =>
    if (s.data u).currentCond = true then
      .ok (((s.setData u { s.data u with interrupted := true }).setPhase i (.alarming u)).log (.interrupt u))
    else .ok (((s.setData u { s.data u with mtx := none, interrupted := true }).setPhase i .user).log (.interrupt u))
  | .alarming u => if s.mtx = none then .ok ({ s with mtx := some i }.setPhase i (.alarmed u)) else .error .blocked
  | .alarmed u =>
    let s' := ({ s with mtx := none }.setData u { s.data u with mtx := none }).setPhase i .user
    .ok ({ s' with phase := notifyAll s'.phase }.log .notifyAll)

/-- The thread enters a call. -/
def call (φ : CondPhase ι) : Except CondFault (CondVar ι) :=
  if s.phase i ≠ .user then .error .busy else .ok (s.setPhase i φ)

end CondVar

inductive CondEvent (ι : Type)
  | lock (i : ι)
  | unlock (i : ι)
  | wait (i : ι)
  | notify (i : ι) (all : Bool)
  | interrupt (i u : ι)
  | checkPoint (i : ι)
  | goOn (i : ι) (pick : Option ι)
  | wake (i : ι)
deriving DecidableEq

def condStep {ι : Type} [DecidableEq ι] [Fintype ι] : CondEvent ι → CondVar ι → Except CondFault (CondVar ι)
  | .lock i, s =>
    if s.phase i ≠ .user then .error .busy
    else if s.owner = none then .ok ({ s with owner := some i }.log (.lock i))
    else .error .blocked
  | .unlock i, s =>
    if s.phase i ≠ .user then .error .busy
    else if s.owner = some i then .ok ({ s with owner := none }.log (.unlock i))
    else .error .owner
  | .wait i, s => if s.owner = some i then s.call i .locking else .error .owner
  | .notify i all, s => s.call i (.notifying all)
  | .interrupt i u, s => if s.hasData u = true then s.call i (.interrupting u) else .error .noData
  | .checkPoint i, s => s.call i .checkPoint
  | .goOn i pick, s => s.goOn i pick
  | .wake i, s => if s.phase i = .waiting false then .ok ((s.setPhase i (.waiting true)).log (.wake i)) else .error .idle

/-! ### Locks -/

namespace CondPhase

variable {ι : Type}

def holdsMtx : CondPhase ι → Bool
  | .entering | .released | .leaving | .notified _ | .alarmed _ => true
  | _ => false

/-- The thread whose `thread_data::mtx` the thread `i` holds -/
def dataHeld (hasData : Bool) (i : ι) : CondPhase ι → Option ι
  | .checking | .clearing | .checkPointing => some i
  | .publishing => if hasData = true then some i else none
  | .flagging u | .alarming u | .alarmed u => some u
  | _ => none

/-- In `wait`, with the mutex of the caller -/
def owns : CondPhase ι → Bool
  | .locking | .checking | .publishing | .entering => true
  | _ => false

/-- In `wait`, without the mutex of the caller -/
def gaveUp : CondPhase ι → Bool
  | .released | .waiting _ | .leaving | .left | .clearing | .relocking => true
  | _ => false

/-- An interrupter finds the condition. -/
def published : CondPhase ι → Bool
  | .publishing | .entering | .released | .waiting _ | .leaving | .left | .clearing => true
  | _ => false

def asleep : CondPhase ι → Bool
  | .released | .waiting false => true
  | _ => false

/-- Asleep, or about to fall asleep whatever becomes of the flag -/
def committed : CondPhase ι → Bool
  | .publishing | .entering | .released | .waiting false => true
  | _ => false

/-- The thread whose `thread_data` the thread `i` is at -/
def uses (i : ι) : CondPhase ι → Option ι
  | .checking | .left | .clearing | .checkPointing => some i
  | .interrupting u | .flagging u | .alarming u | .alarmed u => some u
  | _ => none

/-- The interrupter has set the flag and is going to notify. -/
def alarms : CondPhase ι → Option ι
  | .alarming u | .alarmed u => some u
  | _ => none

end CondPhase

namespace CondVar

variable {ι : Type} [DecidableEq ι] {s s' : CondVar ι} {i j u : ι} {φ φ' : CondPhase ι}

/-- Each lock is held by the thread that says so, and what is in the `thread_data` of a thread says where it is. -/
structure Sound (s : CondVar ι) : Prop where
  mtx : Tracks s.mtx fun i => (s.phase i).holdsMtx = true
  data : ∀ u, Tracks (s.data u).mtx fun i => (s.phase i).dataHeld (s.hasData i) i = some u
  owns : ∀ i, (s.phase i).owns = true → s.owner = some i
  gaveUp : ∀ i, (s.phase i).gaveUp = true → s.owner ≠ some i
  cond : ∀ i, (s.data i).currentCond = (s.hasData i && (s.phase i).published)
  uses : ∀ i u, (s.phase i).uses i = some u → s.hasData u = true

/-- What a step of `i` does -/
structure Steps (s s' : CondVar ι) (i : ι) (φ φ' : CondPhase ι) : Prop where
  before : s.phase i = φ
  hasData_eq : s'.hasData = s.hasData
  phase_eq : s'.phase = Function.update s.phase i φ'
  mtx : Moves i s.mtx s'.mtx (φ.holdsMtx = true) (φ'.holdsMtx = true)
  data : ∀ u, Moves i (s.data u).mtx (s'.data u).mtx (φ.dataHeld (s.hasData i) i = some u) (φ'.dataHeld (s.hasData i) i = some u)
  owner : s'.owner = s.owner ∨ (s.owner = none ∨ s.owner = some i) ∧ (s'.owner = none ∨ s'.owner = some i)
  owns : φ'.owns = true → s'.owner = some i
  gaveUp : φ'.gaveUp = true → s'.owner ≠ some i
  cond : (s'.data i).currentCond = (s.hasData i && φ'.published)
  cond_other : ∀ u ≠ i, (s'.data u).currentCond = (s.data u).currentCond
  uses : ∀ u, φ'.uses i = some u → s.hasData u = true

theorem Sound.steps (h : Sound s) (hs : Steps s s' i φ φ') : Sound s' := by
  have hself : s'.phase i = φ' := by rw [hs.phase_eq, Function.update_self]
  have hother : ∀ j ≠ i, s'.phase j = s.phase j := fun j hj => by rw [hs.phase_eq, Function.update_of_ne hj]
  refine ⟨h.mtx.moves (i := i) ?_ fun j hj => ?_, fun u => (h.data u).moves (i := i) ?_ fun j hj => ?_, fun j hj => ?_, fun j hj => ?_,
    fun j => ?_, fun j u hj => ?_⟩
  · rw [hself, hs.before]
    exact hs.mtx
  · rw [hother j hj]
  · rw [hself, hs.before, hs.hasData_eq]
    exact hs.data u
  · rw [hother j hj, hs.hasData_eq]
  · by_cases hji : j = i
    · subst hji
      exact hs.owns (hself ▸ hj)
    · rw [hother j hji] at hj
      have howner := h.owns j hj
      rcases hs.owner with heq | ⟨hnone | hsome, -⟩
      · exact heq.trans howner
      · exact absurd (hnone.symm.trans howner) nofun
      · exact absurd (Option.some.inj (howner.symm.trans hsome)) hji
  · by_cases hji : j = i
    · subst hji
      exact hs.gaveUp (hself ▸ hj)
    · rw [hother j hji] at hj
      intro howner
      rcases hs.owner with heq | ⟨-, hnone | hsome⟩
      · exact h.gaveUp j hj (heq ▸ howner)
      · exact absurd (hnone.symm.trans howner) nofun
      · exact hji (Option.some.inj (howner.symm.trans hsome))
  · by_cases hji : j = i
    · subst hji
      rw [hself, hs.hasData_eq]
      exact hs.cond
    · rw [hother j hji, hs.hasData_eq, hs.cond_other j hji]
      exact h.cond j
  · rw [hs.hasData_eq]
    by_cases hji : j = i
    · subst hji
      exact hs.uses u (hself ▸ hj)
    · exact h.uses j u (hother j hji ▸ hj)

/-- A step that only goes on -/
theorem Steps.goes (h : Sound s) (hφ : s.phase i = φ) (φ' : CondPhase ι) (hmtx : φ'.holdsMtx = φ.holdsMtx)
    (hdata : φ'.dataHeld (s.hasData i) i = φ.dataHeld (s.hasData i) i) (howns : φ'.owns = true → s.owner = some i)
    (hgave : φ'.gaveUp = true → s.owner ≠ some i) (hpub : (s.hasData i && φ'.published) = (s.hasData i && φ.published))
    (huses : ∀ u, φ'.uses i = some u → s.hasData u = true) : Steps s (s.setPhase i φ') i φ φ' where
  before := hφ
  hasData_eq := rfl
  phase_eq := rfl
  mtx := .keep (by rw [hmtx])
  data u := .keep (by rw [hdata])
  owner := .inl rfl
  owns := howns
  gaveUp := hgave
  cond := by
    rw [hpub, ← hφ]
    exact h.cond i
  cond_other _ _ := rfl
  uses := huses

/-- A step that takes `m_mtx`, or gives it back -/
theorem Steps.moveMtx (h : Sound s) (hφ : s.phase i = φ) (mtx : Option ι) (φ' : CondPhase ι) (hmtx : Moves i s.mtx mtx (φ.holdsMtx = true) (φ'.holdsMtx = true))
    (hdata : φ'.dataHeld (s.hasData i) i = φ.dataHeld (s.hasData i) i) (howns : φ'.owns = true → s.owner = some i)
    (hgave : φ'.gaveUp = true → s.owner ≠ some i) (hpub : (s.hasData i && φ'.published) = (s.hasData i && φ.published))
    (huses : ∀ u, φ'.uses i = some u → s.hasData u = true) : Steps s ({ s with mtx := mtx }.setPhase i φ') i φ φ' where
  before := hφ
  hasData_eq := rfl
  phase_eq := rfl
  mtx := hmtx
  data u := .keep (by rw [hdata])
  owner := .inl rfl
  owns := howns
  gaveUp := hgave
  cond := by
    rw [hpub, ← hφ]
    exact h.cond i
  cond_other _ _ := rfl
  uses := huses

/-- What becomes of the locks when the `thread_data` of `u` changes -/
theorem moves_data {p p' : ι → Prop} {d : ThreadData ι} (hu : Moves i (s.data u).mtx d.mtx (p u) (p' u)) (hp : ∀ v ≠ u, p' v ↔ p v) (v : ι) :
    Moves i (s.data v).mtx (Function.update s.data u d v).mtx (p v) (p' v) := by
  by_cases hv : v = u
  · subst hv
    rw [Function.update_self]
    exact hu
  · rw [Function.update_of_ne hv]
    exact .keep (hp v hv)

/-- A step that changes the `thread_data` of the thread `u` -/
theorem Steps.moveData (hφ : s.phase i = φ) (mtx : Option ι) (d : ThreadData ι) (φ' : CondPhase ι)
    (hmtx : Moves i s.mtx mtx (φ.holdsMtx = true) (φ'.holdsMtx = true))
    (hdata : Moves i (s.data u).mtx d.mtx (φ.dataHeld (s.hasData i) i = some u) (φ'.dataHeld (s.hasData i) i = some u))
    (hdata' : ∀ v ≠ u, φ'.dataHeld (s.hasData i) i = some v ↔ φ.dataHeld (s.hasData i) i = some v)
    (howns : φ'.owns = true → s.owner = some i) (hgave : φ'.gaveUp = true → s.owner ≠ some i)
    (hcond : (Function.update s.data u d i).currentCond = (s.hasData i && φ'.published))
    (hcond' : u ≠ i → d.currentCond = (s.data u).currentCond)
    (huses : ∀ u, φ'.uses i = some u → s.hasData u = true) : Steps s (({ s with mtx := mtx }.setData u d).setPhase i φ') i φ φ' where
  before := hφ
  hasData_eq := rfl
  phase_eq := rfl
  mtx := hmtx
  data := moves_data hdata hdata'
  owner := .inl rfl
  owns := howns
  gaveUp := hgave
  cond := hcond
  cond_other v hv := by
    show (Function.update s.data u d v).currentCond = _
    by_cases hvu : v = u
    · subst hvu
      rw [Function.update_self]
      exact hcond' hv
    · rw [Function.update_of_ne hvu]
  uses := huses

/-- A step that takes the mutex of the caller, or gives it back -/
theorem Steps.moveOwner (h : Sound s) (hφ : s.phase i = φ) (owner : Option ι) (φ' : CondPhase ι) (howner : s.owner = none ∨ s.owner = some i)
    (howner' : owner = none ∨ owner = some i) (hmtx : φ'.holdsMtx = φ.holdsMtx)
    (hdata : φ'.dataHeld (s.hasData i) i = φ.dataHeld (s.hasData i) i) (howns : φ'.owns = true → owner = some i)
    (hgave : φ'.gaveUp = true → owner ≠ some i) (hpub : (s.hasData i && φ'.published) = (s.hasData i && φ.published))
    (huses : ∀ u, φ'.uses i = some u → s.hasData u = true) : Steps s ({ s with owner := owner }.setPhase i φ') i φ φ' where
  before := hφ
  hasData_eq := rfl
  phase_eq := rfl
  mtx := .keep (by rw [hmtx])
  data u := .keep (by rw [hdata])
  owner := .inr ⟨howner, howner'⟩
  owns := howns
  gaveUp := hgave
  cond := by
    rw [hpub, ← hφ]
    exact h.cond i
  cond_other _ _ := rfl
  uses := huses

omit [DecidableEq ι] in
theorem Sound.log (h : Sound s) (e : MonitorEvent ι) : Sound (s.log e) := ⟨h.mtx, h.data, h.owns, h.gaveUp, h.cond, h.uses⟩

omit [DecidableEq ι] in
/-- A notification changes nothing else. -/
theorem Sound.notifyAll (h : Sound s) : Sound { s with phase := notifyAll s.phase } := by
  have hsame : ∀ {α : Type} (f : CondPhase ι → α) (_ : ∀ n, f (.waiting n) = f (.waiting true)) (i : ι),
      f (CondVar.notifyAll s.phase i) = f (s.phase i) := by
    intro α f hf i
    unfold CondVar.notifyAll
    cases s.phase i with
    | waiting n => exact (hf n).symm
    | _ => rfl
  refine ⟨fun i => ?_, fun u i => ?_, fun i hi => ?_, fun i hi => ?_, fun i => ?_, fun i u hi => ?_⟩
  · dsimp only
    rw [hsame CondPhase.holdsMtx fun _ => rfl]
    exact h.mtx i
  · dsimp only
    rw [hsame (CondPhase.dataHeld (s.hasData i) i) fun _ => rfl]
    exact h.data u i
  · exact h.owns i ((hsame CondPhase.owns (fun _ => rfl) i).symm.trans hi)
  · exact h.gaveUp i ((hsame CondPhase.gaveUp (fun _ => rfl) i).symm.trans hi)
  · dsimp only
    rw [hsame CondPhase.published fun _ => rfl]
    exact h.cond i
  · exact h.uses i u ((hsame (CondPhase.uses i) (fun _ => rfl) i).symm.trans hi)

theorem checkInterrupt_eq {d : CondVar ι} (h : s.checkInterrupt i = some d) : (s.data i).interrupted = true ∧
    d = (({ s with mtx := s.mtx }.setData i { s.data i with mtx := none, interrupted := false }).setPhase i .user).log (.throw i) := by
  unfold checkInterrupt at h
  split_ifs at h with hflag
  exact ⟨hflag, (Option.some.inj h).symm⟩

theorem checkInterrupt_none (h : s.checkInterrupt i = none) : (s.data i).interrupted = false := by
  unfold checkInterrupt at h
  split_ifs at h with hflag
  exact Bool.eq_false_iff.2 hflag

theorem notifyOne_eq [Fintype ι] {pick : Option ι} (h : s.notifyOne pick = .ok s') :
    (∃ u, pick = some u ∧ s.phase u = .waiting false ∧ s' = (s.setPhase u (.waiting true)).log (.notifyOne (some u))) ∨
    (pick = none ∧ (∀ u, s.phase u ≠ .waiting false) ∧ s' = s.log (.notifyOne none)) := by
  unfold notifyOne at h
  cases pick with
  | none =>
    dsimp only at h
    split_ifs at h with hnone
    cases h
    exact .inr ⟨rfl, hnone, rfl⟩
  | some u =>
    dsimp only at h
    split_ifs at h with hu
    cases h
    exact .inl ⟨u, rfl, hu, rfl⟩

omit [DecidableEq ι] in
/-- What a thread of which nothing is said to be held by itself does not have -/
theorem some_iff_none {p : Option ι} (hp : p = some u) (hv : j ≠ u) : p = some j ↔ none = some j := by
  rw [hp]
  exact ⟨fun heq => absurd (Option.some.inj heq).symm hv, nofun⟩

theorem currentCond_update {d : ThreadData ι} (hd : d.currentCond = (s.data u).currentCond) (j : ι) :
    (Function.update s.data u d j).currentCond = (s.data j).currentCond := by
  by_cases hj : j = u
  · subst hj
    rw [Function.update_self]
    exact hd
  · rw [Function.update_of_ne hj]

theorem interrupted_update {d : ThreadData ι} (hd : d.interrupted = (s.data u).interrupted) (j : ι) :
    (Function.update s.data u d j).interrupted = (s.data j).interrupted := by
  by_cases hj : j = u
  · subst hj
    rw [Function.update_self]
    exact hd
  · rw [Function.update_of_ne hj]

omit [DecidableEq ι] in
/-- A thread without a `thread_data` has no lock there. -/
theorem Sound.free_of_noData (h : Sound s) (hu : s.hasData u = false) : (s.data u).mtx = none := by
  cases hm : (s.data u).mtx with
  | none => rfl
  | some k =>
    have hheld : (s.phase k).dataHeld (s.hasData k) k = some u := (h.data u k).1 hm
    have huses := h.uses k u
    cases hφ : s.phase k with
    | publishing =>
      rw [hφ] at hheld
      unfold CondPhase.dataHeld at hheld
      split_ifs at hheld with hk
      cases hheld
      exact absurd hk (Bool.eq_false_iff.1 hu)
    | checking | clearing | checkPointing | flagging | alarming | alarmed =>
      rw [hφ] at hheld huses
      exact absurd (huses hheld) (Bool.eq_false_iff.1 hu)
    | _ =>
      rw [hφ] at hheld
      cases hheld

/-- The thread throws. -/
theorem Steps.throws (h : Sound s) (hφ : s.phase i = φ) (hmtx : φ.holdsMtx = false) (hdata : φ.dataHeld (s.hasData i) i = some i)
    (hpub : φ.published = false) :
    Steps s (({ s with mtx := s.mtx }.setData i { s.data i with mtx := none, interrupted := false }).setPhase i .user) i φ .user := by
  refine .moveData hφ _ _ _ (.keep ?_) (.give hdata nofun) (fun v hv => (some_iff_none hdata hv).symm) nofun nofun ?_
    (fun hne => absurd rfl hne) nofun
  · rw [hmtx]
    exact Iff.rfl
  · have hcond := h.cond i
    rw [hφ, hpub] at hcond
    exact (currentCond_update (s := s) (u := i) (by rfl) i).trans hcond

/-- A thread that waits is notified, or wakes. -/
theorem Steps.woken (h : Sound s) (hφ : s.phase i = .waiting false) : Steps s (s.setPhase i (.waiting true)) i (.waiting false) (.waiting true) :=
  .goes h hφ _ rfl rfl nofun (fun _ => h.gaveUp i (by rw [hφ]; rfl)) rfl nofun

/-! ### A step -/

/-- A flagged thread has a `thread_data`, and where it is asleep or falls asleep, there is somebody to wake it. -/
structure Alerted (s : CondVar ι) : Prop where
  hasData : ∀ u, (s.data u).interrupted = true → s.hasData u = true
  alarm : ∀ u, (s.data u).interrupted = true → (s.phase u).committed = true → ∃ k, (s.phase k).alarms = some u

/-- What the condition is, seen from outside -/
def monitor (s : CondVar ι) : Monitor ι := ⟨s.owner, fun i => (s.phase i).asleep, fun i => (s.data i).interrupted⟩

omit [DecidableEq ι] in
theorem published_of_committed (h : φ.committed = true) : φ.published = true := by
  cases φ with
  | publishing | entering | released | waiting => rfl
  | _ => cases h

omit [DecidableEq ι] in
theorem dataHeld_of_alarms {b : Bool} (h : φ.alarms = some u) : φ.dataHeld b i = some u := by
  cases φ with
  | alarming | alarmed => exact h
  | _ => cases h

omit [DecidableEq ι] in
theorem uses_of_alarms (h : φ.alarms = some u) : φ.uses i = some u := by
  cases φ with
  | alarming | alarmed => exact h
  | _ => cases h

variable [Fintype ι]

/-- What is known after a step -/
structure Good (s s' : CondVar ι) : Prop where
  sound : Sound s'
  alerted : Alerted s'
  sim : ∃ es, s'.trace = s.trace ++ es ∧ exec Monitor.step es s.monitor = .ok s'.monitor

omit [Fintype ι] in
theorem Steps.log (hs : Steps s s' i φ φ') (e : MonitorEvent ι) : Steps s (s'.log e) i φ φ' :=
  ⟨hs.before, hs.hasData_eq, hs.phase_eq, hs.mtx, hs.data, hs.owner, hs.owns, hs.gaveUp, hs.cond, hs.cond_other, hs.uses⟩

omit [Fintype ι] in
theorem Steps.monitor_eq (hs : Steps s s' i φ φ') :
    s'.monitor = ⟨s'.owner, Function.update s.monitor.asleep i φ'.asleep, fun u => (s'.data u).interrupted⟩ := by
  have hasleep : (fun j => (s'.phase j).asleep) = Function.update s.monitor.asleep i φ'.asleep := by
    rw [hs.phase_eq]
    funext j
    by_cases hj : j = i
    · subst hj
      rw [Function.update_self, Function.update_self]
    · rw [Function.update_of_ne hj, Function.update_of_ne hj]
      rfl
  rw [monitor, hasleep]

omit [Fintype ι] in
theorem Alerted.steps (ha : Alerted s) (hs : Steps s s' i φ φ')
    (hflag : ∀ u, (s'.data u).interrupted = true → (s.data u).interrupted = true ∨ φ'.alarms = some u ∨
      (s.phase u).committed = false ∧ s.hasData u = true)
    (hcommit : (s'.data i).interrupted = true → φ'.committed = true → φ.committed = true)
    (halarms : ∀ u, φ.alarms = some u → φ'.alarms = some u) : Alerted s' := by
  have hself : s'.phase i = φ' := by rw [hs.phase_eq, Function.update_self]
  have hother : ∀ j ≠ i, s'.phase j = s.phase j := fun j hj => by rw [hs.phase_eq, Function.update_of_ne hj]
  -- who wakes a thread goes on to do so
  have hkeep : ∀ u, (∃ k, (s.phase k).alarms = some u) → ∃ k, (s'.phase k).alarms = some u := by
    rintro u ⟨k, hk⟩
    by_cases hki : k = i
    · subst hki
      exact ⟨k, hself ▸ halarms u (hs.before ▸ hk)⟩
    · exact ⟨k, (hother k hki).symm ▸ hk⟩
  refine ⟨fun u hint => ?_, fun u hint hcom => ?_⟩
  · rw [hs.hasData_eq]
    rcases hflag u hint with hold | hnew | hnone
    · exact ha.hasData u hold
    · exact hs.uses u (uses_of_alarms hnew)
    · exact hnone.2
  · have hcom' : (s.phase u).committed = true := by
      by_cases hui : u = i
      · subst hui
        rw [hs.before]
        exact hcommit hint (hself ▸ hcom)
      · exact hother u hui ▸ hcom
    rcases hflag u hint with hold | hnew | hnone
    · exact hkeep u (ha.alarm u hold hcom')
    · exact ⟨i, hself ▸ hnew⟩
    · exact absurd hcom' (Bool.eq_false_iff.1 hnone.1)

/-- A step that the monitor does not see -/
theorem Good.quiet (h : Sound s) (ha : Alerted s) (hs : Steps s s' i φ φ') (htrace : s'.trace = s.trace) (howner : s'.owner = s.owner)
    (hasleep : φ'.asleep = φ.asleep) (hint : ∀ u, (s'.data u).interrupted = (s.data u).interrupted)
    (hcommit : (s.data i).interrupted = true → φ'.committed = true → φ.committed = true)
    (halarms : ∀ u, φ.alarms = some u → φ'.alarms = some u) : Good s s' where
  sound := h.steps hs
  alerted := ha.steps hs (fun u hu => .inl (hint u ▸ hu)) (fun hu => hcommit (hint i ▸ hu)) halarms
  sim := by
    refine ⟨[], htrace.trans (List.append_nil _).symm, ?_⟩
    have hsame : s'.monitor = s.monitor := by
      rw [hs.monitor_eq, howner, hasleep, ← hs.before, show (s.phase i).asleep = s.monitor.asleep i from rfl, Function.update_eq_self,
        funext hint]
      rfl
    rw [hsame]
    rfl

/-- A step that the monitor sees as `e` -/
theorem Good.seen (h : Sound s) (ha : Alerted s) (hs : Steps s s' i φ φ') (e : MonitorEvent ι) (htrace : s'.trace = s.trace)
    (hstep : Monitor.step e s.monitor = .ok ⟨s'.owner, Function.update s.monitor.asleep i φ'.asleep, fun u => (s'.data u).interrupted⟩)
    (hflag : ∀ u, (s'.data u).interrupted = true → (s.data u).interrupted = true ∨ φ'.alarms = some u ∨
      (s.phase u).committed = false ∧ s.hasData u = true)
    (hcommit : (s'.data i).interrupted = true → φ'.committed = true → φ.committed = true)
    (halarms : ∀ u, φ.alarms = some u → φ'.alarms = some u) : Good s (s'.log e) where
  sound := (h.steps hs).log e
  alerted := ha.steps (hs.log e) hflag hcommit halarms
  sim := by
    refine ⟨[e], by rw [log, htrace], ?_⟩
    rw [exec_singleton, hstep, (hs.log e).monitor_eq]
    rfl

theorem Good.trans {s₁ s₂ : CondVar ι} (h : Good s s₁) (h' : Good s₁ s₂) : Good s s₂ where
  sound := h'.sound
  alerted := h'.alerted
  sim := by
    obtain ⟨es, htrace, hexec⟩ := h.sim
    obtain ⟨es', htrace', hexec'⟩ := h'.sim
    exact ⟨es ++ es', by rw [htrace', htrace, List.append_assoc], (exec_append hexec).trans hexec'⟩

omit [Fintype ι] in
/-- Who gives `m_mtx` back leaves nobody between the two mutexes. -/
theorem Steps.not_released (h : Sound s) (hs : Steps s s' i φ .user) (hmtx : φ.holdsMtx = true) (j : ι) : s'.phase j ≠ .released := by
  intro hj
  rw [hs.phase_eq] at hj
  by_cases hji : j = i
  · subst hji
    rw [Function.update_self] at hj
    cases hj
  · rw [Function.update_of_ne hji] at hj
    exact hji (h.mtx.unique (show (s.phase j).holdsMtx = true by rw [hj]; rfl) (show (s.phase i).holdsMtx = true by rw [hs.before]; exact hmtx))

omit [Fintype ι] [DecidableEq ι] in
theorem notifyAll_asleep {phase : ι → CondPhase ι} (h : ∀ j, phase j ≠ .released) (j : ι) : (notifyAll phase j).asleep = false := by
  have hj := h j
  unfold notifyAll
  cases hφ : phase j with
  | released => exact absurd hφ hj
  | _ => rfl

omit [Fintype ι] [DecidableEq ι] in
theorem notifyAll_alarms (phase : ι → CondPhase ι) (j : ι) : (notifyAll phase j).alarms = (phase j).alarms := by
  unfold notifyAll
  cases phase j <;> rfl

/-- The thread gives `m_mtx` back and notifies everybody, perhaps as an interrupter. -/
theorem Good.notifiesAll (h : Sound s) (ha : Alerted s) (hs : Steps s s' i φ .user) (hmtx : φ.holdsMtx = true)
    (htrace : s'.trace = s.trace) (howner : s'.owner = s.owner) (hint : ∀ u, (s'.data u).interrupted = (s.data u).interrupted)
    (halarms : ∀ u, φ.alarms = some u → φ.dataHeld (s.hasData i) i = some u) :
    Good s ({ s' with phase := notifyAll s'.phase }.log .notifyAll) where
  sound := (h.steps hs).notifyAll.log _
  alerted := by
    have hnone := hs.not_released h hmtx
    have hother : ∀ j ≠ i, s'.phase j = s.phase j := fun j hj => by rw [hs.phase_eq, Function.update_of_ne hj]
    refine ⟨fun u hu => hs.hasData_eq ▸ ha.hasData u (hint u ▸ hu), fun u hu hcom => ?_⟩
    have hu : (s.data u).interrupted = true := hint u ▸ hu
    have hcom : (notifyAll s'.phase u).committed = true := hcom
    have hui : u ≠ i := by
      rintro rfl
      unfold notifyAll at hcom
      rw [hs.phase_eq, Function.update_self] at hcom
      cases hcom
    have hphase : (s.phase u).committed = true ∧ (s.phase u).asleep = false := by
      rw [← hother u hui]
      have hr := hnone u
      unfold notifyAll at hcom
      cases hφ : s'.phase u with
      | released => exact absurd hφ hr
      | publishing | entering => exact ⟨rfl, rfl⟩
      | _ =>
        rw [hφ] at hcom
        cases hcom
    obtain ⟨k, hk⟩ := ha.alarm u hu hphase.1
    refine ⟨k, (notifyAll_alarms _ k).trans ?_⟩
    by_cases hki : k = i
    · -- the thread does not have its `thread_data` while it is notified, nor `m_mtx`
      subst hki
      have hheld := halarms u (hs.before ▸ hk)
      cases hφ : s.phase u with
      | publishing =>
        have hpub : (s.phase u).dataHeld (s.hasData u) u = some u := by
          rw [hφ, ha.hasData u hu]
          rfl
        exact absurd ((h.data u).unique hpub (show (s.phase k).dataHeld (s.hasData k) k = some u by rw [hs.before]; exact hheld)) hui
      | entering =>
        have hent : (s.phase u).holdsMtx = true := by
          rw [hφ]
          rfl
        exact absurd (h.mtx.unique hent (show (s.phase k).holdsMtx = true by rw [hs.before]; exact hmtx)) hui
      | released =>
        rw [hφ] at hphase
        cases hphase.2
      | waiting notified =>
        rw [hφ] at hphase
        cases notified with
        | true => cases hphase.1
        | false => cases hphase.2
      | _ =>
        rw [hφ] at hphase
        cases hphase.1
    · rw [hother k hki]
      exact hk
  sim := by
    refine ⟨[.notifyAll], by rw [log, htrace], ?_⟩
    have hall : (fun j => (notifyAll s'.phase j).asleep) = fun _ => false := funext (notifyAll_asleep (hs.not_released h hmtx))
    rw [exec_singleton]
    show Except.ok _ = Except.ok (Monitor.mk s'.owner (fun j => (notifyAll s'.phase j).asleep) fun u => (s'.data u).interrupted)
    rw [hall, howner, funext hint]
    rfl

theorem Good.notifyOne {pick : Option ι} (h : Sound s) (ha : Alerted s) (hnone : ∀ j, s.phase j ≠ .released) (hn : s.notifyOne pick = .ok s') :
    Good s s' := by
  rcases notifyOne_eq hn with ⟨u, -, hu, rfl⟩ | ⟨-, hall, rfl⟩
  · refine .seen h ha (.woken h hu) (.notifyOne (some u)) rfl ?_ (fun v hv => .inl hv) (fun _ => nofun) nofun
    exact if_pos (show (s.phase u).asleep = true by rw [hu]; rfl)
  · refine ⟨h.log _, ⟨ha.hasData, ha.alarm⟩, [.notifyOne none], rfl, ?_⟩
    rw [exec_singleton]
    refine if_pos fun j => ?_
    show (s.phase j).asleep = false
    have hj := hall j
    have hr := hnone j
    cases hφ : s.phase j with
    | released => exact absurd hφ hr
    | waiting notified =>
      cases notified with
      | true => rfl
      | false => exact absurd hφ hj
    | _ => rfl

theorem Good.throws (h : Sound s) (ha : Alerted s) (hφ : s.phase i = φ) (hmtx : φ.holdsMtx = false)
    (hdata : φ.dataHeld (s.hasData i) i = some i) (hpub : φ.published = false) (hasleep : φ.asleep = false)
    (halarms : φ.alarms = none) (hflag : (s.data i).interrupted = true) :
    Good s ((({ s with mtx := s.mtx }.setData i { s.data i with mtx := none, interrupted := false }).setPhase i .user).log (.throw i)) := by
  refine .seen h ha (.throws h hφ hmtx hdata hpub) (.throw i) rfl ?_ (fun v hv => .inl ?_) (fun _ => nofun) ?_
  · show (if (s.data i).interrupted = true then _ else _) = _
    have hsleep : Function.update s.monitor.asleep i false = s.monitor.asleep := by
      rw [Function.update_eq_self_iff]
      show false = (s.phase i).asleep
      rw [hφ, hasleep]
    have hint : (fun u => (Function.update s.data i { s.data i with mtx := none, interrupted := false } u).interrupted) =
        Function.update s.monitor.interrupted i false := by
      funext u
      by_cases hu : u = i
      · subst hu
        rw [Function.update_self, Function.update_self]
      · rw [Function.update_of_ne hu, Function.update_of_ne hu]
        rfl
    rw [if_pos hflag]
    show _ = Except.ok (Monitor.mk s.owner (Function.update s.monitor.asleep i false)
      fun u => (Function.update s.data i { s.data i with mtx := none, interrupted := false } u).interrupted)
    rw [hsleep, hint]
    rfl
  · have hv : (Function.update s.data i { s.data i with mtx := none, interrupted := false } v).interrupted = true := hv
    by_cases hvi : v = i
    · subst hvi
      rw [Function.update_self] at hv
      cases hv
    · rw [Function.update_of_ne hvi] at hv
      exact hv
  · rw [halarms]
    exact fun u hu => by cases hu

/-- The flag is set. -/
theorem Good.flags (h : Sound s) (ha : Alerted s) {d : ThreadData ι} (hs : Steps s ((s.setData u d).setPhase i φ') i (.flagging u) φ')
    (hd : d.interrupted = true) (hasleep : φ'.asleep = false) (hcommit : φ'.committed = false)
    (hnew : φ'.alarms = some u ∨ (s.phase u).committed = false ∧ s.hasData u = true) :
    Good s (((s.setData u d).setPhase i φ').log (.interrupt u)) := by
  refine .seen h ha hs (.interrupt u) rfl ?_ (fun v hv => ?_) (fun _ hc => absurd hc (Bool.eq_false_iff.1 hcommit)) nofun
  · have hsleep : Function.update s.monitor.asleep i φ'.asleep = s.monitor.asleep := by
      rw [Function.update_eq_self_iff, hasleep]
      show false = (s.phase i).asleep
      rw [hs.before]
      rfl
    have hint : (fun v => (Function.update s.data u d v).interrupted) = Function.update s.monitor.interrupted u true := by
      funext v
      by_cases hv : v = u
      · subst hv
        rw [Function.update_self, Function.update_self, hd]
      · rw [Function.update_of_ne hv, Function.update_of_ne hv]
        rfl
    show _ = Except.ok (Monitor.mk s.owner (Function.update s.monitor.asleep i φ'.asleep) fun v => (Function.update s.data u d v).interrupted)
    rw [hsleep, hint]
    rfl
  · by_cases hvu : v = u
    · subst hvu
      exact .inr hnew
    · have hv : (Function.update s.data u d v).interrupted = true := hv
      rw [Function.update_of_ne hvu] at hv
      exact .inl hv

theorem Good.goOn {pick : Option ι} (h : Sound s) (ha : Alerted s) (hg : s.goOn i pick = .ok s') : Good s s' := by
  have hgave := h.gaveUp i
  have howns := h.owns i
  have hcond := h.cond i
  have huses := h.uses i
  unfold CondVar.goOn at hg
  cases hφ : s.phase i with
  | user =>
    rw [hφ] at hg
    cases hg
  | locking =>
    rw [hφ] at hg howns hcond
    dsimp only at hg
    split_ifs at hg with hdata hfree
    · cases hg
      refine .quiet h ha (.goes h hφ _ rfl ?_ (fun _ => howns rfl) nofun ?_ nofun) rfl rfl rfl (fun _ => rfl) (fun hint => ?_) nofun
      · rw [hdata]
        rfl
      · rw [hdata]
        rfl
      · exact absurd (ha.hasData i hint) (Bool.eq_false_iff.1 hdata)
    · cases hg
      refine .quiet h ha (.moveData hφ s.mtx _ _ (.keep Iff.rfl) (.take hfree rfl) (fun v hv => some_iff_none rfl hv) (fun _ => howns rfl) nofun
        ?_ (fun hne => absurd rfl hne) fun v hv => ?_) rfl rfl rfl (interrupted_update (by rfl)) (fun _ => nofun) nofun
      · exact (currentCond_update (s := s) (u := i) (by rfl) i).trans hcond
      · cases hv
        exact Bool.not_eq_false _ ▸ hdata
  | checking =>
    rw [hφ] at hg howns huses
    dsimp only at hg
    cases hc : s.checkInterrupt i with
    | some d =>
      rw [hc] at hg
      cases hg
      obtain ⟨hflag, rfl⟩ := checkInterrupt_eq hc
      exact .throws h ha hφ rfl rfl rfl rfl rfl hflag
    | none =>
      rw [hc] at hg
      cases hg
      have hdata : s.hasData i = true := huses i rfl
      refine .quiet h ha (.moveData hφ s.mtx _ _ (.keep Iff.rfl) (.keep ?_) (fun v hv => ?_) (fun _ => howns rfl) nofun ?_
        (fun hne => absurd rfl hne) nofun) rfl rfl rfl (interrupted_update (by rfl)) (fun hint => ?_) nofun
      · rw [hdata]
        exact Iff.rfl
      · rw [hdata]
        exact Iff.rfl
      · rw [Function.update_self, hdata]
        rfl
      · exact absurd hint (Bool.eq_false_iff.1 (checkInterrupt_none hc))
  | publishing =>
    rw [hφ] at hg howns hcond
    dsimp only at hg
    split_ifs at hg with hfree
    cases hg
    refine .quiet h ha (.moveData hφ _ _ _ (.take hfree rfl) ?_ (fun v hv => ?_) (fun _ => howns rfl) nofun ?_ (fun hne => absurd rfl hne) nofun)
      rfl rfl rfl (interrupted_update (by rfl)) (fun _ _ => rfl) nofun
    · cases hdata : s.hasData i with
      | true => exact .give rfl nofun
      | false =>
        rw [h.free_of_noData hdata]
        exact .keep Iff.rfl
    · cases s.hasData i with
      | true => exact (some_iff_none rfl hv).symm
      | false => exact Iff.rfl
    · exact (currentCond_update (s := s) (u := i) (by rfl) i).trans hcond
  | entering =>
    rw [hφ] at hg
    dsimp only at hg
    split_ifs at hg with howner
    cases hg
    refine .seen h ha (.moveOwner h hφ none .released (.inr howner) (.inl rfl) rfl rfl nofun (fun _ => nofun) rfl nofun) (.sleep i) rfl ?_
      (fun v hv => .inl hv) (fun _ _ => rfl) nofun
    exact if_pos howner
  | released =>
    rw [hφ] at hg hgave
    cases hg
    exact .quiet h ha (.moveMtx h hφ _ _ (.give rfl nofun) rfl nofun (fun _ => hgave rfl) rfl nofun) rfl rfl rfl (fun _ => rfl)
      (fun _ _ => rfl) nofun
  | waiting notified =>
    rw [hφ] at hg hgave
    dsimp only at hg
    split_ifs at hg with hn hfree
    cases hg
    rw [Bool.not_eq_false] at hn
    subst hn
    exact .quiet h ha (.moveMtx h hφ _ _ (.take hfree rfl) rfl nofun (fun _ => hgave rfl) rfl nofun) rfl rfl rfl (fun _ => rfl)
      (fun _ => nofun) nofun
  | leaving =>
    rw [hφ] at hg hgave
    cases hg
    split_ifs with hdata
    · refine .quiet h ha (.moveMtx h hφ _ _ (.give rfl nofun) rfl nofun (fun _ => hgave rfl) rfl fun v hv => ?_) rfl rfl rfl (fun _ => rfl)
        (fun _ => nofun) nofun
      cases hv
      exact hdata
    · refine .quiet h ha (.moveMtx h hφ _ _ (.give rfl nofun) rfl nofun (fun _ => hgave rfl) ?_ nofun) rfl rfl rfl (fun _ => rfl)
        (fun _ => nofun) nofun
      rw [Bool.eq_false_iff.2 hdata]
      rfl
  | left =>
    rw [hφ] at hg hgave hcond huses
    dsimp only at hg
    split_ifs at hg with hfree
    cases hg
    refine .quiet h ha (.moveData hφ s.mtx _ _ (.keep Iff.rfl) (.take hfree rfl) (fun v hv => some_iff_none rfl hv) nofun (fun _ => hgave rfl) ?_
      (fun hne => absurd rfl hne) huses) rfl rfl rfl (interrupted_update (by rfl)) (fun _ => nofun) nofun
    exact (currentCond_update (s := s) (u := i) (by rfl) i).trans hcond
  | clearing =>
    rw [hφ] at hg hgave
    cases hg
    refine .quiet h ha (.moveData hφ s.mtx _ _ (.keep Iff.rfl) (.give rfl nofun) (fun v hv => (some_iff_none rfl hv).symm) nofun
      (fun _ => hgave rfl) ?_ (fun hne => absurd rfl hne) nofun) rfl rfl rfl (interrupted_update (by rfl)) (fun _ => nofun) nofun
    rw [Function.update_self]
    exact (Bool.and_false _).symm
  | relocking =>
    rw [hφ] at hg
    dsimp only at hg
    split_ifs at hg with hfree
    cases hg
    refine .seen h ha (.moveOwner h hφ (some i) .checkPoint (.inl hfree) (.inr rfl) rfl rfl nofun nofun rfl nofun) (.lock i) rfl ?_
      (fun v hv => .inl hv) (fun _ => nofun) nofun
    refine (if_pos hfree).trans ?_
    have hsleep : Function.update s.monitor.asleep i false = s.monitor.asleep := by
      rw [Function.update_eq_self_iff]
      show false = (s.phase i).asleep
      rw [hφ]
      rfl
    show _ = Except.ok (Monitor.mk (some i) (Function.update s.monitor.asleep i false) s.monitor.interrupted)
    rw [hsleep]
  | checkPoint =>
    rw [hφ] at hg hcond
    dsimp only at hg
    split_ifs at hg with hdata hfree
    · cases hg
      exact .quiet h ha (.goes h hφ _ rfl rfl nofun nofun rfl nofun) rfl rfl rfl (fun _ => rfl) (fun _ => nofun) nofun
    · cases hg
      refine .quiet h ha (.moveData hφ s.mtx _ _ (.keep Iff.rfl) (.take hfree rfl) (fun v hv => some_iff_none rfl hv) nofun nofun ?_
        (fun hne => absurd rfl hne) fun v hv => ?_) rfl rfl rfl (interrupted_update (by rfl)) (fun _ => nofun) nofun
      · exact (currentCond_update (s := s) (u := i) (by rfl) i).trans hcond
      · cases hv
        exact Bool.not_eq_false _ ▸ hdata
  | checkPointing =>
    rw [hφ] at hg hcond
    dsimp only at hg
    cases hc : s.checkInterrupt i with
    | some d =>
      rw [hc] at hg
      cases hg
      obtain ⟨hflag, rfl⟩ := checkInterrupt_eq hc
      exact .throws h ha hφ rfl rfl rfl rfl rfl hflag
    | none =>
      rw [hc] at hg
      cases hg
      refine .quiet h ha (.moveData hφ s.mtx _ _ (.keep Iff.rfl) (.give rfl nofun) (fun v hv => (some_iff_none rfl hv).symm) nofun nofun ?_
        (fun hne => absurd rfl hne) nofun) rfl rfl rfl (interrupted_update (by rfl)) (fun _ => nofun) nofun
      exact (currentCond_update (s := s) (u := i) (by rfl) i).trans hcond
  | notifying all =>
    rw [hφ] at hg
    dsimp only at hg
    split_ifs at hg with hfree
    cases hg
    exact .quiet h ha (.moveMtx h hφ _ _ (.take hfree rfl) rfl nofun nofun rfl nofun) rfl rfl rfl (fun _ => rfl) (fun _ => nofun) nofun
  | notified all =>
    rw [hφ] at hg
    dsimp only at hg
    have hs : Steps s ({ s with mtx := none }.setPhase i .user) i (.notified all) .user :=
      .moveMtx h hφ none .user (.give rfl nofun) rfl nofun nofun rfl nofun
    split_ifs at hg
    · cases hg
      exact .notifiesAll h ha hs rfl rfl rfl (fun _ => rfl) nofun
    · have hgood : Good s ({ s with mtx := none }.setPhase i .user) := .quiet h ha hs rfl rfl rfl (fun _ => rfl) (fun _ => nofun) nofun
      exact hgood.trans (.notifyOne hgood.sound hgood.alerted (hs.not_released h rfl) hg)
  | interrupting u =>
    rw [hφ] at hg hcond huses
    dsimp only at hg
    split_ifs at hg with hfree
    cases hg
    refine .quiet h ha (.moveData hφ s.mtx _ _ (.keep Iff.rfl) (.take hfree rfl) (fun v hv => some_iff_none rfl hv) nofun nofun ?_ (fun _ => rfl)
      huses) rfl rfl rfl (interrupted_update (by rfl)) (fun _ => nofun) nofun
    exact (currentCond_update (s := s) (u := u) (by rfl) i).trans hcond
  | flagging u =>
    rw [hφ] at hg hcond huses
    dsimp only at hg
    split_ifs at hg with hcur
    · cases hg
      refine .flags h ha (.moveData hφ s.mtx { s.data u with interrupted := true } (.alarming u) (.keep Iff.rfl) (.keep Iff.rfl)
        (fun v hv => Iff.rfl) nofun nofun ?_ (fun _ => rfl) huses) rfl rfl rfl (.inl rfl)
      exact (currentCond_update (s := s) (u := u) (by rfl) i).trans hcond
    · cases hg
      refine .flags h ha (.moveData hφ s.mtx { s.data u with mtx := none, interrupted := true } .user (.keep Iff.rfl) (.give rfl nofun)
        (fun v hv => (some_iff_none rfl hv).symm) nofun nofun ?_ (fun _ => rfl) nofun) rfl rfl rfl (.inr ⟨?_, huses u rfl⟩)
      · exact (currentCond_update (s := s) (u := u) (by rfl) i).trans hcond
      · -- where the thread falls asleep, the interrupter finds the condition
        by_contra hcom
        rw [Bool.not_eq_false] at hcom
        rw [h.cond u, huses u rfl, published_of_committed hcom] at hcur
        exact hcur rfl
  | alarming u =>
    rw [hφ] at hg huses
    dsimp only at hg
    split_ifs at hg with hfree
    cases hg
    exact .quiet h ha (.moveMtx h hφ _ _ (.take hfree rfl) rfl nofun nofun rfl huses) rfl rfl rfl (fun _ => rfl) (fun _ => nofun) fun _ hv => hv
  | alarmed u =>
    rw [hφ] at hg hcond
    cases hg
    refine .notifiesAll h ha (.moveData hφ none { s.data u with mtx := none } .user (.give rfl nofun) (.give rfl nofun)
      (fun v hv => (some_iff_none rfl hv).symm) nofun nofun ?_ (fun _ => rfl) nofun) rfl rfl rfl (interrupted_update (by rfl)) fun _ hv => hv
    exact (currentCond_update (s := s) (u := u) (by rfl) i).trans hcond

/-- The thread enters a call. -/
theorem Good.call (h : Sound s) (ha : Alerted s) (φ : CondPhase ι) (hmtx : φ.holdsMtx = false) (hdata : φ.dataHeld (s.hasData i) i = none)
    (howns : φ.owns = true → s.owner = some i) (hgave : φ.gaveUp = false) (hpub : φ.published = false) (hasleep : φ.asleep = false)
    (huses : ∀ u, φ.uses i = some u → s.hasData u = true) (hc : s.call i φ = .ok s') : Good s s' := by
  unfold CondVar.call at hc
  split_ifs at hc with huser
  cases hc
  have hφ : s.phase i = .user := not_not.1 huser
  refine .quiet h ha (.goes h hφ _ hmtx hdata howns (fun hg => absurd hg (Bool.eq_false_iff.1 hgave)) (by rw [hpub]; rfl) huses) rfl rfl hasleep
    (fun _ => rfl) (fun _ hcom => ?_) nofun
  rw [published_of_committed hcom] at hpub
  cases hpub

theorem Good.step (h : Sound s) (ha : Alerted s) {e : CondEvent ι} (hstep : condStep e s = .ok s') : Good s s' := by
  -- the mutex of the callers, for a thread outside of the calls
  have howner : ∀ {i : ι} {owner : Option ι} {e : MonitorEvent ι}, s.phase i = .user → (s.owner = none ∨ s.owner = some i) →
      (owner = none ∨ owner = some i) → Monitor.step e s.monitor = .ok { s.monitor with owner := owner } →
      Good s ({ s with owner := owner }.log e) := by
    intro i owner e hφ ho ho' hexec
    have hset : { s with owner := owner }.setPhase i .user = { s with owner := owner } := by
      unfold setPhase
      dsimp only
      rw [← hφ, Function.update_eq_self]
    have hs : Steps s ({ s with owner := owner }.setPhase i .user) i .user .user :=
      .moveOwner h hφ owner .user ho ho' rfl rfl nofun nofun rfl nofun
    have hsleep : Function.update s.monitor.asleep i false = s.monitor.asleep := by
      rw [Function.update_eq_self_iff]
      show false = (s.phase i).asleep
      rw [hφ]
      rfl
    rw [← hset]
    refine .seen h ha hs e rfl ?_ (fun v hv => .inl hv) (fun _ => nofun) nofun
    rw [hexec]
    show _ = Except.ok (Monitor.mk owner (Function.update s.monitor.asleep i false) s.monitor.interrupted)
    rw [hsleep]
  cases e with
  | lock i =>
    unfold condStep at hstep
    dsimp only at hstep
    split_ifs at hstep with huser hfree
    cases hstep
    exact howner (not_not.1 huser) (.inl hfree) (.inr rfl) (if_pos hfree)
  | unlock i =>
    unfold condStep at hstep
    dsimp only at hstep
    split_ifs at hstep with huser hmine
    cases hstep
    exact howner (not_not.1 huser) (.inr hmine) (.inl rfl) (if_pos hmine)
  | wait i =>
    unfold condStep at hstep
    dsimp only at hstep
    split_ifs at hstep with hmine
    exact .call h ha .locking rfl rfl (fun _ => hmine) rfl rfl rfl nofun hstep
  | notify i all => exact .call h ha (.notifying all) rfl rfl nofun rfl rfl rfl nofun hstep
  | interrupt i u =>
    unfold condStep at hstep
    dsimp only at hstep
    split_ifs at hstep with hdata
    refine .call h ha (.interrupting u) rfl rfl nofun rfl rfl rfl (fun v hv => ?_) hstep
    cases hv
    exact hdata
  | checkPoint i => exact .call h ha .checkPoint rfl rfl nofun rfl rfl rfl nofun hstep
  | goOn i pick => exact .goOn h ha hstep
  | wake i =>
    unfold condStep at hstep
    dsimp only at hstep
    split_ifs at hstep with hφ
    cases hstep
    refine .seen h ha (.woken h hφ) (.wake i) rfl ?_ (fun v hv => .inl hv) (fun _ => nofun) nofun
    exact if_pos (show (s.phase i).asleep = true by rw [hφ]; rfl)

/-! ### Runs -/

omit [Fintype ι] [DecidableEq ι] in
theorem start_sound (hasData : ι → Bool) : Sound (start hasData) where
  mtx i := ⟨nofun, nofun⟩
  data u i := ⟨nofun, nofun⟩
  owns i hi := by cases hi
  gaveUp i hi := by cases hi
  cond i := (Bool.and_false _).symm
  uses i u hu := by cases hu

/-- What holds in every state that a run gets to -/
theorem reached {hasData : ι → Bool} {es : List (CondEvent ι)} (h : Run condStep (fun _ _ => True) (start hasData) es s) :
    Sound s ∧ Alerted s ∧ exec Monitor.step s.trace Monitor.start = .ok s.monitor := by
  refine h.inv (fun s => Sound s ∧ Alerted s ∧ exec Monitor.step s.trace Monitor.start = .ok s.monitor) ?_ ?_
  · rintro s e t ⟨hs, ha, hexec⟩ - hstep
    have hgood := Good.step hs ha hstep
    obtain ⟨es, htrace, hes⟩ := hgood.sim
    refine ⟨hgood.sound, hgood.alerted, ?_⟩
    rw [htrace, exec_append hexec]
    exact hes
  · exact ⟨start_sound hasData, ⟨nofun, nofun⟩, rfl⟩

/-- One thread waits until another one notifies, and waits again until the other one interrupts it. -/
def waits : List (CondEvent Bool) :=
  [.lock false, .wait false] ++ List.replicate 5 (.goOn false none) ++
    [.notify true true, .goOn true none, .goOn true none] ++ List.replicate 7 (.goOn false none) ++
    [.wait false] ++ List.replicate 5 (.goOn false none) ++ [.interrupt true false, .goOn true none, .goOn true none]

end CondVar

/-! ### Going on -/

/-- The steps of a thread to the end of its call -/
def CondPhase.togo {ι : Type} : CondPhase ι → ℕ
  | .user => 0
  | .locking => 13
  | .checking => 12
  | .publishing => 11
  | .entering => 10
  | .released => 9
  | .waiting false => 8
  | .waiting true => 7
  | .leaving => 6
  | .left => 5
  | .clearing => 4
  | .relocking => 3
  | .checkPoint => 2
  | .checkPointing => 1
  | .notifying _ => 2
  | .notified _ => 1
  | .interrupting _ => 4
  | .flagging _ => 3
  | .alarming _ => 2
  | .alarmed _ => 1

/-- A step within a call -/
def CondEvent.goesOn {ι : Type} : CondEvent ι → Bool
  | .goOn _ _ | .wake _ => true
  | _ => false

namespace CondVar

variable {ι : Type} [DecidableEq ι] [Fintype ι] {s s' : CondVar ι} {i : ι}

/-- No thread can go on. -/
def Stuck (s : CondVar ι) : Prop := ∀ i pick s', s.goOn i pick ≠ .ok s'

/-- The thread is in no call, asleep with nothing that is to wake it, or in front of a mutex that a caller has. -/
def Settled (s : CondVar ι) (i : ι) : Prop :=
  s.phase i = .user ∨ (s.phase i = .waiting false ∧ (s.data i).interrupted = false) ∨
    (s.phase i = .relocking ∧ ∃ k, s.owner = some k ∧ s.phase k = .user)

omit [Fintype ι] [DecidableEq ι] in
theorem notifyAll_togo (phase : ι → CondPhase ι) (j : ι) : (notifyAll phase j).togo ≤ (phase j).togo := by
  unfold notifyAll
  cases phase j with
  | waiting notified => cases notified <;> simp [CondPhase.togo]
  | _ => exact Nat.le_refl _

theorem goOn_togo {pick : Option ι} (hg : s.goOn i pick = .ok s') :
    ∃ φ : CondPhase ι, φ.togo < (s.phase i).togo ∧ ∀ j, (s'.phase j).togo ≤ (Function.update s.phase i φ j).togo := by
  unfold CondVar.goOn at hg
  cases hφ : s.phase i with
  | checking | checkPointing =>
    rw [hφ] at hg
    dsimp only at hg
    cases hc : s.checkInterrupt i with
    | some d =>
      rw [hc] at hg
      cases hg
      obtain ⟨-, rfl⟩ := checkInterrupt_eq hc
      exact ⟨.user, by simp [CondPhase.togo], fun j => Nat.le_refl _⟩
    | none =>
      rw [hc] at hg
      cases hg
      exact ⟨_, by simp [CondPhase.togo], fun j => Nat.le_refl _⟩
  | notified all =>
    rw [hφ] at hg
    dsimp only at hg
    refine ⟨.user, by simp [CondPhase.togo], ?_⟩
    split_ifs at hg
    · cases hg
      exact notifyAll_togo _
    · rcases notifyOne_eq hg with ⟨u, -, hu, rfl⟩ | ⟨-, -, rfl⟩
      · intro j
        show (Function.update (Function.update s.phase i .user) u (.waiting true) j).togo ≤ _
        by_cases hj : j = u
        · subst hj
          rw [Function.update_self, show Function.update s.phase i .user j = .waiting false from hu]
          simp [CondPhase.togo]
        · rw [Function.update_of_ne hj]
      · exact fun j => Nat.le_refl _
  | alarmed u =>
    rw [hφ] at hg
    cases hg
    exact ⟨.user, by simp [CondPhase.togo], notifyAll_togo _⟩
  | waiting notified =>
    rw [hφ] at hg
    dsimp only at hg
    split_ifs at hg with hn
    cases hg
    rw [Bool.not_eq_false] at hn
    subst hn
    exact ⟨_, by simp [CondPhase.togo], fun j => Nat.le_refl _⟩
  | leaving =>
    rw [hφ] at hg
    cases hg
    refine ⟨_, ?_, fun j => Nat.le_refl _⟩
    split_ifs <;> simp [CondPhase.togo]
  | user =>
    rw [hφ] at hg
    cases hg
  | released | clearing =>
    rw [hφ] at hg
    cases hg
    exact ⟨_, by simp [CondPhase.togo], fun j => Nat.le_refl _⟩
  | _ =>
    rw [hφ] at hg
    dsimp only at hg
    split_ifs at hg <;> cases hg <;> exact ⟨_, by simp [CondPhase.togo], fun j => Nat.le_refl _⟩

theorem goesOn_togo {e : CondEvent ι} (he : e.goesOn = true) (hstep : condStep e s = .ok s') :
    tally CondPhase.togo s'.phase < tally CondPhase.togo s.phase := by
  have hless : ∃ (i : ι) (φ : CondPhase ι), φ.togo < (s.phase i).togo ∧ ∀ j, (s'.phase j).togo ≤ (Function.update s.phase i φ j).togo := by
    cases e with
    | goOn i pick => exact ⟨i, goOn_togo hstep⟩
    | wake i =>
      unfold condStep at hstep
      dsimp only at hstep
      split_ifs at hstep with hφ
      cases hstep
      exact ⟨i, .waiting true, by rw [hφ]; simp [CondPhase.togo], fun j => Nat.le_refl _⟩
    | _ => cases he
  obtain ⟨i, φ, hi, hle⟩ := hless
  have hupdate := Tally.update CondPhase.togo s.phase i φ
  have hsum := Tally.le hle
  omega

theorem length_le_togo {es : List (CondEvent ι)} (h : Run condStep (fun _ e => e.goesOn = true) s es s') :
    es.length + tally CondPhase.togo s'.phase ≤ tally CondPhase.togo s.phase := by
  induction h with
  | nil => exact Nat.le_of_eq (Nat.zero_add _)
  | cons he hstep _ ih =>
    have hless := goesOn_togo he hstep
    rw [List.length_cons]
    omega

/-- Who has `m_mtx` can go on. -/
theorem Stuck.mtx_free (hstuck : s.Stuck) (h : Sound s) : s.mtx = none := by
  cases hm : s.mtx with
  | none => rfl
  | some k =>
    exfalso
    have hk : (s.phase k).holdsMtx = true := (h.mtx k).1 hm
    have hgo := hstuck k
    unfold CondVar.goOn at hgo
    cases hφ : s.phase k with
    | entering =>
      rw [hφ] at hgo
      exact hgo none _ (if_pos (h.owns k (by rw [hφ]; rfl)))
    | released | leaving | alarmed =>
      rw [hφ] at hgo
      exact hgo none _ rfl
    | notified all =>
      rw [hφ] at hgo
      cases all with
      | true => exact hgo none _ rfl
      | false =>
        by_cases hw : ∃ u, Function.update s.phase k .user u = .waiting false
        · obtain ⟨u, hu⟩ := hw
          exact hgo (some u) _ (if_pos hu)
        · exact hgo none _ (if_pos fun u hu => hw ⟨u, hu⟩)
    | _ =>
      rw [hφ] at hk
      cases hk

/-- Who has a `thread_data` can go on, where `m_mtx` is free. -/
theorem Stuck.data_free (hstuck : s.Stuck) (h : Sound s) (u : ι) : (s.data u).mtx = none := by
  cases hm : (s.data u).mtx with
  | none => rfl
  | some k =>
    exfalso
    have hk : (s.phase k).dataHeld (s.hasData k) k = some u := (h.data u k).1 hm
    have hfree := hstuck.mtx_free h
    have hgo := hstuck k none
    unfold CondVar.goOn at hgo
    cases hφ : s.phase k with
    | checking | checkPointing =>
      rw [hφ] at hgo
      dsimp only at hgo
      cases hc : s.checkInterrupt k with
      | some d =>
        rw [hc] at hgo
        exact hgo _ rfl
      | none =>
        rw [hc] at hgo
        exact hgo _ rfl
    | clearing | alarmed =>
      rw [hφ] at hgo
      exact hgo _ rfl
    | publishing | alarming =>
      rw [hφ] at hgo
      exact hgo _ (if_pos hfree)
    | flagging v =>
      rw [hφ] at hgo
      dsimp only at hgo
      split_ifs at hgo
      · exact hgo _ rfl
      · exact hgo _ rfl
    | _ =>
      rw [hφ] at hk
      cases hk

/-- Where a thread is that cannot go on -/
theorem Stuck.rests (hstuck : s.Stuck) (h : Sound s) (i : ι) :
    s.phase i = .user ∨ s.phase i = .waiting false ∨ (s.phase i = .relocking ∧ s.owner ≠ none) := by
  have hmtx := hstuck.mtx_free h
  have hdata := hstuck.data_free h
  have hnoMtx : ∀ k, (s.phase k).holdsMtx = true → False := fun k hk => Option.some_ne_none k (((h.mtx k).2 hk).symm.trans hmtx)
  have hnoData : ∀ u k, (s.phase k).dataHeld (s.hasData k) k = some u → False := fun u k hk =>
    Option.some_ne_none k (((h.data u k).2 hk).symm.trans (hdata u))
  have hgo := hstuck i none
  unfold CondVar.goOn at hgo
  cases hφ : s.phase i with
  | user => exact .inl rfl
  | waiting notified =>
    cases notified with
    | false => exact .inr (.inl rfl)
    | true =>
      rw [hφ] at hgo
      exact absurd (if_pos hmtx) (hgo _)
  | relocking =>
    rw [hφ] at hgo
    exact .inr (.inr ⟨rfl, fun hfree => absurd (if_pos hfree) (hgo _)⟩)
  | publishing | notifying | alarming =>
    rw [hφ] at hgo
    exact absurd (if_pos hmtx) (hgo _)
  | left =>
    rw [hφ] at hgo
    exact absurd (if_pos (hdata i)) (hgo _)
  | interrupting u =>
    rw [hφ] at hgo
    exact absurd (if_pos (hdata u)) (hgo _)
  | locking | checkPoint =>
    rw [hφ] at hgo
    dsimp only at hgo
    split_ifs at hgo with hd hfree
    · exact absurd rfl (hgo _)
    · exact absurd rfl (hgo _)
    · exact absurd (hdata i) hfree
  | entering | released | leaving | notified | alarmed => exact (hnoMtx i (by rw [hφ]; rfl)).elim
  | checking | clearing | checkPointing => exact (hnoData i i (by rw [hφ]; rfl)).elim
  | flagging u => exact (hnoData u i (by rw [hφ]; rfl)).elim

theorem Stuck.settled (hstuck : s.Stuck) (h : Sound s) (ha : Alerted s) (i : ι) : s.Settled i := by
  rcases hstuck.rests h i with huser | hwait | ⟨hre, howner⟩
  · exact .inl huser
  · -- who was to notify the thread could go on
    refine .inr (.inl ⟨hwait, Bool.eq_false_iff.2 fun hflag => ?_⟩)
    obtain ⟨k, hk⟩ := ha.alarm i hflag (by rw [hwait]; rfl)
    have hheld := (h.data i k).2 (dataHeld_of_alarms hk)
    rw [hstuck.data_free h i] at hheld
    cases hheld
  · obtain ⟨k, hk⟩ := Option.ne_none_iff_exists'.1 howner
    refine .inr (.inr ⟨hre, k, hk, ?_⟩)
    -- the caller is not in `wait`, where it would not have the mutex
    have hgave := h.gaveUp k
    rcases hstuck.rests h k with huser | hwait | ⟨hre', -⟩
    · exact huser
    · exact absurd hk (hgave (by rw [hwait]; rfl))
    · exact absurd hk (hgave (by rw [hre']; rfl))

/-- The calls that threads are in come to their ends, without a deadlock, whatever the order in which the threads
go on: at most `togo` steps later no thread sleeps that was interrupted, and none waits for a lock that is not the
mutex of the callers. -/
theorem condition_settles {hasData : ι → Bool} {es es' : List (CondEvent ι)}
    (h : Run condStep (fun _ _ => True) (start hasData) es s) (h' : Run condStep (fun _ e => e.goesOn = true) s es' s') :
    es'.length + tally CondPhase.togo s'.phase ≤ tally CondPhase.togo s.phase ∧ (s'.Stuck → ∀ i, s'.Settled i) := by
  obtain ⟨hs, ha, -⟩ := reached (h.append (h'.mono fun _ _ _ => trivial))
  exact ⟨length_le_togo h', fun hstuck i => hstuck.settled hs ha i⟩

/-- One thread sleeps, another one begins to interrupt it. -/
def sleeps : List (CondEvent Bool) := [.lock false, .wait false] ++ List.replicate 5 (.goOn false none) ++ [.interrupt true false]

/-- Both go on. -/
def wakes : List (CondEvent Bool) := List.replicate 4 (.goOn true none) ++ List.replicate 7 (.goOn false none)

theorem condition_settles_interrupt : ∃ s s' : CondVar Bool, Run condStep (fun _ _ => True) (start fun _ => true) sleeps s ∧
    Run condStep (fun _ e => e.goesOn = true) s wakes s' ∧ s'.trace.getLast? = some (.throw false) ∧ s'.Stuck ∧
    11 + tally CondPhase.togo s'.phase ≤ tally CondPhase.togo s.phase ∧ ∀ i, s'.Settled i := by
  obtain ⟨s, hrun, hs⟩ := Run.of_decide (f := condStep) (P := fun _ _ => True) sleeps (s := start fun _ => true)
    (Q := fun s => passes condStep (fun _ e => e.goesOn)
      (fun s => decide (s.trace.getLast? = some (.throw false) ∧ ∀ i, s.phase i = .user)) wakes s = true) (by decide)
  obtain ⟨s', hrun', hs'⟩ := Run.of_passes wakes hs
  obtain ⟨hlast, hphase⟩ := of_decide_eq_true hs'
  have hstuck : s'.Stuck := by
    intro i pick t
    unfold CondVar.goOn
    rw [hphase i]
    nofun
  obtain ⟨hlength, hsettled⟩ := condition_settles hrun hrun'
  exact ⟨s, s', hrun, hrun', hlast, hstuck, hlength, hsettled hstuck⟩

end CondVar
end Wawo
