import Wawo.Lib.Run
import Wawo.Lib.Tally
import Wawo.Wcp.Basic

/-!
# `shared_mutex` (`thread/impl/shared_mutex.hpp`)

Every function of the mutex is a section under `m_state_mutex`, or two or more of them with a wait on one
of three condition variables in between: a wait gives `m_state_mutex` up until the thread wakes. An event
is one section of one thread, so that runs are the interleavings of the sections. `notify_one` wakes one of
the threads that wait, which one is part of the event; the others, and those woken without a notification,
go through the loop around their wait again.

What a thread holds is known from the functions it has returned from. `Counts` is the invariant: the three
fields of `state_data` say what the threads hold.
-/

namespace Wawo

open Lts

/-- `state_data::UpgradeState` -/
inductive UpgradeState
  | set
  | uping
  | noset
deriving DecidableEq

inductive SharedMutexFault
  | notExclusive -- `exclusive == true`
  | exclusive -- `!exclusive`, `exclusive == false`
  | noShared -- `has_more_shared()`, `shared_count > 0`
  | moreShared -- `!has_more_shared()`
  | upgrade -- the assertions on `upgrade`
  | canLockShared -- `can_lock_shared()`
  | pick -- not an assertion: `notify_one` does not wake this thread
deriving DecidableEq

structure StateData where
  sharedCount : Nat
  upgrade : UpgradeState
  exclusive : Bool
deriving DecidableEq

namespace StateData

variable (d : StateData)

def canLockShared : Bool := !(d.exclusive || d.upgrade != .noset)

def hasMoreShared : Bool := d.sharedCount != 0

def lockShared : StateData := { d with sharedCount := u32 (d.sharedCount + 1) }

def unlockShared : Except SharedMutexFault StateData :=
  if d.exclusive then .error .exclusive
  else if d.sharedCount = 0 then .error .noShared
  else .ok { d with sharedCount := d.sharedCount - 1 }

def canLockUpgrade : Bool := !(d.exclusive || d.upgrade != .noset)

def lockUpgrade : Except SharedMutexFault StateData :=
  if d.upgrade = .set then .error .upgrade
  else .ok { d with sharedCount := u32 (d.sharedCount + 1), upgrade := .set }

def unlockUpgrade : Except SharedMutexFault StateData :=
  if d.upgrade ≠ .set then .error .upgrade
  else if d.sharedCount = 0 then .error .noShared
  else .ok { d with upgrade := .noset, sharedCount := d.sharedCount - 1 }

def unlockUpgradeAndUp : Except SharedMutexFault StateData :=
  if d.upgrade ≠ .set then .error .upgrade
  else if d.sharedCount = 0 then .error .noShared
  else .ok { d with upgrade := .uping, sharedCount := d.sharedCount - 1 }

def lockUpgradeUpDone : Except SharedMutexFault StateData :=
  if d.upgrade ≠ .uping then .error .upgrade else .ok { d with upgrade := .noset }

/-- What `lock`, `unlock_shared_and_lock` and `unlock_upgrade_and_lock` do behind their loop. -/
def lockExclusive : Except SharedMutexFault StateData :=
  if d.hasMoreShared then .error .moreShared
  else if d.exclusive then .error .exclusive
  else .ok { d with exclusive := true }

end StateData

/-- `m_shared_cond`, `m_exclusive_cond`, `m_upgrade_cond` -/
inductive MutexCond
  | shared
  | exclusive
  | upgrade
deriving DecidableEq

/-- The functions that wait. -/
inductive MutexWait
  | lockShared
  | lock
  | unlockSharedAndLock
  | lockUpgrade
  | unlockUpgradeAndLock
deriving DecidableEq

def MutexWait.cond : MutexWait → MutexCond
  | lockShared | lockUpgrade => .shared
  | lock | unlockSharedAndLock => .exclusive
  | unlockUpgradeAndLock => .upgrade

structure MutexThread where
  wait : Option MutexWait -- the function it waits in
  notified : Bool -- a notification has ended its wait
  shared : Nat -- shared locks it holds
  upgrade : Bool -- it holds the upgrade lock
  exclusive : Bool -- it holds the exclusive lock
deriving DecidableEq

namespace MutexThread

variable (t : MutexThread)

def start : MutexThread := ⟨none, false, 0, false, false⟩

/-- It waits on `c`, and no notification is pending for it. -/
def WaitsOn (c : MutexCond) : Prop := t.wait.map MutexWait.cond = some c ∧ t.notified = false

instance (c : MutexCond) : Decidable (t.WaitsOn c) := inferInstanceAs (Decidable (_ ∧ _))

def notify : MutexThread := { t with notified := true }

def waitIn (w : MutexWait) : MutexThread := { t with wait := some w, notified := false }

/-- The function it waited in returns. -/
def gain (w : MutexWait) : MutexThread :=
  let t := { t with wait := none, notified := false }
  match w with
  | .lockShared => { t with shared := t.shared + 1 }
  | .lockUpgrade => { t with upgrade := true }
  | .lock | .unlockSharedAndLock | .unlockUpgradeAndLock => { t with exclusive := true }

/-- It is inside `unlock_upgrade_and_lock`. -/
def Upgrading : Prop := t.wait = some .unlockUpgradeAndLock

instance : Decidable t.Upgrading := inferInstanceAs (Decidable (_ = _))

end MutexThread

/-- `m_state`, and the threads that use the mutex. -/
structure SharedMutex (ι : Type) where
  state : StateData
  thread : ι → MutexThread

namespace SharedMutex

variable {ι : Type} [DecidableEq ι]

def start (ι : Type) : SharedMutex ι := ⟨⟨0, .noset, false⟩, fun _ => .start⟩

section
variable (s : SharedMutex ι)

/-- A new `m_state`, and a thread that is new with it. -/
def put (d : StateData) (i : ι) (t : MutexThread) : SharedMutex ι := ⟨d, Function.update s.thread i t⟩

def setThread (i : ι) (t : MutexThread) : SharedMutex ι := s.put s.state i t

/-- `notify_one` on `c`, which wakes `pick`. -/
def notifyOne [Fintype ι] (c : MutexCond) (pick : Option ι) : Except SharedMutexFault (SharedMutex ι) :=
  match pick with
  | some j => if (s.thread j).WaitsOn c then .ok (s.setThread j (s.thread j).notify) else .error .pick
  | none => if ∃ j, (s.thread j).WaitsOn c then .error .pick else .ok s

def notifyAll (c : MutexCond) : SharedMutex ι :=
  { s with thread := fun j => if (s.thread j).WaitsOn c then (s.thread j).notify else s.thread j }

/-- `_notify_waiters` -/
def notifyWaiters [Fintype ι] (pick : Option ι) : Except SharedMutexFault (SharedMutex ι) :=
  (s.notifyOne .exclusive pick).map fun s => s.notifyAll .shared

/-- The condition of the loop around a wait. -/
def blocked (w : MutexWait) : Bool :=
  match w with
  | .lockShared => !s.state.canLockShared
  | .lockUpgrade => !s.state.canLockUpgrade
  | .lock | .unlockSharedAndLock | .unlockUpgradeAndLock => s.state.hasMoreShared || s.state.exclusive

/-- What a function does behind its loop. -/
def acquire (w : MutexWait) : Except SharedMutexFault StateData :=
  match w with
  | .lockShared => .ok s.state.lockShared
  | .lockUpgrade => s.state.lockUpgrade
  | .lock | .unlockSharedAndLock => s.state.lockExclusive
  | .unlockUpgradeAndLock => s.state.lockExclusive >>= StateData.lockUpgradeUpDone

/-- From the test of the loop on, to the end of the function or to the next wait. -/
def goOn (i : ι) (w : MutexWait) : Except SharedMutexFault (SharedMutex ι) :=
  if s.blocked w then .ok (s.setThread i ((s.thread i).waitIn w))
  else (s.acquire w).map fun d => s.put d i ((s.thread i).gain w)

end

/-- The functions of the mutex. -/
inductive Call
  | lockShared
  | unlockShared
  | unlockSharedAndLock
  | lock
  | unlock
  | unlockAndLockShared
  | tryLock
  | tryLockShared
  | lockUpgrade
  | unlockUpgrade
  | unlockUpgradeAndLock
deriving DecidableEq

/-- The thread has what the function releases. -/
def Call.Held (c : Call) (t : MutexThread) : Prop :=
  match c with
  | .unlock | .unlockAndLockShared => t.exclusive = true
  | .unlockShared | .unlockSharedAndLock => 0 < t.shared
  | .unlockUpgrade | .unlockUpgradeAndLock => t.upgrade = true
  | .lockShared | .lock | .tryLock | .tryLockShared | .lockUpgrade => True

instance (c : Call) (t : MutexThread) : Decidable (c.Held t) := by unfold Call.Held; cases c <;> infer_instance

/-- The first section of a function, called by thread `i`. -/
def call [Fintype ι] (i : ι) (pick : Option ι) (c : Call) (s : SharedMutex ι) : Except SharedMutexFault (SharedMutex ι) :=
  let t := s.thread i
  let d := s.state
  match c with
  | .lockShared => s.goOn i .lockShared
  | .unlockShared =>
    if !d.hasMoreShared then .error .noShared
    else do
      let d ← d.unlockShared
      let s := s.put d i { t with shared := t.shared - 1 }
      if d.hasMoreShared then .ok s
      else if d.upgrade = .set then s.notifyOne .upgrade pick
      else s.notifyWaiters pick
  | .unlockSharedAndLock =>
    if !d.hasMoreShared then .error .noShared
    else if d.exclusive then .error .exclusive
    else do
      let d ← d.unlockShared
      (s.put d i { t with shared := t.shared - 1 }).goOn i .unlockSharedAndLock
  | .lock => s.goOn i .lock
  | .unlock =>
    if d.hasMoreShared then .error .moreShared
    else if !d.exclusive then .error .notExclusive
    else (s.put { d with exclusive := false } i { t with exclusive := false }).notifyWaiters pick
  | .unlockAndLockShared =>
    if d.hasMoreShared then .error .moreShared
    else if !d.exclusive then .error .notExclusive
    else
      let d := { d with exclusive := false }
      if !d.canLockShared then .error .canLockShared
      else .ok (s.put d.lockShared i { t with exclusive := false, shared := t.shared + 1 })
  | .tryLock =>
    if d.hasMoreShared || d.exclusive then .ok s
    else .ok (s.put { d with exclusive := true } i { t with exclusive := true })
  | .tryLockShared =>
    if !d.canLockShared then .ok s
    else .ok (s.put d.lockShared i { t with shared := t.shared + 1 })
  | .lockUpgrade => s.goOn i .lockUpgrade
  | .unlockUpgrade => do
    let d ← d.unlockUpgrade
    let s := s.put d i { t with upgrade := false }
    if d.hasMoreShared then .ok (s.notifyAll .shared) else s.notifyWaiters pick
  | .unlockUpgradeAndLock => do
    let d ← d.unlockUpgradeAndUp
    (s.put d i { t with upgrade := false, wait := some .unlockUpgradeAndLock }).goOn i .unlockUpgradeAndLock

inductive Action
  | call (c : Call)
  | wake
deriving DecidableEq

/-- A section: the thread, what it does, and the thread that `notify_one` wakes. -/
structure Event (ι : Type) where
  thread : ι
  action : Action
  pick : Option ι

/-- A thread calls a function when it is in none and holds what it releases; a thread that waits may wake. -/
def Allowed (s : SharedMutex ι) (e : Event ι) : Prop :=
  match e.action with
  | .call c => (s.thread e.thread).wait = none ∧ c.Held (s.thread e.thread)
  | .wake => (s.thread e.thread).wait ≠ none

instance (s : SharedMutex ι) (e : Event ι) : Decidable (s.Allowed e) := by
  unfold Allowed; split <;> infer_instance

/-- Threads wake only when they are notified. -/
def NotSpurious (s : SharedMutex ι) (e : Event ι) : Prop :=
  e.action = .wake → (s.thread e.thread).notified = true

instance (s : SharedMutex ι) (e : Event ι) : Decidable (s.NotSpurious e) := inferInstanceAs (Decidable (_ → _))

def step [Fintype ι] (e : Event ι) (s : SharedMutex ι) : Except SharedMutexFault (SharedMutex ι) :=
  match e.action with
  | .call c => s.call e.thread e.pick c
  | .wake =>
    match (s.thread e.thread).wait with
    | none => .ok s
    | some w => s.goOn e.thread w

end SharedMutex
end Wawo
