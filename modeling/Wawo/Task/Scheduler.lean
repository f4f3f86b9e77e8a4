import Mathlib.Data.List.FinRange
import Wawo.Lib.Run
import Wawo.Lib.Tally

/-!
# The scheduler and its runners (`scheduler.hpp`, `runner.hpp`, `runner.cpp`)

`scheduler::schedule` pushes a task into `m_tasks_assigning` under `m_mutex` and notifies one waiting
runner. The thread of a runner looks for a task under the mutex, of a high priority first, waits if there is
none, and runs what it found without the mutex. `m_tasks_runner_wait_count` counts the runners inside the
wait, those included that are notified but do not have the mutex back yet.

A call of `schedule` is one section under the mutex. The thread of a runner goes on in steps: up to the end
of its section (a wait ends it too), each store to its own fields, the run of the task. A task may call
`schedule`. Which waiting runner a notification wakes is the choice of the system, and a runner may wake
without one. Tasks are not `NULL` and do not throw.
-/

namespace Wawo

open Lts

/-- `P_MAX` -/
def pMax : Nat := 2

/-- `priority_task_queue`; a task is its pointer. -/
structure PriorityTaskQueue where
  tasks : Fin pMax → List Nat

inductive SchedulerFault
  | priority -- `tasks[p]` outside the array
  | state -- `schedule`: `m_state == S_RUN`
  | empty -- `run`: `m_tasks_assigning->empty()`
deriving DecidableEq

namespace PriorityTaskQueue

variable (q : PriorityTaskQueue)

def push (t p : Nat) : Except SchedulerFault PriorityTaskQueue :=
  if h : p < pMax then .ok ⟨Function.update q.tasks ⟨p, h⟩ (q.tasks ⟨p, h⟩ ++ [t])⟩ else .error .priority

/-- The priority, the task, and the queue behind it. -/
def frontAndPop : Option (Fin pMax × Nat × PriorityTaskQueue) :=
  (List.finRange pMax).findSome? fun i =>
    match q.tasks i with
    | [] => none
    | t :: ts => some (i, t, ⟨Function.update q.tasks i ts⟩)

def empty : Bool := (List.finRange pMax).all fun i => (q.tasks i).isEmpty

end PriorityTaskQueue

/-- `scheduler::task_manager_state` -/
inductive TaskManagerState
  | idle
  | run
  | exit
deriving DecidableEq

/-- `task_runner_state` -/
inductive TaskRunnerState
  | idle
  | waiting
  | assigned
  | running
  | ending
deriving DecidableEq

/-- Where the thread of a runner is. -/
inductive TaskPhase
  | loop -- at the beginning of the loop of `run`
  | waiting (notified : Bool) -- in the wait, perhaps with a notification that has not woken it yet
  | took (t : Nat) -- behind its section
  | marked (t : Nat) -- behind `m_state = TR_S_RUNNING`
  | running (t : Nat) -- in `task->run()`
  | ended -- behind the loop
deriving DecidableEq

/-- `runner` -/
structure TaskRunner where
  waitFlag : Bool
  state : TaskRunnerState
  phase : TaskPhase
deriving DecidableEq

/-- Behind `on_start`. -/
def TaskRunner.started : TaskRunner := ⟨false, .idle, .loop⟩

/-- A notification is on its way to the thread, which waits. -/
def TaskRunner.notified (r : TaskRunner) : TaskRunner := { r with phase := .waiting true }

/-- `scheduler` with `c` runners. -/
structure Scheduler (c : Nat) where
  state : TaskManagerState
  waitCount : Nat -- `m_tasks_runner_wait_count`, a `u8_t`
  assigning : PriorityTaskQueue
  runners : Fin c → TaskRunner
  scheduled : List (Fin pMax × Nat) -- history: the tasks given to `schedule`, with their priorities
  taken : List (Fin pMax × Nat) -- history: the tasks taken by a runner
  ran : List Nat -- history: the tasks run

namespace Scheduler

variable {c : Nat}

/-- Behind `start`. -/
def started (c : Nat) : Scheduler c := ⟨.run, 0, ⟨fun _ => []⟩, fun _ => .started, [], [], []⟩

variable (s : Scheduler c)

def setRunner (i : Fin c) (r : TaskRunner) : Scheduler c := { s with runners := Function.update s.runners i r }

/-- `m_condition.notify_one()`, which wakes the thread of runner `w`, if any. -/
def notifyOne (w : Option (Fin c)) : Scheduler c :=
  match w with
  | none => s
  | some i => s.setRunner i (s.runners i).notified

/-- `scheduler::schedule` -/
def schedule (t p : Nat) (w : Option (Fin c)) : Except SchedulerFault (Scheduler c) :=
  if s.state ≠ .run then .error .state
  else
    (s.assigning.push t p).map fun q =>
      let s := { s with assigning := q, scheduled := s.scheduled ++ (if h : p < pMax then [(⟨p, h⟩, t)] else []) }
      if s.waitCount > 0 then s.notifyOne w else s

/-- `runner::run` from `check_begin` to the end of the section, or to the next wait. -/
def checkBegin (i : Fin c) : Except SchedulerFault (Scheduler c) :=
  let r := s.runners i
  if r.state = .ending then .ok (s.setRunner i { r with phase := .ended })
  else
    match s.assigning.frontAndPop with
    | some (p, t, q) => .ok { s.setRunner i { r with phase := .took t } with assigning := q, taken := s.taken ++ [(p, t)] }
    | none =>
      if !s.assigning.empty then .error .empty
      else .ok { s.setRunner i { r with state := .waiting, phase := .waiting false } with waitCount := (s.waitCount + 1) % 256 }

/-- The thread of a runner goes on. -/
def advance (i : Fin c) : Except SchedulerFault (Scheduler c) :=
  let r := s.runners i
  match r.phase with
  | .loop => s.checkBegin i
  | .waiting _ => { s with waitCount := (s.waitCount + 255) % 256 }.checkBegin i
  | .took t => .ok (s.setRunner i { r with state := .running, phase := .marked t })
  | .marked t => .ok (s.setRunner i { r with waitFlag := false, phase := .running t })
  | .running t => .ok { s.setRunner i { r with phase := .loop } with ran := s.ran ++ [t] }
  | .ended => .ok s

end Scheduler

inductive SchedulerEvent (c : Nat)
  | schedule (t p : Nat) (w : Option (Fin c))
  | advance (i : Fin c)

def schedulerStep {c : Nat} : SchedulerEvent c → Scheduler c → Except SchedulerFault (Scheduler c)
  | .schedule t p w, s => s.schedule t p w
  | .advance i, s => s.advance i

namespace Scheduler

variable {c : Nat}

/-- A notification wakes a thread that waits without one, if there is any. -/
def Wakes (s : Scheduler c) : Option (Fin c) → Prop
  | none => ∀ i, (s.runners i).phase ≠ .waiting false
  | some i => (s.runners i).phase = .waiting false

instance (s : Scheduler c) : (w : Option (Fin c)) → Decidable (s.Wakes w)
  | none => inferInstanceAs (Decidable (∀ i, (s.runners i).phase ≠ .waiting false))
  | some i => inferInstanceAs (Decidable ((s.runners i).phase = .waiting false))

/-- The priorities are those of the array, and a notification does what it should. -/
def Fair (s : Scheduler c) : SchedulerEvent c → Prop
  | .schedule _ p w => p < pMax ∧ s.Wakes w
  | .advance _ => True

instance (s : Scheduler c) : (e : SchedulerEvent c) → Decidable (s.Fair e)
  | .schedule _ p w => inferInstanceAs (Decidable (p < pMax ∧ s.Wakes w))
  | .advance _ => inferInstanceAs (Decidable True)

end Scheduler

/-! ### The queue -/

namespace PriorityTaskQueue

variable {q : PriorityTaskQueue}

/-- The number of tasks in the queue. -/
def pending (q : PriorityTaskQueue) : Nat := tally List.length q.tasks

theorem push_ok {t p : Nat} (hp : p < pMax) :
    q.push t p = .ok ⟨Function.update q.tasks ⟨p, hp⟩ (q.tasks ⟨p, hp⟩ ++ [t])⟩ := by
  rw [push, dif_pos hp]

theorem empty_iff : q.empty = true ↔ q.pending = 0 := by
  simp [empty, pending, Tally.eq_zero]

/-- The first task of the first queue that has one. -/
theorem frontAndPop_some {p : Fin pMax} {t : Nat} {q' : PriorityTaskQueue} (h : q.frontAndPop = some (p, t, q')) :
    ∃ ts, q.tasks p = t :: ts ∧ (∀ p' < p, q.tasks p' = []) ∧ q' = ⟨Function.update q.tasks p ts⟩ := by
  unfold frontAndPop at h
  obtain ⟨l₁, a, l₂, hl, ha, hnone⟩ := List.findSome?_eq_some_iff.1 h
  cases htask : q.tasks a with
  | nil => simp [htask] at ha
  | cons t' ts =>
    simp only [htask, Option.some.injEq, Prod.mk.injEq] at ha
    obtain ⟨rfl, rfl, rfl⟩ := ha
    refine ⟨ts, htask, fun p' hp' => ?_, rfl⟩
    have hmem : p' ∈ l₁ := by
      have hp : p' ∈ l₁ ++ a :: l₂ := hl ▸ List.mem_finRange p'
      have hsorted : (l₁ ++ a :: l₂).Pairwise (· < ·) := hl ▸ List.pairwise_lt_finRange pMax
      rcases List.mem_append.1 hp with hp | hp
      · exact hp
      · have hlt := (List.pairwise_cons.1 (List.pairwise_append.1 hsorted).2.1).1
        rcases List.mem_cons.1 hp with rfl | hp
        · exact absurd hp' (lt_irrefl _)
        · exact absurd hp' (lt_asymm (hlt p' hp))
    have := hnone p' hmem
    cases htask' : q.tasks p' with
    | nil => rfl
    | cons => simp [htask'] at this

theorem frontAndPop_none (h : q.frontAndPop = none) : q.pending = 0 := by
  refine Tally.eq_zero.2 fun p => ?_
  have := List.findSome?_eq_none_iff.1 h p (List.mem_finRange p)
  cases htask : q.tasks p with
  | nil => rfl
  | cons => simp [htask] at this

end PriorityTaskQueue

/-! ### What the runners come to -/

namespace TaskRunner

variable (r : TaskRunner)

/-- It is counted by `m_tasks_runner_wait_count`. -/
def waits : Nat :=
  match r.phase with
  | .waiting _ => 1
  | _ => 0

/-- It waits, and no notification is on its way. -/
def sleeps : Nat :=
  match r.phase with
  | .waiting false => 1
  | _ => 0

/-- It looks for a task next. -/
def looks : Nat :=
  match r.phase with
  | .loop | .waiting true => 1
  | _ => 0

/-- It has `t` and has not run it yet. -/
def holds (t : Nat) : Nat :=
  match r.phase with
  | .took u | .marked u | .running u => if u = t then 1 else 0
  | _ => 0

/-- Before `stop`, and waiting where the phase says so. -/
def PhaseOk : Prop := r.state ≠ .ending ∧ r.phase ≠ .ended ∧ ∀ b, r.phase = .waiting b → r.state = .waiting

/-- The steps the thread has before it that need no other thread. -/
def steps : Nat :=
  match r.phase with
  | .loop | .waiting true => 1
  | .took _ => 4
  | .marked _ => 3
  | .running _ => 2
  | .waiting false | .ended => 0

end TaskRunner

namespace Scheduler

variable {c : Nat} {s s' : Scheduler c} {i : Fin c} {t : Nat}

/-- The tasks of priority `p`. -/
def withPriority (p : Fin pMax) (l : List (Fin pMax × Nat)) : List Nat := (l.filter (·.1 = p)).map (·.2)

/-- No task is lost, and none changes its place among those of its priority. While a thread sleeps, there
are as many threads about to look for a task as there are tasks. -/
structure Sound (s : Scheduler c) : Prop where
  running : s.state = .run
  phase : ∀ i, (s.runners i).PhaseOk
  count : s.waitCount = tally TaskRunner.waits s.runners
  order : ∀ p, withPriority p s.taken ++ s.assigning.tasks p = withPriority p s.scheduled
  held : ∀ t, (s.taken.map (·.2)).count t = s.ran.count t + tally (TaskRunner.holds · t) s.runners
  awake : 0 < tally TaskRunner.sleeps s.runners → s.assigning.pending ≤ tally TaskRunner.looks s.runners

theorem withPriority_append (p : Fin pMax) (l l' : List (Fin pMax × Nat)) :
    withPriority p (l ++ l') = withPriority p l ++ withPriority p l' := by
  simp [withPriority]

theorem withPriority_self (p : Fin pMax) (t : Nat) : withPriority p [(p, t)] = [t] := by
  simp [withPriority]

theorem withPriority_of_ne {p p' : Fin pMax} (h : p' ≠ p) (t : Nat) : withPriority p [(p', t)] = [] := by
  simp [withPriority, h]

theorem started_sound : Sound (started c) := by
  refine ⟨rfl, fun _ => ⟨by simp [started, TaskRunner.started], by simp [started, TaskRunner.started], fun b hb => ?_⟩,
    ?_, fun _ => rfl, fun t => ?_, fun _ => ?_⟩
  · simp [started, TaskRunner.started] at hb
  · exact (Tally.eq_zero.2 fun _ => rfl).symm
  · rw [(Tally.eq_zero.2 fun _ => rfl : tally (TaskRunner.holds · t) (started c).runners = 0)]
    rfl
  · rw [show (started c).assigning.pending = 0 from Tally.eq_zero.2 fun _ => rfl]
    exact Nat.zero_le _

/-- One runner changes. -/
theorem tally_setRunner (f : TaskRunner → Nat) (r : TaskRunner) :
    tally f (s.setRunner i r).runners + f (s.runners i) = tally f s.runners + f r :=
  Tally.update f s.runners i r

theorem phaseOk_setRunner {r : TaskRunner} (h : ∀ i, (s.runners i).PhaseOk) (hr : r.PhaseOk) (j : Fin c) :
    ((s.setRunner i r).runners j).PhaseOk := by
  by_cases hj : j = i
  · subst hj
    simpa [setRunner] using hr
  · simpa [setRunner, hj] using h j

theorem sleeps_le_waits (r : TaskRunner) : r.sleeps ≤ r.waits := by
  unfold TaskRunner.sleeps TaskRunner.waits
  rcases r.phase with _ | (_ | _) | _ | _ | _ | _ <;> simp

theorem waits_le_one (r : TaskRunner) : r.waits ≤ 1 := by
  unfold TaskRunner.waits
  split <;> simp

/-- Runner `i` becomes `r`: what changes in the sums is what changes between the two. -/
theorem Sound.update {r : TaskRunner} {n : Nat} {q : PriorityTaskQueue} {taken : List (Fin pMax × Nat)} {ran : List Nat}
    (h : Sound s) (hr : r.PhaseOk) (hn : n + (s.runners i).waits = s.waitCount + r.waits)
    (horder : ∀ p, withPriority p taken ++ q.tasks p = withPriority p s.taken ++ s.assigning.tasks p)
    (hheld : ∀ t, (taken.map (·.2)).count t + s.ran.count t + (s.runners i).holds t =
      (s.taken.map (·.2)).count t + ran.count t + r.holds t)
    (hawake : q.pending = 0 ∨ r.sleeps = 0 ∧ q.pending + (s.runners i).looks ≤ s.assigning.pending + r.looks) :
    Sound { s.setRunner i r with waitCount := n, assigning := q, taken := taken, ran := ran } := by
  refine ⟨h.running, phaseOk_setRunner h.phase hr, ?_, fun p => (horder p).trans (h.order p), fun t => ?_, fun hs => ?_⟩
  · have := tally_setRunner (s := s) (i := i) TaskRunner.waits r
    have := h.count
    show n = tally TaskRunner.waits (s.setRunner i r).runners
    omega
  · have := tally_setRunner (s := s) (i := i) (TaskRunner.holds · t) r
    have := h.held t
    have := hheld t
    show _ = ran.count t + tally (TaskRunner.holds · t) (s.setRunner i r).runners
    dsimp only at *
    omega
  · rcases hawake with h0 | ⟨hzero, hle⟩
    · exact h0 ▸ Nat.zero_le _
    · have hsleeps := tally_setRunner (s := s) (i := i) TaskRunner.sleeps r
      have hlooks := tally_setRunner (s := s) (i := i) TaskRunner.looks r
      have hpos : 0 < tally TaskRunner.sleeps (s.setRunner i r).runners := hs
      have := h.awake (by omega)
      show q.pending ≤ tally TaskRunner.looks (s.setRunner i r).runners
      omega

/-- A runner that looks for a task finds the next one, or there is none and it goes to sleep. -/
theorem Sound.checkBegin {n : Nat} (h : Sound s) (hc : c ≤ 255)
    (hr : (s.runners i).phase = .loop ∨ ∃ b, (s.runners i).phase = .waiting b)
    (hn : n + (s.runners i).waits = s.waitCount) :
    ∃ s', Scheduler.checkBegin { s with waitCount := n } i = .ok s' ∧ Sound s' := by
  have hholds : ∀ t, (s.runners i).holds t = 0 := by
    intro t
    unfold TaskRunner.holds
    rcases hr with hr | ⟨b, hr⟩ <;> rw [hr]
  have hlooks : (s.runners i).looks ≤ 1 := by
    unfold TaskRunner.looks
    rcases hr with hr | ⟨notified, hr⟩
    · rw [hr]
    · rw [hr]
      cases notified <;> decide
  unfold Scheduler.checkBegin
  dsimp only
  rw [if_neg (h.phase i).1]
  cases hq : s.assigning.frontAndPop with
  | none =>
    have hzero := PriorityTaskQueue.frontAndPop_none hq
    dsimp only
    rw [PriorityTaskQueue.empty_iff.2 hzero]
    refine ⟨_, rfl, h.update ⟨by simp, by simp, by simp⟩ ?_ (fun _ => rfl) (fun t => ?_) (.inl hzero)⟩
    · show (n + 1) % 256 + _ = s.waitCount + 1
      have hle := Tally.le_card waits_le_one (s.setRunner i ⟨(s.runners i).waitFlag, .waiting, .waiting false⟩).runners
      have hwaits := tally_setRunner (s := s) (i := i) TaskRunner.waits ⟨(s.runners i).waitFlag, .waiting, .waiting false⟩
      have hone : TaskRunner.waits ⟨(s.runners i).waitFlag, .waiting, .waiting false⟩ = 1 := rfl
      have := h.count
      rw [Fintype.card_fin] at hle
      rw [Nat.mod_eq_of_lt (by omega)]
      omega
    · rw [hholds t]
      rfl
  | some res =>
    obtain ⟨p, t, q⟩ := res
    obtain ⟨ts, htask, -, rfl⟩ := PriorityTaskQueue.frontAndPop_some hq
    refine ⟨_, rfl, h.update ⟨(h.phase i).1, by simp, by simp⟩ hn (fun p' => ?_) (fun t' => ?_) (.inr ⟨rfl, ?_⟩)⟩
    · show withPriority p' (s.taken ++ [(p, t)]) ++ Function.update s.assigning.tasks p ts p' = _
      rw [withPriority_append]
      by_cases hp : p' = p
      · subst hp
        rw [withPriority_self, Function.update_self, htask, List.append_assoc]
        rfl
      · rw [withPriority_of_ne (Ne.symm hp), Function.update_of_ne hp, List.append_nil]
    · rw [hholds t', List.map_append, List.count_append]
      have hnew : TaskRunner.holds { s.runners i with phase := .took t } t' = [t].count t' := by
        simp [TaskRunner.holds, List.count_singleton]
      show _ + [t].count t' + _ + 0 = _ + s.ran.count t' + _
      rw [hnew]
      omega
    · have hpending := Tally.update List.length s.assigning.tasks p ts
      rw [htask, List.length_cons] at hpending
      unfold PriorityTaskQueue.pending
      dsimp only
      omega

/-- A notification leaves a thread that is about to look for one task more, if any thread still sleeps. -/
theorem Sound.notifyOne (h : Sound s) {w : Option (Fin c)} (hw : s.Wakes w) :
    Sound (s.notifyOne w) ∧ (0 < tally TaskRunner.sleeps (s.notifyOne w).runners →
      s.assigning.pending + 1 ≤ tally TaskRunner.looks (s.notifyOne w).runners) := by
  cases w with
  | none =>
    have hzero : tally TaskRunner.sleeps s.runners = 0 := by
      refine Tally.eq_zero.2 fun i => ?_
      unfold TaskRunner.sleeps
      split
      · next hph => exact absurd hph (hw i)
      · rfl
    exact ⟨h, fun hs => absurd hs (by rw [Scheduler.notifyOne, hzero]; exact lt_irrefl 0)⟩
  | some i =>
    have hph : (s.runners i).phase = .waiting false := hw
    have hwaits : (s.runners i).waits = 1 := by simp [TaskRunner.waits, hph]
    have hlooks : (s.runners i).looks = 0 := by simp [TaskRunner.looks, hph]
    have hsleeps : (s.runners i).sleeps = 1 := by simp [TaskRunner.sleeps, hph]
    have hholds : ∀ t, (s.runners i).holds t = 0 := by simp [TaskRunner.holds, hph]
    have hspare := h.awake (by have := Tally.weight_le TaskRunner.sleeps s.runners i; omega)
    have hnow := tally_setRunner (s := s) (i := i) TaskRunner.looks (s.runners i).notified
    have hone : (s.runners i).notified.looks = 1 := rfl
    refine ⟨h.update (n := s.waitCount) ⟨(h.phase i).1, by simp [TaskRunner.notified], fun b _ => (h.phase i).2.2 _ hph⟩ ?_
      (fun _ => rfl) (fun t => ?_) (.inr ⟨rfl, by omega⟩), fun _ => ?_⟩
    · rw [hwaits]
      rfl
    · rw [hholds]
      rfl
    · show _ ≤ tally TaskRunner.looks (s.setRunner i (s.runners i).notified).runners
      omega

/-- A task comes. -/
theorem Sound.pushed (h : Sound s) {p : Nat} (hp : p < pMax)
    (hspare : 0 < tally TaskRunner.sleeps s.runners → s.assigning.pending + 1 ≤ tally TaskRunner.looks s.runners) :
    Sound { s with assigning := ⟨Function.update s.assigning.tasks ⟨p, hp⟩ (s.assigning.tasks ⟨p, hp⟩ ++ [t])⟩,
                   scheduled := s.scheduled ++ [(⟨p, hp⟩, t)] } := by
  refine ⟨h.running, h.phase, h.count, fun p' => ?_, h.held, fun hs => ?_⟩
  · show withPriority p' s.taken ++ Function.update s.assigning.tasks ⟨p, hp⟩ _ p' = _
    rw [withPriority_append, ← h.order]
    by_cases hp' : p' = ⟨p, hp⟩
    · subst hp'
      rw [withPriority_self, Function.update_self, List.append_assoc]
    · rw [withPriority_of_ne (Ne.symm hp'), Function.update_of_ne hp', List.append_nil]
  · have hpending := Tally.update List.length s.assigning.tasks ⟨p, hp⟩ (s.assigning.tasks ⟨p, hp⟩ ++ [t])
    rw [List.length_append, List.length_singleton] at hpending
    have := hspare hs
    unfold PriorityTaskQueue.pending at this ⊢
    dsimp only at this ⊢
    omega

theorem Sound.schedule (h : Sound s) {p : Nat} (hp : p < pMax) {w : Option (Fin c)} (hw : s.Wakes w) :
    ∃ s', s.schedule t p w = .ok s' ∧ Sound s' := by
  obtain ⟨hnotify, hspare⟩ := h.notifyOne hw
  unfold Scheduler.schedule
  rw [if_neg (not_not.2 h.running), PriorityTaskQueue.push_ok hp]
  refine ⟨_, rfl, ?_⟩
  dsimp only
  rw [dif_pos hp]
  by_cases hcount : s.waitCount > 0
  · rw [if_pos hcount]
    cases w with
    | none => exact hnotify.pushed hp hspare
    | some i => exact hnotify.pushed hp hspare
  · rw [if_neg hcount]
    -- nobody waits, so nobody sleeps
    refine h.pushed hp fun hs => absurd hs (Nat.not_lt.2 ?_)
    have hzero : tally TaskRunner.waits s.runners = 0 := by rw [← h.count]; omega
    refine Nat.le_of_eq (Tally.eq_zero.2 fun i => ?_)
    have := Tally.eq_zero.1 hzero i
    have := sleeps_le_waits (s.runners i)
    omega

theorem Sound.advance (h : Sound s) (hc : c ≤ 255) (i : Fin c) : ∃ s', s.advance i = .ok s' ∧ Sound s' := by
  unfold Scheduler.advance
  dsimp only
  obtain ⟨hend, hended, -⟩ := h.phase i
  -- a step that leaves the section alone: the task stays with its runner, or has run
  have hown : ∀ {r : TaskRunner} {ran : List Nat}, r.PhaseOk → (s.runners i).waits = 0 → r.waits = 0 → r.sleeps = 0 →
      (s.runners i).looks ≤ r.looks → (∀ t, s.ran.count t + (s.runners i).holds t = ran.count t + r.holds t) →
      Sound { s.setRunner i r with ran := ran } := by
    intro r ran hr hw₀ hw hs hl hheld
    show Sound { s.setRunner i r with waitCount := s.waitCount, assigning := s.assigning, taken := s.taken, ran := ran }
    refine h.update hr (by omega) (fun _ => rfl) (fun t => ?_) (.inr ⟨hs, by omega⟩)
    have := hheld t
    omega
  cases hph : (s.runners i).phase with
  | loop => exact h.checkBegin hc (.inl hph) (by simp [TaskRunner.waits, hph])
  | waiting b =>
    have hone : (s.runners i).waits = 1 := by simp [TaskRunner.waits, hph]
    refine h.checkBegin hc (.inr ⟨b, hph⟩) ?_
    have := Tally.weight_le TaskRunner.waits s.runners i
    have hle := Tally.le_card waits_le_one s.runners
    have := h.count
    rw [Fintype.card_fin] at hle
    omega
  | took t =>
    refine ⟨_, rfl, hown ⟨by simp, by simp, by simp⟩ (by simp [TaskRunner.waits, hph]) rfl rfl
      (by simp [TaskRunner.looks, hph]) fun t' => ?_⟩
    simp [TaskRunner.holds, hph]
  | marked t =>
    refine ⟨_, rfl, hown ⟨hend, by simp, by simp⟩ (by simp [TaskRunner.waits, hph]) rfl rfl
      (by simp [TaskRunner.looks, hph]) fun t' => ?_⟩
    simp [TaskRunner.holds, hph]
  | running t =>
    refine ⟨_, rfl, hown ⟨hend, by simp, by simp⟩ (by simp [TaskRunner.waits, hph]) rfl rfl
      (by simp [TaskRunner.looks, hph]) fun t' => ?_⟩
    simp [TaskRunner.holds, hph, List.count_singleton]
  | ended => exact absurd hph hended

theorem Sound.step (h : Sound s) (hc : c ≤ 255) {e : SchedulerEvent c} (he : s.Fair e) :
    ∃ s', schedulerStep e s = .ok s' ∧ Sound s' := by
  cases e with
  | schedule t p w => exact h.schedule he.1 he.2
  | advance i => exact h.advance hc i

theorem Sound.run {es : List (SchedulerEvent c)} (hc : c ≤ 255) (h : Run schedulerStep Fair s es s') (hs : Sound s) : Sound s' :=
  h.inv Sound (fun s e s' hs he hstep => by
    obtain ⟨s₁, hs₁, hsound⟩ := hs.step hc he
    cases hs₁.symm.trans hstep
    exact hsound) hs

/-! ### What has become of the tasks -/

/-- How often `t` is in the queue. -/
def queued (s : Scheduler c) (t : Nat) : Nat := tally (List.count t) s.assigning.tasks

/-- How many runners have `t` and have not run it yet. -/
def held (s : Scheduler c) (t : Nat) : Nat := tally (TaskRunner.holds · t) s.runners

theorem count_withPriority (t : Nat) (l : List (Fin pMax × Nat)) :
    (l.map (·.2)).count t = tally (List.count t) (withPriority · l) := by
  induction l with
  | nil => exact (Tally.eq_zero.2 fun _ => rfl).symm
  | cons a l ih =>
    have hcons : ∀ p, withPriority p (a :: l) = Function.update (withPriority · l) a.1 (a.2 :: withPriority a.1 l) p := by
      intro p
      by_cases hp : p = a.1
      · subst hp
        simp [withPriority]
      · simp [withPriority, Function.update_of_ne hp, Ne.symm hp]
    have := Tally.update (List.count t) (withPriority · l) a.1 (a.2 :: withPriority a.1 l)
    rw [funext hcons, List.map_cons, List.count_cons, ih]
    rw [List.count_cons] at this
    omega

/-- What was scheduled is in the queue, with one runner, or has run. -/
theorem Sound.accounts (h : Sound s) (t : Nat) :
    (s.scheduled.map (·.2)).count t = s.queued t + s.held t + s.ran.count t := by
  have hsplit : tally (List.count t) (withPriority · s.scheduled) =
      tally (List.count t) (withPriority · s.taken) + s.queued t := by
    unfold queued tally
    rw [← Finset.sum_add_distrib]
    refine Finset.sum_congr rfl fun p _ => ?_
    dsimp only
    rw [← h.order p, List.count_append]
  have := h.held t
  rw [count_withPriority] at this
  rw [count_withPriority, hsplit]
  show _ = _ + tally (TaskRunner.holds · t) s.runners + _
  omega

/-- A runner takes a task only when there is none of a higher priority. -/
theorem advance_taken {p : Fin pMax} (h : s.advance i = .ok s') (ht : s'.taken = s.taken ++ [(p, t)]) :
    ∀ p' < p, s.assigning.tasks p' = [] := by
  have hsame : ∀ {u : Scheduler c}, u.taken = s.taken → (.ok u : Except SchedulerFault (Scheduler c)) ≠ .ok s' := by
    intro u hu heq
    cases heq
    rw [hu] at ht
    simpa using congrArg List.length ht
  have hcheck : ∀ n, Scheduler.checkBegin { s with waitCount := n } i = .ok s' → ∀ p' < p, s.assigning.tasks p' = [] := by
    intro n hn
    unfold Scheduler.checkBegin at hn
    dsimp only at hn
    split at hn
    · exact absurd hn (hsame rfl)
    · cases hq : s.assigning.frontAndPop with
      | none =>
        rw [hq] at hn
        dsimp only at hn
        split at hn
        · cases hn
        · exact absurd hn (hsame rfl)
      | some res =>
        obtain ⟨p₁, t₁, q₁⟩ := res
        rw [hq] at hn
        cases hn
        obtain ⟨-, -, hfirst, -⟩ := PriorityTaskQueue.frontAndPop_some hq
        have heq := List.append_cancel_left ht
        simp only [List.cons.injEq, Prod.mk.injEq, and_true] at heq
        exact heq.1 ▸ hfirst
  unfold Scheduler.advance at h
  dsimp only at h
  split at h
  · exact hcheck s.waitCount h
  · exact hcheck _ h
  all_goals exact absurd h (hsame rfl)

/-- Tasks of one priority are taken in the order of `schedule`, a high priority before a normal one, each
task once for each call of `schedule`. A thread does not sleep while there are more tasks than threads about
to look for one; no assertion fails, whatever comes next. -/
structure Served (s : Scheduler c) : Prop where
  order : ∀ p, withPriority p s.taken <+: withPriority p s.scheduled
  priority : ∀ i s', s.advance i = .ok s' → ∀ p t, s'.taken = s.taken ++ [(p, t)] → ∀ p' < p, s.assigning.tasks p' = []
  once : ∀ t, (s.scheduled.map (·.2)).count t = s.queued t + s.held t + s.ran.count t
  awake : ∀ i, (s.runners i).phase = .waiting false → s.assigning.pending ≤ tally TaskRunner.looks s.runners
  no_fault : ∀ e, s.Fair e → ∃ s', schedulerStep e s = .ok s'

theorem Sound.served (h : Sound s) (hc : c ≤ 255) : Served s := by
  refine ⟨fun p => ?_, fun i s' hs' p t => advance_taken hs', h.accounts, fun i hph => ?_, fun e he => ?_⟩
  · rw [← h.order p]
    exact List.prefix_append _ _
  · refine h.awake (lt_of_lt_of_le ?_ (Tally.weight_le TaskRunner.sleeps s.runners i))
    simp [TaskRunner.sleeps, hph]
  · obtain ⟨s', hs', -⟩ := h.step hc he
    exact ⟨s', hs'⟩

/-- Every interleaving of calls of `schedule` with the threads of the runners, whose number is a `u8_t`. -/
theorem schedule_served {es : List (SchedulerEvent c)} (hc : c ≤ 255) (h : Run schedulerStep Fair (started c) es s) : Served s :=
  (Sound.run hc h started_sound).served hc

/-- Two runners, both asleep: one is woken for a normal task, the other for a high one, which is taken first. -/
def twoSleepers : List (SchedulerEvent 2) :=
  [.advance (Fin.last 1), .advance (Fin.last 0).castSucc, .schedule 10 1 (some (Fin.last 1)),
    .schedule 11 0 (some (Fin.last 0).castSucc), .advance (Fin.last 1)]

theorem schedule_served_twoSleepers : ∃ s, Run schedulerStep Fair (started 2) twoSleepers s ∧
    (s.taken.map (·.2) = [11] ∧ s.waitCount = 1) ∧ Served s := by
  obtain ⟨s, hrun, hs⟩ := Run.of_decide (f := schedulerStep) (P := Fair) twoSleepers (s := started 2)
    (Q := fun s => s.taken.map (·.2) = [11] ∧ s.waitCount = 1) (by decide)
  exact ⟨s, hrun, hs, schedule_served (by decide) hrun⟩

/-! ### Without further calls of `schedule` -/

/-- The thread of a runner goes on, and not because it wakes without a notification. -/
def Due (s : Scheduler c) : SchedulerEvent c → Prop
  | .schedule _ _ _ => False
  | .advance i => (s.runners i).phase ≠ .waiting false ∧ (s.runners i).phase ≠ .ended

instance (s : Scheduler c) : (e : SchedulerEvent c) → Decidable (s.Due e)
  | .schedule _ _ _ => inferInstanceAs (Decidable False)
  | .advance i => inferInstanceAs (Decidable ((s.runners i).phase ≠ .waiting false ∧ (s.runners i).phase ≠ .ended))

/-- A bound of the steps that the threads have before them: a task takes four from the queue on. -/
def work (s : Scheduler c) : Nat := 4 * s.assigning.pending + tally TaskRunner.steps s.runners

theorem checkBegin_work {n : Nat} (h : Scheduler.checkBegin { s with waitCount := n } i = .ok s') (hr : (s.runners i).steps = 1) :
    s'.work < s.work ∧ s'.scheduled = s.scheduled := by
  unfold Scheduler.checkBegin at h
  dsimp only at h
  unfold work
  split at h
  · cases h
    have := tally_setRunner (s := s) (i := i) TaskRunner.steps { s.runners i with phase := .ended }
    have hzero : TaskRunner.steps { s.runners i with phase := .ended } = 0 := rfl
    refine ⟨?_, rfl⟩
    show 4 * s.assigning.pending + tally TaskRunner.steps (s.setRunner i { s.runners i with phase := .ended }).runners < _
    dsimp only at *
    omega
  · cases hq : s.assigning.frontAndPop with
    | none =>
      rw [hq] at h
      dsimp only at h
      split at h
      · cases h
      · cases h
        have := tally_setRunner (s := s) (i := i) TaskRunner.steps ⟨(s.runners i).waitFlag, .waiting, .waiting false⟩
        have hzero : TaskRunner.steps ⟨(s.runners i).waitFlag, .waiting, .waiting false⟩ = 0 := rfl
        refine ⟨?_, rfl⟩
        show 4 * s.assigning.pending + tally TaskRunner.steps (s.setRunner i ⟨(s.runners i).waitFlag, .waiting, .waiting false⟩).runners < _
        omega
    | some res =>
      obtain ⟨p, t, q⟩ := res
      rw [hq] at h
      cases h
      obtain ⟨ts, htask, -, rfl⟩ := PriorityTaskQueue.frontAndPop_some hq
      have := tally_setRunner (s := s) (i := i) TaskRunner.steps ⟨(s.runners i).waitFlag, (s.runners i).state, .took t⟩
      have hfour : TaskRunner.steps ⟨(s.runners i).waitFlag, (s.runners i).state, .took t⟩ = 4 := rfl
      have hpending := Tally.update List.length s.assigning.tasks p ts
      rw [htask, List.length_cons] at hpending
      refine ⟨?_, rfl⟩
      show 4 * tally List.length (Function.update s.assigning.tasks p ts) +
        tally TaskRunner.steps (s.setRunner i ⟨(s.runners i).waitFlag, (s.runners i).state, .took t⟩).runners < _
      unfold PriorityTaskQueue.pending
      omega

theorem advance_work (h : s.advance i = .ok s') (hdue : s.Due (.advance i)) : s'.work < s.work ∧ s'.scheduled = s.scheduled := by
  -- behind the section, the thread only has a step less before it
  have hown : ∀ {r : TaskRunner} {ran : List Nat}, r.steps < (s.runners i).steps →
      work { s.setRunner i r with ran := ran } < s.work := by
    intro r ran hlt
    have := tally_setRunner (s := s) (i := i) TaskRunner.steps r
    show 4 * s.assigning.pending + tally TaskRunner.steps (s.setRunner i r).runners < _
    unfold work
    omega
  unfold Scheduler.advance at h
  dsimp only at h
  cases hph : (s.runners i).phase with
  | loop =>
    rw [hph] at h
    exact checkBegin_work (n := s.waitCount) h (by simp [TaskRunner.steps, hph])
  | waiting b =>
    rw [hph] at h
    cases b with
    | false => exact absurd hph hdue.1
    | true => exact checkBegin_work h (by simp [TaskRunner.steps, hph])
  | took t =>
    rw [hph] at h
    cases h
    exact ⟨hown (by simp [TaskRunner.steps, hph]), rfl⟩
  | marked t =>
    rw [hph] at h
    cases h
    exact ⟨hown (by simp [TaskRunner.steps, hph]), rfl⟩
  | running t =>
    rw [hph] at h
    cases h
    exact ⟨hown (by simp [TaskRunner.steps, hph]), rfl⟩
  | ended => exact absurd hph hdue.2

theorem drains {es : List (SchedulerEvent c)} (h : Run schedulerStep Due s es s') : es.length + s'.work ≤ s.work ∧ s'.scheduled = s.scheduled := by
  induction h with
  | nil => simp
  | cons hdue hf _ ih =>
    rename_i e es _
    cases e with
    | schedule => exact hdue.elim
    | advance i =>
      obtain ⟨hlt, heq⟩ := advance_work hf hdue
      rw [List.length_cons]
      exact ⟨by omega, ih.2.trans heq⟩

/-- When no thread has a step before it, all tasks have run: a thread sleeps, so the queue is empty. -/
theorem Sound.allRan (h : Sound s) (hpos : 0 < c) (hdue : ∀ i, ¬ s.Due (.advance i)) :
    s.assigning.empty = true ∧ s.ran.Perm (s.scheduled.map (·.2)) := by
  have hsleep : ∀ i, (s.runners i).phase = .waiting false := by
    intro i
    by_contra hne
    exact hdue i ⟨hne, (h.phase i).2.1⟩
  have hempty : s.assigning.pending = 0 := by
    have hlooks : tally TaskRunner.looks s.runners = 0 :=
      Tally.eq_zero.2 fun i => by simp [TaskRunner.looks, hsleep i]
    have := h.awake (lt_of_lt_of_le (by simp [TaskRunner.sleeps, hsleep ⟨0, hpos⟩])
      (Tally.weight_le TaskRunner.sleeps s.runners ⟨0, hpos⟩))
    omega
  refine ⟨PriorityTaskQueue.empty_iff.2 hempty, List.perm_iff_count.2 fun t => ?_⟩
  have hqueued : s.queued t = 0 := Tally.eq_zero.2 fun p => by
    rw [List.length_eq_zero_iff.1 (Tally.eq_zero.1 hempty p)]
    rfl
  have hheld : s.held t = 0 := Tally.eq_zero.2 fun i => by simp [TaskRunner.holds, hsleep i]
  have := h.accounts t
  omega

/-- With a runner at all, and once `schedule` is not called any more, the threads make no more than `work`
steps, where waking without a notification is not one; one that has a step before it can make it; and when none
has, every task has run once for each call of `schedule`. -/
theorem schedule_drains {es es' : List (SchedulerEvent c)} (hpos : 0 < c) (hc : c ≤ 255)
    (h : Run schedulerStep Fair (started c) es s) (h' : Run schedulerStep Due s es' s') :
    es'.length ≤ s.work ∧ (∀ e, s'.Due e → ∃ u, schedulerStep e s' = .ok u) ∧
      ((∀ e, ¬ s'.Due e) → s'.assigning.empty = true ∧ s'.ran.Perm (s.scheduled.map (·.2))) := by
  have hfair : Run schedulerStep Fair s es' s' := h'.mono fun s e he => by
    cases e with
    | schedule => exact he.elim
    | advance => trivial
  have hsound := Sound.run hc (h.append hfair) started_sound
  obtain ⟨hlen, hsched⟩ := drains h'
  refine ⟨by omega, fun e he => ?_, fun hdue => ?_⟩
  · cases e with
    | schedule => exact he.elim
    | advance i =>
      obtain ⟨u, hu, -⟩ := hsound.advance hc i
      exact ⟨u, hu⟩
  · rw [← hsched]
    exact hsound.allRan hpos fun i => hdue _

/-- From there the two runners run both tasks and sleep again. -/
def bothRun : List (SchedulerEvent 2) :=
  [.advance (Fin.last 0).castSucc, .advance (Fin.last 1), .advance (Fin.last 1), .advance (Fin.last 1),
    .advance (Fin.last 1), .advance (Fin.last 0).castSucc, .advance (Fin.last 0).castSucc,
    .advance (Fin.last 0).castSucc, .advance (Fin.last 0).castSucc]

theorem schedule_drains_bothRun : ∃ s s', Run schedulerStep Fair (started 2) twoSleepers s ∧ Run schedulerStep Due s bothRun s' ∧
    s'.ran.Perm (s.scheduled.map (·.2)) := by
  obtain ⟨s, hrun, hs⟩ := Run.of_decide (f := schedulerStep) (P := Fair) twoSleepers (s := started 2)
    (Q := fun s => passes schedulerStep (fun s e => decide (s.Due e)) (fun s => decide (∀ i, ¬ s.Due (.advance i))) bothRun s)
    (by decide)
  obtain ⟨s', hrun', hs'⟩ := Run.of_decide (f := schedulerStep) (P := Due) bothRun (s := s)
    (Q := fun s => ∀ i, ¬ s.Due (.advance i)) hs
  refine ⟨s, s', hrun, hrun', ((schedule_drains (by decide) (by decide) hrun hrun').2.2 fun e => ?_).2⟩
  cases e with
  | schedule => exact not_false
  | advance i => exact hs' i

end Scheduler
end Wawo
