import Mathlib.Algebra.GroupWithZero.Nat
import Mathlib.Data.Fin.Basic
import Mathlib.Logic.Function.Basic
import Wawo.Lib.Run

/-!
# The sequential task runners (`runner.hpp`, `runner.cpp`)

`sequencial_runner_pool::assign_task` picks the runner by the tag of the task; the runner appends the task
to `m_standby` under its `m_mutex` and notifies its thread if that waits. The thread swaps `m_standby` and
`m_assigning` under the mutex and runs what it got without the mutex, so that tasks can be assigned
meanwhile. A call of `assign_task` is one section under the mutex; the thread of a runner goes on in steps:
up to the end of its section (a wait ends it too), one round of the loop over `m_assigning`, what is behind
the loop.

The loop counts in an `int`: the size of `m_assigning` is converted to one, and `i++` must not overflow it. 2^32 tasks
that have been assigned meanwhile are none in an `int`, and the runner drops them (`tasks_dropped`). A thread that takes
fewer than 2^31 runs them all (`sequencial_tasks`).
-/

namespace Wawo

open Lts

/-- `sequencial_runner::State` -/
inductive SequencialRunnerState
  | idle
  | run
  | waiting
  | exit
deriving DecidableEq

inductive RunnerFault
  | assignState -- `assign_task`: `m_state == S_RUN || m_state == S_WAITING`
  | running -- `sequencial_runner_pool::assign_task`: `m_is_running == true`
  | assigning -- `run`: `m_assigning->empty()`
  | waitState -- `run`: `m_state == S_WAITING`, behind the wait
  | standby -- `run`: `!m_standby->empty()`
  | swappedAssigning -- `run`: `!m_assigning->empty()`
  | swappedStandby -- `run`: `m_standby->empty()`
  | size -- `run`: `i == size`
  | counter -- `i++` with `i` at the end of `int`
  | index -- `(*m_assigning)[i]` outside the vector
deriving DecidableEq

structure SequencialTask where
  tag : Nat
  task : Nat -- the pointer
deriving DecidableEq

/-- What an `int` holds of a size. -/
def intSize (n : Nat) : Int := Int.bmod n (2 ^ 32)

/-- Where the thread of a runner is. -/
inductive RunnerPhase
  | entry -- at the beginning of `run`
  | waiting (notified : Bool) -- in the wait, perhaps with a notification that has not woken it yet
  | loop (i : Nat) (size : Int) -- in the loop over `m_assigning`
deriving DecidableEq

structure SequencialRunner where
  state : SequencialRunnerState
  standby : List SequencialTask
  assigning : List SequencialTask
  phase : RunnerPhase
  assigned : List SequencialTask -- history: the tasks given to `assign_task`
  ran : List SequencialTask -- history: the tasks run
deriving DecidableEq

namespace SequencialRunner

/-- Behind `on_start`. -/
def started : SequencialRunner := ⟨.run, [], [], .entry, [], []⟩

variable (r : SequencialRunner)

/-- `m_condition.notify_one()` -/
def notifyOne : SequencialRunner :=
  match r.phase with
  | .waiting _ => { r with phase := .waiting true }
  | _ => r

/-- `sequencial_runner::assign_task` -/
def assignTask (t : SequencialTask) : Except RunnerFault SequencialRunner :=
  if r.state ≠ .run ∧ r.state ≠ .waiting then .error .assignState
  else
    let r := { r with standby := r.standby ++ [t], assigned := r.assigned ++ [t] }
    .ok (if r.state = .waiting then r.notifyOne else r)

/-- `run` from the loop around the wait to the end of the section, or to the next wait. -/
def takeStandby : Except RunnerFault SequencialRunner :=
  if r.standby = [] then .ok { r with state := .waiting, phase := .waiting false }
  else if r.assigning ≠ [] then .error .assigning
  else if r.standby = [] then .error .standby
  else
    let r := { r with standby := r.assigning, assigning := r.standby }
    if r.assigning = [] then .error .swappedAssigning
    else if r.standby ≠ [] then .error .swappedStandby
    else .ok { r with state := .run, phase := .loop 0 (intSize r.assigning.length) }

/-- The beginning of `run`. -/
def runEntry : Except RunnerFault SequencialRunner :=
  if r.assigning ≠ [] then .error .assigning
  else if r.state = .exit then .ok r
  else r.takeStandby

/-- The thread wakes. -/
def wake : Except RunnerFault SequencialRunner :=
  if r.state = .exit then .ok { r with phase := .entry }
  else if r.state ≠ .waiting then .error .waitState
  else r.takeStandby

/-- A round of the loop over `m_assigning`, or what is behind it. -/
def loopRound (i : Nat) (size : Int) : Except RunnerFault SequencialRunner :=
  if r.state = .run ∧ i ≠ size then
    if i + 1 = 2 ^ 31 then .error .counter
    else
      match r.assigning[i]? with
      | none => .error .index
      | some t => .ok { r with ran := r.ran ++ [t], phase := .loop (i + 1) size }
  else if i ≠ size then .error .size
  else .ok { r with assigning := [], phase := .entry }

/-- The next step of the thread. -/
def advance : Except RunnerFault SequencialRunner :=
  match r.phase with
  | .entry => r.runEntry
  | .waiting _ => r.wake
  | .loop i size => r.loopRound i size

/-- The task that the next step of the thread runs. -/
def runs : List SequencialTask :=
  match r.phase with
  | .loop i size => if r.state = .run ∧ i ≠ size then r.assigning[i]?.toList else []
  | _ => []

/-- The tasks that the next step of the thread takes, if there are any and it is not at others. -/
def takes : List SequencialTask :=
  match r.phase with
  | .loop .. => []
  | _ => r.standby

end SequencialRunner

/-- `sequencial_runner_pool` with `c` runners. -/
structure SequencialRunnerPool (c : Nat) where
  isRunning : Bool
  runners : Fin c → SequencialRunner
  assigned : List SequencialTask -- history: the tasks given to `assign_task`
  ran : List SequencialTask -- history: the tasks run, by any runner

namespace SequencialRunnerPool

variable {c : Nat}

/-- Behind `init`. -/
def started (c : Nat) : SequencialRunnerPool c := ⟨true, fun _ => .started, [], []⟩

variable [NeZero c] (s : SequencialRunnerPool c)

def setRunner (i : Fin c) (r : SequencialRunner) : SequencialRunnerPool c :=
  { s with runners := Function.update s.runners i r }

/-- `sequencial_runner_pool::assign_task` -/
def assignTask (t : SequencialTask) : Except RunnerFault (SequencialRunnerPool c) :=
  if !s.isRunning then .error .running
  else
    let ridx := Fin.ofNat c t.tag
    ((s.runners ridx).assignTask t).map fun r => { s.setRunner ridx r with assigned := s.assigned ++ [t] }

/-- The thread of a runner goes on. -/
def advance (i : Fin c) : Except RunnerFault (SequencialRunnerPool c) :=
  (s.runners i).advance.map fun r => { s.setRunner i r with ran := s.ran ++ (s.runners i).runs }

end SequencialRunnerPool

inductive PoolEvent (c : Nat)
  | assign (t : SequencialTask)
  | advance (i : Fin c)

def poolStep {c : Nat} [NeZero c] : PoolEvent c → SequencialRunnerPool c → Except RunnerFault (SequencialRunnerPool c)
  | .assign t, s => s.assignTask t
  | .advance i, s => s.advance i

/-! ### One runner -/

namespace SequencialRunner

variable {r r' : SequencialRunner} {t : SequencialTask} {i : Nat}

/-- What the thread still has to run of `m_assigning`. -/
def rest (r : SequencialRunner) : List SequencialTask :=
  match r.phase with
  | .loop i _ => r.assigning.drop i
  | _ => []

/-- `m_state` and `m_assigning` where the thread is. A thread that waits without a notification has nothing
to do. -/
def PhaseOk (r : SequencialRunner) : Prop :=
  match r.phase with
  | .entry => r.state = .run ∧ r.assigning = []
  | .waiting notified => r.state = .waiting ∧ r.assigning = [] ∧ (notified = false → r.standby = [])
  | .loop i size => r.state = .run ∧ size = r.assigning.length ∧ i ≤ r.assigning.length ∧ r.assigning.length < 2 ^ 31

/-- No task is lost, and none changes its place. -/
structure Sound (r : SequencialRunner) : Prop where
  phase : r.PhaseOk
  order : r.ran ++ r.rest ++ r.standby = r.assigned

theorem started_sound : started.Sound := ⟨⟨rfl, rfl⟩, rfl⟩

/-- What an `int` can count, it counts. -/
theorem intSize_eq {n : Nat} (h : n < 2 ^ 31) : intSize n = n :=
  Int.bmod_eq_of_le (by omega) (by omega)

/-- The thread takes what stands by. -/
theorem takeStandby_eq (h : r.assigning = []) (hs : r.standby ≠ []) :
    r.takeStandby = .ok { r with standby := [], assigning := r.standby, state := .run, phase := .loop 0 (intSize r.standby.length) } := by
  unfold takeStandby
  rw [if_neg hs, if_neg (not_not.2 h), if_neg hs]
  dsimp only
  rw [if_neg hs, if_neg (not_not.2 h), h]

theorem takeStandby_spec (h : r.assigning = []) (ho : r.ran ++ r.standby = r.assigned) :
    ∃ r', r.takeStandby = .ok r' ∧ (r.standby.length < 2 ^ 31 → r'.Sound) ∧ r'.ran = r.ran ∧ r'.assigned = r.assigned := by
  by_cases hs : r.standby = []
  · unfold takeStandby
    rw [if_pos hs]
    refine ⟨_, rfl, fun _ => ⟨⟨rfl, h, fun _ => hs⟩, ?_⟩, rfl, rfl⟩
    simpa [rest] using ho
  · rw [takeStandby_eq h hs]
    refine ⟨_, rfl, fun hlt => ⟨⟨rfl, intSize_eq hlt, Nat.zero_le _, hlt⟩, ?_⟩, rfl, rfl⟩
    simpa [rest] using ho

theorem Sound.assignTask (h : r.Sound) (t : SequencialTask) :
    ∃ r', r.assignTask t = .ok r' ∧ r'.Sound ∧ r'.ran = r.ran ∧ r'.assigned = r.assigned ++ [t] := by
  obtain ⟨hp, ho⟩ := h
  unfold SequencialRunner.assignTask
  unfold PhaseOk at hp
  have hnew : r.ran ++ r.rest ++ (r.standby ++ [t]) = r.assigned ++ [t] := by rw [← ho]; simp
  cases hph : r.phase with
  | entry =>
    rw [hph] at hp
    rw [if_neg (by simp [hp.1])]
    dsimp only
    rw [if_neg (by simp [hp.1])]
    refine ⟨_, rfl, ⟨?_, ?_⟩, rfl, rfl⟩
    · exact hp
    · simpa [rest, hph] using hnew
  | waiting notified =>
    rw [hph] at hp
    rw [if_neg (by simp [hp.1])]
    dsimp only
    rw [if_pos hp.1]
    unfold notifyOne
    dsimp only
    refine ⟨_, rfl, ⟨⟨hp.1, hp.2.1, nofun⟩, ?_⟩, rfl, rfl⟩
    simpa [rest, hph] using hnew
  | loop i size =>
    rw [hph] at hp
    rw [if_neg (by simp [hp.1])]
    dsimp only
    rw [if_neg (by simp [hp.1])]
    refine ⟨_, rfl, ⟨?_, ?_⟩, rfl, rfl⟩
    · exact hp
    · simpa [rest, hph] using hnew

/-- The loop runs the task at `i`. -/
theorem loopRound_eq (hrun : r.state = .run) (hi : i < r.assigning.length) (hint : r.assigning.length < 2 ^ 31) :
    r.loopRound i r.assigning.length =
      .ok { r with ran := r.ran ++ [r.assigning[i]], phase := .loop (i + 1) r.assigning.length } := by
  have hne : (i : Int) ≠ r.assigning.length := by omega
  have hcounter : ¬ i + 1 = 2 ^ 31 := by omega
  unfold loopRound
  rw [if_pos ⟨hrun, hne⟩, if_neg hcounter, List.getElem?_eq_getElem hi]

/-- The thread runs the next task in the order of assignment, or none. -/
theorem Sound.advance (h : r.Sound) :
    ∃ r', r.advance = .ok r' ∧ (r.takes.length < 2 ^ 31 → r'.Sound) ∧ r'.ran = r.ran ++ r.runs ∧ r'.assigned = r.assigned := by
  obtain ⟨hp, ho⟩ := h
  unfold SequencialRunner.advance runs takes
  unfold PhaseOk at hp
  cases hph : r.phase with
  | entry =>
    rw [hph] at hp
    dsimp only at hp ⊢
    unfold runEntry
    rw [if_neg (not_not.2 hp.2), if_neg (by simp [hp.1]), List.append_nil]
    exact takeStandby_spec hp.2 (by simpa [rest, hph] using ho)
  | waiting notified =>
    rw [hph] at hp
    dsimp only at hp ⊢
    unfold wake
    rw [if_neg (by simp [hp.1]), if_neg (not_not.2 hp.1), List.append_nil]
    exact takeStandby_spec hp.2.1 (by simpa [rest, hph] using ho)
  | loop i size =>
    rw [hph] at hp
    dsimp only at hp ⊢
    obtain ⟨hrun, rfl, hle, hint⟩ := hp
    by_cases hi : (i : Int) = r.assigning.length
    · have hcond : ¬ (r.state = .run ∧ (i : Int) ≠ r.assigning.length) := fun hc => hc.2 hi
      unfold loopRound
      rw [if_neg hcond, if_neg (not_not.2 hi), if_neg hcond, List.append_nil]
      refine ⟨_, rfl, fun _ => ⟨⟨hrun, rfl⟩, ?_⟩, rfl, rfl⟩
      simpa [rest, hph, Int.ofNat_inj.1 hi] using ho
    · have hlt : i < r.assigning.length := by omega
      rw [loopRound_eq hrun hlt hint, if_pos ⟨hrun, hi⟩, List.getElem?_eq_getElem hlt]
      refine ⟨_, rfl, fun _ => ⟨⟨hrun, rfl, hlt, hint⟩, ?_⟩, rfl, rfl⟩
      have hdrop : r.rest = r.assigning[i] :: r.assigning.drop (i + 1) := by
        unfold rest
        rw [hph]
        exact List.drop_eq_getElem_cons hlt
      rw [hdrop] at ho
      simpa [rest] using ho

/-- What is still to run stays behind what has run. -/
theorem Sound.ranInOrder (h : r.Sound) : r.ran <+: r.assigned := by
  rw [← h.order, List.append_assoc]
  exact List.prefix_append _ _

end SequencialRunner

/-! ### The pool -/

namespace SequencialRunnerPool

variable {c : Nat} [NeZero c] {s s' : SequencialRunnerPool c} {i : Fin c} {t : SequencialTask}

/-- The tasks of a list with tag `tag`. -/
def tagged (tag : Nat) (l : List SequencialTask) : List SequencialTask := l.filter (·.tag = tag)

/-- Each runner is sound and has the tasks of its tags, in the order of all assignments. -/
structure Sound (s : SequencialRunnerPool c) : Prop where
  running : s.isRunning = true
  runner : ∀ i, (s.runners i).Sound
  own : ∀ i, ∀ t ∈ (s.runners i).assigned, Fin.ofNat c t.tag = i
  assigned : ∀ tag, tagged tag s.assigned = tagged tag (s.runners (Fin.ofNat c tag)).assigned
  ran : ∀ tag, tagged tag s.ran = tagged tag (s.runners (Fin.ofNat c tag)).ran

theorem tagged_append (tag : Nat) (l l' : List SequencialTask) : tagged tag (l ++ l') = tagged tag l ++ tagged tag l' :=
  List.filter_append ..

/-- Tasks of other tags do not count. -/
theorem tagged_eq_nil {tag : Nat} {l : List SequencialTask} (h : ∀ t ∈ l, Fin.ofNat c t.tag = i) (hi : Fin.ofNat c tag ≠ i) :
    tagged tag l = [] := by
  refine List.filter_eq_nil_iff.2 fun t ht htag => hi ?_
  rw [← of_decide_eq_true htag]
  exact h t ht

/-- A runner goes from `r` to `r'`: the tasks `l` are assigned to it, the tasks `m` are run. -/
theorem Sound.update {r' : SequencialRunner} {l m : List SequencialTask} (h : Sound s) (hr : r'.Sound)
    (ha : r'.assigned = (s.runners i).assigned ++ l) (hran : r'.ran = (s.runners i).ran ++ m)
    (hl : ∀ t ∈ l, Fin.ofNat c t.tag = i) :
    Sound { s.setRunner i r' with assigned := s.assigned ++ l, ran := s.ran ++ m } := by
  have hown : ∀ t ∈ r'.assigned, Fin.ofNat c t.tag = i := by
    intro t ht
    rw [ha, List.mem_append] at ht
    exact ht.elim (h.own i t) (hl t)
  have hm : ∀ t ∈ m, Fin.ofNat c t.tag = i := fun t ht =>
    hown t (hr.ranInOrder.subset (by rw [hran]; exact List.mem_append_right _ ht))
  refine ⟨h.running, fun j => ?_, fun j => ?_, fun tag => ?_, fun tag => ?_⟩ <;> dsimp only [setRunner]
  · by_cases hj : j = i
    · subst hj; rw [Function.update_self]; exact hr
    · rw [Function.update_of_ne hj]; exact h.runner j
  · by_cases hj : j = i
    · subst hj; rw [Function.update_self]; exact hown
    · rw [Function.update_of_ne hj]; exact h.own j
  · rw [tagged_append, h.assigned]
    by_cases hj : Fin.ofNat c tag = i
    · rw [hj, Function.update_self, ha, tagged_append]
    · rw [Function.update_of_ne hj, tagged_eq_nil hl hj, List.append_nil]
  · rw [tagged_append, h.ran]
    by_cases hj : Fin.ofNat c tag = i
    · rw [hj, Function.update_self, hran, tagged_append]
    · rw [Function.update_of_ne hj, tagged_eq_nil hm hj, List.append_nil]

/-- The thread that goes on takes no more tasks than an `int` counts. -/
def CountsTasks (s : SequencialRunnerPool c) : PoolEvent c → Prop
  | .assign _ => True
  | .advance i => (s.runners i).takes.length < 2 ^ 31

instance (s : SequencialRunnerPool c) (e : PoolEvent c) : Decidable (s.CountsTasks e) := by
  unfold CountsTasks
  split <;> infer_instance

/-- Nothing fails, and nothing is lost. -/
theorem Sound.step (h : Sound s) (e : PoolEvent c) : ∃ s', poolStep e s = .ok s' ∧ (s.CountsTasks e → Sound s') := by
  cases e with
  | assign t =>
    obtain ⟨r', hr', hs, hran, ha⟩ := (h.runner (Fin.ofNat c t.tag)).assignTask t
    refine ⟨_, ?_, fun _ => h.update (l := [t]) (m := []) hs ha (by rw [hran, List.append_nil]) (by simp)⟩
    show s.assignTask t = _
    unfold assignTask
    rw [if_neg (by simp [h.running])]
    dsimp only
    rw [hr', List.append_nil]
    rfl
  | advance i =>
    obtain ⟨r', hr', hs, hran, ha⟩ := (h.runner i).advance
    refine ⟨_, ?_, fun hcount => h.update (l := []) (hs hcount) (by rw [ha, List.append_nil]) hran (by simp)⟩
    show s.advance i = _
    unfold advance
    rw [hr', List.append_nil]
    rfl

theorem started_sound : Sound (started c) :=
  ⟨rfl, fun _ => SequencialRunner.started_sound, fun _ _ => nofun, fun _ => rfl, fun _ => rfl⟩

/-- Each runner runs its tasks in the order of assignment, and so tasks of one tag are run; a runner that
has something to do is not left waiting; no assertion fails, whatever comes next. -/
structure InOrder (s : SequencialRunnerPool c) : Prop where
  order : ∀ i, (s.runners i).ran <+: (s.runners i).assigned
  tag_order : ∀ tag, tagged tag s.ran <+: tagged tag s.assigned
  not_lost : ∀ i, (s.runners i).standby ≠ [] → (s.runners i).phase ≠ .waiting false
  no_fault : ∀ e, ∃ s', poolStep e s = .ok s'

theorem Sound.inOrder (h : Sound s) : InOrder s := by
  refine ⟨fun i => (h.runner i).ranInOrder, fun tag => ?_, fun i hne hph => ?_, fun e => ?_⟩
  · rw [h.ran, h.assigned]
    exact (h.runner _).ranInOrder.filter _
  · have hp := (h.runner i).phase
    unfold SequencialRunner.PhaseOk at hp
    rw [hph] at hp
    exact hne (hp.2.2 rfl)
  · obtain ⟨s', hs', -⟩ := h.step e
    exact ⟨s', hs'⟩

/-- Every interleaving of calls of `assign_task` with the threads of the runners, where a thread takes no more tasks than
an `int` counts. -/
theorem sequencial_tasks {es : List (PoolEvent c)} (h : Run poolStep CountsTasks (started c) es s) : InOrder s := by
  refine Sound.inOrder (h.inv Sound (fun s e s' hs he hstep => ?_) started_sound)
  obtain ⟨s₁, hs₁, hsound⟩ := hs.step e
  cases hs₁.symm.trans hstep
  exact hsound he

/-- Two runners: the thread of one waits and is woken for two tasks, of which it runs the first. -/
def twoRunners : List (PoolEvent 2) :=
  [.advance (Fin.last 1), .assign ⟨1, 10⟩, .assign ⟨2, 11⟩, .assign ⟨1, 12⟩, .advance (Fin.last 1), .advance (Fin.last 1)]

theorem sequencial_tasks_twoRunners : ∃ s, Run poolStep CountsTasks (started 2) twoRunners s ∧
    s.ran = [⟨1, 10⟩] ∧ (s.runners 1).phase = .loop 1 2 ∧ InOrder s := by
  obtain ⟨s, hrun, hran, hph⟩ := Run.of_decide (f := poolStep) (P := CountsTasks) twoRunners (s := started 2)
    (Q := fun s => s.ran = [⟨1, 10⟩] ∧ (s.runners 1).phase = .loop 1 2) (by decide)
  exact ⟨s, hrun, hran, hph, sequencial_tasks hrun⟩

/-! ### More tasks than an `int` counts -/

/-- A pool of one runner -/
def single (r : SequencialRunner) : SequencialRunnerPool 1 := ⟨true, fun _ => r, r.assigned, r.ran⟩

theorem setRunner_single (i : Fin 1) (r r' : SequencialRunner) :
    (single r).setRunner i r' = ⟨true, fun _ => r', r.assigned, r.ran⟩ := by
  unfold setRunner single
  congr 1
  funext j
  rw [Subsingleton.elim j i, Function.update_self]

theorem assignTask_single {r r' : SequencialRunner} {t : SequencialTask} (h : r.assignTask t = .ok r')
    (hassigned : r'.assigned = r.assigned ++ [t]) (hran : r'.ran = r.ran) : poolStep (.assign t) (single r) = .ok (single r') := by
  show (r.assignTask t).map (fun r' => { (single r).setRunner (Fin.ofNat 1 t.tag) r' with assigned := r.assigned ++ [t] }) = _
  simp only [setRunner_single]
  rw [h, ← hassigned, ← hran]
  rfl

theorem advance_single {r r' : SequencialRunner} (h : r.advance = .ok r') (hassigned : r'.assigned = r.assigned)
    (hran : r'.ran = r.ran ++ r.runs) : poolStep (.advance (Fin.last 0)) (single r) = .ok (single r') := by
  show r.advance.map (fun r' => { (single r).setRunner (Fin.last 0) r' with ran := r.ran ++ r.runs }) = _
  simp only [setRunner_single]
  rw [h, ← hassigned, ← hran]
  rfl

/-- The thread takes what stands by. -/
theorem take_single {l as ran : List SequencialTask} {size : Int} (hne : l ≠ []) (hsize : intSize l.length = size) :
    poolStep (.advance (Fin.last 0)) (single ⟨.run, l, [], .entry, as, ran⟩) = .ok (single ⟨.run, [], l, .loop 0 size, as, ran⟩) := by
  refine advance_single ?_ rfl (List.append_nil _).symm
  show SequencialRunner.takeStandby _ = _
  rw [SequencialRunner.takeStandby_eq rfl hne, hsize]

/-- `n` times the same task stands by. -/
def queued (n : Nat) : SequencialRunner := ⟨.run, List.replicate n ⟨1, 10⟩, [], .entry, List.replicate n ⟨1, 10⟩, []⟩

theorem run_queued (n : Nat) :
    Run poolStep (fun _ _ => True) (started 1) (List.replicate n (.assign ⟨1, 10⟩)) (single (queued n)) := by
  induction n with
  | zero => exact .nil _
  | succ n ih =>
    have hassigned : (queued (n + 1)).assigned = (queued n).assigned ++ [⟨1, 10⟩] := List.replicate_succ'
    have hassign : (queued n).assignTask ⟨1, 10⟩ = .ok (queued (n + 1)) := by
      unfold queued
      rw [List.replicate_succ']
      rfl
    rw [List.replicate_succ']
    exact ih.append (.cons trivial (assignTask_single hassign hassigned rfl) (.nil _))

/-- The runner takes `n` tasks, and then one more. -/
def oneMore (n : Nat) : List (PoolEvent 1) :=
  List.replicate n (.assign ⟨1, 10⟩) ++
    [.advance (Fin.last 0), .advance (Fin.last 0), .assign ⟨1, 11⟩, .advance (Fin.last 0), .advance (Fin.last 0)]

/-- The loop ends at once where the tasks are none in an `int`. -/
theorem run_oneMore {n : Nat} (hpos : 0 < n) (hsize : intSize n = 0) :
    ∃ r, Run poolStep (fun _ _ => True) (started 1) (oneMore n) (single r) ∧
      r.assigned = List.replicate n ⟨1, 10⟩ ++ [⟨1, 11⟩] ∧ r.ran = [⟨1, 11⟩] := by
  have hlen : (List.replicate n (⟨1, 10⟩ : SequencialTask)).length = n := List.length_replicate
  have hqueued := run_queued n
  unfold queued at hqueued
  unfold oneMore
  generalize List.replicate n (⟨1, 10⟩ : SequencialTask) = l at hlen hqueued ⊢
  have hne : l ≠ [] := List.ne_nil_of_length_pos (by omega)
  have hint : [(⟨1, 11⟩ : SequencialTask)].length < 2 ^ 31 := by decide
  have htake : poolStep (.advance (Fin.last 0)) (single ⟨.run, l, [], .entry, l, []⟩) = .ok (single ⟨.run, [], l, .loop 0 0, l, []⟩) :=
    take_single hne (by rw [hlen, hsize])
  have hdrop : poolStep (.advance (Fin.last 0)) (single ⟨.run, [], l, .loop 0 0, l, []⟩) = .ok (single ⟨.run, [], [], .entry, l, []⟩) :=
    advance_single rfl rfl rfl
  have hassign : poolStep (.assign ⟨1, 11⟩) (single ⟨.run, [], [], .entry, l, []⟩) =
      .ok (single ⟨.run, [⟨1, 11⟩], [], .entry, l ++ [⟨1, 11⟩], []⟩) := assignTask_single rfl rfl rfl
  have hone : poolStep (.advance (Fin.last 0)) (single ⟨.run, [⟨1, 11⟩], [], .entry, l ++ [⟨1, 11⟩], []⟩) =
      .ok (single ⟨.run, [], [⟨1, 11⟩], .loop 0 1, l ++ [⟨1, 11⟩], []⟩) :=
    take_single (List.cons_ne_nil _ _) (SequencialRunner.intSize_eq hint)
  have hrun : poolStep (.advance (Fin.last 0)) (single ⟨.run, [], [⟨1, 11⟩], .loop 0 1, l ++ [⟨1, 11⟩], []⟩) =
      .ok (single ⟨.run, [], [⟨1, 11⟩], .loop 1 1, l ++ [⟨1, 11⟩], [⟨1, 11⟩]⟩) :=
    advance_single (SequencialRunner.loopRound_eq rfl Nat.zero_lt_one hint) rfl rfl
  exact ⟨_, hqueued.append (.cons trivial htake (.cons trivial hdrop (.cons trivial hassign (.cons trivial hone
    (.cons trivial hrun (.nil _)))))), rfl, rfl⟩

/-- 2^32 tasks are dropped, and the one that comes behind them is run. -/
theorem tasks_dropped : ∃ s, Run poolStep (fun _ _ => True) (started 1) (oneMore (2 ^ 32)) s ∧ s.ran = [⟨1, 11⟩] ∧ ¬ InOrder s := by
  obtain ⟨r, hr, hassigned, hran⟩ := run_oneMore (by decide : 0 < 2 ^ 32) (by decide)
  refine ⟨_, hr, hran, fun h => ?_⟩
  have hfirst : r.ran <+: r.assigned := h.order (Fin.last 0)
  have hsucc : 2 ^ 32 = (2 ^ 32 - 1) + 1 := by decide
  rw [hran, hassigned, hsucc, List.replicate_succ, List.cons_append, List.cons_prefix_cons] at hfirst
  exact absurd hfirst.1 (by decide)

end SequencialRunnerPool
end Wawo
