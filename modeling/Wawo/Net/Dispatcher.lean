import Mathlib.Data.List.Nodup
import Wawo.Task.Runner

/-!
# Event dispatchers (`dispatcher_abstract.hpp`)

`register_listener` and `unregister_listener` put an operation in a queue under `m_listener_ops_mutex`.
`trigger` holds `m_id_listener_vector_mutex`: it applies what is in the queue to the vectors of listeners, and
calls those of the event's id one after the other. `oschedule` wraps an event in a task for the sequential
runners, with the id of the dispatcher as its tag, and the task calls `trigger`.

One dispatcher and the runners. A call of a listener is a step, so that operations come in between; so is what
is up to the first call, and the end of `trigger`. The thread that calls `trigger` outside of the runners is
any. Listeners are not `NULL`. A second registration fails an assertion only where `_DEBUG` is defined (`debug`);
elsewhere the listener is called twice. The `unregister_listener` that takes an id alone does not compile, so that
nothing queues its operation. `events_delivered`: the events of one tag are triggered in the order of `oschedule`, each
once, and reach the listeners that are registered then, as often as they are, where no runner takes more tasks than an
`int` counts (`CountsTasks`).
-/

namespace Wawo

open Lts

/-- `NE_MAX` -/
def neMax : Nat := 8

/-- The `listener_op` of each `ListenerOpCode` -/
inductive ListenerOp (L : Type)
  | addIdListener (listener : L) (id : Nat)
  | removeIdListener (listener : L) (id : Nat)
  | removeListenerAllId (listener : L)
  | removeIdAllListener (id : Nat)
deriving DecidableEq

/-- `event` -/
structure NetEvent where
  id : Nat
  info : Nat
deriving DecidableEq

inductive DispatchFault
  | id -- `_process_listener_op`: `id < NE_MAX`
  | registered -- `_process_listener_op` with `_DEBUG`: the listener is in the vector already
  | evtId -- `trigger`: `evt->id < NE_MAX`
  | wait -- the mutex is held, or the thread is in `trigger`
  | idle -- nobody is in `trigger`
  | runner (f : RunnerFault)
deriving DecidableEq

/-- `dispatcher_abstract` -/
structure Dispatcher (L : Type) where
  idListenerVector : Fin neMax → List L
  listenerOps : List (ListenerOp L)

namespace Dispatcher

variable {L : Type} [DecidableEq L] (debug : Bool)

/-- The body of the loop of `_process_listener_op` -/
def process (v : Fin neMax → List L) : ListenerOp L → Except DispatchFault (Fin neMax → List L)
  | .addIdListener listener id =>
    if h : id < neMax then
      if debug = true ∧ listener ∈ v ⟨id, h⟩ then .error .registered
      else .ok (Function.update v ⟨id, h⟩ (v ⟨id, h⟩ ++ [listener]))
    else .error .id
  | .removeIdListener listener id =>
    if h : id < neMax then .ok (Function.update v ⟨id, h⟩ ((v ⟨id, h⟩).erase listener)) else .error .id
  | .removeListenerAllId listener => .ok fun i => (v i).filter (· ≠ listener)
  | .removeIdAllListener id => if h : id < neMax then .ok (Function.update v ⟨id, h⟩ []) else .error .id

variable (d : Dispatcher L)

/-- `_process_listener_op` -/
def processListenerOp : Except DispatchFault (Dispatcher L) := do
  return ⟨← d.listenerOps.foldlM (process debug) d.idListenerVector, []⟩

/-- `_add_listener_op` -/
def addListenerOp (op : ListenerOp L) : Dispatcher L := { d with listenerOps := d.listenerOps ++ [op] }

/-- `trigger` up to the loop: the listeners that it is going to call -/
def collect (evt : NetEvent) : Except DispatchFault (List L × Dispatcher L) :=
  if h : evt.id < neMax then do
    let d ← if d.listenerOps ≠ [] then d.processListenerOp debug else .ok d
    return (d.idListenerVector ⟨evt.id, h⟩, d)
  else .error .evtId

end Dispatcher

/-- A call of `trigger` that has the mutex -/
structure Trigger (c : Nat) (L : Type) where
  runner : Option (Fin c) -- the runner whose thread it is, or another thread
  evt : NetEvent
  rest : List L

/-- `schedule_task`, with the number of operations that there had been -/
structure ScheduleTask where
  evt : NetEvent
  pushed : Nat
deriving DecidableEq

/-- What a call of `trigger` found -/
structure Dispatch (L : Type) where
  task : Option SequencialTask -- the task that calls it, if one does
  evt : NetEvent
  seen : Nat -- the number of operations that there had been
  targets : List L
deriving DecidableEq

/-- A dispatcher and the runners. The task that a pointer is for is at its place in `heap`: `none` is a task that
is none of the dispatcher's. -/
structure EventBus (c : Nat) (L : Type) where
  pool : SequencialRunnerPool c
  dpId : Nat
  d : Dispatcher L
  trigger : Option (Trigger c L)
  heap : List (Option ScheduleTask)
  pushed : List (ListenerOp L) -- history: the operations
  log : List (Dispatch L) -- history: the calls of `trigger`
  calls : List (NetEvent × L) -- history: the calls of `on_event`

namespace EventBus

variable {c : Nat} {L : Type}

/-- No listener, no event. -/
def opened (c : Nat) (L : Type) (dpId : Nat) : EventBus c L :=
  ⟨.started c, dpId, ⟨fun _ => [], []⟩, none, [], [], [], []⟩

variable (s : EventBus c L)

def scheduleTask (t : SequencialTask) : Option ScheduleTask := s.heap[t.task]?.join

def addListenerOp (op : ListenerOp L) : EventBus c L :=
  { s with d := s.d.addListenerOp op, pushed := s.pushed ++ [op] }

section

variable [DecidableEq L] (debug : Bool)

/-- What `force_update` does behind the operation -/
def forceUpdate : Except DispatchFault (EventBus c L) :=
  if s.trigger.isSome then .error .wait
  else do return { s with d := ← s.d.processListenerOp debug }

def beginTrigger (runner : Option (Fin c)) (task : Option SequencialTask) (evt : NetEvent) : Except DispatchFault (EventBus c L) :=
  if s.trigger.isSome then .error .wait
  else do
    let (targets, d) ← s.d.collect debug evt
    return { s with d := d, trigger := some ⟨runner, evt, targets⟩, log := s.log ++ [⟨task, evt, s.pushed.length, targets⟩] }

end

/-- The thread in `trigger` goes on: it calls the next listener, or gives back the mutex. -/
def goOn : Except DispatchFault (EventBus c L) :=
  match s.trigger with
  | none => .error .idle
  | some ⟨runner, evt, listener :: rest⟩ => .ok { s with trigger := some ⟨runner, evt, rest⟩, calls := s.calls ++ [(evt, listener)] }
  | some ⟨_, _, []⟩ => .ok { s with trigger := none }

variable [NeZero c]

/-- A new task goes to the runner of its tag. -/
def assign (tag : Nat) (st : Option ScheduleTask) : Except DispatchFault (EventBus c L) :=
  match s.pool.assignTask ⟨tag, s.heap.length⟩ with
  | .ok pool => .ok { s with pool := pool, heap := s.heap ++ [st] }
  | .error f => .error (.runner f)

def oschedule (evt : NetEvent) (tag : Nat) : Except DispatchFault (EventBus c L) :=
  s.assign (if tag = 0 then s.dpId else tag) (some ⟨evt, s.pushed.length⟩)

def advancePool (i : Fin c) : Except DispatchFault (EventBus c L) :=
  match s.pool.advance i with
  | .ok pool => .ok { s with pool := pool }
  | .error f => .error (.runner f)

/-- The thread of a runner goes on, into `trigger` if its next task is an event of the dispatcher. -/
def advance [DecidableEq L] (debug : Bool) (i : Fin c) : Except DispatchFault (EventBus c L) :=
  if s.trigger.any fun t => t.runner = some i then .error .wait
  else
    match (s.pool.runners i).runs with
    | [] => s.advancePool i
    | t :: _ =>
      match s.scheduleTask t with
      | none => s.advancePool i
      | some st => do
        let s ← s.beginTrigger debug (some i) (some t) st.evt
        s.advancePool i

end EventBus

inductive BusEvent (c : Nat) (L : Type)
  | registerListener (id : Nat) (listener : L)
  | unregisterListener (id : Nat) (listener : L)
  | unregisterAll (listener : L) -- `unregister_listener` of a listener for all ids
  | forceUpdate
  | oschedule (evt : NetEvent) (tag : Nat)
  | assign (tag : Nat)
  | advance (i : Fin c)
  | trigger (evt : NetEvent)
  | goOn

def busStep {c : Nat} {L : Type} [NeZero c] [DecidableEq L] (debug : Bool) : BusEvent c L → EventBus c L → Except DispatchFault (EventBus c L)
  | .registerListener id listener, s => .ok (s.addListenerOp (.addIdListener listener id))
  | .unregisterListener id listener, s => .ok (s.addListenerOp (.removeIdListener listener id))
  | .unregisterAll listener, s => .ok (s.addListenerOp (.removeListenerAllId listener))
  | .forceUpdate, s => s.forceUpdate debug
  | .oschedule evt tag, s => s.oschedule evt tag
  | .assign tag, s => s.assign tag none
  | .advance i, s => s.advance debug i
  | .trigger evt, s => s.beginTrigger debug none none evt
  | .goOn, s => s.goOn

/-- The thread of a runner that goes on takes no more tasks than an `int` counts. -/
def EventBus.CountsTasks {c : Nat} {L : Type} [NeZero c] (s : EventBus c L) : BusEvent c L → Prop
  | .advance i => s.pool.CountsTasks (.advance i)
  | _ => True

instance {c : Nat} {L : Type} [NeZero c] (s : EventBus c L) (e : BusEvent c L) : Decidable (s.CountsTasks e) := by
  unfold EventBus.CountsTasks
  split <;> infer_instance

/-! ### Who is registered -/

section

variable {L : Type}

def ListenerOp.Removes (id : Nat) (listener : L) : ListenerOp L → Prop
  | .addIdListener _ _ => False
  | .removeIdListener listener' id' => listener' = listener ∧ id' = id
  | .removeListenerAllId listener' => listener' = listener
  | .removeIdAllListener id' => id' = id

/-- The listener is registered for the id, and no operation behind that removes it. -/
def Listening (ops : List (ListenerOp L)) (id : Nat) (listener : L) : Prop :=
  ∃ front tail, ops = front ++ .addIdListener listener id :: tail ∧ ∀ op ∈ tail, ¬ op.Removes id listener

variable {ops ops' : List (ListenerOp L)} {op : ListenerOp L} {id : Nat} {listener : L}

theorem Listening.append (h : Listening ops id listener) (hops' : ∀ op ∈ ops', ¬ op.Removes id listener) :
    Listening (ops ++ ops') id listener := by
  obtain ⟨front, tail, rfl, htail⟩ := h
  refine ⟨front, tail ++ ops', by simp, fun op hop => ?_⟩
  exact (List.mem_append.1 hop).elim (htail op) (hops' op)

end

section

variable {L : Type} [DecidableEq L]

/-- How often the listener is registered for the id behind the operation, where it was `n` times before: a removal for
the id takes one registration back. -/
def ListenerOp.stands (id : Nat) (listener : L) (n : Nat) : ListenerOp L → Nat
  | .addIdListener listener' id' => if listener' = listener ∧ id' = id then n + 1 else n
  | .removeIdListener listener' id' => if listener' = listener ∧ id' = id then n - 1 else n
  | .removeListenerAllId listener' => if listener' = listener then 0 else n
  | .removeIdAllListener id' => if id' = id then 0 else n

/-- How often the operations leave the listener registered -/
def standing (ops : List (ListenerOp L)) (id : Nat) (listener : L) : Nat := ops.foldl (ListenerOp.stands id listener) 0

variable {ops ops' : List (ListenerOp L)} {op : ListenerOp L} {id : Nat} {listener : L}

theorem standing_snoc : standing (ops ++ [op]) id listener = op.stands id listener (standing ops id listener) := by
  rw [standing, List.foldl_append]
  rfl

theorem ListenerOp.stands_of_not_removes {n : Nat} (hop : ¬ op.Removes id listener) : n ≤ op.stands id listener n := by
  cases op with
  | addIdListener listener' id' =>
    unfold stands
    dsimp only
    split_ifs
    · exact Nat.le_succ n
    · exact Nat.le_refl n
  | removeIdListener | removeListenerAllId | removeIdAllListener => exact (if_neg hop).ge

/-- Who is listening is registered. -/
theorem Listening.standing_pos (h : Listening ops id listener) : 0 < standing ops id listener := by
  obtain ⟨front, tail, rfl, htail⟩ := h
  have hkept {n : Nat} : n ≤ tail.foldl (ListenerOp.stands id listener) n := by
    induction tail generalizing n with
    | nil => exact Nat.le_refl n
    | cons op tail ih =>
      have hop := htail op (List.mem_cons_self ..)
      exact (ListenerOp.stands_of_not_removes hop).trans (ih (fun op hop => htail op (List.mem_cons_of_mem _ hop)))
  rw [standing, List.foldl_append, List.foldl_cons]
  refine Nat.lt_of_lt_of_le (Nat.succ_pos (standing front id listener)) (le_trans ?_ hkept)
  exact (if_pos ⟨rfl, rfl⟩).ge

/-- The vectors hold who is registered by the operations, as often as it is; with `_DEBUG` nobody is twice. -/
def Reflects (debug : Bool) (v : Fin neMax → List L) (ops : List (ListenerOp L)) : Prop :=
  ∀ id, (debug = true → (v id).Nodup) ∧ ∀ listener, (v id).count listener = standing ops id listener

variable {debug : Bool} {v v' : Fin neMax → List L}

/-- An operation on one of the vectors -/
theorem Reflects.update (h : Reflects debug v ops) {i : Fin neMax} {l : List L} (hnodup : debug = true → l.Nodup)
    (hcount : ∀ listener, l.count listener = op.stands i listener ((v i).count listener))
    (hother : ∀ id listener n, id ≠ i.val → op.stands id listener n = n) : Reflects debug (Function.update v i l) (ops ++ [op]) := by
  intro id
  simp only [standing_snoc]
  by_cases heq : id = i
  · subst heq
    rw [Function.update_self]
    refine ⟨hnodup, fun listener => ?_⟩
    rw [hcount, (h id).2]
  · rw [Function.update_of_ne heq]
    refine ⟨(h id).1, fun listener => ?_⟩
    rw [hother id listener _ fun hval => heq (Fin.ext hval)]
    exact (h id).2 listener

theorem Reflects.process (h : Reflects debug v ops) (hp : Dispatcher.process debug v op = .ok v') : Reflects debug v' (ops ++ [op]) := by
  cases op with
  | addIdListener listener id =>
    unfold Dispatcher.process at hp
    dsimp only at hp
    split_ifs at hp with hid hnew
    cases hp
    obtain ⟨hnodup, -⟩ := h ⟨id, hid⟩
    refine h.update (fun hdebug => ?_) (fun l => ?_) fun id' l n hne => if_neg fun heq => hne heq.2.symm
    · exact List.Nodup.append (hnodup hdebug) (List.nodup_singleton _) (by simpa using fun hmem => hnew ⟨hdebug, hmem⟩)
    · rw [List.count_append, List.count_singleton]
      unfold ListenerOp.stands
      by_cases heq : listener = l <;> simp [heq]
  | removeIdListener listener id =>
    unfold Dispatcher.process at hp
    dsimp only at hp
    split_ifs at hp with hid
    cases hp
    obtain ⟨hnodup, -⟩ := h ⟨id, hid⟩
    refine h.update (fun hdebug => (hnodup hdebug).erase _) (fun l => ?_) fun id' l n hne => if_neg fun heq => hne heq.2.symm
    rw [List.count_erase]
    unfold ListenerOp.stands
    by_cases heq : listener = l <;> simp [heq]
  | removeListenerAllId listener =>
    cases hp
    intro id
    obtain ⟨hnodup, hcount⟩ := h id
    refine ⟨fun hdebug => (hnodup hdebug).filter _, fun l => ?_⟩
    rw [standing_snoc, ← hcount]
    unfold ListenerOp.stands
    dsimp only
    by_cases heq : listener = l
    · subst heq
      rw [if_pos rfl]
      exact List.count_eq_zero_of_not_mem fun hmem => of_decide_eq_true (List.mem_filter.1 hmem).2 rfl
    · rw [if_neg heq]
      exact List.count_filter (decide_eq_true (Ne.symm heq))
  | removeIdAllListener id =>
    unfold Dispatcher.process at hp
    dsimp only at hp
    split_ifs at hp with hid
    cases hp
    refine h.update (fun _ => List.nodup_nil) (fun l => ?_) fun id' l n hne => if_neg fun heq => hne heq.symm
    exact (if_pos rfl).symm

theorem Reflects.foldlM (h : Reflects debug v ops) (hp : ops'.foldlM (Dispatcher.process debug) v = .ok v') : Reflects debug v' (ops ++ ops') := by
  induction ops' generalizing v ops with
  | nil =>
    cases hp
    rw [List.append_nil]
    exact h
  | cons op ops' ih =>
    rw [List.foldlM_cons] at hp
    obtain ⟨v₁, hv₁, hp⟩ := bind_eq_ok.1 hp
    have hgo := ih (h.process hv₁) hp
    rw [List.append_assoc] at hgo
    exact hgo

/-- The vectors reflect the operations that are not in the queue any more. -/
def Caught (debug : Bool) (d : Dispatcher L) (pushed : List (ListenerOp L)) : Prop :=
  ∃ done, pushed = done ++ d.listenerOps ∧ Reflects debug d.idListenerVector done

variable {d d' : Dispatcher L} {pushed : List (ListenerOp L)}

theorem Caught.addListenerOp (h : Caught debug d pushed) (op : ListenerOp L) : Caught debug (d.addListenerOp op) (pushed ++ [op]) := by
  obtain ⟨done, rfl, hr⟩ := h
  exact ⟨done, List.append_assoc .., hr⟩

theorem Caught.processListenerOp (h : Caught debug d pushed) (hp : d.processListenerOp debug = .ok d') :
    Caught debug d' pushed ∧ d'.listenerOps = [] := by
  obtain ⟨done, rfl, hr⟩ := h
  obtain ⟨v, hv, hp⟩ := bind_eq_ok.1 hp
  cases hp
  exact ⟨⟨done ++ d.listenerOps, (List.append_nil _).symm, hr.foldlM hv⟩, rfl⟩

/-- `trigger` calls who is registered by all the operations so far. -/
theorem Caught.collect (h : Caught debug d pushed) {evt : NetEvent} {targets : List L} (hc : d.collect debug evt = .ok (targets, d')) :
    Caught debug d' pushed ∧ (debug = true → targets.Nodup) ∧ ∀ listener, targets.count listener = standing pushed evt.id listener := by
  unfold Dispatcher.collect at hc
  split_ifs at hc with hid hops
  · obtain ⟨d₁, hd₁, hc⟩ := bind_eq_ok.1 hc
    cases hc
    obtain ⟨hcaught, hnil⟩ := h.processListenerOp hd₁
    refine ⟨hcaught, ?_⟩
    obtain ⟨done, rfl, hr⟩ := hcaught
    rw [hnil, List.append_nil]
    exact hr ⟨evt.id, hid⟩
  · cases hc
    refine ⟨h, ?_⟩
    obtain ⟨done, rfl, hr⟩ := h
    rw [not_not.1 hops, List.append_nil]
    exact hr ⟨evt.id, hid⟩

end

/-! ### The runs -/

namespace EventBus

variable {c : Nat} {L : Type} {s s' : EventBus c L}

/-- What `trigger` still has to call -/
def pending (s : EventBus c L) : List (NetEvent × L) :=
  match s.trigger with
  | none => []
  | some t => t.rest.map fun l => (t.evt, l)

/-- The tasks of a list that are events of the dispatcher -/
def events (s : EventBus c L) (l : List SequencialTask) : List SequencialTask := l.filter fun t => (s.scheduleTask t).isSome

/-- The events of a tag are triggered in the order of `oschedule`, each once. Every call of `trigger` goes to the
listeners that are registered by the operations so far, to each as often as it is, which is once at most with `_DEBUG`.
A listener that was registered before an event was scheduled, and is not removed before it is triggered, gets it. What is
called is what was to be called. -/
structure Delivers [DecidableEq L] (debug : Bool) (s : EventBus c L) : Prop where
  order : ∀ tag, SequencialRunnerPool.tagged tag (s.log.filterMap (·.task)) <+: s.events (SequencialRunnerPool.tagged tag s.pool.assigned)
  evt : ∀ d ∈ s.log, ∀ t, d.task = some t → (s.scheduleTask t).map (·.evt) = some d.evt
  targets : ∀ d ∈ s.log, ∀ l, d.targets.count l = standing (s.pushed.take d.seen) d.evt.id l
  nodup : debug = true → ∀ d ∈ s.log, d.targets.Nodup
  kept : ∀ d ∈ s.log, ∀ t st, d.task = some t → s.scheduleTask t = some st → ∀ l, Listening (s.pushed.take st.pushed) d.evt.id l →
    (∀ op ∈ (s.pushed.take d.seen).drop st.pushed, ¬ op.Removes d.evt.id l) → l ∈ d.targets
  calls : s.calls ++ s.pending = s.log.flatMap fun d => d.targets.map fun l => (d.evt, l)

/-- An entry of `log` is right. -/
structure Logged [DecidableEq L] (debug : Bool) (s : EventBus c L) (d : Dispatch L) : Prop where
  seen_le : d.seen ≤ s.pushed.length
  nodup : debug = true → d.targets.Nodup
  count : ∀ l, d.targets.count l = standing (s.pushed.take d.seen) d.evt.id l
  task : ∀ t, d.task = some t → ∃ pushed ≤ d.seen, s.heap[t.task]? = some (some ⟨d.evt, pushed⟩)

structure Sound [NeZero c] [DecidableEq L] (debug : Bool) (s : EventBus c L) : Prop where
  pool : s.pool.Sound
  caught : Caught debug s.d s.pushed
  logged : ∀ d ∈ s.log, Logged debug s d
  order : s.log.filterMap (·.task) = s.events s.pool.ran
  heap : ∀ t ∈ s.pool.assigned, t.task < s.heap.length
  pushed_le : ∀ st, some st ∈ s.heap → st.pushed ≤ s.pushed.length
  calls : s.calls ++ s.pending = s.log.flatMap fun d => d.targets.map fun l => (d.evt, l)

theorem events_append (s : EventBus c L) (l l' : List SequencialTask) : s.events (l ++ l') = s.events l ++ s.events l' :=
  List.filter_append ..

theorem scheduleTask_eq_some {t : SequencialTask} {st : ScheduleTask} : s.scheduleTask t = some st ↔ s.heap[t.task]? = some (some st) :=
  Option.join_eq_some_iff

/-- What has run was assigned. -/
theorem mem_assigned [NeZero c] {p : SequencialRunnerPool c} (h : p.Sound) {t : SequencialTask} (ht : t ∈ p.ran) : t ∈ p.assigned := by
  have htag : t ∈ SequencialRunnerPool.tagged t.tag p.ran := List.mem_filter.2 ⟨ht, by simp⟩
  exact (List.mem_filter.1 ((h.inOrder.tag_order t.tag).subset htag)).1

/-- What a step adds to the operations and to the heap leaves the log right. -/
theorem Logged.mono [DecidableEq L] {debug : Bool} {d : Dispatch L} (h : Logged debug s d) (ops : List (ListenerOp L)) (sts : List (Option ScheduleTask))
    (hpushed : s'.pushed = s.pushed ++ ops) (hheap : s'.heap = s.heap ++ sts) :
    Logged debug s' d where
  seen_le := by
    rw [hpushed, List.length_append]
    exact Nat.le_add_right_of_le h.seen_le
  nodup := h.nodup
  count := by
    rw [hpushed, List.take_append_of_le_length h.seen_le]
    exact h.count
  task t ht := by
    obtain ⟨pushed, hle, ht⟩ := h.task t ht
    refine ⟨pushed, hle, ?_⟩
    rw [hheap, List.getElem?_append_left (List.getElem?_eq_some_iff.1 ht).1]
    exact ht

/-- New tasks do not change which of the old ones are events. -/
theorem events_congr {l : List SequencialTask} {sts : List (Option ScheduleTask)} (hl : ∀ t ∈ l, t.task < s.heap.length)
    (hheap : s'.heap = s.heap ++ sts) : s'.events l = s.events l := by
  refine List.filter_congr fun t ht => ?_
  unfold scheduleTask
  rw [hheap, List.getElem?_append_left (hl t ht)]

/-- A trigger begins: what is to be called is put in the log. -/
theorem beginTrigger_eq [DecidableEq L] {debug : Bool} {runner : Option (Fin c)} {task : Option SequencialTask} {evt : NetEvent}
    (hb : s.beginTrigger debug runner task evt = .ok s') : s.trigger = none ∧ ∃ targets d, s.d.collect debug evt = .ok (targets, d) ∧
      s' = { s with d := d, trigger := some ⟨runner, evt, targets⟩, log := s.log ++ [⟨task, evt, s.pushed.length, targets⟩] } := by
  unfold EventBus.beginTrigger at hb
  split_ifs at hb with hbusy
  obtain ⟨⟨targets, d⟩, hd, hb⟩ := bind_eq_ok.1 hb
  cases hb
  exact ⟨Option.not_isSome_iff_eq_none.1 hbusy, targets, d, hd, rfl⟩

/-- One task at most is run in a step. -/
theorem runs_length (r : SequencialRunner) : r.runs.length ≤ 1 := by
  unfold SequencialRunner.runs
  split
  · rename_i i size hph
    split_ifs
    · cases r.assigning[i]? <;> simp
    · simp
  · simp

section

variable [NeZero c] [DecidableEq L] {debug : Bool}

theorem Sound.delivers (h : Sound debug s) : Delivers debug s where
  order tag := by
    rw [h.order]
    have hcomm : SequencialRunnerPool.tagged tag (s.events s.pool.ran) = s.events (SequencialRunnerPool.tagged tag s.pool.ran) := by
      unfold SequencialRunnerPool.tagged events
      rw [List.filter_filter, List.filter_filter]
      simp only [Bool.and_comm]
    rw [hcomm]
    exact (h.pool.inOrder.tag_order tag).filter _
  evt d hd t ht := by
    obtain ⟨pushed, -, hheap⟩ := (h.logged d hd).task t ht
    rw [scheduleTask_eq_some.2 hheap]
    rfl
  targets d hd := (h.logged d hd).count
  nodup hdebug d hd := (h.logged d hd).nodup hdebug
  kept d hd t st ht hst l hreg hkept := by
    obtain ⟨pushed, hle, hheap⟩ := (h.logged d hd).task t ht
    cases hst.symm.trans (scheduleTask_eq_some.2 hheap)
    rw [← List.count_pos_iff, (h.logged d hd).count]
    have hsplit : s.pushed.take d.seen = s.pushed.take pushed ++ (s.pushed.take d.seen).drop pushed := by
      conv_lhs => rw [← List.take_append_drop pushed (s.pushed.take d.seen), List.take_take, Nat.min_eq_left hle]
    rw [hsplit]
    exact (hreg.append hkept).standing_pos
  calls := h.calls

theorem Sound.addListenerOp (h : Sound debug s) (op : ListenerOp L) : Sound debug (s.addListenerOp op) where
  pool := h.pool
  caught := h.caught.addListenerOp op
  logged d hd := (h.logged d hd).mono _ [] rfl (List.append_nil _).symm
  order := h.order
  heap := h.heap
  pushed_le st hst := by
    refine Nat.le_trans (h.pushed_le st hst) ?_
    unfold EventBus.addListenerOp
    simp
  calls := h.calls

theorem Sound.assign (h : Sound debug s) {tag : Nat} {st : Option ScheduleTask} (hst : ∀ st', st = some st' → st'.pushed ≤ s.pushed.length)
    (ha : s.assign tag st = .ok s') : Sound debug s' := by
  unfold EventBus.assign at ha
  obtain ⟨pool, hpool, hsound⟩ := h.pool.step (.assign ⟨tag, s.heap.length⟩)
  have hpool : s.pool.assignTask ⟨tag, s.heap.length⟩ = .ok pool := hpool
  have hsound := hsound trivial
  rw [hpool] at ha
  cases ha
  have hassigned : pool.assigned = s.pool.assigned ++ [⟨tag, s.heap.length⟩] ∧ pool.ran = s.pool.ran := by
    unfold SequencialRunnerPool.assignTask at hpool
    split_ifs at hpool
    obtain ⟨r, -, hpool⟩ := map_eq_ok.1 hpool
    cases hpool
    exact ⟨rfl, rfl⟩
  have hold : ∀ t ∈ s.pool.ran, t.task < s.heap.length := fun t ht => h.heap t (mem_assigned h.pool ht)
  refine ⟨hsound, h.caught, fun d hd => (h.logged d hd).mono [] _ (List.append_nil _).symm rfl, ?_, ?_, ?_, h.calls⟩
  · show s.log.filterMap (·.task) = events _ pool.ran
    rw [hassigned.2, events_congr hold rfl]
    exact h.order
  · intro t ht
    rw [hassigned.1, List.mem_append, List.mem_singleton] at ht
    dsimp only
    rw [List.length_append, List.length_singleton]
    rcases ht with ht | rfl
    · exact Nat.lt_succ_of_lt (h.heap t ht)
    · exact Nat.lt_succ_self _
  · intro st' hmem
    rcases List.mem_append.1 hmem with hmem | hmem
    · exact h.pushed_le st' hmem
    · exact hst st' (List.mem_singleton.1 hmem).symm

theorem Sound.forceUpdate (h : Sound debug s) (hf : s.forceUpdate debug = .ok s') : Sound debug s' := by
  unfold EventBus.forceUpdate at hf
  split_ifs at hf
  obtain ⟨d, hd, hf⟩ := bind_eq_ok.1 hf
  cases hf
  exact ⟨h.pool, (h.caught.processListenerOp hd).1, fun d hd => (h.logged d hd).mono [] [] (List.append_nil _).symm
    (List.append_nil _).symm, h.order, h.heap, h.pushed_le, h.calls⟩

theorem Sound.goOn (h : Sound debug s) (hg : s.goOn = .ok s') : Sound debug s' := by
  have hlogged : ∀ {s' : EventBus c L}, s'.log = s.log → s'.pushed = s.pushed → s'.heap = s.heap → ∀ d ∈ s'.log, Logged debug s' d := by
    intro s' hlog hpushed hheap d hd
    rw [hlog] at hd
    exact (h.logged d hd).mono [] [] (hpushed.trans (List.append_nil _).symm) (hheap.trans (List.append_nil _).symm)
  have hcalls := h.calls
  unfold pending at hcalls
  unfold EventBus.goOn at hg
  cases ht : s.trigger with
  | none =>
    rw [ht] at hg
    cases hg
  | some t =>
    obtain ⟨runner, evt, rest⟩ := t
    rw [ht] at hg hcalls
    cases rest with
    | nil =>
      cases hg
      exact ⟨h.pool, h.caught, hlogged rfl rfl rfl, h.order, h.heap, h.pushed_le, hcalls⟩
    | cons l rest =>
      cases hg
      refine ⟨h.pool, h.caught, hlogged rfl rfl rfl, h.order, h.heap, h.pushed_le, ?_⟩
      show s.calls ++ [(evt, l)] ++ rest.map _ = _
      rw [List.append_assoc]
      exact hcalls

/-- A trigger by a task that the runners run now, or by another thread -/
theorem Sound.begin (h : Sound debug s) {runner : Option (Fin c)} {task : Option SequencialTask} {evt : NetEvent} {pool : SequencialRunnerPool c}
    {ran : List SequencialTask} (hb : s.beginTrigger debug runner task evt = .ok s') (hpool : pool.Sound)
    (hassigned : pool.assigned = s.pool.assigned) (hran : pool.ran = s.pool.ran ++ ran) (hevents : s.events ran = task.toList)
    (htask : ∀ t, task = some t → ∃ pushed ≤ s.pushed.length, s.heap[t.task]? = some (some ⟨evt, pushed⟩)) :
    Sound debug { s' with pool := pool } := by
  obtain ⟨hfree, targets, d, hd, rfl⟩ := beginTrigger_eq hb
  obtain ⟨hcaught, hnodup, hcount⟩ := h.caught.collect hd
  refine ⟨hpool, hcaught, fun d' hd' => ?_, ?_, ?_, h.pushed_le, ?_⟩
  · rcases List.mem_append.1 hd' with hd' | hd'
    · exact (h.logged d' hd').mono [] [] (List.append_nil _).symm (List.append_nil _).symm
    · rw [List.mem_singleton.1 hd']
      refine ⟨Nat.le_refl _, hnodup, ?_, htask⟩
      dsimp only
      rw [List.take_length]
      exact hcount
  · show (s.log ++ [_]).filterMap (fun d : Dispatch L => d.task) = s.events pool.ran
    rw [List.filterMap_append, h.order, hran, events_append, hevents]
    cases task <;> rfl
  · dsimp only
    rw [hassigned]
    exact h.heap
  · have hcalls := h.calls
    unfold pending at hcalls ⊢
    rw [hfree, List.append_nil] at hcalls
    show s.calls ++ targets.map _ = (s.log ++ [_]).flatMap _
    rw [hcalls, List.flatMap_append, List.flatMap_cons, List.flatMap_nil, List.append_nil]

/-- The thread of a runner goes on. -/
theorem Sound.poolAdvance (h : Sound debug s) {i : Fin c} (hi : s.pool.CountsTasks (.advance i)) : ∃ pool : SequencialRunnerPool c, s.pool.advance i = .ok pool ∧ pool.Sound ∧
    pool.assigned = s.pool.assigned ∧ pool.ran = s.pool.ran ++ (s.pool.runners i).runs := by
  obtain ⟨pool, hpool, hsound⟩ := h.pool.step (.advance i)
  have hpool : s.pool.advance i = .ok pool := hpool
  refine ⟨pool, hpool, hsound hi, ?_⟩
  unfold SequencialRunnerPool.advance at hpool
  obtain ⟨r, -, hpool⟩ := map_eq_ok.1 hpool
  cases hpool
  exact ⟨rfl, rfl⟩

theorem Sound.advancePool (h : Sound debug s) {i : Fin c} (hi : s.pool.CountsTasks (.advance i))
    (hnone : s.events (s.pool.runners i).runs = []) (ha : s.advancePool i = .ok s') : Sound debug s' := by
  obtain ⟨pool, hpool, hsound, hassigned, hran⟩ := h.poolAdvance hi
  unfold EventBus.advancePool at ha
  rw [hpool] at ha
  cases ha
  refine ⟨hsound, h.caught, fun d hd => (h.logged d hd).mono [] [] (List.append_nil _).symm (List.append_nil _).symm,
    ?_, ?_, h.pushed_le, h.calls⟩
  · show s.log.filterMap (·.task) = s.events pool.ran
    rw [hran, events_append, hnone, List.append_nil]
    exact h.order
  · dsimp only
    rw [hassigned]
    exact h.heap

theorem Sound.advance (h : Sound debug s) {i : Fin c} (hi : s.pool.CountsTasks (.advance i)) (ha : s.advance debug i = .ok s') : Sound debug s' := by
  have hlen := runs_length (s.pool.runners i)
  unfold EventBus.advance at ha
  split_ifs at ha
  cases hruns : (s.pool.runners i).runs with
  | nil =>
    rw [hruns] at ha
    exact h.advancePool hi (by rw [hruns]; rfl) ha
  | cons t ts =>
    rw [hruns] at ha hlen
    have hts : ts = [] := List.eq_nil_of_length_eq_zero (by simpa using hlen)
    subst hts
    dsimp only at ha
    cases hst : s.scheduleTask t with
    | none =>
      rw [hst] at ha
      refine h.advancePool hi ?_ ha
      rw [hruns]
      simp [events, hst]
    | some st =>
      rw [hst] at ha
      obtain ⟨s₁, hb, ha⟩ := bind_eq_ok.1 ha
      obtain ⟨pool, hpool, hsound, hassigned, hran⟩ := h.poolAdvance hi
      have hpool₁ : s₁.pool = s.pool := by
        obtain ⟨-, _, _, -, rfl⟩ := beginTrigger_eq hb
        rfl
      unfold EventBus.advancePool at ha
      rw [hpool₁, hpool] at ha
      cases ha
      refine h.begin hb hsound hassigned hran ?_ fun t' ht' => ?_
      · rw [hruns]
        simp [events, hst]
      · cases ht'
        have hheap := scheduleTask_eq_some.1 hst
        exact ⟨st.pushed, h.pushed_le st (List.mem_of_getElem? hheap), hheap⟩

theorem Sound.step (h : Sound debug s) {e : BusEvent c L} (he : s.CountsTasks e) (hstep : busStep debug e s = .ok s') : Sound debug s' := by
  cases e with
  | registerListener | unregisterListener | unregisterAll =>
    cases hstep
    exact h.addListenerOp _
  | forceUpdate => exact h.forceUpdate hstep
  | oschedule evt tag =>
    refine h.assign (fun st hst => ?_) hstep
    cases hst
    exact Nat.le_refl _
  | assign tag => exact h.assign (fun st hst => by cases hst) hstep
  | advance i => exact h.advance he hstep
  | trigger evt =>
    have hb : s.beginTrigger debug none none evt = .ok s' := hstep
    have hsound := h.begin hb h.pool rfl (List.append_nil _).symm rfl fun t ht => by cases ht
    obtain ⟨-, _, _, -, rfl⟩ := beginTrigger_eq hb
    exact hsound
  | goOn => exact h.goOn hstep

theorem opened_sound (dpId : Nat) : Sound debug (opened c L dpId) :=
  ⟨SequencialRunnerPool.started_sound, ⟨[], rfl, fun _ => ⟨fun _ => List.nodup_nil, fun _ => rfl⟩⟩, nofun, rfl, nofun, nofun, rfl⟩

end

/-- Two listeners, of which the first is registered twice; the second is removed while the first is called for the first
of two events, and the first once behind that. -/
def twoEvents : List (BusEvent 1 Nat) :=
  [.registerListener 0 10, .registerListener 0 11, .registerListener 0 10, .oschedule ⟨0, 7⟩ 0, .oschedule ⟨0, 8⟩ 0,
    .advance (Fin.last 0), .advance (Fin.last 0), .goOn, .unregisterListener 0 11, .goOn, .goOn, .unregisterListener 0 10, .goOn,
    .advance (Fin.last 0), .goOn, .goOn]

end EventBus
end Wawo
