import Taskio.Runtime.ReadyQueue

/-!
# What one step of the runtime does

* `SchedulerCase` — the branches of `schedulerStep`
* `Scheduler.Wakes`, `Scheduler.Drops` — the wakers a step calls and the references it drops
* `SchedulerEffect` — all that a step can do to the ready queue, to the turns of the tasks, and to where
  `worker_run` stands
* `schedulerStep_effect` — every step that succeeds has one of these effects
-/

namespace Taskio

variable {s s' s'' : Scheduler} {t : Nat} {o : SchedulerOp}

/-! ## The branches of a step -/

/-- The branches of `schedulerStep` that succeed. -/
inductive SchedulerCase (s s' : Scheduler) : SchedulerOp → Prop
  | spawn {hasOut : Bool} {t : Nat} (hspawn : runtimeSpawn s hasOut = .ok (s', t)) :
      SchedulerCase s s' (.spawn hasOut)
  | blockOn (hcontrol : s.control = .stopped) (hok : runtimeBlockOn s = .ok s') :
      SchedulerCase s s' .blockOn
  | wake {t : Nat} (hok : taskAddEventLoop s t = .ok s') : SchedulerCase s s' (.wake t)
  | abort {t : Nat} (hok : handleAbort s t = .ok s') : SchedulerCase s s' (.abort t)
  | clone {t : Nat} (hok : handleClone s t = .ok s') : SchedulerCase s s' (.clone t)
  | drop {t : Nat} (hok : handleDrop s t = .ok s') : SchedulerCase s s' (.drop t)
  | join {t : Nat} {node : TaskWakeNode} (hok : handleJoin s t node = .ok s') :
      SchedulerCase s s' (.join t node)
  | event (hcontrol : s.control = .waiting) (hfd : 0 < s.eventFd)
      (heq : s' = { s with eventFd := 0, control := .draining }) : SchedulerCase s s' .event
  | take (hcontrol : s.control = .draining) (hok : workerTake s = .ok s') :
      SchedulerCase s s' .take
  | ready {t : Nat} (hcontrol : s.control = .polling t)
      (heq : s' = { s.log (.cleanedUp t) with control := .cleaning t true }) :
      SchedulerCase s s' (.ret .ready)
  | pending {t : Nat} {poll : FuturePoll} (hcontrol : s.control = .polling t) (hpoll : poll ≠ .ready)
      (heq : s' = { s with control := .draining }) : SchedulerCase s s' (.ret poll)
  | cleaned {t : Nat} {ready : Bool} (hcontrol : s.control = .cleaning t ready)
      (hok : workerCleaned s t ready = .ok s') : SchedulerCase s s' .cleaned
  | wakeJoiner {t : Nat} {node : TaskWakeNode} {nodes : List TaskWakeNode}
      (hcontrol : s.control = .waking t (node :: nodes)) (hlive : s.tasks t ≠ none)
      (hok : wakeNode { s with control := .waking t nodes } t node true = .ok s') :
      SchedulerCase s s' .wakeJoiner
  | release {t : Nat} (hcontrol : s.control = .waking t []) (hok : workerRelease s t = .ok s') :
      SchedulerCase s s' .release
  | drained (hcontrol : s.control = .draining) (hhead : s.pollHead = none)
      (heq : s' = { s with pollScheduled := false, control := .waiting }) : SchedulerCase s s' .drained
  | leave (hcontrol : s.control = .waiting) (heq : s' = { s with control := .stopped }) :
      SchedulerCase s s' .leave

/-- Every step that succeeds takes one of them. -/
theorem schedulerStep_cases (h : schedulerStep s o = .ok s') : SchedulerCase s s' o := by
  unfold schedulerStep at h
  split at h
  · obtain ⟨⟨s₁, t⟩, hspawn, h⟩ := bind_eq_ok.mp h
    cases h
    exact .spawn hspawn
  · rename_i hcontrol
    exact .blockOn hcontrol h
  · exact .wake h
  · exact .abort h
  · exact .clone h
  · exact .drop h
  · exact .join h
  · rename_i hcontrol
    split at h
    · rename_i hevent
      exact .event hcontrol hevent.2 (Except.ok.inj h).symm
    · cases h
  · rename_i hcontrol
    exact .take hcontrol h
  · rename_i poll t hcontrol
    split at h
    · rename_i hpoll
      subst hpoll
      exact .ready hcontrol (Except.ok.inj h).symm
    · rename_i hpoll
      exact .pending hcontrol hpoll (Except.ok.inj h).symm
  · rename_i hcontrol
    exact .cleaned hcontrol h
  · rename_i hcontrol
    obtain ⟨task, htask, h⟩ := bind_eq_ok.mp h
    refine .wakeJoiner hcontrol ?_ h
    intro hnone
    rw [Scheduler.task, hnone] at htask
    cases htask
  · rename_i hcontrol
    exact .release hcontrol h
  · rename_i hcontrol
    split at h
    · rename_i hhead
      exact .drained hcontrol hhead (Except.ok.inj h).symm
    · cases h
  · rename_i hcontrol
    split at h
    · cases h
    · exact .leave hcontrol (Except.ok.inj h).symm
  · cases h

/-! ## Vocabulary -/

/-- The step calls the waker of `x`. -/
def Scheduler.Wakes (s : Scheduler) (o : SchedulerOp) (x : Nat) : Prop :=
  match o, s.control with
  | .wake t, _ => t = x
  | .join t node, _ =>
    node.waker = x ∧
      ∃ task, s.tasks t = some task ∧ (task.status = .aborted ∨ task.status = .finished)
  | .wakeJoiner, .waking _ (node :: _) => node.waker = x
  | _, _ => False

/-- The step drops a reference to `x`. -/
def Scheduler.Drops (s : Scheduler) (o : SchedulerOp) (x : Nat) : Prop :=
  match o, s.control with
  | .drop t, _ => t = x
  | .release, .waking t [] => t = x
  | _, _ => False

/-- `task_drop` would free the task. -/
def Scheduler.LastReference (s : Scheduler) (x : Nat) : Prop :=
  ∃ task, s.tasks x = some task ∧ task.counter = 1

/-- The events that are turns of a task. -/
def TaskEvent.isTurn : TaskEvent → Bool
  | .polled _ | .cleanedUp _ | .released _ => true
  | .freed _ | .joinerWoken _ _ | .copied _ _ => false

/-- The turns so far. -/
def Scheduler.turns (s : Scheduler) : List TaskEvent := s.events.filter TaskEvent.isTurn

theorem turns_log (s : Scheduler) (e : TaskEvent) :
    (s.log e).turns = s.turns ++ if e.isTurn then [e] else [] := by
  unfold Scheduler.turns Scheduler.log
  rw [List.filter_append, List.filter_singleton]
  cases e.isTurn <;> rfl

/-- The task that `worker_run` works on. -/
def Control.task : Control → Option Nat
  | .polling t | .cleaning t _ | .waking t _ => some t
  | _ => none

/-- Where `worker_run` can get without beginning or ending a task's turn. -/
inductive Control.Passes : Control → Control → Prop
  | same (c : Control) : Passes c c
  | idle {c c' : Control} (h : c.task = none) (h' : c'.task = none) : Passes c c'
  | pending (t : Nat) : Passes (.polling t) .draining
  | aborted (t : Nat) : Passes (.cleaning t false) (.waking t [])
  | joiner (t : Nat) (node : TaskWakeNode) (nodes : List TaskWakeNode) :
    Passes (.waking t (node :: nodes)) (.waking t nodes)

/-- `t` is the task that is allocated. -/
structure Spawned (s s' : Scheduler) (t : Nat) : Prop where
  fresh : t = s.nextTask
  view : s'.view = Function.update s.view t (some (.suspended, none))
  head : s'.pollHead = s.pollHead
  tail : s'.pollTail = s.pollTail
  nextTask : s'.nextTask = s.nextTask + 1

/-- All that a step can do. -/
inductive SchedulerEffect (s s' : Scheduler) : SchedulerOp → Prop
  | quiet {o : SchedulerOp} (ho : o ≠ .take ∧ o ≠ .release) (hsame : SameQueue s s')
      (hcontrol : s.control.Passes s'.control) (hturns : s'.turns = s.turns)
      (hwakes : ∀ x, s.Wakes o x → ∃ next, s.view x = some (.scheduled, next))
      (hdrops : ∀ x, s.Drops o x → ¬ s.LastReference x) : SchedulerEffect s s' o
  | spawn {o : SchedulerOp} {t : Nat} {s₁ : Scheduler} (ho : o ≠ .take ∧ o ≠ .release)
      (hwakes : ∀ x, ¬ s.Wakes o x) (hdrops : ∀ x, ¬ s.Drops o x)
      (hspawned : Spawned s s₁ t) (henq : Enqueued s₁ s' t) (hcontrol : s.control.Passes s'.control)
      (hturns : s'.turns = s.turns) : SchedulerEffect s s' o
  | enqueue {o : SchedulerOp} {x : Nat} {v : TaskStatus × Option Nat} (hview : s.view x = some v)
      (hstatus : v.1 ≠ .scheduled) (hwakes : ∀ y, s.Wakes o y ↔ x = y)
      (hdrops : ∀ y, ¬ s.Drops o y) (henq : Enqueued s s' x)
      (hcontrol : s.control.Passes s'.control) (hturns : s'.turns = s.turns) : SchedulerEffect s s' o
  | abortSuspended {x : Nat} {next : Option Nat} (hview : s.view x = some (.suspended, next))
      (henq : Enqueued s s' x) (hcontrol : s'.control = s.control)
      (hturns : s'.turns = s.turns) : SchedulerEffect s s' (.abort x)
  | abortMark {x : Nat} {v : TaskStatus × Option Nat} (hview : s.view x = some v)
      (hstatus : v.1 = .suspended ∨ v.1 = .scheduled)
      (hmark : Rewritten s s' x (some (.aborted, v.2))) (hcontrol : s'.control = s.control)
      (hturns : s'.turns = s.turns) : SchedulerEffect s s' (.abort x)
  | free {x : Nat} (hlast : s.LastReference x) (hfree : Rewritten s s' x none)
      (hcontrol : s'.control = s.control) (hturns : s'.turns = s.turns) : SchedulerEffect s s' (.drop x)
  | takeAborted {t : Nat} {next : Option Nat} (hcontrol : s.control = .draining)
      (hview : s.view t = some (.aborted, next)) (hdeq : Dequeued s s' t next (.aborted, next))
      (hcontrol' : s'.control = .cleaning t false)
      (hturns : s'.turns = s.turns ++ [.cleanedUp t]) : SchedulerEffect s s' .take
  | takePolled {t : Nat} {v : TaskStatus × Option Nat} (hcontrol : s.control = .draining)
      (hview : s.view t = some v) (hstatus : v.1 ≠ .aborted)
      (hdeq : Dequeued s s' t v.2 (.suspended, none)) (hcontrol' : s'.control = .polling t)
      (hturns : s'.turns = s.turns ++ [.polled t]) : SchedulerEffect s s' .take
  | ready {t : Nat} (hcontrol : s.control = .polling t) (hsame : SameQueue s s')
      (hcontrol' : s'.control = .cleaning t true)
      (hturns : s'.turns = s.turns ++ [.cleanedUp t]) : SchedulerEffect s s' (.ret .ready)
  | finish {t : Nat} {v : TaskStatus × Option Nat} {nodes : List TaskWakeNode}
      (hcontrol : s.control = .cleaning t true) (hview : s.view t = some v)
      (hmark : Rewritten s s' t (some (.finished, v.2))) (hcontrol' : s'.control = .waking t nodes)
      (hturns : s'.turns = s.turns) : SchedulerEffect s s' .cleaned
  | release {t : Nat} (hcontrol : s.control = .waking t [])
      (hdrop : ¬ s.LastReference t ∧ SameQueue s s' ∨ s.LastReference t ∧ Rewritten s s' t none)
      (hcontrol' : s'.control = .draining)
      (hturns : s'.turns = s.turns ++ [.released t]) : SchedulerEffect s s' .release

/-! ## `task_add_event_loop` -/

/-- What the ready queue does not see. -/
def Task.rest (task : Task) : Task := { task with status := .suspended, next := none }

/-- Nothing else has changed. -/
structure KeepsRest (s s' : Scheduler) : Prop where
  tasks : ∀ x, (s'.tasks x).map Task.rest = (s.tasks x).map Task.rest
  control : s'.control = s.control
  turns : s'.turns = s.turns
  worker : s'.workerTask = s.workerTask
  running : s'.running = s.running

theorem KeepsRest.trans (h : KeepsRest s s') (h' : KeepsRest s' s'') : KeepsRest s s'' where
  tasks x := (h'.tasks x).trans (h.tasks x)
  control := h'.control.trans h.control
  turns := h'.turns.trans h.turns
  worker := h'.worker.trans h.worker
  running := h'.running.trans h.running

theorem keepsRest_setTask {task task' : Task} (htask : s.tasks t = some task)
    (hrest : task'.rest = task.rest) : KeepsRest s (s.setTask t (some task')) := by
  refine ⟨?_, rfl, rfl, rfl, rfl⟩
  intro x
  by_cases hx : x = t
  · rw [hx]
    simp [Scheduler.setTask, htask, hrest]
  · simp [Scheduler.setTask, Function.update_of_ne hx]

theorem notifyWorker_keeps (s : Scheduler) :
    SameQueue s (notifyWorker s) ∧ KeepsRest s (notifyWorker s) := by
  rw [notifyWorker]
  split
  · exact ⟨SameQueue.refl s, ⟨fun _ => rfl, rfl, rfl, rfl, rfl⟩⟩
  · exact ⟨⟨fun _ => rfl, rfl, rfl, rfl⟩, ⟨fun _ => rfl, rfl, rfl, rfl, rfl⟩⟩

theorem task_eq_ok {task : Task} : s.task t = .ok task ↔ s.tasks t = some task := by
  rw [Scheduler.task]
  cases s.tasks t <;> simp

theorem view_of_task {task : Task} (h : s.tasks t = some task) :
    s.view t = some (task.status, task.next) := by
  rw [Scheduler.view, h]
  rfl

/-- Linking the task that was marked. -/
theorem linkTail_ok {s₀ s₁ : Scheduler} {next : Option Nat} (hlive : s.view t ≠ none)
    (hmark : Rewritten s s₀ t (some (.scheduled, next))) (hnext : s.next t = next)
    (h : linkTail s₀ t = .ok s₁) : Enqueued s s₁ t ∧ KeepsRest s₀ s₁ := by
  have hview : ∀ x, s₀.view x = (s.view x).map fun v =>
      (if x = t then .scheduled else v.1, v.2) := by
    intro x
    by_cases hx : x = t
    · obtain ⟨v, hv⟩ := Option.ne_none_iff_exists'.mp hlive
      rw [next_eq_view, hv] at hnext
      rw [hx, hmark.view_self, hv, ← hnext]
      simp
    · rw [hmark.view_of_ne hx]
      simp [hx]
  rw [linkTail, hmark.tail] at h
  cases hlast : s.pollTail with
  | none =>
    rw [hlast] at h
    cases h
    refine ⟨⟨?_, by simp [hlast], by rw [if_pos hlast], rfl, hmark.nextTask⟩,
      ⟨fun _ => rfl, rfl, rfl, rfl, rfl⟩⟩
    intro x
    show s₀.view x = _
    rw [hlast]
    simpa using hview x
  | some last =>
    rw [hlast] at h
    obtain ⟨lastTask, hlastTask, hs₁⟩ := bind_eq_ok.mp h
    cases hs₁
    have hlastTask := task_eq_ok.mp hlastTask
    have hrewritten := rewritten_setTask (s := s₀) (t := last)
      (some { lastTask with next := some t })
    have hlastView := view_of_task hlastTask
    rw [hview] at hlastView
    obtain ⟨v, hv, heq⟩ := Option.map_eq_some_iff.mp hlastView
    have hrest : KeepsRest s₀ (s₀.setTask last (some { lastTask with next := some t })) :=
      keepsRest_setTask hlastTask rfl
    refine ⟨⟨?_, ?_, ?_, rfl, hmark.nextTask⟩,
      ⟨hrest.tasks, rfl, rfl, rfl, rfl⟩⟩
    · intro x
      show (s₀.setTask last _).view x = _
      by_cases hx : x = last
      · rw [hx, hrewritten.view_self, hv, hlast]
        simp [← (Prod.mk.inj heq).1]
      · have hne : ¬ some last = some x := fun he => hx (Option.some.inj he).symm
        rw [hrewritten.view_of_ne hx, hlast, hview x]
        simp only [hne, if_false]
    · intro x hx
      rw [← Option.some.inj (hlast.symm.trans hx), hv]
      simp
    · rw [hlast, if_neg (by simp)]
      exact hmark.head

/-- **What `task_add_event_loop` does**: nothing to a scheduled task; any other is linked. -/
theorem taskAddEventLoop_ok (h : taskAddEventLoop s t = .ok s') :
    ∃ v, s.view t = some v ∧
      (v.1 = .scheduled ∧ s' = s ∨ v.1 ≠ .scheduled ∧ Enqueued s s' t ∧ KeepsRest s s') := by
  obtain ⟨task, htask, h⟩ := bind_eq_ok.mp h
  have htask := task_eq_ok.mp htask
  refine ⟨_, view_of_task htask, ?_⟩
  by_cases hstatus : task.status = .scheduled
  · rw [if_pos hstatus] at h
    exact Or.inl ⟨hstatus, (Except.ok.inj h).symm⟩
  · rw [if_neg hstatus] at h
    obtain ⟨s₁, hlink, hs'⟩ := bind_eq_ok.mp h
    cases hs'
    obtain ⟨henq, hrest⟩ := linkTail_ok (by rw [view_of_task htask]; simp)
      (rewritten_setTask (some { task with status := .scheduled }))
      (by rw [next_eq_view, view_of_task htask]; rfl) hlink
    obtain ⟨hnotify, hnotify'⟩ := notifyWorker_keeps s₁
    have hmark : KeepsRest s (s.setTask t (some { task with status := .scheduled })) :=
      keepsRest_setTask htask rfl
    exact Or.inr ⟨hstatus, henq.of_same (SameQueue.refl s) hnotify,
      (hmark.trans hrest).trans hnotify'⟩

/-! ## The operations -/

theorem taskDrop_ok (h : taskDrop s t = .ok s') :
    s'.control = s.control ∧ s'.turns = s.turns ∧
      (¬ s.LastReference t ∧ SameQueue s s' ∨ s.LastReference t ∧ Rewritten s s' t none) := by
  obtain ⟨task, htask, h⟩ := bind_eq_ok.mp h
  have htask := task_eq_ok.mp htask
  simp only at h
  by_cases hone : task.counter = 1
  · rw [if_pos hone] at h
    cases h
    refine ⟨rfl, by rw [turns_log]; exact List.append_nil _, Or.inr ⟨⟨task, htask, hone⟩, ?_⟩⟩
    exact (rewritten_setTask none).of_same ⟨fun _ => rfl, rfl, rfl, rfl⟩
  · rw [if_neg hone] at h
    cases h
    refine ⟨rfl, rfl, Or.inl ⟨?_, sameQueue_setTask htask rfl rfl⟩⟩
    rintro ⟨task', htask', hone'⟩
    rw [htask] at htask'
    exact hone (Option.some.inj htask' ▸ hone')

theorem handleTask_ok {task : Task} (h : handleTask s t = .ok task) :
    s.tasks t = some task ∧ task.handles ≠ 0 := by
  obtain ⟨task', htask, h⟩ := bind_eq_ok.mp h
  by_cases hzero : task'.handles = 0
  · rw [if_pos hzero] at h
    cases h
  · rw [if_neg hzero] at h
    cases h
    exact ⟨task_eq_ok.mp htask, hzero⟩

theorem handleDrop_ok (h : handleDrop s t = .ok s') :
    s'.control = s.control ∧ s'.turns = s.turns ∧
      (¬ s.LastReference t ∧ SameQueue s s' ∨ s.LastReference t ∧ Rewritten s s' t none) := by
  obtain ⟨task, htask, h⟩ := bind_eq_ok.mp h
  obtain ⟨htask, -⟩ := handleTask_ok htask
  have hsame : SameQueue s (s.setTask t (some { task with handles := task.handles - 1 })) :=
    sameQueue_setTask htask rfl rfl
  obtain ⟨hcontrol, hturns, hdrop⟩ := taskDrop_ok h
  have hlast : (s.setTask t (some { task with handles := task.handles - 1 })).LastReference t ↔
      s.LastReference t := by
    simp [Scheduler.LastReference, Scheduler.setTask, htask]
  rw [hlast] at hdrop
  refine ⟨hcontrol, hturns, hdrop.imp (And.imp_right hsame.trans) (And.imp_right ?_)⟩
  intro hfree
  refine ⟨?_, hfree.head, hfree.tail, hfree.nextTask⟩
  rw [hfree.view, funext hsame.view]

theorem spawned_setTask {task : Task} (hstatus : task.status = .suspended)
    (hnext : task.next = none) :
    Spawned s { s.setTask s.nextTask (some task) with nextTask := s.nextTask + 1 } s.nextTask := by
  refine ⟨rfl, ?_, rfl, rfl, rfl⟩
  rw [← hstatus, ← hnext]
  exact (rewritten_setTask (s := s) (t := s.nextTask) (some task)).view

/-- Spawning links the new task. -/
theorem runtimeSpawn_ok {hasOut : Bool} (h : runtimeSpawn s hasOut = .ok (s', t)) :
    ∃ s₁, Spawned s s₁ t ∧ Enqueued s₁ s' t ∧ s'.control = s.control ∧ s'.turns = s.turns ∧
      ∃ task, s'.tasks t = some task ∧ task.counter = 2 ∧ task.handles = 1 := by
  obtain ⟨s₂, hadd, hs'⟩ := bind_eq_ok.mp h
  cases hs'
  have hspawned : Spawned s { s.setTask s.nextTask (some ⟨2, .suspended, false, [], hasOut, none, 1⟩)
      with nextTask := s.nextTask + 1 } s.nextTask := spawned_setTask rfl rfl
  obtain ⟨v, hview, ⟨hstatus, -⟩ | ⟨-, henq, hrest⟩⟩ := taskAddEventLoop_ok hadd
  · rw [hspawned.view, Function.update_self] at hview
    rw [← Option.some.inj hview] at hstatus
    cases hstatus
  · refine ⟨_, hspawned, henq, hrest.control, hrest.turns, ?_⟩
    have htask := hrest.tasks s.nextTask
    rw [show ({ s.setTask s.nextTask _ with nextTask := s.nextTask + 1 } : Scheduler).tasks
      s.nextTask = some ⟨2, .suspended, false, [], hasOut, none, 1⟩ from Function.update_self ..]
      at htask
    obtain ⟨task, htask, heq⟩ := Option.map_eq_some_iff.mp htask
    have hcounter : task.rest.counter = 2 := by rw [heq]; rfl
    have hhandles : task.rest.handles = 1 := by rw [heq]; rfl
    exact ⟨task, htask, hcounter, hhandles⟩

theorem wakeNode_ok {node : TaskWakeNode} {copy : Bool} (h : wakeNode s t node copy = .ok s') :
    ∃ v, s.view node.waker = some v ∧
      (v.1 = .scheduled ∧ SameQueue s s' ∨ v.1 ≠ .scheduled ∧ Enqueued s s' node.waker) ∧
      s'.control = s.control ∧ s'.turns = s.turns := by
  -- the copy of the output and the call are only logged
  have hlogged : ∀ s₁ : Scheduler, SameQueue s s₁ → s₁.control = s.control → s₁.turns = s.turns →
      taskAddEventLoop s₁ node.waker = .ok s' → ∃ v, s.view node.waker = some v ∧
        (v.1 = .scheduled ∧ SameQueue s s' ∨ v.1 ≠ .scheduled ∧ Enqueued s s' node.waker) ∧
        s'.control = s.control ∧ s'.turns = s.turns := by
    intro s₁ hsame hcontrol hturns hadd
    obtain ⟨v, hview, hadd⟩ := taskAddEventLoop_ok hadd
    rw [hsame.view] at hview
    refine ⟨v, hview, ?_⟩
    rcases hadd with ⟨hstatus, rfl⟩ | ⟨hstatus, henq, hrest⟩
    · exact ⟨Or.inl ⟨hstatus, hsame⟩, hcontrol, hturns⟩
    · exact ⟨Or.inr ⟨hstatus, henq.of_same hsame (SameQueue.refl s')⟩,
        hrest.control.trans hcontrol, hrest.turns.trans hturns⟩
  have hlog : ∀ (s₁ : Scheduler) e, SameQueue s₁ (s₁.log e) := fun _ _ =>
    ⟨fun _ => rfl, rfl, rfl, rfl⟩
  have hnews : ∀ (s₁ : Scheduler) e, e.isTurn = false → (s₁.log e).turns = s₁.turns := by
    intro s₁ e he
    rw [turns_log, he]
    exact List.append_nil _
  refine hlogged _ ?_ ?_ ?_ h
  · refine SameQueue.trans ?_ (hlog _ _)
    split
    · split
      · exact hlog _ _
      · exact SameQueue.refl s
    · exact SameQueue.refl s
  · split
    · split <;> rfl
    · rfl
  · rw [hnews _ _ rfl]
    split
    · split
      · exact hnews _ _ rfl
      · rfl
    · rfl

/-- Linking a task overwrites its status, whatever it was. -/
theorem Enqueued.of_marked {s₁ : Scheduler} {status status' : TaskStatus} {next : Option Nat}
    (h : Enqueued s₁ s' t) (hmark : Rewritten s s₁ t (some (status', next)))
    (hview : s.view t = some (status, next)) : Enqueued s s' t where
  view x := by
    rw [h.view, hmark.tail]
    by_cases hx : x = t
    · rw [hx, hmark.view_self, hview]
      simp
    · rw [hmark.view_of_ne hx]
  tail_live x hx := by
    by_cases hxt : x = t
    · rw [hxt, hview]
      simp
    · rw [← hmark.view_of_ne hxt]
      exact h.tail_live x (hmark.tail.trans hx)
  head := by rw [h.head, hmark.tail, hmark.head]
  tail := h.tail
  nextTask := h.nextTask.trans hmark.nextTask

theorem handleAbort_effect (h : handleAbort s t = .ok s') : SchedulerEffect s s' (.abort t) := by
  obtain ⟨task, htask, h⟩ := bind_eq_ok.mp h
  obtain ⟨htask, -⟩ := handleTask_ok htask
  have hquiet : SchedulerEffect s s (.abort t) :=
    .quiet (by simp) (SameQueue.refl s) (.same _) rfl (fun _ hx => hx.elim) fun _ hx => hx.elim
  have hview := view_of_task htask
  have hmark := rewritten_setTask (s := s) (t := t) (some { task with status := .aborted })
  cases hstatus : task.status with
  | suspended =>
    rw [hstatus] at hview
    simp only [hstatus] at h
    by_cases hblocking : task.blocking = true
    · rw [if_pos hblocking] at h
      cases h
      exact .abortMark hview (Or.inl rfl) hmark rfl rfl
    · rw [if_neg hblocking] at h
      obtain ⟨v, hv, ⟨hscheduled, -⟩ | ⟨-, henq, hrest⟩⟩ := taskAddEventLoop_ok h
      · rw [hmark.view_self] at hv
        rw [← Option.some.inj hv] at hscheduled
        cases hscheduled
      · exact .abortSuspended hview (henq.of_marked hmark hview) hrest.control hrest.turns
  | scheduled =>
    rw [hstatus] at hview
    simp only [hstatus] at h
    by_cases hblocking : task.blocking = true
    · rw [if_pos hblocking] at h
      cases h
      exact hquiet
    · rw [if_neg hblocking] at h
      cases h
      exact .abortMark hview (Or.inr rfl) hmark rfl rfl
  | aborted =>
    simp only [hstatus] at h
    cases h
    exact hquiet
  | finished =>
    simp only [hstatus] at h
    cases h
    exact hquiet

/-- A step that links the waker's task, or finds it scheduled. -/
theorem wake_effect {x : Nat} {v : TaskStatus × Option Nat} (hview : s.view x = some v)
    (hwake : v.1 = .scheduled ∧ SameQueue s s' ∨ v.1 ≠ .scheduled ∧ Enqueued s s' x)
    (hwakes : ∀ y, s.Wakes o y ↔ x = y) (hdrops : ∀ y, ¬ s.Drops o y)
    (hcontrol : s.control.Passes s'.control) (hturns : s'.turns = s.turns) :
    SchedulerEffect s s' o := by
  rcases hwake with ⟨hstatus, hsame⟩ | ⟨hstatus, henq⟩
  · refine .quiet ?_ hsame hcontrol hturns (fun y hy => ⟨v.2, ?_⟩) fun y hy => absurd hy (hdrops y)
    · have hwoken := (hwakes x).mpr rfl
      exact ⟨fun he => by rw [he] at hwoken; exact hwoken,
        fun he => by rw [he] at hwoken; exact hwoken⟩
    · rw [← (hwakes y).mp hy, hview, ← hstatus]
  · exact .enqueue hview hstatus hwakes hdrops henq hcontrol hturns

theorem handleJoin_effect {node : TaskWakeNode} (h : handleJoin s t node = .ok s') :
    SchedulerEffect s s' (.join t node) := by
  obtain ⟨task, htask, h⟩ := bind_eq_ok.mp h
  obtain ⟨htask, -⟩ := handleTask_ok htask
  have hwakes : task.status = .aborted ∨ task.status = .finished →
      ∀ y, s.Wakes (.join t node) y ↔ node.waker = y := fun hended y =>
    ⟨fun hy => hy.1, fun hy => ⟨hy, task, htask, hended⟩⟩
  have hpending : (task.status = .suspended ∨ task.status = .scheduled) →
      SameQueue s s' → s'.control = s.control → s'.turns = s.turns →
      SchedulerEffect s s' (.join t node) := by
    intro hstatus hsame hcontrol hturns
    refine .quiet (by simp) hsame (hcontrol ▸ .same _) hturns ?_ fun _ hx => hx.elim
    rintro x ⟨-, task', htask', hended⟩
    rw [htask] at htask'
    rw [← Option.some.inj htask'] at hended
    rcases hstatus with hstatus | hstatus <;> rw [hstatus] at hended <;> simp at hended
  cases hstatus : task.status with
  | suspended =>
    simp only [hstatus] at h
    cases h
    exact hpending (Or.inl hstatus) (sameQueue_setTask htask hstatus.symm rfl) rfl rfl
  | scheduled =>
    simp only [hstatus] at h
    cases h
    exact hpending (Or.inr hstatus) (sameQueue_setTask htask hstatus.symm rfl) rfl rfl
  | aborted =>
    simp only [hstatus] at h
    obtain ⟨s₁, hwake, h⟩ := bind_eq_ok.mp h
    obtain ⟨task₁, htask₁, h⟩ := bind_eq_ok.mp h
    cases h
    obtain ⟨v, hview, hadd, hcontrol, hturns⟩ := wakeNode_ok hwake
    have hsame : SameQueue s₁
        (s₁.setTask t (some { task₁ with wakeOnReady := node :: task₁.wakeOnReady })) :=
      sameQueue_setTask (task_eq_ok.mp htask₁) rfl rfl
    refine wake_effect hview ?_ (hwakes (Or.inl hstatus)) (fun _ hx => hx.elim)
      (hcontrol ▸ .same _) hturns
    exact hadd.imp (And.imp_right fun h => h.trans hsame)
      (And.imp_right fun h => h.of_same (SameQueue.refl s) hsame)
  | finished =>
    simp only [hstatus] at h
    obtain ⟨v, hview, hadd, hcontrol, hturns⟩ := wakeNode_ok h
    exact wake_effect hview hadd (hwakes (Or.inr hstatus)) (fun _ hx => hx.elim)
      (hcontrol ▸ .same _) hturns

theorem workerTake_effect (hcontrol : s.control = .draining) (h : workerTake s = .ok s') :
    SchedulerEffect s s' .take := by
  rw [workerTake] at h
  cases hhead : s.pollHead with
  | none =>
    rw [hhead] at h
    cases h
  | some t =>
    rw [hhead] at h
    obtain ⟨task, htask, h⟩ := bind_eq_ok.mp h
    have htask := task_eq_ok.mp htask
    have hview := view_of_task htask
    have hnext : s.next t = task.next := by rw [next_eq_view, hview]; rfl
    by_cases hstatus : task.status = .aborted
    · rw [if_pos hstatus] at h
      cases h
      rw [hstatus] at hview
      refine .takeAborted hcontrol hview ⟨?_, ⟨hhead, hnext⟩, rfl, rfl, rfl⟩ rfl (turns_log _ _)
      exact (Function.update_eq_self_iff.mpr hview.symm).symm
    · rw [if_neg hstatus] at h
      cases h
      refine .takePolled hcontrol hview hstatus ⟨?_, ⟨hhead, hnext⟩, rfl, rfl, rfl⟩ rfl
        (turns_log _ _)
      exact (rewritten_setTask (s := s) (t := t)
        (some { task with status := .suspended, next := none })).view

theorem workerCleaned_effect {ready : Bool} (hcontrol : s.control = .cleaning t ready)
    (h : workerCleaned s t ready = .ok s') : SchedulerEffect s s' .cleaned := by
  obtain ⟨task, htask, h⟩ := bind_eq_ok.mp h
  have htask := task_eq_ok.mp htask
  cases ready with
  | true =>
    cases h
    have hmark := rewritten_setTask (s := s) (t := t) (some { task with status := .finished })
    exact .finish hcontrol (view_of_task htask) ⟨hmark.view, rfl, rfl, rfl⟩ rfl rfl
  | false =>
    cases h
    refine .quiet (by simp) ⟨fun _ => rfl, rfl, rfl, rfl⟩ ?_ rfl ?_ ?_
    · rw [hcontrol]
      exact .aborted t
    · intro _ hx
      simp [Scheduler.Wakes] at hx
    · intro _ hx
      simp [Scheduler.Drops] at hx

theorem workerRelease_effect (hcontrol : s.control = .waking t [])
    (h : workerRelease s t = .ok s') : SchedulerEffect s s' .release := by
  obtain ⟨s₁, hdrop, h⟩ := bind_eq_ok.mp h
  cases h
  obtain ⟨-, hturns, hdrop⟩ := taskDrop_ok hdrop
  have hends : SameQueue s (if s.workerTask = some t then { s with running := false } else s) ∧
      (if s.workerTask = some t then { s with running := false } else s).turns = s.turns ∧
      (if s.workerTask = some t then { s with running := false } else s).tasks = s.tasks := by
    split
    · exact ⟨⟨fun _ => rfl, rfl, rfl, rfl⟩, rfl, rfl⟩
    · exact ⟨SameQueue.refl s, rfl, rfl⟩
  obtain ⟨hsame, hturns', htasks⟩ := hends
  refine .release hcontrol ?_ rfl ?_
  · unfold Scheduler.LastReference at hdrop ⊢
    rw [htasks] at hdrop
    refine hdrop.imp (And.imp_right fun h => hsame.trans (h.trans ⟨fun _ => rfl, rfl, rfl, rfl⟩))
      (And.imp_right ?_)
    intro h
    refine ⟨?_, h.head.trans hsame.head, h.tail.trans hsame.tail, h.nextTask.trans hsame.nextTask⟩
    exact h.view.trans (by rw [funext hsame.view])
  · show (s₁.log (.released t)).turns = _
    rw [turns_log, hturns, hturns']
    rfl

/-- The task is spawned, and its handle is not the last reference to it. -/
theorem runtimeBlockOn_effect (hcontrol : s.control = .stopped) (h : runtimeBlockOn s = .ok s') :
    SchedulerEffect s s' .blockOn := by
  obtain ⟨⟨s₁, t⟩, hspawn, h⟩ := bind_eq_ok.mp h
  obtain ⟨s₂, hdrop, h⟩ := bind_eq_ok.mp h
  cases h
  obtain ⟨s₀, hspawned, henq, -, hturns, task, htask, hcounter, -⟩ := runtimeSpawn_ok hspawn
  obtain ⟨-, hturns', hdrop⟩ := handleDrop_ok hdrop
  have hsame : SameQueue s₁ s₂ := by
    rcases hdrop with ⟨-, hsame⟩ | ⟨⟨task', htask', hone⟩, -⟩
    · exact hsame
    · -- the runtime still holds the task
      rw [htask] at htask'
      rw [← Option.some.inj htask', hcounter] at hone
      cases hone
  refine .spawn (by simp) (fun _ => id) (fun _ => id) hspawned ?_ ?_ (hturns'.trans hturns)
  · exact henq.of_same (SameQueue.refl s₀) (hsame.trans ⟨fun _ => rfl, rfl, rfl, rfl⟩)
  · rw [hcontrol]
    exact .idle rfl rfl

/-- **Every step that succeeds has one of the effects.** -/
theorem schedulerStep_effect (h : schedulerStep s o = .ok s') : SchedulerEffect s s' o := by
  -- the steps of the worker that only move it
  have hmove : ∀ {s₁ : Scheduler}, o ≠ .take ∧ o ≠ .release → SameQueue s s₁ →
      s.control.Passes s₁.control → s₁.turns = s.turns → (∀ x, ¬ s.Wakes o x) → (∀ x, ¬ s.Drops o x) →
      SchedulerEffect s s₁ o := fun ho hsame hcontrol hturns hwakes hdrops =>
    .quiet ho hsame hcontrol hturns (fun x hx => absurd hx (hwakes x))
      fun x hx => absurd hx (hdrops x)
  cases schedulerStep_cases h with
  | spawn hspawn =>
    obtain ⟨s₂, hspawned, henq, hcontrol, hturns, -⟩ := runtimeSpawn_ok hspawn
    exact .spawn (by simp) (fun _ => id) (fun _ => id) hspawned henq (hcontrol ▸ .same _) hturns
  | blockOn hcontrol hok => exact runtimeBlockOn_effect hcontrol hok
  | wake hok =>
    obtain ⟨v, hview, hadd⟩ := taskAddEventLoop_ok hok
    rcases hadd with ⟨hstatus, rfl⟩ | ⟨hstatus, henq, hrest⟩
    · exact wake_effect hview (Or.inl ⟨hstatus, SameQueue.refl s'⟩) (fun _ => Iff.rfl)
        (fun _ => id) (.same _) rfl
    · exact wake_effect hview (Or.inr ⟨hstatus, henq⟩) (fun _ => Iff.rfl) (fun _ => id)
        (hrest.control ▸ .same _) hrest.turns
  | abort hok => exact handleAbort_effect hok
  | clone hok =>
    obtain ⟨task, htask, hok⟩ := bind_eq_ok.mp hok
    cases hok
    exact hmove (by simp) (sameQueue_setTask (handleTask_ok htask).1 rfl rfl) (.same _) rfl
      (fun _ => id) fun _ => id
  | @drop t hok =>
    obtain ⟨hcontrol, hturns, ⟨hnot, hsame⟩ | ⟨hlast, hfree⟩⟩ := handleDrop_ok hok
    · exact .quiet (by simp) hsame (hcontrol ▸ .same _) hturns (fun _ hx => hx.elim)
        fun x (hx : t = x) => hx ▸ hnot
    · exact .free hlast hfree hcontrol hturns
  | join hok => exact handleJoin_effect hok
  | event hcontrol hfd heq =>
    subst heq
    exact hmove (by simp) ⟨fun _ => rfl, rfl, rfl, rfl⟩ (hcontrol ▸ .idle rfl rfl) rfl
      (fun _ => id) fun _ => id
  | take hcontrol hok => exact workerTake_effect hcontrol hok
  | ready hcontrol heq =>
    subst heq
    exact .ready hcontrol ⟨fun _ => rfl, rfl, rfl, rfl⟩ rfl (turns_log _ _)
  | @pending t poll hcontrol hpoll heq =>
    subst heq
    exact hmove (by simp) ⟨fun _ => rfl, rfl, rfl, rfl⟩ (hcontrol ▸ .pending t) rfl
      (fun _ => id) fun _ => id
  | cleaned hcontrol hok => exact workerCleaned_effect hcontrol hok
  | @wakeJoiner t node nodes hcontrol hlive hok =>
    obtain ⟨v, hview, hadd, hcontrol', hturns⟩ := wakeNode_ok hok
    have hsame : SameQueue s { s with control := .waking t nodes } :=
      ⟨fun _ => rfl, rfl, rfl, rfl⟩
    refine wake_effect hview ?_ ?_ ?_ ?_ hturns
    · exact hadd.imp (And.imp_right hsame.trans)
        (And.imp_right fun h => h.of_same hsame (SameQueue.refl s'))
    · intro y
      simp only [Scheduler.Wakes, hcontrol]
    · intro y hy
      simp only [Scheduler.Drops] at hy
    · rw [hcontrol, hcontrol']
      exact .joiner t node nodes
  | release hcontrol hok => exact workerRelease_effect hcontrol hok
  | drained hcontrol hhead heq =>
    subst heq
    exact hmove (by simp) ⟨fun _ => rfl, rfl, rfl, rfl⟩ (hcontrol ▸ .idle rfl rfl) rfl
      (fun _ => id) fun _ => id
  | leave hcontrol heq =>
    subst heq
    exact hmove (by simp) ⟨fun _ => rfl, rfl, rfl, rfl⟩ (hcontrol ▸ .idle rfl rfl) rfl
      (fun _ => id) fun _ => id

end Taskio
