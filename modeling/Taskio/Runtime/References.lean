import Taskio.Runtime.Turn

/-!
# References to tasks

A task's counter counts the handles of the program, and one more for the runtime until the task's turn
has ended for good. The memory is freed with the last of them.

* `RefStep` — what a step does to the counters
* `schedulerStep_refs` — every step does one of these things
-/

namespace Taskio

variable {s s' s₁ : Scheduler} {t : Nat} {o : SchedulerOp}

/-! ## Counters -/

/-- The counter of a task, and the handles that the program has of it. -/
def Scheduler.refs (s : Scheduler) (t : Nat) : Option (Nat × Nat) :=
  (s.tasks t).map fun task => (task.counter, task.handles)

def TaskEvent.isFree : TaskEvent → Bool
  | .freed _ => true
  | .polled _ | .cleanedUp _ | .released _ | .joinerWoken _ _ | .copied _ _ => false

/-- The tasks freed so far. -/
def Scheduler.frees (s : Scheduler) : List TaskEvent := s.events.filter TaskEvent.isFree

theorem count_frees : s.events.count (.freed t) = s.frees.count (.freed t) :=
  (List.count_filter rfl).symm

/-- No reference changes, and neither does the task of `taskio_runtime_block_on`. -/
structure SameRefs (s s' : Scheduler) : Prop where
  refs : s'.refs = s.refs
  frees : s'.frees = s.frees
  nextTask : s'.nextTask = s.nextTask
  worker : s'.workerTask = s.workerTask ∧ s'.running = s.running

theorem SameRefs.refl (s : Scheduler) : SameRefs s s := ⟨rfl, rfl, rfl, rfl, rfl⟩

theorem SameRefs.trans (h : SameRefs s s₁) (h' : SameRefs s₁ s') : SameRefs s s' :=
  ⟨h'.refs.trans h.refs, h'.frees.trans h.frees, h'.nextTask.trans h.nextTask,
    h'.worker.1.trans h.worker.1, h'.worker.2.trans h.worker.2⟩

theorem refs_setTask (s : Scheduler) (t : Nat) (task : Option Task) :
    (s.setTask t task).refs =
      Function.update s.refs t (task.map fun task => (task.counter, task.handles)) := by
  funext x
  by_cases hx : x = t
  · subst hx
    simp [Scheduler.refs, Scheduler.setTask]
  · simp [Scheduler.refs, Scheduler.setTask, Function.update_of_ne hx]

theorem refs_of_task {task : Task} (h : s.tasks t = some task) :
    s.refs t = some (task.counter, task.handles) := by
  rw [Scheduler.refs, h]
  rfl

theorem refs_eq_none : s.refs t = none ↔ s.tasks t = none := Option.map_eq_none_iff

theorem sameRefs_setTask {task task' : Task} (htask : s.tasks t = some task)
    (hcounter : task'.counter = task.counter) (hhandles : task'.handles = task.handles) :
    SameRefs s (s.setTask t (some task')) := by
  refine ⟨?_, rfl, rfl, rfl, rfl⟩
  rw [refs_setTask, Option.map_some, hcounter, hhandles, ← refs_of_task htask, Function.update_eq_self]

theorem sameRefs_log {e : TaskEvent} (he : e.isFree = false) : SameRefs s (s.log e) := by
  refine ⟨rfl, ?_, rfl, rfl, rfl⟩
  rw [Scheduler.frees, Scheduler.log, List.filter_append, List.filter_singleton, he]
  exact List.append_nil _

/-- `task_add_event_loop` touches no counter. -/
theorem taskAddEventLoop_refs (h : taskAddEventLoop s t = .ok s') : SameRefs s s' := by
  obtain ⟨task, htask, h⟩ := bind_eq_ok.mp h
  have htask := task_eq_ok.mp htask
  by_cases hstatus : task.status = .scheduled
  · rw [if_pos hstatus] at h
    cases h
    exact SameRefs.refl s
  · rw [if_neg hstatus] at h
    obtain ⟨s₁, hlink, hs'⟩ := bind_eq_ok.mp h
    cases hs'
    have hmark : SameRefs s (s.setTask t (some { task with status := .scheduled })) :=
      sameRefs_setTask htask rfl rfl
    have hlinked : SameRefs (s.setTask t (some { task with status := .scheduled })) s₁ := by
      unfold linkTail at hlink
      split at hlink
      · cases hlink
        exact ⟨rfl, rfl, rfl, rfl, rfl⟩
      · obtain ⟨lastTask, hlast, hs₁⟩ := bind_eq_ok.mp hlink
        cases hs₁
        have hset : SameRefs (s.setTask t (some { task with status := .scheduled }))
            ((s.setTask t (some { task with status := .scheduled })).setTask _
              (some { lastTask with next := some t })) :=
          sameRefs_setTask (task_eq_ok.mp hlast) rfl rfl
        exact ⟨hset.refs, rfl, rfl, rfl, rfl⟩
    have hnotified : SameRefs s₁ (notifyWorker s₁) := by
      unfold notifyWorker
      split
      · exact SameRefs.refl s₁
      · exact ⟨rfl, rfl, rfl, rfl, rfl⟩
    exact (hmark.trans hlinked).trans hnotified

/-- The counter `c` of the task `t` goes down; `handles` are left. -/
structure Dropped (s s' : Scheduler) (t c handles : Nat) : Prop where
  refs : s'.refs = Function.update s.refs t (if c = 1 then none else some (sizeDec c, handles))
  frees : s'.frees = if c = 1 then s.frees ++ [.freed t] else s.frees
  nextTask : s'.nextTask = s.nextTask
  workerTask : s'.workerTask = s.workerTask

theorem Dropped.of_same {s₂ : Scheduler} {c handles : Nat} (h : Dropped s s₁ t c handles)
    (hsame : SameRefs s₁ s₂) : Dropped s s₂ t c handles :=
  ⟨hsame.refs.trans h.refs, hsame.frees.trans h.frees, hsame.nextTask.trans h.nextTask,
    hsame.worker.1.trans h.workerTask⟩

theorem taskDrop_dropped {task : Task} (htask : s.tasks t = some task) (h : taskDrop s t = .ok s') :
    Dropped s s' t task.counter task.handles ∧ s'.running = s.running := by
  obtain ⟨task', htask', h⟩ := bind_eq_ok.mp h
  obtain rfl : task = task' := Option.some.inj (htask.symm.trans (task_eq_ok.mp htask'))
  dsimp only at h
  by_cases hone : task.counter = 1
  · rw [if_pos hone] at h
    cases h
    refine ⟨⟨?_, ?_, rfl, rfl⟩, rfl⟩
    · rw [if_pos hone]
      exact refs_setTask s t none
    · rw [if_pos hone, Scheduler.frees, Scheduler.log, List.filter_append]
      rfl
  · rw [if_neg hone] at h
    cases h
    refine ⟨⟨?_, ?_, rfl, rfl⟩, rfl⟩
    · rw [if_neg hone]
      exact refs_setTask s t _
    · rw [if_neg hone]
      rfl

/-- What a step does to the counters. -/
inductive RefStep (s s' : Scheduler) : SchedulerOp → Prop
  | same {o : SchedulerOp} (ho : o ≠ .release) (hsame : SameRefs s s') : RefStep s s' o
  | spawn {hasOut : Bool} (hrefs : s'.refs = Function.update s.refs s.nextTask (some (2, 1)))
      (hfrees : s'.frees = s.frees) (hnext : s'.nextTask = s.nextTask + 1)
      (hworker : s'.workerTask = s.workerTask ∧ s'.running = s.running) : RefStep s s' (.spawn hasOut)
  | blockOn (hrefs : s'.refs = Function.update s.refs s.nextTask (some (1, 0)))
      (hfrees : s'.frees = s.frees) (hnext : s'.nextTask = s.nextTask + 1)
      (hworker : s'.workerTask = some s.nextTask ∧ s'.running = true) : RefStep s s' .blockOn
  | clone {t c handles : Nat} (ht : s.refs t = some (c, handles + 1))
      (hrefs : s'.refs = Function.update s.refs t (some (sizeInc c, handles + 2)))
      (hfrees : s'.frees = s.frees) (hnext : s'.nextTask = s.nextTask)
      (hworker : s'.workerTask = s.workerTask ∧ s'.running = s.running) : RefStep s s' (.clone t)
  | drop {t c handles : Nat} (ht : s.refs t = some (c, handles + 1)) (hdrop : Dropped s s' t c handles)
      (hrunning : s'.running = s.running) : RefStep s s' (.drop t)
  | release {t c handles : Nat} (hcontrol : s.control = .waking t []) (ht : s.refs t = some (c, handles))
      (hdrop : Dropped s s' t c handles)
      (hrunning : s'.running = if s.workerTask = some t then false else s.running) :
      RefStep s s' .release

theorem runtimeSpawn_refs {hasOut : Bool} (h : runtimeSpawn s hasOut = .ok (s', t)) :
    t = s.nextTask ∧ s'.refs = Function.update s.refs s.nextTask (some (2, 1)) ∧
      s'.frees = s.frees ∧ s'.nextTask = s.nextTask + 1 ∧
      s'.workerTask = s.workerTask ∧ s'.running = s.running := by
  obtain ⟨s₁, hadd, hs'⟩ := bind_eq_ok.mp h
  cases hs'
  have hsame := taskAddEventLoop_refs hadd
  exact ⟨rfl, hsame.refs.trans (refs_setTask s s.nextTask _), hsame.frees, hsame.nextTask, hsame.worker⟩

theorem handleTask_refs {task : Task} (h : handleTask s t = .ok task) :
    s.refs t = some (task.counter, task.handles - 1 + 1) := by
  obtain ⟨htask, hpos⟩ := handleTask_ok h
  rw [refs_of_task htask, Nat.sub_add_cancel (Nat.pos_of_ne_zero hpos)]

theorem handleDrop_dropped (h : handleDrop s t = .ok s') :
    ∃ c handles, s.refs t = some (c, handles + 1) ∧ Dropped s s' t c handles ∧
      s'.running = s.running := by
  obtain ⟨task, htask, h⟩ := bind_eq_ok.mp h
  have hset : (s.setTask t (some { task with handles := task.handles - 1 })).tasks t =
      some { task with handles := task.handles - 1 } := Function.update_self ..
  obtain ⟨hdropped, hrunning⟩ := taskDrop_dropped hset h
  refine ⟨task.counter, task.handles - 1, handleTask_refs htask, ⟨?_, hdropped.frees, hdropped.nextTask,
    hdropped.workerTask⟩, hrunning⟩
  rw [hdropped.refs, refs_setTask, Function.update_idem]

theorem runtimeBlockOn_refs (h : runtimeBlockOn s = .ok s') :
    s'.refs = Function.update s.refs s.nextTask (some (1, 0)) ∧ s'.frees = s.frees ∧
      s'.nextTask = s.nextTask + 1 ∧ s'.workerTask = some s.nextTask ∧ s'.running = true := by
  obtain ⟨⟨s₁, t⟩, hspawn, h⟩ := bind_eq_ok.mp h
  obtain ⟨s₂, hdrop, h⟩ := bind_eq_ok.mp h
  cases h
  obtain ⟨rfl, hrefs, hfrees, hnext, -⟩ := runtimeSpawn_refs hspawn
  obtain ⟨c, handles, ht, hdropped, -⟩ := handleDrop_dropped hdrop
  rw [hrefs, Function.update_self] at ht
  cases ht
  refine ⟨?_, hdropped.frees.trans hfrees, hdropped.nextTask.trans hnext, rfl, rfl⟩
  show s₂.refs = _
  rw [hdropped.refs, hrefs, Function.update_idem]
  rfl

theorem handleAbort_refs (h : handleAbort s t = .ok s') : SameRefs s s' := by
  obtain ⟨task, htask, h⟩ := bind_eq_ok.mp h
  have htask := (handleTask_ok htask).1
  have hmark : SameRefs s (s.setTask t (some { task with status := .aborted })) :=
    sameRefs_setTask htask rfl rfl
  dsimp only at h
  split at h
  · split at h
    · cases h
      exact hmark
    · exact hmark.trans (taskAddEventLoop_refs h)
  · split at h
    · cases h
      exact SameRefs.refl s
    · cases h
      exact hmark
  · cases h
    exact SameRefs.refl s
  · cases h
    exact SameRefs.refl s

theorem wakeNode_refs {node : TaskWakeNode} {copy : Bool} (h : wakeNode s t node copy = .ok s') :
    SameRefs s s' := by
  unfold wakeNode at h
  have hlogged : ∀ s₁, SameRefs s₁ (s₁.log (.joinerWoken t node.waker)) := fun _ => sameRefs_log rfl
  cases hout : node.out with
  | none =>
    rw [hout] at h
    exact (hlogged s).trans (taskAddEventLoop_refs h)
  | some out =>
    rw [hout] at h
    dsimp only at h
    split at h
    · have hcopied : SameRefs s (s.log (.copied t out)) := sameRefs_log rfl
      exact (hcopied.trans (hlogged _)).trans (taskAddEventLoop_refs h)
    · exact (hlogged s).trans (taskAddEventLoop_refs h)

theorem handleJoin_refs {node : TaskWakeNode} (h : handleJoin s t node = .ok s') : SameRefs s s' := by
  obtain ⟨task, htask, h⟩ := bind_eq_ok.mp h
  have htask := (handleTask_ok htask).1
  split at h
  · cases h
    exact sameRefs_setTask htask rfl rfl
  · cases h
    exact sameRefs_setTask htask rfl rfl
  · obtain ⟨s₁, hwake, h⟩ := bind_eq_ok.mp h
    obtain ⟨task', htask', h⟩ := bind_eq_ok.mp h
    cases h
    exact (wakeNode_refs hwake).trans (sameRefs_setTask (task_eq_ok.mp htask') rfl rfl)
  · exact wakeNode_refs h

theorem workerTake_refs (h : workerTake s = .ok s') : SameRefs s s' := by
  unfold workerTake at h
  split at h
  · cases h
  · rename_i t hhead
    obtain ⟨task, htask, h⟩ := bind_eq_ok.mp h
    have htask := task_eq_ok.mp htask
    dsimp only at h
    split at h
    · cases h
      have hlog : SameRefs s (s.log (.cleanedUp t)) := sameRefs_log rfl
      exact ⟨hlog.refs, hlog.frees, rfl, rfl, rfl⟩
    · cases h
      have hset : SameRefs s (s.setTask t (some { task with status := .suspended, next := none })) :=
        sameRefs_setTask htask rfl rfl
      have hlog := hset.trans (sameRefs_log (e := .polled t) rfl)
      exact ⟨hlog.refs, hlog.frees, rfl, rfl, rfl⟩

theorem workerCleaned_refs {ready : Bool} (h : workerCleaned s t ready = .ok s') : SameRefs s s' := by
  obtain ⟨task, htask, h⟩ := bind_eq_ok.mp h
  split at h
  · cases h
    have hset : SameRefs s (s.setTask t (some { task with status := .finished })) :=
      sameRefs_setTask (task_eq_ok.mp htask) rfl rfl
    exact ⟨hset.refs, rfl, rfl, rfl, rfl⟩
  · cases h
    exact ⟨rfl, rfl, rfl, rfl, rfl⟩

theorem workerRelease_refs (h : workerRelease s t = .ok s') :
    ∃ c handles, s.refs t = some (c, handles) ∧ Dropped s s' t c handles ∧
      s'.running = if s.workerTask = some t then false else s.running := by
  obtain ⟨s₁, hdrop, h⟩ := bind_eq_ok.mp h
  cases h
  obtain ⟨task, htask, -⟩ := bind_eq_ok.mp hdrop
  have htask := task_eq_ok.mp htask
  obtain ⟨hdropped, hrunning⟩ := taskDrop_dropped htask hdrop
  have hlogged := hdropped.of_same (sameRefs_log (e := .released t) rfl)
  by_cases hworker : s.workerTask = some t
  · simp only [if_pos hworker] at htask hlogged hrunning
    refine ⟨task.counter, task.handles, refs_of_task (s := s) htask,
      ⟨hlogged.refs, hlogged.frees, hlogged.nextTask, hlogged.workerTask⟩, ?_⟩
    rw [if_pos hworker]
    exact hrunning
  · simp only [if_neg hworker] at htask hlogged hrunning
    refine ⟨task.counter, task.handles, refs_of_task htask,
      ⟨hlogged.refs, hlogged.frees, hlogged.nextTask, hlogged.workerTask⟩, ?_⟩
    rw [if_neg hworker]
    exact hrunning

theorem schedulerStep_refs (h : schedulerStep s o = .ok s') : RefStep s s' o := by
  cases schedulerStep_cases h with
  | spawn hspawn =>
    obtain ⟨-, hrefs, hfrees, hnext, hworker⟩ := runtimeSpawn_refs hspawn
    exact .spawn hrefs hfrees hnext hworker
  | blockOn _ hok =>
    obtain ⟨hrefs, hfrees, hnext, hworker⟩ := runtimeBlockOn_refs hok
    exact .blockOn hrefs hfrees hnext hworker
  | wake hok => exact .same (by simp) (taskAddEventLoop_refs hok)
  | abort hok => exact .same (by simp) (handleAbort_refs hok)
  | @clone t hok =>
    obtain ⟨task, htask, hok⟩ := bind_eq_ok.mp hok
    cases hok
    obtain ⟨-, hpos⟩ := handleTask_ok htask
    refine .clone (handleTask_refs htask) ?_ rfl rfl ⟨rfl, rfl⟩
    rw [refs_setTask, Option.map_some, show task.handles - 1 + 2 = task.handles + 1 by omega]
  | drop hok =>
    obtain ⟨c, handles, ht, hdropped, hrunning⟩ := handleDrop_dropped hok
    exact .drop ht hdropped hrunning
  | join hok => exact .same (by simp) (handleJoin_refs hok)
  | event _ _ heq =>
    subst heq
    exact .same (by simp) ⟨rfl, rfl, rfl, rfl, rfl⟩
  | take _ hok => exact .same (by simp) (workerTake_refs hok)
  | @ready t _ heq =>
    subst heq
    have hlog : SameRefs s (s.log (.cleanedUp t)) := sameRefs_log rfl
    exact .same (by simp) ⟨hlog.refs, hlog.frees, rfl, rfl, rfl⟩
  | pending _ _ heq =>
    subst heq
    exact .same (by simp) ⟨rfl, rfl, rfl, rfl, rfl⟩
  | cleaned _ hok => exact .same (by simp) (workerCleaned_refs hok)
  | @wakeJoiner t node nodes _ _ hok =>
    have hsame : SameRefs s { s with control := .waking t nodes } := ⟨rfl, rfl, rfl, rfl, rfl⟩
    exact .same (by simp) (hsame.trans (wakeNode_refs hok))
  | release hcontrol hok =>
    obtain ⟨c, handles, ht, hdropped, hrunning⟩ := workerRelease_refs hok
    exact .release hcontrol ht hdropped hrunning
  | drained _ _ heq =>
    subst heq
    exact .same (by simp) ⟨rfl, rfl, rfl, rfl, rfl⟩
  | leave _ heq =>
    subst heq
    exact .same (by simp) ⟨rfl, rfl, rfl, rfl, rfl⟩

end Taskio
