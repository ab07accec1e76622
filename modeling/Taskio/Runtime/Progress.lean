import Taskio.Runtime.References

/-!
# Where a step can fail

* `schedulerStep_exists` — the callers' mistakes apart, a step fails only if it uses the memory of a
  task that was freed
-/

namespace Taskio

variable {s s' : Scheduler} {l : List Nat} {t : Nat} {o : SchedulerOp}

/-- The task that a handle is of. -/
def SchedulerOp.handle : SchedulerOp → Option Nat
  | .abort t | .clone t | .drop t | .join t _ => some t
  | .spawn _ | .blockOn | .wake _ | .event | .take | .ret _ | .cleaned | .wakeJoiner | .release
  | .drained | .leave => none

theorem live_setTask {x : Nat} (task : Task) (hx : s.tasks x ≠ none) :
    (s.setTask t (some task)).tasks x ≠ none := by
  by_cases hxt : x = t
  · simp [Scheduler.setTask, hxt]
  · simpa [Scheduler.setTask, Function.update_of_ne hxt] using hx

theorem taskAddEventLoop_exists (htail : ∀ last, s.pollTail = some last → s.tasks last ≠ none)
    (ht : s.tasks t ≠ none) : ∃ s', taskAddEventLoop s t = .ok s' := by
  obtain ⟨task, htask⟩ := Option.ne_none_iff_exists'.mp ht
  rw [taskAddEventLoop, task_eq_ok.mpr htask, ok_bind]
  by_cases hstatus : task.status = .scheduled
  · rw [if_pos hstatus]
    exact ⟨s, rfl⟩
  · rw [if_neg hstatus, linkTail]
    cases hlast : s.pollTail with
    | none =>
      rw [show (s.setTask t (some { task with status := .scheduled })).pollTail = none from hlast]
      exact ⟨_, rfl⟩
    | some last =>
      rw [show (s.setTask t (some { task with status := .scheduled })).pollTail = some last from hlast]
      obtain ⟨lastTask, hlastTask⟩ := Option.ne_none_iff_exists'.mp
        (live_setTask { task with status := .scheduled } (htail last hlast))
      dsimp only
      rw [task_eq_ok.mpr hlastTask, ok_bind]
      exact ⟨_, rfl⟩

theorem wakeNode_exists {node : TaskWakeNode} (copy : Bool)
    (htail : ∀ last, s.pollTail = some last → s.tasks last ≠ none) (ht : s.tasks node.waker ≠ none) :
    ∃ s', wakeNode s t node copy = .ok s' := by
  -- the log apart, this is `task_add_event_loop`
  have hsame : ∀ s₁ : Scheduler, s₁.tasks = s.tasks → s₁.pollTail = s.pollTail →
      ∃ s', taskAddEventLoop (s₁.log (.joinerWoken t node.waker)) node.waker = .ok s' := by
    intro s₁ htasks htail'
    refine taskAddEventLoop_exists ?_ ?_
    · intro last hlast
      show s₁.tasks last ≠ none
      rw [htasks]
      exact htail last (htail'.symm.trans hlast)
    · show s₁.tasks node.waker ≠ none
      rwa [htasks]
  unfold wakeNode
  split
  · split
    · exact hsame _ rfl rfl
    · exact hsame s rfl rfl
  · exact hsame s rfl rfl

theorem runtimeSpawn_exists (hasOut : Bool)
    (htail : ∀ last, s.pollTail = some last → s.tasks last ≠ none) :
    ∃ s', runtimeSpawn s hasOut = .ok (s', s.nextTask) := by
  have hlive : ∀ task : Task, (s.setTask s.nextTask (some task)).tasks s.nextTask ≠ none := by
    intro task
    simp [Scheduler.setTask]
  obtain ⟨s', hadd⟩ := taskAddEventLoop_exists (s := { s.setTask s.nextTask
    (some ⟨2, .suspended, false, [], hasOut, none, 1⟩) with nextTask := s.nextTask + 1 })
    (fun last hlast => live_setTask _ (htail last hlast)) (hlive _)
  refine ⟨s', ?_⟩
  rw [runtimeSpawn]
  dsimp only
  rw [hadd]
  rfl

theorem taskDrop_exists (ht : s.tasks t ≠ none) : ∃ s', taskDrop s t = .ok s' := by
  obtain ⟨task, htask⟩ := Option.ne_none_iff_exists'.mp ht
  rw [taskDrop, task_eq_ok.mpr htask, ok_bind]
  dsimp only
  split
  · exact ⟨_, rfl⟩
  · exact ⟨_, rfl⟩

/-- The callers' mistakes apart, a step fails only if it uses the memory of a task that is gone. -/
theorem schedulerStep_exists (hl : ReadyQueue l s)
    (hturn : ∀ t, s.control.task = some t → s.tasks t ≠ none)
    (hhandle : ∀ t, o.handle = some t → s.tasks t ≠ none) (hwakes : ∀ x, s.Wakes o x → s.tasks x ≠ none)
    (hcalls : schedulerStep s o ≠ .error .noSuchCall) : ∃ s', schedulerStep s o = .ok s' := by
  have htail : ∀ last, s.pollTail = some last → s.tasks last ≠ none := fun last hlast =>
    mt view_eq_none.mpr (hl.tail_live hlast)
  -- the handle is one that the program has
  have hfound : ∀ {α : Type} {t} {k : Task → Except Fault α}, o.handle = some t →
      (handleTask s t >>= k) ≠ .error .noSuchCall →
      ∃ task, s.tasks t = some task ∧ (handleTask s t >>= k) = k task := by
    intro α t k ht hk
    obtain ⟨task, htask⟩ := Option.ne_none_iff_exists'.mp (hhandle t ht)
    refine ⟨task, htask, ?_⟩
    rw [handleTask, task_eq_ok.mpr htask, ok_bind] at hk ⊢
    by_cases hzero : task.handles = 0
    · rw [if_pos hzero] at hk
      exact absurd rfl hk
    · rw [if_neg hzero, ok_bind]
  cases o with
  | spawn hasOut =>
    obtain ⟨s', hspawn⟩ := runtimeSpawn_exists hasOut htail
    exact ⟨s', by rw [schedulerStep, hspawn, ok_bind]⟩
  | blockOn =>
    rw [schedulerStep.eq_def] at hcalls ⊢
    cases hcontrol : s.control with
    | stopped =>
      obtain ⟨s₁, hspawn⟩ := runtimeSpawn_exists false htail
      obtain ⟨-, -, -, -, -, task, htask, -, hhandles⟩ := runtimeSpawn_ok hspawn
      obtain ⟨s₂, hdrop⟩ := taskDrop_exists (t := s.nextTask)
        (live_setTask (t := s.nextTask) { task with handles := task.handles - 1 } (by rw [htask]; simp))
      refine ⟨{ s₂ with workerTask := some s.nextTask, running := true, control := .waiting }, ?_⟩
      simp only
      rw [runtimeBlockOn, hspawn, ok_bind]
      simp only [handleDrop, handleTask, task_eq_ok.mpr htask, ok_bind]
      rw [if_neg (by rw [hhandles]; exact Nat.one_ne_zero), ok_bind, hdrop]
      rfl
    | waiting | draining | polling | cleaning | waking =>
      rw [hcontrol] at hcalls
      exact absurd rfl hcalls
  | wake t => exact taskAddEventLoop_exists htail (hwakes t rfl)
  | abort t =>
    obtain ⟨task, htask, heq⟩ := hfound rfl hcalls
    rw [show schedulerStep s (.abort t) = _ from heq]
    dsimp only
    split
    · split
      · exact ⟨_, rfl⟩
      · exact taskAddEventLoop_exists (fun last hlast => live_setTask _ (htail last hlast))
          (live_setTask _ (by rw [htask]; simp))
    · split
      · exact ⟨_, rfl⟩
      · exact ⟨_, rfl⟩
    · exact ⟨_, rfl⟩
    · exact ⟨_, rfl⟩
  | clone t =>
    obtain ⟨task, htask, heq⟩ := hfound rfl hcalls
    exact ⟨_, heq⟩
  | drop t =>
    obtain ⟨task, htask, heq⟩ := hfound rfl hcalls
    rw [show schedulerStep s (.drop t) = _ from heq]
    exact taskDrop_exists (live_setTask _ (by rw [htask]; simp))
  | join t node =>
    obtain ⟨task, htask, heq⟩ := hfound rfl hcalls
    rw [show schedulerStep s (.join t node) = _ from heq]
    have hwaker : task.status = .aborted ∨ task.status = .finished → s.tasks node.waker ≠ none :=
      fun hstatus => hwakes node.waker ⟨rfl, task, htask, hstatus⟩
    cases hstatus : task.status with
    | suspended | scheduled => exact ⟨_, rfl⟩
    | aborted =>
      obtain ⟨s₁, hwake⟩ := wakeNode_exists (t := t) false htail (hwaker (Or.inl hstatus))
      dsimp only
      rw [hwake, ok_bind]
      have hlive : s₁.tasks t ≠ none := by
        refine mt refs_eq_none.mpr ?_
        rw [(wakeNode_refs hwake).refs, refs_of_task htask]
        simp
      obtain ⟨task', htask'⟩ := Option.ne_none_iff_exists'.mp hlive
      rw [task_eq_ok.mpr htask', ok_bind]
      exact ⟨_, rfl⟩
    | finished => exact wakeNode_exists task.hasOut htail (hwaker (Or.inr hstatus))
  | event =>
    rw [schedulerStep.eq_def] at hcalls ⊢
    cases hcontrol : s.control with
    | waiting =>
      rw [hcontrol] at hcalls
      dsimp only at hcalls ⊢
      split at hcalls
      · rename_i hready
        rw [if_pos hready]
        exact ⟨_, rfl⟩
      · exact absurd rfl hcalls
    | stopped | draining | polling | cleaning | waking =>
      rw [hcontrol] at hcalls
      exact absurd rfl hcalls
  | take =>
    rw [schedulerStep.eq_def] at hcalls ⊢
    cases hcontrol : s.control with
    | draining =>
      rw [hcontrol] at hcalls
      dsimp only at hcalls ⊢
      rw [workerTake] at hcalls ⊢
      cases hhead : s.pollHead with
      | none =>
        rw [hhead] at hcalls
        exact absurd rfl hcalls
      | some t =>
        obtain ⟨task, htask⟩ := Option.ne_none_iff_exists'.mp
          (hl.live t (List.mem_of_mem_head? (hl.queue.chain.head?_eq.trans hhead)))
        dsimp only
        rw [task_eq_ok.mpr htask, ok_bind]
        split
        · exact ⟨_, rfl⟩
        · exact ⟨_, rfl⟩
    | stopped | waiting | polling | cleaning | waking =>
      rw [hcontrol] at hcalls
      exact absurd rfl hcalls
  | ret poll =>
    rw [schedulerStep.eq_def] at hcalls ⊢
    cases hcontrol : s.control with
    | polling t =>
      dsimp only
      split
      · exact ⟨_, rfl⟩
      · exact ⟨_, rfl⟩
    | stopped | waiting | draining | cleaning | waking =>
      rw [hcontrol] at hcalls
      exact absurd rfl hcalls
  | cleaned =>
    rw [schedulerStep.eq_def] at hcalls ⊢
    cases hcontrol : s.control with
    | cleaning t ready =>
      obtain ⟨task, htask⟩ := Option.ne_none_iff_exists'.mp (hturn t (by rw [hcontrol]; rfl))
      dsimp only
      rw [workerCleaned, task_eq_ok.mpr htask, ok_bind]
      split
      · exact ⟨_, rfl⟩
      · exact ⟨_, rfl⟩
    | stopped | waiting | draining | polling | waking =>
      rw [hcontrol] at hcalls
      exact absurd rfl hcalls
  | wakeJoiner =>
    rw [schedulerStep.eq_def] at hcalls ⊢
    cases hcontrol : s.control with
    | waking t nodes =>
      cases nodes with
      | nil =>
        rw [hcontrol] at hcalls
        exact absurd rfl hcalls
      | cons node nodes =>
        obtain ⟨task, htask⟩ := Option.ne_none_iff_exists'.mp (hturn t (by rw [hcontrol]; rfl))
        dsimp only
        rw [task_eq_ok.mpr htask, ok_bind]
        exact wakeNode_exists (s := { s with control := .waking t nodes }) true htail
          (hwakes node.waker (by simp only [Scheduler.Wakes, hcontrol]))
    | stopped | waiting | draining | polling | cleaning =>
      rw [hcontrol] at hcalls
      exact absurd rfl hcalls
  | release =>
    rw [schedulerStep.eq_def] at hcalls ⊢
    cases hcontrol : s.control with
    | waking t nodes =>
      cases nodes with
      | nil =>
        dsimp only
        rw [workerRelease]
        have hlive :
            (if s.workerTask = some t then { s with running := false } else s).tasks t ≠ none := by
          have htask := hturn t (by rw [hcontrol]; rfl)
          split
          · exact htask
          · exact htask
        obtain ⟨s', hdrop⟩ := taskDrop_exists hlive
        rw [hdrop]
        exact ⟨_, rfl⟩
      | cons node nodes =>
        rw [hcontrol] at hcalls
        exact absurd rfl hcalls
    | stopped | waiting | draining | polling | cleaning =>
      rw [hcontrol] at hcalls
      exact absurd rfl hcalls
  | drained =>
    rw [schedulerStep.eq_def] at hcalls ⊢
    cases hcontrol : s.control with
    | draining =>
      rw [hcontrol] at hcalls
      dsimp only at hcalls ⊢
      split at hcalls
      · rename_i hempty
        rw [if_pos hempty]
        exact ⟨_, rfl⟩
      · exact absurd rfl hcalls
    | stopped | waiting | polling | cleaning | waking =>
      rw [hcontrol] at hcalls
      exact absurd rfl hcalls
  | leave =>
    rw [schedulerStep.eq_def] at hcalls ⊢
    cases hcontrol : s.control with
    | waiting =>
      rw [hcontrol] at hcalls
      dsimp only at hcalls ⊢
      split at hcalls
      · exact absurd rfl hcalls
      · rename_i hstopped
        rw [if_neg hstopped]
        exact ⟨_, rfl⟩
    | stopped | draining | polling | cleaning | waking =>
      rw [hcontrol] at hcalls
      exact absurd rfl hcalls

end Taskio
