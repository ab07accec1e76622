import Taskio.Runtime.Effect

/-!
# `event_fd` and `poll_scheduled`

`task_add_event_loop` writes `event_fd` only if `poll_scheduled` is not set, and `worker_run` resets
the flag after it has emptied the queue. So the flag, the descriptor and the place where `worker_run`
stands go together (`Notified`): outside the loop over the queue the flag is set exactly if the
descriptor is readable, and that it is if a task is queued; inside it is set.

* `Notifies` — what the calls of the program do to the two
* `notified_step` — every step keeps `Notified`
-/

namespace Taskio

variable {s s' s'' : Scheduler} {t : Nat} {o : SchedulerOp}

/-- `worker_run` is outside the loop over the ready queue. -/
def Control.Rests (c : Control) : Prop := c = .stopped ∨ c = .waiting

structure Notified (s : Scheduler) : Prop where
  readable : s.control.Rests → (s.pollScheduled = true ↔ 0 < s.eventFd)
  queued : s.control.Rests → s.pollHead ≠ none → s.pollScheduled = true
  drain : ¬ s.control.Rests → s.pollScheduled = true ∧ s.eventFd = 0

/-- The call leaves the queue's head and the flags, or sets the flag and writes if it was not set. -/
structure Notifies (s s' : Scheduler) : Prop where
  control : s'.control = s.control
  nextTask : s'.nextTask = s.nextTask
  flags : s'.pollScheduled = s.pollScheduled ∧ s'.eventFd = s.eventFd ∧ s'.pollHead = s.pollHead ∨
    s'.pollScheduled = true ∧ s'.eventFd = if s.pollScheduled then s.eventFd else s.eventFd + 1

theorem Notifies.notified (h : Notifies s s') (hn : Notified s) : Notified s' := by
  obtain ⟨hcontrol, -, hflags⟩ := h
  obtain ⟨hreadable, hqueued, hdrain⟩ := hn
  rw [← hcontrol] at hreadable hqueued hdrain
  rcases hflags with ⟨hflag, hfd, hhead⟩ | ⟨hflag, hfd⟩
  · refine ⟨?_, ?_, ?_⟩
    · intro hrest
      rw [hflag, hfd]
      exact hreadable hrest
    · intro hrest
      rw [hhead, hflag]
      exact hqueued hrest
    · intro hrest
      rw [hflag, hfd]
      exact hdrain hrest
  · refine ⟨fun hrest => iff_of_true hflag ?_, fun _ _ => hflag, fun hrest => ⟨hflag, ?_⟩⟩
    · rw [hfd]
      cases hold : s.pollScheduled with
      | true => simpa using (hreadable hrest).mp hold
      | false => simp
    · rw [hfd, (hdrain hrest).1, if_pos rfl]
      exact (hdrain hrest).2

/-! ## The calls of the program -/

theorem Notifies.refl (s : Scheduler) : Notifies s s := ⟨rfl, rfl, Or.inl ⟨rfl, rfl, rfl⟩⟩

/-- A call that leaves all of it, and then a call. -/
theorem Notifies.of_same {s₁ : Scheduler} (h : Notifies s₁ s') (hcontrol : s₁.control = s.control)
    (hnext : s₁.nextTask = s.nextTask) (hflag : s₁.pollScheduled = s.pollScheduled)
    (hfd : s₁.eventFd = s.eventFd) (hhead : s₁.pollHead = s.pollHead) : Notifies s s' := by
  obtain ⟨hcontrol', hnext', hflags⟩ := h
  rw [hflag, hfd, hhead] at hflags
  exact ⟨hcontrol'.trans hcontrol, hnext'.trans hnext, hflags⟩

/-- A call, and then one that leaves all of it. -/
theorem Notifies.then_same {s₁ : Scheduler} (h : Notifies s s₁) (hcontrol : s'.control = s₁.control)
    (hnext : s'.nextTask = s₁.nextTask) (hflag : s'.pollScheduled = s₁.pollScheduled)
    (hfd : s'.eventFd = s₁.eventFd) (hhead : s'.pollHead = s₁.pollHead) : Notifies s s' := by
  obtain ⟨hcontrol', hnext', hflags⟩ := h
  rw [← hflag, ← hfd, ← hhead] at hflags
  exact ⟨hcontrol.trans hcontrol', hnext.trans hnext', hflags⟩

theorem taskAddEventLoop_notifies (h : taskAddEventLoop s t = .ok s') :
    Notifies s s' ∧ s'.events = s.events := by
  obtain ⟨task, htask, h⟩ := bind_eq_ok.mp h
  by_cases hstatus : task.status = .scheduled
  · rw [if_pos hstatus] at h
    cases h
    exact ⟨Notifies.refl _, rfl⟩
  · rw [if_neg hstatus] at h
    obtain ⟨s₁, hlink, h⟩ := bind_eq_ok.mp h
    cases h
    -- linking writes neither flag
    have hlinked : s₁.control = s.control ∧ s₁.nextTask = s.nextTask ∧
        s₁.pollScheduled = s.pollScheduled ∧ s₁.eventFd = s.eventFd ∧ s₁.events = s.events := by
      unfold linkTail at hlink
      split at hlink
      · cases hlink
        exact ⟨rfl, rfl, rfl, rfl, rfl⟩
      · obtain ⟨lastTask, -, hlink⟩ := bind_eq_ok.mp hlink
        cases hlink
        exact ⟨rfl, rfl, rfl, rfl, rfl⟩
    obtain ⟨hcontrol, hnext, hflag, hfd, hevents⟩ := hlinked
    unfold notifyWorker
    by_cases hold : s₁.pollScheduled = true
    · rw [if_pos hold]
      rw [hflag] at hold
      exact ⟨⟨hcontrol, hnext, Or.inr ⟨hflag.trans hold, by rw [hfd, if_pos hold]⟩⟩, hevents⟩
    · rw [if_neg hold]
      rw [hflag] at hold
      refine ⟨⟨hcontrol, hnext, Or.inr ⟨rfl, ?_⟩⟩, hevents⟩
      rw [if_neg hold, ← hfd]

theorem taskDrop_same (h : taskDrop s t = .ok s') : s'.control = s.control ∧
    s'.nextTask = s.nextTask ∧ s'.pollScheduled = s.pollScheduled ∧ s'.eventFd = s.eventFd ∧
      s'.pollHead = s.pollHead := by
  obtain ⟨task, -, h⟩ := bind_eq_ok.mp h
  simp only at h
  split at h
  · cases h
    exact ⟨rfl, rfl, rfl, rfl, rfl⟩
  · cases h
    exact ⟨rfl, rfl, rfl, rfl, rfl⟩

theorem handleDrop_same (h : handleDrop s t = .ok s') : s'.control = s.control ∧
    s'.nextTask = s.nextTask ∧ s'.pollScheduled = s.pollScheduled ∧ s'.eventFd = s.eventFd ∧
      s'.pollHead = s.pollHead := by
  obtain ⟨task, -, h⟩ := bind_eq_ok.mp h
  have hsame := taskDrop_same h
  exact hsame

/-- A task is allocated, and linked. -/
theorem runtimeSpawn_notifies {hasOut : Bool} (h : runtimeSpawn s hasOut = .ok (s', t)) :
    (∃ s₁, Notifies s₁ s' ∧ s₁.control = s.control ∧ s₁.pollScheduled = s.pollScheduled ∧
      s₁.eventFd = s.eventFd ∧ s₁.pollHead = s.pollHead) ∧ s'.nextTask = s.nextTask + 1 := by
  obtain ⟨s₂, hadd, h⟩ := bind_eq_ok.mp h
  cases h
  have hnotifies := (taskAddEventLoop_notifies hadd).1
  exact ⟨⟨_, hnotifies, rfl, rfl, rfl, rfl⟩, hnotifies.nextTask⟩

theorem wakeNode_notifies {node : TaskWakeNode} {copy : Bool}
    (h : wakeNode s t node copy = .ok s') : Notifies s s' := by
  refine (taskAddEventLoop_notifies h).1.of_same ?_ ?_ ?_ ?_ ?_
  all_goals
    cases node.out with
    | none => rfl
    | some out => cases copy <;> rfl

theorem handleAbort_notifies (h : handleAbort s t = .ok s') : Notifies s s' := by
  obtain ⟨task, -, h⟩ := bind_eq_ok.mp h
  cases hstatus : task.status with
  | suspended =>
    simp only [hstatus] at h
    split at h
    · cases h
      exact ⟨rfl, rfl, Or.inl ⟨rfl, rfl, rfl⟩⟩
    · exact (taskAddEventLoop_notifies h).1.of_same rfl rfl rfl rfl rfl
  | scheduled =>
    simp only [hstatus] at h
    split at h <;> cases h <;> exact ⟨rfl, rfl, Or.inl ⟨rfl, rfl, rfl⟩⟩
  | aborted | finished =>
    simp only [hstatus] at h
    cases h
    exact Notifies.refl _

theorem handleJoin_notifies {node : TaskWakeNode} (h : handleJoin s t node = .ok s') :
    Notifies s s' := by
  obtain ⟨task, -, h⟩ := bind_eq_ok.mp h
  cases hstatus : task.status with
  | suspended | scheduled =>
    simp only [hstatus] at h
    cases h
    exact ⟨rfl, rfl, Or.inl ⟨rfl, rfl, rfl⟩⟩
  | aborted =>
    simp only [hstatus] at h
    obtain ⟨s₁, hwake, h⟩ := bind_eq_ok.mp h
    obtain ⟨task₁, -, h⟩ := bind_eq_ok.mp h
    cases h
    exact (wakeNode_notifies hwake).then_same rfl rfl rfl rfl rfl
  | finished =>
    simp only [hstatus] at h
    exact wakeNode_notifies h

/-! ## Steps -/

/-- The flags and the head before a task is allocated. -/
theorem Notified.congr (h : Notified s) (hcontrol : s'.control = s.control)
    (hflag : s'.pollScheduled = s.pollScheduled) (hfd : s'.eventFd = s.eventFd)
    (hhead : s'.pollHead = s.pollHead) : Notified s' := by
  obtain ⟨hreadable, hqueued, hdrain⟩ := h
  refine ⟨?_, ?_, ?_⟩
  · rwa [hcontrol, hflag, hfd]
  · rwa [hcontrol, hflag, hhead]
  · rwa [hcontrol, hflag, hfd]

/-- Within the loop only the place changes. -/
theorem Notified.drains (h : Notified s) (hdrain : ¬ s.control.Rests) (hdrain' : ¬ s'.control.Rests)
    (hflag : s'.pollScheduled = s.pollScheduled) (hfd : s'.eventFd = s.eventFd) : Notified s' := by
  refine ⟨fun hrest => absurd hrest hdrain', fun hrest => absurd hrest hdrain', ?_⟩
  intro _
  rw [hflag, hfd]
  exact h.drain hdrain

theorem notified_spawn {hasOut : Bool} (h : Notified s) (hok : runtimeSpawn s hasOut = .ok (s', t)) :
    Notified s' := by
  obtain ⟨⟨s₁, hnotifies, hcontrol, hflag, hfd, hhead⟩, -⟩ := runtimeSpawn_notifies hok
  exact hnotifies.notified (h.congr hcontrol hflag hfd hhead)

theorem workerTake_flags (h : workerTake s = .ok s') : ¬ s'.control.Rests ∧
    s'.pollScheduled = s.pollScheduled ∧ s'.eventFd = s.eventFd ∧ s'.nextTask = s.nextTask := by
  unfold workerTake at h
  split at h
  · cases h
  · obtain ⟨task, -, h⟩ := bind_eq_ok.mp h
    simp only at h
    split at h
    · cases h
      exact ⟨by simp [Control.Rests], rfl, rfl, rfl⟩
    · cases h
      exact ⟨by simp [Control.Rests], rfl, rfl, rfl⟩

theorem workerCleaned_flags {ready : Bool} (h : workerCleaned s t ready = .ok s') :
    ¬ s'.control.Rests ∧ s'.pollScheduled = s.pollScheduled ∧ s'.eventFd = s.eventFd ∧
      s'.nextTask = s.nextTask := by
  obtain ⟨task, -, h⟩ := bind_eq_ok.mp h
  split at h
  · cases h
    exact ⟨by simp [Control.Rests], rfl, rfl, rfl⟩
  · cases h
    exact ⟨by simp [Control.Rests], rfl, rfl, rfl⟩

theorem workerRelease_flags (h : workerRelease s t = .ok s') :
    ¬ s'.control.Rests ∧ s'.pollScheduled = s.pollScheduled ∧ s'.eventFd = s.eventFd ∧
      s'.nextTask = s.nextTask := by
  obtain ⟨s₁, hdrop, h⟩ := bind_eq_ok.mp h
  cases h
  obtain ⟨-, hnext, hflag, hfd, -⟩ := taskDrop_same hdrop
  refine ⟨by simp [Control.Rests], hflag.trans ?_, hfd.trans ?_, hnext.trans ?_⟩
  all_goals split <;> rfl

/-- The calls that allocate a task. -/
def SchedulerOp.Spawns : SchedulerOp → Prop
  | .spawn _ | .blockOn => True
  | _ => False

/-- What a step does to the flags: a call of the program, a new task, or a step of `worker_run`. -/
inductive FlagStep (s s' : Scheduler) : SchedulerOp → Prop
  | call {o : SchedulerOp} (ho : ¬ o.Spawns)
      (h : Notifies s s') : FlagStep s s' o
  | spawn {hasOut : Bool} {t : Nat} (h : runtimeSpawn s hasOut = .ok (s', t)) :
      FlagStep s s' (.spawn hasOut)
  | blockOn {s₁ : Scheduler} {t : Nat} (hcontrol : s.control = .stopped)
      (h : runtimeSpawn s false = .ok (s₁, t)) (hcontrol' : s'.control = .waiting)
      (hnext : s'.nextTask = s₁.nextTask) (hflag : s'.pollScheduled = s₁.pollScheduled)
      (hfd : s'.eventFd = s₁.eventFd) (hhead : s'.pollHead = s₁.pollHead) : FlagStep s s' .blockOn
  | event (hcontrol : s.control = .waiting) (hfd : 0 < s.eventFd) (hnext : s'.nextTask = s.nextTask)
      (hcontrol' : s'.control = .draining) (hflag : s'.pollScheduled = s.pollScheduled)
      (hfd' : s'.eventFd = 0) : FlagStep s s' .event
  | drain {o : SchedulerOp} (ho : ¬ o.Spawns)
      (hcontrol : ¬ s.control.Rests) (hcontrol' : ¬ s'.control.Rests)
      (hflag : s'.pollScheduled = s.pollScheduled) (hfd : s'.eventFd = s.eventFd)
      (hnext : s'.nextTask = s.nextTask) : FlagStep s s' o
  | walk {t : Nat} {nodes : List TaskWakeNode} (hcontrol : ¬ s.control.Rests)
      (h : Notifies { s with control := .waking t nodes } s') : FlagStep s s' .wakeJoiner
  | drained (hcontrol : s.control = .draining) (hhead : s'.pollHead = none)
      (hnext : s'.nextTask = s.nextTask) (hcontrol' : s'.control = .waiting)
      (hflag : s'.pollScheduled = false) (hfd : s'.eventFd = s.eventFd) : FlagStep s s' .drained
  | leave (hcontrol : s.control = .waiting) (hcontrol' : s'.control = .stopped)
      (hnext : s'.nextTask = s.nextTask) (hflag : s'.pollScheduled = s.pollScheduled)
      (hfd : s'.eventFd = s.eventFd) (hhead : s'.pollHead = s.pollHead) : FlagStep s s' .leave

theorem schedulerStep_flags (h : schedulerStep s o = .ok s') : FlagStep s s' o := by
  cases schedulerStep_cases h with
  | spawn hspawn => exact .spawn hspawn
  | blockOn hcontrol hok =>
    obtain ⟨⟨s₁, t⟩, hspawn, hok⟩ := bind_eq_ok.mp hok
    obtain ⟨s₂, hdrop, hok⟩ := bind_eq_ok.mp hok
    cases hok
    obtain ⟨-, hnext, hflag, hfd, hhead⟩ := handleDrop_same hdrop
    exact .blockOn hcontrol hspawn rfl hnext hflag hfd hhead
  | wake hok => exact .call id (taskAddEventLoop_notifies hok).1
  | abort hok => exact .call id (handleAbort_notifies hok)
  | clone hok =>
    obtain ⟨task, -, hok⟩ := bind_eq_ok.mp hok
    cases hok
    exact .call id ⟨rfl, rfl, Or.inl ⟨rfl, rfl, rfl⟩⟩
  | drop hok =>
    obtain ⟨hcontrol, hnext, hflag, hfd, hhead⟩ := handleDrop_same hok
    exact .call id ⟨hcontrol, hnext, Or.inl ⟨hflag, hfd, hhead⟩⟩
  | join hok => exact .call id (handleJoin_notifies hok)
  | event hcontrol hfd heq =>
    subst heq
    exact .event hcontrol hfd rfl rfl rfl rfl
  | take hcontrol hok =>
    obtain ⟨hrests, hflag, hfd, hnext⟩ := workerTake_flags hok
    exact .drain id (by simp [hcontrol, Control.Rests]) hrests hflag hfd hnext
  | ready hcontrol heq =>
    subst heq
    exact .drain id (by simp [hcontrol, Control.Rests]) (by simp [Control.Rests]) rfl rfl rfl
  | pending hcontrol hpoll heq =>
    subst heq
    exact .drain id (by simp [hcontrol, Control.Rests]) (by simp [Control.Rests]) rfl rfl rfl
  | cleaned hcontrol hok =>
    obtain ⟨hrests, hflag, hfd, hnext⟩ := workerCleaned_flags hok
    exact .drain id (by simp [hcontrol, Control.Rests]) hrests hflag hfd hnext
  | wakeJoiner hcontrol hlive hok =>
    exact .walk (by simp [hcontrol, Control.Rests]) (wakeNode_notifies hok)
  | release hcontrol hok =>
    obtain ⟨hrests, hflag, hfd, hnext⟩ := workerRelease_flags hok
    exact .drain id (by simp [hcontrol, Control.Rests]) hrests hflag hfd hnext
  | drained hcontrol hhead heq =>
    subst heq
    exact .drained hcontrol hhead rfl rfl rfl rfl
  | leave hcontrol heq =>
    subst heq
    exact .leave hcontrol rfl rfl rfl rfl rfl

/-- **The flag, the descriptor and the place of `worker_run` stay in step.** -/
theorem notified_step (hn : Notified s) (h : schedulerStep s o = .ok s') : Notified s' := by
  cases schedulerStep_flags h with
  | call ho hnotifies => exact hnotifies.notified hn
  | spawn hspawn => exact notified_spawn hn hspawn
  | blockOn hcontrol hspawn hcontrol' hnext hflag hfd hhead =>
    obtain ⟨⟨s₀, hnotifies, hcontrol₀, -⟩, -⟩ := runtimeSpawn_notifies hspawn
    have hrests : Control.Rests s.control := Or.inl hcontrol
    obtain ⟨hreadable, hqueued, -⟩ := notified_spawn hn hspawn
    rw [hnotifies.control, hcontrol₀] at hreadable hqueued
    refine ⟨?_, ?_, fun hnot => absurd (Or.inr hcontrol') hnot⟩
    · intro _
      rw [hflag, hfd]
      exact hreadable hrests
    · intro _
      rw [hflag, hhead]
      exact hqueued hrests
  | event hcontrol hfd hnext hcontrol' hflag hfd' =>
    have hrests : Control.Rests s.control := Or.inr hcontrol
    have hnot : ¬ s'.control.Rests := by simp [hcontrol', Control.Rests]
    refine ⟨fun hrest => absurd hrest hnot, fun hrest => absurd hrest hnot, fun _ => ⟨?_, hfd'⟩⟩
    rw [hflag]
    exact (hn.readable hrests).mpr hfd
  | drain ho hcontrol hcontrol' hflag hfd => exact hn.drains hcontrol hcontrol' hflag hfd
  | walk hcontrol hnotifies =>
    refine hnotifies.notified (hn.drains hcontrol ?_ rfl rfl)
    simp [Control.Rests]
  | drained hcontrol hhead hnext hcontrol' hflag hfd =>
    have hdrain := hn.drain (by simp [hcontrol, Control.Rests])
    refine ⟨?_, fun _ hne => absurd hhead hne, fun hnot => absurd (Or.inr hcontrol') hnot⟩
    intro _
    rw [hflag, hfd, hdrain.2]
    simp
  | leave hcontrol hcontrol' hnext hflag hfd hhead =>
    have hrests : Control.Rests s.control := Or.inr hcontrol
    refine ⟨?_, ?_, fun hnot => absurd (Or.inl hcontrol') hnot⟩
    · intro _
      rw [hflag, hfd]
      exact hn.readable hrests
    · intro _
      rw [hflag, hhead]
      exact hn.queued hrests

theorem notified_init : Notified schedulerInit :=
  ⟨fun _ => by simp [schedulerInit], fun _ h => absurd rfl h, fun h => absurd (Or.inl rfl) h⟩

/-- Tasks are allocated by `taskio_runtime_spawn` only, one at a time. -/
theorem nextTask_step (h : schedulerStep s o = .ok s') :
    o.Spawns ∧ s'.nextTask = s.nextTask + 1 ∨ ¬ o.Spawns ∧ s'.nextTask = s.nextTask := by
  cases schedulerStep_flags h with
  | call ho hnotifies => exact Or.inr ⟨ho, hnotifies.nextTask⟩
  | spawn hspawn => exact Or.inl ⟨trivial, (runtimeSpawn_notifies hspawn).2⟩
  | blockOn hcontrol hspawn hcontrol' hnext =>
    exact Or.inl ⟨trivial, hnext.trans (runtimeSpawn_notifies hspawn).2⟩
  | event hcontrol hfd hnext => exact Or.inr ⟨id, hnext⟩
  | drain ho hcontrol hcontrol' hflag hfd hnext => exact Or.inr ⟨ho, hnext⟩
  | walk hcontrol hnotifies => exact Or.inr ⟨id, hnotifies.nextTask⟩
  | drained hcontrol hhead hnext => exact Or.inr ⟨id, hnext⟩
  | leave hcontrol hcontrol' hnext => exact Or.inr ⟨id, hnext⟩

end Taskio
