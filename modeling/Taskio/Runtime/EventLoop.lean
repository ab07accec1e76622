import Taskio.Common.SleepRuns
import Taskio.Runtime.Turn
import Taskio.Runtime.Wakeups

/-!
# The event loop

`worker_run` waits for `event_fd` and for `timer_fd`. When the timer expires it ticks the wheels,
their handlers call the wakers of sleeps, and these are `task_wake`. So a task that sleeps goes
through all three parts of the runtime: the scheduler of `Taskio/Runtime/Scheduler.lean`, the wheels,
and the sleeps of `Taskio/Common/Sleep.lean`, which are one system here.

* `Queued` — the ready queue along a run of the scheduler, and the task whose waker was called
* `loopStep_sleeps`, `loopStep_scheduler` — a run of the event loop is a run of each part
* `sleeping_task_resumes` — the two together, for a task that sleeps
-/

namespace Taskio

/-! ## Model -/

/-- The tasks and their ready queue, and the wheels with the sleeps that tasks wait for. -/
structure EventLoop where
  scheduler : Scheduler
  sleeps : SleepSystem

/-- What a task, the program or `worker_run` does. -/
inductive LoopOp where
  /-- something that no timer is concerned in -/
  | task (o : SchedulerOp)
  | sleep (f : Nat) (ms : UInt64)
  /-- the task that is polled polls a sleep with its own waker -/
  | poll (f : Nat)
  /-- the task gives the sleep up, in a poll or as it is cleaned up itself -/
  | cleanup (f : Nat)
  /-- one turn of the loop over `expirations`. What is left of them is ticked also after a handler has
  disarmed the timer, so this does not ask for an armed one. -/
  | tick
deriving DecidableEq

/-- `task_wake`, with the task in the waker's `data`. -/
def taskWake (s : Scheduler) (waker : Nat) : Except Fault Scheduler := taskAddEventLoop s waker

namespace EventLoop

/-- The operation on the sleeps, where `worker_run` stands so that it can be made. -/
def sleepOp (s : EventLoop) (o : LoopOp) : Option SleepOp :=
  match o, s.scheduler.control with
  | .sleep f ms, _ => some (.sleep f ms)
  | .poll f, .polling t => some (.poll f t)
  | .cleanup f, .polling _ => some (.cleanup f)
  | .cleanup f, .cleaning _ _ => some (.cleanup f)
  | .tick, .waiting => some .tick
  | _, _ => none

/-- An operation on the sleeps, and the wakers that it calls. -/
def advance (s : EventLoop) (o : SleepOp) : Except Fault EventLoop := do
  let sleeps ← sleepStep s.sleeps o
  let called := sleeps.woken.drop s.sleeps.woken.length
  let scheduler ← called.foldlM (fun scheduler call => taskWake scheduler call.2) s.scheduler
  .ok { scheduler := scheduler, sleeps := sleeps }

end EventLoop

def loopStep (s : EventLoop) (o : LoopOp) : Except Fault EventLoop :=
  match o with
  | .task o => do
    let scheduler ← schedulerStep s.scheduler o
    .ok { s with scheduler := scheduler }
  | o =>
    match s.sleepOp o with
    | some o => s.advance o
    | none => .error .noSuchCall

def eventLoop (nextTimerId : UInt64) : EventLoop :=
  { scheduler := schedulerInit, sleeps := sleepSystem nextTimerId }

/-- The operation is one of the sleep at `f`. -/
def LoopOp.Uses (f : Nat) : LoopOp → Prop
  | .sleep g _ | .poll g | .cleanup g => g = f
  | .task _ | .tick => False

namespace EventLoop

/-- What the scheduler goes through meanwhile. -/
def schedulerOps (s : EventLoop) (o : LoopOp) : List SchedulerOp :=
  match o with
  | .task o => [o]
  | o =>
    match s.sleepOp o with
    | none => []
    | some o =>
      match sleepStep s.sleeps o with
      | .ok sleeps => (sleeps.woken.drop s.sleeps.woken.length).map fun call => .wake call.2
      | .error _ => []

/-- What the sleeps go through. -/
def sleepOps (s : EventLoop) (o : LoopOp) : List SleepOp := (s.sleepOp o).toList

end EventLoop

/-- No task is aborted, wakers are called for tasks that may be queued, and sleeps own their timers. -/
structure KeepsLoop (s : EventLoop) (o : LoopOp) : Prop where
  queue : Lib.Along schedulerStep (fun s o => KeepsQueue s o ∧ NoAborts s o) s.scheduler
    (s.schedulerOps o)
  sleeps : Lib.Along sleepStep SleepKeeps s.sleeps (s.sleepOps o)

/-! ## The ready queue along a run -/

section

variable {s s' : Scheduler} {l : List Nat} {t : Nat} {o : SchedulerOp} {os : List SchedulerOp}

/-- The ready queue, in a run without aborts. -/
structure Queued (l : List Nat) (s : Scheduler) : Prop where
  queue : ReadyQueue l s
  settled : Settled s
  notified : Notified s
  noneAborted : NoneAborted s

theorem queued_init : Queued [] schedulerInit :=
  ⟨queueShape_init, settled_init, notified_init, noneAborted_init⟩

theorem Queued.step (h : Queued l s) (hkeeps : KeepsQueue s o) (hno : NoAborts s o)
    (hok : schedulerStep s o = .ok s') :
    ∃ l', Queued l' s' ∧ s'.polls ++ l' = s.polls ++ l ++ s.queues o := by
  have heffect := schedulerStep_effect hok
  obtain ⟨l', hl', hfifo⟩ :=
    heffect.fifo h.queue h.settled hkeeps h.noneAborted hno (nextTask_step hok)
  exact ⟨l', ⟨hl', heffect.settled h.queue h.settled, notified_step h.notified hok,
    noneAborted_step heffect h.noneAborted hno⟩, hfifo⟩

/-- The polls so far stay on record. -/
theorem polls_extend (hok : schedulerStep s o = .ok s') : s.polls <+: s'.polls := by
  have hmore : ∀ {es : List TaskEvent}, s'.turns = s.turns ++ es → s.polls <+: s'.polls :=
    fun hturns => ⟨_, (polls_append hturns).symm⟩
  cases (schedulerStep_effect hok).turn with
  | idle ho hcontrol hturns => exact hmore (hturns.trans (List.append_nil _).symm)
  | cleaning hhead hcontrol hcontrol' hturns => exact hmore hturns
  | polling hhead hview hstatus hcontrol hcontrol' hturns => exact hmore hturns
  | ready hcontrol hcontrol' hturns => exact hmore hturns
  | finish hcontrol hcontrol' hturns => exact hmore (hturns.trans (List.append_nil _).symm)
  | release hcontrol hcontrol' hturns => exact hmore hturns

/-- Nothing that was queued is lost: it is polled, or still in the queue. -/
theorem Queued.run (h : Queued l s)
    (hkeeps : Lib.Along schedulerStep (fun s o => KeepsQueue s o ∧ NoAborts s o) s os)
    (hrun : Lib.run schedulerStep s os = .ok s') :
    ∃ l', Queued l' s' ∧ s.polls <+: s'.polls ∧ s.polls ++ l <+: s'.polls ++ l' := by
  refine Lib.run_invariant
    (I := fun s' => ∃ l', Queued l' s' ∧ s.polls <+: s'.polls ∧ s.polls ++ l <+: s'.polls ++ l')
    ?_ ⟨l, h, List.prefix_rfl, List.prefix_rfl⟩ hkeeps hrun
  rintro s₁ o s₂ ⟨l₁, hl₁, hpolls, hqueued⟩ ⟨hkeeps, hno⟩ hok
  obtain ⟨l₂, hl₂, hfifo⟩ := hl₁.step hkeeps hno hok
  refine ⟨l₂, hl₂, hpolls.trans (polls_extend hok), hqueued.trans ?_⟩
  rw [hfifo]
  exact List.prefix_append _ _

/-- A task whose waker is called is polled afterwards, or is in the queue. -/
theorem Queued.woken (h : Queued l s)
    (hkeeps : Lib.Along schedulerStep (fun s o => KeepsQueue s o ∧ NoAborts s o) s os)
    (hrun : Lib.run schedulerStep s os = .ok s') (hwake : .wake t ∈ os) :
    ∃ l', Queued l' s' ∧ s.polls.count t < (s'.polls ++ l').count t := by
  obtain ⟨os₁, os₂, rfl⟩ := List.append_of_mem hwake
  obtain ⟨s₁, hrun₁, hrest⟩ := Lib.run_append.mp hrun
  obtain ⟨s₂, hok, hrun₂⟩ := Lib.run_cons_eq_ok.mp hrest
  obtain ⟨hkeeps₁, hkeeps'⟩ := Lib.along_append hkeeps
  obtain ⟨⟨hkeepsQueue, hno⟩, hkeeps₂⟩ := hkeeps' s₁ hrun₁
  obtain ⟨l₁, hl₁, hpolls₁, -⟩ := h.run hkeeps₁ hrun₁
  obtain ⟨l₂, hl₂, -⟩ := hl₁.step hkeepsQueue hno hok
  obtain ⟨l', hl', -, hqueued⟩ := hl₂.run (hkeeps₂ s₂ hok) hrun₂
  -- the waker leaves the task scheduled, so linked
  have hmem : t ∈ l₂ := by
    obtain ⟨v, hview, hstatus⟩ := (schedulerStep_effect hok).woken (t := t) rfl
    exact (readyQueue_iff_view.mp hl₂.queue).2.2 t v.2 (by rw [hview, ← hstatus])
  refine ⟨l', hl', ?_⟩
  calc s.polls.count t ≤ s₁.polls.count t := hpolls₁.sublist.count_le t
    _ ≤ s₂.polls.count t := (polls_extend hok).sublist.count_le t
    _ < s₂.polls.count t + l₂.count t := Nat.lt_add_of_pos_right (List.count_pos_iff.mpr hmem)
    _ = (s₂.polls ++ l₂).count t := (List.count_append ..).symm
    _ ≤ (s'.polls ++ l').count t := hqueued.sublist.count_le t

/-- `worker_run` does not sleep over the queue. -/
theorem Queued.fair (h : Queued l s) : FairQueue (s.polls ++ l) l s := by
  refine ⟨h.queue, rfl, ?_⟩
  intro hcontrol
  have hrests : s.control.Rests := Or.inr hcontrol
  by_cases hhead : s.pollHead = none
  · exact Or.inl (h.queue.queue.head_eq_none.mp hhead)
  · exact Or.inr ((h.notified.readable hrests).mp (h.notified.queued hrests hhead))

end

/-! ## The parts of a run -/

variable {s s' : EventLoop} {o : LoopOp} {os : List LoopOp} {f t : Nat}

theorem foldlM_taskWake (called : List (Nat × Nat)) (s : Scheduler) :
    Lib.run schedulerStep s (called.map fun call => .wake call.2) =
      called.foldlM (fun scheduler call => taskWake scheduler call.2) s := by
  induction called generalizing s with
  | nil => rfl
  | cons call called ih =>
    rw [List.map_cons, List.foldlM_cons, Lib.run]
    have hstep : schedulerStep s (.wake call.2) = taskWake s call.2 := rfl
    rw [hstep]
    cases taskWake s call.2 with
    | error e => rfl
    | ok s₁ => exact ih s₁

/-- A step is one of the scheduler, or one of the sleeps with the wakers that it calls. -/
theorem loopStep_cases (h : loopStep s o = .ok s') :
    (∃ o', o = .task o' ∧ schedulerStep s.scheduler o' = .ok s'.scheduler ∧ s'.sleeps = s.sleeps ∧
        s.schedulerOps o = [o'] ∧ s.sleepOps o = []) ∨
      ∃ o', s.sleepOp o = some o' ∧ sleepStep s.sleeps o' = .ok s'.sleeps ∧
        Lib.run schedulerStep s.scheduler (s.schedulerOps o) = .ok s'.scheduler ∧
        s.schedulerOps o =
          (s'.sleeps.woken.drop s.sleeps.woken.length).map fun call => .wake call.2 := by
  have hsleep : ∀ o', s.sleepOp o = some o' → s.advance o' = .ok s' →
      (s.schedulerOps o = match sleepStep s.sleeps o' with
        | .ok sleeps => (sleeps.woken.drop s.sleeps.woken.length).map fun call => .wake call.2
        | .error _ => []) →
      sleepStep s.sleeps o' = .ok s'.sleeps ∧
        Lib.run schedulerStep s.scheduler (s.schedulerOps o) = .ok s'.scheduler ∧
        s.schedulerOps o =
          (s'.sleeps.woken.drop s.sleeps.woken.length).map fun call => .wake call.2 := by
    intro o' _ hadvance hops
    obtain ⟨sleeps, hstep, hrest⟩ := bind_eq_ok.mp hadvance
    obtain ⟨scheduler, hfold, hrest⟩ := bind_eq_ok.mp hrest
    cases hrest
    rw [hstep] at hops
    exact ⟨hstep, by rw [hops, foldlM_taskWake]; exact hfold, hops⟩
  unfold loopStep at h
  split at h
  · rename_i o'
    obtain ⟨scheduler, hstep, h⟩ := bind_eq_ok.mp h
    cases h
    exact Or.inl ⟨o', rfl, hstep, rfl, rfl, rfl⟩
  · rename_i htask
    split at h
    · rename_i o' hop
      refine Or.inr ⟨o', hop, hsleep o' hop h ?_⟩
      cases o with
      | task o => exact absurd rfl (htask o)
      | _ => simp only [EventLoop.schedulerOps, hop]
    · cases h

theorem loopStep_sleeps (h : loopStep s o = .ok s') :
    Lib.run sleepStep s.sleeps (s.sleepOps o) = .ok s'.sleeps := by
  rcases loopStep_cases h with ⟨o', -, -, hsleeps, -, hops⟩ | ⟨o', hop, hstep, -⟩
  · rw [hops, hsleeps]
    rfl
  · rw [EventLoop.sleepOps, hop]
    exact Lib.run_cons_ok hstep

theorem loopStep_scheduler (h : loopStep s o = .ok s') :
    Lib.run schedulerStep s.scheduler (s.schedulerOps o) = .ok s'.scheduler := by
  rcases loopStep_cases h with ⟨o', -, hstep, -, hops, -⟩ | ⟨o', -, -, hrun, -⟩
  · rw [hops]
    exact Lib.run_cons_ok hstep
  · exact hrun

/-- The wakers that a run calls are among the operations of the scheduler. -/
theorem wakes_emitted (hrun : Lib.run loopStep s os = .ok s') :
    ∃ called, s'.sleeps.woken = s.sleeps.woken ++ called ∧
      ∀ call ∈ called, .wake call.2 ∈ Lib.emitted loopStep EventLoop.schedulerOps s os := by
  refine Lib.run_emits (P := fun _ _ => True)
    (I := fun past s' => ∃ called, s'.sleeps.woken = s.sleeps.woken ++ called ∧
      ∀ call ∈ called, SchedulerOp.wake call.2 ∈ past) [] ?_ ⟨[], (List.append_nil _).symm, by simp⟩
    (Lib.along_of_forall fun _ _ _ => trivial) hrun
  rintro past s₁ o s₂ ⟨called, hcalled, hpast⟩ - hok
  rcases loopStep_cases hok with ⟨o', -, -, hsleeps, -⟩ | ⟨o', -, hstep, -, hops⟩
  · refine ⟨called, by rw [hsleeps, hcalled], ?_⟩
    intro call hcall
    exact List.mem_append_left _ (hpast call hcall)
  · obtain ⟨new, hnew⟩ := (sleepStep_goesOn hstep).woken
    refine ⟨called ++ new, by rw [← hnew, hcalled, List.append_assoc], ?_⟩
    intro call hcall
    rcases List.mem_append.mp hcall with hcall | hcall
    · exact List.mem_append_left _ (hpast call hcall)
    · refine List.mem_append_right _ ?_
      rw [hops, ← hnew, List.drop_left]
      exact List.mem_map.mpr ⟨call, hcall, rfl⟩

theorem sleepOp_uses {o' : SleepOp} (hop : s.sleepOp o = some o') (ho : ¬ o.Uses f) : ¬ o'.Uses f := by
  unfold EventLoop.sleepOp at hop
  split at hop
  all_goals cases hop
  all_goals exact ho

/-! ## Runs -/

theorem run_sleeps (hrun : Lib.run loopStep s os = .ok s') :
    Lib.run sleepStep s.sleeps (Lib.emitted loopStep EventLoop.sleepOps s os) = .ok s'.sleeps :=
  Lib.run_projects EventLoop.sleeps (fun _ _ _ => loopStep_sleeps) hrun

theorem run_scheduler (hrun : Lib.run loopStep s os = .ok s') :
    Lib.run schedulerStep s.scheduler (Lib.emitted loopStep EventLoop.schedulerOps s os) =
      .ok s'.scheduler :=
  Lib.run_projects EventLoop.scheduler (fun _ _ _ => loopStep_scheduler) hrun

theorem keepsLoop_sleeps (h : Lib.Along loopStep KeepsLoop s os) :
    Lib.Along sleepStep SleepKeeps s.sleeps (Lib.emitted loopStep EventLoop.sleepOps s os) :=
  Lib.along_projects EventLoop.sleeps (fun _ _ _ => loopStep_sleeps) (fun _ _ h => h.sleeps) h

theorem keepsLoop_scheduler (h : Lib.Along loopStep KeepsLoop s os) :
    Lib.Along schedulerStep (fun s o => KeepsQueue s o ∧ NoAborts s o) s.scheduler
      (Lib.emitted loopStep EventLoop.schedulerOps s os) :=
  Lib.along_projects EventLoop.scheduler (fun _ _ _ => loopStep_scheduler)
    (fun _ _ h => h.queue) h

/-- **A task that sleeps goes on once its time has come.** A task polls a sleep for the first time.
Whatever happens then, short of a further poll or a cleanup of this sleep: when the time has come, the
task was polled again or is in the ready queue, which the worker does not sleep over; so where the
worker has nothing to do, it was polled again. -/
theorem sleeping_task_resumes (nextTimerId : UInt64) (os₁ os₂ : List LoopOp) (f t : Nat)
    {s₁ s₂ : EventLoop} {future : SleepFuture} (hlen : (os₁ ++ .poll f :: os₂).length ≤ 2 ^ 64)
    (hkeeps : Lib.Along loopStep KeepsLoop (eventLoop nextTimerId) (os₁ ++ .poll f :: os₂))
    (hrun₁ : Lib.run loopStep (eventLoop nextTimerId) os₁ = .ok s₁)
    (hcontrol : s₁.scheduler.control = .polling t)
    (hfuture : s₁.sleeps.futures f = some future) (hfirst : future.counter = 0)
    (hothers : ∀ o ∈ os₂, ¬ o.Uses f)
    (hrun₂ : Lib.run loopStep s₁ (.poll f :: os₂) = .ok s₂)
    (hdue : 2 ^ 64 ≤ expiryFrom s₁.sleeps.timers.now future.ms ∨
      expiryFrom s₁.sleeps.timers.now future.ms ≤ s₂.sleeps.timers.now) :
    (∃ l, FairQueue (s₂.scheduler.polls ++ l) l s₂.scheduler ∧ Progresses l s₂.scheduler ∧
        s₁.scheduler.polls.count t < (s₂.scheduler.polls ++ l).count t) ∧
      (s₂.scheduler.control = .waiting → s₂.scheduler.eventFd = 0 →
        s₁.scheduler.polls.count t < s₂.scheduler.polls.count t) := by
  obtain ⟨hkeeps₁, hkeeps₂⟩ := Lib.along_append hkeeps
  have hkeeps₂ : Lib.Along loopStep KeepsLoop s₁ (.poll f :: os₂) := hkeeps₂ s₁ hrun₁
  have hsleeps : s₂.sleeps.wakesOf f = s₁.sleeps.wakesOf f ++ [t] := by
    have hfresh : Lib.Along sleepStep FreshId (sleepSystem nextTimerId)
        (Lib.emitted loopStep EventLoop.sleepOps (eventLoop nextTimerId) (os₁ ++ .poll f :: os₂)) := by
      have hone : (Lib.emitted loopStep EventLoop.sleepOps (eventLoop nextTimerId)
          (os₁ ++ .poll f :: os₂)).length ≤ (os₁ ++ .poll f :: os₂).length :=
        Lib.length_emitted_le fun s o => Option.length_toList_le
      exact freshIds _ 0 0 _ (valid_setup nextTimerId) (by decide) (idsFrom_setup nextTimerId)
        (by omega)
    rw [Lib.emitted_append hrun₁] at hfresh
    obtain ⟨hfresh₁, hfresh₂⟩ := Lib.along_append hfresh
    have hfresh₂ := hfresh₂ s₁.sleeps (run_sleeps hrun₁)
    obtain ⟨n, hsound, hown⟩ := sleepsSound_run (keepsLoop_sleeps hkeeps₁) hfresh₁ (run_sleeps hrun₁)
    have hkeeps₂ := keepsLoop_sleeps hkeeps₂
    have hrun := run_sleeps hrun₂
    obtain ⟨s, hok, -⟩ := Lib.run_cons_eq_ok.mp hrun₂
    have hops : Lib.emitted loopStep EventLoop.sleepOps s₁ (.poll f :: os₂) =
        .poll f t :: Lib.emitted loopStep EventLoop.sleepOps s os₂ := by
      simp only [Lib.emitted, hok, EventLoop.sleepOps, EventLoop.sleepOp, hcontrol, Option.toList_some,
        List.singleton_append]
    rw [hops] at hfresh₂ hkeeps₂ hrun
    have hunused : ∀ o ∈ Lib.emitted loopStep EventLoop.sleepOps s os₂, ¬ o.Uses f := by
      intro o' ho'
      obtain ⟨s', o, ho, hop⟩ := Lib.mem_emitted ho'
      exact sleepOp_uses (Option.mem_toList.mp hop) (hothers o ho)
    rw [wakesOf_polled hsound hown hfuture hfirst hunused hkeeps₂ hfresh₂ hrun, if_pos hdue]
  -- so it is called as an operation of the scheduler
  have hwake : .wake t ∈ Lib.emitted loopStep EventLoop.schedulerOps s₁ (.poll f :: os₂) := by
    obtain ⟨called, hcalled, hmem⟩ := wakes_emitted hrun₂
    rw [SleepSystem.wakesOf, hcalled, List.filter_append, List.map_append] at hsleeps
    have hnew := List.append_cancel_left hsleeps
    obtain ⟨call, hcall, rfl⟩ : ∃ call ∈ called.filter fun call => call.1 = f, call.2 = t :=
      List.mem_map.mp (by rw [hnew]; exact List.mem_singleton_self t)
    exact hmem call (List.mem_filter.mp hcall).1
  obtain ⟨l₁, hl₁, -⟩ := queued_init.run (keepsLoop_scheduler hkeeps₁) (run_scheduler hrun₁)
  obtain ⟨l, hl, hcount⟩ := hl₁.woken (keepsLoop_scheduler hkeeps₂) (run_scheduler hrun₂) hwake
  refine ⟨⟨l, hl.fair, hl.fair.progress hl.noneAborted, hcount⟩, ?_⟩
  intro hwaiting hfd
  rcases hl.fair.notified hwaiting with rfl | hreadable
  · rwa [List.append_nil] at hcount
  · omega

theorem keepsLoop_task {o : SchedulerOp} (hno : NoAborts s.scheduler o)
    (hkeeps : KeepsQueue s.scheduler o) : KeepsLoop s (.task o) :=
  ⟨⟨⟨hkeeps, hno⟩, fun _ _ => trivial⟩, trivial⟩

/-- A task sleeps for two ticks. -/
theorem sleeping_task_resumes_two :
    ∃ s₁ s₂, Lib.run loopStep (eventLoop 0)
        [.task .blockOn, .task .event, .task .take, .sleep 4 2] = .ok s₁ ∧
      Lib.run loopStep s₁ [.poll 4, .task (.ret .pending), .task .drained, .tick, .tick, .task .event,
        .task .take, .task (.ret .pending), .task .drained] = .ok s₂ ∧
      s₁.scheduler.polls.count 0 < s₂.scheduler.polls.count 0 := by
  have hsilent : ∀ {s : EventLoop} {o : SchedulerOp}, (∀ t, o ≠ .abort t) →
      (∀ x, ¬ s.scheduler.Wakes o x) → (∀ x, ¬ s.scheduler.Drops o x) → KeepsLoop s (.task o) :=
    fun hno hwakes hdrops => keepsLoop_task hno (keepsQueue_silent hwakes hdrops)
  refine ⟨_, _, rfl, rfl, ?_⟩
  refine (sleeping_task_resumes 0 [.task .blockOn, .task .event, .task .take, .sleep 4 2]
    [.task (.ret .pending), .task .drained, .tick, .tick, .task .event, .task .take,
      .task (.ret .pending), .task .drained] 4 0 (by decide) ?_ rfl rfl rfl rfl ?_ rfl ?_).2 rfl rfl
  · refine Lib.along_cons (hsilent (by simp) (fun _ => id) fun _ => id) rfl ?_
    refine Lib.along_cons (hsilent (by simp) (fun _ => id) fun _ => id) rfl ?_
    refine Lib.along_cons (hsilent (by simp) (fun _ => id) fun _ => id) rfl ?_
    refine Lib.along_cons ⟨trivial, trivial, fun _ _ => trivial⟩ rfl ?_
    refine Lib.along_cons ⟨trivial, ?_, fun _ _ => trivial⟩ rfl ?_
    · rintro future ⟨⟩ ⟨⟩
    refine Lib.along_cons (hsilent (by simp) (fun _ => id) fun _ => id) rfl ?_
    refine Lib.along_cons (hsilent (by simp) (fun _ => id) fun _ => id) rfl ?_
    refine Lib.along_cons ⟨trivial, ?_, fun _ _ => trivial⟩ rfl ?_
    · exact (by decide : 1 < wheelSpan)
    refine Lib.along_cons ⟨⟨⟨?_, by rintro t ⟨⟩⟩, fun _ _ => trivial⟩, ?_, fun _ _ => trivial⟩ rfl ?_
    · refine ⟨?_, fun _ => False.elim⟩
      rintro _ rfl v ⟨⟩
      exact Or.inr ⟨rfl, by decide⟩
    · exact (by decide : 2 < wheelSpan)
    refine Lib.along_cons (hsilent (by simp) (fun _ => id) fun _ => id) rfl ?_
    refine Lib.along_cons (hsilent (by simp) (fun _ => id) fun _ => id) rfl ?_
    refine Lib.along_cons (hsilent (by simp) (fun _ => id) fun _ => id) rfl ?_
    exact Lib.along_cons (hsilent (by simp) (fun _ => id) fun _ => id) rfl trivial
  · simp [LoopOp.Uses]
  · exact Or.inr (by decide)

end Taskio
