import Taskio.Runtime.JoinerRuns
import Taskio.Runtime.ReferenceRuns

/-!
# The outputs of tasks

`worker_run` passes `worker->task_out` to the poll of a task if `worker->task == task`, and the task's
own `out` otherwise. `worker->task` is an address, and the worker goes on with the queue after its task
was freed; so a task that is spawned meanwhile may be given that memory, and then compares equal. Its
output goes to where `taskio_runtime_block_on` was told to put that of the other task, and what its
joiners copy is its own `out`, which nobody has written.

* `OutScheduler`, `outStep` — the scheduler with this comparison, and with what is copied
* `outStep_scheduler` — it does not change what the tasks go through
* `OutputsServed` — what joiners are promised, the outputs included
* `outputs_served` — the runs in which it is kept
-/

namespace Taskio

/-! ## Model -/

/-- The `out` of a poll. -/
inductive OutPlace where
  /-- `worker->task_out` -/
  | worker
  /-- `task->base.out` -/
  | own
deriving DecidableEq, Repr

/-- A copy of a task's own `out` to a joiner's. `whole` says whether the task's output was there. -/
structure OutCopy where
  task : Nat
  out : Nat
  whole : Bool
deriving DecidableEq, Repr

/--
The scheduler with the outputs. `reused` is the task that was allocated where the worker's task had
been, `place` the `out` of the last poll, `written` the tasks whose own `out` has their output.
-/
structure OutScheduler where
  scheduler : Scheduler
  reused : Option Nat
  place : OutPlace
  written : List Nat
  copies : List OutCopy

inductive OutOp where
  | step (o : SchedulerOp)
  /-- `taskio_runtime_spawn`, where the allocator returns the memory of the worker's freed task -/
  | spawnReused (hasOut : Bool)
deriving DecidableEq, Repr

/-- What it is to the scheduler. -/
def OutOp.call : OutOp → SchedulerOp
  | .step o => o
  | .spawnReused hasOut => .spawn hasOut

/-- What the step copies: a task, and the `out` of a joiner. -/
def Scheduler.memcpys (s : Scheduler) (o : SchedulerOp) : List (Nat × Nat) :=
  match o, s.control with
  | .join x node, _ =>
    match s.tasks x with
    | some task =>
      if task.status = .finished ∧ task.hasOut = true then (node.out.map (x, ·)).toList else []
    | none => []
  | .wakeJoiner, .waking x (node :: _) => (node.out.map (x, ·)).toList
  | _, _ => []

namespace OutScheduler

/-- `worker->task == task`. -/
def IsWorkers (s : OutScheduler) (t : Nat) : Prop :=
  s.scheduler.workerTask = some t ∨ s.reused = some t

instance (s : OutScheduler) (t : Nat) : Decidable (s.IsWorkers t) := inferInstanceAs (Decidable (_ ∨ _))

/-- The memory of the worker's task is free. -/
def Vacant (s : OutScheduler) : Prop :=
  (∃ t ∈ s.scheduler.workerTask, s.scheduler.tasks t = none) ∧
    ∀ t ∈ s.reused, s.scheduler.tasks t = none

instance (s : OutScheduler) : Decidable s.Vacant := inferInstanceAs (Decidable (_ ∧ _))

/-- The allocator returns free memory. -/
def allows (s : OutScheduler) (o : OutOp) : Bool :=
  match o with
  | .spawnReused _ => s.Vacant
  | .step _ => true

/-- The task at the address `worker->task`, where it is not the worker's. -/
def nextReused (s : OutScheduler) (o : OutOp) : Option Nat :=
  match o with
  | .spawnReused _ => some s.scheduler.nextTask
  | .step .blockOn => none
  | .step _ => s.reused

/-- `void* out = worker->task == task ? worker->task_out : task->base.out` -/
def nextPlace (s : OutScheduler) (o : OutOp) : OutPlace :=
  match o, s.scheduler.pollHead with
  | .step .take, some t => if s.IsWorkers t then .worker else .own
  | _, _ => s.place

/-- The tasks whose own `out` the step writes: a poll that is ready has written to the one it was
given. -/
def writes (s : OutScheduler) (o : OutOp) : List Nat :=
  match o, s.scheduler.control with
  | .step (.ret .ready), .polling t => if s.place = .own then [t] else []
  | _, _ => []

/-- `if (worker->task == task) running = false`, for a task that is at the worker's task's address. -/
def stops (s : OutScheduler) (o : OutOp) : Bool :=
  match o, s.scheduler.control with
  | .step .release, .waking t [] => s.reused = some t
  | _, _ => false

/-- The copies that the step makes. -/
def copied (s : OutScheduler) (o : OutOp) : List OutCopy :=
  (s.scheduler.memcpys o.call).map fun copy => ⟨copy.1, copy.2, s.written.contains copy.1⟩

end OutScheduler

def outStep (s : OutScheduler) (o : OutOp) : Except Fault OutScheduler := do
  let scheduler ← schedulerStep s.scheduler o.call
  if s.allows o then
    .ok
      { scheduler := if s.stops o then { scheduler with running := false } else scheduler
        reused := s.nextReused o
        place := s.nextPlace o
        written := s.written ++ s.writes o
        copies := s.copies ++ s.copied o }
  else .error .noSuchCall

def outInit : OutScheduler :=
  { scheduler := schedulerInit, reused := none, place := .own, written := [], copies := [] }

/-! ## What the joiners are promised -/

variable {s s' : OutScheduler} {t : Nat} {o : OutOp} {tr : List JoinerEvent}

/-- What a step does to the joins on `t`. -/
def OutScheduler.joinerEvents (t : Nat) (s : OutScheduler) (o : OutOp) : List JoinerEvent :=
  s.scheduler.joinerEvents t o.call

/-- What is promised when the turn of the task has ended. -/
structure OutputsServed (t : Nat) (tr : List JoinerEvent) (s : OutScheduler) : Prop
    extends JoinersServed t tr s.scheduler where
  /-- each `out` is given the output of a task that has finished -/
  outputs : .finished ∈ tr → .spawned true ∈ tr →
    ∀ out, (joinedNodes tr).countP (·.out = some out) = s.copies.count ⟨t, out, true⟩
  /-- and nothing else -/
  whole : .spawned true ∈ tr → ∀ out, ⟨t, out, false⟩ ∉ s.copies

/-- The condition of `ServesJoiners`, and the poll in which the task is ready is given the task's own
`out`, if it has one. -/
def ServesOutputs (t : Nat) (s : OutScheduler) (o : OutOp) : Prop :=
  ServesJoiners t s.scheduler o.call ∧
    (o = .step (.ret .ready) → s.scheduler.control = .polling t →
      s.place = .own ∨ ∃ task ∈ s.scheduler.tasks t, task.hasOut = false)

instance (t : Nat) (s : OutScheduler) (o : OutOp) : Decidable (ServesOutputs t s o) :=
  inferInstanceAs (Decidable (_ ∧ _))

/-! ## The scheduler's part -/

/-- A task is at the address of the worker's only after the worker has stopped. -/
structure ReusedLate (s : OutScheduler) : Prop where
  held : WorkerHeld s.scheduler
  stopped : s.reused ≠ none →
    ∃ t, s.scheduler.workerTask = some t ∧ s.scheduler.running = false

theorem outStep_cases (h : outStep s o = .ok s') :
    ∃ scheduler, schedulerStep s.scheduler o.call = .ok scheduler ∧ s.allows o = true ∧
      s' =
        { scheduler := if s.stops o then { scheduler with running := false } else scheduler
          reused := s.nextReused o
          place := s.nextPlace o
          written := s.written ++ s.writes o
          copies := s.copies ++ s.copied o } := by
  obtain ⟨scheduler, hstep, h⟩ := bind_eq_ok.mp h
  split at h
  · cases h
    exact ⟨scheduler, hstep, ‹_›, rfl⟩
  · cases h

/-- **The comparison of addresses does not change what the tasks go through**: a task that is taken for
the worker's ends after the worker has stopped. -/
theorem outStep_scheduler (hlate : ReusedLate s) (h : outStep s o = .ok s') :
    schedulerStep s.scheduler o.call = .ok s'.scheduler ∧ ReusedLate s' := by
  obtain ⟨scheduler, hstep, hallows, rfl⟩ := outStep_cases h
  have hrefs := schedulerStep_refs hstep
  have hkept : o.call ≠ .blockOn → ∀ {w}, s.scheduler.workerTask = some w →
      s.scheduler.running = false → scheduler.workerTask = some w ∧ scheduler.running = false :=
    fun ho => hrefs.stopped ho hlate.held
  have hsame : (if s.stops o then { scheduler with running := false } else scheduler) = scheduler := by
    split
    · rename_i hstops
      have hreused : s.reused ≠ none ∧ o.call ≠ .blockOn := by
        unfold OutScheduler.stops at hstops
        split at hstops
        · rw [of_decide_eq_true hstops]
          exact ⟨by simp, by simp [OutOp.call]⟩
        · cases hstops
      obtain ⟨w, hworker, hrunning⟩ := hlate.stopped hreused.1
      rw [← (hkept hreused.2 hworker hrunning).2]
    · rfl
  simp only [hsame]
  refine ⟨hstep, hrefs.workerHeld hlate.held, ?_⟩
  intro hreused
  cases o with
  | spawnReused hasOut =>
    obtain ⟨⟨w, hworker, hfree⟩, -⟩ := of_decide_eq_true hallows
    exact ⟨w, hkept (by simp [OutOp.call]) hworker (hlate.held.live w hworker hfree)⟩
  | step o =>
    by_cases ho : o = .blockOn
    · subst ho
      exact absurd rfl hreused
    · have hsame : s.nextReused (.step o) = s.reused := by
        cases o with
        | blockOn => exact absurd rfl ho
        | _ => rfl
      rw [hsame] at hreused
      obtain ⟨w, hworker, hrunning⟩ := hlate.stopped hreused
      exact ⟨w, hkept ho hworker hrunning⟩

theorem reusedLate_init : ReusedLate outInit := ⟨workerHeld_init, fun h => absurd rfl h⟩

/-! ## The copies -/

section

variable {s s' : Scheduler} {o : SchedulerOp}

/-- A node is copied to when its waker is called, if the caller copies. -/
theorem count_wakeEvents_copied {x : Nat} (node : TaskWakeNode) (copy : Bool) (out : Nat) :
    (wakeEvents x node copy).count (.copied t out) =
      (if copy = true then (node.out.map (x, ·)).toList else []).count (t, out) := by
  unfold wakeEvents
  cases node.out with
  | none => cases copy <;> rfl
  | some out' => cases copy <;> simp [List.count_cons, List.count_nil]

theorem memcpys_join {x : Nat} {node : TaskWakeNode} (h : handleJoin s x node = .ok s') (out : Nat) :
    s'.events.count (.copied t out) =
      s.events.count (.copied t out) + (s.memcpys (.join x node)).count (t, out) := by
  obtain ⟨task, htask, h⟩ := bind_eq_ok.mp h
  have htask := (handleTask_ok htask).1
  have hcount : ∀ {s₁ : Scheduler} {copy : Bool}, wakeNode s x node copy = .ok s₁ →
      s₁.events.count (.copied t out) = s.events.count (.copied t out) +
        (if copy = true then (node.out.map (x, ·)).toList else []).count (t, out) := by
    intro s₁ copy hwake
    obtain ⟨-, -, hevents⟩ := wakeNode_joiners (t := t) hwake
    rw [hevents, List.count_append, count_wakeEvents_copied]
  simp only [Scheduler.memcpys, htask]
  cases hstatus : task.status with
  | suspended | scheduled =>
    simp only [hstatus] at h
    cases h
    rfl
  | aborted =>
    simp only [hstatus] at h
    obtain ⟨s₁, hwake, h⟩ := bind_eq_ok.mp h
    obtain ⟨task₁, -, h⟩ := bind_eq_ok.mp h
    cases h
    exact hcount hwake
  | finished =>
    simp only [hstatus] at h
    rw [hcount h]
    simp only [true_and]

/-- What is logged is what is copied. -/
theorem memcpys_step (h : schedulerStep s o = .ok s') (out : Nat) :
    s'.events.count (.copied t out) =
      s.events.count (.copied t out) + (s.memcpys o).count (t, out) := by
  have hsame : s.memcpys o = [] → SameJoiners t s s' → s'.events.count (.copied t out) =
      s.events.count (.copied t out) + (s.memcpys o).count (t, out) := by
    intro hnone hsame
    rw [hnone, hsame.copied]
    rfl
  have hlogged : ∀ {es : List TaskEvent}, s.memcpys o = [] → s'.events = s.events ++ es →
      .copied t out ∉ es → s'.events.count (.copied t out) =
        s.events.count (.copied t out) + (s.memcpys o).count (t, out) := by
    intro es hnone hevents hes
    rw [hnone, hevents, List.count_append, List.count_eq_zero.mpr hes]
    rfl
  cases schedulerStep_cases h with
  | spawn hspawn =>
    obtain ⟨s₁, hadd, hspawn⟩ := bind_eq_ok.mp hspawn
    cases hspawn
    exact hlogged rfl ((taskAddEventLoop_notifies hadd).2.trans (List.append_nil _).symm) (by simp)
  | blockOn hcontrol hok =>
    obtain ⟨⟨s₁, x⟩, hspawn, hok⟩ := bind_eq_ok.mp hok
    obtain ⟨s₂, hdrop, hok⟩ := bind_eq_ok.mp hok
    cases hok
    obtain ⟨s₀, hadd, hspawn⟩ := bind_eq_ok.mp hspawn
    cases hspawn
    show s₂.events.count (.copied t out) = _
    rw [(handleDrop_joiners hdrop).2.copied, (taskAddEventLoop_notifies hadd).2]
    rfl
  | wake hok =>
    exact hlogged rfl ((taskAddEventLoop_notifies hok).2.trans (List.append_nil _).symm) (by simp)
  | abort hok => exact hsame rfl (handleAbort_joiners hok).2
  | clone hok =>
    obtain ⟨task, -, hok⟩ := bind_eq_ok.mp hok
    cases hok
    rfl
  | drop hok => exact hsame rfl (handleDrop_joiners hok).2
  | join hok => exact memcpys_join hok out
  | event hcontrol hfd heq =>
    subst heq
    rfl
  | take hcontrol hok =>
    unfold workerTake at hok
    split at hok
    · cases hok
    · obtain ⟨task, -, hok⟩ := bind_eq_ok.mp hok
      simp only at hok
      split at hok
      · cases hok
        exact hlogged rfl rfl (by simp)
      · cases hok
        exact hlogged rfl rfl (by simp)
  | ready hcontrol heq =>
    subst heq
    exact hlogged rfl rfl (by simp)
  | pending hcontrol hpoll heq =>
    subst heq
    rfl
  | cleaned hcontrol hok =>
    obtain ⟨task, -, hok⟩ := bind_eq_ok.mp hok
    split at hok
    · cases hok
      rfl
    · cases hok
      rfl
  | @wakeJoiner x node nodes hcontrol hlive hok =>
    obtain ⟨-, -, hevents⟩ := wakeNode_joiners (t := t) hok
    simp only [Scheduler.memcpys, hcontrol]
    rw [hevents, List.count_append, count_wakeEvents_copied, if_pos rfl]
  | @release x hcontrol hok =>
    unfold workerRelease at hok
    obtain ⟨s₁, hdrop, hok⟩ := bind_eq_ok.mp hok
    cases hok
    have hcount := (taskDrop_joiners (t := t) hdrop).2.copied out
    have hevents : (if s.workerTask = some x then { s with running := false } else s).events =
        s.events := by
      split
      · rfl
      · rfl
    show (s₁.events ++ [TaskEvent.released x]).count (TaskEvent.copied t out) = _
    have hnot : TaskEvent.copied t out ∉ [TaskEvent.released x] := by simp
    rw [List.count_append, hcount, hevents, List.count_eq_zero.mpr hnot]
    rfl
  | drained hcontrol hhead heq =>
    subst heq
    rfl
  | leave hcontrol heq =>
    subst heq
    rfl

end

/-! ## One step -/

section

variable {s s' : Scheduler} {o : SchedulerOp}

/-- `worker_run` takes a task that exists. -/
theorem schedulerStep_takes (h : schedulerStep s o = .ok s') (ht : s'.control.task = some t) :
    s.control.task = some t ∨ s.tasks t ≠ none := by
  have htake : o = .take → s.tasks t ≠ none := by
    rintro rfl
    cases schedulerStep_cases h with
    | take hcontrol hok =>
      unfold workerTake at hok
      split at hok
      · cases hok
      · obtain ⟨task, htask, hok⟩ := bind_eq_ok.mp hok
        have hlive := task_eq_ok.mp htask
        simp only at hok
        split at hok
        all_goals
          cases hok
          cases ht
          simp [hlive]
  cases (schedulerStep_effect h).turn with
  | idle ho hpasses =>
    generalize s.control = c at hpasses ⊢
    generalize s'.control = c' at hpasses ht
    cases hpasses with
    | same => exact Or.inl ht
    | idle hc hc' =>
      rw [hc'] at ht
      cases ht
    | pending => cases ht
    | aborted | joiner => exact Or.inl ht
  | cleaning => exact Or.inr (htake rfl)
  | polling => exact Or.inr (htake rfl)
  | ready hcontrol hcontrol' =>
    rw [hcontrol'] at ht
    rw [hcontrol]
    exact Or.inl ht
  | finish hcontrol hcontrol' =>
    rw [hcontrol'] at ht
    rw [hcontrol]
    exact Or.inl ht
  | release hcontrol hcontrol' =>
    rw [hcontrol'] at ht
    cases ht

/-- The clean-up poll of a task that is ready follows on the poll. -/
theorem schedulerStep_cleaning (h : schedulerStep s o = .ok s') (ht : s'.control = .cleaning t true) :
    s.control = .cleaning t true ∨ o = .ret .ready ∧ s.control = .polling t := by
  cases (schedulerStep_effect h).turn with
  | idle ho hpasses =>
    rw [ht] at hpasses
    generalize s.control = c at hpasses ⊢
    cases hpasses with
    | same => exact Or.inl rfl
    | idle hc hc' => cases hc'
  | cleaning _ _ hcontrol' =>
    rw [ht] at hcontrol'
    cases hcontrol'
  | polling _ _ _ _ hcontrol' =>
    rw [ht] at hcontrol'
    cases hcontrol'
  | ready hcontrol hcontrol' =>
    rw [ht] at hcontrol'
    cases hcontrol'
    exact Or.inr ⟨rfl, hcontrol⟩
  | finish _ hcontrol' =>
    rw [ht] at hcontrol'
    cases hcontrol'
  | release _ hcontrol' =>
    rw [ht] at hcontrol'
    cases hcontrol'

theorem finished_mem_joinerEvents (h : .finished ∈ s.joinerEvents t o) :
    o = .cleaned ∧ s.control = .cleaning t true := by
  unfold Scheduler.joinerEvents at h
  split at h
  · split at h <;> simp at h
  · split at h <;> simp at h
  · split at h
    · split at h <;> simp at h
    · simp at h
  · split at h <;> simp at h
  · rename_i hcontrol
    split at h
    · rename_i hx
      exact ⟨rfl, by rw [hcontrol, hx]⟩
    · simp at h
  · simp at h

theorem spawned_mem_joinerEvents {hasOut : Bool} (h : .spawned hasOut ∈ s.joinerEvents t o) :
    s.nextTask = t := by
  unfold Scheduler.joinerEvents at h
  split at h
  · split at h
    · assumption
    · simp at h
  · split at h
    · assumption
    · simp at h
  · split at h
    · split at h <;> simp at h
    · simp at h
  · split at h <;> simp at h
  · split at h <;> simp at h
  · simp at h

end

/-- What a task that has finished has written, and what was copied of it. -/
structure OutputsLaw (t : Nat) (tr : List JoinerEvent) (s : OutScheduler) : Prop where
  fresh : s.scheduler.nextTask ≤ t → s.scheduler.control.task ≠ some t
  written : .finished ∈ tr ∨ s.scheduler.control = .cleaning t true → .spawned true ∈ tr →
    t ∈ s.written
  counts : ∀ out, s.copies.countP (fun copy => copy.task = t ∧ copy.out = out) =
    s.scheduler.events.count (.copied t out)
  whole : .spawned true ∈ tr → ∀ copy ∈ s.copies, copy.task = t → copy.whole = true

section

variable {rest rest' : List TaskWakeNode}

/-- A task that something is known of was spawned before. -/
theorem spawned_mem_append {hasOut : Bool} (hjoiners : JoinersLaw t rest tr s.scheduler)
    (hs : .spawned hasOut ∈ tr ++ s.joinerEvents t o) :
    .spawned hasOut ∈ tr ∨ tr = [] ∧ s.scheduler.nextTask ≤ t := by
  rcases List.mem_append.mp hs with hs | hs
  · exact Or.inl hs
  · have hle := Nat.le_of_eq (spawned_mem_joinerEvents hs)
    exact Or.inr ⟨(hjoiners.place.fresh hle).2.2, hle⟩

theorem count_copied (s : OutScheduler) (o : OutOp) (t out : Nat) :
    (s.copied o).countP (fun copy => copy.task = t ∧ copy.out = out) =
      (s.scheduler.memcpys o.call).count (t, out) := by
  rw [OutScheduler.copied, List.countP_map, List.count]
  refine List.countP_congr ?_
  intro copy _
  simp [Prod.ext_iff]

/-- A copy is on record. -/
theorem OutputsLaw.finished {copy : OutCopy} (h : OutputsLaw t tr s)
    (hjoiners : JoinersLaw t rest tr s.scheduler) (hcopy : copy ∈ s.copies) (ht : copy.task = t) :
    .finished ∈ tr := by
  by_contra hnot
  have hzero := (hjoiners.counts.pending hnot copy.out).1
  rw [← h.counts, List.countP_eq_zero] at hzero
  exact hzero copy hcopy (by simp [ht])

/-- One step. -/
theorem outputsLaw_step (hjoiners : JoinersLaw t rest tr s.scheduler) (h : OutputsLaw t tr s)
    (hserves : ServesOutputs t s o) (hstep : schedulerStep s.scheduler o.call = .ok s'.scheduler)
    (hjoiners' : JoinersLaw t rest' (tr ++ s.joinerEvents t o) s'.scheduler)
    (hok : outStep s o = .ok s') : OutputsLaw t (tr ++ s.joinerEvents t o) s' := by
  obtain ⟨scheduler, -, -, heq⟩ := outStep_cases hok
  have hwritten : s'.written = s.written ++ s.writes o := by rw [heq]
  have hcopies : s'.copies = s.copies ++ s.copied o := by rw [heq]
  have hcounts : ∀ out, s'.copies.countP (fun copy => copy.task = t ∧ copy.out = out) =
      s'.scheduler.events.count (.copied t out) := by
    intro out
    rw [hcopies, List.countP_append, h.counts, count_copied, memcpys_step hstep]
  have hfresh : s'.scheduler.nextTask ≤ t → s.scheduler.nextTask ≤ t := by
    rcases nextTask_step hstep with ⟨-, hnext⟩ | ⟨-, hnext⟩
    · omega
    · omega
  refine ⟨?_, ?_, hcounts, ?_⟩
  · intro hle ht
    rcases schedulerStep_takes hstep ht with ht | hlive
    · exact h.fresh (hfresh hle) ht
    · exact hlive (hjoiners.place.fresh (hfresh hle)).1
  · intro hends hs
    rw [hwritten, List.mem_append]
    have hbefore : .finished ∈ tr ∨ s.scheduler.control = .cleaning t true →
        t ∈ s.written := by
      intro hends
      refine h.written hends ((spawned_mem_append hjoiners hs).resolve_right ?_)
      rintro ⟨rfl, hle⟩
      rcases hends with hf | hcleaning
      · cases hf
      · exact h.fresh hle (by rw [hcleaning]; rfl)
    rcases hends with hf | hcleaning
    · rcases List.mem_append.mp hf with hf | hf
      · exact Or.inl (hbefore (Or.inl hf))
      · exact Or.inl (hbefore (Or.inr (finished_mem_joinerEvents hf).2))
    · rcases schedulerStep_cleaning hstep hcleaning with hcleaning | ⟨ho, hpolling⟩
      · exact Or.inl (hbefore (Or.inr hcleaning))
      · -- the poll has written to the `out` that it was given
        have ho : o = .step (.ret .ready) := by
          cases o with
          | step o => exact congrArg OutOp.step ho
          | spawnReused hasOut => cases ho
        subst ho
        have hs : .spawned true ∈ tr := by
          refine (spawned_mem_append hjoiners hs).resolve_right ?_
          rintro ⟨-, hle⟩
          exact h.fresh hle (by rw [hpolling]; rfl)
        have hplace : s.place = .own := by
          refine (hserves.2 rfl hpolling).resolve_right ?_
          rintro ⟨task, htask, hnone⟩
          rw [hjoiners.place.hasOut hs task htask] at hnone
          cases hnone
        right
        simp only [OutScheduler.writes, hpolling, hplace, if_true, List.mem_singleton]
  · intro hs copy hcopy ht
    have hbefore : .finished ∈ tr → .spawned true ∈ tr := by
      intro hf
      refine (spawned_mem_append hjoiners hs).resolve_right ?_
      rintro ⟨rfl, -⟩
      cases hf
    rw [hcopies] at hcopy
    rcases List.mem_append.mp hcopy with hold | hnew
    · exact h.whole (hbefore (h.finished hjoiners hold ht)) copy hold ht
    · obtain ⟨⟨x, out⟩, hmem, rfl⟩ := List.mem_map.mp hnew
      obtain rfl : x = t := ht
      have hf : .finished ∈ tr ++ s.joinerEvents x o := by
        by_contra hnot
        have hzero := (hjoiners'.counts.pending hnot out).1
        rw [memcpys_step hstep] at hzero
        have hpos := List.count_pos_iff.mpr hmem
        omega
      rcases List.mem_append.mp hf with hf | hf
      · exact List.contains_iff_mem.mpr (h.written (Or.inl hf) (hbefore hf))
      · -- the step that sets the status copies nothing
        rw [(finished_mem_joinerEvents hf).1] at hmem
        cases hmem

end

/-! ## Runs -/

theorem outputsLaw_init (t : Nat) : OutputsLaw t [] outInit where
  fresh _ := by simp [outInit, schedulerInit, Control.task]
  written _ hs := by cases hs
  counts _ := rfl
  whole hs := by cases hs

/-- Joins while the task is scheduled and after it finished, and another task in the memory of the main
task, which has ended. -/
def servedOutOps : List OutOp :=
  [.step .blockOn, .step .event, .step .take, .step (.spawn true), .step (.spawn true),
    .step (.ret .ready), .step .cleaned, .step .release,
    .step .take, .spawnReused true, .step (.wake 1), .step (.ret .pending),
    .step .take, .step (.join 1 ⟨2, some 7⟩), .step (.join 1 ⟨2, none⟩), .step (.ret .pending),
    .step .take, .step (.ret .pending),
    .step .take, .step (.ret .ready), .step .cleaned, .step .wakeJoiner,
    .step (.join 1 ⟨2, some 8⟩), .step .wakeJoiner, .step .release]

/-- The main task waits for task 2, and task 1 aborts it. -/
def abortedJoin : List OutOp :=
  [.step .blockOn, .step .event, .step .take, .step (.spawn true), .step (.spawn true),
    .step (.clone 2), .step (.join 2 ⟨0, none⟩), .step (.drop 2), .step (.ret .pending),
    .step .take, .step (.abort 2), .step (.ret .pending),
    .step .take, .step .cleaned, .step .release, .step .drained]

/-- The main task aborts task 1 and then waits for it. -/
def lateJoin : List OutOp :=
  [.step .blockOn, .step .event, .step .take, .step (.spawn true), .step (.abort 1),
    .step (.join 1 ⟨0, none⟩), .step (.drop 1), .step (.ret .pending),
    .step .take, .step .cleaned, .step .release]

/-- The main task has ended, and task 1 spawns task 2 in its memory and waits for it. -/
def reusedJoin : List OutOp :=
  [.step .blockOn, .step .event, .step .take, .step (.spawn true), .step (.ret .ready),
    .step .cleaned, .step .release,
    .step .take, .spawnReused true, .step (.join 2 ⟨1, some 7⟩), .step (.ret .pending),
    .step .take, .step (.ret .ready), .step .cleaned, .step .wakeJoiner, .step .release]

end Taskio
