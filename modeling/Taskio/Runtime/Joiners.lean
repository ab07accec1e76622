import Taskio.Runtime.Notification

/-!
# The joiners of a task

`taskio_handle_join` links a node into the task's wake list; when the task has finished, the list is
walked, and a later join is served at once. The branch of `worker_run` for an aborted task leaves the
list as it is.

* `JoinerEvent` — what a step does to the joins and to the nodes of one task
* `JoinersServed` — what the joiners are promised when the task's turn has ended
* `ServesJoiners` — the condition on a step
* `JoinersLaw` — the nodes still linked make up for the wakers not called yet
-/

namespace Taskio

variable {s s' s'' : Scheduler} {t : Nat} {o : SchedulerOp} {tr : List JoinerEvent}
  {rest : List TaskWakeNode}

/-! ## What the joiners see -/

/-- What happens to the joins on one task, and to its nodes. -/
inductive JoinerEvent where
  | spawned (hasOut : Bool)
  /-- `taskio_handle_join` is called with the node's waker and `out` -/
  | joined (node : TaskWakeNode)
  /-- the node is allocated -/
  | linked (node : TaskWakeNode)
  /-- the node is freed -/
  | unlinked (node : TaskWakeNode)
  /-- the status is set to finished -/
  | finished
deriving DecidableEq, Repr

/-- What a step does to the joins on `t`. -/
def Scheduler.joinerEvents (t : Nat) (s : Scheduler) (o : SchedulerOp) : List JoinerEvent :=
  match o, s.control with
  | .spawn hasOut, _ => if s.nextTask = t then [.spawned hasOut] else []
  | .blockOn, _ => if s.nextTask = t then [.spawned false] else []
  | .join x node, _ =>
    if x = t then
      if (s.tasks x).map (·.status) = some .finished then [.joined node]
      else [.joined node, .linked node]
    else []
  | .wakeJoiner, .waking x (node :: _) => if x = t then [.unlinked node] else []
  | .cleaned, .cleaning x true => if x = t then [.finished] else []
  | _, _ => []

def JoinerEvent.joined? : JoinerEvent → Option TaskWakeNode
  | .joined node => some node
  | _ => none

/-- The nodes passed to joins. -/
def joinedNodes (tr : List JoinerEvent) : List TaskWakeNode := tr.filterMap JoinerEvent.joined?

/-- What is promised when the turn of the task has ended. -/
structure JoinersServed (t : Nat) (tr : List JoinerEvent) (s : Scheduler) : Prop where
  /-- each waker is called as often as it was passed to a join -/
  woken : ∀ w, (joinedNodes tr).countP (·.waker = w) = s.events.count (.joinerWoken t w)
  /-- no node is left allocated -/
  freed : ∀ node, tr.count (.linked node) = tr.count (.unlinked node)
  /-- the output of a task that has finished is copied once for each `out` -/
  filled : .finished ∈ tr → .spawned true ∈ tr →
    ∀ out, (joinedNodes tr).countP (·.out = some out) = s.events.count (.copied t out)
  /-- nothing is copied otherwise -/
  untouched : .finished ∉ tr → ∀ out, .copied t out ∉ s.events

/-- The wake list was walked or given up, or is being. -/
def Scheduler.Closed (s : Scheduler) (t : Nat) : Prop :=
  .cleanedUp t ∈ s.events ∧ ¬ (s.control = .cleaning t true ∧ s.events.count (.cleanedUp t) = 1)

/-- The list is still to be walked when a node is linked, and it is when the task's turn ends. -/
def ServesJoiners (t : Nat) (s : Scheduler) (o : SchedulerOp) : Prop :=
  match o with
  | .join x _ => x = t → ∀ task ∈ s.tasks t, task.status = .finished ∨
      (task.status = .suspended ∨ task.status = .scheduled) ∧ ¬ s.Closed t
  | .take => s.pollHead = some t → ∀ task ∈ s.tasks t, task.status = .aborted →
      task.wakeOnReady = [] ∨ .cleanedUp t ∈ s.events
  | .cleaned => s.control = .cleaning t true → ∀ task ∈ s.tasks t,
      task.wakeOnReady = [] ∨ s.events.count (.cleanedUp t) = 1
  | _ => True

instance (s : Scheduler) (t : Nat) : Decidable (s.Closed t) := inferInstanceAs (Decidable (_ ∧ _))

instance (t : Nat) (s : Scheduler) (o : SchedulerOp) : Decidable (ServesJoiners t s o) := by
  cases o <;> unfold ServesJoiners <;> infer_instance

/-! ## The invariant -/

/-- The nodes `rest` make up for the wakers that are not called yet. -/
structure JoinersCounts (t : Nat) (rest : List TaskWakeNode) (tr : List JoinerEvent)
    (events : List TaskEvent) : Prop where
  woken : ∀ w, (joinedNodes tr).countP (·.waker = w) =
    events.count (.joinerWoken t w) + rest.countP (·.waker = w)
  freed : ∀ node, tr.count (.linked node) = tr.count (.unlinked node) + rest.count node
  filled : .finished ∈ tr → .spawned true ∈ tr → ∀ out, (joinedNodes tr).countP (·.out = some out) =
    events.count (.copied t out) + rest.countP (·.out = some out)
  pending : .finished ∉ tr → ∀ out, events.count (.copied t out) = 0 ∧
    (joinedNodes tr).countP (·.out = some out) = rest.countP (·.out = some out)

/-- The nodes `rest` are the task's list until it is closed, and then what is left of the walk. -/
structure JoinersPlace (t : Nat) (rest : List TaskWakeNode) (tr : List JoinerEvent) (s : Scheduler) :
    Prop where
  hasOut : .spawned true ∈ tr → ∀ task, s.tasks t = some task → task.hasOut = true
  finished : ∀ task, s.tasks t = some task → task.status = .finished → .finished ∈ tr
  walking : ∀ nodes, s.control = .waking t nodes →
    rest = nodes ∧ .cleanedUp t ∈ s.events ∧ (nodes = [] ∨ .finished ∈ tr)
  cleaning : ∀ ready, s.control = .cleaning t ready → .cleanedUp t ∈ s.events
  linked : ¬ s.Closed t → ∀ task, s.tasks t = some task → task.wakeOnReady = rest
  closed : s.Closed t → (∀ nodes, s.control ≠ .waking t nodes) → rest = []
  ended : .released t ∈ s.events → s.Closed t ∧ rest = []
  fresh : s.nextTask ≤ t → s.tasks t = none ∧ rest = [] ∧ tr = []

structure JoinersLaw (t : Nat) (rest : List TaskWakeNode) (tr : List JoinerEvent) (s : Scheduler) :
    Prop where
  counts : JoinersCounts t rest tr s.events
  place : JoinersPlace t rest tr s

/-- What the joiners of `t` see of a task is as it was, or the task is freed. -/
structure KeepsJoiners (t : Nat) (s s' : Scheduler) : Prop where
  task : ∀ task', s'.tasks t = some task' → ∃ task, s.tasks t = some task ∧
    task'.wakeOnReady = task.wakeOnReady ∧ task'.hasOut = task.hasOut ∧
    (task'.status = .finished → task.status = .finished)
  nextTask : s.nextTask ≤ s'.nextTask

/-- The turn of `t` is where it was. -/
structure SameTurn (t : Nat) (s s' : Scheduler) : Prop where
  cleaned : s'.events.count (.cleanedUp t) = s.events.count (.cleanedUp t)
  released : .released t ∈ s'.events → .released t ∈ s.events
  walking : ∀ nodes, s'.control = .waking t nodes ↔ s.control = .waking t nodes
  cleaning : ∀ ready, s'.control = .cleaning t ready ↔ s.control = .cleaning t ready

/-- No joiner of `t` is called. -/
structure SameJoiners (t : Nat) (s s' : Scheduler) : Prop extends SameTurn t s s' where
  woken : ∀ w, s'.events.count (.joinerWoken t w) = s.events.count (.joinerWoken t w)
  copied : ∀ out, s'.events.count (.copied t out) = s.events.count (.copied t out)

theorem SameTurn.cleanedUp_iff (h : SameTurn t s s') :
    .cleanedUp t ∈ s'.events ↔ .cleanedUp t ∈ s.events := by
  rw [← List.count_pos_iff, h.cleaned, List.count_pos_iff]

theorem SameTurn.closed_iff (h : SameTurn t s s') : s'.Closed t ↔ s.Closed t := by
  unfold Scheduler.Closed
  rw [h.cleaning, h.cleaned, h.cleanedUp_iff]

theorem SameTurn.trans (h : SameTurn t s s') (h' : SameTurn t s' s'') : SameTurn t s s'' where
  cleaned := h'.cleaned.trans h.cleaned
  released := h.released ∘ h'.released
  walking nodes := (h'.walking nodes).trans (h.walking nodes)
  cleaning ready := (h'.cleaning ready).trans (h.cleaning ready)

theorem SameJoiners.trans (h : SameJoiners t s s') (h' : SameJoiners t s' s'') :
    SameJoiners t s s'' where
  toSameTurn := h.toSameTurn.trans h'.toSameTurn
  woken w := (h'.woken w).trans (h.woken w)
  copied out := (h'.copied out).trans (h.copied out)

/-- A step that does not touch the list of `t`. -/
theorem JoinersPlace.frame (h : JoinersPlace t rest tr s) (hkeeps : KeepsJoiners t s s')
    (hsame : SameTurn t s s') : JoinersPlace t rest tr s' where
  hasOut hs task' htask' := by
    obtain ⟨task, htask, -, hout, -⟩ := hkeeps.task task' htask'
    rw [hout]
    exact h.hasOut hs task htask
  finished task' htask' hstatus := by
    obtain ⟨task, htask, -, -, hfinished⟩ := hkeeps.task task' htask'
    exact h.finished task htask (hfinished hstatus)
  walking nodes hcontrol := by
    rw [hsame.cleanedUp_iff]
    exact h.walking nodes ((hsame.walking nodes).mp hcontrol)
  cleaning ready hcontrol := by
    rw [hsame.cleanedUp_iff]
    exact h.cleaning ready ((hsame.cleaning ready).mp hcontrol)
  linked hopen task' htask' := by
    obtain ⟨task, htask, hnodes, -⟩ := hkeeps.task task' htask'
    rw [hnodes]
    exact h.linked (mt hsame.closed_iff.mpr hopen) task htask
  closed hclosed hnot :=
    h.closed (hsame.closed_iff.mp hclosed) fun nodes => mt (hsame.walking nodes).mpr (hnot nodes)
  ended hreleased := by
    rw [hsame.closed_iff]
    exact h.ended (hsame.released hreleased)
  fresh hle := by
    obtain ⟨hnone, hrest, htr⟩ := h.fresh (Nat.le_trans hkeeps.nextTask hle)
    refine ⟨?_, hrest, htr⟩
    cases hget : s'.tasks t with
    | none => rfl
    | some task' =>
      obtain ⟨task, htask, -⟩ := hkeeps.task task' hget
      rw [hnone] at htask
      cases htask

/-- A step that the joiners of `t` do not see. -/
theorem JoinersLaw.frame (h : JoinersLaw t rest tr s) (hkeeps : KeepsJoiners t s s')
    (hsame : SameJoiners t s s') : JoinersLaw t rest tr s' where
  counts :=
    { woken := fun w => by rw [hsame.woken]; exact h.counts.woken w
      freed := h.counts.freed
      filled := fun hf hs out => by rw [hsame.copied]; exact h.counts.filled hf hs out
      pending := fun hf out => by rw [hsame.copied]; exact h.counts.pending hf out }
  place := h.place.frame hkeeps hsame.toSameTurn

/-- The event is about the joiners of `t`, or ends its turn. -/
def TaskEvent.Concerns (t : Nat) : TaskEvent → Prop
  | .cleanedUp x | .released x | .joinerWoken x _ | .copied x _ => x = t
  | .polled _ | .freed _ => False

/-- `worker_run` is in the clean-up of `t`, or in its wake list. -/
def Control.Ends (t : Nat) : Control → Prop
  | .waking x _ | .cleaning x _ => x = t
  | _ => False

theorem SameTurn.of_control (hcleaned : s'.events.count (.cleanedUp t) = s.events.count (.cleanedUp t))
    (hreleased : .released t ∈ s'.events → .released t ∈ s.events)
    (hcontrol : s'.control = s.control ∨ ¬ s.control.Ends t ∧ ¬ s'.control.Ends t) :
    SameTurn t s s' := by
  refine ⟨hcleaned, hreleased, ?_, ?_⟩
  · intro nodes
    rcases hcontrol with hsame | ⟨hnot, hnot'⟩
    · rw [hsame]
    · exact iff_of_false (fun he => hnot' (he ▸ rfl)) fun he => hnot (he ▸ rfl)
  · intro ready
    rcases hcontrol with hsame | ⟨hnot, hnot'⟩
    · rw [hsame]
    · exact iff_of_false (fun he => hnot' (he ▸ rfl)) fun he => hnot (he ▸ rfl)

theorem SameJoiners.of_events {es : List TaskEvent} (h : s'.events = s.events ++ es)
    (hes : ∀ e ∈ es, ¬ e.Concerns t)
    (hcontrol : s'.control = s.control ∨ ¬ s.control.Ends t ∧ ¬ s'.control.Ends t) :
    SameJoiners t s s' := by
  have hcount : ∀ e : TaskEvent, e.Concerns t → s'.events.count e = s.events.count e := by
    intro e he
    rw [h, List.count_append, List.count_eq_zero.mpr fun hmem => hes e hmem he, Nat.add_zero]
  refine ⟨.of_control (hcount _ rfl) ?_ hcontrol, fun w => hcount _ rfl,
    fun out => hcount _ rfl⟩
  intro hmem
  rw [h, List.mem_append] at hmem
  exact hmem.resolve_right fun hnew => hes _ hnew rfl

/-- Nothing is logged. -/
theorem SameJoiners.of_same (h : s'.events = s.events)
    (hcontrol : s'.control = s.control ∨ ¬ s.control.Ends t ∧ ¬ s'.control.Ends t) :
    SameJoiners t s s' :=
  .of_events (h.trans (List.append_nil _).symm) (fun _ he => absurd he List.not_mem_nil) hcontrol

/-! ## The calls of the program -/

theorem KeepsJoiners.refl (t : Nat) (s : Scheduler) : KeepsJoiners t s s :=
  ⟨fun task htask => ⟨task, htask, rfl, rfl, id⟩, Nat.le_refl _⟩

theorem KeepsJoiners.trans (h : KeepsJoiners t s s') (h' : KeepsJoiners t s' s'') :
    KeepsJoiners t s s'' := by
  refine ⟨?_, Nat.le_trans h.nextTask h'.nextTask⟩
  intro task'' htask''
  obtain ⟨task', htask', hnodes', hout', hstatus'⟩ := h'.task task'' htask''
  obtain ⟨task, htask, hnodes, hout, hstatus⟩ := h.task task' htask'
  exact ⟨task, htask, hnodes'.trans hnodes, hout'.trans hout, hstatus ∘ hstatus'⟩

theorem KeepsJoiners.of_tasks (h : s'.tasks = s.tasks) (hnext : s'.nextTask = s.nextTask) :
    KeepsJoiners t s s' :=
  ⟨fun task htask => ⟨task, h ▸ htask, rfl, rfl, id⟩, Nat.le_of_eq hnext.symm⟩

theorem setTask_tasks (s : Scheduler) (x : Nat) (task : Option Task) (t : Nat) :
    (s.setTask x task).tasks t = if t = x then task else s.tasks t :=
  Function.update_apply ..

/-- The other fields of a task. -/
theorem keepsJoiners_setTask {x : Nat} {task task' : Task} (htask : s.tasks x = some task)
    (hnodes : task'.wakeOnReady = task.wakeOnReady) (hout : task'.hasOut = task.hasOut)
    (hstatus : task'.status = .finished → task.status = .finished) :
    KeepsJoiners t s (s.setTask x (some task')) := by
  refine ⟨?_, Nat.le_refl _⟩
  intro task₁ htask₁
  rw [setTask_tasks] at htask₁
  by_cases hx : t = x
  · rw [if_pos hx] at htask₁
    cases htask₁
    exact ⟨task, hx ▸ htask, hnodes, hout, hstatus⟩
  · rw [if_neg hx] at htask₁
    exact ⟨task₁, htask₁, rfl, rfl, id⟩

theorem taskAddEventLoop_joiners {x : Nat} (h : taskAddEventLoop s x = .ok s') :
    KeepsJoiners t s s' := by
  obtain ⟨v, hview, ⟨-, rfl⟩ | ⟨-, henq, hrest⟩⟩ := taskAddEventLoop_ok h
  · exact KeepsJoiners.refl t s'
  · refine ⟨?_, Nat.le_of_eq henq.nextTask.symm⟩
    intro task' htask'
    have hmap := hrest.tasks t
    rw [htask'] at hmap
    obtain ⟨task, htask, heq⟩ := Option.map_eq_some_iff.mp hmap.symm
    have hnodes : task.rest.wakeOnReady = task'.rest.wakeOnReady := by rw [heq]
    have hout : task.rest.hasOut = task'.rest.hasOut := by rw [heq]
    refine ⟨task, htask, hnodes.symm, hout.symm, ?_⟩
    intro hfinished
    -- linking makes no task finished
    have hview' := henq.view t
    rw [view_of_task htask', view_of_task htask, Option.map_some, Option.some.injEq,
      Prod.mk.injEq] at hview'
    rw [hfinished] at hview'
    split at hview'
    · cases hview'.1
    · exact hview'.1.symm

theorem taskDrop_joiners {x : Nat} (h : taskDrop s x = .ok s') :
    KeepsJoiners t s s' ∧ SameJoiners t s s' := by
  obtain ⟨task, htask, h⟩ := bind_eq_ok.mp h
  simp only at h
  split at h
  · cases h
    refine ⟨⟨?_, Nat.le_refl _⟩, .of_events rfl (by simp [TaskEvent.Concerns])
      (Or.inl rfl)⟩
    intro task' htask'
    have hget : (s.setTask x none).tasks t = some task' := htask'
    rw [setTask_tasks] at hget
    split at hget
    · cases hget
    · exact ⟨task', hget, rfl, rfl, id⟩
  · cases h
    exact ⟨keepsJoiners_setTask (task_eq_ok.mp htask) rfl rfl id, .of_same rfl (Or.inl rfl)⟩

theorem handleDrop_joiners {x : Nat} (h : handleDrop s x = .ok s') :
    KeepsJoiners t s s' ∧ SameJoiners t s s' := by
  obtain ⟨task, htask, h⟩ := bind_eq_ok.mp h
  have hmark : KeepsJoiners t s (s.setTask x (some { task with handles := task.handles - 1 })) :=
    keepsJoiners_setTask (handleTask_ok htask).1 rfl rfl id
  obtain ⟨hkeeps, hsame⟩ := taskDrop_joiners h
  refine ⟨hmark.trans hkeeps, SameJoiners.trans ?_ hsame⟩
  exact .of_same rfl (Or.inl rfl)

theorem handleAbort_joiners {x : Nat} (h : handleAbort s x = .ok s') :
    KeepsJoiners t s s' ∧ SameJoiners t s s' := by
  obtain ⟨task, htask, h⟩ := bind_eq_ok.mp h
  have htask := (handleTask_ok htask).1
  have hmark : KeepsJoiners t s (s.setTask x (some { task with status := .aborted })) :=
    keepsJoiners_setTask htask rfl rfl (by simp)
  cases hstatus : task.status with
  | suspended =>
    simp only [hstatus] at h
    split at h
    · cases h
      exact ⟨hmark, .of_same rfl (Or.inl rfl)⟩
    · obtain ⟨hnotifies, hevents⟩ := taskAddEventLoop_notifies h
      exact ⟨hmark.trans (taskAddEventLoop_joiners h),
        .of_same hevents (Or.inl hnotifies.control)⟩
  | scheduled =>
    simp only [hstatus] at h
    split at h
    · cases h
      exact ⟨KeepsJoiners.refl t s, .of_same rfl (Or.inl rfl)⟩
    · cases h
      exact ⟨hmark, .of_same rfl (Or.inl rfl)⟩
  | aborted | finished =>
    simp only [hstatus] at h
    cases h
    exact ⟨KeepsJoiners.refl t s, .of_same rfl (Or.inl rfl)⟩

/-- What `wakeNode` logs. -/
def wakeEvents (t : Nat) (node : TaskWakeNode) (copy : Bool) : List TaskEvent :=
  match node.out with
  | some out => if copy then [.copied t out, .joinerWoken t node.waker] else [.joinerWoken t node.waker]
  | none => [.joinerWoken t node.waker]

theorem wakeNode_joiners {x : Nat} {node : TaskWakeNode} {copy : Bool}
    (h : wakeNode s x node copy = .ok s') :
    KeepsJoiners t s s' ∧ s'.control = s.control ∧ s'.events = s.events ++ wakeEvents x node copy := by
  unfold wakeNode at h
  obtain ⟨hnotifies, hevents⟩ := taskAddEventLoop_notifies h
  have hkeeps := taskAddEventLoop_joiners (t := t) h
  have hlogged : ∀ {s₁ : Scheduler}, KeepsJoiners t s₁ s' → s₁.tasks = s.tasks →
      s₁.nextTask = s.nextTask → KeepsJoiners t s s' :=
    fun h htasks hnext => (KeepsJoiners.of_tasks htasks hnext).trans h
  unfold wakeEvents
  cases hout : node.out with
  | none =>
    rw [hout] at hnotifies hevents hkeeps
    exact ⟨hlogged hkeeps rfl rfl, hnotifies.control, hevents⟩
  | some out =>
    rw [hout] at hnotifies hevents hkeeps
    cases copy with
    | false =>
      exact ⟨hlogged hkeeps rfl rfl, hnotifies.control, hevents⟩
    | true =>
      refine ⟨hlogged hkeeps rfl rfl, hnotifies.control, hevents.trans ?_⟩
      show s.events ++ [_] ++ [_] = _
      rw [List.append_assoc]
      rfl

/-- The counts of what it logs. -/
theorem count_wakeEvents (t : Nat) (node : TaskWakeNode) (copy : Bool) :
    (∀ w, (wakeEvents t node copy).count (.joinerWoken t w) = if node.waker = w then 1 else 0) ∧
      (∀ out, (wakeEvents t node copy).count (.copied t out) =
        if copy = true ∧ node.out = some out then 1 else 0) ∧
      (wakeEvents t node copy).count (.cleanedUp t) = 0 ∧
      .released t ∉ wakeEvents t node copy := by
  unfold wakeEvents
  cases hout : node.out with
  | none => simp [List.count_cons, List.count_nil]
  | some out =>
    cases copy with
    | false => simp [List.count_cons, List.count_nil]
    | true => simp [List.count_cons, List.count_nil]

/-- They are about the task. -/
theorem wakeEvents_concerns {x : Nat} {node : TaskWakeNode} {copy : Bool} (hx : x ≠ t) :
    ∀ e ∈ wakeEvents x node copy, ¬ e.Concerns t := by
  intro e he
  unfold wakeEvents at he
  cases hout : node.out with
  | none =>
    rw [hout] at he
    rw [List.mem_singleton.mp he]
    exact hx
  | some out =>
    rw [hout] at he
    cases copy with
    | false =>
      rw [List.mem_singleton.mp he]
      exact hx
    | true =>
      rcases List.mem_cons.mp he with rfl | he
      · exact hx
      · rw [List.mem_singleton.mp he]
        exact hx

/-- Another task is overwritten. -/
theorem keepsJoiners_setTask_ne {x : Nat} (hx : t ≠ x) (task : Option Task) :
    KeepsJoiners t s (s.setTask x task) := by
  refine ⟨?_, Nat.le_refl _⟩
  intro task' htask'
  rw [setTask_tasks, if_neg hx] at htask'
  exact ⟨task', htask', rfl, rfl, id⟩

/-! ## Steps of the program -/

theorem joinedNodes_append (tr tr' : List JoinerEvent) :
    joinedNodes (tr ++ tr') = joinedNodes tr ++ joinedNodes tr' := List.filterMap_append

/-- The events are of other kinds. -/
theorem JoinersPlace.of_trace {tr' : List JoinerEvent} (h : JoinersPlace t rest tr s)
    (hlive : s.tasks t ≠ none) (hf : .finished ∈ tr → .finished ∈ tr')
    (hs : .spawned true ∈ tr' → .spawned true ∈ tr) : JoinersPlace t rest tr' s where
  hasOut := h.hasOut ∘ hs
  finished task htask hstatus := hf (h.finished task htask hstatus)
  walking nodes hcontrol := by
    obtain ⟨hrest, hcleaned, hall⟩ := h.walking nodes hcontrol
    exact ⟨hrest, hcleaned, hall.imp_right hf⟩
  cleaning := h.cleaning
  linked := h.linked
  closed := h.closed
  ended := h.ended
  fresh hle := absurd (h.fresh hle).1 hlive

theorem JoinersLaw.spawn {hasOut : Bool} {x : Nat} (h : JoinersLaw t rest tr s)
    (hok : runtimeSpawn s hasOut = .ok (s', x)) :
    JoinersLaw t rest (tr ++ if s.nextTask = t then [.spawned hasOut] else []) s' := by
  obtain ⟨s₁, hadd, hok⟩ := bind_eq_ok.mp hok
  cases hok
  obtain ⟨hnotifies, hevents⟩ := taskAddEventLoop_notifies hadd
  refine JoinersLaw.frame ?_ (taskAddEventLoop_joiners hadd)
    (.of_same hevents (Or.inl hnotifies.control))
  by_cases hx : s.nextTask = t
  · obtain ⟨hnone, rfl, rfl⟩ := h.place.fresh (Nat.le_of_eq hx)
    rw [if_pos hx, List.nil_append]
    obtain ⟨⟨hwoken, hfreed, -, hpending⟩, hplace⟩ := h
    have hget : ∀ task : Task, (s.setTask s.nextTask
        (some ⟨2, .suspended, false, [], hasOut, none, 1⟩)).tasks t = some task →
        task = ⟨2, .suspended, false, [], hasOut, none, 1⟩ := by
      intro task htask
      rw [setTask_tasks, if_pos hx.symm] at htask
      exact (Option.some.inj htask).symm
    refine ⟨⟨hwoken, hfreed, ?_, fun _ => hpending List.not_mem_nil⟩,
      ?_, ?_, ?_,
      hplace.cleaning, ?_, hplace.closed, hplace.ended, ?_⟩
    · intro hf
      simp at hf
    · intro hs task htask
      rw [hget task htask]
      rw [List.mem_singleton] at hs
      cases hs
      rfl
    · intro task htask hstatus
      rw [hget task htask] at hstatus
      cases hstatus
    · intro nodes hcontrol
      obtain ⟨hnodes, hcleaned, hall⟩ := hplace.walking nodes hcontrol
      exact ⟨hnodes, hcleaned, hall.imp_right fun hmem => absurd hmem List.not_mem_nil⟩
    · intro hopen task htask
      rw [hget task htask]
    · intro hle
      exact absurd hle (by show ¬ s.nextTask + 1 ≤ t; omega)
  · rw [if_neg hx, List.append_nil]
    refine h.frame ⟨?_, Nat.le_succ _⟩ (.of_same rfl (Or.inl rfl))
    intro task' htask'
    have hget : (s.setTask s.nextTask _).tasks t = some task' := htask'
    rw [setTask_tasks, if_neg (Ne.symm hx)] at hget
    exact ⟨task', hget, rfl, rfl, id⟩

theorem joinerEvents_join_ne {x : Nat} {node : TaskWakeNode} (hx : x ≠ t) :
    s.joinerEvents t (.join x node) = [] := by
  simp only [Scheduler.joinerEvents]
  rw [if_neg hx]

/-- A join on another task. -/
theorem handleJoin_other {x : Nat} {node : TaskWakeNode} (hx : x ≠ t)
    (h : handleJoin s x node = .ok s') : KeepsJoiners t s s' ∧ SameJoiners t s s' := by
  obtain ⟨task, htask, h⟩ := bind_eq_ok.mp h
  have hwake : ∀ {s₁ : Scheduler} {copy : Bool}, wakeNode s x node copy = .ok s₁ →
      KeepsJoiners t s s₁ ∧ SameJoiners t s s₁ := by
    intro s₁ copy hwake
    obtain ⟨hkeeps, hcontrol, hevents⟩ := wakeNode_joiners hwake
    exact ⟨hkeeps, .of_events hevents (wakeEvents_concerns hx) (Or.inl hcontrol)⟩
  cases hstatus : task.status with
  | suspended | scheduled =>
    simp only [hstatus] at h
    cases h
    exact ⟨keepsJoiners_setTask_ne (Ne.symm hx) _, .of_same rfl (Or.inl rfl)⟩
  | aborted =>
    simp only [hstatus] at h
    obtain ⟨s₁, hwoken, h⟩ := bind_eq_ok.mp h
    obtain ⟨task₁, -, h⟩ := bind_eq_ok.mp h
    cases h
    obtain ⟨hkeeps, hsame⟩ := hwake hwoken
    exact ⟨hkeeps.trans (keepsJoiners_setTask_ne (Ne.symm hx) _),
      hsame.trans (.of_same rfl (Or.inl rfl))⟩
  | finished =>
    simp only [hstatus] at h
    exact hwake h

/-! ## The counts -/

section Counts

variable {events : List TaskEvent} {node : TaskWakeNode}

/-- A join that is served at once. -/
theorem JoinersCounts.serve {copy : Bool} (h : JoinersCounts t rest tr events)
    (hf : .finished ∈ tr) (hcopy : .spawned true ∈ tr → copy = true) :
    JoinersCounts t rest (tr ++ [.joined node]) (events ++ wakeEvents t node copy) := by
  obtain ⟨hwoken, hcopied, -⟩ := count_wakeEvents t node copy
  have hnodes : joinedNodes (tr ++ [.joined node]) = joinedNodes tr ++ [node] :=
    joinedNodes_append _ _
  refine ⟨?_, ?_, ?_, ?_⟩
  · intro w
    rw [hnodes, List.countP_append, List.count_append, hwoken, h.woken]
    by_cases hw : node.waker = w
    · simp only [List.countP_singleton, hw, decide_true, if_true]
      omega
    · simp [hw]
  · intro n
    rw [List.count_append, List.count_append]
    simpa using h.freed n
  · intro _ hs out
    have hs' : .spawned true ∈ tr := by simpa using hs
    rw [hnodes, List.countP_append, List.count_append, hcopied, h.filled hf hs', hcopy hs']
    by_cases hout : node.out = some out
    · simp only [List.countP_singleton, hout, decide_true, if_true, true_and]
      omega
    · simp [hout]
  · intro hnot
    exact absurd (List.mem_append_left _ hf) hnot

/-- A join whose node is linked. -/
theorem JoinersCounts.link (h : JoinersCounts t rest tr events) :
    JoinersCounts t (node :: rest) (tr ++ [.joined node, .linked node]) events := by
  have hnodes : joinedNodes (tr ++ [.joined node, .linked node]) = joinedNodes tr ++ [node] :=
    joinedNodes_append _ _
  refine ⟨?_, ?_, ?_, ?_⟩
  · intro w
    rw [hnodes, List.countP_append, List.countP_singleton, List.countP_cons, h.woken]
    omega
  · intro n
    rw [List.count_append, List.count_append, h.freed, List.count_cons]
    by_cases hn : node = n
    · simp only [hn, List.count_cons, List.count_nil, beq_self_eq_true, if_true]
      simp
      omega
    · simp [hn]
  · intro hf hs out
    rw [hnodes, List.countP_append, List.countP_singleton, List.countP_cons,
      h.filled (by simpa using hf) (by simpa using hs)]
    omega
  · intro hnot out
    obtain ⟨hzero, heq⟩ := h.pending (by simpa using hnot) out
    refine ⟨hzero, ?_⟩
    rw [hnodes, List.countP_append, List.countP_singleton, List.countP_cons, heq]

/-- A turn of the walk: the node's waker is called and the node is freed. -/
theorem JoinersCounts.walk (h : JoinersCounts t (node :: rest) tr events) (hf : .finished ∈ tr) :
    JoinersCounts t rest (tr ++ [.unlinked node]) (events ++ wakeEvents t node true) := by
  obtain ⟨hwoken, hcopied, -⟩ := count_wakeEvents t node true
  have hnodes : joinedNodes (tr ++ [.unlinked node]) = joinedNodes tr := by
    rw [joinedNodes_append]
    exact List.append_nil _
  refine ⟨?_, ?_, ?_, ?_⟩
  · intro w
    rw [hnodes, List.count_append, hwoken, h.woken, List.countP_cons]
    by_cases hw : node.waker = w
    · simp only [hw, decide_true, if_true]
      omega
    · simp [hw]
  · intro n
    have hfreed := h.freed n
    rw [List.count_append, List.count_append]
    rw [List.count_cons] at hfreed
    by_cases hn : node = n
    · simp only [hn, beq_self_eq_true, if_true] at hfreed
      simp [hn]
      omega
    · simpa [hn] using hfreed
  · intro _ hs out
    rw [hnodes, List.count_append, hcopied, h.filled hf (by simpa using hs), List.countP_cons]
    by_cases hout : node.out = some out
    · simp only [hout, decide_true, if_true, and_self]
      omega
    · simp [hout]
  · intro hnot
    exact absurd (List.mem_append_left _ hf) hnot

/-- The status is set to finished, with the nodes still linked. -/
theorem JoinersCounts.finish (h : JoinersCounts t rest tr events) :
    JoinersCounts t rest (tr ++ [.finished]) events := by
  have hnodes : joinedNodes (tr ++ [.finished]) = joinedNodes tr := by
    rw [joinedNodes_append]
    exact List.append_nil _
  refine ⟨fun w => by rw [hnodes]; exact h.woken w, ?_, ?_,
    fun hnot => absurd (List.mem_append_right _ (List.mem_singleton_self _)) hnot⟩
  · intro n
    rw [List.count_append, List.count_append]
    simpa using h.freed n
  · intro _ hs out
    rw [hnodes]
    by_cases hf : .finished ∈ tr
    · exact h.filled hf (by simpa using hs) out
    · obtain ⟨hzero, heq⟩ := h.pending hf out
      rw [hzero, heq, Nat.zero_add]

/-- Events that are not about the joiners. -/
theorem JoinersCounts.log {es : List TaskEvent} (h : JoinersCounts t rest tr events)
    (hwoken : ∀ w, .joinerWoken t w ∉ es) (hcopied : ∀ out, .copied t out ∉ es) :
    JoinersCounts t rest tr (events ++ es) := by
  have hw : ∀ w, (events ++ es).count (.joinerWoken t w) = events.count (.joinerWoken t w) :=
    fun w => by rw [List.count_append, List.count_eq_zero.mpr (hwoken w), Nat.add_zero]
  have hc : ∀ out, (events ++ es).count (.copied t out) = events.count (.copied t out) :=
    fun out => by rw [List.count_append, List.count_eq_zero.mpr (hcopied out), Nat.add_zero]
  exact ⟨fun w => by rw [hw]; exact h.woken w, h.freed,
    fun hf hs out => by rw [hc]; exact h.filled hf hs out,
    fun hf out => by rw [hc]; exact h.pending hf out⟩

end Counts

end Taskio
