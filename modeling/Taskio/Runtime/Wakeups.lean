import Taskio.Runtime.Notification
import Taskio.Runtime.QueueShape

/-!
# Wakes become polls

`Scheduler.queues` is what a step puts in the ready queue: a new task, or one whose waker is called
while it is not scheduled. Without aborts, the tasks queued so far are the tasks polled so far
followed by the ready queue, in that order (`FairQueue.fifo`), as long as the queue keeps its shape;
and `worker_run` does not wait while a task is queued and `event_fd` is not readable.

* `fairQueue_step_iff` — a step keeps this exactly when it meets `KeepsQueue`
* `FairQueue.progress` — a queued task is next in the loop, or the loop can begin
-/

namespace Taskio

variable {s s' : Scheduler} {l l' queued : List Nat} {t : Nat} {o : SchedulerOp}

/-! ## Polls and queued tasks -/

def TaskEvent.polled? : TaskEvent → Option Nat
  | .polled t => some t
  | _ => none

/-- The polls so far, in order. -/
def Scheduler.polls (s : Scheduler) : List Nat := s.events.filterMap TaskEvent.polled?

/-- A waker call links the task unless it is scheduled. -/
def Scheduler.unlessScheduled (s : Scheduler) (x : Nat) : List Nat :=
  if (s.tasks x).map (·.status) = some .scheduled then [] else [x]

/-- The tasks that the step queues. -/
def Scheduler.queues (s : Scheduler) (o : SchedulerOp) : List Nat :=
  match o, s.control with
  | .spawn _, _ | .blockOn, _ => [s.nextTask]
  | .wake t, _ => s.unlessScheduled t
  | .join t node, _ =>
    match s.tasks t with
    | some task =>
      if task.status = .aborted ∨ task.status = .finished then s.unlessScheduled node.waker else []
    | none => []
  | .wakeJoiner, .waking _ (node :: _) => s.unlessScheduled node.waker
  | _, _ => []

/-- No task is aborted. -/
def NoAborts (_ : Scheduler) (o : SchedulerOp) : Prop := ∀ t, o ≠ .abort t

def SchedulerOp.aborts : SchedulerOp → Bool
  | .abort _ => true
  | _ => false

theorem noAborts_iff : NoAborts s o ↔ o.aborts = false := by
  cases o with
  | abort t => exact iff_of_false (fun h => h t rfl) (by simp [SchedulerOp.aborts])
  | _ => exact iff_of_true (fun t h => by cases h) rfl

instance (s : Scheduler) (o : SchedulerOp) : Decidable (NoAborts s o) :=
  decidable_of_iff' _ noAborts_iff

/-- A future returns ready in a poll during which its own waker was called. -/
def Scheduler.readyWoken (s : Scheduler) (o : SchedulerOp) : Bool :=
  match o, s.control with
  | .ret .ready, .polling t => (s.tasks t).map (·.status) = some .scheduled
  | _, _ => false

/-- `l` is the ready queue, `queued` what was queued so far. -/
structure FairQueue (queued l : List Nat) (s : Scheduler) : Prop where
  queue : ReadyQueue l s
  /-- polls happen in the order of queueing, one for each entry -/
  fifo : queued = s.polls ++ l
  /-- at `epoll_wait` -/
  notified : s.control = .waiting → l = [] ∨ 0 < s.eventFd

theorem polls_eq_turns (s : Scheduler) : s.polls = s.turns.filterMap TaskEvent.polled? := by
  rw [Scheduler.polls, Scheduler.turns, List.filterMap_filter]
  refine List.filterMap_congr ?_
  intro e _
  cases e <;> rfl

/-- Nothing is queued by a step that calls wakers of scheduled tasks only. -/
theorem queues_of_scheduled (ho : ¬ o.Spawns)
    (h : ∀ x, s.Wakes o x → ∃ next, s.view x = some (.scheduled, next)) : s.queues o = [] := by
  have hnone : ∀ x, s.Wakes o x → s.unlessScheduled x = [] := by
    intro x hx
    obtain ⟨next, hview⟩ := h x hx
    obtain ⟨task, htask, hstatus, -⟩ := view_eq_some.mp hview
    rw [Scheduler.unlessScheduled, htask, if_pos (by simp [hstatus])]
  unfold Scheduler.queues
  split
  · exact absurd trivial ho
  · exact absurd trivial ho
  · exact hnone _ rfl
  · split
    · rename_i task htask
      split
      · rename_i hended
        exact hnone _ ⟨rfl, task, htask, hended⟩
      · rfl
    · rfl
  · rename_i hcontrol
    exact hnone _ (by simp only [Scheduler.Wakes, hcontrol])
  · rfl

/-- A waker call of another task queues that task. -/
theorem queues_of_wakes {x : Nat} {v : TaskStatus × Option Nat} (hwakes : s.Wakes o x)
    (hview : s.view x = some v) (hstatus : v.1 ≠ .scheduled) : s.queues o = [x] := by
  have hone : s.unlessScheduled x = [x] := by
    obtain ⟨task, htask, hv, -⟩ := view_eq_some.mp hview
    rw [Scheduler.unlessScheduled, htask, if_neg (by simp [hv, hstatus])]
  unfold Scheduler.Wakes at hwakes
  split at hwakes
  · subst hwakes
    exact hone
  · obtain ⟨rfl, task, htask, hended⟩ := hwakes
    simp only [Scheduler.queues, htask]
    rw [if_pos hended]
    exact hone
  · rename_i hcontrol
    subst hwakes
    simp only [Scheduler.queues, hcontrol]
    exact hone
  · cases hwakes

/-- Steps of `worker_run` queue nothing. -/
theorem queues_worker (h : o = .take ∨ (∃ poll, o = .ret poll) ∨ o = .cleaned ∨ o = .release ∨
    ∃ t, o = .drop t) : s.queues o = [] := by
  unfold Scheduler.queues
  rcases h with rfl | ⟨poll, rfl⟩ | rfl | rfl | ⟨t, rfl⟩ <;> rfl

/-! ## One step -/

theorem polls_append {es : List TaskEvent} (h : s'.turns = s.turns ++ es) :
    s'.polls = s.polls ++ es.filterMap TaskEvent.polled? := by
  rw [polls_eq_turns, polls_eq_turns, h, List.filterMap_append]

/-- No task has the status `aborted`. -/
def NoneAborted (s : Scheduler) : Prop := ∀ t next, s.view t ≠ some (.aborted, next)

/-- **One step on the queue and the polls.** What is queued is added behind, and the head is polled. -/
theorem SchedulerEffect.fifo (h : SchedulerEffect s s' o) (hl : ReadyQueue l s) (hs : Settled s)
    (hkeeps : KeepsQueue s o) (hnone : NoneAborted s) (hno : NoAborts s o)
    (hnext : o.Spawns ∧ s'.nextTask = s.nextTask + 1 ∨ ¬ o.Spawns ∧ s'.nextTask = s.nextTask) :
    ∃ l', ReadyQueue l' s' ∧ s'.polls ++ l' = s.polls ++ l ++ s.queues o := by
  cases h with
  | quiet ho hsame hcontrol hturns hwakes hdrops =>
    have hspawns : ¬ o.Spawns := by
      rcases hnext with ⟨-, hsucc⟩ | ⟨hnot, -⟩
      · have := hsame.nextTask
        omega
      · exact hnot
    have hqueues : s.queues o = [] := queues_of_scheduled hspawns hwakes
    refine ⟨l, hsame.readyQueue_iff.mpr hl, ?_⟩
    rw [hqueues, polls_append (hturns.trans (List.append_nil _).symm)]
    simp
  | @spawn _ t s₁ ho hwakes hdrops hspawned henq hcontrol hturns =>
    obtain ⟨hl₁, -, hview, htail⟩ := hspawned.readyQueue hl hs
    obtain ⟨-, hl'⟩ := henq.pushes hl₁ hview rfl htail
    refine ⟨_, hl', ?_⟩
    have hqueues : s.queues o = [t] := by
      rw [hspawned.fresh]
      rcases hnext with ⟨hspawns, -⟩ | ⟨-, hsame⟩
      · cases o with
        | spawn hasOut => rfl
        | blockOn => rfl
        | _ => exact absurd hspawns id
      · have := henq.nextTask.trans hspawned.nextTask
        omega
    rw [hqueues, polls_append (hturns.trans (List.append_nil _).symm)]
    simp
  | @enqueue _ x v hview hstatus hwakes hdrops henq hcontrol hturns =>
    have hwoken : s.Wakes o x := (hwakes x).mpr rfl
    obtain ⟨hnull, htail⟩ := (hkeeps.1 x hwoken v hview).resolve_left hstatus
    obtain ⟨-, hl'⟩ := henq.pushes hl hview hnull htail
    refine ⟨_, hl', ?_⟩
    rw [queues_of_wakes hwoken hview hstatus, polls_append (hturns.trans (List.append_nil _).symm)]
    simp
  | abortSuspended => exact absurd rfl (hno _)
  | abortMark => exact absurd rfl (hno _)
  | @free x hlast hfree hcontrol hturns =>
    have hnotin : x ∉ l := mt hl.linked_iff.mpr (hkeeps.2 x rfl hlast)
    refine ⟨l, hfree.readyQueue_free hnotin hl, ?_⟩
    rw [queues_worker (by simp), polls_append (hturns.trans (List.append_nil _).symm)]
    simp
  | takeAborted hcontrol hview => exact absurd hview (hnone _ _)
  | @takePolled t v hcontrol hview hstatus hdeq hcontrol' hturns =>
    obtain ⟨l', rfl, -, hshape⟩ := hdeq.readyQueue hl (by simp)
    refine ⟨l', hshape, ?_⟩
    rw [queues_worker (by simp), polls_append hturns, List.append_nil, List.append_assoc]
    rfl
  | ready hcontrol hsame hcontrol' hturns =>
    refine ⟨l, hsame.readyQueue_iff.mpr hl, ?_⟩
    rw [queues_worker (by simp), polls_append hturns, List.append_nil, List.append_assoc]
    rfl
  | finish hcontrol hview hmark hcontrol' hturns =>
    refine ⟨l, hmark.readyQueue_mark hview (by simp) hl, ?_⟩
    rw [queues_worker (by simp), polls_append (hturns.trans (List.append_nil _).symm)]
    simp
  | @release t hcontrol hdrop hcontrol' hturns =>
    have hl' : ReadyQueue l s' := by
      rcases hdrop with ⟨-, hsame⟩ | ⟨hlast, hfree⟩
      · exact hsame.readyQueue_iff.mpr hl
      · have hdrops : s.Drops .release t := by simp only [Scheduler.Drops, hcontrol]
        exact hfree.readyQueue_free (mt hl.linked_iff.mpr (hkeeps.2 t hdrops hlast)) hl
    refine ⟨l, hl', ?_⟩
    rw [queues_worker (by simp), polls_append hturns, List.append_nil, List.append_assoc]
    rfl

theorem noneAborted_step (h : SchedulerEffect s s' o) (hnone : NoneAborted s) (hno : NoAborts s o) :
    NoneAborted s' := by
  -- a view that was rewritten, or was there
  have hupdate : ∀ {s₁ : Scheduler} {x : Nat} {v : Option (TaskStatus × Option Nat)},
      s₁.view = Function.update s.view x v → (∀ next, v ≠ some (.aborted, next)) →
      NoneAborted s₁ := by
    intro s₁ x v hview hv t next ht
    rw [hview] at ht
    by_cases htx : t = x
    · rw [htx, Function.update_self] at ht
      exact hv next ht
    · rw [Function.update_of_ne htx] at ht
      exact hnone t next ht
  have henqueued : ∀ {s₁ : Scheduler} {x : Nat}, NoneAborted s₁ → Enqueued s₁ s' x →
      NoneAborted s' := by
    intro s₁ x hnone₁ henq t next ht
    rw [henq.view, Option.map_eq_some_iff] at ht
    obtain ⟨v, hv, heq⟩ := ht
    have hstatus := (Prod.mk.inj heq).1
    by_cases htx : t = x
    · rw [if_pos htx] at hstatus
      cases hstatus
    · rw [if_neg htx] at hstatus
      exact hnone₁ t v.2 (by rw [hv, ← hstatus])
  cases h with
  | quiet ho hsame => exact fun t next => by rw [hsame.view]; exact hnone t next
  | spawn ho hwakes hdrops hspawned henq =>
    exact henqueued (hupdate hspawned.view (by simp)) henq
  | enqueue hview hstatus hwakes hdrops henq => exact henqueued hnone henq
  | abortSuspended => exact absurd rfl (hno _)
  | abortMark => exact absurd rfl (hno _)
  | free hlast hfree => exact hupdate hfree.view (by simp)
  | takeAborted hcontrol hview => exact absurd hview (hnone _ _)
  | takePolled hcontrol hview hstatus hdeq => exact hupdate hdeq.view (by simp)
  | ready hcontrol hsame => exact fun t next => by rw [hsame.view]; exact hnone t next
  | finish hcontrol hview hmark => exact hupdate hmark.view (by simp)
  | release hcontrol hdrop =>
    rcases hdrop with ⟨-, hsame⟩ | ⟨-, hfree⟩
    · exact fun t next => by rw [hsame.view]; exact hnone t next
    · exact hupdate hfree.view (by simp)

/-! ## What follows for the worker -/

/-- A queued task is polled next in the loop over the queue, which does not end before; and the loop
can begin. -/
structure Progresses (l : List Nat) (s : Scheduler) : Prop where
  wait : s.control = .waiting → s.running = true → l ≠ [] →
    ∃ s', schedulerStep s .event = .ok s' ∧ s'.control = .draining
  drain : s.control = .draining → ∀ t l', l = t :: l' →
    (∃ s', schedulerStep s .take = .ok s' ∧ s'.polls = s.polls ++ [t]) ∧
      schedulerStep s .drained = .error .noSuchCall

theorem FairQueue.progress (h : FairQueue queued l s) (hnone : NoneAborted s) : Progresses l s := by
  constructor
  · intro hcontrol hrunning hl
    have hfd := (h.notified hcontrol).resolve_left hl
    simp only [schedulerStep, hcontrol]
    rw [if_pos ⟨hrunning, hfd⟩]
    exact ⟨_, rfl, rfl⟩
  · rintro hcontrol t l' rfl
    have hhead : s.pollHead = some t := h.queue.queue.chain.1
    obtain ⟨task, htask⟩ := Option.ne_none_iff_exists'.mp (h.queue.live t (by simp))
    have hstatus : task.status ≠ .aborted := by
      intro haborted
      refine hnone t task.next ?_
      rw [view_of_task htask, haborted]
    constructor
    · refine ⟨_, by simp only [schedulerStep, hcontrol, workerTake, hhead, task_eq_ok.mpr htask,
        ok_bind, if_neg hstatus]; rfl, ?_⟩
      show (s.events ++ [TaskEvent.polled t]).filterMap _ = _
      rw [List.filterMap_append]
      rfl
    · simp only [schedulerStep, hcontrol, hhead]
      rfl

theorem noneAborted_init : NoneAborted schedulerInit := by rintro t next ⟨⟩

theorem fairQueue_init : FairQueue [] [] schedulerInit := ⟨queueShape_init, rfl, fun _ => Or.inl rfl⟩

/-- **A step keeps the order of queueing exactly when it meets `KeepsQueue`.** -/
theorem fairQueue_step_iff (h : FairQueue queued l s) (hs : Settled s) (hn : Notified s)
    (hnone : NoneAborted s) (hno : NoAborts s o) (hok : schedulerStep s o = .ok s') :
    (∃ l', FairQueue (queued ++ s.queues o) l' s') ↔ KeepsQueue s o := by
  constructor
  · rintro ⟨l', hl'⟩
    exact (queueShape_step_iff h.queue hs hok).mp ⟨l', hl'.queue⟩
  · intro hkeeps
    obtain ⟨l', hl', hfifo⟩ :=
      (schedulerStep_effect hok).fifo h.queue hs hkeeps hnone hno (nextTask_step hok)
    have hn' := notified_step hn hok
    refine ⟨l', hl', by rw [h.fifo, hfifo], ?_⟩
    intro hcontrol
    have hrests : s'.control.Rests := Or.inr hcontrol
    by_cases hhead : s'.pollHead = none
    · exact Or.inl (hl'.queue.head_eq_none.mp hhead)
    · exact Or.inr ((hn'.readable hrests).mp (hn'.queued hrests hhead))

end Taskio
