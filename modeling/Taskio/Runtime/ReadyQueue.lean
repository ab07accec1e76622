import Taskio.Lib.Chain
import Taskio.Lib.Run
import Taskio.Runtime.Scheduler

/-!
# The shape of the ready queue

`ReadyQueue l s`: the links spell the queue `l` of live tasks, and every scheduled task is in it.
The only guard of `task_add_event_loop` is the status `scheduled`, which abort and completion
overwrite while the task is linked; and the aborted branch of `worker_run` leaves `next` as it is.

What a step does to the queue is said of the view of the tasks, their status and `next`:

* `Enqueued` — a task is linked behind `poll_tail`
* `Rewritten` — one task gets another view, or none
* `Dequeued` — the head is unlinked
-/

namespace Taskio

open Lib (Chain IsQueue)

variable {s s' : Scheduler} {l l' : List Nat} {t : Nat}

structure ReadyQueue (l : List Nat) (s : Scheduler) : Prop where
  queue : IsQueue s.next s.pollHead s.pollTail l
  live : ∀ t ∈ l, s.tasks t ≠ none
  scheduled : ∀ t task, s.tasks t = some task → task.status = .scheduled → t ∈ l

/-- The queue is finite, without repetition, and ends at `poll_tail`; scheduled tasks are in it. -/
def QueueShape (s : Scheduler) : Prop := ∃ l, ReadyQueue l s

/-- The task is in the chain from `poll_head`. -/
def Scheduler.Linked (s : Scheduler) (t : Nat) : Prop := ∃ l, Chain s.next s.pollHead l ∧ t ∈ l

theorem ReadyQueue.linked_iff (h : ReadyQueue l s) : s.Linked t ↔ t ∈ l := by
  constructor
  · rintro ⟨l', hchain, ht⟩
    rwa [h.queue.chain.unique hchain]
  · exact fun ht => ⟨l, h.queue.chain, ht⟩

/-- What the queue sees of a task. -/
def Scheduler.view (s : Scheduler) (t : Nat) : Option (TaskStatus × Option Nat) :=
  (s.tasks t).map fun task => (task.status, task.next)

/-- Nothing that the queue sees has changed. -/
structure SameQueue (s s' : Scheduler) : Prop where
  view : ∀ t, s'.view t = s.view t
  head : s'.pollHead = s.pollHead
  tail : s'.pollTail = s.pollTail
  nextTask : s'.nextTask = s.nextTask

theorem next_eq_view (s : Scheduler) (t : Nat) : s.next t = (s.view t).bind (·.2) := by
  rw [Scheduler.next, Scheduler.view]
  cases s.tasks t <;> rfl

theorem view_eq_some {status : TaskStatus} {next : Option Nat} :
    s.view t = some (status, next) ↔
      ∃ task, s.tasks t = some task ∧ task.status = status ∧ task.next = next := by
  rw [Scheduler.view, Option.map_eq_some_iff]
  simp only [Prod.mk.injEq]

theorem view_eq_none : s.view t = none ↔ s.tasks t = none := by
  rw [Scheduler.view, Option.map_eq_none_iff]

theorem readyQueue_iff_view : ReadyQueue l s ↔
    IsQueue s.next s.pollHead s.pollTail l ∧ (∀ t ∈ l, s.view t ≠ none) ∧
      ∀ t next, s.view t = some (.scheduled, next) → t ∈ l := by
  constructor
  · rintro ⟨hqueue, hlive, hscheduled⟩
    refine ⟨hqueue, fun t ht => mt view_eq_none.mp (hlive t ht), ?_⟩
    intro t next hview
    obtain ⟨task, htask, hstatus, -⟩ := view_eq_some.mp hview
    exact hscheduled t task htask hstatus
  · rintro ⟨hqueue, hlive, hscheduled⟩
    refine ⟨hqueue, fun t ht => mt view_eq_none.mpr (hlive t ht), ?_⟩
    intro t task htask hstatus
    exact hscheduled t task.next (view_eq_some.mpr ⟨task, htask, hstatus, rfl⟩)

theorem SameQueue.readyQueue_iff (h : SameQueue s s') : ReadyQueue l s' ↔ ReadyQueue l s := by
  have hnext : s'.next = s.next := funext fun t => by rw [next_eq_view, next_eq_view, h.view]
  rw [readyQueue_iff_view, readyQueue_iff_view, hnext, h.head, h.tail]
  simp only [h.view]

theorem SameQueue.refl (s : Scheduler) : SameQueue s s := ⟨fun _ => rfl, rfl, rfl, rfl⟩

theorem SameQueue.trans {s₁ s₂ s₃ : Scheduler} (h₁ : SameQueue s₁ s₂) (h₂ : SameQueue s₂ s₃) :
    SameQueue s₁ s₃ where
  view t := (h₂.view t).trans (h₁.view t)
  head := h₂.head.trans h₁.head
  tail := h₂.tail.trans h₁.tail
  nextTask := h₂.nextTask.trans h₁.nextTask

/-- The fields of a task that the queue does not see. -/
theorem sameQueue_setTask {task task' : Task} (htask : s.tasks t = some task)
    (hstatus : task'.status = task.status) (hnext : task'.next = task.next) :
    SameQueue s (s.setTask t (some task')) := by
  refine ⟨?_, rfl, rfl, rfl⟩
  intro x
  by_cases hx : x = t
  · subst hx
    simp [Scheduler.view, Scheduler.setTask, htask, hstatus, hnext]
  · simp [Scheduler.view, Scheduler.setTask, Function.update_of_ne hx]

/-- The tasks that the queue does not know: suspended ones and those not spawned yet. -/
structure Settled (s : Scheduler) : Prop where
  suspended : ∀ t next, s.view t = some (.suspended, next) → next = none ∧ s.pollTail ≠ some t
  fresh : ∀ t, s.nextTask ≤ t → s.view t = none

theorem SameQueue.settled (h : SameQueue s s') (hs : Settled s) : Settled s' where
  suspended t next ht := by
    rw [h.view] at ht
    rw [h.tail]
    exact hs.suspended t next ht
  fresh t ht := by
    rw [h.nextTask] at ht
    rw [h.view]
    exact hs.fresh t ht

/-! ## Linking a task -/

/-- `t` is linked behind `poll_tail`, and is scheduled. -/
structure Enqueued (s s' : Scheduler) (t : Nat) : Prop where
  view : ∀ x, s'.view x = (s.view x).map fun v =>
    (if x = t then .scheduled else v.1, if s.pollTail = some x then some t else v.2)
  tail_live : ∀ x, s.pollTail = some x → s.view x ≠ none
  head : s'.pollHead = if s.pollTail = none then some t else s.pollHead
  tail : s'.pollTail = some t
  nextTask : s'.nextTask = s.nextTask

namespace Enqueued

theorem of_same {s₁ s₂ : Scheduler} (h : Enqueued s₁ s₂ t) (hs : SameQueue s s₁)
    (hs' : SameQueue s₂ s') : Enqueued s s' t where
  view x := by rw [hs'.view, h.view, hs.view, hs.tail]
  tail_live x hx := by
    rw [← hs.view]
    exact h.tail_live x (hs.tail.trans hx)
  head := by rw [hs'.head, h.head, hs.tail, hs.head]
  tail := hs'.tail.trans h.tail
  nextTask := by rw [hs'.nextTask, h.nextTask, hs.nextTask]

theorem next_eq (h : Enqueued s s' t) (x : Nat) :
    s'.next x = if s.pollTail = some x then some t else s.next x := by
  rw [next_eq_view, next_eq_view, h.view]
  cases hview : s.view x with
  | none => rw [if_neg fun he => h.tail_live x he hview]; rfl
  | some v => rfl

theorem view_ne_none (h : Enqueued s s' t) {x : Nat} (hx : s.view x ≠ none) :
    s'.view x ≠ none := by
  rw [h.view]
  simpa using hx

/-- If the queue keeps its shape, the task was neither linked nor left with an old link. -/
theorem unlinked_of_shape (h : Enqueued s s' t) (h' : QueueShape s') :
    s.next t = none ∧ s.pollTail ≠ some t := by
  obtain ⟨l', h'⟩ := h'
  have hqueue := h'.queue
  rw [h.tail] at hqueue
  have hnone := hqueue.next_tail
  rw [h.next_eq] at hnone
  by_cases htail : s.pollTail = some t
  · rw [if_pos htail] at hnone
    cases hnone
  · rw [if_neg htail] at hnone
    exact ⟨hnone, htail⟩

/-- And such a task becomes the last of the queue. -/
theorem readyQueue (h : Enqueued s s' t) (hs : ReadyQueue l s) (hlive : s.view t ≠ none)
    (hnext : s.next t = none) (htail : s.pollTail ≠ some t) : t ∉ l ∧ ReadyQueue (l ++ [t]) s' := by
  obtain ⟨hqueue, hmem, hscheduled⟩ := readyQueue_iff_view.mp hs
  have hnotin : t ∉ l := fun ht => htail (hqueue.tail_of_next_eq_none ht hnext)
  refine ⟨hnotin, readyQueue_iff_view.mpr ⟨?_, ?_, ?_⟩⟩
  · rw [h.head, h.tail]
    cases hlast : s.pollTail with
    | none =>
      rw [hlast] at hqueue
      have hsame : ∀ x, s'.next x = s.next x := fun x => by rw [h.next_eq, hlast]; simp
      obtain ⟨rfl, hpush⟩ := hqueue.pushEmpty hnext
      rw [if_pos rfl, List.nil_append]
      exact hpush.congr fun x _ => hsame x
    | some last =>
      rw [hlast] at hqueue
      rw [if_neg (by simp)]
      refine (hqueue.pushTail hnotin hnext).congr ?_
      intro x _
      rw [h.next_eq, hlast]
      by_cases hx : x = last
      · subst hx
        simp
      · rw [if_neg (fun he => hx (Option.some.inj he).symm), Function.update_of_ne hx]
  · intro x hx
    rcases List.mem_append.mp hx with hx | hx
    · exact h.view_ne_none (hmem x hx)
    · rw [List.mem_singleton.mp hx]
      exact h.view_ne_none hlive
  · intro x next hview
    rw [h.view] at hview
    obtain ⟨v, hold, hv⟩ := Option.map_eq_some_iff.mp hview
    by_cases hx : x = t
    · simp [hx]
    · rw [if_neg hx] at hv
      refine List.mem_append_left _ (hscheduled x v.2 ?_)
      rw [hold, ← (Prod.mk.inj hv).1]

theorem settled (h : Enqueued s s' t) (hs : Settled s) : Settled s' := by
  constructor
  · intro x next hview
    rw [h.view] at hview
    obtain ⟨v, hold, hv⟩ := Option.map_eq_some_iff.mp hview
    obtain ⟨hstatus, hnext⟩ := Prod.mk.inj hv
    by_cases hxt : x = t
    · rw [if_pos hxt] at hstatus
      cases hstatus
    · rw [if_neg hxt] at hstatus
      obtain ⟨hnone, htail⟩ := hs.suspended x v.2 (by rw [hold, ← hstatus])
      rw [if_neg htail] at hnext
      refine ⟨hnext ▸ hnone, ?_⟩
      rw [h.tail]
      exact fun he => hxt (Option.some.inj he).symm
  · intro x hx
    rw [h.nextTask] at hx
    rw [h.view, hs.fresh x hx]
    rfl

end Enqueued

/-! ## Rewriting a task -/

/-- Only the view of `t` has changed, to `v`. -/
structure Rewritten (s s' : Scheduler) (t : Nat) (v : Option (TaskStatus × Option Nat)) : Prop where
  view : s'.view = Function.update s.view t v
  head : s'.pollHead = s.pollHead
  tail : s'.pollTail = s.pollTail
  nextTask : s'.nextTask = s.nextTask

theorem rewritten_setTask (task : Option Task) : Rewritten s (s.setTask t task) t
    (task.map fun task => (task.status, task.next)) := by
  refine ⟨funext ?_, rfl, rfl, rfl⟩
  intro x
  by_cases hx : x = t
  · subst hx
    simp [Scheduler.view, Scheduler.setTask]
  · simp [Scheduler.view, Scheduler.setTask, Function.update_of_ne hx]

namespace Rewritten

variable {v : Option (TaskStatus × Option Nat)} {status status' : TaskStatus} {next : Option Nat}

theorem of_same {s₁ : Scheduler} (h : Rewritten s s₁ t v) (hs' : SameQueue s₁ s') :
    Rewritten s s' t v where
  view := (funext hs'.view).trans h.view
  head := hs'.head.trans h.head
  tail := hs'.tail.trans h.tail
  nextTask := hs'.nextTask.trans h.nextTask

theorem view_of_ne (h : Rewritten s s' t v) {x : Nat} (hx : x ≠ t) : s'.view x = s.view x := by
  rw [h.view, Function.update_of_ne hx]

theorem view_self (h : Rewritten s s' t v) : s'.view t = v := by
  rw [h.view, Function.update_self]

theorem next_of_ne (h : Rewritten s s' t v) {x : Nat} (hx : x ≠ t) : s'.next x = s.next x := by
  rw [next_eq_view, next_eq_view, h.view_of_ne hx]

theorem next_self (h : Rewritten s s' t v) : s'.next t = v.bind (·.2) := by
  rw [next_eq_view, h.view_self]

/-- A linked task, or any other, gets the status `aborted` or `finished`. -/
theorem readyQueue_mark (h : Rewritten s s' t (some (status', next)))
    (hold : s.view t = some (status, next)) (hstatus : status' ≠ .scheduled)
    (hs : ReadyQueue l s) : ReadyQueue l s' := by
  obtain ⟨hqueue, hmem, hscheduled⟩ := readyQueue_iff_view.mp hs
  refine readyQueue_iff_view.mpr ⟨?_, ?_, ?_⟩
  · rw [h.head, h.tail]
    refine hqueue.congr ?_
    intro x _
    by_cases hx : x = t
    · rw [hx, h.next_self, next_eq_view, hold]
      rfl
    · exact h.next_of_ne hx
  · intro x hx
    by_cases hxt : x = t
    · rw [hxt, h.view_self]
      simp
    · rw [h.view_of_ne hxt]
      exact hmem x hx
  · intro x next' hview
    by_cases hxt : x = t
    · rw [hxt, h.view_self] at hview
      exact absurd (Prod.mk.inj (Option.some.inj hview)).1 hstatus
    · rw [h.view_of_ne hxt] at hview
      exact hscheduled x next' hview

theorem readyQueue_free (h : Rewritten s s' t none) (ht : t ∉ l) (hs : ReadyQueue l s) :
    ReadyQueue l s' := by
  obtain ⟨hqueue, hmem, hscheduled⟩ := readyQueue_iff_view.mp hs
  refine readyQueue_iff_view.mpr ⟨?_, ?_, ?_⟩
  · rw [h.head, h.tail]
    exact hqueue.congr fun x hx => h.next_of_ne fun he => ht (he ▸ hx)
  · intro x hx
    rw [h.view_of_ne fun he => ht (he ▸ hx)]
    exact hmem x hx
  · intro x next hview
    by_cases hxt : x = t
    · rw [hxt, h.view_self] at hview
      cases hview
    · rw [h.view_of_ne hxt] at hview
      exact hscheduled x next hview

/-- A task that is freed leaves a dangling link exactly when it was linked. -/
theorem shape_free (h : Rewritten s s' t none) (hs : ReadyQueue l s) :
    QueueShape s' ↔ t ∉ l := by
  obtain ⟨hqueue, hmem, hscheduled⟩ := readyQueue_iff_view.mp hs
  constructor
  · rintro ⟨l', h'⟩ ht
    -- up to the freed task the chain is the old one, so it runs into it
    obtain ⟨u, v, rfl⟩ := List.append_of_mem ht
    have hnotin : t ∉ u := by
      have hnodup := hqueue.nodup
      rw [List.nodup_append] at hnodup
      exact fun hu => hnodup.2.2 t hu t (by simp) rfl
    have hcut : Chain s'.next s'.pollHead (u ++ [t]) := by
      rw [h.head]
      exact hqueue.chain.cut (fun z hz => h.next_of_ne fun he => hnotin (he ▸ hz)) h.next_self
    have hl' := h'.queue.chain.unique hcut
    exact (readyQueue_iff_view.mp h').2.1 t (by rw [hl']; simp) h.view_self
  · exact fun ht => ⟨l, h.readyQueue_free ht hs⟩

theorem settled (h : Rewritten s s' t v) (ht : s.view t ≠ none) (hs : Settled s)
    (hv : ∀ next, v ≠ some (.suspended, next)) : Settled s' := by
  constructor
  · intro x next hview
    rw [h.tail]
    by_cases hxt : x = t
    · rw [hxt, h.view_self] at hview
      exact absurd hview (hv next)
    · rw [h.view_of_ne hxt] at hview
      exact hs.suspended x next hview
  · intro x hx
    rw [h.nextTask] at hx
    have hnone := hs.fresh x hx
    rwa [h.view_of_ne fun he => ht (he ▸ hnone)]

end Rewritten

/-! ## Taking the head -/

/-- The head `t` is unlinked, and gets another view. -/
structure Dequeued (s s' : Scheduler) (t : Nat) (next : Option Nat)
    (v : TaskStatus × Option Nat) : Prop where
  view : s'.view = Function.update s.view t (some v)
  was : s.pollHead = some t ∧ s.next t = next
  head : s'.pollHead = next
  tail : s'.pollTail = if next = none then none else s.pollTail
  nextTask : s'.nextTask = s.nextTask

namespace Dequeued

variable {next : Option Nat} {v : TaskStatus × Option Nat}

theorem readyQueue (h : Dequeued s s' t next v) (hs : ReadyQueue l s) (hv : v.1 ≠ .scheduled) :
    ∃ l', l = t :: l' ∧ t ∉ l' ∧ ReadyQueue l' s' := by
  obtain ⟨hqueue, hmem, hscheduled⟩ := readyQueue_iff_view.mp hs
  rw [h.was.1] at hqueue
  obtain ⟨l', rfl, hpop⟩ := hqueue.popHead
  rw [h.was.2] at hpop
  have hnotin : t ∉ l' := (List.nodup_cons.mp hqueue.nodup).1
  have hview : ∀ x ∈ l', s'.view x = s.view x := by
    intro x hx
    have hxt : x ≠ t := fun he => hnotin (he ▸ hx)
    rw [h.view, Function.update_of_ne hxt]
  refine ⟨l', rfl, hnotin, readyQueue_iff_view.mpr ⟨?_, ?_, ?_⟩⟩
  · rw [h.head, h.tail]
    exact hpop.congr fun x hx => by rw [next_eq_view, next_eq_view, hview x hx]
  · intro x hx
    rw [hview x hx]
    exact hmem x (List.mem_cons_of_mem _ hx)
  · intro x next' hx
    by_cases hxt : x = t
    · rw [h.view, hxt, Function.update_self] at hx
      rw [Option.some.inj hx] at hv
      exact absurd rfl hv
    · rw [h.view, Function.update_of_ne hxt] at hx
      exact List.mem_of_ne_of_mem hxt (hscheduled x next' hx)

theorem settled (h : Dequeued s s' t next v) (hl : ReadyQueue l s) (hs : Settled s)
    (hv : v.1 ≠ .scheduled) (hsuspended : v.1 = .suspended → v.2 = none) : Settled s' := by
  obtain ⟨l', rfl, hnotin, hl'⟩ := h.readyQueue hl hv
  have hlive : s.view t ≠ none := (readyQueue_iff_view.mp hl).2.1 t (by simp)
  have htail : ∀ x, s'.pollTail = some x → s.pollTail = some x ∧ x ≠ t := by
    intro x hx
    have hmem : x ∈ l' := List.mem_of_getLast? (hl'.queue.last ▸ hx)
    rw [h.tail] at hx
    split at hx
    · cases hx
    · exact ⟨hx, fun he => hnotin (he ▸ hmem)⟩
  constructor
  · intro x next' hview
    by_cases hxt : x = t
    · rw [h.view, hxt, Function.update_self] at hview
      obtain rfl := Option.some.inj hview
      exact ⟨hsuspended rfl, fun he => (htail x he).2 hxt⟩
    · rw [h.view, Function.update_of_ne hxt] at hview
      obtain ⟨hnone, hne⟩ := hs.suspended x next' hview
      exact ⟨hnone, fun he => hne (htail x he).1⟩
  · intro x hx
    rw [h.nextTask] at hx
    have hnone := hs.fresh x hx
    have hxt : x ≠ t := fun he => hlive (he ▸ hnone)
    rwa [h.view, Function.update_of_ne hxt]

end Dequeued

end Taskio
