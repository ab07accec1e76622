import Taskio.Runtime.QueueShape

/-!
# The turns of a task, and its end

* `TurnStep` — what a step does to the turns of the tasks
* `SchedulerEffect.ended` — an aborted or finished task stays so unless it is woken or taken
* `QueueStep.notMem` — and stays out of the queue
-/

namespace Taskio

variable {s s' : Scheduler} {l l' : List Nat} {t : Nat} {o : SchedulerOp}

/-! ## Turns -/

/-- What a step does to the turns of the tasks and to where `worker_run` stands. -/
inductive TurnStep (s s' : Scheduler) : SchedulerOp → Prop
  | idle {o : SchedulerOp} (ho : o ≠ .take ∧ o ≠ .release)
      (hcontrol : s.control.Passes s'.control) (hturns : s'.turns = s.turns) : TurnStep s s' o
  | cleaning {t : Nat} (hhead : s.pollHead = some t) (hcontrol : s.control = .draining)
      (hcontrol' : s'.control = .cleaning t false) (hturns : s'.turns = s.turns ++ [.cleanedUp t]) :
      TurnStep s s' .take
  | polling {t : Nat} {v : TaskStatus × Option Nat} (hhead : s.pollHead = some t)
      (hview : s.view t = some v) (hstatus : v.1 ≠ .aborted) (hcontrol : s.control = .draining)
      (hcontrol' : s'.control = .polling t) (hturns : s'.turns = s.turns ++ [.polled t]) :
      TurnStep s s' .take
  | ready {t : Nat} (hcontrol : s.control = .polling t) (hcontrol' : s'.control = .cleaning t true)
      (hturns : s'.turns = s.turns ++ [.cleanedUp t]) : TurnStep s s' (.ret .ready)
  | finish {t : Nat} {nodes : List TaskWakeNode} (hcontrol : s.control = .cleaning t true)
      (hcontrol' : s'.control = .waking t nodes) (hturns : s'.turns = s.turns) :
      TurnStep s s' .cleaned
  | release {t : Nat} (hcontrol : s.control = .waking t []) (hcontrol' : s'.control = .draining)
      (hturns : s'.turns = s.turns ++ [.released t]) : TurnStep s s' .release

theorem SchedulerEffect.turn (h : SchedulerEffect s s' o) : TurnStep s s' o := by
  cases h with
  | quiet ho _ hcontrol hturns => exact .idle ho hcontrol hturns
  | spawn ho _ _ _ _ hcontrol hturns => exact .idle ho hcontrol hturns
  | @enqueue _ x _ _ _ hwakes _ _ hcontrol hturns =>
    refine .idle ⟨?_, ?_⟩ hcontrol hturns
    · rintro rfl
      exact (hwakes x).mpr rfl
    · rintro rfl
      exact (hwakes x).mpr rfl
  | abortSuspended _ _ hcontrol hturns => exact .idle (by simp) (hcontrol ▸ .same _) hturns
  | abortMark _ _ _ hcontrol hturns => exact .idle (by simp) (hcontrol ▸ .same _) hturns
  | free _ _ hcontrol hturns => exact .idle (by simp) (hcontrol ▸ .same _) hturns
  | takeAborted hcontrol _ hdeq hcontrol' hturns =>
    exact .cleaning hdeq.was.1 hcontrol hcontrol' hturns
  | takePolled hcontrol hview hstatus hdeq hcontrol' hturns =>
    exact .polling hdeq.was.1 hview hstatus hcontrol hcontrol' hturns
  | ready hcontrol _ hcontrol' hturns => exact .ready hcontrol hcontrol' hturns
  | finish hcontrol _ _ hcontrol' hturns => exact .finish hcontrol hcontrol' hturns
  | release hcontrol _ hcontrol' hturns => exact .release hcontrol hcontrol' hturns

theorem Control.Passes.task {c c' : Control} (h : c.Passes c') :
    c'.task = c.task ∨ c'.task = none := by
  cases h with
  | same => exact Or.inl rfl
  | idle _ h' => exact Or.inr h'
  | pending => exact Or.inr rfl
  | aborted => exact Or.inl rfl
  | joiner => exact Or.inl rfl

/-- A task's turn begins when it is taken from the queue. -/
theorem TurnStep.task_cases (h : TurnStep s s' o) :
    s'.control.task = s.control.task ∨ s'.control.task = none ∨
      ∃ x, s.pollHead = some x ∧ s'.control.task = some x := by
  cases h with
  | idle _ hcontrol => exact hcontrol.task.imp_right Or.inl
  | cleaning hhead _ hcontrol' => exact Or.inr (Or.inr ⟨_, hhead, by rw [hcontrol']; rfl⟩)
  | polling hhead _ _ _ hcontrol' => exact Or.inr (Or.inr ⟨_, hhead, by rw [hcontrol']; rfl⟩)
  | ready hcontrol hcontrol' => exact Or.inl (by rw [hcontrol, hcontrol']; rfl)
  | finish hcontrol hcontrol' => exact Or.inl (by rw [hcontrol, hcontrol']; rfl)
  | release _ hcontrol' => exact Or.inr (Or.inl (by rw [hcontrol']; rfl))

/-- `worker_run` is in a poll of `t`, or in the clean-up after it returned ready. -/
def Scheduler.OwnPoll (s : Scheduler) (t : Nat) : Prop :=
  s.control = .polling t ∨ s.control = .cleaning t true

theorem Control.Passes.target {c c' : Control} (h : c.Passes c') (hne : c' ≠ c) :
    c'.task = none ∨ ∃ t nodes, c' = .waking t nodes := by
  cases h with
  | same => exact absurd rfl hne
  | idle _ h' => exact Or.inl h'
  | pending => exact Or.inl rfl
  | aborted t => exact Or.inr ⟨t, [], rfl⟩
  | joiner t node nodes => exact Or.inr ⟨t, nodes, rfl⟩

/-- A task's own poll begins with a poll. -/
theorem TurnStep.ownPoll (h : TurnStep s s' o) (hnot : ¬ s.OwnPoll t)
    (hhead : ∀ v, s.pollHead = some t → s.view t = some v → v.1 = .aborted) : ¬ s'.OwnPoll t := by
  rintro hown
  cases h with
  | idle ho hcontrol hturns =>
    by_cases hsame : s'.control = s.control
    · rw [Scheduler.OwnPoll, hsame] at hown
      exact hnot hown
    · rcases hcontrol.target hsame with htask | ⟨x, nodes, hwaking⟩
      · rcases hown with hown | hown <;> rw [hown] at htask <;> cases htask
      · rcases hown with hown | hown <;> rw [hown] at hwaking <;> cases hwaking
  | cleaning _ _ hcontrol =>
    rcases hown with hown | hown <;> rw [hown] at hcontrol <;> cases hcontrol
  | polling hhead' hview hstatus _ hcontrol =>
    rcases hown with hown | hown
    · rw [hown] at hcontrol
      cases hcontrol
      exact hstatus (hhead _ hhead' hview)
    · rw [hown] at hcontrol
      cases hcontrol
  | ready hcontrol hcontrol' =>
    rcases hown with hown | hown
    · rw [hown] at hcontrol'
      cases hcontrol'
    · rw [hown] at hcontrol'
      cases hcontrol'
      exact hnot (Or.inl hcontrol)
  | finish _ hcontrol =>
    rcases hown with hown | hown <;> rw [hown] at hcontrol <;> cases hcontrol
  | release _ hcontrol =>
    rcases hown with hown | hown <;> rw [hown] at hcontrol <;> cases hcontrol

/-! ## A task that has ended -/

/-- As long as there is the task, it has the status. -/
def Scheduler.Ended (s : Scheduler) (t : Nat) (status : TaskStatus) : Prop :=
  ∀ v, s.view t = some v → v.1 = status

theorem Enqueued.status_of_ne (h : Enqueued s s' t) {x : Nat} (hx : x ≠ t) {v : TaskStatus × Option Nat}
    (hview : s'.view x = some v) : ∃ w, s.view x = some w ∧ w.1 = v.1 := by
  rw [h.view] at hview
  obtain ⟨w, hw, hv⟩ := Option.map_eq_some_iff.mp hview
  rw [if_neg hx] at hv
  exact ⟨w, hw, (Prod.ext_iff.mp hv).1⟩

theorem ended_iff {status : TaskStatus} :
    s.Ended t status ↔ ∀ task, s.tasks t = some task → task.status = status := by
  constructor
  · exact fun h task htask => h _ (view_of_task htask)
  · intro h v hv
    obtain ⟨task, htask, hstatus, -⟩ := view_eq_some.mp hv
    rw [← hstatus]
    exact h task htask

/-- A step that neither wakes the task nor takes it to poll it leaves an end an end. -/
theorem SchedulerEffect.ended (h : SchedulerEffect s s' o) {status : TaskStatus}
    (hended : status = .aborted ∨ status = .finished) (hknown : t < s.nextTask)
    (ht : s.Ended t status) (hown : ¬ s.OwnPoll t) (hunwoken : ¬ s.Wakes o t)
    (hhead : ∀ v, s.pollHead = some t → s.view t = some v → v.1 = .aborted) : s'.Ended t status := by
  have hrewritten : ∀ {x v}, Rewritten s s' x v → x ≠ t ∨ v = none → s'.Ended t status := by
    rintro x v hmark hx w hw
    by_cases hxt : t = x
    · rcases hx with hx | rfl
      · exact absurd hxt.symm hx
      · rw [hxt, hmark.view_self] at hw
        cases hw
    · rw [hmark.view_of_ne hxt] at hw
      exact ht w hw
  have hother : ∀ {x v}, s.view x = some v → v.1 = .suspended ∨ v.1 = .scheduled → t ≠ x := by
    rintro x v hview hv rfl
    rw [ht v hview] at hv
    rcases hended with rfl | rfl <;> simp at hv
  have hsame : SameQueue s s' → s'.Ended t status := fun hsame v hv => ht v (hsame.view t ▸ hv)
  have henqueued : ∀ {x}, t ≠ x → Enqueued s s' x → s'.Ended t status := by
    rintro x hx henq v hv
    obtain ⟨w, hw, hwv⟩ := henq.status_of_ne hx hv
    rw [← hwv]
    exact ht w hw
  cases h with
  | quiet _ hquiet => exact hsame hquiet
  | @spawn _ x s₁ _ _ _ hspawned henq =>
    have hx : t ≠ x := by
      have := hspawned.fresh
      omega
    intro v hv
    obtain ⟨w, hw, hwv⟩ := henq.status_of_ne hx hv
    rw [hspawned.view, Function.update_of_ne hx] at hw
    rw [← hwv]
    exact ht w hw
  | enqueue _ _ hwakes _ henq =>
    exact henqueued (fun he => hunwoken ((hwakes t).mpr he.symm)) henq
  | abortSuspended hview henq => exact henqueued (hother hview (Or.inl rfl)) henq
  | abortMark hview hstatus hmark =>
    exact hrewritten hmark (Or.inl (hother hview hstatus).symm)
  | free _ hfree => exact hrewritten hfree (Or.inr rfl)
  | @takeAborted x _ _ hview hdeq =>
    intro v hv
    have hsame : s'.view = s.view := by rw [hdeq.view, ← hview, Function.update_eq_self]
    exact ht v (hsame ▸ hv)
  | @takePolled x w _ hview hstatus hdeq =>
    intro v hv
    have hx : t ≠ x := by
      rintro rfl
      exact hstatus (hhead w hdeq.was.1 hview)
    rw [hdeq.view, Function.update_of_ne hx] at hv
    exact ht v hv
  | ready _ hquiet => exact hsame hquiet
  | finish hcontrol _ hmark =>
    exact hrewritten hmark (Or.inl fun he => hown (Or.inr (he ▸ hcontrol)))
  | release _ hdrop =>
    rcases hdrop with ⟨-, hquiet⟩ | ⟨-, hfree⟩
    · exact hsame hquiet
    · exact hrewritten hfree (Or.inr rfl)

/-- A waker sets a task scheduled, if it was not. -/
theorem SchedulerEffect.woken (h : SchedulerEffect s s' o) (hwoken : s.Wakes o t) :
    ∃ v, s'.view t = some v ∧ v.1 = .scheduled := by
  cases h with
  | quiet _ hsame _ _ hwakes =>
    obtain ⟨next, hview⟩ := hwakes t hwoken
    exact ⟨_, (hsame.view t).trans hview, rfl⟩
  | spawn _ hwakes => exact absurd hwoken (hwakes t)
  | enqueue hview _ hwakes _ henq =>
    obtain rfl := (hwakes t).mp hwoken
    exact ⟨_, (henq.view _).trans (by rw [hview]; rfl), if_pos rfl⟩
  | abortSuspended => exact hwoken.elim
  | abortMark => exact hwoken.elim
  | free => exact hwoken.elim
  | takeAborted => exact hwoken.elim
  | takePolled => exact hwoken.elim
  | ready => exact hwoken.elim
  | finish => exact hwoken.elim
  | release => exact hwoken.elim

/-- A task that has ended and is not linked stays out of the queue. -/
theorem QueueStep.notMem (h : QueueStep s l o l') {status : TaskStatus}
    (hended : status = .aborted ∨ status = .finished) (hknown : t < s.nextTask)
    (ht : s.Ended t status) (hunwoken : ¬ s.Wakes o t) (hnotin : t ∉ l) : t ∉ l' := by
  cases h with
  | same => exact hnotin
  | @push _ x _ _ hx =>
    have hxt : t ≠ x := by
      rintro rfl
      rcases hx with hwakes | hfresh | ⟨-, next, hview⟩
      · exact hunwoken hwakes
      · omega
      · rw [← ht _ hview] at hended
        simp at hended
    simpa [hxt] using hnotin
  | pop hl => exact fun hmem => hnotin (hl ▸ List.mem_cons_of_mem _ hmem)

/-- Spawned tasks keep their addresses. -/
theorem SchedulerEffect.nextTask_le (h : SchedulerEffect s s' o) : s.nextTask ≤ s'.nextTask := by
  cases h with
  | quiet _ hsame => exact Nat.le_of_eq hsame.nextTask.symm
  | spawn _ _ _ hspawned henq =>
    rw [henq.nextTask, hspawned.nextTask]
    exact Nat.le_succ _
  | enqueue _ _ _ _ henq => exact Nat.le_of_eq henq.nextTask.symm
  | abortSuspended _ henq => exact Nat.le_of_eq henq.nextTask.symm
  | abortMark _ _ hmark => exact Nat.le_of_eq hmark.nextTask.symm
  | free _ hfree => exact Nat.le_of_eq hfree.nextTask.symm
  | takeAborted _ _ hdeq => exact Nat.le_of_eq hdeq.nextTask.symm
  | takePolled _ _ _ hdeq => exact Nat.le_of_eq hdeq.nextTask.symm
  | ready _ hsame => exact Nat.le_of_eq hsame.nextTask.symm
  | finish _ _ hmark => exact Nat.le_of_eq hmark.nextTask.symm
  | release _ hdrop =>
    rcases hdrop with ⟨-, hsame⟩ | ⟨-, hfree⟩
    · exact Nat.le_of_eq hsame.nextTask.symm
    · exact Nat.le_of_eq hfree.nextTask.symm

theorem count_turns {e : TaskEvent} (he : e.isTurn = true) :
    s.events.count e = s.turns.count e := (List.count_filter he).symm

end Taskio
