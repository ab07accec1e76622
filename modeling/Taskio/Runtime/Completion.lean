import Taskio.Runtime.Turn

/-!
# Completion

* `finished_is_final_iff` — completion is final exactly when the task is never woken again, provided
  that it was not linked when it completed
-/

namespace Taskio

variable {s s' s₁ s₂ s₃ : Scheduler} {l l' : List Nat} {t : Nat} {o : SchedulerOp}
  {os : List SchedulerOp}

/-- What completion promises, after the steps `os` since. -/
structure FinishedSince (t : Nat) (s₀ : Scheduler) (os : List SchedulerOp) (s : Scheduler) :
    Prop where
  status : ∀ task, s.tasks t = some task → task.status = .finished
  polled : s.events.count (.polled t) = s₀.events.count (.polled t)
  released : s.events.count (.released t) =
    s₀.events.count (.released t) + if .release ∈ os then 1 else 0
  unlinked : ¬ s.Linked t

/-- Where the finished task is: in its turn until the runtime's reference is dropped. -/
structure FinishPlace (t : Nat) (l : List Nat) (os : List SchedulerOp) (s : Scheduler) : Prop where
  queue : ReadyQueue l s
  settled : Settled s
  known : t < s.nextTask
  unlinked : t ∉ l
  turn : if .release ∈ os then s.control.task ≠ some t else ∃ nodes, s.control = .waking t nodes

theorem FinishPlace.own (h : FinishPlace t l os s) : ¬ s.OwnPoll t := by
  have hturn := h.turn
  split at hturn
  · rintro (hown | hown) <;> exact hturn (by rw [hown]; rfl)
  · obtain ⟨nodes, hwaking⟩ := hturn
    rintro (hown | hown) <;> rw [hown] at hwaking <;> cases hwaking

theorem Control.Passes.waking {c c' : Control} {nodes : List TaskWakeNode} (h : c.Passes c')
    (hc : c = .waking t nodes) : ∃ nodes, c' = .waking t nodes := by
  subst hc
  cases h with
  | same => exact ⟨nodes, rfl⟩
  | idle h => cases h
  | joiner _ node nodes => exact ⟨nodes, rfl⟩

/-- The turn of a finished task ends with the drop of the runtime's reference, and there is no other
turn of it. -/
theorem FinishPlace.turn_step (h : FinishPlace t l os s) (hturn : TurnStep s s' o)
    (hhead : s.pollHead ≠ some t) :
    (if .release ∈ os ++ [o] then s'.control.task ≠ some t
      else ∃ nodes, s'.control = .waking t nodes) ∧
    s'.turns.count (.polled t) = s.turns.count (.polled t) ∧
    s'.turns.count (.released t) + (if .release ∈ os then 1 else 0) =
      s.turns.count (.released t) + if .release ∈ os ++ [o] then 1 else 0 := by
  have hmem : .release ∈ os ++ [o] ↔ .release ∈ os ∨ o = .release := by
    rw [List.mem_append, List.mem_singleton, eq_comm (a := SchedulerOp.release)]
  by_cases hreleased : .release ∈ os
  · -- the turn is over
    have hnot := h.turn
    rw [if_pos hreleased] at hnot
    rw [if_pos (hmem.mpr (Or.inl hreleased)), if_pos hreleased, if_pos (hmem.mpr (Or.inl hreleased))]
    constructor
    · rcases hturn.task_cases with htask | htask | ⟨x, hx, htask⟩
      · rwa [htask]
      · simp [htask]
      · rw [htask]
        exact fun he => hhead (hx.trans he)
    · cases hturn with
      | idle _ _ hturns => simp [hturns]
      | cleaning _ _ _ hturns => simp [hturns]
      | @polling x _ hx _ _ _ _ hturns =>
        have hxt : x ≠ t := fun he => hhead (he ▸ hx)
        simp [hturns, hxt]
      | ready _ _ hturns => simp [hturns]
      | finish _ _ hturns => simp [hturns]
      | @release x hcontrol _ hturns =>
        have hxt : x ≠ t := by
          rintro rfl
          exact hnot (by rw [hcontrol]; rfl)
        simp [hturns, hxt]
  · have hwaking := h.turn
    rw [if_neg hreleased] at hwaking
    obtain ⟨nodes, hwaking⟩ := hwaking
    rw [if_neg hreleased]
    cases hturn with
    | idle ho hcontrol hturns =>
      have hnot : ¬ .release ∈ os ++ [o] := fun hm => (hmem.mp hm).elim hreleased ho.2
      rw [if_neg hnot, if_neg hnot, hturns]
      exact ⟨hcontrol.waking hwaking, rfl, rfl⟩
    | cleaning _ hcontrol => rw [hwaking] at hcontrol; cases hcontrol
    | polling _ _ _ hcontrol => rw [hwaking] at hcontrol; cases hcontrol
    | ready hcontrol => rw [hwaking] at hcontrol; cases hcontrol
    | finish hcontrol => rw [hwaking] at hcontrol; cases hcontrol
    | release hcontrol hcontrol' hturns =>
      rw [hwaking] at hcontrol
      cases hcontrol
      rw [if_pos (hmem.mpr (Or.inr rfl)), if_pos (hmem.mpr (Or.inr rfl)), hcontrol', hturns]
      exact ⟨by simp [Control.task], by simp, by simp⟩

/-- One step after completion. -/
theorem finishedSince_step {s₀ : Scheduler} (hplace : FinishPlace t l os s)
    (hsince : FinishedSince t s₀ os s) (hkeeps : KeepsQueue s o) (hunwoken : ¬ s.Wakes o t)
    (hok : schedulerStep s o = .ok s') :
    (∃ l', FinishPlace t l' (os ++ [o]) s') ∧ FinishedSince t s₀ (os ++ [o]) s' := by
  have heffect := schedulerStep_effect hok
  have hended := ended_iff.mpr hsince.status
  have hhead : s.pollHead ≠ some t := fun he =>
    hplace.unlinked (List.mem_of_mem_head? (hplace.queue.queue.chain.head?_eq.trans he))
  obtain ⟨l', hl', hqueue⟩ := heffect.queue hplace.queue hplace.settled hkeeps
  obtain ⟨hturn, hpolled, hreleased⟩ := hplace.turn_step heffect.turn hhead
  have hnotin := hqueue.notMem (Or.inr rfl) hplace.known hended hunwoken hplace.unlinked
  have hended' := heffect.ended (Or.inr rfl) hplace.known hended hplace.own hunwoken
    fun _ he => absurd he hhead
  refine ⟨⟨l', hl', heffect.settled hplace.queue hplace.settled,
    Nat.lt_of_lt_of_le hplace.known heffect.nextTask_le, hnotin, hturn⟩,
    ended_iff.mp hended', ?_, ?_, mt hl'.linked_iff.mp hnotin⟩
  · rw [← hsince.polled, count_turns rfl, count_turns rfl]
    exact hpolled
  · have hbefore := hsince.released
    rw [count_turns rfl] at hbefore ⊢
    omega

/--
**When completion is final.** In a run that keeps the shape of the ready queue, a task that is not
linked is set to finished. It stays finished, is neither polled again nor linked, so not freed in
the queue, and the runtime's reference to it is dropped exactly once, at the end of its turn,
exactly when no later step wakes it.
-/
theorem finished_is_final_iff {os₁ os₂ : List SchedulerOp}
    (hrun : Lib.run schedulerStep schedulerInit os₁ = .ok s₁)
    (hkeeps : Lib.Along schedulerStep KeepsQueue schedulerInit os₁)
    (hcontrol : s₁.control = .cleaning t true) (hlinked : ¬ s₁.Linked t)
    (hfinish : schedulerStep s₁ .cleaned = .ok s₂)
    (hrun' : Lib.run schedulerStep s₂ os₂ = .ok s₃)
    (hkeeps' : Lib.Along schedulerStep KeepsQueue s₂ os₂) :
    (∀ os os' s, os₂ = os ++ os' → Lib.run schedulerStep s₂ os = .ok s →
        FinishedSince t s₂ os s) ↔
      Lib.Along schedulerStep (fun s o => ¬ s.Wakes o t) s₂ os₂ := by
  obtain ⟨l, hl, hs⟩ := readyQueue_run hrun hkeeps
  have hnotin : t ∉ l := mt hl.linked_iff.mpr hlinked
  have heffect := schedulerStep_effect hfinish
  obtain ⟨v, nodes, hview, hmark, hcontrol'⟩ : ∃ v nodes, s₁.view t = some v ∧
      Rewritten s₁ s₂ t (some (.finished, v.2)) ∧ s₂.control = .waking t nodes := by
    simp only [schedulerStep, hcontrol] at hfinish
    obtain ⟨task, htask, hs₂⟩ := bind_eq_ok.mp hfinish
    cases hs₂
    have hmark := rewritten_setTask (s := s₁) (t := t) (some { task with status := .finished })
    exact ⟨_, task.wakeOnReady, view_of_task (task_eq_ok.mp htask), ⟨hmark.view, rfl, rfl, rfl⟩, rfl⟩
  have hknown : t < s₁.nextTask := by
    by_contra hge
    rw [hs.fresh t (by omega)] at hview
    cases hview
  have hl' : ReadyQueue l s₂ := hmark.readyQueue_mark hview (by simp) hl
  have hplace : FinishPlace t l [] s₂ :=
    ⟨hl', heffect.settled hl hs, Nat.lt_of_lt_of_le hknown heffect.nextTask_le, hnotin,
      nodes, hcontrol'⟩
  have hended : s₂.Ended t .finished := by
    intro w hw
    rw [hmark.view_self] at hw
    rw [← Option.some.inj hw]
  refine Lib.along_iff_prefixes (I := fun os s => ∃ l, FinishPlace t l os s)
    (Q := KeepsQueue) [] ?_ ?_ ⟨l, hplace⟩ ?_ hkeeps' hrun'
  · rintro os s o s' ⟨l', hplace⟩ hsince hunwoken hkeep hok
    exact (finishedSince_step hplace hsince hkeep hunwoken hok).1
  · rintro os s o s' ⟨l', hplace⟩ hsince hkeep hok
    refine ⟨?_, fun hunwoken =>
      (finishedSince_step hplace hsince hkeep hunwoken hok).2⟩
    intro hsince' hwoken
    obtain ⟨w, hw, hscheduled⟩ := (schedulerStep_effect hok).woken hwoken
    rw [ended_iff.mpr hsince'.status w hw] at hscheduled
    cases hscheduled
  · exact ⟨ended_iff.mp hended, rfl, by simp, mt hl'.linked_iff.mp hnotin⟩

theorem finished_is_final_iff_leave : ∃ s₁ s₂ s₃,
    Lib.run schedulerStep schedulerInit [.blockOn, .event, .take, .ret .ready] = .ok s₁ ∧
      schedulerStep s₁ .cleaned = .ok s₂ ∧
      Lib.run schedulerStep s₂ [.release, .drained, .leave] = .ok s₃ ∧
      FinishedSince 0 s₂ [.release, .drained, .leave] s₃ := by
  have hkeeps : Lib.Along schedulerStep KeepsQueue schedulerInit
      [.blockOn, .event, .take, .ret .ready] := by
    refine ⟨keepsQueue_silent (fun _ => id) fun _ => id, ?_⟩
    rintro _ ⟨⟩
    refine ⟨keepsQueue_silent (fun _ => id) fun _ => id, ?_⟩
    rintro _ ⟨⟩
    refine ⟨keepsQueue_silent (fun _ => id) fun _ => id, ?_⟩
    rintro _ ⟨⟩
    exact ⟨keepsQueue_silent (fun _ => id) fun _ => id, fun _ _ => trivial⟩
  have hunwoken : ∀ s, Lib.Along schedulerStep (fun s o => ¬ s.Wakes o 0) s
      [.release, .drained, .leave] := by
    refine fun s => Lib.along_of_forall ?_
    intro o ho s hwakes
    simp only [List.mem_cons, List.not_mem_nil, or_false] at ho
    rcases ho with rfl | rfl | rfl <;> exact hwakes
  -- with an empty queue nothing is linked
  have hempty : ∀ s : Scheduler, s.pollHead = none → ¬ s.Linked 0 := by
    rintro s hhead ⟨l, hchain, hmem⟩
    cases l with
    | nil => cases hmem
    | cons x l =>
      rw [hhead] at hchain
      cases hchain.1
  have hfinal := finished_is_final_iff (t := 0) rfl hkeeps rfl (hempty _ rfl) rfl
    (rfl : Lib.run schedulerStep _ [.release, .drained, .leave] = .ok _) (by
      refine ⟨⟨fun _ => False.elim, ?_⟩, ?_⟩
      · rintro _ rfl -
        exact hempty _ rfl
      · rintro _ ⟨⟩
        refine ⟨keepsQueue_silent (fun _ => id) fun _ => id, ?_⟩
        rintro _ ⟨⟩
        exact ⟨keepsQueue_silent (fun _ => id) fun _ => id, fun _ _ => trivial⟩)
  exact ⟨_, _, _, rfl, rfl, rfl, hfinal.mpr (hunwoken _) _ [] _ rfl rfl⟩

/-- A task that is woken in the poll that completes it is polled again, or freed in the queue. -/
theorem finished_is_undone :
    (∃ s₁ s₂ s₃, Lib.run schedulerStep schedulerInit
          [.spawn true, .blockOn, .event, .take, .wake 0, .ret .ready] = .ok s₁ ∧
        schedulerStep s₁ .cleaned = .ok s₂ ∧
        Lib.run schedulerStep s₂ [.release, .take, .ret .pending, .take] = .ok s₃ ∧
        (∃ task, s₂.tasks 0 = some task ∧ task.status = .finished) ∧
        (∃ task, s₃.tasks 0 = some task ∧ task.status = .suspended) ∧
        s₂.events.count (.polled 0) < s₃.events.count (.polled 0)) ∧
      ∃ s, Lib.run schedulerStep schedulerInit
          [.blockOn, .event, .take, .wake 0, .ret .ready, .cleaned, .release] = .ok s ∧
        s.tasks 0 = none ∧ s.Linked 0 := by
  refine ⟨⟨_, _, _, rfl, rfl, rfl, ⟨_, rfl, rfl⟩, ⟨_, rfl, rfl⟩, by decide⟩, _, rfl, rfl, ?_⟩
  exact ⟨[0], ⟨rfl, rfl⟩, List.mem_singleton.mpr rfl⟩

end Taskio
