import Taskio.Runtime.Turn

/-!
# Abort

* `abort_is_final_iff` — an abort is final exactly when the task was scheduled and is never woken
  again
-/

namespace Taskio

variable {s s' s₁ s₂ s₃ : Scheduler} {l l' : List Nat} {t : Nat} {o : SchedulerOp}
  {os : List SchedulerOp}

/-- What an abort promises, after the steps `os` since, for a task with `n` tasks before it. -/
structure AbortedSince (t : Nat) (s₀ : Scheduler) (n : Nat) (os : List SchedulerOp)
    (s : Scheduler) : Prop where
  status : ∀ task, s.tasks t = some task →
    handleIsAborted task = true ∧ handleIsFinished task = false
  polled : s.events.count (.polled t) = s₀.events.count (.polled t)
  cleanedUp : s.events.count (.cleanedUp t) =
    s₀.events.count (.cleanedUp t) + if os.count .take ≤ n then 0 else 1

/-- Where the aborted task is: `n` tasks were before it, then it has had its turn. -/
structure AbortPlace (t n : Nat) (l : List Nat) (os : List SchedulerOp) (s : Scheduler) : Prop where
  queue : ReadyQueue l s
  settled : Settled s
  known : t < s.nextTask
  own : ¬ s.OwnPoll t
  place : (∃ u v, l = u ++ t :: v ∧ u.length + os.count .take = n) ∨ t ∉ l ∧ n < os.count .take

theorem ended_aborted_iff : s.Ended t .aborted ↔ ∀ task, s.tasks t = some task →
    handleIsAborted task = true ∧ handleIsFinished task = false := by
  rw [ended_iff]
  refine forall_congr' fun task => forall_congr' ?_
  intro _
  rw [handleIsAborted, handleIsFinished]
  cases task.status <;> simp

theorem count_take_append (os : List SchedulerOp) (o : SchedulerOp) :
    (os ++ [o]).count .take = os.count .take + if o = .take then 1 else 0 := by
  rw [List.count_append, List.count_singleton]
  simp only [beq_iff_eq]

/-- The tasks before it are taken one by one, and then the task itself. -/
theorem AbortPlace.place_step {n : Nat} (h : AbortPlace t n l os s) (hqueue : QueueStep s l o l')
    (ht : s.Ended t .aborted) (hunwoken : ¬ s.Wakes o t) :
    (∃ u v, l' = u ++ t :: v ∧ u.length + (os ++ [o]).count .take = n) ∨
      t ∉ l' ∧ n < (os ++ [o]).count .take := by
  rw [count_take_append]
  rcases h.place with ⟨u, v, hl, hn⟩ | ⟨hnotin, hn⟩
  · cases hqueue with
    | same ho =>
      rw [if_neg ho]
      exact Or.inl ⟨u, v, hl, hn⟩
    | @push _ x ho =>
      rw [if_neg ho]
      exact Or.inl ⟨u, v ++ [x], by rw [hl]; simp, hn⟩
    | @pop x _ hl' hnotin =>
      rw [if_pos rfl]
      rw [hl'] at hl
      cases u with
      | nil =>
        obtain ⟨rfl, rfl⟩ := List.cons.inj hl
        exact Or.inr ⟨hnotin, by simp only [List.length_nil] at hn; omega⟩
      | cons y u =>
        obtain ⟨rfl, rfl⟩ := List.cons.inj hl
        exact Or.inl ⟨u, v, rfl, by simp only [List.length_cons] at hn; omega⟩
  · exact Or.inr ⟨hqueue.notMem (Or.inl rfl) h.known ht hunwoken hnotin, by omega⟩

/-- The aborted task is the head when the tasks before it were taken. -/
theorem AbortPlace.head_iff {n x : Nat} (h : AbortPlace t n l os s) (hx : s.pollHead = some x) :
    (x = t → os.count .take = n) ∧ (x ≠ t → (os.count .take + 1 ≤ n ↔ os.count .take ≤ n)) := by
  have hhead := h.queue.queue.chain.head?_eq.trans hx
  rcases h.place with ⟨u, v, rfl, hn⟩ | ⟨hnotin, hn⟩
  · have hnotin : t ∉ u := by
      have hnodup := h.queue.queue.nodup
      rw [List.nodup_append] at hnodup
      exact fun hu => hnodup.2.2 t hu t (by simp) rfl
    cases u with
    | nil =>
      obtain rfl : t = x := Option.some.inj hhead
      exact ⟨fun _ => by simpa using hn, fun hne => absurd rfl hne⟩
    | cons y u =>
      obtain rfl : y = x := Option.some.inj hhead
      simp only [List.length_cons] at hn
      exact ⟨fun he => absurd (he ▸ List.mem_cons_self ..) hnotin, fun _ => by omega⟩
  · exact ⟨fun he => absurd (he ▸ List.mem_of_mem_head? hhead) hnotin, fun _ => by omega⟩

/-- One step after an abort. -/
theorem abortedSince_step {n : Nat} {s₀ : Scheduler} (hplace : AbortPlace t n l os s)
    (hsince : AbortedSince t s₀ n os s) (hkeeps : KeepsQueue s o) (hunwoken : ¬ s.Wakes o t)
    (hok : schedulerStep s o = .ok s') :
    (∃ l', AbortPlace t n l' (os ++ [o]) s') ∧ AbortedSince t s₀ n (os ++ [o]) s' := by
  have heffect := schedulerStep_effect hok
  have hended := ended_aborted_iff.mpr hsince.status
  have hhead : ∀ v, s.pollHead = some t → s.view t = some v → v.1 = .aborted :=
    fun v _ => hended v
  obtain ⟨l', hl', hqueue⟩ := heffect.queue hplace.queue hplace.settled hkeeps
  have hplace' : AbortPlace t n l' (os ++ [o]) s' :=
    ⟨hl', heffect.settled hplace.queue hplace.settled,
      Nat.lt_of_lt_of_le hplace.known heffect.nextTask_le, heffect.turn.ownPoll hplace.own hhead,
      hplace.place_step hqueue hended hunwoken⟩
  have hended' := heffect.ended (Or.inl rfl) hplace.known hended hplace.own hunwoken hhead
  -- the turns of other tasks are not counted
  have hcounts : s'.turns.count (.polled t) = s.turns.count (.polled t) ∧
      s'.turns.count (.cleanedUp t) + (if os.count .take ≤ n then 0 else 1) =
        s.turns.count (.cleanedUp t) + if (os ++ [o]).count .take ≤ n then 0 else 1 := by
    rw [count_take_append]
    cases heffect.turn with
    | idle ho _ hturns => rw [hturns, if_neg ho.1]; simp
    | @cleaning x hx _ _ hturns =>
      rw [hturns, if_pos rfl]
      obtain ⟨hself, hother⟩ := hplace.head_iff hx
      by_cases hxt : x = t
      · rw [hself hxt, hxt]
        simp
      · simp only [hother hxt]
        simp [hxt]
    | @polling x v hx hview hstatus _ _ hturns =>
      have hxt : x ≠ t := by
        rintro rfl
        exact hstatus (hended v hview)
      rw [hturns, if_pos rfl]
      simp only [(hplace.head_iff hx).2 hxt]
      simp [hxt]
    | @ready x hcontrol hcontrol' hturns =>
      have hxt : x ≠ t := fun he => hplace.own (Or.inl (he ▸ hcontrol))
      rw [hturns]
      simp [hxt]
    | finish hcontrol hcontrol' hturns => rw [hturns]; simp
    | release hcontrol hcontrol' hturns => rw [hturns]; simp
  refine ⟨⟨l', hplace'⟩, ended_aborted_iff.mp hended', ?_, ?_⟩
  · rw [← hsince.polled, count_turns rfl, count_turns rfl]
    exact hcounts.1
  · have hbefore := hsince.cleanedUp
    have hstep := hcounts.2
    rw [count_turns rfl] at hbefore ⊢
    omega

/-- Aborting a scheduled task marks it where it is. -/
theorem handleAbort_scheduled {task : Task} (htask : s.tasks t = some task)
    (hblocking : task.blocking = false) (hstatus : task.status = .scheduled)
    (hok : handleAbort s t = .ok s') : s' = s.setTask t (some { task with status := .aborted }) := by
  obtain ⟨task', htask', hok⟩ := bind_eq_ok.mp hok
  obtain rfl : task = task' := Option.some.inj (htask.symm.trans (handleTask_ok htask').1)
  simp only [hstatus] at hok
  rw [if_neg (by simp [hblocking])] at hok
  exact (Except.ok.inj hok).symm

/-- Aborting a suspended task marks it, and the mark is overwritten at once. -/
theorem handleAbort_suspended {task : Task} (htask : s.tasks t = some task)
    (hblocking : task.blocking = false) (hstatus : task.status = .suspended)
    (hok : handleAbort s t = .ok s') : ¬ s'.Ended t .aborted := by
  obtain ⟨task', htask', hok⟩ := bind_eq_ok.mp hok
  obtain rfl : task = task' := Option.some.inj (htask.symm.trans (handleTask_ok htask').1)
  simp only [hstatus] at hok
  rw [if_neg (by simp [hblocking])] at hok
  obtain ⟨v, hview, hadd⟩ := taskAddEventLoop_ok hok
  have hmark := rewritten_setTask (s := s) (t := t) (some { task with status := .aborted })
  rw [hmark.view_self] at hview
  intro hended
  rcases hadd with ⟨hscheduled, -⟩ | ⟨-, henq, -⟩
  · rw [← Option.some.inj hview] at hscheduled
    cases hscheduled
  · have hview' := henq.view t
    rw [hmark.view_self] at hview'
    have hnow : (if t = t then TaskStatus.scheduled else .aborted) = .aborted := hended _ hview'
    rw [if_pos rfl] at hnow
    cases hnow

/--
**When an abort is final.** In a run that keeps the shape of the ready queue, a task is aborted
outside its own poll. It stays aborted, is not polled again and is cleaned up exactly once, when its
turn comes, exactly when it was scheduled at the abort and no later step wakes it.
-/
theorem abort_is_final_iff {os₁ os₂ : List SchedulerOp} {task : Task}
    (hrun : Lib.run schedulerStep schedulerInit os₁ = .ok s₁)
    (hkeeps : Lib.Along schedulerStep KeepsQueue schedulerInit os₁)
    (htask : s₁.tasks t = some task) (hblocking : task.blocking = false)
    (hstatus : task.status = .suspended ∨ task.status = .scheduled) (hown : ¬ s₁.OwnPoll t)
    (habort : schedulerStep s₁ (.abort t) = .ok s₂)
    (hrun' : Lib.run schedulerStep s₂ os₂ = .ok s₃)
    (hkeeps' : Lib.Along schedulerStep KeepsQueue s₂ os₂) :
    ∃ l, Lib.Chain s₁.next s₁.pollHead l ∧
      ((∀ os os' s, os₂ = os ++ os' → Lib.run schedulerStep s₂ os = .ok s →
          AbortedSince t s₂ (l.idxOf t) os s) ↔
        task.status = .scheduled ∧
          Lib.Along schedulerStep (fun s o => ¬ s.Wakes o t) s₂ os₂) := by
  obtain ⟨l, hl, hs⟩ := readyQueue_run hrun hkeeps
  refine ⟨l, hl.queue.chain, ?_⟩
  have habort : handleAbort s₁ t = .ok s₂ := habort
  rcases hstatus with hstatus | hstatus
  · -- the mark is gone in the state after the abort
    refine iff_of_false ?_ ?_
    · intro hall
      have hsince := hall [] os₂ s₂ rfl rfl
      exact handleAbort_suspended htask hblocking hstatus habort (ended_aborted_iff.mpr hsince.status)
    · intro h
      rw [hstatus] at h
      cases h.1
  · obtain rfl := handleAbort_scheduled htask hblocking hstatus habort
    have hview := view_of_task htask
    have hmark := rewritten_setTask (s := s₁) (t := t) (some { task with status := .aborted })
    have hended : (s₁.setTask t (some { task with status := .aborted })).Ended t .aborted := by
      intro v hv
      rw [hmark.view_self] at hv
      rw [← Option.some.inj hv]
    obtain ⟨u, v, rfl⟩ := List.append_of_mem (hl.scheduled t task htask hstatus)
    have hindex : (u ++ t :: v).idxOf t = u.length := by
      have hnodup := hl.queue.nodup
      rw [List.nodup_append] at hnodup
      rw [List.idxOf_append_of_notMem fun hu => hnodup.2.2 t hu t (by simp) rfl,
        List.idxOf_cons_self, Nat.add_zero]
    have hknown : t < s₁.nextTask := by
      by_contra hge
      rw [hs.fresh t (by omega)] at hview
      cases hview
    have hplace : AbortPlace t ((u ++ t :: v).idxOf t) (u ++ t :: v) []
        (s₁.setTask t (some { task with status := .aborted })) :=
      ⟨hmark.readyQueue_mark hview (by simp) hl, hmark.settled (by simp [hview]) hs (by simp),
        hknown, hown, Or.inl ⟨u, v, rfl, hindex.symm⟩⟩
    rw [and_iff_right hstatus]
    refine Lib.along_iff_prefixes (I := fun os s => ∃ l, AbortPlace t _ l os s)
      (Q := KeepsQueue) [] ?_ ?_ ⟨_, hplace⟩ ?_ hkeeps' hrun'
    · rintro os s o s' ⟨l', hplace⟩ hsince hunwoken hkeep hok
      exact (abortedSince_step hplace hsince hkeep hunwoken hok).1
    · rintro os s o s' ⟨l', hplace⟩ hsince hkeep hok
      refine ⟨?_, fun hunwoken =>
        (abortedSince_step hplace hsince hkeep hunwoken hok).2⟩
      intro hsince' hwoken
      obtain ⟨v, hv, hscheduled⟩ := (schedulerStep_effect hok).woken hwoken
      rw [ended_aborted_iff.mpr hsince'.status v hv] at hscheduled
      cases hscheduled
    · exact ⟨ended_aborted_iff.mp hended, rfl, by simp⟩

theorem abort_is_final_iff_cleaned : ∃ s₁ s₂ s₃ n,
    Lib.run schedulerStep schedulerInit [.spawn true, .blockOn] = .ok s₁ ∧
      schedulerStep s₁ (.abort 0) = .ok s₂ ∧
      Lib.run schedulerStep s₂ [.event, .take, .cleaned, .release] = .ok s₃ ∧
      AbortedSince 0 s₂ n [.event, .take, .cleaned, .release] s₃ := by
  have hkeeps : Lib.Along schedulerStep KeepsQueue schedulerInit [.spawn true, .blockOn] := by
    refine ⟨keepsQueue_silent (fun _ => id) fun _ => id, ?_⟩
    rintro _ ⟨⟩
    exact ⟨keepsQueue_silent (fun _ => id) fun _ => id, fun _ _ => trivial⟩
  have hunwoken : ∀ s, Lib.Along schedulerStep (fun s o => ¬ s.Wakes o 0) s
      [.event, .take, .cleaned, .release] := by
    refine fun s => Lib.along_of_forall ?_
    intro o ho s hwakes
    simp only [List.mem_cons, List.not_mem_nil, or_false] at ho
    rcases ho with rfl | rfl | rfl | rfl <;> exact hwakes
  obtain ⟨l, -, hiff⟩ := abort_is_final_iff (t := 0) rfl hkeeps rfl rfl (Or.inr rfl)
    (by rintro (h | h) <;> cases h) rfl
    (rfl : Lib.run schedulerStep _ [.event, .take, .cleaned, .release] = .ok _) (by
      refine ⟨keepsQueue_silent (fun _ => id) fun _ => id, ?_⟩
      rintro _ ⟨⟩
      refine ⟨keepsQueue_silent (fun _ => id) fun _ => id, ?_⟩
      rintro _ ⟨⟩
      refine ⟨keepsQueue_silent (fun _ => id) fun _ => id, ?_⟩
      rintro _ ⟨⟩
      refine ⟨⟨fun _ => False.elim, ?_⟩, fun _ _ => trivial⟩
      -- the handle is still held
      rintro _ rfl ⟨task, ⟨⟩, hone⟩
      cases hone)
  exact ⟨_, _, _, _, rfl, rfl, rfl, hiff.mpr ⟨rfl, hunwoken _⟩ _ [] _ rfl rfl⟩

/-- A task that is aborted while suspended is not aborted, and is polled again. -/
theorem abort_is_undone : ∃ s₁ s₂ s₃,
    Lib.run schedulerStep schedulerInit
        [.spawn true, .blockOn, .event, .take, .ret .pending] = .ok s₁ ∧
      schedulerStep s₁ (.abort 0) = .ok s₂ ∧
      Lib.run schedulerStep s₂ [.take, .ret .pending, .take] = .ok s₃ ∧
      (∃ task, s₂.tasks 0 = some task ∧ handleIsAborted task = false) ∧
      s₂.events.count (.polled 0) < s₃.events.count (.polled 0) ∧
      s₃.events.count (.cleanedUp 0) = 0 :=
  ⟨_, _, _, rfl, rfl, rfl, ⟨_, rfl, rfl⟩, by decide, by decide⟩

end Taskio
