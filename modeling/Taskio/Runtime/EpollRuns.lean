import Taskio.Runtime.Epoll
import Taskio.Runtime.ReferenceRuns
import Taskio.Runtime.Wakeups

/-!
# Runs of the event loop

* `fairQueue_iff` — when wakes become polls, with the timer ticking in between
* `block_on_returns_iff` — when `taskio_runtime_block_on` returns

Both meet with the read of `timer_fd`: where the tasks that are polled in the branch of `event_fd` take
the last timer out of the wheels, the timer is disarmed, and the read that comes next in the list does
not return.
-/

namespace Taskio

variable {s s' : EpollLoop} {o : EpollOp} {l : List Nat} {t : Nat}

/-! ## The read of `timer_fd` -/

/-- If a read of `timer_fd` comes next it returns, at the latest when the timer expires. -/
def EpollLoop.Readable (s : EpollLoop) : Prop :=
  s.rest.head? = some .timer → 0 < s.expirations ∨ s.armed = true

instance (s : EpollLoop) : Decidable s.Readable := inferInstanceAs (Decidable (_ → _))

/-- Only the loop over the ready queue can leave it unreadable. -/
theorem readable_step (hlaw : EpollLaw s) (hs : s.stage = .list → s.Readable)
    (hok : epollStep s o = .ok s') :
    (s'.stage = .list → s'.Readable) ↔ (o = .step .drained → s.Readable) := by
  cases epollStep_cases hok with
  | step ho hstep heq =>
    subst heq
    refine iff_of_true hs ?_
    intro hdrained
    cases hdrained
    exact absurd rfl ho.2.1
  | drained hstep heq =>
    subst heq
    exact ⟨fun h _ => h rfl, fun h _ => h rfl⟩
  | leave hstage hrest hstep heq =>
    subst heq
    exact iff_of_true hs (by rintro ⟨⟩)
  | settime hstage heq =>
    subst heq
    refine iff_of_true ?_ (by rintro ⟨⟩)
    intro hlist htimer
    refine absurd ⟨hlist, ?_⟩ hstage
    rintro hrest
    simp only [hrest] at htimer
    cases htimer
  | expire harmed heq =>
    subst heq
    exact iff_of_true (fun _ _ => Or.inl (Nat.succ_pos _)) (by rintro ⟨⟩)
  | wait hstage hreturns heq =>
    subst heq
    refine iff_of_true ?_ (by rintro ⟨⟩)
    intro _ htimer
    exact Or.inl (hreturns.2.2.2.2.2 _ (List.mem_of_mem_head? htimer))
  | event hstage hrest hstep heq =>
    subst heq
    exact iff_of_true (by rintro ⟨⟩) (by rintro ⟨⟩)
  | timer hstage hrest hpos heq =>
    subst heq
    exact iff_of_true (by rintro ⟨⟩) (by rintro ⟨⟩)
  | tick hstage heq =>
    subst heq
    refine iff_of_true ?_ (by rintro ⟨⟩)
    intro _ htimer
    exact absurd (List.mem_of_mem_head? htimer) (hlaw.ticking _ hstage).2

/-! ## Wakes become polls -/

/-- The tasks go through steps that keep the queue, and the loop over it leaves the timer readable. -/
structure KeepsEpoll (s : EpollLoop) (o : EpollOp) : Prop where
  queue : Lib.Along schedulerStep KeepsQueue s.scheduler (s.schedulerOps o)
  timer : o = .step .drained → s.Readable

/-- The tasks that the step queues. -/
def EpollLoop.queues (s : EpollLoop) (o : EpollOp) : List Nat :=
  (s.schedulerOps o).flatMap s.scheduler.queues

/-- `worker_run` does not come to a halt over a queued task. -/
structure LoopProgresses (l : List Nat) (s : EpollLoop) : Prop where
  /-- `epoll_wait` returns -/
  wait : s.stage = .list → s.rest = [] → s.scheduler.control = .waiting →
    s.scheduler.running = true → l ≠ [] → ∃ s', epollStep s (.wait [.event]) = .ok s'
  /-- the loop over the queue begins -/
  event : s.stage = .list → s.rest.head? = some .event →
    ∃ s', epollStep s .next = .ok s' ∧ s'.scheduler.control = .draining
  /-- the read of `timer_fd` returns, or the timer expires and it returns then -/
  timer : s.stage = .list → s.rest.head? = some .timer →
    (∃ s', epollStep s .next = .ok s') ∨
      ∃ s₁ s', epollStep s .expire = .ok s₁ ∧ epollStep s₁ .next = .ok s'
  /-- the head of the queue is polled next, and the loop does not end before -/
  drain : s.scheduler.control = .draining → ∀ t l', l = t :: l' →
    (∃ s', epollStep s (.step .take) = .ok s' ∧ s'.scheduler.polls = s.scheduler.polls ++ [t]) ∧
      epollStep s (.step .drained) = .error .noSuchCall

theorem FairQueue.loopProgresses_iff {queued : List Nat} (h : FairQueue queued l s.scheduler)
    (hnone : NoneAborted s.scheduler) (hlaw : EpollLaw s) :
    LoopProgresses l s ↔ (s.stage = .list → s.Readable) := by
  have hprogress := h.progress hnone
  constructor
  · intro hloop hstage htimer
    rcases hloop.timer hstage htimer with ⟨s', hok⟩ | ⟨s₁, s', hok, -⟩
    · cases epollStep_cases hok with
      | event _ hrest =>
        rw [hrest] at htimer
        cases htimer
      | timer _ _ hpos => exact Or.inl hpos
    · cases epollStep_cases hok with
      | expire harmed => exact Or.inr harmed
  · intro hreadable
    refine ⟨?_, ?_, ?_, ?_⟩
    · intro hstage hrest hcontrol hrunning hl
      have hfd := (h.notified hcontrol).resolve_left hl
      have hreturns : s.Returns [.event] :=
        ⟨hrest, hcontrol, hrunning, by simp, by simp, by simpa [EpollLoop.Ready] using hfd⟩
      refine ⟨{ s with rest := [.event] }, ?_⟩
      simp only [epollStep, hstage]
      exact if_pos hreturns
    · intro hstage hhead
      obtain ⟨rest, hrest⟩ := List.head?_eq_some_iff.mp hhead
      obtain ⟨-, hrunning, hfd⟩ := hlaw.event (by simp [hrest])
      have hcontrol := hlaw.waiting hstage (by simp [hrest])
      have hstep : schedulerStep s.scheduler .event =
          .ok { s.scheduler with eventFd := 0, control := .draining } := by
        simp only [schedulerStep, hcontrol]
        exact if_pos ⟨hrunning, hfd⟩
      refine ⟨{ s with
          scheduler := { s.scheduler with eventFd := 0, control := .draining }
          rest := rest
          stage := .draining }, ?_, rfl⟩
      simp only [epollStep, hstage, hrest, hstep, ok_bind]
    · intro hstage hhead
      obtain ⟨rest, hrest⟩ := List.head?_eq_some_iff.mp hhead
      have hread : ∀ {s₁ : EpollLoop}, s₁.stage = .list → s₁.rest = .timer :: rest →
          0 < s₁.expirations → ∃ s', epollStep s₁ .next = .ok s' := by
        intro s₁ hstage₁ hrest₁ hpos
        simp only [epollStep, hstage₁, hrest₁]
        exact ⟨_, if_neg (Nat.ne_of_gt hpos)⟩
      rcases hreadable hstage hhead with hpos | harmed
      · exact Or.inl (hread hstage hrest hpos)
      · right
        obtain ⟨s', hnext⟩ :=
          @hread { s with expirations := s.expirations + 1 } hstage hrest (Nat.succ_pos _)
        exact ⟨_, s', by simp only [epollStep]; exact if_pos harmed, hnext⟩
    · rintro hcontrol t l' rfl
      obtain ⟨⟨scheduler, hstep, hpolls⟩, hdrained⟩ := hprogress.drain hcontrol t l' rfl
      refine ⟨⟨{ s with scheduler := scheduler }, ?_, hpolls⟩, ?_⟩
      · simp only [epollStep, hstep, ok_bind]
      · simp only [epollStep, hdrained, error_bind]

/-- What a run without aborts keeps, whatever becomes of the queue. -/
structure LoopInvariant (s : EpollLoop) : Prop where
  law : EpollLaw s
  settled : Settled s.scheduler
  notified : Notified s.scheduler
  noneAborted : NoneAborted s.scheduler

theorem loopInvariant_init : LoopInvariant epollInit :=
  ⟨epollLaw_init, settled_init, notified_init, noneAborted_init⟩

section

variable {queued : List Nat}

theorem loopInvariant_step (h : LoopInvariant s) (hl : FairQueue queued l s.scheduler)
    (hno : Lib.Along schedulerStep NoAborts s.scheduler (s.schedulerOps o))
    (hok : epollStep s o = .ok s') : LoopInvariant s' := by
  obtain ⟨hlaw, hs, hn, hnone⟩ := h
  rcases epollStep_scheduler hok with ⟨-, hsame⟩ | ⟨o', hops, hstep⟩
  · rw [← hsame] at hs hn hnone
    exact ⟨epollLaw_step hlaw hok, hs, hn, hnone⟩
  · rw [hops] at hno
    have heffect := schedulerStep_effect hstep
    exact ⟨epollLaw_step hlaw hok, heffect.settled hl.queue hs, notified_step hn hstep,
      noneAborted_step heffect hnone hno.1⟩

/-- The tasks keep the order of the queue exactly if the step of the scheduler keeps the queue. -/
theorem fairQueue_epollStep_iff (h : LoopInvariant s) (hl : FairQueue queued l s.scheduler)
    (hno : Lib.Along schedulerStep NoAborts s.scheduler (s.schedulerOps o))
    (hok : epollStep s o = .ok s') :
    (∃ l', FairQueue (queued ++ s.queues o) l' s'.scheduler) ↔
      Lib.Along schedulerStep KeepsQueue s.scheduler (s.schedulerOps o) := by
  rcases epollStep_scheduler hok with ⟨hops, hsame⟩ | ⟨o', hops, hstep⟩
  · have hqueues : s.queues o = [] := by
      rw [EpollLoop.queues, hops]
      rfl
    rw [hqueues, List.append_nil, hsame, hops]
    exact iff_of_true ⟨l, hl⟩ trivial
  · rw [hops] at hno
    have hqueues : s.queues o = s.scheduler.queues o' := by
      rw [EpollLoop.queues, hops]
      exact List.append_nil _
    rw [hqueues, hops, fairQueue_step_iff hl h.settled h.notified h.noneAborted hno.1 hstep]
    exact ⟨fun hkeeps => ⟨hkeeps, fun _ _ => trivial⟩, And.left⟩

/-- One step keeps the promise exactly if it keeps the queue and leaves the timer readable. -/
theorem fairLoop_step_iff (h : LoopInvariant s) (hl : FairQueue queued l s.scheduler)
    (hloop : LoopProgresses l s)
    (hno : Lib.Along schedulerStep NoAborts s.scheduler (s.schedulerOps o))
    (hok : epollStep s o = .ok s') :
    (∃ l', FairQueue (queued ++ s.queues o) l' s'.scheduler ∧ LoopProgresses l' s') ↔
      KeepsEpoll s o := by
  have hqueue := fairQueue_epollStep_iff h hl hno hok
  have hreadable := readable_step h.law ((hl.loopProgresses_iff h.noneAborted h.law).mp hloop) hok
  have h' := loopInvariant_step h hl hno hok
  constructor
  · rintro ⟨l', hl', hloop'⟩
    exact ⟨hqueue.mp ⟨l', hl'⟩,
      hreadable.mp ((hl'.loopProgresses_iff h'.noneAborted h'.law).mp hloop')⟩
  · rintro ⟨hkeeps, htimer⟩
    obtain ⟨l', hl'⟩ := hqueue.mpr hkeeps
    exact ⟨l', hl', (hl'.loopProgresses_iff h'.noneAborted h'.law).mpr (hreadable.mpr htimer)⟩

end

/--
**When wakes become polls.** In a run without aborts the polls follow the order of queueing, one for
each task queued, and the worker does not come to a halt over a queued task, in every state exactly when
each waker call finds its task scheduled or not linked, no linked task is freed, and the read of
`timer_fd` that follows on the loop over the queue finds the timer expired or armed.
-/
theorem fairQueue_iff (os : List EpollOp) (hrun : Lib.run epollStep epollInit os = .ok s)
    (hno : Lib.Along epollStep
      (fun s o => Lib.Along schedulerStep NoAborts s.scheduler (s.schedulerOps o)) epollInit os) :
    (∀ os₁ os₂ s₁, os = os₁ ++ os₂ → Lib.run epollStep epollInit os₁ = .ok s₁ →
        ∃ l, FairQueue (Lib.emitted epollStep EpollLoop.queues epollInit os₁) l s₁.scheduler ∧
          LoopProgresses l s₁) ↔
      Lib.Along epollStep KeepsEpoll epollInit os := by
  refine Lib.along_iff_prefixes
    (I := fun os s => Lib.run epollStep epollInit os = .ok s ∧ LoopInvariant s)
    (L := fun os s => ∃ l, FairQueue (Lib.emitted epollStep EpollLoop.queues epollInit os) l
      s.scheduler ∧ LoopProgresses l s) [] ?_ ?_ ⟨rfl, loopInvariant_init⟩ ?_ hno hrun
  · rintro os s o s' ⟨hrun, h⟩ ⟨l, hl, -⟩ - hno hok
    exact ⟨Lib.run_append.mpr ⟨s, hrun, Lib.run_cons_ok hok⟩, loopInvariant_step h hl hno hok⟩
  · rintro os s o s' ⟨hrun, h⟩ ⟨l, hl, hloop⟩ hno hok
    have hemitted : Lib.emitted epollStep EpollLoop.queues epollInit (os ++ [o]) =
        Lib.emitted epollStep EpollLoop.queues epollInit os ++ s.queues o := by
      rw [Lib.emitted_append hrun]
      simp only [Lib.emitted, hok, List.append_nil]
    rw [hemitted]
    exact fairLoop_step_iff h hl hloop hno hok
  · refine ⟨[], fairQueue_init, ?_⟩
    refine (FairQueue.loopProgresses_iff fairQueue_init noneAborted_init epollLaw_init).mpr ?_
    rintro - ⟨⟩

/-- A task that is woken in its poll, and then the ticks that came with it. -/
def wokenBatch : List EpollOp :=
  [.settime true, .expire, .step .blockOn, .wait [.event, .timer], .next, .step .take,
    .step (.wake 0), .step (.ret .pending), .step .take, .step (.ret .pending), .step .drained, .next,
    .tick]

theorem keepsEpoll_wokenBatch : Lib.Along epollStep KeepsEpoll epollInit wokenBatch := by
  obtain ⟨s, hrun, -⟩ : ∃ s, Lib.run epollStep epollInit wokenBatch = .ok s ∧ s.rest = [] :=
    Lib.exists_ok_of_decide (by decide)
  have hops : Lib.emitted epollStep EpollLoop.schedulerOps epollInit wokenBatch =
      [.blockOn, .event, .take, .wake 0, .ret .pending] ++ [.take, .ret .pending, .drained] := by
    decide
  have hqueue : Lib.Along epollStep
      (fun s o => Lib.Along schedulerStep KeepsQueue s.scheduler (s.schedulerOps o)) epollInit
      wokenBatch := Lib.along_of_projects EpollLoop.scheduler epollStep_projects hrun (by
      rw [hops]
      refine keepsQueue_ownWake.append fun _ _ => Lib.along_of_forall ?_
      intro o ho s
      simp only [List.mem_cons, List.not_mem_nil, or_false] at ho
      rcases ho with rfl | rfl | rfl
      all_goals exact keepsQueue_silent (fun _ => id) fun _ => id)
  have htimer : Lib.Along epollStep (fun s o => o = .step .drained → s.Readable) epollInit
      wokenBatch := by decide
  exact (hqueue.and htimer).imp fun s o h => ⟨h.1, h.2⟩

theorem fairQueue_iff_wake : ∃ s l, Lib.run epollStep epollInit wokenBatch = .ok s ∧
    FairQueue [0, 0] l s.scheduler ∧ LoopProgresses l s := by
  obtain ⟨s, hrun, -⟩ : ∃ s, Lib.run epollStep epollInit wokenBatch = .ok s ∧ s.rest = [] :=
    Lib.exists_ok_of_decide (by decide)
  obtain ⟨l, hfair, hloop⟩ :=
    (fairQueue_iff _ hrun (by decide)).mpr keepsEpoll_wokenBatch _ [] s (List.append_nil _).symm hrun
  exact ⟨s, l, hrun, hfair, hloop⟩

/-- Task 1 leaves its waker with task 2 and returns ready. Task 2 returns ready and calls it, and then
the main task wakes task 3 and drops its handle of task 1. -/
def lostWake : List EpollOp :=
  [.step .blockOn, .wait [.event], .next, .step .take, .step (.spawn true), .step (.spawn true),
    .step (.spawn true), .step (.ret .pending),
    .step .take, .step (.join 2 ⟨1, none⟩), .step (.wake 1), .step (.ret .pending),
    .step .take, .step (.wake 2), .step (.ret .pending), .step .take, .step (.ret .pending),
    .step .take, .step (.ret .ready), .step .cleaned, .step .release,
    .step .take, .step (.wake 0), .step (.ret .ready), .step .cleaned, .step .wakeJoiner,
    .step .release, .step .take, .step (.wake 3), .step (.drop 1), .step (.ret .pending)]

/-- A timer wakes the main task and ticks on. Before the next tick is read the main task is polled and
takes the last timer out, and then it is woken by another thread. -/
def blockedRead : List EpollOp :=
  [.step .blockOn, .wait [.event], .next, .step .take, .settime true, .step (.ret .pending),
    .step .drained, .expire, .wait [.timer], .next, .step (.wake 0), .tick, .expire,
    .wait [.event, .timer], .next, .step .take, .settime false, .step (.ret .pending), .step .drained,
    .step (.wake 0)]

/-- The condition under which the claim is made. -/
def NoneReadyWoken (s : EpollLoop) (o : EpollOp) : Prop :=
  ∀ o' ∈ s.schedulerOps o, s.scheduler.readyWoken o' = false

instance (s : EpollLoop) (o : EpollOp) : Decidable (NoneReadyWoken s o) :=
  inferInstanceAs (Decidable (∀ _ ∈ _, _))

/-- The last handle frees task 1 in the queue, so task 3 behind it is not polled again; and in the
second run the worker blocks in the read of `timer_fd`, with the main task in the queue. -/
theorem woken_task_lost :
    (∃ s, Lib.run epollStep epollInit lostWake = .ok s ∧
        Lib.Along epollStep (fun s o => Lib.Along schedulerStep NoAborts s.scheduler (s.schedulerOps o))
          epollInit lostWake ∧
        Lib.Along epollStep NoneReadyWoken epollInit lostWake ∧
        Lib.emitted epollStep EpollLoop.queues epollInit lostWake = [0, 1, 2, 3, 1, 2, 0, 1, 3] ∧
        s.scheduler.polls = [0, 1, 2, 3, 1, 2, 0] ∧ s.scheduler.control = .draining ∧
        epollStep s (.step .take) = .error .useAfterFree ∧
        ¬ ∃ l, FairQueue (Lib.emitted epollStep EpollLoop.queues epollInit lostWake) l s.scheduler) ∧
      ∃ s, Lib.run epollStep epollInit blockedRead = .ok s ∧
        Lib.Along epollStep (fun s o => Lib.Along schedulerStep NoAborts s.scheduler (s.schedulerOps o))
          epollInit blockedRead ∧
        Lib.Along epollStep NoneReadyWoken epollInit blockedRead ∧
        s.scheduler.pollHead = some 0 ∧ s.stage = .list ∧ s.rest = [.timer] ∧
        epollStep s .next = .error .noSuchCall ∧ epollStep s .expire = .error .noSuchCall ∧
        ¬ ∃ l, LoopProgresses l s := by
  constructor
  · obtain ⟨s, hrun, hpolls, hcontrol, hhead, hfreed⟩ :
        ∃ s, Lib.run epollStep epollInit lostWake = .ok s ∧
          s.scheduler.polls = [0, 1, 2, 3, 1, 2, 0] ∧ s.scheduler.control = .draining ∧
          s.scheduler.pollHead = some 1 ∧ s.scheduler.tasks 1 = none :=
      Lib.exists_ok_of_decide (by decide)
    refine ⟨s, hrun, by decide, by decide, by decide, hpolls, hcontrol, ?_, ?_⟩
    · simp only [epollStep, schedulerStep, hcontrol, workerTake, hhead, Scheduler.task, hfreed]
      rfl
    · rintro ⟨l, hfair⟩
      have hchain := hfair.queue.queue.chain
      rw [hhead] at hchain
      exact hfair.queue.live 1 (List.mem_of_mem_head? hchain.head?_eq) hfreed
  · obtain ⟨s, hrun, hhead, hstage, hrest, hread, harmed⟩ :
        ∃ s, Lib.run epollStep epollInit blockedRead = .ok s ∧ s.scheduler.pollHead = some 0 ∧
          s.stage = .list ∧ s.rest = [.timer] ∧ s.expirations = 0 ∧ s.armed = false :=
      Lib.exists_ok_of_decide (by decide)
    have hnext : epollStep s .next = .error .noSuchCall := by
      simp only [epollStep, hstage, hrest]
      exact if_pos hread
    have hexpire : epollStep s .expire = .error .noSuchCall := by
      simp only [epollStep, harmed]
      rfl
    refine ⟨s, hrun, by decide, by decide, hhead, hstage, hrest, hnext, hexpire, ?_⟩
    rintro ⟨l, hloop⟩
    rcases hloop.timer hstage (by rw [hrest]; rfl) with ⟨s', hok⟩ | ⟨s₁, s', hok, -⟩
    · rw [hnext] at hok
      cases hok
    · rw [hexpire] at hok
      cases hok

/-! ## `taskio_runtime_block_on` -/

/-- A step that the worker takes between two drains of the queue, or that the clock takes. -/
def EpollOp.Loops : EpollOp → Prop
  | .next | .tick | .expire => True
  | .step _ | .settime _ | .wait _ => False

/-- The worker gets from `s` to `s'` with no task polled and no call made. -/
def LoopsTo (s s' : EpollLoop) : Prop :=
  ∃ os : List EpollOp, (∀ o ∈ os, o.Loops) ∧ Lib.run epollStep s os = .ok s'

theorem LoopsTo.refl (s : EpollLoop) : LoopsTo s s := ⟨[], by simp, rfl⟩

theorem LoopsTo.head {s₁ : EpollLoop} (hok : epollStep s o = .ok s₁) (ho : o.Loops)
    (h : LoopsTo s₁ s') : LoopsTo s s' := by
  obtain ⟨os, hos, hrun⟩ := h
  refine ⟨o :: os, ?_, (Lib.run_cons_ok hok).trans hrun⟩
  intro o' ho'
  rcases List.mem_cons.mp ho' with rfl | ho'
  · exact ho
  · exact hos o' ho'

/-- The ticks end. -/
theorem ticks_end {n : Nat} (hstage : s.stage = .ticking n) : LoopsTo s { s with stage := .list } := by
  induction n generalizing s with
  | zero =>
    have htick : epollStep s .tick = .ok { s with stage := .list } := by
      simp only [epollStep, hstage]
      rfl
    exact .head htick trivial (.refl _)
  | succ n ih =>
    have htick : epollStep s .tick =
        .ok { s with stage := if n + 1 ≤ 1 then .list else .ticking n } := by
      simp only [epollStep, hstage]
      rfl
    by_cases hn : n + 1 ≤ 1
    · rw [if_pos hn] at htick
      exact .head htick trivial (.refl _)
    · rw [if_neg hn] at htick
      exact .head htick trivial (ih (s := { s with stage := .ticking n }) rfl)

/-- The read of `timer_fd` and the ticks. -/
theorem read_ends {rest : List EpollFd} (hstage : s.stage = .list) (hrest : s.rest = .timer :: rest)
    (hpos : 0 < s.expirations) : LoopsTo s { s with expirations := 0, rest := rest } := by
  have hnext : epollStep s .next =
      .ok { s with expirations := 0, rest := rest, stage := .ticking s.expirations } := by
    simp only [epollStep, hstage, hrest]
    exact if_neg (Nat.ne_of_gt hpos)
  have hticks := ticks_end
    (s := { s with expirations := 0, rest := rest, stage := .ticking s.expirations }) rfl
  rw [show ({ s with expirations := 0, rest := rest } : EpollLoop) =
    { s with expirations := 0, rest := rest, stage := .list } by rw [← hstage]]
  exact .head hnext trivial hticks

/-- A worker that has stopped comes to the end of the list. -/
theorem list_ends (hlaw : EpollLaw s) (hcontrol : s.scheduler.control = .waiting)
    (hstops : s.scheduler.running = false) (hreadable : s.Readable) :
    ∃ s', LoopsTo s s' ∧ s'.scheduler = s.scheduler ∧ s'.stage = .list ∧ s'.rest = [] := by
  have hevent : .event ∉ s.rest := by
    intro hmem
    have hrunning := (hlaw.event hmem).2.1
    rw [hstops] at hrunning
    cases hrunning
  have hnodup := hlaw.nodup
  -- what is left is the timer's event at most
  have hrest : s.rest = [] ∨ s.rest = [.timer] := by
    generalize s.rest = rest at hevent hnodup
    match rest with
    | [] => exact Or.inl rfl
    | .event :: _ => simp at hevent
    | [.timer] => exact Or.inr rfl
    | .timer :: .event :: _ => simp at hevent
    | .timer :: .timer :: _ => simp at hnodup
  cases hs : s.stage with
  | draining => exact absurd (hlaw.draining.mp hs) (by simp [hcontrol, Control.Rests])
  | ticking n =>
    refine ⟨_, ticks_end hs, rfl, rfl, hrest.resolve_right ?_⟩
    intro htimer
    exact (hlaw.ticking n hs).2 (by rw [htimer]; simp)
  | list =>
    rcases hrest with hrest | hrest
    · exact ⟨s, .refl s, rfl, hs, hrest⟩
    · rcases hreadable (by rw [hrest]; rfl) with hpos | harmed
      · exact ⟨_, read_ends hs hrest hpos, rfl, hs, rfl⟩
      · have hexpire : epollStep s .expire = .ok { s with expirations := s.expirations + 1 } := by
          simp only [epollStep]
          exact if_pos harmed
        exact ⟨_, .head hexpire trivial (read_ends (s := { s with expirations := s.expirations + 1 })
          hs hrest (Nat.succ_pos _)), rfl, hs, rfl⟩

/-- Where a read of `timer_fd` does not return the worker does not go on. -/
theorem LoopsTo.readable (hlaw : EpollLaw s) (h : LoopsTo s s') (hrest : s'.rest = []) :
    s.Readable := by
  obtain ⟨os, hos, hrun⟩ := h
  intro hhead
  cases os with
  | nil =>
    cases hrun
    rw [hrest] at hhead
    cases hhead
  | cons o os =>
    obtain ⟨s₁, hok, -⟩ := Lib.run_cons_eq_ok.mp hrun
    have ho : o.Loops := hos o List.mem_cons_self
    cases epollStep_cases hok with
    | step | drained | leave | settime | wait => exact ho.elim
    | expire harmed => exact Or.inr harmed
    | event _ hevent =>
      rw [hevent] at hhead
      cases hhead
    | timer _ _ hpos => exact Or.inl hpos
    | tick hstage => exact absurd (List.mem_of_mem_head? hhead) (hlaw.ticking _ hstage).2

/-- It takes a drain of the queue to change what the tasks are in. -/
theorem LoopsTo.scheduler (h : LoopsTo s s') (hstage : s'.stage = .list) :
    s'.scheduler = s.scheduler := by
  obtain ⟨os, hos, hrun⟩ := h
  have hinv : s'.stage = .draining ∨ s'.scheduler = s.scheduler := by
    refine Lib.run_invariant (P := fun _ o => o.Loops)
      (I := fun s₁ => s₁.stage = .draining ∨ s₁.scheduler = s.scheduler) ?_ (Or.inr rfl)
      (Lib.along_of_forall fun o ho _ => hos o ho) hrun
    intro s₁ o s₂ hs₁ ho hok
    cases epollStep_cases hok with
    | step | drained | leave | settime | wait => exact ho.elim
    | expire harmed heq =>
      subst heq
      exact hs₁
    | event hstage hrest hstep heq =>
      subst heq
      exact Or.inl rfl
    | timer hlist hrest hpos heq =>
      subst heq
      exact Or.inr (hs₁.resolve_left (by simp [hlist]))
    | tick hticking heq =>
      subst heq
      exact Or.inr (hs₁.resolve_left (by simp [hticking]))
  exact hinv.resolve_left (by simp [hstage])

/-- **`taskio_runtime_block_on` returns once its task is gone**: outside the loop over the ready queue
it returns, by the steps of `worker_run` and of the clock alone, exactly if the future that it was given
has been cleaned up, which happens once, the task has been freed, and no read of `timer_fd` comes next
while the timer is neither expired nor armed. -/
theorem block_on_returns_iff {os : List EpollOp} (hrun : Lib.run epollStep epollInit os = .ok s)
    (hkeeps : Lib.Along epollStep
      (fun s o => Lib.Along schedulerStep KeepsReferences s.scheduler (s.schedulerOps o)) epollInit os)
    (hworker : s.scheduler.workerTask = some t) (hcontrol : s.scheduler.control = .waiting) :
    (∃ s₁ s', LoopsTo s s₁ ∧ epollStep s₁ (.step .leave) = .ok s') ↔
      s.scheduler.events.count (.cleanedUp t) = 1 ∧ s.scheduler.events.count (.freed t) = 1 ∧
        s.Readable := by
  obtain ⟨hs, hfor⟩ := references_run (Lib.run_projects EpollLoop.scheduler epollStep_projects hrun)
    (Lib.along_projects EpollLoop.scheduler epollStep_projects (fun _ _ h => h) hkeeps)
  have hlaw : EpollLaw s := Lib.run_invariant (fun _ _ _ hlaw _ hok => epollLaw_step hlaw hok)
    epollLaw_init hkeeps hrun
  rw [← and_assoc, ← worker_stopped_iff hs hfor hworker hcontrol]
  constructor
  · rintro ⟨s₁, s', hgoes, hleave⟩
    cases epollStep_cases hleave with
    | step ho => exact absurd rfl ho.2.2
    | leave hstage hrest hstep =>
      refine ⟨?_, hgoes.readable hlaw hrest⟩
      rw [hgoes.scheduler hstage] at hstep
      simp only [schedulerStep, hcontrol] at hstep
      split at hstep
      · cases hstep
      · exact Bool.eq_false_iff.mpr ‹_›
  · rintro ⟨hstops, hreadable⟩
    obtain ⟨s₁, hgoes, hsame, hstage, hrest⟩ := list_ends hlaw hcontrol hstops hreadable
    refine ⟨s₁, { s₁ with scheduler := { s.scheduler with control := .stopped } }, hgoes, ?_⟩
    simp only [epollStep, hstage, hrest, hsame, schedulerStep, hcontrol, hstops]
    rfl

/-- The main task is woken in its poll and then ready, and the timer has expired meanwhile. -/
def readyBatch : List EpollOp :=
  [.settime true, .expire, .step .blockOn, .wait [.event, .timer], .next, .step .take,
    .step (.wake 0), .step (.ret .pending), .step .take, .step (.ret .ready), .step .cleaned,
    .step .release, .step .drained]

theorem block_on_returns_iff_ready : ∃ s s₁ s', Lib.run epollStep epollInit readyBatch = .ok s ∧
    s.rest = [.timer] ∧ LoopsTo s s₁ ∧ epollStep s₁ (.step .leave) = .ok s' := by
  obtain ⟨s, hrun, hworker, hcontrol, hcleaned, hfreed, hrest, hpos⟩ :
      ∃ s, Lib.run epollStep epollInit readyBatch = .ok s ∧ s.scheduler.workerTask = some 0 ∧
        s.scheduler.control = .waiting ∧ s.scheduler.events.count (.cleanedUp 0) = 1 ∧
        s.scheduler.events.count (.freed 0) = 1 ∧ s.rest = [.timer] ∧ 0 < s.expirations :=
    Lib.exists_ok_of_decide (by decide)
  have hops : Lib.emitted epollStep EpollLoop.schedulerOps epollInit readyBatch =
      [.blockOn, .event, .take, .wake 0, .ret .pending, .take, .ret .ready, .cleaned, .release,
        .drained] := by decide
  have hkeeps : Lib.Along epollStep
      (fun s o => Lib.Along schedulerStep KeepsReferences s.scheduler (s.schedulerOps o)) epollInit
      readyBatch := Lib.along_of_projects EpollLoop.scheduler epollStep_projects hrun (by
        rw [hops]
        exact keepsReferences_ready)
  obtain ⟨s₁, s', hgoes, hleave⟩ := (block_on_returns_iff hrun hkeeps hworker hcontrol).mpr
    ⟨hcleaned, hfreed, fun _ => Or.inl hpos⟩
  exact ⟨s, s₁, s', hrun, hrest, hgoes, hleave⟩

-- the main task takes the last timer out of the wheels in the poll in which it ends, and the read of
-- the expiration that came with it does not return
example : ∃ s, Lib.run epollStep epollInit
      [.settime true, .step .blockOn, .expire, .wait [.event, .timer], .next, .step .take,
        .settime false, .step (.ret .ready), .step .cleaned, .step .release, .step .drained] = .ok s ∧
    s.scheduler.events.count (.freed 0) = 1 ∧ s.scheduler.running = false ∧ ¬ s.Readable :=
  Lib.exists_ok_of_decide (by decide)

end Taskio
