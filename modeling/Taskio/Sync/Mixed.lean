import Taskio.Sync.Blocking
import Taskio.Sync.Permits

/-!
# `semaphore.c`: tasks and threads at one semaphore

Tasks wait with futures and threads with `taskio_semaphore_blocking_wait`. A signal made while both wait
goes to the one side and to the other by turns, as `priority` counts.

* `semaphoreStep_withThreads` — the calls of the tasks neither see nor change what is for the threads
* `MixedEffect` — what a step does to the wake queue, the threads and the turn
* `mixedStep_effect` — every call has one of these effects
-/

namespace Taskio

variable {W : Type}

/-! ## The system -/

/-- The semaphore with the futures that wait for it, and the calls of
`taskio_semaphore_blocking_wait`. -/
structure MixedSystem (W : Type) where
  tasks : SemaphoreSystem W
  threads : List BlockingStage

inductive MixedOp (W : Type) where
  /-- a wait is made, polled or cleaned up -/
  | wait (o : SemaphoreOp W)
  | blockingWait
  /-- a signal, with the thread that `cnd_signal` picks if it is called -/
  | signal (k : Nat)
  | spurious (k : Nat)
  /-- the thread takes the semaphore's mutex again -/
  | resume (k : Nat)
deriving DecidableEq, Repr

def mixedSystem (W : Type) (permits : UInt64) : MixedSystem W :=
  { tasks := semaphoreSystem W permits, threads := [] }

def mixedStep (s : MixedSystem W) : MixedOp W → Except Fault (MixedSystem W)
  | .wait .signal => .error .noSuchCall
  | .wait o => do
    let tasks ← semaphoreStep s.tasks o
    .ok { s with tasks := tasks }
  | .blockingWait =>
    let (sem, stage) := semaphoreBlockingWait s.tasks.sem
    .ok { tasks := { s.tasks with sem := sem }, threads := s.threads ++ [stage] }
  | .signal k => do
    let tasks ← semaphoreStep s.tasks .signal
    let threads ← condSignal (tasks.sem.condSignals ≠ s.tasks.sem.condSignals) s.threads k
    .ok { tasks := tasks, threads := threads }
  | .spurious k =>
    if s.threads[k]? = some .waiting then .ok { s with threads := s.threads.set k .spurious }
    else .error .noSuchCall
  | .resume k =>
    if s.threads[k]? = some .released ∨ s.threads[k]? = some .spurious then
      .ok {
        tasks := { s.tasks with sem := semaphoreBlockingResume s.tasks.sem }
        threads := s.threads.set k .returned }
    else .error .noSuchCall

/-! ## What the tasks see of the threads -/

/-- The same semaphore, with other values of what is for the threads. -/
def Semaphore.withThreads (s : Semaphore W) (waiting priority signals : Nat) : Semaphore W :=
  { s with blockingWakeWait := waiting, priority := priority, condSignals := signals }

def SemaphoreSystem.withThreads (s : SemaphoreSystem W) (waiting priority signals : Nat) :
    SemaphoreSystem W :=
  { s with sem := s.sem.withThreads waiting priority signals }

variable {b p c : Nat}

theorem nodeDrop_withThreads (sem : Semaphore W) (a : Nat) (willWake : Bool) :
    nodeDrop (sem.withThreads b p c) a willWake =
      (nodeDrop sem a willWake).map (·.withThreads b p c) := by
  unfold nodeDrop Semaphore.node
  rw [show (sem.withThreads b p c).nodes a = sem.nodes a from rfl]
  cases sem.nodes a with
  | none => rfl
  | some n =>
    simp only [ok_bind]
    split
    · rfl
    · rfl

theorem signalAsync_withThreads (sem : Semaphore W) :
    signalAsync (sem.withThreads b p c) =
      (signalAsync sem).map fun r => (r.1.withThreads b p c, r.2) := by
  unfold signalAsync Semaphore.node
  rw [show (sem.withThreads b p c).wakeQueueHead = sem.wakeQueueHead from rfl]
  cases sem.wakeQueueHead with
  | none => rfl
  | some a =>
    simp only
    rw [show (sem.withThreads b p c).nodes a = sem.nodes a from rfl]
    cases sem.nodes a with
    | none => rfl
    | some n =>
      simp only [ok_bind]
      have hdrop := nodeDrop_withThreads (b := b) (p := p) (c := c)
        { sem with
          wakeQueueHead := n.next
          wakeQueueTail := if n.next = none then none else sem.wakeQueueTail
          grants := sem.grants ++ [a] } a true
      rw [show ({ sem.withThreads b p c with
          wakeQueueHead := n.next
          wakeQueueTail := if n.next = none then none else (sem.withThreads b p c).wakeQueueTail
          grants := (sem.withThreads b p c).grants ++ [a] } : Semaphore W) = Semaphore.withThreads
        { sem with
          wakeQueueHead := n.next
          wakeQueueTail := if n.next = none then none else sem.wakeQueueTail
          grants := sem.grants ++ [a] } b p c from rfl, hdrop]
      cases nodeDrop _ a true with
      | error e => rfl
      | ok sem' => rfl

theorem waitEnqueue_withThreads (sem : Semaphore W) (timed : Bool) (waker : W) :
    waitEnqueue (sem.withThreads b p c) timed waker =
      (waitEnqueue sem timed waker).map fun r => (r.1.withThreads b p c, r.2) := by
  unfold waitEnqueue
  simp only
  rw [show (sem.withThreads b p c).wakeQueueHead = sem.wakeQueueHead from rfl,
    show (sem.withThreads b p c).wakeQueueTail = sem.wakeQueueTail from rfl]
  cases sem.wakeQueueHead with
  | none => rfl
  | some a =>
    cases sem.wakeQueueTail with
    | none => rfl
    | some t =>
      show ({ sem.setNode sem.nextNode (some (waitNode sem timed waker)) with
        nextNode := sem.nextNode + 1 } : Semaphore W).node t >>= _ = Except.map _
          (({ sem.setNode sem.nextNode (some (waitNode sem timed waker)) with
            nextNode := sem.nextNode + 1 } : Semaphore W).node t >>= _)
      cases ({ sem.setNode sem.nextNode (some (waitNode sem timed waker)) with
        nextNode := sem.nextNode + 1 } : Semaphore W).node t with
      | error e => rfl
      | ok last => rfl

theorem semaphoreWaitPoll_withThreads (sem : Semaphore W) (f : WaitFuture) (waker : Option W) :
    semaphoreWaitPoll (sem.withThreads b p c) f waker =
      (semaphoreWaitPoll sem f waker).map fun r => (r.1.withThreads b p c, r.2) := by
  unfold semaphoreWaitPoll
  split
  · cases f.node with
    | none => rfl
    | some a =>
      simp only
      rw [nodeDrop_withThreads]
      cases nodeDrop sem a true with
      | error e => rfl
      | ok sem' => rfl
  · split
    · rw [show (sem.withThreads b p c).counter = sem.counter from rfl]
      split
      · rfl
      · cases waker with
        | none => rfl
        | some waker =>
          simp only
          rw [waitEnqueue_withThreads]
          cases waitEnqueue sem f.timed waker with
          | error e => rfl
          | ok r => rfl
    · split
      · rfl
      · rfl

theorem cleanupWait_withThreads (sem : Semaphore W) (f : WaitFuture) :
    cleanupWait (sem.withThreads b p c) f =
      (cleanupWait sem f).map fun r => (r.1.withThreads b p c, r.2) := by
  unfold cleanupWait
  rw [semaphoreWaitPoll_withThreads]
  cases semaphoreWaitPoll sem { f with counter := futureClrVal } none with
  | error e => rfl
  | ok r => rfl

/-- The calls of the tasks do not look at what is for the threads, and leave it alone. -/
theorem semaphoreStep_withThreads (s : SemaphoreSystem W) {o : SemaphoreOp W} (ho : o ≠ .signal) :
    semaphoreStep (s.withThreads b p c) o = (semaphoreStep s o).map (·.withThreads b p c) := by
  cases o with
  | wait timed => rfl
  | signal => exact absurd rfl ho
  | poll i waker =>
    unfold semaphoreStep
    simp only
    rw [show (s.withThreads b p c).waits = s.waits from rfl]
    split
    · rename_i f hget
      rw [pollWait, pollWait, show (s.withThreads b p c).sem = s.sem.withThreads b p c from rfl,
        semaphoreWaitPoll_withThreads]
      cases semaphoreWaitPoll s.sem { f with counter := sizeInc f.counter } (some waker) with
      | error e => rfl
      | ok r =>
        obtain ⟨sem', f', poll⟩ := r
        cases poll with
        | undefined | pending => rfl
        | ready =>
          show cleanupWait (sem'.withThreads b p c) f' >>= _ = Except.map _ (cleanupWait sem' f' >>= _)
          rw [cleanupWait_withThreads]
          cases cleanupWait sem' f' with
          | error e => rfl
          | ok r => rfl
    · rfl
  | cleanup i =>
    unfold semaphoreStep
    simp only
    rw [show (s.withThreads b p c).waits = s.waits from rfl]
    split
    · rename_i f hget
      rw [show (s.withThreads b p c).sem = s.sem.withThreads b p c from rfl, cleanupWait_withThreads]
      cases cleanupWait s.sem f with
      | error e => rfl
      | ok r => rfl
    · rfl

/-! ## One step -/

/-- The semaphore as the tasks see it. -/
def SemaphoreSystem.alone (s : SemaphoreSystem W) : SemaphoreSystem W := s.withThreads 0 0 0

/-- A signal goes to the threads. -/
def Semaphore.ToThreads (s : Semaphore W) : Prop :=
  0 < s.blockingWakeWait ∧ (s.wakeQueueHead = none ∨ s.priority % 2 = 1)

instance (s : Semaphore W) : Decidable s.ToThreads := inferInstanceAs (Decidable (_ ∧ _))

/-- Nothing changes of what is for the threads. -/
structure SameThreads (s s' : Semaphore W) : Prop where
  waiting : s'.blockingWakeWait = s.blockingWakeWait
  priority : s'.priority = s.priority
  signals : s'.condSignals = s.condSignals

variable {s s' : MixedSystem W} {q q' : List Nat}

/-- What a step does, with the wake queue `q` before and `q'` after it. -/
inductive MixedEffect (s s' : MixedSystem W) (q q' : List Nat) : MixedOp W → Prop
  | wait {o : SemaphoreOp W} (ho : o ≠ .signal) (heffect : Effect s.tasks.alone s'.tasks.alone q q' o)
      (hsignals : s'.tasks.signals = s.tasks.signals) (hthreads : s'.threads = s.threads)
      (hsame : SameThreads s.tasks.sem s'.tasks.sem) : MixedEffect s s' q q' (.wait o)
  /-- A thread takes a permit. -/
  | take (hpos : 0 < s.tasks.sem.counter)
      (htasks : s'.tasks = { s.tasks with sem := { s.tasks.sem with
        counter := s.tasks.sem.counter - 1 } })
      (hthreads : s'.threads = s.threads ++ [.returned]) (hq : q' = q) :
      MixedEffect s s' q q' .blockingWait
  /-- A thread begins to wait. -/
  | block (hzero : s.tasks.sem.counter = 0)
      (htasks : s'.tasks = { s.tasks with sem := { s.tasks.sem with
        blockingWakeWait := sizeInc s.tasks.sem.blockingWakeWait } })
      (hthreads : s'.threads = s.threads ++ [.waiting]) (hq : q' = q) :
      MixedEffect s s' q q' .blockingWait
  /-- A signal goes to the first task that waits. -/
  | toTask {k : Nat} (hnot : ¬ s.tasks.sem.ToThreads)
      (heffect : Effect s.tasks.alone s'.tasks.alone q q' .signal) {a : Nat} (hqueue : q = a :: q')
      (hgrants : s'.tasks.sem.grants = s.tasks.sem.grants ++ [a])
      (hsignals : s'.tasks.signals = s.tasks.signals + 1) (hthreads : s'.threads = s.threads)
      (hwaiting : s'.tasks.sem.blockingWakeWait = s.tasks.sem.blockingWakeWait)
      (hpriority : s'.tasks.sem.priority =
        if 0 < s.tasks.sem.blockingWakeWait then sizeInc s.tasks.sem.priority
        else s.tasks.sem.priority)
      (hcond : s'.tasks.sem.condSignals = s.tasks.sem.condSignals) : MixedEffect s s' q q' (.signal k)
  /-- A signal goes to the threads, where it may find none that waits. -/
  | toThread {k : Nat} (hto : s.tasks.sem.ToThreads)
      (htasks : s'.tasks = { s.tasks with
        sem := { s.tasks.sem with
          priority := if q = [] then s.tasks.sem.priority else sizeInc s.tasks.sem.priority
          condSignals := s.tasks.sem.condSignals + 1 }
        signals := s.tasks.signals + 1 })
      (hthreads : s.threads[k]? = some .waiting ∧ s'.threads = s.threads.set k .released ∨
        .waiting ∉ s.threads ∧ s'.threads = s.threads) (hq : q' = q) :
      MixedEffect s s' q q' (.signal k)
  /-- A signal finds no one. -/
  | post {k : Nat} (hnot : ¬ s.tasks.sem.ToThreads) (hqueue : q = [])
      (htasks : s'.tasks = { s.tasks with
        sem := { s.tasks.sem with counter := sizeInc s.tasks.sem.counter }
        signals := s.tasks.signals + 1 })
      (hthreads : s'.threads = s.threads) (hq : q' = []) : MixedEffect s s' q q' (.signal k)
  | spurious {k : Nat} (hget : s.threads[k]? = some .waiting) (htasks : s'.tasks = s.tasks)
      (hthreads : s'.threads = s.threads.set k .spurious) (hq : q' = q) :
      MixedEffect s s' q q' (.spurious k)
  | resume {k : Nat} {stage : BlockingStage} (hget : s.threads[k]? = some stage)
      (hstage : stage = .released ∨ stage = .spurious)
      (htasks : s'.tasks = { s.tasks with sem := { s.tasks.sem with
        blockingWakeWait := sizeDec s.tasks.sem.blockingWakeWait } })
      (hthreads : s'.threads = s.threads.set k .returned) (hq : q' = q) :
      MixedEffect s s' q q' (.resume k)

/-- The wake queue does not depend on what is for the threads, nor on what is only recorded. -/
theorem WakeQueue.congr {t t' : SemaphoreSystem W} (h : WakeQueue q t)
    (hsem : t'.sem.withThreads 0 0 0 = t.sem.withThreads 0 0 0) (hwaits : t'.waits = t.waits) :
    WakeQueue q t'.alone := by
  obtain ⟨⟨counter, _, _, head, tail, nodes, nextNode, grants, _⟩, waits, signals, woken⟩ := t
  obtain ⟨⟨counter', _, _, head', tail', nodes', nextNode', grants', _⟩, waits', signals', woken'⟩ := t'
  cases hsem
  cases hwaits
  exact ⟨h.queue, rfl, h.idle, h.nodes, h.single, h.fresh, h.grants, h.granted, h.stage⟩

/-- A call of a task. -/
theorem semaphoreStep_mixed {t : SemaphoreSystem W} (h : WakeQueue q t.alone) {o : SemaphoreOp W}
    (ho : o ≠ .signal) :
    semaphoreStep t o = .error .noSuchCall ∨ ∃ t' q', semaphoreStep t o = .ok t' ∧
      WakeQueue q' t'.alone ∧ Effect t.alone t'.alone q q' o ∧ t'.signals = t.signals ∧
      SameThreads t.sem t'.sem := by
  have hseen : semaphoreStep t o = (semaphoreStep t.alone o).map
      (·.withThreads t.sem.blockingWakeWait t.sem.priority t.sem.condSignals) :=
    semaphoreStep_withThreads t.alone ho
  have hsignals : o.signals = 0 := by
    cases o with
    | signal => exact absurd rfl ho
    | wait timed => rfl
    | poll i waker => rfl
    | cleanup i => rfl
  rcases semaphoreStep_effect h o with hfail | ⟨t', q', hok, hq', heffect, hcount⟩
  · rw [hfail] at hseen
    exact Or.inl hseen
  · have halone : t'.withThreads 0 0 0 = t' := by
      have hsame : semaphoreStep t.alone o = (semaphoreStep t.alone o).map (·.withThreads 0 0 0) :=
        semaphoreStep_withThreads t.alone ho
      rw [hok] at hsame
      exact (Except.ok.inj hsame).symm
    have halone' : (t'.withThreads t.sem.blockingWakeWait t.sem.priority t.sem.condSignals).alone =
        t' := halone
    rw [hok] at hseen
    refine Or.inr ⟨_, q', hseen, ?_, ?_, ?_, ⟨rfl, rfl, rfl⟩⟩
    · rwa [halone']
    · rwa [halone']
    · rw [hsignals] at hcount
      exact hcount

/-- A signal while a task is queued, as far as it is for the tasks. -/
theorem signalAsync_mixed {t : SemaphoreSystem W} {a : Nat} (h : WakeQueue (a :: q) t.alone)
    (b p c : Nat) :
    ∃ (sem : Semaphore W) (waker : W),
      signalAsync (t.sem.withThreads b p c) = .ok (sem.withThreads b p c, some waker) ∧
      sem.counter = t.sem.counter ∧ sem.grants = t.sem.grants ++ [a] ∧
      ∀ signals woken, WakeQueue q
        (SemaphoreSystem.alone ⟨sem.withThreads b p c, t.waits, signals, woken⟩) := by
  obtain ⟨sem, waker, hok, hcounter, hgrants, hq⟩ := h.grant
  refine ⟨sem, waker, ?_, hcounter, hgrants, ?_⟩
  · have hseen : signalAsync (t.sem.withThreads b p c) =
        (signalAsync t.alone.sem).map fun r => (r.1.withThreads b p c, r.2) :=
      signalAsync_withThreads t.alone.sem
    rw [hseen, hok]
    rfl
  · intro signals woken
    exact hq.congr rfl rfl

theorem condSignal_quiet {called : Bool} {threads : List BlockingStage} (k : Nat) (h : called = false) :
    condSignal called threads k = .ok threads := by
  rw [condSignal, h, if_neg (by simp)]

theorem mixedSignal_effect (h : WakeQueue q s.tasks.alone) (k : Nat) :
    mixedStep s (.signal k) = .error .noSuchCall ∨ ∃ s' q', mixedStep s (.signal k) = .ok s' ∧
      WakeQueue q' s'.tasks.alone ∧ MixedEffect s s' q q' (.signal k) := by
  have hhead : s.tasks.sem.wakeQueueHead = none ↔ q = [] := h.queue.head_eq_none
  by_cases hto : s.tasks.sem.ToThreads
  · have hsignal : semaphoreSignal s.tasks.sem = .ok (signalSync { s.tasks.sem with
        priority := if q = [] then s.tasks.sem.priority else sizeInc s.tasks.sem.priority }, none) := by
      by_cases hempty : s.tasks.sem.wakeQueueHead = none
      · rw [semaphoreSignal, if_neg fun hboth => hboth.1 hempty, if_neg fun hsome => hsome hempty,
          if_pos hto.1, if_pos (hhead.mp hempty)]
      · have hodd := hto.2.resolve_left hempty
        rw [semaphoreSignal, if_pos ⟨hempty, hto.1⟩, if_neg (mt hhead.mpr hempty)]
        simp only
        rw [if_neg (by omega)]
    have hcalled : decide ((signalSync { s.tasks.sem with
        priority := if q = [] then s.tasks.sem.priority
          else sizeInc s.tasks.sem.priority }).condSignals ≠ s.tasks.sem.condSignals) = true :=
      decide_eq_true (Nat.succ_ne_self _)
    have hq : WakeQueue q (SemaphoreSystem.alone ⟨signalSync { s.tasks.sem with
        priority := if q = [] then s.tasks.sem.priority else sizeInc s.tasks.sem.priority },
        s.tasks.waits, s.tasks.signals + 1, s.tasks.woken⟩) := h.congr rfl rfl
    rw [mixedStep, semaphoreStep, hsignal, ok_bind, ok_bind]
    simp only
    rw [hcalled, Option.toList_none, List.append_nil, condSignal]
    by_cases hwaiting : .waiting ∈ s.threads
    · rw [if_pos ⟨rfl, hwaiting⟩]
      by_cases hget : s.threads[k]? = some .waiting
      · rw [if_pos hget, ok_bind]
        exact Or.inr ⟨_, q, rfl, hq, .toThread hto rfl (Or.inl ⟨hget, rfl⟩) rfl⟩
      · rw [if_neg hget]
        exact Or.inl rfl
    · rw [if_neg fun hboth => hwaiting hboth.2, ok_bind]
      exact Or.inr ⟨_, q, rfl, hq, .toThread hto rfl (Or.inr ⟨hwaiting, rfl⟩) rfl⟩
  · cases hqueue : q with
    | nil =>
      have hempty := hhead.mpr hqueue
      have hzero : ¬ 0 < s.tasks.sem.blockingWakeWait := fun hpos => hto ⟨hpos, Or.inl hempty⟩
      have hsignal : semaphoreSignal s.tasks.sem =
          .ok ({ s.tasks.sem with counter := sizeInc s.tasks.sem.counter }, none) := by
        rw [semaphoreSignal, if_neg fun hboth => hboth.1 hempty, if_neg fun hsome => hsome hempty,
          if_neg hzero]
      rw [mixedStep, semaphoreStep, hsignal, ok_bind, ok_bind]
      simp only
      rw [condSignal_quiet k (by simp), ok_bind, Option.toList_none, List.append_nil]
      refine Or.inr ⟨_, [], rfl, ?_, .post hto rfl rfl rfl rfl⟩
      rw [hqueue] at h
      exact ⟨h.queue, rfl, fun hq => absurd rfl hq, h.nodes, h.single, h.fresh, h.grants, h.granted,
        h.stage⟩
    | cons a q₁ =>
      rw [hqueue] at h
      have hsome : s.tasks.sem.wakeQueueHead ≠ none := by
        rw [Ne, hhead, hqueue]
        exact List.cons_ne_nil a q₁
      obtain ⟨sem, waker, hasync, hcounter, hgrants, hq⟩ :=
        signalAsync_mixed h s.tasks.sem.blockingWakeWait
          (if 0 < s.tasks.sem.blockingWakeWait then sizeInc s.tasks.sem.priority
            else s.tasks.sem.priority) s.tasks.sem.condSignals
      have hsignal : semaphoreSignal s.tasks.sem = signalAsync (s.tasks.sem.withThreads
          s.tasks.sem.blockingWakeWait (if 0 < s.tasks.sem.blockingWakeWait then
            sizeInc s.tasks.sem.priority else s.tasks.sem.priority) s.tasks.sem.condSignals) := by
        by_cases hpos : 0 < s.tasks.sem.blockingWakeWait
        · have heven : s.tasks.sem.priority % 2 = 0 := by
            by_contra hodd
            exact hto ⟨hpos, Or.inr (by omega)⟩
          rw [semaphoreSignal, if_pos ⟨hsome, hpos⟩, if_pos hpos]
          simp only
          rw [if_pos heven]
          rfl
        · rw [semaphoreSignal, if_neg fun hboth => hpos hboth.2, if_pos hsome, if_neg hpos]
          rfl
      rw [mixedStep, semaphoreStep, hsignal, hasync, ok_bind, ok_bind]
      simp only
      rw [condSignal_quiet k (by simp [Semaphore.withThreads]), ok_bind]
      exact Or.inr ⟨_, q₁, rfl, hq _ _, .toTask hto (.grant rfl rfl hcounter hgrants) rfl hgrants rfl rfl
        rfl rfl rfl⟩

/-- **What a step does**: one of the effects, if there is such a call. No call of a task or of a thread
fails. -/
theorem mixedStep_effect (h : WakeQueue q s.tasks.alone) (o : MixedOp W) :
    mixedStep s o = .error .noSuchCall ∨ ∃ s' q', mixedStep s o = .ok s' ∧
      WakeQueue q' s'.tasks.alone ∧ MixedEffect s s' q q' o := by
  cases o with
  | wait o =>
    by_cases ho : o = .signal
    · subst ho
      exact Or.inl rfl
    · have hstep : mixedStep s (.wait o) = semaphoreStep s.tasks o >>= fun tasks =>
          .ok { s with tasks := tasks } := by
        cases o with
        | signal => exact absurd rfl ho
        | wait timed => rfl
        | poll i waker => rfl
        | cleanup i => rfl
      rw [hstep]
      rcases semaphoreStep_mixed h ho with hfail | ⟨t', q', hok, hq', heffect, hsignals, hsame⟩
      · rw [hfail]
        exact Or.inl rfl
      · rw [hok, ok_bind]
        exact Or.inr ⟨_, q', rfl, hq', .wait ho heffect hsignals rfl hsame⟩
  | blockingWait =>
    refine Or.inr ?_
    rw [mixedStep, semaphoreBlockingWait]
    by_cases hpos : 0 < s.tasks.sem.counter
    · rw [if_pos hpos]
      refine ⟨_, q, rfl, ?_, .take hpos rfl rfl rfl⟩
      refine ⟨h.queue, rfl, ?_, h.nodes, h.single, h.fresh, h.grants, h.granted, h.stage⟩
      intro hq
      have hzero : s.tasks.sem.counter = 0 := h.idle hq
      omega
    · rw [if_neg hpos]
      exact ⟨_, q, rfl, h.congr rfl rfl, .block (Nat.eq_zero_of_not_pos hpos) rfl rfl rfl⟩
  | signal k => exact mixedSignal_effect h k
  | spurious k =>
    rw [mixedStep]
    split
    · rename_i hget
      exact Or.inr ⟨_, q, rfl, h, .spurious hget rfl rfl rfl⟩
    · exact Or.inl rfl
  | resume k =>
    rw [mixedStep]
    split
    · rename_i hget
      refine Or.inr ⟨_, q, rfl, h.congr rfl rfl, ?_⟩
      rcases hget with hget | hget
      · exact .resume hget (Or.inl rfl) rfl rfl rfl
      · exact .resume hget (Or.inr rfl) rfl rfl rfl
    · exact Or.inl rfl

theorem mixedStep_ok {o : MixedOp W} (h : WakeQueue q s.tasks.alone) (hok : mixedStep s o = .ok s') :
    ∃ q', WakeQueue q' s'.tasks.alone ∧ MixedEffect s s' q q' o := by
  rcases mixedStep_effect h o with hfail | ⟨s₁, q', hok₁, hq', heffect⟩
  · rw [hok] at hfail
    cases hfail
  · obtain rfl : s₁ = s' := Except.ok.inj (hok₁.symm.trans hok)
    exact ⟨q', hq', heffect⟩

end Taskio
