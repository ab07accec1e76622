import Taskio.Sync.Exclusion

/-!
# The steps of the tasks that lock

* `TurnCase`, `AbandonCase` — what a poll of a task does to the lock future it is in, and its clean-up
* `BeginCase`, `UnlockCase`, `TimeoutCase` — the first poll of a lock, an unlock, the timer of a timed
  lock
* `mutexStep_cases` — a step is one of these, or one of the runtime
-/

namespace Taskio

variable {s s' : MutexSystem} {t : Nat} {timed : Bool}

/-! ## What a turn does -/

/-- What a poll of a task does to the lock future it is in. -/
inductive TurnCase (s : MutexSystem) (t : Nat) : MutexSystem → Prop
  /-- it is in none, or nothing was linked by the select of its timed lock -/
  | idle (hawait : s.await t = .none ∨ ∃ i, s.await t = .timedlock i []) : TurnCase s t s
  | locked (hawait : s.await t = .resuming) :
      TurnCase s t (s.setLocker t ⟨.none, (s.lockers t).locks + 1⟩)
  | granted {i : Nat} {m : SemaphoreSystem LockWaker} (hawait : s.await t = .lock i)
      (hpoll : semaphoreStep s.mutex (.poll i ⟨t, i, false⟩) = .ok m) :
      TurnCase s t { s.setLocker t ⟨.none, (s.lockers t).locks + 1⟩ with
        mutex := m, permits := s.permits ++ [t] }
  | inTime {i : Nat} {ready : List TimedChild} {m : SemaphoreSystem LockWaker}
      (hawait : s.await t = .timedlock i (.wait :: ready))
      (hpoll : semaphoreStep s.mutex (.poll i ⟨t, i, true⟩) = .ok m) :
      TurnCase s t { s.setLocker t ⟨.none, (s.lockers t).locks + 1⟩ with
        mutex := m, permits := s.permits ++ [t] }
  /-- it timed out, and was granted after that: the permit is taken, and the lock returns false -/
  | late {i : Nat} {ready : List TimedChild} {m : SemaphoreSystem LockWaker}
      (hawait : s.await t = .timedlock i (.timeout :: ready)) (hmem : .wait ∈ ready)
      (hpoll : semaphoreStep s.mutex (.poll i ⟨t, i, true⟩) = .ok m) :
      TurnCase s t { s.setLocker t ⟨.none, (s.lockers t).locks⟩ with
        mutex := m, permits := s.permits ++ [t] }
  | timedOut {i : Nat} {ready : List TimedChild} {m : SemaphoreSystem LockWaker}
      (hawait : s.await t = .timedlock i (.timeout :: ready)) (hmem : .wait ∉ ready)
      (hcleanup : semaphoreStep s.mutex (.cleanup i) = .ok m) :
      TurnCase s t { s.setLocker t ⟨.none, (s.lockers t).locks⟩ with mutex := m }

theorem mutexResume_cases (h : mutexResume s t = .ok s') : TurnCase s t s' := by
  unfold mutexResume at h
  simp only at h
  split at h
  · rename_i hawait
    cases h
    exact .idle (Or.inl hawait)
  · rename_i hawait
    cases h
    exact .locked hawait
  · rename_i i hawait
    obtain ⟨m, hpoll, h⟩ := bind_eq_ok.mp h
    cases h
    exact .granted hawait hpoll
  · rename_i i hawait
    cases h
    exact .idle (Or.inr ⟨i, hawait⟩)
  · rename_i i first ready hawait
    split at h
    · rename_i hmem
      obtain ⟨m, hpoll, h⟩ := bind_eq_ok.mp h
      cases h
      cases first with
      | wait => exact .inTime hawait hpoll
      | timeout => exact .late hawait (by simpa using hmem) hpoll
    · rename_i hmem
      obtain ⟨m, hcleanup, h⟩ := bind_eq_ok.mp h
      cases h
      cases first with
      | wait => exact absurd (List.mem_cons_self) hmem
      | timeout => exact .timedOut hawait (by simpa using hmem) hcleanup

/-- What the clean-up of a task does to the lock future it is in. -/
inductive AbandonCase (s : MutexSystem) (t : Nat) : MutexSystem → Prop
  | ended (hawait : s.await t = .none ∨ s.await t = .resuming) : AbandonCase s t (s.setAwait t .none)
  | cancelled {i : Nat} {m : SemaphoreSystem LockWaker}
      (hawait : s.await t = .lock i ∨ ∃ ready, s.await t = .timedlock i ready)
      (hcleanup : semaphoreStep s.mutex (.cleanup i) = .ok m) :
      AbandonCase s t { s.setAwait t .none with mutex := m }

theorem mutexAbandon_cases (h : mutexAbandon s t = .ok s') : AbandonCase s t s' := by
  unfold mutexAbandon at h
  split at h
  · rename_i hawait
    cases h
    exact .ended (Or.inl hawait)
  · rename_i hawait
    cases h
    exact .ended (Or.inr hawait)
  · rename_i i hawait
    obtain ⟨m, hcleanup, h⟩ := bind_eq_ok.mp h
    cases h
    exact .cancelled (Or.inl hawait) hcleanup
  · rename_i i ready hawait
    obtain ⟨m, hcleanup, h⟩ := bind_eq_ok.mp h
    cases h
    exact .cancelled (Or.inr ⟨ready, hawait⟩) hcleanup

/-! ## The calls -/

/-- Calling the waker of a node. -/
inductive CallCase (s : MutexSystem) (waker : LockWaker) : MutexSystem → Prop
  | task {rt : Scheduler} (htimed : waker.timed = false)
      (hwake : schedulerStep s.rt (.wake waker.task) = .ok rt) : CallCase s waker { s with rt := rt }
  | child {ready : List TimedChild} {rt : Scheduler} (htimed : waker.timed = true)
      (hawait : s.await waker.task = .timedlock waker.wait ready)
      (hwake : schedulerStep s.rt (.wake waker.task) = .ok rt) :
      CallCase s waker
        { s.setAwait waker.task (.timedlock waker.wait (ready ++ [.wait])) with rt := rt }

theorem callWaker_cases {waker : LockWaker} (h : callWaker s waker = .ok s') : CallCase s waker s' := by
  unfold callWaker at h
  split at h
  · rename_i htimed
    split at h
    · rename_i i ready hawait
      split at h
      · rename_i hi
        obtain ⟨rt, hwake, h⟩ := bind_eq_ok.mp h
        cases h
        subst hi
        exact .child htimed hawait hwake
      · cases h
    · cases h
  · rename_i htimed
    obtain ⟨rt, hwake, h⟩ := bind_eq_ok.mp h
    cases h
    exact .task (Bool.eq_false_iff.mpr htimed) hwake

/-- An unlock, before a waker is called. -/
def MutexSystem.released (s : MutexSystem) (t : Nat) (m : SemaphoreSystem LockWaker) : MutexSystem :=
  { s.setLocker t { s.lockers t with locks := (s.lockers t).locks - 1 } with
    mutex := m, permits := s.permits.erase t }

inductive UnlockCase (s : MutexSystem) (t : Nat) : MutexSystem → Prop
  | post {m : SemaphoreSystem LockWaker} (hlocks : (s.lockers t).locks ≠ 0)
      (hsignal : semaphoreStep s.mutex .signal = .ok m) (hhead : s.mutex.sem.wakeQueueHead = none) :
      UnlockCase s t (s.released t m)
  | call {m : SemaphoreSystem LockWaker} {a : Nat} {n : SemaphoreNode LockWaker} {s' : MutexSystem}
      (hlocks : (s.lockers t).locks ≠ 0) (hsignal : semaphoreStep s.mutex .signal = .ok m)
      (hhead : s.mutex.sem.wakeQueueHead = some a) (hn : s.mutex.sem.nodes a = some n)
      (hcall : CallCase (s.released t m) n.waker s') : UnlockCase s t s'

theorem mutexUnlock_cases (hshape : MutexShape s.mutex) (h : mutexUnlock s t = .ok s') :
    UnlockCase s t s' := by
  unfold mutexUnlock at h
  simp only at h
  split at h
  · cases h
  · rename_i hlocks
    obtain ⟨m, hsignal, h⟩ := bind_eq_ok.mp h
    obtain ⟨q, hq⟩ := hshape.queue
    have hhead : s.mutex.sem.wakeQueueHead = q.head? := hq.queue.chain.head?_eq.symm
    rcases signal_wakes hq hsignal with ⟨hnil, hwoken, -⟩ | ⟨a, n, ha, hn, hwoken, -⟩
    · rw [hwoken, List.drop_length] at h
      cases h
      exact .post hlocks hsignal (by rw [hhead, hnil]; rfl)
    · rw [hwoken, List.drop_left] at h
      exact .call hlocks hsignal (hhead.trans ha) hn (callWaker_cases h)

/-- The first poll of a lock, down to the first poll of its wait. -/
inductive BeginCase (s : MutexSystem) (t : Nat) (timed : Bool) : MutexSystem → Prop
  | locked {m₁ m : SemaphoreSystem LockWaker} {rt : Scheduler}
      (hwait : semaphoreStep s.mutex (.wait timed) = .ok m₁)
      (hpoll : semaphoreStep m₁ (.poll s.mutex.waits.length ⟨t, s.mutex.waits.length, timed⟩) = .ok m)
      (hdone : m.isCompleted s.mutex.waits.length = true)
      (hwake : schedulerStep s.rt (.wake t) = .ok rt) :
      BeginCase s t timed { s.setAwait t .resuming with
        rt := rt, mutex := m, permits := s.permits ++ [t] }
  | queued {m₁ m : SemaphoreSystem LockWaker}
      (hwait : semaphoreStep s.mutex (.wait timed) = .ok m₁)
      (hpoll : semaphoreStep m₁ (.poll s.mutex.waits.length ⟨t, s.mutex.waits.length, timed⟩) = .ok m)
      (hdone : m.isCompleted s.mutex.waits.length = false) :
      BeginCase s t timed { s.setAwait t (if timed = true then .timedlock s.mutex.waits.length []
        else .lock s.mutex.waits.length) with mutex := m }

theorem mutexAwait_cases (h : mutexAwait s t timed = .ok s') : BeginCase s t timed s' := by
  unfold mutexAwait at h
  obtain ⟨m₁, hwait, h⟩ := bind_eq_ok.mp h
  obtain ⟨m, hpoll, h⟩ := bind_eq_ok.mp h
  split at h
  · rename_i hdone
    obtain ⟨rt, hwake, h⟩ := bind_eq_ok.mp h
    cases h
    exact .locked hwait hpoll hdone hwake
  · rename_i hdone
    cases h
    exact .queued hwait hpoll (Bool.eq_false_iff.mpr hdone)

/-- The timeout of a timed lock. -/
inductive TimeoutCase (s : MutexSystem) (t : Nat) : MutexSystem → Prop
  | linked {i : Nat} {ready : List TimedChild} {rt : Scheduler}
      (hawait : s.await t = .timedlock i ready) (hwake : schedulerStep s.rt (.wake t) = .ok rt) :
      TimeoutCase s t { s.setAwait t (.timedlock i (ready ++ [.timeout])) with rt := rt }

theorem lockTimeout_cases (h : lockTimeout s t = .ok s') : TimeoutCase s t s' := by
  unfold lockTimeout at h
  split at h
  · rename_i i ready hawait
    split at h
    · cases h
    · obtain ⟨rt, hwake, h⟩ := bind_eq_ok.mp h
      cases h
      exact .linked hawait hwake
  · cases h

/-! ## The steps -/

/-- What a step does. -/
inductive StepCase (s : MutexSystem) : MutexOp → MutexSystem → Prop
  | cleaned {t : Nat} {task : Task} {rt : Scheduler} {s' : MutexSystem}
      (hrt : schedulerStep s.rt .take = .ok rt) (hhead : s.rt.pollHead = some t)
      (htask : s.rt.tasks t = some task) (hstatus : task.status = .aborted)
      (hturn : AbandonCase { s with rt := rt } t s') : StepCase s (.rt .take) s'
  | polled {t : Nat} {task : Task} {rt : Scheduler} {s' : MutexSystem}
      (hrt : schedulerStep s.rt .take = .ok rt) (hhead : s.rt.pollHead = some t)
      (htask : s.rt.tasks t = some task) (hstatus : task.status ≠ .aborted)
      (hturn : TurnCase { s with rt := rt } t s') : StepCase s (.rt .take) s'
  | rt {o : SchedulerOp} {rt : Scheduler} (ho : o ≠ .take) (hrt : schedulerStep s.rt o = .ok rt) :
      StepCase s (.rt o) { s with rt := rt }
  | lock {t : Nat} {s' : MutexSystem} (hcontrol : s.rt.control = .polling t) (hnone : s.await t = .none)
      (hbegin : BeginCase s t false s') : StepCase s .lock s'
  | timedlock {t : Nat} {s' : MutexSystem} (hcontrol : s.rt.control = .polling t)
      (hnone : s.await t = .none) (hbegin : BeginCase s t true s') : StepCase s .timedlock s'
  | unlock {t : Nat} {s' : MutexSystem} (hnone : s.await t = .none) (hunlock : UnlockCase s t s') :
      StepCase s .unlock s'
  | timeout {t : Nat} {s' : MutexSystem} (htimeout : TimeoutCase s t s') : StepCase s (.timeout t) s'

theorem mutexStep_cases {o : MutexOp} (hshape : MutexShape s.mutex) (h : mutexStep s o = .ok s') :
    StepCase s o s' := by
  have hrt : ∀ o', o' ≠ .take →
      (schedulerStep s.rt o' >>= fun rt => .ok { s with rt := rt }) = .ok s' →
      StepCase s (.rt o') s' := by
    intro o' ho h
    obtain ⟨rt, hrt, h⟩ := bind_eq_ok.mp h
    cases h
    exact .rt ho hrt
  unfold mutexStep at h
  split at h
  · obtain ⟨rt, hrt, h⟩ := bind_eq_ok.mp h
    obtain ⟨t, task, hhead, htask, ⟨hstatus, hcontrol⟩ | ⟨hstatus, hcontrol⟩⟩ := schedulerTake_ok hrt
    · simp only [hcontrol] at h
      exact .cleaned hrt hhead htask hstatus (mutexAbandon_cases h)
    · simp only [hcontrol] at h
      exact .polled hrt hhead htask hstatus (mutexResume_cases h)
  · split at h
    · split at h
      · exact hrt _ (by simp) h
      · cases h
    · cases h
  · rename_i o' htake _
    exact hrt o' (fun he => htake (by rw [he])) h
  · split at h
    · rename_i t hcontrol
      split at h
      · rename_i hnone
        exact .lock hcontrol hnone (mutexAwait_cases h)
      · cases h
    · cases h
  · split at h
    · rename_i t hcontrol
      split at h
      · rename_i hnone
        exact .timedlock hcontrol hnone (mutexAwait_cases h)
      · cases h
    · cases h
  · split at h
    · split at h
      · rename_i hnone
        exact .unlock hnone (mutexUnlock_cases hshape h)
      · cases h
    · split at h
      · rename_i hnone
        exact .unlock hnone (mutexUnlock_cases hshape h)
      · cases h
    · cases h
  · exact .timeout (lockTimeout_cases h)
  · cases h

end Taskio
