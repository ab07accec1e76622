import Taskio.Sync.Blocking

/-!
# `mutex.c`: `taskio_mutex_try_lock`

`taskio_mutex_try_lock` reads the counter in one section, and takes the permit in another, by
`taskio_semaphore_blocking_wait`. Any number of threads try, lock and unlock the mutex, and tasks wait
for it with futures; each section that holds the semaphore's mutex is one step.

* `try_lock_never_waits_iff` — no call of it is in `cnd_wait` exactly in the runs in which the counter
  is still positive at each second section
-/

namespace Taskio

variable {W : Type}

/-! ## Data -/

/-- Where a call of `taskio_mutex_try_lock` stands. -/
inductive TryLock where
  /-- the counter was positive -/
  | tested
  /-- it returned false -/
  | refused
  /-- in `taskio_semaphore_blocking_wait`, or returned true from it: this call of it -/
  | entered (k : Nat)
deriving DecidableEq, Repr

/-- The mutex with the futures that wait for it, the calls of `taskio_semaphore_blocking_wait`, and
those of `taskio_mutex_try_lock`, each in order. -/
structure TryLockSystem (W : Type) where
  mutex : SemaphoreSystem W
  threads : List BlockingStage
  tries : List TryLock

inductive TryLockOp (W : Type) where
  /-- `taskio_mutex_try_lock`, to the end of `taskio_semaphore_getvalue` -/
  | tryLock
  /-- the call goes on to `taskio_semaphore_blocking_wait` -/
  | acquire (i : Nat)
  | blockingLock
  /-- the wait of a `taskio_mutex_lock` is made, polled or cleaned up -/
  | lock (o : SemaphoreOp W)
  /-- `taskio_mutex_unlock`, with the thread that `cnd_signal` picks if it is called -/
  | unlock (k : Nat)
  | spurious (k : Nat)
  /-- the thread takes the semaphore's mutex again -/
  | resume (k : Nat)
deriving DecidableEq, Repr

/-! ## Functions -/

/-- `taskio_mutex_init`. -/
def tryLockSystem (W : Type) : TryLockSystem W :=
  { mutex := semaphoreSystem W 1, threads := [], tries := [] }

namespace TryLockSystem

/-- `taskio_semaphore_getvalue`. -/
def getvalue (s : TryLockSystem W) : Nat := s.mutex.sem.counter

/-- `taskio_semaphore_blocking_wait`. -/
def blockingWait (s : TryLockSystem W) : TryLockSystem W :=
  let (sem, stage) := semaphoreBlockingWait s.mutex.sem
  { s with mutex := { s.mutex with sem := sem }, threads := s.threads ++ [stage] }

/-- `taskio_mutex_unlock`. -/
def mutexUnlock (s : TryLockSystem W) (k : Nat) : Except Fault (TryLockSystem W) := do
  let mutex ← semaphoreStep s.mutex .signal
  let threads ← condSignal (mutex.sem.condSignals ≠ s.mutex.sem.condSignals) s.threads k
  .ok { s with mutex := mutex, threads := threads }

end TryLockSystem

def tryLockStep (s : TryLockSystem W) : TryLockOp W → Except Fault (TryLockSystem W)
  | .tryLock =>
    if s.getvalue = 0 then .ok { s with tries := s.tries ++ [.refused] }
    else .ok { s with tries := s.tries ++ [.tested] }
  | .acquire i =>
    if s.tries[i]? = some .tested then
      .ok { s.blockingWait with tries := s.tries.set i (.entered s.threads.length) }
    else .error .noSuchCall
  | .blockingLock => .ok s.blockingWait
  | .lock .signal => .error .noSuchCall
  | .lock o => do
    let mutex ← semaphoreStep s.mutex o
    .ok { s with mutex := mutex }
  | .unlock k => s.mutexUnlock k
  | .spurious k =>
    if s.threads[k]? = some .waiting then .ok { s with threads := s.threads.set k .spurious }
    else .error .noSuchCall
  | .resume k =>
    if s.threads[k]? = some .released ∨ s.threads[k]? = some .spurious then
      .ok { s with
        mutex := { s.mutex with sem := semaphoreBlockingResume s.mutex.sem }
        threads := s.threads.set k .returned }
    else .error .noSuchCall

/-! ## What is promised -/

/-- No call of `taskio_mutex_try_lock` is in `cnd_wait`, or on its way out of it. -/
def TryLockSystem.NoneWaits (s : TryLockSystem W) : Prop :=
  ∀ k, .entered k ∈ s.tries → s.threads[k]? = some .returned

/-- What a step of `taskio_mutex_try_lock` does: it changes nothing, and returns false if there is no
permit; or it takes a permit. -/
def TakesOrLeaves (s : TryLockSystem W) : TryLockOp W → TryLockSystem W → Prop
  | .tryLock, s' =>
    s'.mutex = s.mutex ∧ s'.threads = s.threads ∧
      s'.tries = s.tries ++ [if s.getvalue = 0 then .refused else .tested]
  | .acquire i, s' =>
    s'.mutex = { s.mutex with sem := { s.mutex.sem with counter := s.getvalue - 1 } } ∧
      0 < s.getvalue ∧ s'.threads = s.threads ++ [.returned] ∧
      s'.tries = s.tries.set i (.entered s.threads.length)
  | _, _ => True

/-- The counter is positive when the call goes on. -/
def KeepsTryLock (s : TryLockSystem W) : TryLockOp W → Prop
  | .acquire _ => 0 < s.getvalue
  | _ => True

instance (s : TryLockSystem W) : ∀ o, Decidable (KeepsTryLock s o)
  | .acquire _ => inferInstanceAs (Decidable (_ < _))
  | .tryLock | .blockingLock | .lock _ | .unlock _ | .spurious _ | .resume _ => .isTrue trivial

variable {s s' : TryLockSystem W} {o : TryLockOp W} {os : List (TryLockOp W)}

/-! ## One step -/

/-- What a step does to the calls of `taskio_semaphore_blocking_wait`, but for a new one. -/
structure KeepsReturned (s s' : TryLockSystem W) : Prop where
  threads : ∀ k : Nat, s.threads[k]? = some .returned → s'.threads[k]? = some .returned
  tries : ∀ k, .entered k ∈ s'.tries → .entered k ∈ s.tries

theorem KeepsReturned.noneWaits (h : KeepsReturned s s') (hs : s.NoneWaits) : s'.NoneWaits :=
  fun k hk => h.threads k (hs k (h.tries k hk))

/-- A call that has returned is not set back. -/
theorem getElem?_set_of_returned {threads : List BlockingStage} {k k' : Nat} {stage : BlockingStage}
    (hk' : threads[k']? ≠ some .returned) (hk : threads[k]? = some .returned) :
    (threads.set k' stage)[k]? = some .returned := by
  rw [List.getElem?_set_ne]
  · exact hk
  · rintro rfl
    exact hk' hk

theorem getElem?_append_of_returned {threads : List BlockingStage} {k : Nat} (stage : BlockingStage)
    (hk : threads[k]? = some .returned) : (threads ++ [stage])[k]? = some .returned := by
  rw [List.getElem?_append_left]
  · exact hk
  · exact (List.getElem?_eq_some_iff.mp hk).1

theorem condSignal_returned {called : Bool} {threads threads' : List BlockingStage} {k k' : Nat}
    (h : condSignal called threads k' = .ok threads') (hk : threads[k]? = some .returned) :
    threads'[k]? = some .returned := by
  rw [condSignal] at h
  split at h
  · split at h
    · rename_i hwaiting
      cases h
      exact getElem?_set_of_returned (by rw [hwaiting]; decide) hk
    · cases h
  · cases h
    exact hk

/-- Only the second section of a try_lock can put one among those that wait. -/
theorem tryLockStep_keeps (h : tryLockStep s o = .ok s') (ho : ∀ i, o ≠ .acquire i) :
    KeepsReturned s s' := by
  cases o with
  | tryLock =>
    rw [tryLockStep] at h
    split at h
    · cases h
      exact ⟨fun _ hk => hk, fun k hk => by simpa using hk⟩
    · cases h
      exact ⟨fun _ hk => hk, fun k hk => by simpa using hk⟩
  | acquire i => exact absurd rfl (ho i)
  | blockingLock =>
    cases h
    exact ⟨fun k hk => getElem?_append_of_returned _ hk, fun _ hk => hk⟩
  | lock o =>
    cases o with
    | signal => cases h
    | wait timed =>
      obtain ⟨mutex, -, h⟩ := bind_eq_ok.mp h
      cases h
      exact ⟨fun _ hk => hk, fun _ hk => hk⟩
    | poll i waker =>
      obtain ⟨mutex, -, h⟩ := bind_eq_ok.mp h
      cases h
      exact ⟨fun _ hk => hk, fun _ hk => hk⟩
    | cleanup i =>
      obtain ⟨mutex, -, h⟩ := bind_eq_ok.mp h
      cases h
      exact ⟨fun _ hk => hk, fun _ hk => hk⟩
  | unlock k' =>
    obtain ⟨mutex, -, h⟩ := bind_eq_ok.mp h
    obtain ⟨threads, hsignal, h⟩ := bind_eq_ok.mp h
    cases h
    exact ⟨fun _ hk => condSignal_returned hsignal hk, fun _ hk => hk⟩
  | spurious k' =>
    rw [tryLockStep] at h
    split at h
    · rename_i hwaiting
      cases h
      exact ⟨fun _ hk => getElem?_set_of_returned (by rw [hwaiting]; decide) hk, fun _ hk => hk⟩
    · cases h
  | resume k' =>
    rw [tryLockStep] at h
    split at h
    · rename_i hwaiting
      cases h
      refine ⟨fun _ hk => getElem?_set_of_returned ?_ hk, fun _ hk => hk⟩
      rcases hwaiting with hwaiting | hwaiting
      · rw [hwaiting]
        decide
      · rw [hwaiting]
        decide
    · cases h

/-- **The second section takes a permit if there is one, and waits if there is none.** -/
theorem acquire_ok {i : Nat} (h : tryLockStep s (.acquire i) = .ok s') :
    0 < s.getvalue ∧ TakesOrLeaves s (.acquire i) s' ∨
      s.getvalue = 0 ∧ .entered s.threads.length ∈ s'.tries ∧
        s'.threads[s.threads.length]? = some .waiting := by
  rw [tryLockStep] at h
  split at h
  · rename_i htested
    cases h
    have hlt : i < s.tries.length := (List.getElem?_eq_some_iff.mp htested).1
    by_cases hpos : 0 < s.getvalue
    · refine Or.inl ⟨hpos, ?_⟩
      have hcounter : 0 < s.mutex.sem.counter := hpos
      simp [TakesOrLeaves, TryLockSystem.blockingWait, semaphoreBlockingWait, hcounter,
        TryLockSystem.getvalue]
    · have hcounter : ¬ 0 < s.mutex.sem.counter := hpos
      refine Or.inr ⟨by omega, List.mem_set hlt _, ?_⟩
      simp [TryLockSystem.blockingWait, semaphoreBlockingWait, hcounter]
  · cases h

theorem tryLock_ok (h : tryLockStep s .tryLock = .ok s') : TakesOrLeaves s .tryLock s' := by
  rw [tryLockStep] at h
  split at h
  · rename_i hzero
    cases h
    exact ⟨rfl, rfl, by rw [if_pos hzero]⟩
  · rename_i hzero
    cases h
    exact ⟨rfl, rfl, by rw [if_neg hzero]⟩

/-- **A step keeps the calls out of `cnd_wait` exactly when it meets the condition.** -/
theorem noneWaits_step_iff (hs : s.NoneWaits) (h : tryLockStep s o = .ok s') :
    s'.NoneWaits ↔ KeepsTryLock s o := by
  by_cases ho : ∃ i, o = .acquire i
  · obtain ⟨i, rfl⟩ := ho
    rcases acquire_ok h with ⟨hpos, -, -, hthreads, htries⟩ | ⟨hzero, hentered, hwaiting⟩
    · refine ⟨fun _ => hpos, ?_⟩
      intro _ k hk
      rw [htries] at hk
      rw [hthreads]
      rcases List.mem_or_eq_of_mem_set hk with hk | hk
      · exact getElem?_append_of_returned _ (hs k hk)
      · cases hk
        simp
    · constructor
      · intro hs'
        rw [hs' _ hentered] at hwaiting
        cases hwaiting
      · intro hpos
        have hpos : 0 < s.getvalue := hpos
        omega
  · have hkeeps := tryLockStep_keeps h fun i hi => ho ⟨i, hi⟩
    refine ⟨?_, fun _ => hkeeps.noneWaits hs⟩
    intro _
    cases o with
    | acquire i => exact absurd ⟨i, rfl⟩ ho
    | _ => trivial

/-! ## Runs -/

theorem takesOrLeaves_step (h : tryLockStep s o = .ok s') (hkeeps : KeepsTryLock s o) :
    TakesOrLeaves s o s' := by
  cases o with
  | tryLock => exact tryLock_ok h
  | acquire i =>
    rcases acquire_ok h with ⟨-, htakes⟩ | ⟨hzero, -⟩
    · exact htakes
    · have hpos : 0 < s.getvalue := hkeeps
      omega
  | _ => trivial

/--
**When `taskio_mutex_try_lock` does not wait.** In every state of a run no call of it is in `cnd_wait`,
and each of its steps takes a permit or changes nothing, exactly when the counter is positive whenever
a call goes on from its test.
-/
theorem try_lock_never_waits_iff (hrun : Lib.run tryLockStep (tryLockSystem W) os = .ok s) :
    ((∀ os₁ os₂ s₁, os = os₁ ++ os₂ → Lib.run tryLockStep (tryLockSystem W) os₁ = .ok s₁ →
        s₁.NoneWaits) ∧
      ∀ os₁ o os₂ s₁ s₂, os = os₁ ++ o :: os₂ →
        Lib.run tryLockStep (tryLockSystem W) os₁ = .ok s₁ → tryLockStep s₁ o = .ok s₂ →
        TakesOrLeaves s₁ o s₂) ↔
      Lib.Along tryLockStep KeepsTryLock (tryLockSystem W) os := by
  have hstates := Lib.along_iff_states (P := KeepsTryLock) (I := fun _ => True)
    (L := TryLockSystem.NoneWaits) (fun _ _ _ _ _ _ _ => trivial)
    (fun _ _ _ _ hs hok => noneWaits_step_iff hs hok) trivial
    (show (tryLockSystem W).NoneWaits by rintro k ⟨⟩) hrun
  rw [hstates]
  refine ⟨And.left, fun halong => ⟨halong, ?_⟩⟩
  rintro os₁ o os₂ s₁ s₂ rfl hrun₁ hstep
  exact takesOrLeaves_step hstep ((Lib.along_append halong).2 s₁ hrun₁).1

/-- One call takes the permit; the next finds none and returns false. -/
theorem try_lock_never_waits_iff_two : ∃ s, Lib.run tryLockStep (tryLockSystem Nat)
      [.tryLock, .acquire 0, .tryLock] = .ok s ∧ s.NoneWaits := by
  obtain ⟨s, hrun, -⟩ : ∃ s, Lib.run tryLockStep (tryLockSystem Nat)
      [.tryLock, .acquire 0, .tryLock] = .ok s ∧ s.tries = [.entered 0, .refused] :=
    Lib.exists_ok_of_decide (by decide)
  exact ⟨s, hrun, ((try_lock_never_waits_iff hrun).mpr (by decide)).1 _ [] s
    (List.append_nil _).symm hrun⟩

/-- Two calls test the counter before either goes on: the second is in `cnd_wait`. -/
theorem try_lock_waits : ∃ s, Lib.run tryLockStep (tryLockSystem Nat)
      [.tryLock, .tryLock, .acquire 0, .acquire 1] = .ok s ∧ ¬ s.NoneWaits := by
  obtain ⟨s, hrun, htries, hthreads⟩ : ∃ s, Lib.run tryLockStep (tryLockSystem Nat)
      [.tryLock, .tryLock, .acquire 0, .acquire 1] = .ok s ∧ s.tries = [.entered 0, .entered 1] ∧
        s.threads = [.returned, .waiting] :=
    Lib.exists_ok_of_decide (by decide)
  refine ⟨s, hrun, ?_⟩
  intro hnone
  have hreturned := hnone 1 (by rw [htries]; simp)
  rw [hthreads] at hreturned
  cases hreturned

end Taskio
