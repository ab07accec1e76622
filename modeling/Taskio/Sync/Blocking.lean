import Taskio.Lib.ListSet
import Taskio.Lib.Run
import Taskio.Sync.Semaphore

/-!
# `semaphore.c`: blocking waiters

Any number of threads call `taskio_semaphore_blocking_wait` and `taskio_semaphore_signal`. A section
that holds the mutex is one step; `cnd_wait` gives the mutex up and takes it again in a later step.
`cnd_signal` releases one thread that waits, if any does, and a thread may also stop waiting without
a signal.

* `blockingWakeWait_eq` — the counter of the waiters counts also those released and not yet back
* `blocking_conserved_iff` — no permit is lost or made exactly when no signal finds only threads
  that wait no more, and no thread that was not released comes back
-/

namespace Taskio

variable {W : Type}

/-! ## The threads -/

/-- Where a call of `taskio_semaphore_blocking_wait` stands. -/
inductive BlockingStage where
  /-- in `cnd_wait` -/
  | waiting
  /-- released by a `cnd_signal`, without the mutex -/
  | released
  /-- out of `cnd_wait` without a signal, without the mutex -/
  | spurious
  | returned
deriving DecidableEq, Repr

/-- A semaphore, the calls of `taskio_semaphore_blocking_wait` in order, and the number of signals. -/
structure BlockingSystem (W : Type) where
  sem : Semaphore W
  calls : List BlockingStage
  signals : Nat

inductive BlockingOp where
  | wait
  /-- a signal, with the thread that `cnd_signal` picks if it is called -/
  | signal (i : Nat)
  | spurious (i : Nat)
  /-- the thread takes the mutex again -/
  | resume (i : Nat)
deriving DecidableEq, Repr

def blockingSystem (W : Type) (permits : UInt64) : BlockingSystem W :=
  { sem := semaphoreInit W permits, calls := [], signals := 0 }

/-- `taskio_semaphore_blocking_wait`, up to its return or to `cnd_wait`. -/
def semaphoreBlockingWait (s : Semaphore W) : Semaphore W × BlockingStage :=
  if 0 < s.counter then ({ s with counter := s.counter - 1 }, .returned)
  else ({ s with blockingWakeWait := sizeInc s.blockingWakeWait }, .waiting)

/-- `taskio_semaphore_blocking_wait`, from the return of `cnd_wait`. -/
def semaphoreBlockingResume (s : Semaphore W) : Semaphore W :=
  { s with blockingWakeWait := sizeDec s.blockingWakeWait }

/-- `cnd_signal`, if it is called: the thread `i` is released. Without a thread that waits it does
nothing. -/
def condSignal (called : Bool) (calls : List BlockingStage) (i : Nat) :
    Except Fault (List BlockingStage) :=
  if called ∧ .waiting ∈ calls then
    if calls[i]? = some .waiting then .ok (calls.set i .released) else .error .noSuchCall
  else .ok calls

def blockingStep (s : BlockingSystem W) : BlockingOp → Except Fault (BlockingSystem W)
  | .wait =>
    let (sem, stage) := semaphoreBlockingWait s.sem
    .ok { s with sem := sem, calls := s.calls ++ [stage] }
  | .signal i => do
    let (sem, _) ← semaphoreSignal s.sem
    let calls ← condSignal (sem.condSignals ≠ s.sem.condSignals) s.calls i
    .ok { sem := sem, calls := calls, signals := s.signals + 1 }
  | .spurious i =>
    if s.calls[i]? = some .waiting then .ok { s with calls := s.calls.set i .spurious }
    else .error .noSuchCall
  | .resume i =>
    if s.calls[i]? = some .released ∨ s.calls[i]? = some .spurious then
      .ok { s with sem := semaphoreBlockingResume s.sem, calls := s.calls.set i .returned }
    else .error .noSuchCall

variable {s s' : BlockingSystem W} {o : BlockingOp} {permits : UInt64}

/-! ## The ledger -/

/-- The permit came in, and is in the counter, with a call that returned or with a thread that was
released. -/
def BlockingConserved (permits : UInt64) (s : BlockingSystem W) : Prop :=
  permits.toNat + s.signals =
    s.sem.counter + s.calls.count .returned + s.calls.count .released

instance (permits : UInt64) (s : BlockingSystem W) : Decidable (BlockingConserved permits s) :=
  inferInstanceAs (Decidable (_ = _))

/-- A signal meant for the threads finds one that waits, and else the counter does not wrap; a thread
comes back only if it was released. -/
def KeepsBlocking (s : BlockingSystem W) : BlockingOp → Prop
  | .signal _ =>
    if 0 < s.sem.blockingWakeWait then .waiting ∈ s.calls else s.sem.counter ≠ 2 ^ 64 - 1
  | .resume i => s.calls[i]? = some .released
  | .wait | .spurious _ => True

instance (s : BlockingSystem W) : ∀ o, Decidable (KeepsBlocking s o)
  | .signal _ => by unfold KeepsBlocking; infer_instance
  | .resume _ => inferInstanceAs (Decidable (_ = _))
  | .wait | .spurious _ => .isTrue trivial

/-- What a step does, with no future in the wake queue. -/
inductive BlockingEffect (s s' : BlockingSystem W) : BlockingOp → Prop
  | take (hpos : 0 < s.sem.counter) (hcounter : s'.sem.counter = s.sem.counter - 1)
      (hwaits : s'.sem.blockingWakeWait = s.sem.blockingWakeWait)
      (hcalls : s'.calls = s.calls ++ [.returned]) (hsignals : s'.signals = s.signals) :
      BlockingEffect s s' .wait
  | block (hzero : s.sem.counter = 0) (hcounter : s'.sem.counter = 0)
      (hwaits : s'.sem.blockingWakeWait = sizeInc s.sem.blockingWakeWait)
      (hcalls : s'.calls = s.calls ++ [.waiting]) (hsignals : s'.signals = s.signals) :
      BlockingEffect s s' .wait
  | release {i : Nat} (hpos : 0 < s.sem.blockingWakeWait) (hget : s.calls[i]? = some .waiting)
      (hcounter : s'.sem.counter = s.sem.counter)
      (hwaits : s'.sem.blockingWakeWait = s.sem.blockingWakeWait)
      (hcalls : s'.calls = s.calls.set i .released) (hsignals : s'.signals = s.signals + 1) :
      BlockingEffect s s' (.signal i)
  | swallow {i : Nat} (hpos : 0 < s.sem.blockingWakeWait) (hnone : .waiting ∉ s.calls)
      (hcounter : s'.sem.counter = s.sem.counter)
      (hwaits : s'.sem.blockingWakeWait = s.sem.blockingWakeWait)
      (hcalls : s'.calls = s.calls) (hsignals : s'.signals = s.signals + 1) :
      BlockingEffect s s' (.signal i)
  | post {i : Nat} (hzero : s.sem.blockingWakeWait = 0)
      (hcounter : s'.sem.counter = sizeInc s.sem.counter)
      (hwaits : s'.sem.blockingWakeWait = 0)
      (hcalls : s'.calls = s.calls) (hsignals : s'.signals = s.signals + 1) :
      BlockingEffect s s' (.signal i)
  | spurious {i : Nat} (hget : s.calls[i]? = some .waiting) (hsem : s'.sem = s.sem)
      (hcalls : s'.calls = s.calls.set i .spurious) (hsignals : s'.signals = s.signals) :
      BlockingEffect s s' (.spurious i)
  | resume {i : Nat} {stage : BlockingStage} (hget : s.calls[i]? = some stage)
      (hstage : stage = .released ∨ stage = .spurious) (hcounter : s'.sem.counter = s.sem.counter)
      (hwaits : s'.sem.blockingWakeWait = sizeDec s.sem.blockingWakeWait)
      (hcalls : s'.calls = s.calls.set i .returned) (hsignals : s'.signals = s.signals) :
      BlockingEffect s s' (.resume i)

theorem condSignal_ok {calls calls' : List BlockingStage} {i : Nat}
    (h : condSignal true calls i = .ok calls') :
    calls[i]? = some .waiting ∧ calls' = calls.set i .released ∨ .waiting ∉ calls ∧ calls' = calls := by
  unfold condSignal at h
  by_cases hwaiting : .waiting ∈ calls
  · rw [if_pos ⟨rfl, hwaiting⟩] at h
    split at h
    · rename_i hget
      cases h
      exact Or.inl ⟨hget, rfl⟩
    · cases h
  · rw [if_neg fun hboth => hwaiting hboth.2] at h
    cases h
    exact Or.inr ⟨hwaiting, rfl⟩

theorem blockingStep_effect (hempty : s.sem.wakeQueueHead = none) (h : blockingStep s o = .ok s') :
    BlockingEffect s s' o ∧ s'.sem.wakeQueueHead = none := by
  cases o with
  | wait =>
    simp only [blockingStep, semaphoreBlockingWait] at h
    by_cases hpos : 0 < s.sem.counter
    · rw [if_pos hpos] at h
      cases h
      exact ⟨.take hpos rfl rfl rfl rfl, hempty⟩
    · rw [if_neg hpos] at h
      cases h
      have hzero : s.sem.counter = 0 := by omega
      exact ⟨.block hzero hzero rfl rfl rfl, hempty⟩
  | signal i =>
    obtain ⟨⟨sem, waker⟩, hsignal, h⟩ := bind_eq_ok.mp h
    obtain ⟨calls, hcalls, h⟩ := bind_eq_ok.mp h
    cases h
    unfold semaphoreSignal at hsignal
    rw [if_neg fun hboth => hboth.1 hempty, if_neg fun hsome => hsome hempty] at hsignal
    by_cases hpos : 0 < s.sem.blockingWakeWait
    · rw [if_pos hpos] at hsignal
      cases hsignal
      have hcalled : (signalSync s.sem).condSignals ≠ s.sem.condSignals := Nat.succ_ne_self _
      rw [decide_eq_true hcalled] at hcalls
      rcases condSignal_ok hcalls with ⟨hget, rfl⟩ | ⟨hnone, rfl⟩
      · exact ⟨.release hpos hget rfl rfl rfl rfl, hempty⟩
      · exact ⟨.swallow hpos hnone rfl rfl rfl rfl, hempty⟩
    · rw [if_neg hpos] at hsignal
      cases hsignal
      rw [decide_eq_false (not_not.mpr rfl), condSignal, if_neg (fun hboth => by cases hboth.1)]
        at hcalls
      cases hcalls
      have hzero : s.sem.blockingWakeWait = 0 := by omega
      exact ⟨.post hzero rfl hzero rfl rfl, hempty⟩
  | spurious i =>
    simp only [blockingStep] at h
    split at h
    · rename_i hget
      cases h
      exact ⟨.spurious hget rfl rfl rfl, hempty⟩
    · cases h
  | resume i =>
    simp only [blockingStep] at h
    split at h
    · rename_i hget
      cases h
      rcases hget with hget | hget
      · exact ⟨.resume hget (Or.inl rfl) rfl rfl rfl rfl, hempty⟩
      · exact ⟨.resume hget (Or.inr rfl) rfl rfl rfl rfl, hempty⟩
    · cases h

/-- The counts when one call moves on. -/
theorem count_set_stage {calls : List BlockingStage} {i : Nat} {stage : BlockingStage}
    (hget : calls[i]? = some stage) (stage' x : BlockingStage) :
    (calls.set i stage').count x + (decide (stage = x)).toNat =
      calls.count x + (decide (stage' = x)).toNat := by
  have h := Lib.countP_set_add (· == x) hget stage'
  simpa [List.count, beq_eq_decide] using h

/-- **A step keeps the balance exactly when it meets the condition.** -/
theorem blockingConserved_step_iff (heffect : BlockingEffect s s' o)
    (hs : BlockingConserved permits s) : BlockingConserved permits s' ↔ KeepsBlocking s o := by
  unfold BlockingConserved at *
  cases heffect with
  | take hpos hcounter hwaits hcalls hsignals =>
    rw [hcounter, hcalls, hsignals, List.count_append, List.count_append]
    simp [KeepsBlocking]
    omega
  | block hzero hcounter hwaits hcalls hsignals =>
    rw [hcounter, hcalls, hsignals, List.count_append, List.count_append]
    simp [KeepsBlocking]
    omega
  | @release i hpos hget hcounter hwaits hcalls hsignals =>
    have hreturned := count_set_stage hget .released .returned
    have hreleased := count_set_stage hget .released .released
    have hmem : .waiting ∈ s.calls := List.mem_of_getElem? hget
    rw [hcounter, hcalls, hsignals]
    simp [KeepsBlocking, hpos, hmem] at *
    omega
  | swallow hpos hnone hcounter hwaits hcalls hsignals =>
    rw [hcounter, hcalls, hsignals]
    simp [KeepsBlocking, hpos, hnone]
    omega
  | post hzero hcounter hwaits hcalls hsignals =>
    rw [hcounter, hcalls, hsignals, sizeInc]
    simp [KeepsBlocking, hzero]
    split
    · omega
    · omega
  | @spurious i hget hsem hcalls hsignals =>
    have hreturned := count_set_stage hget .spurious .returned
    have hreleased := count_set_stage hget .spurious .released
    rw [hsem, hcalls, hsignals]
    simp [KeepsBlocking] at *
    omega
  | @resume i stage hget hstage hcounter hwaits hcalls hsignals =>
    have hreturned := count_set_stage hget .returned .returned
    have hreleased := count_set_stage hget .returned .released
    rw [hcounter, hcalls, hsignals]
    rcases hstage with rfl | rfl
    · simp [KeepsBlocking, hget] at *
      omega
    · simp [KeepsBlocking, hget] at *
      omega

/-! ## Runs -/

/--
**When permits are conserved with blocking waiters.** The ledger balances in every state of a run
exactly when each signal made while threads are counted as waiting finds one that still waits, no
other signal lets the counter wrap, and each thread that comes back was released by a signal.
-/
theorem blocking_conserved_iff (permits : UInt64) (os : List BlockingOp)
    (hrun : Lib.run blockingStep (blockingSystem W permits) os = .ok s) :
    (∀ os₁ os₂ s₁, os = os₁ ++ os₂ →
        Lib.run blockingStep (blockingSystem W permits) os₁ = .ok s₁ → BlockingConserved permits s₁) ↔
      Lib.Along blockingStep KeepsBlocking (blockingSystem W permits) os := by
  refine Lib.along_iff_states (I := fun s => s.sem.wakeQueueHead = none) ?_ ?_ rfl ?_ hrun
  · intro s o s' hempty _ _ hok
    exact (blockingStep_effect hempty hok).2
  · intro s o s' hempty hL hok
    exact blockingConserved_step_iff (blockingStep_effect hempty hok).1 hL
  · rw [BlockingConserved]
    rfl

/-- Two waiters, and two signals of which each finds one that waits. -/
theorem blocking_conserved_iff_two : ∃ s, Lib.run blockingStep (blockingSystem Nat 0)
      [.wait, .wait, .signal 1, .signal 0, .resume 0, .resume 1] = .ok s ∧
    BlockingConserved 0 s := by
  obtain ⟨s, hrun, -⟩ : ∃ s, Lib.run blockingStep (blockingSystem Nat 0)
      [.wait, .wait, .signal 1, .signal 0, .resume 0, .resume 1] = .ok s ∧ s.signals = 2 :=
    Lib.exists_ok_of_decide (by decide)
  exact ⟨s, hrun,
    (blocking_conserved_iff 0 _ hrun).mpr (by decide) _ [] s (List.append_nil _).symm hrun⟩

/-- A second signal before the thread that the first one released is back is swallowed, and the next
thread waits although a permit came in. A thread that comes back on its own returns without one. -/
theorem blocking_signal_swallowed :
    (∃ s, Lib.run blockingStep (blockingSystem Nat 0)
        [.wait, .signal 0, .signal 0, .resume 0, .wait] = .ok s ∧
      ¬ BlockingConserved 0 s ∧ s.signals = 2 ∧ s.sem.counter = 0 ∧
      s.calls = [.returned, .waiting]) ∧
    ∃ s, Lib.run blockingStep (blockingSystem Nat 0) [.wait, .spurious 0, .resume 0] = .ok s ∧
      ¬ BlockingConserved 0 s ∧ s.signals = 0 ∧ s.calls = [.returned] :=
  ⟨Lib.exists_ok_of_decide (by decide), Lib.exists_ok_of_decide (by decide)⟩

/-! ## The count of the waiters -/

/-- The call is in `cnd_wait`, or out of it without the mutex. -/
def BlockingStage.pending : BlockingStage → Bool
  | .waiting | .released | .spurious => true
  | .returned => false

def BlockingSystem.pending (s : BlockingSystem W) : Nat := s.calls.countP (·.pending)

/-- A call that is woken is counted until it has the mutex again. -/
theorem blockingWakeWait_step (heffect : BlockingEffect s s' o) (hbound : s.pending + 1 < 2 ^ 64)
    (h : s.sem.blockingWakeWait = s.pending) : s'.sem.blockingWakeWait = s'.pending := by
  unfold BlockingSystem.pending at *
  cases heffect with
  | take hpos hcounter hwaits hcalls hsignals =>
    rw [hwaits, hcalls, h, List.countP_append]
    rfl
  | block hzero hcounter hwaits hcalls hsignals =>
    rw [hwaits, hcalls, h, List.countP_append, sizeInc_of_lt hbound]
    rfl
  | release hpos hget hcounter hwaits hcalls hsignals =>
    have hcount := Lib.countP_set_add (·.pending) hget .released
    rw [hwaits, hcalls, h]
    exact (Nat.add_right_cancel hcount).symm
  | swallow hpos hnone hcounter hwaits hcalls hsignals => rw [hwaits, hcalls, h]
  | post hzero hcounter hwaits hcalls hsignals => rw [hwaits, hcalls, ← hzero, h]
  | spurious hget hsem hcalls hsignals =>
    have hcount := Lib.countP_set_add (·.pending) hget .spurious
    rw [hsem, hcalls, h]
    exact (Nat.add_right_cancel hcount).symm
  | @resume i stage hget hstage hcounter hwaits hcalls hsignals =>
    have hcount := Lib.countP_set_add (·.pending) hget .returned
    have hpending : stage.pending.toNat = 1 := by
      rcases hstage with rfl | rfl <;> rfl
    have hreturned : BlockingStage.pending .returned = false := rfl
    rw [hpending, hreturned, Bool.toNat_false] at hcount
    rw [hwaits, hcalls, sizeDec_of_pos (by omega)]
    omega

/-- With fewer than 2^64 threads, a signal goes to the threads exactly when one is in `cnd_wait` or
on its way out of it. -/
theorem blockingWakeWait_eq {os : List BlockingOp}
    (hrun : Lib.run blockingStep (blockingSystem W permits) os = .ok s)
    (hbound : Lib.Along blockingStep (fun s _ => s.pending + 1 < 2 ^ 64) (blockingSystem W permits) os) :
    s.sem.blockingWakeWait = s.pending := by
  refine (Lib.run_invariant
    (I := fun s => s.sem.wakeQueueHead = none ∧ s.sem.blockingWakeWait = s.pending) ?_ ⟨rfl, rfl⟩
    hbound hrun).2
  rintro s o s' ⟨hempty, h⟩ hlt hok
  obtain ⟨heffect, hempty'⟩ := blockingStep_effect hempty hok
  exact ⟨hempty', blockingWakeWait_step heffect hlt h⟩

end Taskio
