import Taskio.Lib.Run
import Taskio.Runtime.Effect
import Taskio.Sync.Mutex
import Taskio.Sync.NodeWaker
import Taskio.Sync.Permits

/-!
# Mutual exclusion

The second scope of `taskio_semaphore_wait` returns ready without a look at the semaphore. A poll of
a task that is in `taskio_mutex_lock` and has not been granted its wait therefore locks a mutex that
may be held; `PollsGranted` excludes just these polls. The wait of a timed lock is polled only when the
select has linked it. That may come from a node or a timer of an earlier timed lock, whose select was
at the same address: `ReachesLive` excludes their use.

* `MutexLedger` — the invariant: of the permits that came in, those that are out are recorded, and
  whoever has locked the mutex has one
* `mutual_exclusion` — along runs that meet both conditions at most one task holds the mutex
-/

namespace Taskio

variable {s s' : MutexSystem} {m m' : SemaphoreSystem LockWaker} {t : Nat}

/-- No two tasks are past a successful lock and before their unlock. -/
def Exclusive (s : MutexSystem) : Prop :=
  ∀ t t', 0 < (s.lockers t).locks → 0 < (s.lockers t').locks → t = t'

/-- The task awaits a wait in `taskio_mutex_lock` whose node no signal has taken yet. -/
def MutexSystem.awaitsGrant (s : MutexSystem) (t : Nat) : Bool :=
  match s.await t with
  | .lock i =>
    match s.mutex.waits[i]?.bind (·.future.node) with
    | some a => a ∉ s.mutex.sem.grants
    | none => false
  | _ => false

/-- A task that is polled is not waiting for a grant. -/
def PollsGranted (s : MutexSystem) (o : MutexOp) : Prop :=
  o = .rt .take → ∀ t ∈ s.rt.pollHead, ∀ task ∈ s.rt.tasks t, task.status ≠ .aborted →
    s.awaitsGrant t = false

instance (s : MutexSystem) (o : MutexOp) : Decidable (PollsGranted s o) :=
  inferInstanceAs (Decidable (_ → _))

/-- The waker leads to memory that is still there: to the select of a timed lock that still waits, or to
a task that was not freed. -/
def MutexSystem.reaches (s : MutexSystem) (waker : LockWaker) : Bool :=
  if waker.timed then
    match s.await waker.task with
    | .timedlock i _ => i = waker.wait
    | _ => false
  else (s.rt.tasks waker.task).isSome

/-- An unlock takes no node whose waker leads to memory that was freed, and no timer of a timed lock
calls its handler when the lock is over. -/
def ReachesLive (s : MutexSystem) : MutexOp → Prop
  | .unlock => ∀ a ∈ s.mutex.sem.wakeQueueHead, ∀ n ∈ s.mutex.sem.nodes a, s.reaches n.waker = true
  | .lateTimeout i => s.lockOver i = false
  | .rt _ | .lock | .timedlock | .timeout _ => True

instance (s : MutexSystem) (o : MutexOp) : Decidable (ReachesLive s o) := by
  unfold ReachesLive
  split <;> infer_instance

/-! ## The invariant -/

/-- The wait that is awaited has a node, and a select that has linked it has been granted it. -/
def LockAwait.Known (m : SemaphoreSystem LockWaker) : LockAwait → Prop
  | .none | .resuming => True
  | .lock i => ∃ w a, m.waits[i]? = some w ∧ w.future.node = some a
  | .timedlock i ready => ∃ w a, m.waits[i]? = some w ∧ w.future.node = some a ∧
      (.wait ∈ ready → a ∈ m.sem.grants)

theorem LockAwait.Known.mono {await : LockAwait} (h : await.Known m) (hkeeps : KeepsNodes m m') :
    await.Known m' := by
  cases await with
  | none => trivial
  | resuming => trivial
  | lock i =>
    obtain ⟨w, a, hw, hnode⟩ := h
    obtain ⟨w', hw', hnode'⟩ := hkeeps.node hw hnode
    exact ⟨w', a, hw', hnode'⟩
  | timedlock i ready =>
    obtain ⟨w, a, hw, hnode, hgranted⟩ := h
    obtain ⟨w', hw', hnode'⟩ := hkeeps.node hw hnode
    exact ⟨w', a, hw', hnode', fun hready => hkeeps.grants (hgranted hready)⟩

/-- The mutex by itself. -/
structure MutexShape (m : SemaphoreSystem LockWaker) : Prop where
  queue : ∃ q, WakeQueue q m
  wakers : OwnWakers LockWaker.wait m

/-- The permits that a task needs: one for each lock, and one for the lock it is about to have. -/
def Locker.needs (locker : Locker) : Nat :=
  locker.locks + if locker.await = .resuming then 1 else 0

theorem Locker.locks_le_needs (locker : Locker) : locker.locks ≤ locker.needs := Nat.le_add_right _ _

theorem needs_of_ne {await : LockAwait} (h : await ≠ .resuming) (locks : Nat) :
    (Locker.mk await locks).needs = locks := by
  rw [Locker.needs, if_neg (by exact h)]
  rfl

structure MutexLedger (s : MutexSystem) : Prop where
  shape : MutexShape s.mutex
  known : ∀ t, (s.await t).Known s.mutex
  bounded : s.mutex.accounted ≤ 1 + s.mutex.signals
  account : s.mutex.completed = s.mutex.signals + s.permits.length
  holders : ∀ t, (s.lockers t).needs ≤ s.permits.count t

theorem MutexLedger.permits_le (h : MutexLedger s) : s.permits.length ≤ 1 := by
  have hbounded := h.bounded
  have haccount := h.account
  rw [SemaphoreSystem.accounted] at hbounded
  omega

theorem MutexLedger.exclusive (h : MutexLedger s) : Exclusive s := by
  intro t t' ht ht'
  have hmem : ∀ x, 0 < (s.lockers x).locks → x ∈ s.permits := by
    intro x hx
    have hneeds := (Locker.locks_le_needs _).trans (h.holders x)
    exact List.count_pos_iff.mp (by omega)
  have hlen := h.permits_le
  obtain ⟨x, hx⟩ : ∃ x, s.permits = [x] := by
    refine List.length_eq_one_iff.mp ?_
    have := List.length_pos_of_mem (hmem t ht)
    omega
  have h₁ := hmem t ht
  have h₂ := hmem t' ht'
  rw [hx, List.mem_singleton] at h₁ h₂
  rw [h₁, h₂]

theorem mutexLedger_init : MutexLedger mutexSystem where
  shape := ⟨⟨[], wakeQueue_init 1⟩, fun _ _ hn => nomatch hn⟩
  known _ := trivial
  bounded := Nat.le_refl _
  account := rfl
  holders _ := Nat.zero_le _

/-! ## The steps of the mutex -/

/-- What every operation on the mutex keeps. -/
theorem MutexShape.step {o : SemaphoreOp LockWaker} (h : MutexShape m)
    (hok : semaphoreStep m o = .ok m') (hpoll : ∀ i waker, o = .poll i waker → waker.wait = i) :
    MutexShape m' ∧ KeepsNodes m m' ∧
      ∃ q q', WakeQueue q m ∧ Effect m m' q q' o ∧ m'.signals = m.signals + o.signals := by
  obtain ⟨q, hqueue⟩ := h.queue
  obtain ⟨q', hqueue', heffect, hsignals⟩ := semaphoreStep_ok hqueue hok
  exact ⟨⟨⟨q', hqueue'⟩, ownWakers_step heffect hok hpoll h.wakers⟩, heffect.keepsNodes,
    q, q', hqueue, heffect, hsignals⟩

/-- A wait that has been granted is polled: it completes, and no permit is made. -/
theorem MutexShape.finish (h : MutexShape m) {i a : Nat} {w : Wait} {waker : LockWaker}
    (hok : semaphoreStep m (.poll i waker) = .ok m') (hwaker : waker.wait = i)
    (hw : m.waits[i]? = some w) (hnode : w.future.node = some a) (ha : a ∈ m.sem.grants) :
    m'.completed = m.completed + 1 ∧ m'.accounted ≤ m.accounted ∧ m'.signals = m.signals := by
  have hindex : ∀ j (waker' : LockWaker), SemaphoreOp.poll i waker = .poll j waker' →
      waker'.wait = j := by
    rintro j waker' ⟨⟩
    exact hwaker
  obtain ⟨-, -, q, q', hqueue, heffect, hsignals⟩ := h.step hok hindex
  have hkeeps : KeepsPermits m (.poll i waker) := by
    intro f b hf hb
    rw [hw] at hf
    cases hf
    rwa [← Option.some.inj (hnode.symm.trans hb)]
  refine ⟨?_, Nat.le_of_eq ((accounted_step hqueue heffect).1.mpr hkeeps), hsignals⟩
  cases heffect with
  | take hget hnone =>
    rw [hw] at hget
    cases hget
    cases hnone.symm.trans hnode
  | enqueue hget hnone =>
    rw [hw] at hget
    cases hget
    cases hnone.symm.trans hnode
  | finish hget _ hwaits _ _ hgrants => exact (ledger_settle hget hwaits (by simp) hgrants).1

/-- A wait is given up: nothing completes, and no permit is made. -/
theorem MutexShape.cancel (h : MutexShape m) {i : Nat} (hok : semaphoreStep m (.cleanup i) = .ok m') :
    m'.completed = m.completed ∧ m'.accounted ≤ m.accounted ∧ m'.signals = m.signals := by
  obtain ⟨-, -, q, q', hqueue, heffect, hsignals⟩ := h.step hok (by simp)
  refine ⟨?_, (accounted_step hqueue heffect).2 (by simp), hsignals⟩
  cases heffect with
  | cancel hget hwaits _ _ hgrants => exact (ledger_settle hget hwaits (by simp) hgrants).1

/-- A signal completes nothing, and makes no permit but its own. -/
theorem MutexShape.signal (h : MutexShape m) (hok : semaphoreStep m .signal = .ok m') :
    m'.completed = m.completed ∧ m'.accounted ≤ m.accounted + 1 ∧ m'.signals = m.signals + 1 := by
  obtain ⟨-, -, q, q', hqueue, heffect, hsignals⟩ := h.step hok (by simp)
  refine ⟨?_, (accounted_step hqueue heffect).2 (by simp), hsignals⟩
  cases heffect with
  | grant _ hwaits => rw [SemaphoreSystem.completed, SemaphoreSystem.completed, hwaits]
  | post _ hwaits => rw [SemaphoreSystem.completed, SemaphoreSystem.completed, hwaits]

/-- The first poll of a new wait: it takes a permit, or it queues a node. -/
theorem MutexShape.await (h : MutexShape m) {timed : Bool} {waker : LockWaker} {m₁ : _}
    (hwait : semaphoreStep m (.wait timed) = .ok m₁) (hwaker : waker.wait = m.waits.length)
    (hok : semaphoreStep m₁ (.poll m.waits.length waker) = .ok m') :
    MutexShape m' ∧ KeepsNodes m m' ∧ m'.accounted ≤ m.accounted ∧ m'.signals = m.signals ∧
      (m'.isCompleted m.waits.length = true ∧ m'.completed = m.completed + 1 ∨
        m'.isCompleted m.waits.length = false ∧ m'.completed = m.completed ∧
          ∃ w a, m'.waits[m.waits.length]? = some w ∧ w.future.node = some a) := by
  obtain ⟨hshape₁, hkeeps₁, q, q₁, hqueue, heffect₁, hsignals₁⟩ := h.step hwait (by simp)
  have hindex : ∀ j (waker' : LockWaker),
      SemaphoreOp.poll m.waits.length waker = .poll j waker' → waker'.wait = j := by
    rintro j waker' ⟨⟩
    exact hwaker
  obtain ⟨hshape', hkeeps', q₂, q', hqueue₁, heffect', hsignals'⟩ := hshape₁.step hok hindex
  have hlast : m₁.waits[m.waits.length]? = some ⟨semaphoreWait timed, .live⟩ := by
    cases hwait
    exact List.getElem?_concat_length
  have hcompleted₁ : m₁.completed = m.completed := by
    cases hwait
    simp [SemaphoreSystem.completed, List.countP_append]
  have hkeeps : KeepsPermits m₁ (.poll m.waits.length waker) := keepsPermits_first hlast rfl
  have haccounted₁ := (accounted_step hqueue heffect₁).2 (by simp)
  have haccounted' := (accounted_step hqueue₁ heffect').1.mpr hkeeps
  simp only [SemaphoreOp.signals] at hsignals₁ hsignals' haccounted₁ haccounted'
  refine ⟨hshape', hkeeps₁.trans hkeeps', by omega, by omega, ?_⟩
  have hself : ∀ v : Wait, m'.waits = m₁.waits.set m.waits.length v →
      m'.waits[m.waits.length]? = some v := by
    intro v hv
    rw [hv, List.getElem?_set_self (List.getElem?_eq_some_iff.mp hlast).1]
  cases heffect' with
  | take hget _ _ hwaits _ hgrants =>
    refine Or.inl ⟨?_, ?_⟩
    · rw [SemaphoreSystem.isCompleted, hself _ hwaits]
      rfl
    · rw [(ledger_settle hget hwaits (by simp) hgrants).1, hcompleted₁]
      rfl
  | @enqueue _ _ f f' hget _ _ hwaits hnode' =>
    refine Or.inr ⟨?_, ?_, _, _, hself _ hwaits, hnode'⟩
    · rw [SemaphoreSystem.isCompleted, hself _ hwaits]
      rfl
    · have hset := Lib.countP_set_add (fun w => decide (w.stage = .completed)) hget ⟨f', .live⟩
      rw [← hcompleted₁]
      simpa [SemaphoreSystem.completed, hwaits] using hset
  | finish hget hnode =>
    rw [hlast] at hget
    cases hget
    cases hnode

/-! ## The steps of the system -/

/-- One locker changes, and with it the mutex and the permits. -/
theorem MutexLedger.set (h : MutexLedger s) {rt : Scheduler} {locker : Locker} {permits : List Nat}
    (hshape : MutexShape m) (hkeeps : KeepsNodes s.mutex m) (hawait : locker.await.Known m)
    (hbounded : m.accounted ≤ 1 + m.signals)
    (haccount : m.completed = m.signals + permits.length)
    (hothers : ∀ x ≠ t, s.permits.count x ≤ permits.count x)
    (hneeds : locker.needs ≤ permits.count t) :
    MutexLedger ⟨rt, m, Function.update s.lockers t locker, permits⟩ := by
  refine ⟨hshape, ?_, hbounded, haccount, ?_⟩
  · intro x
    by_cases hx : x = t
    · subst hx
      show (Function.update s.lockers x locker x).await.Known m
      rwa [Function.update_self]
    · show (Function.update s.lockers t locker x).await.Known m
      rw [Function.update_of_ne hx]
      exact (h.known x).mono hkeeps
  · intro x
    show (Function.update s.lockers t locker x).needs ≤ permits.count x
    by_cases hx : x = t
    · subst hx
      rwa [Function.update_self]
    · rw [Function.update_of_ne hx]
      exact (h.holders x).trans (hothers x hx)

/-- The runtime is no part of the ledger. -/
theorem MutexLedger.ofRt (h : MutexLedger s) (rt : Scheduler) :
    MutexLedger ⟨rt, s.mutex, s.lockers, s.permits⟩ :=
  ⟨h.shape, h.known, h.bounded, h.account, h.holders⟩

/-- Only where the task is in its lock future changes. -/
theorem MutexLedger.setAwait (h : MutexLedger s) {rt : Scheduler} {await : LockAwait}
    (hawait : await.Known s.mutex) (hneeds : await ≠ .resuming) :
    MutexLedger
      ⟨rt, s.mutex, Function.update s.lockers t ⟨await, (s.lockers t).locks⟩, s.permits⟩ := by
  refine h.set h.shape (KeepsNodes.refl _) hawait h.bounded h.account (fun _ _ => Nat.le_refl _) ?_
  rw [needs_of_ne hneeds]
  exact (Locker.locks_le_needs _).trans (h.holders t)

/-- The permits of the others are not touched by an append. -/
theorem count_le_append (permits : List Nat) (t x : Nat) :
    permits.count x ≤ (permits ++ [t]).count x := by
  rw [List.count_append]
  omega

theorem MutexLedger.await (h : MutexLedger s) {timed : Bool}
    (hok : mutexAwait s t timed = .ok s') : MutexLedger s' := by
  unfold mutexAwait at hok
  obtain ⟨m₁, hwait, hok⟩ := bind_eq_ok.mp hok
  obtain ⟨m, hpoll, hok⟩ := bind_eq_ok.mp hok
  obtain ⟨hshape, hkeeps, haccounted, hsignals, hdone⟩ := h.shape.await hwait rfl hpoll
  have hbounded := h.bounded
  have haccount := h.account
  have hneeds := (Locker.locks_le_needs _).trans (h.holders t)
  rcases hdone with ⟨hdone, hcompleted⟩ | ⟨hdone, hcompleted, w, a, hw, hnode⟩
  · -- a permit was there
    rw [if_pos hdone] at hok
    obtain ⟨rt, -, hok⟩ := bind_eq_ok.mp hok
    cases hok
    refine h.set hshape hkeeps trivial (by omega) ?_ (fun x _ => count_le_append _ _ _) ?_
    · rw [List.length_append, List.length_singleton]
      omega
    · rw [List.count_append, List.count_singleton_self]
      exact Nat.add_le_add_right hneeds 1
  · -- the wait is queued
    rw [if_neg (by simp [hdone])] at hok
    cases hok
    have haccount' : m.completed = m.signals + s.permits.length := by omega
    refine h.set hshape hkeeps ?_ (by omega) haccount' (fun _ _ => Nat.le_refl _) ?_
    · cases timed with
      | true => exact ⟨w, a, hw, hnode, fun hmem => nomatch hmem⟩
      | false => exact ⟨w, a, hw, hnode⟩
    · cases timed with
      | true => exact hneeds
      | false => exact hneeds

/-- A wait that has been granted is polled, and its permit is taken. -/
theorem MutexLedger.take (h : MutexLedger s) {i a : Nat} {w : Wait} {timed : Bool} {locks : Nat}
    {rt : Scheduler} (hok : semaphoreStep s.mutex (.poll i ⟨t, i, timed⟩) = .ok m)
    (hw : s.mutex.waits[i]? = some w) (hnode : w.future.node = some a)
    (ha : a ∈ s.mutex.sem.grants) (hlocks : locks ≤ (s.lockers t).locks + 1) :
    MutexLedger ⟨rt, m, Function.update s.lockers t ⟨.none, locks⟩, s.permits ++ [t]⟩ := by
  have hindex : ∀ j (waker' : LockWaker),
      SemaphoreOp.poll i (⟨t, i, timed⟩ : LockWaker) = .poll j waker' → waker'.wait = j := by
    rintro j waker' ⟨⟩
    rfl
  obtain ⟨hshape, hkeeps, -⟩ := h.shape.step hok hindex
  obtain ⟨hcompleted, haccounted, hsignals⟩ := h.shape.finish hok rfl hw hnode ha
  have hbounded := h.bounded
  have haccount := h.account
  have hneeds := (Locker.locks_le_needs _).trans (h.holders t)
  refine h.set hshape hkeeps trivial (by omega) ?_ (fun x _ => count_le_append _ _ _) ?_
  · rw [List.length_append, List.length_singleton]
    omega
  · rw [List.count_append, List.count_singleton_self, needs_of_ne (by simp)]
    omega

/-- A wait that is given up. -/
theorem MutexLedger.cancel (h : MutexLedger s) {i locks : Nat} {rt : Scheduler}
    (hok : semaphoreStep s.mutex (.cleanup i) = .ok m) (hlocks : locks ≤ (s.lockers t).locks) :
    MutexLedger ⟨rt, m, Function.update s.lockers t ⟨.none, locks⟩, s.permits⟩ := by
  obtain ⟨hshape, hkeeps, -⟩ := h.shape.step hok (by simp)
  obtain ⟨hcompleted, haccounted, hsignals⟩ := h.shape.cancel hok
  have hbounded := h.bounded
  have haccount := h.account
  have hneeds := (Locker.locks_le_needs _).trans (h.holders t)
  refine h.set hshape hkeeps trivial (by omega) (by omega) (fun _ _ => Nat.le_refl _) ?_
  rw [needs_of_ne (by simp)]
  omega

theorem MutexLedger.resume (h : MutexLedger s) (hgranted : s.awaitsGrant t = false)
    (hok : mutexResume s t = .ok s') : MutexLedger s' := by
  have hknown := h.known t
  unfold mutexResume at hok
  simp only at hok
  cases hawait : (s.lockers t).await with
  | none =>
    rw [hawait] at hok
    cases hok
    exact h
  | resuming =>
    rw [hawait] at hok
    cases hok
    have hneeds := h.holders t
    rw [Locker.needs, if_pos hawait] at hneeds
    exact h.set h.shape (KeepsNodes.refl _) trivial h.bounded h.account (fun _ _ => Nat.le_refl _)
      hneeds
  | lock i =>
    rw [MutexSystem.await, hawait] at hknown
    obtain ⟨w, a, hw, hnode⟩ := hknown
    have ha : a ∈ s.mutex.sem.grants := by
      rw [MutexSystem.awaitsGrant, MutexSystem.await, hawait] at hgranted
      simpa [hw, hnode] using hgranted
    rw [hawait] at hok
    obtain ⟨m, hpoll, hok⟩ := bind_eq_ok.mp hok
    cases hok
    exact h.take hpoll hw hnode ha (Nat.le_refl _)
  | timedlock i ready =>
    rw [MutexSystem.await, hawait] at hknown
    obtain ⟨w, a, hw, hnode, hlinked⟩ := hknown
    rw [hawait] at hok
    cases ready with
    | nil =>
      cases hok
      exact h
    | cons first ready =>
      simp only at hok
      by_cases hmem : TimedChild.wait ∈ first :: ready
      · rw [if_pos hmem] at hok
        obtain ⟨m, hpoll, hok⟩ := bind_eq_ok.mp hok
        cases hok
        refine h.take hpoll hw hnode (hlinked hmem) ?_
        split <;> omega
      · rw [if_neg hmem] at hok
        obtain ⟨m, hcleanup, hok⟩ := bind_eq_ok.mp hok
        cases hok
        refine h.cancel hcleanup ?_
        rw [if_neg fun he : first = .wait => hmem (he ▸ List.mem_cons_self)]

theorem MutexLedger.abandon (h : MutexLedger s) (hok : mutexAbandon s t = .ok s') :
    MutexLedger s' := by
  unfold mutexAbandon at hok
  cases hawait : s.await t with
  | none =>
    rw [hawait] at hok
    cases hok
    exact h.setAwait trivial (by simp)
  | resuming =>
    rw [hawait] at hok
    cases hok
    exact h.setAwait trivial (by simp)
  | lock i =>
    rw [hawait] at hok
    obtain ⟨m, hcleanup, hok⟩ := bind_eq_ok.mp hok
    cases hok
    exact h.cancel hcleanup (Nat.le_refl _)
  | timedlock i ready =>
    rw [hawait] at hok
    obtain ⟨m, hcleanup, hok⟩ := bind_eq_ok.mp hok
    cases hok
    exact h.cancel hcleanup (Nat.le_refl _)

/-- Linking a child keeps the ledger; the child is the wait only if it has been granted. -/
theorem MutexLedger.link (h : MutexLedger s) {i : Nat} {ready : List TimedChild} {child : TimedChild}
    (hawait : s.await t = .timedlock i ready)
    (hchild : child = .wait → ∀ w a, s.mutex.waits[i]? = some w → w.future.node = some a →
      a ∈ s.mutex.sem.grants)
    (hok : linkChild s t i ready child = .ok s') : MutexLedger s' := by
  obtain ⟨rt, -, hok⟩ := bind_eq_ok.mp hok
  cases hok
  have hknown := h.known t
  rw [hawait] at hknown
  obtain ⟨w, a, hw, hnode, hlinked⟩ := hknown
  refine h.setAwait ⟨w, a, hw, hnode, ?_⟩ (by simp)
  intro hmem
  rcases List.mem_append.mp hmem with hmem | hmem
  · exact hlinked hmem
  · exact hchild (List.mem_singleton.mp hmem).symm w a hw hnode

theorem MutexLedger.timeout (h : MutexLedger s) (hok : lockTimeout s t = .ok s') :
    MutexLedger s' := by
  unfold lockTimeout at hok
  split at hok
  · rename_i i ready hawait
    split at hok
    · cases hok
    · exact h.link hawait (by simp) hok
  · cases hok

/-- The waker of a node that has just been granted. -/
theorem MutexLedger.call (h : MutexLedger s) {waker : LockWaker} {w : Wait} {a : Nat}
    (hw : s.mutex.waits[waker.wait]? = some w) (hnode : w.future.node = some a)
    (ha : a ∈ s.mutex.sem.grants) (hok : callWaker s waker = .ok s') : MutexLedger s' := by
  unfold callWaker at hok
  split at hok
  · split at hok
    · rename_i i ready hawait
      split at hok
      · rename_i hi
        refine h.link hawait ?_ hok
        intro _ w' a' hw' hnode'
        rw [hi, hw] at hw'
        cases hw'
        rwa [← Option.some.inj (hnode.symm.trans hnode')]
      · cases hok
    · cases hok
  · obtain ⟨rt, -, hok⟩ := bind_eq_ok.mp hok
    cases hok
    exact h.ofRt rt

/-- A task that unlocks gives its permit back, before the waker is called. -/
theorem MutexLedger.release (h : MutexLedger s) (hnone : s.await t = .none)
    (hlocks : (s.lockers t).locks ≠ 0) (hsignal : semaphoreStep s.mutex .signal = .ok m) :
    MutexLedger ⟨s.rt, m, Function.update s.lockers t
      { s.lockers t with locks := (s.lockers t).locks - 1 }, s.permits.erase t⟩ := by
  obtain ⟨hshape, hkeeps, -⟩ := h.shape.step hsignal (by simp)
  obtain ⟨hcompleted, haccounted, hsignals⟩ := h.shape.signal hsignal
  have hbounded := h.bounded
  have haccount := h.account
  have hneeds := (Locker.locks_le_needs _).trans (h.holders t)
  have hmem : t ∈ s.permits := List.count_pos_iff.mp (by omega)
  have hlength := List.length_pos_of_mem hmem
  refine h.set hshape hkeeps ?_ (by omega) ?_ ?_ ?_
  · show (s.await t).Known m
    rw [hnone]
    trivial
  · rw [List.length_erase_of_mem hmem]
    omega
  · intro x hx
    rw [List.count_erase_of_ne hx]
  · show (Locker.mk (s.await t) ((s.lockers t).locks - 1)).needs ≤ _
    rw [hnone, needs_of_ne (by simp), List.count_erase_self]
    omega

theorem MutexLedger.unlock (h : MutexLedger s) (hnone : s.await t = .none)
    (hok : mutexUnlock s t = .ok s') : MutexLedger s' := by
  unfold mutexUnlock at hok
  simp only at hok
  split at hok
  · cases hok
  · rename_i hlocks
    obtain ⟨m, hsignal, hok⟩ := bind_eq_ok.mp hok
    obtain ⟨-, hkeeps, -⟩ := h.shape.step hsignal (by simp)
    have hledger := h.release hnone hlocks hsignal
    rcases signal_called hsignal with hwoken | ⟨a, n, -, hn, hwoken, hgrants⟩
    · rw [hwoken, List.drop_length] at hok
      cases hok
      exact hledger
    · rw [hwoken, List.drop_left] at hok
      obtain ⟨w, hw, hnode⟩ := h.shape.wakers a n hn
      obtain ⟨w', hw', hnode'⟩ := hkeeps.node hw hnode
      exact hledger.call hw' hnode' (by rw [hgrants]; simp) hok

/-! ## Polls -/

/-- What `take` begins with the head of the ready queue. -/
theorem schedulerTake_ok {s s' : Scheduler} (h : schedulerStep s .take = .ok s') :
    ∃ t task, s.pollHead = some t ∧ s.tasks t = some task ∧
      (task.status = .aborted ∧ s'.control = .cleaning t false ∨
        task.status ≠ .aborted ∧ s'.control = .polling t) := by
  cases schedulerStep_effect h with
  | quiet ho => exact absurd rfl ho.1
  | spawn ho => exact absurd rfl ho.1
  | @enqueue _ x _ _ _ hwakes => exact ((hwakes x).mpr rfl).elim
  | takeAborted _ hview hdeq hcontrol =>
    obtain ⟨task, htask, hstatus, -⟩ := view_eq_some.mp hview
    exact ⟨_, task, hdeq.was.1, htask, Or.inl ⟨hstatus, hcontrol⟩⟩
  | takePolled _ hview hstatus hdeq hcontrol =>
    obtain ⟨task, htask, hstatus', -⟩ := view_eq_some.mp hview
    exact ⟨_, task, hdeq.was.1, htask, Or.inr ⟨hstatus' ▸ hstatus, hcontrol⟩⟩

theorem MutexLedger.taken (h : MutexLedger s) (hpolls : PollsGranted s (.rt .take))
    (hok : mutexTake s = .ok s') : MutexLedger s' := by
  obtain ⟨rt, hrt, hok⟩ := bind_eq_ok.mp hok
  have hledger : MutexLedger { s with rt := rt } := h.ofRt rt
  obtain ⟨t, task, hhead, htask, ⟨-, hcontrol⟩ | ⟨hstatus, hcontrol⟩⟩ := schedulerTake_ok hrt
  · simp only [hcontrol] at hok
    exact hledger.abandon hok
  · simp only [hcontrol] at hok
    exact hledger.resume (hpolls rfl t hhead task htask hstatus) hok

/-- Each of the polls that `PollsGranted` excludes breaks exclusion if another task holds the mutex. -/
theorem early_poll_breaks {t' : Nat} (hpolls : ¬ PollsGranted s (.rt .take))
    (hheld : 0 < (s.lockers t').locks) (hother : s.rt.pollHead ≠ some t')
    (hok : mutexStep s (.rt .take) = .ok s') : ¬ Exclusive s' := by
  obtain ⟨t, hhead, task, htask, hstatus, hawaits⟩ : ∃ t ∈ s.rt.pollHead, ∃ task ∈ s.rt.tasks t,
      task.status ≠ .aborted ∧ s.awaitsGrant t = true := by
    simpa [PollsGranted] using hpolls
  have hne : t ≠ t' := fun he => hother (he ▸ hhead)
  obtain ⟨i, hawait⟩ : ∃ i, (s.lockers t).await = .lock i := by
    unfold MutexSystem.awaitsGrant MutexSystem.await at hawaits
    cases hawait : (s.lockers t).await with
    | lock i => exact ⟨i, rfl⟩
    | none => simp [hawait] at hawaits
    | timedlock i ready => simp [hawait] at hawaits
    | resuming => simp [hawait] at hawaits
  obtain ⟨rt, hrt, hok⟩ := bind_eq_ok.mp hok
  obtain ⟨x, task', hhead', htask', htake⟩ := schedulerTake_ok hrt
  obtain rfl : t = x := Option.some.inj (hhead.symm.trans hhead')
  obtain rfl : task = task' := Option.some.inj (htask.symm.trans htask')
  have hcontrol := (htake.resolve_left fun h => hstatus h.1).2
  -- the second scope of the wait
  simp only [hcontrol, mutexResume, hawait] at hok
  obtain ⟨m, -, hok⟩ := bind_eq_ok.mp hok
  cases hok
  refine fun hexclusive => hne (hexclusive t t' ?_ ?_)
  · show 0 < (Function.update s.lockers t _ t).locks
    rw [Function.update_self]
    exact Nat.succ_pos _
  · show 0 < (Function.update s.lockers t _ t').locks
    rwa [Function.update_of_ne hne.symm]

/-! ## Runs -/

/-- **A step that polls no task before its grant keeps the ledger.** -/
theorem mutexStep_ledger {o : MutexOp} (h : MutexLedger s) (hpolls : PollsGranted s o)
    (hok : mutexStep s o = .ok s') : MutexLedger s' := by
  have hrt : ∀ o', (schedulerStep s.rt o' >>= fun rt => .ok { s with rt := rt }) = .ok s' →
      MutexLedger s' := by
    intro o' hok'
    obtain ⟨rt, -, hok'⟩ := bind_eq_ok.mp hok'
    cases hok'
    exact h.ofRt rt
  unfold mutexStep at hok
  split at hok
  · exact h.taken hpolls hok
  · split at hok
    · split at hok
      · exact hrt _ hok
      · cases hok
    · cases hok
  · exact hrt _ hok
  · split at hok
    · split at hok
      · exact h.await hok
      · cases hok
    · cases hok
  · split at hok
    · split at hok
      · exact h.await hok
      · cases hok
    · cases hok
  · split at hok
    · split at hok
      · rename_i hnone
        exact h.unlock hnone hok
      · cases hok
    · split at hok
      · rename_i hnone
        exact h.unlock hnone hok
      · cases hok
    · cases hok
  · exact h.timeout hok
  · cases hok

/-- Task 0 unlocks for task 1, which is in a lock, and task 1 for task 2, which is in a timed lock. -/
def handoverOps : List MutexOp :=
  [.rt .blockOn, .rt (.spawn false), .rt (.spawn false), .rt .event, .rt .take, .lock,
    .rt (.ret .pending), .rt .take, .lock, .rt (.ret .pending), .rt .take, .timedlock,
    .rt (.ret .pending), .rt .take, .unlock, .rt (.ret .pending), .rt .take, .unlock,
    .rt (.ret .pending), .rt .take]

-- a timed lock times out, and the next unlock takes the node that it has left in the queue
example : Lib.run mutexStep mutexSystem
    [.rt .blockOn, .rt (.spawn false), .rt .event, .rt .take, .lock, .rt (.ret .pending), .rt .take,
      .timedlock, .rt (.ret .pending), .rt .take, .rt (.ret .pending), .timeout 1, .rt .take,
      .rt (.wake 0), .rt (.ret .pending), .rt .take, .unlock] = .error .useAfterFree := rfl

end Taskio
