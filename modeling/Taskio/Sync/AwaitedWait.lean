import Taskio.Sync.Fairness
import Taskio.Sync.LockSteps

/-!
# The wait that a task awaits

* `Due`, `Coming` — whether the next poll of a task returns from its lock, and with the mutex
* `Owned` — the wait that a task awaits is live, and its node has the task's waker
* `Apart` — the calls of one task leave the waits of the others as they are
* `mutexStep_awaitLedger` — every task awaits its own wait
-/

namespace Taskio

/-! ## Where a task is in its lock -/

/-- The wait is pending, and a signal has taken its node. -/
def SemaphoreSystem.isGranted {W : Type} (m : SemaphoreSystem W) (i : Nat) : Bool :=
  match m.waits[i]? with
  | some w => w.granted m.sem.grants
  | none => false

variable {s s' : MutexSystem} {m m' : SemaphoreSystem LockWaker} {t i a : Nat} {timed : Bool}

/-- The next poll of the task returns from its lock future. -/
def LockAwait.Due (m : SemaphoreSystem LockWaker) : LockAwait → Prop
  | .none => False
  | .resuming => True
  | .lock i => m.isGranted i = true
  | .timedlock _ ready => ready ≠ []

/-- The next poll of the task returns from its lock future with the mutex. -/
def LockAwait.Coming (m : SemaphoreSystem LockWaker) : LockAwait → Prop
  | .none => False
  | .resuming => True
  | .lock i => m.isGranted i = true
  | .timedlock _ ready => ready.head? = some .wait

/-- The task awaits its wait `i`, whose node is `a`. -/
structure Awaits (m : SemaphoreSystem LockWaker) (t i : Nat) (timed : Bool) (a : Nat) : Prop where
  wait : ∃ f, m.waits[i]? = some ⟨f, .live⟩ ∧ f.node = some a
  node : ∃ n, m.sem.nodes a = some n ∧ n.waker = ⟨t, i, timed⟩

/-- The task's own wait is awaited. The select of a timed lock has linked it when it is granted. -/
def LockAwait.Owned (m : SemaphoreSystem LockWaker) (t : Nat) : LockAwait → Prop
  | .none | .resuming => True
  | .lock i => ∃ a, Awaits m t i false a
  | .timedlock i ready => ∃ a, Awaits m t i true a ∧ (a ∈ m.sem.grants ↔ .wait ∈ ready)

theorem Awaits.isGranted (h : Awaits m t i timed a) : m.isGranted i = true ↔ a ∈ m.sem.grants := by
  obtain ⟨f, hget, hnode⟩ := h.wait
  rw [SemaphoreSystem.isGranted, hget]
  simp only
  rw [granted_some hnode, decide_eq_true_iff]

/-- A wait is awaited by one task only, with one node. -/
theorem Awaits.unique {t' a' : Nat} {timed' : Bool} (h : Awaits m t i timed a)
    (h' : Awaits m t' i timed' a') : t = t' ∧ timed = timed' ∧ a = a' := by
  obtain ⟨f, hget, hnode⟩ := h.wait
  obtain ⟨f', hget', hnode'⟩ := h'.wait
  rw [hget] at hget'
  cases hget'
  obtain rfl : a = a' := Option.some.inj (hnode.symm.trans hnode')
  obtain ⟨n, hn, hwaker⟩ := h.node
  obtain ⟨n', hn', hwaker'⟩ := h'.node
  obtain rfl : n = n' := Option.some.inj (hn.symm.trans hn')
  rw [hwaker] at hwaker'
  cases hwaker'
  exact ⟨rfl, rfl, rfl⟩

/-- The operation is a poll or a cleanup of the wait. -/
def SemaphoreOp.Settles {W : Type} (i : Nat) : SemaphoreOp W → Prop
  | .poll j _ | .cleanup j => i = j
  | .wait _ | .signal => False

/-- An operation on other waits leaves a live wait as it is. -/
theorem Effect.wait_kept {W : Type} {s s' : SemaphoreSystem W} {q q' : List Nat} {o : SemaphoreOp W}
    {w : Wait} (h : Effect s s' q q' o) (ho : ¬ o.Settles i) (hw : s.waits[i]? = some w) :
    s'.waits[i]? = some w := by
  have hset : ∀ {j : Nat} {v : Wait}, i ≠ j → s'.waits = s.waits.set j v →
      s'.waits[i]? = some w := by
    intro j v hij hwaits
    rw [hwaits, List.getElem?_set_ne (Ne.symm hij)]
    exact hw
  cases h with
  | wait timed hwaits =>
    rw [hwaits, List.getElem?_append_left (List.getElem?_eq_some_iff.mp hw).1]
    exact hw
  | take _ _ _ hwaits => exact hset ho hwaits
  | enqueue _ _ _ hwaits => exact hset ho hwaits
  | finish _ _ hwaits => exact hset ho hwaits
  | cancel _ hwaits => exact hset ho hwaits
  | grant _ hwaits => rwa [hwaits]
  | post _ hwaits => rwa [hwaits]

theorem Awaits.keep {q q' : List Nat} {o : SemaphoreOp LockWaker} (h : Awaits m t i timed a)
    (hq : WakeQueue q m) (hq' : WakeQueue q' m') (heffect : Effect m m' q q' o)
    (ho : ¬ o.Settles i) (hok : semaphoreStep m o = .ok m') : Awaits m' t i timed a := by
  obtain ⟨f, hget, hnode⟩ := h.wait
  have hget' := heffect.wait_kept ho hget
  refine ⟨⟨f, hget', hnode⟩, ?_⟩
  have hpos : 0 < m'.waits.countP (·.holds a) :=
    List.countP_pos_iff.mpr ⟨_, List.mem_of_getElem? hget', decide_eq_true ⟨rfl, hnode⟩⟩
  have hcounts := hq'.nodes a
  cases hn' : m'.sem.nodes a with
  | none =>
    rw [hn'] at hcounts
    have hzero : q'.count a + m'.waits.countP (·.holds a) = 0 := hcounts
    omega
  | some n' =>
    have hlt := hq.lt_nextNode.2 _ (List.mem_of_getElem? hget) rfl a hnode
    obtain ⟨n, hn, hkept⟩ := waker_kept hok hn' hlt
    obtain ⟨n₀, hn₀, hwaker⟩ := h.node
    obtain rfl : n = n₀ := Option.some.inj (hn.symm.trans hn₀)
    exact ⟨n', rfl, hkept.symm.trans hwaker⟩

/-! ## The other tasks -/

/-- The waits of all tasks but `t` are as they were. -/
structure Apart (t : Nat) (m m' : SemaphoreSystem LockWaker) : Prop where
  awaits : ∀ x ≠ t, ∀ {i timed a}, Awaits m x i timed a → Awaits m' x i timed a
  grants : ∀ x ≠ t, ∀ {i timed a}, Awaits m x i timed a → (a ∈ m'.sem.grants ↔ a ∈ m.sem.grants)

theorem apart_refl (t : Nat) (m : SemaphoreSystem LockWaker) : Apart t m m :=
  ⟨fun _ _ _ _ _ h => h, fun _ _ _ _ _ _ => Iff.rfl⟩

theorem apart_of_grants (hgrants : m'.sem.grants = m.sem.grants)
    (hawaits : ∀ x ≠ t, ∀ {i timed a}, Awaits m x i timed a → Awaits m' x i timed a) : Apart t m m' :=
  ⟨hawaits, fun _ _ _ _ _ _ => by rw [hgrants]⟩

/-- Where the others stand in their locks. -/
theorem Apart.others (h : Apart t m m') {x : Nat} (hx : x ≠ t) {await : LockAwait}
    (hown : await.Owned m x) :
    await.Owned m' x ∧ (await.Due m' ↔ await.Due m) ∧ (await.Coming m' ↔ await.Coming m) := by
  cases await with
  | none => exact ⟨trivial, Iff.rfl, Iff.rfl⟩
  | resuming => exact ⟨trivial, Iff.rfl, Iff.rfl⟩
  | lock i =>
    obtain ⟨a, ha⟩ := hown
    have ha' := h.awaits x hx ha
    have hsame : m'.isGranted i = true ↔ m.isGranted i = true := by
      rw [ha.isGranted, ha'.isGranted, h.grants x hx ha]
    exact ⟨⟨a, ha'⟩, hsame, hsame⟩
  | timedlock i ready =>
    obtain ⟨a, ha, hgranted⟩ := hown
    exact ⟨⟨a, h.awaits x hx ha, by rwa [h.grants x hx ha]⟩, Iff.rfl, Iff.rfl⟩

/-- A task ends its own wait. -/
theorem MutexShape.settle {o : SemaphoreOp LockWaker} (h : MutexShape m) (hown : Awaits m t i timed a)
    (hok : semaphoreStep m o = .ok m') (ho : o.Settles i) :
    Apart t m m' ∧ m'.sem.counter = m.sem.counter ∧ m'.sem.wakeQueueHead = m.sem.wakeQueueHead := by
  obtain ⟨q, hq⟩ := h.queue
  obtain ⟨q', hq', heffect, -⟩ := semaphoreStep_ok hq hok
  have hothers : ∀ x ≠ t, ∀ {j timed' b}, Awaits m x j timed' b → Awaits m' x j timed' b := by
    intro x hx j timed' b hother
    refine hother.keep hq hq' heffect ?_ hok
    intro hsettles
    have hij : i = j := by
      cases o with
      | poll k waker => exact ho.trans hsettles.symm
      | cleanup k => exact ho.trans hsettles.symm
      | wait timed => exact ho.elim
      | signal => exact ho.elim
    exact hx (hother.unique (hij ▸ hown)).1
  have hhead : q' = q → m'.sem.wakeQueueHead = m.sem.wakeQueueHead := by
    rintro rfl
    rw [← hq.queue.chain.head?_eq, ← hq'.queue.chain.head?_eq]
  obtain ⟨f, hget, hnode⟩ := hown.wait
  cases heffect with
  | wait => exact ho.elim
  | take hget' hnone =>
    obtain rfl : i = _ := ho
    rw [hget] at hget'
    cases hget'
    cases hnone.symm.trans hnode
  | enqueue hget' hnone =>
    obtain rfl : i = _ := ho
    rw [hget] at hget'
    cases hget'
    cases hnone.symm.trans hnode
  | finish _ _ _ _ hcounter hgrants hqq => exact ⟨apart_of_grants hgrants hothers, hcounter, hhead hqq⟩
  | cancel _ _ _ hcounter hgrants hqq => exact ⟨apart_of_grants hgrants hothers, hcounter, hhead hqq⟩
  | grant => exact ho.elim
  | post => exact ho.elim

/-- The first poll of a new wait. Where it is pending, the mutex is not free and the task awaits it. -/
theorem MutexShape.begin {m₁ : SemaphoreSystem LockWaker} (h : MutexShape m)
    (hwait : semaphoreStep m (.wait timed) = .ok m₁)
    (hpoll : semaphoreStep m₁ (.poll m.waits.length ⟨t, m.waits.length, timed⟩) = .ok m') :
    Apart t m m' ∧ (m'.isCompleted m.waits.length = false → m.sem.counter = 0 ∧
      ∃ a, Awaits m' t m.waits.length timed a ∧ a ∉ m'.sem.grants) := by
  obtain ⟨q, hq⟩ := h.queue
  obtain ⟨q₁, hq₁, heffect₁, -⟩ := semaphoreStep_ok hq hwait
  obtain ⟨q', hq', heffect', -⟩ := semaphoreStep_ok hq₁ hpoll
  have hlast : m₁.waits[m.waits.length]? = some ⟨semaphoreWait timed, .live⟩ := by
    cases hwait
    exact List.getElem?_concat_length
  have hsame : m₁.sem = m.sem := by
    cases hwait
    rfl
  have hothers : ∀ x ≠ t, ∀ {j timed' b}, Awaits m x j timed' b → Awaits m' x j timed' b := by
    intro x _ j timed' b hother
    have hlt : j < m.waits.length := by
      obtain ⟨f, hget, -⟩ := hother.wait
      exact (List.getElem?_eq_some_iff.mp hget).1
    refine (hother.keep hq hq₁ heffect₁ id hwait).keep hq₁ hq' heffect' ?_ hpoll
    rintro rfl
    exact Nat.lt_irrefl _ hlt
  have hself : ∀ v : Wait, m'.waits = m₁.waits.set m.waits.length v →
      m'.waits[m.waits.length]? = some v := by
    intro v hv
    rw [hv, List.getElem?_set_self (List.getElem?_eq_some_iff.mp hlast).1]
  cases heffect' with
  | take hget _ _ hwaits _ hgrants =>
    refine ⟨apart_of_grants (hgrants.trans (by rw [hsame])) hothers, ?_⟩
    intro hnot
    rw [SemaphoreSystem.isCompleted, hself _ hwaits] at hnot
    cases hnot
  | @enqueue _ _ f f' hget _ hzero hwaits hnode' _ hgrants hqq =>
    refine ⟨apart_of_grants (hgrants.trans (by rw [hsame])) hothers, ?_⟩
    intro _
    refine ⟨hsame ▸ hzero, m₁.sem.nextNode, ⟨⟨f', hself _ hwaits, hnode'⟩, ?_⟩, ?_⟩
    · exact enqueue_waker hq₁ (hqq ▸ hq') hpoll
    · rw [hgrants]
      exact fun ha => Nat.lt_irrefl _ (hq₁.grants _ ha).2
  | finish hget hsome =>
    rw [hlast] at hget
    cases hget
    cases hsome

/-- A signal that takes the first node. -/
theorem MutexShape.grant (h : MutexShape m) (hhead : m.sem.wakeQueueHead = some a)
    (hok : semaphoreStep m .signal = .ok m') :
    m'.sem.counter = 0 ∧ m'.sem.grants = m.sem.grants ++ [a] ∧
      ∀ {x i timed b}, Awaits m x i timed b → Awaits m' x i timed b := by
  obtain ⟨q, hq⟩ := h.queue
  obtain ⟨q', hq', heffect, -⟩ := semaphoreStep_ok hq hok
  have hkeep : ∀ {x i timed b}, Awaits m x i timed b → Awaits m' x i timed b :=
    fun hown => hown.keep hq hq' heffect id hok
  have hfirst : q.head? = some a := hq.queue.chain.head?_eq.trans hhead
  cases heffect with
  | @grant b hqueue _ hcounter hgrants =>
    rw [hqueue] at hfirst
    cases hfirst
    exact ⟨hcounter.trans (hq.idle (by rw [hqueue]; simp)), hgrants, hkeep⟩
  | post hqueue =>
    rw [hqueue] at hfirst
    cases hfirst

/-- A signal that finds the queue empty. -/
theorem MutexShape.post (h : MutexShape m) (hhead : m.sem.wakeQueueHead = none)
    (hok : semaphoreStep m .signal = .ok m') :
    m'.sem.counter = sizeInc m.sem.counter ∧ m'.sem.wakeQueueHead = none ∧
      m'.sem.grants = m.sem.grants ∧
      ∀ {x i timed b}, Awaits m x i timed b → Awaits m' x i timed b := by
  obtain ⟨q, hq⟩ := h.queue
  obtain ⟨q', hq', heffect, -⟩ := semaphoreStep_ok hq hok
  have hkeep : ∀ {x i timed b}, Awaits m x i timed b → Awaits m' x i timed b :=
    fun hown => hown.keep hq hq' heffect id hok
  have hnil : q = [] := hq.queue.head_eq_none.mp hhead
  cases heffect with
  | grant hqueue =>
    rw [hnil] at hqueue
    cases hqueue
  | post _ _ hcounter hgrants hqq =>
    exact ⟨hcounter, hq'.queue.head_eq_none.mpr hqq, hgrants, hkeep⟩

/-! ## The permit -/

/-- There is one permit. -/
theorem MutexLedger.room (h : MutexLedger s) :
    s.mutex.sem.counter + s.permits.length + s.mutex.grantedPending ≤ 1 := by
  have hbounded := h.bounded
  have haccount := h.account
  rw [SemaphoreSystem.accounted] at hbounded
  omega

theorem MutexLedger.needs_le (h : MutexLedger s) (t : Nat) :
    (s.lockers t).needs ≤ s.permits.count t ∧ s.permits.count t ≤ s.permits.length :=
  ⟨h.holders t, List.count_le_length⟩

theorem Awaits.pending (h : Awaits m t i timed a) (ha : a ∈ m.sem.grants) :
    0 < m.grantedPending := by
  obtain ⟨f, hget, hnode⟩ := h.wait
  refine List.countP_pos_iff.mpr ⟨_, List.mem_of_getElem? hget, ?_⟩
  rw [granted_some hnode]
  exact decide_eq_true ha

/-- Two waits that were granted. -/
theorem Awaits.pending_two {x j b : Nat} {timed' : Bool} (h : Awaits m t i timed a)
    (ha : a ∈ m.sem.grants) (h' : Awaits m x j timed' b) (hb : b ∈ m.sem.grants) (hij : i ≠ j) :
    2 ≤ m.grantedPending := by
  obtain ⟨f, hget, hnode⟩ := h.wait
  obtain ⟨g, hget', hnode'⟩ := h'.wait
  have hset := Lib.countP_set_add (·.granted m.sem.grants) hget ⟨f, .cleaned⟩
  have hrest : 0 < (m.waits.set i ⟨f, .cleaned⟩).countP (·.granted m.sem.grants) := by
    refine List.countP_pos_iff.mpr ⟨⟨g, .live⟩, ?_, ?_⟩
    · exact List.mem_of_getElem? (i := j) (by rw [List.getElem?_set_ne hij]; exact hget')
    · rw [granted_some hnode']
      exact decide_eq_true hb
  rw [granted_some hnode, decide_eq_true ha] at hset
  have hnot : (Wait.mk f .cleaned).granted m.sem.grants = false := by simp [Wait.granted]
  rw [hnot] at hset
  simp only [Bool.toNat_true, Bool.toNat_false] at hset
  unfold SemaphoreSystem.grantedPending
  omega

/-! ## The lock of one task -/

/-- Only `t` gets into a lock future, out of it or further in it. -/
structure OneAwait (s s' : MutexSystem) (t : Nat) : Prop where
  awaits : ∀ x ≠ t, s'.await x = s.await x
  apart : Apart t s.mutex s'.mutex

/-- And only `t` locks or unlocks. -/
structure OneLock (s s' : MutexSystem) (t : Nat) : Prop where
  lockers : ∀ x ≠ t, s'.lockers x = s.lockers x
  apart : Apart t s.mutex s'.mutex

theorem OneLock.oneAwait (h : OneLock s s' t) : OneAwait s s' t :=
  ⟨fun x hx => congrArg Locker.await (h.lockers x hx), h.apart⟩

theorem oneLock_set {locker : Locker} {rt : Scheduler} {permits : List Nat}
    (h : Apart t s.mutex m) :
    OneLock s ⟨rt, m, Function.update s.lockers t locker, permits⟩ t :=
  ⟨fun _ hx => Function.update_of_ne hx _ _, h⟩

theorem await_set {locker : Locker} {rt : Scheduler} {permits : List Nat} :
    (⟨rt, m, Function.update s.lockers t locker, permits⟩ : MutexSystem).await t = locker.await := by
  show (Function.update s.lockers t locker t).await = _
  rw [Function.update_self]

theorem OneAwait.others (h : OneAwait s s' t) {x : Nat} (hx : x ≠ t)
    (hown : (s.await x).Owned s.mutex x) :
    (s'.await x).Owned s'.mutex x ∧ ((s'.await x).Due s'.mutex ↔ (s.await x).Due s.mutex) ∧
      ((s'.await x).Coming s'.mutex ↔ (s.await x).Coming s.mutex) := by
  rw [h.awaits x hx]
  exact h.apart.others hx hown

/-- Every task awaits its own wait. -/
structure AwaitLedger (s : MutexSystem) : Prop where
  ledger : MutexLedger s
  owned : ∀ t, (s.await t).Owned s.mutex t

theorem awaitLedger_init : AwaitLedger mutexSystem := ⟨mutexLedger_init, fun _ => trivial⟩

theorem AwaitLedger.set (h : AwaitLedger s) (hone : OneAwait s s' t) (hledger : MutexLedger s')
    (hown : (s'.await t).Owned s'.mutex t) : AwaitLedger s' := by
  refine ⟨hledger, ?_⟩
  intro x
  by_cases hx : x = t
  · rwa [hx]
  · exact (hone.others hx (h.owned x)).1

/-- What a poll of a task does to its lock future. -/
structure Turned (s s' : MutexSystem) (t : Nat) : Prop where
  one : OneLock s s' t
  rt : s'.rt = s.rt
  counter : s'.mutex.sem.counter = s.mutex.sem.counter
  head : s'.mutex.sem.wakeQueueHead = s.mutex.sem.wakeQueueHead
  owned : (s'.await t).Owned s'.mutex t
  ended : ¬ (s'.await t).Due s'.mutex
  locks : 0 < (s.lockers t).locks ∨ (s.await t).Coming s.mutex → 0 < (s'.lockers t).locks

theorem TurnCase.turned (h : TurnCase s t s') (hshape : MutexShape s.mutex)
    (hown : (s.await t).Owned s.mutex t) : Turned s s' t := by
  have hset : ∀ {m : SemaphoreSystem LockWaker} {locks : Nat} {permits : List Nat},
      Apart t s.mutex m ∧ m.sem.counter = s.mutex.sem.counter ∧
        m.sem.wakeQueueHead = s.mutex.sem.wakeQueueHead →
      (0 < (s.lockers t).locks ∨ (s.await t).Coming s.mutex → 0 < locks) →
      Turned s ⟨s.rt, m, Function.update s.lockers t ⟨.none, locks⟩, permits⟩ t := by
    rintro m locks permits ⟨hapart, hcounter, hhead⟩ hlocks
    refine ⟨oneLock_set hapart, rfl, hcounter, hhead, ?_, ?_, ?_⟩
    · rw [await_set]
      trivial
    · rw [await_set]
      exact id
    · show _ → 0 < (Function.update s.lockers t ⟨.none, locks⟩ t).locks
      rwa [Function.update_self]
  cases h with
  | idle hawait =>
    refine ⟨⟨fun _ _ => rfl, apart_refl _ _⟩, rfl, rfl, rfl, hown, ?_, ?_⟩
    · rcases hawait with hawait | ⟨i, hawait⟩
      · rw [hawait]
        exact id
      · rw [hawait]
        exact fun h => h rfl
    · rintro (hlocks | hcoming)
      · exact hlocks
      · rcases hawait with hawait | ⟨i, hawait⟩
        · rw [hawait] at hcoming
          exact hcoming.elim
        · rw [hawait] at hcoming
          cases hcoming
  | locked hawait => exact hset ⟨apart_refl _ _, rfl, rfl⟩ fun _ => Nat.succ_pos _
  | granted hawait hpoll =>
    rw [hawait] at hown
    obtain ⟨a, ha⟩ := hown
    exact hset (hshape.settle ha hpoll rfl) fun _ => Nat.succ_pos _
  | inTime hawait hpoll =>
    rw [hawait] at hown
    obtain ⟨a, ha, -⟩ := hown
    exact hset (hshape.settle ha hpoll rfl) fun _ => Nat.succ_pos _
  | late hawait hmem hpoll =>
    rw [hawait] at hown
    obtain ⟨a, ha, -⟩ := hown
    refine hset (hshape.settle ha hpoll rfl) fun hhas => hhas.resolve_right ?_
    rw [hawait]
    rintro ⟨⟩
  | timedOut hawait hmem hcleanup =>
    rw [hawait] at hown
    obtain ⟨a, ha, -⟩ := hown
    refine hset (hshape.settle ha hcleanup rfl) fun hhas => hhas.resolve_right ?_
    rw [hawait]
    rintro ⟨⟩

/-- What the clean-up of a task does to its lock future. -/
structure Cleaned (s s' : MutexSystem) (t : Nat) : Prop where
  one : OneLock s s' t
  rt : s'.rt = s.rt
  counter : s'.mutex.sem.counter = s.mutex.sem.counter
  head : s'.mutex.sem.wakeQueueHead = s.mutex.sem.wakeQueueHead
  locker : s'.lockers t = ⟨.none, (s.lockers t).locks⟩

theorem Cleaned.await (h : Cleaned s s' t) : s'.await t = .none := congrArg Locker.await h.locker

/-- The wait that a task is in is awaited. -/
theorem LockAwait.Owned.awaits {await : LockAwait} (hown : await.Owned m t)
    (hwhere : await = .lock i ∨ ∃ ready, await = .timedlock i ready) :
    ∃ timed a, Awaits m t i timed a := by
  rcases hwhere with rfl | ⟨ready, rfl⟩
  · obtain ⟨a, ha⟩ := hown
    exact ⟨false, a, ha⟩
  · obtain ⟨a, ha, -⟩ := hown
    exact ⟨true, a, ha⟩

theorem AbandonCase.cleaned (h : AbandonCase s t s') (hshape : MutexShape s.mutex)
    (hown : (s.await t).Owned s.mutex t) : Cleaned s s' t := by
  cases h with
  | ended => exact ⟨oneLock_set (apart_refl _ _), rfl, rfl, rfl, Function.update_self ..⟩
  | cancelled hawait hcleanup =>
    obtain ⟨timed, a, ha⟩ := hown.awaits hawait
    obtain ⟨hapart, hcounter, hhead⟩ := hshape.settle ha hcleanup rfl
    exact ⟨oneLock_set hapart, rfl, hcounter, hhead, Function.update_self ..⟩

/-- What the first poll of a lock does. -/
structure Begun (s s' : MutexSystem) (t : Nat) : Prop where
  one : OneLock s s' t
  owned : (s'.await t).Owned s'.mutex t
  /-- it yields and locks in its next poll, or it waits -/
  done : s'.await t = .resuming ∧ schedulerStep s.rt (.wake t) = .ok s'.rt ∨
    ¬ (s'.await t).Due s'.mutex ∧ s'.rt = s.rt ∧ s.mutex.sem.counter = 0 ∧
      (s'.lockers t).locks = (s.lockers t).locks

theorem BeginCase.begun (h : BeginCase s t timed s') (hshape : MutexShape s.mutex) :
    Begun s s' t := by
  cases h with
  | @locked m₁ m rt hwait hpoll hdone hwake =>
    have hawait : MutexSystem.await { s.setAwait t .resuming with
        rt := rt, mutex := m, permits := s.permits ++ [t] } t = .resuming := await_set
    refine ⟨oneLock_set (hshape.begin hwait hpoll).1, ?_, Or.inl ⟨hawait, hwake⟩⟩
    rw [hawait]
    trivial
  | @queued m₁ m hwait hpoll hdone =>
    obtain ⟨hapart, hpending⟩ := hshape.begin hwait hpoll
    obtain ⟨hzero, a, ha, hnew⟩ := hpending hdone
    have hawait : ∀ await, MutexSystem.await { s.setAwait t await with mutex := m } t = await :=
      fun _ => await_set
    refine ⟨oneLock_set hapart, ?_, Or.inr ⟨?_, rfl, hzero, ?_⟩⟩
    · rw [hawait]
      cases timed with
      | true => exact ⟨a, ha, iff_of_false hnew List.not_mem_nil⟩
      | false => exact ⟨a, ha⟩
    · rw [hawait]
      cases timed with
      | true => exact fun hdue => hdue rfl
      | false => exact fun hdue => hnew (ha.isGranted.mp hdue)
    · show (Function.update s.lockers t _ t).locks = _
      rw [Function.update_self]

/-- What the timeout of a timed lock does. -/
structure TimedOut (s s' : MutexSystem) (t : Nat) : Prop where
  one : OneLock s s' t
  owned : (s'.await t).Owned s'.mutex t
  wake : schedulerStep s.rt (.wake t) = .ok s'.rt
  mutex : s'.mutex = s.mutex
  locks : (s'.lockers t).locks = (s.lockers t).locks
  coming : (s.await t).Coming s.mutex → (s'.await t).Coming s'.mutex

theorem TimeoutCase.timedOut (h : TimeoutCase s t s') (hown : (s.await t).Owned s.mutex t) :
    TimedOut s s' t := by
  cases h with
  | @linked i ready rt hawait hwake =>
    rw [hawait] at hown
    obtain ⟨a, ha, hlinked⟩ := hown
    have hawait' : MutexSystem.await { s.setAwait t (.timedlock i (ready ++ [.timeout])) with
        rt := rt } t = .timedlock i (ready ++ [.timeout]) := await_set
    refine ⟨oneLock_set (apart_refl _ _), ?_, hwake, rfl, ?_, ?_⟩
    · rw [hawait']
      exact ⟨a, ha, hlinked.trans (by simp)⟩
    · show (Function.update s.lockers t _ t).locks = _
      rw [Function.update_self]
    · rw [hawait', hawait]
      intro (hcoming : ready.head? = some .wait)
      show (ready ++ [TimedChild.timeout]).head? = some .wait
      rw [List.head?_append, hcoming]
      rfl

/-! ## Unlocks -/

theorem released_await (s : MutexSystem) (t : Nat) (m : SemaphoreSystem LockWaker) (x : Nat) :
    (s.released t m).await x = s.await x := by
  show (Function.update s.lockers t _ x).await = (s.lockers x).await
  by_cases hx : x = t
  · rw [hx, Function.update_self]
  · rw [Function.update_of_ne hx]

theorem MutexShape.released (h : MutexShape s.mutex) (hhead : s.mutex.sem.wakeQueueHead = none)
    (hsignal : semaphoreStep s.mutex .signal = .ok m) : OneLock s (s.released t m) t := by
  obtain ⟨-, -, hgrants, hawaits⟩ := h.post hhead hsignal
  exact oneLock_set (apart_of_grants hgrants fun _ _ _ _ _ => hawaits)

/-- The task waits for the mutex with this node, and has not timed out. -/
def MutexSystem.WaitsWith (s : MutexSystem) (t a : Nat) : Prop :=
  ∃ i w, (s.await t = .lock i ∨ s.await t = .timedlock i []) ∧ s.mutex.waits[i]? = some w ∧
    w.future.node = some a

/-- The unlock of a task, and the call of the waker of the first node. -/
structure Called (s s' : MutexSystem) (t a : Nat) (waker : LockWaker) (m : SemaphoreSystem LockWaker) :
    Prop where
  mutex : s'.mutex = m
  wake : schedulerStep s.rt (.wake waker.task) = .ok s'.rt
  locks : ∀ x, (s'.lockers x).locks = ((s.released t m).lockers x).locks
  one : OneAwait s s' waker.task
  owned : (s'.await waker.task).Owned m waker.task
  /-- the task is granted the mutex, unless its lock has timed out or is over -/
  given : s.WaitsWith waker.task a → (s'.await waker.task).Coming m
  taken : (s'.await waker.task).Coming m →
    s.WaitsWith waker.task a ∨ (s.await waker.task).Coming s.mutex

theorem CallCase.called {n : SemaphoreNode LockWaker} (h : AwaitLedger s)
    (hcall : CallCase (s.released t m) n.waker s') (hn : s.mutex.sem.nodes a = some n)
    (hgrants : m.sem.grants = s.mutex.sem.grants ++ [a])
    (hawaits : ∀ {x i timed b}, Awaits s.mutex x i timed b → Awaits m x i timed b) :
    Called s s' t a n.waker m := by
  have hmine : ∀ {x i timed}, Awaits s.mutex x i timed a → n.waker = ⟨x, i, timed⟩ := by
    intro x i timed hawaits
    obtain ⟨n', hn', hwaker⟩ := hawaits.node
    obtain rfl : n = n' := Option.some.inj (hn.symm.trans hn')
    exact hwaker
  have hother : ∀ {x i timed b}, Awaits s.mutex x i timed b → n.waker ≠ ⟨x, i, timed⟩ →
      (b ∈ m.sem.grants ↔ b ∈ s.mutex.sem.grants) := by
    intro x i timed b hb hne
    have hba : b ≠ a := by
      rintro rfl
      exact hne (hmine hb)
    rw [hgrants, List.mem_append, List.mem_singleton, or_iff_left hba]
  have hapart : Apart n.waker.task s.mutex m :=
    ⟨fun _ _ _ _ _ => hawaits, fun x hx i timed b hb =>
      hother hb fun he => hx (by rw [he])⟩
  have hown := h.owned n.waker.task
  cases hcall with
  | @task rt htimed hwake =>
    have hawait : ∀ x, MutexSystem.await { s.released t m with rt := rt } x = s.await x :=
      released_await s t m
    refine ⟨rfl, hwake, fun _ => rfl, ⟨fun x _ => hawait x, hapart⟩, ?_, ?_, ?_⟩
    · rw [hawait]
      cases hwhere : s.await n.waker.task with
      | none => trivial
      | resuming => trivial
      | lock i =>
        rw [hwhere] at hown
        obtain ⟨b, hb⟩ := hown
        exact ⟨b, hawaits hb⟩
      | timedlock i ready =>
        rw [hwhere] at hown
        obtain ⟨b, hb, hlinked⟩ := hown
        refine ⟨b, hawaits hb, (hother hb ?_).trans hlinked⟩
        intro he
        rw [he] at htimed
        cases htimed
    · rintro ⟨i, w, hwhere, hw, hnode⟩
      rw [hawait]
      rcases hwhere with hwhere | hwhere
      · rw [hwhere] at hown ⊢
        obtain ⟨b, hb⟩ := hown
        obtain ⟨f, hget, hnode'⟩ := hb.wait
        obtain rfl := Option.some.inj (hw.symm.trans hget)
        obtain rfl : a = b := Option.some.inj (hnode.symm.trans hnode')
        exact (hawaits hb).isGranted.mpr (by rw [hgrants]; simp)
      · -- the waker of a timed lock is that of its select
        rw [hwhere] at hown
        obtain ⟨b, hb, -⟩ := hown
        obtain ⟨f, hget, hnode'⟩ := hb.wait
        obtain rfl := Option.some.inj (hw.symm.trans hget)
        obtain rfl : a = b := Option.some.inj (hnode.symm.trans hnode')
        rw [hmine hb] at htimed
        cases htimed
    · rw [hawait]
      intro hcoming
      cases hwhere : s.await n.waker.task with
      | none =>
        rw [hwhere] at hcoming
        exact hcoming.elim
      | resuming => exact Or.inr trivial
      | timedlock i ready =>
        rw [hwhere] at hcoming
        exact Or.inr hcoming
      | lock i =>
        rw [hwhere] at hown hcoming
        obtain ⟨b, hb⟩ := hown
        have hmem := (hawaits hb).isGranted.mp hcoming
        rw [hgrants] at hmem
        rcases List.mem_append.mp hmem with hmem | hmem
        · exact Or.inr (hb.isGranted.mpr hmem)
        · obtain rfl := List.mem_singleton.mp hmem
          obtain ⟨f, hget, hnode⟩ := hb.wait
          exact Or.inl ⟨i, _, Or.inl hwhere, hget, hnode⟩
  | @child ready rt htimed hwhere hwake =>
    rw [released_await] at hwhere
    rw [hwhere] at hown
    obtain ⟨b, hb, hlinked⟩ := hown
    -- this is the wait whose node was taken
    obtain rfl : a = b := by
      obtain ⟨w, hw, hnode⟩ := h.ledger.shape.wakers a n hn
      obtain ⟨f, hget, hnode'⟩ := hb.wait
      obtain rfl := Option.some.inj (hw.symm.trans hget)
      exact Option.some.inj (hnode.symm.trans hnode')
    have hset : ∀ x, (Function.update (s.released t m).lockers n.waker.task
        { (s.released t m).lockers n.waker.task with
          await := .timedlock n.waker.wait (ready ++ [.wait]) } x).await =
        if x = n.waker.task then .timedlock n.waker.wait (ready ++ [.wait]) else s.await x := by
      intro x
      by_cases hx : x = n.waker.task
      · rw [if_pos hx, hx, Function.update_self]
      · rw [if_neg hx, Function.update_of_ne hx]
        exact released_await s t m x
    have hself := (hset n.waker.task).trans (if_pos rfl)
    refine ⟨rfl, hwake, ?_, ⟨fun x hx => (hset x).trans (if_neg hx), hapart⟩, ?_, ?_, ?_⟩
    · intro x
      show (Function.update (s.released t m).lockers n.waker.task _ x).locks = _
      by_cases hx : x = n.waker.task
      · rw [hx, Function.update_self]
      · rw [Function.update_of_ne hx]
    · show LockAwait.Owned m n.waker.task (Function.update (s.released t m).lockers _ _ _).await
      rw [hself]
      exact ⟨a, hawaits hb, iff_of_true (by rw [hgrants]; simp) (by simp)⟩
    · rintro ⟨i, w, hwhere' | hwhere', -⟩
      · cases hwhere.symm.trans hwhere'
      · obtain ⟨-, rfl⟩ := LockAwait.timedlock.inj (hwhere.symm.trans hwhere')
        show LockAwait.Coming m (Function.update (s.released t m).lockers _ _ _).await
        rw [hself]
        rfl
    · show LockAwait.Coming m (Function.update (s.released t m).lockers _ _ _).await → _
      rw [hself, hwhere]
      intro hcoming
      cases ready with
      | nil =>
        obtain ⟨f, hget, hnode⟩ := hb.wait
        exact Or.inl ⟨n.waker.wait, _, Or.inr hwhere, hget, hnode⟩
      | cons first ready => exact Or.inr hcoming

/-! ## The steps -/

/-- **A step that polls no task before its grant leaves every task with its own wait.** -/
theorem mutexStep_awaitLedger {o : MutexOp} (h : AwaitLedger s) (hpolls : PollsGranted s o)
    (hok : mutexStep s o = .ok s') : AwaitLedger s' := by
  have hledger := mutexStep_ledger h.ledger hpolls hok
  have hshape := h.ledger.shape
  cases mutexStep_cases hshape hok with
  | cleaned _ _ _ _ hturn =>
    have hcleaned := hturn.cleaned hshape (h.owned _)
    refine h.set ⟨hcleaned.one.oneAwait.awaits, hcleaned.one.apart⟩ hledger ?_
    rw [hcleaned.await]
    trivial
  | polled _ _ _ _ hturn =>
    have hturned := hturn.turned hshape (h.owned _)
    exact h.set ⟨hturned.one.oneAwait.awaits, hturned.one.apart⟩ hledger hturned.owned
  | rt => exact ⟨hledger, h.owned⟩
  | lock _ _ hbegin =>
    have hbegun := hbegin.begun hshape
    exact h.set hbegun.one.oneAwait hledger hbegun.owned
  | timedlock _ _ hbegin =>
    have hbegun := hbegin.begun hshape
    exact h.set hbegun.one.oneAwait hledger hbegun.owned
  | @unlock t _ hnone hunlock =>
    cases hunlock with
    | post _ hsignal hhead =>
      refine h.set (hshape.released hhead hsignal).oneAwait hledger ?_
      rw [released_await, hnone]
      trivial
    | call _ hsignal hhead hn hcall =>
      obtain ⟨-, hgrants, hawaits⟩ := hshape.grant hhead hsignal
      have hcalled := hcall.called h hn hgrants hawaits
      exact h.set hcalled.one hledger (hcalled.mutex ▸ hcalled.owned)
  | timeout htimeout =>
    have htimedOut := htimeout.timedOut (h.owned _)
    exact h.set htimedOut.one.oneAwait hledger htimedOut.owned

end Taskio
