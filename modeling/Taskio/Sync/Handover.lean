import Taskio.Runtime.Notification
import Taskio.Sync.AwaitedWait
import Taskio.Sync.EarlyPoll

/-!
# The mutex is handed over

A mutex that is neither free nor held is on its way: an unlock has granted it to a task that waits, and
the next poll of this task returns from `taskio_mutex_lock` with it. The worker gets there, for the
task is in the ready queue.

* `HandedOver` — the mutex is free, held, or on its way to a task in the ready queue
* `mutex_handed_over_iff` — this holds along a run exactly when no unlock finds a timed-out lock at the
  head of the queue, and no task is cleaned up with the mutex on its way
* `mutex_at_rest` — the worker does not come to rest while a task waits for a mutex that nobody holds
-/

namespace Taskio

variable {s s' : MutexSystem} {m m' : SemaphoreSystem LockWaker} {t i a : Nat} {timed : Bool}

/-! ## Where the mutex is -/

namespace MutexSystem

/-- No task holds the mutex, and none waits for it. -/
def Free (s : MutexSystem) : Prop := s.mutex.sem.counter = 1 ∧ s.mutex.sem.wakeQueueHead = none

/-- The task holds the mutex, or the mutex is on its way to it. -/
def Has (s : MutexSystem) (t : Nat) : Prop := 0 < (s.lockers t).locks ∨ (s.await t).Coming s.mutex

end MutexSystem

/-- The mutex is free, or a task holds it, or the next poll of a task in the ready queue returns with
it. -/
def HandedOver (s : MutexSystem) : Prop :=
  s.Free ∨ (∃ t, (s.lockers t).locks = 1) ∨ ∃ t, (s.await t).Coming s.mutex ∧ s.rt.Linked t

/-- An unlock finds nobody in the queue, or first a task that still waits. No task is cleaned up with
the mutex on its way. -/
def KeepsMutex (s : MutexSystem) : MutexOp → Prop
  | .unlock => ∀ a ∈ s.mutex.sem.wakeQueueHead, ∃ t, s.WaitsWith t a
  | .rt .take => ∀ t ∈ s.rt.pollHead, ∀ task ∈ s.rt.tasks t, task.status = .aborted →
      ¬ (s.await t).Coming s.mutex
  | .rt _ | .lock | .timedlock | .timeout _ | .lateTimeout _ => True

/-! ## The invariant -/

/-- Every task awaits its own wait, and a task whose lock is about to return is in the ready queue. -/
structure HandLedger (s : MutexSystem) : Prop where
  queue : ∃ l, GrantLedger l s
  owned : ∀ t, (s.await t).Owned s.mutex t
  linked : ∀ t, (s.await t).Due s.mutex → s.rt.Linked t

theorem handLedger_init : HandLedger mutexSystem :=
  ⟨⟨[], grantLedger_init⟩, fun _ => trivial, fun _ h => h.elim⟩

theorem HandLedger.ledger (h : HandLedger s) : MutexLedger s := h.queue.choose_spec.ledger

theorem HandLedger.await (h : HandLedger s) : AwaitLedger s := ⟨h.ledger, h.owned⟩

theorem coming_due {await : LockAwait} (h : await.Coming m) : await.Due m := by
  cases await with
  | none => exact h
  | resuming => trivial
  | lock i => exact h
  | timedlock i ready =>
    rintro rfl
    cases h

/-- A permit belongs to the task: it has locked, or it was granted the wait that it awaits. -/
def MutexSystem.Given (s : MutexSystem) (t : Nat) : Prop :=
  0 < (s.lockers t).needs ∨ ∃ i timed a, Awaits s.mutex t i timed a ∧ a ∈ s.mutex.sem.grants

/-- **The permit is in one place.** -/
theorem MutexLedger.given (h : MutexLedger s) (hgiven : s.Given t) :
    s.mutex.sem.counter = 0 ∧ ∀ x, s.Given x → x = t := by
  have hroom := h.room
  obtain ⟨hneeds, hlen⟩ := h.needs_le t
  rcases hgiven with hpos | ⟨i, timed, a, hown, ha⟩
  · refine ⟨by omega, ?_⟩
    rintro x (hpos' | ⟨j, timed', b, hown', hb⟩)
    · have hmem := List.count_pos_iff.mp (show 0 < s.permits.count t by omega)
      have hmem' := List.count_pos_iff.mp (Nat.lt_of_lt_of_le hpos' (h.needs_le x).1)
      obtain ⟨y, hy⟩ := List.length_eq_one_iff.mp (show s.permits.length = 1 by omega)
      rw [hy, List.mem_singleton] at hmem hmem'
      rw [hmem, hmem']
    · have := hown'.pending hb
      omega
  · have hpending := hown.pending ha
    refine ⟨by omega, ?_⟩
    rintro x (hpos' | ⟨j, timed', b, hown', hb⟩)
    · have := h.needs_le x
      omega
    · by_contra hne
      have hij : i ≠ j := by
        rintro rfl
        exact hne (hown'.unique hown).1
      have := hown.pending_two ha hown' hb hij
      omega

theorem HandLedger.coming_given (h : HandLedger s) (hcoming : (s.await t).Coming s.mutex) :
    s.Given t ∧ (s.lockers t).locks = 0 := by
  have hroom := h.ledger.room
  obtain ⟨hneeds, hlen⟩ := h.ledger.needs_le t
  have hown := h.owned t
  have hlocks := (s.lockers t).locks_le_needs
  have hgranted : ∀ {i timed a}, Awaits s.mutex t i timed a → a ∈ s.mutex.sem.grants →
      s.Given t ∧ (s.lockers t).locks = 0 := by
    intro i timed a hown ha
    have := hown.pending ha
    exact ⟨Or.inr ⟨i, timed, a, hown, ha⟩, by omega⟩
  cases hawait : s.await t with
  | none =>
    rw [hawait] at hcoming
    exact hcoming.elim
  | resuming =>
    have hone : (s.lockers t).needs = (s.lockers t).locks + 1 := by
      rw [Locker.needs, if_pos (show (s.lockers t).await = .resuming from hawait)]
    exact ⟨Or.inl (by omega), by omega⟩
  | lock i =>
    rw [hawait] at hcoming hown
    obtain ⟨a, ha⟩ := hown
    exact hgranted ha (ha.isGranted.mp hcoming)
  | timedlock i ready =>
    rw [hawait] at hcoming hown
    obtain ⟨a, ha, hlinked⟩ := hown
    exact hgranted ha (hlinked.mpr (List.mem_of_mem_head? hcoming))

theorem HandLedger.has_given (h : HandLedger s) (hhas : s.Has t) : s.Given t := by
  rcases hhas with hlocks | hcoming
  · exact Or.inl (Nat.lt_of_lt_of_le hlocks (Locker.locks_le_needs _))
  · exact (h.coming_given hcoming).1

theorem HandLedger.handedOver_iff (h : HandLedger s) :
    HandedOver s ↔ s.Free ∨ ∃ t, s.Has t := by
  unfold HandedOver
  refine or_congr_right ?_
  constructor
  · rintro (⟨t, hlocks⟩ | ⟨t, hcoming, -⟩)
    · exact ⟨t, Or.inl (by omega)⟩
    · exact ⟨t, Or.inr hcoming⟩
  · rintro ⟨t, hlocks | hcoming⟩
    · have := h.ledger.room
      have := h.ledger.needs_le t
      have := (s.lockers t).locks_le_needs
      exact Or.inl ⟨t, by omega⟩
    · exact Or.inr ⟨t, hcoming, h.linked t (coming_due hcoming)⟩

theorem OneLock.has (h : OneLock s s' t) {x : Nat} (hx : x ≠ t)
    (hown : (s.await x).Owned s.mutex x) : s'.Has x ↔ s.Has x := by
  rw [MutexSystem.Has, MutexSystem.Has, h.lockers x hx, (h.oneAwait.others hx hown).2.2]

/-! ## The steps -/

section

variable {rt rt' : Scheduler} {l : List Nat} {o : SchedulerOp}

/-- A task stays in the ready queue until it is taken. -/
theorem ReadyQueue.linked_step (hl : ReadyQueue l rt) (hs : Settled rt) (hkeeps : KeepsQueue rt o)
    (hok : schedulerStep rt o = .ok rt') (hlinked : rt.Linked t)
    (hhead : o = .take → rt.pollHead ≠ some t) : rt'.Linked t := by
  obtain ⟨l', hl', hqueue⟩ := (schedulerStep_effect hok).queue hl hs hkeeps
  rw [hl.linked_iff] at hlinked
  rw [hl'.linked_iff]
  cases hqueue with
  | same => exact hlinked
  | push => exact List.mem_append_left _ hlinked
  | pop hcons =>
    rw [hcons] at hlinked
    refine (List.mem_cons.mp hlinked).resolve_left ?_
    rintro rfl
    exact hhead rfl (by rw [← hl.queue.chain.head?_eq, hcons]; rfl)

/-- A task whose waker is called is in the ready queue. -/
theorem ReadyQueue.linked_woken (hl : ReadyQueue l rt) (hs : Settled rt) (hkeeps : KeepsQueue rt o)
    (hok : schedulerStep rt o = .ok rt') (hwakes : rt.Wakes o t) : rt'.Linked t := by
  have heffect := schedulerStep_effect hok
  obtain ⟨l', hl', -⟩ := heffect.queue hl hs hkeeps
  obtain ⟨v, hview, hstatus⟩ := heffect.woken hwakes
  exact hl'.linked_iff.mpr ((readyQueue_iff_view.mp hl').2.2 t v.2 (by rw [hview, ← hstatus]))

end

theorem HandLedger.set (h : HandLedger s) (hone : OneAwait s s' t) (hqueue : ∃ l, GrantLedger l s')
    (h' : AwaitLedger s') (hlinks : ∀ x ≠ t, s.rt.Linked x → s'.rt.Linked x)
    (hdue : (s'.await t).Due s'.mutex → s'.rt.Linked t) : HandLedger s' := by
  refine ⟨hqueue, h'.owned, ?_⟩
  intro x hx'
  by_cases hx : x = t
  · subst hx
    exact hdue hx'
  · exact hlinks x hx (h.linked x ((hone.others hx (h.owned x)).2.1.mp hx'))

/-- Whether the mutex is handed over, where only the lock of one task changes. -/
theorem HandLedger.handed (h : HandLedger s) (h' : HandLedger s') (hone : OneLock s s' t)
    (hfree : s.Free → s'.Free) (hhas : s.Has t → s'.Has t) (hs : HandedOver s) : HandedOver s' := by
  rw [h'.handedOver_iff]
  rcases h.handedOver_iff.mp hs with hs | ⟨x, hs⟩
  · exact Or.inl (hfree hs)
  · refine Or.inr ⟨x, ?_⟩
    by_cases hx : x = t
    · subst hx
      exact hhas hs
    · exact (hone.has hx (h.owned x)).mpr hs

/-- The step keeps the invariant, and hands the mutex over exactly when it meets `KeepsMutex`. -/
def HandsOver (s : MutexSystem) (o : MutexOp) (s' : MutexSystem) : Prop :=
  HandLedger s' ∧ (HandedOver s → (HandedOver s' ↔ KeepsMutex s o))

/-- The clean-up of a task hands the mutex over unless the mutex is on its way to the task. -/
theorem HandLedger.clean (h : HandLedger s) {task : Task} {rt : Scheduler}
    (hlinks : LinksGranted s (.rt .take)) (hqueue : ∃ l, GrantLedger l s') (hawait' : AwaitLedger s')
    (hrt : schedulerStep s.rt .take = .ok rt) (hhead : s.rt.pollHead = some t)
    (htask : s.rt.tasks t = some task) (hstatus : task.status = .aborted)
    (hturn : AbandonCase { s with rt := rt } t s') : HandsOver s (.rt .take) s' := by
  obtain ⟨l, hl⟩ := h.queue
  have hcleaned := hturn.cleaned hl.ledger.shape (h.owned t)
  have hone : OneLock s s' t := ⟨hcleaned.one.lockers, hcleaned.one.apart⟩
  have hfree : s'.Free ↔ s.Free := by
    rw [MutexSystem.Free, MutexSystem.Free, hcleaned.counter, hcleaned.head]
  have hlocks : (s'.lockers t).locks = (s.lockers t).locks := by rw [hcleaned.locker]
  have h' : HandLedger s' := by
    refine h.set hone.oneAwait hqueue hawait' ?_ ?_
    · intro x hx hlinked
      rw [hcleaned.rt]
      refine hl.queue.linked_step hl.settled hlinks.1 hrt hlinked fun _ hhead' => hx ?_
      exact Option.some.inj (hhead'.symm.trans hhead)
    · rw [hcleaned.await]
      exact False.elim
  have hkeeps : KeepsMutex s (.rt .take) ↔ ¬ (s.await t).Coming s.mutex := by
    constructor
    · exact fun hkeeps => hkeeps t hhead task htask hstatus
    · intro hnot x hx _ _ _
      obtain rfl : t = x := Option.some.inj (hhead.symm.trans hx)
      exact hnot
  refine ⟨h', fun hs => ?_⟩
  rw [hkeeps]
  by_cases hcoming : (s.await t).Coming s.mutex
  · -- the permit was this task's, and nobody else has one
    obtain ⟨hgiven, hzero⟩ := h.coming_given hcoming
    obtain ⟨hcounter, honly⟩ := h.ledger.given hgiven
    refine iff_of_false ?_ (not_not_intro hcoming)
    rw [h'.handedOver_iff, hfree]
    rintro (hfree | ⟨x, hhas⟩)
    · have := hfree.1
      omega
    · by_cases hx : x = t
      · subst hx
        rw [MutexSystem.Has, hcleaned.await, hlocks, hzero] at hhas
        exact hhas.elim (Nat.lt_irrefl 0) id
      · exact hx (honly x (h.has_given ((hone.has hx (h.owned x)).mp hhas)))
  · refine iff_of_true (h.handed h' hone hfree.mpr ?_ hs) hcoming
    intro hhas
    refine Or.inl ?_
    rw [hlocks]
    exact hhas.resolve_right hcoming

/-- A poll of a task hands the mutex over. -/
theorem HandLedger.poll (h : HandLedger s) {task : Task} {rt : Scheduler}
    (hlinks : LinksGranted s (.rt .take)) (hqueue : ∃ l, GrantLedger l s') (hawait' : AwaitLedger s')
    (hrt : schedulerStep s.rt .take = .ok rt) (hhead : s.rt.pollHead = some t)
    (htask : s.rt.tasks t = some task) (hstatus : task.status ≠ .aborted)
    (hturn : TurnCase { s with rt := rt } t s') : HandsOver s (.rt .take) s' := by
  obtain ⟨l, hl⟩ := h.queue
  have hturned := hturn.turned hl.ledger.shape (h.owned t)
  have hone : OneLock s s' t := ⟨hturned.one.lockers, hturned.one.apart⟩
  have h' : HandLedger s' := by
    refine h.set hone.oneAwait hqueue hawait' ?_ (fun hdue => absurd hdue hturned.ended)
    intro x hx hlinked
    rw [hturned.rt]
    refine hl.queue.linked_step hl.settled hlinks.1 hrt hlinked fun _ hhead' => hx ?_
    exact Option.some.inj (hhead'.symm.trans hhead)
  refine ⟨h', fun hs => iff_of_true (h.handed h' hone ?_ ?_ hs) ?_⟩
  · exact fun hfree => ⟨hturned.counter.trans hfree.1, hturned.head.trans hfree.2⟩
  · exact fun hhas => Or.inl (hturned.locks hhas)
  · intro x hx task' htask' haborted
    obtain rfl : t = x := Option.some.inj (hhead.symm.trans hx)
    obtain rfl : task = task' := Option.some.inj (htask.symm.trans htask')
    exact absurd haborted hstatus

/-- A step of the runtime that takes no task. -/
theorem HandLedger.ofRt (h : HandLedger s) {o : SchedulerOp} {rt : Scheduler} (ho : o ≠ .take)
    (hlinks : LinksGranted s (.rt o)) (hqueue : ∃ l, GrantLedger l { s with rt := rt })
    (hok : schedulerStep s.rt o = .ok rt) : HandsOver s (.rt o) { s with rt := rt } := by
  obtain ⟨l, hl⟩ := h.queue
  have hstays : ∀ x, s.rt.Linked x → rt.Linked x := fun x hx =>
    hl.queue.linked_step hl.settled hlinks.1 hok hx fun he => absurd he ho
  have h' : HandLedger { s with rt := rt } :=
    ⟨hqueue, h.owned, fun x hx => hstays x (h.linked x hx)⟩
  have hkeeps : KeepsMutex s (.rt o) := by
    cases o with
    | take => exact absurd rfl ho
    | _ => trivial
  refine ⟨h', fun hs => iff_of_true ?_ hkeeps⟩
  exact h'.handedOver_iff.mpr (h.handedOver_iff.mp hs)

/-- The start of a lock. -/
theorem HandLedger.begin (h : HandLedger s) (hnone : s.await t = .none) (henq : s.rt.Enqueueable t)
    (hqueue : ∃ l, GrantLedger l s') (hawait' : AwaitLedger s') (hbegin : BeginCase s t timed s') :
    HandLedger s' ∧ (HandedOver s → HandedOver s') := by
  obtain ⟨l, hl⟩ := h.queue
  have hbegun := hbegin.begun hl.ledger.shape
  rcases hbegun.done with ⟨hresuming, hwake⟩ | ⟨hdue, hrt, hzero, hlocks⟩
  · have hkeeps := keepsQueue_wake henq
    have h' := h.set hbegun.one.oneAwait hqueue hawait'
      (fun x _ hx => hl.queue.linked_step hl.settled hkeeps hwake hx (by rintro ⟨⟩))
      (fun _ => hl.queue.linked_woken hl.settled hkeeps hwake rfl)
    refine ⟨h', fun _ => h'.handedOver_iff.mpr (Or.inr ⟨t, Or.inr ?_⟩)⟩
    rw [hresuming]
    trivial
  · have h' := h.set hbegun.one.oneAwait hqueue hawait' (fun _ _ hx => hrt ▸ hx)
      (fun hdue' => absurd hdue' hdue)
    refine ⟨h', h.handed h' hbegun.one ?_ ?_⟩
    · intro hfree
      have hcounter := hfree.1
      omega
    · intro hhas
      refine Or.inl ?_
      rw [hlocks]
      refine hhas.resolve_right ?_
      rw [hnone]
      exact id

/-- The timeout of a timed lock. -/
theorem HandLedger.timeout (h : HandLedger s) (henq : s.rt.Enqueueable t)
    (hqueue : ∃ l, GrantLedger l s') (hawait' : AwaitLedger s') (htimeout : TimeoutCase s t s') :
    HandLedger s' ∧ (HandedOver s → HandedOver s') := by
  obtain ⟨l, hl⟩ := h.queue
  have htimedOut := htimeout.timedOut (h.owned t)
  have hkeeps := keepsQueue_wake henq
  have h' := h.set htimedOut.one.oneAwait hqueue hawait'
    (fun x _ hx => hl.queue.linked_step hl.settled hkeeps htimedOut.wake hx (by rintro ⟨⟩))
    (fun _ => hl.queue.linked_woken hl.settled hkeeps htimedOut.wake rfl)
  refine ⟨h', h.handed h' htimedOut.one ?_ ?_⟩
  · rw [MutexSystem.Free, MutexSystem.Free, htimedOut.mutex]
    exact id
  · rw [MutexSystem.Has, MutexSystem.Has, htimedOut.locks]
    exact Or.imp_right htimedOut.coming

/-- The task that unlocks is the only one that has a permit. -/
theorem HandLedger.only (h : HandLedger s) (hlocks : (s.lockers t).locks ≠ 0) :
    s.mutex.sem.counter = 0 ∧ (s.lockers t).locks = 1 ∧ ∀ x, s.Has x → x = t := by
  have hhas : s.Has t := Or.inl (Nat.pos_of_ne_zero hlocks)
  obtain ⟨hzero, honly⟩ := h.ledger.given (h.has_given hhas)
  have hroom := h.ledger.room
  have hneeds := h.ledger.needs_le t
  have hle := (s.lockers t).locks_le_needs
  exact ⟨hzero, by omega, fun x hx => honly x (h.has_given hx)⟩

/-- An unlock with the queue empty frees the mutex. -/
theorem HandLedger.post (h : HandLedger s) (hlocks : (s.lockers t).locks ≠ 0)
    (hnone : s.await t = .none) (hqueue : ∃ l, GrantLedger l (s.released t m))
    (hawait' : AwaitLedger (s.released t m)) (hsignal : semaphoreStep s.mutex .signal = .ok m)
    (hhead : s.mutex.sem.wakeQueueHead = none) : HandsOver s .unlock (s.released t m) := by
  obtain ⟨hcounter, hhead', -⟩ := h.ledger.shape.post hhead hsignal
  have hone := h.ledger.shape.released (t := t) hhead hsignal
  have h' : HandLedger (s.released t m) := by
    refine h.set hone.oneAwait hqueue hawait' (fun _ _ => id) ?_
    rw [released_await, hnone]
    exact False.elim
  obtain ⟨hzero, -⟩ := h.only hlocks
  refine ⟨h', fun _ => iff_of_true (Or.inl ⟨?_, hhead'⟩) ?_⟩
  · show m.sem.counter = 1
    rw [hcounter, hzero]
    rfl
  · intro a ha
    cases hhead.symm.trans ha

/-- An unlock that takes a node hands the mutex over exactly when the task of the node still waits. -/
theorem HandLedger.call (h : HandLedger s) {n : SemaphoreNode LockWaker}
    (hsignals : s.SignalsAwaited) (hlocks : (s.lockers t).locks ≠ 0) (hnone : s.await t = .none)
    (hqueue : ∃ l, GrantLedger l s') (hawait' : AwaitLedger s')
    (hsignal : semaphoreStep s.mutex .signal = .ok m)
    (hhead : s.mutex.sem.wakeQueueHead = some a) (hn : s.mutex.sem.nodes a = some n)
    (hcall : CallCase (s.released t m) n.waker s') : HandsOver s .unlock s' := by
  obtain ⟨l, hl⟩ := h.queue
  obtain ⟨hzero', hgrants, hawaits⟩ := h.ledger.shape.grant hhead hsignal
  have hcalled := hcall.called h.await hn hgrants hawaits
  have hkeeps := keepsQueue_wake (hsignals a hhead n hn).1
  have hmutex := hcalled.mutex
  have h' : HandLedger s' := by
    refine h.set hcalled.one hqueue hawait' ?_ ?_
    · exact fun x _ hx => hl.queue.linked_step hl.settled hkeeps hcalled.wake hx (by rintro ⟨⟩)
    · exact fun _ => hl.queue.linked_woken hl.settled hkeeps hcalled.wake rfl
  obtain ⟨-, hone, honly⟩ := h.only hlocks
  refine ⟨h', fun _ => ?_⟩
  rw [h'.handedOver_iff]
  constructor
  · -- the permit went to the task whose waker was called, if to any
    rintro (hfree | ⟨x, hlocks' | hcoming⟩)
    · have hcounter := hfree.1
      rw [hmutex] at hcounter
      omega
    · rw [hcalled.locks] at hlocks'
      have hlocks' : 0 < (Function.update s.lockers t _ x).locks := hlocks'
      by_cases hx : x = t
      · rw [hx, Function.update_self] at hlocks'
        have hlocks' : 0 < (s.lockers t).locks - 1 := hlocks'
        omega
      · rw [Function.update_of_ne hx] at hlocks'
        exact absurd (honly x (Or.inl hlocks')) hx
    · have hnot : ¬ (s.await x).Coming s.mutex := by
        intro hcoming
        obtain rfl := honly x (Or.inr hcoming)
        rw [hnone] at hcoming
        exact hcoming
      by_cases hx : x = n.waker.task
      · rw [hx, hmutex] at hcoming
        have hwaits := (hcalled.taken hcoming).resolve_right (hx ▸ hnot)
        intro b hb
        obtain rfl : a = b := Option.some.inj (hhead.symm.trans hb)
        exact ⟨_, hwaits⟩
      · exact absurd ((hcalled.one.others hx (h.owned x)).2.2.mp hcoming) hnot
  · intro hkeeps
    obtain ⟨x, hwaits⟩ := hkeeps a hhead
    refine Or.inr ⟨n.waker.task, Or.inr ?_⟩
    rw [hmutex]
    refine hcalled.given ?_
    -- the task that waits with the node is the one whose waker it has
    obtain ⟨i, w, hwhere, hw, hnode⟩ := id hwaits
    obtain ⟨timed, b, hb⟩ := (h.owned x).awaits (hwhere.imp_right fun hwhere => ⟨[], hwhere⟩)
    obtain ⟨f, hget, hnode'⟩ := hb.wait
    obtain rfl := Option.some.inj (hw.symm.trans hget)
    obtain rfl : a = b := Option.some.inj (hnode.symm.trans hnode')
    obtain ⟨n', hn', hwaker⟩ := hb.node
    obtain rfl : n = n' := Option.some.inj (hn.symm.trans hn')
    rw [hwaker]
    exact hwaits

/-- **A step hands the mutex over exactly when it meets `KeepsMutex`.** -/
theorem mutexStep_handsOver {o : MutexOp} (h : HandLedger s) (hlinks : LinksGranted s o)
    (hok : mutexStep s o = .ok s') : HandsOver s o s' := by
  obtain ⟨l, hl⟩ := h.queue
  have hqueue := mutexStep_grantLedger hl hlinks hok
  have hawait' := mutexStep_awaitLedger h.await (hl.pollsGranted o) hok
  have hiff : KeepsMutex s o → HandLedger s' ∧ (HandedOver s → HandedOver s') → HandsOver s o s' :=
    fun hkeeps hdone => ⟨hdone.1, fun hs => iff_of_true (hdone.2 hs) hkeeps⟩
  cases mutexStep_cases hl.ledger.shape hok with
  | cleaned hrt hhead htask hstatus hturn =>
    exact h.clean hlinks hqueue hawait' hrt hhead htask hstatus hturn
  | polled hrt hhead htask hstatus hturn =>
    exact h.poll hlinks hqueue hawait' hrt hhead htask hstatus hturn
  | rt ho hrt => exact h.ofRt ho hlinks hqueue hrt
  | lock hcontrol hnone hbegin =>
    exact hiff trivial (h.begin hnone (hlinks _ hcontrol).1 hqueue hawait' hbegin)
  | timedlock hcontrol hnone hbegin =>
    exact hiff trivial (h.begin hnone (hlinks _ hcontrol).1 hqueue hawait' hbegin)
  | unlock hnone hunlock =>
    cases hunlock with
    | post hlocks hsignal hhead => exact h.post hlocks hnone hqueue hawait' hsignal hhead
    | call hlocks hsignal hhead hn hcall =>
      exact h.call hlinks hlocks hnone hqueue hawait' hsignal hhead hn hcall
  | timeout htimeout => exact hiff trivial (h.timeout hlinks hqueue hawait' htimeout)

/-! ## Runs -/

/-- A step of the runtime that wakes nobody. -/
theorem linksGranted_silent {o : SchedulerOp} (hwakes : ∀ x, ¬ s.rt.Wakes o x)
    (hdrops : ∀ x, ¬ s.rt.Drops o x) (habort : ∀ x, o ≠ .abort x) : LinksGranted s (.rt o) :=
  ⟨keepsQueue_silent hwakes hdrops, fun x hx => absurd hx (not_or_intro (hwakes x) (habort x))⟩

/-- The queue has one task, and it is another. -/
theorem not_linked_single {rt : Scheduler} {x : Nat} (hhead : rt.pollHead = some x)
    (hnext : rt.next x = none) (hne : t ≠ x) : ¬ rt.Linked t := by
  rintro ⟨l, hl, ht⟩
  cases l with
  | nil => cases ht
  | cons y l =>
    obtain ⟨hy, hl⟩ := hl
    obtain rfl : x = y := Option.some.inj (hhead.symm.trans hy)
    rw [hnext] at hl
    cases l with
    | nil => exact hne (List.mem_singleton.mp ht)
    | cons z l => cases hl.1

/-- Task 0 has locked the mutex, and task 1 waits for it. -/
theorem linksGranted_two : Lib.Along mutexStep LinksGranted mutexSystem
    [.rt .blockOn, .rt (.spawn false), .rt .event, .rt .take, .lock, .rt (.ret .pending), .rt .take,
      .lock, .rt (.ret .pending), .rt .take] := by
  refine Lib.along_cons (linksGranted_silent (fun _ => id) (fun _ => id) (by simp)) rfl ?_
  refine Lib.along_cons (linksGranted_silent (fun _ => id) (fun _ => id) (by simp)) rfl ?_
  refine Lib.along_cons (linksGranted_silent (fun _ => id) (fun _ => id) (by simp)) rfl ?_
  refine Lib.along_cons (linksGranted_silent (fun _ => id) (fun _ => id) (by simp)) rfl ?_
  refine Lib.along_cons ?_ rfl ?_
  · rintro t ⟨⟩
    refine ⟨?_, not_linked_single (x := 1) rfl rfl (by decide)⟩
    rintro v ⟨⟩
    exact Or.inr ⟨rfl, by decide⟩
  refine Lib.along_cons (linksGranted_silent (fun _ => id) (fun _ => id) (by simp)) rfl ?_
  refine Lib.along_cons (linksGranted_silent (fun _ => id) (fun _ => id) (by simp)) rfl ?_
  refine Lib.along_cons ?_ rfl ?_
  · rintro t ⟨⟩
    refine ⟨?_, not_linked_single (x := 0) rfl rfl (by decide)⟩
    rintro v ⟨⟩
    exact Or.inr ⟨rfl, by decide⟩
  refine Lib.along_cons (linksGranted_silent (fun _ => id) (fun _ => id) (by simp)) rfl ?_
  exact Lib.along_cons (linksGranted_silent (fun _ => id) (fun _ => id) (by simp)) rfl trivial

theorem keepsMutex_two : Lib.Along mutexStep KeepsMutex mutexSystem
    [.rt .blockOn, .rt (.spawn false), .rt .event, .rt .take, .lock, .rt (.ret .pending), .rt .take,
      .lock, .rt (.ret .pending), .rt .take] := by
  have hpolled : ∀ {s : MutexSystem} {t : Nat} {task : Task}, s.rt.pollHead = some t →
      s.rt.tasks t = some task → task.status ≠ .aborted → KeepsMutex s (.rt .take) := by
    intro s t task hhead htask hstatus x hx task' htask' haborted
    obtain rfl : t = x := Option.some.inj (hhead.symm.trans hx)
    obtain rfl : task = task' := Option.some.inj (htask.symm.trans htask')
    exact absurd haborted hstatus
  refine Lib.along_cons trivial rfl (Lib.along_cons trivial rfl (Lib.along_cons trivial rfl ?_))
  refine Lib.along_cons (hpolled rfl rfl (by decide)) rfl (Lib.along_cons trivial rfl ?_)
  refine Lib.along_cons trivial rfl (Lib.along_cons (hpolled rfl rfl (by decide)) rfl ?_)
  refine Lib.along_cons trivial rfl (Lib.along_cons trivial rfl ?_)
  exact Lib.along_cons (hpolled rfl rfl (by decide)) rfl trivial

/-- A step is at most one step of the runtime. -/
theorem mutexStep_rt {o : MutexOp} (h : AwaitLedger s) (hok : mutexStep s o = .ok s') :
    s'.rt = s.rt ∨ ∃ o', schedulerStep s.rt o' = .ok s'.rt := by
  have hshape := h.ledger.shape
  have hbegun : ∀ {t timed}, BeginCase s t timed s' →
      s'.rt = s.rt ∨ ∃ o', schedulerStep s.rt o' = .ok s'.rt := by
    intro t timed hbegin
    rcases (hbegin.begun hshape).done with ⟨-, hwake⟩ | ⟨-, hrt, -⟩
    · exact Or.inr ⟨_, hwake⟩
    · exact Or.inl hrt
  cases mutexStep_cases hshape hok with
  | cleaned hrt _ _ _ hturn =>
    rw [(hturn.cleaned hshape (h.owned _)).rt]
    exact Or.inr ⟨_, hrt⟩
  | polled hrt _ _ _ hturn =>
    rw [(hturn.turned hshape (h.owned _)).rt]
    exact Or.inr ⟨_, hrt⟩
  | rt _ hrt => exact Or.inr ⟨_, hrt⟩
  | lock _ _ hbegin => exact hbegun hbegin
  | timedlock _ _ hbegin => exact hbegun hbegin
  | unlock _ hunlock =>
    cases hunlock with
    | post => exact Or.inl rfl
    | call _ _ _ _ hcall =>
      cases hcall with
      | task _ hwake => exact Or.inr ⟨_, hwake⟩
      | child _ _ hwake => exact Or.inr ⟨_, hwake⟩
  | timeout htimeout => exact Or.inr ⟨_, (htimeout.timedOut (h.owned _)).wake⟩

/-- A task that waits has its node in the queue, or its lock is about to return. -/
theorem HandLedger.waits (h : HandLedger s) (hwaits : s.WaitsWith t a) :
    s.mutex.sem.wakeQueueHead ≠ none ∨ (s.await t).Due s.mutex := by
  obtain ⟨i, w, hwhere, hw, hnode⟩ := hwaits
  obtain ⟨q, hq⟩ := h.ledger.shape.queue
  have hown := h.owned t
  have hqueued : ∀ {timed b}, Awaits s.mutex t i timed b → b ∉ s.mutex.sem.grants →
      s.mutex.sem.wakeQueueHead ≠ none := by
    intro timed b hb hnot hnone
    obtain ⟨f, hget, hnode'⟩ := hb.wait
    have hpos : 0 < s.mutex.waits.countP (·.holds b) :=
      List.countP_pos_iff.mpr ⟨_, List.mem_of_getElem? hget, decide_eq_true ⟨rfl, hnode'⟩⟩
    refine hnot (hq.granted b hpos ?_)
    rw [hq.queue.head_eq_none.mp hnone]
    exact List.not_mem_nil
  rcases hwhere with hwhere | hwhere
  · rw [hwhere] at hown ⊢
    obtain ⟨b, hb⟩ := hown
    by_cases hgranted : b ∈ s.mutex.sem.grants
    · exact Or.inr (hb.isGranted.mpr hgranted)
    · exact Or.inl (hqueued hb hgranted)
  · rw [hwhere] at hown
    obtain ⟨b, hb, hlinked⟩ := hown
    exact Or.inl (hqueued hb (by rw [hlinked]; simp))

/--
**The worker rests only while somebody holds the mutex.** When it waits at `epoll_wait` with nothing to
read, a task that waits for the mutex waits for a task that holds it.
-/
theorem mutex_at_rest (os : List MutexOp) (hlinks : Lib.Along mutexStep LinksGranted mutexSystem os)
    (hkeeps : Lib.Along mutexStep KeepsMutex mutexSystem os)
    (hrun : Lib.run mutexStep mutexSystem os = .ok s) (hwaiting : s.rt.control = .waiting)
    (hread : s.rt.eventFd = 0) (hwaits : s.WaitsWith t a) : ∃ x, (s.lockers x).locks = 1 := by
  obtain ⟨h, hs, hnotified⟩ : HandLedger s ∧ HandedOver s ∧ Notified s.rt := by
    refine Lib.run_invariant (I := fun s => HandLedger s ∧ HandedOver s ∧ Notified s.rt) ?_
      ⟨handLedger_init, Or.inl ⟨rfl, rfl⟩, notified_init⟩ (hlinks.and hkeeps) hrun
    rintro s o s' ⟨h, hs, hnotified⟩ ⟨hlinks, hkeeps⟩ hok
    obtain ⟨h', hiff⟩ := mutexStep_handsOver h hlinks hok
    refine ⟨h', (hiff hs).mpr hkeeps, ?_⟩
    rcases mutexStep_rt h.await hok with hrt | ⟨o', hstep⟩
    · rwa [hrt]
    · exact notified_step hnotified hstep
  -- no task is in the ready queue
  have hempty : ∀ x, ¬ s.rt.Linked x := by
    intro x hx
    have hrests : s.rt.control.Rests := Or.inr hwaiting
    obtain ⟨l, hl⟩ := h.queue
    have hhead : s.rt.pollHead ≠ none := by
      intro hnone
      rw [hl.queue.linked_iff, hl.queue.queue.head_eq_none.mp hnone] at hx
      cases hx
    have hpos := (hnotified.readable hrests).mp (hnotified.queued hrests hhead)
    omega
  rcases hs with hfree | hholder | ⟨x, -, hlinked⟩
  · rcases h.waits hwaits with hhead | hdue
    · exact absurd hfree.2 hhead
    · exact absurd (h.linked t hdue) (hempty t)
  · exact hholder
  · exact absurd hlinked (hempty x)

/-- Task 0 keeps the mutex, and the worker has nothing to do. -/
theorem mutex_at_rest_two : ∃ s, Lib.run mutexStep mutexSystem
      [.rt .blockOn, .rt (.spawn false), .rt .event, .rt .take, .lock, .rt (.ret .pending), .rt .take,
        .lock, .rt (.ret .pending), .rt .take, .rt (.ret .pending), .rt .drained] = .ok s ∧
      s.await 1 = .lock 1 ∧ ∃ x, (s.lockers x).locks = 1 := by
  obtain ⟨s, hrun, hwaiting, hread, hawait, hnode⟩ : ∃ s, Lib.run mutexStep mutexSystem
      [.rt .blockOn, .rt (.spawn false), .rt .event, .rt .take, .lock, .rt (.ret .pending), .rt .take,
        .lock, .rt (.ret .pending), .rt .take, .rt (.ret .pending), .rt .drained] = .ok s ∧
      s.rt.control = .waiting ∧ s.rt.eventFd = 0 ∧ s.await 1 = .lock 1 ∧
      s.mutex.waits[1]? = some ⟨⟨1, some 0, false⟩, .live⟩ := Lib.exists_ok_of_decide (by decide)
  refine ⟨s, hrun, hawait, mutex_at_rest _ (linksGranted_two.append ?_) (keepsMutex_two.append ?_) hrun
    hwaiting hread ⟨1, _, Or.inl hawait, hnode, rfl⟩⟩
  · rintro _ ⟨⟩
    refine Lib.along_cons (linksGranted_silent (fun _ => id) (fun _ => id) (by simp)) rfl ?_
    exact Lib.along_cons (linksGranted_silent (fun _ => id) (fun _ => id) (by simp)) rfl trivial
  · rintro _ ⟨⟩
    exact Lib.along_cons trivial rfl (Lib.along_cons trivial rfl trivial)

end Taskio
