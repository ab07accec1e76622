import Taskio.Runtime.Turn
import Taskio.Sync.Exclusion

/-!
# Polls before the grant

Which calls can have a task polled that waits for a grant in `taskio_mutex_lock`: those that link it
in the ready queue, or that have it wait when it is linked already.

* `LinksGranted` — the calls that do neither
* `grant_before_poll` — along runs of such calls the head of the ready queue never waits for a grant
-/

namespace Taskio

variable {s s' : MutexSystem} {m : SemaphoreSystem LockWaker} {l : List Nat} {t : Nat}

/-- The signal of an unlock calls the waker of the wait that its task awaits, or of a task that
waits for no grant. -/
def MutexSystem.SignalsAwaited (s : MutexSystem) : Prop :=
  ∀ a ∈ s.mutex.sem.wakeQueueHead, ∀ n ∈ s.mutex.sem.nodes a,
    s.rt.Enqueueable n.waker.task ∧
      (s.awaitsGrant n.waker.task = true → s.await n.waker.task = .lock n.waker.wait)

/--
The calls that link no task which waits for a grant, its own grant apart, have no linked task wait,
and keep the shape of the ready queue. No timer outlives its timed lock.
-/
def LinksGranted (s : MutexSystem) : MutexOp → Prop
  | .rt o => KeepsQueue s.rt o ∧
      ∀ x, s.rt.Wakes o x ∨ o = .abort x → s.awaitsGrant x = false
  | .lock | .timedlock =>
    ∀ t, s.rt.control = .polling t → s.rt.Enqueueable t ∧ ¬ s.rt.Linked t
  | .unlock => s.SignalsAwaited
  | .timeout t => s.rt.Enqueueable t
  | .lateTimeout i => s.lockOver i = false

/-- No task of the ready queue `l` waits for a grant. -/
structure GrantLedger (l : List Nat) (s : MutexSystem) : Prop where
  ledger : MutexLedger s
  queue : ReadyQueue l s.rt
  settled : Settled s.rt
  running : ∀ t, s.rt.control.task = some t → t < s.rt.nextTask
  known : ∀ t, s.awaitsGrant t = true → t < s.rt.nextTask
  linked : ∀ t ∈ l, s.awaitsGrant t = false

/-! ## Waiting for a grant -/

theorem awaitsGrant_iff : s.awaitsGrant t = true ↔ ∃ i w a, s.await t = .lock i ∧
    s.mutex.waits[i]? = some w ∧ w.future.node = some a ∧ a ∉ s.mutex.sem.grants := by
  unfold MutexSystem.awaitsGrant
  cases s.await t with
  | lock i =>
    cases hw : s.mutex.waits[i]? with
    | none => simp [hw]
    | some w => cases hnode : w.future.node <;> simp [hw, hnode]
  | none => simp
  | timedlock i ready => simp
  | resuming => simp

/-- A task that stays in its wait only ceases to wait for a grant. -/
theorem MutexLedger.awaitsGrant_mono (h : MutexLedger s) (hkeeps : KeepsNodes s.mutex s'.mutex)
    (hawait : s'.await t = s.await t) (hwaits : s'.awaitsGrant t = true) :
    s.awaitsGrant t = true := by
  obtain ⟨i, w', a', hlock, hw', hnode', ha'⟩ := awaitsGrant_iff.mp hwaits
  rw [hawait] at hlock
  have hknown := h.known t
  rw [hlock] at hknown
  obtain ⟨w, a, hw, hnode⟩ := hknown
  obtain ⟨w'', hw'', hnode''⟩ := hkeeps.node hw hnode
  rw [hw''] at hw'
  cases hw'
  obtain rfl := Option.some.inj (hnode''.symm.trans hnode')
  exact awaitsGrant_iff.mpr ⟨i, w, a, hlock, hw, hnode, fun ha => ha' (hkeeps.grants ha)⟩

/-- A task that is no longer in `taskio_mutex_lock` waits for no grant. -/
theorem MutexLedger.awaitsGrant_set (h : MutexLedger s) {rt : Scheduler} {locker : Locker}
    {permits : List Nat} (hkeeps : KeepsNodes s.mutex m) (hlock : ∀ i, locker.await ≠ .lock i)
    {x : Nat} (hwaits : MutexSystem.awaitsGrant
      ⟨rt, m, Function.update s.lockers t locker, permits⟩ x = true) :
    s.awaitsGrant x = true ∧ x ≠ t := by
  have hx : x ≠ t := by
    rintro rfl
    obtain ⟨i, -, -, hawait, -⟩ := awaitsGrant_iff.mp hwaits
    have hawait : (Function.update s.lockers x locker x).await = .lock i := hawait
    rw [Function.update_self] at hawait
    exact hlock i hawait
  refine ⟨h.awaitsGrant_mono hkeeps ?_ hwaits, hx⟩
  show (Function.update s.lockers t locker x).await = (s.lockers x).await
  rw [Function.update_of_ne hx]

/-! ## The ready queue -/

theorem GrantLedger.lt_of_mem (h : GrantLedger l s) (ht : t ∈ l) : t < s.rt.nextTask := by
  by_contra hge
  exact h.queue.live t ht (view_eq_none.mp (h.settled.fresh t (by omega)))

/-- A step that leaves the runtime as it is. -/
theorem GrantLedger.quiet (h : GrantLedger l s) (hledger : MutexLedger s') (hrt : s'.rt = s.rt)
    (hnew : ∀ x, s'.awaitsGrant x = true → s.awaitsGrant x = true ∨ x ∉ l ∧ x < s.rt.nextTask) :
    GrantLedger l s' := by
  refine ⟨hledger, hrt ▸ h.queue, hrt ▸ h.settled, hrt ▸ h.running, ?_, ?_⟩
  · intro x hx
    rw [hrt]
    exact (hnew x hx).elim (h.known x) And.right
  · intro x hx
    rw [Bool.eq_false_iff]
    intro hwaits
    rcases hnew x hwaits with hold | ⟨hnot, -⟩
    · rw [h.linked x hx] at hold
      cases hold
    · exact hnot hx

/-- A step of the runtime that links no task which waits for a grant. -/
theorem GrantLedger.step (h : GrantLedger l s) (hledger : MutexLedger s') {o : SchedulerOp}
    (hok : schedulerStep s.rt o = .ok s'.rt) (hkeeps : KeepsQueue s.rt o)
    (hnew : ∀ x, s'.awaitsGrant x = true → s.awaitsGrant x = true)
    (hlinks : ∀ x, s.rt.Wakes o x ∨ o = .abort x → s'.awaitsGrant x = false) :
    ∃ l', GrantLedger l' s' := by
  have heffect := schedulerStep_effect hok
  have hle := heffect.nextTask_le
  obtain ⟨l', hl', hqueue⟩ := heffect.queue h.queue h.settled hkeeps
  have hold : ∀ x ∈ l, s'.awaitsGrant x = false := by
    intro x hx
    rw [Bool.eq_false_iff]
    intro hwaits
    have hwas := hnew x hwaits
    rw [h.linked x hx] at hwas
    cases hwas
  refine ⟨l', hledger, hl', heffect.settled h.queue h.settled, ?_, ?_, ?_⟩
  · intro x hx
    rcases heffect.turn.task_cases with htask | htask | ⟨y, hhead, htask⟩
    · exact Nat.lt_of_lt_of_le (h.running x (htask ▸ hx)) hle
    · rw [htask] at hx
      cases hx
    · rw [htask] at hx
      cases hx
      have hmem : x ∈ l := List.mem_of_mem_head? (h.queue.queue.chain.head?_eq.trans hhead)
      exact Nat.lt_of_lt_of_le (h.lt_of_mem hmem) hle
  · intro x hx
    exact Nat.lt_of_lt_of_le (h.known x (hnew x hx)) hle
  · cases hqueue with
    | same => exact hold
    | @push _ y _ _ hy =>
      intro x hx
      rcases List.mem_append.mp hx with hx | hx
      · exact hold x hx
      · rw [List.mem_singleton.mp hx]
        rcases hy with hwakes | hfresh | ⟨habort, -⟩
        · exact hlinks y (Or.inl hwakes)
        · -- a task that is spawned has not run yet
          rw [Bool.eq_false_iff]
          intro hwaits
          have hlt := h.known y (hnew y hwaits)
          omega
        · exact hlinks y (Or.inr habort)
    | pop hl =>
      intro x hx
      exact hold x (hl ▸ List.mem_cons_of_mem _ hx)

/-! ## The steps of the system -/

theorem MutexLedger.resume_waits (h : MutexLedger s) (hok : mutexResume s t = .ok s') :
    s'.rt = s.rt ∧ ∀ x, s'.awaitsGrant x = true → s.awaitsGrant x = true := by
  unfold mutexResume at hok
  simp only at hok
  split at hok
  · cases hok
    exact ⟨rfl, fun _ => id⟩
  · cases hok
    exact ⟨rfl, fun x hx => (h.awaitsGrant_set (KeepsNodes.refl _) (by simp) hx).1⟩
  · obtain ⟨m, hpoll, hok⟩ := bind_eq_ok.mp hok
    cases hok
    obtain ⟨-, hkeeps, -⟩ := h.shape.step hpoll (by rintro i waker ⟨⟩; rfl)
    exact ⟨rfl, fun x hx => (h.awaitsGrant_set hkeeps (by simp) hx).1⟩
  · cases hok
    exact ⟨rfl, fun _ => id⟩
  · split at hok
    · obtain ⟨m, hpoll, hok⟩ := bind_eq_ok.mp hok
      cases hok
      obtain ⟨-, hkeeps, -⟩ := h.shape.step hpoll (by rintro i waker ⟨⟩; rfl)
      exact ⟨rfl, fun x hx => (h.awaitsGrant_set hkeeps (by simp) hx).1⟩
    · obtain ⟨m, hcleanup, hok⟩ := bind_eq_ok.mp hok
      cases hok
      obtain ⟨-, hkeeps, -⟩ := h.shape.step hcleanup (by simp)
      exact ⟨rfl, fun x hx => (h.awaitsGrant_set hkeeps (by simp) hx).1⟩

theorem MutexLedger.abandon_waits (h : MutexLedger s) (hok : mutexAbandon s t = .ok s') :
    s'.rt = s.rt ∧ ∀ x, s'.awaitsGrant x = true → s.awaitsGrant x = true := by
  unfold mutexAbandon at hok
  split at hok
  · cases hok
    exact ⟨rfl, fun x hx => (h.awaitsGrant_set (KeepsNodes.refl _) (by simp) hx).1⟩
  · cases hok
    exact ⟨rfl, fun x hx => (h.awaitsGrant_set (KeepsNodes.refl _) (by simp) hx).1⟩
  · obtain ⟨m, hcleanup, hok⟩ := bind_eq_ok.mp hok
    cases hok
    obtain ⟨-, hkeeps, -⟩ := h.shape.step hcleanup (by simp)
    exact ⟨rfl, fun x hx => (h.awaitsGrant_set hkeeps (by simp) hx).1⟩
  · obtain ⟨m, hcleanup, hok⟩ := bind_eq_ok.mp hok
    cases hok
    obtain ⟨-, hkeeps, -⟩ := h.shape.step hcleanup (by simp)
    exact ⟨rfl, fun x hx => (h.awaitsGrant_set hkeeps (by simp) hx).1⟩

/-- Linking a child wakes the task. -/
theorem MutexLedger.link_waits (h : MutexLedger s) {i : Nat} {ready : List TimedChild}
    {child : TimedChild} (hok : linkChild s t i ready child = .ok s') :
    schedulerStep s.rt (.wake t) = .ok s'.rt ∧
      ∀ x, s'.awaitsGrant x = true → s.awaitsGrant x = true := by
  obtain ⟨rt, hadd, hok⟩ := bind_eq_ok.mp hok
  cases hok
  exact ⟨hadd, fun x hx => (h.awaitsGrant_set (KeepsNodes.refl _) (by simp) hx).1⟩

theorem MutexLedger.call_waits (h : MutexLedger s) {waker : LockWaker}
    (hok : callWaker s waker = .ok s') :
    schedulerStep s.rt (.wake waker.task) = .ok s'.rt ∧ s'.mutex = s.mutex ∧
      ∀ x, s'.awaitsGrant x = true → s.awaitsGrant x = true := by
  unfold callWaker at hok
  split at hok
  · split at hok
    · split at hok
      · obtain ⟨hstep, hwaits⟩ := h.link_waits hok
        obtain ⟨rt, -, hok⟩ := bind_eq_ok.mp hok
        cases hok
        exact ⟨hstep, rfl, hwaits⟩
      · cases hok
    · cases hok
  · obtain ⟨rt, hadd, hok⟩ := bind_eq_ok.mp hok
    cases hok
    exact ⟨hadd, rfl, fun _ => id⟩

theorem keepsQueue_wake {rt : Scheduler} (h : rt.Enqueueable t) : KeepsQueue rt (.wake t) :=
  ⟨fun _ hx => hx ▸ h, fun _ => False.elim⟩

/-- The head of the ready queue does not wait for a grant. -/
theorem GrantLedger.pollsGranted (h : GrantLedger l s) (o : MutexOp) : PollsGranted s o :=
  fun _ t ht _ _ _ =>
    h.linked t (List.mem_of_mem_head? (h.queue.queue.chain.head?_eq.trans ht))

theorem GrantLedger.take (h : GrantLedger l s) (hok : mutexTake s = .ok s') :
    ∃ l', GrantLedger l' s' := by
  have hledger := h.ledger.taken (h.pollsGranted _) hok
  obtain ⟨rt, hrt, hok⟩ := bind_eq_ok.mp hok
  obtain ⟨l₁, h₁⟩ : ∃ l₁, GrantLedger l₁ { s with rt := rt } :=
    h.step (h.ledger.ofRt rt) hrt ⟨fun _ => False.elim, fun _ => False.elim⟩ (fun _ => id)
      (by rintro x (hx | hx); exacts [hx.elim, nomatch hx])
  obtain ⟨t, -, -, -, ⟨-, hcontrol⟩ | ⟨-, hcontrol⟩⟩ := schedulerTake_ok hrt
  · simp only [hcontrol] at hok
    obtain ⟨hrt', hwaits⟩ := h₁.ledger.abandon_waits hok
    exact ⟨l₁, h₁.quiet hledger hrt' fun x hx => Or.inl (hwaits x hx)⟩
  · simp only [hcontrol] at hok
    obtain ⟨hrt', hwaits⟩ := h₁.ledger.resume_waits hok
    exact ⟨l₁, h₁.quiet hledger hrt' fun x hx => Or.inl (hwaits x hx)⟩

theorem GrantLedger.await (h : GrantLedger l s) {timed : Bool}
    (hcontrol : s.rt.control = .polling t) (henq : s.rt.Enqueueable t) (hlinked : ¬ s.rt.Linked t)
    (hok : mutexAwait s t timed = .ok s') : ∃ l', GrantLedger l' s' := by
  have hledger := h.ledger.await hok
  unfold mutexAwait at hok
  obtain ⟨m₁, hwait, hok⟩ := bind_eq_ok.mp hok
  obtain ⟨m, hpoll, hok⟩ := bind_eq_ok.mp hok
  obtain ⟨-, hkeeps, -⟩ := h.ledger.shape.await hwait rfl hpoll
  split at hok
  · -- the lock yields, and the task is linked
    obtain ⟨rt, hadd, hok⟩ := bind_eq_ok.mp hok
    cases hok
    refine h.step hledger (show schedulerStep s.rt (.wake t) = .ok rt from hadd)
      (keepsQueue_wake henq)
      (fun x hx => (h.ledger.awaitsGrant_set hkeeps (by simp) hx).1) ?_
    rintro x (rfl | hx)
    · rw [Bool.eq_false_iff]
      exact fun hx => (h.ledger.awaitsGrant_set hkeeps (by simp) hx).2 rfl
    · cases hx
  · -- the task waits, and is not linked
    cases hok
    refine ⟨l, h.quiet hledger rfl ?_⟩
    intro x hx
    by_cases hxt : x = t
    · rw [hxt]
      exact Or.inr ⟨mt h.queue.linked_iff.mpr hlinked, h.running t (by rw [hcontrol]; rfl)⟩
    · refine Or.inl (h.ledger.awaitsGrant_mono hkeeps ?_ hx)
      show (Function.update s.lockers t _ x).await = (s.lockers x).await
      rw [Function.update_of_ne hxt]

theorem GrantLedger.unlock (h : GrantLedger l s) (hsignals : s.SignalsAwaited)
    (hnone : s.await t = .none) (hok : mutexUnlock s t = .ok s') : ∃ l', GrantLedger l' s' := by
  have hledger := h.ledger.unlock hnone hok
  unfold mutexUnlock at hok
  simp only at hok
  split at hok
  · cases hok
  · rename_i hlocks
    obtain ⟨m, hsignal, hok⟩ := bind_eq_ok.mp hok
    obtain ⟨-, hkeeps, -⟩ := h.ledger.shape.step hsignal (by simp)
    have hreleased := h.ledger.release hnone hlocks hsignal
    have hlock : ∀ i, ({ s.lockers t with locks := (s.lockers t).locks - 1 } : Locker).await ≠
        .lock i := by
      intro i (hawait : s.await t = .lock i)
      rw [hnone] at hawait
      cases hawait
    rcases signal_called hsignal with hwoken | ⟨a, n, hhead, hn, hwoken, hgrants⟩
    · rw [hwoken, List.drop_length] at hok
      cases hok
      exact ⟨l, h.quiet hledger rfl fun x hx =>
        Or.inl (h.ledger.awaitsGrant_set hkeeps hlock hx).1⟩
    · rw [hwoken, List.drop_left] at hok
      obtain ⟨hstep, -, hwaits⟩ := hreleased.call_waits hok
      obtain ⟨henq, hown⟩ := hsignals a hhead n hn
      refine h.step hledger hstep (keepsQueue_wake henq)
        (fun x hx => (h.ledger.awaitsGrant_set hkeeps hlock (hwaits x hx)).1) ?_
      rintro x (rfl | hx)
      · -- the node that was granted is that of the wait which its task awaits
        rw [Bool.eq_false_iff]
        intro hx
        obtain ⟨hold, hne⟩ := h.ledger.awaitsGrant_set hkeeps hlock (hwaits _ hx)
        obtain ⟨i, v, b, hawait, hv, hb, hnot⟩ := awaitsGrant_iff.mp (hwaits _ hx)
        have hawait : (Function.update s.lockers t _ n.waker.task).await = .lock i := hawait
        rw [Function.update_of_ne hne] at hawait
        obtain rfl : n.waker.wait = i := LockAwait.lock.inj ((hown hold).symm.trans hawait)
        obtain ⟨w, hw, hnode⟩ := h.ledger.shape.wakers a n hn
        obtain ⟨w', hw', hnode'⟩ := hkeeps.node hw hnode
        obtain rfl : w' = v := Option.some.inj (hw'.symm.trans hv)
        obtain rfl : a = b := Option.some.inj (hnode'.symm.trans hb)
        exact hnot (by rw [hgrants]; simp)
      · cases hx

theorem GrantLedger.timeout (h : GrantLedger l s) (henq : s.rt.Enqueueable t)
    (hok : lockTimeout s t = .ok s') : ∃ l', GrantLedger l' s' := by
  have hledger := h.ledger.timeout hok
  unfold lockTimeout at hok
  split at hok
  · rename_i i ready hawait
    split at hok
    · cases hok
    · obtain ⟨hstep, hwaits⟩ := h.ledger.link_waits hok
      refine h.step hledger hstep (keepsQueue_wake henq) hwaits ?_
      rintro x (rfl | hx)
      · rw [Bool.eq_false_iff]
        intro hx
        obtain ⟨j, -, -, hlock, -⟩ := awaitsGrant_iff.mp (hwaits _ hx)
        cases hawait.symm.trans hlock
      · cases hx
  · cases hok

theorem GrantLedger.rt (h : GrantLedger l s) {o : SchedulerOp} (hlinks : LinksGranted s (.rt o))
    {rt : Scheduler} (hok : schedulerStep s.rt o = .ok rt) :
    ∃ l', GrantLedger l' { s with rt := rt } :=
  h.step (h.ledger.ofRt rt) hok hlinks.1 (fun _ => id) hlinks.2

/-- **A call that links no task which waits for a grant keeps them out of the ready queue.** -/
theorem mutexStep_grantLedger {o : MutexOp} (h : GrantLedger l s) (hlinks : LinksGranted s o)
    (hok : mutexStep s o = .ok s') : ∃ l', GrantLedger l' s' := by
  have hrt : ∀ o', LinksGranted s (.rt o') →
      (schedulerStep s.rt o' >>= fun rt => .ok { s with rt := rt }) = .ok s' →
      ∃ l', GrantLedger l' s' := by
    intro o' hlinks' hok'
    obtain ⟨rt, hstep, hok'⟩ := bind_eq_ok.mp hok'
    cases hok'
    exact h.rt hlinks' hstep
  unfold mutexStep at hok
  split at hok
  · exact h.take hok
  · split at hok
    · split at hok
      · exact hrt _ hlinks hok
      · cases hok
    · cases hok
  · exact hrt _ hlinks hok
  · split at hok
    · rename_i t hcontrol
      split at hok
      · exact h.await hcontrol (hlinks t hcontrol).1 (hlinks t hcontrol).2 hok
      · cases hok
    · cases hok
  · split at hok
    · rename_i t hcontrol
      split at hok
      · exact h.await hcontrol (hlinks t hcontrol).1 (hlinks t hcontrol).2 hok
      · cases hok
    · cases hok
  · split at hok
    · split at hok
      · rename_i hnone
        exact h.unlock hlinks hnone hok
      · cases hok
    · split at hok
      · rename_i hnone
        exact h.unlock hlinks hnone hok
      · cases hok
    · cases hok
  · exact h.timeout hlinks hok
  · cases hok

theorem grantLedger_init : GrantLedger [] mutexSystem where
  ledger := mutexLedger_init
  queue := queueShape_init
  settled := settled_init
  running _ h := by cases h
  known _ h := by cases h
  linked _ h := by cases h

/--
**Grants come before polls.** In every run of calls that link no task which waits for a grant, its
own grant apart, the head of the ready queue does not wait for one, and no two tasks hold the mutex.
-/
theorem grant_before_poll (os : List MutexOp) (hrun : Lib.run mutexStep mutexSystem os = .ok s)
    (hlinks : Lib.Along mutexStep LinksGranted mutexSystem os) :
    PollsGranted s (.rt .take) ∧ Exclusive s := by
  obtain ⟨l, h⟩ : ∃ l, GrantLedger l s :=
    Lib.run_invariant (I := fun s => ∃ l, GrantLedger l s)
      (fun _ _ _ ⟨_, h⟩ hlinks hok => mutexStep_grantLedger h hlinks hok)
      ⟨[], grantLedger_init⟩ hlinks hrun
  exact ⟨h.pollsGranted _, h.ledger.exclusive⟩

end Taskio
