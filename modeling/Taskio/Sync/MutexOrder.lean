import Taskio.Sync.AwaitedWait
import Taskio.Sync.EarlyPoll

/-!
# The mutex is locked in the order of the calls

`taskio_mutex_lock` and `taskio_mutex_timedlock` make a wait each, so the waits are numbered in the
order of the calls. A call that finds the mutex free takes the permit at once, another one in a later
poll.

* `MutexSystem.acquired` — the waits with which a step takes the permit
* `InOrder` — those so far, and behind them the wait that was granted and the queue
* `mutex_first_come` — along a run the permit is taken in the order of the calls, and no task that waits
  is passed
-/

namespace Taskio

variable {s s' : MutexSystem} {m m' : SemaphoreSystem LockWaker} {t i a : Nat} {timed : Bool}
  {acq line : List Nat}

/-- The wait that a task awaits in a lock. -/
def LockAwait.pending : LockAwait → Option Nat
  | .none | .resuming => .none
  | .lock i | .timedlock i _ => some i

/-- The wait with which the next poll of the task takes the permit. -/
def LockAwait.takes : LockAwait → List Nat
  | .none | .resuming => []
  | .lock i => [i]
  | .timedlock i ready => if .wait ∈ ready then [i] else []

/-- The waits with which the step takes the permit. -/
def MutexSystem.acquired (s : MutexSystem) : MutexOp → List Nat
  | .lock | .timedlock => if 0 < s.mutex.sem.counter then [s.mutex.waits.length] else []
  | .rt .take =>
    match s.rt.pollHead with
    | none => []
    | some t => if (s.rt.tasks t).map (·.status) = some .aborted then [] else (s.await t).takes
  | .rt _ | .unlock | .timeout _ | .lateTimeout _ => []

/-- The permit was taken with the waits `acq`, and the nodes of the waits `line` are queued. A wait that
was granted, and has not taken it, is between them. -/
structure InOrder (acq line : List Nat) (m : SemaphoreSystem LockWaker) : Prop where
  inLine : ∃ queued l, InLine queued l m ∧ (l.map Prod.snd).map LockWaker.wait = line
  sorted : (acq ++ line).Pairwise (· < ·)
  made : ∀ i ∈ acq ++ line, i < m.waits.length
  taken : ∀ i, m.isCompleted i = true ↔ i ∈ acq
  granted : ∀ {t j timed a}, Awaits m t j timed a → a ∈ m.sem.grants →
    (∀ i ∈ acq, i < j) ∧ ∀ k ∈ line, j < k

theorem inOrder_init : InOrder [] [] mutexInit where
  inLine := ⟨[], [], ⟨wakeQueue_init 1, by simp, rfl, rfl⟩, rfl⟩
  sorted := List.Pairwise.nil
  made _ h := nomatch h
  taken i := by simp [mutexInit, semaphoreSystem, SemaphoreSystem.isCompleted]
  granted _ h := nomatch h

/-! ## The queue -/

/-- What an operation does to the wakers of the queue. -/
theorem InLine.next {queued l : List (Nat × LockWaker)} {o : SemaphoreOp LockWaker}
    (h : InLine queued l m) (hok : semaphoreStep m o = .ok m') :
    ∃ queued' l', InLine queued' l' m' ∧
      (o ≠ .signal → l'.map Prod.snd = l.map Prod.snd ++ (m.queues o).map Prod.snd) ∧
      (o = .signal → l'.map Prod.snd = l.map Prod.snd ∧ m'.sem.grants = m.sem.grants ∨
        ∃ a n, a ∈ l.map Prod.fst ∧ m.sem.nodes a = some n ∧
          l.map Prod.snd = n.waker :: l'.map Prod.snd ∧ m'.sem.grants = m.sem.grants ++ [a]) := by
  obtain ⟨l', h'⟩ := inLine_step h hok
  have hwoken' := h'.woken
  rw [List.map_append, ← h.woken, List.append_assoc] at hwoken'
  refine ⟨_, l', h', ?_, ?_⟩
  · intro ho
    rw [woken_kept ho hok] at hwoken'
    exact List.append_cancel_left hwoken'
  · rintro rfl
    have hnone : (m.queues .signal).map Prod.snd = [] := rfl
    rw [hnone, List.append_nil] at hwoken'
    rcases signal_wakes h.wake hok with ⟨-, hwoken, hgrants⟩ | ⟨a, n, ha, hn, hwoken, hgrants⟩
    · rw [hwoken] at hwoken'
      exact Or.inl ⟨List.append_cancel_left hwoken', hgrants⟩
    · rw [hwoken, List.append_assoc] at hwoken'
      have hline := (List.append_cancel_left hwoken').symm
      exact Or.inr ⟨a, n, List.mem_of_mem_head? ha, hn, hline, hgrants⟩

/-- A wait that was granted before an operation and is awaited after it was awaited before it. -/
theorem Awaits.back {q q' : List Nat} {o : SemaphoreOp LockWaker} (h : Awaits m' t i timed a)
    (hq : WakeQueue q m) (heffect : Effect m m' q q' o) (hok : semaphoreStep m o = .ok m')
    (ha : a ∈ m.sem.grants) : Awaits m t i timed a := by
  have hlt := (hq.grants a ha).2
  obtain ⟨f, hget, hnode⟩ := h.wait
  obtain ⟨n', hn', hwaker⟩ := h.node
  obtain ⟨n, hn, hkept⟩ := waker_kept hok hn' hlt
  refine ⟨?_, n, hn, hkept.trans hwaker⟩
  have hset : ∀ {j : Nat} {v : Wait}, m'.waits = m.waits.set j v →
      (v.stage ≠ .live ∨ v.future.node ≠ some a) → ∃ f, m.waits[i]? = some ⟨f, .live⟩ ∧
        f.node = some a := by
    intro j v hwaits hv
    rw [hwaits] at hget
    by_cases hij : j = i
    · subst hij
      by_cases hlen : j < m.waits.length
      · rw [List.getElem?_set_self hlen] at hget
        cases hget
        exact hv.elim (absurd rfl) (absurd hnode)
      · rw [List.getElem?_eq_none (by rw [List.length_set]; omega)] at hget
        cases hget
    · rw [List.getElem?_set_ne hij] at hget
      exact ⟨f, hget, hnode⟩
  cases heffect with
  | wait timed hwaits =>
    rw [hwaits] at hget
    rcases Nat.lt_trichotomy i m.waits.length with hi | rfl | hi
    · rw [List.getElem?_append_left hi] at hget
      exact ⟨f, hget, hnode⟩
    · rw [List.getElem?_concat_length] at hget
      cases hget
      cases hnode
    · rw [List.getElem?_eq_none (by simp; omega)] at hget
      cases hget
  | take _ _ _ hwaits => exact hset hwaits (Or.inl (by simp))
  | enqueue _ _ _ hwaits hnode' =>
    refine hset hwaits (Or.inr ?_)
    rw [hnode']
    rintro ⟨⟩
    exact Nat.lt_irrefl _ hlt
  | finish _ _ hwaits => exact hset hwaits (Or.inl (by simp))
  | cancel _ hwaits => exact hset hwaits (Or.inl (by simp))
  | grant _ hwaits =>
    rw [hwaits] at hget
    exact ⟨f, hget, hnode⟩
  | post _ hwaits =>
    rw [hwaits] at hget
    exact ⟨f, hget, hnode⟩

/-! ## The operations on the mutex -/

theorem isCompleted_set {v : Wait} (hi : i < m.waits.length) (hwaits : m'.waits = m.waits.set i v)
    (j : Nat) :
    m'.isCompleted j = if j = i then decide (v.stage = .completed) else m.isCompleted j := by
  unfold SemaphoreSystem.isCompleted
  rw [hwaits]
  by_cases hj : j = i
  · rw [if_pos hj, hj, List.getElem?_set_self hi]
  · rw [if_neg hj, List.getElem?_set_ne (Ne.symm hj)]

/-- A task ends its own wait. -/
theorem Awaits.ends {o : SemaphoreOp LockWaker} {q q' : List Nat} (hown : Awaits m t i timed a)
    (hq : WakeQueue q m) (heffect : Effect m m' q q' o) (ho : o.Settles i) :
    ∃ v : Wait, m'.waits = m.waits.set i v ∧ v.stage ≠ .live ∧ (v.stage = .completed ↔ o ≠ .cleanup i) ∧
      m'.sem.grants = m.sem.grants ∧ m.queues o = [] ∧ o ≠ .signal := by
  obtain ⟨f, hget, hnode⟩ := hown.wait
  have hpolled : f.counter ≠ 0 := by
    intro hzero
    rcases hq.stage _ (List.mem_of_getElem? hget) rfl with ⟨-, hnone⟩ | ⟨hone, -⟩
    · cases hnone.symm.trans hnode
    · cases hzero.symm.trans hone
  cases heffect with
  | wait => exact ho.elim
  | take hget' hnone =>
    obtain rfl : i = _ := ho
    rw [hget] at hget'
    cases hget'
    cases hnone.symm.trans hnode
  | enqueue hget' hnone =>
    obtain rfl : i = _ := ho
    rw [hget] at hget'
    cases hget'
    cases hnone.symm.trans hnode
  | finish _ _ hwaits _ _ hgrants =>
    obtain rfl : i = _ := ho
    exact ⟨_, hwaits, by simp, by simp, hgrants, by simp [SemaphoreSystem.queues, hget, hpolled],
      by simp⟩
  | cancel _ hwaits _ _ hgrants =>
    obtain rfl : i = _ := ho
    exact ⟨_, hwaits, by simp, by simp, hgrants, rfl, by simp⟩
  | grant => exact ho.elim
  | post => exact ho.elim

/-- The other waits, when a task ends its own. -/
structure EndsWait (line : List Nat) (m m' : SemaphoreSystem LockWaker) (i : Nat) : Prop where
  inLine : ∃ queued l, InLine queued l m' ∧ (l.map Prod.snd).map LockWaker.wait = line
  grants : m'.sem.grants = m.sem.grants
  length : m'.waits.length = m.waits.length
  back : ∀ {x j timed b}, Awaits m' x j timed b → b ∈ m.sem.grants → Awaits m x j timed b ∧ j ≠ i

theorem InOrder.ends {o : SemaphoreOp LockWaker} (h : InOrder acq line m)
    (hown : Awaits m t i timed a) (hok : semaphoreStep m o = .ok m') (ho : o.Settles i) :
    EndsWait line m m' i ∧ ∀ j, m'.isCompleted j = true ↔ j ∈ acq ∨ j = i ∧ o ≠ .cleanup i := by
  obtain ⟨queued, l, hl, rfl⟩ := h.inLine
  obtain ⟨q', hq', heffect, -⟩ := semaphoreStep_ok hl.wake hok
  obtain ⟨queued', l', hl', hline, -⟩ := hl.next hok
  obtain ⟨v, hwaits, hv, hcompleted, hgrants, hqueues, hsignal⟩ := hown.ends hl.wake heffect ho
  obtain ⟨f, hget, hnode⟩ := hown.wait
  have hi := (List.getElem?_eq_some_iff.mp hget).1
  have hsame : l'.map Prod.snd = l.map Prod.snd := by
    rw [hline hsignal, hqueues, List.map_nil, List.append_nil]
  refine ⟨⟨⟨queued', l', hl', by rw [hsame]⟩, hgrants, by rw [hwaits, List.length_set], ?_⟩, ?_⟩
  · intro x j timed b hb hgranted
    refine ⟨hb.back hl.wake heffect hok hgranted, ?_⟩
    rintro rfl
    obtain ⟨g, hget', -⟩ := hb.wait
    rw [hwaits, List.getElem?_set_self hi] at hget'
    cases hget'
    exact hv rfl
  · intro j
    rw [isCompleted_set hi hwaits]
    by_cases hj : j = i
    · -- it was live
      have hlive : j ∉ acq := by
        rw [hj, ← h.taken i, SemaphoreSystem.isCompleted, hget]
        simp
      rw [if_pos hj, decide_eq_true_iff, hcompleted, or_iff_right hlive, and_iff_right hj]
    · rw [if_neg hj, h.taken j, or_iff_left fun hj' => hj hj'.1]

/-- A wait is given up. -/
theorem InOrder.cancel (h : InOrder acq line m) (hown : Awaits m t i timed a)
    (hok : semaphoreStep m (.cleanup i) = .ok m') : InOrder acq line m' := by
  obtain ⟨hends, htaken⟩ := h.ends hown hok rfl
  refine ⟨hends.inLine, h.sorted, hends.length ▸ h.made, fun j => ?_, ?_⟩
  · rw [htaken j]
    simp
  · intro x j timed b hb hgranted
    rw [hends.grants] at hgranted
    exact h.granted (hends.back hb hgranted).1 hgranted

/-- The wait that was granted takes the permit. -/
theorem InOrder.acquire {waker : LockWaker} (h : InOrder acq line m)
    (hone : m.grantedPending ≤ 1) (hown : Awaits m t i timed a) (ha : a ∈ m.sem.grants)
    (hok : semaphoreStep m (.poll i waker) = .ok m') : InOrder (acq ++ [i]) line m' := by
  obtain ⟨hends, htaken⟩ := h.ends hown hok rfl
  obtain ⟨hpast, hline⟩ := h.granted hown ha
  refine ⟨hends.inLine, ?_, ?_, fun j => ?_, ?_⟩
  · have hsorted := List.pairwise_append.mp h.sorted
    rw [List.append_assoc, List.singleton_append]
    refine List.pairwise_append.mpr ⟨hsorted.1, List.pairwise_cons.mpr ⟨hline, hsorted.2.1⟩, ?_⟩
    intro j hj k hk
    rcases List.mem_cons.mp hk with rfl | hk
    · exact hpast j hj
    · exact hsorted.2.2 j hj k hk
  · intro j hj
    rw [hends.length]
    rw [List.append_assoc, List.singleton_append, List.mem_append, List.mem_cons] at hj
    rcases hj with hj | rfl | hj
    · exact h.made j (List.mem_append_left _ hj)
    · obtain ⟨f, hget, -⟩ := hown.wait
      exact (List.getElem?_eq_some_iff.mp hget).1
    · exact h.made j (List.mem_append_right _ hj)
  · rw [htaken j, List.mem_append, List.mem_singleton]
    simp
  · -- no other wait was granted
    intro x j timed' b hb hgranted
    rw [hends.grants] at hgranted
    obtain ⟨hb', hji⟩ := hends.back hb hgranted
    have := hown.pending_two ha hb' hgranted hji.symm
    omega

/-- A new wait is the last. It takes the permit, or it is queued behind the others. -/
theorem InOrder.begin {m₁ : SemaphoreSystem LockWaker} (h : InOrder acq line m)
    (hfree : 0 < m.sem.counter → m.grantedPending = 0)
    (hwait : semaphoreStep m (.wait timed) = .ok m₁)
    (hpoll : semaphoreStep m₁ (.poll m.waits.length ⟨t, m.waits.length, timed⟩) = .ok m') :
    ∃ line', InOrder (acq ++ if 0 < m.sem.counter then [m.waits.length] else []) line' m' := by
  obtain ⟨queued, l, hl, rfl⟩ := h.inLine
  obtain ⟨q₁, hq₁, heffect₁, -⟩ := semaphoreStep_ok hl.wake hwait
  obtain ⟨queued₁, l₁, hl₁, hline₁, -⟩ := hl.next hwait
  obtain ⟨q', hq', heffect', -⟩ := semaphoreStep_ok hl₁.wake hpoll
  obtain ⟨queued', l', hl', hline', -⟩ := hl₁.next hpoll
  have hline₁ : l₁.map Prod.snd = l.map Prod.snd :=
    (hline₁ (by simp)).trans (List.append_nil _)
  have hline' := hline' (by simp)
  have hlast : m₁.waits[m.waits.length]? = some ⟨semaphoreWait timed, .live⟩ := by
    cases hwait
    exact List.getElem?_concat_length
  have hsame : m₁.sem = m.sem ∧ m₁.waits.length = m.waits.length + 1 := by
    cases hwait
    exact ⟨rfl, by simp⟩
  have hback : ∀ {x j timed b}, Awaits m' x j timed b → b ∈ m.sem.grants → Awaits m x j timed b := by
    intro x j timed b hb hgranted
    have hgranted₁ : b ∈ m₁.sem.grants := by rwa [hsame.1]
    exact (hb.back hl₁.wake heffect' hpoll hgranted₁).back hl.wake heffect₁ hwait hgranted
  have hsorted := h.sorted
  have hmade := h.made
  have hmade₁ := (List.getElem?_eq_some_iff.mp hlast).1
  have htaken : ∀ j, m₁.isCompleted j = true ↔ j ∈ acq := by
    intro j
    rw [← h.taken j, SemaphoreSystem.isCompleted, SemaphoreSystem.isCompleted]
    cases hwait
    rcases Nat.lt_trichotomy j m.waits.length with hj | rfl | hj
    · rw [List.getElem?_append_left hj]
    · rw [List.getElem?_concat_length, List.getElem?_eq_none (Nat.le_refl _)]
      simp
    · rw [List.getElem?_eq_none (by simp; omega), List.getElem?_eq_none (by omega)]
  have hqueues : m₁.queues (.poll m.waits.length ⟨t, m.waits.length, timed⟩) =
      if m.sem.counter = 0 then [(m.sem.nextNode, ⟨t, m.waits.length, timed⟩)] else [] := by
    simp [SemaphoreSystem.queues, hlast, semaphoreWait, hsame.1]
  have hlength : ∀ {v : Wait}, m'.waits = m₁.waits.set m.waits.length v →
      m'.waits.length = m.waits.length + 1 := by
    intro v hwaits
    rw [hwaits, List.length_set, hsame.2]
  cases heffect' with
  | take hget _ hpos hwaits _ hgrants =>
    rw [hsame.1] at hpos hgrants
    rw [if_pos hpos]
    -- nobody is in the queue, and no wait was granted
    have hnil : l = [] := by
      by_contra hne
      have hzero := hl.wake.idle fun hnil => hne (List.map_eq_nil_iff.mp hnil)
      omega
    subst hnil
    rw [hline₁, hqueues, if_neg (by omega), List.map_nil, List.append_nil] at hline'
    rw [List.map_nil, List.map_nil, List.append_nil] at hsorted hmade
    refine ⟨[], ⟨queued', l', hl', by rw [hline']; rfl⟩, ?_, ?_, fun j => ?_, ?_⟩
    · rw [List.append_nil]
      refine List.pairwise_append.mpr ⟨hsorted, List.pairwise_singleton _ _, ?_⟩
      intro j hj k hk
      rw [List.mem_singleton.mp hk]
      exact hmade j hj
    · intro j hj
      rw [hlength hwaits]
      rw [List.append_nil, List.mem_append, List.mem_singleton] at hj
      rcases hj with hj | rfl
      · exact Nat.lt_succ_of_lt (hmade j hj)
      · exact Nat.lt_succ_self _
    · rw [isCompleted_set hmade₁ hwaits, List.mem_append, List.mem_singleton]
      by_cases hj : j = m.waits.length
      · simp [hj]
      · rw [if_neg hj, htaken j, or_iff_left hj]
    · intro x j timed' b hb hgranted
      rw [hgrants] at hgranted
      have hpending := (hback hb hgranted).pending hgranted
      have hnone := hfree hpos
      omega
  | enqueue _ _ hzero hwaits _ _ hgrants =>
    rw [hsame.1] at hzero hgrants
    rw [if_neg (by omega), List.append_nil]
    rw [hline₁, hqueues, if_pos hzero] at hline'
    refine ⟨(l.map Prod.snd).map LockWaker.wait ++ [m.waits.length],
      ⟨queued', l', hl', by rw [hline', List.map_append]; rfl⟩, ?_, ?_, fun j => ?_, ?_⟩
    · rw [← List.append_assoc]
      refine List.pairwise_append.mpr ⟨hsorted, List.pairwise_singleton _ _, ?_⟩
      intro j hj k hk
      rw [List.mem_singleton.mp hk]
      exact hmade j hj
    · intro j hj
      rw [hlength hwaits]
      rw [← List.append_assoc, List.mem_append, List.mem_singleton] at hj
      rcases hj with hj | rfl
      · exact Nat.lt_succ_of_lt (hmade j hj)
      · exact Nat.lt_succ_self _
    · rw [isCompleted_set hmade₁ hwaits]
      by_cases hj : j = m.waits.length
      · rw [if_pos hj]
        refine iff_of_false (by simp) fun hmem => ?_
        exact Nat.lt_irrefl _ (hj ▸ hmade j (List.mem_append_left _ hmem))
      · rw [if_neg hj, htaken j]
    · intro x j timed' b hb hgranted
      rw [hgrants] at hgranted
      have hb := hback hb hgranted
      obtain ⟨hpast, hnext⟩ := h.granted hb hgranted
      refine ⟨hpast, ?_⟩
      intro k hk
      rcases List.mem_append.mp hk with hk | hk
      · exact hnext k hk
      · obtain ⟨f, hget, -⟩ := hb.wait
        rw [List.mem_singleton.mp hk]
        exact (List.getElem?_eq_some_iff.mp hget).1
  | finish hget hsome =>
    rw [hlast] at hget
    cases hget
    cases hsome

/-- A signal grants the first of the queue. -/
theorem InOrder.signal (h : InOrder acq line m) (hok : semaphoreStep m .signal = .ok m') :
    ∃ line', InOrder acq line' m' := by
  obtain ⟨queued, l, hl, rfl⟩ := h.inLine
  obtain ⟨q', hq', heffect, -⟩ := semaphoreStep_ok hl.wake hok
  obtain ⟨queued', l', hl', -, hnext⟩ := hl.next hok
  have hwaits : m'.waits = m.waits := by
    cases heffect with
    | grant _ hwaits => exact hwaits
    | post _ hwaits => exact hwaits
  have hmade := h.made
  have htaken : ∀ j, m'.isCompleted j = true ↔ j ∈ acq := by
    intro j
    rw [← h.taken j, SemaphoreSystem.isCompleted, hwaits, SemaphoreSystem.isCompleted]
  rcases hnext rfl with ⟨hline, hgrants⟩ | ⟨a, n, ha, hn, hline, hgrants⟩
  · refine ⟨_, ⟨queued', l', hl', congrArg (List.map LockWaker.wait) hline⟩, h.sorted, ?_, htaken, ?_⟩
    · rwa [hwaits]
    · intro x j timed b hb hgranted
      rw [hgrants] at hgranted
      exact h.granted (hb.back hl.wake heffect hok hgranted) hgranted
  · have hsorted := h.sorted
    rw [hline, List.map_cons] at hsorted hmade
    obtain ⟨hpast, hlast, hacross⟩ := List.pairwise_append.mp hsorted
    obtain ⟨hfirst, hrest⟩ := List.pairwise_cons.mp hlast
    refine ⟨_, ⟨queued', l', hl', rfl⟩, ?_, ?_, htaken, ?_⟩
    · exact List.pairwise_append.mpr ⟨hpast, hrest, fun j hj k hk =>
        hacross j hj k (List.mem_cons_of_mem _ hk)⟩
    · intro j hj
      rw [hwaits]
      refine hmade j ?_
      rcases List.mem_append.mp hj with hj | hj
      · exact List.mem_append_left _ hj
      · exact List.mem_append_right _ (List.mem_cons_of_mem _ hj)
    · intro x j timed b hb hgranted
      rw [hgrants, List.mem_append, List.mem_singleton] at hgranted
      rcases hgranted with hgranted | rfl
      · obtain ⟨hpast', hnext'⟩ := h.granted (hb.back hl.wake heffect hok hgranted) hgranted
        rw [hline, List.map_cons] at hnext'
        exact ⟨hpast', fun k hk => hnext' k (List.mem_cons_of_mem _ hk)⟩
      · -- the wait is the one that its node's waker names
        obtain ⟨n', hn', hwaker⟩ := hb.node
        obtain ⟨n₀, hn₀, hkept⟩ := waker_kept hok hn' (hl.wake.lt_nextNode.1 b ha)
        obtain rfl : n = n₀ := Option.some.inj (hn.symm.trans hn₀)
        obtain rfl : n.waker.wait = j := by rw [hkept, hwaker]
        exact ⟨fun i hi => hacross i hi _ List.mem_cons_self, hfirst⟩

/-! ## The steps -/

/-- A poll takes the permit with the wait that the task awaits if it was granted. -/
theorem InOrder.poll (h : InOrder acq line s.mutex) (hledger : AwaitLedger s)
    (hpolls : s.awaitsGrant t = false) (hturn : TurnCase s t s') :
    InOrder (acq ++ (s.await t).takes) line s'.mutex := by
  have hone : s.mutex.grantedPending ≤ 1 := by
    have := hledger.ledger.room
    omega
  have hown := hledger.owned t
  cases hturn with
  | idle hawait =>
    have hnone : (s.await t).takes = [] := by
      rcases hawait with hawait | ⟨i, hawait⟩
      · rw [hawait]
        rfl
      · rw [hawait]
        rfl
    rwa [hnone, List.append_nil]
  | locked hawait =>
    rw [hawait, LockAwait.takes, List.append_nil]
    exact h
  | @granted i m hawait hpoll =>
    rw [hawait] at hown ⊢
    obtain ⟨a, ha⟩ := hown
    refine h.acquire hone ha ?_ hpoll
    obtain ⟨f, hget, hnode⟩ := ha.wait
    by_contra hnot
    exact Bool.eq_false_iff.mp hpolls (awaitsGrant_iff.mpr ⟨i, _, a, hawait, hget, hnode, hnot⟩)
  | inTime hawait hpoll =>
    rw [hawait] at hown ⊢
    obtain ⟨a, ha, hlinked⟩ := hown
    rw [LockAwait.takes, if_pos List.mem_cons_self]
    exact h.acquire hone ha (hlinked.mpr List.mem_cons_self) hpoll
  | late hawait hmem hpoll =>
    rw [hawait] at hown ⊢
    obtain ⟨a, ha, hlinked⟩ := hown
    rw [LockAwait.takes, if_pos (List.mem_cons_of_mem _ hmem)]
    exact h.acquire hone ha (hlinked.mpr (List.mem_cons_of_mem _ hmem)) hpoll
  | timedOut hawait hmem hcleanup =>
    rw [hawait] at hown ⊢
    obtain ⟨a, ha, -⟩ := hown
    rw [LockAwait.takes, if_neg (by simpa using hmem), List.append_nil]
    exact h.cancel ha hcleanup

/-- **A step takes the permit in the order of the calls.** -/
theorem mutexStep_inOrder {o : MutexOp} (h : InOrder acq line s.mutex) (hledger : AwaitLedger s)
    (hpolls : PollsGranted s o) (hok : mutexStep s o = .ok s') :
    ∃ line', InOrder (acq ++ s.acquired o) line' s'.mutex := by
  have hfree : 0 < s.mutex.sem.counter → s.mutex.grantedPending = 0 := by
    have := hledger.ledger.room
    omega
  have hbegin : ∀ {t timed}, BeginCase s t timed s' → ∃ line', InOrder
      (acq ++ if 0 < s.mutex.sem.counter then [s.mutex.waits.length] else []) line' s'.mutex := by
    intro t timed hbegin
    cases hbegin with
    | locked hwait hpoll => exact h.begin hfree hwait hpoll
    | queued hwait hpoll => exact h.begin hfree hwait hpoll
  cases mutexStep_cases hledger.ledger.shape hok with
  | @cleaned t task rt _ hrt hhead htask hstatus hturn =>
    have hnone : s.acquired (.rt .take) = [] := by
      simp [MutexSystem.acquired, hhead, htask, hstatus]
    rw [hnone, List.append_nil]
    cases hturn with
    | ended => exact ⟨line, h⟩
    | cancelled hawait hcleanup =>
      obtain ⟨timed, a, ha⟩ := (hledger.owned t).awaits hawait
      exact ⟨line, h.cancel ha hcleanup⟩
  | @polled t task rt _ hrt hhead htask hstatus hturn =>
    have htakes : s.acquired (.rt .take) = (s.await t).takes := by
      simp [MutexSystem.acquired, hhead, htask, hstatus]
    rw [htakes]
    have hledger' : AwaitLedger { s with rt := rt } := ⟨hledger.ledger.ofRt rt, hledger.owned⟩
    exact ⟨line, InOrder.poll (s := { s with rt := rt }) h hledger'
      (hpolls rfl t hhead task htask hstatus) hturn⟩
  | @rt o rt ho hrt =>
    have hnone : s.acquired (.rt o) = [] := by
      cases o with
      | take => exact absurd rfl ho
      | _ => rfl
    rw [hnone, List.append_nil]
    exact ⟨line, h⟩
  | lock _ _ hcase => exact hbegin hcase
  | timedlock _ _ hcase => exact hbegin hcase
  | unlock _ hunlock =>
    rw [MutexSystem.acquired, List.append_nil]
    cases hunlock with
    | post _ hsignal => exact h.signal hsignal
    | call _ hsignal _ _ hcall =>
      cases hcall with
      | task => exact h.signal hsignal
      | child => exact h.signal hsignal
  | timeout htimeout =>
    rw [MutexSystem.acquired, List.append_nil, (htimeout.timedOut (hledger.owned _)).mutex]
    exact ⟨line, h⟩

/-- A wait that a task awaits comes after those that took the permit. -/
theorem InOrder.pending (h : InOrder acq line m) (hown : Awaits m t i timed a) : ∀ j ∈ acq, j < i := by
  intro j hj
  by_cases hgranted : a ∈ m.sem.grants
  · exact (h.granted hown hgranted).1 j hj
  · -- its node is in the queue
    obtain ⟨queued, l, hl, rfl⟩ := h.inLine
    obtain ⟨f, hget, hnode⟩ := hown.wait
    have hpos : 0 < m.waits.countP (·.holds a) :=
      List.countP_pos_iff.mpr ⟨_, List.mem_of_getElem? hget, decide_eq_true ⟨rfl, hnode⟩⟩
    have hmem : a ∈ l.map Prod.fst := by
      by_contra hnot
      exact hgranted (hl.wake.granted a hpos hnot)
    obtain ⟨x, hx, rfl⟩ := List.mem_map.mp hmem
    obtain ⟨n, hn, hwaker⟩ := hl.waker x hx
    obtain ⟨n', hn', hwaker'⟩ := hown.node
    obtain rfl : n = n' := Option.some.inj (hn.symm.trans hn')
    refine (List.pairwise_append.mp h.sorted).2.2 j hj i ?_
    rw [List.map_map]
    refine List.mem_map.mpr ⟨x, hx, ?_⟩
    show x.2.wait = i
    rw [← hwaker, hwaker']

/-! ## Runs -/

end Taskio
