import Taskio.Sync.NodeWaker
import Taskio.Sync.TimedWait

/-!
# The wait of a timed wait

What happens to the call's own wait in the semaphore, whatever the others do.

* `OwnWait` — its stage and its node; `firstPoll_of_fresh`, `OwnWait.finish`, `OwnWait.cancel`
* `SysInv` — the waker of its node is its own; `SysInv.other`
* `Without` — the semaphore against the one without the call
-/

namespace Taskio

/-! ## The calls of the others -/

section Others

variable {W : Type} {s s' : SemaphoreSystem W} {q q' : List Nat} {o : SemaphoreOp W} {k : Nat}

/-- A call by the others leaves the call's own wait alone. -/
theorem Effect.other {s s' : SemaphoreSystem Nat} {o : OtherOp}
    (h : Effect s s' q q' (o.beside (some k))) (hk : k < s.waits.length) :
    s'.waits[k]? = s.waits[k]? := by
  have hset : ∀ {j : Nat} {v : Wait}, s'.waits = s.waits.set (skip (some k) j) v →
      s'.waits[k]? = s.waits[k]? := by
    intro j v hwaits
    rw [hwaits, List.getElem?_set_ne (skip_ne rfl)]
  cases o with
  | wait timed =>
    cases h with
    | wait _ hwaits => rw [hwaits, List.getElem?_append_left hk]
  | poll j =>
    cases h with
    | take _ _ _ hwaits => exact hset hwaits
    | enqueue _ _ _ hwaits => exact hset hwaits
    | finish _ _ hwaits => exact hset hwaits
  | cleanup j =>
    cases h with
    | cancel _ hwaits => exact hset hwaits
  | signal =>
    cases h with
    | grant _ hwaits => rw [hwaits]
    | post _ hwaits => rw [hwaits]

/-- No call but a signal takes a node. -/
theorem Effect.grants_of_ne (h : Effect s s' q q' o) (ho : o ≠ .signal) :
    s'.sem.grants = s.sem.grants := by
  cases h with
  | wait _ _ hsem => rw [hsem]
  | take _ _ _ _ _ hgrants => exact hgrants
  | enqueue _ _ _ _ _ _ hgrants => exact hgrants
  | finish _ _ _ _ _ hgrants => exact hgrants
  | cancel _ _ _ _ hgrants => exact hgrants
  | grant => exact absurd rfl ho
  | post => exact absurd rfl ho

end Others

/-! ## The call's own wait -/

/-- The call's own wait, with its node. -/
def OwnWait (sys : SemaphoreSystem Nat) (k : Nat) (stage : WaitStage) (node : Option Nat) : Prop :=
  ∃ f, sys.waits[k]? = some ⟨f, stage⟩ ∧ f.node = node

/-- It was not polled yet. -/
def FreshWait (sys : SemaphoreSystem Nat) (k : Nat) : Prop :=
  sys.waits[k]? = some ⟨semaphoreWait true, .live⟩

variable {sys sys' s₀ : SemaphoreSystem Nat} {q q' q₀ : List Nat} {k a : Nat} {stage : WaitStage}
  {wait node : Option Nat}

theorem OwnWait.lt (h : OwnWait sys k stage node) : k < sys.waits.length := by
  obtain ⟨f, hget, -⟩ := h
  exact (List.getElem?_eq_some_iff.mp hget).1

theorem OwnWait.congr (h : OwnWait sys k stage node) (hsame : sys'.waits[k]? = sys.waits[k]?) :
    OwnWait sys' k stage node := by
  obtain ⟨f, hget, hnode⟩ := h
  exact ⟨f, hsame.trans hget, hnode⟩

/-- What the first poll of the wait does. -/
inductive FirstPoll (sys sys' : SemaphoreSystem Nat) (k : Nat) (q q' : List Nat) : Prop where
  | take (hown : OwnWait sys' k .completed none) (hgrants : sys'.sem.grants = sys.sem.grants)
      (hq : q' = q) : FirstPoll sys sys' k q q'
  | enqueue {v : Wait} (hown : OwnWait sys' k .live (some sys.sem.nextNode))
      (hwaits : sys'.waits = sys.waits.set k v) (hcounter : sys'.sem.counter = sys.sem.counter)
      (hgrants : sys'.sem.grants = sys.sem.grants) (hnext : sys'.sem.nextNode = sys.sem.nextNode + 1)
      (hq : q' = q ++ [sys.sem.nextNode]) : FirstPoll sys sys' k q q'

theorem firstPoll_of_fresh (h : WakeQueue q sys) (hfresh : FreshWait sys k) {waker : Nat}
    (hok : semaphoreStep sys (.poll k waker) = .ok sys') :
    ∃ q', WakeQueue q' sys' ∧ Effect sys sys' q q' (.poll k waker) ∧ FirstPoll sys sys' k q q' := by
  obtain ⟨q', hq', heffect, -⟩ := semaphoreStep_ok h hok
  have hnext := nextNode_step h heffect hok
  have hlt : k < sys.waits.length := (List.getElem?_eq_some_iff.mp hfresh).1
  refine ⟨q', hq', heffect, ?_⟩
  have hget := hfresh
  unfold FreshWait at hget
  have hsame : ∀ {f : WaitFuture}, sys.waits[k]? = some ⟨f, .live⟩ → f = semaphoreWait true :=
    fun hf => by simpa [hget] using hf.symm
  cases heffect with
  | take _ _ hpos hwaits _ hgrants hq =>
    refine .take ?_ hgrants hq
    have hcounter : (semaphoreWait true).counter = 0 := rfl
    have hnone : (semaphoreWait true).node = none := rfl
    simp only [semaphoreStep, hget, pollWait_take hcounter hnone hpos, ok_bind] at hok
    rw [cleanupWait_none (by rfl)] at hok
    cases hok
    exact ⟨_, List.getElem?_set_self hlt, rfl⟩
  | enqueue _ _ hzero hwaits hnode hcounter hgrants hq =>
    rw [hq, List.length_append, Nat.add_sub_cancel_left] at hnext
    refine .enqueue ⟨_, ?_, hnode⟩ hwaits (hcounter.trans hzero.symm) hgrants hnext hq
    rw [hwaits, List.getElem?_set_self hlt]
  | finish hget' hnode =>
    rw [hsame hget'] at hnode
    cases hnode

/-- The second poll of the wait. -/
theorem OwnWait.finish (h : OwnWait sys k .live (some a)) {waker : Nat}
    (heffect : Effect sys sys' q q' (.poll k waker)) :
    OwnWait sys' k .completed (some a) ∧ sys'.sem.grants = sys.sem.grants := by
  have hlt := h.lt
  obtain ⟨f, hget, hnode⟩ := h
  have hsame : ∀ {f' : WaitFuture}, sys.waits[k]? = some ⟨f', .live⟩ → f' = f :=
    fun hf => by simpa [hget] using hf.symm
  cases heffect with
  | take hget' hnone =>
    rw [hsame hget', hnode] at hnone
    cases hnone
  | enqueue hget' hnone =>
    rw [hsame hget', hnode] at hnone
    cases hnone
  | finish hget' hsome hwaits hnode' _ hgrants =>
    rw [hsame hget', hnode] at hsome
    cases hsome
    refine ⟨⟨_, ?_, hnode'⟩, hgrants⟩
    rw [hwaits, List.getElem?_set_self hlt]

/-- It is given up. -/
theorem OwnWait.cancel (h : OwnWait sys k .live (some a))
    (heffect : Effect sys sys' q q' (.cleanup k)) :
    OwnWait sys' k .cleaned (some a) ∧ (∃ v, sys'.waits = sys.waits.set k v) ∧
      sys'.sem.counter = sys.sem.counter ∧ sys'.sem.grants = sys.sem.grants ∧ q' = q := by
  have hlt := h.lt
  obtain ⟨f, hget, hnode⟩ := h
  cases heffect with
  | cancel hget' hwaits hnode' hcounter hgrants hq =>
    rw [hget] at hget'
    cases hget'
    refine ⟨⟨_, ?_, hnode'.trans hnode⟩, ⟨_, hwaits⟩, hcounter, hgrants, hq⟩
    rw [hwaits, List.getElem?_set_self hlt]

theorem OwnWait.nodeOf (h : OwnWait sys k stage node) : sys.nodeOf (some k) = node := by
  obtain ⟨f, hget, hnode⟩ := h
  show sys.waits[k]?.bind _ = _
  rw [hget]
  exact hnode

theorem FreshWait.own (h : FreshWait sys k) : OwnWait sys k .live none := ⟨_, h, rfl⟩

theorem FreshWait.nodeOf (h : FreshWait sys k) : sys.nodeOf (some k) = none := h.own.nodeOf

theorem nodeOf_congr (hwaits : ∀ k ∈ wait, sys'.waits[k]? = sys.waits[k]?) :
    sys'.nodeOf wait = sys.nodeOf wait := by
  cases wait with
  | none => rfl
  | some k =>
    show sys'.waits[k]?.bind _ = sys.waits[k]?.bind _
    rw [hwaits k rfl]

/-! ## The semaphore, with the call's node -/

/-- The waker of the call's node is that of its wait, and no other node has it. -/
structure SysInv (wait : Option Nat) (sys : SemaphoreSystem Nat) : Prop where
  queue : ∃ q, WakeQueue q sys
  own : OwnWakers id sys
  made : ∀ k ∈ wait, k < sys.waits.length
  node : ∀ a ∈ sys.nodeOf wait, a < sys.sem.nextNode ∧
    ∀ n, sys.sem.nodes a = some n → wait = some n.waker

theorem Effect.length_le {W : Type} {s s' : SemaphoreSystem W} {o : SemaphoreOp W}
    (h : Effect s s' q q' o) : s.waits.length ≤ s'.waits.length := by
  cases h with
  | wait _ hwaits =>
    rw [hwaits, List.length_append]
    exact Nat.le_add_right _ _
  | take _ _ _ hwaits => rw [hwaits, List.length_set]
  | enqueue _ _ _ hwaits => rw [hwaits, List.length_set]
  | finish _ _ hwaits => rw [hwaits, List.length_set]
  | cancel _ hwaits => rw [hwaits, List.length_set]
  | grant _ hwaits => rw [hwaits]
  | post _ hwaits => rw [hwaits]

/-- A call that does not queue the call's own wait. -/
theorem SysInv.step {o : SemaphoreOp Nat} (h : SysInv wait sys) (hok : semaphoreStep sys o = .ok sys')
    (hpoll : ∀ i waker, o = .poll i waker → waker = i)
    (hnode : ∀ a ∈ sys'.nodeOf wait, a ∈ sys.nodeOf wait) : SysInv wait sys' := by
  obtain ⟨q, hq⟩ := h.queue
  obtain ⟨q', hq', heffect, -⟩ := semaphoreStep_ok hq hok
  have hnext := nextNode_step hq heffect hok
  refine ⟨⟨q', hq'⟩, ownWakers_step heffect hok hpoll h.own, ?_, ?_⟩
  · intro k hk
    exact Nat.lt_of_lt_of_le (h.made k hk) heffect.length_le
  · intro a ha
    obtain ⟨hlt, hwaker⟩ := h.node a (hnode a ha)
    refine ⟨by omega, ?_⟩
    intro n' hn'
    obtain ⟨n, hn, hsame⟩ := waker_kept hok hn' hlt
    rw [← hsame]
    exact hwaker n hn

/-- The call's own wait is queued. -/
theorem SysInv.enqueue (h : SysInv (some k) sys) (hq : WakeQueue q sys)
    (hok : semaphoreStep sys (.poll k k) = .ok sys')
    (hown : OwnWait sys' k .live (some sys.sem.nextNode))
    (hnext : sys'.sem.nextNode = sys.sem.nextNode + 1) : SysInv (some k) sys' := by
  obtain ⟨q', hq', heffect, -⟩ := semaphoreStep_ok hq hok
  have hpoll : ∀ i waker, SemaphoreOp.poll k k = .poll i waker → id waker = i := by
    rintro i waker ⟨⟩
    rfl
  refine ⟨⟨q', hq'⟩, ownWakers_step heffect hok hpoll h.own, ?_, ?_⟩
  · intro j hj
    exact Nat.lt_of_lt_of_le (h.made j hj) heffect.length_le
  · intro a ha
    rw [hown.nodeOf] at ha
    cases ha
    refine ⟨by omega, ?_⟩
    intro n' hn'
    obtain ⟨-, -, hunused⟩ := hq.nextNode_unused
    rcases semaphoreStep_wakers hok with hkeeps | ⟨i, waker, f', ho, -, -, hwakers⟩
    · obtain ⟨n, hn, -⟩ := hkeeps _ n' hn'
      rw [hunused] at hn
      cases hn
    · cases ho
      rcases hwakers _ n' hn' with ⟨-, hwaker⟩ | ⟨n, hn, -⟩
      · rw [hwaker]
      · rw [hunused] at hn
        cases hn

theorem OwnWait.isCompleted (h : OwnWait sys k stage node) :
    sys.isCompleted k = decide (stage = .completed) := by
  obtain ⟨f, hget, -⟩ := h
  rw [SemaphoreSystem.isCompleted, hget]

/-- The first poll of the call's wait: it takes a permit, or is queued. -/
theorem SysInv.firstPoll (h : SysInv (some k) sys) (hfresh : FreshWait sys k)
    (hok : semaphoreStep sys (.poll k k) = .ok sys') :
    SysInv (some k) sys' ∧ (OwnWait sys' k .completed none ∨
      ∃ a, OwnWait sys' k .live (some a) ∧ a ∉ sys'.sem.grants) := by
  obtain ⟨q, hq⟩ := h.queue
  obtain ⟨q', -, -, hpoll⟩ := firstPoll_of_fresh hq hfresh hok
  cases hpoll with
  | take hown =>
    refine ⟨h.step hok ?_ ?_, Or.inl hown⟩
    · rintro i waker ⟨⟩
      rfl
    · intro a ha
      rw [hown.nodeOf] at ha
      cases ha
  | enqueue hown _ _ hgrants hnext =>
    refine ⟨h.enqueue hq hok hown hnext, Or.inr ⟨_, hown, ?_⟩⟩
    intro hgranted
    rw [hgrants] at hgranted
    exact Nat.lt_irrefl _ (hq.grants _ hgranted).2

/-- Its second poll. -/
theorem SysInv.secondPoll (h : SysInv (some k) sys) (hown : OwnWait sys k .live (some a))
    (hok : semaphoreStep sys (.poll k k) = .ok sys') :
    SysInv (some k) sys' ∧ OwnWait sys' k .completed (some a) ∧
      sys'.sem.grants = sys.sem.grants := by
  obtain ⟨q, hq⟩ := h.queue
  obtain ⟨q', -, heffect, -⟩ := semaphoreStep_ok hq hok
  obtain ⟨hown', hgrants⟩ := hown.finish heffect
  refine ⟨h.step hok ?_ ?_, hown', hgrants⟩
  · rintro i waker ⟨⟩
    rfl
  · rw [hown.nodeOf, hown'.nodeOf]
    exact fun b hb => hb

/-- It is given up. -/
theorem SysInv.cancel (h : SysInv (some k) sys) (hown : OwnWait sys k .live (some a))
    (hok : semaphoreStep sys (.cleanup k) = .ok sys') :
    SysInv (some k) sys' ∧ OwnWait sys' k .cleaned (some a) ∧ sys'.sem.grants = sys.sem.grants := by
  obtain ⟨q, hq⟩ := h.queue
  obtain ⟨q', -, heffect, -⟩ := semaphoreStep_ok hq hok
  obtain ⟨hown', -, -, hgrants, -⟩ := hown.cancel heffect
  refine ⟨h.step hok (by simp) ?_, hown', hgrants⟩
  rw [hown.nodeOf, hown'.nodeOf]
  exact fun b hb => hb

theorem SysInv.call (h : SysInv none sys) :
    SysInv (some sys.waits.length)
      { sys with waits := sys.waits ++ [⟨semaphoreWait true, .live⟩] } := by
  have hfresh : FreshWait { sys with waits := sys.waits ++ [⟨semaphoreWait true, .live⟩] }
      sys.waits.length := List.getElem?_concat_length
  have hstep : SysInv none { sys with waits := sys.waits ++ [⟨semaphoreWait true, .live⟩] } :=
    h.step (o := .wait true) rfl (by simp) (by simp [SemaphoreSystem.nodeOf])
  refine ⟨hstep.queue, hstep.own, ?_, ?_⟩
  · rintro k ⟨⟩
    rw [List.length_append]
    exact Nat.lt_succ_self _
  · intro a ha
    rw [hfresh.nodeOf] at ha
    cases ha

/-- **What a call by the others does to the call's wait**: nothing, unless it is a signal that takes its
node and calls its waker. -/
theorem SysInv.other {o : OtherOp} (h : SysInv wait sys)
    (hok : semaphoreStep sys (o.beside wait) = .ok sys') :
    SysInv wait sys' ∧ (∀ k ∈ wait, sys'.waits[k]? = sys.waits[k]?) ∧
      ((∀ a ∈ sys.nodeOf wait, a ∈ sys'.sem.grants ↔ a ∈ sys.sem.grants) ∧
          (∀ waker ∈ sys'.woken.drop sys.woken.length, wait ≠ some waker) ∨
        o = .signal ∧ ∃ k a, wait = some k ∧ sys.nodeOf wait = some a ∧
          sys.sem.wakeQueueHead = some a ∧ a ∉ sys.sem.grants ∧ a ∈ sys'.sem.grants ∧
          sys'.woken.drop sys.woken.length = [k]) := by
  obtain ⟨q, hq⟩ := h.queue
  obtain ⟨q', hq', heffect, -⟩ := semaphoreStep_ok hq hok
  have hwaits : ∀ k ∈ wait, sys'.waits[k]? = sys.waits[k]? := by
    rintro k rfl
    exact heffect.other (h.made k rfl)
  have hnode := nodeOf_congr hwaits
  have hpoll : ∀ i waker, o.beside wait = .poll i waker → waker = i := by
    intro i waker ho
    cases o with
    | poll j =>
      cases ho
      rfl
    | wait timed => cases ho
    | cleanup j => cases ho
    | signal => cases ho
  refine ⟨h.step hok hpoll fun a ha => hnode ▸ ha, hwaits, ?_⟩
  by_cases hsignal : o.beside wait = .signal
  · have ho : o = .signal := by
      cases o with
      | signal => rfl
      | wait timed => cases hsignal
      | poll j => cases hsignal
      | cleanup j => cases hsignal
    subst ho
    rcases signal_wakes hq hok with ⟨-, hwoken, hgrants⟩ | ⟨a, n, hhead, hn, hwoken, hgrants⟩
    · refine Or.inl ⟨fun a _ => by rw [hgrants], ?_⟩
      intro waker hwaker
      rw [hwoken, List.drop_length] at hwaker
      cases hwaker
    · rw [hwoken, List.drop_left, hgrants]
      by_cases hmine : sys.nodeOf wait = some a
      · have hwaker := (h.node a hmine).2 n hn
        refine Or.inr ⟨rfl, n.waker, a, hwaker, hmine, ?_, ?_, by simp, rfl⟩
        · cases q with
          | nil => cases hhead
          | cons x q =>
            cases hhead
            exact hq.queue.chain.1
        · intro hgranted
          exact (hq.grants a hgranted).1 (List.mem_of_mem_head? hhead)
      · refine Or.inl ⟨?_, ?_⟩
        · intro b hb
          rw [List.mem_append, List.mem_singleton]
          refine or_iff_left ?_
          rintro rfl
          exact hmine hb
        · rintro waker hwaker rfl
          rw [List.mem_singleton] at hwaker
          subst hwaker
          -- the waker names a wait that has queued the node
          obtain ⟨w, hw, hwnode⟩ := h.own a n hn
          refine hmine ?_
          show sys.waits[n.waker]?.bind _ = _
          rw [show sys.waits[n.waker]? = some w from hw]
          exact hwnode
  · refine Or.inl ⟨fun a _ => by rw [heffect.grants_of_ne hsignal], ?_⟩
    intro waker hwaker
    rw [woken_kept hsignal hok, List.drop_length] at hwaker
    cases hwaker

/-! ## The permit -/

theorem OwnWait.takenBy (h : OwnWait sys k stage (some a)) :
    sys.takenBy (some k) = decide (a ∈ sys.sem.grants) := by
  unfold SemaphoreSystem.takenBy
  rw [h.nodeOf]

theorem OwnWait.takenBy_none (h : OwnWait sys k stage none) :
    sys.takenBy (some k) = decide (stage = .completed) := by
  unfold SemaphoreSystem.takenBy
  rw [h.nodeOf]
  obtain ⟨f, hget, -⟩ := h
  show sys.isCompleted k = _
  rw [SemaphoreSystem.isCompleted, hget]

theorem FreshWait.takenBy (h : FreshWait sys k) : sys.takenBy (some k) = false :=
  h.own.takenBy_none

/-- A permit that is taken stays taken, whatever the others do. -/
theorem takenBy_kept (hwaits : ∀ k ∈ wait, sys'.waits[k]? = sys.waits[k]?)
    (hgrants : ∀ a ∈ sys.sem.grants, a ∈ sys'.sem.grants) (h : sys.takenBy wait = true) :
    sys'.takenBy wait = true := by
  have hnode := nodeOf_congr hwaits
  cases wait with
  | none => cases h
  | some k =>
    have hsame := hwaits k rfl
    unfold SemaphoreSystem.takenBy at h ⊢
    rw [hnode]
    cases hn : sys.nodeOf (some k) with
    | some a =>
      rw [hn] at h
      exact decide_eq_true (hgrants a (of_decide_eq_true h))
    | none =>
      rw [hn] at h
      show sys'.isCompleted k = true
      rw [SemaphoreSystem.isCompleted, hsame]
      exact h

/-! ## Without the call -/

/-- `s₀` is the semaphore without the call, which has taken no permit. -/
def Without (wait : Option Nat) (sys s₀ : SemaphoreSystem Nat) : Prop :=
  ∃ q q₀, WakeQueue q sys ∧ WakeQueue q₀ s₀ ∧ Erased wait (sys.nodeOf wait) q q₀ sys s₀

theorem without_init (permits : UInt64) :
    Without none (semaphoreSystem Nat permits) (semaphoreSystem Nat permits) :=
  ⟨[], [], wakeQueue_init permits, wakeQueue_init permits, erased_refl _⟩

theorem Without.call (h : Without none sys s₀) :
    Without (some sys.waits.length)
      { sys with waits := sys.waits ++ [⟨semaphoreWait true, .live⟩] } s₀ := by
  obtain ⟨q, q₀, hq, hq₀, herased⟩ := h
  refine ⟨q, q₀, hq.newWait true, hq₀, ?_⟩
  have hfresh : FreshWait { sys with waits := sys.waits ++ [⟨semaphoreWait true, .live⟩] }
      sys.waits.length := List.getElem?_concat_length
  rw [hfresh.nodeOf]
  exact herased.made true

theorem Without.other {o : OtherOp} (h : Without wait sys s₀)
    (hok : semaphoreStep sys (o.beside wait) = .ok sys')
    (hwaits : ∀ k ∈ wait, sys'.waits[k]? = sys.waits[k]?)
    (hfree : ∀ a ∈ sys.nodeOf wait, a ∉ sys'.sem.grants) :
    ∃ s₀', semaphoreStep s₀ (o.beside none) = .ok s₀' ∧ Without wait sys' s₀' := by
  obtain ⟨q, q₀, hq, hq₀, herased⟩ := h
  have hhead : o = .signal → ∀ a ∈ sys.nodeOf wait, q.head? ≠ some a := by
    rintro rfl a ha hhead
    rcases signal_wakes hq hok with ⟨rfl, -⟩ | ⟨b, n, hfirst, -, -, hgrants⟩
    · cases hhead
    · rw [hhead] at hfirst
      cases hfirst
      exact hfree a ha (by rw [hgrants]; simp)
  obtain ⟨q', q₀', s₀', hok₀, hq', hq₀', herased'⟩ := erased_step herased hq hq₀ hhead hok
  refine ⟨s₀', hok₀, q', q₀', hq', hq₀', ?_⟩
  have hnode := nodeOf_congr hwaits
  rw [hnode]
  exact herased'

theorem Without.enqueue {waker : Nat} (h : Without (some k) sys s₀) (hfresh : FreshWait sys k)
    (hok : semaphoreStep sys (.poll k waker) = .ok sys') (hfree : sys'.takenBy (some k) = false) :
    Without (some k) sys' s₀ := by
  obtain ⟨q, q₀, hq, hq₀, herased⟩ := h
  obtain ⟨q', hq', -, hpoll⟩ := firstPoll_of_fresh hq hfresh hok
  rw [hfresh.nodeOf] at herased
  cases hpoll with
  | take hown =>
    rw [hown.takenBy_none] at hfree
    cases hfree
  | enqueue hown hwaits hcounter hgrants hnext hqq =>
    refine ⟨q', q₀, hq', hq₀, ?_⟩
    rw [hown.nodeOf, hqq]
    exact herased.enqueue hq hwaits hcounter hgrants hnext

theorem Without.cancel (h : Without (some k) sys s₀) (hown : OwnWait sys k .live (some a))
    (hok : semaphoreStep sys (.cleanup k) = .ok sys') : Without (some k) sys' s₀ := by
  obtain ⟨q, q₀, hq, hq₀, herased⟩ := h
  obtain ⟨q', hq', heffect, -⟩ := semaphoreStep_ok hq hok
  obtain ⟨hown', ⟨v, hwaits⟩, hcounter, hgrants, hqq⟩ := hown.cancel heffect
  have hnext := nextNode_step hq heffect hok
  rw [hqq, Nat.sub_self] at hnext
  refine ⟨q', q₀, hq', hq₀, ?_⟩
  rw [hown.nodeOf] at herased
  rw [hown'.nodeOf, hqq]
  exact herased.setOwn hwaits hcounter hgrants hnext

end Taskio
