import Taskio.Sync.WaitQueue

/-!
# A wait that no signal reaches

A wait in the queue that no signal takes changes nothing for the others: the same calls, on a
semaphore on which this wait was never made, leave the same permits and the same grants. The two runs
number the waits and the nodes differently, for one of them has made one more of each (`skip`).

* `Erased` — the two states against each other
* `erased_step` — every call of the others keeps them so, unless a signal takes the wait's node
* `Erased.enqueue`, `Erased.cancel` — what the wait itself does
* `Erased.standing` — the others cannot tell the two states apart
-/

namespace Taskio

variable {W : Type} {s s' s₀ : SemaphoreSystem W} {q q' q₀ : List Nat} {o : SemaphoreOp W}
  {i j a b n : Nat} {own wait node : Option Nat}

/-! ## Addresses -/

theorem nodeDrop_nextNode {sem sem' : Semaphore W} {willWake : Bool}
    (h : nodeDrop sem a willWake = .ok sem') : sem'.nextNode = sem.nextNode := by
  unfold nodeDrop at h
  obtain ⟨n, -, h⟩ := bind_eq_ok.mp h
  simp only at h
  split at h
  · cases h
    rfl
  · cases h
    rfl

theorem cleanupWait_nextNode {sem sem' : Semaphore W} {f f' : WaitFuture}
    (h : cleanupWait sem f = .ok (sem', f')) : sem'.nextNode = sem.nextNode := by
  unfold cleanupWait semaphoreWaitPoll at h
  obtain ⟨⟨sem₁, f₁, poll⟩, hpoll, h⟩ := bind_eq_ok.mp h
  cases h
  rw [if_pos rfl] at hpoll
  split at hpoll
  · obtain ⟨sem₂, hdrop, hpoll⟩ := bind_eq_ok.mp hpoll
    cases hpoll
    exact nodeDrop_nextNode hdrop
  · cases hpoll
    rfl

theorem signalAsync_nextNode {sem sem' : Semaphore W} {called : Option W}
    (h : signalAsync sem = .ok (sem', called)) : sem'.nextNode = sem.nextNode := by
  unfold signalAsync at h
  split at h
  · cases h
  · obtain ⟨n, -, h⟩ := bind_eq_ok.mp h
    obtain ⟨sem₁, hdrop, h⟩ := bind_eq_ok.mp h
    cases h
    exact (nodeDrop_nextNode hdrop).trans rfl

theorem semaphoreSignal_nextNode {sem sem' : Semaphore W} {called : Option W}
    (h : semaphoreSignal sem = .ok (sem', called)) : sem'.nextNode = sem.nextNode := by
  unfold semaphoreSignal at h
  split at h
  · simp only at h
    split at h
    · exact (signalAsync_nextNode h).trans rfl
    · cases h
      rfl
  · split at h
    · exact signalAsync_nextNode h
    · split at h
      · cases h
        rfl
      · cases h
        rfl

/-- Only a wait that is queued allocates. -/
theorem nextNode_step (h : WakeQueue q s) (heffect : Effect s s' q q' o)
    (hok : semaphoreStep s o = .ok s') :
    s'.sem.nextNode = s.sem.nextNode + (q'.length - q.length) := by
  cases heffect with
  | wait timed hwaits hsem hq => rw [hsem, hq, Nat.sub_self, Nat.add_zero]
  | @take i waker f f' hget hnode hpos hwaits hcounter hgrants hq =>
    rw [hq, Nat.sub_self, Nat.add_zero]
    rcases h.stage _ (List.mem_of_getElem? hget) rfl with ⟨hf, -⟩ | ⟨-, hsome⟩
    · simp only [semaphoreStep, hget, pollWait_take hf hnode hpos, ok_bind] at hok
      obtain ⟨⟨sem, f₁⟩, hcleanup, hok⟩ := bind_eq_ok.mp hok
      cases hok
      exact (cleanupWait_nextNode hcleanup).trans rfl
    · exact absurd hnode hsome
  | @enqueue i waker f f' hget hnode hzero hwaits hnode' hcounter hgrants hq =>
    rw [hq, List.length_append, List.length_singleton, Nat.add_sub_cancel_left]
    rcases h.stage _ (List.mem_of_getElem? hget) rfl with ⟨hf, -⟩ | ⟨-, hsome⟩
    · obtain ⟨sem, henqueue, -, -, -, -, hnext, -⟩ := waitEnqueue_ok h f.timed waker
      simp only [semaphoreStep, hget, pollWait_enqueue hf hzero henqueue, ok_bind] at hok
      cases hok
      exact hnext
    · exact absurd hnode hsome
  | @finish i waker f f' a hget hnode hwaits hnode' hcounter hgrants hq =>
    rw [hq, Nat.sub_self, Nat.add_zero]
    rcases h.stage _ (List.mem_of_getElem? hget) rfl with ⟨-, hnone⟩ | ⟨hf, -⟩
    · exact absurd (hnode.symm.trans hnone) (by simp)
    · simp only [semaphoreStep, hget, pollWait_finish hf, ok_bind] at hok
      obtain ⟨⟨sem, f₁⟩, hcleanup, hok⟩ := bind_eq_ok.mp hok
      cases hok
      exact cleanupWait_nextNode hcleanup
  | @cancel i f f' hget hwaits hnode' hcounter hgrants hq =>
    rw [hq, Nat.sub_self, Nat.add_zero]
    simp only [semaphoreStep, hget] at hok
    obtain ⟨⟨sem, f₁⟩, hcleanup, hok⟩ := bind_eq_ok.mp hok
    cases hok
    exact cleanupWait_nextNode hcleanup
  | grant hqueue hwaits hcounter hgrants =>
    rw [hqueue, List.length_cons, Nat.sub_eq_zero_of_le (Nat.le_succ _)]
    obtain ⟨⟨sem, called⟩, hsignal, hok⟩ := bind_eq_ok.mp hok
    cases hok
    exact semaphoreSignal_nextNode hsignal
  | post hqueue hwaits hcounter hgrants hq =>
    rw [hqueue, hq, Nat.sub_self]
    obtain ⟨⟨sem, called⟩, hsignal, hok⟩ := bind_eq_ok.mp hok
    cases hok
    exact semaphoreSignal_nextNode hsignal

/-! ## The numbers of the others -/

/-- The number that is `b` when the number `own` is left out. -/
def skip (own : Option Nat) (b : Nat) : Nat :=
  match own with
  | none => b
  | some a => if b < a then b else b + 1

@[simp] theorem skip_none : skip none = id := rfl

theorem skip_of_lt (h : b < a) : skip (some a) b = b := if_pos h

theorem skip_of_le (h : a ≤ b) : skip (some a) b = b + 1 := if_neg (by omega)

theorem skip_ne (h : own = some a) : skip own b ≠ a := by
  subst h
  unfold skip
  simp only
  split <;> omega

theorem skip_lt_iff : skip own b < skip own n ↔ b < n := by
  unfold skip
  cases own with
  | none => exact Iff.rfl
  | some a =>
    simp only
    split
    · split <;> omega
    · split <;> omega

theorem skip_inj : skip own b = skip own n ↔ b = n := by
  have h : skip own b < skip own n ↔ b < n := skip_lt_iff
  have h' : skip own n < skip own b ↔ n < b := skip_lt_iff
  constructor
  · intro he
    omega
  · rintro rfl
    rfl

theorem skip_add (h : ∀ a ∈ own, a ≤ n) (m : Nat) : skip own (n + m) = skip own n + m := by
  cases own with
  | none => rfl
  | some a =>
    have hle : a ≤ n := h a rfl
    rw [skip_of_le hle, skip_of_le (by omega)]
    omega

/-! ## The two states -/

/-- One of the other waits, with and without the call. -/
structure SameWait (node : Option Nat) (w w₀ : Wait) : Prop where
  stage : w.stage = w₀.stage
  node : w₀.stage = .live → w.future.node = w₀.future.node.map (skip node)

/--
`s₀` is `s` without the wait `wait` and its node `node`. The queues are `q` and `q₀`. No signal has
taken the node, and the wait has taken no permit.
-/
structure Erased (wait node : Option Nat) (q q₀ : List Nat) (s s₀ : SemaphoreSystem W) : Prop where
  counter : s.sem.counter = s₀.sem.counter
  queue : q.filter (fun b => some b ≠ node) = q₀.map (skip node)
  grants : s.sem.grants = s₀.sem.grants.map (skip node)
  nextNode : s.sem.nextNode = skip node s₀.sem.nextNode
  length : s.waits.length = skip wait s₀.waits.length
  nodeMade : ∀ a ∈ node, a ≤ s₀.sem.nextNode
  waitMade : ∀ k ∈ wait, k ≤ s₀.waits.length
  waits : ∀ j w₀, s₀.waits[j]? = some w₀ →
    ∃ w, s.waits[skip wait j]? = some w ∧ SameWait node w w₀

theorem erased_refl (s : SemaphoreSystem W) : Erased none none q q s s where
  counter := rfl
  queue := by simp
  grants := by simp
  nextNode := rfl
  length := rfl
  nodeMade := by simp
  waitMade := by simp
  waits j w₀ hw₀ := ⟨w₀, hw₀, rfl, fun _ => by simp⟩

/-- Both have the other wait, or neither. -/
theorem Erased.getElem? (h : Erased wait node q q₀ s s₀) {w : Wait}
    (hw : s.waits[skip wait j]? = some w) :
    ∃ w₀, s₀.waits[j]? = some w₀ ∧ SameWait node w w₀ := by
  have hlt := (List.getElem?_eq_some_iff.mp hw).1
  rw [h.length, skip_lt_iff] at hlt
  obtain ⟨w', hw', hsame⟩ := h.waits j _ (List.getElem?_eq_getElem hlt)
  rw [hw] at hw'
  cases hw'
  exact ⟨_, List.getElem?_eq_getElem hlt, hsame⟩

/-- A live wait, with its node. -/
theorem Erased.live (h : Erased wait node q q₀ s s₀) {f : WaitFuture}
    (hw : s.waits[skip wait j]? = some ⟨f, .live⟩) :
    ∃ f₀, s₀.waits[j]? = some ⟨f₀, .live⟩ ∧ f.node = f₀.node.map (skip node) := by
  obtain ⟨⟨f₀, stage⟩, hw₀, hstage, hnode⟩ := h.getElem? hw
  cases hstage
  exact ⟨f₀, hw₀, hnode rfl⟩

/-- The same wait is replaced in both. -/
theorem Erased.setWait (h : Erased wait node q q₀ s s₀) {v v₀ : Wait} (hv : SameWait node v v₀)
    {w₀ : Wait} (hw₀ : (s₀.waits.set j v₀)[i]? = some w₀) :
    ∃ w, (s.waits.set (skip wait j) v)[skip wait i]? = some w ∧ SameWait node w w₀ := by
  by_cases hij : j = i
  · subst hij
    have hlt := (List.getElem?_eq_some_iff.mp hw₀).1
    rw [List.length_set] at hlt
    rw [List.getElem?_set_self hlt] at hw₀
    cases hw₀
    refine ⟨v, ?_, hv⟩
    rw [List.getElem?_set_self]
    rw [h.length, skip_lt_iff]
    exact hlt
  · rw [List.getElem?_set_ne hij] at hw₀
    rw [List.getElem?_set_ne (fun he => hij (skip_inj.mp he))]
    exact h.waits i w₀ hw₀

theorem Erased.replace {s₀' : SemaphoreSystem W} {q₀' : List Nat} (h : Erased wait node q q₀ s s₀)
    {v v₀ : Wait} (hwaits : s'.waits = s.waits.set (skip wait j) v)
    (hwaits₀ : s₀'.waits = s₀.waits.set j v₀) (hv : SameWait node v v₀)
    (hcounter : s'.sem.counter = s₀'.sem.counter)
    (hqueue : q'.filter (fun b => some b ≠ node) = q₀'.map (skip node))
    (hgrants : s'.sem.grants = s.sem.grants) (hgrants₀ : s₀'.sem.grants = s₀.sem.grants)
    (hnext : s'.sem.nextNode = s.sem.nextNode + n)
    (hnext₀ : s₀'.sem.nextNode = s₀.sem.nextNode + n) : Erased wait node q' q₀' s' s₀' where
  counter := hcounter
  queue := hqueue
  grants := by rw [hgrants, hgrants₀, h.grants]
  nextNode := by rw [hnext, hnext₀, h.nextNode, skip_add h.nodeMade]
  length := by rw [hwaits, hwaits₀, List.length_set, List.length_set, h.length]
  nodeMade a ha := by
    rw [hnext₀]
    exact Nat.le_add_right_of_le (h.nodeMade a ha)
  waitMade k hk := by
    rw [hwaits₀, List.length_set]
    exact h.waitMade k hk
  waits i w₀ hw₀ := by
    rw [hwaits₀] at hw₀
    rw [hwaits]
    exact h.setWait hv hw₀

/-! ## The calls of the others -/

/-- A poll of another wait. -/
theorem Erased.poll {waker waker₀ : W} (h : Erased wait node q q₀ s s₀) (hq₀ : WakeQueue q₀ s₀)
    (heffect : Effect s s' q q' (.poll (skip wait j) waker))
    (hnext : s'.sem.nextNode = s.sem.nextNode + (q'.length - q.length)) :
    ∃ s₀' q₀', semaphoreStep s₀ (.poll j waker₀) = .ok s₀' ∧ WakeQueue q₀' s₀' ∧
      Erased wait node q' q₀' s' s₀' := by
  have hlive : ∃ f, s.waits[skip wait j]? = some ⟨f, .live⟩ := by
    cases heffect with
    | take hget => exact ⟨_, hget⟩
    | enqueue hget => exact ⟨_, hget⟩
    | finish hget => exact ⟨_, hget⟩
  obtain ⟨f, hget⟩ := hlive
  obtain ⟨f₀, hget₀, hnode⟩ := h.live hget
  obtain ⟨s₀', q₀', hok₀, hq₀', heffect₀, -⟩ := poll_effect hq₀ hget₀ waker₀
  have hnext₀ := nextNode_step hq₀ heffect₀ hok₀
  refine ⟨s₀', q₀', hok₀, hq₀', ?_⟩
  -- the two polls find the same counter, and a node both or neither
  have hcounter := h.counter
  have hsame : ∀ {f' : WaitFuture}, s.waits[skip wait j]? = some ⟨f', .live⟩ → f' = f :=
    fun hf' => by simpa [hget] using hf'.symm
  have hsame₀ : ∀ {f' : WaitFuture}, s₀.waits[j]? = some ⟨f', .live⟩ → f' = f₀ :=
    fun hf' => by simpa [hget₀] using hf'.symm
  cases heffect with
  | take hget₁ hnone hpos hwaits hless hgrants hqq =>
    cases heffect₀ with
    | take hget₂ _ _ hwaits₀ hless₀ hgrants₀ hqq₀ =>
      rw [hqq, Nat.sub_self] at hnext
      rw [hqq₀, Nat.sub_self] at hnext₀
      subst hqq hqq₀
      exact h.replace hwaits hwaits₀ ⟨rfl, by simp⟩ (by omega) h.queue hgrants hgrants₀ hnext hnext₀
    | enqueue _ _ hzero => omega
    | finish hget₂ hsome =>
      rw [hsame hget₁] at hnone
      rw [hsame₀ hget₂] at hsome
      rw [hnone, hsome] at hnode
      cases hnode
  | enqueue hget₁ hnone hzero hwaits hnode' hless hgrants hqq =>
    cases heffect₀ with
    | take _ _ hpos => omega
    | enqueue hget₂ _ _ hwaits₀ hnode₀' hless₀ hgrants₀ hqq₀ =>
      rw [hqq, List.length_append, Nat.add_sub_cancel_left] at hnext
      rw [hqq₀, List.length_append, Nat.add_sub_cancel_left] at hnext₀
      subst hqq hqq₀
      refine h.replace hwaits hwaits₀ ⟨rfl, ?_⟩ (by omega) ?_ hgrants hgrants₀ hnext hnext₀
      · intro _
        rw [hnode', hnode₀', h.nextNode]
        rfl
      · have hne : some s.sem.nextNode ≠ node := by
          intro he
          exact skip_ne he.symm h.nextNode.symm
        rw [List.filter_append, h.queue, List.map_append, List.filter_cons_of_pos (by simpa using hne),
          List.filter_nil, h.nextNode]
        rfl
    | finish hget₂ hsome =>
      rw [hsame hget₁] at hnone
      rw [hsame₀ hget₂] at hsome
      rw [hnone, hsome] at hnode
      cases hnode
  | finish hget₁ hsome hwaits hnode' hless hgrants hqq =>
    rw [hsame hget₁] at hsome
    cases heffect₀ with
    | take hget₂ hnone =>
      rw [hsame₀ hget₂] at hnone
      rw [hsome, hnone] at hnode
      cases hnode
    | enqueue hget₂ hnone =>
      rw [hsame₀ hget₂] at hnone
      rw [hsome, hnone] at hnode
      cases hnode
    | finish hget₂ _ hwaits₀ hnode₀' hless₀ hgrants₀ hqq₀ =>
      rw [hqq, Nat.sub_self] at hnext
      rw [hqq₀, Nat.sub_self] at hnext₀
      subst hqq hqq₀
      exact h.replace hwaits hwaits₀ ⟨rfl, by simp⟩ (by omega) h.queue hgrants hgrants₀ hnext hnext₀

/-- Another wait is given up. -/
theorem Erased.cleanup (h : Erased wait node q q₀ s s₀) (hq₀ : WakeQueue q₀ s₀)
    (heffect : Effect s s' q q' (.cleanup (skip wait j)))
    (hnext : s'.sem.nextNode = s.sem.nextNode + (q'.length - q.length)) :
    ∃ s₀' q₀', semaphoreStep s₀ (.cleanup j) = .ok s₀' ∧ WakeQueue q₀' s₀' ∧
      Erased wait node q' q₀' s' s₀' := by
  cases heffect with
  | cancel hget hwaits _ hcounter hgrants hqq =>
    obtain ⟨f₀, hget₀, -⟩ := h.live hget
    obtain ⟨s₀', q₀', hok₀, hq₀', heffect₀, -⟩ := cleanup_effect hq₀ hget₀
    have hnext₀ := nextNode_step hq₀ heffect₀ hok₀
    refine ⟨s₀', q₀', hok₀, hq₀', ?_⟩
    cases heffect₀ with
    | cancel _ hwaits₀ _ hcounter₀ hgrants₀ hqq₀ =>
      rw [hqq, Nat.sub_self] at hnext
      rw [hqq₀, Nat.sub_self] at hnext₀
      subst hqq hqq₀
      refine h.replace hwaits hwaits₀ ⟨rfl, by simp⟩ ?_ h.queue hgrants hgrants₀ hnext hnext₀
      rw [hcounter, hcounter₀, h.counter]

/-- A signal that does not take the node. -/
theorem Erased.signal (h : Erased wait node q q₀ s s₀) (hq₀ : WakeQueue q₀ s₀)
    (heffect : Effect s s' q q' .signal) (hhead : ∀ a ∈ node, q.head? ≠ some a)
    (hnext : s'.sem.nextNode = s.sem.nextNode + (q'.length - q.length)) :
    ∃ s₀' q₀', semaphoreStep s₀ .signal = .ok s₀' ∧ WakeQueue q₀' s₀' ∧
      Erased wait node q' q₀' s' s₀' := by
  obtain ⟨s₀', q₀', hok₀, hq₀', heffect₀, -⟩ := signal_effect hq₀
  have hnext₀ := nextNode_step hq₀ heffect₀ hok₀
  refine ⟨s₀', q₀', hok₀, hq₀', ?_⟩
  have hqueue := h.queue
  cases heffect with
  | @grant a hq hwaits hcounter hgrants =>
    subst hq
    rw [List.length_cons, Nat.sub_eq_zero_of_le (Nat.le_succ _)] at hnext
    have hne : some a ≠ node := fun he => hhead a he.symm rfl
    rw [List.filter_cons_of_pos (by simpa using hne)] at hqueue
    cases heffect₀ with
    | @grant a₀ hq₀ hwaits₀ hcounter₀ hgrants₀ =>
      subst hq₀
      rw [List.length_cons, Nat.sub_eq_zero_of_le (Nat.le_succ _)] at hnext₀
      rw [List.map_cons, List.cons.injEq] at hqueue
      refine ⟨?_, hqueue.2, ?_, ?_, ?_, ?_, ?_, ?_⟩
      · rw [hcounter, hcounter₀, h.counter]
      · rw [hgrants, hgrants₀, h.grants, hqueue.1, List.map_append]
        rfl
      · rw [hnext, hnext₀]
        exact h.nextNode
      · rw [hwaits, hwaits₀, h.length]
      · rw [hnext₀]
        exact h.nodeMade
      · rw [hwaits₀]
        exact h.waitMade
      · rw [hwaits, hwaits₀]
        exact h.waits
    | post hq₀ =>
      rw [hq₀] at hqueue
      cases hqueue
  | post hq hwaits hcounter hgrants hqq =>
    subst hq hqq
    cases heffect₀ with
    | grant hq₀ =>
      rw [hq₀] at hqueue
      cases hqueue
    | post hq₀ hwaits₀ hcounter₀ hgrants₀ hqq₀ =>
      subst hq₀ hqq₀
      refine ⟨?_, rfl, ?_, ?_, ?_, ?_, ?_, ?_⟩
      · rw [hcounter, hcounter₀, h.counter]
      · rw [hgrants, hgrants₀, h.grants]
      · rw [hnext, hnext₀]
        exact h.nextNode
      · rw [hwaits, hwaits₀, h.length]
      · rw [hnext₀]
        exact h.nodeMade
      · rw [hwaits₀]
        exact h.waitMade
      · rw [hwaits, hwaits₀]
        exact h.waits

/-- Another wait is made. -/
theorem Erased.newWait (h : Erased wait node q q₀ s s₀) (timed : Bool) :
    Erased wait node q q₀ { s with waits := s.waits ++ [⟨semaphoreWait timed, .live⟩] }
      { s₀ with waits := s₀.waits ++ [⟨semaphoreWait timed, .live⟩] } where
  counter := h.counter
  queue := h.queue
  grants := h.grants
  nextNode := h.nextNode
  length := by
    rw [List.length_append, List.length_append, h.length]
    exact (skip_add h.waitMade 1).symm
  nodeMade := h.nodeMade
  waitMade k hk := by
    have hle := h.waitMade k hk
    rw [List.length_append]
    omega
  waits i w₀ hw₀ := by
    rcases Nat.lt_or_ge i s₀.waits.length with hlt | hge
    · rw [List.getElem?_append_left hlt] at hw₀
      rw [List.getElem?_append_left (by rw [h.length, skip_lt_iff]; exact hlt)]
      exact h.waits i w₀ hw₀
    · have hlast := (List.getElem?_eq_some_iff.mp hw₀).1
      rw [List.length_append, List.length_singleton] at hlast
      obtain rfl : i = s₀.waits.length := by omega
      rw [List.getElem?_concat_length] at hw₀
      cases hw₀
      refine ⟨⟨semaphoreWait timed, .live⟩, ?_, rfl, fun _ => rfl⟩
      rw [← h.length, List.getElem?_concat_length]

/-- A call that is not one of the wait's. Waits are named by their numbers without it. -/
inductive OtherOp where
  | wait (timed : Bool)
  | poll (j : Nat)
  | cleanup (j : Nat)
  | signal
deriving DecidableEq, Repr

/-- The call, on a semaphore where the wait `wait` was made. The wakers name the waits. -/
def OtherOp.beside (wait : Option Nat) : OtherOp → SemaphoreOp Nat
  | .wait timed => .wait timed
  | .poll j => .poll (skip wait j) (skip wait j)
  | .cleanup j => .cleanup (skip wait j)
  | .signal => .signal

/-- **The call does the same without the wait**, unless it is a signal that takes the wait's node. -/
theorem erased_step {s s' s₀ : SemaphoreSystem Nat} {o : OtherOp} (h : Erased wait node q q₀ s s₀)
    (hq : WakeQueue q s) (hq₀ : WakeQueue q₀ s₀)
    (hhead : o = .signal → ∀ a ∈ node, q.head? ≠ some a)
    (hok : semaphoreStep s (o.beside wait) = .ok s') :
    ∃ q' q₀' s₀', semaphoreStep s₀ (o.beside none) = .ok s₀' ∧ WakeQueue q' s' ∧
      WakeQueue q₀' s₀' ∧ Erased wait node q' q₀' s' s₀' := by
  obtain ⟨q', hq', heffect, -⟩ := semaphoreStep_ok hq hok
  have hnext := nextNode_step hq heffect hok
  cases o with
  | wait timed =>
    cases hok
    cases heffect with
    | wait _ _ _ hqq =>
      subst hqq
      exact ⟨q', q₀, _, rfl, hq', hq₀.newWait timed, h.newWait timed⟩
  | poll j =>
    obtain ⟨s₀', q₀', hok₀, hq₀', herased⟩ := h.poll hq₀ heffect hnext
    exact ⟨q', q₀', s₀', hok₀, hq', hq₀', herased⟩
  | cleanup j =>
    obtain ⟨s₀', q₀', hok₀, hq₀', herased⟩ := h.cleanup hq₀ heffect hnext
    exact ⟨q', q₀', s₀', hok₀, hq', hq₀', herased⟩
  | signal =>
    obtain ⟨s₀', q₀', hok₀, hq₀', herased⟩ := h.signal hq₀ heffect (hhead rfl) hnext
    exact ⟨q', q₀', s₀', hok₀, hq', hq₀', herased⟩

/-! ## The wait itself -/

/-- A wait is made. Only this run knows of it. -/
theorem Erased.made (h : Erased none none q q₀ s s₀) (timed : Bool) :
    Erased (some s.waits.length) none q q₀
      { s with waits := s.waits ++ [⟨semaphoreWait timed, .live⟩] } s₀ where
  counter := h.counter
  queue := h.queue
  grants := h.grants
  nextNode := h.nextNode
  length := by
    have hlength : s.waits.length = s₀.waits.length := h.length
    rw [skip_of_le hlength.le, ← hlength, List.length_append, List.length_singleton]
  nodeMade := by simp
  waitMade := by
    rintro k ⟨⟩
    exact h.length.le
  waits j w₀ hw₀ := by
    obtain ⟨w, hw, hsame⟩ := h.waits j w₀ hw₀
    have hlt : j < s.waits.length := (List.getElem?_eq_some_iff.mp hw).1
    refine ⟨w, ?_, hsame⟩
    rw [skip_of_lt hlt, List.getElem?_append_left hlt]
    exact hw

/-- It is replaced. The others do not look at it. -/
theorem Erased.setOwn {k : Nat} (h : Erased (some k) node q q₀ s s₀) {v : Wait}
    (hwaits : s'.waits = s.waits.set k v) (hcounter : s'.sem.counter = s.sem.counter)
    (hgrants : s'.sem.grants = s.sem.grants) (hnext : s'.sem.nextNode = s.sem.nextNode) :
    Erased (some k) node q q₀ s' s₀ where
  counter := hcounter.trans h.counter
  queue := h.queue
  grants := hgrants.trans h.grants
  nextNode := hnext.trans h.nextNode
  length := by
    rw [hwaits, List.length_set]
    exact h.length
  nodeMade := h.nodeMade
  waitMade := h.waitMade
  waits j w₀ hw₀ := by
    obtain ⟨w, hw, hsame⟩ := h.waits j w₀ hw₀
    refine ⟨w, ?_, hsame⟩
    rw [hwaits, List.getElem?_set_ne (skip_ne rfl).symm]
    exact hw

/-- It finds no permit and is queued, at an address that the other run has not given. -/
theorem Erased.enqueue {k : Nat} (h : Erased (some k) none q q₀ s s₀) (hq : WakeQueue q s) {v : Wait}
    (hwaits : s'.waits = s.waits.set k v) (hcounter : s'.sem.counter = s.sem.counter)
    (hgrants : s'.sem.grants = s.sem.grants) (hnext : s'.sem.nextNode = s.sem.nextNode + 1) :
    Erased (some k) (some s.sem.nextNode) (q ++ [s.sem.nextNode]) q₀ s' s₀ := by
  have hnext₀ : s.sem.nextNode = s₀.sem.nextNode := h.nextNode
  obtain ⟨hqueued, hnodes⟩ := hq.lt_nextNode
  -- all that there is has kept its address
  have hold : ∀ l : List Nat, (∀ b ∈ l, b < s.sem.nextNode) →
      l.map (skip (some s.sem.nextNode)) = l := by
    intro l hl
    rw [List.map_congr_left fun b hb => skip_of_lt (hl b hb), List.map_id']
  have hqueue : q = q₀ := by simpa using h.queue
  have hgranted : s.sem.grants = s₀.sem.grants := by simpa using h.grants
  refine ⟨hcounter.trans h.counter, ?_, ?_, ?_, ?_, ?_, h.waitMade, ?_⟩
  · rw [List.filter_append, hold q₀ (hqueue ▸ hqueued), List.filter_cons_of_neg (by simp),
      List.filter_nil, List.append_nil, ← hqueue]
    refine List.filter_eq_self.mpr ?_
    intro b hb
    have hlt := hqueued b hb
    simp only [ne_eq, Option.some.injEq, decide_eq_true_eq]
    omega
  · rw [hgrants, hgranted, hold _ fun b hb => (hq.grants b (hgranted ▸ hb)).2]
  · rw [hnext, ← hnext₀, skip_of_le (Nat.le_refl _)]
  · rw [hwaits, List.length_set]
    exact h.length
  · rintro a ⟨⟩
    exact hnext₀.le
  · intro j w₀ hw₀
    obtain ⟨w, hw, hstage, hnode⟩ := h.waits j w₀ hw₀
    refine ⟨w, ?_, hstage, ?_⟩
    · rw [hwaits, List.getElem?_set_ne (skip_ne rfl).symm]
      exact hw
    · intro hlive
      have hnode := hnode hlive
      rw [skip_none, Option.map_id] at hnode
      rw [hnode]
      cases hb : w₀.future.node with
      | none => rfl
      | some b =>
        have hlt := hnodes w (List.mem_of_getElem? hw) (hstage.trans hlive) b (hnode.trans hb)
        rw [Option.map_some, skip_of_lt hlt]
        rfl

/-! ## What the others see -/

/-- Where a wait stands: its stage, and while it waits whether a signal has taken its node. -/
def SemaphoreSystem.standing (s : SemaphoreSystem W) (j : Nat) : Option (WaitStage × Bool) :=
  s.waits[j]?.map fun w =>
    (w.stage, w.stage = .live && w.future.node.any fun a => decide (a ∈ s.sem.grants))

/-- **The others cannot tell the two states apart**: the same permits, and each of them stands where it
would stand. -/
theorem Erased.standing (h : Erased wait node q q₀ s s₀) :
    s.sem.counter = s₀.sem.counter ∧ ∀ j, s.standing (skip wait j) = s₀.standing j := by
  refine ⟨h.counter, ?_⟩
  intro j
  unfold SemaphoreSystem.standing
  cases hw₀ : s₀.waits[j]? with
  | none =>
    have hge : s.waits.length ≤ skip wait j := by
      rw [h.length, ← Nat.not_lt, skip_lt_iff, Nat.not_lt]
      exact List.getElem?_eq_none_iff.mp hw₀
    rw [List.getElem?_eq_none hge]
    rfl
  | some w₀ =>
    obtain ⟨w, hw, hstage, hnode⟩ := h.waits j w₀ hw₀
    rw [hw, Option.map_some, Option.map_some, hstage]
    by_cases hlive : w₀.stage = .live
    · rw [hnode hlive, h.grants]
      cases hb : w₀.future.node with
      | none => rfl
      | some b =>
        have hmem : skip node b ∈ s₀.sem.grants.map (skip node) ↔ b ∈ s₀.sem.grants :=
          List.mem_map_of_injective fun _ _ => skip_inj.mp
        simp only [Option.map_some, Option.any_some, hmem]
    · simp [hlive]

end Taskio
