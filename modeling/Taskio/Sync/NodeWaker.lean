import Taskio.Sync.WaitQueue

/-!
# Whose waker a node holds

A node keeps its waker from its allocation to the signal that calls it.

* `ownWakers_step` — the waker of every node is that of the wait that queued it
* `signal_wakes` — a signal calls the waker of the node it takes
-/

namespace Taskio

variable {W : Type}

/-! ## Waits and their nodes -/

section Effect

variable {s s' : SemaphoreSystem W} {q q' : List Nat} {o : SemaphoreOp W}

/-- A wait that is replaced keeps the node it had. -/
theorem getElem?_set_node {waits : List Wait} {i j a : Nat} {w v : Wait} {f : WaitFuture}
    {stage : WaitStage} (hget : waits[i]? = some ⟨f, stage⟩)
    (hv : f.node = some a → v.future.node = some a) (hw : waits[j]? = some w)
    (hnode : w.future.node = some a) :
    ∃ w', (waits.set i v)[j]? = some w' ∧ w'.future.node = some a := by
  by_cases hij : i = j
  · subst hij
    rw [hget] at hw
    cases hw
    refine ⟨v, ?_, hv hnode⟩
    rw [List.getElem?_set_self (List.getElem?_eq_some_iff.mp hget).1]
  · exact ⟨w, by rw [List.getElem?_set_ne hij]; exact hw, hnode⟩

/-- A wait never changes its node. -/
theorem Effect.node_kept (h : Effect s s' q q' o) {j a : Nat} {w : Wait}
    (hw : s.waits[j]? = some w) (hnode : w.future.node = some a) :
    ∃ w', s'.waits[j]? = some w' ∧ w'.future.node = some a := by
  cases h with
  | wait timed hwaits =>
    refine ⟨w, ?_, hnode⟩
    rw [hwaits, List.getElem?_append_left (List.getElem?_eq_some_iff.mp hw).1]
    exact hw
  | take hget hnone _ hwaits =>
    rw [hwaits]
    exact getElem?_set_node hget (fun hf => nomatch hnone.symm.trans hf) hw hnode
  | enqueue hget hnone _ hwaits =>
    rw [hwaits]
    exact getElem?_set_node hget (fun hf => nomatch hnone.symm.trans hf) hw hnode
  | finish hget hsome hwaits hnode' =>
    rw [hwaits]
    exact getElem?_set_node hget (fun hf => hnode'.trans (hsome.symm.trans hf)) hw hnode
  | cancel hget hwaits hnode' =>
    rw [hwaits]
    exact getElem?_set_node hget (fun hf => hnode'.trans hf) hw hnode
  | grant _ hwaits => exact ⟨w, by rw [hwaits]; exact hw, hnode⟩
  | post _ hwaits => exact ⟨w, by rw [hwaits]; exact hw, hnode⟩

/-- A grant is for good. -/
theorem Effect.grants_kept (h : Effect s s' q q' o) {a : Nat} (ha : a ∈ s.sem.grants) :
    a ∈ s'.sem.grants := by
  cases h with
  | wait _ _ hsem => rwa [hsem]
  | take _ _ _ _ _ hgrants => rwa [hgrants]
  | enqueue _ _ _ _ _ _ hgrants => rwa [hgrants]
  | finish _ _ _ _ _ hgrants => rwa [hgrants]
  | cancel _ _ _ _ hgrants => rwa [hgrants]
  | grant _ _ _ hgrants =>
    rw [hgrants]
    exact List.mem_append_left _ ha
  | post _ _ _ hgrants => rwa [hgrants]

/-- No wait has another node than it had, and no grant is taken back. -/
structure KeepsNodes (s s' : SemaphoreSystem W) : Prop where
  node : ∀ {i : Nat} {w : Wait} {a : Nat}, s.waits[i]? = some w → w.future.node = some a →
    ∃ w', s'.waits[i]? = some w' ∧ w'.future.node = some a
  grants : ∀ {a : Nat}, a ∈ s.sem.grants → a ∈ s'.sem.grants

theorem KeepsNodes.refl (s : SemaphoreSystem W) : KeepsNodes s s :=
  ⟨fun hw hnode => ⟨_, hw, hnode⟩, id⟩

theorem KeepsNodes.trans {s'' : SemaphoreSystem W} (h : KeepsNodes s s') (h' : KeepsNodes s' s'') :
    KeepsNodes s s'' := by
  refine ⟨fun hw hnode => ?_, fun ha => h'.grants (h.grants ha)⟩
  obtain ⟨w', hw', hnode'⟩ := h.node hw hnode
  exact h'.node hw' hnode'

theorem Effect.keepsNodes (h : Effect s s' q q' o) : KeepsNodes s s' :=
  ⟨h.node_kept, h.grants_kept⟩

end Effect

/-! ## Nodes and their wakers -/

/-- No node is new, and none has another waker. -/
def KeepsWakers (s s' : Semaphore W) : Prop :=
  ∀ x n', s'.nodes x = some n' → ∃ n, s.nodes x = some n ∧ n.waker = n'.waker

theorem KeepsWakers.refl (s : Semaphore W) : KeepsWakers s s := fun _ n hn => ⟨n, hn, rfl⟩

theorem KeepsWakers.trans {s₁ s₂ s₃ : Semaphore W} (h : KeepsWakers s₁ s₂)
    (h' : KeepsWakers s₂ s₃) : KeepsWakers s₁ s₃ := by
  intro x n hn
  obtain ⟨n₂, hn₂, hw₂⟩ := h' x n hn
  obtain ⟨n₁, hn₁, hw₁⟩ := h x n₂ hn₂
  exact ⟨n₁, hn₁, hw₁.trans hw₂⟩

theorem semaphore_node_ok {s : Semaphore W} {a : Nat} {n : SemaphoreNode W} :
    s.node a = .ok n ↔ s.nodes a = some n := by
  rw [Semaphore.node]
  cases s.nodes a <;> simp

theorem keepsWakers_setNode {s : Semaphore W} {a : Nat} {n : SemaphoreNode W}
    {o : Option (SemaphoreNode W)} (hn : s.nodes a = some n)
    (ho : ∀ n', o = some n' → n.waker = n'.waker) : KeepsWakers s (s.setNode a o) := by
  intro x n' hn'
  simp only [Semaphore.setNode] at hn'
  by_cases hx : x = a
  · subst hx
    rw [Function.update_self] at hn'
    exact ⟨n, hn, ho n' hn'⟩
  · rw [Function.update_of_ne hx] at hn'
    exact ⟨n', hn', rfl⟩

theorem nodeDrop_keepsWakers {s s' : Semaphore W} {a : Nat} {willWake : Bool}
    (h : nodeDrop s a willWake = .ok s') : KeepsWakers s s' := by
  unfold nodeDrop at h
  obtain ⟨n, hn, h⟩ := bind_eq_ok.mp h
  have hn := semaphore_node_ok.mp hn
  simp only at h
  have hdec : KeepsWakers s (s.setNode a (some { n with counter := sizeDec n.counter })) :=
    keepsWakers_setNode hn (by rintro n' ⟨⟩; rfl)
  split at h
  · cases h
    refine hdec.trans (keepsWakers_setNode (n := { n with counter := sizeDec n.counter }) ?_ ?_)
    · simp [Semaphore.setNode]
    · simp
  · cases h
    exact hdec

/-- The new node has the waker of the context. -/
theorem waitEnqueue_wakers {s s' : Semaphore W} {timed : Bool} {waker : W} {a : Nat}
    (h : waitEnqueue s timed waker = .ok (s', a)) :
    a = s.nextNode ∧ ∀ x n', s'.nodes x = some n' →
      x = s.nextNode ∧ n'.waker = waker ∨ ∃ n, s.nodes x = some n ∧ n.waker = n'.waker := by
  have hnew : ∀ x n',
      Function.update s.nodes s.nextNode (some (waitNode s timed waker)) x = some n' →
      x = s.nextNode ∧ n'.waker = waker ∨ ∃ n, s.nodes x = some n ∧ n.waker = n'.waker := by
    intro x n' hn'
    by_cases hx : x = s.nextNode
    · rw [hx, Function.update_self] at hn'
      cases hn'
      exact Or.inl ⟨hx, rfl⟩
    · rw [Function.update_of_ne hx] at hn'
      exact Or.inr ⟨n', hn', rfl⟩
  unfold waitEnqueue at h
  simp only at h
  split at h
  · cases h
    exact ⟨rfl, hnew⟩
  · split at h
    · cases h
    · obtain ⟨last, hlast, h⟩ := bind_eq_ok.mp h
      cases h
      refine ⟨rfl, ?_⟩
      intro x n' hn'
      obtain ⟨n, hn, hwaker⟩ := keepsWakers_setNode (semaphore_node_ok.mp hlast)
        (o := some { last with next := some s.nextNode }) (by rintro n' ⟨⟩; rfl) x n' hn'
      rw [← hwaker]
      exact hnew x n hn

/-- What a poll does to the nodes: none, or a new one for the future. -/
theorem pollWait_wakers {s s' : Semaphore W} {f f' : WaitFuture} {waker : W} {poll : FuturePoll}
    (h : pollWait s f waker = .ok (s', f', poll)) :
    KeepsWakers s s' ∨ poll = .pending ∧ f'.node = some s.nextNode ∧ ∀ x n', s'.nodes x = some n' →
      x = s.nextNode ∧ n'.waker = waker ∨ ∃ n, s.nodes x = some n ∧ n.waker = n'.waker := by
  unfold pollWait semaphoreWaitPoll at h
  split at h
  · split at h
    · obtain ⟨s₁, hdrop, h⟩ := bind_eq_ok.mp h
      cases h
      exact Or.inl (nodeDrop_keepsWakers hdrop)
    · cases h
      exact Or.inl (KeepsWakers.refl _)
  · split at h
    · simp only [ok_bind] at h
      split at h
      · cases h
        exact Or.inl (KeepsWakers.refl _)
      · obtain ⟨⟨s₁, a⟩, henqueue, h⟩ := bind_eq_ok.mp h
        cases h
        obtain ⟨rfl, hwakers⟩ := waitEnqueue_wakers henqueue
        exact Or.inr ⟨rfl, rfl, hwakers⟩
    · split at h
      · cases h
        exact Or.inl (KeepsWakers.refl _)
      · cases h
        exact Or.inl (KeepsWakers.refl _)

theorem cleanupWait_keepsWakers {s s' : Semaphore W} {f f' : WaitFuture}
    (h : cleanupWait s f = .ok (s', f')) : KeepsWakers s s' := by
  unfold cleanupWait semaphoreWaitPoll at h
  obtain ⟨⟨s₁, f₁, poll⟩, hpoll, h⟩ := bind_eq_ok.mp h
  cases h
  rw [if_pos rfl] at hpoll
  split at hpoll
  · obtain ⟨s₂, hdrop, hpoll⟩ := bind_eq_ok.mp hpoll
    cases hpoll
    exact nodeDrop_keepsWakers hdrop
  · cases hpoll
    exact KeepsWakers.refl _

/-- The waker that is called is that of the head, which is granted. -/
theorem signalAsync_called {s s' : Semaphore W} {called : Option W}
    (h : signalAsync s = .ok (s', called)) :
    KeepsWakers s s' ∧ ∃ a n, s.wakeQueueHead = some a ∧ s.nodes a = some n ∧
      called = some n.waker ∧ s'.grants = s.grants ++ [a] := by
  unfold signalAsync at h
  split at h
  · cases h
  · rename_i a hhead
    obtain ⟨n, hn, h⟩ := bind_eq_ok.mp h
    obtain ⟨s₁, hdrop, h⟩ := bind_eq_ok.mp h
    cases h
    refine ⟨?_, a, n, hhead, semaphore_node_ok.mp hn, rfl, ?_⟩
    · exact fun x n' hn' => nodeDrop_keepsWakers hdrop x n' hn'
    · unfold nodeDrop at hdrop
      obtain ⟨n', -, hdrop⟩ := bind_eq_ok.mp hdrop
      simp only at hdrop
      split at hdrop
      · cases hdrop
        rfl
      · cases hdrop
        rfl

/-- A signal calls the waker of a node that it grants, or none. -/
theorem semaphoreSignal_called {s s' : Semaphore W} {called : Option W}
    (h : semaphoreSignal s = .ok (s', called)) :
    KeepsWakers s s' ∧ (called = none ∨ ∃ a n, s.wakeQueueHead = some a ∧ s.nodes a = some n ∧
      called = some n.waker ∧ s'.grants = s.grants ++ [a]) := by
  unfold semaphoreSignal at h
  split at h
  · simp only at h
    split at h
    · obtain ⟨hkeeps, hcalled⟩ := signalAsync_called h
      exact ⟨hkeeps, Or.inr hcalled⟩
    · cases h
      exact ⟨KeepsWakers.refl _, Or.inl rfl⟩
  · split at h
    · obtain ⟨hkeeps, hcalled⟩ := signalAsync_called h
      exact ⟨hkeeps, Or.inr hcalled⟩
    · split at h
      · cases h
        exact ⟨KeepsWakers.refl _, Or.inl rfl⟩
      · cases h
        exact ⟨KeepsWakers.refl _, Or.inl rfl⟩

/-! ## The system -/

variable {s s' : SemaphoreSystem W} {q q' : List Nat} {o : SemaphoreOp W} {index : W → Nat}

/-- Every node has been queued by the wait that its waker names. -/
def OwnWakers (index : W → Nat) (s : SemaphoreSystem W) : Prop :=
  ∀ a n, s.sem.nodes a = some n →
    ∃ w, s.waits[index n.waker]? = some w ∧ w.future.node = some a

theorem KeepsWakers.own (h : KeepsWakers s.sem s'.sem) (heffect : Effect s s' q q' o)
    (hown : OwnWakers index s) : OwnWakers index s' := by
  intro a n' hn'
  obtain ⟨n, hn, hwaker⟩ := h a n' hn'
  obtain ⟨w, hw, hnode⟩ := hown a n hn
  rw [← hwaker]
  exact heffect.node_kept hw hnode

/-- What a call does to the nodes: none, or the poll of a wait adds one for it. -/
theorem semaphoreStep_wakers (h : semaphoreStep s o = .ok s') :
    KeepsWakers s.sem s'.sem ∨ ∃ i waker f', o = .poll i waker ∧ s'.waits[i]? = some ⟨f', .live⟩ ∧
      f'.node = some s.sem.nextNode ∧ ∀ x n', s'.sem.nodes x = some n' →
        x = s.sem.nextNode ∧ n'.waker = waker ∨ ∃ n, s.sem.nodes x = some n ∧ n.waker = n'.waker := by
  cases o with
  | wait timed =>
    cases h
    exact Or.inl (KeepsWakers.refl s.sem)
  | poll i waker =>
    simp only [semaphoreStep] at h
    split at h
    · rename_i f hget
      obtain ⟨⟨sem, f', poll⟩, hpolled, h⟩ := bind_eq_ok.mp h
      rcases pollWait_wakers hpolled with hkeeps | ⟨rfl, hnode, hwakers⟩
      · cases poll with
        | ready =>
          obtain ⟨⟨sem', f''⟩, hcleanup, h⟩ := bind_eq_ok.mp h
          cases h
          exact Or.inl (hkeeps.trans (cleanupWait_keepsWakers hcleanup))
        | pending =>
          cases h
          exact Or.inl hkeeps
        | undefined =>
          cases h
          exact Or.inl hkeeps
      · cases h
        refine Or.inr ⟨i, waker, f', rfl, ?_, hnode, hwakers⟩
        exact List.getElem?_set_self (List.getElem?_eq_some_iff.mp hget).1
    · cases h
  | cleanup i =>
    simp only [semaphoreStep] at h
    split at h
    · obtain ⟨⟨sem, f'⟩, hcleanup, h⟩ := bind_eq_ok.mp h
      cases h
      exact Or.inl (cleanupWait_keepsWakers hcleanup)
    · cases h
  | signal =>
    obtain ⟨⟨sem, called⟩, hsignal, h'⟩ := bind_eq_ok.mp h
    cases h'
    exact Or.inl (semaphoreSignal_called hsignal).1

/-- An old node keeps its waker. -/
theorem waker_kept (h : semaphoreStep s o = .ok s') {x : Nat} {n' : SemaphoreNode W}
    (hn' : s'.sem.nodes x = some n') (hx : x < s.sem.nextNode) :
    ∃ n, s.sem.nodes x = some n ∧ n.waker = n'.waker := by
  rcases semaphoreStep_wakers h with hkeeps | ⟨i, waker, f', -, -, -, hwakers⟩
  · exact hkeeps x n' hn'
  · rcases hwakers x n' hn' with ⟨rfl, -⟩ | hold
    · exact absurd hx (Nat.lt_irrefl _)
    · exact hold

/-- A wait is polled with wakers that name it. -/
theorem ownWakers_step (heffect : Effect s s' q q' o) (h : semaphoreStep s o = .ok s')
    (hpoll : ∀ i waker, o = .poll i waker → index waker = i) (hown : OwnWakers index s) :
    OwnWakers index s' := by
  rcases semaphoreStep_wakers h with hkeeps | ⟨i, waker, f', rfl, hget, hnode, hwakers⟩
  · exact hkeeps.own heffect hown
  · intro x n' hn'
    rcases hwakers x n' hn' with ⟨rfl, hwaker⟩ | ⟨n, hn, hwaker⟩
    · refine ⟨⟨f', .live⟩, ?_, hnode⟩
      rw [hwaker, hpoll i waker rfl]
      exact hget
    · obtain ⟨w, hw, hnode⟩ := hown x n hn
      rw [← hwaker]
      exact heffect.node_kept hw hnode

/-- The waker that a signal calls is that of the first node, which it grants. -/
theorem signal_called (h : semaphoreStep s .signal = .ok s') :
    s'.woken = s.woken ∨ ∃ a n, s.sem.wakeQueueHead = some a ∧ s.sem.nodes a = some n ∧
      s'.woken = s.woken ++ [n.waker] ∧ s'.sem.grants = s.sem.grants ++ [a] := by
  obtain ⟨⟨sem, called⟩, hsignal, h'⟩ := bind_eq_ok.mp h
  cases h'
  rcases (semaphoreSignal_called hsignal).2 with rfl | ⟨a, n, hhead, hn, rfl, hgrants⟩
  · exact Or.inl (List.append_nil _)
  · exact Or.inr ⟨a, n, hhead, hn, rfl, hgrants⟩

/-- Only signals call wakers. -/
theorem woken_kept (ho : o ≠ .signal) (hok : semaphoreStep s o = .ok s') : s'.woken = s.woken := by
  cases o with
  | wait timed =>
    cases hok
    rfl
  | poll i waker =>
    simp only [semaphoreStep] at hok
    split at hok
    · obtain ⟨⟨sem, f, poll⟩, -, hok⟩ := bind_eq_ok.mp hok
      cases poll with
      | ready =>
        obtain ⟨⟨sem', f'⟩, -, hok⟩ := bind_eq_ok.mp hok
        cases hok
        rfl
      | pending =>
        cases hok
        rfl
      | undefined =>
        cases hok
        rfl
    · cases hok
  | cleanup i =>
    simp only [semaphoreStep] at hok
    split at hok
    · obtain ⟨⟨sem, f⟩, -, hok⟩ := bind_eq_ok.mp hok
      cases hok
      rfl
    · cases hok
  | signal => exact absurd rfl ho

/-- A signal takes the first node of the queue and calls its waker. -/
theorem signal_wakes (h : WakeQueue q s) (hok : semaphoreStep s .signal = .ok s') :
    q = [] ∧ s'.woken = s.woken ∧ s'.sem.grants = s.sem.grants ∨
      ∃ a n, q.head? = some a ∧ s.sem.nodes a = some n ∧ s'.woken = s.woken ++ [n.waker] ∧
        s'.sem.grants = s.sem.grants ++ [a] := by
  obtain ⟨⟨sem, called⟩, hsignal, hok⟩ := bind_eq_ok.mp hok
  cases hok
  have hhead : s.sem.wakeQueueHead = q.head? := by
    cases q with
    | nil => exact h.queue.chain
    | cons a q => exact h.queue.chain.1
  rw [semaphoreSignal, if_neg (by simp [h.blocking])] at hsignal
  split at hsignal
  · obtain ⟨-, a, n, hfirst, hn, hcalled, hgrants⟩ := signalAsync_called hsignal
    refine Or.inr ⟨a, n, hhead ▸ hfirst, hn, ?_, hgrants⟩
    rw [hcalled]
    rfl
  · rename_i hnone
    rw [not_not, hhead, List.head?_eq_none_iff] at hnone
    rw [if_neg (by simp [h.blocking])] at hsignal
    cases hsignal
    exact Or.inl ⟨hnone, List.append_nil _, rfl⟩

end Taskio
