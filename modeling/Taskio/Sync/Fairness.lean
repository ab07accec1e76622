import Taskio.Lib.Run
import Taskio.Sync.NodeWaker

/-!
# First come, first served

The waits that found no permit are served in the order in which they were queued, and a wait that is
polled later does not pass them: the counter is positive only when none of them waits.

* `SemaphoreSystem.queues` — the node and the waker that an operation queues
* `inLine_step` — what was queued so far is what the signals took, and behind it the queue
* `waits_served_in_order` — the same over runs, and what follows for a wait that comes late
-/

namespace Taskio

open Lib (IsQueue)

variable {W : Type} {s s' : SemaphoreSystem W} {q q' : List Nat} {o : SemaphoreOp W}

/-! ## The order of the queue -/

/-- The node that the operation queues, with the waker that it keeps: that of a wait that is polled
for the first time and finds no permit. -/
def SemaphoreSystem.queues (s : SemaphoreSystem W) : SemaphoreOp W → List (Nat × W)
  | .poll i waker =>
    match s.waits[i]? with
    | some ⟨f, .live⟩ =>
      if f.counter = 0 ∧ s.sem.counter = 0 then [(s.sem.nextNode, waker)] else []
    | _ => []
  | .wait _ | .cleanup _ | .signal => []

/-- What was queued is what the signals took and called, and behind it the queue. -/
structure InLine (queued line : List (Nat × W)) (s : SemaphoreSystem W) : Prop where
  wake : WakeQueue (line.map Prod.fst) s
  waker : ∀ x ∈ line, ∃ n, s.sem.nodes x.1 = some n ∧ n.waker = x.2
  taken : s.sem.grants ++ line.map Prod.fst = queued.map Prod.fst
  woken : s.woken ++ line.map Prod.snd = queued.map Prod.snd

/-! ## One step -/

/-- The nodes that stay in the queue keep their wakers. -/
theorem waker_stays {line : List (Nat × W)} (hwake : WakeQueue q s) (hwake' : WakeQueue q' s')
    (h : semaphoreStep s o = .ok s') (hmem : ∀ x ∈ line, x.1 ∈ q ∧ x.1 ∈ q')
    (hwaker : ∀ x ∈ line, ∃ n, s.sem.nodes x.1 = some n ∧ n.waker = x.2) :
    ∀ x ∈ line, ∃ n, s'.sem.nodes x.1 = some n ∧ n.waker = x.2 := by
  intro x hx
  obtain ⟨hq, hq'⟩ := hmem x hx
  obtain ⟨n', hn', -⟩ := hwake'.node_of_mem hq'
  obtain ⟨n, hn, hkept⟩ := waker_kept h hn' (hwake.lt_nextNode.1 x.1 hq)
  obtain ⟨n₀, hn₀, hx₀⟩ := hwaker x hx
  obtain rfl : n = n₀ := Option.some.inj (hn.symm.trans hn₀)
  exact ⟨n', hn', hkept.symm.trans hx₀⟩

/-- The node of a wait that is queued has the waker of its poll. -/
theorem enqueue_waker {i : Nat} {waker : W} (hwake : WakeQueue q s)
    (hwake' : WakeQueue (q ++ [s.sem.nextNode]) s')
    (h : semaphoreStep s (.poll i waker) = .ok s') :
    ∃ n, s'.sem.nodes s.sem.nextNode = some n ∧ n.waker = waker := by
  obtain ⟨n', hn', -⟩ := hwake'.node_of_mem (a := s.sem.nextNode) (by simp)
  obtain ⟨-, -, hnone⟩ := hwake.nextNode_unused
  rcases semaphoreStep_wakers h with hkeeps | ⟨j, waker', f', ho, -, -, hwakers⟩
  · obtain ⟨n, hn, -⟩ := hkeeps _ n' hn'
    rw [hnone] at hn
    cases hn
  · cases ho
    rcases hwakers _ n' hn' with ⟨-, hwaker⟩ | ⟨n, hn, -⟩
    · exact ⟨n', hn', hwaker⟩
    · rw [hnone] at hn
      cases hn

/-- A wait is put at the end of the line. -/
theorem InLine.enqueue {queued line : List (Nat × W)} {i : Nat} {waker : W} (h : InLine queued line s)
    (hstep : semaphoreStep s (.poll i waker) = .ok s')
    (hwake' : WakeQueue (line.map Prod.fst ++ [s.sem.nextNode]) s')
    (hgrants : s'.sem.grants = s.sem.grants) :
    InLine (queued ++ [(s.sem.nextNode, waker)]) (line ++ [(s.sem.nextNode, waker)]) s' := by
  have hnew := enqueue_waker h.wake hwake' hstep
  have hmap : (line ++ [(s.sem.nextNode, waker)]).map Prod.fst =
      line.map Prod.fst ++ [s.sem.nextNode] := by simp
  refine ⟨by rw [hmap]; exact hwake', ?_, ?_, ?_⟩
  · rw [List.forall_mem_append]
    refine ⟨waker_stays h.wake hwake' hstep ?_ h.waker, by simpa using hnew⟩
    intro x hx
    have hmem := List.mem_map_of_mem (f := Prod.fst) hx
    exact ⟨hmem, List.mem_append_left _ hmem⟩
  · rw [hgrants, hmap, ← List.append_assoc, h.taken]
    simp
  · rw [woken_kept (by rintro ⟨⟩) hstep, List.map_append, ← List.append_assoc, h.woken]
    simp

/-- A signal takes the first, and calls its waker. -/
theorem InLine.grant {queued line : List (Nat × W)} {x : Nat × W} (h : InLine queued (x :: line) s)
    (hstep : semaphoreStep s .signal = .ok s') (hwake' : WakeQueue (line.map Prod.fst) s')
    (hgrants : s'.sem.grants = s.sem.grants ++ [x.1]) : InLine queued line s' := by
  obtain ⟨n, hn, hwoken⟩ : ∃ n, s.sem.nodes x.1 = some n ∧ s'.woken = s.woken ++ [n.waker] := by
    rcases signal_wakes h.wake hstep with ⟨hnil, -⟩ | ⟨a, n, ha, hn, hwoken, -⟩
    · cases hnil
    · cases ha
      exact ⟨n, hn, hwoken⟩
  obtain ⟨n₀, hn₀, hx⟩ := h.waker x (List.mem_cons_self ..)
  obtain rfl : n = n₀ := Option.some.inj (hn.symm.trans hn₀)
  refine ⟨hwake', ?_, ?_, ?_⟩
  · refine waker_stays h.wake hwake' hstep ?_ fun y hy =>
      h.waker y (List.mem_cons_of_mem _ hy)
    intro y hy
    have hmem := List.mem_map_of_mem (f := Prod.fst) hy
    exact ⟨List.mem_cons_of_mem _ hmem, hmem⟩
  · rw [hgrants, ← h.taken]
    simp
  · rw [hwoken, hx, ← h.woken]
    simp

/-- **A step queues behind the others, and takes from the front.** -/
theorem inLine_step {queued line : List (Nat × W)} (h : InLine queued line s)
    (hstep : semaphoreStep s o = .ok s') :
    ∃ line', InLine (queued ++ s.queues o) line' s' := by
  obtain ⟨q', hwake', heffect, -⟩ := semaphoreStep_ok h.wake hstep
  -- an operation that neither queues nor takes
  have hsame : q' = line.map Prod.fst → s.queues o = [] → o ≠ .signal →
      s'.sem.grants = s.sem.grants → ∃ line', InLine (queued ++ s.queues o) line' s' := by
    intro hq hqueues ho hgrants
    subst hq
    rw [hqueues, List.append_nil]
    refine ⟨line, hwake', ?_, by rw [hgrants]; exact h.taken, ?_⟩
    · exact waker_stays h.wake hwake' hstep
        (fun x hx => ⟨List.mem_map_of_mem hx, List.mem_map_of_mem hx⟩) h.waker
    · rw [woken_kept ho hstep]
      exact h.woken
  cases heffect with
  | wait timed hwaits hsem hq =>
    exact hsame hq rfl (by rintro ⟨⟩) (by rw [hsem])
  | take hget hnode hpos hwaits hcounter hgrants hq =>
    have hnone : ¬ s.sem.counter = 0 := by omega
    exact hsame hq (by simp [SemaphoreSystem.queues, hget, hnone]) (by rintro ⟨⟩) hgrants
  | @enqueue i waker f f' hget hnode hzero hwaits hnode' hcounter hgrants hq =>
    subst hq
    have hfirst : f.counter = 0 := by
      rcases h.wake.stage _ (List.mem_of_getElem? hget) rfl with ⟨hfirst, -⟩ | ⟨-, hsome⟩
      · exact hfirst
      · exact absurd hnode hsome
    have hqueues : s.queues (.poll i waker) = [(s.sem.nextNode, waker)] := by
      simp [SemaphoreSystem.queues, hget, hfirst, hzero]
    rw [hqueues]
    exact ⟨_, h.enqueue hstep hwake' hgrants⟩
  | finish hget hnode hwaits hnode' hcounter hgrants hq =>
    have hlater : ∀ {f : WaitFuture}, ⟨f, .live⟩ ∈ s.waits → f.node ≠ none → f.counter ≠ 0 := by
      intro f hmem hsome hzero
      rcases h.wake.stage _ hmem rfl with ⟨-, hnone⟩ | ⟨hone, -⟩
      · exact hsome hnone
      · have hone : f.counter = 1 := hone
        omega
    have hne := hlater (List.mem_of_getElem? hget) (by rw [hnode]; simp)
    exact hsame hq (by simp [SemaphoreSystem.queues, hget, hne]) (by rintro ⟨⟩) hgrants
  | cancel hget hwaits hnode' hcounter hgrants hq => exact hsame hq rfl (by rintro ⟨⟩) hgrants
  | @grant a hqueue hwaits hcounter hgrants =>
    obtain ⟨x, line', rfl⟩ : ∃ x line', line = x :: line' := by
      cases line with
      | nil => cases hqueue
      | cons x line' => exact ⟨x, line', rfl⟩
    obtain ⟨rfl, rfl⟩ := List.cons.inj hqueue
    have hqueues : s.queues .signal = [] := rfl
    rw [hqueues, List.append_nil]
    exact ⟨line', h.grant hstep hwake' hgrants⟩
  | post hqueue hwaits hcounter hgrants hq =>
    have hqueues : s.queues .signal = [] := rfl
    have hwoken : s'.woken = s.woken := by
      rcases signal_wakes h.wake hstep with ⟨-, hwoken, -⟩ | ⟨a, n, ha, -⟩
      · exact hwoken
      · rw [hqueue] at ha
        cases ha
    obtain rfl : line = [] := List.map_eq_nil_iff.mp hqueue
    subst hq
    rw [hqueues, List.append_nil]
    exact ⟨[], hwake', by simp, by rw [hgrants]; exact h.taken, by rw [hwoken]; exact h.woken⟩

/-! ## Runs -/

/-- The first poll of the wait `i`, with other waits in the queue: it is pending, and its node is the
last. -/
structure QueuesLast (line : List (Nat × W)) (s : SemaphoreSystem W) (i : Nat)
    (s' : SemaphoreSystem W) : Prop where
  pending : ∃ f, s'.waits[i]? = some ⟨f, .live⟩ ∧ f.node = some s.sem.nextNode
  queue : IsQueue s'.sem.next s'.sem.wakeQueueHead s'.sem.wakeQueueTail
    (line.map Prod.fst ++ [s.sem.nextNode])
  grants : s'.sem.grants = s.sem.grants

/-- What is promised of a semaphore when `queued` were queued, with their wakers, in this order. -/
structure ServesInOrder (queued : List (Nat × W)) (s : SemaphoreSystem W)
    (line : List (Nat × W)) : Prop where
  /-- the links from `wake_queue_head` spell the nodes of `line`, and end at `wake_queue_tail` -/
  queue : IsQueue s.sem.next s.sem.wakeQueueHead s.sem.wakeQueueTail (line.map Prod.fst)
  waker : ∀ x ∈ line, ∃ n, s.sem.nodes x.1 = some n ∧ n.waker = x.2
  /-- the signals took the nodes in the order in which they were queued -/
  taken : s.sem.grants ++ line.map Prod.fst = queued.map Prod.fst
  /-- and called their wakers -/
  woken : s.woken ++ line.map Prod.snd = queued.map Prod.snd
  /-- a signal that finds a node takes the first and calls its waker -/
  next : ∀ a waker rest, line = (a, waker) :: rest → ∃ s', semaphoreStep s .signal = .ok s' ∧
    s'.sem.grants = s.sem.grants ++ [a] ∧ s'.woken = s.woken ++ [waker]
  idle : 0 < s.sem.counter → line = []
  /-- a wait that comes while others are queued obtains no permit -/
  late : line ≠ [] → ∀ i f waker, s.waits[i]? = some ⟨f, .live⟩ → f.counter = 0 →
    ∃ s', semaphoreStep s (.poll i waker) = .ok s' ∧ QueuesLast line s i s'

theorem InLine.serves {queued line : List (Nat × W)} (h : InLine queued line s) :
    ServesInOrder queued s line where
  queue := h.wake.queue
  waker := h.waker
  taken := h.taken
  woken := h.woken
  next a waker rest hline := by
    subst hline
    obtain ⟨s', -, hstep, -⟩ := signal_effect h.wake
    obtain ⟨n, hn, hwaker⟩ := h.waker (a, waker) List.mem_cons_self
    rcases signal_wakes h.wake hstep with ⟨hnil, -⟩ | ⟨b, m, hb, hm, hwoken, hgrants⟩
    · cases hnil
    · obtain rfl : a = b := Option.some.inj hb
      obtain rfl : n = m := Option.some.inj (hn.symm.trans hm)
      refine ⟨s', hstep, hgrants, ?_⟩
      rw [hwoken, hwaker]
  idle hpos := by
    by_contra hline
    have hzero := h.wake.idle (fun hnil => hline (List.map_eq_nil_iff.mp hnil))
    omega
  late hline i f waker hget hfirst := by
    have hzero := h.wake.idle (fun hnil => hline (List.map_eq_nil_iff.mp hnil))
    have hnone : f.node = none := by
      rcases h.wake.stage _ (List.mem_of_getElem? hget) rfl with ⟨-, hnone⟩ | ⟨hone, -⟩
      · exact hnone
      · have hone : f.counter = 1 := hone
        omega
    obtain ⟨s', q', hstep, hwake', heffect, -⟩ := poll_effect h.wake hget waker
    refine ⟨s', hstep, ?_⟩
    cases heffect with
    | take hget' hnode hpos => omega
    | enqueue hget' hnode hzero' hwaits hnode' hcounter hgrants hq =>
      subst hq
      refine ⟨⟨_, ?_, hnode'⟩, hwake'.queue, hgrants⟩
      rw [hwaits]
      exact List.getElem?_set_self (List.getElem?_eq_some_iff.mp hget).1
    | finish hget' hnode =>
      rw [hget] at hget'
      cases hget'
      cases hnone.symm.trans hnode

/-- **Waits are served first come, first served, and none is passed.** A call that no caller makes is
one on a wait that is over. -/
theorem waits_served_in_order (permits : UInt64) (os : List (SemaphoreOp W))
    (hcalls : Lib.run semaphoreStep (semaphoreSystem W permits) os ≠ .error .noSuchCall) :
    ∃ s, Lib.run semaphoreStep (semaphoreSystem W permits) os = .ok s ∧
      ∃ line, ServesInOrder
        (Lib.emitted semaphoreStep SemaphoreSystem.queues (semaphoreSystem W permits) os) s line := by
  have hall : Lib.Along semaphoreStep (fun _ _ => True) (semaphoreSystem W permits) os :=
    Lib.along_of_forall fun _ _ _ => trivial
  obtain ⟨s, hrun, -⟩ := Lib.run_safe (I := fun s => ∃ q, WakeQueue q s)
    (fun s o ⟨q, hq⟩ _ hok => by
      rcases semaphoreStep_effect hq o with hfail | ⟨s', q', hstep, hq', -⟩
      · exact absurd hfail hok
      · exact ⟨s', hstep, q', hq'⟩) ⟨[], wakeQueue_init permits⟩ hall hcalls
  have hline : ∃ line, InLine ([] ++ Lib.emitted semaphoreStep SemaphoreSystem.queues
      (semaphoreSystem W permits) os) line s :=
    Lib.run_emits (I := fun queued s => ∃ line, InLine queued line s) []
    (fun queued s o s' ⟨line, hline⟩ _ hstep => inLine_step hline hstep)
    ⟨[], wakeQueue_init permits, by simp, rfl, rfl⟩ hall hrun
  obtain ⟨line, hline⟩ := hline
  exact ⟨s, hrun, line, hline.serves⟩

/-- Of three waits one is given up in the queue; the signals take the first two that were queued. -/
theorem waits_served_in_order_three :
    ∃ s, Lib.run semaphoreStep (semaphoreSystem Nat 0)
        [.wait false, .wait true, .wait false, .poll 2 12, .poll 0 10, .poll 1 11, .cleanup 0,
          .signal, .signal] = .ok s ∧
      ∃ line, ServesInOrder (Lib.emitted semaphoreStep SemaphoreSystem.queues (semaphoreSystem Nat 0)
        [.wait false, .wait true, .wait false, .poll 2 12, .poll 0 10, .poll 1 11, .cleanup 0,
          .signal, .signal]) s line :=
  waits_served_in_order 0 _ (by rintro ⟨⟩)

end Taskio
