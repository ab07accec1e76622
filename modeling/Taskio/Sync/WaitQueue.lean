import Taskio.Lib.Chain
import Taskio.Lib.ListSet
import Taskio.Sync.Semaphore

/-!
# The wake queue

`WakeQueue q s`: the links of the nodes spell the queue `q`, and every node counts its owners, the
queue and the live futures (`owners`). No operation breaks this, not even those that lose a permit.
`Effect` lists what an operation can do to the waits, the queue and the counter;
`semaphoreStep_effect` says that it does one of these and never reads a node that was freed.
-/

namespace Taskio

open Lib (IsQueue)

variable {W : Type} {s s' : SemaphoreSystem W} {q : List Nat}

/-! ## Nodes and their owners -/

/-- The wait is live and has queued the node `a`. -/
def Wait.holds (a : Nat) (w : Wait) : Bool := decide (w.stage = .live ∧ w.future.node = some a)

/-- How many owners the node `a` has when `q` is queued. -/
def SemaphoreSystem.owners (s : SemaphoreSystem W) (q : List Nat) (a : Nat) : Nat :=
  q.count a + s.waits.countP (·.holds a)

/-- Below its flags the counter of a live node is the number of its owners. -/
def NodeCounts (c : Nat) : Option (SemaphoreNode W) → Prop
  | some n => 0 < c ∧ c ≤ 2 ∧ (n.counter = nodePlain + c ∨ n.counter = nodeTimed + c)
  | none => c = 0

/-- `_node_drop` takes one owner away, and frees the node with the last. -/
theorem nodeDrop_spec {sem : Semaphore W} {a : Nat} {n : SemaphoreNode W} {c : Nat}
    (hn : sem.nodes a = some n) (hc : NodeCounts c (some n)) :
    ∃ o, nodeDrop sem a true = .ok (sem.setNode a o) ∧ NodeCounts (c - 1) o ∧
      ∀ n', o = some n' → n'.next = n.next := by
  have hset : ∀ o o', (sem.setNode a o).setNode a o' = sem.setNode a o' := fun o o' => by
    simp [Semaphore.setNode]
  obtain ⟨hpos, hle, hflags⟩ := hc
  rw [nodeDrop, Semaphore.node, hn]
  simp only [ok_bind, hset]
  obtain rfl | rfl : c = 1 ∨ c = 2 := by omega
  · refine ⟨none, ?_, rfl, by simp⟩
    rw [if_pos (Or.inl ?_)]
    rcases hflags with h | h <;> rw [h] <;> rfl
  · refine ⟨some { n with counter := sizeDec n.counter }, ?_, ⟨by omega, by omega, ?_⟩, ?_⟩
    · rw [if_neg ?_]
      rcases hflags with h | h <;> rw [h] <;> decide
    · rcases hflags with h | h
      · exact Or.inl (by rw [h]; rfl)
      · exact Or.inr (by rw [h]; rfl)
    · rintro n' ⟨⟩
      rfl

/-- One node changes, and with it the count of its owners. -/
theorem nodeCounts_update {nodes : Nat → Option (SemaphoreNode W)} {owners owners' : Nat → Nat}
    {a : Nat} {o : Option (SemaphoreNode W)} (hnodes : ∀ b, NodeCounts (owners b) (nodes b))
    (ho : NodeCounts (owners' a) o) (hother : ∀ b ≠ a, owners' b = owners b) (b : Nat) :
    NodeCounts (owners' b) (Function.update nodes a o b) := by
  by_cases hb : b = a
  · subst hb
    rw [Function.update_self]
    exact ho
  · rw [Function.update_of_ne hb, hother b hb]
    exact hnodes b

/-! ## The invariant -/

structure WakeQueue (q : List Nat) (s : SemaphoreSystem W) : Prop where
  queue : IsQueue s.sem.next s.sem.wakeQueueHead s.sem.wakeQueueTail q
  blocking : s.sem.blockingWakeWait = 0
  idle : q ≠ [] → s.sem.counter = 0
  nodes : ∀ a, NodeCounts (s.owners q a) (s.sem.nodes a)
  single : ∀ a, s.waits.countP (·.holds a) ≤ 1
  fresh : ∀ a, s.sem.nextNode ≤ a → s.owners q a = 0
  grants : ∀ a ∈ s.sem.grants, a ∉ q ∧ a < s.sem.nextNode
  granted : ∀ a, 0 < s.waits.countP (·.holds a) → a ∉ q → a ∈ s.sem.grants
  stage : ∀ w ∈ s.waits, w.stage = .live →
    w.future.counter = 0 ∧ w.future.node = none ∨ w.future.counter = 1 ∧ w.future.node ≠ none

/-- What an operation can do. The queue goes from `q` to `q'`. -/
inductive Effect (s s' : SemaphoreSystem W) (q q' : List Nat) : SemaphoreOp W → Prop where
  /-- A wait is made. -/
  | wait (timed : Bool) (hwaits : s'.waits = s.waits ++ [⟨semaphoreWait timed, .live⟩])
      (hsem : s'.sem = s.sem) (hq : q' = q) : Effect s s' q q' (.wait timed)
  /-- The first poll of a wait takes a permit. -/
  | take {i : Nat} {waker : W} {f f' : WaitFuture} (hget : s.waits[i]? = some ⟨f, .live⟩)
      (hnode : f.node = none) (hpos : 0 < s.sem.counter)
      (hwaits : s'.waits = s.waits.set i ⟨f', .completed⟩)
      (hcounter : s'.sem.counter = s.sem.counter - 1) (hgrants : s'.sem.grants = s.sem.grants)
      (hq : q' = q) : Effect s s' q q' (.poll i waker)
  /-- The first poll of a wait finds no permit. -/
  | enqueue {i : Nat} {waker : W} {f f' : WaitFuture} (hget : s.waits[i]? = some ⟨f, .live⟩)
      (hnode : f.node = none) (hzero : s.sem.counter = 0)
      (hwaits : s'.waits = s.waits.set i ⟨f', .live⟩) (hnode' : f'.node = some s.sem.nextNode)
      (hcounter : s'.sem.counter = 0) (hgrants : s'.sem.grants = s.sem.grants)
      (hq : q' = q ++ [s.sem.nextNode]) : Effect s s' q q' (.poll i waker)
  /-- The second poll of a wait completes it, whether or not its node was taken from the queue. -/
  | finish {i : Nat} {waker : W} {f f' : WaitFuture} {a : Nat}
      (hget : s.waits[i]? = some ⟨f, .live⟩) (hnode : f.node = some a)
      (hwaits : s'.waits = s.waits.set i ⟨f', .completed⟩) (hnode' : f'.node = some a)
      (hcounter : s'.sem.counter = s.sem.counter) (hgrants : s'.sem.grants = s.sem.grants)
      (hq : q' = q) : Effect s s' q q' (.poll i waker)
  /-- A wait is given up. Its node stays in the queue if it was there. -/
  | cancel {i : Nat} {f f' : WaitFuture} (hget : s.waits[i]? = some ⟨f, .live⟩)
      (hwaits : s'.waits = s.waits.set i ⟨f', .cleaned⟩) (hnode' : f'.node = f.node)
      (hcounter : s'.sem.counter = s.sem.counter) (hgrants : s'.sem.grants = s.sem.grants)
      (hq : q' = q) : Effect s s' q q' (.cleanup i)
  /-- A signal takes the first node of the queue. -/
  | grant {a : Nat} (hqueue : q = a :: q') (hwaits : s'.waits = s.waits)
      (hcounter : s'.sem.counter = s.sem.counter)
      (hgrants : s'.sem.grants = s.sem.grants ++ [a]) : Effect s s' q q' .signal
  /-- A signal finds the queue empty. -/
  | post (hqueue : q = []) (hwaits : s'.waits = s.waits)
      (hcounter : s'.sem.counter = sizeInc s.sem.counter)
      (hgrants : s'.sem.grants = s.sem.grants) (hq : q' = []) : Effect s s' q q' .signal

/-! ## Each operation -/

theorem wakeQueue_init (permits : UInt64) : WakeQueue [] (semaphoreSystem W permits) where
  queue := IsQueue.empty
  blocking := rfl
  idle h := absurd rfl h
  nodes _ := rfl
  single _ := Nat.zero_le _
  fresh _ _ := rfl
  grants a h := by cases h
  granted a h := by simp [semaphoreSystem] at h
  stage w h := by cases h

/-- The links do not change with the owners. -/
theorem next_setNode {sem : Semaphore W} {a : Nat} {n : SemaphoreNode W}
    {o : Option (SemaphoreNode W)} (hn : sem.nodes a = some n)
    (ho : ∀ n', o = some n' → n'.next = n.next) {z : Nat} (hz : z = a → o ≠ none) :
    (sem.setNode a o).next z = sem.next z := by
  rw [Semaphore.next, Semaphore.next, Semaphore.setNode]
  by_cases hza : z = a
  · subst hza
    obtain ⟨n', rfl⟩ := Option.ne_none_iff_exists'.mp (hz rfl)
    simp [hn, ho n' rfl]
  · simp [Function.update_of_ne hza]

/-- A future lets go of its node. -/
theorem WakeQueue.release (h : WakeQueue q s) {i : Nat} {w v : Wait} {a : Nat}
    (hget : s.waits[i]? = some w) (hw : w.stage = .live) (hnode : w.future.node = some a)
    (hv : v.stage ≠ .live) :
    ∃ o, nodeDrop s.sem a true = .ok (s.sem.setNode a o) ∧
      WakeQueue q { s with sem := s.sem.setNode a o, waits := s.waits.set i v } := by
  have hholds : ∀ b, w.holds b = decide (b = a) := fun b => by
    simp [Wait.holds, hw, hnode, eq_comm]
  have hgone : ∀ b, v.holds b = false := fun b => by simp [Wait.holds, hv]
  have hcount : ∀ b, (s.waits.set i v).countP (·.holds b) + (decide (b = a)).toNat =
      s.waits.countP (·.holds b) := fun b => by
    have := Lib.countP_set_add (·.holds b) hget v
    simpa [hholds, hgone] using this
  have hself := hcount a
  simp only [decide_true, Bool.toNat_true] at hself
  have howners := h.nodes a
  obtain ⟨n, hn⟩ : ∃ n, s.sem.nodes a = some n := by
    cases hn : s.sem.nodes a with
    | none =>
      rw [hn] at howners
      have hzero : q.count a + s.waits.countP (·.holds a) = 0 := howners
      omega
    | some n => exact ⟨n, rfl⟩
  rw [hn] at howners
  obtain ⟨o, hdrop, hcounts, hnext⟩ := nodeDrop_spec hn howners
  refine ⟨o, hdrop, ?_⟩
  have hkept : a ∈ q → o ≠ none := by
    rintro ha rfl
    have hpos := List.count_pos_iff.mpr ha
    have hlast : s.owners q a - 1 = 0 := hcounts
    rw [SemaphoreSystem.owners] at hlast
    omega
  refine ⟨?_, h.blocking, h.idle, ?_, ?_, ?_, h.grants, ?_, ?_⟩
  · exact h.queue.congr fun z hz => next_setNode hn hnext fun he => hkept (he ▸ hz)
  · refine nodeCounts_update h.nodes ?_ ?_
    · have hless : q.count a + (s.waits.set i v).countP (·.holds a) = s.owners q a - 1 := by
        rw [SemaphoreSystem.owners]
        omega
      show NodeCounts (q.count a + (s.waits.set i v).countP (·.holds a)) o
      rw [hless]
      exact hcounts
    · intro b hb
      have hset := hcount b
      simp only [hb, decide_false, Bool.toNat_false, Nat.add_zero] at hset
      show q.count b + (s.waits.set i v).countP (·.holds b) = s.owners q b
      rw [hset, SemaphoreSystem.owners]
  · intro b
    have := h.single b
    have := hcount b
    show (s.waits.set i v).countP _ ≤ 1
    omega
  · intro b hb
    have hzero : q.count b + s.waits.countP (·.holds b) = 0 := h.fresh b hb
    have := hcount b
    show q.count b + (s.waits.set i v).countP _ = 0
    omega
  · intro b hb
    have hb' : 0 < (s.waits.set i v).countP (·.holds b) := hb
    have := hcount b
    exact h.granted b (by omega)
  · intro x hx hlive
    rcases List.mem_or_eq_of_mem_set hx with hx | rfl
    · exact h.stage x hx hlive
    · exact absurd hlive hv

/-- The waits change, but not what they hold. -/
theorem WakeQueue.ofSameHolds (h : WakeQueue q s) {waits : List Wait} {c : Nat}
    (hcount : ∀ b, waits.countP (·.holds b) = s.waits.countP (·.holds b))
    (hc : q ≠ [] → c = 0)
    (hstage : ∀ w ∈ waits, w.stage = .live →
      w.future.counter = 0 ∧ w.future.node = none ∨ w.future.counter = 1 ∧ w.future.node ≠ none) :
    WakeQueue q { s with sem := { s.sem with counter := c }, waits := waits } := by
  refine ⟨h.queue, h.blocking, hc, ?_, ?_, ?_, h.grants, ?_, hstage⟩
  · intro b
    show NodeCounts (q.count b + waits.countP (·.holds b)) (s.sem.nodes b)
    rw [hcount]
    exact h.nodes b
  · intro b
    show waits.countP (·.holds b) ≤ 1
    rw [hcount]
    exact h.single b
  · intro b hb
    show q.count b + waits.countP (·.holds b) = 0
    rw [hcount]
    exact h.fresh b hb
  · intro b hb
    have hb' : 0 < waits.countP (·.holds b) := hb
    rw [hcount] at hb'
    exact h.granted b hb'

/-- A wait that has queued no node ends. -/
theorem WakeQueue.leave (h : WakeQueue q s) {i : Nat} {w v : Wait} (hget : s.waits[i]? = some w)
    (hnode : w.future.node = none) (hv : v.stage ≠ .live) {c : Nat} (hc : q ≠ [] → c = 0) :
    WakeQueue q { s with sem := { s.sem with counter := c }, waits := s.waits.set i v } := by
  refine h.ofSameHolds ?_ hc ?_
  · intro b
    have hset := Lib.countP_set_add (·.holds b) hget v
    simpa [Wait.holds, hnode, hv] using hset
  · intro x hx hlive
    rcases List.mem_or_eq_of_mem_set hx with hx | rfl
    · exact h.stage x hx hlive
    · exact absurd hlive hv

/-- A new wait. -/
theorem WakeQueue.newWait (h : WakeQueue q s) (timed : Bool) :
    WakeQueue q { s with waits := s.waits ++ [⟨semaphoreWait timed, .live⟩] } := by
  refine h.ofSameHolds ?_ h.idle ?_
  · intro b
    simp [List.countP_append, Wait.holds, semaphoreWait]
  · intro x hx hlive
    rcases List.mem_append.mp hx with hx | hx
    · exact h.stage x hx hlive
    · rw [List.mem_singleton.mp hx]
      exact Or.inl ⟨rfl, rfl⟩

/-- A node that has just been allocated has no owner yet. -/
theorem WakeQueue.nextNode_unused (h : WakeQueue q s) :
    s.sem.nextNode ∉ q ∧ s.waits.countP (·.holds s.sem.nextNode) = 0 ∧
      s.sem.nodes s.sem.nextNode = none := by
  have hzero := h.fresh _ (Nat.le_refl _)
  have hnodes := h.nodes s.sem.nextNode
  rw [hzero] at hnodes
  rw [SemaphoreSystem.owners] at hzero
  refine ⟨List.count_eq_zero.mp (by omega), by omega, ?_⟩
  cases hn : s.sem.nodes s.sem.nextNode with
  | none => rfl
  | some n =>
    rw [hn] at hnodes
    exact absurd hnodes.1 (Nat.lt_irrefl 0)

/-- The nodes that are there have old addresses. -/
theorem WakeQueue.lt_nextNode (h : WakeQueue q s) :
    (∀ b ∈ q, b < s.sem.nextNode) ∧
      ∀ w ∈ s.waits, w.stage = .live → ∀ b ∈ w.future.node, b < s.sem.nextNode := by
  constructor
  · intro b hb
    by_contra hge
    have hzero := h.fresh b (by omega)
    have hpos : 0 < q.count b := List.count_pos_iff.mpr hb
    unfold SemaphoreSystem.owners at hzero
    omega
  · intro w hw hlive b hb
    by_contra hge
    have hzero := h.fresh b (by omega)
    have hpos : 0 < s.waits.countP (·.holds b) :=
      List.countP_pos_iff.mpr ⟨w, hw, decide_eq_true ⟨hlive, hb⟩⟩
    unfold SemaphoreSystem.owners at hzero
    omega

/-- A member of the queue is allocated. -/
theorem WakeQueue.node_of_mem (h : WakeQueue q s) {a : Nat} (ha : a ∈ q) :
    ∃ n, s.sem.nodes a = some n ∧ s.sem.node a = .ok n := by
  have hpos := List.count_pos_iff.mpr ha
  have hnodes := h.nodes a
  cases hn : s.sem.nodes a with
  | none =>
    rw [hn] at hnodes
    have hzero : q.count a + s.waits.countP (·.holds a) = 0 := hnodes
    omega
  | some n => exact ⟨n, rfl, by rw [Semaphore.node, hn]⟩

theorem waitNode_counts (sem : Semaphore W) (timed : Bool) (waker : W) :
    NodeCounts 2 (some (waitNode sem timed waker)) := by
  refine ⟨by omega, by omega, ?_⟩
  cases timed with
  | true => exact Or.inr rfl
  | false => exact Or.inl rfl

/-- `waitEnqueue` on the links. -/
theorem waitEnqueue_ok (h : WakeQueue q s) (timed : Bool) (waker : W) :
    ∃ sem, waitEnqueue s.sem timed waker = .ok (sem, s.sem.nextNode) ∧
      IsQueue sem.next sem.wakeQueueHead sem.wakeQueueTail (q ++ [s.sem.nextNode]) ∧
      sem.counter = s.sem.counter ∧ sem.grants = s.sem.grants ∧
      sem.blockingWakeWait = s.sem.blockingWakeWait ∧ sem.nextNode = s.sem.nextNode + 1 ∧
      NodeCounts 2 (sem.nodes s.sem.nextNode) ∧
      ∀ b ≠ s.sem.nextNode, ∀ c, NodeCounts c (s.sem.nodes b) → NodeCounts c (sem.nodes b) := by
  obtain ⟨hfresh, -, -⟩ := h.nextNode_unused
  have hother : ∀ z ≠ s.sem.nextNode, ∀ n, (s.sem.setNode s.sem.nextNode n).next z = s.sem.next z :=
    fun z hz n => by simp [Semaphore.next, Semaphore.setNode, Function.update_of_ne hz]
  have hmem : ∀ z ∈ q, z ≠ s.sem.nextNode := fun z hz he => hfresh (he ▸ hz)
  have hnext : (s.sem.setNode s.sem.nextNode (some (waitNode s.sem timed waker))).next
      s.sem.nextNode = none := by simp [Semaphore.next, Semaphore.setNode, waitNode]
  have hqueue := h.queue
  rw [waitEnqueue]
  cases hhead : s.sem.wakeQueueHead with
  | none =>
    have hq : q = [] := h.queue.head_eq_none.mp hhead
    subst hq
    refine ⟨_, rfl, ⟨⟨rfl, hnext⟩, rfl⟩, rfl, rfl, rfl, rfl, ?_, ?_⟩
    · simpa [Semaphore.setNode] using waitNode_counts s.sem timed waker
    · intro b hb c hc
      simpa [Semaphore.setNode, Function.update_of_ne hb] using hc
  | some x =>
    cases htail : s.sem.wakeQueueTail with
    | none =>
      rw [hhead, htail] at hqueue
      exact absurd (hqueue.head_eq_none.mpr (hqueue.tail_eq_none.mp rfl)) (by simp)
    | some t =>
      rw [hhead, htail] at hqueue
      have ht : t ∈ q := List.mem_of_getLast? hqueue.last.symm
      obtain ⟨last, hlast, -⟩ := h.node_of_mem ht
      have hnode : ({ s.sem.setNode s.sem.nextNode (some (waitNode s.sem timed waker)) with
          nextNode := s.sem.nextNode + 1 } : Semaphore W).node t = .ok last := by
        simp [Semaphore.node, Semaphore.setNode, Function.update_of_ne (hmem t ht), hlast]
      simp only [hnode, ok_bind]
      refine ⟨_, rfl, ?_, rfl, rfl, rfl, rfl, ?_, ?_⟩
      · have hpush := (hqueue.congr fun z hz => hother z (hmem z hz) _).pushTail hfresh hnext
        rw [← hhead] at hpush
        refine hpush.congr ?_
        intro z hz
        by_cases hzt : z = t
        · subst hzt
          simp [Semaphore.next, Semaphore.setNode]
        · simp [Semaphore.next, Semaphore.setNode, Function.update_of_ne hzt]
      · simpa [Semaphore.setNode, Function.update_of_ne (hmem t ht).symm] using
          waitNode_counts s.sem timed waker
      · intro b hb c hc
        by_cases hbt : b = t
        · subst hbt
          rw [hlast] at hc
          simp only [Semaphore.setNode, Function.update_self]
          exact hc
        · simpa [Semaphore.setNode, Function.update_of_ne hb, Function.update_of_ne hbt] using hc

/-- The wait at `i` queues a new node. -/
theorem WakeQueue.enqueue (h : WakeQueue q s) {i : Nat} {w v : Wait}
    (hget : s.waits[i]? = some w) (hnode : w.future.node = none) (hv : v.stage = .live)
    (hnode' : v.future.node = some s.sem.nextNode) (hcounter' : v.future.counter = 1)
    (hzero : s.sem.counter = 0) (timed : Bool) (waker : W) :
    ∃ sem, waitEnqueue s.sem timed waker = .ok (sem, s.sem.nextNode) ∧
      sem.counter = 0 ∧ sem.grants = s.sem.grants ∧
      WakeQueue (q ++ [s.sem.nextNode]) { s with sem := sem, waits := s.waits.set i v } := by
  obtain ⟨hfresh, hunheld, -⟩ := h.nextNode_unused
  obtain ⟨sem, hok, hqueue, hcounter, hgrants, hblocking, hnext, hnew, hold⟩ :=
    waitEnqueue_ok h timed waker
  have hcount : ∀ b, (s.waits.set i v).countP (·.holds b) =
      s.waits.countP (·.holds b) + (decide (b = s.sem.nextNode)).toNat := by
    intro b
    have hset := Lib.countP_set_add (·.holds b) hget v
    simpa [Wait.holds, hnode, hv, hnode', eq_comm] using hset
  have hself : (s.waits.set i v).countP (·.holds s.sem.nextNode) = 1 := by
    rw [hcount, hunheld]
    simp
  have hother : ∀ b ≠ s.sem.nextNode,
      (s.waits.set i v).countP (·.holds b) = s.waits.countP (·.holds b) := by
    intro b hb
    rw [hcount]
    simp [hb]
  have hq : ∀ b ≠ s.sem.nextNode, (q ++ [s.sem.nextNode]).count b = q.count b := by
    intro b hb
    simp [List.count_append, Ne.symm hb]
  refine ⟨sem, hok, hcounter.trans hzero, hgrants,
    hqueue, hblocking.trans h.blocking, fun _ => hcounter.trans hzero, ?_, ?_, ?_, ?_, ?_, ?_⟩
  · intro b
    show NodeCounts ((q ++ [s.sem.nextNode]).count b + (s.waits.set i v).countP (·.holds b)) _
    by_cases hb : b = s.sem.nextNode
    · subst hb
      have hone : (q ++ [s.sem.nextNode]).count s.sem.nextNode = 1 := by
        simp [List.count_append, List.count_eq_zero.mpr hfresh]
      rw [hself, hone]
      exact hnew
    · rw [hother b hb, hq b hb]
      exact hold b hb _ (h.nodes b)
  · intro b
    show (s.waits.set i v).countP (·.holds b) ≤ 1
    by_cases hb : b = s.sem.nextNode
    · rw [hb, hself]
    · rw [hother b hb]
      exact h.single b
  · intro b hb
    rw [hnext] at hb
    show (q ++ [s.sem.nextNode]).count b + (s.waits.set i v).countP (·.holds b) = 0
    rw [hother b (by omega), hq b (by omega)]
    exact h.fresh b (by omega)
  · intro b hb
    rw [hgrants] at hb
    obtain ⟨hbq, hlt⟩ := h.grants b hb
    show b ∉ q ++ [s.sem.nextNode] ∧ b < sem.nextNode
    rw [List.mem_append, List.mem_singleton, hnext]
    exact ⟨by rintro (hm | rfl); exacts [hbq hm, Nat.lt_irrefl _ hlt], by omega⟩
  · intro b hb hbq
    rw [List.mem_append, List.mem_singleton, not_or] at hbq
    have hb' : 0 < (s.waits.set i v).countP (·.holds b) := hb
    rw [hother b hbq.2] at hb'
    rw [hgrants]
    exact h.granted b hb' hbq.1
  · intro x hx hlive
    rcases List.mem_or_eq_of_mem_set hx with hx | rfl
    · exact h.stage x hx hlive
    · exact Or.inr ⟨hcounter', by rw [hnode']; simp⟩

/-- A signal takes the first node. -/
theorem WakeQueue.grant {a : Nat} (h : WakeQueue (a :: q) s) :
    ∃ sem waker, signalAsync s.sem = .ok (sem, some waker) ∧ sem.counter = s.sem.counter ∧
      sem.grants = s.sem.grants ++ [a] ∧ WakeQueue q { s with sem := sem } := by
  obtain ⟨n, hn, hn'⟩ := h.node_of_mem (List.mem_cons_self (a := a) (l := q))
  have hnotin : a ∉ q := (List.nodup_cons.mp h.queue.nodup).1
  have hhead : s.sem.wakeQueueHead = some a := h.queue.chain.1
  have hqueue := h.queue
  rw [hhead] at hqueue
  obtain ⟨q', hq', hpop⟩ := hqueue.popHead
  obtain rfl : q = q' := (List.cons.inj hq').2
  have hlink : s.sem.next a = n.next := by rw [Semaphore.next, hn]; rfl
  rw [hlink] at hpop
  have hcounts := h.nodes a
  rw [hn] at hcounts
  -- the state in which the node is dropped
  obtain ⟨sem₁, hsem₁⟩ : ∃ sem₁ : Semaphore W, sem₁ = { s.sem with
    wakeQueueHead := n.next, wakeQueueTail := if n.next = none then none else s.sem.wakeQueueTail,
    grants := s.sem.grants ++ [a] } := ⟨_, rfl⟩
  have hn₁ : sem₁.nodes a = some n := by rw [hsem₁]; exact hn
  obtain ⟨o, hdrop, ho, hnext⟩ := nodeDrop_spec hn₁ hcounts
  have hone : (a :: q).count a = q.count a + 1 := List.count_cons_self
  refine ⟨sem₁.setNode a o, n.waker, ?_, by rw [hsem₁]; rfl, by rw [hsem₁]; rfl, ?_⟩
  · rw [signalAsync, hhead]
    simp only [hn', ok_bind]
    rw [← hsem₁, hdrop]
    rfl
  · have howners : ∀ b, s.owners (a :: q) b = s.owners q b + (decide (b = a)).toNat := by
      intro b
      rw [SemaphoreSystem.owners, SemaphoreSystem.owners, List.count_cons]
      by_cases hb : b = a
      · subst hb
        simp
        omega
      · simp [hb, Ne.symm hb]
    refine ⟨?_, ?_, ?_, ?_, h.single, ?_, ?_, ?_, h.stage⟩
    · have hlinks : IsQueue sem₁.next sem₁.wakeQueueHead sem₁.wakeQueueTail q := by
        rw [hsem₁]
        exact hpop
      exact hlinks.congr fun z hz =>
        next_setNode hn₁ hnext fun he => absurd (he ▸ hz) hnotin
    · rw [hsem₁]
      exact h.blocking
    · intro _
      rw [hsem₁]
      exact h.idle (by simp)
    · have hnodes : ∀ b, NodeCounts (s.owners (a :: q) b) (sem₁.nodes b) := by
        rw [hsem₁]
        exact h.nodes
      refine nodeCounts_update hnodes ?_ ?_
      · have hself := howners a
        simp only [decide_true, Bool.toNat_true] at hself
        rw [hself] at ho
        exact ho
      · intro b hb
        have hb' := howners b
        simp only [hb, decide_false, Bool.toNat_false, Nat.add_zero] at hb'
        exact hb'.symm
    · intro b hb
      have hb' := howners b
      have hzero : s.owners (a :: q) b = 0 := h.fresh b (by rw [hsem₁] at hb; exact hb)
      show s.owners q b = 0
      omega
    · intro b hb
      rw [hsem₁] at hb ⊢
      rcases List.mem_append.mp hb with hb | hb
      · obtain ⟨hbq, hbn⟩ := h.grants b hb
        exact ⟨fun hm => hbq (List.mem_cons_of_mem _ hm), hbn⟩
      · rw [List.mem_singleton.mp hb]
        exact ⟨hnotin, h.lt_nextNode.1 a (List.mem_cons_self ..)⟩
    · intro b hb hbq
      rw [hsem₁]
      show b ∈ s.sem.grants ++ [a]
      by_cases hba : b = a
      · simp [hba]
      · have := h.granted b hb (by simp [hba, hbq])
        exact List.mem_append_left _ this

/-! ## All operations -/

theorem cleanupWait_none {sem : Semaphore W} {f : WaitFuture} (hf : f.node = none) :
    cleanupWait sem f = .ok (sem, { f with counter := futureClrVal }) := by
  rw [cleanupWait, semaphoreWaitPoll]
  simp [hf]

theorem cleanupWait_some {sem sem' : Semaphore W} {f : WaitFuture} {a : Nat}
    (hf : f.node = some a) (hdrop : nodeDrop sem a true = .ok sem') :
    cleanupWait sem f = .ok (sem', { f with counter := futureClrVal }) := by
  rw [cleanupWait, semaphoreWaitPoll]
  simp [hf, hdrop]

/-- The first poll, with a permit there. -/
theorem pollWait_take {sem : Semaphore W} {f : WaitFuture} (hcounter : f.counter = 0)
    (hnode : f.node = none) (hpos : 0 < sem.counter) (waker : W) :
    pollWait sem f waker =
      .ok ({ sem with counter := sem.counter - 1 }, { f with counter := 1 }, .ready) := by
  have hinc : sizeInc f.counter = 1 := by rw [hcounter]; rfl
  rw [pollWait, semaphoreWaitPoll, hinc]
  simp [futureClrVal, hpos, hnode]

/-- The first poll, with none. -/
theorem pollWait_enqueue {sem sem' : Semaphore W} {f : WaitFuture} {a : Nat} {waker : W}
    (hcounter : f.counter = 0) (hzero : sem.counter = 0)
    (henqueue : waitEnqueue sem f.timed waker = .ok (sem', a)) :
    pollWait sem f waker = .ok (sem', { f with counter := 1, node := some a }, .pending) := by
  have hinc : sizeInc f.counter = 1 := by rw [hcounter]; rfl
  rw [pollWait, semaphoreWaitPoll, hinc]
  simp [futureClrVal, hzero, henqueue]

/-- The second poll. It does not look at the semaphore. -/
theorem pollWait_finish {sem : Semaphore W} {f : WaitFuture} (hcounter : f.counter = 1)
    (waker : W) : pollWait sem f waker = .ok (sem, { f with counter := 2 }, .ready) := by
  have hinc : sizeInc f.counter = 2 := by rw [hcounter]; rfl
  rw [pollWait, semaphoreWaitPoll, hinc]
  simp [futureClrVal]

/-- The signals among the operations. -/
def SemaphoreOp.signals : SemaphoreOp W → Nat
  | .signal => 1
  | _ => 0

/-- What the poll of a live wait does. -/
theorem poll_effect (h : WakeQueue q s) {i : Nat} {f : WaitFuture}
    (hget : s.waits[i]? = some ⟨f, .live⟩) (waker : W) :
    ∃ s' q', semaphoreStep s (.poll i waker) = .ok s' ∧ WakeQueue q' s' ∧
      Effect s s' q q' (.poll i waker) ∧ s'.signals = s.signals := by
  rcases h.stage _ (List.mem_of_getElem? hget) rfl with ⟨hcounter, hnode⟩ | ⟨hcounter, hnode⟩
  · by_cases hpos : 0 < s.sem.counter
    · have hidle : q ≠ [] → s.sem.counter - 1 = 0 := fun hq => by rw [h.idle hq]
      refine ⟨_, q, ?_, h.leave hget hnode (v := ⟨{ f with counter := futureClrVal }, .completed⟩)
        (by simp) hidle, .take hget hnode hpos rfl rfl rfl rfl, rfl⟩
      simp only [semaphoreStep, hget, pollWait_take hcounter hnode hpos, ok_bind]
      rw [cleanupWait_none (by exact hnode)]
      rfl
    · have hzero : s.sem.counter = 0 := by omega
      obtain ⟨sem, henqueue, hsem, hgrants, hqueue⟩ := h.enqueue hget hnode
        (v := ⟨{ f with counter := 1, node := some s.sem.nextNode }, .live⟩) rfl rfl rfl hzero
        f.timed waker
      refine ⟨_, _, ?_, hqueue, .enqueue hget hnode hzero rfl rfl hsem hgrants rfl, rfl⟩
      simp only [semaphoreStep, hget, pollWait_enqueue hcounter hzero henqueue, ok_bind]
  · obtain ⟨a, ha⟩ := Option.ne_none_iff_exists'.mp hnode
    obtain ⟨o, hdrop, hqueue⟩ := h.release hget rfl ha
      (v := ⟨{ f with counter := futureClrVal }, .completed⟩) (by simp)
    refine ⟨_, q, ?_, hqueue, .finish hget ha rfl ha rfl rfl rfl, rfl⟩
    simp only [semaphoreStep, hget, pollWait_finish hcounter, ok_bind]
    rw [cleanupWait_some (by exact ha) hdrop]
    rfl

/-- What giving up a live wait does. -/
theorem cleanup_effect (h : WakeQueue q s) {i : Nat} {f : WaitFuture}
    (hget : s.waits[i]? = some ⟨f, .live⟩) :
    ∃ s' q', semaphoreStep s (.cleanup i) = .ok s' ∧ WakeQueue q' s' ∧
      Effect s s' q q' (.cleanup i) ∧ s'.signals = s.signals := by
  cases hnode : f.node with
  | none =>
    refine ⟨_, q, ?_, h.leave hget hnode (v := ⟨{ f with counter := futureClrVal }, .cleaned⟩)
      (by simp) h.idle, .cancel hget rfl rfl rfl rfl rfl, rfl⟩
    simp only [semaphoreStep, hget, cleanupWait_none hnode, ok_bind]
  | some a =>
    obtain ⟨o, hdrop, hqueue⟩ := h.release hget rfl hnode
      (v := ⟨{ f with counter := futureClrVal }, .cleaned⟩) (by simp)
    refine ⟨_, q, ?_, hqueue, .cancel hget rfl rfl rfl rfl rfl, rfl⟩
    simp only [semaphoreStep, hget, cleanupWait_some hnode hdrop, ok_bind]

/-- What a signal does. -/
theorem signal_effect (h : WakeQueue q s) :
    ∃ s' q', semaphoreStep s .signal = .ok s' ∧ WakeQueue q' s' ∧ Effect s s' q q' .signal ∧
      s'.signals = s.signals + 1 := by
  cases q with
  | nil =>
    have hhead : s.sem.wakeQueueHead = none := h.queue.head_eq_none.mpr rfl
    refine ⟨⟨{ s.sem with counter := sizeInc s.sem.counter }, s.waits, s.signals + 1, s.woken ++ []⟩,
      [], ?_, ?_, .post rfl rfl rfl rfl rfl, rfl⟩
    · rw [semaphoreStep, semaphoreSignal, if_neg (by simp [hhead]), if_neg (by simp [hhead]),
        if_neg (by simp [h.blocking])]
      rfl
    · exact ⟨h.queue, h.blocking, fun hq => absurd rfl hq, h.nodes, h.single, h.fresh, h.grants,
        h.granted, h.stage⟩
  | cons a q =>
    obtain ⟨sem, waker, hok, hcounter, hgrants, hqueue⟩ := h.grant
    have hhead : s.sem.wakeQueueHead = some a := h.queue.chain.1
    refine ⟨⟨sem, s.waits, s.signals + 1, s.woken ++ [waker]⟩, q, ?_, ?_,
      .grant rfl rfl hcounter hgrants, rfl⟩
    · rw [semaphoreStep, semaphoreSignal, if_neg (by simp [h.blocking]), if_pos (by simp [hhead]),
        hok]
      rfl
    · exact ⟨hqueue.queue, hqueue.blocking, hqueue.idle, hqueue.nodes, hqueue.single, hqueue.fresh,
        hqueue.grants, hqueue.granted, hqueue.stage⟩

/-- **What an operation does**: one of the effects, if there is such a call. -/
theorem semaphoreStep_effect (h : WakeQueue q s) (o : SemaphoreOp W) :
    semaphoreStep s o = .error .noSuchCall ∨
      ∃ s' q', semaphoreStep s o = .ok s' ∧ WakeQueue q' s' ∧ Effect s s' q q' o ∧
        s'.signals = s.signals + o.signals := by
  cases o with
  | wait timed => exact Or.inr ⟨_, q, rfl, h.newWait timed, .wait timed rfl rfl rfl, rfl⟩
  | poll i waker =>
    cases hget : s.waits[i]? with
    | none => exact Or.inl (by simp only [semaphoreStep, hget])
    | some w =>
      obtain ⟨f, stage⟩ := w
      cases stage with
      | live => exact Or.inr (poll_effect h hget waker)
      | completed => exact Or.inl (by simp only [semaphoreStep, hget])
      | cleaned => exact Or.inl (by simp only [semaphoreStep, hget])
  | cleanup i =>
    cases hget : s.waits[i]? with
    | none => exact Or.inl (by simp only [semaphoreStep, hget])
    | some w =>
      obtain ⟨f, stage⟩ := w
      cases stage with
      | live => exact Or.inr (cleanup_effect h hget)
      | completed => exact Or.inl (by simp only [semaphoreStep, hget])
      | cleaned => exact Or.inl (by simp only [semaphoreStep, hget])
  | signal => exact Or.inr (signal_effect h)

theorem semaphoreStep_ok {o : SemaphoreOp W} (h : WakeQueue q s) (hok : semaphoreStep s o = .ok s') :
    ∃ q', WakeQueue q' s' ∧ Effect s s' q q' o ∧ s'.signals = s.signals + o.signals := by
  rcases semaphoreStep_effect h o with herror | ⟨s'', q', hok', hqueue, heffect, hsignals⟩
  · rw [hok] at herror
    cases herror
  · rw [hok] at hok'
    cases hok'
    exact ⟨q', hqueue, heffect, hsignals⟩

end Taskio
