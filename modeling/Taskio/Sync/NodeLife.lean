import Taskio.Lib.Run
import Taskio.Sync.NodeWaker

/-!
# The life of a node

A node has two owners, the queue and the future, and each lets go of it once: the queue at a signal or
in `taskio_semaphore_drop`, the future when it is cleaned up. Here a future that returned ready is
cleaned up in a later step, and the semaphore is dropped at the end.

* `NodeLife` — below its flags a node counts the owners that it still has
* `nodeLife_step` — no step reads a node that was freed, and each keeps the count
* `nodes_freed_once` — over all runs, every node is freed once
-/

namespace Taskio

open Lib (Chain IsQueue)

variable {W : Type}

/-! ## The semaphore is dropped -/

/-- The loop of `taskio_semaphore_drop`. `none` when the fuel ends before the loop does. -/
def semaphoreDropLoop : Nat → Semaphore W → Option Nat → Except Fault (Option (Semaphore W))
  | _, s, none => .ok (some s)
  | 0, _, some _ => .ok none
  | fuel + 1, s, some a => do
    let node ← s.node a
    let s ← nodeDrop s a false
    semaphoreDropLoop fuel s node.next

/-- `taskio_semaphore_drop`. -/
def semaphoreDrop (s : Semaphore W) : Except Fault (Option (Semaphore W)) :=
  semaphoreDropLoop s.nextNode s s.wakeQueueHead

/-! ## A semaphore to its end -/

/-- A semaphore and its waits, where `completed` is the stage of a future that returned ready and is
not cleaned up yet. `freed` records the nodes that were freed. -/
structure NodeSystem (W : Type) where
  sem : Semaphore W
  waits : List Wait
  dropped : Bool
  freed : List Nat

inductive NodeOp (W : Type) where
  | wait (timed : Bool)
  | poll (i : Nat) (waker : W)
  | cleanup (i : Nat)
  | signal
  | drop
deriving DecidableEq, Repr

/-- The nodes that are freed between two states. -/
def freedBetween (s s' : Semaphore W) : List Nat :=
  (List.range s.nextNode).filter fun a => (s.nodes a).isSome && (s'.nodes a).isNone

namespace NodeSystem

def setSem (s : NodeSystem W) (sem : Semaphore W) : NodeSystem W :=
  { s with sem := sem, freed := s.freed ++ freedBetween s.sem sem }

def setWait (s : NodeSystem W) (i : Nat) (w : Wait) : NodeSystem W :=
  { s with waits := s.waits.set i w }

end NodeSystem

def nodeSystem (W : Type) (permits : UInt64) : NodeSystem W :=
  { sem := semaphoreInit W permits, waits := [], dropped := false, freed := [] }

/-- The semaphore is dropped once, and after it no wait is polled for the first time and nothing is
signalled. -/
def nodeStep (s : NodeSystem W) : NodeOp W → Except Fault (NodeSystem W)
  | .wait timed => .ok { s with waits := s.waits ++ [⟨semaphoreWait timed, .live⟩] }
  | .poll i waker =>
    match s.waits[i]? with
    | some ⟨future, .live⟩ =>
      if s.dropped ∧ future.counter = 0 then .error .noSuchCall
      else do
        let (sem, future, poll) ← pollWait s.sem future waker
        .ok ((s.setSem sem).setWait i ⟨future, if poll = .ready then .completed else .live⟩)
    | _ => .error .noSuchCall
  | .cleanup i =>
    match s.waits[i]? with
    | some ⟨_, .cleaned⟩ | none => .error .noSuchCall
    | some ⟨future, _⟩ => do
      let (sem, future) ← cleanupWait s.sem future
      .ok ((s.setSem sem).setWait i ⟨future, .cleaned⟩)
  | .signal =>
    if s.dropped then .error .noSuchCall
    else do
      let (sem, _) ← semaphoreSignal s.sem
      .ok (s.setSem sem)
  | .drop =>
    if s.dropped then .error .noSuchCall
    else do
      match ← semaphoreDrop s.sem with
      | some sem => .ok { s.setSem sem with dropped := true }
      | none => .error .outOfBounds

/-- The wait has queued a node that no signal has taken, and was not cleaned up. -/
def Wait.pending (grants : List Nat) (w : Wait) : Prop :=
  w.stage ≠ .cleaned ∧ ∃ a ∈ w.future.node, a ∉ grants

instance (grants : List Nat) (w : Wait) : Decidable (w.pending grants) :=
  inferInstanceAs (Decidable (_ ∧ _))

/-- No plain wait is pending when the semaphore is dropped. -/
def DropsInTime (s : NodeSystem W) : NodeOp W → Prop
  | .drop => ∀ w ∈ s.waits, w.future.timed = false → ¬ w.pending s.sem.grants
  | .wait _ | .poll _ _ | .cleanup _ | .signal => True

instance (s : NodeSystem W) : ∀ o, Decidable (DropsInTime s o)
  | .drop => inferInstanceAs (Decidable (∀ w ∈ s.waits, _))
  | .wait _ | .poll _ _ | .cleanup _ | .signal => .isTrue trivial

/-! ## The invariant -/

/-- The wait as its owner sees it: a future that is not cleaned up holds its node. -/
def Wait.held (w : Wait) : Wait :=
  ⟨{ w.future with counter := if w.future.node = none then 0 else 1 },
    if w.stage = .cleaned then .cleaned else .live⟩

/-- The semaphore with the waits that hold their nodes. -/
def NodeSystem.held (s : NodeSystem W) : SemaphoreSystem W :=
  { sem := s.sem, waits := s.waits.map Wait.held, signals := 0, woken := [] }

/-- The flag of a node. -/
def nodeFlag (timed : Bool) : Nat := if timed then nodeTimed else nodePlain

/-- What holds in any case: how far the futures are, what the flags are, and what was freed. -/
structure NodeFacts (s : NodeSystem W) : Prop where
  polls : ∀ w ∈ s.waits, w.stage = .live →
    w.future.counter = 0 ∧ w.future.node = none ∨ w.future.counter = 1 ∧ w.future.node ≠ none
  flags : ∀ w ∈ s.waits, w.stage ≠ .cleaned → ∀ a, w.future.node = some a →
    ∀ n, s.sem.nodes a = some n → ∃ c ≤ 2, n.counter = nodeFlag w.future.timed + c
  freed : ∀ a, s.freed.count a = if a < s.sem.nextNode ∧ s.sem.nodes a = none then 1 else 0

/-- The semaphore is gone, and the futures own what is left. -/
structure OwnedByFutures (s : NodeSystem W) : Prop where
  nodes : ∀ a, NodeCounts (s.held.owners [] a) (s.sem.nodes a)
  single : ∀ a, s.held.owners [] a ≤ 1
  fresh : ∀ a, s.sem.nextNode ≤ a → s.held.owners [] a = 0

structure NodeLife (s : NodeSystem W) : Prop where
  facts : NodeFacts s
  used : s.dropped = false → ∃ q, WakeQueue q s.held
  orphans : s.dropped = true → OwnedByFutures s

variable {s s' : NodeSystem W} {sem sem' : Semaphore W} {q : List Nat} {o : NodeOp W}

/-! ## Counters and what is freed -/

/-- No node is new, and a counter goes down by one at most. -/
def KeepsCount (s s' : Semaphore W) : Prop :=
  ∀ x n', s'.nodes x = some n' →
    ∃ n, s.nodes x = some n ∧ (n.counter = n'.counter ∨ n.counter = n'.counter + 1)

theorem KeepsCount.refl (s : Semaphore W) : KeepsCount s s := fun _ n hn => ⟨n, hn, Or.inl rfl⟩

theorem keepsCount_setNode {a : Nat} {n : SemaphoreNode W} {o : Option (SemaphoreNode W)}
    (hn : sem.nodes a = some n)
    (ho : ∀ n', o = some n' → n.counter = n'.counter ∨ n.counter = n'.counter + 1) :
    KeepsCount sem (sem.setNode a o) := by
  intro x n' hn'
  simp only [Semaphore.setNode] at hn'
  by_cases hx : x = a
  · subst hx
    rw [Function.update_self] at hn'
    exact ⟨n, hn, ho n' hn'⟩
  · rw [Function.update_of_ne hx] at hn'
    exact ⟨n', hn', Or.inl rfl⟩

theorem nodeDrop_keepsCount {a : Nat} {willWake : Bool} {n : SemaphoreNode W}
    (hn : sem.nodes a = some n) (hpos : 0 < n.counter) (h : nodeDrop sem a willWake = .ok sem') :
    KeepsCount sem sem' ∧ sem'.nextNode = sem.nextNode := by
  rw [nodeDrop, Semaphore.node, hn] at h
  simp only [ok_bind] at h
  have hdec : n.counter = sizeDec n.counter + 1 := by
    rw [sizeDec_of_pos hpos]
    omega
  split at h
  · cases h
    refine ⟨?_, rfl⟩
    have hset : (sem.setNode a (some { n with counter := sizeDec n.counter })).setNode a none =
        sem.setNode a none := by simp [Semaphore.setNode]
    rw [hset]
    exact keepsCount_setNode hn (by rintro n' ⟨⟩)
  · cases h
    refine ⟨keepsCount_setNode hn ?_, rfl⟩
    rintro n' ⟨⟩
    exact Or.inr hdec

/-- The counters of the nodes, whoever owns them. -/
def NodesCounted (s : Semaphore W) : Prop := ∀ a, ∃ c, NodeCounts c (s.nodes a)

theorem NodesCounted.pos {a : Nat} {n : SemaphoreNode W} (h : NodesCounted sem)
    (hn : sem.nodes a = some n) : 0 < n.counter := by
  obtain ⟨c, hc⟩ := h a
  rw [hn] at hc
  obtain ⟨hpos, -, hflags⟩ := hc
  rcases hflags with hflag | hflag <;> omega

theorem count_freedBetween (s s' : Semaphore W) (a : Nat) :
    (freedBetween s s').count a =
      if a < s.nextNode ∧ s.nodes a ≠ none ∧ s'.nodes a = none then 1 else 0 := by
  have hnodup : (freedBetween s s').Nodup := List.nodup_range.filter _
  have hmem : a ∈ freedBetween s s' ↔ a < s.nextNode ∧ s.nodes a ≠ none ∧ s'.nodes a = none := by
    rw [freedBetween, List.mem_filter, List.mem_range]
    simp [Option.isSome_iff_ne_none]
  by_cases ha : a ∈ freedBetween s s'
  · rw [if_pos (hmem.mp ha)]
    exact List.count_eq_one_of_mem hnodup ha
  · rw [if_neg fun hand => ha (hmem.mpr hand)]
    exact List.count_eq_zero.mpr ha

/-- The record of what was freed is right after a change in which no freed node comes back. -/
theorem NodeFacts.freed_setSem (h : NodeFacts s)
    (hdead : ∀ a, a < s.sem.nextNode → s.sem.nodes a = none → sem.nodes a = none)
    (hnext : s.sem.nextNode ≤ sem.nextNode)
    (hnew : ∀ a, s.sem.nextNode ≤ a → a < sem.nextNode → sem.nodes a ≠ none) (a : Nat) :
    (s.setSem sem).freed.count a = if a < sem.nextNode ∧ sem.nodes a = none then 1 else 0 := by
  show (s.freed ++ freedBetween s.sem sem).count a = _
  rw [List.count_append, h.freed a, count_freedBetween]
  by_cases hlt : a < s.sem.nextNode
  · have hlt' : a < sem.nextNode := by omega
    by_cases hnone : s.sem.nodes a = none
    · simp [hlt, hlt', hnone, hdead a hlt hnone]
    · simp [hlt, hlt', hnone]
  · by_cases hlt' : a < sem.nextNode
    · simp [hlt, hnew a (by omega) hlt']
    · simp [hlt, hlt']

/-- The calls of `_node_drop` keep the facts. -/
theorem NodeFacts.setSem (h : NodeFacts s) (hcounted : NodesCounted s.sem)
    (hkeeps : KeepsCount s.sem sem) (hnext : sem.nextNode = s.sem.nextNode) :
    NodeFacts (s.setSem sem) := by
  refine ⟨h.polls, ?_, h.freed_setSem ?_ (by omega) (by omega)⟩
  · intro w hw hstage a ha n' hn'
    obtain ⟨n, hn, hcounter⟩ := hkeeps a n' hn'
    obtain ⟨c, hc, hflag⟩ := h.flags w hw hstage a ha n hn
    obtain ⟨c', hc'⟩ := hcounted a
    rw [hn] at hc'
    obtain ⟨hpos, hle, hflags⟩ := hc'
    have htimed : nodeTimed = 32 := rfl
    have hplain : nodePlain = 16 := rfl
    refine ⟨c - (n.counter - n'.counter), by omega, ?_⟩
    cases htime : w.future.timed with
    | true =>
      rw [htime, nodeFlag, if_pos rfl] at hflag
      rw [nodeFlag, if_pos rfl]
      omega
    | false =>
      rw [htime, nodeFlag, if_neg Bool.false_ne_true] at hflag
      rw [nodeFlag, if_neg Bool.false_ne_true]
      omega
  · intro a _ hnone
    by_contra hlive
    obtain ⟨n', hn'⟩ := Option.ne_none_iff_exists'.mp hlive
    obtain ⟨n, hn, -⟩ := hkeeps a n' hn'
    rw [hnone] at hn
    cases hn

theorem NodeFacts.setWait {i : Nat} {w v : Wait} (h : NodeFacts s) (hget : s.waits[i]? = some w)
    (hlive : v.stage ≠ .live)
    (hsame : v.stage ≠ .cleaned → w.stage ≠ .cleaned ∧ v.future.node = w.future.node ∧
      v.future.timed = w.future.timed) : NodeFacts (s.setWait i v) := by
  refine ⟨?_, ?_, h.freed⟩
  · intro x hx hstage
    rcases List.mem_or_eq_of_mem_set hx with hx | rfl
    · exact h.polls x hx hstage
    · exact absurd hstage hlive
  · intro x hx hstage a ha n hn
    rcases List.mem_or_eq_of_mem_set hx with hx | rfl
    · exact h.flags x hx hstage a ha n hn
    · obtain ⟨hw, hnode, htimed⟩ := hsame hstage
      rw [htimed]
      exact h.flags w (List.mem_of_getElem? hget) hw a (by rw [← hnode]; exact ha) n hn

/-! ## The waits that hold nodes -/

theorem NodeSystem.held_get {i : Nat} {w : Wait} (hget : s.waits[i]? = some w) :
    s.held.waits[i]? = some w.held := by
  rw [NodeSystem.held, List.getElem?_map, hget]
  rfl

theorem NodeSystem.held_setWait (s : NodeSystem W) (i : Nat) (v : Wait) :
    (s.setWait i v).held = { s.held with waits := s.held.waits.set i v.held } := by
  simp only [NodeSystem.held, NodeSystem.setWait, List.map_set]

/-- A wait that holds what it held. -/
theorem NodeSystem.held_setWait_same {i : Nat} {w v : Wait} (hget : s.waits[i]? = some w)
    (hv : v.held = w.held) : (s.setWait i v).held = s.held := by
  rw [NodeSystem.held_setWait, hv]
  have hset : s.held.waits.set i w.held = s.held.waits := by
    obtain ⟨hi, he⟩ := List.getElem?_eq_some_iff.mp (NodeSystem.held_get hget)
    rw [← he]
    exact List.set_getElem_self hi
  rw [hset]

theorem WakeQueue.counted {m : SemaphoreSystem W} (h : WakeQueue q m) : NodesCounted m.sem :=
  fun a => ⟨_, h.nodes a⟩

theorem NodeLife.counted (h : NodeLife s) : NodesCounted s.sem := by
  cases hdropped : s.dropped with
  | false =>
    obtain ⟨q, hq⟩ := h.used hdropped
    exact hq.counted
  | true => exact fun a => ⟨_, (h.orphans hdropped).nodes a⟩

/-! ## The polls -/

/-- The second poll, which returns ready. -/
theorem second_poll_life {i : Nat} {f : WaitFuture} (h : NodeLife s)
    (hget : s.waits[i]? = some ⟨f, .live⟩) :
    NodeLife ((s.setSem s.sem).setWait i ⟨{ f with counter := 2 }, .completed⟩) := by
  have hheld : ((s.setSem s.sem).setWait i ⟨{ f with counter := 2 }, .completed⟩).held = s.held :=
    NodeSystem.held_setWait_same (s := s.setSem s.sem) hget rfl
  refine ⟨?_, ?_, ?_⟩
  · exact (h.facts.setSem h.counted (KeepsCount.refl _) rfl).setWait hget (by simp)
      fun _ => ⟨by simp, rfl, rfl⟩
  · intro hdropped
    rw [hheld]
    exact h.used hdropped
  · intro hdropped
    obtain ⟨hnodes, hsingle, hfresh⟩ := h.orphans hdropped
    rw [← hheld] at hnodes hsingle hfresh
    exact ⟨hnodes, hsingle, hfresh⟩

/-- The first poll, with a permit there. -/
theorem take_life {i : Nat} {f : WaitFuture} (h : NodeLife s) (hdropped : s.dropped = false)
    (hget : s.waits[i]? = some ⟨f, .live⟩) :
    NodeLife ((s.setSem { s.sem with counter := s.sem.counter - 1 }).setWait i
      ⟨{ f with counter := 1 }, .completed⟩) := by
  obtain ⟨q, hq⟩ := h.used hdropped
  have hkeeps : KeepsCount s.sem { s.sem with counter := s.sem.counter - 1 } :=
    fun _ n hn => ⟨n, hn, Or.inl rfl⟩
  refine ⟨?_, fun _ => ⟨q, ?_⟩, ?_⟩
  · exact (h.facts.setSem h.counted hkeeps rfl).setWait hget (by simp)
      fun _ => ⟨by simp, rfl, rfl⟩
  · have hheld := NodeSystem.held_setWait_same
      (s := s.setSem { s.sem with counter := s.sem.counter - 1 }) (w := ⟨f, .live⟩)
      (v := ⟨{ f with counter := 1 }, .completed⟩) hget rfl
    rw [hheld]
    have hidle : q ≠ [] → s.sem.counter - 1 = 0 := by
      intro hne
      have hzero : s.sem.counter = 0 := hq.idle hne
      omega
    exact hq.ofSameHolds (fun _ => rfl) hidle hq.stage
  · intro htrue
    have htrue : s.dropped = true := htrue
    rw [hdropped] at htrue
    cases htrue

/-- The new node of a wait has its flag, and no other changes its counter. -/
theorem waitEnqueue_counts {timed : Bool} {waker : W} {a : Nat}
    (h : waitEnqueue sem timed waker = .ok (sem', a)) :
    ∀ x n', sem'.nodes x = some n' → x = sem.nextNode ∧ n'.counter = nodeFlag timed + 2 ∨
      ∃ n, sem.nodes x = some n ∧ n.counter = n'.counter := by
  have hnew : ∀ x n', Function.update sem.nodes sem.nextNode (some (waitNode sem timed waker)) x =
      some n' → x = sem.nextNode ∧ n'.counter = nodeFlag timed + 2 ∨
        ∃ n, sem.nodes x = some n ∧ n.counter = n'.counter := by
    intro x n' hn'
    by_cases hx : x = sem.nextNode
    · rw [hx, Function.update_self] at hn'
      cases hn'
      refine Or.inl ⟨hx, ?_⟩
      cases timed with
      | true => rfl
      | false => rfl
    · rw [Function.update_of_ne hx] at hn'
      exact Or.inr ⟨n', hn', rfl⟩
  unfold waitEnqueue at h
  simp only at h
  split at h
  · cases h
    exact hnew
  · split at h
    · cases h
    · rename_i t _
      obtain ⟨last, hlast, h⟩ := bind_eq_ok.mp h
      cases h
      intro x n' hn'
      have hlast : Function.update sem.nodes sem.nextNode (some (waitNode sem timed waker)) t =
          some last := semaphore_node_ok.mp hlast
      simp only [Semaphore.setNode] at hn'
      by_cases hx : x = t
      · rw [hx, Function.update_self] at hn'
        cases hn'
        rw [hx]
        exact hnew t last hlast
      · rw [Function.update_of_ne hx] at hn'
        exact hnew x n' hn'

/-- The first poll, with none. -/
theorem enqueue_life {i : Nat} {f : WaitFuture} (h : NodeLife s) (hdropped : s.dropped = false)
    (hget : s.waits[i]? = some ⟨f, .live⟩) (hnode : f.node = none) (hzero : s.sem.counter = 0)
    (waker : W) :
    ∃ sem, waitEnqueue s.sem f.timed waker = .ok (sem, s.sem.nextNode) ∧
      NodeLife ((s.setSem sem).setWait i
        ⟨{ f with counter := 1, node := some s.sem.nextNode }, .live⟩) := by
  obtain ⟨q, hq⟩ := h.used hdropped
  obtain ⟨sem, henqueue, -, -, hq'⟩ := hq.enqueue
    (v := Wait.held ⟨{ f with counter := 1, node := some s.sem.nextNode }, .live⟩)
    (NodeSystem.held_get hget) hnode rfl rfl (by simp [Wait.held]) hzero f.timed waker
  obtain ⟨sem', henqueue', -, -, -, -, hnext, -, -⟩ := waitEnqueue_ok hq f.timed waker
  obtain rfl : sem = sem' := by
    have heq := henqueue.symm.trans henqueue'
    cases heq
    rfl
  have henqueue : waitEnqueue s.sem f.timed waker = .ok (sem, s.sem.nextNode) := henqueue
  have hnext : sem.nextNode = s.sem.nextNode + 1 := hnext
  have hunused : s.sem.nodes s.sem.nextNode = none := hq.nextNode_unused.2.2
  refine ⟨sem, henqueue, ⟨⟨?_, ?_, ?_⟩, fun _ => ⟨q ++ [s.sem.nextNode], ?_⟩, ?_⟩⟩
  · intro x hx hlive
    rcases List.mem_or_eq_of_mem_set hx with hx | rfl
    · exact h.facts.polls x hx hlive
    · exact Or.inr ⟨rfl, by simp⟩
  · intro x hx hstage a ha n' hn'
    have hn' : sem.nodes a = some n' := hn'
    have hold : ∀ w ∈ s.waits, w.stage ≠ .cleaned → w.future.node = some a →
        ∃ c ≤ 2, n'.counter = nodeFlag w.future.timed + c := by
      intro w hw hstage ha
      obtain ⟨j, hj⟩ := List.getElem?_of_mem hw
      have hlt : a < s.sem.nextNode := by
        refine hq.lt_nextNode.2 w.held (List.mem_of_getElem? (NodeSystem.held_get hj)) ?_ a ha
        simp [Wait.held, hstage]
      rcases waitEnqueue_counts henqueue a n' hn' with ⟨rfl, -⟩ | ⟨n, hn, hcounter⟩
      · exact absurd hlt (Nat.lt_irrefl _)
      · rw [← hcounter]
        exact h.facts.flags w hw hstage a ha n hn
    rcases List.mem_or_eq_of_mem_set hx with hx | rfl
    · exact hold x hx hstage ha
    · cases ha
      rcases waitEnqueue_counts henqueue _ n' hn' with ⟨-, hcounter⟩ | ⟨n, hn, -⟩
      · exact ⟨2, Nat.le_refl 2, hcounter⟩
      · rw [hunused] at hn
        cases hn
  · refine h.facts.freed_setSem ?_ (by omega) ?_
    · intro a ha hnone
      by_contra hlive
      obtain ⟨n', hn'⟩ := Option.ne_none_iff_exists'.mp hlive
      rcases waitEnqueue_counts henqueue a n' hn' with ⟨rfl, -⟩ | ⟨n, hn, -⟩
      · exact absurd ha (Nat.lt_irrefl _)
      · rw [hnone] at hn
        cases hn
    · intro a ha ha'
      obtain rfl : a = s.sem.nextNode := by omega
      obtain ⟨n, hn, -⟩ := hq'.node_of_mem (List.mem_append_right q (List.mem_singleton_self _))
      have hn : sem.nodes s.sem.nextNode = some n := hn
      rw [hn]
      exact Option.some_ne_none n
  · rw [NodeSystem.held_setWait]
    exact hq'
  · intro htrue
    have htrue : s.dropped = true := htrue
    rw [hdropped] at htrue
    cases htrue

/-- **What a poll does.** -/
theorem poll_life {i : Nat} {f : WaitFuture} {waker : W} (h : NodeLife s)
    (hget : s.waits[i]? = some ⟨f, .live⟩)
    (hcalls : nodeStep s (.poll i waker) ≠ .error .noSuchCall) :
    ∃ s', nodeStep s (.poll i waker) = .ok s' ∧ NodeLife s' := by
  simp only [nodeStep, hget] at hcalls ⊢
  rcases h.facts.polls _ (List.mem_of_getElem? hget) rfl with ⟨hcounter, hnode⟩ | ⟨hcounter, hnode⟩
  · have hcounter : f.counter = 0 := hcounter
    by_cases hdropped : s.dropped = true
    · exact absurd (if_pos ⟨hdropped, hcounter⟩) hcalls
    · have hdropped' : s.dropped = false := by simpa using hdropped
      simp only [if_neg (fun hand : s.dropped = true ∧ f.counter = 0 => hdropped hand.1)]
      by_cases hpos : 0 < s.sem.counter
      · rw [pollWait_take hcounter hnode hpos, ok_bind]
        exact ⟨_, rfl, take_life h hdropped' hget⟩
      · obtain ⟨sem, henqueue, hlife⟩ := enqueue_life h hdropped' hget hnode (by omega) waker
        rw [pollWait_enqueue hcounter (by omega) henqueue, ok_bind]
        exact ⟨_, rfl, hlife⟩
  · have hcounter : f.counter = 1 := hcounter
    simp only [if_neg (fun hand : s.dropped = true ∧ f.counter = 0 => by omega)]
    rw [pollWait_finish hcounter, ok_bind]
    exact ⟨_, rfl, second_poll_life h hget⟩

/-! ## The clean-up -/

/-- A future that has queued nothing is cleaned up. -/
theorem cleanup_none_life {i : Nat} {w : Wait} (h : NodeLife s) (hget : s.waits[i]? = some w)
    (hnode : w.future.node = none) :
    NodeLife ((s.setSem s.sem).setWait i
      ⟨{ w.future with counter := futureClrVal }, .cleaned⟩) := by
  refine ⟨?_, ?_, ?_⟩
  · exact (h.facts.setSem h.counted (KeepsCount.refl _) rfl).setWait hget (by simp) (by simp)
  · intro hdropped
    obtain ⟨q, hq⟩ := h.used hdropped
    refine ⟨q, ?_⟩
    rw [NodeSystem.held_setWait]
    exact hq.leave (NodeSystem.held_get hget) hnode (by simp [Wait.held]) hq.idle
  · intro hdropped
    obtain ⟨hnodes, hsingle, hfresh⟩ := h.orphans hdropped
    have howners : ∀ a, ((s.setSem s.sem).setWait i
        ⟨{ w.future with counter := futureClrVal }, .cleaned⟩).held.owners [] a =
        s.held.owners [] a := by
      intro a
      have hset := Lib.countP_set_add (·.holds a) (NodeSystem.held_get hget)
        (Wait.held ⟨{ w.future with counter := futureClrVal }, .cleaned⟩)
      have hnot : ∀ w' : Wait, w'.future.node = none → w'.held.holds a = false := by
        intro w' hw'
        exact decide_eq_false fun hand => nomatch hw'.symm.trans hand.2
      rw [hnot w hnode, hnot ⟨{ w.future with counter := futureClrVal }, .cleaned⟩ hnode] at hset
      rw [NodeSystem.held_setWait]
      exact congrArg (([] : List Nat).count a + ·) (Nat.add_right_cancel hset)
    exact ⟨fun a => by rw [howners]; exact hnodes a, fun a => by rw [howners]; exact hsingle a,
      fun a ha => by rw [howners]; exact hfresh a ha⟩

/-- A future of a semaphore that was dropped lets go of its node: it is one of the owners. -/
theorem OwnedByFutures.cleanup {i a : Nat} {w : Wait} (h : OwnedByFutures s)
    (hget : s.waits[i]? = some w) (hstage : w.stage ≠ .cleaned) (hnode : w.future.node = some a) :
    ∃ o, nodeDrop s.sem a true = .ok (s.sem.setNode a o) ∧
      OwnedByFutures ((s.setSem (s.sem.setNode a o)).setWait i
        ⟨{ w.future with counter := futureClrVal }, .cleaned⟩) := by
  obtain ⟨hnodes, hsingle, hfresh⟩ := h
  have hlive : w.held.stage = .live := if_neg hstage
  have howners : ∀ sem b, ((s.setSem sem).setWait i
      ⟨{ w.future with counter := futureClrVal }, .cleaned⟩).held.owners [] b +
      (decide (b = a)).toNat = s.held.owners [] b := by
    intro sem b
    have hset := Lib.countP_set_add (·.holds b) (NodeSystem.held_get hget)
      (Wait.held ⟨{ w.future with counter := futureClrVal }, .cleaned⟩)
    have hholds : w.held.holds b = decide (b = a) := by
      have hheld : w.held.future.node = some a := hnode
      simp [Wait.holds, hlive, hheld, eq_comm]
    have hgone : Wait.holds b (Wait.held
        ⟨{ w.future with counter := futureClrVal }, .cleaned⟩) = false := by
      simp [Wait.holds, Wait.held]
    rw [hholds, hgone] at hset
    rw [NodeSystem.held_setWait, SemaphoreSystem.owners, SemaphoreSystem.owners, List.count_nil,
      Nat.zero_add, Nat.zero_add]
    exact hset
  have hself := howners s.sem a
  simp only [decide_true, Bool.toNat_true] at hself
  have hcounts := hnodes a
  cases hn : s.sem.nodes a with
  | none =>
    rw [hn] at hcounts
    have hzero : s.held.owners [] a = 0 := hcounts
    omega
  | some n =>
    rw [hn] at hcounts
    obtain ⟨o, hdrop, ho, -⟩ := nodeDrop_spec hn hcounts
    refine ⟨o, hdrop, ?_, ?_, ?_⟩
    · refine nodeCounts_update hnodes ?_ ?_
      · have hless := howners (s.sem.setNode a o) a
        simp only [decide_true, Bool.toNat_true] at hless
        rw [← hless, Nat.add_sub_cancel] at ho
        exact ho
      · intro b hb
        have hsame := howners (s.sem.setNode a o) b
        simpa [hb] using hsame
    · intro b
      have hle := hsingle b
      have hset := howners (s.sem.setNode a o) b
      omega
    · intro b hb
      have hzero := hfresh b hb
      have hset := howners (s.sem.setNode a o) b
      omega

/-- A future lets go of its node. -/
theorem cleanup_some_life {i a : Nat} {w : Wait} (h : NodeLife s) (hget : s.waits[i]? = some w)
    (hstage : w.stage ≠ .cleaned) (hnode : w.future.node = some a) :
    ∃ sem, nodeDrop s.sem a true = .ok sem ∧ NodeLife ((s.setSem sem).setWait i
      ⟨{ w.future with counter := futureClrVal }, .cleaned⟩) := by
  have hlive : w.held.stage = .live := if_neg hstage
  have hkept : ∀ sem, nodeDrop s.sem a true = .ok sem → NodeFacts ((s.setSem sem).setWait i
      ⟨{ w.future with counter := futureClrVal }, .cleaned⟩) := by
    intro sem hdrop
    obtain ⟨n, hn, -⟩ := bind_eq_ok.mp hdrop
    have hn := semaphore_node_ok.mp hn
    obtain ⟨hkeeps, hnext⟩ := nodeDrop_keepsCount hn (h.counted.pos hn) hdrop
    exact (h.facts.setSem h.counted hkeeps hnext).setWait hget (by simp) (by simp)
  cases hdropped : s.dropped with
  | false =>
    obtain ⟨q, hq⟩ := h.used hdropped
    obtain ⟨o, hdrop, hq'⟩ := hq.release (NodeSystem.held_get hget) hlive hnode
      (v := Wait.held ⟨{ w.future with counter := futureClrVal }, .cleaned⟩) (by simp [Wait.held])
    refine ⟨_, hdrop, hkept _ hdrop, fun _ => ⟨q, ?_⟩, ?_⟩
    · rw [NodeSystem.held_setWait]
      exact hq'
    · intro htrue
      have htrue : s.dropped = true := htrue
      rw [hdropped] at htrue
      cases htrue
  | true =>
    obtain ⟨o, hdrop, howned⟩ := (h.orphans hdropped).cleanup hget hstage hnode
    refine ⟨_, hdrop, hkept _ hdrop, ?_, fun _ => howned⟩
    intro hfalse
    have hfalse : s.dropped = false := hfalse
    rw [hdropped] at hfalse
    cases hfalse

/-- **What a clean-up does.** -/
theorem cleanup_life {i : Nat} {w : Wait} (h : NodeLife s) (hget : s.waits[i]? = some w)
    (hstage : w.stage ≠ .cleaned) :
    ∃ s', nodeStep s (.cleanup i) = .ok s' ∧ NodeLife s' := by
  have hstep : ∀ sem future, cleanupWait s.sem w.future = .ok (sem, future) →
      nodeStep s (.cleanup i) = .ok ((s.setSem sem).setWait i ⟨future, .cleaned⟩) := by
    intro sem future hclean
    obtain ⟨f, stage⟩ := w
    cases stage with
    | live => simp only [nodeStep, hget, hclean, ok_bind]
    | completed => simp only [nodeStep, hget, hclean, ok_bind]
    | cleaned => exact absurd rfl hstage
  cases hnode : w.future.node with
  | none => exact ⟨_, hstep _ _ (cleanupWait_none hnode), cleanup_none_life h hget hnode⟩
  | some a =>
    obtain ⟨sem, hdrop, hlife⟩ := cleanup_some_life h hget hstage hnode
    exact ⟨_, hstep _ _ (cleanupWait_some hnode hdrop), hlife⟩

/-! ## The signals -/

theorem signalAsync_keepsCount {called : Option W} (hcounted : NodesCounted sem)
    (h : signalAsync sem = .ok (sem', called)) :
    KeepsCount sem sem' ∧ sem'.nextNode = sem.nextNode := by
  rw [signalAsync] at h
  split at h
  · cases h
  · rename_i a _
    obtain ⟨n, hn, h⟩ := bind_eq_ok.mp h
    obtain ⟨sem₁, hdrop, h⟩ := bind_eq_ok.mp h
    cases h
    have hn := semaphore_node_ok.mp hn
    have hkeeps : KeepsCount
        { sem with
          wakeQueueHead := n.next
          wakeQueueTail := if n.next = none then none else sem.wakeQueueTail
          grants := sem.grants ++ [a] } sem' ∧ sem'.nextNode = sem.nextNode :=
      nodeDrop_keepsCount hn (hcounted.pos hn) hdrop
    exact hkeeps

theorem semaphoreSignal_keepsCount {called : Option W} (hcounted : NodesCounted sem)
    (h : semaphoreSignal sem = .ok (sem', called)) :
    KeepsCount sem sem' ∧ sem'.nextNode = sem.nextNode := by
  rw [semaphoreSignal] at h
  split at h
  · simp only at h
    split at h
    · have hkeeps : KeepsCount { sem with priority := sizeInc sem.priority } sem' ∧
          sem'.nextNode = sem.nextNode := signalAsync_keepsCount hcounted h
      exact hkeeps
    · cases h
      exact ⟨KeepsCount.refl _, rfl⟩
  · split at h
    · exact signalAsync_keepsCount hcounted h
    · split at h
      · cases h
        exact ⟨KeepsCount.refl _, rfl⟩
      · cases h
        exact ⟨KeepsCount.refl _, rfl⟩

/-- **What a signal does.** -/
theorem signal_life (h : NodeLife s) (hdropped : s.dropped = false) :
    ∃ s', nodeStep s .signal = .ok s' ∧ NodeLife s' := by
  obtain ⟨q, hq⟩ := h.used hdropped
  obtain ⟨m, q', hstep, hq', -⟩ := signal_effect hq
  obtain ⟨⟨sem, called⟩, hsignal, hm⟩ := bind_eq_ok.mp hstep
  cases hm
  have hsignal : semaphoreSignal s.sem = .ok (sem, called) := hsignal
  have hnot : ¬ s.dropped = true := by simp [hdropped]
  obtain ⟨hkeeps, hnext⟩ := semaphoreSignal_keepsCount h.counted hsignal
  refine ⟨s.setSem sem, ?_, h.facts.setSem h.counted hkeeps hnext, fun _ => ⟨q', ?_⟩, ?_⟩
  · rw [nodeStep, if_neg hnot, hsignal, ok_bind]
  · exact ⟨hq'.queue, hq'.blocking, hq'.idle, hq'.nodes, hq'.single, hq'.fresh, hq'.grants,
      hq'.granted, hq'.stage⟩
  · intro htrue
    exact absurd htrue hnot

/-! ## The drop -/

/-- The node is held by a future, which is timed, or by none. -/
def Droppable (holders : Nat) (n : SemaphoreNode W) : Prop :=
  holders = 0 ∧ (n.counter = nodePlain + 1 ∨ n.counter = nodeTimed + 1) ∨
    holders = 1 ∧ n.counter = nodeTimed + 2

/-- `_node_drop` from `taskio_semaphore_drop` frees the nodes that are held by none. -/
theorem nodeDrop_final {a holders : Nat} {n : SemaphoreNode W} (hn : sem.nodes a = some n)
    (hdroppable : Droppable holders n) :
    ∃ o, nodeDrop sem a false = .ok (sem.setNode a o) ∧ NodeCounts holders o := by
  have hset : ∀ o o', (sem.setNode a o).setNode a o' = sem.setNode a o' := fun o o' => by
    simp [Semaphore.setNode]
  rw [nodeDrop, Semaphore.node, hn]
  simp only [ok_bind, hset]
  rcases hdroppable with ⟨rfl, hcounter⟩ | ⟨rfl, hcounter⟩
  · refine ⟨none, ?_, rfl⟩
    rw [if_pos (Or.inl ?_)]
    rcases hcounter with hcounter | hcounter
    · rw [hcounter]
      rfl
    · rw [hcounter]
      rfl
  · refine ⟨some { n with counter := sizeDec n.counter }, ?_, by omega, by omega, Or.inr ?_⟩
    · rw [if_neg ?_]
      rw [hcounter]
      decide
    · show sizeDec n.counter = nodeTimed + 1
      rw [hcounter]
      rfl

/-- The loop lets go of every node of the queue once, and reads its link before. -/
theorem semaphoreDropLoop_spec (holders : Nat → Nat) (l : List Nat) :
    ∀ (fuel : Nat) (sem : Semaphore W) (p : Option Nat), l.length ≤ fuel → Chain sem.next p l →
      (∀ a ∈ l, ∃ n, sem.nodes a = some n ∧ Droppable (holders a) n) →
      ∃ sem', semaphoreDropLoop fuel sem p = .ok (some sem') ∧ KeepsCount sem sem' ∧
        sem'.nextNode = sem.nextNode ∧ (∀ a, a ∉ l → sem'.nodes a = sem.nodes a) ∧
        ∀ a ∈ l, NodeCounts (holders a) (sem'.nodes a) := by
  induction l with
  | nil =>
    rintro fuel sem p - hchain -
    rw [Lib.chain_nil] at hchain
    subst hchain
    refine ⟨sem, ?_, KeepsCount.refl sem, rfl, fun _ _ => rfl, by simp⟩
    cases fuel with
    | zero => rfl
    | succ fuel => rfl
  | cons a l ih =>
    intro fuel sem p hfuel hchain hdroppable
    rw [List.length_cons] at hfuel
    obtain ⟨fuel, rfl⟩ := Nat.exists_eq_succ_of_ne_zero (show fuel ≠ 0 by omega)
    have hnodup := List.nodup_cons.mp hchain.nodup
    obtain ⟨rfl, hrest⟩ := hchain
    obtain ⟨n, hn, hdrop⟩ := hdroppable a (List.mem_cons_self ..)
    have hpos : 0 < n.counter := by
      rcases hdrop with ⟨-, hcounter | hcounter⟩ | ⟨-, hcounter⟩ <;> omega
    have hlink : sem.next a = n.next := by
      rw [Semaphore.next, hn]
      rfl
    obtain ⟨o, hok, hcounts⟩ := nodeDrop_final hn hdrop
    obtain ⟨hkeeps, -⟩ := nodeDrop_keepsCount hn hpos hok
    have hother : ∀ b, b ≠ a → (sem.setNode a o).nodes b = sem.nodes b :=
      fun b hb => Function.update_of_ne hb _ _
    have hne : ∀ b ∈ l, b ≠ a := fun b hb he => hnodup.1 (he ▸ hb)
    obtain ⟨sem', hloop, hkeeps', hnext, hout, hin⟩ := ih fuel (sem.setNode a o) n.next (by omega)
      (by
        rw [hlink] at hrest
        refine hrest.congr ?_
        intro b hb
        rw [Semaphore.next, Semaphore.next, hother b (hne b hb)])
      (fun b hb => by
        rw [hother b (hne b hb)]
        exact hdroppable b (List.mem_cons_of_mem _ hb))
    refine ⟨sem', ?_, ?_, hnext, ?_, ?_⟩
    · rw [semaphoreDropLoop, Semaphore.node, hn]
      simp only [ok_bind, hok]
      exact hloop
    · intro x n' hn'
      by_cases hx : x = a
      · subst hx
        rw [hout x hnodup.1] at hn'
        exact hkeeps x n' hn'
      · obtain ⟨n₁, hn₁, hcounter⟩ := hkeeps' x n' hn'
        rw [hother x hx] at hn₁
        exact ⟨n₁, hn₁, hcounter⟩
    · intro b hb
      rw [List.mem_cons, not_or] at hb
      rw [hout b hb.2, hother b hb.1]
    · intro b hb
      rcases List.mem_cons.mp hb with rfl | hb
      · rw [hout b hnodup.1]
        show NodeCounts (holders b) (Function.update sem.nodes b o b)
        rw [Function.update_self]
        exact hcounts
      · exact hin b hb

/-- In time a node of the queue is held by a timed wait, or by none. -/
theorem droppable_of_inTime {a : Nat} {n : SemaphoreNode W} (h : NodeLife s) (hq : WakeQueue q s.held)
    (htime : DropsInTime s .drop) (ha : a ∈ q) (hn : s.sem.nodes a = some n) :
    Droppable (s.held.owners [] a) n := by
  have howners : s.held.owners q a = s.held.owners [] a + 1 := by
    have hone : q.count a = 1 := List.count_eq_one_of_mem hq.queue.nodup ha
    rw [SemaphoreSystem.owners, SemaphoreSystem.owners, hone, List.count_nil]
    omega
  have hcounts := hq.nodes a
  have hnodes : s.held.sem.nodes a = some n := hn
  rw [hnodes, howners] at hcounts
  obtain ⟨-, hle, hflags⟩ := hcounts
  obtain hzero | hone : s.held.owners [] a = 0 ∨ s.held.owners [] a = 1 := by omega
  · rw [hzero] at hflags
    exact Or.inl ⟨hzero, hflags⟩
  · refine Or.inr ⟨hone, ?_⟩
    have hpos : 0 < (s.waits.map Wait.held).countP (·.holds a) := by
      rw [SemaphoreSystem.owners, List.count_nil] at hone
      have hone : 0 + (s.waits.map Wait.held).countP (·.holds a) = 1 := hone
      omega
    obtain ⟨v, hv, hholds⟩ := List.countP_pos_iff.mp hpos
    obtain ⟨w, hw, rfl⟩ := List.mem_map.mp hv
    obtain ⟨hlive, hnode⟩ := of_decide_eq_true hholds
    have hstage : w.stage ≠ .cleaned := by
      intro hcleaned
      simp [Wait.held, hcleaned] at hlive
    have hnode : w.future.node = some a := hnode
    obtain ⟨c, hc, hflag⟩ := h.facts.flags w hw hstage a hnode n hn
    have hnot : a ∉ s.sem.grants := fun hgranted => (hq.grants a hgranted).1 ha
    have htimed : w.future.timed = true := by
      cases hplain : w.future.timed with
      | true => rfl
      | false => exact absurd ⟨hstage, a, hnode, hnot⟩ (htime w hw hplain)
    rw [htimed, nodeFlag, if_pos rfl] at hflag
    rw [hone] at hflags
    have htimed : nodeTimed = 32 := rfl
    have hplain : nodePlain = 16 := rfl
    omega

/-- **What the drop does**: only the futures own nodes after it. -/
theorem drop_life (h : NodeLife s) (hdropped : s.dropped = false) (htime : DropsInTime s .drop) :
    ∃ s', nodeStep s .drop = .ok s' ∧ NodeLife s' := by
  obtain ⟨q, hq⟩ := h.used hdropped
  have hnot : ¬ s.dropped = true := by simp [hdropped]
  have hlength : q.length ≤ s.sem.nextNode := by
    have hsub : q ⊆ List.range s.sem.nextNode :=
      fun a ha => List.mem_range.mpr (hq.lt_nextNode.1 a ha)
    have hle := (hq.queue.nodup.subperm hsub).length_le
    rwa [List.length_range] at hle
  obtain ⟨sem, hloop, hkeeps, hnext, hout, hin⟩ := semaphoreDropLoop_spec
    (fun a => s.held.owners [] a) q s.sem.nextNode s.sem s.sem.wakeQueueHead hlength
    hq.queue.chain fun a ha => by
      obtain ⟨n, hn, -⟩ := hq.node_of_mem ha
      exact ⟨n, hn, droppable_of_inTime h hq htime ha hn⟩
  refine ⟨{ s.setSem sem with dropped := true }, ?_, ?_, by rintro ⟨⟩,
    fun _ => ⟨?_, ?_, ?_⟩⟩
  · rw [nodeStep, if_neg hnot, semaphoreDrop, hloop, ok_bind]
  · have hfacts := h.facts.setSem h.counted hkeeps hnext
    exact ⟨hfacts.polls, hfacts.flags, hfacts.freed⟩
  · intro a
    by_cases ha : a ∈ q
    · exact hin a ha
    · have hcounts := hq.nodes a
      have hzero : q.count a = 0 := List.count_eq_zero.mpr ha
      rw [SemaphoreSystem.owners, hzero] at hcounts
      show NodeCounts _ (sem.nodes a)
      rw [hout a ha]
      exact hcounts
  · intro a
    have hle := hq.single a
    show ([] : List Nat).count a + s.held.waits.countP (·.holds a) ≤ 1
    rw [List.count_nil]
    omega
  · intro a ha
    have ha : sem.nextNode ≤ a := ha
    rw [hnext] at ha
    have hzero := hq.fresh a ha
    rw [SemaphoreSystem.owners] at hzero
    show ([] : List Nat).count a + s.held.waits.countP (·.holds a) = 0
    rw [List.count_nil]
    omega

/-! ## All steps -/

/-- **No step reads a node that was freed**, and each keeps the count of the owners. -/
theorem nodeLife_step (h : NodeLife s) (htime : DropsInTime s o)
    (hcalls : nodeStep s o ≠ .error .noSuchCall) : ∃ s', nodeStep s o = .ok s' ∧ NodeLife s' := by
  cases o with
  | wait timed =>
    refine ⟨_, rfl, ⟨?_, ?_, h.facts.freed⟩,
      ?_, ?_⟩
    · intro w hw hlive
      rcases List.mem_append.mp hw with hw | hw
      · exact h.facts.polls w hw hlive
      · rw [List.mem_singleton.mp hw]
        exact Or.inl ⟨rfl, rfl⟩
    · intro w hw hstage a ha
      rcases List.mem_append.mp hw with hw | hw
      · exact h.facts.flags w hw hstage a ha
      · rw [List.mem_singleton.mp hw] at ha
        cases ha
    · intro hdropped
      obtain ⟨q, hq⟩ := h.used hdropped
      refine ⟨q, ?_⟩
      have hnew := hq.newWait timed
      simp only [NodeSystem.held, List.map_append]
      exact hnew
    · intro hdropped
      obtain ⟨hnodes, hsingle, hfresh⟩ := h.orphans hdropped
      have howners : ∀ a, SemaphoreSystem.owners (NodeSystem.held { s with
          waits := s.waits ++ [⟨semaphoreWait timed, .live⟩] }) [] a = s.held.owners [] a := by
        intro a
        simp [SemaphoreSystem.owners, NodeSystem.held, Wait.held, Wait.holds, semaphoreWait]
      exact ⟨fun a => by rw [howners]; exact hnodes a, fun a => by rw [howners]; exact hsingle a,
        fun a ha => by rw [howners]; exact hfresh a ha⟩
  | poll i waker =>
    cases hget : s.waits[i]? with
    | none => exact absurd (by simp only [nodeStep, hget]) hcalls
    | some w =>
      obtain ⟨f, stage⟩ := w
      cases stage with
      | live => exact poll_life h hget hcalls
      | completed => exact absurd (by simp only [nodeStep, hget]) hcalls
      | cleaned => exact absurd (by simp only [nodeStep, hget]) hcalls
  | cleanup i =>
    cases hget : s.waits[i]? with
    | none => exact absurd (by simp only [nodeStep, hget]) hcalls
    | some w =>
      by_cases hstage : w.stage = .cleaned
      · obtain ⟨f, stage⟩ := w
        have hstage : stage = .cleaned := hstage
        subst hstage
        exact absurd (by simp only [nodeStep, hget]) hcalls
      · exact cleanup_life h hget hstage
  | signal =>
    by_cases hdropped : s.dropped = true
    · exact absurd (by rw [nodeStep, if_pos hdropped]) hcalls
    · exact signal_life h (by simpa using hdropped)
  | drop =>
    by_cases hdropped : s.dropped = true
    · exact absurd (by rw [nodeStep, if_pos hdropped]) hcalls
    · exact drop_life h (by simpa using hdropped) htime

/-! ## Runs -/

theorem nodeLife_init (permits : UInt64) : NodeLife (nodeSystem W permits) where
  facts := ⟨by rintro w ⟨⟩, by rintro w ⟨⟩, fun _ => rfl⟩
  used _ := ⟨[], wakeQueue_init permits⟩
  orphans h := by cases h

/-- The semaphore is gone, and so are the futures. -/
def NodeSystem.Over (s : NodeSystem W) : Prop :=
  s.dropped = true ∧ ∀ w ∈ s.waits, w.stage = .cleaned

/-- A freed node is not there any more, and one that is there was not freed. -/
structure FreedOnce (s : NodeSystem W) : Prop where
  once : ∀ a, s.freed.count a ≤ 1
  gone : ∀ a, a ∈ s.freed → s.sem.nodes a = none
  all : s.Over → ∀ a, a < s.sem.nextNode → s.freed.count a = 1

theorem NodeLife.freedOnce (h : NodeLife s) : FreedOnce s where
  once a := by
    rw [h.facts.freed a]
    split <;> omega
  gone a ha := by
    have hpos := List.count_pos_iff.mpr ha
    rw [h.facts.freed a] at hpos
    split at hpos
    · rename_i hfreed
      exact hfreed.2
    · omega
  all hover a ha := by
    obtain ⟨hdropped, hcleaned⟩ := hover
    have hnone : (s.waits.map Wait.held).countP (·.holds a) = 0 := by
      rw [List.countP_eq_zero]
      intro v hv
      obtain ⟨w, hw, rfl⟩ := List.mem_map.mp hv
      simp [Wait.holds, Wait.held, hcleaned w hw]
    have hcounts := (h.orphans hdropped).nodes a
    have hzero : s.held.owners [] a = 0 := by
      rw [SemaphoreSystem.owners, List.count_nil]
      exact (Nat.zero_add _).trans hnone
    rw [hzero] at hcounts
    have hgone : s.sem.nodes a = none := by
      cases hn : s.sem.nodes a with
      | none => rfl
      | some n =>
        rw [hn] at hcounts
        exact absurd hcounts.1 (Nat.lt_irrefl 0)
    rw [h.facts.freed a, if_pos ⟨ha, hgone⟩]

/-- **Every node is freed once, and none is read after it.** A call that no caller makes is one on a
future that is over, or on a semaphore that was dropped. -/
theorem nodes_freed_once (permits : UInt64) (os : List (NodeOp W))
    (htime : Lib.Along nodeStep DropsInTime (nodeSystem W permits) os)
    (hcalls : Lib.run nodeStep (nodeSystem W permits) os ≠ .error .noSuchCall) :
    ∃ s, Lib.run nodeStep (nodeSystem W permits) os = .ok s ∧ FreedOnce s := by
  obtain ⟨s, hrun, hs⟩ := Lib.run_safe (I := NodeLife)
    (fun s o hs htime hok => nodeLife_step hs htime hok) (nodeLife_init permits) htime hcalls
  exact ⟨s, hrun, hs.freedOnce⟩

/-- A plain wait is served, a timed one is still queued at the drop and cleaned up after it. -/
theorem nodes_freed_once_timed :
    ∃ s, Lib.run nodeStep (nodeSystem Nat 0) [.wait false, .wait true, .poll 0 7, .poll 1 8, .signal,
        .poll 0 7, .cleanup 0, .drop, .cleanup 1] = .ok s ∧ FreedOnce s :=
  nodes_freed_once 0 _ (by decide) (by rintro ⟨⟩)

end Taskio
