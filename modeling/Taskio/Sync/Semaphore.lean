import Mathlib.Logic.Function.Basic
import Taskio.Future

/-!
# `semaphore.c`: the asynchronous side

A wait that finds no permit allocates a node and links it into the wake queue. The node has two
owners, the queue and the future; its `counter` counts them below two flag bits. A signal takes the
first node of the queue and calls its waker.

Nodes live in a heap of their own: an address that is not allocated, or no longer, reads as a
`useAfterFree`. Wakers are of any type `W`; a function that calls one returns it.
-/

namespace Taskio

/-! ## Data -/

/-- `SEMAPHORE_NODE_MASK`. -/
def nodeMask : Nat := 0b000011

/-- `SEMAPHORE_NODE_PLAIN`. -/
def nodePlain : Nat := 0b010000

/-- `SEMAPHORE_NODE_TIMED`. -/
def nodeTimed : Nat := 0b100000

/-- `struct taskio_semaphore_node`. A node is named by its address. -/
structure SemaphoreNode (W : Type) where
  counter : Nat
  waker : W
  back : Option Nat
  next : Option Nat

/--
`struct taskio_semaphore`, with its allocator: `nodes` are the live nodes, `nextNode` the next
address. `grants` records the nodes that signals took from the queue, `condSignals` counts the calls
of `cnd_signal`.
-/
structure Semaphore (W : Type) where
  counter : Nat
  priority : Nat
  blockingWakeWait : Nat
  wakeQueueHead : Option Nat
  wakeQueueTail : Option Nat
  nodes : Nat → Option (SemaphoreNode W)
  nextNode : Nat
  grants : List Nat
  condSignals : Nat

/-- `struct taskio_semaphore_wait_future`: `inner.counter`, and the environment. -/
structure WaitFuture where
  counter : Nat
  node : Option Nat
  timed : Bool
deriving DecidableEq, Repr

variable {W : Type}

namespace Semaphore

def node (s : Semaphore W) (a : Nat) : Except Fault (SemaphoreNode W) :=
  match s.nodes a with
  | some n => .ok n
  | none => .error .useAfterFree

def setNode (s : Semaphore W) (a : Nat) (n : Option (SemaphoreNode W)) : Semaphore W :=
  { s with nodes := Function.update s.nodes a n }

/-- The links of the live nodes. -/
def next (s : Semaphore W) (a : Nat) : Option Nat := (s.nodes a).bind (·.next)

end Semaphore

/-! ## Functions -/

/-- `taskio_semaphore_init`. -/
def semaphoreInit (W : Type) (permits : UInt64) : Semaphore W :=
  { counter := permits.toNat, priority := 0, blockingWakeWait := 0, wakeQueueHead := none,
    wakeQueueTail := none, nodes := fun _ => none, nextNode := 0, grants := [], condSignals := 0 }

/-- `_node_drop`. -/
def nodeDrop (s : Semaphore W) (a : Nat) (willWake : Bool) : Except Fault (Semaphore W) := do
  let node ← s.node a
  let counterWithFlags := node.counter
  let s := s.setNode a (some { node with counter := sizeDec counterWithFlags })
  let counter := counterWithFlags &&& nodeMask
  let isTimed := counterWithFlags &&& nodeTimed != 0
  if counter = 1 ∨ ¬ (willWake || isTimed) then .ok (s.setNode a none) else .ok s

/-- `_signal_async`. It returns the waker that it calls. -/
def signalAsync (s : Semaphore W) : Except Fault (Semaphore W × Option W) :=
  match s.wakeQueueHead with
  | none => .error .nullPointer
  | some a => do
    let node ← s.node a
    let s := { s with
      wakeQueueHead := node.next
      wakeQueueTail := if node.next = none then none else s.wakeQueueTail
      grants := s.grants ++ [a] }
    let s ← nodeDrop s a true
    .ok (s, some node.waker)

/-- `_signal_sync`. -/
def signalSync (s : Semaphore W) : Semaphore W := { s with condSignals := s.condSignals + 1 }

/-- `taskio_semaphore_signal`. -/
def semaphoreSignal (s : Semaphore W) : Except Fault (Semaphore W × Option W) :=
  if s.wakeQueueHead ≠ none ∧ 0 < s.blockingWakeWait then
    let priorityValue := s.priority
    let s := { s with priority := sizeInc s.priority }
    if priorityValue % 2 = 0 then signalAsync s else .ok (signalSync s, none)
  else if s.wakeQueueHead ≠ none then signalAsync s
  else if 0 < s.blockingWakeWait then .ok (signalSync s, none)
  else .ok ({ s with counter := sizeInc s.counter }, none)

/-- `taskio_semaphore_wait`; `taskio_semaphore_timedwait` then sets `timed`. -/
def semaphoreWait (timed : Bool) : WaitFuture := { counter := 0, node := none, timed := timed }

/-- The node of a wait, before it is linked. -/
def waitNode (s : Semaphore W) (timed : Bool) (waker : W) : SemaphoreNode W :=
  { counter := if timed then nodeTimed ||| 2 else nodePlain ||| 2
    waker := waker, back := s.wakeQueueTail, next := none }

/-- Allocating the node of a wait and linking it at the tail. -/
def waitEnqueue (s : Semaphore W) (timed : Bool) (waker : W) :
    Except Fault (Semaphore W × Nat) :=
  let a := s.nextNode
  let s' := { s.setNode a (some (waitNode s timed waker)) with nextNode := a + 1 }
  match s.wakeQueueHead with
  | none => .ok ({ s' with wakeQueueHead := some a, wakeQueueTail := some a }, a)
  | some _ =>
    match s.wakeQueueTail with
    | none => .error .nullPointer
    | some t => do
      let last ← s'.node t
      .ok ({ s'.setNode t (some { last with next := some a }) with wakeQueueTail := some a }, a)

/-- The body of `taskio_semaphore_wait`, after the caller has set the counter of the future. The
waker is that of the context, if there is a context. -/
def semaphoreWaitPoll (s : Semaphore W) (future : WaitFuture) (waker : Option W) :
    Except Fault (Semaphore W × WaitFuture × FuturePoll) :=
  if future.counter = futureClrVal then
    match future.node with
    | some a => do
      let s ← nodeDrop s a true
      .ok (s, future, .undefined)
    | none => .ok (s, future, .undefined)
  else if future.counter = 1 then do
    let (s, future) ← if 0 < s.counter then .ok ({ s with counter := s.counter - 1 }, future)
      else match waker with
        | none => .error .nullPointer
        | some waker => do
          let (s, a) ← waitEnqueue s future.timed waker
          .ok (s, { future with node := some a })
    .ok (s, future, if future.node = none then .ready else .pending)
  else if future.counter = 2 then .ok (s, future, .ready)
  else .ok (s, future, .undefined)

/-- One poll by the owner of the future. -/
def pollWait (s : Semaphore W) (future : WaitFuture) (waker : W) :
    Except Fault (Semaphore W × WaitFuture × FuturePoll) :=
  semaphoreWaitPoll s { future with counter := sizeInc future.counter } (some waker)

/-- `__TASKIO_FUTURE_CLEANUP`, with no context. -/
def cleanupWait (s : Semaphore W) (future : WaitFuture) :
    Except Fault (Semaphore W × WaitFuture) := do
  let (s, future, _) ← semaphoreWaitPoll s { future with counter := futureClrVal } none
  .ok (s, future)

/-! ## One semaphore and its waits -/

/-- A future is live until its owner cleans it up, which is right after it completed or before. -/
inductive WaitStage where
  | live
  | completed
  | cleaned
deriving DecidableEq, Repr

structure Wait where
  future : WaitFuture
  stage : WaitStage
deriving DecidableEq, Repr

/-- A semaphore, the wait futures made on it in order, the number of signals, and the wakers that
they called, oldest first. -/
structure SemaphoreSystem (W : Type) where
  sem : Semaphore W
  waits : List Wait
  signals : Nat
  woken : List W

/-- The wait has returned ready. -/
def SemaphoreSystem.isCompleted (m : SemaphoreSystem W) (i : Nat) : Bool :=
  match m.waits[i]? with
  | some w => w.stage = .completed
  | none => false

/-- The calls on a semaphore: making a wait, polling it, giving it up, and signalling. -/
inductive SemaphoreOp (W : Type) where
  | wait (timed : Bool)
  | poll (i : Nat) (waker : W)
  | cleanup (i : Nat)
  | signal
deriving DecidableEq, Repr

def semaphoreSystem (W : Type) (permits : UInt64) : SemaphoreSystem W :=
  { sem := semaphoreInit W permits, waits := [], signals := 0, woken := [] }

/-- A future that is ready is cleaned up by whoever polled it. No one calls a future that is gone. -/
def semaphoreStep (s : SemaphoreSystem W) : SemaphoreOp W → Except Fault (SemaphoreSystem W)
  | .wait timed => .ok { s with waits := s.waits ++ [⟨semaphoreWait timed, .live⟩] }
  | .poll i waker =>
    match s.waits[i]? with
    | some ⟨future, .live⟩ => do
      let (sem, future, poll) ← pollWait s.sem future waker
      match poll with
      | .ready => do
        let (sem, future) ← cleanupWait sem future
        .ok { s with sem := sem, waits := s.waits.set i ⟨future, .completed⟩ }
      | _ => .ok { s with sem := sem, waits := s.waits.set i ⟨future, .live⟩ }
    | _ => .error .noSuchCall
  | .cleanup i =>
    match s.waits[i]? with
    | some ⟨future, .live⟩ => do
      let (sem, future) ← cleanupWait s.sem future
      .ok { s with sem := sem, waits := s.waits.set i ⟨future, .cleaned⟩ }
    | _ => .error .noSuchCall
  | .signal => do
    let (sem, waker) ← semaphoreSignal s.sem
    .ok { s with sem := sem, signals := s.signals + 1, woken := s.woken ++ waker.toList }

end Taskio
