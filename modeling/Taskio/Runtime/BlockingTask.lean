import Taskio.Lib.Run
import Taskio.Runtime.Scheduler

/-!
# `runtime.c`: a blocking task

The worker of a blocking task runs in a thread of its own. It takes the task, tests the status once,
runs the handler, sets the status and walks the wake list. Meanwhile any number of calls of
`taskio_handle_abort` and `taskio_handle_join` are made on the task, by threads that each hold a
handle of it. A step is one access to what they share: the status, the head of the wake list, or a
node with its output.

A node is named by its join.

* `NeverRan`, `Ran` — the two ends that are promised
* `KeepsOrder` — the condition on a step
-/

namespace Taskio

/-! ## Data -/

/-- Where `blocking_worker_run` stands with the task. -/
inductive BlockingWorker where
  /-- before the test of the status -/
  | queued
  /-- in the handler -/
  | running
  /-- before the status is set -/
  | returned
  /-- before `task_wake_wakers` -/
  | finished
  /-- in `task_wake_wakers`, with these nodes left -/
  | walking (nodes : List Nat)
  | done
deriving DecidableEq, Repr

/-- Where a call of `taskio_handle_abort` stands. -/
inductive HandleAbortStage where
  | called
  /-- in the case of a suspended task -/
  | suspended
  | returned
deriving DecidableEq, Repr

/-- Where a call of `taskio_handle_join` stands. `status` is what the switch was on. -/
inductive HandleJoinStage where
  | called
  /-- after the switch -/
  | found (status : TaskStatus)
  /-- the node's `next` is set -/
  | linking (status : TaskStatus) (next : List Nat)
  | returned (status : TaskStatus)
deriving DecidableEq, Repr

inductive HandleCall where
  | abort (stage : HandleAbortStage)
  /-- `out` says whether `out` is given -/
  | join (out : Bool) (stage : HandleJoinStage)
deriving DecidableEq, Repr

inductive BlockingTaskEvent where
  | began
  | handled (v : Nat)
  | woken (i : Nat)
  | copied (i : Nat) (output : Option Nat)
deriving DecidableEq, Repr

/-- `struct taskio_blocking_task`, its worker, and the calls on it in order. `output` is what the
handler wrote to `out`, if `out` is set. -/
structure BlockingTask where
  status : TaskStatus
  wakeOnReady : List Nat
  hasOut : Bool
  output : Option Nat
  worker : BlockingWorker
  calls : List HandleCall
  events : List BlockingTaskEvent

inductive BlockingTaskOp where
  | abort
  | join (out : Bool)
  /-- the next step of a call -/
  | call (i : Nat)
  /-- the next step of the worker -/
  | worker
  /-- the handler returns -/
  | handled (v : Nat)
deriving DecidableEq, Repr

/-! ## Functions -/

/-- `taskio_runtime_spawn_blocking`. -/
def blockingTask (hasOut : Bool) : BlockingTask :=
  { status := .suspended, wakeOnReady := [], hasOut := hasOut, output := none, worker := .queued,
    calls := [], events := [] }

/-- Calling the waker of a join, after its output was copied. -/
def wakeJoin (s : BlockingTask) (i : Nat) (copy : Bool) : BlockingTask :=
  { s with events := s.events ++ (if copy then [.copied i s.output] else []) ++ [.woken i] }

/-- A step of `taskio_handle_abort`. -/
def handleAbortStep (s : BlockingTask) (i : Nat) : HandleAbortStage → Except Fault BlockingTask
  | .called =>
    match s.status with
    | .suspended => .ok { s with calls := s.calls.set i (.abort .suspended) }
    | .scheduled | .aborted | .finished => .ok { s with calls := s.calls.set i (.abort .returned) }
  | .suspended => .ok { s with status := .aborted, calls := s.calls.set i (.abort .returned) }
  | .returned => .error .noSuchCall

/-- A step of `taskio_handle_join`. -/
def handleJoinStep (s : BlockingTask) (i : Nat) (out : Bool) :
    HandleJoinStage → Except Fault BlockingTask
  | .called =>
    match s.status with
    | .suspended | .scheduled =>
      .ok { s with calls := s.calls.set i (.join out (.found s.status)) }
    | .aborted => .ok { wakeJoin s i false with calls := s.calls.set i (.join out (.found .aborted)) }
    | .finished =>
      .ok { wakeJoin s i (out && s.hasOut) with
        calls := s.calls.set i (.join out (.returned .finished)) }
  | .found status => .ok { s with calls := s.calls.set i (.join out (.linking status s.wakeOnReady)) }
  | .linking status next =>
    .ok { s with wakeOnReady := i :: next, calls := s.calls.set i (.join out (.returned status)) }
  | .returned _ => .error .noSuchCall

/-- Whether the node of the join has an `out`. -/
def nodeOut (s : BlockingTask) (i : Nat) : Bool :=
  match s.calls[i]? with
  | some (.join out _) => out
  | _ => false

/-- A step of `blocking_worker_run`, but for the handler. -/
def blockingWorkerRun (s : BlockingTask) : Except Fault BlockingTask :=
  match s.worker with
  | .queued =>
    if s.status ≠ .aborted then .ok { s with worker := .running, events := s.events ++ [.began] }
    else .ok { s with worker := .done }
  | .running => .error .noSuchCall
  | .returned => .ok { s with status := .finished, worker := .finished }
  | .finished => .ok { s with worker := .walking s.wakeOnReady }
  | .walking (i :: nodes) => .ok { wakeJoin s i (nodeOut s i) with worker := .walking nodes }
  | .walking [] => .ok { s with worker := .done }
  | .done => .error .noSuchCall

def blockingTaskStep (s : BlockingTask) : BlockingTaskOp → Except Fault BlockingTask
  | .abort => .ok { s with calls := s.calls ++ [.abort .called] }
  | .join out => .ok { s with calls := s.calls ++ [.join out .called] }
  | .call i =>
    match s.calls[i]? with
    | some (.abort stage) => handleAbortStep s i stage
    | some (.join out stage) => handleJoinStep s i out stage
    | none => .error .noSuchCall
  | .worker => blockingWorkerRun s
  | .handled v =>
    if s.worker = .running then
      .ok { s with
        worker := .returned
        output := if s.hasOut then some v else none
        events := s.events ++ [.handled v] }
    else .error .noSuchCall

/-! ## What is promised -/

/-- The status that the switch of a join was on. -/
def HandleCall.saw : HandleCall → Option TaskStatus
  | .join _ (.found status) | .join _ (.linking status _) | .join _ (.returned status) => some status
  | _ => none

def HandleCall.isReturned : HandleCall → Bool
  | .abort stage => stage = .returned
  | .join _ (.returned _) => true
  | .join _ _ => false

def BlockingTaskEvent.handled? : BlockingTaskEvent → Option Nat
  | .handled v => some v
  | _ => none

namespace BlockingTask

/-- The worker is through with the task, and no call is open. -/
def Settled (s : BlockingTask) : Prop := s.worker = .done ∧ ∀ c ∈ s.calls, c.isReturned = true

/-- What the handler returned with, each time. -/
def handled (s : BlockingTask) : List Nat := s.events.filterMap BlockingTaskEvent.handled?

/-- Each joiner's waker was called once. -/
def WakesOnce (s : BlockingTask) : Prop :=
  ∀ i out stage, s.calls[i]? = some (.join out stage) → s.events.count (.woken i) = 1

/-- The task was aborted and the handler did not run. -/
structure NeverRan (s : BlockingTask) : Prop where
  status : s.status = .aborted
  began : .began ∉ s.events
  woken : s.WakesOnce

/-- No joiner was woken before the handler returned with `v`, or without its output. -/
def WakesAfter (s : BlockingTask) (v : Nat) : Prop :=
  ∀ e₁ i e₂, s.events = e₁ ++ .woken i :: e₂ →
    .handled v ∈ e₁ ∧ (nodeOut s i = true → s.hasOut = true → .copied i (some v) ∈ e₁)

/-- The handler ran once, to its end. -/
structure Ran (s : BlockingTask) : Prop where
  status : s.status = .finished
  began : s.events.count .began = 1
  woken : s.WakesOnce
  handled : ∃ v, s.handled = [v] ∧ s.WakesAfter v

end BlockingTask

/-- The worker has not read the wake list. -/
def BlockingWorker.beforeWalk : BlockingWorker → Bool
  | .queued | .running | .returned | .finished => true
  | .walking _ | .done => false

/-- An abort is in time for the worker's test and for every join so far, and a node is linked to the
list that was read, before the worker reads it. -/
def KeepsOrder (s : BlockingTask) : BlockingTaskOp → Prop
  | .call i =>
    match s.calls[i]? with
    | some (.abort .suspended) =>
      s.status = .aborted ∨ s.worker = .queued ∧ ∀ c ∈ s.calls, c.saw ≠ some .suspended
    | some (.join _ (.linking .suspended next)) =>
      s.wakeOnReady = next ∧ s.worker.beforeWalk = true
    | _ => True
  | _ => True

instance (s : BlockingTask) : ∀ o, Decidable (KeepsOrder s o)
  | .call i => by
    unfold KeepsOrder
    dsimp only
    split <;> infer_instance
  | .abort | .join _ | .worker | .handled _ => .isTrue trivial

end Taskio
