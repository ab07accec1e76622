import Taskio.Async.FutureTree

/-!
# `worker_run` over trees of futures

The single-threaded runtime of programs that are made of coroutines, awaits, joins, selects, yields
and sleeps: no other waker is called than by `yield`, by an await that is ready at once and by the
handler of a sleep. A task is polled only when its waker was called, one at a time, and the handlers
are called between the polls. A task that is cleaned up is not followed further.
-/

namespace Taskio

/-- The tasks, and the one whose future is being polled. -/
structure TreeRuntime where
  tasks : List TreeRun
  polling : Option Nat

def treeRuntime : TreeRuntime := { tasks := [], polling := none }

namespace TreeRuntime

def task (s : TreeRuntime) (t : Nat) : Except Fault TreeRun :=
  match s.tasks[t]? with
  | some task => .ok task
  | none => .error .noSuchCall

end TreeRuntime

/-- The poll of the root has returned. -/
def TreeRun.resting (s : TreeRun) : Bool :=
  match s.point with
  | .idle _ | .ended => true
  | .polled _ | .running _ | .inJoin _ _ _ _ | .answered _ _ => false

inductive RuntimeOp where
  /-- `taskio_runtime_spawn` or `taskio_runtime_block_on` -/
  | spawn (f : FutureFn)
  /-- the worker takes the task from the ready queue -/
  | take (t : Nat)
  /-- the poll goes on -/
  | inside (o : PollOp)
  /-- a timer of the task expires -/
  | handler (t x : Nat) (path : List Nat)

def runtimeStep (s : TreeRuntime) : RuntimeOp → Except Fault TreeRuntime
  | .spawn f => .ok { s with tasks := s.tasks ++ [treeRun f] }
  | .take t => do
    let task ← s.task t
    if s.polling = none ∧ task.woken then do
      let task ← treeStep task .poll
      .ok { tasks := s.tasks.set t task, polling := some t }
    else .error .noSuchCall
  | .inside o =>
    match s.polling with
    | none => .error .noSuchCall
    | some t => do
      let task ← s.task t
      let task ← treeStep task (.inside o)
      .ok { tasks := s.tasks.set t task, polling := if task.resting then none else some t }
  | .handler t x path => do
    let task ← s.task t
    if s.polling = none then do
      let task ← treeStep task (.handler x path)
      .ok { s with tasks := s.tasks.set t task }
    else .error .noSuchCall

end Taskio
