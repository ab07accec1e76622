import Mathlib.Logic.Function.Basic
import Taskio.Future

/-!
# `runtime.c`: tasks, handles and the ready queue

The single-threaded runtime. What a future does when it is polled is not fixed: a poll is begun by
`take` and ended by `ret` with any answer, and in between any call may be made (as also between
`epoll_wait` and the queue, where timers and other threads' writes call wakers). `worker_run` is
cut into such steps; `Control` says where it stands.

A task is named by its address, and no name is used twice. A task that is not allocated, or no longer,
reads as a `useAfterFree`. Wakers given to `taskio_handle_join` are task wakers: a join's waker ends in
one.

Two parts of `worker_run` are laid around these steps elsewhere: the `out` that a poll is given, where
the address of a task that was freed is compared, in `Taskio/Runtime/Outputs.lean`, and the list of
`epoll_wait` with the branch of `timer_fd` in `Taskio/Runtime/Epoll.lean`.
-/

namespace Taskio

/-! ## Data -/

/-- `enum taskio_task_status`. -/
inductive TaskStatus where
  | suspended
  | scheduled
  | aborted
  | finished
deriving DecidableEq, Repr

/-- `struct taskio_task_wake_node`. `waker` is the task that the waker wakes. -/
structure TaskWakeNode where
  waker : Nat
  out : Option Nat
deriving DecidableEq, Repr

/--
`struct taskio_task`. `hasOut` says whether `out` is set, `wakeOnReady` is the list from
`wake_on_ready_top`. `handles` counts the handles that the program holds.
-/
structure Task where
  counter : Nat
  status : TaskStatus
  blocking : Bool
  wakeOnReady : List TaskWakeNode
  hasOut : Bool
  next : Option Nat
  handles : Nat
deriving DecidableEq, Repr

/-- Where `worker_run` stands. -/
inductive Control where
  /-- no worker runs -/
  | stopped
  /-- at `epoll_wait` -/
  | waiting
  /-- at the head of the loop over the ready queue -/
  | draining
  /-- in the poll of a task -/
  | polling (t : Nat)
  /-- in the cleanup poll of a task, because it was ready or because it was aborted -/
  | cleaning (t : Nat) (ready : Bool)
  /-- in `task_wake_wakers`, with these nodes left, and then before `task_drop` -/
  | waking (t : Nat) (nodes : List TaskWakeNode)
deriving DecidableEq, Repr

/-- What happened, as seen by the futures and by the allocator. -/
inductive TaskEvent where
  | polled (t : Nat)
  | cleanedUp (t : Nat)
  | released (t : Nat)
  | freed (t : Nat)
  | joinerWoken (t waker : Nat)
  | copied (t out : Nat)
deriving DecidableEq, Repr

/-- `struct taskio_runtime` and its only worker. `nextTask` is the allocator's next address. -/
structure Scheduler where
  tasks : Nat → Option Task
  nextTask : Nat
  pollHead : Option Nat
  pollTail : Option Nat
  pollScheduled : Bool
  eventFd : Nat
  workerTask : Option Nat
  running : Bool
  control : Control
  events : List TaskEvent

namespace Scheduler

def task (s : Scheduler) (t : Nat) : Except Fault Task :=
  match s.tasks t with
  | some task => .ok task
  | none => .error .useAfterFree

def setTask (s : Scheduler) (t : Nat) (task : Option Task) : Scheduler :=
  { s with tasks := Function.update s.tasks t task }

def log (s : Scheduler) (e : TaskEvent) : Scheduler := { s with events := s.events ++ [e] }

/-- The links of the live tasks. -/
def next (s : Scheduler) (t : Nat) : Option Nat := (s.tasks t).bind (·.next)

end Scheduler

/-! ## Functions -/

/-- `taskio_runtime_init`. -/
def schedulerInit : Scheduler :=
  { tasks := fun _ => none, nextTask := 0, pollHead := none, pollTail := none,
    pollScheduled := false, eventFd := 0, workerTask := none, running := false,
    control := .stopped, events := [] }

/-- The end of `task_add_event_loop`: `event_fd` is written once for each drain of the queue. -/
def notifyWorker (s : Scheduler) : Scheduler :=
  if s.pollScheduled then s else { s with pollScheduled := true, eventFd := s.eventFd + 1 }

/-- Linking a task behind `poll_tail`. Its own `next` stays as it is. -/
def linkTail (s : Scheduler) (t : Nat) : Except Fault Scheduler :=
  match s.pollTail with
  | none => .ok { s with pollHead := some t, pollTail := some t }
  | some last => do
    let lastTask ← s.task last
    .ok { s.setTask last (some { lastTask with next := some t }) with pollTail := some t }

/-- `task_add_event_loop`. -/
def taskAddEventLoop (s : Scheduler) (t : Nat) : Except Fault Scheduler := do
  let task ← s.task t
  if task.status = .scheduled then .ok s
  else
    let s ← linkTail (s.setTask t (some { task with status := .scheduled })) t
    .ok (notifyWorker s)

/-- `task_drop`. -/
def taskDrop (s : Scheduler) (t : Nat) : Except Fault Scheduler := do
  let task ← s.task t
  let counter := task.counter
  if counter = 1 then .ok ((s.setTask t none).log (.freed t))
  else .ok (s.setTask t (some { task with counter := sizeDec counter }))

/-- `taskio_runtime_spawn`. It returns the task of the handle. -/
def runtimeSpawn (s : Scheduler) (hasOut : Bool) : Except Fault (Scheduler × Nat) := do
  let t := s.nextTask
  let task : Task :=
    { counter := 2, status := .suspended, blocking := false, wakeOnReady := [], hasOut := hasOut,
      next := none, handles := 1 }
  let s ← taskAddEventLoop { s.setTask t (some task) with nextTask := t + 1 } t
  .ok (s, t)

/-- The task of a handle that the program holds. -/
def handleTask (s : Scheduler) (t : Nat) : Except Fault Task := do
  let task ← s.task t
  if task.handles = 0 then .error .noSuchCall else .ok task

/-- `taskio_handle_clone`. -/
def handleClone (s : Scheduler) (t : Nat) : Except Fault Scheduler := do
  let task ← handleTask s t
  .ok (s.setTask t
    (some { task with counter := sizeInc task.counter, handles := task.handles + 1 }))

/-- `taskio_handle_drop`. -/
def handleDrop (s : Scheduler) (t : Nat) : Except Fault Scheduler := do
  let task ← handleTask s t
  taskDrop (s.setTask t (some { task with handles := task.handles - 1 })) t

/-- `taskio_runtime_block_on`, up to the call of `worker_run`. -/
def runtimeBlockOn (s : Scheduler) : Except Fault Scheduler := do
  let (s, t) ← runtimeSpawn s false
  let s ← handleDrop s t
  .ok { s with workerTask := some t, running := true, control := .waiting }

/-- `taskio_handle_is_aborted`. -/
def handleIsAborted (task : Task) : Bool := task.status = .aborted

/-- `taskio_handle_is_finished`. -/
def handleIsFinished (task : Task) : Bool := task.status = .finished

/-- `taskio_handle_abort`. -/
def handleAbort (s : Scheduler) (t : Nat) : Except Fault Scheduler := do
  let task ← handleTask s t
  match task.status with
  | .suspended =>
    let s := s.setTask t (some { task with status := .aborted })
    if task.blocking then .ok s else taskAddEventLoop s t
  | .scheduled =>
    if task.blocking then .ok s
    else .ok (s.setTask t (some { task with status := .aborted }))
  | .aborted | .finished => .ok s

/-- Calling the waker of a node, after its output was copied. -/
def wakeNode (s : Scheduler) (t : Nat) (node : TaskWakeNode) (copy : Bool) :
    Except Fault Scheduler :=
  let s := match node.out with
    | some out => if copy then s.log (.copied t out) else s
    | none => s
  taskAddEventLoop (s.log (.joinerWoken t node.waker)) node.waker

/-- `taskio_handle_join`. -/
def handleJoin (s : Scheduler) (t : Nat) (node : TaskWakeNode) : Except Fault Scheduler := do
  let task ← handleTask s t
  match task.status with
  | .suspended | .scheduled =>
    .ok (s.setTask t (some { task with wakeOnReady := node :: task.wakeOnReady }))
  | .aborted =>
    -- the waker is called, and the node is linked nevertheless
    let s ← wakeNode s t node false
    let task ← s.task t
    .ok (s.setTask t (some { task with wakeOnReady := node :: task.wakeOnReady }))
  | .finished => wakeNode s t node task.hasOut

/-! ## Steps -/

/-- The calls of the program, and the steps of `worker_run`. -/
inductive SchedulerOp where
  | spawn (hasOut : Bool)
  | blockOn
  | wake (t : Nat)
  | abort (t : Nat)
  | clone (t : Nat)
  | drop (t : Nat)
  | join (t : Nat) (node : TaskWakeNode)
  /-- `event_fd` is readable -/
  | event
  /-- the head of the queue is taken; it is polled, or cleaned up if it was aborted -/
  | take
  /-- the poll ends -/
  | ret (poll : FuturePoll)
  /-- the cleanup poll ends -/
  | cleaned
  /-- one turn of `task_wake_wakers` -/
  | wakeJoiner
  /-- `task_drop` at the end of the task's turn -/
  | release
  /-- the queue is empty -/
  | drained
  /-- `worker_run` returns -/
  | leave
deriving DecidableEq, Repr

/-- Taking the head of the ready queue. -/
def workerTake (s : Scheduler) : Except Fault Scheduler :=
  match s.pollHead with
  | none => .error .noSuchCall
  | some t => do
    let task ← s.task t
    let s := { s with
      pollHead := task.next
      pollTail := if task.next = none then none else s.pollTail }
    if task.status = .aborted then
      .ok { s.log (.cleanedUp t) with control := .cleaning t false }
    else
      .ok { (s.setTask t (some { task with status := .suspended, next := none })).log (.polled t) with
        control := .polling t }

/-- The end of a cleanup poll. -/
def workerCleaned (s : Scheduler) (t : Nat) (ready : Bool) : Except Fault Scheduler := do
  let task ← s.task t
  if ready then
    .ok { s.setTask t (some { task with status := .finished }) with
      control := .waking t task.wakeOnReady }
  else .ok { s with control := .waking t [] }

/-- The end of a task's turn: the runtime's reference is dropped. -/
def workerRelease (s : Scheduler) (t : Nat) : Except Fault Scheduler := do
  let s := if s.workerTask = some t then { s with running := false } else s
  let s ← taskDrop s t
  .ok { s.log (.released t) with control := .draining }

def schedulerStep (s : Scheduler) (o : SchedulerOp) : Except Fault Scheduler :=
  match o, s.control with
  | .spawn hasOut, _ => do
    let (s, _) ← runtimeSpawn s hasOut
    .ok s
  | .blockOn, .stopped => runtimeBlockOn s
  | .wake t, _ => taskAddEventLoop s t
  | .abort t, _ => handleAbort s t
  | .clone t, _ => handleClone s t
  | .drop t, _ => handleDrop s t
  | .join t node, _ => handleJoin s t node
  | .event, .waiting =>
    if s.running ∧ 0 < s.eventFd then .ok { s with eventFd := 0, control := .draining }
    else .error .noSuchCall
  | .take, .draining => workerTake s
  | .ret poll, .polling t =>
    if poll = .ready then .ok { s.log (.cleanedUp t) with control := .cleaning t true }
    else .ok { s with control := .draining }
  | .cleaned, .cleaning t ready => workerCleaned s t ready
  | .wakeJoiner, .waking t (node :: nodes) => do
    let _ ← s.task t
    wakeNode { s with control := .waking t nodes } t node true
  | .release, .waking t [] => workerRelease s t
  | .drained, .draining =>
    if s.pollHead = none then .ok { s with pollScheduled := false, control := .waiting }
    else .error .noSuchCall
  | .leave, .waiting =>
    if s.running then .error .noSuchCall else .ok { s with control := .stopped }
  | _, _ => .error .noSuchCall

end Taskio
