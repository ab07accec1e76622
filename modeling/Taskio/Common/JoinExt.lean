import Taskio.Future

/-!
# `join_ext.c`: join and select

The children are the slots of an array; the ready list runs through their `next`. A poll of the
join walks the list that it finds, and `_join_wake` appends to the list for the next poll.

What a child does when it is polled is not fixed: its poll is begun by `child` and ended by `ret`,
and wakers may be called in between, in its clean-up, and between two polls of the join. `JoinStage`
says where `taskio_join_ext` stands. The environment `E` is what the callbacks add to the join's
own: nothing for `taskio_join`, the list of winners for `taskio_select`.
-/

namespace Taskio

/-! ## Data -/

/--
`struct taskio_join_task`, named by its place in the array. `future` says whether the pointer is
set, `env` whether the child was polled and its waker can find the join.
-/
structure JoinTask where
  index : Nat
  future : Bool
  env : Bool
  next : Option Nat
deriving DecidableEq, Repr

/-- Where `taskio_join_ext` stands. -/
inductive JoinStage where
  /-- between two polls -/
  | idle
  /-- in the loop over the ready list, at `join_task` -/
  | walking (joinTask : Option Nat)
  /-- in the poll of a child, with `next_join_task` -/
  | polling (i : Nat) (next : Option Nat)
  /-- in the clean-up poll of a child that is ready, with `next_join_task` -/
  | cleaning (i : Nat) (next : Option Nat)
  /-- returned ready, with the value -/
  | returned (value : Option Nat)
  /-- cleaned up: the array is freed -/
  | gone
deriving DecidableEq, Repr

/-- What the children and the parent see. -/
inductive JoinEvent where
  /-- a poll of the join begins -/
  | began
  | polled (i : Nat)
  /-- the waker of the child is called, and calls the parent's -/
  | woken (i : Nat)
  | ready (i : Nat)
  | cleanedUp (i : Nat)
deriving DecidableEq, Repr

/-- `on_ready` and `on_finish`. `on_finish` draws a number and may return an index. -/
structure JoinCallbacks (E : Type) where
  onReady : Option (E → Nat → E)
  onFinish : Option (E → Nat → Option Nat)

/-- `struct taskio_join_ext_env`. -/
structure JoinExt (E : Type) where
  tasks : List JoinTask
  completedLen : Nat
  pollHead : Option Nat
  pollTail : Option Nat
  env : E
  stage : JoinStage
  events : List JoinEvent

variable {E : Type}

namespace JoinExt

def len (s : JoinExt E) : Nat := s.tasks.length

def task (s : JoinExt E) (i : Nat) : Except Fault JoinTask :=
  match s.tasks[i]? with
  | some task => .ok task
  | none => .error .outOfBounds

def setTask (s : JoinExt E) (i : Nat) (task : JoinTask) : JoinExt E :=
  { s with tasks := s.tasks.set i task }

/-- The links of the ready list. -/
def next (s : JoinExt E) (i : Nat) : Option Nat := s.tasks[i]?.bind (·.next)

def log (s : JoinExt E) (es : List JoinEvent) : JoinExt E := { s with events := s.events ++ es }

end JoinExt

/-! ## Functions -/

/-- The loop of `taskio_join` and `taskio_select` that fills the array. -/
def joinTasks (len : Nat) : List JoinTask :=
  (List.range len).map fun i =>
    { index := i, future := true, env := false, next := if i + 1 < len then some (i + 1) else none }

/-- `taskio_join_ext`, the constructor. -/
def joinExt (len : Nat) (env : E) : JoinExt E :=
  { tasks := joinTasks len, completedLen := 0,
    pollHead := if 1 ≤ len then some 0 else none,
    pollTail := if 1 ≤ len then some (len - 1) else none,
    env := env, stage := .idle, events := [] }

/-- `_join_wake`. -/
def joinWake (s : JoinExt E) (i : Nat) : Except Fault (JoinExt E) := do
  let task ← s.task i
  if task.env = false then .error .nullPointer
  else
    let s := s.setTask i { task with next := none }
    match s.pollTail with
    | some last => do
      let lastTask ← s.task last
      let s := s.setTask last { lastTask with next := some i }
      .ok ({ s with pollTail := some i }.log [.woken i])
    | none => .ok ({ s with pollHead := some i, pollTail := some i }.log [.woken i])

/-- The head of the loop body: the child's poll begins. -/
def joinChild (s : JoinExt E) (i : Nat) : Except Fault (JoinExt E) := do
  let task ← s.task i
  if task.future = false then .error .nullPointer
  else .ok { (s.setTask i { task with env := true }).log [.polled i] with
    stage := .polling i task.next }

/-- The `switch` on the answer. -/
def joinRet (cb : JoinCallbacks E) (s : JoinExt E) (i : Nat) (next : Option Nat)
    (poll : FuturePoll) : Except Fault (JoinExt E) :=
  match poll with
  | .undefined | .pending => .ok { s with stage := .walking next }
  | .ready => do
    let task ← s.task i
    let env := match cb.onReady with
      | some onReady => onReady s.env task.index
      | none => s.env
    .ok { s.log [.ready i, .cleanedUp i] with env := env, stage := .cleaning i next }

/-- The end of the `taskio_future_ready` branch. -/
def joinCleaned (s : JoinExt E) (i : Nat) (next : Option Nat) : Except Fault (JoinExt E) := do
  let task ← s.task i
  .ok { s.setTask i { task with future := false } with
    completedLen := s.completedLen + 1, stage := .walking next }

/-- After the walk. -/
def joinFinish (cb : JoinCallbacks E) (s : JoinExt E) (rand : Nat) : JoinExt E :=
  match cb.onFinish.bind fun onFinish => onFinish s.env rand with
  | some index => { s with stage := .returned (some index) }
  | none =>
    if s.len = s.completedLen then { s with stage := .returned none } else { s with stage := .idle }

/-- The loop of `async_cleanup`: the places it cleans up. -/
def joinPending : List JoinTask → Nat → Nat → List Nat
  | [], _, _ => []
  | task :: tasks, i, pendingLen =>
    if pendingLen = 0 then []
    else if task.future then i :: joinPending tasks (i + 1) (pendingLen - 1)
    else joinPending tasks (i + 1) pendingLen

/-- `async_cleanup`. -/
def joinCleanup (s : JoinExt E) : JoinExt E :=
  { s.log ((joinPending s.tasks 0 (s.len - s.completedLen)).map .cleanedUp) with stage := .gone }

/-! ## Steps -/

/-- The polls and wakers of the join and of its children. -/
inductive JoinOp where
  /-- the join is polled -/
  | poll
  /-- the child at `join_task` is polled -/
  | child
  /-- its poll ends -/
  | ret (poll : FuturePoll)
  /-- its clean-up poll ends -/
  | cleaned
  /-- the waker of a child is called -/
  | wake (i : Nat)
  /-- the walk is over; `rand()` would give this number -/
  | finish (rand : Nat)
  /-- the join is cleaned up -/
  | cleanup
deriving DecidableEq, Repr

def joinStep (cb : JoinCallbacks E) (s : JoinExt E) (o : JoinOp) : Except Fault (JoinExt E) :=
  match o, s.stage with
  | .poll, .idle =>
    .ok { s.log [.began] with pollHead := none, pollTail := none, stage := .walking s.pollHead }
  | .child, .walking (some i) => joinChild s i
  | .ret poll, .polling i next => joinRet cb s i next poll
  | .cleaned, .cleaning i next => joinCleaned s i next
  | .wake i, .idle | .wake i, .polling _ _ | .wake i, .cleaning _ _ => joinWake s i
  | .finish rand, .walking none => .ok (joinFinish cb s rand)
  | .cleanup, .idle | .cleanup, .returned _ => .ok (joinCleanup s)
  | _, _ => .error .noSuchCall

end Taskio
