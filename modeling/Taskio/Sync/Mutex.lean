import Taskio.Runtime.Scheduler
import Taskio.Sync.Semaphore

/-!
# `mutex.c`: locks of tasks on one runtime

A mutex is a semaphore of one permit. The tasks of a single-threaded runtime lock it with
`taskio_mutex_lock` or `taskio_mutex_timedlock` and unlock it; what else they do is not fixed.

`LockAwait` is the chain of awaits of a task that is in a lock future. While it is in one, a poll of
the task polls the innermost future of the chain (`async_fn_begin`), and nothing else runs: it is
`mutexResume`, at the start of the task's poll. A clean-up poll of the task cleans the chain up
(`mutexAbandon`). A child of the select in `taskio_semaphore_timedwait` is woken at most once, so the
ready list of that select is a list.

A timed lock that is over may leave its node in the queue (`_node_drop`) and its timer in the wheels (an
abort that misses). Both lead to its select, which was freed: the signal that takes the node and the
handler of the timer end in a `useAfterFree`.
-/

namespace Taskio

/-! ## Data -/

/-- What the waker of a wait wakes: a task, or the first child of the select of its timed lock. -/
structure LockWaker where
  task : Nat
  wait : Nat
  timed : Bool
deriving DecidableEq, Repr

/-- The children of the select in `taskio_semaphore_timedwait`. -/
inductive TimedChild where
  | wait
  | timeout
deriving DecidableEq, Repr

/-- Where a task is in a lock future. -/
inductive LockAwait where
  /-- in none -/
  | none
  /-- `taskio_mutex_lock` awaits this `taskio_semaphore_wait` -/
  | lock (i : Nat)
  /-- `taskio_mutex_timedlock` awaits the select of this wait and a sleep, with this ready list -/
  | timedlock (i : Nat) (ready : List TimedChild)
  /-- the awaited future was ready at its first poll, and the lock has yielded -/
  | resuming
deriving DecidableEq, Repr

/-- A task that uses the mutex. `locks` counts its successful locks less its unlocks. -/
structure Locker where
  await : LockAwait
  locks : Nat
deriving DecidableEq, Repr

/-- The runtime, the mutex and the tasks. `permits` records the tasks that took a permit and have not
given it back, oldest first. -/
structure MutexSystem where
  rt : Scheduler
  mutex : SemaphoreSystem LockWaker
  lockers : Nat → Locker
  permits : List Nat

namespace MutexSystem

def await (s : MutexSystem) (t : Nat) : LockAwait := (s.lockers t).await

def setLocker (s : MutexSystem) (t : Nat) (locker : Locker) : MutexSystem :=
  { s with lockers := Function.update s.lockers t locker }

def setAwait (s : MutexSystem) (t : Nat) (await : LockAwait) : MutexSystem :=
  s.setLocker t { s.lockers t with await := await }

end MutexSystem

/-! ## Functions -/

/-- `taskio_mutex_init`. -/
def mutexInit : SemaphoreSystem LockWaker := semaphoreSystem LockWaker 1

/--
The first poll of `taskio_mutex_lock`, or of `taskio_mutex_timedlock`, down to the first poll of the
wait. If that is ready, the future that awaited it yields (`await_get`): it calls the task's waker.
-/
def mutexAwait (s : MutexSystem) (t : Nat) (timed : Bool) : Except Fault MutexSystem := do
  let i := s.mutex.waits.length
  let mutex ← semaphoreStep s.mutex (.wait timed)
  let mutex ← semaphoreStep mutex (.poll i ⟨t, i, timed⟩)
  if mutex.isCompleted i then do
    let rt ← taskAddEventLoop s.rt t
    .ok { s.setAwait t .resuming with rt := rt, mutex := mutex, permits := s.permits ++ [t] }
  else
    .ok { s.setAwait t (if timed then .timedlock i [] else .lock i) with mutex := mutex }

/-- `taskio_mutex_lock`, first poll. -/
def mutexLock (s : MutexSystem) (t : Nat) : Except Fault MutexSystem := mutexAwait s t false

/-- `taskio_mutex_timedlock`, first poll. -/
def mutexTimedlock (s : MutexSystem) (t : Nat) : Except Fault MutexSystem := mutexAwait s t true

/--
A later poll of the lock future. After its yield it returns. A wait that is awaited directly is
polled, and is ready. The select polls its ready list; if a child was in it, it returns the first,
and the other child is cleaned up if it is still pending.
-/
def mutexResume (s : MutexSystem) (t : Nat) : Except Fault MutexSystem :=
  let locker := s.lockers t
  match locker.await with
  | .none => .ok s
  | .resuming => .ok (s.setLocker t ⟨.none, locker.locks + 1⟩)
  | .lock i => do
    let mutex ← semaphoreStep s.mutex (.poll i ⟨t, i, false⟩)
    .ok { s.setLocker t ⟨.none, locker.locks + 1⟩ with
      mutex := mutex, permits := s.permits ++ [t] }
  | .timedlock _ [] => .ok s
  | .timedlock i (first :: ready) => do
    let locks := if first = .wait then locker.locks + 1 else locker.locks
    if .wait ∈ first :: ready then do
      let mutex ← semaphoreStep s.mutex (.poll i ⟨t, i, true⟩)
      .ok { s.setLocker t ⟨.none, locks⟩ with mutex := mutex, permits := s.permits ++ [t] }
    else do
      let mutex ← semaphoreStep s.mutex (.cleanup i)
      .ok { s.setLocker t ⟨.none, locks⟩ with mutex := mutex }

/-- The clean-up poll of a task cleans up what it awaits. -/
def mutexAbandon (s : MutexSystem) (t : Nat) : Except Fault MutexSystem :=
  match s.await t with
  | .none | .resuming => .ok (s.setAwait t .none)
  | .lock i | .timedlock i _ => do
    let mutex ← semaphoreStep s.mutex (.cleanup i)
    .ok { s.setAwait t .none with mutex := mutex }

/-- Linking a child of the select of a timed lock, and waking the task. -/
def linkChild (s : MutexSystem) (t i : Nat) (ready : List TimedChild) (child : TimedChild) :
    Except Fault MutexSystem := do
  let rt ← taskAddEventLoop s.rt t
  .ok { s.setAwait t (.timedlock i (ready ++ [child])) with rt := rt }

/-- Calling the waker of a node. The select of a timed lock that is over was freed. -/
def callWaker (s : MutexSystem) (waker : LockWaker) : Except Fault MutexSystem :=
  if waker.timed then
    match s.await waker.task with
    | .timedlock i ready =>
      if i = waker.wait then linkChild s waker.task i ready .wait else .error .useAfterFree
    | _ => .error .useAfterFree
  else do
    let rt ← taskAddEventLoop s.rt waker.task
    .ok { s with rt := rt }

/-- `taskio_mutex_unlock`, by a task that holds the mutex. -/
def mutexUnlock (s : MutexSystem) (t : Nat) : Except Fault MutexSystem := do
  let locker := s.lockers t
  if locker.locks = 0 then .error .noSuchCall
  else do
    let mutex ← semaphoreStep s.mutex .signal
    let called := mutex.woken.drop s.mutex.woken.length
    let s := { s.setLocker t { locker with locks := locker.locks - 1 } with
      mutex := mutex, permits := s.permits.erase t }
    match called with
    | waker :: _ => callWaker s waker
    | [] => .ok s

/-- `taskio_sleep_handler` of the sleep in a timed lock. -/
def lockTimeout (s : MutexSystem) (t : Nat) : Except Fault MutexSystem :=
  match s.await t with
  | .timedlock i ready =>
    if .timeout ∈ ready then .error .noSuchCall else linkChild s t i ready .timeout
  | _ => .error .noSuchCall

/-- The timed lock that made the wait is over. -/
def MutexSystem.lockOver (s : MutexSystem) (i : Nat) : Bool :=
  match s.mutex.waits[i]? with
  | some w => w.future.timed && w.stage ≠ .live
  | none => false

/-! ## Steps -/

/-- A step of the runtime, a call on the mutex by the task that runs, or the timer of a timed lock. -/
inductive MutexOp where
  | rt (o : SchedulerOp)
  | lock
  | timedlock
  | unlock
  | timeout (t : Nat)
  /-- the timer of the timed lock that made this wait, when the lock is over: its abort missed it -/
  | lateTimeout (i : Nat)
deriving DecidableEq, Repr

/-- The head of the ready queue is taken: it is polled or cleaned up, from the lock future it is in. -/
def mutexTake (s : MutexSystem) : Except Fault MutexSystem := do
  let rt ← schedulerStep s.rt .take
  let s := { s with rt := rt }
  match rt.control with
  | .polling t => mutexResume s t
  | .cleaning t _ => mutexAbandon s t
  | _ => .ok s

def mutexSystem : MutexSystem :=
  { rt := schedulerInit, mutex := mutexInit, lockers := fun _ => ⟨.none, 0⟩, permits := [] }

/-- A task that is in a lock future returns pending and makes no calls. -/
def mutexStep (s : MutexSystem) : MutexOp → Except Fault MutexSystem
  | .rt .take => mutexTake s
  | .rt (.ret .ready) =>
    match s.rt.control with
    | .polling t =>
      if s.await t = .none then do
        let rt ← schedulerStep s.rt (.ret .ready)
        .ok { s with rt := rt }
      else .error .noSuchCall
    | _ => .error .noSuchCall
  | .rt o => do
    let rt ← schedulerStep s.rt o
    .ok { s with rt := rt }
  | .lock =>
    match s.rt.control with
    | .polling t => if s.await t = .none then mutexLock s t else .error .noSuchCall
    | _ => .error .noSuchCall
  | .timedlock =>
    match s.rt.control with
    | .polling t => if s.await t = .none then mutexTimedlock s t else .error .noSuchCall
    | _ => .error .noSuchCall
  | .unlock =>
    match s.rt.control with
    | .polling t | .cleaning t _ =>
      if s.await t = .none then mutexUnlock s t else .error .noSuchCall
    | _ => .error .noSuchCall
  | .timeout t => lockTimeout s t
  | .lateTimeout i => .error (if s.lockOver i then .useAfterFree else .noSuchCall)

end Taskio
