import Taskio.Future
import Taskio.Wheel.Pending

/-!
# `sleep.c`

A sleep keeps the waker of its poll in its own future, and gives the wheels a pointer to it. Here the
futures are in memory at their addresses, and the wheels are those of `Taskio/Wheel/Hierarchy.lean`: a
timer's `data` is the address of the future whose waker its handler reads.

Whoever polls a sleep cleans it up when it is ready, and may use its memory for something else after any
cleanup.
-/

namespace Taskio

/-- `struct taskio_sleep_future`: the counter and `struct taskio_sleep_env`, whose `runtime` is the
one of the timers. -/
structure SleepFuture where
  counter : Nat
  ms : UInt64
  waker : Nat
  timerId : Nat
  timerExpiryTime : Nat
deriving DecidableEq

/-- The timers, and the sleeps in memory. `woken` records the calls of wakers, oldest first, with the
future that the waker was read from. -/
structure SleepSystem where
  timers : TimerRuntime
  futures : Nat → Option SleepFuture
  woken : List (Nat × Nat)

/-- The address of `taskio_sleep_handler`. -/
def sleepHandlerAddr : Nat := 1

namespace SleepFuture

/-- `taskio_sleep`. -/
def init (ms : UInt64) : SleepFuture :=
  { counter := 0, ms := ms, waker := 0, timerId := 0, timerExpiryTime := 0 }

/-- `handle`, as each poll begins. -/
def handle (f : SleepFuture) : TimerHandle := { id := f.timerId, expiryTime := f.timerExpiryTime }

end SleepFuture

namespace SleepSystem

def future (s : SleepSystem) (f : Nat) : Except Fault SleepFuture :=
  match s.futures f with
  | some future => .ok future
  | none => .error .noSuchCall

def setFuture (s : SleepSystem) (f : Nat) (future : Option SleepFuture) : SleepSystem :=
  { s with futures := Function.update s.futures f future }

end SleepSystem

/-- `taskio_sleep_handler`: it reads the waker at `data` and calls it. -/
def taskioSleepHandler (s : SleepSystem) (data : Nat) : Except Fault SleepSystem :=
  match s.futures data with
  | some future => .ok { s with woken := s.woken ++ [(data, future.waker)] }
  | none => .error .useAfterFree

/-- The wheels go to `timers`, and the handlers run that they called meanwhile. A waker changes neither
the wheels nor a sleep. -/
def runHandlers (s : SleepSystem) (timers : TimerRuntime) : Except Fault SleepSystem :=
  (timers.calls.drop s.timers.calls.length).foldlM (fun s call => taskioSleepHandler s call.data)
    { s with timers := timers }

/-- The body of `async_fn(void, taskio_sleep)`, for a poll with `waker` in its context. -/
def taskioSleepPoll (s : SleepSystem) (f waker : Nat) : Except Fault (SleepSystem × FuturePoll) := do
  let future ← s.future f
  let handle := future.handle
  if future.counter = futureClrVal then
    if timerValid handle then
      let timers ← runtimeTimerAbort s.timers handle
      let s ← runHandlers s timers
      .ok (s, .undefined)
    else .ok (s, .undefined)
  else if future.counter = 1 then do
    -- the waker is stored before the timer is added, the handle after it
    let future := { future with waker := waker }
    let s := s.setFuture f (some future)
    let (timers, handle) ← runtimeAddTimer s.timers future.ms sleepHandlerAddr f
    let s ← runHandlers s timers
    let future := { future with timerId := handle.id, timerExpiryTime := handle.expiryTime }
    .ok (s.setFuture f (some future), .pending)
  else if future.counter = 2 then
    .ok (s.setFuture f (some { future with timerId := 0, timerExpiryTime := 0 }), .ready)
  else .ok (s, .undefined)

/-- `__TASKIO_FUTURE_CLEANUP` of a sleep, whose memory is then given back. -/
def sleepCleanup (s : SleepSystem) (f : Nat) : Except Fault SleepSystem := do
  let future ← s.future f
  let (s, _) ← taskioSleepPoll (s.setFuture f (some { future with counter := futureClrVal })) f 0
  .ok (s.setFuture f none)

/-- A poll by whoever awaits or joins the sleep: the counter is increased first, and a sleep that is
ready is cleaned up. -/
def sleepPoll (s : SleepSystem) (f waker : Nat) : Except Fault SleepSystem := do
  let future ← s.future f
  let s := s.setFuture f (some { future with counter := future.counter + 1 })
  let (s, poll) ← taskioSleepPoll s f waker
  match poll with
  | .ready => sleepCleanup s f
  | .pending | .undefined => .ok s

/-! ## Runs -/

/-- A sleep is made where no other is, it is polled, it is cleaned up without being ready, and the clock
ticks. -/
inductive SleepOp where
  | sleep (f : Nat) (ms : UInt64)
  | poll (f waker : Nat)
  | cleanup (f : Nat)
  | tick
deriving DecidableEq

def sleepStep (s : SleepSystem) : SleepOp → Except Fault SleepSystem
  | .sleep f ms =>
    match s.futures f with
    | none => .ok (s.setFuture f (some (SleepFuture.init ms)))
    | some _ => .error .noSuchCall
  | .poll f waker => sleepPoll s f waker
  | .cleanup f => sleepCleanup s f
  | .tick => do
    let timers ← runtimeTick s.timers
    runHandlers s timers

/-- No sleep yet. -/
def sleepSystem (nextTimerId : UInt64) : SleepSystem :=
  { timers := wheelSetup nextTimerId, futures := fun _ => none, woken := [] }

end Taskio
