import Taskio.Collections.Vec

/-!
# `wheel.c`: one timer wheel

A wheel is an array of buckets visited in turn, one for each tick. Everything here acts on one
wheel of the runtime's array, named by its `level`; the two handlers of a wheel are function
pointers that are either null or the runtime's own (`Taskio/Wheel/Hierarchy.lean`), so a flag says
which. A wheel used on its own is an array of one.

`taskio_wheel_timer_tick` calls those handlers, so it is in `Taskio/Wheel/Hierarchy.lean`.
-/

namespace Taskio

/-! ## Data -/

/-- `struct taskio_timer`. The handler and its argument are the pointers themselves. -/
structure Timer where
  id : Nat
  expiryTime : Nat
  handler : Nat
  data : Nat
deriving DecidableEq, Repr

/-- `struct taskio_timer_handle`. -/
structure TimerHandle where
  id : Nat
  expiryTime : Nat
deriving DecidableEq, Repr

/-- The handle that `taskio_wheel_timer_add` returns for a timer. -/
def Timer.handle (t : Timer) : TimerHandle := { id := t.id, expiryTime := t.expiryTime }

/-- `struct taskio_wheel_timer`. A handler is `true` when set, `false` when null. -/
structure WheelTimer where
  tick : Nat
  id : Nat
  resolution : Nat
  wheelSize : Nat
  timerBuckets : List (List Timer)
  loopHandler : Bool
  expiryHandler : Bool
deriving DecidableEq, Repr

/-- One call `handler(data)`: straight from `taskio_wheel_timer_add`, or for a timer. -/
inductive Call where
  | direct (handler data : Nat)
  | timer (t : Timer)
deriving DecidableEq, Repr

/--
The part of the runtime that timers use: `hierarchy_wheel`, whether `timer_fd` is armed, and the
global `next_timer_id`. `calls` records every handler call, oldest first.
-/
structure TimerRuntime where
  wheels : List WheelTimer
  timerLen : Nat
  armed : Bool
  nextTimerId : Nat
  calls : List Call
deriving DecidableEq, Repr

namespace TimerRuntime

def wheel (rt : TimerRuntime) (level : Nat) : Except Fault WheelTimer :=
  match rt.wheels[level]? with
  | some w => .ok w
  | none => .error .outOfBounds

def modifyWheel (rt : TimerRuntime) (level : Nat) (f : WheelTimer → WheelTimer) : TimerRuntime :=
  { rt with wheels := rt.wheels.modify level f }

def call (rt : TimerRuntime) (c : Call) : TimerRuntime := { rt with calls := rt.calls ++ [c] }

/-- The timers stored in all buckets of all wheels. -/
def stored (rt : TimerRuntime) : List Timer := rt.wheels.flatMap fun w => w.timerBuckets.flatten

end TimerRuntime

namespace WheelTimer

def bucket (w : WheelTimer) (index : Nat) : Except Fault (List Timer) :=
  match w.timerBuckets[index]? with
  | some b => .ok b
  | none => .error .outOfBounds

def setBucket (w : WheelTimer) (index : Nat) (b : List Timer) : WheelTimer :=
  { w with timerBuckets := w.timerBuckets.set index b }

end WheelTimer

/-! ## Functions -/

/-- `_find_bucket`. The index of the bucket, or none for `NULL`. -/
def findBucket (w : WheelTimer) (expiryTime : Nat) : Except Fault (Option Nat) :=
  let time := u64 (w.tick * w.resolution)
  if time ≥ expiryTime then .ok none
  else if w.resolution = 0 ∨ w.wheelSize = 0 then .error .divisionByZero
  else
    let remainingTicks := (expiryTime - time) / w.resolution
    .ok (some (u64 (w.tick + remainingTicks) % w.wheelSize))

/-- `taskio_wheel_timer_add_from`. -/
def wheelTimerAddFrom (rt : TimerRuntime) (level : Nat) (timer : Timer) :
    Except Fault TimerRuntime := do
  let w ← rt.wheel level
  match ← findBucket w timer.expiryTime with
  | some index =>
    let timers ← w.bucket index
    .ok (rt.modifyWheel level (·.setBucket index (timers ++ [timer])))
  | none => .ok (rt.call (.timer timer))

/-- `taskio_wheel_timer_add`. -/
def wheelTimerAdd (rt : TimerRuntime) (level delay handler data : Nat) :
    Except Fault (TimerRuntime × TimerHandle) :=
  if delay = 0 then .ok (rt.call (.direct handler data), { id := 0, expiryTime := 0 })
  else do
    let w ← rt.wheel level
    let timer : Timer :=
      { id := rt.nextTimerId, expiryTime := u64 (w.tick * w.resolution + delay),
        handler := handler, data := data }
    let rt' ← wheelTimerAddFrom { rt with nextTimerId := u64 (rt.nextTimerId + 1) } level timer
    .ok (rt', timer.handle)

/-- `taskio_timer_valid`. -/
def timerValid (handle : TimerHandle) : Bool := handle.id != 0 || handle.expiryTime != 0

/-- `_fire_predicate`. The handler runs while the vector is searched. -/
def firePredicate (handle : TimerHandle) (timer : Timer) (calls : List Call) :
    Predicate × List Call :=
  if timer.id = handle.id then (.trueFinish, calls ++ [.timer timer]) else (.false, calls)

/-- `_abort_predicate`. -/
def abortPredicate (handle : TimerHandle) (timer : Timer) (calls : List Call) :
    Predicate × List Call :=
  if timer.id = handle.id then (.trueFinish, calls) else (.false, calls)

/-- The common body of `taskio_timer_fire` and `taskio_timer_abort`. -/
def timerRemove (predicate : Timer → List Call → Predicate × List Call) (rt : TimerRuntime)
    (level : Nat) (handle : TimerHandle) : Except Fault TimerRuntime := do
  let w ← rt.wheel level
  match ← findBucket w handle.expiryTime with
  | none => .ok rt
  | some index =>
    let timers ← w.bucket index
    let (timers', calls') := vecRemoveIf predicate timers rt.calls
    .ok { rt.modifyWheel level (·.setBucket index timers') with calls := calls' }

/-- `taskio_timer_fire`. -/
def timerFire (rt : TimerRuntime) (level : Nat) (handle : TimerHandle) :
    Except Fault TimerRuntime :=
  timerRemove (firePredicate handle) rt level handle

/-- `taskio_timer_abort`. -/
def timerAbort (rt : TimerRuntime) (level : Nat) (handle : TimerHandle) :
    Except Fault TimerRuntime :=
  timerRemove (abortPredicate handle) rt level handle

end Taskio
