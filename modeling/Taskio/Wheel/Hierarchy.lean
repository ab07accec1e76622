import Taskio.Wheel.Basic

/-!
# `runtime_ext.c` and the wheels of `runtime.c`

Eight wheels of growing resolution. A timer is stored in the wheel its delay selects and moves to
a finer one each time its bucket comes up, until the finest wheel reaches its expiry time.
-/

namespace Taskio

/-- `WHEEL_LEVEL_SIZE`. -/
def wheelLevelSize : Nat := 8

/-- `resolutions` of `_wheel_setup`, in milliseconds. -/
def resolutions : List Nat := [1, 10, 100, 1000, 60000, 3600000, 86400000, 31536000000]

/-- `lengths` of `_wheel_setup`. -/
def lengths : List Nat := [10, 10, 10, 60, 60, 24, 365, 4]

/-- One iteration of the loop in `_wheel_setup`. -/
def wheelInit (i resolution length : Nat) : WheelTimer :=
  { tick := 0, id := i, resolution := resolution, wheelSize := length,
    timerBuckets := List.replicate length [], loopHandler := true, expiryHandler := true }

/--
`_wheel_setup`, with `timer_fd` disarmed as `taskio_runtime_init` leaves it. `next_timer_id` is
global: another runtime may have used it.
-/
def wheelSetup (nextTimerId : UInt64) : TimerRuntime :=
  { wheels := (List.range wheelLevelSize).map fun i =>
      wheelInit i (resolutions.getD i 0) (lengths.getD i 0)
    timerLen := 0, armed := false, nextTimerId := nextTimerId.toNat, calls := [] }

/-- `_find_wheel`. -/
def findWheel (delay : Nat) : Nat :=
  let tenMsIndex := delay / 10
  let hundredMsIndex := delay / 100
  let secondIndex := delay / 1000
  let minuteIndex := delay / (1000 * 60)
  let hourIndex := delay / (1000 * 60 * 60)
  let dayIndex := delay / (1000 * 60 * 60 * 24)
  let yearIndex := delay / (1000 * 60 * 60 * 24 * 365)
  if yearIndex > 0 then 7
  else if dayIndex > 0 then 6
  else if hourIndex > 0 then 5
  else if minuteIndex > 0 then 4
  else if secondIndex > 0 then 3
  else if hundredMsIndex > 0 then 2
  else if tenMsIndex > 0 then 1
  else 0

/-- `_increase_timer_len`: the first timer arms `timer_fd`. -/
def increaseTimerLen (rt : TimerRuntime) : TimerRuntime :=
  { rt with
    timerLen := sizeInc rt.timerLen
    armed := if rt.timerLen = 0 then true else rt.armed }

/-- `_decrease_timer_len`: the last timer disarms `timer_fd`. -/
def decreaseTimerLen (rt : TimerRuntime) : TimerRuntime :=
  { rt with
    timerLen := sizeDec rt.timerLen
    armed := if rt.timerLen = 1 then false else rt.armed }

/-- `wheels[0].tick * wheels[0].resolution`. -/
def runtimeTime (rt : TimerRuntime) : Except Fault Nat := do
  let w ← rt.wheel 0
  .ok (u64 (w.tick * w.resolution))

/-- `taskio_runtime_add_timer`. -/
def runtimeAddTimer (rt : TimerRuntime) (delay : UInt64) (handler data : Nat) :
    Except Fault (TimerRuntime × TimerHandle) := do
  let (rt', handle) ← wheelTimerAdd rt (findWheel delay.toNat) delay.toNat handler data
  if timerValid handle then .ok (increaseTimerLen rt', handle) else .ok (rt', handle)

/-- `taskio_runtime_add_timer_from`. -/
def runtimeAddTimerFrom (rt : TimerRuntime) (timer : Timer) (isRescheduling : Bool) :
    Except Fault TimerRuntime := do
  let w ← rt.wheel 0
  let time := u64 (w.tick * w.resolution)
  let time := if isRescheduling then u64 (time + w.resolution) else time
  if time ≥ timer.expiryTime then
    if isRescheduling then .error .assertFailed else .ok (rt.call (.timer timer))
  else
    let delay := timer.expiryTime - time
    let rt := if isRescheduling then rt else increaseTimerLen rt
    wheelTimerAddFrom rt (findWheel delay) timer

/-- The common body of `taskio_runtime_timer_fire` and `taskio_runtime_timer_abort`. -/
def runtimeTimerRemove (remove : TimerRuntime → Nat → TimerHandle → Except Fault TimerRuntime)
    (rt : TimerRuntime) (handle : TimerHandle) : Except Fault TimerRuntime := do
  let time ← runtimeTime rt
  if time ≥ handle.expiryTime then .ok rt
  else
    let delay := handle.expiryTime - time
    let rt' ← remove rt (findWheel delay) handle
    .ok (decreaseTimerLen rt')

/-- `taskio_runtime_timer_fire`. -/
def runtimeTimerFire (rt : TimerRuntime) (handle : TimerHandle) : Except Fault TimerRuntime :=
  runtimeTimerRemove timerFire rt handle

/-- `taskio_runtime_timer_abort`. -/
def runtimeTimerAbort (rt : TimerRuntime) (handle : TimerHandle) : Except Fault TimerRuntime :=
  runtimeTimerRemove timerAbort rt handle

/-- `_wheel_expiry`. Its second branch repeats the body of `_decrease_timer_len`. -/
def wheelExpiry (rt : TimerRuntime) (timer : Timer) (hasRemainingTicks : Bool) :
    Except Fault TimerRuntime :=
  if hasRemainingTicks then runtimeAddTimerFrom rt timer true else .ok (decreaseTimerLen rt)

/-- The body of the loop over the drained bucket in `taskio_wheel_timer_tick`. -/
def tickTimer (level time : Nat) (expiryHandler : Bool) (rt : TimerRuntime) (timer : Timer) :
    Except Fault TimerRuntime :=
  if time ≥ timer.expiryTime then
    let rt := rt.call (.timer timer)
    if expiryHandler then wheelExpiry rt timer false else .error .nullHandler
  else if expiryHandler then wheelExpiry rt timer true
  else wheelTimerAddFrom rt level timer

/--
`taskio_wheel_timer_tick` on the wheel at `level`. The first argument counts the wheels from
`level` to the end of the array; `_wheel_loop` ticks the wheel after this one, whose index is
`wheel_timer->id + 1`.
-/
def wheelTimerTick : Nat → Nat → TimerRuntime → Except Fault TimerRuntime
  | 0, _, _ => .error .outOfBounds
  | levels + 1, level, rt => do
    let w ← rt.wheel level
    let tick := u64 (w.tick + 1)
    let time := u64 (tick * w.resolution)
    if w.wheelSize = 0 then .error .divisionByZero
    else
      let index := tick % w.wheelSize
      -- the bucket is moved out before its timers are visited
      let timers ← w.bucket index
      let rt := rt.modifyWheel level (·.setBucket index [])
      let rt ← timers.foldlM (tickTimer level time w.expiryHandler) rt
      let loop := if w.loopHandler && decide (tick > 0) && index == 0 then
          wheelTimerTick levels (w.id + 1) rt
        else .ok rt
      let rt ← loop
      -- the tick is counted last, so the levels above see the old one
      .ok (rt.modifyWheel level fun w => { w with tick := u64 (w.tick + 1) })

/-- One turn of the loop over `expirations` in `worker_run`. -/
def runtimeTick (rt : TimerRuntime) : Except Fault TimerRuntime :=
  wheelTimerTick rt.wheels.length 0 rt

end Taskio
