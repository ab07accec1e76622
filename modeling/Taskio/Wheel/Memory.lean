import Taskio.Collections.VecRuns
import Taskio.Wheel.Bounds

/-!
# The wheels in memory

The runtime's `buckets` are vectors of one array, and their timers are in buffers of the allocator.
Every function of `wheel.c` and `runtime_ext.c` is here once more, as it acts on them: a tick moves a
bucket to a local vector, reads its timers by index, and destroys it when all are visited; meanwhile
they are appended to other buckets, which may grow.

`timerMemoryStep` is `timerStep` of `Taskio/Wheel/Operations.lean` on this state. The allocator's
answers are given: `addr n` is the address that it returns when it is asked for the `n`th time.
-/

namespace Taskio

/-! ## Data -/

/-- The local variable `timers` of `taskio_wheel_timer_tick` stands behind `buckets`. -/
def timersLocal : Nat := bucketsSize

/-- `struct taskio_wheel_timer`. `timerBuckets` is the index in `buckets` of what it points to. -/
structure WheelMemory where
  tick : Nat
  id : Nat
  resolution : Nat
  wheelSize : Nat
  timerBuckets : Option Nat
  loopHandler : Bool
  expiryHandler : Bool
deriving DecidableEq, Repr

/-- The part of the runtime that timers use, with the vectors of `buckets`. `allocs` counts what the
allocator was asked for. -/
structure TimerMemory where
  vecs : VecSystem Timer
  wheels : List WheelMemory
  timerLen : Nat
  armed : Bool
  nextTimerId : Nat
  calls : List Call
  allocs : Nat

namespace TimerMemory

def wheel (rt : TimerMemory) (level : Nat) : Except Fault WheelMemory :=
  match rt.wheels[level]? with
  | some w => .ok w
  | none => .error .outOfBounds

def modifyWheel (rt : TimerMemory) (level : Nat) (f : WheelMemory → WheelMemory) : TimerMemory :=
  { rt with wheels := rt.wheels.modify level f }

def call (rt : TimerMemory) (c : Call) : TimerMemory := { rt with calls := rt.calls ++ [c] }

/-- `&wheel_timer->timer_buckets[index]`. -/
def bucketAt (w : WheelMemory) (index : Nat) : Except Fault Nat :=
  match w.timerBuckets with
  | some start => .ok (start + index)
  | none => .error .nullPointer

/-! ## `wheel.c` -/

/-- `_find_bucket`. -/
def findBucket (w : WheelMemory) (expiryTime : Nat) : Except Fault (Option Nat) :=
  let time := u64 (w.tick * w.resolution)
  if time ≥ expiryTime then .ok none
  else if w.resolution = 0 ∨ w.wheelSize = 0 then .error .divisionByZero
  else do
    let remainingTicks := (expiryTime - time) / w.resolution
    let bucket ← bucketAt w (u64 (w.tick + remainingTicks) % w.wheelSize)
    .ok (some bucket)

section Allocator

variable (size : ℕ+) (addr : Nat → Nat)

/-- `taskio_vec_push_last` on a bucket. The allocator is asked if it is full. -/
def pushLast (rt : TimerMemory) (bucket : Nat) (timer : Timer) : Except Fault TimerMemory := do
  let vec ← rt.vecs.vec bucket
  let vecs ← vecStep (σ := Unit) size rt.vecs (.pushLast bucket timer (addr rt.allocs))
  .ok { rt with
    vecs := vecs
    allocs := if vec.capacity ≤ vec.len then rt.allocs + 1 else rt.allocs }

/-- `taskio_wheel_timer_add_from`. -/
def wheelTimerAddFrom (rt : TimerMemory) (level : Nat) (timer : Timer) :
    Except Fault TimerMemory := do
  let w ← rt.wheel level
  match ← findBucket w timer.expiryTime with
  | some bucket => rt.pushLast size addr bucket timer
  | none => .ok (rt.call (.timer timer))

/-- `taskio_wheel_timer_add`. -/
def wheelTimerAdd (rt : TimerMemory) (level delay handler data : Nat) :
    Except Fault (TimerMemory × TimerHandle) :=
  if delay = 0 then .ok (rt.call (.direct handler data), { id := 0, expiryTime := 0 })
  else do
    let w ← rt.wheel level
    let timer : Timer :=
      { id := rt.nextTimerId, expiryTime := u64 (w.tick * w.resolution + delay),
        handler := handler, data := data }
    let rt' ← wheelTimerAddFrom size addr { rt with nextTimerId := u64 (rt.nextTimerId + 1) }
      level timer
    .ok (rt', timer.handle)

/-- `taskio_vec_remove_if` on a bucket, whose predicate may call a handler. -/
def removeIf (predicate : Timer → List Call → Predicate × List Call) (rt : TimerMemory)
    (bucket : Nat) : Except Fault TimerMemory := do
  let vec ← rt.vecs.vec bucket
  match ← removeIfLoop predicate (vec.len + 1) (Taskio.removeIf rt.vecs.memory vec rt.calls) with
  | some r => .ok { rt with vecs := rt.vecs.store bucket (r.memory, r.vec), calls := r.state }
  | none => .error .outOfBounds

/-- The common body of `taskio_timer_fire` and `taskio_timer_abort`. -/
def timerRemove (predicate : Timer → List Call → Predicate × List Call) (rt : TimerMemory)
    (level : Nat) (handle : TimerHandle) : Except Fault TimerMemory := do
  let w ← rt.wheel level
  match ← findBucket w handle.expiryTime with
  | none => .ok rt
  | some bucket => rt.removeIf predicate bucket

/-- `taskio_timer_fire`. -/
def timerFire (rt : TimerMemory) (level : Nat) (handle : TimerHandle) : Except Fault TimerMemory :=
  timerRemove (firePredicate handle) rt level handle

/-- `taskio_timer_abort`. -/
def timerAbort (rt : TimerMemory) (level : Nat) (handle : TimerHandle) : Except Fault TimerMemory :=
  timerRemove (abortPredicate handle) rt level handle

/-! ## `runtime_ext.c` -/

/-- `_increase_timer_len`. -/
def increaseTimerLen (rt : TimerMemory) : TimerMemory :=
  { rt with
    timerLen := sizeInc rt.timerLen
    armed := if rt.timerLen = 0 then true else rt.armed }

/-- `_decrease_timer_len`. -/
def decreaseTimerLen (rt : TimerMemory) : TimerMemory :=
  { rt with
    timerLen := sizeDec rt.timerLen
    armed := if rt.timerLen = 1 then false else rt.armed }

/-- `taskio_runtime_add_timer`. -/
def runtimeAddTimer (rt : TimerMemory) (delay : UInt64) (handler data : Nat) :
    Except Fault (TimerMemory × TimerHandle) := do
  let (rt', handle) ← wheelTimerAdd size addr rt (findWheel delay.toNat) delay.toNat handler data
  if timerValid handle then .ok (rt'.increaseTimerLen, handle) else .ok (rt', handle)

/-- `taskio_runtime_add_timer_from`. -/
def runtimeAddTimerFrom (rt : TimerMemory) (timer : Timer) (isRescheduling : Bool) :
    Except Fault TimerMemory := do
  let w ← rt.wheel 0
  let time := u64 (w.tick * w.resolution)
  let time := if isRescheduling then u64 (time + w.resolution) else time
  if time ≥ timer.expiryTime then
    if isRescheduling then .error .assertFailed else .ok (rt.call (.timer timer))
  else
    let delay := timer.expiryTime - time
    let rt := if isRescheduling then rt else rt.increaseTimerLen
    wheelTimerAddFrom size addr rt (findWheel delay) timer

/-- The common body of `taskio_runtime_timer_fire` and `taskio_runtime_timer_abort`. -/
def runtimeTimerRemove (remove : TimerMemory → Nat → TimerHandle → Except Fault TimerMemory)
    (rt : TimerMemory) (handle : TimerHandle) : Except Fault TimerMemory := do
  let w ← rt.wheel 0
  let time := u64 (w.tick * w.resolution)
  if time ≥ handle.expiryTime then .ok rt
  else
    let delay := handle.expiryTime - time
    let rt' ← remove rt (findWheel delay) handle
    .ok rt'.decreaseTimerLen

/-- `taskio_runtime_timer_fire`. -/
def runtimeTimerFire (rt : TimerMemory) (handle : TimerHandle) : Except Fault TimerMemory :=
  runtimeTimerRemove timerFire rt handle

/-- `taskio_runtime_timer_abort`. -/
def runtimeTimerAbort (rt : TimerMemory) (handle : TimerHandle) : Except Fault TimerMemory :=
  runtimeTimerRemove timerAbort rt handle

/-! ## The tick -/

/-- `_wheel_expiry`. -/
def wheelExpiry (rt : TimerMemory) (timer : Timer) (hasRemainingTicks : Bool) :
    Except Fault TimerMemory :=
  if hasRemainingTicks then runtimeAddTimerFrom size addr rt timer true
  else .ok rt.decreaseTimerLen

/-- What the loop in `taskio_wheel_timer_tick` does with a timer. -/
def tickTimer (level time : Nat) (expiryHandler : Bool) (rt : TimerMemory) (timer : Timer) :
    Except Fault TimerMemory :=
  if time ≥ timer.expiryTime then
    let rt := rt.call (.timer timer)
    if expiryHandler then wheelExpiry size addr rt timer false else .error .nullHandler
  else if expiryHandler then wheelExpiry size addr rt timer true
  else wheelTimerAddFrom size addr rt level timer

/-- The body of that loop: the timer at index `i` of `timers`. -/
def tickIndex (level time : Nat) (expiryHandler : Bool) (rt : TimerMemory) (i : Nat) :
    Except Fault TimerMemory := do
  let timers ← rt.vecs.vec timersLocal
  let timer ← rt.vecs.memory.read timers.data i
  tickTimer size addr level time expiryHandler rt timer

/-- `taskio_wheel_timer_tick`, with the wheels from `level` to the end of the array. -/
def wheelTimerTick : Nat → Nat → TimerMemory → Except Fault TimerMemory
  | 0, _, _ => .error .outOfBounds
  | levels + 1, level, rt => do
    let w ← rt.wheel level
    let tick := u64 (w.tick + 1)
    let time := u64 (tick * w.resolution)
    if w.wheelSize = 0 then .error .divisionByZero
    else
      let index := tick % w.wheelSize
      let bucket ← bucketAt w index
      let vecs ← vecStep (σ := Unit) size rt.vecs (.move timersLocal bucket)
      let timers ← vecs.vec timersLocal
      let rt ← (List.range timers.len).foldlM (tickIndex size addr level time w.expiryHandler)
        { rt with vecs := vecs }
      let vecs ← vecStep (σ := Unit) size rt.vecs (.clear timersLocal)
      let rt := { rt with vecs := vecs }
      let loop := if w.loopHandler && decide (tick > 0) && index == 0 then
          wheelTimerTick levels (w.id + 1) rt
        else .ok rt
      let rt ← loop
      .ok (rt.modifyWheel level fun w => { w with tick := u64 (w.tick + 1) })

/-- One turn of the loop over `expirations` in `worker_run`. -/
def runtimeTick (rt : TimerMemory) : Except Fault TimerMemory :=
  wheelTimerTick size addr rt.wheels.length 0 rt

/-! ## The end -/

/-- `taskio_wheel_timer_drop`. -/
def wheelTimerDrop (rt : TimerMemory) (level : Nat) : Except Fault TimerMemory := do
  let w ← rt.wheel level
  let vecs ← (List.range w.wheelSize).foldlM (fun vecs i => do
    let bucket ← bucketAt w i
    vecStep (σ := Unit) size vecs (.clear bucket)) rt.vecs
  .ok ({ rt with vecs := vecs }.modifyWheel level fun _ =>
    { tick := 0, id := 0, resolution := 0, wheelSize := 0, timerBuckets := none,
      loopHandler := false, expiryHandler := false })

/-- The wheels in `taskio_runtime_drop`. -/
def runtimeDrop (rt : TimerMemory) : Except Fault TimerMemory :=
  (List.range wheelLevelSize).foldlM (wheelTimerDrop size) rt

end Allocator

end TimerMemory

/-! ## Runs -/

/-- `_wheel_setup`, in a runtime that its caller has zeroed: every bucket is an empty vector. -/
def timerMemory (nextTimerId : UInt64) : TimerMemory where
  vecs :=
    { memory := ⟨fun _ => none⟩, vecs := fun v => if v ≤ timersLocal then some Vec.init else none }
  wheels := (List.range wheelLevelSize).map fun i =>
    { tick := 0, id := i, resolution := resolutions.getD i 0, wheelSize := lengths.getD i 0,
      timerBuckets := some (lengths.take i).sum, loopHandler := true, expiryHandler := true }
  timerLen := 0
  armed := false
  nextTimerId := nextTimerId.toNat
  calls := []
  allocs := 0

def timerMemoryStep (size : ℕ+) (addr : Nat → Nat) (rt : TimerMemory) :
    TimerOp → Except Fault TimerMemory
  | .add delay handler data => do
    let (rt', _) ← rt.runtimeAddTimer size addr delay handler data
    .ok rt'
  | .tick => rt.runtimeTick size addr
  | .abort handle => rt.runtimeTimerAbort handle
  | .fire handle => rt.runtimeTimerFire handle

end Taskio
