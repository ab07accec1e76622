import Taskio.Wheel.Operations

/-!
# The indices of wheels and buckets

`_wheel_loop` ticks the wheel after this one and `_wheel_setup` gives it to every wheel, the last
one too. This file says how far that goes.

* `Indexed` — every wheel has the buckets that its indices range over
* `reads_in_bounds_iff` — no access leaves an array exactly in the runs of less than one revolution
  of the last wheel
-/

namespace Taskio

variable {n : Nat} {rt : TimerRuntime}

/-- The length of the array `buckets`, which the wheels share. -/
def bucketsSize : Nat := 543

/-- The indices that `taskio_wheel_timer_tick` and `_find_bucket` compute are the wheel's own. -/
structure WheelTimer.Indexed (w : WheelTimer) : Prop where
  resolution : 0 < w.resolution
  wheelSize : 0 < w.wheelSize
  buckets : w.timerBuckets.length = w.wheelSize
  tick : u64 (w.tick + 1) % w.wheelSize < w.wheelSize
  found : ∀ e, findBucket w e = .ok none ∨ ∃ i < w.wheelSize, findBucket w e = .ok (some i)

/-- The same of all wheels of the array. -/
structure TimerRuntime.Indexed (rt : TimerRuntime) : Prop where
  count : rt.wheels.length = wheelLevelSize
  buckets : (rt.wheels.map fun w => w.timerBuckets.length).sum = bucketsSize
  wheel : ∀ w ∈ rt.wheels, w.Indexed

/-- A run that ends, or ends by something else than an index out of range or a division by zero. -/
def ReadsInBounds (r : Except Fault TimerRuntime) : Prop :=
  r ≠ .error .outOfBounds ∧ r ≠ .error .divisionByZero

theorem WheelAt.indexed {tick place k : Nat} {w : WheelTimer} (h : WheelAt tick place k w)
    (hk : k < 8) : w.Indexed := by
  have hsize : 0 < w.wheelSize := by
    rw [h.wheelSize]
    exact wheelLen_pos k hk
  refine ⟨?_, hsize, ?_, Nat.mod_lt _ hsize, ?_⟩
  · rw [h.resolution]
    exact wheelRes_pos k hk
  · rw [h.buckets, h.wheelSize]
  · intro e
    rw [h.wheelSize]
    exact findBucket_lt h hk e

theorem Valid.indexed (h : Valid n rt) : rt.Indexed := by
  refine ⟨h.count, ?_, ?_⟩
  · -- the lengths are those of the table
    have hlen : rt.wheels.map (fun w => w.timerBuckets.length) = (List.range 8).map wheelLen := by
      refine List.ext_getElem (by simp [h.count]) ?_
      intro k hk _
      rw [List.getElem_map, List.getElem_map, List.getElem_range]
      rw [List.length_map] at hk
      exact (h.wheel k _ (List.getElem?_eq_getElem hk)).buckets
    rw [hlen]
    rfl
  · intro w hw
    obtain ⟨k, hk, rfl⟩ := List.getElem_of_mem hw
    exact (h.wheel k _ (List.getElem?_eq_getElem hk)).indexed (h.count ▸ hk)

/-- The run stops at the tick that completes the last wheel's revolution, at the latest. -/
theorem run_overrun (os : List TimerOp) (h : Valid n rt) (hn : n < wheelSpan)
    (hover : wheelSpan ≤ n + (os.map TimerOp.ticks).sum) :
    Lib.run timerStep rt os = .error .outOfBounds := by
  induction os generalizing n rt with
  | nil =>
    rw [List.map_nil, List.sum_nil] at hover
    omega
  | cons o os ih =>
    rw [List.map_cons, List.sum_cons, ← Nat.add_assoc] at hover
    by_cases hlast : n + o.ticks < wheelSpan
    · obtain ⟨rt₁, hstep, h₁⟩ := timerStep_ok h hlast
      rw [Lib.run_cons_ok hstep]
      exact ih h₁ hlast hover
    · -- only a tick advances the time
      cases o with
      | tick =>
        have hstep : timerStep rt .tick = .error .outOfBounds :=
          runtimeTick_overrun h (show n + 1 = wheelSpan by rw [TimerOp.ticks] at hlast; omega)
        rw [Lib.run, hstep]
      | _ => exact absurd hn hlast

/--
**The cascade stays inside the arrays exactly for less than one revolution of the last wheel.**
Whatever is added, cancelled and fired between the ticks. The first tick beyond ticks the wheel
after the last one.
-/
theorem reads_in_bounds_iff (nextTimerId : UInt64) (os : List TimerOp) :
    (ReadsInBounds (Lib.run timerStep (wheelSetup nextTimerId) os) ∧
      ∀ os₁ os₂ rt, os = os₁ ++ os₂ →
        Lib.run timerStep (wheelSetup nextTimerId) os₁ = .ok rt → rt.Indexed) ↔
      (os.map TimerOp.ticks).sum < wheelSpan := by
  have hpos : 0 < wheelSpan := by rw [wheelSpan_eq]; omega
  constructor
  · rintro ⟨⟨hbounds, -⟩, -⟩
    by_contra hover
    exact hbounds (run_overrun os (valid_setup nextTimerId) hpos (by omega))
  · intro hticks
    obtain ⟨rt, hrun, -⟩ := run_ok os (valid_setup nextTimerId) (by omega)
    refine ⟨⟨by rw [hrun]; nofun, by rw [hrun]; nofun⟩, ?_⟩
    intro os₁ os₂ rt₁ _ hrun₁
    exact (valid_run (valid_setup nextTimerId) hpos hrun₁).2.indexed

/-- After four years of milliseconds `_wheel_loop` ticks `wheels[8]`. -/
theorem last_wheel_overruns :
    Lib.run timerStep (wheelSetup 0) (List.replicate (4 * 31536000000) .tick) =
      .error .outOfBounds := by
  refine run_overrun _ (valid_setup 0) (by rw [wheelSpan_eq]; omega) ?_
  rw [sum_ticks_replicate, wheelSpan_eq]

end Taskio
