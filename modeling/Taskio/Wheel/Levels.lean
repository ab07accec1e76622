import Taskio.Lib.ListSet
import Taskio.Wheel.Geometry

/-!
# The eight wheels as a whole

`Levels tickOf placeOf rt`: the array has its eight wheels, wheel `k` stands at tick `tickOf k`,
and every timer it stores is placed as of tick `placeOf k`. Between two operations both are
`n / wheelRes k` (`Valid`). In the middle of a cascade they differ: every wheel still has its old
tick, while the wheels already drained are placed as of the new one.

The rest of the file says what storing and removing do to `Levels` and to the multiset `pending` of
the stored timers.
-/

namespace Taskio

/-- The fields of wheel `k` that nothing changes after `_wheel_setup`. -/
structure Shaped (k : Nat) (w : WheelTimer) : Prop where
  id : w.id = k
  resolution : w.resolution = wheelRes k
  wheelSize : w.wheelSize = wheelLen k
  buckets : w.timerBuckets.length = wheelLen k
  loopHandler : w.loopHandler = true
  expiryHandler : w.expiryHandler = true

/-- Wheel `k` at tick `tick`, with timers placed as of tick `place`. -/
structure WheelAt (tick place k : Nat) (w : WheelTimer) : Prop extends Shaped k w where
  tick_eq : w.tick = tick
  placed : ∀ b l, w.timerBuckets[b]? = some l → ∀ t ∈ l, Placed place k b t

structure Levels (tickOf placeOf : Nat → Nat) (rt : TimerRuntime) : Prop where
  count : rt.wheels.length = 8
  wheel : ∀ k w, rt.wheels[k]? = some w → WheelAt (tickOf k) (placeOf k) k w

/-- The state between two operations, `n` ticks after `_wheel_setup`. -/
def Valid (n : Nat) (rt : TimerRuntime) : Prop :=
  Levels (fun k => n / wheelRes k) (fun k => n / wheelRes k) rt

/-- The stored timers, wherever they are. -/
def TimerRuntime.pending (rt : TimerRuntime) : Multiset Timer := (rt.stored : Multiset Timer)

/-- `timer_len` and whether `timer_fd` is armed. -/
def TimerRuntime.clock (rt : TimerRuntime) : Nat × Bool := (rt.timerLen, rt.armed)

variable {tickOf placeOf : Nat → Nat} {rt : TimerRuntime} {k b : Nat}

/-! ## Looking up -/

theorem Levels.get (h : Levels tickOf placeOf rt) (hk : k < 8) :
    ∃ w, rt.wheels[k]? = some w ∧ rt.wheel k = .ok w ∧ WheelAt (tickOf k) (placeOf k) k w := by
  have hlt : k < rt.wheels.length := by rw [h.count]; exact hk
  refine ⟨rt.wheels[k], List.getElem?_eq_getElem hlt, ?_, h.wheel k _ (List.getElem?_eq_getElem hlt)⟩
  rw [TimerRuntime.wheel, List.getElem?_eq_getElem hlt]

theorem Shaped.get {w : WheelTimer} (h : Shaped k w) (hb : b < wheelLen k) :
    ∃ l, w.timerBuckets[b]? = some l ∧ w.bucket b = .ok l := by
  have hlt : b < w.timerBuckets.length := by rw [h.buckets]; exact hb
  refine ⟨w.timerBuckets[b], List.getElem?_eq_getElem hlt, ?_⟩
  rw [WheelTimer.bucket, List.getElem?_eq_getElem hlt]

/-- Any stored timer is in some bucket. -/
theorem mem_pending {t : Timer} : t ∈ rt.pending ↔
    ∃ (k : Nat) (w : WheelTimer) (b : Nat) (l : List Timer),
      rt.wheels[k]? = some w ∧ w.timerBuckets[b]? = some l ∧ t ∈ l := by
  rw [TimerRuntime.pending, Multiset.mem_coe, TimerRuntime.stored, List.mem_flatMap]
  constructor
  · rintro ⟨w, hw, ht⟩
    obtain ⟨l, hl, ht⟩ := List.mem_flatten.mp ht
    obtain ⟨k, hk⟩ := List.getElem?_of_mem hw
    obtain ⟨b, hb⟩ := List.getElem?_of_mem hl
    exact ⟨k, w, b, l, hk, hb, ht⟩
  · rintro ⟨k, w, b, l, hk, hb, ht⟩
    exact ⟨w, List.mem_of_getElem? hk, List.mem_flatten.mpr ⟨l, List.mem_of_getElem? hb, ht⟩⟩

/-- Whatever is stored lies in the future. -/
theorem Valid.now_lt {n : Nat} (h : Valid n rt) {t : Timer} (ht : t ∈ rt.pending) :
    n < t.expiryTime := by
  obtain ⟨k, w, b, l, hk, hb, ht⟩ := mem_pending.mp ht
  exact ((h.wheel k w hk).placed b l hb t ht).now_lt

/-! ## Changing one wheel -/

theorem TimerRuntime.modifyWheel_get (f : WheelTimer → WheelTimer) (level k : Nat) :
    (rt.modifyWheel level f).wheels[k]? =
      if level = k then rt.wheels[k]?.map f else rt.wheels[k]? := by
  rw [TimerRuntime.modifyWheel, List.getElem?_modify]
  split <;> simp

theorem modifyWheel_eq_set {level : Nat} {w : WheelTimer} (hw : rt.wheels[level]? = some w)
    (f : WheelTimer → WheelTimer) : (rt.modifyWheel level f).wheels = rt.wheels.set level (f w) := by
  rw [TimerRuntime.modifyWheel, List.modify_eq_set_getElem?, hw]
  rfl

/-- Only the eight wheels matter. -/
theorem Levels.congr {tickOf' placeOf' : Nat → Nat} (h : Levels tickOf placeOf rt)
    (heq : ∀ k < 8, tickOf' k = tickOf k ∧ placeOf' k = placeOf k) :
    Levels tickOf' placeOf' rt := by
  refine ⟨h.count, ?_⟩
  intro k w hw
  have hk : k < 8 := h.count ▸ (List.getElem?_eq_some_iff.mp hw).1
  rw [(heq k hk).1, (heq k hk).2]
  exact h.wheel k w hw

/-- One wheel is replaced by another that is as it should be. -/
theorem Levels.modifyWheel {tickOf' placeOf' : Nat → Nat} {f : WheelTimer → WheelTimer}
    (h : Levels tickOf placeOf rt) (level : Nat)
    (hlevel : ∀ w, WheelAt (tickOf level) (placeOf level) level w →
      WheelAt (tickOf' level) (placeOf' level) level (f w))
    (hother : ∀ k ≠ level, tickOf' k = tickOf k ∧ placeOf' k = placeOf k) :
    Levels tickOf' placeOf' (rt.modifyWheel level f) := by
  refine ⟨by simp [TimerRuntime.modifyWheel, h.count], ?_⟩
  intro k w hw
  rw [TimerRuntime.modifyWheel_get] at hw
  by_cases hk : level = k
  · subst hk
    rw [if_pos rfl] at hw
    obtain ⟨w₀, hw₀, rfl⟩ := Option.map_eq_some_iff.mp hw
    exact hlevel w₀ (h.wheel level w₀ hw₀)
  · rw [if_neg hk] at hw
    obtain ⟨h1, h2⟩ := hother k (Ne.symm hk)
    rw [h1, h2]
    exact h.wheel k w hw

theorem Shaped.setBucket {w : WheelTimer} (h : Shaped k w) (b : Nat) (l : List Timer) :
    Shaped k (w.setBucket b l) where
  id := h.id
  resolution := h.resolution
  wheelSize := h.wheelSize
  buckets := by simpa [WheelTimer.setBucket] using h.buckets
  loopHandler := h.loopHandler
  expiryHandler := h.expiryHandler

/-- `b` gets the timers `l`; the wheel may be placed as of another tick now. -/
theorem WheelAt.setBucket {tick place place' : Nat} {w : WheelTimer} (h : WheelAt tick place k w)
    {l : List Timer} (hl : ∀ t ∈ l, Placed place' k b t)
    (hrest : ∀ c t, c ≠ b → Placed place k c t → Placed place' k c t) :
    WheelAt tick place' k (w.setBucket b l) := by
  refine ⟨h.toShaped.setBucket b l, h.tick_eq, ?_⟩
  intro c l' hc t ht
  rw [WheelTimer.setBucket, List.getElem?_set] at hc
  by_cases hbc : b = c
  · subst hbc
    rw [if_pos rfl] at hc
    split at hc
    · cases hc; exact hl t ht
    · simp at hc
  · rw [if_neg hbc] at hc
    exact hrest c t (Ne.symm hbc) (h.placed c l' hc t ht)

theorem Levels.setBucket (h : Levels tickOf placeOf rt) (level : Nat) {l : List Timer}
    (hl : ∀ t ∈ l, Placed (placeOf level) level b t) :
    Levels tickOf placeOf (rt.modifyWheel level (·.setBucket b l)) :=
  h.modifyWheel level (fun _ hw => hw.setBucket hl fun _ _ _ hp => hp) fun _ _ => ⟨rfl, rfl⟩

/-- What the bucket held is exchanged for `l`, and nothing else changes. -/
theorem pending_setBucket {level : Nat} {w : WheelTimer} {old : List Timer}
    (hw : rt.wheels[level]? = some w) (hb : w.timerBuckets[b]? = some old) (l : List Timer) :
    (rt.modifyWheel level (·.setBucket b l)).pending + (old : Multiset Timer) =
      rt.pending + (l : Multiset Timer) := by
  have hset : rt.wheels.modify level (·.setBucket b l) = rt.wheels.set level (w.setBucket b l) :=
    modifyWheel_eq_set hw _
  have h1 := Lib.coe_flatMap_set (fun w : WheelTimer => w.timerBuckets.flatten) hw (w.setBucket b l)
  have h2 := Lib.coe_flatten_set hb l
  simp only [TimerRuntime.pending, TimerRuntime.stored, TimerRuntime.modifyWheel, hset]
  refine add_right_cancel (b := (w.timerBuckets.flatten : Multiset Timer)) ?_
  calc _ = (((rt.wheels.set level (w.setBucket b l)).flatMap
            fun w => w.timerBuckets.flatten : List Timer) : Multiset Timer)
          + (w.timerBuckets.flatten : List Timer) + (old : Multiset Timer) := add_right_comm _ _ _
    _ = _ := by
      rw [h1, add_assoc]
      simp only [WheelTimer.setBucket]
      rw [h2, add_right_comm, add_assoc]

/-- Counting a tick moves no timer. -/
theorem pending_modifyWheel {f : WheelTimer → WheelTimer} (level : Nat)
    (hf : ∀ w, (f w).timerBuckets = w.timerBuckets) :
    (rt.modifyWheel level f).pending = rt.pending := by
  have hmap : (rt.wheels.modify level f).map (fun w => w.timerBuckets.flatten) =
      rt.wheels.map fun w => w.timerBuckets.flatten := by
    refine List.ext_getElem? ?_
    intro i
    rw [List.getElem?_map, List.getElem?_map, List.getElem?_modify]
    cases rt.wheels[i]? with
    | none => rfl
    | some w => by_cases hi : level = i <;> simp [hi, hf]
  simp only [TimerRuntime.pending, TimerRuntime.stored, TimerRuntime.modifyWheel, List.flatMap_def,
    hmap]

/-! ## Storing a timer -/

/-- The bucket of an expiry time does not depend on the tick at which it is looked up. -/
theorem findBucket_eq {tick place e : Nat} {w : WheelTimer} (h : WheelAt tick place k w)
    (hk : k < 8) (hfit : tick * wheelRes k < 2 ^ 64) (he : e < 2 ^ 64) :
    findBucket w e =
      .ok (if tick * wheelRes k ≥ e then none else some (e / wheelRes k % wheelLen k)) := by
  have hpos := wheelRes_pos k hk
  have hlen := wheelLen_pos k hk
  rw [findBucket, h.tick_eq, h.resolution, h.wheelSize, u64_of_lt hfit]
  by_cases hle : tick * wheelRes k ≥ e
  · simp only [if_pos hle]
  · simp only [if_neg hle]
    rw [if_neg (by omega)]
    have hlt : tick * wheelRes k ≤ e := by omega
    have hdiv : tick + (e - tick * wheelRes k) / wheelRes k = e / wheelRes k := by
      rw [Nat.mul_comm, Nat.sub_mul_div]
      have : tick ≤ e / wheelRes k := (Nat.le_div_iff_mul_le hpos).mpr hlt
      omega
    rw [hdiv, u64_of_lt (Nat.lt_of_le_of_lt (Nat.div_le_self _ _) he)]

/-- Any index that `_find_bucket` finds is one of the wheel's. -/
theorem findBucket_lt {tick place : Nat} {w : WheelTimer} (h : WheelAt tick place k w)
    (hk : k < 8) (e : Nat) :
    findBucket w e = .ok none ∨ ∃ i < wheelLen k, findBucket w e = .ok (some i) := by
  have hpos := wheelRes_pos k hk
  have hlen := wheelLen_pos k hk
  rw [findBucket, h.resolution, h.wheelSize]
  simp only
  split
  · exact Or.inl rfl
  · rw [if_neg (by omega)]
    exact Or.inr ⟨_, Nat.mod_lt _ hlen, rfl⟩

/-- A timer whose expiry time the wheel has passed is called at once. -/
theorem wheelTimerAddFrom_due (h : Levels tickOf placeOf rt) (hk : k < 8) (t : Timer)
    (hfit : tickOf k * wheelRes k < 2 ^ 64) (he : t.expiryTime ≤ tickOf k * wheelRes k) :
    wheelTimerAddFrom rt k t = .ok (rt.call (.timer t)) := by
  obtain ⟨w, -, hw, hat⟩ := h.get hk
  rw [wheelTimerAddFrom, hw]
  simp only [ok_bind]
  rw [findBucket_eq hat hk hfit (by omega), if_pos he]
  rfl

/-- What storing and visiting leave alone. -/
structure SameClock (rt rt' : TimerRuntime) : Prop where
  calls : rt'.calls = rt.calls
  clock : rt'.clock = rt.clock
  nextTimerId : rt'.nextTimerId = rt.nextTimerId

/-- Any other is appended to its bucket, and that is all that changes. -/
theorem wheelTimerAddFrom_eq (h : Levels tickOf placeOf rt) (hk : k < 8) {t : Timer}
    (hfit : tickOf k * wheelRes k < 2 ^ 64) (hlt : tickOf k * wheelRes k < t.expiryTime)
    (he : t.expiryTime < 2 ^ 64) :
    ∃ w l, rt.wheels[k]? = some w ∧
      w.timerBuckets[t.expiryTime / wheelRes k % wheelLen k]? = some l ∧
      wheelTimerAddFrom rt k t =
        .ok (rt.modifyWheel k (·.setBucket (t.expiryTime / wheelRes k % wheelLen k) (l ++ [t]))) := by
  obtain ⟨w, hw, hw', hat⟩ := h.get hk
  obtain ⟨l, hl, hl'⟩ := hat.get (Nat.mod_lt (t.expiryTime / wheelRes k) (wheelLen_pos k hk))
  refine ⟨w, l, hw, hl, ?_⟩
  rw [wheelTimerAddFrom, hw']
  simp only [ok_bind]
  rw [findBucket_eq hat hk hfit he, if_neg (by omega)]
  simp only [ok_bind, hl']

/-- The timers that are stored are those that were, and the new one. -/
theorem wheelTimerAddFrom_ok (h : Levels tickOf placeOf rt) (hk : k < 8) {t : Timer}
    (hfit : tickOf k * wheelRes k < 2 ^ 64) (hlt : tickOf k * wheelRes k < t.expiryTime)
    (hp : Placed (placeOf k) k (t.expiryTime / wheelRes k % wheelLen k) t) :
    ∃ rt', wheelTimerAddFrom rt k t = .ok rt' ∧ Levels tickOf placeOf rt' ∧
      rt'.pending = t ::ₘ rt.pending ∧ SameClock rt rt' := by
  obtain ⟨w, l, hw, hl, hadd⟩ := wheelTimerAddFrom_eq h hk hfit hlt hp.fits
  refine ⟨_, hadd, h.setBucket k ?_, ?_, ⟨rfl, rfl, rfl⟩⟩
  · intro t' ht'
    rcases List.mem_append.mp ht' with ht' | ht'
    · exact (h.wheel k w hw).placed _ l hl t' ht'
    · rw [List.mem_singleton.mp ht']
      exact hp
  · have hpend := pending_setBucket hw hl (l ++ [t])
    rw [← Multiset.coe_add, ← add_assoc] at hpend
    rw [← Multiset.singleton_add, add_comm]
    refine add_right_cancel (b := (l : Multiset Timer)) ?_
    rw [hpend, add_right_comm]
    rfl

end Taskio
