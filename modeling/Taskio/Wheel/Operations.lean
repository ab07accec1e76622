import Taskio.Lib.Run
import Taskio.Wheel.Cascade

/-!
# The operations on the wheels, and their runs

`timerStep` is what the rest of the runtime can do to the timers: add one, cancel one through its
handle, and tick. Every operation keeps `Valid`; none is refused but the tick at which the last
wheel would complete its revolution, so every state that a run reaches is `Valid` at a tick below
`wheelSpan` (`reachable_valid`).
-/

namespace Taskio

/-- The calls that the runtime, futures and the event loop make. -/
inductive TimerOp where
  | add (delay : UInt64) (handler data : Nat)
  | tick
  | abort (handle : TimerHandle)
  | fire (handle : TimerHandle)
deriving DecidableEq

def timerStep (rt : TimerRuntime) : TimerOp → Except Fault TimerRuntime
  | .add delay handler data => do
    let (rt', _) ← runtimeAddTimer rt delay handler data
    .ok rt'
  | .tick => runtimeTick rt
  | .abort handle => runtimeTimerAbort rt handle
  | .fire handle => runtimeTimerFire rt handle

/-- The level-0 time, `wheels[0].tick`. -/
def TimerRuntime.now (rt : TimerRuntime) : Nat :=
  match rt.wheels[0]? with
  | some w => w.tick
  | none => 0

variable {n : Nat} {rt rt' : TimerRuntime}

theorem Valid.now_eq (h : Valid n rt) : rt.now = n := by
  obtain ⟨w, hw, -, hat⟩ := h.get (show 0 < 8 by omega)
  rw [TimerRuntime.now, hw]
  show w.tick = n
  rw [hat.tick_eq, wheelRes_zero, Nat.div_one]

theorem valid_setup (nextTimerId : UInt64) : Valid 0 (wheelSetup nextTimerId) := by
  refine ⟨rfl, ?_⟩
  intro k w hw
  rw [wheelSetup] at hw
  simp only [List.getElem?_map, Option.map_eq_some_iff] at hw
  obtain ⟨i, hi, rfl⟩ := hw
  obtain rfl : k = i := by
    obtain ⟨hlt, hget⟩ := List.getElem?_eq_some_iff.mp hi
    simpa using hget
  refine ⟨⟨rfl, rfl, rfl, List.length_replicate, rfl, rfl⟩, (Nat.zero_div _).symm, ?_⟩
  intro b l hb t ht
  have hl : l ∈ List.replicate (lengths.getD k 0) [] := List.mem_of_getElem? hb
  rw [List.eq_of_mem_replicate hl] at ht
  cases ht

theorem pending_setup (nextTimerId : UInt64) : (wheelSetup nextTimerId).pending = 0 := by
  refine Multiset.eq_zero_of_forall_notMem ?_
  intro t ht
  rw [TimerRuntime.pending, TimerRuntime.stored, wheelSetup] at ht
  simp [wheelInit] at ht

/-! ## Adding -/

/-- The timer that `taskio_wheel_timer_add` builds for a delay. -/
def newTimer (n : Nat) (rt : TimerRuntime) (delay : UInt64) (handler data : Nat) : Timer where
  id := rt.nextTimerId
  expiryTime := u64 (n / wheelRes (findWheel delay.toNat) * wheelRes (findWheel delay.toNat)
    + delay.toNat)
  handler := handler
  data := data

/-- `timer_len` and the armed flag after `_increase_timer_len`. -/
def clockInc (c : Nat × Bool) : Nat × Bool := (sizeInc c.1, if c.1 = 0 then true else c.2)

theorem increaseTimerLen_clock (rt : TimerRuntime) :
    (increaseTimerLen rt).clock = clockInc rt.clock := rfl

theorem runtimeAddTimer_zero {delay : UInt64} (hd : delay.toNat = 0) (handler data : Nat) :
    runtimeAddTimer rt delay handler data =
      .ok (rt.call (.direct handler data), { id := 0, expiryTime := 0 }) := by
  rw [runtimeAddTimer, wheelTimerAdd, if_pos hd]
  rfl

/-- `taskio_runtime_add_timer` up to the point where the timer is stored or called. -/
theorem runtimeAddTimer_eq (h : Valid n rt) {delay : UInt64}
    (hd : 0 < delay.toNat) (handler data : Nat) :
    runtimeAddTimer rt delay handler data =
      wheelTimerAddFrom { rt with nextTimerId := u64 (rt.nextTimerId + 1) }
          (findWheel delay.toNat) (newTimer n rt delay handler data) >>= fun rt' =>
        .ok (if timerValid (newTimer n rt delay handler data).handle then increaseTimerLen rt'
          else rt', (newTimer n rt delay handler data).handle) := by
  obtain ⟨w, -, hw, hat⟩ := h.get (findWheel_lt delay.toNat)
  have htimer : (⟨rt.nextTimerId, u64 (w.tick * w.resolution + delay.toNat), handler, data⟩ : Timer)
      = newTimer n rt delay handler data := by
    rw [newTimer, hat.tick_eq, hat.resolution]
  rw [runtimeAddTimer, wheelTimerAdd, if_neg (by omega), hw]
  simp only [ok_bind, htimer]
  cases wheelTimerAddFrom { rt with nextTimerId := u64 (rt.nextTimerId + 1) }
      (findWheel delay.toNat) (newTimer n rt delay handler data) with
  | error e => rfl
  | ok rt' =>
    simp only [ok_bind]
    split <;> rfl

/-- **A delay whose expiry time fits in 64 bits is stored.** -/
theorem runtimeAddTimer_stored (h : Valid n rt) {delay : UInt64}
    (hd : 0 < delay.toNat) (handler data : Nat)
    (hfit : n / wheelRes (findWheel delay.toNat) * wheelRes (findWheel delay.toNat)
      + delay.toNat < 2 ^ 64) :
    ∃ rt', runtimeAddTimer rt delay handler data =
        .ok (rt', (newTimer n rt delay handler data).handle) ∧
      Valid n rt' ∧ rt'.pending = newTimer n rt delay handler data ::ₘ rt.pending ∧
      rt'.calls = rt.calls ∧ rt'.clock = clockInc rt.clock ∧
      rt'.nextTimerId = u64 (rt.nextTimerId + 1) ∧
      timerValid (newTimer n rt delay handler data).handle = true := by
  have he : (newTimer n rt delay handler data).expiryTime =
      n / wheelRes (findWheel delay.toNat) * wheelRes (findWheel delay.toNat) + delay.toNat :=
    u64_of_lt hfit
  have h' : Valid n { rt with nextTimerId := u64 (rt.nextTimerId + 1) } := ⟨h.count, h.wheel⟩
  obtain ⟨rt', hrt', hlev, hpend, hsame⟩ := wheelTimerAddFrom_ok h' (findWheel_lt _)
    (by omega) (by omega) (placed_add hd rfl _ he (by omega))
  have hvalid : timerValid (newTimer n rt delay handler data).handle = true := by
    simp only [timerValid, Timer.handle, Bool.or_eq_true, bne_iff_ne]
    exact Or.inr (by omega)
  refine ⟨increaseTimerLen rt', ?_, ⟨hlev.count, hlev.wheel⟩, hpend, hsame.calls, ?_,
    hsame.nextTimerId, hvalid⟩
  · rw [runtimeAddTimer_eq h hd, hrt', ok_bind, if_pos hvalid]
  · rw [increaseTimerLen_clock, hsame.clock]
    rfl

/-- A delay whose expiry time wraps is called at once. -/
theorem runtimeAddTimer_wrapped (h : Valid n rt) (hn : n < wheelSpan) {delay : UInt64}
    (hd : 0 < delay.toNat) (handler data : Nat)
    (hwrap : ¬ n / wheelRes (findWheel delay.toNat) * wheelRes (findWheel delay.toNat)
      + delay.toNat < 2 ^ 64) :
    ∃ rt', runtimeAddTimer rt delay handler data =
        .ok (rt', (newTimer n rt delay handler data).handle) ∧
      Valid n rt' ∧ rt'.pending = rt.pending ∧
      rt'.calls = rt.calls ++ [.timer (newTimer n rt delay handler data)] ∧
      rt'.nextTimerId = u64 (rt.nextTimerId + 1) := by
  have hlt : delay.toNat < 2 ^ 64 := delay.toNat_lt
  have hle := Nat.div_mul_le_self n (wheelRes (findWheel delay.toNat))
  have hspan := wheelSpan_eq
  have he : (newTimer n rt delay handler data).expiryTime ≤
      n / wheelRes (findWheel delay.toNat) * wheelRes (findWheel delay.toNat) := by
    show u64 _ ≤ _
    unfold u64
    omega
  have h' : Valid n { rt with nextTimerId := u64 (rt.nextTimerId + 1) } := ⟨h.count, h.wheel⟩
  have hcall := wheelTimerAddFrom_due h' (findWheel_lt delay.toNat)
    (newTimer n rt delay handler data) (by omega) he
  refine ⟨_, by rw [runtimeAddTimer_eq h hd, hcall, ok_bind], ?_⟩
  split
  · exact ⟨⟨h.count, h.wheel⟩, rfl, rfl, rfl⟩
  · exact ⟨⟨h.count, h.wheel⟩, rfl, rfl, rfl⟩

/-! ## Cancelling through a handle -/

/-- The state after one bucket lost timers, the calls made meanwhile, and the count. -/
theorem runtimeTimerRemove_spec (predicate : TimerHandle → Timer → List Call → Predicate × List Call)
    (h : Valid n rt) (hn : n < wheelSpan) (handle : TimerHandle)
    (hfit : handle.expiryTime < 2 ^ 64) :
    runtimeTimerRemove (fun rt level handle => timerRemove (predicate handle) rt level handle)
        rt handle = .ok rt ∧ handle.expiryTime ≤ n ∨
      n < handle.expiryTime ∧ ∃ w l,
        rt.wheels[findWheel (handle.expiryTime - n)]? = some w ∧
        w.timerBuckets[handle.expiryTime / wheelRes (findWheel (handle.expiryTime - n)) %
          wheelLen (findWheel (handle.expiryTime - n))]? = some l ∧
        runtimeTimerRemove (fun rt level handle => timerRemove (predicate handle) rt level handle)
            rt handle =
          .ok (decreaseTimerLen
            { rt.modifyWheel (findWheel (handle.expiryTime - n))
                (·.setBucket (handle.expiryTime / wheelRes (findWheel (handle.expiryTime - n)) %
                  wheelLen (findWheel (handle.expiryTime - n)))
                  (vecRemoveIf (predicate handle) l rt.calls).1) with
              calls := (vecRemoveIf (predicate handle) l rt.calls).2 }) := by
  have hspan := wheelSpan_eq
  obtain ⟨w₀, -, hw₀, hat₀⟩ := h.get (show 0 < 8 by omega)
  have htime : runtimeTime rt = .ok n := by
    rw [runtimeTime, hw₀]
    simp only [ok_bind]
    rw [hat₀.tick_eq, hat₀.resolution, wheelRes_zero, Nat.div_one, Nat.mul_one,
      u64_of_lt (by omega)]
  by_cases hdue : n ≥ handle.expiryTime
  · refine Or.inl ⟨?_, hdue⟩
    rw [runtimeTimerRemove, htime]
    simp only [ok_bind, if_pos hdue]
  · obtain ⟨w, hw, hw', hat⟩ := h.get (findWheel_lt (handle.expiryTime - n))
    obtain ⟨l, hl, hl'⟩ := hat.get (Nat.mod_lt
      (handle.expiryTime / wheelRes (findWheel (handle.expiryTime - n)))
      (wheelLen_pos _ (findWheel_lt (handle.expiryTime - n))))
    have hle := Nat.div_mul_le_self n (wheelRes (findWheel (handle.expiryTime - n)))
    refine Or.inr ⟨by omega, w, l, hw, hl, ?_⟩
    rw [runtimeTimerRemove, htime]
    simp only [ok_bind, if_neg hdue]
    rw [timerRemove, hw']
    simp only [ok_bind]
    rw [findBucket_eq hat (findWheel_lt _) (by omega) hfit, if_neg (by omega)]
    simp only [ok_bind, hl']

/-- Whatever the handle is, the call ends, and at most one bucket is searched. -/
theorem runtimeTimerRemove_cases
    (predicate : TimerHandle → Timer → List Call → Predicate × List Call) (h : Valid n rt)
    (handle : TimerHandle) :
    ∃ rt', runtimeTimerRemove (fun rt level handle => timerRemove (predicate handle) rt level handle)
        rt handle = .ok rt' ∧
      (rt' = rt ∨ rt' = decreaseTimerLen rt ∨
        ∃ level b w l, rt.wheels[level]? = some w ∧ w.timerBuckets[b]? = some l ∧
          rt' = decreaseTimerLen
            { rt.modifyWheel level (·.setBucket b (vecRemoveIf (predicate handle) l rt.calls).1) with
              calls := (vecRemoveIf (predicate handle) l rt.calls).2 }) := by
  obtain ⟨w₀, -, hw₀, -⟩ := h.get (show 0 < 8 by omega)
  rw [runtimeTimerRemove, runtimeTime, hw₀]
  simp only [ok_bind]
  by_cases hdue : u64 (w₀.tick * w₀.resolution) ≥ handle.expiryTime
  · exact ⟨rt, by rw [if_pos hdue], Or.inl rfl⟩
  · rw [if_neg hdue]
    have hlevel := findWheel_lt (handle.expiryTime - u64 (w₀.tick * w₀.resolution))
    generalize findWheel (handle.expiryTime - u64 (w₀.tick * w₀.resolution)) = level at hlevel ⊢
    obtain ⟨w, hw, hw', hat⟩ := h.get hlevel
    rw [timerRemove, hw']
    simp only [ok_bind]
    rcases findBucket_lt hat hlevel handle.expiryTime with hnone | ⟨b, hb, hsome⟩
    · rw [hnone]
      exact ⟨_, rfl, Or.inr (Or.inl rfl)⟩
    · obtain ⟨l, hl, hl'⟩ := hat.get hb
      rw [hsome]
      simp only [ok_bind, hl']
      exact ⟨_, rfl, Or.inr (Or.inr ⟨level, b, w, l, hw, hl, rfl⟩)⟩

/-- What stays stored stays in its place. -/
theorem runtimeTimerRemove_valid
    (predicate : TimerHandle → Timer → List Call → Predicate × List Call) (h : Valid n rt)
    (handle : TimerHandle) :
    ∃ rt', runtimeTimerRemove (fun rt level handle => timerRemove (predicate handle) rt level handle)
      rt handle = .ok rt' ∧ Valid n rt' := by
  obtain ⟨rt', hremove, hcases⟩ := runtimeTimerRemove_cases predicate h handle
  refine ⟨rt', hremove, ?_⟩
  rcases hcases with rfl | rfl | ⟨level, b, w, l, hw, hl, rfl⟩
  · exact h
  · exact ⟨h.count, h.wheel⟩
  · have hrest : ∀ t ∈ (vecRemoveIf (predicate handle) l rt.calls).1,
        Placed (n / wheelRes level) level b t := fun t ht =>
      (h.wheel level w hw).placed b l hl t ((vecRemoveIf_sublist _ l rt.calls).mem ht)
    have hset := Levels.setBucket h level hrest
    exact ⟨hset.count, hset.wheel⟩

/-! ## Runs -/

/-- The ticks among the operations. -/
def TimerOp.ticks : TimerOp → Nat
  | .tick => 1
  | _ => 0

theorem sum_ticks_replicate (m : Nat) :
    ((List.replicate m TimerOp.tick).map TimerOp.ticks).sum = m := by
  induction m with
  | zero => rfl
  | succ m ih =>
    rw [List.replicate_succ, List.map_cons, List.sum_cons, ih, TimerOp.ticks]
    omega

/-- Every operation but the tick that completes the last wheel's revolution ends. -/
theorem timerStep_ok (h : Valid n rt) {o : TimerOp} (hn : n + o.ticks < wheelSpan) :
    ∃ rt', timerStep rt o = .ok rt' ∧ Valid (n + o.ticks) rt' := by
  cases o with
  | add delay handler data =>
    by_cases hd : delay.toNat = 0
    · refine ⟨rt.call (.direct handler data), ?_, ⟨h.count, h.wheel⟩⟩
      rw [timerStep, runtimeAddTimer_zero hd, ok_bind]
    · by_cases hfit : n / wheelRes (findWheel delay.toNat) * wheelRes (findWheel delay.toNat)
          + delay.toNat < 2 ^ 64
      · obtain ⟨rt', hadd, hv, -⟩ :=
          runtimeAddTimer_stored h (Nat.pos_of_ne_zero hd) handler data hfit
        exact ⟨rt', by rw [timerStep, hadd, ok_bind], hv⟩
      · obtain ⟨rt', hadd, hv, -⟩ :=
          runtimeAddTimer_wrapped h hn (Nat.pos_of_ne_zero hd) handler data hfit
        exact ⟨rt', by rw [timerStep, hadd, ok_bind], hv⟩
  | tick =>
    obtain ⟨rt', -, htick, hv, -⟩ := runtimeTick_spec h hn
    exact ⟨rt', htick, hv⟩
  | abort handle => exact runtimeTimerRemove_valid abortPredicate h handle
  | fire handle => exact runtimeTimerRemove_valid firePredicate h handle

/-- What a step does to the time, and that it does not leave the valid states. -/
theorem timerStep_valid (h : Valid n rt) (hn : n < wheelSpan) {o : TimerOp}
    (hstep : timerStep rt o = .ok rt') : n + o.ticks < wheelSpan ∧ Valid (n + o.ticks) rt' := by
  have hlt : n + o.ticks < wheelSpan := by
    cases o with
    | tick =>
      by_contra hle
      have hover := runtimeTick_overrun h (show n + 1 = wheelSpan by rw [TimerOp.ticks] at hle; omega)
      rw [timerStep, hover] at hstep
      cases hstep
    | _ => exact hn
  obtain ⟨rt'', hstep', hv⟩ := timerStep_ok h hlt
  rw [hstep] at hstep'
  cases hstep'
  exact ⟨hlt, hv⟩

/-- **Every run keeps the wheels valid, at the number of its ticks.** -/
theorem valid_run {os : List TimerOp} (h : Valid n rt) (hn : n < wheelSpan)
    (hrun : Lib.run timerStep rt os = .ok rt') :
    n + (os.map TimerOp.ticks).sum < wheelSpan ∧ Valid (n + (os.map TimerOp.ticks).sum) rt' := by
  induction os generalizing n rt with
  | nil => cases hrun; exact ⟨hn, h⟩
  | cons o os ih =>
    obtain ⟨rt₁, hstep, hrest⟩ := Lib.run_cons_eq_ok.mp hrun
    obtain ⟨hn₁, h₁⟩ := timerStep_valid h hn hstep
    rw [List.map_cons, List.sum_cons, ← Nat.add_assoc]
    exact ih h₁ hn₁ hrest

/-- **A run ends if it has fewer ticks than the last wheel's revolution.** -/
theorem run_ok (os : List TimerOp) (h : Valid n rt)
    (hn : n + (os.map TimerOp.ticks).sum < wheelSpan) :
    ∃ rt', Lib.run timerStep rt os = .ok rt' ∧ Valid (n + (os.map TimerOp.ticks).sum) rt' := by
  induction os generalizing n rt with
  | nil => exact ⟨rt, rfl, h⟩
  | cons o os ih =>
    rw [List.map_cons, List.sum_cons, ← Nat.add_assoc] at hn ⊢
    obtain ⟨rt₁, hstep, h₁⟩ := timerStep_ok h (o := o) (by omega)
    obtain ⟨rt', hrest, h'⟩ := ih h₁ hn
    exact ⟨rt', by rw [Lib.run_cons_ok hstep]; exact hrest, h'⟩

theorem reachable_valid {nextTimerId : UInt64} {os : List TimerOp}
    (hrun : Lib.run timerStep (wheelSetup nextTimerId) os = .ok rt) :
    rt.now < wheelSpan ∧ Valid rt.now rt := by
  obtain ⟨hn, h⟩ := valid_run (valid_setup nextTimerId) (by decide) hrun
  rw [h.now_eq]
  exact ⟨hn, h⟩

end Taskio
