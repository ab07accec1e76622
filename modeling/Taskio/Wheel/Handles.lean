import Taskio.Wheel.Operations

/-!
# What `taskio_runtime_add_timer` returns

`taskio_wheel_timer_add` counts the expiry time in 64 bits. If it wraps, `_find_bucket` takes the timer
for due: the handler is called at once, and the handle is one of a timer that is nowhere stored.

* `add_timer_stores_iff` — exactly when a delay is stored, as a valid handle promises
-/

namespace Taskio

variable {n : Nat} {rt rt' : TimerRuntime} {delay : UInt64} {handler data : Nat}
  {handle : TimerHandle}

/-- From `rt` to `rt'` one timer is appended to one bucket of one wheel, and nothing is called. The
handle is that of the timer, is valid, and the timer is counted. -/
structure StoresTimer (rt rt' : TimerRuntime) (handler data : Nat) (handle : TimerHandle) :
    Prop where
  stored : ∃ level b w l t, rt.wheels[level]? = some w ∧ w.timerBuckets[b]? = some l ∧
    rt'.wheels = rt.wheels.set level (w.setBucket b (l ++ [t])) ∧
    t.handler = handler ∧ t.data = data ∧ handle.id = t.id ∧ handle.expiryTime = t.expiryTime
  calls : rt'.calls = rt.calls
  valid : timerValid handle = true
  len : rt'.timerLen = rt.timerLen + 1

theorem sizeInc_eq_succ_iff {i : Nat} : sizeInc i = i + 1 ↔ i ≠ 2 ^ 64 - 1 := by
  rw [sizeInc]
  split <;> omega

/-- The expiry time fits in 64 bits: the timer is stored. -/
theorem runtimeAddTimer_stores (h : Valid n rt) (hd : 0 < delay.toNat)
    (hfit : n / wheelRes (findWheel delay.toNat) * wheelRes (findWheel delay.toNat)
      + delay.toNat < 2 ^ 64) (hlen : rt.timerLen ≠ 2 ^ 64 - 1) :
    ∃ rt', runtimeAddTimer rt delay handler data =
        .ok (rt', (newTimer n rt delay handler data).handle) ∧
      StoresTimer rt rt' handler data (newTimer n rt delay handler data).handle := by
  have he : (newTimer n rt delay handler data).expiryTime =
      n / wheelRes (findWheel delay.toNat) * wheelRes (findWheel delay.toNat) + delay.toNat :=
    u64_of_lt hfit
  have h' : Valid n { rt with nextTimerId := u64 (rt.nextTimerId + 1) } := ⟨h.count, h.wheel⟩
  obtain ⟨w, l, hw, hl, hadd⟩ := wheelTimerAddFrom_eq h' (findWheel_lt delay.toNat)
    (t := newTimer n rt delay handler data) (by omega) (by omega) (by omega)
  obtain ⟨rt', hrt', -, -, hcalls, hclock, -, hvalid⟩ :=
    runtimeAddTimer_stored h hd handler data hfit
  refine ⟨rt', hrt', ⟨_, _, w, l, _, hw, hl, ?_, rfl, rfl, rfl, rfl⟩, hcalls, hvalid, ?_⟩
  · rw [runtimeAddTimer_eq h hd, hadd, ok_bind, if_pos hvalid] at hrt'
    cases hrt'
    have hw' : ({ rt with nextTimerId := u64 (rt.nextTimerId + 1) } : TimerRuntime).wheels[
        findWheel delay.toNat]? = some w := hw
    exact modifyWheel_eq_set hw' _
  · have hinc : rt'.timerLen = sizeInc rt.timerLen := congrArg Prod.fst hclock
    rw [hinc]
    exact sizeInc_eq_succ_iff.mpr hlen

/--
**A valid handle means a stored timer exactly when the expiry time does not wrap** and `timer_len` does
not. The expiry time counts from the last tick of the wheel that the delay selects.
-/
theorem add_timer_stores_iff {nextTimerId : UInt64} {os : List TimerOp}
    (hrun : Lib.run timerStep (wheelSetup nextTimerId) os = .ok rt) (delay : UInt64)
    (hd : 0 < delay.toNat) (handler data : Nat) :
    (∃ rt' handle, runtimeAddTimer rt delay handler data = .ok (rt', handle) ∧
        StoresTimer rt rt' handler data handle) ↔
      rt.now / wheelRes (findWheel delay.toNat) * wheelRes (findWheel delay.toNat)
        + delay.toNat < 2 ^ 64 ∧ rt.timerLen ≠ 2 ^ 64 - 1 := by
  obtain ⟨hn, h⟩ := reachable_valid hrun
  constructor
  · rintro ⟨rt', handle, hadd, hstores⟩
    by_cases hfit : rt.now / wheelRes (findWheel delay.toNat) * wheelRes (findWheel delay.toNat)
        + delay.toNat < 2 ^ 64
    · refine ⟨hfit, ?_⟩
      obtain ⟨rt'', hadd', -, -, -, hclock, -⟩ := runtimeAddTimer_stored h hd handler data hfit
      obtain ⟨rfl, -⟩ := Prod.mk.inj (Except.ok.inj (hadd.symm.trans hadd'))
      have hinc : rt'.timerLen = sizeInc rt.timerLen := congrArg Prod.fst hclock
      exact sizeInc_eq_succ_iff.mp (hinc.symm.trans hstores.len)
    · obtain ⟨rt'', hadd', -, -, hcalls, -⟩ := runtimeAddTimer_wrapped h hn hd handler data hfit
      obtain ⟨rfl, -⟩ := Prod.mk.inj (Except.ok.inj (hadd.symm.trans hadd'))
      have hsame := hcalls.symm.trans hstores.calls
      simp at hsame
  · rintro ⟨hfit, hlen⟩
    obtain ⟨rt', hadd, hstores⟩ := runtimeAddTimer_stores h hd hfit hlen
    exact ⟨rt', _, hadd, hstores⟩

/-- After one tick a delay of 100 is stored. -/
theorem add_timer_stores_iff_tick : ∃ rt, Lib.run timerStep (wheelSetup 0) [.tick] = .ok rt ∧
    ∃ rt' handle, runtimeAddTimer rt 100 5 6 = .ok (rt', handle) ∧ StoresTimer rt rt' 5 6 handle := by
  obtain ⟨rt, hrun, hnow, hlen⟩ : ∃ rt, Lib.run timerStep (wheelSetup 0) [.tick] = .ok rt ∧
      rt.now = 1 ∧ rt.timerLen = 0 := Lib.exists_ok_of_decide (by decide +kernel)
  refine ⟨rt, hrun, (add_timer_stores_iff hrun 100 (by decide) 5 6).mpr ⟨?_, by rw [hlen]; decide⟩⟩
  rw [hnow]
  decide

/-- When the wheels have run for a year, the longest delay wraps: the handler is called at once, and
the handle is valid. -/
theorem add_timer_calls_at_once : ∃ rt,
    Lib.run timerStep (wheelSetup 0) (List.replicate 31536000000 .tick) = .ok rt ∧
      ∃ rt' handle, runtimeAddTimer rt 18446744073709551615 5 6 = .ok (rt', handle) ∧
        timerValid handle = true ∧ handle.expiryTime = 31535999999 ∧ rt'.pending = rt.pending ∧
        ¬ StoresTimer rt rt' 5 6 handle := by
  have hpos : 0 < wheelSpan := by rw [wheelSpan_eq]; omega
  obtain ⟨rt, hrun, hv⟩ := run_ok (List.replicate 31536000000 .tick) (valid_setup 0) (by
    rw [sum_ticks_replicate, wheelSpan_eq]
    omega)
  rw [sum_ticks_replicate, Nat.zero_add] at hv
  have hlevel : findWheel (18446744073709551615 : UInt64).toNat = 7 := by decide
  have hres : wheelRes 7 = 31536000000 := rfl
  have hdelay : (18446744073709551615 : UInt64).toNat = 18446744073709551615 := rfl
  have hwrap : ¬ 31536000000 / wheelRes (findWheel (18446744073709551615 : UInt64).toNat) *
      wheelRes (findWheel (18446744073709551615 : UInt64).toNat) +
      (18446744073709551615 : UInt64).toNat < 2 ^ 64 := by
    rw [hlevel, hres, hdelay]
    omega
  obtain ⟨rt', hadd, -, hpend, hcalls, -⟩ := runtimeAddTimer_wrapped hv
    (by rw [wheelSpan_eq]; omega) (by decide) 5 6 hwrap
  have he : (newTimer 31536000000 rt 18446744073709551615 5 6).expiryTime = 31535999999 := by
    show u64 (_ / wheelRes (findWheel (18446744073709551615 : UInt64).toNat) *
      wheelRes (findWheel (18446744073709551615 : UInt64).toNat) +
      (18446744073709551615 : UInt64).toNat) = _
    rw [hlevel, hres, hdelay]
    rfl
  refine ⟨rt, hrun, rt', _, hadd, ?_, he, hpend, ?_⟩
  · simp [timerValid, Timer.handle, he]
  · intro hstores
    have hsame := hcalls.symm.trans hstores.calls
    simp at hsame

end Taskio
