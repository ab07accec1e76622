import Taskio.Common.SleepRuns

/-!
# The clock of the sleeps

`timer_fd` is armed with the first timer and disarmed when `timer_len` says that the last one is gone. If
it is disarmed too early, time stands still and sleeps never end; if never, the process wakes every
millisecond for nothing.

* `ClockExact` — `timer_len` counts the stored timers, and the clock runs exactly while a sleep waits
* `sleep_clock_iff` — where the sleeps own their timers, this holds exactly when no expiry time wraps
-/

namespace Taskio

variable {n f waker : Nat} {s s' : SleepSystem} {future : SleepFuture} {rt rt' : TimerRuntime}

/-- The sleep was polled, and its time is still to come. -/
def SleepSystem.Sleeping (s : SleepSystem) (f : Nat) : Prop :=
  ∃ future, s.futures f = some future ∧ future.counter = 1 ∧
    s.timers.now < future.handle.expiryTime

structure ClockExact (s : SleepSystem) : Prop where
  count : s.timers.timerLen = s.timers.stored.length
  armed : s.timers.armed = true ↔ ∃ f, s.Sleeping f

/-- The expiry time of a sleep that is polled for the first time fits in 64 bits, or wraps such that its
handle is not valid. -/
def FitsClock (s : SleepSystem) : SleepOp → Prop
  | .poll f _ => ∀ future, s.futures f = some future → future.counter = 0 →
      expiryFrom s.timers.now future.ms < 2 ^ 64 ∨
        timerValid ⟨s.timers.nextTimerId, u64 (expiryFrom s.timers.now future.ms)⟩ = false
  | .sleep _ _ | .cleanup _ | .tick => True

/-! ## The wheels -/

/-- Adding a timer counts it, also when its handler was called because its time had wrapped. -/
theorem add_counted (h : Valid n rt) (hn : n < wheelSpan) (hc : Counted rt)
    (hroom : rt.pending.card + 1 < 2 ^ 64) {delay : UInt64} {handler data : Nat} {handle : TimerHandle}
    (hadd : runtimeAddTimer rt delay handler data = .ok (rt', handle)) :
    Counted rt' ↔ expiryFrom n delay < 2 ^ 64 ∨
      timerValid ⟨rt.nextTimerId, u64 (expiryFrom n delay)⟩ = false := by
  have hspan := wheelSpan_eq
  by_cases hd : delay.toNat = 0
  · rw [runtimeAddTimer_zero hd] at hadd
    cases hadd
    exact iff_of_true hc (Or.inl (by rw [expiryFrom_zero hd]; omega))
  · have hpos := Nat.pos_of_ne_zero hd
    by_cases hfit : expiryFrom n delay < 2 ^ 64
    · obtain ⟨rt₁, hok, -, hpend, -, hclock, -⟩ := runtimeAddTimer_stored h hpos handler data hfit
      obtain rfl : rt₁ = rt' := congrArg Prod.fst (Except.ok.inj (hok.symm.trans hadd))
      refine iff_of_true ?_ (Or.inl hfit)
      rw [Counted, hclock, hc, clockInc_clockOf hroom, hpend, Multiset.card_cons]
    · have he : (newTimer n rt delay handler data).expiryTime ≤
          n / wheelRes (findWheel delay.toNat) * wheelRes (findWheel delay.toNat) := by
        have hlt : delay.toNat < 2 ^ 64 := delay.toNat_lt
        have hle := Nat.div_mul_le_self n (wheelRes (findWheel delay.toNat))
        show u64 _ ≤ _
        rw [expiryFrom] at hfit
        unfold u64
        omega
      have h' : Valid n { rt with nextTimerId := u64 (rt.nextTimerId + 1) } := ⟨h.count, h.wheel⟩
      have hcall := wheelTimerAddFrom_due h' (findWheel_lt delay.toNat)
        (newTimer n rt delay handler data)
        (by have hle := Nat.div_mul_le_self n (wheelRes (findWheel delay.toNat)); omega) he
      rw [runtimeAddTimer_eq h hpos, hcall, ok_bind] at hadd
      have hrt := congrArg Prod.fst (Except.ok.inj hadd)
      dsimp only at hrt
      have hclock : rt.clock = clockOf rt.pending.card := hc
      rw [or_iff_right hfit]
      show _ ↔ timerValid (newTimer n rt delay handler data).handle = false
      by_cases hvalid : timerValid (newTimer n rt delay handler data).handle = true
      · rw [if_pos hvalid] at hrt
        rw [hvalid, ← hrt]
        -- one more is counted, and none is stored
        refine iff_of_false ?_ (by decide)
        intro hcounted
        have hcounted : clockInc rt.clock = clockOf rt.pending.card := hcounted
        rw [hclock, clockInc_clockOf hroom] at hcounted
        have hlen : rt.pending.card + 1 = rt.pending.card := congrArg Prod.fst hcounted
        omega
      · rw [if_neg hvalid] at hrt
        rw [← hrt]
        exact iff_of_true hc (Bool.not_eq_true _ ▸ hvalid)

/-- An operation stores one timer at most. -/
theorem timerStep_card (h : Valid n rt) (hn : n < wheelSpan) {o : TimerOp}
    (hstep : timerStep rt o = .ok rt') : rt'.pending.card ≤ rt.pending.card + 1 := by
  have hcancel : ¬ o.Undisturbed → rt'.pending.card ≤ rt.pending.card + 1 := by
    intro ho
    obtain ⟨lost, called, hpend, -⟩ := timerStep_cancel h ho hstep
    have hcard := congrArg Multiset.card hpend
    rw [Multiset.card_add] at hcard
    omega
  cases o with
  | add delay handler data =>
    obtain ⟨rt₁, handle, hadd, -, hcases⟩ := add_pending h hn delay handler data
    rw [timerStep, hadd] at hstep
    cases hstep
    rcases hcases with ⟨-, -, -, -, -, hpend, -⟩ | ⟨-, -, hpend, -⟩
    · rw [hpend, Multiset.card_cons]
    · rw [hpend]
      exact Nat.le_succ _
  | tick =>
    obtain ⟨hn', -⟩ := timerStep_valid (o := .tick) h hn hstep
    obtain ⟨rt₁, fired, htick, -, -, -, hpend, -⟩ := tick_pending h hn'
    obtain rfl : rt₁ = rt' := Except.ok.inj (htick.symm.trans hstep)
    rw [hpend]
    exact (Multiset.card_le_card (Multiset.filter_le _ _)).trans (Nat.le_succ _)
  | abort handle => exact hcancel id
  | fire handle => exact hcancel id

/-! ## One step -/

/-- The stored timers are those of the sleeps that wait. -/
theorem pending_iff_sleeping (h : SleepsSound n s) (hown : OwnTimers s) :
    0 < s.timers.pending.card ↔ ∃ f, s.Sleeping f := by
  rw [Multiset.card_pos_iff_exists_mem]
  constructor
  · rintro ⟨t, ht⟩
    obtain ⟨future, hf, hone, hhandle⟩ := hown t ht
    refine ⟨t.data, future, hf, hone, ?_⟩
    rw [h.valid.now_eq, hhandle]
    exact h.valid.now_lt ht
  · rintro ⟨f, future, hf, hone, hlate⟩
    rw [h.valid.now_eq] at hlate
    rcases h.futures f future hf with ⟨hzero, -⟩ | ⟨-, hdue | ⟨t, ht, -⟩⟩
    · omega
    · omega
    · exact ⟨t, ht⟩

theorem clockExact_iff (h : SleepsSound n s) (hown : OwnTimers s) :
    ClockExact s ↔ Counted s.timers := by
  constructor
  · rintro ⟨hcount, harmed⟩
    rw [stored_length] at hcount
    rw [← pending_iff_sleeping h hown] at harmed
    refine Prod.ext hcount ?_
    show s.timers.armed = decide (0 < s.timers.pending.card)
    rw [Bool.eq_iff_iff, harmed, decide_eq_true_iff]
  · intro hc
    have harmed : s.timers.armed = decide (0 < s.timers.pending.card) := congrArg Prod.snd hc
    refine ⟨?_, ?_⟩
    · rw [stored_length]
      exact congrArg Prod.fst hc
    · rw [← pending_iff_sleeping h hown, harmed, decide_eq_true_iff]

/-- **A step that keeps the timers keeps the count exactly when it meets `FitsClock`.** -/
theorem sleepStep_counted (h : SleepsSound n s) (hc : Counted s.timers)
    (hroom : s.timers.pending.card + 1 < 2 ^ 64) {o : SleepOp} (hkeeps : SleepKeeps s o)
    (hstep : sleepStep s o = .ok s') : Counted s'.timers ↔ FitsClock s o := by
  cases o with
  | sleep f ms =>
    rw [sleepStep] at hstep
    cases hf : s.futures f with
    | some future =>
      rw [hf] at hstep
      cases hstep
    | none =>
      rw [hf] at hstep
      cases hstep
      exact iff_of_true hc trivial
  | poll f waker =>
    cases hf : s.futures f with
    | none =>
      rw [sleepStep, sleepPoll, SleepSystem.future, hf] at hstep
      cases hstep
    | some future =>
      have hstep : sleepPoll s f waker = .ok s' := hstep
      rcases h.futures f future hf with ⟨hzero, -⟩ | ⟨hone, -⟩
      · obtain ⟨timers, handle, hadd, -⟩ := add_pending h.valid h.time future.ms sleepHandlerAddr f
        rw [sleepPoll_add hf hzero waker hadd] at hstep
        obtain ⟨s₁, hrun, hstep⟩ := bind_eq_ok.mp hstep
        cases hstep
        show Counted s₁.timers ↔ _
        rw [(runHandlers_goesOn hrun).1, add_counted h.valid h.time hc hroom hadd]
        constructor
        · intro hfits future' hf' _
          obtain rfl : future = future' := Option.some.inj (hf.symm.trans hf')
          rwa [h.valid.now_eq]
        · intro hfits
          have hthis := hfits future hf hzero
          rwa [h.valid.now_eq] at hthis
      · rw [sleepPoll_second hf hone] at hstep
        cases hstep
        refine iff_of_true hc ?_
        intro future' hf' hzero
        obtain rfl : future = future' := Option.some.inj (hf.symm.trans hf')
        omega
  | cleanup f =>
    refine iff_of_true ?_ trivial
    cases hf : s.futures f with
    | none =>
      rw [sleepStep, sleepCleanup, SleepSystem.future, hf] at hstep
      cases hstep
    | some future =>
      have hstep : sleepCleanup s f = .ok s' := hstep
      rw [sleepCleanup_eq hf] at hstep
      by_cases hvalid : timerValid future.handle = true
      · rw [if_pos hvalid] at hstep
        obtain ⟨timers, habort, hstep⟩ := bind_eq_ok.mp hstep
        obtain ⟨s₁, hrun, hstep⟩ := bind_eq_ok.mp hstep
        cases hstep
        show Counted s₁.timers
        rw [(runHandlers_goesOn hrun).1]
        -- the timer's time has come, or it is found
        have hgood : future.handle.expiryTime ≤ s.timers.now ∨
            ∃ level b t, s.timers.Holds level b t ∧ t.handle = future.handle ∧
              wheelRes level ≤ future.handle.expiryTime - s.timers.now := by
          rcases h.futures f future hf with ⟨-, hzero⟩ | ⟨-, hdue | ⟨t, ht, hhandle, -⟩⟩
          · rw [hzero] at hvalid
            cases hvalid
          · rw [h.valid.now_eq]
            exact Or.inl hdue
          · obtain ⟨level, w, b, l, hw, hb, hl⟩ := mem_pending.mp ht
            have hholds : s.timers.Holds level b t := ⟨w, l, hw, hb, hl⟩
            have hle := hkeeps future hf level b t hholds hhandle
            rw [← hhandle]
            exact Or.inr ⟨level, b, t, hholds, rfl, hle⟩
        exact timerStep_counted (o := .abort future.handle) h.valid h.time hc hgood habort
      · rw [if_neg hvalid] at hstep
        cases hstep
        exact hc
  | tick =>
    obtain ⟨timers, htick, hrun⟩ := bind_eq_ok.mp hstep
    rw [(runHandlers_goesOn hrun).1]
    exact iff_of_true (timerStep_counted (o := .tick) h.valid h.time hc trivial htick) trivial

/-! ## Runs -/

/-- Fewer than `2 ^ 64` operations leave room for another timer. -/
theorem roomAlong (os : List SleepOp) :
    ∀ (n k : Nat) (s : SleepSystem), Valid n s.timers → n < wheelSpan → s.timers.pending.card ≤ k →
      k + os.length < 2 ^ 64 →
      Lib.Along sleepStep (fun s _ => s.timers.pending.card + 1 < 2 ^ 64) s os := by
  induction os with
  | nil => exact fun _ _ _ _ _ _ _ => trivial
  | cons o os ih =>
    intro n k s hv hn hcard hlen
    rw [List.length_cons] at hlen
    refine ⟨by omega, ?_⟩
    intro s' hstep
    rcases (sleepStep_goesOn hstep).timers with hsame | ⟨o', htimers⟩
    · rw [← hsame] at hv hcard
      exact ih n k s' hv hn hcard (by omega)
    · obtain ⟨hn', hv'⟩ := timerStep_valid hv hn htimers
      have hcard' := timerStep_card hv hn htimers
      exact ih _ (k + 1) s' hv' hn' (by omega) (by omega)

theorem counted_setup (nextTimerId : UInt64) : Counted (wheelSetup nextTimerId) := by
  rw [Counted, pending_setup]
  rfl

/-- **The clock runs exactly while a sleep waits**, and `timer_len` is exact, in all states of a run in
which the sleeps keep their timers, exactly when no expiry time wraps. -/
theorem sleep_clock_iff (nextTimerId : UInt64) (os : List SleepOp) (hlen : os.length < 2 ^ 64)
    (hkeeps : Lib.Along sleepStep SleepKeeps (sleepSystem nextTimerId) os)
    (hrun : Lib.run sleepStep (sleepSystem nextTimerId) os = .ok s) :
    (∀ os₁ os₂ s₁, os = os₁ ++ os₂ → Lib.run sleepStep (sleepSystem nextTimerId) os₁ = .ok s₁ →
        ClockExact s₁) ↔
      Lib.Along sleepStep FitsClock (sleepSystem nextTimerId) os := by
  have hfresh : Lib.Along sleepStep FreshId (sleepSystem nextTimerId) os :=
    freshIds os 0 0 _ (valid_setup nextTimerId) (by decide) (idsFrom_setup nextTimerId) (by omega)
  have hroom := roomAlong os 0 0 (sleepSystem nextTimerId) (valid_setup nextTimerId) (by decide)
    (by
      rw [show (sleepSystem nextTimerId).timers = wheelSetup nextTimerId from rfl, pending_setup]
      rfl)
    (by omega)
  have hstep : ∀ (os : List SleepOp) (s : SleepSystem) (o : SleepOp) (s' : SleepSystem),
      (∃ n, SleepsSound n s ∧ OwnTimers s) → SleepKeeps s o → FreshId s o →
      sleepStep s o = .ok s' → ∃ n, SleepsSound n s' ∧ OwnTimers s' := by
    rintro - s o s' ⟨n, h, hown⟩ hk hid hok
    rcases sleepStep_spec h hown hid (by rw [hok]; rintro ⟨⟩) with ⟨s₁, hok₁, hs₁⟩ | ⟨hnot, -⟩
    · obtain rfl : s₁ = s' := Except.ok.inj (hok₁.symm.trans hok)
      exact ⟨_, hs₁.sound hk, hs₁.own.mpr hk⟩
    · exact absurd hk hnot
  have hsound₀ := sleepsSound_start nextTimerId
  have hown₀ := ownTimers_start nextTimerId
  refine Lib.along_iff_prefixes (I := fun _ s => ∃ n, SleepsSound n s ∧ OwnTimers s)
    (L := fun _ => ClockExact) [] ?_ ?_ ⟨0, hsound₀, hown₀⟩
    ((clockExact_iff hsound₀ hown₀).mpr (counted_setup nextTimerId))
    (hkeeps.and (hfresh.and hroom)) hrun
  · rintro os s o s' hI - - ⟨hk, hid, -⟩ hok
    exact hstep os s o s' hI hk hid hok
  · rintro os s o s' ⟨n, h, hown⟩ hL ⟨hk, hid, hroom⟩ hok
    obtain ⟨n', h', hown'⟩ := hstep os s o s' ⟨n, h, hown⟩ hk hid hok
    rw [clockExact_iff h' hown']
    exact sleepStep_counted h ((clockExact_iff h hown).mp hL) hroom hk hok

/-- A sleep of two milliseconds: the clock runs after its first poll and stands still after two ticks. -/
theorem sleep_clock_iff_two :
    ∃ s₁ s₂, Lib.run sleepStep (sleepSystem 0) [.sleep 4 2, .poll 4 9] = .ok s₁ ∧
      Lib.run sleepStep s₁ [.tick, .tick] = .ok s₂ ∧ ClockExact s₁ ∧ ClockExact s₂ ∧
      s₁.timers.armed = true ∧ s₂.timers.armed = false := by
  have hexact := (sleep_clock_iff 0 [.sleep 4 2, .poll 4 9, .tick, .tick] (by decide) ?_ rfl).mpr ?_
  · exact ⟨_, _, rfl, rfl, hexact [.sleep 4 2, .poll 4 9] [.tick, .tick] _ rfl rfl,
      hexact [.sleep 4 2, .poll 4 9, .tick, .tick] [] _ rfl rfl, rfl, rfl⟩
  · refine Lib.along_cons trivial rfl (Lib.along_cons ?_ rfl ?_)
    · intro future hf hone
      cases hf
      cases hone
    · refine Lib.along_cons ?_ rfl (Lib.along_cons ?_ rfl trivial)
      · exact (by decide : 1 < wheelSpan)
      · exact (by decide : 2 < wheelSpan)
  · refine Lib.along_cons trivial rfl (Lib.along_cons ?_ rfl ?_)
    · intro future hf _
      cases hf
      exact Or.inl (by decide)
    · exact Lib.along_cons trivial rfl (Lib.along_cons trivial rfl trivial)

end Taskio
