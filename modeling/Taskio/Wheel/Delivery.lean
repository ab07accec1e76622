import Taskio.Wheel.Simulation

/-!
# What the callers of timers get

With no timer cancelled:

* `cascade_exact` — a timer stays stored until the tick that is its expiry time, which calls it
* `fires_on_time_iff` — this is the delay that was asked for only when the wheel that the delay
  selects has just ticked
-/

namespace Taskio

open Lib (Agenda)

variable {n : Nat} {rt rt' : TimerRuntime}

/-! ## Where a timer is -/

/-- `t` is in bucket `b` of the wheel at `level`. -/
def TimerRuntime.Holds (rt : TimerRuntime) (level b : Nat) (t : Timer) : Prop :=
  ∃ w l, rt.wheels[level]? = some w ∧ w.timerBuckets[b]? = some l ∧ t ∈ l

/-- A timer that is stored once is in one bucket of one wheel. -/
theorem holds_unique {t : Timer} (h : rt.pending.count t = 1) :
    ∃! p : Nat × Nat, rt.Holds p.1 p.2 t := by
  have hmem : t ∈ rt.pending := Multiset.count_pos.mp (by omega)
  obtain ⟨k, w, b, l, hk, hb, ht⟩ := mem_pending.mp hmem
  refine ⟨(k, b), ⟨w, l, hk, hb, ht⟩, ?_⟩
  rintro ⟨k', b'⟩ ⟨w', l', hk', hb', ht'⟩
  by_contra hne
  -- emptying the first bucket would leave the timer in the second
  have hcount := congrArg (Multiset.count t) (pending_setBucket hk hb [])
  rw [Multiset.count_add, Multiset.coe_nil, add_zero, h, Multiset.coe_count] at hcount
  have hfirst : 0 < l.count t := List.count_pos_iff.mpr ht
  have hsecond : t ∈ (rt.modifyWheel k (·.setBucket b [])).pending := by
    refine mem_pending.mpr ?_
    by_cases hkk : k = k'
    · subst hkk
      rw [hk] at hk'
      cases hk'
      refine ⟨k, w.setBucket b [], b', l', ?_, ?_, ht'⟩
      · rw [TimerRuntime.modifyWheel_get, if_pos rfl, hk]
        rfl
      · rw [WheelTimer.setBucket, List.getElem?_set, if_neg (fun h => hne (by rw [h]))]
        exact hb'
    · refine ⟨k', w', b', l', ?_, hb', ht'⟩
      rw [TimerRuntime.modifyWheel_get, if_neg hkk]
      exact hk'
  have := Multiset.count_pos.mpr hsecond
  omega

/-! ## Timer ids -/

theorem addedBy_id (h : Valid n rt) {o : TimerOp} (hn : n + o.ticks < wheelSpan)
    (ho : o.Undisturbed) (hwrap : NoWrap rt o) (hstep : timerStep rt o = .ok rt') :
    (agendaOp rt o = [.tick] ∨ agendaOp rt o = []) ∧ rt'.nextTimerId = rt.nextTimerId ∨
      (∃ t, agendaOp rt o = [.add t] ∧ t.id = rt.nextTimerId) ∧
        rt'.nextTimerId = u64 (rt.nextTimerId + 1) := by
  cases o with
  | add delay handler data =>
    by_cases hd : delay.toNat = 0
    · rw [timerStep, runtimeAddTimer_zero hd] at hstep
      cases hstep
      refine Or.inl ⟨Or.inr ?_, rfl⟩
      simp only [agendaOp, addedBy, runtimeAddTimer_zero hd, if_pos hd]
      rfl
    · have hpos := Nat.pos_of_ne_zero hd
      have hfit := hwrap.fits h
      obtain ⟨rt₁, hadd, -, -, -, -, hid, -⟩ := runtimeAddTimer_stored h hpos handler data hfit
      rw [timerStep, hadd] at hstep
      cases hstep
      refine Or.inr ⟨⟨newTimer n rt delay handler data, ?_, rfl⟩, hid⟩
      simp only [agendaOp, addedBy_eq hpos hadd]
      rfl
  | tick =>
    obtain ⟨rt₁, fired, htick, -, hvisited, -⟩ := runtimeTick_spec h hn
    rw [timerStep, htick] at hstep
    cases hstep
    exact Or.inl ⟨Or.inl rfl, hvisited.nextTimerId⟩
  | abort handle => exact absurd ho id
  | fire handle => exact absurd ho id

/-- The timers of a run are numbered one after the other. -/
theorem addedTimers_ids {os : List TimerOp} (h : Valid n rt) (hn : n < wheelSpan)
    (hid : rt.nextTimerId < 2 ^ 64) (hos : ∀ o ∈ os, o.Undisturbed)
    (hwrap : Lib.Along timerStep NoWrap rt os) (hrun : Lib.run timerStep rt os = .ok rt') :
    (addedTimers rt os).map Timer.id =
      ((List.range (addedTimers rt os).card).map fun i => u64 (rt.nextTimerId + i) : List Nat) := by
  induction os generalizing n rt with
  | nil => rfl
  | cons o os ih =>
    obtain ⟨rt₁, hstep, hrest⟩ := Lib.run_cons_eq_ok.mp hrun
    obtain ⟨hn₁, h₁⟩ := timerStep_valid h hn hstep
    have hsplit : addedTimers rt (o :: os) = Agenda.adds (agendaOp rt o) + addedTimers rt₁ os := by
      simp only [addedTimers, agendaOps, hstep, Agenda.adds_append]
    have hwrap₁ := hwrap.2 rt₁ hstep
    have hos₁ : ∀ o' ∈ os, o'.Undisturbed := fun o' ho' => hos o' (List.mem_cons_of_mem _ ho')
    rcases addedBy_id h hn₁ (hos o (by simp)) hwrap.1 hstep with ⟨hnone, hsame⟩ | ⟨⟨t, ht, hti⟩, hnext⟩
    · have hnil : Agenda.adds (agendaOp rt o) = 0 := by
        rcases hnone with hnone | hnone <;> rw [hnone] <;> rfl
      rw [hsplit, hnil, zero_add, ← hsame]
      exact ih h₁ hn₁ (by rw [hsame]; exact hid) hos₁ hwrap₁ hrest
    · have hone : Agenda.adds (agendaOp rt o) = {t} := by rw [ht]; rfl
      have hih := ih h₁ hn₁ (by rw [hnext]; exact Nat.mod_lt _ (by decide)) hos₁ hwrap₁ hrest
      rw [hsplit, hone, Multiset.singleton_add, Multiset.map_cons, Multiset.card_cons, hih, hti,
        List.range_succ_eq_map, List.map_cons, List.map_map, ← Multiset.cons_coe, Nat.add_zero,
        u64_of_lt hid]
      congr 2
      refine List.map_congr_left ?_
      intro i _
      simp only [hnext, u64, Function.comp_apply, Nat.mod_add_mod]
      congr 1
      omega

/-- While no id comes twice, no timer does. -/
theorem addedTimers_nodup {nextTimerId : UInt64} {os : List TimerOp}
    (hos : ∀ o ∈ os, o.Undisturbed)
    (hwrap : Lib.Along timerStep NoWrap (wheelSetup nextTimerId) os)
    (hrun : Lib.run timerStep (wheelSetup nextTimerId) os = .ok rt)
    (hcard : (addedTimers (wheelSetup nextTimerId) os).card ≤ 2 ^ 64) :
    (addedTimers (wheelSetup nextTimerId) os).Nodup := by
  refine Multiset.Nodup.of_map Timer.id ?_
  rw [addedTimers_ids (valid_setup nextTimerId) (by decide) nextTimerId.toNat_lt hos hwrap hrun,
    Multiset.coe_nodup]
  refine List.Nodup.map_on ?_ List.nodup_range
  intro i hi j hj heq
  rw [List.mem_range] at hi hj
  have hmod : i ≡ j [MOD 2 ^ 64] := Nat.ModEq.add_left_cancel' _ heq
  exact hmod.eq_of_lt_of_lt (by omega) (by omega)

/-! ## Stored timers -/

/--
**The cascade neither loses, duplicates, delays nor anticipates a timer.** A run ends without a
fault. At its end the timers added for later are stored, the others have been called, and the next
tick calls those whose expiry time is its number. A timer added once is in one bucket of one wheel
until then, and fewer than `2 ^ 64` timers are all different.
-/
theorem cascade_exact (nextTimerId : UInt64) (os : List TimerOp)
    (hos : ∀ o ∈ os, o.Undisturbed)
    (hticks : (os.map TimerOp.ticks).sum < 4 * 31536000000)
    (hwrap : Lib.Along timerStep NoWrap (wheelSetup nextTimerId) os) :
    ∃ rt, Lib.run timerStep (wheelSetup nextTimerId) os = .ok rt ∧
      rt.now = (os.map TimerOp.ticks).sum ∧
      rt.pending = (addedTimers (wheelSetup nextTimerId) os).filter
        (fun t => rt.now < t.expiryTime) ∧
      rt.called = (addedTimers (wheelSetup nextTimerId) os).filter
        (fun t => t.expiryTime ≤ rt.now) ∧
      (∀ rt', timerStep rt .tick = .ok rt' →
        rt'.called = rt.called + (addedTimers (wheelSetup nextTimerId) os).filter
          fun t => t.expiryTime = rt.now + 1) ∧
      (∀ t, (addedTimers (wheelSetup nextTimerId) os).count t = 1 →
        (rt.now < t.expiryTime →
          (∃! p : Nat × Nat, rt.Holds p.1 p.2 t) ∧ rt.pending.count t = 1 ∧
            rt.called.count t = 0) ∧
        (t.expiryTime ≤ rt.now → rt.pending.count t = 0 ∧ rt.called.count t = 1)) ∧
      ((addedTimers (wheelSetup nextTimerId) os).card ≤ 2 ^ 64 →
        (addedTimers (wheelSetup nextTimerId) os).Nodup) := by
  obtain ⟨rt, hrun, hv⟩ := run_ok os (valid_setup nextTimerId)
    (show 0 + (os.map TimerOp.ticks).sum < wheelSpan by rw [wheelSpan_eq]; omega)
  rw [Nat.zero_add] at hv
  have hexact := run_exact hos hwrap hrun
  refine ⟨rt, hrun, hv.now_eq, hexact.pending, hexact.done, ?_, ?_, ?_⟩
  · intro rt' htick
    obtain ⟨hn', hv'⟩ := timerStep_valid (o := .tick) hv (by rw [wheelSpan_eq]; exact hticks) htick
    obtain ⟨rt'', fired, htick', -, hvisited, hfired⟩ := runtimeTick_spec hv hn'
    rw [timerStep, htick'] at htick
    cases htick
    rw [called_fired hvisited.calls, (hvisited.split hv' hfired).2, hv.now_eq]
    show _ + Multiset.filter _ rt.agenda.pending = _
    rw [hexact.pending, Multiset.filter_filter]
    refine congrArg _ (Multiset.filter_congr ?_)
    intro t _
    show t.expiryTime = _ ∧ rt.now < t.expiryTime ↔ _
    rw [hv.now_eq]
    omega
  · intro t ht
    obtain ⟨hbefore, hafter⟩ := hexact.count t
    rw [ht] at hbefore hafter
    exact ⟨fun h => ⟨holds_unique (hbefore h).1, hbefore h⟩, hafter⟩
  · exact addedTimers_nodup hos hwrap hrun

theorem cascade_exact_add_tick :
    ∃ rt, Lib.run timerStep (wheelSetup 0) [.add 25 1 2, .tick] = .ok rt ∧ rt.now = 1 := by
  have hwrap : Lib.Along timerStep NoWrap (wheelSetup 0) [.add 25 1 2, .tick] := by
    refine ⟨?_, fun _ _ => ⟨trivial, fun _ _ => trivial⟩⟩
    intro w hw
    have hget : (wheelSetup 0).wheels[findWheel (25 : UInt64).toNat]? = some (wheelInit 1 10 10) := by
      decide
    rw [hget] at hw
    cases hw
    decide
  obtain ⟨rt, hrun, hnow, -⟩ := cascade_exact 0 [.add 25 1 2, .tick] (by decide) (by decide) hwrap
  exact ⟨rt, hrun, hnow⟩

/-! ## Delays -/

/-- In every run from `rt` on, the tick to the time `m` calls `t` and no other tick does. -/
def CalledAt (rt : TimerRuntime) (t : Timer) (m : Nat) : Prop :=
  ∀ os rt₁ rt₂, (∀ o ∈ os, TimerOp.Undisturbed o) → Lib.Along timerStep NoWrap rt os →
    Lib.run timerStep rt os = .ok rt₁ → timerStep rt₁ .tick = .ok rt₂ →
      (Call.timer t ∈ rt₂.calls.drop rt₁.calls.length ↔ rt₂.now = m)

/-- A stored timer is called at its expiry time. -/
theorem calledAt_expiryTime (h : Valid n rt) (hn : n < wheelSpan) {t : Timer}
    (ht : t ∈ rt.pending) : CalledAt rt t t.expiryTime := by
  intro os rt₁ rt₂ hos hwrap hrun htick
  obtain ⟨hn₁, hv₁⟩ := valid_run h hn hrun
  obtain ⟨hn₂, hv₂⟩ := timerStep_valid (o := .tick) hv₁ hn₁ htick
  obtain ⟨rt₂', fired, htick', -, hvisited, hfired⟩ := runtimeTick_spec hv₁ hn₂
  rw [timerStep, htick'] at htick
  cases htick
  obtain ⟨-, hdue⟩ := hvisited.split hv₂ hfired
  have hmem : t ∈ fired ↔ t ∈ rt₁.pending ∧ t.expiryTime = rt₂.now := by
    rw [← Multiset.mem_coe, hdue, Multiset.mem_filter, hv₂.now_eq]
    rfl
  rw [hvisited.calls, List.drop_left, List.mem_map]
  simp only [Call.timer.injEq, exists_eq_right, hmem]
  constructor
  · exact fun hm => hm.2.symm
  · intro hnow
    refine ⟨?_, hnow.symm⟩
    -- until then the timer stays on the agenda
    obtain ⟨hsim, -⟩ := run_simulates h hn hos hwrap hrun
    have hstay : rt₁.agenda.now < t.expiryTime → t ∈ rt₁.agenda.pending := by
      rw [hsim]
      exact Agenda.mem_pending_foldl ht
    refine hstay ?_
    show rt₁.now < _
    rw [hv₂.now_eq] at hnow
    rw [hv₁.now_eq, ← hnow]
    exact Nat.lt_succ_self _

/-- No other time is right, if the wheels get as far as that. -/
theorem CalledAt.eq_expiryTime (h : Valid n rt) (hn : n < wheelSpan) {t : Timer}
    (ht : t ∈ rt.pending) (hspan : t.expiryTime < wheelSpan) {m : Nat} (hc : CalledAt rt t m) :
    t.expiryTime = m := by
  have hlt := h.now_lt ht
  have hrep : ∀ o ∈ List.replicate (t.expiryTime - n - 1) TimerOp.tick, o = .tick :=
    fun o ho => List.eq_of_mem_replicate ho
  have hsum := sum_ticks_replicate (t.expiryTime - n - 1)
  -- the run of ticks alone gets there
  obtain ⟨rt₁, hrun, hv₁⟩ :=
    run_ok (List.replicate (t.expiryTime - n - 1) .tick) h (by omega)
  rw [hsum] at hv₁
  obtain ⟨rt₂, htick, hv₂⟩ := timerStep_ok (o := .tick) hv₁ (by show _ + 1 < wheelSpan; omega)
  have hos : ∀ o ∈ List.replicate (t.expiryTime - n - 1) TimerOp.tick, o.Undisturbed :=
    fun o ho => hrep o ho ▸ trivial
  have hwrap : Lib.Along timerStep NoWrap rt (List.replicate (t.expiryTime - n - 1) .tick) :=
    Lib.along_of_forall fun o ho _ => hrep o ho ▸ trivial
  have hnow : rt₂.now = t.expiryTime := by
    rw [hv₂.now_eq]
    show _ + 1 = _
    omega
  have hcall := (calledAt_expiryTime h hn ht _ rt₁ rt₂ hos hwrap hrun htick).mpr hnow
  rw [← hnow]
  exact (hc _ rt₁ rt₂ hos hwrap hrun htick).mp hcall

/--
**When a timer fires exactly after the delay asked for.** The delay is counted from the tick of the
wheel that it selects, which is the present only if that wheel has just ticked. Otherwise the timer
fires early, unless that is beyond the range of the wheels.
-/
theorem fires_on_time_iff (nextTimerId : UInt64) (os : List TimerOp)
    (hrun : Lib.run timerStep (wheelSetup nextTimerId) os = .ok rt) (delay : UInt64)
    (hd : 0 < delay.toNat) (hfit : rt.now + delay.toNat < 2 ^ 64) (handler data : Nat) :
    ∃ rt' t, runtimeAddTimer rt delay handler data = .ok (rt', t.handle) ∧
      t.handler = handler ∧ t.data = data ∧
      (CalledAt rt' t (rt.now + delay.toNat) ↔
        rt.now % wheelRes (findWheel delay.toNat) = 0 ∨
          wheelSpan ≤ rt.now / wheelRes (findWheel delay.toNat) * wheelRes (findWheel delay.toNat)
            + delay.toNat) := by
  obtain ⟨hn, hv⟩ := reachable_valid hrun
  generalize rt.now = n at hn hv hfit ⊢
  have hle := Nat.div_mul_le_self n (wheelRes (findWheel delay.toNat))
  have hmod := Nat.div_add_mod' n (wheelRes (findWheel delay.toNat))
  obtain ⟨rt', hadd, hv', hpend, -⟩ :=
    runtimeAddTimer_stored hv hd handler data (show _ < 2 ^ 64 by omega)
  have he : (newTimer n rt delay handler data).expiryTime =
      n / wheelRes (findWheel delay.toNat) * wheelRes (findWheel delay.toNat) + delay.toNat :=
    u64_of_lt (by omega)
  have hlate : n < (newTimer n rt delay handler data).expiryTime := newTimer_late hd (by omega)
  have hcalled := calledAt_expiryTime hv' hn (t := newTimer n rt delay handler data)
    (by rw [hpend]; exact Multiset.mem_cons_self _ _)
  refine ⟨rt', newTimer n rt delay handler data, hadd, rfl, rfl, ?_, ?_⟩
  · intro hontime
    by_contra hnot
    push Not at hnot
    have := hontime.eq_expiryTime hv' hn (by rw [hpend]; exact Multiset.mem_cons_self _ _)
      (by omega)
    omega
  · rintro (haligned | hbeyond)
    · rw [haligned, Nat.add_zero] at hmod
      rwa [he, hmod] at hcalled
    · intro os' rt₁ rt₂ hos hwrap hrun' htick
      obtain ⟨hn₁, hv₁⟩ := valid_run hv' hn hrun'
      obtain ⟨hn₂, hv₂⟩ := timerStep_valid (o := .tick) hv₁ hn₁ htick
      have hnow := hv₂.now_eq
      rw [hcalled os' rt₁ rt₂ hos hwrap hrun' htick]
      constructor <;> intro heq <;> omega

/-- Ten milliseconds are a whole turn of the finest wheel. -/
theorem fires_on_time_iff_tick :
    ∃ rt rt' t, Lib.run timerStep (wheelSetup 0) (List.replicate 10 .tick) = .ok rt ∧ rt.now = 10 ∧
      runtimeAddTimer rt 10 7 8 = .ok (rt', t.handle) ∧ CalledAt rt' t (rt.now + 10) := by
  obtain ⟨rt, hrun, hv⟩ := run_ok (List.replicate 10 .tick) (valid_setup 0) (by decide)
  have hnow : rt.now = 10 := hv.now_eq
  obtain ⟨rt', t, hadd, -, -, hiff⟩ := fires_on_time_iff 0 (List.replicate 10 .tick) hrun 10
    (by decide) (by rw [hnow]; decide) 7 8
  refine ⟨rt, rt', t, hrun, hnow, hadd, hiff.mpr (Or.inl ?_)⟩
  rw [hnow]
  decide

/-- A timer for 10 ms, added in the second millisecond, fires after 9. -/
theorem fires_early :
    ∃ rt rt' t, Lib.run timerStep (wheelSetup 0) [.tick] = .ok rt ∧ rt.now = 1 ∧
      runtimeAddTimer rt 10 7 8 = .ok (rt', t.handle) ∧ t.handler = 7 ∧ t.data = 8 ∧
      CalledAt rt' t 10 ∧ ¬ CalledAt rt' t (rt.now + 10) := by
  obtain ⟨rt, hrun, hv⟩ := run_ok [.tick] (valid_setup 0) (by decide)
  obtain ⟨rt', hadd, hv', hpend, -⟩ :=
    runtimeAddTimer_stored hv (show 0 < (10 : UInt64).toNat by decide) 7 8 (by decide)
  have he : (newTimer 1 rt 10 7 8).expiryTime = 10 := rfl
  have hmem : newTimer 1 rt 10 7 8 ∈ rt'.pending := by
    rw [hpend]
    exact Multiset.mem_cons_self _ _
  refine ⟨rt, rt', newTimer 1 rt 10 7 8, hrun, hv.now_eq, hadd, rfl, rfl,
    he ▸ calledAt_expiryTime hv' (by decide) hmem, ?_⟩
  intro hlate
  have heq := hlate.eq_expiryTime hv' (by decide) hmem (by rw [he]; decide)
  rw [hv.now_eq, he] at heq
  exact absurd heq (by decide)

end Taskio
