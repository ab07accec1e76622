import Mathlib.Data.Nat.ModEq
import Mathlib.Logic.Function.Iterate
import Taskio.Wheel.Levels

/-!
# One tick, through all the wheels it reaches

`taskio_wheel_timer_tick` drains a bucket of the finest wheel; each wheel that completes a
revolution ticks the next before it counts its own tick. During all of this every wheel has its old
tick. `wheelTimerTick_spec` is the induction over the levels still to be ticked, and
`runtimeTick_spec` its conclusion: the tick ends, calls the timers that are due now, and keeps every
other one.
-/

namespace Taskio

/-- `timer_len` and the armed flag after one `_wheel_expiry` of a timer that fired. -/
def clockDec (c : Nat × Bool) : Nat × Bool :=
  (sizeDec c.1, if c.1 = 1 then false else c.2)

theorem decreaseTimerLen_clock (rt : TimerRuntime) :
    (decreaseTimerLen rt).clock = clockDec rt.clock := rfl

theorem decreaseTimerLen_pending (rt : TimerRuntime) :
    (decreaseTimerLen rt).pending = rt.pending := rfl

theorem call_pending (rt : TimerRuntime) (c : Call) : (rt.call c).pending = rt.pending := rfl

/--
From `rt` and the timers `input` taken out of it to `rt'`: the timers `fired` were called, in this
order, and all others are stored.
-/
structure Visited (rt rt' : TimerRuntime) (input fired : List Timer) : Prop where
  calls : rt'.calls = rt.calls ++ fired.map .timer
  clock : rt'.clock = clockDec^[fired.length] rt.clock
  nextTimerId : rt'.nextTimerId = rt.nextTimerId
  pending : rt'.pending + (fired : Multiset Timer) = rt.pending + (input : Multiset Timer)

theorem Visited.refl (rt : TimerRuntime) : Visited rt rt [] [] where
  calls := by simp
  clock := rfl
  nextTimerId := rfl
  pending := rfl

theorem Visited.trans {rt₁ rt₂ rt₃ : TimerRuntime} {i₁ i₂ f₁ f₂ : List Timer}
    (h₁ : Visited rt₁ rt₂ i₁ f₁) (h₂ : Visited rt₂ rt₃ i₂ f₂) :
    Visited rt₁ rt₃ (i₁ ++ i₂) (f₁ ++ f₂) where
  calls := by rw [h₂.calls, h₁.calls, List.map_append, List.append_assoc]
  clock := by
    rw [h₂.clock, h₁.clock, ← Function.iterate_add_apply, List.length_append, Nat.add_comm]
  nextTimerId := h₂.nextTimerId.trans h₁.nextTimerId
  pending := by
    rw [← Multiset.coe_add, ← Multiset.coe_add, add_comm (f₁ : Multiset Timer), ← add_assoc,
      h₂.pending, add_right_comm, h₁.pending, add_assoc]

/-- The timers of a list that are due at tick `m`. -/
def dueAt (m : Nat) (l : List Timer) : List Timer := l.filter fun t => t.expiryTime = m

section Tick

variable {n level : Nat} {rt : TimerRuntime} {place : Nat → Nat}

/-- During the cascade of tick `n + 1` the wheels have the ticks of `n`. -/
abbrev Cascading (n : Nat) (place : Nat → Nat) (rt : TimerRuntime) : Prop :=
  Levels (fun k => n / wheelRes k) place rt

theorem tick_fits (hn : n + 1 ≤ wheelSpan) (k : Nat) : n / wheelRes k * wheelRes k < 2 ^ 64 := by
  have := Nat.div_mul_le_self n (wheelRes k)
  rw [wheelSpan_eq] at hn
  omega

/-- A timer that is due later is stored again; the assertion holds. -/
theorem runtimeAddTimerFrom_spec (hn : n + 1 ≤ wheelSpan) (h : Cascading n place rt) {t : Timer}
    (hlate : n + 1 < t.expiryTime) (hfit : t.expiryTime < 2 ^ 64)
    (hdvd : wheelRes (findWheel (t.expiryTime - (n + 1))) ∣ n + 1)
    (hplace : place (findWheel (t.expiryTime - (n + 1))) =
      (n + 1) / wheelRes (findWheel (t.expiryTime - (n + 1)))) :
    ∃ rt', runtimeAddTimerFrom rt t true = .ok rt' ∧ Cascading n place rt' ∧
      rt'.pending = t ::ₘ rt.pending ∧ SameClock rt rt' := by
  obtain ⟨w, -, hw, hat⟩ := h.get (show 0 < 8 by omega)
  have htime : u64 (u64 (w.tick * w.resolution) + w.resolution) = n + 1 := by
    rw [wheelSpan_eq] at hn
    have hnow : u64 n = n := u64_of_lt (by omega)
    rw [hat.tick_eq, hat.resolution, wheelRes_zero, Nat.div_one, Nat.mul_one, hnow]
    exact u64_of_lt (by omega)
  have hlt : n / wheelRes (findWheel (t.expiryTime - (n + 1))) *
      wheelRes (findWheel (t.expiryTime - (n + 1))) < t.expiryTime := by
    have := Nat.div_mul_le_self n (wheelRes (findWheel (t.expiryTime - (n + 1))))
    omega
  obtain ⟨rt', hrt', rest⟩ := wheelTimerAddFrom_ok h (findWheel_lt _) (tick_fits hn _) hlt
    (hplace ▸ placed_reschedule hlate rfl hdvd hfit)
  refine ⟨rt', ?_, rest⟩
  rw [runtimeAddTimerFrom, hw]
  simp only [ok_bind, ↓reduceIte, htime]
  rw [if_neg (by omega)]
  exact hrt'

/-- One turn of the loop over the drained bucket. -/
theorem tickTimer_spec (hn : n + 1 ≤ wheelSpan) (hlevel : level < 8)
    (hdvd : wheelRes level ∣ n + 1) (h : Cascading n place rt)
    (hplace : ∀ j ≤ level, place j = (n + 1) / wheelRes j) {t : Timer}
    (ht : Placed (n / wheelRes level) level ((n / wheelRes level + 1) % wheelLen level) t) :
    ∃ rt', tickTimer level (n + 1) true rt t = .ok rt' ∧ Cascading n place rt' ∧
      Visited rt rt' [t] (dueAt (n + 1) [t]) := by
  have hge := ht.now_lt
  by_cases hdue : t.expiryTime = n + 1
  · refine ⟨decreaseTimerLen (rt.call (.timer t)), ?_, ⟨h.count, h.wheel⟩, ?_⟩
    · simp [tickTimer, wheelExpiry, hdue]
    · have hfired : dueAt (n + 1) [t] = [t] := by simp [dueAt, hdue]
      rw [hfired]
      exact ⟨rfl, decreaseTimerLen_clock _, rfl, by rw [decreaseTimerLen_pending, call_pending]⟩
  · obtain ⟨hle, hdvd'⟩ := ht.res_dvd hlevel hdvd (by omega)
    obtain ⟨rt', hrt', hlev, hpend, hsame⟩ := runtimeAddTimerFrom_spec hn h (t := t) (by omega)
      ht.fits hdvd' (hplace _ hle)
    refine ⟨rt', ?_, hlev, ?_⟩
    · rw [tickTimer, if_neg (by omega), if_pos rfl, wheelExpiry, if_pos rfl, hrt']
    · have hfired : dueAt (n + 1) [t] = [] := by simp [dueAt, hdue]
      rw [hfired]
      refine ⟨by simp [hsame.calls], hsame.clock, hsame.nextTimerId, ?_⟩
      rw [hpend, ← Multiset.singleton_add, Multiset.coe_nil, add_zero, add_comm, Multiset.coe_singleton]

/-- The loop over the drained bucket. -/
theorem tickTimers_spec (hn : n + 1 ≤ wheelSpan) (hlevel : level < 8)
    (hdvd : wheelRes level ∣ n + 1) (hplace : ∀ j ≤ level, place j = (n + 1) / wheelRes j) :
    ∀ (l : List Timer) (rt : TimerRuntime), Cascading n place rt →
      (∀ t ∈ l,
        Placed (n / wheelRes level) level ((n / wheelRes level + 1) % wheelLen level) t) →
      ∃ rt', l.foldlM (tickTimer level (n + 1) true) rt = .ok rt' ∧ Cascading n place rt' ∧
        Visited rt rt' l (dueAt (n + 1) l)
  | [], rt, h, _ => ⟨rt, rfl, h, Visited.refl rt⟩
  | t :: l, rt, h, hl => by
    obtain ⟨rt₁, h₁, hlev₁, hv₁⟩ := tickTimer_spec hn hlevel hdvd h hplace (hl t (by simp))
    obtain ⟨rt₂, h₂, hlev₂, hv₂⟩ := tickTimers_spec hn hlevel hdvd hplace l rt₁ hlev₁
      fun t' ht' => hl t' (List.mem_cons_of_mem _ ht')
    refine ⟨rt₂, ?_, hlev₂, ?_⟩
    · rw [List.foldlM_cons, h₁]
      exact h₂
    · have hsplit : dueAt (n + 1) (t :: l) = dueAt (n + 1) [t] ++ dueAt (n + 1) l := by
        simp only [dueAt, ← List.filter_append]
        rfl
      rw [hsplit]
      exact hv₁.trans hv₂

/-! ## The wheels, from `level` up -/

/-- What wheel `k` is placed as of when the wheels below `level` have been drained. -/
def placeBelow (n level k : Nat) : Nat :=
  if k < level then (n + 1) / wheelRes k else n / wheelRes k

/-- Where wheel `k` stands when the wheels from `level` up have ticked. -/
def tickFrom (n level k : Nat) : Nat :=
  if k < level then n / wheelRes k else (n + 1) / wheelRes k

/-- Draining the bucket of the tick leaves the wheel placed as of the tick. -/
theorem cascading_drain (hdvd : wheelRes level ∣ n + 1)
    (h : Cascading n (placeBelow n level) rt) :
    Cascading n (placeBelow n (level + 1))
      (rt.modifyWheel level (·.setBucket ((n / wheelRes level + 1) % wheelLen level) [])) := by
  have hold : placeBelow n level level = n / wheelRes level := by simp [placeBelow]
  have hnew : placeBelow n (level + 1) level = n / wheelRes level + 1 := by
    rw [placeBelow, if_pos (by omega), Nat.succ_div_of_dvd hdvd]
  refine h.modifyWheel level ?_ fun k hk => ⟨rfl, ?_⟩
  · intro w hw
    rw [hold] at hw
    rw [hnew]
    exact hw.setBucket (by simp) fun c t hc hp => hp.advance hc
  · simp only [placeBelow]
    by_cases hlt : k < level
    · rw [if_pos hlt, if_pos (by omega)]
    · rw [if_neg hlt, if_neg (by omega)]

/-- Counting the tick of `level`, last of all. -/
theorem levels_count (hn : n + 1 < wheelSpan) (hdvd : wheelRes level ∣ n + 1)
    {placeOf : Nat → Nat} (h : Levels (tickFrom n (level + 1)) placeOf rt) :
    Levels (tickFrom n level) placeOf
      (rt.modifyWheel level fun w => { w with tick := u64 (w.tick + 1) }) := by
  refine h.modifyWheel level ?_ fun k hk => ⟨?_, rfl⟩
  · intro w hw
    have hold : tickFrom n (level + 1) level = n / wheelRes level := by simp [tickFrom]
    have hnew : tickFrom n level level = n / wheelRes level + 1 := by
      rw [tickFrom, if_neg (by omega), Nat.succ_div_of_dvd hdvd]
    have hle := Nat.div_le_self n (wheelRes level)
    rw [wheelSpan_eq] at hn
    refine ⟨⟨hw.id, hw.resolution, hw.wheelSize, hw.buckets, hw.loopHandler, hw.expiryHandler⟩,
      ?_, hw.placed⟩
    show u64 (w.tick + 1) = _
    rw [hw.tick_eq, hold, hnew, u64_of_lt (by omega)]
  · simp only [tickFrom]
    by_cases hlt : k < level
    · rw [if_pos hlt, if_pos (by omega)]
    · rw [if_neg hlt, if_neg (by omega)]

/-- When the next wheel is not reached, it and those above stand where they stood. -/
theorem levels_stop (hlevel : level < 8) (hnot : level < 7 → ¬ wheelRes (level + 1) ∣ n + 1)
    (h : Cascading n (placeBelow n (level + 1)) rt) :
    Levels (tickFrom n (level + 1)) (fun k => (n + 1) / wheelRes k) rt := by
  refine h.congr ?_
  intro k hk
  by_cases hlt : k < level + 1
  · simp [tickFrom, placeBelow, hlt]
  · have hstay : (n + 1) / wheelRes k = n / wheelRes k :=
      Nat.succ_div_of_not_dvd fun hd =>
        hnot (by omega) (Nat.dvd_trans (wheelRes_dvd k hk _ (by omega)) hd)
    simp [tickFrom, placeBelow, hlt, hstay]

/-- A wheel is at index 0 at the end of each revolution. -/
theorem index_dvd_iff (hlevel : level < 8) (hdvd : wheelRes level ∣ n + 1) :
    (n / wheelRes level + 1) % wheelLen level = 0 ↔ wheelRes level * wheelLen level ∣ n + 1 := by
  have hpos := wheelRes_pos level hlevel
  have hnext : wheelRes level * (n / wheelRes level + 1) = n + 1 := by
    rw [← Nat.succ_div_of_dvd hdvd]
    exact Nat.mul_div_cancel' hdvd
  rw [← Nat.dvd_iff_mod_eq_zero, ← Nat.mul_dvd_mul_iff_left hpos, hnext]

/-- That is when the next wheel is to tick. The last wheel completes no revolution. -/
theorem index_zero_iff (hn : n + 1 < wheelSpan) (hlevel : level < 8)
    (hdvd : wheelRes level ∣ n + 1) :
    (n / wheelRes level + 1) % wheelLen level = 0 ↔ level < 7 ∧ wheelRes (level + 1) ∣ n + 1 := by
  rw [index_dvd_iff hlevel hdvd]
  by_cases h7 : level < 7
  · rw [wheelRes_succ level h7]
    exact ⟨fun h => ⟨h7, h⟩, fun h => h.2⟩
  · obtain rfl : level = 7 := by omega
    constructor
    · intro hd
      have := Nat.le_of_dvd (by omega) hd
      rw [wheelSpan] at hn
      omega
    · exact fun h => absurd h.1 h7

/-- A wheel's turn up to the call of `_wheel_loop`: the timers of the bucket are visited. -/
theorem wheelTimerTick_drain (hn : n + 1 ≤ wheelSpan) (hlevel : level < 8)
    (hdvd : wheelRes level ∣ n + 1) (h : Cascading n (placeBelow n level) rt) (levels : Nat) :
    ∃ rt' timers,
      wheelTimerTick (levels + 1) level rt =
        ((if (n / wheelRes level + 1) % wheelLen level = 0 then wheelTimerTick levels (level + 1) rt'
          else .ok rt') >>= fun rt =>
        .ok (rt.modifyWheel level fun w => { w with tick := u64 (w.tick + 1) })) ∧
      Cascading n (placeBelow n (level + 1)) rt' ∧ Visited rt rt' [] (dueAt (n + 1) timers) := by
  obtain ⟨w, hw, hw', hat⟩ := h.get hlevel
  have hplace : placeBelow n level level = n / wheelRes level := by simp [placeBelow]
  have hnext : (n / wheelRes level + 1) * wheelRes level = n + 1 := by
    rw [← Nat.succ_div_of_dvd hdvd]
    exact Nat.div_mul_cancel hdvd
  have hle := Nat.div_le_self n (wheelRes level)
  have hspan := wheelSpan_eq
  have htick : u64 (w.tick + 1) = n / wheelRes level + 1 := by
    rw [hat.tick_eq]
    exact u64_of_lt (by omega)
  have htime : u64 ((n / wheelRes level + 1) * w.resolution) = n + 1 := by
    rw [hat.resolution, hnext]
    exact u64_of_lt (by omega)
  obtain ⟨timers, htimers, hbucket⟩ :=
    hat.get (Nat.mod_lt (n / wheelRes level + 1) (wheelLen_pos level hlevel))
  -- the drained bucket
  have hdrain := cascading_drain hdvd h
  have hpend := pending_setBucket hw htimers []
  obtain ⟨rt', hrt', hlev, hv⟩ := tickTimers_spec hn hlevel hdvd
    (fun j hj => by rw [placeBelow, if_pos (by omega)]) timers _ hdrain
    fun t ht => hplace ▸ hat.placed _ timers htimers t ht
  refine ⟨rt', timers, ?_, hlev, hv.calls, hv.clock, hv.nextTimerId, ?_⟩
  · rw [wheelTimerTick, hw']
    simp only [ok_bind]
    rw [hat.wheelSize, if_neg (by have := wheelLen_pos level hlevel; omega), htick, htime,
      hbucket, hat.expiryHandler]
    simp only [ok_bind, hrt', hat.loopHandler, hat.id]
    by_cases hzero : (n / wheelRes level + 1) % wheelLen level = 0
    · rw [if_pos hzero, if_pos (by simp [hzero])]
    · rw [if_neg hzero, if_neg (by simpa using hzero)]
  · rw [hv.pending]
    exact hpend

/-- **A tick of the wheel at `level`, with all the wheels above that it reaches.** -/
theorem wheelTimerTick_spec (hn : n + 1 < wheelSpan) :
    ∀ (levels level : Nat) (rt : TimerRuntime), levels + level = 8 → level < 8 →
      wheelRes level ∣ n + 1 → Cascading n (placeBelow n level) rt →
      ∃ rt' fired, wheelTimerTick levels level rt = .ok rt' ∧
        Levels (tickFrom n level) (fun k => (n + 1) / wheelRes k) rt' ∧
        Visited rt rt' [] fired ∧ ∀ t ∈ fired, t.expiryTime = n + 1
  | 0, level, _, hsum, hlevel, _, _ => absurd hsum (by omega)
  | levels + 1, level, rt, hsum, hlevel, hdvd, h => by
    obtain ⟨rt₂, timers, htick, hlev₂, hv₂⟩ := wheelTimerTick_drain hn.le hlevel hdvd h levels
    -- the wheels above, if they are reached
    obtain ⟨rt₃, fired, hrt₃, hlev₃, hv₃, hfired⟩ : ∃ rt₃ fired,
        (if (n / wheelRes level + 1) % wheelLen level = 0 then wheelTimerTick levels (level + 1) rt₂
          else .ok rt₂) = .ok rt₃ ∧
        Levels (tickFrom n (level + 1)) (fun k => (n + 1) / wheelRes k) rt₃ ∧
        Visited rt₂ rt₃ [] fired ∧ ∀ t ∈ fired, t.expiryTime = n + 1 := by
      by_cases hzero : (n / wheelRes level + 1) % wheelLen level = 0
      · obtain ⟨h7, hdvd'⟩ := (index_zero_iff hn hlevel hdvd).mp hzero
        rw [if_pos hzero]
        exact wheelTimerTick_spec hn levels (level + 1) rt₂ (by omega) (by omega) hdvd' hlev₂
      · rw [if_neg hzero]
        refine ⟨rt₂, [], rfl, levels_stop hlevel ?_ hlev₂, Visited.refl rt₂, by simp⟩
        exact fun h7 hd => hzero ((index_zero_iff hn hlevel hdvd).mpr ⟨h7, hd⟩)
    refine ⟨_, dueAt (n + 1) timers ++ fired, ?_, levels_count hn hdvd hlev₃, ?_, ?_⟩
    · rw [htick, hrt₃]
      rfl
    · have hv := hv₂.trans hv₃
      refine ⟨hv.calls, hv.clock, hv.nextTimerId, ?_⟩
      rw [pending_modifyWheel]
      · exact hv.pending
      · exact fun _ => rfl
    · intro t ht
      rcases List.mem_append.mp ht with ht | ht
      · simpa [dueAt] using (List.mem_filter.mp ht).2
      · exact hfired t ht

/-- When the last wheel completes its revolution, `_wheel_loop` reads past the array. -/
theorem wheelTimerTick_overrun (hn : n + 1 = wheelSpan) :
    ∀ (levels level : Nat) (rt : TimerRuntime), levels + level = 8 →
      Cascading n (placeBelow n level) rt → wheelTimerTick levels level rt = .error .outOfBounds
  | 0, _, _, _, _ => rfl
  | levels + 1, level, rt, hsum, h => by
    have hlevel : level < 8 := by omega
    have hspan : wheelRes level * wheelLen level ∣ n + 1 := by
      rw [hn, wheelSpan]
      by_cases h7 : level < 7
      · rw [← wheelRes_succ level h7]
        exact Nat.dvd_trans (wheelRes_dvd 7 (by omega) _ (by omega)) (Nat.dvd_mul_right _ _)
      · obtain rfl : level = 7 := by omega
        exact Nat.dvd_refl _
    have hdvd : wheelRes level ∣ n + 1 := Nat.dvd_trans (Nat.dvd_mul_right _ _) hspan
    obtain ⟨rt₂, timers, htick, hlev₂, -⟩ := wheelTimerTick_drain hn.le hlevel hdvd h levels
    have hzero : (n / wheelRes level + 1) % wheelLen level = 0 :=
      (index_dvd_iff hlevel hdvd).mpr hspan
    rw [htick, if_pos hzero, wheelTimerTick_overrun hn levels (level + 1) rt₂ (by omega) hlev₂]
    rfl

end Tick

theorem Valid.cascading {n : Nat} {rt : TimerRuntime} (h : Valid n rt) :
    Cascading n (placeBelow n 0) rt :=
  h.congr fun k _ => by simp [placeBelow]

/-- **One tick of the finest wheel.** It ends without a fault, and calls the handlers of the timers
whose expiry time is the new tick; all others stay stored. -/
theorem runtimeTick_spec {n : Nat} {rt : TimerRuntime} (h : Valid n rt) (hn : n + 1 < wheelSpan) :
    ∃ rt' fired, runtimeTick rt = .ok rt' ∧ Valid (n + 1) rt' ∧ Visited rt rt' [] fired ∧
      ∀ t ∈ fired, t.expiryTime = n + 1 := by
  obtain ⟨rt', fired, h1, h2, h3⟩ := wheelTimerTick_spec hn 8 0 rt rfl (by omega)
    (by rw [wheelRes_zero]; exact Nat.one_dvd _) h.cascading
  refine ⟨rt', fired, ?_, h2.congr fun k _ => by simp [tickFrom], h3⟩
  rw [runtimeTick, h.count]
  exact h1

theorem runtimeTick_overrun {n : Nat} {rt : TimerRuntime} (h : Valid n rt)
    (hn : n + 1 = wheelSpan) : runtimeTick rt = .error .outOfBounds := by
  rw [runtimeTick, h.count]
  exact wheelTimerTick_overrun hn 8 0 rt rfl h.cascading

end Taskio
