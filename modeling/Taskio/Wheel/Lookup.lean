import Taskio.Wheel.Cancellation

/-!
# Looking a timer up by its handle

`_find_bucket` computes the bucket from the tick at which it is asked, once when the timer is stored,
again when a visit of the bucket puts it back, and again when it is cancelled. While the wheel counts
on, the tick grows by what the remaining ticks lose (`findBucket_count`), so the answer stays.

* `lookup_stable` — as long as the 64-bit time of the wheel does not wrap
* `lookup_misses` — after it has wrapped, the timer is looked for elsewhere
-/

namespace Taskio

/-- `wheel_timer->tick * wheel_timer->resolution`. -/
def WheelTimer.time (w : WheelTimer) : Nat := u64 (w.tick * w.resolution)

/-- The timers in all its buckets. -/
def WheelTimer.timers (w : WheelTimer) : List Timer := w.timerBuckets.flatten

/-- The wheel after it has counted a tick. -/
def WheelTimer.count (w : WheelTimer) : WheelTimer := { w with tick := u64 (w.tick + 1) }

/-- The functions of `wheel.c`, called on any wheel of the array. -/
inductive WheelOp where
  | add (level : Nat) (delay : UInt64) (handler data : Nat)
  | addFrom (level : Nat) (timer : Timer)
  | tick (level : Nat)
  | abort (level : Nat) (handle : TimerHandle)
  | fire (level : Nat) (handle : TimerHandle)

def wheelStep (rt : TimerRuntime) : WheelOp → Except Fault TimerRuntime
  | .add level delay handler data => do
    let (rt', _) ← wheelTimerAdd rt level delay.toNat handler data
    .ok rt'
  | .addFrom level timer => wheelTimerAddFrom rt level timer
  | .tick level => wheelTimerTick (rt.wheels.length - level) level rt
  | .abort level handle => timerAbort rt level handle
  | .fire level handle => timerFire rt level handle

/-- The step does not turn back the time of the wheel at `level`. -/
def TimeGoesOn (level : Nat) (rt : TimerRuntime) (o : WheelOp) : Prop :=
  match wheelStep rt o with
  | .ok rt' => ∀ w ∈ rt.wheels[level]?, ∀ w' ∈ rt'.wheels[level]?, w.time ≤ w'.time
  | .error _ => True

instance (level : Nat) (rt : TimerRuntime) (o : WheelOp) : Decidable (TimeGoesOn level rt o) :=
  match h : wheelStep rt o with
  | .ok rt' =>
    decidable_of_iff (∀ w ∈ rt.wheels[level]?, ∀ w' ∈ rt'.wheels[level]?, w.time ≤ w'.time)
      (by simp [TimeGoesOn, h])
  | .error _ => isTrue (by simp [TimeGoesOn, h])

variable {level b : Nat} {t : Timer} {w w' w₀ : WheelTimer} {rt rt' : TimerRuntime}

/-! ## The bucket -/

theorem findBucket_congr (htick : w'.tick = w.tick) (hres : w'.resolution = w.resolution)
    (hsize : w'.wheelSize = w.wheelSize) (e : Nat) : findBucket w' e = findBucket w e := by
  rw [findBucket, findBucket, htick, hres, hsize]

theorem findBucket_late {e : Nat} (h : e ≤ w.time) : findBucket w e = .ok none := by
  rw [findBucket]
  exact if_pos h

theorem findBucket_early {e : Nat} (hres : 0 < w.resolution) (hsize : 0 < w.wheelSize)
    (h : w.time < e) :
    findBucket w e = .ok (some (u64 (w.tick + (e - w.time) / w.resolution) % w.wheelSize)) := by
  have hnot : ¬ u64 (w.tick * w.resolution) ≥ e := Nat.not_le.mpr h
  rw [findBucket]
  simp only
  rw [if_neg hnot, if_neg (by omega)]
  rfl

/-- A tick brings the time on by the resolution, or turns it back. -/
theorem time_count (hfit : w.resolution < 2 ^ 64) :
    w.count.time = w.time + w.resolution ∨ w.count.time + 2 ^ 64 = w.time + w.resolution := by
  have hmul : u64 (w.tick + 1) * w.resolution % 2 ^ 64 =
      (w.tick * w.resolution + w.resolution) % 2 ^ 64 := by
    rw [u64, Nat.mod_mul_mod, Nat.add_mul, Nat.one_mul]
  have hcount : w.count.time = (w.tick * w.resolution + w.resolution) % 2 ^ 64 := hmul
  have htime : w.time = w.tick * w.resolution % 2 ^ 64 := rfl
  omega

/-- **A tick does not change the bucket in which a timer is looked for.** -/
theorem findBucket_count {e : Nat} (htick : w.tick < 2 ^ 64) (hfit : w.resolution < 2 ^ 64)
    (hres : 0 < w.resolution) (hsize : 0 < w.wheelSize) (hon : w.time ≤ w.count.time)
    (hlt : w.count.time < e) : findBucket w.count e = findBucket w e := by
  have hnext : w.count.time = w.time + w.resolution := by
    rcases time_count hfit with h | h
    · exact h
    · omega
  -- the tick itself has not wrapped either, or the time would be 0
  have hone : w.count.tick = w.tick + 1 := by
    by_cases hlast : w.tick + 1 = 2 ^ 64
    · exfalso
      have hzero : w.count.time = 0 := by
        show u64 (u64 (w.tick + 1) * w.resolution) = 0
        rw [hlast]
        simp [u64]
      omega
    · exact u64_of_lt (by omega)
  rw [findBucket_early hres hsize (Nat.lt_of_le_of_lt hon hlt),
    findBucket_early (w := w.count) hres hsize hlt, hnext, hone]
  have hdiv : (e - w.time) / w.resolution = (e - (w.time + w.resolution)) / w.resolution + 1 := by
    rw [Nat.div_eq_sub_div hres (by omega), Nat.sub_sub]
  rw [hdiv]
  show Except.ok (some (u64 (w.tick + 1 + (e - (w.time + w.resolution)) / w.resolution) %
    w.wheelSize)) = _
  rw [Nat.add_assoc, Nat.add_comm 1]

/-! ## Where a timer can be -/

/-- The wheel is `w₀` but for its buckets, of which none but `b` holds `t`. -/
structure OnlyIn (t : Timer) (b : Nat) (w₀ w : WheelTimer) : Prop where
  tick : w.tick = w₀.tick
  resolution : w.resolution = w₀.resolution
  wheelSize : w.wheelSize = w₀.wheelSize
  bucket : ∀ c l, w.timerBuckets[c]? = some l → t ∈ l → c = b

/-- So it is in the wheel at `level`. The wheels are numbered as in the array. -/
structure Confined (t : Timer) (level b : Nat) (w₀ : WheelTimer) (rt : TimerRuntime) : Prop where
  present : level < rt.wheels.length
  numbered : ∀ (k : Nat) (w : WheelTimer), rt.wheels[k]? = some w → w.id = k
  only : ∀ w, rt.wheels[level]? = some w → OnlyIn t b w₀ w

/-- Storing `t` in `w₀` would put it into `b`, if anywhere. -/
def SentTo (t : Timer) (b : Nat) (w₀ : WheelTimer) : Prop :=
  ∀ c, findBucket w₀ t.expiryTime = .ok (some c) → c = b

theorem OnlyIn.setBucket (h : OnlyIn t b w₀ w) {c : Nat} {l : List Timer} (hl : t ∈ l → c = b) :
    OnlyIn t b w₀ (w.setBucket c l) := by
  refine ⟨h.tick, h.resolution, h.wheelSize, ?_⟩
  intro c' l' hc ht
  rw [WheelTimer.setBucket, List.getElem?_set] at hc
  by_cases hcc : c = c'
  · rw [if_pos hcc] at hc
    split at hc
    · cases hc
      exact hcc ▸ hl ht
    · cases hc
  · rw [if_neg hcc] at hc
    exact h.bucket c' l' hc ht

theorem Confined.congr (h : Confined t level b w₀ rt) (hwheels : rt'.wheels = rt.wheels) :
    Confined t level b w₀ rt' :=
  ⟨hwheels ▸ h.present, fun k w hw => h.numbered k w (hwheels ▸ hw),
    fun w hw => h.only w (hwheels ▸ hw)⟩

/-- One wheel is changed; if it is that of `t`, it becomes as `w₁`. -/
theorem Confined.modifyWheel {w₁ : WheelTimer} {f : WheelTimer → WheelTimer} {k : Nat}
    (h : Confined t level b w₀ rt) (hid : ∀ w, (f w).id = w.id)
    (hthis : k = level → ∀ w, rt.wheels[k]? = some w → OnlyIn t b w₀ w → OnlyIn t b w₁ (f w))
    (hother : k ≠ level → w₁ = w₀) : Confined t level b w₁ (rt.modifyWheel k f) := by
  refine ⟨?_, ?_, ?_⟩
  · rw [TimerRuntime.modifyWheel, List.length_modify]
    exact h.present
  · intro j w hw
    rw [TimerRuntime.modifyWheel_get] at hw
    split at hw
    · obtain ⟨w, hget, rfl⟩ := Option.map_eq_some_iff.mp hw
      rw [hid]
      exact h.numbered j w hget
    · exact h.numbered j w hw
  · intro w hw
    rw [TimerRuntime.modifyWheel_get] at hw
    by_cases hk : k = level
    · rw [if_pos hk] at hw
      obtain ⟨w, hget, rfl⟩ := Option.map_eq_some_iff.mp hw
      exact hthis hk w (hk ▸ hget) (h.only w hget)
    · rw [if_neg hk] at hw
      rw [hother hk]
      exact h.only w hw

/-- A bucket is exchanged for one that holds `t` only where it may. -/
theorem Confined.setBucket {k c : Nat} {l : List Timer} (h : Confined t level b w₀ rt)
    (hl : k = level → t ∈ l → c = b) :
    Confined t level b w₀ (rt.modifyWheel k (·.setBucket c l)) :=
  h.modifyWheel (fun _ => rfl) (fun hk _ _ honly => honly.setBucket (hl hk)) fun _ => rfl

theorem wheel_eq_ok {k : Nat} : rt.wheel k = .ok w ↔ rt.wheels[k]? = some w := by
  rw [TimerRuntime.wheel]
  cases rt.wheels[k]? with
  | none => simp
  | some w => simp

theorem bucket_eq_ok {c : Nat} {l : List Timer} :
    w.bucket c = .ok l ↔ w.timerBuckets[c]? = some l := by
  rw [WheelTimer.bucket]
  cases w.timerBuckets[c]? with
  | none => simp
  | some l => simp

/-! ## What each function does to it -/

theorem confined_addFrom {k : Nat} {t' : Timer} (hsent : SentTo t b w₀)
    (h : Confined t level b w₀ rt) (hadd : wheelTimerAddFrom rt k t' = .ok rt') :
    Confined t level b w₀ rt' := by
  rw [wheelTimerAddFrom] at hadd
  obtain ⟨w, hw, hadd⟩ := bind_eq_ok.mp hadd
  obtain ⟨index, hfind, hadd⟩ := bind_eq_ok.mp hadd
  cases index with
  | none =>
    cases hadd
    exact h.congr rfl
  | some index =>
    obtain ⟨l, hl, hadd⟩ := bind_eq_ok.mp hadd
    cases hadd
    refine h.setBucket ?_
    intro hk ht
    subst hk
    have honly := h.only w (wheel_eq_ok.mp hw)
    rcases List.mem_append.mp ht with ht | ht
    · exact honly.bucket index l (bucket_eq_ok.mp hl) ht
    · rw [← List.mem_singleton.mp ht,
        findBucket_congr honly.tick honly.resolution honly.wheelSize] at hfind
      exact hsent index hfind

theorem confined_add {k delay handler data : Nat} {handle : TimerHandle} (hsent : SentTo t b w₀)
    (h : Confined t level b w₀ rt)
    (hadd : wheelTimerAdd rt k delay handler data = .ok (rt', handle)) :
    Confined t level b w₀ rt' := by
  rw [wheelTimerAdd] at hadd
  split at hadd
  · cases hadd
    exact h.congr rfl
  · obtain ⟨w, -, hadd⟩ := bind_eq_ok.mp hadd
    obtain ⟨rt₁, hfrom, hadd⟩ := bind_eq_ok.mp hadd
    cases hadd
    have h' : Confined t level b w₀ { rt with nextTimerId := u64 (rt.nextTimerId + 1) } :=
      h.congr rfl
    exact confined_addFrom hsent h' hfrom

theorem confined_remove {predicate : Timer → List Call → Predicate × List Call} {k : Nat}
    {handle : TimerHandle} (h : Confined t level b w₀ rt)
    (hremove : timerRemove predicate rt k handle = .ok rt') : Confined t level b w₀ rt' := by
  rw [timerRemove] at hremove
  obtain ⟨w, hw, hremove⟩ := bind_eq_ok.mp hremove
  obtain ⟨index, -, hremove⟩ := bind_eq_ok.mp hremove
  cases index with
  | none =>
    cases hremove
    exact h
  | some index =>
    obtain ⟨l, hl, hremove⟩ := bind_eq_ok.mp hremove
    cases hremove
    have hset : Confined t level b w₀ (rt.modifyWheel k
        (·.setBucket index (vecRemoveIf predicate l rt.calls).1)) :=
      h.setBucket fun hk ht => by
        subst hk
        exact (h.only w (wheel_eq_ok.mp hw)).bucket index l (bucket_eq_ok.mp hl)
          ((vecRemoveIf_sublist predicate l rt.calls).mem ht)
    exact hset.congr rfl

theorem confined_runtimeAddTimerFrom {t' : Timer} {rescheduling : Bool} (hsent : SentTo t b w₀)
    (h : Confined t level b w₀ rt) (hadd : runtimeAddTimerFrom rt t' rescheduling = .ok rt') :
    Confined t level b w₀ rt' := by
  rw [runtimeAddTimerFrom] at hadd
  obtain ⟨w, -, hadd⟩ := bind_eq_ok.mp hadd
  cases rescheduling with
  | true =>
    simp only [↓reduceIte] at hadd
    split at hadd
    · cases hadd
    · exact confined_addFrom hsent h hadd
  | false =>
    simp only [Bool.false_eq_true, ↓reduceIte] at hadd
    split at hadd
    · cases hadd
      exact h.congr rfl
    · have h' : Confined t level b w₀ (increaseTimerLen rt) := h.congr rfl
      exact confined_addFrom hsent h' hadd

theorem confined_tickTimer {k time : Nat} {expiryHandler : Bool} {t' : Timer}
    (hsent : SentTo t b w₀) (h : Confined t level b w₀ rt)
    (htick : tickTimer k time expiryHandler rt t' = .ok rt') : Confined t level b w₀ rt' := by
  rw [tickTimer] at htick
  split at htick
  · cases expiryHandler with
    | true =>
      cases htick
      exact h.congr rfl
    | false => cases htick
  · cases expiryHandler with
    | true => exact confined_runtimeAddTimerFrom hsent h htick
    | false => exact confined_addFrom hsent h htick

theorem confined_tickTimers {k time : Nat} {expiryHandler : Bool} (hsent : SentTo t b w₀)
    (l : List Timer) (h : Confined t level b w₀ rt)
    (htick : l.foldlM (tickTimer k time expiryHandler) rt = .ok rt') :
    Confined t level b w₀ rt' := by
  induction l generalizing rt with
  | nil =>
    cases htick
    exact h
  | cons t' l ih =>
    rw [List.foldlM_cons] at htick
    obtain ⟨rt₁, hfirst, hrest⟩ := bind_eq_ok.mp htick
    exact ih (confined_tickTimer hsent h hfirst) hrest

/-- A tick of the wheel at `k`, with those it makes tick after it: that of `t` counts at most once,
and last of all. -/
theorem confined_tick (hsent : SentTo t b w₀) :
    ∀ (levels k : Nat) (rt rt' : TimerRuntime), Confined t level b w₀ rt →
      wheelTimerTick levels k rt = .ok rt' →
      Confined t level b w₀ rt' ∨ k ≤ level ∧ Confined t level b w₀.count rt'
  | 0, _, _, _, _, htick => by cases htick
  | levels + 1, k, rt, rt', h, htick => by
    rw [wheelTimerTick] at htick
    obtain ⟨w, hw, htick⟩ := bind_eq_ok.mp htick
    simp only at htick
    split at htick
    · cases htick
    · obtain ⟨timers, -, htick⟩ := bind_eq_ok.mp htick
      obtain ⟨rt₁, hvisit, htick⟩ := bind_eq_ok.mp htick
      obtain ⟨rt₂, hloop, htick⟩ := bind_eq_ok.mp htick
      cases htick
      have hdrained : Confined t level b w₀
          (rt.modifyWheel k (·.setBucket (u64 (w.tick + 1) % w.wheelSize) [])) :=
        h.setBucket fun _ ht => absurd ht List.not_mem_nil
      have hvisited := confined_tickTimers hsent timers hdrained hvisit
      have hlooped : Confined t level b w₀ rt₂ ∨
          k + 1 ≤ level ∧ Confined t level b w₀.count rt₂ := by
        split at hloop
        · rw [h.numbered k w (wheel_eq_ok.mp hw)] at hloop
          exact confined_tick hsent levels (k + 1) rt₁ rt₂ hvisited hloop
        · cases hloop
          exact Or.inl hvisited
      rcases hlooped with hlooped | ⟨hlt, hlooped⟩
      · by_cases hk : k = level
        · refine Or.inr ⟨Nat.le_of_eq hk, hlooped.modifyWheel (fun _ => rfl) ?_ ?_⟩
          · rintro - w₁ - honly
            exact ⟨by rw [honly.tick]; rfl, honly.resolution, honly.wheelSize, honly.bucket⟩
          · intro hne
            exact absurd hk hne
        · exact Or.inl (hlooped.modifyWheel (fun _ => rfl) (fun heq => absurd heq hk) fun _ => rfl)
      · refine Or.inr ⟨by omega, hlooped.modifyWheel (fun _ => rfl) ?_ fun _ => rfl⟩
        intro heq
        omega

theorem confined_step {o : WheelOp} (hsent : SentTo t b w₀) (h : Confined t level b w₀ rt)
    (hstep : wheelStep rt o = .ok rt') :
    Confined t level b w₀ rt' ∨ Confined t level b w₀.count rt' := by
  cases o with
  | add k delay handler data =>
    obtain ⟨⟨rt₁, handle⟩, hadd, hstep⟩ := bind_eq_ok.mp hstep
    cases hstep
    exact Or.inl (confined_add hsent h hadd)
  | addFrom k timer => exact Or.inl (confined_addFrom hsent h hstep)
  | tick k => exact (confined_tick hsent _ k rt rt' h hstep).imp_right And.right
  | abort k handle => exact Or.inl (confined_remove h hstep)
  | fire k handle => exact Or.inl (confined_remove h hstep)

/-! ## Runs -/

/-- A wheel in which `t` is looked for in `b`, until the time has come. -/
structure LooksIn (t : Timer) (b : Nat) (w : WheelTimer) : Prop where
  tick_lt : w.tick < 2 ^ 64
  resolution_pos : 0 < w.resolution
  resolution_lt : w.resolution < 2 ^ 64
  wheelSize_pos : 0 < w.wheelSize
  found : w.time < t.expiryTime → findBucket w t.expiryTime = .ok (some b)

theorem LooksIn.sentTo (h : LooksIn t b w) : SentTo t b w := by
  intro c hc
  by_cases hlt : w.time < t.expiryTime
  · rw [h.found hlt] at hc
    exact (Option.some.inj (Except.ok.inj hc)).symm
  · rw [findBucket_late (Nat.not_lt.mp hlt)] at hc
    cases hc

theorem LooksIn.count (h : LooksIn t b w) (hon : w.time ≤ w.count.time) : LooksIn t b w.count where
  tick_lt := Nat.mod_lt _ (by decide)
  resolution_pos := h.resolution_pos
  resolution_lt := h.resolution_lt
  wheelSize_pos := h.wheelSize_pos
  found hlt := by
    rw [findBucket_count h.tick_lt h.resolution_lt h.resolution_pos h.wheelSize_pos hon hlt]
    exact h.found (Nat.lt_of_le_of_lt hon hlt)

theorem OnlyIn.time_eq (h : OnlyIn t b w₀ w) : w.time = w₀.time := by
  rw [WheelTimer.time, h.tick, h.resolution]
  rfl

theorem Confined.get (h : Confined t level b w₀ rt) :
    ∃ w, rt.wheels[level]? = some w ∧ OnlyIn t b w₀ w :=
  ⟨_, List.getElem?_eq_getElem h.present, h.only _ (List.getElem?_eq_getElem h.present)⟩

theorem looksIn_step {o : WheelOp} (h : LooksIn t b w₀ ∧ Confined t level b w₀ rt)
    (hon : TimeGoesOn level rt o) (hstep : wheelStep rt o = .ok rt') :
    ∃ w₁, LooksIn t b w₁ ∧ Confined t level b w₁ rt' := by
  rcases confined_step h.1.sentTo h.2 hstep with h' | h'
  · exact ⟨w₀, h.1, h'⟩
  · obtain ⟨w, hw, honly⟩ := h.2.get
    obtain ⟨w', hw', honly'⟩ := h'.get
    rw [TimeGoesOn, hstep] at hon
    have hle := hon w hw w' hw'
    rw [honly.time_eq, honly'.time_eq] at hle
    exact ⟨w₀.count, h.1.count hle, h'⟩

/-- A timer of which the wheel holds none yet is confined to the bucket it is put into. -/
theorem confined_placed {rt₁ : TimerRuntime}
    (hnumbered : ∀ (k : Nat) (w : WheelTimer), rt.wheels[k]? = some w → w.id = k)
    (hw : rt.wheels[level]? = some w) (hnew : t ∉ w.timers)
    (hadd : wheelTimerAddFrom rt level t = .ok rt₁)
    (hfound : findBucket w t.expiryTime = .ok (some b)) : Confined t level b w rt₁ := by
  have hsent : SentTo t b w := by
    intro c hc
    rw [hfound] at hc
    exact (Option.some.inj (Except.ok.inj hc)).symm
  refine confined_addFrom hsent ⟨(List.getElem?_eq_some_iff.mp hw).1, hnumbered, ?_⟩ hadd
  intro w' hw'
  obtain rfl := Option.some.inj (hw.symm.trans hw')
  refine ⟨rfl, rfl, rfl, fun c l hc ht => absurd ?_ hnew⟩
  exact List.mem_flatten.mpr ⟨l, List.mem_of_getElem? hc, ht⟩

theorem find_of_only {l : List Timer} (ht : t ∈ l) (honly : ∀ x ∈ l, x.id = t.id → x = t) :
    l.find? (fun x => x.id = t.id) = some t := by
  cases hfind : l.find? fun x => x.id = t.id with
  | none =>
    have hnot := List.find?_eq_none.mp hfind t ht
    simp at hnot
  | some x =>
    have hid : x.id = t.id := by simpa using List.find?_some hfind
    rw [honly x (List.mem_of_find?_eq_some hfind) hid]

/--
**Looking a timer up by its handle is stable while the wheel ticks**, as long as no step turns back the
wheel's 64-bit time. `t` is stored, and the wheels are used in any way; if `t` is still in this wheel
and its time has not come, it is found, and no other timer is touched. The wheels are numbered as
`_wheel_setup` does.
-/
theorem lookup_stable {rt₁ rt₂ : TimerRuntime} {w₂ : WheelTimer} {os : List WheelOp}
    (hnumbered : ∀ (k : Nat) (w : WheelTimer), rt.wheels[k]? = some w → w.id = k)
    (hw : rt.wheels[level]? = some w) (htick : w.tick < 2 ^ 64) (hres : 0 < w.resolution)
    (hfit : w.resolution < 2 ^ 64) (hsize : 0 < w.wheelSize) (hlate : w.time < t.expiryTime)
    (hnew : ∀ x ∈ w.timers, x.id ≠ t.id) (hadd : wheelTimerAddFrom rt level t = .ok rt₁)
    (hrun : Lib.run wheelStep rt₁ os = .ok rt₂)
    (hon : Lib.Along wheelStep (TimeGoesOn level) rt₁ os)
    (hw₂ : rt₂.wheels[level]? = some w₂) (hstored : t ∈ w₂.timers)
    (hlate₂ : w₂.time < t.expiryTime) (hids : ∀ x ∈ w₂.timers, x.id = t.id → x = t) :
    ∃ b l₁ l₂, w₂.timerBuckets[b]? = some (l₁ ++ t :: l₂) ∧
      timerAbort rt₂ level t.handle =
        .ok { rt₂ with wheels := rt₂.wheels.set level (w₂.setBucket b (l₁ ++ l₂)) } ∧
      timerFire rt₂ level t.handle =
        .ok { rt₂ with
          wheels := rt₂.wheels.set level (w₂.setBucket b (l₁ ++ l₂))
          calls := rt₂.calls ++ [.timer t] } := by
  have hfound := findBucket_early hres hsize hlate
  generalize u64 (w.tick + (t.expiryTime - w.time) / w.resolution) % w.wheelSize = b at hfound
  have hplaced := confined_placed hnumbered hw (fun ht => hnew t ht rfl) hadd hfound
  obtain ⟨w₀, hlooks, hconfined⟩ := Lib.run_invariant
    (I := fun rt => ∃ w₀, LooksIn t b w₀ ∧ Confined t level b w₀ rt)
    (fun _ _ _ ⟨_, h⟩ hp hok => looksIn_step h hp hok)
    ⟨w, ⟨htick, hres, hfit, hsize, fun _ => hfound⟩, hplaced⟩ hon hrun
  have honly := hconfined.only w₂ hw₂
  rw [honly.time_eq] at hlate₂
  have hfound₂ : findBucket w₂ t.expiryTime = .ok (some b) := by
    rw [findBucket_congr honly.tick honly.resolution honly.wheelSize]
    exact hlooks.found hlate₂
  obtain ⟨l, hl, ht⟩ := List.mem_flatten.mp hstored
  obtain ⟨c, hc⟩ := List.getElem?_of_mem hl
  obtain rfl := honly.bucket c l hc ht
  have hfind : l.find? (fun x => x.id = t.id) = some t :=
    find_of_only ht fun x hx => hids x (List.mem_flatten.mpr ⟨l, hl, hx⟩)
  obtain ⟨l₁, l₂, rfl, herase⟩ := eraseP_split hfind
  have hremove : ∀ predicate : Timer → List Call → Predicate × List Call,
      timerRemove predicate rt₂ level t.handle =
        .ok { rt₂ with
          wheels := rt₂.wheels.set level
            (w₂.setBucket c (vecRemoveIf predicate (l₁ ++ t :: l₂) rt₂.calls).1)
          calls := (vecRemoveIf predicate (l₁ ++ t :: l₂) rt₂.calls).2 } := by
    intro predicate
    rw [timerRemove, wheel_eq_ok.mpr hw₂, ok_bind]
    show (findBucket w₂ t.expiryTime >>= _) = _
    rw [hfound₂, ok_bind]
    simp only [bucket_eq_ok.mpr hc, ok_bind]
    rw [modifyWheel_eq_set hw₂]
    rfl
  refine ⟨c, l₁, l₂, hc, ?_, ?_⟩
  · rw [timerAbort, hremove, vecRemoveIf_abort]
    show Except.ok _ = _
    rw [Timer.handle, herase]
  · rw [timerFire, hremove, vecRemoveIf_fire, foundTimers]
    show Except.ok _ = _
    rw [Timer.handle, herase, hfind]
    rfl

/-- A wheel used on its own: it has no handlers, and is given a resolution and buckets. -/
def standaloneWheel (resolution : Nat) (timerBuckets : List (List Timer)) (tick : Nat) : WheelTimer :=
  { tick := tick, id := 0, resolution := resolution, wheelSize := timerBuckets.length,
    timerBuckets := timerBuckets, loopHandler := false, expiryHandler := false }

/-- The wheel as an array of one, with the next timer id and the calls made. -/
def standalone (w : WheelTimer) (nextTimerId : Nat) (calls : List Call) : TimerRuntime :=
  { wheels := [w], timerLen := 0, armed := false, nextTimerId := nextTimerId, calls := calls }

/-- Two visits put the timer back between its neighbours; there it is found. -/
theorem lookup_stable_put_back :
    let t₁ : Timer := { id := 1, expiryTime := 99, handler := 5, data := 8 }
    let t : Timer := { id := 2, expiryTime := 95, handler := 5, data := 6 }
    let t₃ : Timer := { id := 3, expiryTime := 96, handler := 5, data := 7 }
    let w := fun l tick => standaloneWheel 10 [[], l, [], []] tick
    let rt := fun l tick => standalone (w l tick) 4 []
    wheelTimerAddFrom (rt [t₁] 0) 0 t = .ok (rt [t₁, t] 0) ∧
      Lib.run wheelStep (rt [t₁, t] 0) (.addFrom 0 t₃ :: List.replicate 6 (.tick 0)) =
        .ok (rt [t₁, t, t₃] 6) ∧
      ∃ b l₁ l₂, (w [t₁, t, t₃] 6).timerBuckets[b]? = some (l₁ ++ t :: l₂) ∧
        timerAbort (rt [t₁, t, t₃] 6) 0 t.handle =
          .ok (standalone ((w [t₁, t, t₃] 6).setBucket b (l₁ ++ l₂)) 4 []) ∧
        timerFire (rt [t₁, t, t₃] 6) 0 t.handle =
          .ok (standalone ((w [t₁, t, t₃] 6).setBucket b (l₁ ++ l₂)) 4 [.timer t]) := by
  have hadd : wheelTimerAddFrom (standalone (standaloneWheel 10 [[], [⟨1, 99, 5, 8⟩], [], []] 0) 4 [])
      0 ⟨2, 95, 5, 6⟩ =
        .ok (standalone (standaloneWheel 10 [[], [⟨1, 99, 5, 8⟩, ⟨2, 95, 5, 6⟩], [], []] 0) 4 []) := rfl
  have hrun : Lib.run wheelStep
      (standalone (standaloneWheel 10 [[], [⟨1, 99, 5, 8⟩, ⟨2, 95, 5, 6⟩], [], []] 0) 4 [])
      (.addFrom 0 ⟨3, 96, 5, 7⟩ :: List.replicate 6 (.tick 0)) =
        .ok (standalone (standaloneWheel 10
          [[], [⟨1, 99, 5, 8⟩, ⟨2, 95, 5, 6⟩, ⟨3, 96, 5, 7⟩], [], []] 6) 4 []) := rfl
  refine ⟨hadd, hrun, ?_⟩
  refine lookup_stable ?_ rfl (by decide) (by decide) (by decide) (by decide) (by decide)
    (by decide) hadd hrun (by decide) rfl (by decide) (by decide) (by decide)
  intro k w hw
  match k with
  | 0 =>
    cases hw
    rfl

/-- When two ticks of a wheel have taken its time through 2^64, a timer still to come is looked for
in another bucket than the one it is in, and aborting it does nothing. -/
theorem lookup_misses :
    let t : Timer := { id := 2, expiryTime := 18446744073709551615, handler := 5, data := 6 }
    let w := fun l tick => standaloneWheel 9223372036854775809 [[], l, [], []] tick
    wheelTimerAddFrom (standalone (w [] 0) 3 []) 0 t = .ok (standalone (w [t] 0) 3 []) ∧
      Lib.run wheelStep (standalone (w [t] 0) 3 []) [.tick 0, .tick 0] =
        .ok (standalone (w [t] 2) 3 []) ∧
      (w [t] 2).time < t.expiryTime ∧
      timerAbort (standalone (w [t] 2) 3 []) 0 t.handle = .ok (standalone (w [t] 2) 3 []) :=
  ⟨rfl, rfl, by decide, rfl⟩

end Taskio
