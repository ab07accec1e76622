import Taskio.Wheel.MemoryRuns

/-!
# `taskio_runtime_drop`

Each wheel destroys its buckets, and forgets them. What the wheels ever asked the allocator for is free
then, whatever is still stored.

* `Dropping` — the buckets up to some index have no buffer any more
* `timer_memory_released` — after any run no buffer is live
-/

namespace Taskio

variable {size : ℕ+} {bound : Nat} {vec : Vec} {timers : List Timer} {s : TimerMemory}
  {rt : TimerRuntime}

/-- The first `done` buckets are destroyed. -/
structure Dropping (size : ℕ+) (done : Nat) (vecs : VecSystem Timer) : Prop where
  refines : ∃ lists, VecsRefine lists vecs
  fits : vecs.Fits size
  tidy : vecs.Tidy
  destroyed : ∀ v < done, vecs.vecs v = some Vec.init
  moved : vecs.vecs timersLocal = some Vec.init
  buckets : ∀ v, vecs.vecs v ≠ none ↔ v ≤ timersLocal

theorem Rests.dropping (h : Rests size bound s rt) : Dropping size 0 s.vecs := by
  refine ⟨⟨_, h.refines⟩, h.fits, h.tidy, fun v hv => absurd hv (Nat.not_lt_zero v), h.moved, ?_⟩
  intro v
  rw [ne_eq, ← h.refines.same v, TimerRuntime.lists, List.getElem?_eq_none_iff, List.length_append,
    h.total, List.length_singleton]
  omega

/-- One bucket more is destroyed. -/
theorem Dropping.clear {done : Nat} {vecs : VecSystem Timer} (h : Dropping size done vecs)
    (hlt : done < timersLocal) :
    ∃ vecs', vecStep (σ := Unit) size vecs (.clear done) = .ok vecs' ∧
      Dropping size (done + 1) vecs' := by
  obtain ⟨lists, hrefines⟩ := h.refines
  obtain ⟨v, hv⟩ := Option.ne_none_iff_exists'.mp ((h.buckets done).mpr hlt.le)
  obtain ⟨vecs', hstep, hrefines', hfits, htidy, hvecs⟩ := vecStep_clear hrefines h.fits hv
  refine ⟨vecs', hstep, ⟨_, hrefines'⟩, hfits, htidy.mpr h.tidy, ?_, ?_, ?_⟩
  · intro i hi
    rw [hvecs]
    by_cases hlast : i = done
    · rw [hlast, Function.update_self]
    · rw [Function.update_of_ne hlast]
      exact h.destroyed i (by omega)
  · rw [hvecs, Function.update_of_ne (Nat.ne_of_gt hlt)]
    exact h.moved
  · intro i
    rw [hvecs, ← h.buckets i]
    by_cases hlast : i = done
    · rw [hlast, Function.update_self, hv]
      simp
    · rw [Function.update_of_ne hlast]

/-- The loop of `taskio_wheel_timer_drop` over the buckets from index `i`, of a wheel whose buckets
start at `start`. -/
theorem Dropping.clears {start : Nat} {w : WheelMemory} (hat : w.timerBuckets = some start) (n : Nat) :
    ∀ (i : Nat) (vecs : VecSystem Timer), Dropping size (start + i) vecs → start + i + n ≤ timersLocal →
      ∃ vecs', (List.range' i n).foldlM (fun vecs i => do
          let bucket ← TimerMemory.bucketAt w i
          vecStep (σ := Unit) size vecs (.clear bucket)) vecs = .ok vecs' ∧
        Dropping size (start + i + n) vecs' := by
  induction n with
  | zero => exact fun i vecs h _ => ⟨vecs, rfl, h⟩
  | succ n ih =>
    intro i vecs h hle
    obtain ⟨vecs₁, hstep, h₁⟩ := h.clear (by omega)
    obtain ⟨vecs₂, hrest, h₂⟩ := ih (i + 1) vecs₁ h₁ (by omega)
    refine ⟨vecs₂, ?_, ?_⟩
    · rw [List.range'_succ, List.foldlM_cons, TimerMemory.bucketAt, hat]
      simp only [ok_bind, hstep]
      exact hrest
    · have hnext : start + (i + 1) + n = start + i + (n + 1) := by omega
      rwa [hnext] at h₂

/-- The wheels below `level` are dropped. -/
structure DroppingWheels (size : ℕ+) (level : Nat) (s : TimerMemory) : Prop where
  buckets : Dropping size (bucketsStart level) s.vecs
  wheels : ∀ k, level ≤ k → k < wheelLevelSize → ∃ w, s.wheels[k]? = some w ∧
    w.timerBuckets = some (bucketsStart k) ∧ w.wheelSize = lengths.getD k 0

theorem bucketsStart_succ : ∀ level < wheelLevelSize,
    bucketsStart (level + 1) = bucketsStart level + lengths.getD level 0 ∧
      bucketsStart (level + 1) ≤ timersLocal := by decide

theorem Rests.droppingWheels (h : Rests size bound s rt) : DroppingWheels size 0 s := by
  refine ⟨Rests.dropping h, ?_⟩
  intro k _ hk
  have hlen : rt.wheels.length = wheelLevelSize := by
    have hlens := congrArg List.length h.lens
    rwa [List.length_map] at hlens
  have hw : rt.wheels[k]? = some rt.wheels[k] := List.getElem?_eq_getElem (hlen ▸ hk)
  refine ⟨rt.wheels[k].inMemory (bucketsStart k), by rw [h.wheels k, hw]; rfl, rfl, ?_⟩
  have hlens : (rt.wheels.map (·.timerBuckets.length))[k]? = lengths[k]? := by rw [h.lens]
  rw [List.getElem?_map, hw, Option.map_some] at hlens
  show rt.wheels[k].wheelSize = _
  rw [h.sizes k _ hw, List.getD_eq_getElem?_getD, ← hlens]
  rfl

/-- `taskio_wheel_timer_drop`. -/
theorem DroppingWheels.drop {level : Nat} (h : DroppingWheels size level s)
    (hlevel : level < wheelLevelSize) :
    ∃ s', s.wheelTimerDrop size level = .ok s' ∧ DroppingWheels size (level + 1) s' := by
  obtain ⟨w, hw, hat, hsize⟩ := h.wheels level (Nat.le_refl _) hlevel
  obtain ⟨hnext, hle⟩ := bucketsStart_succ level hlevel
  obtain ⟨vecs, hclears, hdropping⟩ := Dropping.clears hat w.wheelSize 0 s.vecs
    h.buckets (by omega)
  have hget : s.wheel level = .ok w := by rw [TimerMemory.wheel, hw]
  refine ⟨_, by rw [TimerMemory.wheelTimerDrop, hget, ok_bind, List.range_eq_range', hclears, ok_bind],
    ?_, ?_⟩
  · rwa [hnext, ← hsize]
  · intro k hk hlt
    obtain ⟨w', hw', hrest⟩ := h.wheels k (by omega) hlt
    refine ⟨w', ?_, hrest⟩
    have hne : level ≠ k := by omega
    simp only [TimerMemory.modifyWheel, List.getElem?_modify, if_neg hne]
    exact (id_map _).trans hw'

theorem DroppingWheels.drops (n : Nat) :
    ∀ (level : Nat) (s : TimerMemory), DroppingWheels size level s → level + n ≤ wheelLevelSize →
      ∃ s', (List.range' level n).foldlM (TimerMemory.wheelTimerDrop size) s = .ok s' ∧
        DroppingWheels size (level + n) s' := by
  induction n with
  | zero => exact fun level s h _ => ⟨s, rfl, h⟩
  | succ n ih =>
    intro level s h hle
    obtain ⟨s₁, hdrop, h₁⟩ := h.drop (by omega)
    obtain ⟨s₂, hrest, h₂⟩ := ih (level + 1) s₁ h₁ (by omega)
    refine ⟨s₂, ?_, ?_⟩
    · rw [List.range'_succ, List.foldlM_cons, hdrop]
      exact hrest
    · rwa [Nat.add_right_comm, Nat.add_assoc] at h₂

/-- When all buckets are destroyed, nothing has a buffer. -/
theorem Dropping.released {vecs : VecSystem Timer} (h : Dropping size timersLocal vecs) (a : Nat) :
    vecs.memory.live a = none := by
  by_contra hlive
  obtain ⟨v, vec, hv, hdata⟩ := h.tidy a hlive
  have hinit : vecs.vecs v = some Vec.init := by
    have hle := (h.buckets v).mp (by rw [hv]; exact Option.some_ne_none _)
    rcases Nat.lt_or_eq_of_le hle with hlt | rfl
    · exact h.destroyed v hlt
    · exact h.moved
  obtain rfl : vec = Vec.init := Option.some.inj (hv.symm.trans hinit)
  cases hdata

/-- **After any run `taskio_runtime_drop` frees every buffer of the wheels**, with the timers that are
still stored, and none twice. -/
theorem timer_memory_released (size : ℕ+) (addr : Nat → Nat) (nextTimerId : UInt64)
    (os : List TimerOp) (hlimit : size * (16 + 2 * os.length) < 2 ^ 64) {s : TimerMemory}
    (hrun : Lib.run (timerMemoryStep size addr) (timerMemory nextTimerId) os = .ok s) :
    ∃ s', s.runtimeDrop size = .ok s' ∧ ∀ a, s'.vecs.memory.live a = none := by
  obtain ⟨rt, -, h⟩ := (timerMemory_alike size addr nextTimerId os hlimit).ok_of_ends hrun
  obtain ⟨s', hdrop, h'⟩ := DroppingWheels.drops wheelLevelSize 0 s (Rests.droppingWheels h)
    (Nat.le_of_eq (Nat.zero_add _))
  exact ⟨s', hdrop, Dropping.released h'.buckets⟩

/-- Two timers are stored, in different wheels, when the runtime is dropped. -/
theorem timer_memory_released_pending :
    ∃ s, Lib.run (timerMemoryStep 32 id) (timerMemory 0) [.add 5 1 2, .tick, .add 3000 1 2] = .ok s ∧
      (s.vecs.memory.live 1).isSome = true ∧
      ∃ s', s.runtimeDrop 32 = .ok s' ∧ ∀ a, s'.vecs.memory.live a = none := by
  obtain ⟨s, hrun, hlive⟩ := Lib.exists_ok_of_decide
    (p := fun s : TimerMemory => (s.vecs.memory.live 1).isSome = true)
    (r := Lib.run (timerMemoryStep 32 id) (timerMemory 0) [.add 5 1 2, .tick, .add 3000 1 2])
    (by decide +kernel)
  exact ⟨s, hrun, hlive, timer_memory_released 32 id 0 _ (by decide) hrun⟩

end Taskio
