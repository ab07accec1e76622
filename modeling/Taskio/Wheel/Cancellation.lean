import Taskio.Wheel.Delivery

/-!
# Cancelling timers, and counting them

`taskio_runtime_timer_abort` and `taskio_runtime_timer_fire` look for the timer in the wheel that
the *remaining* delay selects, while the timer stays in its wheel until its bucket comes up.

* `cancels_iff` — the timer is found exactly when its wheel is not coarser than that
* `timerLen_exact` — the count is exact in every run whose cancellations find their timers
-/

namespace Taskio

open Lib (Agenda)

variable {n : Nat} {rt rt' : TimerRuntime}

/-! ## Searching a bucket -/

/-- The timers that a cancellation calls, of those found in the bucket. -/
def foundTimers (l : List Timer) (handle : TimerHandle) : List Timer :=
  (l.find? fun t => t.id = handle.id).toList

theorem vecRemoveIf_abort (handle : TimerHandle) (l : List Timer) (calls : List Call) :
    vecRemoveIf (abortPredicate handle) l calls = (l.eraseP fun t => t.id = handle.id, calls) := by
  induction l with
  | nil => rfl
  | cons t l ih =>
    by_cases hid : t.id = handle.id
    · simp [vecRemoveIf, abortPredicate, hid]
    · simp [vecRemoveIf, abortPredicate, hid, ih]

theorem vecRemoveIf_fire (handle : TimerHandle) (l : List Timer) (calls : List Call) :
    vecRemoveIf (firePredicate handle) l calls =
      (l.eraseP fun t => t.id = handle.id, calls ++ (foundTimers l handle).map .timer) := by
  induction l with
  | nil => simp [vecRemoveIf, foundTimers]
  | cons t l ih =>
    by_cases hid : t.id = handle.id
    · simp [vecRemoveIf, firePredicate, foundTimers, hid]
    · simp [vecRemoveIf, firePredicate, foundTimers, hid, ih]

/-- What `eraseP` removes is the first element found. -/
theorem eraseP_split {p : Timer → Bool} {l : List Timer} {t : Timer} (h : l.find? p = some t) :
    ∃ l₁ l₂, l = l₁ ++ t :: l₂ ∧ l.eraseP p = l₁ ++ l₂ := by
  obtain ⟨hp, l₁, l₂, rfl, hnot⟩ := List.find?_eq_some_iff_append.mp h
  refine ⟨l₁, l₂, rfl, ?_⟩
  rw [List.eraseP_append_right _ fun b hb => by simpa using hnot b hb, List.eraseP_cons_of_pos hp]

theorem coe_eraseP (handle : TimerHandle) (l : List Timer) :
    (l : Multiset Timer) =
      (l.eraseP fun t => t.id = handle.id : List Timer) + (foundTimers l handle : Multiset Timer) := by
  rw [foundTimers]
  cases hfind : l.find? fun t => t.id = handle.id with
  | none =>
    rw [List.eraseP_of_forall_not fun a ha => List.find?_eq_none.mp hfind a ha]
    exact (add_zero _).symm
  | some t =>
    obtain ⟨l₁, l₂, rfl, herase⟩ := eraseP_split hfind
    rw [herase, Option.toList_some, Multiset.coe_add]
    exact Multiset.coe_eq_coe.mpr (List.perm_middle.trans (List.perm_append_singleton t _).symm)

/-- If the erased element is `t`, then `t` was found first. -/
theorem found_of_eraseP {t : Timer} {l₁ l₂ : List Timer}
    (h : (l₁ ++ t :: l₂).eraseP (fun x => x.id = t.id) = l₁ ++ l₂) :
    (l₁ ++ t :: l₂).find? (fun x => x.id = t.id) = some t := by
  cases hfind : (l₁ ++ t :: l₂).find? fun x => x.id = t.id with
  | none =>
    have hnot := List.find?_eq_none.mp hfind t (by simp)
    simp at hnot
  | some x =>
    have hfound : foundTimers (l₁ ++ t :: l₂) t.handle = [x] := by
      rw [foundTimers, Timer.handle, hfind]
      rfl
    have hsplit := coe_eraseP t.handle (l₁ ++ t :: l₂)
    rw [hfound, Timer.handle, h, Multiset.coe_eq_coe.mpr List.perm_middle, ← Multiset.cons_coe,
      add_comm, Multiset.coe_singleton, Multiset.singleton_add] at hsplit
    rw [(Multiset.cons_inj_left _).mp hsplit]

/-- The bucket that was searched lost the timer that was found. -/
theorem pending_eraseP {level b : Nat} {w : WheelTimer} {l : List Timer}
    (hw : rt.wheels[level]? = some w) (hb : w.timerBuckets[b]? = some l) (handle : TimerHandle) :
    rt.pending = (rt.modifyWheel level
        (·.setBucket b (l.eraseP fun t => t.id = handle.id))).pending +
      (foundTimers l handle : Multiset Timer) := by
  have hpend := pending_setBucket hw hb (l.eraseP fun t => t.id = handle.id)
  rw [coe_eraseP handle l, add_comm (Multiset.ofList (l.eraseP _)), ← add_assoc] at hpend
  exact (add_right_cancel hpend).symm

/-- What a cancellation takes out, and what it calls. -/
theorem timerStep_cancel (h : Valid n rt) {o : TimerOp} (ho : ¬ o.Undisturbed)
    (hstep : timerStep rt o = .ok rt') :
    ∃ lost called : List Timer, rt.pending = rt'.pending + (lost : Multiset Timer) ∧
      rt'.calls = rt.calls ++ called.map .timer ∧ called ⊆ lost := by
  cases o with
  | add delay handler data => exact absurd trivial ho
  | tick => exact absurd trivial ho
  | abort handle =>
    obtain ⟨rt₁, hremove, hcases⟩ := runtimeTimerRemove_cases abortPredicate h handle
    obtain rfl : rt' = rt₁ := Except.ok.inj (hstep.symm.trans hremove)
    rcases hcases with rfl | rfl | ⟨level, b, w, l, hw, hb, rfl⟩
    · exact ⟨[], [], by simp, by simp, by simp⟩
    · exact ⟨[], [], by simp [decreaseTimerLen_pending], by simp [decreaseTimerLen], by simp⟩
    · rw [vecRemoveIf_abort]
      exact ⟨foundTimers l handle, [], pending_eraseP hw hb handle, by simp [decreaseTimerLen],
        by simp⟩
  | fire handle =>
    obtain ⟨rt₁, hremove, hcases⟩ := runtimeTimerRemove_cases firePredicate h handle
    obtain rfl : rt' = rt₁ := Except.ok.inj (hstep.symm.trans hremove)
    rcases hcases with rfl | rfl | ⟨level, b, w, l, hw, hb, rfl⟩
    · exact ⟨[], [], by simp, by simp, by simp⟩
    · exact ⟨[], [], by simp [decreaseTimerLen_pending], by simp [decreaseTimerLen], by simp⟩
    · rw [vecRemoveIf_fire]
      exact ⟨foundTimers l handle, foundTimers l handle, pending_eraseP hw hb handle,
        by simp [decreaseTimerLen], by simp⟩

/-! ## A timer that is not stored -/

/-- Unless it is added again, `t` is never called after `rt`. -/
def NeverCalled (rt : TimerRuntime) (t : Timer) : Prop :=
  ∀ os rt', Lib.run timerStep rt os = .ok rt' → t ∉ addedTimers rt os →
    rt'.called.count t = rt.called.count t

/-- No operation calls a timer that is neither stored nor added by it. -/
theorem timerStep_absent (h : Valid n rt) (hn : n < wheelSpan) {o : TimerOp} {t : Timer}
    (ht : t ∉ rt.pending) (hadd : t ∉ Agenda.adds (agendaOp rt o))
    (hstep : timerStep rt o = .ok rt') :
    t ∉ rt'.pending ∧ rt'.called.count t = rt.called.count t := by
  by_cases ho : o.Undisturbed
  · cases o with
    | add delay handler data =>
      by_cases hd : delay.toNat = 0
      · rw [timerStep, runtimeAddTimer_zero hd] at hstep
        cases hstep
        refine ⟨ht, ?_⟩
        rw [called_append (show _ = rt.calls ++ [.direct handler data] from rfl)]
        simp [Call.timer?]
      · have hpos := Nat.pos_of_ne_zero hd
        by_cases hfit : n / wheelRes (findWheel delay.toNat) * wheelRes (findWheel delay.toNat)
            + delay.toNat < 2 ^ 64
        · obtain ⟨rt₁, hok, hv, hpend, hcalls, -⟩ := runtimeAddTimer_stored h hpos handler data hfit
          rw [timerStep, hok] at hstep
          cases hstep
          simp only [agendaOp, addedBy_eq hpos hok] at hadd
          have hne : t ≠ newTimer n rt delay handler data := by simpa [Agenda.adds] using hadd
          refine ⟨by rw [hpend, Multiset.mem_cons]; exact not_or.mpr ⟨hne, ht⟩, ?_⟩
          rw [TimerRuntime.called, hcalls]
          rfl
        · obtain ⟨rt₁, hok, hv, hpend, hcalls, -⟩ :=
            runtimeAddTimer_wrapped h hn hpos handler data hfit
          rw [timerStep, hok] at hstep
          cases hstep
          simp only [agendaOp, addedBy_eq hpos hok] at hadd
          have hne : t ≠ newTimer n rt delay handler data := by simpa [Agenda.adds] using hadd
          refine ⟨hpend ▸ ht, ?_⟩
          have hone : rt'.calls = rt.calls ++ [newTimer n rt delay handler data].map .timer := hcalls
          rw [called_fired hone, Multiset.count_add, Multiset.coe_singleton,
            Multiset.count_singleton, if_neg hne, Nat.add_zero]
    | tick =>
      obtain ⟨hn', hv'⟩ := timerStep_valid (o := .tick) h hn hstep
      obtain ⟨rt₁, fired, htick, -, hvisited, -⟩ := runtimeTick_spec h hn'
      rw [timerStep, htick] at hstep
      cases hstep
      have hsum := congrArg (Multiset.count t) hvisited.pending
      rw [Multiset.count_add, Multiset.coe_nil, add_zero, Multiset.count_eq_zero.mpr ht] at hsum
      rw [called_fired hvisited.calls, Multiset.count_add]
      exact ⟨Multiset.count_eq_zero.mp (by omega), by omega⟩
    | abort handle => exact absurd ho id
    | fire handle => exact absurd ho id
  · obtain ⟨lost, called, hpend, hcalls, hsub⟩ := timerStep_cancel h ho hstep
    rw [hpend, Multiset.mem_add, not_or] at ht
    refine ⟨ht.1, ?_⟩
    rw [called_fired hcalls, Multiset.count_add, Multiset.coe_count,
      List.count_eq_zero.mpr fun hm => ht.2 (Multiset.mem_coe.mpr (hsub hm)), Nat.add_zero]

theorem neverCalled (h : Valid n rt) (hn : n < wheelSpan) {t : Timer} (ht : t ∉ rt.pending) :
    NeverCalled rt t := by
  intro os
  induction os generalizing n rt with
  | nil => rintro _ ⟨⟩ _; rfl
  | cons o os ih =>
    intro rt₂ hrun hadd
    obtain ⟨rt₁, hstep, hrest⟩ := Lib.run_cons_eq_ok.mp hrun
    obtain ⟨hn₁, h₁⟩ := timerStep_valid h hn hstep
    simp only [addedTimers, agendaOps, hstep, Agenda.adds_append, Multiset.mem_add, not_or] at hadd
    obtain ⟨ht₁, hcount⟩ := timerStep_absent h hn ht hadd.1 hstep
    rw [ih h₁ hn₁ ht₁ rt₂ hrest hadd.2, hcount]

/-! ## Aborting and firing -/

/--
From `rt` to `rt'` bucket `b` of the wheel at `level` loses `t` and nothing else, all other buckets
stay as they are, `calls` are made, and `t`, if it was stored once, is never called from then on.
-/
structure Cancels (rt rt' : TimerRuntime) (level b : Nat) (t : Timer) (calls : List Call) :
    Prop where
  removed : ∃ w l₁ l₂, rt.wheels[level]? = some w ∧ w.timerBuckets[b]? = some (l₁ ++ t :: l₂) ∧
    rt'.wheels = rt.wheels.set level (w.setBucket b (l₁ ++ l₂))
  calls : rt'.calls = rt.calls ++ calls
  silent : rt.pending.count t = 1 → NeverCalled rt' t

section Search

variable {level b : Nat} {w : WheelTimer} {l : List Timer} {t : Timer}

/-- The search removes the timer when it looks in its wheel and meets no other of its id. -/
theorem removed_of_found (hw : rt.wheels[level]? = some w) (hb : w.timerBuckets[b]? = some l)
    (hfind : l.find? (fun x => x.id = t.id) = some t) :
    ∃ w l₁ l₂, rt.wheels[level]? = some w ∧ w.timerBuckets[b]? = some (l₁ ++ t :: l₂) ∧
      (rt.modifyWheel level (·.setBucket b (l.eraseP fun x => x.id = t.id))).wheels =
        rt.wheels.set level (w.setBucket b (l₁ ++ l₂)) := by
  obtain ⟨l₁, l₂, rfl, herase⟩ := eraseP_split hfind
  exact ⟨w, l₁, l₂, hw, hb, by rw [modifyWheel_eq_set hw, herase]⟩

/-- If the timer is gone, the search looked in its wheel and met no other of its id. -/
theorem found_of_removed {level' b' : Nat} {w' : WheelTimer} {l' : List Timer}
    (hw : rt.wheels[level]? = some w) (hb : w.timerBuckets[b]? = some l) (ht : t ∈ l)
    (hw' : rt.wheels[level']? = some w') (hb' : w'.timerBuckets[b']? = some l')
    (hplace : level' = level → b' = b)
    (hremoved : ∃ w l₁ l₂, rt.wheels[level]? = some w ∧
      w.timerBuckets[b]? = some (l₁ ++ t :: l₂) ∧
      (rt.modifyWheel level' (·.setBucket b' (l'.eraseP fun x => x.id = t.id))).wheels =
        rt.wheels.set level (w.setBucket b (l₁ ++ l₂))) :
    level' = level ∧ l.find? (fun x => x.id = t.id) = some t := by
  obtain ⟨w₀, l₁, l₂, hw₀, hb₀, heq⟩ := hremoved
  rw [hw] at hw₀
  cases hw₀
  rw [hb] at hb₀
  cases hb₀
  have hlt := (List.getElem?_eq_some_iff.mp hw).1
  have hblt := (List.getElem?_eq_some_iff.mp hb).1
  have hget := congrArg (·[level]?) heq
  simp only [TimerRuntime.modifyWheel_get, List.getElem?_set_self hlt, hw] at hget
  by_cases hlevel : level' = level
  · subst hlevel
    obtain rfl := hplace rfl
    rw [hw] at hw'
    cases hw'
    rw [hb] at hb'
    cases hb'
    refine ⟨rfl, ?_⟩
    rw [if_pos rfl, Option.map_some] at hget
    have hbuckets := congrArg (·.timerBuckets[b']?) (Option.some.inj hget)
    simp only [WheelTimer.setBucket, List.getElem?_set_self hblt, Option.some.injEq] at hbuckets
    exact found_of_eraseP hbuckets
  · exfalso
    rw [if_neg hlevel] at hget
    have hbuckets := congrArg (·.timerBuckets[b]?) (Option.some.inj hget)
    simp only [WheelTimer.setBucket, List.getElem?_set_self hblt, hb, Option.some.injEq] at hbuckets
    have hlen := congrArg List.length hbuckets
    simp at hlen

/-- One search, with `made` the calls of the predicate. -/
theorem cancels_search_iff (h : Valid n rt) (hn : n < wheelSpan)
    (hw : rt.wheels[level]? = some w) (hb : w.timerBuckets[b]? = some l) (ht : t ∈ l)
    {w' : WheelTimer} {l' : List Timer}
    (hw' : rt.wheels[findWheel (t.expiryTime - n)]? = some w')
    (hb' : w'.timerBuckets[t.expiryTime / wheelRes (findWheel (t.expiryTime - n)) %
      wheelLen (findWheel (t.expiryTime - n))]? = some l')
    {rt' : TimerRuntime} {made calls : List Call} (hv' : Valid n rt')
    (hrt' : rt' = decreaseTimerLen
      { rt.modifyWheel (findWheel (t.expiryTime - n))
          (·.setBucket (t.expiryTime / wheelRes (findWheel (t.expiryTime - n)) %
            wheelLen (findWheel (t.expiryTime - n))) (l'.eraseP fun x => x.id = t.id)) with
        calls := rt.calls ++ made })
    (hmade : l'.find? (fun x => x.id = t.id) = some t → made = calls) :
    Cancels rt rt' level b t calls ↔
      wheelRes level ≤ t.expiryTime - n ∧ l.find? (fun x => x.id = t.id) = some t := by
  have hplaced := (h.wheel level w hw).placed b l hb t ht
  have hlate := hplaced.now_lt
  have hlevel : level < 8 := h.count ▸ (List.getElem?_eq_some_iff.mp hw).1
  constructor
  · rintro ⟨hremoved, -, -⟩
    rw [hrt'] at hremoved
    obtain ⟨heq, hfind⟩ := found_of_removed hw hb ht hw' hb'
      (fun heq => by rw [heq]; exact hplaced.bucket) hremoved
    exact ⟨heq ▸ wheelRes_findWheel_le (by omega), hfind⟩
  · rintro ⟨hle, hfind⟩
    have heq : findWheel (t.expiryTime - n) = level :=
      findWheel_eq hlevel (by omega) hle fun hk => hplaced.remaining_lt hk
    rw [heq] at hw' hb' hrt'
    rw [hw] at hw'
    cases hw'
    rw [hplaced.bucket] at hb' hrt'
    rw [hb] at hb'
    cases hb'
    refine ⟨?_, ?_, ?_⟩
    · rw [hrt']
      exact removed_of_found hw hb hfind
    · rw [hrt', ← hmade hfind]
      rfl
    · intro honce
      refine neverCalled hv' hn ?_
      have hpend := pending_eraseP hw hb t.handle
      have hfound : foundTimers l t.handle = [t] := by
        rw [foundTimers, Timer.handle, hfind]
        rfl
      have hrest : rt.pending = rt'.pending + {t} := by
        rw [hfound] at hpend
        rw [hrt']
        exact hpend
      have hcount := congrArg (Multiset.count t) hrest
      rw [honce, Multiset.count_add, Multiset.count_singleton_self] at hcount
      exact Multiset.count_eq_zero.mp (by omega)

end Search

/--
**When cancelling through the handle finds the timer.** The wheel that holds the timer must not be
coarser than the delay that remains, and no other timer of its bucket may come before it under the
same id.
-/
theorem cancels_iff (nextTimerId : UInt64) (os : List TimerOp)
    (hrun : Lib.run timerStep (wheelSetup nextTimerId) os = .ok rt) {level b : Nat} {w : WheelTimer}
    {l : List Timer} {t : Timer} (hw : rt.wheels[level]? = some w)
    (hb : w.timerBuckets[b]? = some l) (ht : t ∈ l) :
    ∃ aborted fired, runtimeTimerAbort rt t.handle = .ok aborted ∧
      runtimeTimerFire rt t.handle = .ok fired ∧
      (Cancels rt aborted level b t [] ↔
        wheelRes level ≤ t.expiryTime - rt.now ∧ l.find? (fun x => x.id = t.id) = some t) ∧
      (Cancels rt fired level b t [.timer t] ↔
        wheelRes level ≤ t.expiryTime - rt.now ∧ l.find? (fun x => x.id = t.id) = some t) := by
  obtain ⟨hn, hv⟩ := reachable_valid hrun
  generalize rt.now = n at hn hv ⊢
  have hplaced := (hv.wheel level w hw).placed b l hb t ht
  have hlate := hplaced.now_lt
  obtain ⟨aborted, habort, hva⟩ := runtimeTimerRemove_valid abortPredicate hv t.handle
  obtain ⟨fired, hfire, hvf⟩ := runtimeTimerRemove_valid firePredicate hv t.handle
  refine ⟨aborted, fired, habort, hfire, ?_, ?_⟩
  · rcases runtimeTimerRemove_spec abortPredicate hv hn t.handle hplaced.fits with
      ⟨-, hdue⟩ | ⟨-, w', l', hw', hb', hremove⟩
    · exact absurd hdue (Nat.not_le.mpr hlate)
    · rw [habort, vecRemoveIf_abort] at hremove
      rw [← List.append_nil rt.calls] at hremove
      exact cancels_search_iff hv hn hw hb ht hw' hb' hva (Except.ok.inj hremove) fun _ => rfl
  · rcases runtimeTimerRemove_spec firePredicate hv hn t.handle hplaced.fits with
      ⟨-, hdue⟩ | ⟨-, w', l', hw', hb', hremove⟩
    · exact absurd hdue (Nat.not_le.mpr hlate)
    · rw [hfire, vecRemoveIf_fire] at hremove
      refine cancels_search_iff hv hn hw hb ht hw' hb' hvf (Except.ok.inj hremove) ?_
      intro hfind
      rw [foundTimers, Timer.handle, hfind]
      rfl

/-- The second of two timers in one bucket is aborted. -/
theorem cancels_iff_add :
    ∃ rt aborted, Lib.run timerStep (wheelSetup 0) [.add 5 7 8, .add 5 1 2, .add 20 3 4] = .ok rt ∧
      runtimeTimerAbort rt ⟨1, 5⟩ = .ok aborted ∧ Cancels rt aborted 0 5 ⟨1, 5, 1, 2⟩ [] := by
  obtain ⟨rt, hrun, hnow, w, hw, hb⟩ : ∃ rt,
      Lib.run timerStep (wheelSetup 0) [.add 5 7 8, .add 5 1 2, .add 20 3 4] = .ok rt ∧ rt.now = 0 ∧
      ∃ w, rt.wheels[0]? = some w ∧ w.timerBuckets[5]? = some [⟨0, 5, 7, 8⟩, ⟨1, 5, 1, 2⟩] :=
    ⟨_, rfl, rfl, _, rfl, rfl⟩
  obtain ⟨aborted, -, habort, -, hiff, -⟩ := cancels_iff 0 _ hrun hw hb
    (List.mem_cons_of_mem _ (List.mem_singleton.mpr rfl))
  refine ⟨rt, aborted, hrun, habort, hiff.mpr ?_⟩
  rw [hnow]
  decide

/-- A timer for 10 ms, aborted one tick later: it stays stored, and nine ticks later it is called. -/
theorem abort_misses :
    (∃ rt, Lib.run timerStep (wheelSetup 0) [.add 10 7 8, .tick, .abort ⟨0, 10⟩] = .ok rt ∧
      rt.stored = [⟨0, 10, 7, 8⟩]) ∧
    ∃ rt, Lib.run timerStep (wheelSetup 0)
        ([.add 10 7 8, .tick, .abort ⟨0, 10⟩] ++ List.replicate 9 .tick) = .ok rt ∧
      rt.calls = [.timer ⟨0, 10, 7, 8⟩] :=
  ⟨Lib.exists_ok_of_decide (by decide +kernel), Lib.exists_ok_of_decide (by decide +kernel)⟩

/-! ## Counting -/

/-- `timer_len` and the armed flag as they should be with `m` timers stored. -/
def clockOf (m : Nat) : Nat × Bool := (m, decide (0 < m))

theorem clockInc_clockOf {m : Nat} (h : m + 1 < 2 ^ 64) : clockInc (clockOf m) = clockOf (m + 1) := by
  rw [clockInc, clockOf, clockOf]
  simp only [sizeInc_of_lt h, Nat.succ_pos, decide_true, Prod.mk.injEq, true_and]
  split
  · rfl
  · exact decide_eq_true (by omega)

theorem clockDec_clockOf (m : Nat) : clockDec (clockOf (m + 1)) = clockOf m := by
  have hlen : sizeDec (m + 1) = m := sizeDec_of_pos (Nat.succ_pos m)
  rw [clockDec, clockOf, clockOf]
  simp only [hlen, Prod.mk.injEq, true_and]
  cases m with
  | zero => rfl
  | succ m => simp

theorem clockDec_iterate (j m : Nat) : clockDec^[j] (clockOf (m + j)) = clockOf m := by
  induction j with
  | zero => rfl
  | succ j ih => rw [Function.iterate_succ_apply, ← Nat.add_assoc, clockDec_clockOf, ih]

/-- The count and the armed flag say what is stored. -/
def Counted (rt : TimerRuntime) : Prop := rt.clock = clockOf rt.pending.card

/-- The operations that count rightly: a delay that is stored, a cancellation that finds a timer or
comes after its time. -/
def CountsRight (rt : TimerRuntime) : TimerOp → Prop
  | .add delay handler data => NoWrap rt (.add delay handler data) ∧ rt.stored.length + 1 < 2 ^ 64
  | .tick => True
  | .abort handle | .fire handle =>
    handle.expiryTime ≤ rt.now ∨
      ∃ level b t, rt.Holds level b t ∧ t.handle = handle ∧
        wheelRes level ≤ handle.expiryTime - rt.now

theorem stored_length (rt : TimerRuntime) : rt.stored.length = rt.pending.card :=
  (Multiset.coe_card _).symm

theorem cancel_counted
    (predicate : TimerHandle → Timer → List Call → Predicate × List Call) (h : Valid n rt)
    (hn : n < wheelSpan) (hc : Counted rt) {handle : TimerHandle}
    (hpred : ∀ l calls, (vecRemoveIf (predicate handle) l calls).1 =
      l.eraseP fun t => t.id = handle.id)
    (hgood : handle.expiryTime ≤ n ∨ ∃ level b t, rt.Holds level b t ∧ t.handle = handle ∧
      wheelRes level ≤ handle.expiryTime - n)
    (hstep : runtimeTimerRemove (fun rt level handle => timerRemove (predicate handle) rt level handle)
      rt handle = .ok rt') : Counted rt' := by
  by_cases hdue : handle.expiryTime ≤ n
  · obtain ⟨w, -, hw, hat⟩ := h.get (show 0 < 8 by omega)
    have hspan := wheelSpan_eq
    rw [runtimeTimerRemove, runtimeTime, hw] at hstep
    simp only [ok_bind, hat.tick_eq, hat.resolution, wheelRes_zero, Nat.div_one, Nat.mul_one] at hstep
    rw [u64_of_lt (by omega), if_pos hdue] at hstep
    cases hstep
    exact hc
  · obtain ⟨level, b, t, ⟨w, l, hw, hb, ht⟩, rfl, hle⟩ := hgood.resolve_left hdue
    have hplaced := (h.wheel level w hw).placed b l hb t ht
    have hlevel : level < 8 := h.count ▸ (List.getElem?_eq_some_iff.mp hw).1
    have heq : findWheel (t.handle.expiryTime - n) = level :=
      findWheel_eq hlevel (by omega) hle fun hk => hplaced.remaining_lt hk
    rcases runtimeTimerRemove_spec predicate h hn t.handle hplaced.fits with
      ⟨-, hdue'⟩ | ⟨-, w', l', hw', hb', hremove⟩
    · exact absurd hdue' hdue
    · rw [heq] at hw' hb' hremove
      rw [hw] at hw'
      cases hw'
      rw [show t.handle.expiryTime / wheelRes level % wheelLen level = b from hplaced.bucket]
        at hb' hremove
      rw [hb] at hb'
      cases hb'
      rw [hstep, hpred] at hremove
      cases hremove
      -- one timer less, one in the count
      have hpend := pending_eraseP hw hb t.handle
      obtain ⟨x, hx⟩ : ∃ x, foundTimers l t.handle = [x] := by
        rw [foundTimers]
        cases hfind : l.find? fun x => x.id = t.handle.id with
        | none =>
          have hnot := List.find?_eq_none.mp hfind t ht
          simp only [decide_eq_true_eq] at hnot
          exact absurd rfl hnot
        | some x => exact ⟨x, rfl⟩
      have hcard := congrArg Multiset.card hpend
      rw [hx, Multiset.card_add] at hcard
      have hclock : rt.clock = clockOf _ := hc
      rw [hcard] at hclock
      show clockDec rt.clock = clockOf _
      rw [hclock]
      exact clockDec_clockOf _

theorem timerStep_counted (h : Valid n rt) (hn : n < wheelSpan) (hc : Counted rt) {o : TimerOp}
    (hgood : CountsRight rt o) (hstep : timerStep rt o = .ok rt') : Counted rt' := by
  cases o with
  | add delay handler data =>
    by_cases hd : delay.toNat = 0
    · rw [timerStep, runtimeAddTimer_zero hd] at hstep
      cases hstep
      exact hc
    · obtain ⟨rt₁, hok, hv, hpend, -, hclock, -⟩ :=
        runtimeAddTimer_stored h (Nat.pos_of_ne_zero hd) handler data (hgood.1.fits h)
      rw [timerStep, hok] at hstep
      cases hstep
      have hlen := hgood.2
      rw [stored_length] at hlen
      rw [Counted, hclock, hc, clockInc_clockOf hlen, hpend, Multiset.card_cons]
  | tick =>
    obtain ⟨hn', -⟩ := timerStep_valid (o := .tick) h hn hstep
    obtain ⟨rt₁, fired, htick, -, hvisited, -⟩ := runtimeTick_spec h hn'
    rw [timerStep, htick] at hstep
    cases hstep
    have hcard := congrArg Multiset.card hvisited.pending
    rw [Multiset.card_add, Multiset.coe_nil, add_zero, Multiset.coe_card] at hcard
    rw [Counted, hvisited.clock, hc, ← hcard, clockDec_iterate]
  | abort handle =>
    have hgood' : handle.expiryTime ≤ rt.now ∨ _ := hgood
    rw [h.now_eq] at hgood'
    exact cancel_counted abortPredicate h hn hc (fun l calls => by rw [vecRemoveIf_abort]) hgood'
      hstep
  | fire handle =>
    have hgood' : handle.expiryTime ≤ rt.now ∨ _ := hgood
    rw [h.now_eq] at hgood'
    exact cancel_counted firePredicate h hn hc (fun l calls => by rw [vecRemoveIf_fire]) hgood'
      hstep

/--
**The count is exact** in every state of a run whose cancellations come late or look in the wheel
that holds the timer, whose expiry times do not wrap, and which never stores `2 ^ 64` timers: the
clock runs exactly while a timer is stored.
-/
theorem timerLen_exact (nextTimerId : UInt64) (os : List TimerOp)
    (hgood : Lib.Along timerStep CountsRight (wheelSetup nextTimerId) os)
    (hrun : Lib.run timerStep (wheelSetup nextTimerId) os = .ok rt) :
    rt.timerLen = rt.stored.length ∧ (rt.armed = true ↔ 0 < rt.stored.length) := by
  have hstart : Valid 0 (wheelSetup nextTimerId) ∧ Counted (wheelSetup nextTimerId) := by
    refine ⟨valid_setup nextTimerId, ?_⟩
    rw [Counted, pending_setup]
    rfl
  obtain ⟨-, -, -, hc⟩ : ∃ n, n < wheelSpan ∧ Valid n rt ∧ Counted rt := by
    refine Lib.run_invariant (I := fun rt => ∃ n, n < wheelSpan ∧ Valid n rt ∧ Counted rt) ?_
      ⟨0, by decide, hstart⟩ hgood hrun
    rintro s o s' ⟨n, hn, hv, hc⟩ hp hstep
    obtain ⟨hn', hv'⟩ := timerStep_valid hv hn hstep
    exact ⟨n + o.ticks, hn', hv', timerStep_counted hv hn hc hp hstep⟩
  rw [stored_length]
  refine ⟨congrArg Prod.fst hc, ?_⟩
  rw [show rt.armed = decide (0 < rt.pending.card) from congrArg Prod.snd hc, decide_eq_true_iff]

/-- Two timers, one of which is aborted a tick later. -/
theorem timerLen_exact_add_tick :
    ∃ rt, Lib.run timerStep (wheelSetup 0) [.add 5 7 8, .add 20 1 2, .tick, .abort ⟨1, 20⟩] =
        .ok rt ∧
      rt.timerLen = rt.stored.length ∧ (rt.armed = true ↔ 0 < rt.stored.length) := by
  have hgood : Lib.Along timerStep CountsRight (wheelSetup 0)
      [.add 5 7 8, .add 20 1 2, .tick, .abort ⟨1, 20⟩] := by
    refine Lib.along_cons ⟨?_, ?_⟩ rfl (Lib.along_cons ⟨?_, ?_⟩ rfl (Lib.along_cons trivial rfl
      (Lib.along_cons (Or.inr ⟨1, 2, ⟨1, 20, 1, 2⟩, ?_, rfl, ?_⟩) rfl trivial)))
    · rintro w ⟨⟩
      decide
    · decide +kernel
    · rintro w ⟨⟩
      decide
    · decide +kernel
    · exact ⟨_, _, rfl, rfl, by decide⟩
    · decide
  obtain ⟨rt, hrun, -⟩ :=
    run_ok [.add 5 7 8, .add 20 1 2, .tick, .abort ⟨1, 20⟩] (valid_setup 0) (by decide)
  exact ⟨rt, hrun, timerLen_exact 0 _ hgood hrun⟩

/-- After the abort that misses, the clock is stopped with a timer stored. -/
theorem abort_stops_clock :
    ∃ rt, Lib.run timerStep (wheelSetup 0) [.add 10 7 8, .tick, .abort ⟨0, 10⟩] = .ok rt ∧
      rt.timerLen = 0 ∧ rt.armed = false ∧ rt.stored.length = 1 :=
  Lib.exists_ok_of_decide (by decide +kernel)

end Taskio
