import Taskio.Wheel.Cancellation

/-!
# What the operations do to the stored timers

For users of the timers, who know them by their handles: the multiset of what is stored, and the calls
made. No two timers may be stored under one id.

* `Distinct` — no two timers are stored under one id
* `add_pending` / `tick_pending` — a timer more, or those of one expiry time less
* `remove_pending` — the timer of the handle less, if its wheel is not coarser than the delay that
  remains
-/

namespace Taskio

/-- What a call of a handler passes to it. -/
def Call.data : Call → Nat
  | .direct _ data => data
  | .timer t => t.data

/-- No two timers are stored under one id. -/
def TimerRuntime.Distinct (rt : TimerRuntime) : Prop := (rt.pending.map Timer.id).Nodup

variable {n : Nat} {rt rt' : TimerRuntime} {t t' : Timer}

theorem TimerRuntime.Distinct.eq (h : rt.Distinct) (ht : t ∈ rt.pending) (ht' : t' ∈ rt.pending)
    (hid : t.id = t'.id) : t = t' :=
  Multiset.inj_on_of_nodup_map h t ht t' ht' hid

theorem TimerRuntime.Distinct.nodup (h : rt.Distinct) : rt.pending.Nodup := Multiset.Nodup.of_map _ h

theorem TimerRuntime.Distinct.mono (h : rt.Distinct) (hle : rt'.pending ≤ rt.pending) : rt'.Distinct :=
  Multiset.nodup_of_le (Multiset.map_le_map hle) h

theorem TimerRuntime.Holds.mem {level b : Nat} (h : rt.Holds level b t) : t ∈ rt.pending := by
  obtain ⟨w, l, hw, hb, ht⟩ := h
  exact mem_pending.mpr ⟨level, w, b, l, hw, hb, ht⟩

theorem TimerRuntime.Distinct.holds (h : rt.Distinct) {level level' b b' : Nat}
    (ht : rt.Holds level b t) (ht' : rt.Holds level' b' t) : level = level' ∧ b = b' := by
  obtain ⟨p, -, honly⟩ := holds_unique (Multiset.count_eq_one_of_mem h.nodup ht.mem)
  exact Prod.mk.inj ((honly (level, b) ht).trans (honly (level', b') ht').symm)

/-! ## Adding and ticking -/

/-- The time that `taskio_wheel_timer_add` stores, as if it fitted in any number of bits. -/
def expiryFrom (n : Nat) (delay : UInt64) : Nat :=
  n / wheelRes (findWheel delay.toNat) * wheelRes (findWheel delay.toNat) + delay.toNat

/-- A timer is stored for later, or its handler is called at once. -/
theorem add_pending (h : Valid n rt) (hn : n < wheelSpan) (delay : UInt64) (handler data : Nat) :
    ∃ rt' handle, runtimeAddTimer rt delay handler data = .ok (rt', handle) ∧ Valid n rt' ∧
      (0 < delay.toNat ∧ expiryFrom n delay < 2 ^ 64 ∧ n < expiryFrom n delay ∧
          handle = ⟨rt.nextTimerId, expiryFrom n delay⟩ ∧ rt'.calls = rt.calls ∧
          rt'.pending = ⟨rt.nextTimerId, expiryFrom n delay, handler, data⟩ ::ₘ rt.pending ∧
          rt'.nextTimerId = u64 (rt.nextTimerId + 1) ∨
        (delay.toNat = 0 ∨ 2 ^ 64 ≤ expiryFrom n delay) ∧ handle.expiryTime ≤ n ∧
          rt'.pending = rt.pending ∧ (∃ call, rt'.calls = rt.calls ++ [call] ∧ call.data = data) ∧
          (rt'.nextTimerId = rt.nextTimerId ∨ rt'.nextTimerId = u64 (rt.nextTimerId + 1))) := by
  by_cases hd : delay.toNat = 0
  · exact ⟨_, _, runtimeAddTimer_zero hd handler data, ⟨h.count, h.wheel⟩,
      Or.inr ⟨Or.inl hd, Nat.zero_le n, rfl, ⟨_, rfl, rfl⟩, Or.inl rfl⟩⟩
  · have hpos := Nat.pos_of_ne_zero hd
    by_cases hfit : expiryFrom n delay < 2 ^ 64
    · obtain ⟨rt', hadd, hv, hpend, hcalls, -, hid, -⟩ :=
        runtimeAddTimer_stored h hpos handler data hfit
      have hnew : newTimer n rt delay handler data =
          ⟨rt.nextTimerId, expiryFrom n delay, handler, data⟩ := by
        rw [newTimer]
        exact congrArg (fun e => (⟨rt.nextTimerId, e, handler, data⟩ : Timer)) (u64_of_lt hfit)
      have hlate : n < (newTimer n rt delay handler data).expiryTime := newTimer_late hpos hfit
      rw [hnew] at hadd hpend hlate
      exact ⟨rt', _, hadd, hv, Or.inl ⟨hpos, hfit, hlate, rfl, hcalls, hpend, hid⟩⟩
    · obtain ⟨rt', hadd, hv, hpend, hcalls, hid⟩ :=
        runtimeAddTimer_wrapped h hn hpos handler data hfit
      refine ⟨rt', _, hadd, hv, Or.inr ⟨Or.inr (Nat.le_of_not_lt hfit), ?_, hpend, ⟨_, hcalls, rfl⟩,
        Or.inr hid⟩⟩
      have hlt : delay.toNat < 2 ^ 64 := delay.toNat_lt
      have hle := Nat.div_mul_le_self n (wheelRes (findWheel delay.toNat))
      have hspan := wheelSpan_eq
      show u64 _ ≤ n
      rw [expiryFrom] at hfit
      unfold u64
      omega

/-- The timers of the new tick are called, and the others stay. -/
theorem tick_pending (h : Valid n rt) (hn : n + 1 < wheelSpan) :
    ∃ (rt' : TimerRuntime) (fired : List Timer), runtimeTick rt = .ok rt' ∧ Valid (n + 1) rt' ∧
      rt'.calls = rt.calls ++ fired.map .timer ∧ rt'.nextTimerId = rt.nextTimerId ∧
      rt'.pending = rt.pending.filter (fun t => t.expiryTime ≠ n + 1) ∧
      (fired : Multiset Timer) = rt.pending.filter fun t => t.expiryTime = n + 1 := by
  obtain ⟨rt', fired, htick, hv, hvisited, hfired⟩ := runtimeTick_spec h hn
  obtain ⟨hpend, hdue⟩ := hvisited.split hv hfired
  exact ⟨rt', fired, htick, hv, hvisited.calls, hvisited.nextTimerId, hpend, hdue⟩

/-! ## Cancelling -/

/-- A cancellation that comes after the timer's time does nothing. -/
theorem remove_late (predicate : TimerHandle → Timer → List Call → Predicate × List Call)
    (h : Valid n rt) (hn : n < wheelSpan) {handle : TimerHandle} (hdue : handle.expiryTime ≤ n) :
    runtimeTimerRemove (fun rt level handle => timerRemove (predicate handle) rt level handle) rt
      handle = .ok rt := by
  have hspan := wheelSpan_eq
  rcases runtimeTimerRemove_spec predicate h hn handle (by omega) with ⟨hok, -⟩ | ⟨hlt, -⟩
  · exact hok
  · omega

/-- **A cancellation takes out the timer of the handle, and nothing else, if the wheel that holds it
is not coarser than the delay that remains.** Otherwise it takes out nothing. `made` are the calls
that it makes.
-/
theorem remove_pending {predicate : TimerHandle → Timer → List Call → Predicate × List Call}
    {handle : TimerHandle} (made : List Timer → List Call) (h : Valid n rt) (hn : n < wheelSpan)
    (hfit : handle.expiryTime < 2 ^ 64)
    (hown : ∀ t ∈ rt.pending, t.id = handle.id → t.handle = handle)
    (hpred : ∀ l calls, vecRemoveIf (predicate handle) l calls =
      (l.eraseP (fun t => t.id = handle.id), calls ++ made (foundTimers l handle)))
    (hnone : made [] = []) :
    ∃ rt', runtimeTimerRemove (fun rt level handle => timerRemove (predicate handle) rt level handle)
        rt handle = .ok rt' ∧ Valid n rt' ∧ rt'.nextTimerId = rt.nextTimerId ∧
      ((∃ level b t, rt.Holds level b t ∧ t.handle = handle ∧ wheelRes level ≤ t.expiryTime - n ∧
          rt.pending = t ::ₘ rt'.pending ∧ rt'.calls = rt.calls ++ made [t]) ∨
        (∀ level b t, rt.Holds level b t → t.handle = handle → ¬ wheelRes level ≤ t.expiryTime - n) ∧
          rt'.pending = rt.pending ∧ rt'.calls = rt.calls) := by
  obtain ⟨rt', hok, hv⟩ := runtimeTimerRemove_valid predicate h handle
  rcases runtimeTimerRemove_spec predicate h hn handle hfit with
    ⟨hsame, hdue⟩ | ⟨hlate, w, l, hw, hb, hremove⟩
  · obtain rfl : rt = rt' := Except.ok.inj (hsame.symm.trans hok)
    refine ⟨rt, hok, hv, rfl, Or.inr ⟨?_, rfl, rfl⟩⟩
    rintro level b t hholds rfl -
    have hlate := hv.now_lt hholds.mem
    exact absurd hdue (Nat.not_le.mpr hlate)
  · rw [hok, hpred] at hremove
    have hrt := Except.ok.inj hremove
    have hpend := pending_eraseP hw hb handle
    have hleft : rt'.pending = (rt.modifyWheel (findWheel (handle.expiryTime - n))
        (·.setBucket (handle.expiryTime / wheelRes (findWheel (handle.expiryTime - n)) %
          wheelLen (findWheel (handle.expiryTime - n)))
          (l.eraseP fun x => x.id = handle.id))).pending := by
      rw [hrt]
      rfl
    rw [← hleft] at hpend
    have hcalls : rt'.calls = rt.calls ++ made (foundTimers l handle) := by
      rw [hrt]
      rfl
    refine ⟨rt', hok, hv, by rw [hrt]; rfl, ?_⟩
    cases hfind : l.find? fun x => x.id = handle.id with
    | some t =>
      have hfound : foundTimers l handle = [t] := by
        rw [foundTimers, hfind]
        rfl
      have ht : t ∈ l := List.mem_of_find?_eq_some hfind
      have hid : t.id = handle.id := by simpa using List.find?_some hfind
      have hholds : rt.Holds (findWheel (handle.expiryTime - n)) _ t := ⟨w, l, hw, hb, ht⟩
      have hhandle := hown t hholds.mem hid
      have hexpiry : t.expiryTime = handle.expiryTime := congrArg TimerHandle.expiryTime hhandle
      refine Or.inl ⟨_, _, t, hholds, hhandle, ?_, ?_, ?_⟩
      · rw [hexpiry]
        exact wheelRes_findWheel_le (by omega)
      · rw [hpend, hfound, add_comm]
        rfl
      · rw [hcalls, hfound]
    | none =>
      have hfound : foundTimers l handle = [] := by
        rw [foundTimers, hfind]
        rfl
      refine Or.inr ⟨?_, ?_, ?_⟩
      · -- the search would have looked where the timer is
        rintro level b t ⟨w', l', hw', hb', ht⟩ rfl hle
        have hplaced := (h.wheel level w' hw').placed b l' hb' t ht
        have hlevel : level < 8 := h.count ▸ (List.getElem?_eq_some_iff.mp hw').1
        have heq : findWheel (t.handle.expiryTime - n) = level :=
          findWheel_eq hlevel (Nat.sub_pos_of_lt hlate) hle fun hk => hplaced.remaining_lt hk
        rw [heq, show t.handle.expiryTime / wheelRes level % wheelLen level = b from hplaced.bucket]
          at hb
        rw [heq, hw'] at hw
        cases hw
        rw [hb'] at hb
        cases hb
        have hnot := List.find?_eq_none.mp hfind t ht
        simp [Timer.handle] at hnot
      · rw [hpend, hfound]
        exact (add_zero _).symm
      · rw [hcalls, hfound, hnone, List.append_nil]

theorem abort_late (h : Valid n rt) (hn : n < wheelSpan) {handle : TimerHandle}
    (hdue : handle.expiryTime ≤ n) : runtimeTimerAbort rt handle = .ok rt :=
  remove_late abortPredicate h hn hdue

/-- An abort of a stored timer. -/
theorem abort_pending (h : Valid n rt) (hn : n < wheelSpan) (hids : rt.Distinct) {level b : Nat}
    (ht : rt.Holds level b t) :
    ∃ rt', runtimeTimerAbort rt t.handle = .ok rt' ∧ Valid n rt' ∧ rt'.calls = rt.calls ∧
      rt'.nextTimerId = rt.nextTimerId ∧
      (wheelRes level ≤ t.expiryTime - n ∧ rt.pending = t ::ₘ rt'.pending ∨
        ¬ wheelRes level ≤ t.expiryTime - n ∧ rt'.pending = rt.pending) := by
  obtain ⟨w, l, hw, hb, hl⟩ := ht
  have hplaced := (h.wheel level w hw).placed b l hb t hl
  have ht : rt.Holds level b t := ⟨w, l, hw, hb, hl⟩
  have hown : ∀ x ∈ rt.pending, x.id = t.handle.id → x.handle = t.handle := by
    intro x hx hid
    rw [hids.eq hx ht.mem hid]
  obtain ⟨rt', habort, hv, hid, hcases⟩ := remove_pending (fun _ => []) h hn hplaced.fits hown
    (fun l calls => by rw [vecRemoveIf_abort, List.append_nil]) rfl
  rcases hcases with ⟨level', b', x, hx, hhandle, hle, hpend, hcalls⟩ | ⟨hmiss, hpend, hcalls⟩
  · -- what is found is the timer, since no other has its id
    obtain rfl : x = t := hids.eq hx.mem ht.mem (congrArg TimerHandle.id hhandle)
    obtain ⟨rfl, -⟩ := hids.holds hx ht
    exact ⟨rt', habort, hv, by rw [hcalls, List.append_nil], hid, Or.inl ⟨hle, hpend⟩⟩
  · exact ⟨rt', habort, hv, hcalls, hid, Or.inr ⟨hmiss level b t ht rfl, hpend⟩⟩

/-! ## Ids -/

/-- The ids given so far are the `k` from `start` on, in 64 bits. -/
structure IdsFrom (start k : Nat) (rt : TimerRuntime) : Prop where
  next : rt.nextTimerId = u64 (start + k)
  stored : ∀ t ∈ rt.pending, ∃ j < k, t.id = u64 (start + j)

variable {start k : Nat}

/-- No id comes twice before all were given. -/
theorem u64_add_ne {j : Nat} (hk : k < 2 ^ 64) (hj : j < k) : u64 (start + k) ≠ u64 (start + j) := by
  intro heq
  have hmod : k ≡ j [MOD 2 ^ 64] := Nat.ModEq.add_left_cancel' _ heq
  have hkj := hmod.eq_of_lt_of_lt hk (by omega)
  omega

theorem IdsFrom.next_fresh (h : IdsFrom start k rt) (hk : k < 2 ^ 64) (ht : t ∈ rt.pending) :
    t.id ≠ rt.nextTimerId := by
  obtain ⟨j, hj, hid⟩ := h.stored t ht
  rw [hid, h.next]
  exact (u64_add_ne hk hj).symm

/-- An operation that gives no id. -/
theorem IdsFrom.same (h : IdsFrom start k rt) (hid : rt'.nextTimerId = rt.nextTimerId)
    (hsub : rt'.pending ⊆ rt.pending) : IdsFrom start k rt' :=
  ⟨hid.trans h.next, fun t ht => h.stored t (hsub ht)⟩

/-- An operation that gives one. -/
theorem IdsFrom.given (h : IdsFrom start k rt) (hid : rt'.nextTimerId = u64 (rt.nextTimerId + 1))
    (hsub : ∀ t ∈ rt'.pending, t ∈ rt.pending ∨ t.id = rt.nextTimerId) :
    IdsFrom start (k + 1) rt' := by
  refine ⟨?_, ?_⟩
  · rw [hid, h.next, u64, u64, u64, Nat.mod_add_mod]
    rfl
  · intro t ht
    rcases hsub t ht with ht | ht
    · obtain ⟨j, hj, hid⟩ := h.stored t ht
      exact ⟨j, by omega, hid⟩
    · exact ⟨k, Nat.lt_succ_self k, ht.trans h.next⟩

theorem idsFrom_setup (nextTimerId : UInt64) :
    IdsFrom nextTimerId.toNat 0 (wheelSetup nextTimerId) := by
  refine ⟨(u64_of_lt nextTimerId.toNat_lt).symm, ?_⟩
  intro t ht
  rw [pending_setup] at ht
  cases ht

/-- An operation gives one id at most. -/
theorem timerStep_ids (h : Valid n rt) (hn : n < wheelSpan) {o : TimerOp} (hids : IdsFrom start k rt)
    (hstep : timerStep rt o = .ok rt') : IdsFrom start k rt' ∨ IdsFrom start (k + 1) rt' := by
  have hcancel : ∀ (predicate : TimerHandle → Timer → List Call → Predicate × List Call) handle,
      timerStep rt o = runtimeTimerRemove
        (fun rt level handle => timerRemove (predicate handle) rt level handle) rt handle →
      ¬ o.Undisturbed → IdsFrom start k rt' := by
    intro predicate handle heq ho
    obtain ⟨rt₁, hremove, hcases⟩ := runtimeTimerRemove_cases predicate h handle
    obtain rfl : rt₁ = rt' := Except.ok.inj (hremove.symm.trans (heq.symm.trans hstep))
    obtain ⟨lost, called, hpend, -⟩ := timerStep_cancel h ho hstep
    refine hids.same ?_ (by rw [hpend]; exact Multiset.subset_of_le (Multiset.le_add_right _ _))
    rcases hcases with rfl | rfl | ⟨level, b, w, l, -, -, rfl⟩ <;> rfl
  cases o with
  | add delay handler data =>
    obtain ⟨rt₁, handle, hadd, -, hcases⟩ := add_pending h hn delay handler data
    rw [timerStep, hadd] at hstep
    cases hstep
    rcases hcases with ⟨-, -, -, -, -, hpend, hid⟩ | ⟨-, -, hpend, -, hid | hid⟩
    · refine Or.inr (hids.given hid ?_)
      intro t ht
      rw [hpend, Multiset.mem_cons] at ht
      rcases ht with rfl | ht
      · exact Or.inr rfl
      · exact Or.inl ht
    · exact Or.inl (hids.same hid (by rw [hpend]; exact Multiset.Subset.refl _))
    · exact Or.inr (hids.given hid fun t ht => Or.inl (by rwa [hpend] at ht))
  | tick =>
    obtain ⟨hn', -⟩ := timerStep_valid (o := .tick) h hn hstep
    obtain ⟨rt₁, fired, htick, -, -, hid, hpend, -⟩ := tick_pending h hn'
    obtain rfl : rt₁ = rt' := Except.ok.inj (htick.symm.trans hstep)
    exact Or.inl (hids.same hid (by rw [hpend]; exact Multiset.filter_subset _ _))
  | abort handle => exact Or.inl (hcancel abortPredicate handle rfl id)
  | fire handle => exact Or.inl (hcancel firePredicate handle rfl id)

end Taskio
