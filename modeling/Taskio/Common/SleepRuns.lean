import Taskio.Common.Sleep

/-!
# Sleeps and their timers

The wheels point into the futures of sleeps. A timer that outlives its future calls a waker in memory
that is used for something else by then.

* `OwnTimers` — every stored timer is the one of a sleep that waits
* `SleepKeeps` — a sleep is polled again only after its handler was called, and no cleanup looks for its
  timer in the wrong wheel
* `sleeps_own_timers_iff` — the runs that keep the one are those whose steps are the other
* `sleep_woken_once` — in such a run a sleep wakes its waker once, in the tick of its time
-/

namespace Taskio

/-- Every stored timer is that of a sleep in memory, which was polled once and has its handle. -/
def OwnTimers (s : SleepSystem) : Prop :=
  ∀ t ∈ s.timers.pending, ∃ future, s.futures t.data = some future ∧ future.counter = 1 ∧
    future.handle = t.handle

/-- A second poll comes when the timer is not stored any more; a cleanup looks for the timer in a
wheel as coarse as the one that holds it; and the last wheel does not complete its revolution. -/
def SleepKeeps (s : SleepSystem) : SleepOp → Prop
  | .sleep _ _ => True
  | .poll f _ => ∀ future, s.futures f = some future → future.counter = 1 →
      ∀ t ∈ s.timers.pending, t.handle ≠ future.handle
  | .cleanup f => ∀ future, s.futures f = some future →
      ∀ level b t, s.timers.Holds level b t → t.handle = future.handle →
        wheelRes level ≤ t.expiryTime - s.timers.now
  | .tick => s.timers.now + 1 < wheelSpan

/-- The next id is not that of a stored timer. -/
def FreshId (s : SleepSystem) (_ : SleepOp) : Prop :=
  ∀ t ∈ s.timers.pending, t.id ≠ s.timers.nextTimerId

/-- What is always true of the sleeps in memory: their polls so far, and the timers of those that
wait. -/
structure SleepsSound (n : Nat) (s : SleepSystem) : Prop where
  valid : Valid n s.timers
  time : n < wheelSpan
  distinct : s.timers.Distinct
  futures : ∀ f future, s.futures f = some future →
    future.counter = 0 ∧ future.handle = ⟨0, 0⟩ ∨
    future.counter = 1 ∧ (future.handle.expiryTime ≤ n ∨
      ∃ t ∈ s.timers.pending, t.handle = future.handle ∧ t.data = f)

/-- The waker that a handler finds at an address. -/
def SleepSystem.wakerAt (s : SleepSystem) (f : Nat) : Nat :=
  match s.futures f with
  | some future => future.waker
  | none => 0

variable {n f waker : Nat} {s s' : SleepSystem} {future : SleepFuture} {timers : TimerRuntime}

@[simp] theorem futures_setFuture_self (s : SleepSystem) (f : Nat) (a : Option SleepFuture) :
    (s.setFuture f a).futures f = a := Function.update_self ..

theorem futures_setFuture_ne {g : Nat} (h : g ≠ f) (s : SleepSystem) (a : Option SleepFuture) :
    (s.setFuture f a).futures g = s.futures g := Function.update_of_ne h _ _

/-! ## Handlers -/

/-- Handlers that find their futures in memory. -/
theorem foldlM_taskioSleepHandler (made : List Call) (s : SleepSystem)
    (hmade : ∀ c ∈ made, s.futures c.data ≠ none) :
    made.foldlM (fun s c => taskioSleepHandler s c.data) s =
      .ok { s with woken := s.woken ++ made.map fun c => (c.data, s.wakerAt c.data) } := by
  induction made generalizing s with
  | nil => simp [pure, Except.pure]
  | cons c made ih =>
    obtain ⟨future, hfuture⟩ := Option.ne_none_iff_exists'.mp (hmade c (by simp))
    have hstep : taskioSleepHandler s c.data =
        .ok { s with woken := s.woken ++ [(c.data, s.wakerAt c.data)] } := by
      rw [taskioSleepHandler, SleepSystem.wakerAt, hfuture]
    rw [List.foldlM_cons, hstep, ok_bind, ih]
    · simp only [List.map_cons, List.append_assoc, List.singleton_append]
      rfl
    · intro c' hc'
      exact hmade c' (List.mem_cons_of_mem _ hc')

/-- The handlers of the calls that the wheels made. -/
theorem runHandlers_eq {made : List Call} (hcalls : timers.calls = s.timers.calls ++ made)
    (hmade : ∀ c ∈ made, s.futures c.data ≠ none) :
    runHandlers s timers = .ok { s with
      timers := timers
      woken := s.woken ++ made.map fun c => (c.data, s.wakerAt c.data) } := by
  rw [runHandlers, hcalls, List.drop_left]
  exact foldlM_taskioSleepHandler made { s with timers := timers } hmade

theorem runHandlers_none (hcalls : timers.calls = s.timers.calls) :
    runHandlers s timers = .ok { s with timers := timers } := by
  rw [runHandlers, hcalls, List.drop_length]
  rfl

/-! ## The polls -/

theorem setFuture_future (s : SleepSystem) (f : Nat) (future : SleepFuture) :
    (s.setFuture f (some future)).future f = .ok future := by
  rw [SleepSystem.future, futures_setFuture_self]

theorem setFuture_setFuture (s : SleepSystem) (f : Nat) (a b : Option SleepFuture) :
    (s.setFuture f a).setFuture f b = s.setFuture f b := by
  simp only [SleepSystem.setFuture, Function.update_idem]

theorem future_eq_ok (h : s.futures f = some future) : s.future f = .ok future := by
  rw [SleepSystem.future, h]

/-- The future after its first poll. -/
def SleepFuture.waiting (ms : UInt64) (waker : Nat) (handle : TimerHandle) : SleepFuture :=
  { counter := 1, ms := ms, waker := waker, timerId := handle.id, timerExpiryTime := handle.expiryTime }

/-- The first poll adds a timer, and the handlers run that this called. -/
theorem sleepPoll_add (hf : s.futures f = some future) (hc : future.counter = 0) (waker : Nat)
    {handle : TimerHandle}
    (hadd : runtimeAddTimer s.timers future.ms sleepHandlerAddr f = .ok (timers, handle)) :
    sleepPoll s f waker = (do
      let s₂ ← runHandlers (s.setFuture f (some { future with counter := 1, waker := waker })) timers
      .ok (s₂.setFuture f (some (SleepFuture.waiting future.ms waker handle)))) := by
  rw [sleepPoll, future_eq_ok hf, ok_bind, hc]
  dsimp only
  rw [taskioSleepPoll, setFuture_future, ok_bind]
  dsimp only
  rw [if_neg (by decide), if_pos rfl, setFuture_setFuture]
  have hadd' : runtimeAddTimer
      (s.setFuture f (some { future with counter := 1, waker := waker })).timers future.ms
        sleepHandlerAddr f = .ok (timers, handle) := hadd
  simp only [Nat.zero_add, hadd', ok_bind]
  cases runHandlers (s.setFuture f (some { future with counter := 1, waker := waker })) timers with
  | error e => rfl
  | ok s₂ => rfl

/-- The first poll stores a timer, or its handler is called in it. -/
theorem sleepPoll_first (h : SleepsSound n s) (hf : s.futures f = some future)
    (hc : future.counter = 0) (waker : Nat) :
    ∃ timers handle, Valid n timers ∧
      (expiryFrom n future.ms < 2 ^ 64 ∧ n < expiryFrom n future.ms ∧
          handle = ⟨s.timers.nextTimerId, expiryFrom n future.ms⟩ ∧
          timers.pending = ⟨s.timers.nextTimerId, expiryFrom n future.ms, sleepHandlerAddr, f⟩ ::ₘ
            s.timers.pending ∧
          timers.nextTimerId = u64 (s.timers.nextTimerId + 1) ∧
          sleepPoll s f waker = .ok ({ s with timers := timers }.setFuture f
            (some (SleepFuture.waiting future.ms waker handle))) ∨
        (future.ms.toNat = 0 ∨ 2 ^ 64 ≤ expiryFrom n future.ms) ∧ handle.expiryTime ≤ n ∧
          timers.pending = s.timers.pending ∧
          (timers.nextTimerId = s.timers.nextTimerId ∨
            timers.nextTimerId = u64 (s.timers.nextTimerId + 1)) ∧
          sleepPoll s f waker = .ok ({ s with
            timers := timers, woken := s.woken ++ [(f, waker)] }.setFuture f
              (some (SleepFuture.waiting future.ms waker handle)))) := by
  obtain ⟨timers, handle, hadd, hv, hcases⟩ :=
    add_pending h.valid h.time future.ms sleepHandlerAddr f
  refine ⟨timers, handle, hv, ?_⟩
  have hpoll := sleepPoll_add hf hc waker hadd
  have hself : (s.setFuture f (some { future with counter := 1, waker := waker })).futures f =
      some { future with counter := 1, waker := waker } := futures_setFuture_self ..
  rcases hcases with ⟨-, hfit, hlate, hhandle, hcalls, hpend, hid⟩ |
    ⟨hwhen, hdue, hpend, ⟨call, hcalls, hdata⟩, hid⟩
  · refine Or.inl ⟨hfit, hlate, hhandle, hpend, hid, ?_⟩
    have hnone : timers.calls =
        (s.setFuture f (some { future with counter := 1, waker := waker })).timers.calls := hcalls
    rw [hpoll, runHandlers_none hnone, ok_bind]
    simp only [SleepSystem.setFuture, Function.update_idem]
  · refine Or.inr ⟨hwhen, hdue, hpend, hid, ?_⟩
    have hmade : timers.calls =
        (s.setFuture f (some { future with counter := 1, waker := waker })).timers.calls ++ [call] :=
      hcalls
    rw [hpoll, runHandlers_eq hmade, ok_bind]
    · simp only [SleepSystem.setFuture, Function.update_idem, List.map_singleton, hdata,
        SleepSystem.wakerAt, Function.update_self]
    · intro c hc
      rw [List.mem_singleton.mp hc, hdata, hself]
      exact Option.some_ne_none _

/-- The second poll ends the sleep, whatever has become of its timer. -/
theorem sleepPoll_second (hf : s.futures f = some future) (hc : future.counter = 1) (waker : Nat) :
    sleepPoll s f waker = .ok (s.setFuture f none) := by
  rw [sleepPoll, future_eq_ok hf, ok_bind, hc]
  dsimp only
  rw [taskioSleepPoll, setFuture_future, ok_bind]
  dsimp only
  rw [if_neg (by decide), if_neg (by decide), if_pos rfl, setFuture_setFuture]
  simp only [ok_bind]
  rw [sleepCleanup, setFuture_future, ok_bind, setFuture_setFuture, taskioSleepPoll, setFuture_future,
    ok_bind]
  dsimp only
  rw [if_pos rfl, if_neg (by simp [timerValid, SleepFuture.handle])]
  simp only [ok_bind, setFuture_setFuture]

/-- A cleanup aborts the timer of the handle, if there is one. -/
theorem sleepCleanup_eq (hf : s.futures f = some future) :
    sleepCleanup s f =
      if timerValid future.handle then do
        let timers ← runtimeTimerAbort s.timers future.handle
        let s₁ ← runHandlers (s.setFuture f (some { future with counter := futureClrVal })) timers
        .ok (s₁.setFuture f none)
      else .ok (s.setFuture f none) := by
  rw [sleepCleanup, future_eq_ok hf, ok_bind, taskioSleepPoll, setFuture_future, ok_bind]
  dsimp only
  rw [if_pos rfl]
  show (if timerValid future.handle then _ else _) >>= _ = _
  by_cases hvalid : timerValid future.handle = true
  · rw [if_pos hvalid, if_pos hvalid]
    show (runtimeTimerAbort s.timers future.handle >>= _) >>= _ = _
    cases runtimeTimerAbort s.timers future.handle with
    | error e => rfl
    | ok timers =>
      simp only [ok_bind]
      cases runHandlers (s.setFuture f (some { future with counter := futureClrVal })) timers with
      | error e => rfl
      | ok s₁ => rfl
  · rw [if_neg hvalid, if_neg hvalid]
    simp only [ok_bind, setFuture_setFuture]

/-- An abort calls no handler. -/
theorem sleepCleanup_abort (hf : s.futures f = some future) (hvalid : timerValid future.handle = true)
    (habort : runtimeTimerAbort s.timers future.handle = .ok timers)
    (hcalls : timers.calls = s.timers.calls) :
    sleepCleanup s f = .ok ({ s with timers := timers }.setFuture f none) := by
  have hnone : timers.calls =
      (s.setFuture f (some { future with counter := futureClrVal })).timers.calls := hcalls
  rw [sleepCleanup_eq hf, if_pos hvalid, habort, ok_bind, runHandlers_none hnone, ok_bind]
  simp only [SleepSystem.setFuture, Function.update_idem]

/-! ## One step -/

/-- Of the stored timers, the one of a sleep is the one with its handle. -/
theorem SleepsSound.data_of_handle (h : SleepsSound n s) (hf : s.futures f = some future) {t : Timer}
    (ht : t ∈ s.timers.pending) (hhandle : t.handle = future.handle) : t.data = f := by
  have hlate := h.valid.now_lt ht
  have hexpiry : t.expiryTime = future.handle.expiryTime := congrArg TimerHandle.expiryTime hhandle
  rcases h.futures f future hf with ⟨-, hzero⟩ | ⟨-, hdue | ⟨t', ht', hhandle', hdata⟩⟩
  · have hexpiry : t.expiryTime = 0 := by rw [hexpiry, hzero]
    omega
  · omega
  · have hid : t.id = t'.id := congrArg TimerHandle.id (hhandle.trans hhandle'.symm)
    rw [h.distinct.eq ht ht' hid]
    exact hdata

theorem OwnTimers.handle_of_data (hown : OwnTimers s) (hf : s.futures f = some future) {t : Timer}
    (ht : t ∈ s.timers.pending) (hdata : t.data = f) : t.handle = future.handle := by
  obtain ⟨future', hf', -, hhandle⟩ := hown t ht
  rw [hdata, hf] at hf'
  cases hf'
  exact hhandle.symm

/-- A sleep leaves the memory. -/
theorem own_removed (hown : OwnTimers s) (hsub : timers.pending ⊆ s.timers.pending) :
    OwnTimers ({ s with timers := timers }.setFuture f none) ↔
      ∀ t ∈ timers.pending, t.data ≠ f := by
  constructor
  · rintro hown' t ht rfl
    obtain ⟨future, hf, -⟩ := hown' t ht
    simp at hf
  · intro hne t ht
    obtain ⟨future, hf, hrest⟩ := hown t (hsub ht)
    exact ⟨future, (futures_setFuture_ne (hne t ht) ..).trans hf, hrest⟩

theorem SleepsSound.removed (h : SleepsSound n s) (hv : Valid n timers)
    (hle : timers.pending ≤ s.timers.pending)
    (hkeep : ∀ t ∈ s.timers.pending, t.data ≠ f → t ∈ timers.pending) :
    SleepsSound n ({ s with timers := timers }.setFuture f none) := by
  refine ⟨hv, h.time, h.distinct.mono hle, ?_⟩
  intro g future hg
  have hgf : g ≠ f := by
    rintro rfl
    simp at hg
  have hg : s.futures g = some future := (futures_setFuture_ne hgf ..).symm.trans hg
  refine (h.futures g future hg).imp_right (And.imp_right (Or.imp_right ?_))
  rintro ⟨t, ht, hhandle, rfl⟩
  exact ⟨t, hkeep t ht hgf, hhandle, rfl⟩

/-- A sleep that waits comes into memory, with its timer or without one. -/
theorem SleepsSound.waits (h : SleepsSound n s) (hv : Valid n timers) (hids : timers.Distinct)
    (hsub : s.timers.pending ⊆ timers.pending) {handle : TimerHandle} {ms : UInt64}
    {woken : List (Nat × Nat)}
    (hhandle : handle.expiryTime ≤ n ∨ ∃ t ∈ timers.pending, t.handle = handle ∧ t.data = f) :
    SleepsSound n ({ s with timers := timers, woken := woken }.setFuture f
      (some (SleepFuture.waiting ms waker handle))) := by
  refine ⟨hv, h.time, hids, ?_⟩
  intro g future hg
  by_cases hgf : g = f
  · subst hgf
    obtain rfl : SleepFuture.waiting ms waker handle = future :=
      Option.some.inj ((futures_setFuture_self ..).symm.trans hg)
    exact Or.inr ⟨rfl, hhandle⟩
  · have hg : s.futures g = some future := (futures_setFuture_ne hgf ..).symm.trans hg
    refine (h.futures g future hg).imp_right (And.imp_right (Or.imp_right ?_))
    rintro ⟨t, ht, hrest⟩
    exact ⟨t, hsub ht, hrest⟩

/-- The ticks of an operation. -/
def SleepOp.ticks : SleepOp → Nat
  | .tick => 1
  | .sleep _ _ | .poll _ _ | .cleanup _ => 0

/-- The operation is one of the sleep at `f`. -/
def SleepOp.Uses (f : Nat) : SleepOp → Prop
  | .sleep g _ | .poll g _ | .cleanup g => g = f
  | .tick => False

/-- The wakers that the handler read in the sleep at `f`, oldest first. -/
def SleepSystem.wakesOf (s : SleepSystem) (f : Nat) : List Nat :=
  (s.woken.filter fun call => call.1 = f).map Prod.snd

/-- What a step does: it ends with the timers owned exactly if it meets `SleepKeeps`, and with the state
sound; and it leaves the other sleeps alone, but for the wakers that a tick calls. -/
structure SleepStepped (n : Nat) (s : SleepSystem) (o : SleepOp) (s' : SleepSystem) : Prop where
  own : OwnTimers s' ↔ SleepKeeps s o
  sound : SleepKeeps s o → SleepsSound (n + o.ticks) s'
  others : ∀ g, ¬ o.Uses g → s'.futures g = s.futures g
  wakes : o ≠ .tick → ∀ g, ¬ o.Uses g → s'.wakesOf g = s.wakesOf g

theorem wakesOf_called {g : Nat} (hg : ¬ f = g) (waker : Nat) (a : Option SleepFuture) :
    ({ s with timers := timers, woken := s.woken ++ [(f, waker)] }.setFuture f a).wakesOf g =
      s.wakesOf g := by
  simp [SleepSystem.wakesOf, SleepSystem.setFuture, List.filter_append, hg]

theorem sleep_stepped (h : SleepsSound n s) (hown : OwnTimers s) {ms : UInt64}
    (hf : s.futures f = none) :
    SleepStepped n s (.sleep f ms) (s.setFuture f (some (SleepFuture.init ms))) := by
  refine ⟨?_, ?_, fun g hg => futures_setFuture_ne (Ne.symm hg) .., fun _ g _ => rfl⟩
  · refine ⟨fun _ => trivial, ?_⟩
    intro _ t ht
    obtain ⟨future, hfuture, hrest⟩ := hown t ht
    have hne : t.data ≠ f := by
      rintro rfl
      rw [hf] at hfuture
      cases hfuture
    exact ⟨future, (futures_setFuture_ne hne ..).trans hfuture, hrest⟩
  · intro _
    refine ⟨h.valid, h.time, h.distinct, ?_⟩
    intro g future hg
    by_cases hgf : g = f
    · subst hgf
      obtain rfl : SleepFuture.init ms = future :=
        Option.some.inj ((futures_setFuture_self ..).symm.trans hg)
      exact Or.inl ⟨rfl, rfl⟩
    · exact h.futures g future ((futures_setFuture_ne hgf ..).symm.trans hg)

theorem poll_stepped (h : SleepsSound n s) (hown : OwnTimers s) (hf : s.futures f = some future)
    (hfresh : ∀ t ∈ s.timers.pending, t.id ≠ s.timers.nextTimerId) :
    ∃ s', sleepPoll s f waker = .ok s' ∧ SleepStepped n s (.poll f waker) s' := by
  rcases h.futures f future hf with ⟨hzero, -⟩ | ⟨hone, -⟩
  · have hkeeps : SleepKeeps s (.poll f waker) := by
      intro future' hf' hone
      rw [hf] at hf'
      cases hf'
      omega
    -- no stored timer points to a sleep that was not polled
    have hnone : ∀ t ∈ s.timers.pending, t.data ≠ f := by
      intro t ht hdata
      obtain ⟨future', hf', hone, -⟩ := hown t ht
      rw [hdata, hf] at hf'
      cases hf'
      omega
    have hothers : ∀ (timers : TimerRuntime) (woken : List (Nat × Nat)) (waiting : SleepFuture),
        ∀ t ∈ s.timers.pending, ∃ future, ({ s with timers := timers, woken := woken }.setFuture f
          (some waiting)).futures t.data = some future ∧ future.counter = 1 ∧
          future.handle = t.handle := by
      intro timers woken waiting t ht
      obtain ⟨future', hf', hrest⟩ := hown t ht
      exact ⟨future', (futures_setFuture_ne (hnone t ht) ..).trans hf', hrest⟩
    obtain ⟨timers, handle, hv, ⟨-, -, rfl, hpend, -, hpoll⟩ | ⟨-, hdue, hpend, -, hpoll⟩⟩ :=
      sleepPoll_first h hf hzero waker
    · refine ⟨_, hpoll, ⟨fun _ => hkeeps, ?_⟩, ?_,
        fun g hg => futures_setFuture_ne (Ne.symm hg) .., fun _ g _ => rfl⟩
      · intro _ t ht
        have ht : t ∈ timers.pending := ht
        rw [hpend] at ht
        rcases Multiset.mem_cons.mp ht with rfl | ht
        · exact ⟨_, futures_setFuture_self .., rfl, rfl⟩
        · exact hothers timers s.woken _ t ht
      · intro _
        refine h.waits hv ?_ ?_ (Or.inr ⟨_, by rw [hpend]; exact Multiset.mem_cons_self _ _, rfl, rfl⟩)
        · rw [TimerRuntime.Distinct, hpend, Multiset.map_cons]
          refine Multiset.nodup_cons.mpr ⟨?_, h.distinct⟩
          intro hmem
          obtain ⟨t, ht, hid⟩ := Multiset.mem_map.mp hmem
          exact hfresh t ht hid
        · rw [hpend]
          exact Multiset.subset_cons _ _
    · refine ⟨_, hpoll, ⟨fun _ => hkeeps, ?_⟩, ?_,
        fun g hg => futures_setFuture_ne (Ne.symm hg) .., fun _ g hg => wakesOf_called hg _ _⟩
      · intro _ t ht
        have ht : t ∈ timers.pending := ht
        rw [hpend] at ht
        exact hothers timers _ _ t ht
      · intro _
        refine h.waits hv ?_ ?_ (Or.inl hdue)
        · rw [TimerRuntime.Distinct, hpend]
          exact h.distinct
        · rw [hpend]
          exact Multiset.Subset.refl _
  · refine ⟨_, sleepPoll_second hf hone waker, ?_, ?_,
      fun g hg => futures_setFuture_ne (Ne.symm hg) .., fun _ g _ => rfl⟩
    · rw [show s.setFuture f none = { s with timers := s.timers }.setFuture f none from rfl,
        own_removed hown (Multiset.Subset.refl _)]
      constructor
      · intro hne future' hf' _ t ht hhandle
        exact hne t ht (h.data_of_handle hf' ht hhandle)
      · intro hkeeps t ht hdata
        exact hkeeps future hf hone t ht (hown.handle_of_data hf ht hdata)
    · intro _
      exact h.removed h.valid le_rfl fun t ht _ => ht

theorem cleanup_stepped (h : SleepsSound n s) (hown : OwnTimers s) (hf : s.futures f = some future) :
    ∃ s', sleepCleanup s f = .ok s' ∧ SleepStepped n s (.cleanup f) s' := by
  by_cases hstored : ∃ t ∈ s.timers.pending, t.handle = future.handle
  · obtain ⟨t, ht, hhandle⟩ := hstored
    have hdata := h.data_of_handle hf ht hhandle
    have hlate := h.valid.now_lt ht
    have hvalid : timerValid future.handle = true := by
      rw [← hhandle, timerValid, Bool.or_eq_true, bne_iff_ne, bne_iff_ne]
      exact Or.inr (Nat.ne_of_gt (Nat.zero_lt_of_lt hlate))
    obtain ⟨level, w, b, l, hw, hb, hl⟩ := mem_pending.mp ht
    have hholds : s.timers.Holds level b t := ⟨w, l, hw, hb, hl⟩
    -- no other stored timer has this handle
    have honly : ∀ t' ∈ s.timers.pending, t'.handle = future.handle → t' = t := fun t' ht' hhandle' =>
      h.distinct.eq ht' ht (congrArg TimerHandle.id (hhandle'.trans hhandle.symm))
    obtain ⟨timers, habort, hv, hcalls, -, hcases⟩ := abort_pending h.valid h.time h.distinct hholds
    rw [hhandle] at habort
    refine ⟨_, sleepCleanup_abort hf hvalid habort hcalls, ?_⟩
    rcases hcases with ⟨hle, hpend⟩ | ⟨hnot, hpend⟩
    · have hsub : timers.pending ⊆ s.timers.pending := by
        rw [hpend]
        exact Multiset.subset_cons _ _
      have hgone : t ∉ timers.pending := by
        have hnodup := h.distinct.nodup
        rw [hpend] at hnodup
        exact (Multiset.nodup_cons.mp hnodup).1
      have hkeeps : SleepKeeps s (.cleanup f) := by
        intro future' hf' level' b' t' hholds' hhandle'
        obtain rfl : future = future' := Option.some.inj (hf.symm.trans hf')
        obtain rfl := honly t' hholds'.mem hhandle'
        obtain ⟨rfl, -⟩ := h.distinct.holds hholds' hholds
        rw [h.valid.now_eq]
        exact hle
      refine ⟨⟨fun _ => hkeeps, fun _ => (own_removed hown hsub).mpr ?_⟩, fun _ => ?_,
        fun g hg => futures_setFuture_ne (Ne.symm hg) .., fun _ g _ => rfl⟩
      · intro t' ht' hdata'
        obtain rfl := honly t' (hsub ht') (hown.handle_of_data hf (hsub ht') hdata')
        exact hgone ht'
      · refine h.removed hv (by rw [hpend]; exact Multiset.le_cons_self _ _) ?_
        intro t' ht' hne
        rw [hpend, Multiset.mem_cons] at ht'
        rcases ht' with rfl | ht'
        · exact absurd hdata hne
        · exact ht'
    · have hbreaks : ¬ SleepKeeps s (.cleanup f) := by
        intro hkeeps
        have hle := hkeeps future hf level b t hholds hhandle
        rw [h.valid.now_eq] at hle
        exact hnot hle
      refine ⟨⟨?_, fun hkeeps => absurd hkeeps hbreaks⟩, fun hkeeps => absurd hkeeps hbreaks,
        fun g hg => futures_setFuture_ne (Ne.symm hg) .., fun _ g _ => rfl⟩
      intro hown'
      rw [own_removed hown (by rw [hpend]; exact Multiset.Subset.refl _), hpend] at hown'
      exact absurd hdata (hown' t ht)
  · have hnone : ∀ t ∈ s.timers.pending, t.handle ≠ future.handle :=
      fun t ht hhandle => hstored ⟨t, ht, hhandle⟩
    have hkeeps : SleepKeeps s (.cleanup f) := by
      intro future' hf' level b t hholds hhandle
      obtain rfl : future = future' := Option.some.inj (hf.symm.trans hf')
      exact absurd hhandle (hnone t hholds.mem)
    -- the handle is none, or its time has come
    have hcleanup : sleepCleanup s f = .ok ({ s with timers := s.timers }.setFuture f none) := by
      rcases h.futures f future hf with ⟨-, hzero⟩ | ⟨-, hdue | ⟨t, ht, hhandle, -⟩⟩
      · rw [sleepCleanup_eq hf, hzero, if_neg (by decide)]
      · by_cases hvalid : timerValid future.handle = true
        · exact sleepCleanup_abort hf hvalid (abort_late h.valid h.time hdue) rfl
        · rw [sleepCleanup_eq hf, if_neg hvalid]
      · exact absurd hhandle (hnone t ht)
    refine ⟨_, hcleanup, ⟨fun _ => hkeeps, fun _ => ?_⟩, fun _ => ?_,
      fun g hg => futures_setFuture_ne (Ne.symm hg) .., fun _ g _ => rfl⟩
    · refine (own_removed hown (Multiset.Subset.refl _)).mpr ?_
      intro t ht hdata
      exact hnone t ht (hown.handle_of_data hf ht hdata)
    · exact h.removed h.valid le_rfl fun t ht _ => ht

/-- A tick calls the wakers of the sleeps whose time has come. -/
theorem tick_woken (h : SleepsSound n s) (hown : OwnTimers s) (hn : n + 1 < wheelSpan) :
    ∃ (timers : TimerRuntime) (fired : List Timer), Valid (n + 1) timers ∧
      sleepStep s .tick = .ok { s with
        timers := timers
        woken := s.woken ++ fired.map fun t => (t.data, s.wakerAt t.data) } ∧
      timers.nextTimerId = s.timers.nextTimerId ∧
      timers.pending = s.timers.pending.filter (fun t => t.expiryTime ≠ n + 1) ∧
      (fired : Multiset Timer) = s.timers.pending.filter fun t => t.expiryTime = n + 1 := by
  obtain ⟨timers, fired, htick, hv, hcalls, hid, hpend, hfired⟩ := tick_pending h.valid hn
  refine ⟨timers, fired, hv, ?_, hid, hpend, hfired⟩
  have hmade : ∀ c ∈ fired.map Call.timer, s.futures c.data ≠ none := by
    intro c hc
    obtain ⟨t, ht, rfl⟩ := List.mem_map.mp hc
    have ht : t ∈ (fired : Multiset Timer) := ht
    rw [hfired] at ht
    obtain ⟨future, hf, -⟩ := hown t (Multiset.mem_filter.mp ht).1
    show s.futures t.data ≠ none
    rw [hf]
    exact Option.some_ne_none _
  rw [sleepStep, htick, ok_bind, runHandlers_eq hcalls hmade, List.map_map]
  rfl

theorem tick_stepped (h : SleepsSound n s) (hown : OwnTimers s) (hn : n + 1 < wheelSpan) :
    ∃ s', sleepStep s .tick = .ok s' ∧ SleepStepped n s .tick s' := by
  obtain ⟨timers, fired, hv, hstep, -, hpend, -⟩ := tick_woken h hown hn
  refine ⟨_, hstep, ⟨fun _ => ?_, fun _ t ht => ?_⟩, fun _ => ?_, fun _ _ => rfl,
    fun hne => absurd rfl hne⟩
  · show s.timers.now + 1 < wheelSpan
    rwa [h.valid.now_eq]
  · have ht : t ∈ timers.pending := ht
    rw [hpend] at ht
    exact hown t (Multiset.mem_filter.mp ht).1
  · refine ⟨hv, hn, h.distinct.mono (by rw [hpend]; exact Multiset.filter_le _ _), ?_⟩
    intro f future hf
    refine (h.futures f future hf).imp_right (And.imp_right ?_)
    rintro (hdue | ⟨t, ht, hhandle, hdata⟩)
    · exact Or.inl (Nat.le_succ_of_le hdue)
    · by_cases hnow : t.expiryTime = n + 1
      · refine Or.inl ?_
        rw [← hhandle]
        exact Nat.le_of_eq hnow
      · refine Or.inr ⟨t, ?_, hhandle, hdata⟩
        show t ∈ timers.pending
        rw [hpend]
        exact Multiset.mem_filter.mpr ⟨ht, hnow⟩

/-- The callers' mistakes apart, only the tick that ends the last wheel's revolution can fail. -/
theorem sleepStep_spec (h : SleepsSound n s) (hown : OwnTimers s) {o : SleepOp} (hfresh : FreshId s o)
    (hcalls : sleepStep s o ≠ .error .noSuchCall) :
    (∃ s', sleepStep s o = .ok s' ∧ SleepStepped n s o s') ∨
      ¬ SleepKeeps s o ∧ ∃ e, sleepStep s o = .error e := by
  cases o with
  | sleep f ms =>
    rw [sleepStep] at hcalls ⊢
    cases hf : s.futures f with
    | some future =>
      rw [hf] at hcalls
      exact absurd rfl hcalls
    | none => exact Or.inl ⟨_, rfl, sleep_stepped h hown hf⟩
  | poll f waker =>
    cases hf : s.futures f with
    | none =>
      rw [sleepStep, sleepPoll, SleepSystem.future, hf] at hcalls
      exact absurd rfl hcalls
    | some future => exact Or.inl (poll_stepped h hown hf hfresh)
  | cleanup f =>
    cases hf : s.futures f with
    | none =>
      rw [sleepStep, sleepCleanup, SleepSystem.future, hf] at hcalls
      exact absurd rfl hcalls
    | some future => exact Or.inl (cleanup_stepped h hown hf)
  | tick =>
    by_cases hn : n + 1 < wheelSpan
    · exact Or.inl (tick_stepped h hown hn)
    · have hspan : n + 1 = wheelSpan := by
        have htime := h.time
        omega
      refine Or.inr ⟨?_, .outOfBounds, ?_⟩
      · show ¬ s.timers.now + 1 < wheelSpan
        rwa [h.valid.now_eq]
      · rw [sleepStep, runtimeTick_overrun h.valid hspan]
        rfl

/-! ## What every step leaves alone -/

/-- The wheels are left alone, or go on by one operation. -/
def TimersStep (rt rt' : TimerRuntime) : Prop := rt' = rt ∨ ∃ o, timerStep rt o = .ok rt'

/-- The wheels go on by at most one operation, and the wakers called so far stay on record. -/
structure GoesOn (s s' : SleepSystem) : Prop where
  timers : TimersStep s.timers s'.timers
  woken : s.woken <+: s'.woken

theorem runHandlers_goesOn (hrun : runHandlers s timers = .ok s') :
    s'.timers = timers ∧ s.woken <+: s'.woken := by
  have hfold : ∀ (made : List Call) (s₀ : SleepSystem),
      made.foldlM (fun s c => taskioSleepHandler s c.data) s₀ = .ok s' →
      s'.timers = s₀.timers ∧ s₀.woken <+: s'.woken := by
    intro made
    induction made with
    | nil =>
      rintro s₀ ⟨⟩
      exact ⟨rfl, List.prefix_rfl⟩
    | cons c made ih =>
      intro s₀ hfold
      rw [List.foldlM_cons] at hfold
      obtain ⟨s₁, hstep, hrest⟩ := bind_eq_ok.mp hfold
      rw [taskioSleepHandler] at hstep
      cases hf : s₀.futures c.data with
      | none =>
        rw [hf] at hstep
        cases hstep
      | some future =>
        rw [hf] at hstep
        cases hstep
        obtain ⟨htimers, hwoken⟩ := ih _ hrest
        exact ⟨htimers, (List.prefix_append _ _).trans hwoken⟩
  exact hfold _ _ hrun

/-- One poll adds a timer or aborts one, or leaves the wheels alone; when it is ready it leaves them
alone. -/
theorem taskioSleepPoll_goesOn {poll : FuturePoll} (h : taskioSleepPoll s f waker = .ok (s', poll)) :
    GoesOn s s' ∧ (poll = .ready → s'.timers = s.timers) := by
  obtain ⟨future, -, h⟩ := bind_eq_ok.mp h
  dsimp only at h
  by_cases hclr : future.counter = futureClrVal
  · rw [if_pos hclr] at h
    by_cases hvalid : timerValid future.handle = true
    · rw [if_pos hvalid] at h
      obtain ⟨timers, habort, h⟩ := bind_eq_ok.mp h
      obtain ⟨s₁, hrun, h⟩ := bind_eq_ok.mp h
      cases h
      obtain ⟨rfl, hwoken⟩ := runHandlers_goesOn hrun
      exact ⟨⟨Or.inr ⟨.abort _, habort⟩, hwoken⟩, by rintro ⟨⟩⟩
    · rw [if_neg hvalid] at h
      cases h
      exact ⟨⟨Or.inl rfl, List.prefix_rfl⟩, by rintro ⟨⟩⟩
  · rw [if_neg hclr] at h
    by_cases hfirst : future.counter = 1
    · rw [if_pos hfirst] at h
      obtain ⟨⟨timers, handle⟩, hadd, h⟩ := bind_eq_ok.mp h
      obtain ⟨s₁, hrun, h⟩ := bind_eq_ok.mp h
      cases h
      obtain ⟨htimers, hwoken⟩ := runHandlers_goesOn hrun
      refine ⟨⟨Or.inr ⟨.add future.ms sleepHandlerAddr f, ?_⟩, hwoken⟩, by rintro ⟨⟩⟩
      have hadd : runtimeAddTimer s.timers future.ms sleepHandlerAddr f = .ok (timers, handle) := hadd
      rw [timerStep, hadd, ok_bind]
      exact congrArg Except.ok htimers.symm
    · rw [if_neg hfirst] at h
      by_cases hsecond : future.counter = 2
      · rw [if_pos hsecond] at h
        cases h
        exact ⟨⟨Or.inl rfl, List.prefix_rfl⟩, fun _ => rfl⟩
      · rw [if_neg hsecond] at h
        cases h
        exact ⟨⟨Or.inl rfl, List.prefix_rfl⟩, by rintro ⟨⟩⟩

theorem sleepStep_goesOn {o : SleepOp} (h : sleepStep s o = .ok s') : GoesOn s s' := by
  have hcleanup : ∀ s f s', sleepCleanup s f = .ok s' → GoesOn s s' := by
    intro s f s' h
    obtain ⟨future, -, h⟩ := bind_eq_ok.mp h
    obtain ⟨⟨s₁, poll⟩, hpoll, h⟩ := bind_eq_ok.mp h
    cases h
    obtain ⟨⟨htimers, hwoken⟩, -⟩ := taskioSleepPoll_goesOn hpoll
    exact ⟨htimers, hwoken⟩
  cases o with
  | sleep f ms =>
    rw [sleepStep] at h
    cases hf : s.futures f with
    | some future =>
      rw [hf] at h
      cases h
    | none =>
      rw [hf] at h
      cases h
      exact ⟨Or.inl rfl, List.prefix_rfl⟩
  | poll f waker =>
    obtain ⟨future, -, h⟩ := bind_eq_ok.mp h
    obtain ⟨⟨s₁, poll⟩, hpoll, h⟩ := bind_eq_ok.mp h
    obtain ⟨⟨htimers, hwoken⟩, hready⟩ := taskioSleepPoll_goesOn hpoll
    cases poll with
    | undefined | pending =>
      cases h
      exact ⟨htimers, hwoken⟩
    | ready =>
      obtain ⟨htimers', hwoken'⟩ := hcleanup s₁ f s' h
      rw [hready rfl] at htimers'
      exact ⟨htimers', hwoken.trans hwoken'⟩
  | cleanup f => exact hcleanup s f s' h
  | tick =>
    obtain ⟨timers, htick, hrun⟩ := bind_eq_ok.mp h
    obtain ⟨rfl, hwoken⟩ := runHandlers_goesOn hrun
    exact ⟨Or.inr ⟨.tick, htick⟩, hwoken⟩

/-- At most `2 ^ 64` operations give no id twice. -/
theorem freshIds {start : Nat} (os : List SleepOp) :
    ∀ (n k : Nat) (s : SleepSystem), Valid n s.timers → n < wheelSpan → IdsFrom start k s.timers →
      k + os.length ≤ 2 ^ 64 → Lib.Along sleepStep FreshId s os := by
  induction os with
  | nil => exact fun _ _ _ _ _ _ _ => trivial
  | cons o os ih =>
    intro n k s hv hn hids hlen
    rw [List.length_cons] at hlen
    refine ⟨fun t ht => hids.next_fresh (by omega) ht, ?_⟩
    intro s' hstep
    rcases (sleepStep_goesOn hstep).timers with hsame | ⟨o', htimers⟩
    · exact ih n k s' (hsame ▸ hv) hn (hsame ▸ hids) (by omega)
    · obtain ⟨hn', hv'⟩ := timerStep_valid hv hn htimers
      rcases timerStep_ids hv hn hids htimers with hids' | hids'
      · exact ih _ k s' hv' hn' hids' (by omega)
      · exact ih _ (k + 1) s' hv' hn' hids' (by omega)

/-! ## Runs -/

theorem sleepsSound_start (nextTimerId : UInt64) : SleepsSound 0 (sleepSystem nextTimerId) := by
  refine ⟨valid_setup nextTimerId, by decide, ?_, by rintro f future ⟨⟩⟩
  rw [TimerRuntime.Distinct, show (sleepSystem nextTimerId).timers = wheelSetup nextTimerId from rfl,
    pending_setup]
  exact Multiset.nodup_zero

theorem ownTimers_start (nextTimerId : UInt64) : OwnTimers (sleepSystem nextTimerId) := by
  intro t ht
  rw [show (sleepSystem nextTimerId).timers = wheelSetup nextTimerId from rfl, pending_setup] at ht
  cases ht

/-- **No timer outlives its sleep**, and the run ends without a fault, exactly when every second poll
comes after the handler was called, every cleanup looks for its timer in a wheel as coarse as the one
that holds it, and the last wheel does not complete its revolution. -/
theorem sleeps_own_timers_iff (nextTimerId : UInt64) (os : List SleepOp) (hlen : os.length ≤ 2 ^ 64)
    (hcalls : Lib.run sleepStep (sleepSystem nextTimerId) os ≠ .error .noSuchCall) :
    ((∃ s, Lib.run sleepStep (sleepSystem nextTimerId) os = .ok s) ∧
        ∀ os₁ os₂ s, os = os₁ ++ os₂ → Lib.run sleepStep (sleepSystem nextTimerId) os₁ = .ok s →
          OwnTimers s) ↔
      Lib.Along sleepStep SleepKeeps (sleepSystem nextTimerId) os := by
  have hfresh : Lib.Along sleepStep FreshId (sleepSystem nextTimerId) os :=
    freshIds os 0 0 _ (valid_setup nextTimerId) (by decide) (idsFrom_setup nextTimerId) (by omega)
  refine Lib.along_iff_ends_of (I := fun _ s => ∃ n, SleepsSound n s) (L := fun _ => OwnTimers)
    (Q := FreshId) [] ?_ ?_ ⟨0, sleepsSound_start nextTimerId⟩ (ownTimers_start nextTimerId) hfresh
    hcalls
  · rintro - s o s' ⟨n, h⟩ hown hkeeps hfresh hstep
    rcases sleepStep_spec h hown hfresh (by rw [hstep]; rintro ⟨⟩) with ⟨s₁, hstep₁, hs₁⟩ | ⟨hnot, -⟩
    · obtain rfl : s₁ = s' := Except.ok.inj (hstep₁.symm.trans hstep)
      exact ⟨_, hs₁.sound hkeeps⟩
    · exact absurd hkeeps hnot
  · rintro - s o ⟨n, h⟩ hown hfresh hcalls
    rcases sleepStep_spec h hown hfresh hcalls with ⟨s₁, hstep₁, hs₁⟩ | ⟨hnot, e, hfail⟩
    · rw [← hs₁.own]
      constructor
      · rintro ⟨s', hstep, hown'⟩
        obtain rfl : s₁ = s' := Except.ok.inj (hstep₁.symm.trans hstep)
        exact hown'
      · exact fun hown' => ⟨s₁, hstep₁, hown'⟩
    · rw [hfail]
      refine ⟨?_, fun hkeeps => absurd hkeeps hnot⟩
      rintro ⟨s', ⟨⟩, -⟩

/-- A second poll before the sleep's time leaves its timer stored, and the handler reads a waker that is
gone. -/
theorem sleeps_own_timers_dangling :
    Lib.run sleepStep (sleepSystem 0) [.sleep 4 2, .poll 4 9, .poll 4 9, .tick, .tick] =
        .error .useAfterFree ∧
      ¬ Lib.Along sleepStep SleepKeeps (sleepSystem 0)
        [.sleep 4 2, .poll 4 9, .poll 4 9, .tick, .tick] := by
  have hrun : Lib.run sleepStep (sleepSystem 0)
      [.sleep 4 2, .poll 4 9, .poll 4 9, .tick, .tick] = .error .useAfterFree := rfl
  refine ⟨hrun, ?_⟩
  intro halong
  obtain ⟨⟨s, hs⟩, -⟩ := (sleeps_own_timers_iff 0
    [.sleep 4 2, .poll 4 9, .poll 4 9, .tick, .tick] (by decide) (by rw [hrun]; rintro ⟨⟩)).mpr halong
  rw [hrun] at hs
  cases hs

/-! ## Waking -/

/-- The sleep at `f` was polled with `waker` and has until `expiry`. `before` are the calls of wakers
that it made before that poll. -/
structure Waits (f waker expiry : Nat) (before : List Nat) (n : Nat) (s : SleepSystem) : Prop where
  sound : SleepsSound n s
  own : OwnTimers s
  future : ∃ future, s.futures f = some future ∧ future.counter = 1 ∧ future.waker = waker ∧
    future.handle.expiryTime = expiry
  wakes : s.wakesOf f = before ++ if expiry ≤ n then [waker] else []

variable {expiry : Nat} {before : List Nat} {fired : List Timer}

/-- A sleep has one timer among those that a tick fires, or none. -/
theorem filter_fired (h : SleepsSound n s) (hown : OwnTimers s) (hf : s.futures f = some future)
    (hone : future.counter = 1)
    (hfired : (fired : Multiset Timer) = s.timers.pending.filter fun t => t.expiryTime = n + 1) :
    if future.handle.expiryTime = n + 1 then
      ∃ t, t.data = f ∧ (fired.filter fun t => t.data = f) = [t]
    else (fired.filter fun t => t.data = f) = [] := by
  have hmem : ∀ t, t ∈ fired.filter (fun t => t.data = f) →
      t ∈ s.timers.pending ∧ t.expiryTime = n + 1 ∧ t.handle = future.handle := by
    intro t ht
    obtain ⟨ht, hdata⟩ := List.mem_filter.mp ht
    rw [← Multiset.mem_coe, hfired, Multiset.mem_filter] at ht
    exact ⟨ht.1, ht.2, hown.handle_of_data hf ht.1 (of_decide_eq_true hdata)⟩
  by_cases hnow : future.handle.expiryTime = n + 1
  · rw [if_pos hnow]
    rcases h.futures f future hf with ⟨hzero, -⟩ | ⟨-, hdue | ⟨t, ht, hhandle, hdata⟩⟩
    · omega
    · omega
    · have hexpiry : t.expiryTime = n + 1 := (congrArg TimerHandle.expiryTime hhandle).trans hnow
      have hnodup : (fired : Multiset Timer).Nodup := by
        rw [hfired]
        exact h.distinct.nodup.filter _
      refine ⟨t, hdata, Multiset.coe_eq_singleton.mp ?_⟩
      refine (Multiset.Nodup.ext ?_ (Multiset.nodup_singleton t)).mpr ?_
      · exact Multiset.coe_nodup.mpr ((Multiset.coe_nodup.mp hnodup).filter _)
      · intro t'
        rw [Multiset.mem_coe, Multiset.mem_singleton]
        constructor
        · intro ht'
          obtain ⟨ht', -, hhandle'⟩ := hmem t' ht'
          exact h.distinct.eq ht' ht (congrArg TimerHandle.id (hhandle'.trans hhandle.symm))
        · rintro rfl
          refine List.mem_filter.mpr ⟨?_, decide_eq_true hdata⟩
          rw [← Multiset.mem_coe, hfired]
          exact Multiset.mem_filter.mpr ⟨ht, hexpiry⟩
  · rw [if_neg hnow, List.eq_nil_iff_forall_not_mem]
    intro t ht
    obtain ⟨-, hexpiry, hhandle⟩ := hmem t ht
    exact hnow ((congrArg TimerHandle.expiryTime hhandle).symm.trans hexpiry)

/-- A step that is not of this sleep. -/
theorem Waits.step (h : Waits f waker expiry before n s) {o : SleepOp} (ho : ¬ o.Uses f)
    (hkeeps : SleepKeeps s o) (hfresh : FreshId s o) (hstep : sleepStep s o = .ok s') :
    Waits f waker expiry before (n + o.ticks) s' := by
  obtain ⟨future, hf, hone, hwaker, rfl⟩ := h.future
  rcases sleepStep_spec h.sound h.own hfresh (by rw [hstep]; rintro ⟨⟩) with
    ⟨s₁, hstep₁, hs₁⟩ | ⟨hnot, -⟩
  · obtain rfl : s₁ = s' := Except.ok.inj (hstep₁.symm.trans hstep)
    refine ⟨hs₁.sound hkeeps, hs₁.own.mpr hkeeps,
      ⟨future, (hs₁.others f ho).trans hf, hone, hwaker, rfl⟩, ?_⟩
    by_cases htick : o = .tick
    · subst htick
      have hn : n + 1 < wheelSpan := (hs₁.sound hkeeps).time
      obtain ⟨timers, fired, -, hstep', -, -, hfired⟩ := tick_woken h.sound h.own hn
      obtain rfl := Except.ok.inj (hstep'.symm.trans hstep₁)
      have hwakes := h.wakes
      rw [SleepSystem.wakesOf] at hwakes
      rw [SleepSystem.wakesOf, List.filter_append, List.map_append, hwakes, List.filter_map,
        List.map_map, List.append_assoc]
      refine congrArg (before ++ ·) ?_
      have hcount := filter_fired h.sound h.own hf hone hfired
      have hpred : ((fun call : Nat × Nat => decide (call.1 = f)) ∘ fun t : Timer =>
          (t.data, s.wakerAt t.data)) = fun t => decide (t.data = f) := rfl
      rw [hpred]
      by_cases hnow : future.handle.expiryTime = n + 1
      · rw [if_pos hnow] at hcount
        obtain ⟨t, hdata, hthis⟩ := hcount
        have hwakerAt : s.wakerAt t.data = waker := by
          rw [hdata, SleepSystem.wakerAt, hf]
          exact hwaker
        rw [hthis, List.map_singleton, Function.comp_apply, hwakerAt, if_neg (by omega),
          if_pos (by rw [hnow]; exact le_rfl), List.nil_append]
      · rw [if_neg hnow] at hcount
        rw [hcount, List.map_nil, List.append_nil]
        refine if_congr ?_ rfl rfl
        show _ ↔ _ ≤ n + 1
        omega
    · have hticks : o.ticks = 0 := by
        cases o with
        | tick => exact absurd rfl htick
        | sleep f ms => rfl
        | poll f waker => rfl
        | cleanup f => rfl
      rw [hs₁.wakes htick f ho, h.wakes, hticks, Nat.add_zero]
  · exact absurd hkeeps hnot

/-- A sleep of no time is due at once. -/
theorem expiryFrom_zero {ms : UInt64} (hms : ms.toNat = 0) : expiryFrom n ms = n := by
  rw [expiryFrom, hms, show findWheel 0 = 0 from rfl, wheelRes_zero, Nat.div_one, Nat.mul_one,
    Nat.add_zero]

/-- The first poll begins the wait. A sleep whose time does not fit in 64 bits is due at once. -/
theorem Waits.polled (h : SleepsSound n s) (hown : OwnTimers s) (hf : s.futures f = some future)
    (hc : future.counter = 0) (hkeeps : SleepKeeps s (.poll f waker))
    (hfresh : FreshId s (.poll f waker))
    (hstep : sleepStep s (.poll f waker) = .ok s') :
    ∃ expiry, Waits f waker expiry (s.wakesOf f) n s' ∧
      ∀ m, n ≤ m → (expiry ≤ m ↔ 2 ^ 64 ≤ expiryFrom n future.ms ∨ expiryFrom n future.ms ≤ m) := by
  obtain ⟨s₁, hstep₁, hs₁⟩ : ∃ s₁, sleepPoll s f waker = .ok s₁ ∧
      SleepStepped n s (.poll f waker) s₁ := poll_stepped h hown hf hfresh
  obtain rfl : s₁ = s' := Except.ok.inj (hstep₁.symm.trans hstep)
  have hsound := hs₁.sound hkeeps
  have hown' := hs₁.own.mpr hkeeps
  obtain ⟨timers, handle, -, ⟨hfit, hlate, rfl, -, -, hpoll⟩ | ⟨hwhen, hdue, -, -, hpoll⟩⟩ :=
    sleepPoll_first h hf hc waker
  · obtain rfl := Except.ok.inj (hpoll.symm.trans hstep₁)
    refine ⟨expiryFrom n future.ms,
      ⟨hsound, hown', ⟨_, futures_setFuture_self .., rfl, rfl, rfl⟩, ?_⟩, ?_⟩
    · rw [if_neg (Nat.not_le.mpr hlate), List.append_nil]
      rfl
    · intro m _
      exact ⟨Or.inr, fun hor => hor.resolve_left (Nat.not_le.mpr hfit)⟩
  · obtain rfl := Except.ok.inj (hpoll.symm.trans hstep₁)
    refine ⟨handle.expiryTime, ⟨hsound, hown', ⟨_, futures_setFuture_self .., rfl, rfl, rfl⟩, ?_⟩, ?_⟩
    · simp [SleepSystem.wakesOf, SleepSystem.setFuture, List.filter_append, hdue]
    · intro m hm
      refine ⟨fun _ => ?_, fun _ => hdue.trans hm⟩
      rcases hwhen with hzero | hbig
      · exact Or.inr (by rwa [expiryFrom_zero hzero])
      · exact Or.inl hbig

theorem Waits.run {os : List SleepOp} (hothers : ∀ o ∈ os, ¬ o.Uses f)
    (hkeeps : Lib.Along sleepStep SleepKeeps s os) (hfresh : Lib.Along sleepStep FreshId s os)
    (hrun : Lib.run sleepStep s os = .ok s') (h : Waits f waker expiry before n s) :
    ∃ m, n ≤ m ∧ Waits f waker expiry before m s' := by
  refine Lib.run_invariant (I := fun s => ∃ m, n ≤ m ∧ Waits f waker expiry before m s) ?_
    ⟨n, le_rfl, h⟩ ((hkeeps.and hfresh).and (Lib.along_of_forall (P := fun _ o => ¬ o.Uses f)
      fun o ho _ => hothers o ho)) hrun
  rintro s o s' ⟨m, hm, h⟩ ⟨⟨hk, hid⟩, ho⟩ hstep
  exact ⟨m + o.ticks, by omega, h.step ho hk hid hstep⟩

theorem sleepsSound_run {os : List SleepOp} {nextTimerId : UInt64}
    (hkeeps : Lib.Along sleepStep SleepKeeps (sleepSystem nextTimerId) os)
    (hfresh : Lib.Along sleepStep FreshId (sleepSystem nextTimerId) os)
    (hrun : Lib.run sleepStep (sleepSystem nextTimerId) os = .ok s) :
    ∃ n, SleepsSound n s ∧ OwnTimers s := by
  refine Lib.run_invariant (I := fun s => ∃ n, SleepsSound n s ∧ OwnTimers s) ?_
    ⟨0, sleepsSound_start nextTimerId, ownTimers_start nextTimerId⟩ (hkeeps.and hfresh) hrun
  rintro s o s' ⟨n, h, hown⟩ ⟨hk, hid⟩ hstep
  rcases sleepStep_spec h hown hid (by rw [hstep]; rintro ⟨⟩) with ⟨s₁, hstep₁, hs₁⟩ | ⟨hnot, -⟩
  · obtain rfl : s₁ = s' := Except.ok.inj (hstep₁.symm.trans hstep)
    exact ⟨_, hs₁.sound hk, hs₁.own.mpr hk⟩
  · exact absurd hk hnot

/-- From the first poll on, the waker is called once the time has come. -/
theorem wakesOf_polled {os : List SleepOp} (h : SleepsSound n s) (hown : OwnTimers s)
    (hf : s.futures f = some future) (hc : future.counter = 0) (hothers : ∀ o ∈ os, ¬ o.Uses f)
    (hkeeps : Lib.Along sleepStep SleepKeeps s (.poll f waker :: os))
    (hfresh : Lib.Along sleepStep FreshId s (.poll f waker :: os))
    (hrun : Lib.run sleepStep s (.poll f waker :: os) = .ok s') :
    s'.wakesOf f = s.wakesOf f ++
      if 2 ^ 64 ≤ expiryFrom s.timers.now future.ms ∨ expiryFrom s.timers.now future.ms ≤ s'.timers.now
      then [waker] else [] := by
  obtain ⟨s₁, hstep, hrest⟩ := Lib.run_cons_eq_ok.mp hrun
  obtain ⟨expiry, hwaits, hdue⟩ := Waits.polled h hown hf hc hkeeps.1 hfresh.1 hstep
  obtain ⟨m, hm, hend⟩ := hwaits.run hothers (hkeeps.2 s₁ hstep) (hfresh.2 s₁ hstep) hrest
  rw [hend.wakes, h.valid.now_eq, hend.sound.valid.now_eq]
  exact congrArg _ (if_congr (hdue m hm) rfl rfl)

/-- **A sleep wakes its waker once its time has come, once, and not before.** Whatever the other
sleeps do after its first poll, while it is neither polled again nor cleaned up. -/
theorem sleep_woken_once (nextTimerId : UInt64) (os₁ os₂ : List SleepOp) (f waker : Nat)
    {s₁ s₂ : SleepSystem} {future : SleepFuture} (hlen : (os₁ ++ .poll f waker :: os₂).length ≤ 2 ^ 64)
    (hkeeps : Lib.Along sleepStep SleepKeeps (sleepSystem nextTimerId) (os₁ ++ .poll f waker :: os₂))
    (hrun₁ : Lib.run sleepStep (sleepSystem nextTimerId) os₁ = .ok s₁)
    (hfuture : s₁.futures f = some future) (hfirst : future.counter = 0)
    (hothers : ∀ o ∈ os₂, ¬ o.Uses f)
    (hrun₂ : Lib.run sleepStep s₁ (.poll f waker :: os₂) = .ok s₂) :
    s₂.wakesOf f = s₁.wakesOf f ++
      if 2 ^ 64 ≤ expiryFrom s₁.timers.now future.ms ∨
        expiryFrom s₁.timers.now future.ms ≤ s₂.timers.now then [waker] else [] := by
  have hfresh : Lib.Along sleepStep FreshId (sleepSystem nextTimerId) (os₁ ++ .poll f waker :: os₂) :=
    freshIds _ 0 0 _ (valid_setup nextTimerId) (by decide) (idsFrom_setup nextTimerId) (by omega)
  obtain ⟨hkeeps₁, hkeeps₂⟩ := Lib.along_append hkeeps
  obtain ⟨hfresh₁, hfresh₂⟩ := Lib.along_append hfresh
  obtain ⟨n, hsound, hown⟩ := sleepsSound_run hkeeps₁ hfresh₁ hrun₁
  exact wakesOf_polled hsound hown hfuture hfirst hothers (hkeeps₂ s₁ hrun₁) (hfresh₂ s₁ hrun₁) hrun₂

/-- Two sleeps, and two ticks. -/
theorem sleep_woken_once_two :
    ∃ s₁ s₂, Lib.run sleepStep (sleepSystem 0) [.sleep 4 2] = .ok s₁ ∧
      Lib.run sleepStep s₁ [.poll 4 9, .sleep 5 1, .poll 5 8, .tick, .tick] = .ok s₂ ∧
      s₂.wakesOf 4 = s₁.wakesOf 4 ++ if 2 ^ 64 ≤ 2 ∨ 2 ≤ s₂.timers.now then [9] else [] := by
  -- no sleep is polled twice here, and none is cleaned up
  have hfirst : ∀ {s : SleepSystem} {f : Nat} (waker : Nat), s.futures f = some (SleepFuture.init 2) ∨
      s.futures f = some (SleepFuture.init 1) → SleepKeeps s (.poll f waker) := by
    rintro s f waker (h | h) future hf hone <;>
    · rw [h] at hf
      cases hf
      cases hone
  refine ⟨_, _, rfl, rfl, ?_⟩
  refine sleep_woken_once 0 [.sleep 4 2] [.sleep 5 1, .poll 5 8, .tick, .tick] 4 9 (by decide) ?_
    rfl rfl rfl (by simp [SleepOp.Uses]) rfl
  refine Lib.along_cons trivial rfl (Lib.along_cons (hfirst 9 (Or.inl rfl)) rfl ?_)
  refine Lib.along_cons trivial rfl (Lib.along_cons (hfirst 8 (Or.inr rfl)) rfl ?_)
  refine Lib.along_cons ?_ rfl (Lib.along_cons ?_ rfl trivial)
  · exact (by decide : 1 < wheelSpan)
  · exact (by decide : 2 < wheelSpan)

end Taskio