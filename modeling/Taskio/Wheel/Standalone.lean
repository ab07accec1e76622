import Taskio.Wheel.Lookup

/-!
# A wheel on its own

`taskio_wheel_timer_tick` tests `expiry_handler` for null before it puts a timer back, but not after it
called one. `standalone_run` says what a wheel without handlers does: it puts every timer back until
the first that is due when its bucket comes up, and there it calls the null pointer.

* `standalone_fires_iff` — it is right only as long as nothing is due
* `standalone_calls_null` — a timer that is called, and one that is passed over
-/

namespace Taskio

/-- The calls that such a wheel gets. -/
inductive StandaloneOp where
  | add (delay : UInt64) (handler data : Nat)
  | tick
deriving DecidableEq

def StandaloneOp.wheelOp : StandaloneOp → WheelOp
  | .add delay handler data => .add 0 delay handler data
  | .tick => .tick 0

def standaloneStep (rt : TimerRuntime) (o : StandaloneOp) : Except Fault TimerRuntime :=
  wheelStep rt o.wheelOp

/-- The wheel before the first call. -/
def standaloneStart (resolution wheelSize nextTimerId : Nat) : TimerRuntime :=
  standalone (standaloneWheel resolution (List.replicate wheelSize []) 0) nextTimerId []

/-- The timer that a call creates, if its expiry time does not wrap. -/
def delayTimer (resolution tick id : Nat) (delay : UInt64) (handler data : Nat) : Timer :=
  { id := id, expiryTime := tick * resolution + delay.toNat, handler := handler, data := data }

/-- The timers that the calls create, from `tick` on. -/
def standaloneTimers (resolution : Nat) : Nat → Nat → List StandaloneOp → List Timer
  | _, _, [] => []
  | tick, id, .add delay handler data :: os =>
    if delay.toNat = 0 then standaloneTimers resolution tick id os
    else
      delayTimer resolution tick id delay handler data ::
        standaloneTimers resolution tick (u64 (id + 1)) os
  | tick, id, .tick :: os => standaloneTimers resolution (tick + 1) id os

/-- **What a wheel is for**: nothing goes wrong, and after each tick exactly those timers have been
called, once each, whose time the wheel has reached. -/
def FiresOnTime (resolution wheelSize nextTimerId : Nat) (os : List StandaloneOp) : Prop :=
  ∀ os₁ os₂, os = os₁ ++ os₂ →
    ∃ rt, Lib.run standaloneStep (standaloneStart resolution wheelSize nextTimerId) os₁ = .ok rt ∧
      rt.called = ((standaloneTimers resolution 0 nextTimerId os₁).filter
        fun t => t.expiryTime ≤ os₁.count .tick * resolution : List Timer)

section Standalone

variable {r tick : Nat} {l : List (List Timer)} {t : Timer}
  {timers : List Timer} {os os₁ os₂ : List StandaloneOp}

/-! ## One wheel -/

theorem standaloneWheel_time (hfit : tick * r < 2 ^ 64) : (standaloneWheel r l tick).time = tick * r :=
  u64_of_lt hfit

theorem standalone_setBucket (id : Nat) (calls : List Call) (b : Nat) (timers : List Timer) :
    (standalone (standaloneWheel r l tick) id calls).modifyWheel 0 (·.setBucket b timers) =
      standalone (standaloneWheel r (l.set b timers) tick) id calls := by
  simp [TimerRuntime.modifyWheel, standalone, WheelTimer.setBucket, standaloneWheel]

theorem standalone_bucket {b : Nat} (hget : l[b]? = some timers) :
    (standaloneWheel r l tick).bucket b = .ok timers := bucket_eq_ok.mpr hget

/-- A timer still to come is stored. -/
theorem standalone_addFrom (id : Nat) (calls : List Call) (hr : 0 < r) (hl : 0 < l.length)
    (hfit : tick * r < 2 ^ 64) (hlt : tick * r < t.expiryTime) :
    ∃ l', l'.length = l.length ∧ (l'.flatten : Multiset Timer) = t ::ₘ l.flatten ∧
      wheelTimerAddFrom (standalone (standaloneWheel r l tick) id calls) 0 t =
        .ok (standalone (standaloneWheel r l' tick) id calls) := by
  have hlate : (standaloneWheel r l tick).time < t.expiryTime := by
    rw [standaloneWheel_time hfit]
    exact hlt
  have hfind := findBucket_early (w := standaloneWheel r l tick) hr hl hlate
  have hb := Nat.mod_lt (u64 ((standaloneWheel r l tick).tick +
    (t.expiryTime - (standaloneWheel r l tick).time) / (standaloneWheel r l tick).resolution)) hl
  change _ % (standaloneWheel r l tick).wheelSize < _ at hb
  generalize u64 _ % (standaloneWheel r l tick).wheelSize = b at hfind hb
  have hget : l[b]? = some l[b] := List.getElem?_eq_getElem hb
  refine ⟨l.set b (l[b] ++ [t]), List.length_set, ?_, ?_⟩
  · have hset := Lib.coe_flatten_set hget (l[b] ++ [t])
    rw [← Multiset.coe_add, ← add_assoc, add_right_comm] at hset
    rw [add_right_cancel hset, add_comm]
    rfl
  · rw [wheelTimerAddFrom]
    show (findBucket (standaloneWheel r l tick) t.expiryTime >>= _) = _
    rw [hfind, ok_bind]
    simp only [standalone_bucket hget, ok_bind, standalone_setBucket]

/-- The visit of a bucket: all its timers are put back, or one of them is due. -/
theorem standalone_visit (id : Nat) (calls : List Call) (hr : 0 < r) (hfit : tick * r < 2 ^ 64)
    {time : Nat} (htime : tick * r ≤ time) (timers : List Timer) (hl : 0 < l.length) :
    (∃ l', l'.length = l.length ∧ (l'.flatten : Multiset Timer) = timers + l.flatten ∧
      timers.foldlM (tickTimer 0 time false) (standalone (standaloneWheel r l tick) id calls) =
        .ok (standalone (standaloneWheel r l' tick) id calls)) ∨
    timers.foldlM (tickTimer 0 time false) (standalone (standaloneWheel r l tick) id calls) =
        .error .nullHandler ∧ ∃ t ∈ timers, t.expiryTime ≤ time := by
  induction timers generalizing l with
  | nil => exact Or.inl ⟨l, rfl, (zero_add _).symm, rfl⟩
  | cons t timers ih =>
    rw [List.foldlM_cons]
    by_cases hdue : time ≥ t.expiryTime
    · refine Or.inr ⟨?_, t, List.mem_cons_self, hdue⟩
      rw [tickTimer, if_pos hdue]
      rfl
    · obtain ⟨l₁, hlength, hmem, hadd⟩ :=
        standalone_addFrom id calls hr hl hfit (t := t) (by omega)
      have hback : tickTimer 0 time false (standalone (standaloneWheel r l tick) id calls) t =
          .ok (standalone (standaloneWheel r l₁ tick) id calls) := by
        rw [tickTimer, if_neg hdue]
        exact hadd
      rw [hback, ok_bind]
      rcases ih (l := l₁) (hlength ▸ hl) with ⟨l', hlength', hmem', hrest⟩ | ⟨hrest, x, hx, hxdue⟩
      · refine Or.inl ⟨l', hlength'.trans hlength, ?_, hrest⟩
        rw [hmem', hmem, Multiset.add_cons, ← Multiset.cons_add]
        rfl
      · exact Or.inr ⟨hrest, x, List.mem_cons_of_mem _ hx, hxdue⟩

/-- **A tick**: no timer is called and none is lost, or one is due and the null handler is called. -/
theorem standalone_tick (id : Nat) (calls : List Call) (hr : 0 < r) (hl : 0 < l.length)
    (hfit : (tick + 1) * r < 2 ^ 64) :
    (∃ l', l'.length = l.length ∧ (l'.flatten : Multiset Timer) = l.flatten ∧
      wheelTimerTick 1 0 (standalone (standaloneWheel r l tick) id calls) =
        .ok (standalone (standaloneWheel r l' (tick + 1)) id calls)) ∨
    wheelTimerTick 1 0 (standalone (standaloneWheel r l tick) id calls) = .error .nullHandler ∧
      ∃ t ∈ l.flatten, t.expiryTime ≤ (tick + 1) * r := by
  have hle : tick * r ≤ (tick + 1) * r := Nat.mul_le_mul_right r (Nat.le_succ tick)
  have htick : u64 (tick + 1) = tick + 1 :=
    u64_of_lt (Nat.lt_of_le_of_lt (Nat.le_mul_of_pos_right _ hr) hfit)
  have hb : (tick + 1) % l.length < l.length := Nat.mod_lt _ hl
  have hget : l[(tick + 1) % l.length]? = some l[(tick + 1) % l.length] :=
    List.getElem?_eq_getElem hb
  have hdrain := Lib.coe_flatten_set hget []
  have heq : wheelTimerTick 1 0 (standalone (standaloneWheel r l tick) id calls) =
      l[(tick + 1) % l.length].foldlM (tickTimer 0 ((tick + 1) * r) false)
        (standalone (standaloneWheel r (l.set ((tick + 1) % l.length) []) tick) id calls) >>= fun rt =>
      .ok (rt.modifyWheel 0 fun w => { w with tick := u64 (w.tick + 1) }) := by
    rw [wheelTimerTick, ← standalone_setBucket]
    show (if l.length = 0 then _ else _) = _
    rw [if_neg (by omega)]
    have hsize : (standaloneWheel r l tick).wheelSize = l.length := rfl
    have htick' : u64 ((standaloneWheel r l tick).tick + 1) = tick + 1 := htick
    have htime : u64 ((tick + 1) * (standaloneWheel r l tick).resolution) = (tick + 1) * r :=
      u64_of_lt hfit
    simp only [htick', htime, hsize, standalone_bucket hget, ok_bind]
    rfl
  rcases standalone_visit id calls hr (Nat.lt_of_le_of_lt hle hfit) hle
      l[(tick + 1) % l.length] (l := l.set ((tick + 1) % l.length) [])
      (by rw [List.length_set]; exact hl) with ⟨l', hlength, hmem, hvisit⟩ | ⟨hvisit, t, ht, hdue⟩
  · refine Or.inl ⟨l', hlength.trans List.length_set, ?_, ?_⟩
    · rw [hmem, add_comm, hdrain]
      exact add_zero _
    · rw [heq, hvisit, ok_bind]
      show Except.ok (standalone { standaloneWheel r l' tick with tick := u64 (tick + 1) } id calls) = _
      rw [htick]
      rfl
  · refine Or.inr ⟨by rw [heq, hvisit]; rfl, t, ?_, hdue⟩
    exact List.mem_flatten.mpr ⟨_, List.getElem_mem hb, ht⟩

/-! ## Runs -/

theorem standalone_add (delay : UInt64) (handler data id : Nat) (calls : List Call) (hr : 0 < r)
    (hl : 0 < l.length) (hfit : tick * r + delay.toNat < 2 ^ 64) (hpos : 0 < delay.toNat) :
    ∃ l', l'.length = l.length ∧
      (l'.flatten : Multiset Timer) = delayTimer r tick id delay handler data ::ₘ l.flatten ∧
      standaloneStep (standalone (standaloneWheel r l tick) id calls) (.add delay handler data) =
        .ok (standalone (standaloneWheel r l' tick) (u64 (id + 1)) calls) := by
  obtain ⟨l', hlength, hmem, hadd⟩ := standalone_addFrom (u64 (id + 1)) calls hr hl (by omega)
    (t := delayTimer r tick id delay handler data) (Nat.lt_add_of_pos_right hpos)
  refine ⟨l', hlength, hmem, ?_⟩
  show (wheelTimerAdd (standalone (standaloneWheel r l tick) id calls) 0 delay.toNat handler data >>=
    fun p => .ok p.1) = _
  rw [wheelTimerAdd, if_neg (by omega)]
  show (wheelTimerAddFrom (standalone (standaloneWheel r l tick) (u64 (id + 1)) calls) 0
    { id := id, expiryTime := u64 (tick * r + delay.toNat), handler := handler, data := data } >>=
      fun rt' => _) >>= _ = _
  rw [delayTimer] at hadd
  rw [u64_of_lt hfit, hadd]
  rfl

/-- With no delay the handler is called at once, and no timer is created. -/
theorem standalone_add_zero {delay : UInt64} (hzero : delay.toNat = 0) (handler data id : Nat)
    (calls : List Call) :
    standaloneStep (standalone (standaloneWheel r l tick) id calls) (.add delay handler data) =
      .ok (standalone (standaloneWheel r l tick) id (calls ++ [.direct handler data])) := by
  show (wheelTimerAdd _ _ _ _ _ >>= fun p => .ok p.1) = _
  rw [wheelTimerAdd, if_pos hzero]
  rfl

/-- A call of a handler with no timer calls no timer. -/
theorem called_direct (handler data id : Nat) (calls : List Call) :
    (standalone (standaloneWheel r l tick) id (calls ++ [.direct handler data])).called =
      (standalone (standaloneWheel r l tick) id calls).called := by
  have hmade : (standalone (standaloneWheel r l tick) id (calls ++ [.direct handler data])).calls =
      (standalone (standaloneWheel r l tick) id calls).calls ++ [.direct handler data] := rfl
  exact (called_append hmade).trans (add_zero _)

/-- **A run**: nothing is called but null, and that as soon as a timer is due when its bucket is
visited. -/
theorem standalone_run (hr : 0 < r) (hl : 0 < l.length) (id : Nat) (calls : List Call)
    (hfit : (tick + os.count .tick) * r < 2 ^ 64)
    (hfits : ∀ t ∈ standaloneTimers r tick id os, t.expiryTime < 2 ^ 64) :
    (∃ rt, Lib.run standaloneStep (standalone (standaloneWheel r l tick) id calls) os = .ok rt ∧
      rt.called = (standalone (standaloneWheel r l tick) id calls).called) ∨
    Lib.run standaloneStep (standalone (standaloneWheel r l tick) id calls) os =
        .error .nullHandler ∧
      ∃ t ∈ l.flatten ++ standaloneTimers r tick id os,
        t.expiryTime ≤ (tick + os.count .tick) * r := by
  induction os generalizing l tick id calls with
  | nil => exact Or.inl ⟨_, rfl, rfl⟩
  | cons o os ih =>
    cases o with
    | add delay handler data =>
      have hcount : (StandaloneOp.add delay handler data :: os).count .tick = os.count .tick :=
        List.count_cons_of_ne (by simp)
      rw [hcount] at hfit ⊢
      by_cases hzero : delay.toNat = 0
      · rw [standaloneTimers, if_pos hzero] at hfits ⊢
        rw [Lib.run_cons_ok (standalone_add_zero hzero handler data id calls)]
        rcases ih hl id (calls ++ [.direct handler data]) hfit hfits with ⟨rt, hrun, hcalled⟩ | hnull
        · exact Or.inl ⟨rt, hrun, hcalled.trans (called_direct handler data id calls)⟩
        · exact Or.inr hnull
      · rw [standaloneTimers, if_neg hzero] at hfits ⊢
        obtain ⟨l', hlength, hmem, hstep⟩ := standalone_add delay handler data id calls hr hl
          (hfits _ List.mem_cons_self) (Nat.pos_of_ne_zero hzero)
        rw [Lib.run_cons_ok hstep]
        rcases ih (hlength ▸ hl) (u64 (id + 1)) calls hfit
          (fun t ht => hfits t (List.mem_cons_of_mem _ ht)) with hok | ⟨hnull, t, ht, hdue⟩
        · exact Or.inl hok
        · refine Or.inr ⟨hnull, t, ?_, hdue⟩
          have hin : t ∈ l'.flatten ↔ t = delayTimer r tick id delay handler data ∨ t ∈ l.flatten := by
            rw [← Multiset.mem_coe, hmem, Multiset.mem_cons, Multiset.mem_coe]
          rw [List.mem_append, hin] at ht
          rw [List.mem_append, List.mem_cons]
          rcases ht with (ht | ht) | ht
          · exact Or.inr (Or.inl ht)
          · exact Or.inl ht
          · exact Or.inr (Or.inr ht)
    | tick =>
      have hcount : tick + (StandaloneOp.tick :: os).count .tick = tick + 1 + os.count .tick := by
        rw [List.count_cons_self]
        omega
      rw [hcount] at hfit ⊢
      have hle : (tick + 1) * r ≤ (tick + 1 + os.count .tick) * r :=
        Nat.mul_le_mul_right r (Nat.le_add_right _ _)
      rw [standaloneTimers] at hfits ⊢
      rcases standalone_tick id calls hr hl (Nat.lt_of_le_of_lt hle hfit) with
        ⟨l', hlength, hmem, hstep⟩ | ⟨hstep, t, ht, hdue⟩
      · have hstep : standaloneStep (standalone (standaloneWheel r l tick) id calls) .tick =
            .ok (standalone (standaloneWheel r l' (tick + 1)) id calls) := hstep
        rw [Lib.run_cons_ok hstep]
        rcases ih (hlength ▸ hl) id calls hfit hfits with hok | ⟨hnull, t, ht, hdue⟩
        · exact Or.inl hok
        · refine Or.inr ⟨hnull, t, ?_, hdue⟩
          have hin : t ∈ l'.flatten ↔ t ∈ l.flatten := by
            rw [← Multiset.mem_coe, hmem, Multiset.mem_coe]
          rw [List.mem_append, ← hin, ← List.mem_append]
          exact ht
      · have hstep : standaloneStep (standalone (standaloneWheel r l tick) id calls) .tick =
            .error .nullHandler := hstep
        exact Or.inr ⟨by rw [Lib.run, hstep], t, List.mem_append_left _ ht, Nat.le_trans hdue hle⟩

theorem mem_standaloneTimers_append (r : Nat) :
    ∀ (tick id : Nat) (os₁ os₂ : List StandaloneOp), ∀ t ∈ standaloneTimers r tick id os₁,
      t ∈ standaloneTimers r tick id (os₁ ++ os₂)
  | _, _, [], _ => by simp [standaloneTimers]
  | tick, id, .add delay handler data :: os₁, os₂ => by
    intro t ht
    rw [List.cons_append]
    rw [standaloneTimers] at ht ⊢
    split at ht
    · rename_i hzero
      rw [if_pos hzero]
      exact mem_standaloneTimers_append r tick id os₁ os₂ t ht
    · rename_i hzero
      rw [if_neg hzero, List.mem_cons]
      exact (List.mem_cons.mp ht).imp_right
        (mem_standaloneTimers_append r tick (u64 (id + 1)) os₁ os₂ t)
  | tick, id, .tick :: os₁, os₂ => by
    intro t ht
    rw [List.cons_append]
    rw [standaloneTimers] at ht ⊢
    exact mem_standaloneTimers_append r (tick + 1) id os₁ os₂ t ht

end Standalone

/--
**A wheel on its own fires its timers on time exactly when no timer's time is reached.** As soon as
one is, its bucket has come up and the null handler was called, or it has not and the timer is late.
-/
theorem standalone_fires_iff {r s id : Nat} {os : List StandaloneOp} (hr : 0 < r) (hs : 0 < s)
    (hfit : os.count .tick * r < 2 ^ 64)
    (hfits : ∀ t ∈ standaloneTimers r 0 id os, t.expiryTime < 2 ^ 64) :
    FiresOnTime r s id os ↔
      ∀ t ∈ standaloneTimers r 0 id os, os.count .tick * r < t.expiryTime := by
  have hl : 0 < (List.replicate s ([] : List Timer)).length := by rwa [List.length_replicate]
  have hnone : (standaloneStart r s id).called = 0 := rfl
  constructor
  · intro hfires t ht
    obtain ⟨rt, hrun, hcalled⟩ := hfires os [] (List.append_nil os).symm
    rcases standalone_run hr hl id [] (by rwa [Nat.zero_add]) hfits with
      ⟨rt', hrun', hsilent⟩ | ⟨hnull, -⟩
    · obtain rfl : rt = rt' := Except.ok.inj (hrun.symm.trans hrun')
      have hempty := hcalled.symm.trans (hsilent.trans hnone)
      have hnot := List.filter_eq_nil_iff.mp ((Multiset.coe_eq_zero _).mp hempty) t ht
      simpa using hnot
    · rw [standaloneStart, hnull] at hrun
      cases hrun
  · rintro hlate os₁ os₂ rfl
    have hle : os₁.count .tick * r ≤ (os₁ ++ os₂).count .tick * r := by
      rw [List.count_append]
      exact Nat.mul_le_mul_right r (Nat.le_add_right _ _)
    have hlate₁ : ∀ t ∈ standaloneTimers r 0 id os₁, os₁.count .tick * r < t.expiryTime :=
      fun t ht => Nat.lt_of_le_of_lt hle (hlate t (mem_standaloneTimers_append r 0 id os₁ os₂ t ht))
    have hfits₁ : ∀ t ∈ standaloneTimers r 0 id os₁, t.expiryTime < 2 ^ 64 :=
      fun t ht => hfits t (mem_standaloneTimers_append r 0 id os₁ os₂ t ht)
    rcases standalone_run hr hl id [] (by rw [Nat.zero_add]; exact Nat.lt_of_le_of_lt hle hfit) hfits₁
      with ⟨rt, hrun, hsilent⟩ | ⟨-, t, ht, hdue⟩
    · refine ⟨rt, hrun, hsilent.trans ?_⟩
      rw [List.filter_eq_nil_iff.mpr fun t ht => by simpa using hlate₁ t ht]
      exact hnone
    · exfalso
      rw [List.mem_append, List.flatten_replicate_nil] at ht
      rcases ht with ht | ht
      · cases ht
      · rw [Nat.zero_add] at hdue
        exact Nat.not_lt.mpr hdue (hlate₁ t ht)

/-- Two ticks of a wheel of resolution 10, and a timer for time 25. -/
theorem standalone_fires_iff_early : FiresOnTime 10 4 1 [.add 25 5 6, .tick, .tick] :=
  (standalone_fires_iff (by decide) (by decide) (by decide) (by decide)).mpr (by decide)

/-- A timer for time 10 is called, and then the null handler. One for time 15 is in the bucket of the
first tick, is put back there, and is passed over by the second. -/
theorem standalone_calls_null :
    Lib.run standaloneStep (standaloneStart 10 4 1) [.add 10 5 6, .tick] = .error .nullHandler ∧
      ¬ FiresOnTime 10 4 1 [.add 10 5 6, .tick] ∧
      (∃ rt, Lib.run standaloneStep (standaloneStart 10 4 1) [.add 15 5 6, .tick, .tick] = .ok rt ∧
        rt.calls = [] ∧ rt.stored = [{ id := 1, expiryTime := 15, handler := 5, data := 6 }]) ∧
      ¬ FiresOnTime 10 4 1 [.add 15 5 6, .tick, .tick] := by
  have hnull : Lib.run standaloneStep (standaloneStart 10 4 1) [.add 10 5 6, .tick] =
      .error .nullHandler := rfl
  refine ⟨hnull, ?_, ⟨_, rfl, rfl, rfl⟩, ?_⟩
  · intro hfires
    obtain ⟨rt, hrun, -⟩ := hfires _ [] (List.append_nil _).symm
    rw [hnull] at hrun
    cases hrun
  · intro hfires
    obtain ⟨rt, hrun, hcalled⟩ := hfires _ [] (List.append_nil _).symm
    cases hrun
    have hcard := congrArg Multiset.card hcalled
    revert hcard
    decide

end Taskio
