import Taskio.Lib.Agenda
import Taskio.Wheel.Operations

/-!
# The wheels carry out an agenda

With no timer cancelled, the eight wheels do what one list of timers would do: `agenda` forgets the
wheels, `timerStep_simulates` matches one operation with the steps of the agenda, and
`run_simulates` a run. What the agenda does is known from `Taskio/Lib/Agenda.lean`; `cascade_exact`
says it of the wheels.
-/

namespace Taskio

open Lib (Agenda)

/-! ## The agenda of a state -/

def Call.timer? : Call → Option Timer
  | .timer t => some t
  | .direct _ _ => none

/-- The timers whose handlers were called. -/
def TimerRuntime.called (rt : TimerRuntime) : Multiset Timer :=
  (rt.calls.filterMap Call.timer? : List Timer)

def TimerRuntime.agenda (rt : TimerRuntime) : Agenda Timer where
  now := rt.now
  pending := rt.pending
  done := rt.called

/-- The timer that an operation creates. Its id and expiry time are those of the handle. -/
def addedBy (rt : TimerRuntime) : TimerOp → Option Timer
  | .add delay handler data =>
    match runtimeAddTimer rt delay handler data with
    | .ok (_, handle) =>
      if delay.toNat = 0 then none else some ⟨handle.id, handle.expiryTime, handler, data⟩
    | .error _ => none
  | _ => none

/-- One operation, seen on the agenda. -/
def agendaOp (rt : TimerRuntime) : TimerOp → List (Agenda.Op Timer)
  | .tick => [.tick]
  | o => (addedBy rt o).toList.map .add

/-- A run, seen on the agenda. -/
def agendaOps : TimerRuntime → List TimerOp → List (Agenda.Op Timer)
  | _, [] => []
  | rt, o :: os =>
    match timerStep rt o with
    | .ok rt' => agendaOp rt o ++ agendaOps rt' os
    | .error _ => []

/-- The timers that a run creates. -/
def addedTimers (rt : TimerRuntime) (os : List TimerOp) : Multiset Timer :=
  Agenda.adds (agendaOps rt os)

/-- Nothing is cancelled. -/
def TimerOp.Undisturbed : TimerOp → Prop
  | .add _ _ _ | .tick => True
  | .abort _ | .fire _ => False

instance : DecidablePred TimerOp.Undisturbed := fun o => by
  cases o <;> unfold TimerOp.Undisturbed <;> infer_instance

/-- The sum that `taskio_wheel_timer_add` stores as the expiry time does not wrap. -/
def NoWrap (rt : TimerRuntime) : TimerOp → Prop
  | .add delay _ _ => ∀ w, rt.wheels[findWheel delay.toNat]? = some w →
      w.tick * w.resolution + delay.toNat < 2 ^ 64
  | _ => True

/-! ## Simulation -/

variable {n : Nat} {rt rt' : TimerRuntime}

theorem called_append {calls : List Call} (h : rt'.calls = rt.calls ++ calls) :
    rt'.called = rt.called + (calls.filterMap Call.timer? : List Timer) := by
  rw [TimerRuntime.called, h, List.filterMap_append, ← Multiset.coe_add]
  rfl

theorem called_fired {fired : List Timer} (h : rt'.calls = rt.calls ++ fired.map .timer) :
    rt'.called = rt.called + (fired : Multiset Timer) := by
  rw [called_append h, List.filterMap_map]
  congr 1
  exact congrArg _ (List.filterMap_some)

theorem NoWrap.fits (h : Valid n rt) {delay : UInt64} {handler data : Nat}
    (hw : NoWrap rt (.add delay handler data)) :
    n / wheelRes (findWheel delay.toNat) * wheelRes (findWheel delay.toNat) + delay.toNat
      < 2 ^ 64 := by
  obtain ⟨w, hget, -, hat⟩ := h.get (findWheel_lt delay.toNat)
  have hfit := hw w hget
  rwa [hat.tick_eq, hat.resolution] at hfit

/-- The two parts of a tick: what is due and what is not. -/
theorem Visited.split {fired : List Timer} (h : Visited rt rt' [] fired) (hv : Valid (n + 1) rt')
    (hfired : ∀ t ∈ fired, t.expiryTime = n + 1) :
    rt'.pending = rt.pending.filter (fun t => t.expiryTime ≠ n + 1) ∧
      (fired : Multiset Timer) = rt.pending.filter fun t => t.expiryTime = n + 1 := by
  have hsum : rt.pending = rt'.pending + (fired : Multiset Timer) := by
    rw [h.pending, Multiset.coe_nil, add_zero]
  have hlate : ∀ t ∈ rt'.pending, t.expiryTime ≠ n + 1 := fun t ht => by
    have := hv.now_lt ht
    omega
  have hdue : ∀ t ∈ (fired : Multiset Timer), t.expiryTime = n + 1 := hfired
  rw [hsum, Multiset.filter_add, Multiset.filter_add]
  constructor
  · rw [Multiset.filter_eq_self.mpr hlate,
      Multiset.filter_eq_nil.mpr fun t ht => not_not.mpr (hdue t ht), add_zero]
  · rw [Multiset.filter_eq_nil.mpr hlate, Multiset.filter_eq_self.mpr hdue, zero_add]

theorem addedBy_eq {delay : UInt64} {handler data : Nat} (hd : 0 < delay.toNat)
    (hadd : runtimeAddTimer rt delay handler data =
      .ok (rt', (newTimer n rt delay handler data).handle)) :
    addedBy rt (.add delay handler data) = some (newTimer n rt delay handler data) := by
  simp only [addedBy, hadd, if_neg (show ¬ delay.toNat = 0 by omega)]
  rfl

/-- A delay counted from the tick of its wheel reaches beyond the present. -/
theorem newTimer_late {delay : UInt64} {handler data : Nat} (hd : 0 < delay.toNat)
    (hfit : n / wheelRes (findWheel delay.toNat) * wheelRes (findWheel delay.toNat)
      + delay.toNat < 2 ^ 64) :
    n < (newTimer n rt delay handler data).expiryTime := by
  have hpos := wheelRes_pos _ (findWheel_lt delay.toNat)
  have hle := wheelRes_findWheel_le hd
  have hlt := Nat.lt_div_mul_add (a := n) hpos
  show n < u64 _
  rw [u64_of_lt hfit]
  omega

/-- **One operation on the wheels is that operation on the agenda.** -/
theorem timerStep_simulates (h : Valid n rt) {o : TimerOp} (hn : n + o.ticks < wheelSpan)
    (ho : o.Undisturbed) (hwrap : NoWrap rt o) (hstep : timerStep rt o = .ok rt') :
    rt'.agenda = (agendaOp rt o).foldl (Agenda.step Timer.expiryTime) rt.agenda ∧
      Agenda.Punctual Timer.expiryTime rt.agenda (agendaOp rt o) := by
  cases o with
  | add delay handler data =>
    by_cases hd : delay.toNat = 0
    · -- the handler is called at once: no timer, and nothing on the agenda
      rw [timerStep, runtimeAddTimer_zero hd] at hstep
      cases hstep
      have hnone : agendaOp rt (.add delay handler data) = [] := by
        simp only [agendaOp, addedBy, runtimeAddTimer_zero hd, if_pos hd]
        rfl
      rw [hnone]
      refine ⟨?_, trivial⟩
      have hcalled : (rt.call (.direct handler data)).called = rt.called := by
        rw [called_append (show _ = rt.calls ++ [.direct handler data] from rfl)]
        exact add_zero _
      simp only [TimerRuntime.agenda, hcalled, call_pending, List.foldl_nil]
      rfl
    · have hpos := Nat.pos_of_ne_zero hd
      have hfit := hwrap.fits h
      obtain ⟨rt₁, hadd, hv, hpend, hcalls, -⟩ :=
        runtimeAddTimer_stored h hpos handler data hfit
      rw [timerStep, hadd] at hstep
      cases hstep
      have hsome : agendaOp rt (.add delay handler data) =
          [.add (newTimer n rt delay handler data)] := by
        simp only [agendaOp, addedBy_eq hpos hadd]
        rfl
      rw [hsome]
      refine ⟨?_, ?_, trivial⟩
      · have hcalled : rt'.called = rt.called := by rw [TimerRuntime.called, hcalls]; rfl
        simp only [TimerRuntime.agenda, hv.now_eq, h.now_eq, hpend, hcalled, List.foldl_cons,
          List.foldl_nil, Agenda.step]
      · show rt.now < _
        rw [h.now_eq]
        exact newTimer_late hpos hfit
  | tick =>
    obtain ⟨rt₁, fired, htick, hv, hvisited, hfired⟩ := runtimeTick_spec h hn
    rw [timerStep, htick] at hstep
    cases hstep
    obtain ⟨hpend, hdue⟩ := hvisited.split hv hfired
    refine ⟨?_, trivial⟩
    simp only [TimerRuntime.agenda, agendaOp, List.foldl_cons, List.foldl_nil, Agenda.step,
      hv.now_eq, h.now_eq, hpend, called_fired hvisited.calls, hdue]
  | abort handle => exact absurd ho id
  | fire handle => exact absurd ho id

/-- **A run on the wheels is a punctual run of the agenda.** -/
theorem run_simulates {os : List TimerOp} (h : Valid n rt) (hn : n < wheelSpan)
    (hos : ∀ o ∈ os, o.Undisturbed) (hwrap : Lib.Along timerStep NoWrap rt os)
    (hrun : Lib.run timerStep rt os = .ok rt') :
    rt'.agenda = (agendaOps rt os).foldl (Agenda.step Timer.expiryTime) rt.agenda ∧
      Agenda.Punctual Timer.expiryTime rt.agenda (agendaOps rt os) := by
  induction os generalizing n rt with
  | nil => cases hrun; exact ⟨rfl, trivial⟩
  | cons o os ih =>
    obtain ⟨rt₁, hstep, hrest⟩ := Lib.run_cons_eq_ok.mp hrun
    obtain ⟨hn₁, h₁⟩ := timerStep_valid h hn hstep
    obtain ⟨hsim, hp⟩ := timerStep_simulates h hn₁ (hos o (by simp)) hwrap.1 hstep
    obtain ⟨hsim', hp'⟩ := ih h₁ hn₁ (fun o' ho' => hos o' (List.mem_cons_of_mem _ ho'))
      (hwrap.2 rt₁ hstep) hrest
    simp only [agendaOps, hstep, List.foldl_append, Agenda.punctual_append]
    rw [← hsim]
    exact ⟨hsim', hp, hp'⟩

/-- The law of agendas, for a run of the wheels from `_wheel_setup`. -/
theorem run_exact {nextTimerId : UInt64} {os : List TimerOp} (hos : ∀ o ∈ os, o.Undisturbed)
    (hwrap : Lib.Along timerStep NoWrap (wheelSetup nextTimerId) os)
    (hrun : Lib.run timerStep (wheelSetup nextTimerId) os = .ok rt) :
    Agenda.Exact Timer.expiryTime rt.agenda (addedTimers (wheelSetup nextTimerId) os) := by
  obtain ⟨hsim, hp⟩ := run_simulates (valid_setup nextTimerId) (by decide) hos hwrap hrun
  have hstart : Agenda.Exact Timer.expiryTime (wheelSetup nextTimerId).agenda 0 :=
    ⟨pending_setup nextTimerId, rfl⟩
  have hlaw := Agenda.exact_run _ hstart hp
  rwa [← hsim, zero_add] at hlaw

end Taskio
