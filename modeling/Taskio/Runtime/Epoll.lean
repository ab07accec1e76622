import Taskio.Runtime.Notification
import Taskio.Runtime.References

/-!
# `worker_run`: the event list

`epoll_wait` returns a list with `event_fd`, `timer_fd` or both, in any order, and `worker_run` goes
through it. In the branch of `event_fd` it drains the ready queue, which is the part of
`Taskio/Runtime/Scheduler.lean`; in that of `timer_fd` it reads the number of expirations and ticks the
wheels as often. `timer_fd` is a blocking descriptor: the read returns at once only if the timer has
expired since it was last read or set.

* `EpollLoop`, `epollStep` — the loop around the scheduler
* `epollStep_projects` — what the tasks go through is a run of the scheduler
* `EpollLaw` — the event list against the place of the scheduler
-/

namespace Taskio

/-! ## Model -/

/-- The descriptors that `epoll_fd` watches. -/
inductive EpollFd where
  | event
  | timer
deriving DecidableEq, Repr

/-- Where `worker_run` stands. -/
inductive EpollStage where
  /-- between two events, or at `epoll_wait` when none is left, or not running -/
  | list
  /-- in the loop over the ready queue -/
  | draining
  /-- in the loop over `expirations`, with these left -/
  | ticking (expirations : Nat)
deriving DecidableEq, Repr

/--
The scheduler, `timer_fd` and the loop. `expirations` is what a read of `timer_fd` returns, `rest` the
events still to be handled.
-/
structure EpollLoop where
  scheduler : Scheduler
  armed : Bool
  expirations : Nat
  rest : List EpollFd
  stage : EpollStage

inductive EpollOp where
  /-- a call of the program, in a poll, in a timer's handler or by another thread, or a step of the
  worker in the loop over the ready queue -/
  | step (o : SchedulerOp)
  /-- `timerfd_settime` -/
  | settime (arm : Bool)
  /-- the timer expires -/
  | expire
  /-- `epoll_wait` returns -/
  | wait (events : List EpollFd)
  /-- the next event is handled -/
  | next
  /-- a tick ends -/
  | tick
deriving DecidableEq, Repr

namespace EpollLoop

/-- The descriptor is readable. -/
def Ready (s : EpollLoop) (fd : EpollFd) : Prop :=
  match fd with
  | .event => 0 < s.scheduler.eventFd
  | .timer => 0 < s.expirations

instance (s : EpollLoop) (fd : EpollFd) : Decidable (s.Ready fd) := by
  cases fd <;> unfold Ready <;> infer_instance

/-- `epoll_wait` can return `events`. -/
def Returns (s : EpollLoop) (events : List EpollFd) : Prop :=
  s.rest = [] ∧ s.scheduler.control = .waiting ∧ s.scheduler.running = true ∧
    events ≠ [] ∧ events.Nodup ∧ ∀ fd ∈ events, s.Ready fd

instance (s : EpollLoop) (events : List EpollFd) : Decidable (s.Returns events) :=
  inferInstanceAs (Decidable (_ ∧ _))

/-- What it is to the scheduler. -/
def schedulerOps (s : EpollLoop) (o : EpollOp) : List SchedulerOp :=
  match o, s.stage, s.rest with
  | .step o, _, _ => [o]
  | .next, .list, .event :: _ => [.event]
  | _, _, _ => []

end EpollLoop

def epollStep (s : EpollLoop) (o : EpollOp) : Except Fault EpollLoop :=
  match o, s.stage with
  -- the branch of `event_fd` is taken from the list only
  | .step .event, _ => .error .noSuchCall
  | .step .drained, _ => do
    let scheduler ← schedulerStep s.scheduler .drained
    .ok { s with scheduler := scheduler, stage := .list }
  | .step .leave, .list =>
    if s.rest = [] then do
      let scheduler ← schedulerStep s.scheduler .leave
      .ok { s with scheduler := scheduler }
    else .error .noSuchCall
  | .step .leave, _ => .error .noSuchCall
  | .step o, _ => do
    let scheduler ← schedulerStep s.scheduler o
    .ok { s with scheduler := scheduler }
  | .settime arm, stage =>
    -- no call is made between two events
    if stage = .list ∧ s.rest ≠ [] then .error .noSuchCall
    else .ok { s with armed := arm, expirations := 0 }
  | .expire, _ =>
    if s.armed then .ok { s with expirations := s.expirations + 1 } else .error .noSuchCall
  | .wait events, .list =>
    if s.Returns events then .ok { s with rest := events } else .error .noSuchCall
  | .next, .list =>
    match s.rest with
    | [] => .error .noSuchCall
    | .event :: rest => do
      let scheduler ← schedulerStep s.scheduler .event
      .ok { s with scheduler := scheduler, rest := rest, stage := .draining }
    | .timer :: rest =>
      -- the read blocks
      if s.expirations = 0 then .error .noSuchCall
      else .ok { s with expirations := 0, rest := rest, stage := .ticking s.expirations }
  | .tick, .ticking expirations =>
    .ok { s with stage := if expirations ≤ 1 then .list else .ticking (expirations - 1) }
  | _, _ => .error .noSuchCall

def epollInit : EpollLoop :=
  { scheduler := schedulerInit, armed := false, expirations := 0, rest := [], stage := .list }

/-! ## The branches of a step -/

variable {s s' : EpollLoop} {o : EpollOp}

/-- The branches of `epollStep` that succeed. -/
inductive EpollCase (s s' : EpollLoop) : EpollOp → Prop
  | step {o : SchedulerOp} {scheduler : Scheduler} (ho : o ≠ .event ∧ o ≠ .drained ∧ o ≠ .leave)
      (hstep : schedulerStep s.scheduler o = .ok scheduler)
      (heq : s' = { s with scheduler := scheduler }) : EpollCase s s' (.step o)
  | drained {scheduler : Scheduler} (hstep : schedulerStep s.scheduler .drained = .ok scheduler)
      (heq : s' = { s with scheduler := scheduler, stage := .list }) : EpollCase s s' (.step .drained)
  | leave {scheduler : Scheduler} (hstage : s.stage = .list) (hrest : s.rest = [])
      (hstep : schedulerStep s.scheduler .leave = .ok scheduler)
      (heq : s' = { s with scheduler := scheduler }) : EpollCase s s' (.step .leave)
  | settime {arm : Bool} (hstage : ¬ (s.stage = .list ∧ s.rest ≠ []))
      (heq : s' = { s with armed := arm, expirations := 0 }) : EpollCase s s' (.settime arm)
  | expire (harmed : s.armed = true) (heq : s' = { s with expirations := s.expirations + 1 }) :
      EpollCase s s' .expire
  | wait {events : List EpollFd} (hstage : s.stage = .list) (hreturns : s.Returns events)
      (heq : s' = { s with rest := events }) : EpollCase s s' (.wait events)
  | event {rest : List EpollFd} {scheduler : Scheduler} (hstage : s.stage = .list)
      (hrest : s.rest = .event :: rest) (hstep : schedulerStep s.scheduler .event = .ok scheduler)
      (heq : s' = { s with scheduler := scheduler, rest := rest, stage := .draining }) :
      EpollCase s s' .next
  | timer {rest : List EpollFd} (hstage : s.stage = .list) (hrest : s.rest = .timer :: rest)
      (hpos : 0 < s.expirations)
      (heq : s' = { s with expirations := 0, rest := rest, stage := .ticking s.expirations }) :
      EpollCase s s' .next
  | tick {expirations : Nat} (hstage : s.stage = .ticking expirations)
      (heq : s' =
        { s with stage := if expirations ≤ 1 then .list else .ticking (expirations - 1) }) :
      EpollCase s s' .tick

theorem epollStep_cases (h : epollStep s o = .ok s') : EpollCase s s' o := by
  unfold epollStep at h
  split at h
  · cases h
  · obtain ⟨scheduler, hstep, h⟩ := bind_eq_ok.mp h
    cases h
    exact .drained hstep rfl
  · split at h
    · obtain ⟨scheduler, hstep, h⟩ := bind_eq_ok.mp h
      cases h
      exact .leave ‹_› ‹_› hstep rfl
    · cases h
  · cases h
  · rename_i hevent hdrained hleave _
    obtain ⟨scheduler, hstep, h⟩ := bind_eq_ok.mp h
    cases h
    exact .step ⟨hevent, hdrained, hleave⟩ hstep rfl
  · split at h
    · cases h
    · cases h
      exact .settime ‹_› rfl
  · split at h
    · cases h
      exact .expire ‹_› rfl
    · cases h
  · split at h
    · cases h
      exact .wait ‹_› ‹_› rfl
    · cases h
  · split at h
    · cases h
    · obtain ⟨scheduler, hstep, h⟩ := bind_eq_ok.mp h
      cases h
      exact .event ‹_› ‹_› hstep rfl
    · split at h
      · cases h
      · cases h
        exact .timer ‹_› ‹_› (Nat.pos_of_ne_zero ‹_›) rfl
  · cases h
    exact .tick ‹_› rfl
  · cases h

/-- The scheduler takes at most one step. -/
theorem epollStep_scheduler (h : epollStep s o = .ok s') :
    (s.schedulerOps o = [] ∧ s'.scheduler = s.scheduler) ∨
      ∃ o', s.schedulerOps o = [o'] ∧ schedulerStep s.scheduler o' = .ok s'.scheduler := by
  cases epollStep_cases h with
  | step ho hstep heq | drained hstep heq | leave hstage hrest hstep heq =>
    subst heq
    exact Or.inr ⟨_, rfl, hstep⟩
  | event hstage hrest hstep heq =>
    subst heq
    exact Or.inr ⟨.event, by simp only [EpollLoop.schedulerOps, hstage, hrest], hstep⟩
  | timer hstage hrest hpos heq =>
    subst heq
    exact Or.inl ⟨by simp only [EpollLoop.schedulerOps, hstage, hrest], rfl⟩
  | settime hstage heq | expire hstage heq | wait hstage hreturns heq | tick hstage heq =>
    subst heq
    exact Or.inl ⟨rfl, rfl⟩

/-- What the tasks go through is a run of the scheduler. -/
theorem epollStep_projects (s : EpollLoop) (o : EpollOp) (s' : EpollLoop)
    (h : epollStep s o = .ok s') :
    Lib.run schedulerStep s.scheduler (s.schedulerOps o) = .ok s'.scheduler := by
  rcases epollStep_scheduler h with ⟨hops, hsame⟩ | ⟨o', hops, hstep⟩
  · rw [hops, hsame]
    rfl
  · rw [hops]
    exact Lib.run_cons_ok hstep

/-! ## Where the scheduler stands -/

section

variable {s s' : Scheduler} {o : SchedulerOp}

/-- How a step moves `worker_run`: into the loop over the queue and out of it, and in no other way. -/
inductive PlaceStep (s s' : Scheduler) : SchedulerOp → Prop
  | blockOn (hcontrol : s.control = .stopped) (hcontrol' : s'.control = .waiting) :
      PlaceStep s s' .blockOn
  | event (hcontrol : s.control = .waiting) (hcontrol' : s'.control = .draining) :
      PlaceStep s s' .event
  | drained (hcontrol : s.control = .draining) (hcontrol' : s'.control = .waiting) :
      PlaceStep s s' .drained
  | leave (hcontrol : s.control = .waiting) (hcontrol' : s'.control = .stopped) : PlaceStep s s' .leave
  | call {o : SchedulerOp} (ho : o ≠ .blockOn) (hcontrol : s'.control = s.control)
      (hfd : s.eventFd ≤ s'.eventFd) : PlaceStep s s' o
  | turn {o : SchedulerOp} (hcontrol : ¬ s.control.Rests) (hcontrol' : ¬ s'.control.Rests) :
      PlaceStep s s' o

theorem Notifies.eventFd_le (h : Notifies s s') : s.eventFd ≤ s'.eventFd := by
  rcases h.flags with ⟨-, hfd, -⟩ | ⟨-, hfd⟩
  · exact Nat.le_of_eq hfd.symm
  · rw [hfd]
    split
    · exact Nat.le_refl _
    · exact Nat.le_succ _

theorem schedulerStep_place (h : schedulerStep s o = .ok s') : PlaceStep s s' o := by
  have hturn : ∀ {t nodes}, s.control = .waking t nodes → ¬ s'.control.Rests → PlaceStep s s' o := by
    intro t nodes hcontrol hcontrol'
    exact .turn (by simp [hcontrol, Control.Rests]) hcontrol'
  cases schedulerStep_cases h with
  | spawn hspawn =>
    obtain ⟨⟨s₁, hnotifies, hcontrol, -, hfd, -⟩, -⟩ := runtimeSpawn_notifies hspawn
    exact .call (by simp) (hnotifies.control.trans hcontrol) (hfd ▸ hnotifies.eventFd_le)
  | blockOn hcontrol hok =>
    obtain ⟨⟨s₁, t⟩, hspawn, hok⟩ := bind_eq_ok.mp hok
    obtain ⟨s₂, hdrop, hok⟩ := bind_eq_ok.mp hok
    cases hok
    exact .blockOn hcontrol rfl
  | wake hok =>
    have hnotifies := (taskAddEventLoop_notifies hok).1
    exact .call (by simp) hnotifies.control hnotifies.eventFd_le
  | abort hok =>
    have hnotifies := handleAbort_notifies hok
    exact .call (by simp) hnotifies.control hnotifies.eventFd_le
  | clone hok =>
    obtain ⟨task, -, hok⟩ := bind_eq_ok.mp hok
    cases hok
    exact .call (by simp) rfl (Nat.le_refl _)
  | drop hok =>
    obtain ⟨hcontrol, -, -, hfd, -⟩ := handleDrop_same hok
    exact .call (by simp) hcontrol (Nat.le_of_eq hfd.symm)
  | join hok =>
    have hnotifies := handleJoin_notifies hok
    exact .call (by simp) hnotifies.control hnotifies.eventFd_le
  | event hcontrol hfd heq =>
    subst heq
    exact .event hcontrol rfl
  | take hcontrol hok =>
    exact .turn (by simp [hcontrol, Control.Rests]) (workerTake_flags hok).1
  | ready hcontrol heq =>
    subst heq
    exact .turn (by simp [hcontrol, Control.Rests]) (by simp [Control.Rests])
  | pending hcontrol hpoll heq =>
    subst heq
    exact .turn (by simp [hcontrol, Control.Rests]) (by simp [Control.Rests])
  | cleaned hcontrol hok =>
    exact .turn (by simp [hcontrol, Control.Rests]) (workerCleaned_flags hok).1
  | wakeJoiner hcontrol hlive hok =>
    refine hturn hcontrol ?_
    rw [(wakeNode_notifies hok).control]
    simp [Control.Rests]
  | release hcontrol hok => exact hturn hcontrol (workerRelease_flags hok).1
  | drained hcontrol hhead heq =>
    subst heq
    exact .drained hcontrol rfl
  | leave hcontrol heq =>
    subst heq
    exact .leave hcontrol rfl

/-- Outside the loop over the queue only `taskio_runtime_block_on` sets `running`. -/
theorem RefStep.running_same (h : RefStep s s' o) (hrests : s.control.Rests) (ho : o ≠ .blockOn) :
    s'.running = s.running := by
  cases h with
  | same _ hsame => exact hsame.worker.2
  | spawn _ _ _ hworker => exact hworker.2
  | blockOn => exact absurd rfl ho
  | clone _ _ _ _ hworker => exact hworker.2
  | drop _ _ hrunning => exact hrunning
  | release hcontrol =>
    rw [hcontrol] at hrests
    simp [Control.Rests] at hrests

end

/-! ## The event list and the scheduler -/

/-- The queue is drained in the branch of `event_fd` and the wheels are ticked in that of `timer_fd`.
Each is taken once for a list, and that of `event_fd` finds the worker running. -/
structure EpollLaw (s : EpollLoop) : Prop where
  draining : s.stage = .draining ↔ ¬ s.scheduler.control.Rests
  waiting : s.stage = .list → s.rest ≠ [] → s.scheduler.control = .waiting
  ticking : ∀ expirations, s.stage = .ticking expirations →
    s.scheduler.control = .waiting ∧ .timer ∉ s.rest
  event : .event ∈ s.rest →
    s.stage ≠ .draining ∧ s.scheduler.running = true ∧ 0 < s.scheduler.eventFd
  nodup : s.rest.Nodup

theorem epollLaw_init : EpollLaw epollInit where
  draining := by simp [epollInit, schedulerInit, Control.Rests]
  waiting _ hrest := absurd rfl hrest
  ticking _ hstage := by cases hstage
  event hmem := by cases hmem
  nodup := List.nodup_nil

/-- Outside the loop over the queue. -/
theorem EpollLaw.at_rest (h : EpollLaw s) (hrest : s.rest ≠ []) (hstage : s.stage ≠ .draining) :
    s.scheduler.control = .waiting := by
  cases hs : s.stage with
  | list => exact h.waiting hs hrest
  | draining => exact absurd hs hstage
  | ticking expirations => exact (h.ticking expirations hs).1

theorem EpollLaw.scheduler_step {o : SchedulerOp} {scheduler : Scheduler} (h : EpollLaw s)
    (ho : o ≠ .event ∧ o ≠ .drained ∧ o ≠ .leave)
    (hstep : schedulerStep s.scheduler o = .ok scheduler) :
    EpollLaw { s with scheduler := scheduler } := by
  have hrefs := schedulerStep_refs hstep
  obtain ⟨hdraining, hwaiting, hticking, hevent, hnodup⟩ := h
  have hat : .event ∈ s.rest → s.scheduler.control = .waiting := fun hmem =>
    EpollLaw.at_rest ⟨hdraining, hwaiting, hticking, hevent, hnodup⟩ (List.ne_nil_of_mem hmem)
      (hevent hmem).1
  cases schedulerStep_place hstep with
  | blockOn hcontrol hcontrol' =>
    refine ⟨?_, fun _ _ => hcontrol', fun _ hstage => ⟨hcontrol', (hticking _ hstage).2⟩, ?_, hnodup⟩
    · show s.stage = .draining ↔ ¬ scheduler.control.Rests
      rw [hdraining, hcontrol, hcontrol']
      simp [Control.Rests]
    · intro hmem
      have := hat hmem
      rw [hcontrol] at this
      cases this
  | event => exact absurd rfl ho.1
  | drained => exact absurd rfl ho.2.1
  | leave => exact absurd rfl ho.2.2
  | call hblock hcontrol hfd =>
    have hcontrol : scheduler.control = s.scheduler.control := hcontrol
    refine ⟨?_, ?_, ?_, ?_, hnodup⟩
    · show s.stage = .draining ↔ ¬ scheduler.control.Rests
      rw [hcontrol]
      exact hdraining
    · intro hstage hrest
      exact hcontrol.trans (hwaiting hstage hrest)
    · intro expirations hstage
      exact (hticking expirations hstage).imp_left hcontrol.trans
    · intro hmem
      obtain ⟨hstage, hrunning, hpos⟩ := hevent hmem
      refine ⟨hstage, ?_, Nat.lt_of_lt_of_le hpos hfd⟩
      rw [← hrunning]
      exact hrefs.running_same (by simp [hat hmem, Control.Rests]) hblock
  | turn hcontrol hcontrol' =>
    have hstage := hdraining.mpr hcontrol
    refine ⟨iff_of_true hstage hcontrol', ?_, ?_, fun hmem => absurd hstage (hevent hmem).1, hnodup⟩
    · intro hlist
      cases hstage.symm.trans hlist
    · intro expirations hticks
      cases hstage.symm.trans hticks

theorem epollLaw_step (h : EpollLaw s) (hok : epollStep s o = .ok s') : EpollLaw s' := by
  cases epollStep_cases hok with
  | step ho hstep heq =>
    subst heq
    exact h.scheduler_step ho hstep
  | drained hstep heq =>
    subst heq
    cases schedulerStep_cases hstep with
    | drained hcontrol hhead heq =>
      subst heq
      have hstage : s.stage = .draining := h.draining.mpr (by simp [hcontrol, Control.Rests])
      refine ⟨by simp [Control.Rests], fun _ _ => rfl, ?_,
        fun hmem => absurd hstage (h.event hmem).1, h.nodup⟩
      rintro expirations ⟨⟩
  | leave hstage hrest hstep heq =>
    subst heq
    cases schedulerStep_cases hstep with
    | leave hcontrol heq =>
      subst heq
      refine ⟨by simp [hstage, Control.Rests], fun _ hne => absurd hrest hne, ?_, ?_, h.nodup⟩
      · intro expirations hticks
        cases hstage.symm.trans hticks
      · intro hmem
        exact absurd hrest (List.ne_nil_of_mem hmem)
  | settime hstage heq =>
    subst heq
    exact ⟨h.draining, h.waiting, h.ticking, h.event, h.nodup⟩
  | expire harmed heq =>
    subst heq
    exact ⟨h.draining, h.waiting, h.ticking, h.event, h.nodup⟩
  | wait hstage hreturns heq =>
    subst heq
    obtain ⟨-, hcontrol, hrunning, -, hnodup, hready⟩ := hreturns
    refine ⟨h.draining, fun _ _ => hcontrol, ?_,
      fun hmem => ⟨by simp [hstage], hrunning, hready _ hmem⟩, hnodup⟩
    intro expirations hticks
    cases hstage.symm.trans hticks
  | event hstage hrest hstep heq =>
    subst heq
    have hnodup := h.nodup
    rw [hrest, List.nodup_cons] at hnodup
    cases schedulerStep_cases hstep with
    | event hcontrol hfd heq =>
      subst heq
      refine ⟨by simp [Control.Rests], ?_, ?_, fun hmem => absurd hmem hnodup.1, hnodup.2⟩
      · rintro ⟨⟩
      · rintro expirations ⟨⟩
  | timer hstage hrest hpos heq =>
    subst heq
    have hnodup := h.nodup
    rw [hrest, List.nodup_cons] at hnodup
    have hcontrol := h.waiting hstage (by simp [hrest])
    refine ⟨by simp [hcontrol, Control.Rests], fun _ _ => hcontrol, fun _ _ => ⟨hcontrol, hnodup.1⟩,
      ?_, hnodup.2⟩
    intro hmem
    obtain ⟨-, hrunning, hfd⟩ := h.event (by simp [hrest, hmem])
    exact ⟨by simp, hrunning, hfd⟩
  | tick hstage heq =>
    subst heq
    obtain ⟨hcontrol, hread⟩ := h.ticking _ hstage
    refine ⟨?_, fun _ _ => hcontrol, fun _ _ => ⟨hcontrol, hread⟩, ?_, h.nodup⟩
    · show (if _ then EpollStage.list else _) = .draining ↔ _
      split
      · simp [hcontrol, Control.Rests]
      · simp [hcontrol, Control.Rests]
    · intro hmem
      obtain ⟨-, hrunning, hfd⟩ := h.event hmem
      refine ⟨?_, hrunning, hfd⟩
      show (if _ then EpollStage.list else _) ≠ .draining
      split
      · simp
      · simp

end Taskio
