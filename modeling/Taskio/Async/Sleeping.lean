import Taskio.Lib.Chain
import Taskio.Lib.Run
import Taskio.Common.JoinEffect
import Taskio.Async.TreeRuntime

/-!
# How long a sleep lasts

All futures of a task, and all futures below one child of a join, share one waker, and a wake is not
tied to the await that it belongs to. A sleep is polled again as soon as this waker was called; so it
lasts until its handler is called exactly when nothing has called the waker by the time it begins.

* `JoinExt.Queued` — the children that a join will poll, whatever the shape of its list
* `SleepsWell` — no sleep that waits for its handler can be reached by a poll
* `runtimeStep_sleepsWell` — the steps that keep it
* `sleep_outlasts_timer` — the runs made of such steps
-/

namespace Taskio

open Lib (Reaches)

/-! ## The children that a join will poll -/

section Join

variable {E : Type} {cb : JoinCallbacks E} {s s' : JoinExt E} {o : JoinOp} {i j : Nat}

/-- The child is linked into the rest of the walk or into the ready list. -/
def JoinExt.Queued (s : JoinExt E) (i : Nat) : Prop :=
  Reaches s.next i s.walk ∨ Reaches s.next i s.pollHead

/-- Only its own waker links a child. -/
theorem queued_step (h : joinStep cb s o = .ok s') (hj : s'.Queued j) : s.Queued j ∨ o = .wake j := by
  cases joinStep_effect h with
  | move ho hsame =>
    rw [JoinExt.Queued, hsame.next, hsame.walk, hsame.head] at hj
    exact Or.inl hj
  | poll hstage hnext hlen hwalk hhead =>
    rw [JoinExt.Queued, hnext, hwalk, hhead] at hj
    rcases hj with hj | hj
    · exact Or.inl (Or.inr hj)
    · cases hj
  | child hstage hi hnext hlen hwalk hhead =>
    rw [JoinExt.Queued, hnext, hwalk, hhead] at hj
    refine Or.inl (hj.imp_left ?_)
    intro hj
    rw [JoinExt.walk, hstage]
    exact .link hj
  | ready hstage hnext hlen hwalk hhead =>
    rw [JoinExt.Queued, hnext, hwalk, hhead] at hj
    exact Or.inl hj
  | @wake i hi hnext hlen hwalk hhead =>
    have hwake : (Reaches s.next j s.walk ∨ Reaches s.next j s.pollHead) ∨ j = i := by
      rw [JoinExt.Queued, hwalk, hhead] at hj
      rcases hj with hj | hj
      · exact (Reaches.of_pushTail hnext hj).imp_left Or.inl
      · by_cases htail : s.pollTail = none
        · rw [if_pos htail] at hj
          exact Or.inr (Reaches.of_pushed hnext hj)
        · rw [if_neg htail] at hj
          exact (Reaches.of_pushTail hnext hj).imp_left Or.inr
    exact hwake.imp_right fun hji => congrArg JoinOp.wake hji.symm

/-- A join polls the child that its walk stands at. -/
theorem walking_of_polling {next : Option Nat} (h : joinStep cb s o = .ok s') (ho : ∀ i, o ≠ .wake i)
    (hstage : s'.stage = .polling i next) : s.stage = .walking (some i) := by
  cases joinStep_cases h with
  | child hwalking htask hfuture =>
    cases hstage
    exact hwalking
  | wake => exact absurd rfl (ho _)
  | @finish rand hwalking =>
    unfold joinFinish at hstage
    split at hstage
    · cases hstage
    · split at hstage <;> cases hstage
  | poll | pending | ready | cleaned | cleanup => cases hstage

end Join

/-! ## Sleeps that wait for their handlers -/

namespace Future

/-- The awaits end in a sleep whose handler is still to be called. -/
def Sleeping : Future → Prop
  | .sleep _ _ .second false => True
  | .waiting _ awaitFuture => awaitFuture.Sleeping
  | .fn _ | .sleep _ _ _ _ | .join _ _ _ _ => False

/-- No join in the tree will poll a child that sleeps, and the handlers were called that the sleeps
know of. -/
def SleepsWell (es : List TreeEvent) : Future → Prop
  | .fn _ => True
  | .waiting _ awaitFuture => awaitFuture.SleepsWell es
  | .sleep name _ _ handled => handled = true → .handled name ∈ es
  | .join _ _ ext futures =>
    (∀ i, (futures i).Sleeping → ¬ ext.Queued i) ∧ ∀ i, (futures i).SleepsWell es

end Future

/-- The waker in the context was called since the poll began that it is for. -/
def StackWoken (woken : Bool) : List Frame → Prop
  | [] => woken = true
  | .child _ _ ext _ i :: _ => ext.Queued i
  | .resumed _ _ :: stack | .awaited _ _ :: stack => StackWoken woken stack

/-- The same of the children that are not being polled. -/
def StackSleepsWell (es : List TreeEvent) : List Frame → Prop
  | [] => True
  | .child _ _ ext futures i :: stack =>
    (∀ j, j ≠ i → (futures j).Sleeping → ¬ ext.Queued j) ∧ (∀ j, (futures j).SleepsWell es) ∧
      StackSleepsWell es stack
  | .resumed _ _ :: stack | .awaited _ _ :: stack => StackSleepsWell es stack

/-- Where the innermost poll stands. -/
def PollPoint.SleepsWell (es : List TreeEvent) (woken : Bool) (stack : List Frame) : PollPoint → Prop
  | .idle f => f.SleepsWell es ∧ stack = [] ∧ (f.Sleeping → ¬ woken = true)
  | .polled f => f.SleepsWell es ∧ ¬ f.Sleeping
  | .inJoin _ _ ext futures =>
    (∀ j, (futures j).Sleeping → ¬ ext.Queued j) ∧ ∀ j, (futures j).SleepsWell es
  | .answered f poll =>
    f.SleepsWell es ∧ (f.Sleeping → ¬ StackWoken woken stack) ∧
      (poll = .ready → 0 < f.ms → .handled f.name ∈ es)
  | .running _ | .ended => True

/-- No await of a sleep is over before the handler was called. -/
def SleepLaw (es : List TreeEvent) : Prop :=
  ∀ before p x ms, before ++ [.passed p x ms] <+: es → 0 < ms → .handled x ∈ before

structure SleepsWell (s : TreeRun) : Prop where
  point : s.point.SleepsWell s.events s.woken s.stack
  stack : StackSleepsWell s.events s.stack
  law : SleepLaw s.events

variable {f f' : Future} {name i x : Nat} {kind : JoinKind} {ext ext' : JoinExt (List Nat)}
  {futures futures' : Nat → Future} {path : List Nat} {stack stack' : List Frame} {woken : Bool}
  {es es' : List TreeEvent} {s s' : TreeRun}

/-! ## More events -/

theorem Future.SleepsWell.mono (h : f.SleepsWell es) (hsub : es ⊆ es') : f.SleepsWell es' := by
  induction f with
  | fn name => trivial
  | waiting name awaitFuture ih => exact ih h
  | sleep name ms scope handled => exact fun hhandled => hsub (h hhandled)
  | join name kind ext futures ih => exact ⟨h.1, fun i => ih i (h.2 i)⟩

theorem StackSleepsWell.mono (h : StackSleepsWell es stack) (hsub : es ⊆ es') :
    StackSleepsWell es' stack := by
  induction stack with
  | nil => trivial
  | cons frame stack ih =>
    cases frame with
    | resumed name awaitFuture | awaited name awaitFuture => exact ih h
    | child name kind ext futures i => exact ⟨h.1, fun j => (h.2.1 j).mono hsub, ih h.2.2⟩

theorem SleepLaw.concat {e : TreeEvent} (h : SleepLaw es)
    (he : ∀ p x ms, e = .passed p x ms → 0 < ms → .handled x ∈ es) : SleepLaw (es ++ [e]) := by
  intro before p x ms hprefix hms
  rcases List.prefix_concat_iff.mp hprefix with heq | hprefix
  · obtain ⟨rfl, hlast⟩ := List.append_inj' heq rfl
    exact he p x ms (List.singleton_inj.mp hlast).symm hms
  · exact h before p x ms hprefix hms

theorem SleepLaw.append (h : SleepLaw es) (hes : ∀ e ∈ es', ∀ p x ms, e ≠ .passed p x ms) :
    SleepLaw (es ++ es') := by
  induction es' generalizing es with
  | nil => rwa [List.append_nil]
  | cons e es' ih =>
    obtain ⟨he, hes⟩ := List.forall_mem_cons.mp hes
    rw [List.append_cons]
    exact ih (h.concat fun p x ms heq => absurd heq (he p x ms)) hes

theorem cleanup_not_passed (f : Future) : ∀ e ∈ f.cleanup, ∀ p x ms, e ≠ .passed p x ms := by
  induction f with
  | fn name | sleep name ms scope handled => simp [Future.cleanup]
  | waiting name awaitFuture ih =>
    intro e he
    rcases List.mem_append.mp he with he | he
    · exact ih e he
    · simp [List.mem_singleton.mp he]
  | join name kind ext futures ih =>
    intro e he
    rcases List.mem_cons.mp he with rfl | he
    · simp
    · obtain ⟨i, -, he⟩ := List.mem_flatMap.mp he
      exact ih i e he

theorem given_not_passed (f : FutureFn) : ∀ e ∈ f.given, ∀ p x ms, e ≠ .passed p x ms := by
  induction f with
  | asyncFn name | sleep name ms => simp [FutureFn.given]
  | join name kind len args ih =>
    intro e he
    rcases List.mem_cons.mp he with rfl | he
    · simp
    · obtain ⟨i, -, he⟩ := List.mem_flatMap.mp he
      exact ih i e he

/-! ## Wakers -/

theorem returns_sleepsWell (f : FutureFn) : f.returns.SleepsWell es ∧ ¬ f.returns.Sleeping := by
  induction f with
  | asyncFn name => exact ⟨trivial, id⟩
  | sleep name ms => exact ⟨nofun, id⟩
  | join name kind len args ih =>
    exact ⟨⟨fun i hi => absurd hi (ih i).2, fun i => (ih i).1⟩, id⟩

/-- The waker of a child that does not sleep. -/
theorem wakeSlot_sleepsWell {future : Future}
    (hslot : wakeSlot kind ext futures i future = .ok (ext', futures'))
    (h : (Future.join name kind ext futures).SleepsWell es) (hfuture : future.SleepsWell es)
    (hawake : ¬ future.Sleeping) : (Future.join name kind ext' futures').SleepsWell es := by
  obtain ⟨ext₁, hwake, hslot⟩ := bind_eq_ok.mp hslot
  cases hslot
  constructor
  · intro j hj hqueued
    rw [Function.update_apply] at hj
    split at hj
    · exact hawake hj
    · rename_i hne
      rcases queued_step hwake hqueued with hqueued | hwoken
      · exact h.1 j hj hqueued
      · exact hne (JoinOp.wake.inj hwoken).symm
  · intro j
    rw [Function.update_apply]
    split
    · exact hfuture
    · exact h.2 j

theorem sleepHandler_sleepsWell (h : sleepHandler x f = .ok f') (hx : .handled x ∈ es) :
    f'.SleepsWell es ∧ ¬ f'.Sleeping := by
  induction f generalizing f' with
  | fn name => cases h
  | waiting name awaitFuture ih =>
    obtain ⟨future, hfuture, h⟩ := bind_eq_ok.mp h
    cases h
    obtain ⟨hwell, hawake⟩ := ih hfuture
    exact ⟨hwell, hawake⟩
  | sleep name ms scope handled =>
    cases scope with
    | first | done => cases h
    | second =>
      cases handled with
      | true => cases h
      | false =>
        unfold sleepHandler at h
        split at h
        · rename_i hname
          cases h
          exact ⟨fun _ => hname ▸ hx, id⟩
        · cases h
  | join name kind ext futures => cases h

/-- A handler wakes the children on its way, and none of them sleeps any more. -/
theorem wakeAt_sleepsWell (h : wakeAt (sleepHandler x) f path = .ok f') (hx : .handled x ∈ es)
    (hf : f.SleepsWell es) : f'.SleepsWell es ∧ ¬ f'.Sleeping := by
  induction f generalizing path f' with
  | fn name | sleep name ms scope handled =>
    cases path with
    | nil => exact sleepHandler_sleepsWell h hx
    | cons i path => cases h
  | waiting name awaitFuture ih =>
    cases path with
    | nil => exact sleepHandler_sleepsWell h hx
    | cons i path =>
      obtain ⟨future, hfuture, h⟩ := bind_eq_ok.mp h
      cases h
      obtain ⟨hwell, hawake⟩ := ih hfuture hf
      exact ⟨hwell, hawake⟩
  | join name kind ext futures ih =>
    cases path with
    | nil => exact sleepHandler_sleepsWell h hx
    | cons i path =>
      obtain ⟨future, hfuture, h⟩ := bind_eq_ok.mp h
      obtain ⟨⟨ext', futures'⟩, hslot, h⟩ := bind_eq_ok.mp h
      cases h
      obtain ⟨hwell, hawake⟩ := ih i hfuture (hf.2 i)
      have hjoin : (Future.join name kind ext' futures').SleepsWell es :=
        wakeSlot_sleepsWell hslot hf hwell hawake
      exact ⟨hjoin, id⟩

/-- The polls in progress wake only the children that are being polled. -/
theorem wakeStack_sleepsWell (h : wakeStack stack = .ok stack') (hstack : StackSleepsWell es stack) :
    StackSleepsWell es stack' := by
  induction stack generalizing stack' with
  | nil =>
    cases h
    trivial
  | cons frame stack ih =>
    cases frame with
    | resumed name awaitFuture | awaited name awaitFuture =>
      obtain ⟨stack₁, hwake, h⟩ := bind_eq_ok.mp h
      cases h
      have hrest := ih hwake hstack
      exact hrest
    | child name kind ext futures i =>
      obtain ⟨ext', hjoin, h⟩ := bind_eq_ok.mp h
      obtain ⟨stack₁, hwake, h⟩ := bind_eq_ok.mp h
      cases h
      refine ⟨?_, hstack.2.1, ih hwake hstack.2.2⟩
      intro j hji hj hqueued
      rcases queued_step hjoin hqueued with hqueued | hwoken
      · exact hstack.1 j hji hj hqueued
      · exact hji (JoinOp.wake.inj hwoken).symm

theorem callWaker_sleepsWell (h : s.callWaker = .ok s') (hstack : StackSleepsWell s.events s.stack) :
    StackSleepsWell s.events s'.stack ∧ s' = { s with stack := s'.stack, woken := true } := by
  obtain ⟨stack, hwake, h⟩ := bind_eq_ok.mp h
  cases h
  exact ⟨wakeStack_sleepsWell hwake hstack, rfl⟩

/-! ## One step of a poll -/

/-- A sleep begins, and nothing has called its waker since the poll began that it is for. -/
def TreeRun.StartsUnwoken (s : TreeRun) : PollOp → Prop
  | .enter => ∀ x ms handled, s.point = .polled (.sleep x ms .first handled) → 0 < ms →
    ¬ StackWoken s.woken s.stack
  | .enterPast | .body _ | .child | .cleaned | .finish _ | .ret => True

theorem callAtOnce_sleepsWell {name ms : Nat} (hwell : SleepsWell s)
    (h : s.callAtOnce name ms = .ok s') : SleepsWell s' := by
  obtain ⟨s₁, hwake, h⟩ := bind_eq_ok.mp h
  cases h
  obtain ⟨hstack', hs₁⟩ := callWaker_sleepsWell hwake hwell.stack
  have hevents : s₁.events = s.events := by rw [hs₁]
  refine ⟨⟨fun _ => by simp [TreeRun.log], nofun, nofun⟩, ?_, ?_⟩
  · refine StackSleepsWell.mono hstack' ?_
    rw [TreeRun.log, hevents]
    exact List.subset_append_left ..
  · rw [TreeRun.log, hevents]
    exact hwell.law.concat nofun

theorem enterPoll_sleepsWell (hpoint : s.point = .polled f) (hwell : SleepsWell s)
    (hstart : s.StartsUnwoken .enter) (h : enterPoll s f = .ok s') : SleepsWell s' := by
  have hf := hwell.point
  rw [hpoint] at hf
  obtain ⟨hf, hawake⟩ := hf
  have hstack := hwell.stack
  cases f with
  | fn name =>
    cases h
    exact ⟨trivial, hstack, hwell.law⟩
  | waiting name awaitFuture =>
    cases h
    exact ⟨⟨hf, hawake⟩, hstack, hwell.law⟩
  | sleep name ms scope handled =>
    cases scope with
    | first =>
      rw [enterPoll] at h
      by_cases hms : ms = 0
      · rw [if_pos hms] at h
        exact callAtOnce_sleepsWell hwell h
      · rw [if_neg hms] at h
        cases h
        have hadded := hstart name ms handled hpoint (Nat.pos_of_ne_zero hms)
        exact ⟨⟨nofun, fun _ => hadded, nofun⟩, hstack, hwell.law⟩
    | second =>
      cases h
      have hhandled : handled = true := by
        cases handled with
        | true => rfl
        | false => exact absurd trivial hawake
      exact ⟨⟨hf, nofun, fun _ _ => hf hhandled⟩, hstack, hwell.law⟩
    | done =>
      cases h
      exact ⟨⟨hf, nofun, nofun⟩, hstack, hwell.law⟩
  | join name kind ext futures =>
    obtain ⟨ext', hpoll, h⟩ := bind_eq_ok.mp h
    cases h
    refine ⟨⟨?_, hf.2⟩, hstack, hwell.law⟩
    intro i hi hqueued
    rcases queued_step hpoll hqueued with hqueued | hwoken
    · exact hf.1 i hi hqueued
    · cases hwoken

theorem endBody_sleepsWell {e : BodyEnd} (hwell : SleepsWell s) (h : endBody s name e = .ok s') :
    SleepsWell s' := by
  have hstack := hwell.stack
  cases e with
  | undefined | suspendedYield | asyncReturn =>
    cases h
    exact ⟨⟨trivial, nofun, nofun⟩, hstack, hwell.law⟩
  | yield =>
    obtain ⟨s₁, hwake, h⟩ := bind_eq_ok.mp h
    cases h
    obtain ⟨hstack', hs₁⟩ := callWaker_sleepsWell hwake hstack
    rw [hs₁]
    exact ⟨⟨trivial, nofun, nofun⟩, hstack', hwell.law⟩
  | await f =>
    cases h
    refine ⟨returns_sleepsWell f, hstack.mono (List.subset_append_left ..), ?_⟩
    refine hwell.law.append ?_
    intro e he
    rcases List.mem_append.mp he with he | he
    · exact given_not_passed f e he
    · simp [List.mem_singleton.mp he]

theorem joinTurn_sleepsWell {o : JoinOp} (hpoint : s.point = .inJoin name kind ext futures)
    (hwell : SleepsWell s) (ho : ∀ i, o ≠ .wake i) (h : joinTurn s name kind ext futures o = .ok s') :
    SleepsWell s' := by
  have hjoin := hwell.point
  rw [hpoint] at hjoin
  obtain ⟨hawake, hall⟩ := hjoin
  obtain ⟨ext', hstep, h⟩ := bind_eq_ok.mp h
  have hawake' : ∀ j, (futures j).Sleeping → ¬ ext'.Queued j := by
    intro j hj hqueued
    rcases queued_step hstep hqueued with hqueued | hwoken
    · exact hawake j hj hqueued
    · exact ho j hwoken
  split at h
  · rename_i i next hstage
    cases h
    -- the child that is polled was at the head of the walk
    have hi : ext.Queued i := by
      rw [JoinExt.Queued, JoinExt.walk, walking_of_polling hstep ho hstage]
      exact Or.inl .here
    exact ⟨⟨hall i, fun hi' => hawake i hi' hi⟩, ⟨fun j _ => hawake' j, hall, hwell.stack⟩, hwell.law⟩
  · cases h
    exact ⟨⟨⟨hawake', hall⟩, fun hf => absurd hf id, fun _ hms => absurd hms (Nat.lt_irrefl 0)⟩,
      hwell.stack, hwell.law⟩
  · cases h
    exact ⟨⟨⟨hawake', hall⟩, fun hf => absurd hf id, fun _ hms => absurd hms (Nat.lt_irrefl 0)⟩,
      hwell.stack, hwell.law⟩
  all_goals
    cases h
    exact ⟨⟨hawake', hall⟩, hwell.stack, hwell.law⟩

theorem returnPoll_sleepsWell {poll : FuturePoll} (hpoint : s.point = .answered f poll)
    (hwell : SleepsWell s) (h : returnPoll s f poll = .ok s') : SleepsWell s' := by
  have hf := hwell.point
  rw [hpoint] at hf
  obtain ⟨hf, hunwoken, hready⟩ := hf
  have hstack := hwell.stack
  -- the await of a future that is ready is over
  have hpassed : poll = .ready → ∀ p,
      SleepLaw (s.events ++ (f.cleanup ++ [.passed p f.name f.ms])) := by
    intro heq p
    rw [← List.append_assoc]
    refine (hwell.law.append (cleanup_not_passed f)).concat ?_
    intro p' x ms he hms
    cases he
    exact List.mem_append_left _ (hready heq hms)
  cases returnPoll_cases h with
  | ended hnil =>
    refine ⟨trivial, hstack.mono (List.subset_append_left ..), ?_⟩
    exact hwell.law.append (cleanup_not_passed f)
  | idle hnil =>
    rw [hnil] at hunwoken
    exact ⟨⟨hf, hnil, hunwoken⟩, hstack, hwell.law⟩
  | @resumed name x stack hcons =>
    rw [hcons] at hstack
    exact ⟨trivial, StackSleepsWell.mono hstack (List.subset_append_left ..), hpassed rfl name⟩
  | @awaited name x stack s₁ hcons hwake =>
    rw [hcons] at hstack
    obtain ⟨hstack', hs₁⟩ := callWaker_sleepsWell hwake
      (StackSleepsWell.mono hstack (List.subset_append_left ..))
    rw [hs₁]
    exact ⟨⟨trivial, nofun, nofun⟩, hstack', hpassed rfl name⟩
  | waiting hcons =>
    rcases hcons with hcons | hcons
    · rw [hcons] at hunwoken hstack
      exact ⟨⟨hf, hunwoken, nofun⟩, hstack, hwell.law⟩
    · rw [hcons] at hunwoken hstack
      exact ⟨⟨hf, hunwoken, nofun⟩, hstack, hwell.law⟩
  | @child poll name i kind ext ext' futures stack hcons hret =>
    rw [hcons] at hunwoken hstack
    obtain ⟨hawake, hall, hrest⟩ := hstack
    have hsub : s.events ⊆ s.events ++ if poll = .ready then f.cleanup else [] :=
      List.subset_append_left ..
    refine ⟨⟨?_, ?_⟩, StackSleepsWell.mono hrest hsub,
      hwell.law.append ?_⟩
    · intro j hj hqueued
      rcases queued_step hret hqueued with hqueued | hwoken
      · rw [Function.update_apply] at hj
        split at hj
        · rename_i hji
          exact hunwoken hj (hji ▸ hqueued)
        · rename_i hji
          exact hawake j hji hj hqueued
      · cases hwoken
    · intro j
      by_cases hji : j = i
      · subst hji
        rw [Function.update_self]
        exact hf.mono hsub
      · rw [Function.update_of_ne hji]
        exact (hall j).mono hsub
    · intro e he
      split at he
      · exact cleanup_not_passed f e he
      · cases he

/-! ## Runs -/

theorem pollStep_sleepsWell {o : PollOp} (hwell : SleepsWell s) (hstart : s.StartsUnwoken o)
    (h : pollStep s o = .ok s') : SleepsWell s' := by
  have hlogged : ∀ {f}, s.point = .polled f → SleepsWell (s.log [.polled f.name]) := by
    intro f hpoint
    refine ⟨?_, hwell.stack.mono (List.subset_append_left ..), hwell.law.concat nofun⟩
    have hf := hwell.point
    rw [hpoint] at hf
    show PollPoint.SleepsWell _ _ _ s.point
    rw [hpoint]
    exact ⟨hf.1.mono (List.subset_append_left ..), hf.2⟩
  unfold pollStep at h
  split at h
  · rename_i f hpoint
    exact enterPoll_sleepsWell (s := s.log [.polled f.name]) hpoint (hlogged hpoint) hstart h
  · rename_i name ms handled hpoint
    exact callAtOnce_sleepsWell (hlogged hpoint) h
  · exact endBody_sleepsWell hwell h
  · rename_i name kind ext futures hpoint
    exact joinTurn_sleepsWell hpoint hwell (by simp) h
  · rename_i name kind ext futures hpoint
    exact joinTurn_sleepsWell hpoint hwell (by simp) h
  · rename_i rand name kind ext futures hpoint
    exact joinTurn_sleepsWell hpoint hwell (by simp) h
  · rename_i f poll hpoint
    exact returnPoll_sleepsWell hpoint hwell h
  · cases h

theorem treeRun_sleepsWell (f : FutureFn) : SleepsWell (treeRun f) := by
  obtain ⟨hwell, hawake⟩ : f.returns.SleepsWell f.given ∧ ¬ f.returns.Sleeping :=
    returns_sleepsWell f
  refine ⟨⟨hwell, rfl, fun h => absurd h hawake⟩, trivial, ?_⟩
  have hnil : SleepLaw [] := by
    intro before p x ms hprefix
    simp at hprefix
  exact hnil.append (given_not_passed f)

/-- The task is polled when its waker was called, no sleep begins woken, and no other wakers are called
than those of the handlers of sleeps that are not over and of the polls themselves. -/
def KeepsSleeping (s : TreeRun) : TreeOp → Prop
  | .poll => s.woken = true
  | .inside o => s.StartsUnwoken o
  | .handler x _ => s.outlived x = false
  | .wake _ | .wakeOuter _ _ | .cleanup => False

theorem treeStep_sleepsWell {o : TreeOp} (hwell : SleepsWell s) (ho : KeepsSleeping s o)
    (h : treeStep s o = .ok s') : SleepsWell s' := by
  have hpt := hwell.point
  unfold treeStep at h
  split at h
  · rename_i f hpoint
    rw [hpoint] at hpt
    cases h
    exact ⟨⟨hpt.1, fun hsleeping => hpt.2.2 hsleeping ho⟩, hwell.stack, hwell.law⟩
  · exact pollStep_sleepsWell hwell ho h
  · rename_i x path
    obtain ⟨f, f', hpoint, hwake, rfl⟩ := callHandler_ok h
    rw [hpoint] at hpt
    have hsub : s.events ⊆ s.events ++ [.handled x] := List.subset_append_left ..
    obtain ⟨hf', hawake⟩ := wakeAt_sleepsWell hwake (by simp) (hpt.1.mono hsub)
    exact ⟨⟨hf', hpt.2.1, fun h => absurd h hawake⟩, hwell.stack.mono hsub, hwell.law.concat nofun⟩
  all_goals first | exact ho.elim | cases h

/-- Every sleep begins unwoken, and no timer calls the handler of a sleep that is over. -/
def StartsUnwoken (s : TreeRuntime) : RuntimeOp → Prop
  | .inside o => ∀ t task, s.polling = some t → s.tasks[t]? = some task → task.StartsUnwoken o
  | .handler t x _ => ∀ task, s.tasks[t]? = some task → task.outlived x = false
  | .spawn _ | .take _ => True

theorem rtask_eq_ok {r : TreeRuntime} {t : Nat} {task : TreeRun} :
    r.task t = .ok task ↔ r.tasks[t]? = some task := by
  rw [TreeRuntime.task]
  cases r.tasks[t]? <;> simp

theorem runtimeStep_sleepsWell {r r' : TreeRuntime} {o : RuntimeOp}
    (hwell : ∀ task ∈ r.tasks, SleepsWell task) (ho : StartsUnwoken r o)
    (h : runtimeStep r o = .ok r') : ∀ task ∈ r'.tasks, SleepsWell task := by
  -- one task takes a step of its own
  have hset : ∀ {t : Nat} {task task' : TreeRun} (o' : TreeOp), r.tasks[t]? = some task →
      KeepsSleeping task o' → treeStep task o' = .ok task' →
      ∀ other ∈ r.tasks.set t task', SleepsWell other := by
    intro t task task' o' htask hkeeps hstep other hother
    rcases List.mem_or_eq_of_mem_set hother with hother | rfl
    · exact hwell other hother
    · exact treeStep_sleepsWell (hwell task (List.mem_of_getElem? htask)) hkeeps hstep
  cases o with
  | spawn f =>
    cases h
    intro task htask
    rcases List.mem_append.mp htask with htask | htask
    · exact hwell task htask
    · rw [List.mem_singleton.mp htask]
      exact treeRun_sleepsWell f
  | take t =>
    obtain ⟨task, htask, h⟩ := bind_eq_ok.mp h
    split at h
    · rename_i hwoken
      obtain ⟨task', hstep, h⟩ := bind_eq_ok.mp h
      cases h
      exact hset .poll (rtask_eq_ok.mp htask) hwoken.2 hstep
    · cases h
  | inside o =>
    rw [runtimeStep] at h
    split at h
    · cases h
    · rename_i t hpolling
      obtain ⟨task, htask, h⟩ := bind_eq_ok.mp h
      obtain ⟨task', hstep, h⟩ := bind_eq_ok.mp h
      cases h
      have htask := rtask_eq_ok.mp htask
      exact hset (.inside o) htask (ho t task hpolling htask) hstep
  | handler t x path =>
    obtain ⟨task, htask, h⟩ := bind_eq_ok.mp h
    split at h
    · obtain ⟨task', hstep, h⟩ := bind_eq_ok.mp h
      cases h
      have htask := rtask_eq_ok.mp htask
      exact hset (.handler x path) htask (ho task htask) hstep
    · cases h

/-- **In a run in which every sleep begins unwoken and no handler is called for a sleep that is over,
no coroutine gets past an await of a sleep before the sleep's handler was called.** -/
theorem sleep_outlasts_timer {r : TreeRuntime} {os : List RuntimeOp}
    (hstart : Lib.Along runtimeStep StartsUnwoken treeRuntime os)
    (hrun : Lib.run runtimeStep treeRuntime os = .ok r) {task : TreeRun} (htask : task ∈ r.tasks)
    {before after : List TreeEvent} {p x ms : Nat}
    (hevents : task.events = before ++ .passed p x ms :: after) (hms : 0 < ms) :
    .handled x ∈ before := by
  have hwell : ∀ task ∈ r.tasks, SleepsWell task :=
    Lib.run_invariant (I := fun r => ∀ task ∈ r.tasks, SleepsWell task)
      (fun _ _ _ hwell ho hok => runtimeStep_sleepsWell hwell ho hok)
      (fun _ htask => absurd htask List.not_mem_nil) hstart hrun
  exact (hwell task htask).law before p x ms ⟨after, by rw [hevents, ← List.append_cons]⟩ hms

/-- A coroutine sleeps, and is polled again after the handler was called. -/
def sleepOps : List RuntimeOp :=
  [.spawn (.asyncFn 0), .take 0, .inside .enter, .inside (.body (.await (.sleep 1 5))),
    .inside .enter, .inside .ret, .inside .ret, .handler 0 1 [], .take 0, .inside .enter,
    .inside .enter, .inside .ret]

theorem sleep_outlasts_timer_once : ∃ r, Lib.run runtimeStep treeRuntime sleepOps = .ok r ∧
    ∃ task ∈ r.tasks, ∃ before, task.events = before ++ [.passed 0 1 5] ∧ .handled 1 ∈ before := by
  have hstart : Lib.Along runtimeStep StartsUnwoken treeRuntime sleepOps := by
    have hinside : ∀ (s : TreeRuntime) (o : PollOp), o ≠ .enter → StartsUnwoken s (.inside o) := by
      intro s o ho t task _ _
      cases o with
      | enter => exact absurd rfl ho
      | _ => trivial
    refine Lib.along_cons trivial rfl (Lib.along_cons trivial rfl (Lib.along_cons ?_ rfl
      (Lib.along_cons (hinside _ _ nofun) rfl (Lib.along_cons ?_ rfl
      (Lib.along_cons (hinside _ _ nofun) rfl (Lib.along_cons (hinside _ _ nofun) rfl
      (Lib.along_cons ?handler rfl (Lib.along_cons trivial rfl (Lib.along_cons ?_ rfl
      (Lib.along_cons ?_ rfl (Lib.along_cons (hinside _ _ nofun) rfl trivial)))))))))))
    case handler =>
      rintro task ⟨⟩
      rfl
    all_goals
      rintro t task ⟨⟩ ⟨⟩ x ms handled hpoint hms hwoken
      cases hpoint
    cases hwoken
  refine ⟨_, rfl, _, List.mem_singleton.mpr rfl, [.given 0, .polled 0, .given 1, .awaits 0 1,
    .polled 1, .handled 1, .polled 0, .polled 1, .cleanedUp 1], rfl, ?_⟩
  exact sleep_outlasts_timer hstart rfl (List.mem_singleton.mpr rfl) rfl (by decide)

/-- The select's first child yields in the round in which the second is ready, and the coroutine that
awaits the select goes on to a sleep in the same poll. -/
def cutShortOps : List RuntimeOp :=
  [.spawn (.asyncFn 0), .take 0] ++
    ([.enter, .body (.await (.join 1 (.select true) 2 fun i => .asyncFn (i + 2))), .enter,
      .child, .enter, .body .yield, .ret, .child, .enter, .body .yield, .ret, .finish 0, .ret,
      .ret] : List PollOp).map .inside ++
    [.take 0] ++
    ([.enter, .enter, .child, .enter, .body .yield, .ret, .child, .enter, .body .asyncReturn, .ret,
      .cleaned, .finish 0, .ret, .body (.await (.sleep 4 100)), .enter, .ret,
      .ret] : List PollOp).map .inside ++
    [.take 0] ++ ([.enter, .enter, .ret] : List PollOp).map .inside

/-- The wake of the child that yielded cuts the sleep short: its handler is not called at all. -/
theorem sleep_cut_short : ∃ r, Lib.run runtimeStep treeRuntime cutShortOps = .ok r ∧
    ∃ task ∈ r.tasks, .passed 0 4 100 ∈ task.events ∧ .handled 4 ∉ task.events := by
  refine ⟨_, rfl, _, List.mem_singleton.mpr rfl, ?_, ?_⟩ <;> decide

/-- A select of two sleeps returns with the second, and the coroutine goes on to a sleep. -/
def lateHandlerOps : List RuntimeOp :=
  [.spawn (.asyncFn 0), .take 0] ++
    ([.enter, .body (.await (.join 1 (.select true) 2 fun i => .sleep (i + 2) (10 - 5 * i))), .enter,
      .child, .enter, .ret, .child, .enter, .ret, .finish 0, .ret, .ret] : List PollOp).map .inside ++
    [.handler 0 3 [1], .take 0] ++
    ([.enter, .enter, .child, .enter, .ret, .cleaned, .finish 0, .ret, .body (.await (.sleep 4 100)),
      .enter, .ret, .ret] : List PollOp).map .inside ++
    [.handler 0 2 [0]]

-- the abort of the first sleep missed its timer, and the handler uses the list of the select
example : Lib.run runtimeStep treeRuntime lateHandlerOps = .error .useAfterFree := rfl

end Taskio
