import Mathlib.Algebra.GroupWithZero.Nat
import Mathlib.Algebra.Order.Monoid.Unbundled.WithTop
import Mathlib.Data.Finset.Lattice.Fold
import Mathlib.Order.Lattice.Nat
import Taskio.Async.SleepTreePoll

/-!
# How long a tree of sleeps takes

A join of sleeps takes as long as the longest, a select as long as the shortest.

* `FutureFn.delay`, `Future.delay` — the time that a tree takes, as it is called and later
* `treeStep_delay` — no step changes it
* `sleep_tree_answers` — a poll of the root answers ready exactly when this time has passed
-/

namespace Taskio

variable {kind : JoinKind} {f f' : Future} {len now : Nat} {d d' : WithTop Nat}
  {delays delays' : Nat → WithTop Nat} {path : List Nat} {stack stack' : List Frame} {s s' : TreeRun}

/-! ## The time that a tree takes -/

/-- A select of no children is ready at once. -/
def JoinKind.delay (kind : JoinKind) (len : Nat) (delays : Nat → WithTop Nat) : WithTop Nat :=
  match kind with
  | .join => (Finset.range len).sup delays
  | .select _ => if len = 0 then 0 else (Finset.range len).inf delays

/-- Nothing is said of coroutines: they count as if they never returned. -/
def FutureFn.delay : FutureFn → WithTop Nat
  | .asyncFn _ => ⊤
  | .sleep _ ms => ms
  | .join _ kind len args => kind.delay len fun i => (args i).delay

def Future.delay : Future → WithTop Nat
  | .fn _ | .waiting _ _ => ⊤
  | .sleep _ ms _ _ => ms
  | .join _ kind ext futures => kind.delay ext.len fun i => (futures i).delay

/-- No handler was called before the time of its sleep. -/
def Future.NotEarly (now : Nat) : Future → Prop
  | .sleep _ ms _ handled => handled = true → ms ≤ now
  | .join _ _ ext futures => ∀ i < ext.len, (futures i).NotEarly now
  | .fn _ | .waiting _ _ => True

/-- The handlers that have been called are those of the sleeps whose time has come. The sleeps of a
child that has answered need not be called any more. -/
def Future.OnTime (now : Nat) : Future → Prop
  | .sleep _ ms _ handled => handled = true ↔ ms ≤ now
  | .join _ _ ext futures => ∀ i < ext.len,
      (ext.pending i → (futures i).OnTime now) ∧ (¬ ext.pending i → (futures i).NotEarly now)
  | .fn _ | .waiting _ _ => True

theorem JoinKind.delay_congr (h : ∀ i < len, delays i = delays' i) :
    kind.delay len delays = kind.delay len delays' := by
  have hrange : ∀ i ∈ Finset.range len, delays i = delays' i := fun i hi => h i (Finset.mem_range.mp hi)
  cases kind with
  | join => exact Finset.sup_congr rfl hrange
  | select biased => exact congrArg (ite (len = 0) 0) (Finset.inf_congr rfl hrange)

/-- The last child of a join, the first one of a select. -/
theorem JoinKind.delay_le_iff :
    kind.delay len delays ≤ now ↔ kind.Complete len fun i => delays i ≤ now := by
  have hnow : (now : WithTop Nat) < ⊤ := WithTop.coe_lt_top now
  cases kind with
  | join =>
    show (Finset.range len).sup delays ≤ now ↔ ∀ i < len, delays i ≤ now
    simp only [Finset.sup_le_iff, Finset.mem_range]
  | select biased =>
    show (if len = 0 then 0 else (Finset.range len).inf delays) ≤ (now : WithTop Nat) ↔
      len = 0 ∨ ∃ i < len, delays i ≤ now
    by_cases hlen : len = 0
    · rw [if_pos hlen]
      exact iff_of_true bot_le (Or.inl hlen)
    · rw [if_neg hlen, Finset.inf_le_iff hnow, or_iff_right hlen]
      simp only [Finset.mem_range]

theorem Future.NotEarly.delay_le (h : f.NotEarly now) (hdone : f.Done) : f.delay ≤ now := by
  induction f with
  | fn name | waiting name awaitFuture => exact absurd hdone id
  | sleep name ms scope handled => exact WithTop.coe_le_coe.mpr (h hdone)
  | join name kind ext futures ih =>
    rw [Future.delay, JoinKind.delay_le_iff]
    exact JoinKind.Complete.mono hdone fun i hi => ih i (h i hi)

theorem Future.OnTime.done_iff (h : f.OnTime now) (hwaits : f.Waits) : f.Done ↔ f.delay ≤ now := by
  induction f with
  | fn name | waiting name awaitFuture => exact hwaits.elim
  | sleep name ms scope handled => exact Iff.trans h WithTop.coe_le_coe.symm
  | join name kind ext futures ih =>
    rw [Future.delay, JoinKind.delay_le_iff]
    obtain ⟨-, -, -, hchildren⟩ := hwaits
    refine JoinKind.complete_congr fun i hi => ?_
    by_cases hpending : ext.pending i
    · exact ih i ((h i hi).1 hpending) ((hchildren i hi).1 hpending).1
    · -- a child that has answered was done, and no sooner than its time
      have hdone := (hchildren i hi).2 hpending
      exact iff_of_true hdone (((h i hi).2 hpending).delay_le hdone)

theorem delay_returns (g : FutureFn) : g.returns.delay = g.delay := by
  induction g with
  | asyncFn name | sleep name ms => rfl
  | join name kind len args ih =>
    rw [FutureFn.returns, Future.delay, FutureFn.delay, len_joinExt]
    exact JoinKind.delay_congr fun i _ => ih i

/-! ## No step changes it -/

def PollPoint.delay : PollPoint → WithTop Nat
  | .idle f | .polled f | .answered f _ => f.delay
  | .inJoin _ kind ext futures => kind.delay ext.len fun i => (futures i).delay
  | .running _ | .ended => ⊤

/-- The time that the root takes, from that of the future that is being polled. -/
def stackDelay : List Frame → WithTop Nat → WithTop Nat
  | [], d => d
  | .child _ kind ext futures i :: stack, d =>
    stackDelay stack (kind.delay ext.len (Function.update (fun j => (futures j).delay) i d))
  | .resumed _ _ :: stack, _ | .awaited _ _ :: stack, _ => stackDelay stack ⊤

def TreeRun.delay (s : TreeRun) : WithTop Nat := stackDelay s.stack s.point.delay

theorem delay_update (futures : Nat → Future) (i : Nat) (f : Future) :
    (fun j => (Function.update futures i f j).delay) =
      Function.update (fun j => (futures j).delay) i f.delay := by
  funext j
  exact Function.apply_update (fun _ => Future.delay) futures i f j

theorem joinStep_delay {ext ext' : JoinExt (List Nat)} {o : JoinOp}
    (hok : joinStep kind.callbacks ext o = .ok ext') :
    kind.delay ext'.len delays = kind.delay ext.len delays := by
  rw [(joinStep_effect hok).history.1]

theorem wakeStack_delay (hok : wakeStack stack = .ok stack') :
    stackDelay stack' d = stackDelay stack d := by
  induction stack generalizing stack' d with
  | nil =>
    cases hok
    rfl
  | cons frame stack ih =>
    cases frame with
    | resumed name awaitFuture | awaited name awaitFuture =>
      obtain ⟨stack₁, hstack, hok⟩ := bind_eq_ok.mp hok
      cases hok
      exact ih hstack
    | child name kind ext futures i =>
      obtain ⟨ext', hwake, hok⟩ := bind_eq_ok.mp hok
      obtain ⟨stack₁, hstack, hok⟩ := bind_eq_ok.mp hok
      cases hok
      show stackDelay stack₁ _ = stackDelay stack _
      rw [ih hstack, joinStep_delay hwake]

theorem callWaker_delay (hok : s.callWaker = .ok s') :
    stackDelay s'.stack d = stackDelay s.stack d := by
  obtain ⟨stack', hstack, hok⟩ := bind_eq_ok.mp hok
  cases hok
  exact wakeStack_delay hstack

theorem wakeAt_delay {leaf : Future → Except Fault Future}
    (hleaf : ∀ f f', leaf f = .ok f' → f'.delay = f.delay) (hok : wakeAt leaf f path = .ok f') :
    f'.delay = f.delay := by
  induction f generalizing path f' with
  | fn name | sleep name ms scope handled =>
    cases path with
    | nil => exact hleaf _ _ hok
    | cons i path => cases hok
  | waiting name awaitFuture ih =>
    cases path with
    | nil => exact hleaf _ _ hok
    | cons i path =>
      obtain ⟨awaitFuture', -, hok⟩ := bind_eq_ok.mp hok
      cases hok
      rfl
  | join name kind ext futures ih =>
    cases path with
    | nil => exact hleaf _ _ hok
    | cons i path =>
      obtain ⟨future, hfuture, hok⟩ := bind_eq_ok.mp hok
      obtain ⟨⟨ext', futures'⟩, hslot, hok⟩ := bind_eq_ok.mp hok
      cases hok
      obtain ⟨ext₁, hwake, hslot⟩ := bind_eq_ok.mp hslot
      cases hslot
      rw [Future.delay, Future.delay, joinStep_delay hwake, delay_update, ih i hfuture,
        Function.update_eq_self]

theorem sleepHandler_delay {x : Nat} (hok : sleepHandler x f = .ok f') : f'.delay = f.delay := by
  unfold sleepHandler at hok
  split at hok
  · split at hok
    · cases hok
      rfl
    · cases hok
  · obtain ⟨awaitFuture', -, hok⟩ := bind_eq_ok.mp hok
    cases hok
    rfl
  all_goals cases hok

theorem callAtOnce_delay {name ms : Nat} (hok : s.callAtOnce name ms = .ok s') :
    s'.delay = stackDelay s.stack ms := by
  obtain ⟨s₁, hwake, hok⟩ := bind_eq_ok.mp hok
  cases hok
  show stackDelay s₁.stack _ = _
  exact callWaker_delay hwake

theorem enterPoll_delay (hok : enterPoll s f = .ok s') : s'.delay = stackDelay s.stack f.delay := by
  cases f with
  | fn name | waiting name awaitFuture =>
    cases hok
    rfl
  | sleep name ms scope handled =>
    cases scope with
    | first =>
      rw [enterPoll] at hok
      by_cases hms : ms = 0
      · rw [if_pos hms] at hok
        exact callAtOnce_delay hok
      · rw [if_neg hms] at hok
        cases hok
        rfl
    | second | done =>
      cases hok
      rfl
  | join name kind ext futures =>
    obtain ⟨ext', hpoll, hok⟩ := bind_eq_ok.mp hok
    cases hok
    exact congrArg (stackDelay s.stack) (joinStep_delay hpoll)

theorem endBody_delay {name : Nat} {e : BodyEnd} (hok : endBody s name e = .ok s') :
    s'.delay = stackDelay s.stack ⊤ := by
  cases e with
  | undefined | suspendedYield | await f | asyncReturn =>
    cases hok
    rfl
  | yield =>
    obtain ⟨s₁, hwake, hok⟩ := bind_eq_ok.mp hok
    cases hok
    show stackDelay s₁.stack _ = _
    exact callWaker_delay hwake

theorem joinTurn_delay {name : Nat} {ext : JoinExt (List Nat)} {futures : Nat → Future} {o : JoinOp}
    (hok : joinTurn s name kind ext futures o = .ok s') :
    s'.delay = stackDelay s.stack (kind.delay ext.len fun i => (futures i).delay) := by
  obtain ⟨ext', hstep, hok⟩ := bind_eq_ok.mp hok
  rw [← joinStep_delay hstep]
  split at hok
  · rename_i i next hstage
    cases hok
    show stackDelay s.stack (kind.delay ext'.len (Function.update (fun j => (futures j).delay) i _)) = _
    rw [PollPoint.delay, Function.update_eq_self]
  all_goals
    cases hok
    rfl

theorem returnPoll_delay {poll : FuturePoll} (hok : returnPoll s f poll = .ok s') :
    s'.point = .ended ∨ s'.delay = stackDelay s.stack f.delay := by
  cases returnPoll_cases hok with
  | ended hnil => exact Or.inl rfl
  | idle hnil => exact Or.inr rfl
  | resumed heq =>
    rw [heq]
    exact Or.inr rfl
  | awaited heq hwake =>
    rw [heq]
    exact Or.inr (callWaker_delay hwake)
  | waiting heq =>
    rcases heq with heq | heq
    · rw [heq]
      exact Or.inr rfl
    · rw [heq]
      exact Or.inr rfl
  | @child _ name i kind ext ext' futures stack heq hret =>
    rw [heq]
    refine Or.inr (congrArg (stackDelay stack) ?_)
    rw [PollPoint.delay, joinStep_delay hret, delay_update]

theorem pollStep_delay {o : PollOp} (hok : pollStep s o = .ok s') :
    s'.point = .ended ∨ s'.delay = s.delay := by
  have hdelay : s.delay = stackDelay s.stack s.point.delay := rfl
  rw [hdelay]
  unfold pollStep at hok
  split at hok
  · rename_i f hpoint
    rw [hpoint]
    exact Or.inr (enterPoll_delay (s := s.log [.polled f.name]) hok)
  · rename_i name ms handled hpoint
    rw [hpoint]
    exact Or.inr (callAtOnce_delay (s := s.log [.polled name]) hok)
  · rename_i e name hpoint
    rw [hpoint]
    exact Or.inr (endBody_delay hok)
  · rename_i name kind ext futures hpoint
    rw [hpoint]
    exact Or.inr (joinTurn_delay hok)
  · rename_i name kind ext futures hpoint
    rw [hpoint]
    exact Or.inr (joinTurn_delay hok)
  · rename_i rand name kind ext futures hpoint
    rw [hpoint]
    exact Or.inr (joinTurn_delay hok)
  · rename_i f poll hpoint
    rw [hpoint]
    exact returnPoll_delay hok
  · cases hok

theorem wakeSlot_delay {ext ext' : JoinExt (List Nat)} {futures futures' : Nat → Future} {i : Nat}
    (hok : (do
      let future ← wakeAt .ok (futures i) path
      wakeSlot kind ext futures i future) = .ok (ext', futures')) :
    kind.delay ext'.len = kind.delay ext.len ∧
      (fun j => (futures' j).delay) = fun j => (futures j).delay := by
  obtain ⟨future, hfuture, hok⟩ := bind_eq_ok.mp hok
  obtain ⟨ext₁, hwake, hok⟩ := bind_eq_ok.mp hok
  cases hok
  have hkept : future.delay = (futures i).delay := by
    refine wakeAt_delay ?_ hfuture
    rintro f _ ⟨⟩
    rfl
  refine ⟨funext fun _ => joinStep_delay hwake, ?_⟩
  rw [delay_update, hkept, Function.update_eq_self]

theorem wakeFrame_delay {n : Nat} (hok : wakeFrame stack n path = .ok stack') :
    stackDelay stack' d = stackDelay stack d := by
  induction stack generalizing n stack' d with
  | nil =>
    unfold wakeFrame at hok
    cases hok
  | cons frame stack ih =>
    unfold wakeFrame at hok
    split at hok
    · rename_i name kind ext futures j stack₁ i path heq
      cases heq
      split at hok
      · cases hok
      · obtain ⟨future, hfuture, hok⟩ := bind_eq_ok.mp hok
        obtain ⟨⟨ext', futures'⟩, hslot, hok⟩ := bind_eq_ok.mp hok
        obtain ⟨stack₂, hstack, hok⟩ := bind_eq_ok.mp hok
        cases hok
        obtain ⟨hlen, hfutures⟩ := wakeSlot_delay (bind_eq_ok.mpr ⟨future, hfuture, hslot⟩)
        show stackDelay stack₂ _ = stackDelay stack _
        rw [wakeStack_delay hstack, hlen, hfutures]
    · rename_i frame₁ stack₁ n path heq
      cases heq
      obtain ⟨stack₂, hstack, hok⟩ := bind_eq_ok.mp hok
      cases hok
      cases frame with
      | resumed | awaited | child => exact ih hstack
    · cases hok

/-- Whatever happens to the tree, until its root is cleaned up. -/
theorem treeStep_delay {o : TreeOp} (hok : treeStep s o = .ok s') :
    s'.point = .ended ∨ s'.delay = s.delay := by
  have hdelay : s.delay = stackDelay s.stack s.point.delay := rfl
  rw [hdelay]
  unfold treeStep at hok
  split at hok
  · rename_i f hpoint
    rw [hpoint]
    cases hok
    exact Or.inr rfl
  · exact pollStep_delay hok
  · rename_i x path
    obtain ⟨f, f', hpoint, hwake, rfl⟩ := callHandler_ok hok
    rw [hpoint]
    exact Or.inr (congrArg (stackDelay s.stack) (wakeAt_delay (fun _ _ => sleepHandler_delay) hwake))
  · rename_i path f hpoint
    obtain ⟨f', hwake, hok⟩ := bind_eq_ok.mp hok
    rw [hpoint]
    cases hok
    refine Or.inr (congrArg (stackDelay s.stack) (wakeAt_delay ?_ hwake))
    rintro f _ ⟨⟩
    rfl
  · rename_i i path name kind ext futures hpoint
    obtain ⟨future, hfuture, hok⟩ := bind_eq_ok.mp hok
    obtain ⟨⟨ext', futures'⟩, hslot, hok⟩ := bind_eq_ok.mp hok
    obtain ⟨s₁, hwake, hok⟩ := bind_eq_ok.mp hok
    obtain ⟨hlen, hfutures⟩ := wakeSlot_delay (bind_eq_ok.mpr ⟨future, hfuture, hslot⟩)
    rw [hpoint]
    cases hok
    refine Or.inr ?_
    show stackDelay s₁.stack (kind.delay ext'.len fun j => (futures' j).delay) = stackDelay s.stack _
    rw [callWaker_delay hwake, hlen, hfutures, PollPoint.delay]
  · rename_i n path
    obtain ⟨stack', hstack, hok⟩ := bind_eq_ok.mp hok
    cases hok
    exact Or.inr (wakeFrame_delay hstack)
  · cases hok
    exact Or.inl rfl
  · cases hok

theorem treeStep_ended {o : TreeOp} (hended : s.point = .ended) (hok : treeStep s o = .ok s') :
    s'.point = .ended := by
  unfold treeStep at hok
  rw [hended] at hok
  cases o with
  | poll | cleanup => cases hok
  | handler x path =>
    obtain ⟨f, f', hpoint, -⟩ := callHandler_ok hok
    cases hended.symm.trans hpoint
  | inside o =>
    change pollStep s o = .ok s' at hok
    unfold pollStep at hok
    rw [hended] at hok
    cases o <;> cases hok
  | wake path => cases path <;> cases hok
  | wakeOuter n path =>
    obtain ⟨stack', hstack, hok⟩ := bind_eq_ok.mp hok
    cases hok
    rfl

theorem treeRun_delay {root : FutureFn} {os : List TreeOp}
    (hrun : Lib.run treeStep (treeRun root) os = .ok s) : s.point = .ended ∨ s.delay = root.delay := by
  refine Lib.run_invariant (I := fun s => s.point = .ended ∨ s.delay = root.delay)
    (P := fun _ _ => True) ?_ (Or.inr (delay_returns root))
    (Lib.along_of_forall fun _ _ _ => trivial) hrun
  rintro s o s' hs - hok
  rcases hs with hended | hdelay
  · exact Or.inl (treeStep_ended hended hok)
  · exact (treeStep_delay hok).imp_right fun hstep => hstep.trans hdelay

/-! ## The main result -/

/-- **In every run in which each child is woken at most once between two of its polls, and not in the
poll in which it is ready, a poll of the root answers ready exactly when the formula held as it began:
on time, when a join has taken as long as its last child and a select as its first. As soon as it
holds, the waker of the root has been called.** -/
theorem sleep_tree_answers {root : FutureFn} {os : List TreeOp} (hsleeps : root.OfSleeps)
    (hcalm : Lib.Along treeStep CalmTree (treeRun root) os)
    (hrun : Lib.run treeStep (treeRun root) os = .ok s) (hidle : s.point = .idle f) :
    (f.Done → s.woken = true) ∧ ∀ (os' : List PollOp) (s' : TreeRun) (f' : Future) (poll : FuturePoll),
      Lib.Along treeStep CalmTree s (.poll :: os'.map .inside) →
      Lib.run treeStep s (.poll :: os'.map .inside) = .ok s' →
      s'.stack = [] → s'.point = .answered f' poll →
      (poll = .ready ↔ f.Done) ∧ ∀ now, f.OnTime now → (poll = .ready ↔ root.delay ≤ now) := by
  have hwaits := treeRun_run hsleeps hcalm hrun
  have hpoint := hwaits.point
  rw [hidle] at hpoint
  obtain ⟨hnil, hf, hwoken⟩ := hpoint
  have hdelay : f.delay = root.delay := by
    rcases treeRun_delay hrun with hended | hdelay
    · cases hidle.symm.trans hended
    · rw [← hdelay, TreeRun.delay, hnil, hidle]
      rfl
  refine ⟨fun hdone => hwoken.mpr (hf.stirred hdone), ?_⟩
  intro os' s' f' poll hcalm' hrun' hnil' hanswered
  obtain ⟨-, hready⟩ := poll_verdict hwaits hidle hcalm' hrun'
  rw [TreeRun.Verdict, hnil', hanswered] at hready
  have hready : poll = .ready ↔ f.Done := hready
  refine ⟨hready, fun now htime => ?_⟩
  rw [hready, htime.done_iff hf, hdelay]

theorem sleep_tree_answers_nested : ∃ s f s' f',
    Lib.run treeStep (treeRun sleepTree) sleepTreeOps = .ok s ∧ s.point = .idle f ∧ s.woken = true ∧
    Lib.run treeStep s (.poll :: sleepTreePoll.map .inside) = .ok s' ∧
    s'.point = .answered f' .ready ∧ sleepTree.delay ≤ (5 : Nat) := by
  have hcalm : Lib.Along treeStep CalmTree (treeRun sleepTree)
      (sleepTreeOps ++ .poll :: sleepTreePoll.map .inside) := by decide
  obtain ⟨hcalm, hpoll⟩ := Lib.along_append hcalm
  refine ⟨_, _, _, _, rfl, rfl, ?_, rfl, rfl, ?_⟩
  · refine (sleep_tree_answers sleepTree_ofSleeps hcalm rfl rfl).1 ?_
    rintro (_ | _ | i) hi
    · rfl
    · exact Or.inr ⟨0, by decide, rfl⟩
    · exact absurd (show i + 2 < 2 from hi) (by omega)
  · have hanswers := (sleep_tree_answers sleepTree_ofSleeps hcalm rfl rfl).2
    refine ((hanswers _ _ _ _ (hpoll _ rfl) rfl rfl rfl).2 5 ?_).mp rfl
    rintro (_ | _ | i) hi
    · exact ⟨fun _ => iff_of_true rfl le_rfl, fun _ _ => le_rfl⟩
    · refine ⟨fun _ => ?_, fun _ => ?_⟩
      · rintro (_ | _ | j) hj
        · exact ⟨fun _ => iff_of_true rfl (by decide), fun _ _ => by decide⟩
        · exact ⟨fun _ => iff_of_false nofun (by decide), fun _ => nofun⟩
        · exact absurd (show j + 2 < 2 from hj) (by omega)
      · rintro (_ | _ | j) hj
        · exact fun _ => by decide
        · exact nofun
        · exact absurd (show j + 2 < 2 from hj) (by omega)
    · exact absurd (show i + 2 < 2 from hi) (by omega)

end Taskio
