import Taskio.Async.SleepTree

/-!
# The polls of a tree of sleeps

When a poll begins it is settled what it will answer: ready, if the formula holds.

* `TreeWaits` — the tree waits, or it is polled
* `TreeRun.Verdict` — what the poll in progress is going to answer
* `treeStep_waits`, `pollStep_answers` — the steps, where the wakers are called as futures call them
* `poll_verdict` — a poll of the root as a whole
-/

namespace Taskio

variable {ext ext' : JoinExt (List Nat)} {kind : JoinKind} {f f' : Future}
  {futures futures' : Nat → Future} {name i : Nat} {path : List Nat} {stack stack' : List Frame}
  {woken : Bool} {s s' : TreeRun}

/-! ## Polls in progress -/

/-- The waker that the innermost poll was given has been called since the poll began. -/
def WakerCalled (woken : Bool) : List Frame → Prop
  | [] => woken = true
  | .child _ _ ext _ i :: _ => ext.due i = true
  | .resumed _ _ :: _ | .awaited _ _ :: _ => False

/-- A join has called its waker when it has linked a child. -/
def StackWaits (woken : Bool) : List Frame → Prop
  | [] => True
  | .child _ kind ext futures i :: stack => InRound kind ext futures ∧
      (∃ next, ext.stage = .polling i next) ∧ (ext.pollHead ≠ none ↔ WakerCalled woken stack) ∧
      StackWaits woken stack
  | .resumed _ _ :: _ | .awaited _ _ :: _ => False

def PollPoint.Waits (woken : Bool) (stack : List Frame) : PollPoint → Prop
  | .idle f => stack = [] ∧ f.Waits ∧ (woken = true ↔ f.Stirred)
  | .polled f => f.Waits ∧ f.Stirred ∧ ¬ WakerCalled woken stack
  | .inJoin _ kind ext futures => InRound kind ext futures ∧ ext.stage.InLoop ∧
      (ext.pollHead ≠ none ↔ WakerCalled woken stack)
  | .answered f poll => (poll = .ready → f.Done) ∧
      (poll ≠ .ready → f.Waits ∧ (WakerCalled woken stack ↔ f.Stirred))
  | .running _ => False
  | .ended => stack = []

/-- The tree waits, or it is polled. -/
structure TreeWaits (s : TreeRun) : Prop where
  stack : StackWaits s.woken s.stack
  point : s.point.Waits s.woken s.stack

/-! ## What the poll will answer -/

/-- Whether the innermost poll will answer ready. After the poll of the root: whether it has. -/
def PollPoint.Verdict : PollPoint → Prop
  | .polled f => f.Done
  | .answered _ poll => poll = .ready
  | .inJoin _ kind ext futures => kind.Complete ext.len (ext.Wins futures)
  | .ended => True
  | .idle _ | .running _ => False

/-- Whether the outermost one will, if the innermost one does or does not. -/
def StackVerdict : List Frame → Prop → Prop
  | [], verdict => verdict
  | .child _ kind ext futures i :: stack, verdict =>
    StackVerdict stack
      (kind.Complete ext.len fun j => if j = i then verdict else ext.Wins futures j)
  | .resumed _ _ :: stack, verdict | .awaited _ _ :: stack, verdict => StackVerdict stack verdict

def TreeRun.Verdict (s : TreeRun) : Prop := StackVerdict s.stack s.point.Verdict

theorem stackVerdict_congr {v v' : Prop} (h : v ↔ v') :
    StackVerdict stack v ↔ StackVerdict stack v' := by
  rw [propext h]

/-! ## Wakers -/

/-- The waker in the context of the polls in progress may be called: none of the children that are being
polled was woken since its poll began. -/
def CalmStack : List Frame → Prop
  | [] => True
  | .child _ _ ext _ i :: stack => ext.due i = false ∧ CalmStack stack
  | .resumed _ _ :: stack | .awaited _ _ :: stack => CalmStack stack

/-- So may those of the children on the way to a sleep. -/
def CalmAt : Future → List Nat → Prop
  | .join _ _ ext futures, i :: path => CalmWakes ext (.wake i) ∧ CalmAt (futures i) path
  | .waiting _ awaitFuture, path => CalmAt awaitFuture path
  | .join _ _ _ _, [] | .fn _, _ | .sleep _ _ _ _, _ => True

instance decidableCalmStack : DecidablePred CalmStack
  | [] => isTrue trivial
  | .child _ _ _ _ _ :: stack => @instDecidableAnd _ _ _ (decidableCalmStack stack)
  | .resumed _ _ :: stack | .awaited _ _ :: stack => decidableCalmStack stack

instance decidableCalmAt : ∀ f path, Decidable (CalmAt f path)
  | .join _ _ _ futures, i :: path => @instDecidableAnd _ _ _ (decidableCalmAt (futures i) path)
  | .waiting _ awaitFuture, path => decidableCalmAt awaitFuture path
  | .join _ _ _ _, [] | .fn _, _ | .sleep _ _ _ _, _ => isTrue trivial

theorem wakeStack_waits (h : StackWaits woken stack) (hcalm : CalmStack stack)
    (hok : wakeStack stack = .ok stack') :
    StackWaits true stack' ∧ WakerCalled true stack' ∧
      ∀ v, StackVerdict stack' v ↔ StackVerdict stack v := by
  induction stack generalizing stack' with
  | nil =>
    cases hok
    exact ⟨trivial, rfl, fun _ => Iff.rfl⟩
  | cons frame stack ih =>
    cases frame with
    | resumed name awaitFuture | awaited name awaitFuture => exact h.elim
    | child name kind ext futures i =>
      obtain ⟨ext', hwake, hok⟩ := bind_eq_ok.mp hok
      obtain ⟨stack₁, hstack, hok⟩ := bind_eq_ok.mp hok
      cases hok
      obtain ⟨hround, ⟨next, hstage⟩, -, hrest⟩ := h
      obtain ⟨hround', hstage', hhead, hdue, hverdict⟩ := hround.wake hstage hcalm.1 hwake
      obtain ⟨hrest', hcalled, hrestVerdict⟩ := ih hrest hcalm.2 hstack
      refine ⟨⟨hround', ⟨next, hstage'.trans hstage⟩, iff_of_true hhead hcalled, hrest'⟩, hdue, ?_⟩
      intro v
      exact (hrestVerdict _).trans (stackVerdict_congr (hverdict v))

theorem sleepHandler_waits {x : Nat} (hok : sleepHandler x f = .ok f') (h : f.Waits) :
    f'.Waits ∧ f'.Stirred := by
  cases f with
  | fn name | waiting name awaitFuture => exact h.elim
  | join name kind ext futures => cases hok
  | sleep name ms scope handled =>
    cases scope with
    | first | done => cases hok
    | second =>
      cases handled with
      | true => cases hok
      | false =>
        unfold sleepHandler at hok
        split at hok
        · cases hok
          exact ⟨trivial, rfl⟩
        · cases hok

/-- A handler links the children on its way. -/
theorem wakeAt_waits {x : Nat} (hok : wakeAt (sleepHandler x) f path = .ok f') (hcalm : CalmAt f path)
    (h : f.Waits) : f'.Waits ∧ f'.Stirred := by
  induction f generalizing path f' with
  | fn name | waiting name awaitFuture => exact h.elim
  | sleep name ms scope handled =>
    cases path with
    | nil => exact sleepHandler_waits hok h
    | cons i path => cases hok
  | join name kind ext futures ih =>
    cases path with
    | nil => exact sleepHandler_waits hok h
    | cons i path =>
      obtain ⟨future, hfuture, hok⟩ := bind_eq_ok.mp hok
      obtain ⟨⟨ext', futures'⟩, hslot, hok⟩ := bind_eq_ok.mp hok
      cases hok
      obtain ⟨ext₁, hwake, hslot⟩ := bind_eq_ok.mp hslot
      cases hslot
      obtain ⟨hstage, hfair, hopen, hchildren⟩ := h
      obtain ⟨hcalm, hpath⟩ := hcalm
      have hfair' := joinFair_step hfair hcalm hwake
      have hevents := joinStep_events hwake
      obtain ⟨hi, -, hlen, -⟩ := (joinStep_effect hwake).wake_fields
      obtain ⟨hstage', hpending, hdue⟩ := wake_marks hwake
      have hstage' : ext'.stage = .idle := hstage'.trans hstage
      obtain ⟨hwaits, hstirred⟩ := ih i hfuture hpath ((hchildren i hi).1 hcalm.1).1
      refine ⟨⟨hstage', hfair', ?_, ?_⟩, Or.inr ?_⟩
      · intro hbegan hcomplete
        rw [hevents] at hbegan
        rw [hlen] at hcomplete
        refine hopen (by simpa [joinEvents] using hbegan) (hcomplete.mono fun j _ => ?_)
        rw [hpending]
        exact id
      · intro j hj
        rw [hpending, hdue]
        by_cases hji : j = i
        · subst hji
          rw [Function.update_self, if_pos rfl]
          exact ⟨fun _ => ⟨hwaits, iff_of_true rfl hstirred⟩, fun hready => absurd hcalm.1 hready⟩
        · rw [Function.update_of_ne hji, if_neg hji]
          exact hchildren j (hlen ▸ hj)
      · refine (hfair'.sound.linked ?_).mpr ⟨i, hlen.symm ▸ hi, (hpending i).mpr hcalm.1, ?_⟩
        · rw [JoinExt.walk, hstage']
        · rw [hdue, if_pos rfl]

/-! ## The steps of a poll -/

/-- What is proved of a step of a poll. -/
def Answers (s s' : TreeRun) : Prop := TreeWaits s' ∧ (s'.Verdict ↔ s.Verdict)

theorem callAtOnce_answers {name ms : Nat} {handled : Bool}
    (hpoint : s.point = .polled (.sleep name ms .first handled)) (h : TreeWaits s)
    (hcalm : CalmStack s.stack) (hok : s.callAtOnce name ms = .ok s') : Answers s s' := by
  have hwaits := h.point
  rw [hpoint] at hwaits
  have hhandled : handled = false := hwaits.1
  subst hhandled
  have hundone : ¬ (Future.sleep name ms .first false).Done := Bool.false_ne_true
  have hpending : FuturePoll.pending ≠ .ready := by decide
  obtain ⟨s₁, hwake, hok⟩ := bind_eq_ok.mp hok
  cases hok
  obtain ⟨stack', hstack, hwake⟩ := bind_eq_ok.mp hwake
  cases hwake
  obtain ⟨hstack', hcalled', hverdict'⟩ := wakeStack_waits h.stack hcalm hstack
  refine ⟨⟨hstack', fun hready => absurd hready hpending,
    fun _ => ⟨trivial, iff_of_true hcalled' rfl⟩⟩, ?_⟩
  rw [TreeRun.Verdict, TreeRun.Verdict, hpoint]
  exact (hverdict' _).trans (stackVerdict_congr (iff_of_false hpending hundone))

theorem enterPoll_answers (hpoint : s.point = .polled f) (h : TreeWaits s)
    (hcalm : ∀ name handled, f = .sleep name 0 .first handled → CalmStack s.stack)
    (hok : enterPoll s f = .ok s') : Answers s s' := by
  have hwaits := h.point
  rw [hpoint] at hwaits
  obtain ⟨hf, hstirred, hcalled⟩ := hwaits
  have hverdict : s.Verdict = StackVerdict s.stack f.Done := by
    rw [TreeRun.Verdict, hpoint]
    rfl
  have hpending : FuturePoll.pending ≠ .ready := by decide
  cases f with
  | fn name | waiting name awaitFuture => exact hf.elim
  | sleep name ms scope handled =>
    cases scope with
    | first =>
      have hhandled : handled = false := hf
      subst hhandled
      have hundone : ¬ (Future.sleep name ms .first false).Done := Bool.false_ne_true
      rw [enterPoll] at hok
      by_cases hms : ms = 0
      · subst hms
        rw [if_pos rfl] at hok
        exact callAtOnce_answers hpoint h (hcalm name false rfl) hok
      · rw [if_neg hms] at hok
        cases hok
        refine ⟨⟨h.stack, fun hready => absurd hready hpending,
          fun _ => ⟨trivial, iff_of_false hcalled hundone⟩⟩, ?_⟩
        rw [hverdict]
        exact stackVerdict_congr (iff_of_false hpending hundone)
    | second =>
      cases hok
      have hhandled : handled = true := hstirred
      refine ⟨⟨h.stack, fun _ => hhandled, fun hne => absurd rfl hne⟩, ?_⟩
      rw [hverdict]
      exact stackVerdict_congr (iff_of_true rfl hhandled)
    | done => exact hf.elim
  | join name kind ext futures =>
    obtain ⟨ext', hpoll, hok⟩ := bind_eq_ok.mp hok
    cases hok
    obtain ⟨hround, hloop, hhead, hcomplete⟩ := hf.begin hpoll
    refine ⟨⟨h.stack, hround, hloop, iff_of_false (not_not_intro hhead) hcalled⟩, ?_⟩
    rw [hverdict]
    exact stackVerdict_congr hcomplete

theorem joinTurn_answers {o : JoinOp} (hpoint : s.point = .inJoin name kind ext futures)
    (h : TreeWaits s) (ho : o = .child ∨ o = .cleaned ∨ ∃ rand, o = .finish rand)
    (hok : joinTurn s name kind ext futures o = .ok s') : Answers s s' := by
  have hwaits := h.point
  rw [hpoint] at hwaits
  obtain ⟨hround, hloop, hcalled⟩ := hwaits
  have hverdict : s.Verdict = StackVerdict s.stack (kind.Complete ext.len (ext.Wins futures)) := by
    rw [TreeRun.Verdict, hpoint]
    rfl
  obtain ⟨ext', hstep, hturn⟩ := bind_eq_ok.mp hok
  rcases ho with rfl | rfl | ⟨rand, rfl⟩
  · obtain ⟨i, next, hstage, hround', hhead, ⟨hwaits, hstirred, hdue⟩, hcomplete⟩ :=
      hround.child hloop hstep
    rw [hstage] at hturn
    cases hturn
    refine ⟨⟨⟨hround', ⟨next, hstage⟩, by rwa [hhead], h.stack⟩, hwaits, hstirred, ?_⟩, ?_⟩
    · show ¬ ext'.due i = true
      rw [hdue]
      exact Bool.false_ne_true
    · rw [hverdict]
      exact stackVerdict_congr hcomplete
  · obtain ⟨hround', hloop', hhead, hcomplete⟩ := hround.cleaned hstep
    have hwalking : ∃ p, ext'.stage = .walking p := by
      cases joinStep_cases hstep with
      | cleaned => exact ⟨_, rfl⟩
    obtain ⟨p, hstage⟩ := hwalking
    rw [hstage] at hturn
    cases hturn
    refine ⟨⟨h.stack, hround', hloop', by rwa [hhead]⟩, ?_⟩
    rw [hverdict]
    exact stackVerdict_congr hcomplete
  · rcases hround.finish name hstep with
      ⟨⟨value, hstage⟩, hcomplete, hdone⟩ | ⟨hstage, hopen, hwaits, hstirred⟩
    · rw [hstage] at hturn
      cases hturn
      refine ⟨⟨h.stack, fun _ => hdone, fun hne => absurd rfl hne⟩, ?_⟩
      rw [hverdict]
      exact stackVerdict_congr (iff_of_true rfl hcomplete)
    · rw [hstage] at hturn
      cases hturn
      have hpending : FuturePoll.pending ≠ .ready := by decide
      refine ⟨⟨h.stack, fun hready => absurd hready hpending,
        fun _ => ⟨hwaits, hcalled.symm.trans hstirred⟩⟩, ?_⟩
      rw [hverdict]
      exact stackVerdict_congr (iff_of_false hpending hopen)

theorem returnPoll_answers {poll : FuturePoll} (hpoint : s.point = .answered f poll) (h : TreeWaits s)
    (hcalm : poll = .ready → ∀ name kind ext futures i,
      s.stack.head? = some (.child name kind ext futures i) → ext.due i = false)
    (hok : returnPoll s f poll = .ok s') : Answers s s' := by
  have hwaits := h.point
  rw [hpoint] at hwaits
  obtain ⟨hready, hpending⟩ := hwaits
  have hstack := h.stack
  cases returnPoll_cases hok with
  | ended hnil =>
    refine ⟨⟨h.stack, hnil⟩, ?_⟩
    rw [TreeRun.Verdict, TreeRun.Verdict, hpoint]
    exact stackVerdict_congr (iff_of_true trivial rfl)
  | idle hnil hne =>
    obtain ⟨hf, hcalled⟩ := hpending hne
    rw [hnil] at hcalled
    refine ⟨⟨h.stack, hnil, hf, hcalled⟩, ?_⟩
    rw [TreeRun.Verdict, TreeRun.Verdict, hpoint]
    exact stackVerdict_congr (iff_of_false id hne)
  | resumed heq | awaited heq =>
    rw [heq] at hstack
    exact hstack.elim
  | waiting heq =>
    rcases heq with heq | heq
    · rw [heq] at hstack
      exact hstack.elim
    · rw [heq] at hstack
      exact hstack.elim
  | @child _ name i kind ext ext' futures stack heq hret =>
    rw [heq] at hstack hpending hcalm
    obtain ⟨hround, ⟨next, hstage⟩, hcalled, hrest⟩ := hstack
    obtain ⟨hround', hloop', hhead, hcomplete⟩ :=
      hround.ret hstage (fun hp => hcalm hp _ _ _ _ _ rfl) hready hpending hret
    refine ⟨⟨hrest, hround', hloop', by rwa [hhead]⟩, ?_⟩
    have hverdict : s.Verdict = StackVerdict stack
        (kind.Complete ext.len fun j => if j = i then poll = .ready else ext.Wins futures j) := by
      rw [TreeRun.Verdict, heq, hpoint]
      rfl
    rw [hverdict]
    exact stackVerdict_congr hcomplete

/-- The wakers that a step of a poll calls are called as futures call them. -/
def TreeRun.Calm (s : TreeRun) (o : PollOp) : Prop :=
  match o, s.point, s.stack with
  | .enter, .polled (.sleep _ 0 .first _), stack | .enterPast, .polled _, stack => CalmStack stack
  | .ret, .answered _ .ready, .child _ _ ext _ i :: _ => ext.due i = false
  | _, _, _ => True

instance (s : TreeRun) (o : PollOp) : Decidable (s.Calm o) := by
  unfold TreeRun.Calm
  split <;> infer_instance

/-- The steps of a poll, where no coroutine takes part. -/
inductive PollCase (s s' : TreeRun) : Prop where
  | enter {f : Future} (hpoint : s.point = .polled f)
      (hcalm : ∀ name handled, f = .sleep name 0 .first handled → CalmStack s.stack)
      (hok : enterPoll (s.log [.polled f.name]) f = .ok s')
  | past {name ms : Nat} {handled : Bool} (hpoint : s.point = .polled (.sleep name ms .first handled))
      (hcalm : CalmStack s.stack) (hok : (s.log [.polled name]).callAtOnce name ms = .ok s')
  | turn {name : Nat} {kind : JoinKind} {ext : JoinExt (List Nat)} {futures : Nat → Future} {o : JoinOp}
      (hpoint : s.point = .inJoin name kind ext futures)
      (ho : o = .child ∨ o = .cleaned ∨ ∃ rand, o = .finish rand)
      (hok : joinTurn s name kind ext futures o = .ok s')
  | ret {f : Future} {poll : FuturePoll} (hpoint : s.point = .answered f poll)
      (hcalm : poll = .ready → ∀ name kind ext futures i,
        s.stack.head? = some (.child name kind ext futures i) → ext.due i = false)
      (hok : returnPoll s f poll = .ok s')

theorem pollStep_cases {o : PollOp} (h : TreeWaits s) (hcalm : s.Calm o)
    (hok : pollStep s o = .ok s') : PollCase s s' := by
  unfold pollStep at hok
  split at hok
  · rename_i f hpoint
    refine .enter hpoint ?_ hok
    rintro name handled rfl
    unfold TreeRun.Calm at hcalm
    rw [hpoint] at hcalm
    exact hcalm
  · rename_i name ms handled hpoint
    refine .past hpoint ?_ hok
    unfold TreeRun.Calm at hcalm
    rw [hpoint] at hcalm
    exact hcalm
  · rename_i e name hpoint
    have hwaits := h.point
    rw [hpoint] at hwaits
    exact hwaits.elim
  · rename_i name kind ext futures hpoint
    exact .turn hpoint (Or.inl rfl) hok
  · rename_i name kind ext futures hpoint
    exact .turn hpoint (Or.inr (Or.inl rfl)) hok
  · rename_i rand name kind ext futures hpoint
    exact .turn hpoint (Or.inr (Or.inr ⟨rand, rfl⟩)) hok
  · rename_i f poll hpoint
    refine .ret hpoint ?_ hok
    rintro rfl name kind ext futures i hhead
    obtain ⟨stack, hstack⟩ := List.head?_eq_some_iff.mp hhead
    unfold TreeRun.Calm at hcalm
    rw [hpoint, hstack] at hcalm
    exact hcalm
  · cases hok

theorem pollStep_answers {o : PollOp} (h : TreeWaits s) (hcalm : s.Calm o)
    (hok : pollStep s o = .ok s') : Answers s s' := by
  cases pollStep_cases h hcalm hok with
  | @enter f hpoint hcalm hok =>
    have hlogged : TreeWaits (s.log [.polled f.name]) := ⟨h.stack, h.point⟩
    exact enterPoll_answers (s := s.log [.polled f.name]) hpoint hlogged hcalm hok
  | @past name ms handled hpoint hcalm hok =>
    have hlogged : TreeWaits (s.log [.polled name]) := ⟨h.stack, h.point⟩
    exact callAtOnce_answers (s := s.log [.polled name]) hpoint hlogged hcalm hok
  | turn hpoint ho hok => exact joinTurn_answers hpoint h ho hok
  | ret hpoint hcalm hok => exact returnPoll_answers hpoint h hcalm hok

/-! ## Runs -/

/-- The task is polled when its waker was called, and no other wakers are called than those of the
handlers of sleeps that are not over and of the polls themselves: that of a child at most once between
two of its polls, and not in the poll in which it is ready. -/
def CalmTree (s : TreeRun) (o : TreeOp) : Prop :=
  match o, s.point with
  | .poll, _ => s.woken = true
  | .inside o, _ => s.Calm o
  | .handler x path, .idle f => s.outlived x = false ∧ CalmAt f path
  | .handler x _, _ => s.outlived x = false
  | .wake _, _ | .wakeOuter _ _, _ => False
  | _, _ => True

instance (s : TreeRun) (o : TreeOp) : Decidable (CalmTree s o) := by
  unfold CalmTree
  split <;> infer_instance

theorem treeStep_waits {o : TreeOp} (h : TreeWaits s) (hcalm : CalmTree s o)
    (hok : treeStep s o = .ok s') : TreeWaits s' := by
  have hpt := h.point
  unfold treeStep at hok
  split at hok
  · rename_i f hpoint
    rw [hpoint] at hpt
    obtain ⟨hnil, hf, hwoken⟩ := hpt
    cases hok
    refine ⟨?_, hf, hwoken.mp hcalm, ?_⟩
    · show StackWaits false s.stack
      rw [hnil]
      trivial
    · show ¬ WakerCalled false s.stack
      rw [hnil]
      exact Bool.false_ne_true
  · exact (pollStep_answers h hcalm hok).1
  · rename_i x path
    obtain ⟨f, f', hpoint, hwake, rfl⟩ := callHandler_ok hok
    rw [hpoint] at hpt
    obtain ⟨hnil, hf, -⟩ := hpt
    unfold CalmTree at hcalm
    rw [hpoint] at hcalm
    obtain ⟨hf', hstirred⟩ := wakeAt_waits hwake hcalm.2 hf
    refine ⟨?_, hnil, hf', iff_of_true rfl hstirred⟩
    show StackWaits true s.stack
    rw [hnil]
    trivial
  · exact hcalm.elim
  · exact hcalm.elim
  · exact hcalm.elim
  · rename_i f hpoint
    rw [hpoint] at hpt
    cases hok
    exact ⟨h.stack, hpt.1⟩
  · cases hok

theorem treeRun_waits {root : FutureFn} (h : root.OfSleeps) : TreeWaits (treeRun root) := by
  obtain ⟨hwaits, hstirred⟩ := returns_waits h
  exact ⟨trivial, rfl, hwaits, iff_of_true rfl hstirred⟩

/-- It is settled when a poll begins. -/
theorem verdict_run {os : List PollOp} (h : TreeWaits s)
    (hcalm : Lib.Along treeStep CalmTree s (os.map .inside))
    (hrun : Lib.run treeStep s (os.map .inside) = .ok s') : s'.Verdict ↔ s.Verdict := by
  induction os generalizing s with
  | nil =>
    cases hrun
    rfl
  | cons o os ih =>
    obtain ⟨s₁, hstep, hrest⟩ := Lib.run_cons_eq_ok.mp hrun
    obtain ⟨hwaits, hverdict⟩ := pollStep_answers h hcalm.1 hstep
    exact (ih hwaits (hcalm.2 s₁ hstep) hrest).trans hverdict

theorem treeRun_run {root : FutureFn} {os : List TreeOp} (hsleeps : root.OfSleeps)
    (hcalm : Lib.Along treeStep CalmTree (treeRun root) os)
    (hrun : Lib.run treeStep (treeRun root) os = .ok s) : TreeWaits s :=
  Lib.run_invariant (fun _ _ _ h hcalm hok => treeStep_waits h hcalm hok) (treeRun_waits hsleeps) hcalm
    hrun

theorem poll_begins (hidle : s.point = .idle f) (hok : treeStep s .poll = .ok s') :
    s' = { s with point := .polled f, woken := false } := by
  unfold treeStep at hok
  rw [hidle] at hok
  cases hok
  rfl

/-- A poll of the root, as far as it has come. -/
theorem poll_verdict {os : List PollOp} (h : TreeWaits s) (hidle : s.point = .idle f)
    (hcalm : Lib.Along treeStep CalmTree s (.poll :: os.map .inside))
    (hrun : Lib.run treeStep s (.poll :: os.map .inside) = .ok s') :
    TreeWaits s' ∧ (s'.Verdict ↔ f.Done) := by
  have hwaits := h.point
  rw [hidle] at hwaits
  obtain ⟨s₁, hpoll, hinside⟩ := Lib.run_cons_eq_ok.mp hrun
  have hverdict := verdict_run (treeStep_waits h hcalm.1 hpoll) (hcalm.2 s₁ hpoll) hinside
  refine ⟨Lib.run_invariant (fun _ _ _ h hcalm hok => treeStep_waits h hcalm hok) h hcalm hrun, ?_⟩
  rw [hverdict, poll_begins hidle hpoll, TreeRun.Verdict, hwaits.1]
  rfl

end Taskio
