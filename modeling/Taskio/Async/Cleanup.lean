import Taskio.Lib.Run
import Taskio.Async.Ownership

/-!
# Structured clean-up

Each step of a poll, each call of a waker and each clean-up is accounted for by the tokens of the
futures; so over a whole run that ends with the clean-up of the root every future that was given to a
poller is cleaned up once, is not polled afterwards, and is cleaned up before its awaiter.

* `treeStep_advances` — what one step does to the tokens
* `structured_cleanup` — the runs that end with the clean-up of the root
-/

namespace Taskio

open Lib (Token Role Accounts AllGone allGone_zero)

variable {f f' : Future} {name i : Nat} {kind : JoinKind} {ext ext' : JoinExt (List Nat)}
  {futures futures' : Nat → Future} {path : List Nat} {stack stack' : List Frame}
  {s s' : TreeRun}

/-! ## Polls in progress -/

def Frame.tokens : Frame → Multiset (Token Nat)
  | .resumed name awaitFuture | .awaited name awaitFuture => {.held name awaitFuture}
  | .child name _ ext futures _ => .alive name ::ₘ keptTokens ext futures

def stackTokens (stack : List Frame) : Multiset (Token Nat) := (stack.map Frame.tokens).sum

/-- The innermost frame waits for the poll of `x`. -/
def StackOwned : List Frame → Nat → Prop
  | [], _ => True
  | .resumed name awaitFuture :: stack, x | .awaited name awaitFuture :: stack, x =>
    awaitFuture = x ∧ StackOwned stack name
  | .child name _ ext futures i :: stack, _ =>
    OwnsChildren ext futures ∧ (∃ next, ext.stage = .polling i next) ∧ StackOwned stack name

namespace PollPoint

def tokens : PollPoint → Multiset (Token Nat)
  | .idle f | .polled f | .answered f _ => f.tokens
  | .running name => {.alive name}
  | .inJoin name _ ext futures => .alive name ::ₘ keptTokens ext futures
  | .ended => 0

def Owned (stack : List Frame) : PollPoint → Prop
  | .idle f => f.Owned ∧ stack = []
  | .polled f | .answered f _ => f.Owned ∧ StackOwned stack f.name
  | .running name => StackOwned stack name
  | .inJoin name _ ext futures => OwnsChildren ext futures ∧ StackOwned stack name
  | .ended => stack = []

end PollPoint

namespace TreeRun

def tokens (s : TreeRun) : Multiset (Token Nat) := s.point.tokens + stackTokens s.stack

def Owned (s : TreeRun) : Prop := s.point.Owned s.stack

end TreeRun

/-- The events of a step are accounted for, with what it leaves cleaned up. -/
def Advances (s s' : TreeRun) : Prop :=
  s'.Owned ∧ ∃ es gone, s'.events = s.events ++ es ∧ AllGone gone ∧
    Accounts TreeEvent.role s.tokens es (s'.tokens + gone)

theorem advances_same (howned : s'.Owned) (htokens : s'.tokens = s.tokens)
    (hevents : s'.events = s.events) : Advances s s' := by
  refine ⟨howned, [], 0, by rw [hevents, List.append_nil], allGone_zero, ?_⟩
  rw [htokens, add_zero]
  exact .nil _

/-! ## Wakers -/

/-- The same futures are owned. -/
structure SameOwner (f f' : Future) : Prop where
  name : f'.name = f.name
  tokens : f'.tokens = f.tokens
  owned : f.Owned → f'.Owned

theorem SameOwner.refl (f : Future) : SameOwner f f := ⟨rfl, rfl, id⟩

theorem wakeSlot_same {future : Future} (h : wakeSlot kind ext futures i future = .ok (ext', futures'))
    (hsame : SameOwner (futures i) future) :
    ext'.stage = ext.stage ∧ keptTokens ext' futures' = keptTokens ext futures ∧
      (OwnsChildren ext futures → OwnsChildren ext' futures') := by
  obtain ⟨ext₁, hwake, h⟩ := bind_eq_ok.mp h
  cases h
  have htokens : ∀ j, (Function.update futures i future j).tokens = (futures j).tokens := by
    intro j
    rw [Function.update_apply]
    split
    · rename_i hj
      rw [hj, hsame.tokens]
    · rfl
  cases joinStep_cases hwake with
  | wake hstage hwake' =>
    obtain ⟨hfutures, -, -⟩ := joinWake_flags hwake'
    have hstage' := (joinWake_effect hwake').2.1
    have hbusy : ext'.busy = ext.busy := by rw [JoinExt.busy, JoinExt.busy, hstage']
    refine ⟨hstage', keptTokens_congr (kept_congr hfutures hbusy) htokens, ?_⟩
    intro h
    refine ⟨countsReady_step h.counts hwake, ?_⟩
    intro j hj
    have hlen : ext'.len = ext.len := by rw [← length_futures, ← length_futures, hfutures]
    have howned := h.children j (hlen ▸ hj)
    rw [Function.update_apply]
    split
    · rename_i hji
      exact hsame.owned (hji ▸ howned)
    · exact howned

theorem wakeAt_same {leaf : Future → Except Fault Future}
    (hleaf : ∀ f f', leaf f = .ok f' → SameOwner f f') (h : wakeAt leaf f path = .ok f') :
    SameOwner f f' := by
  induction f generalizing path f' with
  | fn name | sleep name ms scope handled =>
    cases path with
    | nil => exact hleaf _ _ h
    | cons i path => cases h
  | waiting name awaitFuture ih =>
    cases path with
    | nil => exact hleaf _ _ h
    | cons i path =>
      obtain ⟨future, hfuture, h⟩ := bind_eq_ok.mp h
      cases h
      have hsame := ih hfuture
      refine ⟨rfl, ?_, hsame.owned⟩
      rw [Future.tokens, Future.tokens, hsame.name, hsame.tokens]
  | join name kind ext futures ih =>
    cases path with
    | nil => exact hleaf _ _ h
    | cons i path =>
      obtain ⟨future, hfuture, h⟩ := bind_eq_ok.mp h
      obtain ⟨⟨ext', futures'⟩, hslot, h⟩ := bind_eq_ok.mp h
      cases h
      obtain ⟨hstage, htokens, howned⟩ := wakeSlot_same hslot (ih i hfuture)
      refine ⟨rfl, by rw [tokens_join, tokens_join, htokens], ?_⟩
      intro h
      rw [owned_join] at h ⊢
      refine ⟨howned h.1, ?_⟩
      rw [JoinExt.busy, hstage]
      exact h.2

theorem sleepHandler_same {x : Nat} (h : sleepHandler x f = .ok f') : SameOwner f f' := by
  induction f generalizing f' with
  | fn name => cases h
  | waiting name awaitFuture ih =>
    obtain ⟨future, hfuture, h⟩ := bind_eq_ok.mp h
    cases h
    have hsame := ih hfuture
    refine ⟨rfl, ?_, hsame.owned⟩
    rw [Future.tokens, Future.tokens, hsame.name, hsame.tokens]
  | sleep name ms scope handled =>
    cases scope with
    | first | done => cases h
    | second =>
      cases handled with
      | true => cases h
      | false =>
        unfold sleepHandler at h
        split at h
        · cases h
          exact ⟨rfl, rfl, id⟩
        · cases h
  | join name kind ext futures => cases h

/-- The same futures are owned by the polls in progress. -/
structure SameStack (stack stack' : List Frame) : Prop where
  tokens : stackTokens stack' = stackTokens stack
  owned : ∀ x, StackOwned stack x → StackOwned stack' x

theorem SameStack.cons_child (h : SameStack stack stack') (hstage : ext'.stage = ext.stage)
    (htokens : keptTokens ext' futures' = keptTokens ext futures)
    (howned : OwnsChildren ext futures → OwnsChildren ext' futures') :
    SameStack (.child name kind ext futures i :: stack)
      (.child name kind ext' futures' i :: stack') := by
  constructor
  · simp only [stackTokens, List.map_cons, List.sum_cons, Frame.tokens, htokens]
    exact congrArg _ h.tokens
  · rintro x ⟨hchildren, hpolling, hstack⟩
    exact ⟨howned hchildren, by rwa [hstage], h.owned _ hstack⟩

/-- A frame that is not a join's says only what it waits for. -/
theorem SameStack.cons (h : SameStack stack stack') (frame : Frame) :
    SameStack (frame :: stack) (frame :: stack') := by
  constructor
  · simp only [stackTokens, List.map_cons, List.sum_cons]
    exact congrArg _ h.tokens
  · intro x hx
    cases frame with
    | resumed name awaitFuture | awaited name awaitFuture => exact ⟨hx.1, h.owned _ hx.2⟩
    | child name kind ext futures i => exact ⟨hx.1, hx.2.1, h.owned _ hx.2.2⟩

theorem wakeStack_same (h : wakeStack stack = .ok stack') : SameStack stack stack' := by
  induction stack generalizing stack' with
  | nil =>
    cases h
    exact ⟨rfl, fun _ h => h⟩
  | cons frame stack ih =>
    cases frame with
    | resumed name awaitFuture | awaited name awaitFuture =>
      obtain ⟨stack₁, hstack, h⟩ := bind_eq_ok.mp h
      cases h
      exact (ih hstack).cons _
    | child name kind ext futures i =>
      obtain ⟨ext', hwake, h⟩ := bind_eq_ok.mp h
      obtain ⟨stack₁, hstack, h⟩ := bind_eq_ok.mp h
      cases h
      have hslot : wakeSlot kind ext futures i (futures i) = .ok (ext', futures) := by
        rw [wakeSlot, hwake, Function.update_eq_self]
        rfl
      obtain ⟨hstage, htokens, howned⟩ := wakeSlot_same hslot (.refl _)
      exact (ih hstack).cons_child hstage htokens howned

theorem wakeFrame_same {n : Nat} (h : wakeFrame stack n path = .ok stack') :
    SameStack stack stack' := by
  induction stack generalizing n stack' with
  | nil => cases h
  | cons frame stack ih =>
    cases n with
    | zero =>
      cases frame with
      | resumed name awaitFuture | awaited name awaitFuture => cases h
      | child name kind ext futures j =>
        cases path with
        | nil => cases h
        | cons i path =>
          unfold wakeFrame at h
          split at h
          · cases h
          obtain ⟨future, hfuture, h⟩ := bind_eq_ok.mp h
          obtain ⟨⟨ext', futures'⟩, hslot, h⟩ := bind_eq_ok.mp h
          obtain ⟨stack₁, hstack, h⟩ := bind_eq_ok.mp h
          cases h
          have hsame := wakeAt_same (fun f f' hf => by cases hf; exact .refl f) hfuture
          obtain ⟨hstage, htokens, howned⟩ := wakeSlot_same hslot hsame
          exact (wakeStack_same hstack).cons_child hstage htokens howned
    | succ n =>
      have h : (do let stack ← wakeFrame stack n path; Except.ok (frame :: stack)) = .ok stack' := by
        cases frame <;> exact h
      obtain ⟨stack₁, hstack, h⟩ := bind_eq_ok.mp h
      cases h
      exact (ih hstack).cons frame

theorem callWaker_same (h : s.callWaker = .ok s') :
    SameStack s.stack s'.stack ∧ s' = { s with stack := s'.stack, woken := true } := by
  obtain ⟨stack, hstack, h⟩ := bind_eq_ok.mp h
  cases h
  exact ⟨wakeStack_same hstack, rfl⟩

/-! ## One step -/

theorem Advances.trans {s₁ : TreeRun} (h : Advances s s₁) (h' : Advances s₁ s') : Advances s s' := by
  obtain ⟨-, es, gone, hevents, hgone, haccounts⟩ := h
  obtain ⟨howned, es', gone', hevents', hgone', haccounts'⟩ := h'
  refine ⟨howned, es ++ es', gone' + gone, ?_, hgone'.add hgone, haccounts.append ?_⟩
  · rw [hevents', hevents, List.append_assoc]
  · rw [← add_assoc]
    exact haccounts'.frame gone

/-- What the innermost poll does is accounted for beside the polls that wait for it. -/
theorem advances_point (es : List TreeEvent) (gone : Multiset (Token Nat)) (howned : s'.Owned)
    (hevents : s'.events = s.events ++ es) (hgone : AllGone gone)
    (haccounts : Accounts TreeEvent.role s.point.tokens es (s'.point.tokens + gone))
    (hstack : stackTokens s'.stack = stackTokens s.stack) : Advances s s' := by
  refine ⟨howned, es, gone, hevents, hgone, ?_⟩
  have hframe := haccounts.frame (stackTokens s.stack)
  rw [add_right_comm, ← hstack] at hframe
  rwa [TreeRun.tokens, TreeRun.tokens, ← hstack]

theorem stackTokens_cons (frame : Frame) (stack : List Frame) :
    stackTokens (frame :: stack) = frame.tokens + stackTokens stack := List.sum_cons

/-- `_join_wake` and the walk leave the other children as they are. -/
theorem kept_joinStep {o : JoinOp} (h : joinStep kind.callbacks ext o = .ok ext')
    (hfutures : ext'.futures = ext.futures) (hbusy : ext'.busy = ext.busy)
    (howns : OwnsChildren ext futures) :
    OwnsChildren ext' futures ∧ keptTokens ext' futures = keptTokens ext futures := by
  have hlen : ext'.len = ext.len := by rw [← length_futures, ← length_futures, hfutures]
  refine ⟨⟨countsReady_step howns.counts h, fun i hi => howns.children i (hlen ▸ hi)⟩, ?_⟩
  exact keptTokens_congr (kept_congr hfutures hbusy) fun _ => rfl

theorem callAtOnce_advances {name ms : Nat} {handled : Bool}
    (hpoint : s.point = .polled (.sleep name ms .first handled)) (howned : s.Owned)
    (h : s.callAtOnce name ms = .ok s') : Advances s s' := by
  rw [TreeRun.Owned, hpoint] at howned
  obtain ⟨s₁, hwake, h⟩ := bind_eq_ok.mp h
  cases h
  obtain ⟨hsame, hs₁⟩ := callWaker_same hwake
  refine advances_point [.handled name] 0 ⟨trivial, hsame.owned _ howned.2⟩ ?_ allGone_zero ?_
    hsame.tokens
  · rw [hs₁]
    rfl
  · rw [hpoint, add_zero]
    exact .one (.silent _)

theorem enterPoll_advances (hpoint : s.point = .polled f) (howned : s.Owned)
    (h : enterPoll s f = .ok s') : Advances s s' := by
  rw [TreeRun.Owned, hpoint] at howned
  obtain ⟨hf, hstack⟩ := howned
  have htokens : s.point.tokens = f.tokens := by rw [hpoint]; rfl
  cases f with
  | fn name =>
    cases h
    exact advances_same hstack (congrArg (· + _) htokens.symm) rfl
  | waiting name awaitFuture =>
    cases h
    refine advances_same ⟨hf, rfl, hstack⟩ ?_ rfl
    rw [TreeRun.tokens, TreeRun.tokens, htokens, stackTokens_cons, ← add_assoc]
    exact congrArg (· + _) (add_comm ..)
  | sleep name ms scope handled =>
    cases scope with
    | first =>
      rw [enterPoll] at h
      by_cases hms : ms = 0
      · rw [if_pos hms] at h
        exact callAtOnce_advances hpoint (by rw [TreeRun.Owned, hpoint]; exact ⟨hf, hstack⟩) h
      · rw [if_neg hms] at h
        cases h
        exact advances_same ⟨trivial, hstack⟩ (congrArg (· + _) htokens.symm) rfl
    | second | done =>
      cases h
      exact advances_same ⟨trivial, hstack⟩ (congrArg (· + _) htokens.symm) rfl
  | join name kind ext futures =>
    obtain ⟨ext', hpoll, h⟩ := bind_eq_ok.mp h
    cases h
    obtain ⟨howns, hbusy⟩ := owned_join.mp hf
    cases joinStep_cases hpoll with
    | poll hstage =>
      obtain ⟨howns', hkept⟩ := kept_joinStep hpoll rfl (by rw [hbusy]; rfl) howns
      refine advances_same ⟨howns', hstack⟩ ?_ rfl
      rw [TreeRun.tokens, TreeRun.tokens, htokens, tokens_join, ← hkept]
      rfl

theorem endBody_advances {e : BodyEnd} (hpoint : s.point = .running name) (howned : s.Owned)
    (h : endBody s name e = .ok s') : Advances s s' := by
  rw [TreeRun.Owned, hpoint] at howned
  have hstack : StackOwned s.stack name := howned
  have htokens : s.point.tokens = {.alive name} := by rw [hpoint]; rfl
  cases e with
  | undefined | suspendedYield | asyncReturn =>
    cases h
    exact advances_same ⟨trivial, hstack⟩ (congrArg (· + _) htokens.symm) rfl
  | yield =>
    obtain ⟨s₁, hwake, h⟩ := bind_eq_ok.mp h
    cases h
    obtain ⟨hsame, hs₁⟩ := callWaker_same hwake
    refine advances_same ⟨trivial, hsame.owned _ hstack⟩ ?_ (by rw [hs₁])
    rw [TreeRun.tokens, TreeRun.tokens, htokens, ← hsame.tokens]
    rfl
  | await f =>
    cases h
    refine ⟨⟨owned_returns f, (name_returns f).symm, hstack⟩, _, 0, rfl, allGone_zero, ?_⟩
    -- `f` is made, and then the coroutine depends on it
    have hgiven := (given_accounts f).frame s.tokens
    rw [zero_add] at hgiven
    refine hgiven.append (.one ?_)
    rw [TreeRun.tokens, TreeRun.tokens, htokens, stackTokens_cons, add_zero]
    show Lib.Settles _ (.lends name f.name) (f.returns.tokens + (_ + stackTokens s.stack))
    rw [Frame.tokens, Multiset.singleton_add, Multiset.singleton_add, Multiset.add_cons,
      Multiset.add_cons]
    exact .lends name f.name _

theorem joinTurn_advances {o : JoinOp} (hpoint : s.point = .inJoin name kind ext futures)
    (howned : s.Owned) (ho : o = .child ∨ o = .cleaned ∨ ∃ rand, o = .finish rand)
    (h : joinTurn s name kind ext futures o = .ok s') : Advances s s' := by
  rw [TreeRun.Owned, hpoint] at howned
  obtain ⟨howns, hstack⟩ := howned
  have htokens : s.point.tokens = .alive name ::ₘ keptTokens ext futures := by rw [hpoint]; rfl
  obtain ⟨ext', hstep, h⟩ := bind_eq_ok.mp h
  have hcounts := countsReady_step howns.counts hstep
  cases joinStep_cases hstep with
  | @child i task hstage htask hfuture =>
    cases h
    have hfutures : (ext.setTask i { task with env := true }).futures = ext.futures :=
      futures_setTask_same htask rfl
    have hlen := len_setTask ext i { task with env := true }
    have hi := getElem?_futures htask
    rw [hfuture] at hi
    have hbusy := keptTokens_busy ext
      { (ext.setTask i { task with env := true }).log [.polled i] with
        stage := .polling i task.next }
      futures (futures i) hfutures (by rw [JoinExt.busy, hstage]) rfl hi
    rw [Function.update_eq_self] at hbusy
    refine advances_same ⟨howns.children i (lt_len_of_task htask), ⟨hcounts, ?_⟩,
      ⟨_, rfl⟩, hstack⟩ ?_ rfl
    · intro j hj
      exact howns.children j (hlen ▸ hj)
    · rw [TreeRun.tokens, TreeRun.tokens, htokens, hbusy, stackTokens_cons, ← add_assoc]
      refine congrArg (· + _) ?_
      rw [Frame.tokens, Multiset.add_cons]
      rfl
  | @cleaned i next task hstage htask =>
    cases h
    refine advances_same ⟨⟨hcounts, ?_⟩, hstack⟩ ?_ rfl
    · intro j hj
      have hlen := len_setTask ext i { task with future := false }
      exact howns.children j (hlen ▸ hj)
    · rw [TreeRun.tokens, TreeRun.tokens, htokens]
      refine congrArg (fun k => .alive name ::ₘ k + _) (keptTokens_congr ?_ fun _ => rfl)
      exact kept_cleaned (futures_setTask ext i _) (by rw [JoinExt.busy, hstage]) rfl
  | @finish rand hstage =>
    obtain ⟨htasks, -, -, hpolling, hcleaning⟩ := joinFinish_same kind.callbacks ext rand
    have hfutures : (joinFinish kind.callbacks ext rand).futures = ext.futures := by
      rw [JoinExt.futures, htasks]
      rfl
    have hbusy := busy_eq_none hpolling hcleaning
    obtain ⟨howns', hkept⟩ := kept_joinStep hstep hfutures (by rw [hbusy, JoinExt.busy, hstage]) howns
    have hanswered : ∀ poll, Advances s { s with
        point := .answered (.join name kind (joinFinish kind.callbacks ext rand) futures) poll } := by
      intro poll
      refine advances_same ⟨owned_join.mpr ⟨howns', hbusy⟩, hstack⟩ ?_ rfl
      rw [TreeRun.tokens, TreeRun.tokens, htokens, ← hkept]
      rfl
    have hwalking : Advances s { s with
        point := .inJoin name kind (joinFinish kind.callbacks ext rand) futures } := by
      refine advances_same ⟨howns', hstack⟩ ?_ rfl
      rw [TreeRun.tokens, TreeRun.tokens, htokens, ← hkept]
      rfl
    cases hs : (joinFinish kind.callbacks ext rand).stage with
    | polling i next => exact absurd hs (hpolling i next)
    | idle | returned value =>
      rw [hs] at h
      cases h
      exact hanswered _
    | walking p | cleaning i next | gone =>
      rw [hs] at h
      cases h
      exact hwalking
  | poll | pending | ready | wake | cleanup => simp at ho

/-- The poller of a future that is ready cleans it up; the frame may then let go of it. -/
theorem cleanup_advances (es : List TreeEvent) {m : Multiset (Token Nat)} (hf : f.Owned)
    (howned : s'.Owned) (hevents : s'.events = s.events ++ (f.cleanup ++ es))
    (hrest : ∀ gone, .gone f.name ∈ gone → Accounts TreeEvent.role (gone + m) es (s'.tokens + gone))
    (htokens : s.tokens = f.tokens + m) : Advances s s' := by
  obtain ⟨gone, hgone, hmem, haccounts⟩ := cleanup_accounts hf
  refine ⟨howned, _, gone, hevents, hgone, ?_⟩
  rw [htokens]
  exact (haccounts.frame m).append (hrest gone hmem)

/-- The await of `f` is over. -/
theorem passed_advances (hf : f.Owned) (howned : s'.Owned)
    (hevents : s'.events = s.events ++ (f.cleanup ++ [.passed name f.name f.ms]))
    (htokens : s.tokens = f.tokens + stackTokens (.resumed name f.name :: stack))
    (htokens' : s'.tokens = {.alive name} + stackTokens stack) : Advances s s' := by
  refine cleanup_advances _ hf howned hevents (fun gone hmem => .one ?_) htokens
  rw [htokens', stackTokens_cons, Frame.tokens, add_left_comm, Multiset.singleton_add,
    add_assoc, add_comm (stackTokens stack), Multiset.singleton_add]
  exact Lib.settles_returns (Multiset.mem_add.mpr (Or.inl hmem))

/-- The coroutine waits for `f`. -/
theorem waiting_advances (hf : f.Owned) (hstack : StackOwned stack name)
    (htokens : s.tokens = f.tokens + stackTokens (.resumed name f.name :: stack))
    (hpoint : s' = { s with stack := stack, point := .answered (.waiting name f) .pending }) :
    Advances s s' := by
  subst hpoint
  refine advances_same ⟨hf, hstack⟩ ?_ rfl
  show (.held name f.name ::ₘ f.tokens) + stackTokens stack = _
  rw [htokens, stackTokens_cons, Frame.tokens, Multiset.singleton_add, Multiset.add_cons,
    Multiset.cons_add]

/-- A child of a join answers. -/
theorem child_advances {poll : FuturePoll} (hf : f.Owned) (howns : OwnsChildren ext futures)
    (hstage : ∃ next, ext.stage = .polling i next) (hstack : StackOwned stack name)
    (htokens : s.tokens = f.tokens + stackTokens (.child name kind ext futures i :: stack))
    (hret : joinStep kind.callbacks ext (.ret poll) = .ok ext') :
    Advances s { s.log (if poll = .ready then f.cleanup else []) with
      stack := stack, point := .inJoin name kind ext' (Function.update futures i f) } := by
  obtain ⟨next, hstage⟩ := hstage
  have hcounts := countsReady_step howns.counts hret
  have hbusy : ext.busy = some i := by rw [JoinExt.busy, hstage]
  cases joinStep_cases hret with
  | @pending _ next' _ hstage' hready =>
    have htok := keptTokens_busy { ext with stage := .walking next' } ext futures f rfl rfl hbusy
      (howns.counts.polling i next hstage)
    refine advances_same ⟨howns.update hcounts rfl hf, hstack⟩ ?_ ?_
    · rw [TreeRun.tokens, htokens, PollPoint.tokens, htok, stackTokens_cons, ← add_assoc]
      refine congrArg (· + _) ?_
      rw [Frame.tokens, Multiset.add_cons]
    · rw [if_neg hready]
      exact List.append_nil _
  | @ready _ _ task env hstage' htask henv =>
    rw [hstage] at hstage'
    cases hstage'
    have hkept : keptTokens { ext.log [.ready i, .cleanedUp i] with
        env := env, stage := .cleaning i next } futures = keptTokens ext futures :=
      keptTokens_congr (kept_congr rfl hbusy.symm) fun _ => rfl
    refine cleanup_advances [] hf ⟨howns.update hcounts rfl hf, hstack⟩
      (by rw [List.append_nil]; rfl) ?_ htokens
    intro gone _
    rw [add_comm gone, TreeRun.tokens, PollPoint.tokens, keptTokens_update rfl, hkept,
      stackTokens_cons]
    exact .nil _

theorem returnPoll_advances {poll : FuturePoll} (hpoint : s.point = .answered f poll)
    (howned : s.Owned) (h : returnPoll s f poll = .ok s') : Advances s s' := by
  rw [TreeRun.Owned, hpoint] at howned
  obtain ⟨hf, hstack⟩ := howned
  have htokens : s.tokens = f.tokens + stackTokens s.stack := by rw [TreeRun.tokens, hpoint]; rfl
  cases returnPoll_cases h with
  | ended hnil =>
    rw [hnil] at htokens
    refine cleanup_advances [] hf hnil (by rw [List.append_nil]; rfl) ?_ htokens
    intro gone _
    rw [TreeRun.tokens, show (s.log f.cleanup).stack = [] from hnil, add_comm]
    exact .nil _
  | idle hnil hready =>
    rw [hnil] at htokens
    refine advances_same ⟨hf, hnil⟩ ?_ rfl
    rw [htokens, TreeRun.tokens, hnil]
    rfl
  | resumed heq =>
    rw [heq] at htokens hstack
    obtain ⟨rfl, hstack⟩ := hstack
    exact passed_advances hf hstack rfl htokens rfl
  | awaited heq hwake =>
    rw [heq] at htokens hstack
    obtain ⟨rfl, hstack⟩ := hstack
    obtain ⟨hsame, hs₁⟩ := callWaker_same hwake
    refine passed_advances hf ⟨trivial, hsame.owned _ hstack⟩ (by rw [hs₁]; rfl) htokens ?_
    rw [TreeRun.tokens, ← hsame.tokens]
    rfl
  | waiting heq hready =>
    rcases heq with heq | heq
    · rw [heq] at htokens hstack
      obtain ⟨rfl, hstack⟩ := hstack
      exact waiting_advances hf hstack htokens rfl
    · rw [heq] at htokens hstack
      obtain ⟨rfl, hstack⟩ := hstack
      exact waiting_advances hf hstack htokens rfl
  | child heq hret =>
    rw [heq] at htokens hstack
    obtain ⟨howns, hstage, hstack⟩ := hstack
    exact child_advances hf howns hstage hstack htokens hret

theorem pollStep_advances {o : PollOp} (howned : s.Owned) (h : pollStep s o = .ok s') :
    Advances s s' := by
  -- the entry of a poll is logged
  have hpolled : ∀ {f}, s.point = .polled f → Advances s (s.log [.polled f.name]) := by
    intro f hpoint
    refine advances_point _ 0 howned rfl allGone_zero ?_ rfl
    rw [add_zero]
    show Accounts _ s.point.tokens _ s.point.tokens
    rw [hpoint]
    exact polled_accounts f
  unfold pollStep at h
  split at h
  · rename_i f hpoint
    exact (hpolled hpoint).trans (enterPoll_advances hpoint howned h)
  · rename_i name ms handled hpoint
    exact (hpolled hpoint).trans
      (callAtOnce_advances (s := s.log [.polled name]) hpoint howned h)
  · rename_i e name hpoint
    exact endBody_advances hpoint howned h
  · rename_i name kind ext futures hpoint
    exact joinTurn_advances hpoint howned (Or.inl rfl) h
  · rename_i name kind ext futures hpoint
    exact joinTurn_advances hpoint howned (Or.inr (Or.inl rfl)) h
  · rename_i rand name kind ext futures hpoint
    exact joinTurn_advances hpoint howned (Or.inr (Or.inr ⟨rand, rfl⟩)) h
  · rename_i f poll hpoint
    exact returnPoll_advances hpoint howned h
  · cases h

/-- The polls in progress may own the same in another state. -/
theorem PollPoint.Owned.of_same {p : PollPoint} (hsame : SameStack stack stack')
    (hne : stack ≠ []) (h : p.Owned stack) : p.Owned stack' := by
  cases p with
  | idle f => exact absurd h.2 hne
  | polled f | answered f poll | inJoin name kind ext futures => exact ⟨h.1, hsame.owned _ h.2⟩
  | running name => exact hsame.owned _ h
  | ended => exact absurd h hne

/-- **Every step is accounted for by the tokens of the futures.** -/
theorem treeStep_advances {o : TreeOp} (howned : s.Owned) (h : treeStep s o = .ok s') :
    Advances s s' := by
  unfold treeStep at h
  split at h
  · rename_i f hpoint
    rw [TreeRun.Owned, hpoint] at howned
    cases h
    refine advances_same ⟨howned.1, ?_⟩ ?_ rfl
    · show StackOwned s.stack _
      rw [howned.2]
      trivial
    · rw [TreeRun.tokens, TreeRun.tokens, hpoint]
      rfl
  · exact pollStep_advances howned h
  · rename_i x path
    obtain ⟨f, f', hpoint, hwake, rfl⟩ := callHandler_ok h
    rw [TreeRun.Owned, hpoint] at howned
    have hsame := wakeAt_same (fun f f' hf => sleepHandler_same hf) hwake
    refine advances_point [.handled x] 0 ⟨hsame.owned howned.1, howned.2⟩ rfl
      allGone_zero ?_ rfl
    rw [add_zero, hpoint]
    show Accounts _ f.tokens _ f'.tokens
    rw [hsame.tokens]
    exact .one (.silent _)
  · rename_i path f hpoint
    rw [TreeRun.Owned, hpoint] at howned
    obtain ⟨f', hwake, h⟩ := bind_eq_ok.mp h
    cases h
    have hsame := wakeAt_same (fun f f' hf => by cases hf; exact .refl f) hwake
    refine advances_same ⟨hsame.owned howned.1, howned.2⟩ ?_ rfl
    rw [TreeRun.tokens, TreeRun.tokens, hpoint]
    exact congrArg (· + _) hsame.tokens
  · rename_i i path name kind ext futures hpoint
    rw [TreeRun.Owned, hpoint] at howned
    obtain ⟨future, hfuture, h⟩ := bind_eq_ok.mp h
    obtain ⟨⟨ext', futures'⟩, hslot, h⟩ := bind_eq_ok.mp h
    obtain ⟨s₁, hwake, h⟩ := bind_eq_ok.mp h
    cases h
    have hsame := wakeAt_same (fun f f' hf => by cases hf; exact .refl f) hfuture
    obtain ⟨-, htokens, howns⟩ := wakeSlot_same hslot hsame
    obtain ⟨hstack, hs₁⟩ := callWaker_same hwake
    refine advances_same ⟨howns howned.1, hstack.owned _ howned.2⟩ ?_ (by rw [hs₁])
    rw [TreeRun.tokens, TreeRun.tokens, hpoint, hstack.tokens, PollPoint.tokens, htokens]
    rfl
  · obtain ⟨stack, hframe, h⟩ := bind_eq_ok.mp h
    cases h
    have hsame := wakeFrame_same hframe
    have hne : s.stack ≠ [] := by
      intro hnil
      rw [hnil] at hframe
      cases hframe
    exact advances_same (howned.of_same hsame hne) (congrArg (s.point.tokens + ·) hsame.tokens) rfl
  · rename_i f hpoint
    rw [TreeRun.Owned, hpoint] at howned
    cases h
    refine cleanup_advances [] (m := stackTokens s.stack) howned.1 howned.2
      (by rw [List.append_nil]; rfl) ?_ (by rw [TreeRun.tokens, hpoint]; rfl)
    intro gone _
    rw [add_comm, TreeRun.tokens]
    show Accounts _ _ [] (0 + stackTokens s.stack + gone)
    rw [zero_add]
    exact .nil _
  · cases h

/-! ## Runs -/

/-- Everything that happened is accounted for by what is still to be cleaned up. -/
structure CleanupInvariant (s : TreeRun) : Prop where
  owned : s.Owned
  accounts : ∃ gone, AllGone gone ∧ Accounts TreeEvent.role 0 s.events (s.tokens + gone)

theorem cleanupInvariant_init (f : FutureFn) : CleanupInvariant (treeRun f) := by
  refine ⟨⟨owned_returns f, rfl⟩, 0, allGone_zero, ?_⟩
  rw [add_zero, TreeRun.tokens]
  show Accounts _ 0 f.given (f.returns.tokens + 0)
  rw [add_zero]
  exact given_accounts f

theorem cleanupInvariant_step {o : TreeOp} (h : CleanupInvariant s) (hok : treeStep s o = .ok s') :
    CleanupInvariant s' := by
  obtain ⟨gone, hgone, haccounts⟩ := h.accounts
  obtain ⟨howned, es, gone', hevents, hgone', haccounts'⟩ := treeStep_advances h.owned hok
  refine ⟨howned, gone' + gone, hgone'.add hgone, ?_⟩
  rw [hevents, ← add_assoc]
  exact haccounts.append (haccounts'.frame gone)

theorem cleanupInvariant_run {f : FutureFn} {os : List TreeOp}
    (hrun : Lib.run treeStep (treeRun f) os = .ok s) : CleanupInvariant s :=
  Lib.run_invariant (P := fun _ _ => True) (fun _ _ _ hs _ hok => cleanupInvariant_step hs hok)
    (cleanupInvariant_init f) (Lib.along_of_forall fun _ _ _ => trivial) hrun

def TreeEvent.given? : TreeEvent → Option Nat
  | .given x => some x
  | _ => none

/-- The futures that were given to a poller. -/
def givenNames (es : List TreeEvent) : List Nat := es.filterMap TreeEvent.given?

theorem countP_opens (es : List TreeEvent) (x : Nat) :
    es.countP (·.role = .opens x) = (givenNames es).count x := by
  induction es with
  | nil => rfl
  | cons e es ih =>
    rw [List.countP_cons, ih]
    cases e with
    | given y =>
      show _ = (y :: givenNames es).count x
      rw [List.count_cons]
      simp [TreeEvent.role]
    | polled y | awaits p y | passed p y ms | handled y | cleanedUp y => exact Nat.add_zero _

theorem role_eq_closes {e : TreeEvent} {x : Nat} : e.role = .closes x ↔ e = .cleanedUp x := by
  cases e <;> simp [TreeEvent.role]

/-- **Structured clean-up.** Whatever the coroutines do, and whoever calls their wakers: when the
root has been cleaned up, because it was ready or early, every future that was given to a poller was
cleaned up once, none was polled after its clean-up, and an awaited one was cleaned up before the
coroutine that awaited it. -/
theorem structured_cleanup {root : FutureFn} {os : List TreeOp}
    (hrun : Lib.run treeStep (treeRun root) os = .ok s) (hended : s.point = .ended)
    (hnames : (givenNames s.events).Nodup) :
    (∀ x, .given x ∈ s.events → s.events.count (.cleanedUp x) = 1) ∧
      (∀ x before after, s.events = before ++ .cleanedUp x :: after → .polled x ∉ after) ∧
      ∀ p x before after, .awaits p x ∈ s.events → s.events = before ++ .cleanedUp p :: after →
        .cleanedUp x ∈ before := by
  obtain ⟨howned, gone, hgone, haccounts⟩ := cleanupInvariant_run hrun
  rw [TreeRun.Owned, hended] at howned
  have htokens : s.tokens = 0 := by
    rw [TreeRun.tokens, hended, show s.stack = [] from howned]
    rfl
  rw [htokens, zero_add] at haccounts
  have honce : ∀ x, s.events.countP (·.role = .opens x) ≤ 1 := by
    intro x
    rw [countP_opens]
    exact List.nodup_iff_count_le_one.mp hnames x
  refine ⟨?_, ?_, ?_⟩
  · intro x hx
    have hcount := haccounts.closes_eq_opens hgone x
    rw [countP_opens, List.count_eq_one_of_mem hnames (List.mem_filterMap.mpr ⟨_, hx, rfl⟩)] at hcount
    rw [← hcount, List.count]
    refine List.countP_congr ?_
    intro e _
    simp [role_eq_closes]
  · intro x before after hevents hpolled
    have honce := honce x
    rw [hevents] at haccounts honce
    exact (haccounts.not_used_after (x := x) rfl honce _ hpolled).1 rfl
  · intro p x before after hx hevents
    have honce := honce p
    rw [hevents] at haccounts honce hx
    obtain ⟨e, he, hrole⟩ := haccounts.closed_before (p := p) (c := x) rfl honce ⟨_, hx, rfl⟩
    exact role_eq_closes.mp hrole ▸ he

/-- A coroutine awaits a join of a coroutine and a sleep; the coroutine is ready in the second round,
and the root is then cleaned up early. -/
def cleanupOps : List TreeOp :=
  [.poll] ++
    ([.enter, .body (.await (.join 1 .join 2 fun i => if i = 0 then .asyncFn 2 else .sleep 3 5)),
      .enter, .child, .enter, .body .yield, .ret, .child, .enter, .ret, .finish 0, .ret,
      .ret] : List PollOp).map .inside ++
    [.poll] ++
    ([.enter, .enter, .child, .enter, .body .asyncReturn, .ret, .cleaned, .finish 0, .ret,
      .ret] : List PollOp).map .inside ++
    [.cleanup]

theorem structured_cleanup_early : ∃ s, Lib.run treeStep (treeRun (.asyncFn 0)) cleanupOps = .ok s ∧
    s.events.count (.cleanedUp 3) = 1 ∧ .polled 2 ∈ s.events := by
  obtain ⟨s, hrun, hended, hnames, h₃, h₂⟩ : ∃ s,
      Lib.run treeStep (treeRun (.asyncFn 0)) cleanupOps = .ok s ∧ s.point = .ended ∧
        (givenNames s.events).Nodup ∧ .given 3 ∈ s.events ∧ .polled 2 ∈ s.events := by
    refine ⟨_, rfl, rfl, ?_, ?_, ?_⟩ <;> decide
  exact ⟨s, hrun, (structured_cleanup hrun hended hnames).1 3 h₃, h₂⟩

end Taskio
