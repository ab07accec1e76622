import Mathlib.Algebra.GroupWithZero.Nat
import Mathlib.Algebra.Order.BigOperators.Group.List
import Mathlib.Algebra.Order.Group.Nat
import Taskio.Async.SleepTreeRuns

/-!
# A poll of a tree of sleeps ends

A poll walks a list that only gets shorter, and polls each child in it once: the children that wake
themselves are linked into the list for the next poll.

* `Future.work` — how many steps a poll may take
* `pollStep_within` — each step leaves one less
* `pollStep_goesOn` — until the root has returned there is another step
* `sleep_tree_poll_ends` — so every poll comes to its answer
* `sleep_tree_woken_twice` — the condition on the wakers is needed
-/

namespace Taskio

variable {ext ext' : JoinExt (List Nat)} {kind : JoinKind} {f : Future}
  {futures futures' : Nat → Future} {name i n : Nat} {rest list : List Nat}
  {stack stack' : List Frame} {woken : Bool} {s s' : TreeRun}

/-! ## How many steps a poll may take -/

/-- A sleep is entered and returns. So does a join, which ends its loop in between, and takes up each
child and may clean it up. -/
def Future.work : Future → Nat
  | .sleep _ _ _ _ => 2
  | .join _ _ ext futures => ((List.range ext.len).map fun i => (futures i).work + 2).sum + 3
  | .fn _ | .waiting _ _ => 0

def listWork (futures : Nat → Future) (rest : List Nat) : Nat :=
  (rest.map fun i => (futures i).work + 2).sum

/-- The child that is taken up may have to be cleaned up. -/
def JoinStage.cleanUps : JoinStage → Nat
  | .polling _ _ | .cleaning _ _ => 1
  | .idle | .walking _ | .returned _ | .gone => 0

/-- The loop of the join ends within so many steps, not counting those of the child that is polled. -/
def JoinExt.Within (ext : JoinExt (List Nat)) (futures : Nat → Future) (n : Nat) : Prop :=
  ∃ rest list, JoinOrder rest list ext ∧ listWork futures rest + ext.stage.cleanUps ≤ n

def PollPoint.Within (n : Nat) : PollPoint → Prop
  | .polled f => f.work ≤ n
  | .inJoin _ _ ext futures => ∃ m, ext.Within futures m ∧ m + 2 ≤ n
  | .answered _ _ => 0 < n
  | .idle _ | .running _ | .ended => True

def StackWithin : List Frame → Nat → Prop
  | [], _ => True
  | .child _ _ ext futures _ :: stack, n =>
    ∃ m k, ext.Within futures m ∧ StackWithin stack k ∧ m + 2 + k ≤ n
  | .resumed _ _ :: _, _ | .awaited _ _ :: _, _ => False

/-- The poll ends within so many steps. -/
def TreeRun.Within (s : TreeRun) (n : Nat) : Prop :=
  ∃ m k, s.point.Within m ∧ StackWithin s.stack k ∧ m + k ≤ n

theorem listWork_cons (futures : Nat → Future) (i : Nat) (rest : List Nat) :
    listWork futures (i :: rest) = (futures i).work + 2 + listWork futures rest := by
  rw [listWork, List.map_cons, List.sum_cons]
  rfl

theorem listWork_update (hi : i ∉ rest) :
    listWork (Function.update futures i f) rest = listWork futures rest := by
  rw [listWork, listWork]
  refine congrArg List.sum (List.map_congr_left fun j hj => ?_)
  rw [Function.update_of_ne]
  rintro rfl
  exact hi hj

/-- A list of children, each once. -/
theorem listWork_le {len : Nat} (hnodup : rest.Nodup) (hlen : ∀ i ∈ rest, i < len) :
    listWork futures rest ≤ listWork futures (List.range len) := by
  obtain ⟨l, hperm, hsub⟩ := List.subperm_of_subset hnodup fun i hi => List.mem_range.mpr (hlen i hi)
  calc listWork futures rest
      = listWork futures l := (hperm.symm.map _).sum_nat
    _ ≤ listWork futures (List.range len) := (hsub.map _).sum_le_sum fun _ _ => Nat.zero_le _

/-! ## One step less -/

/-- A waker links a child for the next poll. -/
theorem JoinExt.Within.wake (h : ext.Within futures n) (hcalm : CalmWakes ext (.wake i))
    (hok : joinStep kind.callbacks ext (.wake i) = .ok ext') : ext'.Within futures n := by
  obtain ⟨rest, list, horder, hn⟩ := h
  refine ⟨_, _, joinOrder_lists horder hcalm hok, ?_⟩
  rwa [(wake_marks hok).1]

theorem wakeStack_within (h : StackWaits woken stack) (hcalm : CalmStack stack)
    (hok : wakeStack stack = .ok stack') (hn : StackWithin stack n) : StackWithin stack' n := by
  induction stack generalizing stack' n with
  | nil =>
    cases hok
    trivial
  | cons frame stack ih =>
    cases frame with
    | resumed name awaitFuture | awaited name awaitFuture => exact h.elim
    | child name kind ext futures i =>
      obtain ⟨ext', hwake, hok⟩ := bind_eq_ok.mp hok
      obtain ⟨stack₁, hstack, hok⟩ := bind_eq_ok.mp hok
      cases hok
      obtain ⟨hround, ⟨next, hstage⟩, -, hrest⟩ := h
      obtain ⟨m, k, hm, hk, hmk⟩ := hn
      have hcalm' : CalmWakes ext (.wake i) := ⟨(hround.once i next hstage).1, hcalm.1⟩
      exact ⟨m, k, hm.wake hcalm' hwake, ih hrest hcalm.2 hstack hk, hmk⟩

theorem callAtOnce_within {name ms : Nat} {handled : Bool}
    (hpoint : s.point = .polled (.sleep name ms .first handled)) (h : TreeWaits s)
    (hcalm : CalmStack s.stack) (hok : s.callAtOnce name ms = .ok s') (hn : s.Within n) :
    ∃ m < n, s'.Within m := by
  obtain ⟨m, k, hm, hk, hmk⟩ := hn
  rw [hpoint] at hm
  have hm : 2 ≤ m := hm
  obtain ⟨s₁, hwake, hok⟩ := bind_eq_ok.mp hok
  cases hok
  obtain ⟨stack', hstack, hwake⟩ := bind_eq_ok.mp hwake
  cases hwake
  have hk' := wakeStack_within h.stack hcalm hstack hk
  exact ⟨1 + k, by omega, 1, k, Nat.one_pos, hk', le_rfl⟩

theorem enterPoll_within (hpoint : s.point = .polled f) (h : TreeWaits s)
    (hcalm : ∀ name handled, f = .sleep name 0 .first handled → CalmStack s.stack)
    (hok : enterPoll s f = .ok s') (hn : s.Within n) : ∃ m < n, s'.Within m := by
  have hwaits := h.point
  rw [hpoint] at hwaits
  obtain ⟨hf, -, -⟩ := hwaits
  have ⟨m, k, hm, hk, hmk⟩ := hn
  rw [hpoint] at hm
  cases f with
  | fn name | waiting name awaitFuture => exact hf.elim
  | sleep name ms scope handled =>
    have hm : 2 ≤ m := hm
    have hless : 1 + k < n := by omega
    cases scope with
    | first =>
      rw [enterPoll] at hok
      by_cases hms : ms = 0
      · subst hms
        rw [if_pos rfl] at hok
        exact callAtOnce_within hpoint h (hcalm name handled rfl) hok hn
      · rw [if_neg hms] at hok
        cases hok
        exact ⟨1 + k, hless, 1, k, Nat.one_pos, hk, le_rfl⟩
    | second =>
      cases hok
      exact ⟨1 + k, hless, 1, k, Nat.one_pos, hk, le_rfl⟩
    | done => exact hf.elim
  | join name kind ext futures =>
    obtain ⟨ext', hpoll, hok⟩ := bind_eq_ok.mp hok
    cases hok
    have hm : listWork futures (List.range ext.len) + 3 ≤ m := hm
    -- the loop takes the list, which has each child at most once
    obtain ⟨rest, list, horder⟩ := (joinFair_step (o := .poll) hf.2.1 trivial hpoll).sound.order
    have hlen := (joinStep_effect hpoll).history.1
    have hrest : listWork futures rest ≤ listWork futures (List.range ext.len) := by
      refine listWork_le (List.nodup_append.mp horder.ready.once).1 fun i hi => ?_
      exact hlen ▸ ((horder.ready.exact i).mp (List.mem_append_left _ hi)).1
    have hturns : ext'.stage.cleanUps = 0 := by
      cases joinStep_cases hpoll with
      | poll => rfl
    refine ⟨listWork futures rest + 2 + k, by omega, _, k,
      ⟨_, ⟨rest, list, horder, le_rfl⟩, le_rfl⟩, hk, ?_⟩
    omega

theorem joinTurn_within {o : JoinOp} (hpoint : s.point = .inJoin name kind ext futures)
    (ho : o = .child ∨ o = .cleaned ∨ ∃ rand, o = .finish rand)
    (hok : joinTurn s name kind ext futures o = .ok s') (hn : s.Within n) : ∃ m < n, s'.Within m := by
  obtain ⟨m, k, hm, hk, hmk⟩ := hn
  rw [hpoint] at hm
  obtain ⟨a, ⟨rest, list, horder, ha⟩, ham⟩ := hm
  obtain ⟨ext', hstep, hturn⟩ := bind_eq_ok.mp hok
  rcases ho with rfl | rfl | ⟨rand, rfl⟩
  · have horder' := joinOrder_lists (o := .child) horder trivial hstep
    obtain ⟨i, l, next, rfl, hstage⟩ : ∃ i l next, rest = i :: l ∧ ext'.stage = .polling i next := by
      cases joinStep_cases hstep with
      | @child i task hstage =>
        have hchain := horder.ready.walk
        rw [JoinExt.walk, hstage] at hchain
        cases rest with
        | nil => cases hchain
        | cons x l =>
          cases hchain.1
          exact ⟨i, l, task.next, rfl, rfl⟩
    rw [hstage] at hturn
    cases hturn
    rw [listWork_cons] at ha
    have hcleanUps : ext'.stage.cleanUps = 1 := by
      rw [hstage]
      rfl
    refine ⟨(futures i).work + (listWork futures l + 1 + 2 + k), by omega, _, _, le_rfl,
      ⟨_, k, ⟨l, list, horder', ?_⟩, hk, le_rfl⟩, le_rfl⟩
    exact (congrArg _ hcleanUps).le
  · have horder' := joinOrder_lists (o := .cleaned) horder trivial hstep
    obtain ⟨hbefore, p, hstage⟩ : ext.stage.cleanUps = 1 ∧ ∃ p, ext'.stage = .walking p := by
      cases joinStep_cases hstep with
      | cleaned hstage =>
        rw [hstage]
        exact ⟨rfl, _, rfl⟩
    rw [hstage] at hturn
    cases hturn
    refine ⟨listWork futures rest + 2 + k, by omega, _, k,
      ⟨_, ⟨rest, list, horder', ?_⟩, le_rfl⟩, hk, le_rfl⟩
    rw [hstage]
    exact le_rfl
  · have hless : 1 + k < n := by omega
    have hreturns : (∃ value, ext'.stage = .returned value) ∨ ext'.stage = .idle := by
      cases joinStep_cases hstep with
      | finish =>
        unfold joinFinish
        split
        · exact Or.inl ⟨_, rfl⟩
        · split
          · exact Or.inl ⟨_, rfl⟩
          · exact Or.inr rfl
    rcases hreturns with ⟨value, hstage⟩ | hstage
    · rw [hstage] at hturn
      cases hturn
      exact ⟨1 + k, hless, 1, k, Nat.one_pos, hk, le_rfl⟩
    · rw [hstage] at hturn
      cases hturn
      exact ⟨1 + k, hless, 1, k, Nat.one_pos, hk, le_rfl⟩

theorem returnPoll_within {poll : FuturePoll} (hpoint : s.point = .answered f poll) (h : TreeWaits s)
    (hcalm : poll = .ready → ∀ name kind ext futures i,
      s.stack.head? = some (.child name kind ext futures i) → ext.due i = false)
    (hok : returnPoll s f poll = .ok s') (hn : s.Within n) : ∃ m < n, s'.Within m := by
  have hstack := h.stack
  obtain ⟨m, k, hm, hk, hmk⟩ := hn
  rw [hpoint] at hm
  have hm : 0 < m := hm
  cases returnPoll_cases hok with
  | ended hnil | idle hnil => exact ⟨k, by omega, 0, k, trivial, hk, (Nat.zero_add k).le⟩
  | resumed heq | awaited heq =>
    rw [heq] at hstack
    exact hstack.elim
  | waiting heq =>
    rcases heq with heq | heq
    · rw [heq] at hstack
      exact hstack.elim
    · rw [heq] at hstack
      exact hstack.elim
  | @child _ name i kind ext ext' futures stack heq hret =>
    rw [heq] at hstack hk hcalm
    obtain ⟨hround, ⟨next, hstage⟩, -, -⟩ := hstack
    obtain ⟨a, k, ⟨rest, list, horder, ha⟩, hk, hak⟩ := hk
    have hcalm' := calm_ret hstage fun hready => hcalm hready _ _ _ _ _ rfl
    have horder' := joinOrder_lists horder hcalm' hret
    have hrest : i ∉ rest := fun hi =>
      (hround.once i next hstage).2 ((JoinSound.walks_iff horder).mpr hi)
    rw [hstage] at ha
    have hcleanUps : ext'.stage.cleanUps ≤ 1 := by
      cases joinStep_cases hret with
      | pending => exact Nat.zero_le 1
      | ready => exact le_rfl
    have ha : listWork futures rest + 1 ≤ a := ha
    refine ⟨a + 2 + k, by omega, a + 2, k, ⟨a, ⟨rest, list, horder', ?_⟩, le_rfl⟩, hk, le_rfl⟩
    rw [listWork_update hrest]
    omega

theorem pollStep_within {o : PollOp} (h : TreeWaits s) (hcalm : s.Calm o)
    (hok : pollStep s o = .ok s') (hn : s.Within n) : ∃ m < n, s'.Within m := by
  cases pollStep_cases h hcalm hok with
  | @enter f hpoint hcalm hok =>
    have hlogged : TreeWaits (s.log [.polled f.name]) := ⟨h.stack, h.point⟩
    exact enterPoll_within (s := s.log [.polled f.name]) hpoint hlogged hcalm hok hn
  | @past name ms handled hpoint hcalm hok =>
    have hlogged : TreeWaits (s.log [.polled name]) := ⟨h.stack, h.point⟩
    exact callAtOnce_within (s := s.log [.polled name]) hpoint hlogged hcalm hok hn
  | turn hpoint ho hok => exact joinTurn_within hpoint ho hok hn
  | ret hpoint hcalm hok => exact returnPoll_within hpoint h hcalm hok hn

theorem length_within {os : List PollOp} (h : TreeWaits s) (hn : s.Within n)
    (hcalm : Lib.Along treeStep CalmTree s (os.map .inside))
    (hrun : Lib.run treeStep s (os.map .inside) = .ok s') : os.length ≤ n := by
  induction os generalizing s n with
  | nil => exact Nat.zero_le n
  | cons o os ih =>
    obtain ⟨s₁, hstep, hrest⟩ := Lib.run_cons_eq_ok.mp hrun
    obtain ⟨m, hm, hwithin⟩ := pollStep_within h hcalm.1 hstep hn
    have hlength := ih (treeStep_waits h hcalm.1 hstep) hwithin (hcalm.2 s₁ hstep) hrest
    rw [List.length_cons]
    omega

/-! ## Another step -/

theorem wakeStack_goesOn (h : StackWaits woken stack) : ∃ stack', wakeStack stack = .ok stack' := by
  induction stack with
  | nil => exact ⟨_, rfl⟩
  | cons frame stack ih =>
    cases frame with
    | resumed name awaitFuture | awaited name awaitFuture => exact h.elim
    | child name kind ext futures i =>
      obtain ⟨hround, ⟨next, hstage⟩, -, hrest⟩ := h
      obtain ⟨rest, list, horder⟩ := hround.fair.sound.order
      obtain ⟨ext', hwake⟩ : ∃ ext', joinWake ext i = .ok ext' := by
        refine joinWake_goesOn (fun last hlast => ?_) (hround.handed i next hstage)
        exact ((horder.ready.exact last).mp
          (List.mem_append_right _ (horder.ready.mem_of_tail hlast))).1
      have hstep : joinStep kind.callbacks ext (.wake i) = .ok ext' := by
        unfold joinStep
        rw [hstage]
        exact hwake
      obtain ⟨stack', hstack⟩ := ih hrest
      exact ⟨_, bind_eq_ok.mpr ⟨ext', hstep, bind_eq_ok.mpr ⟨stack', hstack, rfl⟩⟩⟩

theorem jtask_bind_ne {α : Type} {g : JoinTask → Except Fault α}
    (h : ∀ task, g task ≠ .error .noSuchCall) : ext.task i >>= g ≠ .error .noSuchCall := by
  unfold JoinExt.task
  cases ext.tasks[i]? with
  | none => exact nofun
  | some task => exact h task

/-- The loop of a join goes on. -/
theorem InRound.goesOn (h : InRound kind ext futures) (hloop : ext.stage.InLoop) :
    ∃ o ext', (o = .child ∨ o = .cleaned ∨ ∃ rand, o = .finish rand) ∧
      joinStep kind.callbacks ext o = .ok ext' := by
  have hfault : ∀ o, CalmWakes ext o → joinStep kind.callbacks ext o ≠ .error .noSuchCall →
      ∃ ext', joinStep kind.callbacks ext o = .ok ext' :=
    fun o hcalm hne => (h.fair.sound.no_fault hcalm).resolve_right hne
  cases hstage : ext.stage with
  | idle | polling | returned | gone =>
    rw [hstage] at hloop
    exact hloop.elim
  | walking p =>
    cases p with
    | none =>
      refine ⟨.finish 0, joinFinish kind.callbacks ext 0, Or.inr (Or.inr ⟨0, rfl⟩), ?_⟩
      unfold joinStep
      rw [hstage]
    | some i =>
      obtain ⟨ext', hok⟩ := hfault .child trivial (by
        unfold joinStep
        rw [hstage]
        refine jtask_bind_ne fun task => ?_
        split
        · exact nofun
        · exact nofun)
      exact ⟨.child, ext', Or.inl rfl, hok⟩
  | cleaning i next =>
    obtain ⟨ext', hok⟩ := hfault .cleaned trivial (by
      unfold joinStep
      rw [hstage]
      exact jtask_bind_ne fun task => nofun)
    exact ⟨.cleaned, ext', Or.inr (Or.inl rfl), hok⟩

theorem joinTurn_goesOn {o : JoinOp} (s : TreeRun) (name : Nat) (futures : Nat → Future)
    (hok : joinStep kind.callbacks ext o = .ok ext') :
    ∃ s', joinTurn s name kind ext futures o = .ok s' := by
  unfold joinTurn
  rw [hok, ok_bind]
  split
  all_goals exact ⟨_, rfl⟩

theorem enterPoll_goesOn (hstack : StackWaits woken s.stack) (hf : f.Waits) :
    ∃ s', enterPoll s f = .ok s' := by
  cases f with
  | fn name | waiting name awaitFuture => exact hf.elim
  | sleep name ms scope handled =>
    cases scope with
    | first =>
      rw [enterPoll]
      split
      · obtain ⟨stack', hwake⟩ := wakeStack_goesOn hstack
        exact ⟨_, bind_eq_ok.mpr ⟨_, bind_eq_ok.mpr ⟨stack', hwake, rfl⟩, rfl⟩⟩
      · exact ⟨_, rfl⟩
    | second | done => exact ⟨_, rfl⟩
  | join name kind ext futures =>
    obtain ⟨ext', hpoll⟩ : ∃ ext', joinStep kind.callbacks ext .poll = .ok ext' := by
      unfold joinStep
      rw [hf.1]
      exact ⟨_, rfl⟩
    exact ⟨_, bind_eq_ok.mpr ⟨ext', hpoll, rfl⟩⟩

theorem returnPoll_goesOn (f : Future) (poll : FuturePoll)
    (hstack : StackWaits woken s.stack) :
    ∃ s', returnPoll s f poll = .ok s' := by
  unfold returnPoll
  cases heq : s.stack with
  | nil =>
    simp only
    split
    · exact ⟨_, rfl⟩
    · exact ⟨_, rfl⟩
  | cons frame stack =>
    rw [heq] at hstack
    cases frame with
    | resumed name awaitFuture | awaited name awaitFuture => exact hstack.elim
    | child name kind ext futures i =>
      obtain ⟨hround, ⟨next, hstage⟩, -, -⟩ := hstack
      obtain ⟨hi, -⟩ := List.getElem?_eq_some_iff.mp (hround.handed i next hstage)
      rw [JoinExt.handed, List.length_map] at hi
      have htask := jtask_eq_ok.mpr (List.getElem?_eq_getElem hi)
      obtain ⟨ext', hret⟩ : ∃ ext', joinStep kind.callbacks ext (.ret poll) = .ok ext' := by
        unfold joinStep
        rw [hstage]
        cases poll with
        | undefined | pending => exact ⟨_, rfl⟩
        | ready => exact ⟨_, bind_eq_ok.mpr ⟨_, htask, rfl⟩⟩
      exact ⟨_, bind_eq_ok.mpr ⟨ext', hret, rfl⟩⟩

/-- Until the root has returned there is another step. -/
theorem pollStep_goesOn (h : TreeWaits s) :
    (∃ f, s.point = .idle f) ∨ s.point = .ended ∨ ∃ o s', pollStep s o = .ok s' := by
  have hwaits := h.point
  cases hpoint : s.point with
  | idle f => exact Or.inl ⟨f, rfl⟩
  | ended => exact Or.inr (Or.inl rfl)
  | running name =>
    rw [hpoint] at hwaits
    exact hwaits.elim
  | polled f =>
    rw [hpoint] at hwaits
    have hstack : StackWaits s.woken (s.log [.polled f.name]).stack := h.stack
    obtain ⟨s', hok⟩ := enterPoll_goesOn hstack hwaits.1
    refine Or.inr (Or.inr ⟨.enter, s', ?_⟩)
    unfold pollStep
    rw [hpoint]
    exact hok
  | inJoin name kind ext futures =>
    rw [hpoint] at hwaits
    obtain ⟨o, ext', ho, hok⟩ := hwaits.1.goesOn hwaits.2.1
    obtain ⟨s', hturn⟩ := joinTurn_goesOn s name futures hok
    refine Or.inr (Or.inr ?_)
    rcases ho with rfl | rfl | ⟨rand, rfl⟩
    · refine ⟨.child, s', ?_⟩
      unfold pollStep
      rw [hpoint]
      exact hturn
    · refine ⟨.cleaned, s', ?_⟩
      unfold pollStep
      rw [hpoint]
      exact hturn
    · refine ⟨.finish rand, s', ?_⟩
      unfold pollStep
      rw [hpoint]
      exact hturn
  | answered f poll =>
    obtain ⟨s', hok⟩ := returnPoll_goesOn f poll h.stack
    refine Or.inr (Or.inr ⟨.ret, s', ?_⟩)
    unfold pollStep
    rw [hpoint]
    exact hok

/-! ## The main result -/

/-- **A poll of a tree of sleeps takes a bounded number of steps, none of which can fail, and then the
root is done exactly when the formula held as the poll began.** -/
theorem sleep_tree_poll_ends {root : FutureFn} {os : List TreeOp} {os' : List PollOp}
    (hsleeps : root.OfSleeps) (hcalm : Lib.Along treeStep CalmTree (treeRun root) os)
    (hrun : Lib.run treeStep (treeRun root) os = .ok s) (hidle : s.point = .idle f)
    (hcalm' : Lib.Along treeStep CalmTree s (.poll :: os'.map .inside))
    (hrun' : Lib.run treeStep s (.poll :: os'.map .inside) = .ok s') :
    os'.length ≤ f.work ∧ ((∃ o s'', pollStep s' o = .ok s'') ∨ (f.Done ∧ s'.point = .ended) ∨
      ¬ f.Done ∧ ∃ f', s'.point = .idle f') := by
  have hwaits := treeRun_run hsleeps hcalm hrun
  obtain ⟨hwaits', hverdict⟩ := poll_verdict hwaits hidle hcalm' hrun'
  have hpoint := hwaits.point
  have hpoint' := hwaits'.point
  rw [hidle] at hpoint
  constructor
  · obtain ⟨s₁, hpoll, hinside⟩ := Lib.run_cons_eq_ok.mp hrun'
    refine length_within (treeStep_waits hwaits hcalm'.1 hpoll) ?_ (hcalm'.2 s₁ hpoll) hinside
    rw [poll_begins hidle hpoll]
    refine ⟨f.work, 0, le_rfl, ?_, le_rfl⟩
    rw [hpoint.1]
    trivial
  · rw [TreeRun.Verdict] at hverdict
    rcases pollStep_goesOn hwaits' with ⟨f', hidle'⟩ | hended | hgoesOn
    · rw [hidle'] at hpoint' hverdict
      rw [hpoint'.1] at hverdict
      exact Or.inr (Or.inr ⟨hverdict.mpr, f', hidle'⟩)
    · rw [hended] at hpoint' hverdict
      rw [hpoint'] at hverdict
      exact Or.inr (Or.inl ⟨hverdict.mp trivial, hended⟩)
    · exact Or.inl hgoesOn

/-- A sleep, and two sleeps of which one is enough. -/
def sleepTree : FutureFn :=
  .join 0 .join 2 fun
    | 0 => .sleep 1 5
    | _ => .join 2 (.select false) 2 fun j => .sleep (j + 3) (6 * j + 3)

/-- All are polled, and five milliseconds pass. -/
def sleepTreeOps : List TreeOp :=
  .poll :: ([.enter, .child, .enter, .ret, .child, .enter, .child, .enter, .ret, .child, .enter, .ret,
    .finish 0, .ret, .finish 0, .ret] : List PollOp).map .inside ++ [.handler 3 [1, 0], .handler 1 [0]]

def sleepTreePoll : List PollOp :=
  [.enter, .child, .enter, .child, .enter, .ret, .cleaned, .finish 0, .ret, .cleaned, .child, .enter,
    .ret, .cleaned, .finish 0]

theorem sleepTree_ofSleeps : sleepTree.OfSleeps := by
  rintro (_ | i) -
  · trivial
  · exact fun _ _ => trivial

theorem sleep_tree_poll_ends_nested : ∃ s f s',
    Lib.run treeStep (treeRun sleepTree) sleepTreeOps = .ok s ∧ s.point = .idle f ∧
    Lib.run treeStep s (.poll :: sleepTreePoll.map .inside) = .ok s' ∧
    sleepTreePoll.length ≤ f.work := by
  have hcalm : Lib.Along treeStep CalmTree (treeRun sleepTree)
      (sleepTreeOps ++ .poll :: sleepTreePoll.map .inside) := by decide
  obtain ⟨hcalm, hpoll⟩ := Lib.along_append hcalm
  refine ⟨_, _, _, rfl, rfl, rfl, ?_⟩
  exact (sleep_tree_poll_ends sleepTree_ofSleeps hcalm rfl rfl (hpoll _ rfl) rfl).1

/-- A join of a join of two sleeps, which end before the task is polled again. -/
def sleepsTogether : FutureFn := .join 0 .join 1 fun _ => .join 1 .join 2 fun i => .sleep (i + 2) 5

def sleepsTogetherOps : List TreeOp :=
  .poll :: ([.enter, .child, .enter, .child, .enter, .ret, .child, .enter, .ret, .finish 0, .ret,
    .finish 0, .ret] : List PollOp).map .inside ++ [.handler 2 [0, 0], .handler 3 [0, 1]] ++
    .poll :: ([.enter, .child, .enter, .child, .enter, .ret, .cleaned, .child, .enter, .ret, .cleaned,
      .finish 0, .ret, .cleaned] : List PollOp).map .inside

/-- Both wake the child of the outer join, which is then linked to itself: the loop takes it up once
more after it is cleaned up. -/
theorem sleep_tree_woken_twice : ∃ s,
    Lib.run treeStep (treeRun sleepsTogether) sleepsTogetherOps = .ok s ∧
    ¬ Lib.Along treeStep CalmTree (treeRun sleepsTogether) sleepsTogetherOps ∧
    pollStep s .child = .error .nullPointer :=
  ⟨_, rfl, by decide, rfl⟩

end Taskio
