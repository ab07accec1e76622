import Taskio.Async.FutureTree
import Taskio.Common.Join

/-!
# `select.c`: the winners

What one poll of a biased select does, in terms of its two lists: the rest of the walk, and the
children woken for the next one. The winners come in the order of the walk, and the first is returned.

* `joinOrder_lists` — the two lists after a step
* `Selects` — the lists and the winners
* `Selects.turn`, `Selects.won` — a child of the walk is pending, or it wins
* `Selects.finish` — the end of the poll
-/

namespace Taskio

/-! ## The lists -/

section Lists

variable {E : Type} {cb : JoinCallbacks E} {s s' : JoinExt E} {o : JoinOp} {rest list : List Nat}

/-- What is left of the walk after a step, and the ready list. -/
def listsAfter (rest list : List Nat) : JoinOp → List Nat × List Nat
  | .poll => (list, [])
  | .child => (rest.tail, list)
  | .wake i => (rest, list ++ [i])
  | .ret _ | .cleaned | .finish _ | .cleanup => (rest, list)

theorem joinOrder_lists (h : JoinOrder rest list s) (hcalm : CalmWakes s o)
    (hok : joinStep cb s o = .ok s') :
    JoinOrder (listsAfter rest list o).1 (listsAfter rest list o).2 s' := by
  obtain ⟨rest', list', h'⟩ := joinOrder_step h hcalm hok
  have hasked := asked_step hok
  have hround := round_append (joinStep_events hok)
  rw [h'.asked, h.asked] at hasked
  suffices hsame : (rest', list') = listsAfter rest list o by
    rw [← hsame]
    exact h'
  cases joinStep_cases hok with
  | poll hstage =>
    simp only [joinEvents, List.foldl_cons, List.foldl_nil, roundAfter, askedAfter] at hasked hround
    rw [hround] at hasked
    exact hasked
  | @child i task hstage =>
    have hhead := h.ready.walk
    rw [JoinExt.walk, hstage] at hhead
    cases rest with
    | nil => cases hhead
    | cons x rest =>
      cases hhead.1
      simp only [joinEvents, hstage, List.foldl_cons, List.foldl_nil, roundAfter, askedAfter]
        at hasked hround
      rw [hround, List.append_assoc, Prod.mk.injEq] at hasked
      exact Prod.ext (List.cons.inj (List.append_cancel_left hasked.1)).2 hasked.2
  | @pending i next poll hstage hpoll =>
    cases poll with
    | ready => exact absurd rfl hpoll
    | _ =>
      simp only [joinEvents, List.foldl_nil] at hasked hround
      rw [hround, Prod.mk.injEq] at hasked
      exact Prod.ext (List.append_cancel_left hasked.1) hasked.2
  | ready hstage =>
    simp only [joinEvents, hstage, List.foldl_cons, List.foldl_nil, roundAfter, askedAfter]
      at hasked hround
    rw [hround, Prod.mk.injEq] at hasked
    exact Prod.ext (List.append_cancel_left hasked.1) hasked.2
  | cleanup hstage =>
    simp only [joinEvents] at hasked hround
    rw [foldl_asked_cleanedUp, Prod.mk.injEq] at hasked
    rw [(foldl_cleanedUp _ 0 false _).2] at hround
    rw [hround] at hasked
    exact Prod.ext (List.append_cancel_left hasked.1) hasked.2
  | _ =>
    simp only [joinEvents, List.foldl_cons, List.foldl_nil, roundAfter, askedAfter] at hasked hround
    rw [hround, Prod.mk.injEq] at hasked
    exact Prod.ext (List.append_cancel_left hasked.1) hasked.2

/-- A slot is overwritten with the same index. -/
theorem index_setTask {i : Nat} {task task' : JoinTask} (htask : s.tasks[i]? = some task)
    (h : task'.index = task.index) :
    (s.setTask i task').tasks.map (·.index) = s.tasks.map (·.index) := by
  obtain ⟨hi, hget⟩ := List.getElem?_eq_some_iff.mp htask
  have hlt : i < (s.tasks.map (·.index)).length := by
    rw [List.length_map]
    exact hi
  have hself := List.set_getElem_self hlt
  rw [List.getElem_map, hget] at hself
  show (s.tasks.set i task').map _ = _
  rw [List.map_set, h, hself]

/-- The place of a child is its index. -/
theorem index_eq_place {i : Nat} {task : JoinTask}
    (hindex : s.tasks.map (·.index) = List.range s.len) (htask : s.tasks[i]? = some task) :
    task.index = i := by
  have hget := congrArg (·[i]?) hindex
  simp only [List.getElem?_map, htask, Option.map_some] at hget
  rw [List.getElem?_range (lt_len_of_task htask)] at hget
  exact Option.some.inj hget

/-- `_join_wake` changes links only. -/
theorem joinWake_kept {i : Nat} (h : joinWake s i = .ok s') :
    s'.tasks.map (·.index) = s.tasks.map (·.index) ∧ s'.env = s.env ∧ s'.stage = s.stage := by
  obtain ⟨task, htask, h⟩ := bind_eq_ok.mp h
  have htask := jtask_eq_ok.mp htask
  by_cases henv : task.env = false
  · rw [if_pos henv] at h
    cases h
  rw [if_neg henv] at h
  simp only at h
  split at h
  · rename_i last hlast
    obtain ⟨lastTask, hlastTask, h⟩ := bind_eq_ok.mp h
    cases h
    refine ⟨?_, rfl, rfl⟩
    show ((s.setTask i _).setTask last _).tasks.map _ = _
    rw [index_setTask (jtask_eq_ok.mp hlastTask) (by rfl), index_setTask htask (by rfl)]
  · cases h
    exact ⟨index_setTask htask rfl, rfl, rfl⟩

theorem joinFinish_env (cb : JoinCallbacks E) (s : JoinExt E) (rand : Nat) :
    (joinFinish cb s rand).env = s.env := by
  unfold joinFinish
  split
  · rfl
  · split <;> rfl

/-- No step changes the index of a child, and only one that is ready changes the environment. -/
theorem joinStep_kept (hok : joinStep cb s o = .ok s') :
    s'.tasks.map (·.index) = s.tasks.map (·.index) ∧ (o ≠ .ret .ready → s'.env = s.env) := by
  cases joinStep_cases hok with
  | poll hstage => exact ⟨rfl, fun _ => rfl⟩
  | child hstage htask hfuture => exact ⟨index_setTask htask rfl, fun _ => rfl⟩
  | pending hstage hpoll => exact ⟨rfl, fun _ => rfl⟩
  | ready hstage htask henv => exact ⟨rfl, fun hne => absurd rfl hne⟩
  | cleaned hstage htask => exact ⟨index_setTask htask rfl, fun _ => rfl⟩
  | wake hstage hwake => exact ⟨(joinWake_kept hwake).1, fun _ => (joinWake_kept hwake).2.1⟩
  | finish hstage => exact ⟨by rw [(joinFinish_same cb s _).1], fun _ => joinFinish_env cb s _⟩
  | cleanup hstage => exact ⟨rfl, fun _ => rfl⟩

/-- Only a child that is ready stops being pending. -/
theorem ready_notMem {i : Nat} (hready : o ≠ .ret .ready) : .ready i ∉ joinEvents s o := by
  unfold joinEvents
  split
  · simp
  · split <;> simp
  · exact absurd rfl hready
  · simp
  · simp
  all_goals simp

end Lists

/-! ## The winners -/

/-- The biased select. -/
def selectCallbacks : JoinCallbacks (List Nat) := (JoinKind.select true).callbacks

variable {s s' : JoinExt (List Nat)} {rest list won : List Nat} {i : Nat}

/-- `rest` is what is left of the walk, `list` is the ready list, and `won` has the children that have
returned ready. -/
structure Selects (rest list won : List Nat) (s : JoinExt (List Nat)) : Prop where
  order : JoinOrder rest list s
  counts : CountsReady s
  index : s.tasks.map (·.index) = List.range s.len
  env : s.env = won
  won : ∀ i, s.pending i ↔ i ∉ won

theorem selects_init (len : Nat) : Selects [] (List.range len) [] (joinExt len []) where
  order := joinOrder_init len []
  counts := countsReady_init len []
  index := by simp [joinExt, joinTasks, JoinExt.len, Function.comp_def]
  env := rfl
  won i := by simp [JoinExt.pending, joinExt]

namespace Selects

/-- The walk stands at the head of the rest. -/
theorem walk (h : Selects rest list won s) : s.walk = rest.head? := by
  have hchain := h.order.ready.walk
  cases rest with
  | nil => exact hchain
  | cons x rest => exact hchain.1

/-- A child that has not won and is in neither list was polled since it was woken. -/
theorem due (h : Selects rest list won s) (hi : i < s.len) (hwon : i ∉ won)
    (hnotin : i ∉ rest ++ list) : s.due i = false := by
  cases hdue : s.due i with
  | false => rfl
  | true => exact absurd ((h.order.ready.exact i).mpr ⟨hi, (h.won i).mpr hwon, hdue⟩) hnotin

/-- A step that adds no winner. -/
theorem move {o : JoinOp} (h : Selects rest list won s) (hok : joinStep selectCallbacks s o = .ok s')
    (hcalm : CalmWakes s o) (hready : o ≠ .ret .ready) :
    Selects (listsAfter rest list o).1 (listsAfter rest list o).2 won s' := by
  have hlen : s'.len = s.len := (joinStep_effect hok).history.1
  obtain ⟨hindex, henv⟩ := joinStep_kept hok
  refine ⟨joinOrder_lists h.order hcalm hok, countsReady_step h.counts hok, ?_,
    (henv hready).trans h.env, ?_⟩
  · rw [hindex, hlen]
    exact h.index
  · intro i
    rw [pending_append (joinStep_events hok), h.won]
    exact and_iff_left (ready_notMem hready)

/-- A poll of the select begins. -/
theorem poll (h : Selects rest list won s) (hok : joinStep selectCallbacks s .poll = .ok s') :
    Selects list [] won s' ∧ s'.stage = .walking list.head? := by
  have h' := h.move hok trivial (by simp)
  refine ⟨h', ?_⟩
  cases joinStep_cases hok with
  | poll hstage => exact congrArg JoinStage.walking h'.walk

/-- The next child is polled. -/
theorem child (h : Selects rest list won s) (hok : joinStep selectCallbacks s .child = .ok s') :
    ∃ i rest', rest = i :: rest' ∧ s.stage = .walking (some i) ∧ Selects rest' list won s' ∧
      s'.stage = .polling i rest'.head? := by
  have h' := h.move hok trivial (by simp)
  have hwalk := h.walk
  cases joinStep_cases hok with
  | @child i task hstage htask hfuture =>
    rw [JoinExt.walk, hstage] at hwalk
    cases rest with
    | nil => cases hwalk
    | cons x rest' =>
      cases hwalk
      exact ⟨i, rest', rfl, hstage, h', congrArg (JoinStage.polling i) h'.walk⟩

/-- Its waker is called. -/
theorem wake (h : Selects rest list won s) (hi : i < s.len) (hwon : i ∉ won)
    (hnotin : i ∉ rest ++ list) (hok : joinStep selectCallbacks s (.wake i) = .ok s') :
    Selects rest (list ++ [i]) won s' ∧ s'.stage = s.stage := by
  refine ⟨h.move hok ⟨(h.won i).mpr hwon, h.due hi hwon hnotin⟩ (by simp), ?_⟩
  cases joinStep_cases hok with
  | wake hstage hwake => exact (joinWake_kept hwake).2.2

/-- It is pending. -/
theorem ret {poll : FuturePoll} {next : Option Nat} (h : Selects rest list won s)
    (hstage : s.stage = .polling i next) (hpoll : poll ≠ .ready)
    (hok : joinStep selectCallbacks s (.ret poll) = .ok s') :
    Selects rest list won s' ∧ s'.stage = .walking next := by
  refine ⟨h.move hok ?_ (by simpa using hpoll), ?_⟩
  · cases poll with
    | ready => exact absurd rfl hpoll
    | _ => trivial
  · cases joinStep_cases hok with
    | pending hstage' =>
      rw [hstage] at hstage'
      cases hstage'
      rfl
    | ready => exact absurd rfl hpoll

/-- It is ready, and is the next winner. -/
theorem wins {s'' : JoinExt (List Nat)} {next : Option Nat} (h : Selects rest list won s)
    (hstage : s.stage = .polling i next) (hi : i < s.len) (hnew : i ∉ won)
    (hnotin : i ∉ rest ++ list) (hok : joinStep selectCallbacks s (.ret .ready) = .ok s')
    (hcleaned : joinStep selectCallbacks s' .cleaned = .ok s'') :
    Selects rest list (won ++ [i]) s'' ∧ s''.stage = .walking next := by
  have hdue := h.due hi hnew hnotin
  have hcalm : CalmWakes s (.ret .ready) := by
    intro j next' hstage'
    rw [hstage] at hstage'
    cases hstage'
    exact hdue
  have hlen : s'.len = s.len := (joinStep_effect hok).history.1
  have hready : Selects rest list (won ++ [i]) s' ∧ s'.stage = .cleaning i next := by
    have horder := joinOrder_lists h.order hcalm hok
    have hcounts := countsReady_step h.counts hok
    have hindex := (joinStep_kept hok).1
    have hpending := fun j => pending_append (joinStep_events hok) j
    cases joinStep_cases hok with
    | pending _ hpoll => exact absurd rfl hpoll
    | @ready i' next' task env hstage' htask henv =>
      rw [hstage] at hstage'
      cases hstage'
      refine ⟨⟨horder, hcounts, ?_, ?_, ?_⟩, rfl⟩
      · rw [hindex, hlen]
        exact h.index
      · show env = _
        rw [henv, ← h.env]
        show s.env ++ [task.index] = _
        rw [index_eq_place h.index htask]
      · intro j
        rw [hpending j, h.won, joinEvents, hstage, List.mem_append]
        simp
  obtain ⟨hready, hcleaning⟩ := hready
  refine ⟨hready.move hcleaned trivial (by simp), ?_⟩
  cases joinStep_cases hcleaned with
  | cleaned hstage' =>
    rw [hcleaning] at hstage'
    cases hstage'
    rfl

/-- The poll of the select ends: the first winner is returned, if there is one. -/
theorem finish {rand : Nat} (h : Selects rest list won s)
    (hok : joinStep selectCallbacks s (.finish rand) = .ok s') :
    rest = [] ∧ Selects [] list won s' ∧
      (∀ winner, won.head? = some winner → s'.stage = .returned (some winner)) ∧
      (won = [] → 0 < s.len → s'.stage = .idle) := by
  have h' := h.move hok trivial (by simp)
  have hwalk := h.walk
  cases joinStep_cases hok with
  | finish hstage =>
    rw [JoinExt.walk, hstage] at hwalk
    have hnil : rest = [] := List.head?_eq_none_iff.mp hwalk.symm
    refine ⟨hnil, hnil ▸ h', ?_, ?_⟩
    · intro winner hwinner
      cases won with
      | nil => cases hwinner
      | cons x won =>
        cases hwinner
        unfold joinFinish
        rw [h.env]
        rfl
    · intro hnone hlen
      subst hnone
      have hpending : ¬ s.AllReady := fun hall => (h.won 0).mpr List.not_mem_nil (hall 0 hlen)
      unfold joinFinish
      rw [h.env]
      show (if s.len = s.completedLen then _ else _ : JoinExt (List Nat)).stage = _
      rw [if_neg (mt (h.counts.complete_iff hstage).mp hpending)]

/-- The children that its clean-up cleans up are those that have not won. -/
theorem pending_eq (h : Selects rest list won s) (hpolling : ∀ i next, s.stage ≠ .polling i next)
    (hcleaning : ∀ i next, s.stage ≠ .cleaning i next) :
    joinPending s.tasks 0 (s.len - s.completedLen) =
      (List.range s.len).filter fun i => decide (i ∉ won) := by
  have hbusy := busy_eq_none hpolling hcleaning
  rw [joinPending_eq_kept h.counts hbusy, JoinExt.kept]
  refine List.filter_congr fun i hi => decide_eq_decide.mpr ?_
  rw [← length_futures, List.mem_range] at hi
  have hget := List.getElem?_eq_getElem hi
  have hfuture := h.counts.future i _ hget
  rw [hget, hbusy, ← h.won]
  simp only [hcleaning, ne_eq, not_false_eq_true, implies_true, and_true] at hfuture
  cases hf : s.futures[i] with
  | true =>
    rw [hf] at hfuture
    simpa using hfuture
  | false =>
    rw [hf] at hfuture
    simpa using hfuture

end Selects

end Taskio
