import Taskio.Common.JoinCounter
import Taskio.Common.ReadyList

/-!
# `join.c`: when a join is complete

A join has no callbacks: it returns when `completed_len` has reached `len`. If wakers are called as
futures call them, at most once between two polls and never of a future that is done, a round polls
the children woken since the round before began.

* `JoinOrder` — the rest of the walk and the ready list, spelled by the history
* `JoinSound.no_fault` — no step reads a null pointer or beyond the array
* `join_completes` — the rounds of a join, and the round in which it returns
-/

namespace Taskio

open Lib (Chain IsQueue)

variable {E : Type} {cb : JoinCallbacks E} {s s' : JoinExt E} {o : JoinOp} {i : Nat}
  {rest list : List Nat}

/-- `taskio_join`: the constructor. -/
def taskioJoin (len : Nat) : JoinExt Unit := joinExt len ()

/-- The callbacks of `taskio_join`: both are null. -/
def joinCallbacks : JoinCallbacks Unit := { onReady := none, onFinish := none }

/-! ## What the children ask for -/

/-- The children that the round is to poll, and those woken since it began. -/
def askedAfter (asked : List Nat × List Nat) (e : JoinEvent) : List Nat × List Nat :=
  match e with
  | .began => (asked.2, [])
  | .woken i => (asked.1, asked.2 ++ [i])
  | .polled _ | .ready _ | .cleanedUp _ => asked

def JoinEvent.polled? : JoinEvent → Option Nat
  | .polled i => some i
  | _ => none

def JoinEvent.woken? : JoinEvent → Option Nat
  | .woken i => some i
  | _ => none

namespace JoinExt

/-- Before the first round every child is to be polled. -/
def asked (s : JoinExt E) : List Nat × List Nat :=
  s.events.foldl askedAfter ([], List.range s.len)

/-- All polls of children, in order. -/
def polls (s : JoinExt E) : List Nat := s.events.filterMap JoinEvent.polled?

/-- All calls of their wakers, in order. -/
def wakes (s : JoinExt E) : List Nat := s.events.filterMap JoinEvent.woken?

end JoinExt

/-- The wakers are called as futures call them: at most once between two polls, and not in or after
the poll that completes the child. -/
def CalmWakes (s : JoinExt E) : JoinOp → Prop
  | .wake i => s.pending i ∧ s.due i = false
  | .ret .ready => ∀ i next, s.stage = .polling i next → s.due i = false
  | _ => True

instance (s : JoinExt E) (o : JoinOp) : Decidable (CalmWakes s o) :=
  match o with
  | .wake i => inferInstanceAs (Decidable (.ready i ∉ s.events ∧ s.due i = false))
  | .ret .ready =>
    match h : s.stage with
    | .polling i _ => decidable_of_iff (s.due i = false) (by simp [CalmWakes, h])
    | .idle | .walking _ | .cleaning _ _ | .returned _ | .gone => isTrue (by simp [CalmWakes, h])
  | .poll | .child | .ret .undefined | .ret .pending | .cleaned | .finish _ | .cleanup =>
    isTrue trivial

theorem asked_step (h : joinStep cb s o = .ok s') :
    s'.asked = (joinEvents s o).foldl askedAfter s.asked := by
  have hlen : s'.len = s.len := (joinStep_effect h).history.1
  rw [JoinExt.asked, hlen, joinStep_events h, List.foldl_append]
  rfl

/-! ## The order of the polls -/

/-- The rest of the walk and the ready list, spelled by the history. -/
structure JoinOrder (rest list : List Nat) (s : JoinExt E) : Prop where
  ready : ReadyList rest list s
  asked : s.asked = (s.round ++ rest, list)
  sequence : List.range s.len ++ s.wakes = s.polls ++ (rest ++ list)

/-- Calm wakers are those of children that are not linked. -/
theorem CalmWakes.keeps (hcalm : CalmWakes s o) (h : ReadyList rest list s) :
    KeepsReadyList s o ∧ WakesPending s o := by
  have hunlinked : ∀ {i}, s.due i = false → ¬ s.Linked i := by
    intro i hdue hlinked
    have hexact := (h.exact i).mp (h.linked_iff.mp hlinked)
    rw [hdue] at hexact
    cases hexact.2.2
  cases o with
  | wake i => exact ⟨hunlinked hcalm.2, hcalm.1⟩
  | ret poll =>
    cases poll with
    | ready => exact ⟨fun i next hstage => hunlinked (hcalm i next hstage), trivial⟩
    | _ => exact ⟨trivial, trivial⟩
  | _ => exact ⟨trivial, trivial⟩

/-- The clean-up of the children asks for nothing. -/
theorem foldl_asked_cleanedUp (l : List Nat) (asked : List Nat × List Nat) :
    (l.map JoinEvent.cleanedUp).foldl askedAfter asked = asked := by
  induction l with
  | nil => rfl
  | cons x l ih => exact ih

/-- The ready list after a step. -/
theorem list_step {rest' list' : List Nat} (h : ReadyList rest list s) (h' : ReadyList rest' list' s')
    (hcalm : CalmWakes s o) (hok : joinStep cb s o = .ok s') :
    list' = ((joinEvents s o).foldl askedAfter (s.round ++ rest, list)).2 := by
  have hchain' := h'.queue.chain
  have hkeep : s'.next = s.next → s'.pollHead = s.pollHead → list' = list := by
    intro hnext hhead
    rw [hnext, hhead] at hchain'
    exact hchain'.unique h.queue.chain
  cases joinStep_cases hok with
  | poll hstage => exact hchain'.unique rfl
  | child hstage htask hfut =>
    simp only [joinEvents, hstage]
    exact hkeep (next_setTask_same htask rfl) rfl
  | @pending i next poll hstage hpoll =>
    cases poll with
    | ready => exact absurd rfl hpoll
    | _ => exact hkeep rfl rfl
  | ready hstage htask henv =>
    simp only [joinEvents, hstage]
    exact hkeep rfl rfl
  | cleaned hstage htask => exact hkeep (next_setTask_same htask rfl) rfl
  | @wake i s' hstage hwake =>
    obtain ⟨hkeeps, hpending⟩ := hcalm.keeps h
    obtain ⟨hnew, -⟩ := h.wake (joinWake_effect hwake).1 (mt h.linked_iff.mpr hkeeps) hpending
    exact hchain'.unique hnew.queue.chain
  | @finish rand hstage =>
    have hsame : (joinFinish cb s rand).pollHead = s.pollHead := by
      unfold joinFinish
      split
      · rfl
      · split <;> rfl
    refine hkeep ?_ hsame
    unfold JoinExt.next
    rw [(joinFinish_same cb s rand).1]
  | cleanup hstage =>
    rw [joinEvents, foldl_asked_cleanedUp]
    exact hkeep rfl rfl

/-- What a step asks for is what the walk and the ready list gain, and what it polls they lose. -/
theorem sequence_step {rest' list' : List Nat} (h : ReadyList rest list s)
    (hround : s'.round ++ rest' = if o = .poll then list else s.round ++ rest)
    (hlist : list' = ((joinEvents s o).foldl askedAfter (s.round ++ rest, list)).2)
    (hok : joinStep cb s o = .ok s') :
    (joinEvents s o).filterMap JoinEvent.polled? ++ (rest' ++ list') =
      rest ++ list ++ (joinEvents s o).filterMap JoinEvent.woken? := by
  have hround' := round_append (joinStep_events hok)
  -- the steps without such events
  have hquiet : o ≠ .poll → s'.round = s.round → list' = list → rest' ++ list' = rest ++ list := by
    intro ho hsame heq
    rw [if_neg ho, hsame] at hround
    rw [heq, List.append_cancel_left hround]
  cases joinStep_cases hok with
  | poll hstage =>
    have hrest : rest = [] := by
      have hchain := h.walk
      rw [JoinExt.walk, hstage] at hchain
      exact hchain.unique rfl
    rw [if_pos rfl, hround'] at hround
    have hrest' : rest' = list := hround
    rw [hlist, hrest, hrest']
    show list ++ [] = list ++ []
    rfl
  | @child i task hstage =>
    simp only [joinEvents, hstage] at hround' hlist ⊢
    rw [if_neg (by simp), hround', List.foldl_cons, List.foldl_nil, roundAfter,
      List.append_assoc] at hround
    rw [hlist, ← List.append_cancel_left hround]
    simp [askedAfter, JoinEvent.polled?, JoinEvent.woken?]
  | @pending i next poll hstage hpoll =>
    cases poll with
    | ready => exact absurd rfl hpoll
    | _ =>
      simp only [joinEvents, List.filterMap_nil, List.nil_append, List.append_nil]
      exact hquiet (by simp) hround' hlist
  | ready hstage =>
    simp only [joinEvents, hstage] at hround' hlist ⊢
    show rest' ++ list' = rest ++ list ++ []
    rw [List.append_nil]
    exact hquiet (by simp) hround' hlist
  | cleaned hstage =>
    simp only [joinEvents, List.filterMap_nil, List.nil_append, List.append_nil]
    exact hquiet (by simp) hround' hlist
  | @wake i s' hstage =>
    rw [if_neg (by simp), hround'] at hround
    rw [hlist, List.append_cancel_left hround]
    simp [joinEvents, askedAfter, JoinEvent.polled?, JoinEvent.woken?]
  | finish hstage =>
    simp only [joinEvents, List.filterMap_nil, List.nil_append, List.append_nil]
    exact hquiet (by simp) hround' hlist
  | cleanup hstage =>
    rw [joinEvents] at hround' hlist ⊢
    rw [(foldl_cleanedUp _ 0 true _).2] at hround'
    rw [foldl_asked_cleanedUp] at hlist
    have hnone : ∀ (f : JoinEvent → Option Nat) (l : List Nat), (∀ i, f (.cleanedUp i) = none) →
        (l.map JoinEvent.cleanedUp).filterMap f = [] := by
      intro f l hf
      rw [List.filterMap_map, List.filterMap_eq_nil_iff]
      exact fun i _ => hf i
    rw [hnone _ _ fun _ => rfl, hnone _ _ fun _ => rfl, List.nil_append, List.append_nil]
    exact hquiet (by simp) hround' hlist

/-- Only a poll of the join replaces what is asked of the round. -/
theorem foldl_asked_fst {es : List JoinEvent} (asked : List Nat × List Nat) (hes : .began ∉ es) :
    (es.foldl askedAfter asked).1 = asked.1 := by
  induction es generalizing asked with
  | nil => rfl
  | cons e es ih =>
    rw [List.foldl_cons, ih _ fun hmem => hes (List.mem_cons_of_mem _ hmem)]
    cases e with
    | began => exact absurd List.mem_cons_self hes
    | _ => rfl

theorem began_notMem (hpoll : o ≠ .poll) (hok : joinStep cb s o = .ok s') :
    .began ∉ joinEvents s o := by
  cases joinStep_cases hok with
  | poll => exact absurd rfl hpoll
  | @pending i next poll hstage hready =>
    cases poll with
    | ready => exact absurd rfl hready
    | _ => exact List.not_mem_nil
  | child hstage => simp [joinEvents, hstage]
  | ready hstage => simp [joinEvents, hstage]
  | _ => simp [joinEvents]

theorem joinOrder_step (h : JoinOrder rest list s) (hcalm : CalmWakes s o)
    (hok : joinStep cb s o = .ok s') : ∃ rest' list', JoinOrder rest' list' s' := by
  obtain ⟨hkeeps, hpending⟩ := hcalm.keeps h.ready
  obtain ⟨rest', list', h', hround⟩ := (joinStep_effect hok).readyList h.ready hkeeps hpending
  have hlist := list_step h.ready h' hcalm hok
  refine ⟨rest', list', h', ?_, ?_⟩
  · rw [asked_step hok, h.asked, hround, hlist]
    refine Prod.ext ?_ rfl
    by_cases hpoll : o = .poll
    · rw [if_pos hpoll, hpoll]
      rfl
    · rw [if_neg hpoll]
      exact foldl_asked_fst _ (began_notMem hpoll hok)
  · have hlen : s'.len = s.len := (joinStep_effect hok).history.1
    rw [JoinExt.wakes, JoinExt.polls, hlen, joinStep_events hok, List.filterMap_append,
      List.filterMap_append, List.append_assoc, sequence_step h.ready hround hlist hok]
    show _ ++ (s.wakes ++ _) = s.polls ++ _
    rw [← List.append_assoc, h.sequence, List.append_assoc]

theorem joinOrder_init (len : Nat) (env : E) :
    JoinOrder [] (List.range len) (joinExt len env) := by
  have hlen : (joinExt len env).len = len := by simp [JoinExt.len, joinExt, joinTasks]
  refine ⟨readyList_init len env, ?_, ?_⟩
  · rw [JoinExt.asked, hlen]
    rfl
  · rw [hlen]
    exact List.append_nil _

/-! ## Runs -/

/-- No child is polled after it returned ready. -/
def PollsPending (s : JoinExt E) : Prop :=
  s.events.Pairwise fun e e' => ∀ i, e = .ready i → e' ≠ .polled i

theorem pollsPending_step (h : PollsPending s) (hr : ReadyList rest list s)
    (hok : joinStep cb s o = .ok s') : PollsPending s' := by
  unfold PollsPending at h ⊢
  rw [joinStep_events hok, List.pairwise_append]
  -- only a poll of a child can break it, and that child is at the head of the walk
  have hnone : ∀ {es : List JoinEvent}, (∀ i, .polled i ∉ es) →
      es.Pairwise (fun e e' => ∀ i, e = .ready i → e' ≠ .polled i) ∧
        ∀ e ∈ s.events, ∀ e' ∈ es, ∀ i, e = .ready i → e' ≠ .polled i := by
    intro es hes
    refine ⟨List.pairwise_of_forall_mem_list ?_, ?_⟩
    · rintro e he e' he' i - rfl
      exact hes i he'
    · rintro e he e' he' i - rfl
      exact hes i he'
  refine ⟨h, ?_⟩
  cases joinStep_cases hok with
  | @child i task hstage htask hfut =>
    have hchain := hr.walk
    rw [JoinExt.walk, hstage] at hchain
    have hmem : i ∈ rest := List.mem_of_mem_head? hchain.head?_eq
    have hpending := ((hr.exact i).mp (List.mem_append_left _ hmem)).2.1
    simp only [joinEvents, hstage]
    refine ⟨List.pairwise_singleton _ _, ?_⟩
    rintro e he e' he' j rfl rfl
    rw [List.mem_singleton] at he'
    cases he'
    exact hpending he
  | @pending i next poll hstage hpoll =>
    cases poll with
    | ready => exact absurd rfl hpoll
    | _ => exact hnone (by simp [joinEvents])
  | ready hstage => exact hnone (by simp [joinEvents, hstage])
  | _ => exact hnone (by simp [joinEvents])

/-- The invariant of a join whose wakers are called as futures call them. -/
structure JoinSound (s : JoinExt E) : Prop where
  order : ∃ rest list, JoinOrder rest list s
  counts : CountsReady s
  polls : PollsPending s

theorem joinSound_init (len : Nat) (env : E) : JoinSound (joinExt len env) :=
  ⟨⟨_, _, joinOrder_init len env⟩, countsReady_init len env, List.Pairwise.nil⟩

theorem joinSound_step (h : JoinSound s) (hcalm : CalmWakes s o) (hok : joinStep cb s o = .ok s') :
    JoinSound s' := by
  obtain ⟨⟨rest, list, horder⟩, hcounts, hpolls⟩ := h
  exact ⟨joinOrder_step horder hcalm hok, countsReady_step hcounts hok,
    pollsPending_step hpolls horder.ready hok⟩

/-- A waker that was handed out can be called. -/
theorem joinWake_goesOn (htail : ∀ last, s.pollTail = some last → last < s.len)
    (hhanded : s.handed[i]? = some true) : ∃ s', joinWake s i = .ok s' := by
  rw [JoinExt.handed, List.getElem?_map, Option.map_eq_some_iff] at hhanded
  obtain ⟨task, hget, henv⟩ := hhanded
  rw [joinWake, jtask_eq_ok.mpr hget, ok_bind, if_neg (by simp [henv])]
  cases hlast : s.pollTail with
  | none => exact ⟨_, by simp only [JoinExt.setTask, hlast]; rfl⟩
  | some last =>
    obtain ⟨lastTask, hlastTask⟩ : ∃ lastTask,
        (s.setTask i { task with next := none }).tasks[last]? = some lastTask := by
      refine ⟨_, List.getElem?_eq_getElem ?_⟩
      rw [JoinExt.setTask, List.length_set]
      exact htail last hlast
    have hok := jtask_eq_ok.mpr hlastTask
    have htail : (s.setTask i { task with next := none }).pollTail = some last := hlast
    simp only [htail, hok]
    exact ⟨_, rfl⟩

/-- No step faults that the stage allows, if the walk stands at a pending child, the tail is a child,
and only wakers are called that were handed out. -/
theorem joinStep_no_fault (hcounts : CountsReady s)
    (hchild : ∀ i, o = .child → s.stage = .walking (some i) → i < s.len ∧ s.pending i)
    (htail : ∀ last, s.pollTail = some last → last < s.len)
    (hhanded : ∀ i, o = .wake i → s.handed[i]? = some true) :
    (∃ s', joinStep cb s o = .ok s') ∨ joinStep cb s o = .error .noSuchCall := by
  have htask : ∀ {i : Nat} {b : Bool}, s.futures[i]? = some b →
      ∃ task : JoinTask, s.tasks[i]? = some task ∧ task.future = b := by
    intro i b hb
    rwa [JoinExt.futures, List.getElem?_map, Option.map_eq_some_iff] at hb
  have hwake : ∀ i, o = .wake i → ∃ s', joinWake s i = .ok s' := fun i ho =>
    joinWake_goesOn htail (hhanded i ho)
  unfold joinStep
  split
  · exact Or.inl ⟨_, rfl⟩
  · rename_i i hstage
    obtain ⟨hi, hpending⟩ := hchild i rfl hstage
    have hget : s.tasks[i]? = some s.tasks[i] := List.getElem?_eq_getElem hi
    have hfuture : ¬ s.tasks[i].future = false := by
      rw [hcounts.future i _ (getElem?_futures hget)]
      exact fun hnot => hnot.1 hpending
    rw [joinChild, jtask_eq_ok.mpr hget, ok_bind, if_neg hfuture]
    exact Or.inl ⟨_, rfl⟩
  · rename_i poll i next hstage
    obtain ⟨task, hget, -⟩ := htask (hcounts.polling i next hstage)
    cases poll with
    | undefined => exact Or.inl ⟨_, rfl⟩
    | pending => exact Or.inl ⟨_, rfl⟩
    | ready =>
      rw [joinRet, jtask_eq_ok.mpr hget]
      exact Or.inl ⟨_, rfl⟩
  · rename_i i next hstage
    obtain ⟨task, hget, -⟩ := htask (hcounts.cleaning i next hstage).1
    rw [joinCleaned, jtask_eq_ok.mpr hget]
    exact Or.inl ⟨_, rfl⟩
  · exact Or.inl (hwake _ rfl)
  · exact Or.inl (hwake _ rfl)
  · exact Or.inl (hwake _ rfl)
  · exact Or.inl ⟨_, rfl⟩
  · exact Or.inl ⟨_, rfl⟩
  · exact Or.inl ⟨_, rfl⟩
  · exact Or.inr rfl

/-- No step that the stage allows ends in a fault. -/
theorem JoinSound.no_fault (h : JoinSound s) (hcalm : CalmWakes s o) :
    (∃ s', joinStep cb s o = .ok s') ∨ joinStep cb s o = .error .noSuchCall := by
  obtain ⟨⟨rest, list, ⟨hr, -⟩⟩, hcounts, -⟩ := h
  refine joinStep_no_fault hcounts ?_ ?_ ?_
  · intro i _ hstage
    have hchain := hr.walk
    rw [JoinExt.walk, hstage] at hchain
    have hmem : i ∈ rest := List.mem_of_mem_head? hchain.head?_eq
    obtain ⟨hi, hpending, -⟩ := (hr.exact i).mp (List.mem_append_left _ hmem)
    exact ⟨hi, hpending⟩
  · intro last hlast
    have hmem : last ∈ list := List.mem_of_getLast? (hr.queue.last ▸ hlast)
    exact ((hr.exact last).mp (List.mem_append_right _ hmem)).1
  · rintro i rfl
    exact hcounts.handed i hcalm.2

/-- What `taskio_join` makes of the counter. -/
theorem joinFinish_stage (h : CountsReady s) (hstage : s.stage = .walking none)
    (hcb : cb.onFinish = none) (rand : Nat) :
    (joinFinish cb s rand).stage = .returned none ∧ s.AllReady ∨
      (joinFinish cb s rand).stage = .idle ∧ ¬ s.AllReady := by
  have hiff := h.complete_iff hstage
  unfold joinFinish
  rw [hcb]
  by_cases hall : s.AllReady
  · refine Or.inl ⟨?_, hall⟩
    rw [Option.bind_none, if_pos (hiff.mpr hall)]
  · refine Or.inr ⟨?_, hall⟩
    rw [Option.bind_none, if_neg (mt hiff.mp hall)]

/-- Between two rounds some child has not returned ready; when the join has returned, all have. -/
structure JoinTimely (s : JoinExt E) : Prop where
  idle : s.stage = .idle → .began ∈ s.events → ¬ s.AllReady
  returned : ∀ value, s.stage = .returned value → value = none ∧ s.AllReady

theorem joinTimely_step (h : JoinTimely s) (hc : CountsReady s) (hcb : cb.onFinish = none)
    (hok : joinStep cb s o = .ok s') : JoinTimely s' := by
  cases joinStep_cases hok with
  | @wake i s' hstage hwake =>
    obtain ⟨heffect, hstage', -⟩ := joinWake_effect hwake
    have hevents := joinStep_events hok
    have hlen : s'.len = s.len := heffect.wake_fields.2.2.1
    have hall : s'.AllReady ↔ s.AllReady := by
      unfold JoinExt.AllReady
      rw [hlen, hevents]
      simp [joinEvents]
    constructor
    · intro hidle hbegan
      rw [hall]
      rw [hevents] at hbegan
      exact h.idle (hstage' ▸ hidle) (by simpa [joinEvents] using hbegan)
    · intro value hreturned
      rw [hall]
      exact h.returned value (hstage' ▸ hreturned)
  | @finish rand hstage =>
    obtain ⟨htasks, hevents, -⟩ := joinFinish_same cb s rand
    have hall : (joinFinish cb s rand).AllReady ↔ s.AllReady := by
      unfold JoinExt.AllReady JoinExt.len
      rw [htasks, hevents]
    rcases joinFinish_stage hc hstage hcb rand with ⟨hreturned, hready⟩ | ⟨hidle, hready⟩
    · refine ⟨?_, fun value hvalue => ⟨?_, hall.mpr hready⟩⟩
      · intro hidle
        rw [hreturned] at hidle
        cases hidle
      · rw [hreturned] at hvalue
        exact (JoinStage.returned.inj hvalue).symm
    · refine ⟨fun _ _ => mt hall.mp hready, ?_⟩
      intro value hvalue
      rw [hidle] at hvalue
      cases hvalue
  | _ =>
    constructor
    · intro hidle
      cases hidle
    · intro value hvalue
      cases hvalue

/-- The first round is asked for every child: no waker exists before it. -/
structure FirstRound (s : JoinExt E) : Prop where
  before : .began ∉ s.events → (∀ i, s.due i = true) ∧ s.asked.2 = List.range s.len ∧
    (s.stage = .idle ∨ s.stage = .gone)
  during : s.events.count .began = 1 → s.asked.1 = List.range s.len

theorem firstRound_init (len : Nat) (env : E) : FirstRound (joinExt len env) := by
  refine ⟨fun _ => ⟨fun i => rfl, ?_, Or.inl rfl⟩, ?_⟩
  · rw [(joinOrder_init len env).asked]
    simp [JoinExt.len, joinExt, joinTasks]
  · intro hcount
    cases hcount

theorem firstRound_step (h : FirstRound s) (hcalm : CalmWakes s o) (hok : joinStep cb s o = .ok s') :
    FirstRound s' := by
  have hevents := joinStep_events hok
  have hlen : s'.len = s.len := (joinStep_effect hok).history.1
  have hasked := asked_step hok
  have hdue := due_append hevents
  by_cases hpoll : o = .poll
  · -- the round is asked for the list that was there
    subst hpoll
    constructor
    · intro hno
      rw [hevents] at hno
      exact absurd (List.mem_append_right _ List.mem_cons_self) hno
    · intro hcount
      rw [hevents, List.count_append] at hcount
      have hno : .began ∉ s.events := by
        rw [← List.count_eq_zero]
        simpa [joinEvents] using hcount
      rw [hasked, hlen]
      exact (h.before hno).2.1
  · have hbegan := began_notMem hpoll hok
    constructor
    · intro hno
      rw [hevents, List.mem_append, not_or] at hno
      obtain ⟨hdue₀, hasked₀, hstage₀⟩ := h.before hno.1
      cases joinStep_cases hok with
      | poll => exact absurd rfl hpoll
      | wake hstage hwake =>
        have hfalse := hcalm.2
        rw [hdue₀] at hfalse
        cases hfalse
      | cleanup hstage =>
        refine ⟨?_, ?_, Or.inr rfl⟩
        · intro i
          rw [hdue, joinEvents, (foldl_cleanedUp _ i _ []).1]
          exact hdue₀ i
        · rw [hasked, hlen, joinEvents, foldl_asked_cleanedUp]
          exact hasked₀
      | child hstage | pending hstage | ready hstage | cleaned hstage | finish hstage =>
        rcases hstage₀ with hidle | hgone
        · rw [hstage] at hidle
          cases hidle
        · rw [hstage] at hgone
          cases hgone
    · intro hcount
      rw [hevents, List.count_append, List.count_eq_zero.mpr hbegan] at hcount
      rw [hasked, foldl_asked_fst _ hbegan, hlen]
      exact h.during hcount

/-- What a join has done, in a state of a run. -/
structure JoinRounds (s : JoinExt Unit) : Prop where
  /-- every child is polled for the first round and then for each call of its waker, in that order -/
  sequence : s.polls <+: List.range s.len ++ s.wakes
  /-- the first round is asked for every child -/
  first : s.events.count .began = 1 → s.asked.1 = List.range s.len
  /-- a round polls what it is asked for, no child twice -/
  round : s.round <+: s.asked.1 ∧ s.asked.1.Nodup
  /-- at the end of the walk it has polled all of that -/
  complete : s.stage = .walking none → s.round = s.asked.1
  polls : PollsPending s
  /-- the round ends the join if every child has returned ready -/
  finish : s.stage = .walking none → ∀ rand, ∃ s',
    joinStep joinCallbacks s (.finish rand) = .ok s' ∧
      (s'.stage = .returned none ∧ s.AllReady ∨ s'.stage = .idle ∧ ¬ s.AllReady)
  /-- and no earlier round has ended so -/
  timely : JoinTimely s
  noFault : ∀ o, CalmWakes s o →
    (∃ s', joinStep joinCallbacks s o = .ok s') ∨ joinStep joinCallbacks s o = .error .noSuchCall

/--
**A join is complete exactly when its last child is.** Also with no child. The rounds poll what was
woken since the round before began, no child is polled after it returned ready, and the join returns
after the first round at whose end all have.
-/
theorem join_completes (len : Nat) (os : List JoinOp) {s : JoinExt Unit}
    (hrun : Lib.run (joinStep joinCallbacks) (taskioJoin len) os = .ok s)
    (hcalm : Lib.Along (joinStep joinCallbacks) CalmWakes (taskioJoin len) os) : JoinRounds s := by
  obtain ⟨hsound, htimely, hfirstRound⟩ : JoinSound s ∧ JoinTimely s ∧ FirstRound s := by
    refine Lib.run_invariant (I := fun s => JoinSound s ∧ JoinTimely s ∧ FirstRound s)
      ?_ ?_ hcalm hrun
    · intro s o s' hs hc hok
      obtain ⟨hsound, htimely, hfirst⟩ := hs
      exact ⟨joinSound_step hsound hc hok, joinTimely_step htimely hsound.counts rfl hok,
        firstRound_step hfirst hc hok⟩
    · exact ⟨joinSound_init len (), ⟨nofun, nofun⟩, firstRound_init len ()⟩
  obtain ⟨⟨rest, list, hready, hasked, hsequence⟩, hcounts, hpolls⟩ := id hsound
  have hfirst : s.asked.1 = s.round ++ rest := congrArg Prod.fst hasked
  refine ⟨?_, hfirstRound.during, ⟨?_, ?_⟩, ?_, hpolls, ?_, htimely,
    fun o hc => hsound.no_fault hc⟩
  · rw [hsequence]
    exact List.prefix_append _ _
  · rw [hfirst]
    exact List.prefix_append _ _
  · rw [hfirst]
    exact hready.round
  · intro hstage
    have hchain := hready.walk
    rw [JoinExt.walk, hstage] at hchain
    rw [hfirst, show rest = [] from hchain.unique rfl, List.append_nil]
  · intro hstage rand
    refine ⟨joinFinish joinCallbacks s rand, by simp only [joinStep, hstage], ?_⟩
    exact joinFinish_stage hcounts hstage rfl rand

/-- Two children: the first is woken while the second is polled, and completes in the second round. -/
theorem join_completes_second_round : ∃ s, Lib.run (joinStep joinCallbacks) (taskioJoin 2)
    [.poll, .child, .ret .pending, .child, .wake 0, .ret .ready, .cleaned, .finish 0, .poll, .child,
      .ret .ready, .cleaned, .finish 0] = .ok s ∧
    (s.stage = .returned none ∧ s.polls = [0, 1, 0]) ∧ JoinRounds s := by
  obtain ⟨s, hrun, hs⟩ : ∃ s, Lib.run (joinStep joinCallbacks) (taskioJoin 2)
      [.poll, .child, .ret .pending, .child, .wake 0, .ret .ready, .cleaned, .finish 0, .poll, .child,
        .ret .ready, .cleaned, .finish 0] = .ok s ∧
      (s.stage = .returned none ∧ s.polls = [0, 1, 0]) := Lib.exists_ok_of_decide (by decide)
  exact ⟨s, hrun, hs, join_completes 2 _ hrun (by decide)⟩

end Taskio
