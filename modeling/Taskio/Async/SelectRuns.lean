import Taskio.Common.WokenOnce
import Taskio.Async.SelectNodes

/-!
# `select.c`: the rounds of a select

A select whose children's wakers are called at most once between two of their polls. A child that is
ready may still be linked once; the walk that would come to it again has no chance to, because the
round in which it became ready is the last.

* `SelectWins` — the winners are those of the current round, and a select that goes on has none
* `select_returns_winner` — the round in which it returns, and what
-/

namespace Taskio

/-! ## Winners -/

def JoinEvent.ready? : JoinEvent → Option Nat
  | .ready i => some i
  | _ => none

/-- The children that have returned ready, in order. -/
def JoinExt.winners {E : Type} (s : JoinExt E) : List Nat := s.events.filterMap JoinEvent.ready?

def roundWinnersAfter (won : List Nat) (e : JoinEvent) : List Nat :=
  match e with
  | .began => []
  | .ready i => won ++ [i]
  | .polled _ | .woken _ | .cleanedUp _ => won

/-- Those that did so in the last round. -/
def JoinExt.roundWinners {E : Type} (s : JoinExt E) : List Nat := s.events.foldl roundWinnersAfter []

/-- The list of winners is that of the last round, in which they were polled in its order. -/
structure RoundWon (t : JoinExt (List Nat)) : Prop where
  winners : t.winners = t.env
  roundWinners : t.roundWinners = t.env
  order : t.env.Sublist t.round

/-- And where the select stands. -/
def AtStage (biased : Bool) (t : JoinExt (List Nat)) : Prop :=
  match t.stage with
  | .polling i _ => ∃ r, t.round = r ++ [i] ∧ t.env.Sublist r
  | .idle => t.env = []
  | .returned value =>
    ∃ rand index, selectOnFinish biased t.env rand = some index ∧ value = some index
  | .walking _ | .cleaning _ _ | .gone => True

/-- The join under a select, whose children are woken at most once between two polls. -/
structure SelectJoin (t : JoinExt (List Nat)) : Prop where
  lists : SelectLists t
  counts : CountsReady t
  state : JoinState t
  index : t.tasks.map (·.index) = List.range t.len
  child : 0 < t.len

/-- The select over the list of winners. -/
structure SelectWins (biased : Bool) (t : JoinExt (List Nat)) : Prop where
  join : SelectJoin t
  won : RoundWon t
  stage : AtStage biased t

section Rounds

variable {biased : Bool} {t t' : JoinExt (List Nat)} {o : JoinOp} {i : Nat} {es : List JoinEvent}

theorem mem_winners {E : Type} {s : JoinExt E} : i ∈ s.winners ↔ ¬ s.pending i := by
  rw [JoinExt.winners, JoinExt.pending, List.mem_filterMap, not_not]
  constructor
  · rintro ⟨e, he, hi⟩
    cases e <;> cases hi
    exact he
  · exact fun hi => ⟨_, hi, rfl⟩

theorem winners_append {E : Type} {s s' : JoinExt E} (h : s'.events = s.events ++ es) :
    s'.winners = s.winners ++ es.filterMap JoinEvent.ready? := by
  rw [JoinExt.winners, h, List.filterMap_append]
  rfl

theorem roundWinners_append {E : Type} {s s' : JoinExt E} (h : s'.events = s.events ++ es) :
    s'.roundWinners = es.foldl roundWinnersAfter s.roundWinners := by
  rw [JoinExt.roundWinners, h, List.foldl_append]
  rfl

/-- A waker and a clean-up are not what a round is about. -/
def JoinEvent.Quiet : JoinEvent → Prop
  | .woken _ | .cleanedUp _ => True
  | .began | .polled _ | .ready _ => False

theorem foldl_quiet {A : Type} {f : A → JoinEvent → A} (hf : ∀ a e, e.Quiet → f a e = a) (a : A)
    (hes : ∀ e ∈ es, e.Quiet) : es.foldl f a = a := by
  induction es with
  | nil => rfl
  | cons e es ih =>
    rw [List.foldl_cons, hf a e (hes e List.mem_cons_self)]
    exact ih fun e he => hes e (List.mem_cons_of_mem _ he)

theorem round_quiet {E : Type} {s s' : JoinExt E} (h : s'.events = s.events ++ es)
    (hes : ∀ e ∈ es, e.Quiet) : s'.round = s.round := by
  rw [round_append h]
  refine foldl_quiet ?_ _ hes
  intro a e he
  cases e with
  | woken | cleanedUp => rfl
  | began | polled | ready => exact absurd he id

theorem RoundWon.quiet (h : RoundWon t) (henv : t'.env = t.env)
    (hevents : t'.events = t.events ++ es) (hes : ∀ e ∈ es, e.Quiet) : RoundWon t' := by
  refine ⟨?_, ?_, ?_⟩
  · rw [henv, winners_append hevents, h.winners, List.append_right_eq_self, List.filterMap_eq_nil_iff]
    intro e he
    have hquiet := hes e he
    cases e with
    | woken | cleanedUp => rfl
    | began | polled | ready => exact absurd hquiet id
  · rw [henv, roundWinners_append hevents, h.roundWinners]
    refine foldl_quiet ?_ _ hes
    intro a e he
    cases e with
    | woken | cleanedUp => rfl
    | began | polled | ready => exact absurd he id
  · rw [henv, round_quiet hevents hes]
    exact h.order

/-- A step that makes no event. -/
theorem RoundWon.same (h : RoundWon t) (henv : t'.env = t.env) (hevents : t'.events = t.events) :
    RoundWon t' := by
  have hnil : t'.events = t.events ++ [] := by rw [hevents, List.append_nil]
  exact h.quiet henv hnil nofun

theorem selectWins_init (biased : Bool) {len : Nat} (hlen : 0 < len) :
    SelectWins biased (joinExt len []) where
  join :=
    { lists := selectLists_init len []
      counts := countsReady_init len []
      state := joinState_init len []
      index := (selects_init len).index
      child := by simpa [JoinExt.len, joinExt, joinTasks] using hlen }
  won := ⟨rfl, rfl, List.Sublist.refl []⟩
  stage := rfl

theorem AtStage.polling {next : Option Nat} (h : AtStage biased t)
    (hstage : t.stage = .polling i next) : ∃ r, t.round = r ++ [i] ∧ t.env.Sublist r := by
  rw [AtStage, hstage] at h
  exact h

theorem AtStage.idle (h : AtStage biased t) (hstage : t.stage = .idle) : t.env = [] := by
  rw [AtStage, hstage] at h
  exact h

theorem AtStage.returned {value : Option Nat} (h : AtStage biased t)
    (hstage : t.stage = .returned value) :
    ∃ rand index, selectOnFinish biased t.env rand = some index ∧ value = some index := by
  rw [AtStage, hstage] at h
  exact h

theorem selectOnFinish_mem {won : List Nat} {rand index : Nat}
    (h : selectOnFinish biased won rand = some index) :
    index ∈ won ∧ (biased = true → won.head? = some index) := by
  cases won with
  | nil => cases h
  | cons x xs =>
    cases biased with
    | true =>
      cases h
      exact ⟨List.mem_cons_self, fun _ => rfl⟩
    | false => exact ⟨List.mem_of_getElem? h, nofun⟩

theorem selectOnFinish_some (biased : Bool) {won : List Nat} (hwon : won ≠ []) (rand : Nat) :
    ∃ index, selectOnFinish biased won rand = some index := by
  cases won with
  | nil => exact absurd rfl hwon
  | cons x xs =>
    cases biased with
    | true => exact ⟨x, rfl⟩
    | false => exact ⟨_, List.getElem?_eq_getElem (Nat.mod_lt _ (by simp))⟩

/-- The end of a round: it returns a winner, or there is none and it goes on. -/
theorem SelectWins.finish (h : SelectWins biased t) (hstage : t.stage = .walking none) (rand : Nat) :
    (t.env = [] ∧ joinFinish (JoinKind.select biased).callbacks t rand = { t with stage := .idle }) ∨
      ∃ index, selectOnFinish biased t.env rand = some index ∧
        joinFinish (JoinKind.select biased).callbacks t rand =
          { t with stage := .returned (some index) } := by
  have hbind : ((JoinKind.select biased).callbacks.onFinish.bind fun onFinish =>
      onFinish t.env rand) = selectOnFinish biased t.env rand := rfl
  unfold joinFinish
  rw [hbind]
  by_cases hnil : t.env = []
  · refine Or.inl ⟨hnil, ?_⟩
    -- the first child has not returned ready, so the counter is not at its end
    have hpending : ¬ t.AllReady := by
      intro hall
      have hmem : 0 ∈ t.winners := mem_winners.mpr fun hnot => hnot (hall 0 h.join.child)
      rw [h.won.winners, hnil] at hmem
      cases hmem
    rw [hnil, if_neg (mt (h.join.counts.complete_iff hstage).mp hpending)]
    rfl
  · obtain ⟨index, hindex⟩ := selectOnFinish_some biased hnil rand
    exact Or.inr ⟨index, hindex, by rw [hindex]⟩

theorem selectJoin_step (h : SelectJoin t) (hwoken : WokenOnce t o)
    (hok : joinStep (JoinKind.select biased).callbacks t o = .ok t') : SelectJoin t' := by
  have hlen : t'.len = t.len := (joinStep_effect hok).history.1
  refine ⟨selectLists_step h.lists hwoken hok, countsReady_step h.counts hok,
    joinState_step h.state hok, ?_, hlen ▸ h.child⟩
  rw [(joinStep_kept hok).1, hlen]
  exact h.index

theorem selectWins_step (h : SelectWins biased t) (hwoken : WokenOnce t o)
    (hok : joinStep (JoinKind.select biased).callbacks t o = .ok t') : SelectWins biased t' := by
  have hjoin := selectJoin_step h.join hwoken hok
  have hevents := joinStep_events hok
  have hwinners := winners_append hevents
  have hwon := roundWinners_append hevents
  have hround := round_append hevents
  cases joinStep_cases hok with
  | poll hstage =>
    have hnil : t.env = [] := h.stage.idle hstage
    refine ⟨hjoin, ⟨?_, ?_, ?_⟩, trivial⟩
    · rw [hwinners, h.won.winners]
      exact List.append_nil _
    · rw [hwon]
      exact hnil.symm
    · show t.env.Sublist _
      rw [hnil]
      exact List.nil_sublist _
  | @child i task hstage htask hfuture =>
    simp only [joinEvents, hstage] at hwinners hwon hround
    refine ⟨hjoin, ⟨?_, ?_, ?_⟩, t.round, hround, h.won.order⟩
    · rw [hwinners, h.won.winners]
      exact List.append_nil _
    · rw [hwon]
      exact h.won.roundWinners
    · rw [hround]
      exact h.won.order.trans (List.sublist_append_left _ _)
  | @pending i next poll hstage hpoll =>
    exact ⟨hjoin, h.won.same rfl rfl, trivial⟩
  | @ready i next task env hstage htask henv =>
    simp only [joinEvents, hstage] at hwinners hwon hround
    have hwins : env = t.env ++ [i] := by
      rw [henv]
      show t.env ++ [task.index] = _
      rw [index_eq_place h.join.index htask]
    obtain ⟨r, hr, hsub⟩ := h.stage.polling hstage
    refine ⟨hjoin, ⟨?_, ?_, ?_⟩, trivial⟩
    · show _ = env
      rw [hwinners, h.won.winners, hwins]
      rfl
    · show _ = env
      rw [hwon, h.won.roundWinners, hwins]
      rfl
    · show env.Sublist _
      rw [hround, hwins]
      show (t.env ++ [i]).Sublist t.round
      rw [hr]
      exact hsub.append (List.Sublist.refl _)
  | @cleaned i next task hstage htask =>
    exact ⟨hjoin, h.won.same rfl rfl, trivial⟩
  | @wake i t' hstage hwake =>
    obtain ⟨-, henv, hsame⟩ := joinWake_kept hwake
    have hquiet : ∀ e ∈ joinEvents t (.wake i), e.Quiet := by
      intro e he
      rw [List.mem_singleton.mp he]
      trivial
    refine ⟨hjoin, h.won.quiet henv hevents hquiet, ?_⟩
    rw [AtStage, hsame, henv, round_quiet hevents hquiet]
    exact h.stage
  | @finish rand hstage =>
    rcases h.finish hstage rand with ⟨hnil, hfinish⟩ | ⟨index, hvalue, hfinish⟩
    · rw [hfinish] at hjoin ⊢
      exact ⟨hjoin, h.won.same rfl rfl, hnil⟩
    · rw [hfinish] at hjoin ⊢
      exact ⟨hjoin, h.won.same rfl rfl, rand, index, hvalue, rfl⟩
  | cleanup hstage =>
    have hquiet : ∀ e ∈ joinEvents t .cleanup, e.Quiet := by
      intro e he
      obtain ⟨i, -, rfl⟩ := List.mem_map.mp he
      trivial
    exact ⟨hjoin, h.won.quiet rfl hevents hquiet, trivial⟩

/-- No step faults that the stage allows. -/
theorem SelectWins.no_fault (h : SelectWins biased t) (hwoken : WokenOnce t o) :
    (∃ t', joinStep (JoinKind.select biased).callbacks t o = .ok t') ∨
      joinStep (JoinKind.select biased).callbacks t o = .error .noSuchCall := by
  refine joinStep_no_fault h.join.counts ?_ h.join.lists.tail ?_
  · intro i ho hstage
    subst ho
    obtain ⟨hi, hround⟩ := h.join.lists.next_child hstage (hwoken i hstage)
    refine ⟨hi, ?_⟩
    by_contra hpending
    have hmem : i ∈ t.winners := mem_winners.mpr hpending
    rw [h.won.winners] at hmem
    exact hround (h.won.order.subset hmem)
  · rintro i rfl
    exact hwoken

/-! ## Select -/

/-- A child that returned ready in the last round, the first such when biased. -/
structure IsWinner (biased : Bool) (s : JoinExt SelectEnv) (index : Nat) : Prop where
  ready : index ∈ s.roundWinners
  first : biased = true → s.roundWinners.head? = some index

/-- What a select has done, in a state of a run. -/
structure SelectReturns (len : Nat) (biased : Bool) (s : JoinExt SelectEnv) : Prop where
  /-- a round polls children, none twice -/
  round : s.round.Nodup ∧ ∀ i ∈ s.round, i < len
  /-- so the walk ends -/
  walk : ∀ i, s.stage = .walking (some i) → s.listed i ≤ 1 → i < len ∧ i ∉ s.round
  /-- what returned ready in the last round, in the order of the round, and none before it -/
  winners : s.roundWinners = s.winners ∧ s.winners.Sublist s.round
  /-- the round ends the select if a child has returned ready in it -/
  finish : s.stage = .walking none → ∀ rand, ∃ s', selectStep s (.finish rand) = .ok s' ∧
    (s.winners = [] ∧ s'.stage = .idle ∨
      ∃ index, IsWinner biased s index ∧ s'.stage = .returned (some index))
  /-- and no earlier round has had one -/
  timely : s.stage = .idle → s.winners = []
  returned : ∀ value, s.stage = .returned value →
    ∃ index, IsWinner biased s index ∧ value = some index
  /-- one node for each winner, none of them freed -/
  nodes : s.stage ≠ .gone → s.env.len = s.winners.length ∧ s.env.nextNode = s.winners.length ∧
    s.env.freed = []
  /-- until each is, once -/
  freed : s.stage = .gone → s.env.nextNode = s.winners.length ∧
    s.env.freed = List.range s.winners.length ∧ ∀ a, s.env.nodes a = none
  noFault : ∀ o, WokenOnce s o →
    (∃ s', selectStep s o = .ok s') ∨ selectStep s o = .error .noSuchCall

variable {s s' : JoinExt SelectEnv} {won : List Nat} {n : Nat}

theorem wokenOnce_withEnv : WokenOnce (s.withEnv won) o ↔ WokenOnce s o := by
  cases o <;> exact Iff.rfl

/-- What `Matches` says of a step of the list that is known. -/
theorem Matches.of_ok {r : Except Fault (JoinExt SelectEnv)} (h : Matches biased r (.ok t')) :
    ∃ s', r = .ok s' ∧ Represents biased s' t' := by
  cases h with
  | ok h => exact ⟨_, rfl, h⟩

theorem Matches.of_error {r : Except Fault (JoinExt SelectEnv)} {e : Fault}
    (h : Matches biased r (.error e)) : r = .error e := by
  cases h
  rfl

theorem isWinner_of_finish (h : RoundWon (s.withEnv won)) {rand index : Nat}
    (hindex : selectOnFinish biased won rand = some index) : IsWinner biased s index := by
  have hround : s.roundWinners = won := h.roundWinners
  obtain ⟨hmem, hfirst⟩ := selectOnFinish_mem hindex
  exact ⟨hround ▸ hmem, fun hb => hround ▸ hfirst hb⟩

theorem selectReturns_of_wins (hrep : Represents biased s (s.withEnv won))
    (h : SelectWins biased (s.withEnv won)) (hlen : s.len = n) : SelectReturns n biased s := by
  have hwinners : s.winners = won := h.won.winners
  refine ⟨⟨h.join.lists.nodup_round, fun i hi => hlen ▸ h.join.state.round i hi⟩, ?_,
    ⟨?_, hwinners ▸ h.won.order⟩, ?_, fun hstage => hwinners ▸ h.stage.idle hstage,
    ?_, ?_, ?_, ?_⟩
  · intro i hstage honce
    exact hlen ▸ h.join.lists.next_child hstage honce
  · rw [hwinners]
    exact h.won.roundWinners
  · intro hstage rand
    have hstep : joinStep (JoinKind.select biased).callbacks (s.withEnv won) (.finish rand) =
        .ok (joinFinish (JoinKind.select biased).callbacks (s.withEnv won) rand) := by
      have hstage' : (s.withEnv won).stage = .walking none := hstage
      simp only [joinStep, hstage']
    have hmatch := selectStep_refines hrep (.finish rand)
    rw [hstep] at hmatch
    obtain ⟨s', hok, hrep'⟩ := hmatch.of_ok
    have hstage' : s'.stage =
        (joinFinish (JoinKind.select biased).callbacks (s.withEnv won) rand).stage :=
      (congrArg (·.stage) hrep'.same).symm
    refine ⟨s', hok, ?_⟩
    rcases h.finish hstage rand with ⟨hnil, hfinish⟩ | ⟨index, hindex, hfinish⟩
    · rw [hfinish] at hstage'
      exact Or.inl ⟨hwinners.trans hnil, hstage'⟩
    · rw [hfinish] at hstage'
      exact Or.inr ⟨index, isWinner_of_finish h.won hindex, hstage'⟩
  · intro value hstage
    obtain ⟨rand, index, hindex, hvalue⟩ := h.stage.returned hstage
    exact ⟨index, isWinner_of_finish h.won hindex, hvalue⟩
  · intro hstage
    have hnodes := hrep.nodes hstage
    exact hwinners ▸ ⟨hnodes.len, hnodes.nextNode, hnodes.freed⟩
  · intro hstage
    have hfreed := hrep.freed hstage
    exact hwinners ▸ ⟨hfreed.nextNode, hfreed.freed, hfreed.node⟩
  · intro o hwoken
    have hmatch := selectStep_refines hrep o
    rcases h.no_fault (wokenOnce_withEnv.mpr hwoken) with ⟨t', hok⟩ | herror
    · rw [hok] at hmatch
      obtain ⟨s', hok', -⟩ := hmatch.of_ok
      exact Or.inl ⟨s', hok'⟩
    · rw [herror] at hmatch
      exact Or.inr hmatch.of_error

/-- The invariant of the runs. -/
def SelectSound (biased : Bool) (n : Nat) (s : JoinExt SelectEnv) : Prop :=
  ∃ won, Represents biased s (s.withEnv won) ∧ SelectWins biased (s.withEnv won) ∧ s.len = n

theorem selectSound_step (h : SelectSound biased n s) (hwoken : WokenOnce s o)
    (hok : selectStep s o = .ok s') : SelectSound biased n s' := by
  obtain ⟨won, hrep, hwins, hlen⟩ := h
  have hmatch := selectStep_refines hrep o
  rw [hok] at hmatch
  generalize hjoin : joinStep (JoinKind.select biased).callbacks (s.withEnv won) o = r at hmatch
  cases hmatch with
  | @ok s' t' hrep' =>
    have hwins' := selectWins_step hwins (wokenOnce_withEnv.mpr hwoken) hjoin
    have hlen' : t'.len = (s.withEnv won).len := (joinStep_effect hjoin).history.1
    have hsame := hrep'.same
    refine ⟨t'.env, hsame ▸ hrep', hsame ▸ hwins', ?_⟩
    rw [hsame] at hlen'
    exact hlen'.trans hlen

/--
**A select returns at the end of the first round in which a child is ready**, with the index of such a
child: the first that was polled if it is biased, and any otherwise, whatever `rand()` gives. It frees
every node once.
-/
theorem select_returns_winner (len : Nat) (biased : Bool) (os : List JoinOp)
    {s : JoinExt SelectEnv} (hlen : 1 ≤ len)
    (hrun : Lib.run selectStep (taskioSelect len biased) os = .ok s)
    (hwoken : Lib.Along selectStep WokenOnce (taskioSelect len biased) os) :
    SelectReturns len biased s := by
  have hinit : SelectSound biased len (taskioSelect len biased) :=
    ⟨[], represents_init len biased, selectWins_init biased hlen,
      by simp [taskioSelect, JoinExt.len, joinExt, joinTasks]⟩
  obtain ⟨won, hrep, hwins, hlen⟩ := Lib.run_invariant (I := SelectSound biased len)
    (fun s o s' hs hc hok => selectSound_step hs hc hok) hinit hwoken hrun
  exact selectReturns_of_wins hrep hwins hlen

/-- Three children: in the second round the last and the first are ready, in this order, and `rand()`
picks the second of them. -/
theorem select_returns_winner_three : ∃ s, Lib.run selectStep (taskioSelect 3 false)
    [.poll, .child, .ret .pending, .child, .ret .pending, .child, .ret .pending, .finish 0, .wake 2,
      .wake 0, .poll, .child, .ret .ready, .cleaned, .child, .ret .ready, .cleaned, .finish 7,
      .cleanup] = .ok s ∧
    (s.winners = [2, 0] ∧ s.env.freed = [0, 1]) ∧ SelectReturns 3 false s := by
  obtain ⟨s, hrun, hs⟩ : ∃ s, Lib.run selectStep (taskioSelect 3 false)
      [.poll, .child, .ret .pending, .child, .ret .pending, .child, .ret .pending, .finish 0, .wake 2,
        .wake 0, .poll, .child, .ret .ready, .cleaned, .child, .ret .ready, .cleaned, .finish 7,
        .cleanup] = .ok s ∧
      (s.winners = [2, 0] ∧ s.env.freed = [0, 1]) := Lib.exists_ok_of_decide (by decide)
  exact ⟨s, hrun, hs, select_returns_winner 3 false _ (by decide) hrun (by decide)⟩

end Rounds

end Taskio
