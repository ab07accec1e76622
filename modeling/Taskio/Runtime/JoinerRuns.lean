import Taskio.Runtime.Joiners

/-!
# Runs that serve the joiners

* `joinersLaw_step` — a step that meets `ServesJoiners` keeps `JoinersLaw`
* `JoinersCounts.served` — with no node left the promise is kept
-/

namespace Taskio

variable {s s' : Scheduler} {t : Nat} {o : SchedulerOp} {tr : List JoinerEvent}
  {rest : List TaskWakeNode}

/-! ## One step -/

theorem joinersLaw_join {x : Nat} {node : TaskWakeNode} (h : JoinersLaw t rest tr s)
    (hserves : ServesJoiners t s (.join x node)) (hok : handleJoin s x node = .ok s') :
    ∃ rest', JoinersLaw t rest' (tr ++ s.joinerEvents t (.join x node)) s' := by
  by_cases hx : x = t
  · subst hx
    obtain ⟨task, htask, hok⟩ := bind_eq_ok.mp hok
    obtain ⟨htask, -⟩ := handleTask_ok htask
    have hlive : s.tasks x ≠ none := by simp [htask]
    simp only [Scheduler.joinerEvents, htask, Option.map_some, if_true, Option.some.injEq]
    rcases hserves rfl task htask with hfinished | ⟨hpending, hopen⟩
    · -- served at once
      rw [if_pos hfinished]
      simp only [hfinished] at hok
      obtain ⟨hkeeps, hcontrol, hevents⟩ := wakeNode_joiners (t := x) hok
      obtain ⟨-, -, hcleaned, hreleased⟩ := count_wakeEvents x node task.hasOut
      have hf := h.place.finished task htask hfinished
      refine ⟨rest, ?_, JoinersPlace.frame ?_ hkeeps (.of_control ?_ ?_ (Or.inl hcontrol))⟩
      · rw [hevents]
        exact h.counts.serve hf fun hs => h.place.hasOut hs task htask
      · exact h.place.of_trace hlive (by simp) (by simp)
      · rw [hevents, List.count_append, hcleaned, Nat.add_zero]
      · rw [hevents, List.mem_append]
        exact fun hmem => hmem.resolve_right hreleased
    · -- the node is linked, and the list is still to be walked
      have hnot : task.status ≠ .finished := by
        rcases hpending with hstatus | hstatus <;> simp [hstatus]
      rw [if_neg hnot]
      have hs' : s' = s.setTask x (some { task with wakeOnReady := node :: task.wakeOnReady }) := by
        rcases hpending with hstatus | hstatus
        · simp only [hstatus] at hok
          rw [← Except.ok.inj hok, hstatus]
        · simp only [hstatus] at hok
          rw [← Except.ok.inj hok, hstatus]
      subst hs'
      have hget : ∀ task' : Task, (s.setTask x
          (some { task with wakeOnReady := node :: task.wakeOnReady })).tasks x = some task' →
          task' = { task with wakeOnReady := node :: task.wakeOnReady } := by
        intro task' htask'
        rw [setTask_tasks, if_pos rfl] at htask'
        exact (Option.some.inj htask').symm
      have hplace := h.place
      refine ⟨node :: rest, h.counts.link, ?_, ?_,
        ?_, hplace.cleaning, ?_,
        fun hclosed => absurd hclosed hopen, ?_, ?_⟩
      · intro hs task' htask'
        rw [hget task' htask']
        exact hplace.hasOut (by simpa using hs) task htask
      · intro task' htask' hstatus
        rw [hget task' htask'] at hstatus
        exact absurd hstatus hnot
      · intro nodes hcontrol
        have hcleaned := (hplace.walking nodes hcontrol).2.1
        refine absurd ⟨hcleaned, ?_⟩ hopen
        intro hcleaning
        have hcontrol' : s.control = .waking x nodes := hcontrol
        rw [hcontrol'] at hcleaning
        cases hcleaning.1
      · intro _ task' htask'
        rw [hget task' htask', ← hplace.linked hopen task htask]
      · intro hreleased
        exact absurd (hplace.ended hreleased).1 hopen
      · intro hle
        exact absurd (hplace.fresh hle).1 hlive
  · rw [joinerEvents_join_ne hx, List.append_nil]
    obtain ⟨hkeeps, hsame⟩ := handleJoin_other hx hok
    exact ⟨rest, h.frame hkeeps hsame⟩

theorem joinersLaw_take (h : JoinersLaw t rest tr s) (hcontrol : s.control = .draining)
    (hserves : ServesJoiners t s .take) (hok : workerTake s = .ok s') :
    JoinersLaw t rest tr s' := by
  unfold workerTake at hok
  cases hhead : s.pollHead with
  | none =>
    simp only [hhead] at hok
    cases hok
  | some x =>
    simp only [hhead] at hok
    obtain ⟨task, htask, hok⟩ := bind_eq_ok.mp hok
    have htask := task_eq_ok.mp htask
    have hnot : ¬ s.control.Ends t := by
      rw [hcontrol]
      exact id
    split at hok
    case isFalse =>
      cases hok
      have htaken : KeepsJoiners t s
          (s.setTask x (some { task with status := .suspended, next := none })) :=
        keepsJoiners_setTask htask rfl rfl (by simp)
      exact h.frame (htaken.trans (.of_tasks rfl rfl))
        (.of_events rfl (by simp [TaskEvent.Concerns]) (Or.inr ⟨hnot, id⟩))
    case isTrue haborted =>
      cases hok
      by_cases hx : x = t
      · subst hx
        obtain ⟨hcounts, hplace⟩ := h
        -- nothing was left to walk
        have hrest : rest = [] := by
          by_cases hclosed : s.Closed x
          · exact hplace.closed hclosed fun nodes hwaking => hnot (hwaking ▸ rfl)
          · rw [← hplace.linked hclosed task htask]
            refine (hserves hhead task htask haborted).resolve_right fun hcleaned => hclosed ?_
            exact ⟨hcleaned, fun hcleaning => hnot (hcleaning.1 ▸ rfl)⟩
        have hmem : TaskEvent.cleanedUp x ∈ s.events ++ [.cleanedUp x] := by simp
        refine ⟨hcounts.log (by simp) (by simp), hplace.hasOut, hplace.finished,
          ?_, fun ready hcleaning => hmem, ?_, fun _ _ => hrest,
          fun _ => ⟨⟨hmem, ?_⟩, hrest⟩, hplace.fresh⟩
        · intro nodes hwaking
          cases hwaking
        · intro hopen
          refine absurd ⟨hmem, ?_⟩ hopen
          rintro ⟨hcleaning, -⟩
          cases hcleaning
        · rintro ⟨hcleaning, -⟩
          cases hcleaning
      · exact h.frame (.of_tasks rfl rfl)
          (.of_events rfl (by simpa [TaskEvent.Concerns] using hx) (Or.inr ⟨hnot, hx⟩))

/-- The task is ready: its list is walked if this is the first time. -/
theorem joinersLaw_ret {x : Nat} {poll : FuturePoll} (h : JoinersLaw t rest tr s)
    (hcontrol : s.control = .polling x) (hok : schedulerStep s (.ret poll) = .ok s') :
    JoinersLaw t rest tr s' := by
  have hnot : ¬ s.control.Ends t := by
    rw [hcontrol]
    exact id
  simp only [schedulerStep, hcontrol] at hok
  split at hok
  case isFalse =>
    cases hok
    exact h.frame (.of_tasks rfl rfl) (.of_same rfl (Or.inr ⟨hnot, id⟩))
  case isTrue =>
    cases hok
    by_cases hx : x = t
    · subst hx
      obtain ⟨hcounts, hplace⟩ := h
      have hmem : TaskEvent.cleanedUp x ∈ s.events ++ [.cleanedUp x] := by simp
      have hiff : ∀ s₁ : Scheduler, s₁.events = s.events ++ [.cleanedUp x] →
          s₁.control = .cleaning x true → (s₁.Closed x ↔ s.Closed x) := by
        intro s₁ hevents hcleaning
        unfold Scheduler.Closed
        rw [hevents, hcleaning, hcontrol, List.count_append, List.count_singleton_self]
        constructor
        · rintro ⟨-, hsecond⟩
          refine ⟨?_, fun hc => by cases hc.1⟩
          by_contra hfirst
          exact hsecond ⟨rfl, by rw [List.count_eq_zero.mpr hfirst]⟩
        · rintro ⟨hbefore, -⟩
          have hpos := List.count_pos_iff.mpr hbefore
          exact ⟨hmem, fun hc => by omega⟩
      refine ⟨hcounts.log (by simp) (by simp), hplace.hasOut, hplace.finished,
        ?_, fun ready hcleaning => hmem, ?_,
        ?_, ?_, hplace.fresh⟩
      · intro nodes hwaking
        cases hwaking
      · intro hopen
        exact hplace.linked (mt (hiff _ rfl rfl).mpr hopen)
      · intro hclosed _
        refine hplace.closed ((hiff _ rfl rfl).mp hclosed) ?_
        intro nodes hwaking
        exact hnot (hwaking ▸ rfl)
      · intro hreleased
        have hmem : .released x ∈ s.events ++ [.cleanedUp x] := hreleased
        obtain ⟨hclosed, hrest⟩ := hplace.ended (by simpa using hmem)
        exact ⟨(hiff _ rfl rfl).mpr hclosed, hrest⟩
    · exact h.frame (.of_tasks rfl rfl)
        (.of_events rfl (by simpa [TaskEvent.Concerns] using hx) (Or.inr ⟨hnot, hx⟩))

/-- The clean-up poll of an aborted task ends, and its list is not walked. -/
theorem joinersLaw_aborted (h : JoinersLaw t rest tr s) (hcontrol : s.control = .cleaning t false) :
    JoinersLaw t rest tr { s with control := .waking t [] } := by
  obtain ⟨hcounts, hplace⟩ := h
  have hmem := hplace.cleaning false hcontrol
  have hclosed : s.Closed t := by
    refine ⟨hmem, ?_⟩
    rintro ⟨hcleaning, -⟩
    rw [hcontrol] at hcleaning
    cases hcleaning
  have hrest : rest = [] := by
    refine hplace.closed hclosed ?_
    intro nodes hwaking
    rw [hcontrol] at hwaking
    cases hwaking
  have hclosed' : Scheduler.Closed { s with control := .waking t [] } t :=
    ⟨hmem, fun hcleaning => by cases hcleaning.1⟩
  refine ⟨hcounts, hplace.hasOut, hplace.finished, ?_,
    ?_, fun hopen => absurd hclosed' hopen, fun _ _ => hrest,
    fun _ => ⟨hclosed', hrest⟩, hplace.fresh⟩
  · intro nodes hwaking
    cases hwaking
    exact ⟨hrest, hmem, Or.inl rfl⟩
  · intro ready hcleaning
    cases hcleaning

/-- The clean-up poll of a task that was ready ends, and the walk of its list begins. -/
theorem joinersLaw_ready {task : Task} (h : JoinersLaw t rest tr s)
    (hcontrol : s.control = .cleaning t true) (hserves : ServesJoiners t s .cleaned)
    (htask : s.tasks t = some task) :
    JoinersLaw t rest (tr ++ [.finished]) { s.setTask t (some { task with status := .finished }) with
      control := .waking t task.wakeOnReady } := by
  obtain ⟨hcounts, hplace⟩ := h
  have hmem := hplace.cleaning true hcontrol
  have hnodes : task.wakeOnReady = rest := by
    by_cases hclosed : s.Closed t
    · have hrest : rest = [] := by
        refine hplace.closed hclosed ?_
        intro nodes hwaking
        rw [hcontrol] at hwaking
        cases hwaking
      rw [hrest]
      exact (hserves hcontrol task htask).resolve_right fun hone => hclosed.2 ⟨hcontrol, hone⟩
    · exact hplace.linked hclosed task htask
  have hlive : s.tasks t ≠ none := by simp [htask]
  have hf : JoinerEvent.finished ∈ tr ++ [.finished] := by simp
  have hplace := hplace.of_trace hlive (fun _ => hf) (by simp)
  have hget : ∀ task' : Task, (s.setTask t (some { task with status := .finished })).tasks t =
      some task' → task' = { task with status := .finished } := by
    intro task' htask'
    rw [setTask_tasks, if_pos rfl] at htask'
    exact (Option.some.inj htask').symm
  have hclosed' : ∀ nodes, Scheduler.Closed { s.setTask t (some { task with status := .finished })
      with control := .waking t nodes } t :=
    fun nodes => ⟨hmem, fun hcleaning => by cases hcleaning.1⟩
  refine ⟨hcounts.finish, ?_, fun _ _ _ => hf, ?_,
    ?_, fun hopen => absurd (hclosed' _) hopen,
    fun _ hnot' => absurd rfl (hnot' _), ?_, ?_⟩
  · intro hs task' htask'
    rw [hget task' htask']
    exact hplace.hasOut hs task htask
  · intro nodes hwaking
    cases hwaking
    exact ⟨hnodes.symm, hmem, Or.inr hf⟩
  · intro ready hcleaning
    cases hcleaning
  · intro hreleased
    exact ⟨hclosed' _, (hplace.ended hreleased).2⟩
  · intro hle
    exact absurd (hplace.fresh hle).1 hlive

/-- The clean-up poll ends. The list is walked if the task was ready. -/
theorem joinersLaw_cleaned {x : Nat} {ready : Bool} (h : JoinersLaw t rest tr s)
    (hcontrol : s.control = .cleaning x ready) (hserves : ServesJoiners t s .cleaned)
    (hok : workerCleaned s x ready = .ok s') :
    JoinersLaw t rest (tr ++ s.joinerEvents t .cleaned) s' := by
  unfold workerCleaned at hok
  obtain ⟨task, htask, hok⟩ := bind_eq_ok.mp hok
  have htask := task_eq_ok.mp htask
  by_cases hx : x = t
  · subst hx
    cases ready with
    | false =>
      rw [if_neg Bool.false_ne_true] at hok
      cases hok
      have hevents : s.joinerEvents x .cleaned = [] := by simp only [Scheduler.joinerEvents, hcontrol]
      rw [hevents, List.append_nil]
      exact joinersLaw_aborted h hcontrol
    | true =>
      rw [if_pos rfl] at hok
      cases hok
      have hevents : s.joinerEvents x .cleaned = [.finished] := by
        simp only [Scheduler.joinerEvents, hcontrol, if_true]
      rw [hevents]
      exact joinersLaw_ready h hcontrol hserves htask
  · have hevents : s.joinerEvents t .cleaned = [] := by
      simp only [Scheduler.joinerEvents, hcontrol]
      cases ready with
      | false => rfl
      | true => exact if_neg hx
    rw [hevents, List.append_nil]
    have hnot : ¬ s.control.Ends t := by rwa [hcontrol]
    split at hok
    · cases hok
      have hmark : KeepsJoiners t s (s.setTask x (some { task with status := .finished })) :=
        keepsJoiners_setTask_ne (Ne.symm hx) _
      exact h.frame (hmark.trans (.of_tasks rfl rfl)) (.of_same rfl (Or.inr ⟨hnot, hx⟩))
    · cases hok
      exact h.frame (.of_tasks rfl rfl) (.of_same rfl (Or.inr ⟨hnot, hx⟩))

/-- A turn of the walk. -/
theorem joinersLaw_wakeJoiner {x : Nat} {node : TaskWakeNode} {nodes : List TaskWakeNode}
    (h : JoinersLaw t rest tr s) (hcontrol : s.control = .waking x (node :: nodes))
    (hok : wakeNode { s with control := .waking x nodes } x node true = .ok s')
    (hlive : s.tasks x ≠ none) :
    ∃ rest', JoinersLaw t rest' (tr ++ s.joinerEvents t .wakeJoiner) s' := by
  obtain ⟨hkeeps, hcontrol', hevents⟩ := wakeNode_joiners (t := t) hok
  by_cases hx : x = t
  · subst hx
    obtain ⟨hcounts, hplace⟩ := h
    obtain ⟨rfl, hmem, hall⟩ := hplace.walking _ hcontrol
    have hf := hall.resolve_left (List.cons_ne_nil _ _)
    have hnote : s.joinerEvents x .wakeJoiner = [.unlinked node] := by
      simp only [Scheduler.joinerEvents, hcontrol, if_true]
    rw [hnote]
    obtain ⟨-, -, hcleaned, hreleased⟩ := count_wakeEvents x node true
    have hclosed : s.Closed x := by
      refine ⟨hmem, ?_⟩
      rintro ⟨hcleaning, -⟩
      rw [hcontrol] at hcleaning
      cases hcleaning
    have hclosed' : Scheduler.Closed { s with control := .waking x nodes } x :=
      ⟨hmem, fun hcleaning => by cases hcleaning.1⟩
    have hplace : JoinersPlace x (node :: nodes) (tr ++ [.unlinked node]) s :=
      hplace.of_trace hlive (fun hmem => by simp [hmem]) (by simp)
    refine ⟨nodes, ?_, JoinersPlace.frame ?_ hkeeps (.of_control ?_ ?_ (Or.inl hcontrol'))⟩
    · rw [hevents]
      exact hcounts.walk hf
    · refine ⟨hplace.hasOut, hplace.finished, ?_, ?_,
        fun hopen => absurd hclosed' hopen, fun _ hnot => absurd rfl (hnot _), ?_,
        fun hle => absurd (hplace.fresh hle).1 hlive⟩
      · intro nodes' hwaking
        cases hwaking
        exact ⟨rfl, hmem, Or.inr (by simp [hf])⟩
      · intro ready hcleaning
        cases hcleaning
      · intro hreleased
        cases (hplace.ended hreleased).2
    · rw [hevents, List.count_append, hcleaned, Nat.add_zero]
    · rw [hevents, List.mem_append]
      exact fun hmem => hmem.resolve_right hreleased
  · have hnote : s.joinerEvents t .wakeJoiner = [] := by
      simp only [Scheduler.joinerEvents, hcontrol]
      exact if_neg hx
    rw [hnote, List.append_nil]
    have hnot : ¬ s.control.Ends t := by rwa [hcontrol]
    have hpop : KeepsJoiners t s { s with control := .waking x nodes } := .of_tasks rfl rfl
    refine ⟨rest, h.frame (hpop.trans hkeeps)
      (.of_events hevents (wakeEvents_concerns hx) (Or.inr ⟨hnot, ?_⟩))⟩
    rw [hcontrol']
    exact hx

theorem joinersLaw_release {x : Nat} (h : JoinersLaw t rest tr s)
    (hcontrol : s.control = .waking x []) (hok : workerRelease s x = .ok s') :
    JoinersLaw t rest tr s' := by
  unfold workerRelease at hok
  obtain ⟨s₁, hdrop, hok⟩ := bind_eq_ok.mp hok
  cases hok
  have hrunning : ∀ s₀ : Scheduler, s₀.tasks = s.tasks → s₀.nextTask = s.nextTask →
      s₀.events = s.events → s₀.control = s.control → taskDrop s₀ x = .ok s₁ →
      KeepsJoiners t s s₁ ∧ SameJoiners t s s₁ := by
    intro s₀ htasks hnext hevents hcontrol₀ hdrop
    obtain ⟨hkeeps, hsame⟩ := taskDrop_joiners (t := t) hdrop
    exact ⟨(KeepsJoiners.of_tasks htasks hnext).trans hkeeps,
      SameJoiners.trans (.of_same hevents (Or.inl hcontrol₀)) hsame⟩
  obtain ⟨hkeeps, hsame⟩ : KeepsJoiners t s s₁ ∧ SameJoiners t s s₁ := by
    split at hdrop
    · exact hrunning { s with running := false } rfl rfl rfl rfl hdrop
    · exact hrunning s rfl rfl rfl rfl hdrop
  have hlaw := h.frame hkeeps hsame
  have hkept : KeepsJoiners t s₁ { s₁.log (.released x) with control := .draining } :=
    .of_tasks rfl rfl
  by_cases hx : x = t
  · subst hx
    obtain ⟨hcounts, hplace⟩ := hlaw
    obtain ⟨rfl, hmem, -⟩ := hplace.walking [] ((hsame.walking []).mpr hcontrol)
    have hclosed : Scheduler.Closed { s₁.log (.released x) with control := .draining } x := by
      refine ⟨List.mem_append_left _ hmem, ?_⟩
      rintro ⟨hcleaning, -⟩
      cases hcleaning
    refine ⟨hcounts.log (by simp) (by simp), hplace.hasOut, hplace.finished,
      ?_, ?_, fun hopen => absurd hclosed hopen,
      fun _ _ => rfl, fun _ => ⟨hclosed, rfl⟩, hplace.fresh⟩
    · intro nodes hwaking
      cases hwaking
    · intro ready hcleaning
      cases hcleaning
  · have hnot : ¬ s₁.control.Ends t := by
      have hcontrol₁ := (taskDrop_same hdrop).1
      rw [hcontrol₁]
      split
      · rwa [hcontrol]
      · rwa [hcontrol]
    exact hlaw.frame hkept
      (.of_events rfl (by simpa [TaskEvent.Concerns] using hx) (Or.inr ⟨hnot, id⟩))

theorem joinersLaw_blockOn (h : JoinersLaw t rest tr s) (hcontrol : s.control = .stopped)
    (hok : runtimeBlockOn s = .ok s') :
    JoinersLaw t rest (tr ++ s.joinerEvents t .blockOn) s' := by
  unfold runtimeBlockOn at hok
  obtain ⟨⟨s₁, x⟩, hspawn, hok⟩ := bind_eq_ok.mp hok
  obtain ⟨s₂, hdrop, hok⟩ := bind_eq_ok.mp hok
  cases hok
  obtain ⟨hkeeps, hsame⟩ := handleDrop_joiners (t := t) hdrop
  have hlaw := (h.spawn hspawn).frame hkeeps hsame
  obtain ⟨⟨s₀, hnotifies, hcontrol₀, -⟩, -⟩ := runtimeSpawn_notifies hspawn
  have hstopped : s₂.control = .stopped := by
    rw [(handleDrop_same hdrop).1, hnotifies.control, hcontrol₀, hcontrol]
  refine hlaw.frame (.of_tasks rfl rfl) (.of_same rfl (Or.inr ⟨?_, id⟩))
  rw [hstopped]
  exact id

/-- One step. -/
theorem joinersLaw_step (h : JoinersLaw t rest tr s) (hserves : ServesJoiners t s o)
    (hstep : schedulerStep s o = .ok s') :
    ∃ rest', JoinersLaw t rest' (tr ++ s.joinerEvents t o) s' := by
  have hquiet : s.joinerEvents t o = [] → JoinersLaw t rest tr s' →
      ∃ rest', JoinersLaw t rest' (tr ++ s.joinerEvents t o) s' := by
    intro hnote hlaw
    rw [hnote, List.append_nil]
    exact ⟨rest, hlaw⟩
  have hidle : ∀ {s₁ : Scheduler}, s₁.tasks = s.tasks → s₁.nextTask = s.nextTask →
      s₁.events = s.events → ¬ s.control.Ends t → ¬ s₁.control.Ends t → JoinersLaw t rest tr s₁ :=
    fun htasks hnext hevents hends hends' =>
      h.frame (.of_tasks htasks hnext) (.of_same hevents (Or.inr ⟨hends, hends'⟩))
  cases schedulerStep_cases hstep with
  | spawn hspawn => exact ⟨rest, h.spawn hspawn⟩
  | blockOn hcontrol hok => exact ⟨rest, joinersLaw_blockOn h hcontrol hok⟩
  | wake hok =>
    obtain ⟨hnotifies, hevents⟩ := taskAddEventLoop_notifies hok
    exact hquiet rfl (h.frame (taskAddEventLoop_joiners hok)
      (.of_same hevents (Or.inl hnotifies.control)))
  | abort hok =>
    obtain ⟨hkeeps, hsame⟩ := handleAbort_joiners (t := t) hok
    exact hquiet rfl (h.frame hkeeps hsame)
  | clone hok =>
    obtain ⟨task, htask, hok⟩ := bind_eq_ok.mp hok
    cases hok
    exact hquiet rfl (h.frame (keepsJoiners_setTask (handleTask_ok htask).1 rfl rfl id)
      (.of_same rfl (Or.inl rfl)))
  | drop hok =>
    obtain ⟨hkeeps, hsame⟩ := handleDrop_joiners (t := t) hok
    exact hquiet rfl (h.frame hkeeps hsame)
  | join hok => exact joinersLaw_join h hserves hok
  | event hcontrol hfd heq =>
    subst heq
    exact hquiet rfl (hidle rfl rfl rfl (by rw [hcontrol]; exact id) id)
  | take hcontrol hok => exact hquiet rfl (joinersLaw_take h hcontrol hserves hok)
  | ready hcontrol =>
    exact hquiet rfl (joinersLaw_ret h hcontrol hstep)
  | pending hcontrol =>
    exact hquiet rfl (joinersLaw_ret h hcontrol hstep)
  | cleaned hcontrol hok => exact ⟨rest, joinersLaw_cleaned h hcontrol hserves hok⟩
  | wakeJoiner hcontrol hlive hok => exact joinersLaw_wakeJoiner h hcontrol hok hlive
  | release hcontrol hok => exact hquiet rfl (joinersLaw_release h hcontrol hok)
  | drained hcontrol hhead heq =>
    subst heq
    exact hquiet rfl (hidle rfl rfl rfl (by rw [hcontrol]; exact id) id)
  | leave hcontrol heq =>
    subst heq
    exact hquiet rfl (hidle rfl rfl rfl (by rw [hcontrol]; exact id) id)

theorem joinersLaw_init (t : Nat) : JoinersLaw t [] [] schedulerInit := by
  refine ⟨⟨fun _ => rfl, fun _ => rfl, nofun, fun _ _ => ⟨rfl, rfl⟩⟩, ?_⟩
  refine ⟨nofun, nofun, nofun, nofun, nofun, fun _ _ => rfl, nofun, fun _ => ⟨rfl, rfl, rfl⟩⟩

/-- With no node left the promise is kept. -/
theorem JoinersCounts.served (h : JoinersCounts t [] tr s.events) : JoinersServed t tr s where
  woken w := by
    rw [h.woken]
    rfl
  freed node := by
    rw [h.freed]
    rfl
  filled hf hs out := by
    rw [h.filled hf hs]
    rfl
  untouched hf out := List.count_eq_zero.mp (h.pending hf out).1

end Taskio
