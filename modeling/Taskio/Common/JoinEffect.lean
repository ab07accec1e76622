import Taskio.Common.JoinExt

/-!
# What one step of a join does

* `JoinExt.due`, `JoinExt.round`, `JoinExt.pending` — what the history says of the children
* `JoinCase` — the branches of `joinStep`, each with the state that it leads to
* `JoinEffect` — all that a step can do to the lists and to the history
* `joinStep_effect` — every step that succeeds has one of these effects
* `joinState_step` — a child whose pointer is gone has returned ready
-/

namespace Taskio

variable {E : Type} {cb : JoinCallbacks E} {s s' : JoinExt E} {o : JoinOp} {i : Nat}

/-! ## The history -/

/-- The child was woken since its last poll, or never polled. -/
def dueAfter (i : Nat) (due : Bool) (e : JoinEvent) : Bool :=
  if e = .polled i then false else if e = .woken i then true else due

/-- The children polled since the last poll of the join began. -/
def roundAfter (round : List Nat) (e : JoinEvent) : List Nat :=
  match e with
  | .began => []
  | .polled i => round ++ [i]
  | .woken _ | .ready _ | .cleanedUp _ => round

namespace JoinExt

def due (s : JoinExt E) (i : Nat) : Bool := s.events.foldl (dueAfter i) true

def round (s : JoinExt E) : List Nat := s.events.foldl roundAfter []

/-- The child has not returned ready. -/
def pending (s : JoinExt E) (i : Nat) : Prop := .ready i ∉ s.events

/-- Where the walk goes on. -/
def walk (s : JoinExt E) : Option Nat :=
  match s.stage with
  | .walking p | .polling _ p | .cleaning _ p => p
  | .idle | .returned _ | .gone => none

end JoinExt

section History

variable {es : List JoinEvent}

theorem due_append (h : s'.events = s.events ++ es) (i : Nat) :
    s'.due i = es.foldl (dueAfter i) (s.due i) := by
  rw [JoinExt.due, h, List.foldl_append]
  rfl

theorem round_append (h : s'.events = s.events ++ es) :
    s'.round = es.foldl roundAfter s.round := by
  rw [JoinExt.round, h, List.foldl_append]
  rfl

theorem pending_append (h : s'.events = s.events ++ es) (i : Nat) :
    s'.pending i ↔ s.pending i ∧ .ready i ∉ es := by
  rw [JoinExt.pending, h, List.mem_append, not_or]
  rfl

/-- The clean-up of the children adds nothing that counts. -/
theorem foldl_cleanedUp (l : List Nat) (i : Nat) (due : Bool) (round : List Nat) :
    (l.map JoinEvent.cleanedUp).foldl (dueAfter i) due = due ∧
      (l.map JoinEvent.cleanedUp).foldl roundAfter round = round := by
  induction l with
  | nil => exact ⟨rfl, rfl⟩
  | cons x l ih => exact ih

end History

/-! ## The code's own state -/

/-- A child whose pointer is gone has returned ready. -/
structure JoinState (s : JoinExt E) : Prop where
  cleaning : ∀ i next, s.stage = .cleaning i next → ¬ s.pending i
  round : ∀ i ∈ s.round, i < s.len
  future : ∀ i task, s.tasks[i]? = some task → task.future = false → ¬ s.pending i

theorem jtask_eq_ok {task : JoinTask} : s.task i = .ok task ↔ s.tasks[i]? = some task := by
  rw [JoinExt.task]
  cases s.tasks[i]? <;> simp

theorem lt_len_of_task {task : JoinTask} (h : s.tasks[i]? = some task) : i < s.len :=
  (List.getElem?_eq_some_iff.mp h).1

@[simp] theorem len_setTask (s : JoinExt E) (i : Nat) (task : JoinTask) :
    (s.setTask i task).len = s.len := by
  simp [JoinExt.len, JoinExt.setTask]

/-- A slot is overwritten. -/
theorem tasks_setTask {task : JoinTask} (hi : i < s.len) (j : Nat) :
    (s.setTask i task).tasks[j]? = if j = i then some task else s.tasks[j]? := by
  rw [JoinExt.setTask, List.getElem?_set]
  by_cases hj : i = j
  · subst hj
    rw [if_pos rfl, if_pos rfl, if_pos (show i < s.tasks.length from hi)]
  · rw [if_neg hj, if_neg (fun he => hj he.symm)]

theorem next_setTask {task : JoinTask} (hi : i < s.len) :
    (s.setTask i task).next = Function.update s.next i task.next := by
  funext j
  rw [JoinExt.next, tasks_setTask hi]
  by_cases hj : j = i
  · rw [if_pos hj, hj, Function.update_self]
    rfl
  · rw [if_neg hj, Function.update_of_ne hj]
    rfl

/-- Setting another field of a slot does not change the links. -/
theorem next_setTask_same {task task' : JoinTask} (htask : s.tasks[i]? = some task)
    (hnext : task'.next = task.next) : (s.setTask i task').next = s.next := by
  rw [next_setTask (lt_len_of_task htask), hnext]
  have hi : s.next i = task.next := by rw [JoinExt.next, htask]; rfl
  rw [← hi, Function.update_eq_self]

/-! ## The branches of a step -/

/-- The branches of `joinStep` that succeed. -/
inductive JoinCase (cb : JoinCallbacks E) (s : JoinExt E) : JoinOp → JoinExt E → Prop
  | poll (hstage : s.stage = .idle) :
      JoinCase cb s .poll
        { s.log [.began] with pollHead := none, pollTail := none, stage := .walking s.pollHead }
  | child {i : Nat} {task : JoinTask} (hstage : s.stage = .walking (some i))
      (htask : s.tasks[i]? = some task) (hfuture : task.future = true) :
      JoinCase cb s .child
        { (s.setTask i { task with env := true }).log [.polled i] with
          stage := .polling i task.next }
  | pending {i : Nat} {next : Option Nat} {poll : FuturePoll} (hstage : s.stage = .polling i next)
      (hpoll : poll ≠ .ready) : JoinCase cb s (.ret poll) { s with stage := .walking next }
  | ready {i : Nat} {next : Option Nat} {task : JoinTask} {env : E}
      (hstage : s.stage = .polling i next) (htask : s.tasks[i]? = some task)
      (henv : env = match cb.onReady with
        | some onReady => onReady s.env task.index
        | none => s.env) :
      JoinCase cb s (.ret .ready)
        { s.log [.ready i, .cleanedUp i] with env := env, stage := .cleaning i next }
  | cleaned {i : Nat} {next : Option Nat} {task : JoinTask} (hstage : s.stage = .cleaning i next)
      (htask : s.tasks[i]? = some task) :
      JoinCase cb s .cleaned
        { s.setTask i { task with future := false } with
          completedLen := s.completedLen + 1, stage := .walking next }
  | wake {i : Nat} {s' : JoinExt E}
      (hstage : s.stage = .idle ∨ (∃ j next, s.stage = .polling j next) ∨
        ∃ j next, s.stage = .cleaning j next) (hwake : joinWake s i = .ok s') :
      JoinCase cb s (.wake i) s'
  | finish {rand : Nat} (hstage : s.stage = .walking none) :
      JoinCase cb s (.finish rand) (joinFinish cb s rand)
  | cleanup (hstage : s.stage = .idle ∨ ∃ value, s.stage = .returned value) :
      JoinCase cb s .cleanup (joinCleanup s)

/-- Every step that succeeds takes one of them. -/
theorem joinStep_cases (h : joinStep cb s o = .ok s') : JoinCase cb s o s' := by
  unfold joinStep at h
  split at h
  · rename_i hstage
    cases h
    exact .poll hstage
  · rename_i i hstage
    obtain ⟨task, htask, h⟩ := bind_eq_ok.mp h
    by_cases hfuture : task.future = false
    · rw [if_pos hfuture] at h
      cases h
    · rw [if_neg hfuture] at h
      cases h
      exact .child hstage (jtask_eq_ok.mp htask) (by simpa using hfuture)
  · rename_i poll i next hstage
    unfold joinRet at h
    cases poll with
    | undefined =>
      cases h
      exact .pending hstage (by simp)
    | pending =>
      cases h
      exact .pending hstage (by simp)
    | ready =>
      obtain ⟨task, htask, h⟩ := bind_eq_ok.mp h
      cases h
      exact .ready hstage (jtask_eq_ok.mp htask) rfl
  · rename_i i next hstage
    obtain ⟨task, htask, h⟩ := bind_eq_ok.mp h
    cases h
    exact .cleaned hstage (jtask_eq_ok.mp htask)
  · rename_i hstage
    exact .wake (Or.inl hstage) h
  · rename_i j next hstage
    exact .wake (Or.inr (Or.inl ⟨j, next, hstage⟩)) h
  · rename_i j next hstage
    exact .wake (Or.inr (Or.inr ⟨j, next, hstage⟩)) h
  · rename_i hstage
    cases h
    exact .finish hstage
  · rename_i hstage
    cases h
    exact .cleanup (Or.inl hstage)
  · rename_i value hstage
    cases h
    exact .cleanup (Or.inr ⟨value, hstage⟩)
  · cases h

/-! ## One step -/

/-- The lists and the history are the same. -/
structure SameList (s s' : JoinExt E) : Prop where
  next : s'.next = s.next
  walk : s'.walk = s.walk
  head : s'.pollHead = s.pollHead
  tail : s'.pollTail = s.pollTail
  len : s'.len = s.len
  due : s'.due = s.due
  pending : s'.pending = s.pending
  round : s'.round = s.round

/-- What a step does to the lists and to the history. -/
inductive JoinEffect (s s' : JoinExt E) : JoinOp → Prop
  | move {o : JoinOp} (ho : o ≠ .poll ∧ o ≠ .ret .ready ∧ ∀ i, o ≠ .wake i) (hsame : SameList s s') :
      JoinEffect s s' o
  | poll (hstage : s.stage = .idle) (hnext : s'.next = s.next) (hlen : s'.len = s.len)
      (hwalk : s'.walk = s.pollHead) (hhead : s'.pollHead = none) (htail : s'.pollTail = none)
      (hevents : s'.events = s.events ++ [.began]) : JoinEffect s s' .poll
  | child {i : Nat} (hstage : s.stage = .walking (some i)) (hi : i < s.len)
      (hnext : s'.next = s.next) (hlen : s'.len = s.len) (hwalk : s'.walk = s.next i)
      (hhead : s'.pollHead = s.pollHead) (htail : s'.pollTail = s.pollTail)
      (hevents : s'.events = s.events ++ [.polled i]) : JoinEffect s s' .child
  | ready {i : Nat} {next : Option Nat} (hstage : s.stage = .polling i next)
      (hnext : s'.next = s.next) (hlen : s'.len = s.len) (hwalk : s'.walk = s.walk)
      (hhead : s'.pollHead = s.pollHead) (htail : s'.pollTail = s.pollTail)
      (hevents : s'.events = s.events ++ [.ready i, .cleanedUp i]) : JoinEffect s s' (.ret .ready)
  | wake {i : Nat} (hi : i < s.len)
      (hnext : s'.next = fun x =>
        if s.pollTail = some x then some i else if x = i then none else s.next x)
      (hlen : s'.len = s.len) (hwalk : s'.walk = s.walk)
      (hhead : s'.pollHead = if s.pollTail = none then some i else s.pollHead)
      (htail : s'.pollTail = some i) (hevents : s'.events = s.events ++ [.woken i]) :
      JoinEffect s s' (.wake i)

/-- A waker has only the one effect. -/
theorem JoinEffect.wake_fields (h : JoinEffect s s' (.wake i)) : i < s.len ∧
    (s'.next = fun x => if s.pollTail = some x then some i else if x = i then none else s.next x) ∧
    s'.len = s.len ∧ s'.walk = s.walk ∧
    s'.pollHead = (if s.pollTail = none then some i else s.pollHead) ∧ s'.pollTail = some i ∧
    s'.events = s.events ++ [.woken i] := by
  cases h with
  | move ho => exact absurd rfl (ho.2.2 i)
  | wake hi hnext hlen hwalk hhead htail hevents =>
    exact ⟨hi, hnext, hlen, hwalk, hhead, htail, hevents⟩

/-- What `_join_wake` does. -/
theorem joinWake_effect (h : joinWake s i = .ok s') :
    JoinEffect s s' (.wake i) ∧ s'.stage = s.stage ∧
      (∀ (j : Nat) (task' : JoinTask), s'.tasks[j]? = some task' →
        ∃ task : JoinTask, s.tasks[j]? = some task ∧ task.future = task'.future) := by
  obtain ⟨task, htask, h⟩ := bind_eq_ok.mp h
  have htask := jtask_eq_ok.mp htask
  have hi := lt_len_of_task htask
  by_cases henv : task.env = false
  · rw [if_pos henv] at h
    cases h
  rw [if_neg henv] at h
  have hfuture : ∀ (j : Nat) (task' : JoinTask),
      (s.setTask i { task with next := none }).tasks[j]? = some task' →
        ∃ task : JoinTask, s.tasks[j]? = some task ∧ task.future = task'.future := by
    intro j task' hj
    rw [tasks_setTask hi] at hj
    by_cases hji : j = i
    · rw [if_pos hji] at hj
      exact ⟨task, hji ▸ htask, by rw [← Option.some.inj hj]⟩
    · rw [if_neg hji] at hj
      exact ⟨task', hj, rfl⟩
  simp only at h
  have htail : (s.setTask i { task with next := none }).pollTail = s.pollTail := rfl
  rw [htail] at h
  cases hlast : s.pollTail with
  | none =>
    rw [hlast] at h
    cases h
    refine ⟨.wake hi ?_ (len_setTask s i _) rfl (if_pos hlast).symm rfl rfl, rfl, hfuture⟩
    show (s.setTask i { task with next := none }).next = _
    rw [next_setTask hi]
    funext x
    rw [hlast, if_neg (by simp)]
    rw [Function.update_apply]
  | some last =>
    rw [hlast] at h
    obtain ⟨lastTask, hlastTask, h⟩ := bind_eq_ok.mp h
    cases h
    have hlastTask := jtask_eq_ok.mp hlastTask
    have hlt := lt_len_of_task hlastTask
    refine ⟨.wake hi ?_ ?_ rfl (by rw [hlast, if_neg (by simp)]; rfl) rfl rfl, rfl, ?_⟩
    · show ((s.setTask i { task with next := none }).setTask last
        { lastTask with next := some i }).next = _
      rw [next_setTask hlt, next_setTask hi]
      funext x
      rw [Function.update_apply, Function.update_apply, hlast]
      simp only [Option.some.injEq, eq_comm (a := x) (b := last)]
    · show ((s.setTask i { task with next := none }).setTask last _).len = _
      rw [len_setTask, len_setTask]
    · intro j task' hj
      have hj : ((s.setTask i { task with next := none }).setTask last
        { lastTask with next := some i }).tasks[j]? = some task' := hj
      rw [tasks_setTask hlt] at hj
      by_cases hjl : j = last
      · rw [if_pos hjl] at hj
        obtain ⟨old, hold, hfut⟩ := hfuture last lastTask hlastTask
        exact ⟨old, hjl ▸ hold, by rw [hfut, ← Option.some.inj hj]⟩
      · rw [if_neg hjl] at hj
        exact hfuture j task' hj

/-- Every step that succeeds has one of the effects. -/
theorem joinStep_effect (h : joinStep cb s o = .ok s') : JoinEffect s s' o := by
  -- the steps that change neither links nor history
  have hmove : ∀ {o : JoinOp} {s₁ : JoinExt E},
      (o ≠ .poll ∧ o ≠ .ret .ready ∧ ∀ i, o ≠ .wake i) → s₁.next = s.next →
      s₁.walk = s.walk → s₁.pollHead = s.pollHead → s₁.pollTail = s.pollTail → s₁.len = s.len →
      s₁.events = s.events → JoinEffect s s₁ o := by
    intro o s₁ ho hnext hwalk hhead htail hlen hevents
    refine .move ho ⟨hnext, hwalk, hhead, htail, hlen, ?_, ?_, ?_⟩
    · funext i
      rw [JoinExt.due, JoinExt.due, hevents]
    · funext i
      rw [JoinExt.pending, JoinExt.pending, hevents]
    · rw [JoinExt.round, JoinExt.round, hevents]
  cases joinStep_cases h with
  | poll hstage => exact .poll hstage rfl rfl rfl rfl rfl rfl
  | @child i task hstage htask hfuture =>
    have hnext : s.next i = task.next := by rw [JoinExt.next, htask]; rfl
    exact .child hstage (lt_len_of_task htask) (next_setTask_same htask rfl)
      (len_setTask s i _) hnext.symm rfl rfl rfl
  | @pending i next poll hstage hpoll =>
    have hwalk : s.walk = next := by rw [JoinExt.walk, hstage]
    exact hmove ⟨by simp, by simpa using hpoll, by simp⟩ rfl hwalk.symm rfl rfl rfl rfl
  | @ready i next task env hstage htask henv =>
    have hwalk : s.walk = next := by rw [JoinExt.walk, hstage]
    exact .ready hstage rfl rfl hwalk.symm rfl rfl rfl
  | @cleaned i next task hstage htask =>
    have hwalk : s.walk = next := by rw [JoinExt.walk, hstage]
    exact hmove (by simp) (next_setTask_same htask rfl) hwalk.symm rfl rfl (len_setTask s i _) rfl
  | wake hstage hwake => exact (joinWake_effect hwake).1
  | finish hstage =>
    have hwalk : s.walk = none := by rw [JoinExt.walk, hstage]
    rw [joinFinish]
    split
    · exact hmove (by simp) rfl hwalk.symm rfl rfl rfl rfl
    · split
      · exact hmove (by simp) rfl hwalk.symm rfl rfl rfl rfl
      · exact hmove (by simp) rfl hwalk.symm rfl rfl rfl rfl
  | cleanup hstage =>
    have hwalk : s.walk = none := by
      rcases hstage with hstage | ⟨value, hstage⟩
      · rw [JoinExt.walk, hstage]
      · rw [JoinExt.walk, hstage]
    refine .move (by simp) ⟨rfl, hwalk.symm, rfl, rfl, rfl, ?_, ?_, ?_⟩
    · funext i
      rw [due_append (s := s) rfl]
      exact (foldl_cleanedUp _ i _ []).1
    · funext i
      exact propext ((pending_append (s := s) rfl i).trans (and_iff_left (by simp)))
    · rw [round_append (s := s) rfl]
      exact (foldl_cleanedUp _ 0 true _).2

/-- Steps only add to the history. -/
theorem JoinEffect.history (h : JoinEffect s s' o) : s'.len = s.len ∧
    (∀ i, ¬ s.pending i → ¬ s'.pending i) ∧
    ∀ i ∈ s'.round, i ∈ s.round ∨ i < s.len := by
  have hround : ∀ {es}, s'.events = s.events ++ es → es.foldl roundAfter s.round = s.round →
      ∀ i ∈ s'.round, i ∈ s.round ∨ i < s.len := by
    intro es hevents hes i hi
    rw [round_append hevents, hes] at hi
    exact Or.inl hi
  have hpending : ∀ {es}, s'.events = s.events ++ es → ∀ i, ¬ s.pending i → ¬ s'.pending i :=
    fun hevents i hi hi' => hi ((pending_append hevents i).mp hi').1
  cases h with
  | move _ hsame =>
    refine ⟨hsame.len, ?_, fun i hi => Or.inl ?_⟩
    · intro i
      rw [hsame.pending]
      exact id
    · rwa [hsame.round] at hi
  | poll _ _ hlen _ _ _ hevents =>
    refine ⟨hlen, hpending hevents, ?_⟩
    intro i hi
    rw [round_append hevents] at hi
    cases hi
  | @child x _ hx _ hlen _ _ _ hevents =>
    refine ⟨hlen, hpending hevents, ?_⟩
    intro i hi
    rw [round_append hevents] at hi
    rcases List.mem_append.mp hi with hi | hi
    · exact Or.inl hi
    · rw [List.mem_singleton.mp hi]
      exact Or.inr hx
  | ready _ _ hlen _ _ _ hevents => exact ⟨hlen, hpending hevents, hround hevents rfl⟩
  | wake _ _ hlen _ _ _ hevents => exact ⟨hlen, hpending hevents, hround hevents rfl⟩

/-- Only the end of a clean-up clears a pointer, and only a child that is ready is cleaned up. -/
theorem joinStep_future (h : joinStep cb s o = .ok s') :
    (∀ i next, s'.stage = .cleaning i next → s.stage = .cleaning i next ∨ ¬ s'.pending i) ∧
      ∀ (i : Nat) (task' : JoinTask), s'.tasks[i]? = some task' → task'.future = false →
        (∃ task : JoinTask, s.tasks[i]? = some task ∧ task.future = false) ∨
          ∃ next, s.stage = .cleaning i next := by
  -- the steps that leave the pointers alone
  have hkeep : ∀ {s₁ : JoinExt E}, (∀ i next, s₁.stage ≠ .cleaning i next) →
      s₁.tasks = s.tasks →
      (∀ i next, s₁.stage = .cleaning i next → s.stage = .cleaning i next ∨ ¬ s₁.pending i) ∧
        ∀ (i : Nat) (task' : JoinTask), s₁.tasks[i]? = some task' → task'.future = false →
          (∃ task : JoinTask, s.tasks[i]? = some task ∧ task.future = false) ∨
            ∃ next, s.stage = .cleaning i next := by
    intro s₁ hstage htasks
    refine ⟨fun i next hs => absurd hs (hstage i next), fun i task' htask' hfuture => Or.inl ?_⟩
    exact ⟨task', htasks ▸ htask', hfuture⟩
  cases joinStep_cases h with
  | poll hstage => exact hkeep (by simp) rfl
  | @child i task hstage htask hfuture =>
    refine ⟨fun j next hs => (nomatch hs), fun j task' htask' hfuture' => Or.inl ?_⟩
    have htask' : (s.setTask i { task with env := true }).tasks[j]? = some task' := htask'
    rw [tasks_setTask (lt_len_of_task htask)] at htask'
    by_cases hj : j = i
    · rw [if_pos hj] at htask'
      rw [← Option.some.inj htask'] at hfuture'
      exact absurd (hfuture.symm.trans hfuture') (by simp)
    · rw [if_neg hj] at htask'
      exact ⟨task', htask', hfuture'⟩
  | pending hstage hpoll => exact hkeep (by simp) rfl
  | @ready i next task env hstage htask henv =>
    refine ⟨fun j next' hs => Or.inr ?_, fun j task' htask' hfuture =>
      Or.inl ⟨task', htask', hfuture⟩⟩
    cases hs
    rw [pending_append (s := s) rfl]
    simp
  | @cleaned i next task hstage htask =>
    refine ⟨fun j next hs => (nomatch hs), ?_⟩
    intro j task' htask' hfuture'
    have htask' : (s.setTask i { task with future := false }).tasks[j]? = some task' := htask'
    rw [tasks_setTask (lt_len_of_task htask)] at htask'
    by_cases hj : j = i
    · exact Or.inr ⟨next, by rw [hj]; exact hstage⟩
    · rw [if_neg hj] at htask'
      exact Or.inl ⟨task', htask', hfuture'⟩
  | wake hstage hwake =>
    obtain ⟨-, hsame, hfutures⟩ := joinWake_effect hwake
    refine ⟨fun j next hs => Or.inl (hsame ▸ hs), fun j task' htask' hfuture => Or.inl ?_⟩
    obtain ⟨task, htask, heq⟩ := hfutures j task' htask'
    exact ⟨task, htask, heq.trans hfuture⟩
  | finish hstage =>
    rw [joinFinish]
    split
    · exact hkeep (by simp) rfl
    · split
      · exact hkeep (by simp) rfl
      · exact hkeep (by simp) rfl
  | cleanup hstage => exact hkeep (fun _ _ hs => nomatch hs) rfl

theorem joinState_step (h : JoinState s) (hok : joinStep cb s o = .ok s') : JoinState s' := by
  obtain ⟨hlen, hpending, hround⟩ := (joinStep_effect hok).history
  obtain ⟨hcleaning, hfuture⟩ := joinStep_future hok
  refine ⟨?_, ?_, ?_⟩
  · intro i next hs
    rcases hcleaning i next hs with hold | hnot
    · exact hpending i (h.cleaning i next hold)
    · exact hnot
  · intro i hi
    rw [hlen]
    exact (hround i hi).elim (h.round i) id
  · intro i task' htask' hf
    rcases hfuture i task' htask' hf with ⟨task, htask, hold⟩ | ⟨next, hold⟩
    · exact hpending i (h.future i task htask hold)
    · exact hpending i (h.cleaning i next hold)

theorem joinState_init (len : Nat) (env : E) : JoinState (joinExt len env) := by
  refine ⟨fun _ _ hs => (nomatch hs), fun i hi => (nomatch hi), ?_⟩
  intro i task htask hfuture
  exfalso
  have hmem := List.mem_of_getElem? htask
  simp only [joinExt, joinTasks, List.mem_map] at hmem
  obtain ⟨k, -, rfl⟩ := hmem
  cases hfuture

end Taskio
