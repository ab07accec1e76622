import Taskio.Lib.ListSet
import Taskio.Common.JoinEffect

/-!
# The counter of a join

`completed_len` counts the pointers that are gone, and these are the children that have returned
ready, but for one that is being cleaned up.

* `joinStep_events` — what one step adds to the history
* `countsReady_step` — the counter and the pointers against the history
* `CountsReady.complete_iff` — when the counter reaches `len`
* `joinPending_eq_kept` — the scan of the clean-up with the remaining count misses no child
-/

namespace Taskio

variable {E : Type} {cb : JoinCallbacks E} {s s' : JoinExt E} {o : JoinOp} {i : Nat}

/-! ## The history -/

/-- What a step adds to the history. -/
def joinEvents (s : JoinExt E) : JoinOp → List JoinEvent
  | .poll => [.began]
  | .child =>
    match s.stage with
    | .walking (some i) => [.polled i]
    | _ => []
  | .ret .ready =>
    match s.stage with
    | .polling i _ => [.ready i, .cleanedUp i]
    | _ => []
  | .wake i => [.woken i]
  | .cleanup => (joinPending s.tasks 0 (s.len - s.completedLen)).map .cleanedUp
  | .ret .undefined | .ret .pending | .cleaned | .finish _ => []

theorem joinFinish_same (cb : JoinCallbacks E) (s : JoinExt E) (rand : Nat) :
    (joinFinish cb s rand).tasks = s.tasks ∧ (joinFinish cb s rand).events = s.events ∧
      (joinFinish cb s rand).completedLen = s.completedLen ∧
      (∀ i next, (joinFinish cb s rand).stage ≠ .polling i next) ∧
      ∀ i next, (joinFinish cb s rand).stage ≠ .cleaning i next := by
  unfold joinFinish
  split
  · exact ⟨rfl, rfl, rfl, by simp, by simp⟩
  · split
    · exact ⟨rfl, rfl, rfl, by simp, by simp⟩
    · exact ⟨rfl, rfl, rfl, by simp, by simp⟩

theorem joinStep_events (h : joinStep cb s o = .ok s') :
    s'.events = s.events ++ joinEvents s o := by
  cases joinStep_cases h with
  | poll hstage => rfl
  | child hstage htask hfuture => simp only [joinEvents, hstage]; rfl
  | @pending i next poll hstage hpoll =>
    cases poll with
    | ready => exact absurd rfl hpoll
    | _ => exact (List.append_nil _).symm
  | ready hstage htask henv => simp only [joinEvents, hstage]; rfl
  | cleaned hstage htask => exact (List.append_nil _).symm
  | wake hstage hwake => exact (joinWake_effect hwake).1.wake_fields.2.2.2.2.2.2
  | finish hstage => rw [(joinFinish_same cb s _).2.1, joinEvents, List.append_nil]
  | cleanup hstage => rfl

/-! ## The pointers and the counter -/

namespace JoinExt

/-- Which pointers to children are set. -/
def futures (s : JoinExt E) : List Bool := s.tasks.map (·.future)

/-- Which children were handed their waker. -/
def handed (s : JoinExt E) : List Bool := s.tasks.map (·.env)

/-- Every child has returned ready. -/
def AllReady (s : JoinExt E) : Prop := ∀ i < s.len, .ready i ∈ s.events

end JoinExt

@[simp] theorem futures_setTask (s : JoinExt E) (i : Nat) (task : JoinTask) :
    (s.setTask i task).futures = s.futures.set i task.future := List.map_set

@[simp] theorem handed_setTask (s : JoinExt E) (i : Nat) (task : JoinTask) :
    (s.setTask i task).handed = s.handed.set i task.env := List.map_set

theorem getElem?_futures {task : JoinTask} (h : s.tasks[i]? = some task) :
    s.futures[i]? = some task.future := by
  rw [JoinExt.futures, List.getElem?_map, h]
  rfl

theorem getElem?_handed {task : JoinTask} (h : s.tasks[i]? = some task) :
    s.handed[i]? = some task.env := by
  rw [JoinExt.handed, List.getElem?_map, h]
  rfl

/-- A slot is overwritten with the same pointer. -/
theorem futures_setTask_same {task task' : JoinTask} (htask : s.tasks[i]? = some task)
    (h : task'.future = task.future) : (s.setTask i task').futures = s.futures := by
  obtain ⟨hi, hget⟩ := List.getElem?_eq_some_iff.mp (getElem?_futures htask)
  rw [futures_setTask, h, ← hget]
  exact List.set_getElem_self hi

theorem handed_setTask_same {task task' : JoinTask} (htask : s.tasks[i]? = some task)
    (h : task'.env = task.env) : (s.setTask i task').handed = s.handed := by
  obtain ⟨hi, hget⟩ := List.getElem?_eq_some_iff.mp (getElem?_handed htask)
  rw [handed_setTask, h, ← hget]
  exact List.set_getElem_self hi

/-- `_join_wake` changes links only. -/
theorem joinWake_flags (h : joinWake s i = .ok s') :
    s'.futures = s.futures ∧ s'.handed = s.handed ∧ s'.completedLen = s.completedLen := by
  obtain ⟨task, htask, h⟩ := bind_eq_ok.mp h
  have htask := jtask_eq_ok.mp htask
  by_cases henv : task.env = false
  · rw [if_pos henv] at h
    cases h
  rw [if_neg henv] at h
  have hfutures : (s.setTask i { task with next := none }).futures = s.futures :=
    futures_setTask_same htask rfl
  have hhanded : (s.setTask i { task with next := none }).handed = s.handed :=
    handed_setTask_same htask rfl
  simp only at h
  cases hlast : (s.setTask i { task with next := none }).pollTail with
  | none =>
    rw [hlast] at h
    cases h
    exact ⟨hfutures, hhanded, rfl⟩
  | some last =>
    rw [hlast] at h
    obtain ⟨lastTask, hlastTask, h⟩ := bind_eq_ok.mp h
    have hlastTask := jtask_eq_ok.mp hlastTask
    cases h
    refine ⟨?_, ?_, rfl⟩
    · show ((s.setTask i _).setTask last _).futures = _
      rw [futures_setTask_same hlastTask (by rfl), hfutures]
    · show ((s.setTask i _).setTask last _).handed = _
      rw [handed_setTask_same hlastTask (by rfl), hhanded]

/-- The pointers that are gone are counted, and are those of the children that have returned ready. -/
structure CountsReady (s : JoinExt E) : Prop where
  count : s.completedLen = s.futures.countP (!·)
  future : ∀ i b, s.futures[i]? = some b →
    (b = false ↔ ¬ s.pending i ∧ ∀ next, s.stage ≠ .cleaning i next)
  polling : ∀ i next, s.stage = .polling i next → s.futures[i]? = some true
  cleaning : ∀ i next, s.stage = .cleaning i next → s.futures[i]? = some true ∧ ¬ s.pending i
  handed : ∀ i, s.due i = false → s.handed[i]? = some true

theorem countsReady_init (len : Nat) (env : E) : CountsReady (joinExt len env) := by
  have hfutures : (joinExt len env).futures = List.replicate len true := by
    simp only [JoinExt.futures, joinExt, joinTasks, List.map_map]
    rw [List.eq_replicate_iff]
    simp
  refine ⟨?_, ?_, by simp [joinExt], by simp [joinExt], by simp [JoinExt.due, joinExt]⟩
  · rw [hfutures, List.countP_replicate]
    rfl
  · intro i b hb
    rw [hfutures] at hb
    rw [List.eq_of_mem_replicate (List.mem_of_getElem? hb)]
    simp [JoinExt.pending, joinExt]

/-- A step that changes neither the flags nor who is ready. -/
theorem CountsReady.move (h : CountsReady s) (hfutures : s'.futures = s.futures)
    (hhanded : s'.handed = s.handed) (hcount : s'.completedLen = s.completedLen)
    (hdue : ∀ i, s'.due i = false → s.due i = false) (hpending : ∀ i, s'.pending i ↔ s.pending i)
    (hstage : ∀ i next, s.stage ≠ .cleaning i next) (hpolling : ∀ i next, s'.stage ≠ .polling i next)
    (hcleaning : ∀ i next, s'.stage ≠ .cleaning i next) : CountsReady s' := by
  refine ⟨by rw [hcount, hfutures, h.count], ?_,
    fun i next hs => absurd hs (hpolling i next), fun i next hs => absurd hs (hcleaning i next),
    ?_⟩
  · intro i b hb
    rw [hfutures] at hb
    rw [h.future i b hb, hpending]
    simp [hstage, hcleaning]
  · intro i hi
    rw [hhanded]
    exact h.handed i (hdue i hi)

/-- A child is handed its waker. -/
theorem CountsReady.child (h : CountsReady s) (hok : joinStep cb s .child = .ok s') :
    CountsReady s' := by
  have hdue := due_append (joinStep_events hok)
  have hpend := pending_append (joinStep_events hok)
  cases joinStep_cases hok with
  | @child i task hstage htask hfut =>
    have hnew : (s.setTask i { task with env := true }).futures = s.futures :=
      futures_setTask_same htask rfl
    refine ⟨?_, ?_, ?_, nofun, ?_⟩
    · exact h.count.trans (by rw [← hnew]; rfl)
    · intro j b hb
      rw [hpend, h.future j b (by rw [← hnew]; exact hb)]
      simp [joinEvents, hstage]
    · intro j next hs
      cases hs
      show (s.setTask i { task with env := true }).futures[i]? = _
      rw [hnew, getElem?_futures htask, hfut]
    · intro j hj
      show (s.setTask i { task with env := true }).handed[j]? = _
      rw [handed_setTask, List.getElem?_set]
      by_cases hji : i = j
      · subst hji
        have hi : i < s.handed.length := by
          rw [JoinExt.handed, List.length_map]
          exact lt_len_of_task htask
        rw [if_pos rfl, if_pos hi]
      · rw [if_neg hji]
        refine h.handed j ?_
        rw [hdue] at hj
        simpa [joinEvents, hstage, dueAfter, hji] using hj

/-- A child returns ready. Its pointer is still set. -/
theorem CountsReady.ready (h : CountsReady s) (hok : joinStep cb s (.ret .ready) = .ok s') :
    CountsReady s' := by
  have hdue := due_append (joinStep_events hok)
  have hpend := pending_append (joinStep_events hok)
  cases joinStep_cases hok with
  | pending _ hpoll => exact absurd rfl hpoll
  | @ready i next task env hstage htask henv =>
    have hi := h.polling i next hstage
    refine ⟨h.count, ?_, nofun, ?_, ?_⟩
    · intro j b hb
      rw [hpend]
      have hb' : s.futures[j]? = some b := hb
      by_cases hji : j = i
      · subst hji
        rw [hi] at hb'
        cases hb'
        simp
      · rw [h.future j b hb']
        simp [joinEvents, hstage, hji, Ne.symm hji]
    · intro j next' hs
      cases hs
      refine ⟨hi, ?_⟩
      rw [hpend]
      simp [joinEvents, hstage]
    · intro j hj
      rw [hdue] at hj
      exact h.handed j (by simpa [joinEvents, hstage, dueAfter] using hj)

/-- Its pointer goes, and is counted. -/
theorem CountsReady.cleaned (h : CountsReady s) (hok : joinStep cb s .cleaned = .ok s') :
    CountsReady s' := by
  have hdue := due_append (joinStep_events hok)
  cases joinStep_cases hok with
  | @cleaned i next task hstage htask =>
    obtain ⟨hi, hdone⟩ := h.cleaning i next hstage
    rw [getElem?_futures htask] at hi
    have hsame : ∀ j, JoinExt.pending { s.setTask i { task with future := false } with
        completedLen := s.completedLen + 1, stage := .walking next } j ↔ s.pending j :=
      fun j => Iff.rfl
    refine ⟨?_, ?_, nofun, nofun, ?_⟩
    · show s.completedLen + 1 = ((s.setTask i { task with future := false }).futures).countP (!·)
      have hset := Lib.countP_set_add (!·) (getElem?_futures htask) false
      rw [Option.some.inj hi] at hset
      rw [futures_setTask, h.count]
      simpa using hset.symm
    · intro j b hb
      rw [hsame]
      have hb' : (s.setTask i { task with future := false }).futures[j]? = some b := hb
      rw [futures_setTask, List.getElem?_set] at hb'
      by_cases hji : i = j
      · subst hji
        have hlt : i < s.futures.length := by
          rw [JoinExt.futures, List.length_map]
          exact lt_len_of_task htask
        rw [if_pos rfl, if_pos hlt] at hb'
        rw [← Option.some.inj hb']
        simp [hdone]
      · rw [if_neg hji] at hb'
        rw [h.future j b hb']
        simp [hstage, hji]
    · intro j hj
      show (s.setTask i { task with future := false }).handed[j]? = _
      rw [handed_setTask_same htask (by rfl)]
      refine h.handed j ?_
      rw [hdue] at hj
      exact hj

/-- A waker is called, in whatever stage. -/
theorem CountsReady.wake (h : CountsReady s) (hok : joinStep cb s (.wake i) = .ok s') :
    CountsReady s' := by
  have hdue := due_append (joinStep_events hok)
  have hpend := pending_append (joinStep_events hok)
  cases joinStep_cases hok with
  | wake hstage hwake =>
    obtain ⟨hf, hh, hc⟩ := joinWake_flags hwake
    have hstage' : s'.stage = s.stage := (joinWake_effect hwake).2.1
    have hp : ∀ j, s'.pending j ↔ s.pending j := fun j => by rw [hpend]; simp [joinEvents]
    refine ⟨by rw [hc, hf, h.count], ?_, ?_, ?_,
      ?_⟩
    · intro j b hb
      rw [hp, hstage']
      exact h.future j b (by rwa [← hf])
    · intro j next hs
      rw [hf]
      exact h.polling j next (by rwa [← hstage'])
    · intro j next hs
      rw [hf, hp]
      exact h.cleaning j next (by rwa [← hstage'])
    · intro j hj
      rw [hh]
      refine h.handed j ?_
      rw [hdue] at hj
      by_cases hji : i = j
      · simp [joinEvents, dueAfter, hji] at hj
      · simpa [joinEvents, dueAfter, hji] using hj

theorem countsReady_step (h : CountsReady s) (hok : joinStep cb s o = .ok s') : CountsReady s' := by
  have hdue := due_append (joinStep_events hok)
  have hpend := pending_append (joinStep_events hok)
  cases joinStep_cases hok with
  | poll hstage =>
    refine h.move rfl rfl rfl ?_ ?_ (by simp [hstage]) (by simp) (by simp)
    · intro i hi
      rw [hdue] at hi
      exact hi
    · intro i
      rw [hpend]
      simp [joinEvents]
  | child => exact h.child hok
  | @pending i next poll hstage hpoll =>
    have hnil : joinEvents s (.ret poll) = [] := by
      cases poll with
      | ready => exact absurd rfl hpoll
      | _ => rfl
    refine h.move rfl rfl rfl ?_ ?_ (by simp [hstage]) (by simp) (by simp)
    · intro j hj
      rw [hdue, hnil] at hj
      exact hj
    · intro j
      rw [hpend, hnil]
      simp
  | ready => exact h.ready hok
  | cleaned => exact h.cleaned hok
  | wake => exact h.wake hok
  | @finish rand hstage =>
    obtain ⟨ht, he, hc, hp, hcl⟩ := joinFinish_same cb s rand
    refine h.move ?_ ?_ hc ?_ ?_ (by simp [hstage]) hp hcl
    · rw [JoinExt.futures, ht]
      rfl
    · rw [JoinExt.handed, ht]
      rfl
    · intro j hj
      rwa [hdue] at hj
    · intro j
      rw [hpend]
      simp [joinEvents]
  | cleanup hstage =>
    refine h.move rfl rfl rfl ?_ ?_ ?_ nofun nofun
    · intro j hj
      rw [hdue, joinEvents, (foldl_cleanedUp _ j _ []).1] at hj
      exact hj
    · intro j
      rw [hpend]
      simp [joinEvents]
    · rcases hstage with hstage | ⟨value, hstage⟩
      · simp [hstage]
      · simp [hstage]

/-- After the walk the counter has reached `len` exactly when every child has returned ready. -/
theorem CountsReady.complete_iff (h : CountsReady s) (hstage : s.stage = .walking none) :
    s.len = s.completedLen ↔ s.AllReady := by
  have hlen : s.len = s.futures.length := by rw [JoinExt.len, JoinExt.futures, List.length_map]
  have hfalse : ∀ i (hi : i < s.futures.length), s.futures[i] = false ↔ .ready i ∈ s.events := by
    intro i hi
    rw [h.future i _ (List.getElem?_eq_getElem hi), JoinExt.pending]
    simp [hstage]
  rw [h.count, hlen, eq_comm, List.countP_eq_length]
  constructor
  · intro hall i hi
    rw [hlen] at hi
    exact (hfalse i hi).mp (by simpa using hall _ (List.getElem_mem hi))
  · intro hall b hb
    obtain ⟨i, hi, rfl⟩ := List.getElem_of_mem hb
    rw [(hfalse i hi).mpr (hall i (hlen ▸ hi))]
    rfl

/-! ## The children that are still to be cleaned up -/

namespace JoinExt

/-- The child that is being polled, or cleaned up because it was ready. -/
def busy (s : JoinExt E) : Option Nat :=
  match s.stage with
  | .polling i _ | .cleaning i _ => some i
  | .idle | .walking _ | .returned _ | .gone => none

/-- The children that are still to be cleaned up, but for the one that is busy. -/
def kept (s : JoinExt E) : List Nat :=
  (List.range s.len).filter fun i => s.futures[i]? = some true ∧ s.busy ≠ some i

end JoinExt

theorem busy_eq_none (hpolling : ∀ i next, s.stage ≠ .polling i next)
    (hcleaning : ∀ i next, s.stage ≠ .cleaning i next) : s.busy = none := by
  unfold JoinExt.busy
  cases hs : s.stage with
  | polling i next => exact absurd hs (hpolling i next)
  | cleaning i next => exact absurd hs (hcleaning i next)
  | idle | walking p | returned value | gone => rfl

theorem length_futures (s : JoinExt E) : s.futures.length = s.len := List.length_map _

theorem mem_kept : i ∈ s.kept ↔ s.futures[i]? = some true ∧ s.busy ≠ some i := by
  simp only [JoinExt.kept, List.mem_filter, List.mem_range, decide_eq_true_eq, and_iff_right_iff_imp]
  rintro ⟨hfuture, -⟩
  rw [← length_futures]
  exact (List.getElem?_eq_some_iff.mp hfuture).1

theorem nodup_kept (s : JoinExt E) : s.kept.Nodup := List.nodup_range.filter _

theorem kept_congr (hfutures : s'.futures = s.futures) (hbusy : s'.busy = s.busy) :
    s'.kept = s.kept := by
  rw [JoinExt.kept, JoinExt.kept, ← length_futures, ← length_futures, hfutures, hbusy]

/-- The child that is busy is the one that is missing. -/
theorem kept_perm (hfutures : s'.futures = s.futures) (hnone : s.busy = none)
    (hbusy : s'.busy = some i) (hi : s.futures[i]? = some true) : s.kept.Perm (i :: s'.kept) := by
  have hmem : i ∈ s.kept := mem_kept.mpr ⟨hi, by simp [hnone]⟩
  have herase : s.kept.erase i = s'.kept := by
    rw [(nodup_kept s).erase_eq_filter, JoinExt.kept, JoinExt.kept, List.filter_filter,
      ← length_futures, ← length_futures, hfutures]
    refine List.filter_congr ?_
    intro j _
    rw [hbusy, hnone]
    by_cases hj : j = i
    · simp [hj]
    · simp [hj, Ne.symm hj]
  exact herase ▸ List.perm_cons_erase hmem

/-- It is no longer missing when its pointer is gone. -/
theorem kept_cleaned (hfutures : s'.futures = s.futures.set i false) (hbusy : s.busy = some i)
    (hnone : s'.busy = none) : s'.kept = s.kept := by
  rw [JoinExt.kept, JoinExt.kept, ← length_futures, ← length_futures, hfutures, List.length_set]
  refine List.filter_congr ?_
  intro j _
  rw [hbusy, hnone, List.getElem?_set]
  by_cases hj : i = j
  · subst hj
    rw [if_pos rfl]
    split <;> simp
  · simp [hj]

theorem joinPending_eq (tasks : List JoinTask) (i : Nat) :
    joinPending tasks i (tasks.countP (·.future)) =
      ((List.range tasks.length).filter fun j => (tasks.map (·.future))[j]? = some true).map
        (i + ·) := by
  induction tasks generalizing i with
  | nil => rfl
  | cons task tasks ih =>
    have hlater : ((List.range tasks.length).map Nat.succ).filter
        (fun j => ((task :: tasks).map (·.future))[j]? = some true) =
        ((List.range tasks.length).filter fun j => (tasks.map (·.future))[j]? = some true).map
          Nat.succ := by
      rw [List.filter_map]
      rfl
    have hshift : ∀ l : List Nat, (l.map Nat.succ).map (i + ·) = l.map (i + 1 + ·) := by
      intro l
      rw [List.map_map]
      refine List.map_congr_left ?_
      intro j _
      show i + (j + 1) = i + 1 + j
      omega
    rw [List.length_cons, List.range_succ_eq_map, List.filter_cons, hlater, List.countP_cons]
    unfold joinPending
    cases hfuture : task.future with
    | true =>
      have hhead : ((task :: tasks).map (·.future))[0]? = some true := by simp [hfuture]
      rw [if_pos (decide_eq_true hhead), List.map_cons, hshift, ← ih]
      simp
    | false =>
      have hhead : decide (((task :: tasks).map (·.future))[0]? = some true) = false := by
        simp [hfuture]
      simp only [hhead, Bool.false_eq_true, if_false, Nat.add_zero]
      rw [hshift, ← ih]
      by_cases hzero : tasks.countP (·.future) = 0
      · rw [hzero]
        cases tasks <;> simp [joinPending]
      · simp [hzero]

/-- The scan of a join's clean-up stops at the remaining count, and misses nothing. -/
theorem joinPending_eq_kept (h : CountsReady s) (hbusy : s.busy = none) :
    joinPending s.tasks 0 (s.len - s.completedLen) = s.kept := by
  have hcount : s.len - s.completedLen = s.tasks.countP (·.future) := by
    have hsplit := List.length_eq_countP_add_countP (·.future) (l := s.tasks)
    rw [h.count, JoinExt.futures, List.countP_map, JoinExt.len]
    simp only [Function.comp_def, Bool.not_eq_true, Bool.decide_eq_false] at hsplit ⊢
    omega
  rw [hcount, joinPending_eq, JoinExt.kept]
  simp only [Nat.zero_add, List.map_id', hbusy]
  refine List.filter_congr ?_
  intro j _
  simp [JoinExt.futures]

end Taskio
