import Taskio.Lib.ListSet
import Taskio.Runtime.BlockingTask

/-!
# Runs of a blocking task

* `BlockingLaw` — the waker calls made and the nodes still to be walked make up for the joins
* `blockingLaw_step` — a step that meets `KeepsOrder` keeps it
* `blocking_runs_or_aborts` — the handler runs to its end and the task finishes, or it is aborted and
  the handler does not run, and each joiner is woken once
-/

namespace Taskio

variable {s s' : BlockingTask} {o : BlockingTaskOp} {v : Nat}

/-! ## The invariant -/

/-- The waker of the join was called, or its node is linked. -/
def HandleCall.served : HandleCall → Bool
  | .join _ (.returned _) | .join _ (.found .aborted) | .join _ (.linking .aborted _) => true
  | _ => false

/-- What the switch was on is what the status is, or was. -/
def HandleCall.Fits (status : TaskStatus) : HandleCall → Prop
  | .join _ (.found st) | .join _ (.linking st _) =>
    st = .suspended ∧ status ≠ .aborted ∨ st = .aborted ∧ status = .aborted
  | .join _ (.returned st) =>
    st = .suspended ∧ status ≠ .aborted ∨ st = .aborted ∧ status = .aborted ∨
      st = .finished ∧ status = .finished
  | _ => True

def HandleCall.out : HandleCall → Bool
  | .join out _ => out
  | _ => false

namespace BlockingTask

/-- The nodes whose wakers the worker still has to call. -/
def toWake (s : BlockingTask) : List Nat :=
  match s.worker with
  | .walking nodes => nodes
  | .done => []
  | _ => if s.status = .aborted then [] else s.wakeOnReady

/-- The handler did not run. -/
def Unused (s : BlockingTask) : Prop := s.events.count .began = 0 ∧ s.handled = []

/-- The handler ran to its end. -/
def Used (s : BlockingTask) : Prop :=
  s.events.count .began = 1 ∧ ∃ v, s.handled = [v] ∧ (s.hasOut = true → s.output = some v)

/-- How the status goes with the worker. -/
def Phase (s : BlockingTask) : Prop :=
  match s.worker with
  | .queued => (s.status = .suspended ∨ s.status = .aborted) ∧ s.Unused
  | .running => s.status = .suspended ∧ s.events.count .began = 1 ∧ s.handled = []
  | .returned => s.status = .suspended ∧ s.Used
  | .finished | .walking _ => s.status = .finished ∧ s.Used
  | .done => s.status = .aborted ∧ s.Unused ∨ s.status = .finished ∧ s.Used

end BlockingTask

structure BlockingLaw (s : BlockingTask) : Prop where
  phase : s.Phase
  calls : ∀ c ∈ s.calls, c.Fits s.status
  served : ∀ i, s.events.count (.woken i) + s.toWake.count i =
    ((s.calls[i]?).any HandleCall.served).toNat
  quiet : s.status = .suspended → ∀ i, .woken i ∉ s.events
  after : ∀ v, s.handled = [v] → s.WakesAfter v

/-! ## Small facts -/

theorem nodeOut_eq (s : BlockingTask) (i : Nat) : nodeOut s i = (s.calls[i]?).any HandleCall.out := by
  unfold nodeOut
  split
  · rename_i hget
    rw [hget]
    rfl
  · rename_i hnot
    cases hget : s.calls[i]? with
    | none => rfl
    | some c =>
      cases c with
      | abort => rfl
      | join out stage => exact absurd hget (hnot out stage)

/-- One call moves on. -/
theorem any_set {calls : List HandleCall} {i : Nat} {c : HandleCall} (hget : calls[i]? = some c)
    (c' : HandleCall) (p : HandleCall → Bool) (j : Nat) :
    ((calls.set i c')[j]?).any p = if j = i then p c' else (calls[j]?).any p := by
  by_cases hj : j = i
  · subst hj
    have hlt := (List.getElem?_eq_some_iff.mp hget).1
    rw [List.getElem?_set_self hlt, if_pos rfl]
    rfl
  · rw [List.getElem?_set_ne (Ne.symm hj), if_neg hj]

/-- A new call. -/
theorem any_append {calls : List HandleCall} {c : HandleCall} {p : HandleCall → Bool}
    (hc : p c = false) (j : Nat) : ((calls ++ [c])[j]?).any p = (calls[j]?).any p := by
  by_cases hj : j < calls.length
  · rw [List.getElem?_append_left hj]
  · have hge : calls.length ≤ j := by omega
    rw [List.getElem?_append_right hge, List.getElem?_eq_none hge]
    cases hidx : j - calls.length with
    | zero => simpa using hc
    | succ k => rfl

theorem handled_append {es : List BlockingTaskEvent} (h : s'.events = s.events ++ es)
    (hes : ∀ v, .handled v ∉ es) : s'.handled = s.handled := by
  have hnone : es.filterMap BlockingTaskEvent.handled? = [] := by
    rw [List.filterMap_eq_nil_iff]
    intro e he
    cases e with
    | handled v => exact absurd he (hes v)
    | _ => rfl
  unfold BlockingTask.handled
  rw [h, List.filterMap_append, hnone, List.append_nil]

/-- What is logged after the handler returned. -/
theorem BlockingTask.WakesAfter.append {es : List BlockingTaskEvent} (h : s.WakesAfter v)
    (hevents : s'.events = s.events ++ es) (hout : s'.hasOut = s.hasOut)
    (hnode : ∀ i, .woken i ∈ s.events → nodeOut s' i = nodeOut s i)
    (hnew : ∀ e₁ i e₂, es = e₁ ++ .woken i :: e₂ → .handled v ∈ s.events ++ e₁ ∧
      (nodeOut s' i = true → s'.hasOut = true → .copied i (some v) ∈ s.events ++ e₁)) :
    s'.WakesAfter v := by
  intro e₁ i e₂ heq
  rw [hevents] at heq
  rcases List.append_eq_append_iff.mp heq with ⟨es₁, rfl, hes⟩ | ⟨es₁, hs, hes⟩
  · exact hnew es₁ i e₂ hes
  · cases es₁ with
    | nil =>
      rw [List.nil_append] at hes
      rw [List.append_nil] at hs
      have := hnew [] i e₂ hes.symm
      rwa [List.append_nil, hs] at this
    | cons e es₁ =>
      obtain ⟨rfl, rfl⟩ := List.cons.inj hes
      have hold := h e₁ i es₁ hs
      have hmem : .woken i ∈ s.events := by simp [hs]
      rwa [hnode i hmem, hout]

/-- A task that is set to finished was handled, and one that is aborted was not. -/
theorem BlockingTask.Phase.used (h : s.Phase) (hstatus : s.status = .finished) : s.Used := by
  unfold BlockingTask.Phase at h
  split at h
  · rcases h.1 with haborted | haborted <;> rw [hstatus] at haborted <;> cases haborted
  · rw [hstatus] at h
    cases h.1
  · exact h.2
  · exact h.2
  · exact h.2
  · rcases h with ⟨haborted, -⟩ | ⟨-, hused⟩
    · rw [hstatus] at haborted
      cases haborted
    · exact hused

theorem BlockingTask.Phase.unused (h : s.Phase) (hstatus : s.status = .aborted) :
    s.Unused ∧ (s.worker = .queued ∨ s.worker = .done) := by
  unfold BlockingTask.Phase at h
  split at h <;> rename_i hworker
  · exact ⟨h.2, Or.inl hworker⟩
  · rw [hstatus] at h
    cases h.1
  · rw [hstatus] at h
    cases h.1
  · rw [hstatus] at h
    cases h.1
  · rw [hstatus] at h
    cases h.1
  · rcases h with ⟨-, hunused⟩ | ⟨hfinished, -⟩
    · exact ⟨hunused, Or.inr hworker⟩
    · rw [hstatus] at hfinished
      cases hfinished

/-- After the handler. -/
theorem BlockingTask.Phase.output (h : s.Phase) (hv : s.handled = [v])
    (hstatus : s.status ≠ .suspended) :
    s.status = .finished ∧ (s.hasOut = true → s.output = some v) := by
  have hused : s.status = .finished ∧ s.Used := by
    unfold BlockingTask.Phase at h
    split at h
    · rw [h.2.2] at hv
      cases hv
    · exact absurd h.1 hstatus
    · exact absurd h.1 hstatus
    · exact h
    · exact h
    · rcases h with ⟨-, hunused⟩ | hused
      · rw [hunused.2] at hv
        cases hv
      · exact hused
  obtain ⟨hfinished, -, w, hw, houtput⟩ := hused
  rw [hv] at hw
  obtain rfl : v = w := (List.cons.inj hw).1
  exact ⟨hfinished, houtput⟩

/-- Waker calls are logged. -/
theorem BlockingTask.Phase.log {es : List BlockingTaskEvent} (h : s.Phase)
    (hworker : s'.worker = s.worker) (hstatus : s'.status = s.status) (hout : s'.hasOut = s.hasOut)
    (houtput : s'.output = s.output) (hevents : s'.events = s.events ++ es)
    (hbegan : .began ∉ es) (hhandled : ∀ v, .handled v ∉ es) : s'.Phase := by
  have hcount : s'.events.count .began = s.events.count .began := by
    rw [hevents, List.count_append, List.count_eq_zero.mpr hbegan, Nat.add_zero]
  unfold BlockingTask.Phase BlockingTask.Used BlockingTask.Unused at *
  rwa [hworker, hstatus, hout, houtput, hcount, handled_append hevents hhandled]

theorem mem_handled (h : s.handled = [v]) : .handled v ∈ s.events := by
  have hmem : v ∈ s.events.filterMap BlockingTaskEvent.handled? := by
    have heq : s.events.filterMap BlockingTaskEvent.handled? = [v] := h
    simp [heq]
  obtain ⟨e, he, hv⟩ := List.mem_filterMap.mp hmem
  cases e with
  | handled w =>
    cases hv
    exact he
  | _ => cases hv

/-- A joiner that was woken is one of the calls. -/
theorem BlockingLaw.known {i : Nat} (h : BlockingLaw s) (hmem : .woken i ∈ s.events) :
    i < s.calls.length := by
  by_contra hge
  have hserved := h.served i
  rw [List.getElem?_eq_none (by omega)] at hserved
  have hpos := List.count_pos_iff.mpr hmem
  simp only [Option.any_none, Bool.toNat_false] at hserved
  omega

/-! ## Steps of the calls -/

/-- A call is made. -/
theorem BlockingLaw.call {c : HandleCall} (h : BlockingLaw s) (hserved : c.served = false)
    (hfits : c.Fits s.status) : BlockingLaw { s with calls := s.calls ++ [c] } := by
  refine ⟨h.phase, ?_, ?_, h.quiet, ?_⟩
  · intro c' hc'
    rcases List.mem_append.mp hc' with hc' | hc'
    · exact h.calls c' hc'
    · rw [List.mem_singleton.mp hc']
      exact hfits
  · intro i
    show _ = (((s.calls ++ [c])[i]?).any HandleCall.served).toNat
    rw [any_append hserved]
    exact h.served i
  · intro v hv
    refine (h.after v hv).append (List.append_nil _).symm rfl ?_ (by simp)
    intro i hmem
    rw [nodeOut_eq, nodeOut_eq]
    show ((s.calls ++ [c])[i]?).any _ = _
    rw [List.getElem?_append_left (h.known hmem)]

theorem nodeOut_set {i : Nat} {c : HandleCall} (hget : s.calls[i]? = some c) (c' : HandleCall)
    (hcalls : s'.calls = s.calls.set i c') (hout : c'.out = c.out) (j : Nat) :
    nodeOut s' j = nodeOut s j := by
  rw [nodeOut_eq, nodeOut_eq, hcalls, any_set hget]
  split
  · rename_i hj
    rw [hj, hget, hout]
    rfl
  · rfl

theorem BlockingLaw.fits_set {i : Nat} {c : HandleCall} (h : BlockingLaw s)
    (hfits : c.Fits s.status) : ∀ d ∈ s.calls.set i c, d.Fits s.status := by
  intro d hd
  rcases List.mem_or_eq_of_mem_set hd with hd | rfl
  · exact h.calls d hd
  · exact hfits

/-- A call goes on, and its waker and its node are not touched. -/
theorem BlockingLaw.move {i : Nat} {c : HandleCall} (h : BlockingLaw s)
    (hget : s.calls[i]? = some c) (c' : HandleCall) (hserved : c'.served = c.served)
    (hout : c'.out = c.out)
    (hfits : c'.Fits s.status) : BlockingLaw { s with calls := s.calls.set i c' } := by
  refine ⟨h.phase, h.fits_set hfits, ?_, h.quiet, ?_⟩
  · intro j
    show _ = (((s.calls.set i c')[j]?).any HandleCall.served).toNat
    rw [any_set hget]
    split
    · rename_i hj
      have hsame := h.served j
      rw [hj, hget] at hsame
      rw [hj, hserved]
      exact hsame
    · exact h.served j
  · intro v hv
    exact (h.after v hv).append (List.append_nil _).symm rfl
      (fun j _ => nodeOut_set hget c' rfl hout j) (by simp)

/-- The status is set to aborted: no join has found the task suspended. -/
theorem BlockingLaw.abort (h : BlockingLaw s)
    (hkeeps : s.status = .aborted ∨
      s.worker = .queued ∧ ∀ c ∈ s.calls, c.saw ≠ some .suspended) :
    BlockingLaw { s with status := .aborted } := by
  by_cases haborted : s.status = .aborted
  · rw [← haborted]
    exact h
  · obtain ⟨hworker, hnone⟩ := hkeeps.resolve_left haborted
    have hphase := h.phase
    unfold BlockingTask.Phase at hphase
    rw [hworker] at hphase
    have hsuspended := hphase.1.resolve_right haborted
    -- so no join has got past its switch
    have hfits : ∀ c ∈ s.calls, c.served = false ∧ c.Fits .aborted := by
      intro c hc
      have hfit := h.calls c hc
      have hsaw := hnone c hc
      rw [hsuspended] at hfit
      cases c with
      | abort => exact ⟨rfl, trivial⟩
      | join out stage =>
        cases stage with
        | called => exact ⟨rfl, trivial⟩
        | found st | linking st next | returned st =>
          simp [HandleCall.Fits, HandleCall.saw] at hfit hsaw
          exact absurd hfit hsaw
    have hserved : ∀ i : Nat, (s.calls[i]?).any HandleCall.served = false := by
      intro i
      cases hget : s.calls[i]? with
      | none => rfl
      | some c => exact (hfits c (List.mem_of_getElem? hget)).1
    refine ⟨?_, fun c hc => (hfits c hc).2, ?_, by simp, h.after⟩
    · unfold BlockingTask.Phase
      simp only [hworker]
      exact ⟨Or.inr trivial, hphase.2⟩
    · intro i
      have hcount := h.served i
      have hempty : BlockingTask.toWake { s with status := .aborted } = [] := by
        simp [BlockingTask.toWake, hworker]
      rw [hempty]
      simp only [hserved, Bool.toNat_false] at hcount ⊢
      simp only [List.count_nil]
      omega

/-- What is logged with a waker call. -/
def wakeJoinEvents (s : BlockingTask) (i : Nat) (copy : Bool) : List BlockingTaskEvent :=
  (if copy then [.copied i s.output] else []) ++ [.woken i]

theorem wakeJoinEvents_mem {i : Nat} {copy : Bool} {e : BlockingTaskEvent}
    (h : e ∈ wakeJoinEvents s i copy) : e = .copied i s.output ∧ copy = true ∨ e = .woken i := by
  unfold wakeJoinEvents at h
  cases copy with
  | false => exact Or.inr (by simpa using h)
  | true => exact (by simpa using h : _ ∨ _).imp_left fun he => ⟨he, rfl⟩

theorem count_wakeJoinEvents (i : Nat) (copy : Bool) (j : Nat) :
    (wakeJoinEvents s i copy).count (.woken j) = if j = i then 1 else 0 := by
  unfold wakeJoinEvents
  by_cases hj : j = i
  · cases copy <;> simp [hj]
  · have hne : ¬ i = j := fun he => hj he.symm
    cases copy <;> simp [hj, hne]

/-- The output goes before the waker call. -/
theorem BlockingLaw.after_wake {i : Nat} {copy : Bool} (h : BlockingLaw s)
    (hstatus : s.status ≠ .suspended) (hevents : s'.events = s.events ++ wakeJoinEvents s i copy)
    (hout : s'.hasOut = s.hasOut)
    (hnode : ∀ j, nodeOut s' j = nodeOut s j)
    (hcopy : s.status = .finished → nodeOut s i = true → s.hasOut = true → copy = true) :
    ∀ v, s'.handled = [v] → s'.WakesAfter v := by
  intro v hv
  have hv' : s.handled = [v] := by
    rw [← hv]
    refine (handled_append hevents ?_).symm
    intro w hw
    rcases wakeJoinEvents_mem hw with ⟨hw, -⟩ | hw <;> cases hw
  refine (h.after v hv').append hevents hout (fun j _ => hnode j) ?_
  intro e₁ j e₂ hes
  -- the output was written when the handler returned
  obtain rfl : j = i := by
    have hmem : .woken j ∈ wakeJoinEvents s i copy := by simp [hes]
    rcases wakeJoinEvents_mem hmem with ⟨hw, -⟩ | hw
    · cases hw
    · exact BlockingTaskEvent.woken.inj hw
  refine ⟨List.mem_append_left _ (mem_handled hv'), ?_⟩
  intro hj hhas
  rw [hnode] at hj
  rw [hout] at hhas
  obtain ⟨hfinished, houtput⟩ := h.phase.output hv' hstatus
  rw [hcopy hfinished hj hhas, wakeJoinEvents, houtput hhas] at hes
  cases e₁ with
  | nil => simp at hes
  | cons e e₁ =>
    have he := (List.cons.inj hes).1
    simp [← he]

/-- A join is served at once. -/
theorem BlockingLaw.serve {i : Nat} {out copy : Bool} {stage : HandleJoinStage} (h : BlockingLaw s)
    (hget : s.calls[i]? = some (.join out .called)) (hstatus : s.status ≠ .suspended)
    (hserved : (HandleCall.join out stage).served = true)
    (hfits : (HandleCall.join out stage).Fits s.status)
    (hcopy : s.status = .finished → out = true → s.hasOut = true → copy = true) :
    BlockingLaw { wakeJoin s i copy with calls := s.calls.set i (.join out stage) } := by
  have hevents : (wakeJoin s i copy).events = s.events ++ wakeJoinEvents s i copy :=
    List.append_assoc _ _ _
  have hquiet : ∀ e ∈ wakeJoinEvents s i copy, e ≠ .began ∧ ∀ v, e ≠ .handled v := by
    intro e he
    rcases wakeJoinEvents_mem he with ⟨rfl, -⟩ | rfl <;> simp
  refine ⟨?_, h.fits_set hfits, ?_, fun hs => absurd hs hstatus, ?_⟩
  · exact h.phase.log rfl rfl rfl rfl hevents (fun he => (hquiet _ he).1 rfl)
      fun v he => (hquiet _ he).2 v rfl
  · intro j
    show (wakeJoin s i copy).events.count _ + s.toWake.count j =
      (((s.calls.set i _)[j]?).any HandleCall.served).toNat
    have hsame := h.served j
    rw [any_set hget, hserved, hevents, List.count_append, count_wakeJoinEvents]
    by_cases hj : j = i
    · rw [hj, hget] at hsame
      rw [if_pos hj, if_pos hj, hj]
      have hzero : ((some (HandleCall.join out .called)).any HandleCall.served).toNat = 0 := rfl
      rw [hzero] at hsame
      rw [Bool.toNat_true]
      omega
    · rw [if_neg hj, if_neg hj, Nat.add_zero]
      exact hsame
  · refine h.after_wake hstatus hevents rfl (nodeOut_set hget _ rfl rfl) ?_
    rw [nodeOut_eq, hget]
    exact hcopy

/-- A node is linked. -/
theorem BlockingLaw.link {i : Nat} {out : Bool} {status : TaskStatus} {next : List Nat}
    (h : BlockingLaw s) (hget : s.calls[i]? = some (.join out (.linking status next)))
    (hkeeps : status = .suspended → s.wakeOnReady = next ∧ s.worker.beforeWalk = true) :
    BlockingLaw { s with
      wakeOnReady := i :: next, calls := s.calls.set i (.join out (.returned status)) } := by
  have hafter : ∀ v, s.handled = [v] → BlockingTask.WakesAfter { s with
      wakeOnReady := i :: next, calls := s.calls.set i (.join out (.returned status)) } v :=
    fun v hv => (h.after v hv).append (List.append_nil _).symm rfl
      (fun j _ => nodeOut_set hget (.join out (.returned status)) rfl rfl j) (by simp)
  have hset := any_set hget (.join out (.returned status)) HandleCall.served
  rcases h.calls _ (List.mem_of_getElem? hget) with ⟨rfl, hstatus⟩ | ⟨rfl, hstatus⟩
  · -- the worker will walk to the node
    obtain ⟨rfl, hbefore⟩ := hkeeps rfl
    refine ⟨h.phase, h.fits_set (Or.inl ⟨rfl, hstatus⟩), ?_, h.quiet, hafter⟩
    intro j
    have hwalks : ∀ s₁ : BlockingTask, s₁.worker = s.worker → s₁.status = s.status →
        s₁.toWake = s₁.wakeOnReady := by
      intro s₁ hworker₁ hstatus₁
      unfold BlockingTask.toWake
      rw [hworker₁, hstatus₁, if_neg hstatus]
      cases hworker : s.worker with
      | walking nodes | done =>
        rw [hworker] at hbefore
        cases hbefore
      | _ => rfl
    have hsame := h.served j
    rw [hwalks s rfl rfl] at hsame
    have hnew := hwalks { s with
      wakeOnReady := i :: s.wakeOnReady
      calls := s.calls.set i (.join out (.returned .suspended)) } rfl rfl
    rw [hnew, hset, List.count_cons]
    by_cases hj : j = i
    · subst hj
      have hzero : ((some (HandleCall.join out (.linking .suspended s.wakeOnReady))).any
          HandleCall.served).toNat = 0 := rfl
      have hone : (HandleCall.served (.join out (.returned .suspended))).toNat = 1 := rfl
      rw [hget, hzero] at hsame
      simp only [beq_self_eq_true, if_true, hone]
      omega
    · have hne : (i == j) = false := beq_eq_false_iff_ne.mpr (Ne.symm hj)
      rw [if_neg hj, hne]
      exact hsame
  · -- the waker was called already, and the list of an aborted task is not walked
    obtain ⟨-, hworker⟩ := h.phase.unused hstatus
    refine ⟨h.phase, h.fits_set (Or.inr (Or.inl ⟨rfl, hstatus⟩)), ?_, h.quiet, hafter⟩
    intro j
    have hsame := h.served j
    have hnone : ∀ s₁ : BlockingTask, s₁.worker = s.worker → s₁.status = .aborted →
        s₁.toWake = [] := by
      intro s₁ hworker₁ hstatus₁
      unfold BlockingTask.toWake
      rcases hworker with hworker | hworker <;> simp [hworker₁, hworker, hstatus₁]
    rw [hnone s rfl hstatus] at hsame
    have hnew := hnone { s with
      wakeOnReady := i :: next
      calls := s.calls.set i (.join out (.returned .aborted)) } rfl hstatus
    rw [hnew, hset]
    by_cases hj : j = i
    · subst hj
      rw [hget] at hsame
      rw [if_pos rfl]
      exact hsame
    · rw [if_neg hj]
      exact hsame

theorem blockingLaw_abort {i : Nat} {stage : HandleAbortStage} (h : BlockingLaw s)
    (hget : s.calls[i]? = some (.abort stage)) (hkeeps : KeepsOrder s (.call i))
    (hok : handleAbortStep s i stage = .ok s') : BlockingLaw s' := by
  cases stage with
  | called =>
    simp only [handleAbortStep] at hok
    split at hok
    · cases hok
      exact h.move hget _ rfl rfl trivial
    all_goals
      cases hok
      exact h.move hget _ rfl rfl trivial
  | suspended =>
    cases hok
    simp only [KeepsOrder, hget] at hkeeps
    exact (h.abort hkeeps).move hget _ rfl rfl trivial
  | returned => cases hok

theorem blockingLaw_join {i : Nat} {out : Bool} {stage : HandleJoinStage} (h : BlockingLaw s)
    (hget : s.calls[i]? = some (.join out stage)) (hkeeps : KeepsOrder s (.call i))
    (hok : handleJoinStep s i out stage = .ok s') : BlockingLaw s' := by
  cases stage with
  | called =>
    unfold handleJoinStep at hok
    cases hstatus : s.status with
    | suspended =>
      simp only [hstatus] at hok
      cases hok
      have hmoved := h.move hget (.join out (.found .suspended)) rfl rfl
        (Or.inl ⟨rfl, by simp [hstatus]⟩)
      rw [hstatus] at hmoved
      exact hmoved
    | scheduled =>
      -- a blocking task is never scheduled
      have hphase := h.phase
      unfold BlockingTask.Phase at hphase
      split at hphase <;> simp [hstatus] at hphase
    | aborted =>
      simp only [hstatus] at hok
      cases hok
      exact h.serve hget (by simp [hstatus]) rfl (Or.inr ⟨rfl, hstatus⟩) (by simp [hstatus])
    | finished =>
      simp only [hstatus] at hok
      cases hok
      exact h.serve hget (by simp [hstatus]) rfl (Or.inr (Or.inr ⟨rfl, hstatus⟩))
        fun _ hout hhas => by rw [hout, hhas, Bool.and_self]
  | found status =>
    cases hok
    have hfits := h.calls _ (List.mem_of_getElem? hget)
    refine h.move hget (.join out (.linking status s.wakeOnReady)) ?_ rfl hfits
    cases status <;> rfl
  | linking status next =>
    cases hok
    refine h.link hget ?_
    intro hstatus
    subst hstatus
    simpa only [KeepsOrder, hget] using hkeeps
  | returned status => cases hok

/-! ## Steps of the worker -/

/-- The test of the status. -/
theorem blockingLaw_test (h : BlockingLaw s) (hworker : s.worker = .queued)
    (hok : blockingWorkerRun s = .ok s') : BlockingLaw s' := by
  simp only [blockingWorkerRun, hworker] at hok
  have hphase := h.phase
  unfold BlockingTask.Phase at hphase
  simp only [hworker] at hphase
  obtain ⟨hstatus, hbegan, hhandled⟩ := hphase
  have hold : s.toWake = if s.status = .aborted then [] else s.wakeOnReady := by
    simp only [BlockingTask.toWake, hworker]
  split at hok
  · rename_i hnot
    cases hok
    have hsuspended := hstatus.resolve_right hnot
    refine ⟨⟨hsuspended, ?_, ?_⟩, h.calls, ?_, ?_, ?_⟩
    · show (s.events ++ [_]).count _ = 1
      rw [List.count_append, hbegan, List.count_singleton_self]
    · rw [← hhandled]
      exact handled_append rfl (by simp)
    · intro i
      have hserved := h.served i
      rw [hold] at hserved
      show (s.events ++ [_]).count _ + (if s.status = .aborted then [] else s.wakeOnReady).count i = _
      rw [List.count_append]
      simpa using hserved
    · intro hs i hmem
      have hmem' : .woken i ∈ s.events ++ [.began] := hmem
      exact h.quiet hs i (by simpa using hmem')
    · intro v hv
      have hsame : BlockingTask.handled { s with
          worker := .running, events := s.events ++ [.began] } = s.handled :=
        handled_append rfl (by simp)
      rw [hsame, hhandled] at hv
      cases hv
  · rename_i haborted
    cases hok
    have haborted : s.status = .aborted := not_not.mp haborted
    refine ⟨Or.inl ⟨haborted, hbegan, hhandled⟩, h.calls, ?_, h.quiet, h.after⟩
    intro i
    have hserved := h.served i
    rw [hold, if_pos haborted] at hserved
    exact hserved

/-- The handler returns. -/
theorem blockingLaw_handled (h : BlockingLaw s) (hworker : s.worker = .running) :
    BlockingLaw { s with
      worker := .returned
      output := if s.hasOut then some v else none
      events := s.events ++ [.handled v] } := by
  have hphase := h.phase
  unfold BlockingTask.Phase at hphase
  simp only [hworker] at hphase
  obtain ⟨hstatus, hbegan, hhandled⟩ := hphase
  have hold : s.toWake = if s.status = .aborted then [] else s.wakeOnReady := by
    simp only [BlockingTask.toWake, hworker]
  have hquiet : ∀ i, .woken i ∉ s.events ++ [.handled v] := by
    intro i hmem
    exact h.quiet hstatus i (by simpa using hmem)
  refine ⟨⟨hstatus, ?_, v, ?_, fun hout => if_pos hout⟩, h.calls, ?_, fun _ => hquiet,
    ?_⟩
  · show (s.events ++ [_]).count _ = 1
    rw [List.count_append, hbegan]
    rfl
  · show (s.events ++ [_]).filterMap _ = _
    have hnone : s.events.filterMap BlockingTaskEvent.handled? = [] := hhandled
    rw [List.filterMap_append, hnone]
    rfl
  · intro i
    have hserved := h.served i
    rw [hold] at hserved
    show (s.events ++ [_]).count _ + (if s.status = .aborted then [] else s.wakeOnReady).count i = _
    rw [List.count_append]
    simpa using hserved
  · intro w _ e₁ i e₂ heq
    have heq' : s.events ++ [.handled v] = e₁ ++ .woken i :: e₂ := heq
    exact absurd (by simp [heq'] : .woken i ∈ s.events ++ [.handled v]) (hquiet i)

/-- The status is set to finished. -/
theorem blockingLaw_finish (h : BlockingLaw s) (hworker : s.worker = .returned) :
    BlockingLaw { s with status := .finished, worker := .finished } := by
  have hphase := h.phase
  unfold BlockingTask.Phase at hphase
  simp only [hworker] at hphase
  obtain ⟨hstatus, hused⟩ := hphase
  refine ⟨⟨rfl, hused⟩, ?_, ?_, nofun, h.after⟩
  · intro c hc
    have hfits := h.calls c hc
    rw [hstatus] at hfits
    cases c with
    | abort => trivial
    | join out stage =>
      cases stage with
      | called => trivial
      | found st | linking st next | returned st =>
        simp [HandleCall.Fits] at hfits ⊢
        simp [hfits]
  · intro i
    have hserved := h.served i
    have hold : s.toWake = s.wakeOnReady := by
      simp [BlockingTask.toWake, hworker, hstatus]
    rw [hold] at hserved
    exact hserved

/-- A turn of the walk. -/
theorem blockingLaw_walk {i : Nat} {nodes : List Nat} (h : BlockingLaw s)
    (hworker : s.worker = .walking (i :: nodes)) :
    BlockingLaw { wakeJoin s i (nodeOut s i) with worker := .walking nodes } := by
  have hphase := h.phase
  unfold BlockingTask.Phase at hphase
  simp only [hworker] at hphase
  obtain ⟨hstatus, hbegan, w, hhandled, houtput⟩ := hphase
  have hevents : (wakeJoin s i (nodeOut s i)).events =
      s.events ++ wakeJoinEvents s i (nodeOut s i) := List.append_assoc _ _ _
  have hquiet : ∀ e ∈ wakeJoinEvents s i (nodeOut s i), e ≠ .began ∧ ∀ v, e ≠ .handled v := by
    intro e he
    rcases wakeJoinEvents_mem he with ⟨rfl, -⟩ | rfl <;> simp
  have hsame : (wakeJoin s i (nodeOut s i)).handled = s.handled :=
    handled_append hevents fun v he => (hquiet _ he).2 v rfl
  refine ⟨⟨hstatus, ?_, w, hsame.trans hhandled, houtput⟩, h.calls, ?_,
    fun hs => absurd (hs.symm.trans hstatus) (by simp),
    h.after_wake (by simp [hstatus]) hevents rfl (fun _ => rfl) fun _ hout _ => hout⟩
  · show (wakeJoin s i (nodeOut s i)).events.count _ = 1
    rw [hevents, List.count_append, hbegan,
      List.count_eq_zero.mpr fun he => (hquiet _ he).1 rfl]
  · intro j
    have hserved := h.served j
    have hold : s.toWake = i :: nodes := by simp only [BlockingTask.toWake, hworker]
    rw [hold, List.count_cons] at hserved
    show (wakeJoin s i (nodeOut s i)).events.count _ + nodes.count j = _
    rw [hevents, List.count_append, count_wakeJoinEvents]
    by_cases hj : j = i
    · subst hj
      simp only [beq_self_eq_true, if_true] at hserved ⊢
      refine Eq.trans ?_ hserved
      omega
    · have hne : (i == j) = false := beq_eq_false_iff_ne.mpr (Ne.symm hj)
      rw [hne] at hserved
      rw [if_neg hj]
      exact hserved

theorem blockingLaw_worker (h : BlockingLaw s) (hok : blockingWorkerRun s = .ok s') :
    BlockingLaw s' := by
  cases hworker : s.worker with
  | queued => exact blockingLaw_test h hworker hok
  | running =>
    simp only [blockingWorkerRun, hworker] at hok
    cases hok
  | returned =>
    simp only [blockingWorkerRun, hworker] at hok
    cases hok
    exact blockingLaw_finish h hworker
  | finished =>
    simp only [blockingWorkerRun, hworker] at hok
    cases hok
    have hphase := h.phase
    unfold BlockingTask.Phase at hphase
    simp only [hworker] at hphase
    refine ⟨hphase, h.calls, ?_, h.quiet, h.after⟩
    intro i
    have hserved := h.served i
    have hold : s.toWake = s.wakeOnReady := by
      simp [BlockingTask.toWake, hworker, hphase.1]
    rw [hold] at hserved
    exact hserved
  | walking nodes =>
    cases nodes with
    | cons i nodes =>
      simp only [blockingWorkerRun, hworker] at hok
      cases hok
      exact blockingLaw_walk h hworker
    | nil =>
      simp only [blockingWorkerRun, hworker] at hok
      cases hok
      have hphase := h.phase
      unfold BlockingTask.Phase at hphase
      simp only [hworker] at hphase
      refine ⟨Or.inr hphase, h.calls, ?_, h.quiet, h.after⟩
      intro i
      have hserved := h.served i
      have hold : s.toWake = [] := by simp only [BlockingTask.toWake, hworker]
      rw [hold] at hserved
      exact hserved
  | done =>
    simp only [blockingWorkerRun, hworker] at hok
    cases hok

/-! ## Runs -/

theorem blockingLaw_step (h : BlockingLaw s) (hkeeps : KeepsOrder s o)
    (hok : blockingTaskStep s o = .ok s') : BlockingLaw s' := by
  cases o with
  | abort =>
    cases hok
    exact h.call rfl trivial
  | join out =>
    cases hok
    exact h.call rfl trivial
  | call i =>
    simp only [blockingTaskStep] at hok
    cases hget : s.calls[i]? with
    | none =>
      rw [hget] at hok
      cases hok
    | some c =>
      rw [hget] at hok
      cases c with
      | abort stage => exact blockingLaw_abort h hget hkeeps hok
      | join out stage => exact blockingLaw_join h hget hkeeps hok
  | worker => exact blockingLaw_worker h hok
  | handled v =>
    simp only [blockingTaskStep] at hok
    split at hok
    · rename_i hworker
      cases hok
      exact blockingLaw_handled h hworker
    · cases hok

theorem blockingLaw_init (hasOut : Bool) : BlockingLaw (blockingTask hasOut) :=
  ⟨⟨Or.inl rfl, rfl, rfl⟩, nofun, fun _ => rfl, fun _ _ => List.not_mem_nil, nofun⟩

/-- When the worker is done and no call is open, each joiner was woken once. -/
theorem BlockingLaw.wakesOnce (h : BlockingLaw s) (hsettled : s.Settled) : s.WakesOnce := by
  intro i out stage hget
  obtain ⟨hworker, hreturned⟩ := hsettled
  have hserved := h.served i
  have hold : s.toWake = [] := by simp only [BlockingTask.toWake, hworker]
  have hstage := hreturned _ (List.mem_of_getElem? hget)
  cases stage with
  | returned status =>
    rw [hold, hget] at hserved
    exact hserved
  | _ => cases hstage

/--
**Run or aborted, never both.** In a run in which each abort is in time for the worker's test and for
the joins so far, and each node is linked to the list that was read before the worker reads it, a
task whose handler has begun does not read as aborted. When the worker is done and all calls have
returned, the task was aborted and never ran, or it ran to its end, and each joiner was woken once.
-/
theorem blocking_runs_or_aborts {hasOut : Bool} {os : List BlockingTaskOp}
    (hrun : Lib.run blockingTaskStep (blockingTask hasOut) os = .ok s)
    (hkeeps : Lib.Along blockingTaskStep KeepsOrder (blockingTask hasOut) os) :
    (.began ∈ s.events → s.status ≠ .aborted) ∧ (s.Settled → s.NeverRan ∨ s.Ran) := by
  have h : BlockingLaw s := Lib.run_invariant (I := BlockingLaw)
    (fun s o s' h hkeeps hok => blockingLaw_step h hkeeps hok) (blockingLaw_init hasOut) hkeeps hrun
  constructor
  · intro hbegan haborted
    have hunused := (h.phase.unused haborted).1.1
    exact absurd hbegan (List.count_eq_zero.mp hunused)
  · intro hsettled
    have hphase := h.phase
    unfold BlockingTask.Phase at hphase
    simp only [hsettled.1] at hphase
    rcases hphase with ⟨hstatus, hbegan, -⟩ | ⟨hstatus, hbegan, v, hhandled, -⟩
    · exact Or.inl ⟨hstatus, List.count_eq_zero.mp hbegan, h.wakesOnce hsettled⟩
    · exact Or.inr ⟨hstatus, hbegan, h.wakesOnce hsettled, v, hhandled, h.after v hhandled⟩

/-- A join in time for the walk, and an abort that is too late. -/
theorem blocking_runs_or_aborts_run : ∃ s, Lib.run blockingTaskStep (blockingTask true)
      [.join true, .call 0, .worker, .call 0, .handled 7, .call 0, .worker, .abort, .call 1,
        .worker, .worker, .worker] = .ok s ∧
    (s.NeverRan ∨ s.Ran) := by
  obtain ⟨s, hrun, hworker, hcalls⟩ : ∃ s, Lib.run blockingTaskStep (blockingTask true)
      [.join true, .call 0, .worker, .call 0, .handled 7, .call 0, .worker, .abort, .call 1,
        .worker, .worker, .worker] = .ok s ∧
      s.worker = .done ∧ ∀ c ∈ s.calls, c.isReturned = true := Lib.exists_ok_of_decide (by decide)
  exact ⟨s, hrun, (blocking_runs_or_aborts hrun (by decide)).2 ⟨hworker, hcalls⟩⟩

/-- An abort while the handler runs, and the joiner of a task that is aborted afterwards. -/
theorem blocking_aborted_running :
    (∃ s, Lib.run blockingTaskStep (blockingTask true) [.worker, .abort, .call 0, .call 0] = .ok s ∧
        .began ∈ s.events ∧ s.status = .aborted) ∧
      ∃ s, Lib.run blockingTaskStep (blockingTask true)
          [.join true, .call 0, .call 0, .call 0, .abort, .call 1, .call 1, .worker] = .ok s ∧
        s.Settled ∧ .woken 0 ∉ s.events ∧ ¬ (s.NeverRan ∨ s.Ran) := by
  refine ⟨Lib.exists_ok_of_decide (by decide), ?_⟩
  obtain ⟨s, hrun, hworker, hcalls, hget, hwoken⟩ : ∃ s,
      Lib.run blockingTaskStep (blockingTask true)
        [.join true, .call 0, .call 0, .call 0, .abort, .call 1, .call 1, .worker] = .ok s ∧
      s.worker = .done ∧ (∀ c ∈ s.calls, c.isReturned = true) ∧
      s.calls[0]? = some (.join true (.returned .suspended)) ∧ .woken 0 ∉ s.events :=
    Lib.exists_ok_of_decide (by decide)
  refine ⟨s, hrun, ⟨hworker, hcalls⟩, hwoken, ?_⟩
  have hnone : ¬ s.WakesOnce := by
    intro honce
    have hcount := honce 0 true _ hget
    rw [List.count_eq_zero.mpr hwoken] at hcount
    cases hcount
  rintro (hnever | hran)
  · exact hnone hnever.woken
  · exact hnone hran.woken

end Taskio
