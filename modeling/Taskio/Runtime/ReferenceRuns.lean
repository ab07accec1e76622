import Taskio.Runtime.Progress

/-!
# The references along a run

* `TaskReferences` — the counters are right, each task is cleaned up, let go and freed once, and
  `worker_run` reaches no task that it has let go
* `task_references_iff` — the runs that keep this are those whose steps meet `KeepsReferences`
* `worker_stopped_iff` — in such a run the worker of a `taskio_runtime_block_on` stops when its task is
  gone
-/

namespace Taskio

variable {s s' : Scheduler} {l l' : List Nat} {t : Nat} {o : SchedulerOp}

/-! ## What is promised -/

/-- The task whose future was cleaned up, and which is let go next. -/
def Control.ending : Control → Option Nat
  | .cleaning t _ | .waking t _ => some t
  | .stopped | .waiting | .draining | .polling _ => none

/-- The counter of a task is the number of its handles, and one more until the runtime lets it go. It is
let go once and freed once, with its last reference. -/
structure RefsCounted (s : Scheduler) : Prop where
  counter : ∀ t c handles, s.refs t = some (c, handles) →
    0 < c ∧ c + s.events.count (.released t) = handles + 1
  freed : ∀ t, s.events.count (.freed t) = if t < s.nextTask ∧ s.refs t = none then 1 else 0
  released : ∀ t, s.events.count (.released t) ≤ if t < s.nextTask then 1 else 0
  gone : ∀ t < s.nextTask, s.refs t = none → s.events.count (.released t) = 1

/-- The counters are right, a future is cleaned up once, right before its task is let go, and neither
the queue nor `worker_run` knows a task that was let go. -/
structure TaskReferences (s : Scheduler) : Prop extends RefsCounted s where
  shape : QueueShape s
  cleanedUp : ∀ t, s.events.count (.cleanedUp t) =
    s.events.count (.released t) + if s.control.ending = some t then 1 else 0
  reached : ∀ t, s.Linked t ∨ s.control.task = some t → s.events.count (.released t) = 0

/-- The program uses handles that it has, and does not clone one too often. A waker is called only of a
task that the runtime has not let go, and that can be linked; and a task is not linked when it is let
go. -/
structure KeepsReferences (s : Scheduler) (o : SchedulerOp) : Prop where
  handle : ∀ t, o.handle = some t → s.refs t ≠ none
  clone : ∀ t c handles, o = .clone t → s.refs t = some (c, handles) → c ≠ 2 ^ 64 - 1
  wakes : ∀ x, s.Wakes o x →
    x < s.nextTask ∧ s.events.count (.released x) = 0 ∧ s.Enqueueable x
  release : ∀ t, o = .release → s.control = .waking t [] → ¬ s.Linked t

/-! ## One step -/

theorem TurnStep.released_same (h : TurnStep s s' o) (ho : o ≠ .release) (x : Nat) :
    s'.events.count (.released x) = s.events.count (.released x) := by
  rw [count_turns rfl, count_turns rfl]
  cases h with
  | idle _ _ hturns => rw [hturns]
  | cleaning _ _ _ hturns => simp [hturns]
  | polling _ _ _ _ _ hturns => simp [hturns]
  | ready _ _ hturns => simp [hturns]
  | finish _ _ hturns => rw [hturns]
  | release => exact absurd rfl ho

theorem TurnStep.released_one (h : TurnStep s s' .release) (hcontrol : s.control = .waking t [])
    (x : Nat) : s'.events.count (.released x) =
      s.events.count (.released x) + if x = t then 1 else 0 := by
  rw [count_turns rfl, count_turns rfl]
  cases h with
  | idle ho => exact absurd rfl ho.2
  | @release t' hcontrol' _ hturns =>
    rw [hcontrol] at hcontrol'
    cases hcontrol'
    rw [hturns, List.count_append, List.count_singleton]
    congr 1
    by_cases hx : x = t
    · simp [hx]
    · simp [hx, Ne.symm hx]

/-- The counters after the reference count of one task has changed. -/
theorem RefsCounted.update (hs : RefsCounted s) {r : Option (Nat × Nat)}
    (hrefs : s'.refs = Function.update s.refs t r) (ht : t < s'.nextTask)
    (hnext : ∀ x, x ≠ t → (x < s'.nextTask ↔ x < s.nextTask))
    (hreleased : ∀ x, x ≠ t → s'.events.count (.released x) = s.events.count (.released x))
    (hfreed : ∀ x, x ≠ t → s'.events.count (.freed x) = s.events.count (.freed x))
    (hone : s'.events.count (.released t) ≤ 1)
    (hsome : ∀ c handles, r = some (c, handles) → 0 < c ∧
      c + s'.events.count (.released t) = handles + 1 ∧ s'.events.count (.freed t) = 0)
    (hnone : r = none → s'.events.count (.released t) = 1 ∧ s'.events.count (.freed t) = 1) :
    RefsCounted s' := by
  have hself : s'.refs t = r := by rw [hrefs, Function.update_self]
  have hother : ∀ x, x ≠ t → s'.refs x = s.refs x := fun x hx => by
    rw [hrefs, Function.update_of_ne hx]
  constructor
  · intro x c handles hx
    by_cases hxt : x = t
    · subst hxt
      obtain ⟨hpos, hsum, -⟩ := hsome c handles (hself.symm.trans hx)
      exact ⟨hpos, hsum⟩
    · rw [hreleased x hxt]
      exact hs.counter x c handles ((hother x hxt).symm.trans hx)
  · intro x
    by_cases hxt : x = t
    · subst hxt
      rw [hself]
      cases hr : r with
      | none => rw [if_pos ⟨ht, rfl⟩, (hnone hr).2]
      | some p => rw [if_neg (by simp), (hsome p.1 p.2 hr).2.2]
    · rw [hfreed x hxt, hother x hxt, hs.freed x]
      exact if_congr (and_congr_left' (hnext x hxt).symm) rfl rfl
  · intro x
    by_cases hxt : x = t
    · subst hxt
      rwa [if_pos ht]
    · rw [hreleased x hxt]
      exact Nat.le_trans (hs.released x) (Nat.le_of_eq (if_congr (hnext x hxt).symm rfl rfl))
  · intro x hx hgone
    by_cases hxt : x = t
    · subst hxt
      exact (hnone (hself.symm.trans hgone)).1
    · rw [hreleased x hxt]
      exact hs.gone x ((hnext x hxt).mp hx) ((hother x hxt).symm.trans hgone)

theorem RefsCounted.same (hs : RefsCounted s) (h : SameRefs s s')
    (hreleased : ∀ x, s'.events.count (.released x) = s.events.count (.released x)) :
    RefsCounted s' := by
  constructor
  · intro x c handles hx
    rw [h.refs] at hx
    rw [hreleased]
    exact hs.counter x c handles hx
  · intro x
    rw [count_frees, h.frees, ← count_frees, h.refs, h.nextTask]
    exact hs.freed x
  · intro x
    rw [hreleased, h.nextTask]
    exact hs.released x
  · intro x hx hgone
    rw [h.nextTask] at hx
    rw [h.refs] at hgone
    rw [hreleased]
    exact hs.gone x hx hgone

theorem RefsCounted.lt (hs : RefsCounted s) (hfresh : ∀ t, s.nextTask ≤ t → s.refs t = none)
    {p : Nat × Nat} (ht : s.refs t = some p) :
    t < s.nextTask ∧ s.events.count (.released t) ≤ 1 ∧ s.events.count (.freed t) = 0 := by
  have hlt : t < s.nextTask := by
    by_contra hge
    rw [hfresh t (Nat.le_of_not_lt hge)] at ht
    cases ht
  have hreleased := hs.released t
  rw [if_pos hlt] at hreleased
  refine ⟨hlt, hreleased, ?_⟩
  rw [hs.freed t, if_neg (by simp [ht])]

/-- A reference is dropped: of the program if `d` is 0, and else of the runtime. -/
theorem RefsCounted.dropped (hs : RefsCounted s) {c handles d : Nat} (h : Dropped s s' t c handles)
    (hlt : t < s.nextTask) (hpos : 0 < c) (hfreed : s.events.count (.freed t) = 0)
    (hreleased : ∀ x, s'.events.count (.released x) =
      s.events.count (.released x) + if x = t then d else 0)
    (hone : s.events.count (.released t) + d ≤ 1)
    (hsum : c + s.events.count (.released t) + d = handles + 2) : RefsCounted s' := by
  have hself : s'.events.count (.released t) = s.events.count (.released t) + d := by
    rw [hreleased, if_pos rfl]
  have hfrees : ∀ x, s'.events.count (.freed x) =
      s.events.count (.freed x) + if c = 1 ∧ x = t then 1 else 0 := by
    intro x
    rw [count_frees, count_frees, h.frees]
    by_cases hc : c = 1
    · rw [if_pos hc, List.count_append, List.count_singleton]
      by_cases hx : x = t
      · simp [hc, hx]
      · simp [hx, Ne.symm hx]
    · rw [if_neg hc, if_neg fun hboth => hc hboth.1, Nat.add_zero]
  refine hs.update h.refs (h.nextTask ▸ hlt) (fun x _ => by rw [h.nextTask]) ?_ ?_ (by omega) ?_ ?_
  · intro x hx
    rw [hreleased, if_neg hx, Nat.add_zero]
  · intro x hx
    rw [hfrees, if_neg fun hboth => hx hboth.2, Nat.add_zero]
  · intro c' handles' hr
    by_cases hc : c = 1
    · rw [if_pos hc] at hr
      cases hr
    · rw [if_neg hc] at hr
      cases hr
      rw [hself, hfrees, if_neg fun hboth => hc hboth.1, hfreed, sizeDec_of_pos hpos]
      omega
  · intro hr
    by_cases hc : c = 1
    · rw [hself, hfrees, if_pos ⟨hc, rfl⟩, hfreed]
      omega
    · rw [if_neg hc] at hr
      cases hr

/-- A task is spawned, with these handles and the runtime's reference. -/
theorem RefsCounted.spawned (hs : RefsCounted s) {handles : Nat}
    (hrefs : s'.refs = Function.update s.refs s.nextTask (some (handles + 1, handles)))
    (hfrees : s'.frees = s.frees) (hnext : s'.nextTask = s.nextTask + 1)
    (hsame : ∀ x, s'.events.count (.released x) = s.events.count (.released x)) : RefsCounted s' := by
  have hreleased := hs.released s.nextTask
  rw [if_neg (Nat.lt_irrefl _)] at hreleased
  have hfreed : ∀ x, s'.events.count (.freed x) = s.events.count (.freed x) := fun x => by
    rw [count_frees, hfrees, ← count_frees]
  refine hs.update hrefs (by omega) (fun x hx => by omega) (fun x _ => hsame x)
    (fun x _ => hfreed x) (by rw [hsame]; omega) ?_ (by rintro ⟨⟩)
  rintro c handles' ⟨⟩
  rw [hsame, hfreed, hs.freed, if_neg fun hboth => Nat.lt_irrefl _ hboth.1]
  omega

/-- The counters after a step. -/
theorem RefStep.counted (h : RefStep s s' o) (hturn : TurnStep s s' o) (hs : RefsCounted s)
    (hfresh : ∀ t, s.nextTask ≤ t → s.refs t = none)
    (hclone : ∀ t c handles, o = .clone t → s.refs t = some (c, handles) → c ≠ 2 ^ 64 - 1)
    (hheld : ∀ t, o = .release → s.control = .waking t [] → s.events.count (.released t) = 0) :
    RefsCounted s' := by
  have hsame := hturn.released_same
  cases h with
  | same ho hrefs => exact hs.same hrefs (hsame ho)
  | spawn hrefs hfrees hnext => exact hs.spawned hrefs hfrees hnext (hsame (by simp))
  | blockOn hrefs hfrees hnext => exact hs.spawned hrefs hfrees hnext (hsame (by simp))
  | @clone t c handles ht hrefs hfrees hnext =>
    obtain ⟨hlt, hone, hzero⟩ := hs.lt hfresh ht
    obtain ⟨hpos, hsum⟩ := hs.counter t c _ ht
    have hfreed : ∀ x, s'.events.count (.freed x) = s.events.count (.freed x) := fun x => by
      rw [count_frees, hfrees, ← count_frees]
    refine hs.update hrefs (by omega) (fun x _ => by rw [hnext]) (fun x _ => hsame (by simp) x)
      (fun x _ => hfreed x) (by rw [hsame (by simp)]; exact hone) ?_ (by rintro ⟨⟩)
    rintro c' handles' ⟨⟩
    rw [hsame (by simp), hfreed, hzero, sizeInc, if_neg (hclone t c _ rfl ht)]
    omega
  | @drop t c handles ht hdrop =>
    obtain ⟨hlt, hone, hzero⟩ := hs.lt hfresh ht
    obtain ⟨hpos, hsum⟩ := hs.counter t c _ ht
    refine hs.dropped (d := 0) hdrop hlt hpos hzero ?_ (by omega) (by omega)
    intro x
    rw [hsame (by simp), ite_self, Nat.add_zero]
  | @release t c handles hcontrol ht hdrop =>
    obtain ⟨hlt, hone, hzero⟩ := hs.lt hfresh ht
    obtain ⟨hpos, hsum⟩ := hs.counter t c _ ht
    have hnone := hheld t rfl hcontrol
    exact hs.dropped (d := 1) hdrop hlt hpos hzero (hturn.released_one hcontrol) (by omega) (by omega)

theorem ending_of_task {c : Control} (h : c.task = none) : c.ending = none := by
  cases c with
  | stopped | waiting | draining => rfl
  | polling t | cleaning t ready | waking t nodes => cases h

theorem Control.Passes.ending {c c' : Control} (h : c.Passes c') : c'.ending = c.ending := by
  cases h with
  | same | pending | aborted | joiner => rfl
  | idle h h' => rw [ending_of_task h, ending_of_task h']

/-- A future is cleaned up when its task begins to end, and the task let go when that is over. -/
theorem TurnStep.cleanedUp (h : TurnStep s s' o) (x : Nat)
    (hs : s.events.count (.cleanedUp x) =
      s.events.count (.released x) + if s.control.ending = some x then 1 else 0) :
    s'.events.count (.cleanedUp x) =
      s'.events.count (.released x) + if s'.control.ending = some x then 1 else 0 := by
  simp only [count_turns (e := .cleanedUp x) rfl, count_turns (e := .released x) rfl] at hs ⊢
  cases h with
  | idle _ hcontrol hturns => rw [hturns, hcontrol.ending, hs]
  | @cleaning t _ hcontrol hcontrol' hturns =>
    rw [hcontrol] at hs
    rw [hturns, hcontrol']
    simp [Control.ending, List.count_singleton] at hs ⊢
    omega
  | polling _ _ _ hcontrol hcontrol' hturns =>
    rw [hcontrol] at hs
    rw [hturns, hcontrol']
    simpa [Control.ending] using hs
  | ready hcontrol hcontrol' hturns =>
    rw [hcontrol] at hs
    rw [hturns, hcontrol']
    simp [Control.ending, List.count_singleton] at hs ⊢
    omega
  | finish hcontrol hcontrol' hturns =>
    rw [hcontrol] at hs
    rw [hturns, hcontrol']
    exact hs
  | release hcontrol hcontrol' hturns =>
    rw [hcontrol] at hs
    rw [hturns, hcontrol']
    simp [Control.ending, List.count_singleton] at hs ⊢
    omega

/-- The task that `worker_run` lets go next, whatever becomes of it meanwhile. -/
def Control.leaving : Control → Option Nat
  | .cleaning t false | .waking t _ => some t
  | .stopped | .waiting | .draining | .polling _ | .cleaning _ true => none

/-- A suspended task has not been let go, and is not about to be. -/
def SuspendedHeld (s : Scheduler) : Prop :=
  ∀ t next, s.view t = some (.suspended, next) →
    s.events.count (.released t) = 0 ∧ s.control.leaving ≠ some t

theorem leaving_of_task {c : Control} (h : c.task = none) : c.leaving = none := by
  cases c with
  | stopped | waiting | draining => rfl
  | polling t | cleaning t ready | waking t nodes => cases h

theorem Control.Passes.leaving {c c' : Control} (h : c.Passes c') : c'.leaving = c.leaving := by
  cases h with
  | same | pending | aborted | joiner => rfl
  | idle h h' => rw [leaving_of_task h, leaving_of_task h']

theorem Enqueued.suspended (h : Enqueued s s' t) {x : Nat} {next : Option Nat}
    (hx : s'.view x = some (.suspended, next)) :
    x ≠ t ∧ ∃ next, s.view x = some (.suspended, next) := by
  rw [h.view] at hx
  obtain ⟨v, hv, heq⟩ := Option.map_eq_some_iff.mp hx
  obtain ⟨hstatus, -⟩ := Prod.mk.inj heq
  by_cases hxt : x = t
  · rw [if_pos hxt] at hstatus
    cases hstatus
  · rw [if_neg hxt] at hstatus
    exact ⟨hxt, v.2, by rw [hv, ← hstatus]⟩

/-- The other tasks are as they were. -/
theorem Rewritten.suspended {v : Option (TaskStatus × Option Nat)} (h : Rewritten s s' t v) {x : Nat}
    {next : Option Nat} (hv : ∀ w, v = some w → w.1 ≠ .suspended)
    (hx : s'.view x = some (.suspended, next)) : x ≠ t ∧ s.view x = some (.suspended, next) := by
  have hxt : x ≠ t := by
    rintro rfl
    rw [h.view_self] at hx
    exact hv _ hx rfl
  exact ⟨hxt, by rwa [h.view_of_ne hxt] at hx⟩

theorem SchedulerEffect.suspendedHeld (h : SchedulerEffect s s' o) (hs : SuspendedHeld s)
    (hhead : ∀ t, s.pollHead = some t → s.events.count (.released t) = 0) : SuspendedHeld s' := by
  have hturn := h.turn
  have hsame := hturn.released_same
  -- a step that leaves no task suspended that was not
  have hkeep : o ≠ .release → s'.control.leaving = s.control.leaving →
      (∀ x next, s'.view x = some (.suspended, next) → ∃ next, s.view x = some (.suspended, next)) →
      SuspendedHeld s' := by
    intro ho hcontrol hview x next hx
    obtain ⟨next', hx'⟩ := hview x next hx
    rw [hsame ho, hcontrol]
    exact hs x next' hx'
  cases h with
  | quiet ho hsameq hcontrol =>
    exact hkeep ho.2 hcontrol.leaving fun x next hx => ⟨next, by rwa [hsameq.view] at hx⟩
  | @spawn _ t s₁ ho _ _ hspawned henq hcontrol =>
    refine hkeep ho.2 hcontrol.leaving ?_
    intro x next hx
    obtain ⟨hxt, next', hx⟩ := henq.suspended hx
    rw [hspawned.view, Function.update_of_ne hxt] at hx
    exact ⟨next', hx⟩
  | @enqueue _ x _ _ _ hwakes _ henq hcontrol =>
    refine hkeep ?_ hcontrol.leaving fun y next hy => (henq.suspended hy).2
    rintro rfl
    exact (hwakes x).mpr rfl
  | abortSuspended _ henq hcontrol =>
    exact hkeep (by simp) (by rw [hcontrol]) fun y next hy => (henq.suspended hy).2
  | abortMark _ _ hmark hcontrol =>
    refine hkeep (by simp) (by rw [hcontrol]) ?_
    intro y next hy
    exact ⟨next, (hmark.suspended (by rintro w ⟨⟩; simp) hy).2⟩
  | free _ hfree hcontrol =>
    exact hkeep (by simp) (by rw [hcontrol]) fun y next hy => ⟨next, (hfree.suspended (by simp) hy).2⟩
  | @takeAborted t next hcontrol hview hdeq hcontrol' =>
    intro x next' hx
    rw [hsame (by simp), hcontrol']
    have hxt : x ≠ t := by
      rintro rfl
      rw [hdeq.view, Function.update_self] at hx
      cases hx
    rw [hdeq.view, Function.update_of_ne hxt] at hx
    exact ⟨(hs x next' hx).1, fun heq => hxt (Option.some.inj heq).symm⟩
  | @takePolled t v hcontrol hview hstatus hdeq hcontrol' =>
    intro x next hx
    rw [hsame (by simp), hcontrol']
    refine ⟨?_, by simp [Control.leaving]⟩
    by_cases hxt : x = t
    · rw [hxt]
      exact hhead t hdeq.was.1
    · rw [hdeq.view, Function.update_of_ne hxt] at hx
      exact (hs x next hx).1
  | ready _ hsameq hcontrol' =>
    intro x next hx
    rw [hsameq.view] at hx
    rw [hsame (by simp), hcontrol']
    exact ⟨(hs x next hx).1, by simp [Control.leaving]⟩
  | @finish t v nodes _ _ hmark hcontrol' =>
    intro x next hx
    obtain ⟨hxt, hx⟩ := hmark.suspended (by rintro w ⟨⟩; simp) hx
    rw [hsame (by simp), hcontrol']
    exact ⟨(hs x next hx).1, fun heq => hxt (Option.some.inj heq).symm⟩
  | @release t hcontrol hdrop hcontrol' =>
    intro x next hx
    have hx : s.view x = some (.suspended, next) := by
      rcases hdrop with ⟨-, hsameq⟩ | ⟨-, hfree⟩
      · rwa [hsameq.view] at hx
      · exact (hfree.suspended (by simp) hx).2
    obtain ⟨hzero, hleaving⟩ := hs x next hx
    have hxt : x ≠ t := by
      rintro rfl
      exact hleaving (by rw [hcontrol]; rfl)
    rw [hturn.released_one hcontrol, if_neg hxt, hcontrol']
    exact ⟨hzero, by simp [Control.leaving]⟩

/-- The tasks in the queue and in the worker's turn after a step. -/
theorem SchedulerEffect.reached (h : SchedulerEffect s s' o) (hl : ReadyQueue l s)
    (hl' : ReadyQueue l' s')
    (hqueue : QueueStep s l o l') (hs : SuspendedHeld s)
    (hreached : ∀ t, s.Linked t ∨ s.control.task = some t → s.events.count (.released t) = 0)
    (hfresh : s.events.count (.released s.nextTask) = 0)
    (hwakes : ∀ x, s.Wakes o x → s.events.count (.released x) = 0)
    (hrelease : ∀ t, o = .release → s.control = .waking t [] → ¬ s.Linked t) (x : Nat) :
    s'.Linked x ∨ s'.control.task = some x → s'.events.count (.released x) = 0 := by
  have hturn := h.turn
  have hbefore : s'.Linked x ∨ s'.control.task = some x → s.events.count (.released x) = 0 := by
    rintro (hx | hx)
    · rw [hl'.linked_iff] at hx
      have hin : x ∈ l → s.events.count (.released x) = 0 := fun hx =>
        hreached x (Or.inl (hl.linked_iff.mpr hx))
      cases hqueue with
      | same => exact hin hx
      | @push _ y _ _ hy =>
        rcases List.mem_append.mp hx with hx | hx
        · exact hin hx
        · obtain rfl := List.mem_singleton.mp hx
          rcases hy with hy | rfl | ⟨-, next, hview⟩
          · exact hwakes x hy
          · exact hfresh
          · exact (hs x next hview).1
      | pop heq => exact hin (by rw [heq]; exact List.mem_cons_of_mem _ hx)
    · rcases hturn.task_cases with htask | htask | ⟨y, hy, htask⟩
      · exact hreached x (Or.inr (htask.symm.trans hx))
      · rw [htask] at hx
        cases hx
      · rw [htask] at hx
        cases hx
        exact hreached x (Or.inl (hl.linked_iff.mpr
          (List.mem_of_mem_head? (hl.queue.chain.head?_eq.trans hy))))
  intro hx
  by_cases ho : o = .release
  · subst ho
    cases h with
    | quiet ho => exact absurd rfl ho.2
    | spawn ho => exact absurd rfl ho.2
    | enqueue _ _ hwakes' => exact absurd ((hwakes' _).mpr rfl) id
    | @release t hcontrol hdrop hcontrol' =>
      rw [hturn.released_one hcontrol, hbefore hx, if_neg]
      rintro rfl
      rcases hx with hx | hx
      · -- it would have been linked when it was let go
        rw [hl'.linked_iff] at hx
        rcases hdrop with ⟨-, hsame⟩ | ⟨-, hfree⟩
        · have heq : l' = l := hl'.queue.chain.unique (hsame.readyQueue_iff.mpr hl).queue.chain
          exact hrelease x rfl hcontrol (hl.linked_iff.mpr (heq ▸ hx))
        · exact hl'.live x hx (view_eq_none.mp hfree.view_self)
      · rw [hcontrol'] at hx
        cases hx
  · rw [hturn.released_same ho]
    exact hbefore hx

/-- What is always true of the tasks that the queue does not know. -/
structure Held (s : Scheduler) : Prop where
  settled : Settled s
  suspended : SuspendedHeld s
  turn : ∀ t, s.control.task = some t → t < s.nextTask

theorem Held.fresh (h : Held s) (ht : s.nextTask ≤ t) : s.refs t = none :=
  refs_eq_none.mpr (view_eq_none.mp (h.settled.fresh t ht))

theorem TaskReferences.head (hs : TaskReferences s) (ht : s.pollHead = some t) :
    s.events.count (.released t) = 0 := by
  obtain ⟨l, hl⟩ := hs.shape
  exact hs.reached t (Or.inl (hl.linked_iff.mpr
    (List.mem_of_mem_head? (hl.queue.chain.head?_eq.trans ht))))

theorem TaskReferences.live (hs : TaskReferences s) (hlt : t < s.nextTask)
    (hzero : s.events.count (.released t) = 0) : s.tasks t ≠ none := by
  intro hnone
  have hone := hs.gone t hlt (refs_eq_none.mpr hnone)
  omega

/-- A task that the program drops the last reference to was let go, so it is not linked. -/
theorem TaskReferences.keepsQueue (hs : TaskReferences s) (hkeeps : KeepsReferences s o)
    (h : schedulerStep s o = .ok s') : KeepsQueue s o := by
  refine ⟨fun x hx => (hkeeps.wakes x hx).2.2, ?_⟩
  rintro x hx ⟨task, htask, hone⟩ hlinked
  cases schedulerStep_cases h with
  | @drop t hok =>
    obtain rfl : t = x := hx
    obtain ⟨c, handles, ht, -⟩ := handleDrop_dropped hok
    obtain ⟨-, hsum⟩ := hs.counter t c _ ht
    obtain ⟨hc, -⟩ := Prod.mk.inj (Option.some.inj ((refs_of_task htask).symm.trans ht))
    have hzero := hs.reached t (Or.inl hlinked)
    omega
  | @release t hcontrol hok =>
    have hx : t = x := by simpa only [Scheduler.Drops, hcontrol] using hx
    exact hkeeps.release t rfl hcontrol (hx ▸ hlinked)
  | spawn | blockOn | wake | abort | clone | join | event | take | ready | pending | cleaned | wakeJoiner
  | drained | leave => exact hx.elim

theorem TaskReferences.step (hs : TaskReferences s) (hheld : Held s) (hkeeps : KeepsReferences s o)
    (h : schedulerStep s o = .ok s') : TaskReferences s' ∧ Held s' := by
  have heffect := schedulerStep_effect h
  have hturn := heffect.turn
  obtain ⟨l, hl⟩ := hs.shape
  obtain ⟨l', hl', hqueue⟩ := heffect.queue hl hheld.settled (hs.keepsQueue hkeeps h)
  have hfresh : s.events.count (.released s.nextTask) = 0 := by
    have hreleased := hs.released s.nextTask
    rwa [if_neg (Nat.lt_irrefl _), Nat.le_zero] at hreleased
  have hcounted : RefsCounted s' := by
    refine (schedulerStep_refs h).counted hturn hs.toRefsCounted (fun t ht => hheld.fresh ht)
      hkeeps.clone ?_
    intro t _ hcontrol
    exact hs.reached t (Or.inr (by rw [hcontrol]; rfl))
  refine ⟨⟨hcounted, ⟨l', hl'⟩, fun x => hturn.cleanedUp x (hs.cleanedUp x), ?_⟩,
    heffect.settled hl hheld.settled, heffect.suspendedHeld hheld.suspended fun t ht => hs.head ht, ?_⟩
  · exact heffect.reached hl hl' hqueue hheld.suspended hs.reached hfresh
      (fun x hx => (hkeeps.wakes x hx).2.1) hkeeps.release
  · intro t ht
    refine Nat.lt_of_lt_of_le ?_ heffect.nextTask_le
    rcases hturn.task_cases with htask | htask | ⟨x, hx, htask⟩
    · exact hheld.turn t (htask.symm.trans ht)
    · rw [htask] at ht
      cases ht
    · rw [htask] at ht
      cases ht
      by_contra hge
      have hlive := hl.live t (List.mem_of_mem_head? (hl.queue.chain.head?_eq.trans hx))
      exact hlive (refs_eq_none.mp (hheld.fresh (Nat.le_of_not_lt hge)))

/-- What a step needs that keeps the references. -/
theorem TaskReferences.keeps (hs : TaskReferences s) (hheld : Held s) (h : schedulerStep s o = .ok s')
    (hs' : TaskReferences s') : KeepsReferences s o := by
  have heffect := schedulerStep_effect h
  have hturn := heffect.turn
  obtain ⟨l, hl⟩ := hs.shape
  have hqueue : KeepsQueue s o := (queueShape_step_iff hl hheld.settled h).mp hs'.shape
  constructor
  · intro t ht
    have hfound : ∀ {t task}, handleTask s t = .ok task → s.refs t ≠ none := by
      intro t task htask
      rw [refs_of_task (handleTask_ok htask).1]
      simp
    cases schedulerStep_cases h with
    | abort hok | clone hok | drop hok | join hok =>
      cases ht
      obtain ⟨task, htask, -⟩ := bind_eq_ok.mp hok
      exact hfound htask
    | spawn | blockOn | wake | event | take | ready | pending | cleaned | wakeJoiner | release | drained
    | leave => cases ht
  · rintro t c handles rfl ht hmax
    cases schedulerStep_cases h with
    | clone hok =>
      obtain ⟨task, htask, hok⟩ := bind_eq_ok.mp hok
      cases hok
      obtain ⟨rfl, rfl⟩ := Prod.mk.inj
        (Option.some.inj ((refs_of_task (handleTask_ok htask).1).symm.trans ht))
      obtain ⟨hpos, -⟩ := hs'.counter t (sizeInc task.counter) (task.handles + 1)
        (by rw [refs_setTask, Function.update_self]; rfl)
      rw [sizeInc, if_pos hmax] at hpos
      exact Nat.lt_irrefl 0 hpos
  · intro x hx
    have ho : o ≠ .release := by
      rintro rfl
      exact hx
    have hlive : s.view x ≠ none := by
      cases heffect with
      | quiet _ _ _ _ hwakes =>
        obtain ⟨next, hview⟩ := hwakes x hx
        simp [hview]
      | spawn _ hwakes => exact absurd hx (hwakes x)
      | enqueue hview _ hwakes =>
        obtain rfl := (hwakes x).mp hx
        simp [hview]
      | abortSuspended | abortMark | free | takeAborted | takePolled | ready | finish | release =>
        exact hx.elim
    obtain ⟨v, hview, hstatus⟩ := heffect.woken hx
    obtain ⟨l', hl'⟩ := hs'.shape
    have hlinked : s'.Linked x := by
      obtain ⟨task, htask, heq⟩ := Option.map_eq_some_iff.mp hview
      refine hl'.linked_iff.mpr (hl'.scheduled x task htask ?_)
      rw [← hstatus, ← heq]
    refine ⟨?_, ?_, hqueue.1 x hx⟩
    · by_contra hge
      exact hlive (hheld.settled.fresh x (Nat.le_of_not_lt hge))
    · rw [← hturn.released_same ho]
      exact hs'.reached x (Or.inl hlinked)
  · rintro t rfl hcontrol hlinked
    cases heffect with
    | quiet ho => exact absurd rfl ho.2
    | spawn ho => exact absurd rfl ho.2
    | enqueue _ _ hwakes => exact absurd ((hwakes _).mpr rfl) id
    | @release t' hcontrol' hdrop =>
      rw [hcontrol] at hcontrol'
      cases hcontrol'
      rcases hdrop with ⟨-, hsame⟩ | ⟨hlast, -⟩
      · have hl' := hsame.readyQueue_iff.mpr hl
        have hzero := hs'.reached t (Or.inl (hl'.linked_iff.mpr (hl.linked_iff.mp hlinked)))
        rw [hturn.released_one hcontrol, if_pos rfl] at hzero
        omega
      · have hdrops : s.Drops .release t := by simp only [Scheduler.Drops, hcontrol]
        exact hqueue.2 t hdrops hlast hlinked

/-! ## Runs -/

theorem taskReferences_init : TaskReferences schedulerInit := by
  refine ⟨⟨?_, ?_, ?_, ?_⟩, ⟨[], queueShape_init⟩, fun t => rfl, ?_⟩
  · rintro t c handles ⟨⟩
  · intro t
    rw [if_neg fun hboth => Nat.not_lt_zero t hboth.1]
    rfl
  · intro t
    exact Nat.zero_le _
  · rintro t ⟨⟩
  · intro t _
    rfl

theorem held_init : Held schedulerInit := by
  refine ⟨settled_init, ?_, ?_⟩
  · rintro t next ⟨⟩
  · rintro t ⟨⟩

/-- **No task is leaked, freed twice or used after it is freed** in the runs in which the program uses
only handles that it has, wakers are called only of tasks that the runtime has not let go and that can
be linked, and no task is linked when it is let go; and only in these. -/
theorem task_references_iff (os : List SchedulerOp)
    (hcalls : Lib.run schedulerStep schedulerInit os ≠ .error .noSuchCall) :
    ((∃ s, Lib.run schedulerStep schedulerInit os = .ok s) ∧
        ∀ os₁ os₂ s, os = os₁ ++ os₂ → Lib.run schedulerStep schedulerInit os₁ = .ok s →
          TaskReferences s) ↔
      Lib.Along schedulerStep KeepsReferences schedulerInit os := by
  refine Lib.along_iff_ends (I := fun _ => Held) (L := fun _ => TaskReferences) [] ?_ ?_ held_init
    taskReferences_init hcalls
  · intro _ s o s' hheld hs hkeeps hstep
    exact (hs.step hheld hkeeps hstep).2
  · intro _ s o hheld hs hcalls
    constructor
    · rintro ⟨s', hstep, hs'⟩
      exact hs.keeps hheld hstep hs'
    · intro hkeeps
      obtain ⟨l, hl⟩ := hs.shape
      obtain ⟨s', hstep⟩ := schedulerStep_exists hl
        (fun t ht => hs.live (hheld.turn t ht) (hs.reached t (Or.inr ht)))
        (fun t ht => mt refs_eq_none.mpr (hkeeps.handle t ht))
        (fun x hx => hs.live (hkeeps.wakes x hx).1 (hkeeps.wakes x hx).2.1) hcalls
      exact ⟨s', hstep, (hs.step hheld hkeeps hstep).1⟩

/-- A step that calls no waker, uses no handle and lets no task go. -/
theorem keepsReferences_silent (hhandle : o.handle = none) (ho : o ≠ .release)
    (hwakes : ∀ x, ¬ s.Wakes o x) : KeepsReferences s o := by
  constructor
  · intro t ht
    rw [hhandle] at ht
    cases ht
  · rintro t c handles rfl
    cases hhandle
  · exact fun x hx => absurd hx (hwakes x)
  · exact fun t hrelease => absurd hrelease ho

/-- A task that is woken in its poll, and then ready. -/
theorem keepsReferences_ready : Lib.Along schedulerStep KeepsReferences schedulerInit
    [.blockOn, .event, .take, .wake 0, .ret .pending, .take, .ret .ready, .cleaned, .release,
      .drained] := by
  refine Lib.along_cons (keepsReferences_silent rfl (by simp) fun _ => id) rfl ?_
  refine Lib.along_cons (keepsReferences_silent rfl (by simp) fun _ => id) rfl ?_
  refine Lib.along_cons (keepsReferences_silent rfl (by simp) fun _ => id) rfl ?_
  refine Lib.along_cons ⟨by rintro t ⟨⟩, by rintro t c handles ⟨⟩, ?_, by rintro t ⟨⟩⟩ rfl ?_
  · rintro x rfl
    refine ⟨Nat.zero_lt_one, rfl, ?_⟩
    rintro v ⟨⟩
    exact Or.inr ⟨rfl, by decide⟩
  refine Lib.along_cons (keepsReferences_silent rfl (by simp) fun _ => id) rfl ?_
  refine Lib.along_cons (keepsReferences_silent rfl (by simp) fun _ => id) rfl ?_
  refine Lib.along_cons (keepsReferences_silent rfl (by simp) fun _ => id) rfl ?_
  refine Lib.along_cons (keepsReferences_silent rfl (by simp) fun _ => id) rfl ?_
  refine Lib.along_cons ⟨by rintro t ⟨⟩, by rintro t c handles ⟨⟩, fun x hx => hx.elim, ?_⟩ rfl ?_
  · rintro t - - ⟨l, hl, ht⟩
    cases l with
    | nil => cases ht
    | cons x l => cases hl.1
  exact Lib.along_cons (keepsReferences_silent rfl (by simp) fun _ => id) rfl trivial

theorem task_references_iff_ready : ∃ s, Lib.run schedulerStep schedulerInit
      [.blockOn, .event, .take, .wake 0, .ret .pending, .take, .ret .ready, .cleaned, .release,
        .drained] = .ok s ∧ TaskReferences s ∧ s.tasks 0 = none := by
  obtain ⟨s, hrun, hfreed⟩ : ∃ s, Lib.run schedulerStep schedulerInit
      [.blockOn, .event, .take, .wake 0, .ret .pending, .take, .ret .ready, .cleaned, .release,
        .drained] = .ok s ∧ s.tasks 0 = none := Lib.exists_ok_of_decide (by decide)
  obtain ⟨-, hall⟩ := (task_references_iff _ (by rw [hrun]; rintro ⟨⟩)).mpr keepsReferences_ready
  exact ⟨s, hrun, hall _ [] s (List.append_nil _).symm hrun, hfreed⟩

-- a waker that is kept after its task has ended links memory that is gone
example : Lib.run schedulerStep schedulerInit
    [.blockOn, .event, .take, .ret .ready, .cleaned, .release, .wake 0] = .error .useAfterFree := rfl

/-! ## `taskio_runtime_block_on` -/

/-- The program has no handle of the task that the worker runs for, and the worker runs until it is let
go. -/
def RunsFor (s : Scheduler) : Prop :=
  ∀ t, s.workerTask = some t → t < s.nextTask ∧
    (∀ c handles, s.refs t = some (c, handles) → handles = 0) ∧
    (s.running = true ↔ s.events.count (.released t) = 0)

/-- `t` is the task that the worker runs for. -/
structure WorkersOwn (t : Nat) (s : Scheduler) : Prop where
  worker : s.workerTask = some t
  lt : t < s.nextTask
  handles : ∀ c handles, s.refs t = some (c, handles) → handles = 0

/-- What a step does to the task that the worker runs for: it is a new one, or it stays as it is, or it
is let go, and then the worker stops. -/
theorem RefStep.worker (h : RefStep s s' o) :
    (o = .blockOn ∧ WorkersOwn s.nextTask s' ∧ s'.running = true ∧ s'.tasks s.nextTask ≠ none) ∨
      s'.workerTask = s.workerTask ∧ ∀ t, WorkersOwn t s → WorkersOwn t s' ∧
        (s'.refs t = s.refs t ∧ s'.running = s.running ∧
            (o = .release → s.control ≠ .waking t []) ∨
          o = .release ∧ s.control = .waking t [] ∧ s'.running = false) := by
  cases h with
  | same ho hrefs =>
    refine Or.inr ⟨hrefs.worker.1, ?_⟩
    rintro t ⟨hworker, hlt, hhandles⟩
    refine ⟨⟨hrefs.worker.1.trans hworker, ?_, ?_⟩,
      Or.inl ⟨congrFun hrefs.refs t, hrefs.worker.2, fun hrelease => absurd hrelease ho⟩⟩
    · rwa [hrefs.nextTask]
    · rwa [hrefs.refs]
  | spawn hrefs hfrees hnext hworker' =>
    refine Or.inr ⟨hworker'.1, ?_⟩
    rintro t ⟨hworker, hlt, hhandles⟩
    have hsame : s'.refs t = s.refs t := by
      rw [hrefs, Function.update_of_ne (Nat.ne_of_lt hlt)]
    refine ⟨⟨hworker'.1.trans hworker, ?_, ?_⟩, Or.inl ⟨hsame, hworker'.2, nofun⟩⟩
    · rw [hnext]
      exact Nat.lt_succ_of_lt hlt
    · rwa [hsame]
  | blockOn hrefs hfrees hnext hworker' =>
    have hnew : s'.refs s.nextTask = some (1, 0) := by rw [hrefs, Function.update_self]
    refine Or.inl ⟨rfl, ⟨hworker'.1, ?_, ?_⟩, hworker'.2, ?_⟩
    · rw [hnext]
      exact Nat.lt_succ_self _
    · intro c handles hr
      rw [hnew] at hr
      cases hr
      rfl
    · intro hnone
      rw [refs_eq_none.mpr hnone] at hnew
      cases hnew
  | @clone x c handles hx hrefs hfrees hnext hworker' =>
    refine Or.inr ⟨hworker'.1, ?_⟩
    rintro t ⟨hworker, hlt, hhandles⟩
    have hsame : s'.refs t = s.refs t := by
      rw [hrefs, Function.update_of_ne]
      rintro rfl
      cases hhandles c _ hx
    refine ⟨⟨hworker'.1.trans hworker, ?_, ?_⟩, Or.inl ⟨hsame, hworker'.2, nofun⟩⟩
    · rwa [hnext]
    · rwa [hsame]
  | @drop x c handles hx hdrop hrunning =>
    refine Or.inr ⟨hdrop.workerTask, ?_⟩
    rintro t ⟨hworker, hlt, hhandles⟩
    have hsame : s'.refs t = s.refs t := by
      rw [hdrop.refs, Function.update_of_ne]
      rintro rfl
      cases hhandles c _ hx
    refine ⟨⟨hdrop.workerTask.trans hworker, ?_, ?_⟩, Or.inl ⟨hsame, hrunning, nofun⟩⟩
    · rwa [hdrop.nextTask]
    · rwa [hsame]
  | @release x c handles hcontrol hx hdrop hrunning =>
    refine Or.inr ⟨hdrop.workerTask, ?_⟩
    rintro t ⟨hworker, hlt, hhandles⟩
    have hlt' : t < s'.nextTask := by rwa [hdrop.nextTask]
    by_cases htx : t = x
    · subst htx
      rw [hworker, if_pos rfl] at hrunning
      refine ⟨⟨hdrop.workerTask.trans hworker, hlt', ?_⟩, Or.inr ⟨rfl, hcontrol, hrunning⟩⟩
      intro c' handles' hr
      rw [hdrop.refs, Function.update_self] at hr
      split at hr
      · cases hr
      · cases hr
        exact hhandles c _ hx
    · have hsame : s'.refs t = s.refs t := by rw [hdrop.refs, Function.update_of_ne htx]
      rw [hworker, if_neg fun he => htx (Option.some.inj he)] at hrunning
      refine ⟨⟨hdrop.workerTask.trans hworker, hlt', ?_⟩, Or.inl ⟨hsame, hrunning, ?_⟩⟩
      · rwa [hsame]
      · intro _ hwaking
        rw [hcontrol] at hwaking
        cases hwaking
        exact htx rfl

theorem RefStep.runsFor (h : RefStep s s' o) (hturn : TurnStep s s' o) (hs : RunsFor s)
    (hfresh : s.events.count (.released s.nextTask) = 0) : RunsFor s' := by
  intro t ht
  rcases h.worker with ⟨rfl, hown, hrunning, -⟩ | ⟨hsame, hkeep⟩
  · obtain rfl : s.nextTask = t := Option.some.inj (hown.worker.symm.trans ht)
    refine ⟨hown.lt, hown.handles, ?_⟩
    rw [hrunning, hturn.released_same (by simp), hfresh]
    simp
  · rw [hsame] at ht
    obtain ⟨hlt, hhandles, hrunning⟩ := hs t ht
    obtain ⟨hown, ⟨-, hrunning', hnot⟩ | ⟨rfl, hcontrol, hstops⟩⟩ := hkeep t ⟨ht, hlt, hhandles⟩
    · refine ⟨hown.lt, hown.handles, ?_⟩
      rw [hrunning', hrunning]
      by_cases ho : o = .release
      · subst ho
        obtain ⟨x, hcontrol⟩ : ∃ x, s.control = .waking x [] := by
          cases hturn with
          | idle ho => exact absurd rfl ho.2
          | release hcontrol => exact ⟨_, hcontrol⟩
        rw [hturn.released_one hcontrol, if_neg, Nat.add_zero]
        rintro rfl
        exact hnot rfl hcontrol
      · rw [hturn.released_same ho]
    · refine ⟨hown.lt, hown.handles, ?_⟩
      rw [hstops, hturn.released_one hcontrol, if_pos rfl]
      simp

/-- The worker runs as long as its task has not been let go, so until the task is freed at least. -/
structure WorkerHeld (s : Scheduler) : Prop where
  own : ∀ t, s.workerTask = some t → WorkersOwn t s
  live : ∀ t, s.workerTask = some t → s.tasks t = none → s.running = false

theorem RefStep.workerHeld (h : RefStep s s' o) (hs : WorkerHeld s) : WorkerHeld s' := by
  rcases h.worker with ⟨rfl, hown, hrunning, hlive⟩ | ⟨hsame, hkeep⟩
  · have hnew : ∀ t, s'.workerTask = some t → t = s.nextTask :=
      fun t ht => Option.some.inj (ht.symm.trans hown.worker)
    constructor
    · intro t ht
      rwa [hnew t ht]
    · intro t ht hnone
      rw [hnew t ht] at hnone
      exact absurd hnone hlive
  · constructor
    · intro t ht
      rw [hsame] at ht
      exact (hkeep t (hs.own t ht)).1
    · intro t ht hnone
      rw [hsame] at ht
      obtain ⟨-, ⟨hrefs, hrunning, -⟩ | ⟨-, -, hstops⟩⟩ := hkeep t (hs.own t ht)
      · rw [hrunning]
        refine hs.live t ht (refs_eq_none.mp ?_)
        rw [← hrefs]
        exact refs_eq_none.mpr hnone
      · exact hstops

theorem workerHeld_init : WorkerHeld schedulerInit := ⟨by rintro t ⟨⟩, by rintro t ⟨⟩⟩

/-- A worker that has stopped stays so until the next `taskio_runtime_block_on`. -/
theorem RefStep.stopped (h : RefStep s s' o) (ho : o ≠ .blockOn) (hs : WorkerHeld s)
    (hworker : s.workerTask = some t) (hrunning : s.running = false) :
    s'.workerTask = some t ∧ s'.running = false := by
  rcases h.worker with ⟨hblock, -⟩ | ⟨hsame, hkeep⟩
  · exact absurd hblock ho
  · refine ⟨hsame.trans hworker, ?_⟩
    obtain ⟨-, ⟨-, hrunning', -⟩ | ⟨-, -, hstops⟩⟩ := hkeep t (hs.own t hworker)
    · exact hrunning'.trans hrunning
    · exact hstops

theorem runsFor_init : RunsFor schedulerInit := by rintro t ⟨⟩

/-- At `epoll_wait`, or between two events, the worker has stopped if its task has been cleaned up and
freed, once each, and runs otherwise. -/
theorem worker_stopped_iff (hs : TaskReferences s) (hfor : RunsFor s) (hworker : s.workerTask = some t)
    (hcontrol : s.control = .waiting) : s.running = false ↔
      s.events.count (.cleanedUp t) = 1 ∧ s.events.count (.freed t) = 1 := by
  obtain ⟨hlt, hhandles, hrunning⟩ := hfor t hworker
  have hcleaned := hs.cleanedUp t
  have hreleased := hs.released t
  rw [if_pos hlt] at hreleased
  rw [hcontrol, if_neg (by rintro ⟨⟩), Nat.add_zero] at hcleaned
  constructor
  · intro hnot
    have hone : s.events.count (.released t) ≠ 0 := fun hzero => by
      rw [hrunning.mpr hzero] at hnot
      cases hnot
    -- no reference is left
    have hgone : s.refs t = none := by
      cases hrefs : s.refs t with
      | none => rfl
      | some p =>
        obtain ⟨hpos, hsum⟩ := hs.counter t p.1 p.2 hrefs
        have hnone := hhandles p.1 p.2 hrefs
        omega
    refine ⟨by omega, ?_⟩
    rw [hs.freed t, if_pos ⟨hlt, hgone⟩]
  · rintro ⟨hone, -⟩
    refine Bool.eq_false_iff.mpr ?_
    intro htrue
    have hzero := hrunning.mp htrue
    omega

/-- The references, and the task that the worker runs for, along a run. -/
theorem references_run {os : List SchedulerOp}
    (hrun : Lib.run schedulerStep schedulerInit os = .ok s)
    (hkeeps : Lib.Along schedulerStep KeepsReferences schedulerInit os) :
    TaskReferences s ∧ RunsFor s := by
  obtain ⟨⟨hs, -⟩, hfor⟩ := Lib.run_invariant (I := fun s => (TaskReferences s ∧ Held s) ∧ RunsFor s)
    (by
      rintro s o s' ⟨⟨hs, hheld⟩, hfor⟩ hkeep hstep
      have hfresh := hs.released s.nextTask
      rw [if_neg (Nat.lt_irrefl _), Nat.le_zero] at hfresh
      exact ⟨hs.step hheld hkeep hstep,
        (schedulerStep_refs hstep).runsFor (schedulerStep_effect hstep).turn hfor hfresh⟩)
    ⟨⟨taskReferences_init, held_init⟩, runsFor_init⟩ hkeeps hrun
  exact ⟨hs, hfor⟩

end Taskio
