import Taskio.Lib.Run
import Taskio.Runtime.Effect

/-!
# The shape of the ready queue along a run

* `SchedulerEffect.queue` — what a step that meets `KeepsQueue` does to the queue
* `queueShape_step_iff` — a step keeps the shape exactly when it meets `KeepsQueue`
* `queueShape_iff` — so does a run
-/

namespace Taskio

variable {s s' : Scheduler} {l : List Nat} {t : Nat} {o : SchedulerOp}

/-- `task_add_event_loop` finds the task scheduled, or not linked and with no old link. -/
def Scheduler.Enqueueable (s : Scheduler) (t : Nat) : Prop :=
  ∀ v, s.view t = some v → v.1 = .scheduled ∨ v.2 = none ∧ s.pollTail ≠ some t

/-- Wakers are called for such tasks only, and no linked task is freed. -/
def KeepsQueue (s : Scheduler) (o : SchedulerOp) : Prop :=
  (∀ x, s.Wakes o x → s.Enqueueable x) ∧ ∀ x, s.Drops o x → s.LastReference x → ¬ s.Linked x

theorem keepsQueue_silent (hwakes : ∀ x, ¬ s.Wakes o x) (hdrops : ∀ x, ¬ s.Drops o x) :
    KeepsQueue s o :=
  ⟨fun x hx => absurd hx (hwakes x), fun x hx => absurd hx (hdrops x)⟩

/-- How the queue changes in one step. -/
inductive QueueStep (s : Scheduler) (l : List Nat) : SchedulerOp → List Nat → Prop
  | same {o : SchedulerOp} (ho : o ≠ .take) : QueueStep s l o l
  | push {o : SchedulerOp} {x : Nat} (ho : o ≠ .take) (hnotin : x ∉ l)
      (hx : s.Wakes o x ∨ x = s.nextTask ∨
        o = .abort x ∧ ∃ next, s.view x = some (.suspended, next)) :
      QueueStep s l o (l ++ [x])
  | pop {x : Nat} {l' : List Nat} (hl : l = x :: l') (hnotin : x ∉ l') : QueueStep s l .take l'

/-! ## One step -/

theorem ReadyQueue.tail_live (h : ReadyQueue l s) (htail : s.pollTail = some t) :
    s.view t ≠ none :=
  (readyQueue_iff_view.mp h).2.1 t (List.mem_of_getLast? (h.queue.last ▸ htail))

/-- A task that is allocated is not in the queue, and nothing else has changed. -/
theorem Spawned.readyQueue (h : Spawned s s' t) (hl : ReadyQueue l s) (hs : Settled s) :
    ReadyQueue l s' ∧ Settled s' ∧ s'.view t = some (.suspended, none) ∧ s'.pollTail ≠ some t := by
  have hfresh : s.view t = none := hs.fresh t (Nat.le_of_eq h.fresh.symm)
  have hself : s'.view t = some (.suspended, none) := by rw [h.view, Function.update_self]
  have hother : ∀ x ≠ t, s'.view x = s.view x := fun x hx => by
    rw [h.view, Function.update_of_ne hx]
  have htail : s'.pollTail ≠ some t := by
    rw [h.tail]
    exact fun he => hl.tail_live he hfresh
  obtain ⟨hqueue, hmem, hscheduled⟩ := readyQueue_iff_view.mp hl
  have hne : ∀ x ∈ l, x ≠ t := fun x hx he => hmem x hx (he ▸ hfresh)
  refine ⟨readyQueue_iff_view.mpr ⟨?_, ?_, ?_⟩, ⟨?_, ?_⟩, hself, htail⟩
  · rw [h.head, h.tail]
    exact hqueue.congr fun x hx => by rw [next_eq_view, next_eq_view, hother x (hne x hx)]
  · intro x hx
    rw [hother x (hne x hx)]
    exact hmem x hx
  · intro x next hx
    by_cases hxt : x = t
    · rw [hxt, hself] at hx
      cases hx
    · rw [hother x hxt] at hx
      exact hscheduled x next hx
  · intro x next hx
    by_cases hxt : x = t
    · rw [hxt, hself] at hx
      cases hx
      exact ⟨rfl, hxt ▸ htail⟩
    · rw [hother x hxt] at hx
      rw [h.tail]
      exact hs.suspended x next hx
  · intro x hx
    rw [h.nextTask] at hx
    have hxt : x ≠ t := by
      have := h.fresh
      omega
    rw [hother x hxt]
    exact hs.fresh x (by omega)

/-- A task without link and off the tail becomes the last one. -/
theorem Enqueued.pushes (h : Enqueued s s' t) (hl : ReadyQueue l s)
    {v : TaskStatus × Option Nat} (hview : s.view t = some v) (hnext : v.2 = none)
    (htail : s.pollTail ≠ some t) : t ∉ l ∧ ReadyQueue (l ++ [t]) s' := by
  refine h.readyQueue hl (by simp [hview]) ?_ htail
  rw [next_eq_view, hview]
  exact hnext

/-- A step that meets `KeepsQueue` changes the queue only at its ends. -/
theorem SchedulerEffect.queue (h : SchedulerEffect s s' o) (hl : ReadyQueue l s) (hs : Settled s)
    (hkeeps : KeepsQueue s o) : ∃ l', ReadyQueue l' s' ∧ QueueStep s l o l' := by
  cases h with
  | quiet ho hsame => exact ⟨l, hsame.readyQueue_iff.mpr hl, .same ho.1⟩
  | @spawn _ t s₁ ho hwakes hdrops hspawned henq =>
    obtain ⟨hl₁, -, hview, htail⟩ := hspawned.readyQueue hl hs
    obtain ⟨hnotin, hl'⟩ := henq.pushes hl₁ hview rfl htail
    exact ⟨_, hl', .push ho.1 hnotin (Or.inr (Or.inl hspawned.fresh))⟩
  | @enqueue _ x v hview hstatus hwakes hdrops henq =>
    have hwoken : s.Wakes o x := (hwakes x).mpr rfl
    obtain ⟨hnext, htail⟩ := (hkeeps.1 x hwoken v hview).resolve_left hstatus
    obtain ⟨hnotin, hl'⟩ := henq.pushes hl hview hnext htail
    refine ⟨_, hl', .push ?_ hnotin (Or.inl hwoken)⟩
    rintro rfl
    exact hwoken
  | @abortSuspended x next hview henq =>
    obtain ⟨hnext, htail⟩ := hs.suspended x next hview
    obtain ⟨hnotin, hl'⟩ := henq.pushes hl hview hnext htail
    exact ⟨_, hl', .push (by simp) hnotin (Or.inr (Or.inr ⟨rfl, next, hview⟩))⟩
  | abortMark hview hstatus hmark =>
    exact ⟨l, hmark.readyQueue_mark hview (by simp) hl, .same (by simp)⟩
  | @free x hlast hfree =>
    have hnotin : x ∉ l := mt hl.linked_iff.mpr (hkeeps.2 x rfl hlast)
    exact ⟨l, hfree.readyQueue_free hnotin hl, .same (by simp)⟩
  | takeAborted hcontrol hview hdeq =>
    obtain ⟨l', hl', hnotin, hshape⟩ := hdeq.readyQueue hl (by simp)
    exact ⟨l', hshape, .pop hl' hnotin⟩
  | takePolled hcontrol hview hstatus hdeq =>
    obtain ⟨l', hl', hnotin, hshape⟩ := hdeq.readyQueue hl (by simp)
    exact ⟨l', hshape, .pop hl' hnotin⟩
  | ready hcontrol hsame => exact ⟨l, hsame.readyQueue_iff.mpr hl, .same (by simp)⟩
  | finish hcontrol hview hmark =>
    exact ⟨l, hmark.readyQueue_mark hview (by simp) hl, .same (by simp)⟩
  | @release t hcontrol hdrop =>
    refine ⟨l, ?_, .same (by simp)⟩
    rcases hdrop with ⟨-, hsame⟩ | ⟨hlast, hfree⟩
    · exact hsame.readyQueue_iff.mpr hl
    · have hdrops : s.Drops .release t := by simp only [Scheduler.Drops, hcontrol]
      exact hfree.readyQueue_free (mt hl.linked_iff.mpr (hkeeps.2 t hdrops hlast)) hl

/-- Every step keeps the tasks settled that the queue does not know. -/
theorem SchedulerEffect.settled (h : SchedulerEffect s s' o) (hl : ReadyQueue l s)
    (hs : Settled s) : Settled s' := by
  have hlast : ∀ {x}, s.LastReference x → s.view x ≠ none := by
    rintro x ⟨task, htask, -⟩
    simp [view_of_task htask]
  cases h with
  | quiet ho hsame => exact hsame.settled hs
  | spawn ho hwakes hdrops hspawned henq => exact henq.settled (hspawned.readyQueue hl hs).2.1
  | enqueue hview hstatus hwakes hdrops henq => exact henq.settled hs
  | abortSuspended hview henq => exact henq.settled hs
  | abortMark hview hstatus hmark => exact hmark.settled (by simp [hview]) hs (by simp)
  | free hone hfree => exact hfree.settled (hlast hone) hs (by simp)
  | takeAborted hcontrol hview hdeq => exact hdeq.settled hl hs (by simp) (by simp)
  | takePolled hcontrol hview hstatus hdeq => exact hdeq.settled hl hs (by simp) (fun _ => rfl)
  | ready hcontrol hsame => exact hsame.settled hs
  | finish hcontrol hview hmark => exact hmark.settled (by simp [hview]) hs (by simp)
  | release hcontrol hdrop =>
    rcases hdrop with ⟨-, hsame⟩ | ⟨hone, hfree⟩
    · exact hsame.settled hs
    · exact hfree.settled (hlast hone) hs (by simp)

/-- **A step keeps the shape exactly when it meets `KeepsQueue`.** -/
theorem queueShape_step_iff (hl : ReadyQueue l s) (hs : Settled s)
    (h : schedulerStep s o = .ok s') : QueueShape s' ↔ KeepsQueue s o := by
  have heffect := schedulerStep_effect h
  constructor
  · intro hshape
    have hfree : ∀ {x}, Rewritten s s' x none → ¬ s.Linked x := fun hfree =>
      mt hl.linked_iff.mp ((hfree.shape_free hl).mp hshape)
    cases heffect with
    | quiet ho hsame hcontrol hturns hwakes hdrops =>
      refine ⟨fun x hx v hview => Or.inl ?_, fun x hx hlast => absurd hlast (hdrops x hx)⟩
      obtain ⟨next, hnext⟩ := hwakes x hx
      rw [← Option.some.inj (hnext.symm.trans hview)]
    | spawn ho hwakes hdrops =>
      exact keepsQueue_silent hwakes hdrops
    | @enqueue _ x v hview hstatus hwakes hdrops henq =>
      refine ⟨fun y hy w hw => Or.inr ?_, fun y hy => absurd hy (hdrops y)⟩
      rw [← (hwakes y).mp hy] at hw ⊢
      have hnext := (henq.unlinked_of_shape hshape).1
      rw [next_eq_view, hw] at hnext
      exact ⟨hnext, (henq.unlinked_of_shape hshape).2⟩
    | abortSuspended => exact ⟨fun _ => False.elim, fun _ => False.elim⟩
    | abortMark => exact ⟨fun _ => False.elim, fun _ => False.elim⟩
    | free hlast hfreed => exact ⟨fun _ => False.elim, fun x hx _ => hx ▸ hfree hfreed⟩
    | takeAborted => exact ⟨fun _ => False.elim, fun _ => False.elim⟩
    | takePolled => exact ⟨fun _ => False.elim, fun _ => False.elim⟩
    | ready => exact ⟨fun _ => False.elim, fun _ => False.elim⟩
    | finish => exact ⟨fun _ => False.elim, fun _ => False.elim⟩
    | @release t hcontrol hdrop =>
      refine ⟨fun _ => False.elim, ?_⟩
      intro x hx hlast
      simp only [Scheduler.Drops, hcontrol] at hx
      subst hx
      exact hfree (hdrop.resolve_left fun h => h.1 hlast).2
  · intro hkeeps
    obtain ⟨l', hl', -⟩ := heffect.queue hl hs hkeeps
    exact ⟨l', hl'⟩

/-! ## Runs -/

theorem settled_init : Settled schedulerInit := ⟨fun _ _ h => (nomatch h), fun _ _ => rfl⟩

theorem queueShape_init : ReadyQueue [] schedulerInit :=
  ⟨Lib.IsQueue.empty, fun _ h => absurd h (by simp), fun _ _ h => nomatch h⟩

/-- The shape along runs, with what it needs. -/
theorem readyQueue_run {os : List SchedulerOp} (hrun : Lib.run schedulerStep schedulerInit os = .ok s)
    (hkeeps : Lib.Along schedulerStep KeepsQueue schedulerInit os) :
    ∃ l, ReadyQueue l s ∧ Settled s := by
  refine Lib.run_invariant (I := fun s => ∃ l, ReadyQueue l s ∧ Settled s) ?_
    ⟨[], queueShape_init, settled_init⟩ hkeeps hrun
  rintro s o s' ⟨l, hl, hs⟩ hp hok
  have heffect := schedulerStep_effect hok
  obtain ⟨l', hl', -⟩ := heffect.queue hl hs hp
  exact ⟨l', hl', heffect.settled hl hs⟩

/--
**When the ready queue keeps its shape.** It has it in every state of a run exactly when each waker
call finds its task scheduled, or not linked and with no old link, and no linked task is freed.
-/
theorem queueShape_iff (os : List SchedulerOp)
    (hrun : Lib.run schedulerStep schedulerInit os = .ok s) :
    (∀ os₁ os₂ s₁, os = os₁ ++ os₂ → Lib.run schedulerStep schedulerInit os₁ = .ok s₁ →
        QueueShape s₁) ↔
      Lib.Along schedulerStep KeepsQueue schedulerInit os := by
  refine Lib.along_iff_states (I := Settled) ?_ ?_ settled_init ⟨[], queueShape_init⟩ hrun
  · rintro s o s' hs ⟨l, hl⟩ _ hok
    exact (schedulerStep_effect hok).settled hl hs
  · rintro s o s' hs ⟨l, hl⟩ hok
    exact queueShape_step_iff hl hs hok

/-- A task that is woken in its poll. -/
theorem keepsQueue_ownWake : Lib.Along schedulerStep KeepsQueue schedulerInit
    [.blockOn, .event, .take, .wake 0, .ret .pending] := by
  refine ⟨keepsQueue_silent (fun _ => id) fun _ => id, ?_⟩
  rintro _ ⟨⟩
  refine ⟨keepsQueue_silent (fun _ => id) fun _ => id, ?_⟩
  rintro _ ⟨⟩
  refine ⟨keepsQueue_silent (fun _ => id) fun _ => id, ?_⟩
  rintro _ ⟨⟩
  refine ⟨⟨?_, fun _ => False.elim⟩, ?_⟩
  · rintro _ rfl v ⟨⟩
    exact Or.inr ⟨rfl, by decide⟩
  · rintro _ ⟨⟩
    exact ⟨keepsQueue_silent (fun _ => id) fun _ => id, fun _ _ => trivial⟩

theorem queueShape_iff_wake : ∃ s, Lib.run schedulerStep schedulerInit
    [.blockOn, .event, .take, .wake 0, .ret .pending] = .ok s ∧ QueueShape s := by
  obtain ⟨s, hrun, -⟩ : ∃ s, Lib.run schedulerStep schedulerInit
      [.blockOn, .event, .take, .wake 0, .ret .pending] = .ok s ∧ s.pollTail = some 0 :=
    Lib.exists_ok_of_decide (by decide)
  exact ⟨s, hrun, (queueShape_iff _ hrun).mpr keepsQueue_ownWake _ [] s (List.append_nil _).symm hrun⟩

/-- A task that was polled and is in the queue again is aborted there, and its waker is called once
more: it is linked twice, and the chain is a cycle. -/
def relinkedOps : List SchedulerOp :=
  [.blockOn, .event, .take, .spawn false, .ret .pending, .take, .wake 0, .ret .pending, .take, .wake 1,
    .spawn false, .abort 1, .wake 1]

theorem aborted_task_relinked : ∃ s, Lib.run schedulerStep schedulerInit relinkedOps = .ok s ∧
    ¬ QueueShape s := by
  obtain ⟨s, hrun, htail, hnext⟩ : ∃ s, Lib.run schedulerStep schedulerInit relinkedOps = .ok s ∧
      s.pollTail = some 1 ∧ s.next 1 = some 2 :=
    Lib.exists_ok_of_decide (by decide)
  refine ⟨s, hrun, ?_⟩
  rintro ⟨l, hl⟩
  have hqueue := hl.queue
  rw [htail] at hqueue
  rw [hqueue.next_tail] at hnext
  cases hnext

end Taskio
