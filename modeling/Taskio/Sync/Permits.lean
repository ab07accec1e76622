import Taskio.Lib.Run
import Taskio.Sync.WaitQueue

/-!
# Permits

The ledger of an asynchronous semaphore: a permit that came in, at the start or with a signal, is in
the counter, with a wait that completed, or with a pending wait that a signal granted.

* `permits_conserved_iff` — the ledger balances along a run exactly when no step is one of three:
  a wait polled again before its grant, a granted wait given up, a signal that takes the node of a
  wait that is gone
-/

namespace Taskio

variable {W : Type} {s s' : SemaphoreSystem W} {q q' : List Nat}

/-- The wait is pending, and a signal has taken its node. -/
def Wait.granted (grants : List Nat) (w : Wait) : Bool :=
  decide (w.stage = .live ∧ ∃ a ∈ grants, w.future.node = some a)

namespace SemaphoreSystem

/-- The number of waits that have completed. -/
def completed (s : SemaphoreSystem W) : Nat := s.waits.countP fun w => w.stage = .completed

/-- The number of pending waits that a signal has granted. -/
def grantedPending (s : SemaphoreSystem W) : Nat := s.waits.countP (·.granted s.sem.grants)

/-- The permits that are accounted for. -/
def accounted (s : SemaphoreSystem W) : Nat := s.sem.counter + s.completed + s.grantedPending

end SemaphoreSystem

/-- Permits that came in are permits accounted for. -/
def Conserved (permits : UInt64) (s : SemaphoreSystem W) : Prop :=
  permits.toNat + s.signals = s.accounted

instance (permits : UInt64) (s : SemaphoreSystem W) : Decidable (Conserved permits s) :=
  inferInstanceAs (Decidable (_ = _))

/-- The operations that neither lose nor make a permit. -/
def KeepsPermits (s : SemaphoreSystem W) : SemaphoreOp W → Prop
  | .wait _ => True
  | .poll i _ => ∀ f a, s.waits[i]? = some ⟨f, .live⟩ → f.node = some a → a ∈ s.sem.grants
  | .cleanup i => ∀ f a, s.waits[i]? = some ⟨f, .live⟩ → f.node = some a → a ∉ s.sem.grants
  | .signal =>
    match s.sem.wakeQueueHead with
    | some a => ∃ w ∈ s.waits, w.holds a
    | none => s.sem.counter ≠ 2 ^ 64 - 1

/-! ## One step -/

theorem granted_none {f : WaitFuture} (hnode : f.node = none) (stage : WaitStage)
    (grants : List Nat) : (Wait.mk f stage).granted grants = false := by
  simp [Wait.granted, hnode]

theorem granted_some {f : WaitFuture} {a : Nat} (hnode : f.node = some a) (grants : List Nat) :
    (Wait.mk f .live).granted grants = decide (a ∈ grants) := by
  simp [Wait.granted, hnode]

/-- The pending wait at `i` ends. -/
theorem ledger_settle {f f' : WaitFuture} {stage : WaitStage} {i : Nat}
    (hget : s.waits[i]? = some ⟨f, .live⟩) (hwaits : s'.waits = s.waits.set i ⟨f', stage⟩)
    (hstage : stage ≠ .live) (hgrants : s'.sem.grants = s.sem.grants) :
    s'.completed = s.completed + (decide (stage = .completed)).toNat ∧
      s'.grantedPending + ((Wait.mk f .live).granted s.sem.grants).toNat = s.grantedPending := by
  have hcompleted := Lib.countP_set_add (fun w => decide (w.stage = .completed)) hget ⟨f', stage⟩
  have hpending := Lib.countP_set_add (·.granted s.sem.grants) hget ⟨f', stage⟩
  have hnot : (Wait.mk f' stage).granted s.sem.grants = false := by simp [Wait.granted, hstage]
  rw [hnot] at hpending
  simp only [SemaphoreSystem.completed, SemaphoreSystem.grantedPending, hwaits, hgrants]
  exact ⟨by simpa using hcompleted, by simpa using hpending⟩

/-- A grant makes the wait of the node, if there still is one, a granted one. -/
theorem countP_granted_append {a : Nat} {grants : List Nat} (ha : a ∉ grants) (waits : List Wait) :
    waits.countP (·.granted (grants ++ [a])) =
      waits.countP (·.granted grants) + waits.countP (·.holds a) := by
  induction waits with
  | nil => rfl
  | cons w waits ih =>
    rw [List.countP_cons, List.countP_cons, List.countP_cons, ih]
    have hor : w.granted (grants ++ [a]) = (w.granted grants || w.holds a) := by
      simp only [Wait.granted, Wait.holds, ← Bool.decide_or]
      refine decide_eq_decide.mpr ⟨?_, ?_⟩
      · rintro ⟨hlive, b, hb, hnode⟩
        rcases List.mem_append.mp hb with hb | hb
        · exact Or.inl ⟨hlive, b, hb, hnode⟩
        · exact Or.inr ⟨hlive, List.mem_singleton.mp hb ▸ hnode⟩
      · rintro (⟨hlive, b, hb, hnode⟩ | ⟨hlive, hnode⟩)
        · exact ⟨hlive, b, List.mem_append_left _ hb, hnode⟩
        · exact ⟨hlive, a, by simp, hnode⟩
    have hnot : ¬ (w.granted grants = true ∧ w.holds a = true) := by
      rintro ⟨h1, h2⟩
      obtain ⟨-, b, hb, hnode⟩ := of_decide_eq_true h1
      obtain ⟨-, hnode'⟩ := of_decide_eq_true h2
      exact ha (Option.some.inj (hnode.symm.trans hnode') ▸ hb)
    have hsum : (if w.granted (grants ++ [a]) = true then 1 else 0) =
        (if w.granted grants = true then 1 else 0) + if w.holds a = true then 1 else 0 := by
      rw [hor]
      cases h1 : w.granted grants with
      | false => simp
      | true =>
        cases h2 : w.holds a with
        | false => rfl
        | true => exact absurd ⟨h1, h2⟩ hnot
    omega

/-- What it means for a second poll. -/
theorem keepsPermits_poll {i a : Nat} {f : WaitFuture} {waker : W}
    (hget : s.waits[i]? = some ⟨f, .live⟩) (hnode : f.node = some a) :
    KeepsPermits s (.poll i waker) ↔ a ∈ s.sem.grants := by
  simp only [KeepsPermits, hget]
  constructor
  · intro hall
    exact hall f a rfl hnode
  · rintro ha g b ⟨⟩ hg
    rwa [← Option.some.inj (hnode.symm.trans hg)]

/-- What it means for a wait that is given up. -/
theorem keepsPermits_cleanup {i : Nat} {f : WaitFuture} (hget : s.waits[i]? = some ⟨f, .live⟩) :
    KeepsPermits s (.cleanup i) ↔ (Wait.mk f .live).granted s.sem.grants = false := by
  simp only [KeepsPermits, hget]
  constructor
  · intro hall
    cases hnode : f.node with
    | none => exact granted_none hnode _ _
    | some a =>
      rw [granted_some hnode]
      exact decide_eq_false (hall f a rfl hnode)
  · rintro hnot g b ⟨⟩ hg
    rw [granted_some hg] at hnot
    exact of_decide_eq_false hnot

/-- A first poll is none of the three. -/
theorem keepsPermits_first {i : Nat} {f : WaitFuture} {waker : W}
    (hget : s.waits[i]? = some ⟨f, .live⟩) (hnode : f.node = none) :
    KeepsPermits s (.poll i waker) := by
  intro g a hg ha
  rw [hget] at hg
  cases hg
  cases hnode.symm.trans ha

/-- What an operation does to the permits accounted for: it adds what came in unless it is one of the
three, and of these only a poll adds more. -/
theorem accounted_step {o : SemaphoreOp W} (h : WakeQueue q s) (heffect : Effect s s' q q' o) :
    (s'.accounted = s.accounted + o.signals ↔ KeepsPermits s o) ∧
      ((∀ i waker, o ≠ .poll i waker) → s'.accounted ≤ s.accounted + o.signals) := by
  unfold SemaphoreSystem.accounted
  cases heffect with
  | wait timed hwaits hsem hq =>
    have hnew : (Wait.mk (semaphoreWait timed) .live).granted s.sem.grants = false :=
      granted_none rfl _ _
    simp only [SemaphoreSystem.completed, SemaphoreSystem.grantedPending, hwaits, hsem,
      List.countP_append, List.countP_singleton, hnew, SemaphoreOp.signals, KeepsPermits]
    simp
  | @take i waker f f' hget hnode hpos hwaits hcounter hgrants hq =>
    obtain ⟨hcompleted, hpending⟩ := ledger_settle hget hwaits (by simp) hgrants
    rw [granted_none hnode] at hpending
    simp only [SemaphoreOp.signals, decide_true, Bool.toNat_true, Bool.toNat_false] at *
    exact ⟨⟨fun _ => keepsPermits_first hget hnode, fun _ => by omega⟩,
      fun hpoll => absurd rfl (hpoll i waker)⟩
  | @enqueue i waker f f' hget hnode hzero hwaits hnode' hcounter hgrants hq =>
    have hcompleted := Lib.countP_set_add (fun w => decide (w.stage = .completed)) hget ⟨f', .live⟩
    have hpending := Lib.countP_set_add (·.granted s.sem.grants) hget ⟨f', .live⟩
    have hnew : s.sem.nextNode ∉ s.sem.grants := fun hm => Nat.lt_irrefl _ (h.grants _ hm).2
    rw [granted_none hnode, granted_some hnode', decide_eq_false hnew] at hpending
    simp only [SemaphoreSystem.completed, SemaphoreSystem.grantedPending, hwaits, hgrants] at *
    simp only [SemaphoreOp.signals, reduceCtorEq, decide_false, Bool.toNat_false] at *
    exact ⟨⟨fun _ => keepsPermits_first hget hnode, fun _ => by omega⟩,
      fun hpoll => absurd rfl (hpoll i waker)⟩
  | @finish i waker f f' a hget hnode hwaits hnode' hcounter hgrants hq =>
    obtain ⟨hcompleted, hpending⟩ := ledger_settle hget hwaits (by simp) hgrants
    rw [granted_some hnode] at hpending
    rw [keepsPermits_poll hget hnode]
    refine ⟨?_, fun hpoll => absurd rfl (hpoll i waker)⟩
    simp only [SemaphoreOp.signals, decide_true, Bool.toNat_true] at *
    by_cases ha : a ∈ s.sem.grants
    · simp only [ha, decide_true, Bool.toNat_true, iff_true] at hpending ⊢
      omega
    · simp only [ha, decide_false, Bool.toNat_false, iff_false] at hpending ⊢
      omega
  | @cancel i f f' hget hwaits hnode' hcounter hgrants hq =>
    obtain ⟨hcompleted, hpending⟩ := ledger_settle hget hwaits (by simp) hgrants
    rw [keepsPermits_cleanup hget]
    simp only [SemaphoreOp.signals, reduceCtorEq, decide_false, Bool.toNat_false] at *
    refine ⟨?_, fun _ => by omega⟩
    cases hgr : (Wait.mk f .live).granted s.sem.grants with
    | true =>
      rw [hgr] at hpending
      simp only [Bool.toNat_true, reduceCtorEq, iff_false] at hpending ⊢
      omega
    | false =>
      rw [hgr] at hpending
      simp only [Bool.toNat_false, iff_true] at hpending ⊢
      omega
  | @grant a hqueue hwaits hcounter hgrants =>
    have ha : a ∉ s.sem.grants := fun hm => (h.grants a hm).1 (by simp [hqueue])
    have hhead : s.sem.wakeQueueHead = some a := by
      have hchain := h.queue.chain
      rw [hqueue] at hchain
      exact hchain.1
    have hpending : s'.grantedPending = s.grantedPending + s.waits.countP (·.holds a) := by
      simp only [SemaphoreSystem.grantedPending, hwaits, hgrants]
      exact countP_granted_append ha s.waits
    have hcompleted : s'.completed = s.completed := by simp only [SemaphoreSystem.completed, hwaits]
    have hkeeps : KeepsPermits s (.signal) ↔ 0 < s.waits.countP (·.holds a) := by
      simp only [KeepsPermits, hhead, List.countP_pos_iff]
    rw [hkeeps]
    have hsingle := h.single a
    simp only [SemaphoreOp.signals] at *
    exact ⟨by omega, fun _ => by omega⟩
  | post hqueue hwaits hcounter hgrants hq =>
    have hhead : s.sem.wakeQueueHead = none := h.queue.head_eq_none.mpr hqueue
    have hkeeps : KeepsPermits s (.signal) ↔ s.sem.counter ≠ 2 ^ 64 - 1 := by
      simp only [KeepsPermits, hhead]
    rw [hkeeps, hcounter, sizeInc]
    simp only [SemaphoreSystem.completed, SemaphoreSystem.grantedPending, hwaits, hgrants] at *
    simp only [SemaphoreOp.signals] at *
    split
    · exact ⟨by omega, fun _ => by omega⟩
    · exact ⟨by omega, fun _ => by omega⟩

/-- **A step keeps the balance exactly when it is none of the three.** -/
theorem conserved_step_iff {permits : UInt64} {o : SemaphoreOp W} (h : WakeQueue q s)
    (heffect : Effect s s' q q' o) (hsignals : s'.signals = s.signals + o.signals)
    (hs : Conserved permits s) : Conserved permits s' ↔ KeepsPermits s o := by
  have hstep := (accounted_step h heffect).1
  unfold Conserved SemaphoreSystem.accounted at *
  rw [← hstep]
  omega

/--
**When permits are conserved.** The ledger balances in every state of a run exactly when each of its
steps keeps permits: no wait is polled again before its grant, no granted wait is given up, no
signal takes the node of a wait that is gone, and none lets the counter wrap.
-/
theorem permits_conserved_iff (permits : UInt64) (os : List (SemaphoreOp W))
    (hrun : Lib.run semaphoreStep (semaphoreSystem W permits) os = .ok s) :
    (∀ os₁ os₂ s₁, os = os₁ ++ os₂ →
        Lib.run semaphoreStep (semaphoreSystem W permits) os₁ = .ok s₁ → Conserved permits s₁) ↔
      Lib.Along semaphoreStep KeepsPermits (semaphoreSystem W permits) os := by
  refine Lib.along_iff_states (I := fun s => ∃ q, WakeQueue q s) ?_ ?_
    ⟨[], wakeQueue_init permits⟩ ?_ hrun
  · rintro s o s' ⟨q, h⟩ _ _ hok
    obtain ⟨q', h', -⟩ := semaphoreStep_ok h hok
    exact ⟨q', h'⟩
  · rintro s o s' ⟨q, h⟩ hL hok
    obtain ⟨q', -, heffect, hsignals⟩ := semaphoreStep_ok h hok
    exact conserved_step_iff h heffect hsignals hL
  · rw [Conserved]
    rfl

/-- Two waits are queued; the second is given up, and the signal grants the first. -/
theorem permits_conserved_iff_grant :
    ∃ s, Lib.run semaphoreStep (semaphoreSystem Nat 0)
      [.wait false, .wait false, .poll 0 7, .poll 1 8, .cleanup 1, .signal] = .ok s ∧
      Conserved 0 s := by
  have hkeeps : Lib.Along semaphoreStep KeepsPermits (semaphoreSystem Nat 0)
      [.wait false, .wait false, .poll 0 7, .poll 1 8, .cleanup 1, .signal] := by
    refine Lib.along_cons trivial rfl (Lib.along_cons trivial rfl (Lib.along_cons ?_ rfl
      (Lib.along_cons ?_ rfl (Lib.along_cons ?_ rfl (Lib.along_cons ?_ rfl trivial)))))
    · rintro f a ⟨⟩ ⟨⟩
    · rintro f a ⟨⟩ ⟨⟩
    · rintro f a ⟨⟩ ⟨⟩
      decide
    · exact ⟨⟨⟨1, some 0, false⟩, .live⟩, List.mem_cons_self, rfl⟩
  obtain ⟨s, hrun, -⟩ : ∃ s, Lib.run semaphoreStep (semaphoreSystem Nat 0)
      [.wait false, .wait false, .poll 0 7, .poll 1 8, .cleanup 1, .signal] = .ok s ∧ s.signals = 1 :=
    Lib.exists_ok_of_decide (by decide)
  exact ⟨s, hrun, (permits_conserved_iff 0 _ hrun).mpr hkeeps _ [] s (List.append_nil _).symm hrun⟩

/-- A wait that is given up while queued absorbs the next signal. -/
theorem cancelled_wait_absorbs :
    ∃ s, Lib.run semaphoreStep (semaphoreSystem Nat 0)
        [.wait false, .poll 0 7, .cleanup 0, .signal] = .ok s ∧
      ¬ Conserved 0 s ∧ s.sem.counter = 0 ∧ s.completed = 0 ∧ s.grantedPending = 0 :=
  Lib.exists_ok_of_decide (by decide)

end Taskio
