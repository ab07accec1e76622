import Taskio.Sync.Mixed

/-!
# Permits and turns between tasks and threads

* `mixed_conserved_iff` — the runs that neither lose nor make a permit
* `mixed_alternates` — signals made while both sides wait go to them by turns
* `mixed_served_in_time` — a task that waits behind `p` others is served with the `2 p + 2`nd signal
  at the latest, whatever the threads do
-/

namespace Taskio

variable {W : Type} {s s' s₁ s₂ : MixedSystem W} {q q' : List Nat}

/-! ## Permits -/

/-- A permit that came in is with the tasks, as in `Conserved`, with a call that returned, or with a
thread that was released. -/
def MixedConserved (permits : UInt64) (s : MixedSystem W) : Prop :=
  permits.toNat + s.tasks.signals =
    s.tasks.accounted + s.threads.count .returned + s.threads.count .released

instance (permits : UInt64) (s : MixedSystem W) : Decidable (MixedConserved permits s) :=
  inferInstanceAs (Decidable (_ = _))

/-- What a step must meet that neither loses nor makes a permit: on either side what it must meet there,
the signals counting for the side that they go to. -/
def KeepsMixed (s : MixedSystem W) : MixedOp W → Prop
  | .wait o => KeepsPermits s.tasks o
  | .signal _ =>
    if s.tasks.sem.ToThreads then .waiting ∈ s.threads else KeepsPermits s.tasks .signal
  | .resume k => s.threads[k]? = some .released
  | .blockingWait | .spurious _ => True

/-- **A step keeps the balance exactly when it meets the condition.** -/
theorem mixedConserved_step_iff {o : MixedOp W} {permits : UInt64} (h : WakeQueue q s.tasks.alone)
    (heffect : MixedEffect s s' q q' o) (hs : MixedConserved permits s) :
    MixedConserved permits s' ↔ KeepsMixed s o := by
  -- no wait changes, and none is granted
  have haccounted : s'.tasks.sem.grants = s.tasks.sem.grants → s'.tasks.waits = s.tasks.waits →
      s'.tasks.accounted + s.tasks.sem.counter = s.tasks.accounted + s'.tasks.sem.counter := by
    intro hgrants hwaits
    simp only [SemaphoreSystem.accounted, SemaphoreSystem.completed, SemaphoreSystem.grantedPending,
      hgrants, hwaits]
    omega
  unfold MixedConserved at *
  cases heffect with
  | @wait o ho heffect hsignals hthreads hsame =>
    obtain ⟨hiff, -⟩ := accounted_step h heffect
    have hzero : o.signals = 0 := by
      cases o with
      | signal => exact absurd rfl ho
      | wait timed => rfl
      | poll i waker => rfl
      | cleanup i => rfl
    have hkeeps : KeepsMixed s (.wait o) ↔ s'.tasks.accounted = s.tasks.accounted + o.signals :=
      hiff.symm
    rw [hkeeps, hthreads, hsignals]
    omega
  | take hpos htasks hthreads hq =>
    have hledger := haccounted (by rw [htasks]) (by rw [htasks])
    have hcounter : s'.tasks.sem.counter = s.tasks.sem.counter - 1 := by rw [htasks]
    have hsignals : s'.tasks.signals = s.tasks.signals := by rw [htasks]
    rw [hsignals, hthreads, List.count_append, List.count_append]
    simp [KeepsMixed] at *
    omega
  | block hzero htasks hthreads hq =>
    have hledger := haccounted (by rw [htasks]) (by rw [htasks])
    have hcounter : s'.tasks.sem.counter = s.tasks.sem.counter := by rw [htasks]
    have hsignals : s'.tasks.signals = s.tasks.signals := by rw [htasks]
    rw [hsignals, hthreads, List.count_append, List.count_append]
    simp [KeepsMixed] at *
    omega
  | @toTask k hnot heffect a hqueue hgrants hsignals hthreads =>
    obtain ⟨hiff, -⟩ := accounted_step h heffect
    have hkeeps : KeepsMixed s (.signal k) ↔ s'.tasks.accounted = s.tasks.accounted + 1 := by
      rw [KeepsMixed, if_neg hnot]
      exact hiff.symm
    rw [hkeeps, hthreads, hsignals]
    omega
  | @toThread k hto htasks hthreads hq =>
    have hledger := haccounted (by rw [htasks]) (by rw [htasks])
    have hcounter : s'.tasks.sem.counter = s.tasks.sem.counter := by rw [htasks]
    have hsignals : s'.tasks.signals = s.tasks.signals + 1 := by rw [htasks]
    rw [hsignals, KeepsMixed, if_pos hto]
    rcases hthreads with ⟨hget, hthreads⟩ | ⟨hnone, hthreads⟩
    · have hreturned := count_set_stage hget .released .returned
      have hreleased := count_set_stage hget .released .released
      have hmem : .waiting ∈ s.threads := List.mem_of_getElem? hget
      rw [hthreads]
      simp [hmem] at *
      omega
    · rw [hthreads]
      simp [hnone] at *
      omega
  | @post k hnot hqueue htasks hthreads hq =>
    have hpost : Effect s.tasks.alone s'.tasks.alone q q' .signal := by
      rw [htasks]
      exact .post hqueue rfl rfl rfl hq
    obtain ⟨hiff, -⟩ := accounted_step h hpost
    have hsignals : s'.tasks.signals = s.tasks.signals + 1 := by rw [htasks]
    have hkeeps : KeepsMixed s (.signal k) ↔ s'.tasks.accounted = s.tasks.accounted + 1 := by
      rw [KeepsMixed, if_neg hnot]
      exact hiff.symm
    rw [hkeeps, hthreads, hsignals]
    omega
  | @spurious k hget htasks hthreads hq =>
    have hreturned := count_set_stage hget .spurious .returned
    have hreleased := count_set_stage hget .spurious .released
    rw [htasks, hthreads]
    simp [KeepsMixed] at *
    omega
  | @resume k stage hget hstage htasks hthreads hq =>
    have hledger := haccounted (by rw [htasks]) (by rw [htasks])
    have hcounter : s'.tasks.sem.counter = s.tasks.sem.counter := by rw [htasks]
    have hsignals : s'.tasks.signals = s.tasks.signals := by rw [htasks]
    have hreturned := count_set_stage hget .returned .returned
    have hreleased := count_set_stage hget .returned .released
    rw [hsignals, hthreads]
    rcases hstage with rfl | rfl
    · simp [KeepsMixed, hget] at *
      omega
    · simp [KeepsMixed, hget] at *
      omega

/-- **When permits are conserved with tasks and threads at one semaphore.** The run ends without a
fault, and the ledger balances in all its states, exactly when each step meets what is asked on the
side that it concerns. -/
theorem mixed_conserved_iff (permits : UInt64) (os : List (MixedOp W))
    (hcalls : Lib.run mixedStep (mixedSystem W permits) os ≠ .error .noSuchCall) :
    ((∃ s, Lib.run mixedStep (mixedSystem W permits) os = .ok s) ∧
        ∀ os₁ os₂ s, os = os₁ ++ os₂ → Lib.run mixedStep (mixedSystem W permits) os₁ = .ok s →
          MixedConserved permits s) ↔
      Lib.Along mixedStep KeepsMixed (mixedSystem W permits) os := by
  refine Lib.along_iff_ends (I := fun _ s => ∃ q, WakeQueue q s.tasks.alone)
    (L := fun _ => MixedConserved permits) [] ?_ ?_ ⟨[], wakeQueue_init permits⟩ rfl hcalls
  · rintro - s o s' ⟨q, h⟩ - - hok
    obtain ⟨q', hq', -⟩ := mixedStep_ok h hok
    exact ⟨q', hq'⟩
  · rintro - s o ⟨q, h⟩ hs hcalls
    rcases mixedStep_effect h o with hfail | ⟨s', q', hok, -, heffect⟩
    · exact absurd hfail hcalls
    · rw [← mixedConserved_step_iff h heffect hs]
      constructor
      · rintro ⟨s₁, hok₁, hs₁⟩
        obtain rfl : s' = s₁ := Except.ok.inj (hok.symm.trans hok₁)
        exact hs₁
      · exact fun hs' => ⟨s', hok, hs'⟩

/-- A task and a thread that wait, and a signal for each. -/
theorem mixed_conserved_iff_two : ∃ s, Lib.run mixedStep (mixedSystem Nat 0)
      [.wait (.wait false), .wait (.poll 0 7), .blockingWait, .signal 0, .signal 0, .resume 0] = .ok s ∧
    MixedConserved 0 s := by
  have hkeeps : Lib.Along mixedStep KeepsMixed (mixedSystem Nat 0)
      [.wait (.wait false), .wait (.poll 0 7), .blockingWait, .signal 0, .signal 0, .resume 0] := by
    refine Lib.along_cons trivial rfl ?_
    refine Lib.along_cons (by rintro f a ⟨⟩ ⟨⟩) rfl ?_
    refine Lib.along_cons trivial rfl ?_
    refine Lib.along_cons ?_ rfl ?_
    · exact ⟨⟨⟨1, some 0, false⟩, .live⟩, List.mem_singleton.mpr rfl, rfl⟩
    refine Lib.along_cons ?_ rfl ?_
    · exact List.mem_singleton.mpr rfl
    exact Lib.along_cons rfl rfl trivial
  obtain ⟨s, hrun, -⟩ : ∃ s, Lib.run mixedStep (mixedSystem Nat 0)
      [.wait (.wait false), .wait (.poll 0 7), .blockingWait, .signal 0, .signal 0, .resume 0] = .ok s ∧
        s.threads = [.returned] := Lib.exists_ok_of_decide (by decide)
  obtain ⟨-, hall⟩ := (mixed_conserved_iff 0 _ (by rw [hrun]; rintro ⟨⟩)).mpr hkeeps
  exact ⟨s, hrun, hall _ [] s (List.append_nil _).symm hrun⟩

/-! ## Turns -/

def MixedOp.isSignal : MixedOp W → Bool
  | .signal _ => true
  | .wait _ | .blockingWait | .spurious _ | .resume _ => false

/-- Whose turn it is: the tasks' if it is 0. -/
def MixedSystem.turn (s : MixedSystem W) : Nat := s.tasks.sem.priority % 2

theorem MixedSystem.turn_lt (s : MixedSystem W) : s.turn < 2 := Nat.mod_lt _ Nat.two_pos

/-- The turn changes also where `priority` overflows. -/
theorem sizeInc_mod_two (n : Nat) : sizeInc n % 2 = (n + 1) % 2 := by
  unfold sizeInc
  split <;> omega

/-- A step serves the first `g` tasks of the queue and calls `cnd_signal` `c` times. -/
structure Serves (s s' : MixedSystem W) (q q' : List Nat) (o : MixedOp W) (g c : Nat) : Prop where
  grants : s'.tasks.sem.grants = s.tasks.sem.grants ++ q.take g
  queue : ∃ r, q' = q.drop g ++ r
  length : g ≤ q.length
  condSignals : s'.tasks.sem.condSignals = s.tasks.sem.condSignals + c
  signals : g + c ≤ o.isSignal.toNat
  turn : o.isSignal = false → s'.turn = s.turn
  /-- A signal that the tasks do not get leaves them the turn. -/
  tasks : q ≠ [] → o.isSignal.toNat + s'.turn ≤ 2 * g + s.turn
  threads : 0 < s.tasks.sem.blockingWakeWait → o.isSignal.toNat + s.turn ≤ 2 * c + s'.turn

theorem serves_none {o : MixedOp W} {r : List Nat} (ho : o.isSignal = false)
    (hgrants : s'.tasks.sem.grants = s.tasks.sem.grants)
    (hcond : s'.tasks.sem.condSignals = s.tasks.sem.condSignals)
    (hpriority : s'.tasks.sem.priority = s.tasks.sem.priority) (hq : q' = q ++ r) :
    Serves s s' q q' o 0 0 := by
  have hturn : s'.turn = s.turn := by rw [MixedSystem.turn, hpriority, MixedSystem.turn]
  constructor
  · rw [hgrants, List.take_zero, List.append_nil]
  · exact ⟨r, hq⟩
  · exact Nat.zero_le _
  · exact hcond
  · exact Nat.zero_le _
  · exact fun _ => hturn
  · intro _
    simp [ho, hturn]
  · intro _
    simp [ho, hturn]

/-- A wait that is made, polled or given up serves no one, and no node leaves the queue with it. -/
theorem Effect.in_line {t t' : SemaphoreSystem W} {o : SemaphoreOp W} (heffect : Effect t t' q q' o)
    (ho : o ≠ .signal) : t'.sem.grants = t.sem.grants ∧ ∃ r, q' = q ++ r := by
  cases heffect with
  | wait timed hwaits hsem hq => exact ⟨by rw [hsem], [], by rw [hq, List.append_nil]⟩
  | take hget hnode hpos hwaits hcounter hgrants hq => exact ⟨hgrants, [], by rw [hq, List.append_nil]⟩
  | enqueue hget hnode hzero hwaits hnode' hcounter hgrants hq => exact ⟨hgrants, _, hq⟩
  | finish hget hnode hwaits hnode' hcounter hgrants hq =>
    exact ⟨hgrants, [], by rw [hq, List.append_nil]⟩
  | cancel hget hwaits hnode' hcounter hgrants hq => exact ⟨hgrants, [], by rw [hq, List.append_nil]⟩
  | grant hqueue => exact absurd rfl ho
  | post hqueue => exact absurd rfl ho

/-- **What a step does for those that wait.** -/
theorem MixedEffect.serves {o : MixedOp W} (h : WakeQueue q s.tasks.alone)
    (heffect : MixedEffect s s' q q' o) : ∃ g c, Serves s s' q q' o g c := by
  have hlt := s.turn_lt
  have hlt' := s'.turn_lt
  have hhead : s.tasks.sem.wakeQueueHead = none ↔ q = [] := h.queue.head_eq_none
  cases heffect with
  | wait ho heffect hsignals hthreads hsame =>
    obtain ⟨hgrants, r, hq⟩ := heffect.in_line ho
    exact ⟨0, 0, serves_none rfl hgrants hsame.signals hsame.priority hq⟩
  | take hpos htasks hthreads hq =>
    refine ⟨0, 0, serves_none (r := []) rfl ?_ ?_ ?_ (by rw [hq, List.append_nil])⟩ <;> rw [htasks]
  | block hzero htasks hthreads hq =>
    refine ⟨0, 0, serves_none (r := []) rfl ?_ ?_ ?_ (by rw [hq, List.append_nil])⟩ <;> rw [htasks]
  | spurious hget htasks hthreads hq =>
    refine ⟨0, 0, serves_none (r := []) rfl ?_ ?_ ?_ (by rw [hq, List.append_nil])⟩ <;> rw [htasks]
  | resume hget hstage htasks hthreads hq =>
    refine ⟨0, 0, serves_none (r := []) rfl ?_ ?_ ?_ (by rw [hq, List.append_nil])⟩ <;> rw [htasks]
  | @toTask k hnot heffect a hqueue hgrants hsignals hthreads hwaiting hpriority hcond =>
    refine ⟨1, 0, ?_, ⟨[], ?_⟩, ?_, hcond, le_rfl, by rintro ⟨⟩, ?_, ?_⟩
    · rw [hgrants, hqueue]
      rfl
    · rw [hqueue]
      simp
    · rw [hqueue]
      simp
    · intro _
      simp only [MixedOp.isSignal, Bool.toNat_true]
      omega
    · intro hpos
      -- the tasks had the turn, and the threads have it now
      have heven : s.turn = 0 := by
        by_contra hodd
        exact hnot ⟨hpos, Or.inr (by unfold MixedSystem.turn at hlt hodd; omega)⟩
      have hturn : s'.turn = 1 := by
        rw [MixedSystem.turn, hpriority, if_pos hpos, sizeInc_mod_two]
        unfold MixedSystem.turn at heven
        omega
      simp [MixedOp.isSignal, heven, hturn]
  | @toThread k hto htasks hthreads hq =>
    refine ⟨0, 1, ?_, ⟨[], ?_⟩, Nat.zero_le _, ?_, le_rfl, by rintro ⟨⟩, ?_, ?_⟩
    · rw [htasks, List.take_zero, List.append_nil]
    · rw [hq, List.drop_zero, List.append_nil]
    · rw [htasks]
    · intro hne
      -- the threads had the turn, and the tasks have it now
      have hodd : s.turn = 1 := hto.2.resolve_left (mt hhead.mp hne)
      have hturn : s'.turn = 0 := by
        rw [MixedSystem.turn, htasks, if_neg hne, sizeInc_mod_two]
        unfold MixedSystem.turn at hodd
        omega
      simp [MixedOp.isSignal, hodd, hturn]
    · intro _
      simp only [MixedOp.isSignal, Bool.toNat_true]
      omega
  | @post k hnot hqueue htasks hthreads hq =>
    refine ⟨0, 0, ?_, ⟨[], ?_⟩, Nat.zero_le _, ?_, Nat.zero_le _, by rintro ⟨⟩, ?_, ?_⟩
    · rw [htasks, List.take_zero, List.append_nil]
    · rw [hq, hqueue]
      rfl
    · rw [htasks]
      rfl
    · intro hne
      exact absurd hqueue hne
    · intro hpos
      exact absurd ⟨hpos, Or.inl (hhead.mpr hqueue)⟩ hnot

/-- The wake queue of a reachable state. -/
theorem mixed_wakeQueue {permits : UInt64} {os : List (MixedOp W)}
    (h : Lib.run mixedStep (mixedSystem W permits) os = .ok s) : ∃ q, WakeQueue q s.tasks.alone :=
  Lib.run_invariant (P := fun _ _ => True) (I := fun s => ∃ q, WakeQueue q s.tasks.alone)
    (fun _ _ _ ⟨_, hq⟩ _ hok => (mixedStep_ok hq hok).imp fun _ hq' => hq'.1)
    ⟨[], wakeQueue_init permits⟩ (Lib.along_of_forall fun _ _ _ => trivial) h

/-- A signal is made only while a task and a thread wait. -/
def BothWait (s : MixedSystem W) (o : MixedOp W) : Prop :=
  o.isSignal = true → s.tasks.sem.wakeQueueHead ≠ none ∧ 0 < s.tasks.sem.blockingWakeWait

instance (s : MixedSystem W) (o : MixedOp W) : Decidable (BothWait s o) :=
  inferInstanceAs (Decidable (_ → _))

/-- After `n` signals since `s₁`, of which the tasks had `g` and the threads `c`. -/
def Alternates (s₁ : MixedSystem W) (n : Nat) (s : MixedSystem W) : Prop :=
  ∃ g c, s.tasks.sem.grants.length = s₁.tasks.sem.grants.length + g ∧
    s.tasks.sem.condSignals = s₁.tasks.sem.condSignals + c ∧ g + c ≤ n ∧
    n + s.turn ≤ 2 * g + s₁.turn ∧ n + s₁.turn ≤ 2 * c + s.turn

theorem alternates_step {o : MixedOp W} {n : Nat} (h : WakeQueue q s.tasks.alone)
    (hs : Alternates s₁ n s) (hboth : BothWait s o) (heffect : MixedEffect s s' q q' o) :
    Alternates s₁ (n + o.isSignal.toNat) s' := by
  obtain ⟨g, c, hg, hc, hn, htasks, hthreads⟩ := hs
  obtain ⟨g', c', hserves⟩ := heffect.serves h
  have hgrants : s'.tasks.sem.grants.length = s.tasks.sem.grants.length + g' := by
    rw [hserves.grants, List.length_append, List.length_take, Nat.min_eq_left hserves.length]
  have hcond := hserves.condSignals
  have hsignals := hserves.signals
  refine ⟨g + g', c + c', by omega, by omega, by omega, ?_, ?_⟩
  · cases ho : o.isSignal with
    | false =>
      rw [hserves.turn ho, Bool.toNat_false]
      omega
    | true =>
      have hqueue : q ≠ [] := mt h.queue.head_eq_none.mpr (hboth ho).1
      have hstep := hserves.tasks hqueue
      rw [ho] at hstep
      omega
  · cases ho : o.isSignal with
    | false =>
      rw [hserves.turn ho, Bool.toNat_false]
      omega
    | true =>
      have hstep := hserves.threads (hboth ho).2
      rw [ho] at hstep
      omega

theorem countP_isSignal_append (os : List (MixedOp W)) (o : MixedOp W) :
    (os ++ [o]).countP MixedOp.isSignal = os.countP MixedOp.isSignal + o.isSignal.toNat := by
  rw [List.countP_append, List.countP_singleton]
  cases o.isSignal with
  | true => rfl
  | false => rfl

/-- **Signals made while both sides wait go to them by turns**, also where `priority` overflows: of
`n` of them the tasks get every other one, and the threads the rest. -/
theorem mixed_alternates (permits : UInt64) (os₁ os₂ : List (MixedOp W))
    (h₁ : Lib.run mixedStep (mixedSystem W permits) os₁ = .ok s₁)
    (h₂ : Lib.run mixedStep s₁ os₂ = .ok s₂) (hboth : Lib.Along mixedStep BothWait s₁ os₂) :
    s₂.tasks.sem.grants.length =
        s₁.tasks.sem.grants.length + (os₂.countP MixedOp.isSignal + 1 - s₁.turn) / 2 ∧
      s₂.tasks.sem.condSignals =
        s₁.tasks.sem.condSignals + (os₂.countP MixedOp.isSignal + s₁.turn) / 2 := by
  have hrun : (∃ q, WakeQueue q s₂.tasks.alone) ∧
      Alternates s₁ (([] ++ os₂).countP MixedOp.isSignal) s₂ := by
    refine Lib.run_history (I := fun past s => (∃ q, WakeQueue q s.tasks.alone) ∧
      Alternates s₁ (past.countP MixedOp.isSignal) s) [] ?_ ⟨mixed_wakeQueue h₁, ?_⟩ hboth h₂
    · rintro past s o s' ⟨⟨q, hq⟩, hs⟩ ho hok
      obtain ⟨q', hq', heffect⟩ := mixedStep_ok hq hok
      rw [countP_isSignal_append]
      exact ⟨⟨q', hq'⟩, alternates_step hq hs ho heffect⟩
    · exact ⟨0, 0, rfl, rfl, le_rfl, by simp, by simp⟩
  obtain ⟨-, g, c, hg, hc, hn, htasks, hthreads⟩ := hrun
  rw [List.nil_append] at hn htasks hthreads
  have hlt₁ := s₁.turn_lt
  have hlt₂ := s₂.turn_lt
  omega

/-- Two tasks and two threads, and three signals: to a task, to a thread and to the other task. -/
theorem mixed_alternates_three : ∃ s₁ s₂,
    Lib.run mixedStep (mixedSystem Nat 0)
      [.wait (.wait false), .wait (.wait false), .wait (.poll 0 7), .wait (.poll 1 8), .blockingWait,
        .blockingWait] = .ok s₁ ∧
    Lib.run mixedStep s₁ [.signal 0, .signal 0, .signal 1] = .ok s₂ ∧
    s₂.tasks.sem.grants.length = s₁.tasks.sem.grants.length + (3 + 1 - s₁.turn) / 2 ∧
    s₂.tasks.sem.condSignals = s₁.tasks.sem.condSignals + (3 + s₁.turn) / 2 := by
  obtain ⟨s₁, h₁, hboth⟩ : ∃ s₁, Lib.run mixedStep (mixedSystem Nat 0)
      [.wait (.wait false), .wait (.wait false), .wait (.poll 0 7), .wait (.poll 1 8), .blockingWait,
        .blockingWait] = .ok s₁ ∧
        Lib.Along mixedStep BothWait s₁ [.signal 0, .signal 0, .signal 1] :=
    Lib.exists_ok_of_decide (by decide)
  obtain ⟨s₂, hrun, -⟩ : ∃ s₂, Lib.run mixedStep (mixedSystem Nat 0)
      ([.wait (.wait false), .wait (.wait false), .wait (.poll 0 7), .wait (.poll 1 8), .blockingWait,
        .blockingWait] ++ [.signal 0, .signal 0, .signal 1]) = .ok s₂ ∧ s₂.turn = 1 :=
    Lib.exists_ok_of_decide (by decide)
  obtain ⟨s, h, h₂⟩ := Lib.run_append.mp hrun
  obtain rfl : s₁ = s := Except.ok.inj (h₁.symm.trans h)
  exact ⟨s₁, s₂, h₁, h₂, mixed_alternates 0 _ _ h₁ h₂ hboth⟩

/-! ## The wait of a task -/

/-- After `n` signals since `s₁`, whose queue was `line`: the queue has got longer by `r`, and `g` of
its tasks were served, in order. -/
def ServedFrom (s₁ : MixedSystem W) (line : List Nat) (p n : Nat) (s : MixedSystem W) : Prop :=
  ∃ r g, WakeQueue ((line ++ r).drop g) s.tasks.alone ∧ g ≤ (line ++ r).length ∧
    s.tasks.sem.grants = s₁.tasks.sem.grants ++ (line ++ r).take g ∧
    (p < g ∨ n + s.turn ≤ 2 * g + s₁.turn)

theorem servedFrom_step {o : MixedOp W} {line : List Nat} {p n : Nat} (hp : p < line.length)
    (hs : ServedFrom s₁ line p n s) (hok : mixedStep s o = .ok s') :
    ServedFrom s₁ line p (n + o.isSignal.toNat) s' := by
  obtain ⟨r, g, hq, hg, hgrants, hrank⟩ := hs
  obtain ⟨q', hq', heffect⟩ := mixedStep_ok hq hok
  obtain ⟨g', c', hserves⟩ := heffect.serves hq
  obtain ⟨r', hqueue⟩ := hserves.queue
  have hlength := hserves.length
  rw [List.length_drop] at hlength
  refine ⟨r ++ r', g + g', ?_, ?_, ?_, ?_⟩
  · rw [← List.append_assoc, List.drop_append_of_le_length (by omega), ← List.drop_drop, ← hqueue]
    exact hq'
  · have hlonger : (line ++ (r ++ r')).length = (line ++ r).length + r'.length := by
      rw [← List.append_assoc, List.length_append]
    omega
  · have htake : (line ++ r ++ r').take (g + g') = (line ++ r).take (g + g') :=
      List.take_append_of_le_length (by omega)
    rw [hserves.grants, hgrants, ← List.append_assoc line, htake, List.append_assoc, ← List.take_add]
  · rcases hrank with hserved | hrank
    · exact Or.inl (by omega)
    · by_cases hserved : p < g
      · exact Or.inl (by omega)
      · -- the queue is not empty before the task is served
        have hne : (line ++ r).drop g ≠ [] := by
          rw [Ne, List.drop_eq_nil_iff, List.length_append]
          omega
        have hstep := hserves.tasks hne
        exact Or.inr (by omega)

/-- **A task that waits behind `p` others is served with the `2 p + 2`nd signal at the latest**, after
those before it and in their order, whatever the threads do. The turn saves a signal where it is the
tasks'. -/
theorem mixed_served_in_time (permits : UInt64) (os₁ os₂ : List (MixedOp W)) (q₁ q₂ : List Nat)
    (a : Nat)
    (h₁ : Lib.run mixedStep (mixedSystem W permits) os₁ = .ok s₁)
    (h₂ : Lib.run mixedStep s₁ os₂ = .ok s₂)
    (hqueue : Lib.Chain s₁.tasks.sem.next s₁.tasks.sem.wakeQueueHead (q₁ ++ a :: q₂))
    (hmany : 2 * q₁.length + s₁.turn < os₂.countP MixedOp.isSignal) :
    s₁.tasks.sem.grants ++ q₁ ++ [a] <+: s₂.tasks.sem.grants := by
  obtain ⟨q, hq⟩ := mixed_wakeQueue h₁
  have hline : q = q₁ ++ a :: q₂ := hq.queue.chain.unique hqueue
  have hrun : ServedFrom s₁ q q₁.length (([] ++ os₂).countP MixedOp.isSignal) s₂ := by
    refine Lib.run_history (P := fun _ _ => True)
      (I := fun past s => ServedFrom s₁ q q₁.length (past.countP MixedOp.isSignal) s) [] ?_ ?_
      (Lib.along_of_forall fun _ _ _ => trivial) h₂
    · rintro past s o s' hs - hok
      rw [countP_isSignal_append]
      exact servedFrom_step (by simp [hline]) hs hok
    · refine ⟨[], 0, ?_, Nat.zero_le _, ?_, Or.inr ?_⟩
      · rwa [List.append_nil, List.drop_zero]
      · rw [List.take_zero, List.append_nil]
      · simp
  obtain ⟨r, g, hq₂, hg, hgrants, hrank⟩ := hrun
  rw [List.nil_append] at hrank
  have hserved : (q₁ ++ [a]).length ≤ g := by
    rw [List.length_append, List.length_singleton]
    omega
  rw [hgrants, List.append_assoc, List.prefix_append_right_inj, hline, List.prefix_take_iff]
  exact ⟨⟨q₂ ++ r, by simp⟩, hserved⟩

/-- The second of two tasks, with a thread that waits and gets every other signal. -/
theorem mixed_served_in_time_second : ∃ s₁ s₂,
    Lib.run mixedStep (mixedSystem Nat 0)
      [.wait (.wait false), .wait (.wait false), .wait (.poll 0 7), .wait (.poll 1 8),
        .blockingWait] = .ok s₁ ∧
    Lib.run mixedStep s₁ [.signal 0, .signal 0, .blockingWait, .signal 0] = .ok s₂ ∧
    s₁.tasks.sem.grants ++ [0] ++ [1] <+: s₂.tasks.sem.grants := by
  obtain ⟨s₁, h₁, hqueue, hmany⟩ : ∃ s₁, Lib.run mixedStep (mixedSystem Nat 0)
      [.wait (.wait false), .wait (.wait false), .wait (.poll 0 7), .wait (.poll 1 8),
        .blockingWait] = .ok s₁ ∧ (s₁.tasks.sem.wakeQueueHead = some 0 ∧ s₁.tasks.sem.next 0 = some 1 ∧
          s₁.tasks.sem.next 1 = none) ∧ 2 * [0].length + s₁.turn < 3 :=
    Lib.exists_ok_of_decide (by decide)
  obtain ⟨s₂, hrun, -⟩ : ∃ s₂, Lib.run mixedStep (mixedSystem Nat 0)
      ([.wait (.wait false), .wait (.wait false), .wait (.poll 0 7), .wait (.poll 1 8),
        .blockingWait] ++ [.signal 0, .signal 0, .blockingWait, .signal 0]) = .ok s₂ ∧ s₂.turn = 1 :=
    Lib.exists_ok_of_decide (by decide)
  obtain ⟨s, h, h₂⟩ := Lib.run_append.mp hrun
  obtain rfl : s₁ = s := Except.ok.inj (h₁.symm.trans h)
  exact ⟨s₁, s₂, h₁, h₂, mixed_served_in_time 0 _ _ [0] [] 1 h₁ h₂ hqueue hmany⟩

end Taskio
