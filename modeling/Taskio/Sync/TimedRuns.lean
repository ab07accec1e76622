import Taskio.Lib.Run
import Taskio.Sync.OwnWait

/-!
# A timed wait tells the truth

The ready list of the select has the order in which the wakers of the two children were called, and its
head decides. A permit is handed over when the signal comes, the answer is given when the select is
polled. The answer is right if the signal, when it takes the node of the call, finds that the timer's
handler was not called yet.

* `Phase` — where the call stands: its wait, its sleep, and the lists of the select
* `timedInv_step` — what one step keeps
* `timedwait_tells_truth` — over runs
-/

namespace Taskio

variable {s s' : TimedWait} {s₀ : SemaphoreSystem Nat} {o : TimedOp} {k a i : Nat}

/-! ## The phases -/

/-- The children that were woken while the call awaits, in order. -/
def TimedWait.woken (s : TimedWait) (a : Nat) : List Nat :=
  (if a ∈ s.sys.sem.grants then [0] else []) ++ if s.handled then [1] else []

theorem mem_woken : i ∈ s.woken a ↔ i = 0 ∧ a ∈ s.sys.sem.grants ∨ i = 1 ∧ s.handled = true := by
  unfold TimedWait.woken
  by_cases hgranted : a ∈ s.sys.sem.grants <;> by_cases hhandled : s.handled = true <;>
    simp [hgranted, hhandled]

theorem nodup_woken (s : TimedWait) (a : Nat) : (s.woken a).Nodup := by
  unfold TimedWait.woken
  split <;> split <;> simp

/-- The wait `k` after its first poll, and the winners: it was ready, or it is queued. -/
def PolledOnce (s : TimedWait) (k : Nat) (won : List Nat) : Prop :=
  won = [0] ∧ OwnWait s.sys k .completed none ∨
    won = [] ∧ ∃ a, OwnWait s.sys k .live (some a) ∧ a ∉ s.sys.sem.grants

/-- Where the call stands. -/
inductive Phase (s : TimedWait) : Prop
  | absent (hstage : s.stage = .absent) (hwait : s.wait = none) (hscope : s.scope = .first)
      (hhandled : s.handled = false) : Phase s
  | made {k : Nat} (hstage : s.stage = .made) (hwait : s.wait = some k) (hfresh : FreshWait s.sys k)
      (hscope : s.scope = .first) (hhandled : s.handled = false) : Phase s
  /-- The first poll, before the wait is polled, before the sleep is polled, and after. -/
  | begun {k : Nat} (hstage : s.stage = .polling true) (hwait : s.wait = some k)
      (hfresh : FreshWait s.sys k) (hscope : s.scope = .first) (hhandled : s.handled = false)
      (hselects : Selects [0, 1] [] [] s.select) : Phase s
  | waited {k : Nat} {won : List Nat} (hstage : s.stage = .polling true) (hwait : s.wait = some k)
      (hfirst : PolledOnce s k won) (hscope : s.scope = .first) (hhandled : s.handled = false)
      (hselects : Selects [1] [] won s.select) : Phase s
  | armed {k : Nat} {won : List Nat} (hstage : s.stage = .polling true) (hwait : s.wait = some k)
      (hfirst : PolledOnce s k won) (hscope : s.scope = .second)
      (hselects : Selects [] (if s.handled then [1] else []) won s.select) : Phase s
  | awaiting {k a : Nat} (hstage : s.stage = .awaiting) (hwait : s.wait = some k)
      (hown : OwnWait s.sys k .live (some a)) (hscope : s.scope = .second)
      (hselects : Selects [] (s.woken a) [] s.select) : Phase s
  /-- A later poll: the children that were woken are polled, and win. -/
  | resumed {k a : Nat} {rest won : List Nat} (hstage : s.stage = .polling false)
      (hwait : s.wait = some k) (hwoken : won ++ rest = s.woken a)
      (hown : OwnWait s.sys k (if 0 ∈ won then .completed else .live) (some a))
      (hscope : s.scope = if 1 ∈ won then .done else .second)
      (hselects : Selects rest [] won s.select) : Phase s
  | passed {k : Nat} (hstage : s.stage = .passed 0) (hwait : s.wait = some k)
      (hown : OwnWait s.sys k .completed none) : Phase s
  | kept (hstage : s.stage = .returned true) (htaken : s.taken = true) : Phase s
  | missed {k a : Nat} (hstage : s.stage = .returned false) (hwait : s.wait = some k)
      (hown : OwnWait s.sys k .cleaned (some a)) (hfree : a ∉ s.sys.sem.grants)
      (hhandled : s.handled = true) : Phase s

/-- The invariant. -/
structure TimedInv (s : TimedWait) : Prop where
  sys : SysInv s.wait s.sys
  len : s.select.len = 2
  phase : Phase s

/-- What a step does to the semaphore without the call, as long as the call has taken no permit. -/
def KeepsWithout (s s' : TimedWait) (o : TimedOp) : Prop :=
  s'.taken = false → s.taken = false ∧ ∀ s₀, Without s.wait s.sys s₀ →
    ∃ s₀', withoutCall s₀ o = .ok s₀' ∧ Without s'.wait s'.sys s₀'

/-- A step that leaves the semaphore alone. -/
theorem keepsWithout_of_same (hsys : s'.sys = s.sys) (hwait : s'.wait = s.wait)
    (ho : ∀ s₀, withoutCall s₀ o = .ok s₀) : KeepsWithout s s' o := by
  intro htaken
  unfold TimedWait.taken at htaken ⊢
  rw [hsys, hwait] at htaken
  refine ⟨htaken, fun s₀ h => ⟨s₀, ho s₀, ?_⟩⟩
  rw [hsys, hwait]
  exact h

theorem joinStep_len {select select' : JoinExt (List Nat)} {o : JoinOp}
    (hok : joinStep selectCallbacks select o = .ok select') : select'.len = select.len :=
  (joinStep_effect hok).history.1

/-! ## The wakers of the children -/

theorem wakeChild_cases (hok : wakeChild s i = .ok s') :
    ((∃ first, s.stage = .polling first) ∨ s.stage = .awaiting) ∧
      ∃ select, joinStep selectCallbacks s.select (.wake i) = .ok select ∧
        s' = { s with select := select } := by
  unfold wakeChild at hok
  split at hok
  · rename_i first hstage
    obtain ⟨select, hselect, hok⟩ := bind_eq_ok.mp hok
    cases hok
    exact ⟨Or.inl ⟨first, hstage⟩, select, hselect, rfl⟩
  · rename_i hstage
    obtain ⟨select, hselect, hok⟩ := bind_eq_ok.mp hok
    cases hok
    exact ⟨Or.inr hstage, select, hselect, rfl⟩
  all_goals cases hok

/-- The timer's handler is called. -/
theorem timeoutHandler_step (h : TimedInv s) (hok : timeoutHandler s = .ok s') :
    TimedInv s' ∧ KeepsWithout s s' .expire := by
  unfold timeoutHandler at hok
  split at hok
  · rename_i hstage hscope
    by_cases hhandled : s.handled = true
    · rw [if_pos hhandled] at hok
      cases hok
    rw [if_neg hhandled] at hok
    obtain ⟨-, select, hselect, rfl⟩ := wakeChild_cases hok
    refine ⟨⟨h.sys, (joinStep_len hselect).trans h.len, ?_⟩, keepsWithout_of_same rfl rfl fun _ => rfl⟩
    cases h.phase with
    | @awaiting k a hstage' hwait hown _ hselects =>
      have hwoken : s.woken a = if a ∈ s.sys.sem.grants then [0] else [] := by
        unfold TimedWait.woken
        rw [if_neg hhandled, List.append_nil]
      have hnotin : 1 ∉ [] ++ s.woken a := by
        rw [hwoken]
        split <;> simp
      obtain ⟨hselects', -⟩ := hselects.wake (by rw [h.len]; omega) List.not_mem_nil hnotin hselect
      refine .awaiting hstage hwait hown hscope ?_
      rw [hwoken] at hselects'
      exact hselects'
    | _ hstage' => exact absurd (hstage.symm.trans hstage') (by simp)
  · cases hok

/-! ## The others -/

/-- A call by the others, when no signal takes the call's node. -/
theorem Phase.other {sys : SemaphoreSystem Nat} (h : Phase s)
    (hpolling : ∀ first, s.stage ≠ .polling first)
    (hwaits : ∀ k ∈ s.wait, sys.waits[k]? = s.sys.waits[k]?)
    (hmono : ∀ a ∈ s.sys.sem.grants, a ∈ sys.sem.grants)
    (hgrants : ∀ a ∈ s.node, a ∈ sys.sem.grants ↔ a ∈ s.sys.sem.grants) :
    Phase { s with sys := sys } := by
  cases h with
  | absent hstage hwait hscope hhandled => exact .absent hstage hwait hscope hhandled
  | made hstage hwait hfresh hscope hhandled =>
    exact .made hstage hwait ((hwaits _ hwait).trans hfresh) hscope hhandled
  | begun hstage => exact absurd hstage (hpolling _)
  | waited hstage => exact absurd hstage (hpolling _)
  | armed hstage => exact absurd hstage (hpolling _)
  | @awaiting k a hstage hwait hown hscope hselects =>
    have hnode : a ∈ s.node := by
      unfold TimedWait.node
      rw [hwait]
      exact hown.nodeOf
    refine .awaiting hstage hwait (hown.congr (hwaits _ hwait)) hscope ?_
    have hwoken : s.woken a = TimedWait.woken { s with sys := sys } a := by
      unfold TimedWait.woken
      simp only [hgrants a hnode]
    rw [← hwoken]
    exact hselects
  | resumed hstage => exact absurd hstage (hpolling _)
  | passed hstage hwait hown => exact .passed hstage hwait (hown.congr (hwaits _ hwait))
  | kept hstage htaken => exact .kept hstage (takenBy_kept hwaits hmono htaken)
  | @missed k a hstage hwait hown hfree hhandled =>
    have hnode : a ∈ s.node := by
      unfold TimedWait.node
      rw [hwait]
      exact hown.nodeOf
    refine .missed hstage hwait (hown.congr (hwaits _ hwait)) ?_ hhandled
    exact fun hgranted => hfree ((hgrants a hnode).mp hgranted)

/-- The others do the same without the call. -/
theorem keepsWithout_other {o : OtherOp} (h : SysInv s.wait s.sys)
    (hok : semaphoreStep s.sys (o.beside s.wait) = .ok s'.sys) (hwait : s'.wait = s.wait) :
    KeepsWithout s s' (.other o) := by
  obtain ⟨q, hq⟩ := h.queue
  obtain ⟨q', -, heffect, -⟩ := semaphoreStep_ok hq hok
  obtain ⟨-, hwaits, -⟩ := h.other hok
  intro htaken
  unfold TimedWait.taken at htaken
  rw [hwait] at htaken
  constructor
  · cases hbefore : s.taken with
    | false => rfl
    | true =>
      rw [takenBy_kept hwaits (fun a ha => heffect.grants_kept ha) hbefore] at htaken
      cases htaken
  · intro s₀ hwithout
    rw [hwait]
    refine hwithout.other hok hwaits ?_
    intro a ha hgranted
    have hnode : s'.sys.nodeOf s.wait = s.sys.nodeOf s.wait := nodeOf_congr hwaits
    unfold SemaphoreSystem.takenBy at htaken
    rw [hnode, ha] at htaken
    exact of_decide_eq_false htaken hgranted

theorem otherCall_step {o : OtherOp} (h : TimedInv s) (htimely : Timely s (.other o))
    (hpolling : ∀ first, s.stage ≠ .polling first) (hother : otherCall s o = .ok s') :
    TimedInv s' ∧ KeepsWithout s s' (.other o) := by
  obtain ⟨sys, hsys, hok⟩ := bind_eq_ok.mp hother
  obtain ⟨q, hq⟩ := h.sys.queue
  obtain ⟨q', -, heffect, -⟩ := semaphoreStep_ok hq hsys
  obtain ⟨hinv, hwaits, hcases⟩ := h.sys.other hsys
  rcases hcases with ⟨hgrants, hcalled⟩ | ⟨rfl, k, a, hwait, hnode, hhead, hfree, hgranted, hcalled⟩
  · -- the call's waker is not called
    have hsame : s' = { s with sys := sys } := by
      simp only at hok
      split at hok
      · rename_i waker wakers hwoken
        rw [if_neg (hcalled waker (by rw [hwoken]; exact List.mem_cons_self))] at hok
        split at hok
        · cases hok
        · cases hok
          rfl
      · cases hok
        rfl
    subst hsame
    refine ⟨⟨hinv, h.len, ?_⟩, keepsWithout_other h.sys hsys rfl⟩
    exact h.phase.other hpolling hwaits (fun a ha => heffect.grants_kept ha) hgrants
  · simp only [hcalled, hwait, if_true] at hok
    obtain ⟨hstage, select, hselect, rfl⟩ := wakeChild_cases hok
    rw [← hwait] at hselect ⊢
    refine ⟨⟨hinv, (joinStep_len hselect).trans h.len, ?_⟩, keepsWithout_other h.sys hsys rfl⟩
    rcases hstage with ⟨first, hstage⟩ | hstage
    · exact absurd hstage (hpolling first)
    cases h.phase with
    | @awaiting k' a' _ hwait' hown hscope hselects =>
      have hmine : s.sys.nodeOf s.wait = some a' := by
        rw [hwait']
        exact hown.nodeOf
      rw [hnode] at hmine
      cases hmine
      -- it comes before the timer
      have hhandled : ¬ s.handled = true := fun hhandled => htimely rfl hhandled a hnode hhead
      have hnone : s.woken a = [] := by
        unfold TimedWait.woken
        rw [if_neg hfree, if_neg hhandled]
        rfl
      rw [hnone] at hselects
      obtain ⟨hselects', -⟩ :=
        hselects.wake (by rw [h.len]; omega) List.not_mem_nil List.not_mem_nil hselect
      refine .awaiting hstage hwait' (hown.congr (hwaits _ hwait')) hscope ?_
      unfold TimedWait.woken
      rw [if_pos hgranted, if_neg hhandled]
      exact hselects'
    | _ hstage' => exact absurd (hstage.symm.trans hstage') (by simp)

/-! ## The call and its polls -/

theorem semaphoreTimedwait_step {delay : Nat} (h : TimedInv s)
    (hok : semaphoreTimedwait s delay = .ok s') : TimedInv s' ∧ KeepsWithout s s' (.call delay) := by
  unfold semaphoreTimedwait at hok
  split at hok
  · rename_i hstage
    cases hok
    cases h.phase with
    | absent _ hwait hscope hhandled =>
      have hsys := h.sys
      rw [hwait] at hsys
      have hfresh : FreshWait { s.sys with waits := s.sys.waits ++ [⟨semaphoreWait true, .live⟩] }
          s.sys.waits.length := List.getElem?_concat_length
      refine ⟨⟨hsys.call, h.len, .made rfl rfl hfresh hscope hhandled⟩, fun _ => ⟨?_, ?_⟩⟩
      · unfold TimedWait.taken
        rw [hwait]
        rfl
      · intro s₀ hwithout
        rw [hwait] at hwithout
        exact ⟨s₀, rfl, hwithout.call⟩
    | _ hstage' => exact absurd (hstage.symm.trans hstage') (by simp)
  · cases hok

theorem timedwaitPoll_step (h : TimedInv s) (hok : timedwaitPoll s = .ok s') :
    TimedInv s' ∧ KeepsWithout s s' .poll := by
  unfold timedwaitPoll at hok
  split at hok
  · rename_i hstage
    obtain ⟨select, hselect, hok⟩ := bind_eq_ok.mp hok
    cases hok
    refine ⟨⟨h.sys, joinStep_len hselect, ?_⟩, keepsWithout_of_same rfl rfl fun _ => rfl⟩
    obtain ⟨hselects, -⟩ := (selects_init 2).poll hselect
    cases h.phase with
    | made _ hwait hfresh hscope hhandled =>
      exact .begun rfl hwait hfresh hscope hhandled hselects
    | _ hstage' => exact absurd (hstage.symm.trans hstage') (by simp)
  · rename_i hstage
    obtain ⟨select, hselect, hok⟩ := bind_eq_ok.mp hok
    cases hok
    refine ⟨⟨h.sys, (joinStep_len hselect).trans h.len, ?_⟩,
      keepsWithout_of_same rfl rfl fun _ => rfl⟩
    cases h.phase with
    | awaiting _ hwait hown hscope hselects =>
      exact .resumed rfl hwait (List.nil_append _) hown hscope (hselects.poll hselect).1
    | _ hstage' => exact absurd (hstage.symm.trans hstage') (by simp)
  · rename_i result hstage
    cases hok
    refine ⟨⟨h.sys, h.len, ?_⟩, keepsWithout_of_same rfl rfl fun _ => rfl⟩
    cases h.phase with
    | passed hstage' hwait hown =>
      rw [hstage] at hstage'
      cases hstage'
      refine .kept rfl ?_
      show s.sys.takenBy s.wait = true
      rw [hwait, hown.takenBy_none]
      rfl
    | _ hstage' => exact absurd (hstage.symm.trans hstage') (by simp)
  all_goals cases hok

/-! ## A turn of the loop -/

/-- A turn polls the child at the head of the walk, which is pending or wins. -/
theorem selectTurn_cases {rest list won : List Nat} (hselects : Selects rest list won s.select)
    (hlen : s.select.len = 2) (hwalk : s.select.stage = .walking (some i))
    (hok : selectTurn s k i = .ok s') :
    ∃ rest' select s₁ poll select', rest = i :: rest' ∧ Selects rest' list won select ∧
      select.len = 2 ∧ select.stage = .polling i rest'.head? ∧
      pollChild { s with select := select } k i = .ok (s₁, poll) ∧
      joinStep selectCallbacks s₁.select (.ret poll) = .ok select' ∧
      (poll ≠ .ready ∧ s' = { s₁ with select := select' } ∨ poll = .ready ∧
        ∃ select'', joinStep selectCallbacks select' .cleaned = .ok select'' ∧
          s' = { s₁ with select := select'' }) := by
  unfold selectTurn at hok
  obtain ⟨select, hchild, hok⟩ := bind_eq_ok.mp hok
  obtain ⟨⟨s₁, poll⟩, hpoll, hok⟩ := bind_eq_ok.mp hok
  obtain ⟨select', hret, hok⟩ := bind_eq_ok.mp hok
  obtain ⟨j, rest', hrest, hwalk', hselects', hpolling⟩ := hselects.child hchild
  rw [hwalk] at hwalk'
  cases hwalk'
  refine ⟨rest', select, s₁, poll, select', hrest, hselects', (joinStep_len hchild).trans hlen,
    hpolling, hpoll, hret, ?_⟩
  by_cases hready : poll = .ready
  · rw [if_pos hready] at hok
    obtain ⟨select'', hcleaned, hok⟩ := bind_eq_ok.mp hok
    cases hok
    exact Or.inr ⟨hready, select'', hcleaned, rfl⟩
  · rw [if_neg hready] at hok
    cases hok
    exact Or.inl ⟨hready, rfl⟩

/-- The lists after a turn. -/
theorem turn_selects {select select' : JoinExt (List Nat)} {rest list won : List Nat}
    {next : Option Nat} {poll : FuturePoll} (h : Selects rest list won select)
    (hlen : select.len = 2) (hstage : select.stage = .polling i next) (hi : i < 2) (hwon : i ∉ won)
    (hnotin : i ∉ rest ++ list)
    (hret : joinStep selectCallbacks select (.ret poll) = .ok select') :
    (poll ≠ .ready → Selects rest list won select' ∧ select'.len = 2) ∧
      (poll = .ready → ∀ select'', joinStep selectCallbacks select' .cleaned = .ok select'' →
        Selects rest list (won ++ [i]) select'' ∧ select''.len = 2) := by
  constructor
  · intro hpoll
    exact ⟨(h.ret hstage hpoll hret).1, (joinStep_len hret).trans hlen⟩
  · rintro rfl select'' hcleaned
    refine ⟨(h.wins hstage (hlen ▸ hi) hwon hnotin hret hcleaned).1, ?_⟩
    rw [joinStep_len hcleaned, joinStep_len hret, hlen]

/-- The wait is polled for the first time. -/
theorem turn_begun (h : TimedInv s) (hstage : s.stage = .polling true) (hwait : s.wait = some k)
    (hfresh : FreshWait s.sys k) (hscope : s.scope = .first) (hhandled : s.handled = false)
    (hselects : Selects [0, 1] [] [] s.select) (hwalk : s.select.stage = .walking (some i))
    (hok : selectTurn s k i = .ok s') : TimedInv s' ∧ KeepsWithout s s' .turn := by
  obtain ⟨rest, select, s₁, poll, select', hrest, hselects', hlen, hpolling, hpolled, hret, hcases⟩ :=
    selectTurn_cases hselects h.len hwalk hok
  cases hrest
  obtain ⟨sys, hsys, hpolled⟩ := bind_eq_ok.mp hpolled
  cases hpolled
  have hinv := h.sys
  rw [hwait] at hinv
  obtain ⟨hinv', hfirst⟩ := hinv.firstPoll hfresh hsys
  obtain ⟨hpending, hready⟩ :=
    turn_selects hselects' hlen hpolling (by omega) List.not_mem_nil (by simp) hret
  have hkeeps : ∀ select'' : JoinExt (List Nat),
      KeepsWithout s { s with sys := sys, select := select'' } .turn := by
    intro select'' htaken
    have htaken' : sys.takenBy (some k) = false := hwait ▸ htaken
    refine ⟨?_, fun s₀ hwithout => ⟨s₀, rfl, ?_⟩⟩
    · unfold TimedWait.taken
      rw [hwait]
      exact hfresh.takenBy
    · rw [hwait] at hwithout
      show Without s.wait sys s₀
      rw [hwait]
      exact hwithout.enqueue hfresh hsys htaken'
  rcases hcases with ⟨hpoll, rfl⟩ | ⟨hpoll, select'', hcleaned, rfl⟩
  · obtain ⟨hselects'', hlen'⟩ := hpending hpoll
    refine ⟨⟨hwait ▸ hinv', hlen', .waited hstage hwait ?_ hscope hhandled hselects''⟩, hkeeps select'⟩
    rcases hfirst with hown | hown
    · rw [hown.isCompleted] at hpoll
      exact absurd rfl hpoll
    · exact Or.inr ⟨rfl, hown⟩
  · obtain ⟨hselects'', hlen'⟩ := hready hpoll select'' hcleaned
    refine ⟨⟨hwait ▸ hinv', hlen', .waited hstage hwait ?_ hscope hhandled hselects''⟩,
      hkeeps select''⟩
    rcases hfirst with hown | ⟨a, hown, -⟩
    · exact Or.inl ⟨rfl, hown⟩
    · rw [hown.isCompleted] at hpoll
      cases hpoll

/-- The sleep is polled for the first time: its timer is added, or called at once. -/
theorem turn_waited {won : List Nat} (h : TimedInv s) (hstage : s.stage = .polling true)
    (hwait : s.wait = some k) (hfirst : PolledOnce s k won) (hscope : s.scope = .first)
    (hhandled : s.handled = false) (hselects : Selects [1] [] won s.select)
    (hwalk : s.select.stage = .walking (some i)) (hok : selectTurn s k i = .ok s') :
    TimedInv s' ∧ KeepsWithout s s' .turn := by
  obtain ⟨rest, select, s₁, poll, select', hrest, hselects', hlen, hpolling, hpolled, hret, hcases⟩ :=
    selectTurn_cases hselects h.len hwalk hok
  cases hrest
  have hwon : 1 ∉ won := by
    rcases hfirst with ⟨rfl, -⟩ | ⟨rfl, -⟩ <;> simp
  unfold pollChild pollSleepChild at hpolled
  simp only [hscope, Nat.one_ne_zero, if_false] at hpolled
  by_cases hdelay : s.delay = 0
  · rw [if_pos hdelay] at hpolled
    obtain ⟨s₂, hwake, hpolled⟩ := bind_eq_ok.mp hpolled
    cases hpolled
    obtain ⟨-, woken, hwoken, rfl⟩ := wakeChild_cases hwake
    obtain ⟨hselects', hsame⟩ := hselects'.wake (by omega) hwon (by simp) hwoken
    rcases hcases with ⟨-, rfl⟩ | ⟨hready, -⟩
    · refine ⟨⟨h.sys, ?_, ?_⟩, keepsWithout_of_same rfl rfl fun _ => rfl⟩
      · exact (joinStep_len hret).trans ((joinStep_len hwoken).trans hlen)
      · exact .armed hstage hwait hfirst rfl
          (hselects'.ret (hsame.trans hpolling) (by simp) hret).1
    · cases hready
  · rw [if_neg hdelay] at hpolled
    cases hpolled
    rcases hcases with ⟨-, rfl⟩ | ⟨hready, -⟩
    · refine ⟨⟨h.sys, (joinStep_len hret).trans hlen, ?_⟩,
        keepsWithout_of_same rfl rfl fun _ => rfl⟩
      refine .armed hstage hwait hfirst rfl ?_
      show Selects [] (if s.handled then [1] else []) won select'
      rw [hhandled]
      exact (hselects'.ret hpolling (by simp) hret).1
    · cases hready

/-- A child that was woken is polled again, and wins. -/
theorem turn_resumed {rest won : List Nat} (h : TimedInv s) (hstage : s.stage = .polling false)
    (hwait : s.wait = some k) (hwoken : won ++ rest = s.woken a)
    (hown : OwnWait s.sys k (if 0 ∈ won then .completed else .live) (some a))
    (hscope : s.scope = if 1 ∈ won then .done else .second) (hselects : Selects rest [] won s.select)
    (hwalk : s.select.stage = .walking (some i)) (hok : selectTurn s k i = .ok s') :
    TimedInv s' ∧ KeepsWithout s s' .turn := by
  obtain ⟨rest, select, s₁, poll, select', rfl, hselects', hlen, hpolling, hpolled, hret, hcases⟩ :=
    selectTurn_cases hselects h.len hwalk hok
  -- the child is in the list that the poll found, which has it once
  have hmem : i ∈ s.woken a := hwoken ▸ List.mem_append_right _ List.mem_cons_self
  have hnodup : (won ++ i :: rest).Nodup := hwoken ▸ nodup_woken s a
  obtain ⟨-, hright, hdisjoint⟩ := List.nodup_append.mp hnodup
  have hwon : i ∉ won := fun hi => hdisjoint i hi i List.mem_cons_self rfl
  have hnotin : i ∉ rest ++ [] := by
    rw [List.append_nil]
    exact (List.nodup_cons.mp hright).1
  have hnext : (won ++ [i]) ++ rest = s.woken a := by rw [← hwoken, List.append_assoc]; rfl
  rcases mem_woken.mp hmem with ⟨rfl, hgranted⟩ | ⟨rfl, -⟩
  · obtain ⟨sys, hsys, hpolled⟩ := bind_eq_ok.mp hpolled
    cases hpolled
    have hinv := h.sys
    rw [hwait] at hinv
    rw [if_neg hwon] at hown
    obtain ⟨hinv', hown', hgrants⟩ := hinv.secondPoll hown hsys
    rw [hown'.isCompleted] at hret hcases
    rcases hcases with ⟨hpending, -⟩ | ⟨-, select'', hcleaned, rfl⟩
    · exact absurd rfl hpending
    obtain ⟨hselects'', hlen''⟩ :=
      (turn_selects hselects' hlen hpolling (by omega) hwon hnotin hret).2 rfl select'' hcleaned
    refine ⟨⟨hwait ▸ hinv', hlen'', .resumed (a := a) hstage hwait ?_ ?_ ?_ hselects''⟩,
      ?_⟩
    · rw [hnext]
      unfold TimedWait.woken
      simp only [hgrants]
    · rw [if_pos (by simp)]
      exact hown'
    · simpa using hscope
    · intro htaken
      have htaken' : sys.takenBy (some k) = false := hwait ▸ htaken
      rw [hown'.takenBy, hgrants] at htaken'
      exact absurd hgranted (of_decide_eq_false htaken')
  · unfold pollChild pollSleepChild at hpolled
    rw [if_neg hwon] at hscope
    simp only [hscope, Nat.one_ne_zero, if_false] at hpolled
    cases hpolled
    rcases hcases with ⟨hpending, -⟩ | ⟨-, select'', hcleaned, rfl⟩
    · exact absurd rfl hpending
    obtain ⟨hselects'', hlen''⟩ :=
      (turn_selects hselects' hlen hpolling (by omega) hwon hnotin hret).2 rfl select'' hcleaned
    refine ⟨⟨h.sys, hlen'', .resumed hstage hwait hnext ?_ ?_ hselects''⟩,
      keepsWithout_of_same rfl rfl fun _ => rfl⟩
    · simpa using hown
    · simp

theorem selectTurn_step {first : Bool} (h : TimedInv s) (hstage : s.stage = .polling first)
    (hwait : s.wait = some k) (hwalk : s.select.stage = .walking (some i))
    (hok : selectTurn s k i = .ok s') : TimedInv s' ∧ KeepsWithout s s' .turn := by
  have hsame : ∀ {j : Nat}, s.wait = some j → j = k := fun hj => by simpa [hwait] using hj.symm
  cases h.phase with
  | begun hstage' hwait' hfresh hscope hhandled hselects =>
    obtain rfl := hsame hwait'
    exact turn_begun h hstage' hwait hfresh hscope hhandled hselects hwalk hok
  | waited hstage' hwait' hfirst hscope hhandled hselects =>
    obtain rfl := hsame hwait'
    exact turn_waited h hstage' hwait hfirst hscope hhandled hselects hwalk hok
  | armed hstage' hwait' hfirst hscope hselects =>
    have hrest := hselects.walk
    rw [JoinExt.walk, hwalk] at hrest
    cases hrest
  | resumed hstage' hwait' hwoken hown hscope hselects =>
    obtain rfl := hsame hwait'
    exact turn_resumed h hstage' hwait hwoken hown hscope hselects hwalk hok
  | _ hstage' => exact absurd (hstage.symm.trans hstage') (by simp)

/-! ## The end of a poll -/

/-- The select is pending, or it returns a winner and the children that have not won are cleaned up. -/
theorem selectFinish_cases {first : Bool} {rand : Nat} {rest list won : List Nat}
    (h : Selects rest list won s.select) (hlen : s.select.len = 2)
    (hok : selectFinish s k first rand = .ok s') :
    rest = [] ∧ (won = [] ∧ (∃ select, Selects [] list [] select ∧ select.len = 2 ∧
        s' = { s with select := select, stage := .awaiting }) ∨
      ∃ winner s₁ select, won.head? = some winner ∧
        ((List.range 2).filter fun i => decide (i ∉ won)).foldlM (fun s i => cleanupChild s k i) s =
          .ok s₁ ∧ select.len = 2 ∧
        s' = { s₁ with
          select := select
          stage := if first then .passed winner else .returned (winner == 0) }) := by
  unfold selectFinish at hok
  obtain ⟨select, hfinish, hok⟩ := bind_eq_ok.mp hok
  obtain ⟨hrest, hselects, hwinner, hnone⟩ := h.finish hfinish
  have hlen' : select.len = 2 := (joinStep_len hfinish).trans hlen
  refine ⟨hrest, ?_⟩
  cases won with
  | nil =>
    rw [hnone rfl (by omega)] at hok
    cases hok
    exact Or.inl ⟨rfl, select, hselects, hlen', rfl⟩
  | cons winner won =>
    have hstage := hwinner winner rfl
    rw [hstage] at hok
    obtain ⟨s₁, hclean, hok⟩ := bind_eq_ok.mp hok
    obtain ⟨select', hcleanup, hok⟩ := bind_eq_ok.mp hok
    rw [hselects.pending_eq (by simp [hstage]) (by simp [hstage]), hlen'] at hclean
    cases hok
    exact Or.inr ⟨winner, s₁, select', rfl, hclean, (joinStep_len hcleanup).trans hlen', rfl⟩

/-- The first poll ends. -/
theorem finish_armed {rand : Nat} {won : List Nat} (h : TimedInv s) (hwait : s.wait = some k)
    (hfirst : PolledOnce s k won) (hscope : s.scope = .second)
    (hselects : Selects [] (if s.handled then [1] else []) won s.select)
    (hok : selectFinish s k true rand = .ok s') : TimedInv s' ∧ KeepsWithout s s' (.finish rand) := by
  obtain ⟨-, ⟨rfl, select, hselects', hlen, rfl⟩ |
    ⟨winner, s₁, select, hwinner, hclean, hlen, rfl⟩⟩ := selectFinish_cases hselects h.len hok
  · refine ⟨⟨h.sys, hlen, ?_⟩, keepsWithout_of_same rfl rfl fun _ => rfl⟩
    rcases hfirst with ⟨hwon, -⟩ | ⟨-, a, hown, hfree⟩
    · cases hwon
    refine .awaiting rfl hwait hown hscope ?_
    unfold TimedWait.woken
    rw [if_neg hfree]
    exact hselects'
  · rcases hfirst with ⟨rfl, hown⟩ | ⟨rfl, -⟩
    · cases hwinner
      cases hclean
      exact ⟨⟨h.sys, hlen, .passed rfl hwait hown⟩, keepsWithout_of_same rfl rfl fun _ => rfl⟩
    · cases hwinner

/-- A later poll ends. If the wait was not woken but the sleep was, the wait is given up. -/
theorem finish_resumed {rand : Nat} {rest won : List Nat} (h : TimedInv s) (hwait : s.wait = some k)
    (hwoken : won ++ rest = s.woken a)
    (hown : OwnWait s.sys k (if 0 ∈ won then .completed else .live) (some a))
    (hscope : s.scope = if 1 ∈ won then .done else .second) (hselects : Selects rest [] won s.select)
    (hok : selectFinish s k false rand = .ok s') : TimedInv s' ∧ KeepsWithout s s' (.finish rand) := by
  obtain ⟨rfl, hcases⟩ := selectFinish_cases hselects h.len hok
  rw [List.append_nil] at hwoken
  obtain ⟨rfl, select, hselects', hlen, rfl⟩ |
    ⟨winner, s₁, select, hwinner, hclean, hlen, rfl⟩ := hcases
  · refine ⟨⟨h.sys, hlen, ?_⟩, keepsWithout_of_same rfl rfl fun _ => rfl⟩
    refine .awaiting rfl hwait hown hscope ?_
    show Selects [] (s.woken a) [] select
    rw [← hwoken]
    exact hselects'
  · by_cases hgranted : a ∈ s.sys.sem.grants
    · -- the wait was woken first
      have hkept : ∀ s₂ : TimedWait, s₂.sys = s.sys → s₂.wait = s.wait → s₂.select.len = 2 →
          s₂.stage = .returned true → TimedInv s₂ ∧ KeepsWithout s s₂ (.finish rand) := by
        intro s₂ hsys hwait₂ hlen₂ hstage
        refine ⟨⟨by rw [hsys, hwait₂]; exact h.sys, hlen₂, .kept hstage ?_⟩,
          keepsWithout_of_same hsys hwait₂ fun _ => rfl⟩
        unfold TimedWait.taken
        rw [hsys, hwait₂, hwait, hown.takenBy]
        exact decide_eq_true hgranted
      unfold TimedWait.woken at hwoken
      rw [if_pos hgranted] at hwoken
      by_cases hhandled : s.handled = true
      · rw [if_pos hhandled] at hwoken
        subst hwoken
        cases hwinner
        cases hclean
        exact hkept _ rfl rfl hlen rfl
      · rw [if_neg hhandled] at hwoken
        subst hwoken
        cases hwinner
        cases hclean
        exact hkept _ rfl rfl hlen rfl
    · unfold TimedWait.woken at hwoken
      rw [if_neg hgranted] at hwoken
      by_cases hhandled : s.handled = true
      · rw [if_pos hhandled] at hwoken
        subst hwoken
        cases hwinner
        obtain ⟨s₂, hcancel, hclean⟩ := bind_eq_ok.mp hclean
        cases hclean
        obtain ⟨sys, hsys, hcancel⟩ := bind_eq_ok.mp hcancel
        cases hcancel
        have hinv := h.sys
        rw [hwait] at hinv
        have hlive : OwnWait s.sys k .live (some a) := hown
        obtain ⟨hinv', hown', hgrants⟩ := hinv.cancel hlive hsys
        refine ⟨⟨hwait ▸ hinv', hlen, .missed rfl hwait hown' ?_ hhandled⟩, fun _ => ⟨?_, ?_⟩⟩
        · show a ∉ sys.sem.grants
          rw [hgrants]
          exact hgranted
        · unfold TimedWait.taken
          rw [hwait, hown.takenBy]
          exact decide_eq_false hgranted
        · intro s₀ hwithout
          rw [hwait] at hwithout
          refine ⟨s₀, rfl, ?_⟩
          show Without s.wait sys s₀
          rw [hwait]
          exact hwithout.cancel hlive hsys
      · rw [if_neg hhandled] at hwoken
        subst hwoken
        cases hwinner

theorem selectFinish_step {first : Bool} {rand : Nat} (h : TimedInv s)
    (hstage : s.stage = .polling first) (hwait : s.wait = some k)
    (hok : selectFinish s k first rand = .ok s') :
    TimedInv s' ∧ KeepsWithout s s' (.finish rand) := by
  have hsame : ∀ {j : Nat}, s.wait = some j → j = k := fun hj => by simpa [hwait] using hj.symm
  cases h.phase with
  | begun _ _ _ _ _ hselects =>
    obtain ⟨hrest, -⟩ := selectFinish_cases hselects h.len hok
    cases hrest
  | waited _ _ _ _ _ hselects =>
    obtain ⟨hrest, -⟩ := selectFinish_cases hselects h.len hok
    cases hrest
  | armed hstage' hwait' hfirst hscope hselects =>
    obtain rfl := hsame hwait'
    cases hstage.symm.trans hstage'
    exact finish_armed h hwait hfirst hscope hselects hok
  | resumed hstage' hwait' hwoken hown hscope hselects =>
    obtain rfl := hsame hwait'
    cases hstage.symm.trans hstage'
    exact finish_resumed h hwait hwoken hown hscope hselects hok
  | _ hstage' => exact absurd (hstage.symm.trans hstage') (by simp)

/-! ## Runs -/

theorem timedInv_step (h : TimedInv s) (htimely : Timely s o) (halone : LeavesAlone s o)
    (hok : timedStep s o = .ok s') : TimedInv s' ∧ KeepsWithout s s' o := by
  cases o with
  | other o =>
    simp only [timedStep] at hok
    split at hok
    · cases hok
    · rename_i hpolling
      exact otherCall_step h htimely hpolling hok
  | call delay => exact semaphoreTimedwait_step h hok
  | expire => exact timeoutHandler_step h hok
  | lateExpire => exact halone.elim
  | poll => exact timedwaitPoll_step h hok
  | turn =>
    simp only [timedStep] at hok
    split at hok
    · rename_i first k i hstage hwait hwalk
      exact selectTurn_step h hstage hwait hwalk hok
    · cases hok
  | finish rand =>
    simp only [timedStep] at hok
    split at hok
    · rename_i first k hstage hwait
      exact selectFinish_step h hstage hwait hok
    · cases hok

theorem timedInv_init (permits : UInt64) : TimedInv (timedWait permits) where
  sys := by
    refine ⟨⟨[], wakeQueue_init permits⟩, ?_, ?_, ?_⟩
    · intro a n hn
      cases hn
    · intro k hk
      cases hk
    · intro a ha
      cases ha
  len := rfl
  phase := .absent rfl rfl rfl rfl

/-- What the phase says of the answer. -/
theorem TimedInv.answer (h : TimedInv s) {value : Bool} (hstage : s.stage = .returned value) :
    value = true ↔ s.taken = true := by
  cases h.phase with
  | kept hstage' htaken =>
    cases hstage.symm.trans hstage'
    exact ⟨fun _ => htaken, fun _ => rfl⟩
  | missed hstage' hwait hown hfree hhandled =>
    cases hstage.symm.trans hstage'
    unfold TimedWait.taken
    rw [hwait, hown.takenBy]
    simpa using hfree
  | _ hstage' => exact absurd (hstage.symm.trans hstage') (by simp)

-- before the signal comes only the timer of an earlier call, which has missed its abort
example : (Lib.run timedStep (timedWait 0) [.call 5, .poll, .turn, .turn, .finish 0, .lateExpire,
    .other .signal, .poll, .turn, .turn, .finish 0]).map (fun s => (s.stage, s.handled, s.taken)) =
      .ok (.returned false, false, true) := rfl

end Taskio
