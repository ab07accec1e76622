import Mathlib.Data.List.Perm.Subperm
import Taskio.Lib.Chain
import Taskio.Lib.Run
import Taskio.Common.JoinEffect

/-!
# The ready list of a join

What the rest of the walk and the next walk will poll, against what they should: the children that
are still pending and were woken since their last poll.

* `joinLaw_step_iff` — a step keeps `JoinLaw` exactly when it meets `KeepsReadyList`
* `join_polls_woken_iff` — so does a run
-/

namespace Taskio

open Lib (Chain IsQueue)

variable {E : Type} {cb : JoinCallbacks E} {s s' : JoinExt E} {o : JoinOp} {i : Nat}

/-- The child is in the rest of the walk or in the list for the next one. -/
def JoinExt.Linked (s : JoinExt E) (i : Nat) : Prop :=
  (∃ l, Chain s.next s.walk l ∧ i ∈ l) ∨ ∃ l, Chain s.next s.pollHead l ∧ i ∈ l

/-- `rest` is the rest of the walk, `list` is the ready list. -/
structure ReadyList (rest list : List Nat) (s : JoinExt E) : Prop where
  walk : Chain s.next s.walk rest
  queue : IsQueue s.next s.pollHead s.pollTail list
  once : (rest ++ list).Nodup
  round : (s.round ++ rest).Nodup
  exact : ∀ i, i ∈ rest ++ list ↔ i < s.len ∧ s.pending i ∧ s.due i = true

/--
The walk ends and polls no child twice; and what it and the next walk will poll are the pending
children woken since their last poll, each once.
-/
def JoinLaw (s : JoinExt E) : Prop := ∃ rest list, ReadyList rest list s

/-- A waker is called of a child that is not linked, and a child that is ready is not linked. -/
def KeepsReadyList (s : JoinExt E) : JoinOp → Prop
  | .wake i => ¬ s.Linked i
  | .ret .ready => ∀ i next, s.stage = .polling i next → ¬ s.Linked i
  | _ => True

/-- Only wakers of pending children are called. -/
def WakesPending (s : JoinExt E) : JoinOp → Prop
  | .wake i => s.pending i
  | _ => True

/-! ## One step -/

theorem ReadyList.linked_iff {rest list : List Nat} (h : ReadyList rest list s) :
    s.Linked i ↔ i ∈ rest ++ list := by
  rw [List.mem_append]
  constructor
  · rintro (⟨l, hchain, hi⟩ | ⟨l, hchain, hi⟩)
    · exact Or.inl (h.walk.unique hchain ▸ hi)
    · exact Or.inr (h.queue.chain.unique hchain ▸ hi)
  · rintro (hi | hi)
    · exact Or.inl ⟨rest, h.walk, hi⟩
    · exact Or.inr ⟨list, h.queue.chain, hi⟩

/-- The tail is a member of the list. -/
theorem ReadyList.mem_of_tail {rest list : List Nat} (h : ReadyList rest list s) {t : Nat}
    (ht : s.pollTail = some t) : t ∈ list :=
  List.mem_of_getLast? (h.queue.last ▸ ht)

/-- It is no member of the walk. -/
theorem ReadyList.tail_ne {rest list : List Nat} (h : ReadyList rest list s) {z : Nat}
    (hz : z ∈ rest) : s.pollTail ≠ some z := fun ht =>
  (List.nodup_append.mp h.once).2.2 z hz z (h.mem_of_tail ht) rfl

theorem SameList.readyList {rest list : List Nat} (h : SameList s s') (hl : ReadyList rest list s) :
    ReadyList rest list s' := by
  obtain ⟨hwalk, hqueue, honce, hround, hexact⟩ := hl
  refine ⟨?_, ?_, honce, ?_, ?_⟩
  · rwa [h.next, h.walk]
  · rwa [h.next, h.head, h.tail]
  · rwa [h.round]
  · rwa [h.len, h.pending, h.due]

/-- A waker changes the links of its child and of the tail. -/
theorem JoinEffect.next_of_ne (heffect : JoinEffect s s' (.wake i)) {z : Nat} (hz : z ≠ i)
    (ht : s.pollTail ≠ some z) : s'.next z = s.next z := by
  obtain ⟨-, hnext, -⟩ := heffect.wake_fields
  rw [hnext]
  simp only [ht, hz, if_false]

/-- A waker links its child behind the ready list, if it is not in it. -/
theorem JoinEffect.pushTail {list : List Nat} (heffect : JoinEffect s s' (.wake i))
    (hqueue : IsQueue s.next s.pollHead s.pollTail list) (hnotin : i ∉ list) :
    IsQueue s'.next s'.pollHead s'.pollTail (list ++ [i]) := by
  obtain ⟨-, hnext, -, -, hhead, htail, -⟩ := heffect.wake_fields
  rw [hhead, htail]
  cases hlast : s.pollTail with
  | none =>
    rw [hlast] at hqueue
    obtain rfl := hqueue.tail_eq_none.mp rfl
    rw [if_pos rfl]
    refine ⟨⟨rfl, ?_⟩, rfl⟩
    rw [hnext, hlast]
    simp
  | some last =>
    rw [hlast] at hqueue
    rw [if_neg (by simp)]
    have hold : IsQueue (Function.update s.next i none) s.pollHead (some last) list :=
      hqueue.congr fun x hx => by
        have hxi : x ≠ i := fun he => hnotin (he ▸ hx)
        rw [Function.update_of_ne hxi]
    refine (hold.pushTail hnotin (Function.update_self ..)).congr ?_
    intro x _
    rw [hnext, hlast]
    by_cases hx : x = last
    · subst hx
      simp
    · rw [Function.update_of_ne hx, Function.update_apply]
      simp [Ne.symm hx]

/-- So it comes to be behind the ready list. -/
theorem ReadyList.wake {rest list : List Nat} (h : ReadyList rest list s)
    (heffect : JoinEffect s s' (.wake i)) (hunlinked : i ∉ rest ++ list) (hpending : s.pending i) :
    ReadyList rest (list ++ [i]) s' ∧ s'.round = s.round := by
  obtain ⟨hi, hnext, hlen, hwalk, hhead, htail, hevents⟩ := heffect.wake_fields
  have hdue : ∀ j, s'.due j = if j = i then true else s.due j := by
    intro j
    rw [due_append hevents]
    by_cases hj : j = i
    · simp [dueAfter, hj]
    · simp [dueAfter, hj, Ne.symm hj]
  have hround : s'.round = s.round := round_append hevents
  have hpend : ∀ j, s'.pending j ↔ s.pending j := fun j =>
    (pending_append hevents j).trans (and_iff_left (by simp))
  have hnotin := hunlinked
  rw [List.mem_append, not_or] at hnotin
  have honce := h.once
  have hmem : ∀ x, x ∈ rest ++ (list ++ [i]) ↔ x ∈ rest ++ list ∨ x = i := by simp [or_assoc]
  refine ⟨⟨?_, ?_, ?_, hround ▸ h.round, ?_⟩, hround⟩
  · rw [hwalk]
    refine h.walk.congr ?_
    intro x hx
    have hxi : x ≠ i := fun he => hnotin.1 (he ▸ hx)
    have hxt : s.pollTail ≠ some x := h.tail_ne hx
    rw [hnext]
    simp only [hxt, hxi, if_false]
  · exact heffect.pushTail h.queue hnotin.2
  · rw [← List.append_assoc, List.nodup_append]
    refine ⟨honce, by simp, ?_⟩
    rintro x hx y hy rfl
    exact hunlinked (List.mem_singleton.mp hy ▸ hx)
  · intro x
    rw [hmem, hlen, hpend, hdue]
    by_cases hx : x = i
    · subst hx
      simp [hi, hpending]
    · rw [if_neg hx, ← h.exact]
      simp [hx]

/-- A step that meets `KeepsReadyList` keeps the law. What a poll of the join has polled, followed by
what it will poll, is the list that it found. -/
theorem JoinEffect.readyList {rest list : List Nat} (heffect : JoinEffect s s' o)
    (h : ReadyList rest list s) (hkeeps : KeepsReadyList s o) (hpending : WakesPending s o) :
    ∃ rest' list', ReadyList rest' list' s' ∧
      s'.round ++ rest' = if o = .poll then list else s.round ++ rest := by
  cases heffect with
  | move ho hsame =>
    exact ⟨rest, list, hsame.readyList h, by rw [if_neg ho.1, hsame.round]⟩
  | poll hstage hnext hlen hwalk hhead htail hevents =>
    have hrest : rest = [] := by
      have hchain := h.walk
      rw [JoinExt.walk, hstage] at hchain
      exact hchain.unique rfl
    subst hrest
    refine ⟨list, [], ⟨?_, ?_, ?_, ?_, ?_⟩, by rw [if_pos rfl, round_append hevents]; rfl⟩
    · rw [hnext, hwalk]
      exact h.queue.chain
    · rw [hhead, htail]
      exact IsQueue.empty
    · simpa using h.once
    · rw [round_append hevents]
      simpa [roundAfter] using h.once
    · intro x
      rw [hlen, pending_append hevents, due_append hevents]
      simpa [dueAfter] using h.exact x
  | @child i hstage hi hnext hlen hwalk hhead htail hevents =>
    have hchain := h.walk
    rw [JoinExt.walk, hstage] at hchain
    obtain ⟨rest, rfl⟩ : ∃ rest', rest = i :: rest' := by
      cases rest with
      | nil => cases hchain
      | cons x rest => exact ⟨rest, by rw [Option.some.inj hchain.1]⟩
    have honce := List.nodup_cons.mp h.once
    have hround : s'.round = s.round ++ [i] := round_append hevents
    refine ⟨rest, list, ⟨?_, ?_, honce.2, ?_, ?_⟩, by rw [if_neg (by simp), hround]; simp⟩
    · rw [hnext, hwalk]
      exact hchain.2
    · rw [hnext, hhead, htail]
      exact h.queue
    · rw [hround]
      simpa using h.round
    · intro x
      rw [hlen, pending_append hevents, due_append hevents]
      by_cases hx : x = i
      · subst hx
        simpa [dueAfter] using honce.1
      · have hexact := h.exact x
        simp only [List.cons_append, List.mem_cons, hx, false_or] at hexact
        rw [hexact]
        simp [dueAfter, Ne.symm hx]
  | @ready i next hstage hnext hlen hwalk hhead htail hevents =>
    have hnotin : i ∉ rest ++ list := mt h.linked_iff.mpr (hkeeps i next hstage)
    have hround : s'.round = s.round := round_append hevents
    refine ⟨rest, list, ⟨?_, ?_, h.once, ?_, ?_⟩, by rw [if_neg (by simp), hround]⟩
    · rw [hnext, hwalk]
      exact h.walk
    · rw [hnext, hhead, htail]
      exact h.queue
    · rw [hround]
      exact h.round
    · intro x
      rw [hlen, pending_append hevents, due_append hevents]
      by_cases hx : x = i
      · subst hx
        simp [hnotin]
      · simpa [dueAfter, hx] using h.exact x
  | wake hi hnext hlen hwalk hhead htail hevents =>
    obtain ⟨h', hround⟩ := h.wake (.wake hi hnext hlen hwalk hhead htail hevents)
      (mt h.linked_iff.mpr hkeeps) hpending
    exact ⟨rest, _, h', by rw [if_neg (by simp), hround]⟩

/-! A waker of a child that is linked leaves no such lists: it cuts one of them at the child. -/

section WakeLinked

variable {rest list rest' list' : List Nat}

theorem JoinEffect.next_self (heffect : JoinEffect s s' (.wake i)) (ht : s.pollTail ≠ some i) :
    s'.next i = none := by
  obtain ⟨-, hnext, -⟩ := heffect.wake_fields
  rw [hnext]
  simp only [ht, if_true, if_false]

/-- The walk is cut at the child, which is in the ready list as well. -/
theorem ReadyList.walk_of_wake (h : ReadyList rest list s) (h' : ReadyList rest' list' s')
    (heffect : JoinEffect s s' (.wake i)) : i ∉ rest := by
  intro hmem
  obtain ⟨-, -, -, hwalk, -, htail, -⟩ := heffect.wake_fields
  obtain ⟨u, v, rfl⟩ := List.append_of_mem hmem
  have honce := (List.nodup_append.mp h.once).1
  have hcut : Chain s'.next s.walk (u ++ [i]) := by
    refine h.walk.cut (fun z hz => heffect.next_of_ne ?_ (h.tail_ne (by simp [hz])))
      (heffect.next_self (h.tail_ne (by simp)))
    rintro rfl
    exact (List.nodup_append.mp honce).2.2 z hz z (by simp) rfl
  have hwalk' := h'.walk
  rw [hwalk] at hwalk'
  have honce' := (List.nodup_append.mp h'.once).2.2
  rw [hwalk'.unique hcut] at honce'
  exact honce' i (by simp) i (h'.mem_of_tail htail) rfl

/-- At the end of the list the child is linked to itself. -/
theorem ReadyList.tail_of_wake (h' : ReadyList rest' list' s')
    (heffect : JoinEffect s s' (.wake i)) : s.pollTail ≠ some i := by
  intro ht
  obtain ⟨-, hnext, -, -, -, htail, -⟩ := heffect.wake_fields
  have hqueue' := h'.queue
  rw [htail] at hqueue'
  have hnone := hqueue'.next_tail
  rw [hnext] at hnone
  simp [ht] at hnone

/-- The list is cut at the child, and its last member is lost. -/
theorem ReadyList.list_of_wake (h : ReadyList rest list s) (h' : ReadyList rest' list' s')
    (heffect : JoinEffect s s' (.wake i)) : i ∉ list := by
  intro hmem
  have htail_i := h'.tail_of_wake heffect
  obtain ⟨-, -, hlen, hwalk, hhead, -, hevents⟩ := heffect.wake_fields
  obtain ⟨-, honce, hdisjoint⟩ := List.nodup_append.mp h.once
  obtain ⟨t, ht⟩ : ∃ t, s.pollTail = some t := by
    refine Option.ne_none_iff_exists'.mp ?_
    intro hnone
    rw [h.queue.tail_eq_none.mp hnone] at hmem
    cases hmem
  have hlast := h.mem_of_tail ht
  have hti : t ≠ i := fun he => htail_i (he ▸ ht)
  obtain ⟨u, v, rfl⟩ := List.append_of_mem hmem
  have htu : t ∉ u := by
    intro htu
    have hlast : t ∈ i :: v := by
      refine List.mem_of_getLast? ?_
      rw [← ht, h.queue.last, List.getLast?_append_cons]
    exact (List.nodup_append.mp honce).2.2 t htu t hlast rfl
  have hcut : Chain s'.next s.pollHead (u ++ [i]) := by
    refine h.queue.chain.cut (fun z hz => heffect.next_of_ne ?_ ?_) (heffect.next_self htail_i)
    · rintro rfl
      exact (List.nodup_append.mp honce).2.2 z hz z (by simp) rfl
    · rw [ht]
      rintro ⟨⟩
      exact htu hz
  have hlist' : list' = u ++ [i] := by
    have hchain := h'.queue.chain
    rw [hhead, if_neg (by simp [ht])] at hchain
    exact hchain.unique hcut
  have hrest' : rest' = rest := by
    have hwalk' := h'.walk
    rw [hwalk] at hwalk'
    refine hwalk'.unique (h.walk.congr fun z hz => heffect.next_of_ne ?_ (h.tail_ne hz))
    rintro rfl
    exact hdisjoint z hz z hmem rfl
  have hexact := (h.exact t).mp (List.mem_append_right _ hlast)
  have hexact' : t ∈ rest' ++ list' := by
    rw [h'.exact, hlen, pending_append hevents, due_append hevents]
    simpa [dueAfter, Ne.symm hti] using hexact
  rw [hlist', hrest', List.mem_append, List.mem_append, List.mem_singleton] at hexact'
  rcases hexact' with hrest | hu | hi'
  · exact h.tail_ne hrest ht
  · exact htu hu
  · exact hti hi'

theorem ReadyList.unlinked_of_wake (h : ReadyList rest list s) (h' : ReadyList rest' list' s')
    (heffect : JoinEffect s s' (.wake i)) : i ∉ rest ++ list := by
  rw [List.mem_append]
  rintro (hmem | hmem)
  · exact h.walk_of_wake h' heffect hmem
  · exact h.list_of_wake h' heffect hmem

end WakeLinked

/-- A step that does not meet it breaks the law. -/
theorem JoinEffect.keeps {rest list : List Nat} (heffect : JoinEffect s s' o)
    (h : ReadyList rest list s) (hlaw : JoinLaw s') : KeepsReadyList s o := by
  obtain ⟨rest', list', h'⟩ := hlaw
  cases heffect with
  | move ho =>
    cases o with
    | wake i => exact absurd rfl (ho.2.2 i)
    | ret poll =>
      cases poll with
      | ready => exact absurd rfl ho.2.1
      | _ => trivial
    | _ => trivial
  | poll => trivial
  | child => trivial
  | @ready i next hstage hnext hlen hwalk hhead htail hevents =>
    intro j next' hstage'
    rw [hstage] at hstage'
    cases hstage'
    rw [h.linked_iff]
    intro hmem
    -- the list is the same, but the child is not pending any more
    have hmem' : i ∈ rest' ++ list' := by
      have hwalk' := h'.walk
      have hqueue' := h'.queue.chain
      rw [hnext, hwalk] at hwalk'
      rw [hnext, hhead] at hqueue'
      rwa [hwalk'.unique h.walk, hqueue'.unique h.queue.chain]
    have hpending := ((h'.exact i).mp hmem').2.1
    rw [pending_append hevents] at hpending
    simp at hpending
  | wake hi hnext hlen hwalk hhead htail hevents =>
    exact mt h.linked_iff.mp
      (h.unlinked_of_wake h' (.wake hi hnext hlen hwalk hhead htail hevents))

/-- **A step keeps the law exactly when it meets `KeepsReadyList`.** -/
theorem joinLaw_step_iff (h : JoinLaw s) (hpending : WakesPending s o)
    (hok : joinStep cb s o = .ok s') : JoinLaw s' ↔ KeepsReadyList s o := by
  obtain ⟨rest, list, h⟩ := h
  refine ⟨(joinStep_effect hok).keeps h, ?_⟩
  intro hkeeps
  obtain ⟨rest', list', h', -⟩ := (joinStep_effect hok).readyList h hkeeps hpending
  exact ⟨rest', list', h'⟩

/-! ## Runs -/

/-- The next child of the walk is pending, so its poll begins, and the walk is bounded. -/
theorem JoinLaw.progress (h : JoinLaw s) (hstate : JoinState s) :
    (∀ i, s.stage = .walking (some i) →
        s.pending i ∧ i ∉ s.round ∧ ∃ s', joinStep cb s .child = .ok s') ∧
      s.round.length ≤ s.len := by
  obtain ⟨rest, list, h⟩ := h
  constructor
  · intro i hstage
    have hchain := h.walk
    rw [JoinExt.walk, hstage] at hchain
    have hmem : i ∈ rest := List.mem_of_mem_head? hchain.head?_eq
    obtain ⟨hi, hpending, -⟩ := (h.exact i).mp (List.mem_append_left _ hmem)
    refine ⟨hpending, fun hround => (List.nodup_append.mp h.round).2.2 i hround i hmem rfl, ?_⟩
    have htask : s.tasks[i]? = some s.tasks[i] := List.getElem?_eq_getElem hi
    have hfuture : ¬ s.tasks[i].future = false := fun hf => hstate.future i _ htask hf hpending
    simp only [joinStep, hstage, joinChild, jtask_eq_ok.mpr htask, ok_bind]
    rw [if_neg hfuture]
    exact ⟨_, rfl⟩
  · have hnodup := (List.nodup_append.mp h.round).1
    have hsubset : s.round ⊆ List.range s.len := fun i hi => List.mem_range.mpr (hstate.round i hi)
    have hle := (List.Nodup.subperm hnodup hsubset).length_le
    rwa [List.length_range] at hle

theorem next_joinExt (len : Nat) (env : E) (i : Nat) :
    (joinExt len env).next i = if i + 1 < len then some (i + 1) else none := by
  unfold joinExt JoinExt.next joinTasks
  simp only [List.getElem?_map]
  by_cases hi : i < len
  · rw [List.getElem?_range hi]
    rfl
  · rw [List.getElem?_eq_none (by simpa using hi), if_neg (by omega)]
    rfl

/-- At first every child is in the list, in order. -/
theorem readyList_init (len : Nat) (env : E) :
    ReadyList [] (List.range len) (joinExt len env) := by
  have hchain : ∀ n k, k + n = len →
      Chain (joinExt len env).next (if k < len then some k else none) (List.range' k n) := by
    intro n
    induction n with
    | zero =>
      intro k hk
      rw [if_neg (by omega)]
      rfl
    | succ n ih =>
      intro k hk
      rw [if_pos (by omega), List.range'_succ]
      refine ⟨rfl, ?_⟩
      rw [next_joinExt]
      exact ih (k + 1) (by omega)
  have hlen : (joinExt len env).len = len := by simp [JoinExt.len, joinExt, joinTasks]
  refine ⟨rfl, ⟨?_, ?_⟩, ?_, ?_, ?_⟩
  · rw [List.range_eq_range']
    exact hchain len 0 (by omega)
  · show (if 1 ≤ len then some (len - 1) else none) = _
    rw [List.getLast?_range]
    cases len <;> simp
  · simpa using List.nodup_range
  · simp [JoinExt.round, joinExt]
  · intro i
    rw [hlen]
    simp [JoinExt.pending, JoinExt.due, joinExt]

theorem joinLaw_init (len : Nat) (env : E) : JoinLaw (joinExt len env) :=
  ⟨[], List.range len, readyList_init len env⟩

/-- A poll of the join polls the list that it finds, in order. -/
theorem JoinLaw.round_run {os : List JoinOp} {s₁ : JoinExt E} (h : JoinLaw s)
    (hpoll : joinStep cb s .poll = .ok s₁) (hrun : Lib.run (joinStep cb) s₁ os = .ok s')
    (hos : .poll ∉ os)
    (hkeeps : Lib.Along (joinStep cb) (fun s o => WakesPending s o ∧ KeepsReadyList s o) s₁ os) :
    ∃ list rest, Chain s.next s.pollHead list ∧ Chain s'.next s'.walk rest ∧
      s'.round ++ rest = list := by
  obtain ⟨rest, list, h⟩ := h
  obtain ⟨rest₁, list₁, h₁, hround₁⟩ := (joinStep_effect hpoll).readyList h trivial trivial
  rw [if_pos rfl] at hround₁
  have hinv : ∃ rest list', ReadyList rest list' s' ∧ s'.round ++ rest = list := by
    clear hpoll h
    induction os generalizing s₁ rest₁ list₁ with
    | nil =>
      cases hrun
      exact ⟨rest₁, list₁, h₁, hround₁⟩
    | cons o os ih =>
      obtain ⟨s₂, hstep, hrest⟩ := Lib.run_cons_eq_ok.mp hrun
      obtain ⟨rest₂, list₂, h₂, hround₂⟩ :=
        (joinStep_effect hstep).readyList h₁ hkeeps.1.2 hkeeps.1.1
      rw [if_neg (fun he => hos (by simp [he])), hround₁] at hround₂
      exact ih hrest (fun hmem => hos (List.mem_cons_of_mem _ hmem)) (hkeeps.2 s₂ hstep) rest₂
        list₂ h₂ hround₂
  obtain ⟨rest', list', h', hround⟩ := hinv
  exact ⟨list, rest', h.queue.chain, h'.walk, hround⟩

/-- What the walks do from a state on, in a run of the operations `os`. -/
structure JoinWalks (cb : JoinCallbacks E) (s : JoinExt E) (os : List JoinOp) : Prop where
  /-- so far the walk has polled at most as many children as there are -/
  bounded : s.round.length ≤ s.len
  /-- the next child of the walk is pending and new in the walk, and its poll begins -/
  child : ∀ i, s.stage = .walking (some i) →
    s.pending i ∧ i ∉ s.round ∧ ∃ s', joinStep cb s .child = .ok s'
  /-- a walk polls the list that it found -/
  list : ∀ os₁ os₂ s₁ s₂, os = .poll :: (os₁ ++ os₂) → .poll ∉ os₁ →
    joinStep cb s .poll = .ok s₁ → Lib.run (joinStep cb) s₁ os₁ = .ok s₂ →
    ∃ list rest, Chain s.next s.pollHead list ∧ Chain s₂.next s₂.walk rest ∧
      s₂.round ++ rest = list

/--
**When a join polls what was woken.** For children of which only pending ones are woken, the law holds
in every state of a run exactly when no waker is called of a child that is linked already, in the
rest of the walk or in the list for the next one, and no child is linked when it returns ready. Then
every walk ends, having polled the list that it found, and it is never stuck at a child that has
returned ready.
-/
theorem join_polls_woken_iff (cb : JoinCallbacks E) (len : Nat) (env : E) (os : List JoinOp)
    (hrun : Lib.run (joinStep cb) (joinExt len env) os = .ok s)
    (hpending : Lib.Along (joinStep cb) WakesPending (joinExt len env) os) :
    ((∀ os₁ os₂ s₁, os = os₁ ++ os₂ → Lib.run (joinStep cb) (joinExt len env) os₁ = .ok s₁ →
        JoinLaw s₁) ↔
      Lib.Along (joinStep cb) KeepsReadyList (joinExt len env) os) ∧
    (Lib.Along (joinStep cb) KeepsReadyList (joinExt len env) os →
      ∀ os₁ os₂ s₁, os = os₁ ++ os₂ → Lib.run (joinStep cb) (joinExt len env) os₁ = .ok s₁ →
        JoinWalks cb s₁ os₂) := by
  have hlaw : (∀ os₁ os₂ s₁, os = os₁ ++ os₂ →
      Lib.run (joinStep cb) (joinExt len env) os₁ = .ok s₁ → JoinLaw s₁) ↔
        Lib.Along (joinStep cb) KeepsReadyList (joinExt len env) os :=
    Lib.along_iff_prefixes (I := fun _ _ => True) (L := fun _ => JoinLaw) (Q := WakesPending) []
      (fun _ _ _ _ _ _ _ _ _ => trivial)
      (fun _ _ _ _ _ hlaw hpend hok => joinLaw_step_iff hlaw hpend hok) trivial
      (joinLaw_init len env) hpending hrun
  refine ⟨hlaw, ?_⟩
  intro hkeeps os₁ os₂ s₁ hos hrun₁
  have hs₁ : JoinLaw s₁ := hlaw.mpr hkeeps os₁ os₂ s₁ hos hrun₁
  have hstate : JoinState s₁ :=
    Lib.run_invariant (P := fun _ _ => True) (fun s o s' hs _ hok => joinState_step hs hok)
      (joinState_init len env) (Lib.along_of_forall fun _ _ _ => trivial) hrun₁
  obtain ⟨hchild, hbounded⟩ := hs₁.progress hstate
  refine ⟨hbounded, hchild, ?_⟩
  rintro os₃ os₄ s₂ s₃ rfl hpoll hstep hrun₂
  have hboth := hpending.and hkeeps
  rw [hos] at hboth
  have hrest := (Lib.along_append ((Lib.along_append hboth).2 s₁ hrun₁ |>.2 s₂ hstep)).1
  exact hs₁.round_run hstep hrun₂ hpoll hrest

theorem not_linked_of_chains (rest list : List Nat) (hwalk : Chain s.next s.walk rest)
    (hlist : Chain s.next s.pollHead list) {i : Nat} (hi : i ∉ rest ++ list) : ¬ s.Linked i := by
  rintro (⟨l, hchain, hmem⟩ | ⟨l, hchain, hmem⟩)
  · exact hi (List.mem_append_left _ (hwalk.unique hchain ▸ hmem))
  · exact hi (List.mem_append_right _ (hlist.unique hchain ▸ hmem))

/-- Two children are woken in the other order and polled in it, and one of them is ready. -/
def wokenTwoOps : List JoinOp :=
  [.poll, .child, .ret .pending, .child, .ret .pending, .finish 0, .wake 1, .wake 0, .poll, .child,
    .ret .pending, .child, .ret .ready, .cleaned, .finish 0]

theorem join_polls_woken_iff_wake : ∃ s,
    Lib.run (joinStep ⟨none, none⟩) (joinExt 2 ()) wokenTwoOps = .ok s ∧ JoinLaw s := by
  have hpending : Lib.Along (joinStep ⟨none, none⟩) WakesPending (joinExt 2 ()) wokenTwoOps := by
    refine Lib.along_cons trivial rfl (Lib.along_cons trivial rfl (Lib.along_cons trivial rfl
      (Lib.along_cons trivial rfl (Lib.along_cons trivial rfl (Lib.along_cons trivial rfl
      (Lib.along_cons ?_ rfl (Lib.along_cons ?_ rfl (Lib.along_cons trivial rfl
      (Lib.along_cons trivial rfl (Lib.along_cons trivial rfl (Lib.along_cons trivial rfl
      (Lib.along_cons trivial rfl (Lib.along_cons trivial rfl
      (Lib.along_cons trivial rfl trivial))))))))))))))
    · show JoinExt.pending _ 1
      unfold JoinExt.pending
      decide
    · show JoinExt.pending _ 0
      unfold JoinExt.pending
      decide
  have hkeeps : Lib.Along (joinStep ⟨none, none⟩) KeepsReadyList (joinExt 2 ()) wokenTwoOps := by
    refine Lib.along_cons trivial rfl (Lib.along_cons trivial rfl (Lib.along_cons trivial rfl
      (Lib.along_cons trivial rfl (Lib.along_cons trivial rfl (Lib.along_cons trivial rfl
      (Lib.along_cons ?_ rfl (Lib.along_cons ?_ rfl (Lib.along_cons trivial rfl
      (Lib.along_cons trivial rfl (Lib.along_cons trivial rfl (Lib.along_cons trivial rfl
      (Lib.along_cons ?_ rfl (Lib.along_cons trivial rfl
      (Lib.along_cons trivial rfl trivial))))))))))))))
    · refine not_linked_of_chains [] [] ?_ ?_ ?_
      · rfl
      · rfl
      · decide
    · refine not_linked_of_chains [] [1] ?_ ?_ ?_
      · rfl
      · exact ⟨rfl, rfl⟩
      · decide
    · rintro i next ⟨⟩
      refine not_linked_of_chains [] [] ?_ ?_ ?_
      · rfl
      · rfl
      · decide
  obtain ⟨hiff, -⟩ := join_polls_woken_iff ⟨none, none⟩ 2 () wokenTwoOps rfl hpending
  exact ⟨_, rfl, hiff.mpr hkeeps _ [] _ (List.append_nil _).symm rfl⟩

/-- A pending child that is woken twice is polled twice in one walk, and the walk does not end; a child
that is woken in its last poll is polled through a null pointer. -/
theorem join_walk_stuck :
    (∃ s, Lib.run (joinStep ⟨none, none⟩) (joinExt 1 ())
          [.poll, .child, .ret .pending, .finish 0, .wake 0, .wake 0, .poll, .child, .ret .pending,
            .child, .ret .pending] = .ok s ∧
        .ready 0 ∉ s.events ∧ s.round = [0, 0] ∧ s.stage = .walking (some 0) ∧ ¬ JoinLaw s) ∧
      ∃ s, Lib.run (joinStep ⟨none, none⟩) (joinExt 2 ())
          [.poll, .child, .wake 0, .ret .ready, .cleaned, .child, .ret .pending, .finish 0,
            .poll] = .ok s ∧ joinStep ⟨none, none⟩ s .child = .error .nullPointer := by
  refine ⟨⟨_, rfl, by decide, by decide, rfl, ?_⟩, _, rfl, rfl⟩
  rintro ⟨rest, list, h⟩
  have hround := (List.nodup_append.mp h.round).1
  revert hround
  decide

end Taskio
