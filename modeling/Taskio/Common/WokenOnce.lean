import Taskio.Common.Join

/-!
# Wakers that are called at most once between two polls

Such a waker may still be called in or after the poll that completes its child. Then the child is
linked although it is ready, and a second call while it is linked cuts the list there. But the cut
child stays in the list, and when the walk comes to it, it has been woken twice since its last poll.

* `JoinExt.listed` — how often the child was linked since its last poll
* `WokenOnce` — no child is polled that was linked more often than once
* `SelectLists` — the walk and the ready list, up to a child that was linked twice
* `selectLists_step` — every step keeps them
-/

namespace Taskio

open Lib (Leads IsQueue)

variable {E : Type} {cb : JoinCallbacks E} {s s' : JoinExt E} {o : JoinOp} {i : Nat}
  {rest list : List Nat} {last : Option Nat}

def listedAfter (i : Nat) (times : Nat) (e : JoinEvent) : Nat :=
  if e = .polled i then 0 else if e = .woken i then times + 1 else times

/-- How often the child was put on the ready list since its last poll. The constructor puts it there,
and then its waker. -/
def JoinExt.listed (s : JoinExt E) (i : Nat) : Nat := s.events.foldl (listedAfter i) 1

/-- No waker is called twice between two polls of its child, and none before it was handed out. -/
def WokenOnce (s : JoinExt E) : JoinOp → Prop
  | .child => ∀ i, s.stage = .walking (some i) → s.listed i ≤ 1
  | .wake i => s.handed[i]? = some true
  | _ => True

instance (s : JoinExt E) (o : JoinOp) : Decidable (WokenOnce s o) :=
  match o with
  | .wake i => inferInstanceAs (Decidable (s.handed[i]? = some true))
  | .child =>
    match h : s.stage with
    | .walking (some i) => decidable_of_iff (s.listed i ≤ 1) (by simp [WokenOnce, h])
    | .walking none | .idle | .polling _ _ | .cleaning _ _ | .returned _ | .gone =>
      isTrue (by simp [WokenOnce, h])
  | .poll | .ret _ | .cleaned | .finish _ | .cleanup => isTrue trivial

/-! ## The lists -/

/-- The walk leads through `rest`, and then it ends or is at a child that was linked twice. -/
structure WalkLeads (rest : List Nat) (last : Option Nat) (s : JoinExt E) : Prop where
  leads : Leads s.next s.walk rest last
  once : (s.round ++ rest).Nodup
  listed : ∀ i ∈ rest, i < s.len ∧ 1 ≤ s.listed i
  tail : ∀ i ∈ rest, s.pollTail ≠ some i
  twice : ∀ i, last = some i → i ∉ rest ∧ 2 ≤ s.listed i

/-- So does the list for the next walk. -/
structure ListLeads (rest list : List Nat) (last : Option Nat) (s : JoinExt E) : Prop where
  leads : Leads s.next s.pollHead list last
  once : (rest ++ list).Nodup
  listed : ∀ i ∈ list, i < s.len ∧ 1 ≤ s.listed i
  whole : last = none → s.pollTail = list.getLast?
  cut : ∀ i, last = some i → s.pollTail ≠ none ∧ ∀ j ∈ list, s.pollTail ≠ some j
  twice : ∀ i, last = some i → i ∉ rest ++ list ∧ 2 ≤ s.listed i

/-- A walk that will end leaves a list behind it. -/
structure SelectLists (s : JoinExt E) : Prop where
  lists : ∃ rest last, WalkLeads rest last s ∧
    (last = none → ∃ list last, ListLeads rest list last s)
  tail : ∀ i, s.pollTail = some i → i < s.len

theorem listed_append {es : List JoinEvent} (h : s'.events = s.events ++ es) (i : Nat) :
    s'.listed i = es.foldl (listedAfter i) (s.listed i) := by
  rw [JoinExt.listed, h, List.foldl_append]
  rfl

theorem WalkLeads.same (h : WalkLeads rest last s) (hnext : s'.next = s.next)
    (hwalk : s'.walk = s.walk) (htail : s'.pollTail = s.pollTail) (hlen : s'.len = s.len)
    (hround : s'.round = s.round) (hlisted : ∀ i, s'.listed i = s.listed i) :
    WalkLeads rest last s' := by
  refine ⟨?_, hround ▸ h.once, ?_, htail ▸ h.tail, ?_⟩
  · rw [hnext, hwalk]
    exact h.leads
  · intro i hi
    rw [hlen, hlisted]
    exact h.listed i hi
  · intro i hi
    rw [hlisted]
    exact h.twice i hi

theorem ListLeads.same (h : ListLeads rest list last s) (hnext : s'.next = s.next)
    (hhead : s'.pollHead = s.pollHead) (htail : s'.pollTail = s.pollTail) (hlen : s'.len = s.len)
    (hlisted : ∀ i, s'.listed i = s.listed i) : ListLeads rest list last s' := by
  refine ⟨?_, h.once, ?_, htail ▸ h.whole, htail ▸ h.cut, ?_⟩
  · rw [hnext, hhead]
    exact h.leads
  · intro i hi
    rw [hlen, hlisted]
    exact h.listed i hi
  · intro i hi
    rw [hlisted]
    exact h.twice i hi

theorem SelectLists.same (h : SelectLists s) (hnext : s'.next = s.next) (hwalk : s'.walk = s.walk)
    (hhead : s'.pollHead = s.pollHead) (htail : s'.pollTail = s.pollTail) (hlen : s'.len = s.len)
    (hround : s'.round = s.round) (hlisted : ∀ i, s'.listed i = s.listed i) : SelectLists s' := by
  obtain ⟨⟨rest, last, hrest, hlist⟩, hbound⟩ := h
  refine ⟨⟨rest, last, hrest.same hnext hwalk htail hlen hround hlisted, ?_⟩, ?_⟩
  · intro hnone
    obtain ⟨list, last', hlist⟩ := hlist hnone
    exact ⟨list, last', hlist.same hnext hhead htail hlen hlisted⟩
  · rw [htail, hlen]
    exact hbound

/-! ## Wakers -/

theorem listed_wake (heffect : JoinEffect s s' (.wake i)) (j : Nat) :
    s'.listed j = if j = i then s.listed j + 1 else s.listed j := by
  rw [listed_append heffect.wake_fields.2.2.2.2.2.2]
  by_cases hj : j = i
  · simp [listedAfter, hj]
  · simp [listedAfter, hj, Ne.symm hj]

/-- What was linked stays so, as often or more. -/
theorem le_listed_wake (heffect : JoinEffect s s' (.wake i)) (j : Nat) : s.listed j ≤ s'.listed j := by
  rw [listed_wake heffect]
  split
  · exact Nat.le_succ _
  · exact Nat.le_refl _

/-- The waker of a child of the walk cuts the walk there. -/
theorem WalkLeads.cut {u v : List Nat} (h : WalkLeads (u ++ i :: v) last s)
    (heffect : JoinEffect s s' (.wake i)) : WalkLeads u (some i) s' := by
  obtain ⟨-, -, hlen, hwalk, -, htail, hevents⟩ := heffect.wake_fields
  have honce := h.once
  rw [← List.append_assoc] at honce
  have hnotin : i ∉ u := fun hi =>
    (List.nodup_append.mp (List.nodup_append.mp h.once).2.1).2.2 i hi i (by simp) rfl
  refine ⟨?_, ?_, ?_, ?_, ?_⟩
  · rw [hwalk]
    exact h.leads.upto fun z hz =>
      heffect.next_of_ne (fun he => hnotin (he ▸ hz)) (h.tail z (by simp [hz]))
  · rw [round_append hevents]
    exact (List.nodup_append.mp honce).1
  · intro j hj
    obtain ⟨hlt, hone⟩ := h.listed j (by simp [hj])
    exact ⟨hlen ▸ hlt, Nat.le_trans hone (le_listed_wake heffect j)⟩
  · intro j hj
    rw [htail]
    rintro ⟨⟩
    exact hnotin hj
  · rintro j ⟨⟩
    have hone := (h.listed i (by simp)).2
    rw [listed_wake heffect, if_pos rfl]
    exact ⟨hnotin, by omega⟩

/-- Any other leaves it as it is. -/
theorem WalkLeads.wake (h : WalkLeads rest last s) (heffect : JoinEffect s s' (.wake i))
    (hnotin : i ∉ rest) : WalkLeads rest last s' := by
  obtain ⟨-, -, hlen, hwalk, -, htail, hevents⟩ := heffect.wake_fields
  refine ⟨?_, ?_, ?_, ?_, ?_⟩
  · rw [hwalk]
    exact h.leads.congr fun z hz =>
      heffect.next_of_ne (fun he => hnotin (he ▸ hz)) (h.tail z hz)
  · rw [round_append hevents]
    exact h.once
  · intro j hj
    obtain ⟨hlt, hone⟩ := h.listed j hj
    exact ⟨hlen ▸ hlt, Nat.le_trans hone (le_listed_wake heffect j)⟩
  · intro j hj
    rw [htail]
    rintro ⟨⟩
    exact hnotin hj
  · intro j hj
    obtain ⟨hout, htwo⟩ := h.twice j hj
    exact ⟨hout, Nat.le_trans htwo (le_listed_wake heffect j)⟩

/-- The waker of a child of the ready list cuts the list there. -/
theorem ListLeads.cutAt {u v : List Nat} (h : ListLeads rest (u ++ i :: v) last s)
    (heffect : JoinEffect s s' (.wake i)) : ListLeads rest u (some i) s' := by
  obtain ⟨-, -, hlen, -, hhead, htail, -⟩ := heffect.wake_fields
  obtain ⟨-, honce, hdisjoint⟩ := List.nodup_append.mp h.once
  have hnotin : i ∉ u := fun hi => (List.nodup_append.mp honce).2.2 i hi i (by simp) rfl
  -- whether or not the list was cut before, its tail is not in `u`
  have hold : s.pollTail ≠ none ∧ ∀ z ∈ u, s.pollTail ≠ some z := by
    cases last with
    | some j =>
      obtain ⟨hsome, hout⟩ := h.cut j rfl
      exact ⟨hsome, fun z hz => hout z (by simp [hz])⟩
    | none =>
      rw [h.whole rfl, List.getLast?_append_cons]
      refine ⟨by simp, ?_⟩
      intro z hz hlast
      exact (List.nodup_append.mp honce).2.2 z hz z (List.mem_of_getLast? hlast) rfl
  refine ⟨?_, ?_, ?_, nofun, ?_, ?_⟩
  · rw [hhead, if_neg hold.1]
    exact h.leads.upto fun z hz =>
      heffect.next_of_ne (fun he => hnotin (he ▸ hz)) (hold.2 z hz)
  · have hsplit := h.once
    rw [← List.append_assoc] at hsplit
    exact (List.nodup_append.mp hsplit).1
  · intro j hj
    obtain ⟨hlt, hone⟩ := h.listed j (by simp [hj])
    exact ⟨hlen ▸ hlt, Nat.le_trans hone (le_listed_wake heffect j)⟩
  · rintro j ⟨⟩
    rw [htail]
    refine ⟨nofun, ?_⟩
    rintro z hz ⟨⟩
    exact hnotin hz
  · rintro j ⟨⟩
    have hone := (h.listed i (by simp)).2
    rw [listed_wake heffect, if_pos rfl, List.mem_append, not_or]
    exact ⟨⟨fun hi => hdisjoint i hi i (by simp) rfl, hnotin⟩, by omega⟩

/-- That of any other child is put behind it. If the list was cut, it stays cut there. -/
theorem ListLeads.wake (h : ListLeads rest list last s) (heffect : JoinEffect s s' (.wake i))
    (hrest : i ∉ rest) (hnotin : i ∉ list) : ∃ list', ListLeads rest list' last s' := by
  obtain ⟨hi, -, hlen, -, hhead, htail, -⟩ := heffect.wake_fields
  cases last with
  | none =>
    have hqueue : IsQueue s.next s.pollHead s.pollTail list :=
      ⟨Lib.leads_none_iff.mp h.leads, h.whole rfl⟩
    have hpushed := heffect.pushTail hqueue hnotin
    refine ⟨list ++ [i], Lib.leads_none_iff.mpr hpushed.chain, ?_, ?_,
      fun _ => hpushed.last, nofun, nofun⟩
    · rw [← List.append_assoc, List.nodup_append]
      refine ⟨h.once, by simp, ?_⟩
      rintro x hx y hy rfl
      rw [List.mem_singleton.mp hy] at hx
      exact (List.mem_append.mp hx).elim hrest hnotin
    · intro j hj
      rcases List.mem_append.mp hj with hj | hj
      · obtain ⟨hlt, hone⟩ := h.listed j hj
        exact ⟨hlen ▸ hlt, Nat.le_trans hone (le_listed_wake heffect j)⟩
      · rw [List.mem_singleton.mp hj, listed_wake heffect, if_pos rfl]
        exact ⟨hlen ▸ hi, Nat.succ_pos _⟩
  | some x =>
    obtain ⟨hsome, hout⟩ := h.cut x rfl
    obtain ⟨hx, htwo⟩ := h.twice x rfl
    refine ⟨list, ?_, h.once, ?_, nofun, ?_, ?_⟩
    · rw [hhead, if_neg hsome]
      exact h.leads.congr fun z hz =>
        heffect.next_of_ne (fun he => hnotin (he ▸ hz)) (hout z hz)
    · intro j hj
      obtain ⟨hlt, hone⟩ := h.listed j hj
      exact ⟨hlen ▸ hlt, Nat.le_trans hone (le_listed_wake heffect j)⟩
    · rintro j ⟨⟩
      rw [htail]
      refine ⟨nofun, ?_⟩
      rintro z hz ⟨⟩
      exact hnotin hz
    · rintro j ⟨⟩
      exact ⟨hx, Nat.le_trans htwo (le_listed_wake heffect x)⟩

theorem SelectLists.wake (h : SelectLists s) (heffect : JoinEffect s s' (.wake i)) :
    SelectLists s' := by
  obtain ⟨⟨rest, last, hwalk, hlist⟩, -⟩ := h
  obtain ⟨hi, -, hlen, -, -, htail, -⟩ := heffect.wake_fields
  constructor
  · by_cases hrest : i ∈ rest
    · obtain ⟨u, v, rfl⟩ := List.append_of_mem hrest
      exact ⟨u, some i, hwalk.cut heffect, nofun⟩
    · refine ⟨rest, last, hwalk.wake heffect hrest, ?_⟩
      intro hnone
      obtain ⟨list, last', hlist⟩ := hlist hnone
      by_cases hmem : i ∈ list
      · obtain ⟨u, v, rfl⟩ := List.append_of_mem hmem
        exact ⟨u, some i, hlist.cutAt heffect⟩
      · obtain ⟨list', hlist'⟩ := hlist.wake heffect hrest hmem
        exact ⟨list', last', hlist'⟩
  · intro j hj
    rw [htail] at hj
    cases hj
    exact hlen ▸ hi

/-! ## The other steps -/

/-- A poll of the join walks the list that it finds. -/
theorem SelectLists.poll (h : SelectLists s) (hstage : s.stage = .idle) :
    SelectLists { s.log [.began] with
      pollHead := none, pollTail := none, stage := .walking s.pollHead } := by
  obtain ⟨⟨rest, last, hwalk, hlist⟩, -⟩ := h
  have hleads := hwalk.leads
  rw [JoinExt.walk, hstage] at hleads
  obtain ⟨rfl, rfl⟩ := hleads.of_none
  obtain ⟨list, last', hlist⟩ := hlist rfl
  refine ⟨⟨list, last', ⟨hlist.leads, ?_, ?_, by simp, ?_⟩,
    fun _ => ⟨[], none, rfl, ?_, by simp, fun _ => rfl, by simp, by simp⟩⟩, by simp⟩
  · rw [round_append (s := s) rfl]
    exact hlist.once
  · intro i hi
    rw [listed_append (s := s) rfl]
    exact hlist.listed i hi
  · intro i hi
    rw [listed_append (s := s) rfl]
    exact hlist.twice i hi
  · rw [List.append_nil]
    exact hlist.once

/-- The child at which the walk stands was linked once, so it is the next of those linked in order. -/
theorem WalkLeads.head (h : WalkLeads rest last s) (hstage : s.stage = .walking (some i))
    (honce : s.listed i ≤ 1) :
    ∃ rest', rest = i :: rest' ∧ Leads s.next (s.next i) rest' last := by
  have hleads := h.leads
  rw [JoinExt.walk, hstage] at hleads
  cases rest with
  | nil =>
    have htwo := (h.twice i hleads.symm).2
    omega
  | cons x rest' =>
    obtain rfl := Option.some.inj hleads.1
    exact ⟨rest', rfl, hleads.2⟩

theorem SelectLists.child {task : JoinTask} (h : SelectLists s)
    (hstage : s.stage = .walking (some i)) (htask : s.tasks[i]? = some task)
    (honce : s.listed i ≤ 1) :
    SelectLists { (s.setTask i { task with env := true }).log [.polled i] with
      stage := .polling i task.next } := by
  obtain ⟨⟨rest, last, hwalk, hlist⟩, htail⟩ := h
  obtain ⟨rest', rfl, hleads⟩ := hwalk.head hstage honce
  have hnext : s.next i = task.next := by rw [JoinExt.next, htask]; rfl
  have hsame : (s.setTask i { task with env := true }).next = s.next := next_setTask_same htask rfl
  have hlen : (s.setTask i { task with env := true }).len = s.len := len_setTask s i _
  generalize hs' : ({ (s.setTask i { task with env := true }).log [.polled i] with
    stage := .polling i task.next } : JoinExt E) = s'
  have hevents : s'.events = s.events ++ [.polled i] := by rw [← hs']; rfl
  have hlisted : ∀ j, j ≠ i → s'.listed j = s.listed j := by
    intro j hj
    rw [listed_append hevents]
    simp [listedAfter, Ne.symm hj]
  have hnext' : s'.next = s.next := by rw [← hs']; exact hsame
  have hlen' : s'.len = s.len := by rw [← hs']; exact hlen
  have htail' : s'.pollTail = s.pollTail := by rw [← hs']; rfl
  obtain ⟨-, honce', -⟩ := List.nodup_append.mp hwalk.once
  have hnotin : i ∉ rest' := (List.nodup_cons.mp honce').1
  refine ⟨⟨rest', last, ⟨?_, ?_, ?_, ?_, ?_⟩, ?_⟩,
    by rw [htail', hlen']; exact htail⟩
  · rw [hnext', ← hs']
    exact hnext ▸ hleads
  · rw [round_append hevents]
    simpa [roundAfter] using hwalk.once
  · intro j hj
    rw [hlen', hlisted j fun he => hnotin (he ▸ hj)]
    exact hwalk.listed j (List.mem_cons_of_mem _ hj)
  · intro j hj
    rw [htail']
    exact hwalk.tail j (List.mem_cons_of_mem _ hj)
  · intro j hj
    obtain ⟨hout, htwo⟩ := hwalk.twice j hj
    rw [List.mem_cons, not_or] at hout
    rw [hlisted j hout.1]
    exact ⟨hout.2, htwo⟩
  · intro hnone
    obtain ⟨list, last', hlist⟩ := hlist hnone
    have hcons := hlist.once
    rw [List.cons_append, List.nodup_cons, List.mem_append, not_or] at hcons
    refine ⟨list, last', ?_, hcons.2, ?_, htail' ▸ hlist.whole, htail' ▸ hlist.cut,
      ?_⟩
    · rw [hnext', ← hs']
      exact hlist.leads
    · intro j hj
      rw [hlen', hlisted j fun he => hcons.1.2 (he ▸ hj)]
      exact hlist.listed j hj
    · intro j hj
      obtain ⟨hout, htwo⟩ := hlist.twice j hj
      rw [List.cons_append, List.mem_cons, not_or] at hout
      rw [hlisted j hout.1]
      exact ⟨hout.2, htwo⟩

theorem foldl_listed_cleanedUp (l : List Nat) (i times : Nat) :
    (l.map JoinEvent.cleanedUp).foldl (listedAfter i) times = times := by
  induction l with
  | nil => rfl
  | cons x l ih => exact ih

/-- **Every step keeps the lists**, if no child is polled that was linked twice. -/
theorem selectLists_step (h : SelectLists s) (hwoken : WokenOnce s o)
    (hok : joinStep cb s o = .ok s') : SelectLists s' := by
  cases joinStep_cases hok with
  | poll hstage => exact h.poll hstage
  | child hstage htask hfuture => exact h.child hstage htask (hwoken _ hstage)
  | @pending i next poll hstage hpoll =>
    have hwalk : s.walk = next := by rw [JoinExt.walk, hstage]
    exact h.same rfl hwalk.symm rfl rfl rfl rfl fun _ => rfl
  | @ready i next task env hstage htask henv =>
    have hwalk : s.walk = next := by rw [JoinExt.walk, hstage]
    refine h.same rfl hwalk.symm rfl rfl rfl ?_ ?_
    · rw [round_append (s := s) rfl]
      rfl
    · intro j
      rw [listed_append (s := s) rfl]
      rfl
  | @cleaned i next task hstage htask =>
    have hwalk : s.walk = next := by rw [JoinExt.walk, hstage]
    exact h.same (next_setTask_same htask rfl) hwalk.symm rfl rfl (len_setTask s i _) rfl
      fun _ => rfl
  | wake hstage hwake => exact h.wake (joinWake_effect hwake).1
  | @finish rand hstage =>
    have hwalk : s.walk = none := by rw [JoinExt.walk, hstage]
    unfold joinFinish
    split
    · exact h.same rfl hwalk.symm rfl rfl rfl rfl fun _ => rfl
    · split
      · exact h.same rfl hwalk.symm rfl rfl rfl rfl fun _ => rfl
      · exact h.same rfl hwalk.symm rfl rfl rfl rfl fun _ => rfl
  | cleanup hstage =>
    have hwalk : s.walk = none := by
      rcases hstage with hstage | ⟨value, hstage⟩
      · rw [JoinExt.walk, hstage]
      · rw [JoinExt.walk, hstage]
    refine h.same rfl hwalk.symm rfl rfl rfl ?_ ?_
    · rw [round_append (s := s) rfl]
      exact (foldl_cleanedUp _ 0 true _).2
    · intro j
      rw [listed_append (s := s) rfl]
      exact foldl_listed_cleanedUp _ j _

/-- At first every child is in the list. -/
theorem selectLists_init (len : Nat) (env : E) : SelectLists (joinExt len env) := by
  obtain ⟨-, hqueue, honce, -, hexact⟩ := readyList_init len env
  refine ⟨⟨[], none, ⟨rfl, ?_, nofun, nofun, nofun⟩, fun _ => ⟨List.range len, none, ?_, ?_, ?_, ?_,
    nofun, nofun⟩⟩, ?_⟩
  · simp [JoinExt.round, joinExt]
  · exact Lib.leads_none_iff.mpr hqueue.chain
  · exact honce
  · exact fun i hi => ⟨((hexact i).mp hi).1, Nat.le_refl 1⟩
  · exact fun _ => hqueue.last
  · intro i hi
    have hmem : i ∈ List.range len := List.mem_of_getLast? (hqueue.last ▸ hi)
    exact ((hexact i).mp hmem).1

/-- The child at which the walk stands has not been polled in this round, and it is one of them. -/
theorem SelectLists.next_child (h : SelectLists s) (hstage : s.stage = .walking (some i))
    (honce : s.listed i ≤ 1) : i < s.len ∧ i ∉ s.round := by
  obtain ⟨⟨rest, last, hwalk, -⟩, -⟩ := h
  obtain ⟨rest', rfl, -⟩ := hwalk.head hstage honce
  refine ⟨(hwalk.listed i List.mem_cons_self).1, ?_⟩
  intro hround
  exact (List.nodup_append.mp hwalk.once).2.2 i hround i List.mem_cons_self rfl

theorem SelectLists.nodup_round (h : SelectLists s) : s.round.Nodup := by
  obtain ⟨⟨rest, last, hwalk, -⟩, -⟩ := h
  exact (List.nodup_append.mp hwalk.once).1

end Taskio
