import Taskio.Async.SelectRuns
import Taskio.Async.Sleeping

/-!
# Trees of sleeps

A tree of joins and selects over sleeps stands for a formula: a join is to be ready when all its
children are, a select when one is, a sleep when its handler was called.

* `Future.Done` — the formula
* `Future.Waits` — a tree between two polls: a child is linked when a poll of it has something to do
* `InRound` — a join that is being polled
* `InRound.finish` — it returns when its children make it complete
-/

namespace Taskio

variable {E : Type} {ext ext' : JoinExt (List Nat)} {kind : JoinKind}
  {f f' : Future} {futures futures' : Nat → Future} {name i j len : Nat} {p q : Nat → Prop}
  {path : List Nat} {stack stack' : List Frame} {woken : Bool} {s s' : TreeRun}

/-! ## The formula -/

/-- What `taskio_join` and `taskio_select` make of their children. -/
def JoinKind.Complete (kind : JoinKind) (len : Nat) (done : Nat → Prop) : Prop :=
  match kind with
  | .join => ∀ i < len, done i
  | .select _ => len = 0 ∨ ∃ i < len, done i

/-- A sleep is to be ready when its handler was called. -/
def Future.Done : Future → Prop
  | .sleep _ _ _ handled => handled = true
  | .join _ kind ext futures => kind.Complete ext.len fun i => (futures i).Done
  | .fn _ | .waiting _ _ => False

theorem JoinKind.Complete.mono (h : kind.Complete len p) (hpq : ∀ i < len, p i → q i) :
    kind.Complete len q := by
  cases kind with
  | join => exact fun i hi => hpq i hi (h i hi)
  | select biased => exact h.imp_right fun ⟨i, hi, hp⟩ => ⟨i, hi, hpq i hi hp⟩

theorem JoinKind.complete_congr (hpq : ∀ i < len, p i ↔ q i) :
    kind.Complete len p ↔ kind.Complete len q :=
  ⟨fun h => h.mono fun i hi => (hpq i hi).mp, fun h => h.mono fun i hi => (hpq i hi).mpr⟩

theorem JoinKind.Complete.differ (h : kind.Complete len p) (hq : ¬ kind.Complete len q) :
    ∃ i < len, p i ∧ ¬ q i := by
  by_contra hnone
  push Not at hnone
  exact hq (h.mono hnone)

/-! ## Between two polls -/

/-- The child is in the rest of the walk. -/
def JoinExt.Walks (s : JoinExt E) (i : Nat) : Prop := ∃ l, Lib.Chain s.next s.walk l ∧ i ∈ l

/-- The next poll has something to do: a sleep whose handler was called, a join whose list is not empty,
or the first poll. -/
def Future.Stirred : Future → Prop
  | .sleep _ _ .first _ => True
  | .sleep _ _ .second handled => handled = true
  | .join _ _ ext _ => .began ∉ ext.events ∨ ext.pollHead ≠ none
  | .sleep _ _ .done _ | .fn _ | .waiting _ _ => False

/-- A join or a select in a state of a run, with its winners. -/
structure JoinFair (kind : JoinKind) (ext : JoinExt (List Nat)) : Prop where
  sound : JoinSound ext
  won : kind ≠ .join → (ext.env = [] ↔ ∀ i < ext.len, ext.pending i)

/-- A tree that has not answered ready. A child that has is done; another one is linked exactly when a
poll of it has something to do. -/
def Future.Waits : Future → Prop
  | .sleep _ _ .first handled => handled = false
  | .sleep _ _ .second _ => True
  | .join _ kind ext futures => ext.stage = .idle ∧ JoinFair kind ext ∧
      (.began ∈ ext.events → ¬ kind.Complete ext.len fun i => ¬ ext.pending i) ∧
      ∀ i < ext.len, (ext.pending i → (futures i).Waits ∧ (ext.due i = true ↔ (futures i).Stirred)) ∧
        (¬ ext.pending i → (futures i).Done)
  | .sleep _ _ .done _ | .fn _ | .waiting _ _ => False

/-- Before and after a round a child is linked in the list for the next one, or not at all. -/
theorem JoinSound.linked (h : JoinSound ext) (hwalk : ext.walk = none) :
    ext.pollHead ≠ none ↔ ∃ i < ext.len, ext.pending i ∧ ext.due i = true := by
  obtain ⟨rest, list, horder⟩ := h.order
  have hrest : rest = [] := by
    have hchain := horder.ready.walk
    rw [hwalk] at hchain
    exact hchain.unique rfl
  have hexact := horder.ready.exact
  rw [hrest] at hexact
  rw [Ne, horder.ready.queue.head_eq_none]
  constructor
  · intro hne
    obtain ⟨i, l, hl⟩ := List.exists_cons_of_ne_nil hne
    obtain ⟨hi, hpending⟩ := (hexact i).mp (by rw [hl]; exact List.mem_cons_self)
    exact ⟨i, hi, hpending⟩
  · rintro ⟨i, hi, hpending⟩ hnil
    have hmem := (hexact i).mpr ⟨hi, hpending⟩
    rw [hnil] at hmem
    cases hmem

theorem JoinSound.walks_iff {rest list : List Nat} (h : JoinOrder rest list ext) :
    ext.Walks i ↔ i ∈ rest :=
  ⟨fun ⟨_, hchain, hi⟩ => h.ready.walk.unique hchain ▸ hi, fun hi => ⟨rest, h.ready.walk, hi⟩⟩

/-- **Where the formula holds, the next poll has something to do.** -/
theorem Future.Waits.stirred (h : f.Waits) (hdone : f.Done) : f.Stirred := by
  induction f with
  | fn name => exact h
  | waiting name awaitFuture => exact h
  | sleep name ms scope handled =>
    cases scope with
    | first => trivial
    | second => exact hdone
    | done => exact h
  | join name kind ext futures ih =>
    obtain ⟨hstage, hfair, hopen, hchildren⟩ := h
    by_cases hbegan : .began ∈ ext.events
    · -- a child is done, and has not answered
      obtain ⟨i, hi, hdone, hpending⟩ := JoinKind.Complete.differ hdone (hopen hbegan)
      have hpending := not_not.mp hpending
      obtain ⟨hwaits, hdue⟩ := (hchildren i hi).1 hpending
      refine Or.inr ((hfair.sound.linked ?_).mpr ⟨i, hi, hpending, ?_⟩)
      · rw [JoinExt.walk, hstage]
      · exact hdue.mpr (ih i hwaits hdone)
    · exact Or.inl hbegan

/-- A tree of sleeps, as it is called. -/
def FutureFn.OfSleeps : FutureFn → Prop
  | .asyncFn _ => False
  | .sleep _ _ => True
  | .join _ _ len args => ∀ i < len, (args i).OfSleeps

theorem joinFair_init (kind : JoinKind) (len : Nat) : JoinFair kind (joinExt len []) :=
  ⟨joinSound_init len [], fun _ => iff_of_true rfl fun _ _ => List.not_mem_nil⟩

theorem len_joinExt (len : Nat) (env : E) : (joinExt len env).len = len := by
  simp [JoinExt.len, joinExt, joinTasks]

theorem returns_waits {g : FutureFn} (h : g.OfSleeps) : g.returns.Waits ∧ g.returns.Stirred := by
  induction g with
  | asyncFn name => exact h.elim
  | sleep name ms => exact ⟨rfl, trivial⟩
  | join name kind len args ih =>
    refine ⟨⟨rfl, joinFair_init kind len, fun hbegan => absurd hbegan List.not_mem_nil, ?_⟩,
      Or.inl List.not_mem_nil⟩
    intro i hi
    rw [len_joinExt] at hi
    obtain ⟨hwaits, hstirred⟩ := ih i (h i hi)
    refine ⟨fun _ => ⟨hwaits, iff_of_true rfl hstirred⟩, ?_⟩
    exact fun hready => absurd List.not_mem_nil hready

/-! ## A join in its poll -/

/-- In the loop over the list, between two polls of children. -/
def JoinStage.InLoop : JoinStage → Prop
  | .walking _ | .cleaning _ _ => True
  | .idle | .polling _ _ | .returned _ | .gone => False

theorem JoinStage.InLoop.not_polling {stage : JoinStage} (h : stage.InLoop) (i : Nat)
    (next : Option Nat) : stage ≠ .polling i next := by
  rintro rfl
  exact h

/-- The children of a join that is polled, but for the one that is being polled. -/
structure InRound (kind : JoinKind) (ext : JoinExt (List Nat)) (futures : Nat → Future) : Prop where
  fair : JoinFair kind ext
  began : .began ∈ ext.events
  once : ∀ i next, ext.stage = .polling i next → ext.pending i ∧ ¬ ext.Walks i
  handed : ∀ i next, ext.stage = .polling i next → ext.handed[i]? = some true
  children : ∀ i < ext.len, (∀ next, ext.stage ≠ .polling i next) →
    (ext.pending i → (futures i).Waits ∧ (ext.due i = true ↔ (futures i).Stirred)) ∧
      (¬ ext.pending i → (futures i).Done)

/-- A child that is ready, or that the walk comes to and that will be. -/
def JoinExt.Wins (ext : JoinExt (List Nat)) (futures : Nat → Future) (i : Nat) : Prop :=
  ¬ ext.pending i ∨ ext.Walks i ∧ (futures i).Done

/-! ## The steps of a join -/

theorem joinFair_step {o : JoinOp} (h : JoinFair kind ext) (hcalm : CalmWakes ext o)
    (hok : joinStep kind.callbacks ext o = .ok ext') : JoinFair kind ext' := by
  refine ⟨joinSound_step h.sound hcalm hok, ?_⟩
  intro hkind
  by_cases hready : o = .ret .ready
  · subst hready
    cases joinStep_cases hok with
    | pending hstage hpoll => exact absurd rfl hpoll
    | @ready i next task env hstage htask henv =>
      -- the child is a winner
      refine iff_of_false ?_ fun hall => ?_
      · rw [henv]
        cases kind with
        | join => exact absurd rfl hkind
        | select biased => exact List.concat_ne_nil _ _
      · refine hall i (lt_len_of_task htask) ?_
        show .ready i ∈ ext.events ++ _
        simp
  · rw [(joinStep_kept hok).2 hready, h.won hkind, (joinStep_effect hok).history.1]
    refine forall₂_congr fun i _ => ?_
    rw [pending_append (joinStep_events hok), and_iff_left (ready_notMem hready)]

/-- A waker marks its child and no other. -/
theorem wake_marks (hok : joinStep kind.callbacks ext (.wake i) = .ok ext') :
    ext'.stage = ext.stage ∧ (∀ j, ext'.pending j ↔ ext.pending j) ∧
      ∀ j, ext'.due j = if j = i then true else ext.due j := by
  have hevents := joinStep_events hok
  refine ⟨?_, fun j => ?_, fun j => ?_⟩
  · cases joinStep_cases hok with
    | wake _ hwake => exact (joinWake_effect hwake).2.1
  · rw [pending_append hevents]
    simp [joinEvents]
  · rw [due_append hevents]
    by_cases hji : j = i
    · simp [joinEvents, dueAfter, hji]
    · simp [joinEvents, dueAfter, hji, Ne.symm hji]

/-- A poll of the join takes the list. -/
theorem Future.Waits.begin (h : (Future.join name kind ext futures).Waits)
    (hok : joinStep kind.callbacks ext .poll = .ok ext') :
    InRound kind ext' futures ∧ ext'.stage.InLoop ∧ ext'.pollHead = none ∧
      (kind.Complete ext'.len (ext'.Wins futures) ↔ (Future.join name kind ext futures).Done) := by
  obtain ⟨hstage, hfair, hopen, hchildren⟩ := h
  have hfair' := joinFair_step (o := .poll) hfair trivial hok
  obtain ⟨rest, list, horder⟩ := hfair'.sound.order
  have hexact := horder.ready.exact
  have hlist : list = [] := by
    cases joinStep_cases hok with
    | poll => exact horder.ready.queue.chain.unique rfl
  rw [hlist, List.append_nil] at hexact
  have hpending := pending_append (joinStep_events hok)
  have hdue := due_append (joinStep_events hok)
  have hlen := (joinStep_effect hok).history.1
  simp only [joinEvents] at hpending hdue
  have hpending : ∀ i, ext'.pending i ↔ ext.pending i := fun i => by simp [hpending]
  have hdue : ∀ i, ext'.due i = ext.due i := fun i => by simp [hdue, dueAfter]
  have hchildren' : ∀ i < ext'.len,
      (ext'.pending i → (futures i).Waits ∧ (ext'.due i = true ↔ (futures i).Stirred)) ∧
        (¬ ext'.pending i → (futures i).Done) := by
    intro i hi
    rw [hpending, hdue]
    exact hchildren i (hlen ▸ hi)
  have hloop : ext'.stage.InLoop := by
    cases joinStep_cases hok with
    | poll => trivial
  refine ⟨⟨hfair', ?_, fun i next hs => absurd hs (hloop.not_polling i next),
    fun i next hs => absurd hs (hloop.not_polling i next), fun i hi _ => hchildren' i hi⟩,
    hloop, ?_, ?_⟩
  · rw [joinStep_events hok]
    exact List.mem_append_right _ List.mem_cons_self
  · cases joinStep_cases hok with
    | poll => rfl
  · show _ ↔ kind.Complete ext.len _
    rw [← hlen]
    refine JoinKind.complete_congr fun i hi => ?_
    obtain ⟨hwaits, hdone⟩ := hchildren' i hi
    rw [JoinExt.Wins, JoinSound.walks_iff horder, hexact]
    constructor
    · rintro (hready | ⟨-, hdone⟩)
      · exact hdone hready
      · exact hdone
    · intro hdone
      by_cases hp : ext'.pending i
      · obtain ⟨hwaits, hdue⟩ := hwaits hp
        exact Or.inr ⟨⟨hi, hp, hdue.mpr (hwaits.stirred hdone)⟩, hdone⟩
      · exact Or.inl hp

/-- The child at the head of the walk is polled. -/
theorem InRound.child (h : InRound kind ext futures) (hloop : ext.stage.InLoop)
    (hok : joinStep kind.callbacks ext .child = .ok ext') :
    ∃ i next, ext'.stage = .polling i next ∧ InRound kind ext' futures ∧
      ext'.pollHead = ext.pollHead ∧ ((futures i).Waits ∧ (futures i).Stirred ∧ ext'.due i = false) ∧
      (kind.Complete ext'.len (fun j => if j = i then (futures i).Done else ext'.Wins futures j) ↔
        kind.Complete ext.len (ext.Wins futures)) := by
  obtain ⟨rest, list, horder⟩ := h.fair.sound.order
  have hfair' := joinFair_step (o := .child) h.fair trivial hok
  have horder' := joinOrder_lists (o := .child) horder trivial hok
  have hpending := pending_append (joinStep_events hok)
  have hdue := due_append (joinStep_events hok)
  have hlen := (joinStep_effect hok).history.1
  have hevents := joinStep_events hok
  cases joinStep_cases hok with
  | @child i task hstage htask hfuture =>
    simp only [joinEvents, hstage] at hpending hdue hevents
    obtain ⟨l, rfl⟩ : ∃ l, rest = i :: l := by
      have hchain := horder.ready.walk
      rw [JoinExt.walk, hstage] at hchain
      cases rest with
      | nil => cases hchain
      | cons x l => exact ⟨l, by rw [Option.some.inj hchain.1]⟩
    obtain ⟨hi, hpend, hdue₀⟩ := (horder.ready.exact i).mp (by simp)
    obtain ⟨hwaits, hstirred⟩ := (h.children i hi (hloop.not_polling i)).1 hpend
    have hpolled : [JoinEvent.polled i].foldl (dueAfter i) (ext.due i) = false := by simp [dueAfter]
    have hdue' := (hdue i).trans hpolled
    have honce := (List.nodup_cons.mp (List.nodup_append.mp horder.ready.once).1).1
    refine ⟨i, task.next, rfl, ⟨hfair', ?_, ?_, ?_, ?_⟩, rfl, ⟨hwaits, hstirred.mp hdue₀, hdue'⟩, ?_⟩
    · rw [hevents]
      exact List.mem_append_left _ h.began
    · rintro j next ⟨⟩
      rw [hpending, JoinSound.walks_iff horder']
      exact ⟨⟨hpend, by simp⟩, honce⟩
    · rintro j next ⟨⟩
      exact hfair'.sound.counts.handed i hdue'
    · intro j hj hother
      have hji : i ≠ j := by
        rintro rfl
        exact hother _ rfl
      rw [hlen] at hj
      have hchild := h.children j hj (hloop.not_polling j)
      rw [hpending, hdue]
      simpa [dueAfter, hji] using hchild
    · rw [hlen]
      refine JoinKind.complete_congr fun j hj => ?_
      have hpending' := hpending j
      simp only [List.mem_singleton, reduceCtorEq, not_false_eq_true, and_true] at hpending'
      rw [JoinExt.Wins, JoinExt.Wins, JoinSound.walks_iff horder, JoinSound.walks_iff horder',
        hpending']
      simp only [listsAfter, List.tail_cons, List.mem_cons]
      by_cases hji : j = i
      · subst hji
        simp [hpend]
      · simp [hji]

theorem calm_ret {poll : FuturePoll} {next : Option Nat} (hstage : ext.stage = .polling i next)
    (hcalm : poll = .ready → ext.due i = false) : CalmWakes ext (.ret poll) := by
  cases poll with
  | ready =>
    intro j next' hstage'
    obtain ⟨rfl, -⟩ := JoinStage.polling.inj (hstage.symm.trans hstage')
    exact hcalm rfl
  | _ => trivial

/-- A child answers. -/
theorem InRound.ret {poll : FuturePoll} (h : InRound kind ext futures) {next : Option Nat}
    (hstage : ext.stage = .polling i next) (hcalm : poll = .ready → ext.due i = false)
    (hready : poll = .ready → f.Done)
    (hpending : poll ≠ .ready → f.Waits ∧ (ext.due i = true ↔ f.Stirred))
    (hok : joinStep kind.callbacks ext (.ret poll) = .ok ext') :
    InRound kind ext' (Function.update futures i f) ∧ ext'.stage.InLoop ∧
      ext'.pollHead = ext.pollHead ∧
      (kind.Complete ext'.len (ext'.Wins (Function.update futures i f)) ↔
        kind.Complete ext.len fun j => if j = i then poll = .ready else ext.Wins futures j) := by
  obtain ⟨rest, list, horder⟩ := h.fair.sound.order
  obtain ⟨hpend, hwalks⟩ := h.once i next hstage
  have hcalm' := calm_ret hstage hcalm
  have hfair' := joinFair_step h.fair hcalm' hok
  have horder' := joinOrder_lists horder hcalm' hok
  have hevents := joinStep_events hok
  have hlen := (joinStep_effect hok).history.1
  -- only this child may have answered
  have hpending' : ∀ j, ext'.pending j ↔ ext.pending j ∧ (j = i → poll ≠ .ready) := by
    intro j
    rw [pending_append hevents]
    cases poll with
    | ready => simp [joinEvents, hstage]
    | _ => simp [joinEvents]
  have hdue : ∀ j, ext'.due j = ext.due j := by
    intro j
    rw [due_append hevents]
    cases poll with
    | ready => simp [joinEvents, hstage, dueAfter]
    | _ => simp [joinEvents]
  have hwalks' : ∀ j, ext'.Walks j ↔ ext.Walks j := by
    intro j
    rw [JoinSound.walks_iff horder, JoinSound.walks_iff horder']
    rfl
  obtain ⟨hloop, hhead⟩ : ext'.stage.InLoop ∧ ext'.pollHead = ext.pollHead := by
    cases joinStep_cases hok with
    | pending => exact ⟨trivial, rfl⟩
    | ready => exact ⟨trivial, rfl⟩
  refine ⟨⟨hfair', ?_, fun j next' hs => absurd hs (hloop.not_polling j next'),
    fun j next' hs => absurd hs (hloop.not_polling j next'), ?_⟩, hloop, hhead, ?_⟩
  · rw [hevents]
    exact List.mem_append_left _ h.began
  · intro j hj _
    rw [hpending', hdue]
    by_cases hji : j = i
    · subst hji
      rw [Function.update_self]
      refine ⟨fun hp => hpending (hp.2 rfl), fun hp => hready ?_⟩
      by_contra hne
      exact hp ⟨hpend, fun _ => hne⟩
    · rw [Function.update_of_ne hji]
      have hchild := h.children j (hlen ▸ hj) fun next' hs =>
        hji (JoinStage.polling.inj (hs.symm.trans hstage)).1
      simpa [hji] using hchild
  · rw [hlen]
    refine JoinKind.complete_congr fun j hj => ?_
    rw [JoinExt.Wins, hwalks', hpending']
    by_cases hji : j = i
    · subst hji
      simp [hpend, hwalks]
    · simp [JoinExt.Wins, hji]

/-- The clean-up of a child ends. -/
theorem InRound.cleaned (h : InRound kind ext futures)
    (hok : joinStep kind.callbacks ext .cleaned = .ok ext') :
    InRound kind ext' futures ∧ ext'.stage.InLoop ∧ ext'.pollHead = ext.pollHead ∧
      (kind.Complete ext'.len (ext'.Wins futures) ↔ kind.Complete ext.len (ext.Wins futures)) := by
  obtain ⟨rest, list, horder⟩ := h.fair.sound.order
  have hfair' := joinFair_step (o := .cleaned) h.fair trivial hok
  have horder' := joinOrder_lists (o := .cleaned) horder trivial hok
  have hevents : ext'.events = ext.events := by
    rw [joinStep_events hok]
    exact List.append_nil _
  have hpending : ext'.pending = ext.pending := by
    funext i
    rw [JoinExt.pending, JoinExt.pending, hevents]
  have hdue : ext'.due = ext.due := by
    funext i
    rw [JoinExt.due, JoinExt.due, hevents]
  have hlen := (joinStep_effect hok).history.1
  have hwalks : ext'.Walks = ext.Walks := by
    funext i
    exact propext ((JoinSound.walks_iff horder').trans (JoinSound.walks_iff horder).symm)
  cases joinStep_cases hok with
  | @cleaned i next task hstage htask =>
    refine ⟨⟨hfair', hevents ▸ h.began, by simp, by simp, ?_⟩, trivial, rfl, ?_⟩
    · intro j hj _
      rw [hpending, hdue]
      exact h.children j (hlen ▸ hj) (by simp [hstage])
    · rw [hlen]
      refine JoinKind.complete_congr fun j hj => ?_
      rw [JoinExt.Wins, JoinExt.Wins, hpending, hwalks]

/-- The waker of the child that is polled is called. -/
theorem InRound.wake {next : Option Nat} (h : InRound kind ext futures)
    (hstage : ext.stage = .polling i next) (hcalm : ext.due i = false)
    (hok : joinStep kind.callbacks ext (.wake i) = .ok ext') :
    InRound kind ext' futures ∧ ext'.stage = ext.stage ∧ ext'.pollHead ≠ none ∧ ext'.due i = true ∧
      ∀ v : Prop, kind.Complete ext'.len (fun j => if j = i then v else ext'.Wins futures j) ↔
        kind.Complete ext.len fun j => if j = i then v else ext.Wins futures j := by
  obtain ⟨rest, list, horder⟩ := h.fair.sound.order
  have hcalm' : CalmWakes ext (.wake i) := ⟨(h.once i next hstage).1, hcalm⟩
  have hfair' := joinFair_step h.fair hcalm' hok
  have horder' := joinOrder_lists horder hcalm' hok
  have hlen := (joinStep_effect hok).history.1
  obtain ⟨hstage', hpending, hdue⟩ := wake_marks hok
  have hwalks : ∀ j, ext'.Walks j ↔ ext.Walks j := fun j =>
    (JoinSound.walks_iff horder').trans (JoinSound.walks_iff horder).symm
  have hhanded : ext'.handed = ext.handed := by
    cases joinStep_cases hok with
    | wake _ hwake => exact (joinWake_flags hwake).2.1
  refine ⟨⟨hfair', ?_, ?_, ?_, ?_⟩, hstage', ?_, ?_, fun v => ?_⟩
  · rw [joinStep_events hok]
    exact List.mem_append_left _ h.began
  · intro j next' hs
    rw [hpending, hwalks]
    exact h.once j next' (hstage' ▸ hs)
  · intro j next' hs
    rw [hhanded]
    exact h.handed j next' (hstage' ▸ hs)
  · intro j hj hother
    rw [hstage'] at hother
    have hji : j ≠ i := by
      rintro rfl
      exact hother next hstage
    rw [hpending, hdue, if_neg hji]
    exact h.children j (hlen ▸ hj) hother
  · rw [Ne, horder'.ready.queue.head_eq_none]
    exact List.concat_ne_nil _ _
  · rw [hdue, if_pos rfl]
  · rw [hlen]
    refine JoinKind.complete_congr fun j _ => ?_
    rw [JoinExt.Wins, JoinExt.Wins, hpending, hwalks]

/-- A join returns when its children make it complete. -/
theorem JoinFair.finish (h : JoinFair kind ext) (hstage : ext.stage = .walking none) (rand : Nat) :
    (∃ value, (joinFinish kind.callbacks ext rand).stage = .returned value) ∧
        kind.Complete ext.len (fun i => ¬ ext.pending i) ∨
      (joinFinish kind.callbacks ext rand).stage = .idle ∧
        ¬ kind.Complete ext.len fun i => ¬ ext.pending i := by
  cases kind with
  | join =>
    have hall : ext.AllReady ↔ ∀ i < ext.len, ¬ ext.pending i :=
      forall₂_congr fun i _ => not_not.symm
    have hnone : JoinKind.join.callbacks.onFinish = none := rfl
    rcases joinFinish_stage h.sound.counts hstage hnone rand with ⟨hs, hready⟩ | ⟨hs, hready⟩
    · exact Or.inl ⟨⟨none, hs⟩, hall.mp hready⟩
    · exact Or.inr ⟨hs, mt hall.mpr hready⟩
  | select biased =>
    have hwon := h.won (by simp)
    have hbind : ((JoinKind.select biased).callbacks.onFinish.bind fun onFinish =>
        onFinish ext.env rand) = selectOnFinish biased ext.env rand := rfl
    unfold joinFinish
    rw [hbind]
    by_cases hnil : ext.env = []
    · have hpending := hwon.mp hnil
      rw [hnil]
      show (∃ value, (if ext.len = ext.completedLen then _ else _ : JoinExt (List Nat)).stage =
        .returned value) ∧ _ ∨ (if ext.len = ext.completedLen then _ else _ : JoinExt _).stage = _ ∧ _
      by_cases hlen : ext.len = ext.completedLen
      · -- no child at all
        rw [if_pos hlen]
        refine Or.inl ⟨⟨none, rfl⟩, Or.inl ?_⟩
        have hready := (h.sound.counts.complete_iff hstage).mp hlen
        by_contra hne
        have hpos := Nat.pos_of_ne_zero hne
        exact hpending 0 hpos (hready 0 hpos)
      · rw [if_neg hlen]
        refine Or.inr ⟨rfl, ?_⟩
        rintro (hzero | ⟨i, hi, hready⟩)
        · refine hlen ((h.sound.counts.complete_iff hstage).mpr fun i hi => ?_)
          omega
        · exact hready (hpending i hi)
    · obtain ⟨index, hindex⟩ := selectOnFinish_some biased hnil rand
      rw [hindex]
      refine Or.inl ⟨⟨some index, rfl⟩, Or.inr ?_⟩
      by_contra hnone
      push Not at hnone
      exact hnil (hwon.mpr hnone)

/-- The end of the walk. -/
theorem InRound.finish {rand : Nat} (name : Nat) (h : InRound kind ext futures)
    (hok : joinStep kind.callbacks ext (.finish rand) = .ok ext') :
    (∃ value, ext'.stage = .returned value) ∧ kind.Complete ext.len (ext.Wins futures) ∧
        (Future.join name kind ext' futures).Done ∨
      ext'.stage = .idle ∧ ¬ kind.Complete ext.len (ext.Wins futures) ∧
        (Future.join name kind ext' futures).Waits ∧
        (ext.pollHead ≠ none ↔ (Future.join name kind ext' futures).Stirred) := by
  have hfair' := joinFair_step (o := .finish rand) h.fair trivial hok
  obtain ⟨rest, list, horder⟩ := h.fair.sound.order
  cases joinStep_cases hok with
  | finish hstage =>
    obtain ⟨htasks, hevents, -, -⟩ := joinFinish_same kind.callbacks ext rand
    have hlen : (joinFinish kind.callbacks ext rand).len = ext.len := congrArg List.length htasks
    have hpending : (joinFinish kind.callbacks ext rand).pending = ext.pending := by
      funext i
      rw [JoinExt.pending, JoinExt.pending, hevents]
    have hdue : (joinFinish kind.callbacks ext rand).due = ext.due := by
      funext i
      rw [JoinExt.due, JoinExt.due, hevents]
    -- the walk is over
    have hwins : kind.Complete ext.len (ext.Wins futures) ↔
        kind.Complete ext.len fun i => ¬ ext.pending i := by
      refine JoinKind.complete_congr fun i _ => or_iff_left ?_
      rintro ⟨⟨l, hchain, hi⟩, -⟩
      rw [JoinExt.walk, hstage] at hchain
      cases l with
      | nil => cases hi
      | cons x l => cases hchain.1
    have hchildren : ∀ i < ext.len,
        (ext.pending i → (futures i).Waits ∧ (ext.due i = true ↔ (futures i).Stirred)) ∧
          (¬ ext.pending i → (futures i).Done) :=
      fun i hi => h.children i hi (by simp [hstage])
    rw [hwins]
    rcases h.fair.finish hstage rand with ⟨hreturned, hcomplete⟩ | ⟨hidle, hopen⟩
    · refine Or.inl ⟨hreturned, hcomplete, ?_⟩
      show kind.Complete (joinFinish kind.callbacks ext rand).len _
      rw [hlen]
      exact hcomplete.mono fun i hi => (hchildren i hi).2
    · refine Or.inr ⟨hidle, hopen, ⟨hidle, hfair', ?_, ?_⟩, ?_⟩
      · rw [hpending, hlen]
        exact fun _ => hopen
      · rw [hpending, hdue, hlen]
        exact hchildren
      · show _ ↔ JoinEvent.began ∉ _ ∨ _
        rw [hevents, or_iff_right (not_not_intro h.began)]
        have hsame : (joinFinish kind.callbacks ext rand).pollHead = ext.pollHead := by
          unfold joinFinish
          split
          · rfl
          · split
            · rfl
            · rfl
        rw [hsame]

end Taskio
