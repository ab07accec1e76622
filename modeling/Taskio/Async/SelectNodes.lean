import Taskio.Async.Select

/-!
# `select.c`: the nodes of the winners

`taskio_select` hangs a node on a list for every child that returns ready, walks some way along it when
the walk over the children is over, and frees it in the end. In the tree of futures a select has the
winners as a list (`JoinKind.select`); here it has the nodes.

* `selectStep` — `taskio_join_ext` with the three callbacks of `taskio_select`
* `skip_holds`, `onCleanup_holds` — the two loops over the nodes stay within the list
* `selectStep_refines` — with nodes it does what it does with the list, and faults where that does
-/

namespace Taskio

/-! ## Data -/

/-- `struct taskio_select_node`. -/
structure SelectNode where
  index : Nat
  next : Option Nat
deriving DecidableEq, Repr

/-- `struct taskio_select_env`, and the nodes that its callbacks allocate, named in that order. `freed`
records the calls of `free`. -/
structure SelectEnv where
  biased : Bool
  len : Nat
  head : Option Nat
  tail : Option Nat
  nodes : Nat → Option SelectNode
  nextNode : Nat
  freed : List Nat

namespace SelectEnv

def node (env : SelectEnv) (a : Nat) : Except Fault SelectNode :=
  match env.nodes a with
  | some node => .ok node
  | none => .error .useAfterFree

def setNode (env : SelectEnv) (a : Nat) (node : Option SelectNode) : SelectEnv :=
  { env with nodes := Function.update env.nodes a node }

/-! ## Functions -/

/-- `_on_ready`. -/
def onReady (env : SelectEnv) (index : Nat) : Except Fault SelectEnv := do
  let selectNode := env.nextNode
  let env := { env.setNode selectNode (some { index := index, next := none }) with
    nextNode := env.nextNode + 1, len := env.len + 1 }
  match env.tail with
  | none => .ok { env with head := some selectNode, tail := some selectNode }
  | some tail => do
    let node ← env.node tail
    .ok { env.setNode tail (some { node with next := some selectNode }) with
      tail := some selectNode }

/-- The loop of `_on_finish`. -/
def skip (env : SelectEnv) : Nat → Option Nat → Except Fault (Option Nat)
  | 0, selectNode => .ok selectNode
  | _ + 1, none => .error .nullPointer
  | randomSkip + 1, some a => do
    let node ← env.node a
    skip env randomSkip node.next

/-- `_on_finish`: what it stores through `out_index`, if it returns true. -/
def onFinish (env : SelectEnv) (rand : Nat) : Except Fault (Option Nat) :=
  match env.head with
  | none => .ok none
  | some head => do
    let selectNode ←
      if env.biased then .ok (some head)
      else if env.len = 0 then .error .divisionByZero
      else env.skip (rand % env.len) (some head)
    match selectNode with
    | none => .error .nullPointer
    | some a => do
      let node ← env.node a
      .ok (some node.index)

/-- The loop of `_on_cleanup`. `none` when the fuel ends before the loop does. -/
def freeNodes : Nat → SelectEnv → Option Nat → Except Fault (Option SelectEnv)
  | _, env, none => .ok (some env)
  | 0, _, some _ => .ok none
  | fuel + 1, env, some a => do
    let node ← env.node a
    freeNodes fuel { env.setNode a none with freed := env.freed ++ [a] } node.next

/-- `_on_cleanup`. -/
def onCleanup (env : SelectEnv) : Except Fault (Option SelectEnv) :=
  freeNodes env.nextNode env env.head

end SelectEnv

/-- `taskio_select`: the constructor. -/
def taskioSelect (len : Nat) (biased : Bool) : JoinExt SelectEnv :=
  let env : SelectEnv :=
    { biased := biased, len := 0, head := none, tail := none, nodes := fun _ => none, nextNode := 0,
      freed := [] }
  joinExt len env

/-- `joinStep` with the callbacks of `taskio_select`, which may fault. -/
def selectStep (s : JoinExt SelectEnv) (o : JoinOp) : Except Fault (JoinExt SelectEnv) :=
  match o, s.stage with
  | .ret .ready, .polling i next => do
    let task ← s.task i
    let env ← s.env.onReady task.index
    .ok { s.log [.ready i, .cleanedUp i] with env := env, stage := .cleaning i next }
  | .finish rand, .walking none => do
    match ← s.env.onFinish rand with
    | some index => .ok { s with stage := .returned (some index) }
    | none => .ok (joinFinish { onReady := none, onFinish := none } s rand)
  | .cleanup, .idle | .cleanup, .returned _ => do
    match ← s.env.onCleanup with
    | some env => .ok { joinCleanup s with env := env }
    | none => .error .outOfBounds
  | o, _ => joinStep { onReady := none, onFinish := none } s o

/-! ## The list of nodes -/

/-- The nodes are those of the winners, in order. -/
structure HoldsWinners (biased : Bool) (won : List Nat) (env : SelectEnv) : Prop where
  biased_eq : env.biased = biased
  len : env.len = won.length
  head : env.head = if won = [] then none else some 0
  tail : env.tail = if won = [] then none else some (won.length - 1)
  node : ∀ a, env.nodes a = won[a]?.map fun index =>
    { index := index, next := if a + 1 < won.length then some (a + 1) else none }
  nextNode : env.nextNode = won.length
  freed : env.freed = []

/-- They were freed, each once. -/
structure FreedWinners (won : List Nat) (env : SelectEnv) : Prop where
  node : ∀ a, env.nodes a = none
  nextNode : env.nextNode = won.length
  freed : env.freed = List.range won.length

section Nodes

variable {biased : Bool} {won : List Nat} {env : SelectEnv}

theorem HoldsWinners.node_eq (h : HoldsWinners biased won env) {a : Nat} (ha : a < won.length) :
    env.node a =
      .ok { index := won[a], next := if a + 1 < won.length then some (a + 1) else none } := by
  rw [SelectEnv.node, h.node, List.getElem?_eq_getElem ha]
  rfl

/-- The first winner. -/
theorem onReady_first (h : HoldsWinners biased [] env) (index : Nat) :
    ∃ env', env.onReady index = .ok env' ∧ HoldsWinners biased [index] env' := by
  have htail : env.tail = none := h.tail
  have hready : env.onReady index = .ok
      { env.setNode env.nextNode (some { index := index, next := none }) with
        nextNode := env.nextNode + 1, len := env.len + 1, head := some env.nextNode,
        tail := some env.nextNode } := by
    simp only [SelectEnv.onReady, SelectEnv.setNode, htail]
  have hnode : env.nextNode = 0 := h.nextNode
  refine ⟨_, hready, h.biased_eq, ?_, congrArg some hnode, congrArg some hnode, ?_, ?_, h.freed⟩
  · show env.len + 1 = 1
    rw [h.len]
    rfl
  · intro a
    show Function.update env.nodes env.nextNode _ a = _
    rw [hnode, Function.update_apply, h.node]
    cases a with
    | zero => rfl
    | succ a => rfl
  · show env.nextNode + 1 = 1
    rw [hnode]

/-- Any other is linked behind the last. -/
theorem onReady_next (h : HoldsWinners biased won env) (hwon : won ≠ []) (index : Nat) :
    ∃ env', env.onReady index = .ok env' ∧ HoldsWinners biased (won ++ [index]) env' := by
  have hpos : 0 < won.length := List.length_pos_of_ne_nil hwon
  have hlen : (won ++ [index]).length = won.length + 1 := List.length_append
  have hne : won ++ [index] ≠ [] := List.append_ne_nil_of_right_ne_nil _ (by simp)
  have htail : env.tail = some (won.length - 1) := by rw [h.tail, if_neg hwon]
  have hlast : Function.update env.nodes env.nextNode (some { index := index, next := none })
      (won.length - 1) = some { index := won[won.length - 1], next := none } := by
    rw [h.nextNode, Function.update_of_ne (by omega), h.node,
      List.getElem?_eq_getElem (show won.length - 1 < won.length by omega), Option.map_some,
      if_neg (by omega)]
  have hready : env.onReady index = .ok
      { (env.setNode env.nextNode (some { index := index, next := none })).setNode (won.length - 1)
          (some { index := won[won.length - 1], next := some env.nextNode }) with
        nextNode := env.nextNode + 1, len := env.len + 1, tail := some env.nextNode } := by
    simp only [SelectEnv.onReady, SelectEnv.setNode, SelectEnv.node, htail, hlast]
    rfl
  refine ⟨_, hready, h.biased_eq, ?_, ?_, ?_, ?_, ?_, h.freed⟩
  · show env.len + 1 = _
    rw [h.len, hlen]
  · show env.head = _
    rw [h.head, if_neg hwon, if_neg hne]
  · show some env.nextNode = _
    rw [h.nextNode, if_neg hne, hlen]
    rfl
  · intro a
    show Function.update (Function.update env.nodes env.nextNode _) (won.length - 1) _ a = _
    rw [h.nextNode, Function.update_apply, Function.update_apply, h.node, hlen]
    -- before the last, at it, the new one, and behind it
    rcases Nat.lt_trichotomy a won.length with hlt | rfl | hgt
    · rw [List.getElem?_append_left hlt, List.getElem?_eq_getElem hlt]
      by_cases hend : a = won.length - 1
      · subst hend
        rw [if_pos rfl, Option.map_some, if_pos (by omega)]
        congr
        omega
      · rw [if_neg hend, if_neg (by omega), Option.map_some, Option.map_some, if_pos (by omega),
          if_pos (by omega)]
    · rw [if_neg (by omega), if_pos rfl, List.getElem?_concat_length, Option.map_some,
        if_neg (by omega)]
    · rw [if_neg (by omega), if_neg (by omega), List.getElem?_eq_none (by omega),
        List.getElem?_eq_none (by simp; omega)]
      rfl
  · show env.nextNode + 1 = _
    rw [h.nextNode, hlen]

/-- The nodes take the winners as `selectOnReady` does. -/
theorem onReady_holds (h : HoldsWinners biased won env) (index : Nat) :
    ∃ env', env.onReady index = .ok env' ∧ HoldsWinners biased (selectOnReady won index) env' := by
  by_cases hwon : won = []
  · subst hwon
    exact onReady_first h index
  · exact onReady_next h hwon index

/-- The loop of `_on_finish` stays within the list. -/
theorem skip_holds (h : HoldsWinners biased won env) (randomSkip a : Nat)
    (hlt : a + randomSkip < won.length) :
    env.skip randomSkip (some a) = .ok (some (a + randomSkip)) := by
  induction randomSkip generalizing a with
  | zero => rfl
  | succ randomSkip ih =>
    rw [SelectEnv.skip, h.node_eq (by omega), ok_bind, if_pos (by omega), ih (a + 1) (by omega)]
    congr 2
    omega

/-- **The random walk ends at a winner**, whatever `rand()` gives. -/
theorem onFinish_holds (h : HoldsWinners biased won env) (rand : Nat) :
    env.onFinish rand = .ok (selectOnFinish biased won rand) := by
  cases won with
  | nil =>
    rw [SelectEnv.onFinish, h.head]
    rfl
  | cons x xs =>
    rw [SelectEnv.onFinish, h.head, if_neg (by simp)]
    cases biased with
    | true =>
      simp only [h.biased_eq, ↓reduceIte, ok_bind]
      rw [h.node_eq (by simp), ok_bind]
      rfl
    | false =>
      have hlt : rand % (x :: xs).length < (x :: xs).length := Nat.mod_lt _ (by simp)
      have hzero : ¬ (x :: xs).length = 0 := by simp
      simp only [h.biased_eq, h.len, Bool.false_eq_true, ↓reduceIte, if_neg hzero]
      rw [skip_holds h _ 0 (by omega), ok_bind, Nat.zero_add]
      simp only
      rw [h.node_eq hlt, ok_bind]
      show _ = Except.ok (x :: xs)[rand % (x :: xs).length]?
      rw [List.getElem?_eq_getElem hlt]

theorem freeNodes_spec (won : List Nat) (left : Nat) :
    ∀ (a fuel : Nat) (env : SelectEnv), a + left = won.length → left ≤ fuel →
      (∀ b, env.nodes b = if b < a then none else won[b]?.map fun index =>
        { index := index, next := if b + 1 < won.length then some (b + 1) else none }) →
      ∃ env', SelectEnv.freeNodes fuel env (if a < won.length then some a else none) =
          .ok (some env') ∧
        (∀ b, env'.nodes b = none) ∧ env'.nextNode = env.nextNode ∧
        env'.freed = env.freed ++ List.range' a left := by
  induction left with
  | zero =>
    intro a fuel env ha _ hnodes
    refine ⟨env, ?_, ?_, rfl, (List.append_nil _).symm⟩
    · rw [if_neg (by omega)]
      cases fuel with
      | zero => rfl
      | succ fuel => rfl
    · intro b
      rw [hnodes]
      split
      · rfl
      · rw [List.getElem?_eq_none (by omega)]
        rfl
  | succ left ih =>
    intro a fuel env ha hfuel hnodes
    obtain ⟨fuel, rfl⟩ := Nat.exists_eq_succ_of_ne_zero (show fuel ≠ 0 by omega)
    have hlt : a < won.length := by omega
    have hnode : env.node a =
        .ok { index := won[a], next := if a + 1 < won.length then some (a + 1) else none } := by
      rw [SelectEnv.node, hnodes, if_neg (by omega), List.getElem?_eq_getElem hlt]
      rfl
    obtain ⟨env', hfree, hnone, hnext, hfreed⟩ := ih (a + 1) fuel
      { env.setNode a none with freed := env.freed ++ [a] } (by omega) (by omega) fun b => by
        show Function.update env.nodes a none b = _
        rw [Function.update_apply, hnodes]
        by_cases hb : b = a
        · rw [if_pos hb, if_pos (by omega)]
        · rw [if_neg hb]
          by_cases hba : b < a
          · rw [if_pos hba, if_pos (show b < a + 1 by omega)]
          · rw [if_neg hba, if_neg (show ¬ b < a + 1 by omega)]
    refine ⟨env', ?_, hnone, hnext, ?_⟩
    · rw [if_pos hlt, SelectEnv.freeNodes, hnode, ok_bind]
      exact hfree
    · rw [hfreed, List.range'_succ, List.append_assoc]
      rfl

/-- The loop of `_on_cleanup` frees every node once. -/
theorem onCleanup_holds (h : HoldsWinners biased won env) :
    ∃ env', env.onCleanup = .ok (some env') ∧ FreedWinners won env' := by
  obtain ⟨env', hfree, hnone, hnext, hfreed⟩ := freeNodes_spec won won.length 0 env.nextNode env
    (Nat.zero_add _) (Nat.le_of_eq h.nextNode.symm) fun b => by rw [h.node, if_neg (Nat.not_lt_zero b)]
  refine ⟨env', ?_, hnone, hnext.trans h.nextNode, ?_⟩
  · have hhead : env.head = if 0 < won.length then some 0 else none := by
      rw [h.head]
      cases won <;> simp
    rw [SelectEnv.onCleanup, hhead, hfree]
  · rw [hfreed, h.freed, List.nil_append, List.range_eq_range']

end Nodes

/-! ## The two selects -/

/-- The same join with another environment. -/
def JoinExt.withEnv {E F : Type} (s : JoinExt E) (env : F) : JoinExt F :=
  { tasks := s.tasks, completedLen := s.completedLen, pollHead := s.pollHead,
    pollTail := s.pollTail, env := env, stage := s.stage, events := s.events }

/-- The steps that do not call back. -/
def JoinOp.Plain : JoinOp → Prop
  | .ret .ready | .finish _ | .cleanup => False
  | _ => True

section Refinement

variable {E F : Type} {biased : Bool} {won : List Nat} {o : JoinOp}

theorem joinWake_withEnv (s : JoinExt E) (env : F) (i : Nat) :
    joinWake (s.withEnv env) i = (joinWake s i).map (·.withEnv env) := by
  unfold joinWake
  show (s.task i >>= _) = (s.task i >>= _).map _
  cases s.task i with
  | error e => rfl
  | ok task =>
    simp only [ok_bind]
    split
    · rfl
    · show (match s.pollTail with | some last => _ | none => _) =
        Except.map _ (match s.pollTail with | some last => _ | none => _)
      cases s.pollTail with
      | none => rfl
      | some last =>
        show ((s.setTask i { task with next := none }).task last >>= _) =
          ((s.setTask i { task with next := none }).task last >>= _).map _
        cases (s.setTask i { task with next := none }).task last with
        | error e => rfl
        | ok lastTask => rfl

/-- They do not depend on the environment. -/
theorem joinStep_withEnv (cb : JoinCallbacks E) (cb' : JoinCallbacks F) (s : JoinExt E) (env : F)
    (ho : o.Plain) : joinStep cb' (s.withEnv env) o = (joinStep cb s o).map (·.withEnv env) := by
  have hstage : (s.withEnv env).stage = s.stage := rfl
  unfold joinStep
  rw [hstage]
  cases o with
  | poll => cases s.stage <;> rfl
  | child =>
    cases s.stage with
    | walking p =>
      cases p with
      | none => rfl
      | some i =>
        show (s.task i >>= _) = (s.task i >>= _).map _
        cases s.task i with
        | error e => rfl
        | ok task =>
          simp only [ok_bind]
          split
          · rfl
          · rfl
    | _ => rfl
  | ret poll =>
    cases poll with
    | ready => exact absurd ho id
    | _ => cases s.stage <;> rfl
  | cleaned =>
    cases s.stage with
    | cleaning i next =>
      show (s.task i >>= _) = (s.task i >>= _).map _
      cases s.task i with
      | error e => rfl
      | ok task => rfl
    | _ => rfl
  | wake i =>
    cases s.stage with
    | idle | polling | cleaning => exact joinWake_withEnv s env i
    | walking | returned | gone => rfl
  | finish rand => exact absurd ho id
  | cleanup => exact absurd ho id

/-- The select with the nodes of the winners, and the select with their list. -/
structure Represents (biased : Bool) (s : JoinExt SelectEnv) (t : JoinExt (List Nat)) : Prop where
  same : t = s.withEnv t.env
  nodes : s.stage ≠ .gone → HoldsWinners biased t.env s.env
  freed : s.stage = .gone → FreedWinners t.env s.env

variable {s s' : JoinExt SelectEnv} {t t' : JoinExt (List Nat)}

/-- Between the constructor and the clean-up. -/
theorem Represents.holds (hsame : t = s.withEnv t.env) (hgone : s.stage ≠ .gone)
    (hnodes : HoldsWinners biased t.env s.env) : Represents biased s t :=
  ⟨hsame, fun _ => hnodes, fun hg => absurd hg hgone⟩

theorem selectStep_plain (s : JoinExt SelectEnv) (ho : o.Plain) :
    selectStep s o = joinStep { onReady := none, onFinish := none } s o := by
  cases o with
  | ret poll =>
    cases poll with
    | ready => exact absurd ho id
    | _ => rfl
  | finish rand => exact absurd ho id
  | cleanup => exact absurd ho id
  | _ => rfl

/-- A step that does not call back allocates and frees nothing. -/
theorem joinStep_plain (hok : joinStep { onReady := none, onFinish := none } s o = .ok s')
    (ho : o.Plain) : s'.env = s.env ∧ s.stage ≠ .gone ∧ s'.stage ≠ .gone := by
  have hready : o ≠ .ret .ready := by
    rintro rfl
    exact ho
  refine ⟨(joinStep_kept hok).2 hready, ?_, ?_⟩
  · intro hs
    cases joinStep_cases hok with
    | wake hstage hwake => rcases hstage with h | ⟨_, _, h⟩ | ⟨_, _, h⟩ <;> rw [hs] at h <;> cases h
    | finish => exact ho
    | cleanup => exact ho
    | poll h | child h | pending h | ready h | cleaned h =>
      rw [hs] at h
      cases h
  · cases joinStep_cases hok with
    | wake hstage hwake =>
      rw [(joinWake_effect hwake).2.1]
      rcases hstage with h | ⟨_, _, h⟩ | ⟨_, _, h⟩ <;> rw [h] <;> simp
    | finish => exact absurd ho id
    | cleanup => exact absurd ho id
    | poll | child | pending | ready | cleaned => simp

/-- The two do the same, with faults and all. -/
inductive Matches (biased : Bool) :
    Except Fault (JoinExt SelectEnv) → Except Fault (JoinExt (List Nat)) → Prop
  | ok {s : JoinExt SelectEnv} {t : JoinExt (List Nat)} (h : Represents biased s t) :
      Matches biased (.ok s) (.ok t)
  | error (e : Fault) : Matches biased (.error e) (.error e)

theorem matches_ready (h : Represents biased s (s.withEnv won)) {i : Nat} {next : Option Nat}
    (hstage : s.stage = .polling i next) :
    Matches biased (selectStep s (.ret .ready))
      (joinStep (JoinKind.select biased).callbacks (s.withEnv won) (.ret .ready)) := by
  have hgone : s.stage ≠ .gone := by simp [hstage]
  have hstage' : (s.withEnv won).stage = .polling i next := hstage
  simp only [selectStep, joinStep, hstage, hstage', joinRet]
  show Matches biased (s.task i >>= _) (s.task i >>= _)
  cases s.task i with
  | error e => exact .error e
  | ok task =>
    obtain ⟨env, hready, hholds⟩ := onReady_holds (h.nodes hgone) task.index
    simp only [ok_bind, hready]
    exact .ok (.holds rfl (by simp) hholds)

theorem matches_finish (h : Represents biased s (s.withEnv won)) (rand : Nat)
    (hstage : s.stage = .walking none) :
    Matches biased (selectStep s (.finish rand))
      (joinStep (JoinKind.select biased).callbacks (s.withEnv won) (.finish rand)) := by
  have hholds := h.nodes (by simp [hstage])
  have hstage' : (s.withEnv won).stage = .walking none := hstage
  simp only [selectStep, joinStep, hstage, hstage', onFinish_holds hholds, ok_bind]
  have hbind : ((JoinKind.select biased).callbacks.onFinish.bind fun onFinish =>
      onFinish (s.withEnv won).env rand) = selectOnFinish biased won rand := rfl
  have hwon : (s.withEnv won).env = won := rfl
  unfold joinFinish
  rw [hbind, hwon]
  cases selectOnFinish biased won rand with
  | some index => exact .ok (.holds rfl (by simp) hholds)
  | none =>
    show Matches biased (.ok (if s.len = s.completedLen then _ else _))
      (.ok (if s.len = s.completedLen then _ else _))
    split
    · exact .ok (.holds rfl (by simp) hholds)
    · exact .ok (.holds rfl (by simp) hholds)

theorem matches_cleanup (h : Represents biased s (s.withEnv won))
    (hstage : s.stage = .idle ∨ ∃ value, s.stage = .returned value) :
    Matches biased (selectStep s .cleanup)
      (joinStep (JoinKind.select biased).callbacks (s.withEnv won) .cleanup) := by
  have hgone : s.stage ≠ .gone := by
    rcases hstage with hstage | ⟨value, hstage⟩
    · simp [hstage]
    · simp [hstage]
  obtain ⟨env, hcleanup, hfreed⟩ := onCleanup_holds (h.nodes hgone)
  have hselect : selectStep s .cleanup = .ok { joinCleanup s with env := env } := by
    rcases hstage with hstage | ⟨value, hstage⟩
    · simp only [selectStep, hstage, hcleanup, ok_bind]
    · simp only [selectStep, hstage, hcleanup, ok_bind]
  have hjoin : joinStep (JoinKind.select biased).callbacks (s.withEnv won) .cleanup =
      .ok (joinCleanup (s.withEnv won)) := by
    have hstage' : (s.withEnv won).stage = s.stage := rfl
    unfold joinStep
    rw [hstage']
    rcases hstage with hstage | ⟨value, hstage⟩
    · rw [hstage]
    · rw [hstage]
  rw [hselect, hjoin]
  exact .ok ⟨rfl, fun hne => absurd rfl hne, fun _ => hfreed⟩

/-- **The nodes do what the list does**, and no callback faults. -/
theorem selectStep_refines (h : Represents biased s t) (o : JoinOp) :
    Matches biased (selectStep s o) (joinStep (JoinKind.select biased).callbacks t o) := by
  have hsame := h.same
  generalize t.env = won at hsame
  subst hsame
  have hstage : (s.withEnv won).stage = s.stage := rfl
  have hplain : o.Plain → Matches biased (selectStep s o)
      (joinStep (JoinKind.select biased).callbacks (s.withEnv won) o) := by
    intro ho
    rw [selectStep_plain s ho,
      joinStep_withEnv { onReady := none, onFinish := none } _ s won ho]
    cases hok : joinStep { onReady := none, onFinish := none } s o with
    | error e => exact .error e
    | ok s' =>
      obtain ⟨henv, hgone, hgone'⟩ := joinStep_plain hok ho
      exact .ok (.holds rfl hgone' (henv ▸ h.nodes hgone))
  cases o with
  | ret poll =>
    cases poll with
    | ready =>
      cases hs : s.stage with
      | polling i next => exact matches_ready h hs
      | _ =>
        simp only [selectStep, joinStep, hstage, hs]
        exact .error _
    | _ => exact hplain trivial
  | finish rand =>
    cases hs : s.stage with
    | walking p =>
      cases p with
      | none => exact matches_finish h rand hs
      | some i =>
        simp only [selectStep, joinStep, hstage, hs]
        exact .error _
    | _ =>
      simp only [selectStep, joinStep, hstage, hs]
      exact .error _
  | cleanup =>
    cases hs : s.stage with
    | idle => exact matches_cleanup h (Or.inl hs)
    | returned value => exact matches_cleanup h (Or.inr ⟨value, hs⟩)
    | _ =>
      simp only [selectStep, joinStep, hstage, hs]
      exact .error _
  | _ => exact hplain trivial

theorem represents_init (len : Nat) (biased : Bool) :
    Represents biased (taskioSelect len biased) (joinExt len []) :=
  ⟨rfl, fun _ => ⟨rfl, rfl, rfl, rfl, fun _ => rfl, rfl, rfl⟩, nofun⟩

end Refinement

end Taskio
