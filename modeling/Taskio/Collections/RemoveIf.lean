import Taskio.Lib.Cells
import Taskio.Collections.Buffer

/-!
# What `taskio_vec_remove_if` computes

The loop calls the predicate with the elements in order until an answer finishes it, and what was
answered `true` is gone. The specification is the same walk by recursion over a list.

* `askAll` — the answers, up to the first that finishes
* `remaining` — the elements that they leave
* `removeIfLoop_go` — the loop at any index, with the elements before it already kept
* `vec_remove_if_spec` — the loop ends, and does what the specification says
* `RemovesIf.refines` — the walk of the timer wheel is what the macro does in memory
-/

namespace Taskio

variable {α σ : Type} {predicate : α → σ → Predicate × σ} {m m' : Buffers α} {vec : Vec} {l : List α}

/-! ## The specification -/

def Predicate.removes : Predicate → Bool
  | .true | .trueFinish => Bool.true
  | .false | .falseFinish => Bool.false

def Predicate.finishes : Predicate → Bool
  | .trueFinish | .falseFinish => Bool.true
  | .true | .false => Bool.false

/-- The predicate is called with the elements in order until an answer finishes: the calls with their
answers, and the predicate's state after them. -/
def askAll (predicate : α → σ → Predicate × σ) : List α → σ → List (α × Predicate) × σ
  | [], s => ([], s)
  | x :: xs, s =>
    let (answer, s') := predicate x s
    if answer.finishes then ([(x, answer)], s')
    else
      let r := askAll predicate xs s'
      ((x, answer) :: r.1, r.2)

/-- The elements answered to stay, and those that were not asked about. -/
def remaining (asked : List (α × Predicate)) (l : List α) : List α :=
  (asked.filter fun a => !a.2.removes).map Prod.fst ++ l.drop asked.length

/-- The elements are asked about once each, in order. -/
theorem askAll_fst (predicate : α → σ → Predicate × σ) (l : List α) (s : σ) :
    (askAll predicate l s).1.map Prod.fst = l.take (askAll predicate l s).1.length := by
  induction l generalizing s with
  | nil => rfl
  | cons x xs ih =>
    rw [askAll]
    cases hp : predicate x s with
    | mk answer s' =>
      dsimp only
      by_cases hfin : answer.finishes = Bool.true
      · rw [if_pos hfin]
        rfl
      · rw [if_neg hfin]
        simp [ih s']

/-- No answer but the last finishes. -/
theorem askAll_goesOn (l : List α) (s : σ) :
    ∀ a ∈ (askAll predicate l s).1.dropLast, a.2.finishes = Bool.false := by
  induction l generalizing s with
  | nil => simp [askAll]
  | cons x xs ih =>
    rw [askAll]
    cases hp : predicate x s with
    | mk answer s' =>
      dsimp only
      by_cases hfin : answer.finishes = Bool.true
      · rw [if_pos hfin]
        simp
      · rw [if_neg hfin]
        intro a ha
        cases hrest : (askAll predicate xs s').1 with
        | nil =>
          rw [hrest] at ha
          simp at ha
        | cons b bs =>
          rw [hrest, List.dropLast_cons_cons, List.mem_cons] at ha
          rcases ha with rfl | ha
          · simpa using hfin
          · exact ih s' a (by rw [hrest]; exact ha)

/-- It finishes, unless all elements were asked about. -/
theorem askAll_finishes (l : List α) (s : σ) :
    (askAll predicate l s).1.map Prod.fst = l ∨
      ∃ a, (askAll predicate l s).1.getLast? = some a ∧ a.2.finishes = Bool.true := by
  induction l generalizing s with
  | nil => exact Or.inl rfl
  | cons x xs ih =>
    rw [askAll]
    cases hp : predicate x s with
    | mk answer s' =>
      dsimp only
      by_cases hfin : answer.finishes = Bool.true
      · rw [if_pos hfin]
        exact Or.inr ⟨(x, answer), rfl, hfin⟩
      · rw [if_neg hfin]
        rcases ih s' with hall | ⟨a, ha, hfin'⟩
        · exact Or.inl (by rw [List.map_cons, hall])
        · exact Or.inr ⟨a, by rw [List.getLast?_cons, ha]; rfl, hfin'⟩

theorem remaining_length (l : List α) (s : σ) :
    (remaining (askAll predicate l s).1 l).length + (askAll predicate l s).1.countP (·.2.removes) =
      l.length := by
  have hle := congrArg List.length (askAll_fst predicate l s)
  rw [List.length_map, List.length_take] at hle
  have hsplit := List.length_eq_countP_add_countP (fun a : α × Predicate => a.2.removes)
    (l := (askAll predicate l s).1)
  have hstay : ((askAll predicate l s).1.filter fun a => !a.2.removes).length =
      (askAll predicate l s).1.countP fun a => decide ¬ a.2.removes = Bool.true := by
    rw [← List.countP_eq_length_filter]
    exact List.countP_congr fun a _ => by simp
  rw [remaining, List.length_append, List.length_map, List.length_drop, hstay]
  omega

/-! ## A vector that is well formed -/

/-- The vector has the elements of `l`: they are in the front of its buffer, which has room for
`capacity`. A vector without a buffer has no capacity. -/
structure Vec.Holds (m : Buffers α) (vec : Vec) (l : List α) : Prop where
  len : vec.len = l.length
  room : vec.len ≤ vec.capacity
  fits : vec.capacity < 2 ^ 64
  null : vec.capacity = 0 ↔ vec.data = none
  live : ∀ a, vec.data = some a →
    ∃ cells, m.live a = some cells ∧ vec.capacity ≤ cells.length ∧ Lib.Holds cells l

/-- The buffers are those that there were, but for the contents of the one at `data`. -/
structure SameBuffers (data : Option Nat) (m m' : Buffers α) : Prop where
  size : ∀ a, (m'.live a).map List.length = (m.live a).map List.length
  other : ∀ a, data ≠ some a → m'.live a = m.live a

theorem SameBuffers.refl (data : Option Nat) (m : Buffers α) : SameBuffers data m m :=
  ⟨fun _ => rfl, fun _ _ => rfl⟩

theorem SameBuffers.trans {data : Option Nat} {m'' : Buffers α} (h : SameBuffers data m m')
    (h' : SameBuffers data m' m'') : SameBuffers data m m'' :=
  ⟨fun a => (h'.size a).trans (h.size a), fun a ha => (h'.other a ha).trans (h.other a ha)⟩

/-- A vector with an element has a buffer. -/
theorem Vec.Holds.cells (h : vec.Holds m l) (hl : l ≠ []) :
    ∃ a cells, vec.data = some a ∧ m.live a = some cells ∧ m.cells vec.data = .ok cells ∧
      vec.capacity ≤ cells.length ∧ Lib.Holds cells l := by
  have hpos : 0 < vec.capacity := by
    have hlen := List.length_pos_iff.mpr hl
    have hroom := h.room
    rw [h.len] at hroom
    omega
  obtain ⟨a, ha⟩ := Option.ne_none_iff_exists'.mp fun hnone =>
    absurd (h.null.mpr hnone) (Nat.pos_iff_ne_zero.mp hpos)
  obtain ⟨cells, hlive, hcap, hholds⟩ := h.live a ha
  exact ⟨a, cells, ha, hlive, by rw [ha, Buffers.cells, hlive], hcap, hholds⟩

theorem Vec.Holds.read {i : Nat} (h : vec.Holds m l) (hi : i < l.length) :
    m.read vec.data i = .ok l[i] := by
  obtain ⟨a, cells, ha, hlive, hcells, -, hholds⟩ :=
    h.cells (List.ne_nil_of_length_pos (Nat.zero_lt_of_lt hi))
  rw [Buffers.read, hcells, ok_bind, hholds.get hi]

/-- The buffer of the vector gets other cells. -/
theorem sameBuffers_setCells {a : Nat} {cells cells' : List (Option α)} (hlive : m.live a = some cells)
    (hlen : cells'.length = cells.length) : SameBuffers (some a) m (m.setCells (some a) cells') := by
  constructor
  · intro b
    by_cases hba : b = a
    · subst hba
      simp [Buffers.setCells, hlive, hlen]
    · simp [Buffers.setCells, Function.update_of_ne hba]
  · intro b hb
    have hba : b ≠ a := fun he => hb (by rw [he])
    simp [Buffers.setCells, Function.update_of_ne hba]

/-- What the case of an element that is removed does: the elements behind it move down. -/
theorem RemoveIf.remove_spec {r : RemoveIf α σ} (h : r.vec.Holds r.memory l) (hi : r.i < l.length) :
    ∃ memory, r.remove = .ok { r with
        memory := memory, vec := { r.vec with len := sizeDec r.vec.len }, i := sizeDec r.i } ∧
      SameBuffers r.vec.data r.memory memory ∧
      Vec.Holds memory { r.vec with len := sizeDec r.vec.len } (l.eraseIdx r.i) := by
  obtain ⟨a, cells, ha, hlive, hcells, hcap, hholds⟩ :=
    h.cells (List.ne_nil_of_length_pos (Nat.zero_lt_of_lt hi))
  have hlen := h.len
  have hroom := h.room
  have hdec : sizeDec r.vec.len = l.length - 1 := by rw [hlen, sizeDec_of_pos (by omega)]
  have herase : (l.eraseIdx r.i).length = l.length - 1 := List.length_eraseIdx_of_lt hi
  have hshift := hholds.shiftDown hi
  -- the case without a tail to move is the other with no cell moved
  obtain ⟨memory, hok, hsame, cells', hlive', hcap', hholds'⟩ :
      ∃ memory, r.remove = .ok { r with
          memory := memory, vec := { r.vec with len := sizeDec r.vec.len }, i := sizeDec r.i } ∧
        SameBuffers r.vec.data r.memory memory ∧
        ∃ cells', memory.live a = some cells' ∧ r.vec.capacity ≤ cells'.length ∧
          Lib.Holds cells' (l.eraseIdx r.i) := by
    rw [RemoveIf.remove]
    by_cases htail : 0 < r.vec.len - r.i - 1
    · have hlength : (cells.take r.i ++ (cells.drop (r.i + 1)).take (l.length - r.i - 1) ++
          cells.drop (r.i + (l.length - r.i - 1))).length = cells.length := by
        simp only [List.length_append, List.length_take, List.length_drop]
        omega
      simp only [if_pos htail]
      rw [Buffers.memmove, hcells, ok_bind, if_pos (by omega), hlen]
      refine ⟨_, rfl, ha ▸ sameBuffers_setCells hlive hlength, _, ?_, hlength ▸ hcap, hshift⟩
      rw [ha, Buffers.setCells]
      exact Function.update_self ..
    · have hnone : l.length - r.i - 1 = 0 := by omega
      simp only [if_neg htail]
      refine ⟨r.memory, rfl, SameBuffers.refl _ _, cells, hlive, hcap, ?_⟩
      rwa [hnone, List.take_zero, List.append_nil, Nat.add_zero, List.take_append_drop] at hshift
  refine ⟨memory, hok, hsame, ⟨by rw [herase]; exact hdec, ?_, h.fits, h.null, ?_⟩⟩
  · show sizeDec r.vec.len ≤ r.vec.capacity
    omega
  · intro b hb
    have hb : r.vec.data = some b := hb
    rw [ha] at hb
    cases hb
    exact ⟨cells', hlive', hcap', hholds'⟩

/-! ## One turn -/

/-- What the answer leaves of the element. -/
def Predicate.kept (answer : Predicate) (x : α) : List α := if answer.removes then [] else [x]

theorem remaining_cons (x : α) (answer : Predicate) (asked : List (α × Predicate)) (l : List α) :
    remaining ((x, answer) :: asked) (x :: l) = answer.kept x ++ remaining asked l := by
  cases answer <;> rfl

/-- From `r₀` to `r` the predicate is asked about `x`, which stands between `done` and `rest`. -/
structure RemoveIf.Turned (predicate : α → σ → Predicate × σ) (done : List α) (x : α) (rest : List α)
    (r₀ r : RemoveIf α σ) : Prop where
  state : r.state = (predicate x r₀.state).2
  asked : r.asked = r₀.asked ++ [(x, (predicate x r₀.state).1)]
  running : r.running = !(predicate x r₀.state).1.finishes
  holds : r.vec.Holds r.memory (done ++ (predicate x r₀.state).1.kept x ++ rest)
  index : r.i = (done ++ (predicate x r₀.state).1.kept x).length
  capacity : r.vec.capacity = r₀.vec.capacity
  data : r.vec.data = r₀.vec.data
  same : SameBuffers r₀.vec.data r₀.memory r.memory

theorem removeIfTurn_spec (predicate : α → σ → Predicate × σ) {done rest : List α} {x : α}
    {r : RemoveIf α σ} (h : r.vec.Holds r.memory (done ++ x :: rest)) (hi : r.i = done.length)
    (hrunning : r.running = Bool.true) :
    ∃ r', removeIfTurn predicate r = .ok r' ∧ r.Turned predicate done x rest r' := by
  have hlt : r.i < (done ++ x :: rest).length := by simp [hi]
  have hread : r.memory.read r.vec.data r.i = .ok x := by
    rw [h.read hlt]
    simp [hi]
  have herase : (done ++ x :: rest).eraseIdx r.i = done ++ rest := by
    simp [hi, List.eraseIdx_append_of_length_le]
  have hlen : (done ++ x :: rest).length < 2 ^ 64 := by
    rw [← h.len]
    exact Nat.lt_of_le_of_lt h.room h.fits
  -- the index goes back and on, also through `SIZE_MAX`
  have hback : sizeInc (sizeDec r.i) = done.length := by
    rw [sizeInc_sizeDec (by omega), hi]
  have hnext : sizeInc r.i = (done ++ [x]).length := by
    rw [sizeInc_of_lt (by omega), hi, List.length_append, List.length_singleton]
  have hkept : r.vec.Holds r.memory (done ++ [x] ++ rest) := by simpa using h
  rw [removeIfTurn, hread, ok_bind]
  cases hp : predicate x r.state with
  | mk answer s' =>
    dsimp only
    cases answer with
    | true =>
      obtain ⟨memory, hok, hsame, hholds⟩ := RemoveIf.remove_spec
        (r := { r with state := s', asked := r.asked ++ [(x, .true)] }) h hlt
      simp only [hok, ok_bind]
      refine ⟨_, rfl, by rw [hp], by rw [hp], by rw [hp]; exact hrunning, ?_, ?_, rfl, rfl, hsame⟩
      · rw [hp]
        simpa [Predicate.kept, Predicate.removes, herase] using hholds
      · rw [hp]
        simpa [Predicate.kept, Predicate.removes] using hback
    | false =>
      refine ⟨_, rfl, by rw [hp], by rw [hp], by rw [hp]; exact hrunning, ?_, ?_, rfl, rfl,
        SameBuffers.refl _ _⟩
      · rw [hp]
        exact hkept
      · rw [hp]
        exact hnext
    | trueFinish =>
      obtain ⟨memory, hok, hsame, hholds⟩ := RemoveIf.remove_spec
        (r := RemoveIf.stop { r with state := s', asked := r.asked ++ [(x, .trueFinish)] }) h hlt
      simp only [hok, ok_bind]
      refine ⟨_, rfl, by rw [hp]; rfl, by rw [hp]; rfl, by rw [hp]; rfl, ?_, ?_, rfl, rfl, hsame⟩
      · rw [hp]
        have hholds : Vec.Holds memory _ ((done ++ x :: rest).eraseIdx r.i) := hholds
        simpa [Predicate.kept, Predicate.removes, herase] using hholds
      · rw [hp]
        simpa [Predicate.kept, Predicate.removes, RemoveIf.stop] using hback
    | falseFinish =>
      refine ⟨_, rfl, by rw [hp]; rfl, by rw [hp]; rfl, by rw [hp]; rfl, ?_, ?_, rfl, rfl,
        SameBuffers.refl _ _⟩
      · rw [hp]
        exact hkept
      · rw [hp]
        exact hnext

/-! ## The loop -/

/-- What the loop has done when it ends, from `r₀` with the elements `l` before it. -/
structure RemoveIf.Ended (predicate : α → σ → Predicate × σ) (done l : List α)
    (r₀ r : RemoveIf α σ) : Prop where
  asked : r.asked = r₀.asked ++ (askAll predicate l r₀.state).1
  state : r.state = (askAll predicate l r₀.state).2
  holds : r.vec.Holds r.memory (done ++ remaining (askAll predicate l r₀.state).1 l)
  capacity : r.vec.capacity = r₀.vec.capacity
  data : r.vec.data = r₀.vec.data
  same : SameBuffers r₀.vec.data r₀.memory r.memory

theorem removeIfLoop_stopped {r : RemoveIf α σ} {fuel : Nat} (hf : 0 < fuel)
    (hr : r.running = Bool.false) : removeIfLoop predicate fuel r = .ok (some r) := by
  cases fuel with
  | zero => exact absurd hf (by omega)
  | succ fuel => rw [removeIfLoop, if_neg (by simp [hr])]

/-- At index `done.length` the loop leaves `done` alone and works on the rest. -/
theorem removeIfLoop_go (predicate : α → σ → Predicate × σ) (rest : List α) :
    ∀ (done : List α) (fuel : Nat) (r : RemoveIf α σ), rest.length < fuel →
      r.vec.Holds r.memory (done ++ rest) → r.i = done.length → r.running = Bool.true →
      ∃ r', removeIfLoop predicate fuel r = .ok (some r') ∧ r.Ended predicate done rest r' := by
  induction rest with
  | nil =>
    intro done fuel r hf hholds hi _
    obtain ⟨fuel, rfl⟩ := Nat.exists_eq_succ_of_ne_zero (show fuel ≠ 0 by omega)
    refine ⟨r, ?_, by simp [askAll], rfl, by simpa [askAll, remaining] using hholds, rfl, rfl,
      SameBuffers.refl _ _⟩
    rw [removeIfLoop, if_neg]
    rintro ⟨hlt, -⟩
    rw [hholds.len, hi] at hlt
    simp at hlt
  | cons x xs ih =>
    intro done fuel r hf hholds hi hrunning
    rw [List.length_cons] at hf
    obtain ⟨fuel, rfl⟩ := Nat.exists_eq_succ_of_ne_zero (show fuel ≠ 0 by omega)
    obtain ⟨r₁, hturn, h₁⟩ := removeIfTurn_spec predicate hholds hi hrunning
    have hlt : r.i < r.vec.len := by
      rw [hholds.len, hi]
      simp
    rw [removeIfLoop, if_pos ⟨hlt, hrunning⟩, hturn, ok_bind]
    have hasked : askAll predicate (x :: xs) r.state =
        if (predicate x r.state).1.finishes then ([(x, (predicate x r.state).1)], r₁.state)
        else ((x, (predicate x r.state).1) :: (askAll predicate xs r₁.state).1,
          (askAll predicate xs r₁.state).2) := by rw [h₁.state, askAll]
    by_cases hfin : (predicate x r.state).1.finishes = Bool.true
    · rw [if_pos hfin] at hasked
      refine ⟨r₁, removeIfLoop_stopped (by omega) (by rw [h₁.running, hfin]; rfl), ?_, ?_, ?_,
        h₁.capacity, h₁.data, h₁.same⟩
      · rw [h₁.asked, hasked]
      · rw [hasked]
      · have hholds₁ := h₁.holds
        rw [hasked, remaining_cons]
        simpa [remaining] using hholds₁
    · rw [if_neg hfin] at hasked
      obtain ⟨r', hloop, hended⟩ := ih _ fuel r₁ (by omega) h₁.holds h₁.index
        (by rw [h₁.running]; simpa using hfin)
      refine ⟨r', hloop, ?_, ?_, ?_, hended.capacity.trans h₁.capacity,
        hended.data.trans h₁.data, h₁.same.trans (h₁.data ▸ hended.same)⟩
      · rw [hended.asked, h₁.asked, hasked, List.append_assoc]
        rfl
      · rw [hended.state, hasked]
      · rw [hasked, remaining_cons, ← List.append_assoc]
        exact hended.holds

/-- What `taskio_vec_remove_if` does to the vector `vec` with the elements of `l`. -/
structure RemovesIf (predicate : α → σ → Predicate × σ) (l : List α) (s : σ) (vec : Vec)
    (m : Buffers α) (r : RemoveIf α σ) : Prop where
  /-- the predicate is called with the elements once each, in order -/
  presented : r.asked.map Prod.fst = l.take r.asked.length
  /-- up to and with the first answer that finishes -/
  goesOn : ∀ a ∈ r.asked.dropLast, a.2.finishes = Bool.false
  finishes : r.asked.map Prod.fst = l ∨ ∃ a, r.asked.getLast? = some a ∧ a.2.finishes = Bool.true
  /-- with the answers that its private state makes it give -/
  answers : (r.asked, r.state) = askAll predicate l s
  /-- what is left is in the front of the buffer -/
  elements : r.vec.Holds r.memory
    ((r.asked.filter fun a => !a.2.removes).map Prod.fst ++ l.drop r.asked.length)
  len : r.vec.len + r.asked.countP (·.2.removes) = vec.len
  capacity : r.vec.capacity = vec.capacity
  data : r.vec.data = vec.data
  /-- nothing is allocated or freed, and no other buffer is written -/
  same : SameBuffers vec.data m r.memory

/-- **`taskio_vec_remove_if` ends, and is the walk over the list.** -/
theorem vec_remove_if_spec (predicate : α → σ → Predicate × σ) (s : σ) (h : vec.Holds m l) :
    ∃ r, removeIfLoop predicate (l.length + 1) (removeIf m vec s) = .ok (some r) ∧
      RemovesIf predicate l s vec m r := by
  obtain ⟨r, hloop, hended⟩ := removeIfLoop_go predicate l [] (l.length + 1)
    (removeIf m vec s) (Nat.lt_succ_self _) h rfl rfl
  have hasked : r.asked = (askAll predicate l s).1 := hended.asked
  have hholds : r.vec.Holds r.memory (remaining (askAll predicate l s).1 l) := hended.holds
  refine ⟨r, hloop, ?_, ?_, ?_, Prod.ext hasked hended.state, ?_, ?_, hended.capacity, hended.data,
    hended.same⟩
  · rw [hasked]
    exact askAll_fst predicate l s
  · rw [hasked]
    exact askAll_goesOn l s
  · rw [hasked]
    exact askAll_finishes l s
  · rw [hasked]
    exact hholds
  · rw [hasked, hholds.len, h.len]
    exact remaining_length l s

/-- Of 1, 2, 3 the first is removed at index 0, and the second ends the walk. -/
theorem vec_remove_if_spec_finish :
    let predicate : Nat → Nat → Predicate × Nat := fun x calls =>
      (if x = 1 then .true else .falseFinish, calls + 1)
    let m : Buffers Nat := ⟨fun a => if a = 7 then some [some 1, some 2, some 3, none] else none⟩
    ∃ r, removeIfLoop predicate ([1, 2, 3].length + 1) (removeIf m ⟨3, 4, some 7⟩ 0) = .ok (some r) ∧
      RemovesIf predicate [1, 2, 3] 0 ⟨3, 4, some 7⟩ m r := by
  intro predicate m
  refine vec_remove_if_spec predicate 0 ⟨rfl, by decide, by decide, by decide, ?_⟩
  rintro a ⟨⟩
  exact ⟨_, rfl, by decide, [none], rfl⟩

/-! ## The walk of the timer wheel -/

/-- The walk by recursion over the elements leaves what the calls of the predicate leave. -/
theorem vecRemoveIf_eq_askAll (l : List α) (s : σ) :
    vecRemoveIf predicate l s = (remaining (askAll predicate l s).1 l, (askAll predicate l s).2) := by
  induction l generalizing s with
  | nil => rfl
  | cons x xs ih =>
    rw [vecRemoveIf, askAll]
    cases hp : predicate x s with
    | mk answer s' =>
      cases answer with
      | true =>
        have hgoes : ¬ Predicate.finishes .true = Bool.true := Bool.false_ne_true
        dsimp only
        rw [if_neg hgoes, remaining_cons, ih s']
        rfl
      | false =>
        have hgoes : ¬ Predicate.finishes .false = Bool.true := Bool.false_ne_true
        dsimp only
        rw [if_neg hgoes, remaining_cons, ih s']
        rfl
      | trueFinish => rfl
      | falseFinish => rfl

/-- In memory the macro does the same to the elements and to the predicate's state. -/
theorem RemovesIf.refines {s : σ} {r : RemoveIf α σ} (h : RemovesIf predicate l s vec m r) :
    r.vec.Holds r.memory (vecRemoveIf predicate l s).1 ∧
      r.state = (vecRemoveIf predicate l s).2 := by
  have hanswers : (r.asked, r.state) = askAll predicate l s := h.answers
  rw [vecRemoveIf_eq_askAll, ← hanswers]
  exact ⟨h.elements, rfl⟩

end Taskio
