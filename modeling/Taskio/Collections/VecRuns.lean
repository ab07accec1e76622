import Mathlib.Logic.Equiv.Basic
import Taskio.Lib.Run
import Taskio.Collections.RemoveIf

/-!
# Any number of vectors, and the lists that they refine

The vectors share one allocator, and the macros are called on them in any order.

* `VecsRefine` — every vector has the elements of its list, in a buffer that no other vector has
* `vecStep_spec` — a call that meets `VecKeeps` keeps this
* `vec_refines_list_iff` — which runs refine their lists and leave no buffer behind
-/

namespace Taskio

variable {α σ : Type}

/-! ## The vectors -/

/-- The allocator and the vectors. A vector is `none` until it is initialized. -/
structure VecSystem (α : Type) where
  memory : Buffers α
  vecs : Nat → Option Vec

/-- The macros. `a` is the address that the allocator returns if it is asked for a buffer. -/
inductive VecOp (α σ : Type) where
  | init (v : Nat)
  | pushLast (v : Nat) (obj : α) (a : Nat)
  | removeIf (v : Nat) (predicate : α → σ → Predicate × σ) (state : σ)
  | move (dst src : Nat)
  | shrink (v a : Nat)
  | clear (v : Nat)

namespace VecSystem

def vec (s : VecSystem α) (v : Nat) : Except Fault Vec :=
  match s.vecs v with
  | some vec => .ok vec
  | none => .error .noSuchCall

def setVec (s : VecSystem α) (v : Nat) (vec : Vec) : VecSystem α :=
  { s with vecs := Function.update s.vecs v (some vec) }

def store (s : VecSystem α) (v : Nat) (r : Buffers α × Vec) : VecSystem α :=
  { s.setVec v r.2 with memory := r.1 }

end VecSystem

/-- No buffer is live, and no vector is initialized. -/
def vecSystem (α : Type) : VecSystem α := { memory := ⟨fun _ => none⟩, vecs := fun _ => none }

def vecStep (size : ℕ+) (s : VecSystem α) : VecOp α σ → Except Fault (VecSystem α)
  | .init v => .ok (s.setVec v Vec.init)
  | .pushLast v obj a => do
    let vec ← s.vec v
    let r ← vec.pushLast size s.memory a obj
    .ok (s.store v r)
  | .removeIf v predicate state => do
    let vec ← s.vec v
    match ← removeIfLoop predicate (vec.len + 1) (removeIf s.memory vec state) with
    | some r => .ok (s.store v (r.memory, r.vec))
    | none => .error .outOfBounds
  | .move dst src => do
    let vec ← s.vec src
    -- the fields of the source are cleared last
    .ok ((s.setVec dst vec).setVec src Vec.init)
  | .shrink v a => do
    let vec ← s.vec v
    let r ← vec.shrink size s.memory a
    .ok (s.store v r)
  | .clear v => do
    let vec ← s.vec v
    let r ← vec.clear s.memory
    .ok (s.store v r)

/-! ## The lists -/

/-- What the macros mean for the lists. -/
def vecModel (lists : Nat → Option (List α)) : VecOp α σ → Nat → Option (List α)
  | .init v => Function.update lists v (some [])
  | .pushLast v obj _ => Function.update lists v ((lists v).map (· ++ [obj]))
  | .removeIf v predicate state =>
    Function.update lists v ((lists v).map fun l => remaining (askAll predicate l state).1 l)
  | .move dst src => Function.update (Function.update lists dst (lists src)) src (some [])
  | .shrink _ _ => lists
  | .clear v => Function.update lists v (some [])

/-- Every vector has the elements of its list, and its buffer is its own. -/
structure VecsRefine (lists : Nat → Option (List α)) (s : VecSystem α) : Prop where
  same : ∀ v, lists v = none ↔ s.vecs v = none
  holds : ∀ v l vec, lists v = some l → s.vecs v = some vec → vec.Holds s.memory l
  owner : ∀ v w vec vec' a, s.vecs v = some vec → s.vecs w = some vec' → vec.data = some a →
    vec'.data = some a → v = w

/-- Every live buffer is that of a vector. -/
def VecSystem.Tidy (s : VecSystem α) : Prop :=
  ∀ a, s.memory.live a ≠ none → ∃ v vec, s.vecs v = some vec ∧ vec.data = some a

/-- A clear or a move. -/
def VecOp.Releases : VecOp α σ → Prop
  | .clear _ | .move _ _ => True
  | .init _ | .pushLast _ _ _ | .removeIf _ _ _ | .shrink _ _ => False

/-- The vectors refine the lists that the operations make, and after a clear or a move no buffer is
live without an owner. -/
structure VecLaw (os : List (VecOp α σ)) (s : VecSystem α) : Prop where
  refines : VecsRefine (os.foldl vecModel fun _ => none) s
  tidy : ∀ o, os.getLast? = some o → o.Releases → s.Tidy

/-- A growth asks for no more bytes than 64 bits count; a vector with spare capacity is shrunk only
when it is empty; and a vector that is moved to has no buffer. -/
def VecKeeps (size : ℕ+) (s : VecSystem α) : VecOp α σ → Prop
  | .pushLast v _ _ =>
    ∀ vec, s.vecs v = some vec → vec.capacity ≤ vec.len → size * vec.grown < 2 ^ 64
  | .shrink v _ => ∀ vec, s.vecs v = some vec → vec.len < vec.capacity → vec.len = 0
  | .move dst _ => ∀ vec, s.vecs dst = some vec → vec.data = none
  | .init _ | .removeIf _ _ _ | .clear _ => True

/-- A vector with a buffer is initialized again, or it is empty and is shrunk: the buffer is not
freed. -/
def DropsBuffer (s : VecSystem α) : VecOp α σ → Prop
  | .init v => ∃ vec, s.vecs v = some vec ∧ vec.data ≠ none
  | .shrink v _ => ∃ vec, s.vecs v = some vec ∧ vec.len = 0 ∧ vec.data ≠ none
  | .pushLast _ _ _ | .removeIf _ _ _ | .move _ _ | .clear _ => False

/-! ## One vector -/

variable {size : ℕ+} {m m' : Buffers α} {vec vec' : Vec} {l : List α} {a : Nat}

theorem cellsFor_eq {n : Nat} (h : size * n < 2 ^ 64) : cellsFor size n = n := by
  rw [cellsFor, u64_of_lt h]
  exact Nat.mul_div_cancel_left n size.pos

theorem Vec.holds_init (m : Buffers α) : Vec.init.Holds m [] :=
  ⟨rfl, Nat.le_refl 0, by decide, ⟨fun _ => rfl, fun _ => rfl⟩, by rintro a ⟨⟩⟩

/-- Only its own buffer matters to a vector. -/
theorem Vec.Holds.congr (h : vec.Holds m l) (hsame : ∀ a, vec.data = some a → m'.live a = m.live a) :
    vec.Holds m' l :=
  ⟨h.len, h.room, h.fits, h.null, fun a ha => by rw [hsame a ha]; exact h.live a ha⟩

/-- The buffer at `old` is exchanged for the one at `new`, unless they are the same. -/
structure Exchanges (old new : Option Nat) (m m' : Buffers α) : Prop where
  other : ∀ b, old ≠ some b → new ≠ some b → m'.live b = m.live b
  fresh : new ≠ old → ∀ b, new = some b → m.live b = none
  freed : new ≠ old → ∀ b, old = some b → m'.live b = none

theorem SameBuffers.exchanges {data : Option Nat} (h : SameBuffers data m m') :
    Exchanges data data m m' :=
  ⟨fun b hb _ => h.other b hb, fun hne => absurd rfl hne, fun hne => absurd rfl hne⟩

theorem Vec.clear_spec (h : vec.Holds m l) :
    ∃ m', vec.clear m = .ok (m', Vec.init) ∧ Exchanges vec.data none m m' := by
  cases hd : vec.data with
  | none =>
    refine ⟨m, by rw [Vec.clear, hd]; rfl, fun _ _ _ => rfl, fun hne => absurd rfl hne,
      fun hne => absurd rfl hne⟩
  | some a =>
    obtain ⟨cells, hlive, -⟩ := h.live a hd
    refine ⟨⟨Function.update m.live a none⟩, ?_, ?_, by rintro - b ⟨⟩, ?_⟩
    · rw [Vec.clear, hd, Buffers.free, hlive]
      rfl
    · intro b hb _
      exact Function.update_of_ne (fun he => hb (by rw [he])) _ _
    · rintro - b ⟨⟩
      exact Function.update_self ..

/-- A growth copies the elements to a larger buffer and frees the old one. -/
theorem Vec.grow_spec (h : vec.Holds m l) (hbytes : size * vec.capacity < 2 ^ 64)
    (hgrown : size * vec.grown < 2 ^ 64) (ha : m.live a = none) :
    ∃ m', vec.grow size m a = .ok (m', { vec with capacity := vec.grown, data := some a }) ∧
      Vec.Holds m' { vec with capacity := vec.grown, data := some a } l ∧
      Exchanges vec.data (some a) m m' := by
  have hpos := size.pos
  have hle : vec.grown ≤ size * vec.grown := Nat.le_mul_of_pos_left _ hpos
  have hlarger : vec.capacity < vec.grown := by
    rw [Vec.grown]
    split <;> omega
  have hroom := h.room
  have hlen := h.len
  have hcap : u64 vec.grown = vec.grown := u64_of_lt (by omega)
  have hold : ∀ cells : List (Option α), vec.grown ≤ cells.length → Lib.Holds cells l →
      ∀ m' : Buffers α, m'.live a = some cells →
        Vec.Holds m' { vec with capacity := vec.grown, data := some a } l := by
    intro cells hcells hholds m' hlive
    refine ⟨hlen, by show vec.len ≤ vec.grown; omega, by show vec.grown < _; omega, ?_, ?_⟩
    · show vec.grown = 0 ↔ some a = none
      simp
      omega
    · rintro b ⟨⟩
      exact ⟨cells, hlive, hcells, hholds⟩
  rw [Vec.grow]
  simp only [hcap, cellsFor_eq hgrown, cellsFor_eq hbytes, Buffers.alloc, ha, ok_bind]
  cases hd : vec.data with
  | none =>
    have hnil : l = [] := by
      have hzero := h.null.mpr hd
      exact List.eq_nil_of_length_eq_zero (by omega)
    refine ⟨_, rfl, hold (List.replicate vec.grown none) (by simp) ?_ _
      (Function.update_self ..), ?_, ?_, ?_⟩
    · rw [hnil]
      exact Lib.holds_nil _
    · intro b _ hb
      exact Function.update_of_ne (fun he => hb (by rw [he])) _ _
    · rintro - b ⟨⟩
      exact ha
    · rintro - b ⟨⟩
  | some d =>
    obtain ⟨cells, hlive, hcells, hholds⟩ := h.live d hd
    have hda : d ≠ a := by
      rintro rfl
      rw [hlive] at ha
      cases ha
    simp only [Buffers.memcpy, Buffers.cells, Function.update_of_ne hda, Function.update_self,
      hlive, ok_bind, List.length_replicate]
    rw [if_pos ⟨hcells, Nat.le_of_lt hlarger⟩]
    simp only [ok_bind, Buffers.free, Buffers.setCells, Function.update_of_ne hda, hlive]
    refine ⟨_, rfl, hold (cells.take vec.capacity ++
        (List.replicate vec.grown none).drop vec.capacity) ?_ (hholds.copy (by omega)) _ ?_,
      ?_, ?_, ?_⟩
    · simp only [List.length_append, List.length_take, List.length_drop, List.length_replicate]
      omega
    · simp only [Function.update_of_ne (Ne.symm hda), Function.update_self]
    · intro b hb hb'
      have hbd : b ≠ d := fun he => hb (by rw [he])
      have hba : b ≠ a := fun he => hb' (by rw [he])
      simp only [Function.update_of_ne hbd, Function.update_of_ne hba]
    · rintro - b ⟨⟩
      exact ha
    · rintro - b ⟨⟩
      exact Function.update_self ..

/-- The element is written behind the others. -/
theorem Vec.write_spec (h : vec.Holds m l) (hlt : vec.len < vec.capacity) (obj : α) :
    ∃ m', m.write vec.data vec.len obj = .ok m' ∧
      Vec.Holds m' { vec with len := sizeInc vec.len } (l ++ [obj]) ∧ SameBuffers vec.data m m' := by
  have hlen := h.len
  have hfits := h.fits
  have hinc : sizeInc vec.len = (l ++ [obj]).length := by
    rw [sizeInc_of_lt (by omega), List.length_append, List.length_singleton, hlen]
  obtain ⟨d, hd⟩ := Option.ne_none_iff_exists'.mp fun hnone => by
    have hzero := h.null.mpr hnone
    omega
  obtain ⟨cells, hlive, hcells, hholds⟩ := h.live d hd
  have hset : (cells.set vec.len (some obj)).length = cells.length := List.length_set ..
  have hok : m.write vec.data vec.len obj =
      .ok (m.setCells vec.data (cells.set vec.len (some obj))) := by
    rw [Buffers.write, hd, Buffers.cells, hlive, ok_bind, if_pos (by omega)]
  refine ⟨_, hok, ⟨hinc, ?_, hfits, h.null, ?_⟩, ?_⟩
  · show sizeInc vec.len ≤ vec.capacity
    rw [sizeInc_of_lt (by omega)]
    omega
  · intro b hb
    have hb : vec.data = some b := hb
    rw [hd] at hb
    cases hb
    refine ⟨cells.set vec.len (some obj), ?_, by rw [hset]; exact hcells, ?_⟩
    · rw [hd]
      exact Function.update_self ..
    · rw [hlen]
      exact hholds.write (by omega) obj
  · rw [hd]
    exact sameBuffers_setCells hlive hset

/-- `taskio_vec_push_last`, of a vector that need not grow or can. -/
theorem Vec.pushLast_spec (h : vec.Holds m l) (hbytes : size * vec.capacity < 2 ^ 64)
    (hgrown : vec.capacity ≤ vec.len → size * vec.grown < 2 ^ 64)
    (ha : vec.capacity ≤ vec.len → m.live a = none) (obj : α) :
    ∃ m' vec', vec.pushLast size m a obj = .ok (m', vec') ∧ vec'.Holds m' (l ++ [obj]) ∧
      size * vec'.capacity < 2 ^ 64 ∧ Exchanges vec.data vec'.data m m' := by
  rw [Vec.pushLast]
  by_cases hfull : vec.capacity ≤ vec.len
  · obtain ⟨m₁, hgrow, hholds, hexchanges⟩ := Vec.grow_spec h hbytes (hgrown hfull) (ha hfull)
    have hroom := h.room
    have hlt : vec.len < vec.grown := by
      rw [Vec.grown]
      split <;> omega
    obtain ⟨m₂, hwrite, hholds', hsame⟩ := Vec.write_spec hholds hlt obj
    simp only [if_pos hfull, hgrow, ok_bind, hwrite]
    refine ⟨_, _, rfl, hholds', hgrown hfull, ?_, hexchanges.fresh, ?_⟩
    · intro b hb hb'
      rw [hsame.other b hb']
      exact hexchanges.other b hb hb'
    · intro hne b hb
      rw [hsame.other b fun he => hne (he.trans hb.symm)]
      exact hexchanges.freed hne b hb
  · obtain ⟨m₂, hwrite, hholds', hsame⟩ := Vec.write_spec h (by omega) obj
    simp only [if_neg hfull, ok_bind, hwrite]
    exact ⟨_, _, rfl, hholds', hbytes, hsame.exchanges⟩

/-! ## One call, among the other vectors -/

variable {lists : Nat → Option (List α)} {s s' : VecSystem α} {o : VecOp α σ} {os : List (VecOp α σ)}

/-- No buffer is larger than 64 bits count. -/
def VecSystem.Fits (size : ℕ+) (s : VecSystem α) : Prop :=
  ∀ v vec, s.vecs v = some vec → size * vec.capacity < 2 ^ 64

theorem VecSystem.vec_eq_ok {v : Nat} : s.vec v = .ok vec ↔ s.vecs v = some vec := by
  rw [VecSystem.vec]
  cases s.vecs v <;> simp

theorem vec_of_calls {β : Type} {v : Nat} {f : Vec → Except Fault β}
    (h : (s.vec v >>= f) ≠ .error .noSuchCall) : ∃ vec, s.vecs v = some vec := by
  cases hv : s.vecs v with
  | none =>
    rw [VecSystem.vec, hv] at h
    exact absurd rfl h
  | some vec => exact ⟨vec, rfl⟩

namespace VecsRefine

/-- An initialized vector has a list, and holds it. -/
theorem list {v : Nat} (h : VecsRefine lists s) (hv : s.vecs v = some vec) :
    ∃ l, lists v = some l ∧ vec.Holds s.memory l := by
  obtain ⟨l, hl⟩ := Option.ne_none_iff_exists'.mp fun hnone => by
    rw [(h.same v).mp hnone] at hv
    cases hv
  exact ⟨l, hl, h.holds v l vec hl hv⟩

/-- The buffer of a vector is live. -/
theorem live {v b : Nat} (h : VecsRefine lists s) (hv : s.vecs v = some vec) (hb : vec.data = some b) :
    s.memory.live b ≠ none := by
  obtain ⟨l, -, hholds⟩ := h.list hv
  obtain ⟨cells, hlive, -⟩ := hholds.live b hb
  rw [hlive]
  exact Option.some_ne_none _

/-- A vector that exchanges its buffer leaves those of the others alone. -/
theorem store {v : Nat} (h : VecsRefine lists s) (hv : s.vecs v = some vec)
    (hholds : vec'.Holds m' l) (hex : Exchanges vec.data vec'.data s.memory m') :
    VecsRefine (Function.update lists v (some l)) (s.store v (m', vec')) := by
  -- the new buffer is no other vector's
  have hnew : ∀ w vecw b, w ≠ v → s.vecs w = some vecw → vecw.data = some b →
      vec.data ≠ some b ∧ vec'.data ≠ some b := by
    intro w vecw b hwv hw hb
    have hold : vec.data ≠ some b := fun hd => hwv (h.owner w v vecw vec b hw hv hb hd)
    refine ⟨hold, fun hd => h.live hw hb ?_⟩
    exact hex.fresh (fun he => hold (he ▸ hd)) b hd
  have hself : (s.store v (m', vec')).vecs v = some vec' := Function.update_self ..
  have hother : ∀ w, w ≠ v → (s.store v (m', vec')).vecs w = s.vecs w :=
    fun w hw => Function.update_of_ne hw _ _
  refine ⟨?_, ?_, ?_⟩
  · intro w
    by_cases hwv : w = v
    · subst hwv
      simp [hself]
    · rw [hother w hwv, Function.update_of_ne hwv]
      exact h.same w
  · intro w lw vecw hlw hw
    by_cases hwv : w = v
    · subst hwv
      rw [Function.update_self] at hlw
      rw [hself] at hw
      cases hlw
      cases hw
      exact hholds
    · rw [hother w hwv] at hw
      rw [Function.update_of_ne hwv] at hlw
      refine (h.holds w lw vecw hlw hw).congr ?_
      intro b hb
      obtain ⟨hold, hnew⟩ := hnew w vecw b hwv hw hb
      exact hex.other b hold hnew
  · intro w₁ w₂ vec₁ vec₂ b h₁ h₂ hb₁ hb₂
    by_cases hw₁ : w₁ = v
    · by_cases hw₂ : w₂ = v
      · rw [hw₁, hw₂]
      · rw [hw₁, hself] at h₁
        rw [hother w₂ hw₂] at h₂
        cases h₁
        exact absurd hb₁ (hnew w₂ vec₂ b hw₂ h₂ hb₂).2
    · rw [hother w₁ hw₁] at h₁
      by_cases hw₂ : w₂ = v
      · rw [hw₂, hself] at h₂
        cases h₂
        exact absurd hb₂ (hnew w₁ vec₁ b hw₁ h₁ hb₁).2
      · rw [hother w₂ hw₂] at h₂
        exact h.owner w₁ w₂ vec₁ vec₂ b h₁ h₂ hb₁ hb₂

theorem tidy_store {v : Nat} (hv : s.vecs v = some vec)
    (hex : Exchanges vec.data vec'.data s.memory m') :
    (s.store v (m', vec')).Tidy ↔ s.Tidy := by
  have hself : (s.store v (m', vec')).vecs v = some vec' := Function.update_self ..
  have hother : ∀ w, w ≠ v → (s.store v (m', vec')).vecs w = s.vecs w :=
    fun w hw => Function.update_of_ne hw _ _
  constructor
  · intro htidy b hb
    by_cases hold : vec.data = some b
    · exact ⟨v, vec, hv, hold⟩
    · have hnew : vec'.data ≠ some b := fun hd =>
        hb (hex.fresh (fun he => hold (he ▸ hd)) b hd)
      obtain ⟨w, vecw, hw, hwb⟩ := htidy b (by rw [← hex.other b hold hnew] at hb; exact hb)
      have hwv : w ≠ v := by
        rintro rfl
        rw [hself] at hw
        cases hw
        exact hnew hwb
      exact ⟨w, vecw, by rw [← hother w hwv]; exact hw, hwb⟩
  · intro htidy b hb
    have hb : m'.live b ≠ none := hb
    by_cases hnew : vec'.data = some b
    · exact ⟨v, vec', hself, hnew⟩
    · have hold : vec.data ≠ some b := fun hd =>
        hb (hex.freed (fun he => hnew (he ▸ hd)) b hd)
      obtain ⟨w, vecw, hw, hwb⟩ := htidy b (by rw [← hex.other b hold hnew]; exact hb)
      have hwv : w ≠ v := by
        rintro rfl
        rw [hv] at hw
        cases hw
        exact hold hwb
      exact ⟨w, vecw, by rw [hother w hwv]; exact hw, hwb⟩

/-- A vector that is initialized, or that becomes empty without its buffer being freed. -/
theorem setVec_init {v : Nat} (h : VecsRefine lists s) :
    VecsRefine (Function.update lists v (some [])) (s.setVec v Vec.init) := by
  have hself : (s.setVec v Vec.init).vecs v = some Vec.init := Function.update_self ..
  have hother : ∀ w, w ≠ v → (s.setVec v Vec.init).vecs w = s.vecs w :=
    fun w hw => Function.update_of_ne hw _ _
  refine ⟨?_, ?_, ?_⟩
  · intro w
    by_cases hwv : w = v
    · subst hwv
      simp [hself]
    · rw [hother w hwv, Function.update_of_ne hwv]
      exact h.same w
  · intro w lw vecw hlw hw
    by_cases hwv : w = v
    · subst hwv
      rw [Function.update_self] at hlw
      rw [hself] at hw
      cases hlw
      cases hw
      exact Vec.holds_init _
    · rw [hother w hwv] at hw
      rw [Function.update_of_ne hwv] at hlw
      exact h.holds w lw vecw hlw hw
  · intro w₁ w₂ vec₁ vec₂ b h₁ h₂ hb₁ hb₂
    have hne : ∀ w vecw, (s.setVec v Vec.init).vecs w = some vecw → vecw.data = some b → w ≠ v := by
      rintro w vecw hw hb rfl
      rw [hself] at hw
      cases hw
      cases hb
    rw [hother w₁ (hne w₁ vec₁ h₁ hb₁)] at h₁
    rw [hother w₂ (hne w₂ vec₂ h₂ hb₂)] at h₂
    exact h.owner w₁ w₂ vec₁ vec₂ b h₁ h₂ hb₁ hb₂

/-- That buffer has no owner any more. -/
theorem tidy_setVec_init {v : Nat} (h : VecsRefine lists s) :
    (s.setVec v Vec.init).Tidy ↔ s.Tidy ∧ ∀ vec, s.vecs v = some vec → vec.data = none := by
  have hself : (s.setVec v Vec.init).vecs v = some Vec.init := Function.update_self ..
  have hother : ∀ w, w ≠ v → (s.setVec v Vec.init).vecs w = s.vecs w :=
    fun w hw => Function.update_of_ne hw _ _
  have hne : ∀ w vecw b, (s.setVec v Vec.init).vecs w = some vecw → vecw.data = some b → w ≠ v := by
    rintro w vecw b hw hb rfl
    rw [hself] at hw
    cases hw
    cases hb
  constructor
  · intro htidy
    constructor
    · intro b hb
      obtain ⟨w, vecw, hw, hwb⟩ := htidy b hb
      exact ⟨w, vecw, by rw [← hother w (hne w vecw b hw hwb)]; exact hw, hwb⟩
    · intro vec hv
      by_contra hdata
      obtain ⟨b, hb⟩ := Option.ne_none_iff_exists'.mp hdata
      obtain ⟨w, vecw, hw, hwb⟩ := htidy b (h.live hv hb)
      have hwv := hne w vecw b hw hwb
      rw [hother w hwv] at hw
      exact hwv (h.owner w v vecw vec b hw hv hwb hb)
  · rintro ⟨htidy, hnone⟩ b hb
    obtain ⟨w, vecw, hw, hwb⟩ := htidy b hb
    have hwv : w ≠ v := by
      rintro rfl
      rw [hnone vecw hw] at hwb
      cases hwb
    exact ⟨w, vecw, by rw [hother w hwv]; exact hw, hwb⟩

/-- The vectors change places. -/
theorem permute (π : Equiv.Perm Nat) (h : VecsRefine lists s) :
    VecsRefine (lists ∘ π) { s with vecs := s.vecs ∘ π } :=
  ⟨fun v => h.same (π v), fun v l vec hl hv => h.holds (π v) l vec hl hv,
    fun v w vec vec' b hv hw hb hb' => π.injective (h.owner (π v) (π w) vec vec' b hv hw hb hb')⟩

end VecsRefine

theorem VecSystem.tidy_permute (π : Equiv.Perm Nat) :
    VecSystem.Tidy { s with vecs := s.vecs ∘ π } ↔ s.Tidy := by
  constructor
  · intro htidy b hb
    obtain ⟨v, vec, hv, hvb⟩ := htidy b hb
    exact ⟨π v, vec, hv, hvb⟩
  · intro htidy b hb
    obtain ⟨v, vec, hv, hvb⟩ := htidy b hb
    refine ⟨π.symm v, vec, ?_, hvb⟩
    show s.vecs (π (π.symm v)) = some vec
    rw [π.apply_symm_apply, hv]

/-- A move exchanges the two, once the one that is moved to is empty. -/
theorem update_move {β : Type} (f : Nat → β) (dst src : Nat) (x : β) :
    Function.update (Function.update f dst (f src)) src x =
      Function.update f dst x ∘ Equiv.swap dst src := by
  funext v
  by_cases hsrc : v = src
  · rw [hsrc, Function.update_self, Function.comp_apply, Equiv.swap_apply_right,
      Function.update_self]
  · rw [Function.update_of_ne hsrc, Function.comp_apply]
    by_cases hdst : v = dst
    · rw [hdst, Function.update_self, Equiv.swap_apply_left, Function.update_of_ne]
      rintro rfl
      exact hsrc hdst
    · rw [Function.update_of_ne hdst, Equiv.swap_apply_of_ne_of_ne hdst hsrc,
        Function.update_of_ne hdst]

theorem move_eq {dst src : Nat} (hv : s.vecs src = some vec) :
    vecStep (σ := σ) size s (.move dst src) =
      .ok { s.setVec dst Vec.init with
        vecs := (s.setVec dst Vec.init).vecs ∘ Equiv.swap dst src } := by
  rw [vecStep, VecSystem.vec_eq_ok.mpr hv, ok_bind]
  have hmove := update_move s.vecs dst src (some Vec.init)
  rw [hv] at hmove
  exact congrArg (fun vecs => Except.ok { s with vecs := vecs }) hmove

theorem shrink_full (m : Buffers α) (a : Nat) (h : vec.capacity ≤ vec.len) :
    vec.shrink size m a = .ok (m, vec) := by
  rw [Vec.shrink, if_neg (by omega)]

theorem shrink_empty (m : Buffers α) (a : Nat) (h : vec.len = 0) (hlt : vec.len < vec.capacity) :
    vec.shrink size m a = .ok (m, Vec.init) := by
  rw [Vec.shrink, if_pos hlt]
  simp only [h, if_true]
  rfl

theorem store_init {v : Nat} : s.store v (s.memory, Vec.init) = s.setVec v Vec.init := rfl

theorem store_same {v : Nat} (hv : s.vecs v = some vec) : s.store v (s.memory, vec) = s := by
  rw [VecSystem.store, VecSystem.setVec]
  exact congrArg (fun vecs => { s with vecs := vecs }) (Function.update_eq_self_iff.mpr hv.symm)

theorem fits_setVec {v : Nat} (memory : Buffers α) (h : s.Fits size)
    (hvec : size * vec.capacity < 2 ^ 64) : (s.store v (memory, vec)).Fits size := by
  intro w vecw hw
  by_cases hwv : w = v
  · subst hwv
    rw [show (s.store w (memory, vec)).vecs w = some vec from Function.update_self ..] at hw
    cases hw
    exact hvec
  · rw [show (s.store v (memory, vec)).vecs w = s.vecs w from Function.update_of_ne hwv _ _] at hw
    exact h w vecw hw

/-- What a call does that meets `VecKeeps`. -/
structure VecStepped (size : ℕ+) (lists : Nat → Option (List α)) (s : VecSystem α)
    (o : VecOp α σ) (s' : VecSystem α) : Prop where
  refines : VecsRefine (vecModel lists o) s'
  fits : s'.Fits size
  tidy : s'.Tidy ↔ s.Tidy ∧ ¬ DropsBuffer s o

theorem vecStep_store {v : Nat} {f : Vec → Except Fault (Buffers α × Vec)}
    (hv : s.vecs v = some vec) (hf : f vec = .ok (m', vec')) :
    (do let vec ← s.vec v
        let r ← f vec
        Except.ok (s.store v r)) = .ok (s.store v (m', vec')) := by
  rw [VecSystem.vec_eq_ok.mpr hv, ok_bind, hf, ok_bind]

theorem vecStep_spec (h : VecsRefine lists s) (hfits : s.Fits size)
    (hcalls : vecStep size s o ≠ .error .noSuchCall) (hkeeps : VecKeeps size s o) :
    ∃ s', vecStep size s o = .ok s' ∧ VecStepped size lists s o s' := by
  cases o with
  | init v =>
    refine ⟨_, rfl, h.setVec_init, fits_setVec s.memory hfits (by simp), ?_⟩
    rw [h.tidy_setVec_init, DropsBuffer]
    simp only [not_exists, not_and, not_not]
  | pushLast v obj a =>
    obtain ⟨vec, hv⟩ := vec_of_calls hcalls
    obtain ⟨l, hl, hholds⟩ := h.list hv
    have ha : vec.capacity ≤ vec.len → s.memory.live a = none := by
      intro hfull
      by_contra hlive
      obtain ⟨cells, hlive⟩ := Option.ne_none_iff_exists'.mp hlive
      apply hcalls
      rw [vecStep, VecSystem.vec_eq_ok.mpr hv, ok_bind, Vec.pushLast, if_pos hfull, Vec.grow]
      simp only [Buffers.alloc, hlive]
      rfl
    obtain ⟨m', vec', hpush, hholds', hfits', hex⟩ :=
      Vec.pushLast_spec hholds (hfits v vec hv) (hkeeps vec hv) ha obj
    refine ⟨_, vecStep_store hv hpush, ?_, fits_setVec _ hfits hfits', ?_⟩
    · rw [vecModel, hl]
      exact h.store hv hholds' hex
    · rw [VecsRefine.tidy_store hv hex]
      simp [DropsBuffer]
  | removeIf v predicate state =>
    obtain ⟨vec, hv⟩ := vec_of_calls hcalls
    obtain ⟨l, hl, hholds⟩ := h.list hv
    obtain ⟨r, hloop, hr⟩ := vec_remove_if_spec predicate state hholds
    have hstep : vecStep size s (.removeIf v predicate state) = .ok (s.store v (r.memory, r.vec)) := by
      rw [vecStep, VecSystem.vec_eq_ok.mpr hv, ok_bind, hholds.len, hloop, ok_bind]
    have hex : Exchanges vec.data r.vec.data s.memory r.memory := by
      rw [hr.data]
      exact hr.same.exchanges
    refine ⟨_, hstep, ?_, fits_setVec _ hfits (by rw [hr.capacity]; exact hfits v vec hv), ?_⟩
    · rw [vecModel, hl, Option.map_some, ← congrArg Prod.fst hr.answers]
      exact h.store hv hr.elements hex
    · rw [VecsRefine.tidy_store hv hex]
      simp [DropsBuffer]
  | move dst src =>
    obtain ⟨vec, hv⟩ := vec_of_calls hcalls
    refine ⟨_, move_eq hv, ?_, ?_, ?_⟩
    · rw [vecModel, update_move]
      exact (h.setVec_init (v := dst)).permute _
    · have hfits' : (s.setVec dst Vec.init).Fits size :=
        fits_setVec s.memory hfits (by simp)
      exact fun w => hfits' _
    · rw [VecSystem.tidy_permute, h.tidy_setVec_init]
      exact and_congr_right fun _ => ⟨fun _ => not_false, fun _ => hkeeps⟩
  | shrink v a =>
    obtain ⟨vec, hv⟩ := vec_of_calls hcalls
    obtain ⟨l, hl, hholds⟩ := h.list hv
    by_cases hlt : vec.len < vec.capacity
    · have hzero := hkeeps vec hv hlt
      have hnil : l = [] := List.eq_nil_of_length_eq_zero (by rw [← hholds.len, hzero])
      refine ⟨_, vecStep_store hv (shrink_empty s.memory a hzero hlt), ?_, ?_, ?_⟩
      · have hinit := h.setVec_init (v := v)
        rwa [← hnil, ← hl, Function.update_eq_self] at hinit
      · exact fits_setVec _ hfits (by simp [Vec.init])
      · rw [store_init, h.tidy_setVec_init, DropsBuffer]
        refine and_congr_right ?_
        intro _
        simp [hv, hzero]
    · refine ⟨_, vecStep_store hv (shrink_full s.memory a (by omega)), ?_, ?_, ?_⟩
      · rw [store_same hv]
        exact h
      · rwa [store_same hv]
      · rw [store_same hv]
        have hnull : vec.len = 0 → vec.data = none := fun hzero => hholds.null.mp (by omega)
        simp only [DropsBuffer, hv, Option.some.injEq, exists_eq_left', not_and, not_not]
        exact ⟨fun htidy => ⟨htidy, hnull⟩, And.left⟩
  | clear v =>
    obtain ⟨vec, hv⟩ := vec_of_calls hcalls
    obtain ⟨l, hl, hholds⟩ := h.list hv
    obtain ⟨m', hclear, hex⟩ := Vec.clear_spec hholds
    refine ⟨_, vecStep_store hv hclear, ?_, fits_setVec _ hfits (by simp [Vec.init]), ?_⟩
    · exact h.store hv (Vec.holds_init m') hex
    · rw [VecsRefine.tidy_store hv hex]
      simp [DropsBuffer]

/-! ## What goes wrong otherwise -/

/-- The request for twice the capacity wraps to less than the old buffer has. -/
theorem cellsFor_grown_lt (hfits : size * vec.capacity < 2 ^ 64) (hpos : 0 < vec.capacity)
    (hgrown : 2 ^ 64 ≤ size * vec.grown) : cellsFor size (u64 vec.grown) < vec.capacity := by
  have hdouble : size * vec.grown = 2 * (size * vec.capacity) := by
    rw [Vec.grown, if_pos hpos]
    exact (Nat.mul_assoc ..).symm.trans (Nat.mul_comm ..)
  have hwrap : u64 (size * u64 vec.grown) = size * vec.grown - 2 ^ 64 := by
    have hmod : u64 (size * u64 vec.grown) = u64 (size * vec.grown) := Nat.mul_mod_mod ..
    rw [hmod, u64]
    omega
  rw [cellsFor, hwrap]
  apply Nat.div_lt_of_lt_mul
  omega

/-- The first buffer of a vector, if 16 elements are more bytes than 64 bits count. -/
theorem cellsFor_sixteen_lt (h : 2 ^ 64 ≤ (size : Nat) * 16) : cellsFor size 16 < 16 := by
  apply Nat.div_lt_of_lt_mul
  exact Nat.lt_of_lt_of_le (Nat.mod_lt _ (by decide)) h

theorem Buffers.alloc_eq_ok {n : Nat} (h : m.alloc a n = .ok m') :
    m.live a = none ∧ m'.live = Function.update m.live a (some (List.replicate n none)) := by
  rw [Buffers.alloc] at h
  cases hlive : m.live a with
  | some cells =>
    rw [hlive] at h
    cases h
  | none =>
    rw [hlive] at h
    cases h
    exact ⟨rfl, rfl⟩

/-- After a growth that wraps the vector does not have the room that it says it has. -/
theorem Vec.pushLast_breaks (h : vec.Holds m l) (hfits : size * vec.capacity < 2 ^ 64)
    (hfull : vec.capacity ≤ vec.len) (hgrown : 2 ^ 64 ≤ size * vec.grown) (obj : α)
    (hok : vec.pushLast size m a obj = .ok (m', vec')) (l' : List α) : ¬ vec'.Holds m' l' := by
  intro hholds
  rw [Vec.pushLast, if_pos hfull, Vec.grow] at hok
  obtain ⟨r, hgrow, hok⟩ := bind_eq_ok.mp hok
  obtain ⟨m₁, halloc, hgrow⟩ := bind_eq_ok.mp hgrow
  obtain ⟨hdead, hlive⟩ := Buffers.alloc_eq_ok halloc
  cases hd : vec.data with
  | none =>
    have hzero := h.null.mpr hd
    have hsixteen : vec.grown = 16 := by rw [Vec.grown, if_neg (by omega)]
    have hu : u64 vec.grown = 16 := by rw [hsixteen]; rfl
    rw [hd] at hgrow
    cases hgrow
    obtain ⟨m₂, hwrite, hok⟩ := bind_eq_ok.mp hok
    cases hok
    rw [Buffers.write, Buffers.cells, hlive, Function.update_self, ok_bind] at hwrite
    split at hwrite
    · cases hwrite
      obtain ⟨cells, hcells, hroom, -⟩ := hholds.live a rfl
      simp only [Buffers.setCells, Function.update_self, Option.some.injEq] at hcells
      have hlength := congrArg List.length hcells
      rw [List.length_set, List.length_replicate, hu] at hlength
      have hlt := cellsFor_sixteen_lt (hsixteen ▸ hgrown)
      have hroom : u64 vec.grown ≤ cells.length := hroom
      omega
    · cases hwrite
  | some d =>
    have hpos : 0 < vec.capacity := by
      rw [Nat.pos_iff_ne_zero]
      intro hzero
      rw [h.null.mp hzero] at hd
      cases hd
    rw [hd] at hgrow
    obtain ⟨m₂, hcopy, -⟩ := bind_eq_ok.mp hgrow
    rw [cellsFor_eq hfits, Buffers.memcpy] at hcopy
    obtain ⟨source, -, hcopy⟩ := bind_eq_ok.mp hcopy
    obtain ⟨target, htarget, hcopy⟩ := bind_eq_ok.mp hcopy
    rw [Buffers.cells, hlive, Function.update_self] at htarget
    cases htarget
    rw [List.length_replicate, if_neg] at hcopy
    · cases hcopy
    · rintro ⟨-, hle⟩
      have hlt := cellsFor_grown_lt hfits hpos hgrown
      omega

/-- A vector that is shrunk to some elements is left with the buffer that was just freed. -/
theorem Vec.shrink_breaks (hlt : vec.len < vec.capacity) (hpos : vec.len ≠ 0)
    (hok : vec.shrink size m a = .ok (m', vec')) (l' : List α) : ¬ vec'.Holds m' l' := by
  intro hholds
  rw [Vec.shrink, if_pos hlt] at hok
  dsimp only at hok
  rw [if_neg hpos] at hok
  obtain ⟨m₁, -, hok⟩ := bind_eq_ok.mp hok
  obtain ⟨m₂, -, hok⟩ := bind_eq_ok.mp hok
  obtain ⟨m₃, hfree, hok⟩ := bind_eq_ok.mp hok
  cases hok
  obtain ⟨cells, hlive, -⟩ := hholds.live a rfl
  rw [Buffers.free] at hfree
  split at hfree
  · cases hfree
    simp only [Function.update_self] at hlive
    cases hlive
  · cases hfree

theorem vecStep_breaks (h : VecsRefine lists s) (hfits : s.Fits size)
    (hbreaks : ¬ VecKeeps size s o) (hstep : vecStep size s o = .ok s')
    (h' : VecsRefine (vecModel lists o) s') : o.Releases ∧ ¬ s'.Tidy := by
  cases o with
  | init v => exact absurd trivial hbreaks
  | removeIf v predicate state => exact absurd trivial hbreaks
  | clear v => exact absurd trivial hbreaks
  | pushLast v obj a =>
    exfalso
    simp only [VecKeeps, not_forall, Nat.not_lt] at hbreaks
    obtain ⟨vec, hv, hfull, hgrown⟩ := hbreaks
    obtain ⟨l, hl, hholds⟩ := h.list hv
    rw [vecStep, VecSystem.vec_eq_ok.mpr hv, ok_bind] at hstep
    obtain ⟨⟨m', vec'⟩, hpush, hstep⟩ := bind_eq_ok.mp hstep
    cases hstep
    have hv' : (s.store v (m', vec')).vecs v = some vec' := Function.update_self ..
    obtain ⟨l', -, hholds'⟩ := h'.list hv'
    exact Vec.pushLast_breaks hholds (hfits v vec hv) hfull hgrown obj hpush l' hholds'
  | shrink v a =>
    exfalso
    simp only [VecKeeps, not_forall] at hbreaks
    obtain ⟨vec, hv, hlt, hpos⟩ := hbreaks
    rw [vecStep, VecSystem.vec_eq_ok.mpr hv, ok_bind] at hstep
    obtain ⟨⟨m', vec'⟩, hshrink, hstep⟩ := bind_eq_ok.mp hstep
    cases hstep
    have hv' : (s.store v (m', vec')).vecs v = some vec' := Function.update_self ..
    obtain ⟨l', -, hholds'⟩ := h'.list hv'
    exact Vec.shrink_breaks hlt hpos hshrink l' hholds'
  | move dst src =>
    refine ⟨trivial, fun htidy => hbreaks ?_⟩
    obtain ⟨vec, hv⟩ := vec_of_calls (f := fun vec =>
      .ok ((s.setVec dst vec).setVec src Vec.init)) (by rw [← vecStep, hstep]; rintro ⟨⟩)
    rw [move_eq hv] at hstep
    cases hstep
    exact (h.tidy_setVec_init.mp ((VecSystem.tidy_permute _).mp htidy)).2

/-! ## Runs -/

theorem VecOp.Releases.not_drops (h : o.Releases) : ¬ DropsBuffer s o := by
  cases o <;> first | exact not_false | cases h

/-- Nothing is left without an owner at a clear or a move exactly when no buffer was dropped before
it. -/
theorem along_tidy_iff (h : VecsRefine lists s) (hfits : s.Fits size)
    (hcalls : Lib.run (vecStep size) s os ≠ .error .noSuchCall)
    (hkeeps : Lib.Along (vecStep size) (VecKeeps size) s os) :
    Lib.Along (vecStep size) (fun s o => o.Releases → s.Tidy) s os ↔
      (s.Tidy ∨ ∀ o ∈ os, ¬ o.Releases) ∧
      ∀ os₁ o os₂ s₁, os = os₁ ++ o :: os₂ → Lib.run (vecStep size) s os₁ = .ok s₁ →
        DropsBuffer s₁ o → ∀ o' ∈ os₂, ¬ o'.Releases := by
  induction os generalizing s lists with
  | nil => simp [Lib.Along]
  | cons o os ih =>
    obtain ⟨s', hstep, hs'⟩ := vecStep_spec h hfits
      (fun hfail => hcalls (by rw [Lib.run, hfail])) hkeeps.1
    rw [Lib.run_cons_ok hstep] at hcalls
    have hrest := ih hs'.refines hs'.fits hcalls (hkeeps.2 s' hstep)
    -- the drops of the run are that of its first step and those of the rest
    have hdrops : (∀ os₁ o₁ os₂ s₁, o :: os = os₁ ++ o₁ :: os₂ →
        Lib.run (vecStep size) s os₁ = .ok s₁ → DropsBuffer s₁ o₁ → ∀ o' ∈ os₂, ¬ o'.Releases) ↔
        (DropsBuffer s o → ∀ o' ∈ os, ¬ o'.Releases) ∧
        ∀ os₁ o₁ os₂ s₁, os = os₁ ++ o₁ :: os₂ → Lib.run (vecStep size) s' os₁ = .ok s₁ →
          DropsBuffer s₁ o₁ → ∀ o' ∈ os₂, ¬ o'.Releases := by
      constructor
      · intro hall
        refine ⟨hall [] o os s rfl rfl, ?_⟩
        intro os₁ o₁ os₂ s₁ hos hrun
        exact hall (o :: os₁) o₁ os₂ s₁ (by rw [hos]; rfl) (by rw [Lib.run_cons_ok hstep]; exact hrun)
      · rintro ⟨hfirst, hlater⟩ os₁ o₁ os₂ s₁ hos hrun
        cases os₁ with
        | nil =>
          cases hrun
          obtain ⟨rfl, rfl⟩ := List.cons.inj hos
          exact hfirst
        | cons o₀ os₁ =>
          obtain ⟨rfl, hos'⟩ := List.cons.inj hos
          rw [Lib.run_cons_ok hstep] at hrun
          exact hlater os₁ o₁ os₂ s₁ hos' hrun
    have halong : Lib.Along (vecStep size) (fun s o => o.Releases → s.Tidy) s (o :: os) ↔
        (o.Releases → s.Tidy) ∧
          Lib.Along (vecStep size) (fun s o => o.Releases → s.Tidy) s' os := by
      refine ⟨fun hall => ⟨hall.1, hall.2 s' hstep⟩, ?_⟩
      rintro ⟨hfirst, hlater⟩
      exact Lib.along_cons hfirst hstep hlater
    have hnot : o.Releases → ¬ DropsBuffer s o := VecOp.Releases.not_drops
    rw [halong, hrest, hdrops, List.forall_mem_cons, hs'.tidy]
    by_cases htidy : s.Tidy
    · simp only [htidy, implies_true, true_and, true_or, ← and_assoc, imp_iff_not_or]
    · simp only [htidy, imp_false, false_and, false_or, and_assoc]
      refine and_congr_right fun _ => and_congr_right ?_
      intro hnone
      exact ⟨fun hlater => ⟨fun _ => hnone, hlater⟩, And.right⟩

/-- **The vectors refine their lists, each with a buffer of its own, and no buffer is left behind, in
exactly the runs that shrink no vector to some but not all of its capacity, ask for no buffer of 2^64
bytes, move onto no buffer, and clear or move nothing after a buffer was dropped.** -/
theorem vec_refines_list_iff (size : ℕ+) (os : List (VecOp α σ))
    (hcalls : Lib.run (vecStep size) (vecSystem α) os ≠ .error .noSuchCall) :
    ((∃ s, Lib.run (vecStep size) (vecSystem α) os = .ok s) ∧
        ∀ os₁ os₂ s, os = os₁ ++ os₂ → Lib.run (vecStep size) (vecSystem α) os₁ = .ok s →
          VecLaw os₁ s) ↔
      Lib.Along (vecStep size) (VecKeeps size) (vecSystem α) os ∧
      ∀ os₁ o os₂ s, os = os₁ ++ o :: os₂ → Lib.run (vecStep size) (vecSystem α) os₁ = .ok s →
        DropsBuffer s o → ∀ o' ∈ os₂, ¬ o'.Releases := by
  have h₀ : VecsRefine (fun _ => none) (vecSystem α) :=
    ⟨fun _ => Iff.intro (fun _ => rfl) (fun _ => rfl), by rintro v l vec ⟨⟩, by
      rintro v w vec vec' a ⟨⟩⟩
  have hfits₀ : (vecSystem α).Fits size := by rintro v vec ⟨⟩
  have htidy₀ : (vecSystem α).Tidy := fun a ha => absurd rfl ha
  have hends := Lib.along_iff_ends
    (P := fun s o => VecKeeps size s o ∧ (o.Releases → s.Tidy))
    (I := fun _ s => s.Fits size) (L := VecLaw) [] ?_ ?_ hfits₀
    ⟨h₀, by rintro o ⟨⟩⟩ hcalls
  · simp only [List.nil_append] at hends
    rw [hends]
    constructor
    · intro hall
      have hkeeps := hall.imp fun _ _ hp => hp.1
      have htidy := hall.imp fun _ _ hp => hp.2
      exact ⟨hkeeps, ((along_tidy_iff h₀ hfits₀ hcalls hkeeps).mp htidy).2⟩
    · rintro ⟨hkeeps, hdrops⟩
      exact hkeeps.and ((along_tidy_iff h₀ hfits₀ hcalls hkeeps).mpr ⟨Or.inl htidy₀, hdrops⟩)
  · intro os s o s' hfits hlaw hp hstep
    obtain ⟨s₁, hstep₁, hs₁⟩ := vecStep_spec hlaw.refines hfits (by rw [hstep]; rintro ⟨⟩) hp.1
    obtain rfl : s₁ = s' := Except.ok.inj (hstep₁.symm.trans hstep)
    exact hs₁.fits
  · intro os s o hfits hlaw hcalls
    have hlast : (os ++ [o]).getLast? = some o := by simp
    have hmodel : (os ++ [o]).foldl vecModel (fun _ => none) =
        vecModel (os.foldl vecModel fun _ => none) o := by simp
    constructor
    · rintro ⟨s', hstep, hlaw'⟩
      have hrefines := hlaw'.refines
      rw [hmodel] at hrefines
      have hkeeps : VecKeeps size s o := by
        by_contra hbreaks
        obtain ⟨hrel, hnot⟩ := vecStep_breaks hlaw.refines hfits hbreaks hstep hrefines
        exact hnot (hlaw'.tidy o hlast hrel)
      obtain ⟨s₁, hstep₁, hs₁⟩ := vecStep_spec hlaw.refines hfits hcalls hkeeps
      obtain rfl : s₁ = s' := Except.ok.inj (hstep₁.symm.trans hstep)
      exact ⟨hkeeps, fun hrel => (hs₁.tidy.mp (hlaw'.tidy o hlast hrel)).1⟩
    · rintro ⟨hkeeps, htidy⟩
      obtain ⟨s', hstep, hs'⟩ := vecStep_spec hlaw.refines hfits hcalls hkeeps
      refine ⟨s', hstep, ⟨by rw [hmodel]; exact hs'.refines, ?_⟩⟩
      intro o' ho' hrel
      obtain rfl : o = o' := Option.some.inj (hlast.symm.trans ho')
      exact hs'.tidy.mpr ⟨htidy hrel, hrel.not_drops⟩

/-- An element is appended, the vector is moved, and the other is cleared. -/
theorem vec_refines_list_iff_move :
    let os : List (VecOp Nat Unit) := [.init 0, .init 1, .pushLast 0 5 7, .move 1 0, .clear 1]
    (∃ s, Lib.run (vecStep 4) (vecSystem Nat) os = .ok s) ∧
      ∀ os₁ os₂ s, os = os₁ ++ os₂ → Lib.run (vecStep 4) (vecSystem Nat) os₁ = .ok s →
        VecLaw os₁ s := by
  intro os
  refine (vec_refines_list_iff 4 os (by rintro ⟨⟩)).mpr ⟨?_, ?_⟩
  · refine ⟨trivial, ?_⟩
    rintro s ⟨⟩
    refine ⟨trivial, ?_⟩
    rintro s ⟨⟩
    constructor
    · rintro vec ⟨⟩ -
      decide
    rintro s ⟨⟩
    constructor
    · rintro vec ⟨⟩
      rfl
    rintro s ⟨⟩
    exact ⟨trivial, fun _ _ => trivial⟩
  · intro os₁ o os₂ s hos hrun hdrops
    exfalso
    rcases os₁ with _ | ⟨o₁, _ | ⟨o₂, os₁⟩⟩
    · obtain ⟨rfl, -⟩ := List.cons.inj hos
      cases hrun
      obtain ⟨vec, ⟨⟩, -⟩ := hdrops
    · obtain ⟨rfl, hos'⟩ := List.cons.inj hos
      obtain ⟨rfl, -⟩ := List.cons.inj hos'
      cases hrun
      obtain ⟨vec, ⟨⟩, -⟩ := hdrops
    · have ho : o ∈ [VecOp.pushLast (σ := Unit) 0 5 7, .move 1 0, .clear 1] := by
        obtain ⟨-, hos⟩ := List.cons.inj hos
        obtain ⟨-, hos⟩ := List.cons.inj hos
        rw [hos]
        simp
      simp only [List.mem_cons, List.not_mem_nil, or_false] at ho
      rcases ho with rfl | rfl | rfl <;> exact hdrops

/-- A vector with one element is shrunk: its buffer is the one that was just freed. The other stays
live and has no owner. -/
theorem vec_shrink_dangles :
    let os : List (VecOp Nat Unit) := [.init 0, .pushLast 0 5 7, .shrink 0 9]
    ∃ s, Lib.run (vecStep 4) (vecSystem Nat) os = .ok s ∧
      s.vecs 0 = some { len := 1, capacity := 1, data := some 9 } ∧ s.memory.live 9 = none ∧
      s.memory.live 7 ≠ none ∧ ¬ VecLaw os s := by
  refine ⟨_, rfl, rfl, rfl, by rintro ⟨⟩, ?_⟩
  intro hlaw
  exact hlaw.refines.live (v := 0) rfl rfl rfl

end Taskio
