import Mathlib.Data.PNat.Defs
import Mathlib.Logic.Function.Basic
import Taskio.Collections.Vec

/-!
# `collections/vec.h`: vectors in memory

A vector is three words, `len`, `capacity` and `data`; its elements are in a buffer of the allocator.
The allocator is the set of its live buffers, each with its cells. It returns any address that is not
live: which one, the call says.

The element type has a size. A request for `n` elements asks for that many bytes, in 64 bits, and the
buffer has as many cells as fit in them.
-/

namespace Taskio

variable {α σ : Type}

/-! ## The allocator -/

/-- The live buffers. A cell is `none` until it is written. -/
structure Buffers (α : Type) where
  live : Nat → Option (List (Option α))

namespace Buffers

/-- `alloc`, of `n` cells at `a`. -/
def alloc (m : Buffers α) (a n : Nat) : Except Fault (Buffers α) :=
  match m.live a with
  | some _ => .error .noSuchCall
  | none => .ok ⟨Function.update m.live a (some (List.replicate n none))⟩

/-- `free`. -/
def free (m : Buffers α) : Option Nat → Except Fault (Buffers α)
  | none => .ok m
  | some a =>
    match m.live a with
    | some _ => .ok ⟨Function.update m.live a none⟩
    | none => .error .useAfterFree

/-- The cells behind a pointer. -/
def cells (m : Buffers α) : Option Nat → Except Fault (List (Option α))
  | none => .error .nullPointer
  | some a =>
    match m.live a with
    | some cells => .ok cells
    | none => .error .useAfterFree

def setCells (m : Buffers α) (data : Option Nat) (cells : List (Option α)) : Buffers α :=
  match data with
  | none => m
  | some a => ⟨Function.update m.live a (some cells)⟩

/-- Reading `data[i]`. A cell that was never written has no value. -/
def read (m : Buffers α) (data : Option Nat) (i : Nat) : Except Fault α := do
  let cells ← m.cells data
  match cells[i]? with
  | some (some x) => .ok x
  | _ => .error .outOfBounds

/-- `data[i] = x`. -/
def write (m : Buffers α) (data : Option Nat) (i : Nat) (x : α) : Except Fault (Buffers α) := do
  let cells ← m.cells data
  if i < cells.length then .ok (m.setCells data (cells.set i (some x))) else .error .outOfBounds

/-- `memcpy` of `n` cells. -/
def memcpy (m : Buffers α) (dst src : Option Nat) (n : Nat) : Except Fault (Buffers α) := do
  let source ← m.cells src
  let target ← m.cells dst
  if n ≤ source.length ∧ n ≤ target.length then
    .ok (m.setCells dst (source.take n ++ target.drop n))
  else .error .outOfBounds

/-- `memmove` of `n` cells within one buffer, down by one cell to `i`. -/
def memmove (m : Buffers α) (data : Option Nat) (i n : Nat) : Except Fault (Buffers α) := do
  let cells ← m.cells data
  if i + 1 + n ≤ cells.length then
    .ok (m.setCells data (cells.take i ++ (cells.drop (i + 1)).take n ++ cells.drop (i + n)))
  else .error .outOfBounds

end Buffers

/-! ## The macros -/

/-- `taskio_vec(T)`. -/
structure Vec where
  len : Nat
  capacity : Nat
  data : Option Nat
deriving DecidableEq, Repr

/-- The cells that fit in `sizeof(T) * n` bytes. -/
def cellsFor (size : ℕ+) (n : Nat) : Nat := u64 (size * n) / size

namespace Vec

/-- `taskio_vec_init`. -/
def init : Vec := { len := 0, capacity := 0, data := none }

/-- `taskio_vec_shrink`. -/
def shrink (size : ℕ+) (m : Buffers α) (a : Nat) (vec : Vec) : Except Fault (Buffers α × Vec) :=
  if vec.len < vec.capacity then
    let vec := { vec with capacity := vec.len }
    if vec.len = 0 then .ok (m, { vec with data := none })
    else do
      let m ← m.alloc a (cellsFor size vec.len)
      let m ← m.memcpy (some a) vec.data (cellsFor size vec.len)
      let m ← m.free (some a)
      .ok (m, { vec with data := some a })
  else .ok (m, vec)

/-- `taskio_vec_clear`, of elements that need no destructor. -/
def clear (m : Buffers α) (vec : Vec) : Except Fault (Buffers α × Vec) := do
  let m ← m.free vec.data
  .ok (m, { len := 0, capacity := 0, data := none })

/-- `new_capacity` of `taskio_vec_push_last`, as if it fitted in any number of bits. -/
def grown (vec : Vec) : Nat := if 0 < vec.capacity then vec.capacity * 2 else 16

/-- The growth in `taskio_vec_push_last`. -/
def grow (size : ℕ+) (m : Buffers α) (a : Nat) (vec : Vec) : Except Fault (Buffers α × Vec) := do
  let newCapacity := u64 vec.grown
  let m ← m.alloc a (cellsFor size newCapacity)
  let m ← match vec.data with
    | some _ => do
      let m ← m.memcpy (some a) vec.data (cellsFor size vec.capacity)
      m.free vec.data
    | none => .ok m
  .ok (m, { vec with capacity := newCapacity, data := some a })

/-- `taskio_vec_push_last`. -/
def pushLast (size : ℕ+) (m : Buffers α) (a : Nat) (vec : Vec) (obj : α) :
    Except Fault (Buffers α × Vec) := do
  let (m, vec) ← if vec.capacity ≤ vec.len then vec.grow size m a else .ok (m, vec)
  let m ← m.write vec.data vec.len obj
  .ok (m, { vec with len := sizeInc vec.len })

end Vec

/-! ## `taskio_vec_remove_if` -/

/-- The loop of `taskio_vec_remove_if`: `i` is `_vec_var_i`, `running` is `_vec_var_running`, `state`
is what the predicate may change. `asked` records the elements that it was called with, and its
answers. -/
structure RemoveIf (α σ : Type) where
  memory : Buffers α
  vec : Vec
  i : Nat
  running : Bool
  state : σ
  asked : List (α × Predicate)

def removeIf (memory : Buffers α) (vec : Vec) (state : σ) : RemoveIf α σ :=
  { memory := memory, vec := vec, i := 0, running := true, state := state, asked := [] }

/-- `_vec_var_running = false`. -/
def RemoveIf.stop (r : RemoveIf α σ) : RemoveIf α σ := { r with running := false }

/-- The case of an element that is removed. -/
def RemoveIf.remove (r : RemoveIf α σ) : Except Fault (RemoveIf α σ) := do
  let moveLen := r.vec.len - r.i - 1
  let memory ← if 0 < moveLen then r.memory.memmove r.vec.data r.i moveLen else .ok r.memory
  .ok { r with
    memory := memory, vec := { r.vec with len := sizeDec r.vec.len }, i := sizeDec r.i }

/-- One turn of the loop, with the step of the index that ends it. -/
def removeIfTurn (predicate : α → σ → Predicate × σ) (r : RemoveIf α σ) :
    Except Fault (RemoveIf α σ) := do
  let x ← r.memory.read r.vec.data r.i
  let (answer, state) := predicate x r.state
  let r := { r with state := state, asked := r.asked ++ [(x, answer)] }
  let r ← match answer with
    | .trueFinish => r.stop.remove
    | .true => r.remove
    | .falseFinish => .ok r.stop
    | .false => .ok r
  .ok { r with i := sizeInc r.i }

/-- `none` when the fuel ends before the loop does. -/
def removeIfLoop (predicate : α → σ → Predicate × σ) :
    Nat → RemoveIf α σ → Except Fault (Option (RemoveIf α σ))
  | 0, _ => .ok none
  | fuel + 1, r =>
    if r.i < r.vec.len ∧ r.running = true then do
      let r ← removeIfTurn predicate r
      removeIfLoop predicate fuel r
    else .ok (some r)

end Taskio
