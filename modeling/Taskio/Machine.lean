import Mathlib.Algebra.Group.Nat.Defs
import Mathlib.Data.List.Basic

/-!
# The machine under the C program

What all parts of the model share: the faults that end a run, and unsigned arithmetic.
-/

namespace Taskio

/-- What ends a run: undefined behaviour of the C program, an assertion that fails, or a call that
no caller makes. -/
inductive Fault where
  | outOfBounds
  | divisionByZero
  | nullHandler
  | nullPointer
  | useAfterFree
  | assertFailed
  | noSuchCall
deriving DecidableEq, Repr

@[simp] theorem ok_bind {ε α β : Type} (a : α) (f : α → Except ε β) :
    ((Except.ok a : Except ε α) >>= f) = f a := rfl

@[simp] theorem error_bind {ε α β : Type} (e : ε) (f : α → Except ε β) :
    ((Except.error e : Except ε α) >>= f) = .error e := rfl

/-- From a sequence that succeeds, its two parts. -/
theorem bind_eq_ok {ε α β : Type} {m : Except ε α} {f : α → Except ε β} {b : β} :
    (m >>= f) = .ok b ↔ ∃ a, m = .ok a ∧ f a = .ok b := by
  cases m with
  | ok a => simp
  | error e => simp

/-- `uint64_t` arithmetic wraps. -/
def u64 (n : Nat) : Nat := n % 2 ^ 64

theorem u64_of_lt {n : Nat} (h : n < 2 ^ 64) : u64 n = n := Nat.mod_eq_of_lt h

/-- `size_t` increment. -/
def sizeInc (i : Nat) : Nat := if i = 2 ^ 64 - 1 then 0 else i + 1

/-- `size_t` decrement. -/
def sizeDec (i : Nat) : Nat := if i = 0 then 2 ^ 64 - 1 else i - 1

theorem sizeInc_of_lt {i : Nat} (h : i + 1 < 2 ^ 64) : sizeInc i = i + 1 := by
  rw [sizeInc, if_neg (by omega)]

theorem sizeDec_of_pos {i : Nat} (h : 0 < i) : sizeDec i = i - 1 := by
  rw [sizeDec, if_neg (by omega)]

/-- Stepping back and then on is no step, also through `SIZE_MAX`. -/
theorem sizeInc_sizeDec {i : Nat} (h : i < 2 ^ 64) : sizeInc (sizeDec i) = i := by
  by_cases h0 : i = 0
  · subst h0
    rfl
  · rw [sizeDec_of_pos (by omega), sizeInc_of_lt (by omega)]
    omega

end Taskio
