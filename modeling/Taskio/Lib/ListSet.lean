import Mathlib.Algebra.Order.Group.Multiset

/-!
# Replacing one element of a list

What is counted over a list, or spelled by its parts, when one element is replaced: what the element
stood for is exchanged, and nothing else changes.
-/

namespace Lib

variable {α β : Type*}

theorem coe_flatMap_set (g : α → List β) {l : List α} {i : Nat} {x : α} (h : l[i]? = some x)
    (y : α) :
    (((l.set i y).flatMap g : List β) : Multiset β) + g x = (l.flatMap g : List β) + g y := by
  induction l generalizing i with
  | nil => simp at h
  | cons z zs ih =>
    cases i with
    | zero =>
      obtain rfl : z = x := by simpa using h
      simp only [List.set_cons_zero, List.flatMap_cons, ← Multiset.coe_add]
      rw [add_right_comm, add_comm (g y : Multiset β) (g z), add_right_comm]
    | succ i =>
      have ih' := ih (by simpa using h)
      simp only [List.set_cons_succ, List.flatMap_cons, ← Multiset.coe_add]
      rw [add_assoc, ih', add_assoc]

theorem coe_flatten_set {l : List (List β)} {i : Nat} {x : List β} (h : l[i]? = some x)
    (y : List β) :
    (((l.set i y).flatten : List β) : Multiset β) + x = (l.flatten : List β) + y := by
  simpa [List.flatMap_id] using coe_flatMap_set id h y

theorem countP_set_add (p : α → Bool) {l : List α} {i : Nat} {x : α} (h : l[i]? = some x) (y : α) :
    (l.set i y).countP p + (p x).toNat = l.countP p + (p y).toNat := by
  induction l generalizing i with
  | nil => simp at h
  | cons z zs ih =>
    cases i with
    | zero =>
      obtain rfl : z = x := by simpa using h
      rw [List.set_cons_zero, List.countP_cons, List.countP_cons]
      cases p z <;> cases p y <;> simp
    | succ i =>
      have ih' := ih (by simpa using h)
      rw [List.set_cons_succ, List.countP_cons, List.countP_cons]
      omega

end Lib
