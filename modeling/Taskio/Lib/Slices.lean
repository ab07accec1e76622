import Mathlib.Algebra.Ring.Nat
import Mathlib.Algebra.BigOperators.Group.List.Basic

/-!
# Arrays that stand one behind the other

Several arrays in one: the elements of the array `k` start at `sliceStart arrays k`.

* `getElem?_slice` — an element of an array, in the one
* `flatten_set_slice` — and what writing it does to the one
-/

namespace Lib

variable {α : Type*} {arrays : List (List α)} {array : List α} {k i : ℕ}

/-- Where the array `k` starts. -/
def sliceStart (arrays : List (List α)) (k : ℕ) : ℕ := ((arrays.map List.length).take k).sum

theorem drop_sliceStart (arrays : List (List α)) (k : ℕ) :
    arrays.flatten.drop (sliceStart arrays k) = (arrays.drop k).flatten :=
  List.drop_sum_flatten arrays k

/-- The arrays from `k` on. -/
theorem drop_of_getElem? (hk : arrays[k]? = some array) :
    arrays.drop k = array :: arrays.drop (k + 1) := by
  obtain ⟨hlt, rfl⟩ := List.getElem?_eq_some_iff.mp hk
  exact List.drop_eq_getElem_cons hlt

theorem getElem?_slice (hk : arrays[k]? = some array) (hi : i < array.length) :
    arrays.flatten[sliceStart arrays k + i]? = array[i]? := by
  rw [← List.getElem?_drop, drop_sliceStart, drop_of_getElem? hk, List.flatten_cons,
    List.getElem?_append_left hi]

/-- What comes before array `k`, the array, and what comes behind it. -/
theorem flatten_slice (hk : arrays[k]? = some array) :
    arrays.flatten = (arrays.take k).flatten ++ (array ++ (arrays.drop (k + 1)).flatten) := by
  calc arrays.flatten
      = (arrays.take k ++ arrays.drop k).flatten := by rw [List.take_append_drop]
    _ = _ := by rw [drop_of_getElem? hk, List.flatten_append, List.flatten_cons]

theorem sliceStart_eq (arrays : List (List α)) (k : ℕ) :
    sliceStart arrays k = (arrays.take k).flatten.length := by
  rw [sliceStart, List.length_flatten, List.map_take]

theorem flatten_set_slice (hk : arrays[k]? = some array) (hi : i < array.length) (x : α) :
    (arrays.set k (array.set i x)).flatten = arrays.flatten.set (sliceStart arrays k + i) x := by
  have hlt := (List.getElem?_eq_some_iff.mp hk).1
  have hk' : (arrays.set k (array.set i x))[k]? = some (array.set i x) :=
    List.getElem?_set_self hlt
  rw [flatten_slice hk', flatten_slice hk, sliceStart_eq, List.take_set_of_le (Nat.le_refl k),
    List.drop_set_of_lt (Nat.lt_succ_self k)]
  rw [List.set_append_right _ _ (Nat.le_add_right ..), Nat.add_sub_cancel_left,
    List.set_append_left _ _ hi]

end Lib
