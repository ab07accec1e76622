import Mathlib.Data.List.Basic

/-!
# A list in the front of a buffer

A buffer is a list of cells, `none` where nothing was written. A growable array keeps its elements in
the first cells and leaves old ones behind them.

* `Holds cells l` — the first cells have the elements of `l`, in order
* `Holds.write` / `Holds.copy` / `Holds.shiftDown` — appending an element, moving to another buffer,
  and closing the gap of a removed element
-/

namespace Lib

variable {α : Type*} {cells old : List (Option α)} {l : List α} {i n : Nat} {x : α}

/-- The first cells have the elements of `l`, in order. -/
def Holds (cells : List (Option α)) (l : List α) : Prop := l.map some <+: cells

theorem holds_nil (cells : List (Option α)) : Holds cells [] := List.nil_prefix

namespace Holds

theorem get (h : Holds cells l) (hi : i < l.length) : cells[i]? = some (some l[i]) := by
  obtain ⟨rest, rfl⟩ := h
  rw [List.getElem?_append_left (by simpa using hi), List.getElem?_map, List.getElem?_eq_getElem hi]
  rfl

/-- The cell behind the last element is written. -/
theorem write (h : Holds cells l) (hlt : l.length < cells.length) (x : α) :
    Holds (cells.set l.length (some x)) (l ++ [x]) := by
  obtain ⟨rest, rfl⟩ := h
  cases rest with
  | nil => simp at hlt
  | cons c rest =>
    refine ⟨rest, ?_⟩
    rw [List.set_append_right _ _ (by simp)]
    simp

/-- The first `n` cells of another buffer are overwritten with those of this one. -/
theorem copy (h : Holds cells l) (hn : l.length ≤ n) : Holds (cells.take n ++ old.drop n) l := by
  obtain ⟨rest, rfl⟩ := h
  rw [List.take_append, List.take_of_length_le (by simpa using hn), List.append_assoc]
  exact List.prefix_append _ _

/-- The elements behind index `i` move down by one cell. -/
theorem shiftDown (h : Holds cells l) (hi : i < l.length) :
    Holds (cells.take i ++ (cells.drop (i + 1)).take (l.length - i - 1) ++
      cells.drop (i + (l.length - i - 1))) (l.eraseIdx i) := by
  obtain ⟨rest, rfl⟩ := h
  have htake : ((l.map some ++ rest).drop (i + 1)).take (l.length - i - 1) =
      (l.drop (i + 1)).map some := by
    rw [List.drop_append_of_le_length (by rw [List.length_map]; omega),
      List.take_append_of_le_length (by rw [List.length_drop, List.length_map]; omega),
      List.take_of_length_le (by rw [List.length_drop, List.length_map]; omega), List.map_drop]
  rw [htake, List.take_append_of_le_length (by rw [List.length_map]; omega), ← List.map_take,
    ← List.map_append, List.eraseIdx_eq_take_drop_succ]
  exact List.prefix_append _ _

end Holds

end Lib
