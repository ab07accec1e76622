import Taskio.Machine

/-!
# `collections/vec.h`: removal by predicate

`taskio_vec_remove_if` walks a vector by index and shifts the tail down over each removed element.
Here it is the walk over the elements, which the timer wheel uses; the loop over the buffer is
`removeIfLoop`, and does the same to it.

* `vecRemoveIf` — the walk, by recursion over the elements
-/

namespace Taskio

/-- `enum taskio_predicate`. -/
inductive Predicate where
  | true
  | false
  | trueFinish
  | falseFinish
deriving DecidableEq, Repr

variable {α σ : Type}

/-- `taskio_vec_remove_if` on the sequence of elements. -/
def vecRemoveIf (predicate : α → σ → Predicate × σ) : List α → σ → List α × σ
  | [], s => ([], s)
  | x :: xs, s =>
    match predicate x s with
    | (.trueFinish, s') => (xs, s')
    | (.true, s') => vecRemoveIf predicate xs s'
    | (.falseFinish, s') => (x :: xs, s')
    | (.false, s') =>
      let r := vecRemoveIf predicate xs s'
      (x :: r.1, r.2)

theorem vecRemoveIf_sublist (predicate : α → σ → Predicate × σ) (vec : List α) (s : σ) :
    (vecRemoveIf predicate vec s).1.Sublist vec := by
  induction vec generalizing s with
  | nil => exact List.Sublist.refl _
  | cons x xs ih =>
    rw [vecRemoveIf]
    cases hp : predicate x s with
    | mk answer s' =>
      cases answer with
      | true => exact (ih s').cons x
      | false => exact (ih s').cons_cons x
      | trueFinish => exact List.sublist_cons_self x xs
      | falseFinish => exact List.Sublist.refl _

end Taskio
