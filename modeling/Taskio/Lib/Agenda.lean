import Mathlib.Algebra.Order.Group.Multiset
import Mathlib.Data.Multiset.Filter

/-!
# Agendas

What a timer facility is for, with no wheels: a clock and a multiset of entries, each with the time
`due` at which it is to be done. A tick moves the clock on by one and does the entries due then.

`Exact` is the law: of everything ever added, the entries due later are pending and the others are
done. It holds along every run in which nothing is added for the past (`exact_run`).
-/

namespace Lib

variable {τ : Type*}

structure Agenda (τ : Type*) where
  now : ℕ
  pending : Multiset τ
  done : Multiset τ

namespace Agenda

inductive Op (τ : Type*) where
  | add (t : τ)
  | tick

/-- The entries that the operations add. -/
def adds : List (Op τ) → Multiset τ
  | [] => 0
  | .add t :: os => t ::ₘ adds os
  | .tick :: os => adds os

theorem adds_append (os os' : List (Op τ)) : adds (os ++ os') = adds os + adds os' := by
  induction os with
  | nil => simp [adds]
  | cons o os ih => cases o <;> simp [adds, ih]

variable (due : τ → ℕ)

def step (a : Agenda τ) : Op τ → Agenda τ
  | .add t => { a with pending := t ::ₘ a.pending }
  | .tick =>
    { now := a.now + 1
      pending := a.pending.filter fun t => due t ≠ a.now + 1
      done := a.done + a.pending.filter fun t => due t = a.now + 1 }

/-- Nothing is added for the present or the past. -/
def Punctual (a : Agenda τ) : List (Op τ) → Prop
  | [] => True
  | .add t :: os => a.now < due t ∧ Punctual (step due a (.add t)) os
  | .tick :: os => Punctual (step due a .tick) os

/-- Of all entries `added`, those due later are pending and the others are done. -/
structure Exact (a : Agenda τ) (added : Multiset τ) : Prop where
  pending : a.pending = added.filter fun t => a.now < due t
  done : a.done = added.filter fun t => due t ≤ a.now

variable {due} {a : Agenda τ} {added : Multiset τ}

theorem now_le_foldl (a : Agenda τ) (os : List (Op τ)) : a.now ≤ (os.foldl (step due) a).now := by
  induction os generalizing a with
  | nil => exact Nat.le_refl _
  | cons o os ih =>
    refine Nat.le_trans ?_ (ih (step due a o))
    cases o with
    | add t => exact Nat.le_refl _
    | tick => exact Nat.le_succ _

/-- A pending entry is pending until its time. -/
theorem mem_pending_foldl {os : List (Op τ)} {t : τ} (ht : t ∈ a.pending)
    (hlt : (os.foldl (step due) a).now < due t) : t ∈ (os.foldl (step due) a).pending := by
  induction os generalizing a with
  | nil => exact ht
  | cons o os ih =>
    refine ih ?_ hlt
    cases o with
    | add t' => exact Multiset.mem_cons_of_mem ht
    | tick =>
      have hle : a.now + 1 ≤ (os.foldl (step due) (step due a .tick)).now :=
        now_le_foldl (step due a .tick) os
      refine Multiset.mem_filter.mpr ⟨ht, ?_⟩
      have hlt' : (os.foldl (step due) (step due a .tick)).now < due t := hlt
      omega

theorem punctual_append {os os' : List (Op τ)} :
    Punctual due a (os ++ os') ↔ Punctual due a os ∧ Punctual due (os.foldl (step due) a) os' := by
  induction os generalizing a with
  | nil => simp [Punctual]
  | cons o os ih => cases o <;> simp [Punctual, ih, and_assoc]

theorem Exact.add (h : Exact due a added) {t : τ} (ht : a.now < due t) :
    Exact due (step due a (.add t)) (t ::ₘ added) where
  pending := by
    show t ::ₘ a.pending = (t ::ₘ added).filter fun t => a.now < due t
    rw [Multiset.filter_cons_of_pos (p := fun t => a.now < due t) _ ht, h.pending]
  done := by
    show a.done = (t ::ₘ added).filter fun t => due t ≤ a.now
    rw [Multiset.filter_cons_of_neg (p := fun t => due t ≤ a.now) _ (by omega), h.done]

theorem Exact.tick (h : Exact due a added) : Exact due (step due a .tick) added where
  pending := by
    show a.pending.filter (fun t => due t ≠ a.now + 1) = added.filter fun t => a.now + 1 < due t
    rw [h.pending, Multiset.filter_filter]
    refine Multiset.filter_congr ?_
    intro t _
    omega
  done := by
    show a.done + a.pending.filter (fun t => due t = a.now + 1) =
      added.filter fun t => due t ≤ a.now + 1
    rw [h.pending, h.done, Multiset.filter_filter, Multiset.filter_add_filter]
    -- no entry is in both parts
    have hboth : added.filter (fun t => due t ≤ a.now ∧ due t = a.now + 1 ∧ a.now < due t) = 0 :=
      Multiset.filter_eq_nil.mpr fun t _ => by omega
    rw [hboth, add_zero]
    refine Multiset.filter_congr ?_
    intro t _
    omega

/-- The law holds along every punctual run. -/
theorem exact_run (os : List (Op τ)) (h : Exact due a added) (hp : Punctual due a os) :
    Exact due (os.foldl (step due) a) (added + adds os) := by
  induction os generalizing a added with
  | nil => simpa [adds] using h
  | cons o os ih =>
    cases o with
    | add t =>
      rw [adds, ← Multiset.singleton_add, ← add_assoc, add_comm added, Multiset.singleton_add]
      exact ih (h.add hp.1) hp.2
    | tick => exact ih h.tick hp

/-- The law for one entry: it is pending before its time, and done from then on. -/
theorem Exact.count [DecidableEq τ] (h : Exact due a added) (t : τ) :
    (a.now < due t → a.pending.count t = added.count t ∧ a.done.count t = 0) ∧
      (due t ≤ a.now → a.pending.count t = 0 ∧ a.done.count t = added.count t) := by
  rw [h.pending, h.done, Multiset.count_filter, Multiset.count_filter]
  constructor
  · intro hlt
    rw [if_pos hlt, if_neg (by omega)]
    exact ⟨rfl, rfl⟩
  · intro hle
    rw [if_neg (by omega), if_pos hle]
    exact ⟨rfl, rfl⟩

end Agenda

end Lib
