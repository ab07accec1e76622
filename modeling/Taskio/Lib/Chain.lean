import Mathlib.Data.List.Nodup
import Mathlib.Logic.Function.Basic

/-!
# Intrusive singly linked queues

Objects of type `ι` are linked through a field `next : ι → Option ι`. This file relates the links
to the sequence of objects they spell.

* `Chain next p l` — following `next` from `p` visits exactly `l` and then ends
* `Leads next p l q` — following `next` from `p` visits `l`, and then stands at `q`
* `Reaches next p x` — following `next` from `p` visits `x`, also where the links go round in a circle
* `IsQueue next head tail l` — `head` and `tail` are the two ends of the chain `l`
* `IsQueue.pushTail` / `IsQueue.popHead` — the two queue operations on the links
-/

namespace Lib

variable {ι : Type*} {next next' : ι → Option ι} {p head tail : Option ι} {x y : ι} {l l' : List ι}

/-- Following `next` from `p` visits exactly `l`, and then ends. -/
def Chain (next : ι → Option ι) : Option ι → List ι → Prop
  | p, [] => p = none
  | p, x :: xs => p = some x ∧ Chain next (next x) xs

@[simp] theorem chain_nil : Chain next p [] ↔ p = none := Iff.rfl

@[simp] theorem chain_cons : Chain next p (x :: l) ↔ p = some x ∧ Chain next (next x) l := Iff.rfl

theorem Chain.unique (h : Chain next p l) (h' : Chain next p l') : l = l' := by
  induction l generalizing p l' with
  | nil =>
    cases l' with
    | nil => rfl
    | cons y ys => rw [chain_nil.mp h] at h'; exact absurd h'.1 (by simp)
  | cons x xs ih =>
    cases l' with
    | nil => rw [chain_nil.mp h'] at h; exact absurd h.1 (by simp)
    | cons y ys =>
      obtain rfl : x = y := Option.some.inj (h.1.symm.trans h'.1)
      rw [ih h.2 h'.2]

/-- The chain goes on from each of its members. -/
theorem Chain.of_append {l₁ l₂ : List ι} (h : Chain next p (l₁ ++ x :: l₂)) :
    Chain next (next x) l₂ := by
  induction l₁ generalizing p with
  | nil => exact h.2
  | cons y ys ih => exact ih h.2

/-- A chain that ends visits nothing twice. -/
theorem Chain.nodup (h : Chain next p l) : l.Nodup := by
  induction l generalizing p with
  | nil => exact List.nodup_nil
  | cons x xs ih =>
    refine List.nodup_cons.mpr ⟨?_, ih h.2⟩
    intro hx
    obtain ⟨u, v, huv⟩ := List.append_of_mem hx
    -- the links after the two visits to `x` are the same, but their lengths differ
    have hlen : xs = v := h.2.unique (Chain.of_append (huv ▸ h.2))
    have := congrArg List.length (huv.symm.trans hlen)
    simp at this
    omega

/-- Links outside the chain do not matter. -/
theorem Chain.congr (h : Chain next p l) (hn : ∀ z ∈ l, next' z = next z) : Chain next' p l := by
  induction l generalizing p with
  | nil => exact h
  | cons x xs ih =>
    refine ⟨h.1, ?_⟩
    rw [hn x (by simp)]
    exact ih h.2 fun z hz => hn z (List.mem_cons_of_mem _ hz)

/-- Cutting a link ends the chain there. -/
theorem Chain.cut {u v : List ι} (h : Chain next p (u ++ x :: v)) (hn : ∀ z ∈ u, next' z = next z)
    (hx : next' x = none) : Chain next' p (u ++ [x]) := by
  induction u generalizing p with
  | nil => exact ⟨h.1, hx⟩
  | cons y ys ih =>
    refine ⟨h.1, ?_⟩
    rw [hn y (by simp)]
    exact ih h.2 fun z hz => hn z (List.mem_cons_of_mem _ hz)

theorem Chain.head?_eq (h : Chain next p l) : l.head? = p := by
  cases l with
  | nil => exact (chain_nil.mp h).symm
  | cons x xs => exact h.1.symm

/-- The last member has no link. -/
theorem Chain.next_getLast (h : Chain next p l) (hx : l.getLast? = some x) : next x = none := by
  obtain ⟨u, rfl⟩ := List.getLast?_eq_some_iff.mp hx
  exact chain_nil.mp h.of_append

/-- `head` and `tail` are the ends of the queue whose members are `l`, in order. -/
structure IsQueue (next : ι → Option ι) (head tail : Option ι) (l : List ι) : Prop where
  chain : Chain next head l
  last : tail = l.getLast?

namespace IsQueue

theorem empty : IsQueue next none none [] := ⟨rfl, rfl⟩

theorem nodup (h : IsQueue next head tail l) : l.Nodup := h.chain.nodup

theorem congr (h : IsQueue next head tail l) (hn : ∀ z ∈ l, next' z = next z) :
    IsQueue next' head tail l := ⟨h.chain.congr hn, h.last⟩

theorem head_eq_none (h : IsQueue next head tail l) : head = none ↔ l = [] := by
  rw [← h.chain.head?_eq, List.head?_eq_none_iff]

theorem tail_eq_none (h : IsQueue next head tail l) : tail = none ↔ l = [] := by
  rw [h.last, List.getLast?_eq_none_iff]

/-- Only the last member has no link. -/
theorem tail_of_next_eq_none (h : IsQueue next head tail l) (hx : x ∈ l) (hnx : next x = none) :
    tail = some x := by
  obtain ⟨u, v, rfl⟩ := List.append_of_mem hx
  have hv := h.chain.of_append
  rw [hnx] at hv
  obtain rfl : v = [] := hv.unique rfl
  rw [h.last, List.getLast?_concat]

theorem next_tail (h : IsQueue next head (some x) l) : next x = none :=
  h.chain.next_getLast h.last.symm

/-- A first member is both ends. -/
theorem pushEmpty (h : IsQueue next head none l) (hnx : next x = none) :
    l = [] ∧ IsQueue next (some x) (some x) [x] :=
  ⟨h.tail_eq_none.mp rfl, ⟨rfl, by simpa using hnx⟩, rfl⟩

/-- Unlinking the head; the tail goes with it when it was the only member. -/
theorem popHead (h : IsQueue next (some x) tail l) :
    ∃ xs, l = x :: xs ∧
      IsQueue next (next x) (if next x = none then none else tail) xs := by
  cases l with
  | nil => exact absurd (chain_nil.mp h.chain) (by simp)
  | cons z zs =>
    obtain rfl : x = z := Option.some.inj h.chain.1
    refine ⟨zs, rfl, h.chain.2, ?_⟩
    have hn : next x = none ↔ zs = [] := by
      rw [← h.chain.2.head?_eq, List.head?_eq_none_iff]
    by_cases hz : zs = []
    · rw [if_pos (hn.mpr hz), hz]; rfl
    · rw [if_neg (fun he => hz (hn.mp he)), h.last]
      obtain ⟨w, ws, rfl⟩ := List.exists_cons_of_ne_nil hz
      rw [List.getLast?_cons_cons]

end IsQueue

/-! ## Linking a new last member -/

section Link

variable [DecidableEq ι]

theorem Chain.append (h : Chain next p l) (hy : l.getLast? = some y) (hx : x ∉ l)
    (hnx : next x = none) : Chain (Function.update next y (some x)) p (l ++ [x]) := by
  induction l generalizing p with
  | nil => simp at hy
  | cons z zs ih =>
    have hxz : x ≠ z := fun he => hx (by simp [he])
    have hnd := List.nodup_cons.mp h.nodup
    refine ⟨h.1, ?_⟩
    cases zs with
    | nil =>
      obtain rfl : z = y := by simpa using hy
      simp [Function.update_of_ne hxz, hnx]
    | cons w ws =>
      have hy' : (w :: ws).getLast? = some y := by simpa using hy
      have hyz : z ≠ y := by
        rintro rfl
        exact hnd.1 (List.mem_of_getLast? hy')
      rw [Function.update_of_ne hyz]
      exact ih h.2 hy' (fun hm => hx (List.mem_cons_of_mem _ hm))

theorem IsQueue.pushTail (h : IsQueue next head (some y) l) (hx : x ∉ l) (hnx : next x = none) :
    IsQueue (Function.update next y (some x)) head (some x) (l ++ [x]) :=
  ⟨h.chain.append h.last.symm hx hnx, by simp⟩

end Link

/-! ## Links up to a point -/

/-- Following `next` from `p` visits `l`, and then stands at `q`. -/
def Leads (next : ι → Option ι) : Option ι → List ι → Option ι → Prop
  | p, [], q => p = q
  | p, x :: xs, q => p = some x ∧ Leads next (next x) xs q

theorem leads_none_iff : Leads next p l none ↔ Chain next p l := by
  induction l generalizing p with
  | nil => exact Iff.rfl
  | cons x xs ih => exact and_congr_right fun _ => ih

/-- From no object the links lead nowhere. -/
theorem Leads.of_none {q : Option ι} (h : Leads next none l q) : l = [] ∧ q = none := by
  cases l with
  | nil => exact ⟨rfl, h.symm⟩
  | cons x xs => cases h.1

theorem Leads.congr {q : Option ι} (h : Leads next p l q) (hn : ∀ z ∈ l, next' z = next z) :
    Leads next' p l q := by
  induction l generalizing p with
  | nil => exact h
  | cons x xs ih =>
    refine ⟨h.1, ?_⟩
    rw [hn x (by simp)]
    exact ih h.2 fun z hz => hn z (List.mem_cons_of_mem _ hz)

/-- What is linked behind `x` does not matter before it. -/
theorem Leads.upto {u v : List ι} {q : Option ι} (h : Leads next p (u ++ x :: v) q)
    (hn : ∀ z ∈ u, next' z = next z) : Leads next' p u (some x) := by
  induction u generalizing p with
  | nil => exact h.1
  | cons y ys ih =>
    refine ⟨h.1, ?_⟩
    rw [hn y (by simp)]
    exact ih h.2 fun z hz => hn z (List.mem_cons_of_mem _ hz)

/-! ## Links of any shape -/

/-- Following `next` from the pointer visits `x`. -/
inductive Reaches (next : ι → Option ι) (x : ι) : Option ι → Prop
  | here : Reaches next x (some x)
  | link {y : ι} (h : Reaches next x (next y)) : Reaches next x (some y)

section PushTail

variable [DecidableEq ι] (hnext : next' = fun z =>
  if tail = some z then some y else if z = y then none else next z)

include hnext

/-- Behind an object that is put behind the tail, with its own link cleared, there is only itself. -/
theorem Reaches.of_pushed (h : Reaches next' x (some y)) : x = y := by
  have hlast : next' y = none ∨ next' y = some y := by
    rw [hnext]
    by_cases hy : tail = some y
    · exact Or.inr (if_pos hy)
    · exact Or.inl ((if_neg hy).trans (if_pos rfl))
  generalize hp : some y = p at h
  induction h with
  | here => exact (Option.some.inj hp).symm
  | @link z h ih =>
    obtain rfl := Option.some.inj hp
    rcases hlast with hnone | hsome
    · rw [hnone] at h
      cases h
    · exact ih hsome.symm

/-- It is all that comes to be reached, whatever the shape of the links. -/
theorem Reaches.of_pushTail (h : Reaches next' x p) : Reaches next x p ∨ x = y := by
  induction h with
  | here => exact Or.inl .here
  | @link z h ih =>
    by_cases htail : tail = some z
    · have hz : next' z = some y := by rw [hnext]; exact if_pos htail
      rw [hz] at h
      exact Or.inr (Reaches.of_pushed hnext h)
    by_cases hzy : z = y
    · have hz : next' z = none := by rw [hnext]; exact (if_neg htail).trans (if_pos hzy)
      rw [hz] at h
      cases h
    · have hz : next' z = next z := by rw [hnext]; exact (if_neg htail).trans (if_neg hzy)
      rw [hz] at ih
      exact ih.imp_left .link

end PushTail

end Lib
