import Taskio.Lib.Agenda

/-!
# Dockets

An agenda whose entries can be taken off it: each has a `key`, by which it is withdrawn, or done
before its time. An entry that comes too late for its time is done at once.

* `step` — one operation on the agenda
* `fate` — what becomes of one entry, by its time and the operations alone
* `foldl_count` — after a run an entry is where its fate says, and nowhere else
-/

namespace Lib

namespace Docket

variable {τ κ : Type*}

inductive Op (τ κ : Type*) where
  | add (t : τ)
  | tick
  /-- the entries of the key are taken off -/
  | withdraw (k : κ)
  /-- the entries of the key are done now -/
  | advance (k : κ)

/-- The entries that an operation adds. -/
def Op.added : Op τ κ → Multiset τ
  | .add t => {t}
  | .tick | .withdraw _ | .advance _ => 0

/-- The time after an operation. -/
def Op.after (now : ℕ) : Op τ κ → ℕ
  | .tick => now + 1
  | .add _ | .withdraw _ | .advance _ => now

variable [DecidableEq κ] (due : τ → ℕ) (key : τ → κ)

def step (a : Agenda τ) : Op τ κ → Agenda τ
  | .add t =>
    if a.now < due t then Agenda.step due a (.add t) else { a with done := t ::ₘ a.done }
  | .tick => Agenda.step due a .tick
  | .withdraw k => { a with pending := a.pending.filter fun t => key t ≠ k }
  | .advance k =>
    { a with
      pending := a.pending.filter fun t => key t ≠ k
      done := a.done + a.pending.filter fun t => key t = k }

/-! ## Fates -/

inductive Fate where
  | pending
  | done
  | withdrawn
deriving DecidableEq

/-- What one operation does to an entry that is pending at the time `now`. -/
def Op.verdict (t : τ) (now : ℕ) : Op τ κ → Fate
  | .add _ => .pending
  | .tick => if due t = now + 1 then .done else .pending
  | .withdraw k => if key t = k then .withdrawn else .pending
  | .advance k => if key t = k then .done else .pending

/-- What becomes of an entry that is pending at the time `now`. -/
def fate (t : τ) : ℕ → List (Op τ κ) → Fate
  | _, [] => .pending
  | now, o :: os =>
    match o.verdict due key t now with
    | .pending => fate t (o.after now) os
    | .done => .done
    | .withdrawn => .withdrawn

variable (a : Agenda τ) {t : τ} {o : Op τ κ}

theorem step_now (o : Op τ κ) : (step due key a o).now = o.after a.now := by
  cases o with
  | add t =>
    rw [step]
    split
    · rfl
    · rfl
  | tick => rfl
  | withdraw k => rfl
  | advance k => rfl

section Count

variable [DecidableEq τ]

/-- One operation that does not add the entry. -/
theorem step_count (ho : t ∉ o.added) :
    (step due key a o).pending.count t =
        (if o.verdict due key t a.now = .pending then a.pending.count t else 0) ∧
      (step due key a o).done.count t =
        a.done.count t + (if o.verdict due key t a.now = .done then a.pending.count t else 0) := by
  cases o with
  | add t' =>
    have hne : t ≠ t' := fun heq => ho (Multiset.mem_singleton.mpr heq)
    simp only [step, Op.verdict, Agenda.step]
    split
    · exact ⟨by simp [Multiset.count_cons_of_ne hne], by simp⟩
    · exact ⟨by simp, by simp [Multiset.count_cons_of_ne hne]⟩
  | tick =>
    simp only [step, Op.verdict, Agenda.step, Multiset.count_add, Multiset.count_filter]
    by_cases hdue : due t = a.now + 1
    · simp [hdue]
    · simp [hdue]
  | withdraw k =>
    simp only [step, Op.verdict, Multiset.count_filter]
    by_cases hkey : key t = k
    · simp [hkey]
    · simp [hkey]
  | advance k =>
    simp only [step, Op.verdict, Multiset.count_add, Multiset.count_filter]
    by_cases hkey : key t = k
    · simp [hkey]
    · simp [hkey]

/-- **After a run an entry is where its fate says.** -/
theorem foldl_count {os : List (Op τ κ)} (hos : ∀ o ∈ os, t ∉ o.added) :
    (os.foldl (step due key) a).pending.count t =
        (if fate due key t a.now os = .pending then a.pending.count t else 0) ∧
      (os.foldl (step due key) a).done.count t =
        a.done.count t + (if fate due key t a.now os = .done then a.pending.count t else 0) := by
  induction os generalizing a with
  | nil => simp [fate]
  | cons o os ih =>
    obtain ⟨hpending, hdone⟩ := step_count due key a (hos o (by simp))
    obtain ⟨hpendings, hdones⟩ := ih (step due key a o) fun o' ho' => hos o' (by simp [ho'])
    rw [List.foldl_cons, hpendings, hdones, hdone, step_now, hpending, fate]
    cases hverdict : o.verdict due key t a.now with
    | pending => simp
    | done => simp
    | withdrawn => simp

end Count

end Docket

end Lib
