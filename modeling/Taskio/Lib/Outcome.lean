import Taskio.Lib.Run

/-!
# Computations that end alike

Two levels of one design, both with faults: the lower computation ends as the upper one does, with the
same fault or in a related state. One fault of the lower is excused, which is the caller's doing.

* `Alike.bind` — sequences end alike
* `Alike.run` — so do runs, with a relation that may grow with the number of steps
-/

namespace Lib

universe u v

variable {ω ε : Type*} {σ σ' : Type u} {ρ ρ' : Type v} {e₀ : ε}

/-- `m` ends as `r` does, in a state that `R` relates to its own, unless it fails with `e₀`. -/
inductive Alike (e₀ : ε) (R : σ → ρ → Prop) : Except ε σ → Except ε ρ → Prop
  | excused (r : Except ε ρ) : Alike e₀ R (.error e₀) r
  | fails (e : ε) : Alike e₀ R (.error e) (.error e)
  | ends {s : σ} {t : ρ} (h : R s t) : Alike e₀ R (.ok s) (.ok t)

namespace Alike

variable {R : σ → ρ → Prop} {R' : σ' → ρ' → Prop} {m : Except ε σ} {r : Except ε ρ}

theorem mono {Q : σ → ρ → Prop} (h : Alike e₀ R m r) (himp : ∀ s t, R s t → Q s t) :
    Alike e₀ Q m r := by
  cases h with
  | excused => exact .excused r
  | fails e => exact .fails e
  | ends h => exact .ends (himp _ _ h)

theorem bind {f : σ → Except ε σ'} {g : ρ → Except ε ρ'} (h : Alike e₀ R m r)
    (hf : ∀ s t, R s t → Alike e₀ R' (f s) (g t)) : Alike e₀ R' (m >>= f) (r >>= g) := by
  cases h with
  | excused => exact .excused _
  | fails e => exact .fails e
  | ends h => exact hf _ _ h

/-- What is known of the state that the lower computation ends in. -/
theorem ok_of_ends {s : σ} (h : Alike e₀ R m r) (hm : m = .ok s) : ∃ t, r = .ok t ∧ R s t := by
  cases h with
  | excused => cases hm
  | fails e => cases hm
  | ends h =>
    cases hm
    exact ⟨_, rfl, h⟩

/-- Two machines whose steps end alike, for `bound` steps. -/
theorem run {step : σ → ω → Except ε σ} {step' : ρ → ω → Except ε ρ} {R : ℕ → σ → ρ → Prop}
    {bound : ℕ}
    (hstep : ∀ n s t o, n < bound → R n s t → Alike e₀ (R (n + 1)) (step s o) (step' t o))
    (os : List ω) {n : ℕ} {s : σ} {t : ρ} (hn : n + os.length ≤ bound) (h₀ : R n s t) :
    Alike e₀ (R (n + os.length)) (Lib.run step s os) (Lib.run step' t os) := by
  induction os generalizing n s t with
  | nil => exact .ends h₀
  | cons o os ih =>
    rw [List.length_cons, ← Nat.add_assoc, Nat.add_right_comm] at hn ⊢
    have hfirst := hstep n s t o (by omega) h₀
    rw [Lib.run, Lib.run]
    generalize step s o = m at hfirst ⊢
    generalize step' t o = r at hfirst ⊢
    cases hfirst with
    | excused => exact .excused _
    | fails e => exact .fails e
    | ends h => exact ih hn h

end Alike

end Lib
