import Mathlib.Data.List.Basic

/-!
# Runs of a step function

A machine is a step function `σ → ω → Except ε σ`: an operation either leads to the next state
or ends the run with a fault. This file has what every development over such a machine needs:

* `run` — the state after a list of operations
* `Along` — a condition on (state, operation) met by every step of a run
* `run_invariant`, `run_safe` — one-step preservation gives preservation over runs
* `emitted` — what the steps of a run note, and `run_emits`, the invariant rule with the notes
* `run_simulates` — step by step simulation gives simulation of runs
* `run_projects`, `along_projects` — a component of a machine, whose steps are runs of another
* `along_iff_prefixes`, `along_iff_ends` — a law that one step keeps exactly when it meets a condition
-/

namespace Lib

variable {σ ω ε : Type*}

/-- The state after the operations `os`, or the fault of the first step that fails. -/
def run (step : σ → ω → Except ε σ) : σ → List ω → Except ε σ
  | s, [] => .ok s
  | s, o :: os =>
    match step s o with
    | .ok s' => run step s' os
    | .error e => .error e

/-- Every step of the run from `s` meets `P`. Nothing is asked after a step that fails. -/
def Along (step : σ → ω → Except ε σ) (P : σ → ω → Prop) : σ → List ω → Prop
  | _, [] => True
  | s, o :: os => P s o ∧ ∀ s', step s o = .ok s' → Along step P s' os

variable {step : σ → ω → Except ε σ} {P Q : σ → ω → Prop} {s s' s'' : σ} {o : ω} {os os' : List ω}

@[simp] theorem run_nil : run step s [] = .ok s := rfl

theorem run_cons_ok (h : step s o = .ok s') : run step s (o :: os) = run step s' os := by
  simp only [run, h]

theorem run_cons_eq_ok : run step s (o :: os) = .ok s'' ↔
    ∃ s', step s o = .ok s' ∧ run step s' os = .ok s'' := by
  cases h : step s o with
  | ok s₁ => simp [run, h]
  | error e => simp [run, h]

theorem run_append : run step s (os ++ os') = .ok s'' ↔
    ∃ s', run step s os = .ok s' ∧ run step s' os' = .ok s'' := by
  induction os generalizing s with
  | nil => simp
  | cons o os ih =>
    rw [List.cons_append, run_cons_eq_ok]
    constructor
    · rintro ⟨s₁, h₁, h₂⟩
      obtain ⟨s', h, h'⟩ := ih.mp h₂
      exact ⟨s', by rw [run_cons_ok h₁]; exact h, h'⟩
    · rintro ⟨s', h, h'⟩
      obtain ⟨s₁, h₁, h₂⟩ := run_cons_eq_ok.mp h
      exact ⟨s₁, h₁, ih.mpr ⟨s', h₂, h'⟩⟩

theorem along_cons (hp : P s o) (hok : step s o = .ok s') (h : Along step P s' os) :
    Along step P s (o :: os) :=
  ⟨hp, fun s₁ hok₁ => by rwa [← Except.ok.inj (hok.symm.trans hok₁)]⟩

theorem along_append (h : Along step P s (os ++ os')) :
    Along step P s os ∧ ∀ s', run step s os = .ok s' → Along step P s' os' := by
  induction os generalizing s with
  | nil => exact ⟨trivial, by rintro _ ⟨⟩; exact h⟩
  | cons o os ih =>
    obtain ⟨hp, hrest⟩ := h
    refine ⟨⟨hp, fun s' hs => (ih (hrest s' hs)).1⟩, ?_⟩
    intro s₂ hs₂
    obtain ⟨s₁, h₁, h₂⟩ := run_cons_eq_ok.mp hs₂
    exact (ih (hrest s₁ h₁)).2 s₂ h₂

theorem Along.and (h : Along step P s os) (h' : Along step Q s os) :
    Along step (fun s o => P s o ∧ Q s o) s os := by
  induction os generalizing s with
  | nil => trivial
  | cons o os ih => exact ⟨⟨h.1, h'.1⟩, fun s' hs => ih (h.2 s' hs) (h'.2 s' hs)⟩

theorem Along.imp (h : Along step P s os) (himp : ∀ s o, P s o → Q s o) : Along step Q s os := by
  induction os generalizing s with
  | nil => trivial
  | cons o os ih => exact ⟨himp s o h.1, fun s' hs => ih (h.2 s' hs)⟩

/-- On given inputs the condition is computed with the run. -/
instance decidableAlong [∀ s o, Decidable (P s o)] :
    ∀ s os, Decidable (Along step P s os)
  | _, [] => isTrue trivial
  | s, o :: os =>
    match h : step s o with
    | .ok s' =>
      have := decidableAlong s' os
      decidable_of_iff (P s o ∧ Along step P s' os) (by simp [Along, h])
    | .error _ => decidable_of_iff (P s o) (by simp [Along, h])

/-- The invariant rule. -/
theorem run_invariant {I : σ → Prop}
    (hstep : ∀ s o s', I s → P s o → step s o = .ok s' → I s')
    (h₀ : I s) (hp : Along step P s os) (h : run step s os = .ok s') : I s' := by
  induction os generalizing s with
  | nil => cases h; exact h₀
  | cons o os ih =>
    obtain ⟨s₁, h₁, h₂⟩ := run_cons_eq_ok.mp h
    exact ih (hstep s o s₁ h₀ hp.1 h₁) (hp.2 s₁ h₁) h₂

/-- The notes that the steps of a run make, in order. -/
def emitted {α : Type*} (step : σ → ω → Except ε σ) (note : σ → ω → List α) : σ → List ω → List α
  | _, [] => []
  | s, o :: os =>
    match step s o with
    | .ok s' => note s o ++ emitted step note s' os
    | .error _ => []

theorem emitted_append {α : Type*} {note : σ → ω → List α} (h : run step s os = .ok s') :
    emitted step note s (os ++ os') = emitted step note s os ++ emitted step note s' os' := by
  induction os generalizing s with
  | nil => cases h; rfl
  | cons o os ih =>
    obtain ⟨s₁, h₁, h₂⟩ := run_cons_eq_ok.mp h
    simp only [List.cons_append, emitted, h₁]
    rw [ih h₂, List.append_assoc]

/-- The invariant rule where no step fails, but for those that are the caller's doing. -/
theorem run_safe {I : σ → Prop} {e₀ : ε}
    (hstep : ∀ s o, I s → P s o → step s o ≠ .error e₀ → ∃ s', step s o = .ok s' ∧ I s')
    (h₀ : I s) (hp : Along step P s os) (hrun : run step s os ≠ .error e₀) :
    ∃ s', run step s os = .ok s' ∧ I s' := by
  induction os generalizing s with
  | nil => exact ⟨s, rfl, h₀⟩
  | cons o os ih =>
    have hok : step s o ≠ .error e₀ := by
      intro hfail
      exact hrun (by rw [run, hfail])
    obtain ⟨s₁, h₁, hI₁⟩ := hstep s o h₀ hp.1 hok
    rw [run_cons_ok h₁] at hrun ⊢
    exact ih hI₁ (hp.2 s₁ h₁) hrun

/-- The invariant rule for states and notes together. -/
theorem run_emits {α : Type*} {note : σ → ω → List α} {I : List α → σ → Prop} (past : List α)
    (hstep : ∀ past s o s', I past s → P s o → step s o = .ok s' → I (past ++ note s o) s')
    (h₀ : I past s) (hp : Along step P s os) (h : run step s os = .ok s') :
    I (past ++ emitted step note s os) s' := by
  induction os generalizing s past with
  | nil =>
    cases h
    rwa [emitted, List.append_nil]
  | cons o os ih =>
    obtain ⟨s₁, h₁, h₂⟩ := run_cons_eq_ok.mp h
    have hrest := ih (past ++ note s o) (hstep past s o s₁ h₀ hp.1 h₁) (hp.2 s₁ h₁) h₂
    simp only [emitted, h₁]
    rwa [List.append_assoc] at hrest

/-- The invariant rule for states and the operations so far. -/
theorem run_history {I : List ω → σ → Prop} (past : List ω)
    (hstep : ∀ past s o s', I past s → P s o → step s o = .ok s' → I (past ++ [o]) s')
    (h₀ : I past s) (hp : Along step P s os) (h : run step s os = .ok s') : I (past ++ os) s' := by
  induction os generalizing s past with
  | nil =>
    cases h
    rwa [List.append_nil]
  | cons o os ih =>
    obtain ⟨s₁, h₁, h₂⟩ := run_cons_eq_ok.mp h
    have hrest := ih (past ++ [o]) (hstep past s o s₁ h₀ hp.1 h₁) (hp.2 s₁ h₁) h₂
    rwa [List.append_assoc] at hrest

/-- What holds before a step if it holds after it, holds before a run. -/
theorem run_back {B : σ → Prop} (hback : ∀ s o s', step s o = .ok s' → B s' → B s) (hb : B s')
    (h : run step s os = .ok s') : B s := by
  induction os generalizing s with
  | nil => cases h; exact hb
  | cons o os ih =>
    obtain ⟨s₁, h₁, h₂⟩ := run_cons_eq_ok.mp h
    exact hback s o s₁ h₁ (ih h₂)

/-- The simulation rule: a machine whose steps are matched by those of another, as long as `B`. -/
theorem run_simulates {ρ ε' : Type*} {step' : ρ → ω → Except ε' ρ} {R : σ → ρ → Prop} {B : σ → Prop}
    {r : ρ} (hback : ∀ s o s', step s o = .ok s' → B s' → B s)
    (hstep : ∀ s r o s', R s r → step s o = .ok s' → B s' → ∃ r', step' r o = .ok r' ∧ R s' r')
    (h₀ : R s r) (hb : B s') (h : run step s os = .ok s') :
    ∃ r', run step' r os = .ok r' ∧ R s' r' := by
  induction os generalizing s r with
  | nil => cases h; exact ⟨r, rfl, h₀⟩
  | cons o os ih =>
    obtain ⟨s₁, h₁, h₂⟩ := run_cons_eq_ok.mp h
    obtain ⟨r₁, hr₁, hR⟩ := hstep s r o s₁ h₀ h₁ (run_back hback hb h₂)
    obtain ⟨r', hr', hR'⟩ := ih hR h₂
    exact ⟨r', by rw [run_cons_ok hr₁]; exact hr', hR'⟩

/-- A condition on the operations alone. -/
theorem along_of_forall (h : ∀ o ∈ os, ∀ s, P s o) : Along step P s os := by
  induction os generalizing s with
  | nil => trivial
  | cons o os ih =>
    exact ⟨h o (by simp) s, fun _ _ => ih fun o' ho' => h o' (List.mem_cons_of_mem _ ho')⟩

/-- Where a step keeps the law exactly when it meets `P`, the law holds in all states of a run exactly
when all its steps meet `P`. The law may speak of the operations so far, and `Q` is assumed of all
steps. -/
theorem along_iff_prefixes {I L : List ω → σ → Prop} (past : List ω)
    (hI : ∀ os s o s', I os s → L os s → P s o → Q s o → step s o = .ok s' → I (os ++ [o]) s')
    (hL : ∀ os s o s', I os s → L os s → Q s o → step s o = .ok s' → (L (os ++ [o]) s' ↔ P s o))
    (h₀ : I past s) (hL₀ : L past s) (hQ : Along step Q s os) (hrun : run step s os = .ok s'') :
    (∀ os₁ os₂ s₁, os = os₁ ++ os₂ → run step s os₁ = .ok s₁ → L (past ++ os₁) s₁) ↔
      Along step P s os := by
  induction os generalizing s past with
  | nil =>
    refine ⟨fun _ => trivial, ?_⟩
    intro _ os₁ os₂ s₁ hos hrun₁
    obtain ⟨rfl, -⟩ := List.append_eq_nil_iff.mp hos.symm
    cases hrun₁
    rwa [List.append_nil]
  | cons o os ih =>
    obtain ⟨s₁, h₁, hrest⟩ := run_cons_eq_ok.mp hrun
    have hlater : ∀ os₁, past ++ o :: os₁ = past ++ [o] ++ os₁ := fun os₁ => by simp
    constructor
    · intro hall
      have hL₁ : L (past ++ [o]) s₁ := hall [o] os s₁ rfl (by rw [run_cons_ok h₁]; rfl)
      have hp := (hL past s o s₁ h₀ hL₀ hQ.1 h₁).mp hL₁
      refine ⟨hp, ?_⟩
      intro s₂ h₂
      obtain rfl : s₁ = s₂ := Except.ok.inj (h₁.symm.trans h₂)
      have hI₁ := hI past s o s₁ h₀ hL₀ hp hQ.1 h₁
      refine (ih (past ++ [o]) hI₁ hL₁ (hQ.2 s₁ h₁) hrest).mp ?_
      intro os₁ os₂ s₂ hos hrun₂
      rw [← hlater]
      exact hall (o :: os₁) os₂ s₂ (by rw [hos]; rfl) (by rw [run_cons_ok h₁]; exact hrun₂)
    · rintro ⟨hp, hrest'⟩ os₁ os₂ s₂ hos hrun₂
      have hL₁ := (hL past s o s₁ h₀ hL₀ hQ.1 h₁).mpr hp
      have hI₁ := hI past s o s₁ h₀ hL₀ hp hQ.1 h₁
      cases os₁ with
      | nil =>
        cases hrun₂
        rwa [List.append_nil]
      | cons o' os₁ =>
        obtain ⟨rfl, hos'⟩ := List.cons.inj hos
        rw [run_cons_ok h₁] at hrun₂
        rw [hlater]
        exact (ih (past ++ [o]) hI₁ hL₁ (hQ.2 s₁ h₁) hrest).mpr (hrest' s₁ h₁) os₁ os₂ s₂ hos' hrun₂

/-- The same for a law of the state alone, with nothing assumed of the steps. -/
theorem along_iff_states {I L : σ → Prop}
    (hI : ∀ s o s', I s → L s → P s o → step s o = .ok s' → I s')
    (hL : ∀ s o s', I s → L s → step s o = .ok s' → (L s' ↔ P s o)) (h₀ : I s) (hL₀ : L s)
    (hrun : run step s os = .ok s'') :
    (∀ os₁ os₂ s₁, os = os₁ ++ os₂ → run step s os₁ = .ok s₁ → L s₁) ↔ Along step P s os :=
  along_iff_prefixes (I := fun _ => I) (L := fun _ => L) (Q := fun _ _ => True) []
    (fun _ s o s' hI' hL' hp _ => hI s o s' hI' hL' hp) (fun _ s o s' hI' hL' _ => hL s o s' hI' hL')
    h₀ hL₀ (along_of_forall fun _ _ _ => trivial) hrun

/-- The same where a step may also fail: the run ends, and the law holds in all its states, exactly
when all its steps meet `P`. Failing with `e₀` is the caller's doing, and is left out. -/
theorem along_iff_ends_of {I L : List ω → σ → Prop} {e₀ : ε} (past : List ω)
    (hI : ∀ os s o s', I os s → L os s → P s o → Q s o → step s o = .ok s' → I (os ++ [o]) s')
    (hL : ∀ os s o, I os s → L os s → Q s o → step s o ≠ .error e₀ →
      ((∃ s', step s o = .ok s' ∧ L (os ++ [o]) s') ↔ P s o))
    (h₀ : I past s) (hL₀ : L past s) (hQ : Along step Q s os) (hrun : run step s os ≠ .error e₀) :
    ((∃ s', run step s os = .ok s') ∧
        ∀ os₁ os₂ s₁, os = os₁ ++ os₂ → run step s os₁ = .ok s₁ → L (past ++ os₁) s₁) ↔
      Along step P s os := by
  induction os generalizing s past with
  | nil =>
    refine ⟨fun _ => trivial, fun _ => ⟨⟨s, rfl⟩, ?_⟩⟩
    intro os₁ os₂ s₁ hos hrun₁
    obtain ⟨rfl, -⟩ := List.append_eq_nil_iff.mp hos.symm
    cases hrun₁
    rwa [List.append_nil]
  | cons o os ih =>
    have hlater : ∀ os₁, past ++ o :: os₁ = past ++ [o] ++ os₁ := fun os₁ => by simp
    have hok : step s o ≠ .error e₀ := by
      intro hfail
      exact hrun (by rw [run, hfail])
    have hrest : ∀ s₁, step s o = .ok s₁ → run step s₁ os ≠ .error e₀ := by
      intro s₁ h₁ hfail
      exact hrun (by rw [run_cons_ok h₁, hfail])
    constructor
    · rintro ⟨⟨s', hends⟩, hall⟩
      obtain ⟨s₁, h₁, h₂⟩ := run_cons_eq_ok.mp hends
      have hL₁ : L (past ++ [o]) s₁ := hall [o] os s₁ rfl (by rw [run_cons_ok h₁]; rfl)
      have hp := (hL past s o h₀ hL₀ hQ.1 hok).mp ⟨s₁, h₁, hL₁⟩
      refine ⟨hp, ?_⟩
      intro s₂ h₂'
      obtain rfl : s₁ = s₂ := Except.ok.inj (h₁.symm.trans h₂')
      have hI₁ := hI past s o s₁ h₀ hL₀ hp hQ.1 h₁
      refine (ih (past ++ [o]) hI₁ hL₁ (hQ.2 s₁ h₁) (hrest s₁ h₁)).mp ⟨⟨s', h₂⟩, ?_⟩
      intro os₁ os₂ s₂ hos hrun₂
      rw [← hlater]
      exact hall (o :: os₁) os₂ s₂ (by rw [hos]; rfl) (by rw [run_cons_ok h₁]; exact hrun₂)
    · rintro ⟨hp, hp'⟩
      obtain ⟨s₁, h₁, hL₁⟩ := (hL past s o h₀ hL₀ hQ.1 hok).mpr hp
      have hI₁ := hI past s o s₁ h₀ hL₀ hp hQ.1 h₁
      obtain ⟨⟨s', hends⟩, hall⟩ :=
        (ih (past ++ [o]) hI₁ hL₁ (hQ.2 s₁ h₁) (hrest s₁ h₁)).mpr (hp' s₁ h₁)
      refine ⟨⟨s', by rw [run_cons_ok h₁]; exact hends⟩, ?_⟩
      intro os₁ os₂ s₂ hos hrun₂
      cases os₁ with
      | nil =>
        cases hrun₂
        rwa [List.append_nil]
      | cons o' os₁ =>
        obtain ⟨rfl, hos'⟩ := List.cons.inj hos
        rw [run_cons_ok h₁] at hrun₂
        rw [hlater]
        exact hall os₁ os₂ s₂ hos' hrun₂

/-- The same with nothing assumed of the steps. -/
theorem along_iff_ends {I L : List ω → σ → Prop} {e₀ : ε} (past : List ω)
    (hI : ∀ os s o s', I os s → L os s → P s o → step s o = .ok s' → I (os ++ [o]) s')
    (hL : ∀ os s o, I os s → L os s → step s o ≠ .error e₀ →
      ((∃ s', step s o = .ok s' ∧ L (os ++ [o]) s') ↔ P s o))
    (h₀ : I past s) (hL₀ : L past s) (hrun : run step s os ≠ .error e₀) :
    ((∃ s', run step s os = .ok s') ∧
        ∀ os₁ os₂ s₁, os = os₁ ++ os₂ → run step s os₁ = .ok s₁ → L (past ++ os₁) s₁) ↔
      Along step P s os :=
  along_iff_ends_of (Q := fun _ _ => True) past (fun os s o s' hI' hL' hp _ => hI os s o s' hI' hL' hp)
    (fun os s o hI' hL' _ => hL os s o hI' hL') h₀ hL₀ (along_of_forall fun _ _ _ => trivial) hrun

/-! ## Components -/

theorem Along.append (h : Along step P s os) (h' : ∀ s', run step s os = .ok s' → Along step P s' os') :
    Along step P s (os ++ os') := by
  induction os generalizing s with
  | nil => exact h' s rfl
  | cons o os ih =>
    refine ⟨h.1, fun s₁ h₁ => ih (h.2 s₁ h₁) ?_⟩
    intro s' hrun
    exact h' s' (by rw [run_cons_ok h₁]; exact hrun)

theorem mem_emitted {α : Type*} {note : σ → ω → List α} {a : α} (h : a ∈ emitted step note s os) :
    ∃ s₁, ∃ o ∈ os, a ∈ note s₁ o := by
  induction os generalizing s with
  | nil => cases h
  | cons o os ih =>
    cases hok : step s o with
    | error e =>
      simp only [emitted, hok] at h
      cases h
    | ok s₁ =>
      simp only [emitted, hok] at h
      rcases List.mem_append.mp h with h | h
      · exact ⟨s, o, List.mem_cons_self, h⟩
      · obtain ⟨s₂, o₂, ho₂, h⟩ := ih h
        exact ⟨s₂, o₂, List.mem_cons_of_mem _ ho₂, h⟩

theorem length_emitted_le {α : Type*} {note : σ → ω → List α} (hnote : ∀ s o, (note s o).length ≤ 1) :
    (emitted step note s os).length ≤ os.length := by
  induction os generalizing s with
  | nil => exact Nat.le_refl _
  | cons o os ih =>
    cases hok : step s o with
    | error e =>
      simp only [emitted, hok]
      exact Nat.zero_le _
    | ok s₁ =>
      have hhead := hnote s o
      have hrest := ih (s := s₁)
      simp only [emitted, hok, List.length_append, List.length_cons]
      omega

section

variable {ρ ω' : Type*} {step' : ρ → ω' → Except ε ρ} (view : σ → ρ) {note : σ → ω → List ω'}

/-- A component, whose operations are noted: it goes through a run of its own. -/
theorem run_projects
    (hstep : ∀ s o s', step s o = .ok s' → run step' (view s) (note s o) = .ok (view s'))
    (h : run step s os = .ok s') : run step' (view s) (emitted step note s os) = .ok (view s') := by
  induction os generalizing s with
  | nil => cases h; rfl
  | cons o os ih =>
    obtain ⟨s₁, h₁, h₂⟩ := run_cons_eq_ok.mp h
    simp only [emitted, h₁]
    exact run_append.mpr ⟨view s₁, hstep s o s₁ h₁, ih h₂⟩

/-- What is asked of the component's operations. -/
theorem along_projects {P' : ρ → ω' → Prop}
    (hstep : ∀ s o s', step s o = .ok s' → run step' (view s) (note s o) = .ok (view s'))
    (hP : ∀ s o, P s o → Along step' P' (view s) (note s o)) (h : Along step P s os) :
    Along step' P' (view s) (emitted step note s os) := by
  induction os generalizing s with
  | nil => trivial
  | cons o os ih =>
    cases hok : step s o with
    | error e =>
      simp only [emitted, hok]
      trivial
    | ok s₁ =>
      simp only [emitted, hok]
      refine (hP s o h.1).append ?_
      intro r hr
      obtain rfl : view s₁ = r := Except.ok.inj ((hstep s o s₁ hok).symm.trans hr)
      exact ih (h.2 s₁ hok)

/-- What the component's operations are known to meet. -/
theorem along_of_projects {P' : ρ → ω' → Prop}
    (hstep : ∀ s o s', step s o = .ok s' → run step' (view s) (note s o) = .ok (view s'))
    (hrun : run step s os = .ok s') (h : Along step' P' (view s) (emitted step note s os)) :
    Along step (fun s o => Along step' P' (view s) (note s o)) s os := by
  induction os generalizing s with
  | nil => trivial
  | cons o os ih =>
    obtain ⟨s₁, h₁, h₂⟩ := run_cons_eq_ok.mp hrun
    simp only [emitted, h₁] at h
    obtain ⟨hnow, hlater⟩ := along_append h
    exact along_cons hnow h₁ (ih h₂ (hlater (view s₁) (hstep s o s₁ h₁)))

end

/-- A run on given inputs, computed. -/
theorem exists_ok_of_decide {p : σ → Prop} [DecidablePred p] {r : Except ε σ}
    (h : (match r with | .ok s => decide (p s) | .error _ => false) = true) :
    ∃ s, r = .ok s ∧ p s := by
  cases r with
  | ok s => exact ⟨s, rfl, of_decide_eq_true h⟩
  | error e => cases h

end Lib
