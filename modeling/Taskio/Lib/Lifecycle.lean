import Mathlib.Algebra.Order.Group.Multiset

/-!
# Resources that are opened, lent and closed

A history of events is accounted for by tokens. A resource that is opened gets a token, which is spent
by closing it; while a resource depends on another one its token says so, and it can be given back or
closed only when the other one is closed. Tokens add up: what is proved of a part of a system holds
beside any other part (`Accounts.frame`).

* `Accounts.closes_eq_opens` — when all that is left is closed, as many closes as opens
* `Accounts.not_used_after` — nothing is used after it was closed
* `Accounts.closed_before` — a resource is closed after those it depended on
-/

namespace Lib

variable {α ε : Type*}

/-- What an event does to the resources. -/
inductive Role (α : Type*) where
  | opens (x : α)
  | uses (x : α)
  /-- `p` comes to depend on `c` -/
  | lends (p c : α)
  /-- `p` no longer depends on `c` -/
  | returns (p c : α)
  | closes (x : α)
  | silent
deriving DecidableEq

inductive Token (α : Type*) where
  | alive (x : α)
  /-- `p` is open and depends on `c` -/
  | held (p c : α)
  | gone (x : α)
deriving DecidableEq

namespace Token

def owner : Token α → α
  | .alive x => x
  | .held p _ => p
  | .gone x => x

def IsGone : Token α → Prop
  | .gone _ => True
  | .alive _ | .held _ _ => False

end Token

/-- What an event of this role does to the tokens. -/
inductive Settles : Multiset (Token α) → Role α → Multiset (Token α) → Prop
  | opens (x : α) (m : Multiset (Token α)) : Settles m (.opens x) (.alive x ::ₘ m)
  | uses (x : α) (m : Multiset (Token α)) : Settles (.alive x ::ₘ m) (.uses x) (.alive x ::ₘ m)
  | usesHeld (p c : α) (m : Multiset (Token α)) :
      Settles (.held p c ::ₘ m) (.uses p) (.held p c ::ₘ m)
  | lends (p c : α) (m : Multiset (Token α)) :
      Settles (.alive p ::ₘ m) (.lends p c) (.held p c ::ₘ m)
  | returns (p c : α) (m : Multiset (Token α)) :
      Settles (.held p c ::ₘ .gone c ::ₘ m) (.returns p c) (.alive p ::ₘ .gone c ::ₘ m)
  | closes (x : α) (m : Multiset (Token α)) : Settles (.alive x ::ₘ m) (.closes x) (.gone x ::ₘ m)
  | closesHeld (p c : α) (m : Multiset (Token α)) :
      Settles (.held p c ::ₘ .gone c ::ₘ m) (.closes p) (.gone p ::ₘ .gone c ::ₘ m)
  | silent (m : Multiset (Token α)) : Settles m .silent m

/-- The tokens before and after a list of events. -/
inductive Accounts (role : ε → Role α) :
    Multiset (Token α) → List ε → Multiset (Token α) → Prop
  | nil (m : Multiset (Token α)) : Accounts role m [] m
  | cons {m m₁ m' : Multiset (Token α)} {e : ε} {es : List ε} (h : Settles m (role e) m₁)
      (hrest : Accounts role m₁ es m') : Accounts role m (e :: es) m'

variable {role : ε → Role α} {m m₁ m' k : Multiset (Token α)} {r : Role α} {e : ε} {es es' : List ε}
  {x p c : α}

/-! ## Composition -/

theorem Settles.frame (h : Settles m r m') (k : Multiset (Token α)) : Settles (m + k) r (m' + k) := by
  cases h with
  | opens x m => exact Multiset.cons_add _ m k ▸ .opens x (m + k)
  | uses x m => exact Multiset.cons_add _ m k ▸ .uses x (m + k)
  | usesHeld p c m => exact Multiset.cons_add _ m k ▸ .usesHeld p c (m + k)
  | lends p c m =>
    rw [Multiset.cons_add, Multiset.cons_add]
    exact .lends p c (m + k)
  | returns p c m =>
    simp only [Multiset.cons_add]
    exact .returns p c (m + k)
  | closes x m =>
    rw [Multiset.cons_add, Multiset.cons_add]
    exact .closes x (m + k)
  | closesHeld p c m =>
    simp only [Multiset.cons_add]
    exact .closesHeld p c (m + k)
  | silent m => exact .silent (m + k)

/-- What a resource depended on is among the rest. -/
theorem settles_returns (h : .gone c ∈ m) :
    Settles (.held p c ::ₘ m) (.returns p c) (.alive p ::ₘ m) := by
  obtain ⟨k, rfl⟩ := Multiset.exists_cons_of_mem h
  exact .returns p c k

theorem Accounts.frame (h : Accounts role m es m') (k : Multiset (Token α)) :
    Accounts role (m + k) es (m' + k) := by
  induction h with
  | nil m => exact .nil (m + k)
  | cons h _ ih => exact .cons (h.frame k) ih

theorem Accounts.append (h : Accounts role m es m₁) (h' : Accounts role m₁ es' m') :
    Accounts role m (es ++ es') m' := by
  induction h with
  | nil m => exact h'
  | cons h _ ih => exact .cons h (ih h')

theorem Accounts.split (h : Accounts role m (es ++ es') m') :
    ∃ m₁, Accounts role m es m₁ ∧ Accounts role m₁ es' m' := by
  induction es generalizing m with
  | nil => exact ⟨m, .nil m, h⟩
  | cons e es ih =>
    cases h with
    | cons hsettles hrest =>
      obtain ⟨m₁, h₁, h₂⟩ := ih hrest
      exact ⟨m₁, .cons hsettles h₁, h₂⟩

theorem Accounts.one (h : Settles m (role e) m') : Accounts role m [e] m' := .cons h (.nil m')

/-- Parts that are accounted for one after the other. -/
theorem Accounts.flatMap {ι : Type*} {l : List ι} {f g : ι → Multiset (Token α)} {events : ι → List ε}
    (h : ∀ i ∈ l, Accounts role (f i) (events i) (g i)) :
    Accounts role (l.map f).sum (l.flatMap events) (l.map g).sum := by
  induction l with
  | nil => exact .nil 0
  | cons i l ih =>
    obtain ⟨hi, hl⟩ := List.forall_mem_cons.mp h
    simp only [List.map_cons, List.sum_cons, List.flatMap_cons]
    refine (hi.frame (l.map f).sum).append ?_
    rw [add_comm (g i), add_comm (g i)]
    exact (ih hl).frame (g i)

/-- Nothing is open. -/
def AllGone (m : Multiset (Token α)) : Prop := ∀ t ∈ m, t.IsGone

theorem allGone_zero : AllGone (0 : Multiset (Token α)) :=
  fun _ ht => absurd ht (Multiset.notMem_zero _)

theorem allGone_cons : AllGone (.gone x ::ₘ m) ↔ AllGone m := by
  simp [AllGone, Token.IsGone]

theorem AllGone.add (h : AllGone m) (h' : AllGone m') : AllGone (m + m') := by
  intro t ht
  rcases Multiset.mem_add.mp ht with ht | ht
  · exact h t ht
  · exact h' t ht

theorem allGone_sum {ι : Type*} {l : List ι} {f : ι → Multiset (Token α)}
    (h : ∀ i ∈ l, AllGone (f i)) : AllGone (l.map f).sum := by
  induction l with
  | nil => exact allGone_zero
  | cons i l ih =>
    obtain ⟨hi, hl⟩ := List.forall_mem_cons.mp h
    rw [List.map_cons, List.sum_cons]
    exact hi.add (ih hl)

/-! ## What the tokens count -/

section Counts

variable [DecidableEq α]

/-- The tokens of a resource: one for each time it was opened. -/
def owned (m : Multiset (Token α)) (x : α) : Nat := m.countP (·.owner = x)

@[simp] theorem owned_cons (t : Token α) (m : Multiset (Token α)) :
    owned (t ::ₘ m) x = owned m x + if t.owner = x then 1 else 0 := Multiset.countP_cons ..

theorem Settles.owned_eq (h : Settles m r m') :
    owned m' x = owned m x + if r = .opens x then 1 else 0 := by
  cases h <;> simp [Token.owner] <;> congr

theorem Settles.gone_eq (h : Settles m r m') :
    m'.count (.gone x) = m.count (.gone x) + if r = .closes x then 1 else 0 := by
  cases h <;> simp [Multiset.count_cons, eq_comm, add_right_comm]

theorem Accounts.owned_eq (h : Accounts role m es m') :
    owned m' x = owned m x + es.countP (role · = .opens x) := by
  induction h with
  | nil m => rfl
  | cons h _ ih =>
    rw [ih, h.owned_eq, List.countP_cons, add_assoc, Nat.add_comm (List.countP _ _)]
    simp only [decide_eq_true_eq]

theorem Accounts.gone_eq (h : Accounts role m es m') :
    m'.count (.gone x) = m.count (.gone x) + es.countP (role · = .closes x) := by
  induction h with
  | nil m => rfl
  | cons h _ ih =>
    rw [ih, h.gone_eq, List.countP_cons, add_assoc, Nat.add_comm (List.countP _ _)]
    simp only [decide_eq_true_eq]

/-- Two tokens of one resource are two. -/
theorem two_le_owned (t t' : Token α) (hne : t' ≠ t) (hx : t.owner = x) (hx' : t'.owner = x)
    (ht : t ∈ m) (ht' : t' ∈ m) : 2 ≤ owned m x := by
  obtain ⟨k, rfl⟩ := Multiset.exists_cons_of_mem ht
  have hk : t' ∈ k := (Multiset.mem_cons.mp ht').resolve_left hne
  have hpos : 0 < owned k x := Multiset.countP_pos.mpr ⟨t', hk, hx'⟩
  rw [owned_cons, if_pos hx]
  omega

end Counts

/-! ## What follows for the history -/

/-- What is used, lent or closed is open. -/
theorem Settles.isOpen (h : Settles m r m')
    (hr : r = .uses x ∨ r = .closes x ∨ ∃ c, r = .lends x c) :
    ∃ t ∈ m, t.owner = x ∧ ¬ t.IsGone := by
  cases h <;> simp_all [Token.owner, Token.IsGone]

/-- The token of a dependence is kept until the other resource is closed. -/
theorem Settles.held (h : Settles m r m') (hheld : .held p c ∈ m ∨ .gone c ∈ m) :
    .held p c ∈ m' ∨ .gone c ∈ m' := by
  cases h <;> simp_all <;> tauto

theorem Accounts.held (h : Accounts role m es m') (hheld : .held p c ∈ m ∨ .gone c ∈ m) :
    .held p c ∈ m' ∨ .gone c ∈ m' := by
  induction h with
  | nil m => exact hheld
  | cons h _ ih => exact ih (h.held hheld)

section History

variable [DecidableEq α] {before after : List ε}

/-- **When all that is left is closed, every resource was closed as often as it was opened.** -/
theorem Accounts.closes_eq_opens (h : Accounts role 0 es m) (hgone : AllGone m) (x : α) :
    es.countP (role · = .closes x) = es.countP (role · = .opens x) := by
  have howned : owned m x = _ := h.owned_eq
  have hcount : m.count (.gone x) = _ := h.gone_eq
  have hsame : owned m x = m.count (.gone x) := by
    rw [owned, Multiset.count]
    refine Multiset.countP_congr rfl ?_
    intro t ht
    have := hgone t ht
    cases t with
    | gone y => simp [Token.owner, eq_comm]
    | alive y => exact absurd this (by simp [Token.IsGone])
    | held y c => exact absurd this (by simp [Token.IsGone])
  rw [hsame, hcount] at howned
  simpa [owned] using howned

/-- A resource that is closed and then again open was opened twice. -/
theorem Accounts.two_le_opens (h : Accounts role 0 es m) (hclosed : ∃ e ∈ es, role e = .closes x)
    {t : Token α} (ht : t ∈ m) (hx : t.owner = x) (hopen : ¬ t.IsGone) :
    2 ≤ es.countP (role · = .opens x) := by
  obtain ⟨e, he, hrole⟩ := hclosed
  have hgone : .gone x ∈ m := by
    rw [← Multiset.count_pos, h.gone_eq]
    have hpos : 0 < es.countP (role · = .closes x) :=
      List.countP_pos_iff.mpr ⟨e, he, decide_eq_true hrole⟩
    omega
  have htwo : 2 ≤ owned m x :=
    two_le_owned (.gone x) t (fun heq => hopen (heq ▸ trivial)) rfl hx hgone ht
  rw [h.owned_eq] at htwo
  simpa [owned] using htwo

/-- **Nothing is used after it was closed**, if it is opened once. -/
theorem Accounts.not_used_after (h : Accounts role 0 (before ++ e :: after) m)
    (hclose : role e = .closes x)
    (honce : (before ++ e :: after).countP (role · = .opens x) ≤ 1) :
    ∀ e' ∈ after, role e' ≠ .uses x ∧ role e' ≠ .closes x ∧ ∀ c, role e' ≠ .lends x c := by
  intro e' he'
  obtain ⟨mid, rest, rfl⟩ := List.append_of_mem he'
  have hlist : before ++ e :: (mid ++ e' :: rest) = (before ++ e :: mid) ++ e' :: rest := by simp
  rw [hlist] at h honce
  obtain ⟨m₁, h₁, h₂⟩ := h.split
  by_contra hcon
  have hr : role e' = .uses x ∨ role e' = .closes x ∨ ∃ c, role e' = .lends x c := by
    by_contra hnone
    push Not at hnone
    exact hcon hnone
  cases h₂ with
  | cons hsettles hrest =>
    obtain ⟨t, ht, hx, hopen⟩ := hsettles.isOpen hr
    have htwo := h₁.two_le_opens ⟨e, by simp, hclose⟩ ht hx hopen
    rw [List.countP_append] at honce
    omega

/-- **A resource is closed after those that it depended on**, if it is opened once. -/
theorem Accounts.closed_before (h : Accounts role 0 (before ++ e :: after) m)
    (hclose : role e = .closes p) (honce : (before ++ e :: after).countP (role · = .opens p) ≤ 1)
    (hlent : ∃ e' ∈ before ++ e :: after, role e' = .lends p c) :
    ∃ e' ∈ before, role e' = .closes c := by
  obtain ⟨e', he', hrole⟩ := hlent
  -- it was lent before it was closed
  have hmem : e' ∈ before := by
    rcases List.mem_append.mp he' with hb | ha
    · exact hb
    rcases List.mem_cons.mp ha with rfl | ha
    · rw [hclose] at hrole
      cases hrole
    · exact absurd hrole ((h.not_used_after hclose honce e' ha).2.2 c)
  obtain ⟨a, b, rfl⟩ := List.append_of_mem hmem
  obtain ⟨m₁, h₁, h₂⟩ := h.split
  obtain ⟨ma, ha, hb⟩ := h₁.split
  have hheld : .held p c ∈ m₁ ∨ .gone c ∈ m₁ := by
    cases hb with
    | cons hsettles hrest =>
      refine hrest.held (Or.inl ?_)
      rw [hrole] at hsettles
      cases hsettles
      simp
  -- closing it takes the token that says what it depends on, for it has no other one
  have hgone : .gone c ∈ m₁ := by
    rcases hheld with hheld | hgone
    · cases h₂ with
      | cons hsettles hrest =>
        rw [hclose] at hsettles
        have hone : owned m₁ p ≤ 1 := by
          rw [h₁.owned_eq]
          rw [List.countP_append] at honce
          simp only [owned, Multiset.countP_zero]
          omega
        cases hsettles with
        | closes _ m =>
          have htwo : 2 ≤ owned (.alive p ::ₘ m) p :=
            two_le_owned (.held p c) (.alive p) (by simp) rfl rfl hheld (Multiset.mem_cons_self ..)
          omega
        | closesHeld _ c' m =>
          by_cases hc : c' = c
          · subst hc
            simp
          · have htwo : 2 ≤ owned (.held p c' ::ₘ .gone c' ::ₘ m) p :=
              two_le_owned (.held p c) (.held p c') (by simpa using hc) rfl rfl hheld
                (Multiset.mem_cons_self ..)
            omega
    · exact hgone
  have hpos := Multiset.count_pos.mpr hgone
  rw [h₁.gone_eq, Multiset.count_zero, zero_add, List.countP_pos_iff] at hpos
  obtain ⟨e'', he'', hrole''⟩ := hpos
  exact ⟨e'', he'', of_decide_eq_true hrole''⟩

end History

end Lib
