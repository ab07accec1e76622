import Mathlib.Algebra.BigOperators.Group.List.Basic
import Taskio.Lib.Lifecycle
import Taskio.Common.JoinCounter
import Taskio.Async.FutureTree

/-!
# Who has to clean up what

At every moment each future that was made and is not yet cleaned up is owned by exactly one node of
the tree or by one poll in progress. The owners are counted with the tokens of `Lib.Lifecycle`.

* `Future.tokens`, `TreeRun.tokens` — what is owned
* `cleanup_accounts` — a clean-up closes all that a future owns
-/

namespace Taskio

open Lib (Token Role Accounts AllGone allGone_zero allGone_cons allGone_sum)

/-! ## Tokens -/

def TreeEvent.role : TreeEvent → Role Nat
  | .given x => .opens x
  | .polled x => .uses x
  | .awaits p x => .lends p x
  | .passed p x _ => .returns p x
  | .handled _ => .silent
  | .cleanedUp x => .closes x

namespace Future

/-- What is to be cleaned up with the future. -/
def tokens : Future → Multiset (Token Nat)
  | .fn name | .sleep name _ _ _ => {.alive name}
  | .waiting name awaitFuture => .held name awaitFuture.name ::ₘ awaitFuture.tokens
  | .join name _ ext futures => .alive name ::ₘ (ext.kept.map fun i => (futures i).tokens).sum

/-- The joins in the tree are between two polls, and their counters are right. -/
def Owned : Future → Prop
  | .fn _ | .sleep _ _ _ _ => True
  | .waiting _ awaitFuture => awaitFuture.Owned
  | .join _ _ ext futures => CountsReady ext ∧ ext.busy = none ∧ ∀ i < ext.len, (futures i).Owned

end Future

def keptTokens (ext : JoinExt (List Nat)) (futures : Nat → Future) : Multiset (Token Nat) :=
  (ext.kept.map fun i => (futures i).tokens).sum

/-- The children that a join owns, also while it polls one. -/
structure OwnsChildren (ext : JoinExt (List Nat)) (futures : Nat → Future) : Prop where
  counts : CountsReady ext
  children : ∀ i < ext.len, (futures i).Owned

variable {f f' : Future} {name i : Nat} {kind : JoinKind} {ext ext' : JoinExt (List Nat)}
  {futures futures' : Nat → Future} {path : List Nat} {stack stack' : List Frame}

theorem tokens_join :
    (Future.join name kind ext futures).tokens = .alive name ::ₘ keptTokens ext futures := rfl

theorem owned_join : (Future.join name kind ext futures).Owned ↔
    OwnsChildren ext futures ∧ ext.busy = none :=
  ⟨fun ⟨h, hbusy, hall⟩ => ⟨⟨h, hall⟩, hbusy⟩, fun ⟨⟨h, hall⟩, hbusy⟩ => ⟨h, hbusy, hall⟩⟩

theorem keptTokens_congr (hkept : ext'.kept = ext.kept)
    (hfutures : ∀ i, (futures' i).tokens = (futures i).tokens) :
    keptTokens ext' futures' = keptTokens ext futures := by
  rw [keptTokens, keptTokens, hkept]
  simp only [hfutures]

/-- What the join has for a child that is busy does not count. -/
theorem keptTokens_update (hbusy : ext.busy = some i) (f : Future) :
    keptTokens ext (Function.update futures i f) = keptTokens ext futures := by
  rw [keptTokens, keptTokens]
  congr 1
  refine List.map_congr_left ?_
  intro j hj
  have hji : j ≠ i := fun he => (mem_kept.mp hj).2 (he ▸ hbusy)
  rw [Function.update_of_ne hji]

/-- The child that is busy owns its own. -/
theorem keptTokens_busy (ext ext' : JoinExt (List Nat)) (futures : Nat → Future) (f : Future)
    (hfutures : ext'.futures = ext.futures) (hnone : ext.busy = none)
    (hbusy : ext'.busy = some i) (hi : ext.futures[i]? = some true) :
    keptTokens ext (Function.update futures i f) = f.tokens + keptTokens ext' futures := by
  have hperm := (kept_perm hfutures hnone hbusy hi).map fun j => (Function.update futures i f j).tokens
  rw [keptTokens, hperm.sum_eq, List.map_cons, List.sum_cons, Function.update_self]
  exact congrArg _ (keptTokens_update hbusy f)

theorem OwnsChildren.update (h : OwnsChildren ext futures) (hcounts : CountsReady ext')
    (hlen : ext'.len = ext.len) (hf : f.Owned) :
    OwnsChildren ext' (Function.update futures i f) := by
  refine ⟨hcounts, ?_⟩
  intro j hj
  rw [Function.update_apply]
  split
  · exact hf
  · exact h.children j (hlen ▸ hj)

/-! ## What is made, and what is cleaned up -/

@[simp] theorem name_returns (f : FutureFn) : f.returns.name = f.name := by cases f <;> rfl

theorem kept_joinExt (len : Nat) (env : E) : (joinExt len env).kept = List.range len := by
  have hlen : (joinExt len env).len = len := by simp [JoinExt.len, joinExt, joinTasks]
  rw [JoinExt.kept, hlen]
  refine List.filter_eq_self.mpr ?_
  intro i hi
  have hi := List.mem_range.mp hi
  simp [JoinExt.futures, joinExt, joinTasks, hi, JoinExt.busy]

theorem owned_returns (f : FutureFn) : f.returns.Owned := by
  induction f with
  | asyncFn name => trivial
  | sleep name ms => trivial
  | join name kind len args ih => exact ⟨countsReady_init len [], rfl, fun i _ => ih i⟩

/-- A future that is made is owned, with what it is made of. -/
theorem given_accounts (f : FutureFn) : Accounts TreeEvent.role 0 f.given f.returns.tokens := by
  induction f with
  | asyncFn name => exact .one (.opens name 0)
  | sleep name ms => exact .one (.opens name 0)
  | join name kind len args ih =>
    have hargs := Accounts.flatMap (l := List.range len) fun i _ => ih i
    rw [List.sum_map_zero] at hargs
    have hframe := hargs.frame {.alive name}
    rw [zero_add, add_comm, Multiset.singleton_add] at hframe
    refine .cons (.opens name 0) ?_
    rw [FutureFn.returns, tokens_join, keptTokens, kept_joinExt]
    exact hframe

/-- **A clean-up closes all that the future owns.** -/
theorem cleanup_accounts (h : f.Owned) : ∃ gone, AllGone gone ∧ .gone f.name ∈ gone ∧
    Accounts TreeEvent.role f.tokens f.cleanup gone := by
  induction f with
  | fn name =>
    exact ⟨.gone name ::ₘ 0, allGone_cons.mpr allGone_zero, Multiset.mem_cons_self ..,
      .one (.closes name 0)⟩
  | sleep name ms scope handled =>
    exact ⟨.gone name ::ₘ 0, allGone_cons.mpr allGone_zero, Multiset.mem_cons_self ..,
      .one (.closes name 0)⟩
  | waiting name awaitFuture ih =>
    obtain ⟨gone, hgone, hmem, haccounts⟩ := ih h
    obtain ⟨gone, rfl⟩ := Multiset.exists_cons_of_mem hmem
    refine ⟨.gone name ::ₘ .gone awaitFuture.name ::ₘ gone, allGone_cons.mpr hgone,
      Multiset.mem_cons_self .., ?_⟩
    have hframe := haccounts.frame {.held name awaitFuture.name}
    rw [add_comm, Multiset.singleton_add, add_comm, Multiset.singleton_add] at hframe
    exact hframe.append (.one (.closesHeld name awaitFuture.name gone))
  | join name kind ext futures ih =>
    obtain ⟨hcounts, hbusy, hall⟩ := h
    have hchild : ∀ i, ∃ gone, i ∈ ext.kept → AllGone gone ∧
        Accounts TreeEvent.role (futures i).tokens (futures i).cleanup gone := by
      intro i
      by_cases hi : i ∈ ext.kept
      · obtain ⟨gone, hgone, -, haccounts⟩ :=
          ih i (hall i (List.mem_range.mp (List.mem_of_mem_filter hi)))
        exact ⟨gone, fun _ => ⟨hgone, haccounts⟩⟩
      · exact ⟨0, fun hmem => absurd hmem hi⟩
    choose gone hgone using hchild
    refine ⟨.gone name ::ₘ (ext.kept.map gone).sum,
      allGone_cons.mpr (allGone_sum fun i hi => (hgone i hi).1), Multiset.mem_cons_self .., ?_⟩
    refine .cons (.closes name _) ?_
    rw [joinPending_eq_kept hcounts hbusy]
    have hframe := (Accounts.flatMap fun i hi => (hgone i hi).2).frame {.gone name}
    rwa [add_comm, Multiset.singleton_add, add_comm, Multiset.singleton_add] at hframe

/-- A poll is of a future that is not cleaned up. -/
theorem polled_accounts (f : Future) :
    Accounts TreeEvent.role f.tokens [.polled f.name] f.tokens := by
  cases f with
  | fn name => exact .one (.uses name 0)
  | waiting name awaitFuture => exact .one (.usesHeld name _ _)
  | sleep name ms scope handled => exact .one (.uses name 0)
  | join name kind ext futures => exact .one (.uses name _)

end Taskio
