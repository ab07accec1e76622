import Taskio.Async.AsyncFn

/-!
# The coroutine macros implement sequential code

* `pollBlocks_next` — with the counter at the next block, a poll does what the program does next
* `coroutine_sequential` — in every run of polls the coroutine does what the program does
* `coroutine_restarts` — after 2^64 polls past its last block the counter is back at the first
-/

namespace Taskio

variable {E F : Type} {blocks : List (Block E F)} {bs rest : List (Block E F × Nat)}
  {s : AsyncFn E F} {c c' : AsyncFnRun E F} {r r' : Sequential E F} {first resumed : AwaitPoll E}
  {con k : Nat} {o : AsyncFnOp E} {os : List (AsyncFnOp E)}

/-! ## One poll -/

/-- The blocks before the one that the counter points at are passed. -/
theorem pollBlocks_skip (hcounter : con + k < s.counter) (hlt : s.counter < 2 ^ 64) :
    pollBlocks s first con bs = pollBlocks s first (con + k) (bs.drop k) := by
  induction k generalizing con bs with
  | zero => rfl
  | succ k ih =>
    cases bs with
    | nil => simp [pollBlocks]
    | cons b bs =>
      have hinc : sizeInc con = con + 1 := sizeInc_of_lt (by omega)
      have hne : con + 1 ≠ s.counter := by omega
      have hpass : pollBlocks s first con (b :: bs) = pollBlocks s first (con + 1) bs := by
        obtain ⟨block, i⟩ := b
        cases block with
        | scope body =>
          rw [pollBlocks]
          simp only [hinc, if_neg hne]
        | scopeWhile cond body =>
          rw [pollBlocks]
          simp only [hinc, if_neg hne]
      rw [hpass, ih (by omega), List.drop_succ_cons]
      congr 1
      omega

theorem asyncFnPoll_none (h : s.awaitFuture = none) (resumed : AwaitPoll E) :
    asyncFnPoll blocks s resumed first = pollBlocks s first 0 blocks.zipIdx := by
  simp only [asyncFnPoll, asyncFnBegin, h]

/-- The awaited future is not ready. -/
theorem asyncFnPoll_wait {future : F} (h : s.awaitFuture = some future)
    (hmark : futureClrVal ≠ s.counter) (hpoll : resumed.poll ≠ .ready) :
    asyncFnPoll blocks s resumed first =
      ({ s with env := resumed.effect s.env, counter := sizeDec s.counter }, .pending) := by
  simp only [asyncFnPoll, asyncFnBegin, h, if_neg hmark]
  cases hp : resumed.poll with
  | ready => exact absurd hp hpoll
  | undefined | pending => rfl

/-- The awaited future is ready, and the poll goes on. -/
theorem asyncFnPoll_resume {future : F} (h : s.awaitFuture = some future)
    (hmark : futureClrVal ≠ s.counter) (hpoll : resumed.poll = .ready) :
    asyncFnPoll blocks s resumed first =
      pollBlocks { s with
        env := resumed.effect s.env
        cleanedUp := s.cleanedUp ++ [future]
        awaitFuture := none } first 0 blocks.zipIdx := by
  simp only [asyncFnPoll, asyncFnBegin, h, if_neg hmark, hpoll]

variable (resumed first) in
/-- No block runs in the clean-up. -/
theorem asyncFnPoll_cleanup (hmark : s.counter = futureClrVal)
    (hlength : blocks.length < futureClrVal) :
    ∃ cleanedUp, (asyncFnPoll blocks s resumed first).1 = { s with cleanedUp := cleanedUp } := by
  have hskip : ∀ s₁ : AsyncFn E F, s₁.counter = futureClrVal →
      (pollBlocks s₁ first 0 blocks.zipIdx).1 = s₁ := by
    intro s₁ hmark₁
    have hcounter : 0 + blocks.length < s₁.counter := by omega
    have hnil : blocks.zipIdx.drop blocks.length = [] :=
      List.drop_eq_nil_of_le (Nat.le_of_eq List.length_zipIdx)
    rw [pollBlocks_skip hcounter (by rw [hmark₁]; decide), hnil]
    rfl
  rcases Option.eq_none_or_eq_some s.awaitFuture with hawait | ⟨future, hawait⟩
  · rw [asyncFnPoll_none hawait, hskip s hmark]
    exact ⟨s.cleanedUp, rfl⟩
  · refine ⟨s.cleanedUp ++ [future], ?_⟩
    rw [asyncFnPoll, asyncFnBegin, hawait]
    simp only [if_pos hmark.symm]
    exact hskip _ hmark

/-- What a poll that reached the blocks has in common with the program's step. -/
structure PollAgrees (bs : List (Block E F × Nat)) (con : Nat) (answers : List FuturePoll)
    (p : AsyncFn E F × FuturePoll) (r' : Sequential E F) : Prop where
  env : p.1.env = r'.env
  bodies : p.1.bodies = r'.bodies
  awaits : p.1.awaitFuture = r'.awaits
  answers : r'.answers = answers ++ [p.2]
  ended : r'.ended = decide (p.2 = .ready)
  place : ∃ j ≤ bs.length, r'.rest = bs.drop j ∧
    p.1.counter = con + j + (if p.2 = .undefined then 1 else 0) ∧ (p.2 = .undefined → j = bs.length)

/-- The end of a body, with the counter at the next block. -/
theorem blockEnd_goOn (s : AsyncFn E F) (r : Sequential E F) (bs : List (Block E F × Nat)) {j : Nat}
    (henv : s.env = r.env) (hbodies : s.bodies = r.bodies) (hawaits : s.awaitFuture = none)
    (hawaits' : r.awaits = none) (hj : j ≤ bs.length) (hcounter : s.counter = con + j)
    (e : BlockEnd F) :
    PollAgrees bs con r.answers (blockEnd s first e) (r.goOn first (bs.drop j) e) := by
  have hnone : s.awaitFuture = r.awaits := hawaits.trans hawaits'.symm
  cases e with
  | yield | suspendedYield => exact ⟨henv, hbodies, hnone, rfl, rfl, j, hj, rfl, hcounter, nofun⟩
  | asyncReturn => exact ⟨henv, hbodies, hnone, rfl, rfl, j, hj, rfl, hcounter, nofun⟩
  | await future =>
    have heffect : first.effect s.env = first.effect r.env := by rw [henv]
    unfold blockEnd awaitGet Sequential.goOn
    cases hpoll : first.poll with
    | ready => exact ⟨heffect, hbodies, hawaits'.symm, rfl, rfl, j, hj, rfl, hcounter, nofun⟩
    | pending | undefined => exact ⟨heffect, hbodies, rfl, rfl, rfl, j, hj, rfl, hcounter, nofun⟩

variable (first) in
theorem pollBlocks_next (henv : s.env = r.env) (hbodies : s.bodies = r.bodies)
    (hawaits : s.awaitFuture = none) (hawaits' : r.awaits = none) (hcounter : s.counter = con + 1)
    (hbound : con + bs.length + 2 < 2 ^ 64) :
    PollAgrees bs con r.answers (pollBlocks s first con bs) (r.next first bs) := by
  induction bs generalizing con s r with
  | nil => exact ⟨henv, hbodies, hawaits.trans hawaits'.symm, rfl, rfl, 0, Nat.le_refl _, rfl, hcounter,
      fun _ => rfl⟩
  | cons b bs ih =>
    have hlength : (b :: bs).length = bs.length + 1 := rfl
    have hinc : sizeInc con = con + 1 := sizeInc_of_lt (by omega)
    obtain ⟨block, i⟩ := b
    cases block with
    | scope body =>
      rw [pollBlocks, Sequential.next]
      simp only [hinc, if_pos hcounter.symm]
      rw [henv]
      have hran : (s.ran i (body r.env).1).bodies = (r.ran i (body r.env).1).bodies :=
        congrArg (· ++ [i]) hbodies
      exact blockEnd_goOn (s.ran i (body r.env).1) (r.ran i (body r.env).1)
        ((.scope body, i) :: bs) rfl hran hawaits hawaits' (Nat.le_add_left 1 _) hcounter
        (body r.env).2
    | scopeWhile cond body =>
      rw [pollBlocks, Sequential.next]
      simp only [hinc, if_pos hcounter.symm]
      rw [henv]
      cases hholds : (cond r.env).1 with
      | true =>
        -- the counter steps back, so that the condition is tested again
        have hdec : sizeDec s.counter = con := by
          rw [sizeDec_of_pos (by omega), hcounter, Nat.add_sub_cancel]
        simp only [if_true, hdec]
        cases hbody : (body (cond r.env).2).2 with
        | ends e =>
          have hran : s.bodies ++ [i] = r.bodies ++ [i] := congrArg (· ++ [i]) hbodies
          exact blockEnd_goOn
            (AsyncFn.ran { s with env := (cond r.env).2, counter := con } i (body (cond r.env).2).1)
            (Sequential.ran { r with env := (cond r.env).2 } i (body (cond r.env).2).1)
            ((.scopeWhile cond body, i) :: bs) rfl hran hawaits hawaits' (Nat.zero_le _) rfl e
        | asyncBreak =>
          have hrest : bs = (((Block.scopeWhile cond body, i) :: bs).drop 1) := rfl
          exact ⟨rfl, congrArg (· ++ [i]) hbodies, hawaits.trans hawaits'.symm, rfl, rfl, 1,
            Nat.le_add_left 1 _, hrest, hinc, nofun⟩
      | false =>
        have hnext : sizeInc s.counter = con + 1 + 1 := by
          rw [hcounter, sizeInc_of_lt (by omega)]
        simp only [Bool.false_eq_true, if_false]
        obtain ⟨h1, h2, h3, h4, h5, j, hj, hrest, hplace, hend⟩ :=
          ih (s := { s with env := (cond r.env).2, counter := sizeInc s.counter })
            (r := { r with env := (cond r.env).2 }) rfl hbodies hawaits hawaits' hnext (by omega)
        refine ⟨h1, h2, h3, h4, h5, j + 1, Nat.succ_le_succ hj, hrest, ?_, ?_⟩
        · rw [hplace]
          omega
        · intro hp
          rw [hend hp]
          rfl

variable (first) in
/-- A poll that gets to the blocks. Past the last block nothing runs, and the counter goes on. -/
theorem pollBlocks_sim {n : Nat} (henv : s.env = r.env) (hbodies : s.bodies = r.bodies)
    (hawaits : s.awaitFuture = none) (hawaits' : r.awaits = none) (hk : k ≤ blocks.length)
    (hcounter : s.counter = k + n + 1) (hn : 0 < n → k = blocks.length)
    (hbound : blocks.length + n + 2 < 2 ^ 64) :
    PollAgrees blocks.zipIdx n r.answers (pollBlocks s first 0 blocks.zipIdx)
      (r.next first (blocks.zipIdx.drop k)) ∧
    (0 < n → (pollBlocks s first 0 blocks.zipIdx).2 = .undefined) := by
  have hlength : blocks.zipIdx.length = blocks.length := List.length_zipIdx
  rw [pollBlocks_skip (k := k) (by omega) (by omega), Nat.zero_add]
  by_cases hzero : n = 0
  · subst hzero
    have hdrop : (blocks.zipIdx.drop k).length = blocks.length - k := by
      rw [List.length_drop, hlength]
    have hrange : k + (blocks.zipIdx.drop k).length + 2 < 2 ^ 64 := by omega
    obtain ⟨h1, h2, h3, h4, h5, j, hj, hrest, hplace, hend⟩ :=
      pollBlocks_next first henv hbodies hawaits hawaits' hcounter hrange
    refine ⟨⟨h1, h2, h3, h4, h5, k + j, by omega, ?_, by rw [hplace]; omega, ?_⟩,
      fun hpos => absurd hpos (Nat.lt_irrefl 0)⟩
    · rw [hrest, List.drop_drop]
    · intro hp
      rw [hend hp]
      omega
  · have hlast : k = blocks.length := hn (by omega)
    have hnil : blocks.zipIdx.drop k = [] := List.drop_eq_nil_of_le (by omega)
    rw [hnil]
    refine ⟨⟨henv, hbodies, hawaits.trans hawaits'.symm, rfl, rfl, k, by omega, hnil.symm, ?_,
      fun _ => by omega⟩, fun _ => rfl⟩
    show s.counter = n + k + 1
    omega

/-! ## Steps -/

/-- The coroutine has done what the program did. -/
structure Follows (c : AsyncFnRun E F) (r : Sequential E F) : Prop where
  env : c.fn.env = r.env
  bodies : c.fn.bodies = r.bodies
  awaits : c.fn.awaitFuture = r.awaits
  ended : c.ended = r.ended
  answers : c.answers = r.answers

/-- And the counter is at the next block, or past the last one by the polls made there. -/
structure FnSim (blocks : List (Block E F)) (c : AsyncFnRun E F) (r : Sequential E F) : Prop extends
    Follows c r where
  place : ∃ k ≤ blocks.length, r.rest = blocks.zipIdx.drop k ∧
    (c.ended = false → c.fn.counter = k + c.answers.count .undefined) ∧
    (0 < c.answers.count .undefined → k = blocks.length)

/-- The counter stays below the clean-up mark. -/
def InRange (blocks : List (Block E F)) (c : AsyncFnRun E F) : Prop :=
  blocks.length + c.answers.count .undefined + 2 < 2 ^ 64

theorem inRange_back (h : asyncFnStep blocks c o = .ok c') (hrange : InRange blocks c') :
    InRange blocks c := by
  unfold InRange at *
  cases o with
  | poll resumed first =>
    simp only [asyncFnStep] at h
    split at h
    · cases h
    · cases h
      simp only [List.count_append] at hrange
      omega
  | cleanup =>
    simp only [asyncFnStep] at h
    split at h
    · cases h
    · cases h
      exact hrange

/-- A poll whose blocks agree with the program. -/
theorem fnSim_of_agrees {p : AsyncFn E F × FuturePoll} (hanswers : c.answers = r.answers)
    (h : PollAgrees blocks.zipIdx (c.answers.count .undefined) r.answers p r')
    (hpast : 0 < c.answers.count .undefined → p.2 = .undefined) :
    FnSim blocks ⟨p.1, p.2 = .ready, c.answers ++ [p.2]⟩ r' := by
  obtain ⟨henv, hbodies, hawaits, hanswers', hended, j, hj, hrest, hcounter, hend⟩ := h
  have hlength : blocks.zipIdx.length = blocks.length := List.length_zipIdx
  have hcount : (c.answers ++ [p.2]).count .undefined =
      c.answers.count .undefined + if p.2 = .undefined then 1 else 0 := by
    rw [List.count_append, List.count_singleton]
    simp only [beq_iff_eq]
  refine ⟨⟨henv, hbodies, hawaits, hended.symm, by rw [hanswers', hanswers]⟩, j, by omega, hrest,
    ?_, ?_⟩
  · intro _
    show p.1.counter = j + (c.answers ++ [p.2]).count .undefined
    rw [hcounter, hcount]
    omega
  · intro hpos
    have hundefined : p.2 = .undefined := by
      by_cases hbefore : 0 < c.answers.count .undefined
      · exact hpast hbefore
      · by_contra hnot
        have hpos' : 0 < (c.answers ++ [p.2]).count .undefined := hpos
        rw [hcount, if_neg hnot] at hpos'
        omega
    rw [hend hundefined, hlength]

theorem fnSim_poll (h : FnSim blocks c r) (hrange : InRange blocks c) (hended : c.ended = false)
    (resumed first : AwaitPoll E) :
    ∃ c' r', asyncFnStep blocks c (.poll resumed first) = .ok c' ∧
      sequentialStep r (.poll resumed first) = .ok r' ∧ FnSim blocks c' r' := by
  obtain ⟨⟨henv, hbodies, hawaits, hends, hanswers⟩, k, hk, hrest, hcounter, hpast⟩ := h
  unfold InRange at hrange
  have hlive : r.ended = false := hends.symm.trans hended
  -- the future as the poller leaves it
  obtain ⟨fn, hfn⟩ : ∃ fn, fn = { c.fn with counter := sizeInc c.fn.counter } := ⟨_, rfl⟩
  have hinc : fn.counter = k + c.answers.count .undefined + 1 := by
    rw [hfn]
    show sizeInc c.fn.counter = _
    rw [hcounter hended, sizeInc_of_lt (by omega)]
  have henv : fn.env = r.env := by rw [hfn, ← henv]
  have hbodies : fn.bodies = r.bodies := by rw [hfn, ← hbodies]
  have hawaits : fn.awaitFuture = r.awaits := by rw [hfn, ← hawaits]
  have hmark : futureClrVal ≠ fn.counter := by
    unfold futureClrVal
    omega
  simp only [asyncFnStep, sequentialStep, hended, hlive, Bool.false_eq_true, if_false, hrest, ← hfn]
  rcases Option.eq_none_or_eq_some fn.awaitFuture with hawait | ⟨future, hawait⟩
  · have hawait' : r.awaits = none := hawaits.symm.trans hawait
    obtain ⟨hagrees, hundefined⟩ := pollBlocks_sim first henv hbodies hawait hawait' hk hinc hpast
      hrange
    rw [asyncFnPoll_none hawait, hawait']
    exact ⟨_, _, rfl, rfl, fnSim_of_agrees hanswers hagrees hundefined⟩
  · have hawait' : r.awaits = some future := hawaits.symm.trans hawait
    rw [hawait']
    by_cases hpoll : resumed.poll = .ready
    · obtain ⟨hagrees, hundefined⟩ :=
        pollBlocks_sim first (s := { fn with
            env := resumed.effect fn.env
            cleanedUp := fn.cleanedUp ++ [future]
            awaitFuture := none })
          (r := { r with
            rest := blocks.zipIdx.drop k
            env := resumed.effect r.env
            awaits := none
            ended := false })
          (congrArg resumed.effect henv) hbodies rfl rfl hk hinc hpast hrange
      rw [asyncFnPoll_resume hawait hmark hpoll]
      simp only [if_pos hpoll]
      exact ⟨_, _, rfl, rfl, fnSim_of_agrees hanswers hagrees hundefined⟩
    · rw [asyncFnPoll_wait hawait hmark hpoll]
      simp only [if_neg hpoll]
      have hcount : (c.answers ++ [FuturePoll.pending]).count .undefined =
          c.answers.count .undefined := by simp
      refine ⟨_, _, rfl, rfl, ⟨congrArg resumed.effect henv, hbodies, hawait, rfl,
        congrArg (· ++ [FuturePoll.pending]) hanswers⟩, k, hk, rfl, ?_, ?_⟩
      · intro _
        show sizeDec fn.counter = k + (c.answers ++ [FuturePoll.pending]).count .undefined
        rw [hcount, hinc, sizeDec_of_pos (by omega)]
        rfl
      · intro hpos
        have hpos' : 0 < (c.answers ++ [FuturePoll.pending]).count .undefined := hpos
        rw [hcount] at hpos'
        exact hpast hpos'

theorem fnSim_step (h : FnSim blocks c r) (hok : asyncFnStep blocks c o = .ok c')
    (hrange : InRange blocks c') : ∃ r', sequentialStep r o = .ok r' ∧ FnSim blocks c' r' := by
  have hrange := inRange_back hok hrange
  cases hended : c.ended with
  | true =>
    cases o with
    | poll | cleanup =>
      simp only [asyncFnStep, hended, if_true] at hok
      cases hok
  | false =>
    cases o with
    | poll resumed first =>
      obtain ⟨c₁, r₁, hc, hr, hsim⟩ := fnSim_poll h hrange hended resumed first
      rw [hok] at hc
      cases hc
      exact ⟨r₁, hr, hsim⟩
    | cleanup =>
      obtain ⟨⟨henv, hbodies, hawaits, hends, hanswers⟩, k, hk, hrest, -, hpast⟩ := h
      have hlive : r.ended = false := hends.symm.trans hended
      have hlength : blocks.length < futureClrVal := by
        unfold InRange at hrange
        unfold futureClrVal
        omega
      simp only [asyncFnStep, hended, Bool.false_eq_true, if_false, Except.ok.injEq] at hok
      simp only [sequentialStep, hlive, Bool.false_eq_true, if_false]
      subst hok
      obtain ⟨cleanedUp, hfn⟩ := asyncFnPoll_cleanup ⟨.undefined, id⟩ ⟨.undefined, id⟩
        (s := { c.fn with counter := futureClrVal }) rfl hlength
      rw [hfn]
      exact ⟨_, rfl, ⟨henv, hbodies, hawaits, rfl, hanswers⟩, k, hk, hrest, nofun, hpast⟩

/-! ## Runs -/

theorem goOn_bodies (r : Sequential E F) (first : AwaitPoll E) (rest : List (Block E F × Nat))
    (e : BlockEnd F) : (r.goOn first rest e).bodies = r.bodies := by
  cases e with
  | yield | suspendedYield | asyncReturn => rfl
  | await future =>
    unfold Sequential.goOn
    cases first.poll <;> rfl

/-- The program runs one body at a time. -/
theorem next_bodies (r : Sequential E F) (first : AwaitPoll E) (rest : List (Block E F × Nat)) :
    (r.next first rest).bodies = r.bodies ∨ ∃ i, (r.next first rest).bodies = r.bodies ++ [i] := by
  induction rest generalizing r with
  | nil => exact Or.inl rfl
  | cons b rest ih =>
    obtain ⟨block, i⟩ := b
    cases block with
    | scope body => exact Or.inr ⟨i, goOn_bodies _ _ _ _⟩
    | scopeWhile cond body =>
      rw [Sequential.next]
      by_cases hholds : (cond r.env).1 = true
      · simp only [if_pos hholds]
        refine Or.inr ⟨i, ?_⟩
        cases (body (cond r.env).2).2 with
        | ends e => exact goOn_bodies _ _ _ _
        | asyncBreak => rfl
      · simp only [if_neg hholds]
        exact ih { r with env := (cond r.env).2 }

theorem sequential_poll (h : sequentialStep r (.poll resumed first) = .ok r') :
    (r'.bodies = r.bodies ∨ ∃ i, r'.bodies = r.bodies ++ [i]) ∧
      (r.awaits ≠ none → resumed.poll ≠ .ready →
        r'.bodies = r.bodies ∧ r'.answers = r.answers ++ [.pending]) := by
  simp only [sequentialStep] at h
  split at h
  · cases h
  · split at h
    · rename_i hawait
      cases h
      exact ⟨next_bodies r first r.rest, fun hsome => absurd hawait hsome⟩
    · split at h
      · rename_i hpoll
        cases h
        exact ⟨next_bodies _ first r.rest, fun _ hnot => absurd hpoll hnot⟩
      · cases h
        exact ⟨Or.inl rfl, fun _ _ => ⟨rfl, rfl⟩⟩

theorem fnSim_run {env : E} (hrun : Lib.run (asyncFnStep blocks) (asyncFnRun env) os = .ok c)
    (hrange : InRange blocks c) :
    ∃ r, Lib.run sequentialStep (sequential blocks env) os = .ok r ∧ FnSim blocks c r := by
  refine Lib.run_simulates (B := InRange blocks) (fun _ _ _ hok => inRange_back hok)
    (fun _ _ _ _ hsim hok hrange => fnSim_step hsim hok hrange) ?_ hrange hrun
  exact ⟨⟨rfl, rfl, rfl, rfl, rfl⟩, 0, Nat.zero_le _, rfl, fun _ => rfl, nofun⟩

/--
**The macros implement sequential code.** In every run of polls that leaves the counter below the
clean-up mark, the coroutine runs the bodies that the program runs, in the same order on the same
environments, and waits where it waits. A poll runs at most one body, and none while the awaited
future is not ready.
-/
theorem coroutine_sequential {env : E}
    (hrun : Lib.run (asyncFnStep blocks) (asyncFnRun env) os = .ok c) (hrange : InRange blocks c) :
    (∃ r, Lib.run sequentialStep (sequential blocks env) os = .ok r ∧ Follows c r) ∧
      ∀ os₁ resumed first os₂ c₁ c₂, os = os₁ ++ .poll resumed first :: os₂ →
        Lib.run (asyncFnStep blocks) (asyncFnRun env) os₁ = .ok c₁ →
        asyncFnStep blocks c₁ (.poll resumed first) = .ok c₂ →
        (c₂.fn.bodies = c₁.fn.bodies ∨ ∃ i, c₂.fn.bodies = c₁.fn.bodies ++ [i]) ∧
          (c₁.fn.awaitFuture ≠ none → resumed.poll ≠ .ready →
            c₂.fn.bodies = c₁.fn.bodies ∧ c₂.answers = c₁.answers ++ [.pending]) := by
  constructor
  · obtain ⟨r, hr, hsim⟩ := fnSim_run hrun hrange
    exact ⟨r, hr, hsim.toFollows⟩
  · intro os₁ resumed first os₂ c₁ c₂ hos hrun₁ hstep
    -- the run goes on from the poll, so the counter was in range there
    have hrange₂ : InRange blocks c₂ := by
      rw [hos] at hrun
      obtain ⟨c₁', hrun₁', hrest⟩ := Lib.run_append.mp hrun
      obtain rfl : c₁ = c₁' := Except.ok.inj (hrun₁.symm.trans hrun₁')
      obtain ⟨c₂', hstep', hrest⟩ := Lib.run_cons_eq_ok.mp hrest
      obtain rfl : c₂ = c₂' := Except.ok.inj (hstep.symm.trans hstep')
      exact Lib.run_back (B := InRange blocks) (fun _ _ _ hok => inRange_back hok) hrange hrest
    obtain ⟨r₁, -, hsim₁⟩ := fnSim_run hrun₁ (inRange_back hstep hrange₂)
    obtain ⟨r₂, hr₂, hsim₂⟩ := fnSim_step hsim₁ hstep hrange₂
    have hpoll := sequential_poll hr₂
    rwa [← hsim₁.bodies, ← hsim₂.bodies, ← hsim₁.awaits, ← hsim₁.answers, ← hsim₂.answers] at hpoll

/-- Two loops and a return, with an awaited future that is pending and ready later, and one that is
ready at once. -/
theorem coroutine_sequential_loops : ∃ c, Lib.run
      (asyncFnStep [.scopeWhile (fun n => (n < 2, n)) fun n => (n + 1, .ends (.await n)),
        .scopeWhile (fun n => (true, n)) fun n =>
          if 3 ≤ n then (n, .asyncBreak) else (n + 1, .ends .yield),
        .scope fun n => (n, .asyncReturn)])
      (asyncFnRun (F := Nat) 0)
      [.poll ⟨.pending, id⟩ ⟨.pending, id⟩, .poll ⟨.undefined, id⟩ ⟨.pending, id⟩,
        .poll ⟨.ready, id⟩ ⟨.ready, id⟩, .poll ⟨.pending, id⟩ ⟨.pending, id⟩,
        .poll ⟨.pending, id⟩ ⟨.pending, id⟩, .poll ⟨.pending, id⟩ ⟨.pending, id⟩] = .ok c ∧
    c.fn.bodies = [0, 0, 1, 1, 2] ∧
    ∃ r, r.bodies = c.fn.bodies ∧ Follows c r := by
  obtain ⟨c, hrun, hbodies, hcount⟩ : ∃ c, Lib.run
      (asyncFnStep [.scopeWhile (fun n => (n < 2, n)) fun n => (n + 1, .ends (.await n)),
        .scopeWhile (fun n => (true, n)) fun n =>
          if 3 ≤ n then (n, .asyncBreak) else (n + 1, .ends .yield),
        .scope fun n => (n, .asyncReturn)])
      (asyncFnRun (F := Nat) 0)
      [.poll ⟨.pending, id⟩ ⟨.pending, id⟩, .poll ⟨.undefined, id⟩ ⟨.pending, id⟩,
        .poll ⟨.ready, id⟩ ⟨.ready, id⟩, .poll ⟨.pending, id⟩ ⟨.pending, id⟩,
        .poll ⟨.pending, id⟩ ⟨.pending, id⟩, .poll ⟨.pending, id⟩ ⟨.pending, id⟩] = .ok c ∧
      c.fn.bodies = [0, 0, 1, 1, 2] ∧ c.answers.count .undefined = 0 :=
    Lib.exists_ok_of_decide (by decide)
  obtain ⟨⟨r, -, hfollows⟩, -⟩ := coroutine_sequential hrun (by rw [InRange, hcount]; decide)
  exact ⟨c, hrun, hbodies, r, hfollows.bodies.symm, hfollows⟩

/-! ## Past the last block -/

/-- A body of one block that yields, over an environment of no use. -/
def yieldBlock : List (Block Unit Unit) := [.scope fun e => (e, .yield)]

def pendingPoll : AsyncFnOp Unit := .poll ⟨.pending, id⟩ ⟨.pending, id⟩

/-- While the counter stays past the block, nothing runs and it goes on. -/
theorem yieldBlock_past (n : Nat) {c : AsyncFnRun Unit Unit} (hended : c.ended = false)
    (hawait : c.fn.awaitFuture = none) (hpos : 0 < c.fn.counter)
    (hlt : c.fn.counter + n < 2 ^ 64) :
    ∃ c', Lib.run (asyncFnStep yieldBlock) c (List.replicate n pendingPoll) = .ok c' ∧
      c'.ended = false ∧ c'.fn.awaitFuture = none ∧ c'.fn.counter = c.fn.counter + n ∧
      c'.fn.bodies = c.fn.bodies := by
  induction n generalizing c with
  | zero => exact ⟨c, rfl, hended, hawait, rfl, rfl⟩
  | succ n ih =>
    obtain ⟨fn, hfn⟩ : ∃ fn, fn = { c.fn with counter := sizeInc c.fn.counter } := ⟨_, rfl⟩
    have hcounter : fn.counter = c.fn.counter + 1 := by
      rw [hfn]
      exact sizeInc_of_lt (by omega)
    have hpoll : asyncFnPoll yieldBlock fn ⟨.pending, id⟩ ⟨.pending, id⟩ = (fn, .undefined) := by
      have hawait' : fn.awaitFuture = none := by rw [hfn, ← hawait]
      rw [asyncFnPoll_none hawait', pollBlocks_skip (k := 1) (by omega) (by omega)]
      rfl
    have hstep : asyncFnStep yieldBlock c pendingPoll =
        .ok ⟨fn, false, c.answers ++ [.undefined]⟩ := by
      simp only [pendingPoll, asyncFnStep, hended, Bool.false_eq_true, if_false, ← hfn, hpoll]
      rfl
    obtain ⟨c', hrun, hended', hawait', hcounter', hbodies'⟩ :=
      ih (c := ⟨fn, false, c.answers ++ [.undefined]⟩) rfl (by rw [hfn]; exact hawait)
        (by show 0 < fn.counter; omega) (by show fn.counter + n < 2 ^ 64; omega)
    refine ⟨c', ?_, hended', hawait', ?_, ?_⟩
    · rw [List.replicate_succ, Lib.run_cons_ok hstep]
      exact hrun
    · rw [hcounter']
      show fn.counter + n = _
      omega
    · rw [hbodies', hfn]

/-- The program has ended. -/
theorem sequential_past (n : Nat) {r : Sequential Unit Unit} (hended : r.ended = false)
    (hawait : r.awaits = none) (hrest : r.rest = []) :
    ∃ r', Lib.run sequentialStep r (List.replicate n pendingPoll) = .ok r' ∧ r'.bodies = r.bodies := by
  induction n generalizing r with
  | zero => exact ⟨r, rfl, rfl⟩
  | succ n ih =>
    have hstep : sequentialStep r pendingPoll = .ok (r.stop [] .undefined) := by
      simp only [pendingPoll, sequentialStep, hended, hawait, hrest, Bool.false_eq_true, if_false]
      rfl
    obtain ⟨r', hrun, hbodies⟩ := ih (r := r.stop [] .undefined) rfl hawait rfl
    exact ⟨r', by rw [List.replicate_succ, Lib.run_cons_ok hstep]; exact hrun, hbodies⟩

/-- After 2^64 polls past the last block the first body runs again. -/
theorem coroutine_restarts : ∃ c r,
    Lib.run (asyncFnStep yieldBlock) (asyncFnRun ()) (List.replicate (2 ^ 64 + 1) pendingPoll) = .ok c ∧
      Lib.run sequentialStep (sequential yieldBlock ()) (List.replicate (2 ^ 64 + 1) pendingPoll) =
        .ok r ∧
      c.fn.bodies = [0, 0] ∧ r.bodies = [0] := by
  have hsplit : List.replicate (2 ^ 64 + 1) pendingPoll =
      pendingPoll :: (List.replicate (2 ^ 64 - 2) pendingPoll ++ [pendingPoll, pendingPoll]) := by
    have htwo : [pendingPoll, pendingPoll] = List.replicate 2 pendingPoll := rfl
    have hlength : 2 ^ 64 - 2 + 2 + 1 = 2 ^ 64 + 1 := by omega
    rw [htwo, List.replicate_append_replicate, ← List.replicate_succ, hlength]
  -- the only body runs in the first poll
  obtain ⟨c₁, hfirst, hended, hawait, hcounter, hbodies⟩ : ∃ c₁,
      asyncFnStep yieldBlock (asyncFnRun ()) pendingPoll = .ok c₁ ∧ c₁.ended = false ∧
        c₁.fn.awaitFuture = none ∧ c₁.fn.counter = 1 ∧ c₁.fn.bodies = [0] :=
    ⟨_, rfl, rfl, rfl, rfl, rfl⟩
  obtain ⟨c₂, hpast, hended₂, hawait₂, hcounter₂, hbodies₂⟩ :=
    yieldBlock_past (2 ^ 64 - 2) hended hawait (by omega) (by omega)
  rw [hbodies] at hbodies₂
  have hmark : c₂.fn.counter = 2 ^ 64 - 1 := by omega
  -- the next poll wraps the counter to 0, and the one after it finds the block again
  obtain ⟨c₃, hlast, hbodies₃⟩ : ∃ c₃,
      Lib.run (asyncFnStep yieldBlock) c₂ [pendingPoll, pendingPoll] = .ok c₃ ∧
        c₃.fn.bodies = [0, 0] := by
    obtain ⟨⟨counter, await, env, bodies, wakes, cleanedUp⟩, ended, answers⟩ := c₂
    obtain rfl : counter = 2 ^ 64 - 1 := hmark
    obtain rfl : await = none := hawait₂
    obtain rfl : ended = false := hended₂
    obtain rfl : bodies = [0] := hbodies₂
    exact ⟨_, rfl, rfl⟩
  obtain ⟨r₁, hfirst', hended', hawait', hrest', hbodies'⟩ : ∃ r₁,
      sequentialStep (sequential yieldBlock ()) pendingPoll = .ok r₁ ∧ r₁.ended = false ∧
        r₁.awaits = none ∧ r₁.rest = [] ∧ r₁.bodies = [0] := ⟨_, rfl, rfl, rfl, rfl, rfl⟩
  obtain ⟨r₂, hrun', hbodies₂'⟩ := sequential_past (2 ^ 64) hended' hawait' hrest'
  refine ⟨c₃, r₂, ?_, ?_, hbodies₃, hbodies₂'.trans hbodies'⟩
  · rw [hsplit, Lib.run_cons_ok hfirst]
    exact Lib.run_append.mpr ⟨c₂, hpast, hlast⟩
  · rw [List.replicate_succ, Lib.run_cons_ok hfirst']
    exact hrun'

end Taskio