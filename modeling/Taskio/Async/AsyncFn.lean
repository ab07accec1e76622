import Taskio.Lib.Run
import Taskio.Future

/-!
# `async.h`: the coroutine macros

The body of an `async_fn` is a list of `async_scope` and `async_scope_while` blocks. One integer, the
counter of the future, says which block is next: the poller adds one to it, and the macros count the
blocks up to it.

What an awaited future answers is not fixed, and neither is what its polls do to the environment
(they write its output there): each poll of the coroutine is given both, for the poll of a future
that was awaited before, and for the first poll of one that is awaited in this poll.
-/

namespace Taskio

/-! ## Bodies -/

/-- What the body of an `async_scope` ends in. -/
inductive BlockEnd (F : Type) where
  | yield
  | suspendedYield
  | await (future : F)
  | asyncReturn

/-- What the body of an `async_scope_while` ends in. -/
inductive WhileEnd (F : Type) where
  | ends (e : BlockEnd F)
  | asyncBreak

/-- A block, over the environment `E` and the futures `F`. -/
inductive Block (E F : Type) where
  | scope (body : E → E × BlockEnd F)
  | scopeWhile (cond : E → Bool × E) (body : E → E × WhileEnd F)

/-- What a poll of an awaited future answers, and what it does to the environment. -/
structure AwaitPoll (E : Type) where
  poll : FuturePoll
  effect : E → E

/-- `struct taskio_future` with its environment. `bodies` records the blocks whose bodies ran, `wakes`
counts the calls of the context's waker, and `cleanedUp` the awaited futures that were cleaned up. -/
structure AsyncFn (E F : Type) where
  counter : Nat
  awaitFuture : Option F
  env : E
  bodies : List Nat
  wakes : Nat
  cleanedUp : List F

variable {E F : Type}

namespace AsyncFn

def ran (s : AsyncFn E F) (i : Nat) (env : E) : AsyncFn E F :=
  { s with env := env, bodies := s.bodies ++ [i] }

end AsyncFn

/-! ## Macros -/

/-- `yield`. -/
def yieldPoll (s : AsyncFn E F) : AsyncFn E F × FuturePoll := ({ s with wakes := s.wakes + 1 }, .pending)

/-- `async_fn_begin`. It may end the poll. -/
def asyncFnBegin (s : AsyncFn E F) (resumed : AwaitPoll E) : AsyncFn E F × Option FuturePoll :=
  match s.awaitFuture with
  | none => (s, none)
  | some future =>
    if futureClrVal = s.counter then ({ s with cleanedUp := s.cleanedUp ++ [future] }, none)
    else
      let s := { s with env := resumed.effect s.env }
      match resumed.poll with
      | .undefined | .pending => ({ s with counter := sizeDec s.counter }, some .pending)
      | .ready => ({ s with cleanedUp := s.cleanedUp ++ [future], awaitFuture := none }, none)

/-- `await_get`. -/
def awaitGet (s : AsyncFn E F) (future : F) (first : AwaitPoll E) : AsyncFn E F × FuturePoll :=
  let s := { s with awaitFuture := some future, env := first.effect s.env }
  match first.poll with
  | .undefined | .pending => (s, .pending)
  | .ready => yieldPoll { s with cleanedUp := s.cleanedUp ++ [future], awaitFuture := none }

def blockEnd (s : AsyncFn E F) (first : AwaitPoll E) : BlockEnd F → AsyncFn E F × FuturePoll
  | .yield => yieldPoll s
  | .suspendedYield => (s, .pending)
  | .await future => awaitGet s future first
  | .asyncReturn => (s, .ready)

def whileEnd (s : AsyncFn E F) (first : AwaitPoll E) : WhileEnd F → AsyncFn E F × FuturePoll
  | .ends e => blockEnd s first e
  | .asyncBreak => yieldPoll { s with counter := sizeInc s.counter }

/-- The blocks, each with its place, from the count `con` on. -/
def pollBlocks (s : AsyncFn E F) (first : AwaitPoll E) :
    Nat → List (Block E F × Nat) → AsyncFn E F × FuturePoll
  | _, [] => (s, .undefined)
  | con, (.scope body, i) :: blocks =>
    let con := sizeInc con
    if con = s.counter then
      let (env, e) := body s.env
      blockEnd (s.ran i env) first e
    else pollBlocks s first con blocks
  | con, (.scopeWhile cond body, i) :: blocks =>
    let con := sizeInc con
    if con = s.counter then
      let (holds, env) := cond s.env
      let s := { s with env := env }
      if holds then
        let s := { s with counter := sizeDec s.counter }
        let (env, e) := body s.env
        whileEnd (s.ran i env) first e
      else pollBlocks { s with counter := sizeInc s.counter } first con blocks
    else pollBlocks s first con blocks

/-- The poll function that `async_fn` defines. -/
def asyncFnPoll (blocks : List (Block E F)) (s : AsyncFn E F) (resumed first : AwaitPoll E) :
    AsyncFn E F × FuturePoll :=
  match asyncFnBegin s resumed with
  | (s, some poll) => (s, poll)
  | (s, none) => pollBlocks s first 0 blocks.zipIdx

/-- `return_future_fn`. -/
def returnFutureFn (env : E) : AsyncFn E F :=
  { counter := 0, awaitFuture := none, env := env, bodies := [], wakes := 0, cleanedUp := [] }

/-! ## Steps -/

/-- A coroutine, whether it has returned or was cleaned up, and its answers. -/
structure AsyncFnRun (E F : Type) where
  fn : AsyncFn E F
  ended : Bool
  answers : List FuturePoll

inductive AsyncFnOp (E : Type) where
  | poll (resumed first : AwaitPoll E)
  | cleanup

def asyncFnRun (env : E) : AsyncFnRun E F := { fn := returnFutureFn env, ended := false, answers := [] }

/-- The poller adds one to the counter, or sets it to the clean-up mark. -/
def asyncFnStep (blocks : List (Block E F)) (s : AsyncFnRun E F) :
    AsyncFnOp E → Except Fault (AsyncFnRun E F)
  | .poll resumed first =>
    if s.ended then .error .noSuchCall
    else
      let (fn, poll) := asyncFnPoll blocks { s.fn with counter := sizeInc s.fn.counter } resumed first
      .ok { fn := fn, ended := poll = .ready, answers := s.answers ++ [poll] }
  | .cleanup =>
    if s.ended then .error .noSuchCall
    else
      let still : AwaitPoll E := ⟨.undefined, id⟩
      let (fn, _) := asyncFnPoll blocks { s.fn with counter := futureClrVal } still still
      .ok { s with fn := fn, ended := true }

/-! ## The program as written -/

/-- The blocks as sequential code: what is left of them, and whether the program waits for a future. -/
structure Sequential (E F : Type) where
  rest : List (Block E F × Nat)
  awaits : Option F
  env : E
  bodies : List Nat
  ended : Bool
  answers : List FuturePoll

def sequential (blocks : List (Block E F)) (env : E) : Sequential E F :=
  { rest := blocks.zipIdx, awaits := none, env := env, bodies := [], ended := false, answers := [] }

namespace Sequential

def ran (s : Sequential E F) (i : Nat) (env : E) : Sequential E F :=
  { s with env := env, bodies := s.bodies ++ [i] }

/-- The program gives up control, and goes on with `rest`. -/
def stop (s : Sequential E F) (rest : List (Block E F × Nat)) (poll : FuturePoll) : Sequential E F :=
  { s with rest := rest, ended := poll = .ready, answers := s.answers ++ [poll] }

/-- After a body: an awaited future that is not ready at once is waited for. -/
def goOn (s : Sequential E F) (first : AwaitPoll E) (rest : List (Block E F × Nat)) :
    BlockEnd F → Sequential E F
  | .yield | .suspendedYield => s.stop rest .pending
  | .await future =>
    let s := { s with env := first.effect s.env }
    if first.poll = .ready then s.stop rest .pending
    else { s with awaits := some future }.stop rest .pending
  | .asyncReturn => s.stop rest .ready

/-- The next body: blocks go in order, a `while` is repeated as long as its condition holds and left
when it does not, or by `async_break`. -/
def next (s : Sequential E F) (first : AwaitPoll E) : List (Block E F × Nat) → Sequential E F
  | [] => s.stop [] .undefined
  | (.scope body, i) :: rest =>
    let (env, e) := body s.env
    (s.ran i env).goOn first rest e
  | (.scopeWhile cond body, i) :: rest =>
    let (holds, env) := cond s.env
    let s := { s with env := env }
    if holds then
      let (env, e) := body s.env
      match e with
      | .ends e => (s.ran i env).goOn first ((.scopeWhile cond body, i) :: rest) e
      | .asyncBreak => (s.ran i env).stop rest .pending
    else next s first rest

end Sequential

/-- The program has control: it goes on, unless it waits for a future that is not ready. -/
def sequentialStep (s : Sequential E F) : AsyncFnOp E → Except Fault (Sequential E F)
  | .poll resumed first =>
    if s.ended then .error .noSuchCall
    else
      match s.awaits with
      | none => .ok (s.next first s.rest)
      | some _ =>
        let s := { s with env := resumed.effect s.env }
        if resumed.poll = .ready then .ok ({ s with awaits := none }.next first s.rest)
        else .ok (s.stop s.rest .pending)
  | .cleanup => if s.ended then .error .noSuchCall else .ok { s with ended := true }

end Taskio
