import Mathlib.Logic.Function.Basic
import Taskio.Common.JoinExt

/-!
# Trees of futures

A coroutine that awaits, and a join or a select with its children, own futures in turn. A poll of the
root walks down this tree on the call stack; `pollStep` cuts it at the calls and returns of the poll
functions. What the bodies of the coroutines do is not fixed: each ends in any of the ways that
`async.h` has. Wakers may be called by a body, by a timer and by other tasks.

A future is named by the number that it was given when it was made. The counter of a coroutine is
left out: what a poll and a clean-up poll do in `async_fn_begin` is spelled out here. So one that
answers undefined until its counter stands at the mark of a clean-up, after 2^64 - 1 polls, is not
followed there.

The timer of a sleep stays stored when its abort misses it. So a handler may be called for a sleep that
is over; what it does then is a use of memory that was let go.
-/

namespace Taskio

/-! ## Futures -/

/-- `taskio_join` and `taskio_select`. -/
inductive JoinKind where
  | join
  | select (biased : Bool)
deriving DecidableEq, Repr

/-- `_on_ready` of `taskio_select`: the environment is the list of winners. -/
def selectOnReady (winners : List Nat) (index : Nat) : List Nat := winners ++ [index]

/-- `_on_finish` of `taskio_select`. -/
def selectOnFinish (biased : Bool) (winners : List Nat) (rand : Nat) : Option Nat :=
  match winners with
  | [] => none
  | winner :: _ => if biased then some winner else winners[rand % winners.length]?

def JoinKind.callbacks : JoinKind → JoinCallbacks (List Nat)
  | .join => { onReady := none, onFinish := none }
  | .select biased => { onReady := some selectOnReady, onFinish := some (selectOnFinish biased) }

/-- Which scope of `taskio_sleep` is next. -/
inductive SleepScope where
  /-- adds the timer -/
  | first
  /-- forgets the timer and returns -/
  | second
  | done
deriving DecidableEq, Repr

/-- A future between two polls. -/
inductive Future where
  /-- an `async_fn` that awaits nothing -/
  | fn (name : Nat)
  /-- an `async_fn` with `await_future` set -/
  | waiting (name : Nat) (awaitFuture : Future)
  /-- `taskio_sleep`; `handled` says whether its handler was called -/
  | sleep (name ms : Nat) (scope : SleepScope) (handled : Bool)
  /-- `taskio_join` or `taskio_select` -/
  | join (name : Nat) (kind : JoinKind) (ext : JoinExt (List Nat)) (futures : Nat → Future)

namespace Future

def name : Future → Nat
  | .fn name | .waiting name _ | .sleep name _ _ _ | .join name _ _ _ => name

/-- The argument of a sleep. -/
def ms : Future → Nat
  | .sleep _ ms _ _ => ms
  | .fn _ | .waiting _ _ | .join _ _ _ _ => 0

end Future

/-- A call of a `future_fn`, with the calls that make its arguments. -/
inductive FutureFn where
  | asyncFn (name : Nat)
  | sleep (name ms : Nat)
  | join (name : Nat) (kind : JoinKind) (len : Nat) (args : Nat → FutureFn)

/-- What happens to the futures. -/
inductive TreeEvent where
  /-- the future is the root, or it is awaited, or given to a join that is -/
  | given (x : Nat)
  /-- a poll begins that is not a clean-up -/
  | polled (x : Nat)
  | awaits (p x : Nat)
  /-- the await is over; `ms` is that of the sleep that was awaited -/
  | passed (p x ms : Nat)
  /-- the handler of the sleep is called -/
  | handled (x : Nat)
  /-- the clean-up poll: the future's own clean-up runs -/
  | cleanedUp (x : Nat)
deriving DecidableEq, Repr

namespace FutureFn

def name : FutureFn → Nat
  | .asyncFn name | .sleep name _ | .join name _ _ _ => name

/-- The new future. -/
def returns : FutureFn → Future
  | .asyncFn name => .fn name
  | .sleep name ms => .sleep name ms .first false
  | .join name kind len args => .join name kind (joinExt len []) fun i => (args i).returns

def given : FutureFn → List TreeEvent
  | .asyncFn name | .sleep name _ => [.given name]
  | .join name _ len args => .given name :: (List.range len).flatMap fun i => (args i).given

end FutureFn

/-- `__TASKIO_FUTURE_CLEANUP`: `async_fn_begin` cleans up the awaited future before the body's own
clean-up runs, that of a join cleans up its children. -/
def Future.cleanup : Future → List TreeEvent
  | .fn name | .sleep name _ _ _ => [.cleanedUp name]
  | .waiting name awaitFuture => awaitFuture.cleanup ++ [.cleanedUp name]
  | .join name _ ext futures =>
    .cleanedUp name ::
      (joinPending ext.tasks 0 (ext.len - ext.completedLen)).flatMap fun i => (futures i).cleanup

/-! ## Polls in progress -/

/-- A poll function that has called another one. -/
inductive Frame where
  /-- `async_fn_begin` polls `await_future` -/
  | resumed (name awaitFuture : Nat)
  /-- `await_get` polls it for the first time -/
  | awaited (name awaitFuture : Nat)
  /-- a join polls its child `i` -/
  | child (name : Nat) (kind : JoinKind) (ext : JoinExt (List Nat)) (futures : Nat → Future) (i : Nat)

/-- Where the innermost one stands. -/
inductive PollPoint where
  /-- the root is between two polls -/
  | idle (f : Future)
  /-- the future's poll function is called -/
  | polled (f : Future)
  /-- the body of an `async_fn` runs -/
  | running (name : Nat)
  /-- in the loop of a join -/
  | inJoin (name : Nat) (kind : JoinKind) (ext : JoinExt (List Nat)) (futures : Nat → Future)
  /-- the poll function returns -/
  | answered (f : Future) (poll : FuturePoll)
  /-- the root is cleaned up -/
  | ended

/-- The root of a tree, as its poller sees it. `woken` says whether the poller's waker was called
since the last poll began. -/
structure TreeRun where
  stack : List Frame
  point : PollPoint
  woken : Bool
  events : List TreeEvent

def TreeRun.log (s : TreeRun) (es : List TreeEvent) : TreeRun := { s with events := s.events ++ es }

/-- A future is made and given to a poller. -/
def treeRun (f : FutureFn) : TreeRun :=
  { stack := [], point := .idle f.returns, woken := true, events := f.given }

/-! ## Wakers -/

/-- A child's waker is called, after what happened below it. -/
def wakeSlot (kind : JoinKind) (ext : JoinExt (List Nat)) (futures : Nat → Future) (i : Nat)
    (future : Future) : Except Fault (JoinExt (List Nat) × (Nat → Future)) := do
  let ext ← joinStep kind.callbacks ext (.wake i)
  .ok (ext, Function.update futures i future)

/-- The waker in the context of the polls in progress: that of the innermost child, which calls the
join's own, and so on. -/
def wakeStack : List Frame → Except Fault (List Frame)
  | [] => .ok []
  | .child name kind ext futures i :: stack => do
    let ext ← joinStep kind.callbacks ext (.wake i)
    let stack ← wakeStack stack
    .ok (.child name kind ext futures i :: stack)
  | frame :: stack => do
    let stack ← wakeStack stack
    .ok (frame :: stack)

def TreeRun.callWaker (s : TreeRun) : Except Fault TreeRun := do
  let stack ← wakeStack s.stack
  .ok { s with stack := stack, woken := true }

/-- The waker of the future that the indices lead to, one for each join on the way. `leaf` is what
happens to that future. -/
def wakeAt (leaf : Future → Except Fault Future) : Future → List Nat → Except Fault Future
  | f, [] => leaf f
  | .waiting name awaitFuture, i :: path => do
    let awaitFuture ← wakeAt leaf awaitFuture (i :: path)
    .ok (.waiting name awaitFuture)
  | .join name kind ext futures, i :: path => do
    let future ← wakeAt leaf (futures i) path
    let (ext, futures) ← wakeSlot kind ext futures i future
    .ok (.join name kind ext futures)
  | .fn _, _ :: _ | .sleep _ _ _ _, _ :: _ => .error .noSuchCall

/-- `taskio_sleep_handler`, called for the sleep that a chain of awaits ends in. -/
def sleepHandler (x : Nat) : Future → Except Fault Future
  | .sleep name ms .second false =>
    if name = x then .ok (.sleep name ms .second true) else .error .noSuchCall
  | .waiting name awaitFuture => do
    let awaitFuture ← sleepHandler x awaitFuture
    .ok (.waiting name awaitFuture)
  | .fn _ | .sleep _ _ _ _ | .join _ _ _ _ => .error .noSuchCall

/-- The waker of a future below a join that is itself polling another child. -/
def wakeFrame : List Frame → Nat → List Nat → Except Fault (List Frame)
  | .child name kind ext futures j :: stack, 0, i :: path =>
    if i = j ∧ path ≠ [] then .error .noSuchCall
    else do
      let future ← wakeAt .ok (futures i) path
      let (ext, futures) ← wakeSlot kind ext futures i future
      let stack ← wakeStack stack
      .ok (.child name kind ext futures j :: stack)
  | frame :: stack, n + 1, path => do
    let stack ← wakeFrame stack n path
    .ok (frame :: stack)
  | _, _, _ => .error .noSuchCall

/-! ## Functions -/

/-- What a body ends in. -/
inductive BodyEnd where
  /-- none of the macros: the answer stays `taskio_future_undefined` -/
  | undefined
  | yield
  | suspendedYield
  | await (f : FutureFn)
  | asyncReturn

/-- `taskio_wheel_timer_add` calls the handler of a sleep that begins. -/
def TreeRun.callAtOnce (s : TreeRun) (name ms : Nat) : Except Fault TreeRun := do
  let s ← s.callWaker
  .ok { s.log [.handled name] with point := .answered (.sleep name ms .second true) .pending }

/-- A poll function is entered. -/
def enterPoll (s : TreeRun) : Future → Except Fault TreeRun
  | .fn name => .ok { s with point := .running name }
  | .waiting name awaitFuture =>
    .ok { s with stack := .resumed name awaitFuture.name :: s.stack, point := .polled awaitFuture }
  | .sleep name ms .first _ =>
    if ms = 0 then s.callAtOnce name ms
    else .ok { s with point := .answered (.sleep name ms .second false) .pending }
  | .sleep name ms .second handled =>
    .ok { s with point := .answered (.sleep name ms .done handled) .ready }
  | .sleep name ms .done handled =>
    .ok { s with point := .answered (.sleep name ms .done handled) .undefined }
  | .join name kind ext futures => do
    let ext ← joinStep kind.callbacks ext .poll
    .ok { s with point := .inJoin name kind ext futures }

/-- The end of a body. -/
def endBody (s : TreeRun) (name : Nat) : BodyEnd → Except Fault TreeRun
  | .undefined => .ok { s with point := .answered (.fn name) .undefined }
  | .yield => do
    let s ← s.callWaker
    .ok { s with point := .answered (.fn name) .pending }
  | .suspendedYield => .ok { s with point := .answered (.fn name) .pending }
  | .await f =>
    .ok { s.log (f.given ++ [.awaits name f.name]) with
      stack := .awaited name f.name :: s.stack
      point := .polled f.returns }
  | .asyncReturn => .ok { s with point := .answered (.fn name) .ready }

/-- A turn of the loop of a join, and what comes after the loop. -/
def joinTurn (s : TreeRun) (name : Nat) (kind : JoinKind) (ext : JoinExt (List Nat))
    (futures : Nat → Future) (o : JoinOp) : Except Fault TreeRun := do
  let ext ← joinStep kind.callbacks ext o
  match ext.stage with
  | .polling i _ =>
    .ok { s with stack := .child name kind ext futures i :: s.stack, point := .polled (futures i) }
  | .idle => .ok { s with point := .answered (.join name kind ext futures) .pending }
  | .returned _ => .ok { s with point := .answered (.join name kind ext futures) .ready }
  | .walking _ | .cleaning _ _ | .gone => .ok { s with point := .inJoin name kind ext futures }

/-- The `switch` on the answer, in the poll function that asked for it. -/
def returnPoll (s : TreeRun) (f : Future) (poll : FuturePoll) : Except Fault TreeRun :=
  match s.stack with
  | [] =>
    if poll = .ready then .ok { s.log f.cleanup with point := .ended }
    else .ok { s with point := .idle f }
  | .resumed name _ :: stack =>
    if poll = .ready then
      .ok { s.log (f.cleanup ++ [.passed name f.name f.ms]) with
        stack := stack
        point := .running name }
    else .ok { s with stack := stack, point := .answered (.waiting name f) .pending }
  | .awaited name _ :: stack =>
    if poll = .ready then do
      let s := s.log (f.cleanup ++ [.passed name f.name f.ms])
      let s ← { s with stack := stack }.callWaker
      .ok { s with point := .answered (.fn name) .pending }
    else .ok { s with stack := stack, point := .answered (.waiting name f) .pending }
  | .child name kind ext futures i :: stack => do
    let ext ← joinStep kind.callbacks ext (.ret poll)
    .ok { s.log (if poll = .ready then f.cleanup else []) with
      stack := stack
      point := .inJoin name kind ext (Function.update futures i f) }

/-! ## Steps -/

/-- The steps of a poll. -/
inductive PollOp where
  /-- the poll function is entered -/
  | enter
  /-- that of a sleep is entered for the first time, and its expiry time wraps: it has passed -/
  | enterPast
  /-- the body of an `async_fn` ends -/
  | body (e : BodyEnd)
  /-- a join polls the next child -/
  | child
  /-- the clean-up of a child that was ready ends -/
  | cleaned
  /-- the walk of a join is over; `rand()` would give this number -/
  | finish (rand : Nat)
  /-- the poll function returns -/
  | ret

def pollStep (s : TreeRun) (o : PollOp) : Except Fault TreeRun :=
  match o, s.point with
  | .enter, .polled f => enterPoll (s.log [.polled f.name]) f
  | .enterPast, .polled (.sleep name ms .first _) => (s.log [.polled name]).callAtOnce name ms
  | .body e, .running name => endBody s name e
  | .child, .inJoin name kind ext futures => joinTurn s name kind ext futures .child
  | .cleaned, .inJoin name kind ext futures => joinTurn s name kind ext futures .cleaned
  | .finish rand, .inJoin name kind ext futures => joinTurn s name kind ext futures (.finish rand)
  | .ret, .answered f poll => returnPoll s f poll
  | _, _ => .error .noSuchCall

/-- The sleep is over, and the handler of its timer was not called: the timer is forgotten or its abort
missed it. -/
def TreeRun.outlived (s : TreeRun) (x : Nat) : Bool :=
  .polled x ∈ s.events ∧ .cleanedUp x ∈ s.events ∧ .handled x ∉ s.events

/-- `taskio_sleep_handler`, called between two polls of the root. -/
def TreeRun.callHandler (s : TreeRun) (x : Nat) (path : List Nat) : Except Fault TreeRun :=
  -- the waker of a sleep that is over leads to a join that is cleaned up, or out of the tree
  if s.outlived x then .error .useAfterFree
  else
    match s.point with
    | .idle f => do
      let f ← wakeAt (sleepHandler x) f path
      .ok { s.log [.handled x] with point := .idle f, woken := true }
    | .polled _ | .running _ | .inJoin _ _ _ _ | .answered _ _ | .ended => .error .noSuchCall

/-- What happens to a tree. -/
inductive TreeOp where
  /-- the root is polled -/
  | poll
  /-- the poll goes on -/
  | inside (o : PollOp)
  /-- a timer calls the handler of a sleep -/
  | handler (x : Nat) (path : List Nat)
  /-- a waker is called, of a future below the root or below a join that cleans up a child -/
  | wake (path : List Nat)
  /-- the same below a join that polls a child, so many frames up -/
  | wakeOuter (n : Nat) (path : List Nat)
  /-- the root is cleaned up early -/
  | cleanup

def treeStep (s : TreeRun) (o : TreeOp) : Except Fault TreeRun :=
  match o, s.point with
  | .poll, .idle f => .ok { s with point := .polled f, woken := false }
  | .inside o, _ => pollStep s o
  | .handler x path, _ => s.callHandler x path
  | .wake path, .idle f => do
    let f ← wakeAt .ok f path
    .ok { s with point := .idle f, woken := true }
  | .wake (i :: path), .inJoin name kind ext futures => do
    let future ← wakeAt .ok (futures i) path
    let (ext, futures) ← wakeSlot kind ext futures i future
    let s ← s.callWaker
    .ok { s with point := .inJoin name kind ext futures }
  | .wakeOuter n path, _ => do
    let stack ← wakeFrame s.stack n path
    .ok { s with stack := stack, woken := true }
  | .cleanup, .idle f => .ok { s.log f.cleanup with point := .ended }
  | _, _ => .error .noSuchCall

theorem callHandler_ok {s s' : TreeRun} {x : Nat} {path : List Nat}
    (h : s.callHandler x path = .ok s') :
    ∃ f f', s.point = .idle f ∧ wakeAt (sleepHandler x) f path = .ok f' ∧
      s' = { s.log [.handled x] with point := .idle f', woken := true } := by
  unfold TreeRun.callHandler at h
  split at h
  · cases h
  · split at h
    · rename_i f hpoint
      obtain ⟨f', hwake, h⟩ := bind_eq_ok.mp h
      cases h
      exact ⟨f, f', hpoint, hwake, rfl⟩
    all_goals cases h

/-! ## The branches of a return -/

/-- The branches of `returnPoll` that succeed. -/
inductive ReturnCase (s : TreeRun) (f : Future) : FuturePoll → TreeRun → Prop
  | ended (hstack : s.stack = []) :
      ReturnCase s f .ready { s.log f.cleanup with point := .ended }
  | idle {poll : FuturePoll} (hstack : s.stack = []) (hpoll : poll ≠ .ready) :
      ReturnCase s f poll { s with point := .idle f }
  | resumed {name x : Nat} {stack : List Frame} (hstack : s.stack = .resumed name x :: stack) :
      ReturnCase s f .ready { s.log (f.cleanup ++ [.passed name f.name f.ms]) with
        stack := stack, point := .running name }
  | awaited {name x : Nat} {stack : List Frame} {s₁ : TreeRun}
      (hstack : s.stack = .awaited name x :: stack)
      (hwake : TreeRun.callWaker { s.log (f.cleanup ++ [.passed name f.name f.ms]) with
        stack := stack } = .ok s₁) :
      ReturnCase s f .ready { s₁ with point := .answered (.fn name) .pending }
  | waiting {poll : FuturePoll} {name x : Nat} {stack : List Frame}
      (hstack : s.stack = .resumed name x :: stack ∨ s.stack = .awaited name x :: stack)
      (hpoll : poll ≠ .ready) :
      ReturnCase s f poll { s with stack := stack, point := .answered (.waiting name f) .pending }
  | child {poll : FuturePoll} {name i : Nat} {kind : JoinKind} {ext ext' : JoinExt (List Nat)}
      {futures : Nat → Future} {stack : List Frame}
      (hstack : s.stack = .child name kind ext futures i :: stack)
      (hret : joinStep kind.callbacks ext (.ret poll) = .ok ext') :
      ReturnCase s f poll { s.log (if poll = .ready then f.cleanup else []) with
        stack := stack, point := .inJoin name kind ext' (Function.update futures i f) }

theorem returnPoll_cases {s s' : TreeRun} {f : Future} {poll : FuturePoll}
    (h : returnPoll s f poll = .ok s') : ReturnCase s f poll s' := by
  unfold returnPoll at h
  split at h
  · rename_i hstack
    by_cases hready : poll = .ready
    · rw [if_pos hready] at h
      cases h
      exact hready ▸ .ended hstack
    · rw [if_neg hready] at h
      cases h
      exact .idle hstack hready
  · rename_i name x stack hstack
    by_cases hready : poll = .ready
    · rw [if_pos hready] at h
      cases h
      exact hready ▸ .resumed hstack
    · rw [if_neg hready] at h
      cases h
      exact .waiting (Or.inl hstack) hready
  · rename_i name x stack hstack
    by_cases hready : poll = .ready
    · rw [if_pos hready] at h
      obtain ⟨s₁, hwake, h⟩ := bind_eq_ok.mp h
      cases h
      exact hready ▸ .awaited hstack hwake
    · rw [if_neg hready] at h
      cases h
      exact .waiting (Or.inr hstack) hready
  · rename_i name kind ext futures i stack hstack
    obtain ⟨ext', hret, h⟩ := bind_eq_ok.mp h
    cases h
    exact .child hstack hret

end Taskio
