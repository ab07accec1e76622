import Taskio.Async.Select
import Taskio.Sync.Erasure

/-!
# `taskio_semaphore_timedwait`

One timed wait on a semaphore that others use too. It awaits a biased select of a wait and a sleep,
and returns whether the winner is the wait. A poll of it is cut at the turns of the loop of the
select; the others' calls and the timer come between its polls.

The wakers of the semaphore name the waits. That of the call's own wait is a child's waker of the
select, and calling it when the select is gone is a `useAfterFree`; so is calling that of a wait of the
others that was given up, or whose select is gone. The sleep of the call lies where that of an earlier
call of the task was: a timer that the earlier call left behind wakes the sleep of this one.
-/

namespace Taskio

/-! ## Data -/

/-- Where `taskio_semaphore_timedwait` stands. -/
inductive TimedStage where
  /-- not called yet -/
  | absent
  /-- called, not polled yet -/
  | made
  /-- in a poll of the select; `first` says whether it is the one in `await_fn_get` -/
  | polling (first : Bool)
  /-- the select is pending -/
  | awaiting
  /-- the select was ready at once; the call has yielded -/
  | passed (result : Nat)
  | returned (value : Bool)
deriving DecidableEq, Repr

/--
The semaphore with all waits, and `struct taskio_semaphore_timedwait_env`: the number of its wait, the
sleep with its delay and its scope, and the select. A delay with which the expiry time wraps counts as
0, since the handler is called at once then too. `handled` says whether the handler of the sleep was
called.
-/
structure TimedWait where
  sys : SemaphoreSystem Nat
  wait : Option Nat
  delay : Nat
  scope : SleepScope
  handled : Bool
  select : JoinExt (List Nat)
  stage : TimedStage

/-- No one has called `taskio_semaphore_timedwait`. -/
def timedWait (permits : UInt64) : TimedWait :=
  { sys := semaphoreSystem Nat permits, wait := none, delay := 0, scope := .first, handled := false,
    select := joinExt 2 [], stage := .absent }

/-- The waker of the wait leads to memory that was let go: the wait was given up, or the select that it
was a child of has returned. -/
def SemaphoreSystem.strays {W : Type} (m : SemaphoreSystem W) (i : Nat) : Bool :=
  match m.waits[i]? with
  | some w => w.stage = .cleaned || w.future.timed && w.stage = .completed
  | none => false

/-! ## The wakers of the children -/

/-- `_join_wake`, for a child of the select. -/
def wakeChild (s : TimedWait) (i : Nat) : Except Fault TimedWait :=
  match s.stage with
  | .polling _ | .awaiting => do
    let select ← joinStep selectCallbacks s.select (.wake i)
    .ok { s with select := select }
  | .absent | .made | .passed _ | .returned _ => .error .useAfterFree

/-- A call by the others. A signal may call the waker of the call's own wait. -/
def otherCall (s : TimedWait) (o : OtherOp) : Except Fault TimedWait := do
  let sys ← semaphoreStep s.sys (o.beside s.wait)
  let called := sys.woken.drop s.sys.woken.length
  let s := { s with sys := sys }
  match called with
  | waker :: _ =>
    if s.wait = some waker then wakeChild s 0
    else if sys.strays waker then .error .useAfterFree
    else .ok s
  | [] => .ok s

/-- `taskio_sleep_handler`, called by the timer. -/
def timeoutHandler (s : TimedWait) : Except Fault TimedWait :=
  match s.stage, s.scope with
  | .awaiting, .second => if s.handled then .error .noSuchCall
    else wakeChild { s with handled := true } 1
  | _, _ => .error .noSuchCall

/-- `taskio_sleep_handler`, called by a timer of an earlier call whose abort missed. -/
def lateHandler (s : TimedWait) : Except Fault TimedWait :=
  match s.stage, s.scope with
  | .awaiting, .second => wakeChild s 1
  | _, _ => .error .useAfterFree

/-! ## The children -/

/-- `taskio_semaphore_wait` is polled. If it is ready, it is cleaned up. -/
def pollWaitChild (s : TimedWait) (k : Nat) : Except Fault (TimedWait × FuturePoll) := do
  let sys ← semaphoreStep s.sys (.poll k k)
  .ok ({ s with sys := sys }, if sys.isCompleted k then .ready else .pending)

/-- `taskio_sleep` is polled. `taskio_wheel_timer_add` calls the handler at once if the delay is 0. -/
def pollSleepChild (s : TimedWait) : Except Fault (TimedWait × FuturePoll) :=
  match s.scope with
  | .first =>
    if s.delay = 0 then do
      let s ← wakeChild s 1
      .ok ({ s with scope := .second, handled := true }, .pending)
    else .ok ({ s with scope := .second }, .pending)
  | .second => .ok ({ s with scope := .done }, .ready)
  | .done => .ok (s, .undefined)

def pollChild (s : TimedWait) (k i : Nat) : Except Fault (TimedWait × FuturePoll) :=
  if i = 0 then pollWaitChild s k else pollSleepChild s

/-- A child is cleaned up early: the node is dropped, the timer is aborted. -/
def cleanupChild (s : TimedWait) (k i : Nat) : Except Fault TimedWait :=
  if i = 0 then do
    let sys ← semaphoreStep s.sys (.cleanup k)
    .ok { s with sys := sys }
  else .ok { s with scope := .done }

/-! ## Functions -/

/-- `taskio_semaphore_timedwait`. -/
def semaphoreTimedwait (s : TimedWait) (delay : Nat) : Except Fault TimedWait :=
  match s.stage with
  | .absent => do
    let sys ← semaphoreStep s.sys (.wait true)
    .ok { s with sys := sys, wait := some s.sys.waits.length, delay := delay, stage := .made }
  | _ => .error .noSuchCall

/-- The call is polled. The first poll makes the select. -/
def timedwaitPoll (s : TimedWait) : Except Fault TimedWait :=
  match s.stage with
  | .made => do
    let select ← joinStep selectCallbacks (joinExt 2 []) .poll
    .ok { s with select := select, stage := .polling true }
  | .awaiting => do
    let select ← joinStep selectCallbacks s.select .poll
    .ok { s with select := select, stage := .polling false }
  | .passed result => .ok { s with stage := .returned (result == 0) }
  | .absent | .polling _ | .returned _ => .error .noSuchCall

/-- A turn of the loop of the select, at the child `i`. -/
def selectTurn (s : TimedWait) (k i : Nat) : Except Fault TimedWait := do
  let select ← joinStep selectCallbacks s.select .child
  let s := { s with select := select }
  let (s, poll) ← pollChild s k i
  let select ← joinStep selectCallbacks s.select (.ret poll)
  if poll = .ready then do
    let select ← joinStep selectCallbacks select .cleaned
    .ok { s with select := select }
  else .ok { s with select := select }

/-- After the loop. A select that is ready cleans up the children that are not, and is freed. The first
poll of the call then yields, a later one returns. -/
def selectFinish (s : TimedWait) (k : Nat) (first : Bool) (rand : Nat) : Except Fault TimedWait := do
  let select ← joinStep selectCallbacks s.select (.finish rand)
  match select.stage with
  | .returned value => do
    let pending := joinPending select.tasks 0 (select.len - select.completedLen)
    let s ← pending.foldlM (fun s i => cleanupChild s k i) s
    let select ← joinStep selectCallbacks select .cleanup
    let result := value.getD 0
    .ok { s with
      select := select
      stage := if first then .passed result else .returned (result == 0) }
  | _ => .ok { s with select := select, stage := .awaiting }

/-! ## Steps -/

/-- A call by the others, the call itself, its timer, and the steps of its polls. -/
inductive TimedOp where
  | other (o : OtherOp)
  | call (delay : Nat)
  | expire
  /-- a timer of an earlier call calls its handler -/
  | lateExpire
  | poll
  /-- the select polls the next child -/
  | turn
  /-- the walk of the select is over -/
  | finish (rand : Nat)
deriving DecidableEq, Repr

def timedStep (s : TimedWait) : TimedOp → Except Fault TimedWait
  | .other o =>
    match s.stage with
    | .polling _ => .error .noSuchCall
    | _ => otherCall s o
  | .call delay => semaphoreTimedwait s delay
  | .expire => timeoutHandler s
  | .lateExpire => lateHandler s
  | .poll => timedwaitPoll s
  | .turn =>
    match s.stage, s.wait, s.select.stage with
    | .polling _, some k, .walking (some i) => selectTurn s k i
    | _, _, _ => .error .noSuchCall
  | .finish rand =>
    match s.stage, s.wait with
    | .polling first, some k => selectFinish s k first rand
    | _, _ => .error .noSuchCall

/-! ## What a timed wait promises -/

/-- The node of a wait, if the wait was made and queued. -/
def SemaphoreSystem.nodeOf {W : Type} (m : SemaphoreSystem W) (wait : Option Nat) : Option Nat :=
  (wait.bind fun k => m.waits[k]?).bind (·.future.node)

/-- The wait has taken a permit: it found one, or a signal has taken its node from the queue. -/
def SemaphoreSystem.takenBy {W : Type} (m : SemaphoreSystem W) (wait : Option Nat) : Bool :=
  match m.nodeOf wait with
  | some a => decide (a ∈ m.sem.grants)
  | none => (wait.map m.isCompleted).getD false

namespace TimedWait

/-- The node of the call's wait. -/
def node (s : TimedWait) : Option Nat := s.sys.nodeOf s.wait

def taken (s : TimedWait) : Bool := s.sys.takenBy s.wait

end TimedWait

/-- The same run on a semaphore on which the call is never made. -/
def withoutCall (s : SemaphoreSystem Nat) : TimedOp → Except Fault (SemaphoreSystem Nat)
  | .other o => semaphoreStep s (o.beside none)
  | .call _ | .expire | .lateExpire | .poll | .turn | .finish _ => .ok s

/--
It returns true exactly if it has taken a permit. If it returns false, the others have the permits that
they would have without it: as many are left, and each of their waits stands where it would stand.
-/
structure TellsTruth (permits : UInt64) (os : List TimedOp) (s : TimedWait) : Prop where
  taken : ∀ value, s.stage = .returned value → (value = true ↔ s.taken = true)
  same : s.stage = .returned false →
    ∃ s₀, Lib.run withoutCall (semaphoreSystem Nat permits) os = .ok s₀ ∧
      s.sys.sem.counter = s₀.sem.counter ∧ ∀ j, s.sys.standing (skip s.wait j) = s₀.standing j

/-- A signal that takes the call's node comes before the handler of its timer is called. -/
def Timely (s : TimedWait) (o : TimedOp) : Prop :=
  o = .other .signal → s.handled = true → ∀ a ∈ s.node, s.sys.sem.wakeQueueHead ≠ some a

instance (s : TimedWait) (o : TimedOp) : Decidable (Timely s o) :=
  inferInstanceAs (Decidable (o = .other .signal → s.handled = true → ∀ a ∈ s.node,
    s.sys.sem.wakeQueueHead ≠ some a))

/-- Nothing that another call has left behind is used: no signal takes the node of a wait that strays,
and no timer of an earlier call calls its handler. -/
def LeavesAlone (s : TimedWait) : TimedOp → Prop
  | .other .signal => ∀ a ∈ s.sys.sem.wakeQueueHead, ∀ n ∈ s.sys.sem.nodes a,
      s.wait = some n.waker ∨ s.sys.strays n.waker = false
  | .lateExpire => False
  | .other _ | .call _ | .expire | .poll | .turn | .finish _ => True

instance (s : TimedWait) (o : TimedOp) : Decidable (LeavesAlone s o) := by
  unfold LeavesAlone
  split <;> infer_instance

end Taskio
