import Taskio.Lib.ListSet
import Taskio.Runtime.Effect

/-!
# `runtime.c`: the blocking pool

The blocking tasks are linked into a queue of their own, behind a lock; a semaphore outside it counts
them. Any number of workers take one unit of the semaphore each, and then the head of the queue, which
they do not test. A section under `blocking_guard` is one step, and so is `sem_wait`.

* `PoolShape` — the links spell a queue of live tasks, and the semaphore with the workers that are
  between the two makes up its length
* `poolShape_step` — every step keeps it, and none faults
* `blocking_pool_takes_in_order` — over all runs, the tasks are taken once each, as they were spawned
-/

namespace Taskio

open Lib (IsQueue)

/-! ## Data -/

/-- Where `blocking_worker_run` stands. -/
inductive PoolWorker where
  /-- at `sem_wait` -/
  | waiting
  /-- between `sem_wait` and the section under the lock -/
  | admitted
  /-- before the test of the status -/
  | took (t : Nat)
  /-- before `task_drop` -/
  | ran (t : Nat)
deriving DecidableEq, Repr

/-- The part of `struct taskio_runtime` that blocking tasks use. `spawned` and `dequeued` record the
tasks in the order of the sections under the lock, the latter with the worker that took the task. -/
structure BlockingPool where
  runtime : Scheduler
  blockingHead : Option Nat
  blockingTail : Option Nat
  blockingSem : Nat
  workers : List PoolWorker
  spawned : List Nat
  dequeued : List (Nat × Nat)

inductive PoolOp where
  /-- `taskio_runtime_spawn_blocking` -/
  | spawn (hasOut : Bool)
  /-- `thrd_create` -/
  | create
  /-- the next step of a worker -/
  | worker (i : Nat)
  /-- `taskio_handle_drop` -/
  | drop (t : Nat)
  /-- `taskio_handle_abort` -/
  | abort (t : Nat)
deriving DecidableEq, Repr

/-! ## Functions -/

/-- The runtime is zeroed, and the semaphore starts at 0. -/
def blockingPool : BlockingPool :=
  { runtime := schedulerInit, blockingHead := none, blockingTail := none, blockingSem := 0,
    workers := [], spawned := [], dequeued := [] }

namespace BlockingPool

def setWorker (p : BlockingPool) (i : Nat) (w : PoolWorker) : BlockingPool :=
  { p with workers := p.workers.set i w }

/-- `taskio_runtime_spawn_blocking`, to the end of the section under the lock. -/
def spawnBlocking (p : BlockingPool) (hasOut : Bool) : Except Fault BlockingPool := do
  let t := p.runtime.nextTask
  let task : Task :=
    { counter := 2, status := .suspended, blocking := true, wakeOnReady := [], hasOut := hasOut,
      next := none, handles := 1 }
  let runtime := { p.runtime.setTask t (some task) with nextTask := t + 1 }
  let (runtime, head) ← match p.blockingTail with
    | none => .ok (runtime, some t)
    | some last => do
      let lastTask ← runtime.task last
      .ok (runtime.setTask last (some { lastTask with next := some t }), p.blockingHead)
  .ok { p with
    runtime := runtime, blockingHead := head, blockingTail := some t,
    blockingSem := p.blockingSem + 1, spawned := p.spawned ++ [t] }

/-- The section of `blocking_worker_run` under the lock. -/
def dequeue (p : BlockingPool) (i : Nat) : Except Fault BlockingPool :=
  match p.blockingHead with
  | none => .error .nullPointer
  | some t => do
    let task ← p.runtime.task t
    let tail := if task.next = none then none else p.blockingTail
    .ok { p.setWorker i (.took t) with
      blockingHead := task.next, blockingTail := tail, dequeued := p.dequeued ++ [(i, t)] }

/-- A step of `blocking_worker_run`. The handler and the wake list are the task's own. -/
def blockingWorkerRun (p : BlockingPool) (i : Nat) : PoolWorker → Except Fault BlockingPool
  | .waiting =>
    if 0 < p.blockingSem then
      .ok { p.setWorker i .admitted with blockingSem := p.blockingSem - 1 }
    else .error .noSuchCall
  | .admitted => p.dequeue i
  | .took t => do
    let task ← p.runtime.task t
    let runtime :=
      if task.status ≠ .aborted then p.runtime.setTask t (some { task with status := .finished })
      else p.runtime
    .ok { p.setWorker i (.ran t) with runtime := runtime }
  | .ran t => do
    let runtime ← taskDrop p.runtime t
    .ok { p.setWorker i .waiting with runtime := runtime }

end BlockingPool

def poolStep (p : BlockingPool) : PoolOp → Except Fault BlockingPool
  | .spawn hasOut => p.spawnBlocking hasOut
  | .create => .ok { p with workers := p.workers ++ [.waiting] }
  | .worker i =>
    match p.workers[i]? with
    | some w => p.blockingWorkerRun i w
    | none => .error .noSuchCall
  | .drop t =>
    if p.runtime.tasks t = none then .error .noSuchCall
    else do
      let runtime ← handleDrop p.runtime t
      .ok { p with runtime := runtime }
  | .abort t =>
    if p.runtime.tasks t = none then .error .noSuchCall
    else do
      let runtime ← handleAbort p.runtime t
      .ok { p with runtime := runtime }

/-! ## The invariant -/

def PoolWorker.isAdmitted : PoolWorker → Bool
  | .admitted => true
  | .waiting | .took _ | .ran _ => false

/-- The worker is counted in the task. -/
def PoolWorker.holds (t : Nat) : PoolWorker → Bool
  | .took u | .ran u => u = t
  | .waiting | .admitted => false

/-- The references to a task that are not handles: the queue's and a worker's. -/
def BlockingPool.refs (p : BlockingPool) (q : List Nat) (t : Nat) : Nat :=
  q.count t + p.workers.countP (PoolWorker.holds t)

/-- A task is counted as often as it is referred to, and is live while it is. -/
structure PoolCounts (p : BlockingPool) (q : List Nat) : Prop where
  counter : ∀ t task, p.runtime.tasks t = some task → task.counter = task.handles + p.refs q t
  gone : ∀ t, p.runtime.tasks t = none → p.refs q t = 0
  blocking : ∀ t task, p.runtime.tasks t = some task → task.blocking = true

structure PoolShape (p : BlockingPool) (q : List Nat) : Prop where
  queue : IsQueue p.runtime.next p.blockingHead p.blockingTail q
  count : p.blockingSem + p.workers.countP PoolWorker.isAdmitted = q.length
  order : p.dequeued.map Prod.snd ++ q = p.spawned
  spawned : p.spawned = List.range p.runtime.nextTask
  counts : PoolCounts p q
  fresh : ∀ t, p.runtime.nextTask ≤ t → p.runtime.tasks t = none

/-! ## Changes of one task or one worker -/

variable {p p' : BlockingPool} {q q' : List Nat} {t : Nat}

theorem BlockingPool.refs_setWorker {i : Nat} {w : PoolWorker} (hw : p.workers[i]? = some w)
    (w' : PoolWorker) (q : List Nat) (u : Nat) :
    (p.setWorker i w').refs q u + (w.holds u).toNat = p.refs q u + (w'.holds u).toNat := by
  have hset := Lib.countP_set_add (PoolWorker.holds u) hw w'
  simp only [BlockingPool.refs, BlockingPool.setWorker]
  omega

theorem countP_setWorker {i : Nat} {w : PoolWorker} (hw : p.workers[i]? = some w)
    (w' : PoolWorker) :
    (p.setWorker i w').workers.countP PoolWorker.isAdmitted + w.isAdmitted.toNat =
      p.workers.countP PoolWorker.isAdmitted + w'.isAdmitted.toNat :=
  Lib.countP_set_add PoolWorker.isAdmitted hw w'

theorem schedulerNext_setTask (s : Scheduler) (t : Nat) (task : Option Task) :
    (s.setTask t task).next = Function.update s.next t (task.bind (·.next)) := by
  funext x
  by_cases hx : x = t
  · subst hx
    simp [Scheduler.next, Scheduler.setTask]
  · simp [Scheduler.next, Scheduler.setTask, Function.update_of_ne hx]

/-- The rest of a task is not counted. -/
theorem PoolCounts.congr (h : PoolCounts p q)
    (htasks : ∀ u, (p'.runtime.tasks u).map (fun task => (task.counter, task.handles, task.blocking)) =
      (p.runtime.tasks u).map fun task => (task.counter, task.handles, task.blocking))
    (hrefs : ∀ u, p'.refs q' u = p.refs q u) : PoolCounts p' q' := by
  have hback : ∀ u task', p'.runtime.tasks u = some task' → ∃ task, p.runtime.tasks u = some task ∧
      task'.counter = task.counter ∧ task'.handles = task.handles ∧ task'.blocking = task.blocking := by
    intro u task' htask'
    have hu := htasks u
    rw [htask', Option.map_some] at hu
    obtain ⟨task, htask, heq⟩ := Option.map_eq_some_iff.mp hu.symm
    simp only [Prod.mk.injEq] at heq
    exact ⟨task, htask, heq.1.symm, heq.2.1.symm, heq.2.2.symm⟩
  refine ⟨?_, ?_, ?_⟩
  · intro u task' htask'
    obtain ⟨task, htask, hcounter, hhandles, -⟩ := hback u task' htask'
    rw [hcounter, hhandles, hrefs]
    exact h.counter u task htask
  · intro u hu
    have hmap := htasks u
    rw [hu, Option.map_none] at hmap
    rw [hrefs]
    exact h.gone u (Option.map_eq_none_iff.mp hmap.symm)
  · intro u task' htask'
    obtain ⟨task, htask, -, -, hblocking⟩ := hback u task' htask'
    rw [hblocking]
    exact h.blocking u task htask

/-- One task changes, with the references to it. -/
theorem PoolCounts.update {task : Option Task} (h : PoolCounts p q)
    (htasks : p'.runtime.tasks = Function.update p.runtime.tasks t task)
    (hrefs : ∀ u, u ≠ t → p'.refs q' u = p.refs q u)
    (hsome : ∀ task', task = some task' →
      task'.counter = task'.handles + p'.refs q' t ∧ task'.blocking = true)
    (hnone : task = none → p'.refs q' t = 0) : PoolCounts p' q' := by
  refine ⟨?_, ?_, ?_⟩
  · intro u task' htask'
    rw [htasks] at htask'
    by_cases hut : u = t
    · rw [hut, Function.update_self] at htask'
      rw [hut]
      exact (hsome task' htask').1
    · rw [Function.update_of_ne hut] at htask'
      rw [hrefs u hut]
      exact h.counter u task' htask'
  · intro u hu
    rw [htasks] at hu
    by_cases hut : u = t
    · rw [hut, Function.update_self] at hu
      rw [hut]
      exact hnone hu
    · rw [Function.update_of_ne hut] at hu
      rw [hrefs u hut]
      exact h.gone u hu
  · intro u task' htask'
    rw [htasks] at htask'
    by_cases hut : u = t
    · rw [hut, Function.update_self] at htask'
      exact (hsome task' htask').2
    · rw [Function.update_of_ne hut] at htask'
      exact h.blocking u task' htask'

/-- A task that is referred to is live. -/
theorem PoolCounts.live (h : PoolCounts p q) (hrefs : 0 < p.refs q t) :
    ∃ task, p.runtime.tasks t = some task := by
  apply Option.ne_none_iff_exists'.mp
  intro hnone
  have hgone := h.gone t hnone
  omega

theorem refs_of_mem (ht : t ∈ q) : 0 < p.refs q t := by
  have hcount := List.count_pos_iff.mpr ht
  rw [BlockingPool.refs]
  omega

theorem refs_of_worker {i : Nat} {w : PoolWorker} (hw : p.workers[i]? = some w)
    (hholds : w.holds t = true) : 0 < p.refs q t := by
  have hcount : 0 < p.workers.countP (PoolWorker.holds t) :=
    List.countP_pos_iff.mpr ⟨w, List.mem_of_getElem? hw, hholds⟩
  rw [BlockingPool.refs]
  omega

/-! ## The sections under the lock -/

theorem PoolShape.refs_next (h : PoolShape p q) : p.refs q p.runtime.nextTask = 0 :=
  h.counts.gone _ (h.fresh _ (Nat.le_refl _))

theorem PoolShape.next_notMem (h : PoolShape p q) : p.runtime.nextTask ∉ q := by
  intro hmem
  have hpos := refs_of_mem (p := p) hmem
  have hzero := h.refs_next
  omega

/-- A new task has a reference from the list, one from its handle, and no other. -/
theorem PoolShape.counts_spawn {p' : BlockingPool} {task : Task} (h : PoolShape p q)
    (hworkers : p'.workers = p.workers)
    (htasks : p'.runtime.tasks =
      Function.update p.runtime.tasks p.runtime.nextTask (some task))
    (hcounter : task.counter = 2) (hhandles : task.handles = 1) (hblocking : task.blocking = true) :
    PoolCounts p' (q ++ [p.runtime.nextTask]) := by
  have hcount : ∀ u, (q ++ [p.runtime.nextTask]).count u =
      q.count u + if u = p.runtime.nextTask then 1 else 0 := by
    intro u
    by_cases hu : u = p.runtime.nextTask
    · simp [hu]
    · simp [hu, Ne.symm hu]
  have hrefs := h.refs_next
  refine h.counts.update htasks ?_ ?_ (by rintro ⟨⟩)
  · intro u hu
    simp only [BlockingPool.refs, hworkers, hcount, if_neg hu, Nat.add_zero]
  · rintro task' ⟨⟩
    rw [BlockingPool.refs] at hrefs
    simp only [BlockingPool.refs, hworkers, hcount, if_true]
    exact ⟨by omega, hblocking⟩

/-- **Spawning links a new task behind the others, and adds a unit.** -/
theorem spawnBlocking_shape (h : PoolShape p q) (hasOut : Bool) :
    ∃ p', p.spawnBlocking hasOut = .ok p' ∧ PoolShape p' (q ++ [p.runtime.nextTask]) := by
  have hnot := h.next_notMem
  have hlive : ∀ u ∈ q, u ≠ p.runtime.nextTask := by
    rintro u hu rfl
    exact hnot hu
  have hfresh : ∀ u, p.runtime.nextTask + 1 ≤ u → ∀ task,
      Function.update p.runtime.tasks p.runtime.nextTask task u = none := by
    intro u hu task
    rw [Function.update_of_ne (by omega)]
    exact h.fresh u (by omega)
  have hspawned : p.spawned ++ [p.runtime.nextTask] = List.range (p.runtime.nextTask + 1) := by
    rw [h.spawned, List.range_succ]
  have hsem : p.blockingSem + 1 + p.workers.countP PoolWorker.isAdmitted =
      (q ++ [p.runtime.nextTask]).length := by
    rw [List.length_append, List.length_singleton, ← h.count]
    omega
  have horder : p.dequeued.map Prod.snd ++ (q ++ [p.runtime.nextTask]) =
      p.spawned ++ [p.runtime.nextTask] := by
    rw [← List.append_assoc, h.order]
  cases htail : p.blockingTail with
  | none =>
    obtain rfl := h.queue.tail_eq_none.mp htail
    rw [BlockingPool.spawnBlocking, htail]
    refine ⟨_, rfl, ⟨?_, hsem, horder, hspawned, h.counts_spawn rfl rfl rfl rfl rfl,
      fun u hu => hfresh u hu _⟩⟩
    refine ⟨⟨rfl, ?_⟩, rfl⟩
    show (p.runtime.setTask _ _).next _ = none
    rw [schedulerNext_setTask, Function.update_self]
    rfl
  | some last =>
    have hmem : last ∈ q := by
      have hlast := h.queue.last
      rw [htail] at hlast
      exact List.mem_of_getLast? hlast.symm
    obtain ⟨lastTask, hlastTask⟩ := h.counts.live (refs_of_mem hmem)
    have hne := hlive last hmem
    rw [BlockingPool.spawnBlocking, htail]
    simp only [Scheduler.task, Scheduler.setTask, Function.update_of_ne hne, hlastTask, ok_bind]
    refine ⟨_, rfl, ⟨?_, hsem, horder, hspawned, ?_, ?_⟩⟩
    · have hqueue := h.queue
      rw [htail] at hqueue
      have hlink := (hqueue.congr fun u hu =>
        Function.update_of_ne (hlive u hu) none p.runtime.next).pushTail hnot (Function.update_self ..)
      refine hlink.congr ?_
      intro u _
      by_cases hul : u = last
      · simp [hul, Scheduler.next]
      · by_cases hut : u = p.runtime.nextTask
        · simp [hut, Scheduler.next, Ne.symm hne]
        · simp [hul, hut, Scheduler.next]
    · have hnew : PoolCounts { p with
          runtime := p.runtime.setTask p.runtime.nextTask (some
            { counter := 2, status := .suspended, blocking := true, wakeOnReady := [],
              hasOut := hasOut, next := none, handles := 1 }) } (q ++ [p.runtime.nextTask]) :=
        h.counts_spawn rfl rfl rfl rfl rfl
      refine hnew.congr ?_ fun _ => rfl
      intro u
      by_cases hul : u = last
      · simp [hul, Scheduler.setTask, Function.update_of_ne hne, hlastTask]
      · simp [Scheduler.setTask, Function.update_of_ne hul]
    · intro u hu
      have hul : u ≠ last := by
        rintro rfl
        rw [h.fresh u (Nat.le_of_lt hu)] at hlastTask
        cases hlastTask
      exact (Function.update_of_ne hul _ _).trans (hfresh u hu _)

/-- **A worker that took a unit finds a task at the head, and takes it.** -/
theorem dequeue_shape {i : Nat} (h : PoolShape p q) (hw : p.workers[i]? = some .admitted) :
    ∃ p' t q', q = t :: q' ∧ p.dequeue i = .ok p' ∧ p'.dequeued = p.dequeued ++ [(i, t)] ∧
      PoolShape p' q' := by
  have hadmitted : 0 < p.workers.countP PoolWorker.isAdmitted :=
    List.countP_pos_iff.mpr ⟨_, List.mem_of_getElem? hw, rfl⟩
  have hcount := h.count
  cases hhead : p.blockingHead with
  | none =>
    rw [h.queue.head_eq_none.mp hhead] at hcount
    simp only [List.length_nil] at hcount
    omega
  | some t =>
    have hqueue := h.queue
    rw [hhead] at hqueue
    obtain ⟨q', rfl, hpop⟩ := hqueue.popHead
    have hnot : t ∉ q' := (List.nodup_cons.mp h.queue.nodup).1
    obtain ⟨task, htask⟩ := h.counts.live (t := t) (refs_of_mem (List.mem_cons_self ..))
    have hnext : p.runtime.next t = task.next := by
      rw [Scheduler.next, htask]
      rfl
    rw [hnext] at hpop
    rw [BlockingPool.dequeue, hhead]
    simp only [Scheduler.task, htask, ok_bind]
    refine ⟨_, t, q', rfl, rfl, rfl, ⟨hpop, ?_, ?_, h.spawned, ?_, h.fresh⟩⟩
    · have hset := countP_setWorker hw (.took t)
      simp only [PoolWorker.isAdmitted, Bool.toNat_true, Bool.toNat_false, List.length_cons]
        at hset hcount
      show p.blockingSem + (p.setWorker i (.took t)).workers.countP PoolWorker.isAdmitted = q'.length
      omega
    · show (p.dequeued ++ [(i, t)]).map Prod.snd ++ q' = p.spawned
      rw [← h.order]
      simp
    · refine h.counts.congr (fun _ => rfl) ?_
      intro u
      have hset := BlockingPool.refs_setWorker hw (.took t) q' u
      have hcons : p.refs (t :: q') u = p.refs q' u + ((PoolWorker.took t).holds u).toNat := by
        simp only [BlockingPool.refs, PoolWorker.holds, List.count_cons]
        by_cases hut : t = u
        · simp [hut]
          omega
        · simp [hut]
      rw [hcons]
      exact hset

/-! ## The other steps -/

theorem taskDrop_eq {s : Scheduler} {task : Task} (htask : s.tasks t = some task) :
    taskDrop s t = .ok (if task.counter = 1 then (s.setTask t none).log (.freed t)
      else s.setTask t (some { task with counter := sizeDec task.counter })) := by
  rw [taskDrop, Scheduler.task, htask]
  simp only [ok_bind]
  split <;> rfl

/-- One reference to a task is let go, be it a handle or a worker's. -/
theorem taskDrop_shape {task : Task} (h : PoolShape p q) (htask : p.runtime.tasks t = some task)
    (workers : List PoolWorker) (handles : Nat)
    (hadmitted : workers.countP PoolWorker.isAdmitted = p.workers.countP PoolWorker.isAdmitted)
    (hothers : ∀ u, u ≠ t →
      workers.countP (PoolWorker.holds u) = p.workers.countP (PoolWorker.holds u))
    (hone : handles + workers.countP (PoolWorker.holds t) + 1 =
      task.handles + p.workers.countP (PoolWorker.holds t)) :
    ∃ runtime, taskDrop (p.runtime.setTask t (some { task with handles := handles })) t =
        .ok runtime ∧ PoolShape { p with runtime := runtime, workers := workers } q := by
  have hcounter := h.counts.counter t task htask
  rw [BlockingPool.refs] at hcounter
  refine ⟨_, taskDrop_eq (Function.update_self ..), ?_⟩
  have hlive : ∀ task' task'' : Option Task, ((p.runtime.setTask t task').setTask t task'').tasks =
      Function.update p.runtime.tasks t task'' := fun _ _ => Function.update_idem ..
  have hfresh : t < p.runtime.nextTask := by
    by_contra hge
    rw [h.fresh t (Nat.le_of_not_lt hge)] at htask
    cases htask
  -- the task is freed or stays, and its link stays with it
  have hnew : ∀ (runtime : Scheduler) (task' : Option Task),
      runtime.tasks = Function.update p.runtime.tasks t task' →
      runtime.nextTask = p.runtime.nextTask → (t ∈ q → task'.bind (·.next) = task.next) →
      (∀ task'', task' = some task'' → task''.blocking = true ∧
        task''.counter = task''.handles + (q.count t + workers.countP (PoolWorker.holds t))) →
      (task' = none → q.count t + workers.countP (PoolWorker.holds t) = 0) →
      PoolShape { p with runtime := runtime, workers := workers } q := by
    intro runtime task' htasks hnextTask hnext hsome hnone
    refine ⟨?_, ?_, h.order, ?_, ?_, ?_⟩
    · refine h.queue.congr ?_
      intro u hu
      by_cases hut : u = t
      · subst hut
        simp only [Scheduler.next, htasks, Function.update_self, htask]
        exact hnext hu
      · simp only [Scheduler.next, htasks, Function.update_of_ne hut]
    · show p.blockingSem + workers.countP _ = q.length
      rw [hadmitted]
      exact h.count
    · show p.spawned = List.range runtime.nextTask
      rw [hnextTask]
      exact h.spawned
    · refine h.counts.update htasks ?_ ?_ hnone
      · intro u hu
        simp only [BlockingPool.refs, hothers u hu]
      · intro task'' htask''
        exact (hsome task'' htask'').symm
    · intro u hu
      have hu : p.runtime.nextTask ≤ u := hnextTask ▸ hu
      show runtime.tasks u = none
      rw [htasks, Function.update_of_ne (by omega)]
      exact h.fresh u hu
  by_cases hlast : task.counter = 1
  · simp only [if_pos hlast]
    refine hnew _ none (hlive _ none) rfl ?_ (by rintro _ ⟨⟩) fun _ => by omega
    intro hmem
    have hpos := List.count_pos_iff.mpr hmem
    omega
  · simp only [if_neg hlast]
    refine hnew _ _ (hlive _ _) rfl (fun _ => rfl) ?_ (by rintro ⟨⟩)
    rintro task'' ⟨⟩
    refine ⟨h.counts.blocking t task htask, ?_⟩
    show sizeDec task.counter = handles + _
    rw [sizeDec_of_pos (by omega)]
    omega

/-- The status of a task changes. -/
theorem PoolShape.setStatus {task : Task} (h : PoolShape p q) (htask : p.runtime.tasks t = some task)
    (status : TaskStatus) :
    PoolShape { p with runtime := p.runtime.setTask t (some { task with status := status }) } q := by
  refine ⟨h.queue.congr ?_, h.count, h.order, h.spawned, h.counts.congr ?_
    fun _ => rfl, ?_⟩
  · intro u _
    show (p.runtime.setTask t _).next u = _
    rw [schedulerNext_setTask]
    by_cases hut : u = t
    · subst hut
      simp [Scheduler.next, htask]
    · simp [hut]
  · intro u
    by_cases hut : u = t
    · subst hut
      simp [Scheduler.setTask, htask]
    · simp [Scheduler.setTask, hut]
  · intro u hu
    have hut : u ≠ t := by
      rintro rfl
      rw [h.fresh u hu] at htask
      cases htask
    exact (Function.update_of_ne hut _ _).trans (h.fresh u hu)

/-- A worker moves on, and is counted as it was. -/
theorem PoolShape.setWorker {i : Nat} {w w' : PoolWorker} (h : PoolShape p q)
    (hw : p.workers[i]? = some w) (hadmitted : w'.isAdmitted = w.isAdmitted)
    (hholds : ∀ u, w'.holds u = w.holds u) : PoolShape (p.setWorker i w') q := by
  have hset := countP_setWorker hw w'
  refine ⟨h.queue, ?_, h.order, h.spawned, h.counts.congr (fun _ => rfl) ?_, h.fresh⟩
  · rw [hadmitted] at hset
    rw [← h.count, Nat.add_right_cancel hset]
    rfl
  · intro u
    have hrefs := BlockingPool.refs_setWorker hw w' q u
    rw [hholds u] at hrefs
    exact Nat.add_right_cancel hrefs

theorem worker_shape {i : Nat} {w : PoolWorker} (h : PoolShape p q) (hw : p.workers[i]? = some w)
    (hcalls : p.blockingWorkerRun i w ≠ .error .noSuchCall) :
    ∃ p' q', p.blockingWorkerRun i w = .ok p' ∧ PoolShape p' q' := by
  cases w with
  | waiting =>
    by_cases hsem : 0 < p.blockingSem
    · refine ⟨_, q, if_pos hsem, h.queue, ?_, h.order, h.spawned, ?_, h.fresh⟩
      · have hset := countP_setWorker hw .admitted
        simp only [PoolWorker.isAdmitted, Bool.toNat_true, Bool.toNat_false] at hset
        have hcount := h.count
        show p.blockingSem - 1 + (p.setWorker i .admitted).workers.countP PoolWorker.isAdmitted =
          q.length
        omega
      · exact h.counts.congr (fun _ => rfl) fun u =>
          Nat.add_right_cancel (BlockingPool.refs_setWorker hw .admitted q u)
    · exact absurd (if_neg hsem) hcalls
  | admitted =>
    obtain ⟨p', t, q', -, hdequeue, -, hp'⟩ := dequeue_shape h hw
    exact ⟨p', q', hdequeue, hp'⟩
  | took t =>
    obtain ⟨task, htask⟩ := h.counts.live (refs_of_worker hw (decide_eq_true rfl))
    have hmoved : ∀ p' : BlockingPool, PoolShape p' q → p'.workers = p.workers →
        PoolShape (p'.setWorker i (.ran t)) q := by
      intro p' hp' hworkers
      exact hp'.setWorker (w := .took t) (by rw [hworkers]; exact hw) rfl fun _ => rfl
    simp only [BlockingPool.blockingWorkerRun, Scheduler.task, htask, ok_bind]
    by_cases hstatus : task.status ≠ .aborted
    · simp only [if_pos hstatus]
      exact ⟨_, q, rfl, hmoved _ (h.setStatus htask .finished) rfl⟩
    · simp only [if_neg hstatus]
      exact ⟨_, q, rfl, hmoved p h rfl⟩
  | ran t =>
    obtain ⟨task, htask⟩ := h.counts.live (refs_of_worker hw (decide_eq_true rfl))
    have hset : ∀ u, (p.setWorker i .waiting).workers.countP (PoolWorker.holds u) +
        (decide (t = u)).toNat = p.workers.countP (PoolWorker.holds u) :=
      fun u => Lib.countP_set_add (PoolWorker.holds u) hw .waiting
    have hsame : p.runtime.setTask t (some { task with handles := task.handles }) = p.runtime := by
      rw [Scheduler.setTask, ← htask, Function.update_eq_self]
    have hothers : ∀ u, u ≠ t → (p.setWorker i .waiting).workers.countP (PoolWorker.holds u) =
        p.workers.countP (PoolWorker.holds u) := by
      intro u hu
      have hset := hset u
      simpa [Ne.symm hu] using hset
    have hone : task.handles + (p.setWorker i .waiting).workers.countP (PoolWorker.holds t) + 1 =
        task.handles + p.workers.countP (PoolWorker.holds t) := by
      have hset := hset t
      simp only [decide_true, Bool.toNat_true] at hset
      omega
    obtain ⟨runtime, hdrop, hp'⟩ := taskDrop_shape h htask (p.setWorker i .waiting).workers task.handles
      (countP_setWorker hw .waiting) hothers hone
    rw [hsame] at hdrop
    exact ⟨_, q, by rw [BlockingPool.blockingWorkerRun, hdrop, ok_bind]; rfl, hp'⟩

/-- **No step faults, and each keeps the shape of the pool.** -/
theorem poolShape_step {o : PoolOp} (h : PoolShape p q) (hcalls : poolStep p o ≠ .error .noSuchCall) :
    ∃ p' q', poolStep p o = .ok p' ∧ PoolShape p' q' := by
  cases o with
  | spawn hasOut =>
    obtain ⟨p', hspawn, hp'⟩ := spawnBlocking_shape h hasOut
    exact ⟨p', _, hspawn, hp'⟩
  | create =>
    refine ⟨_, q, rfl, h.queue, ?_, h.order, h.spawned, ?_, h.fresh⟩
    · rw [← h.count]
      simp [PoolWorker.isAdmitted]
    · exact h.counts.congr (fun _ => rfl) fun u => by simp [BlockingPool.refs, PoolWorker.holds]
  | worker i =>
    cases hw : p.workers[i]? with
    | none =>
      rw [poolStep, hw] at hcalls
      exact absurd rfl hcalls
    | some w =>
      rw [poolStep, hw] at hcalls ⊢
      exact worker_shape h hw hcalls
  | drop t =>
    rw [poolStep] at hcalls ⊢
    by_cases hnone : p.runtime.tasks t = none
    · exact absurd (if_pos hnone) hcalls
    · rw [if_neg hnone] at hcalls ⊢
      obtain ⟨task, htask⟩ := Option.ne_none_iff_exists'.mp hnone
      rw [handleDrop, handleTask, Scheduler.task, htask] at hcalls ⊢
      simp only [ok_bind] at hcalls ⊢
      by_cases hzero : task.handles = 0
      · rw [if_pos hzero] at hcalls
        exact absurd rfl hcalls
      · rw [if_neg hzero, ok_bind]
        obtain ⟨runtime, hdrop, hp'⟩ := taskDrop_shape h htask p.workers
          (task.handles - 1) rfl (fun _ _ => rfl) (by omega)
        exact ⟨_, q, by rw [hdrop, ok_bind], hp'⟩
  | abort t =>
    rw [poolStep] at hcalls ⊢
    by_cases hnone : p.runtime.tasks t = none
    · exact absurd (if_pos hnone) hcalls
    · rw [if_neg hnone] at hcalls ⊢
      obtain ⟨task, htask⟩ := Option.ne_none_iff_exists'.mp hnone
      rw [handleAbort, handleTask, Scheduler.task, htask] at hcalls ⊢
      simp only [ok_bind] at hcalls ⊢
      by_cases hzero : task.handles = 0
      · rw [if_pos hzero] at hcalls
        exact absurd rfl hcalls
      · rw [if_neg hzero, ok_bind]
        simp only [h.counts.blocking t task htask, if_true]
        -- a blocking task is not put into the ready queue
        cases hstatus : task.status with
        | suspended =>
          have hset := h.setStatus htask .aborted
          rw [h.counts.blocking t task htask] at hset
          exact ⟨_, q, rfl, hset⟩
        | scheduled => exact ⟨_, q, rfl, h⟩
        | aborted => exact ⟨_, q, rfl, h⟩
        | finished => exact ⟨_, q, rfl, h⟩

/-! ## Runs -/

/-- What is promised of the pool, with `q` the tasks that wait. -/
structure PoolLaw (p : BlockingPool) (q : List Nat) : Prop where
  /-- the links from `blocking_head` spell `q`, and end at `blocking_tail` -/
  queue : IsQueue p.runtime.next p.blockingHead p.blockingTail q
  live : ∀ t ∈ q, p.runtime.tasks t ≠ none
  count : p.blockingSem + p.workers.countP PoolWorker.isAdmitted = q.length
  /-- the tasks were taken as they were spawned, and those that wait come after them -/
  order : p.dequeued.map Prod.snd ++ q = p.spawned
  once : p.spawned.Nodup
  /-- a task that does not wait was taken by one worker -/
  taken : ∀ t ∈ p.spawned, t ∉ q → ∃! i, (i, t) ∈ p.dequeued
  /-- a worker that took a unit of the semaphore takes the first task in its next step -/
  takes : ∀ i, p.workers[i]? = some .admitted → ∃ p' t rest, q = t :: rest ∧
    poolStep p (.worker i) = .ok p' ∧ p'.dequeued = p.dequeued ++ [(i, t)]

theorem PoolShape.law (h : PoolShape p q) : PoolLaw p q where
  queue := h.queue
  live t ht := by
    obtain ⟨task, htask⟩ := h.counts.live (refs_of_mem ht)
    rw [htask]
    exact Option.some_ne_none _
  count := h.count
  order := h.order
  once := by
    rw [h.spawned]
    exact List.nodup_range
  taken t ht hq := by
    have hnodup : (p.dequeued.map Prod.snd).Nodup := by
      have hall : p.spawned.Nodup := by
        rw [h.spawned]
        exact List.nodup_range
      rw [← h.order] at hall
      exact (List.nodup_append.mp hall).1
    rw [← h.order, List.mem_append] at ht
    obtain ⟨⟨i, u⟩, hmem, rfl⟩ := List.mem_map.mp (ht.resolve_right hq)
    refine ⟨i, hmem, ?_⟩
    intro j hj
    have heq := List.inj_on_of_nodup_map hnodup hj hmem rfl
    exact congrArg Prod.fst heq
  takes i hi := by
    obtain ⟨p', t, rest, hq, hdequeue, hdequeued, -⟩ := dequeue_shape h hi
    refine ⟨p', t, rest, hq, ?_, hdequeued⟩
    rw [poolStep, hi]
    exact hdequeue

/-- **The blocking pool takes each task once, in the order of the spawns, and no worker finds the
queue empty.** A call that no caller makes is a worker's step that `sem_wait` keeps back, a worker
that was not created, or a handle that is not held. -/
theorem blocking_pool_takes_in_order (os : List PoolOp)
    (hcalls : Lib.run poolStep blockingPool os ≠ .error .noSuchCall) :
    ∃ p, Lib.run poolStep blockingPool os = .ok p ∧ ∃ q, PoolLaw p q := by
  have h₀ : ∃ q, PoolShape blockingPool q :=
    ⟨[], Lib.IsQueue.empty, rfl, rfl, rfl, ⟨by rintro t task ⟨⟩, fun _ _ => rfl, by
      rintro t task ⟨⟩⟩, fun _ _ => rfl⟩
  obtain ⟨p, hrun, q, hp⟩ := Lib.run_safe (I := fun p => ∃ q, PoolShape p q) (P := fun _ _ => True)
    (fun p o ⟨q, hp⟩ _ hok => by
      obtain ⟨p', q', hstep, hp'⟩ := poolShape_step hp hok
      exact ⟨p', hstep, q', hp'⟩) h₀ (Lib.along_of_forall fun _ _ _ => trivial) hcalls
  exact ⟨p, hrun, q, hp.law⟩

/-- Two tasks and two workers: the second worker takes the first task. -/
theorem blocking_pool_takes_in_order_two :
    ∃ p, Lib.run poolStep blockingPool [.spawn false, .create, .create, .worker 0, .spawn true,
        .worker 1, .worker 1, .worker 0, .drop 0] = .ok p ∧ ∃ q, PoolLaw p q :=
  blocking_pool_takes_in_order _ (by rintro ⟨⟩)

end Taskio
