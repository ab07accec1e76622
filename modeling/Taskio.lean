import Taskio.Lib.Run
import Taskio.Lib.Chain
import Taskio.Lib.ListSet
import Taskio.Lib.Agenda
import Taskio.Lib.Docket
import Taskio.Lib.Lifecycle
import Taskio.Lib.Cells
import Taskio.Lib.Outcome
import Taskio.Lib.Slices
import Taskio.Machine
import Taskio.Future
import Taskio.Collections.Vec
import Taskio.Collections.Buffer
import Taskio.Collections.RemoveIf
import Taskio.Collections.VecRuns
import Taskio.Wheel.Basic
import Taskio.Wheel.Operations
import Taskio.Wheel.Geometry
import Taskio.Wheel.Levels
import Taskio.Wheel.Cascade
import Taskio.Wheel.Hierarchy
import Taskio.Wheel.Simulation
import Taskio.Wheel.Delivery
import Taskio.Wheel.Cancellation
import Taskio.Wheel.Bounds
import Taskio.Wheel.Handles
import Taskio.Wheel.Lookup
import Taskio.Wheel.Standalone
import Taskio.Wheel.Memory
import Taskio.Wheel.MemoryRuns
import Taskio.Wheel.Release
import Taskio.Wheel.Pending
import Taskio.Wheel.Docket
import Taskio.Common.JoinExt
import Taskio.Common.JoinEffect
import Taskio.Common.ReadyList
import Taskio.Common.JoinCounter
import Taskio.Common.Join
import Taskio.Common.WokenOnce
import Taskio.Common.Sleep
import Taskio.Common.SleepRuns
import Taskio.Common.SleepClock
import Taskio.Runtime.Scheduler
import Taskio.Runtime.ReadyQueue
import Taskio.Runtime.Effect
import Taskio.Runtime.QueueShape
import Taskio.Runtime.Turn
import Taskio.Runtime.Abort
import Taskio.Runtime.Completion
import Taskio.Runtime.Notification
import Taskio.Runtime.Wakeups
import Taskio.Runtime.References
import Taskio.Runtime.Progress
import Taskio.Runtime.ReferenceRuns
import Taskio.Runtime.EventLoop
import Taskio.Runtime.Epoll
import Taskio.Runtime.EpollRuns
import Taskio.Runtime.Joiners
import Taskio.Runtime.JoinerRuns
import Taskio.Runtime.Outputs
import Taskio.Runtime.BlockingTask
import Taskio.Runtime.BlockingRuns
import Taskio.Runtime.BlockingPool
import Taskio.Async.AsyncFn
import Taskio.Async.Refinement
import Taskio.Async.FutureTree
import Taskio.Async.Ownership
import Taskio.Async.Cleanup
import Taskio.Async.TreeRuntime
import Taskio.Async.Sleeping
import Taskio.Async.Select
import Taskio.Async.SelectNodes
import Taskio.Async.SelectRuns
import Taskio.Sync.Semaphore
import Taskio.Sync.WaitQueue
import Taskio.Sync.NodeWaker
import Taskio.Sync.Fairness
import Taskio.Sync.NodeLife
import Taskio.Sync.Permits
import Taskio.Sync.Blocking
import Taskio.Sync.TryLock
import Taskio.Sync.Mixed
import Taskio.Sync.MixedRuns
import Taskio.Sync.Mutex
import Taskio.Sync.Exclusion
import Taskio.Sync.EarlyPoll
import Taskio.Sync.LockSteps
import Taskio.Sync.AwaitedWait
import Taskio.Sync.Handover
import Taskio.Sync.MutexOrder
import Taskio.Sync.Erasure
import Taskio.Sync.TimedWait
import Taskio.Sync.OwnWait
import Taskio.Sync.TimedRuns
import Taskio.Async.SleepTree
import Taskio.Async.SleepTreeRuns
import Taskio.Async.SleepTreePoll
import Taskio.Async.SleepTreeTime
