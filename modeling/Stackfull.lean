import Stackfull.Sync.ChannelStep
import Stackfull.Sync.ChannelInvariant
import Stackfull.Sync.ChannelSafety
import Stackfull.Sync.Semaphore
import Stackfull.Sync.SemaphoreStep
import Stackfull.Sync.SemaphoreInvariant
import Stackfull.Sync.SemaphoreLog
import Stackfull.Sync.SemaphoreSafety
import Stackfull.Sched.MpscQueue
import Stackfull.Sched.Idle
import Stackfull.Sched.IdleStep
import Stackfull.Sched.IdleInvariant
import Stackfull.Sched.IdleInbox
import Stackfull.Sched.IdleSafety
import Stackfull.Lib.Located
import Stackfull.Sched.Tasks
import Stackfull.Sched.TasksStep
import Stackfull.Sched.TasksControl
import Stackfull.Sched.TasksSafety
import Stackfull.Lib.Rounds
import Stackfull.Queue.Bbq
import Stackfull.Queue.BbqRing
import Stackfull.Queue.BbqOperations
import Stackfull.Queue.BbqThreads
import Stackfull.Queue.BbqSteps
import Stackfull.Queue.BbqSafety
import Stackfull.Queue.BbqContract
import Stackfull.Lib.StoreBuffer
import Stackfull.Sched.StaleToken
import Stackfull.Sched.StaleTokenSafety
import Stackfull.Exec.Wait
import Stackfull.Exec.WaitSafety
import Stackfull.Exec.Connect
import Stackfull.Exec.ConnectSafety
import Stackfull.Sched.Slots
import Stackfull.Sched.SlotsSafety
import Stackfull.Sched.Shutdown
import Stackfull.Sched.ShutdownSafety
import Stackfull.Io.Readiness
import Stackfull.Io.ReadinessSafety
import Stackfull.Lib.IntrusiveHeap
import Stackfull.Sched.Timekeeper
import Stackfull.Sched.TimekeeperSafety
import Stackfull.Sched.Keeper
import Stackfull.Sched.KeeperInvariant
import Stackfull.Sched.KeeperTimers
import Stackfull.Lib.Refinement
import Stackfull.Sched.Parker
import Stackfull.Sched.ParkerSafety
import Stackfull.Sched.SlotCache
import Stackfull.Sched.SlotCacheSafety
import Stackfull.Sched.LiveTasks
import Stackfull.Sched.Pinned
import Stackfull.Sched.Sweep
import Stackfull.Sched.SweepSafety
import Stackfull.Sched.CallbackTimers
import Stackfull.Sched.CallbackTimersSafety
import Stackfull.Exec.Spawn
import Stackfull.Exec.SpawnSafety
import Stackfull.Lib.History
import Stackfull.Queue.BbqAnswers
import Stackfull.Sched.TimerQueue
import Stackfull.Sched.MpscQueueContract
import Stackfull.Runtime.Blocking
import Stackfull.Runtime.Async
import Stackfull.Runtime.AsyncSafety
import Stackfull.Queue.RingQueue
import Stackfull.Queue.RingQueueSafety
import Stackfull.Lib.Loop
import Stackfull.Queue.Bwos
import Stackfull.Queue.BwosBatch
import Stackfull.Queue.BwosClaims
import Stackfull.Queue.BwosExactlyOnce
import Stackfull.Queue.BwosOwner
import Stackfull.Queue.BwosWords
import Stackfull.Io.BufReader
import Stackfull.Lib.Detached
import Stackfull.Lib.LossyFifo
import Stackfull.Runtime.BlockOn
import Stackfull.Sched.JoinHandle
import Stackfull.Sync.Stream
import Stackfull.Sync.StreamSafety
import Stackfull.Sync.WaitGroup
import Stackfull.Sync.WaitGroupLifetime
import Stackfull.Sync.ConditionVariable
import Stackfull.Sync.ConditionVariableSafety
import Stackfull.Sync.Select
import Stackfull.Sync.SelectSafety
import Stackfull.Io.BufWriter
import Stackfull.Io.TcpStream
import Stackfull.Io.UdpSocket
import Stackfull.Io.WaitTimeout
import Stackfull.Lib.Rows
import Stackfull.Sched.TakeLocal
import Stackfull.Sched.Upkeep
import Stackfull.Coro.Resume
import Stackfull.Coro.ResumeSafety
import Stackfull.Sched.CurrentTask
import Stackfull.Lib.Custody
import Stackfull.Lib.Regions
import Stackfull.Stack.PooledStackAllocator
import Stackfull.Stack.FreeLists
import Stackfull.Stack.PooledStackAllocatorSafety
import Stackfull.Stack.Reservations
import Stackfull.Lib.Words
import Stackfull.Coro.StackLayout
import Stackfull.Stack.MmapStackAllocator
import Stackfull.Lib.Bytes
import Stackfull.Lib.Confined
import Stackfull.Fcontext.Assembly
import Stackfull.Fcontext.Routines
import Stackfull.Fcontext.Contexts
import Stackfull.Fcontext.Threads
import Stackfull.Fcontext.Calls
import Stackfull.Fcontext.ThreadsSafety
import Stackfull.Coro.Handover
import Stackfull.Coro.HandoverSafety
import Stackfull.Lib.ReleaseAcquire
import Stackfull.Sync.SpinLock
import Stackfull.Sync.SpinLockSafety
import Stackfull.Sync.MutexSafety
import Stackfull.Exec.Timer
import Stackfull.Exec.TimerSafety
