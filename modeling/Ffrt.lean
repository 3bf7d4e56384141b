import Ffrt.Support.Machine
import Ffrt.Support.Ring
import Ffrt.Support.Count
import Ffrt.Support.Multimap
import Ffrt.Support.Intrusive
import Ffrt.Support.Digraph
import Ffrt.Dependence.Task
import Ffrt.Dependence.Version
import Ffrt.Dependence.Manager
import Ffrt.Dependence.Ordering
import Ffrt.Dependence.Lifecycle
import Ffrt.Queue.Base
import Ffrt.Queue.Serial
import Ffrt.Queue.SerialProtocol
import Ffrt.Queue.Concurrent
import Ffrt.Queue.ConcurrentProtocol
import Ffrt.Queue.Adapter
import Ffrt.Queue.AdapterProtocol
import Ffrt.Queue.Monitor
import Ffrt.Queue.MonitorProtocol
import Ffrt.Queue.Cancel
import Ffrt.Queue.Starvation
import Ffrt.Sync.Mutex
import Ffrt.Sync.MutexProtocol
import Ffrt.Sync.RecursiveMutex
import Ffrt.Sync.RecursiveMutexProtocol
import Ffrt.Sync.DelayedWorker
import Ffrt.Sync.WaitQueue
import Ffrt.Sync.SharedMutex
import Ffrt.Sync.SharedMutexProtocol
import Ffrt.Sync.Timer
import Ffrt.Sync.TimerProtocol
import Ffrt.Sched.Uv
import Ffrt.Sched.RunQueue
import Ffrt.Sched.LoadPredictor
import Ffrt.Sched.Interval
import Ffrt.Eu.Poller
import Ffrt.Eu.LoopTimer
import Ffrt.Eu.LoopTimerProtocol
import Ffrt.Eu.WorkerPool
import Ffrt.Eu.WorkerPoolProtocol
import Ffrt.Pattern.JobRing
import Ffrt.Pattern.JobRingProtocol
import Ffrt.Pattern.LfQueue
import Ffrt.Pattern.LfQueueProtocol
import Ffrt.Pattern.SpscQueue
import Ffrt.Pattern.JobPartner
import Ffrt.Pattern.JobPartnerAccounts
import Ffrt.Pattern.JobPartnerProtocol
import Ffrt.Util.GraphCheck
import Ffrt.Util.Slab
import Ffrt.Util.SpmcQueue
