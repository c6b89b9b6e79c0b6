import Pgasus.HashTable.Uniqueness
import Pgasus.HashTable.Inventory
import Pgasus.HashTable.Linearized
import Pgasus.HashTable.BucketIteration
import Pgasus.Tasking.Deadlock
import Pgasus.Tasking.Lifetime
import Pgasus.Tasking.Mutex
import Pgasus.Tasking.HomeThread
import Pgasus.Tasking.Shutdown
import Pgasus.Scheduler.Priorities
import Pgasus.Scheduler.Delivery
import Pgasus.Scheduler.Registration
import Pgasus.MemSource.Release
import Pgasus.MemSource.Custody
import Pgasus.MemSource.Placement
import Pgasus.MemSource.StackedMalloc
import Pgasus.MemSource.Teardown
import Pgasus.MemSource.Realloc
import Pgasus.MemSource.Migration
import Pgasus.MemSource.PageAlloc
import Pgasus.MemSource.PageLists
import Pgasus.MemSource.MigratePages
import Pgasus.MemSource.MigrateLocks
import Pgasus.MemSource.AllocEnd
import Pgasus.Containers.TableIteration
import Pgasus.Containers.ChunkPlacement
import Pgasus.Containers.ElementPlacement
import Pgasus.Containers.Ranges
import Pgasus.HashTable.SpaceIteration
import Pgasus.HashTable.InsertAsync
import Pgasus.Base.RWLock
import Pgasus.Base.RefPtr
import Pgasus.Base.NodeRequest
import Pgasus.Base.NodeMapping
import Pgasus.Scheduler.Sleep
import Pgasus.Tasking.Prefault
import Pgasus.Tasking.Contexts
import Pgasus.Base.RangeLoop
import Pgasus.Base.Topology
import Pgasus.Scheduler.Deadline
import Pgasus.HashTable.Occupancy
import Pgasus.MemSource.CurrentSource
import Pgasus.Tasking.Futures
import Pgasus.Scheduler.NodeSchedulers
import Pgasus.Tasking.ThreadManager
import Pgasus.Scheduler.WorkerThreads
import Pgasus.Base.SpinLock
import Pgasus.Scheduler.SyncDeque
import Pgasus.MemSource.NodeReplicated
import Pgasus.Scheduler.LockOrder
import Pgasus.Scheduler.Alone
import Pgasus.Base.Cpus
import Pgasus.Scheduler.Startup
