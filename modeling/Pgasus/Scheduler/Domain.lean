import Pgasus.Library.Queues
import Mathlib.Data.List.Range
import Mathlib.Algebra.Ring.Int.Defs
import Mathlib.Algebra.Ring.Nat

/-! `TaskCollection` and `SchedulingDomain` as functions of one caller. A null
dereference or a failed assertion is `none`. -/
namespace Pgasus.Scheduler
open Queues

/-- The values of `Priority`, from `min()` to `max()`. -/
structure Priority where
  value : Int
  least : -16 ≤ value
  most : value ≤ 16
deriving DecidableEq

namespace Priority

theorem least_zero : (-16 : Int) ≤ 0 := by decide

theorem zero_most : (0 : Int) ≤ 16 := by decide

def index (priority : Priority) : Nat := (priority.value - (-16)).toNat

def maxIndex : Nat := 32

theorem index_le (priority : Priority) : priority.index ≤ maxIndex := by
  have most := priority.most
  unfold index maxIndex
  omega

end Priority

structure Task where
  id : Nat
  priority : Priority
deriving DecidableEq

def Task.level (task : Task) : Nat := task.priority.index

def toSize (thid : Int) : Nat := (thid % 2^64).toNat

/-- A queue entry is a pointer of 8 bytes in an address space of 2^64. -/
def queueCapacity : Nat := 2^61

/-- The queues are named in the order of their construction; queue 0 is
`_global_tasks`, and a queue that is no longer pointed to stays allocated. -/
structure TaskCollection where
  queues : Nat → List Task
  constructed : Nat
  threadTasks : List (Option Nat)

namespace TaskCollection

def globalTasks : Nat := 0

def create (maxThreads : Nat) : TaskCollection := ⟨fun _ => [],1,List.replicate maxThreads none⟩

variable (tasks : TaskCollection)

def held : List Task := contents (List.range tasks.constructed) tasks.queues

def getThreadQueue (idx : Nat) : Option Nat := (tasks.threadTasks[idx]?).join

/-- `TaskQueueEntry::create`. -/
def registerThread (idx : Nat) : TaskCollection :=
  match tasks.getThreadQueue idx with
  | some _ => tasks
  | none =>
    ⟨Function.update tasks.queues tasks.constructed [],tasks.constructed + 1,
      tasks.threadTasks.set idx (some tasks.constructed)⟩

def pushBack (queue : Nat) (task : Task) : TaskCollection :=
  {tasks with queues := push tasks.queues queue task}

def tryPopFront (queue : Nat) : Option (Task × TaskCollection) :=
  (pop tasks.queues queue).map (fun (task,queues) => (task,{tasks with queues := queues}))

def clearPointer (idx : Nat) : TaskCollection := {tasks with threadTasks := tasks.threadTasks.set idx none}

/-- The loop of `deregister_thread`, with its number of rounds as fuel. -/
def drain (queue : Nat) : Nat → TaskCollection → TaskCollection
  | 0, tasks => tasks
  | rounds+1, tasks =>
    match tasks.tryPopFront queue with
    | some (task,rest) => drain queue rounds (rest.pushBack globalTasks task)
    | none => tasks

def deregisterThread (idx : Nat) : Option TaskCollection :=
  match tasks.getThreadQueue idx with
  | none => none
  | some queue => some (drain queue (tasks.queues queue).length (tasks.clearPointer idx))

def tryGetThreadTask (idx : Nat) : Option (Task × TaskCollection) :=
  match tasks.getThreadQueue idx with
  | none => none
  | some queue => tasks.tryPopFront queue

/-- The thread visited in round `i` of the loop that starts at `start`. -/
def stealIndex (cnt i : Nat) : Nat := if i ≥ cnt then i - cnt else i

def steal (cnt : Nat) : Nat → Nat → Option (Task × TaskCollection)
  | _, 0 => none
  | i, rounds+1 =>
    match tasks.tryGetThreadTask (stealIndex cnt i) with
    | some taken => some taken
    | none => steal cnt (i + 1) rounds

/-- `random` is the value drawn from `_random`. -/
def tryGet (thIdx random : Nat) : Option (Task × TaskCollection) :=
  match tasks.tryGetThreadTask thIdx with
  | some taken => some taken
  | none =>
    match tasks.tryPopFront globalTasks with
    | some taken => some taken
    | none =>
      let cnt := tasks.threadTasks.length
      if cnt > 0 then tasks.steal cnt (random % cnt) cnt else none

/-- `push_back` throws when no entry can be allocated. -/
def put (task : Task) (thIdx : Nat) : Option TaskCollection :=
  if tasks.held.length < queueCapacity then
    some (tasks.pushBack ((tasks.getThreadQueue thIdx).getD globalTasks) task)
  else none

end TaskCollection

structure PriorityTasks where
  tasks : Option TaskCollection
  count : Nat

structure SchedulingDomain where
  cpuCount : Nat
  activeThreadIds : List Nat
  topPriorityIdx : Nat
  priorities : Nat → PriorityTasks

namespace SchedulingDomain

def create (cpuCount : Nat) : SchedulingDomain := ⟨cpuCount,[],0,fun _ => ⟨none,0⟩⟩

variable (domain : SchedulingDomain)

def setPriority (idx : Nat) (tasks : PriorityTasks) : SchedulingDomain :=
  {domain with priorities := Function.update domain.priorities idx tasks}

/-- The collection that the first `put_task` of a level creates. -/
def newCollection : TaskCollection :=
  domain.activeThreadIds.foldl TaskCollection.registerThread (.create domain.cpuCount)

/-- `_priorities[idx].tasks.load()` after the lazy creation. -/
def createLazy (idx : Nat) : SchedulingDomain × TaskCollection :=
  match (domain.priorities idx).tasks with
  | some tasks => (domain,tasks)
  | none => (domain.setPriority idx ⟨some domain.newCollection,0⟩,domain.newCollection)

def putTask (task : Task) (thid : Int) : Option SchedulingDomain :=
  let (created,tasks) := domain.createLazy task.level
  match tasks.put task (toSize thid) with
  | none => none
  | some tasks =>
    let count := ((created.priorities task.level).count + 1) % 2^64
    let counted := created.setPriority task.level ⟨some tasks,count⟩
    some {counted with topPriorityIdx := max counted.topPriorityIdx task.level}

/-- The loop of `try_get_task` over the levels below the given one; `random` is
the value drawn at a level. -/
def search (thid : Int) (random : Nat → Nat) : Nat → Option (Option Task × SchedulingDomain)
  | 0 => some (none,domain)
  | idx+1 =>
    if (domain.priorities idx).count > 0 then
      match (domain.priorities idx).tasks with
      | none => none
      | some tasks =>
        match tasks.tryGet (toSize thid) (random idx) with
        | some (task,rest) =>
          let count := ((domain.priorities idx).count + (2^64 - 1)) % 2^64
          some (some task,domain.setPriority idx ⟨some rest,count⟩)
        | none => search thid random idx
    else search thid random idx

def tryGetTask (thid : Int) (random : Nat → Nat) : Option (Option Task × SchedulingDomain) :=
  domain.search thid random (domain.topPriorityIdx + 1)

/-- `assert(idx < _thread_tasks.size())` of `register_thread`, for every level. -/
def addThread (idx : Nat) : Option SchedulingDomain :=
  if idx < domain.cpuCount then
    some {domain with
      priorities := fun level =>
        let tasks := domain.priorities level
        ⟨tasks.tasks.map (·.registerThread idx),tasks.count⟩
      activeThreadIds := domain.activeThreadIds ++ [idx]}
  else none

/-- `deregister_thread` of a level's collection, if it has one. -/
def deregister (idx level : Nat) : Option (Option TaskCollection) :=
  match (domain.priorities level).tasks with
  | none => some none
  | some tasks => (tasks.deregisterThread idx).map some

def removeThread (idx : Nat) : Option SchedulingDomain :=
  if (List.range (Priority.maxIndex + 1)).all (fun level => (domain.deregister idx level).isSome) ∧
      idx ∈ domain.activeThreadIds ∧ idx ∉ domain.activeThreadIds.erase idx then
    some {domain with
      priorities := fun level => ⟨(domain.deregister idx level).join,(domain.priorities level).count⟩
      activeThreadIds := domain.activeThreadIds.erase idx}
  else none

end SchedulingDomain
end Pgasus.Scheduler
