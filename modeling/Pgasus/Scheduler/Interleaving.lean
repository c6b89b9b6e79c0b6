import Pgasus.Library.Runs
import Pgasus.Scheduler.Domain

/-! Any number of threads that call a scheduling domain at once. A step is an
atomic load, store or update, a locked operation of a queue, or the taking or
giving back of a mutex. -/
namespace Pgasus.Scheduler
open Runs

/-- What `add_thread` and `remove_thread` do differently under the same locks. -/
inductive Change
  | add (idx : Nat)
  | remove (idx : Nat)
deriving DecidableEq

inductive Call
  | putTask (task : Task) (thid : Int)
  | tryGetTask (thid : Int)
  | change (change : Change)

/-- Where a thread is in its call. A `rounds` counts down the loop over the other
threads, and the level of `getCount` is one above the next one to look at. -/
inductive Pc
  | idle
  | putTest (task : Task) (thid : Int)
  | putLock (task : Task) (thid : Int)
  | putRetest (task : Task) (thid : Int)
  | putReset (task : Task) (thid : Int)
  | putLockActive (task : Task) (thid : Int)
  | putPublish (task : Task) (thid : Int) (tasks : TaskCollection)
  | putUnlockActive (task : Task) (thid : Int)
  | putUnlock (task : Task) (thid : Int)
  | putLoad (task : Task) (thid : Int)
  | putPush (task : Task) (queue : Nat)
  | putCount (task : Task)
  | putHead (task : Task)
  | putRaise (task : Task) (expected : Nat)
  | getHead (thid : Int)
  | getCount (thid : Int) (level : Nat)
  | getOwn (thid : Int) (level : Nat)
  | getOwnPop (thid : Int) (level queue : Nat)
  | getGlobal (thid : Int) (level : Nat)
  | getStart (thid : Int) (level : Nat)
  | getSteal (thid : Int) (level i rounds : Nat)
  | getStealPop (thid : Int) (level i rounds queue : Nat)
  | getTaken (level : Nat) (task : Task)
  | lock (change : Change) (level : Nat)
  | visit (change : Change) (level : Nat)
  | clear (idx level queue : Nat)
  | drain (idx level queue : Nat)
  | move (idx level queue : Nat) (task : Task)
  | record (change : Change)
  | unlockActive (change : Change)
  | unlock (change : Change) (level : Nat)

def Call.pc : Call → Pc
  | .putTask task thid => .putTest task thid
  | .tryGetTask thid => .getHead thid
  | .change made => .lock made 0

/-- The domain with its mutexes. `begun`, `done` and `got` record the tasks of the
`put_task` calls so far, of those that have returned, and those that
`try_get_task` has returned; `published` the levels of stored collections. -/
structure Shared where
  domain : SchedulingDomain
  mutexes : Nat → Bool
  activeMutex : Bool
  begun : List Task
  done : List Task
  got : List Task
  published : List Nat

namespace Shared
variable (shared : Shared)

def collection (level : Nat) : Option TaskCollection := (shared.domain.priorities level).tasks
def count (level : Nat) : Nat := (shared.domain.priorities level).count

def setCollection (level : Nat) (tasks : TaskCollection) : Shared :=
  {shared with domain := shared.domain.setPriority level ⟨some tasks,shared.count level⟩}

def setCount (level count : Nat) : Shared :=
  {shared with domain := shared.domain.setPriority level ⟨shared.collection level,count % 2^64⟩}

def publish (level : Nat) (tasks : TaskCollection) : Shared :=
  {shared.setCollection level tasks with published := level::shared.published}

def setMutex (level : Nat) (locked : Bool) : Shared :=
  {shared with mutexes := Function.update shared.mutexes level locked}

def setActiveMutex (locked : Bool) : Shared := {shared with activeMutex := locked}

def setActive (ids : List Nat) : Shared := {shared with domain := {shared.domain with activeThreadIds := ids}}

def setHead (level : Nat) : Shared := {shared with domain := {shared.domain with topPriorityIdx := level}}

def begin (task : Task) : Shared := {shared with begun := task::shared.begun}
def finish (task : Task) : Shared := {shared with done := task::shared.done}
def give (task : Task) : Shared := {shared with got := task::shared.got}

/-- `push_back`, which throws when there is no memory for an entry. -/
def pushBack (level queue : Nat) (task : Task) : Option Shared :=
  match shared.collection level with
  | none => none
  | some tasks =>
    if tasks.held.length < queueCapacity then some (shared.setCollection level (tasks.pushBack queue task)) else none

def tryPopFront (level queue : Nat) (taken : Task → Pc) (missed : Pc) : Option (Shared × Pc) :=
  match shared.collection level with
  | none => none
  | some tasks =>
    match tasks.tryPopFront queue with
    | some (task,rest) => some (shared.setCollection level rest,taken task)
    | none => some (shared,missed)

end Shared

/-- The next step of a thread at a point, with the point it goes on at. `choice`
is the value of `_random`, or makes the weak exchange fail. -/
def act (shared : Shared) (choice : Nat) : Pc → Option (Shared × Pc)
  | .idle => none
  -- put_task
  | .putTest task thid =>
    some (shared,if (shared.collection task.level).isNone then .putLock task thid else .putLoad task thid)
  | .putLock task thid =>
    if shared.mutexes task.level then none else some (shared.setMutex task.level true,.putRetest task thid)
  | .putRetest task thid =>
    some (shared,if (shared.collection task.level).isNone then .putReset task thid else .putUnlock task thid)
  | .putReset task thid => some (shared.setCount task.level 0,.putLockActive task thid)
  | .putLockActive task thid =>
    if shared.activeMutex then none
    -- assert(idx < _thread_tasks.size()) of register_thread
    else if shared.domain.activeThreadIds.all (· < shared.domain.cpuCount) then
      some (shared.setActiveMutex true,.putPublish task thid shared.domain.newCollection)
    else none
  | .putPublish task thid tasks => some (shared.publish task.level tasks,.putUnlockActive task thid)
  | .putUnlockActive task thid => some (shared.setActiveMutex false,.putUnlock task thid)
  | .putUnlock task thid => some (shared.setMutex task.level false,.putLoad task thid)
  -- TaskCollection::put
  | .putLoad task thid =>
    match shared.collection task.level with
    | none => none
    | some tasks => some (shared,.putPush task ((tasks.getThreadQueue (toSize thid)).getD TaskCollection.globalTasks))
  | .putPush task queue => (shared.pushBack task.level queue task).map (·,.putCount task)
  | .putCount task => some (shared.setCount task.level (shared.count task.level + 1),.putHead task)
  | .putHead task => some (shared,.putRaise task shared.domain.topPriorityIdx)
  | .putRaise task expected =>
    if task.level ≤ expected then some (shared.finish task,.idle)
    else if shared.domain.topPriorityIdx = expected ∧ choice = 0 then
      some ((shared.setHead task.level).finish task,.idle)
    else some (shared,.putRaise task shared.domain.topPriorityIdx)
  -- try_get_task
  | .getHead thid => some (shared,.getCount thid (shared.domain.topPriorityIdx + 1))
  | .getCount _ 0 => some (shared,.idle)
  | .getCount thid (level+1) => some (shared,if shared.count level > 0 then .getOwn thid level else .getCount thid level)
  -- TaskCollection::try_get
  | .getOwn thid level =>
    match shared.collection level with
    | none => none
    | some tasks =>
      match tasks.getThreadQueue (toSize thid) with
      | none => some (shared,.getGlobal thid level)
      | some queue => some (shared,.getOwnPop thid level queue)
  | .getOwnPop thid level queue => shared.tryPopFront level queue (.getTaken level) (.getGlobal thid level)
  | .getGlobal thid level =>
    shared.tryPopFront level TaskCollection.globalTasks (.getTaken level) (.getStart thid level)
  | .getStart thid level =>
    match shared.collection level with
    | none => none
    | some tasks =>
      let cnt := tasks.threadTasks.length
      some (shared,if cnt > 0 then .getSteal thid level (choice % cnt) cnt else .getCount thid level)
  | .getSteal thid level _ 0 => some (shared,.getCount thid level)
  | .getSteal thid level i (rounds+1) =>
    match shared.collection level with
    | none => none
    | some tasks =>
      match tasks.getThreadQueue (TaskCollection.stealIndex tasks.threadTasks.length i) with
      | none => some (shared,.getSteal thid level (i + 1) rounds)
      | some queue => some (shared,.getStealPop thid level i rounds queue)
  | .getStealPop thid level i rounds queue =>
    shared.tryPopFront level queue (.getTaken level) (.getSteal thid level (i + 1) rounds)
  | .getTaken level task => some ((shared.setCount level (shared.count level + (2^64 - 1))).give task,.idle)
  -- add_thread, remove_thread
  | .lock change level =>
    if level ≤ Priority.maxIndex then
      if shared.mutexes level then none else some (shared.setMutex level true,.lock change (level + 1))
    else if shared.activeMutex then none else some (shared.setActiveMutex true,.visit change 0)
  | .visit change level =>
    if level ≤ Priority.maxIndex then
      match shared.collection level with
      | none => some (shared,.visit change (level + 1))
      | some tasks =>
        match change with
        | .add idx =>
          if idx < tasks.threadTasks.length then
            some (shared.setCollection level (tasks.registerThread idx),.visit change (level + 1))
          else none
        | .remove idx => (tasks.getThreadQueue idx).map (shared,.clear idx level ·)
    else some (shared,.record change)
  -- TaskCollection::deregister_thread
  | .clear idx level queue =>
    (shared.collection level).map fun tasks => (shared.setCollection level (tasks.clearPointer idx),.drain idx level queue)
  | .drain idx level queue =>
    shared.tryPopFront level queue (.move idx level queue) (.visit (.remove idx) (level + 1))
  | .move idx level queue task =>
    (shared.pushBack level TaskCollection.globalTasks task).map (·,.drain idx level queue)
  | .record (.add idx) =>
    some (shared.setActive (shared.domain.activeThreadIds ++ [idx]),.unlockActive (.add idx))
  | .record (.remove idx) =>
    if idx ∈ shared.domain.activeThreadIds ∧ idx ∉ shared.domain.activeThreadIds.erase idx then
      some (shared.setActive (shared.domain.activeThreadIds.erase idx),.unlockActive (.remove idx))
    else none
  | .unlockActive change => some (shared.setActiveMutex false,.unlock change 0)
  | .unlock change level =>
    if level ≤ Priority.maxIndex then some (shared.setMutex level false,.unlock change (level + 1))
    else some (shared,.idle)

structure State where
  shared : Shared
  threads : List Pc

def State.start (cpuCount threads : Nat) : State :=
  ⟨⟨.create cpuCount,fun _ => false,false,[],[],[],[]⟩,List.replicate threads .idle⟩

inductive Action
  | call (thread : Nat) (call : Call)
  | advance (thread choice : Nat)

def Shared.called (shared : Shared) : Call → Shared
  | .putTask task _ => shared.begin task
  | .tryGetTask _ => shared
  | .change _ => shared

def step (state : State) : Action → Option State
  | .call thread call =>
    match state.threads[thread]? with
    | some .idle => some ⟨state.shared.called call,state.threads.set thread call.pc⟩
    | _ => none
  | .advance thread choice =>
    match state.threads[thread]? with
    | none => none
    | some pc => (act state.shared choice pc).map fun (shared,next) => ⟨shared,state.threads.set thread next⟩

end Pgasus.Scheduler
