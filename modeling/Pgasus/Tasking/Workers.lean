import Pgasus.Library.Runs
import Pgasus.Library.Totals
import Pgasus.Tasking.Scheduling

/-! What worker threads do with tasks and with their own place stacks, and how they
are started and stopped. What `synchronize` answers and when a waiting task is
notified is left open; an assertion that fails ends the run. -/
namespace Pgasus.Workers
open Totals
open Tasking (Task Worker Status)

variable {Place : Type}

/-- Where a worker thread is in `start_new_context`; a dropped task waits when its
list of triggerables is not empty. -/
inductive Pc
  | loop
  | interrupted (task : Task) (waits : Bool)
  | pausing (task : Task) (waits : Bool)
  | synchronizing (task : Task)
  | getting
  | polling
  | taken (task : Task)
  | kept (task : Task)
  | scheduled (task : Task)
  | running (task : Task)
  | finished (task : Task)
  | signaling (task : Task)
  | ended
deriving DecidableEq

/-- The task whose `_mutex` is held between two steps. -/
def Pc.mutex : Pc → Option Task
  | .synchronizing task => some task
  | .signaling task => some task
  | _ => none

/-- The place stack of a thread, and the place that its allocations go to; none is
the thread's own source. -/
structure ThreadLocalStorage (Place : Type) where
  placeStack : List Place
  currMsource : Option Place

namespace ThreadLocalStorage
variable (tls : ThreadLocalStorage Place)

def fresh : ThreadLocalStorage Place := ⟨[],none⟩
def push (place : Place) : ThreadLocalStorage Place := ⟨tls.placeStack ++ [place],some place⟩
def pop : ThreadLocalStorage Place := ⟨tls.placeStack.dropLast,tls.placeStack.dropLast.getLast?⟩
def popAll : List Place × ThreadLocalStorage Place := (tls.placeStack,⟨[],none⟩)
def pushAll (places : List Place) : ThreadLocalStorage Place :=
  ⟨tls.placeStack ++ places,(tls.placeStack ++ places).getLast?⟩

end ThreadLocalStorage

/-- A task's fields; `pushed` records what it has pushed and not yet popped. -/
structure TaskData (Place : Type) where
  status : Status
  hasStarted : Bool
  homeThread : Option Worker
  placeStack : List Place
  pushed : List Place

structure WorkerThread (Place : Type) where
  pc : Pc
  tls : ThreadLocalStorage Place
  done : Bool
  destructed : Bool

/-- A worker is the position of its object in the list, so that objects stay apart.
`dangling` records that a destructed worker was looked into. -/
structure State (Place : Type) where
  spawned : Nat
  tasks : Task → TaskData Place
  queued : List Task
  workers : List (WorkerThread Place)
  dangling : Bool

def TaskData.fresh : TaskData Place := ⟨.ready,false,none,[],[]⟩
def WorkerThread.fresh : WorkerThread Place := ⟨.loop,.fresh,false,false⟩
def State.start (count : Nat) : State Place := ⟨0,fun _ => .fresh,[],List.replicate count .fresh,false⟩

namespace State
variable (state : State Place)

def pc (worker : Worker) : Option Pc := (state.workers[worker]?).map WorkerThread.pc

def free (task : Task) : Bool := state.workers.all (fun worker => worker.pc.mutex ≠ some task)

def modify (task : Task) (change : TaskData Place → TaskData Place) : State Place :=
  {state with tasks := Function.update state.tasks task (change (state.tasks task))}

def setWorker (worker : Worker) (thread : WorkerThread Place) : State Place :=
  {state with workers := state.workers.set worker thread}

def putTask (task : Task) : State Place := {state with queued := state.queued ++ [task]}

def destructed (worker : Worker) : Bool := (state.workers[worker]?).any WorkerThread.destructed

/-- The worker that `_home_thread` points to is looked into, if there is one. -/
def lookHome (task : Task) : State Place :=
  {state with dangling := state.dangling || (state.tasks task).homeThread.any state.destructed}

end State

inductive Action (Place : Type)
  | spawn
  | push (worker : Worker) (place : Place)
  | pop (worker : Worker)
  | drop (worker : Worker) (waits : Bool)
  | finish (worker : Worker)
  | take (worker : Worker) (task : Task)
  | notify (task : Task)
  | cpuid (task : Task)
  | create
  | shutdown (worker : Worker)
  | destruct (worker : Worker)
  | advance (worker : Worker) (answer : Bool)

def advance (state : State Place) (worker : Worker) (thread : WorkerThread Place) (answer : Bool) :
    Option (State Place) :=
  match thread.pc with
  | .loop => some (state.setWorker worker {thread with pc := if thread.done then .ended else .getting})
  | .interrupted task waits =>
    some (state.setWorker worker {thread with pc := if thread.done then .ended else .pausing task waits})
  -- Task::yield
  | .pausing task false =>
    if state.free task ∧ (state.tasks task).status = .running then
      let (places,tls) := thread.tls.popAll
      some (((state.modify task (fun data => {data with status := .suspended,placeStack := places})).putTask
        task).setWorker worker {thread with pc := .getting,tls := tls})
    else none
  -- Task::wait
  | .pausing task true =>
    if state.free task then some (state.setWorker worker {thread with pc := .synchronizing task}) else none
  | .synchronizing task =>
    if answer then
      if (state.tasks task).status = .running then
        let (places,tls) := thread.tls.popAll
        some ((state.modify task (fun data => {data with status := .waiting,placeStack := places})).setWorker worker
          {thread with pc := .getting,tls := tls})
      else none
    else
      some (state.setWorker worker
        {thread with pc := if (state.tasks task).status = .waiting then .getting else .kept task})
  -- get_new_task
  | .getting => some (state.setWorker worker {thread with pc := if thread.done then .ended else .polling})
  | .polling => some (state.setWorker worker {thread with pc := .getting})
  -- Task::schedule
  | .taken task | .kept task =>
    if state.free task then
      some ((state.modify task (fun data =>
          {data with status := .running,homeThread := some worker,placeStack := []})).setWorker worker
        {thread with pc := .scheduled task,tls := thread.tls.pushAll (state.tasks task).placeStack})
    else none
  -- Task::run, or Task::get_context and the jump
  | .scheduled task =>
    if state.free task then
      some ((state.modify task (fun data => {data with hasStarted := true})).setWorker worker
        {thread with pc := .running task})
    else none
  | .running _ => none
  -- Task::done
  | .finished task =>
    if state.free task ∧ (state.tasks task).status = .running then
      some ((state.modify task (fun data => {data with status := .completed})).setWorker worker
        {thread with pc := .signaling task,tls := thread.tls.popAll.2})
    else none
  | .signaling _ => some (state.setWorker worker {thread with pc := .loop})
  | .ended => none

def step (state : State Place) : Action Place → Option (State Place)
  | .spawn => some {state.putTask state.spawned with spawned := state.spawned + 1}
  | .push worker place =>
    match state.workers[worker]? with
    | some ⟨.running task,tls,done,destructed⟩ =>
      some ((state.modify task (fun data => {data with pushed := data.pushed ++ [place]})).setWorker worker
        ⟨.running task,tls.push place,done,destructed⟩)
    | _ => none
  -- a task pops only what it pushed
  | .pop worker =>
    match state.workers[worker]? with
    | some ⟨.running task,tls,done,destructed⟩ =>
      if (state.tasks task).pushed = [] then none
      else some ((state.modify task (fun data => {data with pushed := data.pushed.dropLast})).setWorker worker
        ⟨.running task,tls.pop,done,destructed⟩)
    | _ => none
  | .drop worker waits =>
    match state.workers[worker]? with
    | some ⟨.running task,tls,done,destructed⟩ =>
      some (state.setWorker worker ⟨.interrupted task waits,tls,done,destructed⟩)
    | _ => none
  | .finish worker =>
    match state.workers[worker]? with
    | some ⟨.running task,tls,done,destructed⟩ => some (state.setWorker worker ⟨.finished task,tls,done,destructed⟩)
    | _ => none
  | .take worker task =>
    match state.workers[worker]? with
    | some ⟨.polling,tls,done,destructed⟩ =>
      if task ∈ state.queued then
        some ({state with queued := state.queued.erase task}.setWorker worker ⟨.taken task,tls,done,destructed⟩)
      else none
    | _ => none
  -- Task::notify, called for a client by whoever signals it
  | .notify task =>
    if state.free task ∧ (state.tasks task).status = .waiting then
      some (((state.lookHome task).modify task (fun data => {data with status := .suspended})).putTask task)
    else none
  | .cpuid task => some (state.lookHome task)
  -- create_thread and stop_wait_thread
  | .create => some {state with workers := state.workers ++ [.fresh]}
  | .shutdown worker =>
    (state.workers[worker]?).map (fun thread => state.setWorker worker {thread with done := true})
  | .destruct worker =>
    match state.workers[worker]? with
    | some ⟨.ended,tls,done,false⟩ => some (state.setWorker worker ⟨.ended,tls,done,true⟩)
    | _ => none
  | .advance worker answer =>
    match state.workers[worker]? with
    | some thread => advance state worker thread answer
    | none => none

def Pc.runs : Pc → Option Task
  | .interrupted task _ => some task
  | .pausing task _ => some task
  | .synchronizing task => some task
  | .kept task => some task
  | .scheduled task => some task
  | .running task => some task
  | .finished task => some task
  | _ => none

def Pc.holds : Pc → Option Task
  | .taken task => some task
  | pc => pc.runs

end Pgasus.Workers
