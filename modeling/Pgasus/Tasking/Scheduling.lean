import Pgasus.Library.Locks
import Pgasus.Library.Runs

/-! Tasks, the task queues and the worker threads that run the tasks. A section
under one lock is one step; where the code takes a second lock inside a section,
the section is cut there and its locks stay held. The worker that takes a task
chooses any queue, which covers priorities, domains and stealing. -/
namespace Pgasus.Tasking
open Runs

abbrev Task := Nat
abbrev Worker := Nat
abbrev MutexId := Nat
abbrev Queue := Nat

inductive TriggerableRef
  | task (task : Task)
  | mutex (mutex : MutexId)
deriving DecidableEq

inductive Lock
  | task (task : Task)
  | synchronizer (task : Task)
  | triggerable (ref : TriggerableRef)
deriving DecidableEq

inductive Status
  | ready
  | running
  | waiting
  | suspended
  | completed
deriving DecidableEq

inductive Assertion
  | notifyWaiting
  | waitRunning
  | yieldRunning
  | doneRunning
  | runNotStarted
  | contextStarted
  | signalDependancies
  | signaledOnce
deriving DecidableEq

/-- The caller of a walk over the clients: `Task::done`, or a release by a running task. -/
inductive Caller
  | done (task : Task)
  | running (task : Task)
deriving DecidableEq

inductive Pc
  | idle
  | taken (task : Task)
  | scheduled (task : Task) (hasStarted : Bool)
  | running (task : Task)
  | dropped (task : Task) (waits : List TriggerableRef)
  | waiting (task : Task) (waits : List TriggerableRef)
  | registering (task : Task) (waits : List TriggerableRef)
  | synchronized (task : Task) (mustWait : Bool)
  | completing (task : Task)
  | completed (task : Task)
  | signaling (ref : TriggerableRef) (clients : List Task) (caller : Caller)
  | notifying (ref : TriggerableRef) (client : Task) (clients : List Task) (caller : Caller)
  | handedOver (task : Task)
deriving DecidableEq

def Caller.locks : Caller → List Lock
  | .done task => [.task task]
  | .running _ => []

/-- The locks held between two steps. -/
def Pc.locks : Pc → List Lock
  | .waiting task _ => [.task task]
  | .registering task _ => [.synchronizer task,.task task]
  | .synchronized task _ => [.task task]
  | .completed task => [.task task]
  | .signaling ref _ caller => .triggerable ref :: caller.locks
  | .notifying ref client _ caller => .synchronizer client :: .triggerable ref :: caller.locks
  | _ => []

/-- A task's fields. The last four are a record of its waits: what made the last
one wait, what has signaled since, and how often it waited and was woken. -/
structure TaskData where
  status : Status
  hasStarted : Bool
  dependancies : List TriggerableRef
  signaled : Bool
  madeWait : List TriggerableRef
  signaledBy : List TriggerableRef
  waits : Nat
  wakes : Nat

def TaskData.fresh : TaskData := ⟨.ready,false,[],false,[],[],0,0⟩
def TaskData.become (status : Status) (data : TaskData) : TaskData := {data with status := status}
def TaskData.run (data : TaskData) : TaskData := {data with hasStarted := true}
def TaskData.forget (data : TaskData) : TaskData := {data with madeWait := [],signaledBy := []}
def TaskData.suspend (data : TaskData) : TaskData := {data with status := .waiting,waits := data.waits + 1}
def TaskData.wake (data : TaskData) : TaskData := {data with status := .suspended,wakes := data.wakes + 1}
def TaskData.setSignaled (data : TaskData) : TaskData := {data with signaled := true}
def TaskData.depend (ref : TriggerableRef) (data : TaskData) : TaskData :=
  {data with dependancies := data.dependancies ++ [ref],madeWait := data.madeWait ++ [ref]}
def TaskData.remove (ref : TriggerableRef) (data : TaskData) : TaskData :=
  {data with dependancies := data.dependancies.filter (· ≠ ref),signaledBy := data.signaledBy ++ [ref]}

/-- Tasks below `spawned` have been spawned; `failed` collects the assertions that failed. -/
structure State where
  spawned : Nat
  tasks : Task → TaskData
  clients : TriggerableRef → List Task
  locked : MutexId → Bool
  queues : Queue → List Task
  threads : Threads Worker Pc Lock
  failed : List Assertion

def State.start : State :=
  ⟨0,fun _ => .fresh,fun _ => [],fun _ => false,fun _ => [],⟨fun _ => .idle,fun _ => none⟩,[]⟩

namespace State
variable (state : State)

def pc (worker : Worker) : Pc := state.threads.pc worker

def modify (task : Task) (change : TaskData → TaskData) : State :=
  {state with tasks := Function.update state.tasks task (change (state.tasks task))}

def setState (task : Task) (status : Status) : State := state.modify task (TaskData.become status)

def check (holds : Bool) (assertion : Assertion) : State :=
  if holds then state else {state with failed := assertion::state.failed}

/-- `push_back` on one of the task queues. -/
def putTask (task : Task) (queue : Queue) : State :=
  {state with queues := Function.update state.queues queue (state.queues queue ++ [task])}

def enter (worker : Worker) (next : Pc) : Option State :=
  (state.threads.enter Pc.locks worker next).map (fun threads => {state with threads := threads})

def setClients (ref : TriggerableRef) (clients : List Task) : State :=
  {state with clients := Function.update state.clients ref clients}

/-- `must_wait`; asking a mutex locks it. -/
def mustWait : TriggerableRef → Bool
  | .task task => !(state.tasks task).signaled
  | .mutex mutex => state.locked mutex

def asked : TriggerableRef → State
  | .task _ => state
  | .mutex mutex => {state with locked := Function.update state.locked mutex true}

/-- `register_wait`, and the entry in the dependency list when it returned true. -/
def registerWait (ref : TriggerableRef) (task : Task) : State :=
  if state.mustWait ref then
    ((state.asked ref).setClients ref (state.clients ref ++ [task])).modify task (TaskData.depend ref)
  else state.asked ref

/-- The body of `Synchronizer::signal` up to the test for an empty list. -/
def removeDependancy (ref : TriggerableRef) (task : Task) : State :=
  (state.check (!(state.tasks task).dependancies.isEmpty) .signalDependancies).modify task (TaskData.remove ref)

end State

inductive Action
  | spawn (queue : Queue)
  | take (worker : Worker) (queue : Queue)
  | wait (worker : Worker) (waits : List TriggerableRef)
  | release (worker : Worker) (mutex : MutexId)
  | finish (worker : Worker)
  | advance (worker : Worker) (queue : Queue)
deriving DecidableEq

/-- The next step of a worker inside the library; a task that is put somewhere
goes to the given queue. -/
def advance (state : State) (worker : Worker) (queue : Queue) : Option State :=
  match state.pc worker with
  | .idle => none
  | .running _ => none
  -- Task::schedule, also for a task whose wait did not suspend it
  | .taken task =>
    if state.threads.free (.task task) then
      (state.setState task .running).enter worker (.scheduled task (state.tasks task).hasStarted)
    else none
  -- Task::run
  | .scheduled task false =>
    if state.threads.free (.task task) then
      ((state.check (!(state.tasks task).hasStarted) .runNotStarted).modify task TaskData.run).enter worker
        (.running task)
    else none
  -- Task::get_context and the jump
  | .scheduled task true =>
    if state.threads.free (.task task) then
      (state.check (state.tasks task).hasStarted .contextStarted).enter worker (.running task)
    else none
  -- Task::yield
  | .dropped task [] =>
    if state.threads.free (.task task) then
      (((state.check ((state.tasks task).status = .running) .yieldRunning).setState task .suspended).putTask
        task queue).enter worker (.handedOver task)
    else none
  -- Task::wait
  | .dropped task (ref::rest) => state.enter worker (.waiting task (ref::rest))
  | .waiting task waits => (state.modify task TaskData.forget).enter worker (.registering task waits)
  | .registering task (ref::rest) =>
    if state.threads.free (.triggerable ref) then
      (state.registerWait ref task).enter worker (.registering task rest)
    else none
  | .registering task [] => state.enter worker (.synchronized task (!(state.tasks task).dependancies.isEmpty))
  | .synchronized task true =>
    ((state.check ((state.tasks task).status = .running) .waitRunning).modify task TaskData.suspend).enter worker
      (.handedOver task)
  | .synchronized task false =>
    state.enter worker (if (state.tasks task).status = .waiting then .handedOver task else .taken task)
  -- Task::done
  | .completing task =>
    ((state.check ((state.tasks task).status = .running) .doneRunning).setState task .completed).enter worker
      (.completed task)
  -- set_signaled; nobody can see the client list before the walk over it has ended and cleared it
  | .completed task =>
    (((state.check (!(state.tasks task).signaled) .signaledOnce).modify task TaskData.setSignaled).setClients
      (.task task) []).enter worker (.signaling (.task task) (state.clients (.task task)) (.done task))
  -- Synchronizer::signal of the next client
  | .signaling ref (client::rest) caller =>
    if state.threads.free (.synchronizer client) then
      let signaled := state.removeDependancy ref client
      signaled.enter worker
        (if (signaled.tasks client).dependancies.isEmpty then .notifying ref client rest caller
          else .signaling ref rest caller)
    else none
  -- Task::notify
  | .notifying ref client rest caller =>
    if state.threads.free (.task client) then
      (((state.check ((state.tasks client).status = .waiting) .notifyWaiting).modify client TaskData.wake).putTask
        client queue).enter worker (.signaling ref rest caller)
    else none
  | .signaling _ [] (.done task) => state.enter worker (.handedOver task)
  | .signaling _ [] (.running task) => state.enter worker (.running task)
  | .handedOver _ => state.enter worker .idle

def step (state : State) : Action → Option State
  | .spawn queue => some {state.putTask state.spawned queue with spawned := state.spawned + 1}
  | .take worker queue =>
    match state.pc worker, state.queues queue with
    | .idle, task::rest =>
      {state with queues := Function.update state.queues queue rest}.enter worker (.taken task)
    | _, _ => none
  -- a running task calls numa::wait or numa::yield
  | .wait worker waits =>
    match state.pc worker with
    | .running task => if waits.Nodup then state.enter worker (.dropped task waits) else none
    | _ => none
  -- WaitObject::release: trigger_one
  | .release worker mutex =>
    match state.pc worker with
    | .running task =>
      if state.threads.free (.triggerable (.mutex mutex)) then
        match state.clients (.mutex mutex) with
        | [] => some {state with locked := Function.update state.locked mutex false}
        | client::rest =>
          (state.setClients (.mutex mutex) rest).enter worker (.signaling (.mutex mutex) [client] (.running task))
      else none
    | _ => none
  | .finish worker =>
    match state.pc worker with
    | .running task => state.enter worker (.completing task)
    | _ => none
  | .advance worker queue => advance state worker queue

end Pgasus.Tasking
