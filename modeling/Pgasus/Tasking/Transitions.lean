import Pgasus.Tasking.Scheduling

/-! What a step of the tasking system can do, said once: for each step of a worker
the state it makes, the point it goes to, and the guards it passed. -/
namespace Pgasus.Tasking
open Runs

inductive Effect (state : State) (worker : Worker) : State → Pc → Prop
  | took (queue : Queue) (task : Task) (rest : List Task) (here : state.pc worker = .idle)
      (found : state.queues queue = task::rest) :
      Effect state worker {state with queues := Function.update state.queues queue rest} (.taken task)
  | scheduled (task : Task) (here : state.pc worker = .taken task) :
      Effect state worker (state.setState task .running) (.scheduled task (state.tasks task).hasStarted)
  | ran (task : Task) (here : state.pc worker = .scheduled task false) :
      Effect state worker ((state.check (!(state.tasks task).hasStarted) .runNotStarted).modify task TaskData.run)
        (.running task)
  | jumped (task : Task) (here : state.pc worker = .scheduled task true) :
      Effect state worker (state.check (state.tasks task).hasStarted .contextStarted) (.running task)
  | dropped (task : Task) (waits : List TriggerableRef) (here : state.pc worker = .running task)
      (distinct : waits.Nodup) : Effect state worker state (.dropped task waits)
  | yielded (task : Task) (queue : Queue) (here : state.pc worker = .dropped task []) :
      Effect state worker (((state.check ((state.tasks task).status = .running) .yieldRunning).setState task
        .suspended).putTask task queue) (.handedOver task)
  | waiting (task : Task) (waits : List TriggerableRef) (here : state.pc worker = .dropped task waits) :
      Effect state worker state (.waiting task waits)
  | registering (task : Task) (waits : List TriggerableRef) (here : state.pc worker = .waiting task waits) :
      Effect state worker (state.modify task TaskData.forget) (.registering task waits)
  | registered (task : Task) (ref : TriggerableRef) (rest : List TriggerableRef)
      (here : state.pc worker = .registering task (ref::rest))
      (free : state.threads.free (.triggerable ref) = true) :
      Effect state worker (state.registerWait ref task) (.registering task rest)
  | synchronized (task : Task) (here : state.pc worker = .registering task []) :
      Effect state worker state (.synchronized task (!(state.tasks task).dependancies.isEmpty))
  | suspended (task : Task) (here : state.pc worker = .synchronized task true) :
      Effect state worker ((state.check ((state.tasks task).status = .running) .waitRunning).modify task
        TaskData.suspend) (.handedOver task)
  | resumed (task : Task) (here : state.pc worker = .synchronized task false) :
      Effect state worker state (if (state.tasks task).status = .waiting then .handedOver task else .taken task)
  | completing (task : Task) (here : state.pc worker = .running task) : Effect state worker state (.completing task)
  | completed (task : Task) (here : state.pc worker = .completing task) :
      Effect state worker ((state.check ((state.tasks task).status = .running) .doneRunning).setState task
        .completed) (.completed task)
  | setSignaled (task : Task) (here : state.pc worker = .completed task) :
      Effect state worker (((state.check (!(state.tasks task).signaled) .signaledOnce).modify task
        TaskData.setSignaled).setClients (.task task) [])
          (.signaling (.task task) (state.clients (.task task)) (.done task))
  | triggered (task : Task) (mutex : MutexId) (client : Task) (rest : List Task)
      (here : state.pc worker = .running task) (first : state.clients (.mutex mutex) = client::rest) :
      Effect state worker (state.setClients (.mutex mutex) rest) (.signaling (.mutex mutex) [client] (.running task))
  | signaled (ref : TriggerableRef) (client : Task) (rest : List Task) (caller : Caller)
      (here : state.pc worker = .signaling ref (client::rest) caller)
      (free : state.threads.free (.synchronizer client) = true) :
      Effect state worker (state.removeDependancy ref client)
        (if ((state.removeDependancy ref client).tasks client).dependancies.isEmpty
          then .notifying ref client rest caller else .signaling ref rest caller)
  | notified (ref : TriggerableRef) (client : Task) (rest : List Task) (caller : Caller) (queue : Queue)
      (here : state.pc worker = .notifying ref client rest caller) (free : state.threads.free (.task client) = true) :
      Effect state worker (((state.check ((state.tasks client).status = .waiting) .notifyWaiting).modify client
        TaskData.wake).putTask client queue) (.signaling ref rest caller)
  | finished (ref : TriggerableRef) (task : Task) (here : state.pc worker = .signaling ref [] (.done task)) :
      Effect state worker state (.handedOver task)
  | returned (ref : TriggerableRef) (task : Task) (here : state.pc worker = .signaling ref [] (.running task)) :
      Effect state worker state (.running task)
  | cleared (task : Task) (here : state.pc worker = .handedOver task) : Effect state worker state .idle

def State.goto (state : State) (worker : Worker) (next : Pc) : State :=
  {state with threads := state.threads.move Pc.locks worker next}

inductive Transition (state : State) : State → Prop
  | spawned (queue : Queue) : Transition state {state.putTask state.spawned queue with spawned := state.spawned + 1}
  | unlocked (mutex : MutexId) (free : state.threads.free (.triggerable (.mutex mutex)) = true)
      (nobody : state.clients (.mutex mutex) = []) :
      Transition state {state with locked := Function.update state.locked mutex false}
  | moved (worker : Worker) {changed : State} {next : Pc} (effect : Effect state worker changed next)
      (available : state.threads.available Pc.locks worker next = true) : Transition state (changed.goto worker next)

namespace State
variable (state : State) (task : Task)

@[simp] theorem check_threads (holds : Bool) (assertion : Assertion) :
    (state.check holds assertion).threads = state.threads := by unfold check; split <;> rfl

@[simp] theorem check_tasks (holds : Bool) (assertion : Assertion) :
    (state.check holds assertion).tasks = state.tasks := by unfold check; split <;> rfl

@[simp] theorem check_queues (holds : Bool) (assertion : Assertion) :
    (state.check holds assertion).queues = state.queues := by unfold check; split <;> rfl

@[simp] theorem check_clients (holds : Bool) (assertion : Assertion) :
    (state.check holds assertion).clients = state.clients := by unfold check; split <;> rfl

@[simp] theorem check_locked (holds : Bool) (assertion : Assertion) :
    (state.check holds assertion).locked = state.locked := by unfold check; split <;> rfl

@[simp] theorem check_spawned (holds : Bool) (assertion : Assertion) :
    (state.check holds assertion).spawned = state.spawned := by unfold check; split <;> rfl

@[simp] theorem asked_threads (ref : TriggerableRef) : (state.asked ref).threads = state.threads := by cases ref <;> rfl
@[simp] theorem asked_tasks (ref : TriggerableRef) : (state.asked ref).tasks = state.tasks := by cases ref <;> rfl
@[simp] theorem asked_queues (ref : TriggerableRef) : (state.asked ref).queues = state.queues := by cases ref <;> rfl
@[simp] theorem asked_clients (ref : TriggerableRef) : (state.asked ref).clients = state.clients := by cases ref <;> rfl
@[simp] theorem asked_spawned (ref : TriggerableRef) : (state.asked ref).spawned = state.spawned := by cases ref <;> rfl
@[simp] theorem asked_failed (ref : TriggerableRef) : (state.asked ref).failed = state.failed := by cases ref <;> rfl

@[simp] theorem registerWait_threads (ref : TriggerableRef) :
    (state.registerWait ref task).threads = state.threads := by
  unfold registerWait
  split <;> simp [modify,setClients]

@[simp] theorem removeDependancy_threads (ref : TriggerableRef) :
    (state.removeDependancy ref task).threads = state.threads := by simp [removeDependancy,modify]

theorem modify_tasks (change : TaskData → TaskData) (other : Task) :
    (state.modify task change).tasks other = if other = task then change (state.tasks task) else state.tasks other :=
  Function.update_apply _ _ _ _

theorem modify_keeps {Value : Type} (field : TaskData → Value) (change : TaskData → TaskData)
    (keeps : ∀ data, field (change data) = field data) (other : Task) :
    field ((state.modify task change).tasks other) = field (state.tasks other) := by
  rw [modify_tasks]
  split
  next same => rw [keeps,same]
  next => rfl

theorem registerWait_keeps {Value : Type} (field : TaskData → Value)
    (keeps : ∀ ref data, field (TaskData.depend ref data) = field data) (ref : TriggerableRef) (other : Task) :
    field ((state.registerWait ref task).tasks other) = field (state.tasks other) := by
  unfold registerWait
  split
  next => rw [modify_keeps _ _ field _ (keeps ref)]; simp [setClients]
  next => simp

@[simp] theorem registerWait_queues (ref : TriggerableRef) : (state.registerWait ref task).queues = state.queues := by
  unfold registerWait
  split <;> simp [modify,setClients]

@[simp] theorem registerWait_spawned (ref : TriggerableRef) :
    (state.registerWait ref task).spawned = state.spawned := by
  unfold registerWait
  split <;> simp [modify,setClients]

theorem removeDependancy_keeps {Value : Type} (field : TaskData → Value)
    (keeps : ∀ ref data, field (TaskData.remove ref data) = field data) (ref : TriggerableRef) (other : Task) :
    field ((state.removeDependancy ref task).tasks other) = field (state.tasks other) := by
  unfold removeDependancy
  rw [modify_keeps _ _ field _ (keeps ref),check_tasks]

theorem enter_some {worker : Worker} {next : Pc} {final : State} (entered : state.enter worker next = some final) :
    final = state.goto worker next ∧ state.threads.available Pc.locks worker next = true := by
  obtain ⟨threads,moved,rfl⟩ := Option.map_eq_some_iff.mp entered
  obtain ⟨rfl,available⟩ := Threads.enter_some moved
  exact ⟨rfl,available⟩

end State

theorem Effect.threads {state changed : State} {worker : Worker} {next : Pc}
    (effect : Effect state worker changed next) : changed.threads = state.threads := by
  cases effect <;> simp [State.modify,State.setState,State.putTask,State.setClients]

theorem Effect.transition {state changed final : State} {worker : Worker} {next : Pc}
    (effect : Effect state worker changed next) (entered : changed.enter worker next = some final) :
    Transition state final := by
  obtain ⟨rfl,available⟩ := State.enter_some changed entered
  exact .moved worker effect (effect.threads ▸ available)

theorem advance_transition {state final : State} {worker : Worker} {queue : Queue}
    (stepped : advance state worker queue = some final) : Transition state final := by
  unfold advance at stepped
  split at stepped
  next => cases stepped
  next => cases stepped
  next task here =>
    split at stepped
    next => exact (Effect.scheduled task here).transition stepped
    next => cases stepped
  next task here =>
    split at stepped
    next => exact (Effect.ran task here).transition stepped
    next => cases stepped
  next task here =>
    split at stepped
    next => exact (Effect.jumped task here).transition stepped
    next => cases stepped
  next task here =>
    split at stepped
    next => exact (Effect.yielded task queue here).transition stepped
    next => cases stepped
  next task ref rest here => exact (Effect.waiting task _ here).transition stepped
  next task waits here => exact (Effect.registering task waits here).transition stepped
  next task ref rest here =>
    split at stepped
    next free => exact (Effect.registered task ref rest here free).transition stepped
    next => cases stepped
  next task here => exact (Effect.synchronized task here).transition stepped
  next task here => exact (Effect.suspended task here).transition stepped
  next task here => exact (Effect.resumed task here).transition stepped
  next task here => exact (Effect.completed task here).transition stepped
  next task here => exact (Effect.setSignaled task here).transition stepped
  next ref client rest caller here =>
    split at stepped
    next free => exact (Effect.signaled ref client rest caller here free).transition stepped
    next => cases stepped
  next ref client rest caller here =>
    split at stepped
    next free => exact (Effect.notified ref client rest caller queue here free).transition stepped
    next => cases stepped
  next ref task here => exact (Effect.finished ref task here).transition stepped
  next ref task here => exact (Effect.returned ref task here).transition stepped
  next task here => exact (Effect.cleared task here).transition stepped

/-- Every step of the model is one of the transitions. -/
theorem step_transition {state final : State} {action : Action} (stepped : step state action = some final) :
    Transition state final := by
  unfold step at stepped
  split at stepped
  next queue =>
    cases stepped
    exact .spawned queue
  next worker queue =>
    split at stepped
    next task rest here found => exact (Effect.took queue task rest here found).transition stepped
    next => cases stepped
  next worker waits =>
    split at stepped
    next task here =>
      split at stepped
      next distinct => exact (Effect.dropped task waits here distinct).transition stepped
      next => cases stepped
    next => cases stepped
  next worker mutex =>
    split at stepped
    next task here =>
      split at stepped
      next free =>
        split at stepped
        next nobody =>
          cases stepped
          exact .unlocked mutex free nobody
        next client rest first => exact (Effect.triggered task mutex client rest here first).transition stepped
      next => cases stepped
    next => cases stepped
  next worker =>
    split at stepped
    next task here => exact (Effect.completing task here).transition stepped
    next => cases stepped
  next worker queue => exact advance_transition stepped

end Pgasus.Tasking
