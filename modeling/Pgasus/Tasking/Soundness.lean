import Pgasus.Tasking.Wakeups
import Mathlib.Data.List.Nodup

/-! No task is lost and none is run twice: in every reachable state each task is in
one place, every wait ends in one wakeup after all its signals, and no assertion
on the way has failed. -/
namespace Pgasus.Tasking
open Runs

structure TaskData.Recorded (data : TaskData) : Prop where
  awaited : ∀ ref ∈ data.madeWait, ref ∈ data.dependancies ∨ ref ∈ data.signaledBy
  counted : data.waits = data.wakes + if data.status = .waiting then 1 else 0
  finished : data.signaled = true → data.status = .completed

namespace TaskData.Recorded
variable {data : TaskData}

theorem become (recorded : data.Recorded) {status : Status} (active : data.status ≠ .waiting)
    (unfinished : data.status ≠ .completed) (stays : status ≠ .waiting) : (TaskData.become status data).Recorded := by
  refine ⟨recorded.awaited,?_,fun signaled => absurd (recorded.finished signaled) unfinished⟩
  simpa [TaskData.become,active,stays] using recorded.counted

theorem forget (recorded : data.Recorded) : data.forget.Recorded := ⟨by simp [TaskData.forget],recorded.counted,recorded.finished⟩

theorem run (recorded : data.Recorded) : data.run.Recorded := ⟨recorded.awaited,recorded.counted,recorded.finished⟩

theorem depend (recorded : data.Recorded) (ref : TriggerableRef) : (TaskData.depend ref data).Recorded := by
  refine ⟨fun other member => ?_,recorded.counted,recorded.finished⟩
  rcases List.mem_append.mp member with old | new
  · exact (recorded.awaited other old).imp_left (List.mem_append_left _)
  · exact Or.inl (List.mem_append_right _ new)

theorem remove (recorded : data.Recorded) (ref : TriggerableRef) : (TaskData.remove ref data).Recorded := by
  refine ⟨fun other member => ?_,recorded.counted,recorded.finished⟩
  by_cases same : other = ref
  · exact Or.inr (by simp [TaskData.remove,same])
  · exact (recorded.awaited other member).imp (fun depends => by simpa [TaskData.remove,same] using depends)
      (List.mem_append_left _)

theorem suspend (recorded : data.Recorded) (running : data.status = .running) : data.suspend.Recorded := by
  refine ⟨recorded.awaited,?_,fun signaled => ?_⟩
  · simpa [TaskData.suspend,running] using recorded.counted
  · have impossible := running.symm.trans (recorded.finished signaled)
    cases impossible

theorem wake (recorded : data.Recorded) (waiting : data.status = .waiting) : data.wake.Recorded := by
  refine ⟨recorded.awaited,?_,fun signaled => ?_⟩
  · simpa [TaskData.wake,waiting] using recorded.counted
  · have impossible := waiting.symm.trans (recorded.finished signaled)
    cases impossible

theorem setSignaled (recorded : data.Recorded) (completed : data.status = .completed) : data.setSignaled.Recorded :=
  ⟨recorded.awaited,recorded.counted,fun _ => completed⟩

end TaskData.Recorded

structure Signals (state : State) : Prop where
  completing : ∀ worker task, state.pc worker = .completed task →
    (state.tasks task).status = .completed ∧ (state.tasks task).signaled = false
  unsignaled : ∀ ref, state.clients ref ≠ [] → state.mustWait ref = true

variable {state changed next : State} {place : Task → Place} {worker : Worker} {point : Pc}

@[simp] theorem check_true (state : State) (assertion : Assertion) : state.check true assertion = state := rfl

theorem modify_all {holds : TaskData → Prop} (all : ∀ task, holds (state.tasks task)) {task : Task}
    {change : TaskData → TaskData} (kept : holds (change (state.tasks task))) (other : Task) :
    holds ((state.modify task change).tasks other) := by
  rw [State.modify_tasks]
  split
  next => exact kept
  next => exact all other

theorem Located.status_of_held (located : Located state place) {task : Task}
    (holds : (state.pc worker).holds = some task) :
    (state.tasks task).status ≠ .waiting ∧ (state.tasks task).status ≠ .completed := by
  have fits := located.fits task
  rwa [(located.held task worker).mp holds] at fits

theorem Tracked.waiting {ref : TriggerableRef} {client : Task} {rest : List Task} {caller : Caller}
    (tracked : Tracked state client) (locked : state.threads.Exact Pc.locks)
    (free : state.threads.free (.task client) = true) (here : state.pc worker = .notifying ref client rest caller) :
    (state.tasks client).status = .waiting := by
  rcases (tracked.notified ⟨worker,by rw [here]; rfl⟩).2 with waiting | ⟨other,expects⟩
  · exact waiting
  · refine absurd ?_ (locked.not_held free other)
    show _ ∈ (state.pc other).locks
    cases at_ : state.pc other with
    | synchronized task mustWait =>
      rw [at_] at expects
      cases mustWait <;> cases expects
      simp [Pc.locks]
    | _ =>
      rw [at_] at expects
      cases expects

structure Invariant (state : State) : Prop where
  locked : state.threads.Exact Pc.locks
  located : ∃ place, Located state place
  wired : Wired state
  tracked : ∀ task, Tracked state task
  recorded : ∀ task, (state.tasks task).Recorded
  signals : Signals state
  passed : state.failed = []

/-- No assertion fails: each checks what the invariant says at that point. -/
theorem Effect.passed (invariant : Invariant state) (effect : Effect state worker changed point) :
    changed.failed = state.failed := by
  obtain ⟨place,located⟩ := invariant.located
  have runs := located.runs worker
  cases effect with
  | ran task here => simp [located.starts worker task false here,State.modify]
  | jumped task here => simp [located.starts worker task true here]
  | yielded task queue here =>
    have running := runs task (by rw [here]; rfl)
    simp [running,State.putTask,State.setState,State.modify]
  | registered task ref rest here free =>
    unfold State.registerWait
    split <;> simp [State.modify,State.setClients]
  | suspended task here =>
    have running := runs task (by rw [here]; rfl)
    simp [running,State.modify]
  | completed task here =>
    have running := runs task (by rw [here]; rfl)
    simp [running,State.setState,State.modify]
  | setSignaled task here =>
    have unsignaled := (invariant.signals.completing worker task here).2
    simp [unsignaled,State.setClients,State.modify]
  | signaled ref client rest caller here free =>
    have depends : ref ∈ (state.tasks client).dependancies :=
      (invariant.wired.linked client ref).mpr (Or.inr ⟨worker,by simp [here,Pc.walked]⟩)
    have some_left : (state.tasks client).dependancies.isEmpty = false :=
      Bool.eq_false_iff.mpr fun empty => by simp [List.isEmpty_iff.mp empty] at depends
    simp [State.removeDependancy,some_left,State.modify]
  | notified ref client rest caller queue here free =>
    have waiting := (invariant.tracked client).waiting invariant.locked free here
    simp [waiting,State.putTask,State.modify]
  | _ => rfl

theorem Effect.recorded (invariant : Invariant state) (effect : Effect state worker changed point) (task : Task) :
    (changed.tasks task).Recorded := by
  obtain ⟨place,located⟩ := invariant.located
  have recorded := invariant.recorded
  have checked (holds : Bool) (assertion : Assertion) (task : Task) :
      ((state.check holds assertion).tasks task).Recorded := by
    rw [State.check_tasks]
    exact recorded task
  have runs := located.runs worker
  cases effect with
  | scheduled other here =>
    have held : (state.pc worker).holds = some other := by rw [here]; rfl
    have active := located.status_of_held held
    exact modify_all recorded ((recorded other).become active.1 active.2 (by decide)) task
  | ran other here => exact modify_all (checked _ _) (checked _ _ other).run task
  | jumped other here => exact checked _ _ task
  | yielded other queue here =>
    have running := runs other (by rw [here]; rfl)
    refine modify_all (checked _ _) ((checked _ _ other).become ?_ ?_ (by decide)) task <;> simp [running]
  | registering other waits here => exact modify_all recorded (recorded other).forget task
  | registered other ref rest here free =>
    unfold State.registerWait
    split
    next =>
      have asked (task : Task) : ((((state.asked ref).setClients ref (state.clients ref ++ [other])).tasks task)).Recorded := by
        simpa [State.setClients] using recorded task
      exact modify_all asked ((asked other).depend ref) task
    next => simpa using recorded task
  | suspended other here =>
    have running := runs other (by rw [here]; rfl)
    exact modify_all (checked _ _) ((checked _ _ other).suspend (by simpa using running)) task
  | completed other here =>
    have running := runs other (by rw [here]; rfl)
    refine modify_all (checked _ _) ((checked _ _ other).become ?_ ?_ (by decide)) task <;> simp [running]
  | setSignaled other here =>
    have completed := (invariant.signals.completing worker other here).1
    exact modify_all (checked _ _) ((checked _ _ other).setSignaled (by simpa using completed)) task
  | signaled ref client rest caller here free => exact modify_all (checked _ _) ((checked _ _ client).remove ref) task
  | notified ref client rest caller queue here free =>
    have waiting := (invariant.tracked client).waiting invariant.locked free here
    exact modify_all (checked _ _) ((checked _ _ client).wake (by simpa using waiting)) task
  | _ => exact recorded task

theorem Signals.step (signals : Signals state) (threads : changed.threads = state.threads)
    (here : ∀ task, point = .completed task →
      (changed.tasks task).status = .completed ∧ (changed.tasks task).signaled = false)
    (kept : ∀ other task, other ≠ worker → state.pc other = .completed task →
      (state.tasks task).status = .completed → (changed.tasks task).status = .completed ∧
        (changed.tasks task).signaled = (state.tasks task).signaled)
    (unsignaled : ∀ ref, changed.clients ref ≠ [] → changed.mustWait ref = true) :
    Signals (changed.goto worker point) := by
  refine ⟨fun other task there => ?_,fun ref clients => ?_⟩
  · rw [goto_pc state changed worker point threads] at there
    split at there
    next => exact here task there
    next different =>
      obtain ⟨completed,open_⟩ := signals.completing other task there
      obtain ⟨still,same⟩ := kept other task different there completed
      exact ⟨still,same.trans open_⟩
  · have must := unsignaled ref clients
    cases ref <;> exact must

theorem Signals.calm (signals : Signals state) (threads : changed.threads = state.threads)
    (clients : changed.clients = state.clients) (locks : changed.locked = state.locked)
    (signaled : ∀ task, (changed.tasks task).signaled = (state.tasks task).signaled)
    (statuses : ∀ task, (state.tasks task).status = .completed → (changed.tasks task).status = .completed)
    (elsewhere : ∀ task, point ≠ .completed task) : Signals (changed.goto worker point) := by
  refine signals.step threads (fun task at_ => absurd at_ (elsewhere task))
    (fun other task _ _ completed => ⟨statuses task completed,signaled task⟩) (fun ref registered => ?_)
  rw [clients] at registered
  have must := signals.unsignaled ref registered
  cases ref with
  | task task => simpa [State.mustWait,signaled] using must
  | mutex mutex => simpa [State.mustWait,locks] using must

theorem become_keeps_completed {task : Task} (unfinished : (state.tasks task).status ≠ .completed)
    (change : TaskData → TaskData) (other : Task) (completed : (state.tasks other).status = .completed) :
    ((state.modify task change).tasks other).status = .completed := by
  have different : other ≠ task := fun same => unfinished (same ▸ completed)
  rw [State.modify_tasks,if_neg different,completed]

theorem Effect.signals (invariant : Invariant state) (effect : Effect state worker changed point) :
    Signals (changed.goto worker point) := by
  obtain ⟨place,located⟩ := invariant.located
  have signals := invariant.signals
  have threads := effect.threads
  have runs := located.runs worker
  cases effect with
  | took queue task rest here found => exact signals.calm rfl rfl rfl (fun _ => rfl) (fun _ => id) (by simp)
  | scheduled task here =>
    have held : (state.pc worker).holds = some task := by rw [here]; rfl
    have active := located.status_of_held held
    exact signals.calm threads rfl rfl (state.modify_keeps task (·.signaled) (TaskData.become .running) fun _ => rfl)
      (become_keeps_completed active.2 _) (by simp)
  | ran task here =>
    rw [located.starts worker task false here]
    refine signals.calm rfl rfl rfl (state.modify_keeps task (·.signaled) TaskData.run fun _ => rfl) ?_ (by simp)
    exact fun other completed => (state.modify_keeps task (·.status) TaskData.run (fun _ => rfl) other).trans completed
  | jumped task here => exact signals.calm threads (by simp) (by simp) (by simp) (by simp) (by simp)
  | dropped task waits here distinct => exact signals.calm rfl rfl rfl (fun _ => rfl) (fun _ => id) (by simp)
  | yielded task queue here =>
    have running := runs task (by rw [here]; rfl)
    simp only [running,decide_true,check_true]
    exact signals.calm rfl rfl rfl (state.modify_keeps task (·.signaled) (TaskData.become .suspended) fun _ => rfl)
      (become_keeps_completed (by simp [running]) _) (by simp)
  | waiting task waits here => exact signals.calm rfl rfl rfl (fun _ => rfl) (fun _ => id) (by simp)
  | registering task waits here =>
    refine signals.calm threads rfl rfl (state.modify_keeps task (·.signaled) TaskData.forget fun _ => rfl) ?_ (by simp)
    exact fun other completed => (state.modify_keeps task (·.status) TaskData.forget (fun _ => rfl) other).trans completed
  | registered task ref rest here free =>
    have signaled := state.registerWait_keeps task (·.signaled) (fun _ _ => rfl) ref
    have statuses := state.registerWait_keeps task (·.status) (fun _ _ => rfl) ref
    refine signals.step threads (by simp) (fun other u _ _ completed => ⟨(statuses u).trans completed,signaled u⟩) ?_
    intro r registered
    have asked : (state.registerWait ref task).locked = (state.asked ref).locked := by
      unfold State.registerWait
      split <;> rfl
    have clients : (state.registerWait ref task).clients r = state.clients r ∨ r = ref ∧ state.mustWait ref = true := by
      by_cases must : state.mustWait ref = true
      · by_cases same : r = ref
        · exact Or.inr ⟨same,must⟩
        · rw [State.registerWait,if_pos must]
          exact Or.inl (by simp [State.modify,State.setClients,same])
      · rw [State.registerWait,if_neg must]
        exact Or.inl (by simp)
    have must : state.mustWait r = true := by
      rcases clients with same | ⟨rfl,must⟩
      · exact signals.unsignaled r (same ▸ registered)
      · exact must
    cases r with
    | task u => simpa [State.mustWait,signaled] using must
    | mutex mutex =>
      have before : state.locked mutex = true := must
      show (state.registerWait ref task).locked mutex = true
      rw [asked]
      cases ref with
      | task u => exact before
      | mutex other => by_cases same : mutex = other <;> simp [State.asked,same,before]
  | synchronized task here => exact signals.calm rfl rfl rfl (fun _ => rfl) (fun _ => id) (by simp)
  | suspended task here =>
    have running := runs task (by rw [here]; rfl)
    simp only [running,decide_true,check_true]
    exact signals.calm rfl rfl rfl (state.modify_keeps task (·.signaled) TaskData.suspend fun _ => rfl)
      (become_keeps_completed (by simp [running]) _) (by simp)
  | resumed task here => exact signals.calm rfl rfl rfl (fun _ => rfl) (fun _ => id) (by intro; split <;> simp)
  | completing task here => exact signals.calm rfl rfl rfl (fun _ => rfl) (fun _ => id) (by simp)
  | completed task here =>
    have running := runs task (by rw [here]; rfl)
    have signaled := state.modify_keeps task (·.signaled) (TaskData.become .completed) fun _ => rfl
    simp only [running,decide_true,check_true]
    refine signals.step rfl ?_ ?_ ?_
    · rintro _ ⟨⟩
      refine ⟨by rw [State.setState,State.modify_tasks,if_pos rfl]; rfl,(signaled task).trans ?_⟩
      refine Bool.eq_false_iff.mpr fun early => ?_
      have impossible := running.symm.trans ((invariant.recorded task).finished early)
      cases impossible
    · exact fun other u _ _ done => ⟨become_keeps_completed (by simp [running]) _ u done,signaled u⟩
    · intro ref registered
      have must := signals.unsignaled ref registered
      cases ref with
      | task u => simpa [State.mustWait,State.setState,signaled] using must
      | mutex mutex => exact must
  | setSignaled task here =>
    have closed := (signals.completing worker task here).2
    simp only [closed,Bool.not_false,check_true]
    refine signals.step rfl (by simp) ?_ ?_
    · intro other u different there completed
      have apart : u ≠ task := by
        rintro rfl
        have mine : Lock.task u ∈ (state.pc worker).locks := by simp [here,Pc.locks]
        have theirs : Lock.task u ∈ (state.pc other).locks := by simp [there,Pc.locks]
        exact different (invariant.locked.unique theirs mine)
      show ((state.modify task TaskData.setSignaled).tasks u).status = _ ∧
        ((state.modify task TaskData.setSignaled).tasks u).signaled = _
      rw [State.modify_tasks,if_neg apart]
      exact ⟨completed,rfl⟩
    · intro ref registered
      have different : ref ≠ .task task := by
        rintro rfl
        simp [State.setClients] at registered
      have must := signals.unsignaled ref (by simpa [State.setClients,State.modify,different] using registered)
      cases ref with
      | task u =>
        have apart : u ≠ task := fun same => different (congrArg _ same)
        show (!((state.modify task TaskData.setSignaled).tasks u).signaled) = true
        rw [State.modify_tasks,if_neg apart]
        exact must
      | mutex mutex => exact must
  | triggered task mutex client rest here first =>
    refine signals.step rfl (by simp) (fun other u _ _ completed => ⟨completed,rfl⟩) (fun ref registered => ?_)
    have before : state.clients ref ≠ [] := by
      by_cases same : ref = .mutex mutex
      · simp [same,first]
      · simpa [State.setClients,same] using registered
    have must := signals.unsignaled ref before
    cases ref <;> exact must
  | signaled ref client rest caller here free =>
    refine signals.calm threads (by simp [State.removeDependancy,State.modify])
      (by simp [State.removeDependancy,State.modify]) ?_ ?_ (by intro; split <;> simp)
    · exact state.removeDependancy_keeps client (·.signaled) (fun _ _ => rfl) ref
    · exact fun other completed => (state.removeDependancy_keeps client (·.status) (fun _ _ => rfl) ref other).trans completed
  | notified ref client rest caller queue here free =>
    have waiting := (invariant.tracked client).waiting invariant.locked free here
    simp only [waiting,decide_true,check_true]
    exact signals.calm rfl rfl rfl (state.modify_keeps client (·.signaled) TaskData.wake fun _ => rfl)
      (become_keeps_completed (by simp [waiting]) _) (by simp)
  | finished ref task here => exact signals.calm rfl rfl rfl (fun _ => rfl) (fun _ => id) (by simp)
  | returned ref task here => exact signals.calm rfl rfl rfl (fun _ => rfl) (fun _ => id) (by simp)
  | cleared task here => exact signals.calm rfl rfl rfl (fun _ => rfl) (fun _ => id) (by simp)

theorem Transition.invariant (invariant : Invariant state) (transition : Transition state next) : Invariant next := by
  obtain ⟨place,located⟩ := invariant.located
  have wired := invariant.wired
  have tracked := invariant.tracked
  cases transition with
  | spawned queue =>
    exact ⟨invariant.locked,⟨_,located.spawn queue⟩,⟨wired.linked,wired.nodup,wired.walk,wired.distinct,wired.fresh⟩,
      fun task => ⟨(tracked task).expected,(tracked task).awaited,(tracked task).notified⟩,invariant.recorded,
      ⟨invariant.signals.completing,fun ref => by cases ref <;> exact invariant.signals.unsignaled _⟩,invariant.passed⟩
  | unlocked mutex free nobody =>
    refine ⟨invariant.locked,⟨place,?_⟩,⟨wired.linked,wired.nodup,wired.walk,wired.distinct,wired.fresh⟩,
      fun task => ⟨(tracked task).expected,(tracked task).awaited,(tracked task).notified⟩,invariant.recorded,
      ⟨invariant.signals.completing,fun ref registered => ?_⟩,invariant.passed⟩
    · exact ⟨located.spawned,located.queued,located.nodup,located.held,located.fits,located.runs,located.starts⟩
    · have must := invariant.signals.unsignaled ref registered
      cases ref with
      | task task => exact must
      | mutex other =>
        have different : other ≠ mutex := fun same => registered (same ▸ nobody)
        have before : state.locked other = true := must
        simpa [State.mustWait,different] using before
  | moved worker effect available =>
    have threads := effect.threads
    have locked := invariant.locked.move available
    have recorded := effect.recorded invariant
    refine ⟨?_,?_,effect.wired invariant.locked located tracked wired available,
      effect.tracked invariant.locked located wired.linked tracked,recorded,
      effect.signals invariant,(effect.passed invariant).trans invariant.passed⟩
    · rw [← threads] at locked
      exact locked
    · exact effect.located located fun ref client rest caller here free =>
        (tracked client).waiting invariant.locked free here

theorem invariant_start : Invariant State.start := by
  have idle (worker : Worker) : State.start.pc worker = .idle := rfl
  refine ⟨?_,⟨fun _ => .unborn,?_⟩,?_,fun task => ?_,fun task => ?_,?_,rfl⟩
  · intro lock worker
    simp [State.start,Pc.locks]
  · refine ⟨fun task => by simp [State.start],fun task queue => by simp [State.start],fun queue => List.nodup_nil,?_,
      fun task => rfl,?_,?_⟩
    · intro task worker
      simp [idle,Pc.holds,Pc.runs]
    · intro worker task runs
      cases runs
    · intro worker task hasStarted here
      cases here
  · refine ⟨fun task ref => ?_,fun ref => List.nodup_nil,fun worker ref => ?_,fun worker => List.nodup_nil,?_⟩
    · simp [State.Pending,State.start,State.pc,TaskData.fresh,Pc.walked]
    · exact ⟨List.nodup_nil,fun client member => by cases member⟩
    · intro worker task waits here
      cases here
  · refine ⟨fun depends => absurd rfl depends,?_,?_⟩
    · rintro (waiting | ⟨worker,expects⟩)
      · cases waiting
      · cases expects
    · rintro ⟨worker,notifies⟩
      cases notifies
  · exact ⟨fun ref member => (by cases member),rfl,fun signaled => by cases signaled⟩
  · exact ⟨fun worker task here => (by cases here),fun ref registered => absurd rfl registered⟩

namespace State
variable (state : State) (task : Task)

def Queued : Prop := ∃ queue, task ∈ state.queues queue

def QueuedOnce : Prop :=
  ∃ queue, (state.queues queue).count task = 1 ∧ ∀ other, other ≠ queue → task ∉ state.queues other

def Held : Prop := ∃ worker, (state.pc worker).holds = some task

def HeldOnce : Prop := ∃! worker, (state.pc worker).holds = some task

def SignalInProgress : Prop :=
  ∃ worker, (∃ ref, task ∈ (state.pc worker).walked ref) ∨ (state.pc worker).notifies = some task

def UnsignaledDependency : Prop :=
  ∃ ref ∈ (state.tasks task).dependancies, task ∈ state.clients ref ∧ state.mustWait ref = true

end State

/-- What the tasking system promises of every state it reaches. -/
structure Sound (state : State) : Prop where
  onePlace : ∀ task, task < state.spawned → (state.tasks task).status ≠ .completed →
    (state.QueuedOnce task ∧ ¬state.Held task ∧
      ((state.tasks task).status = .ready ∨ (state.tasks task).status = .suspended)) ∨
    (state.HeldOnce task ∧ ¬state.Queued task ∧ (state.tasks task).status ≠ .waiting) ∨
    ((state.tasks task).status = .waiting ∧ (state.UnsignaledDependency task ∨ state.SignalInProgress task) ∧
      ¬state.Queued task ∧ ¬state.Held task)
  oneWorker : ∀ task first second, (state.pc first).holds = some task → (state.pc second).holds = some task →
    first = second
  oneWakeup : ∀ task, (state.tasks task).waits =
    (state.tasks task).wakes + if (state.tasks task).status = .waiting then 1 else 0
  wokenLast : ∀ task, state.Queued task ∨ state.Notified task → ∀ ref ∈ (state.tasks task).madeWait,
    ref ∈ (state.tasks task).signaledBy
  passed : state.failed = []

namespace Invariant

theorem awaiting (invariant : Invariant state) {task : Task} (waiting : (state.tasks task).status = .waiting) :
    state.UnsignaledDependency task ∨ state.SignalInProgress task := by
  rcases (invariant.tracked task).awaited (Or.inl waiting) with depends | ⟨worker,notifies⟩
  · obtain ⟨ref,member⟩ := List.exists_mem_of_ne_nil _ depends
    rcases (invariant.wired.linked task ref).mp member with client | ⟨worker,walked⟩
    · exact Or.inl ⟨ref,member,client,invariant.signals.unsignaled ref (List.ne_nil_of_mem client)⟩
    · exact Or.inr ⟨worker,Or.inl ⟨ref,walked⟩⟩
  · exact Or.inr ⟨worker,Or.inr notifies⟩

theorem released (invariant : Invariant state) {task : Task} (released : state.Queued task ∨ state.Notified task) :
    (state.tasks task).dependancies = [] := by
  obtain ⟨place,located⟩ := invariant.located
  rcases released with ⟨queue,member⟩ | notified
  · have home := (located.queued task queue).mp member
    have elsewhere (worker : Worker) : (state.pc worker).runs ≠ some task := fun runs => by
      have held := (located.held task worker).mp (Pc.holds_of_runs runs)
      rw [home] at held
      cases held
    by_contra depends
    rcases (invariant.tracked task).expected depends with (waiting | ⟨worker,expects⟩) | ⟨worker,registers⟩
    · have fits := located.fits task
      rw [home,waiting] at fits
      rcases fits with impossible | impossible <;> cases impossible
    · exact elsewhere worker (Pc.runs_of_expects expects)
    · exact elsewhere worker (Pc.runs_of_registers registers)
  · exact ((invariant.tracked task).notified notified).1

theorem sound (invariant : Invariant state) : Sound state := by
  obtain ⟨place,located⟩ := invariant.located
  have oneWorker (task : Task) (first second : Worker) (held : (state.pc first).holds = some task)
      (also : (state.pc second).holds = some task) : first = second :=
    Place.held.inj (((located.held task first).mp held).symm.trans ((located.held task second).mp also))
  refine ⟨fun task born unfinished => ?_,oneWorker,fun task => (invariant.recorded task).counted,?_,invariant.passed⟩
  · have fits := located.fits task
    have queued (queue : Queue) := located.queued task queue
    have held (worker : Worker) := located.held task worker
    cases home : place task with
    | unborn => exact absurd ((located.spawned task).mpr home) (Nat.not_le.mpr born)
    | queued queue =>
      rw [home] at fits
      refine Or.inl ⟨⟨queue,?_,fun other different member => ?_⟩,?_,fits⟩
      · exact List.count_eq_one_of_mem (located.nodup queue) ((queued queue).mpr home)
      · exact different (Place.queued.inj (((queued other).mp member).symm.trans home))
      · rintro ⟨worker,holds⟩
        have impossible := ((held worker).mp holds).symm.trans home
        cases impossible
    | held worker =>
      rw [home] at fits
      refine Or.inr (Or.inl ⟨⟨worker,(held worker).mpr home,fun other also => ?_⟩,?_,fits.1⟩)
      · exact oneWorker task other worker also ((held worker).mpr home)
      · rintro ⟨queue,member⟩
        have impossible := ((queued queue).mp member).symm.trans home
        cases impossible
    | waiting =>
      rw [home] at fits
      refine Or.inr (Or.inr ⟨fits,invariant.awaiting fits,?_,?_⟩)
      · rintro ⟨queue,member⟩
        have impossible := ((queued queue).mp member).symm.trans home
        cases impossible
      · rintro ⟨worker,holds⟩
        have impossible := ((held worker).mp holds).symm.trans home
        cases impossible
    | completed =>
      rw [home] at fits
      exact absurd fits unfinished
  · intro task released ref made
    rcases (invariant.recorded task).awaited ref made with depends | signaled
    · rw [invariant.released released] at depends
      cases depends
    · exact signaled

end Invariant

/-- Whatever the workers do, every state reached is sound. -/
theorem tasks_never_lost (actions : List Action) (final : State) (ran : run step State.start actions = some final) :
    Sound final :=
  Invariant.sound (invariant_of_run Invariant
    (fun _ _ _ invariant stepped => (step_transition stepped).invariant invariant) invariant_start ran)

def waitActions : List Action :=
  [.spawn 0,.spawn 0,.take 0 0,.advance 0 0,.advance 0 0,.take 1 0,.advance 1 0,.advance 1 0,
    .wait 1 [.mutex 5],.advance 1 0,.advance 1 0,.advance 1 0,.advance 1 0,.advance 1 0,.advance 1 0,.advance 1 0,
    .wait 0 [.task 1,.mutex 5],.advance 0 0,.advance 0 0,.advance 0 0,.advance 0 0,.advance 0 0,.advance 0 0,
    .release 1 5,.advance 1 0,.advance 1 0,.finish 1,.advance 1 0,.advance 1 0,.advance 1 0,.advance 1 3]

theorem waitActions_run : (run step State.start waitActions).isSome = true := by decide

theorem tasks_never_lost_one_wait : ∃ final, run step State.start waitActions = some final ∧ Sound final ∧
    (final.tasks 0).wakes = 1 ∧ final.queues 3 = [0] :=
  ⟨(run step State.start waitActions).get waitActions_run,(Option.some_get waitActions_run).symm,
    tasks_never_lost waitActions _ (Option.some_get waitActions_run).symm,by decide,by decide⟩

end Pgasus.Tasking
