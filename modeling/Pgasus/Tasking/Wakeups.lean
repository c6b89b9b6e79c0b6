import Pgasus.Tasking.Places

/-! Who will wake a waiting task. A triggerable is in a task's dependency list
exactly when the task is among its clients or still ahead in the walk over them;
a task with dependencies is registering or expects to be notified, and a task
that expects to be notified has dependencies left or is being notified. -/
namespace Pgasus.Tasking

def Pc.walked (ref : TriggerableRef) : Pc → List Task
  | .signaling other clients _ => if other = ref then clients else []
  | .notifying other _ clients _ => if other = ref then clients else []
  | _ => []

def Pc.registers : Pc → Option Task
  | .registering task _ => some task
  | _ => none

/-- The task whose `synchronize` has returned true but whose state is not changed yet. -/
def Pc.expects : Pc → Option Task
  | .synchronized task true => some task
  | _ => none

def Pc.notifies : Pc → Option Task
  | .notifying _ client _ _ => some client
  | _ => none

def Pc.waits : Pc → List TriggerableRef
  | .dropped _ waits => waits
  | .waiting _ waits => waits
  | .registering _ waits => waits
  | _ => []

namespace State
variable (state : State)

def Pending (ref : TriggerableRef) (task : Task) : Prop :=
  task ∈ state.clients ref ∨ ∃ worker, task ∈ (state.pc worker).walked ref

def Registering (task : Task) : Prop := ∃ worker, (state.pc worker).registers = some task

def Expecting (task : Task) : Prop :=
  (state.tasks task).status = .waiting ∨ ∃ worker, (state.pc worker).expects = some task

def Notified (task : Task) : Prop := ∃ worker, (state.pc worker).notifies = some task

end State

structure Wired (state : State) : Prop where
  linked : ∀ task ref, ref ∈ (state.tasks task).dependancies ↔ state.Pending ref task
  nodup : ∀ ref, (state.clients ref).Nodup
  walk : ∀ worker ref, ((state.pc worker).walked ref).Nodup ∧
    ∀ client ∈ (state.pc worker).walked ref, client ∉ state.clients ref
  distinct : ∀ worker, (state.pc worker).waits.Nodup
  fresh : ∀ worker task waits, state.pc worker = .registering task waits →
    ∀ ref ∈ waits, ref ∉ (state.tasks task).dependancies

structure Tracked (state : State) (task : Task) : Prop where
  expected : (state.tasks task).dependancies ≠ [] → state.Expecting task ∨ state.Registering task
  awaited : state.Expecting task → (state.tasks task).dependancies ≠ [] ∨ state.Notified task
  notified : state.Notified task → (state.tasks task).dependancies = [] ∧ state.Expecting task

variable {state changed : State} {place : Task → Place} {worker : Worker} {point : Pc}

theorem exists_goto (threads : changed.threads = state.threads) (property : Pc → Prop)
    (same : property point ↔ property (state.pc worker)) :
    (∃ other, property ((changed.goto worker point).pc other)) ↔ ∃ other, property (state.pc other) := by
  have pc := goto_pc state changed worker point threads
  refine exists_congr fun other => ?_
  rw [pc]
  split
  next here => rw [same,here]
  next => rfl

theorem exists_goto_or (threads : changed.threads = state.threads) (property : Pc → Prop) :
    (∃ other, property ((changed.goto worker point).pc other)) ↔
      property point ∨ ∃ other, other ≠ worker ∧ property (state.pc other) := by
  have pc := goto_pc state changed worker point threads
  constructor
  · rintro ⟨other,holds⟩
    rw [pc] at holds
    split at holds
    next => exact Or.inl holds
    next different => exact Or.inr ⟨other,different,holds⟩
  · rintro (holds | ⟨other,different,holds⟩)
    · exact ⟨worker,by rw [pc,if_pos rfl]; exact holds⟩
    · exact ⟨other,by rw [pc,if_neg different]; exact holds⟩

theorem Tracked.frame {task : Task} (tracked : Tracked state task) (threads : changed.threads = state.threads)
    (dependancies : (changed.tasks task).dependancies = (state.tasks task).dependancies)
    (status : (changed.tasks task).status = .waiting ↔ (state.tasks task).status = .waiting)
    (registers : point.registers = some task ↔ (state.pc worker).registers = some task)
    (expects : point.expects = some task ↔ (state.pc worker).expects = some task)
    (notifies : point.notifies = some task ↔ (state.pc worker).notifies = some task) :
    Tracked (changed.goto worker point) task := by
  have registering : (changed.goto worker point).Registering task ↔ state.Registering task :=
    exists_goto threads (fun pc => pc.registers = some task) registers
  have expecting : (changed.goto worker point).Expecting task ↔ state.Expecting task :=
    or_congr status (exists_goto threads (fun pc => pc.expects = some task) expects)
  have noted : (changed.goto worker point).Notified task ↔ state.Notified task :=
    exists_goto threads (fun pc => pc.notifies = some task) notifies
  have same : ((changed.goto worker point).tasks task).dependancies = (state.tasks task).dependancies := dependancies
  refine ⟨?_,?_,?_⟩
  · rw [same,expecting,registering]
    exact tracked.expected
  · rw [same,expecting,noted]
    exact tracked.awaited
  · rw [same,expecting,noted]
    exact tracked.notified

def Pc.Calm (pc : Pc) : Prop := pc.registers = none ∧ pc.expects = none ∧ pc.notifies = none

theorem Tracked.calm {task : Task} (tracked : Tracked state task) (threads : changed.threads = state.threads)
    (dependancies : (changed.tasks task).dependancies = (state.tasks task).dependancies)
    (status : (changed.tasks task).status = .waiting ↔ (state.tasks task).status = .waiting)
    (before : (state.pc worker).Calm) (after : point.Calm) : Tracked (changed.goto worker point) task :=
  tracked.frame threads dependancies status (by rw [before.1,after.1]) (by rw [before.2.1,after.2.1])
    (by rw [before.2.2,after.2.2])

theorem Pc.runs_of_registers {pc : Pc} {task : Task} (registers : pc.registers = some task) :
    pc.runs = some task := by
  cases pc <;> first | exact registers | cases registers

theorem Pc.runs_of_expects {pc : Pc} {task : Task} (expects : pc.expects = some task) : pc.runs = some task := by
  cases pc with
  | synchronized other mustWait =>
    cases mustWait with
    | true => exact expects
    | false => cases expects
  | _ => cases expects

theorem Located.same_worker (located : Located state place) {task : Task} {other : Worker}
    (runs : (state.pc worker).runs = some task) (also : (state.pc other).runs = some task) : other = worker := by
  by_contra different
  exact located.alone runs different (Pc.holds_of_runs also)

theorem Located.not_expecting (located : Located state place) {task : Task}
    (runs : (state.pc worker).runs = some task) (expects : (state.pc worker).expects ≠ some task) :
    ¬state.Expecting task := by
  rintro (waiting | ⟨other,expecting⟩)
  · simp [located.runs worker task runs] at waiting
  · exact expects (located.same_worker runs (Pc.runs_of_expects expecting) ▸ expecting)

theorem Located.not_registering (located : Located state place) {task : Task}
    (runs : (state.pc worker).runs = some task) (registers : (state.pc worker).registers ≠ some task) :
    ¬state.Registering task := by
  rintro ⟨other,registering⟩
  exact registers (located.same_worker runs (Pc.runs_of_registers registering) ▸ registering)

theorem Tracked.settled {task : Task} (tracked : Tracked state task) (located : Located state place)
    (runs : (state.pc worker).runs = some task) (calm : (state.pc worker).Calm) :
    (state.tasks task).dependancies = [] := by
  by_contra depends
  rcases tracked.expected depends with expecting | registering
  · exact located.not_expecting runs (by simp [calm.2.1]) expecting
  · exact located.not_registering runs (by simp [calm.1]) registering

theorem Tracked.register {task : Task} {rest : List TriggerableRef} (tracked : Tracked state task)
    (located : Located state place) (waits : List TriggerableRef) (here : state.pc worker = .waiting task rest ∨ state.pc worker = .registering task waits)
    (threads : changed.threads = state.threads) (status : (changed.tasks task).status = (state.tasks task).status) :
    Tracked (changed.goto worker (.registering task rest)) task := by
  have runs : (state.pc worker).runs = some task := by rcases here with here | here <;> (rw [here]; rfl)
  have idle : ¬state.Expecting task :=
    located.not_expecting runs (by rcases here with here | here <;> simp [here,Pc.expects])
  have expecting : ¬(changed.goto worker (.registering task rest)).Expecting task := by
    rintro (waiting | expects)
    · exact idle (Or.inl (status.symm.trans waiting))
    · rw [exists_goto threads (fun pc => pc.expects = some task)
        (by rcases here with here | here <;> simp [here,Pc.expects])] at expects
      exact idle (Or.inr expects)
  refine ⟨fun _ => Or.inr ⟨worker,?_⟩,fun impossible => absurd impossible expecting,fun notified => ?_⟩
  · rw [goto_pc state changed worker _ threads,if_pos rfl]
    rfl
  · have before : state.Notified task := (exists_goto threads (fun pc => pc.notifies = some task)
      (by rcases here with here | here <;> simp [here,Pc.notifies])).mp notified
    exact absurd (tracked.notified before).2 idle

theorem Tracked.synchronize {task : Task} (tracked : Tracked state task) (located : Located state place)
    (here : state.pc worker = .registering task []) :
    Tracked (state.goto worker (.synchronized task (!(state.tasks task).dependancies.isEmpty))) task := by
  have runs : (state.pc worker).runs = some task := by rw [here]; rfl
  have idle : ¬state.Expecting task := located.not_expecting runs (by simp [here,Pc.expects])
  have at_ := goto_pc state state worker (.synchronized task (!(state.tasks task).dependancies.isEmpty)) rfl
  refine ⟨fun depends => Or.inl (Or.inr ⟨worker,?_⟩),fun expecting => Or.inl fun none => ?_,fun notified => ?_⟩
  · have some_left : (state.tasks task).dependancies ≠ [] := depends
    have must : (!(state.tasks task).dependancies.isEmpty) = true := by simpa using some_left
    rw [at_,if_pos rfl,must]
    rfl
  · have none_left : (state.tasks task).dependancies = [] := none
    rcases expecting with waiting | expects
    · exact idle (Or.inl waiting)
    · refine idle (Or.inr ((exists_goto rfl (fun pc => pc.expects = some task) ?_).mp expects))
      simp [here,Pc.expects,none_left]
  · have before : state.Notified task := (exists_goto rfl (fun pc => pc.notifies = some task)
      (by simp [here,Pc.notifies])).mp notified
    exact absurd (tracked.notified before).2 idle

theorem Tracked.suspend {task : Task} (tracked : Tracked state task) (here : state.pc worker = .synchronized task true)
    (threads : changed.threads = state.threads) (waiting : (changed.tasks task).status = .waiting)
    (dependancies : (changed.tasks task).dependancies = (state.tasks task).dependancies) :
    Tracked (changed.goto worker (.handedOver task)) task := by
  have notified : (changed.goto worker (.handedOver task)).Notified task ↔ state.Notified task :=
    exists_goto threads (fun pc => pc.notifies = some task) (by simp [here,Pc.notifies])
  have same : ((changed.goto worker (.handedOver task)).tasks task).dependancies =
    (state.tasks task).dependancies := dependancies
  refine ⟨fun _ => Or.inl (Or.inl waiting),fun _ => ?_,fun noted => ⟨?_,Or.inl waiting⟩⟩
  · rw [same,notified]
    exact tracked.awaited (Or.inr ⟨worker,by rw [here]; rfl⟩)
  · rw [same]
    exact (tracked.notified (notified.mp noted)).1

/-- A signal takes a dependency from a task that expects it: nobody registers the
task while its synchronizer's lock is free. -/
theorem Tracked.signal {ref : TriggerableRef} {client : Task} {rest : List Task} {caller : Caller}
    (tracked : Tracked state client) (locked : state.threads.Exact Pc.locks)
    (free : state.threads.free (.synchronizer client) = true)
    (here : state.pc worker = .signaling ref (client::rest) caller)
    (depends : ref ∈ (state.tasks client).dependancies) :
    Tracked ((state.removeDependancy ref client).goto worker
      (if ((state.removeDependancy ref client).tasks client).dependancies.isEmpty
        then .notifying ref client rest caller else .signaling ref rest caller)) client := by
  have threads := state.removeDependancy_threads client ref
  have status := state.removeDependancy_keeps client (·.status) (fun _ _ => rfl) ref client
  have before : state.Expecting client := by
    rcases tracked.expected (List.ne_nil_of_mem depends) with expecting | ⟨other,registering⟩
    · exact expecting
    · refine absurd ?_ (locked.not_held free other)
      show _ ∈ (state.pc other).locks
      cases at_ : state.pc other <;> rw [at_] at registering <;> cases registering
      simp [Pc.locks]
  generalize goes : (if ((state.removeDependancy ref client).tasks client).dependancies.isEmpty
    then Pc.notifying ref client rest caller else .signaling ref rest caller) = point
  have expecting : ((state.removeDependancy ref client).goto worker point).Expecting client := by
    refine before.imp (fun waiting => status.trans waiting) ?_
    refine (exists_goto threads (fun pc => pc.expects = some client) ?_).mpr
    rw [here,← goes]
    split <;> simp [Pc.expects]
  refine ⟨fun _ => Or.inl expecting,fun _ => ?_,fun notified => ⟨?_,expecting⟩⟩
  · by_cases empty : ((state.removeDependancy ref client).tasks client).dependancies = []
    · refine Or.inr ⟨worker,?_⟩
      rw [goto_pc state _ worker point threads,if_pos rfl,← goes]
      simp [empty,Pc.notifies]
    · exact Or.inl empty
  · rcases (exists_goto_or threads (fun pc => pc.notifies = some client)).mp notified with now | ⟨other,_,noted⟩
    · rw [← goes] at now
      split at now
      next empty => exact List.isEmpty_iff.mp empty
      next => cases now
    · refine absurd ?_ (locked.not_held free other)
      show _ ∈ (state.pc other).locks
      cases at_ : state.pc other <;> rw [at_] at noted <;> cases noted
      simp [Pc.locks]

/-- A notified task no longer expects anything: nobody is at the end of its
registration while the task's lock is free. -/
theorem Tracked.wake {ref : TriggerableRef} {client : Task} {rest : List Task} {caller : Caller}
    (tracked : Tracked state client) (locked : state.threads.Exact Pc.locks)
    (free : state.threads.free (.task client) = true) (here : state.pc worker = .notifying ref client rest caller)
    (threads : changed.threads = state.threads) (status : (changed.tasks client).status = .suspended)
    (dependancies : (changed.tasks client).dependancies = (state.tasks client).dependancies) :
    Tracked (changed.goto worker (.signaling ref rest caller)) client := by
  have empty : (changed.tasks client).dependancies = [] :=
    dependancies.trans (tracked.notified ⟨worker,by rw [here]; rfl⟩).1
  refine ⟨fun depends => absurd empty depends,?_,?_⟩
  · rintro (waiting | ⟨other,expects⟩)
    · have impossible := status.symm.trans waiting
      cases impossible
    · rw [goto_pc state changed worker _ threads] at expects
      split at expects
      next => cases expects
      next =>
        refine absurd ?_ (locked.not_held free other)
        show _ ∈ (state.pc other).locks
        cases at_ : state.pc other with
        | synchronized task mustWait =>
          rw [at_] at expects
          cases mustWait <;> cases expects
          simp [Pc.locks]
        | _ =>
          rw [at_] at expects
          cases expects
  · rintro ⟨other,noted⟩
    rw [goto_pc state changed worker _ threads] at noted
    split at noted
    next => cases noted
    next different =>
      have mine : Lock.synchronizer client ∈ (state.pc worker).locks := by simp [here,Pc.locks]
      have theirs : Lock.synchronizer client ∈ (state.pc other).locks := by
        cases at_ : state.pc other <;> rw [at_] at noted <;> cases noted
        simp [Pc.locks]
      exact absurd (locked.unique theirs mine) different

theorem Effect.tracked (locked : state.threads.Exact Pc.locks) (located : Located state place)
    (linked : ∀ task ref, ref ∈ (state.tasks task).dependancies ↔ state.Pending ref task)
    (tracked : ∀ task, Tracked state task) (effect : Effect state worker changed point) (task : Task) :
    Tracked (changed.goto worker point) task := by
  have threads := effect.threads
  have runs := located.runs worker
  have tracking := tracked task
  cases effect with
  | took queue other rest here found =>
    exact tracking.calm threads rfl Iff.rfl (by rw [here]; exact ⟨rfl,rfl,rfl⟩) ⟨rfl,rfl,rfl⟩
  | scheduled other here =>
    refine tracking.calm threads (state.modify_keeps other (·.dependancies) (TaskData.become .running) (fun _ => rfl) task)
      ?_ (by rw [here]; exact ⟨rfl,rfl,rfl⟩) ⟨rfl,rfl,rfl⟩
    have fits := located.fits other
    rw [(located.held other worker).mp (by rw [here]; rfl)] at fits
    rw [State.setState,State.modify_tasks]
    split
    next same => subst same; simp [TaskData.become,fits.1]
    next => rfl
  | ran other here =>
    refine tracking.calm threads ?_ ?_ (by rw [here]; exact ⟨rfl,rfl,rfl⟩) ⟨rfl,rfl,rfl⟩
    · exact (State.modify_keeps _ other (·.dependancies) TaskData.run (fun _ => rfl) task).trans (by simp)
    · rw [State.modify_keeps _ other (·.status) TaskData.run (fun _ => rfl) task,State.check_tasks]
  | jumped other here =>
    exact tracking.calm threads (by simp) (by simp) (by rw [here]; exact ⟨rfl,rfl,rfl⟩) ⟨rfl,rfl,rfl⟩
  | dropped other waits here distinct =>
    exact tracking.calm threads rfl Iff.rfl (by rw [here]; exact ⟨rfl,rfl,rfl⟩) ⟨rfl,rfl,rfl⟩
  | yielded other queue here =>
    have running := runs other (by rw [here]; rfl)
    refine tracking.calm threads ?_ ?_ (by rw [here]; exact ⟨rfl,rfl,rfl⟩) ⟨rfl,rfl,rfl⟩
    · exact (State.modify_keeps _ other (·.dependancies) (TaskData.become .suspended) (fun _ => rfl) task).trans (by simp)
    · simp only [State.putTask,State.setState,State.modify_tasks,State.check_tasks]
      split
      next same => subst same; simp [TaskData.become,running]
      next => rfl
  | waiting other waits here =>
    exact tracking.calm threads rfl Iff.rfl (by rw [here]; exact ⟨rfl,rfl,rfl⟩) ⟨rfl,rfl,rfl⟩
  | registering other waits here =>
    have status := state.modify_keeps other (·.status) TaskData.forget (fun _ => rfl) task
    by_cases same : task = other
    · subst same
      exact tracking.register located waits (Or.inl here) threads status
    · refine tracking.frame threads ?_ (by rw [status]) ?_ ?_ ?_
      · exact state.modify_keeps other (·.dependancies) TaskData.forget (fun _ => rfl) task
      all_goals simp [here,Pc.registers,Pc.expects,Pc.notifies,Ne.symm same]
  | registered other ref rest here free =>
    have status := state.registerWait_keeps other (·.status) (fun _ _ => rfl) ref task
    by_cases same : task = other
    · subst same
      exact tracking.register located _ (Or.inr here) threads status
    · refine tracking.frame threads ?_ (by rw [status]) ?_ ?_ ?_
      · unfold State.registerWait
        split <;> simp [State.modify_tasks,State.setClients,same]
      all_goals simp [here,Pc.registers,Pc.expects,Pc.notifies]
  | synchronized other here =>
    by_cases same : task = other
    · subst same
      exact tracking.synchronize located here
    · refine tracking.frame threads rfl Iff.rfl ?_ ?_ ?_
      · simp [here,Pc.registers,Ne.symm same]
      · rw [here]
        cases (!(state.tasks other).dependancies.isEmpty) <;> simp [Pc.expects,Ne.symm same]
      · simp [here,Pc.notifies]
  | suspended other here =>
    have dependancies := (State.modify_keeps (state.check ((state.tasks other).status = .running) .waitRunning) other
      (·.dependancies) TaskData.suspend (fun _ => rfl) task).trans (by rw [State.check_tasks])
    by_cases same : task = other
    · subst same
      exact tracking.suspend here threads (by rw [State.modify_tasks,if_pos rfl]; rfl) dependancies
    · refine tracking.frame threads dependancies ?_ ?_ ?_ ?_
      · rw [State.modify_tasks,if_neg same,State.check_tasks]
      all_goals simp [here,Pc.registers,Pc.expects,Pc.notifies,Ne.symm same]
  | resumed other here =>
    refine tracking.calm threads rfl Iff.rfl (by rw [here]; exact ⟨rfl,rfl,rfl⟩) ?_
    split <;> exact ⟨rfl,rfl,rfl⟩
  | completing other here =>
    exact tracking.calm threads rfl Iff.rfl (by rw [here]; exact ⟨rfl,rfl,rfl⟩) ⟨rfl,rfl,rfl⟩
  | completed other here =>
    have running := runs other (by rw [here]; rfl)
    refine tracking.calm threads ?_ ?_ (by rw [here]; exact ⟨rfl,rfl,rfl⟩) ⟨rfl,rfl,rfl⟩
    · exact (State.modify_keeps _ other (·.dependancies) (TaskData.become .completed) (fun _ => rfl) task).trans (by simp)
    · simp only [State.setState,State.modify_tasks,State.check_tasks]
      split
      next same => subst same; simp [TaskData.become,running]
      next => rfl
  | setSignaled other here =>
    refine tracking.calm threads ?_ ?_ (by rw [here]; exact ⟨rfl,rfl,rfl⟩) ⟨rfl,rfl,rfl⟩
    · exact (State.modify_keeps _ other (·.dependancies) TaskData.setSignaled (fun _ => rfl) task).trans (by simp)
    · refine iff_of_eq (congrArg (· = Status.waiting) ?_)
      exact (State.modify_keeps _ other (·.status) TaskData.setSignaled (fun _ => rfl) task).trans (by simp)
  | triggered other mutex client rest here first =>
    exact tracking.calm threads rfl Iff.rfl (by rw [here]; exact ⟨rfl,rfl,rfl⟩) ⟨rfl,rfl,rfl⟩
  | signaled ref client rest caller here free =>
    by_cases same : task = client
    · subst same
      refine tracking.signal locked free here ((linked task ref).mpr (Or.inr ⟨worker,?_⟩))
      simp [here,Pc.walked]
    · have status := state.removeDependancy_keeps client (·.status) (fun _ _ => rfl) ref task
      refine tracking.frame threads ?_ (by rw [status]) ?_ ?_ ?_
      · rw [State.removeDependancy,State.modify_tasks,if_neg same,State.check_tasks]
      all_goals
        rw [here]
        split <;> simp [Pc.registers,Pc.expects,Pc.notifies,Ne.symm same]
  | notified ref client rest caller queue here free =>
    have dependancies := (State.modify_keeps (state.check ((state.tasks client).status = .waiting) .notifyWaiting) client
      (·.dependancies) TaskData.wake (fun _ => rfl) task).trans (by rw [State.check_tasks])
    by_cases same : task = client
    · subst same
      exact tracking.wake locked free here threads
        (by simp [State.putTask,State.modify_tasks,TaskData.wake]) dependancies
    · refine tracking.frame threads dependancies ?_ ?_ ?_ ?_
      · simp only [State.putTask,State.modify_tasks]
        rw [if_neg same,State.check_tasks]
      all_goals simp [here,Pc.registers,Pc.expects,Pc.notifies,Ne.symm same]
  | finished ref other here =>
    exact tracking.calm threads rfl Iff.rfl (by rw [here]; exact ⟨rfl,rfl,rfl⟩) ⟨rfl,rfl,rfl⟩
  | returned ref other here =>
    exact tracking.calm threads rfl Iff.rfl (by rw [here]; exact ⟨rfl,rfl,rfl⟩) ⟨rfl,rfl,rfl⟩
  | cleared other here =>
    exact tracking.calm threads rfl Iff.rfl (by rw [here]; exact ⟨rfl,rfl,rfl⟩) ⟨rfl,rfl,rfl⟩

theorem Wired.calm (wired : Wired state) (threads : changed.threads = state.threads)
    (dependancies : ∀ task, (changed.tasks task).dependancies = (state.tasks task).dependancies)
    (clients : changed.clients = state.clients) (walked : ∀ ref, point.walked ref = (state.pc worker).walked ref)
    (distinct : point.waits.Nodup) (fresh : ∀ task waits, point = .registering task waits →
      ∀ ref ∈ waits, ref ∉ (state.tasks task).dependancies) : Wired (changed.goto worker point) := by
  have pc := goto_pc state changed worker point threads
  have pending (ref : TriggerableRef) (task : Task) :
      (changed.goto worker point).Pending ref task ↔ state.Pending ref task :=
    or_congr (by rw [← clients]; rfl) (exists_goto threads (fun pc => task ∈ pc.walked ref) (by rw [walked]))
  refine ⟨fun task ref => ?_,fun ref => ?_,fun other ref => ?_,fun other => ?_,fun other task waits here ref => ?_⟩
  · rw [pending,← wired.linked]
    exact iff_of_eq (congrArg (ref ∈ ·) (dependancies task))
  · exact clients ▸ wired.nodup ref
  · show _ ∧ ∀ client ∈ _, client ∉ changed.clients ref
    rw [clients,pc]
    split
    next => rw [walked]; exact wired.walk worker ref
    next => exact wired.walk other ref
  · rw [pc]
    split
    next => exact distinct
    next => exact wired.distinct other
  · show _ → ref ∉ (changed.tasks task).dependancies
    rw [dependancies]
    rw [pc] at here
    split at here
    next => exact fresh task waits here ref
    next => exact wired.fresh other task waits here ref

theorem Wired.plain (wired : Wired state) (threads : changed.threads = state.threads)
    (dependancies : ∀ task, (changed.tasks task).dependancies = (state.tasks task).dependancies)
    (clients : changed.clients = state.clients) (walked : ∀ ref, point.walked ref = (state.pc worker).walked ref)
    (distinct : point.waits.Nodup) (registers : point.registers = none) : Wired (changed.goto worker point) := by
  refine wired.calm threads dependancies clients walked distinct fun task waits same => ?_
  rw [same] at registers
  cases registers

theorem not_walked {ref : TriggerableRef} {other : Worker}
    (unheld : Lock.triggerable ref ∉ (state.pc other).locks) : (state.pc other).walked ref = [] := by
  cases at_ : state.pc other with
  | signaling walked clients caller =>
    rw [at_] at unheld
    have different : walked ≠ ref := fun same => unheld (by simp [Pc.locks,same])
    simp [Pc.walked,different]
  | notifying walked client clients caller =>
    rw [at_] at unheld
    have different : walked ≠ ref := fun same => unheld (by simp [Pc.locks,same])
    simp [Pc.walked,different]
  | _ => rfl

theorem Wired.register (wired : Wired state) (locked : state.threads.Exact Pc.locks) (located : Located state place)
    {task : Task} {ref : TriggerableRef} {rest : List TriggerableRef}
    (here : state.pc worker = .registering task (ref::rest)) (free : state.threads.free (.triggerable ref) = true) :
    Wired ((state.registerWait ref task).goto worker (.registering task rest)) := by
  have threads := state.registerWait_threads task ref
  have distinct := wired.distinct worker
  rw [here] at distinct
  obtain ⟨unlisted,distinct⟩ := List.nodup_cons.mp distinct
  have fresh := wired.fresh worker task _ here
  have runs : (state.pc worker).runs = some task := by rw [here]; rfl
  have walked (other : TriggerableRef) : (Pc.registering task rest).walked other = (state.pc worker).walked other := by
    rw [here]; rfl
  by_cases must : state.mustWait ref = true
  case neg =>
    refine wired.calm threads ?_ ?_ walked distinct ?_
    · exact fun other => by rw [State.registerWait,if_neg must,State.asked_tasks]
    · rw [State.registerWait,if_neg must,State.asked_clients]
    · rintro _ _ ⟨⟩ other member
      exact fresh other (List.mem_cons_of_mem _ member)
  case pos =>
    have pc := goto_pc state (state.registerWait ref task) worker (.registering task rest) threads
    have clients (other : TriggerableRef) : (state.registerWait ref task).clients other =
        if other = ref then state.clients ref ++ [task] else state.clients other := by
      rw [State.registerWait,if_pos must]
      simp [State.modify,State.setClients,Function.update_apply]
    have dependancies (other : Task) : ((state.registerWait ref task).tasks other).dependancies =
        if other = task then (state.tasks task).dependancies ++ [ref] else (state.tasks other).dependancies := by
      rw [State.registerWait,if_pos must,State.modify_tasks]
      split <;> simp [TaskData.depend,State.setClients]
    have unregistered : task ∉ state.clients ref := fun member =>
      fresh ref (by simp) ((wired.linked task ref).mpr (Or.inl member))
    refine ⟨fun other r => ?_,fun r => ?_,fun other r => ?_,fun other => ?_,fun other t waits there r member => ?_⟩
    · have walkers := exists_goto threads (fun pc => other ∈ pc.walked r) (by rw [walked])
      show r ∈ ((state.registerWait ref task).tasks other).dependancies ↔
        other ∈ (state.registerWait ref task).clients r ∨ ∃ w, other ∈ Pc.walked r (State.pc _ w)
      rw [walkers,dependancies,clients]
      have before := wired.linked other r
      unfold State.Pending at before
      by_cases mine : other = task
      · by_cases this : r = ref
        · simp [mine,this]
        · simpa [mine,this] using mine ▸ before
      · by_cases this : r = ref
        · subst this
          simpa [mine] using before
        · simpa [mine,this] using before
    · show ((state.registerWait ref task).clients r).Nodup
      rw [clients]
      split
      next =>
        refine List.nodup_append.mpr ⟨wired.nodup ref,by simp,?_⟩
        rintro other member single last rfl
        exact unregistered (List.mem_singleton.mp last ▸ member)
      next => exact wired.nodup r
    · show _ ∧ ∀ client ∈ _, client ∉ (state.registerWait ref task).clients r
      have same : ((State.goto (state.registerWait ref task) worker (.registering task rest)).pc other).walked r =
          (state.pc other).walked r := by
        rw [pc]
        split
        next at_ => rw [walked,at_]
        next => rfl
      rw [same,clients]
      split
      next this => rw [this,not_walked (locked.not_held free other)]; simp
      next => exact wired.walk other r
    · rw [pc]
      split
      next => exact distinct
      next => exact wired.distinct other
    · show r ∉ ((state.registerWait ref task).tasks t).dependancies
      rw [pc] at there
      rw [dependancies]
      split at there
      next =>
        cases there
        simpa [fresh r (List.mem_cons_of_mem _ member)] using fun same : r = ref => unlisted (same ▸ member)
      next different =>
        have apart : t ≠ task := fun same =>
          different (located.same_worker runs (by rw [there,same]; rfl))
        rw [if_neg apart]
        exact wired.fresh other t waits there r member

/-- Taking the lock of a triggerable and starting to walk its clients, all of them
or the first one, leaves every signal to come. -/
theorem Wired.startWalk (wired : Wired state) (locked : state.threads.Exact Pc.locks)
    (threads : changed.threads = state.threads) {ref : TriggerableRef} {walk rest : List Task} {caller : Caller}
    (split : state.clients ref = walk ++ rest)
    (clients : ∀ other, changed.clients other = if other = ref then rest else state.clients other)
    (dependancies : ∀ task, (changed.tasks task).dependancies = (state.tasks task).dependancies)
    (before : ∀ other, (state.pc worker).walked other = [])
    (available : state.threads.available Pc.locks worker (.signaling ref walk caller) = true) :
    Wired (changed.goto worker (.signaling ref walk caller)) := by
  have pc := goto_pc state changed worker (.signaling ref walk caller) threads
  have nodup := wired.nodup ref
  rw [split] at nodup
  obtain ⟨walkNodup,restNodup,apart⟩ := List.nodup_append.mp nodup
  have others {other : Worker} (different : other ≠ worker) : (state.pc other).walked ref = [] :=
    not_walked (locked.not_held_by_other available (by simp [Pc.locks]) different)
  have nobody (other : Worker) : (state.pc other).walked ref = [] := by
    by_cases same : other = worker
    · rw [same,before]
    · exact others same
  refine ⟨fun task r => ?_,fun r => ?_,fun other r => ?_,fun other => ?_,fun other task waits here r => ?_⟩
  · show r ∈ (changed.tasks task).dependancies ↔ task ∈ changed.clients r ∨ _
    rw [dependancies,wired.linked,clients]
    unfold State.Pending
    have walked : (Pc.signaling ref walk caller).walked r = if ref = r then walk else [] := rfl
    rw [exists_goto_or threads (fun pc => task ∈ pc.walked r),walked]
    by_cases here : r = ref
    · subst here
      simp [split,nobody,or_comm]
    · have walkers : (∃ other, other ≠ worker ∧ task ∈ (state.pc other).walked r) ↔
          ∃ other, task ∈ (state.pc other).walked r := by
        refine exists_congr fun other => and_iff_right_of_imp ?_
        rintro member rfl
        simp [before] at member
      simp [here,Ne.symm here,walkers]
  · show (changed.clients r).Nodup
    rw [clients]
    split
    next => exact restNodup
    next => exact wired.nodup r
  · show _ ∧ ∀ client ∈ _, client ∉ changed.clients r
    rw [pc,clients]
    by_cases here : r = ref
    · subst here
      split
      next => simpa [Pc.walked,walkNodup] using fun client member other => apart client member client other rfl
      next different => simp [others different]
    · split
      next => simp [Pc.walked,Ne.symm here]
      next => simpa [here] using wired.walk other r
  · rw [pc]
    split
    next => exact List.nodup_nil
    next => exact wired.distinct other
  · show _ → r ∉ (changed.tasks task).dependancies
    rw [dependancies]
    rw [pc] at here
    split at here
    next => cases here
    next => exact wired.fresh other task waits here r

theorem Wired.signal (wired : Wired state) (locked : state.threads.Exact Pc.locks) {ref : TriggerableRef} {client : Task}
    {rest : List Task} {caller : Caller} (here : state.pc worker = .signaling ref (client::rest) caller)
    (walked : ∀ other, point.walked other = if ref = other then rest else []) (waits : point.waits = [])
    (registers : point.registers = none) :
    Wired ((state.removeDependancy ref client).goto worker point) := by
  have threads := state.removeDependancy_threads client ref
  have pc := goto_pc state (state.removeDependancy ref client) worker point threads
  have before (other : TriggerableRef) : (state.pc worker).walked other = if ref = other then client::rest else [] := by
    rw [here]; rfl
  have clients : (state.removeDependancy ref client).clients = state.clients := by
    simp [State.removeDependancy,State.modify]
  have dependancies (task : Task) (r : TriggerableRef) :
      r ∈ ((state.removeDependancy ref client).tasks task).dependancies ↔
        r ∈ (state.tasks task).dependancies ∧ ¬(r = ref ∧ task = client) := by
    rw [State.removeDependancy,State.modify_tasks]
    split
    next same => simp [same,TaskData.remove]
    next different => simp [different]
  have walk := wired.walk worker ref
  rw [before,if_pos rfl] at walk
  obtain ⟨unwalked,restNodup⟩ := List.nodup_cons.mp walk.1
  have mine : Lock.triggerable ref ∈ (state.pc worker).locks := by simp [here,Pc.locks]
  have others {other : Worker} (different : other ≠ worker) : (state.pc other).walked ref = [] :=
    not_walked fun held => different (locked.unique held mine)
  refine ⟨fun task r => ?_,fun r => ?_,fun other r => ?_,fun other => ?_,fun other task waits there r member => ?_⟩
  · show r ∈ ((state.removeDependancy ref client).tasks task).dependancies ↔
      task ∈ (state.removeDependancy ref client).clients r ∨ _
    rw [dependancies,wired.linked,clients]
    unfold State.Pending
    rw [exists_goto_or threads (fun pc => task ∈ pc.walked r)]
    by_cases this : r = ref
    · subst this
      have walkers : (∃ other, task ∈ (state.pc other).walked r) ↔ task ∈ client::rest := by
        constructor
        · rintro ⟨other,member⟩
          by_cases same : other = worker
          · simpa [same,before] using member
          · simp [others same] at member
        · exact fun member => ⟨worker,by simpa [before] using member⟩
      have nobody : ¬∃ other, other ≠ worker ∧ task ∈ (state.pc other).walked r := by
        rintro ⟨other,different,member⟩
        simp [others different] at member
      rw [walkers,walked,if_pos rfl]
      by_cases mine : task = client
      · subst mine
        simp [nobody,unwalked,walk.2 task (by simp)]
      · simp [mine,nobody]
    · have walkers : (∃ other, other ≠ worker ∧ task ∈ (state.pc other).walked r) ↔
          ∃ other, task ∈ (state.pc other).walked r := by
        refine exists_congr fun other => and_iff_right_of_imp ?_
        rintro member rfl
        simp [before,Ne.symm this] at member
      simp [walked,this,Ne.symm this,walkers]
  · show ((state.removeDependancy ref client).clients r).Nodup
    exact clients ▸ wired.nodup r
  · show _ ∧ ∀ client' ∈ _, client' ∉ (state.removeDependancy ref client).clients r
    rw [pc,clients]
    split
    next =>
      rw [walked]
      split
      next same => exact same ▸ ⟨restNodup,fun other member => walk.2 other (List.mem_cons_of_mem _ member)⟩
      next => simp
    next => exact wired.walk other r
  · rw [pc]
    split
    next => rw [waits]; exact List.nodup_nil
    next => exact wired.distinct other
  · show r ∉ ((state.removeDependancy ref client).tasks task).dependancies
    rw [dependancies]
    rw [pc] at there
    split at there
    next => simp [there,Pc.registers] at registers
    next => exact fun still => wired.fresh other task waits there r member still.1

theorem Effect.wired (locked : state.threads.Exact Pc.locks) (located : Located state place)
    (tracked : ∀ task, Tracked state task) (wired : Wired state) (effect : Effect state worker changed point)
    (available : state.threads.available Pc.locks worker point = true) : Wired (changed.goto worker point) := by
  have threads := effect.threads
  have distinct := wired.distinct worker
  cases effect with
  | took queue task rest here found =>
    exact wired.plain threads (fun _ => rfl) rfl (fun _ => by rw [here]; rfl) List.nodup_nil rfl
  | scheduled task here =>
    exact wired.plain threads (state.modify_keeps task (·.dependancies) (TaskData.become .running) fun _ => rfl) rfl
      (fun _ => by rw [here]; rfl) List.nodup_nil rfl
  | ran task here =>
    refine wired.plain threads ?_ (by simp [State.modify]) (fun _ => by rw [here]; rfl) List.nodup_nil rfl
    exact fun other => (State.modify_keeps _ task (·.dependancies) TaskData.run (fun _ => rfl) other).trans (by simp)
  | jumped task here =>
    exact wired.plain threads (by simp) (by simp) (fun _ => by rw [here]; rfl) List.nodup_nil rfl
  | dropped task waits here nodup =>
    exact wired.plain threads (fun _ => rfl) rfl (fun _ => by rw [here]; rfl) nodup rfl
  | yielded task queue here =>
    refine wired.plain threads ?_ ?_ (fun _ => by rw [here]; rfl) List.nodup_nil rfl
    · exact fun other => (State.modify_keeps _ task (·.dependancies) (TaskData.become .suspended) (fun _ => rfl)
        other).trans (by simp)
    · simp [State.putTask,State.setState,State.modify]
  | waiting task waits here =>
    rw [here] at distinct
    exact wired.plain threads (fun _ => rfl) rfl (fun _ => by rw [here]; rfl) distinct rfl
  | registering task waits here =>
    rw [here] at distinct
    refine wired.calm threads (state.modify_keeps task (·.dependancies) TaskData.forget fun _ => rfl) rfl
      (fun _ => by rw [here]; rfl) distinct ?_
    rintro _ _ ⟨⟩ ref _
    have none_left := (tracked task).settled located (by rw [here]; rfl) (by rw [here]; exact ⟨rfl,rfl,rfl⟩)
    simp [none_left]
  | registered task ref rest here free => exact wired.register locked located here free
  | synchronized task here =>
    refine wired.plain threads (fun _ => rfl) rfl (fun _ => ?_) ?_ rfl
    · rw [here]
      rfl
    · exact List.nodup_nil
  | suspended task here =>
    refine wired.plain threads ?_ (by simp [State.modify]) (fun _ => by rw [here]; rfl) List.nodup_nil rfl
    exact fun other => (State.modify_keeps _ task (·.dependancies) TaskData.suspend (fun _ => rfl) other).trans (by simp)
  | resumed task here =>
    have running := located.runs worker task (by rw [here]; rfl)
    simp only [running]
    exact wired.plain rfl (fun _ => rfl) rfl (fun _ => by rw [here]; rfl) List.nodup_nil rfl
  | completing task here =>
    exact wired.plain threads (fun _ => rfl) rfl (fun _ => by rw [here]; rfl) List.nodup_nil rfl
  | completed task here =>
    refine wired.plain threads ?_ (by simp [State.setState,State.modify]) (fun _ => by rw [here]; rfl) List.nodup_nil
      rfl
    exact fun other => (State.modify_keeps _ task (·.dependancies) (TaskData.become .completed) (fun _ => rfl)
      other).trans (by simp)
  | setSignaled task here =>
    refine wired.startWalk locked threads (List.append_nil _).symm ?_ ?_ (fun _ => by rw [here]; rfl) available
    · intro other
      simp [State.setClients,State.modify,Function.update_apply]
    · exact fun other => (State.modify_keeps _ task (·.dependancies) TaskData.setSignaled (fun _ => rfl) other).trans
        (by simp)
  | triggered task mutex client rest here first =>
    refine wired.startWalk locked threads first ?_ (fun _ => rfl) (fun _ => by rw [here]; rfl) available
    exact fun other => by simp [State.setClients,Function.update_apply]
  | signaled ref client rest caller here free =>
    refine wired.signal locked here ?_ ?_ ?_
    · intro other
      split <;> rfl
    all_goals split <;> rfl
  | notified ref client rest caller queue here free =>
    refine wired.plain threads ?_ (by simp [State.putTask,State.modify]) (fun _ => by rw [here]; rfl) List.nodup_nil rfl
    exact fun other => (State.modify_keeps _ client (·.dependancies) TaskData.wake (fun _ => rfl) other).trans (by simp)
  | finished ref task here =>
    refine wired.plain threads (fun _ => rfl) rfl (fun other => ?_) List.nodup_nil rfl
    rw [here]
    exact (ite_self []).symm
  | returned ref task here =>
    refine wired.plain threads (fun _ => rfl) rfl (fun other => ?_) List.nodup_nil rfl
    rw [here]
    exact (ite_self []).symm
  | cleared task here =>
    exact wired.plain threads (fun _ => rfl) rfl (fun _ => by rw [here]; rfl) List.nodup_nil rfl

end Pgasus.Tasking
