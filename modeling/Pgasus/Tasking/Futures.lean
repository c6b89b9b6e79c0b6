import Pgasus.Tasking.Soundness

/-! What tasks return. A `FunctionTask` stores what its function returned before it is
done, and whoever has waited for it can read that: `get_result` never finds a task that
is not completed. -/
namespace Pgasus.Tasking
open Runs

structure Program (Value : Type) where
  state : State
  results : Task → Option Value
  waited : Task → List TriggerableRef

inductive Event (Value : Type)
  | call (action : Action)
  | complete (worker : Worker) (value : Value)

namespace Program
variable {Value : Type}

def start : Program Value := ⟨.start,fun _ => none,fun _ => []⟩

/-- The end of `do_run` is where `finish` begins: `assert(_result == nullptr)`, and the
function's value is stored. -/
def step (program : Program Value) : Event Value → Option (Program Value)
  | .complete worker value =>
    match program.state.pc worker with
    | .running task =>
      if (program.results task).isNone then
        (Tasking.step program.state (.finish worker)).map fun next =>
          {program with state := next,results := Function.update program.results task (some value)}
      else none
    | _ => none
  | .call (.finish _) => none
  | .call (.wait worker waits) =>
    match program.state.pc worker with
    | .running task =>
      (Tasking.step program.state (.wait worker waits)).map fun next =>
        {program with state := next,waited := Function.update program.waited task waits}
    | _ => none
  | .call action => (Tasking.step program.state action).map fun next => {program with state := next}

/-- `FunctionTask::get`, with its assertion. -/
def get (program : Program Value) (task : Task) : Option Value :=
  if (program.state.tasks task).status = .completed then program.results task else none

def Returns (program : Program Value) (events : List (Event Value)) (task : Task) (value : Value) : Prop :=
  ∃ before worker after middle, events = before ++ .complete worker value::after ∧
    run step program before = some middle ∧ middle.state.pc worker = .running task

end Program

section Signals
variable {state changed : State} {worker : Worker} {point : Pc}

structure TaskData.Keeps (before after : TaskData) : Prop where
  signaled : before.signaled = true → after.signaled = true
  dependancies : ∀ ref ∈ before.dependancies, ref ∈ after.dependancies

theorem TaskData.Keeps.refl (data : TaskData) : data.Keeps data := ⟨id,fun _ => id⟩

theorem TaskData.keeps_depend (ref : TriggerableRef) (data : TaskData) : data.Keeps (data.depend ref) :=
  ⟨id,fun _ => List.mem_append_left _⟩

theorem modify_task_keeps {task : Task} (change : TaskData → TaskData)
    (kept : ∀ data : TaskData, data.Keeps (change data)) (other : Task) :
    (state.tasks other).Keeps ((state.modify task change).tasks other) := by
  rw [State.modify_tasks]
  split
  next same =>
    subst same
    exact kept _
  next => exact .refl _

theorem registerWait_task_keeps (ref : TriggerableRef) (task other : Task) :
    (state.tasks other).Keeps ((state.registerWait ref task).tasks other) := by
  unfold State.registerWait
  split
  next =>
    have kept := @modify_task_keeps ((state.asked ref).setClients ref (state.clients ref ++ [task])) task _
      (TaskData.keeps_depend ref) other
    simpa [State.setClients] using kept
  next => simpa using TaskData.Keeps.refl (state.tasks other)

theorem Effect.keeps (effect : Effect state worker changed point) (task : Task) :
    (state.tasks task).Keeps (changed.tasks task) ∨ ∃ ref rest caller, state.pc worker = .signaling ref (task::rest) caller ∧
      changed.tasks task = (state.tasks task).remove ref := by
  have checked {holds : Bool} {assertion : Assertion} {other : Task} {change : TaskData → TaskData}
      (kept : ∀ data : TaskData, data.Keeps (change data)) :
      (state.tasks task).Keeps (((state.check holds assertion).modify other change).tasks task) := by
    have kept := @modify_task_keeps (state.check holds assertion) other change kept task
    simpa using kept
  cases effect with
  | scheduled other here => exact .inl (modify_task_keeps (TaskData.become .running) (fun _ => ⟨id,fun _ => id⟩) task)
  | ran other here => exact .inl (checked fun _ => ⟨id,fun _ => id⟩)
  | jumped other here => exact .inl (by simpa using TaskData.Keeps.refl (state.tasks task))
  | yielded other queue here => exact .inl (checked fun _ => ⟨id,fun _ => id⟩)
  | registering other waits here => exact .inl (modify_task_keeps TaskData.forget (fun _ => ⟨id,fun _ => id⟩) task)
  | registered other ref rest here free => exact .inl (registerWait_task_keeps ref other task)
  | suspended other here => exact .inl (checked fun _ => ⟨id,fun _ => id⟩)
  | completed other here => exact .inl (checked fun _ => ⟨id,fun _ => id⟩)
  | setSignaled other here => exact .inl (checked fun _ => ⟨fun _ => rfl,fun _ => id⟩)
  | signaled ref client rest caller here free =>
    rw [State.removeDependancy,State.modify_tasks]
    split
    next same =>
      subst same
      exact .inr ⟨ref,rest,caller,here,by simp⟩
    next => exact .inl (by simpa using TaskData.Keeps.refl (state.tasks task))
  | notified ref client rest caller queue here free => exact .inl (checked fun _ => ⟨id,fun _ => id⟩)
  | _ => exact .inl (.refl _)

theorem Effect.stays_signaled (effect : Effect state worker changed point) {task : Task}
    (signaled : (state.tasks task).signaled = true) : (changed.tasks task).signaled = true := by
  obtain kept | ⟨ref,rest,caller,_,removed⟩ := effect.keeps task
  · exact kept.signaled signaled
  · rw [removed]
    exact signaled

def Pc.signals : Pc → Option TriggerableRef
  | .signaling ref _ _ => some ref
  | .notifying ref _ _ _ => some ref
  | _ => none

def Walking (state : State) : Prop :=
  ∀ worker task, (state.pc worker).signals = some (.task task) → (state.tasks task).signaled = true

def Settled (state : State) (task other : Task) : Prop :=
  (state.tasks other).signaled = true ∨ .task other ∈ (state.tasks task).dependancies ∨
    ∃ worker, (state.pc worker).runs = some task ∧ .task other ∈ (state.pc worker).waits

theorem Effect.walking (effect : Effect state worker changed point) (walking : Walking state) :
    Walking (changed.goto worker point) := by
  intro other task signals
  rw [goto_pc state changed worker point effect.threads] at signals
  change (changed.tasks task).signaled = true
  split at signals
  next =>
    -- the worker itself: it is told which triggerable by its point before, or has just signaled the task
    have before : (state.pc worker).signals = some (.task task) → (changed.tasks task).signaled = true :=
      fun signals => effect.stays_signaled (walking worker task signals)
    cases effect with
    | setSignaled completed here =>
      obtain rfl := TriggerableRef.task.inj (Option.some.inj signals)
      change ((State.modify _ completed TaskData.setSignaled).tasks completed).signaled = true
      rw [State.modify_tasks,if_pos rfl]
      rfl
    | triggered other mutex client rest here first => cases signals
    | signaled ref client rest caller here free =>
      apply before
      rw [here]
      split at signals <;> exact signals
    | notified ref client rest caller queue here free => exact before (by rw [here]; exact signals)
    | resumed other here => split at signals <;> cases signals
    | _ => cases signals
  next => exact effect.stays_signaled (walking other task signals)

theorem Effect.settled (effect : Effect state worker changed point) (walking : Walking state) {task other : Task}
    (settled : Settled state task other) : Settled (changed.goto worker point) task other := by
  have signaled (done : (state.tasks other).signaled = true) : Settled (changed.goto worker point) task other :=
    .inl (effect.stays_signaled done)
  have depends (depends : .task other ∈ (changed.tasks task).dependancies) : Settled (changed.goto worker point) task other :=
    .inr (.inl depends)
  obtain done | dependancy | ⟨worker_,runs,waits⟩ := settled
  · exact signaled done
  · obtain kept | ⟨ref,rest,caller,here,removed⟩ := effect.keeps task
    · exact depends (kept.dependancies _ dependancy)
    · by_cases same : ref = .task other
      · -- the signal that takes the dependency away is the one of the other task
        subst same
        exact signaled (walking worker other (by rw [here]; rfl))
      · refine depends ?_
        rw [removed]
        exact List.mem_filter.mpr ⟨dependancy,by simpa using Ne.symm same⟩
  · have ahead (here : worker_ ≠ worker ∨ point.runs = some task ∧ .task other ∈ point.waits) :
        Settled (changed.goto worker point) task other := by
      refine .inr (.inr ⟨worker_,?_⟩)
      rw [goto_pc state changed worker point effect.threads]
      split
      next same => exact here.resolve_left (not_not.mpr same)
      next => exact ⟨runs,waits⟩
    by_cases same : worker_ = worker
    · subst same
      cases effect with
      | waiting waiter list here =>
        rw [here] at runs waits
        exact ahead (.inr ⟨runs,waits⟩)
      | registering waiter list here =>
        rw [here] at runs waits
        exact ahead (.inr ⟨runs,waits⟩)
      | registered waiter ref rest here free =>
        rw [here] at runs waits
        obtain rfl := Option.some.inj runs
        rcases List.mem_cons.mp waits with rfl | later
        · by_cases done : (state.tasks other).signaled = true
          · exact signaled done
          · have must : state.mustWait (.task other) = true := by simp [State.mustWait,done]
            refine depends ?_
            rw [State.registerWait,if_pos must,State.modify_tasks,if_pos rfl]
            exact List.mem_append_right _ (List.mem_singleton_self _)
        · exact ahead (.inr ⟨rfl,later⟩)
      | _ => exact absurd waits (by simp [*,Pc.waits])
    · exact ahead (.inl same)

def Finished (state : State) (task : Task) : Prop :=
  (state.tasks task).status = .completed ∨ ∃ worker, state.pc worker = .completing task

theorem modify_completed_iff {task : Task} (change : TaskData → TaskData) (before : (state.tasks task).status ≠ .completed)
    (after : (change (state.tasks task)).status ≠ .completed) (other : Task) :
    ((state.modify task change).tasks other).status = .completed ↔ (state.tasks other).status = .completed := by
  rw [State.modify_tasks]
  split
  next same =>
    subst same
    exact iff_of_false after before
  next => rfl

theorem Effect.completed_iff (invariant : Invariant state) (effect : Effect state worker changed point) (task : Task) :
    (changed.tasks task).status = .completed ↔ (state.tasks task).status = .completed ∨ point = .completed task := by
  obtain ⟨place,located⟩ := invariant.located
  have runs := located.runs worker
  have calm (statuses : ∀ task, (changed.tasks task).status = .completed ↔ (state.tasks task).status = .completed)
      (elsewhere : ∀ task, point ≠ .completed task) :
      (changed.tasks task).status = .completed ↔ (state.tasks task).status = .completed ∨ point = .completed task :=
    (statuses task).trans (or_iff_left (elsewhere task)).symm
  have same {holds : Bool} {assertion : Assertion} (other : Task) (change : TaskData → TaskData)
      (keeps : ∀ data : TaskData, (change data).status = data.status) (task : Task) :
      (((state.check holds assertion).modify other change).tasks task).status = .completed ↔
        (state.tasks task).status = .completed := by
    rw [State.modify_keeps _ other (·.status) change keeps,State.check_tasks]
  cases effect with
  | scheduled other here =>
    have held : (state.pc worker).holds = some other := by rw [here]; rfl
    have active := located.status_of_held held
    exact calm (modify_completed_iff (TaskData.become .running) active.2 (by simp [TaskData.become])) (by simp)
  | ran other here => exact calm (same other TaskData.run fun _ => rfl) (by simp)
  | jumped other here => exact calm (by simp) (by simp)
  | yielded other queue here =>
    have running := runs other (by rw [here]; rfl)
    simp only [running,decide_true,check_true] at calm ⊢
    exact calm (modify_completed_iff (TaskData.become .suspended) (by simp [running]) (by simp [TaskData.become])) (by simp)
  | registering other waits here =>
    exact calm (fun task => by rw [state.modify_keeps other (·.status) TaskData.forget fun _ => rfl]) (by simp)
  | registered other ref rest here free =>
    exact calm (fun task => by rw [state.registerWait_keeps other (·.status) (fun _ _ => rfl)]) (by simp)
  | suspended other here =>
    have running := runs other (by rw [here]; rfl)
    simp only [running,decide_true,check_true] at calm ⊢
    exact calm (modify_completed_iff TaskData.suspend (by simp [running]) (by simp [TaskData.suspend])) (by simp)
  | resumed other here => exact calm (fun _ => Iff.rfl) (by intro; split <;> simp)
  | completed other here =>
    have running := runs other (by rw [here]; rfl)
    simp only [running,decide_true,check_true]
    rw [State.setState,State.modify_tasks,Pc.completed.injEq]
    by_cases mine : task = other
    · rw [if_pos mine]
      exact iff_of_true rfl (.inr mine.symm)
    · rw [if_neg mine,or_iff_left (Ne.symm mine)]
  | setSignaled other here => exact calm (same other TaskData.setSignaled fun _ => rfl) (by simp)
  | signaled ref client rest caller here free =>
    refine calm (fun task => ?_) (by intro; split <;> simp)
    rw [state.removeDependancy_keeps client (·.status) (fun _ _ => rfl)]
  | notified ref client rest caller queue here free =>
    have waiting := (invariant.tracked client).waiting invariant.locked free here
    simp only [waiting,decide_true,check_true] at calm ⊢
    exact calm (modify_completed_iff TaskData.wake (by simp [waiting]) (by simp [TaskData.wake])) (by simp)
  | _ => exact calm (fun _ => Iff.rfl) (by simp)

theorem Effect.completing_iff (effect : Effect state worker changed point) (task : Task) :
    state.pc worker = .completing task ↔ point = .completed task := by
  cases effect with
  | resumed other here => split <;> simp [here]
  | signaled ref client rest caller here free => split <;> simp [here]
  | _ => simp [*]

theorem Effect.finished_iff (invariant : Invariant state) (effect : Effect state worker changed point) (task : Task) :
    Finished (changed.goto worker point) task ↔ Finished state task ∨ point = .completing task := by
  have status := effect.completed_iff invariant task
  have before := effect.completing_iff task
  change (changed.tasks task).status = .completed ∨ (∃ other, (changed.goto worker point).pc other = .completing task) ↔ _
  rw [status,exists_goto_or effect.threads (· = .completing task),Finished]
  constructor
  · rintro ((completed | here) | (completing | ⟨other,_,there⟩))
    · exact .inl (.inl completed)
    · exact .inl (.inr ⟨worker,before.mpr here⟩)
    · exact .inr completing
    · exact .inl (.inr ⟨other,there⟩)
  · rintro ((completed | ⟨other,there⟩) | completing)
    · exact .inl (.inl completed)
    · by_cases same : other = worker
      · subst same
        exact .inl (.inr (before.mp there))
      · exact .inr (.inr ⟨other,same,there⟩)
    · exact .inr (.inl completing)

theorem enter_completing {final : State} {task : Task} {other : Worker} (entered : changed.enter worker point = some final)
    (threads : changed.threads = state.threads) (elsewhere : ∀ task, point ≠ .completing task)
    (there : final.pc other = .completing task) : state.pc other = .completing task := by
  obtain ⟨rfl,_⟩ := State.enter_some changed entered
  rw [goto_pc state changed worker point threads] at there
  split at there
  next => exact absurd there (elsewhere task)
  next => exact there

theorem advance_completing {final : State} {queue : Queue} {task : Task} {other : Worker}
    (stepped : advance state worker queue = some final) (there : final.pc other = .completing task) :
    state.pc other = .completing task := by
  have enters {changed : State} {point : Pc} (entered : changed.enter worker point = some final)
      (threads : changed.threads = state.threads) (elsewhere : ∀ task, point ≠ .completing task) :
      state.pc other = .completing task := enter_completing entered threads elsewhere there
  unfold advance at stepped
  split at stepped
  next => cases stepped
  next => cases stepped
  next =>
    split at stepped
    next => exact enters stepped rfl (by simp)
    next => cases stepped
  next =>
    split at stepped
    next => exact enters stepped (by simp [State.modify]) (by simp)
    next => cases stepped
  next =>
    split at stepped
    next => exact enters stepped (by simp) (by simp)
    next => cases stepped
  next =>
    split at stepped
    next => exact enters stepped (by simp [State.putTask,State.setState,State.modify]) (by simp)
    next => cases stepped
  next => exact enters stepped rfl (by simp)
  next => exact enters stepped rfl (by simp)
  next =>
    split at stepped
    next => exact enters stepped (by simp) (by simp)
    next => cases stepped
  next => exact enters stepped rfl (by simp)
  next => exact enters stepped (by simp [State.modify]) (by simp)
  next => exact enters stepped rfl (by intro; split <;> simp)
  next => exact enters stepped (by simp [State.setState,State.modify]) (by simp)
  next => exact enters stepped (by simp [State.setClients,State.modify]) (by simp)
  next =>
    split at stepped
    next => exact enters stepped (by simp) (by intro; split <;> simp)
    next => cases stepped
  next =>
    split at stepped
    next => exact enters stepped (by simp [State.putTask,State.modify]) (by simp)
    next => cases stepped
  next => exact enters stepped rfl (by simp)
  next => exact enters stepped rfl (by simp)
  next => exact enters stepped rfl (by simp)

theorem step_completing {final : State} {action : Action} {task : Task} {other : Worker} (stepped : step state action = some final)
    (unfinished : ∀ worker, action ≠ .finish worker) (there : final.pc other = .completing task) :
    state.pc other = .completing task := by
  cases action with
  | spawn queue =>
    obtain rfl := Option.some.inj stepped
    exact there
  | take worker queue =>
    simp only [step] at stepped
    split at stepped
    next => exact enter_completing stepped rfl (by simp) there
    next => cases stepped
  | wait worker waits =>
    simp only [step] at stepped
    split at stepped
    next =>
      split at stepped
      next => exact enter_completing stepped rfl (by simp) there
      next => cases stepped
    next => cases stepped
  | release worker mutex =>
    simp only [step] at stepped
    split at stepped
    next =>
      split at stepped
      next =>
        split at stepped
        next =>
          obtain rfl := Option.some.inj stepped
          exact there
        next => exact enter_completing stepped rfl (by simp) there
      next => cases stepped
    next => cases stepped
  | finish worker => exact absurd rfl (unfinished worker)
  | advance worker queue => exact advance_completing stepped there

theorem Transition.walking {next : State} (transition : Transition state next) (walking : Walking state) : Walking next := by
  cases transition with
  | spawned queue => exact walking
  | unlocked mutex free nobody => exact walking
  | moved worker effect available => exact effect.walking walking

theorem Transition.settled {next : State} {task other : Task} (transition : Transition state next) (walking : Walking state)
    (settled : Settled state task other) : Settled next task other := by
  cases transition with
  | spawned queue => exact settled
  | unlocked mutex free nobody => exact settled
  | moved worker effect available => exact effect.settled walking settled

theorem Transition.stays_completed {next : State} {task : Task} (invariant : Invariant state) (transition : Transition state next)
    (completed : (state.tasks task).status = .completed) : (next.tasks task).status = .completed := by
  cases transition with
  | spawned queue => exact completed
  | unlocked mutex free nobody => exact completed
  | moved worker effect available => exact (effect.completed_iff invariant task).mpr (.inl completed)

theorem step_finished_iff {next : State} {action : Action} (invariant : Invariant state) (stepped : step state action = some next)
    (unfinished : ∀ worker, action ≠ .finish worker) (task : Task) : Finished next task ↔ Finished state task := by
  cases step_transition stepped with
  | spawned queue => exact Iff.rfl
  | unlocked mutex free nobody => exact Iff.rfl
  | moved worker effect available =>
    rw [effect.finished_iff invariant]
    refine or_iff_left_of_imp fun completing => .inr ⟨worker,step_completing stepped unfinished ?_⟩
    rw [goto_pc state _ worker _ effect.threads,if_pos rfl,completing]

end Signals

structure Program.Inv {Value : Type} (program : Program Value) : Prop where
  invariant : Invariant program.state
  walking : Walking program.state
  settled : ∀ task other, .task other ∈ program.waited task → Settled program.state task other
  results : ∀ task, (program.results task).isSome ↔ Finished program.state task

namespace Program
variable {Value : Type} {program next final : Program Value} {event : Event Value} {events : List (Event Value)}
variable {worker : Worker} {task : Task}

theorem Inv.unset (inv : program.Inv) (running : program.state.pc worker = .running task) : program.results task = none := by
  obtain ⟨place,located⟩ := inv.invariant.located
  have runs : (program.state.pc worker).runs = some task := by rw [running]; rfl
  rw [← Option.not_isSome_iff_eq_none,inv.results]
  rintro (completed | ⟨other,completing⟩)
  · have impossible := (located.runs worker task runs).symm.trans completed
    cases impossible
  · have also : (program.state.pc other).runs = some task := by rw [completing]; rfl
    obtain rfl := located.same_worker runs also
    rw [running] at completing
    cases completing

theorem Inv.found (inv : program.Inv) (running : program.state.pc worker = .running task) {other : Task}
    (waited : .task other ∈ program.waited task) : ∃ value, program.get other = some value := by
  obtain ⟨place,located⟩ := inv.invariant.located
  have runs : (program.state.pc worker).runs = some task := by rw [running]; rfl
  have nothing := (inv.invariant.tracked task).settled located runs (by rw [running]; exact ⟨rfl,rfl,rfl⟩)
  have signaled : (program.state.tasks other).signaled = true := by
    obtain done | dependancy | ⟨worker_,also,waits⟩ := inv.settled task other waited
    · exact done
    · rw [nothing] at dependancy
      cases dependancy
    · obtain rfl := located.same_worker runs also
      rw [running] at waits
      cases waits
  have completed := (inv.invariant.recorded other).finished signaled
  rw [get,if_pos completed]
  exact Option.isSome_iff_exists.mp ((inv.results other).mpr (.inl completed))

theorem Inv.start : (start : Program Value).Inv := by
  refine ⟨invariant_start,fun worker task signals => ?_,fun task other waited => ?_,fun task => ?_⟩
  · cases signals
  · cases waited
  · refine iff_of_false (by simp [Program.start]) ?_
    rintro (completed | ⟨worker,completing⟩)
    · cases completed
    · cases completing

theorem Inv.moved {action : Action} {changed : State} (inv : program.Inv) (stepped : Tasking.step program.state action = some changed)
    (unfinished : ∀ worker, action ≠ .finish worker) : ({program with state := changed} : Program Value).Inv := by
  have transition := step_transition stepped
  refine ⟨transition.invariant inv.invariant,transition.walking inv.walking,fun task other waited => ?_,fun task => ?_⟩
  · exact transition.settled inv.walking (inv.settled task other waited)
  · rw [step_finished_iff inv.invariant stepped unfinished]
    exact inv.results task

theorem Inv.step (inv : program.Inv) (stepped : program.step event = some next) : next.Inv := by
  cases event with
  | complete worker value =>
    simp only [Program.step] at stepped
    split at stepped
    next task here =>
      split at stepped
      next unset =>
        obtain ⟨changed,finished,rfl⟩ := Option.map_eq_some_iff.mp stepped
        simp only [Tasking.step,here] at finished
        have effect : Effect program.state worker program.state (.completing task) := .completing task here
        have transition := effect.transition finished
        obtain ⟨rfl,_⟩ := State.enter_some _ finished
        refine ⟨transition.invariant inv.invariant,transition.walking inv.walking,fun task other waited => ?_,fun other => ?_⟩
        · exact transition.settled inv.walking (inv.settled task other waited)
        · dsimp only
          rw [effect.finished_iff inv.invariant,← inv.results,Pc.completing.injEq,Function.update_apply]
          by_cases same : other = task
          · simp [same]
          · simp [same,Ne.symm same]
      next => cases stepped
    next => cases stepped
  | call action =>
    cases action with
    | finish worker => cases stepped
    | wait worker waits =>
      simp only [Program.step] at stepped
      split at stepped
      next task here =>
        obtain ⟨changed,waiting,rfl⟩ := Option.map_eq_some_iff.mp stepped
        have moved := inv.moved waiting (by simp)
        refine ⟨moved.invariant,moved.walking,fun waiter other waited => ?_,moved.results⟩
        dsimp only at waited
        rw [Function.update_apply] at waited
        split at waited
        next same =>
          -- the task is about to register with what it named
          subst same
          simp only [Tasking.step,here] at waiting
          split at waiting
          next =>
            obtain ⟨rfl,_⟩ := State.enter_some _ waiting
            refine .inr (.inr ⟨worker,?_⟩)
            rw [goto_pc _ _ worker _ rfl,if_pos rfl]
            exact ⟨rfl,waited⟩
          next => cases waiting
        next => exact moved.settled waiter other waited
      next => cases stepped
    | spawn | take | release | advance =>
      simp only [Program.step] at stepped
      obtain ⟨changed,moved,rfl⟩ := Option.map_eq_some_iff.mp stepped
      exact inv.moved moved (by simp)

theorem inv_run (ran : run step start events = some final) : final.Inv :=
  invariant_of_run Program.Inv (fun _ _ _ inv stepped => inv.step stepped) .start ran

theorem step_moves (stepped : program.step event = some next) : Transition program.state next.state := by
  cases event with
  | complete worker value =>
    simp only [step] at stepped
    split at stepped
    next =>
      split at stepped
      next =>
        obtain ⟨changed,moved,rfl⟩ := Option.map_eq_some_iff.mp stepped
        exact step_transition moved
      next => cases stepped
    next => cases stepped
  | call action =>
    cases action with
    | finish worker => cases stepped
    | wait worker waits =>
      simp only [step] at stepped
      split at stepped
      next =>
        obtain ⟨changed,moved,rfl⟩ := Option.map_eq_some_iff.mp stepped
        exact step_transition moved
      next => cases stepped
    | spawn | take | release | advance =>
      simp only [step] at stepped
      obtain ⟨changed,moved,rfl⟩ := Option.map_eq_some_iff.mp stepped
      exact step_transition moved

theorem step_results (stepped : program.step event = some next) : next.results = program.results ∨
    ∃ worker value task, event = .complete worker value ∧ program.state.pc worker = .running task ∧ program.results task = none ∧
      next.results = Function.update program.results task (some value) := by
  cases event with
  | complete worker value =>
    simp only [step] at stepped
    split at stepped
    next task here =>
      split at stepped
      next unset =>
        obtain ⟨changed,_,rfl⟩ := Option.map_eq_some_iff.mp stepped
        exact .inr ⟨worker,value,task,rfl,here,Option.isNone_iff_eq_none.mp unset,rfl⟩
      next => cases stepped
    next => cases stepped
  | call action =>
    left
    cases action with
    | finish worker => cases stepped
    | wait worker waits =>
      simp only [step] at stepped
      split at stepped
      next =>
        obtain ⟨changed,_,rfl⟩ := Option.map_eq_some_iff.mp stepped
        rfl
      next => cases stepped
    | spawn | take | release | advance =>
      simp only [step] at stepped
      obtain ⟨changed,_,rfl⟩ := Option.map_eq_some_iff.mp stepped
      rfl

theorem results_run {value : Value} (ran : run step program events = some final) (result : final.results task = some value) :
    program.results task = some value ∨ program.Returns events task value := by
  induction events generalizing program with
  | nil =>
    obtain rfl := Option.some.inj ran
    exact .inl result
  | cons event rest ih =>
    obtain ⟨next,stepped,ran⟩ := run_cons_some ran
    obtain stored | ⟨before,worker,after,middle,rfl,went,here⟩ := ih ran
    · obtain same | ⟨worker,returned,other,rfl,here,_,same⟩ := step_results stepped
      · exact .inl (same ▸ stored)
      · rw [same,Function.update_apply] at stored
        split at stored
        next mine =>
          obtain rfl := Option.some.inj stored
          exact .inr ⟨[],worker,rest,program,rfl,rfl,mine ▸ here⟩
        next => exact .inl stored
    · refine .inr ⟨event::before,worker,after,middle,rfl,?_,here⟩
      rw [run_cons,stepped]
      exact went

theorem results_kept {value : Value} (ran : run step program events = some final) (result : program.results task = some value) :
    final.results task = some value := by
  refine invariant_of_run (fun program : Program Value => program.results task = some value) ?_ result ran
  intro before event after result stepped
  obtain same | ⟨worker,returned,other,_,_,unset,same⟩ := step_results stepped
  · rwa [same]
  · have apart : task ≠ other := by
      rintro rfl
      rw [unset] at result
      cases result
    rwa [same,Function.update_of_ne apart]

theorem get_some {value : Value} (read : program.get task = some value) :
    (program.state.tasks task).status = .completed ∧ program.results task = some value := by
  rw [get] at read
  split at read
  next completed => exact ⟨completed,read⟩
  next => cases read

end Program

/-- `assert(_result == nullptr)` never fails; whoever has waited for a task can read the
value that its function returned; and the value stays the same. -/
structure Delivered {Value : Type} (events : List (Event Value)) (final : Program Value) : Prop where
  unset : ∀ worker task, final.state.pc worker = .running task → final.results task = none
  waited : ∀ worker task other, final.state.pc worker = .running task → .task other ∈ final.waited task →
    ∃ value, final.get other = some value
  returned : ∀ task value, final.get task = some value → Program.start.Returns events task value
  kept : ∀ more later task value, run Program.step final more = some later → final.get task = some value →
    later.get task = some value

/-- Whatever the workers do, `get_result` returns what the task's function returned. -/
theorem results_delivered {Value : Type} (events : List (Event Value)) (final : Program Value)
    (ran : run Program.step .start events = some final) : Delivered events final := by
  have inv := Program.inv_run ran
  refine ⟨fun worker task running => inv.unset running,fun worker task other running => inv.found running,fun task value read => ?_,?_⟩
  · exact (Program.results_run ran (Program.get_some read).2).resolve_left (by simp [Program.start])
  · intro more later task value went read
    obtain ⟨completed,stored⟩ := Program.get_some read
    have still : later.Inv ∧ (later.state.tasks task).status = .completed := by
      refine invariant_of_run (fun program : Program Value => program.Inv ∧ (program.state.tasks task).status = .completed)
        ?_ ⟨inv,completed⟩ went
      intro before event after holds stepped
      exact ⟨holds.1.step stepped,(Program.step_moves stepped).stays_completed holds.1.invariant holds.2⟩
    rw [Program.get,if_pos still.2]
    exact Program.results_kept went stored

def futureEvents : List (Event Nat) :=
  (([.spawn 0,.spawn 0,.take 0 0,.advance 0 0,.advance 0 0,.wait 0 [.task 1],.advance 0 0,.advance 0 0,.advance 0 0,
      .advance 0 0,.advance 0 0,.advance 0 0,.take 1 0,.advance 1 0,.advance 1 0] : List Action).map .call) ++
    .complete 1 7 :: (([.advance 1 0,.advance 1 0,.advance 1 0,.advance 1 3,.take 0 3,.advance 0 0,.advance 0 0] : List Action).map .call)

theorem results_delivered_seven : ∃ final, run Program.step .start futureEvents = some final ∧
    final.state.pc 0 = .running 0 ∧ final.get 1 = some 7 ∧ Delivered futureEvents final := by
  have evaluated : (run Program.step .start futureEvents).any
      (fun final => decide (final.state.pc 0 = .running 0 ∧ final.get 1 = some 7)) = true := by decide
  obtain ⟨final,ran,holds⟩ := (Option.any_eq_true _ _).mp evaluated
  obtain ⟨running,read⟩ := of_decide_eq_true holds
  exact ⟨final,ran,running,read,results_delivered futureEvents final ran⟩

end Pgasus.Tasking
