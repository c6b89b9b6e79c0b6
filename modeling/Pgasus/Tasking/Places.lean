import Pgasus.Tasking.Transitions

/-! Where a task is. A place is given to every task, and the queues, the workers'
program counters and the tasks' states all agree with it; each step moves at
most one task to another place. -/
namespace Pgasus.Tasking

inductive Place
  | unborn
  | queued (queue : Queue)
  | held (worker : Worker)
  | waiting
  | completed
deriving DecidableEq

def Place.Fits (status : Status) : Place → Prop
  | .unborn => status = .ready
  | .queued _ => status = .ready ∨ status = .suspended
  | .held _ => status ≠ .waiting ∧ status ≠ .completed
  | .waiting => status = .waiting
  | .completed => status = .completed

def Caller.holds : Caller → Option Task
  | .done _ => none
  | .running task => some task

def Pc.runs : Pc → Option Task
  | .scheduled task _ => some task
  | .running task => some task
  | .dropped task _ => some task
  | .waiting task _ => some task
  | .registering task _ => some task
  | .synchronized task _ => some task
  | .completing task => some task
  | .signaling _ _ caller => caller.holds
  | .notifying _ _ _ caller => caller.holds
  | _ => none

def Pc.holds : Pc → Option Task
  | .taken task => some task
  | pc => pc.runs

structure Located (state : State) (place : Task → Place) : Prop where
  spawned : ∀ task, state.spawned ≤ task ↔ place task = .unborn
  queued : ∀ task queue, task ∈ state.queues queue ↔ place task = .queued queue
  nodup : ∀ queue, (state.queues queue).Nodup
  held : ∀ task worker, (state.pc worker).holds = some task ↔ place task = .held worker
  fits : ∀ task, (place task).Fits (state.tasks task).status
  runs : ∀ worker task, (state.pc worker).runs = some task → (state.tasks task).status = .running
  starts : ∀ worker task hasStarted, state.pc worker = .scheduled task hasStarted →
    (state.tasks task).hasStarted = hasStarted

theorem Pc.holds_of_runs {pc : Pc} {task : Task} (runs : pc.runs = some task) : pc.holds = some task := by
  cases pc <;> first | exact runs | cases runs

variable {state next changed : State} {place : Task → Place} {worker : Worker} {point : Pc}

theorem goto_pc (state changed : State) (worker : Worker) (point : Pc) (threads : changed.threads = state.threads) (other : Worker) :
    (changed.goto worker point).pc other = if other = worker then point else state.pc other := by
  simp only [State.pc,State.goto,Threads.move_pc,threads]

theorem Located.stay (located : Located state place) (threads : changed.threads = state.threads)
    (spawned : changed.spawned = state.spawned) (queues : changed.queues = state.queues)
    (statuses : ∀ task, (changed.tasks task).status = (state.tasks task).status)
    (holds : point.holds = (state.pc worker).holds)
    (runs : ∀ task, point.runs = some task → (state.tasks task).status = .running)
    (starts : ∀ other task hasStarted, other ≠ worker → state.pc other = .scheduled task hasStarted →
      (changed.tasks task).hasStarted = hasStarted)
    (fresh : ∀ task hasStarted, point ≠ .scheduled task hasStarted) : Located (changed.goto worker point) place := by
  refine ⟨?_,?_,?_,?_,?_,?_,?_⟩
  · exact fun task => spawned ▸ located.spawned task
  · exact fun task queue => queues ▸ located.queued task queue
  · exact fun queue => queues ▸ located.nodup queue
  · intro task other
    rw [goto_pc state changed worker point threads,← located.held]
    split
    next same => rw [same,holds]
    next => rfl
  · exact fun task => by
      have fits := located.fits task
      rwa [← statuses] at fits
  · intro other task
    rw [goto_pc state changed worker point threads]
    show _ → (changed.tasks task).status = _
    rw [statuses]
    split
    next => exact runs task
    next => exact located.runs other task
  · intro other task hasStarted
    rw [goto_pc state changed worker point threads]
    split
    next => exact fun here => absurd here (fresh task hasStarted)
    next different => exact starts other task hasStarted different

theorem Located.relocate (located : Located state place) (worker : Worker) (task : Task) (new : Place)
    (others : ∀ other, other ≠ worker → next.pc other = state.pc other)
    (apart : ∀ other, other ≠ worker → place task ≠ .held other ∧ new ≠ .held other)
    (spawned : ∀ other, next.spawned ≤ other ↔ if other = task then new = .unborn else state.spawned ≤ other)
    (queues : ∀ other queue, other ∈ next.queues queue ↔
      if other = task then new = .queued queue else other ∈ state.queues queue)
    (nodup : ∀ queue, (next.queues queue).Nodup)
    (holds : ∀ other, (next.pc worker).holds = some other ↔
      if other = task then new = .held worker else (state.pc worker).holds = some other)
    (statuses : ∀ other, other ≠ task → (next.tasks other).status = (state.tasks other).status)
    (fits : new.Fits (next.tasks task).status)
    (runs : ∀ other, (next.pc worker).runs = some other → (next.tasks other).status = .running)
    (starts : ∀ other, (next.tasks other).hasStarted = (state.tasks other).hasStarted)
    (fresh : ∀ other hasStarted, next.pc worker = .scheduled other hasStarted →
      (next.tasks other).hasStarted = hasStarted) :
    Located next (Function.update place task new) := by
  refine ⟨?_,?_,nodup,?_,?_,?_,?_⟩
  · intro other
    rw [spawned,Function.update_apply]
    split
    next => rfl
    next => exact located.spawned other
  · intro other queue
    rw [queues,Function.update_apply]
    split
    next => rfl
    next => exact located.queued other queue
  · intro other holder
    rw [Function.update_apply]
    by_cases same : holder = worker
    · rw [same,holds]
      split
      next => rfl
      next => exact located.held other worker
    · obtain ⟨old,now⟩ := apart holder same
      rw [others holder same,located.held]
      split
      next moved => exact ⟨fun held => absurd (moved ▸ held) old,fun held => absurd held now⟩
      next => rfl
  · intro other
    rw [Function.update_apply]
    split
    next same => exact same ▸ fits
    next different => exact statuses other different ▸ located.fits other
  · intro holder other run
    by_cases same : holder = worker
    · exact runs other (same ▸ run)
    · rw [others holder same] at run
      have held := (located.held other holder).mp (Pc.holds_of_runs run)
      have different : other ≠ task := fun moved => (apart holder same).1 (moved ▸ held)
      rw [statuses other different]
      exact located.runs holder other run
  · intro holder other hasStarted here
    by_cases same : holder = worker
    · exact fresh other hasStarted (same ▸ here)
    · rw [starts]
      exact located.starts holder other hasStarted (others holder same ▸ here)

theorem Located.alone (located : Located state place) {task : Task} (runs : (state.pc worker).runs = some task)
    {other : Worker} (different : other ≠ worker) : (state.pc other).holds ≠ some task := by
  intro held
  have here := (located.held task worker).mp (Pc.holds_of_runs runs)
  have there := (located.held task other).mp held
  exact different (Place.held.inj (there.symm.trans here))

theorem Located.putTask (located : Located state place) {task : Task} (queue : Queue)
    (absent : ∀ other, place task ≠ .queued other) (changed : State) (queues : changed.queues = state.queues) :
    (∀ other place, other ∈ (changed.putTask task queue).queues place ↔
      if other = task then Place.queued queue = .queued place else other ∈ state.queues place) ∧
    ∀ place, ((changed.putTask task queue).queues place).Nodup := by
  have missing (other : Queue) : task ∉ state.queues other := fun member =>
    absent other ((located.queued task other).mp member)
  simp only [State.putTask,queues,Function.update_apply]
  constructor
  · intro other q
    by_cases same : other = task
    · subst same
      by_cases here : q = queue
      · simp [here]
      · simp [here,Ne.symm here,missing q]
    · by_cases here : q = queue <;> simp [here,same]
  · intro q
    split
    next =>
      refine List.nodup_append.mpr ⟨located.nodup queue,by simp,?_⟩
      rintro other member single last rfl
      exact missing queue (List.mem_singleton.mp last ▸ member)
    next => exact located.nodup q

theorem Located.spawn (located : Located state place) (queue : Queue) :
    Located {state.putTask state.spawned queue with spawned := state.spawned + 1}
      (Function.update place state.spawned (.queued queue)) := by
  have unborn := (located.spawned state.spawned).mp (Nat.le_refl _)
  obtain ⟨queues,nodup⟩ := located.putTask queue (fun other => by rw [unborn]; simp) state rfl
  have fits := located.fits state.spawned
  rw [unborn] at fits
  refine located.relocate 0 state.spawned (.queued queue) (fun _ _ => rfl) (fun _ _ => by simp [unborn]) ?_ queues nodup
    ?_ (fun _ _ => rfl) (Or.inl fits) (located.runs 0) (fun _ => rfl) (located.starts 0)
  · intro other
    show state.spawned + 1 ≤ other ↔ _
    split
    next same => simp [same]
    next => omega
  · intro other
    show (state.pc 0).holds = some other ↔ _
    split
    next same => simp [same,located.held,unborn]
    next => rfl

theorem Located.take (located : Located state place) {queue : Queue} {task : Task} {rest : List Task}
    (here : state.pc worker = .idle) (found : state.queues queue = task::rest) :
    Located (State.goto {state with queues := Function.update state.queues queue rest} worker (.taken task))
      (Function.update place task (.held worker)) := by
  have queued := (located.queued task queue).mp (by simp [found])
  have fits := located.fits task
  rw [queued] at fits
  have nodup := located.nodup queue
  rw [found] at nodup
  have pc := goto_pc state {state with queues := Function.update state.queues queue rest} worker (.taken task) rfl
  refine located.relocate worker task (.held worker) (fun other different => by rw [pc,if_neg different])
    (fun other different => by simp [queued,Ne.symm different]) ?_ ?_ ?_ ?_ (fun _ _ => rfl) ?_ ?_ (fun _ => rfl) ?_
  · intro other
    show state.spawned ≤ other ↔ _
    split
    next same => simp [same,located.spawned,queued]
    next => rfl
  · intro other q
    simp only [State.goto,Function.update_apply]
    have split := located.queued other q
    by_cases here : q = queue
    · subst here
      by_cases same : other = task
      · simpa [same] using (List.nodup_cons.mp nodup).1
      · simp [same,found]
    · by_cases same : other = task
      · subst same
        simp [here,split,queued,Ne.symm here]
      · simp [here,same]
  · intro q
    simp only [State.goto,Function.update_apply]
    split
    next => exact (List.nodup_cons.mp nodup).2
    next => exact located.nodup q
  · intro other
    rw [pc,if_pos rfl,here]
    simp [Pc.holds,Pc.runs,eq_comm]
  · rcases fits with ready | suspended
    · exact ⟨by simp [State.goto,ready],by simp [State.goto,ready]⟩
    · exact ⟨by simp [State.goto,suspended],by simp [State.goto,suspended]⟩
  · intro other run
    rw [pc,if_pos rfl] at run
    cases run
  · intro other hasStarted here
    rw [pc,if_pos rfl] at here
    cases here

theorem Located.setState (located : Located state place) {task : Task} (new : Place) (status : Status)
    (threads : changed.threads = state.threads) (spawned : changed.spawned = state.spawned)
    (held : (state.pc worker).holds = some task) (born : new ≠ .unborn)
    (apart : ∀ other, other ≠ worker → new ≠ .held other)
    (queues : ∀ other queue, other ∈ changed.queues queue ↔
      if other = task then new = .queued queue else other ∈ state.queues queue)
    (nodup : ∀ queue, (changed.queues queue).Nodup)
    (holds : point.holds = some task ↔ new = .held worker) (only : ∀ other, point.holds = some other → other = task)
    (statuses : ∀ other, (changed.tasks other).status = if other = task then status else (state.tasks other).status)
    (fits : new.Fits status) (runs : ∀ other, point.runs = some other → status = .running)
    (starts : ∀ other, (changed.tasks other).hasStarted = (state.tasks other).hasStarted)
    (fresh : ∀ other hasStarted, point = .scheduled other hasStarted → (state.tasks other).hasStarted = hasStarted) :
    Located (changed.goto worker point) (Function.update place task new) := by
  have home := (located.held task worker).mp held
  have pc := goto_pc state changed worker point threads
  refine located.relocate worker task new (fun other different => by rw [pc,if_neg different])
    (fun other different => ⟨by simp [home,Ne.symm different],apart other different⟩) ?_ queues nodup ?_ ?_ ?_ ?_ starts ?_
  · intro other
    show changed.spawned ≤ other ↔ _
    rw [spawned]
    split
    next same => simp [same,located.spawned,home,born]
    next => rfl
  · intro other
    rw [pc,if_pos rfl]
    split
    next same => rw [same,holds]
    next different =>
      constructor
      · exact fun also => absurd (only other also) different
      · exact fun also => absurd (Option.some.inj (also.symm.trans held)) different
  · intro other different
    exact (statuses other).trans (if_neg different)
  · show new.Fits (changed.tasks task).status
    rw [statuses,if_pos rfl]
    exact fits
  · intro other run
    rw [pc,if_pos rfl] at run
    show (changed.tasks other).status = _
    rw [statuses,only other (Pc.holds_of_runs run),if_pos rfl]
    exact runs other run
  · intro other hasStarted here
    rw [pc,if_pos rfl] at here
    exact (starts other).trans (fresh other hasStarted here)

theorem Located.keepQueues (located : Located state place) {task : Task} (new : Place) (changed : State)
    (held : (state.pc worker).holds = some task) (elsewhere : ∀ queue, new ≠ .queued queue)
    (queues : changed.queues = state.queues) :
    (∀ other queue, other ∈ changed.queues queue ↔
      if other = task then new = .queued queue else other ∈ state.queues queue) ∧
    ∀ queue, (changed.queues queue).Nodup := by
  have home := (located.held task worker).mp held
  rw [queues]
  refine ⟨fun other queue => ?_,located.nodup⟩
  split
  next same => simp [same,located.queued,home,elsewhere]
  next => rfl

theorem Located.notify (located : Located state place) {ref : TriggerableRef} {client : Task} {rest : List Task}
    {caller : Caller} {queue : Queue} (here : state.pc worker = .notifying ref client rest caller)
    (waiting : (state.tasks client).status = .waiting) :
    Located ((((state.check ((state.tasks client).status = .waiting) .notifyWaiting).modify client
      TaskData.wake).putTask client queue).goto worker (.signaling ref rest caller))
        (Function.update place client (.queued queue)) := by
  have home : place client = .waiting := by
    have fits := located.fits client
    cases at_ : place client with
    | waiting => rfl
    | queued queue =>
      rw [at_,waiting] at fits
      rcases fits with impossible | impossible <;> cases impossible
    | held worker =>
      rw [at_] at fits
      exact absurd waiting fits.1
    | _ =>
      rw [at_,waiting] at fits
      cases fits
  have threads : (((state.check ((state.tasks client).status = .waiting) .notifyWaiting).modify client
      TaskData.wake).putTask client queue).threads = state.threads := by simp [State.putTask,State.modify]
  have pc := goto_pc state _ worker (.signaling ref rest caller) threads
  obtain ⟨queues,nodup⟩ := located.putTask queue (fun other => by rw [home]; simp) ((state.check
    ((state.tasks client).status = .waiting) .notifyWaiting).modify client TaskData.wake) (by simp [State.modify])
  have held : (Pc.signaling ref rest caller).holds = (state.pc worker).holds := by rw [here]; rfl
  have statuses (other : Task) : (((((state.check ((state.tasks client).status = .waiting) .notifyWaiting).modify client
      TaskData.wake).putTask client queue).goto worker (.signaling ref rest caller)).tasks other).status =
        if other = client then .suspended else (state.tasks other).status := by
    simp only [State.goto,State.putTask,State.modify_tasks,State.check_tasks]
    split <;> rfl
  refine located.relocate worker client (.queued queue) (fun other different => by rw [pc,if_neg different])
    (fun other _ => by simp [home]) ?_ queues nodup ?_ (fun other different => (statuses other).trans (if_neg different))
    (Or.inr ((statuses client).trans (if_pos rfl))) ?_ ?_ ?_
  · intro other
    simp only [State.goto,State.putTask,State.modify,State.check_spawned]
    split
    next same => simp [same,located.spawned,home]
    next => rfl
  · intro other
    rw [pc,if_pos rfl,held]
    split
    next same => simp [same,located.held,home]
    next => rfl
  · intro other run
    rw [pc,if_pos rfl] at run
    have running := located.runs worker other (by rw [here]; exact run)
    have different : other ≠ client := fun same => by simp [same,waiting] at running
    rw [statuses,if_neg different,running]
  · intro other
    exact (State.modify_keeps _ client (·.hasStarted) TaskData.wake (fun _ => rfl) other).trans (by simp)
  · intro other hasStarted there
    rw [pc,if_pos rfl] at there
    cases there

/-- Every step of a worker moves at most the task it is about. A task is only
notified while it waits: that is where the dependency lists come in. -/
theorem Effect.located (located : Located state place) (effect : Effect state worker changed point)
    (notifies : ∀ ref client rest caller, state.pc worker = .notifying ref client rest caller →
      state.threads.free (.task client) = true → (state.tasks client).status = .waiting) :
    ∃ places, Located (changed.goto worker point) places := by
  have runs := located.runs worker
  have starts := fun other task hasStarted (_ : other ≠ worker) => located.starts other task hasStarted
  cases effect with
  | took queue task rest here found => exact ⟨_,located.take here found⟩
  | scheduled task here =>
    have held : (state.pc worker).holds = some task := by rw [here]; rfl
    obtain ⟨queues,nodup⟩ := located.keepQueues (.held worker) (state.setState task .running) held (by simp) rfl
    refine ⟨_,located.setState _ .running rfl rfl held (by simp) ?_ queues nodup ?_ ?_ ?_ ?_ ?_ ?_ ?_⟩
    · exact fun other different => by simp [Ne.symm different]
    · simp [Pc.holds,Pc.runs]
    · exact fun other also => (Option.some.inj also).symm
    · exact fun other => by rw [State.setState,State.modify_tasks]; split <;> rfl
    · exact ⟨by decide,by decide⟩
    · exact fun _ _ => rfl
    · exact fun other => state.modify_keeps task (·.hasStarted) (TaskData.become .running) (fun _ => rfl) other
    · rintro other hasStarted ⟨⟩
      rfl
  | ran task here =>
    have run : (state.pc worker).runs = some task := by rw [here]; rfl
    refine ⟨place,located.stay (by simp [State.modify]) (by simp [State.modify]) (by simp [State.modify]) ?_ ?_ ?_ ?_ ?_⟩
    · exact fun other => by rw [State.modify_keeps _ _ (·.status) TaskData.run fun _ => rfl,State.check_tasks]
    · rw [here]; rfl
    · rintro other ⟨⟩
      exact runs task run
    · intro other task' hasStarted different there
      have apart : task' ≠ task := fun same => located.alone run different (by rw [there,same]; rfl)
      rw [State.modify_tasks,if_neg apart,State.check_tasks]
      exact located.starts other task' hasStarted there
    · exact fun _ _ => by simp
  | jumped task here =>
    refine ⟨place,located.stay (by simp) (by simp) (by simp) (by simp) ?_ ?_ (by simpa using starts) (by simp)⟩
    · rw [here]; rfl
    · rintro other ⟨⟩
      exact runs task (by rw [here]; rfl)
  | dropped task waits here distinct =>
    refine ⟨place,located.stay rfl rfl rfl (fun _ => rfl) ?_ ?_ starts (by simp)⟩
    · rw [here]; rfl
    · rintro other ⟨⟩
      exact runs task (by rw [here]; rfl)
  | yielded task queue here =>
    have held : (state.pc worker).holds = some task := by rw [here]; rfl
    have home := (located.held task worker).mp held
    obtain ⟨queues,nodup⟩ := located.putTask queue (fun other => by rw [home]; simp) ((state.check
      ((state.tasks task).status = .running) .yieldRunning).setState task .suspended)
      (by simp [State.setState,State.modify])
    refine ⟨_,located.setState _ .suspended ?_ ?_ held (by simp) ?_ queues nodup ?_ ?_ ?_ ?_ ?_ ?_ ?_⟩
    · simp [State.putTask,State.setState,State.modify]
    · simp [State.putTask,State.setState,State.modify]
    · simp
    · simp [Pc.holds,Pc.runs]
    · rintro other ⟨⟩
    · intro other
      simp only [State.putTask,State.setState,State.modify_tasks,State.check_tasks]
      split <;> rfl
    · exact Or.inr rfl
    · rintro other ⟨⟩
    · intro other
      exact (State.modify_keeps _ task (·.hasStarted) (TaskData.become .suspended) (fun _ => rfl) other).trans (by simp)
    · rintro other hasStarted ⟨⟩
  | waiting task waits here =>
    refine ⟨place,located.stay rfl rfl rfl (fun _ => rfl) ?_ ?_ starts (by simp)⟩
    · rw [here]; rfl
    · rintro other ⟨⟩
      exact runs task (by rw [here]; rfl)
  | registering task waits here =>
    refine ⟨place,located.stay rfl rfl rfl ?_ ?_ ?_ ?_ (by simp)⟩
    · exact fun other => state.modify_keeps task (·.status) TaskData.forget (fun _ => rfl) other
    · rw [here]; rfl
    · rintro other ⟨⟩
      exact runs task (by rw [here]; rfl)
    · intro other task' hasStarted different there
      rw [state.modify_keeps task (·.hasStarted) TaskData.forget fun _ => rfl]
      exact located.starts other task' hasStarted there
  | registered task ref rest here free =>
    refine ⟨place,located.stay (by simp) (by simp) (by simp) ?_ ?_ ?_ ?_ (by simp)⟩
    · exact fun other => state.registerWait_keeps task (·.status) (fun _ _ => rfl) ref other
    · rw [here]; rfl
    · rintro other ⟨⟩
      exact runs task (by rw [here]; rfl)
    · intro other task' hasStarted different there
      rw [state.registerWait_keeps task (·.hasStarted) fun _ _ => rfl]
      exact located.starts other task' hasStarted there
  | synchronized task here =>
    refine ⟨place,located.stay rfl rfl rfl (fun _ => rfl) ?_ ?_ starts (by simp)⟩
    · rw [here]; rfl
    · rintro other ⟨⟩
      exact runs task (by rw [here]; rfl)
  | suspended task here =>
    have held : (state.pc worker).holds = some task := by rw [here]; rfl
    obtain ⟨queues,nodup⟩ := located.keepQueues .waiting ((state.check
      ((state.tasks task).status = .running) .waitRunning).modify task TaskData.suspend) held (by simp)
      (by simp [State.modify])
    refine ⟨_,located.setState _ .waiting ?_ ?_ held (by simp) ?_ queues nodup ?_ ?_ ?_ ?_ ?_ ?_ ?_⟩
    · simp [State.modify]
    · simp [State.modify]
    · simp
    · simp [Pc.holds,Pc.runs]
    · rintro other ⟨⟩
    · intro other
      simp only [State.modify_tasks,State.check_tasks]
      split <;> rfl
    · rfl
    · rintro other ⟨⟩
    · intro other
      exact (State.modify_keeps _ task (·.hasStarted) TaskData.suspend (fun _ => rfl) other).trans (by simp)
    · rintro other hasStarted ⟨⟩
  | resumed task here =>
    have running := runs task (by rw [here]; rfl)
    refine ⟨place,located.stay rfl rfl rfl (fun _ => rfl) ?_ ?_ starts ?_⟩
    · rw [here,running]; rfl
    · rw [running]
      rintro other ⟨⟩
    · simp [running]
  | completing task here =>
    refine ⟨place,located.stay rfl rfl rfl (fun _ => rfl) ?_ ?_ starts (by simp)⟩
    · rw [here]; rfl
    · rintro other ⟨⟩
      exact runs task (by rw [here]; rfl)
  | completed task here =>
    have held : (state.pc worker).holds = some task := by rw [here]; rfl
    obtain ⟨queues,nodup⟩ := located.keepQueues .completed ((state.check
      ((state.tasks task).status = .running) .doneRunning).setState task .completed) held (by simp)
      (by simp [State.setState,State.modify])
    refine ⟨_,located.setState _ .completed ?_ ?_ held (by simp) ?_ queues nodup ?_ ?_ ?_ ?_ ?_ ?_ ?_⟩
    · simp [State.setState,State.modify]
    · simp [State.setState,State.modify]
    · simp
    · simp [Pc.holds,Pc.runs]
    · rintro other ⟨⟩
    · intro other
      simp only [State.setState,State.modify_tasks,State.check_tasks]
      split <;> rfl
    · rfl
    · rintro other ⟨⟩
    · intro other
      exact (State.modify_keeps _ task (·.hasStarted) (TaskData.become .completed) (fun _ => rfl) other).trans (by simp)
    · rintro other hasStarted ⟨⟩
  | setSignaled task here =>
    refine ⟨place,located.stay ?_ ?_ ?_ ?_ ?_ ?_ ?_ (by simp)⟩
    · simp [State.setClients,State.modify]
    · simp [State.setClients,State.modify]
    · simp [State.setClients,State.modify]
    · exact fun other => (State.modify_keeps _ task (·.status) TaskData.setSignaled (fun _ => rfl) other).trans (by simp)
    · rw [here]; rfl
    · rintro other ⟨⟩
    · intro other task' hasStarted different there
      refine Eq.trans ?_ (located.starts other task' hasStarted there)
      exact (State.modify_keeps _ task (·.hasStarted) TaskData.setSignaled (fun _ => rfl) task').trans (by simp)
  | triggered task mutex client rest here first =>
    refine ⟨place,located.stay rfl rfl rfl (fun _ => rfl) ?_ ?_ starts (by simp)⟩
    · rw [here]; rfl
    · rintro other ⟨⟩
      exact runs task (by rw [here]; rfl)
  | signaled ref client rest caller here free =>
    have callers : (state.pc worker).runs = caller.holds := by rw [here]; rfl
    refine ⟨place,located.stay (by simp) (by simp [State.removeDependancy,State.modify])
      (by simp [State.removeDependancy,State.modify]) ?_ ?_ ?_ ?_ (by split <;> simp)⟩
    · exact fun other => state.removeDependancy_keeps client (·.status) (fun _ _ => rfl) ref other
    · rw [here]
      split <;> rfl
    · intro other run
      refine runs other (callers.trans (Eq.trans ?_ run))
      split <;> rfl
    · intro other task hasStarted different there
      rw [state.removeDependancy_keeps client (·.hasStarted) fun _ _ => rfl]
      exact located.starts other task hasStarted there
  | notified ref client rest caller queue here free => exact ⟨_,located.notify here (notifies ref client rest caller here free)⟩
  | finished ref task here =>
    refine ⟨place,located.stay rfl rfl rfl (fun _ => rfl) ?_ ?_ starts (by simp)⟩
    · rw [here]; rfl
    · rintro other ⟨⟩
  | returned ref task here =>
    refine ⟨place,located.stay rfl rfl rfl (fun _ => rfl) ?_ ?_ starts (by simp)⟩
    · rw [here]; rfl
    · rintro other ⟨⟩
      exact runs task (by rw [here]; rfl)
  | cleared task here =>
    refine ⟨place,located.stay rfl rfl rfl (fun _ => rfl) ?_ ?_ starts (by simp)⟩
    · rw [here]; rfl
    · rintro other ⟨⟩

end Pgasus.Tasking
