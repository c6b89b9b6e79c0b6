import Pgasus.Tasking.Workers

/-! A task finds its places on the stack of whichever worker runs it, and leaves none
behind. A task is queued, held by one worker, or waiting, and its places are saved
with it or are all that is on the stack of its worker. -/
namespace Pgasus.Workers
open Runs Totals
open Tasking (Task Worker Status)

variable {Place : Type}

def Pc.takes : Pc → Option Task
  | .taken task => some task
  | _ => none

/-- What a step does: `quiet` ones only move a worker on, or set its flags. -/
inductive Effect (state : State Place) : Action Place → State Place → Prop
  | quiet {action : Action Place} {next : State Place} (worker : Worker) (old new : WorkerThread Place)
      (here : state.workers[worker]? = some old) (workers : next.workers = state.workers.set worker new)
      (holds : new.pc.holds = old.pc.holds) (runs : new.pc.runs = old.pc.runs) (takes : new.pc.takes = old.pc.takes)
      (tls : new.tls = old.tls) (stays : old.pc = .ended → new.pc = .ended)
      (ends : new.pc = .ended → old.pc = .ended ∨ old.done = true) (done : old.done = true → new.done = true)
      (destructs : new.destructed = old.destructed ∨ old.pc = .ended ∧ action = .destruct worker)
      (tasks : ∀ task, next.tasks task = state.tasks task ∨
        old.pc.holds = some task ∧ next.tasks task = {state.tasks task with hasStarted := true})
      (queued : next.queued = state.queued) (spawned : next.spawned = state.spawned)
      (dangling : next.dangling = state.dangling) : Effect state action next
  | lost {action : Action Place} (worker : Worker) (old : WorkerThread Place) (task : Task) (waits : Bool)
      (here : state.workers[worker]? = some old) (pc : old.pc = .interrupted task waits) (done : old.done = true) :
      Effect state action (state.setWorker worker {old with pc := .ended})
  | suspended {action : Action Place} (worker : Worker) (old : WorkerThread Place) (task : Task)
      (here : state.workers[worker]? = some old) (pc : old.pc = .pausing task false) :
      Effect state action (((state.modify task (fun data =>
        {data with status := .suspended,placeStack := old.tls.placeStack})).putTask task).setWorker worker
          {old with pc := .getting,tls := ⟨[],none⟩})
  | waited {action : Action Place} (worker : Worker) (old : WorkerThread Place) (task : Task)
      (here : state.workers[worker]? = some old) (pc : old.pc = .synchronizing task) :
      Effect state action ((state.modify task (fun data =>
        {data with status := .waiting,placeStack := old.tls.placeStack})).setWorker worker
          {old with pc := .getting,tls := ⟨[],none⟩})
  | took (worker : Worker) (old : WorkerThread Place) (task : Task) (here : state.workers[worker]? = some old)
      (pc : old.pc = .polling) (member : task ∈ state.queued) :
      Effect state (.take worker task) ({state with queued := state.queued.erase task}.setWorker worker
        {old with pc := .taken task})
  | scheduled {action : Action Place} (worker : Worker) (old : WorkerThread Place) (task : Task)
      (here : state.workers[worker]? = some old) (pc : old.pc = .taken task ∨ old.pc = .kept task) :
      Effect state action ((state.modify task (fun data =>
        {data with status := .running,homeThread := some worker,placeStack := []})).setWorker worker
          {old with pc := .scheduled task,tls := old.tls.pushAll (state.tasks task).placeStack})
  | completed {action : Action Place} (worker : Worker) (old : WorkerThread Place) (task : Task)
      (here : state.workers[worker]? = some old) (pc : old.pc = .finished task) :
      Effect state action ((state.modify task (fun data => {data with status := .completed})).setWorker worker
        {old with pc := .signaling task,tls := ⟨[],none⟩})
  | changed {action : Action Place} (worker : Worker) (old : WorkerThread Place) (task : Task)
      (tls : ThreadLocalStorage Place) (pushed : List Place) (here : state.workers[worker]? = some old)
      (pc : old.pc = .running task) (current : tls.currMsource = tls.placeStack.getLast?)
      (same : old.tls.placeStack = (state.tasks task).pushed → tls.placeStack = pushed) :
      Effect state action ((state.modify task (fun data => {data with pushed := pushed})).setWorker worker
        {old with tls := tls})
  | notified (task : Task) (waiting : (state.tasks task).status = .waiting) :
      Effect state (.notify task) (((state.lookHome task).modify task (fun data =>
        {data with status := .suspended})).putTask task)
  | looked (task : Task) : Effect state (.cpuid task) (state.lookHome task)
  | spawned : Effect state .spawn {state.putTask state.spawned with spawned := state.spawned + 1}
  | created : Effect state .create {state with workers := state.workers ++ [.fresh]}

variable {state next : State Place} {action : Action Place} {worker : Worker} {old new : WorkerThread Place}

theorem Effect.moved (here : state.workers[worker]? = some old) (pc : Pc) (holds : pc.holds = old.pc.holds)
    (runs : pc.runs = old.pc.runs) (takes : pc.takes = old.pc.takes) (stays : old.pc = .ended → pc = .ended)
    (ends : pc = .ended → old.done = true) : Effect state action (state.setWorker worker {old with pc := pc}) :=
  .quiet worker old {old with pc := pc} here rfl holds runs takes rfl stays (fun ended => .inr (ends ended)) id
    (.inl rfl) (fun _ => .inl rfl) rfl rfl rfl

theorem advance_effect {answer : Bool} (here : state.workers[worker]? = some old)
    (running : ∀ task, old.pc.runs = some task → (state.tasks task).status = .running)
    (stepped : advance state worker old answer = some next) : Effect state (.advance worker answer) next := by
  unfold advance at stepped
  split at stepped
  next pc =>
    obtain rfl := Option.some.inj stepped
    split
    next done => exact .moved here _ (by rw [pc]; rfl) (by rw [pc]; rfl) (by rw [pc]; rfl) (by simp [pc]) (fun _ => done)
    next => exact .moved here _ (by rw [pc]; rfl) (by rw [pc]; rfl) (by rw [pc]; rfl) (by simp [pc]) (by simp)
  next task waits pc =>
    obtain rfl := Option.some.inj stepped
    split
    next done => exact .lost worker old task waits here pc done
    next => exact .moved here _ (by rw [pc]; rfl) (by rw [pc]; rfl) (by rw [pc]; rfl) (by simp [pc]) (by simp)
  next task pc =>
    split at stepped
    next =>
      obtain rfl := Option.some.inj stepped
      exact .suspended worker old task here pc
    next => cases stepped
  next task pc =>
    split at stepped
    next =>
      obtain rfl := Option.some.inj stepped
      exact .moved here _ (by rw [pc]; rfl) (by rw [pc]; rfl) (by rw [pc]; rfl) (by simp [pc]) (by simp)
    next => cases stepped
  next task pc =>
    split at stepped
    next =>
      split at stepped
      next =>
        obtain rfl := Option.some.inj stepped
        exact .waited worker old task here pc
      next => cases stepped
    next =>
      have awake : (state.tasks task).status ≠ .waiting := by simp [running task (by rw [pc]; rfl)]
      obtain rfl := Option.some.inj stepped
      rw [if_neg awake]
      exact .moved here _ (by rw [pc]; rfl) (by rw [pc]; rfl) (by rw [pc]; rfl) (by simp [pc]) (by simp)
  next pc =>
    obtain rfl := Option.some.inj stepped
    split
    next done => exact .moved here _ (by rw [pc]; rfl) (by rw [pc]; rfl) (by rw [pc]; rfl) (by simp [pc]) (fun _ => done)
    next => exact .moved here _ (by rw [pc]; rfl) (by rw [pc]; rfl) (by rw [pc]; rfl) (by simp [pc]) (by simp)
  next pc =>
    obtain rfl := Option.some.inj stepped
    exact .moved here _ (by rw [pc]; rfl) (by rw [pc]; rfl) (by rw [pc]; rfl) (by simp [pc]) (by simp)
  next task pc =>
    split at stepped
    next =>
      obtain rfl := Option.some.inj stepped
      exact .scheduled worker old task here (.inl pc)
    next => cases stepped
  next task pc =>
    split at stepped
    next =>
      obtain rfl := Option.some.inj stepped
      exact .scheduled worker old task here (.inr pc)
    next => cases stepped
  next task pc =>
    split at stepped
    next =>
      obtain rfl := Option.some.inj stepped
      apply Effect.quiet worker old {old with pc := .running task} here rfl
      · rw [pc]; rfl
      · rw [pc]; rfl
      · rw [pc]; rfl
      · rfl
      · simp [pc]
      · exact fun contrary => by cases contrary
      · exact id
      · exact .inl rfl
      · intro other
        by_cases same : other = task
        · subst same
          exact .inr ⟨by rw [pc]; rfl,Function.update_self _ _ _⟩
        · exact .inl (Function.update_of_ne same _ _)
      · rfl
      · rfl
      · rfl
    next => cases stepped
  next pc => cases stepped
  next task pc =>
    split at stepped
    next =>
      obtain rfl := Option.some.inj stepped
      exact .completed worker old task here pc
    next => cases stepped
  next task pc =>
    obtain rfl := Option.some.inj stepped
    exact .moved here _ (by rw [pc]; rfl) (by rw [pc]; rfl) (by rw [pc]; rfl) (by simp [pc]) (by simp)
  next => cases stepped

theorem step_effect (running : ∀ thread ∈ state.workers, ∀ task, thread.pc.runs = some task →
      (state.tasks task).status = .running) (stepped : step state action = some next) :
    Effect state action next := by
  cases action with
  | spawn =>
    obtain rfl := Option.some.inj stepped
    exact .spawned
  | push worker place =>
    simp only [step] at stepped
    split at stepped
    next task tls done destructed here =>
      obtain rfl := Option.some.inj stepped
      apply Effect.changed worker _ task (tls.push place) _ here rfl
      · simp [ThreadLocalStorage.push]
      · intro same
        simp only [ThreadLocalStorage.push] at same ⊢
        rw [same]
    next => cases stepped
  | pop worker =>
    simp only [step] at stepped
    split at stepped
    next task tls done destructed here =>
      split at stepped
      next => cases stepped
      next =>
        obtain rfl := Option.some.inj stepped
        apply Effect.changed worker _ task tls.pop _ here rfl
        · rfl
        · intro same
          simp only [ThreadLocalStorage.pop] at same ⊢
          rw [same]
    next => cases stepped
  | drop worker waits =>
    simp only [step] at stepped
    split at stepped
    next task tls done destructed here =>
      obtain rfl := Option.some.inj stepped
      exact .quiet worker _ _ here rfl rfl rfl rfl rfl (fun contrary => by cases contrary)
        (fun contrary => by cases contrary) id (.inl rfl) (fun _ => .inl rfl) rfl rfl rfl
    next => cases stepped
  | finish worker =>
    simp only [step] at stepped
    split at stepped
    next task tls done destructed here =>
      obtain rfl := Option.some.inj stepped
      exact .quiet worker _ _ here rfl rfl rfl rfl rfl (fun contrary => by cases contrary)
        (fun contrary => by cases contrary) id (.inl rfl) (fun _ => .inl rfl) rfl rfl rfl
    next => cases stepped
  | take worker task =>
    simp only [step] at stepped
    split at stepped
    next tls done destructed here =>
      split at stepped
      next member =>
        obtain rfl := Option.some.inj stepped
        exact .took worker _ task here rfl member
      next => cases stepped
    next => cases stepped
  | notify task =>
    simp only [step] at stepped
    split at stepped
    next allowed =>
      obtain rfl := Option.some.inj stepped
      exact .notified task allowed.2
    next => cases stepped
  | cpuid task =>
    obtain rfl := Option.some.inj stepped
    exact .looked task
  | create =>
    obtain rfl := Option.some.inj stepped
    exact .created
  | shutdown worker =>
    obtain ⟨old,here,rfl⟩ := Option.map_eq_some_iff.mp stepped
    exact .quiet worker old {old with done := true} here rfl rfl rfl rfl rfl id .inl (fun _ => rfl) (.inl rfl)
      (fun _ => .inl rfl) rfl rfl rfl
  | destruct worker =>
    simp only [step] at stepped
    split at stepped
    next tls done here =>
      obtain rfl := Option.some.inj stepped
      exact .quiet worker _ _ here rfl rfl rfl rfl rfl (fun _ => rfl) .inl id (.inr ⟨rfl,rfl⟩) (fun _ => .inl rfl) rfl
        rfl rfl
    next => cases stepped
  | advance worker answer =>
    simp only [step] at stepped
    split at stepped
    next thread here => exact advance_effect here (running thread (List.mem_of_getElem? here)) stepped
    next => cases stepped

def holdsTask (task : Task) (thread : WorkerThread Place) : Nat := if thread.pc.holds = some task then 1 else 0

def takesTask (task : Task) (thread : WorkerThread Place) : Nat := if thread.pc.takes = some task then 1 else 0

def waitsTask (state : State Place) (task : Task) : Nat := if (state.tasks task).status = .waiting then 1 else 0

structure Inv (state : State Place) : Prop where
  place : ∀ task, state.queued.count task + total (holdsTask task) state.workers + waitsTask state task ≤
    if task < state.spawned then 1 else 0
  unborn : ∀ task, state.spawned ≤ task → state.tasks task = .fresh
  runs : ∀ thread ∈ state.workers, ∀ task, thread.pc.runs = some task → (state.tasks task).status = .running ∧
    thread.tls.placeStack = (state.tasks task).pushed ∧ (state.tasks task).placeStack = []
  rests : ∀ thread ∈ state.workers, thread.pc.runs = none → thread.pc ≠ .ended → thread.tls.placeStack = []
  saved : ∀ task, 0 < state.queued.count task + total (takesTask task) state.workers + waitsTask state task →
    (state.tasks task).placeStack = (state.tasks task).pushed
  allocates : ∀ thread ∈ state.workers, thread.tls.currMsource = thread.tls.placeStack.getLast?
  ends : ∀ thread ∈ state.workers, thread.pc = .ended → thread.done = true

theorem inv_start (count : Nat) : Inv (State.start count : State Place) := by
  have fresh (thread : WorkerThread Place) (inside : thread ∈ (State.start count).workers) : thread = .fresh :=
    List.eq_of_mem_replicate inside
  constructor
  · intro task
    have none_ : total (holdsTask task) (List.replicate count (.fresh : WorkerThread Place)) = 0 := total_replicate _ _ rfl
    simp [State.start,none_,waitsTask,TaskData.fresh]
  · exact fun _ _ => rfl
  · intro thread inside task runs
    rw [fresh thread inside] at runs
    cases runs
  · intro thread inside _ _
    rw [fresh thread inside]
    rfl
  · exact fun _ _ => rfl
  · intro thread inside
    rw [fresh thread inside]
    rfl
  · intro thread inside ended
    rw [fresh thread inside] at ended
    cases ended

theorem Pc.holds_of_runs {pc : Pc} {task : Task} (runs : pc.runs = some task) : pc.holds = some task := by
  cases pc <;> first | exact runs | cases runs

theorem Pc.holds_of_takes {pc : Pc} {task : Task} (takes : pc.takes = some task) : pc.holds = some task := by
  cases pc <;> first | exact takes | cases takes

theorem Inv.alone (inv : Inv state) {first second : Worker} {one other : WorkerThread Place} {task : Task}
    (here : state.workers[first]? = some one) (there : state.workers[second]? = some other)
    (holds : one.pc.holds = some task) (also : other.pc.holds = some task) : first = second := by
  apply position_unique (holdsTask task) here there
  have place := inv.place task
  simp only [holdsTask,holds,also,if_true]
  split at place <;> omega

theorem Inv.held (inv : Inv state) {task : Task} (here : state.workers[worker]? = some old)
    (holds : old.pc.holds = some task) :
    task < state.spawned ∧ state.queued.count task = 0 ∧ waitsTask state task = 0 ∧
      total (holdsTask task) state.workers = 1 := by
  have place := inv.place task
  have least := weight_le_total (holdsTask task) here
  simp only [holdsTask,holds,if_true] at least
  split at place
  next born => exact ⟨born,by omega,by omega,by omega⟩
  next => omega

def Same (next state : State Place) (task : Task) : Prop :=
  (next.tasks task).status = (state.tasks task).status ∧ (next.tasks task).pushed = (state.tasks task).pushed ∧
    (next.tasks task).placeStack = (state.tasks task).placeStack

theorem Inv.replace (inv : Inv state) (task : Task) (here : state.workers[worker]? = some old)
    (workers : next.workers = state.workers.set worker new) (spawned : next.spawned = state.spawned)
    (born : task < state.spawned) (others : ∀ other, other ≠ task → next.tasks other = state.tasks other)
    (queued : ∀ other, other ≠ task → next.queued.count other = state.queued.count other)
    (holdsOld : old.pc.holds = some task ∨ old.pc.holds = none)
    (holdsNew : new.pc.holds = some task ∨ new.pc.holds = none)
    (apart : ∀ index thread, index ≠ worker → state.workers[index]? = some thread → thread.pc.holds ≠ some task)
    (place : next.queued.count task + holdsTask task new + waitsTask next task ≤ 1)
    (runs : new.pc.runs = some task → (next.tasks task).status = .running ∧
      new.tls.placeStack = (next.tasks task).pushed ∧ (next.tasks task).placeStack = [])
    (rests : new.pc.runs = none → new.pc ≠ .ended → new.tls.placeStack = [])
    (saved : 0 < next.queued.count task + takesTask task new + waitsTask next task →
      (next.tasks task).placeStack = (next.tasks task).pushed)
    (allocates : new.tls.currMsource = new.tls.placeStack.getLast?) (ends : new.pc = .ended → new.done = true) :
    Inv next := by
  have bound := (List.getElem?_eq_some_iff.mp here).1
  have only {other : Task} (thread : WorkerThread Place) (different : other ≠ task)
      (holds : thread.pc.holds = some task ∨ thread.pc.holds = none) :
      holdsTask other thread = 0 ∧ takesTask other thread = 0 := by
    have none_ : thread.pc.holds ≠ some other := by
      obtain holds | holds := holds
      · rw [holds]
        exact fun same => different (Option.some.inj same).symm
      · rw [holds]
        exact fun contrary => by cases contrary
    have takes : thread.pc.takes ≠ some other := fun takes => none_ (Pc.holds_of_takes takes)
    exact ⟨if_neg none_,if_neg takes⟩
  have holdsTotal (other : Task) (different : other ≠ task) :
      total (holdsTask other) next.workers = total (holdsTask other) state.workers := by
    have moved := total_set (holdsTask other) new here
    rw [(only old different holdsOld).1,(only new different holdsNew).1] at moved
    rw [workers]
    exact moved
  have takesTotal (other : Task) (different : other ≠ task) :
      total (takesTask other) next.workers = total (takesTask other) state.workers := by
    have moved := total_set (takesTask other) new here
    rw [(only old different holdsOld).2,(only new different holdsNew).2] at moved
    rw [workers]
    exact moved
  have waits (other : Task) (different : other ≠ task) : waitsTask next other = waitsTask state other := by
    rw [waitsTask,waitsTask,others other different]
  constructor
  · intro other
    rw [spawned]
    by_cases same : other = task
    · subst same
      have alone : total (holdsTask other) next.workers = holdsTask other new := by
        rw [workers]
        exact total_set_alone _ new bound fun index thread different found => if_neg (apart index thread different found)
      rw [alone,if_pos born]
      exact place
    · rw [queued other same,holdsTotal other same,waits other same]
      exact inv.place other
  · intro other late
    rw [spawned] at late
    have different : other ≠ task := fun same => absurd born (Nat.not_lt.mpr (same ▸ late))
    rw [others other different]
    exact inv.unborn other late
  · intro thread inside other runs_
    rw [workers] at inside
    obtain rfl | ⟨index,different,found⟩ := mem_set_cases inside
    · have same : other = task := by
        have holds := Pc.holds_of_runs runs_
        obtain held | held := holdsNew
        · exact Option.some.inj (holds.symm.trans held)
        · rw [held] at holds
          cases holds
      subst same
      exact runs runs_
    · have different_ : other ≠ task := fun same => apart index thread different found (same ▸ Pc.holds_of_runs runs_)
      rw [others other different_]
      exact inv.runs thread (List.mem_of_getElem? found) other runs_
  · intro thread inside
    rw [workers] at inside
    obtain rfl | ⟨index,different,found⟩ := mem_set_cases inside
    · exact rests
    · exact inv.rests thread (List.mem_of_getElem? found)
  · intro other some_
    by_cases same : other = task
    · subst same
      have alone : total (takesTask other) next.workers = takesTask other new := by
        rw [workers]
        exact total_set_alone _ new bound fun index thread different found =>
          if_neg fun takes => apart index thread different found (Pc.holds_of_takes takes)
      rw [alone] at some_
      exact saved some_
    · rw [queued other same,takesTotal other same,waits other same] at some_
      rw [others other same]
      exact inv.saved other some_
  · intro thread inside
    rw [workers] at inside
    obtain rfl | ⟨index,different,found⟩ := mem_set_cases inside
    · exact allocates
    · exact inv.allocates thread (List.mem_of_getElem? found)
  · intro thread inside
    rw [workers] at inside
    obtain rfl | ⟨index,different,found⟩ := mem_set_cases inside
    · exact ends
    · exact inv.ends thread (List.mem_of_getElem? found)

theorem modify_other {task other : Task} (different : other ≠ task) (change : TaskData Place → TaskData Place) :
    (state.modify task change).tasks other = state.tasks other := Function.update_of_ne different _ _

theorem modify_self (task : Task) (change : TaskData Place → TaskData Place) :
    (state.modify task change).tasks task = change (state.tasks task) := Function.update_self _ _ _

theorem Inv.apart (inv : Inv state) {task : Task} (here : state.workers[worker]? = some old)
    (holds : old.pc.holds = some task) (index : Worker) (thread : WorkerThread Place) (different : index ≠ worker)
    (found : state.workers[index]? = some thread) : thread.pc.holds ≠ some task :=
  fun also => different (inv.alone found here also holds)

theorem Inv.quiet (inv : Inv state) (here : state.workers[worker]? = some old)
    (workers : next.workers = state.workers.set worker new) (holds : new.pc.holds = old.pc.holds)
    (runs : new.pc.runs = old.pc.runs) (takes : new.pc.takes = old.pc.takes) (tls : new.tls = old.tls)
    (stays : old.pc = .ended → new.pc = .ended) (ends : new.pc = .ended → old.pc = .ended ∨ old.done = true)
    (done : old.done = true → new.done = true)
    (tasks : ∀ task, next.tasks task = state.tasks task ∨
      old.pc.holds = some task ∧ next.tasks task = {state.tasks task with hasStarted := true})
    (queued : next.queued = state.queued) (spawned : next.spawned = state.spawned) : Inv next := by
  have inside := List.mem_of_getElem? here
  have same (task : Task) : Same next state task := by
    obtain equal | ⟨_,equal⟩ := tasks task <;> rw [Same,equal] <;> exact ⟨rfl,rfl,rfl⟩
  have waits (task : Task) : waitsTask next task = waitsTask state task := by
    rw [waitsTask,waitsTask,(same task).1]
  have holdsTotal (task : Task) : total (holdsTask task) next.workers = total (holdsTask task) state.workers := by
    have moved := total_set (holdsTask task) new here
    rw [show holdsTask task new = holdsTask task old by rw [holdsTask,holdsTask,holds]] at moved
    rw [workers]
    exact Nat.add_right_cancel moved
  have takesTotal (task : Task) : total (takesTask task) next.workers = total (takesTask task) state.workers := by
    have moved := total_set (takesTask task) new here
    rw [show takesTask task new = takesTask task old by rw [takesTask,takesTask,takes]] at moved
    rw [workers]
    exact Nat.add_right_cancel moved
  constructor
  · intro task
    rw [queued,holdsTotal,waits,spawned]
    exact inv.place task
  · intro task late
    rw [spawned] at late
    obtain equal | ⟨held,_⟩ := tasks task
    · rw [equal]
      exact inv.unborn task late
    · exact absurd (inv.held here held).1 (Nat.not_lt.mpr late)
  · intro thread member task runs_
    obtain ⟨status,pushed,places⟩ := same task
    rw [status,pushed,places]
    rw [workers] at member
    obtain rfl | ⟨index,_,found⟩ := mem_set_cases member
    · rw [tls]
      exact inv.runs old inside task (runs ▸ runs_)
    · exact inv.runs thread (List.mem_of_getElem? found) task runs_
  · intro thread member none_ going
    rw [workers] at member
    obtain rfl | ⟨index,_,found⟩ := mem_set_cases member
    · rw [tls]
      exact inv.rests old inside (runs ▸ none_) fun ended => going (stays ended)
    · exact inv.rests thread (List.mem_of_getElem? found) none_ going
  · intro task some_
    rw [queued,takesTotal,waits] at some_
    obtain ⟨_,pushed,places⟩ := same task
    rw [pushed,places]
    exact inv.saved task some_
  · intro thread member
    rw [workers] at member
    obtain rfl | ⟨index,_,found⟩ := mem_set_cases member
    · rw [tls]
      exact inv.allocates old inside
    · exact inv.allocates thread (List.mem_of_getElem? found)
  · intro thread member ended
    rw [workers] at member
    obtain rfl | ⟨index,_,found⟩ := mem_set_cases member
    · obtain already | shut := ends ended
      · exact done (inv.ends old inside already)
      · exact done shut
    · exact inv.ends thread (List.mem_of_getElem? found) ended

theorem Inv.give (inv : Inv state) {task : Task} {status : Status} (here : state.workers[worker]? = some old)
    (runs : old.pc.runs = some task) (workers : next.workers = state.workers.set worker
      {old with pc := .getting,tls := ⟨[],none⟩})
    (tasks : next.tasks = (state.modify task (fun data =>
      {data with status := status,placeStack := old.tls.placeStack})).tasks) (spawned : next.spawned = state.spawned)
    (queued : status = .suspended ∧ next.queued = state.queued ++ [task] ∨ status = .waiting ∧ next.queued = state.queued) :
    Inv next := by
  have holds := Pc.holds_of_runs runs
  obtain ⟨born,unqueued,_,_⟩ := inv.held here holds
  obtain ⟨_,stack,_⟩ := inv.runs old (List.mem_of_getElem? here) task runs
  have own : next.tasks task = {state.tasks task with status := status,placeStack := old.tls.placeStack} := by
    rw [tasks,modify_self]
  apply inv.replace task here workers spawned born
  · intro other different
    rw [tasks,modify_other different]
  · intro other different
    obtain ⟨_,same⟩ | ⟨_,same⟩ := queued <;> simp [same,Ne.symm different]
  · exact .inl holds
  · exact .inr rfl
  · exact inv.apart here holds
  · obtain ⟨rfl,same⟩ | ⟨rfl,same⟩ := queued <;> simp [same,waitsTask,own,holdsTask,Pc.holds,Pc.runs,unqueued]
  · exact fun contrary => by cases contrary
  · exact fun _ _ => rfl
  · intro _
    rw [own]
    exact stack
  · rfl
  · exact fun contrary => by cases contrary

theorem Inv.lost (inv : Inv state) {task : Task} (here : state.workers[worker]? = some old)
    (runs : old.pc.runs = some task) (done : old.done = true) :
    Inv (state.setWorker worker {old with pc := .ended}) := by
  have holds := Pc.holds_of_runs runs
  obtain ⟨born,unqueued,unwaiting,_⟩ := inv.held here holds
  apply inv.replace task here
  · rfl
  · rfl
  · exact born
  · exact fun _ _ => rfl
  · exact fun _ _ => rfl
  · exact .inl holds
  · exact .inr rfl
  · exact inv.apart here holds
  · change state.queued.count task + 0 + waitsTask state task ≤ 1
    omega
  · exact fun contrary => by cases contrary
  · exact fun _ contrary => absurd rfl contrary
  · intro some_
    change 0 < state.queued.count task + 0 + waitsTask state task at some_
    omega
  · exact inv.allocates old (List.mem_of_getElem? here)
  · exact fun _ => done

theorem Inv.took (inv : Inv state) {task : Task} (here : state.workers[worker]? = some old) (pc : old.pc = .polling)
    (member : task ∈ state.queued) :
    Inv ({state with queued := state.queued.erase task}.setWorker worker {old with pc := .taken task}) := by
  have inside := List.mem_of_getElem? here
  have place := inv.place task
  have counted := List.count_pos_iff.mpr member
  have born : task < state.spawned := by
    by_contra late
    rw [if_neg late] at place
    omega
  rw [if_pos born] at place
  have erased : (state.queued.erase task).count task = state.queued.count task - 1 := List.count_erase_self
  have free : total (holdsTask task) state.workers = 0 := by omega
  apply inv.replace task here
  · rfl
  · rfl
  · exact born
  · exact fun _ _ => rfl
  · exact fun other different => List.count_erase_of_ne different
  · exact .inr (by rw [pc]; rfl)
  · exact .inl rfl
  · intro index thread _ found holds
    have light := total_eq_zero.mp free thread (List.mem_of_getElem? found)
    simp [holdsTask,holds] at light
  · change (state.queued.erase task).count task + (if some task = some task then 1 else 0) + waitsTask state task ≤ 1
    rw [if_pos rfl]
    omega
  · exact fun contrary => by cases contrary
  · intro _ _
    exact inv.rests old inside (by rw [pc]; rfl) (by simp [pc])
  · intro _
    exact inv.saved task (by omega)
  · exact inv.allocates old inside
  · exact fun contrary => by cases contrary

theorem Inv.scheduled (inv : Inv state) {task : Task} (here : state.workers[worker]? = some old)
    (pc : old.pc = .taken task ∨ old.pc = .kept task) :
    Inv ((state.modify task (fun data =>
      {data with status := .running,homeThread := some worker,placeStack := []})).setWorker worker
        {old with pc := .scheduled task,tls := old.tls.pushAll (state.tasks task).placeStack}) := by
  have inside := List.mem_of_getElem? here
  have holds : old.pc.holds = some task := by obtain pc | pc := pc <;> rw [pc] <;> rfl
  obtain ⟨born,unqueued,_,_⟩ := inv.held here holds
  have stack : old.tls.placeStack ++ (state.tasks task).placeStack = (state.tasks task).pushed := by
    obtain pc | pc := pc
    · have empty := inv.rests old inside (by rw [pc]; rfl) (by simp [pc])
      have takes : takesTask task old = 1 := if_pos (by rw [pc]; rfl)
      have positive := weight_le_total (takesTask task) here
      rw [empty,List.nil_append]
      exact inv.saved task (by omega)
    · obtain ⟨_,full,none_⟩ := inv.runs old inside task (by rw [pc]; rfl)
      rw [full,none_,List.append_nil]
  apply inv.replace task here
  · rfl
  · rfl
  · exact born
  · exact fun other different => Function.update_of_ne different _ _
  · exact fun _ _ => rfl
  · exact .inl holds
  · exact .inl rfl
  · exact inv.apart here holds
  · simp [State.setWorker,State.modify,holdsTask,Pc.holds,Pc.runs,waitsTask,unqueued]
  · intro _
    simpa [State.setWorker,State.modify,ThreadLocalStorage.pushAll] using stack
  · exact fun contrary => by cases contrary
  · intro some_
    simp [State.setWorker,State.modify,takesTask,Pc.takes,waitsTask,unqueued] at some_
  · rfl
  · exact fun contrary => by cases contrary

theorem Inv.completed (inv : Inv state) {task : Task} (here : state.workers[worker]? = some old)
    (pc : old.pc = .finished task) :
    Inv ((state.modify task (fun data => {data with status := .completed})).setWorker worker
      {old with pc := .signaling task,tls := ⟨[],none⟩}) := by
  have holds : old.pc.holds = some task := by rw [pc]; rfl
  obtain ⟨born,unqueued,_,_⟩ := inv.held here holds
  apply inv.replace task here
  · rfl
  · rfl
  · exact born
  · exact fun other different => Function.update_of_ne different _ _
  · exact fun _ _ => rfl
  · exact .inl holds
  · exact .inr rfl
  · exact inv.apart here holds
  · simp [State.setWorker,State.modify,holdsTask,Pc.holds,Pc.runs,waitsTask,unqueued]
  · exact fun contrary => by cases contrary
  · exact fun _ _ => rfl
  · intro some_
    simp [State.setWorker,State.modify,takesTask,Pc.takes,waitsTask,unqueued] at some_
  · rfl
  · exact fun contrary => by cases contrary

theorem Inv.changed (inv : Inv state) {task : Task} {tls : ThreadLocalStorage Place} {pushed : List Place}
    (here : state.workers[worker]? = some old) (pc : old.pc = .running task)
    (current : tls.currMsource = tls.placeStack.getLast?)
    (same : old.tls.placeStack = (state.tasks task).pushed → tls.placeStack = pushed) :
    Inv ((state.modify task (fun data => {data with pushed := pushed})).setWorker worker {old with tls := tls}) := by
  have inside := List.mem_of_getElem? here
  have runs : old.pc.runs = some task := by rw [pc]; rfl
  have holds := Pc.holds_of_runs runs
  obtain ⟨born,unqueued,unwaiting,_⟩ := inv.held here holds
  obtain ⟨status,stack,none_⟩ := inv.runs old inside task runs
  apply inv.replace task here
  · rfl
  · rfl
  · exact born
  · exact fun other different => Function.update_of_ne different _ _
  · exact fun _ _ => rfl
  · exact .inl holds
  · exact .inl holds
  · exact inv.apart here holds
  · simp [State.setWorker,State.modify,holdsTask,holds,waitsTask,unqueued,status]
  · intro _
    exact ⟨by simpa [State.setWorker,State.modify] using status,by simpa [State.setWorker,State.modify] using same stack,
      by simpa [State.setWorker,State.modify] using none_⟩
  · intro contrary
    rw [runs] at contrary
    cases contrary
  · intro some_
    simp [State.setWorker,State.modify,takesTask,Pc.takes,waitsTask,unqueued,status,pc] at some_
  · exact current
  · intro ended
    rw [pc] at ended
    cases ended

theorem Inv.notified (inv : Inv state) {task : Task} (waiting : (state.tasks task).status = .waiting) :
    Inv (((state.lookHome task).modify task (fun data => {data with status := .suspended})).putTask task) := by
  have place := inv.place task
  have waits : waitsTask state task = 1 := if_pos waiting
  have born : task < state.spawned := by
    by_contra late
    rw [if_neg late] at place
    omega
  have others (other : Task) (different : other ≠ task) :
      (((state.lookHome task).modify task (fun data => {data with status := .suspended})).putTask task).tasks other =
        state.tasks other := Function.update_of_ne different _ _
  constructor
  · intro other
    change (state.queued ++ [task]).count other + total (holdsTask other) state.workers + _ ≤
      if other < state.spawned then 1 else 0
    by_cases same : other = task
    · subst same
      rw [if_pos born] at place ⊢
      simp only [State.putTask,State.modify,State.lookHome,waitsTask,Function.update_self,List.count_append,
        List.count_singleton_self,reduceCtorEq,if_false]
      omega
    · have before := inv.place other
      simpa [State.putTask,State.modify,State.lookHome,waitsTask,same,Ne.symm same] using before
  · intro other late
    have different : other ≠ task := fun same => absurd born (Nat.not_lt.mpr (same ▸ late))
    rw [others other different]
    exact inv.unborn other late
  · intro thread inside other runs
    have different : other ≠ task := by
      rintro rfl
      have running := (inv.runs thread inside other runs).1
      rw [waiting] at running
      cases running
    rw [others other different]
    exact inv.runs thread inside other runs
  · exact inv.rests
  · intro other some_
    by_cases same : other = task
    · subst same
      simpa [State.putTask,State.modify,State.lookHome] using inv.saved other (by omega)
    · rw [others other same]
      apply inv.saved other
      simpa [State.putTask,State.modify,State.lookHome,waitsTask,same,Ne.symm same] using some_
  · exact inv.allocates
  · exact inv.ends

theorem Inv.spawned (inv : Inv state) : Inv {state.putTask state.spawned with spawned := state.spawned + 1} := by
  have fresh := inv.unborn state.spawned (Nat.le_refl _)
  have unplaced := inv.place state.spawned
  simp only [Nat.lt_irrefl,if_false] at unplaced
  constructor
  · intro other
    change (state.queued ++ [state.spawned]).count other + total (holdsTask other) state.workers +
      waitsTask state other ≤ if other < state.spawned + 1 then 1 else 0
    by_cases same : other = state.spawned
    · subst same
      rw [if_pos (Nat.lt_succ_self _),List.count_append,List.count_singleton_self]
      omega
    · have before := inv.place other
      have bound : other < state.spawned + 1 ↔ other < state.spawned :=
        Nat.lt_succ_iff_lt_or_eq.trans (or_iff_left same)
      simpa [State.putTask,waitsTask,Ne.symm same,bound] using before
  · intro other late
    exact inv.unborn other (Nat.le_of_succ_le late)
  · exact inv.runs
  · exact inv.rests
  · intro other some_
    by_cases same : other = state.spawned
    · subst same
      simp only [State.putTask,fresh]
      rfl
    · apply inv.saved other
      change 0 < (state.queued ++ [state.spawned]).count other + total (takesTask other) state.workers +
        waitsTask state other at some_
      simpa [Ne.symm same] using some_
  · exact inv.allocates
  · exact inv.ends

theorem Inv.created (inv : Inv state) : Inv {state with workers := state.workers ++ [.fresh]} := by
  have cases_ {thread : WorkerThread Place} (inside : thread ∈ state.workers ++ [WorkerThread.fresh]) :
      thread ∈ state.workers ∨ thread = .fresh := by simpa using inside
  have holds (task : Task) : holdsTask task (.fresh : WorkerThread Place) = 0 := rfl
  have takes (task : Task) : takesTask task (.fresh : WorkerThread Place) = 0 := rfl
  constructor
  · intro task
    simpa [holds,waitsTask] using inv.place task
  · exact inv.unborn
  · intro thread inside task runs
    obtain inside | rfl := cases_ inside
    · exact inv.runs thread inside task runs
    · cases runs
  · intro thread inside none_ going
    obtain inside | rfl := cases_ inside
    · exact inv.rests thread inside none_ going
    · rfl
  · intro task some_
    apply inv.saved task
    simpa [takes,waitsTask] using some_
  · intro thread inside
    obtain inside | rfl := cases_ inside
    · exact inv.allocates thread inside
    · rfl
  · intro thread inside ended
    obtain inside | rfl := cases_ inside
    · exact inv.ends thread inside ended
    · cases ended

theorem Effect.inv (inv : Inv state) (effect : Effect state action next) : Inv next := by
  cases effect with
  | quiet worker old new here workers holds runs takes tls stays ends done destructs tasks queued spawned dangling =>
    exact inv.quiet here workers holds runs takes tls stays ends done tasks queued spawned
  | lost worker old task waits here pc done => exact inv.lost here (by rw [pc]; rfl) done
  | suspended worker old task here pc => exact inv.give here (by rw [pc]; rfl) rfl rfl rfl (.inl ⟨rfl,rfl⟩)
  | waited worker old task here pc => exact inv.give here (by rw [pc]; rfl) rfl rfl rfl (.inr ⟨rfl,rfl⟩)
  | took worker old task here pc member => exact inv.took here pc member
  | scheduled worker old task here pc => exact inv.scheduled here pc
  | completed worker old task here pc => exact inv.completed here pc
  | changed worker old task tls pushed here pc current same => exact inv.changed here pc current same
  | notified task waiting => exact inv.notified waiting
  | looked task => exact ⟨inv.place,inv.unborn,inv.runs,inv.rests,inv.saved,inv.allocates,inv.ends⟩
  | spawned => exact inv.spawned
  | created => exact inv.created

theorem inv_of_run {count : Nat} {actions : List (Action Place)} {final : State Place}
    (ran : run step (.start count) actions = some final) : Inv final := by
  apply invariant_of_run Inv _ (inv_start count) ran
  intro state action next inv stepped
  exact (step_effect (fun thread inside task runs => (inv.runs thread inside task runs).1) stepped).inv inv

/-- What tasks rely on; an ended worker allocates nothing more. -/
structure Follows (state : State Place) : Prop where
  sees : ∀ thread ∈ state.workers, ∀ task, thread.pc.runs = some task →
    thread.tls.placeStack = (state.tasks task).pushed
  empty : ∀ thread ∈ state.workers, thread.pc.runs = none → thread.pc ≠ .ended → thread.tls.placeStack = []
  ends : ∀ thread ∈ state.workers, thread.pc = .ended → thread.done = true
  allocates : ∀ thread ∈ state.workers, thread.tls.currMsource = thread.tls.placeStack.getLast?
  alone : ∀ (first second : Worker) one other task, state.workers[first]? = some one →
    state.workers[second]? = some other → one.pc.runs = some task → other.pc.runs = some task → first = second

theorem Inv.follows (inv : Inv state) : Follows state := by
  constructor
  · intro thread inside task runs
    exact (inv.runs thread inside task runs).2.1
  · exact inv.rests
  · exact inv.ends
  · exact inv.allocates
  · intro first second one other task here there runs also
    exact inv.alone here there (Pc.holds_of_runs runs) (Pc.holds_of_runs also)

/-- Places follow their task through every interleaving. -/
theorem places_follow (count : Nat) (actions : List (Action Place)) (final : State Place)
    (ran : run step (.start count) actions = some final) : Follows final := (inv_of_run ran).follows

def migration : List (Action Nat) :=
  [.spawn,.advance 0 false,.advance 0 false,.take 0 0,.advance 0 false,.advance 0 false,.push 0 7,.drop 0 true,
    .advance 0 false,.advance 0 false,.advance 0 true,.notify 0,.advance 1 false,.advance 1 false,.take 1 0,
    .advance 1 false,.advance 1 false,.push 1 8]

theorem places_follow_migration : ∃ final, run step (.start 2) migration = some final ∧
    final.workers.map (fun thread => thread.tls.placeStack) = [[],[7,8]] ∧ Follows final := by
  have evaluated : (run step (.start 2) migration).any
      (fun final => final.workers.map (fun thread => thread.tls.placeStack) = [[],[7,8]]) = true := by decide +kernel
  obtain ⟨final,ran,resumed⟩ := (Option.any_eq_true _ _).mp evaluated
  exact ⟨final,ran,of_decide_eq_true resumed,places_follow 2 migration final ran⟩

end Pgasus.Workers
