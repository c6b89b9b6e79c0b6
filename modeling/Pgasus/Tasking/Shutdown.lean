import Pgasus.Tasking.Soundness

/-! Stopping worker threads while tasks run. A worker tests `_done` at the head of its
loop, which it reaches with nothing or with a task that was just dropped; its queues
are taken away and emptied into the global ones before `_done` is set. -/
namespace Pgasus.Shutdown
open Runs
open Tasking (Task Worker Queue TriggerableRef)

/-- The queues of a thread in the collections of its node, and the global queue of a
queue's collection. -/
structure Layout where
  threadQueues : Worker → List Queue
  globalTasks : Queue → Queue
  distinct : ∀ worker, (threadQueues worker).Nodup
  own : ∀ queue first second, queue ∈ threadQueues first → queue ∈ threadQueues second → first = second
  notGlobal : ∀ queue worker, globalTasks queue ∉ threadQueues worker

/-- Where `create_thread` and `stop_wait_thread` are with a worker: the queues whose
pointers `remove_thread` still has to clear, and the one that it empties. -/
inductive Stage
  | absent
  | working
  | removing (queues : List Queue)
  | draining (queue : Queue) (queues : List Queue)
  | shutdown
  | returned
deriving DecidableEq

def Stage.done : Stage → Bool
  | .shutdown => true
  | .returned => true
  | _ => false

/-- `passed` tells that the loop test was passed and nothing was taken or given away
since, `ended` that the thread has gone back to its native context. A queue is
`retired` when its pointer was cleared, and `emptied` when nothing was found in it
then. The queues that a `put` in flight has read a pointer to are `loaded`. -/
structure State where
  tasking : Tasking.State
  stages : Worker → Stage
  passed : Worker → Bool
  ended : Worker → Bool
  retired : Queue → Bool
  emptied : Queue → Bool
  loaded : List Queue

def State.start : State :=
  ⟨.start,fun _ => .absent,fun _ => false,fun _ => false,fun _ => false,fun _ => false,[]⟩

inductive Action
  | create (worker : Worker)
  | load (queue : Queue)
  | test (worker : Worker)
  | work (action : Tasking.Action)
  | stop (worker : Worker)
  | advance (worker : Worker)
deriving DecidableEq

def actor : Tasking.Action → Option Worker
  | .spawn _ => none
  | .take worker _ => some worker
  | .wait worker _ => some worker
  | .release worker _ => some worker
  | .finish worker => some worker
  | .advance worker _ => some worker

def enters (tasking : Tasking.State) : Tasking.Action → Option Worker
  | .take worker _ => some worker
  | .advance worker _ =>
    match tasking.pc worker with
    | .dropped _ _ => some worker
    | _ => none
  | _ => none

def puts (tasking : Tasking.State) : Tasking.Action → Option Queue
  | .spawn queue => some queue
  | .advance worker queue =>
    match tasking.pc worker with
    | .dropped _ [] => some queue
    | .notifying _ _ _ _ => some queue
    | _ => none
  | _ => none

namespace State
variable (state : State)

def acts (worker : Worker) : Bool := state.stages worker ≠ .absent ∧ state.ended worker = false

def setStage (worker : Worker) (stage : Stage) : State :=
  {state with stages := Function.update state.stages worker stage}

def testDone (worker : Worker) : State :=
  if (state.stages worker).done then {state with ended := Function.update state.ended worker true}
  else {state with passed := Function.update state.passed worker true}

def work (action : Tasking.Action) (tasking : Tasking.State) : State :=
  {state with
    tasking := tasking
    passed := match enters state.tasking action with
      | some worker => Function.update state.passed worker false
      | none => state.passed
    loaded := match puts state.tasking action with
      | some queue => state.loaded.erase queue
      | none => state.loaded}

end State

def moveTask (tasking : Tasking.State) (source destination : Queue) (task : Task) (rest : List Task) : Tasking.State :=
  Tasking.State.putTask {tasking with queues := Function.update tasking.queues source rest} task destination

variable (layout : Layout)

def step (state : State) : Action → Option State
  | .create worker => if state.stages worker = .absent then some (state.setStage worker .working) else none
  -- TaskCollection::put reads the pointer
  | .load queue => if state.retired queue then none else some {state with loaded := queue::state.loaded}
  | .test worker =>
    if state.acts worker then
      match state.tasking.pc worker with
      | .idle => some (state.testDone worker)
      | .dropped _ _ => if state.passed worker then none else some (state.testDone worker)
      | _ => none
    else none
  | .work action =>
    if (actor action).all state.acts ∧ (enters state.tasking action).all state.passed ∧
        (puts state.tasking action).all (fun queue => queue ∈ state.loaded) then
      (Tasking.step state.tasking action).map (state.work action)
    else none
  -- stop_wait_thread
  | .stop worker =>
    if state.stages worker = .working then some (state.setStage worker (.removing (layout.threadQueues worker)))
    else none
  | .advance worker =>
    match state.stages worker with
    -- deregister_thread of one collection after another
    | .removing (queue::rest) =>
      some {state.setStage worker (.draining queue rest) with retired := Function.update state.retired queue true}
    | .draining queue rest =>
      match state.tasking.queues queue with
      | task::others =>
        some {state with tasking := moveTask state.tasking queue (layout.globalTasks queue) task others}
      | [] =>
        some {state.setStage worker (.removing rest) with emptied := Function.update state.emptied queue true}
    | .removing [] => some (state.setStage worker .shutdown)
    -- deregister_thread of the thread manager waits for the end of the thread
    | .shutdown => if state.ended worker then some (state.setStage worker .returned) else none
    | _ => none

inductive Effect (state : State) : Action → State → Prop
  | created (worker : Worker) (here : state.stages worker = .absent) :
      Effect state (.create worker) (state.setStage worker .working)
  | loaded (queue : Queue) (there : state.retired queue = false) :
      Effect state (.load queue) {state with loaded := queue::state.loaded}
  | passed (worker : Worker) :
      Effect state (.test worker) {state with passed := Function.update state.passed worker true}
  | ended (worker : Worker) (done : (state.stages worker).done = true)
      (here : state.tasking.pc worker = .idle ∨ ∃ task waits, state.tasking.pc worker = .dropped task waits) :
      Effect state (.test worker) {state with ended := Function.update state.ended worker true}
  | worked (action : Tasking.Action) (tasking : Tasking.State) (acts : ∀ worker, actor action = some worker → state.acts worker = true)
      (stepped : Tasking.step state.tasking action = some tasking) :
      Effect state (.work action) (state.work action tasking)
  | stopped (worker : Worker) (here : state.stages worker = .working) :
      Effect state (.stop worker) (state.setStage worker (.removing (layout.threadQueues worker)))
  | cleared (worker : Worker) (queue : Queue) (rest : List Queue) (here : state.stages worker = .removing (queue::rest)) :
      Effect state (.advance worker)
        {state.setStage worker (.draining queue rest) with retired := Function.update state.retired queue true}
  | moved (worker : Worker) (queue : Queue) (rest : List Queue) (task : Task) (others : List Task)
      (here : state.stages worker = .draining queue rest) (found : state.tasking.queues queue = task::others) :
      Effect state (.advance worker)
        {state with tasking := moveTask state.tasking queue (layout.globalTasks queue) task others}
  | emptied (worker : Worker) (queue : Queue) (rest : List Queue) (here : state.stages worker = .draining queue rest)
      (found : state.tasking.queues queue = []) :
      Effect state (.advance worker)
        {state.setStage worker (.removing rest) with emptied := Function.update state.emptied queue true}
  | removed (worker : Worker) (here : state.stages worker = .removing []) :
      Effect state (.advance worker) (state.setStage worker .shutdown)
  | returned (worker : Worker) (here : state.stages worker = .shutdown) :
      Effect state (.advance worker) (state.setStage worker .returned)

variable {layout} {state next : State} {action : Action}

theorem testDone_effect {worker : Worker}
    (here : state.tasking.pc worker = .idle ∨ ∃ task waits, state.tasking.pc worker = .dropped task waits) :
    Effect layout state (.test worker) (state.testDone worker) := by
  unfold State.testDone
  split
  next done => exact .ended worker done here
  next => exact .passed worker

theorem step_effect (stepped : step layout state action = some next) : Effect layout state action next := by
  cases action with
  | create worker =>
    simp only [step] at stepped
    split at stepped
    next here =>
      obtain rfl := Option.some.inj stepped
      exact .created worker here
    next => cases stepped
  | load queue =>
    simp only [step] at stepped
    split at stepped
    next => cases stepped
    next there =>
      obtain rfl := Option.some.inj stepped
      exact .loaded queue (Bool.not_eq_true _ ▸ there)
  | test worker =>
    simp only [step] at stepped
    split at stepped
    next =>
      split at stepped
      next here =>
        obtain rfl := Option.some.inj stepped
        exact testDone_effect (.inl here)
      next task waits here =>
        split at stepped
        next => cases stepped
        next =>
          obtain rfl := Option.some.inj stepped
          exact testDone_effect (.inr ⟨task,waits,here⟩)
      next => cases stepped
    next => cases stepped
  | work action =>
    simp only [step] at stepped
    split at stepped
    next allowed =>
      obtain ⟨tasking,moved,rfl⟩ := Option.map_eq_some_iff.mp stepped
      refine .worked action tasking (fun worker acting => ?_) moved
      have acts := allowed.1
      rwa [acting] at acts
    next => cases stepped
  | stop worker =>
    simp only [step] at stepped
    split at stepped
    next here =>
      obtain rfl := Option.some.inj stepped
      exact .stopped worker here
    next => cases stepped
  | advance worker =>
    simp only [step] at stepped
    split at stepped
    next queue rest here =>
      obtain rfl := Option.some.inj stepped
      exact .cleared worker queue rest here
    next queue rest here =>
      split at stepped
      next task others found =>
        obtain rfl := Option.some.inj stepped
        exact .moved worker queue rest task others here found
      next found =>
        obtain rfl := Option.some.inj stepped
        exact .emptied worker queue rest here found
    next here =>
      obtain rfl := Option.some.inj stepped
      exact .removed worker here
    next here =>
      split at stepped
      next =>
        obtain rfl := Option.some.inj stepped
        exact .returned worker here
      next => cases stepped
    next => cases stepped

section Frame

variable {tasking changed final : Tasking.State} {worker : Worker} {point : Tasking.Pc}

def Frame (tasking final : Tasking.State) (worker : Option Worker) (put : Option Queue) : Prop :=
  (∀ other, worker ≠ some other → final.pc other = tasking.pc other) ∧
    ∀ queue, final.queues queue ≠ [] → tasking.queues queue ≠ [] ∨ put = some queue

theorem frame_enter {put : Option Queue} (entered : changed.enter worker point = some final)
    (threads : changed.threads = tasking.threads)
    (queues : ∀ queue, changed.queues queue ≠ [] → tasking.queues queue ≠ [] ∨ put = some queue) :
    Frame tasking final (some worker) put := by
  obtain ⟨rfl,_⟩ := Tasking.State.enter_some changed entered
  constructor
  · intro other different
    rw [Tasking.goto_pc tasking changed worker point threads,if_neg fun same => different (congrArg some same.symm)]
  · exact queues

theorem frame_put (changed : Tasking.State) (task : Task) (queue : Queue) (queues : changed.queues = tasking.queues)
    (other : Queue) (filled : (changed.putTask task queue).queues other ≠ []) :
    tasking.queues other ≠ [] ∨ some queue = some other := by
  by_cases same : other = queue
  · exact .inr (congrArg some same.symm)
  · left
    simpa [Tasking.State.putTask,same,queues] using filled

theorem advance_frame {queue : Queue} (stepped : Tasking.advance tasking worker queue = some final) :
    Frame tasking final (some worker) (puts tasking (.advance worker queue)) := by
  have same (changed : Tasking.State) (queues : changed.queues = tasking.queues) (other : Queue)
      (filled : changed.queues other ≠ []) : tasking.queues other ≠ [] ∨
        puts tasking (.advance worker queue) = some other := .inl (queues ▸ filled)
  unfold Tasking.advance at stepped
  split at stepped
  next => cases stepped
  next => cases stepped
  next =>
    split at stepped
    next => exact frame_enter stepped rfl (same _ rfl)
    next => cases stepped
  next =>
    split at stepped
    next => exact frame_enter stepped (by simp [Tasking.State.modify]) (same _ (by simp [Tasking.State.modify]))
    next => cases stepped
  next =>
    split at stepped
    next => exact frame_enter stepped (by simp) (same _ (by simp))
    next => cases stepped
  next task here =>
    split at stepped
    next =>
      have put : puts tasking (.advance worker queue) = some queue := by simp only [puts,here]
      rw [put]
      exact frame_enter stepped (by simp [Tasking.State.setState,Tasking.State.modify,Tasking.State.putTask])
        (frame_put _ task queue (by simp [Tasking.State.setState,Tasking.State.modify]))
    next => cases stepped
  next => exact frame_enter stepped rfl (same _ rfl)
  next => exact frame_enter stepped rfl (same _ rfl)
  next =>
    split at stepped
    next => exact frame_enter stepped (by simp) (same _ (by simp))
    next => cases stepped
  next => exact frame_enter stepped rfl (same _ rfl)
  next => exact frame_enter stepped (by simp [Tasking.State.modify]) (same _ (by simp [Tasking.State.modify]))
  next => exact frame_enter stepped rfl (same _ rfl)
  next =>
    exact frame_enter stepped (by simp [Tasking.State.setState,Tasking.State.modify])
      (same _ (by simp [Tasking.State.setState,Tasking.State.modify]))
  next =>
    exact frame_enter stepped (by simp [Tasking.State.setClients,Tasking.State.modify])
      (same _ (by simp [Tasking.State.setClients,Tasking.State.modify]))
  next =>
    split at stepped
    next =>
      exact frame_enter stepped (by simp)
        (same _ (by simp [Tasking.State.removeDependancy,Tasking.State.modify]))
    next => cases stepped
  next ref client rest caller here =>
    split at stepped
    next =>
      have put : puts tasking (.advance worker queue) = some queue := by simp only [puts,here]
      rw [put]
      exact frame_enter stepped (by simp [Tasking.State.modify,Tasking.State.putTask])
        (frame_put _ client queue (by simp [Tasking.State.modify]))
    next => cases stepped
  next => exact frame_enter stepped rfl (same _ rfl)
  next => exact frame_enter stepped rfl (same _ rfl)
  next => exact frame_enter stepped rfl (same _ rfl)

theorem step_frame {action : Tasking.Action} (stepped : Tasking.step tasking action = some final) :
    Frame tasking final (actor action) (puts tasking action) := by
  unfold Tasking.step at stepped
  split at stepped
  next queue =>
    obtain rfl := Option.some.inj stepped
    exact ⟨fun _ _ => rfl,frame_put tasking tasking.spawned queue rfl⟩
  next worker queue =>
    split at stepped
    next task rest here found =>
      apply frame_enter stepped
      · rfl
      · intro other filled
        left
        by_cases same : other = queue
        · simp [same,found]
        · simpa [same] using filled
    next => cases stepped
  next worker waits =>
    split at stepped
    next =>
      split at stepped
      next => exact frame_enter stepped rfl fun _ => .inl
      next => cases stepped
    next => cases stepped
  next worker mutex =>
    split at stepped
    next =>
      split at stepped
      next =>
        split at stepped
        next =>
          obtain rfl := Option.some.inj stepped
          exact ⟨fun _ _ => rfl,fun _ => .inl⟩
        next => exact frame_enter stepped rfl fun _ => .inl
      next => cases stepped
    next => cases stepped
  next worker =>
    split at stepped
    next => exact frame_enter stepped rfl fun _ => .inl
    next => cases stepped
  next worker queue => exact advance_frame stepped

theorem enter_queues (entered : changed.enter worker point = some final) : final.queues = changed.queues := by
  obtain ⟨rfl,_⟩ := Tasking.State.enter_some changed entered
  rfl

theorem putTask_filled (changed : Tasking.State) (task : Task) (queue : Queue) :
    (changed.putTask task queue).queues queue ≠ [] := by simp [Tasking.State.putTask]

theorem puts_filled {action : Tasking.Action} {queue : Queue} (stepped : Tasking.step tasking action = some final)
    (put : puts tasking action = some queue) : final.queues queue ≠ [] := by
  unfold puts at put
  split at put
  next =>
    obtain rfl := Option.some.inj put
    obtain rfl := Option.some.inj stepped
    exact putTask_filled tasking tasking.spawned _
  next worker destination =>
    simp only [Tasking.step,Tasking.advance] at stepped
    split at put
    next task here =>
      obtain rfl := Option.some.inj put
      rw [here] at stepped
      simp only at stepped
      split at stepped
      next =>
        rw [enter_queues stepped]
        exact putTask_filled _ task _
      next => cases stepped
    next ref client rest caller here =>
      obtain rfl := Option.some.inj put
      rw [here] at stepped
      simp only at stepped
      split at stepped
      next =>
        rw [enter_queues stepped]
        exact putTask_filled _ client _
      next => cases stepped
    next => cases put
  next => cases put

end Frame

section Moving

open Tasking (Place Located Invariant)

variable {tasking : Tasking.State} {place : Task → Place} {source destination : Queue} {task : Task} {rest : List Task}

theorem moveTask_queues (different : destination ≠ source) (queue : Queue) :
    (moveTask tasking source destination task rest).queues queue =
      if queue = destination then tasking.queues destination ++ [task]
      else if queue = source then rest else tasking.queues queue := by
  simp only [moveTask,Tasking.State.putTask,Function.update_apply,if_neg different]

theorem located_moveTask (located : Located tasking place) (found : tasking.queues source = task::rest)
    (different : destination ≠ source) :
    Located (moveTask tasking source destination task rest) (Function.update place task (.queued destination)) := by
  have queued := (located.queued task source).mp (by simp [found])
  have nodup := located.nodup source
  rw [found] at nodup
  have missing : task ∉ tasking.queues destination := by
    intro member
    have there := (located.queued task destination).mp member
    rw [queued] at there
    exact different (Tasking.Place.queued.inj there).symm
  apply located.relocate 0 task (.queued destination)
  · exact fun _ _ => rfl
  · intro other _
    simp [queued]
  · intro other
    change tasking.spawned ≤ other ↔ _
    split
    next same => simp [same,located.spawned,queued]
    next => rfl
  · intro other queue
    rw [moveTask_queues different]
    by_cases atDestination : queue = destination
    · subst atDestination
      by_cases same : other = task <;> simp [same]
    · by_cases atSource : queue = source
      · subst atSource
        by_cases same : other = task
        · simp [same,(List.nodup_cons.mp nodup).1,different,atDestination]
        · simp [same,found,atDestination]
      · by_cases same : other = task
        · subst same
          simp [atDestination,atSource,located.queued,queued,Ne.symm atSource,Ne.symm atDestination]
        · simp [atDestination,atSource,same]
  · intro queue
    rw [moveTask_queues different]
    split
    next =>
      rw [List.nodup_append]
      refine ⟨located.nodup destination,by simp,?_⟩
      rintro other member single last rfl
      exact missing (List.mem_singleton.mp last ▸ member)
    next =>
      split
      next => exact (List.nodup_cons.mp nodup).2
      next => exact located.nodup queue
  · intro other
    change (tasking.pc 0).holds = some other ↔ _
    split
    next same => simp [same,located.held,queued]
    next => rfl
  · exact fun _ _ => rfl
  · have fits := located.fits task
    rwa [queued] at fits
  · exact located.runs 0
  · exact fun _ => rfl
  · exact located.starts 0

theorem invariant_moveTask (invariant : Invariant tasking) (found : tasking.queues source = task::rest)
    (different : destination ≠ source) : Invariant (moveTask tasking source destination task rest) := by
  obtain ⟨place,located⟩ := invariant.located
  have wired := invariant.wired
  have tracked := invariant.tracked
  exact ⟨invariant.locked,⟨_,located_moveTask located found different⟩,
    ⟨wired.linked,wired.nodup,wired.walk,wired.distinct,wired.fresh⟩,
    fun task => ⟨(tracked task).expected,(tracked task).awaited,(tracked task).notified⟩,invariant.recorded,
    ⟨invariant.signals.completing,fun ref => by cases ref <;> exact invariant.signals.unsignaled _⟩,invariant.passed⟩

end Moving

def Stage.left (layout : Layout) (worker : Worker) : Stage → List Queue
  | .absent => layout.threadQueues worker
  | .working => layout.threadQueues worker
  | .removing queues => queues
  | .draining _ queues => queues
  | .shutdown => []
  | .returned => []

structure Inv (layout : Layout) (state : State) : Prop where
  tasking : Tasking.Invariant state.tasking
  distinct : ∀ worker, ((state.stages worker).left layout worker).Nodup
  left : ∀ worker queue, queue ∈ (state.stages worker).left layout worker →
    queue ∈ layout.threadQueues worker ∧ state.retired queue = false
  drains : ∀ worker queue rest, state.stages worker = .draining queue rest → queue ∈ layout.threadQueues worker ∧
    queue ∉ rest ∧ state.retired queue = true ∧ state.emptied queue = false
  gone : ∀ queue, state.emptied queue = true → state.retired queue = true
  retired : ∀ queue, state.retired queue = true → (∃ worker, queue ∈ layout.threadQueues worker) ∧
    (state.emptied queue = true ∨ ∃ worker rest, state.stages worker = .draining queue rest)

theorem inv_start : Inv layout .start := by
  constructor
  · exact Tasking.invariant_start
  · exact layout.distinct
  · exact fun _ _ member => ⟨member,rfl⟩
  · exact fun _ _ _ contrary => by cases contrary
  · exact fun _ contrary => by cases contrary
  · exact fun _ contrary => by cases contrary

variable {worker : Worker}

theorem setStage_stages (worker other : Worker) (stage : Stage) :
    (state.setStage worker stage).stages other = if other = worker then stage else state.stages other :=
  Function.update_apply _ _ _ _

theorem Inv.setStage (inv : Inv layout state) {stage : Stage}
    (same : stage.left layout worker = (state.stages worker).left layout worker)
    (before : ∀ queue rest, state.stages worker ≠ .draining queue rest)
    (after : ∀ queue rest, stage ≠ .draining queue rest) : Inv layout (state.setStage worker stage) := by
  have left (other : Worker) : ((state.setStage worker stage).stages other).left layout other =
      (state.stages other).left layout other := by
    rw [setStage_stages]
    split
    next equal => rw [equal,same]
    next => rfl
  constructor
  · exact inv.tasking
  · intro other
    rw [left]
    exact inv.distinct other
  · intro other queue
    rw [left]
    exact inv.left other queue
  · intro other queue rest here
    rw [setStage_stages] at here
    split at here
    next => exact absurd here (after queue rest)
    next => exact inv.drains other queue rest here
  · exact inv.gone
  · intro queue retired
    obtain ⟨owned,emptied | ⟨other,rest,here⟩⟩ := inv.retired queue retired
    · exact ⟨owned,.inl emptied⟩
    · refine ⟨owned,.inr ⟨other,rest,?_⟩⟩
      have apart : other ≠ worker := by
        rintro rfl
        exact before queue rest here
      rw [setStage_stages,if_neg apart]
      exact here

theorem Inv.cleared (inv : Inv layout state) {queue : Queue} {rest : List Queue}
    (here : state.stages worker = .removing (queue::rest)) : Inv layout
      {state.setStage worker (.draining queue rest) with retired := Function.update state.retired queue true} := by
  have nodup := inv.distinct worker
  have left := inv.left worker
  rw [here] at nodup left
  obtain ⟨missing,nodup⟩ := List.nodup_cons.mp nodup
  obtain ⟨owned,there⟩ := left queue List.mem_cons_self
  have unemptied : state.emptied queue = false := by
    by_contra emptied
    rw [inv.gone queue (by simpa using emptied)] at there
    cases there
  have kept (other : Queue) (different : other ≠ queue) : Function.update state.retired queue true other =
      state.retired other := Function.update_of_ne different _ _
  constructor
  · exact inv.tasking
  · intro other
    change (((state.setStage worker (.draining queue rest)).stages other).left layout other).Nodup
    rw [setStage_stages]
    split
    next => exact nodup
    next => exact inv.distinct other
  · intro other another member
    change another ∈ ((state.setStage worker (.draining queue rest)).stages other).left layout other at member
    rw [setStage_stages] at member
    split at member
    next same =>
      subst same
      have different : another ≠ queue := fun same => missing (same ▸ member)
      obtain ⟨mine,pointed⟩ := left another (List.mem_cons_of_mem _ member)
      exact ⟨mine,(kept another different).trans pointed⟩
    next apart =>
      obtain ⟨theirs,pointed⟩ := inv.left other another member
      have different : another ≠ queue := fun same => apart (layout.own queue other worker (same ▸ theirs) owned)
      exact ⟨theirs,(kept another different).trans pointed⟩
  · intro other another others stage
    change (state.setStage worker (.draining queue rest)).stages other = _ at stage
    rw [setStage_stages] at stage
    split at stage
    next same =>
      subst same
      obtain ⟨rfl,rfl⟩ := Stage.draining.inj stage
      exact ⟨owned,missing,Function.update_self _ _ _,unemptied⟩
    next apart =>
      obtain ⟨theirs,absent,retired,open_⟩ := inv.drains other another others stage
      have different : another ≠ queue := fun same => apart (layout.own queue other worker (same ▸ theirs) owned)
      exact ⟨theirs,absent,(kept another different).trans retired,open_⟩
  · intro another emptied
    by_cases same : another = queue
    · subst same
      exact Function.update_self _ _ _
    · exact (kept another same).trans (inv.gone another emptied)
  · intro another retired
    by_cases same : another = queue
    · subst same
      exact ⟨⟨worker,owned⟩,.inr ⟨worker,rest,Function.update_self _ _ _⟩⟩
    · obtain ⟨owner,emptied | ⟨other,others,stage⟩⟩ := inv.retired another ((kept another same).symm.trans retired)
      · exact ⟨owner,.inl emptied⟩
      · refine ⟨owner,.inr ⟨other,others,?_⟩⟩
        have apart : other ≠ worker := by
          rintro rfl
          rw [here] at stage
          cases stage
        exact (Function.update_of_ne apart _ _).trans stage

theorem Inv.emptied (inv : Inv layout state) {queue : Queue} {rest : List Queue}
    (here : state.stages worker = .draining queue rest) : Inv layout
      {state.setStage worker (.removing rest) with emptied := Function.update state.emptied queue true} := by
  obtain ⟨owned,missing,retired,_⟩ := inv.drains worker queue rest here
  have kept (other : Queue) (different : other ≠ queue) : Function.update state.emptied queue true other =
      state.emptied other := Function.update_of_ne different _ _
  have left (other : Worker) : ((state.setStage worker (.removing rest)).stages other).left layout other =
      (state.stages other).left layout other := by
    rw [setStage_stages]
    split
    next same => rw [same,here]; rfl
    next => rfl
  constructor
  · exact inv.tasking
  · intro other
    rw [left]
    exact inv.distinct other
  · intro other another
    rw [left]
    exact inv.left other another
  · intro other another others stage
    change (state.setStage worker (.removing rest)).stages other = _ at stage
    rw [setStage_stages] at stage
    split at stage
    next => cases stage
    next apart =>
      obtain ⟨theirs,absent,gone,open_⟩ := inv.drains other another others stage
      have different : another ≠ queue := fun same => apart (layout.own queue other worker (same ▸ theirs) owned)
      exact ⟨theirs,absent,gone,(kept another different).trans open_⟩
  · intro another emptied
    by_cases same : another = queue
    · exact same ▸ retired
    · exact inv.gone another ((kept another same).symm.trans emptied)
  · intro another gone
    by_cases same : another = queue
    · subst same
      exact ⟨⟨worker,owned⟩,.inl (Function.update_self _ _ _)⟩
    · obtain ⟨owner,emptied | ⟨other,others,stage⟩⟩ := inv.retired another gone
      · exact ⟨owner,.inl ((kept another same).trans emptied)⟩
      · refine ⟨owner,.inr ⟨other,others,?_⟩⟩
        have apart : other ≠ worker := by
          rintro rfl
          rw [here] at stage
          exact same (Stage.draining.inj stage).1.symm
        exact (Function.update_of_ne apart _ _).trans stage

theorem Effect.inv (inv : Inv layout state) (effect : Effect layout state action next) : Inv layout next := by
  cases effect with
  | created worker here => exact inv.setStage (by rw [here]; rfl) (by simp [here]) (by simp)
  | loaded queue there => exact ⟨inv.tasking,inv.distinct,inv.left,inv.drains,inv.gone,inv.retired⟩
  | passed worker => exact ⟨inv.tasking,inv.distinct,inv.left,inv.drains,inv.gone,inv.retired⟩
  | ended worker done here => exact ⟨inv.tasking,inv.distinct,inv.left,inv.drains,inv.gone,inv.retired⟩
  | worked action tasking acts stepped =>
    have invariant := (Tasking.step_transition stepped).invariant inv.tasking
    exact ⟨invariant,inv.distinct,inv.left,inv.drains,inv.gone,inv.retired⟩
  | stopped worker here => exact inv.setStage (by rw [here]; rfl) (by simp [here]) (by simp)
  | cleared worker queue rest here => exact inv.cleared here
  | moved worker queue rest task others here found =>
    have different : layout.globalTasks queue ≠ queue := by
      intro same
      apply layout.notGlobal queue worker
      rw [same]
      exact (inv.drains worker queue rest here).1
    exact ⟨invariant_moveTask inv.tasking found different,inv.distinct,inv.left,inv.drains,inv.gone,inv.retired⟩
  | emptied worker queue rest here found => exact inv.emptied here
  | removed worker here => exact inv.setStage (by rw [here]; rfl) (by simp [here]) (by simp)
  | returned worker here => exact inv.setStage (by rw [here]; rfl) (by simp [here]) (by simp)

theorem inv_of_run {actions : List Action} {final : State} (ran : run (step layout) .start actions = some final) :
    Inv layout final :=
  invariant_of_run (Inv layout) (fun _ _ _ inv stepped => (step_effect stepped).inv inv) inv_start ran

/-- No worker comes to the loop test with `_done` set and a dropped task, and no task
is put into a queue that was taken away and emptied. -/
def Timely (state : State) : Action → Prop
  | .test worker => (state.stages worker).done = true → ∀ task waits, state.tasking.pc worker ≠ .dropped task waits
  | .work action => ∀ queue, puts state.tasking action = some queue → state.emptied queue = false
  | _ => True

namespace State
variable (state : State)

/-- A queue that is looked into, or that a `remove_thread` in flight is emptying. -/
def Reachable (queue : Queue) : Prop :=
  state.retired queue = false ∨ ∃ worker rest, state.stages worker = .draining queue rest

def Current (task : Task) : Prop :=
  ∃ worker, (state.tasking.pc worker).holds = some task ∧ state.ended worker = false

def Signaled (task : Task) : Prop :=
  ∃ worker, state.ended worker = false ∧
    ((∃ ref, task ∈ (state.tasking.pc worker).walked ref) ∨ (state.tasking.pc worker).notifies = some task)

/-- No task is lost. -/
def Kept : Prop :=
  ∀ task, task < state.tasking.spawned → (state.tasking.tasks task).status ≠ .completed →
    (∃ queue, task ∈ state.tasking.queues queue ∧ state.Reachable queue) ∨ state.Current task ∨
    ((state.tasking.tasks task).status = .waiting ∧ (state.tasking.UnsignaledDependency task ∨ state.Signaled task))

end State

structure Live (state : State) : Prop where
  idle : ∀ worker, state.ended worker = true → state.tasking.pc worker = .idle
  filled : ∀ queue, state.tasking.queues queue ≠ [] → state.emptied queue = false

theorem live_start : Live .start := by
  constructor
  · exact fun _ contrary => by cases contrary
  · exact fun _ _ => rfl

theorem Effect.live (inv : Inv layout state) (live : Live state) (timely : Timely state action)
    (effect : Effect layout state action next) : Live next := by
  cases effect with
  | ended worker done here =>
    refine ⟨fun other ended => ?_,live.filled⟩
    by_cases same : other = worker
    · subst same
      obtain idle | ⟨task,waits,dropped⟩ := here
      · exact idle
      · exact absurd dropped (timely done task waits)
    · exact live.idle other ((Function.update_of_ne same _ _).symm.trans ended)
  | worked action tasking acts stepped =>
    obtain ⟨others,filled⟩ := step_frame stepped
    constructor
    · intro worker ended
      have apart : actor action ≠ some worker := by
        intro same
        have active := acts worker same
        simp only [State.acts,decide_eq_true_eq] at active
        have contrary : state.ended worker = true := ended
        rw [active.2] at contrary
        cases contrary
      exact (others worker apart).trans (live.idle worker ended)
    · intro queue some_
      obtain before | put := filled queue some_
      · exact live.filled queue before
      · exact timely queue put
  | moved worker queue rest task others here found =>
    obtain ⟨owned,_,_,open_⟩ := inv.drains worker queue rest here
    have different : layout.globalTasks queue ≠ queue := by
      intro same
      apply layout.notGlobal queue worker
      rw [same]
      exact owned
    refine ⟨live.idle,fun other some_ => ?_⟩
    change (moveTask state.tasking queue (layout.globalTasks queue) task others).queues other ≠ [] at some_
    rw [moveTask_queues different] at some_
    split at some_
    next isGlobal =>
      -- only queues of threads are ever emptied
      by_contra emptied
      obtain ⟨⟨owner,mine⟩,_⟩ := inv.retired other (inv.gone other (by simpa using emptied))
      exact layout.notGlobal queue owner (isGlobal ▸ mine)
    next =>
      split at some_
      next same => exact same ▸ open_
      next => exact live.filled other some_
  | emptied worker queue rest here found =>
    refine ⟨live.idle,fun other some_ => ?_⟩
    have different : other ≠ queue := by
      rintro rfl
      exact some_ found
    exact (Function.update_of_ne different _ _).trans (live.filled other some_)
  | _ => exact ⟨live.idle,live.filled⟩

theorem Live.kept (live : Live state) (inv : Inv layout state) : state.Kept := by
  have running (worker : Worker) (busy : state.tasking.pc worker ≠ .idle) : state.ended worker = false := by
    by_contra ended
    exact busy (live.idle worker (by simpa using ended))
  intro task born unfinished
  obtain ⟨⟨queue,once,_⟩,_,_⟩ | ⟨⟨worker,holds,_⟩,_,_⟩ | ⟨waiting,dependency | ⟨worker,signals⟩,_,_⟩ :=
    inv.tasking.sound.onePlace task born unfinished
  · left
    have member : task ∈ state.tasking.queues queue := List.count_pos_iff.mp (by omega)
    refine ⟨queue,member,?_⟩
    have open_ := live.filled queue (List.ne_nil_of_mem member)
    by_contra unreachable
    obtain ⟨there,draining⟩ := not_or.mp unreachable
    obtain ⟨_,emptied | stage⟩ := inv.retired queue (by simpa using there)
    · rw [open_] at emptied
      cases emptied
    · exact draining stage
  · right; left
    refine ⟨worker,holds,running worker fun idle => ?_⟩
    rw [idle] at holds
    cases holds
  · exact .inr (.inr ⟨waiting,.inl dependency⟩)
  · refine .inr (.inr ⟨waiting,.inr ⟨worker,running worker fun idle => ?_,signals⟩⟩)
    rw [idle] at signals
    obtain ⟨ref,walked⟩ | notifies := signals
    · cases walked
    · cases notifies

theorem queued_only (invariant : Tasking.Invariant state.tasking) {task : Task} {queue : Queue}
    (member : task ∈ state.tasking.queues queue) (kept : state.Kept) : state.Reachable queue := by
  obtain ⟨place,located⟩ := invariant.located
  have home := (located.queued task queue).mp member
  have fits := located.fits task
  rw [home] at fits
  have born : task < state.tasking.spawned := by
    by_contra late
    have unborn := (located.spawned task).mp (Nat.not_lt.mp late)
    rw [home] at unborn
    cases unborn
  have unfinished : (state.tasking.tasks task).status ≠ .completed := by
    obtain ready | suspended := fits <;> simp [*]
  obtain ⟨other,inside,reachable⟩ | ⟨worker,holds,_⟩ | ⟨waiting,_⟩ := kept task born unfinished
  · have there := (located.queued task other).mp inside
    rw [home] at there
    obtain rfl := Tasking.Place.queued.inj there
    exact reachable
  · have there := (located.held task worker).mp holds
    rw [home] at there
    cases there
  · obtain ready | suspended := fits <;> simp_all

theorem not_kept_of_ended (invariant : Tasking.Invariant state.tasking) {task : Task}
    (runs : (state.tasking.pc worker).runs = some task) (ended : state.ended worker = true) : ¬ state.Kept := by
  intro kept
  obtain ⟨place,located⟩ := invariant.located
  have home := (located.held task worker).mp (Tasking.Pc.holds_of_runs runs)
  have running := located.runs worker task runs
  have born : task < state.tasking.spawned := by
    by_contra late
    have unborn := (located.spawned task).mp (Nat.not_lt.mp late)
    rw [home] at unborn
    cases unborn
  obtain ⟨queue,member,_⟩ | ⟨other,holds,alive⟩ | ⟨waiting,_⟩ := kept task born (by simp [running])
  · have there := (located.queued task queue).mp member
    rw [home] at there
    cases there
  · have there := (located.held task other).mp holds
    rw [home] at there
    obtain rfl := Tasking.Place.held.inj there
    rw [ended] at alive
    cases alive
  · rw [running] at waiting
    cases waiting

theorem timely_of_kept (inv : Inv layout state) (stepped : step layout state action = some next) (kept : next.Kept) :
    Timely state action := by
  have after : Inv layout next := (step_effect stepped).inv inv
  cases action with
  | test worker =>
    intro done task waits here
    have ended : next = {state with ended := Function.update state.ended worker true} := by
      simp only [step,here] at stepped
      split at stepped
      next =>
        split at stepped
        next => cases stepped
        next =>
          rw [State.testDone,if_pos done] at stepped
          exact (Option.some.inj stepped).symm
      next => cases stepped
    subst ended
    have runs : (state.tasking.pc worker).runs = some task := by rw [here]; rfl
    exact not_kept_of_ended after.tasking runs (Function.update_self _ _ _) kept
  | work action =>
    intro queue put
    by_contra emptied
    obtain ⟨tasking,moved,rfl⟩ : ∃ tasking, Tasking.step state.tasking action = some tasking ∧
        state.work action tasking = next := by
      simp only [step] at stepped
      split at stepped
      next => exact Option.map_eq_some_iff.mp stepped
      next => cases stepped
    obtain ⟨task,member⟩ := List.exists_mem_of_ne_nil _ (puts_filled moved put)
    have reachable := queued_only after.tasking member kept
    have gone : state.retired queue = true := inv.gone queue (by simpa using emptied)
    obtain there | ⟨worker,rest,stage⟩ := reachable
    · have contrary : state.retired queue = false := there
      rw [gone] at contrary
      cases contrary
    · exact emptied (inv.drains worker queue rest stage).2.2.2
  | _ => trivial

/-- No task is lost in a run exactly when its steps are timely. -/
theorem kept_iff_timely (layout : Layout) (actions : List Action) (final : State)
    (ran : run (step layout) .start actions = some final) :
    Meets (step layout) Timely .start actions ↔ ∀ first second middle, actions = first ++ second →
      run (step layout) .start first = some middle → middle.Kept := by
  constructor
  · intro timely first second middle split went
    rw [split] at timely
    have both : Inv layout middle ∧ Live middle := by
      apply invariant_of_meets (fun state => Inv layout state ∧ Live state) _ ⟨inv_start,live_start⟩ timely.first went
      intro state action next ⟨inv,live⟩ condition stepped
      exact ⟨(step_effect stepped).inv inv,(step_effect stepped).live inv live condition⟩
    exact both.2.kept both.1
  · intro kept
    exact meets_of_everywhere (fun state action next inv stepped => (step_effect stepped).inv inv)
      (fun state action next inv stepped => timely_of_kept inv stepped) inv_start ran kept

section Samples

def Layout.single : Layout where
  threadQueues worker := [worker + 1]
  globalTasks _ := 0
  distinct _ := List.nodup_singleton _
  own queue first second here there := by
    simp only [List.mem_singleton] at here there
    exact Nat.succ.inj (here.symm.trans there)
  notGlobal _ worker := by simp

def runAndDrop (waits : List TriggerableRef) : List Action :=
  [.create 0,.create 1,.load 0,.work (.spawn 0),.test 0,.work (.take 0 0),.work (.advance 0 0),.work (.advance 0 0),
    .work (.wait 0 waits)]

def stopEarly : List Action :=
  runAndDrop [] ++ [Action.stop 0,Action.advance 0,Action.advance 0,Action.advance 0,Action.test 0,Action.advance 0]

theorem stopEarly_loses : ∃ final, run (step .single) .start stopEarly = some final ∧ final.stages 0 = .returned ∧
    final.stages 1 = .working ∧ ¬ final.Kept := by
  have evaluated : (run (step .single) .start stopEarly).any (fun final => final.stages 0 = .returned ∧
      final.stages 1 = .working ∧ final.tasking.pc 0 = .dropped 0 [] ∧ final.ended 0 = true) = true := by
    decide +kernel
  obtain ⟨final,ran,reached⟩ := (Option.any_eq_true _ _).mp evaluated
  obtain ⟨returned,working,here,ended⟩ := of_decide_eq_true reached
  have runs : (final.tasking.pc 0).runs = some 0 := by rw [here]; rfl
  exact ⟨final,ran,returned,working,not_kept_of_ended (inv_of_run ran).tasking runs ended⟩

def isTimely (state : State) : Action → Bool
  | .test worker =>
    match state.tasking.pc worker with
    | .dropped _ _ => !(state.stages worker).done
    | _ => true
  | .work action => (puts state.tasking action).all (fun queue => !state.emptied queue)
  | _ => true

theorem timely_of_isTimely (state : State) (action : Action) (timely : isTimely state action = true) :
    Timely state action := by
  cases action with
  | test worker =>
    intro done task waits here
    simp [isTimely,here,done] at timely
  | work action =>
    intro queue put
    simpa [isTimely,put] using timely
  | _ => trivial

def stopLate : List Action :=
  runAndDrop [] ++ [Action.load 1,Action.stop 0,Action.test 0,Action.advance 0,Action.work (.advance 0 1),
    Action.work (.advance 0 0),Action.advance 0,Action.advance 0,Action.advance 0,Action.test 0,Action.advance 0,Action.test 1,Action.work (.take 1 0)]

theorem kept_stopLate : ∃ final, run (step .single) .start stopLate = some final ∧ final.stages 0 = .returned ∧
    final.tasking.pc 1 = .taken 0 ∧ final.Kept := by
  have evaluated : (run (step .single) .start stopLate).any (fun final => final.stages 0 = .returned ∧
      final.tasking.pc 1 = .taken 0) = true := by decide +kernel
  obtain ⟨final,ran,reached⟩ := (Option.any_eq_true _ _).mp evaluated
  obtain ⟨returned,taken⟩ := of_decide_eq_true reached
  have checked : checks (step .single) isTimely .start stopLate = true := by decide +kernel
  have timely := meets_of_checks isTimely timely_of_isTimely checked
  exact ⟨final,ran,returned,taken,
    (kept_iff_timely .single stopLate final ran).mp timely stopLate [] final (List.append_nil _).symm ran⟩

end Samples

end Pgasus.Shutdown
