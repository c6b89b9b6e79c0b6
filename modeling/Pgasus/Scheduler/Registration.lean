import Pgasus.Library.Locks
import Pgasus.Library.Runs
import Pgasus.Scheduler.Collections

/-! Starting and stopping worker threads while tasks are put. The worker table, the
list of active ids and the queues of the collections are updated one after another,
under `_workers_lock` and the mutexes of the domain; `put_task` creates collections
under two of these mutexes only. -/
namespace Pgasus.Registration
open Runs Scheduler

abbrev Thread := Nat

inductive Mutex
  | workers
  | priority (level : Nat)
  | activeThreadIds
deriving DecidableEq

def levels : Nat := Priority.maxIndex + 1

/-- Where a thread is in `put_task`. -/
inductive Putting
  | checking
  | missing
  | rechecking
  | collecting (tasks : TaskCollection)
  | registering (tasks : TaskCollection) (rest : List Nat)
  | published
  | created
  | inserting

/-- `create_thread` or `stop_wait_thread`. -/
inductive Op
  | create
  | stop

/-- Where a thread is in its loop over the cores, and in `add_thread` or `remove_thread`
for the core that the loop is at. -/
inductive Stage
  | deciding
  | entered (op : Op)
  | locking (op : Op) (level : Nat)
  | updating (op : Op) (level : Nat)
  | listed (op : Op)
  | unlocking (op : Op) (level : Nat)
  | leaving (op : Op)

/-- The loops of `set_thread_count`, and that of `set_threads`. The loop that counts
down is at the core `rest - 1`. -/
inductive Loop
  | up (count curr core : Nat)
  | down (count curr rest : Nat)
  | each (coreIds : List Int) (core : Nat)

inductive Call
  | setThreadCount (count : Nat)
  | setThreads (coreIds : List Int)

/-- `before` is the worker table as the call found it. -/
inductive Pc
  | idle
  | putting (task : Task) (thid : Int) (place : Putting)
  | working (call : Call) (before : List Bool) (loop : Loop) (stage : Stage)

def Stage.locks : Stage → List Mutex
  | .locking _ level => (List.range level).map .priority
  | .updating _ _ => .activeThreadIds :: (List.range levels).map .priority
  | .listed _ => .activeThreadIds :: (List.range levels).map .priority
  | .unlocking _ level => (List.range' level (levels - level)).map .priority
  | .deciding => []
  | .entered _ => []
  | .leaving _ => []

/-- `_workers_lock` is recursive, `create_thread` and `stop_wait_thread` take it again. -/
def Pc.locks : Pc → List Mutex
  | .idle => []
  | .putting task _ place =>
    match place with
    | .checking => []
    | .missing => []
    | .rechecking => [.priority task.level]
    | .collecting _ => [.priority task.level]
    | .registering _ _ => [.activeThreadIds,.priority task.level]
    | .published => [.activeThreadIds,.priority task.level]
    | .created => [.priority task.level]
    | .inserting => []
  | .working _ _ _ stage => .workers :: stage.locks

structure Finished where
  call : Call
  before : List Bool
  after : List Bool

/-- `workers` tells which entries of `_workers` are not null. -/
structure State where
  threads : Threads Thread Pc Mutex
  workers : List Bool
  domain : SchedulingDomain
  finished : List Finished

inductive Action
  | putTask (thread : Thread) (task : Task) (thid : Int)
  | call (thread : Thread) (call : Call)
  | advance (thread : Thread)

/-- `node.threadCount()`: the environment may ask for fewer threads than CPUs. -/
def threadCount (cores env : Nat) : Nat := if env = 0 then cores else min env cores

/-- The members of a `Scheduler` before the constructor calls `set_thread_count`. The
collections of its domain have a queue entry for every CPU of the node. -/
def State.initial (cores : Nat) : State :=
  ⟨⟨fun _ => .idle,fun _ => none⟩,List.replicate cores false,.create cores,[]⟩

def State.pc (state : State) (thread : Thread) : Pc := state.threads.pc thread

def worker (workers : List Bool) (core : Nat) : Bool := workers.getD core false

namespace Loop

def core : Loop → Nat
  | .up _ _ core => core
  | .down _ _ rest => rest - 1
  | .each _ core => core

def skip : Loop → Loop
  | .up count curr core => .up count curr (core + 1)
  | .down count curr rest => .down count curr (rest - 1)
  | .each coreIds core => .each coreIds (core + 1)

def next : Loop → Loop
  | .up count curr core => .up count (curr + 1) (core + 1)
  | .down count curr rest => .down count (curr - 1) (rest - 1)
  | .each coreIds core => .each coreIds (core + 1)

end Loop

inductive Decision
  | run (op : Op)
  | skip
  | turn (loop : Loop)
  | done

def decision (workers : List Bool) : Loop → Decision
  | .up count curr core =>
    if core < workers.length ∧ curr < count then
      if worker workers core then .skip else .run .create
    else .turn (.down count curr workers.length)
  | .down count curr rest =>
    if 0 < rest ∧ count < curr then
      if worker workers (rest - 1) then .run .stop else .skip
    else .done
  | .each coreIds core =>
    if core < workers.length then
      if coreIds.getD core 0 ≠ 0 then if worker workers core then .skip else .run .create
      else if worker workers core then .run .stop else .skip
    else .done

def Call.start (workers : List Bool) : Call → Loop
  | .setThreadCount count => .up count (workers.count true) 0
  | .setThreads coreIds => .each coreIds 0

/-- The assertion of `set_thread_count`; a vector that is too short is read past its end. -/
def Call.allowed (cores : Nat) : Call → Bool
  | .setThreadCount count => count ≤ cores
  | .setThreads coreIds => cores ≤ coreIds.length

/-- `register_thread` or `deregister_thread` of one collection. -/
def Op.queue (core : Nat) (tasks : TaskCollection) : Op → Option TaskCollection
  | .create => if core < tasks.threadTasks.length then some (tasks.registerThread core) else none
  | .stop => tasks.deregisterThread core

def Op.collection (op : Op) (core level : Nat) (domain : SchedulingDomain) : Option SchedulingDomain :=
  match (domain.priorities level).tasks with
  | none => some domain
  | some tasks =>
    (op.queue core tasks).map fun changed => domain.setPriority level ⟨some changed,(domain.priorities level).count⟩

/-- The change of `_active_thread_ids`, with its assertions. -/
def Op.list (core : Nat) (domain : SchedulingDomain) : Op → Option SchedulingDomain
  | .create => some {domain with activeThreadIds := domain.activeThreadIds ++ [core]}
  | .stop =>
    if core ∈ domain.activeThreadIds ∧ core ∉ domain.activeThreadIds.erase core then
      some {domain with activeThreadIds := domain.activeThreadIds.erase core}
    else none

structure Move where
  pc : Pc
  workers : List Bool
  domain : SchedulingDomain
  finished : List Finished

namespace State
variable (state : State)

def putMove (task : Task) (thid : Int) : Putting → Option Move
  | .checking =>
    let place := if (state.domain.priorities task.level).tasks.isNone then .missing else .inserting
    some ⟨.putting task thid place,state.workers,state.domain,state.finished⟩
  | .missing => some ⟨.putting task thid .rechecking,state.workers,state.domain,state.finished⟩
  | .rechecking =>
    match (state.domain.priorities task.level).tasks with
    | some _ => some ⟨.putting task thid .inserting,state.workers,state.domain,state.finished⟩
    | none => some ⟨.putting task thid (.collecting (.create state.domain.cpuCount)),state.workers,
        state.domain.setPriority task.level ⟨none,0⟩,state.finished⟩
  | .collecting tasks =>
    some ⟨.putting task thid (.registering tasks state.domain.activeThreadIds),state.workers,state.domain,state.finished⟩
  | .registering tasks (idx::rest) =>
    (Op.queue idx tasks .create).map fun changed =>
      ⟨.putting task thid (.registering changed rest),state.workers,state.domain,state.finished⟩
  | .registering tasks [] =>
    some ⟨.putting task thid .published,state.workers,
      state.domain.setPriority task.level ⟨some tasks,(state.domain.priorities task.level).count⟩,state.finished⟩
  | .published => some ⟨.putting task thid .created,state.workers,state.domain,state.finished⟩
  | .created => some ⟨.putting task thid .inserting,state.workers,state.domain,state.finished⟩
  | .inserting => (state.domain.putTask task thid).map fun domain => ⟨.idle,state.workers,domain,state.finished⟩

def workMove (call : Call) (before : List Bool) (loop : Loop) : Stage → Option Move
  | .deciding =>
    match decision state.workers loop with
    | .run op => some ⟨.working call before loop (.entered op),state.workers,state.domain,state.finished⟩
    | .skip => some ⟨.working call before loop.skip .deciding,state.workers,state.domain,state.finished⟩
    | .turn other => some ⟨.working call before other .deciding,state.workers,state.domain,state.finished⟩
    | .done => some ⟨.idle,state.workers,state.domain,⟨call,before,state.workers⟩::state.finished⟩
  | .entered .create =>
    if worker state.workers loop.core = false then
      some ⟨.working call before loop (.locking .create 0),state.workers,state.domain,state.finished⟩
    else none
  | .entered .stop =>
    if worker state.workers loop.core then
      some ⟨.working call before loop (.locking .stop 0),state.workers.set loop.core false,state.domain,state.finished⟩
    else none
  | .locking op level =>
    let stage := if level < levels then .locking op (level + 1) else .updating op 0
    some ⟨.working call before loop stage,state.workers,state.domain,state.finished⟩
  | .updating op level =>
    if level < levels then
      (op.collection loop.core level state.domain).map fun domain =>
        ⟨.working call before loop (.updating op (level + 1)),state.workers,domain,state.finished⟩
    else
      (Op.list loop.core state.domain op).map fun domain =>
        ⟨.working call before loop (.listed op),state.workers,domain,state.finished⟩
  | .listed op => some ⟨.working call before loop (.unlocking op 0),state.workers,state.domain,state.finished⟩
  | .unlocking op level =>
    let stage := if level < levels then .unlocking op (level + 1) else .leaving op
    some ⟨.working call before loop stage,state.workers,state.domain,state.finished⟩
  | .leaving .create =>
    some ⟨.working call before loop.next .deciding,state.workers.set loop.core true,state.domain,state.finished⟩
  | .leaving .stop => some ⟨.working call before loop.next .deciding,state.workers,state.domain,state.finished⟩

def move : Pc → Option Move
  | .idle => none
  | .putting task thid place => state.putMove task thid place
  | .working call before loop stage => state.workMove call before loop stage

def goto (thread : Thread) (move : Move) : Option State :=
  (state.threads.enter Pc.locks thread move.pc).map fun threads => ⟨threads,move.workers,move.domain,move.finished⟩

end State

def step (state : State) : Action → Option State
  | .putTask thread task thid =>
    match state.pc thread with
    | .idle => state.goto thread ⟨.putting task thid .checking,state.workers,state.domain,state.finished⟩
    | _ => none
  | .call thread call =>
    match state.pc thread with
    | .idle =>
      if call.allowed state.workers.length then
        state.goto thread
          ⟨.working call state.workers (call.start state.workers) .deciding,state.workers,state.domain,state.finished⟩
      else none
    | _ => none
  | .advance thread => (state.move (state.pc thread)).bind (state.goto thread)

def Op.creates : Op → Bool
  | .create => true
  | .stop => false

section Collections
variable {tasks changed : TaskCollection} {op : Op} {core level : Nat} {domain other : SchedulingDomain}

theorem drain_threadTasks (queue rounds : Nat) (tasks : TaskCollection) :
    (TaskCollection.drain queue rounds tasks).threadTasks = tasks.threadTasks := by
  induction rounds generalizing tasks with
  | zero => rfl
  | succ rounds ih =>
    unfold TaskCollection.drain
    split
    next task rest taken =>
      obtain ⟨_,_,rfl⟩ := TaskCollection.tryPopFront_some taken
      rw [ih]
      rfl
    next => rfl

theorem queue_some (updated : op.queue core tasks = some changed) :
    changed.threadTasks.length = tasks.threadTasks.length ∧
      ∀ idx, (changed.getThreadQueue idx).isSome = if idx = core then op.creates else (tasks.getThreadQueue idx).isSome := by
  cases op with
  | create =>
    simp only [Op.queue] at updated
    split at updated
    next small =>
      obtain rfl := Option.some.inj updated
      refine ⟨TaskCollection.registerThread_length,fun idx => ?_⟩
      rw [TaskCollection.getThreadQueue_registerThread small]
      by_cases same : core = idx
      · simp [same,Op.creates]
      · simp [same,Ne.symm same]
    next => cases updated
  | stop =>
    simp only [Op.queue,TaskCollection.deregisterThread] at updated
    split at updated
    next => cases updated
    next queue _ =>
      obtain rfl := Option.some.inj updated
      have cleared := drain_threadTasks queue (tasks.queues queue).length (tasks.clearPointer core)
      refine ⟨by rw [cleared]; simp [TaskCollection.clearPointer],fun idx => ?_⟩
      have same : (TaskCollection.drain queue (tasks.queues queue).length (tasks.clearPointer core)).getThreadQueue idx =
          (tasks.clearPointer core).getThreadQueue idx := by
        unfold TaskCollection.getThreadQueue
        rw [cleared]
      rw [same,TaskCollection.getThreadQueue_clearPointer]
      by_cases here : core = idx
      · simp [here,Op.creates]
      · simp [here,Ne.symm here]

theorem queue_isSome (bound : core < tasks.threadTasks.length)
    (present : (tasks.getThreadQueue core).isSome = !op.creates) : (op.queue core tasks).isSome = true := by
  cases op with
  | create =>
    rw [Op.queue,if_pos bound]
    rfl
  | stop =>
    obtain ⟨queue,found⟩ := Option.isSome_iff_exists.mp (present.trans (by rfl))
    simp [Op.queue,TaskCollection.deregisterThread,found]

structure Shadows (other domain : SchedulingDomain) : Prop where
  cpuCount : other.cpuCount = domain.cpuCount
  published : ∀ level, (domain.priorities level).tasks.isSome = true → (other.priorities level).tasks.isSome = true
  queues : ∀ level changed, (other.priorities level).tasks = some changed → ∃ tasks,
    (domain.priorities level).tasks = some tasks ∧ changed.threadTasks = tasks.threadTasks

theorem Shadows.getThreadQueue (shadows : Shadows other domain)
    (found : (other.priorities level).tasks = some changed) : ∃ tasks, (domain.priorities level).tasks = some tasks ∧
      changed.threadTasks.length = tasks.threadTasks.length ∧
      ∀ idx, (changed.getThreadQueue idx).isSome = (tasks.getThreadQueue idx).isSome := by
  obtain ⟨tasks,before,same⟩ := shadows.queues level changed found
  refine ⟨tasks,before,by rw [same],fun idx => ?_⟩
  unfold TaskCollection.getThreadQueue
  rw [same]

theorem priorities_setPriority (idx : Nat) (tasks : PriorityTasks) :
    ((domain.setPriority idx tasks).priorities level) = if level = idx then tasks else domain.priorities level := by
  simp [SchedulingDomain.setPriority,Function.update_apply]

theorem shadows_putTask {task : Task} {thid : Int} (published : (domain.priorities task.level).tasks.isSome = true)
    (put : domain.putTask task thid = some other) :
    Shadows other domain ∧ other.activeThreadIds = domain.activeThreadIds := by
  obtain ⟨tasks,found⟩ := Option.isSome_iff_exists.mp published
  simp only [SchedulingDomain.putTask,SchedulingDomain.createLazy,found] at put
  split at put
  next => cases put
  next changed inserted =>
    obtain rfl := Option.some.inj put
    have same : changed.threadTasks = tasks.threadTasks := by
      unfold TaskCollection.put at inserted
      split at inserted
      next =>
        obtain rfl := Option.some.inj inserted
        rfl
      next => cases inserted
    refine ⟨⟨rfl,fun level present => ?_,fun level seen there => ?_⟩,rfl⟩
    · change ((domain.setPriority _ _).priorities level).tasks.isSome = true
      rw [priorities_setPriority]
      split
      next => rfl
      next => exact present
    · change ((domain.setPriority _ _).priorities level).tasks = some seen at there
      rw [priorities_setPriority] at there
      split at there
      next here =>
        obtain rfl := Option.some.inj there
        exact ⟨tasks,here ▸ found,same⟩
      next => exact ⟨seen,there,rfl⟩

end Collections

section Cores
variable {cores core count curr : Nat} {before workers : List Bool} {call : Call} {loop : Loop}

/-- The lowest-numbered free cores got a worker, and nothing else changed. -/
def Started (before after : List Bool) : Prop :=
  ∃ bound, ∀ core, core < before.length → worker after core = (worker before core || decide (core < bound))

/-- The highest-numbered workers were stopped, and nothing else changed. -/
def Stopped (before after : List Bool) : Prop :=
  ∃ bound, ∀ core, core < before.length → worker after core = (worker before core && decide (core < bound))

/-- What a call that has returned was to do. -/
def Finished.Correct (finished : Finished) : Prop :=
  match finished.call with
  | .setThreadCount count =>
    finished.after.count true = count ∧ (Started finished.before finished.after ∨ Stopped finished.before finished.after)
  | .setThreads coreIds =>
    ∀ core, core < finished.after.length → (worker finished.after core = true ↔ coreIds.getD core 0 ≠ 0)

def Reached (call : Call) (before workers : List Bool) : Loop → Prop
  | .up count curr core => call = .setThreadCount count ∧ count ≤ workers.length ∧ curr = workers.count true ∧
    (∀ idx, idx < workers.length → worker workers idx = (worker before idx || decide (idx < core))) ∧
    (core = 0 ∨ curr ≤ count)
  | .down count curr rest => call = .setThreadCount count ∧ rest ≤ workers.length ∧ curr = workers.count true ∧
    count ≤ curr ∧ (curr = count ∧ Started before workers ∨
      ∀ idx, idx < workers.length → worker workers idx = (worker before idx && decide (idx < rest)))
  | .each coreIds core => call = .setThreads coreIds ∧
    ∀ idx, idx < workers.length → idx < core → (worker workers idx = true ↔ coreIds.getD idx 0 ≠ 0)

theorem worker_set (bound : core < workers.length) (entry : Bool) (idx : Nat) :
    worker (workers.set core entry) idx = if idx = core then entry else worker workers idx := by
  unfold worker
  rw [List.getD_eq_getElem?_getD,List.getD_eq_getElem?_getD,List.getElem?_set]
  by_cases same : core = idx
  · subst same
    simp [bound]
  · simp [same,Ne.symm same]

theorem worker_eq (bound : core < workers.length) : worker workers core = workers.get ⟨core,bound⟩ := by
  simp [worker,bound]

theorem set_worker (bound : core < workers.length) {entry : Bool} (same : worker workers core = entry) :
    workers.set core entry = workers := by
  rw [← same,worker_eq bound]
  exact List.set_getElem_self bound

theorem count_started (bound : core < workers.length) (free : worker workers core = false) :
    (workers.set core true).count true = workers.count true + 1 := by
  rw [worker_eq bound,List.get_eq_getElem] at free
  rw [List.count_set bound]
  simp [free]

theorem count_stopped (bound : core < workers.length) (busy : worker workers core = true) :
    (workers.set core false).count true + 1 = workers.count true := by
  have back : ((workers.set core false).set core true).count true = (workers.set core false).count true + 1 :=
    count_started (by simpa using bound) (by rw [worker_set bound,if_pos rfl])
  rw [List.set_set,set_worker bound busy] at back
  exact back.symm

theorem count_full (full : ∀ idx, idx < workers.length → worker workers idx = true) : workers.count true = workers.length := by
  rw [List.count_eq_length]
  intro entry member
  obtain ⟨idx,bound,rfl⟩ := List.getElem_of_mem member
  have here := full idx bound
  rw [worker_eq bound] at here
  exact here.symm

theorem count_empty (empty : ∀ idx, idx < workers.length → worker workers idx = false) : workers.count true = 0 := by
  rw [List.count_eq_zero]
  intro member
  obtain ⟨idx,bound,same⟩ := List.getElem_of_mem member
  have here := empty idx bound
  rw [worker_eq bound,List.get_eq_getElem,same] at here
  cases here

def Decision.Sound (call : Call) (before workers : List Bool) (loop : Loop) : Decision → Prop
  | .run op => loop.core < workers.length ∧ worker workers loop.core = !op.creates ∧
    Reached call before (workers.set loop.core op.creates) loop.next
  | .skip => Reached call before workers loop.skip
  | .turn other => Reached call before workers other
  | .done => Finished.Correct ⟨call,before,workers⟩

theorem decision_up (length : before.length = workers.length) (reached : Reached call before workers (.up count curr core)) :
    (decision workers (.up count curr core)).Sound call before workers (.up count curr core) := by
  obtain ⟨same,enough,counted,entries,small⟩ := reached
  rw [decision]
  split
  next going =>
    split
    next busy =>
      refine ⟨same,enough,counted,fun idx bound => ?_,Or.inr (Nat.le_of_lt going.2)⟩
      rw [entries idx bound]
      by_cases here : idx = core
      · subst here
        rw [entries idx bound] at busy
        simpa using busy
      · have either : idx < core + 1 ↔ idx < core := by omega
        simp [either]
    next free =>
      rw [Bool.not_eq_true] at free
      refine ⟨going.1,free,same,by rwa [List.length_set],?_,fun idx bound => ?_,Or.inr (by omega)⟩
      · rw [Loop.core,Op.creates,count_started going.1 free,counted]
      · rw [List.length_set] at bound
        rw [Loop.core,Op.creates,worker_set going.1,entries idx bound]
        by_cases here : idx = core
        · simp [here]
        · have either : idx < core + 1 ↔ idx < core := by omega
          simp [here,either]
  next stopped =>
    refine ⟨same,Nat.le_refl _,counted,?_,?_⟩
    · by_cases past : core < workers.length
      · exact Nat.not_lt.mp fun less => stopped ⟨past,less⟩
      · have full := count_full fun idx bound => by
          rw [entries idx bound]
          simp [show idx < core by omega]
        omega
    · obtain rfl | few := small
      · right
        intro idx bound
        rw [entries idx bound]
        simp [bound]
      · left
        refine ⟨Nat.le_antisymm few (Nat.not_lt.mp fun less => ?_),core,fun idx bound => entries idx (length ▸ bound)⟩
        have past : ¬core < workers.length := fun inside => stopped ⟨inside,less⟩
        have full := count_full fun idx bound => by
          rw [entries idx bound]
          simp [show idx < core by omega]
        omega

theorem decision_down (length : before.length = workers.length)
    (reached : Reached call before workers (.down count curr core)) :
    (decision workers (.down count curr core)).Sound call before workers (.down count curr core) := by
  obtain ⟨same,inside,counted,enough,either⟩ := reached
  rw [decision]
  split
  next going =>
    have entries : ∀ idx, idx < workers.length → worker workers idx = (worker before idx && decide (idx < core)) := by
      rcases either with done | entries
      · exact absurd done.1 (Nat.ne_of_gt going.2)
      · exact entries
    have bound : core - 1 < workers.length := by omega
    split
    next busy =>
      refine ⟨bound,busy,same,?_,?_,Nat.le_sub_one_of_lt going.2,Or.inr fun idx small => ?_⟩
      · rw [List.length_set]
        exact Nat.le_of_lt bound
      · have fewer := count_stopped bound busy
        change curr - 1 = (workers.set (core - 1) false).count true
        omega
      · rw [List.length_set] at small
        change worker (workers.set (core - 1) false) idx = _
        rw [worker_set bound,entries idx small]
        by_cases here : idx = core - 1
        · simp [here]
        · have least : idx < core ↔ idx < core - 1 := by omega
          simp [here,least]
    next free =>
      refine ⟨same,Nat.le_trans (Nat.sub_le _ _) inside,counted,enough,Or.inr fun idx small => ?_⟩
      rw [entries idx small]
      by_cases here : idx = core - 1
      · rw [entries (core - 1) bound] at free
        have last : core - 1 < core := by omega
        subst here
        simpa [last] using free
      · have least : idx < core ↔ idx < core - 1 := by omega
        simp [least]
  next stopped =>
    subst same
    rcases either with ⟨exactly,started⟩ | entries
    · exact ⟨counted.symm.trans exactly,Or.inl started⟩
    · refine ⟨?_,Or.inr ⟨core,fun idx bound => entries idx (length ▸ bound)⟩⟩
      by_cases none_ : 0 < core
      · have few : ¬count < curr := fun less => stopped ⟨none_,less⟩
        change workers.count true = count
        omega
      · have empty := count_empty fun idx bound => by
          rw [entries idx bound]
          simp [show ¬idx < core by omega]
        change workers.count true = count
        omega

theorem decision_each {coreIds : List Int} (reached : Reached call before workers (.each coreIds core)) :
    (decision workers (.each coreIds core)).Sound call before workers (.each coreIds core) := by
  obtain ⟨same,entries⟩ := reached
  have onward (bound : core < workers.length) {after : List Bool} (size : after.length = workers.length)
      (right : worker after core = true ↔ coreIds.getD core 0 ≠ 0)
      (kept : ∀ idx, idx ≠ core → worker after idx = worker workers idx) :
      Reached call before after (.each coreIds (core + 1)) := by
    refine ⟨same,fun idx small below => ?_⟩
    obtain rfl | apart := Decidable.em (idx = core)
    · exact right
    · rw [kept idx apart]
      exact entries idx (size ▸ small) (by omega)
  rw [decision]
  split
  next bound =>
    split
    next wanted =>
      split
      next busy => exact onward bound rfl (iff_of_true busy wanted) fun _ _ => rfl
      next free =>
        refine ⟨bound,Bool.not_eq_true _ ▸ free,onward bound (List.length_set ..) ?_ fun idx apart => ?_⟩
        · rw [Loop.core,worker_set bound,if_pos rfl]
          exact iff_of_true rfl wanted
        · rw [Loop.core,worker_set bound,if_neg apart]
    next unwanted =>
      split
      next busy =>
        refine ⟨bound,busy,onward bound (List.length_set ..) ?_ fun idx apart => ?_⟩
        · rw [Loop.core,worker_set bound,if_pos rfl]
          exact iff_of_false Bool.false_ne_true unwanted
        · rw [Loop.core,worker_set bound,if_neg apart]
      next free => exact onward bound rfl (iff_of_false free unwanted) fun _ _ => rfl
  next past =>
    change Finished.Correct ⟨call,before,workers⟩
    simp only [Finished.Correct,same]
    exact fun idx bound => entries idx bound (by omega)

theorem decision_sound (length : before.length = workers.length) (reached : Reached call before workers loop) :
    (decision workers loop).Sound call before workers loop := by
  cases loop with
  | up count curr core => exact decision_up length reached
  | down count curr rest => exact decision_down length reached
  | each coreIds core => exact decision_each reached

theorem reached_start (allowed : call.allowed workers.length = true) :
    Reached call workers workers (call.start workers) := by
  cases call with
  | setThreadCount count =>
    refine ⟨rfl,by simpa [Call.allowed] using allowed,rfl,fun idx _ => by simp,Or.inl rfl⟩
  | setThreads coreIds => exact ⟨rfl,fun idx _ below => absurd below (Nat.not_lt_zero idx)⟩

end Cores

def Stage.op : Stage → Option Op
  | .deciding => none
  | .entered op => some op
  | .locking op _ => some op
  | .updating op _ => some op
  | .listed op => some op
  | .unlocking op _ => some op
  | .leaving op => some op

def Stage.entry : Stage → Bool × Bool
  | .deciding => (false,false)
  | .entered op => (!op.creates,!op.creates)
  | .locking op _ => (false,!op.creates)
  | .updating op _ => (false,!op.creates)
  | .listed op => (false,op.creates)
  | .unlocking op _ => (false,op.creates)
  | .leaving op => (false,op.creates)

def Pc.updating : Pc → Bool
  | .working _ _ _ (.updating _ _) => true
  | _ => false

def active (domain : SchedulingDomain) (core : Nat) : Bool := decide (core ∈ domain.activeThreadIds)

def Queued (domain : SchedulingDomain) (expected : Nat → Nat → Bool) : Prop :=
  ∀ level tasks, (domain.priorities level).tasks = some tasks →
    ∀ core, (tasks.getThreadQueue core).isSome = expected level core

def halfway (domain : SchedulingDomain) (op : Op) (here below level core : Nat) : Bool :=
  if core = here ∧ level < below then op.creates else active domain core

def PutFacts (cores : Nat) (domain : SchedulingDomain) (task : Task) : Putting → Prop
  | .checking => True
  | .missing => True
  | .rechecking => True
  | .collecting tasks => tasks.threadTasks.length = cores ∧ ∀ core, (tasks.getThreadQueue core).isSome = false
  | .registering tasks rest => tasks.threadTasks.length = cores ∧ ∃ done, domain.activeThreadIds = done ++ rest ∧
    ∀ core, (tasks.getThreadQueue core).isSome = decide (core ∈ done)
  | .published => (domain.priorities task.level).tasks.isSome = true
  | .created => (domain.priorities task.level).tasks.isSome = true
  | .inserting => (domain.priorities task.level).tasks.isSome = true

structure WorkFacts (workers : List Bool) (domain : SchedulingDomain) (call : Call) (before : List Bool) (loop : Loop)
    (stage : Stage) : Prop where
  length : before.length = workers.length
  deciding : stage.op = none → Reached call before workers loop
  running : ∀ op, stage.op = some op → loop.core < workers.length ∧
    Reached call before (workers.set loop.core op.creates) loop.next ∧
    (worker workers loop.core,active domain loop.core) = stage.entry
  others : ∀ core, stage.op = none ∨ core ≠ loop.core → worker workers core = active domain core
  queues : ∀ op level, stage = .updating op level → Queued domain (halfway domain op loop.core level)

/-- The table, the list and the queues agree but for the core that a thread is dealing
with; the mutexes tell who that is. -/
structure Inv (state : State) : Prop where
  locked : state.threads.Exact Pc.locks
  cpuCount : state.domain.cpuCount = state.workers.length
  nodup : state.domain.activeThreadIds.Nodup
  bounded : ∀ core, core ∈ state.domain.activeThreadIds → core < state.workers.length
  sized : ∀ level tasks, (state.domain.priorities level).tasks = some tasks →
    level < levels ∧ tasks.threadTasks.length = state.workers.length
  quiet : (∀ thread, Mutex.workers ∉ (state.pc thread).locks) →
    ∀ core, worker state.workers core = active state.domain core
  registered : (∀ thread, (state.pc thread).updating = false) → Queued state.domain (fun _ => active state.domain)
  putting : ∀ thread task thid place, state.pc thread = .putting task thid place →
    PutFacts state.workers.length state.domain task place
  working : ∀ thread call before loop stage, state.pc thread = .working call before loop stage →
    WorkFacts state.workers state.domain call before loop stage
  results : ∀ finished, finished ∈ state.finished → finished.Correct

section Goto
variable {state next : State} {thread : Thread} {move : Move}

theorem goto_some (gone : state.goto thread move = some next) :
    next = ⟨state.threads.move Pc.locks thread move.pc,move.workers,move.domain,move.finished⟩ ∧
      state.threads.available Pc.locks thread move.pc = true := by
  obtain ⟨threads,entered,rfl⟩ := Option.map_eq_some_iff.mp gone
  obtain ⟨rfl,available⟩ := Threads.enter_some entered
  exact ⟨rfl,available⟩

theorem goto_pc (gone : state.goto thread move = some next) (other : Thread) :
    next.pc other = if other = thread then move.pc else state.pc other := by
  obtain ⟨rfl,_⟩ := goto_some gone
  exact Threads.move_pc other

theorem Inv.moved_locked (inv : Inv state) (gone : state.goto thread move = some next) : next.threads.Exact Pc.locks := by
  obtain ⟨rfl,available⟩ := goto_some gone
  exact inv.locked.move available

theorem Pc.updating_locks {pc : Pc} (updating : pc.updating = true) : Mutex.activeThreadIds ∈ pc.locks := by
  unfold Pc.updating at updating
  split at updating
  next => simp [Pc.locks,Stage.locks]
  next => cases updating

theorem updating_false {pc : Pc} (free : Mutex.workers ∉ pc.locks) : pc.updating = false := by
  unfold Pc.updating
  split
  next => exact absurd List.mem_cons_self free
  next => rfl

theorem Shadows.queued {other domain : SchedulingDomain} (shadows : Shadows other domain) {expected : Nat → Nat → Bool}
    (queued : Queued domain expected) : Queued other expected := by
  intro level changed found core
  obtain ⟨tasks,before,_,same⟩ := shadows.getThreadQueue found
  rw [same]
  exact queued level tasks before core

theorem Inv.put (inv : Inv state) (gone : state.goto thread move = some next)
    (before : Mutex.workers ∉ (state.pc thread).locks) (after : Mutex.workers ∉ move.pc.locks)
    (workers : move.workers = state.workers) (finished : move.finished = state.finished)
    (cpuCount : move.domain.cpuCount = state.domain.cpuCount)
    (ids : move.domain.activeThreadIds = state.domain.activeThreadIds)
    (published : ∀ level, (state.domain.priorities level).tasks.isSome = true → (move.domain.priorities level).tasks.isSome = true)
    (sized : ∀ level tasks, (move.domain.priorities level).tasks = some tasks →
      level < levels ∧ tasks.threadTasks.length = state.workers.length)
    (queued : ∀ expected, Queued state.domain expected →
      (∃ other, (state.pc other).updating = true) ∨ expected = (fun _ => active state.domain) → Queued move.domain expected)
    (own : ∀ task thid place, move.pc = .putting task thid place → PutFacts state.workers.length move.domain task place) :
    Inv next := by
  have locked := inv.moved_locked gone
  have pcs := goto_pc gone
  obtain ⟨rfl,_⟩ := goto_some gone
  have same (core : Nat) : active move.domain core = active state.domain core := by rw [active,ids,active]
  constructor
  · exact locked
  · exact cpuCount.trans (inv.cpuCount.trans (by rw [workers]))
  · exact ids ▸ inv.nodup
  · intro core member
    simp only [workers]
    exact inv.bounded core (ids ▸ member)
  · simpa only [workers] using sized
  · intro free core
    simp only [workers,same]
    apply inv.quiet _ core
    intro other
    have here := free other
    rw [pcs] at here
    split at here
    next same => exact same ▸ before
    next => exact here
  · intro none_
    have all (other : Thread) : (state.pc other).updating = false := by
      have here := none_ other
      rw [pcs] at here
      split at here
      next same => exact same ▸ updating_false before
      next => exact here
    dsimp only
    rw [funext same]
    exact queued _ (inv.registered all) (Or.inr rfl)
  · intro other task thid place at_
    simp only [workers]
    rw [pcs] at at_
    split at at_
    next => exact own task thid place at_
    next =>
      have facts := inv.putting other task thid place at_
      cases place with
      | checking => trivial
      | missing => trivial
      | rechecking => trivial
      | collecting tasks => exact facts
      | registering tasks rest =>
        unfold PutFacts
        rw [ids]
        exact facts
      | published => exact published _ facts
      | created => exact published _ facts
      | inserting => exact published _ facts
  · intro other call start loop stage at_
    rw [pcs] at at_
    split at at_
    next =>
      rw [at_] at after
      exact absurd List.mem_cons_self after
    next =>
      have facts := inv.working other call start loop stage at_
      simp only [workers]
      refine ⟨facts.length,facts.deciding,fun op ran => ?_,fun core apart => ?_,fun op level here => ?_⟩
      · rw [same]
        exact facts.running op ran
      · rw [same]
        exact facts.others core apart
      · have half : halfway move.domain op loop.core level = halfway state.domain op loop.core level := by
          funext place core
          simp only [halfway,same]
        rw [half]
        exact queued _ (facts.queues op level here) (Or.inl ⟨other,by rw [at_,here]; rfl⟩)
  · simpa only [finished] using inv.results

theorem Inv.putAlone (inv : Inv state) {pc : Pc} (gone : state.goto thread ⟨pc,state.workers,state.domain,state.finished⟩ = some next)
    (before : Mutex.workers ∉ (state.pc thread).locks) (after : Mutex.workers ∉ pc.locks)
    (own : ∀ task thid place, pc = .putting task thid place → PutFacts state.workers.length state.domain task place) :
    Inv next :=
  inv.put gone before after rfl rfl rfl rfl (fun _ => id) inv.sized (fun _ queued _ => queued) own

theorem level_lt (task : Task) : task.level < levels := Nat.lt_succ_of_le task.priority.index_le

theorem putMove_keeps (inv : Inv state) {task : Task} {thid : Int} {place : Putting}
    (here : state.pc thread = .putting task thid place) (moved : state.putMove task thid place = some move)
    (gone : state.goto thread move = some next) : Inv next := by
  have facts := inv.putting thread task thid place here
  have before : Mutex.workers ∉ (state.pc thread).locks := by
    rw [here]
    cases place <;> simp [Pc.locks]
  cases place with
  | checking =>
    obtain rfl := Option.some.inj moved
    refine inv.putAlone gone before ?_ fun other _ following same => ?_
    · split <;> simp [Pc.locks]
    · cases same
      split
      next => trivial
      next present => exact Option.ne_none_iff_isSome.mp (by simpa using present)
  | missing =>
    obtain rfl := Option.some.inj moved
    refine inv.putAlone gone before (by simp [Pc.locks]) fun other _ following same => ?_
    cases same
    trivial
  | rechecking =>
    simp only [State.putMove] at moved
    split at moved
    next found =>
      obtain rfl := Option.some.inj moved
      refine inv.putAlone gone before (by simp [Pc.locks]) fun other _ following same => ?_
      cases same
      simp [PutFacts,found]
    next missing =>
      obtain rfl := Option.some.inj moved
      -- the count is reset, the collection is not there before and after
      have tasks (level : Nat) : ((state.domain.setPriority task.level ⟨none,0⟩).priorities level).tasks =
          (state.domain.priorities level).tasks := by
        rw [priorities_setPriority]
        split
        next same => rw [same,missing]
        next => rfl
      refine inv.put gone before (by simp [Pc.locks]) rfl rfl rfl rfl (fun level present => ?_) (fun level changed found => ?_)
        (fun expected queued _ level changed found => ?_) fun other _ following same => ?_
      · exact (congrArg Option.isSome (tasks level)).trans present
      · exact inv.sized level changed ((tasks level).symm.trans found)
      · exact queued level changed ((tasks level).symm.trans found)
      · cases same
        refine ⟨?_,fun core => ?_⟩
        · rw [TaskCollection.create,List.length_replicate,inv.cpuCount]
        · rw [TaskCollection.getThreadQueue_create]
          rfl
  | collecting tasks =>
    obtain rfl := Option.some.inj moved
    refine inv.putAlone gone before (by simp [Pc.locks]) fun other _ following same => ?_
    cases same
    refine ⟨facts.1,[],rfl,fun core => ?_⟩
    rw [facts.2]
    simp
  | registering tasks rest =>
    obtain ⟨length,done,ids,queues⟩ := facts
    cases rest with
    | cons idx rest =>
      obtain ⟨changed,updated,rfl⟩ := Option.map_eq_some_iff.mp moved
      obtain ⟨same,kept⟩ := queue_some updated
      refine inv.putAlone gone before (by simp [Pc.locks]) fun other _ following equal => ?_
      cases equal
      refine ⟨same.trans length,done ++ [idx],by simpa using ids,fun core => ?_⟩
      rw [kept,queues]
      by_cases equal : core = idx
      · simp [equal,Op.creates]
      · simp [equal]
    | nil =>
      obtain rfl := Option.some.inj moved
      rw [List.append_nil] at ids
      have own : Mutex.activeThreadIds ∈ (state.pc thread).locks := by simp [here,Pc.locks]
      refine inv.put gone before (by simp [Pc.locks]) rfl rfl rfl rfl (fun level present => ?_) (fun level changed found => ?_)
        (fun expected queued either level changed found => ?_) fun other _ following same => ?_
      · rw [priorities_setPriority]
        split
        next => rfl
        next => exact present
      · rw [priorities_setPriority] at found
        split at found
        next same =>
          obtain rfl := Option.some.inj found
          exact ⟨same ▸ level_lt task,length⟩
        next => exact inv.sized level changed found
      · rw [priorities_setPriority] at found
        split at found
        next same =>
          obtain rfl := Option.some.inj found
          rcases either with ⟨other,updating⟩ | expected
          · -- the thread that updates the collections would hold the mutex of the ids as well
            obtain rfl := inv.locked.unique own (Pc.updating_locks updating)
            rw [here] at updating
            cases updating
          · subst expected
            intro core
            change _ = decide (core ∈ state.domain.activeThreadIds)
            rw [queues,ids]
        next => exact queued level changed found
      · cases same
        simp [PutFacts,priorities_setPriority]
  | published =>
    obtain rfl := Option.some.inj moved
    refine inv.putAlone gone before (by simp [Pc.locks]) fun other _ following same => ?_
    cases same
    exact facts
  | created =>
    obtain rfl := Option.some.inj moved
    refine inv.putAlone gone before (by simp [Pc.locks]) fun other _ following same => ?_
    cases same
    exact facts
  | inserting =>
    obtain ⟨domain,put,rfl⟩ := Option.map_eq_some_iff.mp moved
    obtain ⟨shadows,ids⟩ := shadows_putTask facts put
    refine inv.put gone before (by simp [Pc.locks]) rfl rfl shadows.cpuCount ids shadows.published (fun level changed found => ?_)
      (fun expected queued _ => shadows.queued queued) fun _ _ _ same => by cases same
    obtain ⟨tasks,old,length,_⟩ := shadows.getThreadQueue found
    rw [length]
    exact inv.sized level tasks old

end Goto

section Work
variable {state next : State} {thread : Thread} {move : Move} {call : Call} {before : List Bool} {loop : Loop} {stage : Stage}

theorem Inv.alone (inv : Inv state) (here : state.pc thread = .working call before loop stage) {other : Thread}
    (different : other ≠ thread) : Mutex.workers ∉ (state.pc other).locks := by
  intro held
  have own : Mutex.workers ∈ (state.pc thread).locks := by simp [here,Pc.locks]
  exact different (inv.locked.unique held own)

theorem Inv.settled (inv : Inv state) (here : state.pc thread = .working call before loop stage)
    (notUpdating : (state.pc thread).updating = false) : Queued state.domain (fun _ => active state.domain) := by
  apply inv.registered
  intro other
  by_cases same : other = thread
  · exact same ▸ notUpdating
  · exact updating_false (inv.alone here same)

theorem Inv.work (inv : Inv state) (here : state.pc thread = .working call before loop stage)
    (gone : state.goto thread move = some next) (length : move.workers.length = state.workers.length)
    (cpuCount : move.domain.cpuCount = state.domain.cpuCount) (nodup : move.domain.activeThreadIds.Nodup)
    (bounded : ∀ core, core ∈ move.domain.activeThreadIds → core < state.workers.length)
    (ids : move.domain.activeThreadIds = state.domain.activeThreadIds ∨ Mutex.activeThreadIds ∈ stage.locks)
    (published : ∀ level, (state.domain.priorities level).tasks.isSome = true → (move.domain.priorities level).tasks.isSome = true)
    (sized : ∀ level tasks, (move.domain.priorities level).tasks = some tasks →
      level < levels ∧ tasks.threadTasks.length = state.workers.length)
    (own : (∃ following target, move.pc = .working call before following target ∧
        WorkFacts move.workers move.domain call before following target) ∨
      move.pc = .idle ∧ ∀ core, worker move.workers core = active move.domain core)
    (registered : move.pc.updating = false → Queued move.domain (fun _ => active move.domain))
    (results : ∀ finished, finished ∈ move.finished → finished.Correct) : Inv next := by
  have locked := inv.moved_locked gone
  have pcs := goto_pc gone
  obtain ⟨rfl,_⟩ := goto_some gone
  have others {other : Thread} (different : other ≠ thread) : Mutex.workers ∉ (state.pc other).locks :=
    inv.alone here different
  constructor
  · exact locked
  · exact cpuCount.trans (inv.cpuCount.trans length.symm)
  · exact nodup
  · exact fun core member => length ▸ bounded core member
  · exact fun level tasks found => length ▸ sized level tasks found
  · intro free core
    have self_ := free thread
    rw [pcs,if_pos rfl] at self_
    rcases own with ⟨following,target,at_,_⟩ | ⟨_,agree⟩
    · rw [at_] at self_
      exact absurd List.mem_cons_self self_
    · exact agree core
  · intro none_
    have self_ := none_ thread
    rw [pcs,if_pos rfl] at self_
    exact registered self_
  · intro other task thid place at_
    rw [pcs] at at_
    split at at_
    next =>
      rcases own with ⟨_,_,same,_⟩ | ⟨same,_⟩ <;> rw [same] at at_ <;> cases at_
    next different =>
      have facts := inv.putting other task thid place at_
      cases place with
      | checking => trivial
      | missing => trivial
      | rechecking => trivial
      | collecting tasks => exact ⟨facts.1.trans length.symm,facts.2⟩
      | registering tasks rest =>
        obtain ⟨size,done,listed,queues⟩ := facts
        refine ⟨size.trans length.symm,done,?_,queues⟩
        rcases ids with same | held
        · exact same.trans listed
        · -- both would hold the mutex of the ids
          have first : Mutex.activeThreadIds ∈ (state.pc other).locks := by simp [at_,Pc.locks]
          have second : Mutex.activeThreadIds ∈ (state.pc thread).locks := by simp [here,Pc.locks,held]
          exact absurd (inv.locked.unique first second) different
      | published => exact published _ facts
      | created => exact published _ facts
      | inserting => exact published _ facts
  · intro other asked start following target at_
    rw [pcs] at at_
    split at at_
    next =>
      rcases own with ⟨_,_,same,facts⟩ | ⟨same,_⟩
      · rw [same] at at_
        cases at_
        exact facts
      · rw [same] at at_
        cases at_
    next different =>
      have absent := others different
      rw [at_] at absent
      exact absurd List.mem_cons_self absent
  · exact results

theorem Inv.workAlone (inv : Inv state) (here : state.pc thread = .working call before loop stage) {following : Loop}
    {target : Stage}
    (gone : state.goto thread ⟨.working call before following target,state.workers,state.domain,state.finished⟩ = some next)
    (facts : WorkFacts state.workers state.domain call before following target)
    (settled : (state.pc thread).updating = false) : Inv next :=
  inv.work here gone rfl rfl inv.nodup inv.bounded (Or.inl rfl) (fun _ => id) inv.sized (Or.inl ⟨_,_,rfl,facts⟩)
    (fun _ => inv.settled here settled) inv.results

theorem WorkFacts.onward {workers : List Bool} {domain : SchedulingDomain} {target : Stage}
    (facts : WorkFacts workers domain call before loop stage) (op : Op) (from_ : stage.op = some op)
    (reaching : target.op = some op) (entry : target.entry = stage.entry)
    (queues : ∀ other level, target = .updating other level → Queued domain (halfway domain other loop.core level)) :
    WorkFacts workers domain call before loop target := by
  refine ⟨facts.length,fun none_ => ?_,fun other same => ?_,fun core either => ?_,queues⟩
  · rw [reaching] at none_
    cases none_
  · rw [reaching] at same
    rw [entry]
    exact facts.running other (from_.trans same)
  · rcases either with none_ | apart
    · rw [reaching] at none_
      cases none_
    · exact facts.others core (Or.inr apart)

theorem WorkFacts.agree {workers : List Bool} {domain : SchedulingDomain}
    (facts : WorkFacts workers domain call before loop .deciding) (core : Nat) : worker workers core = active domain core :=
  facts.others core (Or.inl rfl)

theorem deciding_keeps (inv : Inv state) (here : state.pc thread = .working call before loop .deciding)
    (moved : state.workMove call before loop .deciding = some move) (gone : state.goto thread move = some next) :
    Inv next := by
  have facts := inv.working thread call before loop .deciding here
  have settled : (state.pc thread).updating = false := by rw [here]; rfl
  have sound := decision_sound facts.length (facts.deciding rfl)
  have again {following : Loop} (reached : Reached call before state.workers following) :
      WorkFacts state.workers state.domain call before following .deciding :=
    ⟨facts.length,fun _ => reached,(fun _ none_ => by cases none_),fun core _ => facts.agree core,(fun _ _ none_ => by cases none_)⟩
  simp only [State.workMove] at moved
  split at moved
  next op chosen =>
    obtain rfl := Option.some.inj moved
    rw [chosen] at sound
    obtain ⟨bound,entry,reached⟩ := sound
    refine inv.workAlone here gone ⟨facts.length,(fun none_ => by cases none_),fun other same => ?_,fun core _ => facts.agree core,
      (fun _ _ none_ => by cases none_)⟩ settled
    obtain rfl := Option.some.inj same
    refine ⟨bound,reached,?_⟩
    rw [← facts.agree,entry]
    rfl
  next chosen =>
    obtain rfl := Option.some.inj moved
    rw [chosen] at sound
    exact inv.workAlone here gone (again sound) settled
  next other chosen =>
    obtain rfl := Option.some.inj moved
    rw [chosen] at sound
    exact inv.workAlone here gone (again sound) settled
  next chosen =>
    obtain rfl := Option.some.inj moved
    rw [chosen] at sound
    refine inv.work here gone rfl rfl inv.nodup inv.bounded (Or.inl rfl) (fun _ => id) inv.sized (Or.inr ⟨rfl,facts.agree⟩)
      (fun _ => inv.settled here settled) fun finished member => ?_
    rcases List.mem_cons.mp member with rfl | old
    · exact sound
    · exact inv.results finished old

theorem entered_keeps (inv : Inv state) {op : Op} (here : state.pc thread = .working call before loop (.entered op))
    (moved : state.workMove call before loop (.entered op) = some move) (gone : state.goto thread move = some next) :
    Inv next := by
  have facts := inv.working thread call before loop (.entered op) here
  have settled : (state.pc thread).updating = false := by rw [here]; rfl
  cases op with
  | create =>
    simp only [State.workMove] at moved
    split at moved
    next =>
      obtain rfl := Option.some.inj moved
      exact inv.workAlone here gone (facts.onward .create rfl rfl rfl fun _ _ none_ => by cases none_) settled
    next => cases moved
  | stop =>
    simp only [State.workMove] at moved
    split at moved
    next =>
      obtain rfl := Option.some.inj moved
      obtain ⟨bound,reached,entry⟩ := facts.running .stop rfl
      refine inv.work here gone (List.length_set ..) rfl inv.nodup inv.bounded (Or.inl rfl) (fun _ => id) inv.sized
        (Or.inl ⟨_,_,rfl,by simpa using facts.length,(fun none_ => by cases none_),fun other same => ?_,fun core either => ?_,
          (fun _ _ none_ => by cases none_)⟩) (fun _ => inv.settled here settled) inv.results
      · obtain rfl := Option.some.inj same
        refine ⟨by simpa using bound,by simpa [Op.creates,List.set_set] using reached,?_⟩
        rw [worker_set bound,if_pos rfl,(Prod.mk.inj entry).2]
        rfl
      · rcases either with none_ | apart
        · cases none_
        · rw [worker_set bound,if_neg apart]
          exact facts.others core (Or.inr apart)
    next => cases moved

theorem leaving_keeps (inv : Inv state) {op : Op} (here : state.pc thread = .working call before loop (.leaving op))
    (moved : state.workMove call before loop (.leaving op) = some move) (gone : state.goto thread move = some next) :
    Inv next := by
  have facts := inv.working thread call before loop (.leaving op) here
  have settled : (state.pc thread).updating = false := by rw [here]; rfl
  obtain ⟨bound,reached,entry⟩ := facts.running op rfl
  obtain ⟨entered,listed⟩ := Prod.mk.inj entry
  cases op with
  | create =>
    obtain rfl := Option.some.inj moved
    refine inv.work here gone (List.length_set ..) rfl inv.nodup inv.bounded (Or.inl rfl) (fun _ => id) inv.sized
      (Or.inl ⟨_,_,rfl,by simpa using facts.length,fun _ => reached,(fun _ none_ => by cases none_),fun core _ => ?_,
        (fun _ _ none_ => by cases none_)⟩) (fun _ => inv.settled here settled) inv.results
    rw [worker_set bound]
    split
    next same => rw [same,listed,Op.creates]
    next apart => exact facts.others core (Or.inr apart)
  | stop =>
    obtain rfl := Option.some.inj moved
    rw [Op.creates,set_worker bound entered] at reached
    refine inv.workAlone here gone ⟨facts.length,fun _ => reached,(fun _ none_ => by cases none_),fun core _ => ?_,
      (fun _ _ none_ => by cases none_)⟩ settled
    by_cases same : core = loop.core
    · rw [same,entered,listed,Op.creates]
    · exact facts.others core (Or.inr same)

theorem collection_some {op : Op} {core level : Nat} {domain other : SchedulingDomain}
    (updated : op.collection core level domain = some other) :
    other.cpuCount = domain.cpuCount ∧ other.activeThreadIds = domain.activeThreadIds ∧
      (∀ place, (domain.priorities place).tasks.isSome = true → (other.priorities place).tasks.isSome = true) ∧
      ∀ place changed, (other.priorities place).tasks = some changed → ∃ tasks, (domain.priorities place).tasks = some tasks ∧
        changed.threadTasks.length = tasks.threadTasks.length ∧ ∀ idx, (changed.getThreadQueue idx).isSome =
          if place = level ∧ idx = core then op.creates else (tasks.getThreadQueue idx).isSome := by
  unfold Op.collection at updated
  split at updated
  next missing =>
    obtain rfl := Option.some.inj updated
    refine ⟨rfl,rfl,fun _ => id,fun place changed found => ⟨changed,found,rfl,fun idx => ?_⟩⟩
    have apart : place ≠ level := by
      rintro rfl
      rw [missing] at found
      cases found
    simp [apart]
  next tasks there =>
    obtain ⟨changed,queued,rfl⟩ := Option.map_eq_some_iff.mp updated
    obtain ⟨length,queues⟩ := queue_some queued
    refine ⟨rfl,rfl,fun place present => ?_,fun place seen found => ?_⟩
    · rw [priorities_setPriority]
      split
      next => rfl
      next => exact present
    · rw [priorities_setPriority] at found
      split at found
      next same =>
        obtain rfl := Option.some.inj found
        refine ⟨tasks,same ▸ there,length,fun idx => ?_⟩
        rw [queues]
        simp [same]
      next apart => exact ⟨seen,found,rfl,fun idx => by simp [apart]⟩

theorem list_some {op : Op} {core : Nat} {domain other : SchedulingDomain} (listed : Op.list core domain op = some other)
    (nodup : domain.activeThreadIds.Nodup) (absent : active domain core = !op.creates) :
    other.cpuCount = domain.cpuCount ∧ other.priorities = domain.priorities ∧ other.activeThreadIds.Nodup ∧
      ∀ idx, active other idx = if idx = core then op.creates else active domain idx := by
  cases op with
  | create =>
    obtain rfl := Option.some.inj listed
    have missing : core ∉ domain.activeThreadIds := by simpa [active,Op.creates] using absent
    refine ⟨rfl,rfl,?_,fun idx => ?_⟩
    · exact List.nodup_append.mpr ⟨nodup,List.nodup_singleton core,fun first inside second last => by
        rw [List.mem_singleton.mp last]
        exact fun same => missing (same ▸ inside)⟩
    · by_cases same : idx = core <;> simp [active,same,Op.creates]
  | stop =>
    simp only [Op.list] at listed
    split at listed
    next =>
      obtain rfl := Option.some.inj listed
      refine ⟨rfl,rfl,nodup.erase core,fun idx => ?_⟩
      by_cases same : idx = core
      · simp [active,same,Op.creates,nodup.mem_erase_iff]
      · simp [active,same,nodup.mem_erase_iff]
    next => cases listed

theorem updating_keeps (inv : Inv state) {op : Op} {level : Nat}
    (here : state.pc thread = .working call before loop (.updating op level))
    (moved : state.workMove call before loop (.updating op level) = some move) (gone : state.goto thread move = some next) :
    Inv next := by
  have facts := inv.working thread call before loop (.updating op level) here
  obtain ⟨bound,reached,entry⟩ := facts.running op rfl
  have queues := facts.queues op level rfl
  simp only [State.workMove] at moved
  split at moved
  next below =>
    obtain ⟨domain,updated,rfl⟩ := Option.map_eq_some_iff.mp moved
    obtain ⟨cpuCount,ids,published,collections⟩ := collection_some updated
    have same : active domain = active state.domain := by
      funext core
      rw [active,ids,active]
    refine inv.work here gone rfl cpuCount (ids ▸ inv.nodup) (ids ▸ inv.bounded) (Or.inl ids) published
      (fun place changed found => ?_) (Or.inl ⟨_,_,rfl,facts.length,(fun none_ => by cases none_),fun other again => ?_,
        fun core either => ?_,fun other following here => ?_⟩) (fun not_ => by cases not_) inv.results
    · obtain ⟨tasks,old,length,_⟩ := collections place changed found
      rw [length]
      exact inv.sized place tasks old
    · obtain rfl := Option.some.inj again
      rw [same]
      exact ⟨bound,reached,entry⟩
    · rw [same]
      rcases either with none_ | apart
      · cases none_
      · exact facts.others core (Or.inr apart)
    · cases here
      intro place changed found core
      obtain ⟨tasks,old,_,kept⟩ := collections place changed found
      rw [kept,queues place tasks old core]
      simp only [halfway,same]
      by_cases own : core = loop.core
      · subst own
        by_cases there : place = level
        · simp [there]
        · have either : place < level + 1 ↔ place < level := by omega
          simp [there,either]
      · simp [own]
  next done =>
    obtain ⟨domain,listed,rfl⟩ := Option.map_eq_some_iff.mp moved
    obtain ⟨cpuCount,priorities,nodup,actives⟩ := list_some listed inv.nodup (Prod.mk.inj entry).2
    refine inv.work here gone rfl cpuCount nodup (fun core member => ?_) (Or.inr (by simp [Stage.locks]))
      (fun place => by rw [priorities]; exact id) (fun place tasks => by rw [priorities]; exact inv.sized place tasks)
      (Or.inl ⟨_,_,rfl,facts.length,(fun none_ => by cases none_),fun other again => ?_,fun core either => ?_,
        (fun _ _ none_ => by cases none_)⟩) (fun _ place tasks found core => ?_) inv.results
    · have here := actives core
      by_cases same : core = loop.core
      · exact same ▸ bound
      · rw [if_neg same] at here
        exact inv.bounded core (of_decide_eq_true (here.symm.trans (decide_eq_true member)))
    · obtain rfl := Option.some.inj again
      refine ⟨bound,reached,?_⟩
      rw [actives,if_pos rfl,(Prod.mk.inj entry).1]
      rfl
    · rcases either with none_ | apart
      · cases none_
      · rw [actives,if_neg apart]
        exact facts.others core (Or.inr apart)
    · rw [priorities] at found
      have small := (inv.sized place tasks found).1
      have past : place < level := by omega
      rw [queues place tasks found core]
      change _ = active domain core
      rw [actives,halfway]
      simp [past]

theorem workMove_keeps (inv : Inv state) (here : state.pc thread = .working call before loop stage)
    (moved : state.workMove call before loop stage = some move) (gone : state.goto thread move = some next) :
    Inv next := by
  have facts := inv.working thread call before loop stage here
  cases stage with
  | deciding => exact deciding_keeps inv here moved gone
  | entered op => exact entered_keeps inv here moved gone
  | locking op level =>
    obtain rfl := Option.some.inj moved
    have settled : (state.pc thread).updating = false := by rw [here]; rfl
    refine inv.workAlone here gone (facts.onward op rfl ?_ ?_ fun other from_ target => ?_) settled
    · split <;> rfl
    · split <;> rfl
    · split at target
      next => cases target
      next =>
        cases target
        -- no collection is updated yet
        intro place tasks found core
        rw [inv.settled here settled place tasks found core]
        simp [halfway]
  | updating op level => exact updating_keeps inv here moved gone
  | listed op =>
    obtain rfl := Option.some.inj moved
    exact inv.workAlone here gone (facts.onward op rfl rfl rfl fun _ _ none_ => by cases none_) (by rw [here]; rfl)
  | unlocking op level =>
    obtain rfl := Option.some.inj moved
    refine inv.workAlone here gone (facts.onward op rfl ?_ ?_ fun other from_ target => ?_) (by rw [here]; rfl)
    · split <;> rfl
    · split <;> rfl
    · split at target <;> cases target
  | leaving op => exact leaving_keeps inv here moved gone

end Work

section Steps
variable {state next : State} {thread : Thread} {call : Call} {action : Action}

theorem call_keeps (inv : Inv state) (allowed : call.allowed state.workers.length = true)
    (idle : state.pc thread = .idle)
    (gone : state.goto thread ⟨.working call state.workers (call.start state.workers) .deciding,state.workers,state.domain,
      state.finished⟩ = some next) : Inv next := by
  have locked := inv.moved_locked gone
  have pcs := goto_pc gone
  obtain ⟨rfl,available⟩ := goto_some gone
  -- the call waited for the lock, nobody else is working
  have free (other : Thread) : Mutex.workers ∉ (state.pc other).locks := by
    by_cases same : other = thread
    · rw [same,idle]
      simp [Pc.locks]
    · exact inv.locked.not_held_by_other available (by simp [Pc.locks]) same
  have agree := inv.quiet free
  constructor
  · exact locked
  · exact inv.cpuCount
  · exact inv.nodup
  · exact inv.bounded
  · exact inv.sized
  · intro none_ core
    exact agree core
  · intro _
    exact inv.registered fun other => updating_false (free other)
  · intro other task thid place at_
    rw [pcs] at at_
    split at at_
    next => cases at_
    next => exact inv.putting other task thid place at_
  · intro other asked start loop stage at_
    rw [pcs] at at_
    split at at_
    next =>
      cases at_
      exact ⟨rfl,fun _ => reached_start allowed,(fun _ none_ => by cases none_),fun core _ => agree core,
        (fun _ _ none_ => by cases none_)⟩
    next =>
      have absent := free other
      rw [at_] at absent
      exact absurd List.mem_cons_self absent
  · exact inv.results

theorem inv_step (inv : Inv state) (stepped : step state action = some next) : Inv next := by
  cases action with
  | putTask thread task thid =>
    simp only [step] at stepped
    split at stepped
    next idle =>
      refine inv.putAlone stepped (by simp [idle,Pc.locks]) (by simp [Pc.locks]) fun other _ place same => ?_
      cases same
      trivial
    next => cases stepped
  | call thread call =>
    simp only [step] at stepped
    split at stepped
    next idle =>
      split at stepped
      next allowed => exact call_keeps inv allowed idle stepped
      next => cases stepped
    next => cases stepped
  | advance thread =>
    obtain ⟨move,moved,gone⟩ := Option.bind_eq_some_iff.mp stepped
    cases here : state.pc thread with
    | idle =>
      rw [here] at moved
      cases moved
    | putting task thid place =>
      rw [here] at moved
      exact putMove_keeps inv here moved gone
    | working call before loop stage =>
      rw [here] at moved
      exact workMove_keeps inv here moved gone

theorem inv_initial (cores : Nat) : Inv (State.initial cores) := by
  have none_ (level : Nat) : ((State.initial cores).domain.priorities level).tasks = none := rfl
  constructor
  · intro lock thread
    simp [State.initial,Pc.locks]
  · simp [State.initial,SchedulingDomain.create]
  · exact List.nodup_nil
  · intro core member
    cases member
  · intro level tasks found
    cases (none_ level).symm.trans found
  · intro _ core
    simp only [State.initial,worker,active,SchedulingDomain.create,List.getD_eq_getElem?_getD,List.getElem?_replicate]
    split <;> rfl
  · intro _ level tasks found
    cases (none_ level).symm.trans found
  · intro _ _ _ _ here
    cases here
  · intro _ _ _ _ _ here
    cases here
  · intro _ member
    cases member

end Steps

def Loop.rounds (cores : Nat) : Loop → Nat
  | .up _ _ core => cores - core + (cores + 2)
  | .down _ _ rest => rest + 1
  | .each _ core => cores - core + 1

def Stage.left : Stage → Nat
  | .deciding => 0
  | .entered _ => 3 * levels + 6
  | .locking _ level => 2 * levels + 5 + (levels - level)
  | .updating _ level => levels + 4 + (levels - level)
  | .listed _ => levels + 3
  | .unlocking _ level => 2 + (levels - level)
  | .leaving _ => 1

def Pc.left (cores : Nat) : Pc → Nat
  | .working _ _ loop .deciding => loop.rounds cores * (3 * levels + 7)
  | .working _ _ loop stage => loop.next.rounds cores * (3 * levels + 7) + stage.left
  | _ => 0

section Return
variable {state next : State} {thread : Thread} {move : Move} {call : Call} {before : List Bool} {loop : Loop} {stage : Stage}

theorem decision_rounds (workers : List Bool) (loop : Loop) : match decision workers loop with
    | .run _ => loop.next.rounds workers.length < loop.rounds workers.length
    | .skip => loop.skip.rounds workers.length < loop.rounds workers.length
    | .turn other => other.rounds workers.length < loop.rounds workers.length
    | .done => True := by
  cases loop with
  | up count curr core =>
    rw [decision]
    split_ifs <;> simp only [Loop.next,Loop.skip,Loop.rounds] <;> omega
  | down count curr rest =>
    rw [decision]
    split_ifs
    · simp only [Loop.next,Loop.rounds]
      omega
    · simp only [Loop.skip,Loop.rounds]
      omega
    · trivial
  | each coreIds core =>
    rw [decision]
    split_ifs
    any_goals trivial
    all_goals
      simp only [Loop.next,Loop.skip,Loop.rounds]
      omega

theorem workMove_isSome (inv : Inv state) (here : state.pc thread = .working call before loop stage) :
    (state.workMove call before loop stage).isSome = true := by
  have facts := inv.working thread call before loop stage here
  cases stage with
  | deciding =>
    simp only [State.workMove]
    split <;> rfl
  | entered op =>
    obtain ⟨_,_,entry⟩ := facts.running op rfl
    have free := (Prod.mk.inj entry).1
    cases op with
    | create => simp [State.workMove,free,Op.creates]
    | stop => simp [State.workMove,free,Op.creates]
  | locking op level => rfl
  | updating op level =>
    obtain ⟨bound,_,entry⟩ := facts.running op rfl
    have listed := (Prod.mk.inj entry).2
    simp only [State.workMove]
    split
    next =>
      rw [Option.isSome_map,Op.collection]
      split
      next => rfl
      next tasks found =>
        rw [Option.isSome_map]
        apply queue_isSome ((inv.sized level tasks found).2 ▸ bound)
        rw [facts.queues op level rfl level tasks found]
        simpa [halfway] using listed
    next =>
      rw [Option.isSome_map]
      cases op with
      | create => rfl
      | stop =>
        have member : loop.core ∈ state.domain.activeThreadIds := by simpa [active,Op.creates] using listed
        rw [Op.list,if_pos ⟨member,fun again => (inv.nodup.mem_erase_iff.mp again).1 rfl⟩]
        rfl
  | listed op => rfl
  | unlocking op level => rfl
  | leaving op => cases op <;> rfl

theorem workMove_left (moved : state.workMove call before loop stage = some move) :
    (move.pc = .idle ∨ ∃ following target, move.pc = .working call before following target) ∧
      (move.pc = .idle ∨ move.pc.left state.workers.length < (Pc.working call before loop stage).left state.workers.length) := by
  cases stage with
  | deciding =>
    have fewer := decision_rounds state.workers loop
    simp only [State.workMove] at moved
    split at moved
    next op chosen =>
      obtain rfl := Option.some.inj moved
      rw [chosen] at fewer
      refine ⟨Or.inr ⟨_,_,rfl⟩,Or.inr ?_⟩
      have scaled := Nat.mul_le_mul_right (3 * levels + 7) fewer
      simp only [Pc.left,Stage.left,Nat.succ_mul] at scaled ⊢
      omega
    next chosen =>
      obtain rfl := Option.some.inj moved
      rw [chosen] at fewer
      exact ⟨Or.inr ⟨_,_,rfl⟩,Or.inr (Nat.mul_lt_mul_of_pos_right fewer (by omega))⟩
    next other chosen =>
      obtain rfl := Option.some.inj moved
      rw [chosen] at fewer
      exact ⟨Or.inr ⟨_,_,rfl⟩,Or.inr (Nat.mul_lt_mul_of_pos_right fewer (by omega))⟩
    next =>
      obtain rfl := Option.some.inj moved
      exact ⟨Or.inl rfl,Or.inl rfl⟩
  | entered op =>
    cases op with
    | create =>
      simp only [State.workMove] at moved
      split at moved
      next =>
        obtain rfl := Option.some.inj moved
        refine ⟨Or.inr ⟨_,_,rfl⟩,Or.inr ?_⟩
        simp only [Pc.left,Stage.left]
        omega
      next => cases moved
    | stop =>
      simp only [State.workMove] at moved
      split at moved
      next =>
        obtain rfl := Option.some.inj moved
        refine ⟨Or.inr ⟨_,_,rfl⟩,Or.inr ?_⟩
        simp only [Pc.left,Stage.left]
        omega
      next => cases moved
  | locking op level =>
    obtain rfl := Option.some.inj moved
    refine ⟨Or.inr ⟨_,_,rfl⟩,Or.inr ?_⟩
    dsimp only
    split <;> simp only [Pc.left,Stage.left] <;> omega
  | updating op level =>
    simp only [State.workMove] at moved
    split at moved
    next =>
      obtain ⟨domain,_,rfl⟩ := Option.map_eq_some_iff.mp moved
      refine ⟨Or.inr ⟨_,_,rfl⟩,Or.inr ?_⟩
      simp only [Pc.left,Stage.left]
      omega
    next =>
      obtain ⟨domain,_,rfl⟩ := Option.map_eq_some_iff.mp moved
      refine ⟨Or.inr ⟨_,_,rfl⟩,Or.inr ?_⟩
      simp only [Pc.left,Stage.left]
      omega
  | listed op =>
    obtain rfl := Option.some.inj moved
    refine ⟨Or.inr ⟨_,_,rfl⟩,Or.inr ?_⟩
    simp only [Pc.left,Stage.left]
    omega
  | unlocking op level =>
    obtain rfl := Option.some.inj moved
    refine ⟨Or.inr ⟨_,_,rfl⟩,Or.inr ?_⟩
    dsimp only
    split <;> simp only [Pc.left,Stage.left] <;> omega
  | leaving op =>
    cases op with
    | create =>
      obtain rfl := Option.some.inj moved
      refine ⟨Or.inr ⟨_,_,rfl⟩,Or.inr ?_⟩
      simp only [Pc.left,Stage.left]
      omega
    | stop =>
      obtain rfl := Option.some.inj moved
      refine ⟨Or.inr ⟨_,_,rfl⟩,Or.inr ?_⟩
      simp only [Pc.left,Stage.left]
      omega

def Alone (state : State) (thread : Thread) : Prop :=
  ∀ mutex other, state.threads.holder mutex = some other → other = thread

theorem Alone.goto (alone : Alone state thread) (move : Move) :
    ∃ next, state.goto thread move = some next ∧ Alone next thread ∧ next.workers = move.workers := by
  have available : state.threads.available Pc.locks thread move.pc = true := by
    refine List.all_eq_true.mpr fun mutex _ => ?_
    cases held : state.threads.holder mutex with
    | none => simp
    | some other => simp [alone mutex other held]
  refine ⟨⟨state.threads.move Pc.locks thread move.pc,move.workers,move.domain,move.finished⟩,?_,?_,rfl⟩
  · rw [State.goto,Threads.enter,if_pos available]
    rfl
  · intro mutex other held
    simp only [Threads.move] at held
    split at held
    next => exact (Option.some.inj held).symm
    next =>
      split at held
      next => cases held
      next => exact alone mutex other held

/-- A call that no other thread holds up returns after finitely many of its steps. -/
theorem returns (inv : Inv state) (here : state.pc thread = .working call before loop stage) (alone : Alone state thread) :
    ∃ steps final, run step state (List.replicate steps (.advance thread)) = some final ∧ final.pc thread = .idle := by
  generalize size : (Pc.working call before loop stage).left before.length = left
  induction left using Nat.strong_induction_on generalizing state loop stage with
  | _ left ih =>
    have length := (inv.working thread call before loop stage here).length
    obtain ⟨move,moved⟩ := Option.isSome_iff_exists.mp (workMove_isSome inv here)
    obtain ⟨next,gone,still,_⟩ := alone.goto move
    have stepped : step state (.advance thread) = some next := by
      rw [step,here]
      exact Option.bind_eq_some_iff.mpr ⟨move,moved,gone⟩
    have at_ : next.pc thread = move.pc := by rw [goto_pc gone,if_pos rfl]
    obtain ⟨kind,fewer⟩ := workMove_left moved
    rcases kind with idle | ⟨following,target,working⟩
    · refine ⟨1,next,?_,at_.trans idle⟩
      rw [List.replicate_one,run_cons,stepped]
      rfl
    · rw [working] at at_ fewer
      rcases fewer with idle | fewer
      · cases idle
      · rw [← length,size] at fewer
        obtain ⟨steps,final,ran,done⟩ := ih _ fewer (inv_step inv stepped) at_ still rfl
        refine ⟨steps + 1,final,?_,done⟩
        rw [List.replicate_succ,run_cons,stepped]
        exact ran

end Return

/-- What holds after every step: the list of ids has the cores that have workers, the
published collections have queues for them, the calls that returned did what they were
to do, and a call in progress returns unless another thread keeps a mutex for ever. -/
structure Maintained (state : State) : Prop where
  nodup : state.domain.activeThreadIds.Nodup
  listed : state.threads.holder .workers = none →
    ∀ core, core ∈ state.domain.activeThreadIds ↔ worker state.workers core = true
  queues : state.threads.holder .activeThreadIds = none → ∀ level tasks,
    (state.domain.priorities level).tasks = some tasks →
      ∀ core, (tasks.getThreadQueue core).isSome = true ↔ core ∈ state.domain.activeThreadIds
  results : ∀ finished, finished ∈ state.finished → finished.Correct
  returns : ∀ thread call before loop stage, state.pc thread = .working call before loop stage → Alone state thread →
    ∃ steps final, run step state (List.replicate steps (.advance thread)) = some final ∧ final.pc thread = .idle

theorem Inv.maintained {state : State} (inv : Inv state) : Maintained state := by
  refine ⟨inv.nodup,fun free core => ?_,fun free level tasks found core => ?_,inv.results,
    fun thread call before loop stage here alone => Registration.returns inv here alone⟩
  · have agree := inv.quiet (fun thread => inv.locked.not_held (by simp [Threads.free,free]) thread) core
    rw [agree,active,decide_eq_true_iff]
  · have unlocked (thread : Thread) : (state.pc thread).updating = false := by
      rw [Bool.eq_false_iff]
      intro updating
      exact inv.locked.not_held (by simp [Threads.free,free]) thread (Pc.updating_locks updating)
    have agree : (tasks.getThreadQueue core).isSome = active state.domain core :=
      inv.registered unlocked level tasks found core
    rw [agree,active,decide_eq_true_iff]

/-- Any run that begins with the construction of the scheduler. -/
theorem maintained_of_run (cores env : Nat) (constructor : Thread) (actions : List Action) (final : State)
    (ran : run step (State.initial cores) (.call constructor (.setThreadCount (threadCount cores env)) :: actions) =
      some final) : Maintained final :=
  (invariant_of_run Inv (fun _ _ _ inv stepped => inv_step inv stepped) (inv_initial cores) ran).maintained

section Sample

def middlePriority : Priority := ⟨0,Priority.least_zero,Priority.zero_most⟩

def lazyActions : List Action :=
  Action.call 0 (.setThreadCount (threadCount 1 0)) :: List.replicate 4 (Action.advance 0) ++
    Action.putTask 1 ⟨0,middlePriority⟩ (-1) :: List.replicate 8 (Action.advance 1)

theorem maintained_lazy : ∃ final, run step (State.initial 1) lazyActions = some final ∧
    ((final.domain.priorities 16).tasks.isSome = true ∧ final.threads.holder (.priority 1) = some 0) ∧
    Maintained final := by
  have evaluated : (run step (State.initial 1) lazyActions).any (fun final =>
      decide ((final.domain.priorities 16).tasks.isSome = true ∧ final.threads.holder (.priority 1) = some 0)) = true := by
    decide +kernel
  obtain ⟨final,ran,test⟩ := (Option.any_eq_true _ _).mp evaluated
  exact ⟨final,ran,of_decide_eq_true test,maintained_of_run 1 0 0 _ final ran⟩

end Sample
end Pgasus.Registration
