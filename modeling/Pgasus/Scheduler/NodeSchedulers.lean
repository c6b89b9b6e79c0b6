import Pgasus.Scheduler.Delivery

/-! The schedulers of all nodes with the global domain that they share. A thread is
in one domain at a time: `Scheduler::try_get_task` looks into the domain of its own
node and, when that gave no task, into the global one. -/
namespace Pgasus.Scheduler
open Totals Runs

inductive Purpose
  | put
  | get
  | change
deriving DecidableEq

def Pc.purpose : Pc → Option Purpose
  | .idle => none
  | .putTest _ _ => some .put
  | .putLock _ _ => some .put
  | .putRetest _ _ => some .put
  | .putReset _ _ => some .put
  | .putLockActive _ _ => some .put
  | .putPublish _ _ _ => some .put
  | .putUnlockActive _ _ => some .put
  | .putUnlock _ _ => some .put
  | .putLoad _ _ => some .put
  | .putPush _ _ => some .put
  | .putCount _ => some .put
  | .putHead _ => some .put
  | .putRaise _ _ => some .put
  | .getHead _ => some .get
  | .getCount _ _ => some .get
  | .getOwn _ _ => some .get
  | .getOwnPop _ _ _ => some .get
  | .getGlobal _ _ => some .get
  | .getStart _ _ => some .get
  | .getSteal _ _ _ _ => some .get
  | .getStealPop _ _ _ _ _ => some .get
  | .getTaken _ _ => some .get
  | .lock _ _ => some .change
  | .visit _ _ => some .change
  | .clear _ _ _ => some .change
  | .drain _ _ _ => some .change
  | .move _ _ _ _ => some .change
  | .record _ => some .change
  | .unlockActive _ => some .change
  | .unlock _ _ => some .change

/-- A worker thread, by the node of its scheduler and its `id()`. -/
structure Worker where
  node : Nat
  id : Int
deriving DecidableEq

inductive Errand
  | put
  | get (worker : Worker)
  | change

def Errand.purpose : Errand → Purpose
  | .put => .put
  | .get _ => .get
  | .change => .change

/-- Where a thread is. The global domain is `none`; a worker that has `missed`
found no task in the domain of its node. -/
inductive Spot
  | outside
  | inside (domain : Option Nat) (errand : Errand)
  | missed (worker : Worker)

def Spot.isOutside : Spot → Bool
  | .outside => true
  | _ => false

/-- Where a task is: `_scheduler` and `_home_thread` are those of the worker that
holds it or held it last. -/
inductive Place
  | fresh
  | queued (domain : Option Nat)
  | held (worker : Worker)
deriving DecidableEq

def Place.node : Place → Option Nat
  | .fresh => none
  | .queued domain => domain
  | .held worker => some worker.node

def Place.waiting : Place → Nat
  | .queued _ => 1
  | _ => 0

/-- `given` records the tasks that `Scheduler::try_get_task` has returned and to
whom, `spawned` the first `put_task` of each task with its domain, and `puts` all. -/
structure System where
  domains : Option Nat → State
  spots : Nat → Spot
  places : Task → Place
  spawned : List (Task × Option Nat)
  puts : List Task
  given : List (Task × Worker)

def System.start (cpuCounts : Option Nat → Nat) (threads : Nat) : System where
  domains domain := .start (cpuCounts domain) threads
  spots _ := .outside
  places _ := .fresh
  spawned := []
  puts := []
  given := []

inductive Request
  | spawnTask (scheduler : Option Nat) (task : Task)
  | putTask (node : Nat) (task : Task) (thid : Int)
  | tryGetTask
  | change (node : Nat) (change : Change)

inductive Move
  | request (thread : Nat) (request : Request)
  | advance (thread choice : Nat)

namespace System

variable (system : System)

def setDomain (domain : Option Nat) (state : State) : System :=
  {system with domains := Function.update system.domains domain state}

def setSpot (thread : Nat) (spot : Spot) : System :=
  {system with spots := Function.update system.spots thread spot}

def enter (thread : Nat) (domain : Option Nat) (errand : Errand) (call : Call) : Option System :=
  (step (system.domains domain) (.call thread call)).map fun next =>
    (system.setDomain domain next).setSpot thread (.inside domain errand)

def queue (task : Task) (domain : Option Nat) : System :=
  {system with places := Function.update system.places task (.queued domain), puts := task::system.puts}

def spawn (task : Task) (domain : Option Nat) : System :=
  {system.queue task domain with spawned := (task,domain)::system.spawned}

def give (task : Task) (worker : Worker) : System :=
  {system with places := Function.update system.places task (.held worker), given := (task,worker)::system.given}

/-- What follows a step of a call: its caller takes a task that was found, and looks
into the global domain after the one of its node. -/
def follow (thread : Nat) (domain : Option Nat) (errand : Errand) (pc : Pc) (returned : Bool) : System :=
  match errand,pc with
  | .get worker,.getTaken _ task => (system.give task worker).setSpot thread .outside
  | .get worker,_ =>
    if returned then system.setSpot thread (if domain.isSome then .missed worker else .outside) else system
  | _,_ => if returned then system.setSpot thread .outside else system

/-- The `thid` of `spawn_task`, for the worker that calls it, if one does. -/
def spawnThid (worker : Option Worker) : Option Nat → Int
  | none => -1
  | some node =>
    match worker with
    | some worker => if worker.node = node then worker.id else -1
    | none => -1

/-- `workers` is `curr_worker_thread()` of each thread. `put_task` is called for a
new task by `onceForEachNode` and `forEachThread`, and by `Task::notify` and
`Task::yield` on the `_scheduler` of a task that was taken. -/
def request (workers : Nat → Option Worker) (thread : Nat) : Request → Option System
  | .spawnTask scheduler task =>
    if system.places task = .fresh then
      (system.spawn task scheduler).enter thread scheduler .put (.putTask task (spawnThid (workers thread) scheduler))
    else none
  | .putTask node task thid =>
    match system.places task with
    | .fresh => (system.spawn task (some node)).enter thread (some node) .put (.putTask task thid)
    | .queued _ => none
    | .held worker =>
      if worker.node = node then (system.queue task (some node)).enter thread (some node) .put (.putTask task thid)
      else none
  | .tryGetTask =>
    match workers thread with
    | none => none
    | some worker => system.enter thread (some worker.node) (.get worker) (.tryGetTask worker.id)
  | .change node change => system.enter thread (some node) .change (.change change)

def step (workers : Nat → Option Worker) (system : System) : Move → Option System
  | .request thread request =>
    match system.spots thread with
    | .outside => system.request workers thread request
    | _ => none
  | .advance thread choice =>
    match system.spots thread with
    | .outside => none
    | .missed worker => system.enter thread none (.get worker) (.tryGetTask (-1))
    | .inside domain errand =>
      match (system.domains domain).threads[thread]? with
      | none => none
      | some pc =>
        (Scheduler.step (system.domains domain) (.advance thread choice)).map fun next =>
          (system.setDomain domain next).follow thread domain errand pc ((next.threads[thread]?).any Pc.isIdle)

end System

section Purposes

variable {shared changed : Shared} {choice : Nat} {pc next : Pc}

theorem tryPopFront_purpose {level queue : Nat} {taken : Task → Pc} {missed : Pc} {purpose : Option Purpose}
    (popped : shared.tryPopFront level queue taken missed = some (changed,next))
    (taken_ : ∀ task, (taken task).purpose = purpose) (missed_ : missed.purpose = purpose) : next.purpose = purpose := by
  obtain ⟨_,_,⟨task,_,_,_,rfl⟩ | ⟨_,_,rfl⟩⟩ := Shared.tryPopFront_some popped
  · exact taken_ task
  · exact missed_

theorem map_purpose {Value : Type} {value : Option Value} {pair : Value → Shared × Pc} {purpose : Option Purpose}
    (mapped : value.map pair = some (changed,next)) (same : ∀ value, (pair value).2.purpose = purpose) :
    next.purpose = purpose := by
  obtain ⟨value,_,equal⟩ := Option.map_eq_some_iff.mp mapped
  rw [← same value,equal]

theorem idle_of_any {pc : Option Pc} (idle : pc.any Pc.isIdle = true) : pc = some .idle := by
  obtain ⟨pc,rfl,idle⟩ := (Option.any_eq_true _ _).mp idle
  cases pc <;> first | rfl | cases idle

theorem act_purpose (acted : act shared choice pc = some (changed,next)) : next = .idle ∨ next.purpose = pc.purpose := by
  cases pc with
  | getOwnPop => exact .inr (tryPopFront_purpose acted (fun _ => rfl) rfl)
  | getGlobal => exact .inr (tryPopFront_purpose acted (fun _ => rfl) rfl)
  | getStealPop => exact .inr (tryPopFront_purpose acted (fun _ => rfl) rfl)
  | drain => exact .inr (tryPopFront_purpose acted (fun _ => rfl) rfl)
  | putPush => exact .inr (map_purpose acted fun _ => rfl)
  | clear => exact .inr (map_purpose acted fun _ => rfl)
  | move => exact .inr (map_purpose acted fun _ => rfl)
  | visit change level =>
    rw [act] at acted
    split at acted
    · split at acted
      · cases acted
        exact .inr rfl
      · cases change with
        | add => grind [Pc.purpose]
        | remove => exact .inr (map_purpose acted fun _ => rfl)
    · cases acted
      exact .inr rfl
  | getCount _ level => cases level <;> grind [act,Pc.purpose]
  | getSteal _ _ _ rounds => cases rounds <;> grind [act,Pc.purpose]
  | record change => cases change <;> grind [act,Pc.purpose]
  | _ => grind [act,Pc.purpose]

theorem Effect.got (effect : Effect shared pc changed next) (other : ∀ level task, pc ≠ .getTaken level task) :
    changed.got = shared.got := by
  cases effect with
  | give level task => exact absurd rfl (other level task)
  | _ => rfl

end Purposes

section Inversions

variable {state next : State} {thread choice : Nat}

theorem call_some {call : Call} (stepped : step state (.call thread call) = some next) :
    state.threads[thread]? = some .idle ∧ next = ⟨state.shared.called call,state.threads.set thread call.pc⟩ := by
  obtain ⟨_,_,same,found,rfl⟩ | ⟨_,_,_,_,_,same,_⟩ := step_cases stepped
  · cases same
    exact ⟨found,rfl⟩
  · cases same

theorem advance_some {pc : Pc} (found : state.threads[thread]? = some pc)
    (stepped : step state (.advance thread choice) = some next) :
    ∃ changed after, act state.shared choice pc = some (changed,after) ∧
      next = ⟨changed,state.threads.set thread after⟩ := by
  unfold step at stepped
  simp only [found] at stepped
  obtain ⟨⟨changed,after⟩,acted,rfl⟩ := Option.map_eq_some_iff.mp stepped
  exact ⟨changed,after,acted,rfl⟩

end Inversions

def Move.removes : Move → Bool
  | .request _ (.change _ (.remove _)) => true
  | _ => false

/-- The task is in a queue of its level that later calls look into. -/
def State.Waiting (state : State) (task : Task) : Prop :=
  ∃ tasks queue, state.shared.collection task.level = some tasks ∧ tasks.Reached queue ∧ task ∈ tasks.queues queue

namespace System

def LivePush (system : System) : Move → Prop
  | .request _ _ => True
  | .advance thread choice => ∀ domain errand, system.spots thread = .inside domain errand →
    Scheduler.LivePush (system.domains domain) (.advance thread choice)

section Steps

variable {system next : System} {workers : Nat → Option Worker} {thread : Nat} {domain : Option Nat} {move : Move}

@[simp] theorem domains_setDomain (state : State) :
    (system.setDomain domain state).domains = Function.update system.domains domain state := rfl

@[simp] theorem domains_setSpot (spot : Spot) : (system.setSpot thread spot).domains = system.domains := rfl

@[simp] theorem domains_give (task : Task) (worker : Worker) : (system.give task worker).domains = system.domains := rfl

@[simp] theorem domains_follow (errand : Errand) (pc : Pc) (returned : Bool) :
    (system.follow thread domain errand pc returned).domains = system.domains := by
  unfold follow
  split <;> [rfl; (split <;> rfl); (split <;> rfl)]

theorem enter_some {errand : Errand} {call : Call} (entered : system.enter thread domain errand call = some next) :
    ∃ state, Scheduler.step (system.domains domain) (.call thread call) = some state ∧
      next = (system.setDomain domain state).setSpot thread (.inside domain errand) := by
  obtain ⟨state,stepped,rfl⟩ := Option.map_eq_some_iff.mp entered
  exact ⟨state,stepped,rfl⟩

theorem step_domain (stepped : system.step workers move = some next) :
    ∃ domain action state, Scheduler.step (system.domains domain) action = some state ∧
      next.domains = Function.update system.domains domain state ∧ action.removes = move.removes ∧
      (system.LivePush move → Scheduler.LivePush (system.domains domain) action) := by
  have entered {before : System} {thread : Nat} {domain : Option Nat} {errand : Errand} {call : Call}
      (entered : before.enter thread domain errand call = some next) (same : before.domains = system.domains)
      (removes : (Action.call thread call).removes = move.removes) :
      ∃ domain action state, Scheduler.step (system.domains domain) action = some state ∧
        next.domains = Function.update system.domains domain state ∧ action.removes = move.removes ∧
        (system.LivePush move → Scheduler.LivePush (system.domains domain) action) := by
    obtain ⟨state,called,rfl⟩ := enter_some entered
    rw [same] at called
    refine ⟨domain,_,state,called,?_,removes,fun _ => trivial⟩
    rw [domains_setSpot,domains_setDomain,same]
  cases move with
  | request thread request =>
    unfold step at stepped
    dsimp only at stepped
    split at stepped
    · unfold System.request at stepped
      cases request with
      | spawnTask scheduler task =>
        dsimp only at stepped
        split at stepped
        · exact entered stepped rfl rfl
        · cases stepped
      | putTask node task thid =>
        dsimp only at stepped
        split at stepped
        · exact entered stepped rfl rfl
        · cases stepped
        · split at stepped
          · exact entered stepped rfl rfl
          · cases stepped
      | tryGetTask =>
        dsimp only at stepped
        split at stepped
        · cases stepped
        · exact entered stepped rfl rfl
      | change node made => cases made <;> exact entered stepped rfl rfl
    · cases stepped
  | advance thread choice =>
    unfold step at stepped
    dsimp only at stepped
    split at stepped
    · cases stepped
    · exact entered stepped rfl rfl
    next domain errand inside =>
      split at stepped
      · cases stepped
      · obtain ⟨state,advanced,rfl⟩ := Option.map_eq_some_iff.mp stepped
        exact ⟨domain,_,state,advanced,by rw [domains_follow,domains_setDomain],rfl,fun live => live domain errand inside⟩

end Steps

theorem domain_run {workers : Nat → Option Worker} {cpuCounts : Option Nat → Nat} {threads : Nat} {moves : List Move}
    {final : System} (ran : run (step workers) (.start cpuCounts threads) moves = some final) (domain : Option Nat) :
    ∃ actions, run Scheduler.step (.start (cpuCounts domain) threads) actions = some (final.domains domain) ∧
      ((∀ move ∈ moves, move.removes = false) → ∀ action ∈ actions, action.removes = false) := by
  let fixed := ∀ move ∈ moves, move.removes = false
  have meets : Meets (step workers) (fun _ move => fixed → move.removes = false) (.start cpuCounts threads) moves :=
    meets_of_forall fun move member _ all => all move member
  refine invariant_of_meets (fun system => ∀ domain, ∃ actions,
    run Scheduler.step (.start (cpuCounts domain) threads) actions = some (system.domains domain) ∧
      (fixed → ∀ action ∈ actions, action.removes = false)) ?_ ?_ meets ran domain
  · intro system move next holds keeps stepped domain
    obtain ⟨changed,action,state,stepped,same,removes,-⟩ := step_domain stepped
    obtain ⟨actions,ran,kept⟩ := holds domain
    rw [same]
    by_cases equal : domain = changed
    · subst equal
      refine ⟨actions ++ [action],?_,?_⟩
      · rw [run_append,ran,Function.update_self]
        simpa [run_cons] using stepped
      · intro fixed another member
        obtain before | last := List.mem_append.mp member
        · exact kept fixed another before
        · rw [List.mem_singleton.mp last,removes]
          exact keeps fixed
    · rw [Function.update_of_ne equal]
      exact ⟨actions,ran,kept⟩
  · intro domain
    exact ⟨[],rfl,fun _ _ member => absurd member List.not_mem_nil⟩

inductive Moved (system : System) : System → Prop
  | put {prepared : System} (thread : Nat) (task : Task) (domain : Option Nat) (thid : Int) (state : State) :
      system.spots thread = .outside →
      Scheduler.step (system.domains domain) (.call thread (.putTask task thid)) = some state →
      (system.places task = .fresh ∧ prepared = system.spawn task domain ∨
        ∃ worker, system.places task = .held worker ∧ domain = some worker.node ∧ prepared = system.queue task domain) →
      Moved system ((prepared.setDomain domain state).setSpot thread (.inside domain .put))
  | enter (thread : Nat) (domain : Option Nat) (errand : Errand) (call : Call) (state : State) :
      (∀ domain errand, system.spots thread ≠ .inside domain errand) →
      Scheduler.step (system.domains domain) (.call thread call) = some state →
      (∀ shared : Shared, shared.called call = shared) → call.pc.purpose = some errand.purpose →
      (∀ worker, errand = .get worker → domain = none ∨ domain = some worker.node) →
      Moved system ((system.setDomain domain state).setSpot thread (.inside domain errand))
  | take (thread choice : Nat) (domain : Option Nat) (worker : Worker) (level : Nat) (task : Task) (state : State) :
      system.spots thread = .inside domain (.get worker) →
      (system.domains domain).threads[thread]? = some (.getTaken level task) →
      Scheduler.step (system.domains domain) (.advance thread choice) = some state →
      Moved system (((system.setDomain domain state).give task worker).setSpot thread .outside)
  | advance (thread choice : Nat) (domain : Option Nat) (errand : Errand) (pc : Pc) (state : State) (spot : Spot) :
      system.spots thread = .inside domain errand → (system.domains domain).threads[thread]? = some pc →
      (∀ level task, pc ≠ .getTaken level task) →
      Scheduler.step (system.domains domain) (.advance thread choice) = some state →
      (spot = .inside domain errand ∨ state.threads[thread]? = some .idle ∧ ∀ domain errand, spot ≠ .inside domain errand) →
      Moved system ((system.setDomain domain state).setSpot thread spot)

structure Busy (system : System) : Prop where
  calls : ∀ domain thread pc, (system.domains domain).threads[thread]? = some pc →
    pc = .idle ∨ ∃ errand, system.spots thread = .inside domain errand ∧ pc.purpose = some errand.purpose
  own : ∀ thread domain worker, system.spots thread = .inside domain (.get worker) →
    domain = none ∨ domain = some worker.node

section Moves

variable {system next : System} {workers : Nat → Option Worker} {move : Move}

theorem setSpot_same {thread : Nat} {spot : Spot} (same : system.spots thread = spot) :
    system.setSpot thread spot = system := by
  unfold setSpot
  rw [← same,Function.update_eq_self]

theorem Busy.moved (busy : system.Busy) (stepped : system.step workers move = some next) : Moved system next := by
  cases move with
  | request thread request =>
    unfold step at stepped
    dsimp only at stepped
    split at stepped
    next outside =>
      have free (domain : Option Nat) (errand : Errand) : system.spots thread ≠ .inside domain errand := by
        rw [outside]
        exact Spot.noConfusion
      unfold System.request at stepped
      cases request with
      | spawnTask scheduler task =>
        dsimp only at stepped
        split at stepped
        next fresh =>
          obtain ⟨state,called,rfl⟩ := enter_some stepped
          exact .put thread task scheduler _ state outside called (.inl ⟨fresh,rfl⟩)
        · cases stepped
      | putTask node task thid =>
        dsimp only at stepped
        split at stepped
        next fresh =>
          obtain ⟨state,called,rfl⟩ := enter_some stepped
          exact .put thread task (some node) thid state outside called (.inl ⟨fresh,rfl⟩)
        · cases stepped
        next worker held =>
          split at stepped
          next same =>
            obtain ⟨state,called,rfl⟩ := enter_some stepped
            exact .put thread task (some node) thid state outside called (.inr ⟨worker,held,congrArg some same.symm,rfl⟩)
          · cases stepped
      | tryGetTask =>
        dsimp only at stepped
        split at stepped
        · cases stepped
        next worker _ =>
          obtain ⟨state,called,rfl⟩ := enter_some stepped
          refine .enter thread _ _ _ state free called (fun _ => rfl) rfl ?_
          intro other same
          cases same
          exact .inr rfl
      | change node made =>
        obtain ⟨state,called,rfl⟩ := enter_some stepped
        refine .enter thread _ _ _ state free called (fun _ => rfl) rfl ?_
        intro other same
        cases same
    · cases stepped
  | advance thread choice =>
    unfold step at stepped
    dsimp only at stepped
    split at stepped
    · cases stepped
    next worker missed =>
      obtain ⟨state,called,rfl⟩ := enter_some stepped
      refine .enter thread _ _ _ state ?_ called (fun _ => rfl) rfl (fun _ _ => .inl rfl)
      intro domain errand
      rw [missed]
      exact Spot.noConfusion
    next domain errand inside =>
      split at stepped
      · cases stepped
      next pc found =>
        obtain ⟨state,advanced,rfl⟩ := Option.map_eq_some_iff.mp stepped
        by_cases taken : ∃ level task, pc = .getTaken level task
        · obtain ⟨level,task,rfl⟩ := taken
          -- only a `try_get_task` takes
          obtain idle | ⟨known,same,purpose⟩ := busy.calls domain thread _ found
          · cases idle
          · obtain rfl : errand = known := by
              rw [inside] at same
              cases same
              rfl
            cases errand with
            | get worker => exact .take thread choice domain worker level task state inside found advanced
            | put => cases purpose
            | change => cases purpose
        · have taken : ∀ level task, pc ≠ .getTaken level task := fun level task same => taken ⟨level,task,same⟩
          have stays : (system.setDomain domain state).setSpot thread (.inside domain errand) =
              system.setDomain domain state := setSpot_same inside
          unfold follow
          split
          · exact absurd rfl (taken _ _)
          · split
            next returned =>
              refine .advance thread choice domain _ pc state _ inside found taken advanced (.inr ⟨idle_of_any returned,?_⟩)
              intro domain' errand'
              split <;> exact Spot.noConfusion
            · rw [← stays]
              exact .advance thread choice domain _ pc state _ inside found taken advanced (.inl rfl)
          · split
            next returned =>
              refine .advance thread choice domain _ pc state _ inside found taken advanced (.inr ⟨idle_of_any returned,?_⟩)
              exact fun _ _ => Spot.noConfusion
            · rw [← stays]
              exact .advance thread choice domain _ pc state _ inside found taken advanced (.inl rfl)

theorem Busy.start (cpuCounts : Option Nat → Nat) (threads : Nat) : (start cpuCounts threads).Busy := by
  constructor
  · intro domain thread pc found
    exact .inl (List.mem_replicate.mp (List.mem_of_getElem? found)).2
  · intro thread domain worker inside
    cases inside

theorem Busy.set (busy : system.Busy) {thread : Nat} {domain : Option Nat} {state : State} (pc : Pc) (spot : Spot)
    (away : ∀ other errand, system.spots thread = .inside other errand → other = domain)
    (threads : state.threads = (system.domains domain).threads.set thread pc)
    (agrees : pc = .idle ∨ ∃ errand, spot = .inside domain errand ∧ pc.purpose = some errand.purpose)
    (own : ∀ other worker, spot = .inside other (.get worker) → other = none ∨ other = some worker.node)
    (domains : next.domains = Function.update system.domains domain state)
    (spots : next.spots = Function.update system.spots thread spot) : next.Busy := by
  constructor
  · intro other position point found
    rw [domains] at found
    rw [spots]
    by_cases here : other = domain
    · subst here
      rw [Function.update_self,threads] at found
      by_cases same : position = thread
      · subst same
        rw [Function.update_self]
        have bound := (List.getElem?_eq_some_iff.mp found).1
        rw [List.length_set] at bound
        rw [List.getElem?_set_self bound] at found
        cases found
        exact agrees
      · rw [List.getElem?_set_ne (Ne.symm same)] at found
        rw [Function.update_of_ne same]
        exact busy.calls other position point found
    · rw [Function.update_of_ne here] at found
      obtain idle | ⟨errand,inside,purpose⟩ := busy.calls other position point found
      · exact .inl idle
      · have different : position ≠ thread := by
          rintro rfl
          exact here (away other errand inside)
        rw [Function.update_of_ne different]
        exact .inr ⟨errand,inside,purpose⟩
  · intro position other worker inside
    rw [spots] at inside
    by_cases same : position = thread
    · rw [same,Function.update_self] at inside
      exact own other worker inside
    · rw [Function.update_of_ne same] at inside
      exact busy.own position other worker inside

theorem Busy.keeps (busy : system.Busy) (moved : Moved system next) : next.Busy := by
  cases moved with
  | @put prepared thread task domain thid state outside called way =>
    obtain ⟨_,after⟩ := call_some called
    have same : prepared.domains = system.domains ∧ prepared.spots = system.spots := by
      obtain ⟨_,rfl⟩ | ⟨_,_,_,rfl⟩ := way <;> exact ⟨rfl,rfl⟩
    apply busy.set (.putTest task thid) (.inside domain .put) _ (congrArg State.threads after) (.inr ⟨.put,rfl,rfl⟩) _ _ _
    · intro other errand inside
      rw [outside] at inside
      cases inside
    · intro other worker inside
      cases inside
    · rw [domains_setSpot,domains_setDomain,same.1]
    · unfold setSpot setDomain
      dsimp only
      rw [same.2]
  | enter thread domain errand call state free called shared purpose own =>
    obtain ⟨_,rfl⟩ := call_some called
    apply busy.set call.pc (.inside domain errand) _ rfl (.inr ⟨errand,rfl,purpose⟩) _ rfl rfl
    · exact fun other errand inside => absurd inside (free other errand)
    · intro other worker inside
      cases inside
      exact own worker rfl
  | take thread choice domain worker level task state inside found advanced =>
    obtain ⟨changed,after,acted,rfl⟩ := advance_some found advanced
    obtain ⟨rfl,rfl⟩ := Prod.mk.inj (Option.some.inj acted)
    apply busy.set .idle .outside _ rfl (.inl rfl) _ rfl rfl
    · intro other errand elsewhere
      rw [inside] at elsewhere
      cases elsewhere
      rfl
    · intro other worker inside
      cases inside
  | advance thread choice domain errand pc state spot inside found taken advanced way =>
    obtain ⟨changed,after,acted,rfl⟩ := advance_some found advanced
    have bound := (List.getElem?_eq_some_iff.mp found).1
    apply busy.set after spot _ rfl _ _ rfl rfl
    · intro other errand elsewhere
      rw [inside] at elsewhere
      cases elsewhere
      rfl
    · obtain rfl | ⟨idle,_⟩ := way
      · obtain rfl | purpose := act_purpose acted
        · exact .inl rfl
        · obtain rfl | ⟨known,same,was⟩ := busy.calls domain thread pc found
          · cases acted
          · rw [inside] at same
            cases same
            exact .inr ⟨errand,rfl,purpose.trans was⟩
      · rw [List.getElem?_set_self bound] at idle
        exact .inl (Option.some.inj idle)
    · intro other worker at_
      obtain rfl | ⟨_,away⟩ := way
      · exact busy.own thread other worker (inside.trans at_)
      · exact absurd at_ (away _ _)

def Placed (system : System) : Prop :=
  ∀ domain task, (system.domains domain).shared.begun.count task =
    (system.domains domain).shared.got.count task + if system.places task = .queued domain then 1 else 0

theorem Placed.start (cpuCounts : Option Nat → Nat) (threads : Nat) : (start cpuCounts threads).Placed := by
  intro domain task
  rfl

theorem Placed.queued_of_taken (placed : system.Placed) (invs : ∀ domain, Inv (system.domains domain))
    {domain : Option Nat} {thread level : Nat} {task : Task}
    (found : (system.domains domain).threads[thread]? = some (.getTaken level task)) :
    system.places task = .queued domain := by
  have conserved := (invs domain).conserved task
  have carried := weight_le_total (Pc.carries task) found
  have carries : Pc.carries task (.getTaken level task) = 1 := if_pos rfl
  have count := placed domain task
  by_contra different
  rw [if_neg different] at count
  omega

theorem Placed.keeps (placed : system.Placed) (invs : ∀ domain, Inv (system.domains domain))
    (moved : Moved system next) : next.Placed := by
  have unchanged (domain : Option Nat) (state : State)
      (begun : state.shared.begun = (system.domains domain).shared.begun)
      (got : state.shared.got = (system.domains domain).shared.got) : (system.setDomain domain state).Placed := by
    intro other task
    rw [domains_setDomain]
    by_cases here : other = domain
    · rw [here,Function.update_self,begun,got]
      exact placed domain task
    · rw [Function.update_of_ne here]
      exact placed other task
  cases moved with
  | @put prepared thread task domain thid state outside called way =>
    obtain ⟨_,rfl⟩ := call_some called
    have was : ∀ other, system.places task ≠ .queued other := by
      intro other
      obtain ⟨fresh,_⟩ | ⟨_,held,_⟩ := way
      · rw [fresh]
        exact Place.noConfusion
      · rw [held]
        exact Place.noConfusion
    have same : prepared.domains = system.domains ∧ prepared.places = Function.update system.places task (.queued domain) := by
      obtain ⟨_,rfl⟩ | ⟨_,_,_,rfl⟩ := way <;> exact ⟨rfl,rfl⟩
    intro other another
    rw [domains_setSpot,domains_setDomain,same.1]
    change _ = _ + if prepared.places another = .queued other then 1 else 0
    rw [same.2]
    have count := placed other another
    by_cases equal : another = task
    · subst equal
      rw [if_neg (was other)] at count
      rw [Function.update_self]
      by_cases here : other = domain
      · subst here
        rw [Function.update_self,if_pos rfl]
        change List.count another (another::_) = _
        rw [List.count_cons_self,count]
        rfl
      · rw [Function.update_of_ne here,if_neg (by simpa using Ne.symm here),count]
    · rw [Function.update_of_ne equal]
      by_cases here : other = domain
      · subst here
        rw [Function.update_self]
        change List.count another (task::_) = _
        rw [List.count_cons_of_ne (Ne.symm equal)]
        exact count
      · rw [Function.update_of_ne here]
        exact count
  | enter thread domain errand call state free called shared purpose own =>
    obtain ⟨_,rfl⟩ := call_some called
    rw [shared]
    exact unchanged domain _ rfl rfl
  | take thread choice domain worker level task state inside found advanced =>
    have queued := placed.queued_of_taken invs found
    obtain ⟨changed,after,acted,rfl⟩ := advance_some found advanced
    obtain ⟨rfl,rfl⟩ := Prod.mk.inj (Option.some.inj acted)
    intro other another
    rw [domains_setSpot,domains_give,domains_setDomain]
    change _ = _ + if Function.update system.places task (.held worker) another = .queued other then 1 else 0
    have count := placed other another
    by_cases equal : another = task
    · subst equal
      rw [Function.update_self,if_neg Place.noConfusion]
      by_cases here : other = domain
      · subst here
        rw [queued,if_pos rfl] at count
        rw [Function.update_self]
        change List.count another (system.domains other).shared.begun = List.count another (another::_) + 0
        rw [count,List.count_cons_self]
        rfl
      · rw [queued,if_neg (by simpa using Ne.symm here)] at count
        rw [Function.update_of_ne here,count]
    · rw [Function.update_of_ne equal]
      by_cases here : other = domain
      · subst here
        rw [Function.update_self]
        change List.count another (system.domains other).shared.begun = List.count another (task::_) + _
        rw [count,List.count_cons_of_ne (Ne.symm equal)]
        rfl
      · rw [Function.update_of_ne here]
        exact count
  | advance thread choice domain errand pc state spot inside found taken advanced way =>
    obtain ⟨changed,after,acted,rfl⟩ := advance_some found advanced
    have effect := act_effect acted
    exact unchanged domain _ effect.begun (effect.got taken)

structure Routed (system : System) : Prop where
  given : ∀ task worker, (task,worker) ∈ system.given → (system.places task).node = some worker.node
  spawned : ∀ task node, (task,some node) ∈ system.spawned → (system.places task).node = some node
  puts : ∀ task, system.puts.count task =
    (system.given.map Prod.fst).count task + (system.places task).waiting

theorem Routed.start (cpuCounts : Option Nat → Nat) (threads : Nat) : (start cpuCounts threads).Routed := by
  constructor
  · intro task worker member
    cases member
  · intro task node member
    cases member
  · exact fun _ => rfl

theorem Routed.keeps (routed : system.Routed) (busy : system.Busy) (placed : system.Placed)
    (invs : ∀ domain, Inv (system.domains domain)) (moved : Moved system next) : next.Routed := by
  -- a task that moves keeps its node, and the other tasks stay where they are
  have kept {task : Task} {place : Place} (node : ∀ node, (system.places task).node = some node → place.node = some node)
      (another : Task) (number : Nat) (at_ : (system.places another).node = some number) :
      (Function.update system.places task place another).node = some number := by
    by_cases equal : another = task
    · subst equal
      rw [Function.update_self]
      exact node number at_
    · rw [Function.update_of_ne equal]
      exact at_
  have counted {task : Task} {domain : Option Nat} (was : (system.places task).waiting = 0) (another : Task) :
      List.count another (task::system.puts) = List.count another (system.given.map Prod.fst) +
        (Function.update system.places task (.queued domain) another).waiting := by
    have count := routed.puts another
    by_cases equal : another = task
    · subst equal
      rw [was] at count
      rw [Function.update_self,List.count_cons_self,count]
      rfl
    · rw [Function.update_of_ne equal,List.count_cons_of_ne (Ne.symm equal)]
      exact count
  cases moved with
  | put thread task domain thid state outside called way =>
    obtain ⟨fresh,rfl⟩ | ⟨worker,held,rfl,rfl⟩ := way
    · have node (number : Nat) (at_ : (system.places task).node = some number) :
          (Place.queued domain).node = some number := by
        rw [fresh] at at_
        cases at_
      refine ⟨fun another worker member => kept node another _ (routed.given another worker member),?_,
        counted (by rw [fresh]; rfl)⟩
      intro another number member
      obtain same | member := List.mem_cons.mp member
      · cases same
        change (Function.update system.places task (.queued (some number)) task).node = _
        rw [Function.update_self]
        rfl
      · exact kept node another number (routed.spawned another number member)
    · have node (number : Nat) (at_ : (system.places task).node = some number) :
          (Place.queued (some worker.node)).node = some number := by
        rw [held] at at_
        exact at_
      exact ⟨fun another worker member => kept node another _ (routed.given another worker member),
        fun another number member => kept node another number (routed.spawned another number member),
        counted (by rw [held]; rfl)⟩
  | enter => exact ⟨routed.given,routed.spawned,routed.puts⟩
  | take thread choice domain worker level task state inside found advanced =>
    have queued := placed.queued_of_taken invs found
    have node (number : Nat) (at_ : (system.places task).node = some number) : (Place.held worker).node = some number := by
      rw [queued] at at_
      obtain rfl | rfl := busy.own thread domain worker inside
      · cases at_
      · exact at_
    refine ⟨?_,fun another number member => kept node another number (routed.spawned another number member),?_⟩
    · intro another other member
      obtain same | member := List.mem_cons.mp member
      · cases same
        change (Function.update system.places task (.held worker) task).node = _
        rw [Function.update_self]
        rfl
      · exact kept node another _ (routed.given another other member)
    · intro another
      have count := routed.puts another
      change List.count another system.puts = List.count another (task::system.given.map Prod.fst) +
        (Function.update system.places task (.held worker) another).waiting
      by_cases equal : another = task
      · subst equal
        rw [queued] at count
        rw [Function.update_self,List.count_cons_self,count]
        rfl
      · rw [Function.update_of_ne equal,List.count_cons_of_ne (Ne.symm equal)]
        exact count
  | advance => exact ⟨routed.given,routed.spawned,routed.puts⟩

end Moves

def Quiet (threads : Nat) (system : System) : Prop := ∀ thread, thread < threads → system.spots thread = .outside

def isQuiet (threads : Nat) (system : System) : Bool :=
  (List.range threads).all fun thread => (system.spots thread).isOutside

theorem quiet_of_isQuiet {threads : Nat} {system : System} (quiet : system.isQuiet threads = true) :
    system.Quiet threads := by
  intro thread small
  have outside := List.all_eq_true.mp quiet thread (List.mem_range.mpr small)
  cases spot : system.spots thread <;> rw [spot] at outside <;> first | rfl | cases outside

section Runs

variable {workers : Nat → Option Worker} {cpuCounts : Option Nat → Nat} {threads : Nat} {moves : List Move} {final : System}

theorem invs_run (ran : run (step workers) (.start cpuCounts threads) moves = some final) (domain : Option Nat) :
    Inv (final.domains domain) := by
  obtain ⟨actions,ran,_⟩ := domain_run ran domain
  exact inv_run ran

theorem threads_run (ran : run (step workers) (.start cpuCounts threads) moves = some final) (domain : Option Nat) :
    (final.domains domain).threads.length = threads := by
  obtain ⟨actions,ran,_⟩ := domain_run ran domain
  refine invariant_of_run (fun state : State => state.threads.length = threads) ?_ List.length_replicate ran
  intro state action next length stepped
  obtain ⟨_,_,_,_,rfl⟩ | ⟨_,_,_,_,_,_,_,_,rfl⟩ := step_cases stepped
  · exact List.length_set.trans length
  · exact List.length_set.trans length

theorem kept_run (ran : run (step workers) (.start cpuCounts threads) moves = some final) :
    final.Busy ∧ final.Placed ∧ final.Routed := by
  have kept : (∀ domain, Inv (final.domains domain)) ∧ final.Busy ∧ final.Placed ∧ final.Routed := by
    refine invariant_of_run (fun system : System => (∀ domain, Inv (system.domains domain)) ∧ system.Busy ∧
      system.Placed ∧ system.Routed) ?_ ⟨fun _ => .start _ _,.start _ _,.start _ _,.start _ _⟩ ran
    rintro system move next ⟨invs,busy,placed,routed⟩ stepped
    have moved := busy.moved stepped
    refine ⟨?_,busy.keeps moved,placed.keeps invs moved,routed.keeps busy placed invs moved⟩
    intro domain
    obtain ⟨changed,action,state,advanced,same,_⟩ := step_domain stepped
    rw [same]
    by_cases here : domain = changed
    · rw [here,Function.update_self]
      exact (invs changed).step advanced
    · rw [Function.update_of_ne here]
      exact invs domain
  exact kept.2

theorem Quiet.domain (quiet : final.Quiet threads)
    (ran : run (step workers) (.start cpuCounts threads) moves = some final) (domain : Option Nat) :
    (final.domains domain).Quiet := by
  intro pc member
  obtain ⟨thread,found⟩ := List.mem_iff_getElem?.mp member
  have small := (List.getElem?_eq_some_iff.mp found).1
  rw [threads_run ran] at small
  obtain idle | ⟨errand,inside,_⟩ := (kept_run ran).1.calls domain thread pc found
  · exact idle
  · rw [quiet thread small] at inside
    cases inside

theorem Quiet.queued_iff (quiet : final.Quiet threads)
    (ran : run (step workers) (.start cpuCounts threads) moves = some final) (task : Task) (domain : Option Nat) :
    final.places task = .queued domain ↔ task ∈ (final.domains domain).shared.held task.level := by
  have conserved := (invs_run ran domain).conserved task
  have count := (kept_run ran).2.1 domain task
  have nothing : total (Pc.carries task) (final.domains domain).threads = 0 := by
    rw [total_eq_zero]
    intro pc member
    rw [quiet.domain ran domain pc member]
    rfl
  rw [← List.count_pos_iff]
  by_cases queued : final.places task = .queued domain
  · rw [if_pos queued] at count
    exact iff_of_true queued (by omega)
  · rw [if_neg queued] at count
    exact iff_of_false queued (by omega)

/-- Where every push goes to a live queue, the tasks that are held are those that later calls find. -/
theorem reachable_run (live : Meets (step workers) LivePush (.start cpuCounts threads) moves)
    (ran : run (step workers) (.start cpuCounts threads) moves = some final) (domain : Option Nat) :
    (final.domains domain).Reachable := by
  refine (invariant_of_meets (fun system : System => ∀ domain, Inv (system.domains domain) ∧ (system.domains domain).Reachable)
    ?_ (fun _ => ⟨.start _ _,Scheduler.Reachable.start _ _⟩) live ran domain).2
  intro system move next holds live stepped domain
  obtain ⟨changed,action,state,advanced,same,-,pushes⟩ := step_domain stepped
  rw [same]
  by_cases here : domain = changed
  · obtain ⟨inv,reachable⟩ := holds changed
    rw [here,Function.update_self]
    exact ⟨inv.step advanced,reachable.step inv (pushes live) advanced⟩
  · rw [Function.update_of_ne here]
    exact holds domain

theorem Quiet.waiting_iff (quiet : final.Quiet threads) (live : Meets (step workers) LivePush (.start cpuCounts threads) moves)
    (ran : run (step workers) (.start cpuCounts threads) moves = some final) (task : Task) (domain : Option Nat) :
    final.places task = .queued domain ↔ (final.domains domain).Waiting task := by
  rw [quiet.queued_iff ran]
  constructor
  · intro member
    cases found : (final.domains domain).shared.collection task.level with
    | none => simp [Shared.held,found] at member
    | some tasks =>
      rw [Shared.held_of_some found] at member
      obtain ⟨queue,-,inside⟩ := Queues.mem_contents.mp member
      obtain ⟨stored,same,reached⟩ | ⟨pc,there,drains⟩ :=
        reachable_run live ran domain task.level tasks queue found (List.ne_nil_of_mem inside)
      · obtain rfl := Option.some.inj (same.symm.trans found)
        exact ⟨stored,queue,found,reached,inside⟩
      · rw [quiet.domain ran domain pc there] at drains
        exact drains.elim
  · rintro ⟨tasks,queue,found,reached,inside⟩
    have small := reached.constructed ((invs_run ran domain).formed task.level tasks found)
    rw [Shared.held_of_some found]
    exact Queues.mem_contents.mpr ⟨queue,List.mem_range.mpr small,inside⟩

/-- However the calls of all threads interleave: a task that was spawned on a node
is given to workers of that node only, also when it yields or waits, and one that was
spawned for all nodes to those of the node that took it first; each `put_task` leads
to at most one worker. Between the calls every task that is due is in a queue of its domain
that the workers look into, unless a push was late for `remove_thread`. -/
theorem tasks_stay (workers : Nat → Option Worker) (cpuCounts : Option Nat → Nat) (threads : Nat) (moves : List Move)
    (final : System) (ran : run (step workers) (.start cpuCounts threads) moves = some final) :
    (∀ task worker node, (task,worker) ∈ final.given → (task,some node) ∈ final.spawned → worker.node = node) ∧
    (∀ task worker other, (task,worker) ∈ final.given → (task,other) ∈ final.given → worker.node = other.node) ∧
    (∀ task, final.puts.count task = (final.given.map Prod.fst).count task + (final.places task).waiting) ∧
    (Meets (step workers) LivePush (.start cpuCounts threads) moves → final.Quiet threads → ∀ task domain,
      final.places task = .queued domain ↔ (final.domains domain).Waiting task) := by
  obtain ⟨_,_,routed⟩ := kept_run ran
  refine ⟨?_,?_,routed.puts,fun live quiet => quiet.waiting_iff live ran⟩
  · intro task worker node given spawned
    exact Option.some.inj ((routed.given task worker given).symm.trans (routed.spawned task node spawned))
  · intro task worker other given given'
    exact Option.some.inj ((routed.given task worker given).symm.trans (routed.given task other given'))

def yieldedTask : List Move :=
  let task (id : Nat) : Task := ⟨id,0,Priority.least_zero,Priority.zero_most⟩
  [Move.request 2 (.spawnTask none (task 0))] ++ List.replicate 13 (.advance 2 0) ++
    [.request 0 .tryGetTask] ++ List.replicate 9 (.advance 0 0) ++
    [.request 0 (.putTask 0 (task 0) 0)] ++ List.replicate 13 (.advance 0 0) ++
    [.request 2 (.spawnTask none (task 1))] ++ List.replicate 6 (.advance 2 0)

def twoWorkers (thread : Nat) : Option Worker := if thread < 2 then some ⟨thread,0⟩ else none

def isLivePush (system : System) : Move → Bool
  | .request _ _ => true
  | .advance thread choice =>
    match system.spots thread with
    | .inside domain _ => Scheduler.isLivePush (system.domains domain) (.advance thread choice)
    | _ => true

theorem livePush_of_isLivePush (system : System) (move : Move) (live : system.isLivePush move = true) : system.LivePush move := by
  cases move with
  | request => trivial
  | advance thread choice =>
    intro domain errand inside
    simp only [isLivePush,inside] at live
    exact Scheduler.livePush_of_isLivePush _ _ live

theorem tasks_stay_yieldedTask : ∃ final, run (step twoWorkers) (.start (fun _ => 2) 3) yieldedTask = some final ∧
    (final.isQuiet 3 ∧ final.given.length = 1 ∧ final.puts.length = 3) ∧
    (∀ task worker node, (task,worker) ∈ final.given → (task,some node) ∈ final.spawned → worker.node = node) ∧
    (∀ task worker other, (task,worker) ∈ final.given → (task,other) ∈ final.given → worker.node = other.node) ∧
    (∀ task, final.puts.count task = (final.given.map Prod.fst).count task + (final.places task).waiting) ∧
    ∀ task domain, final.places task = .queued domain ↔ (final.domains domain).Waiting task := by
  have evaluated : (run (step twoWorkers) (.start (fun _ => 2) 3) yieldedTask).any (fun final => decide
      (final.isQuiet 3 ∧ final.given.length = 1 ∧ final.puts.length = 3)) = true := by decide +kernel
  obtain ⟨final,ran,facts⟩ := (Option.any_eq_true _ _).mp evaluated
  have facts := of_decide_eq_true facts
  have live : checks (step twoWorkers) isLivePush (.start (fun _ => 2) 3) yieldedTask = true := by decide +kernel
  obtain ⟨own,same,puts,waiting⟩ := tasks_stay twoWorkers _ 3 yieldedTask final ran
  exact ⟨final,ran,facts,own,same,puts,waiting (meets_of_checks isLivePush livePush_of_isLivePush live) (quiet_of_isQuiet facts.1)⟩

end Runs

end System

section Search

variable {domain : SchedulingDomain}

/-- The loop of `try_get_task` finds a task of the highest level that has one. -/
theorem SchedulingDomain.Exact.search_top (exact_ : domain.Exact)
    (formed : ∀ level tasks, (domain.priorities level).tasks = some tasks → tasks.Formed)
    (thid : Int) (random : Nat → Nat) (idx : Nat) :
    ∃ answer next, domain.search thid random idx = some (answer,next) ∧
      (∀ task, answer = some task → ∃ level tasks, (domain.priorities level).tasks = some tasks ∧ task ∈ tasks.held ∧
        ∀ other above, level < other → other < idx → (domain.priorities other).tasks = some above → above.held = []) ∧
      (answer = none → ∀ level tasks, level < idx → (domain.priorities level).tasks = some tasks → tasks.held = []) := by
  induction idx with
  | zero =>
    refine ⟨none,domain,rfl,?_,?_⟩
    · intro task found
      cases found
    · intro _ level tasks below
      exact absurd below (Nat.not_lt_zero level)
  | succ idx ih =>
    have passed (empty : ∀ tasks, (domain.priorities idx).tasks = some tasks → tasks.held = []) :
        ∃ answer next, domain.search thid random idx = some (answer,next) ∧
          (∀ task, answer = some task → ∃ level tasks, (domain.priorities level).tasks = some tasks ∧
            task ∈ tasks.held ∧ ∀ other above, level < other → other < idx + 1 →
              (domain.priorities other).tasks = some above → above.held = []) ∧
          (answer = none → ∀ level tasks, level < idx + 1 → (domain.priorities level).tasks = some tasks →
            tasks.held = []) := by
      obtain ⟨answer,next,searched,top,nothing⟩ := ih
      refine ⟨answer,next,searched,?_,?_⟩
      · intro task found
        obtain ⟨level,tasks,stored,member,higher⟩ := top task found
        refine ⟨level,tasks,stored,member,?_⟩
        intro other above beyond under
        obtain rfl | under := Nat.eq_or_lt_of_le (Nat.le_of_lt_succ under)
        · exact empty above
        · exact higher other above beyond under
      · intro missed level tasks under
        obtain rfl | under := Nat.eq_or_lt_of_le (Nat.le_of_lt_succ under)
        · exact empty tasks
        · exact nothing missed level tasks under
    unfold search
    split
    next positive =>
      cases stored : (domain.priorities idx).tasks with
      | none =>
        rw [exact_.absent idx stored] at positive
        exact absurd positive (Nat.lt_irrefl 0)
      | some here =>
        dsimp only
        cases taken : here.tryGet (toSize thid) (random idx) with
        | some pair =>
          refine ⟨some pair.1,_,rfl,?_,fun missed => absurd missed (Option.some_ne_none _)⟩
          intro task same
          cases same
          obtain ⟨queue,_,popped⟩ := TaskCollection.tryGet_some taken
          refine ⟨idx,here,stored,?_,?_⟩
          · exact (TaskCollection.held_tryPopFront (formed idx here stored) popped).mem_iff.mpr List.mem_cons_self
          · intro other above beyond under
            omega
        | none =>
          rw [exact_.counted idx here stored] at positive
          obtain ⟨task,member⟩ := List.exists_mem_of_length_pos positive
          obtain ⟨queue,_,inside⟩ := Queues.mem_contents.mp member
          have nonempty := List.ne_nil_of_mem inside
          exact absurd (TaskCollection.tryGet_none taken (exact_.reached idx here queue stored nonempty)) nonempty
    next zero =>
      apply passed
      intro tasks stored
      rw [exact_.counted idx tasks stored] at zero
      exact List.length_eq_zero_iff.mp (Nat.eq_zero_of_not_pos zero)

end Search

/-- `Scheduler::try_get_task`, with the domain of the node and the global one. -/
def tryGetTask (domain global : SchedulingDomain) (thid : Int) (random randomGlobal : Nat → Nat) :
    Option (Option Task × SchedulingDomain × SchedulingDomain) :=
  match domain.tryGetTask thid random with
  | none => none
  | some (some task,next) => some (some task,next,global)
  | some (none,next) => (global.tryGetTask (-1) randomGlobal).map fun (answer,after) => (answer,next,after)

namespace System

section Finding

variable {workers : Nat → Option Worker} {cpuCounts : Option Nat → Nat} {threads : Nat} {moves : List Move} {final : System}

theorem Quiet.exact (quiet : final.Quiet threads) (fixed : ∀ move ∈ moves, move.removes = false)
    (ran : run (step workers) (.start cpuCounts threads) moves = some final) (domain : Option Nat) :
    (final.domains domain).shared.domain.Exact := by
  have inv := invs_run ran domain
  obtain ⟨actions,ran',kept⟩ := domain_run ran domain
  have growing := growing_run (kept fixed) ran'
  apply inv.exact_of_quiet (quiet.domain ran domain)
  intro level tasks queue found nonempty
  apply growing.reached level tasks found queue
  by_contra large
  exact nonempty ((inv.formed level tasks found).beyond queue (Nat.le_of_not_lt large))

theorem Quiet.tryGetTask (quiet : final.Quiet threads) (fixed : ∀ move ∈ moves, move.removes = false)
    (ran : run (step workers) (.start cpuCounts threads) moves = some final) (domain : Option Nat) (thid : Int)
    (random : Nat → Nat) :
    ∃ answer next, (final.domains domain).shared.domain.tryGetTask thid random = some (answer,next) ∧
      (answer = none → ∀ task, final.places task ≠ .queued domain) ∧
      ∀ task, answer = some task → final.places task = .queued domain ∧
        ∀ other, final.places other = .queued domain → other.priority.value ≤ task.priority.value := by
  have inv := invs_run ran domain
  have exact_ := quiet.exact fixed ran domain
  obtain ⟨answer,next,searched,top,nothing⟩ := exact_.search_top inv.formed thid random
    ((final.domains domain).shared.domain.topPriorityIdx + 1)
  -- what waits is held at its level, which the search reaches
  have stored {task : Task} (waits : final.places task = .queued domain) :
      ∃ tasks, ((final.domains domain).shared.domain.priorities task.level).tasks = some tasks ∧ task ∈ tasks.held ∧
        task.level < (final.domains domain).shared.domain.topPriorityIdx + 1 := by
    have member := (quiet.queued_iff ran task domain).mp waits
    cases found : (final.domains domain).shared.collection task.level with
    | none => simp [Shared.held,found] at member
    | some tasks =>
      rw [Shared.held_of_some found] at member
      exact ⟨tasks,found,member,Nat.lt_succ_of_le (exact_.searched _ tasks found (List.ne_nil_of_mem member))⟩
  refine ⟨answer,next,searched,?_,?_⟩
  · intro missed task waits
    obtain ⟨tasks,found,member,below⟩ := stored waits
    rw [nothing missed task.level tasks below found] at member
    cases member
  · intro task same
    obtain ⟨level,tasks,found,member,higher⟩ := top task same
    have held : task ∈ (final.domains domain).shared.held level := by
      rw [Shared.held_of_some found]
      exact member
    have sorted := inv.sorted level task held
    refine ⟨(quiet.queued_iff ran task domain).mpr (by rw [sorted]; exact held),?_⟩
    intro other waits
    obtain ⟨others,found',member',below⟩ := stored waits
    by_contra exceeds
    have least := task.priority.least
    have above : level < other.level := by
      rw [← sorted]
      unfold Task.level Priority.index
      omega
    rw [higher other.level others above below found'] at member'
    cases member'

/-- With threads that are added only, and between the calls: a worker that asks its
scheduler gets a task if one waits at its node or for all nodes. It comes from its own
node first, and has the highest priority of those that wait at the same place. -/
theorem workers_find (workers : Nat → Option Worker) (cpuCounts : Option Nat → Nat) (threads : Nat) (moves : List Move)
    (final : System) (fixed : ∀ move ∈ moves, move.removes = false)
    (ran : run (step workers) (.start cpuCounts threads) moves = some final) (quiet : final.Quiet threads)
    (node : Nat) (thid : Int) (random randomGlobal : Nat → Nat) :
    ∃ answer next after, Scheduler.tryGetTask (final.domains (some node)).shared.domain (final.domains none).shared.domain
        thid random randomGlobal = some (answer,next,after) ∧
      (answer = none ↔ ∀ task, final.places task ≠ .queued (some node) ∧ final.places task ≠ .queued none) ∧
      ∀ task, answer = some task →
        (final.places task = .queued (some node) ∨
          final.places task = .queued none ∧ ∀ other, final.places other ≠ .queued (some node)) ∧
        ∀ other, final.places other = final.places task → other.priority.value ≤ task.priority.value := by
  obtain ⟨local_,next,searched,missed,took⟩ := quiet.tryGetTask fixed ran (some node) thid random
  unfold Scheduler.tryGetTask
  rw [searched]
  cases local_ with
  | some found =>
    obtain ⟨place,top⟩ := took found rfl
    refine ⟨some found,next,_,rfl,iff_of_false (Option.some_ne_none _) fun none_ => (none_ found).1 place,?_⟩
    intro task same
    cases same
    exact ⟨.inl place,fun other equal => top other (equal.trans place)⟩
  | none =>
    have nothing := missed rfl
    obtain ⟨answer,after,searched',missed',took'⟩ := quiet.tryGetTask fixed ran none (-1) randomGlobal
    refine ⟨answer,next,after,by rw [searched']; rfl,⟨?_,?_⟩,?_⟩
    · exact fun same task => ⟨nothing task,missed' same task⟩
    · intro none_
      cases answer with
      | none => rfl
      | some found => exact absurd (took' found rfl).1 (none_ found).2
    · intro task same
      obtain ⟨place,top⟩ := took' task same
      exact ⟨.inr ⟨place,nothing⟩,fun other equal => top other (equal.trans place)⟩

theorem workers_find_yieldedTask : ∃ final, run (step twoWorkers) (.start (fun _ => 2) 3) yieldedTask = some final ∧
    ∃ answer next after, Scheduler.tryGetTask (final.domains (some 0)).shared.domain (final.domains none).shared.domain
        0 id id = some (answer,next,after) ∧
      (answer = none ↔ ∀ task, final.places task ≠ .queued (some 0) ∧ final.places task ≠ .queued none) ∧
      ∀ task, answer = some task →
        (final.places task = .queued (some 0) ∨
          final.places task = .queued none ∧ ∀ other, final.places other ≠ .queued (some 0)) ∧
        ∀ other, final.places other = final.places task → other.priority.value ≤ task.priority.value := by
  have evaluated : (run (step twoWorkers) (.start (fun _ => 2) 3) yieldedTask).any (isQuiet 3) = true := by
    decide +kernel
  obtain ⟨final,ran,quiet⟩ := (Option.any_eq_true _ _).mp evaluated
  exact ⟨final,ran,workers_find twoWorkers _ 3 yieldedTask final (by decide) ran (quiet_of_isQuiet quiet) 0 0 id id⟩

end Finding

end System

end Pgasus.Scheduler
