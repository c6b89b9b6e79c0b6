import Pgasus.Library.Totals
import Pgasus.Tasking.ThreadManager

/-! The worker table of a `Scheduler` over its thread manager: `create_thread`,
`stop_wait_thread` and the destructor, each of them one call of the manager between
the changes of the table, under `_workers_lock`. -/
namespace Pgasus.WorkerThreads
open Runs ThreadManager

/-- What the holder of `_workers_lock` is at. -/
inductive Stage
  | idle
  | creating (core : Nat) (thread : Thread)
  | stopping (core : Nat) (thread : Thread)
  | destroying (threads : List Thread)
  | destroyed

/-- `made` objects have been constructed, named in this order, and those of `deleted`
destructed since. -/
structure System where
  manager : ThreadManager.State
  workers : List (Option Thread)
  stage : Stage
  made : Nat
  deleted : List Thread

/-- A `Scheduler` of a node with these CPUs, before it has started a thread. -/
def System.start (cpus : List Nat) : System :=
  ⟨.start cpus,cpus.map fun _ => none,.idle,0,[]⟩

inductive Act
  | createThread (caller : Option Thread) (core : Nat)
  | stopWaitThread (caller : Option Thread) (core : Nat)
  | destroy
  | manage (action : Action)
  | finish

def System.worker (system : System) (core : Nat) : Option Thread := (system.workers[core]?).join

def System.running (system : System) : List Thread := system.workers.flatMap Option.toList

def Stage.Holds (manager : ThreadManager.State) : Stage → Prop
  | .stopping _ thread => (manager.objects thread).state = .floating
  | .destroying threads => manager.cpuThreads.all List.isEmpty = true ∧
      ∀ thread ∈ threads, (manager.objects thread).state = .floating
  | _ => True

instance (manager : ThreadManager.State) : (stage : Stage) → Decidable (stage.Holds manager)
  | .stopping _ thread => inferInstanceAs (Decidable ((manager.objects thread).state = .floating))
  | .destroying threads => inferInstanceAs (Decidable (manager.cpuThreads.all List.isEmpty = true ∧
      ∀ thread ∈ threads, (manager.objects thread).state = .floating))
  | .idle => instDecidableTrue
  | .creating _ _ => instDecidableTrue
  | .destroyed => instDecidableTrue

def Stage.next : Stage → Stage
  | .destroying _ => .destroyed
  | .destroyed => .destroyed
  | _ => .idle

def Stage.threads : Stage → List Thread
  | .stopping _ thread => [thread]
  | .destroying threads => threads
  | _ => []

def Stage.isIdle : Stage → Bool
  | .idle => true
  | _ => false

def step (system : System) : Act → Option System
  | .createThread caller core =>
    -- the assertions of create_thread
    if system.stage.isIdle ∧ core < system.workers.length ∧ system.worker core = none then
      (ThreadManager.step system.manager (.call caller (.registerThread system.made core))).map fun manager =>
        {system with
          manager := manager, workers := system.workers.set core (some system.made), stage := .creating core system.made
          made := system.made + 1}
    else none
  | .stopWaitThread caller core =>
    match system.worker core with
    | none => none
    | some thread =>
      if system.stage.isIdle then
        (ThreadManager.step system.manager (.call caller (.deregisterThread thread))).map fun manager =>
          {system with manager := manager, workers := system.workers.set core none, stage := .stopping core thread}
      else none
  | .destroy =>
    if system.stage.isIdle then
      (ThreadManager.step system.manager (.call none .deregisterAll)).map fun manager =>
        {system with
          manager := manager, workers := system.workers.map fun _ => none, stage := .destroying system.running}
    else none
  | .manage action =>
    if action.isCall then none
    else (ThreadManager.step system.manager action).map fun manager => {system with manager := manager}
  | .finish =>
    if system.manager.work = [] ∧ system.stage.Holds system.manager then
      some {system with stage := system.stage.next, deleted := system.stage.threads ++ system.deleted}
    else none

/-- A worker does not stop itself. -/
def Proper (system : System) : Act → Prop
  | .stopWaitThread caller core => ∀ thread, system.worker core = some thread → caller ≠ some thread
  | _ => True

def Stage.Reached (system : System) : Stage → Prop
  | .idle => system.manager.work = [] ∧ ∀ core, system.manager.list core = (system.worker core).toList
  | .creating core thread => system.worker core = some thread ∧
      (∀ other, other ≠ core → system.manager.list other = (system.worker other).toList) ∧
      (system.manager.work = [.pushBack core thread,.associate core thread,.start thread] ∧ system.manager.list core = [] ∨
        system.manager.work ∈ [[.associate core thread,.start thread],[.start thread],[]] ∧ system.manager.list core = [thread])
  | .stopping core thread => system.worker core = none ∧
      (∀ other, other ≠ core → system.manager.list other = (system.worker other).toList) ∧
      (system.manager.work ∈ [[.check thread,.join thread,.release thread,.remove thread],
          [.join thread,.release thread,.remove thread],[.release thread,.remove thread],[.remove thread]] ∧
        system.manager.list core = [thread] ∨
        system.manager.work = [] ∧ system.manager.list core = [])
  | .destroying _ => Emptying system.manager ∧ ∀ core, system.worker core = none
  | .destroyed => system.manager.work = [] ∧ (∀ core, system.manager.list core = []) ∧ ∀ core, system.worker core = none

structure Inv (system : System) : Prop where
  manager : ThreadManager.Inv false system.manager
  cores : 0 < system.manager.cpuThreads.length
  table : system.workers.length = system.manager.cpuThreads.length
  reached : system.stage.Reached system
  unborn : ∀ thread, system.made ≤ thread → (system.manager.objects thread).state = .created
  born : ∀ op ∈ system.manager.work, ∀ core thread, (op = .associate core thread ∨ op = .start thread) → thread < system.made
  counted : ∀ thread, (system.running ++ system.stage.threads ++ system.deleted).count thread =
    if thread < system.made then 1 else 0
  deleted : ∀ thread ∈ system.deleted, (system.manager.objects thread).state = .floating
  started : ∀ thread ∈ system.stage.threads, (system.manager.objects thread).state ≠ .created

section Managing

variable {state next : ThreadManager.State} {action : Action} {thread : Thread}

/-- An object leaves `CREATED` by `associate` only and does not come back, and it
never leaves `FLOATING`. -/
theorem state_changes (inv : ThreadManager.Inv false state) (stepped : ThreadManager.step state action = some next)
    (thread : Thread) : (next.objects thread).state = (state.objects thread).state ∨
      (state.objects thread).state ≠ .floating ∧ (next.objects thread).state ≠ .created ∧
        ((state.objects thread).state = .created → ∃ core rest, state.work = .associate core thread::rest) := by
  have set {other : Thread} {object : ThreadBase} (changes : object.state = (state.objects other).state ∨
      (state.objects other).state ≠ .floating ∧ object.state ≠ .created ∧
        ((state.objects other).state = .created → ∃ core rest, state.work = .associate core other::rest)) :
      ((state.setObject other object).objects thread).state = (state.objects thread).state ∨
        (state.objects thread).state ≠ .floating ∧ ((state.setObject other object).objects thread).state ≠ .created ∧
          ((state.objects thread).state = .created → ∃ core rest, state.work = .associate core thread::rest) := by
    by_cases same : thread = other
    · rw [show (state.setObject other object).objects thread = object by rw [same]; exact Function.update_self ..]
      rw [same]
      exact changes
    · exact .inl (congrArg ThreadBase.state (Function.update_of_ne same _ _))
  have changed {other : Thread} {object : ThreadBase} {state' : ThreadState} (was : (state.objects other).state = state')
      (old : state' ≠ .floating ∧ state' ≠ .created) (new : object.state ≠ .created) :=
    @set other object (.inr ⟨was ▸ old.1,new,fun created => absurd (was.symm.trans created) old.2⟩)
  cases action with
  | call caller call =>
    obtain ⟨_,rfl⟩ := call_some stepped
    exact .inl rfl
  | advance =>
    obtain ⟨op,rest,work,holds,_,rfl⟩ := advance_some stepped
    cases op with
    | associate core other =>
      have created : (state.objects other).state = .created := holds
      exact set (.inr ⟨by rw [created]; decide,ThreadState.noConfusion,fun _ => ⟨core,rest,work⟩⟩)
    | start other => exact changed (show (state.objects other).state = .associated from holds) (by decide) ThreadState.noConfusion
    | join other => exact set (.inl rfl)
    | release other => exact changed (show (state.objects other).state = .terminated from holds) (by decide) ThreadState.noConfusion
    | remove other =>
      refine .inl ?_
      change (((Op.remove other).apply state).objects thread).state = _
      dsimp only [Op.apply]
      split <;> rfl
    | _ => exact .inl rfl
  | enter other =>
    obtain ⟨_,rfl⟩ := enter_some stepped
    exact set (.inl rfl)
  | leave other =>
    obtain ⟨inside,rfl⟩ := leave_some stepped
    obtain ⟨phases,fit,_⟩ := inv
    obtain ⟨core,live⟩ := live_of_handle fit (.inr inside)
    have fits := fit.fits other
    rw [live] at fits
    obtain ⟨running,_⟩ | ⟨terminated,_⟩ := fits.1
    · exact changed running (by decide) ThreadState.noConfusion
    · exact changed terminated (by decide) ThreadState.noConfusion

theorem started_of_listed (inv : ThreadManager.Inv false state) (idle : state.work = []) {core : Nat}
    (member : thread ∈ state.list core) : (state.objects thread).state ≠ .created := by
  obtain ⟨phases,fit,planned,_⟩ := inv
  rw [idle] at planned
  have fits := fit.fits thread
  obtain live | ⟨waited,_⟩ := settled_cases (planned.settled thread) ((mem_list_iff fit).mp member)
  · rw [live] at fits
    obtain ⟨⟨other,_⟩ | ⟨other,_⟩,_⟩ := fits <;> rw [other] <;> decide
  · cases waited

theorem floating_of_unlisted (inv : ThreadManager.Inv false state) (idle : state.work = [])
    (started : (state.objects thread).state ≠ .created) (unlisted : ∀ core, thread ∉ state.list core) :
    (state.objects thread).state = .floating := by
  obtain ⟨phases,fit,planned,_⟩ := inv
  rw [idle] at planned
  have fits := fit.fits thread
  have settled := planned.settled thread
  cases phase : phases thread with
  | fresh => rw [phase] at fits; exact absurd fits.1 started
  | gone => rw [phase] at fits; exact fits.1
  | live core => exact absurd ((mem_list_iff fit).mpr (congrArg Phase.core phase)) (unlisted core)
  | _ => rw [phase] at settled; cases settled

theorem work_subset (stepped : ThreadManager.step state action = some next) (quiet : action.isCall = false) :
    ∀ op ∈ next.work, op ∈ state.work := by
  cases action with
  | call caller call => cases quiet
  | advance =>
    obtain ⟨op,rest,work,_,_,rfl⟩ := advance_some stepped
    intro op member
    rw [work]
    exact List.mem_cons_of_mem _ member
  | enter other =>
    obtain ⟨_,rfl⟩ := enter_some stepped
    exact fun _ => id
  | leave other =>
    obtain ⟨_,rfl⟩ := leave_some stepped
    exact fun _ => id

theorem list_remove (inv : ThreadManager.Inv false state) {core : Nat} {rest : List Op}
    (work : state.work = .remove thread::rest) (listed : state.list core = [thread]) :
    ((Op.remove thread).apply state).list core = [] ∧
      ∀ other, other ≠ core → ((Op.remove thread).apply state).list other = state.list other := by
  obtain ⟨phases,fit,planned,_⟩ := inv
  rw [work] at planned
  have at_ : (phases thread).core = some core := (mem_list_iff fit).mp (by rw [listed]; exact List.mem_cons_self)
  have bound := fit.bound thread core at_
  have fits := fit.fits thread
  cases planned with
  | next goes =>
    cases goes with
    | remove here _ released =>
      rw [released] at fits at_
      obtain rfl : here = core := Option.some.inj at_
      rw [apply_remove (fit.coreOf (by rw [released]; rfl) fits.2.2)]
      constructor
      · rw [list_setList _ bound,if_pos rfl,listed]
        simp
      · intro other different
        rw [list_setList _ bound,if_neg different]

end Managing

section Table

variable {system next : System} {thread : Thread} {core : Nat}

theorem worker_set (bound : core < system.workers.length) (entry : Option Thread) (other : Nat) :
    ((system.workers.set core entry)[other]?).join = if other = core then entry else system.worker other := by
  unfold System.worker
  by_cases same : other = core
  · rw [if_pos same,same,List.getElem?_set_self bound]
    rfl
  · rw [if_neg same,List.getElem?_set_ne (Ne.symm same)]

theorem worker_lt (found : system.worker core = some thread) : core < system.workers.length := by
  unfold System.worker at found
  by_contra large
  rw [List.getElem?_eq_none (Nat.le_of_not_lt large)] at found
  cases found

theorem mem_running : thread ∈ system.running → ∃ core, system.worker core = some thread := by
  intro member
  obtain ⟨entry,inside,known⟩ := List.mem_flatMap.mp member
  obtain ⟨core,bound,rfl⟩ := List.getElem_of_mem inside
  refine ⟨core,?_⟩
  unfold System.worker
  rw [List.getElem?_eq_getElem bound]
  exact Option.mem_toList.mp known

theorem running_of_worker (found : system.worker core = some thread) : thread ∈ system.running := by
  have bound := worker_lt found
  refine List.mem_flatMap.mpr ⟨system.workers[core],List.getElem_mem bound,?_⟩
  unfold System.worker at found
  rw [List.getElem?_eq_getElem bound] at found
  exact Option.mem_toList.mpr found

theorem count_running (workers : List (Option Thread)) (thread : Thread) :
    (workers.flatMap Option.toList).count thread = Totals.total (fun entry => entry.toList.count thread) workers := by
  rw [List.count_flatMap]
  rfl

theorem count_set (bound : core < system.workers.length) (entry : Option Thread) (thread : Thread) :
    ((system.workers.set core entry).flatMap Option.toList).count thread + (system.worker core).toList.count thread =
      system.running.count thread + entry.toList.count thread := by
  have found : system.workers[core]? = some (system.worker core) := by
    unfold System.worker
    rw [List.getElem?_eq_getElem bound]
    rfl
  unfold System.running
  rw [count_running,count_running]
  exact Totals.total_set _ entry found

theorem running_none {Item : Type} (items : List Item) :
    (items.map fun _ => (none : Option Thread)).flatMap Option.toList = [] := by
  rw [List.flatMap_map]
  simp

theorem Inv.managed (inv : Inv system) {action : Action} {manager : ThreadManager.State} (quiet : action.isCall = false)
    (stepped : ThreadManager.step system.manager action = some manager) :
    system.stage.Reached {system with manager := manager} := by
  have reached := inv.reached
  obtain ⟨works,lists⟩ | ⟨op,rest,work,rfl⟩ : (manager.work = system.manager.work ∧ ∀ core, manager.list core = system.manager.list core) ∨
      ∃ op rest, system.manager.work = op::rest ∧ manager = {op.apply system.manager with work := rest} := by
    cases action with
    | call => cases quiet
    | advance =>
      obtain ⟨op,rest,work,_,_,rfl⟩ := advance_some stepped
      exact .inr ⟨op,rest,work,rfl⟩
    | enter other =>
      obtain ⟨_,rfl⟩ := enter_some stepped
      exact .inl ⟨rfl,fun _ => rfl⟩
    | leave other =>
      obtain ⟨_,rfl⟩ := leave_some stepped
      exact .inl ⟨rfl,fun _ => rfl⟩
  · -- the thread functions change no list and leave the call alone
    cases stage : system.stage with
    | idle =>
      rw [stage] at reached
      exact ⟨works.trans reached.1,fun core => (lists core).trans (reached.2 core)⟩
    | creating core thread =>
      rw [stage] at reached
      obtain ⟨held,others,progress⟩ := reached
      rw [← works,← lists core] at progress
      exact ⟨held,fun other different => (lists other).trans (others other different),progress⟩
    | stopping core thread =>
      rw [stage] at reached
      obtain ⟨held,others,progress⟩ := reached
      rw [← works,← lists core] at progress
      exact ⟨held,fun other different => (lists other).trans (others other different),progress⟩
    | destroying threads =>
      rw [stage] at reached
      exact ⟨reached.1.step quiet stepped,reached.2⟩
    | destroyed =>
      rw [stage] at reached
      exact ⟨works.trans reached.1,fun core => (lists core).trans (reached.2.1 core),reached.2.2⟩
  · cases stage : system.stage with
    | idle =>
      rw [stage] at reached
      rw [reached.1] at work
      cases work
    | creating core thread =>
      rw [stage] at reached
      obtain ⟨held,others,⟨works,empty⟩ | ⟨works,listed⟩⟩ := reached
      · rw [works] at work
        cases work
        have bound := worker_lt held
        rw [inv.table] at bound
        refine ⟨held,?_,.inr ⟨List.mem_cons_self,?_⟩⟩
        · intro other different
          refine Eq.trans ?_ (others other different)
          exact (list_setList _ bound).trans (if_neg different)
        · refine (list_setList _ bound).trans ?_
          rw [if_pos rfl,empty]
          rfl
      · rw [work] at works
        obtain same | works := List.mem_cons.mp works
        · cases same
          exact ⟨held,others,.inr ⟨by simp,listed⟩⟩
        · obtain same | works := List.mem_cons.mp works
          · cases same
            exact ⟨held,others,.inr ⟨by simp,listed⟩⟩
          · simp at works
    | stopping core thread =>
      rw [stage] at reached
      obtain ⟨held,others,⟨works,listed⟩ | ⟨works,_⟩⟩ := reached
      · rw [work] at works
        obtain same | works := List.mem_cons.mp works
        · cases same
          exact ⟨held,others,.inl ⟨by simp,listed⟩⟩
        · obtain same | works := List.mem_cons.mp works
          · cases same
            exact ⟨held,others,.inl ⟨by simp,listed⟩⟩
          · obtain same | works := List.mem_cons.mp works
            · cases same
              exact ⟨held,others,.inl ⟨by simp,listed⟩⟩
            · obtain same | works := List.mem_cons.mp works
              · cases same
                obtain ⟨removed,rest⟩ := list_remove inv.manager work listed
                exact ⟨held,fun other different => (rest other different).trans (others other different),.inr ⟨rfl,removed⟩⟩
              · cases works
      · rw [works] at work
        cases work
    | destroying threads =>
      rw [stage] at reached
      exact ⟨reached.1.step quiet stepped,reached.2⟩
    | destroyed =>
      rw [stage] at reached
      rw [reached.1] at work
      cases work

theorem Inv.start {cpus : List Nat} (distinct : cpus.Nodup) (some_ : cpus ≠ []) : Inv (.start cpus) := by
  have nobody (core : Nat) : (System.start cpus).worker core = none := by
    unfold System.worker System.start
    rw [List.getElem?_map]
    cases cpus[core]? <;> rfl
  have empty (core : Nat) : (System.start cpus).manager.list core = [] := by
    unfold State.list System.start State.start
    rw [List.getD_eq_getElem?_getD,List.getElem?_map]
    cases cpus[core]? <;> rfl
  constructor
  · exact .start distinct false
  · change 0 < (cpus.map fun _ => ([] : List Thread)).length
    rw [List.length_map]
    exact List.length_pos_iff.mpr some_
  · exact (List.length_map _).trans (List.length_map _).symm
  · refine ⟨rfl,fun core => ?_⟩
    rw [empty,nobody]
    rfl
  · exact fun _ _ => rfl
  · exact fun _ member => absurd member List.not_mem_nil
  · intro thread
    change (((cpus.map fun _ => (none : Option Thread)).flatMap Option.toList) ++ [] ++ []).count thread = _
    rw [running_none]
    rfl
  · exact fun _ member => absurd member List.not_mem_nil
  · exact fun _ member => absurd member List.not_mem_nil

theorem Inv.call (inv : Inv system) {caller : Option Thread} {call : Call} {manager : ThreadManager.State}
    (allowed : Allowed system.manager caller call) (waits : call ≠ .waitForAll)
    (stepped : ThreadManager.step system.manager (.call caller call) = some manager) :
    ThreadManager.Inv false manager ∧ 0 < manager.cpuThreads.length ∧ system.workers.length = manager.cpuThreads.length ∧
      manager = {system.manager with caller := caller, work := call.work system.manager} := by
  have orderly : Orderly false system.manager (.call caller call) := ⟨allowed,fun same => absurd same waits⟩
  have length := length_step stepped
  refine ⟨inv.manager.step inv.cores orderly stepped,?_,?_,(call_some stepped).2⟩
  · rw [length]
    exact inv.cores
  · rw [length]
    exact inv.table

theorem idle_of (idle : system.stage.isIdle = true) : system.stage = .idle := by
  cases stage : system.stage <;> rw [stage] at idle <;> first | rfl | cases idle

theorem Inv.step {act : Act} (inv : Inv system) (proper : Proper system act) (stepped : step system act = some next) :
    Inv next := by
  have counted := inv.counted
  cases act with
  | createThread caller core =>
    unfold WorkerThreads.step at stepped
    dsimp only at stepped
    split at stepped
    next ready =>
      obtain ⟨manager,called,rfl⟩ := Option.map_eq_some_iff.mp stepped
      obtain ⟨idle,bound,free⟩ := ready
      have stage := idle_of idle
      have reached := inv.reached
      rw [stage] at reached
      have small := bound
      rw [inv.table] at small
      have allowed : Allowed system.manager caller (.registerThread system.made core) :=
        ⟨inv.unborn _ (Nat.le_refl _),Int.ofNat_lt.mpr small⟩
      obtain ⟨kept,cores,table,rfl⟩ := inv.call allowed Call.noConfusion called
      have work : Call.work system.manager (.registerThread system.made core) =
          [.pushBack core system.made,.associate core system.made,.start system.made] := by
        dsimp only [Call.work]
        rw [if_neg (Int.not_lt.mpr (Int.natCast_nonneg core)),Int.toNat_natCast]
      refine ⟨kept,cores,List.length_set.trans table,?_,?_,?_,?_,inv.deleted,fun _ member => absurd member List.not_mem_nil⟩
      · refine ⟨(worker_set bound _ core).trans (if_pos rfl),?_,.inl ⟨work,?_⟩⟩
        · intro other different
          exact (reached.2 other).trans (congrArg Option.toList ((worker_set bound _ other).trans (if_neg different)).symm)
        · refine (reached.2 core).trans ?_
          rw [free]
          rfl
      · exact fun thread late => inv.unborn thread (Nat.le_of_succ_le late)
      · intro op member other thread which
        have member : op ∈ Call.work system.manager (.registerThread system.made core) := member
        rw [work] at member
        obtain rfl | rfl := which
        · have same : thread = system.made := by
            have both : other = core ∧ thread = system.made := by simpa using member
            exact both.2
          exact same ▸ Nat.lt_succ_self _
        · have same : thread = system.made := by simpa using member
          exact same ▸ Nat.lt_succ_self _
      · intro thread
        have count := counted thread
        have more := count_set bound (some system.made) thread
        rw [free] at more
        rw [stage] at count
        simp only [List.count_append] at count ⊢
        change ((system.workers.set core (some system.made)).flatMap Option.toList).count thread + 0 + _ =
          if thread < system.made + 1 then 1 else 0
        change _ + 0 + _ = _ at count
        change _ + 0 = _ + [system.made].count thread at more
        by_cases same : thread = system.made
        · rw [same] at count more ⊢
          rw [if_neg (Nat.lt_irrefl _)] at count
          rw [List.count_singleton_self] at more
          rw [if_pos (Nat.lt_succ_self _)]
          omega
        · have other : [system.made].count thread = 0 := List.count_eq_zero_of_not_mem (by simpa using same)
          rw [other] at more
          by_cases early : thread < system.made
          · rw [if_pos early] at count
            rw [if_pos (Nat.lt_succ_of_lt early)]
            omega
          · rw [if_neg early] at count
            have late : ¬ thread < system.made + 1 :=
              fun less => (Nat.lt_or_eq_of_le (Nat.le_of_lt_succ less)).elim early same
            rw [if_neg late]
            omega
    next => cases stepped
  | stopWaitThread caller core =>
    unfold WorkerThreads.step at stepped
    dsimp only at stepped
    split at stepped
    · cases stepped
    next thread found =>
      split at stepped
      next idle =>
        obtain ⟨manager,called,rfl⟩ := Option.map_eq_some_iff.mp stepped
        have stage := idle_of idle
        have reached := inv.reached
        rw [stage] at reached
        have bound := worker_lt found
        have listed : system.manager.list core = [thread] := by
          rw [reached.2 core,found]
          rfl
        have allowed : Allowed system.manager caller (.deregisterThread thread) :=
          ⟨manages_of_mem (by rw [listed]; exact List.mem_cons_self),proper thread found⟩
        obtain ⟨kept,cores,table,rfl⟩ := inv.call allowed Call.noConfusion called
        refine ⟨kept,cores,List.length_set.trans table,?_,inv.unborn,?_,?_,inv.deleted,?_⟩
        · refine ⟨(worker_set bound _ core).trans (if_pos rfl),?_,.inl ⟨List.mem_cons_self,listed⟩⟩
          intro other different
          exact (reached.2 other).trans (congrArg Option.toList ((worker_set bound _ other).trans (if_neg different)).symm)
        · intro op member other thread which
          obtain rfl | rfl := which <;> simp [Call.work] at member
        · intro other
          have count := counted other
          have less := count_set bound none other
          rw [found] at less
          rw [stage] at count
          simp only [List.count_append] at count ⊢
          change ((system.workers.set core none).flatMap Option.toList).count other + [thread].count other + _ = _
          change _ + 0 + _ = _ at count
          change _ + [thread].count other = _ + 0 at less
          rw [← count]
          omega
        · intro other member
          rw [List.mem_singleton.mp member]
          have here : thread ∈ system.manager.list core := by
            rw [listed]
            exact List.mem_cons_self
          have started := started_of_listed inv.manager reached.1 here
          exact started
      next => cases stepped
  | destroy =>
    unfold WorkerThreads.step at stepped
    dsimp only at stepped
    split at stepped
    next idle =>
      obtain ⟨manager,called,rfl⟩ := Option.map_eq_some_iff.mp stepped
      have stage := idle_of idle
      have allowed : Allowed system.manager none .deregisterAll := rfl
      obtain ⟨kept,cores,table,rfl⟩ := inv.call allowed Call.noConfusion called
      have emptying := emptying_call system.manager
      refine ⟨kept,cores,(List.length_map _).trans table,⟨emptying,?_⟩,inv.unborn,?_,?_,inv.deleted,?_⟩
      · intro core
        unfold System.worker
        rw [List.getElem?_map]
        cases system.workers[core]? <;> rfl
      · intro op member core thread which
        obtain ⟨other,_,inside⟩ := List.mem_flatMap.mp member
        obtain inside | inside := List.mem_append.mp inside
        · obtain ⟨_,_,inside⟩ := List.mem_flatMap.mp inside
          obtain rfl | rfl := which <;> simp at inside
        · obtain rfl | rfl := which <;> simp at inside
      · intro thread
        have count := counted thread
        rw [stage] at count
        simp only [List.count_append] at count ⊢
        change ((system.workers.map fun _ => (none : Option Thread)).flatMap Option.toList).count thread +
          system.running.count thread + _ = _
        rw [running_none,← count]
        change 0 + _ + _ = _ + 0 + _
        omega
      · intro thread member
        obtain ⟨core,found⟩ := mem_running member
        have reached := inv.reached
        rw [stage] at reached
        have here : thread ∈ system.manager.list core := by
          rw [reached.2 core,found]
          exact List.mem_cons_self
        have started := started_of_listed inv.manager reached.1 here
        exact started
    next => cases stepped
  | manage action =>
    unfold WorkerThreads.step at stepped
    dsimp only at stepped
    split at stepped
    · cases stepped
    next quiet =>
      have quiet := Bool.eq_false_iff.mpr quiet
      obtain ⟨manager,moved,rfl⟩ := Option.map_eq_some_iff.mp stepped
      have orderly : Orderly false system.manager action := by
        cases action with
        | call => cases quiet
        | _ => trivial
      have length := length_step moved
      have changes := state_changes inv.manager moved
      refine ⟨inv.manager.step inv.cores orderly moved,?_,?_,inv.managed quiet moved,?_,?_,counted,?_,?_⟩
      · change 0 < manager.cpuThreads.length
        rw [length]
        exact inv.cores
      · exact inv.table.trans length.symm
      · intro thread late
        have created := inv.unborn thread late
        obtain same | ⟨_,_,associated⟩ := changes thread
        · exact same.trans created
        · obtain ⟨core,rest,work⟩ := associated created
          have early := inv.born _ (by rw [work]; exact List.mem_cons_self) core thread (.inl rfl)
          exact absurd early (Nat.not_lt.mpr late)
      · exact fun op member => inv.born op (work_subset moved quiet op member)
      · intro thread member
        have floating := inv.deleted thread member
        obtain same | ⟨other,_⟩ := changes thread
        · exact same.trans floating
        · exact absurd floating other
      · intro thread member created
        obtain same | ⟨_,other,_⟩ := changes thread
        · exact inv.started thread member (same.symm.trans created)
        · exact other created
  | finish =>
    unfold WorkerThreads.step at stepped
    dsimp only at stepped
    split at stepped
    next ready =>
      obtain ⟨idle,holds⟩ := ready
      cases stepped
      have reached := inv.reached
      refine ⟨inv.manager,inv.cores,inv.table,?_,inv.unborn,inv.born,?_,?_,?_⟩
      · cases stage : system.stage with
        | idle => rw [stage] at reached; exact reached
        | creating core thread =>
          rw [stage] at reached
          obtain ⟨held,others,⟨works,_⟩ | ⟨_,listed⟩⟩ := reached
          · rw [idle] at works
            cases works
          · refine ⟨idle,fun other => ?_⟩
            change system.manager.list other = (system.worker other).toList
            by_cases same : other = core
            · rw [same,listed,held]
              rfl
            · exact others other same
        | stopping core thread =>
          rw [stage] at reached
          obtain ⟨held,others,⟨works,_⟩ | ⟨_,listed⟩⟩ := reached
          · rw [idle] at works
            simp at works
          · refine ⟨idle,fun other => ?_⟩
            change system.manager.list other = (system.worker other).toList
            by_cases same : other = core
            · rw [same,listed,held]
              rfl
            · exact others other same
        | destroying threads =>
          rw [stage] at reached
          refine ⟨idle,fun core => ?_,reached.2⟩
          rw [List.eq_nil_iff_forall_not_mem]
          intro thread member
          have later := reached.1.cleared core thread member
          rw [idle] at later
          cases later
        | destroyed => rw [stage] at reached; exact reached
      · intro thread
        have count := counted thread
        have nothing : system.stage.next.threads = [] := by cases system.stage <;> rfl
        change (system.running ++ system.stage.next.threads ++ (system.stage.threads ++ system.deleted)).count thread = _
        rw [nothing,← count]
        simp only [List.count_append,List.count_nil]
        omega
      · intro thread member
        obtain new | old := List.mem_append.mp member
        · cases stage : system.stage <;> rw [stage] at new holds
          · cases new
          · cases new
          · rw [List.mem_singleton.mp new]
            exact holds
          · exact holds.2 thread new
          · cases new
        · exact inv.deleted thread old
      · intro thread member
        rw [show system.stage.next.threads = [] by cases system.stage <;> rfl] at member
        cases member
    next => cases stepped

theorem inv_run {cpus : List Nat} (distinct : cpus.Nodup) (some_ : cpus ≠ []) {acts : List Act} {final : System}
    (proper : Meets step Proper (.start cpus) acts) (ran : run step (.start cpus) acts = some final) : Inv final :=
  invariant_of_meets Inv (fun _ _ _ inv proper stepped => inv.step proper stepped) (.start distinct some_) proper ran

structure Kept (system : System) : Prop where
  sound : Sound system.manager
  table : system.stage = .idle → ∀ core, system.manager.list core = (system.worker core).toList
  holds : system.manager.work = [] → system.stage.Holds system.manager
  deleted : ∀ thread ∈ system.deleted, (system.manager.objects thread).handle = .joined
  once : system.deleted.Nodup
  all : system.stage = .destroyed → ∀ thread, thread < system.made → thread ∈ system.deleted

theorem Inv.kept (inv : Inv system) : Kept system := by
  have sound := inv.manager.sound
  have reached := inv.reached
  have counted := inv.counted
  constructor
  · exact sound
  · intro idle
    rw [idle] at reached
    exact reached.2
  · intro idle
    cases stage : system.stage with
    | stopping core thread =>
      rw [stage] at reached counted
      obtain ⟨_,others,⟨works,_⟩ | ⟨_,empty⟩⟩ := reached
      · rw [idle] at works
        simp at works
      · have started := inv.started thread (by rw [stage]; exact List.mem_cons_self)
        apply floating_of_unlisted inv.manager idle started
        intro other member
        by_cases same : other = core
        · rw [same,empty] at member
          cases member
        · -- a thread that is being stopped is not in the table as well
          rw [others other same] at member
          have count := counted thread
          have here : 0 < system.running.count thread := by
            rw [List.count_pos_iff]
            exact running_of_worker (Option.mem_toList.mp member)
          rw [List.count_append,List.count_append,show Stage.threads (.stopping core thread) = [thread] from rfl,
            List.count_singleton_self] at count
          split at count <;> omega
    | destroying threads =>
      rw [stage] at reached
      have empty (core : Nat) (thread : Thread) : thread ∉ system.manager.list core := by
        intro member
        have later := reached.1.cleared core thread member
        rw [idle] at later
        cases later
      refine ⟨?_,?_⟩
      · rw [List.all_eq_true]
        intro threads member
        obtain ⟨core,bound,rfl⟩ := List.getElem_of_mem member
        rw [List.isEmpty_iff,List.eq_nil_iff_forall_not_mem]
        intro thread inside
        apply empty core thread
        unfold State.list
        rw [List.getD_eq_getElem?_getD,List.getElem?_eq_getElem bound]
        exact inside
      · intro thread member
        have started := inv.started thread (by rw [stage]; exact member)
        exact floating_of_unlisted inv.manager idle started fun core => empty core thread
    | _ => trivial
  · exact fun thread member => sound.floating thread (inv.deleted thread member)
  · rw [List.nodup_iff_count_le_one]
    intro thread
    have count := counted thread
    rw [List.count_append] at count
    split at count <;> omega
  · intro destroyed thread early
    have count := counted thread
    rw [destroyed] at reached count
    have nobody : system.running = [] := by
      rw [List.eq_nil_iff_forall_not_mem]
      intro other member
      obtain ⟨core,found⟩ := mem_running member
      rw [reached.2.2 core] at found
      cases found
    rw [nobody,if_pos early] at count
    exact List.count_pos_iff.mp (by rw [show system.deleted.count thread = 1 from count]; exact Nat.one_pos)

/-- However worker threads are started and stopped, by whomever but the thread that is
stopped, and then the scheduler is destroyed, while the threads enter and leave their
functions at any time: no assertion of the manager, of the threads' destructors or of
the manager's fails; between the calls the worker of each core is the one thread that
the manager runs there; and every thread object is destructed once, after its end. -/
theorem workers_sound (cpus : List Nat) (distinct : cpus.Nodup) (some_ : cpus ≠ []) (acts : List Act) (final : System)
    (proper : Meets step Proper (.start cpus) acts) (ran : run step (.start cpus) acts = some final) : Kept final :=
  (inv_run distinct some_ proper ran).kept

def startAndStop : List Act :=
  let advances (count : Nat) : List Act := List.replicate count (.manage .advance)
  [Act.createThread none 0] ++ advances 3 ++ [.finish,.createThread none 1] ++ advances 3 ++
    [.finish,.manage (.enter 0),.manage (.enter 1),.stopWaitThread (some 0) 1] ++ advances 1 ++
    [.manage (.leave 1)] ++ advances 3 ++ [.finish,.destroy,.manage (.leave 0)] ++ advances 4 ++ [.finish]

def isProper (system : System) : Act → Bool
  | .stopWaitThread caller core => caller.isNone || decide (caller ≠ system.worker core)
  | _ => true

theorem proper_of_isProper (system : System) (act : Act) (proper : isProper system act = true) : Proper system act := by
  cases act with
  | stopWaitThread caller core =>
    rintro thread found rfl
    have different : some thread ≠ system.worker core := by simpa [isProper] using proper
    exact different found.symm
  | _ => trivial

theorem workers_sound_startAndStop : ∃ final, run step (.start [4,6]) startAndStop = some final ∧
    final.deleted = [0,1] ∧ Kept final := by
  have evaluated : (run step (.start [4,6]) startAndStop).any (fun final => decide (final.deleted = [0,1])) = true := by
    decide +kernel
  obtain ⟨final,ran,deleted⟩ := (Option.any_eq_true _ _).mp evaluated
  exact ⟨final,ran,of_decide_eq_true deleted,workers_sound [4,6] (by decide) (by decide) startAndStop final
    (meets_of_checks isProper proper_of_isProper (by decide +kernel)) ran⟩

end Table

end Pgasus.WorkerThreads
