import Pgasus.Scheduler.Fit
import Pgasus.Scheduler.Holding

/-! The calls on a scheduling domain, one after another, serve the tasks as
`Holding` says: highest priority first, the thread's own queue before the global
one before the other threads', each queue in its order. -/
namespace Pgasus.Scheduler
open Queues

namespace SchedulingDomain

variable {domain next : SchedulingDomain} {level cpuCount : Nat} {tasks : TaskCollection}

def holding (domain : SchedulingDomain) : Holding where
  active := domain.activeThreadIds
  queue level place :=
    match (domain.priorities level).tasks with
    | none => []
    | some tasks => tasks.placeQueue place

structure Consistent (domain : SchedulingDomain) : Prop where
  distinct : domain.activeThreadIds.Nodup
  small : ∀ idx ∈ domain.activeThreadIds, idx < domain.cpuCount
  absent : ∀ level, (domain.priorities level).tasks = none → (domain.priorities level).count = 0
  fits : ∀ level tasks, (domain.priorities level).tasks = some tasks →
    tasks.Fit domain.activeThreadIds domain.cpuCount level
  counted : ∀ level tasks, (domain.priorities level).tasks = some tasks →
    (domain.priorities level).count = tasks.held.length
  searched : ∀ level tasks, (domain.priorities level).tasks = some tasks → tasks.held ≠ [] →
    level ≤ domain.topPriorityIdx

theorem Consistent.create (cpuCount : Nat) : (create cpuCount).Consistent := by
  constructor
  · exact List.nodup_nil
  · intro idx inside
    cases inside
  · intro level _
    rfl
  · intro level tasks found
    cases found
  · intro level tasks found
    cases found
  · intro level tasks found
    cases found

theorem holding_create (cpuCount : Nat) : (create cpuCount).holding = .empty := rfl

theorem holding_queue (found : (domain.priorities level).tasks = some tasks) (place : Option Nat) :
    domain.holding.queue level place = tasks.placeQueue place := by
  simp [holding,found]

def replace (domain : SchedulingDomain) (level : Nat) (tasks : TaskCollection) (top : Nat) : SchedulingDomain :=
  {domain.setPriority level ⟨some tasks,tasks.held.length⟩ with topPriorityIdx := top}

theorem Consistent.replace (consistent : domain.Consistent)
    (fit : tasks.Fit domain.activeThreadIds domain.cpuCount level) {top : Nat} (higher : domain.topPriorityIdx ≤ top)
    (covered : tasks.held ≠ [] → level ≤ top) : (domain.replace level tasks top).Consistent := by
  have cases_ : ∀ another, (domain.replace level tasks top).priorities another =
      if another = level then ⟨some tasks,tasks.held.length⟩ else domain.priorities another := by
    intro another
    exact Function.update_apply ..
  constructor
  · exact consistent.distinct
  · exact consistent.small
  · intro another nothing
    rw [cases_] at nothing ⊢
    split at nothing
    · cases nothing
    next different =>
      rw [if_neg different]
      exact consistent.absent another nothing
  · intro another other found
    rw [cases_] at found
    split at found
    next same =>
      obtain rfl := Option.some.inj found
      rw [same]
      exact fit
    · exact consistent.fits another other found
  · intro another other found
    rw [cases_] at found ⊢
    split at found
    next same =>
      obtain rfl := Option.some.inj found
      rw [if_pos same]
    next different =>
      rw [if_neg different]
      exact consistent.counted another other found
  · intro another other found some_
    rw [cases_] at found
    split at found
    next same =>
      obtain rfl := Option.some.inj found
      rw [same]
      exact covered some_
    · exact (consistent.searched another other found some_).trans higher

theorem holding_replace (place : Option Nat) (items : List Task) (top : Nat)
    (queue : tasks.placeQueue = Function.update (domain.holding.queue level) place items) :
    (domain.replace level tasks top).holding = domain.holding.set level place items := by
  have queues : (domain.replace level tasks top).holding.queue = (domain.holding.set level place items).queue := by
    funext another
    by_cases same : another = level
    · subst same
      rw [Holding.set_queue_level,← queue]
      simp [holding,SchedulingDomain.replace,setPriority]
    · rw [Holding.set_queue_other same]
      simp [holding,SchedulingDomain.replace,setPriority,same]
  exact congrArg (Holding.mk domain.activeThreadIds) queues

theorem holding_replace_same (top : Nat) (queue : tasks.placeQueue = domain.holding.queue level) :
    (domain.replace level tasks top).holding = domain.holding := by
  have whole := holding_replace none (domain.holding.queue level none) top (by
    rw [Function.update_eq_self]
    exact queue)
  rw [whole]
  unfold Holding.set
  rw [Function.update_eq_self,Function.update_eq_self]

theorem Consistent.createLazy (consistent : domain.Consistent) (level : Nat) :
    ∃ created tasks, domain.createLazy level = (created,tasks) ∧ created.Consistent ∧
      (created.priorities level).tasks = some tasks ∧ created.holding = domain.holding := by
  unfold SchedulingDomain.createLazy
  cases found : (domain.priorities level).tasks with
  | some tasks => exact ⟨domain,tasks,rfl,consistent,found,rfl⟩
  | none =>
    obtain ⟨fit,empty⟩ := TaskCollection.fit_foldl_registerThread consistent.small level
    have nothing : domain.newCollection.held = [] := TaskCollection.held_eq_nil.mpr fun queue _ => empty queue
    have same : domain.setPriority level ⟨some domain.newCollection,0⟩ =
        domain.replace level domain.newCollection domain.topPriorityIdx := by
      unfold SchedulingDomain.replace
      rw [nothing]
      rfl
    refine ⟨_,_,rfl,?_,?_,?_⟩
    · rw [same]
      apply consistent.replace fit (Nat.le_refl _)
      intro some_
      exact absurd nothing some_
    · simp [setPriority]
    · rw [same]
      apply holding_replace_same
      funext place
      exact (TaskCollection.placeQueue_nil empty).trans (by simp [holding,found])

def Full (domain : SchedulingDomain) (level : Nat) : Prop :=
  queueCapacity ≤ (domain.createLazy level).2.held.length

theorem putTask_follows (consistent : domain.Consistent) (task : Task) (thid : Int) :
    (domain.putTask task thid = none ∧ domain.Full task.level) ∨
    ∃ next, domain.putTask task thid = some next ∧ next.Consistent ∧
      next.holding = domain.holding.put task (domain.holding.target thid) := by
  obtain ⟨created,tasks,lazy,consistent',found,same⟩ := consistent.createLazy task.level
  unfold putTask Full
  rw [lazy]
  dsimp only
  unfold TaskCollection.put
  by_cases room : tasks.held.length < queueCapacity
  · right
    rw [if_pos room]
    have fit := consistent'.fits task.level tasks found
    have points : tasks.pointer (created.holding.target thid) =
        some ((tasks.getThreadQueue (toSize thid)).getD TaskCollection.globalTasks) := by
      unfold Holding.target
      change tasks.pointer (if toSize thid ∈ created.activeThreadIds then some (toSize thid) else none) = _
      by_cases active : toSize thid ∈ created.activeThreadIds
      · rw [if_pos active]
        obtain ⟨queue,pointed⟩ := Option.isSome_iff_exists.mp ((fit.registered _).mpr active)
        change tasks.getThreadQueue (toSize thid) = _
        rw [pointed]
        rfl
      · rw [if_neg active]
        rw [← fit.registered,Option.not_isSome_iff_eq_none] at active
        rw [active]
        rfl
    have pushed := fit.pushBack points room
    have counted : ((created.priorities task.level).count + 1) % 2^64 =
        (tasks.pushBack ((tasks.getThreadQueue (toSize thid)).getD TaskCollection.globalTasks) task).held.length := by
      rw [consistent'.counted task.level tasks found]
      have reached : tasks.Reached ((tasks.getThreadQueue (toSize thid)).getD TaskCollection.globalTasks) := by
        cases pointed : tasks.getThreadQueue (toSize thid) with
        | none => exact .inl rfl
        | some queue => exact .inr ⟨_,pointed⟩
      rw [(TaskCollection.held_pushBack task (reached.constructed fit.formed)).length_eq,List.length_cons]
      unfold queueCapacity at room
      omega
    have replaced : ({created.setPriority task.level ⟨some (tasks.pushBack
          ((tasks.getThreadQueue (toSize thid)).getD TaskCollection.globalTasks) task),
          ((created.priorities task.level).count + 1) % 2^64⟩ with
          topPriorityIdx := max created.topPriorityIdx task.level} : SchedulingDomain) =
        created.replace task.level (tasks.pushBack ((tasks.getThreadQueue (toSize thid)).getD TaskCollection.globalTasks)
          task) (max created.topPriorityIdx task.level) := by
      unfold SchedulingDomain.replace
      rw [counted]
    refine ⟨_,rfl,?_,?_⟩
    · refine Eq.subst replaced.symm ?_
      exact consistent'.replace pushed (Nat.le_max_left ..) fun _ => Nat.le_max_right ..
    · refine (congrArg holding replaced).trans ?_
      rw [← same]
      apply holding_replace
      unfold TaskCollection.pushBack push
      rw [TaskCollection.placeQueue_update fit.formed points]
      have level : created.holding.queue task.level = tasks.placeQueue := funext (holding_queue found)
      rw [level,TaskCollection.placeQueue_of_pointer points]
  · left
    rw [if_neg room]
    exact ⟨rfl,Nat.le_of_not_lt room⟩

theorem search_follows (consistent : domain.Consistent) (thid : Int) (random : Nat → Nat) (idx : Nat)
    (above : ∀ level, idx ≤ level → ∀ place, domain.holding.queue level place = []) :
    ∃ answer next, domain.search thid random idx = some (answer,next) ∧ next.Consistent ∧
      domain.holding.Takes thid answer next.holding := by
  induction idx with
  | zero => exact ⟨none,domain,rfl,consistent,.nothing fun level => above level (Nat.zero_le _)⟩
  | succ idx ih =>
    -- a level without tasks is passed over
    have passed (empty : ∀ place, domain.holding.queue idx place = []) :
        ∃ answer next, domain.search thid random idx = some (answer,next) ∧ next.Consistent ∧
          domain.holding.Takes thid answer next.holding := by
      apply ih
      intro level late
      obtain rfl | later := Nat.eq_or_lt_of_le late
      · exact empty
      · exact above level later
    unfold search
    cases found : (domain.priorities idx).tasks with
    | none =>
      rw [consistent.absent idx found,if_neg (Nat.lt_irrefl 0)]
      apply passed
      intro place
      simp [holding,found]
    | some tasks =>
      have fit := consistent.fits idx tasks found
      have counted := consistent.counted idx tasks found
      by_cases positive : (domain.priorities idx).count > 0
      · rw [if_pos positive]
        dsimp only
        cases taken : tasks.tryGet (toSize thid) (random idx) with
        | none =>
          have nothing : tasks.held = [] := by
            rw [TaskCollection.held_eq_nil]
            intro queue _
            by_contra some_
            exact some_ (TaskCollection.tryGet_none taken (fit.reached queue some_))
          rw [counted,nothing] at positive
          exact absurd positive (Nat.lt_irrefl 0)
        | some pair =>
          obtain ⟨task,rest⟩ := pair
          obtain ⟨queue,preferred,popped⟩ := TaskCollection.tryGet_some taken
          obtain ⟨others,front,rest_⟩ := TaskCollection.tryPopFront_some popped
          have level : task.level = idx := fit.task_level queue (by simp [front])
          have queues : domain.holding.queue idx = tasks.placeQueue := funext (holding_queue found)
          have rest_fit := fit.tryPopFront popped
          have shrunk := (TaskCollection.held_tryPopFront fit.formed popped).length_eq
          have replaced : domain.setPriority idx ⟨some rest,((domain.priorities idx).count + (2^64 - 1)) % 2^64⟩ =
              domain.replace idx rest domain.topPriorityIdx := by
            have bounded := fit.bounded
            have count : ((domain.priorities idx).count + (2^64 - 1)) % 2^64 = rest.held.length := by
              rw [counted]
              rw [List.length_cons] at shrunk
              unfold queueCapacity at bounded
              omega
            unfold SchedulingDomain.replace
            rw [count]
            rfl
          refine ⟨some task,_,rfl,?_,?_⟩
          · rw [replaced]
            apply consistent.replace rest_fit (Nat.le_refl _)
            intro _
            apply consistent.searched idx tasks found
            intro empty
            rw [empty] at shrunk
            cases shrunk
          · rw [replaced]
            -- the place whose queue was taken from
            have placed : ∃ place, tasks.pointer place = some queue ∧
                domain.holding.Preferred idx (toSize thid) place := by
              have idle (still : tasks.Idle (toSize thid)) :
                  domain.holding.queue idx (some (toSize thid)) = [] := by
                rw [queues]
                unfold TaskCollection.placeQueue
                split
                · rfl
                next queue pointed => exact still queue pointed
              cases preferred with
              | own pointed => exact ⟨some (toSize thid),pointed,.own⟩
              | global still => exact ⟨none,rfl,.global (idle still)⟩
              | @stolen _ other still empty pointed =>
                refine ⟨some other,pointed,.stolen other (idle still) ?_⟩
                rw [queues]
                exact empty
            obtain ⟨place,points,order⟩ := placed
            rw [holding_replace place others domain.topPriorityIdx (by
              rw [rest_,TaskCollection.placeQueue_update fit.formed points,queues]),← level]
            constructor
            · intro level' place' other inside
              have low : level' ≤ idx := by
                by_contra high
                rw [above level' (by omega)] at inside
                cases inside
              have same : other.level = level' := by
                cases found' : (domain.priorities level').tasks with
                | none => simp [holding,found'] at inside
                | some tasks' =>
                  rw [holding_queue found'] at inside
                  unfold TaskCollection.placeQueue at inside
                  split at inside
                  · cases inside
                  · exact (consistent.fits level' tasks' found').task_level _ inside
              have below : other.level ≤ task.level := by omega
              have least := task.priority.least
              unfold Task.level Priority.index at below
              omega
            · rw [level]
              exact order
            · rw [level,queues,TaskCollection.placeQueue_of_pointer points,front]
      · rw [if_neg positive]
        apply passed
        intro place
        have nothing : tasks.held = [] := by
          rw [counted] at positive
          exact List.length_eq_zero_iff.mp (by omega)
        rw [holding_queue found]
        exact fit.placeQueue_of_held_nil nothing

theorem tryGetTask_follows (consistent : domain.Consistent) (thid : Int) (random : Nat → Nat) :
    ∃ answer next, domain.tryGetTask thid random = some (answer,next) ∧ next.Consistent ∧
      domain.holding.Takes thid answer next.holding := by
  apply search_follows consistent
  intro level late place
  by_contra some_
  cases found : (domain.priorities level).tasks with
  | none => simp [holding,found] at some_
  | some tasks =>
    have searched := consistent.searched level tasks found (by
      intro empty
      rw [holding_queue found,(consistent.fits level tasks found).placeQueue_of_held_nil empty] at some_
      exact some_ rfl)
    omega

theorem addThread_follows (consistent : domain.Consistent) {idx : Nat} (inside : idx < domain.cpuCount)
    (inactive : idx ∉ domain.activeThreadIds) :
    ∃ next, domain.addThread idx = some next ∧ next.Consistent ∧ next.holding = domain.holding.add idx := by
  unfold addThread
  rw [if_pos inside]
  refine ⟨_,rfl,?_,?_⟩
  · constructor
    · exact List.nodup_append.mpr ⟨consistent.distinct,List.nodup_singleton _,by
        intro other member another single
        obtain rfl := List.mem_singleton.mp single
        exact fun equal => inactive (equal ▸ member)⟩
    · intro other member
      rw [List.mem_append,List.mem_singleton] at member
      obtain member | rfl := member
      · exact consistent.small other member
      · exact inside
    · intro level nothing
      exact consistent.absent level (Option.map_eq_none_iff.mp nothing)
    · intro level tasks found
      obtain ⟨old,before,rfl⟩ := Option.map_eq_some_iff.mp found
      exact (consistent.fits level old before).registerThread inside
    · intro level tasks found
      obtain ⟨old,before,rfl⟩ := Option.map_eq_some_iff.mp found
      rw [TaskCollection.held_registerThread (consistent.fits level old before).formed]
      exact consistent.counted level old before
    · intro level tasks found
      obtain ⟨old,before,rfl⟩ := Option.map_eq_some_iff.mp found
      rw [TaskCollection.held_registerThread (consistent.fits level old before).formed]
      exact consistent.searched level old before
  · apply congrArg (Holding.mk (domain.activeThreadIds ++ [idx]))
    funext level place
    dsimp only
    cases found : (domain.priorities level).tasks with
    | none => simp [holding,found]
    | some tasks =>
      rw [holding_queue found,Option.map_some]
      dsimp only
      rw [(consistent.fits level tasks found).placeQueue_registerThread inside inactive]

theorem Consistent.deregister (consistent : domain.Consistent) {idx : Nat} (active : idx ∈ domain.activeThreadIds)
    (level : Nat) :
    (domain.deregister idx level = some none ∧ (domain.priorities level).tasks = none) ∨
    ∃ tasks rest, domain.deregister idx level = some (some rest) ∧ (domain.priorities level).tasks = some tasks ∧
      rest.Fit (domain.activeThreadIds.erase idx) domain.cpuCount level ∧ rest.held.Perm tasks.held ∧
      ∀ place, rest.placeQueue place =
        if place = none then tasks.placeQueue none ++ tasks.placeQueue (some idx)
        else if place = some idx then [] else tasks.placeQueue place := by
  unfold SchedulingDomain.deregister
  cases found : (domain.priorities level).tasks with
  | none => exact .inl ⟨rfl,rfl⟩
  | some tasks =>
    obtain ⟨rest,deregistered,moved⟩ :=
      (consistent.fits level tasks found).deregisterThread consistent.distinct active
    exact .inr ⟨tasks,rest,by simp [deregistered],rfl,moved⟩

theorem removeThread_follows (consistent : domain.Consistent) {idx : Nat} (active : idx ∈ domain.activeThreadIds) :
    ∃ next, domain.removeThread idx = some next ∧ next.Consistent ∧ next.holding = domain.holding.remove idx := by
  have levels := consistent.deregister active
  unfold removeThread
  rw [if_pos]
  · refine ⟨_,rfl,?_,?_⟩
    · constructor
      · exact consistent.distinct.erase idx
      · intro other member
        exact consistent.small other (List.mem_of_mem_erase member)
      · intro level nothing
        apply consistent.absent level
        obtain ⟨_,absent⟩ | ⟨tasks,rest,deregistered,_⟩ := levels level
        · exact absent
        · simp [deregistered] at nothing
      · intro level tasks found
        obtain ⟨deregistered,_⟩ | ⟨old,rest,deregistered,before,fit,_⟩ := levels level
        · simp [deregistered] at found
        · simp only [deregistered,Option.join_some,Option.some.injEq] at found
          subst found
          exact fit
      · intro level tasks found
        obtain ⟨deregistered,_⟩ | ⟨old,rest,deregistered,before,_,moved,_⟩ := levels level
        · simp [deregistered] at found
        · simp only [deregistered,Option.join_some,Option.some.injEq] at found
          subst found
          rw [moved.length_eq]
          exact consistent.counted level old before
      · intro level tasks found nonempty
        obtain ⟨deregistered,_⟩ | ⟨old,rest,deregistered,before,_,moved,_⟩ := levels level
        · simp [deregistered] at found
        · simp only [deregistered,Option.join_some,Option.some.injEq] at found
          subst found
          apply consistent.searched level old before
          intro empty
          rw [empty] at moved
          exact nonempty moved.eq_nil
    · apply congrArg (Holding.mk (domain.activeThreadIds.erase idx))
      funext level place
      obtain ⟨deregistered,absent⟩ | ⟨old,rest,deregistered,before,_,_,queues⟩ := levels level
      · simp [holding,deregistered,absent]
      · rw [holding_queue before,holding_queue before,holding_queue before]
        dsimp only
        rw [deregistered]
        exact queues place
  · refine ⟨?_,active,fun member => (consistent.distinct.mem_erase_iff.mp member).1 rfl⟩
    rw [List.all_eq_true]
    intro level _
    obtain ⟨deregistered,_⟩ | ⟨_,_,deregistered,_⟩ := levels level
    · simp [deregistered]
    · simp [deregistered]

def execute (domain : SchedulingDomain) : Op → Option (SchedulingDomain × Option Task)
  | .putTask task thid => (domain.putTask task thid).map (fun next => (next,none))
  | .tryGetTask thid random => (domain.tryGetTask thid random).map (fun (answer,next) => (next,answer))
  | .addThread idx => (domain.addThread idx).map (fun next => (next,none))
  | .removeThread idx => (domain.removeThread idx).map (fun next => (next,none))

def executes (domain : SchedulingDomain) : List Op → Option (SchedulingDomain × List (Option Task))
  | [] => some (domain,[])
  | op::ops =>
    match domain.execute op with
    | none => none
    | some (next,answer) => (executes next ops).map (fun (final,answers) => (final,answer::answers))

end SchedulingDomain

/-- Every active id is added once, below the collection size, and removed only
when it is active. -/
def Valid (cpuCount : Nat) : List Nat → List Op → Prop
  | _, [] => True
  | active, .putTask _ _ :: ops => Valid cpuCount active ops
  | active, .tryGetTask _ _ :: ops => Valid cpuCount active ops
  | active, .addThread idx :: ops => (idx < cpuCount ∧ idx ∉ active) ∧ Valid cpuCount (active ++ [idx]) ops
  | active, .removeThread idx :: ops => idx ∈ active ∧ Valid cpuCount (active.erase idx) ops

/-- The calls on a fresh domain answer as `Holding` allows, and every task put is
answered once or still held; they stop early only when a `put_task` finds no
memory for an entry. -/
def Served (cpuCount : Nat) (ops : List Op) : Prop :=
  match (SchedulingDomain.create cpuCount).executes ops with
  | some (final,answers) => Holding.empty.Follows ops answers final.holding ∧
      ∀ task, (puts ops).count task = answers.count (some task) + (final.holding.held task.level).count task
  | none => ∃ first task thid rest middle answers, ops = first ++ .putTask task thid :: rest ∧
      (SchedulingDomain.create cpuCount).executes first = some (middle,answers) ∧ middle.Full task.level

namespace SchedulingDomain

variable {domain : SchedulingDomain}

theorem execute_follows (consistent : domain.Consistent) (op : Op) (ops : List Op)
    (valid : Valid domain.cpuCount domain.activeThreadIds (op::ops)) :
    (domain.execute op = none ∧ ∃ task thid, op = .putTask task thid ∧ domain.Full task.level) ∨
    ∃ next answer, domain.execute op = some (next,answer) ∧ next.Consistent ∧
      Holding.Step domain.holding op answer next.holding ∧ Valid domain.cpuCount next.activeThreadIds ops := by
  cases op with
  | putTask task thid =>
    obtain ⟨failed,full⟩ | ⟨next,put,consistent',same⟩ := putTask_follows consistent task thid
    · exact .inl ⟨by simp [execute,failed],task,thid,rfl,full⟩
    · have actives : next.activeThreadIds = domain.activeThreadIds := congrArg Holding.active same
      refine .inr ⟨next,none,by simp [execute,put],consistent',?_,?_⟩
      · rw [same]
        exact .putTask _ task thid
      · rw [actives]
        exact valid
  | tryGetTask thid random =>
    obtain ⟨answer,next,taken,consistent',takes⟩ := tryGetTask_follows consistent thid random
    have actives : next.activeThreadIds = domain.activeThreadIds := takes.active_eq
    refine .inr ⟨next,answer,by simp [execute,taken],consistent',.tryGetTask _ _ thid random answer takes,?_⟩
    rw [actives]
    exact valid
  | addThread idx =>
    obtain ⟨next,added,consistent',same⟩ := addThread_follows consistent valid.1.1 valid.1.2
    have actives : next.activeThreadIds = domain.activeThreadIds ++ [idx] := congrArg Holding.active same
    refine .inr ⟨next,none,by simp [execute,added],consistent',?_,?_⟩
    · rw [same]
      exact .addThread _ idx valid.1.2
    · rw [actives]
      exact valid.2
  | removeThread idx =>
    obtain ⟨next,removed,consistent',same⟩ := removeThread_follows consistent valid.1
    have actives : next.activeThreadIds = domain.activeThreadIds.erase idx := congrArg Holding.active same
    refine .inr ⟨next,none,by simp [execute,removed],consistent',?_,?_⟩
    · rw [same]
      exact .removeThread _ idx valid.1
    · rw [actives]
      exact valid.2

theorem createLazy_cpuCount (level : Nat) : (domain.createLazy level).1.cpuCount = domain.cpuCount := by
  unfold createLazy
  split <;> rfl

theorem search_cpuCount {thid : Int} {random : Nat → Nat} {idx : Nat} {answer : Option Task}
    {next : SchedulingDomain} (searched : domain.search thid random idx = some (answer,next)) :
    next.cpuCount = domain.cpuCount := by
  induction idx with
  | zero =>
    obtain ⟨_,rfl⟩ := Prod.mk.inj (Option.some.inj searched)
    rfl
  | succ idx ih =>
    unfold search at searched
    split at searched
    · split at searched
      · cases searched
      · split at searched
        · obtain ⟨_,rfl⟩ := Prod.mk.inj (Option.some.inj searched)
          rfl
        · exact ih searched
    · exact ih searched

theorem execute_cpuCount {next : SchedulingDomain} {op : Op} {answer : Option Task}
    (executed : domain.execute op = some (next,answer)) : next.cpuCount = domain.cpuCount := by
  cases op with
  | putTask task thid =>
    obtain ⟨_,put,same⟩ := Option.map_eq_some_iff.mp executed
    obtain ⟨rfl,_⟩ := Prod.mk.inj same
    unfold putTask at put
    dsimp only at put
    split at put
    · cases put
    · obtain rfl := Option.some.inj put
      exact createLazy_cpuCount task.level
  | tryGetTask thid random =>
    obtain ⟨_,taken,same⟩ := Option.map_eq_some_iff.mp executed
    obtain ⟨rfl,_⟩ := Prod.mk.inj same
    exact search_cpuCount taken
  | addThread idx =>
    obtain ⟨_,added,same⟩ := Option.map_eq_some_iff.mp executed
    obtain ⟨rfl,_⟩ := Prod.mk.inj same
    unfold addThread at added
    split at added
    · obtain rfl := Option.some.inj added
      rfl
    · cases added
  | removeThread idx =>
    obtain ⟨_,removed,same⟩ := Option.map_eq_some_iff.mp executed
    obtain ⟨rfl,_⟩ := Prod.mk.inj same
    unfold removeThread at removed
    split at removed
    · obtain rfl := Option.some.inj removed
      rfl
    · cases removed

theorem executes_follows (consistent : domain.Consistent) (ops : List Op)
    (valid : Valid domain.cpuCount domain.activeThreadIds ops) :
    match domain.executes ops with
    | some (final,answers) => domain.holding.Follows ops answers final.holding
    | none => ∃ first task thid rest middle answers, ops = first ++ .putTask task thid :: rest ∧
        domain.executes first = some (middle,answers) ∧ middle.Full task.level := by
  induction ops generalizing domain with
  | nil => exact .nil _
  | cons op ops ih =>
    unfold executes
    obtain ⟨failed,task,thid,rfl,full⟩ | ⟨next,answer,executed,consistent',step,valid'⟩ :=
      execute_follows consistent op ops valid
    · rw [failed]
      exact ⟨[],task,thid,ops,domain,[],rfl,rfl,full⟩
    · rw [executed]
      dsimp only
      rw [← execute_cpuCount executed] at valid'
      have rest := ih consistent' valid'
      cases ran : next.executes ops with
      | some pair =>
        rw [ran] at rest
        exact .cons step rest
      | none =>
        rw [ran] at rest
        obtain ⟨first,task,thid,remaining,middle,answers,split,went,full⟩ := rest
        refine ⟨op::first,task,thid,remaining,middle,answer::answers,by rw [split]; rfl,?_,full⟩
        simp only [executed,went,Option.map_some]

end SchedulingDomain

/-- Valid calls one after another serve the highest priority first. -/
theorem serves_priorities (cpuCount : Nat) (ops : List Op) (valid : Valid cpuCount [] ops) : Served cpuCount ops := by
  have follows := SchedulingDomain.executes_follows (.create cpuCount) ops valid
  unfold Served
  cases ran : (SchedulingDomain.create cpuCount).executes ops with
  | none =>
    rw [ran] at follows
    exact follows
  | some pair =>
    rw [ran] at follows
    refine ⟨follows,fun task => ?_⟩
    have conserved := follows.conserved .empty task
    rw [← conserved]
    simp [SchedulingDomain.holding_create,Holding.held,Holding.empty,Holding.places,contents]

def mixedOps : List Op :=
  [.addThread 0,.putTask ⟨0,0,by decide,by decide⟩ 0,.addThread 1,.putTask ⟨1,5,by decide,by decide⟩ 1,
    .putTask ⟨2,5,by decide,by decide⟩ (-1),.tryGetTask 0 (fun _ => 3),.removeThread 1,.tryGetTask 0 (fun _ => 1),
    .tryGetTask (-1) (fun _ => 1),.tryGetTask 0 (fun _ => 0)]

theorem serves_mixedOps : Valid 2 [] mixedOps ∧ Served 2 mixedOps :=
  ⟨by simp [Valid,mixedOps],serves_priorities 2 mixedOps (by simp [Valid,mixedOps])⟩

example : ((SchedulingDomain.create 2).executes mixedOps).map (fun ran => ran.2.map (Option.map Task.id)) =
    some [none,none,none,none,none,some 2,none,some 1,some 0,none] := by decide

end Pgasus.Scheduler
