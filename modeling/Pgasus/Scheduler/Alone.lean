import Pgasus.Library.Outcomes
import Pgasus.Scheduler.Counters
import Pgasus.Scheduler.LockOrder

/-! A call of a scheduling domain that no other call overlaps does, step by step, what the
functions of one caller do. -/
namespace Pgasus.Scheduler
open Runs Outcomes

def alone (at_ : Shared × Pc) (choice : Nat) : Option (Shared × Pc) := act at_.1 choice at_.2

abbrev Ends (shared : Shared) (pc : Pc) (out : Shared) : Prop := Reaches alone (shared,pc) (out,.idle)

def SchedulingDomain.Performs (domain : SchedulingDomain) : Call → Option Task → SchedulingDomain → Prop
  | .putTask task thid, got, after => got = none ∧ domain.putTask task thid = some after
  | .tryGetTask thid, got, after => ∃ random, domain.tryGetTask thid random = some (got,after)
  | .change (.add idx), got, after => got = none ∧ domain.addThread idx = some after
  | .change (.remove idx), got, after => got = none ∧ domain.removeThread idx = some after

section Rules
variable {shared changed out : Shared} {pc next : Pc}

theorem busy_ne (busy : pc.isIdle = false) : (shared,pc) ≠ (out,Pc.idle) := by
  intro same
  rw [(Prod.mk.inj same).2] at busy
  cases busy

theorem ends_idle : Ends shared .idle out ↔ out = shared := by
  rw [Ends,reaches_end fun choice => rfl,Prod.mk.injEq,and_iff_left rfl]

theorem ends_goes (changed : Shared) (next : Pc) (busy : pc.isIdle = false) (goes : ∀ choice, act shared choice pc = some (changed,next)) :
    Ends shared pc out ↔ Ends changed next out := reaches_goes (busy_ne busy) goes

theorem not_ends (busy : pc.isIdle = false) (stuck : ∀ choice, act shared choice pc = none) : ¬Ends shared pc out :=
  not_reaches (busy_ne busy) stuck

theorem setPriority_self (domain : SchedulingDomain) (idx : Nat) : domain.setPriority idx (domain.priorities idx) = domain := by
  simp [SchedulingDomain.setPriority]

end Rules

section Put
variable {shared out : Shared} {task : Task} {thid : Int} {tasks : TaskCollection}

def Shared.stored (shared : Shared) (task : Task) (tasks : TaskCollection) : Shared :=
  let counted := shared.domain.setPriority task.level ⟨some tasks,(shared.count task.level + 1) % 2^64⟩
  {shared with
    domain := {counted with topPriorityIdx := max counted.topPriorityIdx task.level}
    done := task::shared.done}

def Shared.lazily (shared : Shared) (level : Nat) : Shared :=
  {shared with
    domain := (shared.domain.createLazy level).1
    published := if (shared.collection level).isNone then level::shared.published else shared.published}

theorem ends_putRaise : Ends shared (.putRaise task shared.domain.topPriorityIdx) out ↔
    out = {shared with
      domain := {shared.domain with topPriorityIdx := max shared.domain.topPriorityIdx task.level}
      done := task::shared.done} := by
  by_cases low : task.level ≤ shared.domain.topPriorityIdx
  · rw [ends_goes (shared.finish task) .idle rfl fun _ => by rw [act,if_pos low],ends_idle,
      max_eq_left low]
    rfl
  · have raised : act shared 0 (.putRaise task shared.domain.topPriorityIdx) = some ((shared.setHead task.level).finish task,.idle) := by
      rw [act,if_neg low,if_pos ⟨rfl,rfl⟩]
    rw [Ends,reaches_retry (busy_ne rfl) (fun choice => ?_) (show alone _ 0 = _ from raised),← Ends,ends_idle,
      max_eq_right (Nat.le_of_not_le low)]
    · rfl
    · by_cases taken : choice = 0
      · subst taken
        exact .inr raised
      · refine .inl ?_
        rw [alone,act,if_neg low,if_neg fun both => taken both.2]

theorem ends_putLoad (found : shared.collection task.level = some tasks) : Ends shared (.putLoad task thid) out ↔
    ∃ placed, tasks.put task (toSize thid) = some placed ∧ out = shared.stored task placed := by
  rw [ends_goes shared (.putPush task ((tasks.getThreadQueue (toSize thid)).getD TaskCollection.globalTasks))
    rfl fun _ => by rw [act,found]]
  generalize queued : (tasks.getThreadQueue (toSize thid)).getD TaskCollection.globalTasks = queue
  by_cases room : tasks.held.length < queueCapacity
  · have pushed : shared.pushBack task.level queue task = some (shared.setCollection task.level (tasks.pushBack queue task)) := by
      rw [Shared.pushBack,found]
      exact if_pos room
    rw [ends_goes (shared.setCollection task.level (tasks.pushBack queue task)) (.putCount task)
        rfl fun _ => by rw [act,pushed]; rfl,
      ends_goes _ _ rfl fun _ => rfl,ends_goes _ _ rfl fun _ => rfl,ends_putRaise]
    simp only [TaskCollection.put,if_pos room,queued,Option.some.injEq,exists_eq_left']
    simp only [Shared.stored,Shared.setCount,Shared.setCollection,Shared.count,Shared.collection,SchedulingDomain.setPriority,
      Function.update_self,Function.update_idem]
  · have full : shared.pushBack task.level queue task = none := by
      rw [Shared.pushBack,found]
      exact if_neg room
    refine iff_of_false (not_ends rfl fun _ => by rw [act,full]; rfl) ?_
    rintro ⟨placed,put,-⟩
    rw [TaskCollection.put,if_neg room] at put
    cases put

theorem ends_putTest (free : shared.mutexes task.level = false) (inactive : shared.activeMutex = false)
    (small : ∀ idx ∈ shared.domain.activeThreadIds, idx < shared.domain.cpuCount) :
    Ends shared (.putTest task thid) out ↔ Ends (shared.lazily task.level) (.putLoad task thid) out := by
  cases found : shared.collection task.level with
  | some tasks =>
    have lazily : shared.lazily task.level = shared := by
      have priority : (shared.domain.priorities task.level).tasks = some tasks := found
      simp [Shared.lazily,found,SchedulingDomain.createLazy,priority]
    rw [ends_goes shared (.putLoad task thid) rfl fun _ => by rw [act,found]; rfl,lazily]
  | none =>
    let locked := shared.setMutex task.level true
    let reset := locked.setCount task.level 0
    have stored : shared.lazily task.level = ((((reset.setActiveMutex true).publish task.level shared.domain.newCollection).setActiveMutex
        false).setMutex task.level false) := by
      have priority : (shared.domain.priorities task.level).tasks = none := found
      have mutexes : Function.update (Function.update shared.mutexes task.level true) task.level false = shared.mutexes := by
        rw [Function.update_idem,← free,Function.update_eq_self]
      simp [Shared.lazily,found,SchedulingDomain.createLazy,priority,locked,reset,Shared.setMutex,Shared.setCount,Shared.setActiveMutex,
        Shared.publish,Shared.setCollection,Shared.count,SchedulingDomain.setPriority,mutexes,inactive]
    rw [ends_goes shared (.putLock task thid) rfl fun _ => by rw [act,found]; rfl,
      ends_goes locked (.putRetest task thid) rfl fun _ => by rw [act,free]; rfl,
      ends_goes locked (.putReset task thid) rfl fun _ => by
        rw [act,show locked.collection task.level = none from found]
        rfl,
      ends_goes reset (.putLockActive task thid) rfl fun _ => rfl,
      ends_goes (reset.setActiveMutex true) (.putPublish task thid shared.domain.newCollection)
        rfl fun _ => by
          have all : reset.domain.activeThreadIds.all (· < reset.domain.cpuCount) = true :=
            List.all_eq_true.mpr fun idx inside => decide_eq_true (small idx inside)
          rw [act,if_neg (by rw [show reset.activeMutex = false from inactive]; decide),if_pos all]
          rfl,
      ends_goes _ _ rfl fun _ => rfl,ends_goes _ _ rfl fun _ => rfl,
      ends_goes _ _ rfl fun _ => rfl,stored]

theorem collection_lazily (level : Nat) : (shared.lazily level).collection level = some (shared.domain.createLazy level).2 := by
  cases priority : (shared.domain.priorities level).tasks with
  | some tasks => simp [Shared.lazily,Shared.collection,SchedulingDomain.createLazy,priority]
  | none => simp [Shared.lazily,Shared.collection,SchedulingDomain.createLazy,priority,SchedulingDomain.setPriority]

theorem ends_put (free : shared.mutexes task.level = false) (inactive : shared.activeMutex = false)
    (small : ∀ idx ∈ shared.domain.activeThreadIds, idx < shared.domain.cpuCount) :
    Ends shared (.putTest task thid) out ↔ ∃ after, shared.domain.putTask task thid = some after ∧
      out = {shared with domain := after,done := task::shared.done,published := (shared.lazily task.level).published} := by
  rw [ends_putTest free inactive small,ends_putLoad (collection_lazily task.level)]
  cases put : (shared.domain.createLazy task.level).2.put task (toSize thid) with
  | none => simp [SchedulingDomain.putTask,put]
  | some placed =>
    simp only [SchedulingDomain.putTask,put,Option.some.injEq,exists_eq_left']
    rfl

end Put

section Get
variable {shared out : Shared} {thid : Int} {level : Nat} {tasks : TaskCollection} {pc missed : Pc}

def Shared.handed (shared : Shared) (level : Nat) (task : Task) (rest : TaskCollection) : Shared :=
  {shared with
    domain := shared.domain.setPriority level ⟨some rest,(shared.count level + (2^64 - 1)) % 2^64⟩
    got := task::shared.got}

def Shared.Gives (shared : Shared) (level : Nat) (missed : Prop) (out : Shared) : Option (Task × TaskCollection) → Prop
  | some (task,rest) => out = shared.handed level task rest
  | none => missed

theorem ends_pop (found : shared.collection level = some tasks) {queue : Nat} (busy : pc.isIdle = false)
    (pops : ∀ choice, act shared choice pc = shared.tryPopFront level queue (.getTaken level) missed) :
    Ends shared pc out ↔ shared.Gives level (Ends shared missed out) out (tasks.tryPopFront queue) := by
  cases popped : tasks.tryPopFront queue with
  | none =>
    rw [ends_goes shared missed busy fun choice => by rw [pops,Shared.tryPopFront,found]; simp only [popped]]
    rfl
  | some taken =>
    obtain ⟨task,rest⟩ := taken
    rw [ends_goes (shared.setCollection level rest) (.getTaken level task) busy fun choice => by
        rw [pops,Shared.tryPopFront,found]; simp only [popped],
      ends_goes _ _ rfl fun _ => rfl,ends_idle,Shared.Gives]
    simp only [Shared.handed,Shared.give,Shared.setCount,Shared.setCollection,Shared.count,Shared.collection,
      SchedulingDomain.setPriority,Function.update_self,Function.update_idem]

theorem ends_getSteal (found : shared.collection level = some tasks) (i rounds : Nat) :
    Ends shared (.getSteal thid level i rounds) out ↔
      shared.Gives level (Ends shared (.getCount thid level) out) out (tasks.steal tasks.threadTasks.length i rounds) := by
  induction rounds generalizing i with
  | zero =>
    rw [ends_goes _ _ rfl fun _ => rfl]
    rfl
  | succ rounds ih =>
    cases pointed : tasks.getThreadQueue (TaskCollection.stealIndex tasks.threadTasks.length i) with
    | none =>
      have steal : tasks.steal tasks.threadTasks.length i (rounds + 1) = tasks.steal tasks.threadTasks.length (i + 1) rounds := by
        rw [TaskCollection.steal,TaskCollection.tryGetThreadTask,pointed]
      rw [ends_goes shared (.getSteal thid level (i + 1) rounds) rfl fun _ => by
        rw [act,found]; simp only [pointed],ih,steal]
    | some queue =>
      rw [ends_goes shared (.getStealPop thid level i rounds queue) rfl fun _ => by
          rw [act,found]; simp only [pointed],
        ends_pop found rfl fun _ => rfl,TaskCollection.steal,TaskCollection.tryGetThreadTask,pointed]
      simp only
      cases tasks.tryPopFront queue with
      | none => exact ih (i + 1)
      | some taken => rfl

theorem ends_getStart (found : shared.collection level = some tasks) : Ends shared (.getStart thid level) out ↔
    ∃ random : Nat, shared.Gives level (Ends shared (.getCount thid level) out) out
      (if tasks.threadTasks.length > 0 then tasks.steal tasks.threadTasks.length (random % tasks.threadTasks.length)
        tasks.threadTasks.length else none) := by
  by_cases some_ : tasks.threadTasks.length > 0
  · simp only [if_pos some_,← ends_getSteal found]
    rw [Ends,reaches_iff (busy_ne rfl)]
    simp only [alone,act,found,if_pos some_,Option.some.injEq,exists_eq_left']
  · simp only [if_neg some_,exists_const]
    rw [ends_goes shared (.getCount thid level) rfl fun _ => by
      rw [act,found]; simp only [if_neg some_]]
    rfl

theorem ends_getGlobal (found : shared.collection level = some tasks) : Ends shared (.getGlobal thid level) out ↔
    ∃ random : Nat, shared.Gives level (Ends shared (.getCount thid level) out) out
      (match tasks.tryPopFront TaskCollection.globalTasks with
        | some taken => some taken
        | none =>
          if tasks.threadTasks.length > 0 then tasks.steal tasks.threadTasks.length (random % tasks.threadTasks.length)
            tasks.threadTasks.length else none) := by
  rw [ends_pop found rfl fun _ => rfl]
  cases tasks.tryPopFront TaskCollection.globalTasks with
  | none => exact ends_getStart found
  | some taken =>
    simp only [exists_const]
    rfl

theorem ends_getOwn (found : shared.collection level = some tasks) : Ends shared (.getOwn thid level) out ↔
    ∃ random, shared.Gives level (Ends shared (.getCount thid level) out) out (tasks.tryGet (toSize thid) random) := by
  simp only [TaskCollection.tryGet,TaskCollection.tryGetThreadTask]
  cases pointed : tasks.getThreadQueue (toSize thid) with
  | none =>
    rw [ends_goes shared (.getGlobal thid level) rfl fun _ => by
      rw [act,found]; simp only [pointed]]
    exact ends_getGlobal found
  | some queue =>
    rw [ends_goes shared (.getOwnPop thid level queue) rfl fun _ => by
        rw [act,found]; simp only [pointed],
      ends_pop found rfl fun _ => rfl]
    cases popped : tasks.tryPopFront queue with
    | none =>
      simp only [popped]
      exact ends_getGlobal found
    | some taken =>
      simp only [popped,exists_const]
      rfl

theorem search_congr (domain : SchedulingDomain) (thid : Int) {first second : Nat → Nat} {level : Nat}
    (same : ∀ idx < level, first idx = second idx) : domain.search thid first level = domain.search thid second level := by
  induction level with
  | zero => rfl
  | succ level ih =>
    rw [SchedulingDomain.search,SchedulingDomain.search,same level (Nat.lt_succ_self level),
      ih fun idx inside => same idx (Nat.lt_succ_of_lt inside)]

theorem ends_getCount (level : Nat) : Ends shared (.getCount thid level) out ↔
    ∃ random got after, shared.domain.search thid random level = some (got,after) ∧
      out = {shared with domain := after,got := got.toList ++ shared.got} := by
  induction level with
  | zero =>
    rw [ends_goes _ _ rfl fun _ => rfl,ends_idle]
    simp [SchedulingDomain.search]
  | succ level ih =>
    by_cases counted : shared.count level > 0
    · have counts : (shared.domain.priorities level).count > 0 := counted
      rw [ends_goes shared (.getOwn thid level) rfl fun _ => by rw [act,if_pos counted]]
      cases found : shared.collection level with
      | none =>
        have none_ : (shared.domain.priorities level).tasks = none := found
        refine iff_of_false (not_ends rfl fun _ => by rw [act,found]) ?_
        rintro ⟨random,got,after,searched,-⟩
        rw [SchedulingDomain.search,if_pos counts,none_] at searched
        cases searched
      | some tasks =>
        have some_ : (shared.domain.priorities level).tasks = some tasks := found
        rw [ends_getOwn found]
        simp only [SchedulingDomain.search,if_pos counts,some_]
        constructor
        · rintro ⟨drawn,gives⟩
          cases got : tasks.tryGet (toSize thid) drawn with
          | some taken =>
            rw [got] at gives
            exact ⟨fun _ => drawn,some taken.1,_,by rw [got]; rfl,gives⟩
          | none =>
            rw [got] at gives
            obtain ⟨random,got_,after,searched,rfl⟩ := ih.mp gives
            refine ⟨Function.update random level drawn,got_,after,?_,rfl⟩
            rw [Function.update_self,got,← searched]
            exact search_congr _ _ fun idx inside => Function.update_of_ne (Nat.ne_of_lt inside) _ _
        · rintro ⟨random,got_,after,searched,rfl⟩
          refine ⟨random level,?_⟩
          cases got : tasks.tryGet (toSize thid) (random level) with
          | some taken =>
            rw [got] at searched
            obtain ⟨rfl,rfl⟩ := Prod.mk.inj (Option.some.inj searched)
            rfl
          | none =>
            rw [got] at searched
            exact ih.mpr ⟨random,got_,after,searched,rfl⟩
    · have counts : ¬(shared.domain.priorities level).count > 0 := counted
      rw [ends_goes shared (.getCount thid level) rfl fun _ => by rw [act,if_neg counted],ih]
      simp only [SchedulingDomain.search,if_neg counts]

theorem ends_get : Ends shared (.getHead thid) out ↔ ∃ random got after, shared.domain.tryGetTask thid random = some (got,after) ∧
    out = {shared with domain := after,got := got.toList ++ shared.got} := by
  rw [ends_goes _ _ rfl fun _ => rfl,ends_getCount]
  rfl

end Get

section Change
variable {shared out : Shared} {change : Change} {domain : SchedulingDomain} {changed : Nat → PriorityTasks}

def SchedulingDomain.below (domain : SchedulingDomain) (changed : Nat → PriorityTasks) (index : Nat) : SchedulingDomain :=
  {domain with priorities := fun level => if level < index then changed level else domain.priorities level}

theorem below_zero (domain : SchedulingDomain) (changed : Nat → PriorityTasks) : domain.below changed 0 = domain := by
  simp [SchedulingDomain.below]

theorem below_at (domain : SchedulingDomain) (changed : Nat → PriorityTasks) (index : Nat) : (domain.below changed index).priorities index = domain.priorities index :=
  if_neg (Nat.lt_irrefl index)

theorem below_succ (domain : SchedulingDomain) (changed : Nat → PriorityTasks) (index : Nat) : (domain.below changed index).setPriority index (changed index) = domain.below changed (index + 1) := by
  simp only [SchedulingDomain.below,SchedulingDomain.setPriority]
  congr 1
  funext level
  rw [Function.update_apply]
  obtain less | rfl | more := Nat.lt_trichotomy level index
  · rw [if_neg (Nat.ne_of_lt less),if_pos less,if_pos (Nat.lt_succ_of_lt less)]
  · rw [if_pos rfl,if_pos (Nat.lt_succ_self _)]
  · rw [if_neg (Nat.ne_of_gt more),if_neg (Nat.lt_asymm more),if_neg (by omega)]

theorem below_all (beyond : ∀ level, Priority.maxIndex < level → changed level = domain.priorities level) :
    domain.below changed (Priority.maxIndex + 1) = {domain with priorities := changed} := by
  simp only [SchedulingDomain.below]
  congr 1
  funext level
  split
  · rfl
  · exact (beyond level (by omega)).symm

def Shared.locked (shared : Shared) : Shared :=
  {shared with mutexes := fun level => decide (level ≤ Priority.maxIndex),activeMutex := true}

theorem update_below (index : Nat) :
    Function.update (fun level => decide (level < index)) index true = fun level => decide (level < index + 1) := by
  funext level
  rw [Function.update_apply]
  split
  next same => exact (decide_eq_true (by omega)).symm
  next different => exact decide_eq_decide.mpr (by omega)

theorem update_above (index : Nat) :
    Function.update (fun level => decide (index ≤ level ∧ level ≤ Priority.maxIndex)) index false =
      fun level => decide (index + 1 ≤ level ∧ level ≤ Priority.maxIndex) := by
  funext level
  rw [Function.update_apply]
  split
  next same => exact (decide_eq_false (by omega)).symm
  next different => exact decide_eq_decide.mpr (by omega)

theorem ends_lock (free : ∀ level, shared.mutexes level = false) (inactive : shared.activeMutex = false) :
    Ends shared (.lock change 0) out ↔ Ends shared.locked (.visit change 0) out := by
  let states (index : Nat) : Shared × Pc := ({shared with mutexes := fun level => decide (level < index)},.lock change index)
  have start : states 0 = (shared,.lock change 0) := by
    have none_ : shared.mutexes = fun _ => false := funext free
    simp [states,← none_]
  have rounds := reaches_rounds alone states (fun _ => True) (out,.idle) (Priority.maxIndex + 1) fun index inside => by
      rw [true_and]
      refine reaches_goes (busy_ne rfl) fun choice => ?_
      have open_ : decide (index < index) = false := decide_eq_false (Nat.lt_irrefl index)
      simp only [states,alone,act,if_pos (Nat.le_of_lt_succ inside),open_,Shared.setMutex,update_below]
      rfl
  rw [start] at rounds
  rw [Ends,rounds,and_iff_right fun _ _ => trivial]
  refine ends_goes shared.locked (.visit change 0) rfl fun choice => ?_
  simp only [act,if_neg (Nat.not_succ_le_self _),inactive,Shared.setActiveMutex,Shared.locked,Nat.lt_succ_iff]
  rfl

theorem ends_unlock (shared : Shared) (free : ∀ level, shared.mutexes level = false) (inactive : shared.activeMutex = false) :
    Ends shared.locked (.unlockActive change) out ↔ out = shared := by
  let states (index : Nat) : Shared × Pc :=
    ({shared with mutexes := fun level => decide (index ≤ level ∧ level ≤ Priority.maxIndex)},.unlock change index)
  have rounds := reaches_rounds alone states (fun _ => True) (out,.idle) (Priority.maxIndex + 1) fun index inside => by
      rw [true_and]
      refine reaches_goes (busy_ne rfl) fun choice => ?_
      simp only [states,alone,act,if_pos (Nat.le_of_lt_succ inside),Shared.setMutex,update_above]
  have start : (shared.locked.setActiveMutex false,Pc.unlock change 0) = states 0 := by
    simp [states,Shared.locked,Shared.setActiveMutex,inactive]
  have final : states (Priority.maxIndex + 1) = (shared,.unlock change (Priority.maxIndex + 1)) := by
    have none_ : shared.mutexes = fun _ => false := funext free
    have empty (level : Nat) : decide (Priority.maxIndex + 1 ≤ level ∧ level ≤ Priority.maxIndex) = false := decide_eq_false (by omega)
    simp only [states,empty,← none_]
  rw [ends_goes _ _ rfl fun _ => rfl,Ends,start,rounds,and_iff_right fun _ _ => trivial,final,← Ends,
    ends_goes shared .idle rfl fun _ => by rw [act,if_neg (Nat.not_succ_le_self _)],
    ends_idle]

theorem ends_absent {index : Nat} (inside : index ≤ Priority.maxIndex) (none_ : shared.collection index = none) :
    Ends shared (.visit change index) out ↔ Ends shared (.visit change (index + 1)) out :=
  ends_goes _ _ rfl fun choice => by simp only [act,if_pos inside,none_]

def SchedulingDomain.registered (domain : SchedulingDomain) (idx level : Nat) : PriorityTasks :=
  ⟨(domain.priorities level).tasks.map (·.registerThread idx),(domain.priorities level).count⟩

theorem ends_register (shared : Shared) {idx : Nat} (fits : ∀ level tasks, shared.collection level = some tasks → idx < tasks.threadTasks.length) :
    Ends shared (.visit (.add idx) 0) out ↔
      Ends {shared with domain := shared.domain.below (shared.domain.registered idx) (Priority.maxIndex + 1)}
        (.visit (.add idx) (Priority.maxIndex + 1)) out := by
  let states (index : Nat) : Shared × Pc :=
    ({shared with domain := shared.domain.below (shared.domain.registered idx) index},.visit (.add idx) index)
  have rounds := reaches_rounds alone states (fun _ => True) (out,.idle) (Priority.maxIndex + 1) fun index inside => by
      rw [true_and]
      have same := below_at shared.domain (shared.domain.registered idx) index
      show Ends {shared with domain := shared.domain.below (shared.domain.registered idx) index} (.visit (.add idx) index) out ↔
        Ends {shared with domain := shared.domain.below (shared.domain.registered idx) (index + 1)} (.visit (.add idx) (index + 1)) out
      rw [← below_succ]
      cases found : (shared.domain.priorities index).tasks with
      | none =>
        have stays : shared.domain.registered idx index = shared.domain.priorities index := by
          rw [SchedulingDomain.registered,found,Option.map_none,← found]
        rw [stays,← same,setPriority_self]
        exact ends_absent (Nat.le_of_lt_succ inside) ((congrArg PriorityTasks.tasks same).trans found)
      | some tasks =>
        refine ends_goes _ _ rfl fun choice => ?_
        have here : (⟨shared.domain.below (shared.domain.registered idx) index,shared.mutexes,shared.activeMutex,shared.begun,
            shared.done,shared.got,shared.published⟩ : Shared).collection index = some tasks :=
          (congrArg PriorityTasks.tasks same).trans found
        simp only [act,if_pos (Nat.le_of_lt_succ inside),here,if_pos (fits index tasks found),Shared.setCollection,Shared.count,same,
          SchedulingDomain.registered,found,Option.map_some]
  have start : states 0 = (shared,.visit (.add idx) 0) := by simp only [states,below_zero]
  rw [start] at rounds
  rw [Ends,rounds,and_iff_right fun _ _ => trivial]

theorem ends_add {idx : Nat} (free : ∀ level, shared.mutexes level = false) (inactive : shared.activeMutex = false)
    (inside : idx < shared.domain.cpuCount)
    (fits : ∀ level tasks, shared.collection level = some tasks → tasks.threadTasks.length = shared.domain.cpuCount)
    (beyond : ∀ level, Priority.maxIndex < level → shared.collection level = none) :
    Ends shared (.lock (.add idx) 0) out ↔ ∃ after, shared.domain.addThread idx = some after ∧ out = {shared with domain := after} := by
  have small (level : Nat) (tasks : TaskCollection) (found : shared.collection level = some tasks) : idx < tasks.threadTasks.length :=
    inside.trans_eq (fits level tasks found).symm
  have above (level : Nat) (large : Priority.maxIndex < level) : shared.domain.registered idx level = shared.domain.priorities level := by
    have none_ : (shared.domain.priorities level).tasks = none := beyond level large
    rw [SchedulingDomain.registered,none_,Option.map_none,← none_]
  rw [ends_lock free inactive,ends_register shared.locked small,
    ends_goes _ (.record (.add idx)) rfl fun _ => by rw [act,if_neg (Nat.not_succ_le_self _)],
    ends_goes _ _ rfl fun _ => rfl,Shared.locked,below_all above]
  simp only [SchedulingDomain.addThread,if_pos inside,Option.some.injEq,exists_eq_left']
  exact ends_unlock ⟨_,shared.mutexes,shared.activeMutex,shared.begun,shared.done,shared.got,shared.published⟩ free inactive

theorem setCollection_self {level : Nat} {tasks : TaskCollection} (found : shared.collection level = some tasks) :
    shared.setCollection level tasks = shared := by
  rw [Shared.setCollection,← found,Shared.collection,Shared.count,setPriority_self]

theorem setCollection_twice (level : Nat) (first second : TaskCollection) :
    (shared.setCollection level first).setCollection level second = shared.setCollection level second := by
  simp [Shared.setCollection,Shared.count,SchedulingDomain.setPriority]

theorem ends_drain {idx level queue : Nat} {tasks : TaskCollection} (found : shared.collection level = some tasks) (formed : tasks.Formed)
    (different : queue ≠ TaskCollection.globalTasks) (inside : queue < tasks.constructed) (room : tasks.held.length ≤ queueCapacity) :
    Ends shared (.drain idx level queue) out ↔
      Ends (shared.setCollection level (TaskCollection.drain queue (tasks.queues queue).length tasks)) (.visit (.remove idx) (level + 1)) out := by
  generalize filled : tasks.queues queue = items
  induction items generalizing shared tasks with
  | nil =>
    rw [TaskCollection.drain_nil filled,setCollection_self found]
    exact ends_goes shared (.visit (.remove idx) (level + 1)) rfl fun _ => by
      rw [act,Shared.tryPopFront,found]
      simp only [TaskCollection.tryPopFront_none.mpr filled]
  | cons task items ih =>
    have popped := TaskCollection.tryPopFront_of_cons filled
    generalize emptied : ({tasks with queues := Function.update tasks.queues queue items} : TaskCollection) = rest at popped
    have global : TaskCollection.globalTasks < rest.constructed := (formed.tryPopFront popped).global
    have fewer := (TaskCollection.held_tryPopFront formed popped).length_eq
    have more : (rest.pushBack TaskCollection.globalTasks task).held.length = (task::rest.held).length :=
      (TaskCollection.held_pushBack task global).length_eq
    have left : (rest.pushBack TaskCollection.globalTasks task).queues queue = items := by
      rw [← emptied]
      exact (Queues.push_other different).trans (Function.update_self _ _ _)
    rw [List.length_cons] at fewer more
    rw [ends_goes (shared.setCollection level rest) (.move idx level queue task) rfl fun _ => by
        rw [act,Shared.tryPopFront,found]
        simp only [popped],
      ends_goes ((shared.setCollection level rest).setCollection level (rest.pushBack TaskCollection.globalTasks task))
          (.drain idx level queue) rfl fun _ => by
        have room_ : rest.held.length < queueCapacity := by omega
        simp only [act,Shared.pushBack,Shared.collection_setCollection,if_pos,room_,Option.map_some],
      setCollection_twice,
      ih (by simp) ((formed.tryPopFront popped).pushBack global) (by rw [← emptied]; exact inside) (by omega) left,setCollection_twice,
      List.length_cons,TaskCollection.drain,popped]

theorem ends_leave {idx index : Nat} {tasks : TaskCollection} (inside : index ≤ Priority.maxIndex)
    (found : shared.collection index = some tasks) (formed : tasks.Formed) (room : tasks.held.length ≤ queueCapacity) :
    Ends shared (.visit (.remove idx) index) out ↔ ∃ after, tasks.deregisterThread idx = some after ∧
      Ends (shared.setCollection index after) (.visit (.remove idx) (index + 1)) out := by
  cases pointed : tasks.getThreadQueue idx with
  | none =>
    refine iff_of_false (not_ends rfl fun _ => ?_) ?_
    · simp only [act,if_pos inside,found,pointed,Option.map_none]
    · rintro ⟨after,left,-⟩
      simp only [TaskCollection.deregisterThread,pointed] at left
      cases left
  | some queue =>
    obtain ⟨above,constructed⟩ := formed.pointed idx queue pointed
    rw [ends_goes shared (.clear idx index queue) rfl fun _ => by simp only [act,if_pos inside,found,pointed,Option.map_some],
      ends_goes (shared.setCollection index (tasks.clearPointer idx)) (.drain idx index queue) rfl fun _ => by
        simp only [act,found,Option.map_some],
      ends_drain (by simp) (formed.clearPointer idx) (Nat.ne_of_gt above) constructed room,setCollection_twice]
    simp only [TaskCollection.deregisterThread,pointed,Option.some.injEq,exists_eq_left']
    rfl

def SchedulingDomain.deregistered (domain : SchedulingDomain) (idx level : Nat) : PriorityTasks :=
  ⟨(domain.deregister idx level).join,(domain.priorities level).count⟩

theorem deregistered_none (idx : Nat) {level : Nat} (none_ : (domain.priorities level).tasks = none) :
    domain.deregister idx level = some none ∧ domain.deregistered idx level = domain.priorities level := by
  have passed : domain.deregister idx level = some none := by rw [SchedulingDomain.deregister,none_]
  exact ⟨passed,by rw [SchedulingDomain.deregistered,passed,Option.join_some,← none_]⟩

theorem ends_deregister (shared : Shared) {idx : Nat} (formed : ∀ level tasks, shared.collection level = some tasks → tasks.Formed)
    (room : ∀ level tasks, shared.collection level = some tasks → tasks.held.length ≤ queueCapacity) :
    Ends shared (.visit (.remove idx) 0) out ↔ (∀ level < Priority.maxIndex + 1, (shared.domain.deregister idx level).isSome = true) ∧
      Ends {shared with domain := shared.domain.below (shared.domain.deregistered idx) (Priority.maxIndex + 1)}
        (.visit (.remove idx) (Priority.maxIndex + 1)) out := by
  let states (index : Nat) : Shared × Pc :=
    ({shared with domain := shared.domain.below (shared.domain.deregistered idx) index},.visit (.remove idx) index)
  have rounds := reaches_rounds alone states (fun level => (shared.domain.deregister idx level).isSome = true) (out,.idle)
    (Priority.maxIndex + 1) fun index inside => by
      have same := below_at shared.domain (shared.domain.deregistered idx) index
      show Ends {shared with domain := shared.domain.below (shared.domain.deregistered idx) index} (.visit (.remove idx) index) out ↔
        (shared.domain.deregister idx index).isSome = true ∧
          Ends {shared with domain := shared.domain.below (shared.domain.deregistered idx) (index + 1)} (.visit (.remove idx) (index + 1)) out
      rw [← below_succ]
      cases found : (shared.domain.priorities index).tasks with
      | none =>
        obtain ⟨passed,stays⟩ := deregistered_none idx found
        rw [stays,← same,setPriority_self,passed,Option.isSome_some,and_iff_right rfl]
        exact ends_absent (Nat.le_of_lt_succ inside) ((congrArg PriorityTasks.tasks same).trans found)
      | some tasks =>
        have here : ({shared with domain := shared.domain.below (shared.domain.deregistered idx) index} : Shared).collection index =
            some tasks := (congrArg PriorityTasks.tasks same).trans found
        rw [ends_leave (Nat.le_of_lt_succ inside) here (formed index tasks found) (room index tasks found)]
        cases left : tasks.deregisterThread idx with
        | none => simp [SchedulingDomain.deregister,found,left]
        | some after =>
          simp only [SchedulingDomain.deregistered,SchedulingDomain.deregister,found,left,Option.map_some,Option.join_some,
            Option.isSome_some,true_and,Option.some.injEq,exists_eq_left',Shared.setCollection,Shared.count,same]
  have start : states 0 = (shared,.visit (.remove idx) 0) := by simp only [states,below_zero]
  rw [start] at rounds
  exact rounds

theorem ends_record (shared : Shared) {idx : Nat}
    (once : idx ∈ shared.domain.activeThreadIds ∧ idx ∉ shared.domain.activeThreadIds.erase idx) :
    Ends shared (.record (.remove idx)) out ↔
      Ends (shared.setActive (shared.domain.activeThreadIds.erase idx)) (.unlockActive (.remove idx)) out :=
  ends_goes _ _ rfl fun _ => if_pos once

theorem ends_remove {idx : Nat} (free : ∀ level, shared.mutexes level = false) (inactive : shared.activeMutex = false)
    (formed : ∀ level tasks, shared.collection level = some tasks → tasks.Formed)
    (room : ∀ level tasks, shared.collection level = some tasks → tasks.held.length ≤ queueCapacity)
    (beyond : ∀ level, Priority.maxIndex < level → shared.collection level = none) :
    Ends shared (.lock (.remove idx) 0) out ↔ ∃ after, shared.domain.removeThread idx = some after ∧ out = {shared with domain := after} := by
  have above (level : Nat) (large : Priority.maxIndex < level) : shared.domain.deregistered idx level = shared.domain.priorities level :=
    (deregistered_none idx (beyond level large)).2
  have all : (List.range (Priority.maxIndex + 1)).all (fun level => (shared.domain.deregister idx level).isSome) = true ↔
      ∀ level < Priority.maxIndex + 1, (shared.domain.deregister idx level).isSome = true := by
    simp only [List.all_eq_true,List.mem_range]
  rw [ends_lock free inactive,ends_deregister shared.locked formed room,
    ends_goes _ (.record (.remove idx)) rfl fun _ => by rw [act,if_neg (Nat.not_succ_le_self _)]]
  by_cases once : idx ∈ shared.domain.activeThreadIds ∧ idx ∉ shared.domain.activeThreadIds.erase idx
  · rw [Shared.locked,below_all above,ends_record ⟨{shared.domain with priorities := shared.domain.deregistered idx},_,_,_,_,_,_⟩ once]
    by_cases leaves : ∀ level < Priority.maxIndex + 1, (shared.domain.deregister idx level).isSome = true
    · simp only [SchedulingDomain.removeThread,if_pos (show _ ∧ _ from ⟨all.mpr leaves,once⟩),Option.some.injEq,exists_eq_left']
      rw [and_iff_right leaves]
      exact ends_unlock ⟨_,shared.mutexes,shared.activeMutex,shared.begun,shared.done,shared.got,shared.published⟩ free inactive
    · refine iff_of_false (fun both => leaves both.1) ?_
      rintro ⟨after,removed,-⟩
      rw [SchedulingDomain.removeThread,if_neg fun both => leaves (all.mp both.1)] at removed
      cases removed
  · refine iff_of_false (fun both => not_ends rfl (fun _ => ?_) both.2) ?_
    · exact if_neg once
    · rintro ⟨after,removed,-⟩
      rw [SchedulingDomain.removeThread,if_neg fun both => once both.2] at removed
      cases removed

end Change

section Sized
variable {cpuCount choice level : Nat} {shared changed : Shared} {pc next : Pc} {tasks : TaskCollection}

structure Sized (cpuCount : Nat) (shared : Shared) : Prop where
  cpus : shared.domain.cpuCount = cpuCount
  active : ∀ idx ∈ shared.domain.activeThreadIds, idx < cpuCount
  sizes : ∀ level tasks, shared.collection level = some tasks → tasks.threadTasks.length = cpuCount
  beyond : ∀ level, Priority.maxIndex < level → shared.collection level = none

def Pc.Small (cpuCount : Nat) : Pc → Prop
  | .putPublish _ _ tasks => tasks.threadTasks.length = cpuCount
  | .lock (.add idx) _ | .visit (.add idx) _ | .record (.add idx) => idx < cpuCount
  | _ => True

theorem Sized.setCollection (sized : Sized cpuCount shared) (within : level ≤ Priority.maxIndex) (size : tasks.threadTasks.length = cpuCount) :
    Sized cpuCount (shared.setCollection level tasks) := by
  refine ⟨sized.cpus,sized.active,fun other found => ?_,fun other large => ?_⟩
  · rw [Shared.collection_setCollection]
    split
    · rintro ⟨⟩
      exact size
    · exact sized.sizes other found
  · rw [Shared.collection_setCollection,if_neg (by omega)]
    exact sized.beyond other large

theorem Sized.within (sized : Sized cpuCount shared) (found : shared.collection level = some tasks) : level ≤ Priority.maxIndex := by
  by_contra large
  rw [sized.beyond level (by omega)] at found
  cases found

theorem Sized.stored (sized : Sized cpuCount shared) (found : shared.collection level = some tasks) {after : TaskCollection}
    (same : after.threadTasks.length = tasks.threadTasks.length) : Sized cpuCount (shared.setCollection level after) :=
  sized.setCollection (sized.within found) (same.trans (sized.sizes level tasks found))

theorem Sized.setCount (sized : Sized cpuCount shared) (level count : Nat) : Sized cpuCount (shared.setCount level count) :=
  ⟨sized.cpus,sized.active,fun other found => by rw [Shared.collection_setCount]; exact sized.sizes other found,
    fun other large => by rw [Shared.collection_setCount]; exact sized.beyond other large⟩

theorem Sized.pushBack (sized : Sized cpuCount shared) {queue : Nat} {task : Task}
    (pushed : shared.pushBack level queue task = some changed) : Sized cpuCount changed := by
  obtain ⟨tasks,found,-,rfl⟩ := Shared.pushBack_some pushed
  exact sized.stored found rfl

theorem Sized.tryPopFront (sized : Sized cpuCount shared) {queue : Nat} {taken : Task → Pc} {missed : Pc}
    (popped : shared.tryPopFront level queue taken missed = some (changed,next)) (some_ : ∀ task, (taken task).Small cpuCount)
    (none_ : missed.Small cpuCount) : Sized cpuCount changed ∧ next.Small cpuCount := by
  obtain ⟨tasks,found,⟨task,rest,front,rfl,rfl⟩ | ⟨-,rfl,rfl⟩⟩ := Shared.tryPopFront_some popped
  · obtain ⟨_,_,rfl⟩ := TaskCollection.tryPopFront_some front
    exact ⟨sized.stored found rfl,some_ task⟩
  · exact ⟨sized,none_⟩

theorem newCollection_length (domain : SchedulingDomain) : domain.newCollection.threadTasks.length = domain.cpuCount := by
  have fold (ids : List Nat) (tasks : TaskCollection) :
      (ids.foldl TaskCollection.registerThread tasks).threadTasks.length = tasks.threadTasks.length := by
    induction ids generalizing tasks with
    | nil => rfl
    | cons idx ids ih => rw [List.foldl_cons,ih,TaskCollection.registerThread_length]
  rw [SchedulingDomain.newCollection,fold]
  exact List.length_replicate

theorem act_sized (sized : Sized cpuCount shared) (small : pc.Small cpuCount) (acted : act shared choice pc = some (changed,next)) :
    Sized cpuCount changed ∧ next.Small cpuCount := by
  have goes {after : Shared} {point : Pc} (same : some (after,point) = some (changed,next)) (sized : Sized cpuCount after)
      (at_ : point.Small cpuCount) : Sized cpuCount changed ∧ next.Small cpuCount := by
    obtain ⟨rfl,rfl⟩ := Prod.mk.inj (Option.some.inj same)
    exact ⟨sized,at_⟩
  have locks (level : Nat) (locked : Bool) : Sized cpuCount (shared.setMutex level locked) :=
    ⟨sized.cpus,sized.active,sized.sizes,sized.beyond⟩
  have locksActive (locked : Bool) : Sized cpuCount (shared.setActiveMutex locked) :=
    ⟨sized.cpus,sized.active,sized.sizes,sized.beyond⟩
  cases pc with
  | idle => cases acted
  | putTest task thid => exact goes acted sized (by split <;> trivial)
  | putLock task thid =>
    rw [act] at acted
    split at acted
    next => cases acted
    next => exact goes acted (locks _ _) trivial
  | putRetest task thid => exact goes acted sized (by split <;> trivial)
  | putReset task thid => exact goes acted (sized.setCount _ _) trivial
  | putLockActive task thid =>
    rw [act] at acted
    split at acted
    next => cases acted
    next =>
      split at acted
      next => exact goes acted (locksActive _) ((newCollection_length shared.domain).trans sized.cpus)
      next => cases acted
  | putPublish task thid tasks =>
    have stored : Sized cpuCount (shared.setCollection task.level tasks) := sized.setCollection (Priority.index_le task.priority) small
    exact goes acted ⟨stored.cpus,stored.active,stored.sizes,stored.beyond⟩ trivial
  | putUnlockActive task thid => exact goes acted (locksActive _) trivial
  | putUnlock task thid => exact goes acted (locks _ _) trivial
  | putLoad task thid =>
    rw [act] at acted
    split at acted
    next => cases acted
    next => exact goes acted sized trivial
  | putPush task queue =>
    obtain ⟨pushed,push,same⟩ := Option.map_eq_some_iff.mp acted
    obtain ⟨rfl,rfl⟩ := Prod.mk.inj same
    exact ⟨sized.pushBack push,trivial⟩
  | putCount task => exact goes acted (sized.setCount _ _) trivial
  | putHead task => exact goes acted sized trivial
  | putRaise task expected =>
    rw [act] at acted
    split at acted
    next => exact goes acted ⟨sized.cpus,sized.active,sized.sizes,sized.beyond⟩ trivial
    next =>
      split at acted
      next => exact goes acted ⟨sized.cpus,sized.active,sized.sizes,sized.beyond⟩ trivial
      next => exact goes acted sized trivial
  | getHead thid => exact goes acted sized trivial
  | getCount thid level =>
    cases level with
    | zero => exact goes acted sized trivial
    | succ level => exact goes acted sized (by split <;> trivial)
  | getOwn thid level =>
    rw [act] at acted
    split at acted
    next => cases acted
    next => split at acted <;> exact goes acted sized trivial
  | getOwnPop thid level queue => exact sized.tryPopFront acted (fun _ => trivial) trivial
  | getGlobal thid level => exact sized.tryPopFront acted (fun _ => trivial) trivial
  | getStart thid level =>
    rw [act] at acted
    split at acted
    next => cases acted
    next => exact goes acted sized (by split <;> trivial)
  | getSteal thid level i rounds =>
    cases rounds with
    | zero => exact goes acted sized trivial
    | succ rounds =>
      rw [act] at acted
      split at acted
      next => cases acted
      next => split at acted <;> exact goes acted sized trivial
  | getStealPop thid level i rounds queue => exact sized.tryPopFront acted (fun _ => trivial) trivial
  | getTaken level task =>
    have counted := sized.setCount level (shared.count level + (2^64 - 1))
    exact goes acted ⟨counted.cpus,counted.active,counted.sizes,counted.beyond⟩ trivial
  | lock change level =>
    rw [act] at acted
    split at acted <;> split at acted
    next => cases acted
    next => exact goes acted (locks _ _) (by cases change <;> exact small)
    next => cases acted
    next => exact goes acted (locksActive _) (by cases change <;> exact small)
  | visit change level =>
    rw [act] at acted
    split at acted
    next =>
      split at acted
      next => exact goes acted sized (by cases change <;> exact small)
      next tasks found =>
        cases change with
        | add idx =>
          dsimp only at acted
          split at acted
          next => exact goes acted (sized.stored found TaskCollection.registerThread_length) small
          next => cases acted
        | remove idx =>
          obtain ⟨queue,-,same⟩ := Option.map_eq_some_iff.mp acted
          obtain ⟨rfl,rfl⟩ := Prod.mk.inj same
          exact ⟨sized,trivial⟩
    next => exact goes acted sized (by cases change <;> exact small)
  | clear idx level queue =>
    obtain ⟨tasks,found,same⟩ := Option.map_eq_some_iff.mp acted
    obtain ⟨rfl,rfl⟩ := Prod.mk.inj same
    exact ⟨sized.stored found List.length_set,trivial⟩
  | drain idx level queue => exact sized.tryPopFront acted (fun _ => trivial) trivial
  | move idx level queue task =>
    obtain ⟨pushed,push,same⟩ := Option.map_eq_some_iff.mp acted
    obtain ⟨rfl,rfl⟩ := Prod.mk.inj same
    exact ⟨sized.pushBack push,trivial⟩
  | record change =>
    cases change with
    | add idx =>
      refine goes acted ⟨sized.cpus,fun other member => ?_,sized.sizes,sized.beyond⟩ trivial
      obtain old | new := List.mem_append.mp member
      · exact sized.active other old
      · exact (List.mem_singleton.mp new) ▸ small
    | remove idx =>
      rw [act] at acted
      split at acted
      next =>
        exact goes acted ⟨sized.cpus,fun other member => sized.active other (List.mem_of_mem_erase member),sized.sizes,sized.beyond⟩ trivial
      next => cases acted
  | unlockActive change => exact goes acted (locksActive _) (by cases change <;> trivial)
  | unlock change level =>
    rw [act] at acted
    split at acted
    next => exact goes acted (locks _ _) (by cases change <;> trivial)
    next => exact goes acted sized trivial

end Sized

section Calls
variable {cpuCount threads thread : Nat} {state final : State} {actions : List Action} {call : Call} {got : Option Task}
variable {after : SchedulingDomain} {shared : Shared} {pc : Pc} {points : List Pc}

def Call.Fits (cpuCount : Nat) : Call → Prop
  | .change (.add idx) => idx < cpuCount
  | _ => True

def Action.Fits (cpuCount : Nat) : Action → Prop
  | .call _ call => call.Fits cpuCount
  | .advance _ _ => True

theorem Call.Fits.small (fits : call.Fits cpuCount) : call.pc.Small cpuCount := by
  cases call with
  | change made => cases made <;> exact fits
  | _ => trivial

theorem sized_step {next : State} {action : Action} (fits : action.Fits cpuCount)
    (sized : Sized cpuCount state.shared ∧ ∀ pc ∈ state.threads, pc.Small cpuCount) (stepped : step state action = some next) :
    Sized cpuCount next.shared ∧ ∀ pc ∈ next.threads, pc.Small cpuCount := by
  have kept {thread : Nat} {new : Pc} (small : new.Small cpuCount) (pc : Pc) (member : pc ∈ state.threads.set thread new) :
      pc.Small cpuCount := by
    obtain old | rfl := List.mem_or_eq_of_mem_set member
    · exact sized.2 pc old
    · exact small
  cases action with
  | call thread call =>
    simp only [step] at stepped
    split at stepped
    next =>
      obtain rfl := Option.some.inj stepped
      refine ⟨?_,kept (Call.Fits.small fits)⟩
      cases call <;> exact ⟨sized.1.cpus,sized.1.active,sized.1.sizes,sized.1.beyond⟩
    next => cases stepped
  | advance thread choice =>
    simp only [step] at stepped
    split at stepped
    next => cases stepped
    next pc found =>
      obtain ⟨⟨changed,next⟩,acted,rfl⟩ := Option.map_eq_some_iff.mp stepped
      obtain ⟨shared,small⟩ := act_sized sized.1 (sized.2 pc (List.mem_of_getElem? found)) acted
      exact ⟨shared,kept small⟩

theorem sized_run (fits : ∀ action ∈ actions, action.Fits cpuCount) (ran : run step (.start cpuCount threads) actions = some state) :
    Sized cpuCount state.shared := by
  have start : Sized cpuCount (State.start cpuCount threads).shared :=
    ⟨rfl,fun idx member => (List.not_mem_nil member).elim,fun level tasks found => (Option.some_ne_none tasks found.symm).elim,
      fun level large => rfl⟩
  have points (pc : Pc) (member : pc ∈ (State.start cpuCount threads).threads) : pc.Small cpuCount := by
    rw [List.eq_of_mem_replicate member]
    trivial
  exact (invariant_of_meets (fun state : State => Sized cpuCount state.shared ∧ ∀ pc ∈ state.threads, pc.Small cpuCount)
    (fun _ _ _ sized fits stepped => sized_step fits sized stepped) ⟨start,points⟩
    (meets_of_forall fun action member _ => fits action member) ran).1

theorem run_alone (found : points[thread]? = some pc) (choices : List Nat) :
    run step ⟨shared,points⟩ (choices.map (.advance thread ·)) =
      (run alone (shared,pc) choices).map fun reached => ⟨reached.1,points.set thread reached.2⟩ := by
  induction choices generalizing shared points pc with
  | nil =>
    obtain ⟨inside,rfl⟩ := List.getElem?_eq_some_iff.mp found
    simp
  | cons choice choices ih =>
    have inside := (List.getElem?_eq_some_iff.mp found).1
    rw [List.map_cons,run_cons,run_cons]
    cases acted : act shared choice pc with
    | none => simp only [step,found,alone,acted,Option.map_none,Option.bind_none]
    | some reached =>
      obtain ⟨changed,next⟩ := reached
      have there : (points.set thread next)[thread]? = some next := List.getElem?_set_self inside
      simp only [step,found,alone,acted,Option.map_some,Option.bind_some,ih there,List.set_set]

theorem called_iff (quiet : state.Quiet) (inside : thread < state.threads.length) :
    (∃ (choices : List Nat) (final : State), run step state (.call thread call :: choices.map (.advance thread ·)) = some final ∧ final.Quiet ∧
        final.shared.got = got.toList ++ state.shared.got ∧ final.shared.domain = after) ↔
      ∃ out, Ends (state.shared.called call) call.pc out ∧ out.got = got.toList ++ state.shared.got ∧ out.domain = after := by
  have idle : state.threads[thread]? = some .idle := by
    rw [List.getElem?_eq_getElem inside,quiet _ (List.getElem_mem inside)]
  have called : step state (.call thread call) = some ⟨state.shared.called call,state.threads.set thread call.pc⟩ := by
    rw [step,idle]
  have there : (state.threads.set thread call.pc)[thread]? = some call.pc := List.getElem?_set_self inside
  have goes (choices : List Nat) : run step state (.call thread call :: choices.map (.advance thread ·)) =
      (run alone (state.shared.called call,call.pc) choices).map fun reached => ⟨reached.1,state.threads.set thread reached.2⟩ := by
    rw [run_cons,called,Option.bind_some,run_alone there]
    simp only [List.set_set]
  simp only [goes]
  constructor
  · rintro ⟨choices,final,whole,rest,gave,left⟩
    obtain ⟨⟨out,pc⟩,ran,rfl⟩ := Option.map_eq_some_iff.mp whole
    obtain rfl : pc = .idle := rest pc (List.mem_set inside pc)
    exact ⟨out,⟨choices,ran⟩,gave,left⟩
  · rintro ⟨out,⟨choices,ran⟩,gave,left⟩
    refine ⟨choices,⟨out,state.threads.set thread .idle⟩,by rw [ran]; rfl,fun pc member => ?_,gave,left⟩
    obtain old | rfl := List.mem_or_eq_of_mem_set member
    · exact quiet pc old
    · rfl

/-- In every state that calls can reach, with none of them in flight, a call that is alone
returns and leaves exactly what the functions of one caller allow. -/
theorem calls_alone (cpuCount threads : Nat) (actions : List Action) (state : State)
    (ran : run step (.start cpuCount threads) actions = some state) (fits : ∀ action ∈ actions, action.Fits cpuCount)
    (quiet : state.Quiet) (thread : Nat) (inside : thread < state.threads.length) (call : Call) (fit : call.Fits cpuCount)
    (got : Option Task) (after : SchedulingDomain) :
    (∃ (choices : List Nat) (final : State), run step state (.call thread call :: choices.map (.advance thread ·)) = some final ∧ final.Quiet ∧
        final.shared.got = got.toList ++ state.shared.got ∧ final.shared.domain = after) ↔
      state.shared.domain.Performs call got after := by
  have inv := inv_run ran
  have sized := sized_run fits ran
  have open_ (mutex : Mutex) : state.shared.taken mutex = false := by
    by_contra taken
    obtain ⟨other,pc,found,owns⟩ := inv.owner (Bool.eq_true_of_not_eq_false taken)
    rw [quiet pc (List.mem_of_getElem? found)] at owns
    cases mutex <;> cases owns
  have free (level : Nat) : state.shared.mutexes level = false := open_ (.level level)
  have inactive : state.shared.activeMutex = false := open_ .active
  have nothing : state.shared.got = got.toList ++ state.shared.got ↔ got = none := by cases got <;> simp
  rw [called_iff quiet inside]
  cases call with
  | putTask task thid =>
    have small (idx : Nat) (member : idx ∈ state.shared.domain.activeThreadIds) : idx < state.shared.domain.cpuCount :=
      (sized.active idx member).trans_eq sized.cpus.symm
    have ends (out : Shared) : Ends (state.shared.begin task) (.putTest task thid) out ↔ _ := ends_put (free _) inactive small
    constructor
    · rintro ⟨out,reached,gave,rfl⟩
      obtain ⟨after,put,rfl⟩ := (ends out).mp reached
      exact ⟨nothing.mp gave,put⟩
    · rintro ⟨none_,put⟩
      exact ⟨_,(ends _).mpr ⟨after,put,rfl⟩,nothing.mpr none_,rfl⟩
  | tryGetTask thid =>
    constructor
    · rintro ⟨out,reached,gave,rfl⟩
      obtain ⟨random,taken,after,tried,rfl⟩ := ends_get.mp reached
      have same : taken.toList = got.toList := List.append_cancel_right gave
      obtain rfl : taken = got := by cases taken <;> cases got <;> simp_all
      exact ⟨random,tried⟩
    · rintro ⟨random,tried⟩
      exact ⟨_,ends_get.mpr ⟨random,got,after,tried,rfl⟩,rfl,rfl⟩
  | change made =>
    have beyond := sized.beyond
    have ends (out : Shared) : Ends state.shared (.lock made 0) out ↔ ∃ after, state.shared.domain.Performs (.change made) none after ∧
        out = {state.shared with domain := after} := by
      cases made with
      | add idx =>
        have fits (level : Nat) (tasks : TaskCollection) (found : state.shared.collection level = some tasks) :
            tasks.threadTasks.length = state.shared.domain.cpuCount := (sized.sizes level tasks found).trans sized.cpus.symm
        have inside : idx < state.shared.domain.cpuCount := fit.trans_eq sized.cpus.symm
        simp only [ends_add free inactive inside fits beyond,SchedulingDomain.Performs,true_and]
      | remove idx =>
        have room (level : Nat) (tasks : TaskCollection) (found : state.shared.collection level = some tasks) :
            tasks.held.length ≤ queueCapacity := by
          rw [← Shared.held_of_some found]
          exact inv.room level
        simp only [ends_remove free inactive inv.formed room beyond,SchedulingDomain.Performs,true_and]
    have absent : state.shared.domain.Performs (.change made) got after ↔ got = none ∧ state.shared.domain.Performs (.change made) none after := by
      cases made <;> simp [SchedulingDomain.Performs]
    constructor
    · rintro ⟨out,reached,gave,rfl⟩
      obtain ⟨after,changed,rfl⟩ := (ends out).mp reached
      exact absent.mpr ⟨nothing.mp gave,changed⟩
    · intro performs
      obtain ⟨none_,changed⟩ := absent.mp performs
      exact ⟨_,(ends _).mpr ⟨after,changed,rfl⟩,nothing.mpr none_,rfl⟩

def handing : List Action := .call 0 (.putTask ⟨5,⟨0,Priority.least_zero,Priority.zero_most⟩⟩ (-1))::List.replicate 13 (.advance 0 0)

theorem calls_alone_handing : ∃ (state : State) (choices : List Nat) (final : State), run step (.start 1 2) handing = some state ∧
    run step state (.call 1 (.tryGetTask (-1)) :: choices.map (.advance 1 ·)) = some final ∧ final.Quiet ∧
      final.shared.got.map (·.id) = [5] := by
  have ran : ∃ state after, run step (.start 1 2) handing = some state ∧ state.isQuiet = true ∧ 1 < state.threads.length ∧
      state.shared.got = [] ∧
      state.shared.domain.tryGetTask (-1) (fun _ => 0) = some (some ⟨5,⟨0,Priority.least_zero,Priority.zero_most⟩⟩,after) :=
    ⟨_,_,rfl,rfl,by decide,rfl,rfl⟩
  obtain ⟨state,after,ran,quiet,inside,none_,tried⟩ := ran
  have fits (action : Action) (member : action ∈ handing) : action.Fits 1 := by
    obtain rfl | member := List.mem_cons.mp member
    · trivial
    · rw [List.eq_of_mem_replicate member]
      trivial
  obtain ⟨choices,final,returned,rest,gave,-⟩ := (calls_alone 1 2 handing state ran fits (State.quiet_of_isQuiet quiet) 1 inside
    (.tryGetTask (-1)) trivial _ after).mpr ⟨_,tried⟩
  refine ⟨state,choices,final,ran,returned,rest,?_⟩
  rw [gave,none_]
  rfl

end Calls
end Pgasus.Scheduler
