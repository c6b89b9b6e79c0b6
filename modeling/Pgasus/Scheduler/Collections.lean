import Pgasus.Scheduler.Domain

/-! What the operations of a `TaskCollection` do: how the pointers of the threads
change, what all queues hold together, and that the loop over the other threads
visits every queue. -/
namespace Pgasus.Scheduler.TaskCollection
open Queues

variable {tasks rest : TaskCollection} {idx other queue : Nat} {task : Task}

structure Formed (tasks : TaskCollection) : Prop where
  global : globalTasks < tasks.constructed
  pointed : ∀ idx queue, tasks.getThreadQueue idx = some queue → globalTasks < queue ∧ queue < tasks.constructed
  distinct : ∀ idx other queue, tasks.getThreadQueue idx = some queue → tasks.getThreadQueue other = some queue →
    idx = other
  beyond : ∀ queue, tasks.constructed ≤ queue → tasks.queues queue = []

/-- A `try_get` that starts later looks into the queue. -/
def Reached (tasks : TaskCollection) (queue : Nat) : Prop :=
  queue = globalTasks ∨ ∃ idx, tasks.getThreadQueue idx = some queue

theorem Reached.constructed (formed : tasks.Formed) (reached : tasks.Reached queue) : queue < tasks.constructed := by
  obtain rfl | ⟨idx,pointed⟩ := reached
  · exact formed.global
  · exact (formed.pointed idx queue pointed).2

theorem getThreadQueue_lt (pointed : tasks.getThreadQueue idx = some queue) : idx < tasks.threadTasks.length := by
  unfold getThreadQueue at pointed
  by_contra large
  rw [List.getElem?_eq_none (by omega)] at pointed
  cases pointed

section Create

theorem getThreadQueue_create (maxThreads : Nat) : (create maxThreads).getThreadQueue idx = none := by
  unfold getThreadQueue create
  rw [List.getElem?_replicate]
  split <;> rfl

theorem Formed.create (maxThreads : Nat) : (create maxThreads).Formed := by
  constructor
  · exact Nat.one_pos
  · intro idx queue pointed
    rw [getThreadQueue_create] at pointed
    cases pointed
  · intro idx other queue pointed
    rw [getThreadQueue_create] at pointed
    cases pointed
  · intro queue _
    rfl

theorem held_create (maxThreads : Nat) : (create maxThreads).held = [] :=
  contents_eq_nil.mpr fun _ _ => rfl

end Create

section Pointers

theorem getThreadQueue_set (pointer : Option Nat) (queues : Nat → List Task) (constructed : Nat) :
    (⟨queues,constructed,tasks.threadTasks.set idx pointer⟩ : TaskCollection).getThreadQueue other =
      if idx = other ∧ idx < tasks.threadTasks.length then pointer else tasks.getThreadQueue other := by
  unfold getThreadQueue
  rw [List.getElem?_set]
  by_cases same : idx = other
  · subst same
    by_cases small : idx < tasks.threadTasks.length
    · simp [small]
    · simp [small]
  · simp [same]

theorem getThreadQueue_clearPointer :
    (tasks.clearPointer idx).getThreadQueue other = if idx = other then none else tasks.getThreadQueue other := by
  unfold clearPointer
  rw [getThreadQueue_set]
  by_cases same : idx = other
  · subst same
    by_cases small : idx < tasks.threadTasks.length
    · simp [small]
    · simp [small,getThreadQueue]
  · simp [same]

theorem getThreadQueue_registerThread (small : idx < tasks.threadTasks.length) :
    (tasks.registerThread idx).getThreadQueue other =
      if idx = other then some ((tasks.getThreadQueue idx).getD tasks.constructed) else tasks.getThreadQueue other := by
  unfold registerThread
  cases found : tasks.getThreadQueue idx with
  | some queue =>
    by_cases same : idx = other
    · subst same
      simp [found]
    · simp [same]
  | none =>
    rw [getThreadQueue_set]
    simp [small]

theorem getThreadQueue_registerThread_some (pointed : tasks.getThreadQueue other = some queue) :
    (tasks.registerThread idx).getThreadQueue other = some queue := by
  unfold registerThread
  cases found : tasks.getThreadQueue idx with
  | some _ => exact pointed
  | none =>
    rw [getThreadQueue_set]
    by_cases same : idx = other
    · subst same
      rw [found] at pointed
      cases pointed
    · simp [same,pointed]

@[simp] theorem registerThread_length :
    (tasks.registerThread idx).threadTasks.length = tasks.threadTasks.length := by
  unfold registerThread
  split <;> simp

theorem registerThread_queues (idx : Nat) (formed : tasks.Formed) : (tasks.registerThread idx).queues = tasks.queues := by
  unfold registerThread
  split
  · rfl
  · exact Function.update_eq_self_iff.mpr (formed.beyond _ (Nat.le_refl _)).symm

theorem registerThread_constructed : tasks.constructed ≤ (tasks.registerThread idx).constructed := by
  unfold registerThread
  split
  · exact Nat.le_refl _
  · exact Nat.le_succ _

theorem Formed.registerThread (formed : tasks.Formed) (idx : Nat) : (tasks.registerThread idx).Formed := by
  have same := registerThread_queues idx formed
  unfold TaskCollection.registerThread at same ⊢
  cases found : tasks.getThreadQueue idx with
  | some _ => exact formed
  | none =>
    rw [found] at same
    change Function.update tasks.queues tasks.constructed [] = tasks.queues at same
    have old : ∀ other queue, tasks.getThreadQueue other = some queue → queue ≠ tasks.constructed := by
      intro other queue pointed
      have bound := (formed.pointed other queue pointed).2
      omega
    have global := formed.global
    constructor
    · exact Nat.lt_succ_of_lt formed.global
    · intro other queue pointed
      rw [getThreadQueue_set] at pointed
      dsimp only
      split at pointed
      · obtain rfl := Option.some.inj pointed
        exact ⟨formed.global,Nat.lt_succ_self _⟩
      · obtain ⟨low,high⟩ := formed.pointed other queue pointed
        exact ⟨low,Nat.lt_succ_of_lt high⟩
    · intro first second queue pointed also
      rw [getThreadQueue_set] at pointed also
      split at pointed
      next this =>
        obtain rfl := Option.some.inj pointed
        split at also
        next that => exact this.1.symm.trans that.1
        next => exact absurd rfl (old second _ also)
      next =>
        split at also
        next =>
          obtain rfl := Option.some.inj also
          exact absurd rfl (old first _ pointed)
        next => exact formed.distinct first second queue pointed also
    · intro queue large
      dsimp only at large ⊢
      rw [same]
      exact formed.beyond queue (by omega)

theorem held_registerThread (formed : tasks.Formed) : (tasks.registerThread idx).held = tasks.held := by
  unfold held
  rw [registerThread_queues idx formed]
  unfold registerThread
  split
  · rfl
  · simp [contents,List.range_succ,formed.beyond tasks.constructed (Nat.le_refl _)]

def AllReached (tasks : TaskCollection) : Prop := ∀ queue, queue < tasks.constructed → tasks.Reached queue

theorem AllReached.create (maxThreads : Nat) : (create maxThreads).AllReached := by
  intro queue small
  exact .inl (Nat.lt_one_iff.mp small)

theorem AllReached.registerThread (all : tasks.AllReached) (small : idx < tasks.threadTasks.length) :
    (tasks.registerThread idx).AllReached := by
  intro queue below
  by_cases old : queue < tasks.constructed
  · obtain isGlobal | ⟨other,pointed⟩ := all queue old
    · exact .inl isGlobal
    · exact .inr ⟨other,getThreadQueue_registerThread_some pointed⟩
  · refine .inr ⟨idx,?_⟩
    rw [getThreadQueue_registerThread small,if_pos rfl]
    unfold TaskCollection.registerThread at below
    cases found : tasks.getThreadQueue idx with
    | some _ =>
      rw [found] at below
      exact absurd below old
    | none =>
      rw [found] at below
      change queue < tasks.constructed + 1 at below
      simp only [Option.getD_none,Option.some.injEq]
      omega

theorem Formed.clearPointer (formed : tasks.Formed) (idx : Nat) : (tasks.clearPointer idx).Formed := by
  constructor
  · exact formed.global
  · intro other queue pointed
    rw [getThreadQueue_clearPointer] at pointed
    split at pointed
    · cases pointed
    · exact formed.pointed other queue pointed
  · intro first second queue pointed also
    rw [getThreadQueue_clearPointer] at pointed also
    split at pointed
    · cases pointed
    · split at also
      · cases also
      · exact formed.distinct first second queue pointed also
  · exact formed.beyond

end Pointers

section PushAndPop

theorem Formed.pushBack (formed : tasks.Formed) (small : queue < tasks.constructed) :
    (tasks.pushBack queue task).Formed := by
  constructor
  · exact formed.global
  · exact formed.pointed
  · exact formed.distinct
  · intro other large
    have different : other ≠ queue := by
      change tasks.constructed ≤ other at large
      omega
    change push tasks.queues queue task other = []
    rw [push_other different]
    exact formed.beyond other large

theorem held_pushBack (task : Task) (small : queue < tasks.constructed) :
    (tasks.pushBack queue task).held.Perm (task::tasks.held) :=
  contents_push List.nodup_range (List.mem_range.mpr small)

theorem tryPopFront_some (taken : tasks.tryPopFront queue = some (task,rest)) :
    ∃ others, tasks.queues queue = task::others ∧
      rest = {tasks with queues := Function.update tasks.queues queue others} := by
  obtain ⟨⟨first,queues⟩,popped,same⟩ := Option.map_eq_some_iff.mp taken
  obtain ⟨rfl,rfl⟩ := Prod.mk.inj same
  obtain ⟨others,found,rfl⟩ := pop_some popped
  exact ⟨others,found,rfl⟩

theorem tryPopFront_none : tasks.tryPopFront queue = none ↔ tasks.queues queue = [] := by
  unfold tryPopFront
  rw [Option.map_eq_none_iff,pop_none]

theorem tryPopFront_of_cons {others : List Task} (found : tasks.queues queue = task::others) :
    tasks.tryPopFront queue = some (task,{tasks with queues := Function.update tasks.queues queue others}) := by
  unfold tryPopFront
  rw [pop_of_cons found]
  rfl

theorem tryPopFront_constructed (formed : tasks.Formed) (taken : tasks.tryPopFront queue = some (task,rest)) :
    queue < tasks.constructed := by
  obtain ⟨others,found,_⟩ := tryPopFront_some taken
  by_contra large
  rw [formed.beyond queue (by omega)] at found
  cases found

theorem Formed.tryPopFront (formed : tasks.Formed) (taken : tasks.tryPopFront queue = some (task,rest)) :
    rest.Formed := by
  have small := tryPopFront_constructed formed taken
  obtain ⟨others,_,rfl⟩ := tryPopFront_some taken
  constructor
  · exact formed.global
  · exact formed.pointed
  · exact formed.distinct
  · intro other large
    have different : other ≠ queue := by
      change tasks.constructed ≤ other at large
      omega
    change Function.update tasks.queues queue others other = []
    rw [Function.update_of_ne different]
    exact formed.beyond other large

theorem held_tryPopFront (formed : tasks.Formed) (taken : tasks.tryPopFront queue = some (task,rest)) :
    tasks.held.Perm (task::rest.held) := by
  have small := tryPopFront_constructed formed taken
  obtain ⟨others,found,rfl⟩ := tryPopFront_some taken
  exact contents_pop List.nodup_range (List.mem_range.mpr small) (pop_of_cons found)

end PushAndPop

section Deregister

theorem drain_nil (empty : tasks.queues queue = []) (rounds : Nat) : drain queue rounds tasks = tasks := by
  cases rounds with
  | zero => rfl
  | succ rounds =>
    unfold drain
    rw [tryPopFront_none.mpr empty]

/-- With enough rounds the queue ends up behind what the global queue held. -/
theorem drain_spec (tasks : TaskCollection) (different : queue ≠ globalTasks) (rounds : Nat)
    (enough : (tasks.queues queue).length ≤ rounds) :
    drain queue rounds tasks =
      {tasks with
        queues := Function.update (Function.update tasks.queues queue []) globalTasks
          (tasks.queues globalTasks ++ tasks.queues queue)} := by
  induction rounds generalizing tasks with
  | zero =>
    have empty := List.length_eq_zero_iff.mp (Nat.le_zero.mp enough)
    have cleared : Function.update tasks.queues queue [] = tasks.queues :=
      Function.update_eq_self_iff.mpr empty.symm
    rw [drain_nil empty,cleared,empty,List.append_nil,Function.update_eq_self]
  | succ rounds ih =>
    cases found : tasks.queues queue with
    | nil =>
      have cleared : Function.update tasks.queues queue [] = tasks.queues :=
        Function.update_eq_self_iff.mpr found.symm
      rw [drain_nil found,cleared,List.append_nil,Function.update_eq_self]
    | cons task others =>
      rw [found,List.length_cons] at enough
      rw [drain,tryPopFront_of_cons found]
      have shorter : ((({tasks with queues := Function.update tasks.queues queue others} : TaskCollection).pushBack
          globalTasks task).queues queue) = others := by
        change push (Function.update tasks.queues queue others) globalTasks task queue = others
        rw [push_other different,Function.update_self]
      change drain queue rounds _ = _
      rw [ih _ (by rw [shorter]; omega),shorter]
      unfold pushBack push
      dsimp only
      rw [Function.update_self,Function.update_of_ne different.symm,List.append_assoc]
      congr 1
      funext place
      by_cases isGlobal : place = globalTasks
      · simp [isGlobal]
      · by_cases isQueue : place = queue
        · simp [isQueue,different]
        · simp [isGlobal,isQueue]

end Deregister

section Steal

theorem tryGetThreadTask_some (taken : tasks.tryGetThreadTask idx = some (task,rest)) :
    ∃ queue, tasks.getThreadQueue idx = some queue ∧ tasks.tryPopFront queue = some (task,rest) := by
  unfold tryGetThreadTask at taken
  split at taken
  next => cases taken
  next queue pointed => exact ⟨queue,pointed,taken⟩

theorem tryGetThreadTask_none (none_ : tasks.tryGetThreadTask idx = none)
    (pointed : tasks.getThreadQueue idx = some queue) : tasks.queues queue = [] := by
  unfold tryGetThreadTask at none_
  rw [pointed] at none_
  exact tryPopFront_none.mp none_

theorem steal_some {cnt i rounds : Nat} (taken : tasks.steal cnt i rounds = some (task,rest)) :
    ∃ idx, tasks.tryGetThreadTask idx = some (task,rest) := by
  induction rounds generalizing i with
  | zero => cases taken
  | succ rounds ih =>
    unfold steal at taken
    split at taken
    next found =>
      obtain rfl := Option.some.inj taken
      exact ⟨_,found⟩
    next => exact ih taken

theorem steal_none {cnt i rounds : Nat} (none_ : tasks.steal cnt i rounds = none) (visited : Nat)
    (late : i ≤ visited) (early : visited < i + rounds) :
    tasks.tryGetThreadTask (stealIndex cnt visited) = none := by
  induction rounds generalizing i with
  | zero => omega
  | succ rounds ih =>
    unfold steal at none_
    split at none_
    next => cases none_
    next nothing =>
      obtain rfl | later := Nat.eq_or_lt_of_le late
      · exact nothing
      · exact ih none_ later (by omega)

/-- From any start below `cnt` the `cnt` rounds reach every thread. -/
theorem stealIndex_onto {cnt start : Nat} (below : start < cnt) (inside : idx < cnt) :
    ∃ i, start ≤ i ∧ i < start + cnt ∧ stealIndex cnt i = idx := by
  by_cases late : start ≤ idx
  · exact ⟨idx,late,by omega,by simp [stealIndex,Nat.not_le.mpr inside]⟩
  · refine ⟨idx + cnt,by omega,by omega,?_⟩
    simp [stealIndex]

end Steal

section TryGet

def Idle (tasks : TaskCollection) (idx : Nat) : Prop :=
  ∀ queue, tasks.getThreadQueue idx = some queue → tasks.queues queue = []

/-- The order in which `try_get` prefers queues. -/
inductive Preferred (tasks : TaskCollection) (thIdx : Nat) : Nat → Prop
  | own {queue : Nat} : tasks.getThreadQueue thIdx = some queue → Preferred tasks thIdx queue
  | global : tasks.Idle thIdx → Preferred tasks thIdx globalTasks
  | stolen {queue idx : Nat} : tasks.Idle thIdx → tasks.queues globalTasks = [] →
      tasks.getThreadQueue idx = some queue → Preferred tasks thIdx queue

theorem tryGet_some {thIdx random : Nat} (taken : tasks.tryGet thIdx random = some (task,rest)) :
    ∃ queue, tasks.Preferred thIdx queue ∧ tasks.tryPopFront queue = some (task,rest) := by
  unfold tryGet at taken
  split at taken
  next found =>
    obtain rfl := Option.some.inj taken
    obtain ⟨queue,pointed,popped⟩ := tryGetThreadTask_some found
    exact ⟨queue,.own pointed,popped⟩
  next ownNone =>
    have idle : tasks.Idle thIdx := fun queue => tryGetThreadTask_none ownNone
    split at taken
    next found =>
      obtain rfl := Option.some.inj taken
      exact ⟨globalTasks,.global idle,found⟩
    next globalNone =>
      dsimp only at taken
      split at taken
      next =>
        obtain ⟨idx,found⟩ := steal_some taken
        obtain ⟨queue,pointed,popped⟩ := tryGetThreadTask_some found
        exact ⟨queue,.stolen idle (tryPopFront_none.mp globalNone) pointed,popped⟩
      next => cases taken

theorem tryGet_none {thIdx random : Nat} (none_ : tasks.tryGet thIdx random = none)
    (reached : tasks.Reached queue) : tasks.queues queue = [] := by
  unfold tryGet at none_
  split at none_
  next => cases none_
  next =>
    split at none_
    next => cases none_
    next globalNone =>
      obtain rfl | ⟨idx,pointed⟩ := reached
      · exact tryPopFront_none.mp globalNone
      · have inside := getThreadQueue_lt pointed
        dsimp only at none_
        rw [if_pos (by omega)] at none_
        obtain ⟨i,late,early,rfl⟩ := stealIndex_onto (Nat.mod_lt random (Nat.zero_lt_of_lt inside)) inside
        exact tryGetThreadTask_none (steal_none none_ i late early) pointed

end TryGet
end Pgasus.Scheduler.TaskCollection
