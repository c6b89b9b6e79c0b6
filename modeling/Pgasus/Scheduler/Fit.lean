import Pgasus.Scheduler.Collections

/-! A `TaskCollection` between two calls of one caller: which place's queue a
pointer leads to, and how each operation changes the queues of the places. -/
namespace Pgasus.Scheduler.TaskCollection
open Queues

variable {tasks rest : TaskCollection} {place : Option Nat} {idx queue level cpuCount : Nat} {task : Task}
  {active : List Nat}

def pointer (tasks : TaskCollection) : Option Nat → Option Nat
  | none => some globalTasks
  | some idx => tasks.getThreadQueue idx

def placeQueue (tasks : TaskCollection) (place : Option Nat) : List Task :=
  match tasks.pointer place with
  | none => []
  | some queue => tasks.queues queue

theorem placeQueue_of_pointer (points : tasks.pointer place = some queue) :
    tasks.placeQueue place = tasks.queues queue := by
  simp [placeQueue,points]

theorem Formed.pointer_injective (formed : tasks.Formed) {other : Option Nat}
    (points : tasks.pointer place = some queue) (also : tasks.pointer other = some queue) : place = other := by
  cases place with
  | none =>
    obtain rfl := Option.some.inj points
    cases other with
    | none => rfl
    | some idx => exact absurd (formed.pointed idx _ also).1 (Nat.lt_irrefl _)
  | some idx =>
    cases other with
    | none =>
      obtain rfl := Option.some.inj also
      exact absurd (formed.pointed idx _ points).1 (Nat.lt_irrefl _)
    | some other => rw [formed.distinct idx other queue points also]

theorem placeQueue_update (formed : tasks.Formed) (points : tasks.pointer place = some queue) (items : List Task) :
    ({tasks with queues := Function.update tasks.queues queue items} : TaskCollection).placeQueue =
      Function.update tasks.placeQueue place items := by
  funext other
  have samePointer : ({tasks with queues := Function.update tasks.queues queue items} : TaskCollection).pointer other =
      tasks.pointer other := by
    cases other <;> rfl
  unfold placeQueue
  rw [samePointer]
  by_cases same : other = place
  · subst same
    rw [points]
    simp
  · rw [Function.update_of_ne same]
    cases found : tasks.pointer other with
    | none => rfl
    | some another =>
      have different : another ≠ queue := by
        intro equal
        subst equal
        exact same (formed.pointer_injective found points)
      simp [different]

theorem placeQueue_nil (empty : ∀ queue, tasks.queues queue = []) : tasks.placeQueue place = [] := by
  unfold placeQueue
  split
  · rfl
  · exact empty _

theorem held_eq_nil : tasks.held = [] ↔ ∀ queue, queue < tasks.constructed → tasks.queues queue = [] := by
  unfold held
  rw [contents_eq_nil]
  simp

/-- A collection of a level between two calls: the active threads have queues,
and every task lies in a queue that is looked into. -/
structure Fit (active : List Nat) (cpuCount level : Nat) (tasks : TaskCollection) : Prop where
  formed : tasks.Formed
  threads : tasks.threadTasks.length = cpuCount
  registered : ∀ idx, (tasks.getThreadQueue idx).isSome = true ↔ idx ∈ active
  reached : ∀ queue, tasks.queues queue ≠ [] → tasks.Reached queue
  bounded : tasks.held.length ≤ queueCapacity
  sorted : ∀ task ∈ tasks.held, task.level = level

theorem Fit.task_level (fit : tasks.Fit active cpuCount level) (queue : Nat) (inside : task ∈ tasks.queues queue) :
    task.level = level := by
  have small := (fit.reached queue (List.ne_nil_of_mem inside)).constructed fit.formed
  exact fit.sorted task (mem_contents.mpr ⟨queue,List.mem_range.mpr small,inside⟩)

theorem Fit.placeQueue_of_held_nil (fit : tasks.Fit active cpuCount level) (empty : tasks.held = []) :
    tasks.placeQueue place = [] := by
  apply placeQueue_nil
  intro queue
  by_cases small : queue < tasks.constructed
  · exact held_eq_nil.mp empty queue small
  · exact fit.formed.beyond queue (by omega)

theorem Fit.pushBack (fit : tasks.Fit active cpuCount task.level) (points : tasks.pointer place = some queue)
    (room : tasks.held.length < queueCapacity) : (tasks.pushBack queue task).Fit active cpuCount task.level := by
  have reached : tasks.Reached queue := by
    cases place with
    | none => exact .inl (Option.some.inj points).symm
    | some idx => exact .inr ⟨idx,points⟩
  have small := reached.constructed fit.formed
  have grown := held_pushBack task small
  constructor
  · exact fit.formed.pushBack small
  · exact fit.threads
  · exact fit.registered
  · intro other some_
    by_cases same : other = queue
    · rw [same]
      exact reached
    · apply fit.reached other
      intro empty
      apply some_
      change push tasks.queues queue task other = []
      rw [push_other same,empty]
  · rw [grown.length_eq]
    exact room
  · intro other inside
    rw [grown.mem_iff,List.mem_cons] at inside
    obtain rfl | inside := inside
    · rfl
    · exact fit.sorted other inside

theorem Fit.tryPopFront (fit : tasks.Fit active cpuCount level) (taken : tasks.tryPopFront queue = some (task,rest)) :
    rest.Fit active cpuCount level := by
  have shrunk := held_tryPopFront fit.formed taken
  have formed := fit.formed.tryPopFront taken
  obtain ⟨others,found,rfl⟩ := tryPopFront_some taken
  constructor
  · exact formed
  · exact fit.threads
  · exact fit.registered
  · intro other some_
    apply fit.reached other
    intro empty
    apply some_
    change Function.update tasks.queues queue others other = []
    by_cases same : other = queue
    · rw [same,found] at empty
      cases empty
    · rw [Function.update_of_ne same,empty]
  · have bounded := fit.bounded
    rw [shrunk.length_eq] at bounded
    exact Nat.le_of_succ_le bounded
  · intro other inside
    apply fit.sorted other
    rw [shrunk.mem_iff]
    exact List.mem_cons_of_mem _ inside

theorem foldl_registerThread (ids : List Nat) (formed : tasks.Formed)
    (small : ∀ idx ∈ ids, idx < tasks.threadTasks.length) :
    let result := ids.foldl registerThread tasks
    result.Formed ∧ result.threadTasks.length = tasks.threadTasks.length ∧ result.queues = tasks.queues ∧
      ∀ idx, (result.getThreadQueue idx).isSome = true ↔ idx ∈ ids ∨ (tasks.getThreadQueue idx).isSome = true := by
  induction ids generalizing tasks with
  | nil => simp [formed]
  | cons first rest ih =>
    have inside := small first List.mem_cons_self
    obtain ⟨formed',threads,queues,registered⟩ := ih (formed.registerThread first) (by
      intro idx later
      rw [registerThread_length]
      exact small idx (List.mem_cons_of_mem _ later))
    refine ⟨formed',threads.trans registerThread_length,queues.trans (registerThread_queues first formed),?_⟩
    intro idx
    rw [List.foldl_cons,registered idx,getThreadQueue_registerThread inside,List.mem_cons]
    by_cases same : first = idx
    · simp [same]
    · simp [same,Ne.symm same]

theorem fit_foldl_registerThread {ids : List Nat} (small : ∀ idx ∈ ids, idx < cpuCount) (level : Nat) :
    (ids.foldl registerThread (create cpuCount)).Fit ids cpuCount level ∧
      ∀ queue, (ids.foldl registerThread (create cpuCount)).queues queue = [] := by
  have length : (create cpuCount).threadTasks.length = cpuCount := List.length_replicate
  obtain ⟨formed,threads,queues,registered⟩ := foldl_registerThread ids (Formed.create cpuCount)
    (by rwa [length])
  have empty : ∀ queue, (ids.foldl registerThread (create cpuCount)).queues queue = [] := by
    intro queue
    rw [queues]
    rfl
  have nothing : (ids.foldl registerThread (create cpuCount)).held = [] :=
    held_eq_nil.mpr fun queue _ => empty queue
  refine ⟨?_,empty⟩
  constructor
  · exact formed
  · exact threads.trans length
  · intro idx
    rw [registered idx,getThreadQueue_create]
    simp
  · intro queue some_
    exact absurd (empty queue) some_
  · simp [nothing]
  · simp [nothing]

theorem Fit.registerThread (fit : tasks.Fit active cpuCount level) (inside : idx < cpuCount) :
    (tasks.registerThread idx).Fit (active ++ [idx]) cpuCount level := by
  have small : idx < tasks.threadTasks.length := by rwa [fit.threads]
  have queues := registerThread_queues idx fit.formed
  constructor
  · exact fit.formed.registerThread idx
  · rw [registerThread_length,fit.threads]
  · intro other
    rw [getThreadQueue_registerThread small,List.mem_append,← fit.registered other,List.mem_singleton]
    by_cases same : idx = other
    · simp [same]
    · simp [same,Ne.symm same]
  · intro queue some_
    rw [queues] at some_
    obtain isGlobal | ⟨other,pointed⟩ := fit.reached queue some_
    · exact .inl isGlobal
    · exact .inr ⟨other,getThreadQueue_registerThread_some pointed⟩
  · rw [held_registerThread fit.formed]
    exact fit.bounded
  · rw [held_registerThread fit.formed]
    exact fit.sorted

theorem Fit.placeQueue_registerThread (fit : tasks.Fit active cpuCount level) (inside : idx < cpuCount)
    (inactive : idx ∉ active) : (tasks.registerThread idx).placeQueue = tasks.placeQueue := by
  have small : idx < tasks.threadTasks.length := by rwa [fit.threads]
  have queues := registerThread_queues idx fit.formed
  have unregistered : tasks.getThreadQueue idx = none := by
    rw [← fit.registered idx] at inactive
    exact Option.not_isSome_iff_eq_none.mp inactive
  funext place
  cases place with
  | none =>
    unfold placeQueue
    rw [queues]
    rfl
  | some other =>
    unfold placeQueue
    rw [queues]
    change (match (tasks.registerThread idx).getThreadQueue other with
      | none => []
      | some queue => tasks.queues queue) = match tasks.getThreadQueue other with
      | none => []
      | some queue => tasks.queues queue
    rw [getThreadQueue_registerThread small]
    by_cases same : idx = other
    · subst same
      simp [unregistered,fit.formed.beyond tasks.constructed (Nat.le_refl _)]
    · simp [same]

theorem Fit.deregisterThread (fit : tasks.Fit active cpuCount level) (distinct : active.Nodup) (member : idx ∈ active) :
    ∃ rest, tasks.deregisterThread idx = some rest ∧ rest.Fit (active.erase idx) cpuCount level ∧
      rest.held.Perm tasks.held ∧
      ∀ place, rest.placeQueue place =
        if place = none then tasks.placeQueue none ++ tasks.placeQueue (some idx)
        else if place = some idx then [] else tasks.placeQueue place := by
  obtain ⟨queue,pointed⟩ := Option.isSome_iff_exists.mp ((fit.registered idx).mpr member)
  obtain ⟨positive,below⟩ := fit.formed.pointed idx queue pointed
  have different : queue ≠ globalTasks := Nat.ne_of_gt positive
  refine ⟨_,by rw [TaskCollection.deregisterThread,pointed],?_⟩
  rw [drain_spec (tasks.clearPointer idx) different (tasks.queues queue).length (Nat.le_refl _)]
  change Fit _ cpuCount level ⟨Function.update (Function.update tasks.queues queue []) globalTasks
    (tasks.queues globalTasks ++ tasks.queues queue),tasks.constructed,(tasks.clearPointer idx).threadTasks⟩ ∧ _
  have moved : (contents (List.range tasks.constructed) (Function.update (Function.update tasks.queues queue [])
      globalTasks (tasks.queues globalTasks ++ tasks.queues queue))).Perm tasks.held :=
    contents_move List.nodup_range (List.mem_range.mpr below) (List.mem_range.mpr fit.formed.global) different
  have cleared := fit.formed.clearPointer idx
  refine ⟨?_,moved,?_⟩
  · constructor
    · constructor
      · exact fit.formed.global
      · exact cleared.pointed
      · exact cleared.distinct
      · intro other large
        change tasks.constructed ≤ other at large
        have notGlobal : other ≠ globalTasks := by
          have global := fit.formed.global
          omega
        have notQueue : other ≠ queue := by omega
        dsimp only
        rw [Function.update_of_ne notGlobal,Function.update_of_ne notQueue]
        exact fit.formed.beyond other large
    · exact (List.length_set ..).trans fit.threads
    · intro other
      change ((tasks.clearPointer idx).getThreadQueue other).isSome = true ↔ other ∈ active.erase idx
      rw [getThreadQueue_clearPointer,distinct.mem_erase_iff,← fit.registered other]
      by_cases same : idx = other
      · simp [same]
      · simp [same,Ne.symm same]
    · intro other some_
      dsimp only at some_
      by_cases notGlobal : other = globalTasks
      · exact .inl notGlobal
      · rw [Function.update_of_ne notGlobal] at some_
        have notQueue : other ≠ queue := by
          intro same
          rw [same,Function.update_self] at some_
          exact some_ rfl
        rw [Function.update_of_ne notQueue] at some_
        obtain isGlobal | ⟨another,points⟩ := fit.reached other some_
        · exact .inl isGlobal
        · have notRemoved : idx ≠ another := by
            rintro rfl
            exact notQueue (Option.some.inj (points.symm.trans pointed))
          refine .inr ⟨another,?_⟩
          change (tasks.clearPointer idx).getThreadQueue another = some other
          rw [getThreadQueue_clearPointer,if_neg notRemoved,points]
    · exact moved.length_eq.trans_le fit.bounded
    · intro task inside
      exact fit.sorted task (moved.mem_iff.mp inside)
  · intro place
    cases place with
    | none =>
      have points : tasks.pointer (some idx) = some queue := pointed
      rw [if_pos rfl,placeQueue_of_pointer points]
      change Function.update (Function.update tasks.queues queue []) globalTasks
        (tasks.queues globalTasks ++ tasks.queues queue) globalTasks = _
      rw [Function.update_self]
      rfl
    | some other =>
      change (match (tasks.clearPointer idx).getThreadQueue other with
        | none => []
        | some place => Function.update (Function.update tasks.queues queue []) globalTasks
          (tasks.queues globalTasks ++ tasks.queues queue) place) = _
      rw [getThreadQueue_clearPointer]
      by_cases same : idx = other
      · simp [same]
      · have kept : some other ≠ some idx := fun equal => same (Option.some.inj equal).symm
        rw [if_neg same,if_neg (Option.some_ne_none other),if_neg kept]
        unfold placeQueue pointer
        dsimp only
        cases points : tasks.getThreadQueue other with
        | none => rfl
        | some another =>
          have notGlobal : another ≠ globalTasks := Nat.ne_of_gt (fit.formed.pointed other another points).1
          have notQueue : another ≠ queue := by
            rintro rfl
            exact same (fit.formed.distinct idx other _ pointed points)
          simp [notGlobal,notQueue]

end Pgasus.Scheduler.TaskCollection
