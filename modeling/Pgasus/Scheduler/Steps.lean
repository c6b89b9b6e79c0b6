import Pgasus.Library.Totals
import Pgasus.Scheduler.Collections
import Pgasus.Scheduler.Interleaving

/-! What one step of a thread can do. The weights of a point (the mutexes it
holds, the tasks it carries, the updates of a counter it still owes) balance what
the step changes in the shared state. -/
namespace Pgasus.Scheduler
open Totals

namespace Shared

variable (shared : Shared) (level other : Nat) (tasks : TaskCollection)

@[simp] theorem collection_setCollection : (shared.setCollection level tasks).collection other =
    if other = level then some tasks else shared.collection other := by
  unfold collection setCollection SchedulingDomain.setPriority
  dsimp only
  rw [Function.update_apply]
  split <;> rfl

@[simp] theorem count_setCollection : (shared.setCollection level tasks).count other = shared.count other := by
  unfold count setCollection SchedulingDomain.setPriority
  dsimp only
  rw [Function.update_apply]
  split
  next same => rw [same]; rfl
  next => rfl

@[simp] theorem collection_setCount (number : Nat) :
    (shared.setCount level number).collection other = shared.collection other := by
  unfold collection setCount SchedulingDomain.setPriority
  dsimp only
  rw [Function.update_apply]
  split
  next same => rw [same]; rfl
  next => rfl

@[simp] theorem count_setCount (number : Nat) :
    (shared.setCount level number).count other = if other = level then number % 2^64 else shared.count other := by
  unfold count setCount SchedulingDomain.setPriority
  dsimp only
  rw [Function.update_apply]
  split <;> rfl

@[simp] theorem collection_publish : (shared.publish level tasks).collection other =
    if other = level then some tasks else shared.collection other := collection_setCollection ..

@[simp] theorem count_publish : (shared.publish level tasks).count other = shared.count other :=
  count_setCollection ..

@[simp] theorem collection_give (task : Task) : (shared.give task).collection other = shared.collection other := rfl

@[simp] theorem count_give (task : Task) : (shared.give task).count other = shared.count other := rfl

def held : List Task := ((shared.collection level).map TaskCollection.held).getD []

variable {shared level other tasks}

theorem held_of_some (found : shared.collection level = some tasks) : shared.held level = tasks.held := by
  simp [held,found]

theorem held_setCollection : (shared.setCollection level tasks).held other =
    if other = level then tasks.held else shared.held other := by
  unfold held
  rw [collection_setCollection]
  split <;> rfl

theorem held_congr {changed : Shared} (same : changed.collection level = shared.collection level) :
    changed.held level = shared.held level := by
  unfold held
  rw [same]

theorem pushBack_some {changed : Shared} {queue : Nat} {task : Task}
    (pushed : shared.pushBack level queue task = some changed) :
    ∃ tasks, shared.collection level = some tasks ∧ tasks.held.length < queueCapacity ∧
      changed = shared.setCollection level (tasks.pushBack queue task) := by
  unfold pushBack at pushed
  split at pushed
  · cases pushed
  next tasks found =>
    split at pushed
    next room => exact ⟨tasks,found,room,(Option.some.inj pushed).symm⟩
    next => cases pushed

theorem tryPopFront_some {changed : Shared} {queue : Nat} {taken : Task → Pc} {missed next : Pc}
    (popped : shared.tryPopFront level queue taken missed = some (changed,next)) :
    ∃ tasks, shared.collection level = some tasks ∧
      ((∃ task rest, tasks.tryPopFront queue = some (task,rest) ∧ changed = shared.setCollection level rest ∧
          next = taken task) ∨
        (tasks.queues queue = [] ∧ changed = shared ∧ next = missed)) := by
  unfold tryPopFront at popped
  split at popped
  · cases popped
  next tasks found =>
    refine ⟨tasks,found,?_⟩
    split at popped
    next task rest front =>
      obtain ⟨rfl,rfl⟩ := Prod.mk.inj (Option.some.inj popped)
      exact .inl ⟨task,rest,front,rfl,rfl⟩
    next nothing =>
      obtain ⟨rfl,rfl⟩ := Prod.mk.inj (Option.some.inj popped)
      exact .inr ⟨TaskCollection.tryPopFront_none.mp nothing,rfl,rfl⟩

end Shared
def Change.Removes : Change → Prop
  | .add _ => False
  | .remove _ => True

namespace Pc

def holds (level : Nat) : Pc → Nat
  | .putRetest task _ => if task.level = level then 1 else 0
  | .putReset task _ => if task.level = level then 1 else 0
  | .putLockActive task _ => if task.level = level then 1 else 0
  | .putPublish task _ _ => if task.level = level then 1 else 0
  | .putUnlockActive task _ => if task.level = level then 1 else 0
  | .putUnlock task _ => if task.level = level then 1 else 0
  | .lock _ reached => if level < reached ∧ level ≤ Priority.maxIndex then 1 else 0
  | .visit _ _ => if level ≤ Priority.maxIndex then 1 else 0
  | .clear _ _ _ => if level ≤ Priority.maxIndex then 1 else 0
  | .drain _ _ _ => if level ≤ Priority.maxIndex then 1 else 0
  | .move _ _ _ _ => if level ≤ Priority.maxIndex then 1 else 0
  | .record _ => if level ≤ Priority.maxIndex then 1 else 0
  | .unlockActive _ => if level ≤ Priority.maxIndex then 1 else 0
  | .unlock _ reached => if reached ≤ level ∧ level ≤ Priority.maxIndex then 1 else 0
  | _ => 0

def holdsActive : Pc → Nat
  | .putPublish _ _ _ => 1
  | .putUnlockActive _ _ => 1
  | .visit _ _ => 1
  | .clear _ _ _ => 1
  | .drain _ _ _ => 1
  | .move _ _ _ _ => 1
  | .record _ => 1
  | .unlockActive _ => 1
  | _ => 0

/-- Tasks of the level pushed and not yet counted. -/
def owes (level : Nat) : Pc → Nat
  | .putCount task => if task.level = level then 1 else 0
  | _ => 0

/-- Tasks of the level out of the queues and still counted. -/
def credits (level : Nat) : Pc → Nat
  | .getTaken reached _ => if reached = level then 1 else 0
  | .move _ reached _ _ => if reached = level then 1 else 0
  | _ => 0

/-- The task that the call has in hand, before a push or after a pop. -/
def carried : Pc → Option Task
  | .putTest task _ => some task
  | .putLock task _ => some task
  | .putRetest task _ => some task
  | .putReset task _ => some task
  | .putLockActive task _ => some task
  | .putPublish task _ _ => some task
  | .putUnlockActive task _ => some task
  | .putUnlock task _ => some task
  | .putLoad task _ => some task
  | .putPush task _ => some task
  | .getTaken _ task => some task
  | .move _ _ _ task => some task
  | _ => none

def putting : Pc → Option Task
  | .putCount task => some task
  | .putHead task => some task
  | .putRaise task _ => some task
  | .getTaken _ _ => none
  | .move _ _ _ _ => none
  | pc => pc.carried

def carries (task : Task) (pc : Pc) : Nat := if pc.carried = some task then 1 else 0
def puts (task : Task) (pc : Pc) : Nat := if pc.putting = some task then 1 else 0

def Drains (level queue : Nat) : Pc → Prop
  | .drain _ reached drained => reached = level ∧ drained = queue
  | .move _ reached drained _ => reached = level ∧ drained = queue
  | _ => False

def Removes : Pc → Prop
  | .lock change _ => change.Removes
  | .visit change _ => change.Removes
  | .clear _ _ _ => True
  | .drain _ _ _ => True
  | .move _ _ _ _ => True
  | .record change => change.Removes
  | .unlockActive change => change.Removes
  | .unlock change _ => change.Removes
  | _ => False

def Fine (shared : Shared) : Pc → Prop
  | .putReset task _ => shared.collection task.level = none
  | .putLockActive task _ => shared.collection task.level = none
  | .putPublish task _ tasks => shared.collection task.level = none ∧ tasks.Formed ∧ tasks.held = [] ∧
      tasks.AllReached
  | .putPush task queue => ∃ tasks, shared.collection task.level = some tasks ∧ queue < tasks.constructed
  | .putCount task => shared.collection task.level ≠ none
  | .putRaise _ expected => expected ≤ shared.domain.topPriorityIdx
  | .getTaken level task => task.level = level ∧ shared.collection level ≠ none
  | .clear idx level queue => ∃ tasks, shared.collection level = some tasks ∧ tasks.getThreadQueue idx = some queue
  | .move _ level _ task => task.level = level
  | _ => True

structure Keeps (pc next : Pc) : Prop where
  owes : ∀ level, next.owes level = pc.owes level
  credits : ∀ level, next.credits level = pc.credits level
  carried : next.carried = pc.carried
  putting : next.putting = pc.putting
  removes : next.Removes → pc.Removes

end Pc

inductive Effect (shared : Shared) : Pc → Shared → Pc → Prop
  | quiet {pc next : Pc} : pc.Keeps next → (∀ level, next.holds level = pc.holds level) →
      next.holdsActive = pc.holdsActive → (∀ level queue, ¬ pc.Drains level queue) →
      (pc.Fine shared → (∀ level tasks, shared.collection level = some tasks → tasks.Formed) → next.Fine shared) →
      Effect shared pc shared next
  | lock {pc next : Pc} (level : Nat) : shared.mutexes level = false → pc.Keeps next →
      (∀ other, next.holds other = pc.holds other + if other = level then 1 else 0) →
      next.holdsActive = pc.holdsActive → (∀ level queue, ¬ pc.Drains level queue) → (∀ shared, next.Fine shared) →
      Effect shared pc (shared.setMutex level true) next
  | unlock {pc next : Pc} (level : Nat) : pc.Keeps next →
      (∀ other, pc.holds other = next.holds other + if other = level then 1 else 0) →
      next.holdsActive = pc.holdsActive → (∀ level queue, ¬ pc.Drains level queue) → (∀ shared, next.Fine shared) →
      Effect shared pc (shared.setMutex level false) next
  | lockActive {pc next : Pc} : shared.activeMutex = false → pc.Keeps next →
      (∀ level, next.holds level = pc.holds level) → next.holdsActive = pc.holdsActive + 1 →
      (∀ level queue, ¬ pc.Drains level queue) → (pc.Fine shared → next.Fine shared) →
      Effect shared pc (shared.setActiveMutex true) next
  | unlockActive {pc next : Pc} : pc.Keeps next → (∀ level, next.holds level = pc.holds level) →
      pc.holdsActive = next.holdsActive + 1 → (∀ level queue, ¬ pc.Drains level queue) →
      (∀ shared, next.Fine shared) → Effect shared pc (shared.setActiveMutex false) next
  | reset (task : Task) (thid : Int) :
      Effect shared (.putReset task thid) (shared.setCount task.level 0) (.putLockActive task thid)
  | publish (task : Task) (thid : Int) (tasks : TaskCollection) :
      Effect shared (.putPublish task thid tasks) (shared.publish task.level tasks) (.putUnlockActive task thid)
  | push (task : Task) (queue : Nat) (tasks : TaskCollection) : shared.collection task.level = some tasks →
      tasks.held.length < queueCapacity →
      Effect shared (.putPush task queue) (shared.setCollection task.level (tasks.pushBack queue task)) (.putCount task)
  | count (task : Task) :
      Effect shared (.putCount task) (shared.setCount task.level (shared.count task.level + 1)) (.putHead task)
  | finish (task : Task) (expected head : Nat) : (task.level ≤ expected ∧ head = shared.domain.topPriorityIdx ∨
        shared.domain.topPriorityIdx = expected ∧ expected < task.level ∧ head = task.level) →
      Effect shared (.putRaise task expected) ((shared.setHead head).finish task) .idle
  | take {pc : Pc} (level queue : Nat) (task : Task) (tasks rest : TaskCollection) :
      pc.Keeps .idle → (∀ level, pc.holds level = 0) → pc.holdsActive = 0 → (∀ level queue, ¬ pc.Drains level queue) →
      shared.collection level = some tasks → tasks.tryPopFront queue = some (task,rest) →
      Effect shared pc (shared.setCollection level rest) (.getTaken level task)
  | give (level : Nat) (task : Task) : Effect shared (.getTaken level task)
      ((shared.setCount level (shared.count level + (2^64 - 1))).give task) .idle
  | register (idx level : Nat) (tasks : TaskCollection) : shared.collection level = some tasks →
      idx < tasks.threadTasks.length → Effect shared (.visit (.add idx) level)
        (shared.setCollection level (tasks.registerThread idx)) (.visit (.add idx) (level + 1))
  | clear (idx level queue : Nat) (tasks : TaskCollection) : shared.collection level = some tasks →
      Effect shared (.clear idx level queue) (shared.setCollection level (tasks.clearPointer idx)) (.drain idx level queue)
  | drain (idx level queue : Nat) (task : Task) (tasks rest : TaskCollection) :
      shared.collection level = some tasks → tasks.tryPopFront queue = some (task,rest) →
      Effect shared (.drain idx level queue) (shared.setCollection level rest) (.move idx level queue task)
  | drained (idx level queue : Nat) (tasks : TaskCollection) : shared.collection level = some tasks →
      tasks.queues queue = [] → Effect shared (.drain idx level queue) shared (.visit (.remove idx) (level + 1))
  | move (idx level queue : Nat) (task : Task) (tasks : TaskCollection) : shared.collection level = some tasks →
      tasks.held.length < queueCapacity → Effect shared (.move idx level queue task)
        (shared.setCollection level (tasks.pushBack TaskCollection.globalTasks task)) (.drain idx level queue)
  | record {pc : Pc} (change : Change) (ids : List Nat) : pc = .record change →
      Effect shared pc (shared.setActive ids) (.unlockActive change)

theorem newCollection_formed (domain : SchedulingDomain)
    (small : ∀ idx ∈ domain.activeThreadIds, idx < domain.cpuCount) :
    domain.newCollection.Formed ∧ domain.newCollection.held = [] ∧ domain.newCollection.AllReached := by
  have fold (ids : List Nat) (tasks : TaskCollection) (formed : tasks.Formed) (empty : tasks.held = [])
      (all : tasks.AllReached) (small : ∀ idx ∈ ids, idx < tasks.threadTasks.length) :
      (ids.foldl TaskCollection.registerThread tasks).Formed ∧
        (ids.foldl TaskCollection.registerThread tasks).held = [] ∧
        (ids.foldl TaskCollection.registerThread tasks).AllReached := by
    induction ids generalizing tasks with
    | nil => exact ⟨formed,empty,all⟩
    | cons first rest ih =>
      apply ih
      · exact formed.registerThread first
      · exact (TaskCollection.held_registerThread formed).trans empty
      · exact all.registerThread (small first List.mem_cons_self)
      · intro idx member
        rw [TaskCollection.registerThread_length]
        exact small idx (List.mem_cons_of_mem _ member)
  apply fold _ _ (.create _) (TaskCollection.held_create _) (.create _)
  intro idx member
  exact (small idx member).trans_eq List.length_replicate.symm

section Acting

variable {shared changed : Shared} {choice : Nat} {pc next : Pc}

theorem Effect.look (keeps : pc.Keeps next) (free : ∀ level, pc.holds level = 0) (free' : ∀ level, next.holds level = 0)
    (inactive : pc.holdsActive = 0) (inactive' : next.holdsActive = 0) (still : ∀ level queue, ¬ pc.Drains level queue)
    (fine : next.Fine shared) : Effect shared pc shared next :=
  .quiet keeps (fun level => (free' level).trans (free level).symm) (inactive'.trans inactive.symm) still
    (fun _ _ => fine)

theorem Effect.pop {level queue : Nat} {missed : Pc}
    (popped : shared.tryPopFront level queue (.getTaken level) missed = some (changed,next)) (keeps : pc.Keeps .idle) (keeps' : pc.Keeps missed)
    (free : ∀ level, pc.holds level = 0) (free' : ∀ level, missed.holds level = 0)
    (inactive : pc.holdsActive = 0) (inactive' : missed.holdsActive = 0)
    (still : ∀ level queue, ¬ pc.Drains level queue) (fine : missed.Fine shared) :
    Effect shared pc changed next := by
  obtain ⟨tasks,found,⟨task,rest,front,rfl,rfl⟩ | ⟨_,rfl,rfl⟩⟩ := Shared.tryPopFront_some popped
  · exact .take level queue task tasks rest keeps free inactive still found front
  · exact .look keeps' free free' inactive inactive' still fine

theorem act_effect (acted : act shared choice pc = some (changed,next)) : Effect shared pc changed next := by
  cases pc with
  | idle => cases acted
  | putTest task thid =>
    obtain ⟨rfl,rfl⟩ := Prod.mk.inj (Option.some.inj acted)
    split
    · exact .look ⟨fun _ => rfl,fun _ => rfl,rfl,rfl,id⟩ (fun _ => rfl) (fun _ => rfl) rfl rfl (fun _ _ => id) trivial
    · exact .look ⟨fun _ => rfl,fun _ => rfl,rfl,rfl,id⟩ (fun _ => rfl) (fun _ => rfl) rfl rfl (fun _ _ => id) trivial
  | putLock task thid =>
    rw [act] at acted
    split at acted
    · cases acted
    next free =>
      obtain ⟨rfl,rfl⟩ := Prod.mk.inj (Option.some.inj acted)
      refine .lock task.level (Bool.eq_false_iff.mpr free) ⟨fun _ => rfl,fun _ => rfl,rfl,rfl,id⟩ ?_ rfl (fun _ _ => id)
        (fun _ => trivial)
      intro other
      simp [Pc.holds,eq_comm]
  | putRetest task thid =>
    obtain ⟨rfl,rfl⟩ := Prod.mk.inj (Option.some.inj acted)
    split
    next absent =>
      exact .quiet ⟨fun _ => rfl,fun _ => rfl,rfl,rfl,id⟩ (fun _ => rfl) rfl (fun _ _ => id)
        (fun _ _ => Option.isNone_iff_eq_none.mp absent)
    next => exact .quiet ⟨fun _ => rfl,fun _ => rfl,rfl,rfl,id⟩ (fun _ => rfl) rfl (fun _ _ => id) (fun _ _ => trivial)
  | putReset task thid =>
    obtain ⟨rfl,rfl⟩ := Prod.mk.inj (Option.some.inj acted)
    exact .reset task thid
  | putLockActive task thid =>
    rw [act] at acted
    split at acted
    · cases acted
    next free =>
      split at acted
      next small =>
        obtain ⟨rfl,rfl⟩ := Prod.mk.inj (Option.some.inj acted)
        exact .lockActive (Bool.eq_false_iff.mpr free) ⟨fun _ => rfl,fun _ => rfl,rfl,rfl,id⟩ (fun _ => rfl) rfl
          (fun _ _ => id) (fun absent => ⟨absent,newCollection_formed _ (by simpa using small)⟩)
      · cases acted
  | putPublish task thid tasks =>
    obtain ⟨rfl,rfl⟩ := Prod.mk.inj (Option.some.inj acted)
    exact .publish task thid tasks
  | putUnlockActive task thid =>
    obtain ⟨rfl,rfl⟩ := Prod.mk.inj (Option.some.inj acted)
    exact .unlockActive ⟨fun _ => rfl,fun _ => rfl,rfl,rfl,id⟩ (fun _ => rfl) rfl (fun _ _ => id) (fun _ => trivial)
  | putUnlock task thid =>
    obtain ⟨rfl,rfl⟩ := Prod.mk.inj (Option.some.inj acted)
    refine .unlock task.level ⟨fun _ => rfl,fun _ => rfl,rfl,rfl,id⟩ ?_ rfl (fun _ _ => id) (fun _ => trivial)
    intro other
    simp [Pc.holds,eq_comm]
  | putLoad task thid =>
    rw [act] at acted
    split at acted
    · cases acted
    next tasks found =>
      obtain ⟨rfl,rfl⟩ := Prod.mk.inj (Option.some.inj acted)
      refine .quiet ⟨fun _ => rfl,fun _ => rfl,rfl,rfl,id⟩ (fun _ => rfl) rfl (fun _ _ => id) (fun _ formed => ?_)
      have formed := formed _ tasks found
      refine ⟨tasks,found,?_⟩
      cases pointed : tasks.getThreadQueue (toSize thid) with
      | none => exact formed.global
      | some queue => exact (formed.pointed _ queue pointed).2
  | putPush task queue =>
    obtain ⟨pushed,push,same⟩ := Option.map_eq_some_iff.mp acted
    obtain ⟨rfl,rfl⟩ := Prod.mk.inj same
    obtain ⟨tasks,found,room,rfl⟩ := Shared.pushBack_some push
    exact .push task queue tasks found room
  | putCount task =>
    obtain ⟨rfl,rfl⟩ := Prod.mk.inj (Option.some.inj acted)
    exact .count task
  | putHead task =>
    obtain ⟨rfl,rfl⟩ := Prod.mk.inj (Option.some.inj acted)
    exact .look ⟨fun _ => rfl,fun _ => rfl,rfl,rfl,id⟩ (fun _ => rfl) (fun _ => rfl) rfl rfl (fun _ _ => id) (Nat.le_refl _)
  | putRaise task expected =>
    rw [act] at acted
    split at acted
    next low =>
      obtain ⟨rfl,rfl⟩ := Prod.mk.inj (Option.some.inj acted)
      exact .finish task expected shared.domain.topPriorityIdx (.inl ⟨low,rfl⟩)
    next high =>
      split at acted
      next swapped =>
        obtain ⟨rfl,rfl⟩ := Prod.mk.inj (Option.some.inj acted)
        exact .finish task expected task.level (.inr ⟨swapped.1,Nat.lt_of_not_le high,rfl⟩)
      next =>
        obtain ⟨rfl,rfl⟩ := Prod.mk.inj (Option.some.inj acted)
        exact .look ⟨fun _ => rfl,fun _ => rfl,rfl,rfl,id⟩ (fun _ => rfl) (fun _ => rfl) rfl rfl (fun _ _ => id)
          (Nat.le_refl _)
  | getHead thid =>
    obtain ⟨rfl,rfl⟩ := Prod.mk.inj (Option.some.inj acted)
    exact .look ⟨fun _ => rfl,fun _ => rfl,rfl,rfl,id⟩ (fun _ => rfl) (fun _ => rfl) rfl rfl (fun _ _ => id) trivial
  | getCount thid level =>
    cases level with
    | zero =>
      obtain ⟨rfl,rfl⟩ := Prod.mk.inj (Option.some.inj acted)
      exact .look ⟨fun _ => rfl,fun _ => rfl,rfl,rfl,id⟩ (fun _ => rfl) (fun _ => rfl) rfl rfl (fun _ _ => id) trivial
    | succ level =>
      obtain ⟨rfl,rfl⟩ := Prod.mk.inj (Option.some.inj acted)
      split
      · exact .look ⟨fun _ => rfl,fun _ => rfl,rfl,rfl,id⟩ (fun _ => rfl) (fun _ => rfl) rfl rfl (fun _ _ => id) trivial
      · exact .look ⟨fun _ => rfl,fun _ => rfl,rfl,rfl,id⟩ (fun _ => rfl) (fun _ => rfl) rfl rfl (fun _ _ => id) trivial
  | getOwn thid level =>
    rw [act] at acted
    split at acted
    · cases acted
    · split at acted
      · obtain ⟨rfl,rfl⟩ := Prod.mk.inj (Option.some.inj acted)
        exact .look ⟨fun _ => rfl,fun _ => rfl,rfl,rfl,id⟩ (fun _ => rfl) (fun _ => rfl) rfl rfl (fun _ _ => id) trivial
      · obtain ⟨rfl,rfl⟩ := Prod.mk.inj (Option.some.inj acted)
        exact .look ⟨fun _ => rfl,fun _ => rfl,rfl,rfl,id⟩ (fun _ => rfl) (fun _ => rfl) rfl rfl (fun _ _ => id) trivial
  | getOwnPop thid level queue =>
    exact .pop acted ⟨fun _ => rfl,fun _ => rfl,rfl,rfl,id⟩ ⟨fun _ => rfl,fun _ => rfl,rfl,rfl,id⟩ (fun _ => rfl)
      (fun _ => rfl) rfl rfl (fun _ _ => id) trivial
  | getGlobal thid level =>
    exact .pop acted ⟨fun _ => rfl,fun _ => rfl,rfl,rfl,id⟩ ⟨fun _ => rfl,fun _ => rfl,rfl,rfl,id⟩ (fun _ => rfl)
      (fun _ => rfl) rfl rfl (fun _ _ => id) trivial
  | getStart thid level =>
    rw [act] at acted
    split at acted
    · cases acted
    · obtain ⟨rfl,rfl⟩ := Prod.mk.inj (Option.some.inj acted)
      split
      · exact .look ⟨fun _ => rfl,fun _ => rfl,rfl,rfl,id⟩ (fun _ => rfl) (fun _ => rfl) rfl rfl (fun _ _ => id) trivial
      · exact .look ⟨fun _ => rfl,fun _ => rfl,rfl,rfl,id⟩ (fun _ => rfl) (fun _ => rfl) rfl rfl (fun _ _ => id) trivial
  | getSteal thid level i rounds =>
    cases rounds with
    | zero =>
      obtain ⟨rfl,rfl⟩ := Prod.mk.inj (Option.some.inj acted)
      exact .look ⟨fun _ => rfl,fun _ => rfl,rfl,rfl,id⟩ (fun _ => rfl) (fun _ => rfl) rfl rfl (fun _ _ => id) trivial
    | succ rounds =>
      rw [act] at acted
      split at acted
      · cases acted
      · split at acted
        · obtain ⟨rfl,rfl⟩ := Prod.mk.inj (Option.some.inj acted)
          exact .look ⟨fun _ => rfl,fun _ => rfl,rfl,rfl,id⟩ (fun _ => rfl) (fun _ => rfl) rfl rfl (fun _ _ => id) trivial
        · obtain ⟨rfl,rfl⟩ := Prod.mk.inj (Option.some.inj acted)
          exact .look ⟨fun _ => rfl,fun _ => rfl,rfl,rfl,id⟩ (fun _ => rfl) (fun _ => rfl) rfl rfl (fun _ _ => id) trivial
  | getStealPop thid level i rounds queue =>
    exact .pop acted ⟨fun _ => rfl,fun _ => rfl,rfl,rfl,id⟩ ⟨fun _ => rfl,fun _ => rfl,rfl,rfl,id⟩ (fun _ => rfl)
      (fun _ => rfl) rfl rfl (fun _ _ => id) trivial
  | getTaken level task =>
    obtain ⟨rfl,rfl⟩ := Prod.mk.inj (Option.some.inj acted)
    exact .give level task
  | lock change level =>
    rw [act] at acted
    split at acted
    next inside =>
      split at acted
      · cases acted
      next free =>
        obtain ⟨rfl,rfl⟩ := Prod.mk.inj (Option.some.inj acted)
        refine .lock level (Bool.eq_false_iff.mpr free) ⟨fun _ => rfl,fun _ => rfl,rfl,rfl,id⟩ ?_ rfl (fun _ _ => id)
          (fun _ => trivial)
        intro other
        unfold Pc.holds
        grind
    next outside =>
      split at acted
      · cases acted
      next free =>
        obtain ⟨rfl,rfl⟩ := Prod.mk.inj (Option.some.inj acted)
        refine .lockActive (Bool.eq_false_iff.mpr free) ⟨fun _ => rfl,fun _ => rfl,rfl,rfl,id⟩ ?_ rfl (fun _ _ => id)
          (fun _ => trivial)
        intro other
        unfold Pc.holds
        grind
  | visit change level =>
    rw [act] at acted
    split at acted
    · split at acted
      · obtain ⟨rfl,rfl⟩ := Prod.mk.inj (Option.some.inj acted)
        exact .quiet ⟨fun _ => rfl,fun _ => rfl,rfl,rfl,id⟩ (fun _ => rfl) rfl (fun _ _ => id) (fun _ _ => trivial)
      next tasks found =>
        cases change with
        | add idx =>
          dsimp only at acted
          split at acted
          next small =>
            obtain ⟨rfl,rfl⟩ := Prod.mk.inj (Option.some.inj acted)
            exact .register idx level tasks found small
          · cases acted
        | remove idx =>
          obtain ⟨queue,pointed,same⟩ := Option.map_eq_some_iff.mp acted
          obtain ⟨rfl,rfl⟩ := Prod.mk.inj same
          exact .quiet ⟨fun _ => rfl,fun _ => rfl,rfl,rfl,id⟩ (fun _ => rfl) rfl (fun _ _ => id)
            (fun _ _ => ⟨tasks,found,pointed⟩)
    · obtain ⟨rfl,rfl⟩ := Prod.mk.inj (Option.some.inj acted)
      exact .quiet ⟨fun _ => rfl,fun _ => rfl,rfl,rfl,id⟩ (fun _ => rfl) rfl (fun _ _ => id) (fun _ _ => trivial)
  | clear idx level queue =>
    obtain ⟨tasks,found,same⟩ := Option.map_eq_some_iff.mp acted
    obtain ⟨rfl,rfl⟩ := Prod.mk.inj same
    exact .clear idx level queue tasks found
  | drain idx level queue =>
    obtain ⟨tasks,found,⟨task,rest,front,rfl,rfl⟩ | ⟨empty,rfl,rfl⟩⟩ := Shared.tryPopFront_some acted
    · exact .drain idx level queue task tasks rest found front
    · exact .drained idx level queue tasks found empty
  | move idx level queue task =>
    obtain ⟨pushed,push,same⟩ := Option.map_eq_some_iff.mp acted
    obtain ⟨rfl,rfl⟩ := Prod.mk.inj same
    obtain ⟨tasks,found,room,rfl⟩ := Shared.pushBack_some push
    exact .move idx level queue task tasks found room
  | record change =>
    cases change with
    | add idx =>
      obtain ⟨rfl,rfl⟩ := Prod.mk.inj (Option.some.inj acted)
      exact .record (.add idx) _ rfl
    | remove idx =>
      rw [act] at acted
      split at acted
      · obtain ⟨rfl,rfl⟩ := Prod.mk.inj (Option.some.inj acted)
        exact .record (.remove idx) _ rfl
      · cases acted
  | unlockActive change =>
    obtain ⟨rfl,rfl⟩ := Prod.mk.inj (Option.some.inj acted)
    refine .unlockActive ⟨fun _ => rfl,fun _ => rfl,rfl,rfl,id⟩ ?_ rfl (fun _ _ => id) (fun _ => trivial)
    intro level
    simp [Pc.holds]
  | unlock change level =>
    rw [act] at acted
    split at acted
    next inside =>
      obtain ⟨rfl,rfl⟩ := Prod.mk.inj (Option.some.inj acted)
      refine .unlock level ⟨fun _ => rfl,fun _ => rfl,rfl,rfl,id⟩ ?_ rfl (fun _ _ => id) (fun _ => trivial)
      intro other
      unfold Pc.holds
      grind
    next outside =>
      obtain ⟨rfl,rfl⟩ := Prod.mk.inj (Option.some.inj acted)
      refine .quiet ⟨fun _ => rfl,fun _ => rfl,rfl,rfl,False.elim⟩ ?_ rfl (fun _ _ => id) (fun _ _ => trivial)
      intro other
      unfold Pc.holds
      grind

end Acting

end Pgasus.Scheduler
