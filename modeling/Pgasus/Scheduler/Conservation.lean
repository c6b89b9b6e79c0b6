import Pgasus.Scheduler.Steps

/-! What holds in every state that threads calling a scheduling domain reach: the
mutexes exclude each other, every task put is in a queue, in hand or returned,
and the counters count the queued tasks up to the updates still owed. -/
namespace Pgasus.Scheduler
open Totals Runs

structure Inv (state : State) : Prop where
  mutexes : ∀ level, total (Pc.holds level) state.threads = (state.shared.mutexes level).toNat
  active : total Pc.holdsActive state.threads = state.shared.activeMutex.toNat
  fine : ∀ pc ∈ state.threads, pc.Fine state.shared
  formed : ∀ level tasks, state.shared.collection level = some tasks → tasks.Formed
  sorted : ∀ level, ∀ task ∈ state.shared.held level, task.level = level
  room : ∀ level, (state.shared.held level).length ≤ queueCapacity
  absent : ∀ level, state.shared.collection level = none → state.shared.count level = 0
  bounded : ∀ level, state.shared.count level < 2^64
  counted : ∀ level, (state.shared.count level + total (Pc.owes level) state.threads) % 2^64 =
    ((state.shared.held level).length + total (Pc.credits level) state.threads) % 2^64
  conserved : ∀ task, state.shared.begun.count task =
    state.shared.got.count task + (state.shared.held task.level).count task + total (Pc.carries task) state.threads
  finished : ∀ task, state.shared.begun.count task =
    state.shared.done.count task + total (Pc.puts task) state.threads
  headed : ∀ task ∈ state.shared.done, task.level ≤ state.shared.domain.topPriorityIdx
  published : state.shared.published.Nodup
  stored : ∀ level, level ∈ state.shared.published ↔ state.shared.collection level ≠ none

section Effects

variable {shared changed : Shared} {pc next : Pc} {level : Nat}

theorem Effect.holds (effect : Effect shared pc changed next)
    (within : ∀ level, pc.holds level ≤ (shared.mutexes level).toNat) (level : Nat) :
    next.holds level + (shared.mutexes level).toNat = pc.holds level + (changed.mutexes level).toNat := by
  cases effect with
  | quiet keeps same => rw [same]
  | lock locked free keeps more =>
    rw [more level]
    by_cases isLocked : level = locked
    · simp [Shared.setMutex,isLocked,free]
    · simp [Shared.setMutex,isLocked]
  | unlock locked keeps less =>
    have more := less level
    have taken := within level
    by_cases isLocked : level = locked
    · rw [if_pos isLocked] at more
      have closed := Bool.toNat_le (shared.mutexes level)
      simp only [Shared.setMutex,isLocked,Function.update_self,Bool.toNat_false] at more taken closed ⊢
      omega
    · rw [if_neg isLocked] at more
      simp [Shared.setMutex,isLocked,more]
  | lockActive free keeps same => rw [same]; rfl
  | unlockActive keeps same => rw [same]; rfl
  | reset => rfl
  | publish => rfl
  | push => rfl
  | count => rfl
  | finish => rfl
  | take queue task tasks rest level keeps free => rw [free]; rfl
  | give => rfl
  | register => rfl
  | clear => rfl
  | drain => rfl
  | drained => rfl
  | move => rfl
  | record change ids same => subst same; rfl

theorem Effect.holdsActive (effect : Effect shared pc changed next)
    (within : pc.holdsActive ≤ shared.activeMutex.toNat) :
    next.holdsActive + shared.activeMutex.toNat = pc.holdsActive + changed.activeMutex.toNat := by
  cases effect with
  | quiet keeps holds same => rw [same]
  | lock locked free keeps more same => rw [same]; rfl
  | unlock locked keeps less same => rw [same]; rfl
  | lockActive free keeps holds more => simp [Shared.setActiveMutex,free,more]
  | unlockActive keeps holds less =>
    have closed := Bool.toNat_le shared.activeMutex
    simp only [Shared.setActiveMutex,Bool.toNat_false]
    omega
  | reset => rfl
  | publish => rfl
  | push => rfl
  | count => rfl
  | finish => rfl
  | take queue task tasks rest level keeps free inactive => rw [inactive]; rfl
  | give => rfl
  | register => rfl
  | clear => rfl
  | drain => rfl
  | drained => rfl
  | move => rfl
  | record change ids same => subst same; rfl

theorem formed_setCollection {tasks : TaskCollection}
    (formed : ∀ level tasks, shared.collection level = some tasks → tasks.Formed) (new : tasks.Formed) :
    ∀ other after, (shared.setCollection level tasks).collection other = some after → after.Formed := by
  intro other after found
  rw [Shared.collection_setCollection] at found
  split at found
  · obtain rfl := Option.some.inj found
    exact new
  · exact formed other after found

theorem Effect.formed (effect : Effect shared pc changed next) (fine : pc.Fine shared)
    (formed : ∀ level tasks, shared.collection level = some tasks → tasks.Formed) :
    ∀ level tasks, changed.collection level = some tasks → tasks.Formed := by
  cases effect with
  | reset => simpa using formed
  | publish task thid tasks => exact formed_setCollection formed fine.2.1
  | push task queue tasks found =>
    obtain ⟨_,same,small⟩ := fine
    obtain rfl := Option.some.inj (same.symm.trans found)
    exact formed_setCollection formed ((formed _ _ found).pushBack small)
  | count => simpa using formed
  | take level queue task tasks rest keeps free inactive still found front =>
    exact formed_setCollection formed ((formed _ _ found).tryPopFront front)
  | give => simpa using formed
  | register idx level tasks found => exact formed_setCollection formed ((formed _ _ found).registerThread idx)
  | clear idx level queue tasks found => exact formed_setCollection formed ((formed _ _ found).clearPointer idx)
  | drain idx level queue task tasks rest found front =>
    exact formed_setCollection formed ((formed _ _ found).tryPopFront front)
  | move idx level queue task tasks found =>
    exact formed_setCollection formed ((formed _ _ found).pushBack (formed _ _ found).global)
  | _ => exact formed

theorem Effect.carries (effect : Effect shared pc changed next) (fine : pc.Fine shared)
    (formed : ∀ level tasks, shared.collection level = some tasks → tasks.Formed)
    (sorted : ∀ level, ∀ task ∈ shared.held level, task.level = level) (task : Task) :
    changed.got.count task + (changed.held task.level).count task + next.carries task =
      shared.got.count task + (shared.held task.level).count task + pc.carries task := by
  -- a task enters or leaves the queues of its own level only
  have moved {level : Nat} {tasks after : TaskCollection} {other : Task} (found : shared.collection level = some tasks)
      (permuted : tasks.held.Perm (other::after.held)) :
      ((shared.setCollection level after).held task.level).count task + (if other = task then 1 else 0) =
        (shared.held task.level).count task := by
    have level_ : other.level = level := by
      apply sorted level
      rw [Shared.held_of_some found,permuted.mem_iff]
      exact List.mem_cons_self
    rw [Shared.held_setCollection]
    by_cases same : task.level = level
    · rw [if_pos same,same,Shared.held_of_some found,permuted.count_eq,List.count_cons]
      simp
    · have different : other ≠ task := by
        rintro rfl
        exact same level_
      simp [same,different]
  have entered {level : Nat} {tasks after : TaskCollection} {other : Task} (found : shared.collection level = some tasks)
      (level_ : other.level = level) (permuted : after.held.Perm (other::tasks.held)) :
      ((shared.setCollection level after).held task.level).count task =
        (shared.held task.level).count task + (if other = task then 1 else 0) := by
    rw [Shared.held_setCollection]
    by_cases same : task.level = level
    · rw [if_pos same,same,Shared.held_of_some found,permuted.count_eq,List.count_cons]
      simp
    · have different : other ≠ task := by
        rintro rfl
        exact same level_
      simp [same,different]
  have stays {level : Nat} {tasks after : TaskCollection} (found : shared.collection level = some tasks)
      (same : after.held = tasks.held) :
      (shared.setCollection level after).held task.level = shared.held task.level := by
    rw [Shared.held_setCollection,same]
    split
    next equal => rw [equal,Shared.held_of_some found]
    next => rfl
  cases effect with
  | quiet keeps => simp [Pc.carries,keeps.carried]
  | lock locked free keeps => simp [Pc.carries,keeps.carried]; rfl
  | unlock locked keeps => simp [Pc.carries,keeps.carried]; rfl
  | lockActive free keeps => simp [Pc.carries,keeps.carried]; rfl
  | unlockActive keeps => simp [Pc.carries,keeps.carried]; rfl
  | reset put thid =>
    rw [Shared.held_congr (Shared.collection_setCount ..)]
    rfl
  | publish put thid tasks =>
    have same : (shared.publish put.level tasks).held task.level = shared.held task.level := by
      change (shared.setCollection put.level tasks).held task.level = _
      rw [Shared.held_setCollection]
      split
      next equal =>
        rw [fine.2.2.1,equal]
        simp [Shared.held,fine.1]
      next => rfl
    rw [same]
    rfl
  | push put queue tasks found room =>
    obtain ⟨_,same,small⟩ := fine
    obtain rfl := Option.some.inj (same.symm.trans found)
    rw [entered found rfl (TaskCollection.held_pushBack put small)]
    simp only [Pc.carries,Pc.carried,Option.some.injEq]
    change shared.got.count task + _ + _ = _
    simp
    omega
  | count put =>
    rw [Shared.held_congr (Shared.collection_setCount ..)]
    rfl
  | finish => rfl
  | take level queue taken tasks rest keeps free inactive still found front =>
    have before := moved found (TaskCollection.held_tryPopFront (formed _ _ found) front)
    have nothing := keeps.carried
    simp only [Pc.carries,← nothing]
    change shared.got.count task + _ + _ = _
    simp [Pc.carried] at before ⊢
    omega
  | give level taken =>
    have same : ((shared.setCount level (shared.count level + (2^64 - 1))).give taken).held task.level =
        shared.held task.level := Shared.held_congr (Shared.collection_setCount ..)
    rw [same]
    change (taken::shared.got).count task + _ + _ = _
    simp [Pc.carries,Pc.carried,List.count_cons]
    omega
  | register idx level tasks found =>
    rw [stays found (TaskCollection.held_registerThread (formed _ _ found))]
    rfl
  | clear idx level queue tasks found =>
    rw [stays found (show (tasks.clearPointer idx).held = tasks.held from rfl)]
    rfl
  | drain idx level queue taken tasks rest found front =>
    have before := moved found (TaskCollection.held_tryPopFront (formed _ _ found) front)
    change shared.got.count task + _ + _ = _
    simp [Pc.carries,Pc.carried] at before ⊢
    omega
  | drained => rfl
  | move idx level queue taken tasks found =>
    rw [entered found fine (TaskCollection.held_pushBack taken (formed _ _ found).global)]
    change shared.got.count task + _ + _ = _
    simp [Pc.carries,Pc.carried]
    omega
  | record change ids same => subst same; rfl

theorem Effect.counts (effect : Effect shared pc changed next) (fine : pc.Fine shared)
    (formed : ∀ level tasks, shared.collection level = some tasks → tasks.Formed)
    (absent : ∀ level, shared.collection level = none → shared.count level = 0)
    (bounded : ∀ level, shared.count level < 2^64) (level : Nat) :
    (changed.count level + next.owes level + ((shared.held level).length + pc.credits level)) % 2^64 =
      (shared.count level + pc.owes level + ((changed.held level).length + next.credits level)) % 2^64 := by
  have lengths {reached : Nat} {tasks : TaskCollection} (after : TaskCollection)
      (found : shared.collection reached = some tasks) :
      ((shared.setCollection reached after).held level).length + (if level = reached then tasks.held.length else 0) =
        (shared.held level).length + (if level = reached then after.held.length else 0) := by
    rw [Shared.held_setCollection]
    split
    next same =>
      rw [same,Shared.held_of_some found]
      omega
    next => rfl
  cases effect with
  | quiet keeps => rw [keeps.owes,keeps.credits]
  | lock locked free keeps =>
    rw [keeps.owes,keeps.credits]
    rfl
  | unlock locked keeps =>
    rw [keeps.owes,keeps.credits]
    rfl
  | lockActive free keeps =>
    rw [keeps.owes,keeps.credits]
    rfl
  | unlockActive keeps =>
    rw [keeps.owes,keeps.credits]
    rfl
  | reset put thid =>
    rw [Shared.held_congr (Shared.collection_setCount ..),Shared.count_setCount]
    split
    next same =>
      rw [same,absent _ fine]
      rfl
    next => rfl
  | publish put thid tasks =>
    have same : (shared.publish put.level tasks).held level = shared.held level := by
      change (shared.setCollection put.level tasks).held level = _
      rw [Shared.held_setCollection]
      split
      next equal =>
        rw [fine.2.2.1,equal]
        simp [Shared.held,fine.1]
      next => rfl
    rw [same,Shared.count_publish]
    rfl
  | push put queue tasks found room =>
    obtain ⟨_,same,small⟩ := fine
    obtain rfl := Option.some.inj (found.symm.trans same)
    have grown := (TaskCollection.held_pushBack put small).length_eq
    have after := lengths (tasks.pushBack queue put) found
    rw [List.length_cons] at grown
    rw [Shared.count_setCollection]
    simp only [Pc.owes,Pc.credits]
    split_ifs at after ⊢ <;> omega
  | count put =>
    rw [Shared.held_congr (Shared.collection_setCount ..),Shared.count_setCount]
    have small := bounded level
    simp only [Pc.owes,Pc.credits]
    by_cases same : level = put.level
    · rw [if_pos same,if_pos same.symm,← same]
      omega
    · rw [if_neg same,if_neg (Ne.symm same)]
  | finish => rfl
  | take reached queue taken tasks rest keeps free inactive still found front =>
    have shrunk := (TaskCollection.held_tryPopFront (formed _ _ found) front).length_eq
    have after := lengths rest found
    have owes := keeps.owes level
    have credits := keeps.credits level
    rw [List.length_cons] at shrunk
    rw [Shared.count_setCollection,← owes,← credits]
    simp only [Pc.owes,Pc.credits]
    split_ifs at after ⊢ <;> omega
  | give reached taken =>
    have same : ((shared.setCount reached (shared.count reached + (2^64 - 1))).give taken).held level =
        shared.held level := Shared.held_congr (Shared.collection_setCount ..)
    have small := bounded level
    rw [same,Shared.count_give,Shared.count_setCount]
    simp only [Pc.owes,Pc.credits]
    by_cases same : level = reached
    · rw [if_pos same,if_pos same.symm,← same]
      omega
    · rw [if_neg same,if_neg (Ne.symm same)]
  | register idx reached tasks found =>
    have after := lengths (tasks.registerThread idx) found
    rw [TaskCollection.held_registerThread (formed _ _ found)] at after
    rw [Shared.count_setCollection]
    simp only [Pc.owes,Pc.credits]
    omega
  | clear idx reached queue tasks found =>
    have after := lengths (tasks.clearPointer idx) found
    rw [show (tasks.clearPointer idx).held = tasks.held from rfl] at after
    rw [Shared.count_setCollection]
    simp only [Pc.owes,Pc.credits]
    omega
  | drain idx reached queue taken tasks rest found front =>
    have shrunk := (TaskCollection.held_tryPopFront (formed _ _ found) front).length_eq
    have after := lengths rest found
    rw [List.length_cons] at shrunk
    rw [Shared.count_setCollection]
    simp only [Pc.owes,Pc.credits]
    split_ifs at after ⊢ <;> omega
  | drained => rfl
  | move idx reached queue taken tasks found =>
    have grown := (TaskCollection.held_pushBack taken (formed _ _ found).global).length_eq
    have after := lengths (tasks.pushBack TaskCollection.globalTasks taken) found
    rw [List.length_cons] at grown
    rw [Shared.count_setCollection]
    simp only [Pc.owes,Pc.credits]
    split_ifs at after ⊢ <;> omega
  | record change ids same =>
    subst same
    rfl

/-- Only a thread that holds the level's mutex stores a collection where there is none. -/
theorem Effect.stays_absent (effect : Effect shared pc changed next) (absent : shared.collection level = none)
    (free : pc.holds level = 0) : changed.collection level = none := by
  have other {reached : Nat} {tasks : TaskCollection} (after : TaskCollection)
      (found : shared.collection reached = some tasks) :
      (shared.setCollection reached after).collection level = none := by
    have different : level ≠ reached := by
      rintro rfl
      rw [absent] at found
      cases found
    rw [Shared.collection_setCollection,if_neg different,absent]
  cases effect with
  | reset => simpa using absent
  | publish task thid tasks =>
    have different : level ≠ task.level := by
      rintro rfl
      simp [Pc.holds] at free
    rw [Shared.collection_publish,if_neg different,absent]
  | push task queue tasks found => exact other _ found
  | count => simpa using absent
  | take level queue task tasks rest keeps free inactive still found => exact other _ found
  | give => simpa using absent
  | register idx level tasks found => exact other _ found
  | clear idx level queue tasks found => exact other _ found
  | drain idx level queue task tasks rest found => exact other _ found
  | move idx level queue task tasks found => exact other _ found
  | _ => exact absent

/-- A stored collection stays, its queues stay, and its pointers are changed only
by a thread that holds the mutex of the active threads. -/
theorem Effect.grows (effect : Effect shared pc changed next) (fine : pc.Fine shared) {tasks : TaskCollection}
    (found : shared.collection level = some tasks) :
    ∃ after, changed.collection level = some after ∧ tasks.constructed ≤ after.constructed ∧
      (pc.holdsActive = 0 → after.getThreadQueue = tasks.getThreadQueue) := by
  have edited {reached : Nat} {before : TaskCollection} (after : TaskCollection)
      (stored : shared.collection reached = some before) (grown : before.constructed ≤ after.constructed)
      (pointers : pc.holdsActive = 0 → after.getThreadQueue = before.getThreadQueue) :
      ∃ after', (shared.setCollection reached after).collection level = some after' ∧
        tasks.constructed ≤ after'.constructed ∧
        (pc.holdsActive = 0 → after'.getThreadQueue = tasks.getThreadQueue) := by
    rw [Shared.collection_setCollection]
    split
    next same =>
      subst same
      obtain rfl := Option.some.inj (stored.symm.trans found)
      exact ⟨after,rfl,grown,pointers⟩
    next => exact ⟨tasks,found,Nat.le_refl _,fun _ => rfl⟩
  cases effect with
  | reset => exact ⟨tasks,by simpa using found,Nat.le_refl _,fun _ => rfl⟩
  | publish task thid created =>
    have different : level ≠ task.level := by
      rintro rfl
      rw [fine.1] at found
      cases found
    exact ⟨tasks,by rw [Shared.collection_publish,if_neg different,found],Nat.le_refl _,fun _ => rfl⟩
  | push task queue before stored => exact edited _ stored (Nat.le_refl _) fun _ => rfl
  | count => exact ⟨tasks,by simpa using found,Nat.le_refl _,fun _ => rfl⟩
  | take reached queue task before rest keeps free inactive still stored front =>
    obtain ⟨_,_,rfl⟩ := TaskCollection.tryPopFront_some front
    exact edited _ stored (Nat.le_refl _) fun _ => rfl
  | give => exact ⟨tasks,by simpa using found,Nat.le_refl _,fun _ => rfl⟩
  | register idx reached before stored =>
    exact edited _ stored TaskCollection.registerThread_constructed fun inactive => absurd inactive Nat.one_ne_zero
  | clear idx reached queue before stored =>
    exact edited _ stored (Nat.le_refl _) fun inactive => absurd inactive Nat.one_ne_zero
  | drain idx reached queue task before rest stored front =>
    obtain ⟨_,_,rfl⟩ := TaskCollection.tryPopFront_some front
    exact edited _ stored (Nat.le_refl _) fun _ => rfl
  | move idx reached queue task before stored => exact edited _ stored (Nat.le_refl _) fun _ => rfl
  | _ => exact ⟨tasks,found,Nat.le_refl _,fun _ => rfl⟩

theorem Effect.head_le (effect : Effect shared pc changed next) :
    shared.domain.topPriorityIdx ≤ changed.domain.topPriorityIdx := by
  cases effect with
  | finish task expected head raised =>
    change _ ≤ head
    omega
  | _ => exact Nat.le_refl _

theorem Effect.fine_other (effect : Effect shared pc changed next) (fine : pc.Fine shared) {other : Pc}
    (known : other.Fine shared) (apart : ∀ level, pc.holds level + other.holds level ≤ 1)
    (apartActive : pc.holdsActive + other.holdsActive ≤ 1) : other.Fine changed := by
  have unpublished {task : Task} (absent : shared.collection task.level = none) (held : other.holds task.level = 1) :
      changed.collection task.level = none := by
    apply effect.stays_absent absent
    have alone := apart task.level
    omega
  have stored {level : Nat} (some_ : shared.collection level ≠ none) : changed.collection level ≠ none := by
    obtain ⟨tasks,found⟩ := Option.ne_none_iff_exists'.mp some_
    obtain ⟨after,found',_⟩ := effect.grows fine found
    simp [found']
  cases other with
  | putReset task thid => exact unpublished known (by simp [Pc.holds])
  | putLockActive task thid => exact unpublished known (by simp [Pc.holds])
  | putPublish task thid tasks => exact ⟨unpublished known.1 (by simp [Pc.holds]),known.2⟩
  | putPush task queue =>
    obtain ⟨tasks,found,small⟩ := known
    obtain ⟨after,found',grown,_⟩ := effect.grows fine found
    exact ⟨after,found',Nat.lt_of_lt_of_le small grown⟩
  | putCount task => exact stored known
  | putRaise task expected => exact Nat.le_trans known effect.head_le
  | getTaken level task => exact ⟨known.1,stored known.2⟩
  | clear idx level queue =>
    obtain ⟨tasks,found,pointed⟩ := known
    obtain ⟨after,found',_,pointers⟩ := effect.grows fine found
    have inactive : pc.holdsActive = 0 := Nat.le_zero.mp (Nat.le_of_succ_le_succ apartActive)
    exact ⟨after,found',by rw [pointers inactive]; exact pointed⟩
  | move idx level queue task => exact known
  | _ => trivial

theorem Effect.fine_next (effect : Effect shared pc changed next) (fine : pc.Fine shared)
    (formed : ∀ level tasks, shared.collection level = some tasks → tasks.Formed)
    (sorted : ∀ level, ∀ task ∈ shared.held level, task.level = level) : next.Fine changed := by
  have inside {level queue : Nat} {task : Task} {tasks rest : TaskCollection}
      (found : shared.collection level = some tasks) (front : tasks.tryPopFront queue = some (task,rest)) :
      task.level = level := by
    apply sorted level
    rw [Shared.held_of_some found,(TaskCollection.held_tryPopFront (formed _ _ found) front).mem_iff]
    exact List.mem_cons_self
  cases effect with
  | quiet keeps holds active still known => exact known fine formed
  | lock locked free keeps more active still known => exact known _
  | unlock locked keeps less active still known => exact known _
  | lockActive free keeps holds more still known =>
    have known := known fine
    cases next <;> exact known
  | unlockActive keeps holds less still known => exact known _
  | reset task thid => exact (Shared.collection_setCount ..).trans fine
  | push task queue tasks found =>
    change Shared.collection _ _ ≠ none
    rw [Shared.collection_setCollection,if_pos rfl]
    simp
  | take level queue task tasks rest keeps free inactive still found front =>
    refine ⟨inside found front,?_⟩
    rw [Shared.collection_setCollection,if_pos rfl]
    simp
  | drain idx level queue task tasks rest found front => exact inside found front
  | record change ids same => trivial
  | publish => trivial
  | count => trivial
  | finish => trivial
  | give => trivial
  | register => trivial
  | clear => trivial
  | drained => trivial
  | move => trivial

theorem Effect.sorted (effect : Effect shared pc changed next) (fine : pc.Fine shared)
    (formed : ∀ level tasks, shared.collection level = some tasks → tasks.Formed)
    (sorted : ∀ level, ∀ task ∈ shared.held level, task.level = level) :
    ∀ level, ∀ task ∈ changed.held level, task.level = level := by
  have edited {reached : Nat} (after : TaskCollection)
      (inside : ∀ task ∈ after.held, task.level = reached) :
      ∀ level, ∀ task ∈ (shared.setCollection reached after).held level, task.level = level := by
    intro level task member
    rw [Shared.held_setCollection] at member
    split at member
    next same =>
      rw [same]
      exact inside task member
    next => exact sorted level task member
  have kept {reached : Nat} {tasks : TaskCollection} (found : shared.collection reached = some tasks) :
      ∀ task ∈ tasks.held, task.level = reached := by
    rw [← Shared.held_of_some found]
    exact sorted reached
  cases effect with
  | reset =>
    intro level task member
    rw [Shared.held_congr (Shared.collection_setCount ..)] at member
    exact sorted level task member
  | publish put thid tasks =>
    apply edited
    simp [fine.2.2.1]
  | push put queue tasks found =>
    obtain ⟨_,same,small⟩ := fine
    obtain rfl := Option.some.inj (found.symm.trans same)
    apply edited
    intro task member
    rw [(TaskCollection.held_pushBack put small).mem_iff,List.mem_cons] at member
    obtain rfl | member := member
    · rfl
    · exact kept found task member
  | count =>
    intro level task member
    rw [Shared.held_congr (Shared.collection_setCount ..)] at member
    exact sorted level task member
  | take level queue taken tasks rest keeps free inactive still found front =>
    apply edited
    intro task member
    apply kept found
    rw [(TaskCollection.held_tryPopFront (formed _ _ found) front).mem_iff]
    exact List.mem_cons_of_mem _ member
  | give reached taken =>
    intro level task member
    have same : ((shared.setCount reached (shared.count reached + (2^64 - 1))).give taken).held level =
        shared.held level := Shared.held_congr (Shared.collection_setCount ..)
    rw [same] at member
    exact sorted level task member
  | register idx level tasks found =>
    apply edited
    rw [TaskCollection.held_registerThread (formed _ _ found)]
    exact kept found
  | clear idx level queue tasks found => exact edited _ (show ∀ task ∈ tasks.held, task.level = level from kept found)
  | drain idx level queue taken tasks rest found front =>
    apply edited
    intro task member
    apply kept found
    rw [(TaskCollection.held_tryPopFront (formed _ _ found) front).mem_iff]
    exact List.mem_cons_of_mem _ member
  | move idx level queue taken tasks found =>
    apply edited
    intro task member
    rw [(TaskCollection.held_pushBack taken (formed _ _ found).global).mem_iff,List.mem_cons] at member
    obtain rfl | member := member
    · exact fine
    · exact kept found task member
  | _ => exact sorted

theorem Effect.room (effect : Effect shared pc changed next) (fine : pc.Fine shared)
    (formed : ∀ level tasks, shared.collection level = some tasks → tasks.Formed)
    (room : ∀ level, (shared.held level).length ≤ queueCapacity) :
    ∀ level, (changed.held level).length ≤ queueCapacity := by
  have edited {reached : Nat} (after : TaskCollection) (inside : after.held.length ≤ queueCapacity) :
      ∀ level, ((shared.setCollection reached after).held level).length ≤ queueCapacity := by
    intro level
    rw [Shared.held_setCollection]
    split
    · exact inside
    · exact room level
  have kept {reached : Nat} {tasks : TaskCollection} (found : shared.collection reached = some tasks) :
      tasks.held.length ≤ queueCapacity := by
    rw [← Shared.held_of_some found]
    exact room reached
  have popped {reached queue : Nat} {task : Task} {tasks rest : TaskCollection}
      (found : shared.collection reached = some tasks) (front : tasks.tryPopFront queue = some (task,rest)) :
      rest.held.length ≤ queueCapacity := by
    have bound := kept found
    rw [(TaskCollection.held_tryPopFront (formed _ _ found) front).length_eq,List.length_cons] at bound
    omega
  cases effect with
  | reset =>
    intro level
    rw [Shared.held_congr (Shared.collection_setCount ..)]
    exact room level
  | publish put thid tasks => exact edited _ (by simp [fine.2.2.1])
  | push put queue tasks found free =>
    obtain ⟨_,same,small⟩ := fine
    obtain rfl := Option.some.inj (found.symm.trans same)
    apply edited
    rw [(TaskCollection.held_pushBack put small).length_eq]
    exact free
  | count =>
    intro level
    rw [Shared.held_congr (Shared.collection_setCount ..)]
    exact room level
  | take level queue taken tasks rest keeps free inactive still found front => exact edited _ (popped found front)
  | give reached taken =>
    intro level
    have same : ((shared.setCount reached (shared.count reached + (2^64 - 1))).give taken).held level =
        shared.held level := Shared.held_congr (Shared.collection_setCount ..)
    rw [same]
    exact room level
  | register idx level tasks found =>
    apply edited
    rw [TaskCollection.held_registerThread (formed _ _ found)]
    exact kept found
  | clear idx level queue tasks found => exact edited _ (show tasks.held.length ≤ queueCapacity from kept found)
  | drain idx level queue taken tasks rest found front => exact edited _ (popped found front)
  | move idx level queue taken tasks found free =>
    apply edited
    rw [(TaskCollection.held_pushBack taken (formed _ _ found).global).length_eq]
    exact free
  | _ => exact room

theorem Effect.bounded (effect : Effect shared pc changed next) (bounded : ∀ level, shared.count level < 2^64) :
    ∀ level, changed.count level < 2^64 := by
  have small (number : Nat) : number % 2^64 < 2^64 := Nat.mod_lt _ (Nat.two_pow_pos 64)
  intro level
  cases effect with
  | reset => rw [Shared.count_setCount]; split; exacts [small _,bounded level]
  | publish => rw [Shared.count_publish]; exact bounded level
  | push => rw [Shared.count_setCollection]; exact bounded level
  | count => rw [Shared.count_setCount]; split; exacts [small _,bounded level]
  | take => rw [Shared.count_setCollection]; exact bounded level
  | give => rw [Shared.count_give,Shared.count_setCount]; split; exacts [small _,bounded level]
  | register => rw [Shared.count_setCollection]; exact bounded level
  | clear => rw [Shared.count_setCollection]; exact bounded level
  | drain => rw [Shared.count_setCollection]; exact bounded level
  | move => rw [Shared.count_setCollection]; exact bounded level
  | _ => exact bounded level

theorem Effect.absent (effect : Effect shared pc changed next) (fine : pc.Fine shared)
    (absent : ∀ level, shared.collection level = none → shared.count level = 0) :
    ∀ level, changed.collection level = none → changed.count level = 0 := by
  have kept {reached : Nat} {after : TaskCollection} :
      ∀ level, (shared.setCollection reached after).collection level = none →
        (shared.setCollection reached after).count level = 0 := by
    intro level nothing
    rw [Shared.collection_setCollection] at nothing
    split at nothing
    · cases nothing
    · rw [Shared.count_setCollection]
      exact absent level nothing
  have stored {reached : Nat} {number : Nat} (some_ : shared.collection reached ≠ none) :
      ∀ level, (shared.setCount reached number).collection level = none →
        (shared.setCount reached number).count level = 0 := by
    intro level nothing
    rw [Shared.collection_setCount] at nothing
    have different : level ≠ reached := by
      rintro rfl
      exact some_ nothing
    rw [Shared.count_setCount,if_neg different]
    exact absent level nothing
  cases effect with
  | reset task thid =>
    intro level nothing
    rw [Shared.collection_setCount] at nothing
    rw [Shared.count_setCount]
    split
    · rfl
    · exact absent level nothing
  | publish => exact kept
  | push => exact kept
  | count => exact stored fine
  | take => exact kept
  | give => exact stored fine.2
  | register => exact kept
  | clear => exact kept
  | drain => exact kept
  | move => exact kept
  | _ => exact absent

theorem Effect.puts (effect : Effect shared pc changed next) (task : Task) :
    changed.done.count task + next.puts task = shared.done.count task + pc.puts task := by
  cases effect with
  | quiet keeps => simp [Pc.puts,keeps.putting]
  | lock locked free keeps => simp [Pc.puts,keeps.putting]; rfl
  | unlock locked keeps => simp [Pc.puts,keeps.putting]; rfl
  | lockActive free keeps => simp [Pc.puts,keeps.putting]; rfl
  | unlockActive keeps => simp [Pc.puts,keeps.putting]; rfl
  | take level queue taken tasks rest keeps =>
    have same := keeps.putting
    simp only [Pc.puts,← same]
    rfl
  | finish put expected head =>
    change (put::shared.done).count task + 0 = _
    simp [Pc.puts,Pc.putting,List.count_cons]
  | record change ids same => subst same; rfl
  | _ => rfl

theorem Effect.begun (effect : Effect shared pc changed next) : changed.begun = shared.begun := by
  cases effect <;> rfl

theorem Effect.headed (effect : Effect shared pc changed next) (fine : pc.Fine shared)
    (headed : ∀ task ∈ shared.done, task.level ≤ shared.domain.topPriorityIdx) :
    ∀ task ∈ changed.done, task.level ≤ changed.domain.topPriorityIdx := by
  have grown := effect.head_le
  intro task member
  cases effect with
  | finish put expected head raised =>
    change task ∈ put::shared.done at member
    change task.level ≤ head
    change expected ≤ shared.domain.topPriorityIdx at fine
    obtain rfl | member := List.mem_cons.mp member
    · omega
    · exact Nat.le_trans (headed task member) grown
  | _ => exact headed task member

theorem Effect.stored (effect : Effect shared pc changed next) (fine : pc.Fine shared)
    (published : shared.published.Nodup) (stored : ∀ level, level ∈ shared.published ↔ shared.collection level ≠ none) :
    changed.published.Nodup ∧ ∀ level, level ∈ changed.published ↔ changed.collection level ≠ none := by
  have edited {reached : Nat} {tasks : TaskCollection} (after : TaskCollection)
      (found : shared.collection reached = some tasks) :
      shared.published.Nodup ∧ ∀ level, level ∈ shared.published ↔
        (shared.setCollection reached after).collection level ≠ none := by
    refine ⟨published,fun level => ?_⟩
    rw [stored,Shared.collection_setCollection]
    split
    next same => simp [same,found]
    next => rfl
  have counted {reached number : Nat} : shared.published.Nodup ∧ ∀ level, level ∈ shared.published ↔
      (shared.setCount reached number).collection level ≠ none := by
    refine ⟨published,fun level => ?_⟩
    rw [Shared.collection_setCount]
    exact stored level
  cases effect with
  | reset => exact counted
  | publish task thid tasks =>
    have fresh : task.level ∉ shared.published := by
      rw [stored]
      simp [fine.1]
    refine ⟨List.nodup_cons.mpr ⟨fresh,published⟩,fun level => ?_⟩
    change level ∈ task.level::shared.published ↔ _
    rw [List.mem_cons,stored,Shared.collection_publish]
    by_cases same : level = task.level
    · simp [same]
    · simp [same]
  | push task queue tasks found => exact edited _ found
  | count => exact counted
  | take level queue task tasks rest keeps free inactive still found => exact edited _ found
  | give => exact counted
  | register idx level tasks found => exact edited _ found
  | clear idx level queue tasks found => exact edited _ found
  | drain idx level queue task tasks rest found => exact edited _ found
  | move idx level queue task tasks found => exact edited _ found
  | _ => exact ⟨published,stored⟩

end Effects

section Runs

variable {state final : State} {action : Action} {cpuCount threads : Nat}

theorem Inv.start (cpuCount threads : Nat) : Inv (.start cpuCount threads) := by
  have nothing (weight : Pc → Nat) (idle : weight .idle = 0) : total weight (State.start cpuCount threads).threads = 0 := by
    rw [total_eq_zero]
    intro pc member
    rw [(List.mem_replicate.mp member).2]
    exact idle
  constructor
  · exact fun level => nothing _ rfl
  · exact nothing _ rfl
  · intro pc member
    rw [(List.mem_replicate.mp member).2]
    trivial
  · intro level tasks found
    cases found
  · intro level task member
    cases member
  · exact fun level => Nat.zero_le _
  · exact fun level _ => rfl
  · exact fun level => Nat.two_pow_pos 64
  · intro level
    rw [nothing _ rfl,nothing _ rfl]
    rfl
  · intro task
    rw [nothing _ rfl]
    rfl
  · intro task
    rw [nothing _ rfl]
    rfl
  · intro task member
    cases member
  · exact List.nodup_nil
  · intro level
    simp [State.start,Shared.collection,SchedulingDomain.create]

theorem Inv.advance (inv : Inv state) {thread : Nat} {pc next : Pc} {changed : Shared}
    (found : state.threads[thread]? = some pc) (effect : Effect state.shared pc changed next) :
    Inv ⟨changed,state.threads.set thread next⟩ := by
  have fine := inv.fine pc (List.mem_of_getElem? found)
  have within (level : Nat) : pc.holds level ≤ (state.shared.mutexes level).toNat := by
    rw [← inv.mutexes level]
    exact weight_le_total _ found
  have withinActive : pc.holdsActive ≤ state.shared.activeMutex.toNat := by
    rw [← inv.active]
    exact weight_le_total _ found
  constructor
  · intro level
    have moved := total_set (Pc.holds level) next found
    have balance := effect.holds within level
    have before := inv.mutexes level
    dsimp only
    omega
  · have moved := total_set Pc.holdsActive next found
    have balance := effect.holdsActive withinActive
    have before := inv.active
    dsimp only
    omega
  · intro other member
    obtain ⟨position,inside⟩ := List.mem_iff_getElem?.mp member
    rw [List.getElem?_set] at inside
    split at inside
    next same =>
      split at inside
      · obtain rfl := Option.some.inj inside
        exact effect.fine_next fine inv.formed inv.sorted
      · cases inside
    next different =>
      have known := inv.fine other (List.mem_of_getElem? inside)
      -- two threads do not hold one mutex
      apply effect.fine_other fine known
      · intro level
        by_contra both
        apply different
        apply position_unique (Pc.holds level) found inside
        rw [inv.mutexes level]
        have closed := Bool.toNat_le (state.shared.mutexes level)
        omega
      · by_contra both
        apply different
        apply position_unique Pc.holdsActive found inside
        rw [inv.active]
        have closed := Bool.toNat_le state.shared.activeMutex
        omega
  · exact effect.formed fine inv.formed
  · exact effect.sorted fine inv.formed inv.sorted
  · exact effect.room fine inv.formed inv.room
  · exact effect.absent fine inv.absent
  · exact effect.bounded inv.bounded
  · intro level
    have owes := total_set (Pc.owes level) next found
    have credits := total_set (Pc.credits level) next found
    have balance := effect.counts fine inv.formed inv.absent inv.bounded level
    have before := inv.counted level
    dsimp only
    omega
  · intro task
    have moved := total_set (Pc.carries task) next found
    have balance := effect.carries fine inv.formed inv.sorted task
    have before := inv.conserved task
    dsimp only
    rw [effect.begun]
    omega
  · intro task
    have moved := total_set (Pc.puts task) next found
    have balance := effect.puts task
    have before := inv.finished task
    dsimp only
    rw [effect.begun]
    omega
  · exact effect.headed fine inv.headed
  · exact (effect.stored fine inv.published inv.stored).1
  · exact (effect.stored fine inv.published inv.stored).2

theorem Inv.call (inv : Inv state) {thread : Nat} (found : state.threads[thread]? = some .idle) (call : Call) :
    Inv ⟨state.shared.called call,state.threads.set thread call.pc⟩ := by
  have kept : ∀ level, (state.shared.called call).collection level = state.shared.collection level := by
    cases call <;> exact fun level => rfl
  have heldKept (level : Nat) : (state.shared.called call).held level = state.shared.held level :=
    Shared.held_congr (kept level)
  have same (weight : Pc → Nat) (idle : weight .idle = 0) (free : weight call.pc = 0) :
      total weight (state.threads.set thread call.pc) = total weight state.threads := by
    have moved := total_set weight call.pc found
    omega
  constructor
  · intro level
    rw [same _ rfl (by cases call <;> simp [Call.pc,Pc.holds])]
    cases call <;> exact inv.mutexes level
  · rw [same _ rfl (by cases call <;> rfl)]
    cases call <;> exact inv.active
  · intro other member
    obtain rfl | member := List.mem_or_eq_of_mem_set member |>.symm
    · cases call <;> trivial
    · have known := inv.fine other member
      cases call with
      | putTask task thid => cases other <;> exact known
      | tryGetTask thid => exact known
      | change made => exact known
  · intro level tasks stored
    rw [kept] at stored
    exact inv.formed level tasks stored
  · intro level task member
    rw [heldKept] at member
    exact inv.sorted level task member
  · intro level
    rw [heldKept]
    exact inv.room level
  · intro level nothing
    rw [kept] at nothing
    have zero := inv.absent level nothing
    cases call <;> exact zero
  · intro level
    have small := inv.bounded level
    cases call <;> exact small
  · intro level
    rw [same _ rfl (by cases call <;> rfl),same _ rfl (by cases call <;> rfl),heldKept]
    have before := inv.counted level
    cases call <;> exact before
  · intro task
    rw [heldKept]
    have moved := total_set (Pc.carries task) call.pc found
    have before := inv.conserved task
    have idle : Pc.carries task .idle = 0 := rfl
    cases call with
    | putTask put thid =>
      change (put::state.shared.begun).count task = state.shared.got.count task + _ + _
      have carried : Pc.carries task (Call.putTask put thid).pc = if put = task then 1 else 0 := by
        simp [Pc.carries,Call.pc,Pc.carried]
      rw [List.count_cons]
      simp only [beq_iff_eq]
      omega
    | tryGetTask thid =>
      have carried : Pc.carries task (Call.tryGetTask thid).pc = 0 := rfl
      change state.shared.begun.count task = state.shared.got.count task + _ + _
      dsimp only
      omega
    | change made =>
      have carried : Pc.carries task (Call.change made).pc = 0 := rfl
      change state.shared.begun.count task = state.shared.got.count task + _ + _
      dsimp only
      omega
  · intro task
    have moved := total_set (Pc.puts task) call.pc found
    have before := inv.finished task
    have idle : Pc.puts task .idle = 0 := rfl
    cases call with
    | putTask put thid =>
      change (put::state.shared.begun).count task = state.shared.done.count task + _
      have carried : Pc.puts task (Call.putTask put thid).pc = if put = task then 1 else 0 := by
        simp [Pc.puts,Call.pc,Pc.putting,Pc.carried]
      rw [List.count_cons]
      simp only [beq_iff_eq]
      omega
    | tryGetTask thid =>
      have carried : Pc.puts task (Call.tryGetTask thid).pc = 0 := rfl
      change state.shared.begun.count task = state.shared.done.count task + _
      dsimp only
      omega
    | change made =>
      have carried : Pc.puts task (Call.change made).pc = 0 := rfl
      change state.shared.begun.count task = state.shared.done.count task + _
      dsimp only
      omega
  · have headed := inv.headed
    cases call <;> exact headed
  · have published := inv.published
    cases call <;> exact published
  · intro level
    rw [kept,← inv.stored level]
    cases call <;> rfl

theorem step_cases {next : State} (stepped : step state action = some next) :
    (∃ thread call, action = .call thread call ∧ state.threads[thread]? = some .idle ∧
      next = ⟨state.shared.called call,state.threads.set thread call.pc⟩) ∨
    ∃ thread choice pc after changed, action = .advance thread choice ∧ state.threads[thread]? = some pc ∧
      Effect state.shared pc changed after ∧ next = ⟨changed,state.threads.set thread after⟩ := by
  cases action with
  | call thread call =>
    unfold step at stepped
    dsimp only at stepped
    split at stepped
    next found => exact .inl ⟨thread,call,rfl,found,(Option.some.inj stepped).symm⟩
    next => cases stepped
  | advance thread choice =>
    unfold step at stepped
    dsimp only at stepped
    split at stepped
    next => cases stepped
    next pc found =>
      obtain ⟨⟨changed,after⟩,acted,rfl⟩ := Option.map_eq_some_iff.mp stepped
      exact .inr ⟨thread,choice,pc,after,changed,rfl,found,act_effect acted,rfl⟩

theorem Inv.step {next : State} (inv : Inv state) (stepped : step state action = some next) : Inv next := by
  obtain ⟨thread,call,_,found,rfl⟩ | ⟨thread,choice,pc,after,changed,_,found,effect,rfl⟩ := step_cases stepped
  · exact inv.call found call
  · exact inv.advance found effect

theorem inv_run {actions : List Action} (ran : run step (.start cpuCount threads) actions = some final) : Inv final :=
  invariant_of_run Inv (fun _ _ _ inv stepped => inv.step stepped) (Inv.start cpuCount threads) ran

end Runs
end Pgasus.Scheduler
