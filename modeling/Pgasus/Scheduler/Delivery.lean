import Pgasus.Scheduler.Counters

/-! Whether a task that was put can still be taken, when threads are added and
removed meanwhile. `put` reads the pointer to a thread's queue and pushes in two
steps; a task pushed after `remove_thread` has emptied the queue is out of reach. -/
namespace Pgasus.Scheduler
open Totals Runs

/-- The queue is looked into by later calls, or is being emptied into the global one. -/
def State.Live (state : State) (level queue : Nat) : Prop :=
  (∃ tasks, state.shared.collection level = some tasks ∧ tasks.Reached queue) ∨
    ∃ pc ∈ state.threads, pc.Drains level queue

/-- A push goes to a queue that has not been taken away and emptied. -/
def LivePush (state : State) : Action → Prop
  | .call _ _ => True
  | .advance thread _ =>
    ∀ task queue, state.threads[thread]? = some (.putPush task queue) → state.Live task.level queue

def Pc.popped (task : Task) : Pc → Nat
  | .getTaken _ taken => if taken = task then 1 else 0
  | .move _ _ _ taken => if taken = task then 1 else 0
  | _ => 0

/-- A task put is returned at most once, and until then it is in a queue that is
looked into, or on its way out of one; between calls the next one finds it. -/
structure State.Conserved (state : State) : Prop where
  once : ∀ task, state.shared.got.count task ≤ state.shared.begun.count task
  kept : ∀ task, state.shared.done.count task ≤ state.shared.got.count task +
    (state.shared.held task.level).count task + total (Pc.popped task) state.threads
  reached : ∀ level tasks queue, state.shared.collection level = some tasks → tasks.queues queue ≠ [] →
    state.Live level queue
  found : state.Quiet → ∀ thid random level, state.shared.held level ≠ [] →
    ∃ task next, state.shared.domain.tryGetTask thid random = some (some task,next)

section Steps

variable {shared changed : Shared} {pc next : Pc} {state final : State} {action : Action}

def State.Reachable (state : State) : Prop :=
  ∀ level tasks queue, state.shared.collection level = some tasks → tasks.queues queue ≠ [] → state.Live level queue

theorem Inv.conserved_of_reachable (inv : Inv state) (reachable : state.Reachable) : state.Conserved := by
  constructor
  · intro task
    have conserved := inv.conserved task
    omega
  · intro task
    have conserved := inv.conserved task
    have finished := inv.finished task
    have split : total (Pc.carries task) state.threads ≤
        total (Pc.popped task) state.threads + total (Pc.puts task) state.threads := by
      apply total_le_add
      intro pc
      cases pc <;> simp [Pc.carries,Pc.popped,Pc.puts,Pc.putting,Pc.carried]
    omega
  · exact reachable
  · intro quiet thid random level some_
    have exact_ : state.shared.domain.Exact := by
      apply inv.exact_of_quiet quiet
      intro level tasks queue found nonempty
      obtain ⟨stored,same,reached⟩ | ⟨pc,member,drains⟩ := reachable level tasks queue found nonempty
      · obtain rfl := Option.some.inj (same.symm.trans found)
        exact reached
      · rw [quiet pc member] at drains
        exact drains.elim
    cases found : state.shared.collection level with
    | none => simp [Shared.held,found] at some_
    | some tasks =>
      rw [Shared.held_of_some found] at some_
      exact exact_.tryGetTask_finds thid random found some_

theorem State.Live.move {thread level queue : Nat} (live : state.Live level queue)
    (found : state.threads[thread]? = some pc) (drains : pc.Drains level queue → next.Drains level queue)
    (reached : ∀ tasks, state.shared.collection level = some tasks → tasks.Reached queue →
      ∃ after, changed.collection level = some after ∧ after.Reached queue) :
    State.Live ⟨changed,state.threads.set thread next⟩ level queue := by
  obtain ⟨tasks,stored,pointed⟩ | ⟨other,member,emptied⟩ := live
  · exact .inl (reached tasks stored pointed)
  · obtain ⟨position,inside⟩ := List.mem_iff_getElem?.mp member
    by_cases same : thread = position
    · subst same
      obtain rfl := Option.some.inj (found.symm.trans inside)
      exact .inr ⟨next,List.mem_set (List.getElem?_eq_some_iff.mp found).1 next,drains emptied⟩
    · refine .inr ⟨other,List.mem_of_getElem? (i := position) ?_,emptied⟩
      rw [List.getElem?_set_ne same]
      exact inside

theorem State.Reachable.advance {thread : Nat} (reachable : state.Reachable) (inv : Inv state)
    (found : state.threads[thread]? = some pc) (effect : Effect state.shared pc changed next)
    (live : ∀ task queue, pc = .putPush task queue → state.Live task.level queue) :
    State.Reachable ⟨changed,state.threads.set thread next⟩ := by
  have fine := inv.fine pc (List.mem_of_getElem? found)
  have same (collections : ∀ level, changed.collection level = state.shared.collection level)
      (drains : ∀ level queue, (∃ tasks, state.shared.collection level = some tasks ∧ tasks.queues queue ≠ []) →
        pc.Drains level queue → next.Drains level queue) :
      State.Reachable ⟨changed,state.threads.set thread next⟩ := by
    intro level tasks queue stored nonempty
    change changed.collection level = some tasks at stored
    rw [collections] at stored
    apply (reachable level tasks queue stored nonempty).move found (drains level queue ⟨tasks,stored,nonempty⟩)
    intro before stored' pointed
    exact ⟨before,by rw [collections]; exact stored',pointed⟩
  have edited {reached : Nat} {tasks after : TaskCollection} (stored : state.shared.collection reached = some tasks)
      (pointers : ∀ queue, tasks.Reached queue → after.Reached queue)
      (drains : ∀ level queue, pc.Drains level queue → next.Drains level queue)
      (held : ∀ queue, after.queues queue ≠ [] → state.Live reached queue) :
      State.Reachable ⟨state.shared.setCollection reached after,state.threads.set thread next⟩ := by
    intro level tasks' queue stored' nonempty
    change (state.shared.setCollection reached after).collection level = some tasks' at stored'
    rw [Shared.collection_setCollection] at stored'
    have was : state.Live level queue := by
      split at stored'
      next equal =>
        obtain rfl := Option.some.inj stored'
        rw [equal]
        exact held queue nonempty
      next => exact reachable level tasks' queue stored' nonempty
    apply was.move found (drains level queue)
    intro before before_ pointed
    rw [Shared.collection_setCollection]
    split
    next equal =>
      subst equal
      obtain rfl := Option.some.inj (stored.symm.trans before_)
      exact ⟨after,rfl,pointers queue pointed⟩
    next => exact ⟨before,before_,pointed⟩
  have popped {level queue : Nat} {task : Task} {tasks rest : TaskCollection}
      (stored : state.shared.collection level = some tasks) (front : tasks.tryPopFront queue = some (task,rest))
      (drains : ∀ level queue, pc.Drains level queue → next.Drains level queue) :
      State.Reachable ⟨state.shared.setCollection level rest,state.threads.set thread next⟩ := by
    obtain ⟨others,first,rfl⟩ := TaskCollection.tryPopFront_some front
    refine edited stored (show ∀ queue, tasks.Reached queue → tasks.Reached queue from fun _ => id) drains ?_
    intro other nonempty
    apply reachable level tasks other stored
    by_cases equal : other = queue
    · rw [equal,first]
      simp
    · change Function.update tasks.queues queue others other ≠ [] at nonempty
      rwa [Function.update_of_ne equal] at nonempty
  cases effect with
  | quiet keeps holds active still => exact same (fun _ => rfl) fun level queue _ drained => (still level queue drained).elim
  | lock locked free keeps more active still =>
    exact same (fun _ => rfl) fun level queue _ drained => (still level queue drained).elim
  | unlock locked keeps less active still =>
    exact same (fun _ => rfl) fun level queue _ drained => (still level queue drained).elim
  | lockActive free keeps holds more still =>
    exact same (fun _ => rfl) fun level queue _ drained => (still level queue drained).elim
  | unlockActive keeps holds less still =>
    exact same (fun _ => rfl) fun level queue _ drained => (still level queue drained).elim
  | reset task thid =>
    exact same (fun level => Shared.collection_setCount ..) fun _ _ _ drained => drained.elim
  | publish task thid tasks =>
    intro level tasks' queue stored nonempty
    change (state.shared.publish task.level tasks).collection level = some tasks' at stored
    have different : level ≠ task.level := by
      rintro rfl
      rw [Shared.collection_publish,if_pos rfl] at stored
      obtain rfl := Option.some.inj stored
      -- the new collection is empty
      apply nonempty
      by_cases small : queue < tasks.constructed
      · exact Queues.contents_eq_nil.mp fine.2.2.1 queue (List.mem_range.mpr small)
      · exact fine.2.1.beyond queue (Nat.le_of_not_lt small)
    rw [Shared.collection_publish,if_neg different] at stored
    apply (reachable level tasks' queue stored nonempty).move found False.elim
    intro before stored' pointed
    exact ⟨before,by rw [Shared.collection_publish,if_neg different]; exact stored',pointed⟩
  | push task queue tasks stored =>
    refine edited stored (show ∀ queue, tasks.Reached queue → tasks.Reached queue from fun _ => id)
      (fun _ _ => False.elim) ?_
    intro other nonempty
    by_cases equal : other = queue
    · rw [equal]
      exact live task queue rfl
    · apply reachable task.level tasks other stored
      change Queues.push tasks.queues queue task other ≠ [] at nonempty
      rwa [Queues.push_other equal] at nonempty
  | count task => exact same (fun level => Shared.collection_setCount ..) fun _ _ _ drained => drained.elim
  | finish task expected head => exact same (fun _ => rfl) fun _ _ _ drained => drained.elim
  | take level queue task tasks rest keeps free inactive still stored front =>
    exact popped stored front fun level queue drained => (still level queue drained).elim
  | give level task =>
    exact same (fun level => Shared.collection_setCount ..) fun _ _ _ drained => drained.elim
  | register idx level tasks stored =>
    apply edited stored _ (fun _ _ => False.elim)
    · intro queue nonempty
      rw [TaskCollection.registerThread_queues idx (inv.formed level tasks stored)] at nonempty
      exact reachable level tasks queue stored nonempty
    · intro queue pointed
      obtain isGlobal | ⟨other,points⟩ := pointed
      · exact .inl isGlobal
      · exact .inr ⟨other,TaskCollection.getThreadQueue_registerThread_some points⟩
  | clear idx level queue tasks stored =>
    intro another tasks' other stored' nonempty
    change (state.shared.setCollection level (tasks.clearPointer idx)).collection another = some tasks' at stored'
    rw [Shared.collection_setCollection] at stored'
    have was : state.Live another other := by
      split at stored'
      next equal =>
        obtain rfl := Option.some.inj stored'
        rw [equal]
        exact reachable level tasks other stored nonempty
      next => exact reachable another tasks' other stored' nonempty
    by_cases this : another = level ∧ other = queue
    · -- the queue whose pointer is cleared is emptied next
      exact .inr ⟨.drain idx level queue,List.mem_set (List.getElem?_eq_some_iff.mp found).1 _,this.1.symm,this.2.symm⟩
    · apply was.move found False.elim
      intro before before_ pointed
      rw [Shared.collection_setCollection]
      split
      next equal =>
        subst equal
        obtain rfl := Option.some.inj (stored.symm.trans before_)
        refine ⟨_,rfl,?_⟩
        obtain isGlobal | ⟨thread',points⟩ := pointed
        · exact .inl isGlobal
        · refine .inr ⟨thread',?_⟩
          rw [TaskCollection.getThreadQueue_clearPointer,if_neg]
          · exact points
          · rintro rfl
            obtain ⟨stored_,same_,cleared⟩ := fine
            obtain rfl := Option.some.inj (stored.symm.trans same_)
            exact this ⟨rfl,Option.some.inj (points.symm.trans cleared)⟩
      next => exact ⟨before,before_,pointed⟩
  | drain idx level queue task tasks rest stored front => exact popped stored front fun _ _ drained => drained
  | drained idx level queue tasks stored empty =>
    apply same fun _ => rfl
    rintro another other ⟨tasks',stored',nonempty⟩ ⟨rfl,rfl⟩
    obtain rfl := Option.some.inj (stored.symm.trans stored')
    exact absurd empty nonempty
  | move idx level queue task tasks stored =>
    refine edited stored (show ∀ queue, tasks.Reached queue → tasks.Reached queue from fun _ => id)
      (fun _ _ drained => drained) ?_
    intro other nonempty
    by_cases equal : other = TaskCollection.globalTasks
    · exact .inl ⟨tasks,stored,.inl equal⟩
    · apply reachable level tasks other stored
      change Queues.push tasks.queues TaskCollection.globalTasks task other ≠ [] at nonempty
      rwa [Queues.push_other equal] at nonempty
  | record change ids isRecord =>
    subst isRecord
    exact same (fun _ => rfl) fun _ _ _ drained => drained.elim

theorem State.Reachable.step {after : State} (reachable : state.Reachable) (inv : Inv state)
    (live : LivePush state action) (stepped : step state action = some after) : after.Reachable := by
  obtain ⟨thread,call,rfl,found,rfl⟩ | ⟨thread,choice,pc,next,changed,rfl,found,effect,rfl⟩ := step_cases stepped
  · have kept : ∀ level, (state.shared.called call).collection level = state.shared.collection level := by
      cases call <;> exact fun level => rfl
    intro level tasks queue stored nonempty
    change (state.shared.called call).collection level = some tasks at stored
    rw [kept] at stored
    apply (reachable level tasks queue stored nonempty).move found False.elim
    intro before stored' pointed
    exact ⟨before,by rw [kept]; exact stored',pointed⟩
  · apply reachable.advance inv found effect
    rintro task queue rfl
    exact live task queue found

theorem livePush_of_reachable {after : State} (stepped : step state action = some after)
    (reachable : after.Reachable) : LivePush state action := by
  cases action with
  | call => trivial
  | advance thread choice =>
    intro task queue found
    unfold Scheduler.step at stepped
    dsimp only at stepped
    rw [found] at stepped
    obtain ⟨⟨changed,next⟩,acted,rfl⟩ := Option.map_eq_some_iff.mp stepped
    obtain ⟨pushed,push,same⟩ := Option.map_eq_some_iff.mp acted
    obtain ⟨rfl,rfl⟩ := Prod.mk.inj same
    obtain ⟨tasks,stored,room,rfl⟩ := Shared.pushBack_some push
    have live := reachable task.level (tasks.pushBack queue task) queue
      (by rw [Shared.collection_setCollection,if_pos rfl])
      (by
        change Queues.push tasks.queues queue task queue ≠ []
        rw [Queues.push_self]
        simp)
    obtain ⟨after,stored',pointed⟩ | ⟨pc,member,drains⟩ := live
    · change (Shared.setCollection _ _ _).collection _ = _ at stored'
      rw [Shared.collection_setCollection,if_pos rfl] at stored'
      obtain rfl := Option.some.inj stored'
      exact .inl ⟨tasks,stored,pointed⟩
    · obtain rfl | member := List.mem_or_eq_of_mem_set member |>.symm
      · exact drains.elim
      · exact .inr ⟨pc,member,drains⟩

theorem Reachable.start (cpuCount threads : Nat) : (State.start cpuCount threads).Reachable := by
  intro level tasks queue stored
  cases stored

/-- The tasks are conserved in every state of a run exactly when no push of the
run goes to a queue that was taken away and emptied. -/
theorem conserved_iff_livePushes (cpuCount threads : Nat) (actions : List Action) (final : State)
    (ran : run step (.start cpuCount threads) actions = some final) :
    Meets step LivePush (.start cpuCount threads) actions ↔
      ∀ first second middle, actions = first ++ second → run step (.start cpuCount threads) first = some middle →
        middle.Conserved := by
  constructor
  · rintro meets first second middle rfl went
    have both : Inv middle ∧ middle.Reachable :=
      invariant_of_meets (fun state => Inv state ∧ state.Reachable)
        (fun _ _ _ holds live stepped => ⟨holds.1.step stepped,holds.2.step holds.1 live stepped⟩)
        ⟨Inv.start cpuCount threads,Reachable.start cpuCount threads⟩ meets.first went
    exact both.1.conserved_of_reachable both.2
  · intro conserved
    apply meets_of_everywhere (fun state action next inv stepped => Inv.step inv stepped)
      (fun state action next _ stepped good => livePush_of_reachable stepped (State.Conserved.reached good))
      (Inv.start cpuCount threads) ran conserved

end Steps

section Samples

def sampleTask : Task := ⟨0,0,Priority.least_zero,Priority.zero_most⟩

def changeThread (thread : Nat) (change : Change) (visits : Nat) : List Action :=
  .call thread (.change change) :: List.replicate (70 + visits) (.advance thread 0)

def stalePush : List Action :=
  changeThread 0 (.add 0) 34 ++ Action.call 0 (.putTask sampleTask 0) :: List.replicate 9 (Action.advance 0 0) ++
    changeThread 1 (.remove 0) 36 ++ List.replicate 4 (Action.advance 0 0)

def TaskCollection.unreached (tasks : TaskCollection) : Bool :=
  (tasks.queues globalTasks).isEmpty ∧
    tasks.threadTasks.all (fun pointer => (pointer.map (fun queue => (tasks.queues queue).isEmpty)).getD true)

theorem TaskCollection.nil_of_unreached {tasks : TaskCollection} {queue : Nat} (nothing : tasks.unreached = true)
    (reached : tasks.Reached queue) : tasks.queues queue = [] := by
  unfold unreached at nothing
  simp only [decide_eq_true_eq,List.isEmpty_iff,List.all_eq_true] at nothing
  obtain rfl | ⟨idx,pointed⟩ := reached
  · exact nothing.1
  · unfold getThreadQueue at pointed
    have empty := nothing.2 _ (List.mem_of_getElem? (Option.join_eq_some_iff.mp pointed))
    simpa using empty

/-- The call has returned, nobody has taken the task, and no queue that is looked
into has it. -/
theorem stalePush_loses : ∃ final, run step (.start 1 2) stalePush = some final ∧ final.Quiet ∧
    sampleTask ∈ final.shared.done ∧ sampleTask ∉ final.shared.got ∧
    (∀ level tasks queue, final.shared.collection level = some tasks → tasks.Reached queue →
      sampleTask ∉ tasks.queues queue) ∧ ¬ final.Conserved := by
  have evaluated : (run step (.start 1 2) stalePush).any (fun final => final.isQuiet ∧
      sampleTask ∈ final.shared.done ∧ final.shared.got = [] ∧
      ((final.shared.collection sampleTask.level).map TaskCollection.unreached).getD false) = true := by
    decide +kernel
  obtain ⟨final,ran,ended⟩ := (Option.any_eq_true _ _).mp evaluated
  obtain ⟨quiet,put,got,unreached⟩ := of_decide_eq_true ended
  have inv := inv_run ran
  have quiet := State.quiet_of_isQuiet quiet
  have lost : ∀ level tasks queue, final.shared.collection level = some tasks → tasks.Reached queue →
      sampleTask ∉ tasks.queues queue := by
    intro level tasks queue found reached member
    have small := reached.constructed (inv.formed level tasks found)
    have same : sampleTask.level = level := by
      apply inv.sorted
      rw [Shared.held_of_some found]
      exact Queues.mem_contents.mpr ⟨queue,List.mem_range.mpr small,member⟩
    rw [same,found] at unreached
    rw [TaskCollection.nil_of_unreached unreached reached] at member
    cases member
  refine ⟨final,ran,quiet,put,by simp [got],lost,fun conserved => ?_⟩
  -- the task would be held in a queue that is looked into
  have kept := conserved.kept sampleTask
  have popped : total (Pc.popped sampleTask) final.threads = 0 := by
    rw [total_eq_zero]
    intro pc member
    rw [quiet pc member]
    rfl
  have begun := List.count_pos_iff.mpr put
  have held : 0 < (final.shared.held sampleTask.level).count sampleTask := by
    rw [got,popped] at kept
    simp only [List.count_nil] at kept
    omega
  have member := List.count_pos_iff.mp held
  unfold Shared.held at member
  cases found : final.shared.collection sampleTask.level with
  | none => simp [found] at member
  | some tasks =>
    rw [found] at member
    obtain ⟨queue,_,inside⟩ := Queues.mem_contents.mp member
    obtain ⟨stored,same,reached⟩ | ⟨pc,inThreads,drains⟩ :=
      conserved.reached _ tasks queue found (List.ne_nil_of_mem inside)
    · obtain rfl := Option.some.inj (same.symm.trans found)
      exact lost _ _ queue found reached inside
    · rw [quiet pc inThreads] at drains
      exact drains.elim

def Pc.isDraining (level queue : Nat) : Pc → Bool
  | .drain _ reached drained => reached = level ∧ drained = queue
  | .move _ reached drained _ => reached = level ∧ drained = queue
  | _ => false

def State.isLive (state : State) (level queue : Nat) : Bool :=
  (match state.shared.collection level with
    | none => false
    | some tasks => queue = TaskCollection.globalTasks ∨ some queue ∈ tasks.threadTasks) ||
  state.threads.any (Pc.isDraining level queue)

def isLivePush (state : State) : Action → Bool
  | .call _ _ => true
  | .advance thread _ =>
    match state.threads[thread]? with
    | some (.putPush task queue) => state.isLive task.level queue
    | _ => true

theorem State.live_of_isLive {state : State} {level queue : Nat} (live : state.isLive level queue = true) :
    state.Live level queue := by
  obtain pointed | draining := Bool.or_eq_true_iff.mp live
  · left
    split at pointed
    · cases pointed
    next tasks found =>
      refine ⟨tasks,found,?_⟩
      obtain isGlobal | member := of_decide_eq_true pointed
      · exact .inl isGlobal
      · obtain ⟨idx,inside⟩ := List.mem_iff_getElem?.mp member
        exact .inr ⟨idx,Option.join_eq_some_iff.mpr inside⟩
  · right
    obtain ⟨pc,member,drains⟩ := List.any_eq_true.mp draining
    refine ⟨pc,member,?_⟩
    cases pc with
    | drain idx reached drained => simpa [Pc.isDraining,Pc.Drains] using drains
    | move idx reached drained task => simpa [Pc.isDraining,Pc.Drains] using drains
    | _ => cases drains

theorem livePush_of_isLivePush (state : State) (action : Action) (live : isLivePush state action = true) :
    LivePush state action := by
  cases action with
  | call => trivial
  | advance thread choice =>
    intro task queue found
    simp only [isLivePush,found] at live
    exact State.live_of_isLive live

def timelyPush : List Action :=
  changeThread 0 (.add 0) 34 ++ Action.call 0 (.putTask sampleTask 0) :: List.replicate 9 (Action.advance 0 0) ++
    Action.call 1 (.change (.remove 0)) :: List.replicate 52 (Action.advance 1 0) ++ List.replicate 4 (Action.advance 0 0) ++
    List.replicate 56 (Action.advance 1 0)

theorem conserved_timelyPush : ∃ final, run step (.start 1 2) timelyPush = some final ∧ final.Quiet ∧
    final.Conserved := by
  have evaluated : (run step (.start 1 2) timelyPush).any State.isQuiet = true := by decide +kernel
  obtain ⟨final,ran,quiet⟩ := (Option.any_eq_true _ _).mp evaluated
  have checked : checks step isLivePush (.start 1 2) timelyPush = true := by decide +kernel
  have live := meets_of_checks isLivePush livePush_of_isLivePush checked
  exact ⟨final,ran,State.quiet_of_isQuiet quiet,
    (conserved_iff_livePushes 1 2 timelyPush final ran).mp live timelyPush [] final (List.append_nil _).symm ran⟩

end Samples
end Pgasus.Scheduler
