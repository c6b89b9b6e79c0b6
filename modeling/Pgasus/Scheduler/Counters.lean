import Pgasus.Scheduler.Conservation

/-! With a fixed set of thread queues, or one that only grows: when no call is in
flight the counters are exact and the search head is above every queued task, so
the next call finds one. -/
namespace Pgasus.Scheduler
open Totals Runs

def State.Quiet (state : State) : Prop := ∀ pc ∈ state.threads, pc = .idle

def Pc.isIdle : Pc → Bool
  | .idle => true
  | _ => false

def State.isQuiet (state : State) : Bool := state.threads.all Pc.isIdle

theorem State.quiet_of_isQuiet {state : State} (quiet : state.isQuiet = true) : state.Quiet := by
  intro pc member
  have idle := List.all_eq_true.mp quiet pc member
  cases pc <;> first | rfl | cases idle

def Action.removes : Action → Bool
  | .call _ (.change (.remove _)) => true
  | _ => false

section Found

variable {domain : SchedulingDomain}

structure SchedulingDomain.Exact (domain : SchedulingDomain) : Prop where
  absent : ∀ level, (domain.priorities level).tasks = none → (domain.priorities level).count = 0
  counted : ∀ level tasks, (domain.priorities level).tasks = some tasks →
    (domain.priorities level).count = tasks.held.length
  reached : ∀ level tasks queue, (domain.priorities level).tasks = some tasks → tasks.queues queue ≠ [] →
    tasks.Reached queue
  searched : ∀ level tasks, (domain.priorities level).tasks = some tasks → tasks.held ≠ [] →
    level ≤ domain.topPriorityIdx

theorem SchedulingDomain.Exact.search_finds (exact_ : domain.Exact) (thid : Int) (random : Nat → Nat) (idx : Nat)
    {level : Nat} {tasks : TaskCollection} (below : level < idx) (found : (domain.priorities level).tasks = some tasks)
    (some_ : tasks.held ≠ []) : ∃ task next, domain.search thid random idx = some (some task,next) := by
  induction idx with
  | zero => omega
  | succ idx ih =>
    unfold search
    split
    next positive =>
      cases stored : (domain.priorities idx).tasks with
      | none =>
        rw [exact_.absent idx stored] at positive
        exact absurd positive (Nat.lt_irrefl 0)
      | some here =>
        dsimp only
        cases taken : here.tryGet (toSize thid) (random idx) with
        | some pair => exact ⟨pair.1,_,rfl⟩
        | none =>
          -- a counted task would have been found
          rw [exact_.counted idx here stored] at positive
          obtain ⟨task,member⟩ := List.exists_mem_of_length_pos positive
          obtain ⟨queue,_,inside⟩ := Queues.mem_contents.mp member
          have nonempty := List.ne_nil_of_mem inside
          exact absurd (TaskCollection.tryGet_none taken (exact_.reached idx here queue stored nonempty)) nonempty
    next zero =>
      apply ih
      have different : level ≠ idx := by
        rintro rfl
        rw [exact_.counted level tasks found] at zero
        exact some_ (List.length_eq_zero_iff.mp (Nat.eq_zero_of_not_pos zero))
      omega

theorem SchedulingDomain.Exact.tryGetTask_finds (exact_ : domain.Exact) (thid : Int) (random : Nat → Nat)
    {level : Nat} {tasks : TaskCollection} (found : (domain.priorities level).tasks = some tasks)
    (some_ : tasks.held ≠ []) : ∃ task next, domain.tryGetTask thid random = some (some task,next) :=
  exact_.search_finds thid random _ (Nat.lt_succ_of_le (exact_.searched level tasks found some_)) found some_

end Found

section Quiet

variable {state : State}

theorem Inv.count_of_quiet (inv : Inv state) (quiet : state.Quiet) (level : Nat) :
    state.shared.count level = (state.shared.held level).length := by
  have nothing (weight : Pc → Nat) (idle : weight .idle = 0) : total weight state.threads = 0 := by
    rw [total_eq_zero]
    intro pc member
    rw [quiet pc member]
    exact idle
  have counted := inv.counted level
  have bounded := inv.bounded level
  have room := inv.room level
  rw [nothing _ rfl,nothing _ rfl] at counted
  unfold queueCapacity at room
  omega

theorem Inv.head_of_quiet (inv : Inv state) (quiet : state.Quiet) {level : Nat} (some_ : state.shared.held level ≠ []) :
    level ≤ state.shared.domain.topPriorityIdx := by
  have nothing (weight : Pc → Nat) (idle : weight .idle = 0) : total weight state.threads = 0 := by
    rw [total_eq_zero]
    intro pc member
    rw [quiet pc member]
    exact idle
  obtain ⟨task,member⟩ := List.exists_mem_of_ne_nil _ some_
  have same := inv.sorted level task member
  have conserved := inv.conserved task
  have finished := inv.finished task
  have queued : 0 < (state.shared.held task.level).count task := by
    rw [List.count_pos_iff,same]
    exact member
  rw [nothing _ rfl] at conserved finished
  rw [← same]
  apply inv.headed
  rw [← List.count_pos_iff]
  omega

theorem Inv.exact_of_quiet (inv : Inv state) (quiet : state.Quiet)
    (reached : ∀ level tasks queue, state.shared.collection level = some tasks → tasks.queues queue ≠ [] →
      tasks.Reached queue) : state.shared.domain.Exact := by
  constructor
  · exact inv.absent
  · intro level tasks found
    have counted := inv.count_of_quiet quiet level
    rwa [Shared.held_of_some found] at counted
  · exact reached
  · intro level tasks found some_
    apply inv.head_of_quiet quiet
    rwa [Shared.held_of_some found]

end Quiet

section Growing

variable {shared changed : Shared} {pc next : Pc} {state final : State} {action : Action}

theorem Effect.allReached (effect : Effect shared pc changed next) (fine : pc.Fine shared) (adding : ¬ pc.Removes)
    (reached : ∀ level tasks, shared.collection level = some tasks → tasks.AllReached) :
    ∀ level tasks, changed.collection level = some tasks → tasks.AllReached := by
  have edited {level : Nat} {after : TaskCollection} (new : after.AllReached) :
      ∀ other tasks, (shared.setCollection level after).collection other = some tasks → tasks.AllReached := by
    intro other tasks found
    rw [Shared.collection_setCollection] at found
    split at found
    · obtain rfl := Option.some.inj found
      exact new
    · exact reached other tasks found
  cases effect with
  | reset => simpa using reached
  | publish task thid tasks => exact edited fine.2.2.2
  | push task queue tasks found => exact edited (show tasks.AllReached from reached _ _ found)
  | count => simpa using reached
  | take level queue task tasks rest keeps free inactive still found front =>
    obtain ⟨_,_,rfl⟩ := TaskCollection.tryPopFront_some front
    exact edited (show tasks.AllReached from reached _ _ found)
  | give => simpa using reached
  | register idx level tasks found small => exact edited ((reached _ _ found).registerThread small)
  | clear => exact absurd trivial adding
  | drain => exact absurd trivial adding
  | drained => exact absurd trivial adding
  | move => exact absurd trivial adding
  | _ => exact reached

theorem Effect.adding (effect : Effect shared pc changed next) (adding : ¬ pc.Removes) : ¬ next.Removes := by
  intro removes
  cases effect with
  | quiet keeps => exact adding (keeps.removes removes)
  | lock locked free keeps => exact adding (keeps.removes removes)
  | unlock locked keeps => exact adding (keeps.removes removes)
  | lockActive free keeps => exact adding (keeps.removes removes)
  | unlockActive keeps => exact adding (keeps.removes removes)
  | register => exact removes
  | clear => exact adding trivial
  | drain => exact adding trivial
  | drained => exact adding trivial
  | move => exact adding trivial
  | record change ids same => subst same; exact adding removes
  | _ => exact removes

/-- No queue has been removed and none will be by the calls in flight. -/
structure Growing (state : State) : Prop where
  adding : ∀ pc ∈ state.threads, ¬ pc.Removes
  reached : ∀ level tasks, state.shared.collection level = some tasks → tasks.AllReached

theorem Growing.start (cpuCount threads : Nat) : Growing (.start cpuCount threads) := by
  constructor
  · intro pc member
    rw [(List.mem_replicate.mp member).2]
    exact id
  · intro level tasks found
    cases found

theorem Growing.step {next : State} (growing : Growing state) (inv : Inv state) (adds : action.removes = false)
    (stepped : step state action = some next) : Growing next := by
  obtain ⟨thread,call,rfl,found,rfl⟩ | ⟨thread,choice,pc,after,changed,rfl,found,effect,rfl⟩ := step_cases stepped
  · constructor
    · intro pc member
      obtain rfl | member := List.mem_or_eq_of_mem_set member |>.symm
      · cases call with
        | putTask task thid => exact id
        | tryGetTask thid => exact id
        | change made =>
          cases made with
          | add idx => exact id
          | remove idx => cases adds
      · exact growing.adding pc member
    · cases call <;> exact growing.reached
  · have member := List.mem_of_getElem? found
    constructor
    · intro other inside
      obtain rfl | inside := List.mem_or_eq_of_mem_set inside |>.symm
      · exact effect.adding (growing.adding pc member)
      · exact growing.adding other inside
    · exact effect.allReached (inv.fine pc member) (growing.adding pc member) growing.reached

theorem growing_run {cpuCount threads : Nat} {actions : List Action} (fixed : ∀ action ∈ actions, action.removes = false)
    (ran : run step (.start cpuCount threads) actions = some final) : Growing final := by
  have adds : Meets step (fun _ action => action.removes = false) (.start cpuCount threads) actions :=
    meets_of_forall fun action member _ => fixed action member
  have both : Inv final ∧ Growing final :=
    invariant_of_meets (fun state => Inv state ∧ Growing state)
      (fun _ _ _ holds adds stepped => ⟨holds.1.step stepped,holds.2.step holds.1 adds stepped⟩)
      ⟨Inv.start cpuCount threads,Growing.start cpuCount threads⟩ adds ran
  exact both.2

/-- However the calls interleave, each level's collection is stored once, and
when no call is in flight every counter is exact and a task that is queued is
found by the next `try_get_task`. -/
theorem counters_exact (cpuCount threads : Nat) (actions : List Action) (final : State)
    (fixed : ∀ action ∈ actions, action.removes = false)
    (ran : run step (.start cpuCount threads) actions = some final) :
    final.shared.published.Nodup ∧
    (final.Quiet →
      (∀ level, final.shared.count level = (final.shared.held level).length) ∧
      (∀ level, final.shared.held level ≠ [] → level ≤ final.shared.domain.topPriorityIdx) ∧
      ∀ thid random level, final.shared.held level ≠ [] →
        ∃ task next, final.shared.domain.tryGetTask thid random = some (some task,next)) := by
  have inv := inv_run ran
  have growing := growing_run fixed ran
  refine ⟨inv.published,fun quiet => ⟨inv.count_of_quiet quiet,fun level => inv.head_of_quiet quiet,?_⟩⟩
  intro thid random level some_
  have exact_ : final.shared.domain.Exact := by
    apply inv.exact_of_quiet quiet
    intro level tasks queue found nonempty
    apply growing.reached level tasks found queue
    by_contra large
    exact nonempty ((inv.formed level tasks found).beyond queue (Nat.le_of_not_lt large))
  cases found : final.shared.collection level with
  | none => simp [Shared.held,found] at some_
  | some tasks =>
    rw [Shared.held_of_some found] at some_
    exact exact_.tryGetTask_finds thid random found some_

def racingPuts : List Action :=
  let task (id : Nat) : Task := ⟨id,0,Priority.least_zero,Priority.zero_most⟩
  [Action.call 0 (.putTask (task 0) (-1)),Action.call 1 (.putTask (task 1) (-1)),Action.advance 0 0,Action.advance 1 0] ++
    List.replicate 8 (Action.advance 0 0) ++ List.replicate 8 (Action.advance 1 0) ++ List.replicate 4 (Action.advance 0 0) ++
    [Action.call 0 (.tryGetTask 0)] ++ List.replicate 5 (Action.advance 0 0)

theorem counters_exact_racingPuts : ∃ final, run step (.start 1 2) racingPuts = some final ∧ final.Quiet ∧
    final.shared.published.Nodup ∧
      (∀ level, final.shared.count level = (final.shared.held level).length) ∧
      (∀ level, final.shared.held level ≠ [] → level ≤ final.shared.domain.topPriorityIdx) ∧
      ∀ thid random level, final.shared.held level ≠ [] →
        ∃ task next, final.shared.domain.tryGetTask thid random = some (some task,next) := by
  have evaluated : (run step (.start 1 2) racingPuts).any State.isQuiet = true := by decide +kernel
  obtain ⟨final,ran,quiet⟩ := (Option.any_eq_true _ _).mp evaluated
  have quiet := State.quiet_of_isQuiet quiet
  have exact_ := counters_exact 1 2 racingPuts final (by decide) ran
  exact ⟨final,ran,quiet,exact_.1,exact_.2 quiet⟩

end Growing
end Pgasus.Scheduler
