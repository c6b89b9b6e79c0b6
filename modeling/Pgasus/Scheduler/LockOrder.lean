import Pgasus.Library.Cycles
import Pgasus.Scheduler.Conservation

/-! The order in which the calls of a scheduling domain take its mutexes: those of the
levels upwards, and that of the active threads last. So no thread waits for itself in
a circle, and some call can always go on. -/
namespace Pgasus.Scheduler
open Totals Runs Cycles

inductive Mutex
  | level (level : Nat)
  | active
deriving DecidableEq

def Mutex.rank : Mutex → Nat
  | .level idx => idx
  | .active => Priority.maxIndex + 1

def Shared.taken (shared : Shared) : Mutex → Bool
  | .level level => shared.mutexes level
  | .active => shared.activeMutex

namespace Pc

def wants : Pc → Option Mutex
  | .putLock task _ => some (.level task.level)
  | .putLockActive _ _ => some .active
  | .lock _ level => some (if level ≤ Priority.maxIndex then .level level else .active)
  | _ => none

def owns (mutex : Mutex) (pc : Pc) : Nat :=
  match mutex with
  | .level level => pc.holds level
  | .active => pc.holdsActive

/-- Points whose step makes an assertion or needs memory. -/
def checks : Pc → Bool
  | .putLockActive _ _ | .putPush _ _ | .visit _ _ | .move _ _ _ _ | .record _ => true
  | _ => false

end Pc

def Waits (state : State) (thread : Nat) (mutex : Mutex) : Prop :=
  ∃ pc, state.threads[thread]? = some pc ∧ pc.wants = some mutex ∧ state.shared.taken mutex = true

def WaitsFor (state : State) (thread other : Nat) : Prop :=
  ∃ mutex pc, Waits state thread mutex ∧ state.threads[other]? = some pc ∧ pc.owns mutex = 1

section Order
variable {state : State} {pc : Pc} {mutex wanted : Mutex} {thread other : Nat}

/-- A thread takes its mutexes in order. -/
theorem rank_lt (owned : pc.owns mutex = 1) (wants : pc.wants = some wanted) : mutex.rank < wanted.rank := by
  cases pc with
  | putLock task thid => cases mutex <;> cases owned
  | putLockActive task thid =>
    obtain rfl := Option.some.inj wants
    cases mutex with
    | level level =>
      simp only [Pc.owns,Pc.holds] at owned
      split at owned
      next same =>
        subst same
        exact Nat.lt_succ_of_le (Priority.index_le task.priority)
      next => cases owned
    | active => cases owned
  | lock change reached =>
    obtain rfl := Option.some.inj wants
    cases mutex with
    | level level =>
      simp only [Pc.owns,Pc.holds] at owned
      split at owned
      next below =>
        split
        next => exact below.1
        next => exact Nat.lt_succ_of_le below.2
      next => cases owned
    | active => cases owned
  | _ => cases wants

theorem holds_le_one (level : Nat) (pc : Pc) : pc.holds level ≤ 1 := by
  cases pc <;> simp only [Pc.holds] <;> first | exact Nat.zero_le 1 | (split <;> decide)

theorem holdsActive_le_one (pc : Pc) : pc.holdsActive ≤ 1 := by
  cases pc <;> simp [Pc.holdsActive]

theorem owns_le_one (mutex : Mutex) (pc : Pc) : pc.owns mutex ≤ 1 := by
  cases mutex with
  | level level => exact holds_le_one level pc
  | active => exact holdsActive_le_one pc

theorem Inv.owners (inv : Inv state) (mutex : Mutex) : total (Pc.owns mutex) state.threads = (state.shared.taken mutex).toNat := by
  cases mutex with
  | level level => exact inv.mutexes level
  | active => exact inv.active

theorem Inv.owner (inv : Inv state) (taken : state.shared.taken mutex = true) :
    ∃ (other : Nat) (pc : Pc), state.threads[other]? = some pc ∧ pc.owns mutex = 1 := by
  have one := inv.owners mutex
  rw [taken] at one
  by_contra none_
  have light : total (Pc.owns mutex) state.threads = 0 := total_eq_zero.mpr fun pc inside => by
    obtain ⟨other,found⟩ := List.mem_iff_getElem?.mp inside
    exact (Nat.le_one_iff_eq_zero_or_eq_one.mp (owns_le_one mutex pc)).resolve_right fun owns => none_ ⟨other,pc,found,owns⟩
  rw [light] at one
  cases one

def State.goal (state : State) (thread : Nat) : Nat :=
  ((state.threads[thread]?.bind Pc.wants).map Mutex.rank).getD (Priority.maxIndex + 2)

theorem goal_lt (mutex : Mutex) (bounded : ∀ level, mutex = .level level → level ≤ Priority.maxIndex) :
    mutex.rank < Priority.maxIndex + 2 := by
  cases mutex with
  | level level => exact Nat.lt_add_right 1 (Nat.lt_succ_of_le (bounded level rfl))
  | active => exact Nat.lt_succ_self _

theorem wants_bounded (wants : pc.wants = some (.level level)) : level ≤ Priority.maxIndex := by
  cases pc with
  | putLock task thid =>
    obtain rfl := Mutex.level.inj (Option.some.inj wants)
    exact Priority.index_le task.priority
  | lock change reached =>
    simp only [Pc.wants,Option.some.injEq] at wants
    split at wants
    next bounded =>
      obtain rfl := Mutex.level.inj wants
      exact bounded
    next => cases wants
  | putLockActive task thid => cases Option.some.inj wants
  | _ => cases wants

theorem waitsFor_goal (waits : WaitsFor state thread other) : state.goal thread < state.goal other := by
  obtain ⟨mutex,owner,⟨pc,found,wants,-⟩,also,owns⟩ := waits
  have mine : state.goal thread = mutex.rank := by
    rw [State.goal,found,Option.bind_some,wants]
    rfl
  rw [mine,State.goal,also,Option.bind_some]
  cases wanted : owner.wants with
  | some wanted => exact rank_lt owns ‹_›
  | none => exact goal_lt mutex fun level same => wants_bounded (same ▸ wants)

theorem waitsFor_acyclic (state : State) : Acyclic (WaitsFor state) := acyclic_of_rank state.goal fun _ _ => waitsFor_goal

end Order

def Pc.uses : Pc → Option Nat
  | .putUnlockActive task _ | .putUnlock task _ | .putLoad task _ => some task.level
  | .getOwn _ level | .getOwnPop _ level _ | .getGlobal _ level | .getStart _ level | .getSteal _ level _ _ => some level
  | .getStealPop _ level _ _ _ | .drain _ level _ | .move _ level _ _ => some level
  | _ => none

section Uses
variable {shared changed : Shared} {pc next : Pc} {level queue choice : Nat} {state : State}

theorem Effect.present (effect : Effect shared pc changed next) (fine : pc.Fine shared) (there : shared.collection level ≠ none) :
    changed.collection level ≠ none := by
  obtain ⟨tasks,found⟩ := Option.ne_none_iff_exists'.mp there
  obtain ⟨after,later,-⟩ := effect.grows fine found
  rw [later]
  exact Option.some_ne_none after

theorem tryPopFront_next {taken : Task → Pc} {missed : Pc} (popped : shared.tryPopFront level queue taken missed = some (changed,next)) :
    (∃ task, next = taken task) ∨ next = missed := by
  obtain ⟨tasks,found,⟨task,rest,front,rfl,rfl⟩ | ⟨_,rfl,rfl⟩⟩ := Shared.tryPopFront_some popped
  · exact .inl ⟨task,rfl⟩
  · exact .inr rfl

theorem act_uses (acted : act shared choice pc = some (changed,next)) (uses : next.uses = some level) :
    pc.uses = some level ∨ changed.collection level ≠ none ∨ 0 < shared.count level := by
  have seen {task : Task} {absent present : Pc} (silent : absent.uses = none) (present_ : present.uses = some task.level)
      (acted : some (shared,if (shared.collection task.level).isNone then absent else present) = some (changed,next)) :
      changed.collection level ≠ none := by
    obtain ⟨rfl,rfl⟩ := Prod.mk.inj (Option.some.inj acted)
    split at uses
    next =>
      rw [silent] at uses
      cases uses
    next there =>
      rw [present_] at uses
      obtain rfl := Option.some.inj uses
      exact fun gone => there (by rw [gone]; rfl)
  have popped {reached queue : Nat} {taken : Task → Pc} {missed : Pc}
      (popped : shared.tryPopFront reached queue taken missed = some (changed,next))
      (after : ∀ task, (taken task).uses = none ∨ (taken task).uses = some reached)
      (otherwise : missed.uses = none ∨ missed.uses = some reached) : reached = level := by
    have kinds : next.uses = none ∨ next.uses = some reached := by
      obtain ⟨task,rfl⟩ | rfl := tryPopFront_next popped
      · exact after task
      · exact otherwise
    obtain gone | same := kinds
    · rw [gone] at uses
      cases uses
    · exact Option.some.inj (same.symm.trans uses)
  cases pc with
  | putTest task thid => exact .inr (.inl (seen rfl rfl acted))
  | putRetest task thid => exact .inr (.inl (seen rfl rfl acted))
  | putPublish task thid tasks =>
    obtain ⟨rfl,rfl⟩ := Prod.mk.inj (Option.some.inj acted)
    obtain rfl := Option.some.inj uses
    refine .inr (.inl ?_)
    rw [Shared.collection_publish,if_pos rfl]
    exact Option.some_ne_none tasks
  | putUnlockActive task thid =>
    obtain ⟨-,rfl⟩ := Prod.mk.inj (Option.some.inj acted)
    exact .inl uses
  | putUnlock task thid =>
    obtain ⟨-,rfl⟩ := Prod.mk.inj (Option.some.inj acted)
    exact .inl uses
  | getCount thid reached =>
    cases reached with
    | zero =>
      obtain ⟨-,rfl⟩ := Prod.mk.inj (Option.some.inj acted)
      cases uses
    | succ reached =>
      obtain ⟨-,rfl⟩ := Prod.mk.inj (Option.some.inj acted)
      split at uses
      next counted =>
        obtain rfl := Option.some.inj uses
        exact .inr (.inr counted)
      next => cases uses
  | getOwn thid reached =>
    refine .inl ?_
    simp only [act] at acted
    split at acted
    next => cases acted
    next =>
      split at acted <;>
      · obtain ⟨-,rfl⟩ := Prod.mk.inj (Option.some.inj acted)
        exact uses
  | getOwnPop thid reached queue => exact .inl (congrArg some (popped acted (fun _ => .inl rfl) (.inr rfl)))
  | getGlobal thid reached => exact .inl (congrArg some (popped acted (fun _ => .inl rfl) (.inr rfl)))
  | getStart thid reached =>
    refine .inl ?_
    simp only [act] at acted
    split at acted
    next => cases acted
    next =>
      obtain ⟨-,rfl⟩ := Prod.mk.inj (Option.some.inj acted)
      split at uses
      next => exact uses
      next => cases uses
  | getSteal thid reached i rounds =>
    refine .inl ?_
    cases rounds with
    | zero =>
      obtain ⟨-,rfl⟩ := Prod.mk.inj (Option.some.inj acted)
      cases uses
    | succ rounds =>
      simp only [act] at acted
      split at acted
      next => cases acted
      next =>
        split at acted <;>
        · obtain ⟨-,rfl⟩ := Prod.mk.inj (Option.some.inj acted)
          exact uses
  | getStealPop thid reached i rounds queue => exact .inl (congrArg some (popped acted (fun _ => .inl rfl) (.inr rfl)))
  | clear idx reached queue =>
    obtain ⟨tasks,found,same⟩ := Option.map_eq_some_iff.mp acted
    obtain ⟨rfl,rfl⟩ := Prod.mk.inj same
    obtain rfl := Option.some.inj uses
    refine .inr (.inl ?_)
    rw [Shared.collection_setCollection,if_pos rfl]
    exact Option.some_ne_none _
  | drain idx reached queue => exact .inl (congrArg some (popped acted (fun _ => .inr rfl) (.inl rfl)))
  | move idx reached queue task =>
    obtain ⟨stored,-,same⟩ := Option.map_eq_some_iff.mp acted
    obtain ⟨-,rfl⟩ := Prod.mk.inj same
    exact .inl uses
  | putPush task queue =>
    obtain ⟨stored,-,same⟩ := Option.map_eq_some_iff.mp acted
    obtain ⟨-,rfl⟩ := Prod.mk.inj same
    cases uses
  | visit change reached =>
    have silent : next.uses = none := by
      cases change with
      | add idx => grind only [act,Pc.uses]
      | remove idx =>
        simp only [act] at acted
        split at acted
        next =>
          split at acted
          next =>
            obtain ⟨-,rfl⟩ := Prod.mk.inj (Option.some.inj acted)
            rfl
          next =>
            obtain ⟨queue,-,same⟩ := Option.map_eq_some_iff.mp acted
            obtain ⟨-,rfl⟩ := Prod.mk.inj same
            rfl
        next =>
          obtain ⟨-,rfl⟩ := Prod.mk.inj (Option.some.inj acted)
          rfl
    rw [silent] at uses
    cases uses
  | record change => cases change <;> grind only [act,Pc.uses]
  -- the other points lead to none that uses a collection
  | _ => grind only [act,Pc.uses]

def Present (state : State) : Prop :=
  ∀ pc ∈ state.threads, ∀ level, pc.uses = some level → state.shared.collection level ≠ none

theorem Present.step {action : Action} {next : State} (present : Present state) (inv : Inv state)
    (stepped : step state action = some next) : Present next := by
  obtain ⟨thread,call,rfl,found,rfl⟩ | ⟨thread,choice,pc,after,changed,rfl,found,effect,same⟩ := step_cases stepped
  · intro pc inside level uses
    have kept : (state.shared.called call).collection level = state.shared.collection level := by cases call <;> rfl
    rw [kept]
    obtain rfl | ⟨other,-,at_⟩ := mem_set_cases inside
    · cases call <;> cases uses
    · exact present pc (List.mem_of_getElem? at_) level uses
  · obtain ⟨⟨stored,later⟩,acted,again⟩ : ∃ reached, act state.shared choice pc = some reached ∧
        (⟨reached.1,state.threads.set thread reached.2⟩ : State) = next := by
      simp only [Scheduler.step,found] at stepped
      exact Option.map_eq_some_iff.mp stepped
    have effect := act_effect acted
    have fine := inv.fine pc (List.mem_of_getElem? found)
    subst again
    intro stands inside level uses
    obtain rfl | ⟨other,-,at_⟩ := mem_set_cases inside
    · obtain used | there | counted := act_uses acted uses
      · exact effect.present fine (present pc (List.mem_of_getElem? found) level used)
      · exact there
      · refine effect.present fine fun absent => ?_
        rw [inv.absent level absent] at counted
        cases counted
    · exact effect.present fine (present stands (List.mem_of_getElem? at_) level uses)

theorem present_run {cpuCount threads : Nat} {actions : List Action}
    (ran : run Scheduler.step (.start cpuCount threads) actions = some state) : Inv state ∧ Present state := by
  refine invariant_of_run (fun state => Inv state ∧ Present state) ?_ ⟨Inv.start cpuCount threads,?_⟩ ran
  · intro state action next holds stepped
    exact ⟨holds.1.step stepped,holds.2.step holds.1 stepped⟩
  · intro pc inside level uses
    rw [List.eq_of_mem_replicate inside] at uses
    cases uses

theorem tryPopFront_isSome {taken : Task → Pc} {missed : Pc} (there : shared.collection level ≠ none) :
    (shared.tryPopFront level queue taken missed).isSome := by
  obtain ⟨tasks,found⟩ := Option.ne_none_iff_exists'.mp there
  simp only [Shared.tryPopFront,found]
  split <;> rfl

/-- A call that has no mutex to wait for and nothing to check goes on. -/
theorem act_isSome (busy : pc ≠ .idle) (free : ∀ mutex, pc.wants = some mutex → shared.taken mutex = false)
    (unchecked : pc.checks = false) (fine : pc.Fine shared) (present : ∀ level, pc.uses = some level → shared.collection level ≠ none)
    (choice : Nat) : (act shared choice pc).isSome := by
  cases pc with
  | idle => exact (busy rfl).elim
  | putLock task thid =>
    have untaken : shared.mutexes task.level = false := free _ rfl
    simp [act,untaken]
  | putLoad task thid =>
    obtain ⟨tasks,found⟩ := Option.ne_none_iff_exists'.mp (present _ rfl)
    simp [act,found]
  | putRaise task expected =>
    simp only [act]
    split
    · rfl
    · split <;> rfl
  | getCount thid level => cases level <;> rfl
  | getOwn thid level =>
    obtain ⟨tasks,found⟩ := Option.ne_none_iff_exists'.mp (present _ rfl)
    simp only [act,found]
    split <;> rfl
  | getOwnPop thid level queue => exact tryPopFront_isSome (present _ rfl)
  | getGlobal thid level => exact tryPopFront_isSome (present _ rfl)
  | getStart thid level =>
    obtain ⟨tasks,found⟩ := Option.ne_none_iff_exists'.mp (present _ rfl)
    simp [act,found]
  | getSteal thid level i rounds =>
    cases rounds with
    | zero => rfl
    | succ rounds =>
      obtain ⟨tasks,found⟩ := Option.ne_none_iff_exists'.mp (present _ rfl)
      simp only [act,found]
      split <;> rfl
  | getStealPop thid level i rounds queue => exact tryPopFront_isSome (present _ rfl)
  | lock change level =>
    simp only [act]
    split
    next within =>
      have untaken : shared.mutexes level = false := free (.level level) (by simp [Pc.wants,within])
      simp [untaken]
    next beyond =>
      have untaken : shared.activeMutex = false := free .active (by simp [Pc.wants,beyond])
      simp [untaken]
  | clear idx level queue =>
    obtain ⟨tasks,found,-⟩ := fine
    simp [act,found]
  | drain idx level queue => exact tryPopFront_isSome (present _ rfl)
  | unlock change level =>
    simp only [act]
    split <;> rfl
  | putLockActive task thid => cases unchecked
  | putPush task queue => cases unchecked
  | visit change level => cases unchecked
  | move idx level queue task => cases unchecked
  | record change => cases unchecked
  | _ => rfl

end Uses

/-- In every state that threads calling a scheduling domain reach: no thread waits for itself in
a circle of mutexes, a mutex that one waits for has an owner, and where a call is in progress,
some call has no mutex to wait for, and its next step is taken unless an assertion fails or there
is no memory. -/
theorem calls_proceed (cpuCount threads : Nat) (actions : List Action) (state : State)
    (ran : run step (.start cpuCount threads) actions = some state) :
    Acyclic (WaitsFor state) ∧ (∀ thread mutex, Waits state thread mutex → ∃ other, WaitsFor state thread other) ∧
    ((∃ pc ∈ state.threads, pc ≠ .idle) → ∃ (thread : Nat) (pc : Pc), state.threads[thread]? = some pc ∧ pc ≠ .idle ∧
      (∀ mutex, ¬Waits state thread mutex) ∧
      (pc.checks = false → ∀ choice, (step state (.advance thread choice)).isSome)) := by
  obtain ⟨inv,present⟩ := present_run ran
  have owned (thread : Nat) (mutex : Mutex) (waits : Waits state thread mutex) : ∃ other, WaitsFor state thread other := by
    obtain ⟨pc,found,wants,taken⟩ := waits
    obtain ⟨other,owner,also,owns⟩ := inv.owner taken
    exact ⟨other,mutex,owner,⟨pc,found,wants,taken⟩,also,owns⟩
  refine ⟨waitsFor_acyclic state,owned,?_⟩
  rintro ⟨pc,inside,busy⟩
  obtain ⟨thread,pc,found,busy,free⟩ : ∃ (thread : Nat) (pc : Pc), state.threads[thread]? = some pc ∧ pc ≠ .idle ∧
      ∀ mutex, ¬Waits state thread mutex := by
    by_contra stuck
    have blocked (thread : Nat) (pc : Pc) (found : state.threads[thread]? = some pc) (busy : pc ≠ .idle) :
        ∃ mutex, Waits state thread mutex := by
      by_contra free
      exact stuck ⟨thread,pc,found,busy,fun mutex waits => free ⟨mutex,waits⟩⟩
    have finite : {thread | ∃ mutex, Waits state thread mutex}.Finite := by
      refine (Set.finite_lt_nat state.threads.length).subset ?_
      rintro thread ⟨mutex,pc,found,-⟩
      exact (List.getElem?_eq_some_iff.mp found).1
    have empty := acyclic_not_all_wait (waitsFor_acyclic state) finite (by
      rintro thread ⟨mutex,waits⟩
      obtain ⟨other,mutex,owner,first,also,owns⟩ := owned thread mutex waits
      refine ⟨other,blocked other owner also ?_,mutex,owner,first,also,owns⟩
      rintro rfl
      cases mutex <;> cases owns)
    obtain ⟨thread,found⟩ := List.mem_iff_getElem?.mp inside
    exact (Set.eq_empty_iff_forall_notMem.mp empty) thread (blocked thread pc found busy)
  refine ⟨thread,pc,found,busy,free,fun unchecked choice => ?_⟩
  have member := List.mem_of_getElem? found
  have untaken (mutex : Mutex) (wants : pc.wants = some mutex) : state.shared.taken mutex = false := by
    rw [← Bool.not_eq_true]
    exact fun taken => free mutex ⟨pc,found,wants,taken⟩
  simp only [step,found,Option.isSome_map]
  exact act_isSome busy untaken unchecked (inv.fine pc member) (present pc member) choice

def crossing : List Action :=
  [.call 0 (.putTask ⟨0,⟨-15,by decide,by decide⟩⟩ (-1)),.advance 0 0,.advance 0 0,.call 1 (.change (.add 0)),.advance 1 0]

theorem calls_proceed_crossing : ∃ state, run step (.start 1 2) crossing = some state ∧ Acyclic (WaitsFor state) ∧
    WaitsFor state 1 0 ∧ ∃ (thread : Nat) (pc : Pc), state.threads[thread]? = some pc ∧ pc ≠ .idle ∧
      ∀ mutex, ¬Waits state thread mutex := by
  have ran : ∃ state, run step (.start 1 2) crossing = some state ∧ WaitsFor state 1 0 ∧ ∃ pc ∈ state.threads, pc ≠ .idle :=
    ⟨_,rfl,⟨.level 1,_,⟨_,rfl,rfl,rfl⟩,rfl,rfl⟩,_,List.mem_cons_self,by simp⟩
  obtain ⟨state,ran,waits,busy⟩ := ran
  obtain ⟨acyclic,-,proceeds⟩ := calls_proceed 1 2 crossing state ran
  obtain ⟨thread,pc,found,busy,free,-⟩ := proceeds busy
  exact ⟨state,ran,acyclic,waits,thread,pc,found,busy,free⟩

end Pgasus.Scheduler
