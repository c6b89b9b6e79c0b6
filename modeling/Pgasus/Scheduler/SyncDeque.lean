import Pgasus.Base.SpinLock
import Pgasus.Library.Linearization

/-! The queues of a `TaskCollection`: a deque behind a spin lock, called by any
number of threads. Each access to the lock and to the deque is a step of its own. -/
namespace Pgasus.SyncDeque
open Runs Totals Linearization
open SpinLock (spinLock)

variable {T : Type}

inductive Op (T : Type)
  | pushFront (v : T)
  | pushBack (v : T)
  | tryPopFront
deriving DecidableEq

inductive Answer (T : Type)
  | pushed
  | threw
  | popped (v : Option T)
deriving DecidableEq

/-- Where a thread is in its call; `undefined` is an access to the front of an empty deque. -/
inductive Point (T : Type)
  | idle
  | lock (op : Op T) (point : SpinLock.Point)
  | run (op : Op T)
  | front
  | popFront (v : T)
  | unlock (answer : Answer T)
  | done (answer : Answer T)
  | undefined

structure Deque (T : Type) where
  mutex : SpinLock.Lock
  container : List T

def Point.locking (op : Op T) (point : SpinLock.Point) : Point T := if point = .held then .run op else .lock op point

/-- The next access. A push throws when there is no memory for it, and `lock_guard` gives
the lock back on that way out too. -/
def Point.next (memory : Bool) (deque : Deque T) : Point T → Deque T × Point T
  | .idle => (deque,.idle)
  | .lock op point =>
    let after := point.next spinLock deque.mutex
    ({deque with mutex := after.1},.locking op after.2)
  | .run (.pushFront v) =>
    if memory then ({deque with container := v::deque.container},.unlock .pushed) else (deque,.unlock .threw)
  | .run (.pushBack v) =>
    if memory then ({deque with container := deque.container ++ [v]},.unlock .pushed) else (deque,.unlock .threw)
  | .run .tryPopFront => (deque,if deque.container.isEmpty then .unlock (.popped none) else .front)
  | .front =>
    match deque.container with
    | [] => (deque,.undefined)
    | v::_ => (deque,.popFront v)
  | .popFront v =>
    match deque.container with
    | [] => (deque,.undefined)
    | _::rest => ({deque with container := rest},.unlock (.popped (some v)))
  | .unlock answer => ({deque with mutex := (SpinLock.Point.held.next spinLock deque.mutex).1},.done answer)
  | .done _ => (deque,.idle)
  | .undefined => (deque,.undefined)

structure State (T : Type) where
  deque : Deque T
  threads : List (Point T)

def State.create (threads : Nat) : State T := ⟨⟨.create spinLock,[]⟩,List.replicate threads .idle⟩

inductive Action (T : Type)
  | call (thread : Nat) (op : Op T)
  | go (thread : Nat) (memory : Bool)

def step (state : State T) : Action T → Option (State T)
  | .call thread op =>
    match state.threads[thread]? with
    | some .idle => some {state with threads := state.threads.set thread (.lock op (.testAndSet false))}
    | _ => none
  | .go thread memory => (state.threads[thread]?).map fun point =>
    ⟨(point.next memory state.deque).1,state.threads.set thread (point.next memory state.deque).2⟩

def events (state : State T) : Action T → List (Event Nat (Op T) (Answer T))
  | .call thread op => [.call thread op]
  | .go thread _ =>
    match state.threads[thread]? with
    | some (.done answer) => [.answer thread answer]
    | _ => []

/-- What one operation does to the items. A push may throw, and leaves them as they were. -/
inductive Apply : List T → Op T → Answer T → List T → Prop
  | pushFront (v : T) (items : List T) : Apply items (.pushFront v) .pushed (v::items)
  | pushBack (v : T) (items : List T) : Apply items (.pushBack v) .pushed (items ++ [v])
  | throwFront (v : T) (items : List T) : Apply items (.pushFront v) .threw items
  | throwBack (v : T) (items : List T) : Apply items (.pushBack v) .threw items
  | missed : Apply [] .tryPopFront (.popped none) []
  | popped (v : T) (items : List T) : Apply (v::items) .tryPopFront (.popped (some v)) items

def Point.holds : Point T → Nat
  | .lock _ point => point.holds
  | .run _ | .front | .popFront _ | .unlock _ | .undefined => 1
  | _ => 0

def Point.Agrees (container : List T) (status : Status (Op T) (Answer T)) : Point T → Prop
  | .idle => status = .idle
  | .lock op point => status = .pending op ∧ point.locks = true
  | .run op => status = .pending op
  | .front => status = .pending .tryPopFront ∧ container ≠ []
  | .popFront v => status = .pending .tryPopFront ∧ ∃ rest, container = v::rest
  | .unlock answer => status = .decided answer
  | .done answer => status = .decided answer
  | .undefined => False

structure Matches (state : State T) (atomic : Atomic Nat (List T) (Op T) (Answer T)) : Prop where
  flagged : total Point.holds state.threads = state.deque.mutex.locked.toNat
  object : atomic.object = state.deque.container
  agrees : ∀ (thread : Nat) (point : Point T), state.threads[thread]? = some point →
    point.Agrees state.deque.container (atomic.status thread)

variable {deque : Deque T} {state next : State T} {point : Point T} {thread : Nat} {memory : Bool}
variable {status : Status (Op T) (Answer T)} {atomic : Atomic Nat (List T) (Op T) (Answer T)} {container changed : List T}

@[simp] theorem holds_locking (op : Op T) (point : SpinLock.Point) : (Point.locking op point).holds = point.holds := by
  unfold Point.locking
  split
  next taken =>
    rw [taken]
    rfl
  next => rfl

theorem next_holds (memory : Bool) (within : point.holds ≤ deque.mutex.locked.toNat) :
    (point.next memory deque).2.holds + deque.mutex.locked.toNat =
      point.holds + (point.next memory deque).1.mutex.locked.toNat := by
  cases point with
  | idle => rfl
  | lock op point =>
    simp only [Point.next,holds_locking]
    exact SpinLock.next_holds spinLock within
  | run op =>
    cases op with
    | pushFront v => cases memory <;> rfl
    | pushBack v => cases memory <;> rfl
    | tryPopFront =>
      simp only [Point.next]
      split <;> rfl
  | front =>
    simp only [Point.next]
    split <;> rfl
  | popFront v =>
    simp only [Point.next]
    split <;> rfl
  | unlock answer =>
    cases taken : deque.mutex.locked with
    | false => simp [Point.holds,taken] at within
    | true => rfl
  | done answer => rfl
  | undefined => rfl

/-- A thread outside the lock agrees with the atomic deque whatever the others do to the items. -/
theorem Point.Agrees.unlocked (agrees : point.Agrees container status) (outside : point.holds = 0) :
    point.Agrees changed status := by
  cases point with
  | front => cases outside
  | popFront v => cases outside
  | _ => exact agrees

def Point.events (thread : Nat) : Point T → List (Event Nat (Op T) (Answer T))
  | .done answer => [.answer thread answer]
  | _ => []

def Follows (atomic : Atomic Nat (List T) (Op T) (Answer T)) (thread : Nat) (point : Point T) (reached : Deque T × Point T) : Prop :=
  ∃ effects after, Atomically Apply atomic (point.events thread) effects after ∧ after.object = reached.1.container ∧
    reached.2.Agrees reached.1.container (after.status thread) ∧
    ∀ other, other ≠ thread → after.status other = atomic.status other

theorem follows_rest {reached : Deque T × Point T} (object : atomic.object = reached.1.container)
    (fits : reached.2.Agrees reached.1.container (atomic.status thread)) (silent : point.events thread = []) :
    Follows atomic thread point reached := by
  refine ⟨[],atomic,?_,object,fits,fun _ _ => rfl⟩
  rw [silent]
  exact .nil atomic

theorem follows_effect {op : Op T} {answer : Answer T} {items : List T} {mutex : SpinLock.Lock}
    (pending : atomic.status thread = .pending op) (applies : Apply atomic.object op answer items) (silent : point.events thread = []) :
    Follows atomic thread point (⟨mutex,items⟩,.unlock answer) := by
  rw [Follows,silent]
  exact ⟨_,_,.effect thread op answer items pending applies (.nil _),rfl,Atomic.set_status_self,
    fun other different => Atomic.set_status_other different⟩

theorem next_follows (memory : Bool) (agrees : point.Agrees deque.container (atomic.status thread))
    (object : atomic.object = deque.container) : Follows atomic thread point (point.next memory deque) := by
  cases point with
  | idle => exact follows_rest object agrees rfl
  | lock op point =>
    obtain ⟨pending,locks⟩ := agrees
    refine follows_rest object ?_ rfl
    simp only [Point.next,Point.locking]
    split
    next => exact pending
    next waiting => exact ⟨pending,(SpinLock.next_locks spinLock deque.mutex locks).resolve_left waiting⟩
  | run op =>
    cases op with
    | pushFront v =>
      cases memory with
      | true => exact follows_effect agrees (object ▸ .pushFront v deque.container) rfl
      | false => exact follows_effect agrees (object ▸ .throwFront v deque.container) rfl
    | pushBack v =>
      cases memory with
      | true => exact follows_effect agrees (object ▸ .pushBack v deque.container) rfl
      | false => exact follows_effect agrees (object ▸ .throwBack v deque.container) rfl
    | tryPopFront =>
      obtain ⟨mutex,container⟩ := deque
      cases container with
      | nil => exact follows_effect agrees (object ▸ .missed) rfl
      | cons v items => exact follows_rest object ⟨agrees,List.cons_ne_nil v items⟩ rfl
  | front =>
    obtain ⟨pending,nonempty⟩ := agrees
    obtain ⟨mutex,container⟩ := deque
    cases container with
    | nil => exact (nonempty rfl).elim
    | cons v items => exact follows_rest object ⟨pending,items,rfl⟩ rfl
  | popFront v =>
    obtain ⟨pending,items,full⟩ := agrees
    obtain ⟨mutex,container⟩ := deque
    obtain rfl : container = v::items := full
    exact follows_effect pending (object ▸ .popped v items) rfl
  | unlock answer => exact follows_rest object agrees rfl
  | done answer =>
    exact ⟨[],_,.answer thread answer agrees (.nil _),object,Atomic.set_status_self,
      fun other different => Atomic.set_status_other different⟩
  | undefined => cases agrees

theorem next_container (outside : point.holds = 0) : (point.next memory deque).1.container = deque.container := by
  cases point with
  | idle => rfl
  | lock op point => rfl
  | done answer => rfl
  | _ => cases outside

theorem events_go (found : state.threads[thread]? = some point) : events state (.go thread memory) = point.events thread := by
  simp only [events,found]
  cases point <;> rfl

theorem Matches.go (matches_ : Matches state atomic) (found : state.threads[thread]? = some point) :
    ∃ effects after, Atomically Apply atomic (point.events thread) effects after ∧
      Matches ⟨(point.next memory state.deque).1,state.threads.set thread (point.next memory state.deque).2⟩ after := by
  have within := weight_le_total Point.holds found
  rw [matches_.flagged] at within
  have balance := next_holds memory within
  have moved := total_set Point.holds (point.next memory state.deque).2 found
  obtain ⟨effects,after,ran,object,agrees,others⟩ := next_follows memory
    (matches_.agrees thread point found) matches_.object
  refine ⟨effects,after,ran,?_,object,?_⟩
  · have flagged := matches_.flagged
    simp only
    omega
  · intro other stands at_
    by_cases same : thread = other
    · subst same
      obtain ⟨bound,-⟩ := List.getElem?_eq_some_iff.mp found
      rw [List.getElem?_set_self bound] at at_
      obtain rfl := Option.some.inj at_
      exact agrees
    · rw [List.getElem?_set_ne same] at at_
      have kept := matches_.agrees other stands at_
      rw [others other (Ne.symm same)]
      rcases Nat.eq_zero_or_pos stands.holds with outside | inside
      · exact kept.unlocked outside
      · have alone : point.holds = 0 := by
          by_contra holds
          apply same
          apply position_unique Point.holds found at_
          rw [matches_.flagged]
          have bound := Bool.toNat_le state.deque.mutex.locked
          omega
        simp only [next_container alone]
        exact kept

theorem Matches.call (matches_ : Matches state atomic) (found : state.threads[thread]? = some .idle) (op : Op T) :
    Matches ⟨state.deque,state.threads.set thread (.lock op (.testAndSet false))⟩ (atomic.set thread (.pending op)) := by
  refine ⟨?_,matches_.object,?_⟩
  · have moved := total_set Point.holds (.lock op (.testAndSet false)) found
    exact moved.trans matches_.flagged
  · intro other point at_
    by_cases same : thread = other
    · subst same
      obtain ⟨bound,-⟩ := List.getElem?_eq_some_iff.mp found
      rw [List.getElem?_set_self bound] at at_
      obtain rfl := Option.some.inj at_
      exact ⟨Atomic.set_status_self,rfl⟩
    · rw [List.getElem?_set_ne same] at at_
      rw [Atomic.set_status_other (Ne.symm same)]
      exact matches_.agrees other point at_

theorem Matches.step {action : Action T} (matches_ : Matches state atomic) (stepped : step state action = some next) :
    ∃ effects after, Atomically Apply atomic (events state action) effects after ∧ Matches next after := by
  cases action with
  | call thread op =>
    simp only [SyncDeque.step] at stepped
    split at stepped
    next found =>
      obtain rfl := Option.some.inj stepped
      have idle := matches_.agrees thread .idle found
      exact ⟨[],_,.call thread op idle (.nil _),matches_.call found op⟩
    next => cases stepped
  | go thread memory =>
    obtain ⟨point,found,rfl⟩ := Option.map_eq_some_iff.mp stepped
    rw [events_go found]
    exact matches_.go found

theorem matches_create (threads : Nat) : Matches (.create threads : State T) (.start []) := by
  refine ⟨total_replicate Point.holds threads rfl,rfl,fun thread point found => ?_⟩
  obtain rfl := List.eq_of_mem_replicate (List.mem_of_getElem? found)
  rfl

theorem matches_run {threads : Nat} {actions : List (Action T)} (ran : run SyncDeque.step (.create threads) actions = some state) :
    ∃ effects after, Atomically Apply (.start []) (trace SyncDeque.step events (.create threads) actions) effects after ∧
      Matches state after :=
  simulated Matches (fun _ _ _ _ matches_ _ stepped => matches_.step stepped) (matches_create threads) (meets_true _ _) ran

/-- For any number of threads and any order of their steps, what the callers see is what they
would see of a deque whose operations are atomic, no call looks at the front of an empty deque,
and at most one thread is inside. -/
theorem deque_linearizable (threads : Nat) (actions : List (Action T)) (state : State T)
    (ran : run step (.create threads) actions = some state) :
    Linearizable Apply [] (trace step events (.create threads) actions) ∧ .undefined ∉ state.threads ∧
      total Point.holds state.threads ≤ 1 := by
  obtain ⟨effects,after,atomically,matches_⟩ := matches_run ran
  refine ⟨⟨effects,after,atomically⟩,?_,?_⟩
  · intro inside
    obtain ⟨thread,found⟩ := List.mem_iff_getElem?.mp inside
    exact matches_.agrees thread .undefined found
  · rw [matches_.flagged]
    exact Bool.toNat_le _

def race : List (Action Nat) :=
  [.call 0 (.pushBack 7),.go 0 true,.go 0 true,.call 1 .tryPopFront,.go 1 true,.go 0 true,.go 0 true,.go 0 true,
    .call 2 .tryPopFront,.go 2 true,.go 2 true,.go 2 true,.go 1 true,.go 2 true,.go 2 true,.go 2 true,.go 2 true]

theorem deque_linearizable_race : Linearizable Apply [] (trace step events (.create 3) race) ∧
    .answer 2 (.popped (some 7)) ∈ trace step events (.create 3) race := by
  obtain ⟨state,ran⟩ : ∃ state, run step (.create 3) race = some state := ⟨_,rfl⟩
  refine ⟨(deque_linearizable 3 race state ran).1,?_⟩
  decide

end Pgasus.SyncDeque
