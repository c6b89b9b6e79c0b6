import Pgasus.Base.SpinLock
import Pgasus.Containers.Nodes
import Pgasus.Library.Linearization

/-! One object for each node, made when it is first asked for: the table of pointers is
looked at without the lock first, and again under it. Objects are named in the order in
which they are made. -/
namespace Pgasus.NodeReplicated
open Runs Totals Linearization
open Containers (Node Machine)
open SpinLock (spinLock)

/-- The node that an object is constructed for, the one whose memory it is in, and whether
its constructor has returned. -/
structure Object where
  node : Node
  source : Int
  built : Bool

inductive Op
  | get (node : Node)
  | getAllRegistered
deriving DecidableEq

inductive Answer
  | object (pointer : Nat)
  | objects (pointers : List Nat)
deriving DecidableEq

/-- Where a thread is in its call; `undefined` is the use of a null pointer. -/
inductive Point
  | idle
  | getTest (node : Node)
  | getLock (node : Node) (point : SpinLock.Point)
  | getRetest (node : Node)
  | getAlloc (node : Node)
  | getBuild (node : Node) (pointer : Nat)
  | getStore (node : Node) (pointer : Nat)
  | getUnlock (node : Node)
  | getRead (node : Node)
  | listLock (point : SpinLock.Point)
  | listRead (i : Nat) (ret : List Nat)
  | listUnlock (ret : List Nat)
  | done (answer : Answer)
  | undefined
deriving DecidableEq

structure Shared where
  globalLock : SpinLock.Lock
  globalData : List (Option Nat)
  objects : List Object

namespace Shared
variable (shared : Shared)

/-- `_global_data[node.logicalId()]`. -/
def at_ (n : Nat) : Option Nat := shared.globalData[n]?.join

def unlock : Shared := {shared with globalLock := (SpinLock.Point.held.next spinLock shared.globalLock).1}

def alloc (node : Node) : Shared := {shared with objects := shared.objects ++ [⟨node,node.physicalId,false⟩]}

def build (pointer : Nat) : Shared := {shared with objects := shared.objects.modify pointer ({· with built := true})}

def store (n pointer : Nat) : Shared := {shared with globalData := shared.globalData.set n (some pointer)}

end Shared

def index (node : Node) : Nat := node.logicalId.toNat

def Point.next (shared : Shared) : Point → Shared × Point
  | .idle => (shared,.idle)
  -- get
  | .getTest node => (shared,if (shared.at_ (index node)).isNone then .getLock node (.testAndSet false) else .getRead node)
  | .getLock node point =>
    let after := point.next spinLock shared.globalLock
    ({shared with globalLock := after.1},if after.2 = .held then .getRetest node else .getLock node after.2)
  | .getRetest node => (shared,if (shared.at_ (index node)).isNone then .getAlloc node else .getUnlock node)
  | .getAlloc node => (shared.alloc node,.getBuild node shared.objects.length)
  | .getBuild node pointer => (shared.build pointer,.getStore node pointer)
  | .getStore node pointer => (shared.store (index node) pointer,.getUnlock node)
  | .getUnlock node => (shared.unlock,.getRead node)
  | .getRead node =>
    match shared.at_ (index node) with
    | some pointer => (shared,.done (.object pointer))
    | none => (shared,.undefined)
  -- get_all_registered
  | .listLock point =>
    let after := point.next spinLock shared.globalLock
    ({shared with globalLock := after.1},if after.2 = .held then .listRead 0 [] else .listLock after.2)
  | .listRead i ret =>
    (shared,if i < shared.globalData.length then .listRead (i + 1) (ret ++ (shared.at_ i).toList) else .listUnlock ret)
  | .listUnlock ret => (shared.unlock,.done (.objects ret))
  | .done _ => (shared,.idle)
  | .undefined => (shared,.undefined)

structure State where
  shared : Shared
  threads : List Point

def State.create (count threads : Nat) : State :=
  ⟨⟨.create spinLock,List.replicate count none,[]⟩,List.replicate threads .idle⟩

def Op.point : Op → Point
  | .get node => .getTest node
  | .getAllRegistered => .listLock (.testAndSet false)

def Op.allowed (count : Nat) : Op → Bool
  | .get node => node.valid ∧ index node < count
  | .getAllRegistered => true

inductive Action
  | call (thread : Nat) (op : Op)
  | go (thread : Nat)

def step (state : State) : Action → Option State
  | .call thread op =>
    match state.threads[thread]? with
    | some .idle =>
      if op.allowed state.shared.globalData.length then some {state with threads := state.threads.set thread op.point} else none
    | _ => none
  | .go thread => (state.threads[thread]?).map fun point =>
    ⟨(point.next state.shared).1,state.threads.set thread (point.next state.shared).2⟩

def Point.events (thread : Nat) : Point → List (Event Nat Op Answer)
  | .done answer => [.answer thread answer]
  | _ => []

def events (state : State) : Action → List (Event Nat Op Answer)
  | .call thread op => [.call thread op]
  | .go thread => ((state.threads[thread]?).map (Point.events thread)).getD []

def Shared.destroyed (shared : Shared) : List Nat := (List.range shared.globalData.length).filterMap shared.at_

/-- A table of objects whose operations are atomic: an object is made once. -/
inductive Apply (count : Nat) : (Nat → Option Nat) → Op → Answer → (Nat → Option Nat) → Prop
  | found {table node pointer} (there : table (index node) = some pointer) : Apply count table (.get node) (.object pointer) table
  | made {table node pointer} (absent : table (index node) = none) (fresh : ∀ n, table n ≠ some pointer) :
      Apply count table (.get node) (.object pointer) (Function.update table (index node) (some pointer))
  | listed (table) : Apply count table .getAllRegistered (.objects ((List.range count).filterMap table)) table

def Point.holds : Point → Nat
  | .getLock _ point | .listLock point => point.holds
  | .getRetest _ | .getAlloc _ | .getBuild _ _ | .getStore _ _ | .getUnlock _ | .listRead _ _ | .listUnlock _ => 1
  | _ => 0

def Point.making : Point → Option Nat
  | .getBuild _ pointer | .getStore _ pointer => some pointer
  | _ => none

def Shared.Made (shared : Shared) (built : Bool) (node : Node) (pointer : Nat) : Prop :=
  shared.objects[pointer]? = some ⟨node,node.physicalId,built⟩

def Shared.nodes (shared : Shared) : List Node := shared.objects.map Object.node

def Shared.Unstored (shared : Shared) (node : Node) (pointer : Nat) : Prop :=
  shared.at_ (index node) = none ∧ ∀ n, shared.at_ n ≠ some pointer

section Invariant
variable (Asked : Node → Prop) (shared : Shared)

def Fits (node : Node) : Prop := Asked node ∧ index node < shared.globalData.length

def Point.Agrees (status : Status Op Answer) : Point → Prop
  | .idle => status = .idle
  | .getTest node => Fits Asked shared node ∧ status = .pending (.get node)
  | .getLock node point => Fits Asked shared node ∧ status = .pending (.get node) ∧ point.locks = true
  | .getRetest node => Fits Asked shared node ∧ status = .pending (.get node)
  | .getAlloc node => Fits Asked shared node ∧ status = .pending (.get node) ∧ shared.at_ (index node) = none
  | .getBuild node pointer => Fits Asked shared node ∧ status = .pending (.get node) ∧ shared.Unstored node pointer ∧
      shared.Made false node pointer
  | .getStore node pointer => Fits Asked shared node ∧ status = .pending (.get node) ∧ shared.Unstored node pointer ∧
      shared.Made true node pointer
  | .getUnlock node => ∃ pointer, status = .decided (.object pointer) ∧ shared.at_ (index node) = some pointer
  | .getRead node => ∃ pointer, status = .decided (.object pointer) ∧ shared.at_ (index node) = some pointer
  | .listLock point => status = .pending .getAllRegistered ∧ point.locks = true
  | .listRead i ret => status = .pending .getAllRegistered ∧ i ≤ shared.globalData.length ∧
      ret = (List.range i).filterMap shared.at_
  | .listUnlock ret => status = .decided (.objects ret)
  | .done answer => status = .decided answer
  | .undefined => False

structure Sound : Prop where
  tabled : ∀ (n pointer : Nat), shared.at_ n = some pointer → ∃ node, index node = n ∧ shared.Made true node pointer
  distinct : (shared.nodes.map index).Nodup
  asked : ∀ node ∈ shared.nodes, Asked node

end Invariant

structure Matches (Asked : Node → Prop) (count : Nat) (state : State) (atomic : Atomic Nat (Nat → Option Nat) Op Answer) : Prop where
  size : state.shared.globalData.length = count
  flagged : total Point.holds state.threads = state.shared.globalLock.locked.toNat
  object : atomic.object = state.shared.at_
  sound : Sound Asked state.shared
  agrees : ∀ (thread : Nat) (point : Point), state.threads[thread]? = some point →
    point.Agrees Asked state.shared (atomic.status thread)
  placed : ∀ pointer < state.shared.objects.length,
    (∃ n, state.shared.at_ n = some pointer) ∨ ∃ point ∈ state.threads, point.making = some pointer

variable {Asked : Node → Prop} {count : Nat} {shared changed : Shared} {state next : State} {point : Point} {thread pointer : Nat}
variable {node : Node} {status : Status Op Answer} {atomic : Atomic Nat (Nat → Option Nat) Op Answer}

theorem at_lt {n : Nat} (there : shared.at_ n = some pointer) : n < shared.globalData.length := by
  by_contra beyond
  rw [Shared.at_,List.getElem?_eq_none (Nat.le_of_not_lt beyond)] at there
  cases there

theorem at_store {n : Nat} (inside : n < shared.globalData.length) (pointer : Nat) :
    (shared.store n pointer).at_ = Function.update shared.at_ n (some pointer) := by
  funext other
  rw [Function.update_apply]
  simp only [Shared.at_,Shared.store]
  split
  next same =>
    subst same
    rw [List.getElem?_set_self inside]
    rfl
  next different => rw [List.getElem?_set_ne (Ne.symm different)]

structure Grows (shared changed : Shared) : Prop where
  kept : ∀ (n pointer : Nat), shared.at_ n = some pointer → changed.at_ n = some pointer
  length : changed.globalData.length = shared.globalData.length

theorem Grows.refl (shared : Shared) : Grows shared shared := ⟨fun _ _ there => there,rfl⟩

theorem grows_store (absent : shared.at_ (index node) = none) (inside : index node < shared.globalData.length) (pointer : Nat) :
    Grows shared (shared.store (index node) pointer) := by
  refine ⟨fun n other there => ?_,List.length_set⟩
  have different : n ≠ index node := by
    rintro rfl
    rw [absent] at there
    cases there
  rw [at_store inside,Function.update_of_ne different]
  exact there

/-- A thread outside the lock agrees with the atomic table whatever is added to it. -/
theorem Point.Agrees.unlocked (agrees : point.Agrees Asked shared status) (outside : point.holds = 0)
    (grows : Grows shared changed) : point.Agrees Asked changed status := by
  have fits (node : Node) (fits : Fits Asked shared node) : Fits Asked changed node := ⟨fits.1,grows.length ▸ fits.2⟩
  cases point with
  | idle => exact agrees
  | getTest node => exact ⟨fits node agrees.1,agrees.2⟩
  | getLock node point => exact ⟨fits node agrees.1,agrees.2⟩
  | getRead node =>
    obtain ⟨pointer,decided,there⟩ := agrees
    exact ⟨pointer,decided,grows.kept _ pointer there⟩
  | listLock point => exact agrees
  | done answer => exact agrees
  | undefined => exact agrees
  | _ => cases outside

theorem next_outside (shared : Shared) (outside : point.holds = 0) : ∃ lock, (point.next shared).1 = {shared with globalLock := lock} := by
  cases point with
  | getLock node point => exact ⟨_,rfl⟩
  | listLock point => exact ⟨_,rfl⟩
  | getRead node =>
    simp only [Point.next]
    split <;> exact ⟨_,rfl⟩
  | idle => exact ⟨_,rfl⟩
  | getTest node => exact ⟨_,rfl⟩
  | done answer => exact ⟨_,rfl⟩
  | undefined => exact ⟨_,rfl⟩
  | _ => cases outside

theorem holds_granted {after : SpinLock.Point} {granted waiting : Point} (inside : granted.holds = 1) (same : waiting.holds = after.holds) :
    (if after = .held then granted else waiting).holds = after.holds := by
  split
  next taken =>
    rw [taken]
    exact inside
  next => exact same

theorem next_holds (within : point.holds ≤ shared.globalLock.locked.toNat) :
    (point.next shared).2.holds + shared.globalLock.locked.toNat =
      point.holds + (point.next shared).1.globalLock.locked.toNat := by
  have leaves (held : 1 ≤ shared.globalLock.locked.toNat) : shared.globalLock.locked = true := by
    cases taken : shared.globalLock.locked with
    | false => simp [taken] at held
    | true => rfl
  cases point with
  | getLock node point =>
    simp only [Point.next]
    rw [holds_granted rfl rfl]
    exact SpinLock.next_holds spinLock within
  | listLock point =>
    simp only [Point.next]
    rw [holds_granted rfl rfl]
    exact SpinLock.next_holds spinLock within
  | getTest node =>
    simp only [Point.next]
    split <;> rfl
  | getRetest node =>
    simp only [Point.next]
    split <;> rfl
  | getRead node =>
    simp only [Point.next]
    split <;> rfl
  | listRead i ret =>
    simp only [Point.next]
    split <;> rfl
  | getUnlock node =>
    rw [leaves within]
    rfl
  | listUnlock ret =>
    rw [leaves within]
    rfl
  | _ => rfl

theorem Sound.stored_lt (sound : Sound Asked shared) {n : Nat} (there : shared.at_ n = some pointer) :
    pointer < shared.objects.length := by
  obtain ⟨node,-,made⟩ := sound.tabled n pointer there
  exact (List.getElem?_eq_some_iff.mp made).1

theorem made_alloc : (shared.alloc node).Made false node shared.objects.length := by
  simp [Shared.Made,Shared.alloc]

theorem made_build (made : shared.Made false node pointer) : (shared.build pointer).Made true node pointer := by
  simp only [Shared.Made,Shared.build,List.getElem?_modify,if_true]
  rw [show shared.objects[pointer]? = _ from made]
  rfl

theorem filterMap_range_succ (table : Nat → Option Nat) (i : Nat) :
    (List.range (i + 1)).filterMap table = (List.range i).filterMap table ++ (table i).toList := by
  rw [List.range_succ,List.filterMap_append]
  cases found : table i <;> simp [found]

def Follows (Asked : Node → Prop) (count : Nat) (atomic : Atomic Nat (Nat → Option Nat) Op Answer) (thread : Nat) (point : Point)
    (reached : Shared × Point) : Prop :=
  ∃ effects after, Atomically (Apply count) atomic (point.events thread) effects after ∧ after.object = reached.1.at_ ∧
    reached.2.Agrees Asked reached.1 (after.status thread) ∧ ∀ other, other ≠ thread → after.status other = atomic.status other

theorem follows_rest {reached : Shared × Point} (object : atomic.object = reached.1.at_)
    (agrees : reached.2.Agrees Asked reached.1 (atomic.status thread)) (silent : point.events thread = []) :
    Follows Asked count atomic thread point reached := by
  rw [Follows,silent]
  exact ⟨[],atomic,.nil atomic,object,agrees,fun _ _ => rfl⟩

theorem follows_effect {reached : Shared × Point} {op : Op} {answer : Answer} (pending : atomic.status thread = .pending op)
    (applies : Apply count atomic.object op answer reached.1.at_) (agrees : reached.2.Agrees Asked reached.1 (.decided answer))
    (silent : point.events thread = []) : Follows Asked count atomic thread point reached := by
  rw [Follows,silent]
  refine ⟨_,_,.effect thread op answer _ pending applies (.nil _),rfl,?_,fun other different => Atomic.set_status_other different⟩
  rw [Atomic.set_status_self]
  exact agrees

theorem apply_found (object : atomic.object = shared.at_) (there : shared.at_ (index node) = some pointer) :
    Apply count atomic.object (.get node) (.object pointer) shared.at_ := by
  rw [object]
  exact .found there

theorem next_follows (sound : Sound Asked shared) (size : shared.globalData.length = count)
    (agrees : point.Agrees Asked shared (atomic.status thread)) (object : atomic.object = shared.at_) :
    Follows Asked count atomic thread point (point.next shared) := by
  cases point with
  | idle => exact follows_rest object agrees rfl
  | getTest node =>
    obtain ⟨fits,pending⟩ := agrees
    cases there : shared.at_ (index node) with
    | none =>
      simp only [Point.next,there,Option.isNone_none,if_true]
      exact follows_rest object ⟨fits,pending,rfl⟩ rfl
    | some pointer =>
      simp only [Point.next,there,Option.isNone_some,Bool.false_eq_true,if_false]
      exact follows_effect pending (apply_found object there) ⟨pointer,rfl,there⟩ rfl
  | getLock node point =>
    obtain ⟨fits,pending,locks⟩ := agrees
    refine follows_rest object ?_ rfl
    simp only [Point.next]
    split
    next => exact ⟨fits,pending⟩
    next waiting => exact ⟨fits,pending,(SpinLock.next_locks spinLock shared.globalLock locks).resolve_left waiting⟩
  | getRetest node =>
    obtain ⟨fits,pending⟩ := agrees
    cases there : shared.at_ (index node) with
    | none =>
      simp only [Point.next,there,Option.isNone_none,if_true]
      exact follows_rest object ⟨fits,pending,there⟩ rfl
    | some pointer =>
      simp only [Point.next,there,Option.isNone_some,Bool.false_eq_true,if_false]
      exact follows_effect pending (apply_found object there) ⟨pointer,rfl,there⟩ rfl
  | getAlloc node =>
    obtain ⟨fits,pending,absent⟩ := agrees
    have unstored : shared.Unstored node shared.objects.length :=
      ⟨absent,fun n there => Nat.lt_irrefl _ (sound.stored_lt there)⟩
    exact follows_rest object ⟨fits,pending,unstored,made_alloc⟩ rfl
  | getBuild node pointer =>
    obtain ⟨fits,pending,unstored,made⟩ := agrees
    exact follows_rest object ⟨fits,pending,unstored,made_build made⟩ rfl
  | getStore node pointer =>
    obtain ⟨fits,pending,⟨absent,fresh⟩,made⟩ := agrees
    have applies : Apply count atomic.object (.get node) (.object pointer) (shared.store (index node) pointer).at_ := by
      rw [at_store fits.2,object]
      exact .made absent fresh
    refine follows_effect pending applies ⟨pointer,rfl,?_⟩ rfl
    simp only [Point.next]
    rw [at_store fits.2,Function.update_self]
  | getUnlock node => exact follows_rest object agrees rfl
  | getRead node =>
    obtain ⟨pointer,decided,there⟩ := agrees
    simp only [Point.next,there]
    exact follows_rest object decided rfl
  | listLock point =>
    obtain ⟨pending,locks⟩ := agrees
    refine follows_rest object ?_ rfl
    simp only [Point.next]
    split
    next => exact ⟨pending,Nat.zero_le _,rfl⟩
    next waiting => exact ⟨pending,(SpinLock.next_locks spinLock shared.globalLock locks).resolve_left waiting⟩
  | listRead i ret =>
    obtain ⟨pending,bound,listed⟩ := agrees
    by_cases more : i < shared.globalData.length
    · simp only [Point.next,more,if_true]
      refine follows_rest object ⟨pending,more,?_⟩ rfl
      rw [filterMap_range_succ,listed]
    · obtain rfl : i = shared.globalData.length := Nat.le_antisymm bound (Nat.le_of_not_lt more)
      simp only [Point.next,more,if_false]
      have applies : Apply count shared.at_ .getAllRegistered (.objects ret) shared.at_ := by
        rw [listed,size]
        exact .listed shared.at_
      exact follows_effect pending (object ▸ applies) rfl rfl
  | listUnlock ret => exact follows_rest object agrees rfl
  | done answer =>
    exact ⟨[],_,.answer thread answer agrees (.nil _),object,Atomic.set_status_self,
      fun other different => Atomic.set_status_other different⟩
  | undefined => cases agrees

theorem nodes_alloc : (shared.alloc node).nodes = shared.nodes ++ [node] := by simp [Shared.nodes,Shared.alloc]

theorem nodes_build : (shared.build pointer).nodes = shared.nodes := by
  rw [Shared.nodes,Shared.nodes]
  apply List.ext_getElem?
  intro other
  simp only [Shared.build,List.getElem?_map,List.getElem?_modify]
  cases shared.objects[other]? with
  | none => rfl
  | some object => split <;> rfl

theorem Sound.grow (sound : Sound Asked shared) (same : changed.at_ = shared.at_) (nodes : (changed.nodes.map index).Nodup)
    (asked : ∀ node ∈ changed.nodes, Asked node)
    (made : ∀ (node : Node) (pointer : Nat), shared.Made true node pointer → changed.Made true node pointer) :
    Sound Asked changed := by
  refine ⟨fun n pointer there => ?_,nodes,asked⟩
  rw [same] at there
  obtain ⟨node,here,was⟩ := sound.tabled n pointer there
  exact ⟨node,here,made node pointer was⟩

theorem Sound.alloc (sound : Sound Asked shared) (asked : Asked node) (new : index node ∉ shared.nodes.map index) :
    Sound Asked (shared.alloc node) := by
  refine sound.grow rfl ?_ ?_ ?_
  · rw [nodes_alloc,List.map_append,List.nodup_append]
    refine ⟨sound.distinct,List.nodup_singleton _,?_⟩
    rintro first inside second here rfl
    rw [List.mem_singleton.mp here] at inside
    exact new inside
  · intro other inside
    rw [nodes_alloc,List.mem_append] at inside
    obtain inside | here := inside
    · exact sound.asked other inside
    · rw [List.mem_singleton.mp here]
      exact asked
  · intro other pointer made
    rw [Shared.Made,Shared.alloc,List.getElem?_append_left (List.getElem?_eq_some_iff.mp made).1]
    exact made

theorem Sound.build (sound : Sound Asked shared) (pointer : Nat) : Sound Asked (shared.build pointer) := by
  refine sound.grow rfl (by rw [nodes_build]; exact sound.distinct) (by rw [nodes_build]; exact sound.asked) ?_
  intro other place made
  rw [Shared.Made] at made
  simp only [Shared.Made,Shared.build,List.getElem?_modify,made]
  split <;> rfl

theorem Sound.store (sound : Sound Asked shared) (inside : index node < shared.globalData.length)
    (made : shared.Made true node pointer) : Sound Asked (shared.store (index node) pointer) := by
  refine ⟨fun n other there => ?_,sound.distinct,sound.asked⟩
  rw [at_store inside,Function.update_apply] at there
  split at there
  next same =>
    obtain rfl := Option.some.inj there
    exact ⟨node,same.symm,made⟩
  next => exact sound.tabled n other there

theorem Sound.advance (sound : Sound Asked shared) (agrees : point.Agrees Asked shared status)
    (new : ∀ node, point = .getAlloc node → index node ∉ shared.nodes.map index) : Sound Asked (point.next shared).1 := by
  cases point with
  | getAlloc node => exact sound.alloc agrees.1.1 (new node rfl)
  | getBuild node pointer => exact sound.build pointer
  | getStore node pointer => exact sound.store agrees.1.2 agrees.2.2.2
  | getRead node =>
    simp only [Point.next]
    split <;> exact sound
  | _ => exact ⟨sound.tabled,sound.distinct,sound.asked⟩

theorem next_grows (agrees : point.Agrees Asked shared status) : Grows shared (point.next shared).1 := by
  cases point with
  | getStore node pointer => exact grows_store agrees.2.2.1.1 agrees.1.2 pointer
  | getRead node =>
    simp only [Point.next]
    split <;> exact .refl shared
  | _ => exact ⟨fun _ _ there => there,rfl⟩

theorem next_making (agrees : point.Agrees Asked shared status) (making : point.making = some pointer) :
    (point.next shared).2.making = some pointer ∨ ∃ n, (point.next shared).1.at_ n = some pointer := by
  cases point with
  | getBuild node place => exact .inl making
  | getStore node place =>
    obtain rfl := Option.some.inj making
    refine .inr ⟨index node,?_⟩
    simp only [Point.next]
    rw [at_store agrees.1.2,Function.update_self]
  | _ => cases making

theorem next_objects (point : Point) (shared : Shared) :
    (point.next shared).1.objects.length = shared.objects.length ∨
    (point.next shared).1.objects.length = shared.objects.length + 1 ∧
      (point.next shared).2.making = some shared.objects.length := by
  cases point with
  | getAlloc node => exact .inr ⟨List.length_append,rfl⟩
  | getBuild node pointer => exact .inl (List.length_modify _ _ _)
  | getRead node =>
    simp only [Point.next]
    split <;> exact .inl rfl
  | _ => exact .inl rfl

theorem holds_of_making (making : point.making = some pointer) : point.holds = 1 := by
  cases point with
  | getBuild node place => rfl
  | getStore node place => rfl
  | _ => cases making

/-- Nobody else makes an object for a node that has none in the table: there is none. -/
theorem Matches.new (matches_ : Matches Asked count state atomic) (found : state.threads[thread]? = some (.getAlloc node)) :
    index node ∉ state.shared.nodes.map index := by
  obtain ⟨-,-,absent⟩ := matches_.agrees thread _ found
  intro inside
  obtain ⟨other,member,same⟩ := List.mem_map.mp inside
  obtain ⟨object,made,rfl⟩ := List.mem_map.mp member
  obtain ⟨pointer,bound,rfl⟩ := List.mem_iff_getElem.mp made
  obtain ⟨n,there⟩ | ⟨point,among,making⟩ := matches_.placed pointer bound
  · obtain ⟨node',here,was⟩ := matches_.sound.tabled n pointer there
    rw [Shared.Made,List.getElem?_eq_getElem bound] at was
    rw [Option.some.inj was] at same
    rw [← same,here,there] at absent
    cases absent
  · obtain ⟨place,at_⟩ := List.mem_iff_getElem?.mp among
    have alone : thread = place := by
      apply position_unique Point.holds found at_
      rw [matches_.flagged,holds_of_making making]
      have bound := Bool.toNat_le state.shared.globalLock.locked
      simp only [Point.holds]
      omega
    subst alone
    rw [found] at at_
    obtain rfl := Option.some.inj at_
    cases making

/-- Every object that was made is in the table, or a thread is on its way to put it there. -/
theorem Matches.placed_go (matches_ : Matches Asked count state atomic) (found : state.threads[thread]? = some point)
    (made : pointer < (point.next state.shared).1.objects.length) :
    (∃ n, (point.next state.shared).1.at_ n = some pointer) ∨
      ∃ stands ∈ state.threads.set thread (point.next state.shared).2, stands.making = some pointer := by
  have agrees := matches_.agrees thread point found
  obtain ⟨bound,-⟩ := List.getElem?_eq_some_iff.mp found
  have mine : (point.next state.shared).2 ∈ state.threads.set thread (point.next state.shared).2 :=
    List.mem_of_getElem? (List.getElem?_set_self bound)
  have was (old : pointer < state.shared.objects.length) : (∃ n, (point.next state.shared).1.at_ n = some pointer) ∨
      ∃ stands ∈ state.threads.set thread (point.next state.shared).2, stands.making = some pointer := by
    obtain ⟨n,there⟩ | ⟨stands,among,making⟩ := matches_.placed pointer old
    · exact .inl ⟨n,(next_grows agrees).kept n pointer there⟩
    · obtain ⟨place,at_⟩ := List.mem_iff_getElem?.mp among
      by_cases same : thread = place
      · subst same
        rw [found] at at_
        obtain rfl := Option.some.inj at_
        exact (next_making agrees making).elim (fun making => .inr ⟨_,mine,making⟩) .inl
      · rw [← List.getElem?_set_ne same] at at_
        exact .inr ⟨stands,List.mem_of_getElem? at_,making⟩
  obtain same | ⟨more,making⟩ := next_objects point state.shared
  · exact was (same ▸ made)
  · rw [more] at made
    obtain old | rfl := Nat.lt_succ_iff_lt_or_eq.mp made
    · exact was old
    · exact .inr ⟨_,mine,making⟩

theorem Matches.go (matches_ : Matches Asked count state atomic) (found : state.threads[thread]? = some point) :
    ∃ effects after, Atomically (Apply count) atomic (point.events thread) effects after ∧
      Matches Asked count ⟨(point.next state.shared).1,state.threads.set thread (point.next state.shared).2⟩ after := by
  have agrees := matches_.agrees thread point found
  have grows := next_grows agrees
  have within := weight_le_total Point.holds found
  rw [matches_.flagged] at within
  have balance := next_holds within
  have moved := total_set Point.holds (point.next state.shared).2 found
  obtain ⟨effects,after,ran,object,fits,others⟩ := next_follows matches_.sound matches_.size agrees matches_.object
  refine ⟨effects,after,ran,grows.length.trans matches_.size,?_,object,?_,?_,fun pointer => matches_.placed_go found⟩
  · have flagged := matches_.flagged
    simp only
    omega
  · refine matches_.sound.advance agrees ?_
    rintro node rfl
    exact matches_.new found
  · intro other stands at_
    by_cases same : thread = other
    · subst same
      obtain ⟨bound,-⟩ := List.getElem?_eq_some_iff.mp found
      rw [List.getElem?_set_self bound] at at_
      obtain rfl := Option.some.inj at_
      exact fits
    · rw [List.getElem?_set_ne same] at at_
      have kept := matches_.agrees other stands at_
      rw [others other (Ne.symm same)]
      rcases Nat.eq_zero_or_pos stands.holds with outside | inside
      · exact kept.unlocked outside grows
      · have alone : point.holds = 0 := by
          by_contra holds
          apply same
          apply position_unique Point.holds found at_
          rw [matches_.flagged]
          have bound := Bool.toNat_le state.shared.globalLock.locked
          omega
        obtain ⟨lock,same⟩ := next_outside state.shared alone
        simp only [same]
        exact kept

theorem Matches.call (matches_ : Matches Asked count state atomic) (found : state.threads[thread]? = some .idle) {op : Op}
    (allowed : op.allowed state.shared.globalData.length = true) (asked : ∀ node, op = .get node → Asked node) :
    Matches Asked count ⟨state.shared,state.threads.set thread op.point⟩ (atomic.set thread (.pending op)) := by
  have light : op.point.holds = 0 := by cases op <;> rfl
  refine ⟨matches_.size,?_,matches_.object,matches_.sound,?_,?_⟩
  · have moved := total_set Point.holds op.point found
    rw [light] at moved
    exact moved.trans matches_.flagged
  · intro other point at_
    by_cases same : thread = other
    · subst same
      obtain ⟨bound,-⟩ := List.getElem?_eq_some_iff.mp found
      rw [List.getElem?_set_self bound] at at_
      obtain rfl := Option.some.inj at_
      rw [Atomic.set_status_self]
      cases op with
      | get node =>
        obtain ⟨-,fits⟩ := of_decide_eq_true allowed
        exact ⟨⟨asked node rfl,fits⟩,rfl⟩
      | getAllRegistered => exact ⟨rfl,rfl⟩
    · rw [List.getElem?_set_ne same] at at_
      rw [Atomic.set_status_other (Ne.symm same)]
      exact matches_.agrees other point at_
  · intro pointer made
    obtain there | ⟨point,among,making⟩ := matches_.placed pointer made
    · exact .inl there
    · obtain ⟨place,at_⟩ := List.mem_iff_getElem?.mp among
      have different : thread ≠ place := by
        rintro rfl
        rw [found] at at_
        obtain rfl := Option.some.inj at_
        cases making
      rw [← List.getElem?_set_ne different] at at_
      exact .inr ⟨point,List.mem_of_getElem? at_,making⟩

def Action.Asks (Asked : Node → Prop) : Action → Prop
  | .call _ (.get node) => Asked node
  | _ => True

instance (Asked : Node → Prop) [DecidablePred Asked] : DecidablePred (Action.Asks Asked)
  | .call _ (.get node) => inferInstanceAs (Decidable (Asked node))
  | .call _ .getAllRegistered => inferInstanceAs (Decidable True)
  | .go _ => inferInstanceAs (Decidable True)

theorem asks_all (action : Action) : action.Asks fun _ => True := by
  cases action with
  | call thread op => cases op <;> trivial
  | go thread => trivial

theorem Matches.step {action : Action} (matches_ : Matches Asked count state atomic) (asks : action.Asks Asked)
    (stepped : step state action = some next) :
    ∃ effects after, Atomically (Apply count) atomic (events state action) effects after ∧ Matches Asked count next after := by
  cases action with
  | call thread op =>
    simp only [NodeReplicated.step] at stepped
    split at stepped
    next found =>
      split at stepped
      next allowed =>
        obtain rfl := Option.some.inj stepped
        refine ⟨[],_,.call thread op (matches_.agrees thread .idle found) (.nil _),matches_.call found allowed ?_⟩
        rintro node rfl
        exact asks
      next => cases stepped
    next => cases stepped
  | go thread =>
    obtain ⟨point,found,rfl⟩ := Option.map_eq_some_iff.mp stepped
    simp only [events,found,Option.map_some,Option.getD_some]
    exact matches_.go found

theorem at_create {threads : Nat} : (State.create count threads).shared.at_ = fun _ => none := by
  funext n
  rw [Shared.at_]
  cases found : (State.create count threads).shared.globalData[n]? with
  | none => rfl
  | some entry =>
    rw [List.eq_of_mem_replicate (List.mem_of_getElem? found)]
    rfl

theorem matches_create (Asked : Node → Prop) (count threads : Nat) :
    Matches Asked count (.create count threads) (.start fun _ => none) := by
  refine ⟨List.length_replicate,total_replicate Point.holds threads rfl,at_create.symm,?_,?_,?_⟩
  · refine ⟨fun n pointer there => ?_,List.nodup_nil,fun node inside => by cases inside⟩
    rw [at_create] at there
    cases there
  · intro thread point found
    obtain rfl := List.eq_of_mem_replicate (List.mem_of_getElem? found)
    rfl
  · intro pointer bound
    cases bound

theorem matches_run {threads : Nat} {actions : List Action} (asked : ∀ action ∈ actions, action.Asks Asked)
    (ran : run NodeReplicated.step (.create count threads) actions = some state) : ∃ effects after,
      Atomically (Apply count) (.start fun _ => none) (trace NodeReplicated.step events (.create count threads) actions) effects after ∧
      Matches Asked count state after :=
  simulated (Matches Asked count) (fun _ _ _ _ matches_ asks stepped => matches_.step asks stepped)
    (matches_create Asked count threads) (meets_of_forall fun action inside _ => asked action inside) ran

section Results
variable {table final : Nat → Option Nat} {effects : List (Effect Nat Op Answer)}

theorem kept {n : Nat} (run : Sequential (Apply count) table effects final) (there : table n = some pointer) :
    final n = some pointer := by
  refine run.invariant (· n = some pointer) (fun table op answer next there applies => ?_) there
  cases applies with
  | found _ => exact there
  | made absent fresh =>
    rw [Function.update_of_ne]
    · exact there
    · rintro rfl
      rw [absent] at there
      cases there
  | listed => exact there

theorem stored (run : Sequential (Apply count) table effects final) {op : Op}
    (inside : ⟨thread,op,.object pointer⟩ ∈ effects) : ∃ node, op = .get node ∧ final (index node) = some pointer := by
  obtain ⟨before,after,one,two,-,applies,rest⟩ := run.around inside
  cases applies with
  | @found node _ there => exact ⟨node,rfl,kept rest there⟩
  | @made node _ absent fresh => exact ⟨node,rfl,kept rest (Function.update_self ..)⟩

theorem listed {n : Nat} {op : Op} {pointers : List Nat} (run : Sequential (Apply count) table effects final)
    (inside : ⟨thread,op,.objects pointers⟩ ∈ effects) (there : table n = some pointer) (bound : n < count) : pointer ∈ pointers := by
  obtain ⟨before,after,one,two,first,applies,-⟩ := run.around inside
  cases applies with
  | listed => exact List.mem_filterMap.mpr ⟨n,List.mem_range.mpr bound,kept first there⟩

end Results

/-- For any number of threads and any order of their steps, what the callers of `get` and
`get_all_registered` see is what they would see of a table with atomic operations, in which the
object of a node is made once; no call uses a null pointer. -/
theorem table_linearizable (count threads : Nat) (actions : List Action) (state : State)
    (ran : run step (.create count threads) actions = some state) :
    Linearizable (Apply count) (fun _ => none) (trace step events (.create count threads) actions) ∧ .undefined ∉ state.threads := by
  obtain ⟨effects,after,atomically,matches_⟩ := matches_run (fun action _ => asks_all action) ran
  refine ⟨⟨effects,after,atomically⟩,fun inside => ?_⟩
  obtain ⟨thread,found⟩ := List.mem_iff_getElem?.mp inside
  exact matches_.agrees thread .undefined found

def race : List Action :=
  [.call 0 (.get ⟨1,2⟩),.call 1 (.get ⟨1,2⟩),.go 0,.go 1,.go 0,.go 1,.go 0,.go 0,.go 0,.go 0,.go 0,.go 0,.go 1,.go 1,.go 1,.go 1,
    .go 1,.go 1,.go 1,.go 0,.go 0,.go 1,.go 1,.call 2 .getAllRegistered,.go 2,.go 2,.go 2,.go 2,.go 2,.go 2,.go 2]

theorem table_linearizable_race : Linearizable (Apply 2) (fun _ => none) (trace step events (.create 2 3) race) := by
  obtain ⟨state,ran⟩ : ∃ state, run step (.create 2 3) race = some state := ⟨_,rfl⟩
  exact (table_linearizable 2 3 race state ran).1

/-- A node has one object ever, and every `get` for it returns that one: its constructor has
returned, and it lies in the memory of the node. -/
theorem one_object (machine : Machine) (threads : Nat) (actions : List Action) (state : State)
    (asked : ∀ action ∈ actions, action.Asks (· ∈ machine.logicalNodes))
    (ran : run step (.create machine.logicalNodes.length threads) actions = some state) :
    (state.shared.nodes.map index).Nodup ∧
    ∃ effects final, Atomically (Apply machine.logicalNodes.length) (.start fun _ => none)
        (trace step events (.create machine.logicalNodes.length threads) actions) effects final ∧
      ∀ thread node pointer, ⟨thread,.get node,.object pointer⟩ ∈ effects → state.shared.at_ (index node) = some pointer ∧
        ∃ other ∈ machine.logicalNodes, index other = index node ∧
          state.shared.objects[pointer]? = some ⟨other,other.physicalId,true⟩ := by
  obtain ⟨effects,after,atomically,matches_⟩ := matches_run asked ran
  refine ⟨matches_.sound.distinct,effects,after,atomically,fun thread node pointer inside => ?_⟩
  obtain ⟨other,same,there⟩ := stored atomically.sequential inside
  obtain rfl := Op.get.inj same
  rw [matches_.object] at there
  obtain ⟨other,same,made⟩ := matches_.sound.tabled _ pointer there
  exact ⟨there,other,matches_.sound.asked other (List.mem_map.mpr ⟨_,List.mem_of_getElem? made,rfl⟩),same,made⟩

def twoNodes : Machine := ⟨[0,2],fun _ => 1,fun _ => [],by decide,⟨0,by decide,by decide⟩⟩

theorem one_object_race : ∃ state, run step (.create 2 3) race = some state ∧ (state.shared.nodes.map index).Nodup ∧
    state.shared.nodes = [⟨1,2⟩] := by
  have asked : ∀ action ∈ race, action.Asks (· ∈ twoNodes.logicalNodes) := by decide
  exact ⟨_,rfl,(one_object twoNodes 3 race _ asked rfl).1,rfl⟩

/-- `get_all_registered` returns every object that a `get` had returned before it was called. -/
theorem listed_complete (count threads : Nat) (actions : List Action) (state : State) (first second : List (Event Nat Op Answer))
    (thread other pointer : Nat) (pointers : List Nat) (ran : run step (.create count threads) actions = some state)
    (parts : trace step events (.create count threads) actions = first ++ .call thread .getAllRegistered::second)
    (before : .answer other (.object pointer) ∈ first) (after : .answer thread (.objects pointers) ∈ second) :
    pointer ∈ pointers := by
  obtain ⟨effects,final,atomically,matches_⟩ := matches_run (fun action _ => asks_all action) ran
  obtain ⟨middle,one,two,early,late,rfl⟩ := atomically.split parts
  have idle : middle.status thread ≠ .decided (.objects pointers) := by
    rw [late.idle_of_call]
    exact fun decided => by cases decided
  obtain ⟨_,got⟩ := early.answered_start before
  obtain ⟨_,listing⟩ := late.answered idle (List.mem_cons_of_mem _ after)
  obtain ⟨node,-,there⟩ := stored early.sequential got
  have last := kept late.sequential there
  rw [matches_.object] at last
  exact listed late.sequential listing there (matches_.size ▸ at_lt last)

theorem listed_complete_race : ∃ pointers, .answer 2 (.objects pointers) ∈ trace step events (.create 2 3) race ∧ 0 ∈ pointers :=
  ⟨[0],by decide,listed_complete 2 3 race _
    [.call 0 (.get ⟨1,2⟩),.call 1 (.get ⟨1,2⟩),.answer 0 (.object 0),.answer 1 (.object 0)]
    [.answer 2 (.objects [0])] 2 1 0 [0] rfl rfl (by decide) (by decide)⟩

/-- The destructor destroys and frees each object that was made, once. -/
theorem destructor_frees (count threads : Nat) (actions : List Action) (state : State)
    (ran : run step (.create count threads) actions = some state) (quiet : ∀ point ∈ state.threads, point = .idle) :
    state.shared.destroyed.Perm (List.range state.shared.objects.length) ∧ ∀ object ∈ state.shared.objects, object.built = true := by
  obtain ⟨effects,after,-,matches_⟩ := matches_run (fun action _ => asks_all action) ran
  have placed (pointer : Nat) (made : pointer < state.shared.objects.length) : ∃ n, state.shared.at_ n = some pointer := by
    refine (matches_.placed pointer made).resolve_right ?_
    rintro ⟨point,among,making⟩
    rw [quiet point among] at making
    cases making
  constructor
  · have distinct : state.shared.destroyed.Nodup := by
      refine List.Nodup.filterMap (fun n other pointer there also => ?_) List.nodup_range
      obtain ⟨node,rfl,made⟩ := matches_.sound.tabled n pointer there
      obtain ⟨node',rfl,made'⟩ := matches_.sound.tabled other pointer also
      rw [Shared.Made,made] at made'
      rw [(Object.mk.inj (Option.some.inj made')).1]
    rw [List.perm_ext_iff_of_nodup distinct List.nodup_range]
    intro pointer
    rw [Shared.destroyed,List.mem_filterMap,List.mem_range]
    constructor
    · rintro ⟨n,-,there⟩
      exact matches_.sound.stored_lt there
    · intro made
      obtain ⟨n,there⟩ := placed pointer made
      exact ⟨n,List.mem_range.mpr (at_lt there),there⟩
  · intro object inside
    obtain ⟨pointer,bound,rfl⟩ := List.mem_iff_getElem.mp inside
    obtain ⟨n,there⟩ := placed pointer bound
    obtain ⟨node,-,made⟩ := matches_.sound.tabled n pointer there
    rw [Shared.Made,List.getElem?_eq_getElem bound] at made
    rw [Option.some.inj made]

theorem destructor_frees_race : ∃ state, run step (.create 2 3) race = some state ∧ state.shared.destroyed = [0] ∧
    state.shared.destroyed.Perm (List.range state.shared.objects.length) :=
  ⟨_,rfl,rfl,(destructor_frees 2 3 race _ rfl (by decide)).1⟩

end Pgasus.NodeReplicated
