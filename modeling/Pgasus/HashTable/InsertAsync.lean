import Pgasus.Containers.TableIteration
import Pgasus.Library.Runs

/-! What the generator of `insertAsync` allocates from. The task makes a `Place`, not a
`PlaceGuard`, so nothing is pushed: the generator finds the source that the worker would
have used anyway, and `done` leaves the stack empty. -/
namespace Pgasus.InsertAsync
open Runs Containers
open HashTable (Table Ref HashType binCount binIndex)

/-- A `MemSource`; `create` numbers them in order. -/
abbrev Source := Nat

structure Place where
  msource : Option Source
  node : Node

def Place.ofNode (node : Node) : Place := ⟨none,node⟩

def Place.ofMsource (msource : Source) : Place := ⟨some msource,.invalid⟩

/-- `nodeSources` are those that `_node_storage->get` returns. -/
structure ThreadLocalStorage where
  node : Nat
  nodeSources : Int → Source
  threadMsource : Source
  placeStack : List Place
  currMsource : Source

namespace ThreadLocalStorage
variable (tls : ThreadLocalStorage)

def getNodeMsource (physicalId : Int) : Source :=
  if physicalId = tls.node then tls.threadMsource else tls.nodeSources physicalId

def getPlaceMsource (place : Place) : Source := place.msource.getD (tls.getNodeMsource place.node.physicalId)

def getCurrMsource : Source := (tls.placeStack.getLast?.map tls.getPlaceMsource).getD tls.threadMsource

def init (node : Nat) (nodeSources : Int → Source) (threadMsource : Source) : ThreadLocalStorage :=
  ⟨node,nodeSources,threadMsource,[],threadMsource⟩

def push (place : Place) : ThreadLocalStorage :=
  {tls with placeStack := tls.placeStack ++ [place],currMsource := tls.getPlaceMsource place}

def pop : ThreadLocalStorage :=
  let popped := {tls with placeStack := tls.placeStack.dropLast}
  {popped with currMsource := popped.getCurrMsource}

def popAll : List Place × ThreadLocalStorage := (tls.placeStack,{tls with placeStack := [],currMsource := tls.threadMsource})

def pushAll (places : List Place) : ThreadLocalStorage :=
  let pushed := {tls with placeStack := tls.placeStack ++ places}
  {pushed with currMsource := pushed.getCurrMsource}

/-- `malloc::curr_msource`. -/
def getMsource : Source := tls.currMsource

end ThreadLocalStorage

structure FunctionTask (Result : Type) where
  placeStack : List Place
  function : ThreadLocalStorage → Result × ThreadLocalStorage

section Tasks
variable {Result : Type}

/-- A new task has an empty place stack, whatever its creator has on its own. -/
def FunctionTask.create (function : ThreadLocalStorage → Result × ThreadLocalStorage) : FunctionTask Result := ⟨[],function⟩

/-- `async`: the place is on the stack of the creator while the task is made. -/
def async (creator : ThreadLocalStorage) (function : ThreadLocalStorage → Result × ThreadLocalStorage) (node : Node) :
    FunctionTask Result × ThreadLocalStorage :=
  let creator := if node.valid then creator.push (.ofNode node) else creator
  let task := FunctionTask.create function
  let creator := if node.valid then creator.pop else creator
  (task,creator)

def execute (worker : ThreadLocalStorage) (task : FunctionTask Result) : Result × ThreadLocalStorage :=
  let scheduled := worker.pushAll task.placeStack
  let (result,ran) := task.function scheduled
  (result,ran.popAll.2)

theorem async_frame (creator : ThreadLocalStorage) (function : ThreadLocalStorage → Result × ThreadLocalStorage) (node : Node) :
    (async creator function node).1 = ⟨[],function⟩ ∧ (async creator function node).2.placeStack = creator.placeStack := by
  refine ⟨rfl,?_⟩
  simp only [async]
  split
  next => exact List.dropLast_concat
  next => rfl

end Tasks

section Insert
variable {Key T : Type} {binBits : Nat} [BEq Key]

structure Inserted (Key T : Type) (binBits : Nat) where
  table : Table Key T Node binBits
  ref : Ref binBits
  source : Source

/-- The lambda; its `guard` is a `Place` that nothing looks at. -/
def insert (hash : Key → HashType) (default : T) (table : Table Key T Node binBits) (msources : Fin (binCount binBits) → Source)
    (key : Key) (generator : ThreadLocalStorage → T × ThreadLocalStorage) (tls : ThreadLocalStorage) :
    Inserted Key T binBits × ThreadLocalStorage :=
  let _guard := Place.ofMsource (msources (binIndex binBits (hash key)))
  let (created,ref) := table.index hash default key
  let source := tls.getMsource
  let (value,tls) := generator tls
  (⟨created.assign ref value,ref,source⟩,tls)

def insertAsync (hash : Key → HashType) (default : T) (table : Table Key T Node binBits) (msources : Fin (binCount binBits) → Source)
    (creator : ThreadLocalStorage) (key : Key) (generator : ThreadLocalStorage → T × ThreadLocalStorage) :
    FunctionTask (Inserted Key T binBits) × ThreadLocalStorage :=
  async creator (insert hash default table msources key generator) (table.binNodes (binIndex binBits (hash key)))

/-- "Guaranteed to be executed within correct allocation-context". -/
structure Guaranteed (source : Source) (before : ThreadLocalStorage) (executed : Inserted Key T binBits × ThreadLocalStorage) : Prop where
  source : executed.1.source = source
  stack : executed.2.placeStack = before.placeStack

/-- The generator allocates from what the worker has on its stack already, and the stack is empty afterwards. -/
theorem execute_insert (hash : Key → HashType) (default : T) (table : Table Key T Node binBits)
    (msources : Fin (binCount binBits) → Source) (creator worker : ThreadLocalStorage) (key : Key)
    (generator : ThreadLocalStorage → T × ThreadLocalStorage) :
    (execute worker (insertAsync hash default table msources creator key generator).1).1.source = worker.getCurrMsource ∧
      (execute worker (insertAsync hash default table msources creator key generator).1).2.placeStack = [] := by
  refine ⟨?_,rfl⟩
  rw [insertAsync,(async_frame creator _ _).1]
  change (worker.pushAll []).currMsource = worker.getCurrMsource
  simp only [ThreadLocalStorage.pushAll,List.append_nil]

end Insert

structure World (binBits : Nat) where
  created : Nat
  threads : Nat → Option ThreadLocalStorage
  tables : List (Fin (binCount binBits) → Source)

/-- Besides the bins and the threads anyone makes sources, and puts any places on the stacks. -/
inductive Action
  | create
  | initThread (thread node : Nat) (nodeSources : Int → Source)
  | construct
  | push (thread : Nat) (place : Place)
  | pop (thread : Nat)

section Worlds
variable {binBits : Nat}

def World.start (binBits : Nat) : World binBits := ⟨1,fun _ => none,[]⟩

def step (world : World binBits) : Action → Option (World binBits)
  | .create => some {world with created := world.created + 1}
  | .initThread thread node nodeSources =>
    match world.threads thread with
    | none => some {world with
        created := world.created + 1
        threads := Function.update world.threads thread (some (.init node nodeSources world.created))}
    | some _ => none
  | .construct => some {world with
      created := world.created + binCount binBits
      tables := (fun index => world.created + index.val) :: world.tables}
  | .push thread place => (world.threads thread).map fun tls =>
      {world with threads := Function.update world.threads thread (some (tls.push place))}
  | .pop thread => (world.threads thread).bind fun tls =>
      if tls.placeStack = [] then none
      else some {world with threads := Function.update world.threads thread (some tls.pop)}

structure Apart (world : World binBits) : Prop where
  threads : ∀ thread tls, world.threads thread = some tls → tls.threadMsource < world.created
  tables : ∀ msources ∈ world.tables, ∀ index, msources index < world.created
  apart : ∀ thread tls, world.threads thread = some tls → ∀ msources ∈ world.tables, ∀ index,
    msources index ≠ tls.threadMsource

variable {world next : World binBits} {action : Action}

theorem Apart.update (apart : Apart world) {thread : Nat} {old new : ThreadLocalStorage} (here : world.threads thread = some old)
    (same : new.threadMsource = old.threadMsource) :
    Apart {world with threads := Function.update world.threads thread (some new)} := by
  have cases_ (other : Nat) (tls : ThreadLocalStorage) (found : Function.update world.threads thread (some new) other = some tls) :
      ∃ known, world.threads other = some known ∧ known.threadMsource = tls.threadMsource := by
    rw [Function.update_apply] at found
    split at found
    next is =>
      obtain rfl := Option.some.inj found
      exact ⟨old,is ▸ here,same.symm⟩
    next => exact ⟨tls,found,rfl⟩
  refine ⟨fun other tls found => ?_,apart.tables,fun other tls found => ?_⟩
  · obtain ⟨known,there,equal⟩ := cases_ other tls found
    exact equal ▸ apart.threads other known there
  · obtain ⟨known,there,equal⟩ := cases_ other tls found
    exact equal ▸ apart.apart other known there

theorem Apart.step (apart : Apart world) (stepped : step world action = some next) : Apart next := by
  cases action with
  | create =>
    obtain rfl := Option.some.inj stepped
    exact ⟨fun thread tls found => Nat.lt_succ_of_lt (apart.threads thread tls found),
      fun msources inside index => Nat.lt_succ_of_lt (apart.tables msources inside index),apart.apart⟩
  | initThread thread node nodeSources =>
    rw [InsertAsync.step] at stepped
    split at stepped
    next =>
      obtain rfl := Option.some.inj stepped
      refine ⟨fun other tls found => ?_,fun msources inside index => Nat.lt_succ_of_lt (apart.tables msources inside index),
        fun other tls found msources inside index => ?_⟩
      · simp only [Function.update_apply] at found
        split at found
        next =>
          obtain rfl := Option.some.inj found
          exact Nat.lt_succ_self _
        next => exact Nat.lt_succ_of_lt (apart.threads other tls found)
      · simp only [Function.update_apply] at found
        split at found
        next =>
          obtain rfl := Option.some.inj found
          exact Nat.ne_of_lt (apart.tables msources inside index)
        next => exact apart.apart other tls found msources inside index
    next => cases stepped
  | construct =>
    obtain rfl := Option.some.inj stepped
    refine ⟨fun thread tls found => Nat.lt_add_right _ (apart.threads thread tls found),fun msources inside index => ?_,
      fun thread tls found msources inside index => ?_⟩
    · rcases List.mem_cons.mp inside with rfl | older
      · exact Nat.add_lt_add_left index.isLt _
      · exact Nat.lt_add_right _ (apart.tables msources older index)
    · rcases List.mem_cons.mp inside with rfl | older
      · exact Nat.ne_of_gt (Nat.lt_add_right _ (apart.threads thread tls found))
      · exact apart.apart thread tls found msources older index
  | push thread place =>
    obtain ⟨tls,here,rfl⟩ := Option.map_eq_some_iff.mp stepped
    exact apart.update here rfl
  | pop thread =>
    obtain ⟨tls,here,stepped⟩ := Option.bind_eq_some_iff.mp stepped
    split at stepped
    next => cases stepped
    next =>
      obtain rfl := Option.some.inj stepped
      exact apart.update here rfl

theorem apart_start : Apart (World.start binBits) :=
  ⟨(fun _ _ found => by cases found),(fun _ inside => by cases inside),(fun _ _ found => by cases found)⟩

/-- On a worker with nothing on its stack the source is its own, and one with something on it loses that. -/
theorem insertAsync_never {Key T : Type} [BEq Key] (hash : Key → HashType) (default : T) (actions : List Action)
    (final : World binBits) (ran : run step (World.start binBits) actions = some final) (thread : Nat) (worker : ThreadLocalStorage)
    (here : final.threads thread = some worker) (table : Table Key T Node binBits) (msources : Fin (binCount binBits) → Source)
    (inside : msources ∈ final.tables) (creator : ThreadLocalStorage) (key : Key) (generator : ThreadLocalStorage → T × ThreadLocalStorage) :
    ¬Guaranteed (msources (binIndex binBits (hash key))) worker
      (execute worker (insertAsync hash default table msources creator key generator).1) := by
  intro guaranteed
  obtain ⟨source,stack⟩ := execute_insert hash default table msources creator worker key generator
  have apart : Apart final := invariant_of_run Apart (fun _ _ _ apart stepped => apart.step stepped) apart_start ran
  have none_ : worker.placeStack = [] := guaranteed.stack.symm.trans stack
  have own : worker.getCurrMsource = worker.threadMsource := by
    rw [ThreadLocalStorage.getCurrMsource,none_]
    rfl
  exact apart.apart thread worker here msources inside _ (guaranteed.source.symm.trans (source.trans own))

def oneWorker : List Action := [.initThread 0 0 fun _ => 0,.construct]

def emptyTable : Table Nat Nat Node 1 := Table.create sampleHash [⟨0,0⟩] (by decide)

def workerThread : ThreadLocalStorage := .init 0 (fun _ => 0) 1

theorem insertAsync_misses : (run step (World.start 1) oneWorker).bind (fun world => world.threads 0) = some workerThread ∧
    (execute workerThread (insertAsync sampleHash 0 emptyTable (fun index => 2 + index.val) workerThread 7 (fun tls => (3,tls))).1).1.source = 1 ∧
    ¬Guaranteed (2 + (binIndex 1 (sampleHash 7)).val) workerThread
      (execute workerThread (insertAsync sampleHash 0 emptyTable (fun index => 2 + index.val) workerThread 7 (fun tls => (3,tls))).1) := by
  refine ⟨rfl,rfl,fun guaranteed => ?_⟩
  have same : 1 = 2 + (binIndex 1 (sampleHash 7)).val := guaranteed.source
  omega

theorem insertAsync_never_sample : ∃ final, run step (World.start 1) oneWorker = some final ∧
    ¬Guaranteed (2 + (binIndex 1 (sampleHash 7)).val) workerThread
      (execute workerThread (insertAsync sampleHash 0 emptyTable (fun index => 2 + index.val) workerThread 7 (fun tls => (3,tls))).1) :=
  ⟨_,rfl,insertAsync_never sampleHash 0 oneWorker _ rfl 0 workerThread rfl emptyTable _ List.mem_cons_self workerThread 7 _⟩

end Worlds
end Pgasus.InsertAsync
