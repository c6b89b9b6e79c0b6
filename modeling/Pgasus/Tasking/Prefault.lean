import Mathlib.Data.List.Count
import Pgasus.Library.Runs
import Pgasus.Library.Totals
import Pgasus.Tasking.Workers

/-! `prefaultWorkerThreadStorages`: a task for each worker thread, all of which wait for
each other at a barrier. Nothing binds a task to its worker: any worker of the node may
take it. -/
namespace Pgasus.Prefault
open Runs Totals
open Workers (ThreadLocalStorage)

variable {Place : Type}

/-- What a worker does next: `other` is a task of somebody else, and from `prefault` on
it runs one of the tasks, with the bytes that it prefaulted. -/
inductive Pc
  | idle
  | other
  | prefault
  | add (pf : Nat)
  | post (pf : Nat)
  | wait (pf : Nat)
  | repost (pf : Nat)
  | update (pf : Nat)
deriving DecidableEq

/-- The last two fields are a record of the tasks that the worker started and of the
sources that it prefaulted; none is the thread's own source. -/
structure Worker (Place : Type) where
  node : Nat
  pc : Pc
  tls : ThreadLocalStorage Place
  executed : List Nat
  prefaulted : List (Option Place)

/-- `passed` and `completed` record how many tasks did so. -/
structure State (Place : Type) where
  counter : Nat
  semaphore : Nat
  minPrefault : Nat
  spawned : Nat
  queued : List Nat
  workers : List (Worker Place)
  passed : Nat
  completed : Nat

inductive Action (Place : Type)
  | spawn
  | take (worker task : Nat)
  | begin (worker : Nat) (places : List Place)
  | finish (worker : Nat)
  | go (worker : Nat)

namespace State

def create (nodes : List Nat) : State Place :=
  ⟨0,0,2 ^ 64 - 1,0,[],nodes.map (fun node => ⟨node,.idle,.fresh,[],[]⟩),0,0⟩

variable (state : State Place)

def setWorker (position : Nat) (worker : Worker Place) : State Place :=
  {state with workers := state.workers.set position worker}

end State

/-- `bytes` is the argument, and `size` that of the native arena of a source of a worker. -/
structure Call (Place : Type) where
  bytes : Nat
  size : Nat → Option Place → Nat

variable (call : Call Place) (nodes : List Nat)

/-- The body of the task; `prefault` answers how many bytes it touched. -/
def State.go (state : State Place) (position : Nat) (worker : Worker Place) : Option (State Place) :=
  match worker.pc with
  | .idle | .other => none
  | .prefault =>
    let source := worker.tls.currMsource
    some (state.setWorker position {worker with
      pc := .add (min call.bytes (call.size position source))
      prefaulted := worker.prefaulted ++ [source]})
  | .add pf =>
    some ({state with counter := state.counter + 1}.setWorker position
      {worker with pc := if state.counter = nodes.length - 1 then .post pf else .wait pf})
  | .post pf => some ({state with semaphore := state.semaphore + 1}.setWorker position {worker with pc := .wait pf})
  | .wait pf =>
    if 0 < state.semaphore then
      some ({state with semaphore := state.semaphore - 1,passed := state.passed + 1}.setWorker position
        {worker with pc := .repost pf})
    else none
  | .repost pf => some ({state with semaphore := state.semaphore + 1}.setWorker position {worker with pc := .update pf})
  | .update pf =>
    some ({state with minPrefault := min state.minPrefault pf,completed := state.completed + 1}.setWorker position
      {worker with pc := .idle,tls := worker.tls.popAll.2})

def step (state : State Place) : Action Place → Option (State Place)
  -- forEachThread
  | .spawn =>
    if state.spawned < nodes.length then
      some {state with queued := state.queued ++ [state.spawned],spawned := state.spawned + 1}
    else none
  -- try_get, also from the queue of another worker, and Task::schedule of a new task
  | .take position task =>
    match state.workers[position]? with
    | some ⟨node,.idle,tls,executed,prefaulted⟩ =>
      if task ∈ state.queued ∧ nodes[task]? = some node then
        some ({state with queued := state.queued.erase task}.setWorker position
          ⟨node,.prefault,tls.pushAll [],executed ++ [task],prefaulted⟩)
      else none
    | _ => none
  | .begin position places =>
    match state.workers[position]? with
    | some ⟨node,.idle,tls,executed,prefaulted⟩ =>
      some (state.setWorker position ⟨node,.other,tls.pushAll places,executed,prefaulted⟩)
    | _ => none
  | .finish position =>
    match state.workers[position]? with
    | some ⟨node,.other,tls,executed,prefaulted⟩ =>
      some (state.setWorker position ⟨node,.idle,tls.popAll.2,executed,prefaulted⟩)
    | _ => none
  | .go position => (state.workers[position]?).bind (state.go call nodes position)

namespace Worker

def starts (worker : Worker Place) : Nat := worker.executed.length

def startsAt (node : Nat) (worker : Worker Place) : Nat := if worker.node = node then worker.starts else 0

def within (worker : Worker Place) : Nat :=
  match worker.pc with
  | .idle | .other => 0
  | _ => 1

def uncounted (worker : Worker Place) : Nat :=
  match worker.pc with
  | .prefault | .add _ => 1
  | _ => 0

def owes (worker : Worker Place) : Nat :=
  match worker.pc with
  | .post _ | .repost _ => 1
  | _ => 0

def beforeBarrier (worker : Worker Place) : Prop :=
  match worker.pc with
  | .idle | .other => worker.starts = 0
  | .prefault | .add _ | .wait _ => worker.starts = 1
  | _ => False

/-- What a worker has at all times; `opened` says that all tasks have counted themselves. -/
structure Sound (opened : Prop) (worker : Worker Place) : Prop where
  once : worker.starts ≤ 1
  started : worker.within ≤ worker.starts
  faulted : worker.prefaulted = List.replicate (worker.starts - if worker.pc = .prefault then 1 else 0) none
  places : worker.pc ≠ .other → worker.tls = ⟨[],none⟩
  closed : ¬opened → worker.beforeBarrier

end Worker

def State.opened (state : State Place) (nodes : List Nat) : Prop := state.counter = nodes.length

instance (state : State Place) : Decidable (state.opened nodes) := inferInstanceAs (Decidable (_ = _))

def State.gate (state : State Place) (nodes : List Nat) : Nat := if state.opened nodes then 1 else 0

structure Sound (state : State Place) : Prop where
  same : state.workers.map Worker.node = nodes
  workers : ∀ worker ∈ state.workers, worker.Sound (state.opened nodes)
  counted : state.counter + total Worker.uncounted state.workers = total Worker.starts state.workers
  spawned : total Worker.starts state.workers + state.queued.length = state.spawned
  few : state.spawned ≤ nodes.length
  named : ∀ task ∈ state.queued, task < state.spawned
  shared : ∀ node, total (Worker.startsAt node) state.workers + state.queued.countP (fun task => nodes[task]? = some node) =
    (List.range state.spawned).countP (fun task => nodes[task]? = some node)
  gate : state.semaphore + total Worker.owes state.workers = state.gate nodes
  passed : 0 < state.passed → state.opened nodes
  completed : state.completed + total Worker.within state.workers = total Worker.starts state.workers

variable {call nodes} {state next : State Place} {position : Nat} {old new worker : Worker Place}

theorem Worker.Sound.mono {opened later : Prop} (sound : worker.Sound opened) (opens : opened → later) :
    worker.Sound later :=
  ⟨sound.once,sound.started,sound.faulted,sound.places,fun closed => sound.closed fun open_ => closed (opens open_)⟩

theorem Sound.move (sound : Sound nodes state) (found : state.workers[position]? = some old) (base : State Place)
    (workers : base.workers = state.workers) (spawned : base.spawned = state.spawned) (node : new.node = old.node)
    (opens : state.opened nodes → base.opened nodes) (isSound : new.Sound (base.opened nodes))
    (counted : base.counter + new.uncounted + old.starts = state.counter + old.uncounted + new.starts)
    (queued : new.starts + base.queued.length = old.starts + state.queued.length)
    (named : ∀ task ∈ base.queued, task ∈ state.queued)
    (shared : ∀ node, new.startsAt node + base.queued.countP (fun task => nodes[task]? = some node) =
      old.startsAt node + state.queued.countP (fun task => nodes[task]? = some node))
    (gate : base.semaphore + new.owes + state.gate nodes = state.semaphore + old.owes + base.gate nodes)
    (passed : 0 < base.passed → base.opened nodes)
    (completed : base.completed + new.within + old.starts = state.completed + old.within + new.starts) :
    Sound nodes (base.setWorker position new) := by
  have starts := total_set Worker.starts new found
  have uncounted := total_set Worker.uncounted new found
  have owes := total_set Worker.owes new found
  have within := total_set Worker.within new found
  have before := sound.counted
  constructor
  · simp only [State.setWorker,workers]
    exact (map_set Worker.node found node).trans sound.same
  · intro other inside
    simp only [State.setWorker,workers] at inside
    obtain rfl | ⟨_,_,there⟩ := mem_set_cases inside
    · exact isSound
    · exact (sound.workers other (List.mem_of_getElem? there)).mono opens
  · simp only [State.setWorker,workers]
    omega
  · have before := sound.spawned
    simp only [State.setWorker,workers,spawned]
    omega
  · simp only [State.setWorker,spawned]
    exact sound.few
  · intro task inside
    simp only [State.setWorker,spawned]
    exact sound.named task (named task inside)
  · intro place
    have startsAt := total_set (Worker.startsAt place) new found
    have before := sound.shared place
    have change := shared place
    simp only [State.setWorker,workers,spawned]
    omega
  · have before := sound.gate
    change base.semaphore + total Worker.owes (base.workers.set position new) = base.gate nodes
    rw [workers]
    omega
  · exact passed
  · have before := sound.completed
    simp only [State.setWorker,workers]
    omega

theorem Sound.stay (sound : Sound nodes state) (found : state.workers[position]? = some old) (base : State Place)
    (workers : base.workers = state.workers) (spawned : base.spawned = state.spawned) (node : new.node = old.node)
    (executed : new.executed = old.executed) (queued : base.queued = state.queued)
    (opens : state.opened nodes → base.opened nodes) (isSound : new.Sound (base.opened nodes))
    (counted : base.counter + new.uncounted = state.counter + old.uncounted)
    (gate : base.semaphore + new.owes + state.gate nodes = state.semaphore + old.owes + base.gate nodes)
    (passed : 0 < base.passed → base.opened nodes)
    (completed : base.completed + new.within = state.completed + old.within) :
    Sound nodes (base.setWorker position new) := by
  have starts : new.starts = old.starts := congrArg List.length executed
  apply sound.move found base workers spawned node opens isSound
  · omega
  · rw [starts,queued]
  · exact fun task inside => queued ▸ inside
  · intro place
    rw [queued,Worker.startsAt,Worker.startsAt,node,starts]
  · exact gate
  · exact passed
  · omega

theorem Sound.count_le (sound : Sound nodes state) :
    state.counter + total Worker.uncounted state.workers + state.queued.length ≤ nodes.length := by
  have counted := sound.counted
  have spawned := sound.spawned
  have few := sound.few
  omega

theorem Sound.goPrefault (sound : Sound nodes state) (found : state.workers[position]? = some old) (pc : old.pc = .prefault) :
    Sound nodes (state.setWorker position {old with
      pc := .add (min call.bytes (call.size position old.tls.currMsource))
      prefaulted := old.prefaulted ++ [old.tls.currMsource]}) := by
  have before := sound.workers old (List.mem_of_getElem? found)
  have started := before.started
  have faulted := before.faulted
  simp only [Worker.within,pc] at started
  refine sound.stay found state rfl rfl rfl rfl rfl id ?_ ?_ ?_ ?_ ?_
  · constructor
    · exact before.once
    · exact started
    · have own : old.tls.currMsource = none := congrArg ThreadLocalStorage.currMsource (before.places (by simp [pc]))
      have one : old.starts - 1 + 1 = old.starts := Nat.sub_add_cancel started
      rw [if_pos pc] at faulted
      change old.prefaulted ++ [old.tls.currMsource] = List.replicate (old.starts - 0) none
      rw [faulted,own,Nat.sub_zero,← List.replicate_succ',one]
    · exact fun _ => before.places (by simp [pc])
    · intro closed
      have alone : old.starts = 1 := by simpa [Worker.beforeBarrier,pc] using before.closed closed
      exact alone
  · simp [Worker.uncounted,pc]
  · simp [Worker.owes,pc]
  · exact sound.passed
  · simp [Worker.within,pc]

theorem Sound.goAdd (sound : Sound nodes state) {pf : Nat} (found : state.workers[position]? = some old) (pc : old.pc = .add pf) :
    Sound nodes ({state with counter := state.counter + 1}.setWorker position
      {old with pc := if state.counter = nodes.length - 1 then .post pf else .wait pf}) := by
  have before := sound.workers old (List.mem_of_getElem? found)
  have light := weight_le_total Worker.uncounted found
  have most := sound.count_le
  simp only [Worker.uncounted,pc] at light
  -- a task that is not counted keeps the barrier closed
  have closed : ¬state.opened nodes := fun opened => by
    unfold State.opened at opened
    omega
  have gate : state.gate nodes = 0 := if_neg closed
  have alone : old.starts = 1 := by simpa [Worker.beforeBarrier,pc] using before.closed closed
  have places := before.places (by simp [pc])
  have faulted : old.prefaulted = List.replicate old.starts none := by simpa [pc] using before.faulted
  by_cases last : state.counter = nodes.length - 1
  · have opened : ({state with counter := state.counter + 1} : State Place).opened nodes := by
      change state.counter + 1 = nodes.length
      omega
    have open_ : ({state with counter := state.counter + 1} : State Place).gate nodes = 1 := if_pos opened
    rw [if_pos last]
    refine sound.stay found {state with counter := state.counter + 1} rfl rfl rfl rfl rfl (fun _ => opened) ?_ ?_ ?_ ?_ ?_
    · constructor
      · exact before.once
      · exact Nat.le_of_eq alone.symm
      · exact faulted
      · exact fun _ => places
      · exact fun contrary => absurd opened contrary
    · simp [Worker.uncounted,pc]
    · simp [Worker.owes,pc,gate,open_]
    · exact fun _ => opened
    · simp [Worker.within,pc]
  · have shut : ¬({state with counter := state.counter + 1} : State Place).opened nodes := fun opened => by
      have same : state.counter + 1 = nodes.length := opened
      omega
    have closed_ : ({state with counter := state.counter + 1} : State Place).gate nodes = 0 := if_neg shut
    rw [if_neg last]
    refine sound.stay found {state with counter := state.counter + 1} rfl rfl rfl rfl rfl (fun opened => absurd opened closed)
      ?_ ?_ ?_ ?_ ?_
    · constructor
      · exact before.once
      · exact Nat.le_of_eq alone.symm
      · exact faulted
      · exact fun _ => places
      · exact fun _ => alone
    · simp [Worker.uncounted,pc]
    · simp [Worker.owes,pc,gate,closed_]
    · exact fun some_ => absurd (sound.passed some_) closed
    · simp [Worker.within,pc]

def Pc.behind : Pc → Bool
  | .post _ | .wait _ | .repost _ | .update _ => true
  | _ => false

theorem behind_weights (behind : worker.pc.behind = true) :
    worker.within = 1 ∧ worker.uncounted = 0 ∧ worker.pc ≠ .prefault := by
  unfold Worker.within Worker.uncounted
  cases pc : worker.pc with
  | idle | other | prefault | add pf =>
    rw [pc] at behind
    cases behind
  | post pf | wait pf | repost pf | update pf => exact ⟨rfl,rfl,nofun⟩

theorem Sound.goBehind (sound : Sound nodes state) (found : state.workers[position]? = some old) (base : State Place)
    (pc : Pc) (tls : ThreadLocalStorage Place) (empty : tls = ⟨[],none⟩) (workers : base.workers = state.workers)
    (spawned : base.spawned = state.spawned) (queued : base.queued = state.queued) (counter : base.counter = state.counter)
    (opened : state.opened nodes) (was : old.pc.behind = true) (is : pc.behind = true ∨ pc = .idle)
    (gate : base.semaphore + Worker.owes {old with pc := pc} = state.semaphore + old.owes)
    (completed : base.completed + Worker.within {old with pc := pc} = state.completed + 1) :
    Sound nodes (base.setWorker position {old with pc := pc,tls := tls}) := by
  have before := sound.workers old (List.mem_of_getElem? found)
  have faulted := before.faulted
  have still : base.opened nodes := counter.trans opened
  have same : base.gate nodes = state.gate nodes := (if_pos still).trans (if_pos opened).symm
  have started := before.started
  obtain ⟨within,uncounted,begun⟩ := behind_weights was
  have fresh : Worker.uncounted {old with pc := pc} = 0 ∧ pc ≠ .prefault := by
    obtain behind | rfl := is
    · exact (@behind_weights _ {old with pc := pc} behind).2
    · exact ⟨rfl,nofun⟩
  have light : Worker.within {old with pc := pc} ≤ 1 := by
    unfold Worker.within
    split <;> decide
  refine sound.stay found base workers spawned rfl rfl queued (fun _ => still) ?_ ?_ ?_ ?_ ?_
  · constructor
    · exact before.once
    · exact Nat.le_trans light (within ▸ started)
    · rw [if_neg begun] at faulted
      rw [if_neg fresh.2]
      exact faulted
    · exact fun _ => empty
    · exact fun contrary => absurd still contrary
  · change base.counter + Worker.uncounted {old with pc := pc} = _
    rw [counter,fresh.1,uncounted]
  · change base.semaphore + Worker.owes {old with pc := pc} + _ = _
    omega
  · exact fun _ => still
  · change base.completed + Worker.within {old with pc := pc} = _
    omega

theorem Sound.open_of_gate (sound : Sound nodes state) (posts : 0 < state.semaphore + total Worker.owes state.workers) :
    state.opened nodes := by
  have gate := sound.gate
  by_contra closed
  rw [State.gate,if_neg closed] at gate
  omega

theorem Sound.go (sound : Sound nodes state) (found : state.workers[position]? = some old)
    (went : state.go call nodes position old = some next) : Sound nodes next := by
  have before := sound.workers old (List.mem_of_getElem? found)
  have light := weight_le_total Worker.owes found
  unfold State.go at went
  split at went
  next => cases went
  next => cases went
  next pc =>
    obtain rfl := Option.some.inj went
    exact sound.goPrefault found pc
  next pf pc =>
    obtain rfl := Option.some.inj went
    exact sound.goAdd found pc
  next pf pc =>
    obtain rfl := Option.some.inj went
    have owes : old.owes = 1 := by simp [Worker.owes,pc]
    have opened := sound.open_of_gate (by omega)
    refine sound.goBehind found _ (.wait pf) old.tls (before.places (by simp [pc])) rfl rfl rfl rfl opened ?_ ?_ ?_ ?_
    · rw [pc]
      rfl
    · exact .inl rfl
    · rw [owes]
      rfl
    · rfl
  next pf pc =>
    split at went
    next some_ =>
      obtain rfl := Option.some.inj went
      have opened := sound.open_of_gate (Nat.add_pos_left some_ _)
      have owes : old.owes = 0 := by simp [Worker.owes,pc]
      refine sound.goBehind found _ (.repost pf) old.tls (before.places (by simp [pc])) rfl rfl rfl rfl opened ?_ ?_ ?_ ?_
      · rw [pc]
        rfl
      · exact .inl rfl
      · rw [owes]
        exact Nat.sub_add_cancel some_
      · rfl
    next => cases went
  next pf pc =>
    obtain rfl := Option.some.inj went
    have owes : old.owes = 1 := by simp [Worker.owes,pc]
    have opened := sound.open_of_gate (by omega)
    refine sound.goBehind found _ (.update pf) old.tls (before.places (by simp [pc])) rfl rfl rfl rfl opened ?_ ?_ ?_ ?_
    · rw [pc]
      rfl
    · exact .inl rfl
    · rw [owes]
      rfl
    · rfl
  next pf pc =>
    obtain rfl := Option.some.inj went
    have owes : old.owes = 0 := by simp [Worker.owes,pc]
    have opened : state.opened nodes := by
      by_contra closed
      have early := before.closed closed
      simp only [Worker.beforeBarrier,pc] at early
    refine sound.goBehind found _ .idle old.tls.popAll.2 rfl rfl rfl rfl rfl opened ?_ ?_ ?_ ?_
    · rw [pc]
      rfl
    · exact .inr rfl
    · rw [owes]
      rfl
    · rfl

theorem Sound.take (sound : Sound nodes state) {task : Nat} (found : state.workers[position]? = some old)
    (pc : old.pc = .idle) (queued : task ∈ state.queued) (node : nodes[task]? = some old.node) :
    Sound nodes ({state with queued := state.queued.erase task}.setWorker position {old with
      pc := .prefault
      tls := old.tls.pushAll []
      executed := old.executed ++ [task]}) := by
  have before := sound.workers old (List.mem_of_getElem? found)
  have most := sound.count_le
  have fewer := List.length_erase_of_mem queued
  have some_ := List.length_pos_of_mem queued
  -- a queued task keeps the barrier closed, so that an idle worker has had none
  have closed : ¬state.opened nodes := fun opened => by
    unfold State.opened at opened
    omega
  have idle : old.starts = 0 := by simpa [Worker.beforeBarrier,pc] using before.closed closed
  have started : (old.executed ++ [task]).length = 1 := by
    unfold Worker.starts at idle
    simp [idle]
  have places := before.places (by simp [pc])
  refine sound.move found {state with queued := state.queued.erase task} rfl rfl rfl id ?_ ?_ ?_ ?_ ?_ ?_ sound.passed ?_
  · constructor
    · exact Nat.le_of_eq started
    · exact Nat.le_of_eq started.symm
    · have faulted := before.faulted
      rw [idle,Nat.zero_sub] at faulted
      change old.prefaulted = List.replicate ((old.executed ++ [task]).length - 1) none
      rw [faulted,started]
    · intro _
      change old.tls.pushAll [] = _
      rw [places]
      rfl
    · exact fun _ => started
  · change state.counter + 1 + old.starts = state.counter + old.uncounted + (old.executed ++ [task]).length
    simp only [idle,started,Worker.uncounted,pc]
  · change (old.executed ++ [task]).length + (state.queued.erase task).length = _
    omega
  · exact fun _ => List.mem_of_mem_erase
  · intro place
    have count := List.countP_erase (fun task => decide (nodes[task]? = some place)) state.queued task
    have startsAt : Worker.startsAt place old = 0 := by simp [Worker.startsAt,idle]
    change (if old.node = place then (old.executed ++ [task]).length else 0) +
      (state.queued.erase task).countP (fun task => decide (nodes[task]? = some place)) = _
    rw [startsAt,count,started,node]
    by_cases here : old.node = place
    · have positive : 0 < state.queued.countP (fun task => decide (nodes[task]? = some place)) :=
        List.countP_pos_iff.mpr ⟨task,queued,decide_eq_true (here ▸ node)⟩
      simp only [here,queued,true_and,decide_true,if_true]
      omega
    · simp [here]
  · have owes : old.owes = 0 := by simp [Worker.owes,pc]
    rw [owes]
    rfl
  · change state.completed + 1 + old.starts = state.completed + old.within + (old.executed ++ [task]).length
    simp only [idle,started,Worker.within,pc]

theorem Sound.other (sound : Sound nodes state) (found : state.workers[position]? = some old) (pc : Pc)
    (tls : ThreadLocalStorage Place) (was : old.pc = .idle ∨ old.pc = .other) (is : pc = .idle ∨ pc = .other)
    (empty : pc ≠ .other → tls = ⟨[],none⟩) : Sound nodes (state.setWorker position {old with pc := pc,tls := tls}) := by
  have before := sound.workers old (List.mem_of_getElem? found)
  have faulted := before.faulted
  have idle : old.within = 0 ∧ old.uncounted = 0 ∧ old.owes = 0 ∧ old.pc ≠ .prefault ∧
      (old.beforeBarrier ↔ old.starts = 0) := by
    unfold Worker.within Worker.uncounted Worker.owes Worker.beforeBarrier
    obtain was | was := was <;> simp [was]
  have still : Worker.within {old with pc := pc,tls := tls} = 0 ∧ Worker.uncounted {old with pc := pc,tls := tls} = 0 ∧
      Worker.owes {old with pc := pc,tls := tls} = 0 ∧ pc ≠ .prefault ∧
      (Worker.beforeBarrier {old with pc := pc,tls := tls} ↔ old.starts = 0) := by
    unfold Worker.within Worker.uncounted Worker.owes Worker.beforeBarrier
    obtain rfl | rfl := is <;> simp [Worker.starts]
  refine sound.stay found state rfl rfl rfl rfl rfl id ?_ ?_ ?_ sound.passed ?_
  · constructor
    · exact before.once
    · rw [still.1]
      exact Nat.zero_le _
    · rw [if_neg idle.2.2.2.1] at faulted
      rw [if_neg still.2.2.2.1]
      exact faulted
    · exact empty
    · exact fun closed => still.2.2.2.2.mpr (idle.2.2.2.2.mp (before.closed closed))
  · rw [still.2.1,idle.2.1]
  · rw [still.2.2.1,idle.2.2.1]
  · rw [still.1,idle.1]

theorem Sound.spawn (sound : Sound nodes state) (more : state.spawned < nodes.length) :
    Sound nodes {state with queued := state.queued ++ [state.spawned],spawned := state.spawned + 1} := by
  have spawned := sound.spawned
  refine ⟨sound.same,sound.workers,sound.counted,?_,more,fun task inside => ?_,fun place => ?_,sound.gate,sound.passed,
    sound.completed⟩
  · dsimp only
    rw [List.length_append,List.length_singleton]
    omega
  · obtain before | last := List.mem_append.mp inside
    · exact Nat.lt_succ_of_lt (sound.named task before)
    · rw [List.mem_singleton.mp last]
      exact Nat.lt_succ_self _
  · have before := sound.shared place
    dsimp only
    rw [List.range_succ,List.countP_append,List.countP_append]
    omega

theorem Sound.step (sound : Sound nodes state) {action : Action Place}
    (stepped : Prefault.step call nodes state action = some next) : Sound nodes next := by
  cases action with
  | spawn =>
    simp only [Prefault.step] at stepped
    split at stepped
    next more =>
      obtain rfl := Option.some.inj stepped
      exact sound.spawn more
    next => cases stepped
  | take position task =>
    simp only [Prefault.step] at stepped
    split at stepped
    next node tls executed prefaulted found =>
      split at stepped
      next free =>
        obtain rfl := Option.some.inj stepped
        exact sound.take found rfl free.1 free.2
      next => cases stepped
    next => cases stepped
  | begin position places =>
    simp only [Prefault.step] at stepped
    split at stepped
    next node tls executed prefaulted found =>
      obtain rfl := Option.some.inj stepped
      exact sound.other found .other (tls.pushAll places) (.inl rfl) (.inr rfl) fun contrary => absurd rfl contrary
    next => cases stepped
  | finish position =>
    simp only [Prefault.step] at stepped
    split at stepped
    next node tls executed prefaulted found =>
      obtain rfl := Option.some.inj stepped
      exact sound.other found .idle tls.popAll.2 (.inr rfl) (.inl rfl) fun _ => rfl
    next => cases stepped
  | go position =>
    obtain ⟨worker,found,went⟩ := Option.bind_eq_some_iff.mp stepped
    exact sound.go found went

theorem sound_create (some_ : 0 < nodes.length) : Sound nodes (State.create nodes : State Place) := by
  have fresh (worker : Worker Place) (inside : worker ∈ (State.create nodes : State Place).workers) :
      ∃ node, worker = ⟨node,.idle,.fresh,[],[]⟩ := by
    obtain ⟨node,_,rfl⟩ := List.mem_map.mp inside
    exact ⟨node,rfl⟩
  have none_ (weight : Worker Place → Nat) (light : ∀ node, weight ⟨node,.idle,.fresh,[],[]⟩ = 0) :
      total weight (State.create nodes : State Place).workers = 0 := by
    apply total_eq_zero.mpr
    intro worker inside
    obtain ⟨node,rfl⟩ := fresh worker inside
    exact light node
  have closed : ¬(State.create nodes : State Place).opened nodes := Nat.ne_of_lt some_
  constructor
  · rw [State.create,List.map_map]
    exact List.map_id nodes
  · intro worker inside
    obtain ⟨node,rfl⟩ := fresh worker inside
    exact ⟨Nat.zero_le 1,Nat.le_refl 0,rfl,fun _ => rfl,fun _ => rfl⟩
  · rw [none_ _ fun _ => rfl,none_ _ fun _ => rfl]
    rfl
  · rw [none_ _ fun _ => rfl]
    rfl
  · exact Nat.zero_le _
  · exact fun task contrary => by cases contrary
  · intro node
    rw [none_ _ fun other => by simp [Worker.startsAt,Worker.starts]]
    rfl
  · rw [none_ _ fun _ => rfl,State.gate,if_neg closed]
    rfl
  · exact fun contrary => absurd contrary (Nat.lt_irrefl 0)
  · rw [none_ _ fun _ => rfl,none_ _ fun _ => rfl]
    rfl

theorem Sound.length (sound : Sound nodes state) : state.workers.length = nodes.length := by
  rw [← sound.same,List.length_map]

theorem Sound.all_started (sound : Sound nodes state) (all : nodes.length ≤ total Worker.starts state.workers)
    (inside : worker ∈ state.workers) : worker.starts = 1 :=
  eq_one_of_full Worker.starts (fun other also => (sound.workers other also).once) (sound.length ▸ all) inside

theorem Sound.own_of_started (sound : Sound nodes state) (inside : worker ∈ state.workers) (started : worker.starts = 1)
    (later : worker.uncounted = 0 ∨ worker.within = 0) : worker.prefaulted = [none] := by
  have faulted := (sound.workers worker inside).faulted
  have begun : worker.pc ≠ .prefault := by
    intro pc
    simp [Worker.uncounted,Worker.within,pc] at later
  rw [faulted,started,if_neg begun]
  rfl

/-- What the call promises of a state. -/
structure Correct (nodes : List Nat) (state : State Place) : Prop where
  once : ∀ worker ∈ state.workers, worker.executed.length ≤ 1
  barrier : 0 < state.passed → ∀ worker ∈ state.workers, worker.prefaulted = [none]
  all : state.completed = nodes.length → ∀ worker ∈ state.workers, worker.prefaulted = [none]

theorem Sound.correct (sound : Sound nodes state) : Correct nodes state := by
  have counted := sound.counted
  have spawned := sound.spawned
  have few := sound.few
  have completed := sound.completed
  refine ⟨fun worker inside => (sound.workers worker inside).once,fun some_ worker inside => ?_,fun all worker inside => ?_⟩
  · have opened : state.counter = nodes.length := sound.passed some_
    have none_ := total_eq_zero.mp (show total Worker.uncounted state.workers = 0 by omega) worker inside
    exact sound.own_of_started inside (sound.all_started (by omega) inside) (.inl none_)
  · have none_ := total_eq_zero.mp (show total Worker.within state.workers = 0 by omega) worker inside
    exact sound.own_of_started inside (sound.all_started (by omega) inside) (.inr none_)

def Goes : Action Place → Prop
  | .begin _ _ => False
  | _ => True

theorem Sound.workers_at (sound : Sound nodes state) (node : Nat) :
    total (fun worker : Worker Place => if worker.node = node then 1 else 0) state.workers =
      (List.range nodes.length).countP (fun task => nodes[task]? = some node) := by
  have listed : (List.range nodes.length).map (fun task => nodes[task]?) = nodes.map some := by
    apply List.ext_getElem?
    intro position
    obtain inside | outside := Nat.lt_or_ge position nodes.length
    · rw [List.getElem?_map,List.getElem?_map,List.getElem?_range inside]
      simp [inside]
    · rw [List.getElem?_eq_none (by simpa using outside),List.getElem?_eq_none (by simpa using outside)]
  have tasks : ((List.range nodes.length).map (fun task => nodes[task]?)).countP (fun place => place = some node) =
      (List.range nodes.length).countP (fun task => nodes[task]? = some node) := List.countP_map
  have workers : (state.workers.map Worker.node).countP (fun place => place = node) =
      state.workers.countP (fun worker => worker.node = node) := List.countP_map
  have both : (nodes.map some).countP (fun place => place = some node) = nodes.countP (fun place => some place = some node) :=
    List.countP_map
  have counted := total_eq_countP (fun worker : Worker Place => decide (worker.node = node)) state.workers
  simp only [decide_eq_true_eq] at counted
  simp only [Option.some.injEq] at both
  rw [counted,← workers,sound.same,← both,← listed,tasks]

/-- A queued task has a worker on its node that had none, once all tasks are spawned. -/
theorem Sound.free_of_queued (sound : Sound nodes state) (all : state.spawned = nodes.length) {task node : Nat}
    (queued : task ∈ state.queued) (place : nodes[task]? = some node) :
    ∃ (position : Nat) (worker : Worker Place), state.workers[position]? = some worker ∧ worker.node = node ∧
      worker.starts = 0 := by
  by_contra missing
  have shared := sound.shared node
  have here := sound.workers_at node
  have there : 0 < state.queued.countP (fun task => decide (nodes[task]? = some node)) :=
    List.countP_pos_iff.mpr ⟨task,queued,decide_eq_true place⟩
  have started : total (Worker.startsAt node) state.workers = total (fun worker : Worker Place =>
      if worker.node = node then 1 else 0) state.workers := by
    apply total_congr
    intro worker inside
    have once := (sound.workers worker inside).once
    obtain ⟨position,found⟩ := List.mem_iff_getElem?.mp inside
    unfold Worker.startsAt
    split
    next here =>
      have some_ : worker.starts ≠ 0 := fun none_ => missing ⟨position,worker,found,here,none_⟩
      omega
    next => rfl
  rw [all] at shared
  omega

theorem Sound.goes (sound : Sound nodes state) (unfinished : state.completed < nodes.length) :
    ∃ action, Goes action ∧ (Prefault.step call nodes state action).isSome = true := by
  have few := sound.few
  by_cases more : state.spawned < nodes.length
  · exact ⟨.spawn,trivial,by simp [Prefault.step,more]⟩
  have all : state.spawned = nodes.length := by omega
  by_cases busy : ∃ (position : Nat) (worker : Worker Place), state.workers[position]? = some worker ∧ worker.pc = .other
  · obtain ⟨position,⟨node,pc,tls,executed,prefaulted⟩,found,rfl⟩ := busy
    exact ⟨.finish position,trivial,by simp [Prefault.step,found]⟩
  by_cases going : ∃ (position : Nat) (worker : Worker Place), state.workers[position]? = some worker ∧
      (state.go call nodes position worker).isSome = true
  · obtain ⟨position,worker,found,goes⟩ := going
    exact ⟨.go position,trivial,by simp [Prefault.step,found,goes]⟩
  -- everybody is idle or waits
  have quiet (worker : Worker Place) (inside : worker ∈ state.workers) :
      worker.pc = .idle ∨ ∃ pf, worker.pc = .wait pf ∧ state.semaphore = 0 := by
    obtain ⟨position,found⟩ := List.mem_iff_getElem?.mp inside
    have stuck : ¬(state.go call nodes position worker).isSome = true := fun goes => going ⟨position,worker,found,goes⟩
    have free : worker.pc ≠ .other := fun other => busy ⟨position,worker,found,other⟩
    unfold State.go at stuck
    cases pc : worker.pc with
    | idle => exact .inl rfl
    | other => exact absurd pc free
    | wait pf =>
      rw [pc] at stuck
      exact .inr ⟨pf,rfl,by simpa using stuck⟩
    | prefault => simp [pc] at stuck
    | add pf => simp [pc] at stuck
    | post pf => simp [pc] at stuck
    | repost pf => simp [pc] at stuck
    | update pf => simp [pc] at stuck
  have counted := sound.counted
  have spawned := sound.spawned
  have completed := sound.completed
  have gate := sound.gate
  cases queue : state.queued with
  | cons task rest =>
    have queued : task ∈ state.queued := by simp [queue]
    have named := sound.named task queued
    obtain ⟨node,place⟩ : ∃ node, nodes[task]? = some node := ⟨_,List.getElem?_eq_getElem (all ▸ named)⟩
    obtain ⟨position,⟨at_,pc,tls,executed,prefaulted⟩,found,rfl,none_⟩ := sound.free_of_queued all queued place
    have started := (sound.workers _ (List.mem_of_getElem? found)).started
    obtain rfl | ⟨pf,rfl,_⟩ := quiet _ (List.mem_of_getElem? found)
    · exact ⟨.take position task,trivial,by simp [Prefault.step,found,queued,place]⟩
    · rw [none_] at started
      exact absurd started (Nat.not_succ_le_zero 0)
  | nil =>
    have uncounted : total Worker.uncounted state.workers = 0 := by
      apply total_eq_zero.mpr
      intro worker inside
      obtain pc | ⟨pf,pc,_⟩ := quiet worker inside <;> simp [Worker.uncounted,pc]
    have owes : total Worker.owes state.workers = 0 := by
      apply total_eq_zero.mpr
      intro worker inside
      obtain pc | ⟨pf,pc,_⟩ := quiet worker inside <;> simp [Worker.owes,pc]
    rw [queue,List.length_nil] at spawned
    have opened : state.opened nodes := by
      unfold State.opened
      omega
    rw [State.gate,if_pos opened] at gate
    have inside : total Worker.within state.workers ≠ 0 := by omega
    exfalso
    apply inside
    apply total_eq_zero.mpr
    intro worker there
    obtain pc | ⟨_,_,empty⟩ := quiet worker there
    · simp [Worker.within,pc]
    · omega

/-- Under every schedule no worker has two of the tasks, nobody passes the barrier before
all have prefaulted, and as long as tasks are left a step of them can be taken. -/
theorem prefaultWorkerThreadStorages_correct (call : Call Place) (nodes : List Nat) (some_ : 1 ≤ nodes.length)
    (actions : List (Action Place)) (final : State Place)
    (ran : run (step call nodes) (State.create nodes) actions = some final) :
    Correct nodes final ∧ (final.completed < nodes.length →
      ∃ action, Goes action ∧ (step call nodes final action).isSome = true) := by
  have sound : Sound nodes final := invariant_of_run (Sound nodes) (fun _ _ _ sound stepped => sound.step stepped)
    (sound_create some_) ran
  exact ⟨sound.correct,sound.goes⟩

/-- The workers of one node have each other's task; the first is busy at first. -/
def stolen : List (Action Nat) :=
  [.spawn,.begin 0 [5],.take 1 0,.spawn,.go 1,.go 1,.finish 0,.take 0 1,.go 0,.go 0,.go 0,.go 1,.go 1,.go 0,.go 0,.go 0,
    .go 1]

def sampleCall : Call Nat := ⟨4096,fun _ _ => 8192⟩

theorem correct_stolen : ∃ final, run (step sampleCall [3,3]) (State.create [3,3]) stolen = some final ∧
    final.completed = 2 ∧ final.minPrefault = 4096 ∧ final.workers.map Worker.prefaulted = [[none],[none]] ∧
    Correct [3,3] final := by
  have evaluated : (run (step sampleCall [3,3]) (State.create [3,3]) stolen).any (fun final => final.completed = 2 ∧
      final.minPrefault = 4096 ∧ final.workers.map Worker.prefaulted = [[none],[none]]) = true := by decide +kernel
  obtain ⟨final,ran,test⟩ := (Option.any_eq_true _ _).mp evaluated
  obtain ⟨completed,least,own⟩ := of_decide_eq_true test
  exact ⟨final,ran,completed,least,own,(prefaultWorkerThreadStorages_correct sampleCall [3,3] (by decide) stolen final ran).1⟩

end Pgasus.Prefault
