import Mathlib.Data.List.GetD
import Pgasus.Base.NodeRequest
import Pgasus.Containers.Nodes
import Pgasus.Library.Words
import Pgasus.Scheduler.Registration

/-! How many workers the scheduler of a node starts with: what the environment asks for,
within the CPUs that the node has. -/
namespace Pgasus.Startup
open Runs Words NodeRequest Registration
open Containers (Node Machine)

/-- What `sscanf` stores for "%zu", if it stores anything; a number that is too large counts
as the largest one, and one with a minus sign is negated as a word. -/
def scanSize (field : List Char) : Option Nat :=
  match (field.takeWhile fun c => c ≠ Char.ofNat 0).dropWhile isSpace with
  | [] => none
  | c::rest =>
    let digits := (if c = '+' ∨ c = '-' then rest else c::rest).takeWhile isDigit
    if digits = [] then none
    else if 2 ^ 64 ≤ digitsValue digits then some (2 ^ 64 - 1)
    else some (if c = '-' then wrap (2 ^ 64 - digitsValue digits) else digitsValue digits)

/-- `evnThreadCount`, of the value of `NUMA_THREADS`. -/
def evnThreadCount (envThreads : Option (List Char)) : Nat :=
  match envThreads with
  | none => 0
  | some envThreads =>
    match scanSize envThreads with
    | none => 0
    | some envTc => envTc

section Machine
variable (machine : Machine) (envThreads : Option (List Char))

def logicalNodeThreadCounts : List Nat :=
  machine.logicalNodes.map fun node => Registration.threadCount (machine.cpuCount node) (evnThreadCount envThreads)

def threadCount (node : Node) : Option Nat :=
  if node.valid then (logicalNodeThreadCounts machine envThreads)[node.logicalId.toNat]? else some 0

variable {machine} {envThreads} {node : Node}

theorem threadCount_eq (listed : node ∈ machine.logicalNodes) : threadCount machine envThreads node =
    some (Registration.threadCount (machine.cpuCount node) (evnThreadCount envThreads)) := by
  have valid := Machine.valid_of_mem listed
  obtain ⟨logical,physical,found,rfl⟩ := Machine.mem_logicalNodes.mp listed
  rw [threadCount,if_pos valid,logicalNodeThreadCounts,List.getElem?_map]
  have at_ : machine.logicalNodes[logical]? = some ⟨logical,physical⟩ := by
    simp [Machine.logicalNodes,List.getElem?_zipIdx,found]
  rw [Int.toNat_natCast,at_]
  rfl

end Machine

theorem threadCount_le (cores env : Nat) : Registration.threadCount cores env ≤ cores := by
  unfold Registration.threadCount
  split
  · exact Nat.le_refl cores
  · exact Nat.min_le_right env cores

theorem threadCount_pos {cores : Nat} (env : Nat) (some_ : 0 < cores) : 0 < Registration.threadCount cores env := by
  unfold Registration.threadCount
  split
  · exact some_
  · exact Nat.lt_min.mpr ⟨Nat.pos_of_ne_zero ‹_›,some_⟩

section Return
variable {state final : State} {thread : Thread} {call : Call} {before : List Bool} {loop : Loop} {stage : Stage}

theorem workMove_finished {move : Move} (moved : state.workMove call before loop stage = some move) :
    (∃ following target, move.pc = .working call before following target) ∨
      move.pc = .idle ∧ move.workers = state.workers ∧ ⟨call,before,move.workers⟩ ∈ move.finished := by
  cases stage with
  | deciding =>
    simp only [State.workMove] at moved
    split at moved <;> obtain rfl := Option.some.inj moved
    · exact .inl ⟨_,_,rfl⟩
    · exact .inl ⟨_,_,rfl⟩
    · exact .inl ⟨_,_,rfl⟩
    · exact .inr ⟨rfl,rfl,List.mem_cons_self⟩
  | entered op =>
    cases op <;>
    · simp only [State.workMove] at moved
      split at moved
      next =>
        obtain rfl := Option.some.inj moved
        exact .inl ⟨_,_,rfl⟩
      next => cases moved
  | locking op level =>
    obtain rfl := Option.some.inj moved
    exact .inl ⟨_,_,rfl⟩
  | updating op level =>
    simp only [State.workMove] at moved
    split at moved <;>
    · obtain ⟨domain,-,rfl⟩ := Option.map_eq_some_iff.mp moved
      exact .inl ⟨_,_,rfl⟩
  | listed op =>
    obtain rfl := Option.some.inj moved
    exact .inl ⟨_,_,rfl⟩
  | unlocking op level =>
    obtain rfl := Option.some.inj moved
    exact .inl ⟨_,_,rfl⟩
  | leaving op =>
    cases op <;>
    · obtain rfl := Option.some.inj moved
      exact .inl ⟨_,_,rfl⟩

theorem finished_of_idle {steps : Nat} (inv : Inv state) (here : state.pc thread = .working call before loop stage)
    (ran : run step state (List.replicate steps (.advance thread)) = some final) (idle : final.pc thread = .idle) :
    Inv final ∧ ⟨call,before,final.workers⟩ ∈ final.finished ∧ final.workers.length = before.length ∧
      ∀ other, other ≠ thread → final.pc other = state.pc other := by
  induction steps generalizing state loop stage with
  | zero =>
    obtain rfl := Option.some.inj ran
    rw [here] at idle
    cases idle
  | succ steps ih =>
    rw [List.replicate_succ] at ran
    obtain ⟨next,stepped,ran⟩ := run_cons_some ran
    have kept := inv_step inv stepped
    have length := (inv.working thread call before loop stage here).length
    obtain ⟨move,moved,gone⟩ : ∃ move, state.workMove call before loop stage = some move ∧ state.goto thread move = some next := by
      rw [step,here] at stepped
      exact Option.bind_eq_some_iff.mp stepped
    have at_ : next.pc thread = move.pc := by rw [goto_pc gone,if_pos rfl]
    have others (other : Thread) (different : other ≠ thread) : next.pc other = state.pc other := by
      rw [goto_pc gone,if_neg different]
    obtain ⟨following,target,working⟩ | ⟨done,same,entered⟩ := workMove_finished moved
    · obtain ⟨inv,entered,same,rest⟩ := ih kept (at_.trans working) ran
      exact ⟨inv,entered,same,fun other different => (rest other different).trans (others other different)⟩
    · -- an idle thread makes no more steps
      have still : steps = 0 := by
        cases steps with
        | zero => rfl
        | succ steps =>
          obtain ⟨_,more,-⟩ := run_cons_some ran
          rw [step,at_,done] at more
          cases more
      subst still
      obtain rfl := Option.some.inj ran
      refine ⟨kept,?_,?_,others⟩ <;> obtain ⟨rfl,-⟩ := goto_some gone
      · exact entered
      · rw [same,length]

end Return

section Counted
variable {workers before : List Bool} {count bound : Nat}

theorem countP_lt (bound cores : Nat) : (List.range cores).countP (· < bound) = min bound cores := by
  induction cores with
  | zero => simp
  | succ cores ih =>
    rw [List.range_succ,List.countP_append,ih]
    by_cases low : cores < bound
    · simp [low]
      omega
    · simp [low]
      omega

theorem worker_iff (below : ∀ core, core < workers.length → worker workers core = decide (core < bound))
    (counted : workers.count true = count) (core : Nat) : worker workers core = true ↔ core < count := by
  have shape : workers = (List.range workers.length).map fun core => decide (core < bound) := by
    apply List.ext_getElem
    · simp
    · intro core inside also
      have same := below core inside
      rw [worker,List.getD_eq_getElem _ _ inside] at same
      simpa using same
  have number : count = min bound workers.length := by
    rw [← counted,← countP_lt]
    conv_lhs => rw [shape]
    rw [List.count,List.countP_map]
    apply List.countP_congr
    intro core _
    simp
  by_cases inside : core < workers.length
  · rw [below core inside,number]
    simp [inside]
  · rw [worker,List.getD_eq_default _ _ (Nat.le_of_not_lt inside),number]
    simp [Nat.le_of_not_lt inside]

theorem worker_replicate (cores core : Nat) : worker (List.replicate cores false) core = false := by
  rw [worker]
  by_cases inside : core < cores
  · simp [inside]
  · rw [List.getD_eq_default _ _ (by simpa using Nat.le_of_not_lt inside)]

end Counted

/-- For every value of `NUMA_THREADS`, the constructor of a node's scheduler returns if nothing
holds it up, with workers on the lowest cores of the node and their ids in its domain: as many
as asked for and no more than the node has CPUs, but at least one where it has any. -/
theorem starts_workers (machine : Machine) (envThreads : Option (List Char)) (node : Node) (listed : node ∈ machine.logicalNodes)
    (constructor : Thread) : ∃ count steps final, threadCount machine envThreads node = some count ∧
      count ≤ machine.cpuCount node ∧ (0 < machine.cpuCount node → 0 < count) ∧
      run step (State.initial (machine.cpuCount node)) (.call constructor (.setThreadCount count)::List.replicate steps (.advance constructor)) =
        some final ∧ final.pc constructor = .idle ∧ final.domain.activeThreadIds.Nodup ∧
      ∀ core, (worker final.workers core = true ↔ core < count) ∧ (core ∈ final.domain.activeThreadIds ↔ core < count) := by
  let cores := machine.cpuCount node
  let count := Registration.threadCount cores (evnThreadCount envThreads)
  have few : count ≤ cores := threadCount_le cores _
  have allowed : (Call.setThreadCount count).allowed (State.initial cores).workers.length = true := by
    simpa [Call.allowed,State.initial] using few
  have alone : Alone (State.initial cores) constructor := fun mutex other held => by cases held
  obtain ⟨begun,gone,still,-⟩ := alone.goto ⟨.working (.setThreadCount count) (List.replicate cores false)
    ((Call.setThreadCount count).start (List.replicate cores false)) .deciding,List.replicate cores false,.create cores,[]⟩
  have called : step (State.initial cores) (.call constructor (.setThreadCount count)) = some begun :=
    (if_pos allowed).trans gone
  have here : begun.pc constructor = _ := (goto_pc gone constructor).trans (if_pos rfl)
  obtain ⟨steps,final,ran,idle⟩ := returns (inv_step (inv_initial cores) called) here still
  obtain ⟨inv,entered,length,others⟩ := finished_of_idle (inv_step (inv_initial cores) called) here ran idle
  rw [List.length_replicate] at length
  obtain ⟨counted,started⟩ : final.workers.count true = count ∧
      (Started (List.replicate cores false) final.workers ∨ Stopped (List.replicate cores false) final.workers) := inv.results _ entered
  have below : ∃ bound, ∀ core, core < final.workers.length → worker final.workers core = decide (core < bound) := by
    obtain ⟨bound,which⟩ | ⟨bound,which⟩ := started
    · refine ⟨bound,fun core inside => ?_⟩
      rw [which core (by rwa [List.length_replicate,← length]),worker_replicate,Bool.false_or]
    · refine ⟨0,fun core inside => ?_⟩
      rw [which core (by rwa [List.length_replicate,← length]),worker_replicate]
      simp
  obtain ⟨bound,below⟩ := below
  have workers (core : Nat) := worker_iff below counted core
  have free (thread : Thread) : Mutex.workers ∉ (final.pc thread).locks := by
    by_cases same : thread = constructor
    · rw [same,idle]
      exact List.not_mem_nil
    · have rests : begun.pc thread = .idle := (goto_pc gone thread).trans (if_neg same)
      rw [others thread same,rests]
      exact List.not_mem_nil
  refine ⟨count,steps,final,threadCount_eq listed,few,threadCount_pos _,?_,idle,inv.nodup,fun core => ⟨workers core,?_⟩⟩
  · rw [run_cons,called]
    exact ran
  · rw [← workers core,inv.quiet free core,active,decide_eq_true_iff]

def fourCpus : Machine := ⟨[0],fun _ => 4,fun _ => [],by decide,⟨0,by decide,by decide⟩⟩

theorem starts_workers_three : ∃ steps final,
    run step (State.initial 4) (.call 0 (.setThreadCount 3)::List.replicate steps (.advance 0)) = some final ∧
      ∀ core, core ∈ final.domain.activeThreadIds ↔ core < 3 := by
  obtain ⟨count,steps,final,counted,-,-,ran,-,-,which⟩ := starts_workers fourCpus (some " 3x".toList) ⟨0,0⟩ (by decide) 0
  obtain rfl : 3 = count := Option.some.inj ((show some 3 = threadCount fourCpus (some " 3x".toList) ⟨0,0⟩ by decide).trans counted)
  exact ⟨steps,final,ran,fun core => (which core).2⟩

example : evnThreadCount (some "-1".toList) = 2 ^ 64 - 1 := by decide

end Pgasus.Startup
