import Pgasus.Containers.Nodes
import Pgasus.Library.Cursors
import Pgasus.Library.Words

/-! The iteration that all worker threads of all nodes share. A task goes through the
work units of its own node, then of the neighbors, then of no node; the units of a
node are handed out by an atomic counter. -/
namespace Pgasus.Containers
open Cursors Words

/-- What a container offers: its nodes, and the work units of a node for a number of
units at least; no units at all is a null pointer, and no answer a trap. -/
structure Iterable (WorkUnit : Type) where
  nodes : List Node
  iterate : Node → Int → Option (Option (List WorkUnit))

structure DistributedIteration (WorkUnit : Type) where
  iterations : List (Option (List WorkUnit))
  globalIteration : Option (List WorkUnit)
  nodes : List Node

namespace DistributedIteration
variable {WorkUnit Element : Type} (machine : Machine)

/-- `_iterations.at(logicalId) = iterate(node)` for one node after another; `at` throws behind the end. -/
def collect (iterate : Node → Option (Option (List WorkUnit))) :
    List (Option (List WorkUnit)) → List Node → Option (List (Option (List WorkUnit)))
  | iterations, [] => some iterations
  | iterations, node::rest =>
    (iterate node).bind (fun units =>
      if node.logicalId.toNat < iterations.length then collect iterate (iterations.set node.logicalId.toNat units) rest
      else none)

def create (iterable : Iterable WorkUnit) (minUnits : Int) : Option (DistributedIteration WorkUnit) :=
  let count := iterable.nodes.length
  if count = 0 then none
  else
    let minNodeUnits := toInt (wrap (count + ofInt minUnits) / count)
    let reserved := (machine.logicalNodesWithCPUs.getLast?.map (fun node => node.logicalId.toNat + 1)).getD 0
    (collect (iterable.iterate · minNodeUnits) (List.replicate reserved none) machine.logicalNodesWithCPUs).bind
      (fun iterations => (iterable.iterate .invalid minNodeUnits).map (⟨iterations,·,iterable.nodes⟩))

def iteration (distributed : DistributedIteration WorkUnit) : Option Nat → Option (List WorkUnit)
  | some logical => distributed.iterations[logical]?.join
  | none => distributed.globalIteration

def units (distributed : DistributedIteration WorkUnit) (source : Option Nat) : List WorkUnit :=
  (distributed.iteration source).getD []

/-- What a task goes through on a node; a null pointer is passed over. -/
def agenda (distributed : DistributedIteration WorkUnit) (node : Node) : List (Option Nat) :=
  (some node.logicalId.toNat ::
    (machine.nearestNeighborsWithCPUs node).map (fun neighbor : Node => some neighbor.logicalId.toNat) ++ [none]).filter
      (fun source => (distributed.iteration source).isSome)

/-- `forEachThread`: a task for each worker thread of the nodes with CPUs. Only threads
of a node, which run on its CPUs, take the tasks of its scheduler. -/
def call (workers : Node → Nat) (distributed : DistributedIteration WorkUnit) : State (Option Nat) WorkUnit Element :=
  .start ((distributed.nodes.filter (fun node => machine.cpuCount node ≠ 0)).flatMap
    (fun node => List.replicate (workers node) (distributed.agenda machine node)))

def sources (distributed : DistributedIteration WorkUnit) : List (Option Nat) :=
  (machine.logicalNodesWithCPUs.map (fun node : Node => some node.logicalId.toNat) ++ [none]).filter
    (fun source => (distributed.iteration source).isSome)

variable {machine} {iterable : Iterable WorkUnit} {distributed : DistributedIteration WorkUnit}

theorem collect_some {iterate : Node → Option (Option (List WorkUnit))} (answers : Node → Option (List WorkUnit))
    (nodes : List Node) (answered : ∀ node ∈ nodes, iterate node = some (answers node))
    (distinct : nodes.Pairwise (fun first second => first.logicalId.toNat ≠ second.logicalId.toNat))
    (iterations : List (Option (List WorkUnit))) (bound : ∀ node ∈ nodes, node.logicalId.toNat < iterations.length) :
    ∃ final, collect iterate iterations nodes = some final ∧
      (∀ index, (∀ node ∈ nodes, node.logicalId.toNat ≠ index) → final[index]? = iterations[index]?) ∧
      ∀ node ∈ nodes, final[node.logicalId.toNat]? = some (answers node) := by
  induction nodes generalizing iterations with
  | nil => exact ⟨iterations,rfl,fun _ _ => rfl,fun _ contrary => by cases contrary⟩
  | cons first rest ih =>
    obtain ⟨apart,distinct⟩ := List.pairwise_cons.mp distinct
    have within := bound first List.mem_cons_self
    obtain ⟨final,collected,kept,stored⟩ := ih (fun node inside => answered node (List.mem_cons_of_mem _ inside)) distinct
      (iterations.set first.logicalId.toNat (answers first)) (fun node inside => by
        rw [List.length_set]
        exact bound node (List.mem_cons_of_mem _ inside))
    refine ⟨final,?_,fun index others => ?_,fun node inside => ?_⟩
    · rw [collect,answered first List.mem_cons_self,Option.bind_some,if_pos within]
      exact collected
    · rw [kept index fun node inside => others node (List.mem_cons_of_mem _ inside),
        List.getElem?_set_ne (others first List.mem_cons_self)]
    · obtain rfl | inside := List.mem_cons.mp inside
      · rw [kept _ fun node inside => Ne.symm (apart node inside),List.getElem?_set_self within]
      · exact stored node inside

theorem reserved_bound {node : Node} (inside : node ∈ machine.logicalNodesWithCPUs) : node.logicalId.toNat <
    (List.replicate ((machine.logicalNodesWithCPUs.getLast?.map (fun node => node.logicalId.toNat + 1)).getD 0)
      (none : Option (List WorkUnit))).length := by
  obtain ⟨last,found,bound⟩ := Machine.le_getLast inside
  rw [found,List.length_replicate]
  exact Nat.lt_succ_of_le (Int.toNat_le_toNat bound)

theorem create_some (answers : Node → Option (List WorkUnit)) {minUnits : Int} (nonempty : iterable.nodes ≠ [])
    (answered : ∀ node, node ∈ machine.logicalNodesWithCPUs ∨ node = .invalid → ∀ count,
      count = toInt (wrap (iterable.nodes.length + ofInt minUnits) / iterable.nodes.length) →
        iterable.iterate node count = some (answers node)) :
    ∃ distributed, create machine iterable minUnits = some distributed ∧ distributed.nodes = iterable.nodes ∧
      distributed.globalIteration = answers .invalid ∧
      ∀ node ∈ machine.logicalNodesWithCPUs, distributed.iteration (some node.logicalId.toNat) = answers node := by
  have some_ : iterable.nodes.length ≠ 0 := fun none_ => nonempty (List.length_eq_zero_iff.mp none_)
  have distinct : machine.logicalNodesWithCPUs.Pairwise
      (fun first second => first.logicalId.toNat ≠ second.logicalId.toNat) := by
    apply List.Pairwise.imp_of_mem _ (Machine.nodup_logicalNodes.filter _)
    intro first second inside also different same
    exact different (Machine.eq_of_logicalId (Machine.mem_withCPUs.mp inside).1 (Machine.mem_withCPUs.mp also).1 same)
  obtain ⟨iterations,collected,_,stored⟩ := collect_some answers machine.logicalNodesWithCPUs
    (fun node inside => answered node (.inl inside) _ rfl) distinct (List.replicate
      ((machine.logicalNodesWithCPUs.getLast?.map (fun node => node.logicalId.toNat + 1)).getD 0) none)
    (fun _ inside => reserved_bound inside)
  refine ⟨⟨iterations,answers .invalid,iterable.nodes⟩,?_,rfl,rfl,fun node inside => ?_⟩
  · simp only [create,if_neg some_,collected,Option.bind_some,answered .invalid (.inr rfl) _ rfl,Option.map_some]
  · simp only [iteration,stored node inside,Option.join_some]

theorem nodup_sources : (distributed.sources machine).Nodup := by
  apply List.Nodup.filter
  rw [List.nodup_append]
  refine ⟨?_,List.nodup_singleton none,?_⟩
  · apply List.Nodup.map_on
    · intro node inside other also same
      exact Machine.eq_of_logicalId (Machine.mem_withCPUs.mp inside).1 (Machine.mem_withCPUs.mp also).1
        (Option.some.inj same)
    · exact Machine.nodup_logicalNodes.filter _
  · intro first member second last
    obtain ⟨node,_,rfl⟩ := List.mem_map.mp member
    rw [List.mem_singleton.mp last]
    exact fun contrary => by cases contrary

theorem elements_sources (walk : Walk WorkUnit Element) (answers : Node → Option (List WorkUnit))
    (global : distributed.globalIteration = answers .invalid)
    (stored : ∀ node ∈ machine.logicalNodesWithCPUs, distributed.iteration (some node.logicalId.toNat) = answers node) :
    elements walk distributed.units (distributed.sources machine) =
      (machine.logicalNodesWithCPUs ++ [Node.invalid]).flatMap
        (fun node => ((answers node).getD []).flatMap walk.rest) := by
  have present (sources : List (Option Nat)) : elements walk distributed.units
      (sources.filter (fun source => (distributed.iteration source).isSome)) =
        elements walk distributed.units sources := by
    induction sources with
    | nil => rfl
    | cons source rest ih =>
      rw [List.filter_cons]
      split
      next =>
        simp only [elements,List.flatMap_cons] at ih ⊢
        rw [ih]
      next missing =>
        rw [ih]
        simp only [Option.not_isSome_iff_eq_none] at missing
        simp [elements,units,missing]
  rw [sources,present,elements,List.flatMap_append,List.flatMap_append,List.flatMap_map]
  congr 1
  · exact List.flatMap_congr fun node inside => by rw [units,stored node inside]
  · simp only [List.flatMap_singleton,units,iteration,global]

theorem call_appliesOnce (walk : Walk WorkUnit Element) {workers : Node → Nat}
    (configured : ∀ node ∈ distributed.nodes, node ∈ machine.logicalNodes)
    (owns : ∀ node ∈ machine.logicalNodesWithCPUs, node ∈ distributed.nodes)
    (manned : ∀ node ∈ machine.logicalNodesWithCPUs, 0 < workers node)
    (someone : distributed.globalIteration.isSome = true → machine.logicalNodesWithCPUs ≠ []) :
    AppliesOnce walk distributed.units (distributed.call machine workers)
      (elements walk distributed.units (distributed.sources machine)) := by
  have withCPUs {node : Node} (inside : node ∈ machine.logicalNodesWithCPUs) (source : Option Nat)
      (member : source ∈ distributed.agenda machine node) :
      ∃ agenda ∈ (distributed.nodes.filter (fun node => machine.cpuCount node ≠ 0)).flatMap
        (fun node => List.replicate (workers node) (distributed.agenda machine node)), source ∈ agenda := by
    have cpus := (Machine.mem_withCPUs.mp inside).2
    refine ⟨_,List.mem_flatMap.mpr ⟨node,List.mem_filter.mpr ⟨owns node inside,?_⟩,List.mem_replicate.mpr ⟨?_,rfl⟩⟩,member⟩
    · exact decide_eq_true (Nat.ne_of_gt cpus)
    · exact Nat.ne_of_gt (manned node inside)
  apply appliesOnce_start nodup_sources
  · intro agenda member source has
    obtain ⟨node,inNodes,copied⟩ := List.mem_flatMap.mp member
    obtain ⟨inside,cpus⟩ := List.mem_filter.mp inNodes
    rw [List.eq_of_mem_replicate copied] at has
    obtain ⟨listed,present⟩ := List.mem_filter.mp has
    refine List.mem_filter.mpr ⟨?_,present⟩
    have own : node ∈ machine.logicalNodesWithCPUs :=
      Machine.mem_withCPUs.mpr ⟨configured node inside,Nat.pos_of_ne_zero (of_decide_eq_true cpus)⟩
    rw [List.mem_append]
    obtain rfl | listed := List.mem_cons.mp listed
    · exact .inl (List.mem_map_of_mem own)
    · obtain neighbor | last := List.mem_append.mp listed
      · obtain ⟨other,near,rfl⟩ := List.mem_map.mp neighbor
        exact .inl (List.mem_map_of_mem (Machine.neighbor_mem near))
      · exact .inr last
  · intro source member
    obtain ⟨listed,present⟩ := List.mem_filter.mp member
    obtain own | last := List.mem_append.mp listed
    · obtain ⟨node,inside,rfl⟩ := List.mem_map.mp own
      exact withCPUs inside _ (List.mem_filter.mpr ⟨List.mem_cons_self,present⟩)
    · obtain rfl := List.mem_singleton.mp last
      obtain ⟨node,inside⟩ := List.exists_mem_of_ne_nil _ (someone present)
      exact withCPUs inside _ (List.mem_filter.mpr ⟨by simp,present⟩)

end DistributedIteration

section ForEach
variable {WorkUnit Element : Type} {machine : Machine} {workers : Node → Nat} {iterable : Iterable WorkUnit}
  {walk : Walk WorkUnit Element} {minUnits : Nat} {all other : List Element}

/-- `for_each_distr` traps nowhere, and under every schedule of the worker threads it
ends and has then applied the function to each of the elements once. -/
def ForEachOnce (machine : Machine) (workers : Node → Nat) (iterable : Iterable WorkUnit) (walk : Walk WorkUnit Element)
    (minUnits : Nat) (all : List Element) : Prop :=
  ∃ distributed, DistributedIteration.create machine iterable (toInt minUnits) = some distributed ∧
    AppliesOnce walk distributed.units (distributed.call machine workers) all

theorem forEachOnce_answers (answers : Node → Option (List WorkUnit)) (nonempty : iterable.nodes ≠ [])
    (answered : ∀ node, node ∈ machine.logicalNodesWithCPUs ∨ node = .invalid → ∀ count,
      count = toInt (wrap (iterable.nodes.length + ofInt (toInt minUnits)) / iterable.nodes.length) →
        iterable.iterate node count = some (answers node))
    (configured : ∀ node ∈ iterable.nodes, node ∈ machine.logicalNodes)
    (owns : ∀ node ∈ machine.logicalNodesWithCPUs, node ∈ iterable.nodes)
    (manned : ∀ node ∈ machine.logicalNodesWithCPUs, 0 < workers node)
    (someone : (answers .invalid).isSome = true → machine.logicalNodesWithCPUs ≠ []) :
    ForEachOnce machine workers iterable walk minUnits ((machine.logicalNodesWithCPUs ++ [Node.invalid]).flatMap
      (fun node => ((answers node).getD []).flatMap walk.rest)) := by
  obtain ⟨distributed,created,nodes,global,stored⟩ := DistributedIteration.create_some answers nonempty answered
  refine ⟨distributed,created,?_⟩
  rw [← DistributedIteration.elements_sources walk answers global stored]
  apply DistributedIteration.call_appliesOnce walk
  · exact nodes ▸ configured
  · exact nodes ▸ owns
  · exact manned
  · exact global ▸ someone

theorem ForEachOnce.perm (once : ForEachOnce machine workers iterable walk minUnits all)
    (also : ForEachOnce machine workers iterable walk minUnits other) : all.Perm other := by
  obtain ⟨distributed,created,applies⟩ := once
  obtain ⟨same,created_,applies_⟩ := also
  obtain rfl := Option.some.inj (created.symm.trans created_)
  exact applies.perm applies_

theorem ForEachOnce.of_perm (once : ForEachOnce machine workers iterable walk minUnits all) (same : all.Perm other) :
    ForEachOnce machine workers iterable walk minUnits other := by
  obtain ⟨distributed,created,applies⟩ := once
  exact ⟨distributed,created,applies.of_perm same⟩

end ForEach
end Pgasus.Containers
