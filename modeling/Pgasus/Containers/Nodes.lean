import Mathlib.Data.List.Basic
import Mathlib.Data.List.Nodup

/-! The NUMA nodes that the application was configured to use. -/
namespace Pgasus.Containers

structure Node where
  logicalId : Int
  physicalId : Int
deriving DecidableEq

def Node.invalid : Node := ⟨-1,-1⟩

def Node.valid (node : Node) : Bool := 0 ≤ node.logicalId ∧ 0 ≤ node.physicalId

/-- The physical identifiers of the configured nodes, in the order of their logical
ones, and what the topology tells of a physical node; a neighbor may not be configured.
The application runs on a configured node, as `Node::curr` asserts. -/
structure Machine where
  configured : List Nat
  cpus : Nat → Nat
  neighbors : Nat → List Nat
  sorted : configured.Pairwise (· < ·)
  runs : ∃ node ∈ configured, 0 < cpus node

namespace Machine
variable (machine : Machine)

def logicalNodes : List Node := machine.configured.zipIdx.map (fun (physical,logical) => ⟨logical,physical⟩)

def cpuCount (node : Node) : Nat := machine.cpus node.physicalId.toNat

def logicalNodesWithCPUs : List Node := machine.logicalNodes.filter (fun node => 0 < machine.cpuCount node)

def nearestNeighborsWithCPUs (node : Node) : List Node :=
  ((machine.neighbors node.physicalId.toNat).filterMap
    (fun physical => machine.logicalNodes.find? (fun other => other.physicalId = Int.ofNat physical))).filter
      (fun neighbor => 0 < machine.cpuCount neighbor)

variable {machine} {node other : Node}

theorem mem_logicalNodes : node ∈ machine.logicalNodes ↔
    ∃ logical physical : Nat, machine.configured[logical]? = some physical ∧ node = ⟨logical,physical⟩ := by
  simp only [logicalNodes,List.mem_map,Prod.exists,List.mem_zipIdx_iff_getElem?]
  constructor
  · rintro ⟨physical,logical,found,rfl⟩
    exact ⟨logical,physical,found,rfl⟩
  · rintro ⟨logical,physical,found,rfl⟩
    exact ⟨physical,logical,found,rfl⟩

theorem eq_of_logicalId (inside : node ∈ machine.logicalNodes) (also : other ∈ machine.logicalNodes)
    (same : node.logicalId.toNat = other.logicalId.toNat) : node = other := by
  obtain ⟨logical,physical,found,rfl⟩ := mem_logicalNodes.mp inside
  obtain ⟨position,identifier,there,rfl⟩ := mem_logicalNodes.mp also
  simp only [Int.toNat_natCast] at same
  subst same
  rw [found] at there
  rw [Option.some.inj there]

theorem valid_of_mem (inside : node ∈ machine.logicalNodes) : node.valid = true := by
  obtain ⟨logical,physical,_,rfl⟩ := mem_logicalNodes.mp inside
  simp [Node.valid]

theorem sorted_logicalNodes : machine.logicalNodes.Pairwise (fun first second => first.logicalId < second.logicalId) := by
  have identifiers : machine.logicalNodes.map Node.logicalId =
      (machine.configured.zipIdx.map Prod.snd).map Int.ofNat := by
    rw [logicalNodes,List.map_map,List.map_map]
    rfl
  rw [← List.pairwise_map,identifiers,List.zipIdx_map_snd,List.pairwise_map]
  exact (List.pairwise_lt_range' 1).imp Int.ofNat_lt.mpr

theorem nodup_logicalNodes : machine.logicalNodes.Nodup :=
  sorted_logicalNodes.imp fun less same => absurd (congrArg Node.logicalId same) (Int.ne_of_lt less)

theorem mem_withCPUs : node ∈ machine.logicalNodesWithCPUs ↔ node ∈ machine.logicalNodes ∧ 0 < machine.cpuCount node := by
  simp [logicalNodesWithCPUs]

theorem withCPUs_nonempty : machine.logicalNodesWithCPUs ≠ [] := by
  obtain ⟨physical,inside,cpus⟩ := machine.runs
  obtain ⟨logical,found⟩ := List.mem_iff_getElem?.mp inside
  apply List.ne_nil_of_mem (mem_withCPUs.mpr ⟨mem_logicalNodes.mpr ⟨logical,physical,found,rfl⟩,_⟩)
  exact cpus

theorem nodup_physicalIds : ((machine.logicalNodesWithCPUs ++ [Node.invalid]).map Node.physicalId).Nodup := by
  have identifiers : machine.logicalNodes.map Node.physicalId =
      (machine.configured.zipIdx.map Prod.fst).map Int.ofNat := by
    rw [logicalNodes,List.map_map,List.map_map]
    rfl
  have distinct : (machine.logicalNodes.map Node.physicalId).Nodup := by
    rw [identifiers,List.zipIdx_map_fst]
    exact List.Nodup.map (fun _ _ => Int.ofNat.inj) (machine.sorted.imp Nat.ne_of_lt)
  rw [List.map_append,List.nodup_append]
  refine ⟨distinct.sublist (List.filter_sublist.map _),List.nodup_singleton _,?_⟩
  intro first member second last
  obtain ⟨node,inside,rfl⟩ := List.mem_map.mp member
  obtain ⟨logical,physical,_,rfl⟩ := mem_logicalNodes.mp (mem_withCPUs.mp inside).1
  rw [List.mem_singleton.mp last]
  exact fun contrary => by cases contrary

theorem neighbor_mem (inside : other ∈ machine.nearestNeighborsWithCPUs node) : other ∈ machine.logicalNodesWithCPUs := by
  obtain ⟨found,cpus⟩ := List.mem_filter.mp inside
  obtain ⟨physical,_,same⟩ := List.mem_filterMap.mp found
  exact mem_withCPUs.mpr ⟨List.mem_of_find?_eq_some same,of_decide_eq_true cpus⟩

theorem le_getLast (inside : node ∈ machine.logicalNodesWithCPUs) :
    ∃ last, machine.logicalNodesWithCPUs.getLast? = some last ∧ node.logicalId ≤ last.logicalId := by
  have sorted : machine.logicalNodesWithCPUs.Pairwise (fun first second => first.logicalId < second.logicalId) :=
    sorted_logicalNodes.filter _
  generalize machine.logicalNodesWithCPUs = nodes at inside sorted
  induction nodes generalizing node with
  | nil => cases inside
  | cons first rest ih =>
    obtain ⟨before,tail⟩ := List.pairwise_cons.mp sorted
    cases rest with
    | nil => exact ⟨first,rfl,Int.le_of_eq (congrArg Node.logicalId (List.mem_singleton.mp inside))⟩
    | cons second rest =>
      rw [List.getLast?_cons_cons]
      obtain rfl | inside := List.mem_cons.mp inside
      · obtain ⟨last,found,bound⟩ := ih List.mem_cons_self tail
        exact ⟨last,found,Int.le_of_lt (Int.lt_of_lt_of_le (before second List.mem_cons_self) bound)⟩
      · exact ih inside tail

end Machine

def memoryNode : Machine where
  configured := [0,1]
  cpus node := if node = 0 then 1 else 0
  neighbors _ := [0,1]
  sorted := by decide
  runs := ⟨0,by decide,by decide⟩

end Pgasus.Containers
