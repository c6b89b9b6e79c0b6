import Mathlib.Data.List.Pairwise
import Pgasus.Base.Topology

/-! Where a CPU is: its node, and its place among the CPUs of the node. -/
namespace Pgasus
open NodeMapping Containers

namespace Topology

def NumaNode.coreOf (node : NumaNode) (cpuid : Int) : Int :=
  match node.cpus.findIdx? fun (cpu : Nat) => (cpu : Int) = cpuid with
  | none => -1
  | some core => core

variable (topology : Topology) (mapping : List Int)

def coreOfCpuid (cpu : Int) : Option Int := do
  let nodeId ← (topology.nodeOfCpuid cpu).join
  let node ← topology.getNode nodeId
  return node.coreOf cpu

def coresOnNode (n : Int) : Option Int :=
  if 0 ≤ n ∧ n < topology.nodes.length then
    some (match topology.nodes[n.toNat]?.join with
      | some node => node.cpus.length
      | none => -1)
  else none

def cpuids (node : Node) : Option (List Nat) := (topology.getNode node.physicalId).map NumaNode.cpus

def indexOfCpuid (node : Node) (id : Int) : Option Int := (topology.getNode node.physicalId).map (·.coreOf id)

def HwlocObj.id (node : HwlocObj) : Nat := node.osIndex.toInt.toNat

/-- The node that a CPU is assigned to: the last one that hwloc lists with it. -/
def owner (nodes : List HwlocObj) (cpu : Nat) : Option HwlocObj := nodes.reverse.find? fun node => cpu ∈ node.cpuset

/-- A CPU from this one on is listed, so that `_cpu_to_node` has an entry for this one. -/
def Reaches (nodes : List HwlocObj) (cpu : Nat) : Prop := ∃ node ∈ nodes, ∃ other ∈ node.cpuset, cpu ≤ other

instance (nodes : List HwlocObj) (cpu : Nat) : Decidable (Reaches nodes cpu) :=
  inferInstanceAs (Decidable (∃ node ∈ nodes, ∃ other ∈ node.cpuset, cpu ≤ other))

structure Assigned (nodes : List HwlocObj) (before after : Topology) : Prop where
  cpus : ∀ cpu : Nat, after.cpuToNode[cpu]?.join = ((owner nodes cpu).map HwlocObj.id).or before.cpuToNode[cpu]?.join
  sets : ∀ (id : Nat) (node : NumaNode), after.nodes[id]?.join = some node →
    (∃ listed ∈ nodes, listed.id = id ∧ node.cpus = listed.cpuset) ∨ before.nodes[id]?.join = some node
  size : ∀ cpu : Nat, cpu < after.cpuToNode.length ↔ cpu < before.cpuToNode.length ∨ Reaches nodes cpu
  known : ∀ node ∈ nodes, 0 ≤ node.osIndex.toInt
  count : after.totalCpuCount = before.totalCpuCount + (nodes.map fun node => node.cpuset.length).sum

section Assigned
variable {hardware : Hardware} {topology}

theorem cpuToNode_get (cpuset : List Nat) (nodeId cpu : Nat) (cpuToNode : List (Option Nat)) :
    (cpuset.foldl (fun cpuToNode cpuId => insertIntoVector cpuToNode cpuId nodeId) cpuToNode)[cpu]?.join =
      if cpu ∈ cpuset then some nodeId else cpuToNode[cpu]?.join := by
  induction cpuset generalizing cpuToNode with
  | nil => simp
  | cons first rest ih =>
    rw [List.foldl_cons,ih,insertIntoVector_get]
    by_cases later : cpu ∈ rest
    · simp [later]
    · simp [later]

theorem cpuToNode_lt (cpuset : List Nat) (nodeId cpu : Nat) (cpuToNode : List (Option Nat)) :
    cpu < (cpuset.foldl (fun cpuToNode cpuId => insertIntoVector cpuToNode cpuId nodeId) cpuToNode).length ↔
      cpu < cpuToNode.length ∨ ∃ other ∈ cpuset, cpu ≤ other := by
  induction cpuset generalizing cpuToNode with
  | nil => simp
  | cons first rest ih =>
    have grown : cpu < (insertIntoVector cpuToNode first nodeId).length ↔ cpu < cpuToNode.length ∨ cpu ≤ first := by
      rw [insertIntoVector,List.length_set,List.length_append,List.length_replicate]
      omega
    rw [List.foldl_cons,ih,grown,or_assoc]
    simp

theorem owner_cons (node : HwlocObj) (nodes : List HwlocObj) (cpu : Nat) :
    owner (node::nodes) cpu = (owner nodes cpu).or (if cpu ∈ node.cpuset then some node else none) := by
  rw [owner,List.reverse_cons,List.find?_append]
  by_cases inside : cpu ∈ node.cpuset <;> simp [owner,inside]

theorem addNodes_assigned {nodes : List HwlocObj} {before after : Topology}
    (added : nodes.foldlM (addNode hardware) before = .ok after) : Assigned nodes before after := by
  induction nodes generalizing before with
  | nil =>
    obtain rfl := Except.ok.inj added
    exact ⟨fun cpu => rfl,fun id node here => .inr here,fun cpu => by simp [Reaches],(fun node inside => by cases inside),rfl⟩
  | cons node rest ih =>
    rw [List.foldlM_cons] at added
    cases step : addNode hardware before node with
    | error message => rw [step] at added; cases added
    | ok middle =>
      rw [step] at added
      have later := ih added
      rw [addNode] at step
      split at step
      next => cases step
      next nonnegative =>
        obtain rfl := Except.ok.inj step
        refine ⟨fun cpu => ?_,fun id found here => ?_,fun cpu => ?_,fun other inside => ?_,?_⟩
        · rw [later.cpus,cpuToNode_get,owner_cons]
          cases owner rest cpu with
          | some last => rfl
          | none => by_cases inside : cpu ∈ node.cpuset <;> simp [inside,HwlocObj.id]
        · obtain ⟨listed,inside,same⟩ | before := later.sets id found here
          · exact .inl ⟨listed,List.mem_cons_of_mem _ inside,same⟩
          · rw [insertIntoVector_get] at before
            split at before
            next same =>
              obtain rfl := Option.some.inj before
              exact .inl ⟨node,List.mem_cons_self,same.symm,rfl⟩
            next => exact .inr before
        · rw [later.size,cpuToNode_lt,or_assoc]
          simp [Reaches]
        · obtain rfl | inside := List.mem_cons.mp inside
          · exact Int.not_lt.mp nonnegative
          · exact later.known other inside
        · rw [later.count,List.map_cons,List.sum_cons,Nat.add_assoc]

theorem readDistances_cpus (cousins : List Nat) (file : List Int) (node : NumaNode) : (readDistances cousins file node).cpus = node.cpus := by
  induction cousins generalizing file node with
  | nil => rfl
  | cons cousin rest ih =>
    cases file with
    | nil => exact ih [] node
    | cons distance file => exact ih file _

theorem assignDistances_cpus (nodeIds : List Nat) (size : Nat) (node : NumaNode) :
    (assignDistances hardware nodeIds size node).cpus = node.cpus := by
  rw [assignDistances]
  dsimp only
  split
  · rfl
  · exact readDistances_cpus _ _ _

theorem assignAll_cpus {nodeIds rest : List Nat} {nodes next : List (Option NumaNode)}
    (assigned : assignAll hardware nodeIds rest nodes = .ok next) {id : Nat} {node : NumaNode} (here : next[id]?.join = some node) :
    ∃ before, nodes[id]?.join = some before ∧ node.cpus = before.cpus := by
  induction rest generalizing nodes with
  | nil =>
    obtain rfl := Except.ok.inj assigned
    exact ⟨node,here,rfl⟩
  | cons nodeId rest ih =>
    rw [assignAll] at assigned
    split at assigned
    next => cases assigned
    next found there =>
      obtain ⟨before,at_,same⟩ := ih assigned
      rw [List.getElem?_set] at at_
      split at at_
      next equal =>
        subst equal
        split at at_
        next =>
          obtain rfl := Option.some.inj at_
          exact ⟨found,there,same.trans (assignDistances_cpus _ _ _)⟩
        next => cases at_
      next => exact ⟨before,at_,same⟩

theorem make_assigned (built : make hardware = .ok topology) : Assigned hardware.nodes ⟨[],[],[],0⟩ topology := by
  cases listing : hardware.nodes.foldlM (addNode hardware) ⟨[],[],[],0⟩ with
  | error message =>
    rw [make,listing] at built
    cases built
  | ok listed =>
    rw [make,listing] at built
    change (assignAll hardware _ _ listed.nodes >>= _) = _ at built
    cases distances : assignAll hardware (listed.nodeIds.insertionSort (· ≤ ·)) (listed.nodeIds.insertionSort (· ≤ ·)) listed.nodes with
    | error message =>
      rw [distances] at built
      cases built
    | ok nodes =>
      rw [distances] at built
      obtain rfl := Except.ok.inj built
      have assigned := addNodes_assigned listing
      refine ⟨assigned.cpus,fun id node here => .inl ?_,assigned.size,assigned.known,assigned.count⟩
      obtain ⟨before,there,same⟩ := assignAll_cpus distances here
      rw [same]
      exact (assigned.sets id before there).resolve_right (by simp)

theorem owner_mem {nodes : List HwlocObj} {cpu : Nat} {listed : HwlocObj} (owns : owner nodes cpu = some listed) :
    listed ∈ nodes ∧ cpu ∈ listed.cpuset :=
  ⟨List.mem_reverse.mp (List.mem_of_find?_eq_some owns),by simpa using List.find?_some owns⟩

theorem id_unique (built : make hardware = .ok topology) {first second : HwlocObj} (inside : first ∈ hardware.nodes)
    (also : second ∈ hardware.nodes) (same : first.id = second.id) : first = second := by
  have known := (make_assigned built).known
  apply List.inj_on_of_nodup_map hardware.distinct inside also
  apply BitVec.eq_of_toInt_eq
  have one := known first inside
  have two := known second also
  simp only [HwlocObj.id] at same
  omega

theorem node_cpus (built : make hardware = .ok topology) {id : Nat} {node : NumaNode} (here : topology.getNode id = some node) :
    ∃ listed ∈ hardware.nodes, listed.id = id ∧ node.cpus = listed.cpuset := by
  rw [getNode,if_pos (Int.natCast_nonneg id)] at here
  exact ((make_assigned built).sets id node here).resolve_right (by simp)

theorem cpuToNode_owner (built : make hardware = .ok topology) (cpu : Nat) :
    topology.cpuToNode[cpu]?.join = (owner hardware.nodes cpu).map HwlocObj.id := by
  refine ((make_assigned built).cpus cpu).trans ?_
  rw [List.getElem?_nil]
  cases owner hardware.nodes cpu <;> rfl

theorem nodeOfCpuid_eq (built : make hardware = .ok topology) (cpu : Nat) :
    topology.nodeOfCpuid cpu = if Reaches hardware.nodes cpu then some ((owner hardware.nodes cpu).map HwlocObj.id) else none := by
  have inside : (0 ≤ (cpu : Int) ∧ (cpu : Int) < topology.cpuToNode.length) ↔ Reaches hardware.nodes cpu := by
    rw [and_iff_right (Int.natCast_nonneg cpu),Int.ofNat_lt,(make_assigned built).size]
    exact or_iff_right (Nat.not_lt_zero cpu)
  simp only [nodeOfCpuid,inside,Int.toNat_natCast,cpuToNode_owner built]

theorem nodeOfCpuid_owner (built : make hardware = .ok topology) {cpu : Nat} {listed : HwlocObj}
    (owns : owner hardware.nodes cpu = some listed) : topology.nodeOfCpuid cpu = some (some listed.id) := by
  obtain ⟨inside,member⟩ := owner_mem owns
  rw [nodeOfCpuid_eq built,if_pos ⟨listed,inside,cpu,member,Nat.le_refl cpu⟩,owns,Option.map_some]

theorem getNode_owner (built : make hardware = .ok topology) {cpu : Nat} {listed : HwlocObj}
    (owns : owner hardware.nodes cpu = some listed) :
    ∃ node, topology.getNode listed.id = some node ∧ node.cpus = listed.cpuset ∧ listed.id < topology.nodes.length := by
  have describes := make_describes built
  have assigned := cpuToNode_owner built cpu
  rw [owns] at assigned
  obtain ⟨node,here⟩ := (describes.there _).mp (describes.cpus cpu listed.id assigned)
  have found : topology.getNode listed.id = some node := by
    rw [getNode,if_pos (Int.natCast_nonneg _)]
    exact here
  obtain ⟨other,inside,same,cpus⟩ := node_cpus built found
  obtain rfl := id_unique built inside (owner_mem owns).1 same
  refine ⟨node,found,cpus,?_⟩
  by_contra outside
  rw [List.getElem?_eq_none (Nat.not_lt.mp outside)] at here
  cases here

theorem coreOf_eq {node : NumaNode} {cpu core : Nat} (first : node.cpus.findIdx? (fun (other : Nat) => (other : Int) = cpu) = some core) :
    node.coreOf cpu = core := by
  rw [NumaNode.coreOf,first]

end Assigned

/-- A CPU belongs to the last node that hwloc lists with it, and has a core there, which is where
the node's list has the CPU. One that no node has belongs to none, and from behind the last one
that any node has, the assertion fails. -/
theorem cpu_lookups (hardware : Hardware) (topology : Topology) (built : make hardware = .ok topology) (cpu : Nat) :
    (topology.nodeOfCpuid cpu = if Reaches hardware.nodes cpu then some ((owner hardware.nodes cpu).map HwlocObj.id) else none) ∧
    ∀ listed, owner hardware.nodes cpu = some listed → ∃ (node : NumaNode) (core : Nat), topology.getNode listed.id = some node ∧
      node.cpus = listed.cpuset ∧ topology.coresOnNode listed.id = some (node.cpus.length : Int) ∧
      topology.coreOfCpuid cpu = some (core : Int) ∧ node.cpus[core]? = some cpu ∧
      ∀ place : Node, place.physicalId = listed.id →
        topology.cpuids place = some listed.cpuset ∧ topology.indexOfCpuid place cpu = some (core : Int) := by
  refine ⟨nodeOfCpuid_eq built cpu,fun listed owns => ?_⟩
  obtain ⟨node,here,cpus,inside⟩ := getNode_owner built owns
  have member : cpu ∈ node.cpus := cpus ▸ (owner_mem owns).2
  obtain ⟨core,first⟩ : ∃ core, node.cpus.findIdx? (fun (other : Nat) => (other : Int) = cpu) = some core := by
    rw [← Option.isSome_iff_exists,List.findIdx?_isSome,List.any_eq_true]
    exact ⟨cpu,member,by simp⟩
  have found : node.coreOf cpu = core := coreOf_eq first
  refine ⟨node,core,here,cpus,?_,?_,?_,fun place same => ?_⟩
  · have there := here
    rw [getNode,if_pos (Int.natCast_nonneg _)] at there
    rw [coresOnNode,if_pos ⟨Int.natCast_nonneg _,Int.ofNat_lt.mpr inside⟩,there]
  · rw [coreOfCpuid,nodeOfCpuid_owner built owns,Option.join_some,Option.bind_eq_bind,Option.bind_some,here]
    exact congrArg some found
  · obtain ⟨bound,same,-⟩ := List.findIdx?_eq_some_iff_getElem.mp first
    rw [List.getElem?_eq_getElem bound]
    exact congrArg some (by simpa using same)
  · rw [cpuids,indexOfCpuid,same,here,Option.map_some,Option.map_some,cpus,found]
    exact ⟨rfl,rfl⟩

theorem cpu_lookups_gap : gapTopology.nodeOfCpuid 1 = some (some 4) ∧ gapTopology.nodeOfCpuid 3 = none ∧
    ∃ (node : NumaNode) (core : Nat), gapTopology.getNode 4 = some node ∧ gapTopology.coreOfCpuid 1 = some (core : Int) ∧
      node.cpus[core]? = some 1 ∧ gapTopology.indexOfCpuid ⟨2,4⟩ 1 = some (core : Int) := by
  obtain ⟨owned,cores⟩ := cpu_lookups gapHardware gapTopology rfl 1
  obtain ⟨behind,-⟩ := cpu_lookups gapHardware gapTopology rfl 3
  obtain ⟨node,core,here,-,-,at_,same,indexed⟩ := cores ⟨4,[0,1]⟩ rfl
  exact ⟨owned,behind,node,core,here,at_,same,(indexed ⟨2,4⟩ rfl).2⟩

structure Apart (hardware : Hardware) : Prop where
  nodes : hardware.nodes.Pairwise fun first second => first.cpuset.Disjoint second.cpuset
  cpus : ∀ node ∈ hardware.nodes, node.cpuset.Nodup

theorem Apart.owner_eq {hardware : Hardware} (apart : Apart hardware) {listed : HwlocObj} {cpu : Nat}
    (inside : listed ∈ hardware.nodes) (member : cpu ∈ listed.cpuset) : owner hardware.nodes cpu = some listed := by
  obtain ⟨other,owns⟩ : ∃ other, owner hardware.nodes cpu = some other := by
    rw [← Option.isSome_iff_exists,owner,List.find?_isSome]
    exact ⟨listed,List.mem_reverse.mpr inside,by simpa using member⟩
  obtain ⟨also,has⟩ := owner_mem owns
  have same : listed = other := by
    by_contra different
    have : Std.Symm fun first second : HwlocObj => first.cpuset.Disjoint second.cpuset := ⟨fun _ _ disjoint _ first second => disjoint second first⟩
    exact apart.nodes.forall inside also different member has
  rw [owns,same]

/-- Where no CPU is listed twice, the pairs of a node and a core on it stand for the CPUs one by one. -/
theorem cores_enumerate (hardware : Hardware) (topology : Topology) (built : make hardware = .ok topology) (apart : Apart hardware)
    (id core cpu : Nat) (node : NumaNode) (here : topology.getNode id = some node) (at_ : node.cpus[core]? = some cpu) :
    topology.nodeOfCpuid cpu = some (some id) ∧ topology.coreOfCpuid cpu = some (core : Int) := by
  obtain ⟨listed,inside,rfl,cpus⟩ := node_cpus built here
  have member : cpu ∈ listed.cpuset := cpus ▸ List.mem_of_getElem? at_
  have owned := nodeOfCpuid_owner built (apart.owner_eq inside member)
  refine ⟨owned,?_⟩
  have first : node.cpus.findIdx? (fun (other : Nat) => (other : Int) = cpu) = some core := by
    obtain ⟨bound,same⟩ := List.getElem?_eq_some_iff.mp at_
    rw [List.findIdx?_eq_some_iff_getElem]
    refine ⟨bound,by simpa using same,fun before low => ?_⟩
    have distinct : node.cpus.Nodup := cpus ▸ apart.cpus listed inside
    have different : node.cpus[before] ≠ node.cpus[core] := fun equal =>
      Nat.ne_of_lt low ((List.Nodup.getElem_inj_iff distinct).mp equal)
    rw [same] at different
    simpa using different
  rw [coreOfCpuid,owned,Option.join_some,Option.bind_eq_bind,Option.bind_some,here]
  exact congrArg some (coreOf_eq first)

theorem gapHardware_apart : Apart gapHardware := ⟨by simp [gapHardware,List.Disjoint],by decide⟩

theorem cores_enumerate_gap : gapTopology.nodeOfCpuid 1 = some (some 4) ∧ gapTopology.coreOfCpuid 1 = some (1 : Int) :=
  cores_enumerate gapHardware gapTopology rfl gapHardware_apart 4 1 1 ⟨4,[0,1],[21,16,-1,-1,10],[(10,4),(16,1),(21,0)],1024⟩ rfl rfl

end Topology
end Pgasus
