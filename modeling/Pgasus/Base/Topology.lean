import Pgasus.Base.NodeMapping

/-! The NUMA nodes of the machine with their distances, as `Topology` reads them at the
start, and the neighbors of a node that `Node::nearestNeighbors` picks from them. -/
namespace Pgasus
open NodeMapping Containers

namespace Topology

structure HwlocObj where
  osIndex : BitVec 32
  cpuset : List Nat

/-- What the loaded topology of hwloc, libnuma and the kernel tell. The NUMA nodes come in
the order of `next_cousin`, each with an `os_index` of its own, which may be unknown, or is a
number of the kernel's, below 1024. Of a distance file that can be opened, these are the numbers
up to the first one that cannot be read. -/
structure Hardware where
  nodes : List HwlocObj
  numaNodeSize : Nat → Int
  distanceFile : Nat → Option (List Int)
  distinct : (nodes.map HwlocObj.osIndex).Nodup
  small : ∀ node ∈ nodes, node.osIndex.toInt < 2 ^ 15

/-- A neighbor's pointer is the place in `_nodes`, which is the neighbor's id. -/
structure NumaNode where
  id : Nat
  cpus : List Nat
  distances : List Int
  nearestNeighbors : List (Int × Nat)
  memorySize : Nat

end Topology

structure Topology where
  nodes : List (Option Topology.NumaNode)
  nodeIds : List Nat
  cpuToNode : List (Option Nat)
  totalCpuCount : Nat

namespace Topology

def insertIntoVector {α : Type} (vec : List (Option α)) (idx : Nat) (val : α) : List (Option α) :=
  (vec ++ List.replicate (idx + 1 - vec.length) none).set idx (some val)

variable (hardware : Hardware)

def addNode (topology : Topology) (node : HwlocObj) : Except String Topology :=
  let nodeId := node.osIndex.toInt
  if nodeId < 0 then .error ("PGASUS Topology: Unexpected negative NUMA node id: " ++ toString nodeId)
  else
    let nodeId := nodeId.toNat
    .ok {
      nodes := insertIntoVector topology.nodes nodeId ⟨nodeId,node.cpuset,[],[],(hardware.numaNodeSize nodeId).toNat⟩
      nodeIds := topology.nodeIds ++ [nodeId]
      cpuToNode := node.cpuset.foldl (fun cpuToNode cpuId => insertIntoVector cpuToNode cpuId nodeId) topology.cpuToNode
      totalCpuCount := topology.totalCpuCount + node.cpuset.length }

/-- The loop over the cousins, with the numbers that are left in the file; the stream fails
for good at the first one that cannot be read. -/
def readDistances : List Nat → List Int → NumaNode → NumaNode
  | [], _, node => node
  | _::cousins, [], node => readDistances cousins [] node
  | cousin::cousins, distance::file, node =>
    readDistances cousins file { node with
      distances := node.distances.set cousin distance
      nearestNeighbors := node.nearestNeighbors ++ [(distance,cousin)] }

def nearer (lhs rhs : Int × Nat) : Prop := lhs.1 < rhs.1 ∨ (lhs.1 = rhs.1 ∧ lhs.2 < rhs.2)

instance : DecidableRel nearer := fun lhs rhs => inferInstanceAs (Decidable (lhs.1 < rhs.1 ∨ (lhs.1 = rhs.1 ∧ lhs.2 < rhs.2)))

def assignDistances (nodeIds : List Nat) (size : Nat) (node : NumaNode) : NumaNode :=
  let node := { node with distances := node.distances.take size ++ List.replicate (size - node.distances.length) (-1) }
  match hardware.distanceFile node.id with
  | none => node
  | some file =>
    let node := readDistances nodeIds file node
    { node with nearestNeighbors := node.nearestNeighbors.insertionSort fun lhs rhs => ¬nearer rhs lhs }

def assignAll (nodeIds : List Nat) : List Nat → List (Option NumaNode) → Except String (List (Option NumaNode))
  | [], nodes => .ok nodes
  | nodeId::rest, nodes =>
    match nodes[nodeId]?.join with
    | none => .error "node"
    | some node => assignAll nodeIds rest (nodes.set nodeId (some (assignDistances hardware nodeIds nodes.length node)))

def make : Except String Topology := do
  let topology ← hardware.nodes.foldlM (addNode hardware) ⟨[],[],[],0⟩
  let nodeIds := topology.nodeIds.insertionSort (· ≤ ·)
  let nodes ← assignAll hardware nodeIds nodeIds topology.nodes
  return { topology with nodes, nodeIds }

variable (topology : Topology) (mapping : List Int)

/-- `get_node`, for callers that use the node at once: none stands for its failed assertion and
for a null entry. -/
def getNode (n : Int) : Option NumaNode := if 0 ≤ n then topology.nodes[n.toNat]?.join else none

/-- `node_of_cpuid`, with its assertion; a CPU below the largest one may have no node. -/
def nodeOfCpuid (cpu : Int) : Option (Option Nat) :=
  if 0 ≤ cpu ∧ cpu < topology.cpuToNode.length then some topology.cpuToNode[cpu.toNat]?.join else none

def forCpuid (id : Int) : Option Node := do
  let nodeId ← (topology.nodeOfCpuid id).join
  let logical ← mapping[nodeId]?
  return ⟨int16 logical,int16 nodeId⟩

def cpuCount (node : Node) : Option Nat := (topology.getNode node.physicalId).map fun node => node.cpus.length

/-- The loop of `Node::nearestNeighbors`; none is an index outside a vector. -/
def collectNeighbors (maxCount : Nat) (withCPUsOnly : Bool) : List (Int × Nat) → List Node → Option (List Node)
  | [], neighbors => some neighbors
  | (_,physId)::rest, neighbors =>
    if neighbors.length = maxCount then some neighbors
    else do
      let logicalNeighborId ← mapping[physId]?
      if logicalNeighborId < 0 then collectNeighbors maxCount withCPUsOnly rest neighbors
      else
        let neighbor ← (logicalNodes mapping)[logicalNeighborId.toNat]?
        let skipped ← cond withCPUsOnly ((topology.cpuCount neighbor).map fun count => decide (count = 0)) (some false)
        collectNeighbors maxCount withCPUsOnly rest (if skipped then neighbors else neighbors ++ [neighbor])

def nearestNeighbors (node : Node) (maxCount : Nat) (withCPUsOnly : Bool) : Option (List Node) :=
  if node.valid then do
    let physNode ← topology.getNode node.physicalId
    collectNeighbors topology mapping maxCount withCPUsOnly physNode.nearestNeighbors []
  else none

/-! What the topology says of its nodes. -/

section Loops
variable {hardware} {α : Type} {vec : List (Option α)} {idx other : Nat} {val : α}

theorem insertIntoVector_get :
    (insertIntoVector vec idx val)[other]?.join = if other = idx then some val else vec[other]?.join := by
  rw [insertIntoVector,List.getElem?_set]
  by_cases same : idx = other
  · subst same
    rw [if_pos rfl,if_pos rfl,if_pos (by rw [List.length_append,List.length_replicate]; omega)]
    rfl
  · rw [if_neg same,if_neg (Ne.symm same),List.getElem?_append]
    split
    · rfl
    · rw [List.getElem?_replicate,List.getElem?_eq_none (by omega)]
      split <;> rfl

structure Listed (topology : Topology) : Prop where
  nodup : topology.nodeIds.Nodup
  small : ∀ id ∈ topology.nodeIds, id < 2 ^ 15
  there : ∀ id, id ∈ topology.nodeIds ↔ ∃ node, topology.nodes[id]?.join = some node
  bare : ∀ id (node : NumaNode), topology.nodes[id]?.join = some node → node.id = id ∧ node.distances = [] ∧ node.nearestNeighbors = []
  cpus : ∀ cpu id : Nat, topology.cpuToNode[cpu]?.join = some id → id ∈ topology.nodeIds

theorem cpuToNode_mem {cpuset : List Nat} {cpuToNode : List (Option Nat)} {nodeId cpu id : Nat}
    (here : (cpuset.foldl (fun cpuToNode cpuId => insertIntoVector cpuToNode cpuId nodeId) cpuToNode)[cpu]?.join = some id) :
    id = nodeId ∨ cpuToNode[cpu]?.join = some id := by
  induction cpuset generalizing cpuToNode with
  | nil => exact .inr here
  | cons first rest ih =>
    rcases ih here with same | before
    · exact .inl same
    · rw [insertIntoVector_get] at before
      split at before
      · exact .inl (Option.some.inj before).symm
      · exact .inr before

theorem addNode_listed {topology next : Topology} {node : HwlocObj} (listed : Listed topology)
    (added : addNode hardware topology node = .ok next) (low : node.osIndex.toInt < 2 ^ 15)
    (fresh : ∀ id ∈ topology.nodeIds, (id : Int) ≠ node.osIndex.toInt) :
    Listed next ∧ 0 ≤ node.osIndex.toInt ∧ next.nodeIds = topology.nodeIds ++ [node.osIndex.toInt.toNat] := by
  rw [addNode] at added
  split at added
  next => cases added
  next nonnegative =>
    obtain ⟨id,same⟩ := Int.eq_ofNat_of_zero_le (Int.not_lt.mp nonnegative)
    rw [same] at added low fresh ⊢
    obtain rfl := Except.ok.inj added
    rw [Int.toNat_natCast]
    have absent : id ∉ topology.nodeIds := fun member => fresh id member rfl
    refine ⟨⟨?_,fun other member => ?_,fun other => ?_,fun other node here => ?_,fun cpu other here => ?_⟩,Int.natCast_nonneg id,rfl⟩
    · exact List.nodup_append.mpr ⟨listed.nodup,List.nodup_singleton id,fun first member second only same =>
        absent (List.mem_singleton.mp only ▸ same ▸ member)⟩
    · rcases List.mem_append.mp member with before | only
      · exact listed.small other before
      · rw [List.mem_singleton.mp only]
        exact Int.ofNat_lt.mp low
    · rw [insertIntoVector_get,List.mem_append,List.mem_singleton,listed.there]
      by_cases here : other = id <;> simp [here]
    · rw [insertIntoVector_get] at here
      split at here
      next at_ =>
        obtain rfl := Option.some.inj here
        exact ⟨at_.symm,rfl,rfl⟩
      next => exact listed.bare other node here
    · rw [List.mem_append,List.mem_singleton]
      exact (cpuToNode_mem here).symm.imp_left (listed.cpus cpu other)

theorem addNodes_listed {nodes : List HwlocObj} {topology next : Topology} (listed : Listed topology)
    (low : ∀ node ∈ nodes, node.osIndex.toInt < 2 ^ 15)
    (distinct : (topology.nodeIds.map Int.ofNat ++ nodes.map fun node => node.osIndex.toInt).Nodup)
    (added : nodes.foldlM (addNode hardware) topology = .ok next) : Listed next := by
  induction nodes generalizing topology with
  | nil =>
    obtain rfl := Except.ok.inj added
    exact listed
  | cons node rest ih =>
    rw [List.foldlM_cons] at added
    cases step : addNode hardware topology node with
    | error message => rw [step] at added; cases added
    | ok middle =>
      rw [step] at added
      have fresh : ∀ id ∈ topology.nodeIds, (id : Int) ≠ node.osIndex.toInt := fun id member =>
        (List.nodup_append.mp distinct).2.2 id (List.mem_map_of_mem member) _ List.mem_cons_self
      obtain ⟨listed,nonnegative,ids⟩ := addNode_listed listed step (low node List.mem_cons_self) fresh
      refine ih listed (fun other member => low other (List.mem_cons_of_mem _ member)) ?_ added
      rw [ids,List.map_append,List.append_assoc]
      simpa [Int.toNat_of_nonneg nonnegative] using distinct

theorem assignAll_eq {nodeIds rest : List Nat} {nodes : List (Option NumaNode)} (nodup : rest.Nodup)
    (there : ∀ id ∈ rest, ∃ node, nodes[id]?.join = some node) :
    ∃ next, assignAll hardware nodeIds rest nodes = .ok next ∧ ∀ id, next[id]?.join =
      if id ∈ rest then nodes[id]?.join.map (assignDistances hardware nodeIds nodes.length) else nodes[id]?.join := by
  induction rest generalizing nodes with
  | nil => exact ⟨nodes,rfl,fun id => by simp⟩
  | cons nodeId rest ih =>
    obtain ⟨absent,nodup⟩ := List.nodup_cons.mp nodup
    obtain ⟨node,here⟩ := there nodeId List.mem_cons_self
    have inside : nodeId < nodes.length := by
      by_contra outside
      rw [List.getElem?_eq_none (Nat.not_lt.mp outside)] at here
      cases here
    have set_ (value : Option NumaNode) (id : Nat) : (nodes.set nodeId value)[id]?.join = if nodeId = id then value else nodes[id]?.join := by
      by_cases same : nodeId = id
      · subst same
        simp [inside]
      · simp [same]
    obtain ⟨next,assigned,entries⟩ := @ih (nodes.set nodeId (some (assignDistances hardware nodeIds nodes.length node))) nodup fun id member => by
      rw [set_,if_neg (show nodeId ≠ id from fun same => absent (same ▸ member))]
      exact there id (List.mem_cons_of_mem _ member)
    refine ⟨next,?_,fun id => ?_⟩
    · rw [assignAll,here]
      exact assigned
    · rw [entries,List.length_set,set_]
      by_cases same : nodeId = id
      · subst same
        simp [absent,here]
      · simp [same,Ne.symm same]

theorem readDistances_neighbors {cousins : List Nat} {file : List Int} {node : NumaNode} :
    (readDistances cousins file node).nearestNeighbors = node.nearestNeighbors ++ file.zip cousins ∧
      (readDistances cousins file node).id = node.id ∧ (readDistances cousins file node).cpus = node.cpus := by
  fun_induction readDistances cousins file node with
  | case1 => simp
  | case2 cousin cousins node ih => simpa using ih
  | case3 cousin cousins distance file node ih => simpa using ih

def Recorded (node : NumaNode) : Prop := ∀ entry ∈ node.nearestNeighbors, node.distances[entry.2]? = some entry.1

theorem readDistances_recorded {cousins : List Nat} {file : List Int} {node : NumaNode}
    (fresh : (node.nearestNeighbors.map Prod.snd ++ cousins).Nodup) (inside : ∀ cousin ∈ cousins, cousin < node.distances.length)
    (recorded : Recorded node) : Recorded (readDistances cousins file node) := by
  fun_induction readDistances cousins file node with
  | case1 => exact recorded
  | case2 cousin cousins node ih =>
    exact ih (fresh.sublist ((List.sublist_cons_self cousin cousins).append_left _))
      (fun other member => inside other (List.mem_cons_of_mem _ member)) recorded
  | case3 cousin cousins distance file node ih =>
    refine ih ?_ (fun other member => ?_) fun entry member => ?_
    · simpa using fresh
    · rw [List.length_set]
      exact inside other (List.mem_cons_of_mem _ member)
    · rcases List.mem_append.mp member with before | only
      · have other : cousin ≠ entry.2 := fun same =>
          (List.nodup_append.mp fresh).2.2 entry.2 (List.mem_map_of_mem before) cousin List.mem_cons_self same.symm
        rw [List.getElem?_set_ne other]
        exact recorded entry before
      · obtain rfl := List.mem_singleton.mp only
        exact List.getElem?_set_self (inside cousin List.mem_cons_self)

end Loops

instance : Std.Total fun lhs rhs => ¬nearer rhs lhs := ⟨fun lhs rhs => by unfold nearer; omega⟩

instance : IsTrans (Int × Nat) fun lhs rhs => ¬nearer rhs lhs := ⟨fun first second third => by unfold nearer; omega⟩

structure NumaNode.Described (nodeIds : List Nat) (node : NumaNode) : Prop where
  neighbors : node.nearestNeighbors.Perm (((hardware.distanceFile node.id).getD []).zip nodeIds)
  sorted : node.nearestNeighbors.Pairwise nearer
  recorded : Recorded node

structure Describes (topology : Topology) : Prop where
  sorted : topology.nodeIds.Pairwise (· < ·)
  small : ∀ id ∈ topology.nodeIds, id < 2 ^ 15
  there : ∀ id, id ∈ topology.nodeIds ↔ ∃ node, topology.nodes[id]?.join = some node
  described : ∀ id (node : NumaNode), topology.nodes[id]?.join = some node → node.id = id ∧ node.Described hardware topology.nodeIds
  cpus : ∀ cpu id : Nat, topology.cpuToNode[cpu]?.join = some id → id ∈ topology.nodeIds

theorem zip_snd_sublist {α β : Type} (left : List α) (right : List β) : ((left.zip right).map Prod.snd).Sublist right := by
  induction right generalizing left with
  | nil => simp
  | cons _ rest ih =>
    cases left with
    | nil => exact List.nil_sublist _
    | cons _ left => exact (ih left).cons_cons _

section Make
variable {hardware} {topology : Topology}

theorem assignDistances_described {nodeIds : List Nat} {size : Nat} {node : NumaNode} (nodup : nodeIds.Nodup)
    (fits : ∀ id ∈ nodeIds, id < size) (bare : node.distances = [] ∧ node.nearestNeighbors = []) :
    (assignDistances hardware nodeIds size node).id = node.id ∧ (assignDistances hardware nodeIds size node).Described hardware nodeIds := by
  obtain ⟨id,cpus,distances,neighbors,memory⟩ := node
  obtain ⟨rfl,rfl⟩ := bare
  rw [assignDistances]
  dsimp only
  cases opened : hardware.distanceFile id with
  | none => exact ⟨rfl,by simp [opened],.nil,nofun⟩
  | some file =>
    dsimp only
    let resized : NumaNode := ⟨id,cpus,([] : List Int).take size ++ List.replicate (size - ([] : List Int).length) (-1),[],memory⟩
    obtain ⟨zipped,same,_⟩ := @readDistances_neighbors nodeIds file resized
    have recorded : Recorded (readDistances nodeIds file resized) := by
      apply readDistances_recorded
      · exact nodup
      · simpa [resized] using fits
      · exact nofun
    refine ⟨same,?_,?_,?_⟩
    · rw [same,opened]
      exact (List.perm_insertionSort _ _).trans (.of_eq zipped)
    · have sorted := List.pairwise_insertionSort (fun lhs rhs => ¬nearer rhs lhs) (readDistances nodeIds file resized).nearestNeighbors
      have distinct : ((readDistances nodeIds file resized).nearestNeighbors.map Prod.snd).Nodup := by
        rw [zipped]
        exact nodup.sublist (zip_snd_sublist file nodeIds)
      have apart := List.pairwise_map.mp (((List.perm_insertionSort (fun lhs rhs => ¬nearer rhs lhs) _).map Prod.snd).nodup_iff.mpr distinct)
      refine (sorted.and apart).imp fun both => ?_
      obtain ⟨order,other⟩ := both
      unfold nearer at order ⊢
      omega
    · intro entry member
      exact recorded entry ((List.perm_insertionSort _ _).mem_iff.mp member)

theorem Listed.fits (listed : Listed topology) : ∀ id ∈ topology.nodeIds, id < topology.nodes.length := by
  intro id member
  obtain ⟨node,here⟩ := (listed.there id).mp member
  by_contra outside
  rw [List.getElem?_eq_none (Nat.not_lt.mp outside)] at here
  cases here

theorem make_of_listing {listed_ : Topology} (listing : hardware.nodes.foldlM (addNode hardware) ⟨[],[],[],0⟩ = .ok listed_) :
    ∃ topology, make hardware = .ok topology ∧ Describes hardware topology := by
  have start : Listed ⟨[],[],[],0⟩ :=
    ⟨.nil,nofun,fun id => by simp,fun _ _ here => by simp at here,fun _ _ here => by simp at here⟩
  have distinct : ((hardware.nodes.map HwlocObj.osIndex).map BitVec.toInt).Nodup :=
    hardware.distinct.map fun _ _ => BitVec.eq_of_toInt_eq
  rw [List.map_map] at distinct
  have listed := addNodes_listed start hardware.small distinct listing
  let nodeIds := listed_.nodeIds.insertionSort (· ≤ ·)
  have perm : nodeIds.Perm listed_.nodeIds := List.perm_insertionSort (· ≤ ·) listed_.nodeIds
  have nodup : nodeIds.Nodup := perm.nodup_iff.mpr listed.nodup
  have fits : ∀ id ∈ nodeIds, id < listed_.nodes.length := fun id member => listed.fits id (perm.mem_iff.mp member)
  obtain ⟨nodes,assigned,entries⟩ := @assignAll_eq hardware nodeIds nodeIds listed_.nodes nodup fun id member =>
    (listed.there id).mp (perm.mem_iff.mp member)
  refine ⟨{listed_ with nodes,nodeIds},?_,?_,fun id member => listed.small id (perm.mem_iff.mp member),fun id => ?_,fun id node here => ?_,
    fun cpu id here => perm.mem_iff.mpr (listed.cpus cpu id here)⟩
  · rw [make,listing]
    change (assignAll hardware nodeIds nodeIds listed_.nodes >>= _) = _
    rw [assigned]
    rfl
  · exact ((List.pairwise_insertionSort (· ≤ ·) _).and nodup).imp fun both => Nat.lt_of_le_of_ne both.1 both.2
  · have same : id ∈ nodeIds ↔ ∃ node, listed_.nodes[id]?.join = some node := perm.mem_iff.trans (listed.there id)
    dsimp only
    rw [entries]
    by_cases member : id ∈ nodeIds
    · obtain ⟨bare,before⟩ := same.mp member
      rw [if_pos member,before]
      exact iff_of_true member ⟨_,rfl⟩
    · rw [if_neg member]
      exact same
  · dsimp only at here ⊢
    rw [entries] at here
    split at here
    next member =>
      obtain ⟨bare,before,rfl⟩ := Option.map_eq_some_iff.mp here
      obtain ⟨rfl,empty⟩ := listed.bare id bare before
      exact assignDistances_described nodup fits empty
    next absent => exact absurd (perm.mem_iff.mpr ((listed.there id).mpr ⟨node,here⟩)) absent

theorem make_describes (built : make hardware = .ok topology) : Describes hardware topology := by
  cases listing : hardware.nodes.foldlM (addNode hardware) ⟨[],[],[],0⟩ with
  | error message =>
    rw [make,listing] at built
    cases built
  | ok listed_ =>
    obtain ⟨other,made,describes⟩ := make_of_listing listing
    obtain rfl := Except.ok.inj (made.symm.trans built)
    exact describes

end Make

/-- How the nodes come about that an application has; `Node::curr` is the one of a CPU. -/
inductive Known : Node → Prop
  | default : Known Node.invalid
  | logical {node : Node} (listed : node ∈ logicalNodes mapping) : Known node
  | cpu {node : Node} (id : Int) (found : topology.forCpuid mapping id = some node) : Known node

def distance (node other : Node) : Option Int :=
  (topology.getNode node.physicalId).bind fun physical => physical.distances[other.physicalId.toNat]?

/-- By ascending distance from the node, and then by ascending physical id. -/
def Before (node first second : Node) : Prop := ∃ near far, topology.distance node first = some near ∧
  topology.distance node second = some far ∧ (near < far ∨ (near = far ∧ first.physicalId < second.physicalId))

def wanted (withCPUsOnly : Bool) (node : Node) : Bool := !withCPUsOnly || (topology.cpuCount node).any (0 < ·)

/-- So many of the configured nodes, with CPUs if it is asked for them, from the nearest one on. -/
structure Nearest (node : Node) (maxCount : Nat) (withCPUsOnly : Bool) (found : List Node) : Prop where
  first : ∃ all : List Node, all.Perm ((logicalNodes mapping).filter (topology.wanted withCPUsOnly)) ∧
    all.Pairwise (topology.Before node) ∧ found = all.take maxCount
  length : found.length = min maxCount ((logicalNodes mapping).filter (topology.wanted withCPUsOnly)).length
  nodup : found.Nodup

def located (id : Nat) : Option Node := (logicalNodes mapping).find? fun node => node.physicalId = id

def Indexed (id : Nat) : Prop := ∃ logical, mapping[id]? = some logical ∧
  if logical < 0 then located mapping id = none
  else ∃ node, (logicalNodes mapping)[logical.toNat]? = some node ∧ located mapping id = some node

def AllRead : Prop := ∀ id ∈ topology.nodeIds, ∃ file, hardware.distanceFile id = some file ∧ topology.nodeIds.length ≤ file.length

structure Configures : Prop where
  describes : Describes hardware topology
  lists : ∃ used, used ⊆ topology.nodeIds ∧ Lists used mapping
  indexed : ∀ id ∈ topology.nodeIds, Indexed mapping id

section Neighbors
variable {hardware} {topology} {mapping} {size : Nat} {used : List Nat} {node : Node} {id maxCount : Nat} {withCPUsOnly : Bool}

theorem find_unique {α : Type} {items : List α} {item : α} {test : α → Bool} (member : item ∈ items) (passes : test item = true)
    (only : ∀ other ∈ items, test other = true → other = item) : items.find? test = some item := by
  cases found : items.find? test with
  | none => exact absurd passes (List.find?_eq_none.mp found item member)
  | some other => rw [only other (List.mem_of_find?_eq_some found) (List.find?_some found)]

theorem located_listed (lists : Lists used mapping) (listed : node ∈ logicalNodes mapping) (physical : node.physicalId = id) :
    located mapping id = some node := by
  have distinct : ((logicalNodes mapping).map Node.physicalId).Nodup := List.pairwise_map.mpr (lists.ascending.imp Int.ne_of_lt)
  refine find_unique listed (decide_eq_true physical) fun other member same => ?_
  exact List.inj_on_of_nodup_map distinct member listed ((of_decide_eq_true same).trans physical.symm)

theorem located_physicalId (found : located mapping id = some node) : node.physicalId = id := by
  rw [located] at found
  simpa using List.find?_some found

theorem indexed_table (sorted : used.Pairwise (· < ·)) (subset : used ⊆ topology.nodeIds) (fits : ∀ id ∈ topology.nodeIds, id < size)
    (small : ∀ id ∈ topology.nodeIds, id < 2 ^ 15) (member : id ∈ topology.nodeIds) :
    Indexed (table size (numbering topology.nodeIds used)) id := by
  have numbers := numbers_table (sorted.imp Nat.ne_of_lt) subset fits
  have lists := lists_table sorted subset fits small
  have entries (index : Nat) := congrArg (fun ids => ids[index]?) lists.physical
  simp only [List.getElem?_map] at entries
  by_cases inside : id ∈ used
  · obtain ⟨logical,here⟩ := List.mem_iff_getElem?.mp inside
    have entry := entries logical
    rw [here] at entry
    obtain ⟨node,listed,physical⟩ := Option.map_eq_some_iff.mp entry
    refine ⟨logical,(numbers.numbered id logical).mpr here,?_⟩
    rw [if_neg (by omega),Int.toNat_natCast]
    exact ⟨node,listed,located_listed lists (List.mem_of_getElem? listed) physical⟩
  · refine ⟨-1,(numbers.unused id).mpr ⟨member,inside⟩,?_⟩
    rw [if_pos (by decide),located,List.find?_eq_none]
    intro other listed same
    have physical := List.mem_map_of_mem (f := Node.physicalId) listed
    rw [lists.physical,of_decide_eq_true same] at physical
    obtain ⟨x,member,cast⟩ := List.mem_map.mp physical
    exact inside (Int.ofNat.inj cast ▸ member)

theorem collectNeighbors_eq {entries : List (Int × Nat)} {neighbors : List Node}
    (known : ∀ entry ∈ entries, Indexed mapping entry.2 ∧ ∃ node, topology.getNode entry.2 = some node)
    (short : neighbors.length ≤ maxCount) : collectNeighbors topology mapping maxCount withCPUsOnly entries neighbors =
      some (neighbors ++ ((entries.filterMap fun entry => located mapping entry.2).filter (topology.wanted withCPUsOnly)).take
        (maxCount - neighbors.length)) := by
  induction entries generalizing neighbors with
  | nil => simp [collectNeighbors]
  | cons entry rest ih =>
    obtain ⟨distance,id⟩ := entry
    obtain ⟨⟨logical,mapped,place⟩,physical,there⟩ := known (distance,id) List.mem_cons_self
    have ih := fun neighbors short => @ih neighbors (fun entry member => known entry (List.mem_cons_of_mem _ member)) short
    rw [collectNeighbors]
    by_cases full : neighbors.length = maxCount
    · rw [if_pos full,full,Nat.sub_self,List.take_zero,List.append_nil]
    · rw [if_neg full,mapped,Option.bind_eq_bind,Option.bind_some]
      split at place
      next negative =>
        rw [if_pos negative,ih neighbors short,List.filterMap_cons,place]
      next configured =>
        obtain ⟨node,listed,found⟩ := place
        have same : node.physicalId = id := located_physicalId found
        have skipped : cond withCPUsOnly ((topology.cpuCount node).map fun count => decide (count = 0)) (some false) =
            some (!topology.wanted withCPUsOnly node) := by
          rw [wanted,cpuCount,same,there]
          cases withCPUsOnly
          · rfl
          · simp [List.length_pos_iff]
        rw [if_neg configured,listed,Option.bind_eq_bind,Option.bind_some,skipped,Option.bind_eq_bind,Option.bind_some,List.filterMap_cons,found]
        dsimp only
        cases keep : topology.wanted withCPUsOnly node with
        | false =>
          rw [Bool.not_false,if_pos rfl,ih neighbors short,List.filter_cons_of_neg (by simp [keep])]
        | true =>
          obtain ⟨left,room⟩ := Nat.exists_eq_add_of_lt (Nat.lt_of_le_of_ne short full)
          rw [Bool.not_true,if_neg Bool.false_ne_true,List.filter_cons_of_pos keep,ih (neighbors ++ [node]) (by simp; omega)]
          rw [List.length_append,List.length_singleton,show maxCount - neighbors.length = left + 1 by omega,List.take_succ_cons]
          rw [show maxCount - (neighbors.length + 1) = left by omega,List.append_assoc,List.singleton_append]

theorem before_located {physical : NumaNode} {nodeIds : List Nat} {node : Node} (here : topology.getNode node.physicalId = some physical)
    (described : physical.Described hardware nodeIds) :
    (physical.nearestNeighbors.filterMap fun entry => located mapping entry.2).Pairwise (topology.Before node) := by
  have recorded (entry : Int × Nat) (member : entry ∈ physical.nearestNeighbors) (other : Node) (at_ : located mapping entry.2 = some other) :
      topology.distance node other = some entry.1 := by
    rw [distance,here,located_physicalId at_,Option.bind_some,Int.toNat_natCast]
    exact described.recorded entry member
  rw [List.pairwise_filterMap]
  refine described.sorted.imp_of_mem ?_
  intro near far left right order first first_ second second_
  refine ⟨near.1,far.1,recorded near left first first_,recorded far right second second_,?_⟩
  rw [located_physicalId first_,located_physicalId second_,Int.ofNat_lt]
  exact order

theorem Before.ne {first second : Node} (before : topology.Before node first second) : first ≠ second := by
  rintro rfl
  obtain ⟨near,far,first,second,order⟩ := before
  obtain rfl := Option.some.inj (first.symm.trans second)
  omega

theorem configures_of_make {conversion : NodeRequest.Conversion} {envNodes : Option (List Char)} (built : make hardware = .ok topology)
    (mapped : getPhysicalToLogicalMapping conversion topology.nodeIds envNodes = .mapping mapping) :
    Configures hardware topology mapping := by
  have describes := make_describes built
  obtain ⟨size,used,sorted,subset,fits,rfl⟩ := mapping_numbers describes.sorted mapped
  exact ⟨describes,⟨used,subset,lists_table sorted subset fits describes.small⟩,
    fun id member => indexed_table sorted subset fits describes.small member⟩

theorem neighbor_mem_nodeIds {physical : NumaNode} (described : physical.Described hardware topology.nodeIds) {entry : Int × Nat}
    (read : entry ∈ physical.nearestNeighbors) : entry.2 ∈ topology.nodeIds :=
  (List.of_mem_zip (described.neighbors.mem_iff.mp read)).2

section Configured
variable (configures : Configures hardware topology mapping) {physical : NumaNode}
include configures

theorem physicalId_of_logical (listed : node ∈ logicalNodes mapping) : ∃ id ∈ topology.nodeIds, node.physicalId = id := by
  obtain ⟨used,subset,lists⟩ := configures.lists
  have member := List.mem_map_of_mem (f := Node.physicalId) listed
  rw [lists.physical] at member
  obtain ⟨id,member,same⟩ := List.mem_map.mp member
  exact ⟨id,subset member,same.symm⟩

theorem getNode_of_id (member : id ∈ topology.nodeIds) : ∃ physical, topology.getNode id = some physical ∧
    physical.id = id ∧ physical.Described hardware topology.nodeIds := by
  obtain ⟨physical,there⟩ := (configures.describes.there id).mp member
  exact ⟨physical,(if_pos (Int.natCast_nonneg id)).trans there,configures.describes.described id physical there⟩

theorem Known.physicalId (known : Known topology mapping node) (valid : node.valid = true) : ∃ id ∈ topology.nodeIds, node.physicalId = id := by
  cases known with
  | default => cases valid
  | logical listed => exact physicalId_of_logical configures listed
  | cpu cpu found =>
    rw [forCpuid,Option.bind_eq_bind,Option.bind_eq_some_iff] at found
    obtain ⟨nodeId,there,found⟩ := found
    obtain ⟨logical,_,same⟩ := Option.bind_eq_some_iff.mp found
    obtain rfl := Option.some.inj same
    rw [nodeOfCpuid] at there
    split at there
    · have member := configures.describes.cpus cpu.toNat nodeId (by simpa using there)
      have low := configures.describes.small nodeId member
      exact ⟨nodeId,member,by dsimp only; exact int16_of_lt low⟩
    · cases there

theorem nearestNeighbors_eq (valid : node.valid = true) (here : topology.getNode node.physicalId = some physical)
    (described : physical.Described hardware topology.nodeIds) : topology.nearestNeighbors mapping node maxCount withCPUsOnly =
      some (((physical.nearestNeighbors.filterMap fun entry => located mapping entry.2).filter (topology.wanted withCPUsOnly)).take maxCount) := by
  rw [nearestNeighbors,if_pos valid,here]
  refine (collectNeighbors_eq (fun entry read => ?_) (Nat.zero_le _)).trans rfl
  have member := neighbor_mem_nodeIds described read
  obtain ⟨physical,there,_⟩ := getNode_of_id configures member
  exact ⟨configures.indexed entry.2 member,physical,there⟩

theorem located_perm (described : physical.Described hardware topology.nodeIds) (read : AllRead hardware topology)
    (member : physical.id ∈ topology.nodeIds) (here : topology.getNode node.physicalId = some physical) :
    (physical.nearestNeighbors.filterMap fun entry => located mapping entry.2).Perm (logicalNodes mapping) := by
  obtain ⟨used,_,lists⟩ := configures.lists
  obtain ⟨file,opened,long⟩ := read physical.id member
  have ids : (physical.nearestNeighbors.map Prod.snd).Perm topology.nodeIds := by
    have zipped := described.neighbors.map Prod.snd
    rwa [opened,Option.getD_some,List.map_snd_zip long] at zipped
  have distinct : (logicalNodes mapping).Nodup :=
    lists.ascending.imp fun less same => absurd (congrArg Node.physicalId same) (Int.ne_of_lt less)
  rw [List.perm_ext_iff_of_nodup ((before_located here described).imp Before.ne) distinct]
  intro other
  rw [List.mem_filterMap]
  constructor
  · rintro ⟨_,_,found⟩
    exact List.mem_of_find?_eq_some found
  · intro listed
    obtain ⟨id,member,same⟩ := physicalId_of_logical configures listed
    obtain ⟨entry,read,rfl⟩ := List.mem_map.mp (ids.mem_iff.mpr member)
    exact ⟨entry,read,located_listed lists listed same⟩

end Configured

structure Mirrors (machine : Machine) (topology : Topology) (mapping : List Int) : Prop where
  nodes : machine.logicalNodes = logicalNodes mapping
  physical : ∀ (id : Nat) (physical : NumaNode), topology.getNode id = some physical →
    machine.cpus id = physical.cpus.length ∧ machine.neighbors id = physical.nearestNeighbors.map Prod.snd

theorem cpuCount_machine {machine : Machine} (mirrors : Mirrors machine topology mapping)
    (configures : Configures hardware topology mapping) (listed : node ∈ machine.logicalNodes) :
    topology.cpuCount node = some (machine.cpuCount node) := by
  rw [mirrors.nodes] at listed
  obtain ⟨id,member,same⟩ := physicalId_of_logical configures listed
  obtain ⟨physical,here,_⟩ := getNode_of_id configures member
  rw [cpuCount,same,here,Option.map_some,Machine.cpuCount,same,Int.toNat_natCast,(mirrors.physical id physical here).1]

/-- Without a limit, `nearestNeighborsWithCPUs` is the one of the machine. -/
theorem nearestNeighbors_machine {machine : Machine} (mirrors : Mirrors machine topology mapping)
    (configures : Configures hardware topology mapping) (read : AllRead hardware topology) (listed : node ∈ machine.logicalNodes)
    (room : machine.logicalNodes.length ≤ maxCount) :
    topology.nearestNeighbors mapping node maxCount true = some (machine.nearestNeighborsWithCPUs node) := by
  have valid := Machine.valid_of_mem listed
  rw [mirrors.nodes] at listed room
  obtain ⟨id,member,same⟩ := physicalId_of_logical configures listed
  obtain ⟨physical,here,rfl,described⟩ := getNode_of_id configures member
  have neighbors := (mirrors.physical physical.id physical here).2
  rw [← same] at here
  have perm := located_perm configures described read member here
  have located_ : machine.nearestNeighborsWithCPUs node =
      (physical.nearestNeighbors.filterMap fun entry => located mapping entry.2).filter fun neighbor => 0 < machine.cpuCount neighbor := by
    rw [Machine.nearestNeighborsWithCPUs,same,Int.toNat_natCast,neighbors,List.filterMap_map,mirrors.nodes]
    rfl
  have cpus : ∀ neighbor ∈ physical.nearestNeighbors.filterMap fun entry => located mapping entry.2,
      topology.wanted true neighbor = decide (0 < machine.cpuCount neighbor) := by
    intro neighbor found
    have listed := perm.mem_iff.mp found
    rw [← mirrors.nodes] at listed
    rw [wanted,cpuCount_machine mirrors configures listed]
    rfl
  rw [nearestNeighbors_eq configures valid here described,List.filter_congr cpus,located_,List.take_of_length_le]
  exact (List.length_filter_le _ _).trans (perm.length_eq.trans_le room)

theorem mirrors_of_configures (configures : Configures hardware topology mapping)
    (runs : ∃ node ∈ logicalNodes mapping, ∃ count, topology.cpuCount node = some count ∧ 0 < count) :
    ∃ machine : Machine, Mirrors machine topology mapping := by
  obtain ⟨used,_,lists⟩ := configures.lists
  obtain ⟨node,listed,count,counted,positive⟩ := runs
  obtain ⟨physical,here,rfl⟩ := Option.map_eq_some_iff.mp counted
  have inside : node.physicalId ∈ used.map Int.ofNat := lists.physical ▸ List.mem_map_of_mem listed
  obtain ⟨id,member,same⟩ := List.mem_map.mp inside
  let machine : Machine := ⟨used,fun id => (topology.getNode id).elim 0 (·.cpus.length),
    fun id => (topology.getNode id).elim [] (·.nearestNeighbors.map Prod.snd),lists.sorted,id,member,by
      rw [show (id : Int) = node.physicalId from same,here]
      exact positive⟩
  have machineLists : Lists machine.configured mapping := lists
  refine ⟨machine,machineLists.machine,fun id physical here => ?_⟩
  simp only [machine,here,Option.elim_some,and_self]

end Neighbors

/-- The neighbors of a node are the configured nodes from the nearest one on. -/
theorem nearestNeighbors_nearest (hardware : Hardware) (topology : Topology) (conversion : NodeRequest.Conversion)
    (envNodes : Option (List Char)) (mapping : List Int) (node : Node) (maxCount : Nat) (withCPUsOnly : Bool)
    (built : make hardware = .ok topology) (read : AllRead hardware topology)
    (mapped : getPhysicalToLogicalMapping conversion topology.nodeIds envNodes = .mapping mapping)
    (known : Known topology mapping node) (valid : node.valid = true) :
    ∃ found, topology.nearestNeighbors mapping node maxCount withCPUsOnly = some found ∧
      Nearest topology mapping node maxCount withCPUsOnly found := by
  have configures := configures_of_make built mapped
  obtain ⟨id,member,same⟩ := known.physicalId configures valid
  obtain ⟨physical,here,rfl,described⟩ := getNode_of_id configures member
  rw [← same] at here
  have perm := (located_perm configures described read member here).filter (topology.wanted withCPUsOnly)
  have order := (@before_located hardware topology mapping physical _ node here described).filter (topology.wanted withCPUsOnly)
  refine ⟨_,nearestNeighbors_eq configures valid here described,⟨_,perm,order,rfl⟩,?_,?_⟩
  · rw [List.length_take,perm.length_eq]
  · exact (order.imp Before.ne).sublist (List.take_sublist _ _)

/-- There is a machine with the lists of nodes, the CPU counts and the neighbors that the application gets. -/
theorem machine_agrees (hardware : Hardware) (topology : Topology) (conversion : NodeRequest.Conversion)
    (envNodes : Option (List Char)) (mapping : List Int) (built : make hardware = .ok topology) (read : AllRead hardware topology)
    (mapped : getPhysicalToLogicalMapping conversion topology.nodeIds envNodes = .mapping mapping)
    (runs : ∃ node ∈ logicalNodes mapping, ∃ count, topology.cpuCount node = some count ∧ 0 < count) :
    ∃ machine : Machine, machine.logicalNodes = logicalNodes mapping ∧ ∀ node ∈ machine.logicalNodes,
      topology.cpuCount node = some (machine.cpuCount node) ∧ ∀ maxCount, machine.logicalNodes.length ≤ maxCount →
        topology.nearestNeighbors mapping node maxCount true = some (machine.nearestNeighborsWithCPUs node) := by
  have configures := configures_of_make built mapped
  obtain ⟨machine,mirrors⟩ := mirrors_of_configures configures runs
  exact ⟨machine,mirrors.nodes,fun node listed => ⟨cpuCount_machine mirrors configures listed,fun maxCount room =>
    nearestNeighbors_machine mirrors configures read listed room⟩⟩

def gapHardware : Hardware where
  nodes := [⟨4,[0,1]⟩,⟨0,[2]⟩,⟨1,[]⟩]
  numaNodeSize _ := 1024
  distanceFile id := if id = 0 then some [10,16,21] else if id = 1 then some [16,10,16] else some [21,16,10]
  distinct := by decide
  small := by decide

def gapTopology : Topology where
  nodes := [some ⟨0,[2],[10,16,-1,-1,21],[(10,0),(16,1),(21,4)],1024⟩,some ⟨1,[],[16,10,-1,-1,16],[(10,1),(16,0),(16,4)],1024⟩,
    none,none,some ⟨4,[0,1],[21,16,-1,-1,10],[(10,4),(16,1),(21,0)],1024⟩]
  nodeIds := [0,1,4]
  cpuToNode := [some 4,some 4,some 0]
  totalCpuCount := 3

theorem gapTopology_read : AllRead gapHardware gapTopology := by
  intro id member
  have which : id = 0 ∨ id = 1 ∨ id = 4 := by simpa [gapTopology] using member
  obtain rfl | rfl | rfl := which <;> exact ⟨_,rfl,by decide⟩

/-- The neighbors with CPUs of the node with none, which are as far as each other. -/
theorem nearestNeighbors_nearest_gap : ∃ found, gapTopology.nearestNeighbors [0,1,-2,-2,2] ⟨1,1⟩ 5 true = some found ∧
    Nearest gapTopology [0,1,-2,-2,2] ⟨1,1⟩ 5 true found :=
  nearestNeighbors_nearest gapHardware gapTopology NodeRequest.glibc none [0,1,-2,-2,2] ⟨1,1⟩ 5 true rfl
    gapTopology_read rfl (.logical (by decide)) (by decide)

theorem machine_agrees_gap : ∃ machine : Machine, machine.logicalNodes = [⟨0,0⟩,⟨1,1⟩,⟨2,4⟩] ∧ ∀ node ∈ machine.logicalNodes,
    gapTopology.cpuCount node = some (machine.cpuCount node) ∧ ∀ maxCount, machine.logicalNodes.length ≤ maxCount →
      gapTopology.nearestNeighbors [0,1,-2,-2,2] node maxCount true = some (machine.nearestNeighborsWithCPUs node) := by
  obtain ⟨machine,nodes,agrees⟩ := machine_agrees gapHardware gapTopology NodeRequest.glibc none [0,1,-2,-2,2] rfl gapTopology_read rfl
    ⟨⟨0,0⟩,by decide,1,rfl,by decide⟩
  exact ⟨machine,nodes.trans (by decide),agrees⟩

end Topology
end Pgasus
