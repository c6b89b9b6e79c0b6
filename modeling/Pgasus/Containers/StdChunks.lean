import Pgasus.Containers.Distributed

/-! `std_for_each_distr`: a std container is cut into chunks whose elements have one
node by the placement policy, and the chunks of a node are its work units. Iterators
are positions in the container; the end comes after the last element. -/
namespace Pgasus.Containers
open Cursors Words

structure StdIterator where
  curr : Nat
  finish : Nat
  ordered : curr ≤ finish

/-- Elements are told apart by their positions. -/
def StdIterator.walk : Walk StdIterator Nat where
  isEnd iterator := iterator.curr = iterator.finish
  deref iterator := iterator.curr
  next iterator :=
    if before : iterator.curr < iterator.finish then ⟨iterator.curr + 1,iterator.finish,before⟩ else iterator
  rest iterator := List.range' iterator.curr (iterator.finish - iterator.curr)
  ended iterator ended := by
    rw [of_decide_eq_true ended,Nat.sub_self]
    rfl
  going iterator going := by
    have different : iterator.curr ≠ iterator.finish := of_decide_eq_false going
    have before : iterator.curr < iterator.finish := Nat.lt_of_le_of_ne iterator.ordered different
    rw [dif_pos before]
    change _ = iterator.curr :: List.range' (iterator.curr + 1) (iterator.finish - (iterator.curr + 1))
    rw [← List.range'_succ,Nat.sub_add_eq,Nat.sub_add_cancel (Nat.sub_pos_of_lt before)]

structure Chunk where
  node : Node
  elements : StdIterator

/-- The loop over the container, in as many rounds as there are elements ahead of `it`. -/
def cutLoop (policy : Nat → Node) (maxChunk size : Nat) :
    Nat → (last it : Nat) → last ≤ it → Node → Nat → List Chunk
  | 0, _, _, _, _, _ => []
  | rounds+1, last, it, ordered, currNode, currChunk =>
    let node := policy (it + 1)
    if node ≠ currNode ∨ it + 1 = size ∨ currChunk + 1 ≥ maxChunk then
      ⟨currNode,last,it + 1,Nat.le_succ_of_le ordered⟩ ::
        cutLoop policy maxChunk size rounds (it + 1) (it + 1) (Nat.le_refl _) node 0
    else cutLoop policy maxChunk size rounds last (it + 1) (Nat.le_succ_of_le ordered) currNode (currChunk + 1)

def cut (policy : Nat → Node) (maxChunk size : Nat) : List Chunk :=
  cutLoop policy maxChunk size size 0 0 (Nat.le_refl _) (policy 0) 0

/-- The nodes that `iters` has an entry for; the map compares physical identifiers. -/
def wrapperNodes (machine : Machine) : List Node := machine.logicalNodesWithCPUs ++ [Node.invalid]

def chunksOf (chunks : List Chunk) (node : Node) : List StdIterator :=
  (chunks.filter (fun chunk => chunk.node.physicalId = node.physicalId)).map Chunk.elements

/-- `StdContainerWrapper` of a container of the size; a chunk of another node finds a null pointer. -/
def stdContainerWrapper (machine : Machine) (policy : Nat → Node) (maxChunk size : Nat) : Iterable StdIterator where
  nodes := machine.logicalNodesWithCPUs
  iterate node _ :=
    let chunks := cut policy maxChunk size
    if chunks.all (fun chunk => (wrapperNodes machine).any (fun node => node.physicalId = chunk.node.physicalId)) then
      some (some (chunksOf chunks node))
    else none

/-- What `std_for_each_distr` sets as the largest size of a chunk; the division by 0 traps. -/
def stdChunkSize (size minUnits : Nat) : Option Nat := if minUnits = 0 then none else some (size / minUnits)

variable {policy : Nat → Node} {maxChunk size : Nat}

/-- What `cutLoop` promises of a chunk. -/
structure Chunk.Fits (policy : Nat → Node) (limit : Nat) (chunk : Chunk) : Prop where
  nonempty : chunk.elements.curr < chunk.elements.finish
  uniform : ∀ position, chunk.elements.curr ≤ position → position < chunk.elements.finish →
    policy position = chunk.node
  short : chunk.elements.finish - chunk.elements.curr ≤ limit

theorem cutLoop_fits (rounds last it : Nat) (ordered : last ≤ it) (currNode : Node) (currChunk : Nat)
    (counted : currChunk = it - last) (ends : it + rounds = size) (through : rounds = 0 → last = it)
    (uniform : ∀ position, last ≤ position → position ≤ it → position < size → policy position = currNode)
    (room : currChunk < max 1 maxChunk) :
    (cutLoop policy maxChunk size rounds last it ordered currNode currChunk).flatMap
        (fun chunk => StdIterator.walk.rest chunk.elements) = List.range' last (size - last) ∧
      ∀ chunk ∈ cutLoop policy maxChunk size rounds last it ordered currNode currChunk,
        chunk.Fits policy (max 1 maxChunk) := by
  induction rounds generalizing last it currNode currChunk with
  | zero =>
    have same : size - last = 0 := by
      have through := through rfl
      omega
    rw [cutLoop,same]
    exact ⟨rfl,fun _ contrary => by cases contrary⟩
  | succ rounds ih =>
    rw [cutLoop]
    split
    next cuts =>
      obtain ⟨covered,fits⟩ := ih (it + 1) (it + 1) (Nat.le_refl _) (policy (it + 1)) 0 (by omega) (by omega)
        (fun _ => rfl) (fun position from_ upTo _ => by rw [Nat.le_antisymm upTo from_]) (by omega)
      constructor
      · rw [List.flatMap_cons,covered]
        change List.range' last (it + 1 - last) ++ _ = _
        have next : it + 1 = last + (it + 1 - last) := by omega
        have all : size - last = it + 1 - last + (size - (it + 1)) := by omega
        rw [all,← List.range'_append_1,← next]
      · intro chunk member
        obtain rfl | member := List.mem_cons.mp member
        · refine ⟨Nat.lt_succ_of_le ordered,fun position from_ before => ?_,?_⟩
          · exact uniform position from_ (Nat.le_of_lt_succ before) (by
              have before : position < it + 1 := before
              omega)
          · change it + 1 - last ≤ max 1 maxChunk
            omega
        · exact fits chunk member
    next goes =>
      obtain ⟨same,more,short⟩ : policy (it + 1) = currNode ∧ it + 1 ≠ size ∧ currChunk + 1 < maxChunk := by
        simpa [not_or] using goes
      apply ih last (it + 1) (Nat.le_succ_of_le ordered) currNode (currChunk + 1)
      · omega
      · omega
      · omega
      · intro position from_ upTo bound
        obtain before | rfl := Nat.lt_or_eq_of_le upTo
        · exact uniform position from_ (Nat.le_of_lt_succ before) bound
        · exact same
      · omega

/-- The chunks make up the container in order, each with the node of its elements. -/
structure WellCut (policy : Nat → Node) (size minUnits : Nat) (chunks : List Chunk) : Prop where
  contiguous : chunks.flatMap (fun chunk => StdIterator.walk.rest chunk.elements) = List.range size
  fits : ∀ chunk ∈ chunks, chunk.Fits policy (max 1 (size / minUnits))
  many : min minUnits size ≤ chunks.length

theorem cut_fits : (cut policy maxChunk size).flatMap (fun chunk => StdIterator.walk.rest chunk.elements) = List.range size ∧
    ∀ chunk ∈ cut policy maxChunk size, chunk.Fits policy (max 1 maxChunk) := by
  rw [List.range_eq_range']
  apply cutLoop_fits size 0 0
  · rfl
  · exact Nat.zero_add size
  · exact fun _ => rfl
  · intro position _ upTo _
    rw [Nat.le_zero.mp upTo]
  · omega

theorem length_le_of_fits {limit : Nat} (chunks : List Chunk) (fits : ∀ chunk ∈ chunks, chunk.Fits policy limit) :
    (chunks.flatMap (fun chunk => StdIterator.walk.rest chunk.elements)).length ≤ chunks.length * limit := by
  induction chunks with
  | nil => exact Nat.zero_le _
  | cons chunk rest ih =>
    have short := (fits chunk List.mem_cons_self).short
    have tail := ih fun other inside => fits other (List.mem_cons_of_mem _ inside)
    have length : (StdIterator.walk.rest chunk.elements).length = chunk.elements.finish - chunk.elements.curr :=
      List.length_range'
    rw [List.flatMap_cons,List.length_append,List.length_cons,Nat.succ_mul,length]
    omega

theorem wellCut_cut {minUnits : Nat} : WellCut policy size minUnits (cut policy (size / minUnits) size) := by
  obtain ⟨contiguous,fits⟩ := @cut_fits policy (size / minUnits) size
  refine ⟨contiguous,fits,?_⟩
  have length := length_le_of_fits _ fits
  rw [contiguous,List.length_range] at length
  obtain few | enough := Nat.lt_or_ge size minUnits
  · rw [Nat.div_eq_of_lt few,Nat.max_eq_left (Nat.zero_le 1),Nat.mul_one] at length
    rw [Nat.div_eq_of_lt few]
    exact Nat.le_trans (Nat.min_le_right _ _) length
  · obtain rfl | positive := Nat.eq_zero_or_pos minUnits
    · simp
    · have limit : 1 ≤ size / minUnits := Nat.div_pos enough positive
      rw [Nat.max_eq_right limit] at length
      have units : minUnits * (size / minUnits) ≤ size := Nat.mul_div_le size minUnits
      apply Nat.le_trans (Nat.min_le_left _ _)
      exact Nat.le_of_mul_le_mul_right (Nat.le_trans units length) limit

theorem position_of {chunk : Chunk} (cuts : chunk ∈ cut policy maxChunk size) : ∃ position < size, chunk.node = policy position := by
  obtain ⟨contiguous,fits⟩ := @cut_fits policy maxChunk size
  have fit := fits chunk cuts
  refine ⟨chunk.elements.curr,?_,(fit.uniform _ (Nat.le_refl _) fit.nonempty).symm⟩
  rw [← List.mem_range,← contiguous,List.mem_flatMap]
  refine ⟨chunk,cuts,?_⟩
  change _ ∈ List.range' _ _
  rw [List.mem_range'_1]
  have nonempty := fit.nonempty
  omega

theorem node_of_mem_cut {machine : Machine}
    (placed : ∀ position < size, policy position = .invalid ∨ policy position ∈ machine.logicalNodesWithCPUs)
    {chunk : Chunk} (member : chunk ∈ cut policy maxChunk size) : chunk.node ∈ wrapperNodes machine := by
  obtain ⟨position,inside,same⟩ := position_of member
  rw [same]
  obtain nowhere | listed := placed position inside
  · exact List.mem_append_right _ (List.mem_singleton.mpr nowhere)
  · exact List.mem_append_left _ listed

theorem chunksOf_perm {machine : Machine} {chunks : List Chunk} (placed : ∀ chunk ∈ chunks, chunk.node ∈ wrapperNodes machine) :
    ((wrapperNodes machine).flatMap (fun node => (chunksOf chunks node).flatMap StdIterator.walk.rest)).Perm
      (chunks.flatMap (fun chunk => StdIterator.walk.rest chunk.elements)) := by
  have grouped := group_perm (fun chunk : Chunk => chunk.node.physicalId) (@Machine.nodup_physicalIds machine) chunks
  have all : chunks.filter (fun chunk => chunk.node.physicalId ∈ (machine.logicalNodesWithCPUs ++ [Node.invalid]).map
      Node.physicalId) = chunks := by
    rw [List.filter_eq_self]
    intro chunk member
    exact decide_eq_true (List.mem_map_of_mem (placed chunk member))
  rw [all,List.flatMap_map] at grouped
  have perm := grouped.flatMap_right (fun chunk : Chunk => StdIterator.walk.rest chunk.elements)
  rw [List.flatMap_assoc] at perm
  simp only [chunksOf,List.flatMap_map,wrapperNodes]
  exact perm

/-- A std container is cut as documented, and the function is applied to each element once. -/
theorem std_for_each_distr_once {Value : Type} (machine : Machine) (workers : Node → Nat)
    (manned : ∀ node ∈ machine.logicalNodesWithCPUs, 0 < workers node) (container : List Value) (policy : Nat → Node)
    (placed : ∀ position < container.length, policy position = .invalid ∨
      policy position ∈ machine.logicalNodesWithCPUs) (minUnits : Nat) (positive : 1 ≤ minUnits) :
    ∃ maxChunk, stdChunkSize container.length minUnits = some maxChunk ∧
      WellCut policy container.length minUnits (cut policy maxChunk container.length) ∧
      ForEachOnce machine workers (stdContainerWrapper machine policy maxChunk container.length) StdIterator.walk minUnits
        (List.range container.length) := by
  refine ⟨container.length / minUnits,if_neg (Nat.ne_of_gt positive),?_⟩
  have well : WellCut policy container.length minUnits (cut policy (container.length / minUnits) container.length) :=
    wellCut_cut
  refine ⟨well,?_⟩
  generalize chunked : cut policy (container.length / minUnits) container.length = chunks at well
  have nodes (chunk : Chunk) (member : chunk ∈ chunks) : chunk.node ∈ wrapperNodes machine :=
    node_of_mem_cut placed (chunked ▸ member)
  rw [← well.contiguous]
  apply ForEachOnce.of_perm _ (chunksOf_perm nodes)
  apply forEachOnce_answers (fun node => some (chunksOf chunks node))
  · exact Machine.withCPUs_nonempty
  · intro node _ count _
    have found : chunks.all (fun chunk => (wrapperNodes machine).any
        (fun node => node.physicalId = chunk.node.physicalId)) = true := by
      rw [List.all_eq_true]
      intro chunk member
      exact List.any_eq_true.mpr ⟨chunk.node,nodes chunk member,decide_eq_true rfl⟩
    simp only [stdContainerWrapper,chunked,found,if_true]
  · exact fun node inside => (Machine.mem_withCPUs.mp inside).1
  · exact fun _ => id
  · exact manned
  · exact fun _ => Machine.withCPUs_nonempty

def samplePolicy (position : Nat) : Node := if position = 2 then .invalid else ⟨0,0⟩

/-- Five elements are cut at the third, which has no node, and after every second one. -/
theorem std_for_each_distr_once_five :
    (cut samplePolicy 2 5).map (fun chunk => (chunk.elements.curr,chunk.elements.finish,chunk.node.physicalId)) =
        [(0,2,0),(2,3,-1),(3,5,0)] ∧
      ∃ maxChunk, stdChunkSize 5 2 = some maxChunk ∧ WellCut samplePolicy 5 2 (cut samplePolicy maxChunk 5) ∧
        ForEachOnce memoryNode (fun _ => 3) (stdContainerWrapper memoryNode samplePolicy maxChunk 5) StdIterator.walk 2
          (List.range 5) :=
  ⟨by decide,std_for_each_distr_once memoryNode (fun _ => 3) (fun _ _ => Nat.zero_lt_succ 2) ["a","b","c","d","e"] samplePolicy
    (by decide) 2 (by decide)⟩

end Pgasus.Containers
