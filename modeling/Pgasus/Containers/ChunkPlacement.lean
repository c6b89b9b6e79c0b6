import Pgasus.Containers.StdChunks

/-! Where `StdContainerWrapper::iterate` applies the placement policy, and which chunks it
finds a list for. The policy is asked before the test for the end, so the last time it
is asked for the node of `end()`; the lists are made for the nodes with CPUs and for none. -/
namespace Pgasus.Containers

structure Cutting where
  chunks : List Chunk
  asked : List Nat

theorem le_begin : 0 ≤ 0 := Nat.le_refl 0

theorem le_here (it : Nat) : it + 1 ≤ it + 1 := Nat.le_refl (it + 1)

/-- The loop of `cut`, which tells what the policy is applied to. -/
def iterateLoop (policy : Nat → Node) (maxChunk size : Nat) :
    Nat → (last it : Nat) → last ≤ it → Node → Nat → Cutting
  | 0, _, _, _, _, _ => ⟨[],[]⟩
  | rounds+1, last, it, ordered, currNode, currChunk =>
    let node := policy (it + 1)
    if node ≠ currNode ∨ it + 1 = size ∨ currChunk + 1 ≥ maxChunk then
      let rest := iterateLoop policy maxChunk size rounds (it + 1) (it + 1) (le_here it) node 0
      ⟨⟨currNode,last,it + 1,Nat.le_succ_of_le ordered⟩ :: rest.chunks,(it + 1) :: rest.asked⟩
    else
      let rest := iterateLoop policy maxChunk size rounds last (it + 1) (Nat.le_succ_of_le ordered) currNode (currChunk + 1)
      {rest with asked := (it + 1) :: rest.asked}

/-- The first call of `iterate`: `end()` is at the position `size`. -/
def iterateFirst (policy : Nat → Node) (maxChunk size : Nat) : Cutting :=
  let cutting := iterateLoop policy maxChunk size size 0 0 le_begin (policy 0) 0
  {cutting with asked := 0 :: cutting.asked}

variable {machine : Machine} {policy : Nat → Node} {maxChunk size : Nat}

theorem iterateLoop_spec (rounds last it : Nat) (ordered : last ≤ it) (currNode : Node) (currChunk : Nat) :
    (iterateLoop policy maxChunk size rounds last it ordered currNode currChunk).chunks =
        cutLoop policy maxChunk size rounds last it ordered currNode currChunk ∧
      (iterateLoop policy maxChunk size rounds last it ordered currNode currChunk).asked = List.range' (it + 1) rounds := by
  induction rounds generalizing last it currNode currChunk with
  | zero => exact ⟨rfl,rfl⟩
  | succ rounds ih =>
    rw [iterateLoop,cutLoop,List.range'_succ]
    split
    next =>
      obtain ⟨chunks,asked⟩ := ih (it + 1) (it + 1) (Nat.le_refl _) (policy (it + 1)) 0
      exact ⟨congrArg (_ :: ·) chunks,congrArg ((it + 1) :: ·) asked⟩
    next =>
      obtain ⟨chunks,asked⟩ := ih last (it + 1) (Nat.le_succ_of_le ordered) currNode (currChunk + 1)
      exact ⟨chunks,congrArg ((it + 1) :: ·) asked⟩

theorem iterateFirst_chunks : (iterateFirst policy maxChunk size).chunks = cut policy maxChunk size :=
  (iterateLoop_spec size 0 0 (Nat.le_refl _) (policy 0) 0).1

theorem iterateFirst_asked : (iterateFirst policy maxChunk size).asked = List.range (size + 1) := by
  rw [List.range_eq_range',List.range'_succ]
  exact congrArg (0 :: ·) (iterateLoop_spec size 0 0 (Nat.le_refl _) (policy 0) 0).2

structure Registers (machine : Machine) (policy : Nat → Node) (maxChunk size : Nat) : Prop where
  elements : ∀ position ∈ (iterateFirst policy maxChunk size).asked, position < size
  existing : ∀ chunk ∈ (iterateFirst policy maxChunk size).chunks,
    ∃ node ∈ wrapperNodes machine, node.physicalId = chunk.node.physicalId

theorem chunk_at {position : Nat} (inside : position < size) :
    ∃ chunk ∈ cut policy maxChunk size, chunk.node = policy position := by
  obtain ⟨contiguous,fits⟩ := @cut_fits policy maxChunk size
  have member : position ∈ List.range size := List.mem_range.mpr inside
  rw [← contiguous] at member
  obtain ⟨chunk,cuts,within⟩ := List.mem_flatMap.mp member
  change position ∈ List.range' _ _ at within
  rw [List.mem_range'_1] at within
  exact ⟨chunk,cuts,((fits chunk cuts).uniform position within.1 (by omega)).symm⟩

/-- The policy is always applied to the end; the chunks find their lists exactly when every
element's node is a configured one with CPUs, or none. -/
theorem iterate_asks_end (machine : Machine) (policy : Nat → Node) (maxChunk size : Nat) :
    size ∈ (iterateFirst policy maxChunk size).asked ∧ ¬Registers machine policy maxChunk size ∧
      ((∀ chunk ∈ (iterateFirst policy maxChunk size).chunks, ∃ node ∈ wrapperNodes machine, node.physicalId = chunk.node.physicalId) ↔
        ∀ position < size, ∃ node ∈ wrapperNodes machine, node.physicalId = (policy position).physicalId) := by
  have asks : size ∈ (iterateFirst policy maxChunk size).asked := by
    rw [iterateFirst_asked]
    exact List.mem_range.mpr (Nat.lt_succ_self size)
  refine ⟨asks,fun registers => Nat.lt_irrefl _ (registers.elements size asks),?_⟩
  rw [iterateFirst_chunks]
  constructor
  · intro existing position inside
    obtain ⟨chunk,cuts,same⟩ := @chunk_at policy maxChunk size position inside
    exact same ▸ existing chunk cuts
  · intro placed chunk cuts
    obtain ⟨position,inside,same⟩ := position_of cuts
    exact same ▸ placed position inside

/-- An empty container has no element, but the policy is applied to its `begin()`. -/
theorem empty_asked : (iterateFirst samplePolicy 1 0).asked = [0] ∧ ¬Registers memoryNode samplePolicy 1 0 := by
  refine ⟨rfl,fun registers => ?_⟩
  exact absurd (registers.elements 0 List.mem_cons_self) (Nat.lt_irrefl 0)

end Pgasus.Containers
