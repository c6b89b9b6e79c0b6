import Pgasus.Containers.Nodes
import Pgasus.MemSource.Pointers

/-! `MemSourceCreationPlacement`: the node of an element is looked up like that of a
pointer, by the footer in front of its address. -/
namespace Pgasus.Containers
open MemSource Runs

variable (machine : Machine) (nodes : Nat → Int)

def physicalToLogicalId (physicalId : Int) : Int :=
  ((machine.logicalNodes.find? (fun node => node.physicalId = physicalId)).map Node.logicalId).getD (-1)

def logicalNode (physicalId : Int) : Node :=
  let logicalId := physicalToLogicalId machine physicalId
  if logicalId < 0 then .invalid else machine.logicalNodes.getD logicalId.toNat .invalid

def getLogicalNode (source : Nat) : Node := logicalNode machine (nodes source)

def getNodeOf (memory : Memory) (p : Nat) : Option Node := (physicalNodeOf nodes memory p).map (logicalNode machine)

def memSourceCreationPlacement (memory : Memory) (address : Nat) : Option Node := getNodeOf machine nodes memory address

/-- The footers that `get_footer_for_mem` looks at, in order. -/
def followed (memory : Memory) : Nat → Nat → Option (List Nat)
  | 0, _ => none
  | fuel+1, chunk =>
    if ChunkFooter.source memory chunk = 0 then
      (followed memory fuel (ChunkFooter.link memory chunk)).map (chunk :: ·)
    else some [chunk]

def Written (state : State) (chunk : Nat) : Prop :=
  ∃ block ∈ state.live, chunk = block.footer ∨
    block.pointer ≠ block.data ∧ chunk = ChunkFooter.fromPointer block.pointer

/-- The policy looks at footers of the allocator only, and finds the node of the source. -/
structure Placed (state : State) (source address : Nat) : Prop where
  written : ∃ chunks, followed state.memory footerFuel (ChunkFooter.fromPointer address) = some chunks ∧
    ∀ chunk ∈ chunks, Written state chunk
  node : memSourceCreationPlacement machine nodes state.memory address = some (getLogicalNode machine nodes source)

def Holds (block : Block) (address size : Nat) : Prop :=
  0 < size ∧ block.pointer ≤ address ∧ address + size ≤ block.start + block.extent

section Followed
variable {memory : Memory}

theorem head_followed {fuel chunk : Nat} {chunks : List Nat} (walked : followed memory fuel chunk = some chunks) :
    chunk ∈ chunks := by
  cases fuel with
  | zero => cases walked
  | succ fuel =>
    rw [followed] at walked
    split at walked
    next =>
      obtain ⟨rest,_,rfl⟩ := Option.map_eq_some_iff.mp walked
      exact List.mem_cons_self
    next =>
      obtain rfl := Option.some.inj walked
      exact List.mem_cons_self

end Followed

variable {machine nodes} {state : State} {block : Block} {address size : Nat}

theorem followed_pointer (laid : Laid state) (inside : block ∈ state.live) :
    ∃ chunks, followed state.memory footerFuel (ChunkFooter.fromPointer block.pointer) = some chunks ∧
      ∀ chunk ∈ chunks, Written state chunk := by
  obtain ⟨fuel,enough⟩ : ∃ fuel, footerFuel = fuel + 2 := ⟨2 ^ 64 - 2,by simp [footerFuel]⟩
  rw [enough]
  have kept := laid.kept block inside
  have real : ChunkFooter.source state.memory block.footer ≠ 0 := by
    rw [kept.source]
    exact Nat.ne_of_gt (laid.placed block inside).owner.1
  by_cases same : block.pointer = block.data
  · have footer : ChunkFooter.fromPointer block.pointer = block.footer := by simp [same,block.data_eq,ChunkFooter.fromPointer]
    refine ⟨[block.footer],?_,fun chunk member => ?_⟩
    · rw [footer,followed,if_neg real]
    · exact ⟨block,inside,.inl (List.mem_singleton.mp member)⟩
  · obtain ⟨fake,link⟩ := kept.fake same
    refine ⟨[ChunkFooter.fromPointer block.pointer,block.footer],?_,fun chunk member => ⟨block,inside,?_⟩⟩
    · rw [followed,if_pos fake,link,followed,if_neg real]
      rfl
    · rcases List.mem_cons.mp member with rfl | last
      · exact .inr ⟨same,rfl⟩
      · exact .inl (List.mem_singleton.mp last)

theorem pointer_of_written (laid : Laid state) (inside : block ∈ state.live) (holds : Holds block address size)
    (written : Written state (ChunkFooter.fromPointer address)) : address = block.pointer := by
  obtain ⟨other,also,which⟩ := written
  obtain ⟨positive,behind,within⟩ := holds
  have placed := laid.placed block inside
  have otherPlaced := laid.placed other also
  have data := block.data_eq
  have otherData := other.data_eq
  have bounds := block.footer_bounds
  have otherBounds := other.footer_bounds
  have pointer := placed.pointer
  have otherPointer := otherPlaced.pointer
  have header := otherPlaced.header
  have upto := otherPlaced.inside
  simp only [ChunkFooter.fromPointer,ChunkFooter.dataOffset_eq] at which
  by_cases same : other = block
  · subst same
    omega
  · have apart := laid.apart_of_ne inside also (Ne.symm same)
    unfold Block.Apart at apart
    omega

/-- The policy is right about an element exactly when it is what its block begins with. -/
theorem placed_iff_pointer (machine : Machine) (nodes : Nat → Int) (state : State) (laid : Laid state) (block : Block)
    (inside : block ∈ state.live) (address size : Nat) (holds : Holds block address size) :
    Placed machine nodes state block.source address ↔ address = block.pointer := by
  constructor
  · intro placed
    obtain ⟨chunks,walked,written⟩ := placed.written
    exact pointer_of_written laid inside holds (written _ (head_followed walked))
  · rintro rfl
    have present : block.pointer ≠ 0 := by
      have placed := laid.placed block inside
      have pointer := placed.pointer
      have data := block.data_eq
      omega
    refine ⟨followed_pointer laid inside,?_⟩
    rw [memSourceCreationPlacement,getNodeOf,physicalNodeOf,if_neg present,laid.found inside]
    simp only [Option.map_some,(laid.kept block inside).source,getLogicalNode]

section Vector

def vectorActions : List Action := [.alloc sampleSource 24 (gives 40 ⟨0x20010,48⟩)]

/-- The source is on the first node; what is not a source has some number there. -/
def vectorNodes (source : Nat) : Int := if source = sampleSource then 0 else 7

theorem vectorActions_run : ∃ final, run (step builtThreshold) fresh vectorActions = some final ∧ Laid final ∧
    ∃ block ∈ final.live, block.source = sampleSource ∧ block.pointer = 0x20020 ∧ Holds block 0x20020 8 ∧
      Holds block 0x20028 8 := by
  have laid : Laid fresh := (sound_create _ _ fun _ => by decide).laid
  have honest : Honest fresh (gives 40 ⟨0x20010,48⟩) := honest_gives (by decide) (by decide) (by decide)
  have kept := laid.alloc (by decide) honest (rfl : alloc builtThreshold _ fresh sampleSource 24 = _)
  exact ⟨_,rfl,kept,_,List.mem_cons_self,rfl,by decide,by unfold Holds; decide,by unfold Holds; decide⟩

theorem second_element_misplaced : ∃ final, run (step builtThreshold) fresh vectorActions = some final ∧ Laid final ∧
    ∃ block ∈ final.live, block.source = sampleSource ∧ Holds block 0x20028 8 ∧
      ¬Placed memoryNode vectorNodes final block.source 0x20028 := by
  obtain ⟨final,ran,laid,block,inside,source,pointer,_,holds⟩ := vectorActions_run
  refine ⟨final,ran,laid,block,inside,source,holds,fun placed => ?_⟩
  obtain ⟨chunks,walked,written⟩ := placed.written
  have same := pointer_of_written laid inside holds (written _ (head_followed walked))
  rw [pointer] at same
  cases same

theorem first_element_placed : ∃ final, run (step builtThreshold) fresh vectorActions = some final ∧
    ∃ block ∈ final.live, Placed memoryNode vectorNodes final block.source 0x20020 ∧
      getLogicalNode memoryNode vectorNodes block.source = ⟨0,0⟩ := by
  obtain ⟨final,ran,laid,block,inside,source,pointer,holds,_⟩ := vectorActions_run
  refine ⟨final,ran,block,inside,?_,by rw [source]; decide⟩
  exact (placed_iff_pointer memoryNode vectorNodes final laid block inside 0x20020 8 holds).mpr pointer.symm

end Vector
end Pgasus.Containers
