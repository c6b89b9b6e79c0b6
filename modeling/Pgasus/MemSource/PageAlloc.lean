import Pgasus.MemSource.StackedMalloc
import Pgasus.MemSource.Pointers

/-! `valloc` and `pvalloc`, which allocate at page boundaries. Where it means to round a
size up, `pvalloc` takes a remainder. -/
namespace Pgasus.MemSource
open Words

section Functions
variable (mmapThreshold : Nat) (system : System) (state : State) (self : Nat)

def valloc (size : Nat) : State × Option Block := stackedmallocAligned mmapThreshold system state self memPageSize size

/-- The size that `pvalloc` passes on. -/
def pvallocSize (size : Nat) : Nat := wrap (size + memPageSize - 1) % memPageSize

def pvalloc (size : Nat) : State × Option Block :=
  stackedmallocAligned mmapThreshold system state self memPageSize (pvallocSize size)

end Functions

/-- Null only when the allocation for the size passed on fails, and else a page-aligned
block of at least `size` bytes. -/
structure PageAllocates (mmapThreshold size passed : Nat) (serve : System → State → Nat → State × Option Block) : Prop where
  null : ∀ system state self next, serve system state self = (next,none) →
    alloc mmapThreshold system state self (alignSize memPageSize passed) = (next,none)
  block : ∀ system state self next block, Gives system → serve system state self = (next,some block) →
    block.pointer % memPageSize = 0 ∧ block.pointer + size ≤ block.start + block.extent

/-- The least multiple of the page size that is not below `size`. -/
structure RoundedUp (size passed : Nat) : Prop where
  covers : size ≤ passed
  multiple : passed % memPageSize = 0
  least : ∀ other, size ≤ other → other % memPageSize = 0 → passed ≤ other

def Vallocs (mmapThreshold size : Nat) : Prop :=
  PageAllocates mmapThreshold size size fun system state self => valloc mmapThreshold system state self size

def Pvallocs (mmapThreshold size : Nat) : Prop :=
  RoundedUp size (pvallocSize size) ∧
    PageAllocates mmapThreshold size (pvallocSize size) fun system state self => pvalloc mmapThreshold system state self size

variable {mmapThreshold : Nat} {system : System} {state next : State} {self size : Nat} {block : Block}

theorem allocAlign_multiple {align sz exponent : Nat} (gives : Gives system) (small : exponent < 64) (power : align = 2 ^ exponent)
    (fits : NoWrap mmapThreshold (sz + align + ChunkFooter.dataOffset))
    (allocated : allocAlign mmapThreshold system state self align sz = (next,some block)) : block.pointer % align = 0 := by
  obtain ⟨middle,inner,granted,outcome⟩ := allocAlign_some allocated
  obtain ⟨room,low⟩ := allocAlign_inner gives fits granted
  rcases outcome with ⟨aligned,_,rfl⟩ | ⟨_,_,rfl⟩
  · subst power
    exact (isAligned_iff small).mp aligned
  · obtain ⟨behind,_⟩ := alignUp_room small power room low
    have back : ChunkFooter.toPointer (ChunkFooter.fromPointer (alignUp (inner.pointer + 16) align)) = alignUp (inner.pointer + 16) align := by
      simp only [ChunkFooter.toPointer,ChunkFooter.fromPointer,ChunkFooter.dataOffset_eq]
      omega
    subst power
    rw [ChunkFooter.dataOffset_eq,back]
    exact alignUp_mod small

theorem memPageSize_pow : memPageSize = 2 ^ 12 := rfl

theorem noWrap_page (bound : size ≤ 2 ^ 63) : NoWrap mmapThreshold (size + memPageSize + ChunkFooter.dataOffset) := by
  simp only [NoWrap,memPageSize,ChunkFooter.dataOffset_eq,MmapChunkFooter.dataOffset]
  split <;> omega

theorem valloc_allocates (positive : 1 ≤ size) (bound : size ≤ 2 ^ 63) : Vallocs mmapThreshold size := by
  have some_ : size ≠ 0 := by omega
  constructor
  · intro system state self next refused
    simp only [valloc,stackedmallocAligned,if_neg some_] at refused
    exact allocAlign_none refused
  · intro system state self next block gives allocated
    have room := stackedmallocAligned_gives gives ⟨12,by decide,rfl⟩ (noWrap_page bound) allocated
    simp only [valloc,stackedmallocAligned,if_neg some_] at allocated
    exact ⟨allocAlign_multiple gives (by decide) memPageSize_pow (noWrap_page bound) allocated,room⟩

theorem pvallocSize_eq (positive : 1 ≤ size) (bound : size ≤ 2 ^ 63) : pvallocSize size = (size - 1) % memPageSize := by
  have fits : wrap (size + memPageSize - 1) = size - 1 + memPageSize := by
    rw [wrap_of_lt (by simp only [memPageSize]; omega)]
    simp only [memPageSize]
    omega
  rw [pvallocSize,fits,Nat.add_mod_right]

/-- `valloc` does what it is for, and `pvalloc` passes on less than it was asked for. -/
theorem valloc_only (mmapThreshold size : Nat) (positive : 1 ≤ size) (bound : size ≤ 2 ^ 63) :
    Vallocs mmapThreshold size ∧ ¬Pvallocs mmapThreshold size := by
  refine ⟨valloc_allocates positive bound,fun pvallocs => ?_⟩
  have covers := pvallocs.1.covers
  rw [pvallocSize_eq positive bound] at covers
  have less := Nat.mod_le (size - 1) memPageSize
  omega

theorem valloc_only_page : Vallocs builtThreshold 4096 ∧ ¬Pvallocs builtThreshold 4096 :=
  valloc_only builtThreshold 4096 (by decide) (by decide)

/-- For two pages and a byte, nothing is allocated. -/
theorem pvalloc_nothing : ¬∀ size, 1 ≤ size → size ≤ 2 ^ 63 → Vallocs builtThreshold size ∧ Pvallocs builtThreshold size := by
  intro both
  have covers := (both 8193 (by decide) (by decide)).2.1.covers
  revert covers
  decide

end Pgasus.MemSource
