import Pgasus.MemSource.Release

/-! The C and POSIX allocation functions, which take from the current source of the
thread. Sizes are computed in 64 bits: a sum or product that does not fit turns a huge
request into a small one. -/
namespace Pgasus.MemSource
open Words

section Functions
variable (mmapThreshold : Nat) (system : System) (state : State) (self : Nat)

/-- The current source of the thread is `self`. -/
def stackedmalloc (sz : Nat) : State × Option Block := alloc mmapThreshold system state self sz

def stackedmallocAligned (align sz : Nat) : State × Option Block :=
  if sz = 0 then (state,none) else allocAlign mmapThreshold system state self align sz

def malloc (sz : Nat) : State × Option Block := stackedmalloc mmapThreshold system state self sz

/-- The product is a `size_t`. -/
def callocTotal (n sz : Nat) : Nat := wrap (n * sz)

def calloc (n sz : Nat) : State × Option Block :=
  match stackedmalloc mmapThreshold system state self (callocTotal n sz) with
  | (state,none) => (state,none)
  | (state,some block) => ({state with memory := state.memory.fill block.pointer 0 (callocTotal n sz)},some block)

def memalign (align sz : Nat) : State × Option Block := stackedmallocAligned mmapThreshold system state self align sz

/-- What `*ptr` gets, or `ENOMEM`. -/
def posixMemalign (align sz : Nat) : State × Option (Option Block) :=
  if sz = 0 then (state,some none)
  else
    match stackedmallocAligned mmapThreshold system state self align sz with
    | (state,none) => (state,none)
    | (state,some block) => (state,some (some block))

def alignedAlloc (alignment size : Nat) : State × Option Block :=
  if size % alignment ≠ 0 then (state,none) else stackedmallocAligned mmapThreshold system state self alignment size

end Functions

inductive Request
  | malloc (sz : Nat)
  | calloc (n sz : Nat)
  | memalign (align sz : Nat)
  | posixMemalign (align sz : Nat)
  | alignedAlloc (alignment size : Nat)

namespace Request

def Words : Request → Prop
  | malloc sz => sz < 2 ^ 64
  | calloc n sz => n < 2 ^ 64 ∧ sz < 2 ^ 64
  | memalign align sz => sz < 2 ^ 64 ∧ ∃ exponent < 64, align = 2 ^ exponent
  | posixMemalign align sz => sz < 2 ^ 64 ∧ ∃ exponent < 64, align = 2 ^ exponent
  | alignedAlloc alignment size => size < 2 ^ 64 ∧ ∃ exponent < 64, alignment = 2 ^ exponent

def bytes : Request → Nat
  | malloc sz => sz
  | calloc n sz => n * sz
  | memalign _ sz => sz
  | posixMemalign _ sz => sz
  | alignedAlloc _ size => size

def zeroed : Request → Bool
  | calloc _ _ => true
  | _ => false

/-- What `alloc` or `alloc_align` is asked for, in exact numbers; some requests do not get there. -/
def size : Request → Option Nat
  | malloc sz => some sz
  | calloc n sz => some (n * sz)
  | memalign align sz => if sz = 0 then none else some (sz + align + ChunkFooter.dataOffset)
  | posixMemalign align sz => if sz = 0 then none else some (sz + align + ChunkFooter.dataOffset)
  | alignedAlloc alignment size =>
    if size % alignment ≠ 0 ∨ size = 0 then none else some (size + alignment + ChunkFooter.dataOffset)

/-- The request with all that is put around it has a size below 2^64. -/
def Fits (mmapThreshold : Nat) (request : Request) : Prop := ∀ size, request.size = some size → NoWrap mmapThreshold size

def serve (mmapThreshold : Nat) (system : System) (state : State) (self : Nat) : Request → State × Option Block
  | malloc sz => MemSource.malloc mmapThreshold system state self sz
  | calloc n sz => MemSource.calloc mmapThreshold system state self n sz
  | memalign align sz => MemSource.memalign mmapThreshold system state self align sz
  | posixMemalign align sz =>
    let (state,answer) := MemSource.posixMemalign mmapThreshold system state self align sz
    (state,answer.join)
  | alignedAlloc alignment size => MemSource.alignedAlloc mmapThreshold system state self alignment size

def allocSizes (mmapThreshold bytes : Nat) : List (Nat × Nat) :=
  if mmapThreshold ≤ bytes then [(bytes + MmapChunkFooter.dataOffset,mmapSize bytes)]
  else [(bytes + ChunkFooter.dataOffset,Arena.allocSize bytes)]

def alignedSizes (mmapThreshold align sz : Nat) : List (Nat × Nat) :=
  if sz = 0 then []
  else (sz + align + ChunkFooter.dataOffset,alignSize align sz) :: allocSizes mmapThreshold (alignSize align sz)

/-- The sizes computed on the way, each as a number and as the word that the code goes on with. -/
def sizes (mmapThreshold : Nat) : Request → List (Nat × Nat)
  | malloc sz => allocSizes mmapThreshold sz
  | calloc n sz => (n * sz,callocTotal n sz) :: allocSizes mmapThreshold (callocTotal n sz)
  | memalign align sz => alignedSizes mmapThreshold align sz
  | posixMemalign align sz => alignedSizes mmapThreshold align sz
  | alignedAlloc alignment size => if size % alignment ≠ 0 then [] else alignedSizes mmapThreshold alignment size

end Request

/-- `callMmap` and `mspace_malloc` give at least the bytes they are asked for, or null;
no address is in the kernel's half. -/
structure Gives (system : System) : Prop where
  mapping : ∀ size, system.callMmap size ≠ 0 → system.callMmap size + pages size ≤ 2 ^ 63
  chunk : ∀ arena size chunk, system.mspaceMalloc arena size = some chunk →
    size ≤ chunk.usable ∧ chunk.address + chunk.usable ≤ 2 ^ 63

/-- No size wraps, and whoever gets a block gets all the bytes. -/
structure Exact (mmapThreshold : Nat) (request : Request) : Prop where
  sizes : ∀ size ∈ request.sizes mmapThreshold, size.1 = size.2
  granted : ∀ system state self next block, Gives system → request.serve mmapThreshold system state self = (next,some block) →
    request.bytes ≠ 0 → block.pointer + request.bytes ≤ block.start + block.extent ∧
      (request.zeroed = true → ∀ place, block.pointer ≤ place → place < block.pointer + request.bytes → next.memory place = 0)

section Sizes
variable {mmapThreshold : Nat}

theorem wrap_eq_iff {value : Nat} : value = wrap value ↔ value < 2 ^ 64 :=
  ⟨fun same => same ▸ wrap_lt value,fun fits => (wrap_of_lt fits).symm⟩

theorem allocSizes_exact (bytes : Nat) : (∀ size ∈ Request.allocSizes mmapThreshold bytes, size.1 = size.2) ↔ NoWrap mmapThreshold bytes := by
  unfold Request.allocSizes NoWrap
  split <;> simp only [List.mem_singleton,forall_eq,mmapSize,Arena.allocSize,wrap_eq_iff]

theorem noWrap_fits {bytes : Nat} (fits : NoWrap mmapThreshold bytes) : bytes < 2 ^ 64 := by
  unfold NoWrap at fits
  omega

theorem sizes_step {exact_ : Nat} : (∀ size ∈ (exact_,wrap exact_) :: Request.allocSizes mmapThreshold (wrap exact_), size.1 = size.2) ↔
    NoWrap mmapThreshold exact_ := by
  rw [List.forall_mem_cons,allocSizes_exact,wrap_eq_iff]
  constructor
  · rintro ⟨fits,rest⟩
    rwa [wrap_of_lt fits] at rest
  · intro fits
    have small := noWrap_fits fits
    rw [wrap_of_lt small]
    exact ⟨small,fits⟩

theorem alignedSizes_exact (align sz : Nat) : (∀ size ∈ Request.alignedSizes mmapThreshold align sz, size.1 = size.2) ↔
    (sz ≠ 0 → NoWrap mmapThreshold (sz + align + ChunkFooter.dataOffset)) := by
  unfold Request.alignedSizes
  split
  next zero => simp [zero]
  next some_ =>
    rw [alignSize,sizes_step]
    simp [some_]

/-- The words stand for the exact sizes exactly when the last of these fits. -/
theorem sizes_exact (request : Request) : (∀ size ∈ request.sizes mmapThreshold, size.1 = size.2) ↔ request.Fits mmapThreshold := by
  cases request with
  | malloc sz =>
    simp only [Request.sizes,Request.Fits,Request.size,Option.some.injEq,forall_eq']
    exact allocSizes_exact sz
  | calloc n sz =>
    simp only [Request.sizes,Request.Fits,Request.size,Option.some.injEq,forall_eq']
    exact sizes_step
  | memalign align sz =>
    simp only [Request.sizes,Request.Fits,Request.size,alignedSizes_exact]
    split <;> simp_all
  | posixMemalign align sz =>
    simp only [Request.sizes,Request.Fits,Request.size,alignedSizes_exact]
    split <;> simp_all
  | alignedAlloc alignment size =>
    simp only [Request.sizes,Request.Fits,Request.size]
    by_cases multiple : size % alignment = 0
    · simp only [multiple,ne_eq,not_true_eq_false,if_false,false_or,alignedSizes_exact]
      split <;> simp_all
    · simp [multiple]

end Sizes

section Granted
variable {mmapThreshold : Nat} {system : System} {state next : State} {self : Nat} {block : Block}

theorem alloc_gives {bytes : Nat} (gives : Gives system) (fits : NoWrap mmapThreshold bytes)
    (allocated : alloc mmapThreshold system state self bytes = (next,some block)) :
    block.pointer + bytes ≤ block.start + block.extent ∧ block.start + block.extent ≤ 2 ^ 63 := by
  rcases alloc_some allocated with ⟨large,nonnull,rfl,_⟩ | ⟨small,arena,_,chunk,answer,_,rfl,_⟩
  · have low := gives.mapping _ nonnull
    have enough := pages_ge (mmapSize bytes)
    simp only [NoWrap,if_pos large,MmapChunkFooter.dataOffset] at fits
    have size : mmapSize bytes = bytes + 40 := wrap_of_lt fits
    simp only [mappedBlock,MmapChunkFooter.toPointer,MmapChunkFooter.dataOffset]
    omega
  · obtain ⟨enough,low⟩ := gives.chunk _ _ _ answer
    simp only [NoWrap,if_neg (Nat.not_le.mpr small),ChunkFooter.dataOffset_eq] at fits
    have size : Arena.allocSize bytes = bytes + 16 := by rw [Arena.allocSize,ChunkFooter.dataOffset_eq,wrap_of_lt fits]
    simp only [arenaBlock,ChunkFooter.toPointer,ChunkFooter.dataOffset_eq]
    omega

theorem allocAlign_inner {align sz : Nat} (gives : Gives system) (fits : NoWrap mmapThreshold (sz + align + ChunkFooter.dataOffset))
    {middle : State} {inner : Block} (granted : alloc mmapThreshold system state self (alignSize align sz) = (middle,some inner)) :
    inner.pointer + (sz + align + 16) ≤ inner.start + inner.extent ∧ inner.start + inner.extent ≤ 2 ^ 63 := by
  have whole := alignSize_eq (noWrap_fits fits)
  rw [ChunkFooter.dataOffset_eq,← whole] at fits
  rw [← whole]
  exact alloc_gives gives fits granted

theorem allocAlign_gives {align sz exponent : Nat} (gives : Gives system) (small : exponent < 64) (power : align = 2 ^ exponent)
    (fits : NoWrap mmapThreshold (sz + align + ChunkFooter.dataOffset))
    (allocated : allocAlign mmapThreshold system state self align sz = (next,some block)) :
    block.pointer + sz ≤ block.start + block.extent := by
  obtain ⟨middle,inner,granted,outcome⟩ := allocAlign_some allocated
  obtain ⟨room,low⟩ := allocAlign_inner gives fits granted
  rcases outcome with ⟨_,_,rfl⟩ | ⟨_,_,rfl⟩
  · dsimp only
    omega
  · have placed := alignUp_room small power room low
    simp only [ChunkFooter.toPointer,ChunkFooter.fromPointer,ChunkFooter.dataOffset_eq]
    omega

theorem stackedmallocAligned_gives {align sz : Nat} (gives : Gives system) (power : ∃ exponent < 64, align = 2 ^ exponent)
    (fits : NoWrap mmapThreshold (sz + align + ChunkFooter.dataOffset))
    (allocated : stackedmallocAligned mmapThreshold system state self align sz = (next,some block)) :
    block.pointer + sz ≤ block.start + block.extent := by
  obtain ⟨exponent,small,power⟩ := power
  unfold stackedmallocAligned at allocated
  split at allocated
  next => cases allocated
  next => exact allocAlign_gives gives small power fits allocated

theorem calloc_gives {n sz : Nat} (gives : Gives system) (fits : NoWrap mmapThreshold (n * sz))
    (allocated : calloc mmapThreshold system state self n sz = (next,some block)) :
    block.pointer + n * sz ≤ block.start + block.extent ∧
      ∀ place, block.pointer ≤ place → place < block.pointer + n * sz → next.memory place = 0 := by
  unfold calloc callocTotal stackedmalloc at allocated
  rw [wrap_of_lt (noWrap_fits fits)] at allocated
  split at allocated
  next => cases allocated
  next middle inner granted =>
    cases allocated
    exact ⟨(alloc_gives gives fits granted).1,fun place low high => Memory.fill_inside low high⟩

theorem granted_of_fits {request : Request} (words : request.Words) (fits : request.Fits mmapThreshold) (gives : Gives system)
    (served : request.serve mmapThreshold system state self = (next,some block)) (asked : request.bytes ≠ 0) :
    block.pointer + request.bytes ≤ block.start + block.extent ∧
      (request.zeroed = true → ∀ place, block.pointer ≤ place → place < block.pointer + request.bytes → next.memory place = 0) := by
  cases request with
  | malloc sz => exact ⟨(alloc_gives gives (fits sz rfl) served).1,(fun zeroed => by cases zeroed)⟩
  | calloc n sz =>
    obtain ⟨room,zeros⟩ := calloc_gives gives (fits _ rfl) served
    exact ⟨room,fun _ => zeros⟩
  | memalign align sz =>
    exact ⟨stackedmallocAligned_gives gives words.2 (fits _ (if_neg asked)) served,(fun zeroed => by cases zeroed)⟩
  | posixMemalign align sz =>
    refine ⟨?_,(fun zeroed => by cases zeroed)⟩
    simp only [Request.serve,posixMemalign,if_neg (show sz ≠ 0 from asked)] at served
    split at served
    next => cases served
    next middle inner granted =>
      cases served
      exact stackedmallocAligned_gives gives words.2 (fits _ (if_neg asked)) granted
  | alignedAlloc alignment size =>
    refine ⟨?_,(fun zeroed => by cases zeroed)⟩
    simp only [Request.serve,alignedAlloc] at served
    split at served
    next => cases served
    next multiple =>
      have gets : Request.size (.alignedAlloc alignment size) = some (size + alignment + ChunkFooter.dataOffset) :=
        if_neg (not_or.mpr ⟨multiple,asked⟩)
      exact stackedmallocAligned_gives gives words.2 (fits _ gets) served

end Granted

/-- A request is served exactly when its bytes and all that is put around them are fewer than 2^64. -/
theorem exact_iff_fits (mmapThreshold : Nat) (request : Request) (words : request.Words) :
    Exact mmapThreshold request ↔ request.Fits mmapThreshold :=
  ⟨fun exact_ => (sizes_exact request).mp exact_.sizes,fun fits => ⟨(sizes_exact request).mpr fits,
    fun _ _ _ _ _ gives served asked => granted_of_fits words fits gives served asked⟩⟩

/-- 2^32 elements of 2^32 bytes make a product of 0, for which a chunk of 32 bytes is granted. -/
theorem calloc_wraps : ¬Exact builtThreshold (.calloc (2 ^ 32) (2 ^ 32)) := by
  intro exact_
  have gives : Gives (gives 16 ⟨0x30000,32⟩) := by
    refine ⟨fun size nonnull => absurd rfl nonnull,fun arena size chunk answer => ?_⟩
    simp only [MemSource.gives] at answer
    split at answer
    next same =>
      obtain rfl := Option.some.inj answer
      rw [same]
      exact ⟨by decide,by decide⟩
    next => cases answer
  obtain ⟨room,_⟩ := exact_.granted (MemSource.gives 16 ⟨0x30000,32⟩) fresh sampleSource
    (calloc builtThreshold (MemSource.gives 16 ⟨0x30000,32⟩) fresh sampleSource (2 ^ 32) (2 ^ 32)).1
    (arenaBlock sampleSource 0 0x20000 ⟨0x30000,32⟩) gives rfl (by decide)
  revert room
  decide

theorem exact_sample : Exact builtThreshold (.calloc 1000 8) ∧ Exact builtThreshold (.alignedAlloc 4096 40960) :=
  ⟨(exact_iff_fits builtThreshold (.calloc 1000 8) ⟨by decide,by decide⟩).mpr fun size same => by
      obtain rfl := Option.some.inj same
      unfold NoWrap
      decide,
    (exact_iff_fits builtThreshold (.alignedAlloc 4096 40960) ⟨by decide,12,by decide,by decide⟩).mpr fun size same => by
      obtain rfl := Option.some.inj same
      unfold NoWrap
      decide⟩

end Pgasus.MemSource
