import Mathlib.Data.List.Pairwise
import Pgasus.Library.DoublyLinked
import Pgasus.MemSource.Source

/-! The blocks of the sources: what an allocation puts in memory, and that footers and
links survive it. -/
namespace Pgasus.MemSource
open Words DoublyLinked

@[simp] theorem ChunkFooter.dataOffset_eq : ChunkFooter.dataOffset = 16 := by decide

theorem alignMask_pow {exponent : Nat} (small : exponent < 64) : alignMask (2 ^ exponent) = 2 ^ exponent - 1 := by
  have bound : 2 ^ exponent ≤ 2 ^ 63 := Nat.pow_le_pow_right Nat.two_pos (by omega)
  have positive := Nat.two_pow_pos exponent
  simp only [alignMask,wrap]
  omega

theorem alignUp_eq {p exponent : Nat} (small : exponent < 64) :
    alignUp p (2 ^ exponent) = wrap (p + (2 ^ exponent - 1)) / 2 ^ exponent * 2 ^ exponent := by
  rw [alignUp,alignMask_pow small]
  exact land_complement (wrap_lt _) (Nat.le_of_lt small)

theorem alignUp_bounds {p exponent : Nat} (small : exponent < 64) (fits : p + 2 ^ exponent ≤ 2 ^ 64) :
    p ≤ alignUp p (2 ^ exponent) ∧ alignUp p (2 ^ exponent) < p + 2 ^ exponent := by
  have positive := Nat.two_pow_pos exponent
  have sum : wrap (p + (2 ^ exponent - 1)) = p + (2 ^ exponent - 1) := wrap_of_lt (by omega)
  rw [alignUp_eq small,sum]
  have divided := Nat.div_add_mod (p + (2 ^ exponent - 1)) (2 ^ exponent)
  have rest := Nat.mod_lt (p + (2 ^ exponent - 1)) positive
  rw [Nat.mul_comm] at divided
  omega

theorem alignSize_eq {align sz : Nat} (fits : sz + align + ChunkFooter.dataOffset < 2 ^ 64) : alignSize align sz = sz + align + 16 := by
  rw [alignSize,wrap_of_lt fits,ChunkFooter.dataOffset_eq]

theorem alignDown_page {p : Nat} (fits : p < 2 ^ 64) : alignDown p memPageSize = p / 4096 * 4096 := by
  have mask : alignMask memPageSize = 2 ^ 12 - 1 := by decide
  rw [alignDown,mask]
  exact land_complement fits (by decide)

theorem pages_ge (size : Nat) : size ≤ pages size := by
  simp only [pages,memPageSize]
  omega

theorem pages_pos {size : Nat} (positive : 0 < size) : 4096 ≤ pages size := by
  simp only [pages,memPageSize]
  omega

/-- The bytes from `start` on are below the kernel's half and in no live block. -/
def State.Vacant (state : State) (start extent : Nat) : Prop :=
  start + extent ≤ 2 ^ 63 ∧
    ∀ block ∈ state.live, start + extent ≤ block.start ∨ block.start + block.extent ≤ start

/-- What the system and dlmalloc document: mappings are page aligned, chunks are at least of
the smallest size, and both have the bytes asked for. -/
structure Honest (state : State) (system : System) : Prop where
  mapping : ∀ size, system.callMmap size ≠ 0 → 0 < size ∧ system.callMmap size % memPageSize = 0 ∧
    state.Vacant (system.callMmap size) (pages size)
  chunk : ∀ arena size chunk, system.mspaceMalloc arena size = some chunk →
    0 < chunk.address ∧ size ≤ chunk.usable ∧ 16 ≤ chunk.usable ∧ state.Vacant chunk.address chunk.usable

def NoWrap (mmapThreshold bytes : Nat) : Prop :=
  bytes + (if mmapThreshold ≤ bytes then MmapChunkFooter.dataOffset else ChunkFooter.dataOffset) < 2 ^ 64

def IsAddress (value : Nat) : Prop := 0 < value ∧ value < 2 ^ 64

structure Block.Placed (block : Block) : Prop where
  owner : IsAddress block.source
  present : 0 < block.start
  header : block.data ≤ block.start + block.extent
  pointer : block.pointer = block.data ∨ block.data + 16 ≤ block.pointer
  inside : block.pointer ≤ block.start + block.extent
  low : block.start + block.extent ≤ 2 ^ 63

structure Block.Kept (memory : Memory) (block : Block) : Prop where
  source : ChunkFooter.source memory block.footer = block.source
  arena : ChunkFooter.arena memory block.footer = block.arena
  size : block.mapped = true → MmapChunkFooter.size memory block.start = block.size
  fake : block.pointer ≠ block.data →
    ChunkFooter.source memory (ChunkFooter.fromPointer block.pointer) = 0 ∧
      ChunkFooter.link memory (ChunkFooter.fromPointer block.pointer) = block.footer
  padding : block.mapped = true → ∀ place, block.data ≤ place → place + 16 < block.pointer → memory place = 0

def Block.Metadata (block : Block) (place : Nat) : Prop :=
  block.start ≤ place ∧ place < block.pointer ∧
    (block.mapped = true → place < block.start + 8 ∨ block.start + 24 ≤ place)

def Block.Apart (first second : Block) : Prop :=
  first.start + first.extent ≤ second.start ∨ second.start + second.extent ≤ first.start

def Block.mappedBy (self : Nat) (block : Block) : Bool := block.mapped && block.source = self

def State.mappedStarts (state : State) (self : Nat) : List Nat := (state.live.filter (Block.mappedBy self)).map Block.start

def Chained (memory : Memory) (head : Nat) (starts : List Nat) : Prop :=
  Chain (MmapChunkFooter.next memory) (MmapChunkFooter.prev memory) 0 head starts

structure Laid (state : State) : Prop where
  placed : ∀ block ∈ state.live, block.Placed
  apart : state.live.Pairwise Block.Apart
  kept : ∀ block ∈ state.live, block.Kept state.memory
  chained : ∀ self, Chained state.memory (state.sources self).mmappedChunkHead (state.mappedStarts self)
  active : ∀ self, IsAddress (state.sources self).activeArena

variable {mmapThreshold : Nat} {state next : State} {memory other : Memory} {system : System} {self bytes : Nat}
  {block : Block}

theorem Block.data_eq (block : Block) : block.data = block.footer + 16 := by
  unfold Block.data Block.footer
  split <;> simp [MmapChunkFooter.toPointer,MmapChunkFooter.footer,MmapChunkFooter.dataOffset,ChunkFooter.toPointer]

theorem Block.footer_mapped (mapped : block.mapped = true) : block.footer = block.start + 24 := if_pos mapped

theorem Block.footer_bounds (block : Block) : block.start ≤ block.footer ∧ block.footer ≤ block.start + 24 := by
  unfold Block.footer MmapChunkFooter.footer
  split <;> omega

theorem Block.Kept.congr (kept : block.Kept memory) (placed : block.Placed)
    (same : ∀ place, block.Metadata place → other place = memory place) : block.Kept other := by
  have data := block.data_eq
  have bounds := block.footer_bounds
  have pointer := placed.pointer
  have word (address : Nat) (inside : ∀ place, address ≤ place → place < address + 8 → block.Metadata place) :
      other.load address = memory.load address :=
    Memory.load_congr fun place low high => same place (inside place low high)
  have ahead (address : Nat) (low : block.footer ≤ address) (high : address + 8 ≤ block.pointer) :
      other.load address = memory.load address := by
    apply word
    intro place from_ upto
    exact ⟨by omega,by omega,fun mapped => Or.inr (by have := Block.footer_mapped mapped; omega)⟩
  constructor
  · exact (ahead block.footer (by omega) (by omega)).trans kept.source
  · exact (ahead (block.footer + 8) (by omega) (by omega)).trans kept.arena
  · intro mapped
    have start := word block.start fun place from_ upto => ⟨from_,by omega,fun _ => by omega⟩
    exact start.trans (kept.size mapped)
  · intro shifted
    obtain ⟨source,link⟩ := kept.fake shifted
    have below : ChunkFooter.fromPointer block.pointer = block.pointer - 16 := by simp [ChunkFooter.fromPointer]
    rw [below] at source link ⊢
    exact ⟨(ahead (block.pointer - 16) (by omega) (by omega)).trans source,
      (ahead (block.pointer - 16 + 8) (by omega) (by omega)).trans link⟩
  · intro mapped place low high
    have footer := Block.footer_mapped mapped
    exact (same place ⟨by omega,by omega,fun _ => by omega⟩).trans (kept.padding mapped place low high)

instance : Std.Symm Block.Apart := ⟨fun _ _ apart => Or.symm apart⟩

theorem mem_mappedStarts {start : Nat} : start ∈ state.mappedStarts self ↔
    ∃ block ∈ state.live, block.mapped = true ∧ block.source = self ∧ block.start = start := by
  simp [State.mappedStarts,Block.mappedBy,and_assoc]

theorem Block.Placed.extent_pos (placed : block.Placed) : block.start < block.start + block.extent := by
  have data := block.data_eq
  have bounds := block.footer_bounds
  have header := placed.header
  omega

theorem Chained.congr {head : Nat} {starts : List Nat} (chained : Chained memory head starts)
    (same : ∀ start ∈ starts, ∀ place, start + 8 ≤ place → place < start + 24 → other place = memory place) :
    Chained other head starts := by
  apply Chain.congr chained
  · intro start member
    exact Memory.load_congr fun place low high => same start member place (by omega) (by omega)
  · intro start member
    exact Memory.load_congr fun place low high => same start member place (by omega) (by omega)

theorem Laid.starts_nodup (laid : Laid state) (self : Nat) : (state.mappedStarts self).Nodup := by
  apply List.pairwise_map.mpr
  apply List.Pairwise.imp_of_mem _ (laid.apart.filter (Block.mappedBy self))
  intro first second member also apart same
  have one := (laid.placed first (List.mem_filter.mp member).1).extent_pos
  have two := (laid.placed second (List.mem_filter.mp also).1).extent_pos
  unfold Block.Apart at apart
  omega

theorem record_starts (live : next.live = state.live) (other : Nat) :
    (next.record (some block)).mappedStarts other =
      if block.mappedBy other then block.start::state.mappedStarts other else state.mappedStarts other := by
  cases by_ : block.mappedBy other <;> simp [State.mappedStarts,State.record,live,by_]

theorem Laid.add (laid : Laid state) (live : next.live = state.live) (placed : block.Placed)
    (vacant : state.Vacant block.start block.extent) (kept : block.Kept next.memory)
    (same : ∀ old ∈ state.live, ∀ place, old.Metadata place → next.memory place = state.memory place)
    (chained : ∀ self, Chained next.memory (next.sources self).mmappedChunkHead
      (if block.mappedBy self then block.start::state.mappedStarts self else state.mappedStarts self))
    (active : ∀ self, IsAddress (next.sources self).activeArena) : Laid (next.record (some block)) := by
  have member (old : Block) (inside : old ∈ (next.record (some block)).live) : old = block ∨ old ∈ state.live := by
    rw [← live]
    exact List.mem_cons.mp inside
  refine ⟨?_,?_,?_,fun self => record_starts live self ▸ chained self,active⟩
  · intro old inside
    rcases member old inside with rfl | before
    · exact placed
    · exact laid.placed old before
  · apply List.pairwise_cons.mpr
    rw [live]
    exact ⟨fun old before => vacant.2 old before,laid.apart⟩
  · intro old inside
    rcases member old inside with rfl | before
    · exact kept
    · exact (laid.kept old before).congr (laid.placed old before) (same old before)

theorem alloc_some (allocated : alloc mmapThreshold system state self bytes = (next,some block)) :
    (mmapThreshold ≤ bytes ∧ system.callMmap (mmapSize bytes) ≠ 0 ∧
      block = mappedBlock self bytes (system.callMmap (mmapSize bytes)) ∧
      next = {state with
        memory := initMapped (state.memory.fill (system.callMmap (mmapSize bytes)) 0 (pages (mmapSize bytes))) self
          (state.sources self).mmappedChunkHead (system.callMmap (mmapSize bytes)) (mmapSize bytes)}.set self
        {state.sources self with
          mmappedChunkHead := system.callMmap (mmapSize bytes)
          blocks := (state.sources self).blocks + 1}) ∨
    bytes < mmapThreshold ∧ ∃ arena arenas chunk, system.mspaceMalloc arena (Arena.allocSize bytes) = some chunk ∧
      (arena = (state.sources self).activeArena ∨ arena = system.callMmap newArenaSize ∧ arena ≠ 0) ∧
      block = arenaBlock self bytes arena chunk ∧
      next = {state with memory := Arena.init state.memory self arena chunk.address}.set self
        {state.sources self with
          activeArena := arena
          arenas := arenas
          blocks := (state.sources self).blocks + 1} := by
  unfold alloc at allocated
  split at allocated
  next large =>
    left
    simp only [allocMapped] at allocated
    split at allocated
    next => cases allocated
    next mapped =>
      cases allocated
      exact ⟨large,mapped,rfl,rfl⟩
  next small =>
    right
    refine ⟨Nat.lt_of_not_le small,?_⟩
    simp only [allocInArena,Arena.alloc] at allocated
    cases first : system.mspaceMalloc (state.sources self).activeArena (Arena.allocSize bytes) with
    | some chunk =>
      simp only [first] at allocated
      cases allocated
      exact ⟨(state.sources self).activeArena,(state.sources self).arenas,chunk,first,Or.inl rfl,rfl,rfl⟩
    | none =>
      simp only [first,createNewArena] at allocated
      by_cases refused : system.callMmap newArenaSize = 0
      · simp [refused] at allocated
      · simp only [refused,if_false] at allocated
        cases second : system.mspaceMalloc (system.callMmap newArenaSize) (Arena.allocSize bytes) with
        | none => simp [second] at allocated
        | some chunk =>
          simp only [second] at allocated
          cases allocated
          exact ⟨_,_,chunk,second,Or.inr ⟨rfl,refused⟩,rfl,rfl⟩

theorem alloc_none (allocated : alloc mmapThreshold system state self bytes = (next,none)) :
    next = state ∨ system.callMmap newArenaSize ≠ 0 ∧ next = state.set self {state.sources self with
      activeArena := system.callMmap newArenaSize
      arenas := (state.sources self).activeArena::(state.sources self).arenas} := by
  unfold alloc at allocated
  split at allocated
  next =>
    simp only [allocMapped] at allocated
    split at allocated
    next =>
      cases allocated
      exact Or.inl rfl
    next => cases allocated
  next =>
    simp only [allocInArena,Arena.alloc] at allocated
    cases first : system.mspaceMalloc (state.sources self).activeArena (Arena.allocSize bytes) with
    | some chunk => simp [first] at allocated
    | none =>
      simp only [first,createNewArena] at allocated
      by_cases refused : system.callMmap newArenaSize = 0
      · simp only [refused,if_true] at allocated
        cases allocated
        exact Or.inl rfl
      · simp only [refused,if_false] at allocated
        cases second : system.mspaceMalloc (system.callMmap newArenaSize) (Arena.allocSize bytes) with
        | some chunk => simp [second] at allocated
        | none =>
          simp only [second] at allocated
          cases allocated
          exact Or.inr ⟨refused,rfl⟩

theorem Laid.apart_of_ne (laid : Laid state) {first second : Block} (member : first ∈ state.live)
    (also : second ∈ state.live) (different : first ≠ second) : first.Apart second :=
  laid.apart.forall member also different

theorem Block.Placed.mapped_extent (placed : block.Placed) (mapped : block.mapped = true) : 40 ≤ block.extent := by
  have header := placed.header
  rw [block.data_eq,Block.footer_mapped mapped] at header
  omega

theorem Laid.starts_apart (laid : Laid state) {start other : Nat} (member : start ∈ state.mappedStarts self)
    (also : other ∈ state.mappedStarts self) (different : start ≠ other) : start + 40 ≤ other ∨ other + 40 ≤ start := by
  obtain ⟨first,inside,mapped,_,rfl⟩ := mem_mappedStarts.mp member
  obtain ⟨second,within,alsoMapped,_,rfl⟩ := mem_mappedStarts.mp also
  have apart := laid.apart_of_ne inside within fun same => different (congrArg Block.start same)
  have one := (laid.placed first inside).mapped_extent mapped
  have two := (laid.placed second within).mapped_extent alsoMapped
  unfold Block.Apart at apart
  omega

theorem Laid.links_away (laid : Laid state) {old owner : Block} (inside : old ∈ state.live) (owned : owner ∈ state.live)
    (mapped : owner.mapped = true) (different : old ≠ owner) {place : Nat} (low : old.start ≤ place)
    (high : place < old.start + old.extent) : place < owner.start ∨ owner.start + 40 ≤ place := by
  have far := laid.apart_of_ne inside owned different
  have extent := (laid.placed owner owned).mapped_extent mapped
  unfold Block.Apart at far
  omega

section Init
variable {head chunk sz : Nat}

def HeadApart (head chunk : Nat) : Prop := head = 0 ∨ head + 24 ≤ chunk ∨ chunk + 40 ≤ head

theorem initMapped_other {place : Nat} (outside : place < chunk ∨ chunk + 40 ≤ place)
    (unlinked : head = 0 ∨ place < head + 8 ∨ head + 16 ≤ place) :
    initMapped memory self head chunk sz place = memory place := by
  simp only [initMapped,ChunkFooter.setSource,ChunkFooter.setArena,MmapChunkFooter.setSize,MmapChunkFooter.setPrev,
    MmapChunkFooter.setNext,MmapChunkFooter.footer]
  split
  next => simp (disch := omega) only [Memory.store_outside]
  next present =>
    have linked := unlinked.resolve_left present
    simp (disch := omega) only [Memory.store_outside]

theorem initMapped_load {address : Nat} (apart : HeadApart head chunk) (low : chunk ≤ address)
    (high : address + 8 ≤ chunk + 40) : (initMapped memory self head chunk sz).load address =
      (((((memory.store (chunk + 24) self).store (chunk + 32) 0).store chunk sz).store (chunk + 8) 0).store
        (chunk + 16) head).load address := by
  simp only [initMapped,ChunkFooter.setSource,ChunkFooter.setArena,MmapChunkFooter.setSize,MmapChunkFooter.setPrev,
    MmapChunkFooter.setNext,MmapChunkFooter.footer]
  split
  next => rfl
  next present =>
    have aside := apart.resolve_left present
    exact Memory.load_store_other (by omega)

theorem initMapped_kept (apart : HeadApart head chunk) (owner : IsAddress self) :
    (mappedBlock self bytes chunk).Kept (initMapped memory self head chunk (mmapSize bytes)) := by
  have fits : mmapSize bytes < 2 ^ 64 := wrap_lt _
  have selfFits := owner.2
  constructor
  · change Memory.load _ (chunk + 24) = self
    rw [initMapped_load apart (by omega) (by omega)]
    simp (disch := omega) only [Memory.load_store_other,Memory.load_store_self]
  · change Memory.load _ (chunk + 24 + 8) = 0
    rw [initMapped_load apart (by omega) (by omega)]
    simp (disch := omega) only [Memory.load_store_other,Memory.load_store_self]
  · intro _
    change Memory.load _ chunk = mmapSize bytes
    rw [initMapped_load apart (by omega) (by omega)]
    simp (disch := omega) only [Memory.load_store_other,Memory.load_store_self]
  · exact fun shifted => absurd rfl shifted
  · intro _ place low high
    change chunk + 40 ≤ place at low
    change place + 16 < chunk + 40 at high
    omega

theorem Chained.head_mem {starts : List Nat} (chained : Chained memory head starts) : head = 0 ∨ head ∈ starts := by
  cases starts with
  | nil => exact Or.inl chained
  | cons first rest => exact Or.inr (by rw [chained.1]; exact List.mem_cons_self)

theorem initMapped_chained {starts : List Nat} (chained : Chained memory head starts) (distinct : starts.Nodup)
    (nonnull : chunk ≠ 0) (low : chunk < 2 ^ 64) (headLow : head < 2 ^ 64)
    (apart : ∀ start ∈ starts, start + 40 ≤ chunk ∨ chunk + 40 ≤ start)
    (each : ∀ start ∈ starts, ∀ other ∈ starts, start ≠ other → start + 40 ≤ other ∨ other + 40 ≤ start) :
    Chained (initMapped memory self head chunk sz) chunk (chunk::starts) := by
  have aside : HeadApart head chunk := chained.head_mem.imp_right fun member => by
    have := apart head member
    omega
  apply Chain.push chained nonnull distinct
  · change Memory.load _ (chunk + 16) = head
    rw [initMapped_load aside (by omega) (by omega)]
    exact Memory.load_store_self headLow
  · change Memory.load _ (chunk + 8) = 0
    rw [initMapped_load aside (by omega) (by omega)]
    simp (disch := omega) only [Memory.load_store_other,Memory.load_store_self]
  · intro present
    change Memory.load (initMapped memory self head chunk sz) (head + 8) = chunk
    simp only [initMapped,if_neg present]
    exact Memory.load_store_self low
  · intro start member
    have far := apart start member
    apply Memory.load_congr
    intro place from_ upto
    apply initMapped_other (by omega)
    rcases chained.head_mem with none | first
    · exact Or.inl none
    · by_cases same : start = head
      · exact Or.inr (by omega)
      · have := each start member head first same
        exact Or.inr (by omega)
  · intro start member different
    have far := apart start member
    apply Memory.load_congr
    intro place from_ upto
    apply initMapped_other (by omega)
    rcases chained.head_mem with none | first
    · exact Or.inl none
    · have := each start member head first different
      exact Or.inr (by omega)

end Init

theorem State.set_source (state : State) (self other : Nat) (source : Source) :
    (state.set self source).sources other = if other = self then source else state.sources other :=
  Function.update_apply _ _ _ _

theorem Laid.set_active (laid : Laid state) {source : Source} (address : IsAddress source.activeArena) (other : Nat) :
    IsAddress ((state.set self source).sources other).activeArena := by
  rw [State.set_source]
  split
  next => exact address
  next => exact laid.active other

theorem Laid.head_low (laid : Laid state) (self : Nat) : (state.sources self).mmappedChunkHead < 2 ^ 64 := by
  rcases (laid.chained self).head_mem with none | member
  · omega
  · obtain ⟨block,inside,_,_,same⟩ := mem_mappedStarts.mp member
    have low := (laid.placed block inside).low
    omega

section Mapped
variable {chunk : Nat}

def mappedMemory (state : State) (self bytes chunk : Nat) : Memory :=
  initMapped (state.memory.fill chunk 0 (pages (mmapSize bytes))) self (state.sources self).mmappedChunkHead chunk
    (mmapSize bytes)

theorem mappedMemory_other {place : Nat} (asked : 0 < mmapSize bytes)
    (outside : place < chunk ∨ chunk + pages (mmapSize bytes) ≤ place)
    (unlinked : (state.sources self).mmappedChunkHead = 0 ∨ place < (state.sources self).mmappedChunkHead + 8 ∨
      (state.sources self).mmappedChunkHead + 16 ≤ place) :
    mappedMemory state self bytes chunk place = state.memory place := by
  have room := pages_pos asked
  unfold mappedMemory
  rw [initMapped_other (by omega) unlinked]
  exact Memory.fill_outside outside

theorem Laid.mapped_spares (laid : Laid state) (asked : 0 < mmapSize bytes)
    (vacant : state.Vacant chunk (pages (mmapSize bytes))) {old : Block} (inside : old ∈ state.live) {place : Nat}
    (low : old.start ≤ place) (high : place < old.start + old.extent)
    (unlinked : old.mappedBy self = true → place < old.start + 8 ∨ old.start + 24 ≤ place) :
    mappedMemory state self bytes chunk place = state.memory place := by
  have apart := vacant.2 old inside
  apply mappedMemory_other asked (by omega)
  rcases (laid.chained self).head_mem with none | member
  · exact Or.inl none
  · right
    obtain ⟨head,first,mapped,source,same⟩ := mem_mappedStarts.mp member
    by_cases own : old = head
    · subst own
      have := unlinked (by simp [Block.mappedBy,mapped,source])
      omega
    · have := laid.links_away inside first mapped own low high
      omega

theorem Laid.allocMapped (laid : Laid state) (owner : IsAddress self) (present : chunk ≠ 0) (asked : 0 < mmapSize bytes)
    (vacant : state.Vacant chunk (pages (mmapSize bytes))) :
    Laid (({state with memory := mappedMemory state self bytes chunk}.set self
      {state.sources self with
        mmappedChunkHead := chunk
        blocks := (state.sources self).blocks + 1}).record (some (mappedBlock self bytes chunk))) := by
  have room := pages_pos asked
  have below := vacant.1
  have away (start : Nat) (member : start ∈ state.mappedStarts self) :
      start + 40 ≤ chunk ∨ chunk + pages (mmapSize bytes) ≤ start := by
    obtain ⟨old,inside,mapped,_,rfl⟩ := mem_mappedStarts.mp member
    have extent := (laid.placed old inside).mapped_extent mapped
    have apart := vacant.2 old inside
    omega
  have aside : HeadApart (state.sources self).mmappedChunkHead chunk := (laid.chained self).head_mem.imp_right fun member => by
    have := away _ member
    omega
  apply laid.add
  · rfl
  · constructor
    · exact owner
    · exact Nat.pos_of_ne_zero present
    · change chunk + 40 ≤ chunk + pages (mmapSize bytes)
      omega
    · exact Or.inl rfl
    · change chunk + 40 ≤ chunk + pages (mmapSize bytes)
      omega
    · exact below
  · exact vacant
  · exact initMapped_kept aside owner
  · intro old inside place metadata
    have within := (laid.placed old inside).inside
    obtain ⟨low,high,unlinked⟩ := metadata
    exact laid.mapped_spares asked vacant inside low (by omega) fun by_ => unlinked (Bool.and_eq_true_iff.mp by_).1
  · intro other
    have chained := laid.chained other
    rw [State.set_source]
    by_cases same : other = self
    · subst same
      have filled : Chained (state.memory.fill chunk 0 (pages (mmapSize bytes))) (state.sources other).mmappedChunkHead
          (state.mappedStarts other) := by
        apply chained.congr
        intro start member place low high
        have := away start member
        exact Memory.fill_outside (by omega)
      have pushed := @initMapped_chained _ other _ chunk (mmapSize bytes) _ filled (laid.starts_nodup other) present
        (by omega) (laid.head_low other) (fun start member => by have := away start member; omega)
        fun start member also within different => laid.starts_apart member within different
      have by_ : (mappedBlock other bytes chunk).mappedBy other = true := by
        simp [mappedBlock,Block.mappedBy,Block.mapped]
      rw [if_pos rfl,if_pos by_]
      exact pushed
    · have unmapped : (mappedBlock self bytes chunk).mappedBy other = false := by
        simp [mappedBlock,Block.mappedBy,Ne.symm same]
      rw [unmapped,if_neg same,if_neg Bool.false_ne_true]
      apply chained.congr
      intro start member place low high
      obtain ⟨old,inside,mapped,source,rfl⟩ := mem_mappedStarts.mp member
      have extent := (laid.placed old inside).mapped_extent mapped
      have unlinked : old.mappedBy self = false := by simp [Block.mappedBy,source,same]
      exact laid.mapped_spares asked vacant inside (by omega) (by omega) fun by_ => by rw [unlinked] at by_; cases by_
  · exact laid.set_active (laid.active self)

end Mapped

theorem Laid.allocInArena (laid : Laid state) (owner : IsAddress self) {arena : Nat} {arenas : List Nat} {chunk : Chunk}
    (active : IsAddress arena) (present : 0 < chunk.address) (room : 16 ≤ chunk.usable)
    (vacant : state.Vacant chunk.address chunk.usable) :
    Laid (({state with memory := Arena.init state.memory self arena chunk.address}.set self
      {state.sources self with
        activeArena := arena
        arenas := arenas
        blocks := (state.sources self).blocks + 1}).record (some (arenaBlock self bytes arena chunk))) := by
  have arenaMapped : (arenaBlock self bytes arena chunk).mapped = false := by
    simp [Block.mapped,arenaBlock,Nat.ne_of_gt active.1]
  have footer : (arenaBlock self bytes arena chunk).footer = chunk.address := by
    rw [Block.footer,arenaMapped]
    rfl
  have data : (arenaBlock self bytes arena chunk).data = chunk.address + 16 := by rw [Block.data_eq,footer]
  have pointer : (arenaBlock self bytes arena chunk).pointer = chunk.address + 16 := by
    simp [arenaBlock,ChunkFooter.toPointer]
  have outside (old : Block) (inside : old ∈ state.live) (place : Nat) (low : old.start ≤ place)
      (high : place < old.start + old.extent) : Arena.init state.memory self arena chunk.address place = state.memory place := by
    have apart := vacant.2 old inside
    simp only [Arena.init,ChunkFooter.setArena,ChunkFooter.setSource]
    simp (disch := omega) only [Memory.store_outside]
  apply laid.add
  · rfl
  · constructor
    · exact owner
    · exact present
    · rw [data]
      change chunk.address + 16 ≤ chunk.address + chunk.usable
      omega
    · exact Or.inl (pointer.trans data.symm)
    · rw [pointer]
      change chunk.address + 16 ≤ chunk.address + chunk.usable
      omega
    · exact vacant.1
  · exact vacant
  · constructor
    · rw [footer]
      change Memory.load _ chunk.address = self
      simp only [State.set,Arena.init,ChunkFooter.setArena,ChunkFooter.setSource]
      rw [Memory.load_store_other (by omega),Memory.load_store_self owner.2]
    · rw [footer]
      exact Memory.load_store_self active.2
    · intro mapped
      rw [arenaMapped] at mapped
      cases mapped
    · intro shifted
      exact absurd (pointer.trans data.symm) shifted
    · intro mapped
      rw [arenaMapped] at mapped
      cases mapped
  · intro old inside place metadata
    obtain ⟨low,high,_⟩ := metadata
    have within := (laid.placed old inside).inside
    exact outside old inside place low (by omega)
  · intro other
    have unmapped : (arenaBlock self bytes arena chunk).mappedBy other = false := by simp [Block.mappedBy,arenaMapped]
    rw [State.set_source,unmapped,if_neg Bool.false_ne_true]
    have head : (if other = self then ({state.sources self with
        activeArena := arena
        arenas := arenas
        blocks := (state.sources self).blocks + 1} : Source) else state.sources other).mmappedChunkHead =
        (state.sources other).mmappedChunkHead := by
      split
      next same => rw [same]
      next => rfl
    rw [head]
    apply (laid.chained other).congr
    intro start member place low high
    obtain ⟨old,inside,mapped,_,rfl⟩ := mem_mappedStarts.mp member
    have extent := (laid.placed old inside).mapped_extent mapped
    exact outside old inside place (by omega) (by omega)
  · exact laid.set_active active

theorem Laid.alloc (laid : Laid state) (owner : IsAddress self) (honest : Honest state system)
    (allocated : MemSource.alloc mmapThreshold system state self bytes = (next,some block)) :
    Laid (next.record (some block)) := by
  rcases alloc_some allocated with ⟨_,mapped,rfl,rfl⟩ | ⟨_,arena,arenas,chunk,answer,which,rfl,rfl⟩
  · obtain ⟨asked,_,vacant⟩ := honest.mapping _ mapped
    exact laid.allocMapped owner mapped asked vacant
  · obtain ⟨present,_,room,vacant⟩ := honest.chunk _ _ _ answer
    apply laid.allocInArena owner _ present room vacant
    rcases which with rfl | ⟨rfl,nonnull⟩
    · exact laid.active self
    · have low := (honest.mapping _ nonnull).2.2.1
      exact ⟨Nat.pos_of_ne_zero nonnull,by omega⟩

theorem Laid.refused (laid : Laid state) (honest : Honest state system)
    (allocated : MemSource.alloc mmapThreshold system state self bytes = (next,none)) : Laid next := by
  rcases alloc_none allocated with rfl | ⟨nonnull,rfl⟩
  · exact laid
  · have low := (honest.mapping _ nonnull).2.2.1
    refine ⟨laid.placed,laid.apart,laid.kept,?_,laid.set_active ⟨Nat.pos_of_ne_zero nonnull,by dsimp only; omega⟩⟩
    intro other
    have chained := laid.chained other
    rw [State.set_source]
    split
    next same => exact same ▸ chained
    next => exact chained

theorem Laid.rewrite (laid : Laid state)
    (same : ∀ old ∈ state.live, ∀ place, old.start ≤ place → place < old.pointer → other place = state.memory place) :
    Laid {state with memory := other} := by
  refine ⟨laid.placed,laid.apart,?_,?_,laid.active⟩
  · intro old inside
    apply (laid.kept old inside).congr (laid.placed old inside)
    intro place metadata
    exact same old inside place metadata.1 metadata.2.1
  · intro self
    apply (laid.chained self).congr
    intro start member place low high
    obtain ⟨old,inside,mapped,_,rfl⟩ := mem_mappedStarts.mp member
    have data := old.data_eq
    have footer := Block.footer_mapped mapped
    have pointer := (laid.placed old inside).pointer
    exact same old inside place (by omega) (by omega)

def writeFake (memory : Memory) (pointer chunk : Nat) : Memory :=
  ChunkFooter.setLink (ChunkFooter.setSource memory (ChunkFooter.fromPointer pointer) 0) (ChunkFooter.fromPointer pointer) chunk

theorem writeFake_other {pointer chunk place : Nat} (enough : 16 ≤ pointer) (outside : place < pointer - 16 ∨ pointer ≤ place) :
    writeFake memory pointer chunk place = memory place := by
  simp only [writeFake,ChunkFooter.setLink,ChunkFooter.setSource,ChunkFooter.fromPointer,ChunkFooter.dataOffset_eq]
  simp (disch := omega) only [Memory.store_outside]

theorem writeFake_load {pointer chunk : Nat} (fits : chunk < 2 ^ 64) :
    ChunkFooter.source (writeFake memory pointer chunk) (ChunkFooter.fromPointer pointer) = 0 ∧
      ChunkFooter.link (writeFake memory pointer chunk) (ChunkFooter.fromPointer pointer) = chunk := by
  simp only [writeFake,ChunkFooter.setLink,ChunkFooter.setSource,ChunkFooter.source,ChunkFooter.link]
  constructor
  · rw [Memory.load_store_other (by omega),Memory.load_store_self (by omega)]
  · exact Memory.load_store_self fits

theorem Laid.replace {changed : Block} (laid : Laid (state.record (some block))) (start : changed.start = block.start)
    (extent : changed.extent = block.extent) (arena : changed.arena = block.arena) (source : changed.source = block.source)
    (placed : changed.Placed) (kept : changed.Kept state.memory) : Laid (state.record (some changed)) := by
  have mapped (self : Nat) : changed.mappedBy self = block.mappedBy self := by
    simp only [Block.mappedBy,Block.mapped,arena,source]
  refine ⟨?_,?_,?_,?_,laid.active⟩
  · intro old inside
    rcases List.mem_cons.mp inside with rfl | before
    · exact placed
    · exact laid.placed old (List.mem_cons_of_mem block before)
  · obtain ⟨first,rest⟩ := List.pairwise_cons.mp laid.apart
    apply List.pairwise_cons.mpr
    refine ⟨?_,rest⟩
    intro old inside
    have apart := first old inside
    unfold Block.Apart at apart ⊢
    rwa [start,extent]
  · intro old inside
    rcases List.mem_cons.mp inside with rfl | before
    · exact kept
    · exact laid.kept old (List.mem_cons_of_mem block before)
  · intro self
    have starts : (state.record (some changed)).mappedStarts self = (state.record (some block)).mappedStarts self := by
      rw [@record_starts state state changed rfl,@record_starts state state block rfl,mapped,start]
    rw [starts]
    exact laid.chained self

def Cleared (memory : Memory) (block : Block) (pointer : Nat) : Prop :=
  block.mapped = true → ∀ place, block.data ≤ place → place + 16 < pointer → memory place = 0

theorem Laid.shift {pointer requested : Nat} (laid : Laid (state.record (some block)))
    (behind : block.pointer = block.data) (low : block.data + 16 ≤ pointer)
    (high : pointer ≤ block.start + block.extent) (cleared : Cleared state.memory block pointer) :
    Laid ({state with memory := writeFake state.memory pointer block.footer}.record
      (some {block with pointer := pointer,requested := requested})) := by
  have here : block ∈ (state.record (some block)).live := List.mem_cons_self
  have placed := laid.placed block here
  have bounds := block.footer_bounds
  have data := block.data_eq
  have lowest := placed.low
  have outside (old : Block) (inside : old ∈ (state.record (some block)).live) (place : Nat) (from_ : old.start ≤ place)
      (upto : place < old.pointer) : writeFake state.memory pointer block.footer place = state.memory place := by
    apply writeFake_other (by omega)
    by_cases same : old = block
    · rw [same] at upto
      omega
    · have apart := laid.apart_of_ne inside here same
      have within := (laid.placed old inside).inside
      unfold Block.Apart at apart
      omega
  have written : Laid ({state with memory := writeFake state.memory pointer block.footer}.record (some block)) :=
    laid.rewrite outside
  have kept := written.kept block here
  have fake := @writeFake_load state.memory pointer block.footer (by omega)
  have shifted : Block.Placed {block with pointer := pointer,requested := requested} :=
    ⟨placed.owner,placed.present,placed.header,Or.inr low,high,placed.low⟩
  refine written.replace rfl rfl rfl rfl shifted ⟨kept.source,kept.arena,kept.size,fun _ => fake,?_⟩
  intro mapped place from_ upto
  have below : place + 16 < pointer := upto
  have same := @writeFake_other state.memory pointer block.footer place (by omega) (.inl (by omega))
  exact same.trans (cleared mapped place from_ upto)

/-- A granted block starts behind its footer, has zeros there when it is mapped, and has
room for the request when the size did not wrap. -/
theorem alloc_room (laid : Laid state) (honest : Honest state system)
    (allocated : alloc mmapThreshold system state self bytes = (next,some block)) :
    block.pointer = block.data ∧ block.requested = bytes ∧
      (NoWrap mmapThreshold bytes → block.data + bytes ≤ block.start + block.extent) ∧
      ∀ pointer ≤ block.start + block.extent, Cleared next.memory block pointer := by
  rcases alloc_some allocated with ⟨large,nonnull,rfl,rfl⟩ | ⟨small,arena,arenas,chunk,answer,which,rfl,rfl⟩
  · obtain ⟨asked,_,vacant⟩ := honest.mapping _ nonnull
    refine ⟨rfl,rfl,?_,?_⟩
    · intro fits
      have enough := pages_ge (mmapSize bytes)
      simp only [NoWrap,if_pos large,MmapChunkFooter.dataOffset] at fits
      have size : mmapSize bytes = bytes + 40 := wrap_of_lt fits
      change system.callMmap (mmapSize bytes) + 40 + bytes ≤ system.callMmap (mmapSize bytes) + pages (mmapSize bytes)
      omega
    · intro pointer within _ place low high
      change system.callMmap (mmapSize bytes) + 40 ≤ place at low
      change pointer ≤ system.callMmap (mmapSize bytes) + pages (mmapSize bytes) at within
      change initMapped _ _ _ _ _ place = 0
      rw [initMapped_other (by omega)]
      · exact Memory.fill_inside (by omega) (by omega)
      · rcases (laid.chained self).head_mem with none | member
        · exact Or.inl none
        · obtain ⟨head,inside,mapped,_,same⟩ := mem_mappedStarts.mp member
          have extent := (laid.placed head inside).mapped_extent mapped
          have apart := vacant.2 head inside
          omega
  · have nonnull : arena ≠ 0 := by
      rcases which with rfl | ⟨_,nonnull⟩
      · exact Nat.ne_of_gt (laid.active self).1
      · exact nonnull
    have data : (arenaBlock self bytes arena chunk).data = chunk.address + 16 := by
      simp [Block.data,Block.mapped,arenaBlock,nonnull,ChunkFooter.toPointer]
    rw [data]
    refine ⟨by simp [arenaBlock,ChunkFooter.toPointer],rfl,?_,?_⟩
    · intro fits
      have enough := (honest.chunk _ _ _ answer).2.1
      simp only [NoWrap,if_neg (Nat.not_le.mpr small),ChunkFooter.dataOffset_eq] at fits
      have size : Arena.allocSize bytes = bytes + 16 := by rw [Arena.allocSize,ChunkFooter.dataOffset_eq,wrap_of_lt fits]
      change chunk.address + 16 + bytes ≤ chunk.address + chunk.usable
      omega
    · intro _ _ mapped
      simp [Block.mapped,arenaBlock,nonnull] at mapped

theorem allocAlign_none {align sz : Nat} (allocated : allocAlign mmapThreshold system state self align sz = (next,none)) :
    alloc mmapThreshold system state self (alignSize align sz) = (next,none) := by
  simp only [allocAlign] at allocated
  split at allocated
  next =>
    cases allocated
    assumption
  next => split at allocated <;> cases allocated

theorem allocAlign_some {align sz : Nat}
    (allocated : allocAlign mmapThreshold system state self align sz = (next,some block)) :
    ∃ middle inner, alloc mmapThreshold system state self (alignSize align sz) = (middle,some inner) ∧
      (isAligned inner.pointer align = true ∧ next = middle ∧ block = {inner with requested := sz} ∨
        isAligned inner.pointer align = false ∧
          next = {middle with
            memory := writeFake middle.memory (alignUp (inner.pointer + ChunkFooter.dataOffset) align)
              (ChunkFooter.fromPointer inner.pointer)} ∧
          block = {inner with
            pointer := ChunkFooter.toPointer
              (ChunkFooter.fromPointer (alignUp (inner.pointer + ChunkFooter.dataOffset) align))
            requested := sz}) := by
  simp only [allocAlign] at allocated
  split at allocated
  next => cases allocated
  next middle inner granted =>
    split at allocated
    next aligned =>
      cases allocated
      exact ⟨_,inner,granted,Or.inl ⟨aligned,rfl,rfl⟩⟩
    next unaligned =>
      cases allocated
      exact ⟨_,inner,granted,Or.inr ⟨Bool.eq_false_iff.mpr unaligned,rfl,rfl⟩⟩

theorem alignUp_room {align sz exponent data limit : Nat} (small : exponent < 64) (same : align = 2 ^ exponent)
    (room : data + (sz + align + 16) ≤ limit) (low : limit ≤ 2 ^ 63) :
    data + 16 ≤ alignUp (data + 16) align ∧ alignUp (data + 16) align + sz ≤ limit := by
  subst same
  have bounds := @alignUp_bounds (data + 16) exponent small (by omega)
  omega

theorem allocAlign_room {align sz exponent : Nat} (laid : Laid state) (owner : IsAddress self) (honest : Honest state system)
    (small : exponent < 64) (power : align = 2 ^ exponent) (fits : NoWrap mmapThreshold (sz + align + ChunkFooter.dataOffset))
    (allocated : MemSource.allocAlign mmapThreshold system state self align sz = (next,some block)) :
    Laid (next.record (some block)) ∧ block.requested = sz ∧ block.pointer + sz ≤ block.start + block.extent := by
  have total : sz + align + 16 < 2 ^ 64 := by
    simp only [NoWrap,ChunkFooter.dataOffset_eq] at fits
    omega
  have size := alignSize_eq total
  obtain ⟨middle,inner,granted,outcome⟩ := allocAlign_some allocated
  have inside := laid.alloc owner honest granted
  obtain ⟨pointer,_,room,cleared⟩ := alloc_room laid honest granted
  have placed := inside.placed inner List.mem_cons_self
  have kept := inside.kept inner List.mem_cons_self
  rw [size] at room
  rw [ChunkFooter.dataOffset_eq] at fits
  have room := room fits
  rcases outcome with ⟨_,rfl,rfl⟩ | ⟨_,rfl,rfl⟩
  · refine ⟨?_,rfl,?_⟩
    · exact inside.replace rfl rfl rfl rfl
        ⟨placed.owner,placed.present,placed.header,placed.pointer,placed.inside,placed.low⟩
        ⟨kept.source,kept.arena,kept.size,kept.fake,kept.padding⟩
    · dsimp only
      omega
  · obtain ⟨low,high⟩ := alignUp_room small power room placed.low
    have footer : ChunkFooter.fromPointer inner.pointer = inner.footer := by
      simp [ChunkFooter.fromPointer,pointer,inner.data_eq]
    have back : ChunkFooter.toPointer (ChunkFooter.fromPointer (alignUp (inner.pointer + ChunkFooter.dataOffset) align)) =
        alignUp (inner.data + 16) align := by
      simp only [ChunkFooter.toPointer,ChunkFooter.fromPointer,ChunkFooter.dataOffset_eq,pointer]
      omega
    rw [footer,back,pointer,ChunkFooter.dataOffset_eq]
    exact ⟨inside.shift pointer low (by omega) (cleared _ (by omega)),rfl,high⟩

end Pgasus.MemSource
