import Pgasus.MemSource.Release

/-! The pointers that allocations return: how they are aligned, where they lie in their
block, and what is found from them. -/
namespace Pgasus.MemSource
open Words

/-- `physicalNodeOf`; `nodes` has the field `node` of each source. -/
def physicalNodeOf (nodes : Nat → Int) (memory : Memory) (p : Nat) : Option Int :=
  if p = 0 then some (-1)
  else (getFooterForMem memory footerFuel (ChunkFooter.fromPointer p)).map fun chunk => nodes (ChunkFooter.source memory chunk)

section Align
variable {p exponent : Nat}

theorem isAligned_iff (small : exponent < 64) : isAligned p (2 ^ exponent) = true ↔ p % 2 ^ exponent = 0 := by
  simp only [isAligned,alignMask_pow small,land_mask,decide_eq_true_eq]

theorem alignUp_mod (small : exponent < 64) : alignUp p (2 ^ exponent) % 2 ^ exponent = 0 := by
  rw [alignUp_eq small]
  exact Nat.mul_mod_left _ _

end Align

variable {mmapThreshold : Nat} {state next : State} {system : System} {self bytes : Nat} {block : Block}

/-- The header of a directly mapped block is not a multiple of 16 bytes long. -/
theorem alloc_aligned_iff (mmapThreshold : Nat) (system : System) (state next : State) (self bytes : Nat) (block : Block)
    (pageAligned : ∀ size, system.callMmap size % memPageSize = 0)
    (chunkAligned : ∀ arena size chunk, system.mspaceMalloc arena size = some chunk → chunk.address % 16 = 0)
    (allocated : alloc mmapThreshold system state self bytes = (next,some block)) :
    block.pointer % 16 = 0 ↔ bytes < mmapThreshold := by
  rcases alloc_some allocated with ⟨large,_,rfl,_⟩ | ⟨small,arena,_,chunk,answer,_,rfl,_⟩
  · have start := pageAligned (mmapSize bytes)
    simp only [mappedBlock,MmapChunkFooter.toPointer,MmapChunkFooter.dataOffset,memPageSize] at start ⊢
    omega
  · have start := chunkAligned arena _ chunk answer
    simp only [arenaBlock,ChunkFooter.toPointer,ChunkFooter.dataOffset_eq]
    omega

theorem misaligned_mapping : ∃ next block, alloc builtThreshold (maps 33554472 0x40000000) fresh sampleSource 33554432 =
      (next,some block) ∧
    (∀ size, (maps 33554472 0x40000000).callMmap size % memPageSize = 0) ∧ block.pointer % 16 = 8 := by
  refine ⟨_,_,rfl,fun size => ?_,by decide⟩
  simp only [maps]
  split <;> decide

theorem alloc_aligned_hundred : ∃ next block, alloc builtThreshold (gives 116 ⟨0x20010,128⟩) fresh sampleSource 100 =
    (next,some block) ∧ (block.pointer % 16 = 0 ↔ 100 < builtThreshold) := by
  refine ⟨_,_,rfl,alloc_aligned_iff builtThreshold (gives 116 ⟨0x20010,128⟩) fresh _ sampleSource 100 _ ?_ ?_ rfl⟩
  · exact fun _ => rfl
  · intro arena size chunk answer
    simp only [gives] at answer
    split at answer
    next =>
      obtain rfl := Option.some.inj answer
      rfl
    next => cases answer

theorem free_arena {memory : Memory} {p footer : Nat} (present : p ≠ 0) (kept : state.memory = memory)
    (found : getFooterForMem memory footerFuel (ChunkFooter.fromPointer p) = some footer)
    (arena : ChunkFooter.arena memory footer ≠ 0) : (free state p).map State.released =
      some (state.released ++ [Release.mspaceFree (ChunkFooter.arena memory footer) footer]) := by
  subst kept
  simp only [free,if_neg present,found,Option.map_some,freeImpl,if_neg arena,State.set]

/-- What `alloc_align` returns for the block that `alloc` gave for the enlarged request. -/
structure Realigned (nodes : Nat → Int) (system : System) (next : State) (self align sz : Nat) (given block : Block) : Prop where
  multiple : block.pointer % align = 0
  inside : given.pointer ≤ block.pointer ∧ block.pointer + sz ≤ given.pointer + alignSize align sz
  /-- The fake footer lies behind the real one and in front of the data. -/
  fake : block.pointer ≠ given.pointer → given.pointer ≤ ChunkFooter.fromPointer block.pointer ∧
    ChunkFooter.fromPointer block.pointer + ChunkFooter.dataOffset = block.pointer
  footer : getFooterForMem next.memory footerFuel (ChunkFooter.fromPointer block.pointer) =
    some (ChunkFooter.fromPointer given.pointer)
  node : physicalNodeOf nodes next.memory block.pointer = some (nodes self)
  freed : given.mapped = false → ∃ chunk,
    system.mspaceMalloc given.arena (Arena.allocSize (alignSize align sz)) = some chunk ∧
      (free next block.pointer).map State.released = some (next.released ++ [Release.mspaceFree given.arena chunk.address])

/-- No arena serves a request of half of all addresses, and what is below them can be
rounded up without wrapping. -/
theorem pointer_low {exponent : Nat} (laid : Laid state) (owner : IsAddress self) (honest : Honest state system)
    (threshold : mmapThreshold ≤ 2 ^ 64 - ChunkFooter.dataOffset) (small : exponent < 64) (large : 2 ^ exponent ≤ bytes)
    (allocated : alloc mmapThreshold system state self bytes = (next,some block)) : block.pointer + 16 + 2 ^ exponent ≤ 2 ^ 64 := by
  have placed := (laid.alloc owner honest allocated).placed block List.mem_cons_self
  have bound := Nat.le_trans placed.inside placed.low
  have power : 2 ^ exponent ≤ 2 ^ 63 := Nat.pow_le_pow_right Nat.two_pos (by omega)
  rcases alloc_some allocated with ⟨_,mapped,rfl,_⟩ | ⟨below,arena,_,chunk,answer,_,rfl,_⟩
  · obtain ⟨asked,_,vacant⟩ := honest.mapping _ mapped
    have room := pages_pos asked
    have low := vacant.1
    simp only [mappedBlock,MmapChunkFooter.toPointer,MmapChunkFooter.dataOffset]
    omega
  · obtain ⟨present,enough,_,vacant⟩ := honest.chunk _ _ _ answer
    have low := vacant.1
    rw [ChunkFooter.dataOffset_eq] at threshold
    have size : Arena.allocSize bytes = bytes + 16 := by
      rw [Arena.allocSize,ChunkFooter.dataOffset_eq]
      exact wrap_of_lt (by omega)
    simp only [arenaBlock,ChunkFooter.toPointer,ChunkFooter.dataOffset_eq]
    omega

/-- An aligned allocation finds its real footer and lies in its block, for every residue
of the address and every alignment. Below the threshold, a constant of the build, the
arena's sizes must not wrap. -/
theorem allocAlign_realigned (mmapThreshold : Nat) (nodes : Nat → Int) (system : System) (state next : State) (block : Block)
    (self align sz exponent : Nat) (laid : Laid state) (owner : IsAddress self) (honest : Honest state system)
    (threshold : mmapThreshold ≤ 2 ^ 64 - ChunkFooter.dataOffset)
    (small : exponent < 64) (power : align = 2 ^ exponent) (fits : sz + align + ChunkFooter.dataOffset < 2 ^ 64)
    (allocated : allocAlign mmapThreshold system state self align sz = (next,some block)) :
    ∃ middle given, alloc mmapThreshold system state self (alignSize align sz) = (middle,some given) ∧
      Realigned nodes system next self align sz given block := by
  subst power
  obtain ⟨middle,given,granted,outcome⟩ := allocAlign_some allocated
  refine ⟨middle,given,granted,?_⟩
  have size := alignSize_eq fits
  have inside := laid.alloc owner honest granted
  have placed := inside.placed given List.mem_cons_self
  have kept := inside.kept given List.mem_cons_self
  have pointer := (alloc_room laid honest granted).1
  have own : given.source = self := (alloc_counts granted).source given rfl
  have data := given.data_eq
  have behind : ChunkFooter.fromPointer given.pointer = given.footer := by
    simp [ChunkFooter.fromPointer,pointer,data]
  have chunked : given.mapped = false → ∃ chunk,
      system.mspaceMalloc given.arena (Arena.allocSize (alignSize (2 ^ exponent) sz)) = some chunk ∧ given.footer = chunk.address := by
    intro arena
    rcases alloc_some granted with ⟨_,_,rfl,_⟩ | ⟨_,which,_,chunk,answer,_,rfl,_⟩
    · cases arena
    · exact ⟨chunk,answer,by rw [Block.footer,arena]; rfl⟩
  -- where the pointer goes, and what memory then holds
  have positive := Nat.two_pow_pos exponent
  have powerLow : 2 ^ exponent ≤ 2 ^ 63 := Nat.pow_le_pow_right Nat.two_pos (by omega)
  obtain ⟨multiple,ahead,within,real,arena,leads⟩ : block.pointer % 2 ^ exponent = 0 ∧
      (block.pointer = given.pointer ∨ given.pointer + 16 ≤ block.pointer) ∧
      block.pointer + sz ≤ given.pointer + alignSize (2 ^ exponent) sz ∧
      ChunkFooter.source next.memory given.footer = self ∧ ChunkFooter.arena next.memory given.footer = given.arena ∧
      (ChunkFooter.fromPointer block.pointer = given.footer ∨
        ChunkFooter.source next.memory (ChunkFooter.fromPointer block.pointer) = 0 ∧
          ChunkFooter.link next.memory (ChunkFooter.fromPointer block.pointer) = given.footer) := by
    rcases outcome with ⟨aligned,rfl,rfl⟩ | ⟨unaligned,rfl,rfl⟩
    · refine ⟨(isAligned_iff small).mp aligned,.inl rfl,?_,kept.source.trans own,kept.arena,.inl behind⟩
      dsimp only
      omega
    · have low := pointer_low laid owner honest threshold small (by omega) granted
      obtain ⟨from_,upto⟩ := @alignUp_bounds (given.pointer + 16) exponent small (by omega)
      have multiple := @alignUp_mod (given.pointer + 16) exponent small
      rw [ChunkFooter.dataOffset_eq,behind]
      generalize alignUp (given.pointer + 16) (2 ^ exponent) = r at from_ upto multiple ⊢
      have back : ChunkFooter.toPointer (ChunkFooter.fromPointer r) = r := by
        simp only [ChunkFooter.toPointer,ChunkFooter.fromPointer,ChunkFooter.dataOffset_eq]
        omega
      have spared (address : Nat) (below : address + 8 ≤ given.pointer) :
          (writeFake middle.memory r given.footer).load address = middle.memory.load address :=
        Memory.load_congr fun place _ high => writeFake_other (by omega) (.inl (by omega))
      have written := @writeFake_load middle.memory r given.footer (by omega)
      simp only [back]
      refine ⟨multiple,.inr from_,by omega,?_,?_,.inr written⟩
      · exact (spared given.footer (by omega)).trans (kept.source.trans own)
      · exact (spared (given.footer + 8) (by omega)).trans kept.arena
  have found := getFooterForMem_link (real ▸ Nat.ne_of_gt owner.1) leads
  have present : block.pointer ≠ 0 := by omega
  refine ⟨multiple,⟨by omega,within⟩,fun shifted => ?_,behind ▸ found,?_,fun unmapped => ?_⟩
  · simp only [ChunkFooter.fromPointer,ChunkFooter.dataOffset_eq]
    omega
  · rw [physicalNodeOf,if_neg present,found,Option.map_some,real]
  · obtain ⟨chunk,answer,same⟩ := chunked unmapped
    have nonnull : ChunkFooter.arena next.memory given.footer ≠ 0 := by
      rw [arena]
      simpa [Block.mapped] using unmapped
    have freed := free_arena present rfl found nonnull
    rw [arena,same] at freed
    exact ⟨chunk,answer,freed⟩

theorem allocAlign_realigned_sample : ∃ next block middle given,
    allocAlign builtThreshold (gives 196 ⟨0x20018,208⟩) fresh sampleSource 64 100 = (next,some block) ∧
      block.pointer = 0x20040 ∧
      alloc builtThreshold (gives 196 ⟨0x20018,208⟩) fresh sampleSource (alignSize 64 100) = (middle,some given) ∧
      Realigned (fun _ => 3) (gives 196 ⟨0x20018,208⟩) next sampleSource 64 100 given block := by
  have laid : Laid fresh := (sound_create _ _ fun _ => by decide).laid
  have honest : Honest fresh (gives 196 ⟨0x20018,208⟩) :=
    honest_gives (by decide) (by decide) (by decide)
  obtain ⟨middle,given,granted,realigned⟩ := allocAlign_realigned builtThreshold (fun _ => 3) (gives 196 ⟨0x20018,208⟩) fresh
    _ _ sampleSource 64 100 6 laid (by decide) honest (by decide) (by decide) (by decide) (by decide) rfl
  exact ⟨_,_,middle,given,rfl,by decide,granted,realigned⟩

end Pgasus.MemSource
