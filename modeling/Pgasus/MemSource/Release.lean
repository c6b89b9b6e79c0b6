import Pgasus.Library.Runs
import Pgasus.MemSource.Blocks

/-! Releasing blocks. A free releases the block that the pointer was obtained for, as
long as no shifted pointer of a directly mapped block is freed. -/
namespace Pgasus.MemSource
open Runs Words DoublyLinked

/-- What the callers promise: alignments are powers of two, and inside a live block
only the bytes from its pointer on are written. -/
def Admissible (state : State) : Action → Prop
  | .alloc self _ system => IsAddress self ∧ Honest state system
  | .allocAligned self align _ system => IsAddress self ∧ Honest state system ∧ ∃ exponent < 64, align = 2 ^ exponent
  | .free _ => True
  | .write place _ => ∀ block ∈ state.live, block.start ≤ place → place < block.start + block.extent → block.pointer ≤ place

/-- An aligned request does not wrap, and a freed pointer of a directly mapped block is
the one behind the header. -/
def FreesUnshifted (mmapThreshold : Nat) (state : State) : Action → Prop
  | .allocAligned _ align sz _ => NoWrap mmapThreshold (sz + align + ChunkFooter.dataOffset)
  | .free p => ∀ block ∈ state.live, block.pointer = p → block.mapped = true → p = MmapChunkFooter.toPointer block.start
  | _ => True

variable {mmapThreshold : Nat} {state next : State} {memory : Memory} {system : System} {self bytes : Nat} {block : Block}

/-- One link at most leads to a footer with a source. -/
theorem getFooterForMem_link {chunk footer : Nat} (real : ChunkFooter.source memory footer ≠ 0)
    (leads : chunk = footer ∨ ChunkFooter.source memory chunk = 0 ∧ ChunkFooter.link memory chunk = footer) :
    getFooterForMem memory footerFuel chunk = some footer := by
  obtain ⟨fuel,enough⟩ : ∃ fuel, footerFuel = fuel + 2 := ⟨2 ^ 64 - 2,by simp [footerFuel]⟩
  rw [enough]
  rcases leads with rfl | ⟨fake,link⟩
  · unfold getFooterForMem
    rw [if_neg real]
  · unfold getFooterForMem
    rw [if_pos fake,link]
    unfold getFooterForMem
    rw [if_neg real]

theorem Laid.found (laid : Laid state) (inside : block ∈ state.live) :
    getFooterForMem state.memory footerFuel (ChunkFooter.fromPointer block.pointer) = some block.footer := by
  have kept := laid.kept block inside
  apply getFooterForMem_link
  · rw [kept.source]
    exact Nat.ne_of_gt (laid.placed block inside).owner.1
  · by_cases same : block.pointer = block.data
    · exact .inl (by simp [same,block.data_eq,ChunkFooter.fromPointer])
    · exact .inr (kept.fake same)

section Unlink
variable {head chunk : Nat} {starts : List Nat}

theorem Chained.neighbours (chained : Chained memory head starts) (distinct : starts.Nodup) (member : chunk ∈ starts) :
    (MmapChunkFooter.prev memory chunk = 0 ∨ MmapChunkFooter.prev memory chunk ∈ starts) ∧
      MmapChunkFooter.prev memory chunk ≠ chunk ∧
      (MmapChunkFooter.next memory chunk = 0 ∨ MmapChunkFooter.next memory chunk ∈ starts) ∧
      MmapChunkFooter.next memory chunk ≠ chunk :=
  ⟨Chain.previous_mem chained member,Chain.previous_ne chained member distinct (Chain.nonnull chained),
    Chain.next_mem chained member,Chain.next_ne chained member distinct⟩

theorem unlinkNext_load {address : Nat} (apart : MmapChunkFooter.prev memory chunk = 0 ∨
    address + 8 ≤ MmapChunkFooter.prev memory chunk + 16 ∨ MmapChunkFooter.prev memory chunk + 24 ≤ address) :
    (unlinkNext memory chunk).load address = memory.load address := by
  unfold unlinkNext
  split
  next => rfl
  next present =>
    have aside := apart.resolve_left present
    exact Memory.load_store_other (by omega)

theorem unlinkPrev_load {address : Nat} (apart : MmapChunkFooter.next memory chunk = 0 ∨
    address + 8 ≤ MmapChunkFooter.next memory chunk + 8 ∨ MmapChunkFooter.next memory chunk + 16 ≤ address) :
    (unlinkPrev memory chunk).load address = memory.load address := by
  unfold unlinkPrev
  split
  next => rfl
  next present =>
    have aside := apart.resolve_left present
    exact Memory.load_store_other (by omega)

theorem unlink_other {place : Nat} (chained : Chained memory head starts) (distinct : starts.Nodup) (member : chunk ∈ starts)
    (each : ∀ start ∈ starts, ∀ other ∈ starts, start ≠ other → start + 40 ≤ other ∨ other + 40 ≤ start)
    (outside : ∀ start ∈ starts, place < start + 8 ∨ start + 24 ≤ place) :
    unlinkPrev (unlinkNext memory chunk) chunk place = memory place := by
  obtain ⟨prev,_,next,_⟩ := chained.neighbours distinct member
  have first : unlinkNext memory chunk place = memory place := by
    unfold unlinkNext
    split
    next => rfl
    next present =>
      have := outside _ (prev.resolve_left present)
      exact Memory.store_outside (by omega)
  rw [← first]
  have same : MmapChunkFooter.next (unlinkNext memory chunk) chunk = MmapChunkFooter.next memory chunk := by
    apply unlinkNext_load
    rcases prev with none | before
    · exact Or.inl none
    · have := each _ before chunk member (chained.neighbours distinct member).2.1
      omega
  unfold unlinkPrev
  rw [same]
  split
  next => rfl
  next present =>
    have := outside _ (next.resolve_left present)
    exact Memory.store_outside (by omega)

/-- The two stores take the chunk out of the list. -/
theorem unlink_chained (chained : Chained memory head starts) (distinct : starts.Nodup) (member : chunk ∈ starts)
    (low : ∀ start ∈ starts, start < 2 ^ 64)
    (each : ∀ start ∈ starts, ∀ other ∈ starts, start ≠ other → start + 40 ≤ other ∨ other + 40 ≤ start) :
    Chained (unlinkPrev (unlinkNext memory chunk) chunk)
      (if MmapChunkFooter.prev memory chunk = 0 then MmapChunkFooter.next memory chunk else head) (starts.erase chunk) := by
  obtain ⟨prev,prevOther,next,nextOther⟩ := chained.neighbours distinct member
  have nextLow : MmapChunkFooter.next memory chunk < 2 ^ 64 := by
    rcases next with none | after
    · omega
    · exact low _ after
  have prevLow : MmapChunkFooter.prev memory chunk < 2 ^ 64 := by
    rcases prev with none | before
    · omega
    · exact low _ before
  -- the first store is to the predecessor's `next`
  have apart (start : Nat) (inside : start ∈ starts) : MmapChunkFooter.prev memory chunk = 0 ∨
      MmapChunkFooter.prev memory chunk = start ∨ start + 40 ≤ MmapChunkFooter.prev memory chunk ∨
        MmapChunkFooter.prev memory chunk + 40 ≤ start := by
    rcases prev with none | before
    · exact Or.inl none
    · by_cases same : MmapChunkFooter.prev memory chunk = start
      · exact Or.inr (Or.inl same)
      · have := each _ before start inside same
        omega
  have firstPrev (start : Nat) (inside : start ∈ starts) :
      MmapChunkFooter.prev (unlinkNext memory chunk) start = MmapChunkFooter.prev memory start := by
    apply unlinkNext_load
    have := apart start inside
    omega
  have firstNext (start : Nat) (inside : start ∈ starts) : MmapChunkFooter.next (unlinkNext memory chunk) start =
      if MmapChunkFooter.prev memory chunk = start then MmapChunkFooter.next memory chunk
      else MmapChunkFooter.next memory start := by
    split
    next same =>
      have present : MmapChunkFooter.prev memory chunk ≠ 0 := fun none =>
        Chain.nonnull chained (none ▸ same ▸ inside)
      unfold unlinkNext
      rw [if_neg present,same]
      exact Memory.load_store_self nextLow
    next different =>
      apply unlinkNext_load
      have := apart start inside
      omega
  have sameNext : MmapChunkFooter.next (unlinkNext memory chunk) chunk = MmapChunkFooter.next memory chunk := by
    rw [firstNext chunk member,if_neg prevOther]
  -- the second one to the successor's `prev`
  have away (start : Nat) (inside : start ∈ starts) : MmapChunkFooter.next memory chunk = 0 ∨
      MmapChunkFooter.next memory chunk = start ∨ start + 40 ≤ MmapChunkFooter.next memory chunk ∨
        MmapChunkFooter.next memory chunk + 40 ≤ start := by
    rcases next with none | after
    · exact Or.inl none
    · by_cases same : MmapChunkFooter.next memory chunk = start
      · exact Or.inr (Or.inl same)
      · have := each _ after start inside same
        omega
  apply Chain.remove chained distinct (Chain.nonnull chained) member
  · intro start inside _
    rw [← firstNext start inside]
    apply unlinkPrev_load
    rw [sameNext]
    have := away start inside
    omega
  · intro start inside _
    rw [← firstPrev start inside]
    split
    next same =>
      have present : MmapChunkFooter.next memory chunk ≠ 0 := fun none =>
        Chain.nonnull chained (none ▸ same ▸ inside)
      unfold unlinkPrev
      rw [sameNext,if_neg present,same,firstPrev chunk member]
      exact Memory.load_store_self prevLow
    next different =>
      apply unlinkPrev_load
      rw [sameNext]
      have := away start inside
      omega

end Unlink

theorem starts_erase {live : List Block} (test : Block → Bool) (member : block ∈ live)
    (distinct : ((live.filter test).map Block.start).Nodup) : ((live.erase block).filter test).map Block.start =
      if test block then ((live.filter test).map Block.start).erase block.start else (live.filter test).map Block.start := by
  induction live with
  | nil => cases member
  | cons first rest ih =>
    by_cases same : first = block
    · subst same
      rw [List.erase_cons_head]
      cases passes : test first <;> simp [passes]
    · have later := (List.mem_cons.mp member).resolve_left (Ne.symm same)
      rw [List.erase_cons_tail (by simpa using same)]
      cases passes : test first with
      | false =>
        rw [List.filter_cons_of_neg (by simp [passes])] at distinct
        rw [List.filter_cons_of_neg (by simp [passes]),List.filter_cons_of_neg (by simp [passes])]
        exact ih later distinct
      | true =>
        rw [List.filter_cons_of_pos passes,List.map_cons] at distinct
        obtain ⟨unique,distinct⟩ := List.nodup_cons.mp distinct
        rw [List.filter_cons_of_pos passes,List.filter_cons_of_pos passes,List.map_cons,List.map_cons,ih later distinct]
        split
        next also =>
          have different : first.start ≠ block.start := fun equal =>
            unique (equal ▸ List.mem_map_of_mem (List.mem_filter.mpr ⟨later,also⟩))
          rw [List.erase_cons_tail (by simpa using different)]
        next => rfl

theorem Laid.erase (laid : Laid state) (inside : block ∈ state.live) (next : State) (live : next.live = state.live.erase block)
    (same : ∀ old ∈ state.live, ∀ place, old.Metadata place → next.memory place = state.memory place)
    (chained : ∀ self, Chained next.memory (next.sources self).mmappedChunkHead
      (if block.mappedBy self then (state.mappedStarts self).erase block.start else state.mappedStarts self))
    (active : ∀ self, (next.sources self).activeArena = (state.sources self).activeArena) : Laid next := by
  have member (old : Block) (inside : old ∈ next.live) : old ∈ state.live := by
    rw [live] at inside
    exact List.mem_of_mem_erase inside
  refine ⟨fun old inside => laid.placed old (member old inside),?_,?_,?_,fun self => active self ▸ laid.active self⟩
  · rw [live]
    exact laid.apart.sublist List.erase_sublist
  · intro old inside
    have before := member old inside
    exact (laid.kept old before).congr (laid.placed old before) (same old before)
  · intro self
    have starts := starts_erase (Block.mappedBy self) inside (laid.starts_nodup self)
    unfold State.mappedStarts at chained ⊢
    rw [live,starts]
    exact chained self

@[simp] theorem State.set_memory (state : State) (source : Source) : (state.set self source).memory = state.memory := rfl

@[simp] theorem removeBlock_head (source : Source) : (removeBlock source).mmappedChunkHead = source.mmappedChunkHead := rfl

@[simp] theorem removeBlock_arena (source : Source) : (removeBlock source).activeArena = source.activeArena := rfl

theorem Laid.freeArena (laid : Laid state) (inside : block ∈ state.live) (arena : block.mapped = false) :
    freeImpl state block.source block.pointer block.footer =
      {state with released := state.released ++ [block.release]}.set block.source
        (removeBlock (state.sources block.source)) := by
  have kept := laid.kept block inside
  have nonnull : block.arena ≠ 0 := by simpa [Block.mapped] using arena
  unfold freeImpl
  rw [kept.arena]
  simp [nonnull,Block.release,Block.footer,arena]

def unlinked (state : State) (block : Block) : State :=
  {state with
    memory := unlinkPrev (unlinkNext state.memory block.start) block.start
    released := state.released ++ [block.release]}.set block.source
      (removeBlock {state.sources block.source with
        mmappedChunkHead := if MmapChunkFooter.prev state.memory block.start = 0 then
          MmapChunkFooter.next state.memory block.start else (state.sources block.source).mmappedChunkHead})

theorem Laid.freeMapped (laid : Laid state) (inside : block ∈ state.live) (mapped : block.mapped = true)
    (unshifted : block.pointer = MmapChunkFooter.toPointer block.start) :
    freeImpl state block.source block.pointer block.footer = unlinked state block := by
  have kept := laid.kept block inside
  have member : block.start ∈ state.mappedStarts block.source := mem_mappedStarts.mpr ⟨block,inside,mapped,rfl,rfl⟩
  have null : block.arena = 0 := by simpa [Block.mapped] using mapped
  have chunk : MmapChunkFooter.fromPointer block.pointer = block.start := by
    simp [unshifted,MmapChunkFooter.fromPointer,MmapChunkFooter.toPointer]
  have size : MmapChunkFooter.size (unlinkPrev (unlinkNext state.memory block.start) block.start) block.start = block.size := by
    rw [← kept.size mapped]
    apply Memory.load_congr
    intro place low high
    apply unlink_other (laid.chained block.source) (laid.starts_nodup block.source) member
      fun start member other also different => laid.starts_apart member also different
    intro start also
    by_cases same : start = block.start
    · omega
    · have := laid.starts_apart also member same
      omega
  unfold freeImpl
  rw [kept.arena]
  simp [null,MemSource.freeMapped,chunk,size,Block.release,mapped,unlinked,State.set]

structure Freed (state : State) (block : Block) (next : State) : Prop where
  live : next.live = state.live
  freed : next.freed = state.freed
  released : next.released = state.released ++ [block.release]
  source : ∃ head, next.sources block.source = removeBlock {state.sources block.source with mmappedChunkHead := head}
  others : ∀ other, other ≠ block.source → next.sources other = state.sources other

theorem freed_set {source : Source} {head : Nat} (released : state.released = next.released ++ [block.release])
    (live : state.live = next.live) (freed : state.freed = next.freed) (sources : state.sources = next.sources)
    (removed : source = removeBlock {next.sources block.source with mmappedChunkHead := head}) :
    Freed next block (state.set block.source source) := by
  refine ⟨live,freed,released,⟨head,?_⟩,fun other different => ?_⟩
  · rw [State.set_source,if_pos rfl,removed]
  · rw [State.set_source,if_neg different,sources]

theorem freed_unlinked : Freed state block (unlinked state block) := by
  unfold unlinked
  exact freed_set rfl rfl rfl rfl rfl

theorem Laid.unlinked (laid : Laid state) (inside : block ∈ state.live) (mapped : block.mapped = true) :
    Laid {MemSource.unlinked state block with
      live := (MemSource.unlinked state block).live.erase block
      freed := (MemSource.unlinked state block).freed ++ [block]} := by
  have member : block.start ∈ state.mappedStarts block.source := mem_mappedStarts.mpr ⟨block,inside,mapped,rfl,rfl⟩
  have each (start : Nat) (one : start ∈ state.mappedStarts block.source) (other : Nat)
      (two : other ∈ state.mappedStarts block.source) (different : start ≠ other) :
      start + 40 ≤ other ∨ other + 40 ≤ start := laid.starts_apart one two different
  have low (start : Nat) (also : start ∈ state.mappedStarts block.source) : start < 2 ^ 64 := by
    obtain ⟨owner,owned,_,_,rfl⟩ := mem_mappedStarts.mp also
    have := (laid.placed owner owned).low
    omega
  -- only links of the same source are written
  have spared (old : Block) (before : old ∈ state.live) (place : Nat) (low : old.start ≤ place)
      (high : place < old.start + old.extent)
      (unlinked : old.mappedBy block.source = true → place < old.start + 8 ∨ old.start + 24 ≤ place) :
      unlinkPrev (unlinkNext state.memory block.start) block.start place = state.memory place := by
    apply unlink_other (laid.chained block.source) (laid.starts_nodup block.source) member each
    intro start also
    obtain ⟨owner,owned,isMapped,source,rfl⟩ := mem_mappedStarts.mp also
    by_cases same : old = owner
    · subst same
      exact unlinked (by simp [Block.mappedBy,isMapped,source])
    · have := laid.links_away before owned isMapped same low high
      omega
  apply laid.erase inside
  · rw [freed_unlinked.live]
  · intro old before place metadata
    obtain ⟨low,high,unlinked⟩ := metadata
    have within := (laid.placed old before).inside
    simp only [MemSource.unlinked,State.set_memory]
    exact spared old before place low (by omega) fun by_ => unlinked (Bool.and_eq_true_iff.mp by_).1
  · intro self
    have chained := laid.chained self
    simp only [MemSource.unlinked,State.set_memory,State.set_source]
    by_cases same : self = block.source
    · subst same
      have by_ : block.mappedBy block.source = true := by simp [Block.mappedBy,mapped]
      rw [if_pos rfl,if_pos by_,removeBlock_head]
      dsimp only
      exact unlink_chained chained (laid.starts_nodup block.source) member low each
    · have unmapped : block.mappedBy self = false := by simp [Block.mappedBy,Ne.symm same]
      rw [if_neg same,unmapped,if_neg Bool.false_ne_true]
      apply chained.congr
      intro start also place low high
      obtain ⟨old,before,isMapped,source,rfl⟩ := mem_mappedStarts.mp also
      have extent := (laid.placed old before).mapped_extent isMapped
      have unlinked : old.mappedBy block.source = false := by simp [Block.mappedBy,source,same]
      exact spared old before place (by omega) (by omega) fun by_ => by rw [unlinked] at by_; cases by_
  · intro self
    simp only [MemSource.unlinked,State.set_source]
    split
    next same => rw [same,removeBlock_arena]
    next => rfl

theorem Laid.free_eq (laid : Laid state) (inside : block ∈ state.live) :
    free state block.pointer = some (freeImpl state block.source block.pointer block.footer) := by
  have nonnull : block.pointer ≠ 0 := by
    have data := block.data_eq
    have pointer := (laid.placed block inside).pointer
    omega
  unfold MemSource.free
  rw [if_neg nonnull,laid.found inside,Option.map_some,(laid.kept block inside).source]

theorem Laid.free (laid : Laid state) (inside : block ∈ state.live)
    (unshifted : block.mapped = true → block.pointer = MmapChunkFooter.toPointer block.start) :
    ∃ next, free state block.pointer = some next ∧ Freed state block next ∧
      Laid {next with live := next.live.erase block,freed := next.freed ++ [block]} := by
  have freed := laid.free_eq inside
  cases mapped : block.mapped with
  | false =>
    rw [laid.freeArena inside mapped] at freed
    refine ⟨_,freed,freed_set rfl rfl rfl rfl rfl,?_⟩
    · apply laid.erase inside
      · rfl
      · exact fun _ _ _ _ => rfl
      · intro self
        have unmapped : block.mappedBy self = false := by simp [Block.mappedBy,mapped]
        rw [unmapped,if_neg Bool.false_ne_true]
        simp only [State.set_source]
        have chained := laid.chained self
        split
        next same =>
          rw [same] at chained ⊢
          exact chained
        next => exact chained
      · intro self
        simp only [State.set_source]
        split
        next same => rw [same]; rfl
        next => rfl
  | true =>
    rw [laid.freeMapped inside mapped (unshifted mapped)] at freed
    exact ⟨_,freed,freed_unlinked,laid.unlinked inside mapped⟩

/-- Everything freed was released as the block that it was, the list of chunks of each
source is that of its live directly mapped blocks, and every live pointer leads to its footer. -/
structure Intact (state : State) : Prop where
  released : state.released = state.freed.map Block.release
  distinct : ∀ self, (state.mappedStarts self).Nodup
  chained : ∀ self, Chained state.memory (state.sources self).mmappedChunkHead (state.mappedStarts self)
  found : ∀ block ∈ state.live, getFooterForMem state.memory footerFuel (ChunkFooter.fromPointer block.pointer) = some block.footer
  owned : ∀ block ∈ state.live, ChunkFooter.source state.memory block.footer = block.source ∧
    ChunkFooter.arena state.memory block.footer = block.arena
  alive : ∀ self, (state.sources self).destroyed = false

def State.blocksOf (state : State) (self : Nat) : Nat := (state.live.filter (fun block => block.source = self)).length

structure Sound (refs : Nat → Nat) (state : State) : Prop where
  laid : Laid state
  released : state.released = state.freed.map Block.release
  counted : ∀ self, (state.sources self).blocks = blockCount (refs self) + state.blocksOf self
  alive : ∀ self, (state.sources self).destroyed = false

variable {refs : Nat → Nat}

theorem Sound.intact (sound : Sound refs state) : Intact state := by
  refine ⟨sound.released,sound.laid.starts_nodup,sound.laid.chained,?_,?_,sound.alive⟩
  · intro block inside
    exact sound.laid.found inside
  · intro block inside
    have kept := sound.laid.kept block inside
    exact ⟨kept.source,kept.arena⟩

theorem sound_create (memory : Memory) (native : Nat → Nat) (addresses : ∀ self, IsAddress (native self)) :
    Sound refs (State.create memory native refs) :=
  ⟨⟨nofun,List.Pairwise.nil,nofun,fun _ => rfl,addresses⟩,rfl,fun _ => rfl,fun _ => rfl⟩

structure Counts (state : State) (owner : Nat) (granted : Option Block) (next : State) : Prop where
  live : next.live = state.live
  freed : next.freed = state.freed
  released : next.released = state.released
  source : ∀ block, granted = some block → block.source = owner
  counted : ∀ other, (next.sources other).blocks =
    (state.sources other).blocks + if other = owner then granted.toList.length else 0
  alive : ∀ other, (next.sources other).destroyed = (state.sources other).destroyed

theorem counts_set {granted : Option Block} {source : Source} (owned : ∀ block, granted = some block → block.source = self)
    (counted : source.blocks = (state.sources self).blocks + granted.toList.length)
    (alive : source.destroyed = (state.sources self).destroyed) :
    Counts state self granted ({state with memory}.set self source) := by
  refine ⟨rfl,rfl,rfl,owned,fun other => ?_,fun other => ?_⟩
  · rw [State.set_source]
    split
    next same => rw [same,counted]
    next => rfl
  · rw [State.set_source]
    split
    next same => rw [same,alive]
    next => rfl

theorem alloc_counts {granted : Option Block} (allocated : alloc mmapThreshold system state self bytes = (next,granted)) :
    Counts state self granted next := by
  cases granted with
  | none =>
    rcases alloc_none allocated with rfl | ⟨_,rfl⟩
    · exact ⟨rfl,rfl,rfl,fun _ contrary => by (cases contrary),fun _ => by simp,fun _ => rfl⟩
    · exact counts_set (fun _ contrary => by cases contrary) rfl rfl
  | some block =>
    rcases alloc_some allocated with ⟨_,_,rfl,rfl⟩ | ⟨_,_,_,_,_,_,rfl,rfl⟩
    · exact counts_set (fun _ same => by cases same; rfl) rfl rfl
    · exact counts_set (fun _ same => by cases same; rfl) rfl rfl

theorem allocAlign_counts {align sz : Nat} {granted : Option Block}
    (allocated : allocAlign mmapThreshold system state self align sz = (next,granted)) : Counts state self granted next := by
  cases granted with
  | none => exact alloc_counts (allocAlign_none allocated)
  | some block =>
    obtain ⟨middle,inner,granted,outcome⟩ := allocAlign_some allocated
    have counts := alloc_counts granted
    have owned := counts.source inner rfl
    rcases outcome with ⟨_,rfl,rfl⟩ | ⟨_,rfl,rfl⟩
    · exact ⟨counts.live,counts.freed,counts.released,fun _ same => by (cases same; exact owned),counts.counted,counts.alive⟩
    · exact ⟨counts.live,counts.freed,counts.released,fun _ same => by (cases same; exact owned),counts.counted,counts.alive⟩

theorem Sound.record {granted : Option Block} (sound : Sound refs state) (laid : Laid (next.record granted))
    (counts : Counts state self granted next) : Sound refs (next.record granted) := by
  have live := counts.live
  have freed := counts.freed
  have released := counts.released
  cases granted with
  | none =>
    refine ⟨laid,?_,fun other => ?_,fun other => ?_⟩
    · exact released.trans (sound.released.trans (congrArg _ freed.symm))
    · have counted := counts.counted other
      have before := sound.counted other
      simp only [State.record,State.blocksOf,live] at before ⊢
      rw [counted,before]
      simp
    · exact (counts.alive other).trans (sound.alive other)
  | some block =>
    refine ⟨laid,?_,fun other => ?_,fun other => ?_⟩
    · exact released.trans (sound.released.trans (congrArg _ freed.symm))
    · have counted := counts.counted other
      have before := sound.counted other
      have owned := counts.source block rfl
      simp only [State.record,State.blocksOf,live] at before ⊢
      rw [counted,before,List.filter_cons,owned]
      by_cases same : other = self
      · simp [same,Nat.add_assoc]
      · simp [same,Ne.symm same]
    · exact (counts.alive other).trans (sound.alive other)

theorem one_lt_blockCount {refs : Nat} (held : 0 < refs) : 1 < blockCount refs := by
  have large : 1 * 2 ^ 40 ≤ refs * 2 ^ 40 := Nat.mul_le_mul_right (2 ^ 40) held
  have shifted : blockCount refs = refs * 2 ^ 40 := Nat.shiftLeft_eq refs 40
  rw [shifted]
  exact Nat.lt_of_lt_of_le (by decide) large

theorem blocksOf_erase (inside : block ∈ state.live) (self : Nat) :
    ((state.live.erase block).filter (fun block => block.source = self)).length + (if block.source = self then 1 else 0) =
      state.blocksOf self := by
  have perm := (List.perm_cons_erase inside).filter (fun block => decide (block.source = self))
  have length := perm.length_eq
  unfold State.blocksOf
  rw [length,List.filter_cons]
  by_cases owned : block.source = self
  · simp [owned]
  · simp [owned]

theorem Sound.freeLive (sound : Sound refs state) (held : ∀ self, 0 < refs self) (inside : block ∈ state.live)
    (unshifted : block.mapped = true → block.pointer = MmapChunkFooter.toPointer block.start) :
    ∃ next, free state block.pointer = some next ∧
      Sound refs {next with live := next.live.erase block,freed := next.freed ++ [block]} := by
  obtain ⟨next,done,freed,laid⟩ := sound.laid.free inside unshifted
  obtain ⟨head,source⟩ := freed.source
  have users := one_lt_blockCount (held block.source)
  have counted := sound.counted
  refine ⟨next,done,laid,?_,fun self => ?_,fun self => ?_⟩
  · change next.released = (next.freed ++ [block]).map Block.release
    rw [freed.released,freed.freed,sound.released,List.map_append]
    rfl
  · have fewer := blocksOf_erase inside self
    have before := counted self
    change (next.sources self).blocks =
      blockCount (refs self) + ((next.live.erase block).filter (fun block => block.source = self)).length
    rw [freed.live]
    by_cases same : self = block.source
    · subst same
      rw [if_pos rfl] at fewer
      rw [source]
      change (state.sources block.source).blocks - 1 = _
      omega
    · rw [if_neg (Ne.symm same)] at fewer
      rw [freed.others self same,before]
      omega
  · change (next.sources self).destroyed = false
    by_cases same : self = block.source
    · subst same
      have before := counted block.source
      have more : (state.sources block.source).blocks ≠ 1 := by omega
      rw [source]
      simp [removeBlock,sound.alive,more]
    · rw [freed.others self same]
      exact sound.alive self

theorem Sound.step (sound : Sound refs state) (held : ∀ self, 0 < refs self) {action : Action}
    (admissible : Admissible state action) (unshifted : FreesUnshifted mmapThreshold state action)
    (stepped : MemSource.step mmapThreshold state action = some next) : Sound refs next := by
  cases action with
  | alloc self sz system =>
    obtain ⟨owner,honest⟩ := admissible
    simp only [MemSource.step] at stepped
    cases allocated : alloc mmapThreshold system state self sz with
    | mk middle granted =>
      rw [allocated] at stepped
      obtain rfl := Option.some.inj stepped
      apply sound.record _ (alloc_counts allocated)
      cases granted with
      | none => exact sound.laid.refused honest allocated
      | some block => exact sound.laid.alloc owner honest allocated
  | allocAligned self align sz system =>
    obtain ⟨owner,honest,exponent,small,power⟩ := admissible
    simp only [MemSource.step] at stepped
    cases allocated : allocAlign mmapThreshold system state self align sz with
    | mk middle granted =>
      rw [allocated] at stepped
      obtain rfl := Option.some.inj stepped
      apply sound.record _ (allocAlign_counts allocated)
      cases granted with
      | none => exact sound.laid.refused honest (allocAlign_none allocated)
      | some block => exact (allocAlign_room sound.laid owner honest small power unshifted allocated).1
  | free p =>
    simp only [MemSource.step,State.freeLive] at stepped
    cases pointed : state.live.find? (fun block => block.pointer = p) with
    | none =>
      rw [pointed] at stepped
      cases stepped
    | some block =>
      rw [pointed] at stepped
      have inside := List.mem_of_find?_eq_some pointed
      have same : block.pointer = p := by simpa using List.find?_some pointed
      subst same
      obtain ⟨freed,done,sound⟩ := sound.freeLive held inside (unshifted block inside rfl)
      rw [done] at stepped
      obtain rfl := Option.some.inj stepped
      exact sound
  | write place byte =>
    obtain rfl := Option.some.inj stepped
    refine ⟨?_,sound.released,sound.counted,sound.alive⟩
    apply sound.laid.rewrite
    intro old inside other low high
    apply Function.update_of_ne
    intro same
    have within := (sound.laid.placed old inside).inside
    have spared := admissible old inside (by omega) (by omega)
    omega

/-- In every run without a free of a shifted pointer of a directly mapped block, and
without an aligned request whose size wraps, every free releases its block. -/
theorem intact_of_freesUnshifted (mmapThreshold : Nat) (refs : Nat → Nat) (held : ∀ self, 0 < refs self) (memory : Memory)
    (native : Nat → Nat) (addresses : ∀ self, IsAddress (native self)) (actions : List Action) (final : State)
    (meets : Meets (step mmapThreshold)
      (fun state action => Admissible state action ∧ FreesUnshifted mmapThreshold state action)
      (State.create memory native refs) actions)
    (ran : run (step mmapThreshold) (State.create memory native refs) actions = some final) : Intact final := by
  have sound := invariant_of_meets (Sound refs)
    (fun _ _ _ sound condition stepped => sound.step held condition.1 condition.2 stepped)
    (sound_create memory native addresses) meets ran
  exact sound.intact

section Shifted

def maps (size start : Nat) : System := ⟨fun asked => if asked = size then start else 0,fun _ _ => none⟩

def gives (size : Nat) (chunk : Chunk) : System := ⟨fun _ => 0,fun _ asked => if asked = size then some chunk else none⟩

instance (state : State) (start extent : Nat) : Decidable (state.Vacant start extent) :=
  inferInstanceAs (Decidable (_ ∧ _))

instance (value : Nat) : Decidable (IsAddress value) := inferInstanceAs (Decidable (_ ∧ _))

theorem honest_maps {size start : Nat} (asked : 0 < size) (aligned : start % memPageSize = 0)
    (vacant : state.Vacant start (pages size)) : Honest state (maps size start) := by
  constructor
  · intro other
    simp only [maps]
    split
    next same =>
      subst same
      exact fun _ => ⟨asked,aligned,vacant⟩
    next => exact fun absent => absurd rfl absent
  · intro arena other chunk answer
    cases answer

theorem honest_gives {size : Nat} {chunk : Chunk} (present : 0 < chunk.address)
    (enough : size ≤ chunk.usable ∧ 16 ≤ chunk.usable) (vacant : state.Vacant chunk.address chunk.usable) :
    Honest state (gives size chunk) := by
  constructor
  · exact fun other mapped => absurd rfl mapped
  · intro arena other answered answer
    simp only [gives] at answer
    split at answer
    next same =>
      obtain rfl := Option.some.inj answer
      subst same
      exact ⟨present,enough.1,enough.2,vacant⟩
    next => cases answer

def sampleSource : Nat := 0x10000

def fresh : State := State.create (fun _ => 0) (fun _ => 0x20000) (fun _ => 1)

def shiftedActions : List Action := [.alloc sampleSource 33554432 (maps 33554472 0x40000000),
  .allocAligned sampleSource 64 33554432 (maps 33554552 0x50000000),.free 0x50000040]

theorem shiftedActions_run : (run (step builtThreshold) fresh shiftedActions).isSome = true := by decide

theorem shiftedActions_admissible : Meets (step builtThreshold) Admissible fresh shiftedActions := by
  refine ⟨⟨by decide,honest_maps (by decide) (by decide) (by decide)⟩,?_⟩
  intro first stepped
  obtain rfl := Option.some.inj stepped
  refine ⟨⟨by decide,honest_maps (by decide) (by decide) (by decide),6,by decide,by decide⟩,?_⟩
  intro second stepped
  exact ⟨trivial,fun _ _ => trivial⟩

theorem shifted_free_breaks_list : Meets (step builtThreshold) Admissible fresh shiftedActions ∧
    ∃ final, run (step builtThreshold) fresh shiftedActions = some final ∧ ¬Intact final ∧
      (final.sources sampleSource).mmappedChunkHead = 0 ∧ final.mappedStarts sampleSource = [0x40000000] ∧
      final.released = [.munmap 0x50000018 sampleSource] ∧
      final.freed.map Block.release = [.munmap 0x50000000 33554552] := by
  have head : (((run (step builtThreshold) fresh shiftedActions).get shiftedActions_run).sources
      sampleSource).mmappedChunkHead = 0 := by decide
  have starts : ((run (step builtThreshold) fresh shiftedActions).get shiftedActions_run).mappedStarts sampleSource =
      [0x40000000] := by decide
  have released : ((run (step builtThreshold) fresh shiftedActions).get shiftedActions_run).released =
      [.munmap 0x50000018 sampleSource] := by decide
  have freed : ((run (step builtThreshold) fresh shiftedActions).get shiftedActions_run).freed.map Block.release =
      [.munmap 0x50000000 33554552] := by decide
  refine ⟨shiftedActions_admissible,_,(Option.some_get shiftedActions_run).symm,?_,head,starts,released,freed⟩
  intro intact
  have same := intact.released
  rw [released,freed] at same
  cases same

def exactActions : List Action := [.alloc sampleSource 33554432 (maps 33554472 0x40000000),
  .alloc sampleSource 40000000 (maps 40000040 0x50000000),.allocAligned sampleSource 64 100 (gives 196 ⟨0x20018,208⟩),
  .write 0x20040 7,.free 0x40000028,.free 0x20040]

theorem exactActions_run : (run (step builtThreshold) fresh exactActions).isSome = true := by decide

theorem exactActions_meets : Meets (step builtThreshold)
    (fun state action => Admissible state action ∧ FreesUnshifted builtThreshold state action) fresh exactActions := by
  refine ⟨⟨⟨by decide,honest_maps (by decide) (by decide) (by decide)⟩,trivial⟩,?_⟩
  intro first stepped
  obtain rfl := Option.some.inj stepped
  refine ⟨⟨⟨by decide,honest_maps (by decide) (by decide) (by decide)⟩,trivial⟩,?_⟩
  intro second stepped
  obtain rfl := Option.some.inj stepped
  refine ⟨⟨⟨by decide,honest_gives (by decide) (by decide) (by decide),6,by decide,by decide⟩,?_⟩,?_⟩
  · change _ + _ < _
    decide
  intro third stepped
  obtain rfl := Option.some.inj stepped
  refine ⟨⟨by unfold Admissible; decide,trivial⟩,?_⟩
  intro fourth stepped
  obtain rfl := Option.some.inj stepped
  refine ⟨⟨trivial,by unfold FreesUnshifted; decide⟩,?_⟩
  intro fifth stepped
  obtain rfl := Option.some.inj stepped
  exact ⟨⟨trivial,by unfold FreesUnshifted; decide⟩,fun _ _ => trivial⟩

theorem intact_exactActions : ∃ final, run (step builtThreshold) fresh exactActions = some final ∧
    final.released = [.munmap 0x40000000 33554472,.mspaceFree 0x20000 0x20018] ∧ Intact final := by
  have released : ((run (step builtThreshold) fresh exactActions).get exactActions_run).released =
      [.munmap 0x40000000 33554472,.mspaceFree 0x20000 0x20018] := by decide
  exact ⟨_,(Option.some_get exactActions_run).symm,released,intact_of_freesUnshifted builtThreshold (fun _ => 1)
    (fun _ => Nat.one_pos) _ (fun _ => 0x20000) (fun _ => by decide) _ _ exactActions_meets
    (Option.some_get exactActions_run).symm⟩

end Shifted
end Pgasus.MemSource
