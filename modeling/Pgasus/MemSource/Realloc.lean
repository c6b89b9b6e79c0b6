import Pgasus.MemSource.StackedMalloc

/-! Growing a block: the size that a block is said to have, and what `realloc` copies.
The size is counted from the chunk in an arena and is that of the whole mapping for a
directly mapped block, so it is right only for a pointer behind the header, with the
mapping's last page not full. -/
namespace Pgasus.MemSource
open Runs Words

/-- `get_block_size`; `usable` stands for `dlmalloc_usable_size`. -/
def getBlockSize (usable : Nat → Nat) (memory : Memory) (p : Nat) : Option Nat :=
  (getFooterForMem memory footerFuel (ChunkFooter.fromPointer p)).map fun chunk =>
    if ChunkFooter.arena memory chunk ≠ 0 then wrap (usable chunk + (2 ^ 64 - ChunkFooter.dataOffset))
    else MmapChunkFooter.size memory (MmapChunkFooter.fromPointer p)

def allocatedSize (usable : Nat → Nat) (memory : Memory) (p : Nat) : Option Nat := getBlockSize usable memory p

/-- `realloc` with `self` as the current source; 0 is null. -/
def realloc (mmapThreshold : Nat) (usable : Nat → Nat) (system : System) (state : State) (self p sz : Nat) : Option (State × Nat) :=
  (if p = 0 then some 0 else allocatedSize usable state.memory p).bind fun oldSize =>
    if sz < oldSize then some (state,p)
    else
      match stackedmalloc mmapThreshold system state self sz with
      | (state,none) => some (state,0)
      | (state,some block) =>
        let state := state.record (some block)
        if p = 0 then some (state,block.pointer)
        else
          let state := {state with memory := state.memory.move block.pointer p oldSize}
          (state.freeLive p).map fun state => (state,block.pointer)

/-- The bytes that the `memmove` of `realloc` reads. -/
def copied (p oldSize sz place : Nat) : Prop := ¬sz < oldSize ∧ p ≤ place ∧ place < p + oldSize

/-- The usable bytes of a chunk, asked with the address of its footer. -/
def Measures (usable : Nat → Nat) (state : State) : Prop := ∀ block ∈ state.live, block.mapped = false → usable block.start = block.extent

/-- What comes with a non-null result: a live block with room for `sz` bytes, and in it the old bytes. -/
structure Resized (state : State) (block : Block) (oldSize sz : Nat) (next : State) (result : Nat) : Prop where
  room : ∃ given ∈ next.live, given.pointer = result ∧ result + sz ≤ given.start + given.extent
  contents : ∀ offset < min oldSize sz, next.memory (result + offset) = state.memory (block.pointer + offset)
  reads : ∀ place, copied block.pointer oldSize sz place → block.start ≤ place ∧ place < block.start + block.extent

/-- A live block is said to have at least what was asked for and at most what is there,
and it can be resized to every size that does not wrap. -/
structure Measured (mmapThreshold : Nat) (state : State) (block : Block) : Prop where
  size : ∀ usable, Measures usable state → ∃ oldSize, allocatedSize usable state.memory block.pointer = some oldSize ∧
    block.requested ≤ oldSize ∧ block.pointer + oldSize ≤ block.start + block.extent
  resized : ∀ usable oldSize system self sz next result, Measures usable state →
    allocatedSize usable state.memory block.pointer = some oldSize → IsAddress self → Honest state system →
    NoWrap mmapThreshold sz → realloc mmapThreshold usable system state self block.pointer sz = some (next,result) →
    result ≠ 0 → Resized state block oldSize sz next result

/-- The operations on sources, and `realloc`. -/
inductive Call
  | source (action : Action)
  | realloc (usable : Nat → Nat) (self p sz : Nat) (system : System)

def Call.step (mmapThreshold : Nat) (state : State) : Call → Option State
  | source action => MemSource.step mmapThreshold state action
  | realloc usable self p sz system => (MemSource.realloc mmapThreshold usable system state self p sz).map Prod.fst

def Call.Admissible (state : State) : Call → Prop
  | source action => MemSource.Admissible state action
  | realloc usable self p _ system => IsAddress self ∧ Honest state system ∧ Measures usable state ∧
      (p = 0 ∨ ∃ block ∈ state.live, block.pointer = p)

/-- The size does not wrap, and a mapping for it has the bytes of another header left in its last page. -/
def Spare (mmapThreshold bytes : Nat) : Prop :=
  NoWrap mmapThreshold bytes ∧ (mmapThreshold ≤ bytes → mmapSize bytes + MmapChunkFooter.dataOffset ≤ pages (mmapSize bytes))

def Block.counted (block : Block) : Nat := if block.mapped then block.size else block.extent - ChunkFooter.dataOffset

/-- No pointer is moved behind the header for its alignment, and every new block has bytes to spare. -/
def Call.Unmoved (mmapThreshold : Nat) (state : State) : Call → Prop
  | source (.alloc _ sz _) => Spare mmapThreshold sz
  | source (.allocAligned self align sz system) => Spare mmapThreshold (sz + align + ChunkFooter.dataOffset) ∧
      ∀ next block, alloc mmapThreshold system state self (alignSize align sz) = (next,some block) →
        isAligned block.pointer align = true
  | source _ => True
  | realloc _ _ p sz _ => (∀ block ∈ state.live, block.pointer = p → block.counted ≤ sz) → Spare mmapThreshold sz

variable {mmapThreshold : Nat} {state next : State} {system : System} {self bytes : Nat} {block : Block} {refs usable : Nat → Nat}

def Block.Contains (block : Block) (place : Nat) : Prop := block.pointer ≤ place ∧ place < block.start + block.extent

theorem Block.Contains.behind {place : Nat} (inside : block.Contains place) (placed : block.Placed) : block.data ≤ place := by
  have pointer := placed.pointer
  have low := inside.1
  omega

theorem Block.Contains.unlinked {place : Nat} (inside : block.Contains place) (placed : block.Placed) (mapped : block.mapped = true) :
    block.start + 40 ≤ place := by
  have behind := inside.behind placed
  rw [block.data_eq,Block.footer_mapped mapped] at behind
  exact behind

theorem Laid.pointer_injective (laid : Laid state) {first second : Block} (member : first ∈ state.live)
    (also : second ∈ state.live) (same : first.pointer = second.pointer) : first = second := by
  by_contra different
  have apart := laid.apart_of_ne member also different
  have one := laid.placed first member
  have two := laid.placed second also
  have ends := one.inside
  have alsoEnds := two.inside
  have pointer := one.pointer
  have alsoPointer := two.pointer
  have data := first.data_eq
  have alsoData := second.data_eq
  have bounds := first.footer_bounds
  have alsoBounds := second.footer_bounds
  unfold Block.Apart at apart
  omega

theorem Laid.find_live (laid : Laid state) (inside : block ∈ state.live) :
    state.live.find? (fun other => other.pointer = block.pointer) = some block := by
  cases pointed : state.live.find? (fun other => other.pointer = block.pointer) with
  | none =>
    have absent := List.find?_eq_none.mp pointed block inside
    simp at absent
  | some found =>
    have same : found.pointer = block.pointer := by simpa using List.find?_some pointed
    rw [laid.pointer_injective (List.mem_of_find?_eq_some pointed) inside same]

theorem Laid.alloc_contents {granted : Option Block} (laid : Laid state) (honest : Honest state system)
    (allocated : MemSource.alloc mmapThreshold system state self bytes = (next,granted)) {old : Block} (inside : old ∈ state.live)
    {place : Nat} (contained : old.Contains place) : next.memory place = state.memory place := by
  have placed := laid.placed old inside
  have bounds := old.footer_bounds
  have data := old.data_eq
  have behind := contained.behind placed
  have high := contained.2
  cases granted with
  | none => rcases alloc_none allocated with rfl | ⟨_,rfl⟩ <;> rfl
  | some block =>
    rcases alloc_some allocated with ⟨_,mapped,_,rfl⟩ | ⟨_,arena,_,chunk,answer,_,_,rfl⟩
    · obtain ⟨asked,_,vacant⟩ := honest.mapping _ mapped
      apply laid.mapped_spares asked vacant inside (by omega) high
      intro by_
      have unlinked := contained.unlinked placed (Bool.and_eq_true_iff.mp by_).1
      omega
    · obtain ⟨_,_,room,vacant⟩ := honest.chunk _ _ _ answer
      have apart := vacant.2 old inside
      change Arena.init _ _ _ _ place = _
      simp only [Arena.init,ChunkFooter.setArena,ChunkFooter.setSource]
      simp (disch := omega) only [Memory.store_outside]

theorem Laid.free_contents (laid : Laid state) (inside : block ∈ state.live)
    (unshifted : block.mapped = true → block.pointer = MmapChunkFooter.toPointer block.start)
    (freed : MemSource.free state block.pointer = some next) {old : Block} (also : old ∈ state.live) {place : Nat}
    (contained : old.Contains place) : next.memory place = state.memory place := by
  have placed := laid.placed old also
  have bounds := old.footer_bounds
  have data := old.data_eq
  have behind := contained.behind placed
  have high := contained.2
  obtain rfl := Option.some.inj ((laid.free_eq inside).symm.trans freed)
  cases mapped : block.mapped with
  | false => rw [laid.freeArena inside mapped,State.set_memory]
  | true =>
    rw [laid.freeMapped inside mapped (unshifted mapped)]
    have member : block.start ∈ state.mappedStarts block.source := mem_mappedStarts.mpr ⟨block,inside,mapped,rfl,rfl⟩
    simp only [MemSource.unlinked,State.set_memory]
    apply unlink_other (laid.chained block.source) (laid.starts_nodup block.source) member
      fun start one other two different => laid.starts_apart one two different
    intro start listed
    obtain ⟨owner,owned,isMapped,_,rfl⟩ := mem_mappedStarts.mp listed
    by_cases own : old = owner
    · subst own
      have unlinked := contained.unlinked placed isMapped
      omega
    · have := laid.links_away also owned isMapped own (by omega) high
      omega

structure Block.Plain (block : Block) : Prop where
  pointer : block.pointer = block.data
  enough : block.requested ≤ block.counted
  within : block.data + block.counted ≤ block.start + block.extent

structure Regular (refs : Nat → Nat) (state : State) : Prop where
  sound : Sound refs state
  plain : ∀ block ∈ state.live, block.Plain

theorem Block.Plain.unshifted (plain : block.Plain) (mapped : block.mapped = true) :
    block.pointer = MmapChunkFooter.toPointer block.start := by
  rw [plain.pointer,Block.data,if_pos mapped]

theorem alloc_plain (laid : Laid state) (honest : Honest state system) (spare : Spare mmapThreshold bytes)
    (allocated : alloc mmapThreshold system state self bytes = (next,some block)) : block.Plain := by
  obtain ⟨pointer,requested,room,_⟩ := alloc_room laid honest allocated
  have data := block.data_eq
  cases mapped : block.mapped with
  | true =>
    rcases alloc_some allocated with ⟨large,_,rfl,_⟩ | ⟨_,arena,_,chunk,answer,which,rfl,_⟩
    · have size : mmapSize bytes = bytes + 40 := by
        have fits := spare.1
        simp only [NoWrap,if_pos large,MmapChunkFooter.dataOffset] at fits
        exact wrap_of_lt fits
      have left := spare.2 large
      refine ⟨pointer,?_,?_⟩
      · simp only [Block.counted,mapped,if_true]
        change bytes ≤ mmapSize bytes
        omega
      · rw [data,Block.footer_mapped mapped]
        simp only [Block.counted,mapped,if_true]
        change system.callMmap (mmapSize bytes) + 24 + 16 + mmapSize bytes ≤ system.callMmap (mmapSize bytes) + pages (mmapSize bytes)
        rw [MmapChunkFooter.dataOffset] at left
        omega
    · have null : arena = 0 := of_decide_eq_true mapped
      rcases which with rfl | ⟨_,nonnull⟩
      · exact absurd null (Nat.ne_of_gt (laid.active self).1)
      · exact absurd null nonnull
  | false =>
    have footer : block.footer = block.start := by rw [Block.footer,mapped]; rfl
    have fits := room spare.1
    refine ⟨pointer,?_,?_⟩
    · simp only [Block.counted,mapped,Bool.false_eq_true,if_false,ChunkFooter.dataOffset_eq]
      omega
    · simp only [Block.counted,mapped,Bool.false_eq_true,if_false,ChunkFooter.dataOffset_eq]
      omega

theorem Regular.reported (regular : Regular refs state) (inside : block ∈ state.live) (measures : Measures usable state) :
    allocatedSize usable state.memory block.pointer = some block.counted := by
  have laid := regular.sound.laid
  have kept := laid.kept block inside
  have plain := regular.plain block inside
  have placed := laid.placed block inside
  have header := placed.header
  have low := placed.low
  have data := block.data_eq
  unfold allocatedSize getBlockSize
  rw [laid.found inside,Option.map_some,kept.arena]
  cases mapped : block.mapped with
  | true =>
    have null : block.arena = 0 := by simpa [Block.mapped] using mapped
    have chunk : MmapChunkFooter.fromPointer block.pointer = block.start := by
      simp [plain.unshifted mapped,MmapChunkFooter.fromPointer,MmapChunkFooter.toPointer]
    simp [null,chunk,kept.size mapped,Block.counted,mapped]
  | false =>
    have nonnull : block.arena ≠ 0 := by simpa [Block.mapped] using mapped
    have footer : block.footer = block.start := by rw [Block.footer,mapped]; rfl
    simp only [Block.counted,mapped,Bool.false_eq_true,if_false]
    rw [if_pos nonnull,footer,measures block inside mapped,ChunkFooter.dataOffset_eq]
    have wrapped : wrap (block.extent + (2 ^ 64 - 16)) = block.extent - 16 := by
      unfold wrap
      omega
    rw [wrapped]

theorem Regular.alloc {granted : Option Block} (regular : Regular refs state) (held : ∀ self, 0 < refs self) (owner : IsAddress self)
    (honest : Honest state system) (allocated : MemSource.alloc mmapThreshold system state self bytes = (next,granted)) :
    Sound refs (next.record granted) ∧ (Spare mmapThreshold bytes → Regular refs (next.record granted)) := by
  have stepped : MemSource.step mmapThreshold state (.alloc self bytes system) = some (next.record granted) := by
    simp only [MemSource.step,allocated]
  have admissible : Admissible state (.alloc self bytes system) := ⟨owner,honest⟩
  have sound := regular.sound.step held admissible trivial stepped
  refine ⟨sound,fun spare => ⟨sound,?_⟩⟩
  have live := (alloc_counts allocated).live
  intro old inside
  cases granted with
  | none => exact regular.plain old (live ▸ inside)
  | some block =>
    rcases List.mem_cons.mp inside with rfl | before
    · exact alloc_plain regular.sound.laid honest spare allocated
    · exact regular.plain old (live ▸ before)

theorem freeLive_live (laid : Laid state) {p : Nat} (plain : ∀ block ∈ state.live, block.Plain)
    (freed : state.freeLive p = some next) : ∃ block ∈ state.live, block.pointer = p ∧ next.live = state.live.erase block := by
  unfold State.freeLive at freed
  split at freed
  next => cases freed
  next block pointed =>
    have inside := List.mem_of_find?_eq_some pointed
    have same : block.pointer = p := by simpa using List.find?_some pointed
    obtain ⟨after,done,effect,_⟩ := laid.free inside (plain block inside).unshifted
    rw [← same,done,Option.map_some] at freed
    cases freed
    exact ⟨block,inside,same,by dsimp only; rw [effect.live]⟩

theorem Regular.step (regular : Regular refs state) (held : ∀ self, 0 < refs self) {action : Action}
    (admissible : Admissible state action) (unmoved : Call.Unmoved mmapThreshold state (.source action))
    (stepped : MemSource.step mmapThreshold state action = some next) : Regular refs next := by
  cases action with
  | alloc self sz system =>
    obtain ⟨owner,honest⟩ := admissible
    cases allocated : MemSource.alloc mmapThreshold system state self sz with
    | mk middle granted =>
      simp only [MemSource.step,allocated] at stepped
      obtain rfl := Option.some.inj stepped
      exact (regular.alloc held owner honest allocated).2 unmoved
  | allocAligned self align sz system =>
    obtain ⟨spare,unshifted⟩ := unmoved
    refine ⟨regular.sound.step held admissible spare.1 stepped,?_⟩
    obtain ⟨owner,honest,_⟩ := admissible
    have size : alignSize align sz = sz + align + ChunkFooter.dataOffset := wrap_of_lt (noWrap_fits spare.1)
    cases allocated : allocAlign mmapThreshold system state self align sz with
    | mk middle granted =>
      simp only [MemSource.step,allocated] at stepped
      obtain rfl := Option.some.inj stepped
      have live := (allocAlign_counts allocated).live
      intro old inside
      cases granted with
      | none => exact regular.plain old (live ▸ inside)
      | some block =>
        rcases List.mem_cons.mp inside with rfl | before
        · obtain ⟨_,inner,granted,outcome⟩ := allocAlign_some allocated
          have aligned := unshifted _ inner granted
          have requested := (alloc_room regular.sound.laid honest granted).2.1
          rw [size] at granted requested
          have plain := alloc_plain regular.sound.laid honest spare granted
          rcases outcome with ⟨_,_,rfl⟩ | ⟨unaligned,_⟩
          · refine ⟨plain.pointer,?_,plain.within⟩
            have enough := plain.enough
            rw [requested] at enough
            exact Nat.le_trans (by dsimp only; omega) enough
          · rw [aligned] at unaligned
            cases unaligned
        · exact regular.plain old (live ▸ before)
  | free p =>
    have unshifted : FreesUnshifted mmapThreshold state (.free p) := fun block inside same mapped =>
      same ▸ (regular.plain block inside).unshifted mapped
    refine ⟨regular.sound.step held admissible unshifted stepped,?_⟩
    obtain ⟨block,_,_,live⟩ := freeLive_live regular.sound.laid regular.plain stepped
    intro old inside
    rw [live] at inside
    exact regular.plain old (List.mem_of_mem_erase inside)
  | write place byte =>
    refine ⟨regular.sound.step held admissible trivial stepped,?_⟩
    obtain rfl := Option.some.inj stepped
    exact regular.plain

def moved (middle : State) (given block : Block) : State :=
  {middle.record (some given) with memory := middle.memory.move given.pointer block.pointer block.counted}

theorem Regular.realloc_cases {sz result : Nat} (regular : Regular refs state) (inside : block ∈ state.live)
    (measures : Measures usable state)
    (done : realloc mmapThreshold usable system state self block.pointer sz = some (next,result)) :
    sz < block.counted ∧ next = state ∧ result = block.pointer ∨
      block.counted ≤ sz ∧ (MemSource.alloc mmapThreshold system state self sz = (next,none) ∧ result = 0 ∨
        ∃ middle given, MemSource.alloc mmapThreshold system state self sz = (middle,some given) ∧
          (moved middle given block).freeLive block.pointer = some next ∧ result = given.pointer) := by
  have nonnull : block.pointer ≠ 0 := by
    have data := block.data_eq
    have plain := (regular.plain block inside).pointer
    omega
  simp only [realloc,if_neg nonnull,regular.reported inside measures,Option.bind_some,stackedmalloc] at done
  split at done
  next small =>
    cases done
    exact .inl ⟨small,rfl,rfl⟩
  next large =>
    refine .inr ⟨Nat.le_of_not_lt large,?_⟩
    cases allocated : MemSource.alloc mmapThreshold system state self sz with
    | mk middle granted =>
      rw [allocated] at done
      cases granted with
      | none =>
        cases done
        exact .inl ⟨rfl,rfl⟩
      | some given =>
        obtain ⟨after,freed,same⟩ := Option.map_eq_some_iff.mp done
        cases same
        exact .inr ⟨middle,given,rfl,freed,rfl⟩

theorem Regular.moved {sz : Nat} {middle : State} {given : Block} (regular : Regular refs state) (held : ∀ self, 0 < refs self)
    (owner : IsAddress self) (honest : Honest state system) (fits : NoWrap mmapThreshold sz) (grows : block.counted ≤ sz)
    (allocated : MemSource.alloc mmapThreshold system state self sz = (middle,some given)) :
    Sound refs (MemSource.moved middle given block) := by
  have sound := (regular.alloc held owner honest allocated).1
  obtain ⟨pointer,_,room,_⟩ := alloc_room regular.sound.laid honest allocated
  have room := room fits
  refine ⟨sound.laid.rewrite ?_,sound.released,sound.counted,sound.alive⟩
  intro old inside place low high
  have outside : place < given.pointer ∨ given.pointer + block.counted ≤ place := by
    by_cases same : old = given
    · rw [same] at high
      exact .inl high
    · have apart := sound.laid.apart_of_ne inside List.mem_cons_self same
      have within := (sound.laid.placed old inside).inside
      have data := given.data_eq
      have bounds := given.footer_bounds
      unfold Block.Apart at apart
      omega
  unfold Memory.move
  rw [if_neg (by omega)]
  rfl

theorem Regular.resized_moved {sz : Nat} {middle : State} {given : Block} (regular : Regular refs state)
    (held : ∀ self, 0 < refs self) (inside : block ∈ state.live) (owner : IsAddress self) (honest : Honest state system)
    (fits : NoWrap mmapThreshold sz) (grows : block.counted ≤ sz)
    (allocated : MemSource.alloc mmapThreshold system state self sz = (middle,some given))
    (freed : (MemSource.moved middle given block).freeLive block.pointer = some next) :
    Resized state block block.counted sz next given.pointer := by
  have plain := regular.plain block inside
  have moved := (regular.moved held owner honest fits grows allocated).laid
  obtain ⟨pointer,_,room,_⟩ := alloc_room regular.sound.laid honest allocated
  have room := room fits
  have live : (MemSource.moved middle given block).live = given::state.live := by
    change given::middle.live = _
    rw [(alloc_counts allocated).live]
  have also : block ∈ (MemSource.moved middle given block).live := live ▸ List.mem_cons_of_mem given inside
  have here : given ∈ (MemSource.moved middle given block).live := live ▸ List.mem_cons_self
  have distinct : given ≠ block := by
    rintro rfl
    have nodup := moved.apart
    rw [live] at nodup
    have apart := (List.pairwise_cons.mp nodup).1 given inside
    have extent := (moved.placed given here).extent_pos
    unfold Block.Apart at apart
    omega
  obtain ⟨after,done,effect,_⟩ := moved.free also plain.unshifted
  have same : {after with live := after.live.erase block,freed := after.freed ++ [block]} = next := by
    unfold State.freeLive at freed
    rw [moved.find_live also] at freed
    simp only [done,Option.map_some] at freed
    exact Option.some.inj freed
  refine ⟨⟨given,?_,rfl,by omega⟩,?_,?_⟩
  · rw [← same]
    change given ∈ after.live.erase block
    rw [effect.live]
    exact (List.mem_erase_of_ne distinct).mpr here
  · intro offset small
    have within := plain.within
    have behind := plain.pointer
    rw [← same]
    change after.memory (given.pointer + offset) = _
    rw [moved.free_contents also plain.unshifted done here ⟨by omega,by omega⟩]
    have copies : (MemSource.moved middle given block).memory (given.pointer + offset) = middle.memory (block.pointer + offset) := by
      change (if _ then _ else _) = _
      rw [if_pos (by omega),Nat.add_sub_cancel_left]
    rw [copies]
    exact regular.sound.laid.alloc_contents honest allocated inside ⟨by omega,by omega⟩
  · rintro place ⟨_,low,high⟩
    have within := plain.within
    have behind := plain.pointer
    have data := block.data_eq
    have bounds := block.footer_bounds
    omega

theorem Regular.resized {sz result : Nat} (regular : Regular refs state) (held : ∀ self, 0 < refs self) (inside : block ∈ state.live)
    (measures : Measures usable state) (owner : IsAddress self) (honest : Honest state system) (fits : NoWrap mmapThreshold sz)
    (done : MemSource.realloc mmapThreshold usable system state self block.pointer sz = some (next,result)) (nonnull : result ≠ 0) :
    Resized state block block.counted sz next result := by
  rcases regular.realloc_cases inside measures done with ⟨small,rfl,rfl⟩ | ⟨grows,⟨_,rfl⟩ | ⟨middle,given,allocated,freed,rfl⟩⟩
  · have plain := regular.plain block inside
    have within := plain.within
    have behind := plain.pointer
    exact ⟨⟨block,inside,rfl,by omega⟩,fun _ _ => rfl,fun place reads => absurd small reads.1⟩
  · exact absurd rfl nonnull
  · exact regular.resized_moved held inside owner honest fits grows allocated freed

theorem Regular.measured (regular : Regular refs state) (held : ∀ self, 0 < refs self) (inside : block ∈ state.live) :
    Measured mmapThreshold state block := by
  have plain := regular.plain block inside
  constructor
  · intro usable measures
    exact ⟨block.counted,regular.reported inside measures,plain.enough,plain.pointer ▸ plain.within⟩
  · intro usable oldSize system self sz next result measures size owner honest fits done nonnull
    rw [regular.reported inside measures] at size
    cases size
    exact regular.resized held inside measures owner honest fits done nonnull

theorem Regular.realloc_null {sz result : Nat} (regular : Regular refs state) (held : ∀ self, 0 < refs self) (owner : IsAddress self)
    (honest : Honest state system) (spare : Spare mmapThreshold sz)
    (done : MemSource.realloc mmapThreshold usable system state self 0 sz = some (next,result)) : Regular refs next := by
  simp only [MemSource.realloc,if_true,Option.bind_some,Nat.not_lt_zero,if_false,stackedmalloc] at done
  cases allocated : MemSource.alloc mmapThreshold system state self sz with
  | mk middle granted =>
    have regular := (regular.alloc held owner honest allocated).2 spare
    rw [allocated] at done
    cases granted with
    | none =>
      cases done
      exact regular
    | some given =>
      cases done
      exact regular

theorem Regular.realloc {sz result : Nat} (regular : Regular refs state) (held : ∀ self, 0 < refs self) (inside : block ∈ state.live)
    (measures : Measures usable state) (owner : IsAddress self) (honest : Honest state system)
    (spare : block.counted ≤ sz → Spare mmapThreshold sz)
    (done : MemSource.realloc mmapThreshold usable system state self block.pointer sz = some (next,result)) : Regular refs next := by
  rcases regular.realloc_cases inside measures done with ⟨_,rfl,_⟩ | ⟨grows,⟨allocated,_⟩ | ⟨middle,given,allocated,freed,_⟩⟩
  · exact regular
  · exact (regular.alloc held owner honest allocated).2 (spare grows)
  · have spare := spare grows
    have sound := regular.moved held owner honest spare.1 grows allocated
    have recorded := (regular.alloc held owner honest allocated).2 spare
    have regular : Regular refs (MemSource.moved middle given block) := ⟨sound,recorded.plain⟩
    exact @Regular.step mmapThreshold _ _ _ regular held (.free block.pointer) trivial trivial freed

theorem Regular.call (regular : Regular refs state) (held : ∀ self, 0 < refs self) {call : Call} (admissible : call.Admissible state)
    (unmoved : call.Unmoved mmapThreshold state) (stepped : call.step mmapThreshold state = some next) : Regular refs next := by
  cases call with
  | source action => exact regular.step held admissible unmoved stepped
  | realloc usable self p sz system =>
    obtain ⟨owner,honest,measures,pointed⟩ := admissible
    obtain ⟨⟨after,result⟩,done,rfl⟩ := Option.map_eq_some_iff.mp stepped
    rcases pointed with rfl | ⟨block,inside,rfl⟩
    · refine regular.realloc_null held owner honest (unmoved fun block inside null => ?_) done
      have pointer := (regular.plain block inside).pointer
      have data := block.data_eq
      omega
    · refine regular.realloc held inside measures owner honest (fun grows => unmoved fun other also same => ?_) done
      rw [regular.sound.laid.pointer_injective also inside same]
      exact grows

/-- In every run in which no pointer is moved for its alignment and every new block has
bytes to spare, all live blocks are measured. -/
theorem measured_of_unmoved (mmapThreshold : Nat) (refs : Nat → Nat) (held : ∀ self, 0 < refs self) (memory : Memory)
    (native : Nat → Nat) (addresses : ∀ self, IsAddress (native self)) (calls : List Call) (final : State)
    (meets : Meets (Call.step mmapThreshold)
      (fun state call => call.Admissible state ∧ call.Unmoved mmapThreshold state) (State.create memory native refs) calls)
    (ran : run (Call.step mmapThreshold) (State.create memory native refs) calls = some final) :
    ∀ block ∈ final.live, Measured mmapThreshold final block := by
  have regular := invariant_of_meets (Regular refs)
    (fun _ _ _ regular condition stepped => regular.call held condition.1 condition.2 stepped)
    ⟨sound_create memory native addresses,nofun⟩ meets ran
  exact fun block inside => regular.measured held inside

section Overrun

/-- A pointer moved by 32 bytes: 192 bytes are reported, and 160 are there. -/
def overrunCalls : List Call := [.source (.allocAligned sampleSource 64 100 (gives 196 ⟨0x20010,208⟩))]

theorem overrunCalls_run : (run (Call.step builtThreshold) fresh overrunCalls).isSome = true := by decide

theorem moved_pointer_overruns : Meets (Call.step builtThreshold) Call.Admissible fresh overrunCalls ∧
    ∃ final, run (Call.step builtThreshold) fresh overrunCalls = some final ∧
      ∃ block ∈ final.live, block.pointer = 0x20040 ∧ block.start + block.extent = 0x200e0 ∧
        allocatedSize (fun _ => 208) final.memory block.pointer = some 192 ∧ ¬Measured builtThreshold final block := by
  have honest : Honest fresh (gives 196 ⟨0x20010,208⟩) := honest_gives (by decide) (by decide) (by decide)
  refine ⟨⟨⟨by decide,honest,6,by decide,by decide⟩,fun _ _ => trivial⟩,_,(Option.some_get overrunCalls_run).symm,
    ⟨sampleSource,0x20040,0x20010,196,208,100,0x20000⟩,by decide,rfl,rfl,by decide,?_⟩
  intro measured
  obtain ⟨size,reported,_,within⟩ := measured.size (fun _ => 208) (by unfold Measures; decide)
  have known : allocatedSize (fun _ => 208) ((run (Call.step builtThreshold) fresh overrunCalls).get overrunCalls_run).memory 0x20040 = some 192 := by decide
  rw [known] at reported
  cases reported
  revert within
  decide

def measuredCalls : List Call := [.source (.alloc sampleSource 100 (gives 116 ⟨0x30000,120⟩)),
  .source (.allocAligned sampleSource 16 100 (gives 148 ⟨0x30080,152⟩)),
  .source (.alloc sampleSource 33554432 (maps 33554472 0x40000000)),.source (.write 0x30010 7),
  .realloc (fun chunk => if chunk = 0x30000 then 120 else 152) sampleSource 0x30010 500 (gives 516 ⟨0x50000,520⟩)]

theorem measuredCalls_run : (run (Call.step builtThreshold) fresh measuredCalls).isSome = true := by
  decide

theorem measuredCalls_meets : Meets (Call.step builtThreshold)
    (fun state call => call.Admissible state ∧ call.Unmoved builtThreshold state) fresh measuredCalls := by
  refine ⟨⟨⟨by decide,honest_gives (by decide) (by decide) (by decide)⟩,by unfold Call.Unmoved Spare NoWrap; decide⟩,?_⟩
  intro first stepped
  obtain rfl := Option.some.inj stepped
  refine ⟨⟨⟨by decide,honest_gives (by decide) (by decide) (by decide),4,by decide,by decide⟩,
    by unfold Spare NoWrap; decide,?_⟩,?_⟩
  · intro after block allocated
    cases allocated
    decide
  intro second stepped
  obtain rfl := Option.some.inj stepped
  refine ⟨⟨⟨by decide,honest_maps (by decide) (by decide) (by decide)⟩,by unfold Call.Unmoved Spare NoWrap; decide⟩,?_⟩
  intro third stepped
  obtain rfl := Option.some.inj stepped
  refine ⟨⟨by unfold Call.Admissible Admissible; decide,trivial⟩,?_⟩
  intro fourth stepped
  obtain rfl := Option.some.inj stepped
  refine ⟨⟨⟨by decide,honest_gives (by decide) (by decide) (by decide),by unfold Measures; decide,
    .inr (by decide)⟩,fun _ => by unfold Spare NoWrap; decide⟩,fun _ _ => trivial⟩

theorem measured_measuredCalls : ∃ final, run (Call.step builtThreshold) fresh measuredCalls = some final ∧
    final.live.map Block.pointer = [0x50010,0x40000028,0x30090] ∧ final.memory 0x50010 = 7 ∧
      ∀ block ∈ final.live, Measured builtThreshold final block := by
  have pointers : ((run (Call.step builtThreshold) fresh measuredCalls).get measuredCalls_run).live.map Block.pointer =
      [0x50010,0x40000028,0x30090] := by decide
  have copy : ((run (Call.step builtThreshold) fresh measuredCalls).get measuredCalls_run).memory 0x50010 = 7 := by decide
  exact ⟨_,(Option.some_get measuredCalls_run).symm,pointers,copy,measured_of_unmoved builtThreshold (fun _ => 1)
    (fun _ => Nat.one_pos) _ (fun _ => 0x20000) (fun _ => by decide) _ _ measuredCalls_meets
    (Option.some_get measuredCalls_run).symm⟩

end Overrun

end Pgasus.MemSource
