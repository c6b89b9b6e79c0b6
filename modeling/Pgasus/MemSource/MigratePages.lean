import Pgasus.MemSource.PageLists
import Pgasus.MemSource.Pointers

/-! The pages that `migrate` moves, and the range of each arena that it gives back to the
system. -/
namespace Pgasus.MemSource.MigratePages
open Words Strides

/-- The memory of an arena: dlmalloc's records are at `msp`, behind them the chunks, last
of these the top chunk, and then its foot. A process has the addresses below 2^47. -/
structure Arena where
  base : Nat
  size : Nat
  msp : Nat
  topChunk : Nat
  topChunkSize : Nat
  mapped : memPageSize ≤ base
  begins : base ≤ msp
  ordered : msp ≤ topChunk
  foot : topChunk + topChunkSize < base + size
  user : base + size ≤ 2 ^ 47

structure MmapChunk where
  address : Nat
  size : Nat
  aligned : address % memPageSize = 0
  positive : 0 < size
  user : address + size ≤ 2 ^ 47

structure Source where
  arenas : List Arena
  chunks : List MmapChunk

def addPagesToVector (v : List Nat) (start finish : Nat) : Option (List Nat) :=
  let istart := alignDown start memPageSize
  let iend := alignDown finish memPageSize
  (stride memPageSize (fun i => decide (i ≤ iend)) loopFuel istart).map (v ++ ·)

/-- The vector that `migrate` passes to `move_pages`. -/
def migratePages (source : Source) : Option (List Nat) :=
  (source.arenas.foldlM (fun pages arena => addPagesToVector pages arena.msp arena.topChunk) []).bind fun pages =>
    source.chunks.foldlM (fun pages chunk => addPagesToVector pages chunk.address (chunk.address + chunk.size)) pages

/-! The range that is given back with `MADV_DONTNEED`. -/
def Arena.dnStart (arena : Arena) : Nat := alignUp (arena.topChunk + 64) memPageSize
def Arena.dnEnd (arena : Arena) : Nat := alignDown (arena.topChunk + arena.topChunkSize - 64) memPageSize
def Arena.dnLength (arena : Arena) : Int := arena.dnEnd - arena.dnStart

def added (start finish : Nat) : List Nat := (addPagesToVector [] start finish).getD []

/-- The vector is made of one part for each arena and chunk. No page of an arena's part is
outside its memory, and a chunk's part is its pages; what is given back is unused. -/
structure Right (source : Source) : Prop where
  whole : migratePages source = some (source.arenas.flatMap (fun arena => added arena.msp arena.topChunk) ++
    source.chunks.flatMap fun chunk => added chunk.address (chunk.address + chunk.size))
  arenas : ∀ arena ∈ source.arenas, ∀ page ∈ added arena.msp arena.topChunk, OnPage arena.base arena.size page
  chunks : ∀ chunk ∈ source.chunks, PagesOf chunk.address chunk.size (added chunk.address (chunk.address + chunk.size))
  unused : ∀ arena ∈ source.arenas, arena.topChunk ≤ arena.dnStart ∧
    arena.dnStart + arena.dnLength ≤ arena.topChunk + arena.topChunkSize ∧ 0 ≤ arena.dnLength

/-- The chunk does not end where a page does. -/
def MmapChunk.EndsInside (chunk : MmapChunk) : Prop := chunk.size % memPageSize ≠ 0

/-- A page begins between the margins of the top chunk. -/
def Arena.Roomy (arena : Arena) : Prop :=
  ∃ page, page % memPageSize = 0 ∧ arena.topChunk + 64 ≤ page ∧ page + 64 ≤ arena.topChunk + arena.topChunkSize

theorem addPages_eq {v : List Nat} {start finish : Nat} (ordered : start ≤ finish) (user : finish ≤ 2 ^ 47) :
    addPagesToVector v start finish = some (v ++ List.range' (start / 4096 * 4096) (finish / 4096 + 1 - start / 4096) 4096) := by
  simp only [addPagesToVector,alignDown_page (show start < 2 ^ 64 by omega),alignDown_page (show finish < 2 ^ 64 by omega)]
  rw [show memPageSize = 4096 from rfl,stride_upto ordered (by omega),Option.map_some]

theorem added_eq {start finish : Nat} (ordered : start ≤ finish) (user : finish ≤ 2 ^ 47) :
    added start finish = List.range' (start / 4096 * 4096) (finish / 4096 + 1 - start / 4096) 4096 := by
  simp [added,addPages_eq ordered user]

theorem foldlM_added {Item : Type} (start finish : Item → Nat) (items : List Item) (pages : List Nat)
    (bounds : ∀ item ∈ items, start item ≤ finish item ∧ finish item ≤ 2 ^ 47) :
    items.foldlM (fun pages item => addPagesToVector pages (start item) (finish item)) pages =
      some (pages ++ items.flatMap fun item => added (start item) (finish item)) := by
  induction items generalizing pages with
  | nil => simp
  | cons item rest ih =>
    obtain ⟨ordered,user⟩ := bounds item List.mem_cons_self
    rw [List.foldlM_cons,addPages_eq ordered user,← added_eq ordered user]
    refine (ih _ fun other member => bounds other (List.mem_cons_of_mem _ member)).trans ?_
    rw [List.flatMap_cons,List.append_assoc]

theorem Arena.bounds (arena : Arena) : arena.msp ≤ arena.topChunk ∧ arena.topChunk ≤ 2 ^ 47 := by
  have foot := arena.foot
  have user := arena.user
  exact ⟨arena.ordered,by omega⟩

theorem MmapChunk.bounds (chunk : MmapChunk) :
    chunk.address ≤ chunk.address + chunk.size ∧ chunk.address + chunk.size ≤ 2 ^ 47 :=
  ⟨Nat.le_add_right _ _,chunk.user⟩

theorem migratePages_whole (source : Source) :
    migratePages source = some (source.arenas.flatMap (fun arena => added arena.msp arena.topChunk) ++
      source.chunks.flatMap fun chunk => added chunk.address (chunk.address + chunk.size)) := by
  rw [migratePages,foldlM_added Arena.msp Arena.topChunk _ _ (fun arena _ => arena.bounds),Option.bind_some,
    foldlM_added MmapChunk.address (fun chunk => chunk.address + chunk.size) _ _ (fun chunk _ => chunk.bounds)]
  rfl

/-- The top chunk begins in the arena, so the page it is on has part of the arena. -/
theorem Arena.added_inside (arena : Arena) {page : Nat} (member : page ∈ added arena.msp arena.topChunk) :
    OnPage arena.base arena.size page := by
  obtain ⟨ordered,user⟩ := arena.bounds
  have begins := arena.begins
  have foot := arena.foot
  rw [added_eq ordered user] at member
  obtain ⟨index,inside,rfl⟩ := List.mem_range'.mp member
  exact onPage_iff.mpr (by omega)

theorem MmapChunk.pagesOf_iff (chunk : MmapChunk) :
    PagesOf chunk.address chunk.size (added chunk.address (chunk.address + chunk.size)) ↔ chunk.EndsInside := by
  obtain ⟨ordered,user⟩ := chunk.bounds
  have aligned := chunk.aligned
  have positive := chunk.positive
  simp only [MmapChunk.EndsInside,memPageSize] at aligned ⊢
  rw [added_eq ordered user]
  constructor
  · rintro ⟨_,mem_iff⟩ boundary
    have behind := onPage_iff.mp ((mem_iff (chunk.address + chunk.size)).mp
      (List.mem_range'.mpr ⟨chunk.size / 4096,by omega,by omega⟩))
    omega
  · intro inside
    exact pagesOf_range' positive (by omega)

theorem Arena.unused_iff (arena : Arena) : (arena.topChunk ≤ arena.dnStart ∧
    arena.dnStart + arena.dnLength ≤ arena.topChunk + arena.topChunkSize ∧ 0 ≤ arena.dnLength) ↔ arena.Roomy := by
  have mapped := arena.mapped
  have begins := arena.begins
  have ordered := arena.ordered
  have foot := arena.foot
  have user := arena.user
  simp only [memPageSize] at mapped
  have up : arena.topChunk + 64 ≤ alignUp (arena.topChunk + 64) 4096 ∧ alignUp (arena.topChunk + 64) 4096 < arena.topChunk + 64 + 4096 :=
    @alignUp_bounds (arena.topChunk + 64) 12 (by decide) (by omega)
  have multiple : alignUp (arena.topChunk + 64) 4096 % 4096 = 0 := @alignUp_mod (arena.topChunk + 64) 12 (by decide)
  have down : arena.dnEnd = (arena.topChunk + arena.topChunkSize - 64) / 4096 * 4096 := alignDown_page (by omega)
  simp only [Arena.Roomy,Arena.dnLength,down]
  simp only [Arena.dnStart,memPageSize]
  generalize alignUp (arena.topChunk + 64) 4096 = start at up multiple ⊢
  constructor
  · intro unused
    exact ⟨start,multiple,by omega,by omega⟩
  · rintro ⟨page,boundary,low,high⟩
    omega

/-- The lists are right exactly when no chunk ends with a page and every top chunk has a
page boundary between its margins. -/
theorem right_iff (source : Source) :
    Right source ↔ (∀ chunk ∈ source.chunks, chunk.EndsInside) ∧ ∀ arena ∈ source.arenas, arena.Roomy := by
  constructor
  · intro right
    exact ⟨fun chunk member => chunk.pagesOf_iff.mp (right.chunks chunk member),
      fun arena member => arena.unused_iff.mp (right.unused arena member)⟩
  · rintro ⟨inside,roomy⟩
    exact ⟨migratePages_whole source,fun arena _ page => arena.added_inside,
      fun chunk member => chunk.pagesOf_iff.mpr (inside chunk member),
      fun arena member => arena.unused_iff.mpr (roomy arena member)⟩

def freshArena : Arena := ⟨0x20180,0x3E80,0x20190,0x20500,0x3AA0,by decide,by decide,by decide,by decide,by decide⟩
def fullArena : Arena := ⟨0x20180,0x3E80,0x20190,0x23F00,0xA0,by decide,by decide,by decide,by decide,by decide⟩

/-- The chunk for 33558488 bytes is 8193 pages long. -/
def wholePages : MmapChunk := ⟨0x40000000,33558528,by decide,by decide,by decide⟩

/-- The page behind the chunk is moved too; and the range for `madvise` begins a page behind
its end. -/
theorem page_behind : ¬Right ⟨[freshArena],[wholePages]⟩ ∧ ¬Right ⟨[fullArena],[]⟩ := by
  constructor
  · intro right
    exact wholePages.pagesOf_iff.mp (right.chunks wholePages List.mem_cons_self) (by decide)
  · intro right
    exact absurd (right.unused fullArena List.mem_cons_self).2.2 (by decide)

end Pgasus.MemSource.MigratePages
