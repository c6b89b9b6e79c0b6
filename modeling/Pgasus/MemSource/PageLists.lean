import Mathlib.Data.List.Pairwise
import Pgasus.Library.Strides
import Pgasus.MemSource.Blocks

/-! The pages of a region of memory as the helpers around `mmap` enumerate them: to move
them, to ask where they are, and to touch them. -/
namespace Pgasus.MemSource
open Words Strides

def alignPage (ptr : Nat) : Nat := ptr &&& complement 0xFFF

/-- What `moveMemory` hands to `numa_move_pages`: its vector begins with null pointers. -/
def moveMemoryPages (p sz : Nat) : Option (List Nat) :=
  let finish := wrap (p + sz)
  (stride 4096 (fun piter => decide (piter < finish)) loopFuel (alignPage p)).map (List.replicate (sz / 4096 + 1) 0 ++ ·)

/-- What `getNumaNodeForMemory` asks for, by way of `getNumaNodeForMemory_n`. -/
def numaNodePages (ptr sz : Nat) : Option (List Nat) :=
  let base := alignPage ptr
  let finish := alignPage (wrap (ptr + sz))
  (stride 4096 (fun p => decide (p ≤ finish)) loopFuel base).map (List.map alignPage)

/-- The addresses of the words that `touchMemory` reads and writes back. -/
def touchMemory (p sz : Nat) : Option (List Nat) :=
  (stride 4096 (fun ofs => decide (ofs < sz)) loopFuel 0).map (List.map fun ofs => wrap (p + ofs))

def OnPage (p sz page : Nat) : Prop :=
  page % 4096 = 0 ∧ ∃ byte, p ≤ byte ∧ byte < p + sz ∧ page ≤ byte ∧ byte < page + 4096

structure PagesOf (p sz : Nat) (pages : List Nat) : Prop where
  ascending : pages.Pairwise (· < ·)
  mem_iff : ∀ page, page ∈ pages ↔ OnPage p sz page

def Enumerates (p sz : Nat) (result : Option (List Nat)) : Prop := ∃ pages, result = some pages ∧ PagesOf p sz pages

/-- Every page is touched, and nothing but the region is. -/
structure Touched (p sz : Nat) (words : List Nat) : Prop where
  covers : ∀ page, OnPage p sz page → ∃ word ∈ words, OnPage word 8 page
  inside : ∀ word ∈ words, p ≤ word ∧ word + 8 ≤ p + sz

def Touches (p sz : Nat) (result : Option (List Nat)) : Prop := ∃ words, result = some words ∧ Touched p sz words

variable {p sz page count : Nat} {pages : List Nat}

theorem alignPage_eq (fits : p < 2 ^ 64) : alignPage p = p / 4096 * 4096 := @land_complement p 12 fits (by decide)

theorem onPage_iff : OnPage p sz page ↔ page % 4096 = 0 ∧ 0 < sz ∧ p < page + 4096 ∧ page < p + sz := by
  refine and_congr_right fun _ => ⟨?_,fun inside => ⟨max p page,?_⟩⟩
  · rintro ⟨byte,low,high,from_,upto⟩
    omega
  · omega

theorem pagesOf_range' (positive : 0 < sz) (size : count = (p + sz - 1) / 4096 + 1 - p / 4096) :
    PagesOf p sz (List.range' (p / 4096 * 4096) count 4096) := by
  refine ⟨List.pairwise_lt_range' 4096,fun page => ?_⟩
  rw [List.mem_range',onPage_iff]
  constructor
  · rintro ⟨index,inside,rfl⟩
    omega
  · intro on
    exact ⟨page / 4096 - p / 4096,by omega,by omega⟩

theorem stride_upto {finish : Nat} (ordered : p ≤ finish) (low : finish + 4096 < 2 ^ 64) :
    stride 4096 (fun piter => decide (piter ≤ finish / 4096 * 4096)) loopFuel (p / 4096 * 4096) =
      some (List.range' (p / 4096 * 4096) (finish / 4096 + 1 - p / 4096) 4096) := by
  apply stride_ends
  · simp only [loopFuel]
    omega
  · intro round inside
    simp only [decide_eq_true_eq]
    omega
  · simp only [decide_eq_false_iff_not]
    omega
  · omega

theorem moveMemory_extra (positive : 1 ≤ sz) (fits : p + sz < 2 ^ 64) : ¬Enumerates p sz (moveMemoryPages p sz) := by
  rintro ⟨pages,ended,ascending,mem_iff⟩
  simp only [moveMemoryPages,wrap_of_lt fits] at ended
  obtain ⟨rest,looped,rfl⟩ := Option.map_eq_some_iff.mp ended
  have first : decide (alignPage p < p + sz) = true := by
    rw [decide_eq_true_eq,alignPage_eq (by omega)]
    omega
  obtain ⟨rest,rfl⟩ := stride_first looped first
  rw [List.replicate_succ,List.cons_append] at ascending mem_iff
  have later : alignPage p ∈ List.replicate (sz / 4096) 0 ++ alignPage p::rest := by simp
  have above := (List.pairwise_cons.mp ascending).1 _ later
  have null := onPage_iff.mp ((mem_iff 0).mp List.mem_cons_self)
  rw [alignPage_eq (by omega)] at above
  omega

theorem map_alignPage (low : p / 4096 * 4096 + 4096 * count ≤ 2 ^ 64) :
    (List.range' (p / 4096 * 4096) count 4096).map alignPage = List.range' (p / 4096 * 4096) count 4096 := by
  have own (page : Nat) (member : page ∈ List.range' (p / 4096 * 4096) count 4096) : alignPage page = page := by
    obtain ⟨index,inside,rfl⟩ := List.mem_range'.mp member
    rw [alignPage_eq (by omega)]
    omega
  exact (List.map_congr_left own).trans (List.map_id _)

/-- With an end on a page boundary, the page behind it is asked for as well. -/
theorem numaNode_enumerates_iff (positive : 1 ≤ sz) (fits : p + sz < 2 ^ 64) :
    Enumerates p sz (numaNodePages p sz) ↔ (p + sz) % 4096 ≠ 0 ∧ p + sz + 4096 < 2 ^ 64 := by
  simp only [numaNodePages,wrap_of_lt fits,alignPage_eq (show p < 2 ^ 64 by omega),alignPage_eq fits]
  by_cases low : p + sz + 4096 < 2 ^ 64
  · rw [stride_upto (Nat.le_add_right p sz) low,Option.map_some,map_alignPage (by omega)]
    constructor
    · rintro ⟨pages,same,_,mem_iff⟩
      obtain rfl := Option.some.inj same
      refine ⟨fun boundary => ?_,low⟩
      have last := onPage_iff.mp ((mem_iff (p + sz)).mp (List.mem_range'.mpr ⟨(p + sz) / 4096 - p / 4096,by omega,by omega⟩))
      omega
    · rintro ⟨inner,_⟩
      exact ⟨_,rfl,pagesOf_range' positive (by omega)⟩
  · have endless : stride 4096 (fun p_ => decide (p_ ≤ (p + sz) / 4096 * 4096)) loopFuel (p / 4096 * 4096) = none := by
      apply stride_endless fun counter => counter % 4096 = 0 ∧ counter < 2 ^ 64
      · omega
      · intro counter visited
        simp only [decide_eq_true_eq,wrap]
        omega
    rw [endless]
    refine iff_of_false ?_ fun both => low both.2
    rintro ⟨_,same,_⟩
    cases same

/-- `moveMemory` never hands over the pages alone, and `getNumaNodeForMemory` asks for them
alone exactly when the end is inside a page (and not in the last one there is). -/
theorem memory_pages (p sz : Nat) (positive : 1 ≤ sz) (fits : p + sz < 2 ^ 64) :
    ¬Enumerates p sz (moveMemoryPages p sz) ∧
      (Enumerates p sz (numaNodePages p sz) ↔ (p + sz) % 4096 ≠ 0 ∧ p + sz + 4096 < 2 ^ 64) :=
  ⟨moveMemory_extra positive fits,numaNode_enumerates_iff positive fits⟩

theorem memory_pages_inner : ¬Enumerates 0x7000 100 (moveMemoryPages 0x7000 100) ∧
    (Enumerates 0x7000 100 (numaNodePages 0x7000 100) ↔ (0x7000 + 100) % 4096 ≠ 0 ∧ 0x7000 + 100 + 4096 < 2 ^ 64) :=
  memory_pages 0x7000 100 (by decide) (by decide)

/-- A single page: one list has a null pointer, and the other one has the next page. -/
theorem one_page_extra : ¬Enumerates 0x7000 4096 (moveMemoryPages 0x7000 4096) ∧ ¬Enumerates 0x7000 4096 (numaNodePages 0x7000 4096) :=
  ⟨moveMemory_extra (by decide) (by decide),fun listed => absurd ((numaNode_enumerates_iff (by decide) (by decide)).mp listed).1 (by decide)⟩

/-- The bytes of the region from the last stop of `touchMemory` on. -/
def lastStep (sz : Nat) : Nat := (sz - 1) % 4096 + 1

/-- The words are in the region when the last step has room for one, and every page has a
word when the last step does not get to another page, or the words do. -/
def TouchFits (p sz : Nat) : Prop :=
  sz = 0 ∨ sz + 4096 ≤ 2 ^ 64 ∧ 8 ≤ lastStep sz ∧ (p % 4096 + lastStep sz ≤ 4096 ∨ 4096 ≤ p % 4096 + 7)

theorem touchMemory_ends (region : p + sz ≤ 2 ^ 64) (ends : sz + 4096 ≤ 2 ^ 64) :
    touchMemory p sz = some (List.range' p ((sz + 4095) / 4096) 4096) := by
  have offsets : stride 4096 (fun ofs => decide (ofs < sz)) loopFuel 0 = some (List.range' 0 ((sz + 4095) / 4096) 4096) := by
    apply stride_ends
    · simp only [loopFuel]
      omega
    · intro round inside
      simp only [decide_eq_true_eq]
      omega
    · simp only [decide_eq_false_iff_not]
      omega
    · omega
  have shifted (ofs : Nat) (member : ofs ∈ List.range' 0 ((sz + 4095) / 4096) 4096) : wrap (p + ofs) = p + ofs := by
    obtain ⟨index,inside,rfl⟩ := List.mem_range'.mp member
    exact wrap_of_lt (by omega)
  rw [touchMemory,offsets,Option.map_some,List.map_congr_left shifted,List.map_add_range']
  rfl

/-- A size within a page of 2^64 makes the offset wrap around. -/
theorem touchMemory_endless (ends : ¬sz + 4096 ≤ 2 ^ 64) : touchMemory p sz = none := by
  have endless : stride 4096 (fun ofs => decide (ofs < sz)) loopFuel 0 = none := by
    apply stride_endless fun counter => counter % 4096 = 0 ∧ counter < 2 ^ 64
    · omega
    · intro counter visited
      simp only [decide_eq_true_eq,wrap]
      omega
  rw [touchMemory,endless]
  rfl

theorem Touched.fits (touched : Touched p sz (List.range' p ((sz + 4095) / 4096) 4096)) (some_ : sz ≠ 0) :
    8 ≤ lastStep sz ∧ (p % 4096 + lastStep sz ≤ 4096 ∨ 4096 ≤ p % 4096 + 7) := by
  have last := touched.inside (p + 4096 * ((sz + 4095) / 4096 - 1)) (List.mem_range'.mpr ⟨_,by omega,rfl⟩)
  obtain ⟨word,member,on⟩ := touched.covers ((p + sz - 1) / 4096 * 4096) (onPage_iff.mpr (by omega))
  obtain ⟨index,inside,rfl⟩ := List.mem_range'.mp member
  have reaches := onPage_iff.mp on
  simp only [lastStep]
  omega

theorem touched_of_fits (room : 8 ≤ lastStep sz)
    (reaches : p % 4096 + lastStep sz ≤ 4096 ∨ 4096 ≤ p % 4096 + 7) : Touched p sz (List.range' p ((sz + 4095) / 4096) 4096) := by
  simp only [lastStep] at room reaches
  constructor
  · intro page on
    have here := onPage_iff.mp on
    -- the stop on the page itself, or the last one, whose word ends on the page behind it
    refine ⟨p + 4096 * min (page / 4096 - p / 4096) ((sz + 4095) / 4096 - 1),List.mem_range'.mpr ⟨_,by omega,rfl⟩,onPage_iff.mpr ?_⟩
    omega
  · intro word member
    obtain ⟨index,inside,rfl⟩ := List.mem_range'.mp member
    omega

/-- `touchMemory` touches every page and nothing else exactly when its steps fit. -/
theorem touchMemory_iff (p sz : Nat) (region : p + sz ≤ 2 ^ 64) : Touches p sz (touchMemory p sz) ↔ TouchFits p sz := by
  by_cases ends : sz + 4096 ≤ 2 ^ 64
  · rw [touchMemory_ends region ends]
    constructor
    · rintro ⟨words,same,touched⟩
      obtain rfl := Option.some.inj same
      by_cases zero : sz = 0
      · exact .inl zero
      · exact .inr ⟨ends,touched.fits zero⟩
    · rintro (rfl | ⟨_,room,reaches⟩)
      · exact ⟨_,rfl,fun page on => absurd (onPage_iff.mp on).2.1 (Nat.lt_irrefl 0),fun word member => by cases member⟩
      · exact ⟨_,rfl,touched_of_fits room reaches⟩
  · rw [touchMemory_endless ends]
    refine iff_of_false (fun ⟨_,same,_⟩ => by cases same) ?_
    rintro (rfl | ⟨fits,_⟩)
    · exact ends (by decide)
    · exact ends fits

theorem touchMemory_arena : Touches 0x7040 (0x10000 - 0x40) (touchMemory 0x7040 (0x10000 - 0x40)) ↔ TouchFits 0x7040 (0x10000 - 0x40) :=
  touchMemory_iff 0x7040 (0x10000 - 0x40) (by decide)

/-- 64 bytes into a page, a page's length ends on the next page, which has no stop. -/
theorem last_page_untouched : ¬Touches 0x7040 4096 (touchMemory 0x7040 4096) := by
  rw [touchMemory_ends (by decide) (by decide)]
  rintro ⟨words,same,touched⟩
  obtain rfl := Option.some.inj same
  exact absurd (touched.fits (by decide)) (by decide)

end Pgasus.MemSource
