import Pgasus.MemSource.Placement
import Pgasus.MemSource.Release

/-! `alloc_end` of the arenas, behind which no allocated bytes should be, and the pages
that `stats` counts up to it. It is computed from the arena's own address, without the
footer of the block. -/
namespace Pgasus.MemSource.AllocEnd
open Words Runs

/-- `live` is a record: the chunk of each live block, and the bytes asked for. -/
structure Arena where
  address : Nat
  size : Nat
  allocEnd : Nat
  native : Bool
  base : Nat
  live : List (Nat × Nat)

structure Source where
  node : Int
  nodeHome : Int
  arenas : List Arena

/-- The answers to one allocation: the chunk from the active arena, what `callMmap` gives
for a new one (0 when it fails) and for its data, and the chunk from that. -/
structure System where
  chunk : Option Nat
  mem : Nat
  base : Nat
  chunkThen : Option Nat

/-- Mappings are whole pages, not at 0, below the kernel's half. -/
def Mapping (mem sz : Nat) : Prop := 0 < mem ∧ mem % memPageSize = 0 ∧ 0 < sz ∧ mem + pages sz ≤ 2 ^ 63

instance (mem sz : Nat) : Decidable (Mapping mem sz) := inferInstanceAs (Decidable (_ ∧ _))

def Apart (mem sz base size : Nat) : Prop := mem + pages sz ≤ base ∨ base + pages size ≤ mem

instance (mem sz base size : Nat) : Decidable (Apart mem sz base size) := inferInstanceAs (Decidable (_ ∨ _))

/-- `Arena::Arena`, in the mapping of `whole` bytes at `mem`; the data are behind the
header or in the mapping at `base`. -/
def Arena.make (mem whole address sz : Nat) (dstNode : Int) (base : Nat) : Option Arena :=
  if dstNode < 0 then
    let base := alignUp (address + Placement.sizeofArena) 64
    if base ≤ address + sz then some ⟨address,address + sz - base,memPageSize,true,base,[]⟩ else none
  else if Mapping base sz ∧ Apart mem whole base sz then some ⟨address,sz,memPageSize,false,base,[]⟩
  else none

/-- `MemSourceImpl::create` and the constructor. -/
def create (node home : Int) (sz mem base : Nat) : Option Source :=
  let arenaStart := alignUp (mem + Placement.sizeofMemSourceImpl) 64
  if Mapping mem sz ∧ arenaStart ≤ mem + sz then
    (Arena.make mem sz arenaStart (mem + sz - arenaStart) (Placement.dataNode node home) base).map fun arena => ⟨node,home,[arena]⟩
  else none

def Arena.currentEnd (arena : Arena) (chunk sz : Nat) : Nat := wrap (wrap (chunk + (2 ^ 64 - arena.address)) + sz)

/-- `Arena::alloc` with the chunk that `mspace_malloc` gives, which is in the mspace. -/
def Arena.alloc (arena : Arena) (sz chunk : Nat) : Option Arena :=
  if arena.base < chunk ∧ chunk + MemSource.Arena.allocSize sz ≤ arena.base + arena.size then
    let currentEnd := arena.currentEnd chunk sz
    some {arena with allocEnd := if arena.allocEnd < currentEnd then currentEnd else arena.allocEnd,live := (chunk,sz)::arena.live}
  else none

def createNewArena (system : System) (source : Source) : Option Source :=
  if Mapping system.mem newArenaSize then
    (Arena.make system.mem newArenaSize system.mem newArenaSize (Placement.dataNode source.node source.nodeHome) system.base).map
      fun arena => {source with arenas := arena::source.arenas}
  else none

def ready (system : System) (source : Source) : Option (Source × Option Nat) :=
  match system.chunk with
  | some chunk => some (source,some chunk)
  | none => if system.mem = 0 then some (source,none) else (createNewArena system source).map fun source => (source,system.chunkThen)

def Source.take (source : Source) (bytes : Nat) : Option Nat → Option Source
  | none => some source
  | some chunk =>
    match source.arenas with
    | [] => none
    | active::rest => (active.alloc bytes chunk).map fun active => {source with arenas := active::rest}

/-- `MemSourceImpl::alloc`; a block from the threshold on is in no arena. -/
def alloc (system : System) (source : Source) (bytes : Nat) : Option Source :=
  if builtThreshold ≤ bytes then some source
  else (ready system source).bind fun (source,chunk) => source.take bytes chunk

def free (source : Source) (arena block : Nat) : Source :=
  {source with arenas := source.arenas.modify arena fun arena => {arena with live := arena.live.eraseIdx block}}

inductive Action
  | create (node home : Int) (sz mem base : Nat)
  | alloc (bytes : Nat) (system : System)
  | free (arena block : Nat)

/-- A run of one source; answers that mmap and dlmalloc do not give are not enabled. -/
def step : Option Source → Action → Option (Option Source)
  | none, .create node home sz mem base => (create node home sz mem base).map some
  | some source, .alloc bytes system => (alloc system source bytes).map some
  | some source, .free arena block => some (some (free source arena block))
  | _, _ => none

/-- What `stats` adds for the arena to `arena_used`. -/
def Arena.used (arena : Arena) : Nat :=
  let base := alignDown arena.address memPageSize
  let finish := wrap (arena.address + arena.allocEnd)
  alignUp (wrap (finish + (2 ^ 64 - base))) memPageSize

def Arena.memory (arena : Arena) : Nat := if arena.native then arena.address else arena.base

def blockEnd (block : Nat × Nat) : Nat := block.1 + ChunkFooter.dataOffset + block.2

/-- No live block has a byte at or behind `alloc_end`, and the pages used have all live
blocks and are not more than the arena has. -/
structure Arena.Right (arena : Arena) : Prop where
  behind : ∀ block ∈ arena.live, blockEnd block ≤ arena.memory + arena.allocEnd
  covered : ∀ block ∈ arena.live, blockEnd block ≤ alignDown arena.memory memPageSize + arena.used
  bounded : arena.used ≤ pages arena.size

def Good (state : Option Source) : Prop := ∀ source, state = some source → ∀ arena ∈ source.arenas, arena.Right

/-- The block has its data behind the header of its arena, and ends with its footer in
front of the `alloc_end` that the arena has. -/
def Arena.Fits (arena : Arena) (chunk bytes : Nat) : Prop :=
  arena.native = true ∧ blockEnd (chunk,bytes) ≤ arena.address + arena.allocEnd

/-- More than a page for the arena of a new source, and a block from an arena that it fits. -/
def Small : Option Source → Action → Prop
  | _, .create node home sz _ _ => memPageSize + (if Placement.dataNode node home < 0 then 384 else 256) < sz
  | some source, .alloc bytes system => bytes < builtThreshold → ∀ serving chunk, ready system source = some (serving,some chunk) →
      ∀ active ∈ serving.arenas.head?, active.Fits chunk bytes
  | _, _ => True

/-- What is known of every arena. Where the data have a mapping of their own, `alloc_end`
is still the first one or a distance between two mappings. -/
structure Arena.Placed (arena : Arena) : Prop where
  low : arena.address < 2 ^ 63
  native : arena.native = true → arena.address ≤ arena.base ∧ arena.base + arena.size ≤ 2 ^ 63 ∧ arena.allocEnd ≤ 2 ^ 63
  apart : arena.native = false → arena.base % memPageSize = 0 ∧ arena.base + pages arena.size ≤ 2 ^ 63 ∧
    Apart (arena.address / 4096 * 4096) arena.size arena.base arena.size ∧
    (arena.allocEnd = memPageSize ∨ ∃ chunk sz, arena.base < chunk ∧ blockEnd (chunk,sz) ≤ arena.base + arena.size ∧
      arena.allocEnd = arena.currentEnd chunk sz)

section Arenas
variable {arena next : Arena} {chunk sz bytes : Nat}

theorem alignUp_page (p : Nat) : alignUp p memPageSize = wrap (p + 4095) / 4096 * 4096 := @alignUp_eq p 12 (by decide)

theorem Arena.used_eq (low : arena.address < 2 ^ 63) :
    arena.used = wrap (wrap (arena.address % 4096 + arena.allocEnd) + 4095) / 4096 * 4096 := by
  have same : wrap (wrap (arena.address + arena.allocEnd) + (2 ^ 64 - arena.address / 4096 * 4096)) =
      wrap (arena.address % 4096 + arena.allocEnd) := by
    simp only [wrap]
    omega
  simp only [Arena.used,alignDown_page (show arena.address < 2 ^ 64 by omega)]
  rw [same,alignUp_page]

theorem Arena.used_ge (low : arena.address < 2 ^ 63) (small : arena.allocEnd ≤ 2 ^ 63) :
    arena.address % 4096 + arena.allocEnd ≤ arena.used ∧ arena.used < arena.address % 4096 + arena.allocEnd + 4096 := by
  rw [Arena.used_eq low]
  simp only [wrap]
  omega

theorem Arena.alloc_some (allocated : arena.alloc sz chunk = some next) (small : sz < builtThreshold) :
    arena.base < chunk ∧ blockEnd (chunk,sz) ≤ arena.base + arena.size ∧
      ∃ allocEnd, arena.allocEnd ≤ allocEnd ∧ arena.currentEnd chunk sz ≤ allocEnd ∧
        (allocEnd = arena.allocEnd ∨ allocEnd = arena.currentEnd chunk sz) ∧
        next = {arena with allocEnd := allocEnd,live := (chunk,sz)::arena.live} := by
  have fits : MemSource.Arena.allocSize sz = sz + 16 := by
    rw [MemSource.Arena.allocSize,ChunkFooter.dataOffset_eq]
    apply wrap_of_lt
    simp only [builtThreshold] at small
    omega
  simp only [Arena.alloc,fits] at allocated
  split at allocated
  next inside =>
    refine ⟨inside.1,?_,_,?_,?_,?_,(Option.some.inj allocated).symm⟩
    · simp only [blockEnd,ChunkFooter.dataOffset_eq]
      omega
    all_goals
      split <;> omega
  next => cases allocated

theorem Arena.Placed.native_end (placed : arena.Placed) (native : arena.native = true) (inside : arena.base < chunk)
    (room : blockEnd (chunk,sz) ≤ arena.base + arena.size) :
    arena.address + arena.currentEnd chunk sz + 16 = blockEnd (chunk,sz) := by
  obtain ⟨ordered,low,_⟩ := placed.native native
  simp only [blockEnd,ChunkFooter.dataOffset_eq] at room ⊢
  simp only [Arena.currentEnd,wrap]
  omega

theorem Arena.Placed.alloc (placed : arena.Placed) (small : sz < builtThreshold) (allocated : arena.alloc sz chunk = some next) :
    next.Placed := by
  obtain ⟨inside,room,allocEnd,_,_,which,rfl⟩ := Arena.alloc_some allocated small
  refine ⟨placed.low,fun native => ?_,fun elsewhere => ?_⟩
  · obtain ⟨ordered,low,bound⟩ := placed.native native
    have ends := placed.native_end native inside room
    exact ⟨ordered,low,show allocEnd ≤ 2 ^ 63 by omega⟩
  · obtain ⟨aligned,low,apart,former⟩ := placed.apart elsewhere
    refine ⟨aligned,low,apart,?_⟩
    rcases which with rfl | rfl
    · exact former
    · exact .inr ⟨chunk,sz,inside,room,rfl⟩

theorem Arena.Placed.native_right (placed : arena.Placed) (small : sz < builtThreshold) (allocated : arena.alloc sz chunk = some next)
    (native : arena.native = true) (right : arena.Right) :
    next.Right ↔ blockEnd (chunk,sz) ≤ arena.address + arena.allocEnd := by
  obtain ⟨inside,room,allocEnd,grown,_,which,rfl⟩ := Arena.alloc_some allocated small
  have ends := placed.native_end native inside room
  have memory (allocEnd : Nat) (live : List (Nat × Nat)) :
      (Arena.mk arena.address arena.size allocEnd arena.native arena.base live).memory = arena.address := if_pos native
  constructor
  · intro after
    have last := after.behind (chunk,sz) List.mem_cons_self
    rw [memory] at last
    dsimp only at last
    omega
  · intro fits
    obtain rfl : allocEnd = arena.allocEnd := by omega
    obtain ⟨_,_,bound⟩ := placed.native native
    have low := placed.low
    have used := Arena.used_ge low bound
    refine ⟨List.forall_mem_cons.mpr ⟨?_,right.behind⟩,List.forall_mem_cons.mpr ⟨?_,right.covered⟩,right.bounded⟩
    · rw [memory]
      exact fits
    · rw [memory,alignDown_page (show arena.address < 2 ^ 64 by omega)]
      change blockEnd (chunk,sz) ≤ arena.address / 4096 * 4096 + arena.used
      omega

/-- The end of a block in front of the arena's header wraps around. -/
theorem currentEnd_cases {address : Nat} (low : address < 2 ^ 63) (high : chunk + sz < 2 ^ 63) :
    (address ≤ chunk → wrap (wrap (chunk + (2 ^ 64 - address)) + sz) = chunk + sz - address) ∧
      (chunk + sz < address → wrap (wrap (chunk + (2 ^ 64 - address)) + sz) = 2 ^ 64 - (address - (chunk + sz))) := by
  constructor
  · intro behind
    have distance : wrap (chunk + (2 ^ 64 - address)) = chunk - address := by
      simp only [wrap]
      omega
    rw [distance,wrap_of_lt (by omega)]
    omega
  · intro before
    rw [wrap_of_lt (show chunk + (2 ^ 64 - address) < 2 ^ 64 by omega),wrap_of_lt (by omega)]
    omega

/-- The distance to a mapping behind the header is more than the arena has, and the one to
a mapping in front of it wraps around: `stats` counts too much, or nothing. -/
theorem distance_wrong {address base size paged allocEnd : Nat} (low : address < 2 ^ 63) (below : base + paged ≤ 2 ^ 63)
    (whole : size ≤ paged) (onePage : 4096 ≤ paged) (apart : address / 4096 * 4096 + paged ≤ base ∨ base + paged ≤ address / 4096 * 4096)
    (inside : base < chunk) (room : chunk + 16 + sz ≤ base + size) (grown : wrap (wrap (chunk + (2 ^ 64 - address)) + sz) ≤ allocEnd)
    (former : allocEnd = 4096 ∨ ∃ chunk sz, base < chunk ∧ chunk + 16 + sz ≤ base + size ∧
      allocEnd = wrap (wrap (chunk + (2 ^ 64 - address)) + sz))
    (bounded : wrap (wrap (address % 4096 + allocEnd) + 4095) / 4096 * 4096 ≤ paged) :
    base + wrap (wrap (address % 4096 + allocEnd) + 4095) / 4096 * 4096 < chunk + 16 + sz := by
  have page := Nat.div_add_mod address 4096
  have rest := Nat.mod_lt address (show 0 < 4096 by decide)
  have ends := @currentEnd_cases chunk sz address low (by omega)
  rcases apart with behind | before
  · rw [ends.1 (by omega)] at grown
    have bound : allocEnd < 2 ^ 63 := by
      rcases former with rfl | ⟨other,extent,inside_,room_,same⟩
      · decide
      · rw [(@currentEnd_cases other extent address low (by omega)).1 (by omega)] at same
        omega
    rw [wrap_of_lt (show address % 4096 + allocEnd < 2 ^ 64 by omega),
      wrap_of_lt (show address % 4096 + allocEnd + 4095 < 2 ^ 64 by omega)] at bounded
    have counted := Nat.div_add_mod (address % 4096 + allocEnd + 4095) 4096
    have cut := Nat.mod_lt (address % 4096 + allocEnd + 4095) (show 0 < 4096 by decide)
    omega
  · rw [ends.2 (by omega)] at grown
    rcases former with rfl | ⟨other,extent,inside_,room_,same⟩
    · omega
    · rw [(@currentEnd_cases other extent address low (by omega)).2 (by omega)] at same
      obtain ⟨distance,far,near,finish⟩ : ∃ distance, 16 ≤ distance ∧ distance ≤ 2 ^ 63 ∧
          address % 4096 + allocEnd = 2 ^ 64 - distance :=
        ⟨2 ^ 64 - (address % 4096 + allocEnd),by omega,by omega,by omega⟩
      rw [finish,wrap_of_lt (show 2 ^ 64 - distance < 2 ^ 64 by omega)] at bounded ⊢
      by_cases close : distance ≤ 4095
      · have nothing : wrap (2 ^ 64 - distance + 4095) = 4095 - distance := by
          simp only [wrap]
          omega
        rw [nothing]
        omega
      · rw [wrap_of_lt (show 2 ^ 64 - distance + 4095 < 2 ^ 64 by omega)] at bounded
        have counted := Nat.div_add_mod (2 ^ 64 - distance + 4095) 4096
        have cut := Nat.mod_lt (2 ^ 64 - distance + 4095) (show 0 < 4096 by decide)
        omega

theorem Arena.Placed.elsewhere_wrong (placed : arena.Placed) (small : sz < builtThreshold)
    (allocated : arena.alloc sz chunk = some next) (elsewhere : arena.native = false) : ¬next.Right := by
  intro after
  have low := placed.low
  have placed_ := placed.alloc small allocated
  obtain ⟨inside,room,allocEnd,_,grown,_,rfl⟩ := Arena.alloc_some allocated small
  obtain ⟨aligned,below,apart,former⟩ := placed_.apart elsewhere
  dsimp only at aligned below apart former
  have whole := pages_ge arena.size
  have positive : 0 < arena.size := by
    simp only [blockEnd] at room
    omega
  have base : alignDown arena.base memPageSize = arena.base := by
    rw [alignDown_page (by omega)]
    simp only [memPageSize] at aligned
    omega
  have covered := after.covered (chunk,sz) List.mem_cons_self
  have bounded := after.bounded
  rw [Arena.used_eq (by exact low)] at covered bounded
  simp only [Arena.memory,elsewhere,Bool.false_eq_true,if_false,base] at covered
  simp only [blockEnd,ChunkFooter.dataOffset_eq] at room covered former
  exact absurd (distance_wrong low below whole (pages_pos positive) apart inside room grown former bounded) (Nat.not_lt.mpr covered)

theorem Arena.Placed.alloc_right_iff (placed : arena.Placed) (small : sz < builtThreshold) (allocated : arena.alloc sz chunk = some next)
    (right : arena.Right) : next.Right ↔ arena.Fits chunk sz := by
  cases native : arena.native with
  | true => exact (placed.native_right small allocated native right).trans ⟨fun fits => ⟨native,fits⟩,fun fits => fits.2⟩
  | false =>
    refine ⟨fun after => absurd after (placed.elsewhere_wrong small allocated native),fun fits => ?_⟩
    exact absurd (fits.1.symm.trans native) (by decide)

theorem Arena.Placed.freed (placed : arena.Placed) (block : Nat) :
    ({arena with live := arena.live.eraseIdx block} : Arena).Placed := ⟨placed.low,placed.native,placed.apart⟩

theorem Arena.Right.freed (right : arena.Right) (block : Nat) :
    ({arena with live := arena.live.eraseIdx block} : Arena).Right :=
  ⟨fun other member => right.behind other (List.mem_of_mem_eraseIdx member),
    fun other member => right.covered other (List.mem_of_mem_eraseIdx member),right.bounded⟩

theorem alignUp_line (p : Nat) : alignUp p 64 = wrap (p + 63) / 64 * 64 := @alignUp_eq p 6 (by decide)

theorem Arena.make_some {mem whole offset : Nat} {dstNode : Int} {base : Nat} (mapping : Mapping mem whole) (inPage : offset + 216 < 4096)
    (line : offset % 64 = 0) (part : offset + sz = whole) (made : Arena.make mem whole (mem + offset) sz dstNode base = some arena) :
    arena.Placed ∧ (arena.Right ↔ (offset + 8191) / 4096 * 4096 ≤ pages (if dstNode < 0 then sz - 128 else sz)) := by
  obtain ⟨_,aligned,_,below⟩ := mapping
  have whole_ := pages_ge whole
  simp only [memPageSize] at aligned
  have fresh {arena : Arena} (none : arena.live = []) (first : arena.allocEnd = 4096) (begin_ : arena.address = mem + offset) :
      arena.Right ↔ (offset + 8191) / 4096 * 4096 ≤ pages arena.size := by
    have counted : arena.used = (offset + 8191) / 4096 * 4096 := by
      rw [Arena.used_eq (by omega),first,begin_]
      simp only [wrap]
      omega
    rw [← counted]
    refine ⟨fun right => right.bounded,fun bounded => ⟨?_,?_,bounded⟩⟩
    all_goals
      intro block member
      rw [none] at member
      cases member
  rw [Arena.make] at made
  split at made
  next native =>
    have behind : alignUp (mem + offset + Placement.sizeofArena) 64 = mem + offset + 128 := by
      rw [alignUp_line]
      simp only [Placement.sizeofArena,wrap]
      omega
    simp only [behind] at made
    split at made
    next room =>
      obtain rfl := Option.some.inj made
      have size : mem + offset + sz - (mem + offset + 128) = sz - 128 := by omega
      rw [fresh rfl rfl rfl,if_pos native]
      dsimp only
      rw [size]
      refine ⟨⟨?_,fun _ => ⟨?_,?_,?_⟩,fun (elsewhere : true = false) => absurd elsewhere (by decide)⟩,Iff.rfl⟩
      all_goals
        dsimp only [memPageSize]
        omega
    next => cases made
  next elsewhere =>
    split at made
    next mapped =>
      obtain ⟨⟨_,aligned_,_,below_⟩,apart⟩ := mapped
      obtain rfl := Option.some.inj made
      rw [fresh rfl rfl rfl,if_neg elsewhere]
      refine ⟨⟨?_,fun (native : false = true) => absurd native (by decide),fun _ => ⟨aligned_,below_,?_,.inl rfl⟩⟩,Iff.rfl⟩
      · dsimp only
        omega
      · have start : (mem + offset) / 4096 * 4096 = mem := by omega
        have pages_ : pages sz ≤ pages whole := by
          simp only [pages,memPageSize]
          omega
        dsimp only
        rw [start]
        exact apart.imp (fun behind => by omega) id
    next => cases made

end Arenas

def Source.Placed (source : Source) : Prop := ∀ arena ∈ source.arenas, arena.Placed

def Source.Right (source : Source) : Prop := ∀ arena ∈ source.arenas, arena.Right

section Steps
variable {source next : Source} {system : System} {bytes chunk : Nat}

theorem create_some {node home : Int} {sz mem base : Nat} (created : create node home sz mem base = some source) :
    source.Placed ∧ (source.Right ↔ Small none (.create node home sz mem base)) := by
  simp only [create] at created
  split at created
  next inside =>
    obtain ⟨mapping,room⟩ := inside
    obtain ⟨_,aligned,_,below⟩ := id mapping
    have whole := pages_ge sz
    simp only [memPageSize] at aligned
    have start : alignUp (mem + Placement.sizeofMemSourceImpl) 64 = mem + 256 := by
      rw [alignUp_line]
      simp only [Placement.sizeofMemSourceImpl,wrap]
      omega
    rw [start] at created room
    obtain ⟨arena,made,rfl⟩ := Option.map_eq_some_iff.mp created
    obtain ⟨placed,right⟩ := Arena.make_some mapping (by decide) (by decide) (show 256 + (mem + sz - (mem + 256)) = sz by omega) made
    refine ⟨List.forall_mem_singleton.mpr placed,List.forall_mem_singleton.trans (right.trans ?_)⟩
    simp only [Small,pages,memPageSize]
    split <;> omega
  next => cases created

theorem createNewArena_some (created : createNewArena system source = some next) :
    ∃ arena, next = {source with arenas := arena::source.arenas} ∧ arena.Placed ∧ arena.Right := by
  simp only [createNewArena] at created
  split at created
  next mapping =>
    obtain ⟨arena,made,rfl⟩ := Option.map_eq_some_iff.mp created
    obtain ⟨placed,right⟩ := Arena.make_some mapping (by decide) (by decide) (Nat.zero_add _)
      (show Arena.make system.mem newArenaSize (system.mem + 0) newArenaSize _ system.base = some arena from made)
    refine ⟨arena,rfl,placed,right.mpr ?_⟩
    split <;> decide
  next => cases created

theorem ready_some {serving : Source} {answer : Option Nat} (got : ready system source = some (serving,answer)) (placed : source.Placed) :
    serving.Placed ∧ (serving.Right ↔ source.Right) := by
  simp only [ready] at got
  split at got
  · cases got
    exact ⟨placed,Iff.rfl⟩
  · split at got
    · cases got
      exact ⟨placed,Iff.rfl⟩
    · obtain ⟨made,created,same⟩ := Option.map_eq_some_iff.mp got
      cases same
      obtain ⟨arena,rfl,placed_,right⟩ := createNewArena_some created
      exact ⟨List.forall_mem_cons.mpr ⟨placed_,placed⟩,List.forall_mem_cons.trans ⟨And.right,And.intro right⟩⟩

theorem alloc_some (allocated : alloc system source bytes = some next) (placed : source.Placed) :
    next.Placed ∧ (source.Right → (next.Right ↔ Small (some source) (.alloc bytes system))) := by
  rw [alloc] at allocated
  split at allocated
  next large =>
    cases allocated
    exact ⟨placed,fun right => ⟨fun _ small => absurd small (Nat.not_lt.mpr large),fun _ => right⟩⟩
  next small =>
    obtain ⟨⟨serving,answer⟩,got,taken⟩ := Option.bind_eq_some_iff.mp allocated
    obtain ⟨placed,same⟩ := ready_some got placed
    have small := Nat.not_le.mp small
    simp only [Small,got]
    cases answer with
    | none =>
      cases taken
      exact ⟨placed,fun right => ⟨fun _ _ _ _ other => (by cases other),fun _ => same.mpr right⟩⟩
    | some chunk =>
      simp only [Source.take] at taken
      split at taken
      next => cases taken
      next active rest arenas =>
        obtain ⟨changed,took,rfl⟩ := Option.map_eq_some_iff.mp taken
        rw [Source.Placed,arenas] at placed
        obtain ⟨first,others⟩ := List.forall_mem_cons.mp placed
        refine ⟨List.forall_mem_cons.mpr ⟨first.alloc small took,others⟩,fun right => ?_⟩
        have right := same.mpr right
        rw [Source.Right,arenas] at right
        obtain ⟨right,rights⟩ := List.forall_mem_cons.mp right
        refine List.forall_mem_cons.trans (Iff.trans ⟨And.left,fun after => ⟨after,rights⟩⟩ ((first.alloc_right_iff small took right).trans ?_))
        constructor
        · intro fits _ _ _ other active member
          cases other
          rw [arenas] at member
          cases member
          exact fits
        · intro fits
          exact fits small serving chunk rfl active (by rw [arenas]; rfl)

theorem modify_forall {holds : Arena → Prop} {change : Arena → Arena} {arenas : List Arena} (keeps : ∀ arena, holds arena → holds (change arena))
    (all : ∀ arena ∈ arenas, holds arena) (position : Nat) : ∀ arena ∈ arenas.modify position change, holds arena := by
  intro changed member
  obtain ⟨index,found⟩ := List.mem_iff_getElem?.mp member
  rw [List.getElem?_modify] at found
  obtain ⟨arena,was,rfl⟩ := Option.map_eq_some_iff.mp found
  have before := all arena (List.mem_of_getElem? was)
  split
  · exact keeps arena before
  · exact before

theorem step_good {state after : Option Source} {action : Action} (placed : ∀ source ∈ state, source.Placed)
    (stepped : step state action = some after) :
    (∀ source ∈ after, source.Placed) ∧ (Good state → (Good after ↔ Small state action)) := by
  have one (source : Source) : Good (some source) ↔ source.Right :=
    ⟨fun good => good source rfl,fun right other same => (by cases same; exact right)⟩
  cases state with
  | none =>
    cases action with
    | create node home sz mem base =>
      obtain ⟨source,created,rfl⟩ := Option.map_eq_some_iff.mp stepped
      obtain ⟨placed,right⟩ := create_some created
      exact ⟨fun other same => (by cases same; exact placed),fun _ => (one source).trans right⟩
    | alloc bytes system => cases stepped
    | free arena block => cases stepped
  | some source =>
    have placed := placed source rfl
    cases action with
    | create node home sz mem base => cases stepped
    | alloc bytes system =>
      obtain ⟨next,allocated,rfl⟩ := Option.map_eq_some_iff.mp stepped
      obtain ⟨placed,right⟩ := alloc_some allocated placed
      exact ⟨fun other same => (by cases same; exact placed),fun good => (one next).trans (right ((one source).mp good))⟩
    | free arena block =>
      cases stepped
      refine ⟨fun other same => ?_,fun good => ⟨fun _ => trivial,fun _ => (one _).mpr ?_⟩⟩
      · cases same
        exact modify_forall (fun _ placed => placed.freed block) placed arena
      · exact modify_forall (fun _ right => right.freed block) ((one source).mp good) arena

end Steps

/-- In a run all arenas are right all the time exactly when nothing else is asked than
what the first `alloc_end` has room for. -/
theorem allocEnd_iff (actions : List Action) (final : Option Source) (ran : run step none actions = some final) :
    (∀ first second middle, actions = first ++ second → run step none first = some middle → Good middle) ↔
      Meets step Small none actions :=
  everywhere_iff_meets (fun _ _ _ placed stepped => (step_good placed stepped).1)
    (fun _ _ _ placed good stepped => (step_good placed stepped).2 good)
    (fun _ other => nomatch other) (fun _ other => nomatch other) ran

def firstPage : List Action := [.create 1 (-1) newArenaSize 65536 0,.alloc 100 ⟨some 66872,0,0,none⟩]

def firstArena : Arena := ⟨65792,newArenaSize - 384,memPageSize,true,65920,[]⟩

theorem allocEnd_iff_firstPage :
    run step none firstPage = some (some ⟨1,-1,[{firstArena with live := [(66872,100)]}]⟩) ∧
      ∀ first second middle, firstPage = first ++ second → run step none first = some middle → Good middle := by
  have ran : run step none firstPage = some (some ⟨1,-1,[{firstArena with live := [(66872,100)]}]⟩) := by rfl
  refine ⟨ran,(allocEnd_iff firstPage _ ran).mpr ⟨show memPageSize + 384 < newArenaSize by decide,fun next stepped => ⟨?_,fun _ _ => trivial⟩⟩⟩
  cases stepped
  intro _ serving chunk got active member
  cases got
  cases member
  exact ⟨rfl,by decide⟩

/-- The footer of a block in two pages is not counted. -/
theorem allocEnd_footer : ¬∀ actions final, run step none actions = some final → Good final := by
  intro always
  have ran : run step none [.create 1 (-1) newArenaSize 65536 0,.alloc 5000 ⟨some 66872,0,0,none⟩] =
      some (some ⟨1,-1,[{firstArena with allocEnd := 6080,live := [(66872,5000)]}]⟩) := by rfl
  have right := always _ _ ran _ rfl _ List.mem_cons_self
  exact absurd (right.behind (66872,5000) List.mem_cons_self) (by decide)

end Pgasus.MemSource.AllocEnd
