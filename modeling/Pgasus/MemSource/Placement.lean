import Pgasus.Library.Mappings
import Pgasus.Library.Runs
import Pgasus.MemSource.Blocks

/-! Where the memory of the sources lies: `create`, the arenas, `alloc` and `migrate` over
the mappings of the process, and the pages that its threads touch. -/
namespace Pgasus.Placement
open MemSource Mappings Runs

def sizeofMemSourceImpl : Nat := 216
def sizeofArena : Nat := 80

/-- `since` is a record: the node of the source when the arena was made. -/
structure Arena where
  address : Nat
  size : Nat
  native : Bool
  base : Nat
  msp : Nat
  since : Int

structure MmapChunk where
  address : Nat
  size : Nat
  since : Int

structure MemSourceImpl where
  address : Nat
  node : Int
  nodeHome : Int
  memSize : Nat
  arenas : List Arena
  mmappedChunks : List MmapChunk

/-- The answers to one operation: `mmap` to its calls in order, 0 for `MAP_FAILED`, and
`movable` for the pages that `move_pages` can move. -/
structure System where
  mmap : Nat → Nat
  createMspaceWithBase : Nat
  mspaceMalloc : Bool
  mspaceGetTopChunkExtent : Nat → Nat × Nat
  movable : Nat → Bool

/-- A page became resident on `placed` while its source reported `reported`. -/
structure Fault where
  page : Nat
  placed : Int
  reported : Int
deriving DecidableEq

structure State where
  space : Space
  sources : List MemSourceImpl
  faults : List Fault

def State.start : State := ⟨Space.empty,[],[]⟩

def region (mem sz : Nat) (node : Int) : Mapping := ⟨mem / memPageSize,pages sz / memPageSize,node⟩

/-- `callMmap` and `bindMemory`: the system gives whole pages that nobody has. -/
def callMmap (space : Space) (mem sz : Nat) (node : Int) : Option Space :=
  if mem = 0 then some space
  else if mem % memPageSize = 0 ∧ mem + pages sz ≤ 2 ^ 64 ∧ 0 < sz ∧ space.vacant (region mem sz node) = true then
    some (space.map (region mem sz node))
  else none

/-- `Arena::Arena`. With nothing mapped at `base`, `create_mspace_with_base` faults. -/
def Arena.make (space : Space) (base msp address sz : Nat) (dstNode since : Int) : Option (Space × Arena) :=
  if dstNode < 0 then
    let base := alignUp (address + sizeofArena) 64
    if base ≤ address + sz then some (space,⟨address,address + sz - base,true,base,msp,since⟩) else none
  else
    match callMmap space base sz dstNode with
    | none => none
    | some space => if base = 0 then none else some (space,⟨address,sz,false,base,msp,since⟩)

/-- Where an arena's data goes: next to the header, or on a node of its own. -/
def dataNode (node home : Int) : Int := if 0 ≤ home then node else -1

/-- `MemSourceImpl::create` and the constructor. -/
def create (system : System) (state : State) (physNode : Int) (sz : Nat) (home : Int) : Option State :=
  let address := system.mmap 0
  match callMmap state.space address sz physNode with
  | none => none
  | some space =>
    let arenaStart := alignUp (address + sizeofMemSourceImpl) 64
    -- a null pointer, or an arena whose size wraps around
    if address = 0 ∨ address + sz < arenaStart then none
    else
      (Arena.make space (system.mmap 1) system.createMspaceWithBase arenaStart (address + sz - arenaStart)
        (dataNode physNode home) physNode).map fun (space,arena) =>
          {state with space,sources := state.sources ++ [⟨address,physNode,home,sz,[arena],[]⟩]}

def createNewArena (system : System) (space : Space) (source : MemSourceImpl) (arenaSize : Nat) :
    Option (Space × MemSourceImpl) :=
  let where_ := if 0 ≤ source.nodeHome then source.nodeHome else source.node
  let mem := system.mmap 0
  match callMmap space mem arenaSize where_ with
  | none => none
  | some space =>
    if mem = 0 then some (space,source)
    else
      (Arena.make space (system.mmap 1) system.createMspaceWithBase mem arenaSize (dataNode source.node source.nodeHome)
        source.node).map fun (space,arena) => (space,{source with arenas := arena::source.arenas})

/-- The part of `MemSourceImpl::alloc` from the threshold on. -/
def allocMapped (system : System) (space : Space) (source : MemSourceImpl) (bytes : Nat) : Option (Space × MemSourceImpl) :=
  let mem := system.mmap 0
  match callMmap space mem (mmapSize bytes) source.node with
  | none => none
  | some space =>
    if mem = 0 then some (space,source)
    else some (space,{source with mmappedChunks := ⟨mem,mmapSize bytes,source.node⟩::source.mmappedChunks})

/-- `MemSourceImpl::alloc`: `mspace_malloc` says whether the active arena has room. -/
def alloc (mmapThreshold : Nat) (system : System) (space : Space) (source : MemSourceImpl) (bytes : Nat) :
    Option (Space × MemSourceImpl) :=
  if mmapThreshold ≤ bytes then allocMapped system space source bytes
  else if system.mspaceMalloc then some (space,source)
  else createNewArena system space source newArenaSize

/-- `add_pages_to_vector`. -/
def addPages (start finish : Nat) : List Nat :=
  List.range' (start / memPageSize) (finish / memPageSize + 1 - start / memPageSize)

/-- The `madvise` behind the top chunk, which does nothing when there is no page. -/
def pageOut (space : Space) (topChunk : Nat × Nat) : Space :=
  space.discard (alignUp (topChunk.1 + 64) memPageSize / memPageSize)
    (alignDown (topChunk.1 + topChunk.2 - 64) memPageSize / memPageSize)

def migratePages (system : System) (source : MemSourceImpl) : List Nat :=
  source.arenas.flatMap (fun arena => addPages arena.msp (system.mspaceGetTopChunkExtent arena.msp).1) ++
    source.mmappedChunks.flatMap fun chunk => addPages chunk.address (chunk.address + chunk.size)

/-- `MemSourceImpl::migrate`, which ends with the new node whatever `move_pages` did. -/
def migrate (system : System) (space : Space) (source : MemSourceImpl) (dst : Int) : Space × MemSourceImpl :=
  let space := source.arenas.foldl (fun space arena => pageOut space (system.mspaceGetTopChunkExtent arena.msp)) space
  (space.move (migratePages system source) system.movable dst,{source with node := dst})

def touches (start size page : Nat) : Bool :=
  decide (start / memPageSize ≤ page) && decide (page * memPageSize < start + size)

def MemSourceImpl.mappedUnder (source : MemSourceImpl) (page : Nat) : List Int :=
  (source.arenas.filter fun arena => touches arena.base arena.size page).map Arena.since ++
    (source.mmappedChunks.filter fun chunk => touches chunk.address chunk.size page).map MmapChunk.since

/-- A thread on the node `here` touches a page of some mapping; the first time is a fault. -/
def touch (state : State) (page : Nat) (here : Int) : Option State :=
  if (state.space.resident page).isSome then some state
  else (state.space.place page here).map fun placed =>
    {state with
      space := state.space.put page placed
      faults := (state.sources.filter fun source => source.mappedUnder page ≠ []).map (fun source => ⟨page,placed,source.node⟩) ++
        state.faults}

/-- The sources are numbered in the order of their creation. The operations' own writes
are touches after their mappings. -/
inductive Action
  | create (physNode : Int) (sz : Nat) (home : Int) (system : System)
  | alloc (source bytes : Nat) (system : System)
  | migrate (source : Nat) (dst : Int) (system : System)
  | touch (page : Nat) (here : Int)

def State.setSource (state : State) (number : Nat) (changed : Space × MemSourceImpl) : State :=
  {state with space := changed.1,sources := state.sources.set number changed.2}

def step (mmapThreshold : Nat) (state : State) : Action → Option State
  | .create physNode sz home system => create system state physNode sz home
  | .alloc number bytes system =>
    match state.sources[number]? with
    | none => none
    | some source => (alloc mmapThreshold system state.space source bytes).map (state.setSource number)
  | .migrate number dst system =>
    match state.sources[number]? with
    | none => none
    | some source => some (state.setSource number (migrate system state.space source dst))
  | .touch page here => touch state page here

def Bound (space : Space) (start size : Nat) (node : Int) : Prop :=
  ∀ page, touches start size page = true → space.node page = some node

def Mapped (space : Space) (start size : Nat) : Prop :=
  ∀ page, touches start size page = true → ∃ node, space.node page = some node

def MemSourceImpl.AtHome (space : Space) (source : MemSourceImpl) : Prop :=
  0 ≤ source.nodeHome → Bound space source.address sizeofMemSourceImpl source.nodeHome ∧
    ∀ arena ∈ source.arenas, Bound space arena.address sizeofArena source.nodeHome

/-- The page is where its source said, if the source named a node at all. -/
def Fault.Local (fault : Fault) : Prop := fault.reported < 0 ∨ fault.placed = fault.reported

structure Sound (state : State) : Prop where
  home : ∀ source ∈ state.sources, source.AtHome state.space
  faults : ∀ fault ∈ state.faults, fault.Local

/-- The home is the data's node, and a page that is touched for the first time was mapped
under the node that its source has now, or under none and its placement is the right one. -/
def Settled (state : State) : Action → Prop
  | .create physNode _ home _ => home < 0 ∨ physNode = home
  | .touch page here => state.space.resident page = none → ∀ source ∈ state.sources, ∀ since ∈ source.mappedUnder page,
      source.node < 0 ∨ since = source.node ∨ since < 0 ∧ state.space.place page here = some source.node
  | _ => True

section Memory
variable {space next : Space} {start size page mem sz : Nat} {node bound : Int}

def Extends (space next : Space) : Prop := ∀ page bound, space.node page = some bound → next.node page = some bound

theorem Extends.refl (space : Space) : Extends space space := fun _ _ here => here

theorem Extends.trans {last : Space} (first : Extends space next) (second : Extends next last) : Extends space last :=
  fun page bound here => second page bound (first page bound here)

theorem Bound.mapped (bound : Bound space start size node) : Mapped space start size :=
  fun page inside => ⟨node,bound page inside⟩

theorem Mapped.extend (mapped : Mapped space start size) (extended : Extends space next) : Mapped next start size :=
  fun page inside => (mapped page inside).imp fun node here => extended page node here

theorem Mapped.bound_iff (mapped : Mapped space start size) (extended : Extends space next) :
    Bound next start size node ↔ Bound space start size node := by
  constructor
  · intro bound page inside
    obtain ⟨before,here⟩ := mapped page inside
    rw [here,← bound page inside,extended page before here]
  · exact fun bound page inside => extended page node (bound page inside)

theorem touches_iff : touches start size page = true ↔ start / memPageSize ≤ page ∧ page * memPageSize < start + size := by
  simp [touches]

theorem Bound.part {inner : Nat} (bound : Bound space start size node) (length : Nat) (low : start ≤ inner)
    (high : inner + length ≤ start + size) : Bound space inner length node := by
  intro page touched
  obtain ⟨first,last⟩ := touches_iff.mp touched
  exact bound page (touches_iff.mpr ⟨(Nat.div_le_div_right low).trans first,last.trans_le high⟩)

theorem align64 {p : Nat} (fits : p + 64 ≤ 2 ^ 64) : p ≤ alignUp p 64 ∧ alignUp p 64 < p + 64 :=
  @alignUp_bounds p 6 (by decide) fits

theorem callMmap_spec (mapped : callMmap space mem sz node = some next) :
    Extends space next ∧ (mem ≠ 0 → mem % memPageSize = 0 ∧ mem + pages sz ≤ 2 ^ 64 ∧ 0 < sz ∧ Bound next mem (pages sz) node) := by
  simp only [callMmap] at mapped
  split at mapped
  next refused =>
    obtain rfl := Option.some.inj mapped
    exact ⟨.refl _,fun present => absurd refused present⟩
  next =>
    split at mapped
    next given =>
      obtain ⟨aligned,fits,positive,vacant⟩ := given
      obtain rfl := Option.some.inj mapped
      refine ⟨fun page bound here => Space.node_map vacant here,fun _ => ⟨aligned,fits,positive,fun page touched => ?_⟩⟩
      obtain ⟨low,high⟩ := touches_iff.mp touched
      have covers : (region mem sz node).covers page = true := by
        rw [Mapping.covers_iff]
        refine ⟨low,?_⟩
        simp only [region,memPageSize,pages] at *
        omega
      exact Space.node_map_of_covers covers
    next => cases mapped

end Memory

structure MemSourceImpl.Laid (space : Space) (source : MemSourceImpl) : Prop where
  header : Mapped space source.address sizeofMemSourceImpl
  headers : ∀ arena ∈ source.arenas, Mapped space arena.address sizeofArena
  data : ∀ page since, since ∈ source.mappedUnder page → ∃ node, space.node page = some node ∧ (0 ≤ since → node = since)

structure Inv (state : State) : Prop where
  laid : ∀ source ∈ state.sources, source.Laid state.space

section Sources
variable {space next : Space} {source changed : MemSourceImpl}

theorem mem_mappedUnder {page : Nat} {since : Int} : since ∈ source.mappedUnder page ↔
    (∃ arena ∈ source.arenas, touches arena.base arena.size page = true ∧ arena.since = since) ∨
      ∃ chunk ∈ source.mmappedChunks, touches chunk.address chunk.size page = true ∧ chunk.since = since := by
  simp [MemSourceImpl.mappedUnder,and_assoc]

theorem MemSourceImpl.Laid.extend (laid : source.Laid space) (extended : Extends space next) : source.Laid next where
  header := laid.header.extend extended
  headers := fun arena member => (laid.headers arena member).extend extended
  data := fun page since here => (laid.data page since here).imp fun node bound => bound.imp_left (extended page node)

theorem MemSourceImpl.Laid.atHome_iff (laid : source.Laid space) (extended : Extends space next) :
    source.AtHome next ↔ source.AtHome space := by
  refine imp_congr_right fun _ => and_congr (laid.header.bound_iff extended) ?_
  exact forall₂_congr fun arena member => (laid.headers arena member).bound_iff extended

structure Grown (space : Space) (source : MemSourceImpl) (next : Space) (changed : MemSourceImpl) : Prop where
  extends_ : Extends space next
  address : changed.address = source.address
  nodeHome : changed.nodeHome = source.nodeHome
  kept : ∀ arena ∈ source.arenas, arena ∈ changed.arenas
  arenas : ∀ arena ∈ changed.arenas, arena ∈ source.arenas ∨ Mapped next arena.address sizeofArena ∧
    (0 ≤ source.nodeHome → Bound next arena.address sizeofArena source.nodeHome)
  data : ∀ page since, since ∈ changed.mappedUnder page → since ∈ source.mappedUnder page ∨
    ∃ node, next.node page = some node ∧ (0 ≤ since → node = since)

theorem Grown.refl (space : Space) (source : MemSourceImpl) : Grown space source space source :=
  ⟨.refl space,rfl,rfl,fun _ member => member,fun _ member => .inl member,fun _ _ here => .inl here⟩

theorem Grown.laid (grown : Grown space source next changed) (laid : source.Laid space) : changed.Laid next where
  header := grown.address ▸ laid.header.extend grown.extends_
  headers := fun arena member => (grown.arenas arena member).elim
    (fun old => (laid.headers arena old).extend grown.extends_) And.left
  data := fun page since here => (grown.data page since here).elim
    (fun old => (laid.extend grown.extends_).data page since old) id

theorem Grown.atHome_iff (grown : Grown space source next changed) (laid : source.Laid space) :
    changed.AtHome next ↔ source.AtHome space := by
  rw [← laid.atHome_iff grown.extends_]
  simp only [MemSourceImpl.AtHome,grown.address,grown.nodeHome]
  refine imp_congr_right fun home => and_congr_right fun _ => ?_
  constructor
  · exact fun headers arena member => headers arena (grown.kept arena member)
  · exact fun headers arena member => (grown.arenas arena member).elim (headers arena) fun new => new.2 home

theorem Arena.make_spec {base msp address sz limit : Nat} {dstNode since bound : Int} {arena : Arena}
    (made : Arena.make space base msp address sz dstNode since = some (next,arena)) (small : address + sizeofArena + 64 ≤ 2 ^ 64)
    (whole : Bound space address limit bound) (inside : sz ≤ limit)
    (toward : 0 ≤ since → dstNode = since ∨ dstNode < 0 ∧ bound = since) :
    Extends space next ∧ arena.address = address ∧ arena.since = since ∧
      ∀ page, touches arena.base arena.size page = true → ∃ node, next.node page = some node ∧ (0 ≤ since → node = since) := by
  simp only [Arena.make] at made
  split at made
  next native =>
    split at made
    next room =>
      cases made
      have above := (align64 small).1
      have part := whole.part (address + sz - alignUp (address + sizeofArena) 64)
        ((Nat.le_add_right address sizeofArena).trans above) (by omega)
      refine ⟨.refl _,rfl,rfl,fun page touched => ⟨bound,part page touched,fun positive => ?_⟩⟩
      rcases toward positive with same | same
      · omega
      · exact same.2
    next => cases made
  next apart =>
    split at made
    next => cases made
    next mapped =>
      split at made
      next => cases made
      next present =>
        cases made
        obtain ⟨extended,given⟩ := callMmap_spec mapped
        have part := (given present).2.2.2.part sz (Nat.le_refl base) (Nat.add_le_add_left (pages_ge sz) base)
        refine ⟨extended,rfl,rfl,fun page touched => ⟨dstNode,part page touched,fun positive => ?_⟩⟩
        rcases toward positive with same | same
        · exact same
        · exact absurd same.1 apart

theorem dataNode_toward {node home bound : Int} (same : home < 0 → bound = node) :
    0 ≤ node → dataNode node home = node ∨ dataNode node home < 0 ∧ bound = node := by
  intro _
  simp only [dataNode]
  split
  next => exact .inl rfl
  next away => exact .inr ⟨by decide,same (Int.not_le.mp away)⟩

theorem createNewArena_grown {system : System} (made : createNewArena system space source newArenaSize = some (next,changed)) :
    Grown space source next changed := by
  simp only [createNewArena] at made
  split at made
  next => cases made
  next middle mapped =>
    obtain ⟨extended,given⟩ := callMmap_spec mapped
    split at made
    next =>
      cases made
      exact ⟨extended,rfl,rfl,fun _ member => member,fun _ member => .inl member,fun _ _ here => .inl here⟩
    next present =>
      obtain ⟨⟨last,arena⟩,arenaMade,same⟩ := Option.map_eq_some_iff.mp made
      cases same
      obtain ⟨_,fits,_,whole⟩ := given present
      have wide : pages newArenaSize = newArenaSize := by decide
      rw [wide] at fits whole
      have small : system.mmap 0 + sizeofArena + 64 ≤ 2 ^ 64 := by
        simp only [sizeofArena,newArenaSize] at *
        omega
      obtain ⟨grew,address,since,data⟩ := Arena.make_spec arenaMade small whole (Nat.le_refl _)
        (dataNode_toward fun away => if_neg (Int.not_le.mpr away))
      have header := whole.part sizeofArena (Nat.le_refl (system.mmap 0)) (Nat.add_le_add_left (by decide) _)
      refine ⟨extended.trans grew,rfl,rfl,fun _ member => List.mem_cons_of_mem _ member,fun other member => ?_,fun page stamp here => ?_⟩
      · rcases List.mem_cons.mp member with rfl | old
        · rw [address]
          refine .inr ⟨(header.mapped.extend grew),fun home => ?_⟩
          rw [if_pos home] at header
          exact fun page inside => grew page _ (header page inside)
        · exact .inl old
      · rcases mem_mappedUnder.mp here with ⟨other,member,touched,rfl⟩ | old
        · rcases List.mem_cons.mp member with rfl | old
          · rw [since]
            exact .inr (data page touched)
          · exact .inl (mem_mappedUnder.mpr (.inl ⟨other,old,touched,rfl⟩))
        · exact .inl (mem_mappedUnder.mpr (.inr old))

theorem allocMapped_grown {system : System} {bytes : Nat} (made : allocMapped system space source bytes = some (next,changed)) :
    Grown space source next changed := by
  simp only [allocMapped] at made
  split at made
  next => cases made
  next mapped =>
    obtain ⟨extended,given⟩ := callMmap_spec mapped
    split at made
    next =>
      cases made
      exact ⟨extended,rfl,rfl,fun _ member => member,fun _ member => .inl member,fun _ _ here => .inl here⟩
    next present =>
      cases made
      have part := (given present).2.2.2.part (mmapSize bytes) (Nat.le_refl _) (Nat.add_le_add_left (pages_ge (mmapSize bytes)) _)
      refine ⟨extended,rfl,rfl,fun _ member => member,fun _ member => .inl member,fun page stamp here => ?_⟩
      rcases mem_mappedUnder.mp here with old | ⟨chunk,member,touched,rfl⟩
      · exact .inl (mem_mappedUnder.mpr (.inl old))
      · rcases List.mem_cons.mp member with rfl | old
        · exact .inr ⟨source.node,part page touched,fun _ => rfl⟩
        · exact .inl (mem_mappedUnder.mpr (.inr ⟨chunk,old,touched,rfl⟩))

theorem alloc_grown {mmapThreshold bytes : Nat} {system : System}
    (made : alloc mmapThreshold system space source bytes = some (next,changed)) : Grown space source next changed := by
  simp only [alloc] at made
  split at made
  next => exact allocMapped_grown made
  next =>
    split at made
    next =>
      cases made
      exact .refl space source
    next => exact createNewArena_grown made

theorem node_pageOut (system : System) (arenas : List Arena) (space : Space) :
    (arenas.foldl (fun space arena => pageOut space (system.mspaceGetTopChunkExtent arena.msp)) space).node = space.node := by
  induction arenas generalizing space with
  | nil => rfl
  | cons arena rest ih => exact ih _

/-- Migrating moves pages and binds nothing anew. -/
theorem migrate_grown (system : System) (space : Space) (source : MemSourceImpl) (dst : Int) :
    Grown space source (migrate system space source dst).1 (migrate system space source dst).2 := by
  refine ⟨fun page bound here => ?_,rfl,rfl,fun _ member => member,fun _ member => .inl member,fun _ _ here => .inl here⟩
  rw [migrate,Space.node_move,node_pageOut]
  exact here

theorem Bound.unique {start size : Nat} {node other : Int} (bound : Bound space start size node)
    (positive : 0 < size) (again : Bound space start size other) : node = other := by
  have first : touches start size (start / memPageSize) = true := by
    rw [touches_iff]
    exact ⟨Nat.le_refl _,(Nat.div_mul_le_self start memPageSize).trans_lt (Nat.lt_add_of_pos_right positive)⟩
  exact Option.some.inj ((bound _ first).symm.trans (again _ first))

end Sources

section Steps
variable {state next : State} {space : Space} {system : System}

theorem create_spec {physNode home : Int} {sz : Nat} (made : create system state physNode sz home = some next) :
    ∃ source, next.sources = state.sources ++ [source] ∧ Extends state.space next.space ∧ next.faults = state.faults ∧
      source.Laid next.space ∧ (source.AtHome next.space ↔ home < 0 ∨ physNode = home) := by
  simp only [create] at made
  split at made
  next => cases made
  next space mapped =>
    obtain ⟨extended,given⟩ := callMmap_spec mapped
    split at made
    next => cases made
    next present =>
      obtain ⟨present,room⟩ := not_or.mp present
      obtain ⟨⟨last,arena⟩,arenaMade,rfl⟩ := Option.map_eq_some_iff.mp made
      obtain ⟨_,fits,positive,whole⟩ := given present
      have large := pages_pos positive
      have wide := pages_ge sz
      have near : system.mmap 0 + sizeofMemSourceImpl + 64 ≤ system.mmap 0 + 512 := by
        simp only [sizeofMemSourceImpl]
        omega
      obtain ⟨above,below⟩ := align64 (near.trans (by omega))
      have after : alignUp (system.mmap 0 + sizeofMemSourceImpl) 64 + sizeofArena ≤ system.mmap 0 + 1024 := by
        simp only [sizeofArena]
        omega
      have low := (Nat.le_add_right _ sizeofMemSourceImpl).trans above
      have rest := whole.part (system.mmap 0 + pages sz - alignUp (system.mmap 0 + sizeofMemSourceImpl) 64) low (by omega)
      obtain ⟨grew,address,since,data⟩ := Arena.make_spec arenaMade (by omega) rest (by omega)
        (dataNode_toward fun _ => rfl)
      have header := whole.part sizeofMemSourceImpl (Nat.le_refl _) (by omega)
      have arenaHeader := whole.part sizeofArena low (by omega)
      have laid : MemSourceImpl.Laid last ⟨system.mmap 0,physNode,home,sz,[arena],[]⟩ := by
        refine ⟨header.mapped.extend grew,fun other member => ?_,fun page stamp here => ?_⟩
        · rw [List.mem_singleton.mp member,address]
          exact arenaHeader.mapped.extend grew
        · rcases mem_mappedUnder.mp here with ⟨other,member,touched,rfl⟩ | ⟨_,none_,_⟩
          · rw [List.mem_singleton.mp member] at touched ⊢
            rw [since]
            exact data page touched
          · cases none_
      refine ⟨_,rfl,extended.trans grew,rfl,laid,?_⟩
      constructor
      · intro atHome
        refine or_iff_not_imp_left.mpr fun local_ => ?_
        exact header.unique (by decide) ((header.mapped.bound_iff grew).mp (atHome (Int.not_lt.mp local_)).1)
      · intro settled local_
        obtain rfl := settled.resolve_left (Int.not_lt.mpr local_)
        refine ⟨(header.mapped.bound_iff grew).mpr header,fun other member => ?_⟩
        rw [List.mem_singleton.mp member,address]
        exact (arenaHeader.mapped.bound_iff grew).mpr arenaHeader

theorem create_keeps {physNode home : Int} {sz : Nat} (inv : Inv state)
    (made : create system state physNode sz home = some next) : Inv next := by
  obtain ⟨source,sources,extended,_,laid,_⟩ := create_spec made
  refine ⟨fun other member => ?_⟩
  rw [sources] at member
  rcases List.mem_append.mp member with old | new
  · exact (inv.laid other old).extend extended
  · exact List.mem_singleton.mp new ▸ laid

theorem create_sound {physNode home : Int} {sz : Nat} (inv : Inv state)
    (made : create system state physNode sz home = some next) : Sound next ↔ Sound state ∧ (home < 0 ∨ physNode = home) := by
  obtain ⟨source,sources,extended,faults,laid,atHome⟩ := create_spec made
  rw [← atHome]
  constructor
  · intro sound
    have member {other : MemSourceImpl} (inside : other ∈ state.sources ∨ other = source) : other ∈ next.sources := by
      rw [sources]
      exact List.mem_append.mpr (inside.imp_right List.mem_singleton.mpr)
    refine ⟨⟨fun other old => ?_,faults ▸ sound.faults⟩,sound.home source (member (.inr rfl))⟩
    exact ((inv.laid other old).atHome_iff extended).mp (sound.home other (member (.inl old)))
  · intro sound
    refine ⟨fun other member => ?_,faults.symm ▸ sound.1.faults⟩
    rw [sources] at member
    rcases List.mem_append.mp member with old | new
    · exact ((inv.laid other old).atHome_iff extended).mpr (sound.1.home other old)
    · exact List.mem_singleton.mp new ▸ sound.2

section Changes
variable {number : Nat} {source changed : MemSourceImpl}

theorem set_keeps (inv : Inv state) (here : state.sources[number]? = some source)
    (grown : Grown state.space source space changed) : Inv (state.setSource number (space,changed)) := by
  refine ⟨fun other member => ?_⟩
  rcases List.mem_or_eq_of_mem_set member with old | rfl
  · exact (inv.laid other old).extend grown.extends_
  · exact grown.laid (inv.laid source (List.mem_of_getElem? here))

theorem set_sound (inv : Inv state) (here : state.sources[number]? = some source)
    (grown : Grown state.space source space changed) : Sound (state.setSource number (space,changed)) ↔ Sound state := by
  have laid := inv.laid source (List.mem_of_getElem? here)
  obtain ⟨inside,found⟩ := List.getElem?_eq_some_iff.mp here
  constructor
  · intro sound
    refine ⟨fun other old => ?_,sound.faults⟩
    obtain ⟨place,bound,rfl⟩ := List.mem_iff_getElem.mp old
    by_cases same : number = place
    · subst same
      rw [found]
      exact (grown.atHome_iff laid).mp (sound.home changed (List.mem_set inside changed))
    · refine ((inv.laid _ old).atHome_iff grown.extends_).mp (sound.home _ (List.mem_of_getElem? (i := place) ?_))
      rw [State.setSource,List.getElem?_set_ne same]
      exact List.getElem?_eq_getElem bound
  · intro sound
    refine ⟨fun other member => ?_,sound.faults⟩
    rcases List.mem_or_eq_of_mem_set member with old | rfl
    · exact ((inv.laid other old).atHome_iff grown.extends_).mpr (sound.home other old)
    · exact (grown.atHome_iff laid).mpr (sound.home source (List.mem_of_getElem? here))

end Changes

theorem place_iff {page : Nat} {here bound : Int} {since node : Int} (placed : state.space.node page = some bound)
    (same : 0 ≤ since → bound = since) {put : Int} (place : state.space.place page here = some put) :
    (node < 0 ∨ put = node) ↔ node < 0 ∨ since = node ∨ since < 0 ∧ state.space.place page here = some node := by
  rw [place]
  rcases Int.lt_or_le since 0 with free | toward
  · constructor
    · exact Or.imp_right fun equal => .inr ⟨free,congrArg some equal⟩
    · rintro (none_ | equal | equal)
      · exact .inl none_
      · exact .inl (equal ▸ free)
      · exact .inr (Option.some.inj equal.2)
  · rw [Space.place_of_bound placed (same toward ▸ toward)] at place
    have equal : put = since := (Option.some.inj place).symm.trans (same toward)
    rw [equal]
    refine or_congr_right ⟨.inl,fun right => right.elim id fun free => absurd free.1 (Int.not_lt.mpr toward)⟩

theorem touch_sound {page : Nat} {here : Int} (inv : Inv state) (touched : touch state page here = some next) :
    Inv next ∧ (Sound next ↔ Sound state ∧ Settled state (.touch page here)) := by
  simp only [touch] at touched
  split at touched
  next resident =>
    obtain rfl := Option.some.inj touched
    refine ⟨inv,(and_iff_left fun absent => ?_).symm⟩
    rw [absent] at resident
    cases resident
  next absent =>
    obtain ⟨put,place,rfl⟩ := Option.map_eq_some_iff.mp touched
    refine ⟨⟨fun source member => ?_⟩,?_⟩
    · exact (inv.laid source member).extend fun _ _ here => here
    · have free : state.space.resident page = none := Option.not_isSome_iff_eq_none.mp absent
      have local_ (source : MemSourceImpl) (member : source ∈ state.sources) (since : Int)
          (under : since ∈ source.mappedUnder page) : (source.node < 0 ∨ put = source.node) ↔
            source.node < 0 ∨ since = source.node ∨ since < 0 ∧ state.space.place page here = some source.node := by
        obtain ⟨bound,placed,same⟩ := (inv.laid source member).data page since under
        exact place_iff placed same place
      constructor
      · intro sound
        refine ⟨⟨sound.home,fun fault old => sound.faults fault (List.mem_append_right _ old)⟩,fun _ source member since under => ?_⟩
        refine (local_ source member since under).mp (sound.faults ⟨page,put,source.node⟩ (List.mem_append_left _ ?_))
        refine List.mem_map_of_mem (List.mem_filter.mpr ⟨member,decide_eq_true ?_⟩)
        exact List.ne_nil_of_mem under
      · intro sound
        refine ⟨sound.1.home,fun fault member => ?_⟩
        rcases List.mem_append.mp member with new | old
        · obtain ⟨source,inside,rfl⟩ := List.mem_map.mp new
          obtain ⟨inside,some_⟩ := List.mem_filter.mp inside
          obtain ⟨since,under⟩ := List.exists_mem_of_ne_nil _ (of_decide_eq_true some_)
          exact (local_ source inside since under).mpr (sound.2 free source inside since under)
        · exact sound.1.faults fault old

theorem step_sound {mmapThreshold : Nat} {action : Action} (inv : Inv state)
    (stepped : step mmapThreshold state action = some next) : Inv next ∧ (Sound next ↔ Sound state ∧ Settled state action) := by
  cases action with
  | create physNode sz home system => exact ⟨create_keeps inv stepped,create_sound inv stepped⟩
  | touch page here => exact touch_sound inv stepped
  | alloc number bytes system =>
    simp only [step] at stepped
    split at stepped
    next => cases stepped
    next source here =>
      obtain ⟨⟨space,changed⟩,made,rfl⟩ := Option.map_eq_some_iff.mp stepped
      have grown := alloc_grown made
      exact ⟨set_keeps inv here grown,(set_sound inv here grown).trans (and_iff_left trivial).symm⟩
  | migrate number dst system =>
    simp only [step] at stepped
    split at stepped
    next => cases stepped
    next source here =>
      obtain rfl := Option.some.inj stepped
      have grown := migrate_grown system state.space source dst
      exact ⟨set_keeps inv here grown,(set_sound inv here grown).trans (and_iff_left trivial).symm⟩

/-- The sources' memory lies where it should in exactly the runs whose every step is settled. -/
theorem sound_iff_settled (mmapThreshold : Nat) (actions : List Action) (final : State)
    (ran : run (step mmapThreshold) State.start actions = some final) :
    Sound final ↔ Meets (step mmapThreshold) Settled State.start actions := by
  have begin_ : Inv State.start := ⟨fun _ none_ => by cases none_⟩
  have sound : Sound State.start := ⟨(fun _ none_ => by cases none_),fun _ none_ => by cases none_⟩
  rw [good_iff_meets (fun _ _ _ inv stepped => (step_sound inv stepped).1) (fun _ _ _ inv stepped => (step_sound inv stepped).2)
    begin_ ran]
  exact and_iff_right sound

end Steps

section Samples

instance (state : State) (action : Action) : Decidable (Settled state action) :=
  match action with
  | .create physNode _ home _ => inferInstanceAs (Decidable (home < 0 ∨ physNode = home))
  | .touch page here => inferInstanceAs (Decidable (state.space.resident page = none → ∀ source ∈ state.sources,
      ∀ since ∈ source.mappedUnder page,
        source.node < 0 ∨ since = source.node ∨ since < 0 ∧ state.space.place page here = some source.node))
  | .alloc _ _ _ => .isTrue trivial
  | .migrate _ _ _ => .isTrue trivial

def system (mem : Nat) : System :=
  ⟨fun call => mem + call * 2 ^ 32,0,false,fun _ => (mem + memPageSize,memPageSize),fun _ => true⟩

def movingActions : List Action :=
  [.create 0 (1 <<< 20) (-1) (system 65536),.touch 16 5,.alloc 0 33554432 (system (1 <<< 26)),.touch 16385 5,
    .migrate 0 1 (system 65536),.touch 16 5,.alloc 0 33554432 (system (1 <<< 27)),.touch 32768 5]

theorem sound_moving : ∃ final, run (step builtThreshold) State.start movingActions = some final ∧
    final.faults = [⟨32768,1,1⟩,⟨16385,0,0⟩,⟨16,0,0⟩] ∧ Sound final := by
  have evaluated : (run (step builtThreshold) State.start movingActions).any (fun final =>
      decide (final.faults = [⟨32768,1,1⟩,⟨16385,0,0⟩,⟨16,0,0⟩])) = true := by decide +kernel
  obtain ⟨final,ran,test⟩ := (Option.any_eq_true _ _).mp evaluated
  refine ⟨final,ran,of_decide_eq_true test,(sound_iff_settled builtThreshold movingActions final ran).mpr ?_⟩
  exact meets_of_checks (fun state action => decide (Settled state action)) (fun _ _ => of_decide_eq_true) (by decide +kernel)

def awayActions : List Action := [.create 0 (1 <<< 20) 1 (system 65536)]

def lateActions : List Action :=
  [.create 0 (1 <<< 20) (-1) (system 65536),.alloc 0 33554432 (system (1 <<< 26)),.touch 16384 5,.migrate 0 1 (system 65536),
    .touch 16385 5]

theorem not_sound : (∃ final, run (step builtThreshold) State.start awayActions = some final ∧ ¬Sound final) ∧
    ∃ final, run (step builtThreshold) State.start lateActions = some final ∧ ¬Sound final := by
  have away : (run (step builtThreshold) State.start awayActions).any (fun final =>
      decide (final.space.node 16 = some 0 ∧ final.sources.map (fun source => (source.address,source.nodeHome)) = [(65536,1)])) =
        true := by decide +kernel
  have late : (run (step builtThreshold) State.start lateActions).any (fun final => decide (⟨16385,0,1⟩ ∈ final.faults)) = true := by
    decide +kernel
  constructor
  · obtain ⟨final,ran,test⟩ := (Option.any_eq_true _ _).mp away
    obtain ⟨bound,sources⟩ := of_decide_eq_true test
    refine ⟨final,ran,fun sound => ?_⟩
    have listed : (65536,(1 : Int)) ∈ final.sources.map (fun source => (source.address,source.nodeHome)) := by
      rw [sources]
      exact List.mem_singleton_self _
    obtain ⟨source,member,same⟩ := List.mem_map.mp listed
    obtain ⟨address,home⟩ := Prod.mk.inj same
    have header := (sound.home source member (by rw [home]; decide)).1
    rw [address,home] at header
    cases bound.symm.trans (header 16 (by decide))
  · obtain ⟨final,ran,test⟩ := (Option.any_eq_true _ _).mp late
    refine ⟨final,ran,fun sound => ?_⟩
    rcases sound.faults _ (of_decide_eq_true test) with away | same
    · cases away
    · cases same

end Samples
end Pgasus.Placement
