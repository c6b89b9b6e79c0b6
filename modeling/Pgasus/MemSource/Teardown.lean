import Pgasus.Library.DoublyLinked
import Pgasus.Library.Regions
import Pgasus.Library.Strides
import Pgasus.MemSource.Placement

/-! What `free` and `destroy` give back to the system. The links and sizes that they go by
are in the memory that they unmap. -/
namespace Pgasus.MemSource.Teardown
open Words Runs Regions DoublyLinked

/-- The threshold, and the headers, whose size depends on the type of the locks. -/
structure Build where
  mmapThreshold : Nat
  sizeofMemSourceImpl : Nat
  sizeofArena : Nat
  header : 0 < sizeofMemSourceImpl ∧ sizeofMemSourceImpl + 63 < memPageSize
  arenaHeader : 0 < sizeofArena ∧ sizeofArena + 63 < memPageSize

structure MemSourceImpl where
  node : Int
  nodeHome : Int
  memSize : Nat
  nativeArena : Nat
  activeArena : Nat
  mmappedChunkHead : Nat

structure Arena where
  size : Nat
  native : Bool
  base : Nat
  prev : Nat
  next : Nat

structure MmapChunk where
  size : Nat
  prev : Nat
  next : Nat

inductive Object
  | source (source : MemSourceImpl)
  | arena (arena : Arena)
  | chunk (chunk : MmapChunk)

def Object.size (build : Build) : Object → Nat
  | source _ => build.sizeofMemSourceImpl
  | arena _ => build.sizeofArena
  | chunk _ => MmapChunkFooter.dataOffset

structure Memory where
  space : Space Nat
  objects : Nat → Option Object

def touched (address len : Nat) : List Nat :=
  List.range' (address / memPageSize) ((address + len - 1) / memPageSize + 1 - address / memPageSize)

namespace Memory

/-- `callMmap`: the system gives whole pages that nobody has, and they are zero. -/
def callMmap (memory : Memory) (mem sz : Nat) : Option Memory :=
  if 0 < mem ∧ mem % memPageSize = 0 ∧ 0 < sz ∧ mem + pages sz ≤ 2 ^ 63 ∧ memory.space.vacant (touched mem sz) then
    some ⟨memory.space.map (touched mem sz),fun address =>
      if address / memPageSize ∈ touched mem sz then none else memory.objects address⟩
  else none

/-- `EINVAL` when the address is not that of a page, or there are no bytes. -/
def munmap (memory : Memory) (address len : Nat) : Memory :=
  if address % memPageSize = 0 ∧ 0 < len then {memory with space := memory.space.unmap (touched address len)} else memory

def Has (memory : Memory) (address len : Nat) : Prop := ∀ page ∈ touched address len, page ∈ memory.space.mapped

instance (memory : Memory) (address len : Nat) : Decidable (memory.Has address len) := inferInstanceAs (Decidable (∀ _ ∈ _, _))

/-- Faults where the pages are not mapped. -/
def read (build : Build) (memory : Memory) (address : Nat) : Option Object :=
  (memory.objects address).bind fun object => if memory.Has address (object.size build) then some object else none

def write (build : Build) (memory : Memory) (address : Nat) (object : Object) : Option Memory :=
  if memory.Has address (object.size build) then some {memory with objects := Function.update memory.objects address (some object)}
  else none

def source (build : Build) (memory : Memory) (address : Nat) : Option MemSourceImpl :=
  (memory.read build address).bind fun | .source source => some source | _ => none

def arena (build : Build) (memory : Memory) (address : Nat) : Option Arena :=
  (memory.read build address).bind fun | .arena arena => some arena | _ => none

def chunk (build : Build) (memory : Memory) (address : Nat) : Option MmapChunk :=
  (memory.read build address).bind fun | .chunk chunk => some chunk | _ => none

end Memory

/-- `Arena::Arena`, with the answer of `callMmap` for the data. -/
def Arena.make (build : Build) (memory : Memory) (address sz : Nat) (dstNode : Int) (base : Nat) : Option Memory :=
  -- the links and the lock are set first
  (memory.write build address (.arena ⟨0,false,0,0,0⟩)).bind fun memory =>
    if dstNode < 0 then
      let base := alignUp (address + build.sizeofArena) 64
      memory.write build address (.arena ⟨wrap (address + sz + (2 ^ 64 - base)),true,base,0,0⟩)
    else (memory.callMmap base sz).bind fun memory => memory.write build address (.arena ⟨sz,false,base,0,0⟩)

/-- `MemSourceImpl::create` and the constructor. -/
def create (build : Build) (memory : Memory) (node home : Int) (sz mem base : Nat) : Option Memory := do
  let memory ← memory.callMmap mem sz
  let memory ← memory.write build mem (.source ⟨node,home,sz,0,0,0⟩)
  let arenaStart := alignUp (mem + build.sizeofMemSourceImpl) 64
  let arenaSize := wrap (mem + sz + (2 ^ 64 - arenaStart))
  let memory ← Arena.make build memory arenaStart arenaSize (Placement.dataNode node home) base
  memory.write build mem (.source ⟨node,home,sz,arenaStart,arenaStart,0⟩)

def createNewArena (build : Build) (memory : Memory) (self mem base : Nat) : Option Memory := do
  let source ← memory.source build self
  let memory ← memory.callMmap mem newArenaSize
  let memory ← Arena.make build memory mem newArenaSize (Placement.dataNode source.node source.nodeHome) base
  let arena ← memory.arena build mem
  let memory ← memory.write build mem (.arena {arena with next := source.activeArena})
  let active ← memory.arena build source.activeArena
  let memory ← memory.write build source.activeArena (.arena {active with prev := mem})
  memory.write build self (.source {source with activeArena := mem})

def setPrev (build : Build) (memory : Memory) (address prev : Nat) : Option Memory :=
  if address = 0 then some memory
  else (memory.chunk build address).bind fun chunk => memory.write build address (.chunk {chunk with prev := prev})

def setNext (build : Build) (memory : Memory) (self : Nat) (source : MemSourceImpl) (prev next : Nat) : Option Memory :=
  if prev = 0 then memory.write build self (.source {source with mmappedChunkHead := next})
  else (memory.chunk build prev).bind fun chunk => memory.write build prev (.chunk {chunk with next := next})

/-- The part of `MemSourceImpl::alloc` from the threshold on. -/
def allocMapped (build : Build) (memory : Memory) (self bytes mem : Nat) : Option Memory := do
  let sz := mmapSize bytes
  let memory ← memory.callMmap mem sz
  let source ← memory.source build self
  let memory ← memory.write build mem (.chunk ⟨sz,0,source.mmappedChunkHead⟩)
  let memory ← setPrev build memory source.mmappedChunkHead mem
  memory.write build self (.source {source with mmappedChunkHead := mem})

inductive Block
  | arena (address : Nat)
  | mapped (chunk : Nat)
deriving DecidableEq

structure State where
  memory : Memory
  source : Option Nat
  live : List Block

/-- The answers to one allocation: what `callMmap` gives (0 when it fails), and whether
`mspace_malloc` has room, in the active arena and then in a new one. -/
structure System where
  mem : Nat
  base : Nat
  room : Bool
  roomThen : Bool

def alloc (build : Build) (memory : Memory) (self bytes : Nat) (system : System) : Option (Memory × Option Block) :=
  if build.mmapThreshold ≤ bytes then
    if system.mem = 0 then some (memory,none)
    else (allocMapped build memory self bytes system.mem).map fun memory => (memory,some (.mapped system.mem))
  else do
    let source ← memory.source build self
    if system.room then some (memory,some (.arena source.activeArena))
    else if system.mem = 0 then some (memory,none)
    else do
      let memory ← createNewArena build memory self system.mem system.base
      some (memory,if system.roomThen then some (.arena system.mem) else none)

/-- `free_impl` of a pointer that `alloc` gave. -/
def free (build : Build) (memory : Memory) (self : Nat) : Block → Option Memory
  | .arena address => (memory.arena build address).map fun _ => memory
  | .mapped address => do
    let mch ← memory.chunk build address
    let source ← memory.source build self
    let memory ← setNext build memory self source mch.prev mch.next
    let memory ← setPrev build memory mch.next mch.prev
    some (memory.munmap address mch.size)

/-- The arenas from `curr` on: `~Arena`, then the memory that the arena itself is in. -/
def destroyArenas (build : Build) (self : Nat) : Nat → Nat → Memory → Option Memory
  | 0, _, _ => none
  | fuel + 1, curr, memory =>
    if curr = 0 then some memory
    else do
      let arena ← memory.arena build curr
      let memory := if arena.native then memory else memory.munmap arena.base arena.size
      let source ← memory.source build self
      let memory := if curr = source.nativeArena then memory else memory.munmap curr arena.size
      destroyArenas build self fuel arena.next memory

def destroyChunks (build : Build) : Nat → Nat → Memory → Option Memory
  | 0, _, _ => none
  | fuel + 1, curr, memory =>
    if curr = 0 then some memory
    else do
      let mch ← memory.chunk build curr
      destroyChunks build fuel mch.next (memory.munmap curr mch.size)

/-- `MemSourceImpl::destroy` with `~MemSourceImpl`. -/
def destroy (build : Build) (memory : Memory) (self : Nat) : Option Memory := do
  let source ← memory.source build self
  let sz := source.memSize
  let memory ← destroyArenas build self Strides.loopFuel source.activeArena memory
  let source ← memory.source build self
  let memory ← destroyChunks build Strides.loopFuel source.mmappedChunkHead memory
  some (memory.munmap self sz)

inductive Action
  | create (node home : Int) (sz mem base : Nat)
  | alloc (bytes : Nat) (system : System)
  | free (block : Block)
  | destroy

def State.start : State := ⟨⟨Space.empty,fun _ => none⟩,none,[]⟩

/-- Only live blocks are freed. -/
def step (build : Build) : State → Action → Option State
  | ⟨memory,none,_⟩, .create node home sz mem base => (create build memory node home sz mem base).map (⟨·,some mem,[]⟩)
  | ⟨memory,some self,live⟩, .alloc bytes system =>
    (alloc build memory self bytes system).map fun (memory,block) => ⟨memory,some self,block.toList ++ live⟩
  | ⟨memory,some self,live⟩, .free block =>
    if block ∈ live then (free build memory self block).map (⟨·,some self,live.erase block⟩) else none
  | ⟨memory,some self,_⟩, .destroy => (destroy build memory self).map (⟨·,none,[]⟩)
  | _, _ => none

/-! Links of the objects that have some, and the regions that an object stands for. -/
def Object.Linked : Object → Prop
  | .source _ => False
  | _ => True

def Object.next : Object → Nat
  | .source _ => 0
  | .arena header => header.next
  | .chunk header => header.next

def Object.prev : Object → Nat
  | .source _ => 0
  | .arena header => header.prev
  | .chunk header => header.prev

def Object.setNext (next : Nat) : Object → Object
  | .source header => .source header
  | .arena header => .arena {header with next := next}
  | .chunk header => .chunk {header with next := next}

def Object.setPrev (prev : Nat) : Object → Object
  | .source header => .source header
  | .arena header => .arena {header with prev := prev}
  | .chunk header => .chunk {header with prev := prev}

/-- The native arena is in the mapping of the source. -/
def Object.regions (nativeArena address : Nat) : Object → List (List Nat)
  | .source header => [touched address header.memSize]
  | .arena header => (if header.native then [] else [touched header.base header.size]) ++
      if address = nativeArena then [] else [touched address newArenaSize]
  | .chunk header => [touched address header.size]

def Object.relink (prev next address : Nat) (object : Object) : Object :=
  let object := if prev = address then object.setNext next else object
  if next = address then object.setPrev prev else object

def nextOf (objects : Nat → Option Object) (address : Nat) : Nat := (objects address).elim 0 Object.next
def prevOf (objects : Nat → Option Object) (address : Nat) : Nat := (objects address).elim 0 Object.prev

def regionsAt (objects : Nat → Option Object) (nativeArena address : Nat) : List (List Nat) :=
  (objects address).elim [] (Object.regions nativeArena address)

/-- An arena of its own records less than its mapping, but no page less. -/
def IsArena (nativeArena address : Nat) : Object → Prop
  | .arena arena => (arena.native = false → arena.base % memPageSize = 0 ∧ 0 < arena.size) ∧
      (address ≠ nativeArena → address % memPageSize = 0 ∧ 0 < arena.size ∧ touched address arena.size = touched address newArenaSize)
  | _ => False

def IsChunk (address : Nat) : Object → Prop
  | .chunk chunk => address % memPageSize = 0 ∧ 0 < chunk.size
  | _ => False

structure Listed (objects : Nat → Option Object) (kind : Nat → Object → Prop) (head : Nat) (list : List Nat) : Prop where
  chain : Chain (nextOf objects) (prevOf objects) 0 head list
  members : ∀ address ∈ list, ∃ object, objects address = some object ∧ kind address object
  distinct : list.Nodup
  low : ∀ address ∈ list, address < 2 ^ 63

/-- What is in memory of a source with these arenas and chunks; the regions of `extra` are
mapped too, but not yet or no longer in a list. -/
structure Known (build : Build) (memory : Memory) (place : Nat) (source : MemSourceImpl) (arenas chunks : List Nat)
    (extra : List (List Nat)) : Prop where
  here : memory.objects place = some (.source source)
  page : place % memPageSize = 0
  sized : 0 < source.memSize
  header : source.nativeArena ∈ arenas → ∀ page ∈ touched source.nativeArena build.sizeofArena, page ∈ touched place source.memSize
  arenaKinds : ∀ address ∈ arenas, ∃ object, memory.objects address = some object ∧ IsArena source.nativeArena address object
  chunkKinds : ∀ address ∈ chunks, ∃ object, memory.objects address = some object ∧ IsChunk address object
  owns : memory.space.Owns (extra ++ (arenas ++ chunks ++ [place]).flatMap (regionsAt memory.objects source.nativeArena))

structure Layout (build : Build) (memory : Memory) (place : Nat) (source : MemSourceImpl) (arenas chunks : List Nat)
    (extra : List (List Nat)) : Prop extends Known build memory place source arenas chunks extra where
  arenaList : Listed memory.objects (IsArena source.nativeArena) source.activeArena arenas
  chunkList : Listed memory.objects IsChunk source.mmappedChunkHead chunks

def Accounted (build : Build) (state : State) : Prop :=
  match state.source with
  | none => state.memory.space.Owns []
  | some self => ∃ source arenas chunks, Layout build state.memory self source arenas chunks [] ∧ source.nativeArena ∈ arenas ∧
      (∀ address, .arena address ∈ state.live → address ∈ arenas) ∧ ∀ address, state.live.count (.mapped address) = chunks.count address

section Pages
variable {address len page : Nat}

theorem mem_touched (positive : 0 < len) : page ∈ touched address len ↔ address / 4096 ≤ page ∧ page * 4096 < address + len := by
  simp only [touched,memPageSize,List.mem_range'_1]
  omega

theorem touched_header {whole : Nat} (aligned : address % memPageSize = 0) (positive : 0 < len) (short : len ≤ memPageSize)
    (some_ : 0 < whole) (member : page ∈ touched address len) : page ∈ touched address whole := by
  simp only [memPageSize] at aligned short
  rw [mem_touched positive] at member
  rw [mem_touched some_]
  omega

theorem mem_touched_self (positive : 0 < len) : address / memPageSize ∈ touched address len := by
  rw [mem_touched positive]
  simp only [memPageSize]
  omega

/-- The kernel unmaps the last page too when the length ends in it. -/
theorem touched_short {whole : Nat} (aligned : address % memPageSize = 0) (less : len ≤ whole) (near : whole < len + memPageSize)
    (pages : whole % memPageSize = 0) (positive : 0 < len) : touched address len = touched address whole := by
  simp only [memPageSize] at aligned near pages
  have same : (address + len - 1) / memPageSize = (address + whole - 1) / memPageSize := by
    simp only [memPageSize]
    omega
  rw [touched,touched,same]

end Pages

section Lists
variable {objects objects' : Nat → Option Object} {kind : Nat → Object → Prop} {head node : Nat} {list : List Nat} {object : Object}

theorem Listed.congr (listed : Listed objects kind head list) (same : ∀ address ∈ list, objects' address = objects address) :
    Listed objects' kind head list := by
  refine ⟨listed.chain.congr ?_ ?_,?_,listed.distinct,listed.low⟩
  · intro address member
    rw [nextOf,nextOf,same address member]
  · intro address member
    rw [prevOf,prevOf,same address member]
  · intro address member
    rw [same address member]
    exact listed.members address member

theorem Listed.push (listed : Listed objects kind head list) (keeps : ∀ address object prev, kind address object → kind address (object.setPrev prev))
    (linked : ∀ address object, kind address object → object.Linked) (nonnull : node ≠ 0) (fresh : node ∉ list) (low : node < 2 ^ 63)
    (new : objects' node = some object) (kind_ : kind node object) (first : object.prev = 0) (next : object.next = head)
    (back : head ≠ 0 → objects' head = (objects head).map (Object.setPrev node))
    (others : ∀ address ∈ list, address ≠ head → objects' address = objects address) : Listed objects' kind node (node::list) := by
  have each (address : Nat) (member : address ∈ list) : ∃ object, objects address = some object ∧ kind address object ∧
      objects' address = some (if address = head then object.setPrev node else object) := by
    obtain ⟨object,found,is_⟩ := listed.members address member
    refine ⟨object,found,is_,?_⟩
    split
    next same =>
      have present : head ≠ 0 := fun none => listed.chain.nonnull (none ▸ same ▸ member)
      rw [same,back present,← same,found]
      rfl
    next different => rw [others address member different,found]
  refine ⟨?_,?_,List.nodup_cons.mpr ⟨fresh,listed.distinct⟩,List.forall_mem_cons.mpr ⟨low,listed.low⟩⟩
  · apply listed.chain.push nonnull listed.distinct
    · rw [nextOf,new]
      exact next
    · rw [prevOf,new]
      exact first
    · intro present
      have member : head ∈ list := listed.chain.head_mem.resolve_left present
      obtain ⟨object,_,is_,after⟩ := each head member
      rw [prevOf,after,if_pos rfl]
      have linked := linked head object is_
      cases object with
      | source source => cases linked
      | arena arena => rfl
      | chunk chunk => rfl
    · intro address member
      obtain ⟨object,found,_,after⟩ := each address member
      rw [nextOf,nextOf,found,after]
      cases object <;> split <;> rfl
    · intro address member different
      rw [prevOf,prevOf,others address member different]
  · refine List.forall_mem_cons.mpr ⟨⟨object,new,kind_⟩,fun address member => ?_⟩
    obtain ⟨object,_,is_,after⟩ := each address member
    refine ⟨_,after,?_⟩
    split
    · exact keeps address object node is_
    · exact is_

theorem Listed.remove (listed : Listed objects kind head list)
    (keeps : ∀ address object prev next, kind address object → kind address (object.relink prev next address))
    (linked : ∀ address object, kind address object → object.Linked) (member : node ∈ list)
    (others : ∀ address ∈ list, address ≠ node →
      objects' address = (objects address).map (Object.relink (prevOf objects node) (nextOf objects node) address)) :
    Listed objects' kind (if prevOf objects node = 0 then nextOf objects node else head) (list.erase node) := by
  have each (address : Nat) (inside : address ∈ list) (different : address ≠ node) : ∃ object, objects address = some object ∧
      kind address object ∧ objects' address = some (object.relink (prevOf objects node) (nextOf objects node) address) := by
    obtain ⟨object,found,is_⟩ := listed.members address inside
    exact ⟨object,found,is_,by rw [others address inside different,found,Option.map_some]⟩
  refine ⟨listed.chain.remove listed.distinct listed.chain.nonnull member ?_ ?_,?_,listed.distinct.erase node,?_⟩
  · intro address inside different
    obtain ⟨object,found,is_,after⟩ := each address inside different
    have linked := linked address object is_
    have here : nextOf objects address = object.next := by rw [nextOf,found,Option.elim_some]
    rw [here,nextOf,after,Option.elim_some]
    cases object with
    | source source => cases linked
    | arena arena =>
      simp only [Object.relink]
      split <;> split <;> rfl
    | chunk chunk =>
      simp only [Object.relink]
      split <;> split <;> rfl
  · intro address inside different
    obtain ⟨object,found,is_,after⟩ := each address inside different
    have linked := linked address object is_
    have here : prevOf objects address = object.prev := by rw [prevOf,found,Option.elim_some]
    rw [here,prevOf,after,Option.elim_some]
    cases object with
    | source source => cases linked
    | arena arena =>
      simp only [Object.relink]
      split <;> split <;> rfl
    | chunk chunk =>
      simp only [Object.relink]
      split <;> split <;> rfl
  · intro address inside
    obtain ⟨different,inside⟩ := listed.distinct.mem_erase_iff.mp inside
    obtain ⟨object,_,is_,after⟩ := each address inside different
    exact ⟨_,after,keeps address object _ _ is_⟩
  · exact fun address inside => listed.low address (List.mem_of_mem_erase inside)

end Lists

section Layouts
variable {build : Build} {memory next : Memory} {self mem sz address : Nat} {source : MemSourceImpl} {arenas chunks : List Nat}
  {extra : List (List Nat)} {object : Object}

theorem Object.size_pos (build : Build) (object : Object) : 0 < object.size build := by
  cases object with
  | source => exact build.header.1
  | arena => exact build.arenaHeader.1
  | chunk => exact (by decide : 0 < MmapChunkFooter.dataOffset)

theorem Known.owned (known : Known build memory self source arenas chunks extra) (member : address ∈ arenas ++ chunks ++ [self])
    (found : memory.objects address = some object) {region : List Nat} (part : region ∈ object.regions source.nativeArena address)
    {page : Nat} (inside : page ∈ region) : page ∈ memory.space.mapped := by
  refine known.owns.mem (List.mem_append_right extra (List.mem_flatMap.mpr ⟨address,member,?_⟩)) inside
  rw [regionsAt,found]
  exact part

theorem Known.has (known : Known build memory self source arenas chunks extra) (member : address ∈ arenas ++ chunks ++ [self])
    (found : memory.objects address = some object) : memory.Has address (object.size build) := by
  intro page touches
  have own (page : Nat) (inside : page ∈ touched self source.memSize) : page ∈ memory.space.mapped :=
    known.owned (List.mem_append_right _ List.mem_cons_self) known.here List.mem_cons_self inside
  rcases List.mem_append.mp member with listed | itself
  · rcases List.mem_append.mp listed with inside | chunk
    · obtain ⟨other,same,is_⟩ := known.arenaKinds address inside
      obtain rfl := Option.some.inj (found.symm.trans same)
      cases object with
      | arena arena =>
        by_cases native : address = source.nativeArena
        · rw [native] at inside touches
          exact own page (known.header inside page touches)
        · obtain ⟨aligned,_,_⟩ := is_.2 native
          have short : build.sizeofArena ≤ memPageSize := by
            have := build.arenaHeader.2
            omega
          refine known.owned member found ?_ (touched_header aligned build.arenaHeader.1 short (by decide : 0 < newArenaSize) touches)
          simp [Object.regions,native]
      | source => cases is_
      | chunk => cases is_
    · obtain ⟨other,same,is_⟩ := known.chunkKinds address chunk
      obtain rfl := Option.some.inj (found.symm.trans same)
      cases object with
      | chunk chunk => exact known.owned member found List.mem_cons_self (touched_header is_.1
        (show 0 < MmapChunkFooter.dataOffset by decide) (show MmapChunkFooter.dataOffset ≤ memPageSize by decide) is_.2 touches)
      | source => cases is_
      | arena => cases is_
  · obtain rfl := List.mem_singleton.mp itself
    obtain rfl := Option.some.inj (found.symm.trans known.here)
    have short : build.sizeofMemSourceImpl ≤ memPageSize := by
      have := build.header.2
      omega
    exact own page (touched_header known.page build.header.1 short known.sized touches)

theorem Known.found (known : Known build memory self source arenas chunks extra) (member : address ∈ arenas ++ chunks ++ [self]) :
    ∃ object, memory.objects address = some object := by
  rcases List.mem_append.mp member with listed | itself
  · rcases List.mem_append.mp listed with arena | chunk
    · exact (known.arenaKinds address arena).imp fun _ => And.left
    · exact (known.chunkKinds address chunk).imp fun _ => And.left
  · exact ⟨_,List.mem_singleton.mp itself ▸ known.here⟩

theorem Known.mapped (known : Known build memory self source arenas chunks extra) (member : address ∈ arenas ++ chunks ++ [self]) :
    address / memPageSize ∈ memory.space.mapped := by
  obtain ⟨object,found⟩ := known.found member
  exact known.has member found _ (mem_touched_self (object.size_pos build))

theorem Known.read (known : Known build memory self source arenas chunks extra) (member : address ∈ arenas ++ chunks ++ [self]) :
    memory.read build address = memory.objects address := by
  obtain ⟨object,found⟩ := known.found member
  rw [Memory.read,found,Option.bind_some,if_pos (known.has member found)]

theorem Known.source_eq (known : Known build memory self source arenas chunks extra) : memory.source build self = some source := by
  rw [Memory.source,known.read (List.mem_append_right _ List.mem_cons_self),known.here]
  rfl

theorem Known.arena_eq (known : Known build memory self source arenas chunks extra) (member : address ∈ arenas) :
    ∃ arena, memory.objects address = some (.arena arena) ∧ IsArena source.nativeArena address (.arena arena) ∧
      memory.arena build address = some arena := by
  obtain ⟨object,found,is_⟩ := known.arenaKinds address member
  rw [Memory.arena,known.read (by simp [member]),found]
  cases object with
  | arena arena => exact ⟨arena,rfl,is_,rfl⟩
  | source => cases is_
  | chunk => cases is_

theorem Known.chunk_eq (known : Known build memory self source arenas chunks extra) (member : address ∈ chunks) :
    ∃ chunk, memory.objects address = some (.chunk chunk) ∧ IsChunk address (.chunk chunk) ∧ memory.chunk build address = some chunk := by
  obtain ⟨object,found,is_⟩ := known.chunkKinds address member
  rw [Memory.chunk,known.read (by simp [member]),found]
  cases object with
  | chunk chunk => exact ⟨chunk,rfl,is_,rfl⟩
  | source => cases is_
  | arena => cases is_

theorem callMmap_some (mapped : memory.callMmap mem sz = some next) :
    (0 < mem ∧ mem % memPageSize = 0 ∧ 0 < sz ∧ mem + pages sz ≤ 2 ^ 63) ∧ memory.space.vacant (touched mem sz) ∧
      next = ⟨memory.space.map (touched mem sz),fun address =>
        if address / memPageSize ∈ touched mem sz then none else memory.objects address⟩ := by
  rw [Memory.callMmap] at mapped
  split at mapped
  next given =>
    obtain ⟨nonnull,aligned,positive,low,vacant⟩ := given
    exact ⟨⟨nonnull,aligned,positive,low⟩,vacant,(Option.some.inj mapped).symm⟩
  next => cases mapped

theorem write_some (written : memory.write build address object = some next) :
    next = {memory with objects := Function.update memory.objects address (some object)} := by
  rw [Memory.write] at written
  split at written
  · exact (Option.some.inj written).symm
  · cases written

theorem layout_of (here : memory.objects self = some (.source source)) (page : self % memPageSize = 0) (sized : 0 < source.memSize)
    (header : source.nativeArena ∈ arenas → ∀ page ∈ touched source.nativeArena build.sizeofArena, page ∈ touched self source.memSize)
    (arenaList : Listed memory.objects (IsArena source.nativeArena) source.activeArena arenas)
    (chunkList : Listed memory.objects IsChunk source.mmappedChunkHead chunks)
    (owns : memory.space.Owns (extra ++ (arenas ++ chunks ++ [self]).flatMap (regionsAt memory.objects source.nativeArena))) :
    Layout build memory self source arenas chunks extra :=
  ⟨⟨here,page,sized,header,arenaList.members,chunkList.members,owns⟩,arenaList,chunkList⟩

theorem Layout.congr (layout : Layout build memory self source arenas chunks extra)
    (same : ∀ address ∈ arenas ++ chunks ++ [self], next.objects address = memory.objects address) {extra' : List (List Nat)}
    (owns : next.space.Owns (extra' ++ (arenas ++ chunks ++ [self]).flatMap (regionsAt memory.objects source.nativeArena))) :
    Layout build next self source arenas chunks extra' := by
  refine layout_of ?_ layout.page layout.sized layout.header (layout.arenaList.congr ?_) (layout.chunkList.congr ?_) ?_
  · rw [same self (by simp)]
    exact layout.here
  · exact fun address member => same address (by simp [member])
  · exact fun address member => same address (by simp [member])
  · rwa [List.flatMap_congr fun address member => show regionsAt next.objects source.nativeArena address =
      regionsAt memory.objects source.nativeArena address by rw [regionsAt,regionsAt,same address member]]

theorem Layout.active_mem (layout : Layout build memory self source arenas chunks extra) (native : source.nativeArena ∈ arenas) :
    source.activeArena ∈ arenas := by
  have chain := layout.arenaList.chain
  cases arenas with
  | nil => cases native
  | cons first rest =>
    rw [chain.1]
    exact List.mem_cons_self

theorem Layout.callMmap (layout : Layout build memory self source arenas chunks extra) (mapped : memory.callMmap mem sz = some next) :
    Layout build next self source arenas chunks (touched mem sz::extra) ∧ mem ∉ arenas ++ chunks ++ [self] := by
  obtain ⟨⟨_,_,positive,_⟩,vacant,rfl⟩ := callMmap_some mapped
  have outside (address : Nat) (member : address ∈ arenas ++ chunks ++ [self]) : address / memPageSize ∉ touched mem sz :=
    fun shared => vacant.2 _ shared (layout.mapped member)
  refine ⟨layout.congr (fun address member => if_neg (outside address member)) (layout.owns.map vacant),fun member => ?_⟩
  exact outside mem member (mem_touched_self positive)

theorem Layout.write (layout : Layout build memory self source arenas chunks extra) (fresh : mem ∉ arenas ++ chunks ++ [self])
    (written : memory.write build mem object = some next) : Layout build next self source arenas chunks extra := by
  obtain rfl := write_some written
  refine layout.congr (fun address member => ?_) layout.owns
  exact Function.update_of_ne (by rintro rfl; exact fresh member) _ _

theorem regionsAt_same {objects objects' : Nat → Option Object} {nativeArena : Nat} (change : Object → Object)
    (same : objects' address = (objects address).map change) (keeps : ∀ object, (change object).regions nativeArena address =
      object.regions nativeArena address) : regionsAt objects' nativeArena address = regionsAt objects nativeArena address := by
  rw [regionsAt,regionsAt,same]
  cases objects address with
  | none => rfl
  | some object => exact keeps object

theorem regions_setPrev (nativeArena address prev : Nat) (object : Object) :
    (object.setPrev prev).regions nativeArena address = object.regions nativeArena address := by
  cases object <;> rfl

theorem regions_relink (nativeArena address prev next place : Nat) (object : Object) :
    (object.relink prev next place).regions nativeArena address = object.regions nativeArena address := by
  cases object <;> simp only [Object.relink] <;> split <;> split <;> rfl

theorem relink_away {prev next : Nat} (away : next ≠ address) :
    Object.relink prev next address = fun object => if prev = address then object.setNext next else object :=
  funext fun _ => if_neg away

theorem relink_self {prev : Nat} : Object.relink prev address address =
    fun object => (if prev = address then object.setNext address else object).setPrev prev :=
  funext fun _ => if_pos rfl

theorem isArena_linked (nativeArena address : Nat) (object : Object) (is_ : IsArena nativeArena address object) : object.Linked := by
  cases object with
  | source => cases is_
  | arena => trivial
  | chunk => trivial

theorem isChunk_linked (address : Nat) (object : Object) (is_ : IsChunk address object) : object.Linked := by
  cases object with
  | source => cases is_
  | arena => trivial
  | chunk => trivial

theorem isArena_setPrev (nativeArena address : Nat) (object : Object) (prev : Nat) (is_ : IsArena nativeArena address object) :
    IsArena nativeArena address (object.setPrev prev) := by
  cases object with
  | source => cases is_
  | arena => exact is_
  | chunk => cases is_

theorem isChunk_relink (address : Nat) (object : Object) (prev next : Nat) (is_ : IsChunk address object) :
    IsChunk address (object.relink prev next address) := by
  cases object with
  | source => cases is_
  | arena => cases is_
  | chunk =>
    simp only [Object.relink]
    split <;> split <;> exact is_

theorem Known.apart (known : Known build memory self source arenas chunks extra) :
    (∀ address ∈ arenas, address ∉ chunks ∧ address ≠ self) ∧ ∀ address ∈ chunks, address ≠ self := by
  constructor
  · intro address member
    obtain ⟨object,found,is_⟩ := known.arenaKinds address member
    constructor
    · intro other
      obtain ⟨chunk,same,kind⟩ := known.chunkKinds address other
      obtain rfl := Option.some.inj (found.symm.trans same)
      cases object with
      | source => cases is_
      | arena => cases kind
      | chunk => cases is_
    · intro same
      obtain rfl := Option.some.inj (found.symm.trans (same ▸ known.here))
      cases is_
  · intro address member same
    obtain ⟨object,found,is_⟩ := known.chunkKinds address member
    obtain rfl := Option.some.inj (found.symm.trans (same ▸ known.here))
    cases is_

theorem Known.listed_ne (known : Known build memory self source arenas chunks extra) (member : address ∈ arenas ++ chunks) :
    address ≠ self := by
  rcases List.mem_append.mp member with arena | chunk
  · exact (known.apart.1 _ arena).2
  · exact known.apart.2 _ chunk

theorem Layout.nonnull (layout : Layout build memory self source arenas chunks extra) : 0 ∉ arenas ++ chunks := by
  simp [layout.arenaList.chain.nonnull,layout.chunkList.chain.nonnull]

theorem Layout.push_owns {objects' : Nat → Option Object} {head : Nat} {list : List Nat} {changed : MemSourceImpl}
    (layout : Layout build memory self source arenas chunks (object.regions source.nativeArena mem ++ extra))
    (new : objects' mem = some object) (itself : objects' self = some (.source changed)) (sized : changed.memSize = source.memSize)
    (back : head ≠ 0 → objects' head = (memory.objects head).map (Object.setPrev mem))
    (others : ∀ address ∈ arenas ++ chunks, address ≠ head → objects' address = memory.objects address)
    (all : list.Perm (mem::(arenas ++ chunks ++ [self]))) :
    memory.space.Owns (extra ++ list.flatMap (regionsAt objects' source.nativeArena)) := by
  have same (address : Nat) (member : address ∈ arenas ++ chunks ++ [self]) :
      regionsAt objects' source.nativeArena address = regionsAt memory.objects source.nativeArena address := by
    rcases List.mem_append.mp member with listed | last
    · by_cases first : address = head
      · subst first
        exact regionsAt_same _ (back fun none => layout.nonnull (none ▸ listed)) (regions_setPrev _ _ mem)
      · rw [regionsAt,regionsAt,others address listed first]
    · rw [List.mem_singleton.mp last,regionsAt,regionsAt,itself,layout.here]
      exact congrArg (fun size => [touched self size]) sized
  have regions : (mem::(arenas ++ chunks ++ [self])).flatMap (regionsAt objects' source.nativeArena) =
      object.regions source.nativeArena mem ++ (arenas ++ chunks ++ [self]).flatMap (regionsAt memory.objects source.nativeArena) := by
    rw [List.flatMap_cons,List.flatMap_congr same,regionsAt,new,Option.elim_some]
  refine layout.owns.perm ?_
  refine List.Perm.trans ?_ ((all.flatMap_right _).symm.append_left extra)
  rw [regions,← List.append_assoc]
  exact List.perm_append_comm.append_right _

theorem Layout.pushArena {arena : Arena} {objects' : Nat → Option Object}
    (layout : Layout build memory self source arenas chunks ((Object.arena arena).regions source.nativeArena mem ++ extra))
    (fresh : mem ∉ arenas ++ chunks ++ [self]) (nonnull : mem ≠ 0) (low : mem < 2 ^ 63) (other : source.nativeArena ≠ mem)
    (is_ : IsArena source.nativeArena mem (.arena arena)) (first : arena.prev = 0) (next : arena.next = source.activeArena)
    (new : objects' mem = some (.arena arena)) (changed : objects' self = some (.source {source with activeArena := mem}))
    (back : source.activeArena ≠ 0 → objects' source.activeArena = (memory.objects source.activeArena).map (Object.setPrev mem))
    (others : ∀ address ∈ arenas ++ chunks, address ≠ source.activeArena → objects' address = memory.objects address) :
    Layout build ⟨memory.space,objects'⟩ self {source with activeArena := mem} (mem::arenas) chunks extra := by
  refine layout_of changed layout.page layout.sized (fun member => ?_) ?_ (layout.chunkList.congr fun address member => ?_) ?_
  · exact layout.header ((List.mem_cons.mp member).resolve_left other)
  · exact layout.arenaList.push (isArena_setPrev _) (isArena_linked _) nonnull (fun member => fresh (by simp [member])) low new is_ first
      next back fun address member => others address (List.mem_append_left _ member)
  · refine others address (List.mem_append_right _ member) ?_
    rintro rfl
    rcases layout.arenaList.chain.head_mem with none | listed
    · exact layout.chunkList.chain.nonnull (none ▸ member)
    · exact (layout.apart.1 _ listed).1 member
  · exact layout.push_owns new changed rfl back others (List.Perm.refl _)

theorem Layout.pushChunk {chunk : MmapChunk} {objects' : Nat → Option Object}
    (layout : Layout build memory self source arenas chunks ((Object.chunk chunk).regions source.nativeArena mem ++ extra))
    (fresh : mem ∉ arenas ++ chunks ++ [self]) (nonnull : mem ≠ 0) (low : mem < 2 ^ 63)
    (is_ : IsChunk mem (.chunk chunk)) (first : chunk.prev = 0) (next : chunk.next = source.mmappedChunkHead)
    (new : objects' mem = some (.chunk chunk)) (changed : objects' self = some (.source {source with mmappedChunkHead := mem}))
    (back : source.mmappedChunkHead ≠ 0 →
      objects' source.mmappedChunkHead = (memory.objects source.mmappedChunkHead).map (Object.setPrev mem))
    (others : ∀ address ∈ arenas ++ chunks, address ≠ source.mmappedChunkHead → objects' address = memory.objects address) :
    Layout build ⟨memory.space,objects'⟩ self {source with mmappedChunkHead := mem} arenas (mem::chunks) extra := by
  have setPrev (address : Nat) (object : Object) (prev : Nat) (is_ : IsChunk address object) : IsChunk address (object.setPrev prev) := by
    cases object with
    | source => cases is_
    | arena => cases is_
    | chunk => exact is_
  refine layout_of changed layout.page layout.sized layout.header (layout.arenaList.congr fun address member => ?_) ?_ ?_
  · refine others address (List.mem_append_left _ member) ?_
    rintro rfl
    rcases layout.chunkList.chain.head_mem with none | listed
    · exact layout.arenaList.chain.nonnull (none ▸ member)
    · exact (layout.apart.1 _ member).1 listed
  · exact layout.chunkList.push setPrev isChunk_linked nonnull (fun member => fresh (by simp [member])) low new is_ first
      next back fun address member => others address (List.mem_append_right _ member)
  · exact layout.push_owns new changed rfl back others (by simp)

/-! The teardown: what has been taken from the lists is unmapped region by region. -/
theorem Known.unmap {len : Nat} (known : Known build memory self source arenas chunks (touched address len::extra))
    (aligned : address % memPageSize = 0) (positive : 0 < len) :
    Known build (memory.munmap address len) self source arenas chunks extra := by
  rw [Memory.munmap,if_pos ⟨aligned,positive⟩]
  exact ⟨known.here,known.page,known.sized,known.header,known.arenaKinds,known.chunkKinds,known.owns.unmap⟩

theorem objects_munmap (memory : Memory) (address len : Nat) : (memory.munmap address len).objects = memory.objects := by
  rw [Memory.munmap]
  split <;> rfl

theorem Known.takeArena (known : Known build memory self source (address::arenas) chunks []) (found : memory.objects address = some object) :
    Known build memory self source arenas chunks (object.regions source.nativeArena address) := by
  refine ⟨known.here,known.page,known.sized,fun member => known.header (List.mem_cons_of_mem _ member),
    fun other member => known.arenaKinds other (List.mem_cons_of_mem _ member),known.chunkKinds,?_⟩
  have owns := known.owns
  rwa [List.nil_append,List.cons_append,List.cons_append,List.flatMap_cons,regionsAt,found] at owns

theorem Known.takeChunk (known : Known build memory self source [] (address::chunks) []) (found : memory.objects address = some object) :
    Known build memory self source [] chunks (object.regions source.nativeArena address) := by
  refine ⟨known.here,known.page,known.sized,known.header,known.arenaKinds,
    fun other member => known.chunkKinds other (List.mem_cons_of_mem _ member),?_⟩
  have owns := known.owns
  rwa [List.nil_append,List.nil_append,List.cons_append,List.flatMap_cons,regionsAt,found] at owns

theorem destroyArenas_known {fuel before curr : Nat} (known : Known build memory self source arenas chunks [])
    (chain : Chain (nextOf memory.objects) (prevOf memory.objects) before curr arenas) (enough : arenas.length < fuel) :
    ∃ after, destroyArenas build self fuel curr memory = some after ∧ after.objects = memory.objects ∧
      Known build after self source [] chunks [] := by
  induction arenas generalizing fuel before curr memory with
  | nil =>
    obtain ⟨fuel,rfl⟩ := Nat.exists_eq_add_one_of_ne_zero (Nat.ne_zero_of_lt enough)
    exact ⟨memory,by rw [destroyArenas,if_pos (show curr = 0 from chain)],rfl,known⟩
  | cons address rest ih =>
    obtain ⟨fuel,rfl⟩ := Nat.exists_eq_add_one_of_ne_zero (Nat.ne_zero_of_lt enough)
    obtain ⟨rfl,nonnull,_,chain⟩ := chain
    obtain ⟨arena,found,⟨data,own⟩,read⟩ := known.arena_eq List.mem_cons_self
    have next : nextOf memory.objects curr = arena.next := by rw [nextOf,found]; rfl
    have taken := known.takeArena found
    -- `~Arena`
    obtain ⟨memory₁,first,same₁,known₁⟩ : ∃ memory₁, (if arena.native then memory else memory.munmap arena.base arena.size) = memory₁ ∧
        memory₁.objects = memory.objects ∧
        Known build memory₁ self source rest chunks (if curr = source.nativeArena then [] else [touched curr newArenaSize]) := by
      rw [Object.regions] at taken
      cases native : arena.native with
      | true =>
        rw [native] at taken
        exact ⟨memory,rfl,rfl,taken⟩
      | false =>
        rw [native] at taken
        exact ⟨_,rfl,objects_munmap _ _ _,taken.unmap (data native).1 (data native).2⟩
    -- the memory of the arena
    obtain ⟨memory₂,second,same₂,known₂⟩ : ∃ memory₂, (if curr = source.nativeArena then memory₁ else memory₁.munmap curr arena.size) = memory₂ ∧
        memory₂.objects = memory₁.objects ∧ Known build memory₂ self source rest chunks [] := by
      by_cases native : curr = source.nativeArena
      · rw [if_pos native] at known₁ ⊢
        exact ⟨memory₁,rfl,rfl,known₁⟩
      · obtain ⟨aligned,positive,whole⟩ := own native
        rw [if_neg native] at known₁ ⊢
        rw [← whole] at known₁
        exact ⟨_,rfl,objects_munmap _ _ _,known₁.unmap aligned positive⟩
    have same : memory₂.objects = memory.objects := same₂.trans same₁
    rw [next,← same] at chain
    obtain ⟨after,ended,unchanged,left⟩ := ih known₂ chain (Nat.lt_of_succ_lt_succ enough)
    refine ⟨after,?_,unchanged.trans same,left⟩
    rw [destroyArenas,if_neg nonnull,read]
    simp only [Option.bind_eq_bind,Option.bind_some,first,known₁.source_eq,second]
    exact ended

theorem destroyChunks_known {fuel before curr : Nat} (known : Known build memory self source [] chunks [])
    (chain : Chain (nextOf memory.objects) (prevOf memory.objects) before curr chunks) (enough : chunks.length < fuel) :
    ∃ after, destroyChunks build fuel curr memory = some after ∧ Known build after self source [] [] [] := by
  induction chunks generalizing fuel before curr memory with
  | nil =>
    obtain ⟨fuel,rfl⟩ := Nat.exists_eq_add_one_of_ne_zero (Nat.ne_zero_of_lt enough)
    exact ⟨memory,by rw [destroyChunks,if_pos (show curr = 0 from chain)],known⟩
  | cons address rest ih =>
    obtain ⟨fuel,rfl⟩ := Nat.exists_eq_add_one_of_ne_zero (Nat.ne_zero_of_lt enough)
    obtain ⟨rfl,nonnull,_,chain⟩ := chain
    obtain ⟨chunk,found,⟨aligned,positive⟩,read⟩ := known.chunk_eq List.mem_cons_self
    have next : nextOf memory.objects curr = chunk.next := by rw [nextOf,found]; rfl
    have known₁ := (known.takeChunk found).unmap aligned positive
    rw [next,← objects_munmap memory curr chunk.size] at chain
    obtain ⟨after,ended,left⟩ := ih known₁ chain (Nat.lt_of_succ_lt_succ enough)
    refine ⟨after,?_,left⟩
    rw [destroyChunks,if_neg nonnull,read]
    exact ended

/-- There are not more objects than addresses. -/
theorem Listed.length_lt {objects : Nat → Option Object} {kind : Nat → Object → Prop} {head : Nat} {list : List Nat}
    (listed : Listed objects kind head list) : list.length < Strides.loopFuel := by
  have inside : list ⊆ List.range (2 ^ 63) := fun address member => List.mem_range.mpr (listed.low address member)
  have bound := (List.subperm_of_subset listed.distinct inside).length_le
  rw [List.length_range] at bound
  exact Nat.lt_of_le_of_lt bound (by decide)

theorem Layout.destroy (layout : Layout build memory self source arenas chunks []) :
    ∃ after, Teardown.destroy build memory self = some after ∧ after.space.Owns [] := by
  obtain ⟨memory₁,first,same,known₁⟩ := destroyArenas_known layout.toKnown layout.arenaList.chain layout.arenaList.length_lt
  have chain := layout.chunkList.chain
  rw [← same] at chain
  obtain ⟨memory₂,second,known₂⟩ := destroyChunks_known known₁ chain layout.chunkList.length_lt
  refine ⟨memory₂.munmap self source.memSize,?_,?_⟩
  · simp only [Teardown.destroy,layout.source_eq,Option.bind_eq_bind,Option.bind_some,first,known₁.source_eq,second]
  · rw [Memory.munmap,if_pos ⟨known₂.page,known₂.sized⟩]
    have owns := known₂.owns
    simp only [List.nil_append,List.flatMap_cons,List.flatMap_nil,List.append_nil,regionsAt,known₂.here,Option.elim_some,Object.regions] at owns
    exact owns.unmap

theorem read_some (read : memory.read build address = some object) : memory.objects address = some object := by
  obtain ⟨other,found,same⟩ := Option.bind_eq_some_iff.mp read
  split at same
  · rw [found,same]
  · cases same

theorem arena_some {arena : Arena} (read : memory.arena build address = some arena) : memory.objects address = some (.arena arena) := by
  obtain ⟨object,got,is_⟩ := Option.bind_eq_some_iff.mp read
  cases object with
  | arena other => rw [read_some got,Option.some.inj is_]
  | source => cases is_
  | chunk => cases is_

theorem chunk_some {chunk : MmapChunk} (read : memory.chunk build address = some chunk) : memory.objects address = some (.chunk chunk) := by
  obtain ⟨object,got,is_⟩ := Option.bind_eq_some_iff.mp read
  cases object with
  | chunk other => rw [read_some got,Option.some.inj is_]
  | source => cases is_
  | arena => cases is_

theorem Layout.makeArena {base : Nat} {dstNode : Int} (layout : Layout build memory self source arenas chunks extra)
    (fresh : mem ∉ arenas ++ chunks ++ [self]) (made : Arena.make build memory mem sz dstNode base = some next) :
    ∃ arena, next.objects mem = some (.arena arena) ∧ memory.Has mem build.sizeofArena ∧ (arena.prev = 0 ∧ arena.next = 0) ∧
      Layout build next self source arenas chunks ((if arena.native then [] else [touched arena.base arena.size]) ++ extra) ∧
      (arena.native = false → arena.base % memPageSize = 0 ∧ 0 < arena.size ∧ arena.size = sz) ∧
      (arena.native = true → arena.size = wrap (mem + sz + (2 ^ 64 - alignUp (mem + build.sizeofArena) 64))) := by
  obtain ⟨memory₁,first,made⟩ := Option.bind_eq_some_iff.mp made
  have has : memory.Has mem build.sizeofArena := by
    rw [Memory.write] at first
    split at first
    next has => exact has
    next => cases first
  have layout := layout.write fresh first
  split at made
  next =>
    have layout := layout.write fresh made
    obtain rfl := write_some made
    exact ⟨_,Function.update_self _ _ _,has,⟨rfl,rfl⟩,layout,fun direct => absurd direct (by simp),fun _ => rfl⟩
  next =>
    obtain ⟨memory₂,mapped,made⟩ := Option.bind_eq_some_iff.mp made
    obtain ⟨⟨_,aligned,positive,_⟩,_⟩ := callMmap_some mapped
    have layout := (layout.callMmap mapped).1.write fresh made
    obtain rfl := write_some made
    exact ⟨_,Function.update_self _ _ _,has,⟨rfl,rfl⟩,layout,fun _ => ⟨aligned,positive,rfl⟩,fun native => absurd native (by simp)⟩

/-- What a new arena records as its size is in the last page of its mapping. -/
theorem newArena_isArena {nativeArena : Nat} {arena : Arena} (build : Build) (aligned : mem % memPageSize = 0) (low : mem < 2 ^ 63)
    (data : arena.native = false → arena.base % memPageSize = 0 ∧ 0 < arena.size ∧ arena.size = newArenaSize)
    (native : arena.native = true → arena.size = wrap (mem + newArenaSize + (2 ^ 64 - alignUp (mem + build.sizeofArena) 64))) :
    IsArena nativeArena mem (.arena arena) := by
  refine ⟨fun direct => ⟨(data direct).1,(data direct).2.1⟩,fun _ => ⟨aligned,?_⟩⟩
  have size : newArenaSize = 67108864 := by decide
  cases kind : arena.native with
  | false =>
    have same := (data kind).2.2
    exact ⟨(data kind).2.1,by rw [same]⟩
  | true =>
    have small := build.arenaHeader.2
    simp only [memPageSize] at small
    obtain ⟨above,near⟩ := Placement.align64 (show mem + build.sizeofArena + 64 ≤ 2 ^ 64 by omega)
    have difference : arena.size + (alignUp (mem + build.sizeofArena) 64 - mem) = newArenaSize := by
      rw [native kind]
      simp only [wrap]
      omega
    refine ⟨by omega,touched_short aligned (by omega) ?_ (by decide) (by omega)⟩
    simp only [memPageSize]
    omega

theorem Layout.createNewArena {base : Nat} (layout : Layout build memory self source arenas chunks []) (native : source.nativeArena ∈ arenas)
    (created : Teardown.createNewArena build memory self mem base = some next) :
    Layout build next self {source with activeArena := mem} (mem::arenas) chunks [] := by
  simp only [Teardown.createNewArena,Option.bind_eq_bind,Option.bind_eq_some_iff,layout.source_eq,Option.some.injEq] at created
  obtain ⟨_,rfl,memory₁,mapped,memory₂,made,arena₂,readArena,memory₃,linked,active,readActive,memory₄,back,changed⟩ := created
  obtain ⟨layout₁,fresh⟩ := layout.callMmap mapped
  obtain ⟨⟨nonnull,aligned,_,low⟩,_⟩ := callMmap_some mapped
  obtain ⟨arena,new,_,⟨first,_⟩,layout₂,data,direct⟩ := layout₁.makeArena fresh made
  obtain rfl : arena = arena₂ := by
    have same := arena_some readArena
    rw [new] at same
    cases same
    rfl
  have below : mem < 2 ^ 63 := by
    have := pages_pos (show 0 < newArenaSize by decide)
    omega
  have head : source.activeArena ≠ mem := by
    rintro rfl
    rcases layout.arenaList.chain.head_mem with none | inside
    · exact Nat.ne_of_gt nonnull none
    · exact fresh (by simp [inside])
  obtain rfl := write_some linked
  obtain rfl := write_some back
  obtain rfl := write_some changed
  have found : memory₂.objects source.activeArena = some (.arena active) := by
    have found := arena_some readActive
    dsimp only at found
    rwa [Function.update_of_ne head] at found
  have other : source.nativeArena ≠ mem := by
    rintro rfl
    exact fresh (by simp [native])
  have itself : mem ≠ self := by
    rintro rfl
    exact fresh (by simp)
  have layout₃ : Layout build memory₂ self source arenas chunks
      ((Object.arena {arena with next := source.activeArena}).regions source.nativeArena mem ++ []) := by
    rw [Object.regions,if_neg (Ne.symm other),List.append_nil]
    exact layout₂
  refine layout₃.pushArena fresh (Nat.ne_of_gt nonnull) below other (newArena_isArena build aligned below data direct) first rfl ?_
    (Function.update_self _ _ _) ?_ ?_
  · dsimp only
    rw [Function.update_of_ne itself,Function.update_of_ne (Ne.symm head),Function.update_self]
  · intro present
    have different := (layout.apart.1 _ (layout.arenaList.chain.head_mem.resolve_left present)).2
    dsimp only
    rw [Function.update_of_ne different,Function.update_self,found]
    rfl
  · intro address member away
    have unknown : address ≠ mem := by
      rintro rfl
      exact fresh (List.mem_append_left _ member)
    dsimp only
    rw [Function.update_of_ne (layout.listed_ne member),Function.update_of_ne away,Function.update_of_ne unknown]

theorem callMmap_of (nonnull : 0 < mem) (aligned : mem % memPageSize = 0) (positive : 0 < sz) (low : mem + pages sz ≤ 2 ^ 63)
    (apart : ∀ page ∈ touched mem sz, page ∉ memory.space.mapped) :
    ∃ next, memory.callMmap mem sz = some next ∧ next.space.mapped = touched mem sz ++ memory.space.mapped :=
  ⟨_,if_pos ⟨nonnull,aligned,positive,low,List.nodup_range',apart⟩,rfl⟩

theorem write_of (object : Object) (has : memory.Has address (object.size build)) :
    memory.write build address object = some {memory with objects := Function.update memory.objects address (some object)} := if_pos has

theorem callMmap_has {place len : Nat} (mapped : memory.callMmap mem sz = some next) (has : memory.Has place len) : next.Has place len := by
  obtain ⟨_,_,rfl⟩ := callMmap_some mapped
  exact fun page touches => List.mem_append_right _ (has page touches)

theorem makeArena_some {base : Nat} {dstNode : Int} (has : memory.Has mem build.sizeofArena)
    (data : ∃ after, memory.callMmap base sz = some after) :
    ∃ next, Arena.make build memory mem sz dstNode base = some next ∧ next.Has mem build.sizeofArena := by
  obtain ⟨after,mapped⟩ := data
  obtain ⟨given,vacant,_⟩ := callMmap_some mapped
  have first := write_of (.arena ⟨0,false,0,0,0⟩) has
  rw [Arena.make,first,Option.bind_some]
  split
  next => exact ⟨_,write_of _ has,has⟩
  next =>
    have again : Memory.callMmap {memory with objects := Function.update memory.objects mem (some (.arena ⟨0,false,0,0,0⟩))} base sz =
      some _ := if_pos ⟨given.1,given.2.1,given.2.2.1,given.2.2.2,vacant⟩
    rw [again,Option.bind_some]
    have has := callMmap_has again has
    exact ⟨_,write_of _ has,has⟩

/-- Where the system has room for a new arena, nothing else can fail. -/
theorem Layout.createNewArena_some {base : Nat} {granted : Memory} (layout : Layout build memory self source arenas chunks [])
    (native : source.nativeArena ∈ arenas) (mapped : memory.callMmap mem newArenaSize = some granted)
    (data : ∃ after, granted.callMmap base newArenaSize = some after) :
    ∃ next, Teardown.createNewArena build memory self mem base = some next := by
  obtain ⟨layout₁,fresh⟩ := layout.callMmap mapped
  obtain ⟨⟨_,aligned,positive,_⟩,_,isGranted⟩ := callMmap_some mapped
  have short : build.sizeofArena ≤ memPageSize := by
    have := build.arenaHeader.2
    omega
  have has : granted.Has mem build.sizeofArena := by
    rw [isGranted]
    exact fun page touches => List.mem_append_left _ (touched_header aligned build.arenaHeader.1 short positive touches)
  obtain ⟨memory₂,made,has₂⟩ := @makeArena_some _ _ _ _ _ (Placement.dataNode source.node source.nodeHome) has data
  obtain ⟨arena,new,_,_,layout₂,_⟩ := layout₁.makeArena fresh made
  have read : memory₂.arena build mem = some arena := by
    rw [Memory.arena,Memory.read,new,Option.bind_some,if_pos (show memory₂.Has mem ((Object.arena arena).size build) from has₂)]
    rfl
  have linked := write_of (.arena {arena with next := source.activeArena}) has₂
  have layout₃ := layout₂.write fresh linked
  have active := layout.active_mem native
  obtain ⟨before,found,_,readActive⟩ := layout₃.arena_eq active
  have hasActive := layout₃.has (by simp [active]) found
  have hasSelf := layout₃.has (List.mem_append_right _ List.mem_cons_self) layout₃.here
  have back := write_of (.arena {before with prev := mem}) hasActive
  simp only [Teardown.createNewArena,Option.bind_eq_bind,Option.bind_eq_some_iff]
  exact ⟨_,source,layout.source_eq,granted,mapped,memory₂,made,arena,read,_,linked,before,readActive,_,back,write_of _ hasSelf⟩

theorem Layout.allocMapped {bytes : Nat} (layout : Layout build memory self source arenas chunks [])
    (allocated : Teardown.allocMapped build memory self bytes mem = some next) :
    Layout build next self {source with mmappedChunkHead := mem} arenas (mem::chunks) [] := by
  simp only [Teardown.allocMapped,Option.bind_eq_bind,Option.bind_eq_some_iff] at allocated
  obtain ⟨memory₁,mapped,source₁,read,memory₂,written,memory₃,linked,changed⟩ := allocated
  obtain ⟨layout₁,fresh⟩ := layout.callMmap mapped
  obtain ⟨⟨nonnull,aligned,positive,low⟩,_⟩ := callMmap_some mapped
  obtain rfl := Option.some.inj (layout₁.source_eq.symm.trans read)
  have below : mem < 2 ^ 63 := by
    have := pages_pos positive
    omega
  have itself : mem ≠ self := by
    rintro rfl
    exact fresh (by simp)
  have head : source.mmappedChunkHead ≠ mem := by
    rintro rfl
    rcases layout.chunkList.chain.head_mem with none | inside
    · exact Nat.ne_of_gt nonnull none
    · exact fresh (by simp [inside])
  obtain rfl := write_some written
  obtain rfl := write_some changed
  have linked : memory₃.space = memory₁.space ∧ memory₃.objects mem = some (.chunk ⟨mmapSize bytes,0,source.mmappedChunkHead⟩) ∧
      (source.mmappedChunkHead ≠ 0 → memory₃.objects source.mmappedChunkHead =
        (memory₁.objects source.mmappedChunkHead).map (Object.setPrev mem)) ∧
      ∀ address, address ≠ mem → address ≠ source.mmappedChunkHead → memory₃.objects address = memory₁.objects address := by
    rw [setPrev] at linked
    split at linked
    next none =>
      obtain rfl := Option.some.inj linked
      exact ⟨rfl,Function.update_self _ _ _,fun present => absurd none present,fun _ away _ => Function.update_of_ne away _ _⟩
    next present =>
      obtain ⟨chunk,readHead,linked⟩ := Option.bind_eq_some_iff.mp linked
      obtain rfl := write_some linked
      have found := chunk_some readHead
      dsimp only at found
      rw [Function.update_of_ne head] at found
      refine ⟨rfl,?_,fun _ => ?_,fun address away other => ?_⟩
      · dsimp only
        rw [Function.update_of_ne (Ne.symm head),Function.update_self]
      · dsimp only
        rw [Function.update_self,found]
        rfl
      · dsimp only
        rw [Function.update_of_ne other,Function.update_of_ne away]
  obtain ⟨space,new,back,others⟩ := linked
  have layout₂ : Layout build memory₁ self source arenas chunks
      ((Object.chunk ⟨mmapSize bytes,0,source.mmappedChunkHead⟩).regions source.nativeArena mem ++ []) := layout₁
  rw [space]
  refine layout₂.pushChunk fresh (Nat.ne_of_gt nonnull) below ⟨aligned,positive⟩ rfl rfl ?_ (Function.update_self _ _ _) ?_ ?_
  · rw [Function.update_of_ne itself,new]
  · intro present
    rw [Function.update_of_ne (layout.apart.2 _ (layout.chunkList.chain.head_mem.resolve_left present)),back present]
  · intro address member away
    rw [Function.update_of_ne (layout.listed_ne member),others address ?_ away]
    rintro rfl
    exact fresh (List.mem_append_left _ member)

theorem chunk_of {chunk : MmapChunk} (found : memory.objects address = some (.chunk chunk))
    (has : memory.Has address MmapChunkFooter.dataOffset) : memory.chunk build address = some chunk := by
  have got : memory.read build address = some (.chunk chunk) := by
    rw [Memory.read,found]
    exact if_pos has
  rw [Memory.chunk,got]
  rfl

theorem setPrev_eq (prev : Nat) (inside : address = 0 ∨
      ∃ chunk, memory.chunk build address = some chunk ∧ memory.Has address MmapChunkFooter.dataOffset) :
    ∃ after, setPrev build memory address prev = some after ∧ after.space = memory.space ∧
      (address ≠ 0 → after.objects address = (memory.objects address).map (Object.setPrev prev)) ∧
      ∀ other, (address ≠ 0 → other ≠ address) → after.objects other = memory.objects other := by
  by_cases none : address = 0
  · exact ⟨memory,if_pos none,rfl,fun present => absurd none present,fun _ _ => rfl⟩
  · obtain ⟨chunk,read,has⟩ := inside.resolve_left none
    refine ⟨{memory with objects := Function.update memory.objects address (some (.chunk {chunk with prev := prev}))},?_,rfl,
      fun _ => ?_,fun other away => Function.update_of_ne (away none) _ _⟩
    · rw [setPrev,if_neg none,read,Option.bind_some]
      exact if_pos has
    · rw [chunk_some read]
      exact Function.update_self _ _ _

theorem Layout.setNext (layout : Layout build memory self source arenas chunks extra) (prev after : Nat) (inside : prev = 0 ∨ prev ∈ chunks) :
    ∃ next, Teardown.setNext build memory self source prev after = some next ∧ next.space = memory.space ∧
      next.objects self = some (.source {source with mmappedChunkHead := if prev = 0 then after else source.mmappedChunkHead}) ∧
      ∀ address ∈ arenas ++ chunks, next.objects address = (memory.objects address).map fun object =>
        if prev = address then object.setNext after else object := by
  by_cases none : prev = 0
  · have has := layout.has (List.mem_append_right _ List.mem_cons_self) layout.here
    refine ⟨{memory with objects := Function.update memory.objects self (some (.source {source with mmappedChunkHead := after}))},?_,rfl,
      ?_,fun address member => ?_⟩
    · rw [Teardown.setNext,if_pos none]
      exact if_pos has
    · rw [if_pos none]
      exact Function.update_self _ _ _
    · have away : prev ≠ address := fun same => layout.nonnull (none ▸ same ▸ member)
      dsimp only
      rw [Function.update_of_ne (layout.listed_ne member)]
      simp [away]
  · have inside := inside.resolve_left none
    obtain ⟨chunk,found,_,read⟩ := layout.chunk_eq inside
    refine ⟨{memory with objects := Function.update memory.objects prev (some (.chunk {chunk with next := after}))},?_,rfl,?_,
      fun address member => ?_⟩
    · rw [Teardown.setNext,if_neg none,read,Option.bind_some]
      exact if_pos (layout.has (by simp [inside]) found)
    · rw [if_neg none]
      exact (Function.update_of_ne (Ne.symm (layout.apart.2 _ inside)) _ _).trans layout.here
    · dsimp only
      by_cases same : prev = address
      · subst same
        rw [Function.update_self,found]
        simp [Object.setNext]
      · rw [Function.update_of_ne (Ne.symm same)]
        simp [same]

theorem Layout.unlink {chunk : MmapChunk} {objects' : Nat → Option Object}
    (layout : Layout build memory self source arenas chunks []) (member : address ∈ chunks) (found : memory.objects address = some (.chunk chunk))
    (changed : objects' self =
      some (.source {source with mmappedChunkHead := if chunk.prev = 0 then chunk.next else source.mmappedChunkHead}))
    (others : ∀ other ∈ arenas ++ chunks, objects' other = (memory.objects other).map (Object.relink chunk.prev chunk.next other)) :
    Layout build ⟨memory.space,objects'⟩ self
      {source with mmappedChunkHead := if chunk.prev = 0 then chunk.next else source.mmappedChunkHead} arenas (chunks.erase address)
      [touched address chunk.size] := by
  have prev : prevOf memory.objects address = chunk.prev := by rw [prevOf,found]; rfl
  have next : nextOf memory.objects address = chunk.next := by rw [nextOf,found]; rfl
  have neighbours := And.intro (layout.chunkList.chain.previous_mem member) (layout.chunkList.chain.next_mem member)
  rw [prev,next] at neighbours
  refine layout_of changed layout.page layout.sized layout.header (layout.arenaList.congr fun arena inside => ?_) ?_ ?_
  · have outside (neighbour : Nat) (which : neighbour = 0 ∨ neighbour ∈ chunks) : neighbour ≠ arena := by
      rintro rfl
      rcases which with none | chunk
      · exact layout.arenaList.chain.nonnull (none ▸ inside)
      · exact (layout.apart.1 _ inside).1 chunk
    dsimp only
    rw [others arena (List.mem_append_left _ inside)]
    rw [relink_away (outside _ neighbours.2)]
    simp [outside _ neighbours.1]
  · have relinked (other : Nat) (inside : other ∈ chunks) (_ : other ≠ address) : objects' other =
        (memory.objects other).map (Object.relink (prevOf memory.objects address) (nextOf memory.objects address) other) := by
      rw [prev,next]
      exact others other (List.mem_append_right _ inside)
    have removed := layout.chunkList.remove isChunk_relink isChunk_linked member relinked
    rwa [prev,next] at removed
  · have same (other : Nat) (inside : other ∈ arenas ++ chunks ++ [self]) :
        regionsAt objects' source.nativeArena other = regionsAt memory.objects source.nativeArena other := by
      rcases List.mem_append.mp inside with listed | last
      · exact regionsAt_same _ (others other listed) (regions_relink _ _ _ _ other)
      · rw [List.mem_singleton.mp last,regionsAt,regionsAt,changed,layout.here]
        rfl
    have all : (arenas ++ chunks ++ [self]).Perm (address::(arenas ++ chunks.erase address ++ [self])) := by
      refine (((List.perm_cons_erase member).append_left arenas).trans List.perm_middle).append_right [self]
    have kept (other : Nat) (inside : other ∈ arenas ++ chunks.erase address ++ [self]) :=
      same other (all.mem_iff.mpr (List.mem_cons_of_mem _ inside))
    have owns := layout.owns.perm (all.flatMap_right _)
    rw [List.flatMap_cons,regionsAt,found] at owns
    rw [List.flatMap_congr kept]
    exact owns

theorem Layout.unmap {len : Nat} (layout : Layout build memory self source arenas chunks (touched address len::extra))
    (aligned : address % memPageSize = 0) (positive : 0 < len) :
    Layout build (memory.munmap address len) self source arenas chunks extra := by
  refine ⟨layout.toKnown.unmap aligned positive,?_,?_⟩
  · rw [objects_munmap]
    exact layout.arenaList
  · rw [objects_munmap]
    exact layout.chunkList

theorem Layout.free (layout : Layout build memory self source arenas chunks []) (member : address ∈ chunks) :
    ∃ after changed, Teardown.free build memory self (.mapped address) = some after ∧
      Layout build after self changed arenas (chunks.erase address) [] ∧ changed.nativeArena = source.nativeArena := by
  obtain ⟨mch,found,⟨aligned,positive⟩,read⟩ := layout.chunk_eq member
  have prev : prevOf memory.objects address = mch.prev := by rw [prevOf,found]; rfl
  have next : nextOf memory.objects address = mch.next := by rw [nextOf,found]; rfl
  have before := layout.chunkList.chain.previous_mem member
  have after := layout.chunkList.chain.next_mem member
  rw [prev] at before
  rw [next] at after
  obtain ⟨memory₁,first,space₁,source₁,others₁⟩ := layout.setNext mch.prev mch.next before
  have second : mch.next = 0 ∨ ∃ chunk, memory₁.chunk build mch.next = some chunk ∧ memory₁.Has mch.next MmapChunkFooter.dataOffset := by
    refine after.imp_right fun inside => ?_
    obtain ⟨chunk,found,_,_⟩ := layout.chunk_eq inside
    have has : memory₁.Has mch.next MmapChunkFooter.dataOffset := by
      rw [Memory.Has,space₁]
      exact layout.has (by simp [inside]) found
    have still := others₁ mch.next (by simp [inside])
    rw [found,Option.map_some] at still
    split at still
    · exact ⟨_,chunk_of still has,has⟩
    · exact ⟨_,chunk_of still has,has⟩
  obtain ⟨memory₂,linked,space₂,back,others₂⟩ := setPrev_eq mch.prev second
  have relinked (other : Nat) (listed : other ∈ arenas ++ chunks) :
      memory₂.objects other = (memory.objects other).map (Object.relink mch.prev mch.next other) := by
    by_cases same : mch.next = other
    · subst same
      rw [back fun none => layout.nonnull (none ▸ listed),others₁ _ listed,Option.map_map,relink_self]
      rfl
    · rw [others₂ other fun _ => Ne.symm same,others₁ other listed,relink_away same]
  have itself := others₂ self fun present => Ne.symm (layout.apart.2 _ (after.resolve_left present))
  have unlinked := layout.unlink member found (itself.trans source₁) relinked
  rw [← space₁,← space₂] at unlinked
  refine ⟨memory₂.munmap address mch.size,_,?_,unlinked.unmap aligned positive,rfl⟩
  simp only [Teardown.free,read,layout.source_eq,Option.bind_eq_bind,Option.bind_some,first,linked]

theorem create_layout {node home : Int} {base : Nat} (owns : memory.space.Owns [])
    (created : create build memory node home sz mem base = some next) :
    ∃ source native, Layout build next mem source [native] [] [] ∧ source.nativeArena = native := by
  simp only [create,Option.bind_eq_bind,Option.bind_eq_some_iff] at created
  obtain ⟨memory₁,mapped,memory₂,written,memory₃,made,changed⟩ := created
  obtain ⟨⟨nonnull,aligned,positive,low⟩,vacant,rfl⟩ := callMmap_some mapped
  have header := build.header
  simp only [memPageSize] at header aligned
  have filled := pages_pos positive
  obtain ⟨above,near⟩ := Placement.align64 (show mem + build.sizeofMemSourceImpl + 64 ≤ 2 ^ 64 by omega)
  have space : memory₂.space = memory.space.map (touched mem sz) := by rw [write_some written]
  have here : memory₂.objects mem = some (.source ⟨node,home,sz,0,0,0⟩) := by
    rw [write_some written]
    exact Function.update_self _ _ _
  have layout₂ : Layout build memory₂ mem ⟨node,home,sz,0,0,0⟩ [] [] [] := by
    refine layout_of here aligned positive (fun none => by cases none) ⟨rfl,by simp,List.nodup_nil,by simp⟩
      ⟨rfl,by simp,List.nodup_nil,by simp⟩ ?_
    rw [space]
    simpa [regionsAt,here,Object.regions] using owns.map vacant
  have fresh : alignUp (mem + build.sizeofMemSourceImpl) 64 ∉ [] ++ [] ++ [mem] := by
    simp only [List.nil_append,List.mem_singleton]
    omega
  obtain ⟨arena,new,has,⟨first,last⟩,layout₃,data,_⟩ := layout₂.makeArena fresh made
  have inside (page : Nat) (touches : page ∈ touched (alignUp (mem + build.sizeofMemSourceImpl) 64) build.sizeofArena) :
      page ∈ touched mem sz := by
    have mapped := has page touches
    rw [space] at mapped
    simpa [Space.map,List.Perm.eq_nil owns.whole] using mapped
  have part := inside _ (mem_touched_self build.arenaHeader.1)
  rw [mem_touched positive] at part
  have below : alignUp (mem + build.sizeofMemSourceImpl) 64 < 2 ^ 63 := by
    simp only [pages,memPageSize] at low part
    omega
  have present : alignUp (mem + build.sizeofMemSourceImpl) 64 ≠ 0 := by omega
  have other : alignUp (mem + build.sizeofMemSourceImpl) 64 ≠ mem := by omega
  obtain rfl := write_some changed
  have new' : Function.update memory₃.objects mem (some (.source ⟨node,home,sz,alignUp (mem + build.sizeofMemSourceImpl) 64,
      alignUp (mem + build.sizeofMemSourceImpl) 64,0⟩)) (alignUp (mem + build.sizeofMemSourceImpl) 64) = some (.arena arena) :=
    (Function.update_of_ne other _ _).trans new
  refine ⟨_,_,layout_of (Function.update_self _ _ _) aligned positive (fun _ => inside) ⟨⟨rfl,present,?_,?_⟩,?_,List.nodup_singleton _,?_⟩
    ⟨rfl,by simp,List.nodup_nil,by simp⟩ ?_,rfl⟩
  · exact (congrArg (fun object => Option.elim object 0 Object.prev) new').trans first
  · exact (congrArg (fun object => Option.elim object 0 Object.next) new').trans last
  · exact List.forall_mem_singleton.mpr ⟨_,new',fun direct => ⟨(data direct).1,(data direct).2.1⟩,fun away => absurd rfl away⟩
  · exact List.forall_mem_singleton.mpr below
  · have owns := layout₃.owns
    simp only [List.nil_append,List.append_nil,List.flatMap_cons,List.flatMap_nil,regionsAt,layout₃.here,Option.elim_some,Object.regions] at owns
    simpa [regionsAt,new',Object.regions] using owns

end Layouts

section Steps
variable {build : Build} {state next : State} {memory : Memory} {self : Nat} {live : List Block}

theorem Accounted.destroy (accounted : Accounted build ⟨memory,some self,live⟩) :
    ∃ after, Teardown.destroy build memory self = some after ∧ after.space.Owns [] := by
  obtain ⟨source,arenas,chunks,layout,_⟩ := accounted
  exact layout.destroy

theorem Accounted.free {block : Block} (accounted : Accounted build ⟨memory,some self,live⟩) (member : block ∈ live) :
    ∃ after, Teardown.free build memory self block = some after ∧ Accounted build ⟨after,some self,live.erase block⟩ := by
  obtain ⟨source,arenas,chunks,layout,native,inArenas,mapped⟩ := accounted
  cases block with
  | arena address =>
    obtain ⟨arena,_,_,read⟩ := layout.arena_eq (inArenas address member)
    refine ⟨memory,by rw [Teardown.free,read,Option.map_some],source,arenas,chunks,layout,native,fun other inside => ?_,fun other => ?_⟩
    · exact inArenas other (List.mem_of_mem_erase inside)
    · rw [← mapped other]
      exact List.count_erase_of_ne (by simp)
  | mapped address =>
    have listed : address ∈ chunks := by
      rw [← List.count_pos_iff,← mapped address]
      exact List.count_pos_iff.mpr member
    obtain ⟨after,changed,freed,layout,same⟩ := layout.free listed
    refine ⟨after,freed,changed,arenas,chunks.erase address,layout,same ▸ native,fun other inside => ?_,fun other => ?_⟩
    · exact inArenas other (List.mem_of_mem_erase inside)
    · rw [List.count_erase,List.count_erase,← mapped other]
      simp

theorem Accounted.alloc {bytes : Nat} {system : System} {after : Memory} {block : Option Block}
    (accounted : Accounted build ⟨memory,some self,live⟩) (allocated : Teardown.alloc build memory self bytes system = some (after,block)) :
    Accounted build ⟨after,some self,block.toList ++ live⟩ := by
  have before := accounted
  obtain ⟨source,arenas,chunks,layout,native,inArenas,mapped⟩ := accounted
  rw [Teardown.alloc] at allocated
  split at allocated
  next =>
    split at allocated
    next =>
      cases allocated
      exact before
    next =>
      obtain ⟨memory₁,mappedDirectly,same⟩ := Option.map_eq_some_iff.mp allocated
      cases same
      refine ⟨_,arenas,_,layout.allocMapped mappedDirectly,native,fun address inside => ?_,fun address => ?_⟩
      · exact inArenas address (by simpa using inside)
      · simp [List.count_cons,mapped]
  next =>
    simp only [Option.bind_eq_bind,layout.source_eq,Option.bind_some] at allocated
    split at allocated
    next =>
      cases allocated
      refine ⟨source,arenas,chunks,layout,native,fun address inside => ?_,fun address => ?_⟩
      · rcases List.mem_cons.mp inside with same | inside
        · cases same
          exact layout.active_mem native
        · exact inArenas address inside
      · exact (List.count_cons_of_ne (by simp)).trans (mapped address)
    next =>
      split at allocated
      next =>
        cases allocated
        exact before
      next =>
        obtain ⟨memory₁,created,same⟩ := Option.bind_eq_some_iff.mp allocated
        cases same
        refine ⟨_,_,chunks,layout.createNewArena native created,List.mem_cons_of_mem _ native,fun address inside => ?_,fun address => ?_⟩
        · split at inside
          · rcases List.mem_cons.mp inside with same | inside
            · cases same
              exact List.mem_cons_self
            · exact List.mem_cons_of_mem _ (inArenas address inside)
          · exact List.mem_cons_of_mem _ (inArenas address inside)
        · split
          · exact (List.count_cons_of_ne (by simp)).trans (mapped address)
          · exact mapped address

theorem Accounted.newArena {bytes mem base : Nat} {granted : Memory} (accounted : Accounted build ⟨memory,some self,live⟩)
    (small : bytes < build.mmapThreshold) (mapped : memory.callMmap mem newArenaSize = some granted)
    (data : ∃ after, granted.callMmap base newArenaSize = some after) :
    ∃ next, step build ⟨memory,some self,live⟩ (.alloc bytes ⟨mem,base,false,true⟩) = some next ∧
      next.source = some self ∧ next.live = .arena mem::live := by
  obtain ⟨source,arenas,chunks,layout,native,_⟩ := accounted
  obtain ⟨after,created⟩ := layout.createNewArena_some native mapped data
  have nonnull := Nat.ne_of_gt (callMmap_some mapped).1.1
  refine ⟨⟨after,some self,.arena mem::live⟩,?_,rfl,rfl⟩
  simp [Teardown.step,Teardown.alloc,Nat.not_le.mpr small,layout.source_eq,nonnull,created]

theorem Accounted.step {action : Action} (accounted : Accounted build state) (stepped : Teardown.step build state action = some next) :
    Accounted build next := by
  obtain ⟨memory,source,live⟩ := state
  cases source with
  | none =>
    cases action with
    | create node home sz mem base =>
      obtain ⟨after,created,rfl⟩ := Option.map_eq_some_iff.mp stepped
      obtain ⟨source,native,layout,same⟩ := create_layout accounted created
      exact ⟨source,[native],[],layout,by simp [same],fun _ inside => (by cases inside),fun _ => rfl⟩
    | alloc bytes system => cases stepped
    | free block => cases stepped
    | destroy => cases stepped
  | some self =>
    cases action with
    | create node home sz mem base => cases stepped
    | alloc bytes system =>
      obtain ⟨⟨after,block⟩,allocated,rfl⟩ := Option.map_eq_some_iff.mp stepped
      exact accounted.alloc allocated
    | free block =>
      simp only [Teardown.step] at stepped
      split at stepped
      next member =>
        obtain ⟨after,freed,rfl⟩ := Option.map_eq_some_iff.mp stepped
        obtain ⟨other,same,accounted⟩ := accounted.free member
        cases freed.symm.trans same
        exact accounted
      next => cases stepped
    | destroy =>
      obtain ⟨after,destroyed,rfl⟩ := Option.map_eq_some_iff.mp stepped
      obtain ⟨other,same,owns⟩ := accounted.destroy
      cases destroyed.symm.trans same
      exact owns

theorem accounted_run {actions : List Action} (ran : run (step build) State.start actions = some state) : Accounted build state :=
  invariant_of_run (Accounted build) (fun _ _ _ accounted stepped => accounted.step stepped)
    (show Accounted build State.start from Space.owns_empty) ran

end Steps

/-- In every state that is reached live blocks can be freed and the source can be
destroyed, and when it has been, each page that it got has been given back once. -/
theorem destroy_exact (build : Build) (actions : List Action) (state : State) (ran : run (step build) State.start actions = some state) :
    (state.source = none → state.memory.space.Exact) ∧ (state.source ≠ none →
      (∀ block ∈ state.live, ∃ next, step build state (.free block) = some next) ∧
      ∃ final, step build state .destroy = some final ∧ final.source = none ∧ final.memory.space.Exact) := by
  have accounted := accounted_run ran
  obtain ⟨memory,source,live⟩ := state
  cases source with
  | none => exact ⟨fun _ => Space.Owns.exact_ accounted,fun present => absurd rfl present⟩
  | some self =>
    refine ⟨fun none => (by cases none),fun _ => ⟨fun block member => ?_,?_⟩⟩
    · obtain ⟨after,freed,_⟩ := accounted.free member
      exact ⟨⟨after,some self,live.erase block⟩,(if_pos member).trans (by rw [freed,Option.map_some])⟩
    · obtain ⟨after,destroyed,owns⟩ := accounted.destroy
      exact ⟨⟨after,none,[]⟩,by simp [step,destroyed],rfl,owns.exact_⟩

/-- A source with its data on another node, an arena block, a chunk that is freed, and a block
for which a further arena is made. -/
def twoNodes : List Action :=
  [.create 1 0 8192 65536 131072,.alloc 16384 ⟨196608,0,false,false⟩,.alloc 100 ⟨0,0,true,false⟩,.free (.mapped 196608),
    .alloc 200 ⟨0x1000000,0x10000000,false,true⟩]

theorem destroy_exact_twoNodes : ∃ state, run (step ⟨16384,216,80,by decide,by decide⟩) State.start twoNodes = some state ∧
    .arena 0x1000000 ∈ state.live ∧
    ∃ final, step ⟨16384,216,80,by decide,by decide⟩ state .destroy = some final ∧ final.source = none ∧ final.memory.space.Exact := by
  obtain ⟨⟨memory,source,live⟩,ran,here,low⟩ : ∃ middle, run (step ⟨16384,216,80,by decide,by decide⟩) State.start (twoNodes.take 4) =
      some middle ∧ middle.source = some 65536 ∧ ∀ page ∈ middle.memory.space.mapped, page < 4096 := ⟨_,rfl,rfl,by decide⟩
  obtain rfl : source = some 65536 := here
  have accounted := accounted_run ran
  have apart (address : Nat) (high : 4096 * memPageSize ≤ address) : ∀ page ∈ touched address newArenaSize, page ∉ memory.space.mapped := by
    intro page inside mapped
    have := low page mapped
    rw [mem_touched (by decide)] at inside
    simp only [memPageSize] at high
    omega
  obtain ⟨granted,mapped,pages⟩ := callMmap_of (by decide) (by decide) (by decide) (by decide) (apart 0x1000000 (by decide))
  have beyond : ∀ page ∈ touched 0x10000000 newArenaSize, page ∉ granted.space.mapped := by
    intro page inside member
    rcases List.mem_append.mp (pages ▸ member) with first | old
    · rw [mem_touched (by decide)] at inside first
      simp only [newArenaSize] at first
      omega
    · exact apart _ (by decide) page inside old
  obtain ⟨_,data,_⟩ := callMmap_of (by decide) (by decide) (by decide) (by decide) beyond
  obtain ⟨state,stepped,here,lives⟩ := accounted.newArena (show 200 < 16384 by decide) mapped ⟨_,data⟩
  have ran : run (step ⟨16384,216,80,by decide,by decide⟩) State.start twoNodes = some state := by
    rw [← List.take_append_drop 4 twoNodes,run_append,ran]
    exact congrArg (Option.bind · some) stepped
  obtain ⟨-,final,destroyed,facts⟩ := (destroy_exact _ twoNodes state ran).2 (by simp [here])
  exact ⟨state,ran,by simp [lives],final,destroyed,facts⟩

end Pgasus.MemSource.Teardown
