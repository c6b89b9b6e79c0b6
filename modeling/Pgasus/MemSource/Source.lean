import Pgasus.Library.ByteMemory
import Pgasus.Library.Words

/-! Memory sources: footers in byte memory, arenas, and each source's list of directly
mapped chunks. What `callMmap` and dlmalloc answer comes with each operation. -/
namespace Pgasus.MemSource
open Words

def memPageSize : Nat := 4096

def alignMask (s : Nat) : Nat := wrap (s + (2 ^ 64 - 1))
def alignUp (p s : Nat) : Nat := wrap (p + alignMask s) &&& complement (alignMask s)
def alignDown (p s : Nat) : Nat := p &&& complement (alignMask s)
def isAligned (p s : Nat) : Bool := p &&& alignMask s = 0

/-! `source` is the first word of a chunk footer, `arena` or `link` the second one. -/
namespace ChunkFooter
def dataOffset : Nat := alignUp 16 16
def fromPointer (p : Nat) : Nat := p - dataOffset
def toPointer (chunk : Nat) : Nat := chunk + dataOffset
def source (memory : Memory) (chunk : Nat) : Nat := memory.load chunk
def arena (memory : Memory) (chunk : Nat) : Nat := memory.load (chunk + 8)
def link (memory : Memory) (chunk : Nat) : Nat := memory.load (chunk + 8)
def setSource (memory : Memory) (chunk value : Nat) : Memory := memory.store chunk value
def setArena (memory : Memory) (chunk value : Nat) : Memory := memory.store (chunk + 8) value
def setLink (memory : Memory) (chunk value : Nat) : Memory := memory.store (chunk + 8) value
end ChunkFooter

/-! The words `size`, `prev` and `next`, and then the regular footer. -/
namespace MmapChunkFooter
def footer (chunk : Nat) : Nat := chunk + 24
def dataOffset : Nat := 40
def fromPointer (p : Nat) : Nat := p - dataOffset
def toPointer (chunk : Nat) : Nat := chunk + dataOffset
def size (memory : Memory) (chunk : Nat) : Nat := memory.load chunk
def prev (memory : Memory) (chunk : Nat) : Nat := memory.load (chunk + 8)
def next (memory : Memory) (chunk : Nat) : Nat := memory.load (chunk + 16)
def setSize (memory : Memory) (chunk : Nat) (value : Nat) : Memory := memory.store chunk value
def setPrev (memory : Memory) (chunk value : Nat) : Memory := memory.store (chunk + 8) value
def setNext (memory : Memory) (chunk value : Nat) : Memory := memory.store (chunk + 16) value
end MmapChunkFooter

/-- What `mspace_malloc` returns: the chunk, and its usable bytes. -/
structure Chunk where
  address : Nat
  usable : Nat

/-- The answers of the system and of dlmalloc; 0 is `MAP_FAILED` for `callMmap`. -/
structure System where
  callMmap : Nat → Nat
  mspaceMalloc : Nat → Nat → Option Chunk

/-- A live block: its pointer, what it was cut from, and what was asked for. `size` is
what `callMmap` or `mspace_malloc` was asked for, `extent` the bytes that are there,
and `arena` is 0 for a directly mapped one. -/
structure Block where
  source : Nat
  pointer : Nat
  start : Nat
  size : Nat
  extent : Nat
  requested : Nat
  arena : Nat
deriving DecidableEq

inductive Release
  | munmap (start : Nat) (size : Nat)
  | mspaceFree (arena chunk : Nat)
deriving DecidableEq

/-- The fields of a `MemSourceImpl`; the arenas are those behind the active one. -/
structure Source where
  activeArena : Nat
  arenas : List Nat
  mmappedChunkHead : Nat
  blocks : Nat
  destroyed : Bool

/-- One memory with all sources in it, by address. The last three are a record: the
live blocks, the freed ones and what was released. -/
structure State where
  memory : Memory
  sources : Nat → Source
  live : List Block
  freed : List Block
  released : List Release

def Block.mapped (block : Block) : Bool := block.arena = 0

def Block.footer (block : Block) : Nat :=
  if block.mapped then MmapChunkFooter.footer block.start else block.start

def Block.data (block : Block) : Nat :=
  if block.mapped then MmapChunkFooter.toPointer block.start else ChunkFooter.toPointer block.start

def Block.release (block : Block) : Release :=
  if block.mapped then .munmap block.start block.size else .mspaceFree block.arena block.start

def pages (size : Nat) : Nat := (size + (memPageSize - 1)) / memPageSize * memPageSize

def newArenaSize : Nat := 64 <<< 20

/-- The value of a `BlockCount` that counts references and no blocks. -/
def blockCount (refs : Nat) : Nat := refs <<< 40

def State.create (memory : Memory) (native refs : Nat → Nat) : State :=
  ⟨memory,fun self => ⟨native self,[],0,blockCount (refs self),false⟩,[],[],[]⟩

def State.set (state : State) (self : Nat) (source : Source) : State :=
  {state with sources := Function.update state.sources self source}

/-- The bytes that `Arena::alloc` asks the mspace for. -/
def Arena.allocSize (sz : Nat) : Nat := wrap (sz + ChunkFooter.dataOffset)

/-- The footer that `Arena::alloc` writes. -/
def Arena.init (memory : Memory) (self arena chunk : Nat) : Memory :=
  ChunkFooter.setArena (ChunkFooter.setSource memory chunk self) chunk arena

/-- `Arena::alloc`: the chunk gets its footer. -/
def Arena.alloc (system : System) (self arena sz : Nat) (memory : Memory) : Memory × Option Chunk :=
  match system.mspaceMalloc arena (Arena.allocSize sz) with
  | none => (memory,none)
  | some chunk => (Arena.init memory self arena chunk.address,some chunk)

def createNewArena (system : System) (source : Source) : Source × Bool :=
  let mem := system.callMmap newArenaSize
  if mem = 0 then (source,false)
  else ({source with activeArena := mem,arenas := source.activeArena::source.arenas},true)

def arenaBlock (self bytes arena : Nat) (chunk : Chunk) : Block :=
  ⟨self,ChunkFooter.toPointer chunk.address,chunk.address,Arena.allocSize bytes,chunk.usable,bytes,arena⟩

/-- The part of `MemSourceImpl::alloc` below the threshold. -/
def allocInArena (system : System) (state : State) (self bytes : Nat) : State × Option Block :=
  let source := state.sources self
  match Arena.alloc system self source.activeArena bytes state.memory with
  | (memory,some chunk) =>
    ({state with memory}.set self {source with blocks := source.blocks + 1},
      some (arenaBlock self bytes source.activeArena chunk))
  | (_,none) =>
    match createNewArena system source with
    | (_,false) => (state,none)
    | (source,true) =>
      match Arena.alloc system self source.activeArena bytes state.memory with
      | (memory,some chunk) =>
        ({state with memory}.set self {source with blocks := source.blocks + 1},
          some (arenaBlock self bytes source.activeArena chunk))
      | (_,none) => (state.set self source,none)

/-- The bytes that a directly mapped block asks `callMmap` for. -/
def mmapSize (bytes : Nat) : Nat := wrap (bytes + MmapChunkFooter.dataOffset)

def initMapped (memory : Memory) (self head chunk sz : Nat) : Memory :=
  let memory := ChunkFooter.setSource memory (MmapChunkFooter.footer chunk) self
  let memory := ChunkFooter.setArena memory (MmapChunkFooter.footer chunk) 0
  let memory := MmapChunkFooter.setSize memory chunk sz
  let memory := MmapChunkFooter.setPrev memory chunk 0
  let memory := MmapChunkFooter.setNext memory chunk head
  if head = 0 then memory else MmapChunkFooter.setPrev memory head chunk

def mappedBlock (self bytes chunk : Nat) : Block :=
  ⟨self,MmapChunkFooter.toPointer chunk,chunk,mmapSize bytes,pages (mmapSize bytes),bytes,0⟩

/-- The part of `MemSourceImpl::alloc` from the threshold on; new pages are zero. -/
def allocMapped (system : System) (state : State) (self bytes : Nat) : State × Option Block :=
  let source := state.sources self
  let sz := mmapSize bytes
  let chunk := system.callMmap sz
  if chunk = 0 then (state,none)
  else
    let memory := state.memory.fill chunk 0 (pages sz)
    ({state with memory := initMapped memory self source.mmappedChunkHead chunk sz}.set self
      {source with mmappedChunkHead := chunk,blocks := source.blocks + 1},some (mappedBlock self bytes chunk))

def builtThreshold : Nat := 33554432

variable (mmapThreshold : Nat)

/-- `MemSourceImpl::alloc`; the build sets the threshold, for every source. -/
def alloc (system : System) (state : State) (self bytes : Nat) : State × Option Block :=
  if mmapThreshold ≤ bytes then allocMapped system state self bytes else allocInArena system state self bytes

def alignSize (align sz : Nat) : Nat := wrap (sz + align + ChunkFooter.dataOffset)

/-- `MemSourceImpl::alloc_align`; a null pointer counts as aligned. -/
def allocAlign (system : System) (state : State) (self align sz : Nat) : State × Option Block :=
  match alloc mmapThreshold system state self (alignSize align sz) with
  | (state,none) => (state,none)
  | (state,some block) =>
    let p := block.pointer
    if isAligned p align then (state,some {block with requested := sz})
    else
      let pNew := alignUp (p + ChunkFooter.dataOffset) align
      let chunk := ChunkFooter.fromPointer p
      let fakeChunk := ChunkFooter.fromPointer pNew
      let memory := ChunkFooter.setSource state.memory fakeChunk 0
      let memory := ChunkFooter.setLink memory fakeChunk chunk
      ({state with memory},some {block with pointer := ChunkFooter.toPointer fakeChunk,requested := sz})

/-- `get_footer_for_mem`, with a bound on the links it follows. -/
def getFooterForMem (memory : Memory) : Nat → Nat → Option Nat
  | 0, _ => none
  | fuel + 1, chunk =>
    if ChunkFooter.source memory chunk = 0 then getFooterForMem memory fuel (ChunkFooter.link memory chunk) else some chunk

/-- A longer walk would come back to a footer it has seen. -/
def footerFuel : Nat := 2 ^ 64

/-- `mch->prev->next = mch->next`. -/
def unlinkNext (memory : Memory) (chunk : Nat) : Memory :=
  if MmapChunkFooter.prev memory chunk = 0 then memory
  else MmapChunkFooter.setNext memory (MmapChunkFooter.prev memory chunk) (MmapChunkFooter.next memory chunk)

/-- `mch->next->prev = mch->prev`. -/
def unlinkPrev (memory : Memory) (chunk : Nat) : Memory :=
  if MmapChunkFooter.next memory chunk = 0 then memory
  else MmapChunkFooter.setPrev memory (MmapChunkFooter.next memory chunk) (MmapChunkFooter.prev memory chunk)

/-- The branch of `free_impl` for a directly mapped chunk, which starts from the pointer again. -/
def freeMapped (state : State) (self p : Nat) : State :=
  let source := state.sources self
  let chunk := MmapChunkFooter.fromPointer p
  let head := if MmapChunkFooter.prev state.memory chunk = 0 then MmapChunkFooter.next state.memory chunk
    else source.mmappedChunkHead
  let memory := unlinkPrev (unlinkNext state.memory chunk) chunk
  let released := state.released ++ [.munmap chunk (MmapChunkFooter.size memory chunk)]
  {state with memory,released}.set self {source with mmappedChunkHead := head}

def removeBlock (source : Source) : Source :=
  {source with blocks := source.blocks - 1,destroyed := source.destroyed || source.blocks = 1}

def freeImpl (state : State) (self p chunk : Nat) : State :=
  let arena := ChunkFooter.arena state.memory chunk
  let state := if arena = 0 then freeMapped state self p
    else {state with released := state.released ++ [.mspaceFree arena chunk]}
  state.set self (removeBlock (state.sources self))

def free (state : State) (p : Nat) : Option State :=
  if p = 0 then some state
  else (getFooterForMem state.memory footerFuel (ChunkFooter.fromPointer p)).map fun chunk =>
    freeImpl state (ChunkFooter.source state.memory chunk) p chunk

inductive Action
  | alloc (self sz : Nat) (system : System)
  | allocAligned (self align sz : Nat) (system : System)
  | free (p : Nat)
  | write (place : Nat) (byte : UInt8)

def State.record (state : State) : Option Block → State
  | none => state
  | some block => {state with live := block::state.live}

def State.freeLive (state : State) (p : Nat) : Option State :=
  match state.live.find? (fun block => block.pointer = p) with
  | none => none
  | some block => (free state p).map fun state =>
    {state with live := state.live.erase block,freed := state.freed ++ [block]}

/-- A pointer that is freed has been obtained and is still live. -/
def step (state : State) : Action → Option State
  | .alloc self sz system =>
    let (state,block) := alloc mmapThreshold system state self sz
    some (state.record block)
  | .allocAligned self align sz system =>
    let (state,block) := allocAlign mmapThreshold system state self align sz
    some (state.record block)
  | .free p => state.freeLive p
  | .write place byte => some {state with memory := Function.update state.memory place byte}

end Pgasus.MemSource
