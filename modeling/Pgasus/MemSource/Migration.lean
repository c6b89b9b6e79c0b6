import Pgasus.Library.LockTraces
import Pgasus.MemSource.Release

/-! `migrate`, with the locks that its thread requests. It holds all locks of the source
while its vectors grow, and they grow with memory of the thread's current source. Only
what locks depend on is kept of a source: its arenas and its directly mapped chunks. -/
namespace Pgasus.MemSource.Migration
open LockTraces

/-- The spin locks of a source; its arenas are counted from the oldest one. -/
inductive Lock
  | arenaLock (source : Nat)
  | mmappedChunkLock (source : Nat)
  | mspaceLock (source arena : Nat)
deriving DecidableEq

def Lock.source : Lock → Nat
  | arenaLock source => source
  | mmappedChunkLock source => source
  | mspaceLock source _ => source

/-- The mspace, and where its top chunk begins when `migrate` asks. -/
structure Arena where
  msp : Nat
  top : Nat
  ordered : msp ≤ top
  address : top < 2 ^ 64

structure Source where
  node : Int
  activeArena : Arena
  arenas : List Arena
  chunks : List (Nat × Nat)

/-- A block, by the arena that it is from; a directly mapped one has only its start. -/
structure Block where
  source : Nat
  arena : Option Nat
  start : Nat

def Block.lock (block : Block) : Lock :=
  match block.arena with
  | some arena => .mspaceLock block.source arena
  | none => .mmappedChunkLock block.source

/-- What the system answers to one allocation: the mapping for a chunk, whether the
active arena has the bytes, the arena that can be made, and whether that one has them. -/
structure Answer where
  mapping : Option Nat
  granted : Bool
  arena : Option Arena
  grantedThen : Bool

/-- `alloc`; the threshold is the one that the build sets. -/
def alloc (answer : Answer) (source : Source) (self bytes : Nat) : Source × List (Event Lock) × Option Block :=
  if builtThreshold ≤ bytes then
    match answer.mapping with
    | none => (source,[],none)
    | some start =>
      ({source with chunks := (start,mmapSize bytes)::source.chunks},spin (.mmappedChunkLock self),some ⟨self,none,start⟩)
  else
    let arena := source.arenas.length
    if answer.granted then
      (source,.lock (.arenaLock self)::(spin (.mspaceLock self arena) ++ [Event.unlock (Lock.arenaLock self)]),some ⟨self,some arena,0⟩)
    else
      match answer.arena with
      | none => (source,.lock (.arenaLock self)::(spin (.mspaceLock self arena) ++ [Event.unlock (Lock.arenaLock self)]),none)
      | some new =>
        ({source with activeArena := new,arenas := source.activeArena::source.arenas},
          .lock (.arenaLock self)::((spin (.mspaceLock self arena) ++ spin (.mspaceLock self (arena + 1))) ++
            [Event.unlock (Lock.arenaLock self)]),
          if answer.grantedThen then some ⟨self,some (arena + 1),0⟩ else none)

/-- A call of the C library: `malloc`, or `free` of a block obtained before it. -/
inductive Request
  | malloc (bytes : Nat)
  | free (index : Nat)

structure Vector where
  items : List Nat
  capacity : Nat
  buffer : Option Block

/-- A thread in `migrate`. `setup` is what its thread-local storage still takes on the
first allocation, with the source that each request goes to; `thrown` is set when an
allocation has failed, and the rest is skipped. -/
structure Thread where
  sources : Nat → Source
  answered : Nat
  setup : List (Nat × Request)
  thrown : Bool
  pages : Vector
  events : List (Event Lock)

namespace Thread

def request (thread : Thread) (events : List (Event Lock)) : Thread := {thread with events := thread.events ++ events}

def set (thread : Thread) (self : Nat) (source : Source) : Thread :=
  {thread with sources := Function.update thread.sources self source}

def lock (thread : Thread) (lock : Lock) : Thread := if thread.thrown then thread else thread.request [.lock lock]

def free (thread : Thread) (block : Block) : Thread :=
  let source := thread.sources block.source
  let source := if block.arena.isNone then {source with chunks := source.chunks.filter fun chunk => chunk.1 ≠ block.start} else source
  (thread.set block.source source).request (spin block.lock)

def release (thread : Thread) : Option Block → Thread
  | none => thread
  | some block => thread.free block

section Allocations
variable (answers : Nat → Answer) (current : Nat)

def allocFrom (thread : Thread) (self bytes : Nat) : Thread × Option Block :=
  let (source,events,block) := alloc (answers thread.answered) (thread.sources self) self bytes
  (({thread with answered := thread.answered + 1}.set self source).request events,block)

def serve : Thread × List Block → Nat × Request → Thread × List Block
  | (thread,blocks), (source,.malloc bytes) =>
    let (thread,block) := thread.allocFrom answers source bytes
    (thread,blocks ++ block.toList)
  | (thread,blocks), (_,.free index) =>
    match blocks[index]? with
    | none => (thread,blocks)
    | some block => (thread.free block,blocks)

def serveAll (thread : Thread) (requests : List (Nat × Request)) : Thread :=
  (requests.foldl (serve answers) (thread,[])).1

/-- `stackedmalloc`: the first call sets up the thread-local storage. -/
def malloc (thread : Thread) (bytes : Nat) : Thread × Option Block :=
  {thread.serveAll answers thread.setup with setup := []}.allocFrom answers current bytes

def pushBack (thread : Thread) (item : Nat) : Thread :=
  if thread.thrown then thread
  else
    let pages := thread.pages
    if pages.items.length < pages.capacity then {thread with pages := {pages with items := pages.items ++ [item]}}
    else
      let capacity := max 1 (2 * pages.items.length)
      match thread.malloc answers current (8 * capacity) with
      | (thread,none) => {thread with thrown := true}
      | (thread,some block) => {thread.release pages.buffer with pages := ⟨pages.items ++ [item],capacity,some block⟩}

def pageAddresses (start end_ : Nat) : List Nat :=
  let istart := alignDown start memPageSize
  let iend := alignDown end_ memPageSize
  if istart ≤ iend then (List.range ((iend - istart) / memPageSize + 1)).map fun page => istart + page * memPageSize else []

def addPagesToVector (thread : Thread) (start end_ : Nat) : Thread :=
  (pageAddresses start end_).foldl (pushBack answers current) thread

def intVector (thread : Thread) : Thread × Option Block :=
  if thread.thrown || thread.pages.items.isEmpty then (thread,none)
  else
    match thread.malloc answers current (4 * thread.pages.items.length) with
    | (thread,none) => ({thread with thrown := true},none)
    | (thread,some block) => (thread,some block)

end Allocations

def numbered : List Arena → List (Nat × Arena)
  | [] => []
  | arena::rest => (rest.length,arena)::numbered rest

def allArenas (source : Source) : List (Nat × Arena) := numbered (source.activeArena::source.arenas)

def unlockAll (thread : Thread) (m : Nat) : Thread :=
  if thread.thrown then thread
  else thread.request (.unlock (.arenaLock m)::.unlock (.mmappedChunkLock m)::
    (allArenas (thread.sources m)).map fun arena => .unlock (.mspaceLock m arena.1))

end Thread

open Thread

/-- The calling thread: its current source, and the requests that the set-up of its
thread-local storage makes, when it has not allocated before. -/
structure Context where
  current : Nat
  setup : List (Nat × Request)
  small : ∀ source bytes, (source,.malloc bytes) ∈ setup → bytes < builtThreshold

section Migrate
variable (answers : Nat → Answer) (current m : Nat)

def lockArenas (thread : Thread) : Thread :=
  (allArenas (thread.sources m)).foldl
    (fun thread arena => (thread.lock (.mspaceLock m arena.1)).addPagesToVector answers current arena.2.msp arena.2.top) thread

def addChunks (thread : Thread) : Thread :=
  (thread.sources m).chunks.foldl (fun thread chunk => thread.addPagesToVector answers current chunk.1 (chunk.1 + chunk.2)) thread

def start (context : Context) (sources : Nat → Source) : Thread := ⟨sources,0,context.setup,false,⟨[],0,none⟩,[]⟩

/-- `migrate` of the source `m`. `moved` is what `move_pages` answers, and `report` what
the C library does to print its failure. -/
def migrate (dst : Int) (moved : Bool) (report : List Request) (context : Context) (sources : Nat → Source) : Thread :=
  let thread := ((start context sources).lock (.arenaLock m)).lock (.mmappedChunkLock m)
  let thread := addChunks answers context.current m (lockArenas answers context.current m thread)
  let (thread,dstVec) := thread.intVector answers context.current
  let (thread,statusVec) := thread.intVector answers context.current
  let thread := if thread.thrown || moved then thread
    else thread.serveAll answers (report.map fun request => (context.current,request))
  let thread := thread.unlockAll m
  let thread := if thread.thrown then thread else thread.set m {thread.sources m with node := dst}
  ((thread.release statusVec).release dstVec).release thread.pages.buffer

end Migrate

def Context.Apart (m : Nat) (context : Context) : Prop :=
  context.current ≠ m ∧ ∀ source bytes, (source,.malloc bytes) ∈ context.setup → source ≠ m

variable {answers : Nat → Answer} {current m bytes : Nat} {source : Source} {held : List Lock} {thread next : Thread}
  {block : Option Block}

def Lock.OwnedBy (m : Nat) (lock : Lock) : Prop := lock.source = m

theorem alloc_neutral {answer : Answer} {self : Nat} (other : self ≠ m) :
    Neutral (Lock.OwnedBy m) (alloc answer source self bytes).2.1 := by
  have mspace (arena : Nat) : Neutral (fun lock => Lock.OwnedBy m lock ∨ lock = .arenaLock self) (spin (.mspaceLock self arena)) := by
    apply Neutral.spin
    rintro (owned | same)
    · exact other owned
    · cases same
  have arenaLock : ¬Lock.OwnedBy m (.arenaLock self) := other
  unfold alloc
  split
  next =>
    split
    next => exact Neutral.nil
    next => exact Neutral.spin other
  next =>
    dsimp only
    split
    next => exact Neutral.around arenaLock (mspace _)
    next =>
      split
      next => exact Neutral.around arenaLock (mspace _)
      next => exact Neutral.around arenaLock ((mspace _).append (mspace _))

theorem alloc_source {answer : Answer} {self : Nat} {granted : Block}
    (allocated : (alloc answer source self bytes).2.2 = some granted) : granted.source = self := by
  unfold alloc at allocated
  split at allocated
  next =>
    split at allocated <;> cases allocated
    rfl
  next =>
    dsimp only at allocated
    split at allocated
    next =>
      cases allocated
      rfl
    next =>
      split at allocated
      next => cases allocated
      next =>
        dsimp only at allocated
        split at allocated <;> cases allocated
        rfl

theorem alloc_small {answer : Answer} {self : Nat} (small : bytes < builtThreshold) :
    [Event.lock (.arenaLock self)] <+: (alloc answer source self bytes).2.1 := by
  unfold alloc
  rw [if_neg (Nat.not_le.mpr small)]
  dsimp only
  split
  next => exact ⟨_,rfl⟩
  next => split <;> exact ⟨_,rfl⟩

/-- The thread has requested no lock that it held, holds `held` of `m`, and has taken
nothing from `m`, whose arenas are as they were. -/
structure Kept (m : Nat) (source : Source) (held : List Lock) (thread : Thread) : Prop where
  safe : Safe [] thread.events
  holds : after [] thread.events = held
  owned : ∀ lock ∈ held, Lock.OwnedBy m lock
  same : thread.sources m = source
  setup : ∀ source bytes, (source,.malloc bytes) ∈ thread.setup → source ≠ m
  buffer : ∀ block, thread.pages.buffer = some block → block.source ≠ m

theorem Kept.neutral {events : List (Event Lock)} {self : Nat} {changed : Source} (kept : Kept m source held thread)
    (other : self ≠ m) (neutral : Neutral (Lock.OwnedBy m) events) : Kept m source held ((thread.set self changed).request events) := by
  obtain ⟨safe,back⟩ := neutral held kept.owned
  refine ⟨safe_append.mpr ⟨kept.safe,?_⟩,?_,kept.owned,?_,kept.setup,kept.buffer⟩
  · rw [show after [] (thread.set self changed).events = held from kept.holds]
    exact safe
  · change after [] (thread.events ++ events) = held
    rw [after_append,kept.holds,back]
  · exact (Function.update_of_ne (Ne.symm other) _ _).trans kept.same

theorem Kept.allocFrom {self : Nat} (kept : Kept m source held thread) (other : self ≠ m) :
    Kept m source held (thread.allocFrom answers self bytes).1 ∧
      ∀ granted, (thread.allocFrom answers self bytes).2 = some granted → granted.source ≠ m := by
  have asked : Kept m source held {thread with answered := thread.answered + 1} := ⟨kept.safe,kept.holds,kept.owned,kept.same,kept.setup,kept.buffer⟩
  exact ⟨asked.neutral other (alloc_neutral other),fun granted allocated => (alloc_source allocated).symm ▸ other⟩

theorem Kept.free {block : Block} (kept : Kept m source held thread) (other : block.source ≠ m) : Kept m source held (thread.free block) := by
  apply kept.neutral other
  apply Neutral.spin
  unfold Block.lock
  split <;> exact other

theorem Kept.release (kept : Kept m source held thread) (other : ∀ granted, block = some granted → granted.source ≠ m) :
    Kept m source held (thread.release block) := by
  cases block with
  | none => exact kept
  | some granted => exact kept.free (other granted rfl)

theorem Kept.serve {blocks : List Block} {entry : Nat × Request} (kept : Kept m source held thread)
    (others : ∀ block ∈ blocks, block.source ≠ m) (apart : ∀ bytes, entry.2 = .malloc bytes → entry.1 ≠ m) :
    Kept m source held (serve answers (thread,blocks) entry).1 ∧ ∀ block ∈ (serve answers (thread,blocks) entry).2, block.source ≠ m := by
  obtain ⟨self,request⟩ := entry
  cases request with
  | malloc bytes =>
    obtain ⟨after,granted⟩ := @Kept.allocFrom answers m bytes source held thread self kept (apart bytes rfl)
    refine ⟨after,fun block inside => ?_⟩
    rcases List.mem_append.mp inside with before | new
    · exact others block before
    · exact granted block (Option.mem_toList.mp new)
  | free index =>
    simp only [Thread.serve]
    split
    next => exact ⟨kept,others⟩
    next block found => exact ⟨kept.free (others block (List.mem_of_getElem? found)),others⟩

theorem Kept.serveAll {requests : List (Nat × Request)} (kept : Kept m source held thread)
    (apart : ∀ self bytes, (self,.malloc bytes) ∈ requests → self ≠ m) : Kept m source held (thread.serveAll answers requests) := by
  have all (blocks : List Block) (others : ∀ block ∈ blocks, block.source ≠ m) :
      Kept m source held (requests.foldl (Thread.serve answers) (thread,blocks)).1 := by
    induction requests generalizing thread blocks with
    | nil => exact kept
    | cons entry rest ih =>
      obtain ⟨after,others⟩ := @Kept.serve answers m source held thread blocks entry kept others fun bytes same =>
        apart entry.1 bytes (by rw [← same]; exact List.mem_cons_self)
      exact ih after (fun self bytes inside => apart self bytes (List.mem_cons_of_mem entry inside)) _ others
  exact all [] nofun

theorem Kept.malloc (kept : Kept m source held thread) (other : current ≠ m) :
    Kept m source held (thread.malloc answers current bytes).1 ∧
      ∀ granted, (thread.malloc answers current bytes).2 = some granted → granted.source ≠ m := by
  have served := @Kept.serveAll answers m source held thread thread.setup kept kept.setup
  have ready : Kept m source held {thread.serveAll answers thread.setup with setup := []} :=
    ⟨served.safe,served.holds,served.owned,served.same,nofun,served.buffer⟩
  exact ready.allocFrom other

theorem Kept.pushBack (kept : Kept m source held thread) (other : current ≠ m) (item : Nat) :
    Kept m source held (thread.pushBack answers current item) := by
  unfold Thread.pushBack
  split
  next => exact kept
  next =>
    dsimp only
    split
    next => exact ⟨kept.safe,kept.holds,kept.owned,kept.same,kept.setup,kept.buffer⟩
    next =>
      obtain ⟨after,granted⟩ := @Kept.malloc answers current m (8 * max 1 (2 * thread.pages.items.length)) source held thread kept other
      split
      next failed =>
        rw [failed] at after
        exact ⟨after.safe,after.holds,after.owned,after.same,after.setup,after.buffer⟩
      next grown block obtained =>
        rw [obtained] at after granted
        have released := after.release kept.buffer
        exact ⟨released.safe,released.holds,released.owned,released.same,released.setup,fun new same => by
          cases same
          exact granted block rfl⟩

theorem Kept.addPages (kept : Kept m source held thread) (other : current ≠ m) (first last : Nat) :
    Kept m source held (thread.addPagesToVector answers current first last) := by
  unfold addPagesToVector
  induction pageAddresses first last generalizing thread with
  | nil => exact kept
  | cons item rest ih => exact ih (kept.pushBack other item)

theorem Kept.intVector (answers : Nat → Answer) (kept : Kept m source held thread) (other : current ≠ m) :
    Kept m source held (thread.intVector answers current).1 ∧
      ∀ granted, (thread.intVector answers current).2 = some granted → granted.source ≠ m := by
  unfold Thread.intVector
  split
  next => exact ⟨kept,nofun⟩
  next =>
    obtain ⟨after,granted⟩ := @Kept.malloc answers current m (4 * thread.pages.items.length) source held thread kept other
    split
    next failed =>
      rw [failed] at after
      exact ⟨⟨after.safe,after.holds,after.owned,after.same,after.setup,after.buffer⟩,nofun⟩
    next grown block obtained =>
      rw [obtained] at after granted
      exact ⟨after,granted⟩

theorem Kept.lock {lock : Lock} (kept : Kept m source held thread) (own : Lock.OwnedBy m lock) (absent : lock ∉ held) :
    ∃ more, Kept m source more (thread.lock lock) ∧ ∀ other ∈ more, other = lock ∨ other ∈ held := by
  unfold Thread.lock
  split
  next => exact ⟨held,kept,fun _ => .inr⟩
  next =>
    refine ⟨lock::held,⟨safe_append.mpr ⟨kept.safe,?_⟩,?_,?_,kept.same,kept.setup,kept.buffer⟩,fun _ => List.mem_cons.mp⟩
    · rw [kept.holds]
      exact ⟨absent,trivial⟩
    · change after [] (thread.events ++ [Event.lock lock]) = _
      rw [after_append,kept.holds]
      rfl
    · intro other inside
      rcases List.mem_cons.mp inside with rfl | before
      · exact own
      · exact kept.owned other before

theorem Kept.lockEach {arenas : List Arena} (kept : Kept m source held thread) (other : current ≠ m)
    (above : ∀ number, .mspaceLock m number ∈ held → arenas.length ≤ number) : ∃ more, Kept m source more ((numbered arenas).foldl
      (fun thread arena => (thread.lock (.mspaceLock m arena.1)).addPagesToVector answers current arena.2.msp arena.2.top) thread) := by
  induction arenas generalizing thread held with
  | nil => exact ⟨held,kept⟩
  | cons arena rest ih =>
    have absent : Lock.mspaceLock m rest.length ∉ held := fun inside =>
      absurd (above rest.length inside) (by rw [List.length_cons]; omega)
    obtain ⟨more,locked,within⟩ := kept.lock (show Lock.OwnedBy m (.mspaceLock m rest.length) from rfl) absent
    refine ih (locked.addPages other arena.msp arena.top) fun number inside => ?_
    rcases within _ inside with same | before
    · cases same
      exact Nat.le_refl _
    · exact Nat.le_of_succ_le (above number before)

theorem Kept.addChunks (answers : Nat → Answer) (kept : Kept m source held thread) (other : current ≠ m) :
    Kept m source held (addChunks answers current m thread) := by
  unfold Migration.addChunks
  induction (thread.sources m).chunks generalizing thread with
  | nil => exact kept
  | cons chunk rest ih => exact ih (kept.addPages other chunk.1 (chunk.1 + chunk.2))

theorem unlocks_safe (locks : List Lock) : Safe held (locks.map Event.unlock) ∧
    ∀ lock ∈ after held (locks.map Event.unlock), lock ∈ held := by
  induction locks generalizing held with
  | nil => exact ⟨trivial,fun _ => id⟩
  | cons lock rest ih =>
    obtain ⟨safe,within⟩ := @ih (held.erase lock)
    exact ⟨safe,fun other inside => List.mem_of_mem_erase (within other inside)⟩

theorem Kept.unlockAll (kept : Kept m source held thread) : ∃ fewer, Kept m source fewer (thread.unlockAll m) := by
  unfold Thread.unlockAll
  split
  next => exact ⟨held,kept⟩
  next =>
    let locks := Lock.arenaLock m::Lock.mmappedChunkLock m::(allArenas (thread.sources m)).map fun arena => Lock.mspaceLock m arena.1
    have unlocks : Event.unlock (Lock.arenaLock m)::Event.unlock (Lock.mmappedChunkLock m)::
        (allArenas (thread.sources m)).map (fun arena => Event.unlock (Lock.mspaceLock m arena.1)) = locks.map Event.unlock := by
      simp only [locks,List.map_cons,List.map_map]
      rfl
    rw [unlocks]
    obtain ⟨safe,within⟩ := @unlocks_safe held locks
    refine ⟨_,safe_append.mpr ⟨kept.safe,?_⟩,rfl,?_,kept.same,kept.setup,kept.buffer⟩
    · rw [kept.holds]
      exact safe
    · intro lock inside
      change lock ∈ after [] (thread.events ++ _) at inside
      rw [after_append,kept.holds] at inside
      exact kept.owned lock (within lock inside)

theorem Kept.lockArenas (answers : Nat → Answer) (kept : Kept m source held thread) (other : current ≠ m) (free : ∀ number, .mspaceLock m number ∉ held) :
    ∃ more, Kept m source more (lockArenas answers current m thread) :=
  kept.lockEach other fun number inside => absurd inside (free number)

theorem kept_start {context : Context} {sources : Nat → Source}
    (setup : ∀ source bytes, (source,.malloc bytes) ∈ context.setup → source ≠ m) :
    Kept m (sources m) [] (start context sources) := ⟨trivial,rfl,nofun,rfl,setup,nofun⟩

theorem Kept.lockSource (kept : Kept m source [] thread) : ∃ more,
    Kept m source more ((thread.lock (.arenaLock m)).lock (.mmappedChunkLock m)) ∧ ∀ number, .mspaceLock m number ∉ more := by
  obtain ⟨one,kept,within⟩ := kept.lock (show Lock.OwnedBy m (.arenaLock m) from rfl) List.not_mem_nil
  have absent : Lock.mmappedChunkLock m ∉ one := fun inside => by
    rcases within _ inside with same | none
    · cases same
    · cases none
  obtain ⟨two,kept,within'⟩ := kept.lock (show Lock.OwnedBy m (.mmappedChunkLock m) from rfl) absent
  refine ⟨two,kept,fun number inside => ?_⟩
  rcases within' _ inside with same | before
  · cases same
  · rcases within _ before with same | none
    · cases same
    · cases none

theorem Kept.setNode {changed : Source} (kept : Kept m source held thread) : Kept m changed held (thread.set m changed) :=
  ⟨kept.safe,kept.holds,kept.owned,by simp [Thread.set],kept.setup,kept.buffer⟩

/-- No lock is requested that is held when the thread takes no memory from `m`. -/
theorem migrate_safe {dst : Int} {moved : Bool} {report : List Request} {context : Context} {sources : Nat → Source}
    (apart : context.Apart m) : Safe [] (migrate answers m dst moved report context sources).events := by
  obtain ⟨other,setup⟩ := apart
  obtain ⟨one,locked,free⟩ := (@kept_start m context sources setup).lockSource
  obtain ⟨two,locked⟩ := locked.lockArenas answers other free
  have added := locked.addChunks answers other
  unfold migrate
  dsimp only
  generalize addChunks answers context.current m _ = thread at added ⊢
  obtain ⟨first,dstBlock⟩ := added.intVector answers other
  rcases made : thread.intVector answers context.current with ⟨thread,dstVec⟩
  rw [made] at first dstBlock
  obtain ⟨second,statusBlock⟩ := first.intVector answers other
  dsimp only
  rcases made : thread.intVector answers context.current with ⟨thread,statusVec⟩
  rw [made] at second statusBlock
  have reported : Kept m (sources m) two (if thread.thrown || moved then thread
      else thread.serveAll answers (report.map fun request => (context.current,request))) := by
    split
    next => exact second
    next =>
      apply second.serveAll
      intro self bytes inside
      obtain ⟨request,_,same⟩ := List.mem_map.mp inside
      cases same
      exact other
  dsimp only
  generalize (if thread.thrown || moved then thread else _) = thread at reported ⊢
  obtain ⟨three,unlocked⟩ := reported.unlockAll
  generalize thread.unlockAll m = thread at unlocked ⊢
  have moved : ∃ changed, Kept m changed three (if thread.thrown then thread
      else thread.set m {thread.sources m with node := dst}) := by
    split
    next => exact ⟨_,unlocked⟩
    next => exact ⟨_,unlocked.setNode⟩
  obtain ⟨changed,moved⟩ := moved
  generalize (if thread.thrown then thread else _) = thread at moved ⊢
  exact (((moved.release statusBlock).release dstBlock).release moved.buffer).safe

section Requests
variable (answers current m thread bytes)

theorem request_before (events : List (Event Lock)) : thread.events <+: (thread.request events).events := List.prefix_append _ _

theorem free_before (block : Block) : thread.events <+: (thread.free block).events := List.prefix_append _ _

theorem release_before (block : Option Block) : thread.events <+: (thread.release block).events := by
  cases block with
  | none => exact List.prefix_rfl
  | some block => exact free_before thread block

theorem allocFrom_before (self : Nat) : thread.events <+: (thread.allocFrom answers self bytes).1.events := List.prefix_append _ _

theorem serve_before (blocks : List Block) (entry : Nat × Request) :
    thread.events <+: (serve answers (thread,blocks) entry).1.events := by
  obtain ⟨self,request⟩ := entry
  cases request with
  | malloc bytes => exact allocFrom_before answers bytes thread self
  | free index =>
    simp only [Thread.serve]
    split
    next => exact List.prefix_rfl
    next block _ => exact free_before thread block

theorem serves_before (blocks : List Block) (requests : List (Nat × Request)) :
    thread.events <+: (requests.foldl (serve answers) (thread,blocks)).1.events := by
  induction requests generalizing thread blocks with
  | nil => exact List.prefix_rfl
  | cons entry rest ih => exact (serve_before answers thread blocks entry).trans (ih _ _)

theorem malloc_before : thread.events <+: (thread.malloc answers current bytes).1.events :=
  (serves_before answers thread [] thread.setup).trans (allocFrom_before answers bytes _ current)

theorem pushBack_grows (item : Nat) (running : thread.thrown = false) (full : ¬thread.pages.items.length < thread.pages.capacity) :
    (thread.malloc answers current (8 * max 1 (2 * thread.pages.items.length))).1.events <+:
      (thread.pushBack answers current item).events := by
  simp only [Thread.pushBack,running,Bool.false_eq_true,if_false,if_neg full]
  split
  next failed =>
    rw [failed]
  next grown block obtained =>
    rw [obtained]
    exact release_before grown thread.pages.buffer

theorem pushBack_before (item : Nat) : thread.events <+: (thread.pushBack answers current item).events := by
  cases running : thread.thrown with
  | true => simp [Thread.pushBack,running]
  | false =>
    by_cases room : thread.pages.items.length < thread.pages.capacity
    · simp [Thread.pushBack,running,room]
    · exact (malloc_before answers current _ thread).trans (pushBack_grows answers current thread item running room)

theorem foldl_before {α : Type} {step : Thread → α → Thread} (before : ∀ thread item, thread.events <+: (step thread item).events)
    (items : List α) : thread.events <+: (items.foldl step thread).events := by
  induction items generalizing thread with
  | nil => exact List.prefix_rfl
  | cons item rest ih => exact (before thread item).trans (ih _)

theorem addPages_before (first last : Nat) : thread.events <+: (thread.addPagesToVector answers current first last).events :=
  foldl_before thread (pushBack_before answers current) _

theorem lock_before (lock : Lock) : thread.events <+: (thread.lock lock).events := by
  unfold Thread.lock
  split
  next => exact List.prefix_rfl
  next => exact request_before thread _

theorem addChunks_before : thread.events <+: (addChunks answers current m thread).events :=
  foldl_before thread (fun thread (chunk : Nat × Nat) => addPages_before answers current thread chunk.1 (chunk.1 + chunk.2)) _

theorem intVector_before : thread.events <+: (thread.intVector answers current).1.events := by
  have grown := malloc_before answers current (4 * thread.pages.items.length) thread
  unfold Thread.intVector
  split
  next => exact List.prefix_rfl
  next => split <;> simp_all

theorem unlockAll_before : thread.events <+: (thread.unlockAll m).events := by
  unfold Thread.unlockAll
  split
  next => exact List.prefix_rfl
  next => exact request_before thread _

end Requests

theorem migrate_before (dst : Int) (moved : Bool) (report : List Request) (context : Context) (sources : Nat → Source) :
    (lockArenas answers context.current m (((start context sources).lock (.arenaLock m)).lock (.mmappedChunkLock m))).events <+:
      (migrate answers m dst moved report context sources).events := by
  unfold migrate
  dsimp only
  generalize lockArenas answers context.current m _ = thread
  refine (addChunks_before answers context.current m thread).trans ?_
  generalize addChunks answers context.current m thread = thread
  refine (intVector_before answers context.current thread).trans ?_
  generalize (thread.intVector answers context.current).2 = dstVec
  generalize (thread.intVector answers context.current).1 = thread
  refine (intVector_before answers context.current thread).trans ?_
  generalize (thread.intVector answers context.current).2 = statusVec
  generalize (thread.intVector answers context.current).1 = thread
  have reported : thread.events <+: (if thread.thrown || moved then thread
      else thread.serveAll answers (report.map fun request => (context.current,request))).events := by
    split
    next => exact List.prefix_rfl
    next => exact serves_before answers thread [] _
  refine reported.trans ?_
  generalize (if thread.thrown || moved then thread else _) = thread
  refine (unlockAll_before m thread).trans ?_
  generalize thread.unlockAll m = thread
  have moved : thread.events <+: (if thread.thrown then thread else thread.set m {thread.sources m with node := dst}).events := by
    split <;> exact List.prefix_rfl
  refine moved.trans ?_
  generalize (if thread.thrown then thread else _) = thread
  exact ((release_before thread statusVec).trans (release_before _ dstVec)).trans (release_before _ _)

section Relock
variable {blocks : List Block}

theorem Kept.relock {lock : Lock} {events : List (Event Lock)} (kept : Kept m source held thread) (inside : lock ∈ held)
    (begins : [Event.lock lock] <+: events) : ¬Safe [] (thread.request events).events := by
  intro safe
  obtain ⟨rest,rfl⟩ := begins
  have later := (safe_append.mp safe).2
  rw [kept.holds] at later
  exact later.1 inside

theorem Kept.allocFrom_relocks (kept : Kept m source held thread) (inside : .arenaLock m ∈ held) (small : bytes < builtThreshold) :
    ¬Safe [] (thread.allocFrom answers m bytes).1.events :=
  kept.relock inside (alloc_small small)

theorem Kept.serves_relock {requests : List (Nat × Request)} (kept : Kept m source held thread) (inside : .arenaLock m ∈ held)
    (others : ∀ block ∈ blocks, block.source ≠ m) (small : ∀ self bytes, (self,.malloc bytes) ∈ requests → bytes < builtThreshold)
    (asks : ∃ bytes, (m,.malloc bytes) ∈ requests) : ¬Safe [] (requests.foldl (Thread.serve answers) (thread,blocks)).1.events := by
  induction requests generalizing thread blocks with
  | nil => obtain ⟨_,absent⟩ := asks; cases absent
  | cons entry rest ih =>
    by_cases apart : ∀ bytes, entry.2 = .malloc bytes → entry.1 ≠ m
    · obtain ⟨served,others⟩ := @Kept.serve answers m source held thread blocks entry kept others apart
      obtain ⟨bytes,asked⟩ := asks
      have later : (m,Request.malloc bytes) ∈ rest := (List.mem_cons.mp asked).resolve_left fun same =>
        apart bytes (by rw [← same]) (by rw [← same])
      exact ih served others (fun self bytes asked => small self bytes (List.mem_cons_of_mem entry asked)) ⟨bytes,later⟩
    · push Not at apart
      obtain ⟨bytes,same,own⟩ := apart
      have entry_ : entry = (m,.malloc bytes) := Prod.ext own same
      subst entry_
      intro safe
      exact kept.allocFrom_relocks inside (small m bytes List.mem_cons_self)
        (safe.before (serves_before answers (thread.allocFrom answers m bytes).1 _ rest))

theorem serves_setup (requests setup : List (Nat × Request)) :
    (requests.foldl (serve answers) ({thread with setup := setup},blocks)).1 =
      {(requests.foldl (serve answers) (thread,blocks)).1 with setup := setup} := by
  induction requests generalizing thread blocks with
  | nil => rfl
  | cons entry rest ih =>
    obtain ⟨self,request⟩ := entry
    cases request with
    | malloc bytes => exact @ih (thread.allocFrom answers self bytes).1 (blocks ++ (thread.allocFrom answers self bytes).2.toList)
    | free index =>
      simp only [List.foldl_cons,Thread.serve]
      split
      next => exact @ih thread blocks
      next block _ => exact @ih (thread.free block) blocks

theorem malloc_relocks (kept : Kept m source held {thread with setup := []}) (inside : .arenaLock m ∈ held)
    (small : bytes < builtThreshold) (setup : ∀ self bytes, (self,.malloc bytes) ∈ thread.setup → bytes < builtThreshold)
    (asks : current = m ∨ ∃ bytes, (m,.malloc bytes) ∈ thread.setup) : ¬Safe [] (thread.malloc answers current bytes).1.events := by
  have same : {thread.serveAll answers thread.setup with setup := []} =
      (thread.setup.foldl (serve answers) ({thread with setup := []},[])).1 := (serves_setup thread.setup []).symm
  unfold Thread.malloc
  rw [same]
  by_cases early : ∃ bytes, (m,.malloc bytes) ∈ thread.setup
  · intro safe
    have none : ∀ block ∈ ([] : List Block), block.source ≠ m := nofun
    exact kept.serves_relock inside none setup early (safe.before (allocFrom_before answers bytes _ current))
  · obtain rfl := asks.resolve_right early
    have served := @Kept.serveAll answers current source held _ thread.setup kept fun self bytes asked own => early ⟨bytes,own ▸ asked⟩
    exact served.allocFrom_relocks inside small

end Relock

theorem pageAddresses_cons (arena : Arena) : ∃ first rest, pageAddresses arena.msp arena.top = first::rest := by
  have ordered : alignDown arena.msp memPageSize ≤ alignDown arena.top memPageSize := by
    rw [alignDown_page (Nat.lt_of_le_of_lt arena.ordered arena.address),alignDown_page arena.address]
    exact Nat.mul_le_mul_right _ (Nat.div_le_div_right arena.ordered)
  simp only [pageAddresses,if_pos ordered,List.range_succ_eq_map,List.map_cons]
  exact ⟨_,_,rfl⟩

section Locked
variable (answers current m) (context : Context) (sources : Nat → Source)

def locked : Thread := {start context sources with
  events := [.lock (.arenaLock m),.lock (.mmappedChunkLock m),.lock (.mspaceLock m (sources m).arenas.length)]}

theorem malloc_first : ((locked m context sources).malloc answers context.current 8).1.events <+:
    (lockArenas answers context.current m (((start context sources).lock (.arenaLock m)).lock (.mmappedChunkLock m))).events := by
  obtain ⟨page,pages,first⟩ := pageAddresses_cons (sources m).activeArena
  have each (thread : Thread) (arena : Nat × Arena) : thread.events <+:
      ((thread.lock (.mspaceLock m arena.1)).addPagesToVector answers context.current arena.2.msp arena.2.top).events :=
    (lock_before thread _).trans (addPages_before answers context.current _ _ _)
  have whole : lockArenas answers context.current m (((start context sources).lock (.arenaLock m)).lock (.mmappedChunkLock m)) =
      (numbered (sources m).arenas).foldl
        (fun thread arena => (thread.lock (.mspaceLock m arena.1)).addPagesToVector answers context.current arena.2.msp arena.2.top)
        ((locked m context sources).addPagesToVector answers context.current (sources m).activeArena.msp
          (sources m).activeArena.top) := rfl
  rw [whole]
  refine List.IsPrefix.trans ?_ (foldl_before _ each _)
  rw [addPagesToVector,first,List.foldl_cons]
  exact (pushBack_grows answers context.current (locked m context sources) page rfl (Nat.lt_irrefl 0)).trans
    (foldl_before _ (pushBack_before answers context.current) pages)

theorem kept_locked : Kept m (sources m) [.mspaceLock m (sources m).arenas.length,.mmappedChunkLock m,.arenaLock m]
    {locked m context sources with setup := []} := by
  refine ⟨⟨List.not_mem_nil,?_,?_,trivial⟩,rfl,?_,rfl,nofun,nofun⟩
  · simp
  · simp
  · intro lock inside
    simp only [List.mem_cons,List.not_mem_nil,or_false] at inside
    rcases inside with rfl | rfl | rfl <;> rfl

end Locked

/-- The first page is pushed with three locks held. -/
theorem migrate_relocks (dst : Int) (moved : Bool) (report : List Request) (context : Context) (sources : Nat → Source)
    (near : ¬context.Apart m) : ¬Safe [] (migrate answers m dst moved report context sources).events := by
  have asks : context.current = m ∨ ∃ bytes, (m,.malloc bytes) ∈ context.setup := by
    by_contra neither
    push Not at neither
    exact near ⟨neither.1,fun self bytes asked own => neither.2 bytes (own ▸ asked)⟩
  intro safe
  have loops := safe.before (@migrate_before answers m dst moved report context sources)
  exact malloc_relocks (kept_locked m context sources) (by simp) (by decide) context.small asks
    (loops.before (malloc_first answers m context sources))

/-- The thread requests no lock that it holds exactly when it takes no memory from the
source that it migrates. -/
theorem migrate_safe_iff (answers : Nat → Answer) (m : Nat) (dst : Int) (moved : Bool) (report : List Request) (context : Context)
    (sources : Nat → Source) : Safe [] (migrate answers m dst moved report context sources).events ↔ context.Apart m := by
  constructor
  · intro safe
    by_contra near
    exact migrate_relocks dst moved report context sources near safe
  · exact migrate_safe

def oneArena : Source := ⟨0,⟨0x20000,0x21000,by decide,by decide⟩,[],[]⟩

/-- A thread migrates its own source: the first page's buffer is asked for with the locks held. -/
theorem own_source_relocks : ¬Safe [] (migrate (fun _ => ⟨none,true,none,false⟩) 1 2 true [] ⟨1,[],nofun⟩ fun _ => oneArena).events := by
  decide

end Pgasus.MemSource.Migration
