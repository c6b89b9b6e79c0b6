import Pgasus.Library.Counting
import Pgasus.Library.Runs
import Pgasus.Library.Totals

/-! Any number of threads that use `MemSource` handles and the blocks of their
sources. A step is one atomic operation on a source's `BlockCount`, or what a
thread does alone; a handle is not changed while another call uses it. -/
namespace Pgasus.Handles
open Runs Totals

abbrev Source := Nat

namespace BlockCount
def blockBits : Nat := 40
def ref : Nat := 2^blockBits
end BlockCount

/-- A place for a handle. `counted` records the source it holds a reference to,
which is not what `_msource` says in the middle of a call. -/
structure Handle where
  constructed : Bool
  msource : Option Source
  counted : Option Source
deriving DecidableEq

inductive After
  | done
  | move (dst src : Nat)
  | destruct (dst : Nat)
deriving DecidableEq

inductive Pc
  | idle
  | create (dst : Nat)
  | createRef (dst : Nat) (source : Source)
  | copyRef (dst src : Nat) (source : Source)
  | assignRef (dst src : Nat) (source : Source) (old : Option Source)
  | unref (source : Source) (after : After)
  | deref (source : Source) (after : After)
  | destroy (source : Source) (after : After)
  | finish (after : After)
  | alloc (handle : Nat) (source : Source) (aligned : Bool)
  | addBlock (handle : Nat) (source : Source) (aligned : Bool)
  | writeFake (source : Source)
  | free (source : Source)
  | removeBlock (source : Source)
deriving DecidableEq

inductive Call
  | create (dst : Nat)
  | construct (dst : Nat)
  | copy (dst src : Nat)
  | move (dst src : Nat)
  | assign (dst src : Nat)
  | moveAssign (dst src : Nat)
  | destruct (dst : Nat)
  | alloc (handle : Nat) (aligned : Bool)
  | free (block : Nat)

/-- `destroyed` records the calls of `destroy`, and `faulted` whether a source was
used after that. -/
structure Shared where
  values : Source → Nat
  sources : Nat
  handles : List Handle
  blocks : List (Option Source)
  destroyed : List Source
  faulted : Bool

namespace Shared
variable (shared : Shared)

def touch (source : Source) : Shared :=
  {shared with faulted := shared.faulted || decide (source ∈ shared.destroyed)}

/-- `fetch_add` and `fetch_sub` on the word of a source. -/
def fetchAdd (source : Source) (delta : Nat) : Shared :=
  {shared.touch source with
    values := Function.update shared.values source ((shared.values source + delta) % 2^64)}

def fetchSub (source : Source) (delta : Nat) : Shared :=
  {shared.touch source with
    values := Function.update shared.values source ((shared.values source + (2^64 - delta)) % 2^64)}

def setHandle (position : Nat) (handle : Handle) : Shared := {shared with handles := shared.handles.set position handle}

def setMsource (position : Nat) (msource : Option Source) : Shared :=
  {shared with handles := shared.handles.modify position (fun handle => {handle with msource := msource})}

def setCounted (position : Nat) (counted : Option Source) : Shared :=
  {shared with handles := shared.handles.modify position (fun handle => {handle with counted := counted})}

/-- `MemSourceImpl::create`: a source that no handle refers to yet. -/
def create : Shared :=
  {shared with values := Function.update shared.values shared.sources 0,sources := shared.sources + 1}

def destroy (source : Source) : Shared := {shared.touch source with destroyed := source::shared.destroyed}

def addBlock (source : Source) : Shared := {shared with blocks := shared.blocks ++ [some source]}

/-- `_msource = other._msource; other._msource = nullptr;` -/
def moveHandle (dst src : Nat) : Shared :=
  match shared.handles[src]? with
  | none => shared
  | some other =>
    ((shared.setMsource dst other.msource).setCounted dst other.counted).setHandle src {other with msource := none,counted := none}

def finish : After → Shared
  | .done => shared
  | .move dst src => shared.moveHandle dst src
  | .destruct dst => shared.setHandle dst ⟨false,none,none⟩

end Shared

/-- The next step of a thread inside a call. `choice` is 0 when the arena has no memory. -/
def act (shared : Shared) (choice : Nat) : Pc → Option (Shared × Pc)
  | .idle => none
  | .create dst => some (shared.create,.createRef dst shared.sources)
  | .createRef dst source =>
    some ((shared.fetchAdd source BlockCount.ref).setHandle dst ⟨true,some source,some source⟩,.idle)
  | .copyRef dst _ source => some ((shared.fetchAdd source BlockCount.ref).setCounted dst (some source),.idle)
  | .assignRef dst _ source old =>
    some ((shared.fetchAdd source BlockCount.ref).setCounted dst (some source),
      match old with
      | none => .idle
      | some old => .unref old .done)
  -- unref: the test of refs() is for the log only
  | .unref source after => some (shared.touch source,.deref source after)
  | .deref source after =>
    some (shared.fetchSub source BlockCount.ref,
      if shared.values source = BlockCount.ref then .destroy source after else .finish after)
  | .destroy source after => some (shared.destroy source,.finish after)
  | .finish after => some (shared.finish after,.idle)
  | .alloc handle source aligned =>
    some (shared.touch source,if choice = 0 then .idle else .addBlock handle source aligned)
  | .addBlock _ source aligned =>
    let added := shared.fetchAdd source 1
    some (if aligned then (added,.writeFake source) else (added.addBlock source,.idle))
  | .writeFake source => some ((shared.touch source).addBlock source,.idle)
  | .free source => some (shared.touch source,.removeBlock source)
  | .removeBlock source =>
    some (shared.fetchSub source 1,if shared.values source = 1 then .destroy source .done else .finish .done)

structure State where
  shared : Shared
  threads : List Pc

def State.start (handles threads : Nat) : State where
  shared := ⟨fun _ => 0,0,List.replicate handles ⟨false,none,none⟩,[],[],false⟩
  threads := List.replicate threads .idle

def After.changes : After → List Nat
  | .done => []
  | .move dst src => [dst,src]
  | .destruct dst => [dst]

def Pc.changes : Pc → List Nat
  | .create dst => [dst]
  | .createRef dst _ => [dst]
  | .copyRef dst _ _ => [dst]
  | .assignRef dst _ _ _ => [dst]
  | .unref _ after => after.changes
  | .deref _ after => after.changes
  | .destroy _ after => after.changes
  | .finish after => after.changes
  | _ => []

/-- The handles that a call relies on to stay as they are. -/
def Pc.reads : Pc → List Nat
  | .copyRef _ src _ => [src]
  | .assignRef _ src _ _ => [src]
  | .alloc handle _ _ => [handle]
  | .addBlock handle _ _ => [handle]
  | _ => []

def readable (threads : List Pc) (position : Nat) : Bool := threads.all (fun pc => position ∉ pc.changes)

def writable (threads : List Pc) (position : Nat) : Bool :=
  threads.all (fun pc => position ∉ pc.changes ∧ position ∉ pc.reads)

def enter (shared : Shared) (threads : List Pc) : Call → Option (Shared × Pc)
  | .create dst =>
    match shared.handles[dst]? with
    | some handle => if handle.constructed ∨ !writable threads dst then none else some (shared,.create dst)
    | none => none
  | .construct dst =>
    match shared.handles[dst]? with
    | some handle =>
      if handle.constructed ∨ !writable threads dst then none else some (shared.setHandle dst ⟨true,none,none⟩,.idle)
    | none => none
  | .copy dst src =>
    match shared.handles[dst]?,shared.handles[src]? with
    | some handle,some other =>
      if handle.constructed ∨ !other.constructed ∨ !writable threads dst ∨ !readable threads src then none
      else some (shared.setHandle dst ⟨true,other.msource,none⟩,
        match other.msource with
        | none => .idle
        | some source => .copyRef dst src source)
    | _,_ => none
  | .move dst src =>
    match shared.handles[dst]?,shared.handles[src]? with
    | some handle,some other =>
      if handle.constructed ∨ !other.constructed ∨ !writable threads dst ∨ !writable threads src then none
      else some ((shared.setHandle dst other).setHandle src ⟨true,none,none⟩,.idle)
    | _,_ => none
  | .assign dst src =>
    match shared.handles[dst]?,shared.handles[src]? with
    | some handle,some other =>
      if !handle.constructed ∨ !other.constructed ∨ !writable threads dst ∨ !readable threads src then none
      else if other.msource = handle.msource then some (shared,.idle)
      else some (shared.setHandle dst ⟨true,other.msource,none⟩,
        match other.msource,handle.msource with
        | some source,old => .assignRef dst src source old
        | none,some old => .unref old .done
        | none,none => .idle)
    | _,_ => none
  | .moveAssign dst src =>
    match shared.handles[dst]?,shared.handles[src]? with
    | some handle,some other =>
      if !handle.constructed ∨ !other.constructed ∨ !writable threads dst ∨ !writable threads src then none
      else
        match handle.msource with
        | some own => some (shared.setCounted dst none,.unref own (.move dst src))
        | none => some (shared,.finish (.move dst src))
    | _,_ => none
  | .destruct dst =>
    match shared.handles[dst]? with
    | some handle =>
      if !handle.constructed ∨ !writable threads dst then none
      else
        match handle.msource with
        | some own => some (shared.setCounted dst none,.unref own (.destruct dst))
        | none => some (shared,.finish (.destruct dst))
    | none => none
  | .alloc position aligned =>
    match shared.handles[position]? with
    | some handle =>
      if !handle.constructed ∨ !readable threads position then none
      else handle.msource.map (fun source => (shared,.alloc position source aligned))
    | none => none
  | .free block =>
    match shared.blocks[block]? with
    | some (some source) => some ({shared.touch source with blocks := shared.blocks.set block none},.free source)
    | _ => none

inductive Action
  | call (thread : Nat) (call : Call)
  | advance (thread choice : Nat)

def Action.thread : Action → Nat
  | .call thread _ => thread
  | .advance thread _ => thread

def step (state : State) : Action → Option State
  | .call thread call =>
    match state.threads[thread]? with
    | some .idle => (enter state.shared state.threads call).map fun (shared,pc) => ⟨shared,state.threads.set thread pc⟩
    | _ => none
  | .advance thread choice =>
    match state.threads[thread]? with
    | some pc => (act state.shared choice pc).map fun (shared,next) => ⟨shared,state.threads.set thread next⟩
    | none => none

end Pgasus.Handles
