import Pgasus.Base.Topology
import Pgasus.HashTable.InsertAsync
import Pgasus.Library.Words

/-! The source that a thread allocates from, kept next to the stack of places that decides
it. The sources of the other nodes are made when they are first asked for, by any thread of
the node. -/
namespace Pgasus.CurrentSource
open Runs Containers Words
open InsertAsync (Source Place)

def valid (place : Place) : Bool := place.msource.isSome || place.node.valid

structure NodeLocalStorage where
  node : Nat
  maxNodeId : Nat
  msources : List (Option Source)
  size : msources.length = maxNodeId + 1
  int : maxNodeId < 2 ^ 31

namespace NodeLocalStorage

def create (node maxNodeId : Nat) (localMsource : Source) (int : maxNodeId < 2 ^ 31) : NodeLocalStorage where
  node := node
  maxNodeId := maxNodeId
  msources := (List.replicate (maxNodeId + 1) none).set node (some localMsource)
  size := by simp
  int := int

def at_ (storage : NodeLocalStorage) (n : Nat) : Option Source := storage.msources[n]?.join

/-- `get`, with its assertion; the sources of the process are kept by their nodes, in the order
in which they are made. -/
def get (storage : NodeLocalStorage) (nodes : List Nat) (n : Nat) : Option (Source × NodeLocalStorage × List Nat) :=
  if n ≤ storage.maxNodeId then
    match storage.at_ n with
    | some msource => some (msource,storage,nodes)
    | none => some (nodes.length,
        {storage with msources := storage.msources.set n (some nodes.length),size := by rw [List.length_set,storage.size]},nodes ++ [n])
  else none

end NodeLocalStorage

structure ThreadLocalStorage where
  node : Nat
  threadMsource : Source
  placeStack : List Place
  currMsource : Source

structure State where
  tls : ThreadLocalStorage
  storage : NodeLocalStorage
  nodes : List Nat

namespace State

/-- `ThreadLocalStorage::init`, on a CPU of the node of the storage. -/
def init (storage : NodeLocalStorage) (nodes : List Nat) : State :=
  ⟨⟨storage.node,nodes.length,[],nodes.length⟩,storage,nodes ++ [storage.node]⟩

variable (state : State)

def getNodeMsource (n : Int) : Option (Source × State) :=
  if 0 ≤ n ∧ ofInt n = state.tls.node then some (state.tls.threadMsource,state)
  else (state.storage.get state.nodes (ofInt n)).map fun got => (got.1,{state with storage := got.2.1,nodes := got.2.2})

def getPlaceMsource (place : Place) : Option (Source × State) :=
  match place.msource with
  | some msource => some (msource,state)
  | none => state.getNodeMsource place.node.physicalId

def getCurrMsource : Option (Source × State) :=
  match state.tls.placeStack.getLast? with
  | none => some (state.tls.threadMsource,state)
  | some place => state.getPlaceMsource place

/-- `_curr_msource = …`. -/
def assign (result : Option (Source × State)) : Option State :=
  result.map fun (msource,state) => {state with tls := {state.tls with currMsource := msource}}

def setStack (placeStack : List Place) : State := {state with tls := {state.tls with placeStack := placeStack}}

/-- `malloc::push` with its assertion, and so on. -/
def push (place : Place) : Option State :=
  if valid place then assign ((state.setStack (state.tls.placeStack ++ [place])).getPlaceMsource place) else none

def pop : Option State :=
  if state.tls.placeStack = [] then none else assign (state.setStack state.tls.placeStack.dropLast).getCurrMsource

def popAll : List Place × State :=
  (state.tls.placeStack,{state with tls := {state.tls with placeStack := [],currMsource := state.tls.threadMsource}})

def pushAll (places : List Place) : Option State :=
  if places.all valid then assign (state.setStack (state.tls.placeStack ++ places)).getCurrMsource else none

end State

/-- What the thread does, or any other one: `get` for a thread of the same node, and `create`. -/
inductive Action
  | push (place : Place)
  | pop
  | pushAll (places : List Place)
  | popAll
  | get (n : Nat)
  | create (n : Nat)

def Action.stack (placeStack : List Place) : Action → List Place
  | .push place => placeStack ++ [place]
  | .pop => placeStack.dropLast
  | .pushAll places => placeStack ++ places
  | .popAll => []
  | .get _ | .create _ => placeStack

def step (state : State) : Action → Option State
  | .push place => state.push place
  | .pop => state.pop
  | .pushAll places => state.pushAll places
  | .popAll => some state.popAll.2
  | .get n => (state.storage.get state.nodes n).map fun got => {state with storage := got.2.1,nodes := got.2.2}
  | .create n => some {state with nodes := state.nodes ++ [n]}

/-- The source that a place has at a time: its own, or the thread's if it names the thread's
node, or the one that the storage has for its node. -/
def State.sourceOf (state : State) (place : Place) : Option Source :=
  match place.msource with
  | some msource => some msource
  | none =>
    if place.node.physicalId = state.tls.node then some state.tls.threadMsource
    else state.storage.at_ place.node.physicalId.toNat

structure Sound (maxNodeId : Nat) (place : Place) : Prop where
  valid : valid place = true
  node : place.msource = none → place.node.physicalId ≤ maxNodeId

instance (maxNodeId : Nat) (place : Place) : Decidable (Sound maxNodeId place) :=
  decidable_of_iff (CurrentSource.valid place = true ∧ (place.msource = none → place.node.physicalId ≤ maxNodeId))
    ⟨fun both => ⟨both.1,both.2⟩,fun sound => ⟨sound.valid,sound.node⟩⟩

/-- The cached source is the one of the topmost place, or the thread's, and the one of a node is on this node. -/
structure Current (state : State) : Prop where
  empty : state.tls.placeStack = [] → state.tls.currMsource = state.tls.threadMsource
  top : ∀ place, state.tls.placeStack.getLast? = some place → state.sourceOf place = some state.tls.currMsource
  node : ∀ place, state.tls.placeStack.getLast? = some place → place.msource = none →
    ∃ n : Nat, place.node.physicalId = n ∧ state.nodes[state.tls.currMsource]? = some n

section Storage
variable {storage : NodeLocalStorage} {nodes : List Nat} {n other : Nat}

structure Got (storage : NodeLocalStorage) (nodes : List Nat) (n : Nat) (got : Source × NodeLocalStorage × List Nat) : Prop where
  there : got.2.1.at_ n = some got.1
  maxNodeId : got.2.1.maxNodeId = storage.maxNodeId
  kept : ∀ other source, storage.at_ other = some source → got.2.1.at_ other = some source
  nodes : nodes <+: got.2.2
  made : ∀ other source, got.2.1.at_ other = some source → storage.at_ other = some source ∨ got.2.2[source]? = some other

theorem get_spec (inside : n ≤ storage.maxNodeId) : ∃ got, storage.get nodes n = some got ∧ Got storage nodes n got := by
  rw [NodeLocalStorage.get,if_pos inside]
  cases here : storage.at_ n with
  | some msource => exact ⟨_,rfl,here,rfl,fun _ _ there => there,List.prefix_rfl,fun _ _ there => .inl there⟩
  | none =>
    have room : n < storage.msources.length := by
      rw [storage.size]
      omega
    have entry (other : Nat) : (storage.msources.set n (some nodes.length))[other]?.join =
        if n = other then some nodes.length else storage.at_ other := by
      by_cases same : n = other
      · subst same
        simp [room]
      · simp [same,NodeLocalStorage.at_]
    refine ⟨_,rfl,(entry n).trans (if_pos rfl),rfl,fun other source there => ?_,List.prefix_append _ _,fun other source there => ?_⟩
    · have apart : n ≠ other := by
        rintro rfl
        rw [here] at there
        cases there
      exact ((entry other).trans (if_neg apart)).trans there
    · have there := (entry other).symm.trans there
      split at there
      next same =>
        obtain rfl := Option.some.inj there
        exact .inr (by simp [same])
      next => exact .inl there

end Storage

structure Grows (before after : State) : Prop where
  node : after.tls.node = before.tls.node
  threadMsource : after.tls.threadMsource = before.tls.threadMsource
  maxNodeId : after.storage.maxNodeId = before.storage.maxNodeId
  kept : ∀ n source, before.storage.at_ n = some source → after.storage.at_ n = some source
  nodes : before.nodes <+: after.nodes

structure Homed (state : State) : Prop where
  thread : state.nodes[state.tls.threadMsource]? = some state.tls.node
  storage : ∀ n source, state.storage.at_ n = some source → state.nodes[source]? = some n

section Growth
variable {before middle after state : State} {place : Place} {source : Source} {nodes : List Nat} {n index : Nat}

theorem Grows.restacked (state : State) (placeStack : List Place) (currMsource : Source) :
    Grows state {state with tls := {state.tls with placeStack := placeStack,currMsource := currMsource}} :=
  ⟨rfl,rfl,rfl,fun _ _ there => there,List.prefix_rfl⟩

theorem Homed.restacked (homed : Homed state) (placeStack : List Place) (currMsource : Source) :
    Homed {state with tls := {state.tls with placeStack := placeStack,currMsource := currMsource}} :=
  ⟨homed.thread,homed.storage⟩

theorem Grows.refl (state : State) : Grows state state := .restacked state state.tls.placeStack state.tls.currMsource

theorem Grows.trans (first : Grows before middle) (second : Grows middle after) : Grows before after :=
  ⟨second.node.trans first.node,second.threadMsource.trans first.threadMsource,second.maxNodeId.trans first.maxNodeId,
    fun n source there => second.kept n source (first.kept n source there),first.nodes.trans second.nodes⟩

theorem Grows.sourceOf (grows : Grows before after) (has : before.sourceOf place = some source) : after.sourceOf place = some source := by
  rw [State.sourceOf] at has ⊢
  rw [grows.node,grows.threadMsource]
  split at has
  next => exact has
  next =>
    by_cases here : place.node.physicalId = before.tls.node
    · rwa [if_pos here] at has ⊢
    · rw [if_neg here] at has ⊢
      exact grows.kept _ _ has

theorem entry_kept {more : List Nat} (longer : nodes <+: more) (here : nodes[index]? = some n) : more[index]? = some n := by
  obtain ⟨inside,rfl⟩ := List.getElem?_eq_some_iff.mp here
  exact List.prefix_iff_getElem?.mp longer index inside

theorem Got.taken {got : Source × NodeLocalStorage × List Nat} (got_ : Got state.storage state.nodes n got) (homed : Homed state) :
    Grows state {state with storage := got.2.1,nodes := got.2.2} ∧ Homed {state with storage := got.2.1,nodes := got.2.2} := by
  refine ⟨⟨rfl,rfl,got_.maxNodeId,got_.kept,got_.nodes⟩,⟨?_,fun n source there => ?_⟩⟩
  · exact entry_kept got_.nodes homed.thread
  · rcases got_.made n source there with before | made
    · exact entry_kept got_.nodes (homed.storage n source before)
    · exact made

end Growth

structure Found (state : State) (place : Place) (source : Source) (next : State) : Prop where
  tls : next.tls = state.tls
  grows : Grows state next
  homed : Homed next
  has : next.sourceOf place = some source
  node : place.msource = none → ∃ n : Nat, place.node.physicalId = n ∧ next.nodes[source]? = some n

section Places
variable {state : State} {place : Place}

theorem Sound.ofInt {maxNodeId : Nat} (sound : Sound maxNodeId place) (int : maxNodeId < 2 ^ 31) (none_ : place.msource = none) :
    ∃ n : Nat, n ≤ maxNodeId ∧ place.node.physicalId = n ∧ ofInt place.node.physicalId = n := by
  have valid := sound.valid
  rw [CurrentSource.valid,none_,Option.isSome_none,Bool.false_or,Node.valid,decide_eq_true_eq] at valid
  have high := sound.node none_
  obtain ⟨n,same⟩ := Int.eq_ofNat_of_zero_le valid.2
  rw [same] at high ⊢
  exact ⟨n,Int.ofNat_le.mp high,rfl,by rw [Words.ofInt]; omega⟩

theorem getPlaceMsource_spec (homed : Homed state) (sound : Sound state.storage.maxNodeId place) :
    ∃ source next, state.getPlaceMsource place = some (source,next) ∧ Found state place source next := by
  rw [State.getPlaceMsource]
  cases own : place.msource with
  | some msource =>
    exact ⟨msource,state,rfl,rfl,.refl state,homed,by rw [State.sourceOf,own],fun none_ => by cases own.symm.trans none_⟩
  | none =>
    obtain ⟨n,inside,same,word⟩ := sound.ofInt state.storage.int own
    dsimp only
    rw [State.getNodeMsource,word,same]
    by_cases here : n = state.tls.node
    · rw [if_pos ⟨Int.natCast_nonneg n,here⟩]
      refine ⟨_,state,rfl,rfl,.refl state,homed,?_,fun _ => ⟨n,same,here ▸ homed.thread⟩⟩
      rw [State.sourceOf,own]
      exact if_pos (by rw [same,here])
    · rw [if_neg fun both => here both.2]
      obtain ⟨got,called,got_⟩ := @get_spec state.storage state.nodes n inside
      obtain ⟨grows,homed⟩ := got_.taken homed
      rw [called]
      refine ⟨_,_,rfl,rfl,grows,homed,?_,fun _ => ⟨n,same,homed.storage n got.1 got_.there⟩⟩
      rw [State.sourceOf,own]
      refine (if_neg (by rw [same]; exact fun equal => here (Int.natCast_inj.mp equal))).trans ?_
      rw [same,Int.toNat_natCast]
      exact got_.there

theorem getCurrMsource_spec (homed : Homed state) (sound : ∀ place ∈ state.tls.placeStack, Sound state.storage.maxNodeId place) :
    ∃ next, State.assign state.getCurrMsource = some next ∧ next.tls.placeStack = state.tls.placeStack ∧
      Grows state next ∧ Homed next ∧ Current next := by
  rw [State.getCurrMsource]
  cases top : state.tls.placeStack.getLast? with
  | none =>
    refine ⟨_,rfl,rfl,.restacked state _ _,homed.restacked _ _,⟨fun _ => rfl,?_,?_⟩⟩
    · exact fun place here => by cases top.symm.trans here
    · exact fun place here => by cases top.symm.trans here
  | some place =>
    obtain ⟨source,next,called,found⟩ := getPlaceMsource_spec homed (sound place (List.mem_of_getLast? top))
    obtain ⟨tls,grows,homed,has,node⟩ := found
    dsimp only
    rw [called]
    have stack : next.tls.placeStack = state.tls.placeStack := congrArg _ tls
    have only {other : Place} (here : next.tls.placeStack.getLast? = some other) : other = place :=
      Option.some.inj (here.symm.trans (stack ▸ top))
    refine ⟨_,rfl,stack,grows.trans (.restacked next _ _),homed.restacked _ _,?_,?_,?_⟩
    · intro empty
      rw [← stack,show next.tls.placeStack = [] from empty] at top
      cases top
    · intro other here
      obtain rfl := only here
      exact has
    · intro other here none_
      obtain rfl := only here
      exact node none_

end Places

structure Inv (state : State) : Prop where
  homed : Homed state
  sound : ∀ place ∈ state.tls.placeStack, Sound state.storage.maxNodeId place
  current : Current state

/-- Pushed places are valid ones, a stack that is popped has one, and other threads ask for nodes of the machine. -/
def Proper (state : State) : Action → Prop
  | .push place => Sound state.storage.maxNodeId place
  | .pop => state.tls.placeStack ≠ []
  | .pushAll places => ∀ place ∈ places, Sound state.storage.maxNodeId place
  | .get n => n ≤ state.storage.maxNodeId
  | .popAll | .create _ => True

instance (state : State) (action : Action) : Decidable (Proper state action) :=
  match action with
  | .push place => inferInstanceAs (Decidable (Sound state.storage.maxNodeId place))
  | .pop => inferInstanceAs (Decidable (state.tls.placeStack ≠ []))
  | .pushAll places => inferInstanceAs (Decidable (∀ place ∈ places, Sound state.storage.maxNodeId place))
  | .get n => inferInstanceAs (Decidable (n ≤ state.storage.maxNodeId))
  | .popAll | .create _ => .isTrue trivial

section Steps
variable {state next : State} {action : Action} {place : Place}

theorem Inv.assigned (inv : Inv state) (placeStack : List Place) (sound : ∀ place ∈ placeStack, Sound state.storage.maxNodeId place) :
    ∃ next, State.assign (state.setStack placeStack).getCurrMsource = some next ∧ next.tls.placeStack = placeStack ∧
      Inv next ∧ Grows state next := by
  obtain ⟨next,called,stack,grows,homed,current⟩ := @getCurrMsource_spec (state.setStack placeStack)
    (inv.homed.restacked _ _) sound
  have grown : Grows state next := (Grows.restacked state placeStack _).trans grows
  refine ⟨next,called,stack,⟨homed,fun place member => ?_,current⟩,grown⟩
  rw [stack] at member
  rw [grown.maxNodeId]
  exact sound place member

theorem Inv.grown (inv : Inv state) (homed : Homed next) (grows : Grows state next) (same : next.tls = state.tls) : Inv next := by
  refine ⟨homed,fun place member => ?_,fun empty => ?_,fun place here => ?_,fun place here none_ => ?_⟩
  · rw [same] at member
    rw [grows.maxNodeId]
    exact inv.sound place member
  · rw [same] at empty ⊢
    exact inv.current.empty empty
  · rw [same] at here ⊢
    exact grows.sourceOf (inv.current.top place here)
  · rw [same] at here ⊢
    obtain ⟨n,node,there⟩ := inv.current.node place here none_
    exact ⟨n,node,entry_kept grows.nodes there⟩

theorem push_eq (sound : valid place = true) :
    state.push place = State.assign (state.setStack (state.tls.placeStack ++ [place])).getCurrMsource := by
  rw [State.push,if_pos sound,State.getCurrMsource,State.setStack,List.getLast?_concat]

theorem Inv.step (inv : Inv state) (proper : Proper state action) : ∃ next, step state action = some next ∧
    next.tls.placeStack = action.stack state.tls.placeStack ∧ Inv next ∧ Grows state next := by
  cases action with
  | push place =>
    obtain ⟨next,called,kept⟩ := inv.assigned (state.tls.placeStack ++ [place]) fun other member => by
      rcases List.mem_append.mp member with before | only
      · exact inv.sound other before
      · rw [List.mem_singleton.mp only]
        exact proper
    exact ⟨next,(push_eq proper.valid).trans called,kept⟩
  | pop =>
    obtain ⟨next,called,kept⟩ := inv.assigned state.tls.placeStack.dropLast fun other member =>
      inv.sound other (List.mem_of_mem_dropLast member)
    exact ⟨next,(if_neg proper).trans called,kept⟩
  | pushAll places =>
    obtain ⟨next,called,kept⟩ := inv.assigned (state.tls.placeStack ++ places) fun other member => by
      rcases List.mem_append.mp member with before | pushed
      · exact inv.sound other before
      · exact proper other pushed
    exact ⟨next,(if_pos (List.all_eq_true.mpr fun other member => (proper other member).valid)).trans called,kept⟩
  | popAll =>
    exact ⟨_,rfl,rfl,⟨inv.homed.restacked _ _,nofun,fun _ => rfl,nofun,nofun⟩,.restacked state _ _⟩
  | get n =>
    obtain ⟨got,called,got_⟩ := @get_spec state.storage state.nodes n proper
    obtain ⟨grows,homed⟩ := got_.taken inv.homed
    have stepped : CurrentSource.step state (.get n) = some {state with storage := got.2.1,nodes := got.2.2} := by
      rw [CurrentSource.step,called]
      rfl
    exact ⟨_,stepped,rfl,inv.grown homed grows rfl,grows⟩
  | create n =>
    have grows : Grows state {state with nodes := state.nodes ++ [n]} := ⟨rfl,rfl,rfl,fun _ _ there => there,List.prefix_append _ _⟩
    have homed : Homed {state with nodes := state.nodes ++ [n]} :=
      ⟨entry_kept grows.nodes inv.homed.thread,fun n source there => entry_kept grows.nodes (inv.homed.storage n source there)⟩
    exact ⟨_,rfl,rfl,inv.grown homed grows rfl,grows⟩

theorem Inv.run (inv : Inv state) {actions : List Action} (meets : Meets CurrentSource.step Proper state actions) :
    ∃ final, run CurrentSource.step state actions = some final ∧ Inv final ∧ Grows state final := by
  refine run_of_meets (fun next => Inv next ∧ Grows state next) (fun middle action kept proper => ?_) ⟨inv,.refl state⟩ meets
  obtain ⟨inv,grows⟩ := kept
  obtain ⟨next,stepped,_,inv,more⟩ := inv.step proper
  exact ⟨next,stepped,inv,grows.trans more⟩

end Steps

def FromMachine (topology : Topology) (mapping : List Int) (place : Place) : Prop :=
  place.msource = none → Topology.Known topology mapping place.node ∧ place.node.valid = true

/-- What a program does on its machine; it pops only what it has pushed. -/
def Orderly (topology : Topology) (mapping : List Int) (state : State) : Action → Prop
  | .push place => FromMachine topology mapping place
  | .pop => state.tls.placeStack ≠ []
  | .pushAll places => ∀ place ∈ places, FromMachine topology mapping place
  | .get n => n ∈ topology.nodeIds
  | .popAll | .create _ => True

section Machines
variable {hardware : Topology.Hardware} {topology : Topology} {mapping : List Int} {state : State} {place : Place} {action : Action}
  {maxNodeId : Nat}

theorem le_maxNodeId (configures : Topology.Configures hardware topology mapping) (last : topology.nodeIds.getLast? = some maxNodeId)
    {n : Nat} (member : n ∈ topology.nodeIds) : n ≤ maxNodeId :=
  NodeMapping.le_last (configures.describes.sorted.imp Nat.le_of_lt) last n member

theorem FromMachine.sound (configures : Topology.Configures hardware topology mapping) (last : topology.nodeIds.getLast? = some maxNodeId)
    (from_ : FromMachine topology mapping place) : Sound maxNodeId place := by
  cases own : place.msource with
  | some msource => exact ⟨by rw [valid,own]; rfl,fun none_ => by cases own.symm.trans none_⟩
  | none =>
    obtain ⟨known,valid_⟩ := from_ own
    obtain ⟨id,member,same⟩ := known.physicalId configures valid_
    refine ⟨by rw [valid,valid_,Bool.or_true],fun _ => ?_⟩
    rw [same]
    exact Int.ofNat_le.mpr (le_maxNodeId configures last member)

theorem Orderly.proper (configures : Topology.Configures hardware topology mapping)
    (last : topology.nodeIds.getLast? = some state.storage.maxNodeId) (orderly : Orderly topology mapping state action) :
    Proper state action := by
  cases action with
  | push place => exact orderly.sound configures last
  | pop => exact orderly
  | pushAll places => exact fun place member => (orderly place member).sound configures last
  | get n => exact le_maxNodeId configures last orderly
  | popAll | create => trivial

end Machines

/-! The thread as `insertAsync` sees it, with the sources that the storage has in the end. -/

def State.abstract (state : State) (nodeSources : Int → Source) : InsertAsync.ThreadLocalStorage :=
  ⟨state.tls.node,nodeSources,state.tls.threadMsource,state.tls.placeStack,state.tls.currMsource⟩

def abstractStep (tls : InsertAsync.ThreadLocalStorage) : Action → InsertAsync.ThreadLocalStorage
  | .push place => tls.push place
  | .pop => tls.pop
  | .pushAll places => tls.pushAll places
  | .popAll => tls.popAll.2
  | .get _ | .create _ => tls

def Fits (nodeSources : Int → Source) (state : State) : Prop := ∀ n source, state.storage.at_ n = some source → nodeSources n = source

section Abstract
variable {state : State} {nodeSources : Int → Source} {place : Place} {source : Source}

theorem Fits.earlier {next : State} (fits : Fits nodeSources next) (grows : Grows state next) : Fits nodeSources state :=
  fun n source there => fits n source (grows.kept n source there)

theorem Fits.getPlaceMsource (fits : Fits nodeSources state) (sound : Sound state.storage.maxNodeId place) (has : state.sourceOf place = some source) :
    (state.abstract nodeSources).getPlaceMsource place = source := by
  rw [State.sourceOf] at has
  rw [InsertAsync.ThreadLocalStorage.getPlaceMsource]
  cases own : place.msource with
  | some msource =>
    rw [own] at has
    exact Option.some.inj has
  | none =>
    obtain ⟨n,_,same,_⟩ := sound.ofInt state.storage.int own
    rw [own,same] at has
    rw [same]
    change (if (n : Int) = state.tls.node then state.tls.threadMsource else nodeSources n) = source
    by_cases here : (n : Int) = state.tls.node
    · rw [if_pos here]
      exact Option.some.inj ((if_pos here).symm.trans has)
    · rw [if_neg here]
      exact fits n source ((if_neg here).symm.trans has)

theorem Inv.abstract (inv : Inv state) (fits : Fits nodeSources state) :
    (state.abstract nodeSources).currMsource = (state.abstract nodeSources).getCurrMsource := by
  rw [InsertAsync.ThreadLocalStorage.getCurrMsource]
  change state.tls.currMsource = (state.tls.placeStack.getLast?.map _).getD state.tls.threadMsource
  cases top : state.tls.placeStack.getLast? with
  | none => exact inv.current.empty (List.getLast?_eq_none_iff.mp top)
  | some place => exact (fits.getPlaceMsource (inv.sound place (List.mem_of_getLast? top)) (inv.current.top place top)).symm

theorem abstractStep_eq (tls : InsertAsync.ThreadLocalStorage) (current : tls.currMsource = tls.getCurrMsource) (action : Action) :
    abstractStep tls action = {tls with
      placeStack := action.stack tls.placeStack
      currMsource := {tls with placeStack := action.stack tls.placeStack}.getCurrMsource} := by
  cases action with
  | push place =>
    have top : {tls with placeStack := tls.placeStack ++ [place]}.getCurrMsource = tls.getPlaceMsource place := by
      rw [InsertAsync.ThreadLocalStorage.getCurrMsource,List.getLast?_concat]
      rfl
    rw [Action.stack,top]
    rfl
  | pop | pushAll | popAll => rfl
  | get | create =>
    change tls = {tls with currMsource := tls.getCurrMsource}
    rw [← current]

theorem Inv.abstract_step {next : State} {action : Action} (inv : Inv state) (kept : Inv next) (grows : Grows state next)
    (stack : next.tls.placeStack = action.stack state.tls.placeStack) (fits : Fits nodeSources next) :
    next.abstract nodeSources = abstractStep (state.abstract nodeSources) action := by
  have current := kept.abstract fits
  rw [abstractStep_eq _ (inv.abstract (fits.earlier grows))]
  have same : {state.abstract nodeSources with placeStack := action.stack state.tls.placeStack} =
      {next.abstract nodeSources with currMsource := state.tls.currMsource} := by
    simp only [State.abstract,stack,grows.node,grows.threadMsource]
  have top := (congrArg InsertAsync.ThreadLocalStorage.getCurrMsource same).trans current.symm
  refine Eq.trans ?_ (congrArg (fun source => {state.abstract nodeSources with
    placeStack := action.stack state.tls.placeStack
    currMsource := source}) top.symm)
  simp only [State.abstract,stack,grows.node,grows.threadMsource]

end Abstract

section Runs
variable {state : State} {storage : NodeLocalStorage} {nodes : List Nat}

theorem inv_init (homed : ∀ n source, storage.at_ n = some source → nodes[source]? = some n) : Inv (State.init storage nodes) := by
  refine ⟨⟨List.getElem?_concat_length,fun n source there => ?_⟩,nofun,fun _ => rfl,nofun,nofun⟩
  exact entry_kept (List.prefix_append _ _) (homed n source there)

theorem create_homed {node maxNodeId : Nat} {localMsource : Source} (int : maxNodeId < 2 ^ 31) (here : nodes[localMsource]? = some node)
    (n : Nat) (source : Source) (there : (NodeLocalStorage.create node maxNodeId localMsource int).at_ n = some source) :
    nodes[source]? = some n := by
  rw [NodeLocalStorage.at_,NodeLocalStorage.create] at there
  dsimp only at there
  by_cases same : node = n
  · subst same
    rw [List.getElem?_set_self'] at there
    cases inside : (List.replicate (maxNodeId + 1) (none : Option Source))[node]? <;> rw [inside] at there
    · cases there
    · obtain rfl := Option.some.inj there
      exact here
  · rw [List.getElem?_set_ne same,List.getElem?_replicate] at there
    split at there <;> cases there

end Runs

def emptyStorage : NodeLocalStorage := .create 0 4 0 (by decide)

section Refinement
variable {hardware : Topology.Hardware} {topology : Topology} {mapping : List Int} {state : State}

theorem refines_of_inv (inv : Inv state) (configures : Topology.Configures hardware topology mapping)
    (last : topology.nodeIds.getLast? = some state.storage.maxNodeId) {actions : List Action}
    (orderly : Meets step (Orderly topology mapping) state actions) :
    ∃ final, run step state actions = some final ∧ Grows state final ∧ ∀ nodeSources, Fits nodeSources final →
      final.abstract nodeSources = actions.foldl abstractStep (state.abstract nodeSources) := by
  induction actions generalizing state with
  | nil => exact ⟨state,rfl,.refl state,fun _ _ => rfl⟩
  | cons action rest ih =>
    obtain ⟨next,stepped,stack,kept,grows⟩ := inv.step (orderly.1.proper configures last)
    obtain ⟨final,ran,more,same⟩ := ih kept (grows.maxNodeId ▸ last) (orderly.2 next stepped)
    refine ⟨final,by rw [run_cons,stepped]; exact ran,grows.trans more,fun nodeSources fits => ?_⟩
    rw [List.foldl_cons,← inv.abstract_step kept grows stack (fits.earlier more)]
    exact same nodeSources fits

def isOrderly (topology : Topology) (mapping : List Int) (state : State) : Action → Bool
  | .push place => place.msource.isSome || (place.node.valid && decide (place.node ∈ NodeMapping.logicalNodes mapping))
  | .pop => state.tls.placeStack.length != 0
  | .pushAll places => places.all fun place => place.msource.isSome || (place.node.valid && decide (place.node ∈ NodeMapping.logicalNodes mapping))
  | .get n => topology.nodeIds.contains n
  | .popAll | .create _ => true

theorem orderly_of_isOrderly (state : State) (action : Action) (tested : isOrderly topology mapping state action = true) :
    Orderly topology mapping state action := by
  have from_ (place : Place) (here : (place.msource.isSome || (place.node.valid && decide (place.node ∈ NodeMapping.logicalNodes mapping))) = true) :
      FromMachine topology mapping place := by
    intro none_
    rw [none_,Option.isSome_none,Bool.false_or,Bool.and_eq_true,decide_eq_true_eq] at here
    exact ⟨.logical here.2,here.1⟩
  cases action with
  | push place => exact from_ place tested
  | pop =>
    intro empty
    simp [isOrderly,empty] at tested
  | pushAll places => exact fun place member => from_ place (List.all_eq_true.mp tested place member)
  | get n => exact List.contains_iff_mem.mp tested
  | popAll | create => trivial

end Refinement

/-- What a thread does with its places on its machine, with node sources made on the way, it would
have done with all of them made beforehand. -/
theorem thread_refines (hardware : Topology.Hardware) (topology : Topology) (conversion : NodeRequest.Conversion)
    (envNodes : Option (List Char)) (mapping : List Int) (built : Topology.make hardware = .ok topology)
    (mapped : NodeMapping.getPhysicalToLogicalMapping conversion topology.nodeIds envNodes = .mapping mapping)
    (storage : NodeLocalStorage) (last : topology.nodeIds.getLast? = some storage.maxNodeId) (nodes : List Nat)
    (homed : ∀ n source, storage.at_ n = some source → nodes[source]? = some n) (actions : List Action)
    (orderly : Meets step (Orderly topology mapping) (State.init storage nodes) actions) :
    ∃ final, run step (State.init storage nodes) actions = some final ∧ ∀ nodeSources, Fits nodeSources final →
      final.abstract nodeSources = actions.foldl abstractStep ((State.init storage nodes).abstract nodeSources) := by
  obtain ⟨final,ran,_,same⟩ := refines_of_inv (inv_init homed) (Topology.configures_of_make built mapped) last orderly
  exact ⟨final,ran,same⟩

def gapActions : List Action :=
  [.push (.ofNode ⟨2,4⟩),.get 1,.push (.ofMsource 3),.pop,.popAll,.pushAll [.ofMsource 0,.ofNode ⟨2,4⟩]]

theorem thread_refines_gap : ∃ final nodeSources, run step (State.init emptyStorage [0]) gapActions = some final ∧
    final.tls.currMsource = 2 ∧ Fits nodeSources final ∧
    final.abstract nodeSources = gapActions.foldl abstractStep ((State.init emptyStorage [0]).abstract nodeSources) := by
  have orderly : Meets step (Orderly Topology.gapTopology [0,1,-2,-2,2]) (State.init emptyStorage [0]) gapActions :=
    meets_of_checks (isOrderly Topology.gapTopology [0,1,-2,-2,2]) orderly_of_isOrderly (by decide +kernel)
  obtain ⟨final,ran,same⟩ := thread_refines Topology.gapHardware Topology.gapTopology NodeRequest.glibc none [0,1,-2,-2,2] rfl rfl
    emptyStorage rfl [0] (create_homed (by decide) rfl) gapActions orderly
  have evaluated : (run step (State.init emptyStorage [0]) gapActions).map (fun final => final.tls.currMsource) = some 2 := by
    decide +kernel
  have fits : Fits (fun n => (final.storage.at_ n.toNat).getD 0) final := fun n source there => by
    simp [there]
  rw [ran] at evaluated
  exact ⟨final,_,ran,Option.some.inj evaluated,fits,same _ fits⟩

end Pgasus.CurrentSource
