import Mathlib.Logic.Function.Basic
import Pgasus.Library.Runs
import Pgasus.Library.Totals

/-! `RefPtr` and `Referenced`: what a program does with the pointers, and the releases
that an operation sets off, one access to an object at a time. -/
namespace Pgasus.References
open Runs Totals

abbrev Object := Nat

/-- A `dying` object is in its destructor; its memory is still there. -/
inductive Status
  | unborn
  | live
  | dying
  | freed
deriving DecidableEq

/-- `explicitRefs` and `referenced` are records: the program's own calls of `ref` that it
has not undone, and whether the object has ever had a reference. -/
@[ext] structure Referenced where
  status : Status
  refCount : Int
  explicitRefs : Nat
  referenced : Bool

/-- The RefPtr is a member of its owner, or not in an object at all. `counted` is a record:
the object that it holds a reference to, which is not `ptr` in the middle of a call. -/
@[ext] structure RefPtr where
  owner : Option Object
  ptr : Option Object
  constructed : Bool
  counted : Option Object

/-- What is left to do of a call: to release an object, to destroy a member, to null a
destroyed pointer, to end a `delete`, and the second half of a move assignment. -/
inductive Work
  | unref (object : Object)
  | destroy (ref : Nat)
  | clear (ref : Nat)
  | free (object : Object)
  | moveIn (dst src : Nat)
deriving DecidableEq

/-- `failed` records an access to a freed object, or a failed assertion. -/
structure State where
  objects : Object → Referenced
  refs : List RefPtr
  todo : List Work
  failed : Bool

def State.start : State := ⟨fun _ => ⟨.unborn,0,0,false⟩,[],[],false⟩

def int32 (value : Int) : Int := value.bmod (2 ^ 32)

namespace State
variable (state : State)

def status (object : Object) : Status := (state.objects object).status

def setObject (object : Object) (value : Referenced) : State :=
  {state with objects := Function.update state.objects object value}

def setRef (ref : Nat) (value : RefPtr) : State := {state with refs := state.refs.set ref value}

def push (work : List Work) : State := {state with todo := work ++ state.todo}

/-- The members of an object, in the order of their declaration. -/
def members (object : Object) : List Nat :=
  (state.refs.zipIdx.filter fun member => member.1.owner = some object).map Prod.snd

def lost (ref : RefPtr) : Bool := ref.owner.any fun object => state.status object = .freed

def ref (object : Object) : State :=
  let referenced := state.objects object
  state.setObject object {referenced with refCount := int32 (referenced.refCount + 1),referenced := true}

def refAll (ptr : Option Object) : State := ptr.elim state state.ref

def unrefAll (ptr : Option Object) : List Work := ptr.toList.map .unref

/-- `Referenced::unref`: the last one deletes, which destroys the members from the last one on. -/
def unref (object : Object) : State :=
  let referenced := state.objects object
  if referenced.status = .freed then {state with failed := true}
  else
    let left := {referenced with refCount := int32 (referenced.refCount - 1)}
    if referenced.refCount = 1 then
      (state.setObject object {left with status := .dying}).push ((state.members object).reverse.map .destroy ++ [.free object])
    else state.setObject object left

def access (place : Nat) (change : RefPtr → State) : State :=
  match state.refs[place]? with
  | none => {state with failed := true}
  | some ref => if state.lost ref then {state with failed := true} else change ref

/-- The next piece of work; `~Referenced` asserts that the count is 0. -/
def perform : Work → State
  | .unref object => state.unref object
  | .destroy place => state.access place fun ref =>
    (state.setRef place {ref with constructed := false,counted := none}).push (unrefAll ref.ptr ++ [.clear place])
  | .clear place => state.access place fun ref => state.setRef place {ref with ptr := none}
  | .free object =>
    let referenced := state.objects object
    {state.setObject object {referenced with status := .freed} with failed := state.failed || referenced.refCount ≠ 0}
  | .moveIn dst src => state.access src fun source => state.access dst fun target =>
    let moved := state.setRef dst {target with ptr := source.ptr,counted := source.counted}
    match moved.refs[src]? with
    | none => moved
    | some source => moved.setRef src {source with ptr := none,counted := none}

/-- The program can get at the RefPtr: it is constructed, and in a live object if in any. -/
def usable (place : Nat) : Option RefPtr :=
  (state.refs[place]?).filter fun ref => ref.constructed && ref.owner.all fun object => state.status object = .live

def construct (ptr : Option Object) : State := {state with refs := state.refs ++ [⟨none,ptr,true,ptr⟩]}

end State

/-- `new` makes an object with some null members; `construct` is `RefPtr()` and `RefPtr(T*)`.
A converting constructor whose assertion holds does what `copy` or `move` does. -/
inductive Action
  | new (object : Object) (members : Nat)
  | construct (ptr : Option Object)
  | copy (src : Nat)
  | move (src : Nat)
  | copyAssign (dst src : Nat)
  | moveAssign (dst src : Nat)
  | destruct (ref : Nat)
  | ref (object : Object)
  | unref (object : Object)
  | tick
deriving DecidableEq

def call (state : State) : Action → Option State
  | .new object members =>
    if state.status object = .unborn then
      some {state.setObject object ⟨.live,0,0,false⟩ with
        refs := state.refs ++ List.replicate members ⟨some object,none,true,none⟩}
    else none
  | .construct ptr =>
    if ptr.all (fun object => state.status object = .live) then some ((state.construct ptr).refAll ptr) else none
  | .copy src => (state.usable src).map fun source => (state.construct source.ptr).refAll source.ptr
  | .move src => (state.usable src).map fun source =>
    (state.setRef src {source with ptr := none,counted := none}).construct source.ptr
  | .copyAssign dst src => (state.usable src).bind fun source => (state.usable dst).map fun target =>
    if source.ptr = target.ptr then state
    else ((state.setRef dst {target with ptr := source.ptr,counted := source.ptr}).refAll source.ptr).push (State.unrefAll target.ptr)
  | .moveAssign dst src => (state.usable src).bind fun _ => (state.usable dst).map fun target =>
    (state.setRef dst {target with counted := none}).push (State.unrefAll target.ptr ++ [.moveIn dst src])
  | .destruct place => (state.usable place).bind fun ref =>
    if ref.owner = none then
      some ((state.setRef place {ref with constructed := false,counted := none}).push (State.unrefAll ref.ptr ++ [.clear place]))
    else none
  | .ref object =>
    if state.status object = .live then
      let next := state.ref object
      let referenced := next.objects object
      some (next.setObject object {referenced with explicitRefs := referenced.explicitRefs + 1})
    else none
  | .unref object =>
    let referenced := state.objects object
    if 0 < referenced.explicitRefs then
      some ((state.setObject object {referenced with explicitRefs := referenced.explicitRefs - 1}).push [.unref object])
    else none
  | .tick => none

/-- Work that is left is done first, and a failure ends the program. -/
def step (state : State) (action : Action) : Option State :=
  if state.failed then none
  else
    match state.todo with
    | [] => call state action
    | work::rest => if action = .tick then some (State.perform {state with todo := rest} work) else none

/-- The references to the object are all held by objects that go with it, apart from the
one of `dst`: releasing that one deletes it. -/
inductive Doomed (state : State) (dst : Nat) : Object → Prop
  | intro {object : Object} (referenced : 0 < (state.objects object).refCount)
      (unpinned : (state.objects object).explicitRefs = 0)
      (owned : ∀ place ref, place ≠ dst → state.refs[place]? = some ref → ref.constructed = true → ref.ptr = some object →
        ref.owner ≠ none)
      (holders : ∀ place ref owner, place ≠ dst → state.refs[place]? = some ref → ref.constructed = true →
        ref.ptr = some object → ref.owner = some owner → Doomed state dst owner) : Doomed state dst object

def State.shares (state : State) : Action → Option Object
  | .construct ptr => ptr
  | .copy src => (state.refs[src]?).bind RefPtr.ptr
  | .copyAssign _ src => (state.refs[src]?).bind RefPtr.ptr
  | .ref object => some object
  | _ => none

/-- A move assignment releases neither the owner of its target nor that of its source, and
a count does not run over. -/
structure Careful (state : State) (action : Action) : Prop where
  owners : ∀ dst src place ref owner, action = .moveAssign dst src → place = dst ∨ place = src →
    state.refs[place]? = some ref → ref.owner = some owner → ¬Doomed state dst owner
  room : ∀ object, state.shares action = some object → (state.objects object).refCount + 1 < 2 ^ 31

/-- What the users of `RefPtr` rely on. Between calls a count is the number of references,
an object that has been referenced is in its destructor or gone exactly when its count is
0, nothing that is gone is used, and the releases of a call come to an end. -/
structure Sound (state : State) : Prop where
  count : state.todo = [] → ∀ object, (state.objects object).refCount =
    (state.refs.countP fun ref => ref.constructed && decide (ref.ptr = some object)) + (state.objects object).explicitRefs
  deleted : ∀ object, (state.objects object).referenced = true →
    ((state.status object = .dying ∨ state.status object = .freed) ↔ (state.objects object).refCount = 0)
  intact : state.failed = false
  gone : state.todo = [] → ∀ object, state.status object ≠ .dying
  ends : ∃ ticks final, run step state (List.replicate ticks .tick) = some final ∧ final.todo = []

def holds (object : Object) (ref : RefPtr) : Nat := if ref.counted = some object then 1 else 0

def pends (object : Object) (work : Work) : Nat := if work = .unref object then 1 else 0

abbrev State.Has (state : State) (place : Nat) (ref : RefPtr) : Prop := state.refs[place]? = some ref

def State.owner (state : State) (place : Nat) : Option Object := (state.refs[place]?).bind RefPtr.owner

def Before (state : State) : Work → Work → Prop
  | .free object, .destroy place => state.owner place ≠ some object
  | .free object, .clear place => state.owner place ≠ some object
  | .free object, .free other => object ≠ other
  | .destroy place, .destroy other => place ≠ other
  | .moveIn _ _, _ => False
  | _, _ => True

/-- The live objects of the set stay live: each is pinned, or held from the set or from outside of all objects. -/
structure Supported (state : State) (safe : Object → Prop) : Prop where
  live : ∀ object, safe object → state.status object = .live
  held : ∀ object, safe object → (state.objects object).refCount = 0 ∨ 0 < (state.objects object).explicitRefs ∨
    ∃ place, ∃ ref, state.Has place ref ∧ ref.counted = some object ∧ ∀ owner, ref.owner = some owner → safe owner

def Due (state : State) : Work → Prop
  | .unref _ => True
  | .destroy place => ∃ ref, ∃ owner, state.Has place ref ∧ ref.owner = some owner ∧ state.status owner = .dying ∧
      ref.constructed = true ∧ ref.counted = ref.ptr
  | .clear place => ∃ ref, state.Has place ref ∧ ref.constructed = false ∧
      ∀ owner, ref.owner = some owner → state.status owner = .dying
  | .free object => state.status object = .dying
  | .moveIn dst src => ∃ safe, Supported state safe ∧
      (∃ ref, state.Has dst ref ∧ ref.constructed = true ∧ ref.counted = none ∧ ∀ owner, ref.owner = some owner → safe owner) ∧
      ∃ ref, state.Has src ref ∧ ref.constructed = true ∧ ∀ owner, ref.owner = some owner → safe owner

structure Counts (state : State) : Prop where
  count : ∀ object, (state.objects object).refCount =
    total (holds object) state.refs + (state.objects object).explicitRefs + total (pends object) state.todo
  small : ∀ object, (state.objects object).refCount < 2 ^ 31
  dead : ∀ object, state.status object ≠ .live → (state.objects object).refCount = 0
  alive : ∀ object, state.status object = .live → (state.objects object).referenced = true → 0 < (state.objects object).refCount
  referenced : ∀ object, (state.objects object).referenced = true → state.status object ≠ .unborn

structure Inv (state : State) : Prop extends Counts state where
  intact : state.failed = false
  order : state.todo.Pairwise (Before state)
  due : ∀ work ∈ state.todo, Due state work
  dying : ∀ object, state.status object = .dying → .free object ∈ state.todo
  born : ∀ place ref owner, state.Has place ref → ref.owner = some owner → state.status owner ≠ .unborn
  members : ∀ place ref owner, state.Has place ref → ref.owner = some owner → state.status owner = .live →
    ref.constructed = true
  ending : ∀ place ref owner, state.Has place ref → ref.owner = some owner → ref.constructed = true →
    state.status owner ≠ .live → .destroy place ∈ state.todo
  whole : ∀ place ref, state.Has place ref → ref.constructed = true → ref.counted = ref.ptr ∨
    ∃ src, .moveIn place src ∈ state.todo
  destructed : ∀ place ref, state.Has place ref → ref.constructed = false → ref.counted = none

section Facts
variable {state : State} {object : Object}

theorem int32_of_small {value : Int} (low : -2 ^ 31 ≤ value) (high : value < 2 ^ 31) : int32 value = value :=
  Int.bmod_eq_of_le (by omega) (by omega)

theorem Counts.le (counts : Counts state) (object : Object) : 0 ≤ (state.objects object).refCount := by
  rw [counts.count]
  omega

theorem Counts.live (counts : Counts state) (positive : 0 < (state.objects object).refCount) : state.status object = .live := by
  by_contra away
  rw [counts.dead object away] at positive
  exact absurd positive (Int.lt_irrefl 0)

theorem mem_members {place : Nat} : place ∈ state.members object ↔ state.owner place = some object := by
  simp only [State.members,List.mem_map,List.mem_filter,decide_eq_true_eq,State.owner,Option.bind_eq_some_iff]
  constructor
  · rintro ⟨⟨ref,place⟩,⟨member,owner⟩,rfl⟩
    exact ⟨ref,List.mem_zipIdx_iff_getElem?.mp member,owner⟩
  · rintro ⟨ref,found,owner⟩
    exact ⟨(ref,place),⟨List.mem_zipIdx_iff_getElem?.mpr found,owner⟩,rfl⟩

theorem members_nodup (state : State) (object : Object) : (state.members object).Nodup := by
  have all : (state.refs.zipIdx.map Prod.snd).Nodup := by
    rw [List.zipIdx_map_snd]
    exact List.nodup_range'
  exact all.sublist (List.filter_sublist.map Prod.snd)

theorem holds_pos {place : Nat} {ref : RefPtr} (has : state.Has place ref) (counted : ref.counted = some object) :
    0 < total (holds object) state.refs :=
  total_pos_of_mem (List.mem_of_getElem? has) (by simp [holds,counted])

theorem holds_none {ref : RefPtr} (free : ref.counted = none) : holds object ref = 0 := by
  rw [holds,free]
  rfl

theorem holds_counted {ref : RefPtr} (counted : ref.counted = ref.ptr) :
    holds object ref = if ref.ptr = some object then 1 else 0 := by
  rw [holds,counted]

theorem owner_eq {place : Nat} {ref : RefPtr} (has : state.Has place ref) : state.owner place = ref.owner := by
  rw [State.owner,has,Option.bind_some]

theorem setObject_eq (value : Referenced) (other : Object) :
    (state.setObject object value).objects other = if other = object then value else state.objects other :=
  Function.update_apply state.objects object value other

theorem setObject_status (value : Referenced) (other : Object) :
    (state.setObject object value).status other = if other = object then value.status else state.status other := by
  rw [State.status,setObject_eq]
  split <;> rfl

end Facts

section Unref
variable {state : State} {object : Object} {rest : List Work}

theorem Inv.released (inv : Inv state) (todo : state.todo = .unref object::rest) :
    1 ≤ (state.objects object).refCount ∧ state.status object = .live ∧
      total (pends object) state.todo = total (pends object) rest + 1 := by
  have pending : total (pends object) state.todo = total (pends object) rest + 1 := by
    rw [todo,total_cons,Nat.add_comm]
    simp [pends]
  have count := inv.count object
  have positive : 1 ≤ (state.objects object).refCount := by omega
  exact ⟨positive,inv.toCounts.live positive,pending⟩

theorem Inv.spared (inv : Inv state) (todo : state.todo = .unref object::rest) {safe : Object → Prop}
    (supported : Supported state safe) (inside : safe object) : 1 < (state.objects object).refCount := by
  obtain ⟨positive,_,pending⟩ := inv.released todo
  have count := inv.count object
  rcases supported.held object inside with none_ | pinned | ⟨place,ref,has,counted,_⟩
  · omega
  · omega
  · have held := holds_pos has counted
    omega

theorem pends_other {other : Object} (todo : state.todo = .unref object::rest) (different : other ≠ object) :
    total (pends other) state.todo = total (pends other) rest := by
  rw [todo,total_cons]
  simp [pends,Ne.symm different]

theorem Inv.unref_counts (inv : Inv state) (todo : state.todo = .unref object::rest) (status : Status) (more : List Work)
    (last : (state.objects object).refCount = 1 ↔ status = .dying) (else_ : status = .dying ∨ status = .live)
    (quiet : ∀ other, total (pends other) more = 0) :
    Counts {state.setObject object {state.objects object with refCount := (state.objects object).refCount - 1,status} with
      todo := more ++ rest} := by
  obtain ⟨positive,live,pending⟩ := inv.released todo
  have before := inv.count object
  have small := inv.small object
  constructor
  · intro other
    simp only [setObject_eq,total_append,quiet,Nat.zero_add]
    split
    next same =>
      subst same
      simp only [State.setObject]
      omega
    next different =>
      rw [← pends_other todo different]
      exact inv.count other
  · intro other
    simp only [setObject_eq]
    split
    · simp only
      omega
    · exact inv.small other
  · intro other away
    simp only [State.status,setObject_eq] at away ⊢
    split at away
    next same =>
      have gone := last.mpr (else_.resolve_right away)
      rw [if_pos same]
      simp only
      omega
    next different =>
      rw [if_neg different]
      exact inv.dead other away
  · intro other alive referenced
    simp only [State.status,setObject_eq] at alive referenced ⊢
    split at alive
    next same =>
      have stays : (state.objects object).refCount ≠ 1 := fun one => by
        cases alive.symm.trans (last.mp one)
      rw [if_pos same]
      simp only
      omega
    next different =>
      rw [if_neg different] at referenced ⊢
      exact inv.alive other alive referenced
  · intro other referenced
    simp only [State.status,setObject_eq] at referenced ⊢
    split
    next same =>
      rcases else_ with dying | live <;> simp_all
    next different =>
      rw [if_neg different] at referenced
      exact inv.referenced other referenced

theorem Due.after {next : State} {work : Work} (due : Due state work) (refs : next.refs = state.refs)
    (dying : ∀ other, state.status other = .dying → next.status other = .dying)
    (supported : ∀ safe, Supported state safe → Supported next safe) : Due next work := by
  have same (place : Nat) (ref : RefPtr) : next.Has place ref ↔ state.Has place ref := by
    rw [State.Has,refs]
  cases work with
  | unref => trivial
  | free object => exact dying object due
  | destroy place =>
    obtain ⟨ref,owner,has,owned,ending,built,counted⟩ := due
    exact ⟨ref,owner,(same place ref).mpr has,owned,dying owner ending,built,counted⟩
  | clear place =>
    obtain ⟨ref,has,ended,ending⟩ := due
    exact ⟨ref,(same place ref).mpr has,ended,fun owner owned => dying owner (ending owner owned)⟩
  | moveIn dst src =>
    obtain ⟨safe,supports,⟨target,hasDst,dst⟩,source,hasSrc,src⟩ := due
    exact ⟨safe,supported safe supports,⟨target,(same _ _).mpr hasDst,dst⟩,source,(same _ _).mpr hasSrc,src⟩

theorem mem_rest {work other : Work} (todo : state.todo = work::rest) (inside : other ∈ state.todo) (different : other ≠ work) :
    other ∈ rest := by
  rw [todo] at inside
  exact (List.mem_cons.mp inside).resolve_left different

theorem Inv.decrement (inv : Inv state) (todo : state.todo = .unref object::rest) (more : (state.objects object).refCount ≠ 1) :
    Inv {state.setObject object {state.objects object with refCount := (state.objects object).refCount - 1} with todo := rest} := by
  obtain ⟨positive,live,_⟩ := inv.released todo
  have counts := inv.unref_counts todo .live [] (by simp [more]) (.inr rfl) fun _ => rfl
  have same : (⟨(state.objects object).status,(state.objects object).refCount - 1,(state.objects object).explicitRefs,
      (state.objects object).referenced⟩ : Referenced) =
      {state.objects object with refCount := (state.objects object).refCount - 1,status := .live} := by
    rw [← live]
    rfl
  rw [same]
  have status (other : Object) : (state.setObject object {state.objects object with
      refCount := (state.objects object).refCount - 1,status := .live}).status other = state.status other := by
    rw [setObject_status]
    split
    next equal => rw [equal,live]
    next => rfl
  have order := inv.order
  rw [todo] at order
  constructor
  · exact counts
  · exact inv.intact
  · exact (List.pairwise_cons.mp order).2
  · intro work inside
    refine (inv.due work (todo ▸ List.mem_cons_of_mem _ inside)).after rfl (fun other ending => (status other).trans ending) fun safe supported => ?_
    refine ⟨fun other within => (status other).trans (supported.live other within),fun other within => ?_⟩
    have held := supported.held other within
    simp only [setObject_eq]
    split
    next equal =>
      subst equal
      exact held.imp_left fun none_ => absurd (inv.spared todo supported within) (by omega)
    next => exact held
  · exact fun other ending => mem_rest todo (inv.dying other ((status other).symm.trans ending)) nofun
  · exact fun place ref owner has owned unborn => inv.born place ref owner has owned ((status owner).symm.trans unborn)
  · exact fun place ref owner has owned alive => inv.members place ref owner has owned ((status owner).symm.trans alive)
  · exact fun place ref owner has owned built away => mem_rest todo (inv.ending place ref owner has owned built
      fun alive => away ((status owner).trans alive)) nofun
  · exact fun place ref has built => (inv.whole place ref has built).imp_right fun ⟨src,inside⟩ => ⟨src,mem_rest todo inside nofun⟩
  · exact inv.destructed

theorem Inv.delete (inv : Inv state) (todo : state.todo = .unref object::rest) (last : (state.objects object).refCount = 1) :
    Inv {state.setObject object {state.objects object with refCount := (state.objects object).refCount - 1,status := .dying} with
      todo := ((state.members object).reverse.map Work.destroy ++ [Work.free object]) ++ rest} := by
  obtain ⟨positive,live,_⟩ := inv.released todo
  have quiet (other : Object) : total (pends other) ((state.members object).reverse.map Work.destroy ++ [Work.free object]) = 0 := by
    rw [total_eq_zero]
    intro work inside
    rcases List.mem_append.mp inside with inside | inside
    · obtain ⟨place,_,rfl⟩ := List.mem_map.mp inside
      rfl
    · rw [List.mem_singleton.mp inside]
      rfl
  have counts := inv.unref_counts todo .dying _ (by simp [last]) (.inl rfl) quiet
  have status (other : Object) : (state.setObject object {state.objects object with
      refCount := (state.objects object).refCount - 1,status := .dying}).status other =
        if other = object then .dying else state.status other := setObject_status _ other
  have away {other : Object} (apart : state.status other ≠ .live) : other ≠ object := fun same => apart (same ▸ live)
  have dying {other : Object} (ending : state.status other = .dying) : other ≠ object := away (by rw [ending]; exact nofun)
  have keeps {other : Object} (kept : state.status other ≠ .live) := (status other).trans (if_neg (away kept))
  have order := inv.order
  rw [todo] at order
  have later := (List.pairwise_cons.mp order).2
  have inside_ {work : Work} (inside : work ∈ rest) := inv.due work (todo ▸ List.mem_cons_of_mem _ inside)
  have outside {place : Nat} {ref : RefPtr} {owner : Object} (has : state.Has place ref) (owned : ref.owner = some owner)
      (ending : state.status owner = .dying) : state.owner place ≠ some object := fun same => by
    rw [owner_eq has,owned] at same
    exact dying ending (Option.some.inj same)
  constructor
  · exact counts
  · exact inv.intact
  · refine List.pairwise_append.mpr ⟨List.pairwise_append.mpr ⟨?_,List.pairwise_singleton _ _,?_⟩,later,?_⟩
    · rw [List.pairwise_map]
      exact List.nodup_reverse.mpr (members_nodup state object)
    · intro first inside second last
      obtain ⟨place,_,rfl⟩ := List.mem_map.mp inside
      rw [List.mem_singleton.mp last]
      trivial
    · intro first inside second last
      have due := inside_ last
      rcases List.mem_append.mp inside with inside | inside
      · obtain ⟨place,member,rfl⟩ := List.mem_map.mp inside
        cases second with
        | destroy other =>
          obtain ⟨ref,owner,has,owned,ending,_⟩ := due
          intro same
          exact outside has owned ending (same ▸ mem_members.mp (List.mem_reverse.mp member))
        | _ => trivial
      · rw [List.mem_singleton.mp inside]
        cases second with
        | destroy other =>
          obtain ⟨ref,owner,has,owned,ending,_⟩ := due
          exact outside has owned ending
        | clear other =>
          obtain ⟨ref,has,_,ending⟩ := due
          intro same
          exact outside has ((owner_eq has).symm.trans same) (ending object ((owner_eq has).symm.trans same)) same
        | free other => exact (dying due).symm
        | _ => trivial
  · intro work inside
    rcases List.mem_append.mp inside with inside | inside
    · rcases List.mem_append.mp inside with inside | inside
      · obtain ⟨place,member,rfl⟩ := List.mem_map.mp inside
        obtain ⟨ref,has,owned⟩ := Option.bind_eq_some_iff.mp (mem_members.mp (List.mem_reverse.mp member))
        have built := inv.members place ref object has owned live
        refine ⟨ref,object,has,owned,(status object).trans (if_pos rfl),built,?_⟩
        refine (inv.whole place ref has built).resolve_right fun ⟨src,moving⟩ => ?_
        obtain ⟨safe,supported,⟨target,hasDst,_,_,kept⟩,_⟩ := inv.due _ moving
        have same := Option.some.inj (hasDst.symm.trans has)
        have spared := inv.spared todo supported (kept object (same ▸ owned))
        omega
      · rw [List.mem_singleton.mp inside]
        exact (status object).trans (if_pos rfl)
    · refine (inside_ inside).after rfl (fun other ending => (keeps (by rw [ending]; exact nofun)).trans ending) fun safe supported => ?_
      have spared {other : Object} (within : safe other) : other ≠ object := fun same => by
        have more := inv.spared todo supported (same ▸ within)
        omega
      refine ⟨fun other within => ?_,fun other within => ?_⟩
      · exact ((status other).trans (if_neg (spared within))).trans (supported.live other within)
      · simp only [setObject_eq,if_neg (spared within)]
        exact supported.held other within
  · intro other ending
    by_cases same : other = object
    · exact List.mem_append_left _ (List.mem_append_right _ (List.mem_singleton.mpr (same ▸ rfl)))
    · have before : state.status other = .dying := ((status other).trans (if_neg same)).symm.trans ending
      exact List.mem_append_right _ (mem_rest todo (inv.dying other before) nofun)
  · intro place ref owner has owned unborn
    by_cases same : owner = object
    · cases ((status owner).trans (if_pos same)).symm.trans unborn
    · exact inv.born place ref owner has owned (((status owner).trans (if_neg same)).symm.trans unborn)
  · intro place ref owner has owned alive
    by_cases same : owner = object
    · cases ((status owner).trans (if_pos same)).symm.trans alive
    · exact inv.members place ref owner has owned (((status owner).trans (if_neg same)).symm.trans alive)
  · intro place ref owner has owned built gone
    by_cases same : owner = object
    · refine List.mem_append_left _ (List.mem_append_left _ (List.mem_map_of_mem (List.mem_reverse.mpr (mem_members.mpr ?_))))
      exact (owner_eq (show state.Has place ref from has)).trans (owned.trans (congrArg some same))
    · refine List.mem_append_right _ (mem_rest todo (inv.ending place ref owner has owned built fun alive => gone ?_) nofun)
      exact ((status owner).trans (if_neg same)).trans alive
  · exact fun place ref has built => (inv.whole place ref has built).imp_right fun ⟨src,moving⟩ =>
      ⟨src,List.mem_append_right _ (mem_rest todo moving nofun)⟩
  · exact inv.destructed

theorem Inv.unref (inv : Inv state) (todo : state.todo = .unref object::rest) :
    Inv (State.perform {state with todo := rest} (.unref object)) := by
  obtain ⟨positive,live,_⟩ := inv.released todo
  have small := inv.small object
  have there : (state.objects object).status ≠ .freed := by
    rw [show (state.objects object).status = .live from live]
    exact nofun
  have wrapped : int32 ((state.objects object).refCount - 1) = (state.objects object).refCount - 1 :=
    int32_of_small (by omega) (by omega)
  simp only [State.perform,State.unref,if_neg there,wrapped]
  split
  next last => exact inv.delete todo last
  next more => exact inv.decrement todo more

end Unref

section Members
variable {state : State} {object : Object} {rest : List Work} {place : Nat} {old value : RefPtr}

theorem has_setRef (has : state.Has place old) (value : RefPtr) (other : Nat) (ref : RefPtr) :
    (state.setRef place value).Has other ref ↔ if other = place then ref = value else state.Has other ref := by
  have bound := (List.getElem?_eq_some_iff.mp has).1
  simp only [State.Has,State.setRef,List.getElem?_set]
  by_cases same : other = place
  · simp [same,bound,eq_comm]
  · simp [same,Ne.symm same]

theorem owner_setRef (has : state.Has place old) (value : RefPtr) (owner : value.owner = old.owner) (other : Nat) :
    (state.setRef place value).owner other = state.owner other := by
  have bound := (List.getElem?_eq_some_iff.mp has).1
  by_cases same : other = place
  · rw [same,owner_eq has,owner_eq ((has_setRef has value place value).mpr (by rw [if_pos rfl])),owner]
  · simp [State.owner,State.setRef,Ne.symm same]

theorem Before.congr {next : State} {first second : Work} (before : Before state first second)
    (same : ∀ place, next.owner place = state.owner place) : Before next first second := by
  cases first <;> cases second <;> simp_all [Before]

theorem access_eq (has : state.Has place old) (there : ∀ owner, old.owner = some owner → state.status owner ≠ .freed)
    (change : RefPtr → State) : state.access place change = change old := by
  have kept : state.lost old = false := by
    rw [State.lost]
    cases owned : old.owner with
    | none => rfl
    | some owner => exact decide_eq_false (there owner owned)
  rw [State.access,has]
  simp [kept]

theorem Inv.free (inv : Inv state) (todo : state.todo = .free object::rest) :
    Inv (State.perform {state with todo := rest} (.free object)) := by
  have dying : Due state (.free object) := inv.due _ (todo ▸ List.mem_cons_self)
  change state.status object = .dying at dying
  have zero := inv.dead object (by rw [dying]; exact nofun)
  have order := inv.order
  rw [todo] at order
  obtain ⟨first,later⟩ := List.pairwise_cons.mp order
  have status (other : Object) : (state.setObject object {state.objects object with status := .freed}).status other =
      if other = object then .freed else state.status other := setObject_status _ other
  have keeps {other : Object} (different : other ≠ object) := (status other).trans (if_neg different)
  have quiet (other : Object) : total (pends other) rest = total (pends other) state.todo := by
    rw [todo,total_cons]
    simp [pends]
  have alive {other : Object} (live : state.status other = .live) : other ≠ object := fun same => by
    cases (same ▸ live).symm.trans dying
  have before {other : Object} {status_ : Status} (now : (state.setObject object {state.objects object with
      status := .freed}).status other = status_) (different : status_ ≠ .freed) : other ≠ object ∧ state.status other = status_ := by
    have apart : other ≠ object := fun same => different (((status other).trans (if_pos same)).symm.trans now).symm
    exact ⟨apart,(keeps apart).symm.trans now⟩
  constructor
  · constructor
    · intro other
      have count := inv.count other
      rw [← quiet] at count
      simp only [State.perform,setObject_eq]
      split
      next same =>
        subst same
        exact count
      next => exact count
    · intro other
      simp only [State.perform,setObject_eq]
      split
      next same => exact inv.small object
      next => exact inv.small other
    · intro other away
      simp only [State.perform,setObject_eq]
      split
      next => exact zero
      next different => exact inv.dead other fun live => away ((keeps different).trans live)
    · intro other live referenced
      obtain ⟨different,was⟩ := before live nofun
      simp only [State.perform,setObject_eq,if_neg different] at referenced ⊢
      exact inv.alive other was referenced
    · intro other referenced unborn
      obtain ⟨different,was⟩ := before unborn nofun
      simp only [State.perform,setObject_eq,if_neg different] at referenced
      exact inv.referenced other referenced was
  · simp [State.perform,inv.intact,zero]
  · exact later
  · intro work inside
    have due := inv.due work (todo ▸ List.mem_cons_of_mem _ inside)
    have apart := first work inside
    have still {other : Object} {ref : RefPtr} {place : Nat} (has : state.Has place ref) (owned : ref.owner = some other)
        (unowned : state.owner place ≠ some object) (ending : state.status other = .dying) :=
      (keeps fun same => unowned ((owner_eq has).trans (owned.trans (congrArg some same)))).trans ending
    cases work with
    | unref => trivial
    | free other => exact (keeps (Ne.symm apart)).trans due
    | destroy other =>
      obtain ⟨ref,owner,has,owned,ending,built,counted⟩ := due
      exact ⟨ref,owner,has,owned,still has owned apart ending,built,counted⟩
    | clear other =>
      obtain ⟨ref,has,ended,ending⟩ := due
      exact ⟨ref,has,ended,fun owner owned => still has owned apart (ending owner owned)⟩
    | moveIn dst src =>
      obtain ⟨safe,supported,held⟩ := due
      refine ⟨safe,⟨fun other within => ?_,fun other within => ?_⟩,held⟩
      · exact (keeps (alive (supported.live other within))).trans (supported.live other within)
      · simp only [State.perform,setObject_eq,if_neg (alive (supported.live other within))]
        exact supported.held other within
  · intro other ending
    obtain ⟨different,was⟩ := before ending nofun
    exact mem_rest todo (inv.dying other was) fun same => different (Work.free.inj same)
  · intro place ref owner has owned unborn
    exact inv.born place ref owner has owned (before unborn nofun).2
  · intro place ref owner has owned live
    exact inv.members place ref owner has owned (before live nofun).2
  · intro place ref owner has owned built away
    refine mem_rest todo (inv.ending place ref owner has owned built fun live => away ?_) nofun
    exact (keeps (alive live)).trans live
  · exact fun place ref has built => (inv.whole place ref has built).imp_right fun ⟨src,moving⟩ => ⟨src,mem_rest todo moving nofun⟩
  · exact inv.destructed

theorem Due.set {next : State} {work : Work} (due : Due state work) (has : state.Has place old)
    (refs : next.refs = (state.setRef place value).refs) (objects : next.objects = state.objects)
    (owner : value.owner = old.owner) (ended : value.constructed = false)
    (idle : old.constructed = false ∧ old.counted = none ∨ ∃ owner, old.owner = some owner ∧ state.status owner ≠ .live)
    (apart : ∀ other, work = .destroy other → other ≠ place) : Due next work := by
  have now (other : Nat) (ref : RefPtr) : next.Has other ref ↔ if other = place then ref = value else state.Has other ref := by
    rw [State.Has,refs]
    exact has_setRef has value other ref
  have status (other : Object) : next.status other = state.status other := by rw [State.status,objects]; rfl
  cases work with
  | unref => trivial
  | free object => exact (status object).trans due
  | destroy other =>
    obtain ⟨ref,holder,found,owned,ending,built,counted⟩ := due
    exact ⟨ref,holder,(now other ref).mpr (by rwa [if_neg (apart other rfl)]),owned,(status holder).trans ending,built,counted⟩
  | clear other =>
    obtain ⟨ref,found,done,ending⟩ := due
    by_cases same : other = place
    · subst same
      obtain rfl := Option.some.inj (found.symm.trans has)
      refine ⟨value,(now other value).mpr (by rw [if_pos rfl]),ended,fun holder owned => ?_⟩
      exact (status holder).trans (ending holder (owner.symm.trans owned))
    · exact ⟨ref,(now other ref).mpr (by rwa [if_neg same]),done,fun holder owned => (status holder).trans (ending holder owned)⟩
  | moveIn dst src =>
    obtain ⟨safe,supported,⟨target,hasDst,builtDst,uncounted,keptDst⟩,source,hasSrc,builtSrc,keptSrc⟩ := due
    have away {other : Nat} {ref : RefPtr} (found : state.Has other ref) (used : ref.constructed = true ∨ ref.counted ≠ none)
        (kept : ∀ owner, ref.owner = some owner → safe owner) : next.Has other ref := by
      refine (now other ref).mpr ?_
      rwa [if_neg fun same => ?_]
      subst same
      obtain rfl := Option.some.inj (found.symm.trans has)
      rcases idle with ⟨done,free⟩ | ⟨holder,owned,gone⟩
      · simp [done,free] at used
      · exact gone (supported.live holder (kept holder owned))
    refine ⟨safe,⟨fun object within => (status object).trans (supported.live object within),fun object within => ?_⟩,
      ⟨target,away hasDst (.inl builtDst) keptDst,builtDst,uncounted,keptDst⟩,source,away hasSrc (.inl builtSrc) keptSrc,builtSrc,keptSrc⟩
    rw [objects]
    refine (supported.held object within).imp_right (Or.imp_right fun ⟨holder,ref,found,counted,kept⟩ => ?_)
    exact ⟨holder,ref,away found (.inr (by rw [counted]; exact nofun)) kept,counted,kept⟩

theorem Inv.clear (inv : Inv state) (todo : state.todo = .clear place::rest) :
    Inv (State.perform {state with todo := rest} (.clear place)) := by
  obtain ⟨old,has,ended,ending⟩ : Due state (.clear place) := inv.due _ (todo ▸ List.mem_cons_self)
  have free := inv.destructed place old has ended
  have there (owner : Object) (owned : old.owner = some owner) : state.status owner ≠ .freed := by
    rw [ending owner owned]
    exact nofun
  have performed : State.perform {state with todo := rest} (.clear place) =
      {state with refs := state.refs.set place {old with ptr := none},todo := rest} := @access_eq {state with todo := rest} place old has there _
  rw [performed]
  have now := has_setRef has {old with ptr := none}
  have owners := owner_setRef has {old with ptr := none} rfl
  have order := inv.order
  rw [todo] at order
  constructor
  · refine ⟨fun object => ?_,inv.small,inv.dead,inv.alive,inv.referenced⟩
    have count := inv.count object
    have moved := total_set (holds object) {old with ptr := none} has
    have done : pends object (.clear place) = 0 := rfl
    rw [holds_none free,@holds_none object {old with ptr := none} free] at moved
    rw [todo,total_cons,done,Nat.zero_add] at count
    dsimp only
    omega
  · exact inv.intact
  · exact (List.pairwise_cons.mp order).2.imp fun before => before.congr owners
  · intro work inside
    refine (inv.due work (todo ▸ List.mem_cons_of_mem _ inside)).set has rfl rfl rfl ended (.inl ⟨ended,free⟩) fun other same => ?_
    rintro rfl
    obtain ⟨ref,_,found,_,_,built,_⟩ : Due state (.destroy other) := inv.due _ (same ▸ todo ▸ List.mem_cons_of_mem _ inside)
    rw [Option.some.inj (found.symm.trans has),ended] at built
    cases built
  · exact fun object dying => mem_rest todo (inv.dying object dying) nofun
  · intro other ref owner found owned
    rcases (now other ref).mp found with found
    split at found
    next same =>
      rw [found] at owned
      exact inv.born place old owner has owned
    next => exact inv.born other ref owner found owned
  · intro other ref owner found owned live
    rcases (now other ref).mp found with found
    split at found
    next same =>
      rw [found] at owned ⊢
      exact inv.members place old owner has owned live
    next => exact inv.members other ref owner found owned live
  · intro other ref owner found owned built away
    rcases (now other ref).mp found with found
    split at found
    next same =>
      rw [found] at built
      cases ended.symm.trans built
    next => exact mem_rest todo (inv.ending other ref owner found owned built away) nofun
  · intro other ref found built
    rcases (now other ref).mp found with found
    split at found
    next same =>
      rw [found] at built
      cases ended.symm.trans built
    next => exact (inv.whole other ref found built).imp_right fun ⟨src,moving⟩ => ⟨src,mem_rest todo moving nofun⟩
  · intro other ref found done
    rcases (now other ref).mp found with found
    split at found
    next same => exact found ▸ free
    next => exact inv.destructed other ref found done

theorem total_unrefAll (object : Object) (ptr : Option Object) :
    total (pends object) (State.unrefAll ptr) = if ptr = some object then 1 else 0 := by
  cases ptr with
  | none => rfl
  | some other => simp [State.unrefAll,pends]

theorem mem_unrefAll {work : Work} {ptr : Option Object} (inside : work ∈ State.unrefAll ptr) : ∃ object, work = .unref object := by
  obtain ⟨object,_,rfl⟩ := List.mem_map.mp inside
  exact ⟨object,rfl⟩

theorem Inv.destructing (inv : Inv state) (has : state.Has place old) (counted : old.counted = old.ptr)
    (todo : state.todo = .destroy place::rest ∨ state.todo = [] ∧ rest = [] ∧ old.owner = none) :
    Inv {state with
      refs := state.refs.set place {old with constructed := false,counted := none}
      todo := (State.unrefAll old.ptr ++ [Work.clear place]) ++ rest} := by
  have now := has_setRef has {old with constructed := false,counted := none}
  have owners := owner_setRef has {old with constructed := false,counted := none} rfl
  have kept {work : Work} (inside : work ∈ state.todo) (different : work ≠ .destroy place) : work ∈ rest := by
    rcases todo with todo | ⟨todo,_⟩
    · exact mem_rest todo inside different
    · rw [todo] at inside
      cases inside
  have before {work : Work} (inside : work ∈ rest) : work ∈ state.todo ∧ state.todo = .destroy place::rest := by
    rcases todo with todo | ⟨_,none_,_⟩
    · exact ⟨todo ▸ List.mem_cons_of_mem _ inside,todo⟩
    · rw [none_] at inside
      cases inside
  have order : rest.Pairwise (Before state) := by
    have order := inv.order
    rcases todo with todo | ⟨_,none_,_⟩
    · rw [todo] at order
      exact (List.pairwise_cons.mp order).2
    · exact none_ ▸ List.Pairwise.nil
  have ending (owner : Object) (owned : old.owner = some owner) : state.status owner = .dying := by
    rcases todo with todo | ⟨_,_,unowned⟩
    · obtain ⟨ref,holder,found,held,dying,_⟩ : Due state (.destroy place) := inv.due _ (todo ▸ List.mem_cons_self)
      obtain rfl := Option.some.inj (found.symm.trans has)
      rwa [Option.some.inj (owned.symm.trans held)]
    · cases unowned.symm.trans owned
  have early {work : Work} (inside : work ∈ State.unrefAll old.ptr ++ [Work.clear place]) :
      (∃ object, work = .unref object) ∨ work = .clear place :=
    (List.mem_append.mp inside).imp mem_unrefAll List.mem_singleton.mp
  have free {first second : Work} (inside : first ∈ State.unrefAll old.ptr ++ [Work.clear place]) (next : State) :
      Before next first second := by
    rcases early inside with ⟨object,rfl⟩ | rfl <;> cases second <;> trivial
  constructor
  · refine ⟨fun object => ?_,inv.small,inv.dead,inv.alive,inv.referenced⟩
    have count := inv.count object
    have moved := total_set (holds object) {old with constructed := false,counted := none} has
    have pending : total (pends object) state.todo = total (pends object) rest := by
      rcases todo with todo | ⟨todo,none_,_⟩
      · rw [todo,total_cons]
        simp [pends]
      · rw [todo,none_]
    have clear : pends object (.clear place) = 0 := rfl
    rw [holds_counted counted,@holds_none object {old with constructed := false,counted := none} rfl] at moved
    rw [pending] at count
    simp only [total_append,total_unrefAll,total_cons,total_nil,clear]
    omega
  · exact inv.intact
  · refine List.pairwise_append.mpr ⟨?_,order.imp fun before => before.congr owners,fun first inside second _ => free inside _⟩
    exact List.pairwise_of_forall_mem_list fun first inside second _ => free inside _
  · intro work inside
    rcases List.mem_append.mp inside with soon | later
    · rcases early soon with ⟨object,rfl⟩ | rfl
      · trivial
      · exact ⟨{old with constructed := false,counted := none},(now place _).mpr (by rw [if_pos rfl]),rfl,ending⟩
    · obtain ⟨listed,todo⟩ := before later
      have order := inv.order
      rw [todo] at order
      obtain ⟨ref,holder,found,held,dying,_⟩ : Due state (.destroy place) := inv.due _ (todo ▸ List.mem_cons_self)
      obtain rfl := Option.some.inj (found.symm.trans has)
      refine (inv.due work listed).set has rfl rfl rfl rfl (.inr ⟨holder,held,by rw [dying]; exact nofun⟩) fun other same => ?_
      have apart := (List.pairwise_cons.mp order).1 work later
      rw [same] at apart
      exact Ne.symm apart
  · exact fun object dying => List.mem_append_right _ (kept (inv.dying object dying) nofun)
  · intro other ref owner found owned
    rcases (now other ref).mp found with found
    split at found
    next same =>
      rw [found] at owned
      exact inv.born place old owner has owned
    next => exact inv.born other ref owner found owned
  · intro other ref owner found owned live
    rcases (now other ref).mp found with found
    split at found
    next same =>
      rw [found] at owned
      cases (ending owner owned).symm.trans live
    next => exact inv.members other ref owner found owned live
  · intro other ref owner found owned built away
    rcases (now other ref).mp found with found
    split at found
    next same =>
      rw [found] at built
      cases built
    next different =>
      exact List.mem_append_right _ (kept (inv.ending other ref owner found owned built away) fun same =>
        different (Work.destroy.inj same))
  · intro other ref found built
    rcases (now other ref).mp found with found
    split at found
    next same =>
      rw [found] at built
      cases built
    next => exact (inv.whole other ref found built).imp_right fun ⟨src,moving⟩ => ⟨src,List.mem_append_right _ (kept moving nofun)⟩
  · intro other ref found done
    rcases (now other ref).mp found with found
    split at found
    next same => exact found ▸ rfl
    next => exact inv.destructed other ref found done

theorem Inv.destroy (inv : Inv state) (todo : state.todo = .destroy place::rest) :
    Inv (State.perform {state with todo := rest} (.destroy place)) := by
  obtain ⟨old,owner,has,owned,dying,_,counted⟩ : Due state (.destroy place) := inv.due _ (todo ▸ List.mem_cons_self)
  have there (holder : Object) (held : old.owner = some holder) : state.status holder ≠ .freed := by
    rw [Option.some.inj (held.symm.trans owned),dying]
    exact nofun
  have performed : State.perform {state with todo := rest} (.destroy place) = {state with
      refs := state.refs.set place {old with constructed := false,counted := none}
      todo := (State.unrefAll old.ptr ++ [Work.clear place]) ++ rest} := @access_eq {state with todo := rest} place old has there _
  rw [performed]
  exact inv.destructing has counted (.inl todo)

end Members

structure Calm (state : State) : Prop where
  quiet : ∀ object, state.status object ≠ .dying
  ended : ∀ place ref, state.Has place ref → ref.constructed = false → ref.counted = none
  owned : ∀ place ref owner, state.Has place ref → ref.owner = some owner →
    state.status owner ≠ .unborn ∧ (state.status owner = .live ↔ ref.constructed = true)

section Calls
variable {state next : State}

theorem Inv.calm (inv : Inv state) (late : ∀ work ∈ state.todo, ∃ dst src, work = .moveIn dst src) : Calm state where
  quiet := fun object dying => by
    obtain ⟨_,_,same⟩ := late _ (inv.dying object dying)
    cases same
  ended := inv.destructed
  owned := fun place ref owner has owned => by
    refine ⟨inv.born place ref owner has owned,inv.members place ref owner has owned,fun built => ?_⟩
    by_contra away
    obtain ⟨_,_,same⟩ := late _ (inv.ending place ref owner has owned built away)
    cases same

theorem Calm.inv (calm : Calm state) (counts : Counts state) (intact : state.failed = false)
    (order : state.todo.Pairwise (Before state)) (due : ∀ work ∈ state.todo, Due state work)
    (whole : ∀ place ref, state.Has place ref → ref.constructed = true → ref.counted = ref.ptr ∨
      ∃ src, .moveIn place src ∈ state.todo) : Inv state where
  toCounts := counts
  intact := intact
  order := order
  due := due
  dying := fun object dying => absurd dying (calm.quiet object)
  born := fun place ref owner has owned => (calm.owned place ref owner has owned).1
  members := fun place ref owner has owned => (calm.owned place ref owner has owned).2.mp
  ending := fun place ref owner has owned built away => absurd ((calm.owned place ref owner has owned).2.mpr built) away
  whole := whole
  destructed := calm.ended

theorem Calm.idle (calm : Calm state) (counts : Counts state) (intact : state.failed = false) (todo : state.todo = [])
    (whole : ∀ place ref, state.Has place ref → ref.constructed = true → ref.counted = ref.ptr) : Inv state := by
  refine calm.inv counts intact ?_ (fun work inside => ?_) fun place ref has built => .inl (whole place ref has built)
  · rw [todo]
    exact List.Pairwise.nil
  · rw [todo] at inside
    cases inside

theorem Calm.change (calm : Calm state) (status : ∀ object, next.status object = state.status object)
    (refs : ∀ place ref, next.Has place ref → (ref.constructed = false → ref.counted = none) ∧
      (ref.owner = none ∨ ∃ old, state.Has place old ∧ ref.owner = old.owner ∧ ref.constructed = old.constructed)) : Calm next where
  quiet := fun object dying => calm.quiet object ((status object).symm.trans dying)
  ended := fun place ref has => (refs place ref has).1
  owned := fun place ref owner has owned => by
    rcases (refs place ref has).2 with free | ⟨old,was,owner_,built⟩
    · cases free.symm.trans owned
    · rw [status,built]
      exact calm.owned place old owner was (owner_.symm.trans owned)

theorem Inv.moveIn {dst src : Nat} {rest : List Work} (inv : Inv state) (todo : state.todo = .moveIn dst src::rest) :
    Inv (State.perform {state with todo := rest} (.moveIn dst src)) := by
  obtain ⟨safe,supported,⟨target,hasDst,builtDst,free,keptDst⟩,source,hasSrc,builtSrc,keptSrc⟩ : Due state (.moveIn dst src) :=
    inv.due _ (todo ▸ List.mem_cons_self)
  obtain rfl : rest = [] := by
    have order := inv.order
    rw [todo] at order
    cases rest with
    | nil => rfl
    | cons work rest => exact ((List.pairwise_cons.mp order).1 work List.mem_cons_self).elim
  have only {work : Work} (inside : work ∈ state.todo) : work = .moveIn dst src := by
    rw [todo] at inside
    exact List.mem_singleton.mp inside
  have there {ref : RefPtr} (kept : ∀ owner, ref.owner = some owner → safe owner) (owner : Object)
      (owned : ref.owner = some owner) : state.status owner ≠ .freed := by
    rw [supported.live owner (kept owner owned)]
    exact nofun
  have calm := inv.calm fun work inside => ⟨dst,src,only inside⟩
  have performed : ∃ refs : List RefPtr, State.perform {state with todo := []} (.moveIn dst src) = {state with refs,todo := []} ∧
      (∀ object, total (holds object) refs = total (holds object) state.refs) ∧
        ∀ place ref, refs[place]? = some ref → (ref.counted = ref.ptr ∨ ref.constructed = false) ∧
          (ref.constructed = false → ref.counted = none) ∧
            ∃ old, state.Has place old ∧ ref.owner = old.owner ∧ ref.constructed = old.constructed := by
    have first := @access_eq {state with todo := []} src source hasSrc (there keptSrc)
    have second := @access_eq {state with todo := []} dst target hasDst (there keptDst)
    have now := has_setRef hasDst {target with ptr := source.ptr,counted := source.counted}
    have plain (place : Nat) (ref : RefPtr) (has : state.Has place ref) (elsewhere : place ≠ dst) :
        ref.counted = ref.ptr ∨ ref.constructed = false := by
      by_cases built : ref.constructed = true
      · refine (inv.whole place ref has built).imp_right fun ⟨other,moving⟩ => ?_
        exact absurd (Work.moveIn.inj (only moving)).1 elsewhere
      · exact .inr (Bool.eq_false_iff.mpr built)
    obtain ⟨last,hasLast,owner,built,counted⟩ : ∃ last,
        (state.setRef dst {target with ptr := source.ptr,counted := source.counted}).Has src last ∧ last.owner = source.owner ∧
          last.constructed = true ∧ (src = dst ∨ last = source) := by
      by_cases same : src = dst
      · subst same
        obtain rfl := Option.some.inj (hasSrc.symm.trans hasDst)
        exact ⟨_,(now src _).mpr (by rw [if_pos rfl]),rfl,builtSrc,.inl rfl⟩
      · exact ⟨source,(now src source).mpr (by rwa [if_neg same]),rfl,builtSrc,.inr rfl⟩
    have after := has_setRef hasLast {last with ptr := none,counted := none}
    refine ⟨(state.refs.set dst {target with ptr := source.ptr,counted := source.counted}).set src
      {last with ptr := none,counted := none},?_,fun object => ?_,fun place ref found => ?_⟩
    · rw [State.perform,first,second]
      simp only [State.setRef] at hasLast ⊢
      rw [hasLast]
    · have one := total_set (holds object) {target with ptr := source.ptr,counted := source.counted} hasDst
      have other := total_set (holds object) {last with ptr := none,counted := none} hasLast
      have same : holds object last = holds object source := by
        rcases counted with same | same
        · obtain rfl := Option.some.inj (hasSrc.symm.trans (same ▸ hasDst))
          have equal := (now src last).mp hasLast
          rw [if_pos same] at equal
          rw [equal]
        · rw [same]
      rw [holds_none free] at one
      rw [same,@holds_none object {last with ptr := none,counted := none} rfl] at other
      have moved : holds object {target with ptr := source.ptr,counted := source.counted} = holds object source := rfl
      rw [moved] at one
      simp only [State.setRef] at other
      omega
    · have found := (after place ref).mp found
      split at found
      next same =>
        rw [found]
        refine ⟨.inl rfl,fun _ => rfl,source,same ▸ hasSrc,owner,built.trans builtSrc.symm⟩
      next apart =>
        have found := (now place ref).mp found
        split at found
        next same =>
          rw [found]
          refine ⟨?_,fun ended => absurd (builtDst.symm.trans ended) nofun,target,same ▸ hasDst,rfl,rfl⟩
          exact (plain src source hasSrc fun equal => apart (same.trans equal.symm)).imp_right fun ended => by
            cases builtSrc.symm.trans ended
        next elsewhere => exact ⟨plain place ref found elsewhere,calm.ended place ref found,ref,found,rfl,rfl⟩
  obtain ⟨refs,performed,totals,refs_⟩ := performed
  rw [performed]
  refine Calm.inv ?_ ?_ inv.intact List.Pairwise.nil (fun _ none_ => by cases none_) fun place ref has built => ?_
  · exact calm.change (fun _ => rfl) fun place ref has => ⟨(refs_ place ref has).2.1,.inr (refs_ place ref has).2.2⟩
  · refine ⟨fun object => ?_,inv.small,inv.dead,inv.alive,inv.referenced⟩
    have count := inv.count object
    rw [todo,total_cons] at count
    simp only [totals]
    simp [pends] at count ⊢
    exact count
  · refine .inl ((refs_ place ref has).1.resolve_right ?_)
    rw [built]
    exact nofun

theorem Inv.perform {work : Work} {rest : List Work} (inv : Inv state) (todo : state.todo = work::rest) :
    Inv (State.perform {state with todo := rest} work) := by
  cases work with
  | unref object => exact inv.unref todo
  | destroy place => exact inv.destroy todo
  | clear place => exact inv.clear todo
  | free object => exact inv.free todo
  | moveIn dst src => exact inv.moveIn todo

theorem refAll_objects (state : State) (ptr : Option Object) (object : Object) : (state.refAll ptr).objects object =
    if ptr = some object then {state.objects object with
      refCount := int32 ((state.objects object).refCount + 1),referenced := true} else state.objects object := by
  cases ptr with
  | none => simp [State.refAll]
  | some other =>
    simp only [State.refAll,Option.elim_some,State.ref,setObject_eq,Option.some.injEq,eq_comm (a := other)]
    split
    next same => rw [same]
    next => rfl

theorem refAll_status (state : State) (ptr : Option Object) (object : Object) :
    (state.refAll ptr).status object = state.status object := by
  rw [State.status,refAll_objects]
  split <;> rfl

@[simp] theorem refAll_refs (state : State) (ptr : Option Object) : (state.refAll ptr).refs = state.refs := by
  cases ptr <;> rfl

@[simp] theorem refAll_todo (state : State) (ptr : Option Object) : (state.refAll ptr).todo = state.todo := by
  cases ptr <;> rfl

@[simp] theorem refAll_failed (state : State) (ptr : Option Object) : (state.refAll ptr).failed = state.failed := by
  cases ptr <;> rfl

theorem Counts.grow (counts : Counts state) (status : ∀ object, next.status object = state.status object)
    (counted : ∀ object, (next.objects object).refCount = (state.objects object).refCount ∧
        (next.objects object).referenced = (state.objects object).referenced ∨
      state.status object = .live ∧ (next.objects object).refCount = (state.objects object).refCount + 1 ∧
        (state.objects object).refCount + 1 < 2 ^ 31)
    (count : ∀ object, (next.objects object).refCount =
      total (holds object) next.refs + (next.objects object).explicitRefs + total (pends object) next.todo) : Counts next := by
  constructor
  · exact count
  · intro object
    rcases counted object with ⟨same,_⟩ | ⟨_,more,room⟩
    · exact same ▸ counts.small object
    · exact more ▸ room
  · intro object away
    rw [status] at away
    rcases counted object with ⟨same,_⟩ | ⟨live,_⟩
    · exact same ▸ counts.dead object away
    · exact absurd live away
  · intro object live referenced
    rw [status] at live
    rcases counted object with ⟨same,also⟩ | ⟨_,more,_⟩
    · rw [same]
      exact counts.alive object live (also ▸ referenced)
    · have positive := counts.le object
      omega
  · intro object referenced unborn
    rw [status] at unborn
    rcases counted object with ⟨_,also⟩ | ⟨live,_⟩
    · exact counts.referenced object (also ▸ referenced) unborn
    · cases live.symm.trans unborn

theorem Counts.refAll (counts : Counts state) {ptr : Option Object} (live : ∀ object, ptr = some object → state.status object = .live)
    (room : ∀ object, ptr = some object → (state.objects object).refCount + 1 < 2 ^ 31) (object : Object) :
    ((state.refAll ptr).objects object).refCount = (state.objects object).refCount ∧
        ((state.refAll ptr).objects object).referenced = (state.objects object).referenced ∧ ptr ≠ some object ∨
      state.status object = .live ∧ ((state.refAll ptr).objects object).refCount = (state.objects object).refCount + 1 ∧
        (state.objects object).refCount + 1 < 2 ^ 31 ∧ ptr = some object := by
  rw [refAll_objects]
  split
  next shared =>
    have positive := counts.le object
    have small := room object shared
    exact .inr ⟨live object shared,int32_of_small (by omega) small,small,shared⟩
  next other => exact .inl ⟨rfl,rfl,other⟩

theorem refAll_explicit (state : State) (ptr : Option Object) (object : Object) :
    ((state.refAll ptr).objects object).explicitRefs = (state.objects object).explicitRefs := by
  rw [refAll_objects]
  split <;> rfl

theorem usable_iff {place : Nat} {ref : RefPtr} : state.usable place = some ref ↔ state.Has place ref ∧ ref.constructed = true ∧
    ∀ owner, ref.owner = some owner → state.status owner = .live := by
  simp only [State.usable,Option.filter_eq_some_iff,Bool.and_eq_true,State.Has]
  refine and_congr_right fun _ => and_congr_right fun _ => ?_
  cases ref.owner <;> simp

theorem Inv.idle (inv : Inv state) (todo : state.todo = []) : Calm state :=
  inv.calm fun work inside => by
    rw [todo] at inside
    cases inside

theorem Inv.counted (inv : Inv state) (todo : state.todo = []) {place : Nat} {ref : RefPtr} (has : state.Has place ref)
    (built : ref.constructed = true) : ref.counted = ref.ptr := by
  refine (inv.whole place ref has built).resolve_right fun ⟨src,moving⟩ => ?_
  rw [todo] at moving
  cases moving

theorem Inv.target (inv : Inv state) (todo : state.todo = []) {place : Nat} {ref : RefPtr} (has : state.Has place ref)
    (built : ref.constructed = true) {object : Object} (points : ref.ptr = some object) : state.status object = .live := by
  have held := holds_pos has ((inv.counted todo has built).trans points)
  have count := inv.count object
  exact inv.toCounts.live (by omega)

theorem has_append {refs : List RefPtr} (new : List RefPtr) {place : Nat} {ref : RefPtr} (found : (refs ++ new)[place]? = some ref) :
    refs[place]? = some ref ∨ ref ∈ new := by
  rw [List.getElem?_append] at found
  split at found
  · exact .inl found
  · exact .inr (List.mem_of_getElem? found)

theorem Inv.new (inv : Inv state) (todo : state.todo = []) {object : Object} {members : Nat}
    (called : call state (.new object members) = some next) : Inv next := by
  simp only [call] at called
  split at called
  next unborn =>
    obtain rfl := Option.some.inj called
    have calm := inv.idle todo
    have zero := inv.dead object (by rw [unborn]; exact nofun)
    have count := inv.count object
    have status (other : Object) : (state.setObject object ⟨.live,0,0,false⟩).status other =
      if other = object then .live else state.status other := setObject_status _ other
    have free (other : Object) : total (holds other) (List.replicate members ⟨some object,none,true,none⟩) = 0 :=
      total_replicate (holds other) members (by simp [holds])
    have member {ref : RefPtr} (inside : ref ∈ List.replicate members (⟨some object,none,true,none⟩ : RefPtr)) :=
      List.eq_of_mem_replicate inside
    refine Calm.idle ?_ ?_ inv.intact todo fun place ref found built => ?_
    · refine ⟨fun other dying => ?_,fun place ref found ended => ?_,fun place ref owner found owned => ?_⟩
      · have now := (status other).symm.trans dying
        split at now
        · cases now
        · exact calm.quiet other now
      · rcases has_append _ found with old | new
        · exact calm.ended place ref old ended
        · rw [member new]
      · rcases has_append _ found with old | new
        · have apart : owner ≠ object := fun same => inv.born place ref owner old owned (same ▸ unborn)
          have same := (status owner).trans (if_neg apart)
          change (state.setObject object ⟨.live,0,0,false⟩).status owner ≠ .unborn ∧
            ((state.setObject object ⟨.live,0,0,false⟩).status owner = .live ↔ ref.constructed = true)
          rw [same]
          exact calm.owned place ref owner old owned
        · rw [member new] at owned ⊢
          have now := (status owner).trans (if_pos (Option.some.inj owned).symm)
          refine ⟨fun none_ => ?_,fun _ => rfl,fun _ => now⟩
          cases now.symm.trans none_
    · constructor
      · intro other
        simp only [setObject_eq,total_append,free,Nat.add_zero]
        split
        next same =>
          subst same
          simp only [State.setObject]
          omega
        next => exact inv.count other
      · intro other
        simp only [setObject_eq]
        split
        · decide
        · exact inv.small other
      · intro other away
        simp only [setObject_eq]
        split
        · rfl
        next apart => exact inv.dead other fun live => away (((status other).trans (if_neg apart)).trans live)
      · intro other live referenced
        simp only [setObject_eq] at referenced ⊢
        split at referenced
        · cases referenced
        next apart =>
          rw [if_neg apart]
          exact inv.alive other (((status other).trans (if_neg apart)).symm.trans live) referenced
      · intro other referenced none_
        simp only [setObject_eq] at referenced
        split at referenced
        · cases referenced
        next apart => exact inv.referenced other referenced (((status other).trans (if_neg apart)).symm.trans none_)
    · rcases has_append _ found with old | new
      · exact inv.counted todo old built
      · rw [member new]
  next => cases called

theorem Inv.share (inv : Inv state) (todo : state.todo = []) {ptr : Option Object}
    (live : ∀ object, ptr = some object → state.status object = .live)
    (room : ∀ object, ptr = some object → (state.objects object).refCount + 1 < 2 ^ 31) : Inv ((state.construct ptr).refAll ptr) := by
  have calm := inv.idle todo
  have grown (object : Object) := @Counts.refAll state inv.toCounts ptr live room object
  have objects (object : Object) : ((state.construct ptr).refAll ptr).objects object = (state.refAll ptr).objects object := by
    rw [refAll_objects,refAll_objects]
    rfl
  have status (object : Object) : ((state.construct ptr).refAll ptr).status object = state.status object := refAll_status _ ptr object
  have listed {place : Nat} {ref : RefPtr} (found : ((state.construct ptr).refAll ptr).Has place ref) :
      state.Has place ref ∨ ref = ⟨none,ptr,true,ptr⟩ := by
    rw [State.Has,refAll_refs] at found
    exact (has_append _ found).imp_right List.mem_singleton.mp
  have idle : ((state.construct ptr).refAll ptr).todo = [] := by rw [refAll_todo]; exact todo
  refine Calm.idle ?_ ?_ ?_ idle fun place ref found built => ?_
  · refine calm.change status fun place ref found => ?_
    rcases listed found with old | rfl
    · exact ⟨calm.ended place ref old,.inr ⟨ref,old,rfl,rfl⟩⟩
    · exact ⟨nofun,.inl rfl⟩
  · refine inv.toCounts.grow status (fun object => ?_) fun object => ?_
    · rw [objects]
      exact (grown object).imp (fun same => ⟨same.1,same.2.1⟩) fun more => ⟨more.1,more.2.1,more.2.2.1⟩
    · have count := inv.count object
      rw [objects,refAll_explicit,refAll_refs,refAll_todo]
      simp only [State.construct,total_append,total_cons,total_nil]
      rcases grown object with ⟨same,_,other⟩ | ⟨_,more,_,same⟩
      · simp only [holds,if_neg other]
        omega
      · simp only [holds,if_pos same]
        omega
  · rw [refAll_failed]
    exact inv.intact
  · rcases listed found with old | rfl
    · exact inv.counted todo old built
    · rfl

theorem Inv.move {src : Nat} (inv : Inv state) (todo : state.todo = []) (called : call state (.move src) = some next) : Inv next := by
  obtain ⟨source,used,rfl⟩ := Option.map_eq_some_iff.mp called
  obtain ⟨has,built,_⟩ := usable_iff.mp used
  have calm := inv.idle todo
  have now := has_setRef has {source with ptr := none,counted := none}
  refine Calm.idle ?_ ?_ inv.intact todo fun place ref found builtRef => ?_
  · refine calm.change (fun _ => rfl) fun place ref found => ?_
    rcases has_append _ found with old | new
    · have old := (now place ref).mp old
      split at old
      next same => exact old ▸ ⟨fun _ => rfl,.inr ⟨source,same ▸ has,rfl,rfl⟩⟩
      next => exact ⟨calm.ended place ref old,.inr ⟨ref,old,rfl,rfl⟩⟩
    · rw [List.mem_singleton.mp new]
      exact ⟨nofun,.inl rfl⟩
  · refine ⟨fun object => ?_,inv.small,inv.dead,inv.alive,inv.referenced⟩
    have count := inv.count object
    have moved := total_set (holds object) {source with ptr := none,counted := none} has
    have made : holds object ⟨none,source.ptr,true,source.ptr⟩ = if source.ptr = some object then 1 else 0 := rfl
    rw [holds_counted (inv.counted todo has built),@holds_none object {source with ptr := none,counted := none} rfl] at moved
    simp only [State.construct,State.setRef,total_append,total_cons,total_nil,made]
    omega
  · rcases has_append _ found with old | new
    · have old := (now place ref).mp old
      split at old
      next => rw [old]
      next => exact inv.counted todo old builtRef
    · rw [List.mem_singleton.mp new]

theorem Before.unrefAll {ptr : Option Object} {first second : Work} (inside : first ∈ State.unrefAll ptr) (state : State) :
    Before state first second := by
  obtain ⟨object,rfl⟩ := mem_unrefAll inside
  trivial

/-- The old target of a copy assignment is released after the new one has been taken. -/
theorem Inv.copyAssign {dst src : Nat} (inv : Inv state) (todo : state.todo = [])
    (room : ∀ object, state.shares (.copyAssign dst src) = some object → (state.objects object).refCount + 1 < 2 ^ 31)
    (called : call state (.copyAssign dst src) = some next) : Inv next := by
  obtain ⟨source,usedSrc,called⟩ := Option.bind_eq_some_iff.mp called
  obtain ⟨target,usedDst,rfl⟩ := Option.map_eq_some_iff.mp called
  obtain ⟨hasSrc,builtSrc,_⟩ := usable_iff.mp usedSrc
  obtain ⟨hasDst,builtDst,_⟩ := usable_iff.mp usedDst
  split
  next => exact inv
  next different =>
    have calm := inv.idle todo
    have now := has_setRef hasDst {target with ptr := source.ptr,counted := source.ptr}
    have shared : state.shares (.copyAssign dst src) = source.ptr := by rw [State.shares,hasSrc,Option.bind_some]
    rw [shared] at room
    have grown := inv.toCounts.refAll (fun object points => inv.target todo hasSrc builtSrc points) room
    have objects (object : Object) : (((state.setRef dst {target with ptr := source.ptr,counted := source.ptr}).refAll
        source.ptr).push (State.unrefAll target.ptr)).objects object = (state.refAll source.ptr).objects object := by
      rw [State.push,refAll_objects,refAll_objects]
      rfl
    have status (object : Object) : (((state.setRef dst {target with ptr := source.ptr,counted := source.ptr}).refAll
        source.ptr).push (State.unrefAll target.ptr)).status object = state.status object := by
      rw [State.status,objects]
      exact refAll_status state source.ptr object
    have has {place : Nat} {ref : RefPtr} (found : (((state.setRef dst {target with ptr := source.ptr,counted := source.ptr}).refAll
        source.ptr).push (State.unrefAll target.ptr)).Has place ref) := by
      rw [State.Has,State.push,refAll_refs] at found
      exact (now place ref).mp found
    refine Calm.inv ?_ ?_ ?_ ?_ (fun work inside => ?_) fun place ref found built => .inl ?_
    · refine calm.change status fun place ref found => ?_
      have found := has found
      split at found
      next same =>
        rw [found]
        exact ⟨fun ended => absurd (builtDst.symm.trans ended) nofun,.inr ⟨target,same ▸ hasDst,rfl,rfl⟩⟩
      next => exact ⟨calm.ended place ref found,.inr ⟨ref,found,rfl,rfl⟩⟩
    · refine inv.toCounts.grow status (fun object => ?_) fun object => ?_
      · rw [objects]
        exact (grown object).imp (fun same => ⟨same.1,same.2.1⟩) fun more => ⟨more.1,more.2.1,more.2.2.1⟩
      · have count := inv.count object
        have moved := total_set (holds object) {target with ptr := source.ptr,counted := source.ptr} hasDst
        rw [objects,refAll_explicit,State.push,refAll_refs,refAll_todo]
        simp only [State.setRef,total_append,total_unrefAll]
        simp only [holds,inv.counted todo hasDst builtDst] at moved
        rcases grown object with ⟨same,_,other⟩ | ⟨_,more,_,same⟩
        · simp only [if_neg other] at moved
          simp only [State.setRef] at *
          omega
        · simp only [if_pos same] at moved
          simp only [State.setRef] at *
          omega
    · rw [State.push,refAll_failed]
      exact inv.intact
    · rw [State.push,refAll_todo,State.setRef,todo,List.append_nil]
      exact List.pairwise_of_forall_mem_list fun first inside second _ => Before.unrefAll inside _
    · rw [State.push,refAll_todo,State.setRef,todo,List.append_nil] at inside
      obtain ⟨object,rfl⟩ := mem_unrefAll inside
      trivial
    · have found := has found
      split at found
      next => rw [found]
      next => exact inv.counted todo found built

theorem Inv.supported {dst : Nat} {target : RefPtr} (inv : Inv state) (todo : state.todo = []) (has : state.Has dst target)
    (work : List Work) : Supported ((state.setRef dst {target with counted := none}).push work)
      fun object => state.status object = .live ∧ ¬Doomed state dst object := by
  refine ⟨fun object safe => safe.1,fun object safe => ?_⟩
  have calm := inv.idle todo
  by_contra unheld
  obtain ⟨counted,free⟩ := not_or.mp unheld
  obtain ⟨unpinned,unheld⟩ := not_or.mp free
  have holder {place : Nat} {ref : RefPtr} (other : place ≠ dst) (found : state.Has place ref) (built : ref.constructed = true)
      (points : ref.ptr = some object) : ¬∀ owner, ref.owner = some owner → state.status owner = .live ∧ ¬Doomed state dst owner := by
    intro kept
    refine unheld ⟨place,ref,(has_setRef has _ place ref).mpr ?_,(inv.counted todo found built).trans points,kept⟩
    rwa [if_neg other]
  have positive : 0 < (state.objects object).refCount := by
    have low := inv.toCounts.le object
    have nonzero : (state.objects object).refCount ≠ 0 := counted
    omega
  refine safe.2 (.intro positive (Nat.eq_zero_of_not_pos unpinned) ?_ ?_)
  · intro place ref other found built points unowned
    refine holder other found built points fun owner owned => ?_
    cases unowned.symm.trans owned
  · intro place ref owner other found built points owned
    by_contra kept
    refine holder other found built points fun holder_ held => ?_
    obtain rfl := Option.some.inj (owned.symm.trans held)
    exact ⟨(calm.owned place ref owner found owned).2.mpr built,kept⟩

theorem Inv.moveAssign {dst src : Nat} (inv : Inv state) (todo : state.todo = [])
    (owners : ∀ place ref owner, place = dst ∨ place = src → state.refs[place]? = some ref → ref.owner = some owner →
      ¬Doomed state dst owner)
    (called : call state (.moveAssign dst src) = some next) : Inv next := by
  obtain ⟨source,usedSrc,called⟩ := Option.bind_eq_some_iff.mp called
  obtain ⟨target,usedDst,rfl⟩ := Option.map_eq_some_iff.mp called
  obtain ⟨hasSrc,builtSrc,liveSrc⟩ := usable_iff.mp usedSrc
  obtain ⟨hasDst,builtDst,liveDst⟩ := usable_iff.mp usedDst
  have calm := inv.idle todo
  have now := has_setRef hasDst {target with counted := none}
  have tail : ((state.setRef dst {target with counted := none}).push (State.unrefAll target.ptr ++ [Work.moveIn dst src])).todo =
      State.unrefAll target.ptr ++ [Work.moveIn dst src] := by
    rw [State.push,State.setRef,todo,List.append_nil]
  refine Calm.inv ?_ ?_ inv.intact ?_ (fun work inside => ?_) fun place ref found built => ?_
  · refine calm.change (fun _ => rfl) fun place ref found => ?_
    have found := (now place ref).mp found
    split at found
    next same =>
      rw [found]
      exact ⟨fun _ => rfl,.inr ⟨target,same ▸ hasDst,rfl,rfl⟩⟩
    next => exact ⟨calm.ended place ref found,.inr ⟨ref,found,rfl,rfl⟩⟩
  · refine ⟨fun object => ?_,inv.small,inv.dead,inv.alive,inv.referenced⟩
    have count := inv.count object
    have moved := total_set (holds object) {target with counted := none} hasDst
    have late : pends object (.moveIn dst src) = 0 := rfl
    rw [holds_counted (inv.counted todo hasDst builtDst),@holds_none object {target with counted := none} rfl] at moved
    rw [todo,total_nil] at count
    rw [tail]
    simp only [total_append,total_unrefAll,total_cons,total_nil,late,State.setRef,State.push]
    omega
  · rw [tail]
    refine List.pairwise_append.mpr ⟨?_,List.pairwise_singleton _ _,fun first inside second _ => Before.unrefAll inside _⟩
    exact List.pairwise_of_forall_mem_list fun first inside second _ => Before.unrefAll inside _
  · rw [tail] at inside
    rcases List.mem_append.mp inside with soon | late
    · obtain ⟨object,rfl⟩ := mem_unrefAll soon
      trivial
    · rw [List.mem_singleton.mp late]
      refine ⟨_,inv.supported todo hasDst _,⟨{target with counted := none},(now dst _).mpr (by rw [if_pos rfl]),builtDst,rfl,
        fun owner owned => ?_⟩,?_⟩
      · exact ⟨liveDst owner owned,owners dst target owner (.inl rfl) hasDst owned⟩
      · by_cases same : src = dst
        · refine ⟨{target with counted := none},(now src _).mpr (by rw [if_pos same]),builtDst,fun owner owned => ?_⟩
          exact ⟨liveDst owner owned,owners dst target owner (.inl rfl) hasDst owned⟩
        · refine ⟨source,(now src source).mpr (by rwa [if_neg same]),builtSrc,fun owner owned => ?_⟩
          exact ⟨liveSrc owner owned,owners src source owner (.inr rfl) hasSrc owned⟩
  · have found := (now place ref).mp found
    split at found
    next same =>
      refine .inr ⟨src,?_⟩
      rw [tail,same]
      exact List.mem_append_right _ (List.mem_singleton_self _)
    next => exact .inl (inv.counted todo found built)

theorem Inv.destruct {place : Nat} (inv : Inv state) (todo : state.todo = [])
    (called : call state (.destruct place) = some next) : Inv next := by
  obtain ⟨ref,used,called⟩ := Option.bind_eq_some_iff.mp called
  obtain ⟨has,built,_⟩ := usable_iff.mp used
  split at called
  next free =>
    obtain rfl := Option.some.inj called
    have after := inv.destructing has (inv.counted todo has built) (.inr ⟨todo,rfl,free⟩)
    rw [List.append_nil] at after
    rw [State.push,State.setRef,todo,List.append_nil]
    exact after
  next => cases called

theorem Inv.refCall {object : Object} (inv : Inv state) (todo : state.todo = [])
    (room : (state.objects object).refCount + 1 < 2 ^ 31) (called : call state (.ref object) = some next) : Inv next := by
  simp only [call] at called
  split at called
  next live =>
    obtain rfl := Option.some.inj called
    have calm := inv.idle todo
    have positive := inv.toCounts.le object
    have wrapped : int32 ((state.objects object).refCount + 1) = (state.objects object).refCount + 1 :=
      int32_of_small (by omega) room
    have objects (other : Object) : ((state.ref object).setObject object {(state.ref object).objects object with
        explicitRefs := ((state.ref object).objects object).explicitRefs + 1}).objects other = if other = object then
          ⟨(state.objects object).status,(state.objects object).refCount + 1,(state.objects object).explicitRefs + 1,true⟩
        else state.objects other := by
      simp only [State.ref,setObject_eq,if_pos,wrapped]
      split <;> rfl
    have status (other : Object) : ((state.ref object).setObject object {(state.ref object).objects object with
        explicitRefs := ((state.ref object).objects object).explicitRefs + 1}).status other = state.status other := by
      rw [State.status,objects]
      split
      next same => rw [same]; rfl
      next => rfl
    refine Calm.idle ?_ ?_ inv.intact todo fun place ref found built => inv.counted todo found built
    · exact calm.change status fun place ref found => ⟨calm.ended place ref found,.inr ⟨ref,found,rfl,rfl⟩⟩
    · refine inv.toCounts.grow status (fun other => ?_) fun other => ?_
      · rw [objects]
        split
        next same => exact .inr ⟨same ▸ live,by rw [same],same ▸ room⟩
        next => exact .inl ⟨rfl,rfl⟩
      · have count := inv.count other
        rw [objects]
        split
        next same =>
          subst same
          simp only [State.setObject,State.ref]
          omega
        next => exact count
  next => cases called

theorem Inv.unrefCall {object : Object} (inv : Inv state) (todo : state.todo = [])
    (called : call state (.unref object) = some next) : Inv next := by
  simp only [call] at called
  split at called
  next some_ =>
    obtain rfl := Option.some.inj called
    have calm := inv.idle todo
    have objects (other : Object) : ((state.setObject object {state.objects object with
        explicitRefs := (state.objects object).explicitRefs - 1}).push [.unref object]).objects other = if other = object then
          {state.objects object with explicitRefs := (state.objects object).explicitRefs - 1} else state.objects other :=
      setObject_eq _ other
    have status (other : Object) : ((state.setObject object {state.objects object with
        explicitRefs := (state.objects object).explicitRefs - 1}).push [.unref object]).status other = state.status other := by
      rw [State.status,objects]
      split
      next same => rw [same]; rfl
      next => rfl
    have tail : ((state.setObject object {state.objects object with
        explicitRefs := (state.objects object).explicitRefs - 1}).push [.unref object]).todo = [.unref object] := by
      rw [State.push,State.setObject,todo]
      rfl
    refine Calm.inv ?_ ?_ inv.intact ?_ (fun work inside => ?_) fun place ref found built => .inl (inv.counted todo found built)
    · exact calm.change status fun place ref found => ⟨calm.ended place ref found,.inr ⟨ref,found,rfl,rfl⟩⟩
    · refine inv.toCounts.grow status (fun other => ?_) fun other => ?_
      · rw [objects]
        split
        next same => exact .inl ⟨by rw [same],by rw [same]⟩
        next => exact .inl ⟨rfl,rfl⟩
      · have count := inv.count other
        rw [todo] at count
        rw [objects,tail]
        split
        next same =>
          subst same
          simp only [State.setObject,State.push,total_cons,total_nil,pends,if_true] at *
          omega
        next apart =>
          simp only [State.setObject,State.push,total_cons,total_nil,pends,Work.unref.injEq,if_neg (Ne.symm apart)] at *
          omega
    · rw [tail]
      exact List.pairwise_singleton _ _
    · rw [tail] at inside
      rw [List.mem_singleton.mp inside]
      trivial
  next => cases called

theorem call_keeps {action : Action} (inv : Inv state) (todo : state.todo = []) (careful : Careful state action)
    (called : call state action = some next) : Inv next := by
  cases action with
  | new object members => exact inv.new todo called
  | construct ptr =>
    simp only [call] at called
    split at called
    next live =>
      obtain rfl := Option.some.inj called
      refine inv.share todo (fun object points => ?_) careful.room
      rw [points] at live
      exact of_decide_eq_true live
    next => cases called
  | copy src =>
    obtain ⟨source,used,rfl⟩ := Option.map_eq_some_iff.mp called
    obtain ⟨has,built,_⟩ := usable_iff.mp used
    refine inv.share todo (fun object points => inv.target todo has built points) fun object points => careful.room object ?_
    rw [State.shares,has,Option.bind_some,points]
  | move src => exact inv.move todo called
  | copyAssign dst src => exact inv.copyAssign todo careful.room called
  | moveAssign dst src => exact inv.moveAssign todo (fun place ref owner => careful.owners dst src place ref owner rfl) called
  | destruct place => exact inv.destruct todo called
  | ref object => exact inv.refCall todo (careful.room object rfl) called
  | unref object => exact inv.unrefCall todo called
  | tick => cases called

theorem inv_step {action : Action} (inv : Inv state) (careful : Careful state action)
    (stepped : step state action = some next) : Inv next := by
  rw [step,if_neg (by rw [inv.intact]; exact nofun)] at stepped
  cases todo : state.todo with
  | nil =>
    rw [todo] at stepped
    exact call_keeps inv todo careful stepped
  | cons work rest =>
    rw [todo] at stepped
    change (if action = .tick then _ else _) = _ at stepped
    split at stepped
    next =>
      obtain rfl := Option.some.inj stepped
      exact inv.perform todo
    next => cases stepped

end Calls

/-! How much is left of a call, with the members that may yet be destroyed. -/
section Ends
variable {state next : State}

def Work.effort : Work → Nat
  | .unref _ => 2
  | .destroy _ => 4
  | .clear _ => 1
  | .free _ => 1
  | .moveIn _ _ => 1

def State.burden (state : State) (owner : Option Object) : Nat :=
  if owner.any (fun object => state.status object = .live) then 4 else 0

def State.effort (state : State) : Nat :=
  total state.burden (state.refs.map RefPtr.owner) + total Work.effort state.todo

theorem members_length (state : State) (object : Object) :
    (state.members object).length = (state.refs.map RefPtr.owner).countP fun owner => owner = some object := by
  rw [State.members,List.length_map,← List.countP_eq_length_filter,List.countP_map]
  conv_rhs => rw [← List.zipIdx_map_fst 0 state.refs]
  rw [List.countP_map]
  rfl

theorem effort_unrefAll (ptr : Option Object) : total Work.effort (State.unrefAll ptr) ≤ 2 := by
  cases ptr <;> simp [State.unrefAll,Work.effort]

theorem burden_congr (status : ∀ object, state.status object = .live ↔ next.status object = .live) : next.burden = state.burden := by
  funext owner
  cases owner with
  | none => rfl
  | some object => simp [State.burden,status]

theorem push_effort (state : State) (work : List Work) : (state.push work).effort = state.effort + total Work.effort work := by
  simp only [State.effort,State.push,total_append]
  rw [Nat.add_comm (total Work.effort work),Nat.add_assoc]
  rfl

theorem setRef_effort {place : Nat} {old : RefPtr} (has : state.Has place old) (value : RefPtr) (owner : value.owner = old.owner) :
    (state.setRef place value).effort = state.effort := by
  simp only [State.effort,State.setRef,map_set RefPtr.owner has owner]
  rfl

theorem setObject_effort {object : Object} {value : Referenced} (same : value.status = .live ↔ state.status object = .live) :
    (state.setObject object value).effort = state.effort := by
  have burden : (state.setObject object value).burden = state.burden := burden_congr fun other => by
    rw [setObject_status]
    split
    next equal => rw [equal,same]
    next => rfl
  rw [State.effort,burden]
  rfl

theorem setObject_dying {object : Object} {value : Referenced} (live : state.status object = .live) (dying : value.status = .dying) :
    (state.setObject object value).effort + 4 * (state.members object).length = state.effort := by
  have burden : total state.burden (state.refs.map RefPtr.owner) =
      total (state.setObject object value).burden (state.refs.map RefPtr.owner) + 4 * (state.members object).length := by
    rw [members_length,← total_ite,← total_add]
    refine total_congr fun owner _ => ?_
    cases owner with
    | none => rfl
    | some other =>
      by_cases same : other = object
      · simp [State.burden,setObject_status,same,live,dying]
      · simp [State.burden,setObject_status,same]
  rw [State.effort,State.effort,burden]
  simp only [State.setObject]
  omega

theorem effort_destroys (places : List Nat) : total Work.effort (places.map .destroy) = 4 * places.length := by
  induction places with
  | nil => rfl
  | cons place places ih =>
    rw [List.map_cons,total_cons,ih,List.length_cons,Nat.mul_succ,Nat.add_comm]
    rfl

theorem unref_effort {object : Object} (live : state.status object = .live) : (state.unref object).effort ≤ state.effort + 1 := by
  have there : (state.objects object).status ≠ .freed := by
    rw [show (state.objects object).status = .live from live]
    exact nofun
  simp only [State.unref,if_neg there]
  split
  next =>
    have dying := @setObject_dying state object
      {state.objects object with refCount := int32 ((state.objects object).refCount - 1),status := .dying} live rfl
    rw [push_effort,total_append,effort_destroys,List.length_reverse,total_cons,total_nil,← dying]
    simp only [Work.effort]
    omega
  next => exact Nat.le_succ_of_le (Nat.le_of_eq (setObject_effort Iff.rfl))

theorem Inv.perform_effort {work : Work} {rest : List Work} (inv : Inv state) (todo : state.todo = work::rest) :
    (State.perform {state with todo := rest} work).effort < state.effort := by
  have before : state.effort = ({state with todo := rest} : State).effort + work.effort := by
    rw [State.effort,State.effort,todo,total_cons,Nat.add_comm work.effort,← Nat.add_assoc]
    rfl
  have due := inv.due work (todo ▸ List.mem_cons_self)
  rw [before]
  cases work with
  | unref object => exact Nat.lt_succ_of_le (unref_effort (inv.released todo).2.1)
  | free object =>
    have dying : state.status object = .dying := due
    refine Nat.lt_succ_of_le (Nat.le_of_eq ?_)
    refine @setObject_effort {state with todo := rest} object {state.objects object with status := .freed} (iff_of_false nofun ?_)
    rw [show ({state with todo := rest} : State).status object = .dying from dying]
    exact nofun
  | clear place =>
    obtain ⟨old,has,_,ending⟩ := due
    have there (owner : Object) (owned : old.owner = some owner) : state.status owner ≠ .freed := by
      rw [ending owner owned]
      exact nofun
    rw [State.perform,@access_eq {state with todo := rest} place old has there]
    exact Nat.lt_succ_of_le (Nat.le_of_eq (@setRef_effort {state with todo := rest} place old has {old with ptr := none} rfl))
  | destroy place =>
    obtain ⟨old,owner,has,owned,dying,_⟩ := due
    have there (holder : Object) (held : old.owner = some holder) : state.status holder ≠ .freed := by
      rw [Option.some.inj (held.symm.trans owned),dying]
      exact nofun
    have same := @setRef_effort {state with todo := rest} place old has {old with constructed := false,counted := none} rfl
    rw [State.perform,@access_eq {state with todo := rest} place old has there,push_effort,same,total_append,total_cons,total_nil]
    have few := effort_unrefAll old.ptr
    simp only [Work.effort]
    omega
  | moveIn dst src =>
    obtain ⟨safe,supported,⟨target,hasDst,_,_,keptDst⟩,source,hasSrc,_,keptSrc⟩ := due
    have there {ref : RefPtr} (kept : ∀ owner, ref.owner = some owner → safe owner) (owner : Object)
        (owned : ref.owner = some owner) : state.status owner ≠ .freed := by
      rw [supported.live owner (kept owner owned)]
      exact nofun
    rw [State.perform,@access_eq {state with todo := rest} src source hasSrc (there keptSrc),
      @access_eq {state with todo := rest} dst target hasDst (there keptDst)]
    refine Nat.lt_succ_of_le (Nat.le_of_eq ?_)
    have first := @setRef_effort {state with todo := rest} dst target hasDst
      {target with ptr := source.ptr,counted := source.counted} rfl
    simp only
    split
    next => exact first
    next last hasLast => exact (setRef_effort hasLast {last with ptr := none,counted := none} rfl).trans first

theorem Inv.ends (inv : Inv state) : ∃ ticks final, run step state (List.replicate ticks .tick) = some final ∧ final.todo = [] := by
  induction size : state.effort using Nat.strongRecOn generalizing state with
  | ind effort shorter =>
    cases todo : state.todo with
    | nil => exact ⟨0,state,rfl,todo⟩
    | cons work rest =>
      have stepped : step state .tick = some (State.perform {state with todo := rest} work) := by
        rw [step,if_neg (by rw [inv.intact]; exact nofun),todo]
        rfl
      obtain ⟨ticks,final,ran,done⟩ := shorter _ (size ▸ inv.perform_effort todo) (inv.perform todo) rfl
      refine ⟨ticks + 1,final,?_,done⟩
      rw [List.replicate_succ,run_cons,stepped]
      exact ran

end Ends

theorem Inv.sound {state : State} (inv : Inv state) : Sound state where
  count := fun todo object => by
    have count := inv.count object
    rw [todo,total_nil] at count
    have same : total (holds object) state.refs = state.refs.countP fun ref => ref.constructed && decide (ref.ptr = some object) := by
      rw [← total_eq_countP]
      refine total_congr fun ref inside => ?_
      obtain ⟨place,has⟩ := List.mem_iff_getElem?.mp inside
      cases built : ref.constructed with
      | false => simp [holds,inv.destructed place ref has built]
      | true => simp [holds,inv.counted todo has built]
    rw [count,same]
    simp
  deleted := fun object referenced => by
    constructor
    · rintro (dying | freed)
      · exact inv.dead object (by rw [dying]; exact nofun)
      · exact inv.dead object (by rw [freed]; exact nofun)
    · intro zero
      cases status : state.status object with
      | unborn => exact absurd status (inv.referenced object referenced)
      | live =>
        have positive := inv.alive object status referenced
        omega
      | dying => exact .inl rfl
      | freed => exact .inr rfl
  intact := inv.intact
  gone := fun todo => (inv.idle todo).quiet
  ends := inv.ends

theorem inv_start : Inv State.start where
  count := fun _ => rfl
  small := fun _ => (by decide : (0 : Int) < 2 ^ 31)
  dead := fun _ _ => rfl
  alive := nofun
  referenced := nofun
  intact := rfl
  order := List.Pairwise.nil
  due := nofun
  dying := nofun
  born := nofun
  members := nofun
  ending := nofun
  whole := nofun
  destructed := nofun

/-- Every run whose calls are careful leaves the counts right and touches nothing that is gone. -/
theorem sound_of_careful (actions : List Action) (final : State) (careful : Meets step Careful State.start actions)
    (ran : run step State.start actions = some final) : Sound final :=
  (invariant_of_meets Inv (fun _ _ _ inv careful stepped => inv_step inv careful stepped) inv_start careful ran).sound

section Samples

def outside (state : State) (action : Action) : Bool :=
  (match action with
  | .moveAssign dst src => state.owner dst = none && state.owner src = none
  | _ => true) && (state.shares action).all fun object => (state.objects object).refCount + 1 < 2 ^ 31

theorem careful_of_outside (state : State) (action : Action) (tested : outside state action = true) : Careful state action := by
  obtain ⟨apart,room⟩ := Bool.and_eq_true_iff.mp tested
  constructor
  · intro dst src place ref owner same here has owned
    subst same
    obtain ⟨first,second⟩ := Bool.and_eq_true_iff.mp apart
    have unowned : state.owner place = none := by
      rcases here with rfl | rfl
      · exact of_decide_eq_true first
      · exact of_decide_eq_true second
    cases ((owner_eq has).trans owned).symm.trans unowned
  · intro object shared
    rw [shared] at room
    exact of_decide_eq_true room

/-- A list of two objects with its head in RefPtr 1; RefPtr 0 is the link to the second. -/
def listActions : List Action :=
  [.new 0 1,.new 1 0,.construct (some 0),.construct (some 1),.copyAssign 0 2,.destruct 2,.tick,.tick]

def popActions : List Action :=
  listActions ++ [Action.copyAssign 1 0] ++ List.replicate 5 Action.tick ++
    [Action.construct none,Action.moveAssign 3 1,Action.tick,Action.destruct 3] ++ List.replicate 3 Action.tick

theorem sound_pop : ∃ final, run step State.start popActions = some final ∧
    (final.todo = [] ∧ final.status 0 = .freed ∧ final.status 1 = .freed) ∧ Sound final := by
  have evaluated : (run step State.start popActions).any (fun final =>
      decide (final.todo = [] ∧ final.status 0 = .freed ∧ final.status 1 = .freed)) = true := by decide +kernel
  obtain ⟨final,ran,test⟩ := (Option.any_eq_true _ _).mp evaluated
  refine ⟨final,ran,of_decide_eq_true test,sound_of_careful popActions final ?_ ran⟩
  exact meets_of_checks outside careful_of_outside (by decide +kernel)

/-- The same by a move from the link: the release of the old head deletes the link first. -/
theorem not_sound_move : ∃ final, run step State.start (listActions ++ [.moveAssign 1 0] ++ List.replicate 7 .tick) = some final ∧
    ¬Sound final := by
  have evaluated : (run step State.start (listActions ++ [Action.moveAssign 1 0] ++ List.replicate 7 Action.tick)).any (·.failed) = true := by
    decide +kernel
  obtain ⟨final,ran,failed⟩ := (Option.any_eq_true _ _).mp evaluated
  refine ⟨final,ran,fun sound => ?_⟩
  rw [sound.intact] at failed
  cases failed

end Samples
end Pgasus.References
