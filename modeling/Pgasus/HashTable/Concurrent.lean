import Pgasus.HashTable.Refinement

/-! Any number of threads calling `operator[]` and `remove` on one table. Every
critical section under a bucket's lock and every resize under its bin's lock is
one step; `operate_on_bin` searches and inserts in two of them. -/
namespace Pgasus.HashTable
open Runs

abbrev Thread := Nat

inductive Call (Key : Type)
  | index (key : Key)
  | remove (key : Key)

inductive Result (binBits : Nat)
  | ref (ref : Ref binBits)
  | removed (present : Bool)

/-- Where a thread is in `operate_on_bin`. From `searching` to `leaving` it holds
its bin's lock for reading. -/
inductive Pc (Key : Type) (binBits : Nat)
  | idle
  | checking (call : Call Key)
  | resizing (call : Call Key)
  | entering (call : Call Key)
  | searching (call : Call Key) (bucket : Nat)
  | adding (key : Key) (bucket : Nat)
  | leaving (key : Key) (result : Result binBits)
  | returned (result : Result binBits)

/-- What a critical section did to the nodes of a key, for the record. -/
inductive Event (Key : Type) (binBits : Nat)
  | found (key : Key) (ref : Ref binBits)
  | added (key : Key) (ref : Ref binBits)
  | removed (key : Key) (present : Bool)

/-- The table, the readers of each bin's lock, the threads, and the events so far
with the latest first. No writer of a bin's lock is ever seen between steps. -/
structure System (Key T NumaNode : Type) (binBits : Nat) where
  table : Table Key T NumaNode binBits
  readers : Fin (binCount binBits) → List Thread
  threads : Thread → Pc Key binBits
  events : List (Event Key binBits)

inductive Action (Key T : Type) (binBits : Nat)
  | call (thread : Thread) (call : Call Key)
  | advance (thread : Thread)
  | assign (ref : Ref binBits) (value : T)

section Steps
variable {Key T NumaNode : Type} {binBits : Nat}

def Call.key : Call Key → Key
  | .index key => key
  | .remove key => key

def Call.doesModify : Call Key → Bool
  | .index _ => true
  | .remove _ => false

def Pc.inside : Pc Key binBits → Option (Key × Nat)
  | .searching call bucket => some (call.key,bucket)
  | .adding key bucket => some (key,bucket)
  | _ => none

namespace System
variable (system : System Key T NumaNode binBits)

def goto (thread : Thread) (pc : Pc Key binBits) : System Key T NumaNode binBits :=
  {system with threads := Function.update system.threads thread pc}

def setBin (index : Fin (binCount binBits)) (bin : BinData Key T) : System Key T NumaNode binBits :=
  {system with table := system.table.setBin index bin}

def record (event : Event Key binBits) : System Key T NumaNode binBits :=
  {system with events := event::system.events}

def readLock (index : Fin (binCount binBits)) (thread : Thread) : System Key T NumaNode binBits :=
  {system with readers := Function.update system.readers index (thread::system.readers index)}

def readUnlock (index : Fin (binCount binBits)) (thread : Thread) : System Key T NumaNode binBits :=
  {system with readers := Function.update system.readers index ((system.readers index).erase thread)}

end System

def System.create (hash : Key → HashType) (nodes : List NumaNode) (nonempty : 0 < nodes.length) :
    System Key T NumaNode binBits :=
  ⟨Table.create hash nodes nonempty,fun _ => [],fun _ => .idle,[]⟩

variable [BEq Key] (hash : Key → HashType) (default : T)

/-- The bucket's critical section: the search, and what is done when it finds the
key or when the call removes. -/
def search (system : System Key T NumaNode binBits) (thread : Thread) (call : Call Key) (bucket : Nat) :
    System Key T NumaNode binBits :=
  let index := binIndex binBits (hash call.key)
  let bin := system.table.bins index
  match call, bin.search bucket call.key (hash call.key) with
  | .index key, some it =>
    (system.record (.found key ⟨index,it.1⟩)).goto thread (.leaving key (.ref ⟨index,it.1⟩))
  | .index key, none => system.goto thread (.adding key bucket)
  | .remove key, some it =>
    ((system.setBin index (remove.found bin bucket it).1).record (.removed key true)).goto thread
      (.leaving key (.removed true))
  | .remove key, none => (system.record (.removed key false)).goto thread (.leaving key (.removed false))

def advance (system : System Key T NumaNode binBits) (thread : Thread) : Option (System Key T NumaNode binBits) :=
  match system.threads thread with
  | .idle => none
  | .returned _ => none
  | .checking call =>
    let bin := system.table.bins (binIndex binBits (hash call.key))
    some (system.goto thread (if call.doesModify && bin.overloaded then .resizing call else .entering call))
  | .resizing call =>
    let index := binIndex binBits (hash call.key)
    if system.readers index = [] then
      some ((system.setBin index ((system.table.bins index).resizeIfNecessary hash binBits)).goto thread
        (.entering call))
    else none
  | .entering call =>
    let index := binIndex binBits (hash call.key)
    let bucket := (system.table.bins index).buckets.fromHash binBits (hash call.key)
    some ((system.readLock index thread).goto thread (.searching call bucket))
  | .searching call bucket => some (search hash system thread call bucket)
  | .adding key bucket =>
    let index := binIndex binBits (hash key)
    let (bin,ptr) := (system.table.bins index).addToBucket bucket key (hash key) default
    some (((system.setBin index bin).record (.added key ⟨index,ptr⟩)).goto thread
      (.leaving key (.ref ⟨index,ptr⟩)))
  | .leaving key result =>
    some ((system.goto thread (.returned result)).readUnlock (binIndex binBits (hash key)) thread)

def step (system : System Key T NumaNode binBits) : Action Key T binBits → Option (System Key T NumaNode binBits)
  | .call thread call =>
    match system.threads thread with
    | .idle => some (system.goto thread (.checking call))
    | .returned _ => some (system.goto thread (.checking call))
    | _ => none
  | .advance thread => advance hash default system thread
  | .assign ref value => some {system with table := system.table.assign ref value}

end Steps

def Table.Holds {Key T NumaNode : Type} {binBits : Nat} [BEq Key] (table : Table Key T NumaNode binBits)
    (key : Key) (ref : Ref binBits) : Prop := (table.bins ref.bin).Contains key ref.node

section Holds
variable {Key T NumaNode : Type} {binBits : Nat} [BEq Key] {hash : Key → HashType}

theorem BinData.Contains.home (lawful : ∀ a b, (a == b) = true → hash a = hash b) {bin : BinData Key T}
    {index : Fin (binCount binBits)} (valid : bin.Valid hash index) {key : Key} {ptr : NodePtr}
    (held : bin.Contains key ptr) : index = binIndex binBits (hash key) := by
  obtain ⟨member,node,deref,equal⟩ := held
  obtain ⟨position,holds⟩ := BucketSpace.mem_pointers.mp member
  obtain ⟨other,same,hashed,_,binned⟩ := valid.placed position ptr holds
  obtain rfl := Option.some.inj (deref.symm.trans same)
  rw [← binned,hashed,lawful _ _ equal]

theorem Table.Holds.congr [EquivBEq Key] {table : Table Key T NumaNode binBits} {key other : Key} {ref : Ref binBits}
    (held : table.Holds key ref) (same : (key == other) = true) : table.Holds other ref :=
  BinData.Contains.congr held same

variable {table : Table Key T NumaNode binBits} {index : Fin (binCount binBits)} {bin : BinData Key T}
  {key : Key} {ptr : NodePtr}

theorem Table.holds_setBin_same (same : ∀ other p, bin.Contains other p ↔ (table.bins index).Contains other p)
    (other : Key) (ref : Ref binBits) : (table.setBin index bin).Holds other ref ↔ table.Holds other ref := by
  unfold Table.Holds Table.setBin
  by_cases here : ref.bin = index
  · subst here
    simpa using same other ref.node
  · simp [here]

theorem Table.holds_setBin_added (added : ∀ other p, bin.Contains other p ↔
      (table.bins index).Contains other p ∨ p = ptr ∧ (key == other) = true)
    (other : Key) (ref : Ref binBits) : (table.setBin index bin).Holds other ref ↔
      table.Holds other ref ∨ ref = ⟨index,ptr⟩ ∧ (key == other) = true := by
  obtain ⟨place,node⟩ := ref
  unfold Table.Holds Table.setBin
  by_cases here : place = index
  · subst here
    simpa using added other node
  · simp [here]

theorem Table.holds_setBin_removed (removed : ∀ other p, bin.Contains other p ↔
      (table.bins index).Contains other p ∧ p ≠ ptr)
    (other : Key) (ref : Ref binBits) : (table.setBin index bin).Holds other ref ↔
      table.Holds other ref ∧ ref ≠ ⟨index,ptr⟩ := by
  obtain ⟨place,node⟩ := ref
  unfold Table.Holds Table.setBin
  by_cases here : place = index
  · subst here
    simpa using removed other node
  · simp [here]

end Holds

section Ordered
variable {Key T NumaNode : Type} {binBits : Nat} {hash : Key → HashType}

/-- Every bin is in order, and a thread that has read its bin's buckets holds the
bin's lock and still has the right bucket: a resize has to wait for it. -/
structure Ordered (hash : Key → HashType) (system : System Key T NumaNode binBits) : Prop where
  valid : ∀ index, (system.table.bins index).Valid hash index
  within : ∀ thread key bucket, (system.threads thread).inside = some (key,bucket) →
    thread ∈ system.readers (binIndex binBits (hash key)) ∧
      bucket = (system.table.bins (binIndex binBits (hash key))).buckets.fromHash binBits (hash key)

variable {system : System Key T NumaNode binBits}

theorem Ordered.record (ordered : Ordered hash system) (event : Event Key binBits) :
    Ordered hash (system.record event) := ⟨ordered.valid,ordered.within⟩

theorem Ordered.goto (ordered : Ordered hash system) (thread : Thread) {pc : Pc Key binBits}
    (within : ∀ key bucket, pc.inside = some (key,bucket) →
      thread ∈ system.readers (binIndex binBits (hash key)) ∧
        bucket = (system.table.bins (binIndex binBits (hash key))).buckets.fromHash binBits (hash key)) :
    Ordered hash (system.goto thread pc) := by
  refine ⟨ordered.valid,fun other key bucket inside => ?_⟩
  simp only [System.goto,Function.update_apply] at inside
  split at inside
  next same => exact same ▸ within key bucket inside
  next => exact ordered.within other key bucket inside

theorem Ordered.outside (ordered : Ordered hash system) (thread : Thread) {pc : Pc Key binBits}
    (outside : pc.inside = none) : Ordered hash (system.goto thread pc) :=
  ordered.goto thread fun key bucket inside => by simp [outside] at inside

theorem Ordered.setBin (ordered : Ordered hash system) {index : Fin (binCount binBits)} {bin : BinData Key T}
    (valid : bin.Valid hash index)
    (stable : system.readers index = [] ∨
      ∀ h, bin.buckets.fromHash binBits h = (system.table.bins index).buckets.fromHash binBits h) :
    Ordered hash (system.setBin index bin) := by
  have updated (place : Fin (binCount binBits)) :
      (system.setBin index bin).table.bins place = if place = index then bin else system.table.bins place := by
    simp [System.setBin,Table.setBin,Function.update_apply]
  refine ⟨fun place => ?_,fun thread key bucket inside => ?_⟩
  · rw [updated]
    split
    next same => exact same ▸ valid
    next => exact ordered.valid place
  · obtain ⟨reads,located⟩ := ordered.within thread key bucket inside
    refine ⟨reads,?_⟩
    rw [updated,located]
    split
    next same =>
      rcases stable with empty | stable
      · rw [same,empty] at reads
        exact absurd reads (by simp)
      · rw [stable,same]
    next => rfl

theorem Ordered.readLock (ordered : Ordered hash system) (index : Fin (binCount binBits)) (thread : Thread) :
    Ordered hash (system.readLock index thread) := by
  refine ⟨ordered.valid,fun other key bucket inside => ?_⟩
  obtain ⟨reads,located⟩ := ordered.within other key bucket inside
  refine ⟨?_,located⟩
  simp only [System.readLock,Function.update_apply]
  split
  next same => exact List.mem_cons_of_mem _ (same ▸ reads)
  next => exact reads

theorem Ordered.readUnlock (ordered : Ordered hash system) (index : Fin (binCount binBits)) {thread : Thread}
    (outside : (system.threads thread).inside = none) : Ordered hash (system.readUnlock index thread) := by
  refine ⟨ordered.valid,fun other key bucket inside => ?_⟩
  obtain ⟨reads,located⟩ := ordered.within other key bucket inside
  refine ⟨?_,located⟩
  have different : other ≠ thread := by
    rintro rfl
    exact absurd (outside.symm.trans inside) (by simp)
  simp only [System.readUnlock,Function.update_apply]
  split
  next same => exact (List.mem_erase_of_ne different).mpr (same ▸ reads)
  next => exact reads

theorem ordered_create (nodes : List NumaNode) (nonempty : 0 < nodes.length) :
    Ordered hash (System.create hash nodes nonempty : System Key T NumaNode binBits) :=
  ⟨fun index => (BinData.create_valid index).1,fun _ _ _ inside => by simp [System.create,Pc.inside] at inside⟩

end Ordered

section Effect
variable {Key T NumaNode : Type} {binBits : Nat} [BEq Key] {hash : Key → HashType}

inductive Effect (system : System Key T NumaNode binBits) (action : Action Key T binBits)
    (next : System Key T NumaNode binBits) : Prop
  | none (contents : ∀ other r, next.table.Holds other r ↔ system.table.Holds other r)
      (events : next.events = system.events)
  | found (key : Key) (ref : Ref binBits) (held : system.table.Holds key ref)
      (contents : ∀ other r, next.table.Holds other r ↔ system.table.Holds other r)
      (events : next.events = .found key ref :: system.events)
  | added (thread : Thread) (key : Key) (bucket : Nat) (ref : Ref binBits)
      (taken : action = .advance thread) (pc : system.threads thread = .adding key bucket)
      (fresh : ∀ other, ¬system.table.Holds other ref)
      (contents : ∀ other r, next.table.Holds other r ↔
        system.table.Holds other r ∨ r = ref ∧ (key == other) = true)
      (events : next.events = .added key ref :: system.events)
  | removed (key : Key) (ref : Ref binBits) (held : system.table.Holds key ref)
      (contents : ∀ other r, next.table.Holds other r ↔ system.table.Holds other r ∧ r ≠ ref)
      (events : next.events = .removed key true :: system.events)
  | missed (key : Key) (missing : ∀ r, ¬system.table.Holds key r)
      (contents : ∀ other r, next.table.Holds other r ↔ system.table.Holds other r)
      (events : next.events = .removed key false :: system.events)

variable {system next : System Key T NumaNode binBits} {thread : Thread}

theorem search_effect (lawful : ∀ a b, (a == b) = true → hash a = hash b) (ordered : Ordered hash system)
    {call : Call Key} {bucket : Nat} (pc : system.threads thread = .searching call bucket) :
    Ordered hash (search hash system thread call bucket) ∧
      Effect system (.advance thread : Action Key T binBits) (search hash system thread call bucket) := by
  obtain ⟨reads,located⟩ := ordered.within thread call.key bucket (by rw [pc]; rfl)
  have valid := ordered.valid (binIndex binBits (hash call.key))
  have unchanged (other : Key) (r : Ref binBits) : system.table.Holds other r ↔ system.table.Holds other r := Iff.rfl
  subst located
  cases call with
  | index key =>
    cases found : (system.table.bins (binIndex binBits (hash key))).search
        ((system.table.bins (binIndex binBits (hash key))).buckets.fromHash binBits (hash key)) key (hash key) with
    | some it =>
      simp only [search,Call.key,found]
      exact ⟨(ordered.record _).outside thread rfl,.found key ⟨_,it.1⟩ (BinData.search_contains found) unchanged rfl⟩
    | none =>
      simp only [search,Call.key,found]
      refine ⟨ordered.goto thread fun other place inside => ?_,.none unchanged rfl⟩
      cases inside
      exact ⟨reads,rfl⟩
  | remove key =>
    cases found : (system.table.bins (binIndex binBits (hash key))).search
        ((system.table.bins (binIndex binBits (hash key))).buckets.fromHash binBits (hash key)) key (hash key) with
    | some it =>
      simp only [search,Call.key,found]
      have kept := ordered.setBin (BinData.remove_found_spec valid found).1 (Or.inr fun _ => rfl)
      refine ⟨(kept.record _).outside thread rfl,?_⟩
      exact .removed key ⟨_,it.1⟩ (BinData.search_contains found)
        (Table.holds_setBin_removed (BinData.remove_found_contains valid found)) rfl
    | none =>
      simp only [search,Call.key,found]
      refine ⟨(ordered.record _).outside thread rfl,.missed key (fun r held => ?_) unchanged rfl⟩
      obtain ⟨place,ptr⟩ := r
      obtain rfl := BinData.Contains.home lawful (ordered.valid place) held
      exact BinData.search_absent lawful valid found ptr held

theorem adding_spec (ordered : Ordered hash system) {key : Key} {bucket : Nat} {default : T}
    (pc : system.threads thread = .adding key bucket)
    (stepped : advance hash default system thread = some next) :
    Ordered hash next ∧ ∃ ref, (∀ other, ¬system.table.Holds other ref) ∧
      (∀ other r, next.table.Holds other r ↔ system.table.Holds other r ∨ r = ref ∧ (key == other) = true) ∧
      next.events = .added key ref :: system.events := by
  obtain ⟨_,located⟩ := ordered.within thread key bucket (by rw [pc]; rfl)
  have valid := ordered.valid (binIndex binBits (hash key))
  obtain ⟨added,_⟩ := BinData.addToBucket_spec valid key default rfl
  simp only [advance,pc,Option.some.injEq] at stepped
  subst stepped located
  refine ⟨((ordered.setBin added (Or.inr fun _ => rfl)).record _).outside thread rfl,?_⟩
  refine ⟨⟨binIndex binBits (hash key),(system.table.bins _).heap.length⟩,?_,?_,rfl⟩
  · exact fun other held => absurd (valid.allocated held.1) (Nat.lt_irrefl _)
  · exact Table.holds_setBin_added (BinData.addToBucket_contains valid key default rfl)

theorem step_effect (lawful : ∀ a b, (a == b) = true → hash a = hash b) {default : T} {action : Action Key T binBits}
    (ordered : Ordered hash system) (stepped : step hash default system action = some next) :
    Ordered hash next ∧ Effect system action next := by
  have unchanged (other : Key) (r : Ref binBits) : system.table.Holds other r ↔ system.table.Holds other r := Iff.rfl
  cases action with
  | call thread call =>
    simp only [step] at stepped
    split at stepped <;> cases stepped
    all_goals exact ⟨ordered.outside thread rfl,.none unchanged rfl⟩
  | assign ref value =>
    cases stepped
    obtain ⟨valid,contents,_⟩ := BinData.assign_spec (ordered.valid ref.bin) ref.node value
    exact ⟨ordered.setBin valid (Or.inr fun _ => rfl),.none (Table.holds_setBin_same contents) rfl⟩
  | advance thread =>
    cases pc : system.threads thread with
    | idle => simp [step,advance,pc] at stepped
    | returned result => simp [step,advance,pc] at stepped
    | checking call =>
      simp only [step,advance,pc,Option.some.injEq] at stepped
      subst stepped
      refine ⟨ordered.outside thread ?_,.none unchanged rfl⟩
      split <;> rfl
    | resizing call =>
      simp only [step,advance,pc] at stepped
      split at stepped
      next empty =>
        cases stepped
        obtain ⟨valid,perm,heap,_⟩ := BinData.resizeIfNecessary_spec (ordered.valid (binIndex binBits (hash call.key)))
        exact ⟨(ordered.setBin valid (Or.inl empty)).outside thread rfl,
          .none (Table.holds_setBin_same (BinData.contains_of_perm heap perm)) rfl⟩
      next => cases stepped
    | entering call =>
      simp only [step,advance,pc,Option.some.injEq] at stepped
      subst stepped
      refine ⟨(ordered.readLock _ thread).goto thread fun key bucket inside => ?_,.none unchanged rfl⟩
      cases inside
      exact ⟨by simp [System.readLock],rfl⟩
    | searching call bucket =>
      simp only [step,advance,pc,Option.some.injEq] at stepped
      exact stepped ▸ search_effect lawful ordered pc
    | adding key bucket =>
      obtain ⟨kept,ref,fresh,contents,events⟩ := adding_spec ordered pc stepped
      exact ⟨kept,.added thread key bucket ref rfl pc fresh contents events⟩
    | leaving key result =>
      simp only [step,advance,pc,Option.some.injEq] at stepped
      subst stepped
      exact ⟨(ordered.outside thread rfl).readUnlock _ (by simp [System.goto,Pc.inside]),.none unchanged rfl⟩

end Effect
end Pgasus.HashTable
