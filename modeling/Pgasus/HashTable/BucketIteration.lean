import Pgasus.HashTable.BinInvariant
import Pgasus.Library.Runs

/-! `BucketIterator` on a bucket that is changed between the calls of `next`. The iterator
and the changes lock the bucket, so each of them is one step. -/
namespace Pgasus.BucketIteration
open HashTable Runs

structure BucketIterator where
  generation : Nat
  currNode : Option NodePtr
  index : Nat

namespace BucketIterator

def updateCurrNode (bucket : Bucket) (iterator : BucketIterator) : BucketIterator :=
  {iterator with currNode := bucket.nodes[iterator.index]?}

def create (bucket : Bucket) (index : Nat) : BucketIterator := updateCurrNode bucket ⟨bucket.generation,none,index⟩

def isEnd (iterator : BucketIterator) : Bool := iterator.currNode.isNone

def search (hashOf : NodePtr → HashType) (oldHash : HashType) : List NodePtr → Nat
  | [] => 0
  | node::rest => if hashOf node < oldHash then search hashOf oldHash rest + 1 else 0

def next (hashOf : NodePtr → HashType) (bucket : Bucket) (iterator : BucketIterator) : BucketIterator :=
  match iterator.currNode with
  | none => iterator
  | some node =>
    if iterator.generation = bucket.generation then updateCurrNode bucket {iterator with index := iterator.index + 1}
    else updateCurrNode bucket {iterator with index := search hashOf (hashOf node) bucket.nodes}

end BucketIterator

variable {Key T : Type}

def hashOf (bin : BinData Key T) (ptr : NodePtr) : HashType := (bin.heap[ptr]?.map Node.hash).getD 0

def bucketAt (bin : BinData Key T) (number : Nat) : Bucket := (bin.buckets.buckets[number]?).getD ⟨[],number,0⟩

/-- The last two are a record: the nodes that the iterator has stood on, in order, and
those that it had before it at first and that have not been removed. -/
structure State (Key T : Type) where
  bin : BinData Key T
  iterator : BucketIterator
  yielded : List NodePtr
  stayed : List NodePtr

inductive Action (Key T : Type)
  | add (key : Key) (h : HashType) (value : T)
  | remove (position : Nat)
  | next

def State.start (bin : BinData Key T) (number position : Nat) : State Key T :=
  let bucket := bucketAt bin number
  let iterator := BucketIterator.create bucket position
  ⟨bin,iterator,iterator.currNode.toList,bucket.nodes.drop position⟩

def step (number : Nat) (state : State Key T) : Action Key T → Option (State Key T)
  | .add key h value => some {state with bin := (state.bin.addToBucket number key h value).1}
  | .remove position =>
    ((bucketAt state.bin number).nodes[position]?).map fun ptr =>
      {state with bin := (remove.found state.bin number (ptr,position)).1,stayed := state.stayed.erase ptr}
  | .next =>
    let iterator := state.iterator.next (hashOf state.bin) (bucketAt state.bin number)
    some {state with
      iterator
      yielded := if state.iterator.isEnd then state.yielded else state.yielded ++ iterator.currNode.toList}

/-- What a user of the iterator expects: no node twice, none missed that stayed, and an end
if nothing is changed any more. -/
structure Sound (number : Nat) (state : State Key T) : Prop where
  once : state.yielded.Nodup
  complete : state.iterator.isEnd = true → ∀ ptr ∈ state.stayed, ptr ∈ state.yielded
  ends : ∃ calls, ((BucketIterator.next (hashOf state.bin) (bucketAt state.bin number))^[calls] state.iterator).isEnd = true

/-- A change under an iterator that is not at its end leaves no node with a hash as high
as that of its node, and `next` after a change is called when all that stayed was seen. -/
def Undisturbed (number : Nat) (state : State Key T) (action : Action Key T) : Prop :=
  ∀ ptr, state.iterator.currNode = some ptr →
    match action with
    | .add _ h _ => (∀ other ∈ (bucketAt state.bin number).nodes, hashOf state.bin other < hashOf state.bin ptr) ∧
        h < hashOf state.bin ptr
    | .remove position =>
        ∀ other ∈ (bucketAt state.bin number).nodes.eraseIdx position, hashOf state.bin other < hashOf state.bin ptr
    | .next => state.iterator.generation = (bucketAt state.bin number).generation ∨ ∀ other ∈ state.stayed, other ∈ state.yielded

structure Proper (bin : BinData Key T) (number : Nat) : Prop where
  inside : number < bin.buckets.buckets.length
  distinct : (bucketAt bin number).nodes.Nodup
  allocated : ∀ ptr ∈ (bucketAt bin number).nodes, ptr < bin.heap.length

section Search
variable {hashes : NodePtr → HashType} {oldHash : HashType}

theorem getElem_search (nodes : List NodePtr) :
    nodes[BucketIterator.search hashes oldHash nodes]? = nodes.find? fun other => !decide (hashes other < oldHash) := by
  induction nodes with
  | nil => rfl
  | cons node rest ih =>
    by_cases lower : hashes node < oldHash
    · rw [BucketIterator.search,if_pos lower,List.getElem?_cons_succ,ih]
      simp [lower]
    · rw [BucketIterator.search,if_neg lower]
      simp [lower]

theorem search_none {nodes : List NodePtr} : nodes[BucketIterator.search hashes oldHash nodes]? = none ↔
    ∀ other ∈ nodes, hashes other < oldHash := by
  rw [getElem_search,List.find?_eq_none]
  simp

theorem search_some {nodes : List NodePtr} {ptr : NodePtr}
    (found : nodes[BucketIterator.search hashes oldHash nodes]? = some ptr) : ptr ∈ nodes := List.mem_of_getElem? found

variable {bucket : Bucket} {iterator : BucketIterator}

theorem ends_of_fresh (fresh : iterator.generation = bucket.generation)
    (here : iterator.currNode = bucket.nodes[iterator.index]?) :
    ∃ calls, ((BucketIterator.next hashes bucket)^[calls] iterator).isEnd = true := by
  induction left : bucket.nodes.length - iterator.index generalizing iterator with
  | zero =>
    refine ⟨0,?_⟩
    rw [Function.iterate_zero,id,BucketIterator.isEnd,here,List.getElem?_eq_none (by omega)]
    rfl
  | succ left ih =>
    have inside : iterator.index < bucket.nodes.length := by omega
    rw [List.getElem?_eq_getElem inside] at here
    have moved : iterator.next hashes bucket = ⟨iterator.generation,bucket.nodes[iterator.index + 1]?,iterator.index + 1⟩ := by
      rw [BucketIterator.next,here]
      simp only [fresh,if_true]
      rfl
    obtain ⟨calls,ends⟩ := @ih (iterator.next hashes bucket) (by rw [moved]; exact fresh) (by rw [moved]) (by
      rw [moved]
      simp only
      omega)
    exact ⟨calls + 1,by rwa [Function.iterate_succ_apply]⟩

/-- After a change the iterator stays on some node for ever, once it is on one. -/
theorem stuck_of_stale (stale : iterator.generation ≠ bucket.generation) {ptr : NodePtr} (here : iterator.currNode = some ptr)
    (high : ∃ other ∈ bucket.nodes, ¬hashes other < hashes ptr) (calls : Nat) :
    ((BucketIterator.next hashes bucket)^[calls] iterator).isEnd = false := by
  induction calls generalizing iterator ptr with
  | zero =>
    rw [Function.iterate_zero,id,BucketIterator.isEnd,here]
    rfl
  | succ calls ih =>
    have moved : iterator.next hashes bucket = ⟨iterator.generation,
        bucket.nodes[BucketIterator.search hashes (hashes ptr) bucket.nodes]?,
          BucketIterator.search hashes (hashes ptr) bucket.nodes⟩ := by
      rw [BucketIterator.next,here]
      simp only [if_neg stale]
      rfl
    rw [Function.iterate_succ_apply]
    cases found : bucket.nodes[BucketIterator.search hashes (hashes ptr) bucket.nodes]? with
    | none =>
      obtain ⟨other,inside,notLower⟩ := high
      exact absurd (search_none.mp found other inside) notLower
    | some following =>
      refine @ih (iterator.next hashes bucket) (by rw [moved]; exact stale) following (by rw [moved]; exact found) ?_
      exact ⟨following,search_some found,BitVec.lt_irrefl _⟩

end Search

section Changes
variable {bin : BinData Key T} {number : Nat}

theorem bucketAt_eq (inside : number < bin.buckets.buckets.length) : bin.buckets.buckets[number]? = some (bucketAt bin number) := by
  rw [bucketAt,List.getElem?_eq_getElem inside]
  rfl

theorem bucketAt_modify (inside : number < bin.buckets.buckets.length) (change : Bucket → Bucket) :
    ((bin.buckets.modify number change).buckets[number]?).getD ⟨[],number,0⟩ = change (bucketAt bin number) := by
  rw [BucketSpace.modify,List.getElem?_modify,bucketAt_eq inside]
  simp

theorem bucketAt_add (inside : number < bin.buckets.buckets.length) (key : Key) (h : HashType) (value : T) :
    bucketAt (bin.addToBucket number key h value).1 number = ((bucketAt bin number).pushBack bin.heap.length).touch :=
  bucketAt_modify inside _

theorem bucketAt_remove (inside : number < bin.buckets.buckets.length) (ptr : NodePtr) (position : Nat) :
    bucketAt (remove.found bin number (ptr,position)).1 number = ((bucketAt bin number).erase position).touch :=
  bucketAt_modify inside _

theorem hashOf_old {key : Key} {h : HashType} {value : T} {ptr : NodePtr} (old : ptr < bin.heap.length) :
    hashOf (bin.addToBucket number key h value).1 ptr = hashOf bin ptr := by
  rw [hashOf,BinData.addToBucket,List.getElem?_append_left old]
  rfl

theorem hashOf_new (bin : BinData Key T) (key : Key) (h : HashType) (value : T) :
    hashOf (bin.addToBucket number key h value).1 bin.heap.length = h := by
  simp [hashOf,BinData.addToBucket]

theorem Proper.add (proper : Proper bin number) (key : Key) (h : HashType) (value : T) :
    Proper (bin.addToBucket number key h value).1 number := by
  have here := bucketAt_add proper.inside key h value
  have longer : (bin.addToBucket number key h value).1.heap.length = bin.heap.length + 1 := by simp [BinData.addToBucket]
  refine ⟨?_,?_,fun ptr member => ?_⟩
  · simpa [BinData.addToBucket,BucketSpace.modify] using proper.inside
  · rw [here]
    refine List.nodup_append.mpr ⟨proper.distinct,List.nodup_singleton _,fun ptr old other new => ?_⟩
    rw [List.mem_singleton.mp new]
    exact Nat.ne_of_lt (proper.allocated ptr old)
  · rw [here] at member
    rw [longer]
    rcases List.mem_append.mp member with old | new
    · exact Nat.lt_succ_of_lt (proper.allocated ptr old)
    · exact List.mem_singleton.mp new ▸ Nat.lt_succ_self _

theorem Proper.remove (proper : Proper bin number) (ptr : NodePtr) (position : Nat) :
    Proper (HashTable.remove.found bin number (ptr,position)).1 number := by
  have here := bucketAt_remove proper.inside ptr position
  refine ⟨?_,?_,fun other member => ?_⟩
  · simpa [HashTable.remove,BucketSpace.modify] using proper.inside
  · rw [here]
    exact proper.distinct.sublist (List.eraseIdx_sublist _ position)
  · rw [here] at member
    exact proper.allocated other ((List.eraseIdx_sublist _ position).subset member)

end Changes

theorem proper_of_valid {hash : Key → HashType} {binBits number : Nat} {bin : BinData Key T} {index : Fin (binCount binBits)}
    (valid : bin.Valid hash index) (inside : number < bin.buckets.buckets.length) : Proper bin number := by
  have member {ptr : NodePtr} (here : ptr ∈ (bucketAt bin number).nodes) : ptr ∈ bin.buckets.pointers :=
    BucketSpace.mem_pointers.mpr ⟨number,bucketAt bin number,bucketAt_eq inside,here⟩
  refine ⟨inside,?_,fun ptr here => valid.allocated (member here)⟩
  obtain ⟨before,after,all,_⟩ := BucketSpace.pointers_modify (bucketAt_eq inside) id
  have nodup := valid.nodup
  rw [all] at nodup
  exact (List.nodup_append.mp (List.nodup_append.mp nodup).1).2.1

structure Inv (number : Nat) (state : State Key T) : Prop where
  proper : Proper state.bin number
  current : ∀ ptr, state.iterator.currNode = some ptr → ptr < state.bin.heap.length
  older : state.iterator.generation ≤ (bucketAt state.bin number).generation
  fresh : state.iterator.generation = (bucketAt state.bin number).generation → ∃ start, start ≤ state.iterator.index ∧
    state.iterator.currNode = (bucketAt state.bin number).nodes[state.iterator.index]? ∧
      state.yielded = ((bucketAt state.bin number).nodes.drop start).take (state.iterator.index + 1 - start) ∧
        state.stayed = (bucketAt state.bin number).nodes.drop start

def Quiet (number : Nat) (state : State Key T) : Prop :=
  ∀ ptr, state.iterator.currNode = some ptr → state.iterator.generation = (bucketAt state.bin number).generation ∨
    ∀ other ∈ (bucketAt state.bin number).nodes, hashOf state.bin other < hashOf state.bin ptr

section Steps
variable {number : Nat} {state next : State Key T}

theorem next_stale {hashes : NodePtr → HashType} {bucket : Bucket} {iterator : BucketIterator} {ptr : NodePtr}
    (here : iterator.currNode = some ptr) (stale : iterator.generation ≠ bucket.generation)
    (low : ∀ other ∈ bucket.nodes, hashes other < hashes ptr) : (iterator.next hashes bucket).currNode = none := by
  rw [BucketIterator.next,here]
  simp only [if_neg stale]
  exact search_none.mpr low

theorem Inv.ends_iff (inv : Inv number state) :
    (∃ calls, ((BucketIterator.next (hashOf state.bin) (bucketAt state.bin number))^[calls] state.iterator).isEnd = true) ↔
      Quiet number state := by
  constructor
  · intro ⟨calls,ends⟩ ptr here
    by_contra stays
    obtain ⟨stale,high⟩ := not_or.mp stays
    have stuck := @stuck_of_stale (hashOf state.bin) _ _ stale ptr here (by simpa using high) calls
    cases stuck.symm.trans ends
  · intro quiet
    cases here : state.iterator.currNode with
    | none => exact ⟨0,by rw [Function.iterate_zero,id,BucketIterator.isEnd,here]; rfl⟩
    | some ptr =>
      by_cases fresh : state.iterator.generation = (bucketAt state.bin number).generation
      · obtain ⟨_,_,current,_⟩ := inv.fresh fresh
        exact ends_of_fresh fresh current
      · refine ⟨1,?_⟩
        rw [Function.iterate_one,BucketIterator.isEnd,next_stale here fresh ((quiet ptr here).resolve_left fresh)]
        rfl

theorem Inv.sound_iff (inv : Inv number state) : Sound number state ↔ state.yielded.Nodup ∧
    (state.iterator.isEnd = true → ∀ ptr ∈ state.stayed, ptr ∈ state.yielded) ∧ Quiet number state :=
  ⟨fun sound => ⟨sound.once,sound.complete,inv.ends_iff.mp sound.ends⟩,
    fun ⟨once,complete,quiet⟩ => ⟨once,complete,inv.ends_iff.mpr quiet⟩⟩

theorem add_step (inv : Inv number state) {key : Key} {h : HashType} {value : T}
    (stepped : step number state (.add key h value) = some next) :
    Inv number next ∧ (Sound number state → (Sound number next ↔ Undisturbed number state (.add key h value))) := by
  obtain rfl := Option.some.inj stepped
  have here := bucketAt_add inv.proper.inside key h value
  have stale : state.iterator.generation ≠ (bucketAt (state.bin.addToBucket number key h value).1 number).generation := by
    rw [here]
    exact Nat.ne_of_lt (Nat.lt_succ_of_le inv.older)
  have after : Inv number {state with bin := (state.bin.addToBucket number key h value).1} := by
    refine ⟨inv.proper.add key h value,fun ptr current => ?_,?_,fun fresh => absurd fresh stale⟩
    · simp only [BinData.addToBucket,List.length_append,List.length_singleton]
      exact Nat.lt_succ_of_lt (inv.current ptr current)
    · simp only [here]
      exact Nat.le_succ_of_le inv.older
  refine ⟨after,fun sound => ?_⟩
  rw [after.sound_iff,Undisturbed]
  constructor
  · rintro ⟨_,_,quiet⟩ ptr current
    have low := (quiet ptr current).resolve_left stale
    simp only [here,hashOf_old (inv.current ptr current)] at low
    refine ⟨fun other member => ?_,?_⟩
    · have lower := low other (List.mem_append_left _ member)
      rwa [hashOf_old (inv.proper.allocated other member)] at lower
    · have lower := low _ (List.mem_append_right _ (List.mem_singleton_self _))
      rwa [hashOf_new] at lower
  · intro undisturbed
    refine ⟨sound.once,sound.complete,fun ptr current => .inr fun other member => ?_⟩
    obtain ⟨low,lower⟩ := undisturbed ptr current
    simp only [here] at member
    simp only [hashOf_old (inv.current ptr current)]
    rcases List.mem_append.mp member with old | new
    · rw [hashOf_old (inv.proper.allocated other old)]
      exact low other old
    · rw [List.mem_singleton.mp new,hashOf_new]
      exact lower

theorem remove_step (inv : Inv number state) {position : Nat} (stepped : step number state (.remove position) = some next) :
    Inv number next ∧ (Sound number state → (Sound number next ↔ Undisturbed number state (.remove position))) := by
  obtain ⟨removed,_,rfl⟩ := Option.map_eq_some_iff.mp stepped
  have here := bucketAt_remove inv.proper.inside removed position
  have stale : state.iterator.generation ≠ (bucketAt (HashTable.remove.found state.bin number (removed,position)).1 number).generation := by
    rw [here]
    exact Nat.ne_of_lt (Nat.lt_succ_of_le inv.older)
  have after : Inv number {state with
      bin := (HashTable.remove.found state.bin number (removed,position)).1,stayed := state.stayed.erase removed} := by
    refine ⟨inv.proper.remove removed position,inv.current,?_,fun fresh => absurd fresh stale⟩
    simp only [here]
    exact Nat.le_succ_of_le inv.older
  refine ⟨after,fun sound => ?_⟩
  rw [after.sound_iff,Undisturbed]
  constructor
  · intro ⟨_,_,quiet⟩ ptr current
    have low := (quiet ptr current).resolve_left stale
    simp only [here] at low
    exact low
  · intro undisturbed
    refine ⟨sound.once,fun ended ptr member => sound.complete ended ptr (List.mem_of_mem_erase member),fun ptr current => .inr ?_⟩
    simp only [here]
    exact undisturbed ptr current

theorem take_next {nodes : List NodePtr} {start index : Nat} (started : start ≤ index) :
    (nodes.drop start).take (index + 1 - start) ++ (nodes[index + 1]?).toList = (nodes.drop start).take (index + 1 + 1 - start) := by
  have length : index + 1 + 1 - start = index + 1 - start + 1 := by omega
  have same : start + (index + 1 - start) = index + 1 := by omega
  rw [length,List.take_add_one,List.getElem?_drop,same]

theorem next_step (inv : Inv number state) (stepped : step number state .next = some next) :
    Inv number next ∧ (Sound number state → (Sound number next ↔ Undisturbed number state .next)) := by
  obtain rfl := Option.some.inj stepped
  cases here : state.iterator.currNode with
  | none =>
    have same : state.iterator.next (hashOf state.bin) (bucketAt state.bin number) = state.iterator := by
      rw [BucketIterator.next,here]
    have ended : state.iterator.isEnd = true := by rw [BucketIterator.isEnd,here]; rfl
    rw [same,if_pos ended]
    refine ⟨inv,fun sound => iff_of_true sound fun ptr current => ?_⟩
    cases here.symm.trans current
  | some ptr =>
    have going : state.iterator.isEnd = false := by rw [BucketIterator.isEnd,here]; rfl
    simp only [going,Bool.false_eq_true,if_false]
    by_cases fresh : state.iterator.generation = (bucketAt state.bin number).generation
    · obtain ⟨start,started,_,yielded,stayed⟩ := inv.fresh fresh
      have moved : state.iterator.next (hashOf state.bin) (bucketAt state.bin number) = ⟨state.iterator.generation,
          (bucketAt state.bin number).nodes[state.iterator.index + 1]?,state.iterator.index + 1⟩ := by
        rw [BucketIterator.next,here]
        simp only [if_pos fresh]
        rfl
      rw [moved,yielded,take_next started]
      have after : Inv number {state with
          iterator := ⟨state.iterator.generation,(bucketAt state.bin number).nodes[state.iterator.index + 1]?,state.iterator.index + 1⟩
          yielded := ((bucketAt state.bin number).nodes.drop start).take (state.iterator.index + 1 + 1 - start)} :=
        ⟨inv.proper,fun other current => inv.proper.allocated other (List.mem_of_getElem? current),inv.older,
          fun _ => ⟨start,Nat.le_succ_of_le started,rfl,rfl,stayed⟩⟩
      refine ⟨after,fun sound => iff_of_true (after.sound_iff.mpr ⟨?_,fun ended => ?_,fun _ _ => .inl fresh⟩) fun other current => .inl fresh⟩
      · exact inv.proper.distinct.sublist ((List.take_sublist _ _).trans (List.drop_sublist _ _))
      · have past : (bucketAt state.bin number).nodes.length ≤ state.iterator.index + 1 := by
          simpa [BucketIterator.isEnd] using ended
        rw [stayed,List.take_of_length_le (by rw [List.length_drop]; omega)]
        exact fun _ member => member
    · have moved : (state.iterator.next (hashOf state.bin) (bucketAt state.bin number)).generation = state.iterator.generation := by
        rw [BucketIterator.next,here]
        simp only [if_neg fresh]
        rfl
      have valid (other : NodePtr) (current : (state.iterator.next (hashOf state.bin) (bucketAt state.bin number)).currNode = some other) :
          other ∈ (bucketAt state.bin number).nodes := by
        rw [BucketIterator.next,here] at current
        simp only [if_neg fresh] at current
        exact List.mem_of_getElem? current
      have after : Inv number {state with
          iterator := state.iterator.next (hashOf state.bin) (bucketAt state.bin number)
          yielded := state.yielded ++ (state.iterator.next (hashOf state.bin) (bucketAt state.bin number)).currNode.toList} :=
        ⟨inv.proper,fun other current => inv.proper.allocated other (valid other current),
          (by rw [moved]; exact inv.older),fun equal => absurd (moved.symm.trans equal) fresh⟩
      refine ⟨after,fun sound => ?_⟩
      have quiet := ((inv.sound_iff.mp sound).2.2 ptr here).resolve_left fresh
      have ended := next_stale here fresh quiet
      rw [after.sound_iff,Undisturbed]
      simp only [ended,Option.toList_none,List.append_nil]
      constructor
      · intro ⟨_,complete,_⟩ other current
        exact .inr (complete (by rw [BucketIterator.isEnd,ended]; rfl))
      · intro undisturbed
        refine ⟨sound.once,fun _ => (undisturbed ptr here).resolve_left fresh,fun other current => ?_⟩
        cases ended.symm.trans current

theorem step_sound {action : Action Key T} (inv : Inv number state) (stepped : step number state action = some next) :
    Inv number next ∧ (Sound number state → (Sound number next ↔ Undisturbed number state action)) := by
  cases action with
  | add key h value => exact add_step inv stepped
  | remove position => exact remove_step inv stepped
  | next => exact next_step inv stepped

theorem inv_start {bin : BinData Key T} (proper : Proper bin number) (position : Nat) :
    Inv number (State.start bin number position) ∧ Sound number (State.start bin number position) := by
  have yielded : (State.start bin number position).yielded =
      ((bucketAt bin number).nodes.drop position).take (position + 1 - position) := by
    rw [Nat.add_sub_cancel_left,← Nat.zero_add 1,List.take_add_one,List.take_zero,List.nil_append,List.getElem?_drop,Nat.add_zero]
    rfl
  have inv : Inv number (State.start bin number position) := by
    refine ⟨proper,fun ptr current => ?_,Nat.le_refl _,fun _ => ⟨position,Nat.le_refl _,rfl,yielded,rfl⟩⟩
    exact proper.allocated ptr (List.mem_of_getElem? current)
  refine ⟨inv,inv.sound_iff.mpr ⟨?_,fun ended => ?_,fun _ _ => .inl rfl⟩⟩
  · rw [yielded]
    exact proper.distinct.sublist ((List.take_sublist _ _).trans (List.drop_sublist _ _))
  · have past : (bucketAt bin number).nodes.length ≤ position := by
      simpa [BucketIterator.isEnd,State.start,BucketIterator.create,BucketIterator.updateCurrNode] using ended
    intro ptr member
    change ptr ∈ (bucketAt bin number).nodes.drop position at member
    rw [List.drop_of_length_le past] at member
    cases member

/-- The iterator meets the expectations in every state of a run exactly when no step of the run disturbs it. -/
theorem sound_iff_undisturbed (bin : BinData Key T) (number position : Nat) (proper : Proper bin number)
    (actions : List (Action Key T)) (final : State Key T)
    (ran : run (step number) (State.start bin number position) actions = some final) :
    (∀ first second middle, actions = first ++ second →
        run (step number) (State.start bin number position) first = some middle → Sound number middle) ↔
      Meets (step number) (Undisturbed number) (State.start bin number position) actions := by
  obtain ⟨inv,sound⟩ := inv_start proper position
  exact everywhere_iff_meets (fun _ _ _ inv stepped => (step_sound inv stepped).1)
    (fun _ _ _ inv sound stepped => (step_sound inv stepped).2 sound) inv sound ran

end Steps

section Samples

def keyHash (key : Nat) : HashType := BitVec.ofNat 64 key

def oddBin : Fin (binCount 1) := ⟨1,by decide⟩

def sampleBin : BinData Nat Unit := (((BinData.create keyHash 1).addToBucket 1 3 (keyHash 3) ()).1.addToBucket 1 131 (keyHash 131) ()).1

theorem sampleBin_proper : Proper sampleBin 1 := by
  have fresh : (BinData.create keyHash 1 : BinData Nat Unit).Valid keyHash oddBin := (BinData.create_valid oddBin).1
  have first := (BinData.addToBucket_spec fresh 3 () rfl).1
  have second := (BinData.addToBucket_spec first 131 () rfl).1
  exact proper_of_valid second (by decide +kernel)

def undisturbed (number : Nat) (state : State Nat Unit) (action : Action Nat Unit) : Bool :=
  state.iterator.currNode.all fun ptr =>
    match action with
    | .add _ h _ => decide ((∀ other ∈ (bucketAt state.bin number).nodes, hashOf state.bin other < hashOf state.bin ptr) ∧
        h < hashOf state.bin ptr)
    | .remove position =>
        decide (∀ other ∈ (bucketAt state.bin number).nodes.eraseIdx position, hashOf state.bin other < hashOf state.bin ptr)
    | .next => decide (state.iterator.generation = (bucketAt state.bin number).generation ∨
        ∀ other ∈ state.stayed, other ∈ state.yielded)

theorem undisturbed_of_test (number : Nat) (state : State Nat Unit) (action : Action Nat Unit)
    (tested : undisturbed number state action = true) : Undisturbed number state action := by
  intro ptr here
  rw [undisturbed,here] at tested
  cases action with
  | add key h value => exact of_decide_eq_true tested
  | remove position => exact of_decide_eq_true tested
  | next => exact of_decide_eq_true tested

def lateActions : List (Action Nat Unit) := [.next,.remove 1,.next,.add 259 (keyHash 259) (),.next]

theorem sound_late : (∃ final, run (step 1) (State.start sampleBin 1 0) lateActions = some final ∧ final.yielded = [0,1]) ∧
    ∀ first second middle, lateActions = first ++ second →
      run (step 1) (State.start sampleBin 1 0) first = some middle → Sound 1 middle := by
  have evaluated : (run (step 1) (State.start sampleBin 1 0) lateActions).any (fun final => decide (final.yielded = [0,1])) = true := by
    decide +kernel
  obtain ⟨final,ran,test⟩ := (Option.any_eq_true _ _).mp evaluated
  refine ⟨⟨final,ran,of_decide_eq_true test⟩,(sound_iff_undisturbed sampleBin 1 0 sampleBin_proper lateActions final ran).mpr ?_⟩
  exact meets_of_checks (undisturbed 1) (undisturbed_of_test 1) (by decide +kernel)

/-- After an insertion the first node comes again. -/
theorem not_sound_again : Proper sampleBin 1 ∧ ∃ final,
    run (step 1) (State.start sampleBin 1 0) [.add 259 (keyHash 259) (),.next] = some final ∧ ¬Sound 1 final := by
  have evaluated : (run (step 1) (State.start sampleBin 1 0) [.add 259 (keyHash 259) (),.next]).any
      (fun final => decide (final.yielded = [0,0])) = true := by decide +kernel
  obtain ⟨final,ran,test⟩ := (Option.any_eq_true _ _).mp evaluated
  refine ⟨sampleBin_proper,final,ran,fun sound => ?_⟩
  have once := sound.once
  rw [of_decide_eq_true test] at once
  simp at once

end Samples
end Pgasus.BucketIteration
