import Pgasus.Containers.TableIteration
import Pgasus.HashTable.Concurrent

/-! What the table holds, told in three ways: by the counters of its bins, by an
iteration through all of it, and by what the calls inserted and removed. The three
agree after every critical section, so also when no operation is in flight. -/
namespace Pgasus.HashTable
open Runs Cursors Containers

/-- `HashTable::Iterator`; `sub` is the walk through the bin at `currIndex`. -/
structure Iterator (binBits : Nat) where
  currIndex : Nat
  sub : BucketSpaceIterator binBits

namespace Iterator
variable {Key T : Type} {binBits : Nat} (table : Table Key T Containers.Node binBits) (iterator : Iterator binBits)

def isEnd : Bool := iterator.currIndex ≥ binCount binBits

def subIter (index : Fin (binCount binBits)) : BucketSpaceIterator binBits :=
  let buckets := (table.bins index).buckets.buckets
  .create index buckets 0 buckets.length

def findNext : Nat → Iterator binBits → Iterator binBits
  | 0, iterator => iterator
  | rounds+1, iterator =>
    if inside : iterator.currIndex < binCount binBits then
      let sub := subIter table ⟨iterator.currIndex,inside⟩
      if (BucketSpaceIterator.walk binBits).isEnd sub then findNext rounds ⟨iterator.currIndex + 1,sub⟩
      else ⟨iterator.currIndex,sub⟩
    else iterator

def ahead : Nat := binCount binBits - iterator.currIndex

def next : Iterator binBits :=
  if iterator.isEnd then iterator
  else
    let sub := (BucketSpaceIterator.walk binBits).next iterator.sub
    if (BucketSpaceIterator.walk binBits).isEnd sub then
      let following : Iterator binBits := ⟨iterator.currIndex + 1,sub⟩
      findNext table following.ahead following
    else ⟨iterator.currIndex,sub⟩

def Settled : Prop :=
  iterator.currIndex < binCount binBits → (BucketSpaceIterator.walk binBits).isEnd iterator.sub = false

def pairsFrom (start : Nat) : List (Ref binBits) := ((List.finRange (binCount binBits)).drop start).flatMap (binPairs table)

def rest : List (Ref binBits) :=
  if iterator.currIndex < binCount binBits then
    (BucketSpaceIterator.walk binBits).rest iterator.sub ++ pairsFrom table (iterator.currIndex + 1)
  else []

variable {table} {iterator}

theorem subIter_rest (index : Fin (binCount binBits)) :
    (BucketSpaceIterator.walk binBits).rest (subIter table index) = binPairs table index := by
  rw [subIter,BucketSpaceIterator.create_rest]
  simp [RecursiveIterator.range,binPairs,BucketSpace.pointers]

theorem pairsFrom_step {start : Nat} (inside : start < binCount binBits) :
    pairsFrom table start = binPairs table ⟨start,inside⟩ ++ pairsFrom table (start + 1) := by
  have bound : start < (List.finRange (binCount binBits)).length := by simpa using inside
  rw [pairsFrom,List.drop_eq_getElem_cons bound,List.flatMap_cons,List.getElem_finRange]
  rfl

theorem pairsFrom_past {start : Nat} (past : ¬start < binCount binBits) : pairsFrom table start = [] := by
  rw [pairsFrom,List.drop_eq_nil_of_le (by simpa using past),List.flatMap_nil]

theorem findNext_rest {rounds : Nat} {iterator : Iterator binBits} (enough : iterator.ahead ≤ rounds) :
    (findNext table rounds iterator).Settled ∧
      (findNext table rounds iterator).rest table = pairsFrom table iterator.currIndex := by
  induction rounds generalizing iterator with
  | zero =>
    have ended : ¬iterator.currIndex < binCount binBits := by
      simp only [ahead] at enough
      omega
    rw [findNext,rest,if_neg ended,pairsFrom_past ended]
    exact ⟨fun going => absurd going ended,rfl⟩
  | succ rounds ih =>
    rw [findNext]
    split
    next inside =>
      have here := @subIter_rest _ _ _ table ⟨iterator.currIndex,inside⟩
      rw [pairsFrom_step inside,← here]
      dsimp only
      split
      next empty =>
        rw [(BucketSpaceIterator.walk binBits).ended _ empty,List.nil_append]
        apply @ih ⟨iterator.currIndex + 1,_⟩
        simp only [ahead] at enough ⊢
        omega
      next some_ =>
        refine ⟨fun _ => Bool.not_eq_true _ ▸ some_,?_⟩
        rw [rest,if_pos inside]
    next ended =>
      rw [rest,if_neg ended,pairsFrom_past ended]
      exact ⟨fun going => absurd going ended,rfl⟩

theorem next_settled (settled : iterator.Settled) : (iterator.next table).Settled := by
  unfold next
  split
  next => exact settled
  next =>
    dsimp only
    split
    next => exact (findNext_rest (Nat.le_refl _)).1
    next more => exact fun _ => Bool.not_eq_true _ ▸ more

theorem next_rest (settled : iterator.Settled) (going : iterator.isEnd = false) :
    iterator.rest table = (BucketSpaceIterator.walk binBits).deref iterator.sub :: (iterator.next table).rest table := by
  have inside : iterator.currIndex < binCount binBits := by simpa [isEnd] using going
  rw [rest,if_pos inside,(BucketSpaceIterator.walk binBits).going _ (settled inside),List.cons_append]
  simp only [next,going,Bool.false_eq_true,if_false]
  split
  next ended =>
    rw [(BucketSpaceIterator.walk binBits).ended _ ended,List.nil_append,(findNext_rest (Nat.le_refl _)).2]
  next => rw [rest,if_pos inside]

end Iterator

section FullIteration
variable {Key T : Type} {binBits : Nat} (table : Table Key T Containers.Node binBits)

def tableWalk : Walk {iterator : Iterator binBits // iterator.Settled} (Ref binBits) where
  isEnd iterator := iterator.val.isEnd
  deref iterator := (BucketSpaceIterator.walk binBits).deref iterator.val.sub
  next iterator := ⟨iterator.val.next table,Iterator.next_settled iterator.property⟩
  rest iterator := iterator.val.rest table
  ended iterator ended := by
    have past : ¬iterator.val.currIndex < binCount binBits := by simpa [Iterator.isEnd] using ended
    rw [Iterator.rest,if_neg past]
  going iterator going := Iterator.next_rest iterator.property going

def Table.begin : {iterator : Iterator binBits // iterator.Settled} :=
  let iterator : Iterator binBits := ⟨0,.create ⟨0,binCount_pos binBits⟩ [] 0 0⟩
  ⟨Iterator.findNext table iterator.ahead iterator,(Iterator.findNext_rest (Nat.le_refl _)).1⟩

/-- `for (auto it = table.begin(); !it.is_end(); it.next())`, in at most the given number of rounds. -/
def Table.fullIteration (rounds : Nat) : Option (List (Ref binBits)) := (tableWalk table).loop rounds table.begin

theorem begin_rest : (tableWalk table).rest table.begin = pairs table := by
  change Iterator.rest table _ = _
  rw [Table.begin,(Iterator.findNext_rest (Nat.le_refl _)).2]
  rfl

theorem mem_pairs {ref : Ref binBits} : ref ∈ pairs table ↔ ref.node ∈ (table.bins ref.bin).buckets.pointers := by
  simp only [pairs,binPairs,List.mem_flatMap,List.mem_finRange,true_and,List.mem_map]
  constructor
  · rintro ⟨index,node,member,rfl⟩
    exact member
  · exact fun member => ⟨ref.bin,ref.node,member,rfl⟩

theorem length_pairs (counted : ∀ index, (table.bins index).count = (table.bins index).buckets.pointers.length) :
    (pairs table).length = table.size := by
  simp only [pairs,binPairs,List.length_flatMap,List.length_map,Table.size,counted]
  rw [← List.sum_ofFn,List.ofFn_eq_map]

theorem nodup_pairs (nodup : ∀ index, (table.bins index).buckets.pointers.Nodup) : (pairs table).Nodup := by
  rw [pairs,List.nodup_flatMap]
  refine ⟨fun index _ => (nodup index).map fun first second same => (Ref.mk.inj same).2,?_⟩
  apply (List.nodup_finRange _).imp
  intro first second different
  rw [Function.onFun,List.disjoint_left]
  intro ref here there
  obtain ⟨_,_,rfl⟩ := List.mem_map.mp here
  obtain ⟨_,_,same⟩ := List.mem_map.mp there
  exact different (Ref.mk.inj same).1.symm

theorem mem_pairs_setBin {index : Fin (binCount binBits)} {bin : BinData Key T} {ref : Ref binBits} :
    ref ∈ pairs (table.setBin index bin) ↔
      if ref.bin = index then ref.node ∈ bin.buckets.pointers else ref ∈ pairs table := by
  rw [mem_pairs,mem_pairs]
  simp only [Table.setBin,Function.update_apply]
  split <;> rfl

end FullIteration

structure Ledger (Key T : Type) (binBits : Nat) where
  system : System Key T Containers.Node binBits
  inserted : List (Ref binBits)
  removed : List (Ref binBits)

section Ledger
variable {Key T : Type} {binBits : Nat} [BEq Key] (hash : Key → HashType) (default : T)

def inserts (system : System Key T Containers.Node binBits) : Action Key T binBits → List (Ref binBits)
  | .advance thread =>
    match system.threads thread with
    | .adding key bucket =>
      let index := binIndex binBits (hash key)
      [⟨index,((system.table.bins index).addToBucket bucket key (hash key) default).2⟩]
    | _ => []
  | _ => []

def erases (system : System Key T Containers.Node binBits) : Action Key T binBits → List (Ref binBits)
  | .advance thread =>
    match system.threads thread with
    | .searching (.remove key) bucket =>
      let index := binIndex binBits (hash key)
      ((system.table.bins index).search bucket key (hash key)).toList.map (fun it => ⟨index,it.1⟩)
    | _ => []
  | _ => []

namespace Ledger

def create (nodes : List Containers.Node) (nonempty : 0 < nodes.length) : Ledger Key T binBits :=
  ⟨System.create hash nodes nonempty,[],[]⟩

def step (ledger : Ledger Key T binBits) (action : Action Key T binBits) : Option (Ledger Key T binBits) :=
  (HashTable.step hash default ledger.system action).map fun next =>
    ⟨next,inserts hash default ledger.system action ++ ledger.inserted,erases hash ledger.system action ++ ledger.removed⟩

end Ledger
end Ledger

section Change
variable {Key T : Type} {binBits : Nat} [BEq Key] {hash : Key → HashType} {default : T}

structure Change (hash : Key → HashType) (default : T) (system : System Key T Containers.Node binBits)
    (action : Action Key T binBits) (next : System Key T Containers.Node binBits) : Prop where
  ordered : Ordered hash next
  contents : ∀ ref, ref ∈ pairs next.table ↔
    (ref ∈ pairs system.table ∨ ref ∈ inserts hash default system action) ∧ ref ∉ erases hash system action
  fresh : ∀ ref ∈ inserts hash default system action, (system.table.bins ref.bin).heap.length ≤ ref.node ∧
    ref.node < (next.table.bins ref.bin).heap.length
  grows : ∀ index, (system.table.bins index).heap.length ≤ (next.table.bins index).heap.length
  held : ∀ ref ∈ erases hash system action, ref ∈ pairs system.table

variable {system next : System Key T Containers.Node binBits} {action : Action Key T binBits} {thread : Thread}

theorem Change.rebuilt (ordered : Ordered hash next) (inserted : inserts hash default system action = [])
    (erased : erases hash system action = []) {index : Fin (binCount binBits)} {bin : BinData Key T}
    (table : next.table = system.table.setBin index bin)
    (perm : bin.buckets.pointers.Perm (system.table.bins index).buckets.pointers)
    (heap : bin.heap.length = (system.table.bins index).heap.length) : Change hash default system action next := by
  refine ⟨ordered,fun ref => ?_,by simp [inserted],fun place => ?_,by simp [erased]⟩
  · simp only [table,inserted,erased,List.not_mem_nil,or_false,not_false_eq_true,and_true,mem_pairs_setBin]
    split
    next here => rw [perm.mem_iff,mem_pairs,here]
    next => rfl
  · simp only [table,Table.setBin,Function.update_apply]
    split
    next here => rw [here,heap]
    next => exact Nat.le_refl _

theorem Change.silent (ordered : Ordered hash next) (inserted : inserts hash default system action = [])
    (erased : erases hash system action = []) (table : next.table = system.table) :
    Change hash default system action next := by
  refine ⟨ordered,fun ref => ?_,by simp [inserted],fun place => ?_,by simp [erased]⟩
  · simp [table,inserted,erased]
  · rw [table]

theorem Change.searched (ordered : Ordered hash system) {call : Call Key} {bucket : Nat}
    (pc : system.threads thread = .searching call bucket) :
    Change hash default system (.advance thread) (search hash system thread call bucket) := by
  obtain ⟨reads,located⟩ := ordered.within thread call.key bucket (by rw [pc]; rfl)
  have inserted : inserts hash default system (.advance thread) = [] := by simp [inserts,pc]
  cases call with
  | index key =>
    have erased : erases hash system (.advance thread : Action Key T binBits) = [] := by simp [erases,pc]
    cases found : (system.table.bins (binIndex binBits (hash key))).search bucket key (hash key) with
    | some it =>
      simp only [search,Call.key,found]
      exact .silent ((ordered.record _).outside thread rfl) inserted erased rfl
    | none =>
      simp only [search,Call.key,found]
      refine .silent (ordered.goto thread fun other place inside => ?_) inserted erased rfl
      cases inside
      exact ⟨reads,located⟩
  | remove key =>
    cases found : (system.table.bins (binIndex binBits (hash key))).search bucket key (hash key) with
    | none =>
      have erased : erases hash system (.advance thread : Action Key T binBits) = [] := by simp [erases,pc,found]
      simp only [search,Call.key,found]
      exact .silent ((ordered.record _).outside thread rfl) inserted erased rfl
    | some it =>
      have valid := ordered.valid (binIndex binBits (hash key))
      obtain ⟨kept,perm,heap,_⟩ := BinData.remove_found_spec valid found
      have nodup := List.nodup_cons.mp (perm.nodup_iff.mp valid.nodup)
      have erased : erases hash system (.advance thread : Action Key T binBits) =
          [⟨binIndex binBits (hash key),it.1⟩] := by simp [erases,pc,found]
      simp only [search,Call.key,found]
      refine ⟨((ordered.setBin kept (Or.inr fun _ => rfl)).record _).outside thread rfl,fun ref => ?_,by simp [inserted],
        fun place => ?_,fun ref gone => ?_⟩
      · simp only [inserted,erased,List.not_mem_nil,or_false,List.mem_singleton,System.goto,System.record,System.setBin,
          mem_pairs_setBin]
        obtain ⟨place,node⟩ := ref
        by_cases here : place = binIndex binBits (hash key)
        · subst here
          rw [if_pos rfl,mem_pairs,perm.mem_iff,List.mem_cons,Ref.mk.injEq]
          have apart (inside : node ∈ (remove.found (system.table.bins (binIndex binBits (hash key))) bucket it).1.buckets.pointers) :
              node ≠ it.1 := fun same => nodup.1 (same ▸ inside)
          tauto
        · rw [if_neg here,Ref.mk.injEq]
          tauto
      · simp only [System.goto,System.record,System.setBin,Table.setBin,Function.update_apply]
        split
        next here => rw [here,heap]
        next => exact Nat.le_refl _
      · rw [erased,List.mem_singleton] at gone
        rw [gone,mem_pairs]
        exact perm.mem_iff.mpr List.mem_cons_self

theorem Change.added (ordered : Ordered hash system) {key : Key} {bucket : Nat}
    (pc : system.threads thread = .adding key bucket) (stepped : advance hash default system thread = some next) :
    Change hash default system (.advance thread) next := by
  obtain ⟨_,located⟩ := ordered.within thread key bucket (by rw [pc]; rfl)
  have valid := ordered.valid (binIndex binBits (hash key))
  obtain ⟨kept,perm,heap,_⟩ := BinData.addToBucket_spec valid key default rfl
  simp only [advance,pc,Option.some.injEq] at stepped
  subst stepped located
  have erased : erases hash system (.advance thread : Action Key T binBits) = [] := by simp [erases,pc]
  have inserted : inserts hash default system (.advance thread) =
      [⟨binIndex binBits (hash key),(system.table.bins (binIndex binBits (hash key))).heap.length⟩] := by
    simp [inserts,pc,BinData.addToBucket]
  refine ⟨((ordered.setBin kept (Or.inr fun _ => rfl)).record _).outside thread rfl,fun ref => ?_,fun ref new => ?_,
    fun place => ?_,by simp [erased]⟩
  · simp only [inserted,erased,List.not_mem_nil,not_false_eq_true,and_true,List.mem_singleton,System.goto,System.record,
      System.setBin,mem_pairs_setBin]
    obtain ⟨place,node⟩ := ref
    by_cases here : place = binIndex binBits (hash key)
    · subst here
      rw [if_pos rfl,perm.mem_iff,List.mem_cons,mem_pairs,Ref.mk.injEq]
      tauto
    · rw [if_neg here,Ref.mk.injEq]
      tauto
  · rw [inserted,List.mem_singleton] at new
    subst new
    refine ⟨Nat.le_refl _,?_⟩
    simp [System.goto,System.record,System.setBin,Table.setBin,BinData.addToBucket]
  · simp only [System.goto,System.record,System.setBin,Table.setBin,Function.update_apply]
    split
    next here =>
      rw [here,heap,List.length_append]
      exact Nat.le_add_right _ _
    next => exact Nat.le_refl _

theorem step_change (ordered : Ordered hash system) (stepped : HashTable.step hash default system action = some next) :
    Change hash default system action next := by
  cases action with
  | call thread call =>
    simp only [HashTable.step] at stepped
    split at stepped <;> cases stepped
    all_goals exact .silent (ordered.outside thread rfl) rfl rfl rfl
  | assign ref value =>
    cases stepped
    exact .rebuilt (ordered.setBin (BinData.assign_spec (ordered.valid ref.bin) ref.node value).1 (Or.inr fun _ => rfl))
      rfl rfl rfl (List.Perm.refl _) (List.length_modify _ _ _)
  | advance thread =>
    cases pc : system.threads thread with
    | idle => simp [HashTable.step,advance,pc] at stepped
    | returned result => simp [HashTable.step,advance,pc] at stepped
    | checking call =>
      simp only [HashTable.step,advance,pc,Option.some.injEq] at stepped
      subst stepped
      refine .silent (ordered.outside thread ?_) (by simp [inserts,pc]) (by simp [erases,pc]) rfl
      split <;> rfl
    | resizing call =>
      simp only [HashTable.step,advance,pc] at stepped
      split at stepped
      next empty =>
        cases stepped
        obtain ⟨valid,perm,heap,_⟩ := BinData.resizeIfNecessary_spec (ordered.valid (binIndex binBits (hash call.key)))
        exact .rebuilt ((ordered.setBin valid (Or.inl empty)).outside thread rfl) (by simp [inserts,pc])
          (by simp [erases,pc]) rfl perm (by rw [heap])
      next => cases stepped
    | entering call =>
      simp only [HashTable.step,advance,pc,Option.some.injEq] at stepped
      subst stepped
      refine .silent ((ordered.readLock _ thread).goto thread fun key bucket inside => ?_) (by simp [inserts,pc])
        (by simp [erases,pc]) rfl
      cases inside
      exact ⟨by simp [System.readLock],rfl⟩
    | searching call bucket =>
      simp only [HashTable.step,advance,pc,Option.some.injEq] at stepped
      exact stepped ▸ .searched ordered pc
    | adding key bucket => exact .added ordered pc stepped
    | leaving key result =>
      simp only [HashTable.step,advance,pc,Option.some.injEq] at stepped
      subst stepped
      exact .silent ((ordered.outside thread rfl).readUnlock _ (by simp [System.goto,Pc.inside])) (by simp [inserts,pc])
        (by simp [erases,pc]) rfl

structure Balanced (hash : Key → HashType) (ledger : Ledger Key T binBits) : Prop where
  ordered : Ordered hash ledger.system
  present : ∀ ref, ref ∈ pairs ledger.system.table ↔ ref ∈ ledger.inserted ∧ ref ∉ ledger.removed
  allocated : ∀ ref ∈ ledger.inserted, ref.node < (ledger.system.table.bins ref.bin).heap.length
  known : ∀ ref ∈ ledger.removed, ref ∈ ledger.inserted

omit [BEq Key] in
theorem balanced_create (nodes : List Containers.Node) (nonempty : 0 < nodes.length) :
    Balanced hash (Ledger.create hash nodes nonempty : Ledger Key T binBits) := by
  refine ⟨ordered_create nodes nonempty,fun ref => ?_,by simp [Ledger.create],by simp [Ledger.create]⟩
  have empty : (BinData.create hash binBits : BinData Key T).buckets.pointers = [] := (BinData.create_valid ref.bin).2
  rw [mem_pairs]
  simp [Ledger.create,System.create,Table.create,empty]

theorem Balanced.step {ledger following : Ledger Key T binBits} (balanced : Balanced hash ledger)
    (stepped : ledger.step hash default action = some following) : Balanced hash following := by
  obtain ⟨next,taken,rfl⟩ := Option.map_eq_some_iff.mp stepped
  have change := step_change balanced.ordered taken
  refine ⟨change.ordered,fun ref => ?_,fun ref member => ?_,fun ref member => ?_⟩
  · have new (member : ref ∈ inserts hash default ledger.system action) : ref ∉ ledger.removed := fun gone => by
      have old := balanced.allocated ref (balanced.known ref gone)
      exact absurd old (Nat.not_lt.mpr (change.fresh ref member).1)
    rw [change.contents,balanced.present,List.mem_append,List.mem_append]
    tauto
  · rcases List.mem_append.mp member with new | old
    · exact (change.fresh ref new).2
    · exact Nat.lt_of_lt_of_le (balanced.allocated ref old) (change.grows ref.bin)
  · rcases List.mem_append.mp member with gone | old
    · exact List.mem_append_right _ ((balanced.present ref).mp (change.held ref gone)).1
    · exact List.mem_append_right _ (balanced.known ref old)

end Change

section Consistent
variable {Key T : Type} {binBits : Nat} [BEq Key] {hash : Key → HashType} {default : T}

/-- The counter of every bin is right, and `size()` is the number of elements of a
full iteration, which are the nodes inserted and not removed, once each. -/
structure Consistent (ledger : Ledger Key T binBits) : Prop where
  counted : ∀ index, (ledger.system.table.bins index).count =
    ((ledger.system.table.bins index).buckets.buckets.map (fun bucket => bucket.nodes.length)).sum
  iterated : ∃ elements, (∀ rounds, ledger.system.table.size ≤ rounds →
      ledger.system.table.fullIteration rounds = some elements) ∧
    elements.length = ledger.system.table.size ∧ elements.Nodup ∧
    ∀ ref, ref ∈ elements ↔ ref ∈ ledger.inserted ∧ ref ∉ ledger.removed

omit [BEq Key] in
theorem Balanced.consistent {ledger : Ledger Key T binBits} (balanced : Balanced hash ledger) : Consistent ledger := by
  have length := length_pairs ledger.system.table fun index => (balanced.ordered.valid index).counted
  refine ⟨fun index => ?_,pairs ledger.system.table,fun rounds enough => ?_,length,
    nodup_pairs _ fun index => (balanced.ordered.valid index).nodup,balanced.present⟩
  · rw [(balanced.ordered.valid index).counted,BucketSpace.pointers,List.length_flatMap]
  · rw [Table.fullIteration,Walk.loop_rest,begin_rest]
    rw [begin_rest,length]
    exact enough

/-- After every critical section of any calls on the table, whatever their interleaving. -/
theorem consistent_of_run (hash : Key → HashType) (default : T) (nodes : List Containers.Node)
    (nonempty : 0 < nodes.length) (actions : List (Action Key T binBits)) (final : Ledger Key T binBits)
    (ran : run (Ledger.step hash default) (Ledger.create hash nodes nonempty) actions = some final) : Consistent final :=
  (invariant_of_run (Balanced hash) (fun _ _ _ balanced stepped => balanced.step stepped)
    (balanced_create nodes nonempty) ran).consistent

end Consistent

section Sample

def numberHash (key : Nat) : HashType := BitVec.ofNat 64 key

def mixedActions : List (Action Nat Nat 1) :=
  [.call 0 (.index 7),.call 1 (.index 8),.advance 0,.advance 1,.advance 0,.advance 0,.advance 1,.advance 1,
    .advance 0,.advance 1,.advance 0,.advance 1,.call 1 (.remove 7),.advance 1,.advance 1,.advance 1,.advance 1]

theorem consistent_mixed : ∃ final : Ledger Nat Nat 1,
    run (Ledger.step numberHash 0) (Ledger.create numberHash [Containers.Node.invalid] Nat.one_pos) mixedActions =
      some final ∧ (final.inserted.length = 2 ∧ final.removed.length = 1 ∧ final.system.table.size = 1) ∧
      Consistent final := by
  have evaluated : (run (Ledger.step numberHash 0) (Ledger.create numberHash [Containers.Node.invalid] Nat.one_pos)
      mixedActions).any (fun final => decide (final.inserted.length = 2 ∧ final.removed.length = 1 ∧
        final.system.table.size = 1)) = true := by
    decide +kernel
  obtain ⟨final,ran,test⟩ := (Option.any_eq_true _ _).mp evaluated
  exact ⟨final,ran,of_decide_eq_true test,
    consistent_of_run numberHash 0 [Containers.Node.invalid] Nat.one_pos mixedActions final ran⟩

end Sample
end Pgasus.HashTable
