import Pgasus.HashTable.BucketIteration
import Pgasus.HashTable.Inventory
import Pgasus.Library.Iteration

/-! The three iterators of the hash table inside each other: over a bucket, over the
buckets of a space, over the bins of a table. The last two are one skip loop. Here no
bucket changes under them, and together they go through every pair once. -/
namespace Pgasus.HashTable
open Iteration Containers

/-- A `BucketIterator` with the bucket that it holds: the space and the index there. -/
structure BucketPlace (Address : Type) where
  space : Address
  bucket : Nat
  iterator : BucketIteration.BucketIterator

/-- `BucketSpaceIterator`; its `_buckets` is the owner. -/
abbrev SpaceIterator (Address : Type) := Nested Address (BucketPlace Address)

section Spaces
variable {Address Element : Type} (memory : Address → BucketSpace) (pair : Address → NodePtr → Element)

def bucketOf (space : Address) (bucket : Nat) : Bucket := ((memory space).buckets[bucket]?).getD ⟨[],bucket,0⟩

def bucketCursor : Cursor (Address → NodePtr → HashType) (BucketPlace Address) Element where
  isEnd place := place.iterator.isEnd
  deref place := place.iterator.currNode.map (pair place.space)
  next hashes place := {place with iterator := place.iterator.next (hashes place.space) (bucketOf memory place.space place.bucket)}

/-- `BucketIterator(bucket,it)`; without a position it starts at 0. -/
def bucketPlace (space : Address) (bucket position : Nat) : BucketPlace Address :=
  ⟨space,bucket,.create (bucketOf memory space bucket) position⟩

def bucketSubIter (space : Address) (bucket : Nat) : BucketPlace Address := bucketPlace memory space bucket 0

def spaceCursor : Cursor (Address → NodePtr → HashType) (SpaceIterator Address) Element :=
  Nested.nested (bucketCursor memory pair) (bucketSubIter memory)

/-- `BucketSpaceIterator(bs,start_bucket,end_bucket)`; before `init` its sub-iterator is `BucketIterator()`. -/
def SpaceIterator.create (space : Address) (startBucket endBucket : Nat) : SpaceIterator Address :=
  Nested.init (bucketCursor memory pair) (bucketSubIter memory) space ⟨space,0,⟨0,none,0⟩⟩ startBucket
    (if endBucket < (memory space).buckets.length then endBucket else (memory space).buckets.length)

def SpaceIterator.createAt (space : Address) (bucket position : Nat) : SpaceIterator Address :=
  ⟨space,bucket,(memory space).buckets.length,bucketPlace memory space bucket position⟩

variable {memory} {pair}

theorem bucket_yields {place : BucketPlace Address}
    (fresh : place.iterator.generation = (bucketOf memory place.space place.bucket).generation)
    (here : place.iterator.currNode = (bucketOf memory place.space place.bucket).nodes[place.iterator.index]?) :
    Yields (bucketCursor memory pair) place
      (((bucketOf memory place.space place.bucket).nodes.drop place.iterator.index).map (pair place.space)) := by
  obtain ⟨space,bucket,iterator⟩ := place
  simp only at fresh here ⊢
  induction left : (bucketOf memory space bucket).nodes.length - iterator.index generalizing iterator with
  | zero =>
    have past : (bucketOf memory space bucket).nodes.length ≤ iterator.index := by omega
    rw [List.getElem?_eq_none past] at here
    rw [List.drop_eq_nil_of_le past]
    refine .ended ?_
    simp only [bucketCursor,BucketIteration.BucketIterator.isEnd,here,Option.isNone_none]
  | succ left ih =>
    have inside : iterator.index < (bucketOf memory space bucket).nodes.length := by omega
    rw [List.getElem?_eq_getElem inside] at here
    rw [List.drop_eq_getElem_cons inside,List.map_cons]
    have moved (hashes : Address → NodePtr → HashType) : iterator.next (hashes space) (bucketOf memory space bucket) =
        ⟨iterator.generation,(bucketOf memory space bucket).nodes[iterator.index + 1]?,iterator.index + 1⟩ := by
      rw [BucketIteration.BucketIterator.next,here]
      simp only [fresh,if_true]
      rfl
    refine .going ?_ ?_ fun hashes => ?_
    · simp only [bucketCursor,BucketIteration.BucketIterator.isEnd,here,Option.isNone_some]
    · simp only [bucketCursor,here,Option.map_some]
    · have later := ih (iterator.next (hashes space) (bucketOf memory space bucket)) (by rw [moved]; exact fresh)
        (by rw [moved]) (by rw [moved]; simp only; omega)
      rw [moved] at later
      simp only [bucketCursor,moved]
      exact later

theorem bucketPlace_yields (space : Address) (bucket position : Nat) :
    Yields (bucketCursor memory pair) (bucketPlace memory space bucket position)
      (((bucketOf memory space bucket).nodes.drop position).map (pair space)) :=
  bucket_yields rfl rfl

def bucketPairs (memory : Address → BucketSpace) (pair : Address → NodePtr → Element) (space : Address) (bucket : Nat) :
    List Element := (bucketOf memory space bucket).nodes.map (pair space)

theorem subIter_yields (space : Address) (bucket : Nat) :
    Yields (bucketCursor memory pair) (bucketSubIter memory space bucket) (bucketPairs memory pair space bucket) :=
  bucketPlace_yields space bucket 0

theorem between_buckets (space : Address) {start finish : Nat} (bound : finish ≤ (memory space).buckets.length) :
    Nested.between (bucketPairs memory pair space) start finish =
      (RecursiveIterator.range (memory space).buckets start finish).map (pair space) := by
  induction left : finish - start generalizing start with
  | zero =>
    rw [Nested.between_past (by omega),RecursiveIterator.range,List.drop_eq_nil_of_le]
    · rfl
    · rw [List.length_take]
      omega
  | succ left ih =>
    have inside : start < ((memory space).buckets.take finish).length := by
      rw [List.length_take]
      omega
    rw [Nested.between_step (by omega),ih (by omega),RecursiveIterator.range,RecursiveIterator.range,
      List.drop_eq_getElem_cons inside,List.flatMap_cons,List.map_append,List.getElem_take]
    congr 1
    rw [bucketPairs,bucketOf,List.getElem?_eq_getElem (by omega)]
    rfl

theorem range_clipped (buckets : List Bucket) (start finish : Nat) :
    RecursiveIterator.range buckets start (if finish < buckets.length then finish else buckets.length) =
      RecursiveIterator.range buckets start finish := by
  split
  next => rfl
  next long =>
    rw [RecursiveIterator.range,RecursiveIterator.range,List.take_of_length_le (Nat.le_refl _),
      List.take_of_length_le (Nat.not_lt.mp long)]

theorem create_yields (space : Address) (startBucket endBucket : Nat) :
    Yields (spaceCursor memory pair) (SpaceIterator.create memory pair space startBucket endBucket)
      ((RecursiveIterator.range (memory space).buckets startBucket endBucket).map (pair space)) := by
  rw [← range_clipped,← between_buckets]
  · exact Nested.init_yields fun bucket _ _ => subIter_yields space bucket
  · split
    next inside => exact Nat.le_of_lt inside
    next => exact Nat.le_refl _

theorem createAt_yields (space : Address) {bucket position : Nat} (inside : bucket < (memory space).buckets.length)
    (element : position < (bucketOf memory space bucket).nodes.length) :
    Yields (spaceCursor memory pair) (SpaceIterator.createAt memory space bucket position)
      (((bucketOf memory space bucket).nodes.drop position ++
        RecursiveIterator.range (memory space).buckets (bucket + 1) (memory space).buckets.length).map (pair space)) := by
  rw [List.map_append,← between_buckets space (Nat.le_refl _)]
  apply Nested.yields_from 
  · exact bucketPlace_yields space bucket position
  · exact inside
  · simp only [ne_eq,List.map_eq_nil_iff,List.drop_eq_nil_iff]
    exact Nat.not_le.mpr element
  · exact fun bucket _ _ => subIter_yields space bucket

end Spaces

section Bins
variable {Key T : Type} {binBits : Nat} (table : Table Key T Containers.Node binBits)

/-- `HashTable::Iterator`; its `_table` is the table that all of this is about. -/
abbrev TableIterator (binBits : Nat) := Nested Unit (SpaceIterator (Fin (binCount binBits)))

def binSpace (bin : Fin (binCount binBits)) : BucketSpace := (table.bins bin).buckets

def binHashes (bin : Fin (binCount binBits)) : NodePtr → HashType := BucketIteration.hashOf (table.bins bin)

def binCursor : Cursor (Fin (binCount binBits) → NodePtr → HashType) (SpaceIterator (Fin (binCount binBits))) (Ref binBits) :=
  spaceCursor (binSpace table) Ref.mk

/-- `get_sub_iter`; the default for the last bucket is behind all of them, and no index is behind `BinCount`. -/
def binSubIter (_ : Unit) (idx : Nat) : SpaceIterator (Fin (binCount binBits)) :=
  if inside : idx < binCount binBits then
    .create (binSpace table) Ref.mk ⟨idx,inside⟩ 0 (binSpace table ⟨idx,inside⟩).buckets.length
  else ⟨⟨0,binCount_pos binBits⟩,0,0,⟨⟨0,binCount_pos binBits⟩,0,⟨0,none,0⟩⟩⟩

def tableCursor : Cursor (Fin (binCount binBits) → NodePtr → HashType) (TableIterator binBits) (Ref binBits) := Nested.nested (binCursor table) (binSubIter table)

/-- `Iterator(this,idx)`; before `init` its sub-iterator is `BucketSpaceIterator()`. -/
def TableIterator.create (idx : Nat) : TableIterator binBits :=
  Nested.init (binCursor table) (binSubIter table) () ⟨⟨0,binCount_pos binBits⟩,0,0,⟨⟨0,binCount_pos binBits⟩,0,⟨0,none,0⟩⟩⟩
    idx (binCount binBits)

/-- `HashTable::begin` and `end`. -/
def Table.first : TableIterator binBits := .create table 0

def Table.last : TableIterator binBits := .create table (binCount binBits)

variable {table}

theorem binSubIter_yields {idx : Nat} (inside : idx < binCount binBits) :
    Yields (binCursor table) (binSubIter table () idx) (binPairs table ⟨idx,inside⟩) := by
  have all := @create_yields _ _ (binSpace table) Ref.mk ⟨idx,inside⟩ 0 (binSpace table ⟨idx,inside⟩).buckets.length
  rw [RecursiveIterator.range,List.take_length,List.drop_zero] at all
  rw [binSubIter,dif_pos inside]
  exact all

def pairsAt (table : Table Key T Containers.Node binBits) (idx : Nat) : List (Ref binBits) :=
  if inside : idx < binCount binBits then binPairs table ⟨idx,inside⟩ else []

theorem between_bins : Nested.between (pairsAt table) 0 (binCount binBits) = pairs table := by
  rw [Nested.between,Nat.sub_zero,← List.range_eq_range',pairs,← List.map_coe_finRange_eq_range,List.flatMap_map]
  apply List.flatMap_congr
  intro bin _
  rw [pairsAt,dif_pos bin.isLt]

theorem first_yields : Yields (tableCursor table) table.first (pairs table) := by
  rw [← between_bins]
  apply Nested.init_yields
  intro idx _ inside
  rw [pairsAt,dif_pos inside]
  exact binSubIter_yields inside

/-- The walk is the one that leaves the bucket iterators out. -/
theorem loop_eq_fullIteration (counted : ∀ index, (table.bins index).count = (table.bins index).buckets.pointers.length) :
    (tableCursor table).loop (binHashes table) table.size table.first = table.fullIteration table.size := by
  have size := length_pairs table counted
  rw [first_yields.loop _ (Nat.le_of_eq size),Table.fullIteration,(tableWalk table).loop_rest] <;> rw [begin_rest]
  exact Nat.le_of_eq size

/-- What a walk through a table that is not modified does. -/
structure GoesThrough (table : Table Key T Containers.Node binBits) : Prop where
  walk : ∃ visited, (tableCursor table).loop (binHashes table) table.size table.first = some visited ∧ visited.Nodup ∧
    ∀ ref : Ref binBits, ref ∈ visited ↔ ref.node ∈ (table.bins ref.bin).buckets.pointers
  plain : (tableCursor table).loop (binHashes table) table.size table.first = table.fullIteration table.size
  last : (tableCursor table).isEnd table.last = true
  empty : (tableCursor table).isEnd table.first = true ↔ table.size = 0

/-- However the nodes are spread over bins and buckets, the walk from `begin()` ends and is at each of them once. -/
theorem goesThrough (table : Table Key T Containers.Node binBits)
    (distinct : ∀ index, (table.bins index).buckets.pointers.Nodup)
    (counted : ∀ index, (table.bins index).count = (table.bins index).buckets.pointers.length) : GoesThrough table := by
  have size := length_pairs table counted
  have all := @first_yields _ _ _ table
  refine ⟨⟨pairs table,all.loop _ (Nat.le_of_eq size),nodup_pairs table distinct,fun ref => mem_pairs table⟩,
    loop_eq_fullIteration counted,?_,?_⟩
  · have none_ : Yields (tableCursor table) table.last (Nested.between (pairsAt table) (binCount binBits) (binCount binBits)) := by
      apply Nested.init_yields
      exact fun idx behind before => absurd before (Nat.not_lt.mpr behind)
    rw [Nested.between_past (Nat.le_refl _)] at none_
    exact none_.isEnd_iff.mpr rfl
  · rw [all.isEnd_iff,← size,List.length_eq_zero_iff]

theorem memoryNode_nodes : 0 < memoryNode.logicalNodes.length := by decide

def threeKeys : Table Nat Nat Containers.Node 1 :=
  let table := Table.create sampleHash memoryNode.logicalNodes memoryNode_nodes
  (((table.index sampleHash 0 1).1.index sampleHash 0 3).1.index sampleHash 0 129).1

theorem goesThrough_threeKeys : threeKeys.size = 3 ∧ GoesThrough threeKeys :=
  ⟨by decide +kernel,goesThrough threeKeys (by decide +kernel) (by decide +kernel)⟩

end Bins
end Pgasus.HashTable
