import Pgasus.Containers.BinNodes
import Pgasus.HashTable.Refinement

/-! How the buckets of a node's bins are cut into ranges and handed out. The bounds come
from truncating divisions of 64-bit products, so a number of units near the word size
leaves buckets out. -/
namespace Pgasus.Containers
open Cursors Shares Words
open HashTable (Table Ref HashType binCount binCount_pos)

def minBinUnits (bins minUnits : Nat) : Nat := wrap (bins + minUnits + (2 ^ 64 - 1)) / bins

/-- The pairs `start` and `end` for a bin with a number of buckets. -/
def ranges (minBinUnits size : Nat) : List (Nat × Nat) :=
  let units := min minBinUnits size
  (List.range units).map (fun i => (wrap (i * size) / units,wrap ((i + 1) * size) / units))

/-- No range is empty or goes past the buckets, and every bucket is in exactly one of them. -/
structure Partition (size : Nat) (ranges : List (Nat × Nat)) : Prop where
  nonempty : ∀ range ∈ ranges, range.1 < range.2
  bounded : ∀ range ∈ ranges, range.2 ≤ size
  disjoint : ranges.Pairwise (fun first second => ∀ bucket, ¬(first.1 ≤ bucket ∧ bucket < first.2 ∧ second.1 ≤ bucket ∧ bucket < second.2))
  covered : ∀ bucket < size, ∃ range ∈ ranges, range.1 ≤ bucket ∧ bucket < range.2

section Ranges
variable {minUnits size units : Nat}

theorem ranges_exact (fits : min minUnits size * size < 2 ^ 64) : ranges minUnits size =
    (List.range (min minUnits size)).map (fun i => (bound size (min minUnits size) i,bound size (min minUnits size) (i + 1))) := by
  apply List.map_congr_left
  intro i inside
  have less := List.mem_range.mp inside
  have exact_ (count : Nat) (few : count ≤ min minUnits size) : wrap (count * size) = count * size :=
    wrap_of_lt (Nat.lt_of_le_of_lt (Nat.mul_le_mul_right size few) fits)
  rw [exact_ i (Nat.le_of_lt less),exact_ (i + 1) less]
  rfl

theorem partition_of_fits (some_ : 0 < size) (positive : 0 < minUnits) (fits : min minUnits size * size < 2 ^ 64) :
    Partition size (ranges minUnits size) := by
  have unitsPositive : 0 < min minUnits size := Nat.lt_min.mpr ⟨positive,some_⟩
  rw [ranges_exact fits]
  constructor
  · intro range inside
    obtain ⟨i,_,rfl⟩ := List.mem_map.mp inside
    exact bound_lt_succ unitsPositive (Nat.min_le_right _ _)
  · intro range inside
    obtain ⟨i,less,rfl⟩ := List.mem_map.mp inside
    calc bound size (min minUnits size) (i + 1) ≤ bound size (min minUnits size) (min minUnits size) :=
          bound_mono (List.mem_range.mp less)
      _ = size := bound_last unitsPositive
  · rw [List.pairwise_map]
    apply List.pairwise_lt_range.imp
    intro first second before bucket ⟨_,below,above,_⟩
    have apart : bound size (min minUnits size) (first + 1) ≤ bound size (min minUnits size) second := bound_mono before
    simp only at below above
    omega
  · intro bucket inside
    obtain ⟨i,less,share⟩ := exists_share unitsPositive inside
    exact ⟨_,List.mem_map_of_mem (List.mem_range.mpr less),share⟩

theorem fits_of_covered (some_ : 0 < size) (covered : ∀ bucket < size, ∃ range ∈ ranges minUnits size, range.1 ≤ bucket ∧ bucket < range.2) :
    0 < minUnits ∧ min minUnits size * size < 2 ^ 64 := by
  obtain ⟨range,inside,_,reached⟩ := covered (size - 1) (by omega)
  obtain ⟨i,less,rfl⟩ := List.mem_map.mp inside
  have unitsPositive : 0 < min minUnits size := Nat.zero_lt_of_lt (List.mem_range.mp less)
  refine ⟨Nat.lt_of_lt_of_le unitsPositive (Nat.min_le_left _ _),?_⟩
  have whole : size * min minUnits size ≤ wrap ((i + 1) * size) := by
    rw [← Nat.le_div_iff_mul_le unitsPositive]
    exact Nat.le_of_pred_lt reached
  rw [Nat.mul_comm]
  exact Nat.lt_of_le_of_lt whole (wrap_lt _)

end Ranges

structure Handout (WorkUnit : Type) where
  counter : Nat
  handed : List (Nat × WorkUnit)

section Handout
variable {WorkUnit : Type} (units : List WorkUnit)

/-- `get`: the counter is fetched and incremented in one step, and the vector never changes. -/
def Handout.get (handout : Handout WorkUnit) (consumer : Nat) : Handout WorkUnit :=
  ⟨handout.counter + 1,handout.handed ++ (units[handout.counter]?).toList.map (Prod.mk consumer)⟩

def Handout.gets (consumers : List Nat) : Handout WorkUnit := consumers.foldl (Handout.get units) ⟨0,[]⟩

theorem get_units {handout : Handout WorkUnit} (here : handout.handed.map Prod.snd = units.take handout.counter) (consumer : Nat) :
    (handout.get units consumer).handed.map Prod.snd = units.take (handout.get units consumer).counter := by
  rw [Handout.get,List.map_append,here,List.map_map]
  simp only [Function.comp_def,List.map_id']
  cases found : units[handout.counter]? with
  | none =>
    have past := List.getElem?_eq_none_iff.mp found
    rw [List.take_of_length_le past,List.take_of_length_le (Nat.le_succ_of_le past)]
    exact List.append_nil _
  | some unit =>
    rw [List.take_add_one,found]

theorem gets_units (consumers : List Nat) : (Handout.gets units consumers).handed.map Prod.snd = units.take consumers.length := by
  have kept (handout : Handout WorkUnit) (here : handout.handed.map Prod.snd = units.take handout.counter) :
      (consumers.foldl (Handout.get units) handout).handed.map Prod.snd = units.take (handout.counter + consumers.length) := by
    induction consumers generalizing handout with
    | nil => exact here
    | cons consumer rest ih =>
      rw [List.foldl_cons,ih _ (get_units units here consumer)]
      exact congrArg units.take (Nat.succ_add_eq_add_succ _ _)
  have all := kept ⟨0,[]⟩ rfl
  rwa [Nat.zero_add] at all

end Handout

section Node
variable {Key T : Type} {binBits : Nat} {table : Table Key T Node binBits} {node : Node} {minUnits : Nat}

/-- What consumers expect of the iteration over a node, in whatever order they call. -/
structure HandsOut (table : Table Key T Node binBits) (node : Node) (minUnits : Nat) : Prop where
  partition : ∀ index ∈ binsOf table node, Partition (table.bins index).buckets.buckets.length
    (ranges (minBinUnits (binsOf table node).length minUnits) (table.bins index).buckets.buckets.length)
  handed : ∃ units, parallelIteration table node minUnits = some units ∧
    (∀ unit ∈ units, ∃ rounds, (BucketSpaceIterator.walk binBits).loop rounds unit = some ((BucketSpaceIterator.walk binBits).rest unit)) ∧
    ∀ consumers, (Handout.gets units consumers).handed.map Prod.snd = units.take consumers.length ∧
      (units.length ≤ consumers.length →
        let drained := (Handout.gets units consumers).handed.flatMap (fun got => (BucketSpaceIterator.walk binBits).rest got.2)
        drained.Nodup ∧ ∀ ref, ref ∈ drained ↔ table.binNodes ref.bin = node ∧ ref.node ∈ (table.bins ref.bin).buckets.pointers)

/-- Neither the sum behind `min_bin_units` nor a product of units and buckets wraps. -/
def Fits (table : Table Key T Node binBits) (node : Node) (minUnits : Nat) : Prop :=
  let bins := (binsOf table node).length
  bins + minUnits ≤ 2 ^ 64 ∧ ∀ index ∈ binsOf table node,
    min ((bins + minUnits - 1) / bins) (table.bins index).buckets.buckets.length * (table.bins index).buckets.buckets.length < 2 ^ 64

theorem minBinUnits_exact {bins : Nat} (some_ : 0 < minUnits) (fits : bins + minUnits ≤ 2 ^ 64) :
    minBinUnits bins minUnits = (bins + minUnits - 1) / bins := by
  have same : wrap (bins + minUnits + (2 ^ 64 - 1)) = bins + minUnits - 1 := by
    unfold wrap
    omega
  rw [minBinUnits,same]

theorem fits_of_minBinUnits {bins : Nat} (few : bins ≤ 2 ^ 30) (word : minUnits < 2 ^ 64) (positive : 0 < minBinUnits bins minUnits) :
    bins + minUnits ≤ 2 ^ 64 := by
  by_contra wraps
  have small : wrap (bins + minUnits + (2 ^ 64 - 1)) < bins := by
    unfold wrap
    omega
  rw [minBinUnits,Nat.div_eq_of_lt small] at positive
  cases positive

theorem binUnits_eq (minUnits : Nat) (index : Fin (binCount binBits)) : binUnits table minUnits index =
    (ranges minUnits (table.bins index).buckets.buckets.length).map
      (fun range => .create index (table.bins index).buckets.buckets range.1 range.2) := by
  rw [binUnits,ranges,List.map_map]
  rfl

theorem create_shares (index : Fin (binCount binBits)) (buckets : List HashTable.Bucket) (units count : Nat) :
    ((List.range count).map (fun i => BucketSpaceIterator.create index buckets (bound buckets.length units i)
      (bound buckets.length units (i + 1)))).flatMap (BucketSpaceIterator.walk binBits).rest =
        (RecursiveIterator.range buckets 0 (bound buckets.length units count)).map (Ref.mk index) := by
  induction count with
  | zero => simp [bound_zero,RecursiveIterator.range]
  | succ count ih =>
    rw [List.range_succ,List.map_append,List.flatMap_append,ih,List.map_singleton,List.flatMap_singleton,
      BucketSpaceIterator.create_rest,← List.map_append,range_append buckets (bound_mono (Nat.le_succ count))]

theorem binUnits_fits {minUnits : Nat} (index : Fin (binCount binBits)) (some_ : 0 < (table.bins index).buckets.buckets.length)
    (positive : 0 < minUnits) (fits : min minUnits (table.bins index).buckets.buckets.length *
      (table.bins index).buckets.buckets.length < 2 ^ 64) :
    (binUnits table minUnits index).flatMap (BucketSpaceIterator.walk binBits).rest = binPairs table index := by
  rw [binUnits_eq,ranges_exact fits,List.map_map]
  refine (create_shares index _ _ _).trans ?_
  rw [bound_last (Nat.lt_min.mpr ⟨positive,some_⟩),RecursiveIterator.range,List.take_length,List.drop_zero]
  rfl

theorem mem_nodePairs {ref : Ref binBits} : ref ∈ (binsOf table node).flatMap (binPairs table) ↔
    table.binNodes ref.bin = node ∧ ref.node ∈ (table.bins ref.bin).buckets.pointers := by
  simp only [List.mem_flatMap,binsOf,List.mem_filter,List.mem_finRange,true_and,decide_eq_true_eq,binPairs,List.mem_map]
  constructor
  · rintro ⟨index,own,ptr,inside,rfl⟩
    exact ⟨own,inside⟩
  · rintro ⟨own,inside⟩
    exact ⟨ref.bin,own,ref.node,inside,rfl⟩

theorem nodup_nodePairs (distinct : ∀ index, (table.bins index).buckets.pointers.Nodup) :
    ((binsOf table node).flatMap (binPairs table)).Nodup := by
  have bins : (binsOf table node).Nodup := (List.nodup_finRange _).filter _
  rw [List.nodup_flatMap]
  refine ⟨fun index _ => (distinct index).map fun first second same => (Ref.mk.inj same).2,bins.imp fun different => ?_⟩
  rw [Function.onFun,List.disjoint_left]
  intro ref here there
  obtain ⟨_,_,rfl⟩ := List.mem_map.mp here
  obtain ⟨_,_,same⟩ := List.mem_map.mp there
  exact different (Ref.mk.inj same).1.symm

theorem parallelIteration_eq (bins : 0 < (binsOf table node).length) : parallelIteration table node minUnits =
    some ((binsOf table node).flatMap (binUnits table (minBinUnits (binsOf table node).length minUnits))) :=
  if_neg (Nat.ne_of_gt bins)

theorem handsOut_of_fits (owns : ∃ index, table.binNodes index = node) (distinct : ∀ index, (table.bins index).buckets.pointers.Nodup)
    (buckets : ∀ index, 0 < (table.bins index).buckets.buckets.length) (some_ : 0 < minUnits) (fits : Fits table node minUnits) :
    HandsOut table node minUnits := by
  obtain ⟨index,own⟩ := owns
  have inside : index ∈ binsOf table node := List.mem_filter.mpr ⟨List.mem_finRange index,decide_eq_true own⟩
  have bins : 0 < (binsOf table node).length := List.length_pos_of_mem inside
  obtain ⟨sum,products⟩ := fits
  have units := minBinUnits_exact some_ sum
  have positive : 0 < minBinUnits (binsOf table node).length minUnits := by
    rw [units]
    exact Nat.div_pos (by omega) bins
  rw [← units] at products
  refine ⟨fun index member => partition_of_fits (buckets index) positive (products index member),_,
    parallelIteration_eq bins,fun unit _ => ⟨_,Walk.loop_rest _ (Nat.le_refl _)⟩,fun consumers => ?_⟩
  have handed := gets_units ((binsOf table node).flatMap (binUnits table (minBinUnits (binsOf table node).length minUnits))) consumers
  refine ⟨handed,fun enough => ?_⟩
  rw [List.take_of_length_le enough] at handed
  have drained : (Handout.gets ((binsOf table node).flatMap (binUnits table (minBinUnits (binsOf table node).length minUnits)))
      consumers).handed.flatMap (fun got => (BucketSpaceIterator.walk binBits).rest got.2) =
        (binsOf table node).flatMap (binPairs table) := by
    rw [← List.flatMap_map Prod.snd,handed,List.flatMap_assoc]
    exact List.flatMap_congr fun bin member => binUnits_fits bin (buckets bin) positive (products bin member)
  dsimp only
  rw [drained]
  exact ⟨nodup_nodePairs distinct,fun ref => mem_nodePairs⟩

/-- The iteration over a node is right exactly when nothing wraps. -/
theorem handsOut_iff_fits (table : Table Key T Node binBits) (bits : binBits ≤ 30) (hash : Key → HashType)
    (valid : ∀ index, (table.bins index).Valid hash index) (node : Node) (owns : ∃ index, table.binNodes index = node)
    (minUnits : Nat) (some_ : 1 ≤ minUnits) (word : minUnits < 2 ^ 64) : HandsOut table node minUnits ↔ Fits table node minUnits := by
  have buckets (index : Fin (binCount binBits)) : 0 < (table.bins index).buckets.buckets.length := by
    rw [(valid index).shaped.length]
    exact (valid index).shaped.positive
  constructor
  · intro hands
    have covered (index : Fin (binCount binBits)) (member : index ∈ binsOf table node) :=
      fits_of_covered (buckets index) (hands.partition index member).covered
    obtain ⟨index,own⟩ := owns
    have inside : index ∈ binsOf table node := List.mem_filter.mpr ⟨List.mem_finRange index,decide_eq_true own⟩
    have few : (binsOf table node).length ≤ 2 ^ 30 := by
      apply Nat.le_trans (binsOf_length_le table node)
      rw [binCount,Nat.one_shiftLeft]
      exact Nat.pow_le_pow_right Nat.two_pos bits
    have sum := fits_of_minBinUnits few word (covered index inside).1
    refine ⟨sum,fun index member => ?_⟩
    rw [← minBinUnits_exact some_ sum]
    exact (covered index member).2
  · exact handsOut_of_fits owns (fun index => (valid index).nodup) buckets some_

/-- For a node with two bins the sum of 2^64 - 1 units wraps: there are no units at all. -/
theorem no_ranges : ¬HandsOut (Table.create sampleHash [⟨0,0⟩] (by decide) : Table Nat Nat Node 1) ⟨0,0⟩ (2 ^ 64 - 1) := by
  intro hands
  obtain ⟨range,inside,_⟩ := (hands.partition ⟨0,by decide⟩ (by decide +kernel)).covered 0 (by decide +kernel)
  have none_ : ranges (minBinUnits (binsOf (Table.create sampleHash [⟨0,0⟩] (by decide) : Table Nat Nat Node 1) ⟨0,0⟩).length (2 ^ 64 - 1))
      ((Table.create sampleHash [⟨0,0⟩] (by decide) : Table Nat Nat Node 1).bins ⟨0,by decide⟩).buckets.buckets.length = [] := by
    decide +kernel
  rw [none_] at inside
  cases inside

theorem handsOut_oneKey : HandsOut (oneKey 1) ⟨1,1⟩ 3 ∧
    (ranges 3 64) = [(0,21),(21,42),(42,64)] := by
  have lawful (a b : Nat) (same : (a == b) = true) : sampleHash a = sampleHash b := by rw [eq_of_beq same]
  have created := @Table.represents_create Nat Nat Node 1 sampleHash _ memoryNode.logicalNodes (by decide)
  refine ⟨(handsOut_iff_fits (oneKey 1) (by decide) sampleHash (created.index lawful 0 1).1.valid ⟨1,1⟩ (by decide +kernel) 3
    (by decide) (by decide)).mpr ?_,by decide +kernel⟩
  unfold Fits
  decide +kernel

end Node
end Pgasus.Containers
