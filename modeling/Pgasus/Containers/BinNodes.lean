import Pgasus.Containers.TableIteration
import Pgasus.Library.Shares

/-! Which bins the nodes of a table get, and what a distributed iteration needs of it:
a node with CPUs and without bins makes its `ParallelIteration` divide by zero. -/
namespace Pgasus.Containers
open Shares Words
open HashTable (Table HashType binCount binCount_pos)

/-- The position in the constructor's list that bin `index` gets its node from. With at most
2^31 nodes the product and the quotient fit the words that the source has for them. -/
def nodeIdx (binBits count index : Nat) : Nat := index * count / binCount binBits

section Unique
variable {rank : Node → Nat}

theorem unique_pairwise (nodes : List Node) (own : ∀ node ∈ nodes, ∀ other ∈ nodes, rank node = rank other → node = other)
    (sorted : nodes.Pairwise (fun first second => rank first ≤ rank second)) :
    (unique nodes).Pairwise (fun first second => rank first < rank second) := by
  induction nodes using unique.induct with
  | case1 second rest ih =>
    rw [unique,if_pos rfl]
    exact ih (fun node inside other also => own node (List.mem_cons_of_mem _ inside) other (List.mem_cons_of_mem _ also))
      (List.pairwise_cons.mp sorted).2
  | case2 first second rest different ih =>
    obtain ⟨before,tail⟩ := List.pairwise_cons.mp sorted
    have kept := ih
      (fun node inside other also => own node (List.mem_cons_of_mem _ inside) other (List.mem_cons_of_mem _ also)) tail
    rw [unique,if_neg different]
    refine List.pairwise_cons.mpr ⟨fun node inside => ?_,kept⟩
    have apart : rank first ≠ rank second := fun same =>
      different (own first List.mem_cons_self second (List.mem_cons_of_mem _ List.mem_cons_self) same)
    have less := Nat.lt_of_le_of_ne (before second List.mem_cons_self) apart
    rcases List.mem_cons.mp ((mem_unique _).mp inside) with rfl | later
    · exact less
    · exact Nat.lt_of_lt_of_le less ((List.pairwise_cons.mp tail).1 node later)
  | case3 nodes short =>
    cases nodes with
    | nil => exact List.Pairwise.nil
    | cons first rest =>
      cases rest with
      | nil => exact List.pairwise_singleton _ first
      | cons second rest => exact (short first second rest rfl).elim

end Unique

section Assigned
variable {Key T : Type} {binBits : Nat} {nodes : List Node} {table : Table Key T Node binBits}

/-- What the constructor does with its list of nodes, and what `nodes()` tells of it. -/
structure Assigned (nodes : List Node) (table : Table Key T Node binBits) : Prop where
  inRange : ∀ index : Fin (binCount binBits), nodeIdx binBits nodes.length index < nodes.length ∧
    nodes[nodeIdx binBits nodes.length index]? = some (table.binNodes index)
  ordered : ∀ first second : Fin (binCount binBits), first ≤ second →
    nodeIdx binBits nodes.length first ≤ nodeIdx binBits nodes.length second
  balanced : ∀ node ∈ nodes, (binsOf table node).length = binCount binBits / nodes.length ∨
    (binsOf table node).length = (binCount binBits + (nodes.length - 1)) / nodes.length
  listed : (tableIterable table).nodes = nodes.filter (fun node => ∃ index, table.binNodes index = node)
  once : (tableIterable table).nodes.Nodup
  whole : nodes.length ≤ binCount binBits → (tableIterable table).nodes = nodes

theorem nodeIdx_lt (nonempty : 0 < nodes.length) (index : Fin (binCount binBits)) :
    nodeIdx binBits nodes.length index < nodes.length := HashTable.nodeIndex_lt nonempty index

theorem mem_nodes {node : Node} : node ∈ (tableIterable table).nodes ↔ ∃ index, table.binNodes index = node := by
  simp [tableIterable,mem_unique]

theorem binsOf_length (distinct : nodes.Nodup) (nonempty : 0 < nodes.length)
    (made : ∀ index : Fin (binCount binBits), nodes[nodeIdx binBits nodes.length index]? = some (table.binNodes index)) {position : Nat}
    (inside : position < nodes.length) : (binsOf table nodes[position]).length =
      (List.range (binCount binBits)).countP (fun index => bound nodes.length (binCount binBits) index = position) := by
  rw [binsOf,← List.countP_eq_length_filter,← List.map_coe_finRange_eq_range,List.countP_map]
  apply List.countP_congr
  intro index _
  have less := nodeIdx_lt nonempty index
  have here := made index
  rw [List.getElem?_eq_getElem less] at here
  simp only [decide_eq_true_eq,Function.comp]
  rw [← Option.some.inj here]
  exact distinct.getElem_inj_iff

theorem assigned_of_made (distinct : nodes.Nodup) (nonempty : 0 < nodes.length)
    (made : ∀ index : Fin (binCount binBits), nodes[nodeIdx binBits nodes.length index]? = some (table.binNodes index)) : Assigned nodes table := by
  have ordered (first second : Fin (binCount binBits)) (before : first ≤ second) :
      nodeIdx binBits nodes.length first ≤ nodeIdx binBits nodes.length second := bound_mono before
  have balanced (node : Node) (inside : node ∈ nodes) :
      (binsOf table node).length = binCount binBits / nodes.length ∨
        (binsOf table node).length = (binCount binBits + (nodes.length - 1)) / nodes.length := by
    obtain ⟨position,less,rfl⟩ := List.mem_iff_getElem.mp inside
    rw [binsOf_length distinct nonempty made less]
    exact count_slot (binCount_pos binBits) less
  have ranked (index : Fin (binCount binBits)) : nodes.idxOf (table.binNodes index) = nodeIdx binBits nodes.length index := by
    have less := nodeIdx_lt nonempty index
    have here := made index
    rw [List.getElem?_eq_getElem less] at here
    rw [← Option.some.inj here,distinct.idxOf_getElem]
  have owned {node : Node} (inside : ∃ index, table.binNodes index = node) : node ∈ nodes := by
    obtain ⟨index,rfl⟩ := inside
    exact List.mem_of_getElem? (made index)
  -- both lists are strictly sorted by the position in `nodes`
  have sorted : (tableIterable table).nodes.Pairwise (fun first second => nodes.idxOf first < nodes.idxOf second) := by
    apply unique_pairwise
    · intro node inside other also same
      have first := owned (mem_nodes.mp ((mem_unique _).mpr inside))
      have second := owned (mem_nodes.mp ((mem_unique _).mpr also))
      exact (List.idxOf_inj first).mp same
    · rw [List.pairwise_map]
      apply (List.pairwise_lt_finRange _).imp
      intro first second before
      rw [ranked,ranked]
      exact ordered first second (Fin.le_of_lt before)
  have once : (tableIterable table).nodes.Nodup :=
    sorted.imp fun less same => absurd (congrArg nodes.idxOf same) (Nat.ne_of_lt less)
  have listed : (tableIterable table).nodes = nodes.filter (fun node => ∃ index, table.binNodes index = node) := by
    apply List.Perm.eq_of_pairwise (fun first second _ _ less more => absurd less (Nat.lt_asymm more)) sorted
    · apply List.Pairwise.filter
      rw [List.pairwise_iff_getElem]
      intro first second small less before
      rwa [distinct.idxOf_getElem,distinct.idxOf_getElem]
    · rw [List.perm_ext_iff_of_nodup once (distinct.filter _)]
      intro node
      rw [mem_nodes,List.mem_filter,decide_eq_true_eq]
      exact ⟨fun inside => ⟨owned inside,inside⟩,And.right⟩
  refine ⟨fun index => ⟨nodeIdx_lt nonempty index,made index⟩,ordered,balanced,listed,once,fun few => ?_⟩
  rw [listed,List.filter_eq_self]
  intro node inside
  have ratio : 0 < binCount binBits / nodes.length := Nat.div_pos few nonempty
  have more : binCount binBits / nodes.length ≤ (binCount binBits + (nodes.length - 1)) / nodes.length :=
    Nat.div_le_div_right (Nat.le_add_right _ _)
  have some_ : 0 < (binsOf table node).length := by
    rcases balanced node inside with down | up
    · rw [down]
      exact ratio
    · rw [up]
      exact Nat.lt_of_lt_of_le ratio more
  obtain ⟨index,member⟩ := List.exists_mem_of_length_pos some_
  exact decide_eq_true ⟨index,of_decide_eq_true (List.mem_filter.mp member).2⟩

/-- Bins are dealt to distinct nodes evenly and in the order of the list. -/
theorem create_assigned (Key T : Type) (binBits : Nat) (hash : Key → HashType) (nodes : List Node) (nonempty : 0 < nodes.length)
    (distinct : nodes.Nodup) : Assigned nodes (Table.create hash nodes nonempty : Table Key T Node binBits) :=
  assigned_of_made distinct nonempty fun index => List.getElem?_eq_getElem (nodeIdx_lt nonempty index)

/-- With two bins the third node gets none; with four the first one gets two. -/
theorem create_assigned_three :
    (tableIterable (Table.create sampleHash [⟨0,0⟩,⟨1,2⟩,⟨2,3⟩] (by decide) : Table Nat Nat Node 1)).nodes =
        [⟨0,0⟩,⟨1,2⟩] ∧
      (binsOf (Table.create sampleHash [⟨0,0⟩,⟨1,2⟩,⟨2,3⟩] (by decide) : Table Nat Nat Node 2) ⟨0,0⟩).length = 2 ∧
      Assigned [⟨0,0⟩,⟨1,2⟩,⟨2,3⟩] (Table.create sampleHash [⟨0,0⟩,⟨1,2⟩,⟨2,3⟩] (by decide) : Table Nat Nat Node 1) :=
  ⟨by decide +kernel,by decide +kernel,
    create_assigned Nat Nat 1 sampleHash [⟨0,0⟩,⟨1,2⟩,⟨2,3⟩] (by decide) (by decide)⟩

end Assigned

section Construction
variable {Key T : Type} {binBits : Nat} {table : Table Key T Node binBits} {machine : Machine}

/-- Every step of the constructor is defined, and its iterators stay in their buckets. -/
structure Constructs (machine : Machine) (table : Table Key T Node binBits) (minUnits : Int) : Prop where
  made : (DistributedIteration.create machine (tableIterable table) minUnits).isSome = true
  inRange : ∀ node ∈ machine.logicalNodesWithCPUs, ∀ minNodeUnits units,
    iterate table node minNodeUnits = some (some units) → ∀ unit ∈ units, unit.val.endIndex ≤ unit.val.buckets.length

theorem findNext_frame (rounds : Nat) (iterator : RecursiveIterator binBits) :
    (RecursiveIterator.findNext rounds iterator).endIndex = iterator.endIndex ∧
      (RecursiveIterator.findNext rounds iterator).buckets = iterator.buckets := by
  induction rounds generalizing iterator with
  | zero => exact ⟨rfl,rfl⟩
  | succ rounds ih =>
    rw [RecursiveIterator.findNext]
    split
    next =>
      split
      next => exact ⟨rfl,rfl⟩
      next => exact ih _
    next => exact ⟨rfl,rfl⟩

theorem create_inRange (bin : Fin (binCount binBits)) (buckets : List HashTable.Bucket) (start finish : Nat) :
    (BucketSpaceIterator.create bin buckets start finish).val.endIndex ≤
      (BucketSpaceIterator.create bin buckets start finish).val.buckets.length := by
  simp only [BucketSpaceIterator.create,findNext_frame]
  split
  next inside => exact Nat.le_of_lt inside
  next => exact Nat.le_refl _

theorem iterate_cases {node : Node} (valid : node.valid = true) (minUnits : Int) :
    (∀ index, table.binNodes index ≠ node) ∧ iterate table node minUnits = none ∨
      (∃ index, table.binNodes index = node) ∧ ∃ minBinUnits,
        iterate table node minUnits = some (some ((binsOf table node).flatMap (binUnits table minBinUnits))) := by
  rw [iterate,if_pos valid,parallelIteration]
  by_cases owns : ∃ index, table.binNodes index = node
  · obtain ⟨index,own⟩ := owns
    have inside : index ∈ binsOf table node := List.mem_filter.mpr ⟨List.mem_finRange index,decide_eq_true own⟩
    rw [if_neg (Nat.ne_of_gt (List.length_pos_of_mem inside))]
    exact Or.inr ⟨⟨index,own⟩,_,rfl⟩
  · have none_ : (binsOf table node).length = 0 := by
      rw [List.length_eq_zero_iff,binsOf,List.filter_eq_nil_iff]
      exact fun index _ own => owns ⟨index,of_decide_eq_true own⟩
    rw [if_pos none_]
    exact Or.inl ⟨fun index own => owns ⟨index,own⟩,rfl⟩

theorem collect_answers {WorkUnit : Type} {iterate : Node → Option (Option (List WorkUnit))} (nodes : List Node)
    {iterations final : List (Option (List WorkUnit))}
    (collected : DistributedIteration.collect iterate iterations nodes = some final) :
    ∀ node ∈ nodes, iterate node ≠ none := by
  induction nodes generalizing iterations with
  | nil => exact fun _ contrary => by cases contrary
  | cons first rest ih =>
    obtain ⟨units,answered,collected⟩ := Option.bind_eq_some_iff.mp collected
    split at collected
    next =>
      intro node inside
      rcases List.mem_cons.mp inside with rfl | inside
      · rw [answered]
        exact fun contrary => by cases contrary
      · exact ih collected node inside
    next => cases collected

/-- A distributed iteration can be made exactly when every node with CPUs owns a bin. -/
theorem constructs_iff_owned (machine : Machine) (table : Table Key T Node binBits) (minUnits : Int) :
    Constructs machine table minUnits ↔ ∀ node ∈ machine.logicalNodesWithCPUs, ∃ index, table.binNodes index = node := by
  have valid (node : Node) (inside : node ∈ machine.logicalNodesWithCPUs) : node.valid = true :=
    Machine.valid_of_mem (Machine.mem_withCPUs.mp inside).1
  have nonempty : (tableIterable table).nodes ≠ [] :=
    List.ne_nil_of_mem (mem_nodes.mpr ⟨⟨0,binCount_pos binBits⟩,rfl⟩)
  have some_ : (tableIterable table).nodes.length ≠ 0 := fun none_ => nonempty (List.length_eq_zero_iff.mp none_)
  constructor
  · intro constructs node inside
    obtain ⟨distributed,made⟩ := Option.isSome_iff_exists.mp constructs.made
    simp only [DistributedIteration.create,if_neg some_] at made
    obtain ⟨iterations,collected,_⟩ := Option.bind_eq_some_iff.mp made
    have answered := collect_answers _ collected node inside
    rcases iterate_cases (valid node inside) _ with ⟨_,trapped⟩ | ⟨owns,_⟩
    · exact absurd trapped answered
    · exact owns
  · intro owned
    constructor
    · have answers (count : Int) (node : Node) (which : node ∈ machine.logicalNodesWithCPUs ∨ node = .invalid) :
          iterate table node count = some (iterate table node count).join := by
        rcases which with inside | nowhere
        · rcases iterate_cases (valid node inside) count with ⟨missing,_⟩ | ⟨_,_,answered⟩
          · obtain ⟨index,own⟩ := owned node inside
            exact absurd own (missing index)
          · rw [answered]
            rfl
        · rw [nowhere]
          rfl
      obtain ⟨distributed,made,_⟩ := @DistributedIteration.create_some _ machine (tableIterable table)
        (fun node => (iterate table node (toInt (wrap ((tableIterable table).nodes.length + ofInt minUnits) /
          (tableIterable table).nodes.length))).join) minUnits nonempty
        (fun node which count same => by rw [same]; exact answers _ node which)
      exact Option.isSome_iff_exists.mpr ⟨distributed,made⟩
    · intro node inside minNodeUnits units answered unit member
      rcases iterate_cases (valid node inside) minNodeUnits with ⟨_,trapped⟩ | ⟨_,minBinUnits,made⟩
      · rw [trapped] at answered
        cases answered
      · obtain rfl := Option.some.inj (Option.some.inj (made.symm.trans answered))
        obtain ⟨bin,_,ranged⟩ := List.mem_flatMap.mp member
        obtain ⟨i,_,rfl⟩ := List.mem_map.mp ranged
        exact create_inRange _ _ _ _

theorem sorted_two : [0,1].Pairwise (fun first second : Nat => first < second) := by decide

def twoNodes : Machine where
  configured := [0,1]
  cpus _ := 1
  neighbors _ := [0,1]
  sorted := sorted_two
  runs := ⟨0,by decide,by decide⟩

/-- A table on the first of them traps as soon as the units of the second are asked for. -/
theorem unowned_traps :
    ¬Constructs twoNodes (Table.create sampleHash [⟨0,0⟩] (by decide) : Table Nat Nat Node 1) 0 := by
  intro constructs
  have trapped : DistributedIteration.create twoNodes
      (tableIterable (Table.create sampleHash [⟨0,0⟩] (by decide) : Table Nat Nat Node 1)) 0 = none := by decide +kernel
  have made := constructs.made
  rw [trapped] at made
  cases made

end Construction
end Pgasus.Containers
