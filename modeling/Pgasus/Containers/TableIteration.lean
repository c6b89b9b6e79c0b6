import Pgasus.Containers.Distributed
import Pgasus.HashTable.Table

/-! `for_each_distr` over a hash table. The work units of a node are ranges of the
buckets of its bins. An iteration is made for the nodes with CPUs only, so the pairs
in the bins of a node without CPUs are not gone through. -/
namespace Pgasus.Containers
open Cursors Words
open HashTable (Table Ref Bucket NodePtr binCount)

/-- A walk through a range of the buckets of a bin; `sub` has what is left of the
bucket at `currIndex`. -/
structure RecursiveIterator (binBits : Nat) where
  bin : Fin (binCount binBits)
  buckets : List Bucket
  currIndex : Nat
  endIndex : Nat
  sub : List NodePtr

namespace RecursiveIterator
variable {binBits : Nat} (iterator : RecursiveIterator binBits)

def isEnd : Bool := iterator.currIndex ≥ iterator.endIndex

def ahead : Nat := iterator.endIndex - iterator.currIndex

def subIter : List NodePtr := ((iterator.buckets[iterator.currIndex]?).map Bucket.nodes).getD []

def findNext : Nat → RecursiveIterator binBits → RecursiveIterator binBits
  | 0, iterator => iterator
  | rounds+1, iterator =>
    if iterator.currIndex < iterator.endIndex then
      if iterator.subIter ≠ [] then {iterator with sub := iterator.subIter}
      else findNext rounds {iterator with sub := iterator.subIter,currIndex := iterator.currIndex + 1}
    else iterator

def next : RecursiveIterator binBits :=
  if iterator.isEnd then iterator
  else if iterator.sub.tail ≠ [] then {iterator with sub := iterator.sub.tail}
  else
    let following := {iterator with sub := iterator.sub.tail,currIndex := iterator.currIndex + 1}
    findNext following.ahead following

def Settled : Prop := iterator.currIndex < iterator.endIndex → iterator.sub ≠ []

def range (buckets : List Bucket) (start finish : Nat) : List NodePtr :=
  ((buckets.take finish).drop start).flatMap Bucket.nodes

def rest : List (Ref binBits) :=
  if iterator.currIndex < iterator.endIndex then
    (iterator.sub ++ range iterator.buckets (iterator.currIndex + 1) iterator.endIndex).map (Ref.mk iterator.bin)
  else []

variable {iterator}

theorem range_step (before : iterator.currIndex < iterator.endIndex) :
    range iterator.buckets iterator.currIndex iterator.endIndex =
      iterator.subIter ++ range iterator.buckets (iterator.currIndex + 1) iterator.endIndex := by
  unfold range subIter
  by_cases bound : iterator.currIndex < iterator.buckets.length
  · have inside : iterator.currIndex < (iterator.buckets.take iterator.endIndex).length := by
      rw [List.length_take]
      omega
    rw [List.drop_eq_getElem_cons inside,List.flatMap_cons,List.getElem_take]
    simp [bound]
  · have short (start : Nat) (past : iterator.currIndex ≤ start) : (iterator.buckets.take iterator.endIndex).drop start = [] := by
      rw [List.drop_eq_nil_iff,List.length_take]
      omega
    rw [short _ (Nat.le_refl _),short _ (Nat.le_succ _)]
    simp [bound]

theorem findNext_rest (rounds : Nat) (iterator : RecursiveIterator binBits) (enough : iterator.ahead ≤ rounds) :
    (findNext rounds iterator).Settled ∧ (findNext rounds iterator).rest =
      (range iterator.buckets iterator.currIndex iterator.endIndex).map (Ref.mk iterator.bin) := by
  induction rounds generalizing iterator with
  | zero =>
    have ended : ¬iterator.currIndex < iterator.endIndex := by
      simp only [ahead] at enough
      omega
    have none_ : range iterator.buckets iterator.currIndex iterator.endIndex = [] := by
      simp only [range,List.drop_eq_nil_of_le (Nat.le_trans (List.length_take_le _ _) (Nat.not_lt.mp ended)),
        List.flatMap_nil]
    rw [findNext,rest,if_neg ended,none_]
    exact ⟨fun going => absurd going ended,rfl⟩
  | succ rounds ih =>
    rw [findNext]
    split
    next going =>
      rw [range_step going]
      split
      next some_ =>
        refine ⟨fun _ => some_,?_⟩
        rw [rest,if_pos going]
      next empty =>
        rw [Classical.not_not.mp empty,List.nil_append]
        apply ih
        simp only [ahead] at enough ⊢
        omega
    next ended =>
      have none_ : range iterator.buckets iterator.currIndex iterator.endIndex = [] := by
        simp only [range,List.drop_eq_nil_of_le (Nat.le_trans (List.length_take_le _ _) (Nat.not_lt.mp ended)),
          List.flatMap_nil]
      rw [rest,if_neg ended,none_]
      exact ⟨fun going => absurd going ended,rfl⟩

theorem next_settled (settled : iterator.Settled) : iterator.next.Settled := by
  unfold next
  split
  next => exact settled
  next =>
    split
    next more => exact fun _ => more
    next => exact (findNext_rest _ _ (Nat.le_refl _)).1

end RecursiveIterator

def BucketSpaceIterator (binBits : Nat) := {iterator : RecursiveIterator binBits // iterator.Settled}

namespace BucketSpaceIterator
variable {binBits : Nat}

/-- The constructor, with `init`. -/
def create (bin : Fin (binCount binBits)) (buckets : List Bucket) (start finish : Nat) : BucketSpaceIterator binBits :=
  let iterator : RecursiveIterator binBits :=
    ⟨bin,buckets,start,if finish < buckets.length then finish else buckets.length,[]⟩
  ⟨RecursiveIterator.findNext iterator.ahead iterator,(RecursiveIterator.findNext_rest _ _ (Nat.le_refl _)).1⟩

def walk (binBits : Nat) : Walk (BucketSpaceIterator binBits) (Ref binBits) where
  isEnd iterator := iterator.val.isEnd
  deref iterator := ⟨iterator.val.bin,iterator.val.sub.headD 0⟩
  next iterator := ⟨iterator.val.next,RecursiveIterator.next_settled iterator.property⟩
  rest iterator := iterator.val.rest
  ended iterator ended := by
    have past : ¬iterator.val.currIndex < iterator.val.endIndex := by
      simpa [RecursiveIterator.isEnd] using ended
    simp only [RecursiveIterator.rest,if_neg past]
  going iterator going := by
    obtain ⟨iterator,settled⟩ := iterator
    have before : iterator.currIndex < iterator.endIndex := by simpa [RecursiveIterator.isEnd] using going
    obtain ⟨first,others,same⟩ := List.exists_cons_of_ne_nil (settled before)
    have notEnd : iterator.isEnd = false := going
    simp only [RecursiveIterator.next,notEnd,Bool.false_eq_true,if_false,same,List.tail_cons,List.headD_cons]
    rw [RecursiveIterator.rest,if_pos before,same]
    split
    next => simp [RecursiveIterator.rest,before]
    next none_ =>
      rw [(RecursiveIterator.findNext_rest _ _ (Nat.le_refl _)).2,Classical.not_not.mp none_]
      rfl

theorem create_rest (bin : Fin (binCount binBits)) (buckets : List Bucket) (start finish : Nat) :
    (walk binBits).rest (create bin buckets start finish) =
      (RecursiveIterator.range buckets start finish).map (Ref.mk bin) := by
  change RecursiveIterator.rest _ = _
  rw [create,(RecursiveIterator.findNext_rest _ _ (Nat.le_refl _)).2]
  simp only [RecursiveIterator.range]
  split
  next => rfl
  next long => rw [List.take_of_length_le (Nat.le_refl _),List.take_of_length_le (Nat.not_lt.mp long)]

end BucketSpaceIterator

section TableIteration
variable {Key T : Type} {binBits : Nat} (table : Table Key T Node binBits)

def binsOf (node : Node) : List (Fin (binCount binBits)) :=
  (List.finRange (binCount binBits)).filter (fun index => table.binNodes index = node)

def binUnits (minBinUnits : Nat) (index : Fin (binCount binBits)) : List (BucketSpaceIterator binBits) :=
  let buckets := (table.bins index).buckets.buckets
  let units := min minBinUnits buckets.length
  (List.range units).map (fun i => .create index buckets (wrap (i * buckets.length) / units)
    (wrap ((i + 1) * buckets.length) / units))

/-- `ParallelIteration`; a node without bins makes it divide by zero. -/
def parallelIteration (node : Node) (minUnits : Nat) : Option (List (BucketSpaceIterator binBits)) :=
  let count := (binsOf table node).length
  if count = 0 then none
  else some ((binsOf table node).flatMap (binUnits table (wrap (count + minUnits + (2 ^ 64 - 1)) / count)))

def iterate (node : Node) (minUnits : Int) : Option (Option (List (BucketSpaceIterator binBits))) :=
  if node.valid then (parallelIteration table node (ofInt minUnits)).map some else some none

def unique : List Node → List Node
  | first::second::rest => if first = second then unique (second::rest) else first :: unique (second::rest)
  | nodes => nodes

def tableIterable : Iterable (BucketSpaceIterator binBits) where
  nodes := unique ((List.finRange (binCount binBits)).map table.binNodes)
  iterate := iterate table

def binPairs (index : Fin (binCount binBits)) : List (Ref binBits) :=
  (table.bins index).buckets.pointers.map (Ref.mk index)

def pairs : List (Ref binBits) := (List.finRange (binCount binBits)).flatMap (binPairs table)

theorem mem_unique {node : Node} (nodes : List Node) : node ∈ unique nodes ↔ node ∈ nodes := by
  induction nodes using unique.induct with
  | case1 second rest ih =>
    rw [unique,if_pos rfl,ih]
    simp
  | case2 first second rest different ih =>
    simp only [unique,if_neg different,List.mem_cons,ih]
  | case3 nodes short =>
    rw [unique]
    exact short

theorem length_unique_le (nodes : List Node) : (unique nodes).length ≤ nodes.length := by
  induction nodes using unique.induct with
  | case1 second rest ih =>
    rw [unique,if_pos rfl]
    exact Nat.le_succ_of_le ih
  | case2 first second rest different ih =>
    rw [unique,if_neg different]
    exact Nat.succ_le_succ ih
  | case3 nodes short =>
    rw [unique]
    exact short

theorem range_append (buckets : List Bucket) {middle finish : Nat} (before : middle ≤ finish) :
    RecursiveIterator.range buckets 0 middle ++ RecursiveIterator.range buckets middle finish =
      RecursiveIterator.range buckets 0 finish := by
  simp only [RecursiveIterator.range,List.drop_zero,← List.flatMap_append]
  have first : buckets.take middle = (buckets.take finish).take middle := by
    rw [List.take_take,Nat.min_eq_left before]
  rw [first,List.take_append_drop]

theorem binUnits_rest {minBinUnits : Nat} (index : Fin (binCount binBits)) (some_ : 0 < minBinUnits)
    (small : (table.bins index).buckets.buckets.length < 2 ^ 32) :
    (binUnits table minBinUnits index).flatMap (BucketSpaceIterator.walk binBits).rest = binPairs table index := by
  unfold binUnits binPairs HashTable.BucketSpace.pointers
  dsimp only
  generalize (table.bins index).buckets.buckets = buckets at small
  obtain rfl | positive := Nat.eq_zero_or_pos buckets.length |>.imp_left List.length_eq_zero_iff.mp
  · simp
  · generalize same : min minBinUnits buckets.length = units
    have unitsPositive : 0 < units := by omega
    have fewer : units ≤ buckets.length := by omega
    have fits (i : Nat) (bound : i ≤ units) : wrap (i * buckets.length) = i * buckets.length := by
      apply wrap_of_lt
      calc i * buckets.length ≤ buckets.length * buckets.length := Nat.mul_le_mul_right _ (Nat.le_trans bound fewer)
        _ < 2 ^ 32 * 2 ^ 32 := Nat.mul_lt_mul'' small small
        _ = 2 ^ 64 := (Nat.pow_add 2 32 32).symm
    -- the first ranges make up the first buckets
    have covered (count : Nat) (bound : count ≤ units) : ((List.range count).map (fun i =>
        BucketSpaceIterator.create index buckets (wrap (i * buckets.length) / units)
          (wrap ((i + 1) * buckets.length) / units))).flatMap (BucketSpaceIterator.walk binBits).rest =
        (RecursiveIterator.range buckets 0 (count * buckets.length / units)).map (Ref.mk index) := by
      induction count with
      | zero => simp [RecursiveIterator.range]
      | succ count ih =>
        have ordered : count * buckets.length / units ≤ (count + 1) * buckets.length / units :=
          Nat.div_le_div_right (Nat.mul_le_mul_right _ (Nat.le_succ count))
        rw [List.range_succ,List.map_append,List.flatMap_append,ih (Nat.le_of_succ_le bound),List.map_singleton,
          List.flatMap_singleton,BucketSpaceIterator.create_rest,fits count (Nat.le_of_succ_le bound),
          fits (count + 1) bound,← List.map_append,range_append buckets ordered]
    rw [covered units (Nat.le_refl _),Nat.mul_div_cancel_left _ unitsPositive]
    simp [RecursiveIterator.range]

theorem ofInt_toInt_pos {value : Nat} (positive : 0 < value) (small : value ≤ 2 ^ 31) :
    0 < ofInt (toInt value) ∧ ofInt (toInt value) ≤ 2 ^ 64 - 2 ^ 31 := by
  unfold ofInt toInt Int.bmod
  dsimp only
  split <;> omega

theorem toInt_lt (word : Nat) : toInt word < 2 ^ 31 := by
  unfold toInt Int.bmod
  dsimp only
  split <;> omega

theorem minNodeUnits_pos {count minUnits : Nat} (positive : 0 < count) (few : count ≤ 2 ^ 30) (nonneg : 0 ≤ toInt minUnits) :
    0 < ofInt (toInt (wrap (count + ofInt (toInt minUnits)) / count)) ∧
      ofInt (toInt (wrap (count + ofInt (toInt minUnits)) / count)) ≤ 2 ^ 64 - 2 ^ 31 := by
  have bound := toInt_lt minUnits
  generalize toInt minUnits = given at nonneg bound
  have same : wrap (count + ofInt given) = count + given.toNat := by
    unfold wrap ofInt
    omega
  rw [same]
  have small : given.toNat < 2 ^ 31 := by omega
  apply ofInt_toInt_pos
  · exact Nat.div_pos (Nat.le_add_right _ _) positive
  · apply Nat.div_le_of_le_mul
    calc count + given.toNat ≤ count * 1 + count * (2 ^ 31 - 1) := by
          have scaled := Nat.mul_le_mul_right (2 ^ 31 - 1) positive
          omega
      _ = count * 2 ^ 31 := (Nat.mul_add count 1 (2 ^ 31 - 1)).symm

theorem minBinUnits_pos {count minUnits : Nat} (positive : 0 < count) (some_ : 0 < minUnits) (fits : count + minUnits < 2 ^ 64) :
    0 < wrap (count + minUnits + (2 ^ 64 - 1)) / count := by
  apply Nat.div_pos _ positive
  unfold wrap
  omega

theorem binsOf_length_le (node : Node) : (binsOf table node).length ≤ binCount binBits :=
  (List.length_filter_le _ _).trans (List.length_finRange ▸ Nat.le_refl _)

theorem parallelIteration_some {node : Node} {minUnits : Nat} (owns : ∃ index, table.binNodes index = node)
    (bits : binCount binBits ≤ 2 ^ 30) (some_ : 0 < minUnits) (fits : minUnits ≤ 2 ^ 64 - 2 ^ 31)
    (small : ∀ index, (table.bins index).buckets.buckets.length < 2 ^ 32) :
    ∃ units, parallelIteration table node minUnits = some units ∧
      units.flatMap (BucketSpaceIterator.walk binBits).rest = (binsOf table node).flatMap (binPairs table) := by
  obtain ⟨index,own⟩ := owns
  have inside : index ∈ binsOf table node := List.mem_filter.mpr ⟨List.mem_finRange index,decide_eq_true own⟩
  have positive : 0 < (binsOf table node).length := List.length_pos_of_mem inside
  have bound := binsOf_length_le table node
  refine ⟨_,if_neg (Nat.ne_of_gt positive),?_⟩
  rw [List.flatMap_assoc]
  apply List.flatMap_congr
  intro bin _
  exact binUnits_rest table bin (minBinUnits_pos positive some_ (by omega)) (small bin)

theorem binsOf_perm {nodes : List Node} (distinct : nodes.Nodup) : (nodes.flatMap (binsOf table)).Perm
    ((List.finRange (binCount binBits)).filter (fun index => table.binNodes index ∈ nodes)) :=
  group_perm table.binNodes distinct _

end TableIteration

section Machines
variable {Key T : Type} {binBits : Nat} {table : Table Key T Node binBits} {machine : Machine} {workers : Node → Nat}
  {minUnits : Nat}

theorem forEachOnce_withCPUs (configured : ∀ index, table.binNodes index ∈ machine.logicalNodes)
    (owns : ∀ node ∈ machine.logicalNodesWithCPUs, ∃ index, table.binNodes index = node)
    (manned : ∀ node ∈ machine.logicalNodesWithCPUs, 0 < workers node) (nonneg : 0 ≤ toInt minUnits)
    (bits : binBits ≤ 30) (small : ∀ index, (table.bins index).buckets.buckets.length < 2 ^ 32) :
    ForEachOnce machine workers (tableIterable table) (BucketSpaceIterator.walk binBits) minUnits
      ((machine.logicalNodesWithCPUs.flatMap (binsOf table)).flatMap (binPairs table)) := by
  have count : binCount binBits ≤ 2 ^ 30 := by
    rw [binCount,Nat.one_shiftLeft]
    exact Nat.pow_le_pow_right Nat.two_pos bits
  have mem (node : Node) : node ∈ (tableIterable table).nodes ↔ ∃ index, table.binNodes index = node := by
    simp [tableIterable,mem_unique]
  have nonempty : (tableIterable table).nodes ≠ [] := by
    have first : Fin (binCount binBits) := ⟨0,HashTable.binCount_pos binBits⟩
    exact List.ne_nil_of_mem ((mem _).mpr ⟨first,rfl⟩)
  have few : (tableIterable table).nodes.length ≤ 2 ^ 30 := by
    apply Nat.le_trans (length_unique_le _)
    rw [List.length_map,List.length_finRange]
    exact count
  obtain ⟨some_,fits⟩ := minNodeUnits_pos (List.length_pos_of_ne_nil nonempty) few nonneg
  generalize given : toInt (wrap ((tableIterable table).nodes.length + ofInt (toInt minUnits)) /
    (tableIterable table).nodes.length) = minNodeUnits at some_ fits
  have units (node : Node) (inside : node ∈ machine.logicalNodesWithCPUs) :
      ∃ units, iterate table node minNodeUnits = some (some units) ∧
        units.flatMap (BucketSpaceIterator.walk binBits).rest = (binsOf table node).flatMap (binPairs table) := by
    obtain ⟨units,made,rest⟩ := parallelIteration_some table (owns node inside) count some_ fits small
    refine ⟨units,?_,rest⟩
    rw [iterate,if_pos (Machine.valid_of_mem (Machine.mem_withCPUs.mp inside).1),made]
    rfl
  have once : ForEachOnce machine workers (tableIterable table) (BucketSpaceIterator.walk binBits) minUnits
      ((machine.logicalNodesWithCPUs ++ [Node.invalid]).flatMap (fun node =>
        ((iterate table node minNodeUnits).join.getD []).flatMap (BucketSpaceIterator.walk binBits).rest)) := by
    apply forEachOnce_answers (fun node => (iterate table node minNodeUnits).join) nonempty
    · intro node either asked same
      rw [same,given]
      obtain inside | rfl := either
      · obtain ⟨units,made,_⟩ := units node inside
        exact made.trans (by rw [made]; rfl)
      · rfl
    · intro node inside
      obtain ⟨index,rfl⟩ := (mem node).mp inside
      exact configured index
    · exact fun node inside => (mem node).mpr (owns node inside)
    · exact manned
    · exact fun contrary => by cases contrary
  have same : (machine.logicalNodesWithCPUs ++ [Node.invalid]).flatMap (fun node =>
        ((iterate table node minNodeUnits).join.getD []).flatMap (BucketSpaceIterator.walk binBits).rest) =
      (machine.logicalNodesWithCPUs.flatMap (binsOf table)).flatMap (binPairs table) := by
    rw [List.flatMap_append,List.flatMap_singleton,List.flatMap_assoc]
    have none_ : ((iterate table .invalid minNodeUnits).join.getD []).flatMap (BucketSpaceIterator.walk binBits).rest = [] := rfl
    rw [none_,List.append_nil]
    apply List.flatMap_congr
    intro node inside
    obtain ⟨units,made,rest⟩ := units node inside
    rw [made]
    exact rest
  exact same ▸ once

theorem forEachOnce_pairs_iff (own : ∀ index, table.binNodes index ∈ machine.logicalNodes)
    (owns : ∀ node ∈ machine.logicalNodesWithCPUs, ∃ index, table.binNodes index = node)
    (manned : ∀ node ∈ machine.logicalNodesWithCPUs, 0 < workers node) (nonneg : 0 ≤ toInt minUnits)
    (bits : binBits ≤ 30) (small : ∀ index, (table.bins index).buckets.buckets.length < 2 ^ 32) :
    ForEachOnce machine workers (tableIterable table) (BucketSpaceIterator.walk binBits) minUnits (pairs table) ↔
      ∀ index, machine.cpuCount (table.binNodes index) = 0 → (table.bins index).buckets.pointers = [] := by
  have once := forEachOnce_withCPUs own owns manned nonneg bits small
  have cpus (index : Fin (binCount binBits)) : table.binNodes index ∈ machine.logicalNodesWithCPUs ↔
      machine.cpuCount (table.binNodes index) ≠ 0 := by
    rw [Machine.mem_withCPUs,Nat.pos_iff_ne_zero]
    exact and_iff_right (own index)
  have parted : (pairs table).Perm ((machine.logicalNodesWithCPUs.flatMap (binsOf table)).flatMap (binPairs table) ++
      ((List.finRange (binCount binBits)).filter (fun index => !decide (table.binNodes index ∈
        machine.logicalNodesWithCPUs))).flatMap (binPairs table)) := by
    have both := List.filter_append_perm (fun index => decide (table.binNodes index ∈ machine.logicalNodesWithCPUs))
      (List.finRange (binCount binBits))
    apply (both.flatMap_right (binPairs table)).symm.trans
    rw [List.flatMap_append]
    apply List.Perm.append_right
    exact ((binsOf_perm table (Machine.nodup_logicalNodes.filter _)).flatMap_right (binPairs table)).symm
  constructor
  · intro all index none_
    have length := (once.perm all).length_eq
    rw [parted.length_eq,List.length_append] at length
    have missing : ((List.finRange (binCount binBits)).filter (fun index => !decide (table.binNodes index ∈
        machine.logicalNodesWithCPUs))).flatMap (binPairs table) = [] := List.length_eq_zero_iff.mp (by omega)
    have member : index ∈ (List.finRange (binCount binBits)).filter (fun index => !decide (table.binNodes index ∈
        machine.logicalNodesWithCPUs)) := by
      simp [cpus,none_]
    exact List.map_eq_nil_iff.mp (List.flatMap_eq_nil_iff.mp missing index member)
  · intro empty
    apply once.of_perm
    have nothing : ((List.finRange (binCount binBits)).filter (fun index => !decide (table.binNodes index ∈
        machine.logicalNodesWithCPUs))).flatMap (binPairs table) = [] := by
      rw [List.flatMap_eq_nil_iff]
      intro index member
      have none_ : machine.cpuCount (table.binNodes index) = 0 := by
        simpa [cpus] using (List.mem_filter.mp member).2
      rw [binPairs,empty index none_]
      rfl
    rw [nothing,List.append_nil] at parted
    exact parted.symm

/-- Every pair is gone through once exactly when the bins of nodes without CPUs are empty. -/
theorem for_each_distr_once_iff (machine : Machine) (hash : Key → HashTable.HashType) (nodes : List Node)
    (nonempty : 0 < nodes.length) (configured : ∀ node ∈ nodes, node ∈ machine.logicalNodes)
    (table : Table Key T Node binBits) (bits : binBits ≤ 30)
    (built : table.binNodes = (Table.create hash nodes nonempty : Table Key T Node binBits).binNodes)
    (owns : ∀ node ∈ machine.logicalNodesWithCPUs, ∃ index, table.binNodes index = node)
    (workers : Node → Nat) (manned : ∀ node ∈ machine.logicalNodesWithCPUs, 0 < workers node)
    (minUnits : Nat) (nonneg : 0 ≤ toInt minUnits)
    (small : ∀ index, (table.bins index).buckets.buckets.length < 2 ^ 32) :
    ForEachOnce machine workers (tableIterable table) (BucketSpaceIterator.walk binBits) minUnits (pairs table) ↔
      ∀ index, machine.cpuCount (table.binNodes index) = 0 → (table.bins index).buckets.pointers = [] := by
  have own (index : Fin (binCount binBits)) : table.binNodes index ∈ machine.logicalNodes := by
    rw [built]
    exact configured _ (List.get_mem _ _)
  exact forEachOnce_pairs_iff own owns manned nonneg bits small

end Machines

section Samples

def sampleHash (key : Nat) : HashTable.HashType := BitVec.ofNat 64 key

def oneKey (key : Nat) : Table Nat Nat Node 1 :=
  ((Table.create sampleHash memoryNode.logicalNodes (by decide)).index sampleHash 0 key).1

theorem memoryNode_unvisited :
    ForEachOnce memoryNode (fun _ => 1) (tableIterable (oneKey 1)) (BucketSpaceIterator.walk 1) 0 [] ∧
      ¬ ForEachOnce memoryNode (fun _ => 1) (tableIterable (oneKey 1)) (BucketSpaceIterator.walk 1) 0
        (pairs (oneKey 1)) := by
  have once : ForEachOnce memoryNode (fun _ => 1) (tableIterable (oneKey 1)) (BucketSpaceIterator.walk 1) 0
      ((memoryNode.logicalNodesWithCPUs.flatMap (binsOf (oneKey 1))).flatMap (binPairs (oneKey 1))) :=
    forEachOnce_withCPUs (by decide +kernel) (by decide +kernel) (fun _ _ => Nat.one_pos) (by decide) (by decide)
      (by decide +kernel)
  have none_ : (memoryNode.logicalNodesWithCPUs.flatMap (binsOf (oneKey 1))).flatMap (binPairs (oneKey 1)) = [] := by
    decide +kernel
  have some_ : (pairs (oneKey 1)).length = 1 := by decide +kernel
  rw [none_] at once
  refine ⟨once,fun all => ?_⟩
  have length := (once.perm all).length_eq
  rw [some_] at length
  cases length

def evenKeys : Table Nat Nat Node 1 :=
  [0,2,4,130].foldl (fun table key => (table.index sampleHash 0 key).1)
    (Table.create sampleHash memoryNode.logicalNodes (by decide))

theorem for_each_distr_once_cpuNode :
    ForEachOnce memoryNode (fun _ => 3) (tableIterable evenKeys) (BucketSpaceIterator.walk 1) 2 (pairs evenKeys) ∧
      (pairs evenKeys).map (fun ref => ref.bin.val) = [0,0,0,0] := by
  refine ⟨(for_each_distr_once_iff memoryNode sampleHash memoryNode.logicalNodes (by decide) (fun _ => id) evenKeys
    (by decide) (by rfl) (by decide +kernel) (fun _ => 3) (fun _ _ => Nat.zero_lt_succ 2) 2 (by decide)
    (by decide +kernel)).mpr ?_,by decide +kernel⟩
  decide +kernel

end Samples
end Pgasus.Containers
