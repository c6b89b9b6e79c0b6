import Mathlib.Data.List.Basic
import Mathlib.Data.Fin.Basic
import Mathlib.Algebra.BigOperators.Fin

/-! The NUMA-distributed hash table: bins, each a space of buckets, each a list
of pointers to nodes. A bin owns the memory of its nodes, so a `NodePtr` is a
position in that memory and stays valid when buckets are rebuilt. Sizes and
counters are natural numbers; hashes are 64-bit words. -/
namespace Pgasus.HashTable

abbrev HashType := BitVec 64
abbrev NodePtr := Nat

structure Node (Key T : Type) where
  hash : HashType
  key : Key
  value : T

/-- Pairs whose keys collide modulo some offset. The source's `generation` is a 64-bit word,
which 2^64 changes of one bucket would bring back to an earlier value. -/
structure Bucket where
  nodes : List NodePtr
  index : Nat
  generation : Nat

def Bucket.create (index binGeneration : Nat) : Bucket := ⟨[],index,binGeneration <<< 32⟩

def Bucket.pushBack (ptr : NodePtr) (bucket : Bucket) : Bucket :=
  {bucket with nodes := bucket.nodes ++ [ptr]}

def Bucket.touch (bucket : Bucket) : Bucket := {bucket with generation := bucket.generation + 1}

def Bucket.erase (position : Nat) (bucket : Bucket) : Bucket :=
  {bucket with nodes := bucket.nodes.eraseIdx position}

structure BucketSpace where
  numBuckets : Nat
  numBucketsMask : Nat
  buckets : List Bucket

def BucketSpace.create (size generation : Nat) : BucketSpace :=
  ⟨size,size - 1,(List.range size).map (fun i => Bucket.create i generation)⟩

/-- Position of the bucket for a hash; the low bits already chose the bin. -/
def BucketSpace.fromHash (binBits : Nat) (space : BucketSpace) (h : HashType) : Nat :=
  (h.toNat >>> binBits) &&& space.numBucketsMask

def BucketSpace.modify (space : BucketSpace) (bucket : Nat) (change : Bucket → Bucket) : BucketSpace :=
  {space with buckets := space.buckets.modify bucket change}

def BucketSpace.pointers (space : BucketSpace) : List NodePtr := space.buckets.flatMap (·.nodes)

/-- `heap` is the memory of the nodes constructed from the bin's own source. -/
structure BinData (Key T : Type) where
  heap : List (Node Key T)
  maxCount : Nat
  generation : Nat
  buckets : BucketSpace
  count : Nat

/-- `_max_load_ratio`; the float product is exact on the bucket counts that occur. -/
def maxLoadRatio : Nat := 3

namespace BinData
variable {Key T : Type} (hash : Key → HashType) (binBits : Nat)

def rehashNode (bin : BinData Key T) (space : BucketSpace) (ptr : NodePtr) : BucketSpace :=
  match bin.heap[ptr]? with
  | some node => space.modify (space.fromHash binBits (hash node.key)) (Bucket.pushBack ptr)
  | none => space

def resize (bin : BinData Key T) (size : Nat) : BinData Key T :=
  let generation := bin.generation + 1
  let newBuckets := bin.buckets.buckets.foldl
    (fun space bucket => bucket.nodes.foldl (rehashNode hash binBits bin) space)
    (BucketSpace.create size generation)
  {bin with maxCount := size * maxLoadRatio, generation := generation, buckets := newBuckets}

def create : BinData Key T := resize hash binBits ⟨[],0,0,⟨0,0,[]⟩,0⟩ 64

/-- The load test, made outside any lock and again under the bin's write lock. -/
def overloaded (bin : BinData Key T) : Bool := bin.maxCount ≤ bin.count

def resizeIfNecessary (bin : BinData Key T) : BinData Key T :=
  if bin.overloaded then resize hash binBits bin (2 * bin.buckets.buckets.length) else bin

def addToBucket (bin : BinData Key T) (bucket : Nat) (key : Key) (h : HashType) (value : T) :
    BinData Key T × NodePtr :=
  let ptr := bin.heap.length
  ({bin with
      count := bin.count + 1
      heap := bin.heap ++ [⟨h,key,value⟩]
      buckets := bin.buckets.modify bucket (fun b => (b.pushBack ptr).touch)},ptr)

variable [BEq Key]

def nodeMatches (bin : BinData Key T) (key : Key) (h : HashType) (ptr : NodePtr) : Bool :=
  match bin.heap[ptr]? with
  | some node => node.hash == h && node.key == key
  | none => false

def search (bin : BinData Key T) (bucket : Nat) (key : Key) (h : HashType) : Option (NodePtr × Nat) :=
  match bin.buckets.buckets[bucket]? with
  | some b => b.nodes.zipIdx.find? (fun it => bin.nodeMatches key h it.1)
  | none => none

end BinData

structure Detail (Key T Result : Type) where
  doesModify : Bool
  found : BinData Key T → Nat → NodePtr × Nat → BinData Key T × Result
  notfound : BinData Key T → Nat → Key → HashType → BinData Key T × Result

section Details
variable {Key T : Type}

def getOrCreate (default : T) : Detail Key T NodePtr where
  doesModify := true
  found bin _ it := (bin,it.1)
  notfound bin bucket key h := bin.addToBucket bucket key h default

def remove : Detail Key T Bool where
  doesModify := false
  found bin bucket it :=
    ({bin with
        buckets := bin.buckets.modify bucket (fun b => (b.erase it.2).touch)
        count := bin.count - 1},true)
  notfound bin _ _ _ := (bin,false)

end Details

def BinData.operateOnBin {Key T Result : Type} [BEq Key] (hash : Key → HashType) (binBits : Nat)
    (detail : Detail Key T Result) (bin : BinData Key T) (key : Key) (h : HashType) :
    BinData Key T × Result :=
  let bin := if detail.doesModify && bin.overloaded then bin.resizeIfNecessary hash binBits else bin
  let bucket := bin.buckets.fromHash binBits h
  match bin.search bucket key h with
  | some it => detail.found bin bucket it
  | none => detail.notfound bin bucket key h

def binCount (binBits : Nat) : Nat := 1 <<< binBits

theorem binCount_pos (binBits : Nat) : 0 < binCount binBits := by
  rw [binCount,Nat.one_shiftLeft]
  exact Nat.two_pow_pos binBits

def binIndex (binBits : Nat) (h : HashType) : Fin (binCount binBits) :=
  ⟨h.toNat &&& (binCount binBits - 1),by
    have pos := binCount_pos binBits
    exact Nat.lt_of_le_of_lt Nat.and_le_right (by omega)⟩

theorem nodeIndex_lt {nodes binBits : Nat} (nonempty : 0 < nodes) (index : Fin (binCount binBits)) :
    index.val * nodes / binCount binBits < nodes := by
  rw [Nat.div_lt_iff_lt_mul (binCount_pos binBits),Nat.mul_comm nodes]
  exact Nat.mul_lt_mul_of_pos_right index.isLt nonempty

structure Table (Key T NumaNode : Type) (binBits : Nat) where
  bins : Fin (binCount binBits) → BinData Key T
  binNodes : Fin (binCount binBits) → NumaNode

/-- What `table[key]` returns: a reference to the value of one node of one bin. -/
structure Ref (binBits : Nat) where
  bin : Fin (binCount binBits)
  node : NodePtr
deriving DecidableEq

namespace Table
variable {Key T NumaNode : Type} {binBits : Nat} (hash : Key → HashType)

def create (nodes : List NumaNode) (nonempty : 0 < nodes.length) : Table Key T NumaNode binBits where
  bins _ := BinData.create hash binBits
  binNodes index := nodes.get ⟨index.val * nodes.length / binCount binBits,nodeIndex_lt nonempty index⟩

def size (table : Table Key T NumaNode binBits) : Nat := ∑ index, (table.bins index).count

def setBin (table : Table Key T NumaNode binBits) (index : Fin (binCount binBits))
    (bin : BinData Key T) : Table Key T NumaNode binBits :=
  {table with bins := Function.update table.bins index bin}

def deref (table : Table Key T NumaNode binBits) (ref : Ref binBits) : Option T :=
  (table.bins ref.bin).heap[ref.node]?.map (·.value)

def assign (table : Table Key T NumaNode binBits) (ref : Ref binBits) (value : T) :
    Table Key T NumaNode binBits :=
  let bin := table.bins ref.bin
  table.setBin ref.bin {bin with heap := bin.heap.modify ref.node (fun node => {node with value := value})}

variable [BEq Key]

def index (default : T) (table : Table Key T NumaNode binBits) (key : Key) :
    Table Key T NumaNode binBits × Ref binBits :=
  let h := hash key
  let bin := binIndex binBits h
  let (changed,ptr) := (table.bins bin).operateOnBin hash binBits (getOrCreate default) key h
  (table.setBin bin changed,⟨bin,ptr⟩)

def remove (table : Table Key T NumaNode binBits) (key : Key) : Table Key T NumaNode binBits × Bool :=
  let h := hash key
  let bin := binIndex binBits h
  let (changed,removed) := (table.bins bin).operateOnBin hash binBits HashTable.remove key h
  (table.setBin bin changed,removed)

end Table
end Pgasus.HashTable
