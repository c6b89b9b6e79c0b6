import Pgasus.HashTable.Refinement

/-! Where the nodes of a table lie, and how many a bin can have, after any calls. Nothing is
asked of the hash or of the comparison of keys, which only decide whether a node is found. -/
namespace Pgasus.HashTable

/-! The product with the `float` ratio. -/

/-- The nearest `float`, of 24 significant bits; of two the even one. -/
def toFloat (value : Nat) : Nat :=
  let exponent := value.log2 + 1 - 24
  let quotient := value / 2 ^ exponent
  let rest := value % 2 ^ exponent
  let up := 2 ^ exponent < 2 * rest ∨ (2 ^ exponent = 2 * rest ∧ quotient % 2 = 1)
  (if up then quotient + 1 else quotient) * 2 ^ exponent

/-- `(size_t) (sz * _max_load_ratio)`. -/
def loadProduct (sz : Nat) : Nat := toFloat (toFloat sz * maxLoadRatio)

theorem toFloat_exact {significand exponent : Nat} (small : significand < 2 ^ 24) :
    toFloat (significand * 2 ^ exponent) = significand * 2 ^ exponent := by
  by_cases zero : significand = 0
  · subst zero
    rw [Nat.zero_mul]
    rfl
  · have bits : (significand * 2 ^ exponent).log2 + 1 - 24 ≤ exponent := by
      have top : (significand * 2 ^ exponent).log2 < 24 + exponent := by
        rw [Nat.log2_lt (Nat.mul_ne_zero zero (Nat.two_pow_pos exponent).ne'),Nat.pow_add]
        exact Nat.mul_lt_mul_of_pos_right small (Nat.two_pow_pos exponent)
      omega
    have divides : 2 ^ ((significand * 2 ^ exponent).log2 + 1 - 24) ∣ significand * 2 ^ exponent :=
      Dvd.dvd.mul_left (pow_dvd_pow 2 bits) significand
    have positive := Nat.two_pow_pos ((significand * 2 ^ exponent).log2 + 1 - 24)
    rw [toFloat,Nat.mod_eq_zero_of_dvd divides,if_neg (by omega)]
    exact Nat.div_mul_cancel divides

/-- On the bucket counts that occur it is three times the count. -/
theorem loadProduct_exact (doublings : Nat) : loadProduct (64 * 2 ^ doublings) = 64 * 2 ^ doublings * maxLoadRatio := by
  have product : 64 * 2 ^ doublings * maxLoadRatio = 192 * 2 ^ doublings := by
    rw [maxLoadRatio]
    omega
  rw [loadProduct,toFloat_exact (by decide),product,toFloat_exact (by decide)]

/-! What is called on a table, one after the other. -/

def get {Key T : Type} : Detail Key T (Option NodePtr) where
  doesModify := false
  found bin _ it := (bin,some it.1)
  notfound bin _ _ _ := (bin,none)

/-- `insertAsync` is `index`, what the generator calls, and `assign`. -/
inductive Invocation (Key T : Type) (binBits : Nat)
  | index (key : Key)
  | assign (ref : Ref binBits) (value : T)
  | lookup (key : Key)
  | remove (key : Key)
  | size

section Calls
variable {Key T NumaNode : Type} {binBits : Nat} [BEq Key] (hash : Key → HashType) (default : T)

/-- `table.lookup(key, dst)` as it is meant: no instance compiles, since the bin's `get` writes
`Get()` where the constructor of `Get` takes `dst`. -/
def Table.lookup (table : Table Key T NumaNode binBits) (key : Key) : Table Key T NumaNode binBits × Option (Ref binBits) :=
  let h := hash key
  let bin := binIndex binBits h
  let (changed,found) := (table.bins bin).operateOnBin hash binBits get key h
  (table.setBin bin changed,found.map fun ptr => ⟨bin,ptr⟩)

def Table.invoke (table : Table Key T NumaNode binBits) : Invocation Key T binBits → Table Key T NumaNode binBits
  | .index key => (table.index hash default key).1
  | .assign ref value => table.assign ref value
  | .lookup key => (table.lookup hash key).1
  | .remove key => (table.remove hash key).1
  | .size => table

end Calls

namespace BinData
variable {Key T Result : Type} {binBits : Nat} {hash : Key → HashType} {bin : BinData Key T} {index : Fin (binCount binBits)}

structure Loaded (hash : Key → HashType) (bin : BinData Key T) (index : Fin (binCount binBits)) : Prop where
  valid : bin.Valid hash index
  load : bin.count ≤ bin.maxCount

theorem resize_maxCount (size : Nat) : (bin.resize hash binBits size).maxCount = size * maxLoadRatio := rfl

theorem Loaded.makeRoom (loaded : bin.Loaded hash index) (doesModify : Bool) :
    (bin.makeRoom hash binBits doesModify).Loaded hash index ∧ (doesModify = true →
      (bin.makeRoom hash binBits doesModify).count < (bin.makeRoom hash binBits doesModify).maxCount) := by
  have valid := (makeRoom_spec loaded.valid doesModify).1
  have load := loaded.load
  have grown : bin.maxCount < 2 * bin.buckets.buckets.length * maxLoadRatio := by
    have capacity := loaded.valid.capacity
    have length := loaded.valid.shaped.length
    have positive := loaded.valid.shaped.positive
    rw [maxLoadRatio] at capacity ⊢
    omega
  by_cases full : bin.overloaded = true
  · have crowded : bin.maxCount ≤ bin.count := of_decide_eq_true full
    cases doesModify with
    | false => exact ⟨⟨valid,load⟩,nofun⟩
    | true =>
      have resized : bin.makeRoom hash binBits true = bin.resize hash binBits (2 * bin.buckets.buckets.length) := by
        rw [BinData.makeRoom,full,Bool.true_and,if_pos rfl,resizeIfNecessary,if_pos full]
      rw [resized] at valid ⊢
      rw [resize_count,resize_maxCount]
      exact ⟨⟨valid,Nat.le_of_lt (Nat.lt_of_le_of_lt load grown)⟩,fun _ => Nat.lt_of_le_of_lt load grown⟩
  · have room : bin.count < bin.maxCount := Nat.lt_of_not_le fun crowded => full (decide_eq_true crowded)
    have same : bin.makeRoom hash binBits doesModify = bin := by
      rw [BinData.makeRoom,if_neg]
      simp [full]
    rw [same]
    exact ⟨loaded,fun _ => room⟩

variable [BEq Key]

structure Keeps (hash : Key → HashType) (binBits : Nat) (detail : Detail Key T Result) : Prop where
  found : ∀ (bin : BinData Key T) (index : Fin (binCount binBits)) key it, bin.Loaded hash index →
    bin.search (bin.buckets.fromHash binBits (hash key)) key (hash key) = some it →
      (detail.found bin (bin.buckets.fromHash binBits (hash key)) it).1.Loaded hash index
  notfound : ∀ (bin : BinData Key T) (index : Fin (binCount binBits)) key, bin.Loaded hash index →
    binIndex binBits (hash key) = index → (detail.doesModify = true → bin.count < bin.maxCount) →
      (detail.notfound bin (bin.buckets.fromHash binBits (hash key)) key (hash key)).1.Loaded hash index

theorem Loaded.operateOnBin {detail : Detail Key T Result} (keeps : Keeps hash binBits detail) (loaded : bin.Loaded hash index)
    {key : Key} (binned : binIndex binBits (hash key) = index) :
    (bin.operateOnBin hash binBits detail key (hash key)).1.Loaded hash index := by
  obtain ⟨roomy,room⟩ := loaded.makeRoom detail.doesModify
  rw [operateOnBin_eq]
  dsimp only
  split
  next it found => exact keeps.found _ index key it roomy found
  next => exact keeps.notfound _ index key roomy binned room

theorem keeps_getOrCreate (default : T) : Keeps hash binBits (getOrCreate default : Detail Key T NodePtr) where
  found _ _ _ _ loaded _ := loaded
  notfound bin index key loaded binned room := by
    obtain ⟨valid,_,_,count,_⟩ := addToBucket_spec loaded.valid key default binned
    exact ⟨valid,count.trans_le (room rfl)⟩

theorem keeps_get : Keeps hash binBits (get : Detail Key T (Option NodePtr)) :=
  ⟨fun _ _ _ _ loaded _ => loaded,fun _ _ _ loaded _ _ => loaded⟩

theorem keeps_remove : Keeps hash binBits (remove : Detail Key T Bool) where
  found bin index key it loaded found := by
    obtain ⟨valid,_,_,count⟩ := remove_found_spec loaded.valid found
    have load := loaded.load
    refine ⟨valid,?_⟩
    change (remove.found bin _ it).1.count ≤ bin.maxCount
    omega
  notfound _ _ _ loaded _ _ := loaded

end BinData

namespace Table
variable {Key T NumaNode : Type} {binBits : Nat} {hash : Key → HashType} {table : Table Key T NumaNode binBits}

theorem loaded_setBin {index : Fin (binCount binBits)} {bin : BinData Key T} (loaded : ∀ index, (table.bins index).Loaded hash index)
    (changed : bin.Loaded hash index) (other : Fin (binCount binBits)) : ((table.setBin index bin).bins other).Loaded hash other := by
  by_cases same : other = index
  · subst same
    rwa [bins_setBin]
  · have kept : (table.setBin index bin).bins other = table.bins other := Function.update_of_ne same _ _
    rw [kept]
    exact loaded other

variable [BEq Key]

theorem loaded_invoke {default : T} (loaded : ∀ index, (table.bins index).Loaded hash index) (call : Invocation Key T binBits) :
    ∀ index, ((table.invoke hash default call).bins index).Loaded hash index := by
  cases call with
  | index key => exact loaded_setBin loaded ((loaded _).operateOnBin (BinData.keeps_getOrCreate default) rfl)
  | assign ref value => exact loaded_setBin loaded ⟨(BinData.assign_spec (loaded ref.bin).valid ref.node value).1,(loaded ref.bin).load⟩
  | lookup key => exact loaded_setBin loaded ((loaded _).operateOnBin BinData.keeps_get rfl)
  | remove key => exact loaded_setBin loaded ((loaded _).operateOnBin BinData.keeps_remove rfl)
  | size => exact loaded

theorem loaded_run {default : T} (loaded : ∀ index, (table.bins index).Loaded hash index) (calls : List (Invocation Key T binBits)) :
    ∀ index, ((calls.foldl (Table.invoke hash default) table).bins index).Loaded hash index := by
  induction calls generalizing table with
  | nil => exact loaded
  | cons call rest ih => exact ih (loaded_invoke loaded call)

end Table

/-- Every node lies where its hash says, which is the one of its key; there are 64 times a
power of two buckets, and at most three nodes for each on the average. -/
structure Occupied {Key T : Type} {binBits : Nat} (hash : Key → HashType) (bin : BinData Key T) (index : Fin (binCount binBits)) : Prop where
  powerOfTwo : ∃ doublings, bin.buckets.numBuckets = 64 * 2 ^ doublings
  length : bin.buckets.buckets.length = bin.buckets.numBuckets
  placed : ∀ position bucket ptr, bin.buckets.buckets[position]? = some bucket → ptr ∈ bucket.nodes →
    ∃ node, bin.heap[ptr]? = some node ∧ node.hash = hash node.key ∧ node.hash.toNat &&& (2 ^ binBits - 1) = index.val ∧
      (node.hash.toNat >>> binBits) &&& (bin.buckets.numBuckets - 1) = position
  counted : bin.count = (bin.buckets.buckets.map fun bucket => bucket.nodes.length).sum
  limit : bin.maxCount = loadProduct bin.buckets.numBuckets ∧ bin.maxCount = 3 * bin.buckets.numBuckets
  load : (bin.buckets.buckets.map fun bucket => bucket.nodes.length).sum ≤ bin.maxCount

theorem BinData.Loaded.occupied {Key T : Type} {binBits : Nat} {hash : Key → HashType} {bin : BinData Key T}
    {index : Fin (binCount binBits)} (loaded : bin.Loaded hash index) : Occupied hash bin index := by
  have valid := loaded.valid
  have capacity := valid.capacity
  have counted : bin.count = (bin.buckets.buckets.map fun bucket => bucket.nodes.length).sum := by
    rw [valid.counted,BucketSpace.pointers,List.length_flatMap]
  refine ⟨valid.shaped.powerOfTwo,valid.shaped.length,fun position bucket ptr here inside => ?_,counted,⟨?_,?_⟩,counted ▸ loaded.load⟩
  · obtain ⟨node,deref,hashed,located,binned⟩ := valid.placed position ptr ⟨bucket,here,inside⟩
    refine ⟨node,deref,hashed,?_,?_⟩
    · rw [← binned,← Nat.one_shiftLeft]
      rfl
    · rwa [BucketSpace.fromHash,valid.shaped.mask] at located
  · obtain ⟨doublings,size⟩ := valid.shaped.powerOfTwo
    rw [capacity,size,loadProduct_exact]
  · rw [capacity,maxLoadRatio,Nat.mul_comm]

/-- After any calls on a fresh table. -/
theorem table_occupied {Key T NumaNode : Type} [BEq Key] (hash : Key → HashType) (binBits : Nat) (nodes : List NumaNode)
    (nonempty : 0 < nodes.length) (default : T) (calls : List (Invocation Key T binBits)) (index : Fin (binCount binBits)) :
    Occupied hash ((calls.foldl (Table.invoke hash default) (Table.create hash nodes nonempty)).bins index) index :=
  (Table.loaded_run (fun index => ⟨(BinData.create_valid index).1,Nat.zero_le _⟩) calls index).occupied

def evenBin : Fin (binCount 1) := ⟨0,by decide⟩

/-- The 193rd key of the bin lets it grow. -/
def evenCalls : List (Invocation Nat Nat 1) :=
  [.index 2,.assign ⟨evenBin,0⟩ 7,.index 2,.lookup 4,.index 130,.remove 2] ++ (List.range 193).map fun key => .index (2 * key)

def evenTable : Table Nat Nat Unit 1 :=
  evenCalls.foldl (Table.invoke (fun key => BitVec.ofNat 64 key) 0) (Table.create (fun key : Nat => BitVec.ofNat 64 key) [()] Nat.one_pos)

theorem table_occupied_even : Occupied (fun key : Nat => BitVec.ofNat 64 key) (evenTable.bins evenBin) evenBin ∧
    (evenTable.bins evenBin).buckets.numBuckets = 128 := by
  refine ⟨?_,by decide +kernel⟩
  rw [evenTable]
  exact table_occupied (fun key : Nat => BitVec.ofNat 64 key) 1 [()] Nat.one_pos 0 evenCalls evenBin

end Pgasus.HashTable
