import Pgasus.HashTable.Table
import Mathlib.Data.List.Perm.Basic

/-! What every operation on a bin preserves: the shape of the bucket space, the
place of every node, and the count. Uniqueness of keys is kept apart, since two
threads can break it while everything else stays intact. -/
namespace Pgasus.HashTable

namespace BucketSpace

def Holds (space : BucketSpace) (position : Nat) (ptr : NodePtr) : Prop :=
  ∃ bucket, space.buckets[position]? = some bucket ∧ ptr ∈ bucket.nodes

structure Shaped (space : BucketSpace) : Prop where
  length : space.buckets.length = space.numBuckets
  mask : space.numBucketsMask = space.numBuckets - 1
  powerOfTwo : ∃ doublings, space.numBuckets = 64 * 2^doublings

theorem mem_pointers {space : BucketSpace} {ptr : NodePtr} :
    ptr ∈ space.pointers ↔ ∃ position, space.Holds position ptr := by
  simp only [pointers,List.mem_flatMap,Holds]
  constructor
  · rintro ⟨bucket,member,inside⟩
    obtain ⟨position,found⟩ := List.mem_iff_getElem?.mp member
    exact ⟨position,bucket,found,inside⟩
  · rintro ⟨position,bucket,found,inside⟩
    exact ⟨bucket,List.mem_of_getElem? found,inside⟩

theorem Shaped.positive {space : BucketSpace} (shaped : space.Shaped) : 0 < space.numBuckets := by
  obtain ⟨doublings,equal⟩ := shaped.powerOfTwo
  have := Nat.two_pow_pos doublings
  omega

theorem Shaped.fromHash_lt {space : BucketSpace} (shaped : space.Shaped) (binBits : Nat) (h : HashType) :
    space.fromHash binBits h < space.buckets.length := by
  have below : space.fromHash binBits h ≤ space.numBucketsMask := Nat.and_le_right
  have := shaped.positive
  rw [shaped.length]
  rw [shaped.mask] at below
  omega

theorem Shaped.modify {space : BucketSpace} (shaped : space.Shaped) (position : Nat)
    (change : Bucket → Bucket) : (space.modify position change).Shaped :=
  ⟨by simpa [BucketSpace.modify] using shaped.length,shaped.mask,shaped.powerOfTwo⟩

theorem shaped_create (doublings generation : Nat) : (create (64 * 2^doublings) generation).Shaped :=
  ⟨by simp [create],rfl,⟨doublings,rfl⟩⟩

@[simp] theorem pointers_create (size generation : Nat) : (create size generation).pointers = [] := by
  simp [pointers,create,Bucket.create]

theorem pointers_modify {space : BucketSpace} {position : Nat} {bucket : Bucket}
    (found : space.buckets[position]? = some bucket) (change : Bucket → Bucket) :
    ∃ before after, space.pointers = before ++ bucket.nodes ++ after ∧
      (space.modify position change).pointers = before ++ (change bucket).nodes ++ after := by
  obtain ⟨inside,rfl⟩ := List.getElem?_eq_some_iff.mp found
  refine ⟨(space.buckets.take position).flatMap (·.nodes),
    (space.buckets.drop (position+1)).flatMap (·.nodes),?_,?_⟩
  · have split := congrArg (List.flatMap (·.nodes)) (List.take_append_drop position space.buckets)
    rw [List.drop_eq_getElem_cons inside] at split
    simpa only [pointers,List.flatMap_append,List.flatMap_cons,List.append_assoc] using split.symm
  · simp [pointers,modify,List.modify_eq_take_cons_drop inside]

theorem pointers_pushBack {space : BucketSpace} {position : Nat} (inside : position < space.buckets.length)
    (ptr : NodePtr) {change : Bucket → Bucket} (pushes : ∀ b, (change b).nodes = b.nodes ++ [ptr]) :
    (space.modify position change).pointers.Perm (ptr :: space.pointers) := by
  obtain ⟨before,after,old,new⟩ := pointers_modify (List.getElem?_eq_getElem inside) change
  rw [old,new,pushes,← List.append_assoc,List.append_assoc _ [ptr]]
  exact List.perm_middle

theorem holds_modify {space : BucketSpace} {position other : Nat} {ptr : NodePtr}
    {change : Bucket → Bucket} :
    (space.modify position change).Holds other ptr ↔
      if position = other then ∃ bucket, space.buckets[other]? = some bucket ∧ ptr ∈ (change bucket).nodes
      else space.Holds other ptr := by
  simp only [Holds,modify,List.getElem?_modify]
  split <;> simp

end BucketSpace

namespace BinData
variable {Key T : Type} (hash : Key → HashType) {binBits : Nat}

def NodeAt (bin : BinData Key T) (index : Fin (binCount binBits)) (position : Nat) (ptr : NodePtr) : Prop :=
  ∃ node, bin.heap[ptr]? = some node ∧ node.hash = hash node.key ∧
    bin.buckets.fromHash binBits node.hash = position ∧ binIndex binBits node.hash = index

structure Valid (bin : BinData Key T) (index : Fin (binCount binBits)) : Prop where
  shaped : bin.buckets.Shaped
  placed : ∀ position ptr, bin.buckets.Holds position ptr → NodeAt hash bin index position ptr
  nodup : bin.buckets.pointers.Nodup
  counted : bin.count = bin.buckets.pointers.length
  capacity : bin.maxCount = bin.buckets.numBuckets * maxLoadRatio

variable [BEq Key]

def Contains (bin : BinData Key T) (key : Key) (ptr : NodePtr) : Prop :=
  ptr ∈ bin.buckets.pointers ∧ ∃ node, bin.heap[ptr]? = some node ∧ (node.key == key) = true

def AtMostOne (bin : BinData Key T) : Prop :=
  ∀ key first second, bin.Contains key first → bin.Contains key second → first = second

theorem nodeMatches_iff {bin : BinData Key T} {key : Key} {h : HashType} {ptr : NodePtr} :
    bin.nodeMatches key h ptr = true ↔
      ∃ node, bin.heap[ptr]? = some node ∧ node.hash = h ∧ (node.key == key) = true := by
  unfold nodeMatches
  cases found : bin.heap[ptr]? with
  | none => simp
  | some node => simp

theorem search_some {bin : BinData Key T} {bucket : Nat} {key : Key} {h : HashType} {it : NodePtr × Nat}
    (found : bin.search bucket key h = some it) :
    ∃ b, bin.buckets.buckets[bucket]? = some b ∧ b.nodes[it.2]? = some it.1 ∧
      bin.nodeMatches key h it.1 = true := by
  unfold search at found
  split at found
  next b lookup =>
    have member := List.mem_of_find?_eq_some found
    exact ⟨b,lookup,List.mem_zipIdx_iff_getElem?.mp member,by simpa using List.find?_some found⟩
  next => contradiction

theorem search_none {bin : BinData Key T} {bucket : Nat} {key : Key} {h : HashType}
    (absent : bin.search bucket key h = none) {ptr : NodePtr} (holds : bin.buckets.Holds bucket ptr) :
    bin.nodeMatches key h ptr = false := by
  obtain ⟨b,lookup,inside⟩ := holds
  obtain ⟨position,at_⟩ := List.mem_iff_getElem?.mp inside
  simp only [search,lookup,List.find?_eq_none] at absent
  simpa using absent (ptr,position) (List.mem_zipIdx_iff_getElem?.mpr at_)

theorem search_absent {hash : Key → HashType} (lawful : ∀ a b, (a == b) = true → hash a = hash b)
    {bin : BinData Key T} {index : Fin (binCount binBits)} (valid : bin.Valid hash index)
    {key : Key} (absent : bin.search (bin.buckets.fromHash binBits (hash key)) key (hash key) = none)
    (ptr : NodePtr) : ¬ bin.Contains key ptr := by
  rintro ⟨member,node,deref,equal⟩
  obtain ⟨position,holds⟩ := BucketSpace.mem_pointers.mp member
  obtain ⟨other,same,hashed,located,_⟩ := valid.placed position ptr holds
  obtain rfl := Option.some.inj (deref.symm.trans same)
  have hashes : node.hash = hash key := hashed.trans (lawful _ _ equal)
  have here : position = bin.buckets.fromHash binBits (hash key) := by rw [← located,hashes]
  subst here
  have failed := search_none absent holds
  have succeeded := nodeMatches_iff.mpr ⟨node,deref,hashes,equal⟩
  simp [succeeded] at failed

theorem search_contains {bin : BinData Key T} {bucket : Nat} {key : Key} {h : HashType}
    {it : NodePtr × Nat} (found : bin.search bucket key h = some it) : bin.Contains key it.1 := by
  obtain ⟨b,lookup,position,matched⟩ := search_some found
  obtain ⟨node,deref,_,equal⟩ := nodeMatches_iff.mp matched
  exact ⟨BucketSpace.mem_pointers.mpr ⟨bucket,b,lookup,List.mem_of_getElem? position⟩,node,deref,equal⟩

section Resize
variable {hash : Key → HashType}
omit [BEq Key]

theorem rehash_fold (binBits : Nat) (bin : BinData Key T) (ptrs : List NodePtr) (space : BucketSpace) (shaped : space.Shaped)
    (known : ∀ ptr ∈ ptrs, ∃ node, bin.heap[ptr]? = some node ∧ node.hash = hash node.key) :
    let result := ptrs.foldl (rehashNode hash binBits bin) space
    result.Shaped ∧ result.numBuckets = space.numBuckets ∧
      result.pointers.Perm (ptrs ++ space.pointers) ∧
      ∀ position ptr, result.Holds position ptr → space.Holds position ptr ∨
        ptr ∈ ptrs ∧ ∃ node, bin.heap[ptr]? = some node ∧ space.fromHash binBits node.hash = position := by
  induction ptrs generalizing space with
  | nil => exact ⟨shaped,rfl,List.Perm.refl _,fun _ _ holds => Or.inl holds⟩
  | cons ptr rest ih =>
    obtain ⟨node,deref,hashed⟩ := known ptr (by simp)
    let target := space.fromHash binBits (hash node.key)
    let next := space.modify target (Bucket.pushBack ptr)
    have moved : rehashNode hash binBits bin space ptr = next := by simp [rehashNode,deref,next,target]
    obtain ⟨keptShape,keptSize,perm,placed⟩ := ih next (shaped.modify _ _)
      (fun other member => known other (by simp [member]))
    have pushed : next.pointers.Perm (ptr :: space.pointers) :=
      BucketSpace.pointers_pushBack (shaped.fromHash_lt binBits _) ptr (fun _ => rfl)
    simp only [List.foldl_cons,moved]
    refine ⟨keptShape,keptSize,?_,?_⟩
    · exact (perm.trans (pushed.append_left rest)).trans (by simp [List.perm_middle])
    · intro position other holds
      rcases placed position other holds with before | ⟨member,found⟩
      · rw [BucketSpace.holds_modify] at before
        split at before
        next same =>
          obtain ⟨bucket,lookup,inside⟩ := before
          rcases List.mem_append.mp inside with old | new
          · exact Or.inl ⟨bucket,lookup,old⟩
          · obtain rfl := List.mem_singleton.mp new
            exact Or.inr ⟨by simp,node,deref,by rw [hashed]; exact same⟩
        next => exact Or.inl before
      · exact Or.inr ⟨by simp [member],found⟩

theorem resize_buckets (bin : BinData Key T) (size : Nat) :
    (bin.resize hash binBits size).buckets =
      bin.buckets.pointers.foldl (rehashNode hash binBits bin) (BucketSpace.create size (bin.generation+1)) := by
  simp [resize,BucketSpace.pointers,List.foldl_flatMap]

@[simp] theorem resize_count (bin : BinData Key T) (size : Nat) :
    (bin.resize hash binBits size).count = bin.count := rfl

/-- A resize keeps the nodes and puts each of them where its hash says. -/
theorem resize_spec (bin : BinData Key T) (index : Fin (binCount binBits)) (doublings : Nat)
    (nodup : bin.buckets.pointers.Nodup) (counted : bin.count = bin.buckets.pointers.length)
    (known : ∀ ptr ∈ bin.buckets.pointers, ∃ node, bin.heap[ptr]? = some node ∧
      node.hash = hash node.key ∧ binIndex binBits node.hash = index) :
    (bin.resize hash binBits (64 * 2^doublings)).Valid hash index ∧
      (bin.resize hash binBits (64 * 2^doublings)).buckets.pointers.Perm bin.buckets.pointers := by
  have shape := BucketSpace.shaped_create doublings (bin.generation+1)
  obtain ⟨shaped,size,perm,placed⟩ := rehash_fold binBits bin bin.buckets.pointers _ shape
    (fun ptr member => (known ptr member).imp fun _ found => ⟨found.1,found.2.1⟩)
  rw [← resize_buckets] at shaped size perm placed
  simp only [BucketSpace.pointers_create,List.append_nil] at perm
  refine ⟨⟨shaped,?_,perm.nodup_iff.mpr nodup,counted.trans perm.length_eq.symm,?_⟩,perm⟩
  · intro position ptr holds
    rcases placed position ptr holds with impossible | ⟨member,node,deref,located⟩
    · have absurd := BucketSpace.mem_pointers.mpr ⟨position,impossible⟩
      simp at absurd
    · obtain ⟨same,deref',hashed,binned⟩ := known ptr member
      obtain rfl := Option.some.inj (deref.symm.trans deref')
      refine ⟨node,deref,hashed,?_,binned⟩
      rw [← located]
      simp only [BucketSpace.fromHash,shaped.mask,shape.mask,size]
  · rw [size]
    rfl

theorem create_valid (index : Fin (binCount binBits)) :
    (create hash binBits : BinData Key T).Valid hash index ∧
      (create hash binBits : BinData Key T).buckets.pointers = [] := by
  have spec := @resize_spec Key T binBits hash ⟨[],0,0,⟨0,0,[]⟩,0⟩ index 0 (by simp [BucketSpace.pointers])
    (by simp [BucketSpace.pointers]) (by simp [BucketSpace.pointers])
  exact ⟨spec.1,List.perm_nil.mp spec.2⟩

theorem resizeIfNecessary_spec {bin : BinData Key T} {index : Fin (binCount binBits)}
    (valid : bin.Valid hash index) :
    (bin.resizeIfNecessary hash binBits).Valid hash index ∧
      (bin.resizeIfNecessary hash binBits).buckets.pointers.Perm bin.buckets.pointers ∧
      (bin.resizeIfNecessary hash binBits).heap = bin.heap ∧
      (bin.resizeIfNecessary hash binBits).count = bin.count := by
  unfold resizeIfNecessary
  split
  next =>
    obtain ⟨doublings,size⟩ := valid.shaped.powerOfTwo
    have doubled : 2 * bin.buckets.buckets.length = 64 * 2^(doublings+1) := by
      rw [valid.shaped.length,size,Nat.pow_succ]
      omega
    have spec := @resize_spec Key T binBits hash bin index (doublings+1) valid.nodup valid.counted (by
      intro ptr member
      obtain ⟨position,holds⟩ := BucketSpace.mem_pointers.mp member
      obtain ⟨node,deref,hashed,_,binned⟩ := valid.placed position ptr holds
      exact ⟨node,deref,hashed,binned⟩)
    rw [doubled]
    exact ⟨spec.1,spec.2,rfl,rfl⟩
  next => exact ⟨valid,List.Perm.refl _,rfl,rfl⟩

end Resize

section Contents
variable {hash : Key → HashType}

theorem contains_of_perm {bin other : BinData Key T} (heap : other.heap = bin.heap)
    (perm : other.buckets.pointers.Perm bin.buckets.pointers) (key : Key) (ptr : NodePtr) :
    other.Contains key ptr ↔ bin.Contains key ptr := by
  simp only [Contains,heap,perm.mem_iff]

omit [BEq Key] in
theorem Valid.allocated {bin : BinData Key T} {index : Fin (binCount binBits)} (valid : bin.Valid hash index)
    {ptr : NodePtr} (member : ptr ∈ bin.buckets.pointers) : ptr < bin.heap.length := by
  obtain ⟨position,holds⟩ := BucketSpace.mem_pointers.mp member
  obtain ⟨node,deref,_⟩ := valid.placed position ptr holds
  exact (List.getElem?_eq_some_iff.mp deref).1

omit [BEq Key] in
/-- A new node joins the bin; every other node stays what and where it was. -/
theorem addToBucket_spec {bin : BinData Key T} {index : Fin (binCount binBits)} (valid : bin.Valid hash index)
    (key : Key) (value : T) (binned : binIndex binBits (hash key) = index) :
    let added := bin.addToBucket (bin.buckets.fromHash binBits (hash key)) key (hash key) value
    added.1.Valid hash index ∧ added.1.buckets.pointers.Perm (bin.heap.length :: bin.buckets.pointers) ∧
      added.1.heap = bin.heap ++ [⟨hash key,key,value⟩] ∧ added.1.count = bin.count + 1 ∧
      added.2 = bin.heap.length := by
  have pushed : (bin.buckets.modify (bin.buckets.fromHash binBits (hash key))
      (fun b => (b.pushBack bin.heap.length).touch)).pointers.Perm (bin.heap.length :: bin.buckets.pointers) :=
    BucketSpace.pointers_pushBack (valid.shaped.fromHash_lt binBits _) _ (fun _ => rfl)
  refine ⟨⟨valid.shaped.modify _ _,?_,?_,?_,valid.capacity⟩,pushed,rfl,rfl,rfl⟩
  · intro position ptr holds
    simp only [addToBucket,BucketSpace.holds_modify] at holds
    have kept (held : bin.buckets.Holds position ptr) : NodeAt hash
        (bin.addToBucket (bin.buckets.fromHash binBits (hash key)) key (hash key) value).1 index position ptr := by
      obtain ⟨node,deref,facts⟩ := valid.placed position ptr held
      have old : (bin.heap ++ [⟨hash key,key,value⟩])[ptr]? = bin.heap[ptr]? :=
        List.getElem?_append_left (List.getElem?_eq_some_iff.mp deref).1
      exact ⟨node,old.trans deref,facts⟩
    split at holds
    next same =>
      obtain ⟨bucket,lookup,inside⟩ := holds
      rcases List.mem_append.mp inside with old | new
      · exact kept ⟨bucket,lookup,old⟩
      · obtain rfl := List.mem_singleton.mp new
        exact ⟨⟨hash key,key,value⟩,by simp [addToBucket],rfl,same,binned⟩
    next => exact kept holds
  · refine pushed.nodup_iff.mpr (List.nodup_cons.mpr ⟨fun member => ?_,valid.nodup⟩)
    exact Nat.lt_irrefl _ (valid.allocated member)
  · exact (congrArg (· + 1) valid.counted).trans pushed.length_eq.symm

theorem addToBucket_contains {bin : BinData Key T} {index : Fin (binCount binBits)}
    (valid : bin.Valid hash index) (key : Key) (value : T) (binned : binIndex binBits (hash key) = index)
    (other : Key) (ptr : NodePtr) :
    (bin.addToBucket (bin.buckets.fromHash binBits (hash key)) key (hash key) value).1.Contains other ptr ↔
      bin.Contains other ptr ∨ ptr = bin.heap.length ∧ (key == other) = true := by
  obtain ⟨_,perm,heap,_⟩ := addToBucket_spec valid key value binned
  simp only [Contains,perm.mem_iff,heap,List.mem_cons]
  constructor
  · rintro ⟨rfl | member,node,deref,equal⟩
    · simp only [List.getElem?_concat_length,Option.some.injEq] at deref
      subst deref
      exact Or.inr ⟨rfl,equal⟩
    · rw [List.getElem?_append_left (valid.allocated member)] at deref
      exact Or.inl ⟨member,node,deref,equal⟩
  · rintro (⟨member,node,deref,equal⟩ | ⟨rfl,equal⟩)
    · exact ⟨Or.inr member,node,by rw [List.getElem?_append_left (valid.allocated member)]; exact deref,equal⟩
    · exact ⟨Or.inl rfl,_,List.getElem?_concat_length,equal⟩

theorem pointers_erase {space : BucketSpace} {position place : Nat} {bucket : Bucket} {ptr : NodePtr}
    (lookup : space.buckets[position]? = some bucket) (found : bucket.nodes[place]? = some ptr) :
    space.pointers.Perm (ptr :: (space.modify position (fun b => (b.erase place).touch)).pointers) := by
  obtain ⟨before,after,old,new⟩ := BucketSpace.pointers_modify lookup (fun b => (b.erase place).touch)
  obtain ⟨inside,rfl⟩ := List.getElem?_eq_some_iff.mp found
  rw [old,new]
  have erased := (List.getElem_cons_eraseIdx_perm inside).symm
  exact (((erased.append_left before).append_right after)).trans (by simp [Bucket.erase,Bucket.touch,List.perm_middle])

/-- The found node leaves the bin; every other node stays what and where it was. -/
theorem remove_found_spec {bin : BinData Key T} {index : Fin (binCount binBits)} (valid : bin.Valid hash index)
    {bucket : Nat} {key : Key} {h : HashType} {it : NodePtr × Nat} (found : bin.search bucket key h = some it) :
    let removed := (remove.found bin bucket it).1
    removed.Valid hash index ∧ bin.buckets.pointers.Perm (it.1 :: removed.buckets.pointers) ∧
      removed.heap = bin.heap ∧ removed.count + 1 = bin.count := by
  obtain ⟨b,lookup,place,_⟩ := search_some found
  have erased := pointers_erase lookup place
  have counted := valid.counted.trans erased.length_eq
  have nodup := List.nodup_cons.mp (erased.nodup_iff.mp valid.nodup)
  refine ⟨⟨valid.shaped.modify _ _,?_,nodup.2,?_,valid.capacity⟩,erased,rfl,?_⟩
  · intro position ptr holds
    have held : bin.buckets.Holds position ptr := by
      simp only [remove,BucketSpace.holds_modify] at holds
      split at holds
      next =>
        obtain ⟨c,lookup,inside⟩ := holds
        exact ⟨c,lookup,List.mem_of_mem_eraseIdx inside⟩
      next => exact holds
    exact valid.placed position ptr held
  · simp only [remove,counted,List.length_cons]
    omega
  · simp only [remove,counted,List.length_cons]
    omega

theorem remove_found_contains {bin : BinData Key T} {index : Fin (binCount binBits)}
    (valid : bin.Valid hash index) {bucket : Nat} {key : Key} {h : HashType} {it : NodePtr × Nat}
    (found : bin.search bucket key h = some it) (other : Key) (ptr : NodePtr) :
    (remove.found bin bucket it).1.Contains other ptr ↔ bin.Contains other ptr ∧ ptr ≠ it.1 := by
  obtain ⟨_,perm,heap,_⟩ := remove_found_spec valid found
  have nodup := List.nodup_cons.mp (perm.nodup_iff.mp valid.nodup)
  simp only [Contains,perm.mem_iff,heap,List.mem_cons]
  constructor
  · rintro ⟨member,facts⟩
    exact ⟨⟨Or.inr member,facts⟩,fun same => nodup.1 (same ▸ member)⟩
  · rintro ⟨⟨rfl | member,facts⟩,different⟩
    · exact absurd rfl different
    · exact ⟨member,facts⟩

end Contents

end BinData
end Pgasus.HashTable
