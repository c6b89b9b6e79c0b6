import Pgasus.HashTable.BinInvariant
import Pgasus.Library.FiniteMap
import Pgasus.Library.Runs

/-! One thread at a time, the table is a finite map. Each operation first makes
room, which changes no node, and then works on the single bucket where the key
can be; the map relation follows from what that bucket's bin contains. -/
namespace Pgasus.HashTable
open Runs

namespace BinData
variable {Key T : Type} {binBits : Nat} {hash : Key → HashType} [BEq Key]

def Maps (bin : BinData Key T) (key : Key) (value : T) : Prop :=
  ∃ ptr, bin.Contains key ptr ∧ bin.heap[ptr]?.map (·.value) = some value

def makeRoom (hash : Key → HashType) (binBits : Nat) (doesModify : Bool) (bin : BinData Key T) : BinData Key T :=
  if doesModify && bin.overloaded then bin.resizeIfNecessary hash binBits else bin

omit [BEq Key] in
theorem makeRoom_spec {bin : BinData Key T} {index : Fin (binCount binBits)} (valid : bin.Valid hash index)
    (doesModify : Bool) :
    (bin.makeRoom hash binBits doesModify).Valid hash index ∧
      (bin.makeRoom hash binBits doesModify).buckets.pointers.Perm bin.buckets.pointers ∧
      (bin.makeRoom hash binBits doesModify).heap = bin.heap ∧
      (bin.makeRoom hash binBits doesModify).count = bin.count := by
  unfold makeRoom
  split
  next => exact resizeIfNecessary_spec valid
  next => exact ⟨valid,List.Perm.refl _,rfl,rfl⟩

theorem operateOnBin_eq {Result : Type} (detail : Detail Key T Result) (bin : BinData Key T) (key : Key)
    (h : HashType) :
    bin.operateOnBin hash binBits detail key h =
      let room := bin.makeRoom hash binBits detail.doesModify
      match room.search (room.buckets.fromHash binBits h) key h with
      | some it => detail.found room (room.buckets.fromHash binBits h) it
      | none => detail.notfound room (room.buckets.fromHash binBits h) key h := rfl

variable [EquivBEq Key]

theorem Contains.congr {bin : BinData Key T} {key other : Key} {ptr : NodePtr} (held : bin.Contains key ptr)
    (same : (key == other) = true) : bin.Contains other ptr := by
  obtain ⟨member,node,deref,equal⟩ := held
  exact ⟨member,node,deref,BEq.trans equal same⟩

theorem Contains.equal {bin : BinData Key T} {key other : Key} {ptr : NodePtr} (first : bin.Contains key ptr)
    (second : bin.Contains other ptr) : (key == other) = true := by
  obtain ⟨_,node,deref,equal⟩ := first
  obtain ⟨_,also,deref',equal'⟩ := second
  obtain rfl := Option.some.inj (deref.symm.trans deref')
  exact BEq.trans (BEq.symm equal) equal'

/-- What `getOrCreate` does to a bin: either the key was there and nothing but
the buckets' arrangement changed, or a default node was added for it. -/
inductive Fetched (bin : BinData Key T) (default : T) (key : Key) (result : BinData Key T) (ptr : NodePtr) : Prop
  | present (held : bin.Contains key ptr) (heap : result.heap = bin.heap) (count : result.count = bin.count)
      (contents : ∀ other p, result.Contains other p ↔ bin.Contains other p)
  | absent (missing : ∀ p, ¬bin.Contains key p)
      (heap : ∃ h, result.heap = bin.heap ++ [⟨h,key,default⟩]) (fresh : ptr = bin.heap.length)
      (count : result.count = bin.count + 1)
      (contents : ∀ other p, result.Contains other p ↔
        bin.Contains other p ∨ p = bin.heap.length ∧ (key == other) = true)

omit [EquivBEq Key] in
theorem fetch_spec (lawful : ∀ a b, (a == b) = true → hash a = hash b) {bin : BinData Key T}
    {index : Fin (binCount binBits)} (valid : bin.Valid hash index) (key : Key) (default : T)
    (binned : binIndex binBits (hash key) = index) :
    let fetched := bin.operateOnBin hash binBits (getOrCreate default) key (hash key)
    fetched.1.Valid hash index ∧ Fetched bin default key fetched.1 fetched.2 := by
  obtain ⟨roomy,perm,heap,count⟩ := makeRoom_spec valid true
  have same := contains_of_perm heap perm
  intro fetched
  have unfolded : fetched = _ := operateOnBin_eq _ _ _ _
  simp only [getOrCreate] at unfolded
  split at unfolded
  next it found =>
    rw [unfolded]
    exact ⟨roomy,.present ((same _ _).mp (search_contains found)) heap count same⟩
  next absent =>
    have missing := search_absent lawful roomy absent
    obtain ⟨added,_,grown,counted,fresh⟩ := addToBucket_spec roomy key default binned
    rw [unfolded]
    refine ⟨added,.absent (fun p held => missing p ((same _ _).mpr held)) ⟨hash key,?_⟩ ?_ ?_ ?_⟩
    · rw [grown,heap]
    · rw [fresh,heap]
    · rw [counted,count]
    · intro other p
      rw [addToBucket_contains roomy key default binned,same,heap]

theorem Fetched.contains {bin result : BinData Key T} {default : T} {key : Key} {ptr : NodePtr}
    (fetched : Fetched bin default key result ptr) : result.Contains key ptr := by
  cases fetched with
  | present held _ _ contents => exact (contents _ _).mpr held
  | absent _ _ fresh _ contents => exact (contents _ _).mpr (Or.inr ⟨fresh,BEq.refl key⟩)

theorem Fetched.unique {bin result : BinData Key T} {default : T} {key : Key} {ptr : NodePtr}
    (fetched : Fetched bin default key result ptr) (unique : bin.AtMostOne) : result.AtMostOne := by
  intro other first second
  cases fetched with
  | present _ _ _ contents =>
    rw [contents,contents]
    exact unique other first second
  | absent missing _ _ _ contents =>
    rw [contents,contents]
    rintro (held | ⟨new,equal⟩) (held' | ⟨new',equal'⟩)
    · exact unique other first second held held'
    · exact absurd (held.congr (BEq.symm equal')) (missing first)
    · exact absurd (held'.congr (BEq.symm equal)) (missing second)
    · exact new.trans new'.symm

/-- What `remove` does to a bin: either the node of the key was taken out, or
there was none and nothing changed. -/
inductive Removed (bin : BinData Key T) (key : Key) (result : BinData Key T) : Bool → Prop
  | present (ptr : NodePtr) (held : bin.Contains key ptr) (heap : result.heap = bin.heap)
      (count : result.count + 1 = bin.count)
      (contents : ∀ other p, result.Contains other p ↔ bin.Contains other p ∧ p ≠ ptr) :
      Removed bin key result true
  | absent (missing : ∀ p, ¬bin.Contains key p) (same : result = bin) : Removed bin key result false

omit [EquivBEq Key] in
theorem remove_spec (lawful : ∀ a b, (a == b) = true → hash a = hash b) {bin : BinData Key T}
    {index : Fin (binCount binBits)} (valid : bin.Valid hash index) (key : Key) :
    let removed := bin.operateOnBin hash binBits remove key (hash key)
    removed.1.Valid hash index ∧ Removed bin key removed.1 removed.2 := by
  intro removed
  have unfolded : removed = _ := operateOnBin_eq _ _ _ _
  have still : bin.makeRoom hash binBits false = bin := rfl
  simp only [remove,still] at unfolded
  split at unfolded
  next it found =>
    obtain ⟨kept,_,heap,count⟩ := remove_found_spec valid found
    rw [unfolded]
    exact ⟨kept,.present it.1 (search_contains found) heap count (remove_found_contains valid found)⟩
  next absent =>
    rw [unfolded]
    exact ⟨valid,.absent (search_absent lawful valid absent) rfl⟩

omit [EquivBEq Key] in
theorem Removed.unique {bin result : BinData Key T} {key : Key} {answer : Bool}
    (removed : Removed bin key result answer) (unique : bin.AtMostOne) : result.AtMostOne := by
  cases removed with
  | present ptr _ _ _ contents =>
    intro other first second
    rw [contents,contents]
    exact fun held held' => unique other first second held.1 held'.1
  | absent _ same => exact same ▸ unique

omit [EquivBEq Key] in
theorem assign_spec {bin : BinData Key T} {index : Fin (binCount binBits)} (valid : bin.Valid hash index)
    (ptr : NodePtr) (value : T) :
    let assigned : BinData Key T :=
      {bin with heap := bin.heap.modify ptr (fun node => {node with value := value})}
    assigned.Valid hash index ∧ (∀ other p, assigned.Contains other p ↔ bin.Contains other p) ∧
      ∀ p, assigned.heap[p]?.map (·.value) =
        if ptr = p then bin.heap[p]?.map (fun _ => value) else bin.heap[p]?.map (·.value) := by
  have deref (p : NodePtr) : (bin.heap.modify ptr (fun node => {node with value := value}))[p]? =
      bin.heap[p]?.map (fun node => if ptr = p then {node with value := value} else node) :=
    List.getElem?_modify _ _ _ _
  refine ⟨⟨valid.shaped,?_,valid.nodup,valid.counted,valid.capacity⟩,?_,?_⟩
  · intro position p holds
    obtain ⟨node,found,facts⟩ := valid.placed position p holds
    refine ⟨if ptr = p then {node with value := value} else node,by simp [deref,found],?_⟩
    split <;> exact facts
  · intro other p
    simp only [Contains,deref]
    refine and_congr_right fun _ => ?_
    cases bin.heap[p]? with
    | none => simp
    | some node => by_cases same : ptr = p <;> simp [same]
  · intro p
    simp only [deref,Option.map_map]
    split <;> rfl

end BinData

namespace Table
variable {Key T NumaNode : Type} {binBits : Nat} {hash : Key → HashType}

theorem size_setBin (table : Table Key T NumaNode binBits) (index : Fin (binCount binBits))
    (bin : BinData Key T) :
    (table.setBin index bin).size + (table.bins index).count = table.size + bin.count := by
  have old := Finset.add_sum_erase Finset.univ (fun i => (table.bins i).count) (Finset.mem_univ index)
  have new := Finset.add_sum_erase Finset.univ (fun i => ((table.setBin index bin).bins i).count)
    (Finset.mem_univ index)
  have rest : ∑ i ∈ Finset.univ.erase index, ((table.setBin index bin).bins i).count =
      ∑ i ∈ Finset.univ.erase index, (table.bins i).count :=
    Finset.sum_congr rfl fun i member => by simp [setBin,Finset.ne_of_mem_erase member]
  have here : ((table.setBin index bin).bins index).count = bin.count := by simp [setBin]
  simp only [size] at *
  omega

variable [BEq Key]

/-- The table represents the map: every bin is in order, no key has two nodes,
a key's bin holds exactly what the map says, and the counts add up. -/
structure Represents (hash : Key → HashType) (table : Table Key T NumaNode binBits)
    (map : FiniteMap Key T) : Prop where
  valid : ∀ index, (table.bins index).Valid hash index
  unique : ∀ index, (table.bins index).AtMostOne
  find : ∀ key value, map.find? key = some value ↔ (table.bins (binIndex binBits (hash key))).Maps key value
  size : table.size = map.size

theorem Represents.setBin {table : Table Key T NumaNode binBits} {map changed : FiniteMap Key T}
    (represents : Represents hash table map) (index : Fin (binCount binBits)) {bin : BinData Key T}
    (valid : bin.Valid hash index) (unique : bin.AtMostOne)
    (here : ∀ key value, binIndex binBits (hash key) = index →
      (changed.find? key = some value ↔ bin.Maps key value))
    (elsewhere : ∀ key, binIndex binBits (hash key) ≠ index → changed.find? key = map.find? key)
    (count : bin.count + map.size = (table.bins index).count + changed.size) :
    Represents hash (table.setBin index bin) changed := by
  have updated (i : Fin (binCount binBits)) :
      (table.setBin index bin).bins i = if i = index then bin else table.bins i := by
    simp [Table.setBin,Function.update_apply]
  refine ⟨fun i => ?_,fun i => ?_,fun key value => ?_,?_⟩
  · rw [updated]
    split
    next same => exact same ▸ valid
    next => exact represents.valid i
  · rw [updated]
    split
    next => exact unique
    next => exact represents.unique i
  · rw [updated]
    split
    next same => exact here key value same
    next other => rw [elsewhere key other]; exact represents.find key value
  · have sized := size_setBin table index bin
    have before := represents.size
    omega

theorem represents_create (nodes : List NumaNode) (nonempty : 0 < nodes.length) :
    Represents hash (create hash nodes nonempty : Table Key T NumaNode binBits) FiniteMap.empty := by
  have fresh (index : Fin (binCount binBits)) := @BinData.create_valid Key T binBits hash index
  have hollow (index : Fin (binCount binBits)) (key : Key) (ptr : NodePtr) :
      ¬(BinData.create hash binBits : BinData Key T).Contains key ptr := by
    rintro ⟨member,_⟩
    simp [(fresh index).2] at member
  refine ⟨fun index => (fresh index).1,fun index key first _ held => absurd held (hollow index key first),?_,?_⟩
  · intro key value
    constructor
    · intro impossible
      cases impossible
    · rintro ⟨ptr,held,_⟩
      exact absurd held (hollow (binIndex binBits (hash key)) key ptr)
  · refine Finset.sum_eq_zero fun index _ => ?_
    have counted := (fresh index).1.counted
    rw [(fresh index).2] at counted
    exact counted

omit [BEq Key] in
theorem bins_setBin (table : Table Key T NumaNode binBits) (index : Fin (binCount binBits))
    (bin : BinData Key T) : (table.setBin index bin).bins index = bin := by
  simp [setBin]

theorem Represents.missing {table : Table Key T NumaNode binBits} {map : FiniteMap Key T}
    (represents : Represents hash table map) {key : Key}
    (missing : ∀ p, ¬(table.bins (binIndex binBits (hash key))).Contains key p) : map.find? key = none := by
  cases found : map.find? key with
  | none => rfl
  | some value =>
    obtain ⟨p,held,_⟩ := (represents.find key value).mp found
    exact absurd held (missing p)

theorem Represents.held {table : Table Key T NumaNode binBits} {map : FiniteMap Key T}
    (represents : Represents hash table map) {key : Key} {ptr : NodePtr}
    (held : (table.bins (binIndex binBits (hash key))).Contains key ptr) :
    ∃ value, map.find? key = some value ∧
      (table.bins (binIndex binBits (hash key))).heap[ptr]?.map (·.value) = some value := by
  have ⟨_,node,deref,_⟩ := held
  exact ⟨node.value,(represents.find key node.value).mpr ⟨ptr,held,by simp [deref]⟩,by simp [deref]⟩

variable [EquivBEq Key] (lawful : ∀ a b, (a == b) = true → hash a = hash b)
include lawful

theorem Represents.fetched {table : Table Key T NumaNode binBits} {map : FiniteMap Key T}
    (represents : Represents hash table map) {default : T} {key : Key} {result : BinData Key T} {ptr : NodePtr}
    (valid : result.Valid hash (binIndex binBits (hash key)))
    (fetched : BinData.Fetched (table.bins (binIndex binBits (hash key))) default key result ptr) :
    Represents hash (table.setBin (binIndex binBits (hash key)) result)
        (if (map.find? key).isSome then map else map.insert key default) ∧
      result.heap[ptr]?.map (·.value) = some ((map.find? key).getD default) := by
  have unique := fetched.unique (represents.unique _)
  cases fetched with
  | present held heap count contents =>
    obtain ⟨value,found,read⟩ := represents.held held
    refine ⟨?_,by simpa [heap,found] using read⟩
    simp only [found,Option.isSome_some,if_true]
    refine represents.setBin _ valid unique (fun other v binned => ?_) (fun _ _ => rfl) (by omega)
    rw [represents.find,binned]
    simp only [BinData.Maps,contents,heap]
  | absent missing heap fresh count contents =>
    have found := represents.missing missing
    obtain ⟨h,grown⟩ := heap
    have old {p : NodePtr} {other : Key} (held : (table.bins (binIndex binBits (hash key))).Contains other p) :
        result.heap[p]? = (table.bins (binIndex binBits (hash key))).heap[p]? := by
      rw [grown,List.getElem?_append_left ((represents.valid _).allocated held.1)]
    have new : result.heap[ptr]? = some ⟨h,key,default⟩ := by
      rw [grown,fresh,List.getElem?_concat_length]
    refine ⟨?_,by simp [new,found]⟩
    simp only [found,Option.isSome_none,Bool.false_eq_true,if_false]
    refine represents.setBin _ valid unique (fun other v binned => ?_) (fun other elsewhere => ?_) ?_
    · rw [FiniteMap.find?_insert]
      simp only [BinData.Maps,contents,← fresh]
      split
      next equal =>
        constructor
        · rintro ⟨⟩
          exact ⟨ptr,Or.inr ⟨rfl,equal⟩,by simp [new]⟩
        · rintro ⟨p,held | ⟨rfl,_⟩,read⟩
          · exact absurd (held.congr (BEq.symm equal)) (missing p)
          · simpa [new] using read
      next different =>
        rw [represents.find,binned]
        constructor
        · rintro ⟨p,held,read⟩
          exact ⟨p,Or.inl held,by rw [old held]; exact read⟩
        · rintro ⟨p,held | ⟨_,equal⟩,read⟩
          · exact ⟨p,held,by rw [← old held]; exact read⟩
          · exact absurd equal different
    · rw [FiniteMap.find?_insert,if_neg]
      exact fun equal => elsewhere (by rw [← lawful key other equal])
    · have sized := FiniteMap.size_insert map key default
      simp only [found,Option.isSome_none,Bool.false_eq_true,if_false] at sized
      omega

theorem Represents.index {table : Table Key T NumaNode binBits} {map : FiniteMap Key T}
    (represents : Represents hash table map) (default : T) (key : Key) :
    let fetched := table.index hash default key
    Represents hash fetched.1 (if (map.find? key).isSome then map else map.insert key default) ∧
      fetched.2.bin = binIndex binBits (hash key) ∧
      (fetched.1.bins fetched.2.bin).Contains key fetched.2.node ∧
      fetched.1.deref fetched.2 = some ((map.find? key).getD default) := by
  obtain ⟨valid,fetch⟩ := BinData.fetch_spec lawful (represents.valid (binIndex binBits (hash key))) key default rfl
  obtain ⟨kept,read⟩ := represents.fetched lawful valid fetch
  refine ⟨kept,rfl,?_,?_⟩
  · simpa [Table.index,bins_setBin] using fetch.contains
  · simpa [Table.index,deref,bins_setBin] using read

theorem Represents.assign {table : Table Key T NumaNode binBits} {map : FiniteMap Key T}
    (represents : Represents hash table map) {key : Key} {ref : Ref binBits}
    (home : ref.bin = binIndex binBits (hash key)) (held : (table.bins ref.bin).Contains key ref.node)
    (value : T) : Represents hash (table.assign ref value) (map.insert key value) := by
  obtain ⟨index,ptr⟩ := ref
  subst home
  obtain ⟨valid,contents,values⟩ := BinData.assign_spec (represents.valid (binIndex binBits (hash key))) ptr value
  obtain ⟨old,found,_⟩ := represents.held held
  have ⟨_,node,deref,_⟩ := held
  refine represents.setBin _ valid (fun other first second => ?_) (fun other v binned => ?_)
    (fun other elsewhere => ?_) ?_
  · rw [contents,contents]
    exact represents.unique _ other first second
  · rw [FiniteMap.find?_insert]
    simp only [BinData.Maps,contents,values]
    split
    next equal =>
      constructor
      · rintro ⟨⟩
        exact ⟨ptr,held.congr equal,by simp [deref]⟩
      · rintro ⟨p,held',read⟩
        obtain rfl := represents.unique _ other ptr p (held.congr equal) held'
        simpa [deref] using read
    next different =>
      have apart {p : NodePtr} (held' : (table.bins (binIndex binBits (hash key))).Contains other p) : ptr ≠ p :=
        fun same => different (held.equal (same ▸ held'))
      rw [represents.find,binned]
      refine exists_congr fun p => and_congr_right fun held' => ?_
      rw [if_neg (apart held')]
  · rw [FiniteMap.find?_insert,if_neg]
    exact fun equal => elsewhere (by rw [← lawful key other equal])
  · have sized := FiniteMap.size_insert map key value
    simp only [found,Option.isSome_some,if_true] at sized
    show (table.bins _).count + map.size = _
    omega

theorem Represents.removed {table : Table Key T NumaNode binBits} {map : FiniteMap Key T}
    (represents : Represents hash table map) {key : Key} {result : BinData Key T} {answer : Bool}
    (valid : result.Valid hash (binIndex binBits (hash key)))
    (removed : BinData.Removed (table.bins (binIndex binBits (hash key))) key result answer) :
    Represents hash (table.setBin (binIndex binBits (hash key)) result) (map.erase key) ∧
      answer = (map.find? key).isSome := by
  have unique := removed.unique (represents.unique _)
  have sized := FiniteMap.size_erase map key
  have elsewhere (other : Key) (apart : binIndex binBits (hash other) ≠ binIndex binBits (hash key)) :
      (map.erase key).find? other = map.find? other := by
    rw [FiniteMap.find?_erase,if_neg]
    exact fun equal => apart (by rw [← lawful key other equal])
  cases removed with
  | present ptr held heap count contents =>
    obtain ⟨value,found,_⟩ := represents.held held
    refine ⟨represents.setBin _ valid unique (fun other v binned => ?_) elsewhere ?_,by simp [found]⟩
    · rw [FiniteMap.find?_erase]
      simp only [BinData.Maps,contents,heap]
      split
      next equal =>
        constructor
        · intro impossible
          cases impossible
        · rintro ⟨p,⟨held',apart⟩,_⟩
          exact absurd (represents.unique _ other p ptr held' (held.congr equal)) apart
      next different =>
        rw [represents.find,binned]
        constructor
        · rintro ⟨p,held',read⟩
          exact ⟨p,⟨held',fun same => different (held.equal (same ▸ held'))⟩,read⟩
        · rintro ⟨p,⟨held',_⟩,read⟩
          exact ⟨p,held',read⟩
    · simp only [found,Option.isSome_some,if_true] at sized
      omega
  | absent missing same =>
    have found := represents.missing missing
    refine ⟨represents.setBin _ valid unique (fun other v binned => ?_) elsewhere ?_,by simp [found]⟩
    · rw [FiniteMap.find?_erase,same]
      split
      next equal =>
        constructor
        · intro impossible
          cases impossible
        · rintro ⟨p,held',_⟩
          exact absurd (held'.congr (BEq.symm equal)) (missing p)
      next => rw [represents.find,binned]
    · simp only [found,Option.isSome_none,Bool.false_eq_true,if_false] at sized
      rw [same]
      omega

theorem Represents.remove {table : Table Key T NumaNode binBits} {map : FiniteMap Key T}
    (represents : Represents hash table map) (key : Key) :
    Represents hash (table.remove hash key).1 (map.erase key) ∧
      (table.remove hash key).2 = (map.find? key).isSome := by
  obtain ⟨valid,removed⟩ := BinData.remove_spec lawful (represents.valid (binIndex binBits (hash key))) key
  exact represents.removed lawful valid removed

end Table

section Sequential
variable {Key T NumaNode : Type} {binBits : Nat} [BEq Key]

/-- A call on the table and, for `operator[]`, what is done with the reference. -/
inductive Operation (Key T : Type)
  | read (key : Key)
  | assign (key : Key) (value : T)
  | remove (key : Key)
  | size

inductive Answer (T : Type)
  | value (read : Option T)
  | assigned
  | removed (present : Bool)
  | size (count : Nat)
deriving DecidableEq

def Table.execute (hash : Key → HashType) (default : T) (table : Table Key T NumaNode binBits) :
    Operation Key T → Table Key T NumaNode binBits × Answer T
  | .read key =>
    let (fetched,ref) := table.index hash default key
    (fetched,.value (fetched.deref ref))
  | .assign key value =>
    let (fetched,ref) := table.index hash default key
    (fetched.assign ref value,.assigned)
  | .remove key =>
    let (changed,present) := table.remove hash key
    (changed,.removed present)
  | .size => (table,.size table.size)

variable [EquivBEq Key]

/-- What the table is for: a finite map that reading an absent key extends. -/
def mapExecute (default : T) (map : FiniteMap Key T) : Operation Key T → FiniteMap Key T × Answer T
  | .read key =>
    match map.find? key with
    | some value => (map,.value (some value))
    | none => (map.insert key default,.value (some default))
  | .assign key value => (map.insert key value,.assigned)
  | .remove key => (map.erase key,.removed (map.find? key).isSome)
  | .size => (map,.size map.size)

section Step
variable {hash : Key → HashType} (lawful : ∀ a b, (a == b) = true → hash a = hash b)
include lawful

theorem Table.Represents.execute {table : Table Key T NumaNode binBits} {map : FiniteMap Key T}
    (represents : Represents hash table map) (default : T) (op : Operation Key T) :
    Represents hash (table.execute hash default op).1 (mapExecute default map op).1 ∧
      (table.execute hash default op).2 = (mapExecute default map op).2 := by
  cases op with
  | read key =>
    obtain ⟨fetched,_,_,value⟩ := represents.index lawful default key
    simp only [Table.execute,mapExecute,value]
    cases found : map.find? key with
    | some old => simpa [found] using fetched
    | none => simpa [found] using fetched
  | assign key value =>
    obtain ⟨fetched,home,held,_⟩ := represents.index lawful default key
    have assigned := fetched.assign lawful home held value
    refine ⟨?_,rfl⟩
    split at assigned
    · exact assigned
    · rw [FiniteMap.insert_insert] at assigned
      exact assigned
  | remove key =>
    obtain ⟨removed,present⟩ := represents.remove lawful key
    exact ⟨removed,congrArg Answer.removed present⟩
  | size => exact ⟨represents,congrArg Answer.size represents.size⟩

end Step

/-- A fresh table answers every sequence of operations as the empty map does,
and afterwards represents that map. -/
theorem table_refines_map (hash : Key → HashType) (lawful : ∀ a b, (a == b) = true → hash a = hash b)
    (binBits : Nat) (nodes : List NumaNode) (nonempty : 0 < nodes.length) (default : T)
    (ops : List (Operation Key T)) :
    let table : Table Key T NumaNode binBits := Table.create hash nodes nonempty
    let ran := answers (Table.execute hash default) table ops
    let spec := answers (mapExecute default) FiniteMap.empty ops
    ran.2 = spec.2 ∧ ran.1.Represents hash spec.1 := by
  have start : Table.Represents hash (Table.create hash nodes nonempty : Table Key T NumaNode binBits)
      FiniteMap.empty := Table.represents_create nodes nonempty
  obtain ⟨related,equal⟩ := answers_simulation (fun table map => Table.Represents hash table map)
    (fun table map op represents => represents.execute lawful default op) start ops
  exact ⟨equal,related⟩

theorem table_refines_map_two_bins :
    let hash : Nat → HashType := fun key => BitVec.ofNat 64 key
    let ran := answers (Table.execute hash 0) (Table.create hash [()] Nat.one_pos : Table Nat Nat Unit 1)
      [.assign 2 5,.read 2,.read 3,.remove 2,.read 2,.remove 4,.size]
    ran.2 = [.assigned,.value (some 5),.value (some 0),.removed true,.value (some 0),.removed false,.size 2] :=
  (table_refines_map (fun key : Nat => BitVec.ofNat 64 key) (fun _ _ same => by rw [eq_of_beq same]) 1
    [()] Nat.one_pos 0 [.assign 2 5,.read 2,.read 3,.remove 2,.read 2,.remove 4,.size]).1.trans (by decide)

end Sequential
end Pgasus.HashTable
