import Pgasus.Base.NodeRequest
import Pgasus.Containers.Nodes

/-! The mapping from physical to logical node ids, made from the nodes of the machine and
the request, and what `NodeList` tells from it. -/
namespace Pgasus.NodeMapping
open NodeRequest Containers

def intAt (result : List Int) (index : Int) : Option Int := if 0 ≤ index then result[index.toNat]? else none

def setToUseAllNodes (physicalIds : List Nat) (result : List Int) : List Int :=
  (physicalIds.foldl (fun (state : List Int × Nat) physicalId => (state.1.set physicalId state.2,state.2 + 1)) (result,0)).1

/-- How the loop over the requested nodes ends: with `configOkay`, at a node that does not
exist, or with an index that is not in the vector. -/
inductive Configured
  | okay (result : List Int)
  | missing
  | outOfBounds (index : Int)

def useGivenNodes : List Int → List Int → Nat → Configured
  | [], result, _ => .okay result
  | n::rest, result, nextLogicalId =>
    match intAt result n with
    | none => .outOfBounds n
    | some mappedLogicalId =>
      if mappedLogicalId = -2 then .missing
      else if 0 ≤ mappedLogicalId then useGivenNodes rest result nextLogicalId
      else useGivenNodes rest (result.set n.toNat nextLogicalId) (nextLogicalId + 1)

/-- A mapping, or no return from the parser, or an access outside the vector. -/
inductive Outcome
  | mapping (result : List Int)
  | endless
  | outOfBounds (index : Int)

variable (conversion : Conversion)

/-- `getPhysicalToLogicalMapping`, with the environment variable when it is set. -/
def getPhysicalToLogicalMapping (physicalIds : List Nat) (envNodes : Option (List Char)) : Outcome :=
  match physicalIds.getLast? with
  | none => .mapping []
  | some maxPhysId =>
    let result : List Int := List.replicate (maxPhysId + 1) (-2)
    let allNodes : Outcome := .mapping (setToUseAllNodes physicalIds result)
    match envNodes with
    | none => allNodes
    | some envNodes =>
      match getSortedElementsFromString conversion envNodes with
      | none => .endless
      | some requestedPhysIds =>
        match requestedPhysIds.getLast? with
        | none => allNodes
        | some last =>
          if (maxPhysId : Int) < last then allNodes
          else
            match useGivenNodes requestedPhysIds (physicalIds.foldl (fun result physicalId => result.set physicalId (-1)) result) 0 with
            | .okay result => .mapping result
            | .missing => allNodes
            | .outOfBounds index => .outOfBounds index

def int16 (value : Int) : Int := Int.bmod value (2 ^ 16)

theorem int16_of_lt {value : Nat} (inside : value < 2 ^ 15) : int16 value = value := by
  simp only [int16,Int.bmod]
  omega

def logicalNodes (mapping : List Int) : List Node :=
  (mapping.zipIdx.filter fun entry => 0 ≤ entry.1).map fun entry => ⟨int16 entry.1,int16 entry.2⟩

def physicalToLogicalId (mapping : List Int) (physicalId : Int) : Int :=
  match intAt mapping physicalId with
  | none => -1
  | some logical => logical

/-! The vector as a function of the index. -/

def table (size : Nat) (entry : Nat → Int) : List Int := (List.range size).map entry

section Table
variable {size index next : Nat} {entry : Nat → Int} {value : Int} {physicalIds : List Nat}

theorem table_get : (table size entry)[index]? = if index < size then some (entry index) else none := by
  split
  next inside => simp [table,inside]
  next outside => simp [table,outside]

theorem table_set : (table size entry).set index value = table size (Function.update entry index value) := by
  apply List.ext_getElem?
  intro other
  rw [List.getElem?_set,table_get,table_get]
  by_cases same : index = other
  · subst same
    simp [table]
  · rw [if_neg same,Function.update_of_ne (Ne.symm same)]

theorem table_replicate : List.replicate size value = table size fun _ => value := by simp [table]

theorem intAt_table : intAt (table size entry) (index : Int) = if index < size then some (entry index) else none :=
  (if_pos (Int.natCast_nonneg index)).trans table_get

theorem table_fill : physicalIds.foldl (fun result physicalId => result.set physicalId value) (table size entry) =
    table size fun x => if x ∈ physicalIds then value else entry x := by
  induction physicalIds generalizing entry with
  | nil => simp
  | cons first rest ih =>
    rw [List.foldl_cons,table_set,ih]
    congr 1
    ext x
    by_cases same : x = first
    · simp [same]
    · simp [same]

theorem table_number (nodup : physicalIds.Nodup) :
    (physicalIds.foldl (fun (state : List Int × Nat) physicalId => (state.1.set physicalId state.2,state.2 + 1))
      (table size entry,next)).1 = table size fun x => if x ∈ physicalIds then (next + physicalIds.idxOf x : Nat) else entry x := by
  induction physicalIds generalizing entry next with
  | nil => simp
  | cons first rest ih =>
    obtain ⟨absent,nodup⟩ := List.nodup_cons.mp nodup
    rw [List.foldl_cons]
    dsimp only
    rw [table_set,ih nodup]
    congr 1
    ext x
    by_cases same : x = first
    · subst same
      simp [absent]
    · rw [List.idxOf_cons_ne rest (Ne.symm same)]
      simp only [List.mem_cons,same,false_or,Function.update_of_ne same]
      rw [show next + 1 + rest.idxOf x = next + (rest.idxOf x).succ by omega]

end Table

/-- The used nodes have their numbers, the other ones that exist -1, and the rest -2. -/
def numbering (physicalIds used : List Nat) (x : Nat) : Int :=
  if x ∈ used then used.idxOf x else if x ∈ physicalIds then -1 else -2

def requestedOf (physicalIds : List Nat) (requested : List Int) : List Nat :=
  physicalIds.filter fun id => (id : Int) ∈ requested

def Exist (physicalIds : List Nat) (requested : List Int) : Prop := ∀ n ∈ requested, ∃ id ∈ physicalIds, n = (id : Int)

instance (physicalIds : List Nat) (requested : List Int) : Decidable (Exist physicalIds requested) :=
  inferInstanceAs (Decidable (∀ n ∈ requested, ∃ id ∈ physicalIds, n = (id : Int)))

/-- The distinct requested nodes if there are some and all of them exist, and else all nodes. -/
def usedNodes (physicalIds : List Nat) : Option (List Int) → List Nat
  | none => physicalIds
  | some requested => if requested ≠ [] ∧ Exist physicalIds requested then requestedOf physicalIds requested else physicalIds

section Loops
variable {size next : Nat} {entry : Nat → Int} {physicalIds used : List Nat} {requested done : List Int} {result : List Int} {n : Int}

theorem numbering_append {id : Nat} (absent : id ∉ used) (inside : id ∈ physicalIds) :
    Function.update (numbering physicalIds used) id used.length = numbering physicalIds (used ++ [id]) := by
  ext x
  by_cases same : x = id
  · subst same
    simp [numbering,List.idxOf_append_of_notMem absent]
  · rw [Function.update_of_ne same]
    by_cases member : x ∈ used
    · simp [numbering,member,List.idxOf_append_of_mem member]
    · simp [numbering,member,same]

theorem numbering_nonneg {x : Nat} : 0 ≤ numbering physicalIds used x ↔ x ∈ used := by
  by_cases member : x ∈ used
  · simp [numbering,member]
  · by_cases inside : x ∈ physicalIds <;> simp [numbering,member,inside]

theorem mem_requestedOf {x : Nat} : x ∈ requestedOf physicalIds requested ↔ x ∈ physicalIds ∧ (x : Int) ∈ requested := by
  simp [requestedOf]

theorem sorted_requestedOf (sorted : physicalIds.Pairwise (· < ·)) : (requestedOf physicalIds requested).Pairwise (· < ·) :=
  sorted.filter _

theorem requestedOf_append {id : Nat} (sorted : physicalIds.Pairwise (· < ·)) (inside : id ∈ physicalIds)
    (last : ∀ n ∈ done, n < (id : Int)) : requestedOf physicalIds (done ++ [(id : Int)]) = requestedOf physicalIds done ++ [id] := by
  apply List.Pairwise.eq_of_mem_iff (sorted_requestedOf sorted)
  · refine List.pairwise_append.mpr ⟨sorted_requestedOf sorted,List.pairwise_singleton _ _,?_⟩
    intro x member y only
    rw [List.mem_singleton.mp only]
    exact Int.ofNat_lt.mp (last x (mem_requestedOf.mp member).2)
  · intro x
    simp only [mem_requestedOf,List.mem_append,List.mem_singleton,Int.natCast_inj]
    constructor
    · rintro ⟨exists_,before | same⟩
      · exact .inl ⟨exists_,before⟩
      · exact .inr same
    · rintro (⟨exists_,before⟩ | rfl)
      · exact ⟨exists_,.inl before⟩
      · exact ⟨inside,.inr rfl⟩

theorem useGivenNodes_okay (sorted : physicalIds.Pairwise (· < ·)) (ascending : (done ++ requested).Pairwise (· ≤ ·))
    (exist : Exist physicalIds requested) (fits : ∀ id ∈ physicalIds, id < size) :
    useGivenNodes requested (table size (numbering physicalIds (requestedOf physicalIds done))) (requestedOf physicalIds done).length =
      .okay (table size (numbering physicalIds (requestedOf physicalIds (done ++ requested)))) := by
  induction requested generalizing done with
  | nil => rw [List.append_nil]; rfl
  | cons n rest ih =>
    obtain ⟨id,inside,rfl⟩ := exist n List.mem_cons_self
    have step : done ++ (id : Int)::rest = (done ++ [(id : Int)]) ++ rest := by simp
    rw [step] at ascending ⊢
    have rest_ : Exist physicalIds rest := fun n member => exist n (List.mem_cons_of_mem _ member)
    rw [useGivenNodes,intAt_table,if_pos (fits id inside)]
    dsimp only
    by_cases before : (id : Int) ∈ done
    · -- requested once more
      have same : requestedOf physicalIds (done ++ [(id : Int)]) = requestedOf physicalIds done := by
        apply List.filter_congr
        intro x _
        by_cases one : x = id <;> simp [one,before]
      have member : id ∈ requestedOf physicalIds done := mem_requestedOf.mpr ⟨inside,before⟩
      have number : numbering physicalIds (requestedOf physicalIds done) id = (requestedOf physicalIds done).idxOf id := if_pos member
      rw [number,if_neg (by omega),if_pos (Int.natCast_nonneg _),← same]
      exact ih ascending rest_
    · have absent : id ∉ requestedOf physicalIds done := fun member => before (mem_requestedOf.mp member).2
      have number : numbering physicalIds (requestedOf physicalIds done) id = -1 := by simp [numbering,absent,inside]
      have last : ∀ n ∈ done, n < (id : Int) := by
        intro n member
        have below := (List.pairwise_append.mp (List.pairwise_append.mp ascending).1).2.2 n member _ (List.mem_singleton_self _)
        exact lt_of_le_of_ne below fun same => before (same ▸ member)
      rw [number,if_neg (by decide),if_neg (by decide),Int.toNat_natCast,table_set,numbering_append absent inside]
      have grown := @ih (done ++ [(id : Int)]) ascending rest_
      rw [requestedOf_append sorted inside last,List.length_append] at grown
      exact grown

theorem useGivenNodes_missing (fits : ∀ n ∈ requested, ∃ x < size, n = (x : Int)) (gone : ∃ x : Nat, (x : Int) ∈ requested ∧ entry x = -2) :
    useGivenNodes requested (table size entry) next = .missing := by
  induction requested generalizing entry next with
  | nil => obtain ⟨_,absent,_⟩ := gone; cases absent
  | cons n rest ih =>
    obtain ⟨x,inside,rfl⟩ := fits n List.mem_cons_self
    have rest_ := fun n member => fits n (List.mem_cons_of_mem _ member)
    rw [useGivenNodes,intAt_table,if_pos inside]
    dsimp only
    by_cases here : entry x = -2
    · rw [if_pos here]
    · obtain ⟨y,member,entry_⟩ := gone
      have other : y ≠ x := fun same => here (same ▸ entry_)
      have later : (y : Int) ∈ rest := (List.mem_cons.mp member).resolve_left fun same => other (Int.natCast_inj.mp same)
      rw [if_neg here]
      split
      · exact ih rest_ ⟨y,later,entry_⟩
      · rw [Int.toNat_natCast,table_set]
        exact ih rest_ ⟨y,later,by rwa [Function.update_of_ne other]⟩

end Loops

theorem le_last {α : Type} [Preorder α] {items : List α} {last : α} (ascending : items.Pairwise (· ≤ ·))
    (ends : items.getLast? = some last) : ∀ item ∈ items, item ≤ last := by
  obtain ⟨before,rfl⟩ := List.getLast?_eq_some_iff.mp ends
  intro item member
  rcases List.mem_append.mp member with early | only
  · exact (List.pairwise_append.mp ascending).2.2 item early last (List.mem_singleton_self last)
  · rw [List.mem_singleton.mp only]

def request (envNodes : Option (List Char)) : Option (List Int) := envNodes.bind (getSortedElementsFromString conversion)

section Mapping
variable {conversion} {size : Nat} {physicalIds used : List Nat} {requested : List Int} {envNodes : Option (List Char)}

theorem ascending_of_parse {s : List Char} (parsed : getSortedElementsFromString conversion s = some requested) :
    requested.Pairwise (· ≤ ·) := by
  by_cases none : requested = []
  · rw [none]
    exact .nil
  · obtain ⟨ranges,reads⟩ := reads_of_parse conversion parsed none
    rw [getSortedElementsFromString,parse_ranges reads] at parsed
    rw [← Option.some.inj parsed]
    exact List.pairwise_insertionSort _ _

theorem setToUseAllNodes_eq (nodup : physicalIds.Nodup) :
    setToUseAllNodes physicalIds (List.replicate size (-2)) = table size (numbering physicalIds physicalIds) := by
  rw [setToUseAllNodes,table_replicate,table_number nodup]
  congr 1
  ext x
  by_cases inside : x ∈ physicalIds <;> simp [numbering,inside]

/-- The elements are sorted, so that the first one is out of bounds if any is below zero. -/
theorem useGivenNodes_negative {n : Int} (ascending : requested.Pairwise (· ≤ ·)) (member : n ∈ requested) (below : n < 0) :
    ∃ first, ∀ result next, useGivenNodes requested result next = .outOfBounds first := by
  cases requested with
  | nil => cases member
  | cons first rest =>
    have low : first < 0 := by
      rcases List.mem_cons.mp member with rfl | later
      · exact below
      · exact Int.lt_of_le_of_lt ((List.pairwise_cons.mp ascending).1 n later) below
    exact ⟨first,fun result next => by rw [useGivenNodes,intAt,if_neg (Int.not_le.mpr low)]⟩

theorem mapping_eq (sorted : physicalIds.Pairwise (· < ·))
    (parses : ∀ s, envNodes = some s → ∃ requested, getSortedElementsFromString conversion s = some requested ∧ ∀ n ∈ requested, 0 ≤ n) :
    ∃ size, (∀ id ∈ physicalIds, id < size) ∧ getPhysicalToLogicalMapping conversion physicalIds envNodes =
      .mapping (table size (numbering physicalIds (usedNodes physicalIds (request conversion envNodes)))) := by
  have nodup : physicalIds.Nodup := sorted.imp Nat.ne_of_lt
  cases ends : physicalIds.getLast? with
  | none =>
    have empty := List.getLast?_eq_none_iff.mp ends
    exact ⟨0,by simp [empty],by simp [getPhysicalToLogicalMapping,ends,table]⟩
  | some maxPhysId =>
    have inside : ∀ id ∈ physicalIds, id < maxPhysId + 1 := fun id member =>
      Nat.lt_succ_of_le (le_last (sorted.imp Nat.le_of_lt) ends id member)
    refine ⟨maxPhysId + 1,inside,?_⟩
    rw [getPhysicalToLogicalMapping,ends]
    dsimp only
    rw [setToUseAllNodes_eq nodup]
    cases envNodes with
    | none => rfl
    | some s =>
      obtain ⟨requested,parsed,positive⟩ := parses s rfl
      have ascending := ascending_of_parse parsed
      simp only [parsed,request,Option.bind_some]
      cases final : requested.getLast? with
      | none =>
        have empty := List.getLast?_eq_none_iff.mp final
        simp [usedNodes,empty]
      | some last =>
        have some_ : requested ≠ [] := by rintro rfl; cases final
        have below := le_last ascending final
        dsimp only
        by_cases high : (maxPhysId : Int) < last
        · have apart : ¬Exist physicalIds requested := by
            intro exist
            obtain ⟨id,member,rfl⟩ := exist last (List.mem_of_getLast? final)
            have bound := inside id member
            omega
          rw [if_pos high,usedNodes,if_neg fun both => apart both.2]
        · have fits : ∀ n ∈ requested, ∃ x < maxPhysId + 1, n = (x : Int) := by
            intro n member
            have low := positive n member
            have bound := below n member
            exact ⟨n.toNat,by omega,by omega⟩
          -- first all nodes that exist are marked as unused
          have unused : physicalIds.foldl (fun result physicalId => result.set physicalId (-1)) (List.replicate (maxPhysId + 1) (-2)) =
              table (maxPhysId + 1) (numbering physicalIds []) := by
            rw [table_replicate,table_fill]
            exact congrArg (table _) (funext fun x => by simp [numbering])
          have none_ : requestedOf physicalIds [] = [] := by simp [requestedOf]
          rw [if_neg high,unused]
          by_cases exist : Exist physicalIds requested
          · have done := @useGivenNodes_okay (maxPhysId + 1) physicalIds requested [] sorted ascending exist inside
            rw [none_] at done
            rw [List.length_nil] at done
            simp [done,usedNodes,some_,exist]
          · have gone : ∃ x : Nat, (x : Int) ∈ requested ∧ numbering physicalIds [] x = -2 := by
              simp only [Exist,not_forall,not_exists,not_and] at exist
              obtain ⟨n,member,absent⟩ := exist
              obtain ⟨x,_,rfl⟩ := fits n member
              have outside : x ∉ physicalIds := fun here => absent x here rfl
              exact ⟨x,member,by simp [numbering,outside]⟩
            rw [useGivenNodes_missing fits gone]
            simp [usedNodes,exist]

theorem usedNodes_subset (physicalIds : List Nat) (request : Option (List Int)) : usedNodes physicalIds request ⊆ physicalIds := by
  cases request with
  | none => exact List.Subset.refl _
  | some requested =>
    simp only [usedNodes]
    split
    · exact List.filter_subset_self _
    · exact List.Subset.refl _

theorem sorted_usedNodes (sorted : physicalIds.Pairwise (· < ·)) (request : Option (List Int)) :
    (usedNodes physicalIds request).Pairwise (· < ·) := by
  cases request with
  | none => exact sorted
  | some requested =>
    simp only [usedNodes]
    split
    · exact sorted_requestedOf sorted
    · exact sorted

theorem mapping_numbers {mapping : List Int} (sorted : physicalIds.Pairwise (· < ·))
    (made : getPhysicalToLogicalMapping conversion physicalIds envNodes = .mapping mapping) :
    ∃ size used, used.Pairwise (· < ·) ∧ used ⊆ physicalIds ∧ (∀ id ∈ physicalIds, id < size) ∧
      mapping = table size (numbering physicalIds used) := by
  by_cases parses : ∀ s, envNodes = some s → ∃ requested, getSortedElementsFromString conversion s = some requested ∧ ∀ n ∈ requested, 0 ≤ n
  · obtain ⟨size,fits,same⟩ := mapping_eq sorted parses
    exact ⟨size,_,sorted_usedNodes sorted _,usedNodes_subset _ _,fits,Outcome.mapping.inj (made.symm.trans same)⟩
  · push Not at parses
    obtain ⟨s,rfl,negative⟩ := parses
    cases ends : physicalIds.getLast? with
    | none =>
      obtain rfl := List.getLast?_eq_none_iff.mp ends
      exact ⟨0,[],.nil,List.Subset.refl _,nofun,(Outcome.mapping.inj made).symm⟩
    | some maxPhysId =>
      have inside : ∀ id ∈ physicalIds, id < maxPhysId + 1 := fun id member =>
        Nat.lt_succ_of_le (le_last (sorted.imp Nat.le_of_lt) ends id member)
      simp only [getPhysicalToLogicalMapping,ends] at made
      cases parsed : getSortedElementsFromString conversion s with
      | none => rw [parsed] at made; cases made
      | some requested =>
        obtain ⟨n,member,below⟩ := negative requested parsed
        obtain ⟨first,outside⟩ := useGivenNodes_negative (ascending_of_parse parsed) member below
        obtain ⟨last,final⟩ : ∃ last, requested.getLast? = some last :=
          ⟨_,List.getLast?_eq_some_getLast (List.ne_nil_of_mem member)⟩
        simp only [parsed,final,outside] at made
        split at made
        · rw [setToUseAllNodes_eq (sorted.imp Nat.ne_of_lt)] at made
          exact ⟨maxPhysId + 1,physicalIds,sorted,List.Subset.refl _,inside,(Outcome.mapping.inj made).symm⟩
        · cases made

/-! What the mapping says of each node. -/

/-- -2 for the nodes that do not exist, -1 for those that are not used, and a used node's
place among the used ones. -/
structure Numbers (physicalIds used : List Nat) (mapping : List Int) : Prop where
  inside : ∀ id ∈ physicalIds, id < mapping.length
  missing : ∀ x < mapping.length, mapping[x]? = some (-2) ↔ x ∉ physicalIds
  unused : ∀ x, mapping[x]? = some (-1) ↔ x ∈ physicalIds ∧ x ∉ used
  numbered : ∀ x logical : Nat, mapping[x]? = some (logical : Int) ↔ used[logical]? = some x

/-- `logicalNodes` lists the used nodes by their logical ids, and `physicalToLogicalId` finds them. -/
structure Lists (used : List Nat) (mapping : List Int) : Prop where
  physical : (logicalNodes mapping).map Node.physicalId = used.map Int.ofNat
  logical : ∀ (index : Nat) node, (logicalNodes mapping)[index]? = some node → node.logicalId = index
  ascending : (logicalNodes mapping).Pairwise fun first second => first.physicalId < second.physicalId
  inverse : ∀ (x : Int) (index : Nat), physicalToLogicalId mapping x = index ↔
    ((logicalNodes mapping)[index]?).map Node.physicalId = some x

theorem Lists.sorted (lists : Lists used mapping) : used.Pairwise (· < ·) := by
  have ascending := List.pairwise_map.mpr lists.ascending
  rw [lists.physical,List.pairwise_map] at ascending
  exact ascending.imp Int.ofNat_lt.mp

theorem Lists.machine {machine : Machine} (lists : Lists machine.configured mapping) : machine.logicalNodes = logicalNodes mapping := by
  apply List.ext_getElem?
  intro index
  have physical := congrArg (fun ids => ids[index]?) lists.physical
  simp only [List.getElem?_map] at physical
  rw [Machine.logicalNodes,List.getElem?_map,List.getElem?_zipIdx]
  cases here : (logicalNodes mapping)[index]? with
  | none =>
    rw [here,Option.map_none,eq_comm,Option.map_eq_none_iff] at physical
    rw [physical,Option.map_none,Option.map_none]
  | some node =>
    rw [here,Option.map_some,eq_comm,Option.map_eq_some_iff] at physical
    obtain ⟨id,there,same⟩ := physical
    have logical := lists.logical index node here
    rw [there]
    simp [← logical,show (id : Int) = node.physicalId from same]

theorem used_number {x logical : Nat} (nodup : used.Nodup) : (x ∈ used ∧ used.idxOf x = logical) ↔ used[logical]? = some x := by
  constructor
  · rintro ⟨member,rfl⟩
    exact List.getElem?_idxOf member
  · intro here
    obtain ⟨inside,rfl⟩ := List.getElem?_eq_some_iff.mp here
    exact ⟨List.getElem_mem inside,nodup.idxOf_getElem logical inside⟩

theorem numbers_table (nodup : used.Nodup) (subset : used ⊆ physicalIds) (fits : ∀ id ∈ physicalIds, id < size) :
    Numbers physicalIds used (table size (numbering physicalIds used)) := by
  have length : (table size (numbering physicalIds used)).length = size := by simp [table]
  have outside (x : Nat) (high : ¬x < size) : x ∉ physicalIds := fun here => high (fits x here)
  refine ⟨fun id here => by rw [length]; exact fits id here,fun x low => ?_,fun x => ?_,fun x logical => ?_⟩
  · rw [length] at low
    rw [table_get,if_pos low,Option.some.injEq,numbering]
    by_cases member : x ∈ used
    · rw [if_pos member]
      exact iff_of_false (by omega) fun absent => absent (subset member)
    · by_cases here : x ∈ physicalIds <;> simp [member,here]
  · rw [table_get]
    by_cases low : x < size
    · rw [if_pos low,Option.some.injEq,numbering]
      by_cases member : x ∈ used
      · rw [if_pos member]
        exact iff_of_false (by omega) fun both => both.2 member
      · by_cases here : x ∈ physicalIds <;> simp [member,here]
    · simp [low,outside x low]
  · rw [table_get,← used_number nodup]
    by_cases low : x < size
    · rw [if_pos low,Option.some.injEq,numbering]
      by_cases member : x ∈ used
      · simp [member]
      · rw [if_neg member]
        refine iff_of_false ?_ fun both => member both.1
        split <;> omega
    · rw [if_neg low]
      exact iff_of_false nofun fun both => outside x low (subset both.1)

theorem logicalNodes_table (sorted : used.Pairwise (· < ·)) (fits : ∀ id ∈ used, id < size) (small : ∀ id ∈ used, id < 2 ^ 15) :
    logicalNodes (table size (numbering physicalIds used)) = used.zipIdx.map fun entry => ⟨entry.2,entry.1⟩ := by
  have nodup : used.Nodup := sorted.imp Nat.ne_of_lt
  have entries : (table size (numbering physicalIds used)).zipIdx = (List.range size).map fun x => (numbering physicalIds used x,x) := by
    apply List.ext_getElem
    · simp [table]
    · intro index left right
      simp [table]
  have kept : ((List.range size).filter fun x => 0 ≤ numbering physicalIds used x) = used := by
    refine List.Pairwise.eq_of_mem_iff (List.pairwise_lt_range.filter _) sorted fun x => ?_
    rw [List.mem_filter,List.mem_range,decide_eq_true_eq,numbering_nonneg]
    exact and_iff_right_of_imp (fits x)
  have same : logicalNodes (table size (numbering physicalIds used)) =
      used.map fun x => ⟨int16 (numbering physicalIds used x),int16 x⟩ := by
    rw [logicalNodes,entries,List.filter_map,List.map_map]
    exact congrArg (List.map _) kept
  rw [same]
  apply List.ext_getElem
  · simp
  · intro index left right
    rw [List.length_map] at left
    have count : used.length ≤ 2 ^ 15 := by
      have bound := (List.subperm_of_subset nodup fun x member => List.mem_range.mpr (small x member)).length_le
      rwa [List.length_range] at bound
    have low := small used[index] (List.getElem_mem left)
    simp [numbering,List.getElem_mem left,nodup.idxOf_getElem index left,int16_of_lt low,int16_of_lt (show index < 2 ^ 15 by omega)]

theorem lists_table (sorted : used.Pairwise (· < ·)) (subset : used ⊆ physicalIds) (fits : ∀ id ∈ physicalIds, id < size)
    (small : ∀ id ∈ physicalIds, id < 2 ^ 15) : Lists used (table size (numbering physicalIds used)) := by
  have nodup : used.Nodup := sorted.imp Nat.ne_of_lt
  have nodes := @logicalNodes_table size physicalIds used sorted (fun id member => fits id (subset member)) fun id member => small id (subset member)
  have physical : (logicalNodes (table size (numbering physicalIds used))).map Node.physicalId = used.map Int.ofNat := by
    rw [nodes,List.map_map]
    exact (List.map_map (f := Prod.fst) (g := Int.ofNat)).symm.trans (by rw [List.zipIdx_map_fst])
  refine ⟨physical,fun index node here => ?_,?_,fun x index => ?_⟩
  · rw [nodes,List.getElem?_map,List.getElem?_zipIdx] at here
    obtain ⟨entry,found,rfl⟩ := Option.map_eq_some_iff.mp here
    obtain ⟨id,_,rfl⟩ := Option.map_eq_some_iff.mp found
    simp
  · rw [← List.pairwise_map,physical,List.pairwise_map]
    exact sorted.imp Int.ofNat_lt.mpr
  · rw [← List.getElem?_map,physical,List.getElem?_map,physicalToLogicalId]
    have numbers := @numbers_table size physicalIds used nodup subset fits
    by_cases negative : x < 0
    · rw [intAt,if_neg (by omega)]
      refine iff_of_false (show (-1 : Int) ≠ index by omega) fun here => ?_
      obtain ⟨id,_,rfl⟩ := Option.map_eq_some_iff.mp here
      exact absurd negative (by simp)
    · obtain ⟨y,rfl⟩ := Int.eq_ofNat_of_zero_le (Int.not_lt.mp negative)
      have found := numbers.numbered y index
      rw [intAt,if_pos (Int.natCast_nonneg y),Int.toNat_natCast]
      have same : (used[index]?.map Int.ofNat = some (y : Int)) ↔ used[index]? = some y := by
        cases used[index]? <;> simp
      rw [same,← found]
      cases (table size (numbering physicalIds used))[y]? with
      | none => exact iff_of_false (show (-1 : Int) ≠ index by omega) nofun
      | some value => simp

end Mapping

/-- The mapping numbers the used nodes, and the lists of nodes and the mapping are inverse
to each other. -/
theorem mapping_lists (conversion : Conversion) (physicalIds : List Nat) (envNodes : Option (List Char))
    (sorted : physicalIds.Pairwise (· < ·)) (small : ∀ id ∈ physicalIds, id < 2 ^ 15)
    (parses : ∀ s, envNodes = some s → ∃ requested, getSortedElementsFromString conversion s = some requested ∧ ∀ n ∈ requested, 0 ≤ n) :
    ∃ mapping, getPhysicalToLogicalMapping conversion physicalIds envNodes = .mapping mapping ∧
      Numbers physicalIds (usedNodes physicalIds (request conversion envNodes)) mapping ∧
      Lists (usedNodes physicalIds (request conversion envNodes)) mapping := by
  obtain ⟨size,fits,made⟩ := mapping_eq sorted parses
  have ascending := sorted_usedNodes sorted (request conversion envNodes)
  have subset := usedNodes_subset physicalIds (request conversion envNodes)
  exact ⟨_,made,numbers_table (ascending.imp Nat.ne_of_lt) subset fits,lists_table ascending subset fits small⟩

/-- No index is outside the vector. -/
def Safe (physicalIds : List Nat) (s : List Char) : Prop :=
  ∀ index, getPhysicalToLogicalMapping conversion physicalIds (some s) ≠ .outOfBounds index

/-- The part is read, and its range, when it is not empty, goes up to a node that there could be. -/
def Usable (maxPhysId : Nat) (part : List Char) : Prop :=
  ∃ a b, bounds conversion part = some (a,b) ∧ (a ≤ b → b ≤ maxPhysId ∧ b ≠ intMax)

section Safety
variable {conversion} {size next maxPhysId : Nat} {entry : Nat → Int} {requested : List Int} {part : List Char}

theorem useGivenNodes_inside (fits : ∀ n ∈ requested, ∃ x < size, n = (x : Int)) (index : Int) :
    useGivenNodes requested (table size entry) next ≠ .outOfBounds index := by
  induction requested generalizing entry next with
  | nil => exact nofun
  | cons n rest ih =>
    obtain ⟨x,inside,rfl⟩ := fits n List.mem_cons_self
    have rest_ := fun n member => fits n (List.mem_cons_of_mem _ member)
    rw [useGivenNodes,intAt_table,if_pos inside]
    dsimp only
    split
    · exact nofun
    · split
      · exact ih rest_
      · rw [table_set]
        exact ih rest_

theorem Usable.reads (usable : Usable conversion maxPhysId part) : ∃ range, Reads conversion part range := by
  obtain ⟨a,b,read,room⟩ := usable
  exact ⟨(a,b),read,fun top => (room top.1).2 top.2⟩

theorem unsafe_of_negative {physicalIds : List Nat} {s : List Char} {a b : Int} (ends : physicalIds.getLast? = some maxPhysId)
    (usable : ∀ part ∈ split ',' s, Usable conversion maxPhysId part) (member : part ∈ split ',' s)
    (read : bounds conversion part = some (a,b)) (filled : a ≤ b) (negative : a < 0) : ¬Safe conversion physicalIds s := by
  obtain ⟨elements,parsed,mem⟩ := parse_of_reads conversion fun part member => (usable part member).reads
  have inside : a ∈ elements := (mem a).mpr ⟨part,member,a,b,read,Int.le_refl a,filled⟩
  have ascending := ascending_of_parse parsed
  have below : ∀ n ∈ elements, n ≤ maxPhysId := by
    intro n here
    obtain ⟨part,member,a,b,read,low,high⟩ := (mem n).mp here
    obtain ⟨c,d,same,room⟩ := usable part member
    obtain ⟨rfl,rfl⟩ := Prod.mk.inj (Option.some.inj (read.symm.trans same))
    exact Int.le_trans high (room (Int.le_trans low high)).1
  intro safe
  obtain ⟨first,outside⟩ := useGivenNodes_negative ascending inside negative
  obtain ⟨last,final⟩ : ∃ last, elements.getLast? = some last := ⟨_,List.getLast?_eq_some_getLast (List.ne_nil_of_mem inside)⟩
  have high : ¬(maxPhysId : Int) < last := Int.not_lt.mpr (below last (List.mem_of_getLast? final))
  apply safe first
  simp only [getPhysicalToLogicalMapping,ends,parsed,final,if_neg high,outside]

/-- A request without negative elements is indexed inside the vector, whose size is checked
against the largest one. -/
theorem safe_of_nonnegative {physicalIds : List Nat} {s : List Char} (nonnegative : ∀ maxPhysId requested last,
      physicalIds.getLast? = some maxPhysId → getSortedElementsFromString conversion s = some requested →
        requested.getLast? = some last → last ≤ maxPhysId → ∀ n ∈ requested, 0 ≤ n) : Safe conversion physicalIds s := by
  intro index
  cases ends : physicalIds.getLast? with
  | none => simp [getPhysicalToLogicalMapping,ends]
  | some maxPhysId =>
    simp only [getPhysicalToLogicalMapping,ends]
    cases parsed : getSortedElementsFromString conversion s with
    | none => exact nofun
    | some requested =>
      dsimp only
      cases final : requested.getLast? with
      | none => exact nofun
      | some last =>
        dsimp only
        split
        next => exact nofun
        next bound =>
          have fits : ∀ n ∈ requested, ∃ x < maxPhysId + 1, n = (x : Int) := by
            intro n here
            have low := nonnegative maxPhysId requested last ends parsed final (Int.not_lt.mp bound) n here
            have high := le_last (ascending_of_parse parsed) final n here
            exact ⟨n.toNat,by omega,by omega⟩
          rw [table_replicate,table_fill]
          have kept := @useGivenNodes_inside (maxPhysId + 1) 0 (fun x => if x ∈ physicalIds then -1 else -2) requested fits
          split
          next => exact nofun
          next => exact nofun
          next other outside => exact absurd outside (kept other)

/-- The vector is indexed inside its bounds exactly when some part cannot be used, so that
all nodes are, or no range begins below zero. -/
theorem safe_iff (conversion : Conversion) (physicalIds : List Nat) (s : List Char) : Safe conversion physicalIds s ↔
    ∀ maxPhysId, physicalIds.getLast? = some maxPhysId → (∃ part ∈ split ',' s, ¬Usable conversion maxPhysId part) ∨
      ∀ part ∈ split ',' s, ∀ a b, bounds conversion part = some (a,b) → a ≤ b → 0 ≤ a := by
  constructor
  · intro safe maxPhysId ends
    by_contra neither
    push Not at neither
    obtain ⟨usable,part,member,a,b,read,filled,negative⟩ := neither
    exact unsafe_of_negative ends usable member read filled negative safe
  · intro condition
    apply safe_of_nonnegative
    intro maxPhysId requested last ends parsed final bound n here
    obtain ⟨reads,mem⟩ := mem_of_parse conversion parsed (List.ne_nil_of_mem here)
    obtain ⟨part,member,a,b,read,low,high⟩ := (mem n).mp here
    rcases condition maxPhysId ends with ⟨other,also,unusable⟩ | begins
    · -- the part that cannot be used would have brought a larger element
      obtain ⟨⟨c,d⟩,read,stops⟩ := reads other also
      refine absurd ⟨c,d,read,fun filled => ⟨?_,fun top => stops ⟨filled,top⟩⟩⟩ unusable
      have largest := le_last (ascending_of_parse parsed) final d ((mem d).mpr ⟨other,also,c,d,read,filled,Int.le_refl d⟩)
      omega
    · exact Int.le_trans (begins part member a b read (Int.le_trans low high)) low

end Safety

/-- A machine of two nodes, and a range without its lower bound. -/
theorem dash_indexes_below : ¬Safe glibc [0,1] "-1".toList := fun safe => safe (-1) rfl

/-- Two of three nodes, one of them requested twice. -/
theorem mapping_lists_twice : ∃ mapping, getPhysicalToLogicalMapping glibc [0,1,4] (some "4,1-1,4".toList) = .mapping mapping ∧
    Numbers [0,1,4] (usedNodes [0,1,4] (request glibc (some "4,1-1,4".toList))) mapping ∧
    Lists (usedNodes [0,1,4] (request glibc (some "4,1-1,4".toList))) mapping :=
  mapping_lists glibc [0,1,4] (some "4,1-1,4".toList) (by decide) (by decide) fun s same => by
    obtain rfl := Option.some.inj same
    exact ⟨[1,4,4],by decide,by decide⟩

end Pgasus.NodeMapping
