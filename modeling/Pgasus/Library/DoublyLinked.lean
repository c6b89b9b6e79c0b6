import Mathlib.Data.List.Basic

/-! Doubly linked lists whose links are two functions on the nodes, with 0 for the
end. A program that keeps the links in memory gets them by reading it. -/
namespace Pgasus.DoublyLinked

/-- From `head`, whose predecessor is `before`, the links go through the nodes of the list. -/
def Chain (next previous : Nat → Nat) : Nat → Nat → List Nat → Prop
  | _, head, [] => head = 0
  | before, head, node::rest =>
    head = node ∧ node ≠ 0 ∧ previous node = before ∧ Chain next previous node (next node) rest

variable {next previous next' previous' : Nat → Nat} {before head node : Nat} {list : List Nat}

theorem Chain.congr (chain : Chain next previous before head list) (nexts : ∀ other ∈ list, next' other = next other)
    (previouses : ∀ other ∈ list, previous' other = previous other) : Chain next' previous' before head list := by
  induction list generalizing before head with
  | nil => exact chain
  | cons first rest ih =>
    obtain ⟨same,nonnull,back,chain⟩ := chain
    refine ⟨same,nonnull,(previouses first List.mem_cons_self).trans back,?_⟩
    rw [nexts first List.mem_cons_self]
    exact ih chain (fun other member => nexts other (List.mem_cons_of_mem first member))
      fun other member => previouses other (List.mem_cons_of_mem first member)

theorem Chain.nonnull (chain : Chain next previous before head list) : 0 ∉ list := by
  induction list generalizing before head with
  | nil => exact List.not_mem_nil
  | cons first rest ih =>
    obtain ⟨_,nonnull,_,chain⟩ := chain
    simpa using And.intro nonnull.symm (ih chain)

theorem Chain.head_mem (chain : Chain next previous before head list) : head = 0 ∨ head ∈ list := by
  cases list with
  | nil => exact Or.inl chain
  | cons first rest => exact Or.inr (by rw [chain.1]; exact List.mem_cons_self)

theorem Chain.next_mem (chain : Chain next previous before head list) (member : node ∈ list) :
    next node = 0 ∨ next node ∈ list := by
  induction list generalizing before head with
  | nil => cases member
  | cons first rest ih =>
    obtain ⟨_,_,_,chain⟩ := chain
    rcases List.mem_cons.mp member with rfl | later
    · cases rest with
      | nil => exact Or.inl chain
      | cons second rest => exact Or.inr (by rw [chain.1]; simp)
    · exact (ih chain later).imp_right (List.mem_cons_of_mem first)

theorem Chain.previous_mem (chain : Chain next previous before head list) (member : node ∈ list) :
    previous node = before ∨ previous node ∈ list := by
  induction list generalizing before head with
  | nil => cases member
  | cons first rest ih =>
    obtain ⟨_,_,back,chain⟩ := chain
    rcases List.mem_cons.mp member with rfl | later
    · exact Or.inl back
    · rcases ih chain later with same | inside
      · exact Or.inr (by rw [same]; exact List.mem_cons_self)
      · exact Or.inr (List.mem_cons_of_mem first inside)

theorem Chain.next_ne (chain : Chain next previous before head list) (member : node ∈ list) (distinct : list.Nodup) :
    next node ≠ node := by
  induction list generalizing before head with
  | nil => cases member
  | cons first rest ih =>
    obtain ⟨_,nonnull,_,chain⟩ := chain
    obtain ⟨unique,distinct⟩ := List.nodup_cons.mp distinct
    rcases List.mem_cons.mp member with rfl | later
    · intro same
      cases rest with
      | nil => exact nonnull (same.symm.trans chain)
      | cons second rest => exact unique (by rw [same.symm.trans chain.1]; exact List.mem_cons_self)
    · exact ih chain later distinct

theorem Chain.previous_ne (chain : Chain next previous before head list) (member : node ∈ list) (distinct : list.Nodup)
    (outside : before ∉ list) : previous node ≠ node := by
  induction list generalizing before head with
  | nil => cases member
  | cons first rest ih =>
    obtain ⟨_,_,back,chain⟩ := chain
    obtain ⟨unique,distinct⟩ := List.nodup_cons.mp distinct
    rcases List.mem_cons.mp member with rfl | later
    · intro same
      exact outside (by rw [back.symm.trans same]; exact List.mem_cons_self)
    · exact ih chain later distinct unique

theorem Chain.previous_eq_before (chain : Chain next previous before head list) (member : node ∈ list)
    (distinct : list.Nodup) (outside : before ∉ list) : previous node = before ↔ head = node := by
  cases list with
  | nil => cases member
  | cons first rest =>
    obtain ⟨rfl,_,back,chain⟩ := chain
    obtain ⟨unique,_⟩ := List.nodup_cons.mp distinct
    rcases List.mem_cons.mp member with rfl | later
    · exact ⟨fun _ => rfl,fun _ => back⟩
    · constructor
      · intro same
        rcases chain.previous_mem later with first | inside
        · rw [same] at first
          exact absurd (first ▸ List.mem_cons_self) outside
        · exact absurd (List.mem_cons_of_mem _ (same ▸ inside)) outside
      · intro same
        exact absurd (same ▸ later) unique

theorem Chain.push (chain : Chain next previous 0 head list) (nonnull : node ≠ 0) (distinct : list.Nodup)
    (linked : next' node = head) (first : previous' node = 0) (back : head ≠ 0 → previous' head = node)
    (nexts : ∀ other ∈ list, next' other = next other)
    (previouses : ∀ other ∈ list, other ≠ head → previous' other = previous other) :
    Chain next' previous' 0 node (node::list) := by
  refine ⟨rfl,nonnull,first,?_⟩
  rw [linked]
  cases list with
  | nil => exact chain
  | cons second rest =>
    obtain ⟨rfl,present,_,chain⟩ := chain
    obtain ⟨unique,_⟩ := List.nodup_cons.mp distinct
    refine ⟨rfl,present,back present,?_⟩
    rw [nexts head List.mem_cons_self]
    apply chain.congr
    · intro other member
      exact nexts other (List.mem_cons_of_mem head member)
    · intro other member
      apply previouses other (List.mem_cons_of_mem head member)
      intro same
      exact unique (same ▸ member)

theorem Chain.remove (chain : Chain next previous before head list) (distinct : list.Nodup) (outside : before ∉ list)
    (member : node ∈ list)
    (nexts : ∀ other ∈ list, other ≠ node → next' other = if previous node = other then next node else next other)
    (previouses : ∀ other ∈ list, other ≠ node →
      previous' other = if next node = other then previous node else previous other) :
    Chain next' previous' before (if previous node = before then next node else head) (list.erase node) := by
  induction list generalizing before head with
  | nil => cases member
  | cons first rest ih =>
    have position := chain.previous_eq_before member distinct outside
    obtain ⟨rfl,present,back,chain⟩ := chain
    obtain ⟨unique,distinct⟩ := List.nodup_cons.mp distinct
    by_cases same : head = node
    · subst same
      rw [if_pos back,List.erase_cons_head]
      cases rest with
      | nil => exact chain
      | cons second rest =>
        obtain ⟨following,nonnull,_,chain⟩ := chain
        obtain ⟨single,_⟩ := List.nodup_cons.mp distinct
        have other (later : Nat) (inside : later ∈ second::rest) : later ≠ head ∧ before ≠ later :=
          ⟨fun same => unique (same ▸ inside),fun same => outside (List.mem_cons_of_mem head (same ▸ inside))⟩
        have second_other := other second List.mem_cons_self
        refine ⟨following,nonnull,?_,?_⟩
        · rw [previouses second (by simp) second_other.1,if_pos following,back]
        · rw [nexts second (by simp) second_other.1,back,if_neg second_other.2]
          apply chain.congr
          · intro later inside
            have far := other later (List.mem_cons_of_mem second inside)
            rw [nexts later (by simp [inside]) far.1,back,if_neg far.2]
          · intro later inside
            have far := other later (List.mem_cons_of_mem second inside)
            rw [previouses later (by simp [inside]) far.1,if_neg]
            intro same
            exact single (following.symm.trans same ▸ inside)
    · have later : node ∈ rest := (List.mem_cons.mp member).resolve_left (Ne.symm same)
      have recursive := ih chain distinct unique later
        (fun other inside => nexts other (List.mem_cons_of_mem head inside))
        fun other inside => previouses other (List.mem_cons_of_mem head inside)
      have away : next node ≠ head := by
        intro same
        rcases chain.next_mem later with last | inside
        · exact present (same.symm.trans last)
        · exact unique (same ▸ inside)
      rw [if_neg fun first => same (position.mp first),List.erase_cons_tail (by simpa using same)]
      refine ⟨rfl,present,?_,?_⟩
      · rw [previouses head List.mem_cons_self same,if_neg away,back]
      · rw [nexts head List.mem_cons_self same]
        exact recursive

end Pgasus.DoublyLinked
