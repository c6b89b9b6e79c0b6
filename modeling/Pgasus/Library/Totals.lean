import Mathlib.Algebra.BigOperators.Group.List.Basic
import Mathlib.Data.List.Count
import Mathlib.Data.List.Nodup
import Mathlib.Algebra.Ring.Int.Defs
import Mathlib.Algebra.Ring.Nat

/-! A weight summed over the members of a list, and how the sum changes when
one member is replaced. The members are the program points of threads. -/
namespace Pgasus.Totals

variable {Member : Type} (weight : Member → Nat)

def total (members : List Member) : Nat := (members.map weight).sum

variable {weight} {members : List Member} {position : Nat} {old new : Member}

@[simp] theorem total_nil : total weight [] = 0 := rfl

@[simp] theorem total_cons (member : Member) :
    total weight (member::members) = weight member + total weight members := by simp [total]

theorem total_set (weight : Member → Nat) (new : Member) (found : members[position]? = some old) :
    total weight (members.set position new) + weight old = total weight members + weight new := by
  induction members generalizing position with
  | nil => simp at found
  | cons member rest ih =>
    cases position with
    | zero =>
      obtain rfl := Option.some.inj found
      simp only [List.set_cons_zero,total_cons]
      omega
    | succ position =>
      have tail := ih (show rest[position]? = some old from found)
      simp only [List.set_cons_succ,total_cons]
      omega

theorem modify_eq_set (change : Member → Member) (found : members[position]? = some old) :
    members.modify position change = members.set position (change old) := by
  obtain ⟨bound,rfl⟩ := List.getElem?_eq_some_iff.mp found
  apply List.ext_getElem?
  intro other
  rw [List.getElem?_modify,List.getElem?_set]
  split
  next same =>
    subst same
    simp [bound]
  next => simp

theorem total_modify (weight : Member → Nat) (change : Member → Member) (found : members[position]? = some old) :
    total weight (members.modify position change) + weight old = total weight members + weight (change old) := by
  rw [modify_eq_set change found]
  exact total_set weight (change old) found

@[simp] theorem total_append (first second : List Member) :
    total weight (first ++ second) = total weight first + total weight second := by simp [total]

theorem mem_set_cases {member : Member} (inside : member ∈ members.set position new) :
    member = new ∨ ∃ other, other ≠ position ∧ members[other]? = some member := by
  obtain ⟨other,found⟩ := List.mem_iff_getElem?.mp inside
  by_cases same : position = other
  · subst same
    obtain ⟨bound,at_⟩ := List.getElem?_eq_some_iff.mp found
    rw [List.getElem_set_self] at at_
    exact .inl at_.symm
  · rw [List.getElem?_set_ne same] at found
    exact .inr ⟨other,Ne.symm same,found⟩

theorem map_set {Field : Type} (field : Member → Field) (found : members[position]? = some old) (same : field new = field old) :
    (members.set position new).map field = members.map field := by
  induction members generalizing position with
  | nil => simp at found
  | cons member rest ih =>
    cases position with
    | zero =>
      obtain rfl := Option.some.inj found
      rw [List.set_cons_zero,List.map_cons,List.map_cons,same]
    | succ position =>
      rw [List.set_cons_succ,List.map_cons,List.map_cons,ih (show rest[position]? = some old from found)]

theorem weight_le_total (weight : Member → Nat) (found : members[position]? = some old) : weight old ≤ total weight members := by
  induction members generalizing position with
  | nil => simp at found
  | cons member rest ih =>
    cases position with
    | zero =>
      obtain rfl := Option.some.inj found
      simp
    | succ position =>
      have tail := ih (show rest[position]? = some old from found)
      simp only [total_cons]
      omega

theorem position_unique (weight : Member → Nat) {first second : Nat} {one other : Member} (found : members[first]? = some one)
    (also : members[second]? = some other) (heavy : total weight members < weight one + weight other) :
    first = second := by
  induction members generalizing first second with
  | nil => simp at found
  | cons member rest ih =>
    cases first with
    | zero =>
      cases second with
      | zero => rfl
      | succ second =>
        obtain rfl := Option.some.inj found
        have light := weight_le_total weight (show rest[second]? = some other from also)
        simp only [total_cons] at heavy
        omega
    | succ first =>
      cases second with
      | zero =>
        obtain rfl := Option.some.inj also
        have light := weight_le_total weight (show rest[first]? = some one from found)
        simp only [total_cons] at heavy
        omega
      | succ second =>
        have same := ih (show rest[first]? = some one from found) (show rest[second]? = some other from also) (by
          simp only [total_cons] at heavy
          omega)
        omega

theorem total_eq_zero : total weight members = 0 ↔ ∀ member ∈ members, weight member = 0 := by
  induction members with
  | nil => simp
  | cons member rest ih =>
    rw [total_cons,Nat.add_eq_zero_iff,ih]
    simp

theorem total_set_alone (weight : Member → Nat) (new : Member) (bound : position < members.length)
    (light : ∀ other member, other ≠ position → members[other]? = some member → weight member = 0) :
    total weight (members.set position new) = weight new := by
  induction members generalizing position with
  | nil => cases bound
  | cons member rest ih =>
    cases position with
    | zero =>
      have none_ : total weight rest = 0 := by
        rw [total_eq_zero]
        intro other inside
        obtain ⟨place,found⟩ := List.mem_iff_getElem?.mp inside
        exact light (place + 1) other (Nat.succ_ne_zero place) found
      rw [List.set_cons_zero,total_cons,none_,Nat.add_zero]
    | succ position =>
      have first := light 0 member (Nat.succ_ne_zero position).symm rfl
      have tail := ih (Nat.lt_of_succ_lt_succ bound) fun other member different found =>
        light (other + 1) member (fun same => different (Nat.succ.inj same)) found
      rw [List.set_cons_succ,total_cons,first,tail,Nat.zero_add]

theorem total_replicate (weight : Member → Nat) (count : Nat) {member : Member} (light : weight member = 0) :
    total weight (List.replicate count member) = 0 := by
  rw [total_eq_zero]
  intro other inside
  rw [List.eq_of_mem_replicate inside]
  exact light

theorem total_congr {first second : Member → Nat} (same : ∀ member ∈ members, first member = second member) :
    total first members = total second members :=
  congrArg List.sum (List.map_congr_left same)

theorem total_eq_countP (test : Member → Bool) (members : List Member) :
    total (fun member => if test member then 1 else 0) members = members.countP test := by
  induction members with
  | nil => rfl
  | cons member rest ih =>
    rw [total_cons,List.countP_cons,ih,Nat.add_comm]

theorem total_add (first second : Member → Nat) (members : List Member) :
    total (fun member => first member + second member) members = total first members + total second members :=
  List.sum_map_add

theorem total_ite (test : Member → Bool) (value : Nat) (members : List Member) :
    total (fun member => if test member then value else 0) members = value * members.countP test := by
  induction members with
  | nil => rfl
  | cons member rest ih =>
    rw [total_cons,List.countP_cons,ih,Nat.mul_add,Nat.add_comm]
    split <;> simp

theorem total_le_of_mem (weight : Member → Nat) (light : ∀ member ∈ members, weight member ≤ 1) :
    total weight members ≤ members.length := by
  induction members with
  | nil => exact Nat.le_refl 0
  | cons member rest ih =>
    have one := light member List.mem_cons_self
    have tail := ih fun other inside => light other (List.mem_cons_of_mem member inside)
    rw [total_cons,List.length_cons]
    omega

theorem total_le_length (weight : Member → Nat) (light : ∀ member, weight member ≤ 1) (members : List Member) :
    total weight members ≤ members.length := total_le_of_mem weight fun member _ => light member

theorem eq_one_of_full (weight : Member → Nat) (light : ∀ member ∈ members, weight member ≤ 1)
    (full : members.length ≤ total weight members) {member : Member} (inside : member ∈ members) : weight member = 1 := by
  induction members with
  | nil => cases inside
  | cons head rest ih =>
    have one := light head List.mem_cons_self
    have lighter : ∀ other ∈ rest, weight other ≤ 1 := fun other also => light other (List.mem_cons_of_mem head also)
    have tail := total_le_of_mem weight lighter
    rw [total_cons,List.length_cons] at full
    obtain rfl | later := List.mem_cons.mp inside
    · omega
    · exact ih lighter (by omega) later

theorem total_le_add {first second third : Member → Nat} (light : ∀ member, first member ≤ second member + third member)
    (members : List Member) : total first members ≤ total second members + total third members := by
  induction members with
  | nil => simp
  | cons member rest ih =>
    have one := light member
    simp only [total_cons]
    omega

theorem total_pos_of_mem {member : Member} (inside : member ∈ members) (heavy : 0 < weight member) :
    0 < total weight members := by
  rcases Nat.eq_zero_or_pos (total weight members) with zero | positive
  · have light := total_eq_zero.mp zero member inside
    omega
  · exact positive

theorem total_change {first second : Member → Nat} {member : Member} (nodup : members.Nodup) (inside : member ∈ members)
    (others : ∀ other, other ≠ member → first other = second other) :
    total first members + second member = total second members + first member := by
  induction members with
  | nil => cases inside
  | cons head rest ih =>
    obtain ⟨missing,nodup⟩ := List.nodup_cons.mp nodup
    simp only [total_cons]
    obtain rfl | inside := List.mem_cons.mp inside
    · have same : total first rest = total second rest :=
        total_congr fun other inRest => others other fun equal => missing (equal ▸ inRest)
      omega
    · have tail := ih nodup inside
      have apart := others head fun equal => missing (equal ▸ inside)
      omega

theorem total_flatMap {Element : Type} (weight : Element → Nat) (parts : Member → List Element) (members : List Member) :
    total weight (members.flatMap parts) = total (fun member => total weight (parts member)) members := by
  induction members with
  | nil => rfl
  | cons member rest ih => rw [List.flatMap_cons,total_append,total_cons,ih]

/-- Lists that weigh the same by every weight have the same members. -/
theorem perm_of_total {first second : List Member} (same : ∀ weight : Member → Nat,
    total weight first = total weight second) : first.Perm second := by
  classical
  rw [List.perm_iff_count]
  intro member
  have equal := same fun other => if other == member then 1 else 0
  rw [total_eq_countP,total_eq_countP] at equal
  exact equal

end Pgasus.Totals
