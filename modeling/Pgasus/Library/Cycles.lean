import Mathlib.Data.Fintype.EquivFin
import Mathlib.Order.WellFounded
import Mathlib.Logic.Relation
import Mathlib.Data.Set.Finite.Basic
import Mathlib.Order.RelClasses

/-! Cycles in waits-for relations. In a finite set where every element waits for
another one of the set, following the waits leads back to where one was. -/
namespace Pgasus.Cycles
open Relation

variable {Node : Type}

def Acyclic (waits : Node → Node → Prop) : Prop := ∀ node, ¬TransGen waits node node

theorem acyclic_not_all_wait {waits : Node → Node → Prop} (acyclic : Acyclic waits) {blocked : Set Node}
    (finite : blocked.Finite) (next : ∀ node ∈ blocked, ∃ other ∈ blocked, waits node other) : blocked = ∅ := by
  by_contra nonempty
  have inhabited := Set.nonempty_iff_ne_empty.mpr nonempty
  let after : blocked → blocked → Prop := fun second first => TransGen waits first second
  have : Finite blocked := finite
  have : IsTrans blocked after := ⟨fun _ _ _ third second => second.trans third⟩
  have : Std.Irrefl after := ⟨fun node => acyclic node⟩
  have founded : WellFounded after := Finite.wellFounded_of_trans_of_irrefl after
  obtain ⟨last,_,least⟩ := founded.has_min Set.univ ⟨⟨_,inhabited.some_mem⟩,trivial⟩
  obtain ⟨other,member,wait⟩ := next last last.property
  exact least ⟨other,member⟩ trivial (TransGen.single wait)

theorem acyclic_of_rank {waits : Node → Node → Prop} (rank : Node → Nat)
    (upward : ∀ node other, waits node other → rank node < rank other) : Acyclic waits := by
  intro node cycle
  have climbs {first last : Node} (path : TransGen waits first last) : rank first < rank last := by
    induction path with
    | single wait => exact upward _ _ wait
    | tail _ wait ih => exact ih.trans (upward _ _ wait)
  exact lt_irrefl _ (climbs cycle)

end Pgasus.Cycles
