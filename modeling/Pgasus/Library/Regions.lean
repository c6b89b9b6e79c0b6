import Mathlib.Data.List.Nodup
import Mathlib.Data.List.Perm.Basic

/-! Pages that a program gets from the system in regions, and gives back. The records
count them, so that a page given back twice shows. -/
namespace Pgasus.Regions

/-- `strays` are the pages given back that were not mapped. -/
structure Space (Page : Type) where
  mapped : List Page
  returned : List Page
  unmapped : List Page
  strays : List Page

namespace Space
variable {Page : Type}

def empty : Space Page := ⟨[],[],[],[]⟩

def vacant (space : Space Page) (region : List Page) : Prop := region.Nodup ∧ ∀ page ∈ region, page ∉ space.mapped

instance [DecidableEq Page] (space : Space Page) (region : List Page) : Decidable (space.vacant region) := inferInstanceAs (Decidable (_ ∧ _))

def map (space : Space Page) (region : List Page) : Space Page :=
  {space with mapped := region ++ space.mapped,returned := region ++ space.returned}

def unmap [DecidableEq Page] (space : Space Page) (region : List Page) : Space Page :=
  ⟨space.mapped.filter (· ∉ region),space.returned,region ++ space.unmapped,
    region.filter (· ∉ space.mapped) ++ space.strays⟩

structure Exact (space : Space Page) : Prop where
  mapped : space.mapped = []
  strays : space.strays = []
  unmapped : space.unmapped.Perm space.returned

/-- The mapped pages are those of the regions, which do not share any. -/
structure Owns (space : Space Page) (regions : List (List Page)) : Prop where
  distinct : space.mapped.Nodup
  whole : space.mapped.Perm regions.flatten
  strays : space.strays = []
  balance : (space.unmapped ++ space.mapped).Perm space.returned

variable {space : Space Page} {region : List Page} {regions regions' : List (List Page)}

theorem owns_empty : Owns (empty : Space Page) [] := ⟨List.nodup_nil,List.Perm.refl [],rfl,List.Perm.refl []⟩

theorem Owns.perm (owns : space.Owns regions) (same : regions.Perm regions') : space.Owns regions' :=
  ⟨owns.distinct,owns.whole.trans same.flatten,owns.strays,owns.balance⟩

theorem Owns.mem (owns : space.Owns regions) (member : region ∈ regions) {page : Page} (inside : page ∈ region) :
    page ∈ space.mapped := owns.whole.mem_iff.mpr (List.mem_flatten_of_mem member inside)

theorem Owns.map (owns : space.Owns regions) (vacant : space.vacant region) : (space.map region).Owns (region::regions) := by
  obtain ⟨distinct,apart⟩ := vacant
  refine ⟨distinct.append owns.distinct fun page => apart page,owns.whole.append_left region,owns.strays,?_⟩
  calc space.unmapped ++ (region ++ space.mapped)
    _ = space.unmapped ++ region ++ space.mapped := (List.append_assoc _ _ _).symm
    List.Perm _ (region ++ space.unmapped ++ space.mapped) := List.perm_append_comm.append_right _
    _ = region ++ (space.unmapped ++ space.mapped) := List.append_assoc _ _ _
    List.Perm _ (region ++ space.returned) := owns.balance.append_left region

theorem Owns.unmap [DecidableEq Page] (owns : space.Owns (region::regions)) : (space.unmap region).Owns regions := by
  have whole : space.mapped.Perm (region ++ regions.flatten) := owns.whole
  have apart := List.disjoint_of_nodup_append (whole.nodup owns.distinct)
  have rest : (space.mapped.filter (· ∉ region)).Perm regions.flatten := by
    refine (whole.filter _).trans ?_
    rw [List.filter_append,List.filter_eq_nil_iff.mpr (by simp),List.nil_append,List.filter_eq_self.mpr]
    intro page inside
    exact decide_eq_true fun other => apart other inside
  refine ⟨owns.distinct.filter _,rest,?_,?_⟩
  · have known : region.filter (· ∉ space.mapped) = [] := by
      refine List.filter_eq_nil_iff.mpr fun page inside => ?_
      simpa using owns.mem List.mem_cons_self inside
    exact (congrArg (· ++ space.strays) known).trans owns.strays
  · calc region ++ space.unmapped ++ space.mapped.filter (· ∉ region)
      List.Perm _ (space.unmapped ++ region ++ space.mapped.filter (· ∉ region)) := List.perm_append_comm.append_right _
      _ = space.unmapped ++ (region ++ space.mapped.filter (· ∉ region)) := List.append_assoc _ _ _
      List.Perm _ (space.unmapped ++ space.mapped) := ((rest.append_left region).trans whole.symm).append_left _
      List.Perm _ space.returned := owns.balance

theorem Owns.exact_ (owns : space.Owns []) : space.Exact := by
  have none := List.Perm.eq_nil owns.whole
  refine ⟨none,owns.strays,?_⟩
  simpa [none] using owns.balance

end Space
end Pgasus.Regions
