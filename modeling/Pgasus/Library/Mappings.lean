import Mathlib.Data.List.Basic
import Mathlib.Logic.Function.Basic

/-! An address space made of mappings, each bound to a node or (when that is negative)
to none. A page is placed when it is touched for the first time, by its mapping. -/
namespace Pgasus.Mappings

structure Mapping where
  first : Nat
  count : Nat
  node : Int
deriving DecidableEq

def Mapping.covers (mapping : Mapping) (page : Nat) : Bool :=
  decide (mapping.first ≤ page) && decide (page < mapping.first + mapping.count)

/-- `resident` says where the pages are that have been touched. -/
structure Space where
  mappings : List Mapping
  resident : Nat → Option Int

theorem Mapping.covers_iff {mapping : Mapping} {page : Nat} :
    mapping.covers page = true ↔ mapping.first ≤ page ∧ page < mapping.first + mapping.count := by
  simp [covers]

namespace Space

def empty : Space := ⟨[],fun _ => none⟩

def node (space : Space) (page : Nat) : Option Int :=
  (space.mappings.find? (·.covers page)).map Mapping.node

def vacant (space : Space) (mapping : Mapping) : Bool :=
  space.mappings.all fun old => old.first + old.count ≤ mapping.first || mapping.first + mapping.count ≤ old.first

def map (space : Space) (mapping : Mapping) : Space :=
  ⟨mapping::space.mappings,fun page => if mapping.covers page then none else space.resident page⟩

/-- Where the page goes when a thread on the node `here` touches it. -/
def place (space : Space) (page : Nat) (here : Int) : Option Int :=
  (space.node page).map fun bound => if bound < 0 then here else bound

def put (space : Space) (page : Nat) (node : Int) : Space :=
  {space with resident := Function.update space.resident page (some node)}

/-- The pages from `first` on and before `last` are dropped; they can be touched again. -/
def discard (space : Space) (first last : Nat) : Space :=
  {space with resident := fun page => if first ≤ page ∧ page < last then none else space.resident page}

def move (space : Space) (pages : List Nat) (movable : Nat → Bool) (node : Int) : Space :=
  {space with resident := fun page =>
    if page ∈ pages ∧ movable page then (space.resident page).map (fun _ => node) else space.resident page}

variable {space : Space} {mapping : Mapping} {page : Nat} {bound : Int}

@[simp] theorem node_move (pages : List Nat) (movable : Nat → Bool) (node : Int) :
    (space.move pages movable node).node = space.node := rfl

theorem node_map_of_covers (covers : mapping.covers page = true) :
    (space.map mapping).node page = some mapping.node := by
  simp [node,map,List.find?_cons_of_pos,covers]

theorem node_map (vacant : space.vacant mapping = true) (here : space.node page = some bound) :
    (space.map mapping).node page = some bound := by
  obtain ⟨old,found,_⟩ := Option.map_eq_some_iff.mp here
  have covered := List.find?_some found
  have apart := List.all_eq_true.mp vacant old (List.mem_of_find?_eq_some found)
  have outside : ¬mapping.covers page = true := by
    rw [Mapping.covers_iff] at *
    simp only [Bool.or_eq_true,decide_eq_true_eq] at apart
    omega
  exact (congrArg (Option.map Mapping.node) (List.find?_cons_of_neg outside)).trans here

theorem place_of_bound (here : space.node page = some bound) (toward : 0 ≤ bound) (thread : Int) :
    space.place page thread = some bound := by
  simp [place,here,Int.not_lt.mpr toward]

end Space
end Pgasus.Mappings
