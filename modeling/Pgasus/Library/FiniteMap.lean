import Mathlib.Data.List.Basic

/-! Finite maps over keys that are compared by a boolean equality. Keys that
compare equal need not be identical, so every law is stated up to `==`. -/
namespace Pgasus

structure FiniteMap (Key Value : Type) [BEq Key] where
  entries : List (Key × Value)
  distinct : entries.Pairwise (fun a b => (a.1 == b.1) = false)

namespace FiniteMap
variable {Key Value : Type} [BEq Key]

def empty : FiniteMap Key Value := ⟨[],List.Pairwise.nil⟩

def find? (map : FiniteMap Key Value) (key : Key) : Option Value :=
  (map.entries.find? (fun entry => entry.1 == key)).map (·.2)

def erase (map : FiniteMap Key Value) (key : Key) : FiniteMap Key Value :=
  ⟨map.entries.filter (fun entry => !(entry.1 == key)),map.distinct.filter _⟩

def size (map : FiniteMap Key Value) : Nat := map.entries.length

variable [EquivBEq Key]

def insert (map : FiniteMap Key Value) (key : Key) (value : Value) : FiniteMap Key Value :=
  ⟨(key,value) :: (map.erase key).entries,List.pairwise_cons.mpr ⟨fun entry member => by
    have kept := (List.mem_filter.mp member).2
    rw [BEq.comm]
    simpa using kept,(map.erase key).distinct⟩⟩

theorem find?_erase (map : FiniteMap Key Value) (key other : Key) :
    (map.erase key).find? other = if (key == other) = true then none else map.find? other := by
  unfold find? erase
  rw [List.find?_filter]
  split
  next same =>
    simp [BEq.congr_right same]
  next different =>
    have kept (entry : Key × Value) : decide ((!(entry.1 == key)) = true ∧ (entry.1 == other) = true) =
        (entry.1 == other) := by
      cases matched : entry.1 == other with
      | false => simp
      | true =>
        have apart : ¬(entry.1 == key) = true := fun first => different (BEq.trans (BEq.symm first) matched)
        simpa using apart
    exact congrArg (Option.map (·.2)) (congrArg (List.find? · map.entries) (funext kept))

theorem find?_insert (map : FiniteMap Key Value) (key other : Key) (value : Value) :
    (map.insert key value).find? other = if (key == other) = true then some value else map.find? other := by
  have erased := find?_erase map key other
  unfold find? at erased ⊢
  simp only [insert,List.find?_cons]
  split
  next same => simp [same]
  next different => simpa [different] using erased

theorem countP_le_one (map : FiniteMap Key Value) (key : Key) :
    map.entries.countP (fun entry => entry.1 == key) ≤ 1 := by
  obtain ⟨entries,distinct⟩ := map
  induction entries with
  | nil => simp
  | cons entry rest ih =>
    obtain ⟨apart,distinct⟩ := List.pairwise_cons.mp distinct
    by_cases same : (entry.1 == key) = true
    · have none_left : rest.countP (fun entry => entry.1 == key) = 0 := by
        refine List.countP_eq_zero.mpr fun other member equal => ?_
        have together := BEq.trans same (BEq.symm equal)
        simp [apart other member] at together
      simp [same,none_left]
    · simpa [List.countP_cons,same] using ih distinct

theorem size_erase (map : FiniteMap Key Value) (key : Key) :
    map.size = (map.erase key).size + if (map.find? key).isSome then 1 else 0 := by
  have split := List.length_eq_countP_add_countP (fun entry : Key × Value => entry.1 == key) (l := map.entries)
  have atMost := countP_le_one map key
  simp only [size,erase,← List.countP_eq_length_filter]
  have present : (map.find? key).isSome = true ↔ 0 < map.entries.countP (fun entry => entry.1 == key) := by
    simp [find?,List.countP_pos_iff]
  have complement : map.entries.countP (fun entry => decide ¬(entry.1 == key) = true) =
      map.entries.countP (fun entry => !(entry.1 == key)) :=
    List.countP_congr fun entry _ => by simp
  rw [complement] at split
  split
  next there => have := present.mp there; omega
  next absent => have := mt present.mpr absent; omega

theorem size_insert (map : FiniteMap Key Value) (key : Key) (value : Value) :
    (map.insert key value).size + (if (map.find? key).isSome then 1 else 0) = map.size + 1 := by
  have erased := size_erase map key
  have counted : (map.insert key value).size = (map.erase key).size + 1 := rfl
  omega

theorem insert_insert (map : FiniteMap Key Value) (key : Key) (first second : Value) :
    (map.insert key first).insert key second = map.insert key second := by
  simp [insert,erase,List.filter_filter]

end FiniteMap
end Pgasus
