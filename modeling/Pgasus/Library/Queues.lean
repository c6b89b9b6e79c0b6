import Mathlib.Data.List.Perm.Lattice
import Mathlib.Data.List.Nodup
import Mathlib.Logic.Function.Basic

/-! A family of first-in first-out queues, one for each place, and what the
places of a list hold together. -/
namespace Pgasus.Queues

variable {Place Item : Type} [DecidableEq Place]

def push (queue : Place → List Item) (place : Place) (item : Item) : Place → List Item :=
  Function.update queue place (queue place ++ [item])

def pop (queue : Place → List Item) (place : Place) : Option (Item × (Place → List Item)) :=
  match queue place with
  | [] => none
  | item::rest => some (item,Function.update queue place rest)

def contents (places : List Place) (queue : Place → List Item) : List Item :=
  places.flatMap queue

variable {queue next : Place → List Item} {place other : Place} {places : List Place} {item : Item}

@[simp] theorem push_self : push queue place item place = queue place ++ [item] := by simp [push]

theorem push_other (different : other ≠ place) : push queue place item other = queue other := by
  simp [push,different]

theorem pop_none : pop queue place = none ↔ queue place = [] := by
  unfold pop
  cases queue place <;> simp

theorem pop_some (popped : pop queue place = some (item,next)) :
    ∃ rest, queue place = item::rest ∧ next = Function.update queue place rest := by
  unfold pop at popped
  split at popped
  next => cases popped
  next first rest found =>
    obtain ⟨rfl,rfl⟩ := Prod.mk.inj (Option.some.inj popped)
    exact ⟨rest,found,rfl⟩

theorem pop_of_cons {rest : List Item} (found : queue place = item::rest) :
    pop queue place = some (item,Function.update queue place rest) := by
  simp [pop,found]

omit [DecidableEq Place] in
theorem contents_congr (same : ∀ place ∈ places, next place = queue place) :
    contents places next = contents places queue :=
  List.flatMap_congr same

theorem contents_split (queue : Place → List Item) (among : place ∈ places) :
    (contents places queue).Perm (queue place ++ contents (places.erase place) queue) := by
  unfold contents
  rw [← List.flatMap_cons]
  exact (List.perm_cons_erase among).flatMap_right queue

theorem contents_update (queue : Place → List Item) (distinct : places.Nodup) (among : place ∈ places) (items : List Item) :
    (contents places (Function.update queue place items)).Perm
      (items ++ contents (places.erase place) queue) := by
  have split := contents_split (Function.update queue place items) among
  rw [Function.update_self] at split
  have others : contents (places.erase place) (Function.update queue place items) =
      contents (places.erase place) queue := by
    apply contents_congr
    intro other inside
    have different : other ≠ place := (distinct.mem_erase_iff.mp inside).1
    simp [different]
  rwa [others] at split

theorem contents_push (distinct : places.Nodup) (among : place ∈ places) :
    (contents places (push queue place item)).Perm (item::contents places queue) := by
  have after := contents_update queue distinct among (queue place ++ [item])
  have before := contents_split queue among
  refine after.trans (List.Perm.trans ?_ (before.symm.cons item))
  rw [List.append_assoc]
  exact List.perm_middle

theorem contents_pop (distinct : places.Nodup) (among : place ∈ places)
    (popped : pop queue place = some (item,next)) :
    (contents places queue).Perm (item::contents places next) := by
  obtain ⟨rest,found,rfl⟩ := pop_some popped
  have before := contents_split queue among
  rw [found] at before
  exact before.trans ((contents_update queue distinct among rest).symm.cons item)

theorem contents_move (distinct : places.Nodup) (among : place ∈ places) (also : other ∈ places)
    (different : place ≠ other) :
    (contents places (Function.update (Function.update queue place []) other (queue other ++ queue place))).Perm
      (contents places queue) := by
  have remaining : place ∈ places.erase other := distinct.mem_erase_iff.mpr ⟨different,among⟩
  have before := (contents_split queue also).trans ((contents_split queue remaining).append_left _)
  have cleared := contents_update queue (distinct.erase other) remaining []
  have after := contents_update (Function.update queue place []) distinct also (queue other ++ queue place)
  rw [List.append_assoc] at after
  exact (after.trans ((cleared.append_left _).append_left _)).trans before.symm

omit [DecidableEq Place] in
theorem mem_contents : item ∈ contents places queue ↔ ∃ place ∈ places, item ∈ queue place := by
  simp [contents]

omit [DecidableEq Place] in
theorem contents_eq_nil : contents places queue = [] ↔ ∀ place ∈ places, queue place = [] := by
  simp [contents]

end Pgasus.Queues
