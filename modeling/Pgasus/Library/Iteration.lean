import Mathlib.Data.List.Basic

/-! Iterators that are asked whether they are at the end, for an element, and to go on,
which may read an environment that is another one at every call. An iterator over a
range of places has one more for the place it is at, and its skip loop passes over the
places with nothing. Nesting is by taking such iterators again. -/
namespace Pgasus.Iteration

structure Cursor (Env Iter Element : Type) where
  isEnd : Iter → Bool
  deref : Iter → Option Element
  next : Env → Iter → Iter

section Cursor
variable {Env Iter Element : Type} {cursor : Cursor Env Iter Element} {iterator : Iter} {elements : List Element}

/-- The elements that the iterator is at, one call of `next` after the other, up to its
end, whatever the calls read. -/
inductive Yields (cursor : Cursor Env Iter Element) : Iter → List Element → Prop
  | ended {iterator : Iter} (ended : cursor.isEnd iterator = true) : Yields cursor iterator []
  | going {iterator : Iter} {element : Element} {elements : List Element} (going : cursor.isEnd iterator = false)
      (here : cursor.deref iterator = some element) (rest : ∀ env, Yields cursor (cursor.next env iterator) elements) :
      Yields cursor iterator (element::elements)

/-- `for (; !it.is_end(); it.next())`, in at most the given number of rounds. -/
def Cursor.loop (cursor : Cursor Env Iter Element) (env : Env) : Nat → Iter → Option (List Element)
  | 0, iterator => if cursor.isEnd iterator then some [] else none
  | rounds+1, iterator =>
    if cursor.isEnd iterator then some []
    else (cursor.deref iterator).bind (fun element => (loop cursor env rounds (cursor.next env iterator)).map (element :: ·))

theorem Yields.loop (yields : Yields cursor iterator elements) (env : Env) {rounds : Nat}
    (enough : elements.length ≤ rounds) : cursor.loop env rounds iterator = some elements := by
  induction yields generalizing rounds with
  | ended ended => cases rounds <;> simp [Cursor.loop,ended]
  | going going here rest ih =>
    cases rounds with
    | zero => cases enough
    | succ rounds =>
      rw [Cursor.loop,going,here,ih env (Nat.le_of_succ_le_succ enough)]
      rfl

theorem Yields.isEnd_iff (yields : Yields cursor iterator elements) : cursor.isEnd iterator = true ↔ elements = [] := by
  cases yields with
  | ended ended => simp [ended]
  | going going here rest => simp [going]

theorem Yields.deref (yields : Yields cursor iterator elements) (going : cursor.isEnd iterator = false) :
    cursor.deref iterator = elements.head? := by
  cases yields with
  | ended ended => exact Bool.noConfusion (going.symm.trans ended)
  | going going here rest => exact here

theorem Yields.next (yields : Yields cursor iterator elements) (env : Env) (stays : cursor.isEnd iterator = true →
    cursor.next env iterator = iterator) : Yields cursor (cursor.next env iterator) elements.tail := by
  cases yields with
  | ended ended =>
    rw [stays ended]
    exact .ended ended
  | going going here rest => exact rest env

end Cursor

/-- `owner` is what the places belong to, `sub` the iterator at the place `currIndex`. -/
structure Nested (Owner Sub : Type) where
  owner : Owner
  currIndex : Nat
  endIndex : Nat
  sub : Sub

namespace Nested
variable {Env Owner Sub Element : Type} (cursor : Cursor Env Sub Element) (getSub : Owner → Nat → Sub)

def isEnd (iterator : Nested Owner Sub) : Bool := iterator.currIndex ≥ iterator.endIndex

def ahead (iterator : Nested Owner Sub) : Nat := iterator.endIndex - iterator.currIndex

def findNext : Nat → Nested Owner Sub → Nested Owner Sub
  | 0, iterator => iterator
  | rounds+1, iterator =>
    if iterator.currIndex < iterator.endIndex then
      let here := {iterator with sub := getSub iterator.owner iterator.currIndex}
      if cursor.isEnd here.sub then findNext rounds {here with currIndex := here.currIndex + 1}
      else here
    else iterator

/-- The start of a walk through a range of places; until then `sub` is at no place. -/
def init (owner : Owner) (sub : Sub) (start finish : Nat) : Nested Owner Sub :=
  let iterator : Nested Owner Sub := ⟨owner,start,finish,sub⟩
  findNext cursor getSub iterator.ahead iterator

/-- What `next` answers is that the iterator is not at its end then. -/
def next (env : Env) (iterator : Nested Owner Sub) : Nested Owner Sub :=
  if iterator.isEnd then iterator
  else
    let moved := {iterator with sub := cursor.next env iterator.sub}
    if cursor.isEnd moved.sub then
      let following := {moved with currIndex := moved.currIndex + 1}
      findNext cursor getSub following.ahead following
    else moved

def nested : Cursor Env (Nested Owner Sub) Element where
  isEnd := isEnd
  deref iterator := cursor.deref iterator.sub
  next := next cursor getSub

variable {cursor} {getSub} {iterator : Nested Owner Sub} {elements : Nat → List Element}

theorem next_of_isEnd (env : Env) (ended : (nested cursor getSub).isEnd iterator = true) :
    (nested cursor getSub).next env iterator = iterator := if_pos ended

def between (elements : Nat → List Element) (start finish : Nat) : List Element :=
  (List.range' start (finish - start)).flatMap elements

theorem between_past {start finish : Nat} (past : finish ≤ start) : between elements start finish = [] := by
  rw [between,Nat.sub_eq_zero_of_le past]
  rfl

theorem between_step {start finish : Nat} (inside : start < finish) :
    between elements start finish = elements start ++ between elements (start + 1) finish := by
  have count : finish - start = (finish - (start + 1)) + 1 := by omega
  rw [between,count,List.range'_succ,List.flatMap_cons]
  rfl

theorem findNext_frame (rounds : Nat) (iterator : Nested Owner Sub) :
    (findNext cursor getSub rounds iterator).owner = iterator.owner ∧
      (findNext cursor getSub rounds iterator).endIndex = iterator.endIndex := by
  induction rounds generalizing iterator with
  | zero => exact ⟨rfl,rfl⟩
  | succ rounds ih =>
    rw [findNext]
    split
    next =>
      dsimp only
      split
      next => exact ih _
      next => exact ⟨rfl,rfl⟩
    next => exact ⟨rfl,rfl⟩

theorem next_frame (env : Env) (iterator : Nested Owner Sub) : (next cursor getSub env iterator).owner = iterator.owner ∧
    (next cursor getSub env iterator).endIndex = iterator.endIndex := by
  unfold next
  split
  next => exact ⟨rfl,rfl⟩
  next =>
    dsimp only
    split
    next => exact findNext_frame _ _
    next => exact ⟨rfl,rfl⟩

/-- What the iterator yields from a place, if the skip loop yields what is behind it:
the induction is on the elements left at the place. -/
theorem yields_of_sub {present : List Element} (sub : Yields cursor iterator.sub present)
    (inside : iterator.currIndex < iterator.endIndex) (some_ : present ≠ []) {following : List Element}
    (skip : ∀ moved : Nested Owner Sub, moved.owner = iterator.owner → moved.endIndex = iterator.endIndex →
      moved.currIndex = iterator.currIndex + 1 → Yields (nested cursor getSub) (findNext cursor getSub moved.ahead moved) following) :
    Yields (nested cursor getSub) iterator (present ++ following) := by
  generalize same : iterator.sub = current at sub
  induction sub generalizing iterator with
  | ended => exact absurd rfl some_
  | @going current element rest going here tail ih =>
    have notEnd : iterator.isEnd = false := decide_eq_false (Nat.not_le.mpr inside)
    refine .going notEnd (by rw [← here,← same]; rfl) fun env => ?_
    change Yields _ (next cursor getSub env iterator) _
    simp only [next,notEnd,Bool.false_eq_true,if_false,same]
    split
    next ended =>
      obtain rfl : rest = [] := (tail env).isEnd_iff.mp ended
      exact skip _ rfl rfl rfl
    next more =>
      have left : rest ≠ [] := fun nothing => more ((tail env).isEnd_iff.mpr nothing)
      exact @ih env {iterator with sub := cursor.next env current} inside left skip rfl

/-- The skip loop leads to the first place with an element: the induction is on the places left. -/
theorem findNext_yields (all : ∀ index, iterator.currIndex ≤ index → index < iterator.endIndex →
    Yields cursor (getSub iterator.owner index) (elements index)) {rounds : Nat} (enough : iterator.ahead ≤ rounds) :
    Yields (nested cursor getSub) (findNext cursor getSub rounds iterator)
      (between elements iterator.currIndex iterator.endIndex) := by
  induction left : iterator.endIndex - iterator.currIndex generalizing iterator rounds with
  | zero =>
    have past : iterator.endIndex ≤ iterator.currIndex := by omega
    have stays : findNext cursor getSub rounds iterator = iterator := by
      cases rounds with
      | zero => rfl
      | succ rounds => exact if_neg (Nat.not_lt.mpr past)
    rw [stays,between_past past]
    exact .ended (decide_eq_true past)
  | succ left ih =>
    have inside : iterator.currIndex < iterator.endIndex := by omega
    have later (moved : Nested Owner Sub) (owner : moved.owner = iterator.owner) (finish : moved.endIndex = iterator.endIndex)
        (index : moved.currIndex = iterator.currIndex + 1) {rounds : Nat} (enough : moved.ahead ≤ rounds) :
        Yields (nested cursor getSub) (findNext cursor getSub rounds moved)
          (between elements (iterator.currIndex + 1) iterator.endIndex) := by
      rw [← index,← finish]
      apply ih _ enough (by omega)
      intro place behind before
      rw [owner]
      exact all place (by omega) (by omega)
    have here := all iterator.currIndex (Nat.le_refl _) inside
    obtain ⟨rounds,rfl⟩ : ∃ fewer, rounds = fewer + 1 := ⟨rounds - 1,by simp only [ahead] at enough; omega⟩
    rw [between_step inside,findNext,if_pos inside]
    dsimp only
    split
    next ended =>
      rw [here.isEnd_iff.mp ended,List.nil_append]
      refine later ⟨iterator.owner,iterator.currIndex + 1,iterator.endIndex,_⟩ rfl rfl rfl ?_
      simp only [ahead] at enough ⊢
      omega
    next some_ =>
      exact @yields_of_sub _ _ _ _ _ _ {iterator with sub := getSub iterator.owner iterator.currIndex} _ here inside
        (fun nothing => some_ (here.isEnd_iff.mpr nothing)) _ fun moved owner finish index => later moved owner finish index (Nat.le_refl _)

theorem init_yields {owner : Owner} {sub : Sub} {start finish : Nat}
    (all : ∀ index, start ≤ index → index < finish → Yields cursor (getSub owner index) (elements index)) :
    Yields (nested cursor getSub) (init cursor getSub owner sub start finish) (between elements start finish) :=
  findNext_yields all (Nat.le_refl _)

theorem yields_from {present : List Element} (sub : Yields cursor iterator.sub present)
    (inside : iterator.currIndex < iterator.endIndex) (some_ : present ≠ [])
    (all : ∀ index, iterator.currIndex < index → index < iterator.endIndex →
      Yields cursor (getSub iterator.owner index) (elements index)) :
    Yields (nested cursor getSub) iterator (present ++ between elements (iterator.currIndex + 1) iterator.endIndex) := by
  refine yields_of_sub sub inside some_ fun moved owner finish index => ?_
  rw [← index,← finish]
  apply findNext_yields _ (Nat.le_refl _)
  intro place behind before
  rw [owner]
  exact all place (by omega) (by omega)

end Nested
end Pgasus.Iteration
