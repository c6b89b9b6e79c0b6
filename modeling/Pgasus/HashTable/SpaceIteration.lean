import Pgasus.HashTable.FullIteration
import Pgasus.HashTable.Refinement

/-! A `BucketSpaceIterator` of a bin that goes on being changed. A resize gives the bin a
new space, and the old one stays as long as an iterator refers to it: no operation writes
into it, and it keeps its nodes. Operations look up and change their bucket under the
bin's read lock, so a resize is before or behind them. -/
namespace Pgasus.SpaceIteration
open HashTable Iteration Runs Containers
open BucketIteration (oddBin)

/-- The spaces of the bin have numbers, in the order in which it got them: `old` are those
that were replaced, unless nothing refers to them. `calls` of `next`, the nodes `yielded`
and those `destroyed` since the iterator was made are a record. -/
structure State (Key T : Type) where
  bin : BinData Key T
  old : List (Option BucketSpace)
  iterator : SpaceIterator Nat
  destroyed : List NodePtr
  calls : Nat
  yielded : List NodePtr

/-- `add` and `remove` are the critical sections of the operations. `next` is a round of
a loop: the iterator is asked for its end and its node, and goes on. -/
inductive Action (Key T : Type)
  | add (bucket : Nat) (key : Key) (h : HashType) (value : T)
  | remove (bucket position : Nat)
  | resize
  | next

inductive Start
  | range (startBucket endBucket : Nat)
  | element (bucket position : Nat)

def cursor (space : BucketSpace) : Cursor (Nat → NodePtr → HashType) (SpaceIterator Nat) NodePtr :=
  spaceCursor (fun _ => space) (fun _ ptr => ptr)

namespace Start

def iterator (space : BucketSpace) (number : Nat) : Start → SpaceIterator Nat
  | range startBucket endBucket => .create (fun _ => space) (fun _ ptr => ptr) number startBucket endBucket
  | element bucket position => .createAt (fun _ => space) number bucket position

def contained (space : BucketSpace) : Start → List NodePtr
  | range startBucket endBucket => RecursiveIterator.range space.buckets startBucket endBucket
  | element bucket position => (bucketOf (fun _ => space) () bucket).nodes.drop position ++
      RecursiveIterator.range space.buckets (bucket + 1) space.buckets.length

def Proper (space : BucketSpace) : Start → Prop
  | range _ _ => True
  | element bucket position => bucket < space.buckets.length ∧ position < (bucketOf (fun _ => space) () bucket).nodes.length

end Start

section Steps
variable {Key T : Type}

namespace State
variable (state : State Key T)

def spaceAt (number : Nat) : Option BucketSpace :=
  if number = state.old.length then some state.bin.buckets else (state.old[number]?).join

def held (ptr : NodePtr) : Bool :=
  state.bin.buckets.pointers.contains ptr || (state.old.filterMap id).any (·.pointers.contains ptr) ||
    state.iterator.sub.iterator.currNode == some ptr

def release (after : State Key T) : State Key T :=
  {after with destroyed := state.destroyed ++
    (List.range state.bin.heap.length).filter (fun ptr => state.held ptr && !after.held ptr)}

/-- `_buckets = newbuckets`: the old space goes unless the iterator refers to it. -/
def replace (bin : BinData Key T) : State Key T :=
  {state with
    bin
    old := state.old ++ [if state.iterator.owner = state.old.length then some state.bin.buckets else none]}

def current (space : BucketSpace) : Option NodePtr :=
  ((cursor space).deref state.iterator).filter (fun ptr => ptr ∉ state.destroyed)

def start (bin : BinData Key T) (which : Start) : State Key T := ⟨bin,[],which.iterator bin.buckets 0,[],0,[]⟩

end State

variable (hash : Key → HashType) (binBits : Nat)

/-- A resize doubles the buckets, and may happen whatever the load is. -/
def act (state : State Key T) : Action Key T → Option (State Key T)
  | .add bucket key h value => some {state with bin := (state.bin.addToBucket bucket key h value).1}
  | .remove bucket position => (bucketOf (fun _ => state.bin.buckets) () bucket).nodes[position]?.map fun ptr =>
      {state with bin := (remove.found state.bin bucket (ptr,position)).1}
  | .resize => some (state.replace (state.bin.resize hash binBits (2 * state.bin.buckets.buckets.length)))
  | .next => (state.spaceAt state.iterator.owner).bind fun space =>
      if (cursor space).isEnd state.iterator then some {state with calls := state.calls + 1}
      else (state.current space).map fun ptr =>
        {state with
          iterator := (cursor space).next (fun _ => BucketIteration.hashOf state.bin) state.iterator
          calls := state.calls + 1
          yielded := state.yielded ++ [ptr]}

def step (state : State Key T) (action : Action Key T) : Option (State Key T) :=
  (act hash binBits state action).map state.release

/-- The space of the iterator is replaced before anything in the bin is modified. -/
def Replaced (state : State Key T) : Action Key T → Prop
  | .add _ _ _ _ => state.iterator.owner < state.old.length
  | .remove _ _ => state.iterator.owner < state.old.length
  | .resize => True
  | .next => True

/-- The iterator goes through what its space contained, whatever has become of the bin. -/
structure Isolated (contained : List NodePtr) (state : State Key T) : Prop where
  yielded : state.yielded = contained.take state.calls
  ended : state.iterator.isEnd = true ↔ contained.length ≤ state.calls
  alive : ∀ ptr ∈ contained, ptr ∉ state.destroyed
  goes : (step hash binBits state .next).isSome = true

structure Inv (space : BucketSpace) (contained : List NodePtr) (state : State Key T) : Prop where
  kept : state.spaceAt state.iterator.owner = some space
  known : state.iterator.owner ≤ state.old.length
  ahead : Yields (cursor space) state.iterator (contained.drop state.calls)
  yielded : state.yielded = contained.take state.calls
  within : ∀ ptr ∈ contained, ptr ∈ space.pointers
  alive : ∀ ptr ∈ space.pointers, ptr ∉ state.destroyed

variable {hash} {binBits} {state following : State Key T} {space : BucketSpace} {contained : List NodePtr}

theorem held_of_space (kept : state.spaceAt state.iterator.owner = some space) {ptr : NodePtr} (inside : ptr ∈ space.pointers) :
    state.held ptr = true := by
  unfold State.spaceAt at kept
  simp only [State.held,Bool.or_eq_true,List.contains_iff_mem,List.any_eq_true,List.mem_filterMap,id]
  split at kept
  next => exact .inl (.inl (Option.some.inj kept ▸ inside))
  next => exact .inl (.inr ⟨space,⟨some space,List.mem_of_getElem? (Option.join_eq_some_iff.mp kept),rfl⟩,inside⟩)

theorem Inv.release (inv : Inv space contained state) (after : State Key T) (kept : after.spaceAt after.iterator.owner = some space)
    (known : after.iterator.owner ≤ after.old.length) (ahead : Yields (cursor space) after.iterator (contained.drop after.calls))
    (yielded : after.yielded = contained.take after.calls) : Inv space contained (state.release after) := by
  refine ⟨kept,known,ahead,yielded,inv.within,fun ptr inside gone => ?_⟩
  rcases List.mem_append.mp gone with before | now
  · exact inv.alive ptr inside before
  · have released := (List.mem_filter.mp now).2
    rw [held_of_space kept inside,Bool.not_true,Bool.and_false] at released
    cases released

theorem spaceAt_older {number : Nat} (older : number < state.old.length) : state.spaceAt number = (state.old[number]?).join :=
  if_neg (Nat.ne_of_lt older)

theorem Inv.modified (inv : Inv space contained state) (replaced : state.iterator.owner < state.old.length) (bin : BinData Key T) :
    Inv space contained (state.release {state with bin}) := by
  refine inv.release {state with bin} ?_ inv.known inv.ahead inv.yielded
  have kept := inv.kept
  rw [spaceAt_older replaced] at kept
  rw [← kept]
  exact spaceAt_older replaced

theorem Inv.replace (inv : Inv space contained state) (bin : BinData Key T) :
    Inv space contained (state.release (state.replace bin)) := by
  have longer : state.iterator.owner < (state.replace bin).old.length := by
    rw [State.replace,List.length_append]
    exact Nat.lt_succ_of_le inv.known
  apply inv.release (state.replace bin) _ (Nat.le_of_lt longer) inv.ahead inv.yielded
  refine (spaceAt_older longer).trans ?_
  have kept := inv.kept
  rcases Nat.lt_or_eq_of_le inv.known with older | newest
  · rw [spaceAt_older older] at kept
    rw [State.replace,List.getElem?_append_left older,kept]
  · rw [State.spaceAt,if_pos newest] at kept
    rw [State.replace,if_pos newest,newest,List.getElem?_concat_length,kept]
    rfl

theorem Inv.next_cases (inv : Inv space contained state) :
    (cursor space).isEnd state.iterator = true ∧ contained.length ≤ state.calls ∨
      (cursor space).isEnd state.iterator = false ∧ ∃ inside : state.calls < contained.length,
        state.current space = some contained[state.calls] := by
  have ahead := inv.ahead
  cases ended : (cursor space).isEnd state.iterator with
  | true => exact .inl ⟨rfl,List.drop_eq_nil_iff.mp (ahead.isEnd_iff.mp ended)⟩
  | false =>
    have here := ahead.deref ended
    have inside : state.calls < contained.length := by
      by_contra past
      have atEnd := ahead.isEnd_iff.mpr (List.drop_eq_nil_of_le (Nat.not_lt.mp past))
      rw [ended] at atEnd
      cases atEnd
    rw [List.head?_drop,List.getElem?_eq_getElem inside] at here
    refine .inr ⟨rfl,inside,?_⟩
    rw [State.current,here]
    exact Option.filter_eq_some_iff.mpr ⟨rfl,decide_eq_true (inv.alive _ (inv.within _ (List.getElem_mem inside)))⟩

theorem Inv.next (inv : Inv space contained state) (stepped : step hash binBits state .next = some following) :
    Inv space contained following := by
  obtain ⟨moved,acted,rfl⟩ := Option.map_eq_some_iff.mp stepped
  rw [act,inv.kept,Option.bind_some] at acted
  rcases inv.next_cases with ⟨ended,past⟩ | ⟨going,inside,here⟩
  · rw [if_pos ended] at acted
    obtain rfl := Option.some.inj acted
    apply inv.release {state with calls := state.calls + 1} inv.kept inv.known
    · have ahead := inv.ahead
      rw [List.drop_eq_nil_of_le past] at ahead
      rw [List.drop_eq_nil_of_le (Nat.le_succ_of_le past)]
      exact ahead
    · rw [inv.yielded,List.take_of_length_le past,List.take_of_length_le (Nat.le_succ_of_le past)]
  · rw [going,if_neg Bool.false_ne_true,here] at acted
    obtain rfl := Option.some.inj acted
    have frame := @Nested.next_frame _ _ _ _ (bucketCursor (fun _ : Nat => space) fun _ ptr => ptr)
      (bucketSubIter fun _ => space) (fun _ => BucketIteration.hashOf state.bin) state.iterator
    apply inv.release
    · exact (congrArg state.spaceAt frame.1).trans inv.kept
    · exact frame.1 ▸ inv.known
    · have ahead := inv.ahead.next (fun _ => BucketIteration.hashOf state.bin) (Nested.next_of_isEnd _)
      rw [List.tail_drop] at ahead
      exact ahead
    · exact (congrArg (· ++ [contained[state.calls]]) inv.yielded).trans (List.take_concat_get' _ _ inside)

theorem Inv.step {action : Action Key T} (inv : Inv space contained state) (condition : Replaced state action)
    (stepped : step hash binBits state action = some following) : Inv space contained following := by
  cases action with
  | add bucket key h value =>
    obtain rfl := Option.some.inj stepped
    exact inv.modified condition _
  | remove bucket position =>
    obtain ⟨moved,acted,rfl⟩ := Option.map_eq_some_iff.mp stepped
    obtain ⟨ptr,_,rfl⟩ := Option.map_eq_some_iff.mp acted
    exact inv.modified condition _
  | resize =>
    obtain rfl := Option.some.inj stepped
    exact inv.replace _
  | next => exact inv.next stepped

theorem Inv.isolated (inv : Inv space contained state) : Isolated hash binBits contained state := by
  refine ⟨inv.yielded,?_,fun ptr inside => inv.alive ptr (inv.within ptr inside),?_⟩
  · rw [← List.drop_eq_nil_iff]
    exact inv.ahead.isEnd_iff
  · rw [SpaceIteration.step,act,inv.kept,Option.bind_some]
    rcases inv.next_cases with ⟨ended,_⟩ | ⟨going,_,here⟩
    · rw [if_pos ended]
      rfl
    · rw [going,if_neg Bool.false_ne_true,here]
      rfl

end Steps

section Starts
variable {Key T : Type} {space : BucketSpace} {which : Start}

theorem Start.yields (proper : which.Proper space) (number : Nat) :
    Yields (cursor space) (which.iterator space number) (which.contained space) := by
  cases which with
  | range startBucket endBucket =>
    have all := @create_yields _ _ (fun _ : Nat => space) (fun _ ptr => ptr) number startBucket endBucket
    rw [List.map_id'] at all
    exact all
  | element bucket position =>
    have all := @createAt_yields _ _ (fun _ : Nat => space) (fun _ ptr => ptr) number bucket position proper.1 proper.2
    rw [List.map_id'] at all
    exact all

theorem Start.sublist (proper : which.Proper space) : (which.contained space).Sublist space.pointers := by
  have ranges (start finish : Nat) : (RecursiveIterator.range space.buckets start finish).Sublist space.pointers :=
    ((List.drop_sublist _ _).trans (List.take_sublist _ _)).flatMap _
  cases which with
  | range startBucket endBucket => exact ranges startBucket endBucket
  | element bucket position =>
    refine List.Sublist.trans ?_ (ranges bucket space.buckets.length)
    have inside : bucket < (space.buckets.take space.buckets.length).length := by
      rw [List.take_length]
      exact proper.1
    rw [contained,RecursiveIterator.range,RecursiveIterator.range,List.drop_eq_getElem_cons inside,List.flatMap_cons]
    refine List.Sublist.append ?_ (List.Sublist.refl _)
    rw [bucketOf,List.getElem?_eq_getElem proper.1,List.getElem_take]
    exact List.drop_sublist _ _

theorem Start.inv (proper : which.Proper space) {bin : BinData Key T} (same : bin.buckets = space) :
    Inv space (which.contained space) (State.start bin which) := by
  have owner : (which.iterator bin.buckets 0).owner = 0 := by
    cases which with
    | range startBucket endBucket => exact (Nested.findNext_frame _ _).1
    | element bucket position => rfl
  refine ⟨?_,Nat.le_of_eq owner,?_,rfl,fun ptr inside => (sublist proper).subset inside,fun _ _ gone => by cases gone⟩
  · refine (congrArg (State.start bin which).spaceAt owner).trans ?_
    rw [← same]
    rfl
  · rw [← same] at proper ⊢
    exact yields proper 0

variable {binBits : Nat}

/-- An iterator made before the first modification, with the resize between them, yields
the nodes that its space contained then, each once. -/
theorem isolated_of_run (hash : Key → HashType) (index : Fin (binCount binBits)) (bin : BinData Key T) (valid : bin.Valid hash index)
    (which : Start) (proper : which.Proper bin.buckets) (actions : List (Action Key T)) (final : State Key T)
    (meets : Meets (step hash binBits) Replaced (.start bin which) actions)
    (ran : run (step hash binBits) (.start bin which) actions = some final) :
    (which.contained bin.buckets).Nodup ∧ Isolated hash binBits (which.contained bin.buckets) final := by
  refine ⟨valid.nodup.sublist (Start.sublist proper),Inv.isolated (invariant_of_meets (Inv bin.buckets (which.contained bin.buckets)) (fun _ _ _ inv condition stepped => inv.step condition stepped)
    (Start.inv proper rfl) meets ran)⟩

end Starts

def changes : List (Action Nat Nat) := [.next,.resize,.remove 0 0,.add 0 5 (sampleHash 5) 0,.resize,.next,.next]

theorem oddBin_valid : (threeKeys.bins oddBin).Valid sampleHash oddBin := by
  have lawful (a b : Nat) (same : (a == b) = true) : sampleHash a = sampleHash b := by rw [eq_of_beq same]
  have created := @Table.represents_create Nat Nat Containers.Node 1 sampleHash _ memoryNode.logicalNodes (by decide)
  exact ((((created.index lawful 0 1).1.index lawful 0 3).1.index lawful 0 129).1).valid oddBin

theorem isolated_changes : ∃ final, run (step sampleHash 1) (.start (threeKeys.bins oddBin) (.range 0 64)) changes = some final ∧
    final.yielded = [0,2,1] ∧ Isolated sampleHash 1 ((Start.range 0 64).contained (threeKeys.bins oddBin).buckets) final := by
  obtain ⟨final,ran⟩ := Option.isSome_iff_exists.mp
    (show (run (step sampleHash 1) (.start (threeKeys.bins oddBin) (.range 0 64)) changes).isSome = true by decide +kernel)
  have yielded : (run (step sampleHash 1) (.start (threeKeys.bins oddBin) (.range 0 64)) changes).map State.yielded = some [0,2,1] := by
    decide +kernel
  rw [ran] at yielded
  refine ⟨final,ran,Option.some.inj yielded,
    (isolated_of_run sampleHash oddBin (threeKeys.bins oddBin) oddBin_valid (.range 0 64) trivial changes final ?_ ran).2⟩
  apply meets_of_checks (fun state action => match action with
    | .add _ _ _ _ => decide (state.iterator.owner < state.old.length)
    | .remove _ _ => decide (state.iterator.owner < state.old.length)
    | .resize => true
    | .next => true)
  · intro state action tested
    cases action with
    | add bucket key h value => exact (of_decide_eq_true tested : state.iterator.owner < state.old.length)
    | remove bucket position => exact (of_decide_eq_true tested : state.iterator.owner < state.old.length)
    | resize => trivial
    | next => trivial
  · decide +kernel

end Pgasus.SpaceIteration
