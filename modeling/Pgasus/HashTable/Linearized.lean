import Pgasus.HashTable.Uniqueness
import Pgasus.Library.Linearization

/-! What threads see of a table when no two of them are in `operator[]` with equal keys at
once: a map whose operations are atomic, although `operator[]` searches and inserts in two
critical sections. -/
namespace Pgasus.HashTable
open Runs Linearization

section Specification
variable {Key T NumaNode : Type} {binBits : Nat}

def Pc.indexes : Pc Key binBits → Option Key
  | .checking (.index key) | .resizing (.index key) | .entering (.index key) | .searching (.index key) _ => some key
  | .adding key _ => some key
  | .leaving key (.ref _) => some key
  | _ => none

/-- What the atomic map knows of the thread. The insertion of a missing key is yet to come in `adding`. -/
def Pc.status : Pc Key binBits → Status (Call Key) (Result binBits)
  | .idle | .returned _ => .idle
  | .checking call | .resizing call | .entering call | .searching call _ => .pending call
  | .adding key _ => .pending (.index key)
  | .leaving _ result => .decided result

def events (system : System Key T NumaNode binBits) : Action Key T binBits → List (Linearization.Event Thread (Call Key) (Result binBits))
  | .call thread call => [.call thread call]
  | .advance thread =>
    match system.threads thread with
    | .leaving _ result => [.answer thread result]
    | _ => []
  | .assign _ _ => []

variable [BEq Key]

/-- `operator[]` begins while no other thread is in it for an equal key. -/
def Exclusive (system : System Key T NumaNode binBits) (action : Action Key T binBits) : Prop :=
  ∀ thread key, action = .call thread (.index key) → ∀ other own, (system.threads other).indexes = some own → (own == key) = false

inductive Apply : (Key → Option (Ref binBits)) → Call Key → Result binBits → (Key → Option (Ref binBits)) → Prop
  | found {map key ref} (present : map key = some ref) : Apply map (.index key) (.ref ref) map
  | added {map key ref} (missing : map key = none) (fresh : ∀ other, map other ≠ some ref) :
      Apply map (.index key) (.ref ref) fun other => if (key == other) = true then some ref else map other
  | removed {map key} : Apply map (.remove key) (.removed (map key).isSome) fun other =>
      if (key == other) = true then none else map other

structure Matches (hash : Key → HashType) (system : System Key T NumaNode binBits)
    (atomic : Atomic Thread (Key → Option (Ref binBits)) (Call Key) (Result binBits)) : Prop where
  ordered : Ordered hash system
  contents : ∀ key ref, system.table.Holds key ref ↔ atomic.object key = some ref
  threads : ∀ thread, atomic.status thread = (system.threads thread).status
  apart : ∀ thread other key own, (system.threads thread).indexes = some key → (system.threads other).indexes = some own →
    (key == own) = true → thread = other
  missing : ∀ thread key bucket, system.threads thread = .adding key bucket → ∀ ref, ¬system.table.Holds key ref

end Specification

section Steps
variable {Key T NumaNode : Type} {binBits : Nat} [BEq Key] {hash : Key → HashType}
variable {system next : System Key T NumaNode binBits} {thread : Thread} {new : Pc Key binBits}
variable {atomic : Atomic Thread (Key → Option (Ref binBits)) (Call Key) (Result binBits)} {object : Key → Option (Ref binBits)}

theorem Matches.move (matches_ : Matches hash system atomic) (ordered : Ordered hash next)
    (threads : next.threads = Function.update system.threads thread new)
    (contents : ∀ key ref, next.table.Holds key ref ↔ object key = some ref)
    (indexes : ∀ key, new.indexes = some key → (system.threads thread).indexes = some key)
    (missing : ∀ other key bucket, next.threads other = .adding key bucket → ∀ ref, ¬next.table.Holds key ref) :
    Matches hash next ({atomic with object := object}.set thread new.status) := by
  have kept (other : Thread) (key : Key) (found : (next.threads other).indexes = some key) :
      (system.threads other).indexes = some key := by
    rw [threads,Function.update_apply] at found
    split at found
    next same => exact same ▸ indexes key found
    next => exact found
  refine ⟨ordered,contents,fun other => ?_,fun first second key own one two => ?_,missing⟩
  · rw [Atomic.set_status,threads,Function.update_apply]
    split
    · rfl
    · exact matches_.threads other
  · exact matches_.apart first second key own (kept first key one) (kept second own two)

theorem Matches.silent (matches_ : Matches hash system atomic) (ordered : Ordered hash next)
    (threads : next.threads = Function.update system.threads thread new)
    (same : ∀ key ref, next.table.Holds key ref ↔ system.table.Holds key ref)
    (indexes : ∀ key, new.indexes = some key → (system.threads thread).indexes = some key)
    (fresh : ∀ key bucket, new = .adding key bucket → ∀ ref, ¬system.table.Holds key ref) :
    Matches hash next (atomic.set thread new.status) := by
  refine matches_.move ordered threads (fun key ref => (same key ref).trans (matches_.contents key ref)) indexes ?_
  intro other key bucket at_ ref
  rw [same]
  rw [threads,Function.update_apply] at at_
  split at at_
  next => exact fresh key bucket at_ ref
  next => exact matches_.missing other key bucket at_ ref

def Follows (hash : Key → HashType) (atomic : Atomic Thread (Key → Option (Ref binBits)) (Call Key) (Result binBits))
    (events : List (Linearization.Event Thread (Call Key) (Result binBits))) (next : System Key T NumaNode binBits) : Prop :=
  ∃ effects after, Atomically Apply atomic events effects after ∧ Matches hash next after

theorem Matches.rest (matches_ : Matches hash system atomic) (ordered : Ordered hash next)
    (threads : next.threads = Function.update system.threads thread new)
    (same : ∀ key ref, next.table.Holds key ref ↔ system.table.Holds key ref)
    (indexes : new.indexes = (system.threads thread).indexes) (status : new.status = (system.threads thread).status)
    (fresh : ∀ key bucket, new = .adding key bucket → ∀ ref, ¬system.table.Holds key ref) : Follows hash atomic [] next := by
  have moved := matches_.silent ordered threads same (fun key found => indexes ▸ found) fresh
  rw [Atomic.set_self ((matches_.threads thread).trans status.symm)] at moved
  exact ⟨[],atomic,.nil _,moved⟩

theorem Matches.goes (matches_ : Matches hash system atomic) (ordered : Ordered hash next)
    (threads : next.threads = Function.update system.threads thread new)
    (same : ∀ key ref, next.table.Holds key ref ↔ system.table.Holds key ref)
    (indexes : new.indexes = (system.threads thread).indexes) (status : new.status = (system.threads thread).status)
    (outside : ∀ key bucket, new ≠ .adding key bucket) : Follows hash atomic [] next :=
  matches_.rest ordered threads same indexes status fun key bucket at_ => (outside key bucket at_).elim

theorem Matches.effect (matches_ : Matches hash system atomic) {call : Call Key} {result : Result binBits}
    (pending : (system.threads thread).status = .pending call) (applies : Apply atomic.object call result object)
    (decided : new.status = .decided result) (ordered : Ordered hash next)
    (threads : next.threads = Function.update system.threads thread new)
    (contents : ∀ key ref, next.table.Holds key ref ↔ object key = some ref)
    (indexes : ∀ key, new.indexes = some key → (system.threads thread).indexes = some key)
    (missing : ∀ other key bucket, next.threads other = .adding key bucket → ∀ ref, ¬next.table.Holds key ref) :
    Follows hash atomic [] next := by
  have moved := matches_.move ordered threads contents indexes missing
  rw [decided] at moved
  exact ⟨_,_,.effect thread call result object ((matches_.threads thread).trans pending) applies (.nil _),moved⟩

theorem missing_of_search (lawful : ∀ a b, (a == b) = true → hash a = hash b) (ordered : Ordered hash system) {call : Call Key}
    {bucket : Nat} (pc : system.threads thread = .searching call bucket)
    (found : (system.table.bins (binIndex binBits (hash call.key))).search bucket call.key (hash call.key) = none)
    (ref : Ref binBits) : ¬system.table.Holds call.key ref := by
  intro held
  obtain ⟨_,rfl⟩ := ordered.within thread call.key bucket (by rw [pc]; rfl)
  obtain ⟨place,ptr⟩ := ref
  obtain rfl := BinData.Contains.home lawful (ordered.valid place) held
  exact BinData.search_absent lawful (ordered.valid _) found ptr held

variable [EquivBEq Key]

theorem contents_removed (contents : ∀ key ref, system.table.Holds key ref ↔ object key = some ref) {key : Key} {ref : Ref binBits}
    (held : system.table.Holds key ref) {after : Table Key T NumaNode binBits}
    (removed : ∀ other r, after.Holds other r ↔ system.table.Holds other r ∧ r ≠ ref) (other : Key) (r : Ref binBits) :
    after.Holds other r ↔ (if (key == other) = true then none else object other) = some r := by
  rw [removed,contents]
  split
  next same =>
    have also : object other = some ref := (contents other ref).mp (held.congr same)
    simp [also,eq_comm]
  next different =>
    refine and_iff_left_of_imp fun found => ?_
    rintro rfl
    exact different (BinData.Contains.equal held ((contents other r).mpr found))

theorem contents_added (contents : ∀ key ref, system.table.Holds key ref ↔ object key = some ref) {key : Key} {ref : Ref binBits}
    (missing : ∀ r, ¬system.table.Holds key r) {after : Table Key T NumaNode binBits}
    (added : ∀ other r, after.Holds other r ↔ system.table.Holds other r ∨ r = ref ∧ (key == other) = true)
    (other : Key) (r : Ref binBits) :
    after.Holds other r ↔ (if (key == other) = true then some ref else object other) = some r := by
  rw [added]
  split
  next same =>
    have gone : ¬system.table.Holds other r := fun held => missing r (held.congr (BEq.symm same))
    simp [gone,same,eq_comm]
  next different => simp [different,contents]

theorem Matches.searched (lawful : ∀ a b, (a == b) = true → hash a = hash b) (matches_ : Matches hash system atomic)
    {call : Call Key} {bucket : Nat} (pc : system.threads thread = .searching call bucket)
    (ordered : Ordered hash (search hash system thread call bucket)) :
    Follows hash atomic [] (search hash system thread call bucket) := by
  have pending : (system.threads thread).status = .pending call := by rw [pc]; rfl
  cases found : (system.table.bins (binIndex binBits (hash call.key))).search bucket call.key (hash call.key) with
  | some it =>
    have held : system.table.Holds call.key ⟨binIndex binBits (hash call.key),it.1⟩ := BinData.search_contains found
    have present := (matches_.contents _ _).mp held
    cases call with
    | index key =>
      have reached : search hash system thread (.index key) bucket =
          (system.record (.found key ⟨binIndex binBits (hash key),it.1⟩)).goto thread
            (.leaving key (.ref ⟨binIndex binBits (hash key),it.1⟩)) := by
        simp only [search,Call.key] at found ⊢
        rw [found]
      rw [reached] at ordered ⊢
      refine matches_.effect pending (.found present) rfl ordered rfl matches_.contents (fun own same => ?_) ?_
      · rw [pc]
        exact same
      · intro other own place at_
        simp only [System.goto,System.record,Function.update_apply] at at_
        split at at_
        next => cases at_
        next => exact matches_.missing other own place at_
    | remove key =>
      have removed := Table.holds_setBin_removed
        (BinData.remove_found_contains (matches_.ordered.valid (binIndex binBits (hash key))) found)
      have reached : search hash system thread (.remove key) bucket =
          ((system.setBin (binIndex binBits (hash key))
            (remove.found (system.table.bins (binIndex binBits (hash key))) bucket it).1).record (.removed key true)).goto thread
              (.leaving key (.removed true)) := by
        simp only [search,Call.key] at found ⊢
        rw [found]
      have answered : (atomic.object key).isSome = true := by rw [Call.key] at present; rw [present]; rfl
      rw [reached] at ordered ⊢
      refine matches_.effect pending .removed (by rw [answered]; rfl) ordered rfl
        (contents_removed matches_.contents held removed) (fun own same => by cases same) ?_
      intro other own place at_ ref
      simp only [System.goto,System.record,System.setBin,Function.update_apply] at at_
      split at at_
      next => cases at_
      next => exact fun stays => matches_.missing other own place at_ ref ((removed own ref).mp stays).1
  | none =>
    have missing := missing_of_search lawful matches_.ordered pc found
    cases call with
    | index key =>
      have reached : search hash system thread (.index key) bucket = system.goto thread (.adding key bucket) := by
        simp only [search,Call.key] at found ⊢
        rw [found]
      rw [reached] at ordered ⊢
      refine matches_.rest ordered rfl (fun _ _ => Iff.rfl) (by rw [pc]; rfl) pending.symm fun own place same => ?_
      cases same
      exact missing
    | remove key =>
      have reached : search hash system thread (.remove key) bucket =
          (system.record (.removed key false)).goto thread (.leaving key (.removed false)) := by
        simp only [search,Call.key] at found ⊢
        rw [found]
      have absent : atomic.object key = none := Option.eq_none_iff_forall_ne_some.mpr fun ref present =>
        missing ref ((matches_.contents key ref).mpr present)
      rw [reached] at ordered ⊢
      refine matches_.effect pending .removed (by rw [absent]; rfl) ordered rfl (fun other r => ?_) (fun own same => by cases same) ?_
      · rw [show ((system.record (.removed key false)).goto thread (.leaving key (.removed false))).table = system.table from rfl,
          matches_.contents]
        split
        next same =>
          have gone : atomic.object other ≠ some r := fun present =>
            missing r (((matches_.contents other r).mpr present).congr (BEq.symm same))
          simp [gone]
        next => rfl
      · intro other own place at_
        simp only [System.goto,System.record,Function.update_apply] at at_
        split at at_
        next => cases at_
        next => exact matches_.missing other own place at_

/-- The thread that inserts the key is alone with it, so it is still missing. -/
theorem Matches.inserted {default : T} (matches_ : Matches hash system atomic) {key : Key} {bucket : Nat}
    (pc : system.threads thread = .adding key bucket) (stepped : advance hash default system thread = some next)
    (ordered : Ordered hash next) : Follows hash atomic [] next := by
  obtain ⟨_,rfl⟩ := matches_.ordered.within thread key bucket (by rw [pc]; rfl)
  have valid := matches_.ordered.valid (binIndex binBits (hash key))
  have missing := matches_.missing thread key _ pc
  have added := Table.holds_setBin_added (BinData.addToBucket_contains valid key default rfl)
  have fresh (other : Key) : atomic.object other ≠
      some ⟨binIndex binBits (hash key),(system.table.bins (binIndex binBits (hash key))).heap.length⟩ := fun present =>
    absurd (valid.allocated ((matches_.contents other _).mpr present).1) (Nat.lt_irrefl _)
  have absent : atomic.object key = none := Option.eq_none_iff_forall_ne_some.mpr fun ref present =>
    missing ref ((matches_.contents key ref).mpr present)
  simp only [advance,pc,Option.some.injEq] at stepped
  subst stepped
  refine matches_.effect (by rw [pc]; rfl) (.added absent fresh) rfl ordered rfl
    (contents_added matches_.contents missing added) (fun own same => by rw [pc]; exact same) ?_
  intro other own place at_ ref
  simp only [System.goto,System.record,System.setBin,Function.update_apply] at at_
  split at at_
  next => cases at_
  next different =>
    intro held
    obtain before | ⟨-,same⟩ := (added own ref).mp held
    · exact matches_.missing other own place at_ ref before
    · exact different (matches_.apart thread other key own (by rw [pc]; rfl) (by rw [at_]; rfl) same).symm

theorem Matches.advance {default : T} (lawful : ∀ a b, (a == b) = true → hash a = hash b) (matches_ : Matches hash system atomic)
    (stepped : step hash default system (.advance thread : Action Key T binBits) = some next) :
    Follows hash atomic (events system (.advance thread : Action Key T binBits)) next := by
  have ordered := (step_effect lawful matches_.ordered stepped).1
  simp only [step] at stepped
  cases pc : system.threads thread with
  | idle => simp [HashTable.advance,pc] at stepped
  | returned result => simp [HashTable.advance,pc] at stepped
  | checking call =>
    simp only [HashTable.advance,pc,Option.some.injEq] at stepped
    simp only [events,pc]
    split at stepped <;> subst stepped
    all_goals
      exact matches_.goes ordered rfl (fun _ _ => Iff.rfl) (by rw [pc]; cases call <;> rfl) (by rw [pc]; rfl)
        fun _ _ same => by cases same
  | resizing call =>
    simp only [HashTable.advance,pc] at stepped
    simp only [events,pc]
    split at stepped
    next =>
      cases stepped
      obtain ⟨_,perm,heap,_⟩ := BinData.resizeIfNecessary_spec (matches_.ordered.valid (binIndex binBits (hash call.key)))
      exact matches_.goes ordered rfl (Table.holds_setBin_same (BinData.contains_of_perm heap perm))
        (by rw [pc]; cases call <;> rfl) (by rw [pc]; rfl) fun _ _ same => by cases same
    next => cases stepped
  | entering call =>
    simp only [HashTable.advance,pc,Option.some.injEq] at stepped
    subst stepped
    simp only [events,pc]
    exact matches_.goes ordered rfl (fun _ _ => Iff.rfl) (by rw [pc]; cases call <;> rfl) (by rw [pc]; rfl)
      fun _ _ same => by cases same
  | searching call bucket =>
    simp only [HashTable.advance,pc,Option.some.injEq] at stepped
    subst stepped
    simp only [events,pc]
    exact matches_.searched lawful pc ordered
  | adding key bucket =>
    simp only [events,pc]
    exact matches_.inserted pc stepped ordered
  | leaving key result =>
    simp only [HashTable.advance,pc,Option.some.injEq] at stepped
    subst stepped
    simp only [events,pc]
    have decided : atomic.status thread = .decided result := (matches_.threads thread).trans (by rw [pc]; rfl)
    exact ⟨[],_,.answer thread result decided (.nil _),matches_.silent ordered rfl (fun _ _ => Iff.rfl)
      (fun _ same => by cases same) (fun _ _ same => by cases same)⟩

theorem Matches.called (matches_ : Matches hash system atomic) {call : Call Key}
    (exclusive : ∀ key, call = .index key → ∀ other own, (system.threads other).indexes = some own → (own == key) = false)
    (outside : (system.threads thread).status = .idle) :
    Follows hash atomic [.call thread call] (system.goto thread (.checking call)) := by
  refine ⟨[],_,.call thread call ((matches_.threads thread).trans outside) (.nil _),?_⟩
  have updated (other : Thread) : (system.goto thread (.checking call)).threads other =
      if other = thread then .checking call else system.threads other := by
    simp only [System.goto,Function.update_apply]
  have fresh {other : Thread} {key own : Key} (begun : (Pc.checking call : Pc Key binBits).indexes = some key)
      (open_ : (system.threads other).indexes = some own) : (own == key) = false := by
    cases call with
    | index asked =>
      cases begun
      exact exclusive key rfl other own open_
    | remove asked => cases begun
  refine ⟨matches_.ordered.outside thread rfl,matches_.contents,fun other => ?_,fun first second key own one two same => ?_,?_⟩
  · rw [Atomic.set_status,updated]
    split
    · rfl
    · exact matches_.threads other
  · rw [updated] at one two
    split at one <;> split at two
    next here there => exact here.trans there.symm
    next => exact absurd (BEq.symm same) (by rw [fresh one two]; decide)
    next => exact absurd same (by rw [fresh two one]; decide)
    next => exact matches_.apart first second key own one two same
  · intro other key bucket at_
    rw [updated] at at_
    split at at_
    next => cases at_
    next => exact matches_.missing other key bucket at_

theorem Matches.step {default : T} {action : Action Key T binBits} (lawful : ∀ a b, (a == b) = true → hash a = hash b)
    (matches_ : Matches hash system atomic) (exclusive : Exclusive system action)
    (stepped : step hash default system action = some next) : Follows hash atomic (events system action) next := by
  cases action with
  | call thread call =>
    have alone (key : Key) (shape : call = .index key) := exclusive thread key (by rw [shape])
    simp only [HashTable.step] at stepped
    split at stepped
    next outside =>
      cases stepped
      exact matches_.called alone (by rw [outside]; rfl)
    next outside =>
      cases stepped
      exact matches_.called alone (by rw [outside]; rfl)
    next => cases stepped
  | advance thread => exact matches_.advance lawful stepped
  | assign ref value =>
    cases stepped
    obtain ⟨valid,contents,_⟩ := BinData.assign_spec (matches_.ordered.valid ref.bin) ref.node value
    have same := Table.holds_setBin_same contents
    have stays := step_effect lawful matches_.ordered (show HashTable.step hash default system (.assign ref value) = some _ from rfl)
    exact ⟨[],atomic,.nil _,stays.1,
      fun key r => (same key r).trans (matches_.contents key r),matches_.threads,matches_.apart,
      fun thread key bucket at_ r held => matches_.missing thread key bucket at_ r ((same key r).mp held)⟩

omit [EquivBEq Key] in
theorem matches_create (nodes : List NumaNode) (nonempty : 0 < nodes.length) :
    Matches hash (System.create hash nodes nonempty : System Key T NumaNode binBits) (.start fun _ => none) := by
  refine ⟨ordered_create nodes nonempty,(agrees_create nodes nonempty).holds,fun _ => rfl,?_,?_⟩
  · intro first second key own one
    cases one
  · intro other key bucket at_
    cases at_

/-- The calls and answers of threads that are never in `operator[]` with equal keys at once
are those of a map with atomic operations. -/
theorem calls_linearizable (hash : Key → HashType) (lawful : ∀ a b, (a == b) = true → hash a = hash b) (default : T)
    (nodes : List NumaNode) (nonempty : 0 < nodes.length) (actions : List (Action Key T binBits))
    (final : System Key T NumaNode binBits)
    (exclusive : Meets (HashTable.step hash default) Exclusive (System.create hash nodes nonempty) actions)
    (ran : run (HashTable.step hash default) (System.create hash nodes nonempty) actions = some final) :
    Linearizable Apply (fun _ => none) (trace (HashTable.step hash default) events (System.create hash nodes nonempty) actions) := by
  obtain ⟨effects,after,linear,_⟩ := simulated (Matches hash)
    (fun system action next atomic matches_ alone stepped => matches_.step lawful alone stepped)
    (matches_create nodes nonempty) exclusive ran
  exact ⟨effects,after,linear⟩

end Steps

section Overtaken

def overtaken : List (Action Nat Nat 1) :=
  [.call 0 (.index 7),.call 1 (.remove 7),.advance 0,.advance 1,.advance 0,.advance 1,.advance 0,.advance 1,.advance 1,
    .advance 0,.advance 0]

theorem overtaken_run : (run (step identityHash 0) freshSystem overtaken).isSome = true := by decide

theorem overtaken_exclusive : Meets (step identityHash 0) Exclusive freshSystem overtaken := by
  have idle (other : Thread) : (freshSystem.threads other).indexes = none := rfl
  refine ⟨fun thread key _ other own open_ => ?_,fun next _ => ?_⟩
  · rw [idle] at open_
    cases open_
  refine meets_of_forall fun action member state thread key called => ?_
  subst called
  simp at member

theorem calls_linearizable_overtaken :
    Linearizable Apply (fun _ => none) (trace (step identityHash 0) events freshSystem overtaken) ∧
      trace (step identityHash 0) events freshSystem overtaken =
        [.call 0 (.index 7),.call 1 (.remove 7),.answer 1 (.removed false),.answer 0 (.ref ⟨binIndex 1 7,0⟩)] :=
  ⟨calls_linearizable identityHash (fun _ _ same => by rw [eq_of_beq same]) 0 [()] Nat.one_pos overtaken _
    overtaken_exclusive (Option.some_get overtaken_run).symm,rfl⟩

end Overtaken
end Pgasus.HashTable
