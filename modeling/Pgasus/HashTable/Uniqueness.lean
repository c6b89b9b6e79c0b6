import Pgasus.HashTable.Concurrent

/-! At most one node per key. The search of `operator[]` and its insertion are two
critical sections, so two threads can both miss a key and both insert it. The
table stays a map exactly when every insertion finds its key still missing. -/
namespace Pgasus.HashTable
open Runs

section Record
variable {Key : Type} {binBits : Nat}

def Event.key : Event Key binBits → Key
  | .found key _ => key
  | .added key _ => key
  | .removed key _ => key

def Event.outcome : Event Key binBits → Option (Ref binBits)
  | .found _ ref => some ref
  | .added _ ref => some ref
  | .removed _ _ => none

def Event.Fits (before : Option (Ref binBits)) : Event Key binBits → Prop
  | .found _ ref => before = some ref
  | .added _ _ => before = none
  | .removed _ present => present = before.isSome

variable [BEq Key]

def Event.Erases (key : Key) : Event Key binBits → Prop
  | .removed other true => (other == key) = true
  | _ => False

def Event.Adds (key : Key) : Event Key binBits → Prop
  | .added other _ => (other == key) = true
  | _ => False

def nodeOf (key : Key) : List (Event Key binBits) → Option (Ref binBits)
  | [] => none
  | event::older => if (event.key == key) = true then event.outcome else nodeOf key older

def Coherent : List (Event Key binBits) → Prop
  | [] => True
  | event::older => event.Fits (nodeOf event.key older) ∧ Coherent older

theorem nodeOf_about {key : Key} {event : Event Key binBits} (same : (event.key == key) = true)
    (older : List (Event Key binBits)) : nodeOf key (event::older) = event.outcome := if_pos same

theorem nodeOf_other {key : Key} {event : Event Key binBits} (different : ¬(event.key == key) = true)
    (older : List (Event Key binBits)) : nodeOf key (event::older) = nodeOf key older := if_neg different

theorem Coherent.older {newer older : List (Event Key binBits)} (coherent : Coherent (newer ++ older)) :
    Coherent older := by
  induction newer with
  | nil => exact coherent
  | cons event newer ih => exact ih coherent.2

variable [EquivBEq Key]

theorem nodeOf_congr {key other : Key} (same : (key == other) = true) (events : List (Event Key binBits)) :
    nodeOf key events = nodeOf other events := by
  induction events with
  | nil => rfl
  | cons event older ih => simp only [nodeOf,BEq.congr_right same,ih]

theorem nodeOf_kept {key : Key} {event : Event Key binBits} {older : List (Event Key binBits)} {ref : Ref binBits}
    (coherent : Coherent (event::older)) (before : nodeOf key older = some ref) (kept : ¬event.Erases key) :
    nodeOf key (event::older) = some ref := by
  by_cases same : (event.key == key) = true
  · have fits := coherent.1
    rw [nodeOf_congr same,before] at fits
    rw [nodeOf_about same]
    cases event with
    | found other place => exact fits.symm
    | added other place => cases fits
    | removed other present =>
      cases fits
      exact absurd same kept
  · rw [nodeOf_other same,before]

theorem nodeOf_kept_run {key : Key} {older : List (Event Key binBits)} {ref : Ref binBits}
    (between : List (Event Key binBits)) (coherent : Coherent (between ++ older))
    (before : nodeOf key older = some ref) (kept : ∀ event ∈ between, ¬event.Erases key) :
    nodeOf key (between ++ older) = some ref := by
  induction between with
  | nil => exact before
  | cons event between ih =>
    have still := ih coherent.2 fun other member => kept other (List.mem_cons_of_mem _ member)
    exact nodeOf_kept coherent still (kept event (by simp))

theorem nodeOf_absent_run {key : Key} {older : List (Event Key binBits)} (newer : List (Event Key binBits))
    (coherent : Coherent (newer ++ older)) (before : nodeOf key older = none)
    (idle : ∀ event ∈ newer, ¬event.Adds key) : nodeOf key (newer ++ older) = none := by
  induction newer with
  | nil => exact before
  | cons event newer ih =>
    have still := ih coherent.2 fun other member => idle other (List.mem_cons_of_mem _ member)
    by_cases same : (event.key == key) = true
    · have fits : event.Fits (nodeOf event.key (newer ++ older)) := coherent.1
      rw [nodeOf_congr same,still] at fits
      cases event with
      | found other place => cases fits
      | added other place => exact absurd same (idle (.added other place) (by simp))
      | removed other present => exact nodeOf_about same _
    · rw [List.cons_append,nodeOf_other same,still]

end Record

section Agreement
variable {Key T NumaNode : Type} {binBits : Nat} [BEq Key] {hash : Key → HashType}

def Table.Unique (table : Table Key T NumaNode binBits) : Prop :=
  ∀ key first second, table.Holds key first → table.Holds key second → first = second

structure Agrees (system : System Key T NumaNode binBits) : Prop where
  coherent : Coherent system.events
  holds : ∀ key ref, system.table.Holds key ref ↔ nodeOf key system.events = some ref

theorem Agrees.unique {system : System Key T NumaNode binBits} (agrees : Agrees system) : system.table.Unique := by
  intro key first second held also
  rw [agrees.holds] at held also
  exact Option.some.inj (held.symm.trans also)

theorem Agrees.missing {system : System Key T NumaNode binBits} (agrees : Agrees system) {key : Key}
    (missing : ∀ ref, ¬system.table.Holds key ref) : nodeOf key system.events = none := by
  cases found : nodeOf key system.events with
  | none => rfl
  | some ref => exact absurd ((agrees.holds key ref).mpr found) (missing ref)

/-- The step does not insert a key that is in the table: no other thread has
inserted it since the search of this `operator[]` missed it. -/
def InsertsMissing (system : System Key T NumaNode binBits) (action : Action Key T binBits) : Prop :=
  ∀ thread key bucket, action = .advance thread → system.threads thread = .adding key bucket →
    ∀ ref, ¬system.table.Holds key ref

variable [EquivBEq Key] {system next : System Key T NumaNode binBits} {action : Action Key T binBits}

theorem Agrees.step (agrees : Agrees system) (condition : InsertsMissing system action)
    (effect : Effect system action next) : Agrees next := by
  cases effect with
  | none contents events =>
    exact ⟨events ▸ agrees.coherent,fun key ref => by rw [contents,events]; exact agrees.holds key ref⟩
  | found key ref held contents events =>
    have before := (agrees.holds key ref).mp held
    refine ⟨by rw [events]; exact ⟨before,agrees.coherent⟩,fun other r => ?_⟩
    rw [contents,events,agrees.holds]
    by_cases same : (key == other) = true
    · rw [nodeOf_about same,← nodeOf_congr same,before]
      rfl
    · rw [nodeOf_other same]
  | added thread key bucket ref taken pc fresh contents events =>
    have missing := condition thread key bucket taken pc
    refine ⟨by rw [events]; exact ⟨agrees.missing missing,agrees.coherent⟩,fun other r => ?_⟩
    rw [contents,events]
    by_cases same : (key == other) = true
    · have gone : ¬system.table.Holds other r := fun held => missing r (held.congr (BEq.symm same))
      rw [nodeOf_about same]
      simp [gone,same,Event.outcome,eq_comm]
    · rw [nodeOf_other same]
      simp [same,agrees.holds]
  | removed key ref held contents events =>
    have before := (agrees.holds key ref).mp held
    refine ⟨by rw [events]; exact ⟨by rw [Event.key,before]; rfl,agrees.coherent⟩,fun other r => ?_⟩
    rw [contents,events,agrees.holds]
    by_cases same : (key == other) = true
    · rw [nodeOf_about same,← nodeOf_congr same,before]
      simp [Event.outcome,eq_comm]
    · rw [nodeOf_other same]
      refine and_iff_left_of_imp fun found => ?_
      rintro rfl
      exact same (BinData.Contains.equal held ((agrees.holds other r).mpr found))
  | missed key missing contents events =>
    have before := agrees.missing missing
    refine ⟨by rw [events]; exact ⟨by rw [Event.key,before]; rfl,agrees.coherent⟩,fun other r => ?_⟩
    rw [contents,events,agrees.holds]
    by_cases same : (key == other) = true
    · rw [nodeOf_about same,← nodeOf_congr same,before]
      simp [Event.outcome]
    · rw [nodeOf_other same]

theorem insertsMissing_of_unique {default : T} (ordered : Ordered hash system)
    (stepped : step hash default system action = some next) (unique : next.table.Unique) :
    InsertsMissing system action := by
  rintro thread key bucket rfl pc ref held
  obtain ⟨_,new,fresh,contents,_⟩ := adding_spec ordered pc stepped
  have old : next.table.Holds key ref := (contents key ref).mpr (Or.inl held)
  have added : next.table.Holds key new := (contents key new).mpr (Or.inr ⟨rfl,BEq.refl key⟩)
  obtain rfl := unique key ref new old added
  exact fresh key held

/-- What the threads may rely on: a key has at most one node; two `operator[]`
calls on equal keys return the same node when nothing erased the key between
them; and a removed key is absent until it is added again. -/
structure Sound (system : System Key T NumaNode binBits) : Prop where
  unique : system.table.Unique
  sameNode : ∀ newer later between earlier older key ref, system.events = newer ++ later :: (between ++ earlier :: older) →
    earlier.outcome = some ref → (earlier.key == key) = true → (later.key == key) = true → later.outcome.isSome →
    (∀ event ∈ between, ¬event.Erases key) → later.outcome = some ref
  absent : ∀ newer older key present, system.events = newer ++ .removed key present :: older →
    (∀ event ∈ newer, ¬event.Adds key) → ∀ ref, ¬system.table.Holds key ref

theorem Agrees.sound (agrees : Agrees system) : Sound system := by
  refine ⟨agrees.unique,?_,?_⟩
  · intro newer later between earlier older key ref events outcome first second fetched kept
    have coherent := agrees.coherent
    rw [events] at coherent
    have here := coherent.older
    have before := nodeOf_kept_run between here.2 ((nodeOf_about first older).trans outcome) kept
    have stays : ¬later.Erases key := by
      intro erases
      cases later with
      | removed other present => cases fetched
      | found other place => exact erases
      | added other place => exact erases
    exact (nodeOf_about second _).symm.trans (nodeOf_kept here before stays)
  · intro newer older key present events idle ref held
    have coherent := agrees.coherent
    rw [agrees.holds,events] at held
    rw [events] at coherent
    have removed : nodeOf key (.removed key present :: older) = none := nodeOf_about (BEq.refl key) older
    rw [nodeOf_absent_run newer coherent removed idle] at held
    cases held

end Agreement

section Runs
variable {Key T NumaNode : Type} {binBits : Nat} [BEq Key] [EquivBEq Key] {hash : Key → HashType}

omit [EquivBEq Key] in
theorem agrees_create (nodes : List NumaNode) (nonempty : 0 < nodes.length) :
    Agrees (System.create hash nodes nonempty : System Key T NumaNode binBits) := by
  refine ⟨trivial,fun key ref => ⟨fun held => ?_,fun impossible => by cases impossible⟩⟩
  have empty : (BinData.create hash binBits : BinData Key T).buckets.pointers = [] := (BinData.create_valid ref.bin).2
  have member : ref.node ∈ (BinData.create hash binBits : BinData Key T).buckets.pointers := held.1
  simp [empty] at member

/-- In every run, the table is sound in every state reached exactly when every
insertion was made while its key was still missing. -/
theorem sound_iff_insertsMissing (hash : Key → HashType) (lawful : ∀ a b, (a == b) = true → hash a = hash b)
    (default : T) (nodes : List NumaNode) (nonempty : 0 < nodes.length) (actions : List (Action Key T binBits))
    (final : System Key T NumaNode binBits)
    (ran : run (step hash default) (System.create hash nodes nonempty) actions = some final) :
    Meets (step hash default) InsertsMissing (System.create hash nodes nonempty) actions ↔
      ∀ first second middle, actions = first ++ second →
        run (step hash default) (System.create hash nodes nonempty) first = some middle → Sound middle := by
  have start : Ordered hash (System.create hash nodes nonempty : System Key T NumaNode binBits) :=
    ordered_create nodes nonempty
  constructor
  · rintro meets first second middle rfl went
    have kept := invariant_of_meets (fun system => Ordered hash system ∧ Agrees system)
      (fun state action next invariant condition stepped =>
        have ⟨ordered,effect⟩ := step_effect lawful invariant.1 stepped
        ⟨ordered,invariant.2.step condition effect⟩)
      ⟨start,agrees_create nodes nonempty⟩ meets.first went
    exact kept.2.sound
  · intro sound
    exact meets_of_everywhere (fun state action next ordered stepped => (step_effect lawful ordered stepped).1)
      (fun state action next ordered stepped good => insertsMissing_of_unique ordered stepped good.unique)
      start ran sound

end Runs

section Twins

def identityHash (key : Nat) : HashType := BitVec.ofNat 64 key

def freshSystem : System Nat Nat Unit 1 := System.create identityHash [()] Nat.one_pos

def twinActions : List (Action Nat Nat 1) :=
  [.call 0 (.index 7),.call 1 (.index 7),.advance 0,.advance 1,.advance 0,.advance 1,.advance 0,.advance 1,
    .advance 0,.advance 1]

theorem twinActions_run : (run (step identityHash 0) freshSystem twinActions).isSome = true := by decide

theorem two_inserters_make_twins :
    ∃ final, run (step identityHash 0) freshSystem twinActions = some final ∧
      final.table.Holds 7 ⟨binIndex 1 7,0⟩ ∧ final.table.Holds 7 ⟨binIndex 1 7,1⟩ ∧ ¬Sound final := by
  have first : ((run (step identityHash 0) freshSystem twinActions).get twinActions_run).table.Holds 7
      ⟨binIndex 1 7,0⟩ := ⟨by decide,⟨7,7,0⟩,rfl,rfl⟩
  have second : ((run (step identityHash 0) freshSystem twinActions).get twinActions_run).table.Holds 7
      ⟨binIndex 1 7,1⟩ := ⟨by decide,⟨7,7,0⟩,rfl,rfl⟩
  refine ⟨_,(Option.some_get twinActions_run).symm,first,second,fun sound => ?_⟩
  exact absurd (sound.unique 7 _ _ first second) (by decide)

def overlappingActions : List (Action Nat Nat 1) :=
  [.call 0 (.index 7),.call 1 (.index 7),.advance 0,.advance 1,.advance 0,.advance 1,.advance 0,.advance 0,.advance 1,.advance 0,
    .advance 1,.call 1 (.remove 7),.advance 1,.call 0 (.index 7),.advance 0,.advance 1,.advance 0,.advance 1,.advance 0,.advance 0]

def insertsMissing (system : System Nat Nat Unit 1) : Action Nat Nat 1 → Bool
  | .advance thread =>
    match system.threads thread with
    | .adding key _ => (List.finRange (binCount 1)).all fun index => (system.table.bins index).buckets.pointers.all fun ptr =>
        (system.table.bins index).heap[ptr]?.all fun node => node.key != key
    | _ => true
  | _ => true

theorem insertsMissing_of_test (system : System Nat Nat Unit 1) (action : Action Nat Nat 1)
    (tested : insertsMissing system action = true) : InsertsMissing system action := by
  rintro thread key bucket rfl adding ref ⟨member,node,found,same⟩
  simp only [insertsMissing,adding,List.all_eq_true] at tested
  have different := tested ref.bin (List.mem_finRange ref.bin) ref.node member
  rw [found] at different
  exact bne_iff_ne.mp different (eq_of_beq same)

theorem sound_overlapping : ∃ final, run (step identityHash 0) freshSystem overlappingActions = some final ∧
    final.events.length = 4 ∧ final.table.size = 1 ∧ Sound final := by
  have evaluated : (run (step identityHash 0) freshSystem overlappingActions).any (fun final =>
      decide (final.events.length = 4 ∧ final.table.size = 1)) = true := by decide +kernel
  obtain ⟨final,ran,facts⟩ := (Option.any_eq_true _ _).mp evaluated
  obtain ⟨events,size⟩ := of_decide_eq_true facts
  have meets := meets_of_checks insertsMissing insertsMissing_of_test
    (show checks (step identityHash 0) insertsMissing freshSystem overlappingActions = true by decide +kernel)
  exact ⟨final,ran,events,size,(sound_iff_insertsMissing identityHash (fun _ _ same => by rw [eq_of_beq same]) 0 [()] Nat.one_pos
    overlappingActions final ran).mp meets overlappingActions [] final (List.append_nil _).symm ran⟩

end Twins
end Pgasus.HashTable
