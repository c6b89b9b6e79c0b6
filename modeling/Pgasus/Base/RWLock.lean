import Mathlib.Data.Nat.Bitwise
import Pgasus.Library.Runs
import Pgasus.Library.Totals
import Pgasus.Library.Words

/-! The reader-writer lock: one atomic word that counts the readers and has a flag for
a writer. Every atomic access is a step of its own; backing off does nothing. -/
namespace Pgasus.RWLock
open Runs Totals Words

def flagWrite : Nat := 0x40000000

def hasFlag (word : Nat) : Bool := word &&& flagWrite ≠ 0

/-- Where a thread is in the four functions: what it does next, and the `oldV` that it
has; in `failed` a check or an assertion has not held. -/
inductive Point
  | idle
  | readLoad
  | readTry (oldV : Nat)
  | readCheck
  | reading
  | readLeave
  | readRelease
  | writeLoad
  | writeTry (oldV : Nat)
  | drain
  | writeAssert
  | writing
  | writeLeave
  | writeRelease
  | failed
deriving DecidableEq

/-- The two checks around a reader's critical section. -/
def checkReader (value : Nat) (passed : Point) : Point :=
  if value = 0 then .failed else if value = flagWrite then .failed else passed

def assertWriter (value : Nat) (passed : Point) : Point := if value = flagWrite then passed else .failed

/-- `compare_exchange_weak`: the value and whether it was exchanged, which may fail for no reason. -/
def compareExchangeWeak (value oldV newV : Nat) (spurious : Bool) : Nat × Bool :=
  if value = oldV ∧ spurious = false then (newV,true) else (value,false)

/-- The next atomic step; at the end of a critical section it is the call of the unlock. -/
def Point.next (value : Nat) (spurious : Bool) : Point → Nat × Point
  | .idle => (value,.idle)
  | .readLoad => (value,.readTry value)
  | .readTry oldV =>
    if hasFlag oldV then (value,.readLoad)
    else
      match compareExchangeWeak value oldV (wrap (oldV + 1)) spurious with
      | (value,true) => (value,.readCheck)
      | (value,false) => (value,.readTry value)
  | .readCheck => (value,checkReader value .reading)
  | .reading => (value,.readLeave)
  | .readLeave => (value,checkReader value .readRelease)
  | .readRelease => (wrap (value + (2 ^ 64 - 1)),.idle)
  | .writeLoad => (value,.writeTry value)
  | .writeTry oldV =>
    if hasFlag oldV then (value,.writeLoad)
    else
      match compareExchangeWeak value oldV (oldV ||| flagWrite) spurious with
      | (value,true) => (value,.drain)
      | (value,false) => (value,.writeTry value)
  | .drain => (value,if value ≠ flagWrite then .drain else .writeAssert)
  | .writeAssert => (value,assertWriter value .writing)
  | .writing => (value,.writeLeave)
  | .writeLeave => (value,assertWriter value .writeRelease)
  | .writeRelease => (0,.idle)
  | .failed => (value,.failed)

structure State where
  value : Nat
  threads : List Point

def State.create (threads : Nat) : State := ⟨0,List.replicate threads .idle⟩

/-- A nested pair of calls counts as a thread of its own. -/
inductive Action
  | readLock (thread : Nat)
  | writeLock (thread : Nat)
  | go (thread : Nat) (spurious : Bool)

def State.enter (state : State) (thread : Nat) (point : Point) : Option State :=
  match state.threads[thread]? with
  | some .idle => some {state with threads := state.threads.set thread point}
  | _ => none

def step (state : State) : Action → Option State
  | .readLock thread => state.enter thread .readLoad
  | .writeLock thread => state.enter thread .writeLoad
  | .go thread spurious => (state.threads[thread]?).map fun point =>
    ⟨(point.next state.value spurious).1,state.threads.set thread (point.next state.value spurious).2⟩

def Point.reads : Point → Nat
  | .readCheck | .reading | .readLeave | .readRelease => 1
  | _ => 0

def Point.writes : Point → Nat
  | .drain | .writeAssert | .writing | .writeLeave | .writeRelease => 1
  | _ => 0

def Point.inside : Point → Nat
  | .writeAssert | .writing | .writeLeave | .writeRelease => 1
  | _ => 0

def State.readers (state : State) : Nat := total Point.reads state.threads
def State.writers (state : State) : Nat := total Point.writes state.threads
def State.insiders (state : State) : Nat := total Point.inside state.threads

structure Sound (state : State) : Prop where
  few : state.threads.length < 2 ^ 30
  value : state.value = state.readers + flagWrite * state.writers
  single : state.writers ≤ 1
  drained : state.insiders = 0 ∨ state.readers = 0
  fine : Point.failed ∉ state.threads

variable {state next : State} {thread : Nat} {point new : Point} {value : Nat}

theorem reads_le_one (point : Point) : point.reads ≤ 1 := by cases point <;> simp [Point.reads]

theorem Sound.readers_lt (sound : Sound state) : state.readers < 2 ^ 30 :=
  Nat.lt_of_le_of_lt (total_le_length _ reads_le_one _) sound.few

theorem hasFlag_eq (word : Nat) : hasFlag word = word.testBit 30 := by
  have flag : flagWrite = 2 ^ 30 := rfl
  rw [hasFlag,flag,Nat.and_two_pow]
  cases word.testBit 30 <;> rfl

theorem hasFlag_iff {readers writers : Nat} (few : readers < 2 ^ 30) (single : writers ≤ 1) :
    hasFlag (readers + flagWrite * writers) = true ↔ writers = 1 := by
  have low := Nat.testBit_lt_two_pow few
  obtain rfl | rfl := Nat.le_one_iff_eq_zero_or_eq_one.mp single
  · rw [hasFlag_eq,Nat.mul_zero,Nat.add_zero,low]
    simp
  · have high := Nat.testBit_two_pow_add_eq readers 30
    have flag : flagWrite = 2 ^ 30 := rfl
    rw [hasFlag_eq,Nat.mul_one,Nat.add_comm,flag,high,low]
    simp

theorem or_flagWrite {readers : Nat} (few : readers < 2 ^ 30) : readers ||| flagWrite = readers + flagWrite := by
  have flag : flagWrite = 2 ^ 30 := rfl
  have sum := Nat.two_pow_add_eq_or_of_lt few 1
  rw [Nat.mul_one] at sum
  rw [flag,Nat.add_comm,sum,Nat.or_comm]

theorem Sound.move (sound : Sound state) (found : state.threads[thread]? = some point)
    (counted : value + point.reads + flagWrite * point.writes = state.value + new.reads + flagWrite * new.writes)
    (single : state.writers + new.writes ≤ 1 + point.writes)
    (drained : state.insiders + new.inside = point.inside ∨ state.readers + new.reads = point.reads)
    (fine : new ≠ .failed) : Sound ⟨value,state.threads.set thread new⟩ := by
  have reads := total_set Point.reads new found
  have writes := total_set Point.writes new found
  have inside := total_set Point.inside new found
  have word := sound.value
  unfold State.readers State.writers State.insiders at *
  constructor
  · simpa using sound.few
  · simp only [State.readers,State.writers]
    generalize total Point.writes (state.threads.set thread new) = after at *
    generalize total Point.writes state.threads = before at *
    have flags : flagWrite * after + flagWrite * point.writes = flagWrite * before + flagWrite * new.writes := by
      rw [← Nat.mul_add,writes,Nat.mul_add]
    omega
  · simp only [State.writers]
    omega
  · simp only [State.insiders,State.readers]
    omega
  · intro member
    obtain same | ⟨other,_,there⟩ := mem_set_cases member
    · exact fine same.symm
    · exact sound.fine (List.mem_of_getElem? there)

theorem Sound.stay (sound : Sound state) (found : state.threads[thread]? = some point)
    (reads : new.reads = point.reads) (writes : new.writes = point.writes) (inside : new.inside = point.inside)
    (fine : new ≠ .failed) :
    Sound ⟨state.value,state.threads.set thread new⟩ := by
  apply sound.move found
  · rw [reads,writes]
  · have single := sound.single
    omega
  · obtain none_ | none_ := sound.drained
    · have weight := weight_le_total Point.inside found
      unfold State.insiders at *
      omega
    · have weight := weight_le_total Point.reads found
      unfold State.readers at *
      omega
  · exact fine

theorem Sound.reader_value (sound : Sound state) (found : state.threads[thread]? = some point) (reads : point.reads = 1)
    (passed : Point) : checkReader state.value passed = passed := by
  have weight : 0 < state.readers := by
    have light := weight_le_total Point.reads found
    unfold State.readers
    omega
  have value := sound.value
  have few := sound.readers_lt
  have single := sound.single
  have flag : flagWrite = 2 ^ 30 := rfl
  unfold checkReader
  rw [if_neg (by omega),if_neg]
  obtain none_ | one := Nat.le_one_iff_eq_zero_or_eq_one.mp single
  · rw [none_] at value
    omega
  · rw [one] at value
    omega

theorem Sound.writer_value (sound : Sound state) (found : state.threads[thread]? = some point) (inside : point.inside = 1) :
    state.value = flagWrite ∧ state.readers = 0 ∧ state.writers = 1 := by
  have insider : 0 < state.insiders := by
    have light := weight_le_total Point.inside found
    unfold State.insiders
    omega
  have writer : point.writes ≤ state.writers := weight_le_total Point.writes found
  have writes : point.writes = 1 := by cases point <;> first | rfl | cases inside
  have none_ : state.readers = 0 := sound.drained.resolve_left (by omega)
  have single := sound.single
  have one : state.writers = 1 := by omega
  have value := sound.value
  rw [none_,one] at value
  exact ⟨by omega,none_,one⟩

theorem Sound.assertWriter (sound : Sound state) (found : state.threads[thread]? = some point) (inside : point.inside = 1)
    (passed : Point) : RWLock.assertWriter state.value passed = passed :=
  if_pos (sound.writer_value found inside).1

theorem Sound.unflagged (sound : Sound state) (free : ¬hasFlag state.value = true) :
    state.writers = 0 ∧ state.value = state.readers := by
  have value := sound.value
  have single := sound.single
  have none_ : state.writers = 0 := by
    by_contra some_
    apply free
    rw [value]
    exact (hasFlag_iff sound.readers_lt single).mpr (by omega)
  rw [none_] at value
  exact ⟨none_,by omega⟩

theorem insiders_le_writers (state : State) : state.insiders ≤ state.writers := by
  have light (point : Point) : point.inside ≤ point.writes + (fun _ => 0) point := by
    cases point <;> simp [Point.inside,Point.writes]
  have both := total_le_add light state.threads
  have nothing : total (fun _ : Point => 0) state.threads = 0 := total_eq_zero.mpr fun _ _ => rfl
  unfold State.insiders State.writers
  omega

theorem Sound.readTry (sound : Sound state) {oldV : Nat} (found : state.threads[thread]? = some (.readTry oldV))
    (spurious : Bool) : Sound ⟨((Point.readTry oldV).next state.value spurious).1,
      state.threads.set thread ((Point.readTry oldV).next state.value spurious).2⟩ := by
  have few := sound.readers_lt
  simp only [Point.next]
  by_cases flagged : hasFlag oldV = true
  · rw [if_pos flagged]
    exact sound.stay found rfl rfl rfl nofun
  · rw [if_neg flagged]
    by_cases exchanged : state.value = oldV ∧ spurious = false
    · obtain ⟨rfl,rfl⟩ := exchanged
      obtain ⟨none_,same⟩ := sound.unflagged flagged
      have insiders := insiders_le_writers state
      have fits : wrap (state.value + 1) = state.value + 1 := wrap_of_lt (by omega)
      simp only [compareExchangeWeak,and_self,if_true,fits]
      apply sound.move found
      · simp [Point.reads,Point.writes]
      · simp [Point.writes,none_]
      · left
        simp only [Point.inside]
        omega
      · nofun
    · simp only [compareExchangeWeak,if_neg exchanged]
      exact sound.stay found rfl rfl rfl nofun

theorem Sound.writeTry (sound : Sound state) {oldV : Nat} (found : state.threads[thread]? = some (.writeTry oldV))
    (spurious : Bool) : Sound ⟨((Point.writeTry oldV).next state.value spurious).1,
      state.threads.set thread ((Point.writeTry oldV).next state.value spurious).2⟩ := by
  have few := sound.readers_lt
  simp only [Point.next]
  by_cases flagged : hasFlag oldV = true
  · rw [if_pos flagged]
    exact sound.stay found rfl rfl rfl nofun
  · rw [if_neg flagged]
    by_cases exchanged : state.value = oldV ∧ spurious = false
    · obtain ⟨rfl,rfl⟩ := exchanged
      obtain ⟨none_,same⟩ := sound.unflagged flagged
      have insiders := insiders_le_writers state
      have added : state.value ||| flagWrite = state.value + flagWrite := or_flagWrite (same ▸ few)
      simp only [compareExchangeWeak,and_self,if_true,added]
      apply sound.move found
      · simp [Point.reads,Point.writes]
      · simp [Point.writes,none_]
      · left
        simp only [Point.inside]
        omega
      · nofun
    · simp only [compareExchangeWeak,if_neg exchanged]
      exact sound.stay found rfl rfl rfl nofun

theorem Sound.readRelease (sound : Sound state) (found : state.threads[thread]? = some .readRelease) :
    Sound ⟨wrap (state.value + (2 ^ 64 - 1)),state.threads.set thread .idle⟩ := by
  have reader : Point.readRelease.reads ≤ state.readers := weight_le_total Point.reads found
  have insiders := sound.drained
  have value := sound.value
  have few := sound.readers_lt
  have single := sound.single
  have flag : flagWrite = 2 ^ 30 := rfl
  simp only [Point.reads] at reader
  have less : wrap (state.value + (2 ^ 64 - 1)) = state.value - 1 := by
    have shape : state.value + (2 ^ 64 - 1) = state.value - 1 + 2 ^ 64 := by omega
    have small : state.value - 1 < 2 ^ 64 := by
      obtain none_ | one := Nat.le_one_iff_eq_zero_or_eq_one.mp single
      · rw [none_] at value
        omega
      · rw [one] at value
        omega
    rw [wrap,shape,Nat.add_mod_right,Nat.mod_eq_of_lt small]
  rw [less]
  apply sound.move found
  · simp only [Point.reads,Point.writes]
    omega
  · simp only [Point.writes]
    omega
  · left
    simp only [Point.inside]
    omega
  · nofun

theorem Sound.go (sound : Sound state) (found : state.threads[thread]? = some point) (spurious : Bool) :
    Sound ⟨(point.next state.value spurious).1,state.threads.set thread (point.next state.value spurious).2⟩ := by
  cases point with
  | idle => exact sound.stay found rfl rfl rfl nofun
  | readLoad => exact sound.stay found rfl rfl rfl nofun
  | readTry oldV => exact sound.readTry found spurious
  | readCheck =>
    simp only [Point.next,sound.reader_value found rfl]
    exact sound.stay found rfl rfl rfl nofun
  | reading => exact sound.stay found rfl rfl rfl nofun
  | readLeave =>
    simp only [Point.next,sound.reader_value found rfl]
    exact sound.stay found rfl rfl rfl nofun
  | readRelease => exact sound.readRelease found
  | writeLoad => exact sound.stay found rfl rfl rfl nofun
  | writeTry oldV => exact sound.writeTry found spurious
  | drain =>
    simp only [Point.next]
    split
    next => exact sound.stay found rfl rfl rfl nofun
    next seen =>
      -- the flag alone means that no reader is left
      have value := sound.value
      have writer : Point.drain.writes ≤ state.writers := weight_le_total Point.writes found
      have single := sound.single
      simp only [Point.writes] at writer
      have one : state.writers = 1 := by omega
      rw [Decidable.not_not.mp seen,one] at value
      apply sound.move found
      · simp [Point.reads,Point.writes]
      · simp [Point.writes,one]
      · right
        simp only [Point.reads]
        omega
      · nofun
  | writeAssert =>
    simp only [Point.next,sound.assertWriter found rfl]
    exact sound.stay found rfl rfl rfl nofun
  | writing => exact sound.stay found rfl rfl rfl nofun
  | writeLeave =>
    simp only [Point.next,sound.assertWriter found rfl]
    exact sound.stay found rfl rfl rfl nofun
  | writeRelease =>
    obtain ⟨value,none_,one⟩ := sound.writer_value found rfl
    simp only [Point.next]
    apply sound.move found
    · simp only [Point.reads,Point.writes,value]
      omega
    · simp only [Point.writes,one]
      omega
    · right
      simpa only [Point.reads,Nat.add_zero] using none_
    · nofun
  | failed => exact absurd (List.mem_of_getElem? found) sound.fine

theorem Sound.enter (sound : Sound state) (entered : state.enter thread new = some next) (reads : new.reads = 0)
    (writes : new.writes = 0) (inside : new.inside = 0) (fine : new ≠ .failed) : Sound next := by
  unfold State.enter at entered
  split at entered
  next found =>
    obtain rfl := Option.some.inj entered
    exact sound.stay found reads writes inside fine
  next => cases entered

theorem Sound.step (sound : Sound state) {action : Action} (stepped : RWLock.step state action = some next) : Sound next := by
  cases action with
  | readLock thread => exact sound.enter stepped rfl rfl rfl nofun
  | writeLock thread => exact sound.enter stepped rfl rfl rfl nofun
  | go thread spurious =>
    obtain ⟨point,found,rfl⟩ := Option.map_eq_some_iff.mp stepped
    exact sound.go found spurious

theorem sound_create {threads : Nat} (few : threads < 2 ^ 30) : Sound (State.create threads) := by
  have none_ (weight : Point → Nat) (light : weight .idle = 0) : total weight (State.create threads).threads = 0 :=
    total_replicate weight threads light
  constructor
  · simpa [State.create] using few
  · rw [State.readers,State.writers,none_ _ rfl,none_ _ rfl]
    rfl
  · rw [State.writers,none_ _ rfl]
    exact Nat.zero_le 1
  · exact .inl (none_ _ rfl)
  · intro member
    cases List.eq_of_mem_replicate member

/-- What the lock promises: a writer inside is alone, the word says who is there, and
no check has failed. -/
structure Correct (state : State) : Prop where
  alone : ∀ (writer other : Nat) (inside point : Point), other ≠ writer → state.threads[writer]? = some inside → inside.inside = 1 →
    state.threads[other]? = some point → point.reads = 0 ∧ point.writes = 0
  word : state.value = state.readers + if ∃ point ∈ state.threads, point.writes = 1 then flagWrite else 0
  fine : Point.failed ∉ state.threads

theorem Sound.correct (sound : Sound state) : Correct state := by
  constructor
  · intro writer other inside point different found isInside also
    obtain ⟨_,none_,one⟩ := sound.writer_value found isInside
    have reads : point.reads ≤ state.readers := weight_le_total Point.reads also
    have writes : inside.writes = 1 := by cases inside <;> first | rfl | cases isInside
    refine ⟨by omega,?_⟩
    by_contra some_
    apply different
    have heavy : total Point.writes state.threads < point.writes + inside.writes := by
      unfold State.writers at one
      omega
    exact position_unique Point.writes also found heavy
  · have value := sound.value
    have single := sound.single
    by_cases some_ : ∃ point ∈ state.threads, point.writes = 1
    · obtain ⟨point,member,writes⟩ := some_
      obtain ⟨place,found⟩ := List.mem_iff_getElem?.mp member
      have light : point.writes ≤ state.writers := weight_le_total Point.writes found
      have one : state.writers = 1 := by omega
      rw [if_pos ⟨point,member,writes⟩]
      rw [one] at value
      omega
    · have none_ : state.writers = 0 := by
        apply total_eq_zero.mpr
        intro point member
        have light : point.writes ≤ 1 := by cases point <;> simp [Point.writes]
        have different : point.writes ≠ 1 := fun writes => some_ ⟨point,member,writes⟩
        omega
      rw [if_neg some_]
      rw [none_] at value
      omega
  · exact sound.fine

/-- However the steps of the threads interleave. -/
theorem correct_of_run (threads : Nat) (few : threads < 2 ^ 30) (actions : List Action) (final : State)
    (ran : run step (State.create threads) actions = some final) : Correct final :=
  Sound.correct (invariant_of_run Sound (fun _ _ _ sound stepped => sound.step stepped) (sound_create few) ran)

def readThenWrite : List Action :=
  [.readLock 0,.go 0 false,.go 0 false,.writeLock 1,.go 1 false,.go 1 true,.go 1 false,.go 1 false,.go 0 false,
    .go 0 false,.go 0 false,.go 0 false,.go 1 false,.go 1 false]

theorem correct_readThenWrite : ∃ final, run step (State.create 2) readThenWrite = some final ∧
    final.threads = [.idle,.writing] ∧ final.value = flagWrite ∧ Correct final := by
  have evaluated : (run step (State.create 2) readThenWrite).any
      (fun final => final.threads = [.idle,.writing] ∧ final.value = flagWrite) = true := by decide +kernel
  obtain ⟨final,ran,test⟩ := (Option.any_eq_true _ _).mp evaluated
  obtain ⟨threads,value⟩ := of_decide_eq_true test
  exact ⟨final,ran,threads,value,correct_of_run 2 (by decide) readThenWrite final ran⟩

/-! A writer that has set the flag waits for the readers that are inside, and for no one else. -/
section Writers
variable {state next pending final : State} {thread writer : Nat} {point : Point} {action : Action} {later : List Action}

def Point.left : Point → Nat
  | .readCheck => 4
  | .reading => 3
  | .readLeave => 2
  | .readRelease => 1
  | _ => 0

def State.left (state : State) : Nat := total Point.left state.threads

def readerStep (state : State) : Action → Nat
  | .go thread _ => ((state.threads[thread]?).map Point.reads).getD 0
  | _ => 0

def readerSteps : State → List Action → Nat
  | _, [] => 0
  | state, action::rest => readerStep state action + ((step state action).map (readerSteps · rest)).getD 0

/-- From the state in which the writer was pending to the one in which it still is, or has just seen the readers gone. -/
structure Waits (writer : Nat) (pending : State) (later : List Action) (final : State) : Prop where
  waiting : final.threads[writer]? = some .drain ∨ final.threads[writer]? = some .writeAssert
  readers : ∀ (reader : Nat) (point : Point), final.threads[reader]? = some point → point.reads = 1 →
    ∃ before : Point, pending.threads[reader]? = some before ∧ before.reads = 1
  writers : ∀ (other : Nat) (point : Point), other ≠ writer → final.threads[other]? = some point → point.writes = 0
  steps : readerSteps pending later + final.left = pending.left
  few : final.readers ≤ final.left ∧ final.left ≤ 4 * final.readers
  enters : final.threads[writer]? = some .drain → ∀ spurious, ∃ next, step final (.go writer spurious) = some next ∧
    (next.threads[writer]? = some .writeAssert ↔ final.readers = 0)

theorem Sound.flagged (sound : Sound state) (found : state.threads[writer]? = some point) (writes : point.writes = 1) :
    state.writers = 1 ∧ hasFlag state.value = true := by
  have light : point.writes ≤ state.writers := weight_le_total Point.writes found
  have single := sound.single
  have one : state.writers = 1 := by omega
  refine ⟨one,?_⟩
  rw [sound.value]
  exact (hasFlag_iff sound.readers_lt single).mpr one

theorem compareExchangeWeak_flagged {value oldV newV : Nat} (flagged : hasFlag value = true) (seen : ¬hasFlag oldV = true)
    (spurious : Bool) : compareExchangeWeak value oldV newV spurious = (value,false) := by
  rw [compareExchangeWeak,if_neg]
  rintro ⟨rfl,-⟩
  exact seen flagged

/-- While the flag is set no thread becomes a reader, and each step of one is one less. -/
theorem Sound.blocked (sound : Sound state) (found : state.threads[thread]? = some point) (flagged : hasFlag state.value = true)
    (spurious : Bool) : (point.next state.value spurious).2.reads ≤ point.reads ∧
      point.reads + (point.next state.value spurious).2.left = point.left := by
  cases point with
  | readTry oldV =>
    simp only [Point.next]
    split
    next => exact ⟨Nat.le_refl 0,rfl⟩
    next seen =>
      rw [compareExchangeWeak_flagged flagged seen]
      exact ⟨Nat.le_refl 0,rfl⟩
  | readCheck =>
    simp only [Point.next,sound.reader_value found rfl]
    exact ⟨Nat.le_refl 1,rfl⟩
  | readLeave =>
    simp only [Point.next,sound.reader_value found rfl]
    exact ⟨Nat.le_refl 1,rfl⟩
  | writeTry oldV =>
    simp only [Point.next]
    split
    next => exact ⟨Nat.le_refl 0,rfl⟩
    next seen =>
      rw [compareExchangeWeak_flagged flagged seen]
      exact ⟨Nat.le_refl 0,rfl⟩
  | drain =>
    simp only [Point.next]
    split <;> exact ⟨Nat.le_refl 0,rfl⟩
  | writeAssert =>
    simp only [Point.next,sound.assertWriter found rfl]
    exact ⟨Nat.le_refl 0,rfl⟩
  | writeLeave =>
    simp only [Point.next,sound.assertWriter found rfl]
    exact ⟨Nat.le_refl 0,rfl⟩
  | idle => exact ⟨Nat.le_refl 0,rfl⟩
  | readLoad => exact ⟨Nat.le_refl 0,rfl⟩
  | reading => exact ⟨Nat.le_refl 1,rfl⟩
  | readRelease => exact ⟨Nat.zero_le 1,rfl⟩
  | writeLoad => exact ⟨Nat.le_refl 0,rfl⟩
  | writing => exact ⟨Nat.le_refl 0,rfl⟩
  | writeRelease => exact ⟨Nat.le_refl 0,rfl⟩
  | failed => exact ⟨Nat.le_refl 0,rfl⟩

structure Drains (writer : Nat) (state : State) (action : Action) (next : State) : Prop where
  waiting : next.threads[writer]? = some .drain ∨ next.threads[writer]? = some .writeAssert
  readers : ∀ (reader : Nat) (point : Point), next.threads[reader]? = some point → point.reads = 1 →
    ∃ before : Point, state.threads[reader]? = some before ∧ before.reads = 1
  steps : readerStep state action + next.left = state.left

theorem drains_enter (found : state.threads[writer]? = some .drain) (entered : state.enter thread point = some next)
    (reads : point.reads = 0) (left : point.left = 0) (counted : readerStep state action = 0) : Drains writer state action next := by
  unfold State.enter at entered
  split at entered
  next idle =>
    obtain rfl := Option.some.inj entered
    have different : thread ≠ writer := by
      rintro rfl
      rw [idle] at found
      cases found
    refine ⟨.inl ?_,fun reader new at_ held => ?_,?_⟩
    · rwa [List.getElem?_set_ne different]
    · obtain rfl | other := eq_or_ne thread reader
      · rw [List.getElem?_set_self (List.getElem?_eq_some_iff.mp idle).1] at at_
        obtain rfl := Option.some.inj at_
        omega
      · exact ⟨new,by rwa [List.getElem?_set_ne other] at at_,held⟩
    · have sum := total_set Point.left point idle
      have none_ : Point.idle.left = 0 := rfl
      simp only [State.left]
      omega
  next => cases entered

theorem Sound.drains (sound : Sound state) (found : state.threads[writer]? = some .drain) (stepped : RWLock.step state action = some next) :
    Drains writer state action next := by
  cases action with
  | readLock thread => exact drains_enter found stepped rfl rfl rfl
  | writeLock thread => exact drains_enter found stepped rfl rfl rfl
  | go thread spurious =>
    obtain ⟨point,at_,rfl⟩ := Option.map_eq_some_iff.mp stepped
    obtain ⟨fewer,less⟩ := sound.blocked at_ (sound.flagged found rfl).2 spurious
    have inside := (List.getElem?_eq_some_iff.mp at_).1
    refine ⟨?_,fun reader new there held => ?_,?_⟩
    · obtain rfl | other := eq_or_ne thread writer
      · obtain rfl := Option.some.inj (at_.symm.trans found)
        rw [List.getElem?_set_self inside]
        simp only [Point.next]
        split
        · exact .inl rfl
        · exact .inr rfl
      · exact .inl (by rwa [List.getElem?_set_ne other])
    · obtain rfl | other := eq_or_ne thread reader
      · rw [List.getElem?_set_self inside] at there
        obtain rfl := Option.some.inj there
        have light := reads_le_one point
        exact ⟨point,at_,by omega⟩
      · exact ⟨new,by rwa [List.getElem?_set_ne other] at there,held⟩
    · have sum := total_set Point.left (point.next state.value spurious).2 at_
      simp only [State.left,readerStep,at_,Option.map_some,Option.getD_some]
      omega

theorem left_bounds (threads : List Point) :
    total Point.reads threads ≤ total Point.left threads ∧ total Point.left threads ≤ 4 * total Point.reads threads := by
  induction threads with
  | nil => exact ⟨Nat.le_refl 0,Nat.le_refl 0⟩
  | cons point rest ih =>
    have one : point.reads ≤ point.left ∧ point.left ≤ 4 * point.reads := by
      cases point <;> simp [Point.reads,Point.left]
    simp only [total_cons]
    omega

theorem Sound.alone (sound : Sound state) (found : state.threads[writer]? = some point) (writes : point.writes = 1) {other : Nat}
    {new : Point} (different : other ≠ writer) (also : state.threads[other]? = some new) : new.writes = 0 := by
  have one := (sound.flagged found writes).1
  by_contra some_
  apply different
  have heavy : total Point.writes state.threads < new.writes + point.writes := by
    unfold State.writers at one
    omega
  exact position_unique Point.writes also found heavy

theorem Sound.enters (sound : Sound state) (found : state.threads[writer]? = some .drain) (spurious : Bool) :
    ∃ next, RWLock.step state (.go writer spurious) = some next ∧
      (next.threads[writer]? = some .writeAssert ↔ state.readers = 0) := by
  have value := sound.value
  have one := (sound.flagged found rfl).1
  refine ⟨_,by rw [RWLock.step,found,Option.map_some],?_⟩
  rw [List.getElem?_set_self (List.getElem?_eq_some_iff.mp found).1,Option.some.injEq]
  rw [one] at value
  simp only [Point.next]
  split
  next readers =>
    have some_ : state.readers ≠ 0 := by omega
    simp [some_]
  next seen =>
    have none_ : state.readers = 0 := by
      have alone := Decidable.not_not.mp seen
      omega
    simp [none_]

theorem Sound.waits_here (sound : Sound state)
    (waiting : state.threads[writer]? = some .drain ∨ state.threads[writer]? = some .writeAssert) : Waits writer state [] state where
  waiting := waiting
  readers reader point found held := ⟨point,found,held⟩
  writers other point different found := by
    obtain here | here := waiting
    · exact sound.alone here rfl different found
    · exact sound.alone here rfl different found
  steps := Nat.zero_add state.left
  few := left_bounds state.threads
  enters found spurious := sound.enters found spurious

theorem Waits.after (waits : Waits writer next later final) (drains : Drains writer state action next)
    (stepped : step state action = some next) : Waits writer state (action::later) final where
  waiting := waits.waiting
  readers reader point found held := by
    obtain ⟨between,there,holds⟩ := waits.readers reader point found held
    exact drains.readers reader between there holds
  writers := waits.writers
  steps := by
    have before := drains.steps
    have rest := waits.steps
    rw [readerSteps,stepped,Option.map_some,Option.getD_some]
    omega
  few := waits.few
  enters := waits.enters

theorem Sound.waits (sound : Sound pending)
    (waiting : pending.threads[writer]? = some .drain ∨ pending.threads[writer]? = some .writeAssert)
    (drain : Meets RWLock.step (fun state _ => state.threads[writer]? = some .drain) pending later)
    (went : run RWLock.step pending later = some final) : Waits writer pending later final := by
  induction later generalizing pending with
  | nil =>
    obtain rfl := Option.some.inj went
    exact sound.waits_here waiting
  | cons action rest ih =>
    obtain ⟨next,stepped,went⟩ := run_cons_some went
    have drains := sound.drains drain.1 stepped
    exact (ih (sound.step stepped) drains.waiting (drain.2 next stepped) went).after drains stepped

/-- From the moment that a writer has set the flag, no thread becomes a reader or a second
writer until it has entered, and it enters after at most four more steps of each reader. -/
theorem writer_waits (threads : Nat) (few : threads < 2 ^ 30) (actions later : List Action) (pending final : State) (writer : Nat)
    (ran : run step (State.create threads) actions = some pending) (found : pending.threads[writer]? = some .drain)
    (drain : Meets step (fun state _ => state.threads[writer]? = some .drain) pending later)
    (went : run step pending later = some final) : Waits writer pending later final :=
  Sound.waits (invariant_of_run Sound (fun _ _ _ sound stepped => sound.step stepped) (sound_create few) ran) (.inl found) drain went

def flagSet : List Action := [.readLock 0,.go 0 false,.go 0 false,.writeLock 1,.go 1 false,.go 1 false]

def lateReader : List Action :=
  [.readLock 2,.go 2 false,.go 2 false,.go 1 false,.go 0 false,.go 0 false,.go 0 false,.go 0 false,.go 2 false,.go 1 false]

theorem writer_waits_lateReader : ∃ pending final, run step (State.create 3) flagSet = some pending ∧
    run step pending lateReader = some final ∧ final.threads[1]? = some .writeAssert ∧ readerSteps pending lateReader = 4 ∧
      Waits 1 pending lateReader final := by
  have evaluated : (run step (State.create 3) flagSet).any (fun pending => (run step pending lateReader).any fun final =>
      pending.threads[1]? = some .drain ∧ final.threads[1]? = some .writeAssert ∧ readerSteps pending lateReader = 4 ∧
        checks step (fun state _ => state.threads[1]? = some .drain) pending lateReader = true) = true := by decide +kernel
  obtain ⟨pending,ran,later⟩ := (Option.any_eq_true _ _).mp evaluated
  obtain ⟨final,went,test⟩ := (Option.any_eq_true _ _).mp later
  obtain ⟨found,reached,steps,drain⟩ := of_decide_eq_true test
  exact ⟨pending,final,ran,went,reached,steps,writer_waits 3 (by decide) flagSet lateReader pending final 1 ran found
    (meets_of_checks _ (fun _ _ holds => of_decide_eq_true holds) drain) went⟩

end Writers

end Pgasus.RWLock
