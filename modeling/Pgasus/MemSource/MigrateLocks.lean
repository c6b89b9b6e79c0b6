import Mathlib.Logic.Function.Basic
import Pgasus.Library.LockTraces
import Pgasus.Library.Runs

/-! The locks of one source while threads allocate, free and migrate. `migrate` gives up
the arena lock before it walks the list of arenas a second time, to unlock them. The
memory of its vectors is that of another source. -/
namespace Pgasus.MemSource.MigrateLocks
open LockTraces Runs

/-- The arenas are counted as they are made; the native one is 0. -/
inductive Lock
  | arenaLock
  | mmappedChunkLock
  | mspaceLock (arena : Nat)
deriving DecidableEq

structure Shared where
  activeArena : Nat
  made : Nat
  next : Nat → Option Nat

/-- Where a thread is, named by what it does next. `top` is a record: the active arena
when `migrate` released the arena lock. -/
inductive Pc
  | idle
  -- `alloc`
  | lockArenas
  | readActive
  | lockMspace (arena : Nat)
  | malloc (arena : Nat)
  | create
  | link (arena : Nat)
  | publish (arena : Nat)
  | lockNew (arena : Nat)
  | mallocNew (arena : Nat)
  | unlockArenas
  -- `alloc` and `free` of a directly mapped block
  | lockChunks
  | unlockChunks
  -- `free` of a block of an arena
  | lockOwner (arena : Nat)
  | unlockOwner (arena : Nat)
  -- `migrate`
  | migrate
  | migrateChunks
  | migrateActive
  | collect (curr : Nat)
  | collectNext (curr : Nat)
  | releaseArenas
  | releaseChunks (top : Nat)
  | releaseActive (top : Nat)
  | release (top curr : Nat)
  | releaseNext (top curr : Nat)
deriving DecidableEq

inductive Choice
  | alloc
  | chunk
  | free (arena : Nat)
  | migrate
  | go (answer : Bool)

inductive Op
  | lock (lock : Lock)
  | unlock (lock : Lock)
  | read
  | make
  | link (arena : Nat)
  | publish (arena : Nat)

def advance (shared : Shared) : Pc → Choice → Option (Op × Pc)
  | .idle, .alloc => some (.read,.lockArenas)
  | .idle, .chunk => some (.read,.lockChunks)
  | .idle, .free arena => if arena < shared.made then some (.read,.lockOwner arena) else none
  | .idle, .migrate => some (.read,.migrate)
  | .lockArenas, .go _ => some (.lock .arenaLock,.readActive)
  | .readActive, .go _ => some (.read,.lockMspace shared.activeArena)
  | .lockMspace arena, .go _ => some (.lock (.mspaceLock arena),.malloc arena)
  | .malloc arena, .go answer =>
    if answer then some (.unlock (.mspaceLock arena),.unlockArenas) else some (.unlock (.mspaceLock arena),.create)
  -- `create_new_arena`
  | .create, .go answer => if answer then some (.make,.link shared.made) else some (.read,.unlockArenas)
  | .link arena, .go _ => some (.link arena,.publish arena)
  | .publish arena, .go _ => some (.publish arena,.lockNew arena)
  | .lockNew arena, .go _ => some (.lock (.mspaceLock arena),.mallocNew arena)
  | .mallocNew arena, .go _ => some (.unlock (.mspaceLock arena),.unlockArenas)
  | .unlockArenas, .go _ => some (.unlock .arenaLock,.idle)
  | .lockChunks, .go _ => some (.lock .mmappedChunkLock,.unlockChunks)
  | .unlockChunks, .go _ => some (.unlock .mmappedChunkLock,.idle)
  | .lockOwner arena, .go _ => some (.lock (.mspaceLock arena),.unlockOwner arena)
  | .unlockOwner arena, .go _ => some (.unlock (.mspaceLock arena),.idle)
  | .migrate, .go _ => some (.lock .arenaLock,.migrateChunks)
  | .migrateChunks, .go _ => some (.lock .mmappedChunkLock,.migrateActive)
  | .migrateActive, .go _ => some (.read,.collect shared.activeArena)
  | .collect curr, .go _ => some (.lock (.mspaceLock curr),.collectNext curr)
  | .collectNext curr, .go _ =>
    match shared.next curr with
    | none => some (.read,.releaseArenas)
    | some arena => some (.read,.collect arena)
  | .releaseArenas, .go _ => some (.unlock .arenaLock,.releaseChunks shared.activeArena)
  | .releaseChunks top, .go _ => some (.unlock .mmappedChunkLock,.releaseActive top)
  | .releaseActive top, .go _ => some (.read,.release top shared.activeArena)
  | .release top curr, .go _ => some (.unlock (.mspaceLock curr),.releaseNext top curr)
  | .releaseNext top curr, .go _ =>
    match shared.next curr with
    | none => some (.read,.idle)
    | some arena => some (.read,.release top arena)
  | _, _ => none

/-- `arena->next = active_arena` and `active_arena = arena`. -/
@[simp] def Op.shared (shared : Shared) : Op → Shared
  | make => {shared with made := shared.made + 1}
  | link arena => {shared with next := Function.update shared.next arena (some shared.activeArena)}
  | publish arena => {shared with activeArena := arena}
  | _ => shared

/-- A spin lock is taken when it is free; unlocking does not ask who holds it. -/
def Op.holder (thread : Nat) (holder : Lock → Option Nat) : Op → Option (Lock → Option Nat)
  | .lock own => if holder own = none then some (Function.update holder own (some thread)) else none
  | .unlock own => some (Function.update holder own none)
  | _ => some holder

def Op.events : Op → List (Event Lock)
  | .lock own => [Event.lock own]
  | .unlock own => [Event.unlock own]
  | _ => []

structure State where
  shared : Shared
  holder : Lock → Option Nat
  pc : Nat → Pc
  trace : Nat → List (Event Lock)

def State.start : State := ⟨⟨0,1,fun _ => none⟩,fun _ => none,fun _ => .idle,fun _ => []⟩

def step (state : State) : Nat × Choice → Option State
  | (thread,choice) =>
    (advance state.shared (state.pc thread) choice).bind fun (op,pc) =>
      (op.holder thread state.holder).map fun holder =>
        ⟨op.shared state.shared,holder,Function.update state.pc thread pc,
          Function.update state.trace thread (state.trace thread ++ op.events)⟩

/-! Which locks a thread has at each point. -/
@[simp] def Pc.hasArenas : Pc → Bool
  | readActive | lockMspace _ | malloc _ | create | link _ | publish _ | lockNew _ | mallocNew _ | unlockArenas
  | migrateChunks | migrateActive | collect _ | collectNext _ | releaseArenas => true
  | _ => false

@[simp] def Pc.hasChunks : Pc → Bool
  | unlockChunks | migrateActive | collect _ | collectNext _ | releaseArenas | releaseChunks _ => true
  | _ => false

@[simp] def Pc.HasMspace (activeArena arena : Nat) : Pc → Prop
  | malloc own | mallocNew own | unlockOwner own => arena = own
  | collect curr => curr < arena ∧ arena ≤ activeArena
  | collectNext curr => curr ≤ arena ∧ arena ≤ activeArena
  | releaseArenas => arena ≤ activeArena
  | releaseChunks top | releaseActive top => arena ≤ top
  | release _ curr => arena ≤ curr
  | releaseNext _ curr => arena < curr
  | _ => False

@[simp] def Pc.Holds (activeArena : Nat) (pc : Pc) : Lock → Prop
  | .arenaLock => pc.hasArenas = true
  | .mmappedChunkLock => pc.hasChunks = true
  | .mspaceLock arena => pc.HasMspace activeArena arena

@[simp] def Pc.sweeping : Pc → Bool
  | releaseChunks _ | releaseActive _ => true
  | _ => false

@[simp] def Pc.past : Pc → Bool
  | malloc _ | create | link _ | publish _ | lockNew _ | mallocNew _ | unlockArenas => true
  | _ => false

@[simp] def Pc.wants : Pc → Option Lock
  | lockArenas | migrate => some .arenaLock
  | lockChunks | migrateChunks => some .mmappedChunkLock
  | lockMspace arena | lockNew arena | lockOwner arena | collect arena => some (.mspaceLock arena)
  | _ => none

@[simp] def Pc.Fine (shared : Shared) : Pc → Prop
  | lockMspace arena | malloc arena | lockNew arena | mallocNew arena => arena = shared.activeArena ∧ shared.made = shared.activeArena + 1
  | link arena => arena = shared.activeArena + 1 ∧ shared.made = arena + 1
  | publish arena => arena = shared.activeArena + 1 ∧ shared.made = arena + 1 ∧ shared.next arena = some shared.activeArena
  | collect curr | collectNext curr => curr ≤ shared.activeArena ∧ shared.made = shared.activeArena + 1
  | releaseChunks top | releaseActive top => top = shared.activeArena
  | release top curr | releaseNext top curr => curr ≤ top ∧ top ≤ shared.activeArena
  | readActive | create | unlockArenas | migrateChunks | migrateActive | releaseArenas => shared.made = shared.activeArena + 1
  | _ => True

def Linked (shared : Shared) : Prop := ∀ arena ≤ shared.activeArena, shared.next arena = if arena = 0 then none else some (arena - 1)

@[simp] def Op.Held (holds : Lock → Prop) (lock : Lock) : Op → Prop
  | .lock own => lock = own ∨ holds lock
  | .unlock own => lock ≠ own ∧ holds lock
  | _ => holds lock

structure Inv (state : State) : Prop where
  exact_ : ∀ lock thread, state.holder lock = some thread ↔ (state.pc thread).Holds state.shared.activeArena lock
  fine : ∀ thread, (state.pc thread).Fine state.shared
  linked : Linked state.shared
  whole : state.holder .arenaLock = none → state.shared.made = state.shared.activeArena + 1
  quiet : ∀ mover other, (state.pc mover).sweeping = true → (state.pc other).past = false
  proper : ∀ thread, Proper [] (state.trace thread)
  held : ∀ thread lock, lock ∈ after [] (state.trace thread) ↔ (state.pc thread).Holds state.shared.activeArena lock

inductive Moves (shared : Shared) : Pc → Op → Pc → Prop
  | call {next : Pc} (without : next = .lockArenas ∨ next = .lockChunks ∨ next = .migrate ∨ ∃ arena, next = .lockOwner arena) :
    Moves shared .idle .read next
  | lockArenas : Moves shared .lockArenas (.lock .arenaLock) .readActive
  | readActive : Moves shared .readActive .read (.lockMspace shared.activeArena)
  | lockMspace (arena : Nat) : Moves shared (.lockMspace arena) (.lock (.mspaceLock arena)) (.malloc arena)
  | granted (arena : Nat) : Moves shared (.malloc arena) (.unlock (.mspaceLock arena)) .unlockArenas
  | refused (arena : Nat) : Moves shared (.malloc arena) (.unlock (.mspaceLock arena)) .create
  | make : Moves shared .create .make (.link shared.made)
  | failed : Moves shared .create .read .unlockArenas
  | link (arena : Nat) : Moves shared (.link arena) (.link arena) (.publish arena)
  | publish (arena : Nat) : Moves shared (.publish arena) (.publish arena) (.lockNew arena)
  | lockNew (arena : Nat) : Moves shared (.lockNew arena) (.lock (.mspaceLock arena)) (.mallocNew arena)
  | mallocNew (arena : Nat) : Moves shared (.mallocNew arena) (.unlock (.mspaceLock arena)) .unlockArenas
  | unlockArenas : Moves shared .unlockArenas (.unlock .arenaLock) .idle
  | lockChunks : Moves shared .lockChunks (.lock .mmappedChunkLock) .unlockChunks
  | unlockChunks : Moves shared .unlockChunks (.unlock .mmappedChunkLock) .idle
  | lockOwner (arena : Nat) : Moves shared (.lockOwner arena) (.lock (.mspaceLock arena)) (.unlockOwner arena)
  | unlockOwner (arena : Nat) : Moves shared (.unlockOwner arena) (.unlock (.mspaceLock arena)) .idle
  | migrate : Moves shared .migrate (.lock .arenaLock) .migrateChunks
  | migrateChunks : Moves shared .migrateChunks (.lock .mmappedChunkLock) .migrateActive
  | migrateActive : Moves shared .migrateActive .read (.collect shared.activeArena)
  | collect (curr : Nat) : Moves shared (.collect curr) (.lock (.mspaceLock curr)) (.collectNext curr)
  | collectLast {curr : Nat} (last : shared.next curr = none) : Moves shared (.collectNext curr) .read .releaseArenas
  | collectNext {curr arena : Nat} (found : shared.next curr = some arena) : Moves shared (.collectNext curr) .read (.collect arena)
  | releaseArenas : Moves shared .releaseArenas (.unlock .arenaLock) (.releaseChunks shared.activeArena)
  | releaseChunks (top : Nat) : Moves shared (.releaseChunks top) (.unlock .mmappedChunkLock) (.releaseActive top)
  | releaseActive (top : Nat) : Moves shared (.releaseActive top) .read (.release top shared.activeArena)
  | release (top curr : Nat) : Moves shared (.release top curr) (.unlock (.mspaceLock curr)) (.releaseNext top curr)
  | releaseLast {top curr : Nat} (last : shared.next curr = none) : Moves shared (.releaseNext top curr) .read .idle
  | releaseNext {top curr arena : Nat} (found : shared.next curr = some arena) :
    Moves shared (.releaseNext top curr) .read (.release top arena)

section Points
variable {shared : Shared} {pc next : Pc} {choice : Choice} {op : Op} {curr arena : Nat}

theorem advance_moves (moved : advance shared pc choice = some (op,next)) : Moves shared pc op next := by
  unfold advance at moved
  split at moved
  all_goals first | cases moved | (split at moved <;> cases moved)
  all_goals constructor
  all_goals first | assumption | simp

theorem Linked.last (linked : Linked shared) (inside : curr ≤ shared.activeArena) (none : shared.next curr = none) : curr = 0 := by
  have here := linked curr inside
  rw [none] at here
  split at here
  next zero => exact zero
  next => cases here

theorem Linked.before (linked : Linked shared) (inside : curr ≤ shared.activeArena) (found : shared.next curr = some arena) :
    curr = arena + 1 := by
  have here := linked curr inside
  rw [found] at here
  split at here
  next => cases here
  next present =>
    have same := Option.some.inj here
    omega

theorem Moves.holds (moved : Moves shared pc op next) (fine : pc.Fine shared) (linked : Linked shared) (lock : Lock) :
    next.Holds (op.shared shared).activeArena lock ↔ op.Held (pc.Holds shared.activeArena) lock := by
  cases moved with
  | call without =>
    rcases without with rfl | rfl | rfl | ⟨arena,rfl⟩
    all_goals cases lock <;> simp
  | collectLast last =>
    have zero := linked.last fine.1 last
    cases lock <;> simp [zero]
  | collectNext found =>
    have before := linked.before fine.1 found
    cases lock with
    | mspaceLock => simp only [Pc.Holds,Pc.HasMspace,Op.shared,Op.Held,before,Nat.succ_le_iff]
    | arenaLock | mmappedChunkLock => simp
  | releaseLast last =>
    have zero := linked.last (Nat.le_trans fine.1 fine.2) last
    cases lock <;> simp [zero]
  | releaseNext found =>
    have before := linked.before (Nat.le_trans fine.1 fine.2) found
    cases lock with
    | mspaceLock => simp only [Pc.Holds,Pc.HasMspace,Op.Held,before,Nat.lt_succ_iff]
    | arenaLock | mmappedChunkLock => simp
  | releaseActive top =>
    have same : top = shared.activeArena := fine
    cases lock <;> simp [same]
  | collect curr =>
    have inside := fine.1
    cases lock <;> simp
    omega
  | release top curr =>
    cases lock <;> simp
    omega
  | _ => cases lock <;> simp

theorem Moves.unlock {own : Lock} (moved : Moves shared pc (.unlock own) next) : pc.Holds shared.activeArena own := by
  cases moved <;> simp

theorem Moves.changes (moved : Moves shared pc op next) : pc.hasArenas = true ∨ op.shared shared = shared := by
  cases moved <;> simp

theorem Moves.linked (moved : Moves shared pc op next) (fine : pc.Fine shared) (linked : Linked shared) : Linked (op.shared shared) := by
  cases moved with
  | link arena =>
    intro other inside
    have different : other ≠ arena := by
      have after := fine.1
      have inside : other ≤ shared.activeArena := inside
      omega
    exact (Function.update_of_ne different _ _).trans (linked other inside)
  | publish arena =>
    obtain ⟨after,_,next⟩ := fine
    intro other inside
    rcases Nat.lt_or_eq_of_le inside with old | rfl
    · have old : other < arena := old
      exact linked other (by omega)
    · dsimp only [Op.shared]
      rw [next,after]
      simp
  | _ => exact linked

theorem Moves.fine (moved : Moves shared pc op next) (fine : pc.Fine shared) (linked : Linked shared)
    (whole : op = .lock .arenaLock → shared.made = shared.activeArena + 1) : next.Fine (op.shared shared) := by
  cases moved with
  | call without => rcases without with rfl | rfl | rfl | ⟨arena,rfl⟩ <;> trivial
  | collectNext found =>
    have before := linked.before fine.1 found
    exact ⟨show _ ≤ shared.activeArena by have := fine.1; omega,fine.2⟩
  | releaseNext found =>
    have before := linked.before (Nat.le_trans fine.1 fine.2) found
    exact ⟨by have := fine.1; omega,fine.2⟩
  | _ => simp_all

theorem Moves.past (moved : Moves shared pc op next) (past : next.past = true) :
    pc.past = true ∨ ∃ arena, pc = .lockMspace arena ∧ op = .lock (.mspaceLock arena) := by
  cases moved with
  | call without => rcases without with rfl | rfl | rfl | ⟨arena,rfl⟩ <;> cases past
  | _ => simp_all

theorem Moves.sweeping (moved : Moves shared pc op next) (sweeping : next.sweeping = true) : pc.sweeping = true ∨ pc.hasArenas = true := by
  cases moved with
  | call without => rcases without with rfl | rfl | rfl | ⟨arena,rfl⟩ <;> cases sweeping
  | _ => simp_all

theorem Moves.whole (moved : Moves shared pc (.unlock .arenaLock) next) (fine : pc.Fine shared) : shared.made = shared.activeArena + 1 := by
  cases moved <;> exact fine

theorem Pc.past_hasArenas (past : pc.past = true) : pc.hasArenas = true := by
  cases pc <;> simp_all

theorem Pc.sweeping_holds (sweeping : pc.sweeping = true) (fine : pc.Fine shared) : pc.HasMspace shared.activeArena shared.activeArena := by
  cases pc <;> simp_all

theorem Moves.publishes (moved : Moves shared pc (.publish arena) next) (fine : pc.Fine shared) :
    pc.past = true ∧ arena = shared.activeArena + 1 := by
  cases moved
  exact ⟨rfl,fine.1⟩

theorem Pc.Fine.grow {shared' : Shared} (fine : pc.Fine shared) (without : pc.hasArenas = false) (more : shared.activeArena ≤ shared'.activeArena)
    (quiet : pc.sweeping = true → shared'.activeArena = shared.activeArena) : pc.Fine shared' := by
  cases pc <;> simp_all <;> omega

theorem Pc.Fine.other {mover : Pc} (fine : pc.Fine shared) (without : pc.hasArenas = false) (moverFine : mover.Fine shared)
    (quiet : mover.past = true → pc.sweeping = false) (moved : Moves shared mover op next) : pc.Fine (op.shared shared) := by
  cases op
  case publish arena =>
    obtain ⟨past,after⟩ := moved.publishes moverFine
    refine fine.grow without ?_ fun sweeping => ?_
    · simp [after]
    · rw [quiet past] at sweeping
      cases sweeping
  all_goals exact fine.grow without (Nat.le_refl _) fun _ => rfl

theorem Pc.Holds.other (without : pc.hasArenas = false) (lock : Lock) (activeArena activeArena' : Nat) :
    pc.Holds activeArena lock ↔ pc.Holds activeArena' lock := by
  cases pc <;> cases lock <;> simp_all

end Points

section Steps
variable {state next : State} {mover : Nat} {choice : Choice} {pc : Pc}

theorem step_some (stepped : step state (mover,choice) = some next) : ∃ op pc holder,
    Moves state.shared (state.pc mover) op pc ∧ op.holder mover state.holder = some holder ∧
      next = ⟨op.shared state.shared,holder,Function.update state.pc mover pc,
        Function.update state.trace mover (state.trace mover ++ op.events)⟩ := by
  obtain ⟨⟨op,pc⟩,moved,rest⟩ := Option.bind_eq_some_iff.mp stepped
  obtain ⟨holder,held,rfl⟩ := Option.map_eq_some_iff.mp rest
  exact ⟨op,pc,holder,advance_moves moved,held,rfl⟩

theorem Inv.start : Inv State.start where
  exact_ lock thread := by cases lock <;> simp [State.start]
  fine thread := trivial
  linked arena inside := by
    have zero : arena = 0 := Nat.le_zero.mp inside
    simp [State.start,zero]
  whole _ := rfl
  quiet mover other sweeping := by cases sweeping
  proper thread := trivial
  held thread lock := by cases lock <;> simp [State.start,after]

theorem Inv.unique (inv : Inv state) {lock : Lock} {first second : Nat} (held : (state.pc first).Holds state.shared.activeArena lock)
    (also : (state.pc second).Holds state.shared.activeArena lock) : first = second :=
  Option.some.inj (((inv.exact_ lock first).mpr held).symm.trans ((inv.exact_ lock second).mpr also))

theorem Inv.others (inv : Inv state) {op : Op} {pc : Pc} (moved : Moves state.shared (state.pc mover) op pc) {other : Nat}
    (different : other ≠ mover) : (state.pc other).Fine (op.shared state.shared) ∧
      ∀ lock, (state.pc other).Holds (op.shared state.shared).activeArena lock ↔ (state.pc other).Holds state.shared.activeArena lock := by
  rcases moved.changes with arenas | same
  · have without : (state.pc other).hasArenas = false := by
      rw [← Bool.not_eq_true]
      intro also
      exact different (@Inv.unique state inv .arenaLock other mover also arenas)
    refine ⟨(inv.fine other).other without (inv.fine mover) (fun past => ?_) moved,fun lock => Pc.Holds.other without lock _ _⟩
    rw [← Bool.not_eq_true]
    intro sweeping
    rw [inv.quiet other mover sweeping] at past
    cases past
  · rw [same]
    exact ⟨inv.fine other,fun _ => Iff.rfl⟩

theorem Op.holder_some {op : Op} {holder after : Lock → Option Nat} (held : op.holder mover holder = some after)
    (owns : ∀ own, op = .unlock own → holder own = some mover) :
    (∀ lock, after lock = some mover ↔ op.Held (fun lock => holder lock = some mover) lock) ∧
      (∀ lock other, other ≠ mover → (after lock = some other ↔ holder lock = some other)) ∧
      ∀ own, op = .lock own → holder own = none ∧ after own = some mover := by
  cases op with
  | lock own =>
    simp only [Op.holder] at held
    split at held
    next free =>
      obtain rfl := Option.some.inj held
      refine ⟨fun lock => ?_,fun lock other different => ?_,fun _ same => ?_⟩
      · by_cases same : lock = own <;> simp [same]
      · by_cases same : lock = own
        · simp [same,free,Ne.symm different]
        · simp [same]
      · cases same
        exact ⟨free,Function.update_self _ _ _⟩
    next => cases held
  | unlock own =>
    obtain rfl := Option.some.inj held
    have here := owns own rfl
    refine ⟨fun lock => ?_,fun lock other different => ?_,fun _ same => by cases same⟩
    · by_cases same : lock = own <;> simp [same]
    · by_cases same : lock = own
      · simp [same,here,Ne.symm different]
      · simp [same]
  | read | make | link _ | publish _ =>
    obtain rfl := Option.some.inj held
    exact ⟨fun _ => Iff.rfl,fun _ _ _ => Iff.rfl,fun _ same => (by cases same)⟩

theorem Op.events_proper {op : Op} {trace : List (Event Lock)} (proper : Proper [] trace) (locks : ∀ own, op = .lock own → own ∉ after [] trace)
    (unlocks : ∀ own, op = .unlock own → own ∈ after [] trace) : Proper [] (trace ++ op.events) ∧
      ∀ lock, lock ∈ after [] (trace ++ op.events) ↔ op.Held (· ∈ after [] trace) lock := by
  rw [proper_append,after_append]
  cases op with
  | lock own => exact ⟨⟨proper,locks own rfl,trivial⟩,fun lock => List.mem_cons⟩
  | unlock own => exact ⟨⟨proper,unlocks own rfl,trivial⟩,fun lock => (proper.nodup List.nodup_nil).mem_erase_iff⟩
  | read | make | link _ | publish _ => exact ⟨⟨proper,trivial⟩,fun _ => Iff.rfl⟩

/-- No `alloc` gets past the mspace of the active arena while a `migrate` without the
arena lock has all of them. -/
theorem Inv.quietStep (inv : Inv state) {op : Op} {pc : Pc} (moved : Moves state.shared (state.pc mover) op pc)
    (free : ∀ own, op = .lock own → state.holder own = none) (first second : Nat)
    (sweeping : (Function.update state.pc mover pc first).sweeping = true) :
    (Function.update state.pc mover pc second).past = false := by
  rw [← Bool.not_eq_true]
  intro past
  by_cases one : first = mover
  · subst one
    rw [Function.update_self] at sweeping
    by_cases two : second = first
    · subst two
      rw [Function.update_self] at past
      cases pc <;> simp_all
    · rw [Function.update_of_ne two] at past
      rcases moved.sweeping sweeping with before | arenas
      · rw [inv.quiet first second before] at past
        cases past
      · exact two (@Inv.unique state inv .arenaLock second first (Pc.past_hasArenas past) arenas)
  · rw [Function.update_of_ne one] at sweeping
    have before := inv.quiet first second sweeping
    by_cases two : second = mover
    · subst two
      rw [Function.update_self] at past
      rcases moved.past past with already | ⟨arena,here,locks⟩
      · rw [already] at before
        cases before
      · have fine := inv.fine second
        rw [here] at fine
        obtain rfl := fine.1
        have taken := (inv.exact_ (.mspaceLock state.shared.activeArena) first).mpr (Pc.sweeping_holds sweeping (inv.fine first))
        rw [free _ locks] at taken
        cases taken
    · rw [Function.update_of_ne two,before] at past
      cases past

/-- The arena lock is only given back with the list complete. -/
theorem Inv.wholeStep (inv : Inv state) {op : Op} {holder : Lock → Option Nat}
    (moved : Moves state.shared (state.pc mover) op pc)
    (self : ∀ lock, holder lock = some mover ↔ op.Held (fun lock => state.holder lock = some mover) lock)
    (rest : ∀ lock other, other ≠ mover → (holder lock = some other ↔ state.holder lock = some other)) (free : holder .arenaLock = none) :
    (op.shared state.shared).made = (op.shared state.shared).activeArena + 1 := by
  by_cases arenas : (state.pc mover).hasArenas = true
  · have before := (inv.exact_ .arenaLock mover).mpr arenas
    have given : ¬op.Held (fun lock => state.holder lock = some mover) .arenaLock := by
      rw [← self,free]
      exact nofun
    cases op with
    | unlock own =>
      obtain rfl : own = .arenaLock := by_contra fun other => given ⟨Ne.symm other,before⟩
      exact moved.whole (inv.fine mover)
    | lock own => exact absurd (.inr before) given
    | read | make | link _ | publish _ => exact absurd before given
  · rw [moved.changes.resolve_left arenas]
    cases before : state.holder .arenaLock with
    | none => exact inv.whole before
    | some other =>
      have different : other ≠ mover := by
        rintro rfl
        exact arenas ((inv.exact_ .arenaLock other).mp before)
      rw [(rest .arenaLock other different).mpr before] at free
      cases free

theorem Inv.step (inv : Inv state) (stepped : MigrateLocks.step state (mover,choice) = some next) : Inv next := by
  obtain ⟨op,pc,holder,moved,held,rfl⟩ := step_some stepped
  have mine := moved.holds (inv.fine mover) inv.linked
  have unlocks (own : Lock) (same : op = .unlock own) : (state.pc mover).Holds state.shared.activeArena own := by
    subst same
    exact moved.unlock
  obtain ⟨self,rest,taken⟩ := Op.holder_some held fun own same => (inv.exact_ own mover).mpr (unlocks own same)
  obtain ⟨proper,traced⟩ := Op.events_proper (inv.proper mover)
    (fun own same inside => by
      have here := (inv.exact_ own mover).mpr ((inv.held mover own).mp inside)
      rw [(taken own same).1] at here
      cases here)
    (fun own same => (inv.held mover own).mpr (unlocks own same))
  constructor
  case linked => exact moved.linked (inv.fine mover) inv.linked
  case whole => exact inv.wholeStep moved self rest
  case quiet => exact inv.quietStep moved fun own same => (taken own same).1
  case exact_ =>
    intro lock thread
    dsimp only
    by_cases same : thread = mover
    · subst same
      rw [Function.update_self,mine,self]
      cases op <;> simp [inv.exact_]
    · rw [Function.update_of_ne same,rest lock thread same,(inv.others moved same).2]
      exact inv.exact_ lock thread
  case fine =>
    intro thread
    dsimp only
    by_cases same : thread = mover
    · subst same
      rw [Function.update_self]
      exact moved.fine (inv.fine thread) inv.linked fun locks => inv.whole (taken _ locks).1
    · rw [Function.update_of_ne same]
      exact (inv.others moved same).1
  case proper =>
    intro thread
    dsimp only
    by_cases same : thread = mover
    · subst same
      rwa [Function.update_self]
    · rw [Function.update_of_ne same]
      exact inv.proper thread
  case held =>
    intro thread lock
    dsimp only
    by_cases same : thread = mover
    · subst same
      rw [Function.update_self,Function.update_self,mine,traced]
      cases op <;> simp [inv.held]
    · rw [Function.update_of_ne same,Function.update_of_ne same,(inv.others moved same).2]
      exact inv.held thread lock

/-! The locks are taken in the order of the arena lock, that of the chunks, and the arenas
from the active one on, so one thread can always go on. -/
theorem Pc.go_some (shared : Shared) (busy : pc ≠ .idle) :
    ∃ op next, advance shared pc (.go true) = some (op,next) ∧ ∀ own, op = .lock own → pc.wants = some own := by
  cases pc
  case idle => exact absurd rfl busy
  case collectNext curr =>
    simp only [advance]
    split
    · exact ⟨_,_,rfl,nofun⟩
    · exact ⟨_,_,rfl,nofun⟩
  case releaseNext top curr =>
    simp only [advance]
    split
    · exact ⟨_,_,rfl,nofun⟩
    · exact ⟨_,_,rfl,nofun⟩
  all_goals exact ⟨_,_,rfl,fun own same => by simp_all⟩

/-- Some thread in a call can take its next step. -/
def Progress (state : State) : Prop := ∃ mover choice, state.pc mover ≠ .idle ∧ (MigrateLocks.step state (mover,choice)).isSome = true

theorem progress_or_waits (busy : state.pc mover ≠ .idle) :
    Progress state ∨ ∃ own other, (state.pc mover).wants = some own ∧ state.holder own = some other := by
  obtain ⟨op,pc,moved,waits⟩ := Pc.go_some state.shared busy
  have goes (holder : Lock → Option Nat) (held : op.holder mover state.holder = some holder) : Progress state :=
    ⟨mover,.go true,busy,by simp [MigrateLocks.step,moved,held]⟩
  cases op with
  | lock own =>
    cases taken : state.holder own with
    | none => exact .inl (goes _ (if_pos taken))
    | some other => exact .inr ⟨own,other,waits own rfl,taken⟩
  | unlock | read | make | link | publish => exact .inl (goes _ rfl)

theorem Pc.busy_of_holds {activeArena : Nat} {lock : Lock} (holds : pc.Holds activeArena lock) : pc ≠ .idle := by
  rintro rfl
  cases lock <;> simp at holds

theorem Pc.wants_below {activeArena arena : Nat} {own : Lock} (has : pc.HasMspace activeArena arena) (waits : pc.wants = some own) :
    ∃ curr < arena, own = .mspaceLock curr := by
  cases pc <;> simp_all
  exact ⟨_,has.1,waits.symm⟩

theorem Pc.wants_mspace {own : Lock} (has : pc.hasChunks = true) (waits : pc.wants = some own) : ∃ curr, own = .mspaceLock curr := by
  cases pc <;> simp_all
  exact ⟨_,waits.symm⟩

theorem Pc.wants_later {own : Lock} (has : pc.hasArenas = true) (waits : pc.wants = some own) :
    own = .mmappedChunkLock ∨ ∃ curr, own = .mspaceLock curr := by
  cases pc <;> simp_all
  all_goals exact .inr ⟨_,waits.symm⟩

theorem Inv.mspace_progress (inv : Inv state) {arena : Nat} (held : state.holder (.mspaceLock arena) = some mover) : Progress state := by
  induction arena using Nat.strong_induction_on generalizing mover with
  | h arena ih =>
    have holds := (inv.exact_ _ mover).mp held
    rcases progress_or_waits (Pc.busy_of_holds holds) with progress | ⟨own,other,waits,taken⟩
    · exact progress
    · obtain ⟨curr,below,rfl⟩ := Pc.wants_below holds waits
      exact ih curr below taken

theorem Inv.chunk_progress (inv : Inv state) (held : state.holder .mmappedChunkLock = some mover) : Progress state := by
  have holds := (inv.exact_ _ mover).mp held
  rcases progress_or_waits (Pc.busy_of_holds holds) with progress | ⟨own,other,waits,taken⟩
  · exact progress
  · obtain ⟨curr,rfl⟩ := Pc.wants_mspace holds waits
    exact inv.mspace_progress taken

theorem Inv.progress (inv : Inv state) (busy : state.pc mover ≠ .idle) : Progress state := by
  have later (own : Lock) (other : Nat) (taken : state.holder own = some other)
      (which : own = .mmappedChunkLock ∨ ∃ curr, own = .mspaceLock curr) : Progress state := by
    rcases which with rfl | ⟨curr,rfl⟩
    · exact inv.chunk_progress taken
    · exact inv.mspace_progress taken
  rcases progress_or_waits busy with progress | ⟨own,other,_,taken⟩
  · exact progress
  · cases own with
    | arenaLock =>
      have holds := (inv.exact_ _ other).mp taken
      rcases progress_or_waits (Pc.busy_of_holds holds) with progress | ⟨own,last,waits,taken⟩
      · exact progress
      · exact later own last taken (Pc.wants_later holds waits)
    | mmappedChunkLock => exact inv.chunk_progress taken
    | mspaceLock curr => exact inv.mspace_progress taken

end Steps

/-- In every run each thread releases only locks that it has, which nobody else has
released; a finished call has released what it took as often; the arenas that `migrate`
unlocks are not newer than the one active when it released the arena lock; and the calls
never block each other for good. -/
theorem migrate_locks (actions : List (Nat × Choice)) (state : State) (ran : run step State.start actions = some state) (thread : Nat) :
    Proper [] (state.trace thread) ∧ (∀ lock, state.holder lock = some thread ↔ lock ∈ after [] (state.trace thread)) ∧
      (state.pc thread = .idle → ∀ lock, state.holder lock ≠ some thread ∧
        (state.trace thread).count (.lock lock) = (state.trace thread).count (.unlock lock)) ∧
      (∀ top curr, state.pc thread = .release top curr → curr ≤ top ∧ state.holder (.mspaceLock curr) = some thread) ∧
      (state.pc thread ≠ .idle → Progress state) := by
  have inv : Inv state := invariant_of_run Inv (fun _ (_,_) _ inv stepped => inv.step stepped) Inv.start ran
  have holder (lock : Lock) : state.holder lock = some thread ↔ lock ∈ after [] (state.trace thread) :=
    (inv.exact_ lock thread).trans (inv.held thread lock).symm
  refine ⟨inv.proper thread,holder,fun idle lock => ?_,fun top curr here => ?_,inv.progress⟩
  · have nothing : state.holder lock ≠ some thread := fun taken => Pc.busy_of_holds ((inv.exact_ lock thread).mp taken) idle
    refine ⟨nothing,?_⟩
    have balance := (inv.proper thread).count lock
    rw [List.count_eq_zero.mpr fun inside => nothing ((holder lock).mpr inside)] at balance
    simpa using balance
  · have fine := inv.fine thread
    rw [here] at fine
    refine ⟨fine.1,(inv.exact_ _ thread).mpr ?_⟩
    rw [here]
    exact Nat.le_refl curr

def overtaken : List (Nat × Choice) :=
  [(0,.migrate),(0,.go true),(0,.go true),(0,.go true),(0,.go true),(0,.go true),(0,.go true),(1,.alloc),
    (1,.go true),(1,.go true),(0,.go true),(0,.go true),(0,.go true),(1,.go true),(1,.go false),
    (1,.go true),(1,.go true),(1,.go true),(0,.go true)]

theorem migrate_locks_overtaken : ∃ state, run step State.start overtaken = some state ∧ state.shared.activeArena = 1 ∧
    ∀ lock, state.holder lock ≠ some 0 ∧ (state.trace 0).count (.lock lock) = (state.trace 0).count (.unlock lock) := by
  have ran : (run step State.start overtaken).map (fun state => (state.shared.activeArena,state.pc 0)) = some (1,.idle) := by decide +kernel
  obtain ⟨state,ran,same⟩ := Option.map_eq_some_iff.mp ran
  obtain ⟨active,idle⟩ := Prod.mk.inj same
  exact ⟨state,ran,active,(migrate_locks overtaken state ran 0).2.2.1 idle⟩

end Pgasus.MemSource.MigrateLocks
