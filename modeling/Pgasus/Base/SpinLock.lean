import Pgasus.Library.Runs
import Pgasus.Library.Totals
import Pgasus.Library.Words

/-! The spin lock: a flag that is tested and set, and a counter of pauses that its
threads change without the lock. Every access to either is a step of its own; the
pauses do nothing. -/
namespace Pgasus.SpinLock
open Runs Totals Words

inductive BackOff
  | exponential (initial maxBkoff : Nat)
  | linear (step max : Nat)

namespace BackOff

def initial : BackOff → Nat
  | exponential initial _ => initial
  | linear step _ => step

def limit : BackOff → Nat
  | exponential _ maxBkoff => maxBkoff
  | linear _ max => max

def grow (curr : Nat) : BackOff → Nat
  | exponential _ _ => wrap (curr <<< 1)
  | linear step _ => wrap (curr + step)

end BackOff

def spinLock : BackOff := .exponential 16 (1 <<< 10)

def memSourceLock : BackOff := .linear 256 4096

structure Lock where
  locked : Bool
  curr : Nat

def Lock.create (backOff : BackOff) : Lock := ⟨false,backOff.initial⟩

/-- Where a thread is in `lock`, or in `try_lock` when it is `trying`. -/
inductive Point
  | idle
  | testAndSet (trying : Bool)
  | compare (trying : Bool)
  | load (trying : Bool)
  | store (trying : Bool) (curr : Nat)
  | reset
  | held
deriving DecidableEq

/-- The next access; `lock` tests the flag again whatever `backoff` returns, and a
thread that holds the lock gives it back. -/
def Point.next (backOff : BackOff) (lock : Lock) : Point → Lock × Point
  | .idle => (lock,.idle)
  | .testAndSet trying => if lock.locked then (lock,.compare trying) else ({lock with locked := true},.reset)
  | .compare trying =>
    (lock,if lock.curr < backOff.limit then .load trying else if trying then .idle else .testAndSet trying)
  | .load trying => (lock,.store trying lock.curr)
  | .store trying curr => ({lock with curr := backOff.grow curr},.testAndSet trying)
  | .reset => ({lock with curr := backOff.initial},.held)
  | .held => ({lock with locked := false},.idle)

def Point.holds : Point → Nat
  | .reset | .held => 1
  | _ => 0

def Point.locks : Point → Bool
  | .testAndSet trying | .compare trying | .load trying | .store trying _ => !trying
  | .reset => true
  | .idle | .held => false

structure State where
  lock : Lock
  threads : List Point

def State.create (backOff : BackOff) (threads : Nat) : State := ⟨.create backOff,List.replicate threads .idle⟩

inductive Action
  | lock (thread : Nat)
  | tryLock (thread : Nat)
  | go (thread : Nat)

def State.enter (state : State) (thread : Nat) (trying : Bool) : Option State :=
  match state.threads[thread]? with
  | some .idle => some {state with threads := state.threads.set thread (.testAndSet trying)}
  | _ => none

def step (backOff : BackOff) (state : State) : Action → Option State
  | .lock thread => state.enter thread false
  | .tryLock thread => state.enter thread true
  | .go thread => (state.threads[thread]?).map fun point =>
    ⟨(point.next backOff state.lock).1,state.threads.set thread (point.next backOff state.lock).2⟩

variable {backOff : BackOff} {lock : Lock} {state next : State} {point : Point} {thread other : Nat}

theorem holds_le_one (point : Point) : point.holds ≤ 1 := by cases point <;> simp [Point.holds]

theorem next_holds (backOff : BackOff) (within : point.holds ≤ lock.locked.toNat) :
    (point.next backOff lock).2.holds + lock.locked.toNat =
      point.holds + (point.next backOff lock).1.locked.toNat := by
  cases point with
  | idle => rfl
  | testAndSet trying => cases taken : lock.locked <;> simp [Point.next,Point.holds,taken]
  | compare trying =>
    simp only [Point.next]
    split
    · rfl
    · cases trying <;> rfl
  | load trying => rfl
  | store trying curr => rfl
  | reset => rfl
  | held =>
    cases taken : lock.locked with
    | false => simp [Point.holds,taken] at within
    | true => rfl

theorem next_locks (backOff : BackOff) (lock : Lock) (locks : point.locks = true) :
    (point.next backOff lock).2 = .held ∨ (point.next backOff lock).2.locks = true := by
  cases point with
  | idle => cases locks
  | testAndSet trying =>
    simp only [Point.next]
    split
    · exact .inr locks
    · exact .inr rfl
  | compare trying =>
    obtain rfl : trying = false := by simpa [Point.locks] using locks
    simp only [Point.next]
    split <;> exact .inr rfl
  | load trying => exact .inr locks
  | store trying curr => exact .inr locks
  | reset => exact .inl rfl
  | held => cases locks

def Flagged (state : State) : Prop := total Point.holds state.threads = state.lock.locked.toNat

theorem Flagged.step (flagged : Flagged state) {action : Action} (stepped : step backOff state action = some next) :
    Flagged next := by
  have enters (thread : Nat) (trying : Bool) (entered : state.enter thread trying = some next) : Flagged next := by
    unfold State.enter at entered
    split at entered
    next found =>
      obtain rfl := Option.some.inj entered
      have moved := total_set Point.holds (.testAndSet trying) found
      exact moved.trans flagged
    next => cases entered
  cases action with
  | lock thread => exact enters thread false stepped
  | tryLock thread => exact enters thread true stepped
  | go thread =>
    obtain ⟨point,found,rfl⟩ := Option.map_eq_some_iff.mp stepped
    have within := weight_le_total Point.holds found
    rw [flagged] at within
    have balance := next_holds backOff within
    have moved := total_set Point.holds (point.next backOff state.lock).2 found
    simp only [Flagged] at flagged ⊢
    omega

theorem flagged_run {threads : Nat} {actions : List Action}
    (ran : run (step backOff) (.create backOff threads) actions = some state) : Flagged state := by
  have start : Flagged (.create backOff threads) := total_replicate Point.holds threads rfl
  exact invariant_of_run Flagged (fun _ _ _ flagged stepped => flagged.step stepped) start ran

theorem Flagged.unique (flagged : Flagged state) {one two : Point} {thread other : Nat}
    (found : state.threads[thread]? = some one) (also : state.threads[other]? = some two) (holds : one.holds = 1) (holds' : two.holds = 1) : thread = other := by
  apply position_unique Point.holds found also
  rw [flagged,holds,holds']
  cases state.lock.locked <;> decide

theorem Flagged.taken_iff (flagged : Flagged state) : state.lock.locked = true ↔ ∃ point ∈ state.threads, point.holds = 1 := by
  constructor
  · intro taken
    rw [Flagged,taken] at flagged
    by_contra none_
    have light : total Point.holds state.threads = 0 := total_eq_zero.mpr fun point inside =>
      (Nat.le_one_iff_eq_zero_or_eq_one.mp (holds_le_one point)).resolve_right fun holds => none_ ⟨point,inside,holds⟩
    rw [light] at flagged
    cases flagged
  · rintro ⟨point,inside,holds⟩
    have heavy := total_pos_of_mem inside (holds ▸ Nat.one_pos)
    rw [flagged] at heavy
    cases taken : state.lock.locked with
    | false => simp [taken] at heavy
    | true => rfl

/-- At most one thread at a time is between taking the lock and giving it back, and the flag
is set while there is one, however the accesses to `curr` fall. -/
theorem exclusive (backOff : BackOff) (threads : Nat) (actions : List Action) (state : State)
    (ran : run (step backOff) (.create backOff threads) actions = some state) :
    (∀ (first second : Nat) (one two : Point), state.threads[first]? = some one → state.threads[second]? = some two →
      one.holds = 1 → two.holds = 1 → first = second) ∧
    (state.lock.locked = true ↔ ∃ point ∈ state.threads, point.holds = 1) :=
  ⟨fun _ _ _ _ found also => (flagged_run ran).unique found also,(flagged_run ran).taken_iff⟩

def contended : List Action := [.lock 0,.go 0,.go 0,.tryLock 1,.go 1]

theorem exclusive_contended : ∃ state, run (step spinLock) (.create spinLock 2) contended = some state ∧
    state.threads = [.held,.compare true] ∧ (state.lock.locked = true ↔ ∃ point ∈ state.threads, point.holds = 1) :=
  ⟨_,rfl,rfl,(exclusive spinLock 2 contended _ rfl).2⟩

/-- A growing counter reaches its limit, without wrapping round on the way. -/
def BackOff.Proper : BackOff → Prop
  | exponential _ maxBkoff => maxBkoff ≤ 2 ^ 63
  | linear step max => 0 < step ∧ max + step ≤ 2 ^ 64

theorem BackOff.Proper.grow_lt (proper : backOff.Proper) {curr : Nat} (positive : 0 < curr) (below : curr < backOff.limit) :
    curr < backOff.grow curr := by
  cases backOff with
  | exponential initial maxBkoff =>
    have fits : curr < 2 ^ 63 := Nat.lt_of_lt_of_le below proper
    simp only [BackOff.grow,Nat.shiftLeft_eq,wrap]
    omega
  | linear step max =>
    obtain ⟨grows,room⟩ := proper
    have low : curr < max := below
    simp only [BackOff.grow,wrap]
    omega

def Alone (backOff : BackOff) (thread : Nat) (state : State) (Reached : State → Prop) : Prop :=
  ∃ steps final, run (step backOff) state (List.replicate steps (.go thread)) = some final ∧ Reached final

theorem Alone.go {Reached : State → Prop} (found : state.threads[thread]? = some point)
    (later : ∀ threads, threads[thread]? = some (point.next backOff state.lock).2 →
      Alone backOff thread ⟨(point.next backOff state.lock).1,threads⟩ Reached) : Alone backOff thread state Reached := by
  obtain ⟨bound,-⟩ := List.getElem?_eq_some_iff.mp found
  obtain ⟨steps,final,ran,reached⟩ := later (state.threads.set thread (point.next backOff state.lock).2)
    (List.getElem?_set_self bound)
  refine ⟨steps + 1,final,?_,reached⟩
  rw [List.replicate_succ,run_cons]
  simp only [step,found,Option.map_some,Option.bind_some]
  exact ran

theorem Alone.here {Reached : State → Prop} (reached : Reached state) : Alone backOff thread state Reached :=
  ⟨0,state,rfl,reached⟩

/-- A thread that tries for a lock that another holds gives up: the counter grows with
each round, up to its limit. -/
theorem gives_up (proper : backOff.Proper) (found : state.threads[thread]? = some (.testAndSet true))
    (taken : state.lock.locked = true) (positive : 0 < state.lock.curr) :
    Alone backOff thread state fun final => final.threads[thread]? = some .idle ∧ final.lock.locked = true := by
  induction size : backOff.limit - state.lock.curr using Nat.strong_induction_on generalizing state with
  | _ left ih =>
  obtain ⟨⟨locked,curr⟩,threads⟩ := state
  obtain rfl : locked = true := taken
  refine .go found fun threads tested => ?_
  simp only [Point.next,if_true] at tested ⊢
  refine .go tested fun threads compared => ?_
  by_cases below : curr < backOff.limit
  · simp only [Point.next,below,if_true] at compared ⊢
    refine .go compared fun threads loaded => .go loaded fun threads stored => ?_
    have grown : curr < backOff.grow curr := proper.grow_lt positive below
    have shorter : backOff.limit - backOff.grow curr < left := by
      simp only at size
      omega
    exact ih _ shorter stored rfl (Nat.lt_trans positive grown) rfl
  · simp only [Point.next,below,if_false,if_true] at compared ⊢
    exact .here ⟨compared,rfl⟩

/-- A thread that calls `try_lock` and goes on alone returns from it, with the lock exactly
when no other thread holds it. -/
theorem tryLock_returns (backOff : BackOff) (proper : backOff.Proper) (threads : Nat) (actions : List Action) (state : State)
    (ran : run (step backOff) (.create backOff threads) actions = some state) (thread : Nat)
    (idle : state.threads[thread]? = some .idle) (positive : 0 < state.lock.curr) :
    ∃ steps final, run (step backOff) state (.tryLock thread::List.replicate steps (.go thread)) = some final ∧
      final.threads[thread]? = some (if (∃ point ∈ state.threads, point.holds = 1) then .idle else .held) := by
  have flag := (flagged_run ran).taken_iff
  obtain ⟨bound,-⟩ := List.getElem?_eq_some_iff.mp idle
  have begun : step backOff state (.tryLock thread) = some ⟨state.lock,state.threads.set thread (.testAndSet true)⟩ := by
    simp only [step,State.enter,idle]
  have found : (state.threads.set thread (.testAndSet true))[thread]? = some (.testAndSet true) := List.getElem?_set_self bound
  have alone : Alone backOff thread ⟨state.lock,state.threads.set thread (.testAndSet true)⟩ fun final =>
      final.threads[thread]? = some (if (∃ point ∈ state.threads, point.holds = 1) then .idle else .held) := by
    simp only [← flag]
    cases taken : state.lock.locked with
    | true =>
      obtain ⟨steps,final,ran,gone,-⟩ : Alone backOff thread ⟨state.lock,state.threads.set thread (.testAndSet true)⟩
        fun final => final.threads[thread]? = some .idle ∧ final.lock.locked = true :=
          gives_up proper found taken positive
      exact ⟨steps,final,ran,by simpa using gone⟩
    | false =>
      refine .go found fun threads tested => ?_
      simp only [Point.next,taken] at tested ⊢
      exact .go tested fun threads held => .here held
  obtain ⟨steps,final,ran,reached⟩ := alone
  refine ⟨steps,final,?_,reached⟩
  rw [run_cons,begun]
  exact ran

theorem tryLock_returns_held : ∃ steps final, run (step memSourceLock) ⟨⟨true,256⟩,[.held,.idle]⟩
      (.tryLock 1::List.replicate steps (.go 1)) = some final ∧ final.threads[1]? = some .idle :=
  tryLock_returns memSourceLock (by simp [memSourceLock,BackOff.Proper]) 2 [.lock 0,.go 0,.go 0] _ rfl 1 rfl (by decide)

end Pgasus.SpinLock
