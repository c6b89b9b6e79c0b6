import Mathlib.Logic.Function.Basic
import Mathlib.Data.List.Nodup
import Pgasus.Library.Runs

/-! The life of the threads that a `ThreadManager` starts. A call of the manager holds
its mutex to the end, so one call runs at a time; the threads themselves enter and
leave `thread_func` meanwhile. -/
namespace Pgasus.ThreadManager
open Runs

abbrev Thread := Nat

inductive ThreadState
  | created
  | associated
  | running
  | terminated
  | floating
deriving DecidableEq

/-- What the operating system knows of a thread: it is `started` by `pthread_create`,
`inside` when `thread_func` has passed its assertion and `ended` when that returned. -/
inductive Handle
  | absent
  | started
  | inside
  | ended
  | joined
deriving DecidableEq

structure ThreadBase where
  state : ThreadState
  cpuid : Option Nat
  handle : Handle
deriving DecidableEq

inductive Op
  | pushBack (core : Nat) (thread : Thread)
  | associate (core : Nat) (thread : Thread)
  | start (thread : Thread)
  | check (thread : Thread)
  | join (thread : Thread)
  | release (thread : Thread)
  | remove (thread : Thread)
  | clear (core : Nat)
deriving DecidableEq

/-- `work` is what the call in progress has still to do, for the thread `caller` if one
of the managed threads called. -/
structure State where
  cpuSet : List Nat
  cpuThreads : List (List Thread)
  objects : Thread → ThreadBase
  caller : Option Thread
  work : List Op

def State.start (cpuSet : List Nat) : State :=
  ⟨cpuSet,cpuSet.map fun _ => [],fun _ => ⟨.created,none,.absent⟩,none,[]⟩

namespace State

variable (state : State)

def list (core : Nat) : List Thread := state.cpuThreads.getD core []

/-- `_cpu_to_idx`, as the constructor fills it. -/
def cpuToIdx (cpu : Nat) : Option Nat :=
  (List.range state.cpuSet.length).foldl (fun found i => if state.cpuSet[i]? = some cpu then some i else found) none

def managesThread (thread : Thread) : Bool := state.cpuThreads.any fun threads => threads.contains thread

/-- The core that `register_thread` takes when none is given. -/
def findCore : Nat :=
  (List.range state.cpuThreads.length).foldl
    (fun core i => if (state.list i).length < (state.list core).length then i else core) 0

def setObject (thread : Thread) (object : ThreadBase) : State :=
  {state with objects := Function.update state.objects thread object}

def setList (core : Nat) (threads : List Thread) : State :=
  {state with cpuThreads := state.cpuThreads.set core threads}

end State

def State.coreOf (state : State) (thread : Thread) : Option Nat := ((state.objects thread).cpuid).bind state.cpuToIdx

/-- The assertions; a thread is joined once and not by itself. -/
def Op.Holds (state : State) : Op → Prop
  | .pushBack core _ => core < state.cpuThreads.length
  | .associate _ thread => (state.objects thread).state = .created
  | .start thread => (state.objects thread).state = .associated
  | .check thread => state.managesThread thread = true ∧ (state.coreOf thread).isSome = true
  | .join thread => (state.objects thread).state ∈ [.running,.terminated,.floating] ∧
      (state.objects thread).handle ∉ [.absent,.joined] ∧ state.caller ≠ some thread
  | .release thread => (state.objects thread).state = .terminated
  | .remove _ => True
  | .clear _ => True

instance (state : State) : (op : Op) → Decidable (op.Holds state)
  | .pushBack core _ => inferInstanceAs (Decidable (core < state.cpuThreads.length))
  | .associate _ thread => inferInstanceAs (Decidable ((state.objects thread).state = .created))
  | .start thread => inferInstanceAs (Decidable ((state.objects thread).state = .associated))
  | .check thread => inferInstanceAs (Decidable (state.managesThread thread = true ∧ (state.coreOf thread).isSome = true))
  | .join thread => inferInstanceAs (Decidable ((state.objects thread).state ∈ [.running,.terminated,.floating] ∧
      (state.objects thread).handle ∉ [.absent,.joined] ∧ state.caller ≠ some thread))
  | .release thread => inferInstanceAs (Decidable ((state.objects thread).state = .terminated))
  | .remove _ => instDecidableTrue
  | .clear _ => instDecidableTrue

def Op.waits (state : State) : Op → Bool
  | .join thread => (state.objects thread).handle ≠ .ended
  | _ => false

def Op.apply (state : State) : Op → State
  | .pushBack core thread => state.setList core (state.list core ++ [thread])
  | .associate core thread =>
    state.setObject thread {state.objects thread with state := .associated, cpuid := state.cpuSet[core]?}
  | .start thread => state.setObject thread {state.objects thread with state := .running, handle := .started}
  | .check _ => state
  | .join thread => state.setObject thread {state.objects thread with handle := .joined}
  | .release thread => state.setObject thread {state.objects thread with state := .floating}
  | .remove thread =>
    match state.coreOf thread with
    | none => state
    | some core => state.setList core ((state.list core).filter (· ≠ thread))
  | .clear core => state.setList core []

inductive Call
  | registerThread (thread : Thread) (core : Int)
  | deregisterThread (thread : Thread)
  | deregisterAll
  | waitForAll

def Call.work (state : State) : Call → List Op
  | .registerThread thread core =>
    let core := if core < 0 then state.findCore else core.toNat
    [.pushBack core thread,.associate core thread,.start thread]
  | .deregisterThread thread => [.check thread,.join thread,.release thread,.remove thread]
  | .deregisterAll => (List.range state.cpuThreads.length).flatMap fun core =>
      ((state.list core).flatMap fun thread => [.join thread,.release thread]) ++ [.clear core]
  | .waitForAll => (List.range state.cpuThreads.length).flatMap fun core => (state.list core).map .join

inductive Action
  | call (caller : Option Thread) (call : Call)
  | advance
  | enter (thread : Thread)
  | leave (thread : Thread)

/-- A managed thread calls from its `run()`. -/
def State.callable (state : State) (caller : Option Thread) : Bool :=
  state.work.isEmpty && caller.all fun thread => (state.objects thread).handle = .inside

def step (state : State) : Action → Option State
  | .call caller call =>
    if state.callable caller then some {state with caller := caller, work := call.work state} else none
  | .advance =>
    match state.work with
    | [] => none
    | op::rest =>
      if op.Holds state ∧ op.waits state = false then some {op.apply state with work := rest} else none
  -- thread_func
  | .enter thread =>
    if (state.objects thread).handle = .started ∧ (state.objects thread).state = .running then
      some (state.setObject thread {state.objects thread with handle := .inside})
    else none
  | .leave thread =>
    if (state.objects thread).handle = .inside ∧ (state.caller ≠ some thread ∨ state.work = []) then
      some (state.setObject thread {state.objects thread with state := .terminated, handle := .ended})
    else none

inductive Phase
  | fresh
  | pushed (core : Nat)
  | associated (core : Nat)
  | live (core : Nat)
  | joined (core : Nat)
  | released (core : Nat)
  | gone

namespace Phase

def core : Phase → Option Nat
  | .fresh => none
  | .pushed core => some core
  | .associated core => some core
  | .live core => some core
  | .joined core => some core
  | .released core => some core
  | .gone => none

/-- The phases between the calls. After `wait_for_all` threads stay `joined`. -/
def Settled (waited : Bool) : Phase → Prop
  | .fresh => True
  | .live _ => True
  | .joined _ => waited = true
  | .gone => True
  | _ => False

def Fits (cpuSet : List Nat) (object : ThreadBase) : Phase → Prop
  | .fresh => object.state = .created ∧ object.handle = .absent
  | .pushed _ => object.state = .created ∧ object.handle = .absent
  | .associated core => object.state = .associated ∧ object.handle = .absent ∧ object.cpuid = cpuSet[core]?
  | .live core => (object.state = .running ∧ (object.handle = .started ∨ object.handle = .inside) ∨
      object.state = .terminated ∧ object.handle = .ended) ∧ object.cpuid = cpuSet[core]?
  | .joined core => object.state = .terminated ∧ object.handle = .joined ∧ object.cpuid = cpuSet[core]?
  | .released core => object.state = .floating ∧ object.handle = .joined ∧ object.cpuid = cpuSet[core]?
  | .gone => object.state = .floating ∧ object.handle = .joined

end Phase

inductive Goes (cores : Nat) : (Thread → Phase) → Op → (Thread → Phase) → Prop
  | pushBack {phases} (core : Nat) (thread : Thread) : phases thread = .fresh → core < cores →
      Goes cores phases (.pushBack core thread) (Function.update phases thread (.pushed core))
  | associate {phases} (core : Nat) (thread : Thread) : phases thread = .pushed core →
      Goes cores phases (.associate core thread) (Function.update phases thread (.associated core))
  | start {phases} (core : Nat) (thread : Thread) : phases thread = .associated core →
      Goes cores phases (.start thread) (Function.update phases thread (.live core))
  | check {phases} (core : Nat) (thread : Thread) : phases thread = .live core ∨ phases thread = .joined core →
      Goes cores phases (.check thread) phases
  | join {phases} (core : Nat) (thread : Thread) : phases thread = .live core →
      Goes cores phases (.join thread) (Function.update phases thread (.joined core))
  | release {phases} (core : Nat) (thread : Thread) : phases thread = .joined core →
      Goes cores phases (.release thread) (Function.update phases thread (.released core))
  | remove {phases} (core : Nat) (thread : Thread) : phases thread = .released core →
      Goes cores phases (.remove thread) (Function.update phases thread .gone)
  | clear {phases next} (core : Nat) :
      (∀ thread, (phases thread).core = some core → phases thread = .released core ∧ next thread = .gone) →
      (∀ thread, (phases thread).core ≠ some core → next thread = phases thread) →
      Goes cores phases (.clear core) next

inductive Planned (cores : Nat) (waited : Bool) : (Thread → Phase) → List Op → Prop
  | done {phases} : (∀ thread, (phases thread).Settled waited) → Planned cores waited phases []
  | next {phases after op rest} : Goes cores phases op after → Planned cores waited after rest →
      Planned cores waited phases (op::rest)
  | again {phases rest} (core : Nat) (thread : Thread) : waited = true → phases thread = .joined core →
      Planned cores waited phases (.join thread::rest)

structure Matches (state : State) (phases : Thread → Phase) : Prop where
  cores : state.cpuThreads.length = state.cpuSet.length
  distinct : state.cpuSet.Nodup
  bound : ∀ thread core, (phases thread).core = some core → core < state.cpuThreads.length
  listed : ∀ core thread, core < state.cpuThreads.length →
    (state.list core).count thread = if (phases thread).core = some core then 1 else 0
  fits : ∀ thread, (phases thread).Fits state.cpuSet (state.objects thread)

section Steps

variable {state : State} {phases next : Thread → Phase} {op : Op} {thread : Thread} {core : Nat}

theorem cpuToIdx_eq (distinct : state.cpuSet.Nodup) {cpu : Nat} (found : state.cpuSet[core]? = some cpu) :
    state.cpuToIdx cpu = some core := by
  have unique (i : Nat) : state.cpuSet[i]? = some cpu ↔ i = core := by
    constructor
    · intro other
      obtain ⟨small,_⟩ := List.getElem?_eq_some_iff.mp other
      exact (List.getElem?_inj small distinct).mp (other.trans found.symm)
    · rintro rfl
      exact found
  have fold (rounds : Nat) : (List.range rounds).foldl
      (fun found i => if state.cpuSet[i]? = some cpu then some i else found) none =
        if core < rounds then some core else none := by
    induction rounds with
    | zero => rfl
    | succ rounds ih =>
      rw [List.range_succ,List.foldl_append,ih]
      simp only [List.foldl_cons,List.foldl_nil,unique]
      split
      next same => rw [if_pos (by omega),same]
      next different =>
        by_cases below : core < rounds
        · rw [if_pos below,if_pos (by omega)]
        · rw [if_neg below,if_neg (by omega)]
  unfold State.cpuToIdx
  rw [fold,if_pos (List.getElem?_eq_some_iff.mp found).1]

@[simp] theorem list_setObject (object : ThreadBase) : (state.setObject thread object).list core = state.list core := rfl

theorem list_setList {other : Nat} (threads : List Thread) (bound : core < state.cpuThreads.length) :
    (state.setList core threads).list other = if other = core then threads else state.list other := by
  unfold State.list State.setList
  dsimp only
  split
  next same => rw [same,List.getD_eq_getElem?_getD,List.getElem?_set_self bound]; rfl
  next different => rw [List.getD_eq_getElem?_getD,List.getElem?_set_ne (Ne.symm different),List.getD_eq_getElem?_getD]

theorem setList_large (threads : List Thread) (large : ¬ core < state.cpuThreads.length) :
    state.setList core threads = state := by
  unfold State.setList
  rw [List.set_eq_of_length_le (Nat.le_of_not_lt large)]

theorem list_large (large : ¬ core < state.cpuThreads.length) : state.list core = [] := by
  unfold State.list
  rw [List.getD_eq_getElem?_getD,List.getElem?_eq_none (Nat.le_of_not_lt large)]
  rfl

theorem length_setList (threads : List Thread) : (state.setList core threads).cpuThreads.length = state.cpuThreads.length :=
  List.length_set

theorem Matches.setObject (fit : Matches state phases) {phase : Phase} (same : phase.core = (phases thread).core)
    {object : ThreadBase} (fits : phase.Fits state.cpuSet object) :
    Matches (state.setObject thread object) (Function.update phases thread phase) := by
  have core_ (other : Thread) : (Function.update phases thread phase other).core = (phases other).core := by
    by_cases equal : other = thread
    · rw [equal,Function.update_self,same]
    · rw [Function.update_of_ne equal]
  constructor
  · exact fit.cores
  · exact fit.distinct
  · intro other core at_
    rw [core_] at at_
    exact fit.bound other core at_
  · intro core other bound
    rw [core_,list_setObject]
    exact fit.listed core other bound
  · intro other
    unfold State.setObject
    dsimp only
    by_cases equal : other = thread
    · rw [equal,Function.update_self,Function.update_self]
      exact fits
    · rw [Function.update_of_ne equal,Function.update_of_ne equal]
      exact fit.fits other

theorem Matches.setList (fit : Matches state phases) {threads : List Thread} (bound : core < state.cpuThreads.length)
    (stays : ∀ thread, next thread = phases thread ∨ (next thread).core ∈ [none,some core] ∧
      (phases thread).core ∈ [none,some core] ∧ (next thread).Fits state.cpuSet (state.objects thread))
    (counted : ∀ thread, threads.count thread = if (next thread).core = some core then 1 else 0) :
    Matches (state.setList core threads) next := by
  constructor
  · rw [length_setList]
    exact fit.cores
  · exact fit.distinct
  · intro thread other at_
    rw [length_setList]
    obtain same | ⟨inside,_,_⟩ := stays thread
    · rw [same] at at_
      exact fit.bound thread other at_
    · rw [at_] at inside
      obtain rfl : other = core := by simpa using inside
      exact bound
  · intro other thread small
    rw [length_setList] at small
    rw [list_setList threads bound]
    by_cases same : other = core
    · rw [if_pos same,same]
      exact counted thread
    · rw [if_neg same,fit.listed other thread small]
      obtain equal | ⟨inside,before,_⟩ := stays thread
      · rw [equal]
      · have away : (next thread).core ≠ some other := by
          intro at_
          rw [at_] at inside
          exact same (by simpa using inside)
        have away' : (phases thread).core ≠ some other := by
          intro at_
          rw [at_] at before
          exact same (by simpa using before)
        rw [if_neg away,if_neg away']
  · intro thread
    obtain same | ⟨_,_,fits⟩ := stays thread
    · rw [same]
      exact fit.fits thread
    · exact fits

theorem apply_remove (found : state.coreOf thread = some core) :
    (Op.remove thread).apply state = state.setList core ((state.list core).filter (· ≠ thread)) := by
  dsimp only [Op.apply]
  rw [found]

theorem Matches.coreOf (fit : Matches state phases) (at_ : (phases thread).core = some core)
    (cpuid : (state.objects thread).cpuid = state.cpuSet[core]?) : state.coreOf thread = some core := by
  have bound := fit.bound thread core at_
  rw [fit.cores] at bound
  have found : state.cpuSet[core]? = some (state.cpuSet.get ⟨core,bound⟩) := List.getElem?_eq_getElem bound
  unfold State.coreOf
  rw [cpuid,found]
  exact cpuToIdx_eq fit.distinct found

theorem manages_of_mem (member : thread ∈ state.list core) : state.managesThread thread = true := by
  have bound : core < state.cpuThreads.length := by
    by_contra large
    rw [list_large large] at member
    cases member
  refine List.any_eq_true.mpr ⟨state.list core,?_,List.contains_iff_mem.mpr member⟩
  unfold State.list
  rw [List.getD_eq_getElem?_getD,List.getElem?_eq_getElem bound]
  exact List.getElem_mem bound

theorem Matches.manages (fit : Matches state phases) (at_ : (phases thread).core = some core) :
    state.managesThread thread = true := by
  have bound := fit.bound thread core at_
  have counted := fit.listed core thread bound
  rw [if_pos at_] at counted
  have positive : 0 < (state.list core).count thread := by omega
  exact manages_of_mem (List.count_pos_iff.mp positive)

theorem Matches.holds (fit : Matches state phases) (goes : Goes state.cpuThreads.length phases op next)
    (other : ∀ thread, op = .join thread → state.caller ≠ some thread) : op.Holds state := by
  cases goes with
  | pushBack core thread fresh bound => exact bound
  | associate core thread pushed =>
    have fits := fit.fits thread
    rw [pushed] at fits
    exact fits.1
  | start core thread associated =>
    have fits := fit.fits thread
    rw [associated] at fits
    exact fits.1
  | check core thread at_ =>
    have fits := fit.fits thread
    obtain live | joined := at_
    · rw [live] at fits
      have inside : (phases thread).core = some core := congrArg Phase.core live
      exact ⟨fit.manages inside,by rw [fit.coreOf inside fits.2]; rfl⟩
    · rw [joined] at fits
      have inside : (phases thread).core = some core := congrArg Phase.core joined
      exact ⟨fit.manages inside,by rw [fit.coreOf inside fits.2.2]; rfl⟩
  | join core thread live =>
    have fits := fit.fits thread
    rw [live] at fits
    have other := other thread rfl
    obtain ⟨⟨running,started | inside⟩ | ⟨terminated,ended⟩,_⟩ := fits
    · exact ⟨by simp [running],by simp [started],other⟩
    · exact ⟨by simp [running],by simp [inside],other⟩
    · exact ⟨by simp [terminated],by simp [ended],other⟩
  | release core thread joined =>
    have fits := fit.fits thread
    rw [joined] at fits
    exact fits.1
  | remove => trivial
  | clear => trivial

theorem Matches.apply (fit : Matches state phases) (goes : Goes state.cpuThreads.length phases op next)
    (ready : op.waits state = false) : Matches (op.apply state) next := by
  cases goes with
  | pushBack core thread fresh bound =>
    have absent := fit.listed core thread bound
    rw [fresh] at absent
    refine fit.setList bound ?_ ?_
    · intro other
      by_cases equal : other = thread
      · subst equal
        rw [Function.update_self]
        have fits := fit.fits other
        rw [fresh] at fits
        exact .inr ⟨by simp [Phase.core],by rw [fresh]; simp [Phase.core],fits⟩
      · exact .inl (Function.update_of_ne equal _ _)
    · intro other
      rw [List.count_append,List.count_singleton]
      by_cases equal : other = thread
      · subst equal
        rw [Function.update_self,absent]
        simp [Phase.core]
      · have away : ¬ (thread == other) = true := by simpa using Ne.symm equal
        rw [Function.update_of_ne equal,if_neg away,fit.listed core other bound]
        rfl
  | associate core thread pushed =>
    have fits := fit.fits thread
    rw [pushed] at fits
    exact fit.setObject (by rw [pushed]; rfl) ⟨rfl,fits.2,rfl⟩
  | start core thread associated =>
    have fits := fit.fits thread
    rw [associated] at fits
    exact fit.setObject (by rw [associated]; rfl) ⟨.inl ⟨rfl,.inl rfl⟩,fits.2.2⟩
  | check => exact fit
  | join core thread live =>
    have fits := fit.fits thread
    rw [live] at fits
    have ended : (state.objects thread).handle = .ended := by simpa [Op.waits] using ready
    obtain ⟨⟨_,started | inside⟩ | ⟨terminated,_⟩,cpuid⟩ := fits
    · rw [ended] at started
      cases started
    · rw [ended] at inside
      cases inside
    · exact fit.setObject (by rw [live]; rfl) ⟨terminated,rfl,cpuid⟩
  | release core thread joined =>
    have fits := fit.fits thread
    rw [joined] at fits
    exact fit.setObject (by rw [joined]; rfl) ⟨rfl,fits.2⟩
  | remove core thread released =>
    have fits := fit.fits thread
    rw [released] at fits
    have inside : (phases thread).core = some core := congrArg Phase.core released
    have bound := fit.bound thread core inside
    rw [apply_remove (fit.coreOf inside fits.2.2)]
    refine fit.setList bound ?_ ?_
    · intro other
      by_cases equal : other = thread
      · subst equal
        rw [Function.update_self]
        exact .inr ⟨by simp [Phase.core],by simp [inside],fits.1,fits.2.1⟩
      · exact .inl (Function.update_of_ne equal _ _)
    · intro other
      by_cases equal : other = thread
      · subst equal
        rw [Function.update_self,if_neg (by simp [Phase.core])]
        apply List.count_eq_zero_of_not_mem
        simp
      · rw [Function.update_of_ne equal,List.count_filter (by simpa using equal)]
        exact fit.listed core other bound
  | clear core released others =>
    by_cases bound : core < state.cpuThreads.length
    · refine fit.setList bound ?_ ?_
      · intro thread
        by_cases inside : (phases thread).core = some core
        · obtain ⟨before,after⟩ := released thread inside
          have fits := fit.fits thread
          rw [before] at fits
          rw [after]
          exact .inr ⟨by simp [Phase.core],by simp [inside],fits.1,fits.2.1⟩
        · exact .inl (others thread inside)
      · intro thread
        rw [List.count_nil]
        by_cases inside : (phases thread).core = some core
        · rw [(released thread inside).2]
          rfl
        · rw [others thread inside,if_neg inside]
    · have same : next = phases := by
        funext thread
        exact others thread fun inside => bound (fit.bound thread core inside)
      have still : (Op.clear core).apply state = state := setList_large [] bound
      rw [same,still]
      exact fit

theorem length_apply : (op.apply state).cpuThreads.length = state.cpuThreads.length := by
  cases op with
  | remove thread =>
    unfold Op.apply
    dsimp only
    split
    · rfl
    · exact length_setList _
  | pushBack => exact length_setList _
  | clear => exact length_setList _
  | _ => rfl

end Steps

/-- What the callers of the manager see to. -/
def Allowed (state : State) (caller : Option Thread) : Call → Prop
  | .registerThread thread core => (state.objects thread).state = .created ∧ core < state.cpuThreads.length
  | .deregisterThread thread => state.managesThread thread = true ∧ caller ≠ some thread
  | .deregisterAll => caller = none
  | .waitForAll => caller = none

section Plans

variable {state : State} {phases : Thread → Phase} {waited : Bool} {thread : Thread} {core cores : Nat}

theorem settled_update (settled : ∀ thread, (phases thread).Settled waited) {phase : Phase} (here : phase.Settled waited)
    (other : Thread) : (Function.update phases thread phase other).Settled waited := by
  by_cases equal : other = thread
  · rw [equal,Function.update_self]
    exact here
  · rw [Function.update_of_ne equal]
    exact settled other

theorem settled_cases (settled : (phases thread).Settled waited) (at_ : (phases thread).core = some core) :
    phases thread = .live core ∨ waited = true ∧ phases thread = .joined core := by
  cases phase : phases thread <;> rw [phase] at settled at_ <;> cases at_
  · exact settled.elim
  · exact settled.elim
  · exact .inl rfl
  · exact .inr ⟨settled,rfl⟩
  · exact settled.elim

theorem planned_register (settled : ∀ thread, (phases thread).Settled waited) (fresh : phases thread = .fresh)
    (bound : core < cores) :
    Planned cores waited phases [.pushBack core thread,.associate core thread,.start thread] := by
  refine .next (.pushBack core thread fresh bound) (.next (.associate core thread (Function.update_self ..))
    (.next (.start core thread (Function.update_self ..)) (.done ?_)))
  rw [Function.update_idem,Function.update_idem]
  exact settled_update settled trivial

theorem planned_deregister (settled : ∀ thread, (phases thread).Settled waited) (at_ : (phases thread).core = some core) :
    Planned cores waited phases [.check thread,.join thread,.release thread,.remove thread] := by
  obtain live | ⟨waited,joined⟩ := settled_cases (settled thread) at_
  · refine .next (.check core thread (.inl live)) (.next (.join core thread live)
      (.next (.release core thread (Function.update_self ..)) (.next (.remove core thread (Function.update_self ..))
        (.done ?_))))
    rw [Function.update_idem,Function.update_idem]
    exact settled_update settled trivial
  · exact .next (.check core thread (.inr joined)) (.again core thread waited joined)

theorem planned_joins (threads : List Thread) (settled : ∀ thread, (phases thread).Settled waited) (waited_ : waited = true)
    (listed : ∀ thread ∈ threads, ∃ core, (phases thread).core = some core) :
    Planned cores waited phases (threads.map .join) := by
  induction threads generalizing phases with
  | nil => exact .done settled
  | cons first rest ih =>
    obtain ⟨core,at_⟩ := listed first List.mem_cons_self
    obtain live | ⟨_,joined⟩ := settled_cases (settled first) at_
    · refine .next (.join core first live) (ih (settled_update settled waited_) ?_)
      intro thread member
      by_cases equal : thread = first
      · rw [equal,Function.update_self]
        exact ⟨core,rfl⟩
      · rw [Function.update_of_ne equal]
        exact listed thread (List.mem_cons_of_mem _ member)
    · exact .again core first waited_ joined

theorem planned_list (threads : List Thread) (rest : List Op) (distinct : threads.Nodup)
    (settled : ∀ thread, thread ∈ threads → (phases thread).Settled waited)
    (listed : ∀ thread ∈ threads, (phases thread).core = some core)
    (after : ∀ next : Thread → Phase, (∀ thread ∈ threads, next thread = .released core) →
      (∀ thread, thread ∉ threads → next thread = phases thread) → Planned cores waited next rest) :
    Planned cores waited phases ((threads.flatMap fun thread => [.join thread,.release thread]) ++ rest) := by
  induction threads generalizing phases with
  | nil => exact after phases (fun _ member => absurd member List.not_mem_nil) fun _ _ => rfl
  | cons first threads ih =>
    obtain ⟨absent,distinct⟩ := List.nodup_cons.mp distinct
    obtain live | ⟨waited,joined⟩ := settled_cases (settled first List.mem_cons_self) (listed first List.mem_cons_self)
    · refine .next (.join core first live) (.next (.release core first (Function.update_self ..)) ?_)
      rw [Function.update_idem]
      have other {thread : Thread} (member : thread ∈ threads) :
          Function.update phases first (.released core) thread = phases thread := by
        apply Function.update_of_ne
        rintro rfl
        exact absent member
      apply ih distinct
      · intro thread member
        rw [other member]
        exact settled thread (List.mem_cons_of_mem _ member)
      · intro thread member
        rw [other member]
        exact listed thread (List.mem_cons_of_mem _ member)
      · intro next released same
        apply after next
        · intro thread member
          obtain rfl | inside := List.mem_cons.mp member
          · rw [same thread absent,Function.update_self]
          · exact released thread inside
        · intro thread away
          rw [List.mem_cons,not_or] at away
          rw [same thread away.2,Function.update_of_ne away.1]
    · exact .again core first waited joined

theorem planned_clear (lists : Nat → List Thread) (rest : List Nat) (distinct : rest.Nodup)
    (settled : ∀ thread, (phases thread).Settled waited)
    (once : ∀ core ∈ rest, (lists core).Nodup)
    (listed : ∀ core ∈ rest, ∀ thread, thread ∈ lists core ↔ (phases thread).core = some core) :
    Planned cores waited phases (rest.flatMap fun core =>
      ((lists core).flatMap fun thread => [.join thread,.release thread]) ++ [.clear core]) := by
  induction rest generalizing phases with
  | nil => exact .done settled
  | cons core rest ih =>
    obtain ⟨absent,distinct⟩ := List.nodup_cons.mp distinct
    have here := listed core List.mem_cons_self
    rw [List.flatMap_cons,List.append_assoc]
    apply planned_list (lists core) _ (once core List.mem_cons_self) (fun thread _ => settled thread)
      fun thread member => (here thread).mp member
    intro next released same
    let cleared (thread : Thread) : Phase := if thread ∈ lists core then .gone else phases thread
    have away {thread : Thread} (outside : thread ∉ lists core) : cleared thread = phases thread := if_neg outside
    have goes : Goes cores next (.clear core) cleared := by
      constructor
      · intro thread inside
        have member : thread ∈ lists core := by
          by_contra outside
          rw [same thread outside] at inside
          exact outside ((here thread).mpr inside)
        exact ⟨released thread member,if_pos member⟩
      · intro thread inside
        have outside : thread ∉ lists core := by
          intro member
          rw [released thread member] at inside
          exact inside rfl
        rw [away outside,same thread outside]
    refine .next goes (ih distinct ?_ ?_ ?_)
    · intro thread
      by_cases member : thread ∈ lists core
      · rw [show cleared thread = .gone from if_pos member]
        trivial
      · rw [away member]
        exact settled thread
    · exact fun other member => once other (List.mem_cons_of_mem _ member)
    · intro other member thread
      rw [listed other (List.mem_cons_of_mem _ member) thread]
      by_cases inside : thread ∈ lists core
      · have at_ := (here thread).mp inside
        rw [show cleared thread = .gone from if_pos inside,at_]
        refine iff_of_false ?_ (by simp [Phase.core])
        intro equal
        cases equal
        exact absent member
      · rw [away inside]

end Plans

def Inv (waited : Bool) (state : State) : Prop :=
  ∃ phases, Matches state phases ∧ Planned state.cpuThreads.length waited phases state.work ∧
    ∀ thread, .join thread ∈ state.work → state.caller ≠ some thread

section Invariant

variable {state next : State} {phases : Thread → Phase} {waited : Bool} {thread : Thread} {core : Nat} {action : Action}

theorem Planned.settled (planned : Planned core waited phases []) (thread : Thread) : (phases thread).Settled waited := by
  cases planned with
  | done settled => exact settled thread

theorem mem_list (fit : Matches state phases) (bound : core < state.cpuThreads.length) :
    thread ∈ state.list core ↔ (phases thread).core = some core := by
  have counted := fit.listed core thread bound
  rw [← List.count_pos_iff,counted]
  split
  next at_ => exact iff_of_true Nat.one_pos at_
  next away => exact iff_of_false (Nat.lt_irrefl 0) away

theorem nodup_list (fit : Matches state phases) (bound : core < state.cpuThreads.length) : (state.list core).Nodup := by
  rw [List.nodup_iff_count_le_one]
  intro thread
  rw [fit.listed core thread bound]
  split
  · exact Nat.le_refl 1
  · exact Nat.zero_le 1

theorem manages_iff (fit : Matches state phases) : state.managesThread thread = true ↔ ∃ core, (phases thread).core = some core := by
  constructor
  · intro manages
    obtain ⟨threads,listed,member⟩ := List.any_eq_true.mp manages
    obtain ⟨core,bound,rfl⟩ := List.getElem_of_mem listed
    refine ⟨core,(mem_list fit bound).mp ?_⟩
    unfold State.list
    rw [List.getD_eq_getElem?_getD,List.getElem?_eq_getElem bound]
    exact List.contains_iff_mem.mp member
  · rintro ⟨core,at_⟩
    exact fit.manages at_

theorem live_of_handle (fit : Matches state phases)
    (handle : (state.objects thread).handle = .started ∨ (state.objects thread).handle = .inside) :
    ∃ core, phases thread = .live core := by
  have fits := fit.fits thread
  have not_ (other : Handle) (different : other ≠ .started ∧ other ≠ .inside) : (state.objects thread).handle ≠ other := by
    rintro rfl
    exact handle.elim different.1 different.2
  cases phase : phases thread with
  | live core => exact ⟨core,rfl⟩
  | fresh => rw [phase] at fits; exact absurd fits.2 (not_ .absent (by decide))
  | pushed => rw [phase] at fits; exact absurd fits.2 (not_ .absent (by decide))
  | associated => rw [phase] at fits; exact absurd fits.2.1 (not_ .absent (by decide))
  | joined => rw [phase] at fits; exact absurd fits.2.1 (not_ .joined (by decide))
  | released => rw [phase] at fits; exact absurd fits.2.1 (not_ .joined (by decide))
  | gone => rw [phase] at fits; exact absurd fits.2 (not_ .joined (by decide))

theorem findCore_lt (some_ : 0 < state.cpuThreads.length) : state.findCore < state.cpuThreads.length := by
  have fold (indices : List Nat) (core : Nat) (small : core < state.cpuThreads.length)
      (all : ∀ i ∈ indices, i < state.cpuThreads.length) :
      indices.foldl (fun core i => if (state.list i).length < (state.list core).length then i else core) core <
        state.cpuThreads.length := by
    induction indices generalizing core with
    | nil => exact small
    | cons first rest ih =>
      apply ih
      · dsimp only
        split
        · exact all first List.mem_cons_self
        · exact small
      · exact fun i member => all i (List.mem_cons_of_mem _ member)
  exact fold _ 0 some_ fun i member => List.mem_range.mp member

theorem planned_call (fit : Matches state phases) (settled : ∀ thread, (phases thread).Settled waited)
    (some_ : 0 < state.cpuThreads.length) {caller : Option Thread} {call : Call} (allowed : Allowed state caller call)
    (waits : call = .waitForAll → waited = true ∨ ∀ thread, state.managesThread thread = false) :
    Planned state.cpuThreads.length waited phases (call.work state) := by
  have threads : ∀ core ∈ List.range state.cpuThreads.length, ∀ thread,
      thread ∈ state.list core ↔ (phases thread).core = some core :=
    fun core member thread => mem_list fit (List.mem_range.mp member)
  cases call with
  | registerThread thread core =>
    obtain ⟨created,below⟩ := allowed
    have fresh : phases thread = .fresh := by
      have fits := fit.fits thread
      have settled := settled thread
      cases phase : phases thread with
      | fresh => rfl
      | live => rw [phase] at fits; obtain ⟨⟨other,_⟩ | ⟨other,_⟩,_⟩ := fits <;> rw [created] at other <;> cases other
      | joined => rw [phase] at fits; have other := fits.1; rw [created] at other; cases other
      | gone => rw [phase] at fits; have other := fits.1; rw [created] at other; cases other
      | _ => rw [phase] at settled; exact settled.elim
    apply planned_register settled fresh
    split
    · exact findCore_lt some_
    next positive => omega
  | deregisterThread thread =>
    obtain ⟨core,at_⟩ := (manages_iff fit).mp allowed.1
    exact planned_deregister settled at_
  | deregisterAll =>
    exact planned_clear state.list _ List.nodup_range settled
      (fun core member => nodup_list fit (List.mem_range.mp member)) threads
  | waitForAll =>
    have work : Call.work state .waitForAll =
        ((List.range state.cpuThreads.length).flatMap state.list).map .join := by
      rw [List.map_flatMap]
      rfl
    rw [work]
    obtain waited | nobody := waits rfl
    · apply planned_joins _ settled waited
      intro thread member
      obtain ⟨core,inside,member⟩ := List.mem_flatMap.mp member
      exact ⟨core,(threads core inside thread).mp member⟩
    · have nothing : (List.range state.cpuThreads.length).flatMap state.list = [] := by
        rw [List.eq_nil_iff_forall_not_mem]
        intro thread member
        obtain ⟨core,inside,member⟩ := List.mem_flatMap.mp member
        have manages := (manages_iff fit).mpr ⟨core,(threads core inside thread).mp member⟩
        rw [nobody thread] at manages
        cases manages
      rw [nothing]
      exact .done settled

theorem Inv.start {cpuSet : List Nat} (distinct : cpuSet.Nodup) (waited : Bool) : Inv waited (.start cpuSet) := by
  refine ⟨fun _ => .fresh,?_,.done fun _ => trivial,fun _ member => absurd member List.not_mem_nil⟩
  constructor
  · exact List.length_map _
  · exact distinct
  · intro thread core at_
    cases at_
  · intro core thread bound
    have empty : (State.start cpuSet).list core = [] := by
      change core < (cpuSet.map fun _ => ([] : List Thread)).length at bound
      unfold State.list State.start
      dsimp only
      rw [List.getD_eq_getElem?_getD,List.getElem?_eq_getElem bound,List.getElem_map]
      rfl
    rw [empty]
    rfl
  · exact fun _ => ⟨rfl,rfl⟩

theorem call_some {caller : Option Thread} {call : Call} (stepped : step state (.call caller call) = some next) :
    state.callable caller = true ∧ next = {state with caller := caller, work := call.work state} := by
  unfold step at stepped
  dsimp only at stepped
  split at stepped
  next callable => exact ⟨callable,(Option.some.inj stepped).symm⟩
  next => cases stepped

theorem advance_some (stepped : step state .advance = some next) :
    ∃ op rest, state.work = op::rest ∧ op.Holds state ∧ op.waits state = false ∧
      next = {op.apply state with work := rest} := by
  unfold step at stepped
  dsimp only at stepped
  split at stepped
  · cases stepped
  next op rest work =>
    split at stepped
    next ready => exact ⟨op,rest,work,ready.1,ready.2,(Option.some.inj stepped).symm⟩
    next => cases stepped

theorem enter_some (stepped : step state (.enter thread) = some next) :
    (state.objects thread).handle = .started ∧
      next = state.setObject thread {state.objects thread with handle := .inside} := by
  unfold step at stepped
  dsimp only at stepped
  split at stepped
  next ready => exact ⟨ready.1,(Option.some.inj stepped).symm⟩
  next => cases stepped

theorem leave_some (stepped : step state (.leave thread) = some next) :
    (state.objects thread).handle = .inside ∧
      next = state.setObject thread {state.objects thread with state := .terminated, handle := .ended} := by
  unfold step at stepped
  dsimp only at stepped
  split at stepped
  next ready => exact ⟨ready.1,(Option.some.inj stepped).symm⟩
  next => cases stepped

theorem callable_some {caller : Option Thread} (callable : state.callable caller = true) :
    state.work = [] ∧ ∀ thread, caller = some thread → (state.objects thread).handle = .inside := by
  obtain ⟨empty,inside⟩ := (Bool.and_eq_true _ _).mp callable
  refine ⟨List.isEmpty_iff.mp empty,?_⟩
  rintro thread rfl
  exact of_decide_eq_true inside

theorem apply_fields (state : State) (op : Op) : (op.apply state).caller = state.caller ∧ (op.apply state).cpuSet = state.cpuSet := by
  cases op with
  | remove thread =>
    dsimp only [Op.apply]
    split <;> exact ⟨rfl,rfl⟩
  | _ => exact ⟨rfl,rfl⟩

theorem Inv.own (inv : Inv waited state) {object : ThreadBase}
    (handle : (state.objects thread).handle = .started ∨ (state.objects thread).handle = .inside)
    (changed : object.cpuid = (state.objects thread).cpuid ∧
      (object.state = (state.objects thread).state ∧ object.handle = .inside ∨
        object.state = .terminated ∧ object.handle = .ended)) : Inv waited (state.setObject thread object) := by
  obtain ⟨phases,fit,planned,others⟩ := inv
  obtain ⟨core,live⟩ := live_of_handle fit handle
  have fits := fit.fits thread
  rw [live] at fits
  have matches_ : Matches (state.setObject thread object) (Function.update phases thread (.live core)) := by
    apply fit.setObject (by rw [live])
    obtain ⟨cpuid,⟨same,inside⟩ | ended⟩ := changed
    · refine ⟨.inl ⟨?_,.inr inside⟩,cpuid.trans fits.2⟩
      obtain ⟨running,_⟩ | ⟨_,past⟩ := fits.1
      · exact same.trans running
      · rw [past] at handle
        exact handle.elim (fun impossible => by cases impossible) fun impossible => by cases impossible
    · exact ⟨.inr ended,cpuid.trans fits.2⟩
  rw [← live,Function.update_eq_self] at matches_
  exact ⟨phases,matches_,planned,others⟩

def Orderly (waited : Bool) (state : State) : Action → Prop
  | .call caller call => Allowed state caller call ∧
      (call = .waitForAll → waited = true ∨ ∀ thread, state.managesThread thread = false)
  | _ => True

theorem Inv.step (inv : Inv waited state) (some_ : 0 < state.cpuThreads.length) (orderly : Orderly waited state action)
    (stepped : step state action = some next) : Inv waited next := by
  cases action with
  | call caller call =>
    obtain ⟨phases,fit,planned,_⟩ := inv
    obtain ⟨callable,rfl⟩ := call_some stepped
    obtain ⟨idle,inside⟩ := callable_some callable
    rw [idle] at planned
    obtain ⟨allowed,waits⟩ := orderly
    refine ⟨phases,⟨fit.cores,fit.distinct,fit.bound,fit.listed,fit.fits⟩,
      planned_call fit planned.settled some_ allowed waits,?_⟩
    intro thread member
    cases call with
    | registerThread other core => simp [Call.work] at member
    | deregisterThread other =>
      have same : thread = other := by simpa [Call.work] using member
      rw [same]
      exact allowed.2
    | deregisterAll => rw [show caller = none from allowed]; exact fun equal => by cases equal
    | waitForAll => rw [show caller = none from allowed]; exact fun equal => by cases equal
  | advance =>
    obtain ⟨phases,fit,planned,others⟩ := inv
    obtain ⟨op,rest,work,holds,ready,rfl⟩ := advance_some stepped
    rw [work] at planned others
    obtain ⟨caller,_⟩ := apply_fields state op
    cases planned with
    | @next _ after _ _ goes planned =>
      have applied := fit.apply goes ready
      refine ⟨after,⟨applied.cores,applied.distinct,applied.bound,applied.listed,applied.fits⟩,?_,?_⟩
      · change Planned (op.apply state).cpuThreads.length waited after rest
        rw [length_apply]
        exact planned
      · intro thread member
        change (op.apply state).caller ≠ _
        rw [caller]
        exact others thread (List.mem_cons_of_mem _ member)
    | again core thread _ joined =>
      have fits := fit.fits thread
      rw [joined] at fits
      have handle := holds.2.1
      rw [fits.2.1] at handle
      exact absurd (by decide) handle
  | enter thread =>
    obtain ⟨started,rfl⟩ := enter_some stepped
    exact inv.own (.inl started) ⟨rfl,.inl ⟨rfl,rfl⟩⟩
  | leave thread =>
    obtain ⟨inside,rfl⟩ := leave_some stepped
    exact inv.own (.inr inside) ⟨rfl,.inr ⟨rfl,rfl⟩⟩

end Invariant

/-- No assertion fails, and threads are listed, pinned and joined as they should. -/
structure Sound (state : State) : Prop where
  asserts : ∀ op rest, state.work = op::rest → op.Holds state
  enters : ∀ thread, (state.objects thread).handle = .started → (state.objects thread).state = .running
  floating : ∀ thread, (state.objects thread).state = .floating → (state.objects thread).handle = .joined
  once : ∀ thread first second, thread ∈ state.list first → thread ∈ state.list second → first = second
  pinned : state.work = [] → ∀ thread core, thread ∈ state.list core → (state.objects thread).cpuid = state.cpuSet[core]?
  registered : state.work = [] → ∀ thread,
    state.managesThread thread = true ↔ (state.objects thread).handle ∉ [.absent,.joined]
  goes : state.work = [] ∨ (step state .advance).isSome ∨
    ∃ thread rest, state.work = .join thread::rest ∧ (state.objects thread).handle ∈ [.started,.inside]

section Results

variable {state next final : State} {phases : Thread → Phase} {waited : Bool} {thread : Thread} {core : Nat}
  {cpuSet : List Nat} {actions : List Action}

theorem mem_list_iff (fit : Matches state phases) : thread ∈ state.list core ↔ (phases thread).core = some core := by
  by_cases bound : core < state.cpuThreads.length
  · exact mem_list fit bound
  · refine iff_of_false ?_ fun at_ => bound (fit.bound thread core at_)
    rw [list_large bound]
    exact List.not_mem_nil

theorem Inv.sound (inv : Inv false state) : Sound state := by
  obtain ⟨phases,fit,planned,others⟩ := inv
  have asserts (op : Op) (rest : List Op) (work : state.work = op::rest) : op.Holds state := by
    rw [work] at planned others
    cases planned with
    | next goes planned =>
      apply fit.holds goes
      rintro thread rfl
      exact others thread List.mem_cons_self
    | again core thread waited => cases waited
  constructor
  · exact asserts
  · intro thread started
    obtain ⟨core,live⟩ := live_of_handle fit (.inl started)
    have fits := fit.fits thread
    rw [live] at fits
    obtain ⟨running,_⟩ | ⟨_,ended⟩ := fits.1
    · exact running
    · rw [started] at ended
      cases ended
  · intro thread floating
    have fits := fit.fits thread
    cases phase : phases thread with
    | released => rw [phase] at fits; exact fits.2.1
    | gone => rw [phase] at fits; exact fits.2
    | live =>
      rw [phase] at fits
      obtain ⟨⟨other,_⟩ | ⟨other,_⟩,_⟩ := fits <;> rw [floating] at other <;> cases other
    | _ => rw [phase] at fits; have other := fits.1; rw [floating] at other; cases other
  · intro thread first second inside also
    rw [mem_list_iff fit] at inside also
    exact Option.some.inj (inside.symm.trans also)
  · intro idle thread core member
    rw [idle] at planned
    have fits := fit.fits thread
    obtain live | ⟨waited,_⟩ := settled_cases (planned.settled thread) ((mem_list_iff fit).mp member)
    · rw [live] at fits
      exact fits.2
    · cases waited
  · intro idle thread
    rw [idle] at planned
    have fits := fit.fits thread
    have settled := planned.settled thread
    rw [manages_iff fit]
    cases phase : phases thread with
    | fresh => rw [phase] at fits; exact iff_of_false (by simp [Phase.core]) (by simp [fits.2])
    | gone => rw [phase] at fits; exact iff_of_false (by simp [Phase.core]) (by simp [fits.2])
    | live core =>
      rw [phase] at fits
      refine iff_of_true ⟨core,rfl⟩ ?_
      obtain ⟨⟨_,started | inside⟩ | ⟨_,ended⟩,_⟩ := fits
      · simp [started]
      · simp [inside]
      · simp [ended]
    | _ => rw [phase] at settled; cases settled
  · cases work : state.work with
    | nil => exact .inl rfl
    | cons op rest =>
      have holds := asserts op rest work
      by_cases ready : op.waits state = false
      · refine .inr (.inl ?_)
        simp [ThreadManager.step,work,holds,ready]
      · cases op with
        | join thread =>
          refine .inr (.inr ⟨thread,rest,rfl,?_⟩)
          have waits : (state.objects thread).handle ≠ .ended := by simpa [Op.waits] using ready
          have known := holds.2.1
          cases handle : (state.objects thread).handle <;> rw [handle] at waits known <;>
            first | decide | exact absurd (by decide) known | exact absurd rfl waits
        | _ => exact absurd rfl ready

theorem length_step {action : Action} (stepped : step state action = some next) :
    next.cpuThreads.length = state.cpuThreads.length := by
  cases action with
  | call caller call =>
    obtain ⟨_,rfl⟩ := call_some stepped
    rfl
  | advance =>
    obtain ⟨op,rest,_,_,_,rfl⟩ := advance_some stepped
    exact length_apply
  | enter thread =>
    obtain ⟨_,rfl⟩ := enter_some stepped
    rfl
  | leave thread =>
    obtain ⟨_,rfl⟩ := leave_some stepped
    rfl

theorem inv_run (distinct : cpuSet.Nodup) (some_ : cpuSet ≠ []) (orderly : Meets step (Orderly waited) (.start cpuSet) actions)
    (ran : run step (.start cpuSet) actions = some final) : Inv waited final ∧ 0 < final.cpuThreads.length := by
  have cores : 0 < (State.start cpuSet).cpuThreads.length := by
    change 0 < (cpuSet.map fun _ => ([] : List Thread)).length
    rw [List.length_map]
    exact List.length_pos_iff.mpr some_
  refine invariant_of_meets (fun state => Inv waited state ∧ 0 < state.cpuThreads.length) ?_
    ⟨.start distinct waited,cores⟩ orderly ran
  intro state action next holds orderly stepped
  refine ⟨holds.1.step holds.2 orderly stepped,?_⟩
  rw [length_step stepped]
  exact holds.2

/-- In every run in which threads are registered before they were started, deregistered
only while they are managed, by others, and not waited for by `wait_for_all`: no
assertion fails; a thread is on the list of one core, on whose CPU it runs, exactly as
long as it may still have to be joined; and a call waits only for threads that run. -/
theorem threads_sound (cpuSet : List Nat) (distinct : cpuSet.Nodup) (some_ : cpuSet ≠ []) (actions : List Action)
    (final : State) (orderly : Meets step (Orderly false) (.start cpuSet) actions)
    (ran : run step (.start cpuSet) actions = some final) : Sound final :=
  (inv_run distinct some_ orderly ran).1.sound

def twoThreads : List Action :=
  [.call none (.registerThread 0 0),.advance,.advance,.advance,.enter 0,
    .call (some 0) (.registerThread 1 (-1)),.advance,.advance,.advance,.enter 1,
    .call none (.deregisterThread 1),.advance,.leave 1,.advance,.advance,.advance,
    .call none .deregisterAll,.leave 0,.advance,.advance,.advance,.advance]

instance (state : State) (caller : Option Thread) : (call : Call) → Decidable (Allowed state caller call)
  | .registerThread thread core =>
    inferInstanceAs (Decidable ((state.objects thread).state = .created ∧ core < state.cpuThreads.length))
  | .deregisterThread thread => inferInstanceAs (Decidable (state.managesThread thread = true ∧ caller ≠ some thread))
  | .deregisterAll => inferInstanceAs (Decidable (caller = none))
  | .waitForAll => inferInstanceAs (Decidable (caller = none))

def isOrderly (state : State) : Action → Bool
  | .call _ .waitForAll => false
  | .call caller call => Allowed state caller call
  | _ => true

theorem orderly_of_isOrderly (state : State) (action : Action) (orderly : isOrderly state action = true) :
    Orderly false state action := by
  cases action with
  | call caller call =>
    cases call with
    | waitForAll => cases orderly
    | _ => exact ⟨of_decide_eq_true orderly,fun impossible => by cases impossible⟩
  | _ => trivial

theorem orderlyWaited_of_isOrderly (state : State) (action : Action) (orderly : isOrderly state action = true) :
    Orderly true state action := by
  have first := orderly_of_isOrderly state action orderly
  cases action with
  | call caller call => exact ⟨first.1,fun _ => .inl rfl⟩
  | _ => trivial

theorem threads_sound_twoThreads : ∃ final, run step (.start [4,6]) twoThreads = some final ∧
    final.work = [] ∧ Sound final := by
  have evaluated : (run step (.start [4,6]) twoThreads).any (fun final => decide (final.work = [])) = true := by decide
  obtain ⟨final,ran,idle⟩ := (Option.any_eq_true _ _).mp evaluated
  exact ⟨final,ran,of_decide_eq_true idle,threads_sound [4,6] (by decide) (by decide) twoThreads final
    (meets_of_checks isOrderly orderly_of_isOrderly (by decide)) ran⟩

end Results

def Action.isCall : Action → Bool
  | .call _ _ => true
  | _ => false

section Teardown

variable {state next final : State} {phases : Thread → Phase} {waited : Bool} {thread : Thread} {core : Nat}
  {cpuSet : List Nat} {actions : List Action} {op : Op}

theorem list_apply (away : ∀ core thread, op ≠ .pushBack core thread) (stays : op ≠ .clear core) :
    (op.apply state).list core ⊆ state.list core := by
  cases op with
  | pushBack other thread => exact absurd rfl (away other thread)
  | remove other =>
    dsimp only [Op.apply]
    split
    · exact List.Subset.refl _
    next here _ =>
      by_cases bound : here < state.cpuThreads.length
      · rw [list_setList _ bound]
        split
        next same => rw [same]; exact List.filter_subset_self _
        next => exact List.Subset.refl _
      · rw [setList_large _ bound]
        exact List.Subset.refl _
  | clear other =>
    have different : core ≠ other := fun same => stays (congrArg Op.clear same.symm)
    change (state.setList other []).list core ⊆ state.list core
    by_cases bound : other < state.cpuThreads.length
    · rw [list_setList _ bound,if_neg different]
      exact List.Subset.refl _
    · rw [setList_large _ bound]
      exact List.Subset.refl _
  | _ => exact List.Subset.refl _

structure Emptying (state : State) : Prop where
  cleared : ∀ core thread, thread ∈ state.list core → .clear core ∈ state.work
  pushes : ∀ core thread, .pushBack core thread ∉ state.work

theorem Emptying.step {action : Action} (emptying : Emptying state) (quiet : action.isCall = false)
    (stepped : step state action = some next) : Emptying next := by
  cases action with
  | call caller call => cases quiet
  | advance =>
    obtain ⟨op,rest,work,_,_,rfl⟩ := advance_some stepped
    obtain ⟨cleared,pushes⟩ := emptying
    rw [work] at cleared pushes
    constructor
    · intro core thread member
      change thread ∈ (op.apply state).list core at member
      change .clear core ∈ rest
      have away (core : Nat) (thread : Thread) : op ≠ .pushBack core thread := by
        rintro rfl
        exact pushes core thread List.mem_cons_self
      by_cases clears : op = .clear core
      · subst clears
        change thread ∈ (state.setList core []).list core at member
        by_cases bound : core < state.cpuThreads.length
        · rw [list_setList _ bound,if_pos rfl] at member
          cases member
        · rw [setList_large _ bound,list_large bound] at member
          cases member
      · obtain same | later := List.mem_cons.mp (cleared core thread (list_apply away clears member))
        · exact absurd same.symm clears
        · exact later
    · exact fun core thread member => pushes core thread (List.mem_cons_of_mem _ member)
  | enter thread =>
    obtain ⟨_,rfl⟩ := enter_some stepped
    exact ⟨emptying.cleared,emptying.pushes⟩
  | leave thread =>
    obtain ⟨_,rfl⟩ := leave_some stepped
    exact ⟨emptying.cleared,emptying.pushes⟩

theorem emptying_call (state : State) : Emptying {state with caller := none, work := Call.work state .deregisterAll} := by
  constructor
  · intro core thread member
    have bound : core < state.cpuThreads.length := by
      by_contra large
      change thread ∈ state.list core at member
      rw [list_large large] at member
      cases member
    exact List.mem_flatMap.mpr ⟨core,List.mem_range.mpr bound,List.mem_append_right _ List.mem_cons_self⟩
  · intro core thread member
    obtain ⟨other,_,inside⟩ := List.mem_flatMap.mp member
    obtain inside | inside := List.mem_append.mp inside
    · obtain ⟨thread',_,inside⟩ := List.mem_flatMap.mp inside
      simp at inside
    · simp at inside

/-- When `deregister_all` has come to its end, whatever ran before it and meanwhile, the
manager and every thread object can be destroyed: no thread is on a list, and one that
was started has ended and was joined. -/
theorem deregisterAll_empties (cpuSet : List Nat) (distinct : cpuSet.Nodup) (some_ : cpuSet ≠ [])
    (before after : List Action) (middle final : State)
    (orderly : Meets step (Orderly false) (.start cpuSet) before) (ran : run step (.start cpuSet) before = some middle)
    (alone : ∀ action ∈ after, action.isCall = false)
    (called : run step middle (.call none .deregisterAll::after) = some final) (idle : final.work = []) (thread : Thread) :
    final.managesThread thread = false ∧ ((final.objects thread).state = .created ∨
      (final.objects thread).state = .floating ∧ (final.objects thread).handle = .joined) := by
  obtain ⟨entered,stepped,ran'⟩ := run_cons_some called
  obtain ⟨inv,cores⟩ := inv_run distinct some_ orderly ran
  have start : Inv false entered ∧ 0 < entered.cpuThreads.length ∧ Emptying entered := by
    have allowed : Orderly false middle (.call none .deregisterAll) := ⟨rfl,fun impossible => by cases impossible⟩
    refine ⟨inv.step cores allowed stepped,?_,?_⟩
    · rw [length_step stepped]
      exact cores
    · obtain ⟨_,rfl⟩ := call_some stepped
      exact emptying_call _
  have quiet : Meets step (fun _ action => action.isCall = false) entered after :=
    meets_of_forall fun action member _ => alone action member
  have kept : Inv false final ∧ 0 < final.cpuThreads.length ∧ Emptying final := by
    refine invariant_of_meets (fun state => Inv false state ∧ 0 < state.cpuThreads.length ∧ Emptying state) ?_ start quiet ran'
    rintro state action next ⟨inv,cores,emptying⟩ quiet stepped
    refine ⟨inv.step cores ?_ stepped,by rw [length_step stepped]; exact cores,emptying.step quiet stepped⟩
    cases action <;> trivial
  obtain ⟨⟨phases,fit,planned,_⟩,_,emptying⟩ := kept
  rw [idle] at planned
  have empty (core : Nat) : (phases thread).core ≠ some core := by
    intro at_
    have later := emptying.cleared core thread ((mem_list_iff fit).mpr at_)
    rw [idle] at later
    cases later
  have fits := fit.fits thread
  have settled := planned.settled thread
  constructor
  · rw [Bool.eq_false_iff]
    intro manages
    obtain ⟨core,at_⟩ := (manages_iff fit).mp manages
    exact empty core at_
  · cases phase : phases thread with
    | fresh => rw [phase] at fits; exact .inl fits.1
    | gone => rw [phase] at fits; exact .inr fits
    | live core => exact absurd (congrArg Phase.core phase) (empty core)
    | _ => rw [phase] at settled; cases settled

theorem deregisterAll_empties_twoThreads : ∃ middle final,
    run step (.start [4,6]) (twoThreads.take 16) = some middle ∧
    run step middle (twoThreads.drop 16) = some final ∧ middle.managesThread 0 = true ∧
    final.managesThread 0 = false ∧ ((final.objects 0).state = .created ∨
      (final.objects 0).state = .floating ∧ (final.objects 0).handle = .joined) := by
  have evaluated : ((run step (.start [4,6]) (twoThreads.take 16)).bind fun middle =>
      if middle.managesThread 0 then run step middle (twoThreads.drop 16) else none).any
        (fun final => decide (final.work = [])) = true := by decide
  obtain ⟨final,ran,idle⟩ := (Option.any_eq_true _ _).mp evaluated
  obtain ⟨middle,ran,rest⟩ := Option.bind_eq_some_iff.mp ran
  split at rest
  next manages =>
    exact ⟨middle,final,ran,rest,manages,deregisterAll_empties [4,6] (by decide) (by decide) (twoThreads.take 16)
      (twoThreads.drop 17) middle final (meets_of_checks isOrderly orderly_of_isOrderly (by decide)) ran (by decide) rest
      (of_decide_eq_true idle) 0⟩
  next => cases rest

def JoinsFirst (thread : Thread) (core : Nat) : List Op → Prop
  | [] => True
  | .join other::rest => other = thread ∨ JoinsFirst thread core rest
  | .remove other::rest => other ≠ thread ∧ JoinsFirst thread core rest
  | .clear other::rest => other ≠ core ∧ JoinsFirst thread core rest
  | _::rest => JoinsFirst thread core rest

structure Stuck (thread : Thread) (core : Nat) (state : State) : Prop where
  listed : thread ∈ state.list core
  past : (state.objects thread).state ∈ [.terminated,.floating]
  joined : (state.objects thread).handle = .joined
  first : JoinsFirst thread core state.work

theorem joinsFirst_list {threads : List Thread} {rest : List Op} (first : thread ∈ threads ∨ JoinsFirst thread core rest) :
    JoinsFirst thread core ((threads.flatMap fun thread => [.join thread,.release thread]) ++ rest) := by
  induction threads with
  | nil =>
    obtain member | first := first
    · cases member
    · exact first
  | cons other threads ih =>
    obtain member | first := first
    · obtain rfl | inside := List.mem_cons.mp member
      · exact .inl rfl
      · exact .inr (ih (.inl inside))
    · exact .inr (ih (.inr first))

theorem joinsFirst_joins (threads : List Thread) : JoinsFirst thread core (threads.map .join) := by
  induction threads with
  | nil => trivial
  | cons other threads ih => exact .inr ih

theorem joinsFirst_call (listed : thread ∈ state.list core) (call : Call) : JoinsFirst thread core (call.work state) := by
  cases call with
  | registerThread => trivial
  | deregisterThread other =>
    by_cases same : other = thread
    · exact .inl same
    · exact .inr ⟨same,trivial⟩
  | deregisterAll =>
    have cores (indices : List Nat) : JoinsFirst thread core (indices.flatMap fun core =>
        ((state.list core).flatMap fun thread => [.join thread,.release thread]) ++ [.clear core]) := by
      induction indices with
      | nil => trivial
      | cons here indices ih =>
        rw [List.flatMap_cons,List.append_assoc]
        apply joinsFirst_list
        by_cases same : here = core
        · exact .inl (same ▸ listed)
        · exact .inr ⟨same,ih⟩
    exact cores _
  | waitForAll =>
    have work : Call.work state .waitForAll =
        ((List.range state.cpuThreads.length).flatMap state.list).map .join := by
      rw [List.map_flatMap]
      rfl
    rw [work]
    exact joinsFirst_joins _

theorem Stuck.step {action : Action} (stuck : Stuck thread core state) (stepped : step state action = some next) :
    Stuck thread core next := by
  have own {other : Thread} {object : ThreadBase} (different : other ≠ thread) :
      Stuck thread core (state.setObject other object) := by
    have same : (state.setObject other object).objects thread = state.objects thread :=
      Function.update_of_ne (Ne.symm different) _ _
    exact ⟨stuck.listed,by rw [same]; exact stuck.past,by rw [same]; exact stuck.joined,stuck.first⟩
  have running {other : Thread} (handle : (state.objects other).handle ≠ .joined) : other ≠ thread := by
    rintro rfl
    exact handle stuck.joined
  cases action with
  | call caller call =>
    obtain ⟨_,rfl⟩ := call_some stepped
    exact ⟨stuck.listed,stuck.past,stuck.joined,joinsFirst_call stuck.listed call⟩
  | advance =>
    obtain ⟨op,rest,work,holds,_,rfl⟩ := advance_some stepped
    have first := stuck.first
    rw [work] at first
    have set {other : Thread} {object : ThreadBase} (different : other ≠ thread) (first : JoinsFirst thread core rest) :
        Stuck thread core {state.setObject other object with work := rest} := by
      have kept : Stuck thread core (state.setObject other object) := own different
      exact ⟨kept.listed,kept.past,kept.joined,first⟩
    have other {thread' : Thread} (earlier : (state.objects thread').state ∈ [.created,.associated]) : thread' ≠ thread := by
      rintro rfl
      have past := stuck.past
      cases now : (state.objects thread').state <;> rw [now] at earlier past <;>
        first | exact absurd earlier (by decide) | exact absurd past (by decide)
    cases op with
    | pushBack here pushed =>
      refine ⟨?_,stuck.past,stuck.joined,first⟩
      change thread ∈ (state.setList here (state.list here ++ [pushed])).list core
      rw [list_setList _ holds]
      split
      next same => rw [← same]; exact List.mem_append_left _ stuck.listed
      next => exact stuck.listed
    | associate here started =>
      exact set (other (by rw [show (state.objects started).state = .created from holds]; decide)) first
    | start started =>
      exact set (other (by rw [show (state.objects started).state = .associated from holds]; decide)) first
    | check => exact ⟨stuck.listed,stuck.past,stuck.joined,first⟩
    | join joins =>
      have different : joins ≠ thread := by
        apply running
        intro already
        have handle := holds.2.1
        rw [already] at handle
        exact handle (by decide)
      exact set different (first.resolve_left different)
    | release released =>
      by_cases same : released = thread
      · subst same
        refine ⟨stuck.listed,?_,?_,first⟩
        · change (Function.update state.objects released _ released).state ∈ _
          rw [Function.update_self]
          exact List.mem_cons_of_mem _ List.mem_cons_self
        · change (Function.update state.objects released _ released).handle = _
          rw [Function.update_self]
          exact stuck.joined
      · exact set same first
    | remove removed =>
      obtain ⟨different,first⟩ := first
      cases at_ : state.coreOf removed with
      | none =>
        have still : (Op.remove removed).apply state = state := by
          dsimp only [Op.apply]
          rw [at_]
        rw [still]
        exact ⟨stuck.listed,stuck.past,stuck.joined,first⟩
      | some here =>
        rw [apply_remove at_]
        refine ⟨?_,stuck.past,stuck.joined,first⟩
        change thread ∈ (state.setList here _).list core
        by_cases bound : here < state.cpuThreads.length
        · rw [list_setList _ bound]
          split
          next same =>
            rw [← same]
            exact List.mem_filter.mpr ⟨stuck.listed,by simpa using Ne.symm different⟩
          next => exact stuck.listed
        · rw [setList_large _ bound]
          exact stuck.listed
    | clear here =>
      obtain ⟨different,first⟩ := first
      refine ⟨?_,stuck.past,stuck.joined,first⟩
      change thread ∈ (state.setList here []).list core
      by_cases bound : here < state.cpuThreads.length
      · rw [list_setList _ bound,if_neg (Ne.symm different)]
        exact stuck.listed
      · rw [setList_large _ bound]
        exact stuck.listed
  | enter entered =>
    obtain ⟨started,rfl⟩ := enter_some stepped
    exact own (running (by rw [started]; decide))
  | leave left =>
    obtain ⟨inside,rfl⟩ := leave_some stepped
    exact own (running (by rw [inside]; decide))

structure Waiting (thread : Thread) (core : Nat) (state : State) : Prop where
  listed : thread ∈ state.list core
  joins : ∀ op ∈ state.work, ∃ other, op = .join other
  due : (state.objects thread).handle = .joined ∨ .join thread ∈ state.work

theorem waiting_call (listed : thread ∈ state.list core) :
    Waiting thread core {state with caller := none, work := Call.work state .waitForAll} := by
  refine ⟨listed,?_,.inr ?_⟩
  · intro op member
    obtain ⟨_,_,inside⟩ := List.mem_flatMap.mp member
    obtain ⟨other,_,rfl⟩ := List.mem_map.mp inside
    exact ⟨other,rfl⟩
  · have bound : core < state.cpuThreads.length := by
      by_contra large
      rw [list_large large] at listed
      cases listed
    exact List.mem_flatMap.mpr ⟨core,List.mem_range.mpr bound,List.mem_map.mpr ⟨thread,listed,rfl⟩⟩

theorem Waiting.step {action : Action} (waiting : Waiting thread core state) (quiet : action.isCall = false)
    (stepped : step state action = some next) : Waiting thread core next := by
  have running {other : Thread} {object : ThreadBase} (handle : (state.objects other).handle ≠ .joined) :
      ((state.setObject other object).objects thread).handle = .joined ∨ .join thread ∈ state.work := by
    by_cases same : thread = other
    · subst same
      exact .inr (waiting.due.resolve_left handle)
    · rw [show (state.setObject other object).objects thread = state.objects thread from Function.update_of_ne same _ _]
      exact waiting.due
  cases action with
  | call caller call => cases quiet
  | advance =>
    obtain ⟨op,rest,work,holds,_,rfl⟩ := advance_some stepped
    obtain ⟨listed,joins,due⟩ := waiting
    rw [work] at joins due
    obtain ⟨other,rfl⟩ := joins op List.mem_cons_self
    refine ⟨listed,fun op member => joins op (List.mem_cons_of_mem _ member),?_⟩
    change (Function.update state.objects other _ thread).handle = _ ∨ .join thread ∈ rest
    by_cases same : thread = other
    · subst same
      rw [Function.update_self]
      exact .inl rfl
    · rw [Function.update_of_ne same]
      obtain joined | member := due
      · exact .inl joined
      · obtain equal | later := List.mem_cons.mp member
        · cases equal
          exact absurd rfl same
        · exact .inr later
  | enter entered =>
    obtain ⟨started,rfl⟩ := enter_some stepped
    exact ⟨waiting.listed,waiting.joins,running (by rw [started]; decide)⟩
  | leave left =>
    obtain ⟨inside,rfl⟩ := leave_some stepped
    exact ⟨waiting.listed,waiting.joins,running (by rw [inside]; decide)⟩

/-- A thread that `wait_for_all` has waited for cannot be joined again, so whatever is
called afterwards it stays registered, and the assertion of `~ThreadManager` fails. -/
theorem waitForAll_keeps (cpuSet : List Nat) (distinct : cpuSet.Nodup) (some_ : cpuSet ≠ [])
    (before waiting after : List Action) (middle waited final : State)
    (orderly : Meets step (Orderly true) (.start cpuSet) before) (ran : run step (.start cpuSet) before = some middle)
    (alone : ∀ action ∈ waiting, action.isCall = false)
    (called : run step middle (.call none .waitForAll::waiting) = some waited) (idle : waited.work = [])
    (ran' : run step waited after = some final) (thread : Thread) (managed : middle.managesThread thread = true) :
    final.managesThread thread = true := by
  obtain ⟨entered,stepped,ran''⟩ := run_cons_some called
  obtain ⟨inv,cores⟩ := inv_run distinct some_ orderly ran
  obtain ⟨phases,fit,_⟩ := inv
  obtain ⟨core,at_⟩ := (manages_iff fit).mp managed
  have start : Inv true entered ∧ 0 < entered.cpuThreads.length ∧ Waiting thread core entered := by
    have allowed : Orderly true middle (.call none .waitForAll) := ⟨rfl,fun _ => .inl rfl⟩
    refine ⟨Inv.step ⟨phases,fit,‹_›⟩ cores allowed stepped,?_,?_⟩
    · rw [length_step stepped]
      exact cores
    · obtain ⟨_,rfl⟩ := call_some stepped
      exact waiting_call ((mem_list_iff fit).mpr at_)
  have quiet : Meets step (fun _ action => action.isCall = false) entered waiting :=
    meets_of_forall fun action member _ => alone action member
  have kept : Inv true waited ∧ 0 < waited.cpuThreads.length ∧ Waiting thread core waited := by
    refine invariant_of_meets (fun state => Inv true state ∧ 0 < state.cpuThreads.length ∧ Waiting thread core state) ?_
      start quiet ran''
    rintro state action next ⟨inv,cores,waits⟩ quiet stepped
    refine ⟨inv.step cores ?_ stepped,by rw [length_step stepped]; exact cores,waits.step quiet stepped⟩
    cases action <;> trivial
  obtain ⟨⟨phases,fit,_⟩,_,waits⟩ := kept
  have joined : (waited.objects thread).handle = .joined := by
    have due := waits.due
    rw [idle] at due
    exact due.resolve_right List.not_mem_nil
  have stuck : Stuck thread core waited := by
    refine ⟨waits.listed,?_,joined,by rw [idle]; trivial⟩
    have fits := fit.fits thread
    have listed := (mem_list_iff fit).mp waits.listed
    cases phase : phases thread with
    | joined => rw [phase] at fits; rw [fits.1]; decide
    | released => rw [phase] at fits; rw [fits.1]; decide
    | live =>
      rw [phase] at fits
      obtain ⟨⟨_,other | other⟩ | ⟨_,other⟩,_⟩ := fits <;> rw [joined] at other <;> cases other
    | fresh => rw [phase] at listed; cases listed
    | gone => rw [phase] at listed; cases listed
    | pushed => rw [phase] at fits; have other := fits.2; rw [joined] at other; cases other
    | associated => rw [phase] at fits; have other := fits.2.1; rw [joined] at other; cases other
  have still : Stuck thread core final :=
    invariant_of_run (Stuck thread core) (fun _ _ _ stuck stepped => stuck.step stepped) stuck ran'
  exact manages_of_mem still.listed

def waitedThread : List Action :=
  [.call none (.registerThread 0 0),.advance,.advance,.advance,.enter 0,
    .call none .waitForAll,.leave 0,.advance,.call none .deregisterAll]

theorem waitForAll_keeps_waitedThread : ∃ middle waited final, run step (.start [4]) (waitedThread.take 5) = some middle ∧
    run step middle ((waitedThread.drop 5).take 3) = some waited ∧ run step waited (waitedThread.drop 8) = some final ∧
    step final .advance = none ∧ final.managesThread 0 = true := by
  have evaluated : ((run step (.start [4]) (waitedThread.take 5)).bind fun middle =>
      if middle.managesThread 0 then
        (run step middle ((waitedThread.drop 5).take 3)).bind fun waited =>
          if waited.work = [] then run step waited (waitedThread.drop 8) else none
      else none).any (fun final => (step final .advance).isNone) = true := by decide
  obtain ⟨final,ran,blocked⟩ := (Option.any_eq_true _ _).mp evaluated
  obtain ⟨middle,first,ran⟩ := Option.bind_eq_some_iff.mp ran
  split at ran
  next manages =>
    obtain ⟨waited,second,ran⟩ := Option.bind_eq_some_iff.mp ran
    split at ran
    next idle =>
      refine ⟨middle,waited,final,first,second,ran,Option.isNone_iff_eq_none.mp blocked,?_⟩
      exact waitForAll_keeps [4] (by decide) (by decide) (waitedThread.take 5) ((waitedThread.drop 6).take 2)
        (waitedThread.drop 8) middle waited final (meets_of_checks isOrderly orderlyWaited_of_isOrderly (by decide)) first
        (by decide) second idle ran 0 manages
    next => cases ran
  next => cases ran

end Teardown

end Pgasus.ThreadManager
