import Mathlib.Logic.Function.Basic
import Pgasus.Library.Runs

/-! Objects that threads call at once, and what it means that each call seems to
take effect at one moment between its start and its answer: the calls and answers
that threads see are those of an object whose operations are atomic. -/
namespace Pgasus.Linearization
open Runs

inductive Event (Thread Op Answer : Type)
  | call (thread : Thread) (op : Op)
  | answer (thread : Thread) (answer : Answer)
deriving DecidableEq

inductive Status (Op Answer : Type)
  | idle
  | pending (op : Op)
  | decided (answer : Answer)

structure Effect (Thread Op Answer : Type) where
  thread : Thread
  op : Op
  answer : Answer

structure Atomic (Thread Object Op Answer : Type) where
  object : Object
  status : Thread → Status Op Answer

variable {Thread Object Op Answer : Type} [DecidableEq Thread]

namespace Atomic

def start (object : Object) : Atomic Thread Object Op Answer := ⟨object,fun _ => .idle⟩

def set (atomic : Atomic Thread Object Op Answer) (thread : Thread) (status : Status Op Answer) :
    Atomic Thread Object Op Answer := {atomic with status := Function.update atomic.status thread status}

variable {atomic : Atomic Thread Object Op Answer} {thread other : Thread} {status : Status Op Answer}

@[simp] theorem set_object : (atomic.set thread status).object = atomic.object := rfl

@[simp] theorem set_status_self : (atomic.set thread status).status thread = status := by simp [set]

theorem set_status_other (different : other ≠ thread) : (atomic.set thread status).status other = atomic.status other := by
  simp [set,different]

theorem set_status : (atomic.set thread status).status other = if other = thread then status else atomic.status other := by
  simp [set,Function.update_apply]

theorem set_self (same : atomic.status thread = status) : atomic.set thread status = atomic := by
  rw [set,← same,Function.update_eq_self]

end Atomic

/-- A run of the atomic object, whose operations do what `apply` allows, with the events
that threads see and the operations in the order in which they take effect. -/
inductive Atomically (apply : Object → Op → Answer → Object → Prop) :
    Atomic Thread Object Op Answer → List (Event Thread Op Answer) → List (Effect Thread Op Answer) →
      Atomic Thread Object Op Answer → Prop
  | nil (atomic) : Atomically apply atomic [] [] atomic
  | call {atomic events effects final} (thread : Thread) (op : Op) (idle : atomic.status thread = .idle)
      (rest : Atomically apply (atomic.set thread (.pending op)) events effects final) :
      Atomically apply atomic (.call thread op::events) effects final
  | effect {atomic events effects final} (thread : Thread) (op : Op) (answer : Answer) (object : Object)
      (pending : atomic.status thread = .pending op) (applies : apply atomic.object op answer object)
      (rest : Atomically apply ({atomic with object := object}.set thread (.decided answer)) events effects final) :
      Atomically apply atomic events (⟨thread,op,answer⟩::effects) final
  | answer {atomic events effects final} (thread : Thread) (answer : Answer) (decided : atomic.status thread = .decided answer)
      (rest : Atomically apply (atomic.set thread .idle) events effects final) :
      Atomically apply atomic (.answer thread answer::events) effects final

inductive Sequential (apply : Object → Op → Answer → Object → Prop) :
    Object → List (Effect Thread Op Answer) → Object → Prop
  | nil (object) : Sequential apply object [] object
  | cons {object middle final effects} (effect : Effect Thread Op Answer) (applies : apply object effect.op effect.answer middle)
      (rest : Sequential apply middle effects final) : Sequential apply object (effect::effects) final

/-- Threads cannot tell the object from an atomic one. -/
def Linearizable (apply : Object → Op → Answer → Object → Prop) (object : Object)
    (events : List (Event Thread Op Answer)) : Prop :=
  ∃ effects final, Atomically apply (.start object) events effects final

section Atomically
variable {apply : Object → Op → Answer → Object → Prop} {atomic middle final : Atomic Thread Object Op Answer}
variable {events first second : List (Event Thread Op Answer)} {effects one two : List (Effect Thread Op Answer)}

theorem Atomically.append (before : Atomically apply atomic first one middle) (after : Atomically apply middle second two final) :
    Atomically apply atomic (first ++ second) (one ++ two) final := by
  induction before with
  | nil => exact after
  | call thread op idle _ ih => exact .call thread op idle (ih after)
  | effect thread op answer object pending applies _ ih => exact .effect thread op answer object pending applies (ih after)
  | answer thread answer decided _ ih => exact .answer thread answer decided (ih after)

theorem Atomically.split (run : Atomically apply atomic events effects final) (parts : events = first ++ second) :
    ∃ middle one two, Atomically apply atomic first one middle ∧ Atomically apply middle second two final ∧
      effects = one ++ two := by
  induction run generalizing first with
  | nil atomic =>
    obtain ⟨rfl,rfl⟩ := List.nil_eq_append_iff.mp parts
    exact ⟨atomic,[],[],.nil _,.nil _,rfl⟩
  | @call atomic events effects final thread op idle rest ih =>
    cases first with
    | nil =>
      obtain rfl : second = _ := parts.symm
      exact ⟨atomic,[],effects,.nil _,.call thread op idle rest,rfl⟩
    | cons event first =>
      obtain ⟨rfl,tail⟩ := List.cons.inj parts
      obtain ⟨middle,one,two,before,after,rfl⟩ := ih tail
      exact ⟨middle,one,two,.call thread op idle before,after,rfl⟩
  | @effect atomic events effects final thread op answer object pending applies rest ih =>
    obtain ⟨middle,one,two,before,after,rfl⟩ := ih parts
    exact ⟨middle,⟨thread,op,answer⟩::one,two,.effect thread op answer object pending applies before,after,rfl⟩
  | @answer atomic events effects final thread answer decided rest ih =>
    cases first with
    | nil =>
      obtain rfl : second = _ := parts.symm
      exact ⟨atomic,[],effects,.nil _,.answer thread answer decided rest,rfl⟩
    | cons event first =>
      obtain ⟨rfl,tail⟩ := List.cons.inj parts
      obtain ⟨middle,one,two,before,after,rfl⟩ := ih tail
      exact ⟨middle,one,two,.answer thread answer decided before,after,rfl⟩

theorem Atomically.sequential (run : Atomically apply atomic events effects final) :
    Sequential apply atomic.object effects final.object := by
  induction run with
  | nil atomic => exact .nil _
  | call thread op idle _ ih => exact ih
  | effect thread op answer object pending applies _ ih => exact .cons _ applies ih
  | answer thread answer decided _ ih => exact ih

theorem Atomically.answered (run : Atomically apply atomic events effects final) {thread : Thread} {answer : Answer}
    (undecided : atomic.status thread ≠ .decided answer) (seen : .answer thread answer ∈ events) :
    ∃ op, ⟨thread,op,answer⟩ ∈ effects := by
  induction run with
  | nil atomic => cases seen
  | @call atomic events effects final caller op idle rest ih =>
    refine ih ?_ ((List.mem_cons.mp seen).resolve_left (by simp))
    by_cases same : thread = caller
    · simp [same]
    · rwa [Atomic.set_status_other same]
  | @effect atomic events effects final caller op given object pending applies rest ih =>
    by_cases same : thread = caller ∧ answer = given
    · obtain ⟨rfl,rfl⟩ := same
      exact ⟨op,List.mem_cons_self⟩
    · obtain ⟨op,inside⟩ := ih (by
        rw [Atomic.set_status]
        split
        next equal =>
          intro decided
          exact same ⟨equal,(Status.decided.inj decided).symm⟩
        next => exact undecided) seen
      exact ⟨op,List.mem_cons_of_mem _ inside⟩
  | @answer atomic events effects final caller given decided rest ih =>
    obtain here | later := List.mem_cons.mp seen
    · obtain ⟨rfl,rfl⟩ := Event.answer.inj here
      exact (undecided decided).elim
    · refine ih ?_ later
      by_cases same : thread = caller
      · simp [same]
      · rwa [Atomic.set_status_other same]

theorem Atomically.answered_start {object : Object} (run : Atomically apply (.start object) events effects final) {thread : Thread}
    {answer : Answer} (seen : .answer thread answer ∈ events) : ∃ op, ⟨thread,op,answer⟩ ∈ effects :=
  run.answered (fun decided => by cases decided) seen

theorem Atomically.idle_of_call {thread : Thread} {op : Op} (run : Atomically apply atomic (.call thread op::events) effects final) :
    atomic.status thread = .idle := by
  generalize shape : Event.call thread op::events = all at run
  induction run with
  | nil atomic => cases shape
  | call caller op idle rest ih =>
    obtain ⟨same,-⟩ := List.cons.inj shape
    obtain ⟨rfl,-⟩ := Event.call.inj same
    exact idle
  | effect caller op answer object pending applies rest ih =>
    have later := ih shape
    rw [Atomic.set_status] at later
    split at later
    next => cases later
    next => exact later
  | answer caller answer decided rest ih =>
    obtain ⟨same,-⟩ := List.cons.inj shape
    cases same

end Atomically

section Sequential
variable {apply : Object → Op → Answer → Object → Prop} {object final : Object} {effects one two : List (Effect Thread Op Answer)}

omit [DecidableEq Thread] in
theorem Sequential.split (run : Sequential apply object effects final) (parts : effects = one ++ two) :
    ∃ middle, Sequential apply object one middle ∧ Sequential apply middle two final := by
  induction run generalizing one with
  | nil object =>
    obtain ⟨rfl,rfl⟩ := List.nil_eq_append_iff.mp parts
    exact ⟨object,.nil _,.nil _⟩
  | @cons object middle final effects effect applies rest ih =>
    cases one with
    | nil =>
      obtain rfl : two = _ := parts.symm
      exact ⟨object,.nil _,.cons effect applies rest⟩
    | cons head one =>
      obtain ⟨rfl,tail⟩ := List.cons.inj parts
      obtain ⟨between,before,after⟩ := ih tail
      exact ⟨between,.cons _ applies before,after⟩

omit [DecidableEq Thread] in
theorem Sequential.around (run : Sequential apply object effects final) {effect : Effect Thread Op Answer} (inside : effect ∈ effects) :
    ∃ (before after : Object) (one two : List (Effect Thread Op Answer)), Sequential apply object one before ∧
      apply before effect.op effect.answer after ∧ Sequential apply after two final := by
  obtain ⟨one,two,rfl⟩ := List.append_of_mem inside
  obtain ⟨before,first,rest⟩ := run.split rfl
  cases rest with
  | cons _ applies second => exact ⟨before,_,one,two,first,applies,second⟩

omit [DecidableEq Thread] in
theorem Sequential.invariant (run : Sequential apply object effects final) (Invariant : Object → Prop)
    (keeps : ∀ object op answer next, Invariant object → apply object op answer next → Invariant next)
    (start : Invariant object) : Invariant final := by
  induction run with
  | nil object => exact start
  | cons effect applies rest ih => exact ih (keeps _ _ _ _ start applies)

end Sequential

section Simulation
variable {State Action : Type} {step : State → Action → Option State}

def trace (step : State → Action → Option State) (events : State → Action → List (Event Thread Op Answer)) :
    State → List Action → List (Event Thread Op Answer)
  | _, [] => []
  | state, action::rest => events state action ++ ((step state action).map (trace step events · rest)).getD []

variable {apply : Object → Op → Answer → Object → Prop} {events : State → Action → List (Event Thread Op Answer)}

/-- Where each step that meets the condition is matched by steps of the atomic object with
the same events, so is a run. -/
theorem simulated {condition : State → Action → Prop} (Matches : State → Atomic Thread Object Op Answer → Prop)
    (simulates : ∀ state action next atomic, Matches state atomic → condition state action → step state action = some next →
      ∃ effects after, Atomically apply atomic (events state action) effects after ∧ Matches next after)
    {initial final : State} {actions : List Action} {atomic : Atomic Thread Object Op Answer} (start : Matches initial atomic)
    (meets : Meets step condition initial actions) (ran : run step initial actions = some final) :
    ∃ effects after, Atomically apply atomic (trace step events initial actions) effects after ∧ Matches final after := by
  induction actions generalizing initial atomic with
  | nil =>
    obtain rfl := Option.some.inj ran
    exact ⟨[],atomic,.nil _,start⟩
  | cons action rest ih =>
    obtain ⟨next,stepped,ran⟩ := run_cons_some ran
    obtain ⟨one,middle,before,kept⟩ := simulates _ _ _ _ start meets.1 stepped
    obtain ⟨two,after,later,reached⟩ := ih kept (meets.2 next stepped) ran
    refine ⟨one ++ two,after,?_,reached⟩
    simp only [trace,stepped,Option.map_some,Option.getD_some]
    exact before.append later

end Simulation
end Pgasus.Linearization
