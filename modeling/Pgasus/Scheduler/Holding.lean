import Pgasus.Scheduler.Domain
import Mathlib.Data.Option.Basic

/-! What a scheduling domain is for: it holds tasks in a queue of each active
thread and a global queue for every priority, and serves the highest priority
first. -/
namespace Pgasus.Scheduler
open Queues

/-- The calls on a domain, with the values that `_random` gives at the levels. -/
inductive Op
  | putTask (task : Task) (thid : Int)
  | tryGetTask (thid : Int) (random : Nat → Nat)
  | addThread (idx : Nat)
  | removeThread (idx : Nat)

/-- The queue at `none` is the global one. -/
structure Holding where
  active : List Nat
  queue : Nat → Option Nat → List Task

namespace Holding

def empty : Holding := ⟨[],fun _ _ => []⟩

variable (holding : Holding)

def places : List (Option Nat) := none :: holding.active.map some

def held (level : Nat) : List Task := contents holding.places (holding.queue level)

def set (level : Nat) (place : Option Nat) (items : List Task) : Holding :=
  {holding with queue :=
    Function.update holding.queue level (Function.update (holding.queue level) place items)}

def target (thid : Int) : Option Nat :=
  if toSize thid ∈ holding.active then some (toSize thid) else none

def put (task : Task) (place : Option Nat) : Holding :=
  holding.set task.level place (holding.queue task.level place ++ [task])

def add (idx : Nat) : Holding := {holding with active := holding.active ++ [idx]}

def remove (idx : Nat) : Holding where
  active := holding.active.erase idx
  queue level place :=
    if place = none then holding.queue level none ++ holding.queue level (some idx)
    else if place = some idx then [] else holding.queue level place

inductive Preferred (level thIdx : Nat) : Option Nat → Prop
  | own : Preferred level thIdx (some thIdx)
  | global : holding.queue level (some thIdx) = [] → Preferred level thIdx none
  | stolen (idx : Nat) : holding.queue level (some thIdx) = [] → holding.queue level none = [] →
      Preferred level thIdx (some idx)

inductive Takes (thid : Int) : Option Task → Holding → Prop
  | nothing : (∀ level place, holding.queue level place = []) → Takes thid none holding
  | task (task : Task) (place : Option Nat) (rest : List Task) :
      (∀ level place, ∀ other ∈ holding.queue level place, other.priority.value ≤ task.priority.value) →
      holding.Preferred task.level (toSize thid) place →
      holding.queue task.level place = task::rest →
      Takes thid (some task) (holding.set task.level place rest)

inductive Step : Holding → Op → Option Task → Holding → Prop
  | putTask (holding : Holding) (task : Task) (thid : Int) :
      Step holding (.putTask task thid) none (holding.put task (holding.target thid))
  | tryGetTask (holding next : Holding) (thid : Int) (random : Nat → Nat) (answer : Option Task) :
      holding.Takes thid answer next → Step holding (.tryGetTask thid random) answer next
  | addThread (holding : Holding) (idx : Nat) :
      idx ∉ holding.active → Step holding (.addThread idx) none (holding.add idx)
  | removeThread (holding : Holding) (idx : Nat) :
      idx ∈ holding.active → Step holding (.removeThread idx) none (holding.remove idx)

inductive Follows : Holding → List Op → List (Option Task) → Holding → Prop
  | nil (holding : Holding) : Follows holding [] [] holding
  | cons {holding next final : Holding} {op : Op} {answer : Option Task} {ops : List Op}
      {answers : List (Option Task)} : Step holding op answer next → Follows next ops answers final →
      Follows holding (op::ops) (answer::answers) final

end Holding

def puts : List Op → List Task
  | [] => []
  | .putTask task _ :: ops => task :: puts ops
  | .tryGetTask _ _ :: ops => puts ops
  | .addThread _ :: ops => puts ops
  | .removeThread _ :: ops => puts ops

namespace Holding

variable {holding next final : Holding} {level : Nat} {place other : Option Nat} {items : List Task}

theorem set_queue_level : (holding.set level place items).queue level =
    Function.update (holding.queue level) place items := by simp [set]

theorem set_queue_other {another : Nat} (different : another ≠ level) :
    (holding.set level place items).queue another = holding.queue another := by simp [set,different]

structure Proper (holding : Holding) : Prop where
  distinct : holding.active.Nodup
  inactive : ∀ level idx, idx ∉ holding.active → holding.queue level (some idx) = []

theorem Proper.empty : empty.Proper := ⟨List.nodup_nil,fun _ _ _ => rfl⟩

theorem Proper.nodup_places (proper : holding.Proper) : holding.places.Nodup := by
  unfold places
  rw [List.nodup_cons]
  exact ⟨by simp,proper.distinct.map (Option.some_injective Nat)⟩

theorem Proper.mem_places (proper : holding.Proper) (level : Nat) (some_ : holding.queue level place ≠ []) :
    place ∈ holding.places := by
  cases place with
  | none => simp [places]
  | some idx =>
    have active : idx ∈ holding.active := by
      by_contra inactive
      exact some_ (proper.inactive level idx inactive)
    simp [places,active]

theorem target_mem (thid : Int) : holding.target thid ∈ holding.places := by
  unfold target
  split
  next active => simp [places,active]
  next => simp [places]

theorem Proper.set (proper : holding.Proper) (among : place ∈ holding.places) :
    (holding.set level place items).Proper := by
  constructor
  · exact proper.distinct
  · intro another idx inactive
    change idx ∉ holding.active at inactive
    have different : some idx ≠ place := by
      rintro rfl
      simp [places,inactive] at among
    by_cases same : another = level
    · subst same
      rw [set_queue_level,Function.update_of_ne different]
      exact proper.inactive another idx inactive
    · rw [set_queue_other same]
      exact proper.inactive another idx inactive

theorem held_set_other {another : Nat} (different : another ≠ level) :
    (holding.set level place items).held another = holding.held another := by
  unfold held
  rw [set_queue_other different]
  rfl

theorem held_put (proper : holding.Proper) (task : Task) (among : place ∈ holding.places) (level : Nat) :
    ((holding.put task place).held level).Perm (if level = task.level then task :: holding.held level else holding.held level) := by
  unfold put
  by_cases same : level = task.level
  · subst same
    rw [if_pos rfl]
    unfold held
    rw [set_queue_level]
    exact contents_push proper.nodup_places among
  · rw [if_neg same,held_set_other same]

theorem Takes.held {thid : Int} {answer : Option Task} (takes : holding.Takes thid answer next)
    (proper : holding.Proper) (task : Task) :
    (holding.held task.level).count task = [answer].count (some task) + (next.held task.level).count task := by
  cases takes with
  | nothing empty => simp
  | task taken place rest highest preferred found =>
    have among : place ∈ holding.places := proper.mem_places taken.level (by simp [found])
    by_cases same : task.level = taken.level
    · rw [same]
      have moved := contents_pop proper.nodup_places among (pop_of_cons found)
      unfold Holding.held
      rw [set_queue_level,moved.count_eq]
      by_cases equal : taken = task
      · simp [equal,Nat.add_comm]
        rfl
      · simp [equal]
        rfl
    · rw [held_set_other same]
      have different : taken ≠ task := fun equal => same (by rw [equal])
      simp [different]

theorem Takes.active_eq {thid : Int} {answer : Option Task} (takes : holding.Takes thid answer next) :
    next.active = holding.active := by
  cases takes <;> rfl

theorem held_add (proper : holding.Proper) {idx : Nat} (inactive : idx ∉ holding.active) :
    (holding.add idx).held level = holding.held level := by
  have nothing := proper.inactive level idx inactive
  simp [held,add,places,contents,nothing]

theorem held_remove (proper : holding.Proper) {idx : Nat} (active : idx ∈ holding.active) :
    ((holding.remove idx).held level).Perm (holding.held level) := by
  have others : contents ((holding.active.erase idx).map some) ((holding.remove idx).queue level) =
      contents ((holding.active.erase idx).map some) (holding.queue level) := by
    apply contents_congr
    intro place inside
    obtain ⟨other,remaining,rfl⟩ := List.mem_map.mp inside
    have different : other ≠ idx := (proper.distinct.mem_erase_iff.mp remaining).1
    simp [remove,different]
  have split : (contents (holding.active.map some) (holding.queue level)).Perm
      (holding.queue level (some idx) ++ contents ((holding.active.erase idx).map some) (holding.queue level)) := by
    have whole := contents_split (fun other => holding.queue level (some other)) active
    simpa only [contents,List.flatMap_map] using whole
  unfold held places
  change (_ ++ contents ((holding.active.erase idx).map some) ((holding.remove idx).queue level)).Perm
    (_ ++ contents (holding.active.map some) (holding.queue level))
  rw [others]
  have global : (holding.remove idx).queue level none =
      holding.queue level none ++ holding.queue level (some idx) := by simp [remove]
  rw [global,List.append_assoc]
  exact split.symm.append_left _

theorem Step.proper {op : Op} {answer : Option Task} (step : Step holding op answer next)
    (proper : holding.Proper) : next.Proper := by
  cases step with
  | putTask task thid => exact proper.set (target_mem thid)
  | tryGetTask next thid random answer takes =>
    cases takes with
    | nothing => exact proper
    | task task place rest highest preferred found =>
      exact proper.set (proper.mem_places task.level (by simp [found]))
  | addThread idx inactive =>
    constructor
    · exact List.nodup_append.mpr ⟨proper.distinct,List.nodup_singleton _,by
        intro other inside another same
        obtain rfl := List.mem_singleton.mp same
        exact fun equal => inactive (equal ▸ inside)⟩
    · intro level other outside
      apply proper.inactive
      intro inside
      exact outside (List.mem_append_left _ inside)
  | removeThread idx active =>
    constructor
    · exact proper.distinct.erase idx
    · intro level other outside
      by_cases same : other = idx
      · simp [remove,same]
      · have inactive : other ∉ holding.active := fun inside =>
          outside ((List.mem_erase_of_ne same).mpr inside)
        simp [remove,same,proper.inactive level other inactive]

theorem Follows.conserved {ops : List Op} {answers : List (Option Task)}
    (follows : Follows holding ops answers final) (proper : holding.Proper) (task : Task) :
    (holding.held task.level).count task + (puts ops).count task =
      answers.count (some task) + (final.held task.level).count task := by
  induction follows with
  | nil => simp [puts]
  | @cons holding next final op answer ops answers step rest ih =>
    have after := ih (step.proper proper)
    cases step with
    | putTask put thid =>
      have grown := (held_put proper put (target_mem thid) task.level).count_eq task
      rw [grown] at after
      by_cases same : put = task
      · subst same
        simp [puts] at after ⊢
        omega
      · have stays : (if task.level = put.level then put :: holding.held task.level
            else holding.held task.level).count task = (holding.held task.level).count task := by
          split <;> simp [same]
        rw [stays] at after
        simp [puts,same] at after ⊢
        omega
    | tryGetTask next thid random answer takes =>
      have moved := takes.held proper task
      rw [List.count_cons]
      simp only [List.count_singleton] at moved
      simp only [puts]
      omega
    | addThread idx inactive =>
      rw [held_add proper inactive] at after
      simpa [puts] using after
    | removeThread idx active =>
      rw [(held_remove proper active).count_eq] at after
      simpa [puts] using after

end Holding
end Pgasus.Scheduler
