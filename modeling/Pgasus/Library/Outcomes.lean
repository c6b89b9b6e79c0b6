import Pgasus.Library.Runs

/-! Which states a step function can get to, computed forwards: a step that is the same for
every action changes nothing about it, and a loop is left after its rounds. -/
namespace Pgasus.Outcomes
open Runs

variable {State Action : Type}

def Reaches (step : State → Action → Option State) (state final : State) : Prop := ∃ actions, run step state actions = some final

variable {step : State → Action → Option State} {state next final : State}

theorem reaches_iff (busy : state ≠ final) : Reaches step state final ↔ ∃ action next, step state action = some next ∧ Reaches step next final := by
  constructor
  · rintro ⟨actions,ran⟩
    cases actions with
    | nil => exact (busy (Option.some.inj ran)).elim
    | cons action rest =>
      obtain ⟨next,stepped,ran⟩ := run_cons_some ran
      exact ⟨action,next,stepped,rest,ran⟩
  · rintro ⟨action,next,stepped,rest,ran⟩
    exact ⟨action::rest,by rw [run_cons,stepped]; exact ran⟩

theorem reaches_goes [Nonempty Action] (busy : state ≠ final) (goes : ∀ action, step state action = some next) :
    Reaches step state final ↔ Reaches step next final := by
  rw [reaches_iff busy]
  constructor
  · rintro ⟨action,other,stepped,reached⟩
    obtain rfl := Option.some.inj ((goes action).symm.trans stepped)
    exact reached
  · intro reached
    obtain ⟨action⟩ := ‹Nonempty Action›
    exact ⟨action,next,goes action,reached⟩

theorem not_reaches (busy : state ≠ final) (stuck : ∀ action, step state action = none) : ¬Reaches step state final := by
  rw [reaches_iff busy]
  rintro ⟨action,next,stepped,-⟩
  rw [stuck] at stepped
  cases stepped

theorem reaches_end (stuck : ∀ action, step state action = none) : Reaches step state final ↔ final = state := by
  constructor
  · intro reached
    by_contra different
    exact not_reaches (Ne.symm different) stuck reached
  · rintro rfl
    exact ⟨[],rfl⟩

theorem reaches_retry (busy : state ≠ final) (retries : ∀ action, step state action = some state ∨ step state action = some next)
    {action : Action} (goes : step state action = some next) : Reaches step state final ↔ Reaches step next final := by
  constructor
  · rintro ⟨actions,ran⟩
    induction actions with
    | nil => exact (busy (Option.some.inj ran)).elim
    | cons action rest ih =>
      obtain ⟨other,stepped,ran⟩ := run_cons_some ran
      obtain again | on := retries action
      · obtain rfl := Option.some.inj (again.symm.trans stepped)
        exact ih ran
      · obtain rfl := Option.some.inj (on.symm.trans stepped)
        exact ⟨rest,ran⟩
  · rintro ⟨rest,ran⟩
    exact ⟨action::rest,by rw [run_cons,goes]; exact ran⟩

/-- A loop that is left only after its rounds, each of which has a condition. -/
theorem reaches_rounds (step : State → Action → Option State) (states : Nat → State) (passes : Nat → Prop) (final : State) (rounds : Nat)
    (round : ∀ index < rounds, Reaches step (states index) final ↔ passes index ∧ Reaches step (states (index + 1)) final) :
    Reaches step (states 0) final ↔ (∀ index < rounds, passes index) ∧ Reaches step (states rounds) final := by
  induction rounds with
  | zero => simp
  | succ rounds ih =>
    rw [ih fun index inside => round index (Nat.lt_succ_of_lt inside),round rounds (Nat.lt_succ_self rounds),← and_assoc]
    refine and_congr_left fun _ => ⟨fun ⟨before,last⟩ index inside => ?_,fun all => ?_⟩
    · obtain earlier | rfl := Nat.lt_succ_iff_lt_or_eq.mp inside
      · exact before index earlier
      · exact last
    · exact ⟨fun index inside => all index (Nat.lt_succ_of_lt inside),all rounds (Nat.lt_succ_self rounds)⟩

end Pgasus.Outcomes
