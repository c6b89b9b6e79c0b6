import Mathlib.Data.List.Basic

/-! Runs of an executable step function. An action that is not enabled gives
`none`, so a run exists only when every action was enabled where it was taken.
The invariant rule is stated once, with a condition on the steps that a run may
be required to meet. -/
namespace Pgasus.Runs

variable {State Action : Type}

def run (step : State → Action → Option State) (initial : State) (actions : List Action) : Option State :=
  actions.foldlM step initial

/-- Every action of the list is taken in a state where the condition holds. -/
def Meets (step : State → Action → Option State) (condition : State → Action → Prop) :
    State → List Action → Prop
  | _, [] => True
  | state, action::rest => condition state action ∧
      ∀ next, step state action = some next → Meets step condition next rest

variable {step : State → Action → Option State} {condition : State → Action → Prop}

@[simp] theorem run_nil (state : State) : run step state [] = some state := rfl

theorem run_cons (state : State) (action : Action) (rest : List Action) :
    run step state (action::rest) = (step state action).bind (fun next => run step next rest) := rfl

theorem run_cons_some {state final : State} {action : Action} {rest : List Action}
    (ran : run step state (action::rest) = some final) :
    ∃ next, step state action = some next ∧ run step next rest = some final :=
  Option.bind_eq_some_iff.mp ran

theorem run_append (state : State) (first second : List Action) :
    run step state (first ++ second) = (run step state first).bind (fun next => run step next second) := by
  simp only [run,List.foldlM_append]
  rfl

theorem Meets.first {state : State} {first second : List Action}
    (meets : Meets step condition state (first ++ second)) : Meets step condition state first := by
  induction first generalizing state with
  | nil => trivial
  | cons action rest ih => exact ⟨meets.1,fun next stepped => ih (meets.2 next stepped)⟩

theorem Meets.second {state middle : State} {first second : List Action}
    (meets : Meets step condition state (first ++ second)) (ran : run step state first = some middle) :
    Meets step condition middle second := by
  induction first generalizing state with
  | nil =>
    obtain rfl := Option.some.inj ran
    exact meets
  | cons action rest ih =>
    obtain ⟨next,stepped,ran⟩ := run_cons_some ran
    exact ih (meets.2 next stepped) ran

theorem meets_true (state : State) (actions : List Action) :
    Meets step (fun _ _ => True) state actions := by
  induction actions generalizing state with
  | nil => trivial
  | cons action rest ih => exact ⟨trivial,fun next _ => ih next⟩

theorem meets_of_forall {state : State} {actions : List Action}
    (everywhere : ∀ action ∈ actions, ∀ state, condition state action) : Meets step condition state actions := by
  induction actions generalizing state with
  | nil => trivial
  | cons action rest ih =>
    exact ⟨everywhere action List.mem_cons_self state,fun _ _ =>
      ih fun other member => everywhere other (List.mem_cons_of_mem _ member)⟩

theorem Meets.append {state : State} {first second : List Action} (meets : Meets step condition state first)
    (rest : ∀ middle, run step state first = some middle → Meets step condition middle second) :
    Meets step condition state (first ++ second) := by
  induction first generalizing state with
  | nil => exact rest state rfl
  | cons action first ih =>
    refine ⟨meets.1,fun next stepped => ih (meets.2 next stepped) fun middle ran => rest middle ?_⟩
    rw [run_cons,stepped]
    exact ran

def checks (step : State → Action → Option State) (test : State → Action → Bool) : State → List Action → Bool
  | _, [] => true
  | state, action::rest => test state action && ((step state action).map (checks step test · rest)).getD true

theorem meets_of_checks (test : State → Action → Bool)
    (sound : ∀ state action, test state action = true → condition state action) {state : State} {actions : List Action}
    (checked : checks step test state actions = true) : Meets step condition state actions := by
  induction actions generalizing state with
  | nil => trivial
  | cons action rest ih =>
    obtain ⟨tested,checked⟩ := Bool.and_eq_true_iff.mp checked
    refine ⟨sound state action tested,fun next stepped => ih ?_⟩
    rw [stepped] at checked
    exact checked

/-- What every step that meets the condition preserves holds at the end of every
run whose steps all meet it. -/
theorem invariant_of_meets (Invariant : State → Prop)
    (keeps : ∀ state action next, Invariant state → condition state action →
      step state action = some next → Invariant next)
    {initial final : State} {actions : List Action} (start : Invariant initial)
    (meets : Meets step condition initial actions) (ran : run step initial actions = some final) :
    Invariant final := by
  induction actions generalizing initial with
  | nil =>
    obtain rfl := Option.some.inj ran
    exact start
  | cons action rest ih =>
    obtain ⟨next,stepped,ran⟩ := run_cons_some ran
    exact ih (keeps _ _ _ start meets.1 stepped) (meets.2 next stepped) ran

theorem invariant_of_run (Invariant : State → Prop)
    (keeps : ∀ state action next, Invariant state → step state action = some next → Invariant next)
    {initial final : State} {actions : List Action} (start : Invariant initial)
    (ran : run step initial actions = some final) : Invariant final :=
  invariant_of_meets Invariant (fun state action next holds _ => keeps state action next holds) start
    (meets_true initial actions) ran

/-- Where every step that meets the condition can be taken, so can the run. -/
theorem run_of_meets (Invariant : State → Prop)
    (moves : ∀ state action, Invariant state → condition state action → ∃ next, step state action = some next ∧ Invariant next)
    {initial : State} {actions : List Action} (start : Invariant initial) (meets : Meets step condition initial actions) :
    ∃ final, run step initial actions = some final ∧ Invariant final := by
  induction actions generalizing initial with
  | nil => exact ⟨initial,rfl,start⟩
  | cons action rest ih =>
    obtain ⟨next,stepped,kept⟩ := moves initial action start meets.1
    obtain ⟨final,ran,holds⟩ := ih kept (meets.2 next stepped)
    exact ⟨final,by rw [run_cons,stepped]; exact ran,holds⟩

/-- A condition that every good successor forces is met by every run all of
whose states are good. -/
theorem meets_of_everywhere {Invariant Good : State → Prop}
    (keeps : ∀ state action next, Invariant state → step state action = some next → Invariant next)
    (forced : ∀ state action next, Invariant state → step state action = some next → Good next →
      condition state action)
    {initial final : State} {actions : List Action} (start : Invariant initial)
    (ran : run step initial actions = some final)
    (good : ∀ first second middle, actions = first ++ second → run step initial first = some middle → Good middle) :
    Meets step condition initial actions := by
  induction actions generalizing initial with
  | nil => trivial
  | cons action rest ih =>
    obtain ⟨next,stepped,ran⟩ := run_cons_some ran
    have one : run step initial [action] = some next := by
      rw [run_cons,stepped]
      rfl
    refine ⟨forced _ _ _ start stepped (good [action] rest next rfl one),fun other same => ?_⟩
    obtain rfl := Option.some.inj (stepped.symm.trans same)
    refine ih (keeps _ _ _ start stepped) ran fun first second middle split went => ?_
    exact good (action::first) second middle (by rw [split]; rfl) (by rw [run_cons,stepped]; exact went)

/-- Where a step ends in a good state exactly when it started in one and met the
condition, the runs to good states are those that meet it throughout. -/
theorem good_iff_meets {Invariant Good : State → Prop}
    (keeps : ∀ state action next, Invariant state → step state action = some next → Invariant next)
    (exact_ : ∀ state action next, Invariant state → step state action = some next →
      (Good next ↔ Good state ∧ condition state action))
    {initial final : State} {actions : List Action} (start : Invariant initial)
    (ran : run step initial actions = some final) : Good final ↔ Good initial ∧ Meets step condition initial actions := by
  induction actions generalizing initial with
  | nil =>
    obtain rfl := Option.some.inj ran
    exact (and_iff_left trivial).symm
  | cons action rest ih =>
    obtain ⟨next,stepped,ran⟩ := run_cons_some ran
    rw [ih (keeps _ _ _ start stepped) ran,exact_ _ _ _ start stepped,and_assoc]
    refine and_congr_right fun _ => and_congr_right fun _ => ⟨fun meets other same => ?_,fun meets => meets next stepped⟩
    exact Option.some.inj (stepped.symm.trans same) ▸ meets

/-- Where a step from a good state ends in a good one exactly when it meets the
condition, the runs through good states only are those that meet it throughout. -/
theorem everywhere_iff_meets {Invariant Good : State → Prop}
    (keeps : ∀ state action next, Invariant state → step state action = some next → Invariant next)
    (exact_ : ∀ state action next, Invariant state → Good state → step state action = some next →
      (Good next ↔ condition state action))
    {initial final : State} {actions : List Action} (start : Invariant initial) (good : Good initial)
    (ran : run step initial actions = some final) :
    (∀ first second middle, actions = first ++ second → run step initial first = some middle → Good middle) ↔
      Meets step condition initial actions := by
  induction actions generalizing initial with
  | nil =>
    refine iff_of_true (fun first second middle split went => ?_) trivial
    obtain ⟨rfl,_⟩ := List.append_eq_nil_iff.mp split.symm
    exact Option.some.inj went ▸ good
  | cons action rest ih =>
    obtain ⟨next,stepped,ran⟩ := run_cons_some ran
    have inv := keeps _ _ _ start stepped
    constructor
    · intro everywhere
      have one : run step initial [action] = some next := by
        rw [run_cons,stepped]
        rfl
      have good_ := everywhere [action] rest next rfl one
      refine ⟨(exact_ _ _ _ start good stepped).mp good_,fun other same => ?_⟩
      obtain rfl := Option.some.inj (stepped.symm.trans same)
      refine (ih inv good_ ran).mp fun first second middle split went => ?_
      exact everywhere (action::first) second middle (by rw [split]; rfl) (by rw [run_cons,stepped]; exact went)
    · intro meets first second middle split went
      cases first with
      | nil => exact Option.some.inj went ▸ good
      | cons head first =>
        obtain ⟨rfl,rest_⟩ := List.cons.inj split
        obtain ⟨other,stepped_,went⟩ := run_cons_some went
        obtain rfl := Option.some.inj (stepped.symm.trans stepped_)
        have good_ := (exact_ _ _ _ start good stepped).mpr meets.1
        exact (ih inv good_ ran).mpr (meets.2 next stepped) first second middle rest_ went

section Answers
variable {Op Answer Abstract : Type}

def answers (execute : State → Op → State × Answer) : State → List Op → State × List Answer
  | state, [] => (state,[])
  | state, op::rest =>
    let (next,answer) := execute state op
    let (final,others) := answers execute next rest
    (final,answer::others)

/-- A relation kept by every operation, with equal answers, is kept by every
sequence of operations, with equal answers throughout. -/
theorem answers_simulation {execute : State → Op → State × Answer} {spec : Abstract → Op → Abstract × Answer}
    (related : State → Abstract → Prop)
    (keeps : ∀ state abstract op, related state abstract →
      related (execute state op).1 (spec abstract op).1 ∧ (execute state op).2 = (spec abstract op).2)
    {state : State} {abstract : Abstract} (start : related state abstract) (ops : List Op) :
    related (answers execute state ops).1 (answers spec abstract ops).1 ∧
      (answers execute state ops).2 = (answers spec abstract ops).2 := by
  induction ops generalizing state abstract with
  | nil => exact ⟨start,rfl⟩
  | cons op rest ih =>
    obtain ⟨next,equal⟩ := keeps state abstract op start
    obtain ⟨final,others⟩ := ih next
    exact ⟨final,by simp only [answers,equal,others]⟩

end Answers

end Pgasus.Runs
