import Mathlib.Data.List.Flatten
import Pgasus.Library.Runs
import Pgasus.Library.Totals

/-! Work units that workers hand out to themselves. Each source has a list of units
and a cursor that is fetched and incremented in one step; a worker goes through the
sources of its agenda, takes units until a source has none left, and applies a
function to the elements of each unit one after another. -/
namespace Pgasus.Cursors
open Runs Totals

structure Walk (WorkUnit Element : Type) where
  isEnd : WorkUnit → Bool
  deref : WorkUnit → Element
  next : WorkUnit → WorkUnit
  rest : WorkUnit → List Element
  ended : ∀ unit, isEnd unit = true → rest unit = []
  going : ∀ unit, isEnd unit = false → rest unit = deref unit :: rest (next unit)

def Walk.loop {WorkUnit Element : Type} (walk : Walk WorkUnit Element) : Nat → WorkUnit → Option (List Element)
  | 0, unit => if walk.isEnd unit then some [] else none
  | rounds+1, unit =>
    if walk.isEnd unit then some [] else (loop walk rounds (walk.next unit)).map (walk.deref unit :: ·)

theorem Walk.loop_rest {WorkUnit Element : Type} (walk : Walk WorkUnit Element) {rounds : Nat} {unit : WorkUnit}
    (enough : (walk.rest unit).length ≤ rounds) : walk.loop rounds unit = some (walk.rest unit) := by
  induction rounds generalizing unit with
  | zero =>
    unfold loop
    split
    next ended => rw [walk.ended unit ended]
    next going =>
      rw [walk.going unit (Bool.not_eq_true _ ▸ going)] at enough
      cases enough
  | succ rounds ih =>
    unfold loop
    split
    next ended => rw [walk.ended unit ended]
    next going =>
      have here := walk.going unit (Bool.not_eq_true _ ▸ going)
      rw [here] at enough
      rw [ih (Nat.le_of_succ_le_succ enough),here]
      rfl

/-- What a worker still has to do; the first source of the agenda is the one in use. -/
structure Worker (Source WorkUnit : Type) where
  agenda : List Source
  unit : Option WorkUnit

structure State (Source WorkUnit Element : Type) where
  cursors : Source → Nat
  workers : List (Worker Source WorkUnit)
  applied : List Element

variable {Source WorkUnit Element : Type}

def State.start (agendas : List (List Source)) : State Source WorkUnit Element :=
  ⟨fun _ => 0,agendas.map (⟨·,none⟩),[]⟩

def Worker.finished (worker : Worker Source WorkUnit) : Bool := worker.agenda.isEmpty && worker.unit.isNone

def State.finished (state : State Source WorkUnit Element) : Bool := state.workers.all Worker.finished

variable [DecidableEq Source] (walk : Walk WorkUnit Element) (units : Source → List WorkUnit)

def step (state : State Source WorkUnit Element) (position : Nat) : Option (State Source WorkUnit Element) :=
  match state.workers[position]? with
  | some ⟨agenda,some unit⟩ =>
    if walk.isEnd unit then some {state with workers := state.workers.set position ⟨agenda,none⟩}
    else some {state with
      workers := state.workers.set position ⟨agenda,some (walk.next unit)⟩
      applied := state.applied ++ [walk.deref unit]}
  | some ⟨source::agenda,none⟩ =>
    some {state with
      cursors := Function.update state.cursors source (state.cursors source + 1)
      workers := state.workers.set position (match (units source)[state.cursors source]? with
        | some unit => ⟨source::agenda,some unit⟩
        | none => ⟨agenda,none⟩)}
  | _ => none

def left (weight : WorkUnit → Nat) (cursors : Source → Nat) (source : Source) : Nat :=
  total weight ((units source).drop (cursors source))

def Worker.elements (worker : Worker Source WorkUnit) : List Element := (worker.unit.map walk.rest).getD []

def elements (sources : List Source) : List Element :=
  sources.flatMap (fun source => (units source).flatMap walk.rest)

/-- Nothing is lost: for every weight, what was applied, is in hand or is left weighs
what there was. Every source is used up or on the agenda of a worker. -/
structure Inv (sources : List Source) (state : State Source WorkUnit Element) : Prop where
  conserved : ∀ weight : Element → Nat, total weight state.applied +
    total (fun worker => total weight (worker.elements walk)) state.workers +
    total (left units (fun unit => total weight (walk.rest unit)) state.cursors) sources =
      total weight (elements walk units sources)
  inside : ∀ worker ∈ state.workers, ∀ source ∈ worker.agenda, source ∈ sources
  covered : ∀ source ∈ sources, (units source).length ≤ state.cursors source ∨
    ∃ worker ∈ state.workers, source ∈ worker.agenda

def Worker.work (worker : Worker Source WorkUnit) : Nat :=
  worker.agenda.length + (worker.unit.map (fun unit => (walk.rest unit).length + 1)).getD 0

def State.work (sources : List Source) (state : State Source WorkUnit Element) : Nat :=
  total (Worker.work walk) state.workers + total (left units (fun unit => (walk.rest unit).length + 2) state.cursors) sources

variable {walk units} {sources : List Source} {state next : State Source WorkUnit Element} {position : Nat}

inductive Effect (walk : Walk WorkUnit Element) (units : Source → List WorkUnit) (state : State Source WorkUnit Element)
    (position : Nat) : State Source WorkUnit Element → Prop
  | closed (agenda : List Source) (unit : WorkUnit) (here : state.workers[position]? = some ⟨agenda,some unit⟩)
      (ended : walk.isEnd unit = true) :
      Effect walk units state position {state with workers := state.workers.set position ⟨agenda,none⟩}
  | applied (agenda : List Source) (unit : WorkUnit) (here : state.workers[position]? = some ⟨agenda,some unit⟩)
      (going : walk.isEnd unit = false) :
      Effect walk units state position {state with
        workers := state.workers.set position ⟨agenda,some (walk.next unit)⟩
        applied := state.applied ++ [walk.deref unit]}
  | took (source : Source) (agenda : List Source) (unit : WorkUnit)
      (here : state.workers[position]? = some ⟨source::agenda,none⟩)
      (found : (units source)[state.cursors source]? = some unit) :
      Effect walk units state position {state with
        cursors := Function.update state.cursors source (state.cursors source + 1)
        workers := state.workers.set position ⟨source::agenda,some unit⟩}
  | exhausted (source : Source) (agenda : List Source)
      (here : state.workers[position]? = some ⟨source::agenda,none⟩)
      (none_ : (units source).length ≤ state.cursors source) :
      Effect walk units state position {state with
        cursors := Function.update state.cursors source (state.cursors source + 1)
        workers := state.workers.set position ⟨agenda,none⟩}

theorem step_effect (stepped : step walk units state position = some next) : Effect walk units state position next := by
  unfold step at stepped
  split at stepped
  next agenda unit here =>
    split at stepped
    next ended =>
      obtain rfl := Option.some.inj stepped
      exact .closed agenda unit here ended
    next going =>
      obtain rfl := Option.some.inj stepped
      exact .applied agenda unit here (Bool.not_eq_true _ ▸ going)
  next source agenda here =>
    obtain rfl := Option.some.inj stepped
    split
    next unit found => exact .took source agenda unit here found
    next none_ => exact .exhausted source agenda here (List.getElem?_eq_none_iff.mp none_)
  next => cases stepped

section Left
variable {cursors : Source → Nat} {source : Source}

theorem left_took (weight : WorkUnit → Nat) {unit : WorkUnit} (nodup : sources.Nodup) (inside : source ∈ sources)
    (found : (units source)[cursors source]? = some unit) :
    total (left units weight (Function.update cursors source (cursors source + 1))) sources + weight unit =
      total (left units weight cursors) sources := by
  obtain ⟨bound,rfl⟩ := List.getElem?_eq_some_iff.mp found
  have changed : total (left units weight (Function.update cursors source (cursors source + 1))) sources +
      left units weight cursors source = total (left units weight cursors) sources +
        left units weight (Function.update cursors source (cursors source + 1)) source :=
    total_change nodup inside fun other different => by simp [left,different]
  have here : left units weight cursors source = weight ((units source)[cursors source]) +
      left units weight (Function.update cursors source (cursors source + 1)) source := by
    simp only [left,Function.update_self]
    rw [List.drop_eq_getElem_cons bound,total_cons]
  omega

theorem left_exhausted (weight : WorkUnit → Nat) (none_ : (units source).length ≤ cursors source) :
    total (left units weight (Function.update cursors source (cursors source + 1))) sources =
      total (left units weight cursors) sources := by
  apply total_congr
  intro other _
  by_cases same : other = source
  · subst same
    simp only [left,Function.update_self]
    rw [List.drop_eq_nil_of_le none_,List.drop_eq_nil_of_le (Nat.le_succ_of_le none_)]
  · simp [left,same]

end Left

omit [DecidableEq Source] in
theorem inv_start (agendas : List (List Source)) (inside : ∀ agenda ∈ agendas, ∀ source ∈ agenda, source ∈ sources)
    (covered : ∀ source ∈ sources, ∃ agenda ∈ agendas, source ∈ agenda) :
    Inv walk units sources (State.start agendas) := by
  constructor
  · intro weight
    have idle : total (fun worker => total weight (worker.elements walk))
        (State.start agendas : State Source WorkUnit Element).workers = 0 := by
      rw [total_eq_zero]
      intro worker member
      obtain ⟨agenda,_,rfl⟩ := List.mem_map.mp member
      rfl
    have all : total weight (elements walk units sources) =
        total (left units (fun unit => total weight (walk.rest unit)) fun _ => 0) sources := by
      rw [elements,total_flatMap]
      exact total_congr fun source _ => total_flatMap weight walk.rest (units source)
    rw [idle,all]
    simp [State.start]
  · intro worker member
    obtain ⟨agenda,inAgendas,rfl⟩ := List.mem_map.mp member
    exact inside agenda inAgendas
  · intro source member
    obtain ⟨agenda,inAgendas,has⟩ := covered source member
    exact .inr ⟨⟨agenda,none⟩,List.mem_map_of_mem inAgendas,has⟩

omit [DecidableEq Source] in
theorem Inv.replace (inv : Inv walk units sources state) {old new : Worker Source WorkUnit}
    (here : state.workers[position]? = some old) {cursors : Source → Nat} {applied : List Element}
    (grown : ∀ source, state.cursors source ≤ cursors source)
    (kept : ∀ source ∈ old.agenda, source ∈ new.agenda ∨ (units source).length ≤ cursors source)
    (shrunk : ∀ source ∈ new.agenda, source ∈ old.agenda)
    (conserved : ∀ weight : Element → Nat, total weight applied + total weight (new.elements walk) +
      total (left units (fun unit => total weight (walk.rest unit)) cursors) sources =
        total weight state.applied + total weight (old.elements walk) +
          total (left units (fun unit => total weight (walk.rest unit)) state.cursors) sources) :
    Inv walk units sources ⟨cursors,state.workers.set position new,applied⟩ := by
  have bound := (List.getElem?_eq_some_iff.mp here).1
  constructor
  · intro weight
    have moved := total_set (fun worker => total weight (Worker.elements walk worker)) new here
    have before := inv.conserved weight
    have balance := conserved weight
    simp only at moved ⊢
    omega
  · intro worker member source has
    obtain rfl | ⟨other,_,found⟩ := mem_set_cases member
    · exact inv.inside old (List.mem_of_getElem? here) source (shrunk source has)
    · exact inv.inside worker (List.mem_of_getElem? found) source has
  · intro source member
    obtain used | ⟨worker,inWorkers,has⟩ := inv.covered source member
    · exact .inl (Nat.le_trans used (grown source))
    · obtain ⟨index,found⟩ := List.mem_iff_getElem?.mp inWorkers
      by_cases same : position = index
      · subst same
        obtain rfl := Option.some.inj (here.symm.trans found)
        obtain stays | used := kept source has
        · exact .inr ⟨new,List.mem_set bound new,stays⟩
        · exact .inl used
      · have elsewhere : (state.workers.set position new)[index]? = some worker := by
          rw [List.getElem?_set_ne same]
          exact found
        exact .inr ⟨worker,List.mem_of_getElem? elsewhere,has⟩

theorem le_update_succ (cursors : Source → Nat) (source other : Source) :
    cursors other ≤ Function.update cursors source (cursors source + 1) other := by
  rw [Function.update_apply]
  split
  next same => exact same ▸ Nat.le_succ _
  next => exact Nat.le_refl _

theorem Effect.inv (inv : Inv walk units sources state) (nodup : sources.Nodup)
    (effect : Effect walk units state position next) : Inv walk units sources next := by
  cases effect with
  | closed agenda unit here ended =>
    apply inv.replace here (fun _ => Nat.le_refl _)
    · exact fun _ => .inl
    · exact fun _ => id
    · intro weight
      simp [Worker.elements,walk.ended unit ended]
  | applied agenda unit here going =>
    apply inv.replace here (fun _ => Nat.le_refl _)
    · exact fun _ => .inl
    · exact fun _ => id
    · intro weight
      simp only [Worker.elements,Option.map_some,Option.getD_some,walk.going unit going,total_append,total_cons,total_nil]
      omega
  | took source agenda unit here found =>
    have inside := inv.inside _ (List.mem_of_getElem? here) source List.mem_cons_self
    apply inv.replace here (le_update_succ state.cursors source)
    · exact fun _ => .inl
    · exact fun _ => id
    · intro weight
      have taken : _ + total weight (walk.rest unit) = _ :=
        left_took (fun unit => total weight (walk.rest unit)) nodup inside found
      simp only [Worker.elements,Option.map_some,Option.getD_some,Option.map_none,Option.getD_none,total_nil]
      omega
  | exhausted source agenda here none_ =>
    apply inv.replace here (le_update_succ state.cursors source)
    · intro other has
      obtain rfl | has := List.mem_cons.mp has
      · exact .inr (Nat.le_trans none_ (le_update_succ state.cursors _ _))
      · exact .inl has
    · exact fun _ => List.mem_cons_of_mem _
    · intro weight
      rw [left_exhausted _ none_]
      rfl

theorem Effect.work (inv : Inv walk units sources state) (nodup : sources.Nodup)
    (effect : Effect walk units state position next) :
    next.work walk units sources + 1 = state.work walk units sources := by
  cases effect with
  | closed agenda unit here ended =>
    have moved := total_set (Worker.work walk) ⟨agenda,none⟩ here
    simp only [Worker.work,Option.map_some,Option.getD_some,Option.map_none,Option.getD_none,walk.ended unit ended,
      List.length_nil] at moved
    simp only [State.work]
    omega
  | applied agenda unit here going =>
    have moved := total_set (Worker.work walk) ⟨agenda,some (walk.next unit)⟩ here
    simp only [Worker.work,Option.map_some,Option.getD_some,walk.going unit going,List.length_cons] at moved
    simp only [State.work]
    omega
  | took source agenda unit here found =>
    have inside := inv.inside _ (List.mem_of_getElem? here) source List.mem_cons_self
    have moved := total_set (Worker.work walk) ⟨source::agenda,some unit⟩ here
    have taken : _ + ((walk.rest unit).length + 2) = _ :=
      left_took (fun unit => (walk.rest unit).length + 2) nodup inside found
    simp only [Worker.work,Option.map_some,Option.getD_some,Option.map_none,Option.getD_none] at moved
    simp only [State.work]
    omega
  | exhausted source agenda here none_ =>
    have moved := total_set (Worker.work walk) ⟨agenda,none⟩ here
    simp only [Worker.work,Option.map_none,Option.getD_none,List.length_cons] at moved
    simp only [State.work,left_exhausted _ none_]
    omega

/-- However the workers are scheduled, they end, and have then applied the function
to each of the elements once. -/
structure AppliesOnce (walk : Walk WorkUnit Element) (units : Source → List WorkUnit) (start : State Source WorkUnit Element)
    (all : List Element) : Prop where
  bounded : ∃ bound, ∀ positions final, run (step walk units) start positions = some final → positions.length ≤ bound
  goes : ∀ positions final, run (step walk units) start positions = some final →
    final.finished = true ∨ ∃ position next, step walk units final position = some next
  once : ∀ positions final, run (step walk units) start positions = some final → final.finished = true →
    final.applied.Perm all

theorem inv_of_run {positions : List Nat} {start final : State Source WorkUnit Element} (nodup : sources.Nodup)
    (inv : Inv walk units sources start) (ran : run (step walk units) start positions = some final) :
    Inv walk units sources final :=
  invariant_of_run (Inv walk units sources) (fun _ _ _ inv stepped => (step_effect stepped).inv inv nodup) inv ran

theorem work_of_run {positions : List Nat} {start final : State Source WorkUnit Element} (nodup : sources.Nodup)
    (inv : Inv walk units sources start) (ran : run (step walk units) start positions = some final) :
    positions.length + final.work walk units sources = start.work walk units sources := by
  induction positions generalizing start with
  | nil =>
    obtain rfl := Option.some.inj ran
    exact Nat.zero_add _
  | cons position rest ih =>
    obtain ⟨next,stepped,ran⟩ := run_cons_some ran
    have one := (step_effect stepped).work inv nodup
    have tail := ih ((step_effect stepped).inv inv nodup) ran
    rw [List.length_cons]
    omega

theorem finished_or_step (walk : Walk WorkUnit Element) (units : Source → List WorkUnit) (state : State Source WorkUnit Element) :
    state.finished = true ∨ ∃ position next, step walk units state position = some next := by
  rw [or_iff_not_imp_left]
  intro unfinished
  obtain ⟨worker,member,busy⟩ : ∃ worker ∈ state.workers, worker.finished = false := by
    simpa [State.finished] using unfinished
  obtain ⟨position,here⟩ := List.mem_iff_getElem?.mp member
  refine ⟨position,Option.isSome_iff_exists.mp ?_⟩
  obtain ⟨agenda,unit⟩ := worker
  cases unit with
  | some unit =>
    simp only [step,here]
    split <;> rfl
  | none =>
    cases agenda with
    | nil => cases busy
    | cons source agenda =>
      simp only [step,here]
      rfl

omit [DecidableEq Source] in
theorem Inv.applied_of_finished (inv : Inv walk units sources state) (finished : state.finished = true) :
    state.applied.Perm (elements walk units sources) := by
  have idle (worker : Worker Source WorkUnit) (member : worker ∈ state.workers) : worker = ⟨[],none⟩ := by
    have through := List.all_eq_true.mp finished worker member
    obtain ⟨agenda,unit⟩ := worker
    simpa [Worker.finished] using through
  apply perm_of_total
  intro weight
  have inHand : total (fun worker => total weight (Worker.elements walk worker)) state.workers = 0 := by
    rw [total_eq_zero]
    intro worker member
    rw [idle worker member]
    rfl
  have none_ : total (left units (fun unit => total weight (walk.rest unit)) state.cursors) sources = 0 := by
    rw [total_eq_zero]
    intro source member
    obtain used | ⟨worker,inWorkers,has⟩ := inv.covered source member
    · rw [left,List.drop_eq_nil_of_le used]
      rfl
    · rw [idle worker inWorkers] at has
      cases has
  have conserved := inv.conserved weight
  rw [inHand,none_] at conserved
  exact conserved

theorem group_perm {Key Member : Type} [DecidableEq Key] (key : Member → Key) {keys : List Key} (distinct : keys.Nodup)
    (members : List Member) : (keys.flatMap (fun wanted => members.filter (fun member => key member = wanted))).Perm
      (members.filter (fun member => key member ∈ keys)) := by
  induction keys with
  | nil => simp
  | cons first rest ih =>
    obtain ⟨missing,distinct⟩ := List.nodup_cons.mp distinct
    have parted := List.filter_append_perm (fun member => decide (key member = first))
      (members.filter (fun member => key member ∈ first::rest))
    rw [List.flatMap_cons]
    refine (List.Perm.append ?_ ((ih distinct).trans ?_)).trans parted
    · rw [List.filter_filter]
      apply List.Perm.of_eq
      apply List.filter_congr
      intro member _
      by_cases same : key member = first <;> simp [same]
    · rw [List.filter_filter]
      apply List.Perm.of_eq
      apply List.filter_congr
      intro member _
      by_cases same : key member = first <;> simp [same,missing]

/-- Workers whose agendas make up the sources apply the function to all elements of these. -/
theorem appliesOnce_start {agendas : List (List Source)} (nodup : sources.Nodup)
    (inside : ∀ agenda ∈ agendas, ∀ source ∈ agenda, source ∈ sources)
    (covered : ∀ source ∈ sources, ∃ agenda ∈ agendas, source ∈ agenda) :
    AppliesOnce walk units (.start agendas) (elements walk units sources) := by
  have inv : Inv walk units sources (.start agendas) := inv_start agendas inside covered
  constructor
  · refine ⟨State.work walk units sources (.start agendas),fun positions final ran => ?_⟩
    have steps := work_of_run nodup inv ran
    omega
  · exact fun _ final _ => finished_or_step walk units final
  · exact fun _ _ ran finished => (inv_of_run nodup inv ran).applied_of_finished finished

section AppliesOnce
variable {start : State Source WorkUnit Element} {all other : List Element}

theorem AppliesOnce.exists_finished (once : AppliesOnce walk units start all) :
    ∃ positions final, run (step walk units) start positions = some final ∧ final.finished = true := by
  by_contra none_
  have longer (length : Nat) : ∃ positions final, run (step walk units) start positions = some final ∧
      positions.length = length := by
    induction length with
    | zero => exact ⟨[],start,rfl,rfl⟩
    | succ length ih =>
      obtain ⟨positions,final,ran,same⟩ := ih
      obtain finished | ⟨position,next,stepped⟩ := once.goes positions final ran
      · exact absurd ⟨positions,final,ran,finished⟩ none_
      · refine ⟨positions ++ [position],next,?_,by simp [same]⟩
        rw [run_append,ran,Option.bind_some,run_cons,stepped]
        rfl
  obtain ⟨bound,bounded⟩ := once.bounded
  obtain ⟨positions,final,ran,same⟩ := longer (bound + 1)
  have short := bounded positions final ran
  omega

theorem AppliesOnce.perm (once : AppliesOnce walk units start all) (also : AppliesOnce walk units start other) :
    all.Perm other := by
  obtain ⟨positions,final,ran,finished⟩ := once.exists_finished
  exact (once.once positions final ran finished).symm.trans (also.once positions final ran finished)

theorem AppliesOnce.of_perm (once : AppliesOnce walk units start all) (same : all.Perm other) :
    AppliesOnce walk units start other :=
  ⟨once.bounded,once.goes,fun positions final ran finished => (once.once positions final ran finished).trans same⟩

end AppliesOnce

end Pgasus.Cursors
