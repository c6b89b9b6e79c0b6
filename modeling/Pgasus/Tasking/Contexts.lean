import Pgasus.Tasking.PlaceStacks

/-! The stacks that workers and tasks run on. Which context a jump leaves, where it goes
on later and which one it enters is told step by step; a jump into a context that does
not wait there is recorded as lost. -/
namespace Pgasus.Contexts
open Runs
open Tasking (Task Worker Status)

variable {Place : Type}

/-- Contexts are named in the order of their construction. -/
abbrev Context := Nat
abbrev Scheduler := Nat

inductive Saved
  | fresh
  | loop
  | task (task : Task)
  | exited
deriving DecidableEq

def Saved.neutral : Saved → Bool
  | .fresh => true
  | .loop => true
  | .task _ => false
  | .exited => false

/-- Where a thread is in `drop_task`: it has its neutral context and has not jumped yet,
or it has come back and has not put the other context away. -/
inductive Hop
  | still
  | dropping (waits : Bool)
  | resuming
deriving DecidableEq

/-- `executing` is the context whose stack the thread uses; none is its native one. -/
structure Frame where
  currCtx : Option Context
  executing : Option Context
  readyContexes : List Context
  hop : Hop

structure State (Place : Type) where
  workers : Workers.State Place
  frames : Worker → Frame
  cache : Scheduler → List Context
  constructed : Nat
  contexts : Task → Option Context
  saved : Context → Saved
  lost : Bool

def State.start (count : Nat) : State Place :=
  ⟨.start count,fun _ => ⟨none,none,[],.still⟩,fun _ => [],0,fun _ => none,fun _ => .fresh,false⟩

inductive Action (Place : Type)
  | start (worker : Worker)
  | acquire (worker : Worker) (waits : Bool)
  | stash (worker : Worker)
  | store (worker : Worker)
  | workers (action : Workers.Action Place)

namespace State
variable (state : State Place)

def setFrame (worker : Worker) (frame : Frame) : State Place :=
  {state with frames := Function.update state.frames worker frame}

/-- A worker's own contexts first, then those of its scheduler's cache. -/
def getNeutralContext (scheduler : Scheduler) (worker : Worker) : Context × State Place :=
  let frame := state.frames worker
  match frame.readyContexes.getLast? with
  | some ctx => (ctx,state.setFrame worker {frame with readyContexes := frame.readyContexes.dropLast})
  | none =>
    match (state.cache scheduler).getLast? with
    | some ctx => (ctx,{state with cache := Function.update state.cache scheduler (state.cache scheduler).dropLast})
    | none => (state.constructed,{state with
        constructed := state.constructed + 1
        saved := Function.update state.saved state.constructed .fresh})

/-- The thread leaves one stack for another. It has to be on the first, and the second has
to wait for it. -/
def jump (worker : Worker) (source target : Option Context) (after : Saved) (expected : Saved → Bool) (hop : Hop) :
    State Place :=
  match source, target with
  | some source, some target =>
    let frame := state.frames worker
    {state.setFrame worker {frame with executing := some target,hop := hop} with
      saved := Function.update state.saved source after
      lost := state.lost || frame.executing ≠ some source || !expected (state.saved target)}
  | _, _ => {state with lost := true}

/-- The jump of `run`, from the native stack. -/
def enter (worker : Worker) (ctx : Context) : State Place :=
  let frame := state.frames worker
  {state.setFrame worker {frame with currCtx := some ctx,executing := some ctx} with
    lost := state.lost || frame.executing ≠ none || !(state.saved ctx).neutral}

/-- The jump back to the native stack; the context is never used again. -/
def leave (worker : Worker) : State Place :=
  let frame := state.frames worker
  match frame.currCtx with
  | some ctx =>
    {state.setFrame worker {frame with executing := none} with
      saved := Function.update state.saved ctx .exited
      lost := state.lost || frame.executing ≠ some ctx}
  | none => {state with lost := true}

def effect (next : Workers.State Place) (action : Workers.Action Place) : State Place :=
  let moved := {state with workers := next}
  match action with
  | .drop worker _ =>
    match state.workers.pc worker with
    | some (.running task) =>
      moved.jump worker (state.contexts task) (state.frames worker).currCtx (.task task) Saved.neutral .still
    | _ => moved
  | .advance worker _ =>
    match state.workers.pc worker with
    | some (.scheduled task) =>
      if (state.workers.tasks task).hasStarted then
        moved.jump worker (state.frames worker).currCtx (state.contexts task) .loop (· = .task task) .resuming
      else {moved with contexts := Function.update state.contexts task (state.frames worker).currCtx}
    | pc => if pc ≠ some .ended ∧ next.pc worker = some .ended then moved.leave worker else moved
  | _ => moved

def allowed : Workers.Action Place → Bool
  | .push worker _ => (state.frames worker).hop = .still
  | .pop worker => (state.frames worker).hop = .still
  | .finish worker => (state.frames worker).hop = .still
  | .take worker _ => (state.frames worker).currCtx.isSome
  | .advance worker _ => (state.frames worker).currCtx.isSome && (state.frames worker).hop = .still
  | .drop worker waits => (state.frames worker).hop = .dropping waits
  | _ => true

end State

def step (home : Worker → Scheduler) (state : State Place) : Action Place → Option (State Place)
  -- WorkerThread::run
  | .start worker =>
    match state.workers.pc worker, (state.frames worker).currCtx with
    | some .loop, none =>
      let (ctx,state) := state.getNeutralContext (home worker) worker
      some (state.enter worker ctx)
    | _, _ => none
  -- drop_task up to the jump
  | .acquire worker waits =>
    match state.workers.pc worker with
    | some (.running _) =>
      if (state.frames worker).hop = .still then
        let (ctx,state) := state.getNeutralContext (home worker) worker
        some (state.setFrame worker {state.frames worker with currCtx := some ctx,hop := .dropping waits})
      else none
    | _ => none
  -- drop_task after the jump, with its assertion
  | .stash worker =>
    match state.workers.pc worker, (state.frames worker).currCtx, (state.frames worker).hop with
    | some (.running task), some ctx, .resuming =>
      let frame := state.frames worker
      some {state.setFrame worker
          {frame with readyContexes := frame.readyContexes ++ [ctx],currCtx := state.contexts task,hop := .still} with
        lost := state.lost || state.contexts task = some ctx}
    | _, _, _ => none
  -- a round of the loop of the destructor
  | .store worker =>
    if state.workers.destructed worker then
      match (state.frames worker).readyContexes with
      | ctx::rest =>
        some {state.setFrame worker {state.frames worker with readyContexes := rest} with
          cache := Function.update state.cache (home worker) (state.cache (home worker) ++ [ctx])}
      | [] => none
    else none
  | .workers action =>
    if state.allowed action then (Workers.step state.workers action).map (state.effect · action) else none

inductive Phase
  | loop
  | task (task : Task)
  | ended
deriving DecidableEq

def phaseOf : Workers.Pc → Phase
  | .running task => .task task
  | .finished task => .task task
  | .ended => .ended
  | _ => .loop

section Workers
open Workers (WorkerThread)
variable {state next : Workers.State Place} {action : Workers.Action Place} {worker : Worker} {old new : WorkerThread Place}

def phase (state : Workers.State Place) (worker : Worker) : Phase :=
  ((state.pc worker).map phaseOf).getD .loop

def Live (state : Workers.State Place) (task : Task) : Prop :=
  (state.tasks task).hasStarted = true ∧ (state.tasks task).status ≠ .completed

def Rested (state : Workers.State Place) : Prop := ∀ task, (state.tasks task).status = .completed →
  task ∉ state.queued ∧ ∀ thread ∈ state.workers, thread.pc.holds ≠ some task

theorem pc_eq (here : state.workers[worker]? = some old) : state.pc worker = some old.pc := by
  rw [Workers.State.pc,here]
  rfl

theorem phase_eq (here : state.workers[worker]? = some old) : phase state worker = phaseOf old.pc := by
  rw [phase,pc_eq here]
  rfl

theorem phase_set (here : state.workers[worker]? = some old) (workers : next.workers = state.workers.set worker new)
    (other : Worker) : phase next other = if other = worker then phaseOf new.pc else phase state other := by
  have bound := (List.getElem?_eq_some_iff.mp here).1
  simp only [phase,Workers.State.pc,workers,List.getElem?_set]
  by_cases same : other = worker
  · simp [same,bound]
  · simp [same,Ne.symm same]

theorem holds_of_phase {task : Task} (here : phase state worker = .task task) :
    ∃ thread, state.workers[worker]? = some thread ∧ thread.pc.holds = some task := by
  unfold phase Workers.State.pc at here
  cases found : state.workers[worker]? with
  | none =>
    rw [found] at here
    cases here
  | some thread =>
    rw [found] at here
    refine ⟨thread,rfl,?_⟩
    change phaseOf thread.pc = .task task at here
    cases pc : thread.pc <;> rw [pc] at here <;> cases here <;> rfl

@[simp] theorem tasks_setWorker (thread : WorkerThread Place) : (state.setWorker worker thread).tasks = state.tasks := rfl

@[simp] theorem tasks_putTask (task : Task) : (state.putTask task).tasks = state.tasks := rfl

@[simp] theorem tasks_lookHome (task : Task) : (state.lookHome task).tasks = state.tasks := rfl

theorem rested_replace (rested : Rested state) (task : Task)
    (here : state.workers[worker]? = some old) (workers : next.workers = state.workers.set worker new)
    (holds : new.pc.holds = none ∨ new.pc.holds = old.pc.holds ∨ new.pc.holds = some task)
    (queued : ∀ other, other ∈ next.queued → other ∈ state.queued ∨ other = task)
    (tasks : ∀ other, other ≠ task → (next.tasks other).status = (state.tasks other).status)
    (own : (next.tasks task).status ≠ .completed) : Rested next := by
  intro other completed
  have different : other ≠ task := fun same => own (same ▸ completed)
  obtain ⟨missing,free⟩ := rested other ((tasks other different).symm.trans completed)
  refine ⟨fun member => ?_,fun thread member same => ?_⟩
  · rcases queued other member with before | new
    · exact missing before
    · exact different new
  · rw [workers] at member
    rcases List.mem_or_eq_of_mem_set member with old_ | rfl
    · exact free thread old_ same
    · rcases holds with none_ | kept | one
      · cases none_.symm.trans same
      · exact free old (List.mem_of_getElem? here) (kept.symm.trans same)
      · exact different (Option.some.inj (same.symm.trans one))

theorem rested_step (inv : Workers.Inv state) (rested : Rested state) (effect : Workers.Effect state action next) :
    Rested next := by
  cases effect with
  | quiet worker old new here workers holds _ _ _ _ _ _ _ tasks queued _ _ =>
    intro task completed
    have before : (state.tasks task).status = .completed := by
      rcases tasks task with same | ⟨_,same⟩ <;> rw [same] at completed <;> exact completed
    obtain ⟨missing,free⟩ := rested task before
    refine ⟨queued ▸ missing,fun thread member => ?_⟩
    rw [workers] at member
    rcases List.mem_or_eq_of_mem_set member with old_ | rfl
    · exact free thread old_
    · exact holds ▸ free old (List.mem_of_getElem? here)
  | lost worker old task waits here pc _ =>
    intro other completed
    obtain ⟨missing,free⟩ := rested other completed
    refine ⟨missing,fun thread member => ?_⟩
    rcases List.mem_or_eq_of_mem_set member with old_ | rfl
    · exact free thread old_
    · exact fun contrary => by cases contrary
  | suspended worker old task here pc =>
    refine rested_replace rested task here rfl (.inl rfl) (fun other member => ?_) (fun other different => ?_) ?_
    · exact (List.mem_append.mp member).imp_right List.mem_singleton.mp
    · simp only [tasks_setWorker,tasks_putTask,Workers.modify_other different]
    · exact fun contrary => by simp [Workers.State.setWorker,Workers.State.putTask,Workers.State.modify] at contrary
  | waited worker old task here pc =>
    refine rested_replace rested task here rfl (.inl rfl) (fun other => .inl) (fun other different => ?_) ?_
    · simp only [tasks_setWorker,Workers.modify_other different]
    · exact fun contrary => by simp [Workers.State.setWorker,Workers.State.modify] at contrary
  | took worker old task here pc member =>
    refine rested_replace rested task here rfl (.inr (.inr rfl)) (fun other inside => ?_) (fun _ _ => rfl) ?_
    · exact .inl (List.mem_of_mem_erase inside)
    · exact fun completed => (rested task completed).1 member
  | scheduled worker old task here pc =>
    refine rested_replace rested task here rfl (.inr (.inr rfl)) (fun other => .inl) (fun other different => ?_) ?_
    · simp only [tasks_setWorker,Workers.modify_other different]
    · exact fun contrary => by simp [Workers.State.setWorker,Workers.State.modify] at contrary
  | completed worker old task here pc =>
    have held : old.pc.holds = some task := by rw [pc]; rfl
    intro other completed
    obtain rfl | different := eq_or_ne other task
    · obtain ⟨_,missing,_⟩ := inv.held here held
      refine ⟨fun member => ?_,fun thread member same => ?_⟩
      · have counted := List.count_pos_iff.mpr member
        change 0 < state.queued.count other at counted
        omega
      · obtain ⟨place,found⟩ := List.mem_iff_getElem?.mp member
        simp only [Workers.State.setWorker,List.getElem?_set] at found
        split at found
        next =>
          split at found
          next =>
            obtain rfl := Option.some.inj found
            cases same
          next => cases found
        next apart => exact apart (inv.alone here found held same)
    · simp only [tasks_setWorker,Workers.modify_other different] at completed
      obtain ⟨missing,free⟩ := rested other completed
      refine ⟨missing,fun thread member => ?_⟩
      rcases List.mem_or_eq_of_mem_set member with old_ | rfl
      · exact free thread old_
      · exact fun contrary => by cases contrary
  | changed worker old task tls pushed here pc _ _ =>
    refine rested_replace rested task here rfl (.inr (.inl rfl)) (fun other => .inl) (fun other different => ?_) ?_
    · simp only [tasks_setWorker,Workers.modify_other different]
    · have running := (inv.runs old (List.mem_of_getElem? here) task (by rw [pc]; rfl)).1
      intro contrary
      simp [Workers.State.setWorker,Workers.State.modify,running] at contrary
  | notified task waiting =>
    intro other completed
    obtain rfl | different := eq_or_ne other task
    · simp [Workers.State.putTask,Workers.State.modify] at completed
    · simp only [tasks_putTask,tasks_lookHome,Workers.modify_other different] at completed
      obtain ⟨missing,free⟩ := rested other completed
      refine ⟨fun member => ?_,free⟩
      rcases List.mem_append.mp member with before | new
      · exact missing before
      · exact different (List.mem_singleton.mp new)
  | looked task => exact rested
  | spawned =>
    intro other completed
    obtain ⟨missing,free⟩ := rested other completed
    refine ⟨fun member => ?_,free⟩
    rcases List.mem_append.mp member with before | new
    · exact missing before
    · obtain rfl := List.mem_singleton.mp new
      have fresh := inv.unborn state.spawned (Nat.le_refl _)
      change (state.tasks state.spawned).status = .completed at completed
      rw [fresh] at completed
      cases completed
  | created =>
    intro other completed
    obtain ⟨missing,free⟩ := rested other completed
    refine ⟨missing,fun thread member => ?_⟩
    rcases List.mem_append.mp member with before | new
    · exact free thread before
    · obtain rfl := List.mem_singleton.mp new
      exact fun contrary => by cases contrary

end Workers

/-- Who has a context. `executed` is the stack that a thread is on between the two steps
of `drop_task`, where it is not the current one; a context that is not constructed yet
has a holder of its own, from which the first owner gets it. -/
inductive Holder
  | curr (worker : Worker)
  | executed (worker : Worker)
  | ready (worker : Worker)
  | cached (scheduler : Scheduler)
  | task (task : Task)
  | unmade
deriving DecidableEq

def Suspended (workers : Workers.State Place) (task : Task) : Prop :=
  Live workers task ∧ ∀ worker, phase workers worker ≠ .task task

def State.Holds (state : State Place) : Holder → Context → Prop
  | .curr worker, ctx => (state.frames worker).currCtx = some ctx
  | .executed worker, ctx => (state.frames worker).hop ≠ .still ∧ (state.frames worker).executing = some ctx
  | .ready worker, ctx => ctx ∈ (state.frames worker).readyContexes
  | .cached scheduler, ctx => ctx ∈ state.cache scheduler
  | .task task, ctx => Suspended state.workers task ∧ state.contexts task = some ctx
  | .unmade, ctx => state.constructed ≤ ctx

def Unique (holds : Holder → Context → Prop) : Prop :=
  ∀ first second ctx, holds first ctx → holds second ctx → first = second

theorem Unique.passed {holds held : Holder → Context → Prop} (unique : Unique held) (target : Holder → Context → Holder)
    (passed : ∀ holder ctx, holds holder ctx → ∃ giver, held giver ctx ∧ target giver ctx = holder) : Unique holds := by
  intro first second ctx one other
  obtain ⟨giver,gave,rfl⟩ := passed first ctx one
  obtain ⟨also,given,rfl⟩ := passed second ctx other
  rw [unique giver also ctx gave given]

structure Framed (contexts : Task → Option Context) (frame : Frame) (phase : Phase) : Prop where
  unborn : frame.currCtx = none → frame.readyContexes = [] ∧ phase = .loop
  loop : phase = .loop → frame.executing = frame.currCtx ∧ frame.hop = .still
  task : ∀ task, phase = .task task → frame.executing.isSome = true ∧ frame.executing = contexts task ∧
    (frame.hop = .still → frame.executing = frame.currCtx)
  ended : phase = .ended → frame.executing = none ∧ frame.hop = .still

structure Inv (state : State Place) : Prop where
  workers : Workers.Inv state.workers
  rested : Rested state.workers
  unique : Unique state.Holds
  readyOnce : ∀ worker, (state.frames worker).readyContexes.Nodup
  cachedOnce : ∀ scheduler, (state.cache scheduler).Nodup
  readyNeutral : ∀ worker ctx, ctx ∈ (state.frames worker).readyContexes → (state.saved ctx).neutral = true
  cachedNeutral : ∀ scheduler ctx, ctx ∈ state.cache scheduler → (state.saved ctx).neutral = true
  hopping : ∀ worker, (state.frames worker).hop ≠ .still →
    ∃ ctx, (state.frames worker).currCtx = some ctx ∧ (state.saved ctx).neutral = true
  suspended : ∀ task, Suspended state.workers task → ∃ ctx, state.contexts task = some ctx ∧ state.saved ctx = .task task
  framed : ∀ worker, Framed state.contexts (state.frames worker) (phase state.workers worker)
  found : state.lost = false

section Neutral
variable {state : State Place} {scheduler : Scheduler} {worker : Worker} {ctx : Context} {taken : State Place}

structure Handed (state taken : State Place) (ctx : Context) : Prop where
  workers : taken.workers = state.workers
  contexts : taken.contexts = state.contexts
  lost : taken.lost = state.lost
  frames : ∀ other, (taken.frames other).currCtx = (state.frames other).currCtx ∧
    (taken.frames other).executing = (state.frames other).executing ∧ (taken.frames other).hop = (state.frames other).hop
  bare : ∀ other, (state.frames other).readyContexes = [] → (taken.frames other).readyContexes = []
  holds : ∀ holder other, taken.Holds holder other → state.Holds holder other ∧ other ≠ ctx
  giver : ∃ holder, state.Holds holder ctx ∧ ((∃ owner, holder = .ready owner) ∨ (∃ owner, holder = .cached owner) ∨ holder = .unmade)
  neutral : (taken.saved ctx).neutral = true
  saved : ∀ other, other ≠ ctx → taken.saved other = state.saved other
  readyOnce : ∀ other, (taken.frames other).readyContexes.Nodup
  cachedOnce : ∀ owner, (taken.cache owner).Nodup

theorem mem_dropLast_nodup {members : List Context} (nodup : members.Nodup) (last : members.getLast? = some ctx)
    {other : Context} (inside : other ∈ members.dropLast) : other ∈ members ∧ other ≠ ctx := by
  obtain ⟨front,rfl⟩ := List.getLast?_eq_some_iff.mp last
  rw [List.dropLast_concat] at inside
  refine ⟨List.mem_append_left _ inside,?_⟩
  rintro rfl
  exact (List.nodup_append.mp nodup).2.2 other inside other (List.mem_singleton_self other) rfl

theorem Unique.left {holds held : Holder → Context → Prop} (unique : Unique held)
    (kept : ∀ holder other, holds holder other → held holder other) (giver : Holder) (gave : held giver ctx)
    (gone : ¬holds giver ctx) (holder : Holder) (other : Context) (here : holds holder other) :
    held holder other ∧ other ≠ ctx := by
  refine ⟨kept holder other here,?_⟩
  rintro rfl
  obtain rfl := unique holder giver other (kept holder other here) gave
  exact gone here

theorem frames_setFrame (frame : Frame) (other : Worker) :
    (state.setFrame worker frame).frames other = if other = worker then frame else state.frames other := by
  simp [State.setFrame,Function.update_apply]

theorem handed_ready (inv : Inv state) (last : (state.frames worker).readyContexes.getLast? = some ctx) :
    Handed state (state.setFrame worker {state.frames worker with
      readyContexes := (state.frames worker).readyContexes.dropLast}) ctx := by
  have member : ctx ∈ (state.frames worker).readyContexes := List.mem_of_getLast? last
  have taken (other : Context) (inside : other ∈ (state.frames worker).readyContexes.dropLast) :=
    mem_dropLast_nodup (inv.readyOnce worker) last inside
  constructor
  · rfl
  · rfl
  · rfl
  · intro other
    rw [frames_setFrame]
    split
    next same =>
      rw [same]
      exact ⟨rfl,rfl,rfl⟩
    next => exact ⟨rfl,rfl,rfl⟩
  · intro other empty
    rw [frames_setFrame]
    split
    next same =>
      rw [same] at empty
      simp [empty]
    next => exact empty
  · refine inv.unique.left (fun holder other here => ?_) (.ready worker) member fun inside => ?_
    · cases holder with
      | curr owner =>
        simp only [State.Holds,frames_setFrame] at here ⊢
        split at here
        next same => exact same ▸ here
        next => exact here
      | executed owner =>
        simp only [State.Holds,frames_setFrame] at here ⊢
        split at here
        next same => exact same ▸ here
        next => exact here
      | ready owner =>
        simp only [State.Holds,frames_setFrame] at here ⊢
        split at here
        next same => exact same ▸ (taken other here).1
        next => exact here
      | cached owner => exact here
      | task owner => exact here
      | unmade => exact here
    · simp only [State.Holds,frames_setFrame,if_true] at inside
      exact (taken ctx inside).2 rfl
  · exact ⟨.ready worker,member,.inl ⟨worker,rfl⟩⟩
  · exact inv.readyNeutral worker ctx member
  · exact fun _ _ => rfl
  · intro other
    rw [frames_setFrame]
    split
    next => exact (inv.readyOnce worker).sublist (List.dropLast_sublist _)
    next => exact inv.readyOnce other
  · exact inv.cachedOnce

theorem handed_cached (inv : Inv state) (last : (state.cache scheduler).getLast? = some ctx) :
    Handed state {state with cache := Function.update state.cache scheduler (state.cache scheduler).dropLast} ctx := by
  have member : ctx ∈ state.cache scheduler := List.mem_of_getLast? last
  have taken (other : Context) (inside : other ∈ (state.cache scheduler).dropLast) :=
    mem_dropLast_nodup (inv.cachedOnce scheduler) last inside
  constructor
  · rfl
  · rfl
  · rfl
  · exact fun _ => ⟨rfl,rfl,rfl⟩
  · exact fun _ => id
  · refine inv.unique.left (fun holder other here => ?_) (.cached scheduler) member fun inside => ?_
    · cases holder with
      | cached owner =>
        simp only [State.Holds,Function.update_apply] at here ⊢
        split at here
        next same => exact same ▸ (taken other here).1
        next => exact here
      | curr owner => exact here
      | executed owner => exact here
      | ready owner => exact here
      | task owner => exact here
      | unmade => exact here
    · simp only [State.Holds,Function.update_self] at inside
      exact (taken ctx inside).2 rfl
  · exact ⟨.cached scheduler,member,.inr (.inl ⟨scheduler,rfl⟩)⟩
  · exact inv.cachedNeutral scheduler ctx member
  · exact fun _ _ => rfl
  · exact inv.readyOnce
  · intro owner
    dsimp only
    rw [Function.update_apply]
    split
    next => exact (inv.cachedOnce scheduler).sublist (List.dropLast_sublist _)
    next => exact inv.cachedOnce owner

theorem handed_made (inv : Inv state) : Handed state {state with
    constructed := state.constructed + 1
    saved := Function.update state.saved state.constructed .fresh} state.constructed := by
  have least : state.Holds .unmade state.constructed := Nat.le_refl _
  constructor
  · rfl
  · rfl
  · rfl
  · exact fun _ => ⟨rfl,rfl,rfl⟩
  · exact fun _ => id
  · refine inv.unique.left (fun holder other here => ?_) (.unmade) least (Nat.not_succ_le_self _)
    cases holder with
    | unmade => exact Nat.le_of_succ_le here
    | cached owner => exact here
    | curr owner => exact here
    | executed owner => exact here
    | ready owner => exact here
    | task owner => exact here
  · exact ⟨.unmade,least,.inr (.inr rfl)⟩
  · simp [Saved.neutral]
  · exact fun other different => Function.update_of_ne different _ _
  · exact inv.readyOnce
  · exact inv.cachedOnce

theorem getNeutralContext_spec (inv : Inv state) (found : state.getNeutralContext scheduler worker = (ctx,taken)) :
    Handed state taken ctx := by
  unfold State.getNeutralContext at found
  dsimp only at found
  split at found
  next own last =>
    obtain ⟨rfl,rfl⟩ := Prod.mk.inj found
    exact handed_ready inv last
  next =>
    split at found
    next shared last =>
      obtain ⟨rfl,rfl⟩ := Prod.mk.inj found
      exact handed_cached inv last
    next =>
      obtain ⟨rfl,rfl⟩ := Prod.mk.inj found
      exact handed_made inv

section Handed
variable (inv : Inv state) (handed : Handed state taken ctx)
include handed

theorem Handed.kept (holder : Holder) {other : Context} (here : taken.Holds holder other) :
    taken.saved other = state.saved other :=
  handed.saved other (handed.holds holder other here).2

theorem Handed.curr {other : Worker} {held : Context} (here : (state.frames other).currCtx = some held) :
    taken.saved held = state.saved held :=
  handed.kept (.curr other) ((handed.frames other).1.trans here)

include inv

theorem Handed.readyNeutral (other : Worker) (held : Context) (inside : held ∈ (taken.frames other).readyContexes) :
    (taken.saved held).neutral = true := by
  rw [handed.kept (.ready other) inside]
  exact inv.readyNeutral other held (handed.holds (.ready other) held inside).1

theorem Handed.cachedNeutral (owner : Scheduler) (held : Context) (inside : held ∈ taken.cache owner) :
    (taken.saved held).neutral = true := by
  rw [handed.kept (.cached owner) inside]
  exact inv.cachedNeutral owner held (handed.holds (.cached owner) held inside).1

theorem Handed.hopping {other : Worker} (here : (taken.frames other).hop ≠ .still) :
    ∃ held, (taken.frames other).currCtx = some held ∧ (taken.saved held).neutral = true := by
  obtain ⟨curr,_,hop⟩ := handed.frames other
  obtain ⟨held,found,neutral⟩ := inv.hopping other (hop ▸ here)
  exact ⟨held,curr.trans found,by rw [handed.curr found]; exact neutral⟩

theorem Handed.suspended (task : Task) (here : Suspended taken.workers task) :
    ∃ held, taken.contexts task = some held ∧ taken.saved held = .task task := by
  have before : Suspended state.workers task := handed.workers ▸ here
  obtain ⟨held,found,waits⟩ := inv.suspended task before
  have same : taken.contexts task = some held := by rw [handed.contexts,found]
  exact ⟨held,same,(handed.kept (.task task) ⟨here,same⟩).trans waits⟩

theorem Handed.framed (other : Worker) : Framed taken.contexts (taken.frames other) (phase taken.workers other) := by
  obtain ⟨curr,exec,hop⟩ := handed.frames other
  have frame := inv.framed other
  rw [handed.contexts,handed.workers]
  constructor
  · intro none_
    obtain ⟨empty,loop⟩ := frame.unborn (curr.symm.trans none_)
    exact ⟨handed.bare other empty,loop⟩
  · rw [exec,curr,hop]
    exact frame.loop
  · rw [exec,curr,hop]
    exact frame.task
  · rw [exec,hop]
    exact frame.ended

end Handed
end Neutral

section Hops
variable {state next : State Place} {home : Worker → Scheduler} {worker : Worker} {ctx : Context}

theorem Unique.gives {holds held : Holder → Context → Prop} (unique : Unique held) (giver receiver : Holder)
    (gave : held giver ctx) (passed : ∀ holder other, holds holder other →
      holder = receiver ∧ other = ctx ∨ held holder other ∧ other ≠ ctx) : Unique holds := by
  refine unique.passed (fun holder other => if other = ctx then receiver else holder) fun holder other here => ?_
  rcases passed holder other here with ⟨rfl,rfl⟩ | ⟨before,different⟩
  · exact ⟨giver,gave,if_pos rfl⟩
  · exact ⟨holder,before,if_neg different⟩

theorem Inv.apart (inv : Inv state) (first second : Holder) {other : Context} (one : state.Holds first ctx)
    (also : state.Holds second other) (different : first ≠ second) : ctx ≠ other :=
  fun same => different (inv.unique first second other (same ▸ one) also)

theorem start_keeps (inv : Inv state) (stepped : step home state (.start worker) = some next) : Inv next := by
  simp only [step] at stepped
  split at stepped
  next pc bare =>
    obtain ⟨own,found⟩ : ∃ own, own = state.getNeutralContext (home worker) worker := ⟨_,rfl⟩
    obtain ⟨ctx,taken⟩ := own
    rw [← found] at stepped
    obtain rfl := Option.some.inj stepped
    have handed := getNeutralContext_spec inv found.symm
    have frame := inv.framed worker
    obtain ⟨empty,loop⟩ := frame.unborn bare
    obtain ⟨native,still⟩ := frame.loop loop
    obtain ⟨currs,execs,hops⟩ := handed.frames worker
    have frames (other : Worker) : (taken.enter worker ctx).frames other = if other = worker then
        {taken.frames worker with currCtx := some ctx,executing := some ctx} else taken.frames other := frames_setFrame _ other
    obtain ⟨giver,gave,kind⟩ := handed.giver
    constructor
    · exact handed.workers ▸ inv.workers
    · exact handed.workers ▸ inv.rested
    · refine inv.unique.gives giver (.curr worker) gave fun holder other here => ?_
      have before (held : taken.Holds holder other) : holder = .curr worker ∧ other = ctx ∨
          state.Holds holder other ∧ other ≠ ctx := .inr (handed.holds holder other held)
      cases holder with
      | curr owner =>
        simp only [State.Holds,frames] at here
        split at here
        next same => exact .inl ⟨by rw [same],(Option.some.inj here).symm⟩
        next => exact before here
      | executed owner =>
        simp only [State.Holds,frames] at here
        split at here
        next same => exact absurd (hops.trans still) here.1
        next => exact before here
      | ready owner =>
        simp only [State.Holds,frames] at here
        split at here
        next same => exact before (same ▸ here)
        next => exact before here
      | cached owner => exact before here
      | task owner => exact before here
      | unmade => exact before here
    · intro other
      rw [frames]
      split
      next => exact handed.readyOnce worker
      next => exact handed.readyOnce other
    · exact handed.cachedOnce
    · intro other held inside
      apply handed.readyNeutral inv other held
      rw [frames] at inside
      split at inside
      next same => exact same ▸ inside
      next => exact inside
    · exact fun owner held inside => handed.cachedNeutral inv owner held inside
    · intro other here
      rw [frames] at here ⊢
      split at here
      next => exact absurd (hops.trans still) here
      next apart =>
        rw [if_neg apart]
        exact handed.hopping inv here
    · exact fun task here => handed.suspended inv task here
    · intro other
      rw [frames]
      split
      next same =>
        change Framed taken.contexts _ (phase taken.workers other)
        rw [same,handed.workers,loop]
        exact ⟨(fun none_ => by cases none_),fun _ => ⟨rfl,hops.trans still⟩,(fun _ none_ => by cases none_),
          (fun none_ => by cases none_)⟩
      next => exact handed.framed inv other
    · change (taken.lost || _ || _) = false
      rw [handed.lost,inv.found,execs,native,bare,handed.neutral]
      rfl
  next => cases stepped

theorem phase_of_pc {workers : Workers.State Place} {pc : Workers.Pc} (here : workers.pc worker = some pc) :
    phase workers worker = phaseOf pc := by
  rw [phase,here]
  rfl

theorem acquire_keeps (inv : Inv state) {waits : Bool} (stepped : step home state (.acquire worker waits) = some next) :
    Inv next := by
  simp only [step] at stepped
  split at stepped
  next task pc =>
    split at stepped
    next still =>
      obtain ⟨own,found⟩ : ∃ own, own = state.getNeutralContext (home worker) worker := ⟨_,rfl⟩
      obtain ⟨ctx,taken⟩ := own
      rw [← found] at stepped
      obtain rfl := Option.some.inj stepped
      have handed := getNeutralContext_spec inv found.symm
      have running : phase state.workers worker = .task task := phase_of_pc pc
      obtain ⟨on,own,same⟩ := (inv.framed worker).task task running
      obtain ⟨currs,execs,hops⟩ := handed.frames worker
      have frames (other : Worker) : ((taken.setFrame worker
          {taken.frames worker with currCtx := some ctx,hop := .dropping waits}).frames other) = if other = worker then
            {taken.frames worker with currCtx := some ctx,hop := .dropping waits} else taken.frames other :=
        frames_setFrame _ other
      obtain ⟨giver,gave,kind⟩ := handed.giver
      constructor
      · exact handed.workers ▸ inv.workers
      · exact handed.workers ▸ inv.rested
      · -- the new context becomes the current one, the current one the one that is executed
        refine inv.unique.passed (fun holder other => if other = ctx then .curr worker
          else if holder = .curr worker then .executed worker else holder) fun holder other here => ?_
        have before (held : taken.Holds holder other) (apart : holder ≠ .curr worker) : ∃ giver, state.Holds giver other ∧
            (if other = ctx then .curr worker else if giver = .curr worker then .executed worker else giver) = holder := by
          obtain ⟨held,different⟩ := handed.holds holder other held
          exact ⟨holder,held,by rw [if_neg different,if_neg apart]⟩
        cases holder with
        | curr owner =>
          simp only [State.Holds,frames] at here
          split at here
          next equal =>
            obtain rfl := Option.some.inj here
            exact ⟨giver,gave,by rw [if_pos rfl,equal]⟩
          next apart => exact before here fun equal => apart (Holder.curr.inj equal)
        | executed owner =>
          simp only [State.Holds,frames] at here
          split at here
          next equal =>
            have current : (state.frames worker).currCtx = some other := by
              rw [← same still,← execs]
              exact here.2
            have different := (handed.holds (.curr worker) other (currs.trans current)).2
            exact ⟨.curr worker,current,by rw [if_neg different,if_pos rfl,equal]⟩
          next => exact before here nofun
        | ready owner =>
          simp only [State.Holds,frames] at here
          split at here
          next equal => exact before (equal ▸ here) nofun
          next => exact before here nofun
        | cached owner => exact before here nofun
        | task owner => exact before here nofun
        | unmade => exact before here nofun
      · intro other
        rw [frames]
        split
        next => exact handed.readyOnce worker
        next => exact handed.readyOnce other
      · exact handed.cachedOnce
      · intro other held inside
        apply handed.readyNeutral inv other held
        rw [frames] at inside
        split at inside
        next same => exact same ▸ inside
        next => exact inside
      · exact fun owner held inside => handed.cachedNeutral inv owner held inside
      · intro other here
        rw [frames] at here ⊢
        split at here
        next equal =>
          rw [if_pos equal]
          exact ⟨ctx,rfl,handed.neutral⟩
        next apart =>
          rw [if_neg apart]
          exact handed.hopping inv here
      · exact fun task here => handed.suspended inv task here
      · intro other
        rw [frames]
        split
        next equal =>
          change Framed taken.contexts _ (phase taken.workers other)
          rw [equal,handed.workers,handed.contexts,running]
          refine ⟨(fun none_ => by cases none_),(fun none_ => by cases none_),fun again same => ?_,(fun none_ => by cases none_)⟩
          cases same
          exact ⟨by rw [execs]; exact on,execs.trans own,fun contrary => by cases contrary⟩
        next => exact handed.framed inv other
      · exact handed.lost.trans inv.found
    next => cases stepped
  next => cases stepped

theorem stash_keeps (inv : Inv state) (stepped : step home state (.stash worker) = some next) : Inv next := by
  simp only [step] at stepped
  split at stepped
  next task neutral pc current hop =>
    obtain rfl := Option.some.inj stepped
    have running : phase state.workers worker = .task task := phase_of_pc pc
    obtain ⟨on,own,_⟩ := (inv.framed worker).task task running
    have hopping : (state.frames worker).hop ≠ .still := by simp [hop]
    obtain ⟨waiting,sameWaiting,waits⟩ := inv.hopping worker hopping
    obtain rfl := Option.some.inj (current.symm.trans sameWaiting)
    have different {other : Context} (here : state.contexts task = some other) : other ≠ neutral :=
      inv.apart (.executed worker) (.curr worker) ⟨hopping,own.trans here⟩ current nofun
    have frames (other : Worker) : (state.setFrame worker {state.frames worker with
        readyContexes := (state.frames worker).readyContexes ++ [neutral],currCtx := state.contexts task,
        hop := .still}).frames other = if other = worker then {state.frames worker with
          readyContexes := (state.frames worker).readyContexes ++ [neutral],currCtx := state.contexts task,hop := .still}
        else state.frames other := frames_setFrame _ other
    have absent : neutral ∉ (state.frames worker).readyContexes := fun inside =>
      inv.apart (.curr worker) (.ready worker) current inside nofun rfl
    constructor
    · exact inv.workers
    · exact inv.rested
    · refine inv.unique.passed (fun holder _ => if holder = .curr worker then .ready worker
        else if holder = .executed worker then .curr worker else holder) fun holder other here => ?_
      cases holder with
      | curr owner =>
        simp only [State.Holds,frames] at here
        split at here
        next equal => exact ⟨.executed worker,⟨hopping,own.trans here⟩,by simp [equal]⟩
        next apart => exact ⟨.curr owner,here,by simp [apart]⟩
      | executed owner =>
        simp only [State.Holds,frames] at here
        split at here
        next => exact absurd rfl here.1
        next apart => exact ⟨.executed owner,here,by simp [apart]⟩
      | ready owner =>
        simp only [State.Holds,frames] at here
        split at here
        next equal =>
          rcases List.mem_append.mp here with inside | new
          · exact ⟨.ready worker,inside,by simp [equal]⟩
          · obtain rfl := List.mem_singleton.mp new
            exact ⟨.curr worker,current,by simp [equal]⟩
        next => exact ⟨.ready owner,here,by simp⟩
      | cached owner => exact ⟨.cached owner,here,by simp⟩
      | task owner => exact ⟨.task owner,here,by simp⟩
      | unmade => exact ⟨.unmade,here,by simp⟩
    · intro other
      dsimp only
      rw [frames]
      split
      next =>
        refine List.nodup_append.mpr ⟨inv.readyOnce worker,List.nodup_singleton _,fun first inside second last => ?_⟩
        rw [List.mem_singleton.mp last]
        exact fun same => absent (same ▸ inside)
      next => exact inv.readyOnce other
    · exact inv.cachedOnce
    · intro other held inside
      dsimp only at inside ⊢
      rw [frames] at inside
      split at inside
      next =>
        rcases List.mem_append.mp inside with before | new
        · exact inv.readyNeutral worker held before
        · exact List.mem_singleton.mp new ▸ waits
      next => exact inv.readyNeutral other held inside
    · exact inv.cachedNeutral
    · intro other here
      dsimp only at here ⊢
      rw [frames] at here ⊢
      split at here
      next => exact absurd rfl here
      next apart =>
        rw [if_neg apart]
        exact inv.hopping other here
    · exact inv.suspended
    · intro other
      dsimp only
      rw [frames]
      split
      next equal =>
        change Framed state.contexts _ (phase state.workers other)
        rw [equal,running]
        refine ⟨fun none_ => ?_,(fun none_ => by cases none_),fun again same => ?_,(fun none_ => by cases none_)⟩
        · rw [own,show state.contexts task = none from none_] at on
          cases on
        · cases same
          exact ⟨on,own,fun _ => own⟩
      next => exact inv.framed other
    · change (state.lost || decide (state.contexts task = some neutral)) = false
      rw [inv.found,Bool.false_or,decide_eq_false_iff_not]
      exact fun same => different same rfl
  next => cases stepped

theorem store_keeps (inv : Inv state) (stepped : step home state (.store worker) = some next) : Inv next := by
  simp only [step] at stepped
  split at stepped
  next =>
    split at stepped
    next ctx rest ready =>
      obtain rfl := Option.some.inj stepped
      have frames (other : Worker) : (state.setFrame worker {state.frames worker with readyContexes := rest}).frames other =
          if other = worker then {state.frames worker with readyContexes := rest} else state.frames other :=
        frames_setFrame _ other
      have held : ctx ∈ (state.frames worker).readyContexes := by simp [ready]
      have nodup := inv.readyOnce worker
      rw [ready,List.nodup_cons] at nodup
      constructor
      · exact inv.workers
      · exact inv.rested
      · refine inv.unique.gives (.ready worker) (.cached (home worker)) held fun holder other here => ?_
        have before {holder : Holder} (here : state.Holds holder other) (apart : holder ≠ .ready worker) :
            state.Holds holder other ∧ other ≠ ctx := ⟨here,inv.apart holder (.ready worker) here held apart⟩
        cases holder with
        | curr owner =>
          simp only [State.Holds,frames] at here
          split at here
          next same => exact .inr (before (same ▸ here) nofun)
          next => exact .inr (before here nofun)
        | executed owner =>
          simp only [State.Holds,frames] at here
          split at here
          next same => exact .inr (before (same ▸ here) nofun)
          next => exact .inr (before here nofun)
        | ready owner =>
          simp only [State.Holds,frames] at here
          split at here
          next same =>
            refine .inr ⟨?_,fun equal => nodup.1 (equal ▸ here)⟩
            change other ∈ (state.frames owner).readyContexes
            rw [same,ready]
            exact List.mem_cons_of_mem _ here
          next apart => exact .inr (before here fun equal => apart (Holder.ready.inj equal))
        | cached owner =>
          simp only [State.Holds,Function.update_apply] at here
          split at here
          next same =>
            rcases List.mem_append.mp here with inside | new
            · exact .inr (before (same ▸ inside) nofun)
            · exact .inl ⟨by rw [same],List.mem_singleton.mp new⟩
          next => exact .inr (before here nofun)
        | task owner => exact .inr (before here nofun)
        | unmade => exact .inr (before here nofun)
      · intro other
        dsimp only
        rw [frames]
        split
        next => exact nodup.2
        next => exact inv.readyOnce other
      · intro owner
        dsimp only
        rw [Function.update_apply]
        split
        next =>
          refine List.nodup_append.mpr ⟨inv.cachedOnce _,List.nodup_singleton _,fun first inside second last => ?_⟩
          rw [List.mem_singleton.mp last]
          exact inv.apart (.cached (home worker)) (.ready worker) inside held nofun
        next => exact inv.cachedOnce owner
      · intro other context inside
        dsimp only at inside ⊢
        rw [frames] at inside
        split at inside
        next => exact inv.readyNeutral worker context (ready ▸ List.mem_cons_of_mem _ inside)
        next => exact inv.readyNeutral other context inside
      · intro owner context inside
        dsimp only at inside ⊢
        rw [Function.update_apply] at inside
        split at inside
        next =>
          rcases List.mem_append.mp inside with before | new
          · exact inv.cachedNeutral _ context before
          · exact inv.readyNeutral worker context (List.mem_singleton.mp new ▸ held)
        next => exact inv.cachedNeutral owner context inside
      · intro other here
        dsimp only at here ⊢
        rw [frames] at here ⊢
        split at here
        next same =>
          rw [if_pos same]
          exact inv.hopping worker here
        next apart =>
          rw [if_neg apart]
          exact inv.hopping other here
      · exact inv.suspended
      · intro other
        dsimp only
        rw [frames]
        split
        next same =>
          change Framed state.contexts _ (phase state.workers other)
          rw [same]
          have frame := inv.framed worker
          refine ⟨fun none_ => ?_,frame.loop,frame.task,frame.ended⟩
          have empty := (frame.unborn none_).1
          rw [ready] at empty
          cases empty
        next => exact inv.framed other
      · exact inv.found
    next => cases stepped
  next => cases stepped

end Hops

section Jumps
variable {state : State Place} {next : Workers.State Place} {worker : Worker} {task : Task}

@[simp] def Holder.jumps : Holder → Bool
  | .executed _ => true
  | .task _ => true
  | _ => false

/-- What a jump leaves as it was; `left` has the only context that goes on elsewhere later. -/
structure Jumped (state after : State Place) (left : Holder) : Prop where
  curr : ∀ owner, (after.frames owner).currCtx = (state.frames owner).currCtx
  ready : ∀ owner, (after.frames owner).readyContexes = (state.frames owner).readyContexes
  cache : after.cache = state.cache
  constructed : after.constructed = state.constructed
  saved : ∀ holder ctx, holder ≠ left → state.Holds holder ctx → after.saved ctx = state.saved ctx

section Jumped
variable {after : State Place} {left : Holder}

theorem jumped_workers {contexts : Task → Option Context} :
    Jumped state {state with workers := next,contexts := contexts} .unmade :=
  ⟨fun _ => rfl,fun _ => rfl,rfl,rfl,fun _ _ _ _ => rfl⟩

theorem jumped_frame {executing : Option Context} {hop : Hop} {ctx : Context} {value : Saved} {lost : Bool} (inv : Inv state)
    (held : state.Holds left ctx) : Jumped state {({state with workers := next} : State Place).setFrame worker
        {state.frames worker with executing := executing,hop := hop} with
      saved := Function.update state.saved ctx value,lost := lost} left := by
  constructor
  · intro owner
    refine (congrArg Frame.currCtx (frames_setFrame _ owner)).trans ?_
    split
    next same => rw [same]
    next => rfl
  · intro owner
    refine (congrArg Frame.readyContexes (frames_setFrame _ owner)).trans ?_
    split
    next same => rw [same]
    next => rfl
  · rfl
  · rfl
  · intro holder other apart here
    exact Function.update_of_ne (inv.apart holder left here held apart) _ _

theorem Jumped.keeps (jumped : Jumped state after left) (inv : Inv state) (workers : Workers.Inv after.workers)
    (rested : Rested after.workers) (stored : (∀ owner, left ≠ .ready owner) ∧ ∀ owner, left ≠ .cached owner)
    (target : Holder → Holder) (fixed : ∀ holder, holder.jumps = false → target holder = holder)
    (passed : ∀ holder ctx, holder.jumps = true → after.Holds holder ctx →
      ∃ giver, state.Holds giver ctx ∧ target giver = holder)
    (hopping : ∀ owner, (after.frames owner).hop ≠ .still → left ≠ .curr owner ∧ (state.frames owner).hop ≠ .still ∨
      ∃ ctx, (after.frames owner).currCtx = some ctx ∧ (after.saved ctx).neutral = true)
    (suspended : ∀ other, Suspended after.workers other →
      left ≠ .task other ∧ Suspended state.workers other ∧ after.contexts other = state.contexts other ∨
        ∃ ctx, after.contexts other = some ctx ∧ after.saved ctx = .task other)
    (framed : ∀ owner, Framed after.contexts (after.frames owner) (phase after.workers owner)) (found : after.lost = false) :
    Inv after := by
  constructor
  · exact workers
  · exact rested
  · refine inv.unique.passed (fun holder _ => target holder) fun holder ctx here => ?_
    cases holder with
    | curr owner => exact ⟨.curr owner,(jumped.curr owner).symm.trans here,fixed _ rfl⟩
    | executed owner => exact passed _ ctx rfl here
    | ready owner =>
      have inside : ctx ∈ (after.frames owner).readyContexes := here
      rw [jumped.ready] at inside
      exact ⟨.ready owner,inside,fixed _ rfl⟩
    | cached owner =>
      have inside : ctx ∈ after.cache owner := here
      rw [jumped.cache] at inside
      exact ⟨.cached owner,inside,fixed _ rfl⟩
    | task owner => exact passed _ ctx rfl here
    | unmade => exact ⟨.unmade,Nat.le_trans (Nat.le_of_eq jumped.constructed.symm) here,fixed _ rfl⟩
  · intro owner
    rw [jumped.ready]
    exact inv.readyOnce owner
  · rw [jumped.cache]
    exact inv.cachedOnce
  · intro owner ctx inside
    rw [jumped.ready] at inside
    rw [jumped.saved (.ready owner) ctx (stored.1 owner).symm inside]
    exact inv.readyNeutral owner ctx inside
  · intro owner ctx inside
    rw [jumped.cache] at inside
    rw [jumped.saved (.cached owner) ctx (stored.2 owner).symm inside]
    exact inv.cachedNeutral owner ctx inside
  · intro owner here
    rcases hopping owner here with ⟨apart,before⟩ | now
    · obtain ⟨ctx,current,neutral⟩ := inv.hopping owner before
      refine ⟨ctx,(jumped.curr owner).trans current,?_⟩
      rw [jumped.saved (.curr owner) ctx apart.symm current]
      exact neutral
    · exact now
  · intro other here
    rcases suspended other here with ⟨apart,before,same⟩ | now
    · obtain ⟨ctx,context,waits⟩ := inv.suspended other before
      exact ⟨ctx,same.trans context,(jumped.saved (.task other) ctx apart.symm ⟨before,context⟩).trans waits⟩
    · exact now
  · exact framed
  · exact found

end Jumped

theorem suspended_before {other : Task} {moved : Phase} (here : Suspended next other)
    (live : Live next other ↔ Live state.workers other) (apart : phase state.workers worker ≠ .task other)
    (phases : ∀ place, phase next place = if place = worker then moved else phase state.workers place) :
    Suspended state.workers other := by
  refine ⟨live.mp here.1,fun place => ?_⟩
  have there := here.2 place
  rw [phases] at there
  split at there
  next same => exact same ▸ apart
  next => exact there

theorem unjumped_keeps {contexts : Task → Option Context} (inv : Inv state) (workers : Workers.Inv next) (rested : Rested next)
    (before : ∀ other, Suspended next other → Suspended state.workers other ∧ contexts other = state.contexts other)
    (framed : ∀ owner, Framed contexts (state.frames owner) (phase next owner)) :
    Inv {state with workers := next,contexts := contexts} := by
  refine jumped_workers.keeps inv workers rested ⟨nofun,nofun⟩ id (fun _ _ => rfl) ?_ ?_ ?_ framed inv.found
  · intro holder ctx moves here
    cases holder with
    | executed owner => exact ⟨.executed owner,here,rfl⟩
    | task owner =>
      obtain ⟨suspended,same⟩ := before owner here.1
      exact ⟨.task owner,⟨suspended,same.symm.trans here.2⟩,rfl⟩
    | curr owner => cases moves
    | ready owner => cases moves
    | cached owner => cases moves
    | unmade => cases moves
  · exact fun owner here => .inl ⟨nofun,here⟩
  · exact fun other here => .inl ⟨nofun,before other here⟩

theorem plain_keeps (inv : Inv state) (workers : Workers.Inv next) (rested : Rested next)
    (phases : ∀ place, phase next place = phase state.workers place)
    (live : ∀ other, Live next other ↔ Live state.workers other) : Inv {state with workers := next} := by
  refine unjumped_keeps inv workers rested (fun other here => ⟨⟨(live other).mp here.1,fun place => ?_⟩,rfl⟩) fun place => ?_
  · rw [← phases]
    exact here.2 place
  · rw [phases]
    exact inv.framed place

theorem complete_keeps (inv : Inv state) (workers : Workers.Inv next) (rested : Rested next)
    (running : phase state.workers worker = .task task) (still : (state.frames worker).hop = .still)
    (phases : ∀ place, phase next place = if place = worker then .loop else phase state.workers place)
    (done : ¬Live next task) (live : ∀ other, other ≠ task → (Live next other ↔ Live state.workers other)) :
    Inv {state with workers := next} := by
  refine unjumped_keeps inv workers rested (fun other here => ⟨?_,rfl⟩) fun place => ?_
  · have different : other ≠ task := fun same => done (same ▸ here.1)
    refine suspended_before here (live other different) ?_ phases
    rw [running]
    exact fun same => different (Phase.task.inj same).symm
  · rw [phases]
    have frame := inv.framed place
    split
    next same =>
      subst same
      obtain ⟨on,_,equal⟩ := frame.task task running
      refine ⟨fun none_ => ?_,fun _ => ⟨equal still,still⟩,(fun _ none_ => by cases none_),(fun none_ => by cases none_)⟩
      rw [equal still,none_] at on
      cases on
    next => exact frame

theorem got_before {other : Task} (here : Suspended next other) (loop : phase state.workers worker = .loop)
    (phases : ∀ place, phase next place = if place = worker then .task task else phase state.workers place)
    (live : other ≠ task → (Live next other ↔ Live state.workers other)) : other ≠ task ∧ Suspended state.workers other := by
  have different : other ≠ task := by
    rintro rfl
    exact here.2 worker (by rw [phases,if_pos rfl])
  refine ⟨different,suspended_before here (live different) ?_ phases⟩
  rw [loop]
  exact nofun

theorem first_keeps (inv : Inv state) (workers : Workers.Inv next) (rested : Rested next)
    (loop : phase state.workers worker = .loop) (inside : (state.frames worker).currCtx.isSome = true)
    (idle : ∀ place, phase state.workers place ≠ .task task)
    (phases : ∀ place, phase next place = if place = worker then .task task else phase state.workers place)
    (live : ∀ other, other ≠ task → (Live next other ↔ Live state.workers other)) :
    Inv {state with workers := next,contexts := Function.update state.contexts task (state.frames worker).currCtx} := by
  have contexts {other : Task} (different : other ≠ task) :
      Function.update state.contexts task (state.frames worker).currCtx other = state.contexts other :=
    Function.update_of_ne different _ _
  refine unjumped_keeps inv workers rested (fun other here => ?_) fun place => ?_
  · obtain ⟨different,suspended⟩ := got_before here loop phases (live other)
    exact ⟨suspended,contexts different⟩
  · rw [phases]
    have frame := inv.framed place
    split
    next same =>
      subst same
      obtain ⟨equal,still⟩ := frame.loop loop
      refine ⟨fun none_ => ?_,(fun none_ => by cases none_),fun again same => ?_,(fun none_ => by cases none_)⟩
      · rw [none_] at inside
        cases inside
      · cases same
        rw [equal,Function.update_self]
        exact ⟨inside,rfl,fun _ => rfl⟩
    next =>
      refine ⟨frame.unborn,frame.loop,fun other here => ?_,frame.ended⟩
      rw [contexts fun same => idle place (same ▸ here)]
      exact frame.task other here

theorem drop_keeps (inv : Inv state) (workers : Workers.Inv next) (rested : Rested next)
    (running : phase state.workers worker = .task task) (hopping : (state.frames worker).hop ≠ .still)
    (phases : ∀ place, phase next place = if place = worker then .loop else phase state.workers place)
    (live : ∀ other, Live next other ↔ Live state.workers other) :
    Inv (({state with workers := next} : State Place).jump worker (state.contexts task) (state.frames worker).currCtx
      (.task task) Saved.neutral .still) := by
  obtain ⟨on,own,_⟩ := (inv.framed worker).task task running
  obtain ⟨stack,executing⟩ := Option.isSome_iff_exists.mp on
  have context : state.contexts task = some stack := own.symm.trans executing
  obtain ⟨neutral,current,waits⟩ := inv.hopping worker hopping
  have held : state.Holds (.executed worker) stack := ⟨hopping,executing⟩
  have frames (other : Worker) : ((({state with workers := next} : State Place).setFrame worker
      {state.frames worker with executing := some neutral,hop := .still}).frames other) = if other = worker then
        {state.frames worker with executing := some neutral,hop := .still} else state.frames other := frames_setFrame _ other
  have before {other : Task} (different : other ≠ task) (here : Suspended next other) : Suspended state.workers other := by
    refine suspended_before here (live other) ?_ phases
    rw [running]
    exact fun same => different (Phase.task.inj same).symm
  rw [context,current]
  unfold State.jump
  refine Jumped.keeps (jumped_frame inv held) inv workers rested ⟨nofun,nofun⟩
    (fun holder => if holder = .executed worker then .task task else holder)
    (fun holder fixed => if_neg (by rintro rfl; cases fixed)) ?_ ?_ ?_ ?_ ?_
  · intro holder ctx moves here
    cases holder with
    | executed owner =>
      simp only [State.Holds,frames] at here
      split at here
      next => exact absurd rfl here.1
      next apart => exact ⟨.executed owner,here,if_neg fun same => apart (Holder.executed.inj same)⟩
    | task owner =>
      obtain rfl | different := eq_or_ne owner task
      · exact ⟨.executed worker,⟨hopping,own.trans here.2⟩,if_pos rfl⟩
      · exact ⟨.task owner,⟨before different here.1,here.2⟩,if_neg nofun⟩
    | curr owner => cases moves
    | ready owner => cases moves
    | cached owner => cases moves
    | unmade => cases moves
  · intro other here
    refine .inl ⟨nofun,?_⟩
    dsimp only at here
    rw [frames] at here
    split at here
    next => exact absurd rfl here
    next => exact here
  · intro other here
    obtain rfl | different := eq_or_ne other task
    · exact .inr ⟨stack,context,Function.update_self _ _ _⟩
    · exact .inl ⟨nofun,before different here,rfl⟩
  · intro place
    change Framed state.contexts _ (phase next place)
    rw [frames,phases]
    split
    next same =>
      refine ⟨fun none_ => ?_,fun _ => ⟨current.symm,rfl⟩,(fun _ none_ => by cases none_),(fun none_ => by cases none_)⟩
      cases current.symm.trans none_
    next => exact inv.framed place
  · change (state.lost || decide ((state.frames worker).executing ≠ some stack) || !(state.saved neutral).neutral) = false
    rw [inv.found,executing,waits]
    simp

theorem resume_keeps (inv : Inv state) (workers : Workers.Inv next) (rested : Rested next)
    (loop : phase state.workers worker = .loop) (inside : (state.frames worker).currCtx.isSome = true)
    (suspended : Suspended state.workers task)
    (phases : ∀ place, phase next place = if place = worker then .task task else phase state.workers place)
    (live : ∀ other, Live next other ↔ Live state.workers other) :
    Inv (({state with workers := next} : State Place).jump worker (state.frames worker).currCtx (state.contexts task)
      .loop (· = .task task) .resuming) := by
  obtain ⟨neutral,current⟩ := Option.isSome_iff_exists.mp inside
  obtain ⟨equal,still⟩ := (inv.framed worker).loop loop
  obtain ⟨stack,context,waits⟩ := inv.suspended task suspended
  have frames (other : Worker) : ((({state with workers := next} : State Place).setFrame worker
      {state.frames worker with executing := some stack,hop := .resuming}).frames other) = if other = worker then
        {state.frames worker with executing := some stack,hop := .resuming} else state.frames other := frames_setFrame _ other
  have before (other : Task) (here : Suspended next other) : other ≠ task ∧ Suspended state.workers other :=
    got_before here loop phases fun _ => live other
  rw [context,current]
  unfold State.jump
  have held : state.Holds (.curr worker) neutral := current
  refine Jumped.keeps (jumped_frame inv held) inv workers rested ⟨nofun,nofun⟩
    (fun holder => if holder = .task task then .executed worker else holder)
    (fun holder fixed => if_neg (by rintro rfl; cases fixed)) ?_ ?_ ?_ ?_ ?_
  · intro holder ctx moves here
    cases holder with
    | executed owner =>
      simp only [State.Holds,frames] at here
      split at here
      next same =>
        obtain rfl := Option.some.inj here.2
        exact ⟨.task task,⟨suspended,context⟩,by rw [if_pos rfl,same]⟩
      next => exact ⟨.executed owner,here,if_neg nofun⟩
    | task owner =>
      obtain ⟨different,suspended⟩ := before owner here.1
      exact ⟨.task owner,⟨suspended,here.2⟩,if_neg fun same => different (Holder.task.inj same)⟩
    | curr owner => cases moves
    | ready owner => cases moves
    | cached owner => cases moves
    | unmade => cases moves
  · intro other here
    dsimp only at here ⊢
    rw [frames] at here ⊢
    split at here
    next same =>
      rw [if_pos same]
      exact .inr ⟨neutral,current,by rw [Function.update_self]; rfl⟩
    next apart => exact .inl ⟨fun same => apart (Holder.curr.inj same).symm,here⟩
  · exact fun other here => .inl ⟨nofun,(before other here).2,rfl⟩
  · intro place
    change Framed state.contexts _ (phase next place)
    rw [frames,phases]
    split
    next same =>
      refine ⟨fun none_ => ?_,(fun none_ => by cases none_),fun again same => ?_,(fun none_ => by cases none_)⟩
      · cases current.symm.trans none_
      · cases same
        exact ⟨rfl,context.symm,fun contrary => by cases contrary⟩
    next => exact inv.framed place
  · change (state.lost || decide ((state.frames worker).executing ≠ some neutral) || !decide (state.saved stack = .task task)) = false
    rw [inv.found,equal,current,waits]
    simp

theorem leave_eq {state : State Place} {ctx : Context} (current : (state.frames worker).currCtx = some ctx) :
    state.leave worker = {state.setFrame worker {state.frames worker with executing := none} with
      saved := Function.update state.saved ctx .exited
      lost := state.lost || (state.frames worker).executing ≠ some ctx} := by
  unfold State.leave
  dsimp only
  split
  next other found =>
    obtain rfl := Option.some.inj (found.symm.trans current)
    rfl
  next none_ => cases none_.symm.trans current

theorem leave_keeps (inv : Inv state) (workers : Workers.Inv next) (rested : Rested next)
    (loop : phase state.workers worker = .loop) (inside : (state.frames worker).currCtx.isSome = true)
    (phases : ∀ place, phase next place = if place = worker then .ended else phase state.workers place)
    (live : ∀ other, Live next other ↔ Live state.workers other) :
    Inv (({state with workers := next} : State Place).leave worker) := by
  obtain ⟨last,current⟩ := Option.isSome_iff_exists.mp inside
  obtain ⟨equal,still⟩ := (inv.framed worker).loop loop
  have frames (other : Worker) : ((({state with workers := next} : State Place).setFrame worker
      {state.frames worker with executing := none}).frames other) = if other = worker then
        {state.frames worker with executing := none} else state.frames other := frames_setFrame _ other
  have before (other : Task) (here : Suspended next other) : Suspended state.workers other := by
    refine suspended_before here (live other) ?_ phases
    rw [loop]
    exact nofun
  rw [@leave_eq Place worker {state with workers := next} last current]
  have held : state.Holds (.curr worker) last := current
  refine Jumped.keeps (jumped_frame inv held) inv workers rested ⟨nofun,nofun⟩ id (fun _ _ => rfl) ?_ ?_ ?_ ?_ ?_
  · intro holder ctx moves here
    cases holder with
    | executed owner =>
      simp only [State.Holds,frames] at here
      split at here
      next => exact absurd still here.1
      next => exact ⟨.executed owner,here,rfl⟩
    | task owner => exact ⟨.task owner,⟨before owner here.1,here.2⟩,rfl⟩
    | curr owner => cases moves
    | ready owner => cases moves
    | cached owner => cases moves
    | unmade => cases moves
  · intro other here
    dsimp only at here
    rw [frames] at here
    split at here
    next => exact absurd still here
    next apart => exact .inl ⟨fun same => apart (Holder.curr.inj same).symm,here⟩
  · exact fun other here => .inl ⟨nofun,before other here,rfl⟩
  · intro place
    change Framed state.contexts _ (phase next place)
    rw [frames,phases]
    split
    next same =>
      refine ⟨fun none_ => ?_,(fun none_ => by cases none_),(fun _ none_ => by cases none_),fun _ => ⟨rfl,still⟩⟩
      cases current.symm.trans none_
    next => exact inv.framed place
  · change (state.lost || decide ((state.frames worker).executing ≠ some last)) = false
    rw [inv.found,equal,current]
    simp

end Jumps

section Advance
open Workers (WorkerThread)
variable {state : State Place} {after : Workers.State Place} {worker : Worker} {old new : WorkerThread Place} {task : Task}

theorem pc_set (here : state.workers.workers[worker]? = some old)
    (set_ : after.workers = state.workers.workers.set worker new) : after.pc worker = some new.pc := by
  have bound := (List.getElem?_eq_some_iff.mp here).1
  simp [Workers.State.pc,set_,bound]

theorem moved_keeps (inv : Inv state) (workers : Workers.Inv after) (rested : Rested after)
    (here : state.workers.workers[worker]? = some old) (set_ : after.workers = state.workers.workers.set worker new)
    (same : phaseOf new.pc = phaseOf old.pc) (live : ∀ other, Live after other ↔ Live state.workers other) :
    Inv {state with workers := after} := by
  refine plain_keeps inv workers rested (fun place => ?_) live
  rw [phase_set here set_]
  split
  next equal => rw [equal,same,phase_eq here]
  next => rfl

theorem live_of_tasks (task : Task) (others : ∀ other, other ≠ task → after.tasks other = state.workers.tasks other)
    (started : (after.tasks task).hasStarted = (state.workers.tasks task).hasStarted)
    (completed : (after.tasks task).status = .completed ↔ (state.workers.tasks task).status = .completed) (other : Task) :
    Live after other ↔ Live state.workers other := by
  unfold Live
  obtain rfl | different := eq_or_ne other task
  · rw [started,ne_eq,completed]
  · rw [others other different]

theorem stays_keeps (inv : Inv state) (workers : Workers.Inv after) (rested : Rested after) {answer : Bool}
    (here : state.workers.workers[worker]? = some old) (set_ : after.workers = state.workers.workers.set worker new)
    (from_ : phaseOf old.pc = .loop) (to_ : phaseOf new.pc = .loop) (unscheduled : ∀ task, old.pc ≠ .scheduled task)
    (live : ∀ other, Live after other ↔ Live state.workers other) :
    Inv (state.effect after (.advance worker answer)) := by
  have plain : state.effect after (.advance worker answer) = {state with workers := after} := by
    simp only [State.effect,pc_eq here,pc_set here set_]
    split
    next found => exact absurd (Option.some.inj found) (unscheduled _)
    next =>
      rw [if_neg]
      rintro ⟨_,ended⟩
      rw [Option.some.inj ended] at to_
      cases to_
  rw [plain]
  exact moved_keeps inv workers rested here set_ (to_.trans from_.symm) live

theorem ends_keeps (inv : Inv state) (workers : Workers.Inv after) (rested : Rested after) {answer : Bool}
    (here : state.workers.workers[worker]? = some old) (set_ : after.workers = state.workers.workers.set worker new)
    (from_ : phaseOf old.pc = .loop) (to_ : new.pc = .ended) (unscheduled : ∀ task, old.pc ≠ .scheduled task)
    (inside : (state.frames worker).currCtx.isSome = true) (live : ∀ other, Live after other ↔ Live state.workers other) :
    Inv (state.effect after (.advance worker answer)) := by
  have leaves : state.effect after (.advance worker answer) = ({state with workers := after} : State Place).leave worker := by
    simp only [State.effect,pc_eq here,pc_set here set_]
    split
    next found => exact absurd (Option.some.inj found) (unscheduled _)
    next =>
      rw [if_pos]
      refine ⟨fun ended => ?_,by rw [to_]⟩
      rw [Option.some.inj ended] at from_
      cases from_
  rw [leaves]
  refine leave_keeps inv workers rested ((phase_eq here).trans from_) inside (fun place => ?_) live
  rw [phase_set here set_,to_]
  rfl

theorem idle_of_holds (inv : Inv state) (here : state.workers.workers[worker]? = some old)
    (holds : old.pc.holds = some task) (loop : phaseOf old.pc = .loop) (place : Worker) :
    phase state.workers place ≠ .task task := by
  intro running
  obtain ⟨thread,found,held⟩ := holds_of_phase running
  obtain rfl := inv.workers.alone here found holds held
  rw [phase_eq here,loop] at running
  cases running

theorem scheduled_keeps (inv : Inv state) (workers : Workers.Inv after) (rested : Rested after) {answer : Bool}
    (here : state.workers.workers[worker]? = some old) (pc : old.pc = .scheduled task)
    (set_ : after.workers = state.workers.workers.set worker {old with pc := .running task})
    (others : ∀ other, other ≠ task → after.tasks other = state.workers.tasks other)
    (own : after.tasks task = {state.workers.tasks task with hasStarted := true})
    (inside : (state.frames worker).currCtx.isSome = true) :
    Inv (state.effect after (.advance worker answer)) := by
  have holds : old.pc.holds = some task := by rw [pc]; rfl
  have loop : phaseOf old.pc = .loop := by rw [pc]; rfl
  have idle := idle_of_holds inv here holds loop
  have phases (place : Worker) : phase after place = if place = worker then .task task else phase state.workers place :=
    phase_set here set_ place
  simp only [State.effect,pc_eq here,pc]
  split
  next started =>
    have awake : (state.workers.tasks task).status ≠ .completed := by
      rw [(inv.workers.runs old (List.mem_of_getElem? here) task (by rw [pc]; rfl)).1]
      exact nofun
    refine resume_keeps inv workers rested ((phase_eq here).trans loop) inside ⟨⟨started,awake⟩,idle⟩ phases ?_
    exact live_of_tasks task others (by rw [own,started]) (by rw [own])
  next =>
    refine first_keeps inv workers rested ((phase_eq here).trans loop) inside idle phases fun other different => ?_
    unfold Live
    rw [others other different]

theorem finished_keeps (inv : Inv state) (workers : Workers.Inv after) (rested : Rested after) {answer : Bool}
    (here : state.workers.workers[worker]? = some old) (pc : old.pc = .finished task)
    (set_ : after.workers = state.workers.workers.set worker new) (to_ : new.pc = .signaling task)
    (done : (after.tasks task).status = .completed)
    (others : ∀ other, other ≠ task → after.tasks other = state.workers.tasks other)
    (still : (state.frames worker).hop = .still) : Inv (state.effect after (.advance worker answer)) := by
  have ran : phase state.workers worker = .task task := (phase_eq here).trans (by rw [pc]; rfl)
  have plain : state.effect after (.advance worker answer) = {state with workers := after} := by
    simp [State.effect,pc_eq here,pc,pc_set here set_,to_]
  rw [plain]
  refine complete_keeps inv workers rested ran still (fun place => ?_) (fun live => live.2 done) fun other different => ?_
  · rw [phase_set here set_,to_]
    rfl
  · rw [Live,others other different,Live]

theorem schedule_keeps (inv : Inv state) {home : Option Worker} {tls : Workers.ThreadLocalStorage Place} {answer : Bool}
    (workers : Workers.Inv ((state.workers.modify task (fun data =>
      {data with status := .running,homeThread := home,placeStack := []})).setWorker worker
        {old with pc := .scheduled task,tls := tls}))
    (rested : Rested ((state.workers.modify task (fun data =>
      {data with status := .running,homeThread := home,placeStack := []})).setWorker worker
        {old with pc := .scheduled task,tls := tls}))
    (here : state.workers.workers[worker]? = some old) (pc : old.pc = .taken task ∨ old.pc = .kept task) :
    Inv (state.effect ((state.workers.modify task (fun data =>
      {data with status := .running,homeThread := home,placeStack := []})).setWorker worker
        {old with pc := .scheduled task,tls := tls}) (.advance worker answer)) := by
  have held : old.pc.holds = some task := by rcases pc with pc | pc <;> rw [pc] <;> rfl
  have awake : (state.workers.tasks task).status ≠ .completed := fun completed =>
    (inv.rested task completed).2 old (List.mem_of_getElem? here) held
  have from_ : phaseOf old.pc = .loop := by rcases pc with pc | pc <;> rw [pc] <;> rfl
  have unscheduled (other : Task) : old.pc ≠ .scheduled other := by rcases pc with pc | pc <;> simp [pc]
  refine stays_keeps inv workers rested here rfl from_ rfl unscheduled (live_of_tasks task ?_ ?_ ?_)
  · exact fun other different => by simp [Workers.modify_other different]
  · simp [Workers.State.modify]
  · simp [Workers.State.modify,awake]

theorem advance_keeps (inv : Inv state) (workers : Workers.Inv after) (rested : Rested after) {answer : Bool}
    (here : state.workers.workers[worker]? = some old)
    (advanced : Workers.advance state.workers worker old answer = some after)
    (inside : (state.frames worker).currCtx.isSome = true) (still : (state.frames worker).hop = .still) :
    Inv (state.effect after (.advance worker answer)) := by
  have running := fun task runs => (inv.workers.runs old (List.mem_of_getElem? here) task runs).1
  unfold Workers.advance at advanced
  split at advanced
  next pc =>
    obtain rfl := Option.some.inj advanced
    have from_ : phaseOf old.pc = .loop := by rw [pc]; rfl
    rcases Bool.eq_false_or_eq_true old.done with done | done
    · exact ends_keeps inv workers rested here rfl from_ (if_pos done) (by simp [pc]) inside fun _ => Iff.rfl
    · exact stays_keeps inv workers rested here rfl from_ (by simp [phaseOf,done]) (by simp [pc]) fun _ => Iff.rfl
  next task waits pc =>
    obtain rfl := Option.some.inj advanced
    have from_ : phaseOf old.pc = .loop := by rw [pc]; rfl
    rcases Bool.eq_false_or_eq_true old.done with done | done
    · exact ends_keeps inv workers rested here rfl from_ (if_pos done) (by simp [pc]) inside fun _ => Iff.rfl
    · exact stays_keeps inv workers rested here rfl from_ (by simp [phaseOf,done]) (by simp [pc]) fun _ => Iff.rfl
  next task pc =>
    split at advanced
    next ready =>
      obtain rfl := Option.some.inj advanced
      refine stays_keeps inv workers rested here rfl (by rw [pc]; rfl) rfl (by simp [pc]) (live_of_tasks task ?_ ?_ ?_)
      · exact fun other different => by simp [Workers.modify_other different]
      · simp [Workers.State.modify]
      · simp [Workers.State.modify,ready.2]
    next => cases advanced
  next task pc =>
    split at advanced
    next =>
      obtain rfl := Option.some.inj advanced
      exact stays_keeps inv workers rested here rfl (by rw [pc]; rfl) rfl (by simp [pc]) fun _ => Iff.rfl
    next => cases advanced
  next task pc =>
    split at advanced
    next =>
      split at advanced
      next ran =>
        obtain rfl := Option.some.inj advanced
        refine stays_keeps inv workers rested here rfl (by rw [pc]; rfl) rfl (by simp [pc]) (live_of_tasks task ?_ ?_ ?_)
        · exact fun other different => by simp [Workers.modify_other different]
        · simp [Workers.State.modify]
        · simp [Workers.State.modify,ran]
      next => cases advanced
    next =>
      obtain rfl := Option.some.inj advanced
      refine stays_keeps inv workers rested here rfl (by rw [pc]; rfl) ?_ (by simp [pc]) fun _ => Iff.rfl
      dsimp only
      split <;> rfl
  next pc =>
    obtain rfl := Option.some.inj advanced
    have from_ : phaseOf old.pc = .loop := by rw [pc]; rfl
    rcases Bool.eq_false_or_eq_true old.done with done | done
    · exact ends_keeps inv workers rested here rfl from_ (if_pos done) (by simp [pc]) inside fun _ => Iff.rfl
    · exact stays_keeps inv workers rested here rfl from_ (by simp [phaseOf,done]) (by simp [pc]) fun _ => Iff.rfl
  next pc =>
    obtain rfl := Option.some.inj advanced
    exact stays_keeps inv workers rested here rfl (by rw [pc]; rfl) rfl (by simp [pc]) fun _ => Iff.rfl
  next task pc =>
    split at advanced
    next =>
      obtain rfl := Option.some.inj advanced
      exact schedule_keeps inv workers rested here (.inl pc)
    next => cases advanced
  next task pc =>
    split at advanced
    next =>
      obtain rfl := Option.some.inj advanced
      exact schedule_keeps inv workers rested here (.inr pc)
    next => cases advanced
  next task pc =>
    split at advanced
    next =>
      obtain rfl := Option.some.inj advanced
      refine scheduled_keeps inv workers rested here pc rfl (fun other different => ?_) ?_ inside
      · simp [Workers.modify_other different]
      · simp [Workers.State.modify]
    next => cases advanced
  next pc => cases advanced
  next task pc =>
    split at advanced
    next =>
      obtain rfl := Option.some.inj advanced
      refine finished_keeps inv workers rested here pc rfl rfl ?_ (fun other different => ?_) still
      · simp [Workers.State.modify]
      · simp [Workers.modify_other different]
    next => cases advanced
  next task pc =>
    obtain rfl := Option.some.inj advanced
    exact stays_keeps inv workers rested here rfl (by rw [pc]; rfl) rfl (by simp [pc]) fun _ => Iff.rfl
  next => cases advanced

end Advance

section Runs
open Workers (WorkerThread)
variable {state next : State Place} {home : Worker → Scheduler}

theorem workers_keeps (inv : Inv state) {action : Workers.Action Place}
    (stepped : step home state (.workers action) = some next) : Inv next := by
  simp only [step] at stepped
  split at stepped
  next allowed =>
    obtain ⟨after,taken,rfl⟩ := Option.map_eq_some_iff.mp stepped
    have effect := Workers.step_effect (fun thread member task runs => (inv.workers.runs thread member task runs).1) taken
    have workers := effect.inv inv.workers
    have rested := rested_step inv.workers inv.rested effect
    have same (other : Task) : Live state.workers other ↔ Live state.workers other := Iff.rfl
    cases action with
    | spawn =>
      obtain rfl := Option.some.inj taken
      exact plain_keeps inv workers rested (fun _ => rfl) same
    | push worker place =>
      simp only [Workers.step] at taken
      split at taken
      next task tls done destructed here =>
        obtain rfl := Option.some.inj taken
        refine moved_keeps inv workers rested here rfl rfl (live_of_tasks task (fun other different => ?_) ?_ ?_)
        · simp [Workers.modify_other different]
        · simp [Workers.State.modify]
        · simp [Workers.State.modify]
      next => cases taken
    | pop worker =>
      simp only [Workers.step] at taken
      split at taken
      next task tls done destructed here =>
        split at taken
        next => cases taken
        next =>
          obtain rfl := Option.some.inj taken
          refine moved_keeps inv workers rested here rfl rfl (live_of_tasks task (fun other different => ?_) ?_ ?_)
          · simp [Workers.modify_other different]
          · simp [Workers.State.modify]
          · simp [Workers.State.modify]
      next => cases taken
    | drop worker waits =>
      simp only [Workers.step] at taken
      split at taken
      next task tls done destructed here =>
        obtain rfl := Option.some.inj taken
        have hopping : (state.frames worker).hop ≠ .still := by
          rw [of_decide_eq_true allowed]
          intro same
          cases same
        simp only [State.effect,pc_eq here]
        refine drop_keeps inv workers rested ((phase_eq here).trans rfl) hopping (fun place => ?_) same
        rw [phase_set here rfl]
        rfl
      next => cases taken
    | finish worker =>
      simp only [Workers.step] at taken
      split at taken
      next task tls done destructed here =>
        obtain rfl := Option.some.inj taken
        exact moved_keeps inv workers rested here rfl rfl same
      next => cases taken
    | take worker task =>
      simp only [Workers.step] at taken
      split at taken
      next tls done destructed here =>
        split at taken
        next =>
          obtain rfl := Option.some.inj taken
          exact moved_keeps inv workers rested here rfl rfl same
        next => cases taken
      next => cases taken
    | notify task =>
      simp only [Workers.step] at taken
      split at taken
      next waiting =>
        obtain rfl := Option.some.inj taken
        refine plain_keeps inv workers rested (fun _ => rfl) (live_of_tasks task (fun other different => ?_) ?_ ?_)
        · simp [Workers.modify_other different]
        · simp [Workers.State.modify]
        · simp [Workers.State.modify,waiting.2]
      next => cases taken
    | cpuid task =>
      obtain rfl := Option.some.inj taken
      exact plain_keeps inv workers rested (fun _ => rfl) same
    | create =>
      obtain rfl := Option.some.inj taken
      refine plain_keeps inv workers rested (fun place => ?_) same
      simp only [phase,Workers.State.pc,List.getElem?_append]
      split
      next => rfl
      next outside =>
        rw [List.getElem?_eq_none (Nat.not_lt.mp outside)]
        cases found : ([.fresh] : List (WorkerThread Place))[place - state.workers.workers.length]? with
        | none => rfl
        | some thread =>
          obtain rfl := List.mem_singleton.mp (List.mem_of_getElem? found)
          rfl
    | shutdown worker =>
      obtain ⟨old,here,rfl⟩ := Option.map_eq_some_iff.mp taken
      exact moved_keeps inv workers rested here rfl rfl same
    | destruct worker =>
      simp only [Workers.step] at taken
      split at taken
      next tls done here =>
        obtain rfl := Option.some.inj taken
        exact moved_keeps inv workers rested here rfl rfl same
      next => cases taken
    | advance worker answer =>
      simp only [Workers.step] at taken
      split at taken
      next thread here =>
        simp only [State.allowed,Bool.and_eq_true,decide_eq_true_eq] at allowed
        exact advance_keeps inv workers rested here taken allowed.1 allowed.2
      next => cases taken
  next => cases stepped

theorem inv_step (inv : Inv state) {action : Action Place} (stepped : step home state action = some next) : Inv next := by
  cases action with
  | start worker => exact start_keeps inv stepped
  | acquire worker waits => exact acquire_keeps inv stepped
  | stash worker => exact stash_keeps inv stepped
  | store worker => exact store_keeps inv stepped
  | workers action => exact workers_keeps inv stepped

theorem inv_start (count : Nat) : Inv (State.start count : State Place) := by
  have loop (worker : Worker) : phase (State.start count : State Place).workers worker = .loop := by
    simp only [phase,Workers.State.pc,State.start,Workers.State.start,List.getElem?_replicate]
    split <;> rfl
  have idle (task : Task) : ¬Suspended (State.start count : State Place).workers task := fun suspended => by
    cases suspended.1.1
  constructor
  · exact Workers.inv_start count
  · intro task completed
    cases completed
  · intro first second ctx one other
    cases first with
    | unmade =>
      cases second with
      | unmade => rfl
      | executed worker => cases other.2
      | task task => exact absurd other.1 (idle task)
      | curr worker => cases other
      | ready worker => cases other
      | cached scheduler => cases other
    | executed worker => cases one.2
    | task task => exact absurd one.1 (idle task)
    | curr worker => cases one
    | ready worker => cases one
    | cached scheduler => cases one
  · exact fun _ => List.nodup_nil
  · exact fun _ => List.nodup_nil
  · intro _ _ inside
    cases inside
  · intro _ _ inside
    cases inside
  · exact fun _ hopping => absurd rfl hopping
  · exact fun task suspended => absurd suspended (idle task)
  · intro worker
    rw [loop]
    exact ⟨fun _ => ⟨rfl,rfl⟩,fun _ => ⟨rfl,rfl⟩,(fun _ none_ => by cases none_),(fun none_ => by cases none_)⟩
  · rfl

end Runs

/-- What the workers may rely on: every context is owned once, no stack is used by two
threads, a context that can be handed out as a neutral one is in nobody's use and goes
on in a worker's loop, and every jump has arrived where it was meant to. -/
structure Owned (state : State Place) : Prop where
  unique : Unique state.Holds
  readyOnce : ∀ worker, (state.frames worker).readyContexes.Nodup
  cachedOnce : ∀ scheduler, (state.cache scheduler).Nodup
  executed : ∀ first second ctx, (state.frames first).executing = some ctx → (state.frames second).executing = some ctx →
    first = second
  neutral : ∀ ctx, (∃ worker, ctx ∈ (state.frames worker).readyContexes) ∨ (∃ scheduler, ctx ∈ state.cache scheduler) →
    (state.saved ctx).neutral = true ∧ (∀ worker, (state.frames worker).executing ≠ some ctx) ∧
      ∀ task, Live state.workers task → state.contexts task ≠ some ctx
  found : state.lost = false

theorem Inv.executing {state : State Place} (inv : Inv state) {worker : Worker} {ctx : Context}
    (here : (state.frames worker).executing = some ctx) :
    state.Holds (.executed worker) ctx ∨ state.Holds (.curr worker) ctx := by
  have frame := inv.framed worker
  cases running : phase state.workers worker with
  | loop => exact .inr ((frame.loop running).1.symm.trans here)
  | ended => cases (frame.ended running).1.symm.trans here
  | task task =>
    obtain still | hopping := eq_or_ne (state.frames worker).hop .still
    · exact .inr (((frame.task task running).2.2 still).symm.trans here)
    · exact .inl ⟨hopping,here⟩

theorem Inv.context {state : State Place} (inv : Inv state) {task : Task} {ctx : Context} (live : Live state.workers task)
    (here : state.contexts task = some ctx) :
    state.Holds (.task task) ctx ∨ ∃ worker, (state.frames worker).executing = some ctx := by
  by_cases running : ∃ worker, phase state.workers worker = .task task
  · obtain ⟨worker,running⟩ := running
    exact .inr ⟨worker,((inv.framed worker).task task running).2.1.trans here⟩
  · exact .inl ⟨⟨live,not_exists.mp running⟩,here⟩

theorem Inv.owned {state : State Place} (inv : Inv state) : Owned state := by
  refine ⟨inv.unique,inv.readyOnce,inv.cachedOnce,fun first second ctx one other => ?_,fun ctx stored => ?_,inv.found⟩
  · rcases inv.executing one with one | one <;> rcases inv.executing other with other | other
    · exact Holder.executed.inj (inv.unique _ _ ctx one other)
    · cases inv.unique _ _ ctx one other
    · cases inv.unique _ _ ctx one other
    · exact Holder.curr.inj (inv.unique _ _ ctx one other)
  · obtain ⟨holder,held,kind⟩ : ∃ holder, state.Holds holder ctx ∧
        ((∃ worker, holder = .ready worker) ∨ ∃ scheduler, holder = .cached scheduler) := by
      rcases stored with ⟨worker,inside⟩ | ⟨scheduler,inside⟩
      · exact ⟨.ready worker,inside,.inl ⟨worker,rfl⟩⟩
      · exact ⟨.cached scheduler,inside,.inr ⟨scheduler,rfl⟩⟩
    have free (worker : Worker) : (state.frames worker).executing ≠ some ctx := fun here => by
      rcases inv.executing here with used | used <;>
        rcases kind with ⟨_,rfl⟩ | ⟨_,rfl⟩ <;> cases inv.unique _ _ ctx held used
    refine ⟨?_,free,fun task live here => ?_⟩
    · rcases stored with ⟨worker,inside⟩ | ⟨scheduler,inside⟩
      · exact inv.readyNeutral worker ctx inside
      · exact inv.cachedNeutral scheduler ctx inside
    · rcases inv.context live here with waits | ⟨worker,used⟩
      · rcases kind with ⟨_,rfl⟩ | ⟨_,rfl⟩ <;> cases inv.unique _ _ ctx held waits
      · exact free worker used

/-- Contexts are owned once in every run of any number of workers, whatever their schedulers. -/
theorem owned_of_run (count : Nat) (home : Worker → Scheduler) (actions : List (Action Place)) (final : State Place)
    (ran : run (step home) (State.start count) actions = some final) : Owned final :=
  (invariant_of_run Inv (fun _ _ _ inv stepped => inv_step inv stepped) (inv_start count) ran).owned

section Sample

def advances (worker : Worker) (times : Nat) : List (Action Nat) :=
  List.replicate times (.workers (.advance worker true))

def wanderActions : List (Action Nat) :=
  [Action.start 0,Action.start 1,Action.workers .spawn] ++ advances 0 2 ++ [Action.workers (.take 0 0)] ++
    advances 0 2 ++ [Action.acquire 0 true,Action.workers (.drop 0 true)] ++ advances 0 3 ++ [Action.workers (.notify 0)] ++ advances 1 2 ++
    [Action.workers (.take 1 0)] ++ advances 1 2 ++ [Action.stash 1,Action.workers (.finish 1)] ++ advances 1 2 ++
    [Action.workers (.shutdown 1)] ++ advances 1 1 ++ [Action.workers (.destruct 1),Action.store 1]

theorem owned_wander : ∃ final, run (step (fun _ => 0)) (State.start 2) wanderActions = some final ∧
    ((final.cache 0).length = 1 ∧ (final.frames 1).currCtx = final.contexts 0 ∧ final.constructed = 3) ∧ Owned final := by
  have evaluated : (run (step (fun _ => 0)) (State.start 2) wanderActions).any (fun final =>
      decide ((final.cache 0).length = 1 ∧ (final.frames 1).currCtx = final.contexts 0 ∧ final.constructed = 3)) = true := by
    decide +kernel
  obtain ⟨final,ran,test⟩ := (Option.any_eq_true _ _).mp evaluated
  exact ⟨final,ran,of_decide_eq_true test,owned_of_run 2 (fun _ => 0) wanderActions final ran⟩

end Sample
end Pgasus.Contexts
