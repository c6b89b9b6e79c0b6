import Pgasus.Tasking.PlaceStacks

/-! A task remembers the worker thread that ran it last by a bare pointer. Stopping a
worker destructs its thread object whatever still points to it; where no waiting task
does, `notify` and `cpuid` only look into threads that are there. -/
namespace Pgasus.Workers
open Runs Totals
open Tasking (Task Worker Status)

variable {Place : Type} {state next : State Place} {action : Action Place} {worker : Worker}
  {old new : WorkerThread Place}

/-- A thread is destructed only while no waiting task has it as its home, and `cpuid`
is asked of a task that waits or whose home thread is still there. -/
def HomeKept (state : State Place) : Action Place → Prop
  | .destruct worker => ∀ task, (state.tasks task).status = .waiting → (state.tasks task).homeThread ≠ some worker
  | .cpuid task => (state.tasks task).status = .waiting ∨
      ∀ worker, (state.tasks task).homeThread = some worker → state.destructed worker = false
  | _ => True

structure Homes (state : State Place) : Prop where
  own : ∀ worker thread task, state.workers[worker]? = some thread → thread.pc.runs = some task →
    (state.tasks task).homeThread = some worker
  gone : ∀ thread ∈ state.workers, thread.destructed = true → thread.pc = .ended
  waits : ∀ task worker, (state.tasks task).status = .waiting → (state.tasks task).homeThread = some worker →
    state.destructed worker = false
  looked : state.dangling = false

theorem homes_start (count : Nat) : Homes (State.start count : State Place) := by
  have fresh (thread : WorkerThread Place) (inside : thread ∈ (State.start count).workers) : thread = .fresh :=
    List.eq_of_mem_replicate inside
  constructor
  · intro worker thread task here runs
    rw [fresh thread (List.mem_of_getElem? here)] at runs
    cases runs
  · intro thread inside destructed
    rw [fresh thread inside] at destructed
    cases destructed
  · intro task worker waiting _
    cases waiting
  · rfl

theorem destructed_of_getElem? (here : state.workers[worker]? = some old) : state.destructed worker = old.destructed := by
  simp [State.destructed,here]

theorem destructed_set (here : state.workers[worker]? = some old) (workers : next.workers = state.workers.set worker new)
    (other : Worker) : next.destructed other = if other = worker then new.destructed else state.destructed other := by
  have bound := (List.getElem?_eq_some_iff.mp here).1
  split
  next same =>
    subst same
    simp [State.destructed,workers,bound]
  next different => simp [State.destructed,workers,Ne.symm different]

theorem destructed_kept (here : state.workers[worker]? = some old) (workers : next.workers = state.workers.set worker new)
    (keeps : new.destructed = old.destructed) (other : Worker) : next.destructed other = state.destructed other := by
  rw [destructed_set here workers]
  split
  next same =>
    subst same
    rw [keeps,destructed_of_getElem? here]
  next => rfl

theorem Homes.replace (homes : Homes state) (here : state.workers[worker]? = some old)
    (workers : next.workers = state.workers.set worker new)
    (own : ∀ task, new.pc.runs = some task → (next.tasks task).homeThread = some worker)
    (others : ∀ index thread task, index ≠ worker → state.workers[index]? = some thread →
      thread.pc.runs = some task → (next.tasks task).homeThread = (state.tasks task).homeThread)
    (gone : new.destructed = true → new.pc = .ended)
    (waits : ∀ task home, (next.tasks task).status = .waiting → (next.tasks task).homeThread = some home →
      next.destructed home = false)
    (looked : next.dangling = state.dangling) : Homes next := by
  constructor
  · intro index thread task found runs
    rw [workers] at found
    by_cases same : index = worker
    · subst same
      have bound := (List.getElem?_eq_some_iff.mp here).1
      rw [List.getElem?_set_self bound] at found
      obtain rfl := Option.some.inj found
      exact own task runs
    · rw [List.getElem?_set_ne (Ne.symm same)] at found
      rw [others index thread task same found runs]
      exact homes.own index thread task found runs
  · intro thread inside
    rw [workers] at inside
    obtain rfl | ⟨_,_,found⟩ := mem_set_cases inside
    · exact gone
    · exact homes.gone thread (List.mem_of_getElem? found)
  · exact waits
  · rw [looked]
    exact homes.looked

theorem Homes.advanced (homes : Homes state) (inv : Inv state) (task : Task) {home : Option Worker}
    (here : state.workers[worker]? = some old) (holds : old.pc.holds = some task)
    (workers : next.workers = state.workers.set worker new) (keeps : new.destructed = old.destructed)
    (runs : new.pc.runs = none ∨ new.pc.runs = some task ∧ home = some worker) (going : old.pc ≠ .ended)
    (others : ∀ other, other ≠ task → next.tasks other = state.tasks other)
    (moved : (next.tasks task).homeThread = home)
    (waits : (next.tasks task).status = .waiting → home = some worker)
    (looked : next.dangling = state.dangling) : Homes next := by
  have alive : old.destructed = false := by
    by_contra destructed
    exact going (homes.gone old (List.mem_of_getElem? here) (by simpa using destructed))
  apply homes.replace here workers
  · intro other runs_
    obtain none_ | ⟨same,atHome⟩ := runs
    · rw [none_] at runs_
      cases runs_
    · obtain rfl := Option.some.inj (same.symm.trans runs_)
      rw [moved,atHome]
  · intro index thread other different found runs_
    have apart : other ≠ task := fun same => inv.apart here holds index thread different found
      (same ▸ Pc.holds_of_runs runs_)
    rw [others other apart]
  · intro destructed
    rw [keeps,alive] at destructed
    cases destructed
  · intro other place waiting at_
    rw [destructed_kept here workers keeps]
    by_cases same : other = task
    · subst same
      rw [moved,waits waiting] at at_
      obtain rfl := Option.some.inj at_
      rw [destructed_of_getElem? here,alive]
    · rw [others other same] at waiting at_
      exact homes.waits other place waiting at_
  · exact looked

theorem Homes.alive (homes : Homes state) {task : Task}
    (kept : (state.tasks task).status = .waiting ∨
      ∀ worker, (state.tasks task).homeThread = some worker → state.destructed worker = false) :
    (state.tasks task).homeThread.any state.destructed = false := by
  cases home : (state.tasks task).homeThread with
  | none => rfl
  | some worker =>
    change state.destructed worker = false
    obtain waiting | there := kept
    · exact homes.waits task worker waiting home
    · exact there worker home

theorem lookHome_alive {task : Task}
    (alive : (state.tasks task).homeThread.any state.destructed = false) : state.lookHome task = state := by
  have none_ : (state.dangling || (state.tasks task).homeThread.any state.destructed) = state.dangling := by
    rw [alive,Bool.or_false]
  rw [State.lookHome,none_]

theorem found_in_concat {thread added : WorkerThread Place} {workers : List (WorkerThread Place)}
    (found : (workers ++ [added])[worker]? = some thread) : workers[worker]? = some thread ∨ thread = added := by
  rw [List.getElem?_append] at found
  split at found
  next => exact .inl found
  next => exact .inr (List.mem_singleton.mp (List.mem_of_getElem? found))

theorem Effect.homes (inv : Inv state) (homes : Homes state) (kept : HomeKept state action)
    (effect : Effect state action next) : Homes next := by
  cases effect with
  | quiet worker old new here workers holds runs takes tls stays ends done destructs tasks queued spawned dangling =>
    have home (task : Task) : (next.tasks task).homeThread = (state.tasks task).homeThread := by
      obtain equal | ⟨_,equal⟩ := tasks task <;> rw [equal]
    have status (task : Task) : (next.tasks task).status = (state.tasks task).status := by
      obtain equal | ⟨_,equal⟩ := tasks task <;> rw [equal]
    apply homes.replace here workers
    · intro task runs_
      rw [home]
      exact homes.own worker old task here (runs ▸ runs_)
    · exact fun _ _ task _ _ _ => home task
    · intro destructed
      obtain same | ⟨ended,_⟩ := destructs
      · exact stays (homes.gone old (List.mem_of_getElem? here) (same ▸ destructed))
      · exact stays ended
    · intro task place waiting at_
      rw [status] at waiting
      rw [home] at at_
      obtain same | ⟨_,rfl⟩ := destructs
      · rw [destructed_kept here workers same]
        exact homes.waits task place waiting at_
      · have different : place ≠ worker := by
          rintro rfl
          exact kept task waiting at_
        rw [destructed_set here workers,if_neg different]
        exact homes.waits task place waiting at_
    · exact dangling
  | lost worker old task waits here pc done =>
    have runs : old.pc.runs = some task := by rw [pc]; rfl
    have running := (inv.runs old (List.mem_of_getElem? here) task runs).1
    apply homes.advanced inv task here (Pc.holds_of_runs runs)
    · rfl
    · rfl
    · exact .inl rfl
    · simp [pc]
    · exact fun _ _ => rfl
    · rfl
    · intro waiting
      change (state.tasks task).status = .waiting at waiting
      rw [running] at waiting
      cases waiting
    · rfl
  | suspended worker old task here pc =>
    apply homes.advanced inv task here (by rw [pc]; rfl)
    · rfl
    · rfl
    · exact .inl rfl
    · simp [pc]
    · exact fun other different => Function.update_of_ne different _ _
    · rfl
    · simp [State.setWorker,State.putTask,State.modify]
    · rfl
  | waited worker old task here pc =>
    have atHome := homes.own worker old task here (by rw [pc]; rfl)
    apply homes.advanced inv task here (by rw [pc]; rfl)
    · rfl
    · rfl
    · exact .inl rfl
    · simp [pc]
    · exact fun other different => Function.update_of_ne different _ _
    · rfl
    · intro _
      simpa [State.setWorker,State.modify] using atHome
    · rfl
  | took worker old task here pc member =>
    apply homes.replace here
    · rfl
    · exact fun _ contrary => by cases contrary
    · exact fun _ _ _ _ _ _ => rfl
    · intro destructed
      have ended := homes.gone old (List.mem_of_getElem? here) destructed
      rw [pc] at ended
      cases ended
    · intro other place waiting at_
      apply Eq.trans (destructed_kept here _ _ place) (homes.waits other place waiting at_)
      · exact {old with pc := .taken task}
      · rfl
      · rfl
    · rfl
  | scheduled worker old task here pc =>
    have holds : old.pc.holds = some task := by obtain pc | pc := pc <;> rw [pc] <;> rfl
    have going : old.pc ≠ .ended := by obtain pc | pc := pc <;> simp [pc]
    apply homes.advanced inv task here holds
    · rfl
    · rfl
    · exact .inr ⟨rfl,rfl⟩
    · exact going
    · exact fun other different => Function.update_of_ne different _ _
    · simp [State.setWorker,State.modify]
    · exact fun _ => rfl
    · rfl
  | completed worker old task here pc =>
    apply homes.advanced inv task here (by rw [pc]; rfl)
    · rfl
    · rfl
    · exact .inl rfl
    · simp [pc]
    · exact fun other different => Function.update_of_ne different _ _
    · rfl
    · simp [State.setWorker,State.modify]
    · rfl
  | changed worker old task tls pushed here pc current same =>
    have runs : old.pc.runs = some task := by rw [pc]; rfl
    have atHome := homes.own worker old task here runs
    apply homes.advanced inv task here (Pc.holds_of_runs runs)
    · rfl
    · rfl
    · exact .inr ⟨runs,rfl⟩
    · simp [pc]
    · exact fun other different => Function.update_of_ne different _ _
    · simpa [State.setWorker,State.modify] using atHome
    · exact fun _ => rfl
    · rfl
  | notified task waiting =>
    rw [lookHome_alive (homes.alive (.inl waiting))]
    have home (other : Task) : ((state.modify task (fun data => {data with status := .suspended})).tasks
        other).homeThread = (state.tasks other).homeThread := by
      by_cases same : other = task
      · subst same
        rw [modify_self]
      · rw [modify_other same]
    constructor
    · intro index thread other found runs
      exact (home other).trans (homes.own index thread other found runs)
    · exact homes.gone
    · intro other place waits at_
      by_cases same : other = task
      · subst same
        simp [State.putTask,State.modify] at waits
      · simp only [State.putTask,modify_other same] at waits at_
        exact homes.waits other place waits at_
    · exact homes.looked
  | looked task =>
    rw [lookHome_alive (homes.alive kept)]
    exact homes
  | spawned => exact ⟨homes.own,homes.gone,homes.waits,homes.looked⟩
  | created =>
    constructor
    · intro index thread task found runs
      obtain found | rfl := found_in_concat found
      · exact homes.own index thread task found runs
      · cases runs
    · intro thread inside
      obtain inside | rfl := (by simpa using inside : thread ∈ state.workers ∨ thread = .fresh)
      · exact homes.gone thread inside
      · exact fun contrary => by cases contrary
    · intro task place waiting at_
      have before := homes.waits task place waiting at_
      cases found : (state.workers ++ [WorkerThread.fresh])[place]? with
      | none => simp [State.destructed,found]
      | some thread =>
        obtain already | rfl := found_in_concat found
        · simp only [State.destructed,found,already] at before ⊢
          exact before
        · simp only [State.destructed,found]
          rfl
    · exact homes.looked

/-- Every look at a home thread so far has found one that was there, and every waiting
task still has a home that may be looked into. -/
def HomesLive (state : State Place) : Prop :=
  state.dangling = false ∧ ∀ task, (state.tasks task).status = .waiting →
    (state.tasks task).homeThread.any state.destructed = false

/-- While stopped workers leave no waiting task behind, no destructed one is looked into. -/
theorem homes_live_of_homeKept (count : Nat) (actions : List (Action Place)) (final : State Place)
    (kept : Meets step HomeKept (.start count) actions) (ran : run step (.start count) actions = some final) :
    HomesLive final := by
  have both : Inv final ∧ Homes final := by
    apply invariant_of_meets (fun state => Inv state ∧ Homes state) _ ⟨inv_start count,homes_start count⟩ kept ran
    intro state action next ⟨inv,homes⟩ condition stepped
    have effect := step_effect (fun thread inside task runs => (inv.runs thread inside task runs).1) stepped
    exact ⟨effect.inv inv,effect.homes inv homes condition⟩
  exact ⟨both.2.looked,fun task waiting => both.2.alive (.inl waiting)⟩

def Action.free : Action Place → Bool
  | .destruct _ => false
  | .cpuid _ => false
  | _ => true

theorem homeKept_of_free {action : Action Place} (free : action.free = true) (state : State Place) :
    HomeKept state action := by
  cases action with
  | destruct => cases free
  | cpuid => cases free
  | _ => trivial

def waitOnce : List (Action Nat) :=
  [.spawn,.advance 0 false,.advance 0 false,.take 0 0,.advance 0 false,.advance 0 false,.drop 0 true,
    .advance 0 false,.advance 0 false,.advance 0 true]

def stopFirst : List (Action Nat) := waitOnce ++ [Action.shutdown 0,Action.advance 0 false,Action.destruct 0,Action.notify 0]

theorem notify_after_destruct : ∃ final, run step (.start 2) stopFirst = some final ∧ ¬ HomesLive final := by
  have evaluated : (run step (.start 2) stopFirst).any (fun final => final.dangling) = true := by decide +kernel
  obtain ⟨final,ran,dangling⟩ := (Option.any_eq_true _ _).mp evaluated
  refine ⟨final,ran,fun live => ?_⟩
  rw [live.1] at dangling
  cases dangling

def resumeElsewhere : List (Action Nat) :=
  waitOnce ++ [Action.notify 0,Action.shutdown 0,Action.advance 0 false,Action.advance 1 false,Action.advance 1 false,
    Action.take 1 0,Action.advance 1 false,Action.advance 1 false]

def destructLater : List (Action Nat) :=
  [.destruct 0,.drop 1 true,.advance 1 false,.advance 1 false,.advance 1 true,.notify 0]

theorem homeKept_destructLater : Meets step HomeKept (.start 2) (resumeElsewhere ++ destructLater) := by
  have resumed : (run step (.start 2) resumeElsewhere).all
      (fun middle => middle.spawned = 1 ∧ (middle.tasks 0).status = .running) = true := by decide +kernel
  apply Meets.append
  · exact meets_of_forall fun action member state => homeKept_of_free (by revert action; decide) state
  · intro middle reached
    rw [reached] at resumed
    obtain ⟨one,running⟩ := of_decide_eq_true resumed
    have rest (action : Action Nat) (member : action ∈ destructLater.tail) : action.free = true := by
      revert action
      decide
    refine ⟨fun task waiting _ => ?_,fun _ _ => meets_of_forall fun action member =>
      homeKept_of_free (rest action member)⟩
    cases task with
    | zero =>
      rw [running] at waiting
      cases waiting
    | succ task =>
      rw [(inv_of_run reached).unborn (task + 1) (by omega)] at waiting
      cases waiting

theorem homes_live_destructLater : ∃ final,
    run step (.start 2) (resumeElsewhere ++ destructLater) = some final ∧ HomesLive final := by
  have evaluated : (run step (.start 2) (resumeElsewhere ++ destructLater)).isSome = true := by decide +kernel
  obtain ⟨final,ran⟩ := Option.isSome_iff_exists.mp evaluated
  exact ⟨final,ran,homes_live_of_homeKept 2 _ final homeKept_destructLater ran⟩

end Pgasus.Workers
