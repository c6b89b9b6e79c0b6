import Pgasus.Tasking.Synchronizable

/-! The end of a synchronizer's life. `notify` is called with the synchronizer's
lock held, so the waiter can end the object before the signaler has left it. -/
namespace Pgasus.Synchronizing
open Runs

def Pc.ahead : Pc → List Synchronizer
  | .walking _ clients => clients
  | .signaling _ client clients _ => client::clients
  | _ => []

def Pc.touches : Pc → Option Synchronizer
  | .walking _ (client::_) => some client
  | .signaling _ client _ _ => some client
  | _ => none

/-- No signaler is about to work on a synchronizer whose life has ended. -/
def Untouched (state : State) : Prop :=
  ∀ ref sync, (state.pc (.signaler ref)).touches = some sync → state.pc (.waiter sync) ≠ .ended

/-- If the step ends a synchronizer's life, it depends on nothing any more and no
signaler holds its lock or has it ahead in its walk. -/
def EndsAlone (state : State) (thread : Thread) : Prop :=
  ∀ sync, thread = .waiter sync → state.pc thread = .ready [] →
    (state.syncs sync).dependancies = [] ∧ ∀ ref, sync ∉ (state.pc (.signaler ref)).ahead

def Buried (state : State) : Prop :=
  ∀ sync, state.pc (.waiter sync) = .ended →
    (state.syncs sync).dependancies = [] ∧ ∀ ref, sync ∉ (state.pc (.signaler ref)).ahead

variable {program : Program} {state changed next : State} {thread : Thread} {point : Pc}

theorem Pc.ahead_of_touches {pc : Pc} {sync : Synchronizer} (touches : pc.touches = some sync) : sync ∈ pc.ahead := by
  cases pc with
  | walking ref clients =>
    cases clients with
    | nil => cases touches
    | cons client clients =>
      cases touches
      exact List.mem_cons_self
  | signaling ref client clients phase =>
    cases touches
    exact List.mem_cons_self
  | _ => cases touches

theorem Buried.untouched (buried : Buried state) : Untouched state := by
  intro ref sync touches ended
  exact (buried sync ended).2 ref (Pc.ahead_of_touches touches)

theorem Effect.ahead (effect : Effect program state thread changed point) {sync : Synchronizer}
    (member : sync ∈ point.ahead) : sync ∈ (state.pc thread).ahead ∨ ∃ ref, sync ∈ state.clients ref := by
  cases effect with
  | signaled ref owner here => exact Or.inr ⟨ref,member⟩
  | walked ref owner client clients here =>
    rw [here]
    exact Or.inl member
  | removed ref owner client clients here =>
    rw [here]
    exact Or.inl member
  | notified ref owner client clients here =>
    rw [here]
    exact Or.inl member
  | unlocked ref owner client clients here =>
    rw [here]
    exact Or.inl (List.mem_cons_of_mem client member)
  | _ => cases member

theorem Effect.dependancies_nil (effect : Effect program state thread changed point) {sync : Synchronizer}
    (ended : state.pc (.waiter sync) = .ended) (empty : (state.syncs sync).dependancies = []) :
    (changed.syncs sync).dependancies = [] := by
  cases effect with
  | registered own owner ref list calls here =>
    have different : sync ≠ own := by
      intro same
      rw [← same,ended] at here
      cases here
    rw [registerWait_syncs,if_neg fun both => different both.1]
    exact empty
  | removed ref owner client clients here =>
    rw [removeDependancy_syncs]
    split
    next same => simp [SyncData.remove,← same,empty]
    next => exact empty
  | locked own owner list calls here => exact (modify_keeps (·.dependancies) SyncData.call (fun _ => rfl) own sync).trans empty
  | returnedTrue own owner calls here some_left =>
    exact (modify_keeps (·.dependancies) SyncData.returnTrue (fun _ => rfl) own sync).trans empty
  | woke own calls here posted => exact (modify_keeps (·.dependancies) SyncData.wake (fun _ => rfl) own sync).trans empty
  | notified ref owner client clients here =>
    exact (modify_keeps (·.dependancies) SyncData.notify (fun _ => rfl) client sync).trans empty
  | _ => exact empty

theorem Effect.end_eq (effect : Effect program state thread changed .ended) :
    changed = state ∧ state.pc thread = .ready [] := by
  cases effect with
  | ended sync here => exact ⟨rfl,here⟩

theorem Buried.step (buried : Buried state) (ordered : Ordered state)
    (effect : Effect program state thread changed point) (alone : EndsAlone state thread) :
    Buried (changed.goto thread point) := by
  have pc := @goto_pc state changed thread point effect.threads
  intro sync ended
  -- the end was reached before, or is reached by this step
  have was : (state.syncs sync).dependancies = [] ∧ (∀ ref, sync ∉ (state.pc (.signaler ref)).ahead) ∧
      (changed.syncs sync).dependancies = [] := by
    by_cases same : Thread.waiter sync = thread
    · rw [pc,if_pos same] at ended
      subst ended
      obtain ⟨rfl,ready⟩ := effect.end_eq
      obtain ⟨empty,behind⟩ := alone sync same.symm ready
      exact ⟨empty,behind,empty⟩
    · rw [pc,if_neg same] at ended
      obtain ⟨empty,behind⟩ := buried sync ended
      exact ⟨empty,behind,effect.dependancies_nil ended empty⟩
  obtain ⟨empty,behind,still⟩ := was
  refine ⟨still,?_⟩
  intro ref member
  rw [pc] at member
  split at member
  next same =>
    rcases effect.ahead member with before | ⟨other,client⟩
    · exact behind ref (same ▸ before)
    · have depends := (ordered.depends other sync client).1
      rw [empty] at depends
      cases depends
  next => exact behind ref member

/-- In every run in which synchronizers end alone, no signaler touches one that has ended. -/
theorem untouched_of_endsAlone (program : Program) (actions : List Thread) (final : State)
    (alone : Meets (step program) EndsAlone (State.start program) actions)
    (ran : run (step program) (State.start program) actions = some final) : Untouched final := by
  have start : Buried (State.start program) := by
    intro sync ended
    cases ended
  have kept := invariant_of_meets (fun state => Ordered state ∧ Buried state) (by
    intro state thread next invariant condition stepped
    obtain ⟨changed,point,effect,rfl,available⟩ := step_effect stepped
    exact ⟨invariant.1.step effect available,invariant.2.step invariant.1 effect condition⟩)
    ⟨ordered_start program,start⟩ alone ran
  exact kept.2.untouched

section Window

def oneWait : Program := ⟨fun sync => if sync = 0 then [[7]] else [],fun _ => false,fun ref => ref = 7⟩

def waitActions : List Thread := List.replicate 5 (.waiter 0)

def windowActions : List Thread := waitActions ++ List.replicate 5 (Thread.signaler 7) ++ [Thread.waiter 0,Thread.waiter 0]

theorem windowActions_run : (run (step oneWait) (State.start oneWait) windowActions).isSome = true := by decide

theorem signaler_unlocks_ended : ∃ final, run (step oneWait) (State.start oneWait) windowActions = some final ∧
    final.pc (.signaler 7) = .signaling 7 0 [] .unlocking ∧ final.pc (.waiter 0) = .ended ∧ ¬Untouched final := by
  have unlocking : ((run (step oneWait) (State.start oneWait) windowActions).get windowActions_run).pc (.signaler 7) =
      .signaling 7 0 [] .unlocking := by decide
  have ended : ((run (step oneWait) (State.start oneWait) windowActions).get windowActions_run).pc (.waiter 0) =
      .ended := by decide
  refine ⟨_,(Option.some_get windowActions_run).symm,unlocking,ended,?_⟩
  intro untouched
  exact untouched 7 0 (by rw [unlocking]; rfl) ended

def lateActions : List Thread := waitActions ++ List.replicate 7 (Thread.signaler 7) ++ [Thread.waiter 0]

theorem lateActions_run : (run (step oneWait) (State.start oneWait) lateActions).isSome = true := by decide

theorem lateActions_meets : Meets (step oneWait) EndsAlone (State.start oneWait) (lateActions ++ [.waiter 0]) := by
  -- only the last step can end the object
  have early : Meets (step oneWait) EndsAlone (State.start oneWait) lateActions := by
    apply meets_of_checks (fun state thread => state.pc thread ≠ .ready [])
    · intro state thread tested sync _ ready
      simp [ready] at tested
    · decide
  apply early.append
  intro middle went
  refine ⟨?_,fun _ _ => trivial⟩
  intro sync same _
  cases same
  constructor
  · obtain rfl := Option.some.inj ((Option.some_get lateActions_run).trans went)
    decide
  · intro ref
    by_cases here : ref = 7
    · subst here
      obtain rfl := Option.some.inj ((Option.some_get lateActions_run).trans went)
      decide
    · rw [run_pc went (.signaler ref) (by simp [lateActions,waitActions,here])]
      exact List.not_mem_nil

theorem untouched_when_late : ∃ final,
    run (step oneWait) (State.start oneWait) (lateActions ++ [.waiter 0]) = some final ∧ Untouched final := by
  have ran : (run (step oneWait) (State.start oneWait) (lateActions ++ [.waiter 0])).isSome = true := by decide
  exact ⟨_,(Option.some_get ran).symm,
    untouched_of_endsAlone oneWait _ _ lateActions_meets (Option.some_get ran).symm⟩

end Window
end Pgasus.Synchronizing
