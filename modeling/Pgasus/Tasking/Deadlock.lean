import Pgasus.Library.Cycles
import Pgasus.Tasking.Notification

/-! Deadlocks between `synchronize` and `set_signaled`, which take a synchronizer's
lock and a triggerable's in opposite orders. There are none as long as the calls
agree on an order of the triggerables that are signaled. -/
namespace Pgasus.Synchronizing
open Runs

def Pc.inCall : Pc → Bool
  | .locking _ _ _ => true
  | .choosing _ _ _ => true
  | .registering _ _ _ _ => true
  | .starting _ => true
  | .walking _ _ => true
  | .signaling _ _ _ _ => true
  | _ => false

def Pc.acquires : Pc → Option Lock
  | .locking sync _ _ => some (.synchronizer sync)
  | .choosing _ (ref::_) _ => some (.triggerable ref)
  | .starting ref => some (.triggerable ref)
  | .walking _ (client::_) => some (.synchronizer client)
  | _ => none

/-- While a call has not returned, a thread inside a call can take its next step. -/
def DeadlockFree (program : Program) (state : State) : Prop :=
  (∃ thread, (state.pc thread).inCall = true) →
    ∃ thread, (state.pc thread).inCall = true ∧ (step program state thread).isSome = true

/-- A call names the one before the other, and both are signaled while threads run. -/
def Precedes (program : Program) (first second : Triggerable) : Prop :=
  ((program.signals first = true ∧ program.signaled first = false) ∧
    program.signals second = true ∧ program.signaled second = false) ∧
  ∃ sync, ∃ list ∈ program.calls sync, [first,second].Sublist list

variable {program : Program} {state changed after : State} {thread : Thread} {point : Pc}

theorem State.enter_none (blocked : state.enter thread point = none) :
    state.threads.available Pc.locks thread point = false := by
  unfold State.enter at blocked
  split at blocked
  next => cases blocked
  next unavailable => exact Bool.eq_false_iff.mpr unavailable

def Refused (state : State) (thread : Thread) : Prop :=
  ∃ point, state.threads.available Pc.locks thread point = false ∧
    ∀ lock ∈ point.locks, lock ∈ (state.pc thread).locks ∨ (state.pc thread).acquires = some lock

theorem refused_of_enter (blocked : changed.enter thread point = none) (threads : changed.threads = state.threads)
    (needs : ∀ lock ∈ point.locks, lock ∈ (state.pc thread).locks ∨ (state.pc thread).acquires = some lock) :
    Refused state thread := by
  have unavailable := State.enter_none blocked
  rw [threads] at unavailable
  exact ⟨point,unavailable,needs⟩

theorem refused (ordered : Ordered state) (inCall : (state.pc thread).inCall = true)
    (blocked : step program state thread = none) : Refused state thread := by
  have owned := ordered.owned thread
  cases thread with
  | waiter sync =>
    cases here : state.pc (.waiter sync) with
    | locking owner list calls =>
      rw [here] at owned
      cases owned
      simp only [step,here] at blocked
      exact refused_of_enter blocked rfl (by simp [here,Pc.locks,Pc.acquires])
    | choosing owner list calls =>
      rw [here] at owned
      cases owned
      cases list with
      | nil =>
        simp only [step,here] at blocked
        split at blocked
        next => exact refused_of_enter blocked rfl (by simp [Pc.locks])
        next => exact refused_of_enter blocked rfl (by simp [Pc.locks])
      | cons ref list =>
        simp only [step,here] at blocked
        exact refused_of_enter blocked rfl (by simp [here,Pc.locks,Pc.acquires])
    | registering owner ref list calls =>
      rw [here] at owned
      cases owned
      simp only [step,here] at blocked
      exact refused_of_enter blocked (registerWait_threads ref sync) (by simp [here,Pc.locks])
    | _ => simp [here,Pc.inCall,Pc.Owned] at inCall owned
  | signaler ref =>
    cases here : state.pc (.signaler ref) with
    | starting owner =>
      rw [here] at owned
      cases owned
      simp only [step,here] at blocked
      exact refused_of_enter blocked rfl (by simp [here,Pc.locks,Pc.acquires])
    | walking owner clients =>
      rw [here] at owned
      cases owned
      cases clients with
      | nil =>
        simp only [step,here] at blocked
        exact refused_of_enter blocked rfl (by simp [Pc.locks])
      | cons client clients =>
        simp only [step,here] at blocked
        exact refused_of_enter blocked rfl (by simp [here,Pc.locks,Pc.acquires])
    | signaling owner client clients phase =>
      rw [here] at owned
      cases owned
      cases phase <;> simp only [step,here] at blocked <;>
        exact refused_of_enter blocked rfl (by simp [here,Pc.locks])
    | _ => simp [here,Pc.inCall,Pc.Owned] at inCall owned

theorem Refused.waits (refused : Refused state thread) (ordered : Ordered state) :
    ∃ lock other, (state.pc thread).acquires = some lock ∧ other ≠ thread ∧ lock ∈ (state.pc other).locks := by
  obtain ⟨point,unavailable,needs⟩ := refused
  obtain ⟨lock,member,taken⟩ := List.all_eq_false.mp unavailable
  cases held : state.threads.holder lock with
  | none => simp [held] at taken
  | some other =>
    have different : other ≠ thread := by simpa [held] using taken
    have holds := (ordered.locked lock other).mp held
    rcases needs lock member with own | acquires
    · exact absurd (ordered.locked.unique holds own) different
    · exact ⟨lock,other,acquires,different,holds⟩

def Frozen (program : Program) (state : State) : Prop :=
  ∀ thread, (state.pc thread).inCall = true → step program state thread = none

def State.Walking (state : State) (ref : Triggerable) : Prop :=
  ∃ client clients, state.pc (.signaler ref) = .walking ref (client::clients)

theorem Pc.inCall_of_locks {pc : Pc} {lock : Lock} (held : lock ∈ pc.locks) : pc.inCall = true := by
  cases pc with
  | choosing | registering | walking | signaling => rfl
  | _ => cases held

/-- In a frozen state a lock's holder is a waiter that wants its next triggerable or
a signaler that wants its next client. -/
theorem Frozen.holder (frozen : Frozen program state) (ordered : Ordered state) {lock : Lock} {other : Thread}
    (held : lock ∈ (state.pc other).locks) :
    (∃ sync ref rest calls, other = .waiter sync ∧ lock = .synchronizer sync ∧
      state.pc other = .choosing sync (ref::rest) calls) ∨
    ∃ ref, other = .signaler ref ∧ lock = .triggerable ref ∧ state.Walking ref := by
  have inCall := Pc.inCall_of_locks held
  obtain ⟨wanted,_,acquires,_⟩ := (refused ordered inCall (frozen other inCall)).waits ordered
  have owned := ordered.owned other
  cases other with
  | waiter sync =>
    cases here : state.pc (.waiter sync) with
    | choosing owner list calls =>
      rw [here] at owned held acquires
      cases owned
      cases list with
      | nil => cases acquires
      | cons ref rest => exact Or.inl ⟨sync,ref,rest,calls,rfl,List.mem_singleton.mp held,rfl⟩
    | _ => simp [here,Pc.acquires,Pc.locks,Pc.Owned] at acquires held owned
  | signaler ref =>
    cases here : state.pc (.signaler ref) with
    | walking owner clients =>
      rw [here] at owned held acquires
      cases owned
      cases clients with
      | nil => cases acquires
      | cons client clients => exact Or.inr ⟨ref,rfl,List.mem_singleton.mp held,client,clients,here⟩
    | _ => simp [here,Pc.acquires,Pc.locks,Pc.Owned] at acquires held owned

theorem Frozen.waiting_for (frozen : Frozen program state) (ordered : Ordered state) (thread : Thread)
    (ref : Triggerable) (inCall : (state.pc thread).inCall = true)
    (acquires : (state.pc thread).acquires = some (.triggerable ref)) :
    thread ≠ .signaler ref ∧ state.Walking ref := by
  obtain ⟨lock,other,wants,different,held⟩ := (refused ordered inCall (frozen thread inCall)).waits ordered
  obtain rfl := Option.some.inj (wants.symm.trans acquires)
  rcases frozen.holder ordered held with ⟨_,_,_,_,_,same,_⟩ | ⟨own,rfl,same,walking⟩
  · cases same
  · cases same
    exact ⟨different.symm,walking⟩

theorem Frozen.waiting_for_client (frozen : Frozen program state) (ordered : Ordered state) (thread : Thread)
    (sync : Synchronizer) (inCall : (state.pc thread).inCall = true)
    (acquires : (state.pc thread).acquires = some (.synchronizer sync)) :
    thread ≠ .waiter sync ∧ ∃ ref rest calls, state.pc (.waiter sync) = .choosing sync (ref::rest) calls := by
  obtain ⟨lock,other,wants,different,held⟩ := (refused ordered inCall (frozen thread inCall)).waits ordered
  obtain rfl := Option.some.inj (wants.symm.trans acquires)
  rcases frozen.holder ordered held with ⟨own,ref,rest,calls,rfl,same,here⟩ | ⟨_,_,same,_⟩
  · cases same
    exact ⟨different.symm,ref,rest,calls,here⟩
  · cases same

/-- The waiter that stops a walk wants a triggerable that is being walked itself. -/
theorem Frozen.next (frozen : Frozen program state) (ordered : Ordered state) {ref : Triggerable}
    (walking : state.Walking ref) : ∃ sync other rest calls, sync ∈ (state.pc (.signaler ref)).unsignaled ∧
      state.pc (.waiter sync) = .choosing sync (other::rest) calls ∧ state.Walking other := by
  obtain ⟨client,clients,here⟩ := walking
  obtain ⟨_,other,rest,calls,there⟩ := frozen.waiting_for_client ordered (.signaler ref) client
    (by rw [here]; rfl) (by rw [here]; rfl)
  obtain ⟨_,walked⟩ := frozen.waiting_for ordered (.waiter client) other
    (by rw [there]; rfl) (by rw [there]; rfl)
  exact ⟨client,other,rest,calls,by rw [here]; exact List.mem_cons_self,there,walked⟩

theorem Frozen.some_walking (frozen : Frozen program state) (ordered : Ordered state)
    (inCall : (state.pc thread).inCall = true) : ∃ ref, state.Walking ref := by
  obtain ⟨lock,other,_,_,held⟩ := (refused ordered inCall (frozen thread inCall)).waits ordered
  rcases frozen.holder ordered held with ⟨sync,ref,rest,calls,rfl,_,here⟩ | ⟨ref,_,_,walking⟩
  · obtain ⟨_,walking⟩ := frozen.waiting_for ordered (.waiter sync) ref
      (by rw [here]; rfl) (by rw [here]; rfl)
    exact ⟨ref,walking⟩
  · exact ⟨ref,walking⟩

def Pc.Follows (program : Program) (sync : Synchronizer) (dependancies : List Triggerable) : Pc → Prop
  | .ready calls => calls ⊆ program.calls sync
  | .locking _ list calls => list::calls ⊆ program.calls sync
  | .choosing _ rest calls => calls ⊆ program.calls sync ∧
      ∃ visited, visited ++ rest ∈ program.calls sync ∧ dependancies ⊆ visited
  | .registering _ ref rest calls => calls ⊆ program.calls sync ∧
      ∃ visited, visited ++ ref::rest ∈ program.calls sync ∧ dependancies ⊆ visited
  | .waiting calls => calls ⊆ program.calls sync
  | _ => True

def Pc.Signals (program : Program) (ref : Triggerable) (pc : Pc) : Prop :=
  pc ≠ .idle → program.signals ref = true ∧ program.signaled ref = false

structure Following (program : Program) (state : State) : Prop where
  follows : ∀ sync, (state.pc (.waiter sync)).Follows program sync (state.syncs sync).dependancies
  signals : ∀ ref, (state.pc (.signaler ref)).Signals program ref
  early : ∀ ref, program.signaled ref = true → state.signaled ref = true

theorem Pc.Follows.fewer {sync : Synchronizer} {before after : List Triggerable} {pc : Pc}
    (follows : pc.Follows program sync before) (fewer : after ⊆ before) : pc.Follows program sync after := by
  cases pc with
  | choosing owner rest calls =>
    obtain ⟨later,visited,listed,depends⟩ := follows
    exact ⟨later,visited,listed,fun _ member => depends (fewer member)⟩
  | registering owner ref rest calls =>
    obtain ⟨later,visited,listed,depends⟩ := follows
    exact ⟨later,visited,listed,fun _ member => depends (fewer member)⟩
  | _ => exact follows

theorem Effect.fewer {sync : Synchronizer} (effect : Effect program state thread changed point)
    (other : thread ≠ .waiter sync) : (changed.syncs sync).dependancies ⊆ (state.syncs sync).dependancies := by
  intro ref member
  cases effect with
  | registered own owner newest list calls here =>
    have different : sync ≠ own := fun same => other (by rw [same])
    rwa [registerWait_syncs,if_neg fun both => different both.1] at member
  | removed own owner client clients here =>
    rw [removeDependancy_syncs] at member
    split at member
    next same => exact same ▸ (List.mem_filter.mp member).1
    next => exact member
  | locked own owner list calls here =>
    exact (modify_keeps (·.dependancies) SyncData.call (fun _ => rfl) own sync) ▸ member
  | returnedTrue own owner calls here some_left =>
    exact (modify_keeps (·.dependancies) SyncData.returnTrue (fun _ => rfl) own sync) ▸ member
  | woke own calls here posted =>
    exact (modify_keeps (·.dependancies) SyncData.wake (fun _ => rfl) own sync) ▸ member
  | notified own owner client clients here =>
    exact (modify_keeps (·.dependancies) SyncData.notify (fun _ => rfl) client sync) ▸ member
  | _ => exact member

theorem Following.fresh (following : Following program state)
    (nodup : ∀ sync, ∀ list ∈ program.calls sync, list.Nodup) (thread : Thread) : RegistersFresh state thread := by
  intro sync owner ref rest calls same here _ member
  subst same
  have follows := following.follows sync
  rw [here] at follows
  obtain ⟨_,visited,listed,depends⟩ := follows
  have distinct := nodup sync _ listed
  exact (List.nodup_append.mp distinct).2.2 ref (depends member) ref List.mem_cons_self rfl

theorem Effect.follows {sync : Synchronizer} (effect : Effect program state (.waiter sync) changed point)
    (tracked : Tracked state sync)
    (before : (state.pc (.waiter sync)).Follows program sync (state.syncs sync).dependancies) :
    point.Follows program sync (changed.syncs sync).dependancies := by
  cases effect with
  | called _ list calls here =>
    rw [here] at before
    exact before
  | locked _ owner list calls here =>
    rw [here] at before
    have empty : (state.syncs sync).dependancies = [] := by
      cases tracked with
      | outside _ _ empty => exact empty
      | calling stage | owed stage | notifying stage | posted stage =>
        rw [here] at stage
        cases stage
    rw [modify_keeps (·.dependancies) SyncData.call (fun _ => rfl),empty]
    obtain ⟨listed,later⟩ := List.cons_subset.mp before
    exact ⟨later,[],listed,List.nil_subset _⟩
  | chose _ owner ref list calls here =>
    rw [here] at before
    exact before
  | registered _ owner ref list calls here =>
    rw [here] at before
    obtain ⟨later,visited,listed,depends⟩ := before
    refine ⟨later,visited ++ [ref],by simpa using listed,?_⟩
    rw [registerWait_syncs]
    split
    next => exact List.append_subset.mpr ⟨fun _ member => List.mem_append_left _ (depends member),
      List.subset_append_right _ _⟩
    next => exact fun _ member => List.mem_append_left _ (depends member)
  | returnedFalse _ owner calls here empty =>
    rw [here] at before
    exact before.1
  | returnedTrue _ owner calls here some_left =>
    rw [here] at before
    exact before.1
  | woke _ calls here posted =>
    rw [here] at before
    exact before
  | ended _ here => trivial

theorem Effect.signals {ref : Triggerable} (effect : Effect program state (.signaler ref) changed point)
    (following : Following program state) : point.Signals program ref := by
  intro _
  have before := following.signals ref
  cases effect with
  | started _ here wanted unsignaled =>
    refine ⟨wanted,Bool.eq_false_iff.mpr fun already => ?_⟩
    have signaled := following.early ref already
    rw [signaled] at unsignaled
    cases unsignaled
  | signaled _ owner here | walked _ owner client clients here | removed _ owner client clients here
  | notified _ owner client clients here | unlocked _ owner client clients here | finished _ owner here =>
    exact before (by simp [here])

theorem Effect.signaled_grows {ref : Triggerable} (effect : Effect program state thread changed point)
    (signaled : state.signaled ref = true) : changed.signaled ref = true := by
  cases effect with
  | registered sync owner newest list calls here => rwa [registerWait_signaled]
  | signaled own owner here =>
    change Function.update state.signaled own true ref = true
    rw [Function.update_apply]
    split
    next => rfl
    next => exact signaled
  | _ => exact signaled

theorem following_start (program : Program) : Following program (State.start program) :=
  ⟨fun _ => List.Subset.refl _,fun _ moved => absurd rfl moved,fun _ already => already⟩

theorem Following.step (following : Following program state) (tracked : ∀ sync, Tracked state sync)
    (effect : Effect program state thread changed point) : Following program (changed.goto thread point) := by
  refine ⟨?_,?_,fun ref already => effect.signaled_grows (following.early ref already)⟩
  · intro sync
    change ((changed.goto thread point).pc (.waiter sync)).Follows program sync (changed.syncs sync).dependancies
    rw [goto_pc effect.threads]
    split
    next same =>
      subst same
      exact effect.follows (tracked sync) (following.follows sync)
    next different => exact (following.follows sync).fewer (effect.fewer (Ne.symm different))
  · intro ref
    rw [goto_pc effect.threads]
    split
    next same =>
      subst same
      exact effect.signals following
    next => exact following.signals ref

/-- Where a walk is stopped by a waiter that wants another triggerable, the call names the first before it. -/
theorem Following.precedes (following : Following program state) (linked : Linked state) {first second : Triggerable}
    {sync : Synchronizer} {rest : List Triggerable} {calls : List (List Triggerable)} (started : state.Walking first)
    (wanted : state.Walking second) (client : sync ∈ (state.pc (.signaler first)).unsignaled)
    (here : state.pc (.waiter sync) = .choosing sync (second::rest) calls) : Precedes program first second := by
  have signals (ref : Triggerable) (walking : state.Walking ref) :
      program.signals ref = true ∧ program.signaled ref = false := by
    obtain ⟨_,_,at_⟩ := walking
    exact following.signals ref (by simp [at_])
  have follows := following.follows sync
  rw [here] at follows
  obtain ⟨_,visited,listed,depends⟩ := follows
  have before : first ∈ visited := depends (linked.depends first sync client)
  refine ⟨⟨signals first started,signals second wanted⟩,sync,_,listed,?_⟩
  exact (List.singleton_sublist.mpr before).append (List.singleton_sublist.mpr List.mem_cons_self)

/-- When no call names a triggerable twice and the calls agree on an order of the
triggerables that are signaled, no run reaches a deadlock. -/
theorem deadlock_free_of_precedes (program : Program) (nodup : ∀ sync, ∀ list ∈ program.calls sync, list.Nodup)
    (agreed : Cycles.Acyclic (Precedes program)) (actions : List Thread) (final : State)
    (ran : run (step program) (State.start program) actions = some final) : DeadlockFree program final := by
  have kept := invariant_of_run (fun state => InStep state ∧ Following program state) (by
    intro state thread after invariant stepped
    have inStep := invariant.1.step (invariant.2.fresh nodup thread) stepped
    obtain ⟨changed,point,effect,rfl,_⟩ := step_effect stepped
    exact ⟨inStep,invariant.2.step invariant.1.tracked effect⟩)
    ⟨inStep_start program,following_start program⟩ ran
  obtain ⟨inStep,following⟩ := kept
  have ordered := inStep.ordered
  intro ⟨thread,inCall⟩
  by_contra stuck
  have frozen : Frozen program final := by
    intro other calling
    by_contra steps
    exact stuck ⟨other,calling,Option.isSome_iff_ne_none.mpr steps⟩
  -- the triggerables whose walk is stopped wait for each other
  have finite : {ref | final.Walking ref}.Finite := by
    have injective : Function.Injective Thread.signaler := fun _ _ same => by cases same; rfl
    apply ((List.finite_toSet actions).preimage injective.injOn).subset
    intro ref ⟨client,clients,here⟩
    by_contra absent
    have same := run_pc ran (.signaler ref) absent
    rw [here] at same
    cases same
  have empty := Cycles.acyclic_not_all_wait agreed finite (by
    intro ref walking
    obtain ⟨sync,other,rest,calls,client,here,walked⟩ := frozen.next ordered walking
    exact ⟨other,walked,following.precedes inStep.linked walking walked client here⟩)
  obtain ⟨ref,walking⟩ := frozen.some_walking ordered inCall
  have member : ref ∈ {ref | final.Walking ref} := walking
  rw [empty] at member
  cases member

section Crossed

def crossed : Program :=
  ⟨fun sync => if sync = 0 then [[7,8]] else if sync = 1 then [[8,7]] else [],fun _ => false,fun ref => ref = 7 ∨ ref = 8⟩

def crossedActions : List Thread :=
  List.replicate 4 (Thread.waiter 0) ++ List.replicate 4 (Thread.waiter 1) ++ List.replicate 2 (Thread.signaler 7) ++
    List.replicate 2 (Thread.signaler 8)

theorem crossedActions_run : (run (step crossed) (State.start crossed) crossedActions).isSome = true := by decide

theorem crossed_deadlock : (∀ sync, ∀ list ∈ crossed.calls sync, list.Nodup) ∧
    ∃ final, run (step crossed) (State.start crossed) crossedActions = some final ∧ ¬DeadlockFree crossed final := by
  constructor
  · intro sync list member
    simp only [crossed] at member
    split at member
    next => simp_all
    next => split at member <;> simp_all
  · refine ⟨_,(Option.some_get crossedActions_run).symm,?_⟩
    intro free
    obtain ⟨thread,inCall,steps⟩ := free ⟨.waiter 0,by decide⟩
    by_cases acted : thread ∈ crossedActions
    · have stuck : ∀ thread ∈ crossedActions, (step crossed
          ((run (step crossed) (State.start crossed) crossedActions).get crossedActions_run) thread).isSome = false := by
        decide
      rw [stuck thread acted] at steps
      cases steps
    · rw [run_pc (Option.some_get crossedActions_run).symm thread acted] at inCall
      cases thread <;> cases inCall

def parallel : Program :=
  ⟨fun sync => if sync < 2 then [[7,8]] else [],fun _ => false,fun ref => ref = 7 ∨ ref = 8⟩

theorem parallel_precedes {first second : Triggerable} (precedes : Precedes parallel first second) : first < second := by
  obtain ⟨_,sync,list,member,sublist⟩ := precedes
  simp only [parallel] at member
  split at member
  next =>
    obtain rfl := List.mem_singleton.mp member
    have both := sublist.eq_of_length rfl
    cases both
    decide
  next => cases member

def parallelActions : List Thread :=
  List.replicate 4 (Thread.waiter 0) ++ List.replicate 2 (Thread.waiter 1) ++ List.replicate 2 (Thread.signaler 7)

theorem deadlock_free_parallel : ∃ final, run (step parallel) (State.start parallel) parallelActions = some final ∧
    DeadlockFree parallel final := by
  have ran : (run (step parallel) (State.start parallel) parallelActions).isSome = true := by decide
  refine ⟨_,(Option.some_get ran).symm,?_⟩
  apply deadlock_free_of_precedes parallel _ _ parallelActions _ (Option.some_get ran).symm
  · intro sync list member
    simp only [parallel] at member
    split at member <;> simp_all
  · exact Cycles.acyclic_of_rank id fun _ _ precedes => parallel_precedes precedes

end Crossed
end Pgasus.Synchronizing
