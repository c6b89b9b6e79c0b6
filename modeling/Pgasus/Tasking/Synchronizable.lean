import Pgasus.Library.Locks
import Pgasus.Library.Runs
import Mathlib.Data.Set.Finite.Basic

/-! Synchronizers and two-phase triggerables, one lock operation at a time. Every
synchronizer has one waiter, which calls `synchronize` on some lists, waits for
the notification of each call that returned true, and then ends the object's
life; every triggerable has one thread that may call `set_signaled`. -/
namespace Pgasus.Synchronizing
open Runs

abbrev Synchronizer := Nat
abbrev Triggerable := Nat

inductive Thread
  | waiter (sync : Synchronizer)
  | signaler (ref : Triggerable)
deriving DecidableEq

inductive Lock
  | synchronizer (sync : Synchronizer)
  | triggerable (ref : Triggerable)
deriving DecidableEq

inductive Phase
  | removing
  | notifying
  | unlocking
deriving DecidableEq

inductive Pc
  | ready (calls : List (List Triggerable))
  | locking (sync : Synchronizer) (list : List Triggerable) (calls : List (List Triggerable))
  | choosing (sync : Synchronizer) (list : List Triggerable) (calls : List (List Triggerable))
  | registering (sync : Synchronizer) (ref : Triggerable) (list : List Triggerable) (calls : List (List Triggerable))
  | waiting (calls : List (List Triggerable))
  | ended
  | idle
  | starting (ref : Triggerable)
  | walking (ref : Triggerable) (clients : List Synchronizer)
  | signaling (ref : Triggerable) (client : Synchronizer) (clients : List Synchronizer) (phase : Phase)
  | finished
deriving DecidableEq

def Pc.locks : Pc → List Lock
  | .choosing sync _ _ => [.synchronizer sync]
  | .registering sync ref _ _ => [.synchronizer sync,.triggerable ref]
  | .walking ref _ => [.triggerable ref]
  | .signaling ref client _ _ => [.synchronizer client,.triggerable ref]
  | _ => []

/-- A synchronizer's fields; `posts` is what `notify` leaves for the waiter. The last
four are a record: what the latest call registered, what has signaled since, and
how many calls returned true and how many notifications were made. -/
structure SyncData where
  dependancies : List Triggerable
  posts : Nat
  registered : List Triggerable
  signaledBy : List Triggerable
  trues : Nat
  notified : Nat

/-- `failed` tells whether `assert(!_dependancies.empty())` has failed. -/
structure State where
  signaled : Triggerable → Bool
  clients : Triggerable → List Synchronizer
  syncs : Synchronizer → SyncData
  threads : Threads Thread Pc Lock
  failed : Bool

/-- The calls of each waiter, the triggerables signaled beforehand, and those on
which `set_signaled` is called. -/
structure Program where
  calls : Synchronizer → List (List Triggerable)
  signaled : Triggerable → Bool
  signals : Triggerable → Bool

def SyncData.fresh : SyncData := ⟨[],0,[],[],0,0⟩
def SyncData.call (data : SyncData) : SyncData := {data with registered := [],signaledBy := []}
def SyncData.depend (ref : Triggerable) (data : SyncData) : SyncData :=
  {data with dependancies := data.dependancies ++ [ref],registered := data.registered ++ [ref]}
def SyncData.returnTrue (data : SyncData) : SyncData := {data with trues := data.trues + 1}
def SyncData.wake (data : SyncData) : SyncData := {data with posts := data.posts - 1}
def SyncData.remove (ref : Triggerable) (data : SyncData) : SyncData :=
  {data with dependancies := data.dependancies.filter (· ≠ ref),signaledBy := data.signaledBy ++ [ref]}
def SyncData.notify (data : SyncData) : SyncData := {data with posts := data.posts + 1,notified := data.notified + 1}

def State.start (program : Program) : State where
  signaled := program.signaled
  clients _ := []
  syncs _ := .fresh
  threads := ⟨fun
    | .waiter sync => .ready (program.calls sync)
    | .signaler _ => .idle,fun _ => none⟩
  failed := false

namespace State
variable (state : State)

def pc (thread : Thread) : Pc := state.threads.pc thread

def modify (sync : Synchronizer) (change : SyncData → SyncData) : State :=
  {state with syncs := Function.update state.syncs sync (change (state.syncs sync))}

def goto (thread : Thread) (next : Pc) : State := {state with threads := state.threads.move Pc.locks thread next}

def enter (thread : Thread) (next : Pc) : Option State :=
  if state.threads.available Pc.locks thread next then some (state.goto thread next) else none

/-- The body of `register_wait` and the entry in the dependency list. -/
def registerWait (ref : Triggerable) (sync : Synchronizer) : State :=
  if state.signaled ref then state
  else {state with clients := Function.update state.clients ref (state.clients ref ++ [sync])}.modify sync
    (SyncData.depend ref)

/-- The body of `set_signaled` up to the walk; the walk works on the list it found. -/
def setSignaled (ref : Triggerable) : State :=
  {state with
    signaled := Function.update state.signaled ref true
    clients := Function.update state.clients ref []}

def removeDependancy (ref : Triggerable) (sync : Synchronizer) : State :=
  {state with failed := state.failed || (state.syncs sync).dependancies.isEmpty}.modify sync (SyncData.remove ref)

end State

def step (program : Program) (state : State) (thread : Thread) : Option State :=
  match thread, state.pc thread with
  -- Synchronizer::synchronize
  | .waiter sync, .ready (list::calls) => state.enter thread (.locking sync list calls)
  | .waiter sync, .locking _ list calls => (state.modify sync SyncData.call).enter thread (.choosing sync list calls)
  | .waiter sync, .choosing _ (ref::list) calls => state.enter thread (.registering sync ref list calls)
  | .waiter sync, .registering _ ref list calls =>
    (state.registerWait ref sync).enter thread (.choosing sync list calls)
  | .waiter sync, .choosing _ [] calls =>
    if (state.syncs sync).dependancies.isEmpty then state.enter thread (.ready calls)
    else (state.modify sync SyncData.returnTrue).enter thread (.waiting calls)
  -- the waiter sleeps until it is notified
  | .waiter sync, .waiting calls =>
    if 0 < (state.syncs sync).posts then (state.modify sync SyncData.wake).enter thread (.ready calls) else none
  | .waiter _, .ready [] => state.enter thread .ended
  -- TwoPhaseTriggerable::set_signaled
  | .signaler ref, .idle =>
    if program.signals ref && !state.signaled ref then state.enter thread (.starting ref) else none
  | .signaler ref, .starting _ => (state.setSignaled ref).enter thread (.walking ref (state.clients ref))
  | .signaler ref, .walking _ (client::clients) => state.enter thread (.signaling ref client clients .removing)
  -- Synchronizer::signal
  | .signaler ref, .signaling _ client clients .removing =>
    let removed := state.removeDependancy ref client
    removed.enter thread (.signaling ref client clients
      (if (removed.syncs client).dependancies.isEmpty then .notifying else .unlocking))
  | .signaler ref, .signaling _ client clients .notifying =>
    (state.modify client SyncData.notify).enter thread (.signaling ref client clients .unlocking)
  | .signaler ref, .signaling _ _ clients .unlocking => state.enter thread (.walking ref clients)
  | .signaler _, .walking _ [] => state.enter thread .finished
  | _, _ => none

inductive Effect (program : Program) (state : State) : Thread → State → Pc → Prop
  | called (sync : Synchronizer) (list : List Triggerable) (calls : List (List Triggerable))
      (here : state.pc (.waiter sync) = .ready (list::calls)) :
      Effect program state (.waiter sync) state (.locking sync list calls)
  | locked (sync owner : Synchronizer) (list : List Triggerable) (calls : List (List Triggerable))
      (here : state.pc (.waiter sync) = .locking owner list calls) :
      Effect program state (.waiter sync) (state.modify sync SyncData.call) (.choosing sync list calls)
  | chose (sync owner : Synchronizer) (ref : Triggerable) (list : List Triggerable) (calls : List (List Triggerable))
      (here : state.pc (.waiter sync) = .choosing owner (ref::list) calls) :
      Effect program state (.waiter sync) state (.registering sync ref list calls)
  | registered (sync owner : Synchronizer) (ref : Triggerable) (list : List Triggerable)
      (calls : List (List Triggerable)) (here : state.pc (.waiter sync) = .registering owner ref list calls) :
      Effect program state (.waiter sync) (state.registerWait ref sync) (.choosing sync list calls)
  | returnedFalse (sync owner : Synchronizer) (calls : List (List Triggerable))
      (here : state.pc (.waiter sync) = .choosing owner [] calls) (empty : (state.syncs sync).dependancies = []) :
      Effect program state (.waiter sync) state (.ready calls)
  | returnedTrue (sync owner : Synchronizer) (calls : List (List Triggerable))
      (here : state.pc (.waiter sync) = .choosing owner [] calls) (depends : (state.syncs sync).dependancies ≠ []) :
      Effect program state (.waiter sync) (state.modify sync SyncData.returnTrue) (.waiting calls)
  | woke (sync : Synchronizer) (calls : List (List Triggerable)) (here : state.pc (.waiter sync) = .waiting calls)
      (posted : 0 < (state.syncs sync).posts) :
      Effect program state (.waiter sync) (state.modify sync SyncData.wake) (.ready calls)
  | ended (sync : Synchronizer) (here : state.pc (.waiter sync) = .ready []) :
      Effect program state (.waiter sync) state .ended
  | started (ref : Triggerable) (here : state.pc (.signaler ref) = .idle) (wanted : program.signals ref = true)
      (unsignaled : state.signaled ref = false) : Effect program state (.signaler ref) state (.starting ref)
  | signaled (ref owner : Triggerable) (here : state.pc (.signaler ref) = .starting owner) :
      Effect program state (.signaler ref) (state.setSignaled ref) (.walking ref (state.clients ref))
  | walked (ref owner : Triggerable) (client : Synchronizer) (clients : List Synchronizer)
      (here : state.pc (.signaler ref) = .walking owner (client::clients)) :
      Effect program state (.signaler ref) state (.signaling ref client clients .removing)
  | removed (ref owner : Triggerable) (client : Synchronizer) (clients : List Synchronizer)
      (here : state.pc (.signaler ref) = .signaling owner client clients .removing) :
      Effect program state (.signaler ref) (state.removeDependancy ref client) (.signaling ref client clients
        (if ((state.removeDependancy ref client).syncs client).dependancies.isEmpty then .notifying else .unlocking))
  | notified (ref owner : Triggerable) (client : Synchronizer) (clients : List Synchronizer)
      (here : state.pc (.signaler ref) = .signaling owner client clients .notifying) :
      Effect program state (.signaler ref) (state.modify client SyncData.notify)
        (.signaling ref client clients .unlocking)
  | unlocked (ref owner : Triggerable) (client : Synchronizer) (clients : List Synchronizer)
      (here : state.pc (.signaler ref) = .signaling owner client clients .unlocking) :
      Effect program state (.signaler ref) state (.walking ref clients)
  | finished (ref owner : Triggerable) (here : state.pc (.signaler ref) = .walking owner []) :
      Effect program state (.signaler ref) state .finished

variable {program : Program} {state changed next : State} {thread : Thread} {point : Pc}

theorem State.enter_some {final : State} (entered : state.enter thread point = some final) :
    final = state.goto thread point ∧ state.threads.available Pc.locks thread point = true := by
  unfold State.enter at entered
  split at entered
  next available => exact ⟨(Option.some.inj entered).symm,available⟩
  next => cases entered

@[simp] theorem registerWait_threads (ref : Triggerable) (sync : Synchronizer) :
    (state.registerWait ref sync).threads = state.threads := by
  unfold State.registerWait
  split <;> rfl

theorem Effect.threads (effect : Effect program state thread changed point) : changed.threads = state.threads := by
  cases effect with
  | registered sync owner ref list calls here => exact registerWait_threads ref sync
  | _ => rfl

theorem Effect.entered (effect : Effect program state thread changed point)
    (entered : changed.enter thread point = some next) :
    ∃ changed point, Effect program state thread changed point ∧ next = changed.goto thread point ∧
      state.threads.available Pc.locks thread point = true := by
  obtain ⟨final,available⟩ := State.enter_some entered
  rw [effect.threads] at available
  exact ⟨changed,point,effect,final,available⟩

theorem step_effect (stepped : step program state thread = some next) :
    ∃ changed point, Effect program state thread changed point ∧ next = changed.goto thread point ∧
      state.threads.available Pc.locks thread point = true := by
  unfold step at stepped
  split at stepped
  next sync list calls here => exact (Effect.called sync list calls here).entered stepped
  next sync owner list calls here => exact (Effect.locked sync owner list calls here).entered stepped
  next sync owner ref list calls here => exact (Effect.chose sync owner ref list calls here).entered stepped
  next sync owner ref list calls here => exact (Effect.registered sync owner ref list calls here).entered stepped
  next sync owner calls here =>
    split at stepped
    next empty => exact (Effect.returnedFalse sync owner calls here (List.isEmpty_iff.mp empty)).entered stepped
    next some_left =>
      exact (Effect.returnedTrue sync owner calls here fun empty => some_left (by simp [empty])).entered stepped
  next sync calls here =>
    split at stepped
    next posted => exact (Effect.woke sync calls here posted).entered stepped
    next => cases stepped
  next sync here => exact (Effect.ended sync here).entered stepped
  next ref here =>
    split at stepped
    next allowed =>
      have both := Bool.and_eq_true_iff.mp allowed
      exact (Effect.started ref here both.1 (by simpa using both.2)).entered stepped
    next => cases stepped
  next ref owner here => exact (Effect.signaled ref owner here).entered stepped
  next ref owner client clients here => exact (Effect.walked ref owner client clients here).entered stepped
  next ref owner client clients here => exact (Effect.removed ref owner client clients here).entered stepped
  next ref owner client clients here => exact (Effect.notified ref owner client clients here).entered stepped
  next ref owner client clients here => exact (Effect.unlocked ref owner client clients here).entered stepped
  next ref owner here => exact (Effect.finished ref owner here).entered stepped
  next => cases stepped

theorem goto_pc (threads : changed.threads = state.threads) (other : Thread) :
    (changed.goto thread point).pc other = if other = thread then point else state.pc other := by
  simp only [State.pc,State.goto,Threads.move_pc,threads]

theorem modify_syncs (sync other : Synchronizer) (change : SyncData → SyncData) :
    (state.modify sync change).syncs other = if other = sync then change (state.syncs sync) else state.syncs other :=
  Function.update_apply _ _ _ _

theorem modify_keeps {Value : Type} (field : SyncData → Value) (change : SyncData → SyncData)
    (keeps : ∀ data, field (change data) = field data) (sync other : Synchronizer) :
    field ((state.modify sync change).syncs other) = field (state.syncs other) := by
  rw [modify_syncs]
  split
  next same => rw [keeps,same]
  next => rfl

theorem registerWait_clients (ref other : Triggerable) (sync : Synchronizer) :
    (state.registerWait ref sync).clients other =
      if other = ref ∧ state.signaled ref = false then state.clients ref ++ [sync] else state.clients other := by
  unfold State.registerWait
  cases signaled : state.signaled ref with
  | true => simp
  | false =>
    by_cases same : other = ref
    · simp [same,State.modify]
    · simp [same,State.modify]

theorem registerWait_syncs (ref : Triggerable) (sync other : Synchronizer) :
    (state.registerWait ref sync).syncs other =
      if other = sync ∧ state.signaled ref = false then SyncData.depend ref (state.syncs sync) else state.syncs other := by
  unfold State.registerWait
  cases signaled : state.signaled ref with
  | true => simp
  | false => simp [modify_syncs]

@[simp] theorem registerWait_signaled (ref : Triggerable) (sync : Synchronizer) :
    (state.registerWait ref sync).signaled = state.signaled := by
  unfold State.registerWait
  split <;> rfl

theorem removeDependancy_syncs (ref : Triggerable) (sync other : Synchronizer) :
    (state.removeDependancy ref sync).syncs other =
      if other = sync then SyncData.remove ref (state.syncs sync) else state.syncs other :=
  Function.update_apply _ _ _ _

def Pc.Owned : Thread → Pc → Prop
  | .waiter _, .ready _ => True
  | .waiter sync, .locking owner _ _ => owner = sync
  | .waiter sync, .choosing owner _ _ => owner = sync
  | .waiter sync, .registering owner _ _ _ => owner = sync
  | .waiter _, .waiting _ => True
  | .waiter _, .ended => True
  | .signaler _, .idle => True
  | .signaler ref, .starting owner => owner = ref
  | .signaler ref, .walking owner _ => owner = ref
  | .signaler ref, .signaling owner _ _ _ => owner = ref
  | .signaler _, .finished => True
  | _, _ => False

theorem Effect.owned (effect : Effect program state thread changed point) : point.Owned thread := by
  cases effect <;> simp [Pc.Owned]

def Pc.raised : Pc → Bool
  | .walking _ _ => true
  | .signaling _ _ _ _ => true
  | .finished => true
  | _ => false

/-- What every run keeps, whatever the lists are: the locks' holders and the
points of the threads, and a registered synchronizer depends on the triggerable. -/
structure Ordered (state : State) : Prop where
  locked : state.threads.Exact Pc.locks
  owned : ∀ thread, (state.pc thread).Owned thread
  raised : ∀ ref, (state.pc (.signaler ref)).raised = true → state.signaled ref = true
  depends : ∀ ref, ∀ sync ∈ state.clients ref, ref ∈ (state.syncs sync).dependancies ∧ state.signaled ref = false

theorem ordered_start (program : Program) : Ordered (State.start program) := by
  refine ⟨?_,?_,?_,?_⟩
  · intro lock thread
    cases thread <;> simp [State.start,Pc.locks]
  · intro thread
    cases thread <;> trivial
  · intro ref raised
    cases raised
  · intro ref sync registered
    cases registered

theorem Ordered.stillRaised (ordered : Ordered state) {own ref : Triggerable}
    (already : (state.pc (.signaler own)).raised = true)
    (raised : (if Thread.signaler ref = .signaler own then point else state.pc (.signaler ref)).raised = true) :
    state.signaled ref = true := by
  split at raised
  next same =>
    cases same
    exact ordered.raised own already
  next => exact ordered.raised ref raised

theorem Effect.raised (ordered : Ordered state) (effect : Effect program state thread changed point)
    {ref : Triggerable} (raised : ((changed.goto thread point).pc (.signaler ref)).raised = true) :
    changed.signaled ref = true := by
  rw [goto_pc effect.threads] at raised
  have before := ordered.raised ref
  cases effect with
  | registered sync owner newest list calls here =>
    rw [registerWait_signaled]
    exact before (by simpa using raised)
  | started own here wanted unsignaled =>
    split at raised
    next => cases raised
    next => exact before raised
  | signaled own owner here =>
    by_cases same : ref = own
    · simp [State.setSignaled,same]
    · simpa [State.setSignaled,same] using before (by simpa [same] using raised)
  | walked own owner client clients here => exact ordered.stillRaised (by rw [here]; rfl) raised
  | removed own owner client clients here => exact ordered.stillRaised (by rw [here]; rfl) raised
  | notified own owner client clients here => exact ordered.stillRaised (by rw [here]; rfl) raised
  | unlocked own owner client clients here => exact ordered.stillRaised (by rw [here]; rfl) raised
  | finished own owner here => exact ordered.stillRaised (by rw [here]; rfl) raised
  | _ => exact before (by simpa using raised)

theorem Effect.depends (ordered : Ordered state) (effect : Effect program state thread changed point)
    {ref : Triggerable} {sync : Synchronizer} (client : sync ∈ changed.clients ref) :
    ref ∈ (changed.syncs sync).dependancies ∧ changed.signaled ref = false := by
  have before := ordered.depends ref sync
  cases effect with
  | registered own owner newest list calls here =>
    rw [registerWait_clients] at client
    rw [registerWait_syncs,registerWait_signaled]
    have grows (old : ref ∈ (state.syncs sync).dependancies) : ref ∈ (if sync = own ∧ state.signaled newest = false then
        SyncData.depend newest (state.syncs own) else state.syncs sync).dependancies := by
      split
      next both => exact List.mem_append_left _ (both.1 ▸ old)
      next => exact old
    split at client
    next new =>
      rw [new.1]
      rcases List.mem_append.mp client with old | last
      · have both := ordered.depends newest sync old
        exact ⟨new.1 ▸ grows (new.1 ▸ both.1),both.2⟩
      · obtain rfl := List.mem_singleton.mp last
        rw [if_pos ⟨rfl,new.2⟩]
        exact ⟨List.mem_append_right _ (List.mem_singleton_self newest),new.2⟩
    next => exact ⟨grows (before client).1,(before client).2⟩
  | signaled own owner here =>
    by_cases same : ref = own
    · simp [State.setSignaled,same] at client
    · simpa [State.setSignaled,same] using before (by simpa [State.setSignaled,same] using client)
  | removed own owner removed clients here =>
    obtain ⟨depends,unsignaled⟩ := before client
    have raised := ordered.raised own (by rw [here]; rfl)
    have different : ref ≠ own := fun same => by simp [same,raised] at unsignaled
    refine ⟨?_,unsignaled⟩
    rw [removeDependancy_syncs]
    split
    next same =>
      rw [← same]
      simpa [SyncData.remove,different] using depends
    next => exact depends
  | locked own owner list calls here =>
    rw [modify_keeps (·.dependancies) SyncData.call fun _ => rfl]
    exact before client
  | returnedTrue own owner calls here some_left =>
    rw [modify_keeps (·.dependancies) SyncData.returnTrue fun _ => rfl]
    exact before client
  | woke own calls here posted =>
    rw [modify_keeps (·.dependancies) SyncData.wake fun _ => rfl]
    exact before client
  | notified own owner notified clients here =>
    rw [modify_keeps (·.dependancies) SyncData.notify fun _ => rfl]
    exact before client
  | _ => exact before client

theorem Ordered.step (ordered : Ordered state) (effect : Effect program state thread changed point)
    (available : state.threads.available Pc.locks thread point = true) : Ordered (changed.goto thread point) := by
  refine ⟨?_,?_,fun ref raised => effect.raised ordered raised,fun ref sync client => effect.depends ordered client⟩
  · have moved := ordered.locked.move available
    rw [← effect.threads] at moved
    exact moved
  · intro other
    rw [goto_pc effect.threads]
    split
    next same => exact same ▸ effect.owned
    next => exact ordered.owned other

theorem run_pc {actions : List Thread} {initial final : State} (ran : run (step program) initial actions = some final)
    (other : Thread) (absent : other ∉ actions) : final.pc other = initial.pc other := by
  induction actions generalizing initial with
  | nil =>
    obtain rfl := Option.some.inj ran
    rfl
  | cons action rest ih =>
    obtain ⟨middle,stepped,ran⟩ := run_cons_some ran
    obtain ⟨changed,point,effect,rfl,_⟩ := step_effect stepped
    have different : other ≠ action := fun same => absent (by simp [same])
    have rest := ih ran fun member => absent (List.mem_cons_of_mem action member)
    rw [rest,goto_pc effect.threads,if_neg different]

end Pgasus.Synchronizing
