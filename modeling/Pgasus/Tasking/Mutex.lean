import Pgasus.Library.Locks
import Pgasus.Library.Runs

/-! Tasks and native threads that lock and unlock one `numa::Mutex`, one lock
operation at a time. Its `WaitObject` hands the mutex to the client registered
first and leaves the flag set; `must_wait` takes it as a side effect. -/
namespace Pgasus.Mutex
open Runs

inductive Party
  | task (id : Nat)
  | native (id : Nat)
deriving DecidableEq

/-- The spin locks: of the `WaitObject`, of a party's `Synchronizer`, and of a task. -/
inductive Lock
  | waitObject
  | synchronizer (party : Party)
  | task (id : Nat)
deriving DecidableEq

inductive Phase
  | removing
  | notifying
  | unlocking
deriving DecidableEq

/-- Where a party is in `lock` and `unlock`; `ready` is outside of both. -/
inductive Pc
  | ready
  | locking
  | synchronizing (party : Party)
  | choosing (party : Party)
  | registering (party : Party)
  | registered (party : Party) (waits : Bool)
  | synchronized (party : Party) (waits : Bool)
  | waiting
  | releasing
  | triggering
  | signaling (client : Party) (phase : Phase)
deriving DecidableEq

/-- `Task::wait` and `Task::notify` hold the mutex of the task. -/
def Party.taskMutex : Party → List Lock
  | .task id => [.task id]
  | .native _ => []

def Pc.locks : Pc → List Lock
  | .synchronizing party => party.taskMutex
  | .choosing party => .synchronizer party::party.taskMutex
  | .registering party => .waitObject::.synchronizer party::party.taskMutex
  | .registered party _ => .synchronizer party::party.taskMutex
  | .synchronized party _ => party.taskMutex
  | .triggering => [.waitObject]
  | .signaling client .notifying => .waitObject::.synchronizer client::client.taskMutex
  | .signaling client _ => [.waitObject,.synchronizer client]
  | _ => []

/-- `dependancies` counts a party's entries for this mutex, and `posts` is what
`notify` leaves for it. The last four are a record: who holds the mutex, who was
granted it and has not gone on, who has gone on after a grant, and who registered. -/
structure State where
  locked : Bool
  clients : List Party
  dependancies : Party → Nat
  posts : Party → Nat
  failed : Bool
  threads : Threads Party Pc Lock
  owners : List Party
  granted : List Party
  woken : List Party
  waiters : List Party

def State.start : State := ⟨false,[],fun _ => 0,fun _ => 0,false,⟨fun _ => .ready,fun _ => none⟩,[],[],[],[]⟩

namespace State
variable (state : State)

def pc (party : Party) : Pc := state.threads.pc party

def goto (party : Party) (next : Pc) : State := {state with threads := state.threads.move Pc.locks party next}

def enter (party : Party) (next : Pc) : Option State :=
  if state.threads.available Pc.locks party next then some (state.goto party next) else none

/-- `register_wait` with `must_wait`, which sets the flag in either case. -/
def registerWait (party : Party) : State :=
  if state.locked then
    {state with locked := true,clients := state.clients ++ [party],waiters := state.waiters ++ [party]}
  else {state with locked := true,owners := party::state.owners}

def depend (party : Party) : State :=
  {state with dependancies := Function.update state.dependancies party (state.dependancies party + 1)}

def wake (party : Party) : State :=
  {state with
    posts := Function.update state.posts party (state.posts party - 1)
    granted := state.granted.erase party
    woken := state.woken ++ [party]
    owners := party::state.owners}

def unlock (party : Party) : State := {state with locked := false,owners := state.owners.erase party}

def popFront (party client : Party) (rest : List Party) : State :=
  {state with clients := rest,granted := state.granted ++ [client],owners := state.owners.erase party}

/-- `remove` takes out every entry; the assertion says that there was one. -/
def removeDependancy (client : Party) : State :=
  {state with
    failed := state.failed || state.dependancies client == 0
    dependancies := Function.update state.dependancies client 0}

def notify (client : Party) : State := {state with posts := Function.update state.posts client (state.posts client + 1)}

end State

inductive Action
  | lock (party : Party)
  | unlock (party : Party)
  | advance (party : Party)

/-- A party may unlock only while it holds the mutex. -/
def step (state : State) : Action → Option State
  | .lock party => if state.pc party = .ready then state.enter party .locking else none
  | .unlock party => if state.pc party = .ready ∧ party ∈ state.owners then state.enter party .releasing else none
  | .advance party =>
    match state.pc party with
    | .ready => none
    -- Task::wait, Synchronizer::synchronize
    | .locking => state.enter party (.synchronizing party)
    | .synchronizing _ => state.enter party (.choosing party)
    | .choosing _ => state.enter party (.registering party)
    | .registering _ => (state.registerWait party).enter party (.registered party state.locked)
    | .registered _ true => (state.depend party).enter party (.synchronized party (0 < (state.depend party).dependancies party))
    | .registered _ false => state.enter party (.synchronized party (0 < state.dependancies party))
    | .synchronized _ true => state.enter party .waiting
    | .synchronized _ false => state.enter party .ready
    | .waiting => if 0 < state.posts party then (state.wake party).enter party .ready else none
    -- WaitObject::release
    | .releasing => state.enter party .triggering
    | .triggering =>
      match state.clients with
      | [] => (state.unlock party).enter party .ready
      | client::rest => (state.popFront party client rest).enter party (.signaling client .removing)
    -- Synchronizer::signal
    | .signaling client .removing =>
      (state.removeDependancy client).enter party (.signaling client
        (if (state.removeDependancy client).dependancies client = 0 then .notifying else .unlocking))
    | .signaling client .notifying => (state.notify client).enter party (.signaling client .unlocking)
    | .signaling _ .unlocking => state.enter party .ready

inductive Effect (state : State) (party : Party) : State → Pc → Prop
  | called (here : state.pc party = .ready) : Effect state party state .locking
  | unlocked (here : state.pc party = .ready) (owns : party ∈ state.owners) : Effect state party state .releasing
  | waited (here : state.pc party = .locking) : Effect state party state (.synchronizing party)
  | synchronized (own : Party) (here : state.pc party = .synchronizing own) :
      Effect state party state (.choosing party)
  | chose (own : Party) (here : state.pc party = .choosing own) : Effect state party state (.registering party)
  | registered (own : Party) (here : state.pc party = .registering own) :
      Effect state party (state.registerWait party) (.registered party state.locked)
  | depended (own : Party) (here : state.pc party = .registered own true) :
      Effect state party (state.depend party) (.synchronized party true)
  | skipped (own : Party) (here : state.pc party = .registered own false) :
      Effect state party state (.synchronized party (0 < state.dependancies party))
  | slept (own : Party) (here : state.pc party = .synchronized own true) : Effect state party state .waiting
  | returned (own : Party) (here : state.pc party = .synchronized own false) : Effect state party state .ready
  | woke (here : state.pc party = .waiting) (posted : 0 < state.posts party) :
      Effect state party (state.wake party) .ready
  | released (here : state.pc party = .releasing) : Effect state party state .triggering
  | freed (here : state.pc party = .triggering) (none_ : state.clients = []) :
      Effect state party (state.unlock party) .ready
  | granted (client : Party) (rest : List Party) (here : state.pc party = .triggering)
      (front : state.clients = client::rest) :
      Effect state party (state.popFront party client rest) (.signaling client .removing)
  | removed (client : Party) (here : state.pc party = .signaling client .removing) :
      Effect state party (state.removeDependancy client) (.signaling client .notifying)
  | notified (client : Party) (here : state.pc party = .signaling client .notifying) :
      Effect state party (state.notify client) (.signaling client .unlocking)
  | finished (client : Party) (here : state.pc party = .signaling client .unlocking) : Effect state party state .ready

variable {state changed next : State} {party : Party} {point : Pc} {action : Action}

theorem State.enter_some (entered : state.enter party point = some next) :
    next = state.goto party point ∧ state.threads.available Pc.locks party point = true := by
  unfold State.enter at entered
  split at entered
  next available => exact ⟨(Option.some.inj entered).symm,available⟩
  next => cases entered

@[simp] theorem registerWait_threads (party : Party) : (state.registerWait party).threads = state.threads := by
  unfold State.registerWait
  split <;> rfl

theorem Effect.threads (effect : Effect state party changed point) : changed.threads = state.threads := by
  cases effect with
  | registered => exact registerWait_threads party
  | _ => rfl

theorem Effect.entered (effect : Effect state party changed point) (entered : changed.enter party point = some next) :
    ∃ party changed point, Effect state party changed point ∧ next = changed.goto party point ∧
      state.threads.available Pc.locks party point = true := by
  obtain ⟨final,available⟩ := State.enter_some entered
  rw [effect.threads] at available
  exact ⟨party,changed,point,effect,final,available⟩

theorem step_effect (stepped : step state action = some next) :
    ∃ party changed point, Effect state party changed point ∧ next = changed.goto party point ∧
      state.threads.available Pc.locks party point = true := by
  cases action with
  | lock party =>
    simp only [step] at stepped
    split at stepped
    next here => exact (Effect.called here).entered stepped
    next => cases stepped
  | unlock party =>
    simp only [step] at stepped
    split at stepped
    next here => exact (Effect.unlocked here.1 here.2).entered stepped
    next => cases stepped
  | advance party =>
    simp only [step] at stepped
    split at stepped
    next => cases stepped
    next here => exact (Effect.waited here).entered stepped
    next own here => exact (Effect.synchronized own here).entered stepped
    next own here => exact (Effect.chose own here).entered stepped
    next own here => exact (Effect.registered own here).entered stepped
    next own here =>
      have positive : decide (0 < (state.depend party).dependancies party) = true := by simp [State.depend]
      rw [positive] at stepped
      exact (Effect.depended own here).entered stepped
    next own here => exact (Effect.skipped own here).entered stepped
    next own here => exact (Effect.slept own here).entered stepped
    next own here => exact (Effect.returned own here).entered stepped
    next here =>
      split at stepped
      next posted => exact (Effect.woke here posted).entered stepped
      next => cases stepped
    next here => exact (Effect.released here).entered stepped
    next here =>
      split at stepped
      next none_ => exact (Effect.freed here none_).entered stepped
      next client rest front => exact (Effect.granted client rest here front).entered stepped
    next client here =>
      have gone : (state.removeDependancy client).dependancies client = 0 := by simp [State.removeDependancy]
      rw [if_pos gone] at stepped
      exact (Effect.removed client here).entered stepped
    next client here => exact (Effect.notified client here).entered stepped
    next client here => exact (Effect.finished client here).entered stepped

theorem goto_pc (threads : changed.threads = state.threads) (other : Party) :
    (changed.goto party point).pc other = if other = party then point else state.pc other := by
  simp only [State.pc,State.goto,Threads.move_pc,threads]

def Pc.Owned (party : Party) : Pc → Prop
  | .synchronizing own => own = party
  | .choosing own => own = party
  | .registering own => own = party
  | .registered own _ => own = party
  | .synchronized own _ => own = party
  | _ => True

/-- Registered by `register_wait`, and `lock` has not returned. -/
def Pc.pending : Pc → Bool
  | .registered _ waits => waits
  | .synchronized _ waits => waits
  | .waiting => true
  | _ => false

def Pc.depends : Pc → Bool
  | .synchronized _ waits => waits
  | .waiting => true
  | _ => false

/-- On the way out of a `lock` that did not wait, or into `unlock`. -/
def Pc.holds : Pc → Bool
  | .registered _ waits => !waits
  | .synchronized _ waits => !waits
  | .releasing => true
  | .triggering => true
  | _ => false

theorem signaling_waitObject (client : Party) (phase : Phase) :
    Lock.waitObject ∈ (Pc.signaling client phase).locks := by
  cases phase <;> simp [Pc.locks]

theorem signaling_synchronizer (client : Party) (phase : Phase) :
    Lock.synchronizer client ∈ (Pc.signaling client phase).locks := by
  cases phase <;> simp [Pc.locks]

structure Inv (state : State) : Prop where
  exact_ : state.threads.Exact Pc.locks
  owned : ∀ party, (state.pc party).Owned party
  holders : state.owners.length + state.granted.length = if state.locked then 1 else 0
  order : state.waiters = state.woken ++ state.granted ++ state.clients
  free : state.locked = false → state.clients = []
  once : ∀ party, state.granted.count party + state.clients.count party = if (state.pc party).pending then 1 else 0
  holds : ∀ party, (state.pc party).holds = true → party ∈ state.owners
  posted : ∀ party, 0 < state.posts party →
    party ∈ state.granted ∧ state.posts party = 1 ∧ state.dependancies party = 0 ∧ (state.pc party).depends = true
  coming : ∀ party ∈ state.granted, 0 < state.posts party ∨
    ∃ other, state.pc other = .signaling party .removing ∨ state.pc other = .signaling party .notifying
  removing : ∀ party client, state.pc party = .signaling client .removing →
    client ∈ state.granted ∧ state.posts client = 0 ∧ state.dependancies client = 1
  notifying : ∀ party client, state.pc party = .signaling client .notifying →
    client ∈ state.granted ∧ state.posts client = 0 ∧ state.dependancies client = 0
  independent : ∀ party, (state.pc party).depends = false → state.dependancies party = 0
  dependent : ∀ party ∈ state.clients, (state.pc party).depends = true → state.dependancies party = 1
  asserted : state.failed = false

theorem inv_start : Inv State.start := by
  constructor <;> simp [State.start,State.pc,Pc.Owned,Pc.pending,Pc.holds,Threads.Exact,Pc.locks]

namespace Inv
variable (inv : Inv state)
include inv

theorem of_owner {owner : Party} (owns : owner ∈ state.owners) :
    state.owners = [owner] ∧ state.granted = [] ∧ state.locked = true := by
  have counted := inv.holders
  have positive := List.length_pos_of_mem owns
  split at counted
  next locked =>
    obtain ⟨only,same⟩ := List.length_eq_one_iff.mp (show state.owners.length = 1 by omega)
    rw [same] at owns
    rw [List.mem_singleton.mp owns]
    exact ⟨same,List.length_eq_zero_iff.mp (by omega),locked⟩
  next => omega

theorem of_granted {client : Party} (granted : client ∈ state.granted) :
    state.granted = [client] ∧ state.owners = [] ∧ state.locked = true := by
  have counted := inv.holders
  have positive := List.length_pos_of_mem granted
  split at counted
  next locked =>
    obtain ⟨only,same⟩ := List.length_eq_one_iff.mp (show state.granted.length = 1 by omega)
    rw [same] at granted
    rw [List.mem_singleton.mp granted]
    exact ⟨same,List.length_eq_zero_iff.mp (by omega),locked⟩
  next => omega

theorem of_unlocked (unlocked : state.locked = false) :
    state.owners = [] ∧ state.granted = [] ∧ state.clients = [] := by
  have counted := inv.holders
  rw [unlocked] at counted
  simp only [Bool.false_eq_true,if_false] at counted
  exact ⟨List.length_eq_zero_iff.mp (by omega),List.length_eq_zero_iff.mp (by omega),inv.free unlocked⟩

theorem depends_of_pending {client : Party} (pending : (state.pc client).pending = true)
    (outside : Lock.synchronizer client ∉ (state.pc client).locks) : (state.pc client).depends = true := by
  have owned := inv.owned client
  generalize state.pc client = pc at *
  cases pc <;> simp_all [Pc.pending,Pc.depends,Pc.Owned,Pc.locks]

theorem unsignaled {client : Party} (held : Lock.synchronizer client ∈ (state.pc party).locks)
    (silent : ∀ phase, state.pc party ≠ .signaling client phase) (other : Party) (phase : Phase) :
    state.pc other ≠ .signaling client phase := by
  intro signals
  have also : Lock.synchronizer client ∈ (state.pc other).locks := by
    rw [signals]
    exact signaling_synchronizer client phase
  have same := inv.exact_.unique also held
  exact silent phase (same ▸ signals)

theorem releases_alone (held : Lock.waitObject ∈ (state.pc party).locks) (other client : Party) (phase : Phase)
    (signals : state.pc other = .signaling client phase) : other = party := by
  have also : Lock.waitObject ∈ (state.pc other).locks := by
    rw [signals]
    exact signaling_waitObject client phase
  exact inv.exact_.unique also held

end Inv

def Pc.signals : Pc → Bool
  | .signaling _ phase => phase != .unlocking
  | _ => false

section Keeps
variable (inv : Inv state)
include inv

theorem Inv.still_coming (point : Pc) (threads : changed.threads = state.threads)
    (silent : (state.pc party).signals = false) (client : Party) (granted : client ∈ state.granted) :
    0 < state.posts client ∨ ∃ other, (changed.goto party point).pc other = .signaling client .removing ∨
      (changed.goto party point).pc other = .signaling client .notifying := by
  refine (inv.coming client granted).imp_right fun ⟨other,signals⟩ => ⟨other,?_⟩
  have different : other ≠ party := by
    intro same
    subst same
    obtain signals | signals := signals <;> simp [signals,Pc.signals] at silent
  rw [goto_pc threads,if_neg different]
  exact signals

structure Stands (state : State) (party : Party) (point : Pc) : Prop where
  owned : point.Owned party
  once : state.granted.count party + state.clients.count party = if point.pending then 1 else 0
  holds : point.holds = true → party ∈ state.owners
  posted : 0 < state.posts party →
    party ∈ state.granted ∧ state.posts party = 1 ∧ state.dependancies party = 0 ∧ point.depends = true
  removing : ∀ client, point = .signaling client .removing →
    client ∈ state.granted ∧ state.posts client = 0 ∧ state.dependancies client = 1
  notifying : ∀ client, point = .signaling client .notifying →
    client ∈ state.granted ∧ state.posts client = 0 ∧ state.dependancies client = 0
  independent : point.depends = false → state.dependancies party = 0
  dependent : party ∈ state.clients → point.depends = true → state.dependancies party = 1

theorem Inv.stands (party : Party) : Stands state party (state.pc party) :=
  ⟨inv.owned party,inv.once party,inv.holds party,inv.posted party,inv.removing party,inv.notifying party,
    inv.independent party,inv.dependent party⟩

theorem Inv.of_stands (threads : changed.threads = state.threads)
    (available : state.threads.available Pc.locks party point = true)
    (holders : changed.owners.length + changed.granted.length = if changed.locked then 1 else 0)
    (order : changed.waiters = changed.woken ++ changed.granted ++ changed.clients)
    (free : changed.locked = false → changed.clients = [])
    (here : Stands changed party point) (others : ∀ other, other ≠ party → Stands changed other (state.pc other))
    (coming : ∀ client ∈ changed.granted, 0 < changed.posts client ∨
      ∃ other, (changed.goto party point).pc other = .signaling client .removing ∨
        (changed.goto party point).pc other = .signaling client .notifying)
    (asserted : changed.failed = false) : Inv (changed.goto party point) := by
  have stands (other : Party) : Stands changed other ((changed.goto party point).pc other) := by
    rw [goto_pc threads]
    split
    next same => exact same ▸ here
    next different => exact others other different
  have moved : (changed.goto party point).threads.Exact Pc.locks := by
    have exact_ := inv.exact_.move available
    rw [← threads] at exact_
    exact exact_
  exact ⟨moved,fun other => (stands other).owned,holders,order,free,fun other => (stands other).once,
    fun other => (stands other).holds,fun other => (stands other).posted,coming,fun other => (stands other).removing,
    fun other => (stands other).notifying,fun other => (stands other).independent,fun other => (stands other).dependent,asserted⟩

theorem Inv.moved (available : state.threads.available Pc.locks party point = true) (owned : point.Owned party) (pending : point.pending = (state.pc party).pending)
    (depends : point.depends = (state.pc party).depends) (holds : point.holds = true → party ∈ state.owners)
    (silent : point.signals = false) (silentBefore : (state.pc party).signals = false) :
    Inv (state.goto party point) := by
  apply inv.of_stands rfl available inv.holders inv.order inv.free _ (fun other _ => inv.stands other)
    (inv.still_coming point rfl silentBefore) inv.asserted
  refine ⟨owned,pending ▸ inv.once party,holds,depends ▸ inv.posted party,?_,?_,depends ▸ inv.independent party,
    depends ▸ inv.dependent party⟩
  · intro client same
    simp [same,Pc.signals] at silent
  · intro client same
    simp [same,Pc.signals] at silent

theorem Inv.acquired {own : Party} (here : state.pc party = .registering own)
    (available : state.threads.available Pc.locks party (.registered party false) = true)
    (unlocked : state.locked = false) : Inv ((state.registerWait party).goto party (.registered party false)) := by
  obtain ⟨owners,granted,clients⟩ := inv.of_unlocked unlocked
  have taken : state.registerWait party = {state with locked := true,owners := party::state.owners} := by
    simp [State.registerWait,unlocked]
  have nobody (client : Party) : client ∉ state.granted := by simp [granted]
  rw [taken]
  refine inv.of_stands rfl available (by simp [owners,granted]) inv.order (fun contrary => by cases contrary)
    ⟨rfl,by simp [granted,clients,Pc.pending],fun _ => List.mem_cons_self,?_,nofun,nofun,?_,?_⟩ ?_ ?_ inv.asserted
  · exact fun positive => absurd (inv.posted party positive).1 (nobody party)
  · exact fun _ => inv.independent party (by simp [here,Pc.depends])
  · exact fun inside => by simp [clients] at inside
  · intro other _
    have stands := inv.stands other
    exact ⟨stands.owned,stands.once,fun holds => List.mem_cons_of_mem _ (stands.holds holds),stands.posted,
      stands.removing,stands.notifying,stands.independent,stands.dependent⟩
  · exact fun client inside => absurd inside (nobody client)

theorem Inv.enqueued {own : Party} (here : state.pc party = .registering own)
    (available : state.threads.available Pc.locks party (.registered party true) = true)
    (locked : state.locked = true) : Inv ((state.registerWait party).goto party (.registered party true)) := by
  have pushed : state.registerWait party = {state with
      locked := true,clients := state.clients ++ [party],waiters := state.waiters ++ [party]} := by
    simp [State.registerWait,locked]
  have silent : (state.pc party).signals = false := by simp [here,Pc.signals]
  have comes := inv.still_coming (.registered party true) (registerWait_threads party) silent
  have absent := inv.once party
  have undepended : (state.pc party).depends = false := by simp [here,Pc.depends]
  rw [pushed] at comes ⊢
  refine inv.of_stands rfl available (by simpa [locked] using inv.holders) (by simp [inv.order])
    (fun contrary => by cases contrary) ⟨rfl,?_,nofun,?_,nofun,nofun,fun _ => inv.independent party undepended,nofun⟩ ?_ comes inv.asserted
  · simp only [here,Pc.pending,Bool.false_eq_true,if_false] at absent
    simp only [List.count_append,List.count_singleton_self,Pc.pending,if_true]
    omega
  · intro positive
    have depends := (inv.posted party positive).2.2.2
    rw [undepended] at depends
    cases depends
  · intro other different
    have stands := inv.stands other
    refine ⟨stands.owned,?_,stands.holds,stands.posted,stands.removing,stands.notifying,stands.independent,fun inside => ?_⟩
    · simpa [List.count_append,List.count_singleton,Ne.symm different] using stands.once
    · rcases List.mem_append.mp inside with before | new
      · exact stands.dependent before
      · exact absurd (List.mem_singleton.mp new) different

/-- The dependency is entered before a signal can look for it. -/
theorem Inv.depended {own : Party} (here : state.pc party = .registered own true)
    (available : state.threads.available Pc.locks party (.synchronized party true) = true) :
    Inv ((state.depend party).goto party (.synchronized party true)) := by
  have undepended : (state.pc party).depends = false := by simp [here,Pc.depends]
  have nothing : state.dependancies party = 0 := inv.independent party undepended
  have held : Lock.synchronizer party ∈ (state.pc party).locks := by
    have own_ : own = party := by simpa [here,Pc.Owned] using inv.owned party
    simp [here,Pc.locks,own_]
  have silent : (state.pc party).signals = false := by simp [here,Pc.signals]
  have comes := @Inv.still_coming state (state.depend party) party inv (.synchronized party true) rfl silent
  have unsignaled := inv.unsignaled held (by simp [here])
  have entered : (state.depend party).dependancies party = 1 := by simp [State.depend,nothing]
  have kept {other : Party} (different : other ≠ party) : (state.depend party).dependancies other = state.dependancies other :=
    Function.update_of_ne different _ _
  have registered := inv.once party
  rw [here] at registered
  refine inv.of_stands rfl available inv.holders inv.order inv.free
    ⟨rfl,registered,nofun,?_,nofun,nofun,nofun,fun _ _ => entered⟩ ?_ comes inv.asserted
  · intro positive
    have depends := (inv.posted party positive).2.2.2
    rw [undepended] at depends
    cases depends
  · intro other different
    have stands := inv.stands other
    have signaled {client : Party} {phase : Phase} (signals : state.pc other = .signaling client phase) : client ≠ party :=
      fun same => unsignaled other phase (same ▸ signals)
    refine ⟨stands.owned,stands.once,stands.holds,?_,?_,?_,?_,?_⟩
    · rw [kept different]
      exact stands.posted
    · intro client signals
      rw [kept (signaled signals)]
      exact stands.removing client signals
    · intro client signals
      rw [kept (signaled signals)]
      exact stands.notifying client signals
    · rw [kept different]
      exact stands.independent
    · rw [kept different]
      exact stands.dependent

theorem Inv.woke (posted : 0 < state.posts party)
    (available : state.threads.available Pc.locks party .ready = true) :
    Inv ((state.wake party).goto party .ready) := by
  obtain ⟨inside,one,undepended,_⟩ := inv.posted party posted
  obtain ⟨granted,owners,locked⟩ := inv.of_granted inside
  have erased : (state.wake party).granted = [] := by simp [State.wake,granted]
  have nobody (client : Party) : client ∉ (state.wake party).granted := by simp [erased]
  have only {client : Party} (inside : client ∈ state.granted) : client = party := by simpa [granted] using inside
  have counted := inv.once party
  have bound : (if (state.pc party).pending then 1 else 0) ≤ 1 := by split <;> omega
  refine inv.of_stands rfl available (by simp [State.wake,granted,owners,locked]) (by simp [State.wake,inv.order,granted]) inv.free
    ⟨trivial,?_,nofun,?_,nofun,nofun,fun _ => undepended,nofun⟩ ?_ (fun client inside => absurd inside (nobody client)) inv.asserted
  · rw [granted,List.count_singleton_self] at counted
    have clients : (state.wake party).clients.count party = 0 := by
      change state.clients.count party = 0
      omega
    rw [erased,clients]
    rfl
  · intro positive
    simp [State.wake,one] at positive
  · intro other different
    have stands := inv.stands other
    have unposted : ¬0 < (state.wake party).posts other := by
      intro positive
      have before : 0 < state.posts other := by simpa [State.wake,different] using positive
      exact different (only (stands.posted before).1)
    have silent {client : Party} (granted : client ∈ state.granted) (none_ : state.posts client = 0) : False := by
      rw [only granted] at none_
      omega
    refine ⟨stands.owned,?_,fun holds => List.mem_cons_of_mem _ (stands.holds holds),fun positive => absurd positive unposted,?_,?_,
      stands.independent,stands.dependent⟩
    · rw [erased]
      change [].count other + state.clients.count other = _
      simpa [granted,List.count_singleton,Ne.symm different] using stands.once
    · exact fun client signals => (silent (stands.removing client signals).1 (stands.removing client signals).2.1).elim
    · exact fun client signals => (silent (stands.notifying client signals).1 (stands.notifying client signals).2.1).elim

theorem Inv.freed (here : state.pc party = .triggering) (none_ : state.clients = [])
    (available : state.threads.available Pc.locks party .ready = true) :
    Inv ((state.unlock party).goto party .ready) := by
  obtain ⟨owners,granted,locked⟩ := inv.of_owner (inv.holds party (by simp [here,Pc.holds]))
  have nobody (client : Party) : client ∉ state.granted := by simp [granted]
  have unregistered := inv.once party
  rw [here] at unregistered
  refine inv.of_stands rfl available (by simp [State.unlock,owners,granted]) inv.order (fun _ => none_)
    ⟨trivial,unregistered,nofun,fun positive => absurd (inv.posted party positive).1 (nobody party),nofun,nofun,
      fun _ => inv.independent party (by simp [here,Pc.depends]),nofun⟩ ?_ (fun client inside => absurd inside (nobody client)) inv.asserted
  intro other different
  have stands := inv.stands other
  refine ⟨stands.owned,stands.once,fun holds => ?_,stands.posted,stands.removing,stands.notifying,stands.independent,stands.dependent⟩
  have owner := stands.holds holds
  rw [owners] at owner
  exact absurd (List.mem_singleton.mp owner) different

theorem Inv.granted_front {client : Party} {rest : List Party} (here : state.pc party = .triggering)
    (front : state.clients = client::rest)
    (available : state.threads.available Pc.locks party (.signaling client .removing) = true) :
    Inv ((state.popFront party client rest).goto party (.signaling client .removing)) := by
  have moved := @goto_pc state (state.popFront party client rest) party (.signaling client .removing) rfl
  obtain ⟨owners,granted,locked⟩ := inv.of_owner (inv.holds party (by simp [here,Pc.holds]))
  have held : Lock.waitObject ∈ (state.pc party).locks := by simp [here,Pc.locks]
  have alone : ∀ other signaled phase, state.pc other = .signaling signaled phase → False := by
    intro other signaled phase signals
    have same := inv.releases_alone held other signaled phase signals
    simp [same,here] at signals
  have pending : (state.pc client).pending = true := by
    have counted := inv.once client
    rw [granted,front] at counted
    by_contra contrary
    simp [contrary] at counted
  have different : client ≠ party := by
    intro same
    simp [same,here,Pc.pending] at pending
  have depends := inv.depends_of_pending pending
    (inv.exact_.not_held_by_other available (signaling_synchronizer client .removing) different)
  have depended := inv.dependent client (front ▸ List.mem_cons_self) depends
  have unposted (other : Party) : state.posts other = 0 := by
    by_contra positive
    have inside := (inv.posted other (Nat.pos_of_ne_zero positive)).1
    simp [granted] at inside
  have grants : (state.popFront party client rest).granted = [client] := by simp [State.popFront,granted]
  -- the count of each party moves from the clients to the grants
  have counts (other : Party) : (state.popFront party client rest).granted.count other +
      (state.popFront party client rest).clients.count other = state.granted.count other + state.clients.count other := by
    rw [grants,granted,front]
    change [client].count other + rest.count other = 0 + (client::rest).count other
    rw [List.count_cons,List.count_cons,List.count_nil]
    omega
  have unregistered := inv.once party
  rw [here] at unregistered
  refine inv.of_stands rfl available (by simp [State.popFront,owners,granted,locked])
    (by simp [State.popFront,inv.order,granted,front]) (fun contrary => by simp [State.popFront,locked] at contrary)
    ⟨trivial,(counts party).trans unregistered,nofun,fun positive => absurd (unposted party) (Nat.ne_of_gt positive),?_,nofun,
      fun _ => inv.independent party (by simp [here,Pc.depends]),nofun⟩ ?_ ?_ inv.asserted
  · intro signaled same
    cases same
    exact ⟨by simp [grants],unposted client,depended⟩
  · intro other away
    have stands := inv.stands other
    refine ⟨stands.owned,(counts other).trans stands.once,fun holds => ?_,
      fun positive => absurd (unposted other) (Nat.ne_of_gt positive),fun signaled signals => (alone other signaled _ signals).elim,
      fun signaled signals => (alone other signaled _ signals).elim,stands.independent,fun inside => ?_⟩
    · have owner := stands.holds holds
      rw [owners] at owner
      exact absurd (List.mem_singleton.mp owner) away
    · exact stands.dependent (front ▸ List.mem_cons_of_mem client inside)
  · intro other inside
    rw [grants] at inside
    right
    refine ⟨party,.inl ?_⟩
    rw [moved,if_pos rfl,List.mem_singleton.mp inside]

theorem Inv.removed {client : Party} (here : state.pc party = .signaling client .removing)
    (available : state.threads.available Pc.locks party (.signaling client .notifying) = true) :
    Inv ((state.removeDependancy client).goto party (.signaling client .notifying)) := by
  have moved := @goto_pc state (state.removeDependancy client) party (.signaling client .notifying) rfl
  obtain ⟨inside,unposted,depended⟩ := inv.removing party client here
  have held : Lock.waitObject ∈ (state.pc party).locks := by
    rw [here]
    exact signaling_waitObject client .removing
  have alone := inv.releases_alone held
  have granted := (inv.of_granted inside).1
  have silent (other : Party) : ¬0 < state.posts other := by
    intro positive
    have only := (inv.posted other positive).1
    rw [granted] at only
    rw [List.mem_singleton.mp only] at positive
    omega
  have outside : client ∉ state.clients := by
    intro contrary
    have counted := inv.once client
    have first := List.count_pos_iff.mpr inside
    have second := List.count_pos_iff.mpr contrary
    split at counted <;> omega
  have gone : (state.removeDependancy client).dependancies client = 0 := by simp [State.removeDependancy]
  have kept {other : Party} (different : other ≠ client) :
      (state.removeDependancy client).dependancies other = state.dependancies other := Function.update_of_ne different _ _
  have independent {other : Party} (before : state.dependancies other = 0) :
      (state.removeDependancy client).dependancies other = 0 := by
    by_cases same : other = client
    · rw [same,gone]
    · rw [kept same,before]
  have unregistered := inv.once party
  rw [here] at unregistered
  refine inv.of_stands rfl available inv.holders inv.order inv.free
    ⟨trivial,unregistered,nofun,fun positive => absurd positive (silent party),nofun,?_,
      fun _ => independent (inv.independent party (by simp [here,Pc.depends])),nofun⟩ ?_ ?_ ?_
  · intro signaled same
    cases same
    exact ⟨inside,unposted,gone⟩
  · intro other different
    have stands := inv.stands other
    exact ⟨stands.owned,stands.once,stands.holds,fun positive => absurd positive (silent other),
      fun signaled signals => absurd (alone other _ _ signals) different,fun signaled signals => absurd (alone other _ _ signals) different,
      fun before => independent (stands.independent before),
      fun inside depends => (kept fun same => outside (same ▸ inside)).trans (stands.dependent inside depends)⟩
  · intro other within
    have only : other ∈ state.granted := within
    rw [granted] at only
    right
    refine ⟨party,.inr ?_⟩
    rw [moved,if_pos rfl,List.mem_singleton.mp only]
  · simp [State.removeDependancy,inv.asserted,depended]

theorem Inv.notified {client : Party} (here : state.pc party = .signaling client .notifying)
    (available : state.threads.available Pc.locks party (.signaling client .unlocking) = true) :
    Inv ((state.notify client).goto party (.signaling client .unlocking)) := by
  obtain ⟨inside,unposted,undepended⟩ := inv.notifying party client here
  have held : Lock.waitObject ∈ (state.pc party).locks := by
    rw [here]
    exact signaling_waitObject client .notifying
  have alone := inv.releases_alone held
  obtain ⟨granted,owners,locked⟩ := inv.of_granted inside
  have pending : (state.pc client).pending = true := by
    have counted := inv.once client
    rw [granted] at counted
    by_contra contrary
    simp [contrary] at counted
  have different : client ≠ party := by
    intro same
    simp [same,here,Pc.pending] at pending
  have depends := inv.depends_of_pending pending
    (inv.exact_.not_held_by_other available (signaling_synchronizer client .unlocking) different)
  have post : (state.notify client).posts client = 1 := by simp [State.notify,unposted]
  -- nobody but the client has been granted the mutex
  have silent {other : Party} (away : other ≠ client) : ¬0 < (state.notify client).posts other := by
    intro positive
    have before : 0 < state.posts other := by simpa [State.notify,away] using positive
    have only := (inv.posted other before).1
    rw [granted] at only
    exact away (List.mem_singleton.mp only)
  have unregistered := inv.once party
  rw [here] at unregistered
  refine inv.of_stands rfl available inv.holders inv.order inv.free
    ⟨trivial,unregistered,nofun,fun positive => absurd positive (silent (Ne.symm different)),nofun,nofun,
      fun _ => inv.independent party (by simp [here,Pc.depends]),nofun⟩ ?_ ?_ inv.asserted
  · intro other away
    have stands := inv.stands other
    refine ⟨stands.owned,stands.once,stands.holds,fun positive => ?_,
      fun signaled signals => absurd (alone other _ _ signals) away,fun signaled signals => absurd (alone other _ _ signals) away,
      stands.independent,stands.dependent⟩
    have same : other = client := by
      by_contra elsewhere
      exact silent elsewhere positive
    subst same
    exact ⟨inside,post,undepended,depends⟩
  · intro other within
    left
    have only : other ∈ state.granted := within
    rw [granted] at only
    rw [List.mem_singleton.mp only,post]
    exact Nat.one_pos

theorem Inv.step (effect : Effect state party changed point)
    (available : state.threads.available Pc.locks party point = true) : Inv (changed.goto party point) := by
  cases effect with
  | called here => apply inv.moved available <;> simp [here,Pc.Owned,Pc.pending,Pc.depends,Pc.holds,Pc.signals]
  | unlocked here owns =>
    apply inv.moved available <;> simp [here,owns,Pc.Owned,Pc.pending,Pc.depends,Pc.signals]
  | waited here => apply inv.moved available <;> simp [here,Pc.Owned,Pc.pending,Pc.depends,Pc.holds,Pc.signals]
  | synchronized own here => apply inv.moved available <;> simp [here,Pc.Owned,Pc.pending,Pc.depends,Pc.holds,Pc.signals]
  | chose own here => apply inv.moved available <;> simp [here,Pc.Owned,Pc.pending,Pc.depends,Pc.holds,Pc.signals]
  | registered own here =>
    cases locked : state.locked with
    | false => exact inv.acquired here (locked ▸ available) locked
    | true => exact inv.enqueued here (locked ▸ available) locked
  | depended own here => exact inv.depended here available
  | skipped own here =>
    have nothing : state.dependancies party = 0 := inv.independent party (by simp [here,Pc.depends])
    have owns := inv.holds party (by simp [here,Pc.holds])
    simp only [nothing,Nat.lt_irrefl,decide_false] at available ⊢
    apply inv.moved available <;> simp [here,owns,Pc.Owned,Pc.pending,Pc.depends,Pc.signals]
  | slept own here => apply inv.moved available <;> simp [here,Pc.Owned,Pc.pending,Pc.depends,Pc.holds,Pc.signals]
  | returned own here => apply inv.moved available <;> simp [here,Pc.Owned,Pc.pending,Pc.depends,Pc.holds,Pc.signals]
  | woke here posted => exact inv.woke posted available
  | released here =>
    have owns := inv.holds party (by simp [here,Pc.holds])
    apply inv.moved available <;> simp [here,owns,Pc.Owned,Pc.pending,Pc.depends,Pc.signals]
  | freed here none_ => exact inv.freed here none_ available
  | granted client rest here front => exact inv.granted_front here front available
  | removed client here => exact inv.removed here available
  | notified client here => exact inv.notified here available
  | finished client here => apply inv.moved available <;> simp [here,Pc.Owned,Pc.pending,Pc.depends,Pc.holds,Pc.signals]

end Keeps

theorem inv_of_run {actions : List Action} {final : State} (ran : run step State.start actions = some final) :
    Inv final := by
  apply invariant_of_run Inv _ inv_start ran
  intro state action next inv stepped
  obtain ⟨party,changed,point,effect,rfl,available⟩ := step_effect stepped
  exact inv.step effect available

/-- What is promised of the mutex. A party is registered from the moment its call
enters the client list until that call returns. -/
structure State.Safe (state : State) : Prop where
  /-- At most one party holds the mutex or has been granted it. -/
  exclusive : state.owners.length + state.granted.length ≤ 1
  unlocked_iff : state.locked = false ↔ state.owners = [] ∧ state.granted = []
  /-- Grants are made, and calls return, in the order of registration, once each. -/
  order : state.waiters = state.woken ++ state.granted ++ state.clients
  waiting : ∀ party, state.granted.count party + state.clients.count party = if (state.pc party).pending then 1 else 0
  /-- A grant has been announced to the waiting party, or `release` is about to. -/
  announced : ∀ party ∈ state.granted, 0 < state.posts party ∨
    ∃ other, state.pc other = .signaling party .removing ∨ state.pc other = .signaling party .notifying
  none_left : state.locked = false → ∀ party, (state.pc party).pending = false
  asserted : state.failed = false

theorem mutex_safe (actions : List Action) (final : State) (ran : run step State.start actions = some final) :
    final.Safe := by
  have inv := inv_of_run ran
  constructor
  · have counted := inv.holders
    split at counted <;> omega
  · constructor
    · intro unlocked
      obtain ⟨owners,granted,_⟩ := inv.of_unlocked unlocked
      exact ⟨owners,granted⟩
    · intro ⟨owners,granted⟩
      have counted := inv.holders
      simpa [owners,granted] using counted
  · exact inv.order
  · exact inv.once
  · exact inv.coming
  · intro unlocked party
    obtain ⟨_,granted,clients⟩ := inv.of_unlocked unlocked
    have counted := inv.once party
    rw [granted,clients] at counted
    by_contra pending
    simp [pending] at counted
  · exact inv.asserted

def handedOn : List Action :=
  [Action.lock (.native 0)] ++ List.replicate 6 (Action.advance (.native 0)) ++
    [Action.lock (.task 1)] ++ List.replicate 6 (Action.advance (.task 1)) ++
    [Action.lock (.task 2)] ++ List.replicate 6 (Action.advance (.task 2)) ++
    [Action.unlock (.native 0)] ++ List.replicate 5 (Action.advance (.native 0)) ++
    [Action.advance (.task 1),Action.unlock (.task 1)] ++ List.replicate 5 (Action.advance (.task 1))

theorem mutex_safe_handedOn : ∃ final, run step State.start handedOn = some final ∧
    final.woken = [.task 1] ∧ final.granted = [.task 2] ∧ final.Safe := by
  have evaluated : (run step State.start handedOn).any (fun final =>
      final.woken = [.task 1] ∧ final.granted = [.task 2]) = true := by decide +kernel
  obtain ⟨final,ran,record⟩ := (Option.any_eq_true _ _).mp evaluated
  have both := of_decide_eq_true record
  exact ⟨final,ran,both.1,both.2,mutex_safe handedOn final ran⟩

end Pgasus.Mutex
