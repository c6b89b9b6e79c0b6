import Pgasus.Tasking.Synchronizable

/-! One notification for each call of `synchronize` that returned true. The client
lists and the dependency lists stay in step as long as no call registers twice
with a triggerable that is still unsignaled. -/
namespace Pgasus.Synchronizing
open Runs

def Pc.unsignaled : Pc → List Synchronizer
  | .walking _ clients => clients
  | .signaling _ client clients .removing => client::clients
  | .signaling _ _ clients _ => clients
  | _ => []

def Pc.notifies : Pc → Option Synchronizer
  | .signaling _ client _ .notifying => some client
  | _ => none

inductive Stage
  | outside
  | calling
  | waiting
deriving DecidableEq

def Pc.stage : Pc → Stage
  | .choosing _ _ _ => .calling
  | .registering _ _ _ _ => .calling
  | .waiting _ => .waiting
  | _ => .outside

def State.Notifying (state : State) (sync : Synchronizer) : Prop :=
  ∃ ref, (state.pc (.signaler ref)).notifies = some sync

/-- If the step registers with an unsignaled triggerable, it is not yet a dependency. -/
def RegistersFresh (state : State) (thread : Thread) : Prop :=
  ∀ sync owner ref list calls, thread = .waiter sync → state.pc thread = .registering owner ref list calls →
    state.signaled ref = false → ref ∉ (state.syncs sync).dependancies

structure Linked (state : State) : Prop where
  nodup : ∀ ref, (state.clients ref).Nodup
  distinct : ∀ ref, (state.pc (.signaler ref)).unsignaled.Nodup
  depends : ∀ ref, ∀ sync ∈ (state.pc (.signaler ref)).unsignaled, ref ∈ (state.syncs sync).dependancies
  linked : ∀ sync, ∀ ref ∈ (state.syncs sync).dependancies,
    sync ∈ state.clients ref ∨ sync ∈ (state.pc (.signaler ref)).unsignaled

variable {program : Program} {state changed next : State} {thread : Thread} {point : Pc}

theorem linked_start (program : Program) : Linked (State.start program) := by
  refine ⟨fun _ => List.nodup_nil,fun _ => List.nodup_nil,?_,?_⟩
  · intro ref sync member
    cases member
  · intro sync ref member
    cases member

theorem Linked.calm (linked : Linked state) (threads : changed.threads = state.threads)
    (clients : changed.clients = state.clients)
    (dependancies : ∀ sync, (changed.syncs sync).dependancies = (state.syncs sync).dependancies)
    (unsignaled : ∀ ref, thread = .signaler ref → point.unsignaled = (state.pc thread).unsignaled) :
    Linked (changed.goto thread point) := by
  have same (ref : Triggerable) : ((changed.goto thread point).pc (.signaler ref)).unsignaled =
      (state.pc (.signaler ref)).unsignaled := by
    rw [goto_pc threads]
    split
    next here => rw [unsignaled ref here.symm,here]
    next => rfl
  refine ⟨?_,?_,?_,?_⟩
  · intro ref
    exact clients ▸ linked.nodup ref
  · intro ref
    rw [same]
    exact linked.distinct ref
  · intro ref sync member
    change ref ∈ (changed.syncs sync).dependancies
    rw [same] at member
    rw [dependancies]
    exact linked.depends ref sync member
  · intro sync ref member
    change ref ∈ (changed.syncs sync).dependancies at member
    change sync ∈ changed.clients ref ∨ _
    rw [dependancies] at member
    rw [same,clients]
    exact linked.linked sync ref member

theorem Linked.register (linked : Linked state) (ordered : Ordered state) {sync owner : Synchronizer} {ref : Triggerable}
    {list : List Triggerable} {calls : List (List Triggerable)}
    (here : state.pc (.waiter sync) = .registering owner ref list calls) (fresh : RegistersFresh state (.waiter sync)) :
    Linked ((state.registerWait ref sync).goto (.waiter sync) (.choosing sync list calls)) := by
  have pc (other : Triggerable) :
      ((state.registerWait ref sync).goto (.waiter sync) (.choosing sync list calls)).pc (.signaler other) =
        state.pc (.signaler other) := by
    rw [goto_pc (registerWait_threads ref sync)]
    simp
  have grown (other : Synchronizer) (r : Triggerable) (depends : r ∈ (state.syncs other).dependancies) :
      r ∈ ((state.registerWait ref sync).syncs other).dependancies := by
    rw [registerWait_syncs]
    split
    next both => exact List.mem_append_left _ (both.1 ▸ depends)
    next => exact depends
  refine ⟨?_,?_,?_,?_⟩
  · intro other
    change ((state.registerWait ref sync).clients other).Nodup
    rw [registerWait_clients]
    split
    next new =>
      refine List.nodup_append.mpr ⟨linked.nodup ref,by simp,?_⟩
      intro client member last single same
      obtain rfl := List.mem_singleton.mp single
      subst same
      exact fresh client owner ref list calls rfl here new.2 (ordered.depends ref client member).1
    next => exact linked.nodup other
  · intro other
    rw [pc]
    exact linked.distinct other
  · intro other client member
    rw [pc] at member
    exact grown client other (linked.depends other client member)
  · intro other r member
    change r ∈ ((state.registerWait ref sync).syncs other).dependancies at member
    change other ∈ (state.registerWait ref sync).clients r ∨ _
    rw [pc,registerWait_clients]
    have old (depends : r ∈ (state.syncs other).dependancies) :
        other ∈ (if r = ref ∧ state.signaled ref = false then state.clients ref ++ [sync] else state.clients r) ∨
          other ∈ (state.pc (.signaler r)).unsignaled := by
      rcases linked.linked other r depends with client | ahead
      · left
        split
        next new => exact List.mem_append_left _ (new.1 ▸ client)
        next => exact client
      · exact Or.inr ahead
    rw [registerWait_syncs] at member
    split at member
    next both =>
      rcases List.mem_append.mp member with depends | last
      · exact old (both.1 ▸ depends)
      · obtain rfl := List.mem_singleton.mp last
        left
        rw [if_pos ⟨rfl,both.2⟩,both.1]
        exact List.mem_append_right _ (List.mem_singleton_self sync)
    next => exact old member

theorem Linked.startWalk (linked : Linked state) (ordered : Ordered state) {ref owner : Triggerable}
    (here : state.pc (.signaler ref) = .starting owner) :
    Linked ((state.setSignaled ref).goto (.signaler ref) (.walking ref (state.clients ref))) := by
  have unsignaled (other : Triggerable) :
      (((state.setSignaled ref).goto (.signaler ref) (.walking ref (state.clients ref))).pc
        (.signaler other)).unsignaled = if other = ref then state.clients ref else
          (state.pc (.signaler other)).unsignaled := by
    have moved : (state.setSignaled ref).threads = state.threads := rfl
    rw [goto_pc moved]
    by_cases same : other = ref <;> simp [same,Pc.unsignaled]
  have clients (other : Triggerable) : (state.setSignaled ref).clients other =
      if other = ref then [] else state.clients other := Function.update_apply _ _ _ _
  refine ⟨?_,?_,?_,?_⟩
  · intro other
    change ((state.setSignaled ref).clients other).Nodup
    rw [clients]
    split
    next => exact List.nodup_nil
    next => exact linked.nodup other
  · intro other
    rw [unsignaled]
    split
    next => exact linked.nodup ref
    next => exact linked.distinct other
  · intro other sync member
    change other ∈ (state.syncs sync).dependancies
    rw [unsignaled] at member
    split at member
    next same => exact same ▸ (ordered.depends ref sync member).1
    next => exact linked.depends other sync member
  · intro sync other depends
    change sync ∈ (state.setSignaled ref).clients other ∨ _
    rw [unsignaled,clients]
    have before := linked.linked sync other depends
    split
    next same =>
      subst same
      rw [here] at before
      exact Or.inr (before.resolve_right List.not_mem_nil)
    next => exact before

theorem Linked.remove (linked : Linked state) {ref owner : Triggerable} {client : Synchronizer}
    {clients : List Synchronizer} (here : state.pc (.signaler ref) = .signaling owner client clients .removing)
    (walk : point.unsignaled = clients) : Linked ((state.removeDependancy ref client).goto (.signaler ref) point) := by
  have walked : (state.pc (.signaler ref)).unsignaled = client::clients := by rw [here]; rfl
  have unsignaled (other : Triggerable) :
      (((state.removeDependancy ref client).goto (.signaler ref) point).pc (.signaler other)).unsignaled =
        if other = ref then clients else (state.pc (.signaler other)).unsignaled := by
    have moved : (state.removeDependancy ref client).threads = state.threads := rfl
    rw [goto_pc moved]
    by_cases same : other = ref <;> simp [same,walk]
  have dependancies (sync : Synchronizer) (other : Triggerable) :
      other ∈ ((state.removeDependancy ref client).syncs sync).dependancies ↔
        other ∈ (state.syncs sync).dependancies ∧ ¬(sync = client ∧ other = ref) := by
    rw [removeDependancy_syncs]
    split
    next same => simp [same,SyncData.remove]
    next different => simp [different]
  have distinct := linked.distinct ref
  rw [walked] at distinct
  obtain ⟨unwalked,distinct⟩ := List.nodup_cons.mp distinct
  refine ⟨linked.nodup,?_,?_,?_⟩
  · intro other
    rw [unsignaled]
    split
    next => exact distinct
    next => exact linked.distinct other
  · intro other sync member
    change other ∈ ((state.removeDependancy ref client).syncs sync).dependancies
    rw [unsignaled] at member
    rw [dependancies]
    split at member
    next same =>
      subst same
      have depends := linked.depends other sync (by rw [walked]; exact List.mem_cons_of_mem client member)
      exact ⟨depends,fun both => unwalked (both.1 ▸ member)⟩
    next different => exact ⟨linked.depends other sync member,fun both => different both.2⟩
  · intro sync other member
    change other ∈ ((state.removeDependancy ref client).syncs sync).dependancies at member
    change sync ∈ state.clients other ∨ _
    rw [dependancies] at member
    rw [unsignaled]
    refine (linked.linked sync other member.1).imp_right fun ahead => ?_
    split
    next same =>
      subst same
      rw [walked] at ahead
      rcases List.mem_cons.mp ahead with first | later
      · exact absurd ⟨first,rfl⟩ member.2
      · exact later
    next => exact ahead

theorem Effect.linked (linked : Linked state) (ordered : Ordered state)
    (effect : Effect program state thread changed point) (fresh : RegistersFresh state thread) :
    Linked (changed.goto thread point) := by
  cases effect with
  | registered sync owner ref list calls here => exact linked.register ordered here fresh
  | signaled ref owner here => exact linked.startWalk ordered here
  | removed ref owner client clients here =>
    apply linked.remove here
    split <;> rfl
  | locked sync owner list calls here =>
    exact linked.calm rfl rfl (modify_keeps (·.dependancies) SyncData.call (fun _ => rfl) sync) nofun
  | returnedTrue sync owner calls here some_left =>
    exact linked.calm rfl rfl (modify_keeps (·.dependancies) SyncData.returnTrue (fun _ => rfl) sync) nofun
  | woke sync calls here posted =>
    exact linked.calm rfl rfl (modify_keeps (·.dependancies) SyncData.wake (fun _ => rfl) sync) nofun
  | notified ref owner client clients here =>
    have dependancies := @modify_keeps state _ (·.dependancies) SyncData.notify (fun _ => rfl) client
    exact linked.calm rfl rfl dependancies fun _ _ => by rw [here]; rfl
  | started ref here wanted unsignaled => exact linked.calm rfl rfl (fun _ => rfl) fun _ _ => by rw [here]; rfl
  | walked ref owner client clients here => exact linked.calm rfl rfl (fun _ => rfl) fun _ _ => by rw [here]; rfl
  | unlocked ref owner client clients here => exact linked.calm rfl rfl (fun _ => rfl) fun _ _ => by rw [here]; rfl
  | finished ref owner here => exact linked.calm rfl rfl (fun _ => rfl) fun _ _ => by rw [here]; rfl
  | _ => exact linked.calm rfl rfl (fun _ => rfl) nofun

/-- Where a synchronizer is between a call that returned true and its notification. -/
inductive Tracked (state : State) (sync : Synchronizer) : Prop
  | outside (at_ : (state.pc (.waiter sync)).stage = .outside) (quiet : ¬state.Notifying sync)
      (empty : (state.syncs sync).dependancies = []) (posts : (state.syncs sync).posts = 0)
      (counted : (state.syncs sync).trues = (state.syncs sync).notified)
  | calling (at_ : (state.pc (.waiter sync)).stage = .calling) (quiet : ¬state.Notifying sync)
      (posts : (state.syncs sync).posts = 0) (counted : (state.syncs sync).trues = (state.syncs sync).notified)
  | owed (at_ : (state.pc (.waiter sync)).stage = .waiting) (quiet : ¬state.Notifying sync)
      (some_left : (state.syncs sync).dependancies ≠ []) (posts : (state.syncs sync).posts = 0)
      (counted : (state.syncs sync).trues = (state.syncs sync).notified + 1)
  | notifying (at_ : (state.pc (.waiter sync)).stage = .waiting) (noted : state.Notifying sync)
      (empty : (state.syncs sync).dependancies = []) (posts : (state.syncs sync).posts = 0)
      (counted : (state.syncs sync).trues = (state.syncs sync).notified + 1)
  | posted (at_ : (state.pc (.waiter sync)).stage = .waiting) (quiet : ¬state.Notifying sync)
      (empty : (state.syncs sync).dependancies = []) (posts : (state.syncs sync).posts = 1)
      (counted : (state.syncs sync).trues = (state.syncs sync).notified)

theorem notifying_goto (threads : changed.threads = state.threads) (sync : Synchronizer)
    (same : ∀ ref, thread = .signaler ref → (point.notifies = some sync ↔ (state.pc thread).notifies = some sync)) :
    (changed.goto thread point).Notifying sync ↔ state.Notifying sync := by
  apply exists_congr
  intro ref
  rw [goto_pc threads]
  split
  next here => rw [same ref here.symm,here]
  next => rfl

theorem Tracked.calm {sync : Synchronizer} (tracked : Tracked state sync) (threads : changed.threads = state.threads)
    (data : changed.syncs sync = state.syncs sync) (stage : thread = .waiter sync → point.stage = (state.pc thread).stage)
    (notifies : ∀ ref, thread = .signaler ref →
      (point.notifies = some sync ↔ (state.pc thread).notifies = some sync)) :
    Tracked (changed.goto thread point) sync := by
  have noted := notifying_goto threads sync notifies
  have here : ((changed.goto thread point).pc (.waiter sync)).stage = (state.pc (.waiter sync)).stage := by
    rw [goto_pc threads]
    split
    next same => rw [stage same.symm,same]
    next => rfl
  have same : (changed.goto thread point).syncs sync = state.syncs sync := data
  cases tracked with
  | outside at_ quiet empty posts counted => apply Tracked.outside <;> simpa only [same,here,noted]
  | calling at_ quiet posts counted => apply Tracked.calling <;> simpa only [same,here,noted]
  | owed at_ quiet some_left posts counted => apply Tracked.owed <;> simpa only [same,here,noted]
  | notifying at_ notified empty posts counted => apply Tracked.notifying <;> simpa only [same,here,noted]
  | posted at_ quiet empty posts counted => apply Tracked.posted <;> simpa only [same,here,noted]

/-- At a synchronizer's lock there is one thread, so a signaler that works on it
excludes a call and any other signaler. -/
theorem Ordered.not_calling (ordered : Ordered state) {ref owner : Triggerable} {sync : Synchronizer}
    {clients : List Synchronizer} {phase : Phase} (here : state.pc (.signaler ref) = .signaling owner sync clients phase) :
    (state.pc (.waiter sync)).stage ≠ .calling := by
  intro calling
  have held : Lock.synchronizer sync ∈ (state.pc (.signaler ref)).locks := by simp [here,Pc.locks]
  have owned := ordered.owned (.waiter sync)
  have also : Lock.synchronizer sync ∈ (state.pc (.waiter sync)).locks := by
    cases at_ : state.pc (.waiter sync) with
    | choosing own list calls =>
      rw [at_] at owned
      cases owned
      exact List.mem_cons_self
    | registering own other list calls =>
      rw [at_] at owned
      cases owned
      exact List.mem_cons_self
    | _ =>
      rw [at_] at calling
      cases calling
  have same := ordered.locked.unique held also
  cases same

theorem Ordered.notifier (ordered : Ordered state) {ref other owner : Triggerable} {sync : Synchronizer}
    {clients : List Synchronizer} {phase : Phase} (here : state.pc (.signaler ref) = .signaling owner sync clients phase)
    (notifies : (state.pc (.signaler other)).notifies = some sync) : other = ref := by
  have held : Lock.synchronizer sync ∈ (state.pc (.signaler ref)).locks := by simp [here,Pc.locks]
  have also : Lock.synchronizer sync ∈ (state.pc (.signaler other)).locks := by
    unfold Pc.notifies at notifies
    split at notifies
    next at_ =>
      obtain rfl := Option.some.inj notifies
      rw [at_]
      exact List.mem_cons_self
    next => cases notifies
  have same := ordered.locked.unique also held
  cases same
  rfl

theorem registerWait_keeps {Value : Type} (field : SyncData → Value) (ref : Triggerable)
    (keeps : ∀ data, field (SyncData.depend ref data) = field data) (sync other : Synchronizer) :
    field ((state.registerWait ref sync).syncs other) = field (state.syncs other) := by
  rw [registerWait_syncs]
  split
  next both => rw [keeps,both.1]
  next => rfl

theorem Effect.tracked_self {sync : Synchronizer} (tracked : Tracked state sync)
    (effect : Effect program state (.waiter sync) changed point) : Tracked (changed.goto (.waiter sync) point) sync := by
  have none_signals (ref : Triggerable) (signals : Thread.waiter sync = .signaler ref) :
      point.notifies = some sync ↔ (state.pc (.waiter sync)).notifies = some sync := by cases signals
  have noted : (changed.goto (.waiter sync) point).Notifying sync ↔ state.Notifying sync :=
    notifying_goto effect.threads sync none_signals
  have at_ : (changed.goto (.waiter sync) point).pc (.waiter sync) = point := by
    rw [goto_pc effect.threads,if_pos rfl]
  have data : (changed.goto (.waiter sync) point).syncs sync = changed.syncs sync := rfl
  cases effect with
  | called _ list calls here => exact tracked.calm rfl rfl (fun _ => by rw [here]; rfl) none_signals
  | chose _ owner ref list calls here => exact tracked.calm rfl rfl (fun _ => by rw [here]; rfl) none_signals
  | ended _ here => exact tracked.calm rfl rfl (fun _ => by rw [here]; rfl) none_signals
  | locked _ owner list calls here =>
    rw [modify_syncs,if_pos rfl] at data
    cases tracked with
    | outside _ quiet empty posts counted =>
      apply Tracked.calling <;> simp [at_,data,noted,quiet,posts,counted,SyncData.call,Pc.stage]
    | calling stage | owed stage | notifying stage | posted stage =>
      rw [here] at stage
      cases stage
  | registered _ owner ref list calls here =>
    have posts_kept := @registerWait_keeps state _ (·.posts) ref (fun _ => rfl) sync sync
    have trues_kept := @registerWait_keeps state _ (·.trues) ref (fun _ => rfl) sync sync
    have notified_kept := @registerWait_keeps state _ (·.notified) ref (fun _ => rfl) sync sync
    cases tracked with
    | calling _ quiet posts counted =>
      apply Tracked.calling
      · rw [at_]
        rfl
      · exact fun now => quiet (noted.mp now)
      · exact posts_kept.trans posts
      · exact trues_kept.trans (counted.trans notified_kept.symm)
    | outside stage | owed stage | notifying stage | posted stage =>
      rw [here] at stage
      cases stage
  | returnedFalse _ owner calls here empty =>
    cases tracked with
    | calling _ quiet posts counted =>
      apply Tracked.outside <;> simp [at_,data,noted,quiet,posts,counted,empty,Pc.stage]
    | outside stage | owed stage | notifying stage | posted stage =>
      rw [here] at stage
      cases stage
  | returnedTrue _ owner calls here some_left =>
    rw [modify_syncs,if_pos rfl] at data
    cases tracked with
    | calling _ quiet posts counted =>
      apply Tracked.owed <;> simp [at_,data,noted,quiet,posts,counted,some_left,SyncData.returnTrue,Pc.stage]
    | outside stage | owed stage | notifying stage | posted stage =>
      rw [here] at stage
      cases stage
  | woke _ calls here posted =>
    rw [modify_syncs,if_pos rfl] at data
    cases tracked with
    | posted _ quiet empty posts counted =>
      apply Tracked.outside <;> simp [at_,data,noted,quiet,posts,counted,empty,SyncData.wake,Pc.stage]
    | owed _ _ _ none | notifying _ _ _ none => omega
    | outside stage | calling stage =>
      rw [here] at stage
      cases stage

/-- A removal is made for a call that returned true; when it was the last one, the
notification follows. -/
theorem Tracked.remove {sync : Synchronizer} (tracked : Tracked state sync) (linked : Linked state)
    (ordered : Ordered state) {ref owner : Triggerable} {clients : List Synchronizer}
    (here : state.pc (.signaler ref) = .signaling owner sync clients .removing) :
    Tracked ((state.removeDependancy ref sync).goto (.signaler ref) (.signaling ref sync clients
      (if ((state.removeDependancy ref sync).syncs sync).dependancies.isEmpty then .notifying else .unlocking))) sync := by
  have depends : ref ∈ (state.syncs sync).dependancies :=
    linked.depends ref sync (by rw [here]; exact List.mem_cons_self)
  have some_left : (state.syncs sync).dependancies ≠ [] := List.ne_nil_of_mem depends
  have calling := ordered.not_calling here
  have threads : (state.removeDependancy ref sync).threads = state.threads := rfl
  have data : (state.removeDependancy ref sync).syncs sync = SyncData.remove ref (state.syncs sync) := by
    rw [removeDependancy_syncs,if_pos rfl]
  cases tracked with
  | outside _ _ empty | notifying _ _ empty | posted _ _ empty => exact absurd empty some_left
  | calling stage => exact absurd stage calling
  | owed stage quiet _ posts counted =>
    have waiter (point : Pc) : ((state.removeDependancy ref sync).goto (.signaler ref) point).pc (.waiter sync) =
        state.pc (.waiter sync) := by
      rw [goto_pc threads]
      simp
    split
    next empty =>
      apply Tracked.notifying
      · rw [waiter]
        exact stage
      · exact ⟨ref,by rw [goto_pc threads,if_pos rfl]; rfl⟩
      · exact List.isEmpty_iff.mp empty
      · exact (congrArg SyncData.posts data).trans posts
      · change ((state.removeDependancy ref sync).syncs sync).trues = ((state.removeDependancy ref sync).syncs sync).notified + 1
        rw [data]
        exact counted
    next left =>
      apply Tracked.owed
      · rw [waiter]
        exact stage
      · intro now
        have before := (notifying_goto threads sync fun _ _ => by rw [here]; simp [Pc.notifies]).mp now
        exact quiet before
      · exact fun empty => left (List.isEmpty_iff.mpr empty)
      · exact (congrArg SyncData.posts data).trans posts
      · change ((state.removeDependancy ref sync).syncs sync).trues = ((state.removeDependancy ref sync).syncs sync).notified + 1
        rw [data]
        exact counted

theorem Tracked.notify {sync : Synchronizer} (tracked : Tracked state sync) (ordered : Ordered state)
    {ref owner : Triggerable} {clients : List Synchronizer}
    (here : state.pc (.signaler ref) = .signaling owner sync clients .notifying) :
    Tracked ((state.modify sync SyncData.notify).goto (.signaler ref) (.signaling ref sync clients .unlocking)) sync := by
  have noted : state.Notifying sync := ⟨ref,by rw [here]; rfl⟩
  have threads : (state.modify sync SyncData.notify).threads = state.threads := rfl
  have data : (state.modify sync SyncData.notify).syncs sync = SyncData.notify (state.syncs sync) := by
    rw [modify_syncs,if_pos rfl]
  cases tracked with
  | outside _ quiet | calling _ quiet | owed _ quiet | posted _ quiet => exact absurd noted quiet
  | notifying stage _ empty posts counted =>
    apply Tracked.posted
    · rw [goto_pc threads]
      simpa using stage
    · intro ⟨other,now⟩
      rw [goto_pc threads] at now
      split at now
      next => cases now
      next different => exact different (congrArg Thread.signaler (ordered.notifier here now))
    · exact (congrArg SyncData.dependancies data).trans empty
    · exact (congrArg SyncData.posts data).trans (by simp [SyncData.notify,posts])
    · change ((state.modify sync SyncData.notify).syncs sync).trues = ((state.modify sync SyncData.notify).syncs sync).notified
      rw [data]
      exact counted

theorem Effect.tracked_other {sync : Synchronizer} (tracked : Tracked state sync) (linked : Linked state)
    (ordered : Ordered state) (effect : Effect program state thread changed point) (other : thread ≠ .waiter sync) :
    Tracked (changed.goto thread point) sync := by
  have threads := effect.threads
  have stage (same : thread = .waiter sync) : point.stage = (state.pc thread).stage := absurd same other
  have own_data {own : Synchronizer} (waiter : thread = .waiter own) : sync ≠ own := fun same => other (by rw [waiter,same])
  cases effect with
  | removed ref owner client clients here =>
    by_cases same : sync = client
    · subst same
      exact tracked.remove linked ordered here
    · have data : (state.removeDependancy ref client).syncs sync = state.syncs sync := by
        rw [removeDependancy_syncs,if_neg same]
      apply tracked.calm threads data stage
      intro _ _
      rw [here]
      split <;> simp [Pc.notifies,Ne.symm same]
  | notified ref owner client clients here =>
    by_cases same : sync = client
    · subst same
      exact tracked.notify ordered here
    · have data : (state.modify client SyncData.notify).syncs sync = state.syncs sync := by
        rw [modify_syncs,if_neg same]
      apply tracked.calm threads data stage
      intro _ _
      rw [here]
      simp [Pc.notifies,Ne.symm same]
  | locked own owner list calls here =>
    have data := @modify_syncs state own sync SyncData.call
    rw [if_neg (own_data rfl)] at data
    exact tracked.calm threads data stage fun _ impossible => by cases impossible
  | returnedTrue own owner calls here some_left =>
    have data := @modify_syncs state own sync SyncData.returnTrue
    rw [if_neg (own_data rfl)] at data
    exact tracked.calm threads data stage fun _ impossible => by cases impossible
  | woke own calls here posted =>
    have data := @modify_syncs state own sync SyncData.wake
    rw [if_neg (own_data rfl)] at data
    exact tracked.calm threads data stage fun _ impossible => by cases impossible
  | registered own owner ref list calls here =>
    have data := @registerWait_syncs state ref own sync
    rw [if_neg fun both => own_data rfl both.1] at data
    exact tracked.calm threads data stage fun _ impossible => by cases impossible
  | called | chose | returnedFalse | ended =>
    exact tracked.calm threads rfl stage fun _ impossible => by cases impossible
  | started ref here | signaled ref owner here | walked ref owner client clients here
  | unlocked ref owner client clients here | finished ref owner here =>
    apply tracked.calm threads rfl stage
    intro _ _
    rw [here]
    simp [Pc.notifies]

structure SyncData.Recorded (signaled : Triggerable → Bool) (data : SyncData) : Prop where
  depends : ∀ ref ∈ data.dependancies, ref ∈ data.registered
  left : ∀ ref ∈ data.registered, ref ∈ data.dependancies ∨ ref ∈ data.signaledBy
  signaled : ∀ ref ∈ data.signaledBy, signaled ref = true

def Recorded (state : State) (sync : Synchronizer) : Prop :=
  (state.syncs sync).Recorded state.signaled ∧
    ∀ ref, (state.pc (.signaler ref)).notifies = some sync → ref ∈ (state.syncs sync).registered

theorem SyncData.Recorded.same {signaled : Triggerable → Bool} {data other : SyncData} (recorded : data.Recorded signaled)
    (dependancies : other.dependancies = data.dependancies) (registered : other.registered = data.registered)
    (signaledBy : other.signaledBy = data.signaledBy) : other.Recorded signaled := by
  constructor
  · rw [dependancies,registered]
    exact recorded.depends
  · rw [dependancies,registered,signaledBy]
    exact recorded.left
  · rw [signaledBy]
    exact recorded.signaled

theorem SyncData.Recorded.raise {signaled : Triggerable → Bool} {data : SyncData} (recorded : data.Recorded signaled)
    (ref : Triggerable) : data.Recorded (Function.update signaled ref true) := by
  refine ⟨recorded.depends,recorded.left,?_⟩
  intro other member
  rw [Function.update_apply]
  split
  next => rfl
  next => exact recorded.signaled other member

theorem SyncData.Recorded.depend {signaled : Triggerable → Bool} {data : SyncData} (recorded : data.Recorded signaled)
    (ref : Triggerable) : (SyncData.depend ref data).Recorded signaled := by
  refine ⟨?_,?_,recorded.signaled⟩
  · intro other member
    rcases List.mem_append.mp member with old | last
    · exact List.mem_append_left _ (recorded.depends other old)
    · exact List.mem_append_right _ last
  · intro other member
    rcases List.mem_append.mp member with old | last
    · exact (recorded.left other old).imp_left (List.mem_append_left _)
    · exact Or.inl (List.mem_append_right _ last)

theorem SyncData.Recorded.remove {signaled : Triggerable → Bool} {data : SyncData} (recorded : data.Recorded signaled)
    {ref : Triggerable} (raised : signaled ref = true) : (SyncData.remove ref data).Recorded signaled := by
  constructor
  · intro other member
    exact recorded.depends other (List.mem_filter.mp member).1
  · intro other member
    by_cases same : other = ref
    · exact Or.inr (List.mem_append_right _ (by simp [same]))
    · rcases recorded.left other member with depends | signaled
      · exact Or.inl (List.mem_filter.mpr ⟨depends,by simpa using same⟩)
      · exact Or.inr (List.mem_append_left _ signaled)
  · intro other member
    rcases List.mem_append.mp member with old | last
    · exact recorded.signaled other old
    · obtain rfl := List.mem_singleton.mp last
      exact raised

theorem Effect.data_recorded {sync : Synchronizer} (recorded : (state.syncs sync).Recorded state.signaled)
    (tracked : Tracked state sync) (ordered : Ordered state) (effect : Effect program state thread changed point) :
    (changed.syncs sync).Recorded changed.signaled := by
  have kept (own : Synchronizer) (change : SyncData → SyncData) (keeps : ∀ data, (change data).dependancies = data.dependancies ∧
      (change data).registered = data.registered ∧ (change data).signaledBy = data.signaledBy) :
      ((state.modify own change).syncs sync).Recorded state.signaled :=
    recorded.same (modify_keeps (·.dependancies) change (fun data => (keeps data).1) own sync)
      (modify_keeps (·.registered) change (fun data => (keeps data).2.1) own sync)
      (modify_keeps (·.signaledBy) change (fun data => (keeps data).2.2) own sync)
  cases effect with
  | locked own owner list calls here =>
    change ((state.modify own SyncData.call).syncs sync).Recorded state.signaled
    rw [modify_syncs]
    split
    next same =>
      subst same
      cases tracked with
      | outside _ _ empty =>
        constructor <;> simp [SyncData.call,empty]
      | calling stage | owed stage | notifying stage | posted stage =>
        rw [here] at stage
        cases stage
    next => exact recorded
  | registered own owner ref list calls here =>
    rw [registerWait_syncs,registerWait_signaled]
    split
    next both => exact both.1 ▸ recorded.depend ref
    next => exact recorded
  | signaled ref owner here => exact recorded.raise ref
  | removed ref owner client clients here =>
    rw [removeDependancy_syncs]
    split
    next same => exact same ▸ recorded.remove (ordered.raised ref (by rw [here]; rfl))
    next => exact recorded
  | returnedTrue own owner calls here some_left => exact kept own SyncData.returnTrue fun _ => ⟨rfl,rfl,rfl⟩
  | woke own calls here posted => exact kept own SyncData.wake fun _ => ⟨rfl,rfl,rfl⟩
  | notified ref owner client clients here => exact kept client SyncData.notify fun _ => ⟨rfl,rfl,rfl⟩
  | _ => exact recorded

theorem Effect.keeps_registered {sync : Synchronizer} {ref : Triggerable} (tracked : Tracked state sync)
    (noted : state.Notifying sync) (effect : Effect program state thread changed point)
    (member : ref ∈ (state.syncs sync).registered) : ref ∈ (changed.syncs sync).registered := by
  have kept (own : Synchronizer) (change : SyncData → SyncData)
      (keeps : ∀ data, (change data).registered = data.registered) :
      ref ∈ ((state.modify own change).syncs sync).registered := by
    rw [modify_keeps (·.registered) change keeps own sync]
    exact member
  cases effect with
  | locked own owner list calls here =>
    change ref ∈ ((state.modify own SyncData.call).syncs sync).registered
    rw [modify_syncs,if_neg]
    · exact member
    · intro same
      subst same
      cases tracked with
      | outside _ quiet => exact quiet noted
      | calling stage | owed stage | notifying stage | posted stage =>
        rw [here] at stage
        cases stage
  | registered own owner newest list calls here =>
    rw [registerWait_syncs]
    split
    next both => exact List.mem_append_left _ (both.1 ▸ member)
    next => exact member
  | returnedTrue own owner calls here some_left => exact kept own SyncData.returnTrue fun _ => rfl
  | woke own calls here posted => exact kept own SyncData.wake fun _ => rfl
  | removed own owner client clients here => exact kept client (SyncData.remove own) fun _ => rfl
  | notified own owner client clients here => exact kept client SyncData.notify fun _ => rfl
  | _ => exact member

theorem Recorded.step {sync : Synchronizer} (recorded : Recorded state sync) (tracked : Tracked state sync)
    (linked : Linked state) (ordered : Ordered state) (effect : Effect program state thread changed point) :
    Recorded (changed.goto thread point) sync := by
  have data := effect.data_recorded recorded.1 tracked ordered
  refine ⟨data,?_⟩
  intro ref now
  change ref ∈ (changed.syncs sync).registered
  have before (noted : (state.pc (.signaler ref)).notifies = some sync) : ref ∈ (changed.syncs sync).registered :=
    effect.keeps_registered tracked ⟨ref,noted⟩ (recorded.2 ref noted)
  rw [goto_pc effect.threads] at now
  split at now
  next here =>
    subst here
    cases effect with
    | removed _ owner client clients here =>
      have same : client = sync := by
        split at now
        · exact Option.some.inj now
        · cases now
      subst same
      have depends := linked.depends ref client (by rw [here]; exact List.mem_cons_self)
      change ref ∈ ((state.removeDependancy ref client).syncs client).registered
      rw [removeDependancy_syncs,if_pos rfl]
      exact recorded.1.depends ref depends
    | _ => cases now
  next => exact before now

theorem Effect.failed (linked : Linked state) (effect : Effect program state thread changed point) :
    changed.failed = state.failed := by
  cases effect with
  | registered sync owner ref list calls here =>
    unfold State.registerWait
    split <;> rfl
  | removed ref owner client clients here =>
    have depends := linked.depends ref client (by rw [here]; exact List.mem_cons_self)
    change (state.failed || (state.syncs client).dependancies.isEmpty) = state.failed
    simp [List.ne_nil_of_mem depends]
  | _ => rfl

/-- A notification is made only for a call that has returned true and not twice,
outside the wait every such call has been notified, the notification comes after
everything registered has signaled, and it has come when the signalers have finished. -/
structure NotifiedOnce (state : State) (sync : Synchronizer) : Prop where
  atMostOnce : (state.syncs sync).notified ≤ (state.syncs sync).trues ∧
    (state.syncs sync).trues ≤ (state.syncs sync).notified + 1
  settled : (state.pc (.waiter sync)).stage ≠ .waiting → (state.syncs sync).notified = (state.syncs sync).trues
  afterLast : (state.pc (.waiter sync)).stage = .waiting → (state.syncs sync).notified = (state.syncs sync).trues →
    ∀ ref ∈ (state.syncs sync).registered, ref ∈ (state.syncs sync).signaledBy ∧ state.signaled ref = true
  exactlyOnce : (∀ ref ∈ (state.syncs sync).registered, state.pc (.signaler ref) = .finished) →
    (state.syncs sync).notified = (state.syncs sync).trues

structure InStep (state : State) : Prop where
  ordered : Ordered state
  linked : Linked state
  tracked : ∀ sync, Tracked state sync
  recorded : ∀ sync, Recorded state sync
  passed : state.failed = false

theorem inStep_start (program : Program) : InStep (State.start program) := by
  refine ⟨ordered_start program,linked_start program,?_,?_,rfl⟩
  · intro sync
    apply Tracked.outside
    · rfl
    · intro ⟨ref,noted⟩
      cases noted
    · rfl
    · rfl
    · rfl
  · intro sync
    refine ⟨?_,nofun⟩
    constructor <;> simp [State.start,SyncData.fresh]

theorem InStep.step (invariant : InStep state) (fresh : RegistersFresh state thread)
    (stepped : Synchronizing.step program state thread = some next) : InStep next := by
  obtain ⟨changed,point,effect,rfl,available⟩ := step_effect stepped
  refine ⟨invariant.ordered.step effect available,effect.linked invariant.linked invariant.ordered fresh,?_,?_,?_⟩
  · intro sync
    by_cases same : thread = .waiter sync
    · subst same
      exact effect.tracked_self (invariant.tracked sync)
    · exact effect.tracked_other (invariant.tracked sync) invariant.linked invariant.ordered same
  · intro sync
    exact (invariant.recorded sync).step (invariant.tracked sync) invariant.linked invariant.ordered effect
  · exact (effect.failed invariant.linked).trans invariant.passed

theorem InStep.unfinished (invariant : InStep state) {sync : Synchronizer}
    (finished : ∀ ref ∈ (state.syncs sync).registered, state.pc (.signaler ref) = .finished) :
    ¬state.Notifying sync ∧ (state.syncs sync).dependancies = [] := by
  constructor
  · intro ⟨ref,noted⟩
    rw [finished ref ((invariant.recorded sync).2 ref noted)] at noted
    cases noted
  · apply List.eq_nil_iff_forall_not_mem.mpr
    intro ref depends
    have done := finished ref ((invariant.recorded sync).1.depends ref depends)
    rcases invariant.linked.linked sync ref depends with client | ahead
    · have raised := invariant.ordered.raised ref (by rw [done]; rfl)
      have unsignaled := (invariant.ordered.depends ref sync client).2
      rw [raised] at unsignaled
      cases unsignaled
    · rw [done] at ahead
      cases ahead

theorem InStep.notifiedOnce (invariant : InStep state) (sync : Synchronizer) : NotifiedOnce state sync := by
  have tracked := invariant.tracked sync
  have recorded := (invariant.recorded sync).1
  constructor
  · cases tracked <;> omega
  · intro elsewhere
    cases tracked with
    | outside | calling => omega
    | owed stage | notifying stage | posted stage => exact absurd stage elsewhere
  · intro stage counted ref member
    have empty : (state.syncs sync).dependancies = [] := by
      cases tracked with
      | outside other | calling other =>
        rw [other] at stage
        cases stage
      | posted _ _ empty => exact empty
      | owed | notifying => omega
    have signaled : ref ∈ (state.syncs sync).signaledBy := by
      rcases recorded.left ref member with depends | signaled
      · rw [empty] at depends
        cases depends
      · exact signaled
    exact ⟨signaled,recorded.signaled ref signaled⟩
  · intro finished
    obtain ⟨quiet,empty⟩ := invariant.unfinished finished
    cases tracked with
    | owed _ _ some_left => exact absurd empty some_left
    | notifying _ noted => exact absurd noted quiet
    | outside | calling | posted => omega

/-- As long as no triggerable that is still unsignaled is registered twice, every call
that returned true is notified exactly once and the assertion never fails. -/
theorem notified_once_of_registersFresh (program : Program) (actions : List Thread) (final : State)
    (fresh : Meets (step program) RegistersFresh (State.start program) actions)
    (ran : run (step program) (State.start program) actions = some final) :
    final.failed = false ∧ ∀ sync, NotifiedOnce final sync := by
  have kept := invariant_of_meets InStep (fun _ _ _ invariant condition stepped => invariant.step condition stepped)
    (inStep_start program) fresh ran
  exact ⟨kept.passed,kept.notifiedOnce⟩

section Repeated

def namedTwice : Program := ⟨fun sync => if sync = 0 then [[7,7]] else [],fun _ => false,fun ref => ref = 7⟩

def twiceActions : List Thread := List.replicate 7 (Thread.waiter 0) ++ List.replicate 9 (Thread.signaler 7)

theorem twiceActions_run : (run (step namedTwice) (State.start namedTwice) twiceActions).isSome = true := by decide

theorem repeated_notifies_twice : ∃ final, run (step namedTwice) (State.start namedTwice) twiceActions = some final ∧
    final.failed = true ∧ (final.syncs 0).trues = 1 ∧ (final.syncs 0).notified = 2 ∧ ¬NotifiedOnce final 0 := by
  have failed : ((run (step namedTwice) (State.start namedTwice) twiceActions).get twiceActions_run).failed = true := by
    decide
  have trues : (((run (step namedTwice) (State.start namedTwice) twiceActions).get twiceActions_run).syncs 0).trues =
      1 := by decide
  have notified : (((run (step namedTwice) (State.start namedTwice) twiceActions).get twiceActions_run).syncs 0).notified =
      2 := by decide
  refine ⟨_,(Option.some_get twiceActions_run).symm,failed,trues,notified,?_⟩
  intro once
  have early := once.atMostOnce.1
  omega

def namedOnce : Program :=
  ⟨fun sync => if sync = 0 then [[7,8]] else [],fun _ => false,fun ref => ref = 7 ∨ ref = 8⟩

def onceActions : List Thread :=
  [Thread.waiter 0,Thread.waiter 0,Thread.waiter 0,Thread.waiter 0,Thread.signaler 7,Thread.signaler 7,Thread.waiter 0,
    Thread.waiter 0,Thread.waiter 0] ++
    List.replicate 4 (Thread.signaler 7) ++ List.replicate 7 (Thread.signaler 8)

theorem onceActions_run : (run (step namedOnce) (State.start namedOnce) onceActions).isSome = true := by decide

theorem onceActions_meets : Meets (step namedOnce) RegistersFresh (State.start namedOnce) onceActions := by
  apply meets_of_checks fun state thread => match thread, state.pc thread with
    | .waiter sync, .registering _ ref _ _ => !(state.syncs sync).dependancies.contains ref
    | _, _ => true
  · intro state thread tested sync owner ref list calls same here _
    subst same
    simpa [here] using tested
  · decide

theorem notified_once_namedOnce : ∃ final, run (step namedOnce) (State.start namedOnce) onceActions = some final ∧
    (final.syncs 0).notified = 1 ∧ final.failed = false ∧ ∀ sync, NotifiedOnce final sync := by
  have notified : (((run (step namedOnce) (State.start namedOnce) onceActions).get onceActions_run).syncs 0).notified =
      1 := by decide
  exact ⟨_,(Option.some_get onceActions_run).symm,notified,
    notified_once_of_registersFresh namedOnce _ _ onceActions_meets (Option.some_get onceActions_run).symm⟩

end Repeated
end Pgasus.Synchronizing
