import Pgasus.Library.Runs
import Pgasus.Library.Totals

/-! How the workers of one scheduler go to sleep and are woken: a counter of those that
wait, and a semaphore. The queues are what `try_get_task` finds, tasks being told by the
call that introduced them. -/
namespace Pgasus.Sleep
open Runs Totals

/-- Where a worker is in `get_new_task`, or that it runs a task. `entering` and `blocked`
are inside `waitForTask`, before and after the counter goes up. -/
inductive Pc
  | trying
  | backingOff
  | entering
  | blocked
  | running
deriving DecidableEq

/-- What a call does next; `post` has `more` posts to come after this one. `put_task` of a
scheduler first runs `taskAvailable` and then queues its task; `spawn_task` without one
does it the other way round. -/
inductive Call
  | load (queues : Bool)
  | exchange (queues : Bool)
  | post (more : Nat) (queues : Bool)
  | queue (signals : Bool)
  | returned
deriving DecidableEq

structure State where
  waitingThreadsCount : Nat
  semaphore : Nat
  workers : List Pc
  calls : List Call
  queued : List Nat

def State.start (workers : Nat) : State := ⟨0,0,List.replicate workers .trying,[],[]⟩

inductive Action
  | putTask
  | spawnTask
  | go (call : Nat)
  | take (worker task : Nat)
  | miss (worker : Nat)
  | backOff (worker : Nat) (again : Bool)
  | register (worker : Nat)
  | wake (worker : Nat)
  | timeout (worker : Nat)
  | finish (worker : Nat)
  | steal (task : Nat)
deriving DecidableEq

/-- After `taskAvailable`. -/
def Call.signaled (queues : Bool) : Call := if queues then .queue false else .returned

def Call.posting (queues : Bool) : Nat → Call
  | 0 => .signaled queues
  | more+1 => .post more queues

namespace State
variable (state : State)

def setCall (call : Nat) (point : Call) : State := {state with calls := state.calls.set call point}
def setWorker (worker : Nat) (pc : Pc) : State := {state with workers := state.workers.set worker pc}

def goCall (call : Nat) : Call → Option State
  | .load queues => some (state.setCall call (if 0 < state.waitingThreadsCount then .exchange queues else .signaled queues))
  | .exchange queues =>
    some ({state with waitingThreadsCount := 0}.setCall call (.posting queues state.waitingThreadsCount))
  | .post more queues => some ({state with semaphore := state.semaphore + 1}.setCall call (.posting queues more))
  | .queue signals =>
    some ({state with queued := state.queued ++ [call]}.setCall call (if signals then .load false else .returned))
  | .returned => none

def moveWorker (worker : Nat) (old new : Pc) : Option State :=
  if state.workers[worker]? = some old then some (state.setWorker worker new) else none

end State

/-- `sem_timedwait` gives up only when there is nothing to take. -/
def step (state : State) : Action → Option State
  | .putTask => some {state with calls := state.calls ++ [.load true]}
  | .spawnTask => some {state with calls := state.calls ++ [.queue true]}
  | .go call => (state.calls[call]?).bind (state.goCall call)
  | .take worker task =>
    if task ∈ state.queued then {state with queued := state.queued.erase task}.moveWorker worker .trying .running else none
  | .miss worker => if state.queued = [] then state.moveWorker worker .trying .backingOff else none
  | .backOff worker again => state.moveWorker worker .backingOff (if again then .trying else .entering)
  | .register worker =>
    {state with waitingThreadsCount := state.waitingThreadsCount + 1}.moveWorker worker .entering .blocked
  | .wake worker =>
    if 0 < state.semaphore then {state with semaphore := state.semaphore - 1}.moveWorker worker .blocked .trying else none
  | .timeout worker => if state.semaphore = 0 then state.moveWorker worker .blocked .trying else none
  | .finish worker => state.moveWorker worker .running .trying
  | .steal task => if task ∈ state.queued then some {state with queued := state.queued.erase task} else none

def Pc.waits : Pc → Nat
  | .blocked => 1
  | _ => 0

def Pc.inside : Pc → Nat
  | .entering | .blocked => 1
  | _ => 0

def Pc.looks : Pc → Nat
  | .trying | .running => 1
  | _ => 0

def Call.posts : Call → Nat
  | .post more _ => more + 1
  | _ => 0

def State.waiting (state : State) : Nat := total Pc.waits state.workers
def State.inside (state : State) : Nat := total Pc.inside state.workers
def State.looking (state : State) : Nat := total Pc.looks state.workers

def State.pending (state : State) : Nat := state.semaphore + total Call.posts state.calls

variable {state next : State} {call worker : Nat} {point new : Call} {old pc : Pc}

@[simp] theorem posts_signaled (queues : Bool) : (Call.signaled queues).posts = 0 := by cases queues <;> rfl

@[simp] theorem posts_posting (queues : Bool) (posts : Nat) : (Call.posting queues posts).posts = posts := by
  cases posts with
  | zero => exact posts_signaled queues
  | succ more => rfl

theorem moveWorker_some (moved : state.moveWorker worker old pc = some next) :
    state.workers[worker]? = some old ∧ next = state.setWorker worker pc := by
  unfold State.moveWorker at moved
  split at moved
  next found => exact ⟨found,(Option.some.inj moved).symm⟩
  next => cases moved

/-- A call moves registrations into posts, and loses none. -/
theorem goCall_pending (found : state.calls[call]? = some point) (went : state.goCall call point = some next) :
    next.workers = state.workers ∧
      next.waitingThreadsCount + next.pending = state.waitingThreadsCount + state.pending ∧
      state.pending ≤ next.pending := by
  have posts (new : Call) := total_set Call.posts new found
  cases point with
  | load queues =>
    obtain rfl := Option.some.inj went
    have posts := posts (if 0 < state.waitingThreadsCount then .exchange queues else .signaled queues)
    have none_ : (if 0 < state.waitingThreadsCount then Call.exchange queues else .signaled queues).posts = 0 := by
      split
      next => rfl
      next => exact posts_signaled queues
    rw [none_] at posts
    simp only [State.pending,State.setCall,Call.posts] at posts ⊢
    exact ⟨trivial,by omega⟩
  | exchange queues =>
    obtain rfl := Option.some.inj went
    have posts := posts (.posting queues state.waitingThreadsCount)
    rw [posts_posting] at posts
    simp only [State.pending,State.setCall,Call.posts] at posts ⊢
    exact ⟨trivial,by omega⟩
  | post more queues =>
    obtain rfl := Option.some.inj went
    have posts := posts (.posting queues more)
    rw [posts_posting] at posts
    simp only [State.pending,State.setCall,Call.posts] at posts ⊢
    exact ⟨trivial,by omega⟩
  | queue signals =>
    obtain rfl := Option.some.inj went
    have posts := posts (if signals then .load false else .returned)
    have none_ : (if signals then Call.load false else .returned).posts = 0 := by cases signals <;> rfl
    rw [none_] at posts
    simp only [State.pending,State.setCall,Call.posts] at posts ⊢
    exact ⟨trivial,by omega⟩
  | returned => cases went

/-- A worker leaves `waitForTask` through a post. -/
def Posted : Action → Prop
  | .timeout _ => False
  | _ => True

/-- Every worker that waits is counted, or a post for it is on its way. -/
def Balanced (state : State) : Prop := state.waitingThreadsCount + state.pending = state.waiting

theorem Balanced.moveWorker (balanced : state.waitingThreadsCount + state.pending + old.waits = state.waiting + pc.waits)
    (moved : state.moveWorker worker old pc = some next) : Balanced next := by
  obtain ⟨found,rfl⟩ := moveWorker_some moved
  have waits : (state.setWorker worker pc).waiting + old.waits = state.waiting + pc.waits := total_set Pc.waits pc found
  have same : (state.setWorker worker pc).waitingThreadsCount + (state.setWorker worker pc).pending =
      state.waitingThreadsCount + state.pending := rfl
  unfold Balanced
  omega

theorem Balanced.begin (balanced : Balanced state) (call : Call) (light : call.posts = 0) :
    Balanced {state with calls := state.calls ++ [call]} := by
  have posts : total Call.posts (state.calls ++ [call]) = total Call.posts state.calls := by
    rw [total_append,total_cons,total_nil,light]
    rfl
  unfold Balanced State.pending at balanced ⊢
  rw [posts]
  exact balanced

theorem Balanced.step (balanced : Balanced state) {action : Action} (posted : Posted action)
    (stepped : Sleep.step state action = some next) : Balanced next := by
  have counts : state.waitingThreadsCount + state.pending = state.waiting := balanced
  cases action with
  | putTask =>
    obtain rfl := Option.some.inj stepped
    exact balanced.begin _ rfl
  | spawnTask =>
    obtain rfl := Option.some.inj stepped
    exact balanced.begin _ rfl
  | go call =>
    obtain ⟨point,found,went⟩ := Option.bind_eq_some_iff.mp stepped
    obtain ⟨workers,kept,_⟩ := goCall_pending found went
    have waiting : next.waiting = state.waiting := by rw [State.waiting,workers,State.waiting]
    unfold Balanced
    omega
  | take worker task =>
    simp only [Sleep.step] at stepped
    split at stepped
    next =>
      apply Balanced.moveWorker _ stepped
      exact counts
    next => cases stepped
  | miss worker =>
    simp only [Sleep.step] at stepped
    split at stepped
    next =>
      apply Balanced.moveWorker _ stepped
      exact counts
    next => cases stepped
  | backOff worker again =>
    apply Balanced.moveWorker _ stepped
    cases again
    · exact counts
    · exact counts
  | register worker =>
    apply Balanced.moveWorker _ stepped
    change state.waitingThreadsCount + 1 + state.pending = state.waiting + 1
    omega
  | wake worker =>
    simp only [Sleep.step] at stepped
    split at stepped
    next some_ =>
      apply Balanced.moveWorker _ stepped
      change state.waitingThreadsCount + (state.semaphore - 1 + total Call.posts state.calls) + 1 = state.waiting
      unfold State.pending at counts
      omega
    next => cases stepped
  | timeout worker => exact posted.elim
  | finish worker =>
    apply Balanced.moveWorker _ stepped
    exact counts
  | steal task =>
    simp only [Sleep.step] at stepped
    split at stepped
    next =>
      obtain rfl := Option.some.inj stepped
      exact balanced
    next => cases stepped

/-- What the counter and the semaphore are meant to stay below. -/
def Bounded (state : State) : Prop :=
  state.waitingThreadsCount ≤ state.inside ∧ state.semaphore ≤ state.workers.length

theorem Balanced.bounded (balanced : Balanced state) : Bounded state := by
  have inside : state.waiting ≤ state.inside + total (fun _ : Pc => 0) state.workers :=
    total_le_add (fun pc => by cases pc <;> decide) state.workers
  have none_ : total (fun _ : Pc => 0) state.workers = 0 := total_eq_zero.mpr fun _ _ => rfl
  have all : state.waiting ≤ state.workers.length := total_le_length Pc.waits (fun pc => by cases pc <;> decide) _
  unfold Balanced State.pending at balanced
  unfold Bounded
  omega

theorem balanced_start (workers : Nat) : Balanced (State.start workers) := by
  have none_ : (State.start workers).waiting = 0 := total_replicate Pc.waits workers rfl
  exact none_.symm

/-- As long as no worker's wait times out, however long the run is. -/
theorem bounded_of_posted (workers : Nat) (actions : List Action) (final : State)
    (meets : Meets step (fun _ => Posted) (State.start workers) actions)
    (ran : run step (State.start workers) actions = some final) : Bounded final :=
  Balanced.bounded (invariant_of_meets Balanced (fun _ _ _ balanced posted stepped => balanced.step posted stepped)
    (balanced_start workers) meets ran)

def twoTimeouts : List Action :=
  [.miss 0,.backOff 0 false,.register 0,.timeout 0,.miss 0,.backOff 0 false,.register 0,.timeout 0]

theorem timeouts_unbounded : ∃ counted posted,
    run step (State.start 1) twoTimeouts = some counted ∧ counted.waitingThreadsCount = 2 ∧ counted.inside = 0 ∧
    run step counted [.putTask,.go 0,.go 0,.go 0,.go 0] = some posted ∧ posted.semaphore = 2 ∧
      posted.workers.length = 1 ∧ ¬Bounded counted ∧ ¬Bounded posted := by
  have first : (run step (State.start 1) twoTimeouts).any (fun counted => counted.waitingThreadsCount = 2 ∧
      counted.inside = 0 ∧ (run step counted [.putTask,.go 0,.go 0,.go 0,.go 0]).any
        (fun posted => posted.semaphore = 2 ∧ posted.workers.length = 1) = true) = true := by decide +kernel
  obtain ⟨counted,ran,test⟩ := (Option.any_eq_true _ _).mp first
  obtain ⟨count,inside,second⟩ := of_decide_eq_true test
  obtain ⟨posted,ran_,test⟩ := (Option.any_eq_true _ _).mp second
  obtain ⟨semaphore,workers⟩ := of_decide_eq_true test
  refine ⟨counted,posted,ran,count,inside,ran_,semaphore,workers,?_,?_⟩
  · intro bounded
    have low := bounded.1
    omega
  · intro bounded
    have low := bounded.2
    omega

def twoPosts : List Action :=
  [.miss 0,.backOff 0 false,.register 0,.miss 1,.backOff 1 false,.register 1,.putTask,.go 0,.go 0,.go 0,.go 0,.go 0,
    .wake 1,.take 1 0]

theorem bounded_twoPosts : ∃ final, run step (State.start 2) twoPosts = some final ∧ final.semaphore = 1 ∧
    Bounded final := by
  have evaluated : (run step (State.start 2) twoPosts).any (fun final => final.semaphore = 1) = true := by decide +kernel
  obtain ⟨final,ran,test⟩ := (Option.any_eq_true _ _).mp evaluated
  have meets : Meets step (fun _ => Posted) (State.start 2) twoPosts :=
    meets_of_checks (fun _ action => match action with | .timeout _ => false | _ => true)
      (fun _ action passed => by cases action <;> trivial) (by decide +kernel)
  exact ⟨final,ran,of_decide_eq_true test,bounded_of_posted 2 twoPosts final meets ran⟩

def Call.returning (waiting : Nat) : Call → Prop
  | .load false => waiting = 0
  | .exchange false => waiting = 0
  | .post more false => more = 0
  | .queue false => True
  | _ => False

/-- When a call returns, a worker is going to look for a task, or a post is on its way. -/
def Noticed (state : State) : Action → Prop
  | .go call => ∀ point, state.calls[call]? = some point → point.returning state.waitingThreadsCount →
      0 < state.looking ∨ 0 < state.pending
  | _ => True

def State.forgotten (state : State) : Prop := ∃ call ∈ state.queued, state.calls[call]? = some .returned

/-- Nobody will look for the task, and nobody is told to. -/
def Lost (state : State) : Prop := state.forgotten ∧ (∀ pc ∈ state.workers, pc = .blocked) ∧ state.pending = 0

def Heard (state : State) : Prop := state.forgotten → 0 < state.looking ∨ 0 < state.pending

theorem Heard.not_lost (heard : Heard state) : ¬Lost state := by
  intro ⟨forgotten,blocked,silent⟩
  have asleep : state.looking = 0 := by
    apply total_eq_zero.mpr
    intro pc inside
    rw [blocked pc inside]
    rfl
  obtain looking | pending := heard forgotten
  · omega
  · omega

theorem looking_of_looks (found : state.workers[worker]? = some old) (looks : pc.looks = 1) :
    0 < (state.setWorker worker pc).looking := by
  have looking : (state.setWorker worker pc).looking + old.looks = state.looking + pc.looks := total_set Pc.looks pc found
  have light : old.looks ≤ state.looking := weight_le_total Pc.looks found
  omega

theorem Heard.looks (moved : state.moveWorker worker old pc = some next) (looks : pc.looks = 1) : Heard next := by
  obtain ⟨found,rfl⟩ := moveWorker_some moved
  exact fun _ => .inl (looking_of_looks found looks)

theorem Heard.moveWorker (heard : Heard state) (moved : state.moveWorker worker old pc = some next)
    (looks : old.looks = 0) : Heard next := by
  obtain ⟨found,rfl⟩ := moveWorker_some moved
  have looking : (state.setWorker worker pc).looking + old.looks = state.looking + pc.looks := total_set Pc.looks pc found
  intro forgotten
  obtain looking | pending := heard forgotten
  · left
    omega
  · exact .inr pending

theorem Heard.begin (heard : Heard state) (call : Call) (begins : call ≠ .returned) :
    Heard {state with calls := state.calls ++ [call]} := by
  intro ⟨other,queued,found⟩
  have before : state.calls[other]? = some .returned := by
    obtain inside | outside := Nat.lt_or_ge other state.calls.length
    · exact (List.getElem?_append_left inside).symm.trans found
    · have new : [call][other - state.calls.length]? = some .returned := (List.getElem?_append_right outside).symm.trans found
      obtain ⟨_,same⟩ := List.getElem?_eq_some_iff.mp new
      rw [List.getElem_singleton] at same
      exact absurd same begins
  have posts : total Call.posts state.calls ≤ total Call.posts (state.calls ++ [call]) := by
    rw [total_append]
    exact Nat.le_add_right _ _
  obtain looking | pending := heard ⟨other,queued,before⟩
  · exact .inl looking
  · right
    unfold State.pending at pending ⊢
    dsimp only
    omega

/-- A step of a call that does not return queues no task of a call that has, and one that
does was about to. -/
theorem goCall_forgotten (found : state.calls[call]? = some point) (went : state.goCall call point = some next)
    (forgotten : next.forgotten) : state.forgotten ∨ point.returning state.waitingThreadsCount := by
  obtain ⟨other,queued,at_⟩ := forgotten
  by_cases same : other = call
  · subst same
    right
    have bound : other < state.calls.length := (List.getElem?_eq_some_iff.mp found).1
    cases point with
    | load queues =>
      obtain rfl := Option.some.inj went
      simp only [State.setCall,List.getElem?_set_self bound,Option.some.injEq] at at_
      split at at_
      next => cases at_
      next none_ =>
        cases queues
        · exact Nat.eq_zero_of_not_pos none_
        · cases at_
    | exchange queues =>
      obtain rfl := Option.some.inj went
      simp only [State.setCall,List.getElem?_set_self bound,Option.some.injEq] at at_
      cases count : state.waitingThreadsCount with
      | zero =>
        rw [count] at at_
        cases queues
        · rfl
        · cases at_
      | succ more =>
        rw [count] at at_
        cases at_
    | post more queues =>
      obtain rfl := Option.some.inj went
      simp only [State.setCall,List.getElem?_set_self bound,Option.some.injEq] at at_
      cases more with
      | zero =>
        cases queues
        · rfl
        · cases at_
      | succ more => cases at_
    | queue signals =>
      obtain rfl := Option.some.inj went
      simp only [State.setCall,List.getElem?_set_self bound,Option.some.injEq] at at_
      cases signals
      · trivial
      · cases at_
    | returned => cases went
  · left
    have kept : next.calls[other]? = state.calls[other]? ∧ (other ∈ next.queued → other ∈ state.queued) := by
      cases point with
      | load queues =>
        obtain rfl := Option.some.inj went
        exact ⟨List.getElem?_set_ne (Ne.symm same),id⟩
      | exchange queues =>
        obtain rfl := Option.some.inj went
        exact ⟨List.getElem?_set_ne (Ne.symm same),id⟩
      | post more queues =>
        obtain rfl := Option.some.inj went
        exact ⟨List.getElem?_set_ne (Ne.symm same),id⟩
      | queue signals =>
        obtain rfl := Option.some.inj went
        refine ⟨List.getElem?_set_ne (Ne.symm same),fun member => ?_⟩
        obtain before | last := List.mem_append.mp member
        · exact before
        · exact absurd (List.mem_singleton.mp last) same
      | returned => cases went
    exact ⟨other,kept.2 queued,kept.1 ▸ at_⟩

theorem Heard.step (heard : Heard state) {action : Action} (noticed : Noticed state action)
    (stepped : Sleep.step state action = some next) : Heard next := by
  cases action with
  | putTask =>
    obtain rfl := Option.some.inj stepped
    exact heard.begin _ nofun
  | spawnTask =>
    obtain rfl := Option.some.inj stepped
    exact heard.begin _ nofun
  | go call =>
    obtain ⟨point,found,went⟩ := Option.bind_eq_some_iff.mp stepped
    obtain ⟨workers,_,grown⟩ := goCall_pending found went
    have looking : next.looking = state.looking := by rw [State.looking,workers,State.looking]
    intro forgotten
    have before : 0 < state.looking ∨ 0 < state.pending := by
      obtain before | returning := goCall_forgotten found went forgotten
      · exact heard before
      · exact noticed point found returning
    omega
  | take worker task =>
    simp only [Sleep.step] at stepped
    split at stepped
    next => exact Heard.looks stepped rfl
    next => cases stepped
  | miss worker =>
    simp only [Sleep.step] at stepped
    split at stepped
    next empty =>
      obtain ⟨_,rfl⟩ := moveWorker_some stepped
      intro ⟨call,queued,_⟩
      have none_ : call ∈ state.queued := queued
      rw [empty] at none_
      cases none_
    next => cases stepped
  | backOff worker again => exact heard.moveWorker stepped rfl
  | register worker =>
    apply Heard.moveWorker _ stepped rfl
    exact heard
  | wake worker =>
    simp only [Sleep.step] at stepped
    split at stepped
    next => exact Heard.looks stepped rfl
    next => cases stepped
  | timeout worker =>
    simp only [Sleep.step] at stepped
    split at stepped
    next => exact Heard.looks stepped rfl
    next => cases stepped
  | finish worker => exact Heard.looks stepped rfl
  | steal task =>
    simp only [Sleep.step] at stepped
    split at stepped
    next =>
      obtain rfl := Option.some.inj stepped
      exact fun ⟨call,queued,returned⟩ => heard ⟨call,List.mem_of_mem_erase queued,returned⟩
    next => cases stepped

/-- Where every call returns while a worker is going to look or a post is on its way, no
task is left queued with all workers asleep. -/
theorem not_lost_of_noticed (workers : Nat) (actions : List Action) (final : State)
    (meets : Meets step Noticed (State.start workers) actions)
    (ran : run step (State.start workers) actions = some final) : ¬Lost final :=
  Heard.not_lost (invariant_of_meets Heard (fun _ _ _ heard noticed stepped => heard.step noticed stepped)
    (fun ⟨_,queued,_⟩ => by cases queued) meets ran)

/-- The worker looks before the task is queued, and is counted after the signal. -/
def lostWakeup : List Action := [.miss 0,.putTask,.go 0,.backOff 0 false,.register 0,.go 0]

instance (state : State) : Decidable (Lost state) := by
  unfold Lost State.forgotten
  infer_instance

theorem lostWakeup_lost : ∃ final, run step (State.start 1) lostWakeup = some final ∧ final.queued = [0] ∧
    final.calls = [.returned] ∧ final.workers = [.blocked] ∧ final.semaphore = 0 ∧ Lost final := by
  have evaluated : (run step (State.start 1) lostWakeup).any (fun final => final.queued = [0] ∧
      final.calls = [.returned] ∧ final.workers = [.blocked] ∧ final.semaphore = 0 ∧ Lost final) = true := by
    decide +kernel
  obtain ⟨final,ran,test⟩ := (Option.any_eq_true _ _).mp evaluated
  exact ⟨final,ran,of_decide_eq_true test⟩

instance (waiting : Nat) (call : Call) : Decidable (call.returning waiting) := by
  unfold Call.returning
  split <;> infer_instance

instance (state : State) (action : Action) : Decidable (Noticed state action) :=
  match action with
  | .go call => decidable_of_iff ((state.calls[call]?).all (fun point =>
      decide (point.returning state.waitingThreadsCount → 0 < state.looking ∨ 0 < state.pending)) = true)
      (by simp only [Noticed,Option.all_eq_true,decide_eq_true_eq])
  | .putTask | .spawnTask | .take .. | .miss _ | .backOff .. | .register _ | .wake _ | .timeout _ | .finish _
  | .steal _ => isTrue trivial

def heardWakeup : List Action := [.miss 0,.backOff 0 false,.register 0,.putTask,.go 0,.go 0,.go 0,.go 0]

theorem not_lost_heardWakeup : ∃ final, run step (State.start 1) heardWakeup = some final ∧ final.queued = [0] ∧
    final.workers = [.blocked] ∧ final.semaphore = 1 ∧ ¬Lost final := by
  have evaluated : (run step (State.start 1) heardWakeup).any (fun final => final.queued = [0] ∧
      final.workers = [.blocked] ∧ final.semaphore = 1) = true := by decide +kernel
  obtain ⟨final,ran,test⟩ := (Option.any_eq_true _ _).mp evaluated
  obtain ⟨queued,workers,semaphore⟩ := of_decide_eq_true test
  have meets : Meets step Noticed (State.start 1) heardWakeup :=
    meets_of_checks (fun state action => decide (Noticed state action)) (fun _ _ => of_decide_eq_true) (by decide +kernel)
  exact ⟨final,ran,queued,workers,semaphore,not_lost_of_noticed 1 heardWakeup final meets ran⟩

end Pgasus.Sleep
