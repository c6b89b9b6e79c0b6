import Mathlib.Data.List.Infix

/-! The requests that one thread makes for locks, in order. A lock that is requested
while the thread holds it is never granted. -/
namespace Pgasus.LockTraces

inductive Event (Lock : Type)
  | lock (lock : Lock)
  | unlock (lock : Lock)
deriving DecidableEq

variable {Lock : Type} [DecidableEq Lock]

def after (held : List Lock) : List (Event Lock) → List Lock
  | [] => held
  | .lock lock::rest => after (lock::held) rest
  | .unlock lock::rest => after (held.erase lock) rest

def Safe (held : List Lock) : List (Event Lock) → Prop
  | [] => True
  | .lock lock::rest => lock ∉ held ∧ Safe (lock::held) rest
  | .unlock lock::rest => Safe (held.erase lock) rest

instance decidableSafe : (held : List Lock) → (events : List (Event Lock)) → Decidable (Safe held events)
  | _, [] => isTrue trivial
  | held, .lock lock::rest => @instDecidableAnd _ _ _ (decidableSafe (lock::held) rest)
  | held, .unlock lock::rest => decidableSafe (held.erase lock) rest

variable {held : List Lock} {first second events : List (Event Lock)} {own : Lock → Prop} {lock : Lock}

theorem after_append : after held (first ++ second) = after (after held first) second := by
  induction first generalizing held with
  | nil => rfl
  | cons event rest ih => cases event <;> exact ih

theorem safe_append : Safe held (first ++ second) ↔ Safe held first ∧ Safe (after held first) second := by
  induction first generalizing held with
  | nil => simp [Safe,after]
  | cons event rest ih =>
    cases event with
    | lock lock => simp only [List.cons_append,Safe,after,ih,and_assoc]
    | unlock lock => exact ih

theorem Safe.before (safe : Safe held second) (part : first <+: second) : Safe held first := by
  obtain ⟨rest,rfl⟩ := part
  exact (safe_append.mp safe).1

/-- For a thread that holds locks of `own` only, the events take no lock that is held and
give back what they take. -/
def Neutral (own : Lock → Prop) (events : List (Event Lock)) : Prop :=
  ∀ held, (∀ lock ∈ held, own lock) → Safe held events ∧ after held events = held

theorem Neutral.nil : Neutral own [] := fun _ _ => ⟨trivial,rfl⟩

theorem Neutral.append (one : Neutral own first) (two : Neutral own second) : Neutral own (first ++ second) := by
  intro held owned
  obtain ⟨safe,kept⟩ := one held owned
  rw [safe_append,after_append,kept]
  exact ⟨⟨safe,(two held owned).1⟩,(two held owned).2⟩

theorem Neutral.around (other : ¬own lock) (inner : Neutral (fun held => own held ∨ held = lock) events) :
    Neutral own (.lock lock::(events ++ [Event.unlock lock])) := by
  intro held owned
  have owned' : ∀ inside ∈ lock::held, own inside ∨ inside = lock := by
    intro inside member
    rcases List.mem_cons.mp member with rfl | before
    · exact .inr rfl
    · exact .inl (owned inside before)
  obtain ⟨safe,kept⟩ := inner (lock::held) owned'
  have absent : lock ∉ held := fun member => other (owned lock member)
  constructor
  · exact ⟨absent,safe_append.mpr ⟨safe,trivial⟩⟩
  · change after (lock::held) (events ++ [Event.unlock lock]) = held
    rw [after_append,kept]
    exact List.erase_cons_head lock held

def Proper (held : List Lock) : List (Event Lock) → Prop
  | [] => True
  | .lock lock::rest => lock ∉ held ∧ Proper (lock::held) rest
  | .unlock lock::rest => lock ∈ held ∧ Proper (held.erase lock) rest

theorem proper_append : Proper held (first ++ second) ↔ Proper held first ∧ Proper (after held first) second := by
  induction first generalizing held with
  | nil => simp [Proper,after]
  | cons event rest ih => cases event <;> simp only [List.cons_append,Proper,after,ih,and_assoc]

theorem Proper.nodup (proper : Proper held events) (distinct : held.Nodup) : (after held events).Nodup := by
  induction events generalizing held with
  | nil => exact distinct
  | cons event rest ih =>
    cases event with
    | lock lock => exact ih proper.2 (List.nodup_cons.mpr ⟨proper.1,distinct⟩)
    | unlock lock => exact ih proper.2 (distinct.erase lock)

/-- What is not held in the end has been released as often as it was taken. -/
theorem Proper.count (proper : Proper held events) (lock : Lock) :
    held.count lock + events.count (.lock lock) = (after held events).count lock + events.count (.unlock lock) := by
  induction events generalizing held with
  | nil => rfl
  | cons event rest ih =>
    cases event with
    | lock other =>
      have later := ih proper.2
      by_cases same : other = lock
      · subst same
        simp only [List.count_cons_self,after] at later ⊢
        rw [List.count_cons_of_ne (by simp)]
        omega
      · rw [List.count_cons_of_ne same] at later
        rw [List.count_cons_of_ne (by simpa using same),List.count_cons_of_ne (by simp)]
        exact later
    | unlock other =>
      have later := ih proper.2
      by_cases same : other = lock
      · subst same
        have present := List.count_pos_iff.mpr proper.1
        rw [List.count_erase_self] at later
        rw [List.count_cons_self,List.count_cons_of_ne (by simp)]
        simp only [after]
        omega
      · rw [List.count_erase_of_ne (Ne.symm same)] at later
        rw [List.count_cons_of_ne (by simp),List.count_cons_of_ne (by simpa using same)]
        exact later

def spin (lock : Lock) : List (Event Lock) := [.lock lock,.unlock lock]

theorem Neutral.spin (other : ¬own lock) : Neutral own (spin lock) := Neutral.around other Neutral.nil

end Pgasus.LockTraces
