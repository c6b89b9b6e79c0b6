import Mathlib.Logic.Function.Basic
import Mathlib.Data.List.Basic

/-! Threads that hold locks. Which locks a thread holds is a function of its
program counter, so a move to the next point takes the locks held there and
releases the others; it has to wait while another thread holds one of them. -/
namespace Pgasus

structure Threads (Thread Pc Lock : Type) where
  pc : Thread → Pc
  holder : Lock → Option Thread

namespace Threads
variable {Thread Pc Lock : Type} [DecidableEq Thread] [DecidableEq Lock] (locks : Pc → List Lock)

def free (threads : Threads Thread Pc Lock) (lock : Lock) : Bool := threads.holder lock = none

def available (threads : Threads Thread Pc Lock) (thread : Thread) (next : Pc) : Bool :=
  (locks next).all (fun lock => threads.holder lock = none ∨ threads.holder lock = some thread)

def move (threads : Threads Thread Pc Lock) (thread : Thread) (next : Pc) : Threads Thread Pc Lock where
  pc := Function.update threads.pc thread next
  holder lock := if lock ∈ locks next then some thread
    else if threads.holder lock = some thread then none else threads.holder lock

def enter (threads : Threads Thread Pc Lock) (thread : Thread) (next : Pc) : Option (Threads Thread Pc Lock) :=
  if threads.available locks thread next then some (threads.move locks thread next) else none

def Exact (threads : Threads Thread Pc Lock) : Prop :=
  ∀ lock thread, threads.holder lock = some thread ↔ lock ∈ locks (threads.pc thread)

variable {locks} {threads moved : Threads Thread Pc Lock} {thread : Thread} {next : Pc}

theorem enter_some (entered : threads.enter locks thread next = some moved) :
    moved = threads.move locks thread next ∧ threads.available locks thread next = true := by
  unfold enter at entered
  split at entered
  next available => exact ⟨(Option.some.inj entered).symm,available⟩
  next => cases entered

theorem move_pc (other : Thread) :
    (threads.move locks thread next).pc other = if other = thread then next else threads.pc other := by
  simp [move,Function.update_apply]

omit [DecidableEq Thread] [DecidableEq Lock] in
theorem Exact.unique (exact_ : threads.Exact locks) {lock : Lock} {first second : Thread}
    (held : lock ∈ locks (threads.pc first)) (also : lock ∈ locks (threads.pc second)) : first = second :=
  Option.some.inj (((exact_ lock first).mpr held).symm.trans ((exact_ lock second).mpr also))

omit [DecidableEq Thread] [DecidableEq Lock] in
theorem Exact.not_held (exact_ : threads.Exact locks) {lock : Lock} (free : threads.free lock = true)
    (other : Thread) : lock ∉ locks (threads.pc other) := by
  intro held
  have taken := (exact_ lock other).mpr held
  simp [Threads.free,taken] at free

omit [DecidableEq Lock] in
theorem Exact.not_held_by_other (exact_ : threads.Exact locks) (available : threads.available locks thread next = true)
    {lock : Lock} (needed : lock ∈ locks next) {other : Thread} (different : other ≠ thread) :
    lock ∉ locks (threads.pc other) := by
  intro held
  have taken := (exact_ lock other).mpr held
  have allowed := List.all_eq_true.mp available lock needed
  simp [taken,different] at allowed

theorem Exact.move (exact_ : threads.Exact locks) (available : threads.available locks thread next = true) :
    (threads.move locks thread next).Exact locks := by
  intro lock other
  rw [move_pc]
  simp only [Threads.move]
  by_cases same : other = thread
  · subst same
    by_cases needed : lock ∈ locks next
    · simp [needed]
    · by_cases held : threads.holder lock = some other <;> simp [needed,held]
  · by_cases needed : lock ∈ locks next
    · have gone := exact_.not_held_by_other available needed same
      simp [needed,same,gone,Ne.symm same]
    · by_cases held : threads.holder lock = some thread
      · have gone : lock ∉ locks (threads.pc other) := fun also =>
          same (Option.some.inj (((exact_ lock other).mpr also).symm.trans held))
        simp [needed,same,held,gone]
      · simp [needed,same,held,exact_ lock other]

end Threads
end Pgasus
