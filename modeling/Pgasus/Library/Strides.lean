import Pgasus.Library.Words

/-! Loops whose counter is a word that goes up in equal steps. The fuel is the number of
tests; a loop that ends is one for which some fuel is enough. -/
namespace Pgasus.Strides
open Words

def stride (step : Nat) (test : Nat → Bool) : Nat → Nat → Option (List Nat)
  | 0, _ => none
  | fuel + 1, counter =>
    if test counter then (stride step test fuel (wrap (counter + step))).map (counter::·) else some []

/-- More tests than any loop that ends can make. -/
def loopFuel : Nat := 2 ^ 64 + 1

variable {step fuel counter rounds : Nat} {test : Nat → Bool} {values : List Nat}

theorem stride_ends (enough : rounds < fuel) (goes : ∀ round < rounds, test (counter + step * round) = true)
    (stops : test (counter + step * rounds) = false) (fits : counter + step * rounds < 2 ^ 64) :
    stride step test fuel counter = some (List.range' counter rounds step) := by
  induction rounds generalizing fuel counter with
  | zero =>
    obtain ⟨fuel,rfl⟩ := Nat.exists_eq_add_one_of_ne_zero (Nat.ne_zero_of_lt enough)
    have last : test counter = false := stops
    simp [stride,last]
  | succ rounds ih =>
    obtain ⟨fuel,rfl⟩ := Nat.exists_eq_add_one_of_ne_zero (Nat.ne_zero_of_lt enough)
    have next (round : Nat) : counter + step + step * round = counter + step * (round + 1) := by rw [Nat.mul_succ]; omega
    have first : test counter = true := goes 0 (Nat.succ_pos rounds)
    have small : counter + step < 2 ^ 64 := by
      have part := next rounds
      omega
    have rest := @ih fuel (counter + step) (Nat.lt_of_succ_lt_succ enough)
      (fun round inside => next round ▸ goes (round + 1) (Nat.succ_lt_succ inside)) (next rounds ▸ stops) (next rounds ▸ fits)
    simp [stride,first,wrap_of_lt small,rest,List.range'_succ]

theorem stride_endless (visited : Nat → Prop) (start : visited counter)
    (goes : ∀ counter, visited counter → test counter = true ∧ visited (wrap (counter + step))) :
    stride step test fuel counter = none := by
  induction fuel generalizing counter with
  | zero => rfl
  | succ fuel ih =>
    obtain ⟨first,next⟩ := goes counter start
    simp [stride,first,ih next]

theorem stride_first (ended : stride step test fuel counter = some values) (first : test counter = true) :
    ∃ rest, values = counter::rest := by
  cases fuel with
  | zero => cases ended
  | succ fuel =>
    simp only [stride,first,if_true] at ended
    obtain ⟨rest,_,same⟩ := Option.map_eq_some_iff.mp ended
    exact ⟨rest,same.symm⟩

end Pgasus.Strides
