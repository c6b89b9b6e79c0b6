import Mathlib.Data.Nat.Bitwise

/-! 64-bit words as natural numbers: what the machine keeps of a sum or a product,
and the masks that align to a power of two. -/
namespace Pgasus.Words

def wrap (value : Nat) : Nat := value % 2 ^ 64

def ofInt (value : Int) : Nat := (value % 2 ^ 64).toNat

/-- What a word becomes as an `int` of 32 bits. -/
def toInt (word : Nat) : Int := Int.bmod word (2 ^ 32)

def complement (word : Nat) : Nat := 2 ^ 64 - 1 - word

theorem wrap_lt (value : Nat) : wrap value < 2 ^ 64 := Nat.mod_lt _ (by decide)

theorem wrap_of_lt {value : Nat} (fits : value < 2 ^ 64) : wrap value = value := Nat.mod_eq_of_lt fits

/-- Clearing the low bits of a word rounds it down. -/
theorem land_complement {word exponent : Nat} (fits : word < 2 ^ 64) (small : exponent ≤ 64) :
    word &&& complement (2 ^ exponent - 1) = word / 2 ^ exponent * 2 ^ exponent := by
  have mask : 2 ^ exponent - 1 < 2 ^ 64 := by
    have bound := Nat.pow_le_pow_right Nat.two_pos small
    have positive := Nat.two_pow_pos exponent
    omega
  apply Nat.eq_of_testBit_eq
  intro bit
  have cleared : (complement (2 ^ exponent - 1)).testBit bit = (decide (bit < 64) && !decide (bit < exponent)) := by
    rw [complement,Nat.sub_sub,Nat.add_comm 1,Nat.testBit_two_pow_sub_succ mask,Nat.testBit_two_pow_sub_one]
  rw [Nat.testBit_and,cleared,Nat.testBit_mul_two_pow]
  by_cases low : bit < exponent
  · have above : ¬exponent ≤ bit := by omega
    simp [low,above]
  · have above : exponent ≤ bit := by omega
    rw [Nat.testBit_div_two_pow,Nat.sub_add_cancel above]
    by_cases inside : bit < 64
    · simp [low,above,inside]
    · have gone : word.testBit bit = false := by
        apply Nat.testBit_lt_two_pow
        have grown : 2 ^ 64 ≤ 2 ^ bit := Nat.pow_le_pow_right Nat.two_pos (by omega)
        omega
      simp [gone]

theorem land_mask (word exponent : Nat) : word &&& (2 ^ exponent - 1) = word % 2 ^ exponent :=
  Nat.and_two_pow_sub_one_eq_mod word exponent

end Pgasus.Words
