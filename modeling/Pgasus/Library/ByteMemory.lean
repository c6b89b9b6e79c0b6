import Mathlib.Data.Nat.Basic
import Mathlib.Algebra.Ring.Int.Defs
import Mathlib.Algebra.Ring.Nat

/-! Byte memory with little-endian 64-bit words. Addresses are natural numbers, so
a program that computes them in machine words wraps them itself. -/
namespace Pgasus

abbrev Memory := Nat → UInt8

namespace Memory

def loadBytes (memory : Memory) : Nat → Nat → Nat
  | _, 0 => 0
  | address, count + 1 => (memory address).toNat + 256 * loadBytes memory (address + 1) count

def load (memory : Memory) (address : Nat) : Nat := memory.loadBytes address 8

def store (memory : Memory) (address word : Nat) : Memory := fun place =>
  if address ≤ place ∧ place < address + 8 then UInt8.ofNat (word / 256 ^ (place - address)) else memory place

def fill (memory : Memory) (address : Nat) (byte : UInt8) (count : Nat) : Memory := fun place =>
  if address ≤ place ∧ place < address + count then byte else memory place

def move (memory : Memory) (target origin count : Nat) : Memory := fun place =>
  if target ≤ place ∧ place < target + count then memory (origin + (place - target)) else memory place

variable {memory other : Memory}

theorem loadBytes_congr {address count : Nat} (same : ∀ offset < count, memory (address + offset) = other (address + offset)) :
    memory.loadBytes address count = other.loadBytes address count := by
  induction count generalizing address with
  | zero => rfl
  | succ count ih =>
    have here : memory address = other address := same 0 (Nat.succ_pos count)
    have rest : memory.loadBytes (address + 1) count = other.loadBytes (address + 1) count := by
      apply ih
      intro offset small
      have later := same (offset + 1) (Nat.succ_lt_succ small)
      rwa [show address + (offset + 1) = address + 1 + offset by omega] at later
    simp only [loadBytes,here,rest]

theorem loadBytes_digits {address count word : Nat}
    (digits : ∀ offset < count, memory (address + offset) = UInt8.ofNat (word / 256 ^ offset)) :
    memory.loadBytes address count = word % 256 ^ count := by
  induction count generalizing address word with
  | zero => simp [loadBytes,Nat.mod_one]
  | succ count ih =>
    have here : memory address = UInt8.ofNat word := by simpa using digits 0 (Nat.succ_pos count)
    have rest : memory.loadBytes (address + 1) count = word / 256 % 256 ^ count := by
      apply ih
      intro offset small
      have later := digits (offset + 1) (Nat.succ_lt_succ small)
      rw [show address + (offset + 1) = address + 1 + offset by omega] at later
      rw [later,Nat.div_div_eq_div_mul,← Nat.pow_succ']
    rw [loadBytes,here,rest,Nat.pow_succ',Nat.mod_mul]
    simp

theorem load_congr {address : Nat} (same : ∀ place, address ≤ place → place < address + 8 → memory place = other place) :
    memory.load address = other.load address :=
  loadBytes_congr fun offset small => same (address + offset) (Nat.le_add_right _ _) (by omega)

theorem store_outside {address word place : Nat} (outside : place < address ∨ address + 8 ≤ place) :
    memory.store address word place = memory place := by
  unfold store
  rw [if_neg]
  omega

theorem fill_outside {address count place : Nat} {byte : UInt8} (outside : place < address ∨ address + count ≤ place) :
    memory.fill address byte count place = memory place := by
  unfold fill
  rw [if_neg]
  omega

theorem fill_inside {address count place : Nat} {byte : UInt8} (low : address ≤ place) (high : place < address + count) :
    memory.fill address byte count place = byte := if_pos ⟨low,high⟩

theorem load_store_self {address word : Nat} (fits : word < 2 ^ 64) : (memory.store address word).load address = word := by
  have digits := @loadBytes_digits (memory.store address word) address 8 word (by
    intro offset small
    unfold store
    rw [if_pos (by omega),Nat.add_sub_cancel_left])
  exact digits.trans (Nat.mod_eq_of_lt fits)

theorem load_store_other {address other word : Nat} (apart : other + 8 ≤ address ∨ address + 8 ≤ other) :
    (memory.store address word).load other = memory.load other :=
  load_congr fun _ _ _ => store_outside (by omega)

end Memory
end Pgasus
