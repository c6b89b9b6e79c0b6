import Pgasus.Library.Words

/-! The time at which a waiting worker gives up, as `waitForTask` computes it. -/
namespace Pgasus.Deadline
open Words

/-- What a word becomes as a `long`. -/
def toLong (word : Nat) : Int := if word < 2 ^ 63 then word else word - 2 ^ 64

theorem toLong_of_lt {word : Nat} (small : word < 2 ^ 63) : toLong word = word := if_pos small

theorem toLong_ofInt {value : Int} (low : -2 ^ 63 ≤ value) (high : value ≤ 2 ^ 63) :
    toLong (ofInt value) = if value = 2 ^ 63 then -2 ^ 63 else value := by
  rw [toLong,ofInt]
  omega

/-- What `gettimeofday` stores. -/
structure Timeval where
  tvSec : Int
  tvUsec : Int
  sec : -2 ^ 63 ≤ tvSec ∧ tvSec < 2 ^ 63
  usec : 0 ≤ tvUsec ∧ tvUsec < 1000000

structure Timespec where
  tvSec : Int
  tvNsec : Int
deriving DecidableEq

/-- The deadline of `waitForTask`; `usec` is a word, and so are the sum and the product. -/
def waitTime (currTime : Timeval) (usec : Nat) : Timespec :=
  let tvNsec := toLong (wrap (1000 * wrap (ofInt currTime.tvUsec + usec)))
  if 1000000000 < tvNsec then ⟨toLong (ofInt (currTime.tvSec + 1)),tvNsec - 1000000000⟩ else ⟨currTime.tvSec,tvNsec⟩

/-- `sem_timedwait` answers `EINVAL`, instead of waiting, when the nanoseconds are a second or more. -/
def Timespec.normalized (deadline : Timespec) : Bool := 0 ≤ deadline.tvNsec ∧ deadline.tvNsec < 1000000000

/-- The deadline is a valid one, so many microseconds after the current time. -/
structure Exact (currTime : Timeval) (usec : Nat) (deadline : Timespec) : Prop where
  normalized : deadline.normalized = true
  denotes : deadline.tvSec * 1000000000 + deadline.tvNsec = (currTime.tvSec * 1000000 + currTime.tvUsec + usec) * 1000

section WaitTime
variable {currTime : Timeval} {usec : Nat}

theorem tvNsec_eq (short : usec ≤ 1000000) :
    toLong (wrap (1000 * wrap (ofInt currTime.tvUsec + usec))) = 1000 * (currTime.tvUsec + usec) := by
  obtain ⟨low,high⟩ := currTime.usec
  obtain ⟨sum,same⟩ := Int.eq_ofNat_of_zero_le (show 0 ≤ currTime.tvUsec + usec by omega)
  have small : sum < 2 ^ 21 := by omega
  have word : ofInt currTime.tvUsec + usec = sum := by
    rw [ofInt,Int.emod_eq_of_lt low (by omega)]
    omega
  have inner : wrap sum = sum := wrap_of_lt (by omega)
  have outer : wrap (1000 * sum) = 1000 * sum := wrap_of_lt (by omega)
  rw [word,inner,outer,same,toLong_of_lt (by omega)]
  push_cast
  rfl

theorem waitTime_eq (short : usec ≤ 1000000) : waitTime currTime usec =
    if 1000000 < currTime.tvUsec + usec then ⟨toLong (ofInt (currTime.tvSec + 1)),1000 * (currTime.tvUsec + usec) - 1000000000⟩
    else ⟨currTime.tvSec,1000 * (currTime.tvUsec + usec)⟩ := by
  have carries : 1000000000 < 1000 * (currTime.tvUsec + usec) ↔ 1000000 < currTime.tvUsec + usec := by omega
  simp only [waitTime,tvNsec_eq short,carries]

theorem normalized_iff (short : usec ≤ 1000000) :
    (waitTime currTime usec).normalized = true ↔ currTime.tvUsec + usec ≠ 1000000 := by
  obtain ⟨low,high⟩ := currTime.usec
  rw [waitTime_eq short,Timespec.normalized,decide_eq_true_eq]
  split <;> dsimp only <;> omega

/-- A worker that finds no task waits for 10 milliseconds, except in one microsecond of each second. -/
theorem getNewTask_waits_iff : (waitTime currTime (10 * 1000)).normalized = true ↔ currTime.tvUsec ≠ 990000 := by
  rw [normalized_iff (by decide)]
  omega

end WaitTime

/-- The deadline is right unless the sum is a second, for which no carry is made, or the
seconds are the last ones that there are. -/
theorem deadline_exact_iff (currTime : Timeval) (usec : Nat) (short : usec ≤ 1000000) :
    Exact currTime usec (waitTime currTime usec) ↔
      currTime.tvUsec + usec ≠ 1000000 ∧ ¬(1000000 < currTime.tvUsec + usec ∧ currTime.tvSec = 2 ^ 63 - 1) := by
  have split_ : Exact currTime usec (waitTime currTime usec) ↔ (waitTime currTime usec).normalized = true ∧
      (waitTime currTime usec).tvSec * 1000000000 + (waitTime currTime usec).tvNsec =
        (currTime.tvSec * 1000000 + currTime.tvUsec + usec) * 1000 :=
    ⟨fun exact_ => ⟨exact_.normalized,exact_.denotes⟩,fun both => ⟨both.1,both.2⟩⟩
  rw [split_,normalized_iff short,waitTime_eq short]
  refine and_congr_right fun _ => ?_
  obtain ⟨low,high⟩ := currTime.sec
  split
  next carries =>
    rw [toLong_ofInt (by omega) (by omega)]
    by_cases last : currTime.tvSec = 2 ^ 63 - 1
    · rw [if_pos (by omega)]
      simp only [last,carries,true_and,not_true_eq_false,iff_false]
      omega
    · rw [if_neg (by omega)]
      simp only [last,and_false,not_false_eq_true,iff_true]
      omega
  next carries =>
    simp only [carries,false_and,not_false_eq_true,iff_true]
    omega

def sampleTime (tvUsec : Int) (inside : 0 ≤ tvUsec ∧ tvUsec < 1000000) : Timeval := ⟨1700000000,tvUsec,by decide,inside⟩

/-- 990 milliseconds, and the 10 that a worker waits. -/
theorem second_rejected : ¬Exact (sampleTime 990000 (by decide)) 10000 (waitTime (sampleTime 990000 (by decide)) 10000) := by
  intro exact_
  exact getNewTask_waits_iff.mp exact_.normalized rfl

theorem deadline_exact_iff_carried : waitTime (sampleTime 995000 (by decide)) 10000 = ⟨1700000001,5000000⟩ ∧
    Exact (sampleTime 995000 (by decide)) 10000 (waitTime (sampleTime 995000 (by decide)) 10000) :=
  ⟨by decide +kernel,(deadline_exact_iff (sampleTime 995000 (by decide)) 10000 (by decide)).mpr (by decide)⟩

end Pgasus.Deadline
