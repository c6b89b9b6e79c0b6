import Mathlib.Data.List.Basic

/-! Shares by truncating division. Of `size` places cut into `parts` shares the share `i`
begins at `i * size / parts`; of `parts` items dealt to `size` slots the item `i` goes to
the slot of the same number. -/
namespace Pgasus.Shares

def bound (size parts i : Nat) : Nat := i * size / parts

variable {size parts i j place : Nat}

theorem bound_mono (before : i ≤ j) : bound size parts i ≤ bound size parts j :=
  Nat.div_le_div_right (Nat.mul_le_mul_right size before)

theorem bound_last (positive : 0 < parts) : bound size parts parts = size := Nat.mul_div_cancel_left size positive

theorem bound_zero : bound size parts 0 = 0 := by simp [bound]

theorem bound_lt_succ (positive : 0 < parts) (fewer : parts ≤ size) : bound size parts i < bound size parts (i + 1) := by
  have whole : bound size parts i + 1 ≤ (i * size + parts) / parts := by
    rw [Nat.add_div_right _ positive]
    exact Nat.le_refl _
  apply Nat.lt_of_succ_le (Nat.le_trans whole _)
  apply Nat.div_le_div_right
  rw [Nat.succ_mul]
  exact Nat.add_le_add_left fewer _

theorem exists_share (positive : 0 < parts) (inside : place < size) :
    ∃ i < parts, bound size parts i ≤ place ∧ place < bound size parts (i + 1) := by
  have reached (count : Nat) (past : place < bound size parts count) :
      ∃ i < count, bound size parts i ≤ place ∧ place < bound size parts (i + 1) := by
    induction count with
    | zero =>
      rw [bound_zero] at past
      cases past
    | succ count ih =>
      by_cases before : place < bound size parts count
      · obtain ⟨i,less,share⟩ := ih before
        exact ⟨i,Nat.lt_succ_of_lt less,share⟩
      · exact ⟨count,Nat.lt_succ_self count,Nat.le_of_not_lt before,past⟩
  apply reached
  rwa [bound_last positive]

def first (size parts slot : Nat) : Nat := (slot * parts + (size - 1)) / size

theorem first_le_iff (positive : 0 < size) {slot : Nat} : first size parts slot ≤ i ↔ slot * parts ≤ i * size := by
  rw [first,Nat.div_le_iff_le_mul_add_pred positive,Nat.mul_comm size]
  omega

theorem bound_eq_iff (some_ : 0 < size) (positive : 0 < parts) {slot : Nat} :
    bound size parts i = slot ↔ first size parts slot ≤ i ∧ i < first size parts (slot + 1) := by
  rw [← Nat.not_le,first_le_iff some_,first_le_iff some_,bound,Nat.div_eq_iff positive,Nat.succ_mul]
  omega

/-- A slot has the ratio of items, rounded down or up. -/
theorem first_succ (positive : 0 < size) (slot : Nat) :
    first size parts (slot + 1) = first size parts slot + parts / size ∨
      first size parts (slot + 1) = first size parts slot + (parts + (size - 1)) / size := by
  have split : first size parts (slot + 1) = first size parts slot + parts / size +
      if size ≤ (slot * parts + (size - 1)) % size + parts % size then 1 else 0 := by
    rw [first,first,← Nat.add_div positive,Nat.succ_mul]
    congr 1
    omega
  rw [split]
  split
  next carried =>
    right
    have rest := Nat.mod_lt (slot * parts + (size - 1)) positive
    have up : (parts + (size - 1)) / size = parts / size + 1 := by
      rw [Nat.add_div positive,Nat.div_eq_of_lt (by omega : size - 1 < size),Nat.mod_eq_of_lt (by omega : size - 1 < size),
        if_pos (by omega)]
    omega
  next => exact Or.inl rfl

theorem first_last (positive : 0 < size) : first size parts size = parts := by
  rw [first,Nat.mul_add_div positive,Nat.div_eq_of_lt (by omega)]
  rfl

theorem first_mono {slot other : Nat} (before : slot ≤ other) : first size parts slot ≤ first size parts other :=
  Nat.div_le_div_right (Nat.add_le_add_right (Nat.mul_le_mul_right parts before) _)

theorem countP_interval {low high total : Nat} (ordered : low ≤ high) (inside : high ≤ total) :
    (List.range total).countP (fun i => low ≤ i ∧ i < high) = high - low := by
  induction total generalizing high with
  | zero =>
    obtain rfl := Nat.le_zero.mp inside
    simp
  | succ total ih =>
    rw [List.range_succ,List.countP_append,List.countP_singleton]
    by_cases last : high ≤ total
    · rw [ih ordered last,if_neg (by simp; omega)]
      rfl
    · obtain rfl : high = total + 1 := by omega
      have shorter : (List.range total).countP (fun i => low ≤ i ∧ i < total + 1) =
          (List.range total).countP (fun i => low ≤ i ∧ i < total) := by
        apply List.countP_congr
        intro i member
        have less := List.mem_range.mp member
        simp only [decide_eq_true_eq]
        omega
      rw [shorter]
      obtain rfl | within := Nat.eq_or_lt_of_le ordered
      · rw [if_neg (by simp),List.countP_eq_zero.mpr]
        · omega
        · intro i member
          have less := List.mem_range.mp member
          simp only [decide_eq_true_eq]
          omega
      · rw [ih (Nat.le_of_lt_succ within) (Nat.le_refl total),if_pos (by simp; omega)]
        omega

theorem count_slot (positive : 0 < parts) {slot : Nat} (inside : slot < size) :
    (List.range parts).countP (fun i => bound size parts i = slot) = parts / size ∨
      (List.range parts).countP (fun i => bound size parts i = slot) = (parts + (size - 1)) / size := by
  have some_ : 0 < size := Nat.zero_lt_of_lt inside
  have upto : first size parts (slot + 1) ≤ parts := by
    have last := @first_mono size parts _ _ (Nat.succ_le_of_lt inside)
    rwa [first_last some_] at last
  have counted : (List.range parts).countP (fun i => bound size parts i = slot) =
      first size parts (slot + 1) - first size parts slot := by
    rw [← countP_interval (first_mono (Nat.le_succ slot)) upto]
    apply List.countP_congr
    intro i _
    simp only [decide_eq_true_eq]
    exact bound_eq_iff some_ positive
  rw [counted]
  rcases @first_succ size parts some_ slot with down | up
  · exact Or.inl (by rw [down,Nat.add_sub_cancel_left])
  · exact Or.inr (by rw [up,Nat.add_sub_cancel_left])

end Pgasus.Shares
