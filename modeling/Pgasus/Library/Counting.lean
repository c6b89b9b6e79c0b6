import Mathlib.Tactic.Common

/-! An object with two counts packed into one word, destroyed by whoever finds from
the word's old value that the last count has gone. The word wraps at a modulus; the
upper count is in units of `unit`. -/
namespace Pgasus.Counting

/-- `opening` counts creations that have not taken their first reference yet, `due`
those who are about to destroy the object, and `ended` its destructions. -/
@[ext] structure Object where
  born : Bool
  opening : Nat
  upper : Nat
  lower : Nat
  word : Nat
  due : Nat
  ended : Nat

def Object.unborn (word : Nat) : Object := ⟨false,0,0,0,word,0,0⟩

def Object.Dead (object : Object) : Prop := object.born = true ∧ object.opening = 0 ∧ object.upper = 0 ∧ object.lower = 0

def Object.Alive (object : Object) : Prop := 0 < object.opening ∨ 0 < object.upper ∨ 0 < object.lower ∨ 0 < object.due

variable (unit modulus : Nat)

inductive Move (object : Object) : Object → Prop
  | stay : Move object object
  | create (unborn : object.born = false) : Move object {object with born := true,opening := object.opening + 1,word := 0}
  | first (opening : Nat) (was : object.opening = opening + 1) :
      Move object {object with opening := opening,upper := object.upper + 1,word := (object.word + unit) % modulus}
  | add (shared : 0 < object.upper) :
      Move object {object with upper := object.upper + 1,word := (object.word + unit) % modulus}
  | remove (upper : Nat) (was : object.upper = upper + 1) :
      Move object {object with
        upper := upper
        word := (object.word + (modulus - unit)) % modulus
        due := object.due + if object.word = unit then 1 else 0}
  | addLower (shared : 0 < object.upper) :
      Move object {object with lower := object.lower + 1,word := (object.word + 1) % modulus}
  | removeLower (lower : Nat) (was : object.lower = lower + 1) :
      Move object {object with
        lower := lower
        word := (object.word + (modulus - 1)) % modulus
        due := object.due + if object.word = 1 then 1 else 0}
  | destroy (due : Nat) (was : object.due = due + 1) :
      Move object {object with due := due,ended := object.ended + 1}

def Object.Fits (object : Object) : Prop := object.lower < unit ∧ object.upper * unit + object.lower < modulus

structure Object.Sound (object : Object) : Prop where
  unborn : object.born = false → object.opening = 0 ∧ object.upper = 0 ∧ object.lower = 0
  opening : 0 < object.opening → object.opening = 1 ∧ object.upper = 0 ∧ object.lower = 0
  word : object.born = true → object.word = (object.upper * unit + object.lower) % modulus
  once : object.Dead → object.due + object.ended = 1
  never : ¬object.Dead → object.due + object.ended = 0

variable {unit modulus} {object next : Object}

def Object.frame (object : Object) (opening upper lower due : Nat) : Object :=
  {object with
    opening := object.opening + opening
    upper := object.upper + upper
    lower := object.lower + lower
    due := object.due + due}

theorem Move.frame (move : Move unit modulus object next) (opening upper lower due : Nat) :
    Move unit modulus (object.frame opening upper lower due) (next.frame opening upper lower due) := by
  cases move with
  | stay => exact .stay
  | create unborn =>
    convert @Move.create unit modulus (object.frame opening upper lower due) unborn using 1
    simp [Object.frame,Nat.add_right_comm]
  | first opens was =>
    convert @Move.first unit modulus (object.frame opening upper lower due) (opens + opening) (by
      simp only [Object.frame,was]
      omega) using 1
    simp [Object.frame,Nat.add_right_comm]
  | add shared =>
    convert @Move.add unit modulus (object.frame opening upper lower due) (Nat.add_pos_left shared upper) using 1
    simp [Object.frame,Nat.add_right_comm]
  | remove fewer was =>
    convert @Move.remove unit modulus (object.frame opening upper lower due) (fewer + upper) (by
      simp only [Object.frame,was]
      omega) using 1
    simp only [Object.frame,Nat.add_right_comm]
    rfl
  | addLower shared =>
    convert @Move.addLower unit modulus (object.frame opening upper lower due) (Nat.add_pos_left shared upper) using 1
    simp [Object.frame,Nat.add_right_comm]
  | removeLower fewer was =>
    convert @Move.removeLower unit modulus (object.frame opening upper lower due) (fewer + lower) (by
      simp only [Object.frame,was]
      omega) using 1
    simp only [Object.frame,Nat.add_right_comm]
    rfl
  | destroy fewer was =>
    exact @Move.destroy unit modulus (object.frame opening upper lower due) (fewer + due) (by
      simp only [Object.frame,was]
      omega)

theorem Object.Alive.frame (alive : object.Alive) (opening upper lower due : Nat) :
    (object.frame opening upper lower due).Alive := by
  simp only [Object.Alive,Object.frame] at alive ⊢
  omega

theorem sound_unborn (word : Nat) : (Object.unborn word).Sound unit modulus := by
  constructor <;> simp [Object.unborn,Object.Dead]

theorem Object.Sound.alive (sound : object.Sound unit modulus) (alive : object.Alive) : object.ended = 0 := by
  by_cases dead : object.Dead
  · have one := sound.once dead
    obtain ⟨_,opening,upper,lower⟩ := dead
    unfold Object.Alive at alive
    omega
  · have none_ := sound.never dead
    omega

/-- The old word equals one unit just when the last upper count goes. -/
theorem Object.Sound.word_eq_unit (sound : object.Sound unit modulus) (fits : object.Fits unit modulus)
    (born : object.born = true) (some_ : 0 < object.upper) (positive : 0 < unit) :
    object.word = unit ↔ object.upper = 1 ∧ object.lower = 0 := by
  obtain ⟨low,room⟩ := fits
  rw [sound.word born,Nat.mod_eq_of_lt room]
  constructor
  · intro same
    have one : object.upper = 1 := by
      by_contra more
      have two : 2 * unit ≤ object.upper * unit := Nat.mul_le_mul_right unit (by omega)
      omega
    rw [one] at same
    exact ⟨one,by omega⟩
  · intro ⟨one,none_⟩
    rw [one,none_]
    omega

theorem Object.Sound.word_eq_one (sound : object.Sound unit modulus) (fits : object.Fits unit modulus)
    (born : object.born = true) (some_ : 0 < object.lower) :
    object.word = 1 ↔ object.upper = 0 ∧ object.lower = 1 := by
  obtain ⟨low,room⟩ := fits
  rw [sound.word born,Nat.mod_eq_of_lt room]
  constructor
  · intro same
    have none_ : object.upper = 0 := by
      by_contra more
      have one : 1 * unit ≤ object.upper * unit := Nat.mul_le_mul_right unit (by omega)
      omega
    rw [none_] at same
    exact ⟨none_,by omega⟩
  · intro ⟨none_,one⟩
    rw [none_,one]
    omega

theorem mod_sub {value amount : Nat} (small : amount ≤ modulus) :
    ((value + amount) % modulus + (modulus - amount)) % modulus = value % modulus := by
  rw [Nat.mod_add_mod,Nat.add_assoc,Nat.add_sub_cancel' small,Nat.add_mod_right]

theorem Move.sound (move : Move unit modulus object next) (sound : object.Sound unit modulus)
    (fits : object.Fits unit modulus) (large : 1 < unit) (small : unit ≤ modulus) : next.Sound unit modulus := by
  have born : 0 < object.opening + object.upper + object.lower → object.born = true := by
    intro some_
    by_contra unborn
    have none_ := sound.unborn (by simpa using unborn)
    omega
  obtain ⟨unborn,opening,word,once,never⟩ := id sound
  cases move with
  | stay => exact sound
  | create fresh =>
    obtain ⟨noOpening,noUpper,noLower⟩ := unborn fresh
    have none_ := never (by simp [Object.Dead,fresh])
    constructor <;> simp_all [Object.Dead]
  | first opens was =>
    obtain ⟨one,noUpper,noLower⟩ := opening (by omega)
    have none_ := never (by simp [Object.Dead,one])
    have isBorn := born (by omega)
    have zero : object.word = 0 := by simp [word isBorn,noUpper,noLower]
    constructor <;> simp_all [Object.Dead]
  | add shared =>
    have isBorn := born (by omega)
    have none_ := never (by simp [Object.Dead,Nat.pos_iff_ne_zero.mp shared])
    have closed : object.opening = 0 := by
      by_contra opens
      have alone := opening (Nat.pos_of_ne_zero opens)
      omega
    constructor
    · simp [isBorn]
    · simp [closed]
    · intro _
      rw [Nat.succ_mul,Nat.add_right_comm]
      simp only [word isBorn,Nat.mod_add_mod]
    · simp [Object.Dead]
    · exact fun _ => none_
  | remove upper was =>
    have isBorn := born (by omega)
    have none_ := never (by simp [Object.Dead,was])
    have last := sound.word_eq_unit fits isBorn (by omega) (by omega)
    have closed : object.opening = 0 := by
      by_contra opens
      have alone := opening (Nat.pos_of_ne_zero opens)
      omega
    constructor
    · simp [isBorn]
    · simp [closed]
    · intro _
      rw [word isBorn,was,Nat.succ_mul,Nat.add_right_comm]
      exact mod_sub small
    · intro ⟨_,_,noUpper,noLower⟩
      have zero : upper = 0 := noUpper
      have isLast := last.mpr ⟨by omega,noLower⟩
      simp only [isLast,if_true]
      omega
    · intro left
      have isNotLast : object.word ≠ unit := by
        intro same
        obtain ⟨one,noLower⟩ := last.mp same
        have zero : upper = 0 := by omega
        exact left ⟨isBorn,closed,zero,noLower⟩
      simp only [isNotLast,if_false]
      omega
  | addLower shared =>
    have isBorn := born (by omega)
    have none_ := never (by simp [Object.Dead,Nat.pos_iff_ne_zero.mp shared])
    have closed : object.opening = 0 := by
      by_contra opens
      have alone := opening (Nat.pos_of_ne_zero opens)
      omega
    constructor
    · simp [isBorn]
    · simp [closed]
    · intro _
      simp only [word isBorn,Nat.mod_add_mod,Nat.add_assoc]
    · simp [Object.Dead]
    · exact fun _ => none_
  | removeLower lower was =>
    have isBorn := born (by omega)
    have none_ := never (by simp [Object.Dead,was])
    have last := sound.word_eq_one fits isBorn (by omega)
    have closed : object.opening = 0 := by
      by_contra opens
      have alone := opening (Nat.pos_of_ne_zero opens)
      omega
    constructor
    · simp [isBorn]
    · simp [closed]
    · intro _
      rw [word isBorn,was,← Nat.add_assoc]
      exact mod_sub (by omega)
    · intro ⟨_,_,noUpper,noLower⟩
      have zero : lower = 0 := noLower
      have isLast := last.mpr ⟨noUpper,by omega⟩
      simp only [isLast,if_true]
      omega
    · intro left
      have isNotLast : object.word ≠ 1 := by
        intro same
        obtain ⟨noUpper,one⟩ := last.mp same
        have zero : lower = 0 := by omega
        exact left ⟨isBorn,closed,noUpper,zero⟩
      simp only [isNotLast,if_false]
      omega
  | destroy due was =>
    constructor
    · exact unborn
    · exact opening
    · exact word
    · intro dead
      have one := once dead
      simp only
      omega
    · intro left
      have none_ := never left
      omega

/-- Destruction becomes due in the step that takes the last count, and in no other. -/
theorem Move.due_iff (move : Move unit modulus object next) (sound : object.Sound unit modulus)
    (fits : object.Fits unit modulus) (large : 1 < unit) (small : unit ≤ modulus) :
    next.due = object.due + 1 ↔ ¬object.Dead ∧ next.Dead := by
  have after := move.sound sound fits large small
  constructor
  · intro more
    have grown : object.ended ≤ next.ended := by cases move <;> simp
    have dead : next.Dead := by
      by_contra left
      have none_ := after.never left
      omega
    have one := after.once dead
    refine ⟨fun already => ?_,dead⟩
    have before := sound.once already
    omega
  · intro ⟨left,dead⟩
    have none_ := sound.never left
    have one := after.once dead
    have same : next.ended = object.ended := by
      cases move with
      | destroy due was => omega
      | _ => rfl
    omega

end Pgasus.Counting
