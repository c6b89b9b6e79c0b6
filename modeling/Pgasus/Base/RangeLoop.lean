import Pgasus.Base.NodeRequest

/-! The loop over the integers of a range, one iteration after another, on an `int` that
wraps around. -/
namespace Pgasus.NodeRequest

def intMin : Int := -2 ^ 31

def increment (i : Int) : Int := Int.bmod (i + 1) (2 ^ 32)

/-- The iterations from `i` on, as many as there is fuel for. -/
def rangeLoop (b : Int) : Nat → Int → List Int → Option (List Int)
  | 0, _, _ => none
  | fuel+1, i, ret => if i ≤ b then rangeLoop b fuel (increment i) (ret ++ [i]) else some ret

variable (conversion : Conversion)

def parseIterations (fuel : Nat) : List (List Char) → List Int → Option (List Int)
  | [], ret => some (ret.insertionSort (· ≤ ·))
  | part::parts, ret =>
    match bounds conversion part with
    | none => some []
    | some (a,b) => (rangeLoop b fuel a ret).bind (parseIterations fuel parts)

/-- The bounds that are parsed: a malformed part is the last one that is looked at. -/
def parsedPairs : List (List Char) → List (Int × Int)
  | [] => []
  | part::parts =>
    match bounds conversion part with
    | none => []
    | some range => range::parsedPairs parts

structure Iterates (a b : Int) (count : Nat) : Prop where
  goes : ∀ index < count, increment^[index] a ≤ b
  stops : b < increment^[count] a

structure Terminates (s : List Char) : Prop where
  returns : ∃ fuel elements, parseIterations conversion fuel (split ',' s) [] = some elements
  iterations : ∀ range ∈ parsedPairs conversion (split ',' s), Iterates range.1 range.2 (max 0 (range.2 - range.1 + 1)).toNat

section Increment
variable {i a b : Int} {count fuel : Nat} {ret : List Int}

theorem increment_bounds (i : Int) : intMin ≤ increment i ∧ increment i ≤ intMax := by
  simp only [increment,intMin,intMax,Int.bmod]
  omega

theorem increment_below (low : intMin ≤ i) (high : i < intMax) : increment i = i + 1 := by
  simp only [increment,intMin,intMax,Int.bmod] at low high ⊢
  omega

theorem iterate_bounds (low : intMin ≤ a) (high : a ≤ intMax) (count : Nat) :
    intMin ≤ increment^[count] a ∧ increment^[count] a ≤ intMax := by
  cases count with
  | zero => exact ⟨low,high⟩
  | succ count =>
    rw [Function.iterate_succ_apply']
    exact increment_bounds _

theorem iterate_below (low : intMin ≤ a) (inside : a + count ≤ intMax) : increment^[count] a = a + count := by
  induction count with
  | zero => simp
  | succ count ih =>
    rw [Function.iterate_succ_apply',ih (by omega),increment_below (by omega) (by omega)]
    omega

theorem iterates_iff (low : intMin ≤ a) (high : a ≤ intMax) (top : b ≤ intMax) :
    Iterates a b (max 0 (b - a + 1)).toNat ↔ ¬(a ≤ b ∧ b = intMax) := by
  constructor
  · rintro iterates ⟨_,rfl⟩
    exact absurd (iterate_bounds low high _).2 (Int.not_le.mpr iterates.stops)
  · intro ends
    constructor
    · intro index before
      rw [iterate_below low (by omega)]
      omega
    · by_cases filled : a ≤ b
      · have below : b ≠ intMax := fun same => ends ⟨filled,same⟩
        rw [iterate_below low (by omega)]
        omega
      · have none_ : (max 0 (b - a + 1)).toNat = 0 := by omega
        rw [none_]
        exact Int.not_le.mp filled

theorem rangeLoop_endless (high : i ≤ intMax) : rangeLoop intMax fuel i ret = none := by
  induction fuel generalizing i ret with
  | zero => rfl
  | succ fuel ih =>
    rw [rangeLoop,if_pos high]
    exact ih (increment_bounds i).2

theorem integers_cons (filled : a ≤ b) : integers a b = a :: integers (a + 1) b := by
  have size : (b + 1 - a).toNat = (b + 1 - (a + 1)).toNat + 1 := by omega
  rw [integers,size,List.range_succ_eq_map,List.map_cons,List.map_map,integers]
  congr 1
  · simp
  · apply List.map_congr_left
    intro index _
    simp only [Function.comp_apply,Nat.succ_eq_add_one]
    omega

theorem rangeLoop_eq (low : intMin ≤ a) (ends : ¬(a ≤ b ∧ b = intMax)) (top : b ≤ intMax) :
    rangeLoop b fuel a ret = if (b + 1 - a).toNat < fuel then some (ret ++ integers a b) else none := by
  induction fuel generalizing a ret with
  | zero => rfl
  | succ fuel ih =>
    rw [rangeLoop]
    by_cases filled : a ≤ b
    · have below : b ≠ intMax := fun same => ends ⟨filled,same⟩
      have fewer : (b + 1 - (a + 1)).toNat < fuel ↔ (b + 1 - a).toNat < fuel + 1 := by omega
      rw [if_pos filled,increment_below low (by omega),ih (by omega) fun both => below both.2,integers_cons filled]
      simp only [fewer,List.append_assoc,List.singleton_append]
    · have none_ : (b + 1 - a).toNat = 0 := by omega
      simp [filled,integers,none_]

end Increment

section Parts
variable {conversion} {part field : List Char} {parts : List (List Char)} {ret elements : List Int} {a b : Int}

theorem sscanf_number {value : Int} (scanned : sscanf conversion field = .number value) :
    ∃ exact_, value = conversion.convert exact_ := by
  simp only [sscanf] at scanned
  split at scanned
  next => cases scanned
  next =>
    split_ifs at scanned
    all_goals exact ⟨_,(Scan.number.inj scanned).symm⟩

theorem stored_bounds (field : List Char) :
    intMin ≤ (sscanf conversion field).stored ∧ (sscanf conversion field).stored ≤ intMax := by
  cases scanned : sscanf conversion field with
  | eof => decide
  | mismatch => decide
  | number value =>
    obtain ⟨exact_,rfl⟩ := sscanf_number scanned
    simp only [Scan.stored,Conversion.convert]
    split
    next inside => exact inside
    next => exact conversion.bounded _

theorem bounds_int (read : bounds conversion part = some (a,b)) : (intMin ≤ a ∧ a ≤ intMax) ∧ intMin ≤ b ∧ b ≤ intMax := by
  simp only [bounds] at read
  split at read
  next => cases read
  next =>
    split at read
    next => cases read
    next =>
      split at read
      next =>
        split at read
        next => cases read
        next =>
          obtain ⟨rfl,rfl⟩ := Prod.mk.inj (Option.some.inj read)
          exact ⟨stored_bounds _,stored_bounds _⟩
      next =>
        obtain ⟨rfl,rfl⟩ := Prod.mk.inj (Option.some.inj read)
        exact ⟨stored_bounds _,stored_bounds _⟩

theorem parseIterations_returns (parsed : parse conversion parts ret = some elements) :
    ∃ least, ∀ fuel ≥ least, parseIterations conversion fuel parts ret = some elements := by
  induction parts generalizing ret with
  | nil => exact ⟨0,fun _ _ => parsed⟩
  | cons part parts ih =>
    simp only [parse] at parsed
    cases read : bounds conversion part with
    | none =>
      simp only [read] at parsed
      exact ⟨0,fun fuel _ => by simp only [parseIterations,read,parsed]⟩
    | some range =>
      obtain ⟨a,b⟩ := range
      obtain ⟨⟨low,_⟩,_,top⟩ := bounds_int read
      simp only [read,loop] at parsed
      split at parsed
      next => cases parsed
      next pushed looped =>
        split at looped
        next => cases looped
        next ends =>
          obtain rfl := Option.some.inj looped
          obtain ⟨least,returns⟩ := ih parsed
          refine ⟨max least ((b + 1 - a).toNat + 1),fun fuel enough => ?_⟩
          simp only [parseIterations,read]
          rw [rangeLoop_eq low ends top,if_pos (by omega),Option.bind_some]
          exact returns fuel (by omega)

theorem parse_of_iterations {fuel : Nat} (ran : parseIterations conversion fuel parts ret = some elements) :
    parse conversion parts ret = some elements ∧
      ∀ range ∈ parsedPairs conversion parts, ¬(range.1 ≤ range.2 ∧ range.2 = intMax) := by
  induction parts generalizing ret with
  | nil => exact ⟨ran,List.forall_mem_nil _⟩
  | cons part parts ih =>
    simp only [parseIterations] at ran
    simp only [parse,parsedPairs]
    cases read : bounds conversion part with
    | none =>
      simp only [read] at ran
      exact ⟨ran,List.forall_mem_nil _⟩
    | some range =>
      obtain ⟨a,b⟩ := range
      obtain ⟨⟨low,high⟩,_,top⟩ := bounds_int read
      simp only [read] at ran
      obtain ⟨pushed,looped,ran⟩ := Option.bind_eq_some_iff.mp ran
      have ends : ¬(a ≤ b ∧ b = intMax) := by
        rintro ⟨_,rfl⟩
        rw [rangeLoop_endless high] at looped
        cases looped
      rw [rangeLoop_eq low ends top] at looped
      split at looped
      next =>
        obtain rfl := Option.some.inj looped
        obtain ⟨parsed,others⟩ := ih ran
        simp only [loop,if_neg ends]
        exact ⟨parsed,List.forall_mem_cons.mpr ⟨ends,others⟩⟩
      next => cases looped

theorem parse_some (ends : ∀ range ∈ parsedPairs conversion parts, ¬(range.1 ≤ range.2 ∧ range.2 = intMax)) (ret : List Int) :
    ∃ elements, parse conversion parts ret = some elements := by
  induction parts generalizing ret with
  | nil => exact ⟨_,rfl⟩
  | cons part parts ih =>
    simp only [parsedPairs] at ends
    simp only [parse]
    cases read : bounds conversion part with
    | none => exact ⟨[],rfl⟩
    | some range =>
      simp only [read] at ends
      obtain ⟨first,others⟩ := List.forall_mem_cons.mp ends
      simp only [loop,if_neg first]
      exact ih others _

theorem parsedPairs_int : ∀ range ∈ parsedPairs conversion parts, (intMin ≤ range.1 ∧ range.1 ≤ intMax) ∧ range.2 ≤ intMax := by
  induction parts with
  | nil => exact nofun
  | cons part parts ih =>
    simp only [parsedPairs]
    cases read : bounds conversion part with
    | none => exact nofun
    | some range =>
      obtain ⟨first,_,second⟩ := @bounds_int conversion part range.1 range.2 read
      exact List.forall_mem_cons.mpr ⟨⟨first,second⟩,ih⟩

end Parts

/-- The call terminates exactly when no range that it gets to ends at the greatest `int`
without being empty. -/
theorem terminates_iff (conversion : Conversion) (s : List Char) : Terminates conversion s ↔
    ∀ range ∈ parsedPairs conversion (split ',' s), ¬(range.1 ≤ range.2 ∧ range.2 = intMax) := by
  constructor
  · rintro ⟨⟨fuel,elements,ran⟩,_⟩
    exact (parse_of_iterations ran).2
  · intro ends
    constructor
    · obtain ⟨elements,parsed⟩ := parse_some ends []
      obtain ⟨least,returns⟩ := parseIterations_returns parsed
      exact ⟨least,elements,returns least (Nat.le_refl least)⟩
    · intro range member
      obtain ⟨⟨low,high⟩,top⟩ := parsedPairs_int range member
      exact (iterates_iff low high top).mpr (ends range member)

/-- The greatest `int` alone. -/
theorem greatest_endless : ¬Terminates glibc "2147483647".toList := by
  rintro ⟨⟨fuel,elements,ran⟩,_⟩
  have pair : (intMax,intMax) ∈ parsedPairs glibc (split ',' "2147483647".toList) := by decide
  exact (parse_of_iterations ran).2 _ pair ⟨Int.le_refl _,rfl⟩

end Pgasus.NodeRequest
