import Mathlib.Data.List.Sort
import Mathlib.Data.List.TakeWhile
import Mathlib.Algebra.Ring.Int.Defs
import Mathlib.Algebra.Ring.Nat

/-! How the request for nodes is read from a string: `split`, `sscanf` with "%d", and the
ranges that the numbers stand for. -/
namespace Pgasus.NodeRequest

def intMax : Int := 2 ^ 31 - 1

/-- `util::split`: a field ends before a delimiter or with the string, and at the end of
the string there is no further field. -/
def split (delim : Char) : List Char → List (List Char)
  | [] => []
  | c::rest =>
    if c = delim then []::split delim rest
    else
      match split delim rest with
      | [] => [[c]]
      | item::items => (c::item)::items

/-- Of a number that is no `int`, some `int` is stored; which one the standard leaves open. -/
structure Conversion where
  narrow : Int → Int
  bounded : ∀ value, -2 ^ 31 ≤ narrow value ∧ narrow value ≤ intMax

def Conversion.convert (conversion : Conversion) (value : Int) : Int :=
  if -2 ^ 31 ≤ value ∧ value ≤ intMax then value else conversion.narrow value

/-- What `sscanf` does with "%d": it returns -1 at the end of its input, 0 when there is
no number, and else 1, with the number. -/
inductive Scan
  | eof
  | mismatch
  | number (value : Int)
deriving DecidableEq

def isSpace (c : Char) : Bool := c.toNat = 32 ∨ 9 ≤ c.toNat ∧ c.toNat ≤ 13

def isDigit (c : Char) : Bool := 48 ≤ c.toNat ∧ c.toNat ≤ 57

def digitsValue (digits : List Char) : Nat := digits.foldl (fun value c => 10 * value + (c.toNat - 48)) 0

variable (conversion : Conversion)

/-- The string ends at its first null character. -/
def sscanf (field : List Char) : Scan :=
  match (field.takeWhile fun c => c ≠ Char.ofNat 0).dropWhile isSpace with
  | [] => .eof
  | c::rest =>
    let digits := (if c = '+' ∨ c = '-' then rest else c::rest).takeWhile isDigit
    if digits = [] then .mismatch
    else .number (conversion.convert (if c = '-' then -(digitsValue digits : Int) else digitsValue digits))

/-- What the variable holds after the scan; the sentinel was -1. -/
def Scan.stored : Scan → Int
  | number value => value
  | _ => -1

def bounds (part : List Char) : Option (Int × Int) :=
  match split '-' part with
  | [] => none
  | first::others =>
    if sscanf conversion first = .mismatch then none
    else
      match others with
      | [second] =>
        if sscanf conversion second = .mismatch then none
        else some ((sscanf conversion first).stored,(sscanf conversion second).stored)
      | _ => some ((sscanf conversion first).stored,(sscanf conversion first).stored)

def integers (a b : Int) : List Int := (List.range (b + 1 - a).toNat).map fun (index : Nat) => a + index

/-- `for (int i = a; i <= b; i++)`: with the greatest `int` as `b` the test never fails. -/
def loop (a b : Int) : Option (List Int) := if a ≤ b ∧ b = intMax then none else some (integers a b)

def parse : List (List Char) → List Int → Option (List Int)
  | [], ret => some (ret.insertionSort (· ≤ ·))
  | part::parts, ret =>
    match bounds conversion part with
    | none => some []
    | some (a,b) =>
      match loop a b with
      | none => none
      | some pushed => parse parts (ret ++ pushed)

def getSortedElementsFromString (s : List Char) : Option (List Int) := parse conversion (split ',' s) []

/-! The grammar. -/

structure Decimal (digits : List Char) (value : Nat) : Prop where
  some_ : digits ≠ []
  digit : ∀ c ∈ digits, isDigit c = true
  meaning : digitsValue digits = value
  small : value < 2 ^ 31 - 1

inductive Form : List Char → Nat → Nat → Prop
  | single {digits : List Char} {n : Nat} (decimal : Decimal digits n) : Form digits n n
  | range {low high : List Char} {n m : Nat} (first : Decimal low n) (second : Decimal high m) : Form (low ++ '-'::high) n m

def WellFormed (s : List Char) : Prop := ∀ part ∈ s.splitOn ',', ∃ n m, Form part n m

structure Listed (s : List Char) (elements : List Int) : Prop where
  ascending : elements.Pairwise (· ≤ ·)
  ranges : ∃ ranges : List (Nat × Nat), List.Forall₂ (fun part range => Form part range.1 range.2) (s.splitOn ',') ranges ∧
    elements.Perm (ranges.flatMap fun range => integers range.1 range.2)

/-- What is well formed gives its integers, and the rest is rejected. -/
def Accurate (s : List Char) : Prop :=
  (WellFormed s → ∃ elements, getSortedElementsFromString conversion s = some elements ∧ Listed s elements) ∧
    (¬WellFormed s → getSortedElementsFromString conversion s = some [])

def Endless (part : List Char) : Prop := ∃ a b, bounds conversion part = some (a,b) ∧ a ≤ b ∧ b = intMax

def Rejected (parts : List (List Char)) : Prop :=
  ∃ before part after, parts = before ++ part::after ∧ (∀ early ∈ before, ¬Endless conversion early) ∧
    bounds conversion part = none

def Vacuous (parts : List (List Char)) : Prop := ∀ part ∈ parts, ∃ a b, bounds conversion part = some (a,b) ∧ b < a

section Split
variable {delim : Char} {item s : List Char}

theorem split_single (absent : delim ∉ item) (some_ : item ≠ []) : split delim item = [item] := by
  induction item with
  | nil => exact absurd rfl some_
  | cons c rest ih =>
    obtain ⟨other,absent⟩ := not_or.mp (List.mem_cons.not.mp absent)
    cases rest with
    | nil => simp [split,Ne.symm other]
    | cons d rest =>
      rw [split,if_neg (Ne.symm other),ih absent (List.cons_ne_nil d rest)]

theorem split_append (absent : delim ∉ item) : split delim (item ++ delim::s) = item::split delim s := by
  induction item with
  | nil => simp [split]
  | cons c rest ih =>
    obtain ⟨other,absent⟩ := not_or.mp (List.mem_cons.not.mp absent)
    rw [List.cons_append,split,if_neg (Ne.symm other),ih absent]

theorem splitOn_split (delim : Char) (s : List Char) :
    s.splitOn delim = split delim s ∨ s.splitOn delim = split delim s ++ [[]] := by
  induction s with
  | nil => exact .inr rfl
  | cons c rest ih =>
    rw [List.splitOn_cons_eq_if_modifyHead,split]
    by_cases same : c = delim
    · rw [if_pos (beq_iff_eq.mpr same),if_pos same]
      rcases ih with whole | ended
      · exact .inl (by rw [whole])
      · exact .inr (by rw [ended,List.cons_append])
    · rw [if_neg (beq_iff_eq.not.mpr same),if_neg same]
      rcases ih with whole | ended
      · rw [whole]
        cases fields : split delim rest with
        | nil => exact absurd (whole.trans fields) (List.splitOn_ne_nil delim rest)
        | cons item items => exact .inl rfl
      · rw [ended]
        cases split delim rest with
        | nil => exact .inl rfl
        | cons item items => exact .inr rfl

end Split

section Accepted
variable {conversion} {digits part : List Char} {n m : Nat}

theorem Decimal.dash (decimal : Decimal digits n) : '-' ∉ digits :=
  fun member => absurd (decimal.digit '-' member) (by decide)

theorem Decimal.scan (decimal : Decimal digits n) : sscanf conversion digits = .number n := by
  have whole : digits.takeWhile (fun c => c ≠ Char.ofNat 0) = digits := by
    apply List.takeWhile_eq_self_iff.mpr
    intro c member
    have digit := decimal.digit c member
    apply decide_eq_true
    rintro rfl
    revert digit
    decide
  have all : digits.takeWhile isDigit = digits := List.takeWhile_eq_self_iff.mpr decimal.digit
  have small := decimal.small
  obtain ⟨c,rest,rfl⟩ := List.exists_cons_of_ne_nil decimal.some_
  have digit := decimal.digit c List.mem_cons_self
  have space : isSpace c = false := by
    simp only [isDigit,decide_eq_true_eq] at digit
    simp only [isSpace,decide_eq_false_iff_not]
    omega
  have plus : c ≠ '+' := by rintro rfl; revert digit; decide
  have minus : c ≠ '-' := by rintro rfl; revert digit; decide
  have fits : -2 ^ 31 ≤ (n : Int) ∧ (n : Int) ≤ intMax := by
    simp only [intMax]
    omega
  simp only [sscanf,whole,List.dropWhile_cons,space,Bool.false_eq_true,if_false,plus,minus,or_self,all,List.cons_ne_nil,
    decimal.meaning,Conversion.convert,fits,and_self,if_true]

theorem Form.bounds (form : Form part n m) : bounds conversion part = some ((n : Int),(m : Int)) := by
  cases form with
  | single decimal =>
    rw [NodeRequest.bounds,split_single decimal.dash decimal.some_]
    simp [decimal.scan,Scan.stored]
  | range first second =>
    rw [NodeRequest.bounds,split_append first.dash,split_single second.dash second.some_]
    simp [first.scan,second.scan,Scan.stored]

theorem Form.small (form : Form part n m) : m < 2 ^ 31 - 1 := by
  cases form with
  | single decimal => exact decimal.small
  | range _ second => exact second.small

theorem Form.some_ (form : Form part n m) : part ≠ [] := by
  cases form with
  | single decimal => exact decimal.some_
  | range => simp

theorem WellFormed.split {s : List Char} (wellFormed : WellFormed s) : s.splitOn ',' = NodeRequest.split ',' s := by
  rcases splitOn_split ',' s with whole | ended
  · exact whole
  · obtain ⟨n,m,form⟩ := wellFormed [] (by rw [ended]; simp)
    exact absurd rfl form.some_

def Reads (conversion : Conversion) (part : List Char) (range : Int × Int) : Prop :=
  bounds conversion part = some range ∧ ¬(range.1 ≤ range.2 ∧ range.2 = intMax)

theorem Form.reads (form : Form part n m) : Reads conversion part ((n : Int),(m : Int)) := by
  have small := form.small
  refine ⟨form.bounds,fun top => ?_⟩
  simp only [intMax] at top
  omega

theorem parse_ranges {parts : List (List Char)} {ranges : List (Int × Int)} (reads : List.Forall₂ (Reads conversion) parts ranges)
    (ret : List Int) : parse conversion parts ret =
      some ((ret ++ ranges.flatMap fun range => integers range.1 range.2).insertionSort (· ≤ ·)) := by
  induction reads generalizing ret with
  | nil => simp [parse]
  | cons read reads ih => simp [parse,read.1,loop,read.2,ih]

theorem WellFormed.listed {s : List Char} (wellFormed : WellFormed s) :
    ∃ elements, getSortedElementsFromString conversion s = some elements ∧ Listed s elements := by
  obtain ⟨ranges,forms⟩ : ∃ ranges : List (Nat × Nat),
      List.Forall₂ (fun part range => Form part range.1 range.2) (s.splitOn ',') ranges := by
    unfold WellFormed at wellFormed
    generalize s.splitOn ',' = parts at wellFormed
    induction parts with
    | nil => exact ⟨[],.nil⟩
    | cons part rest ih =>
      obtain ⟨n,m,form⟩ := wellFormed part List.mem_cons_self
      obtain ⟨ranges,forms⟩ := ih fun other member => wellFormed other (List.mem_cons_of_mem part member)
      exact ⟨(n,m)::ranges,.cons form forms⟩
  have reads : List.Forall₂ (Reads conversion) (s.splitOn ',') (ranges.map fun range => ((range.1 : Int),(range.2 : Int))) :=
    List.forall₂_map_right_iff.mpr (forms.imp fun _ _ form => form.reads)
  refine ⟨_,by rw [getSortedElementsFromString,← wellFormed.split,parse_ranges reads],?_,ranges,forms,?_⟩
  · exact List.pairwise_insertionSort (· ≤ ·) _
  · rw [List.nil_append,List.flatMap_map]
    exact List.perm_insertionSort (· ≤ ·) _

end Accepted

/-- The empty list is what a rejected part gives, or nothing but empty ranges. -/
theorem parse_nil_iff (parts : List (List Char)) (ret : List Int) :
    parse conversion parts ret = some [] ↔ Rejected conversion parts ∨ ret = [] ∧ Vacuous conversion parts := by
  induction parts generalizing ret with
  | nil =>
    have none : ¬Rejected conversion [] := fun ⟨before,part,after,same,_⟩ => by simp at same
    have sorted : ret.insertionSort (· ≤ ·) = [] ↔ ret = [] := by
      rw [← List.length_eq_zero_iff,List.length_insertionSort,List.length_eq_zero_iff]
    simp [parse,none,sorted,Vacuous]
  | cons part rest ih =>
    cases read : bounds conversion part with
    | none => exact iff_of_true (by simp [parse,read]) (.inl ⟨[],part,rest,rfl,nofun,read⟩)
    | some range =>
      obtain ⟨a,b⟩ := range
      -- the part is read, so it is a later one that is rejected
      have later : Rejected conversion (part::rest) ↔ ¬Endless conversion part ∧ Rejected conversion rest := by
        constructor
        · rintro ⟨before,last,after,same,ends,gone⟩
          cases before with
          | nil =>
            obtain ⟨rfl,_⟩ := List.cons.inj same
            rw [read] at gone
            cases gone
          | cons head before =>
            obtain ⟨rfl,tail⟩ := List.cons.inj same
            exact ⟨ends _ List.mem_cons_self,before,last,after,tail,fun early member => ends early (List.mem_cons_of_mem _ member),gone⟩
        · rintro ⟨ends,before,last,after,rfl,others,gone⟩
          exact ⟨part::before,last,after,rfl,List.forall_mem_cons.mpr ⟨ends,others⟩,gone⟩
      have empty : Vacuous conversion (part::rest) ↔ b < a ∧ Vacuous conversion rest := by
        simp only [Vacuous,List.forall_mem_cons,read,Option.some.injEq,Prod.mk.injEq]
        refine and_congr_left fun _ => ⟨?_,fun less => ⟨a,b,⟨rfl,rfl⟩,less⟩⟩
        rintro ⟨_,_,⟨rfl,rfl⟩,less⟩
        exact less
      rw [later,empty]
      simp only [parse,read,loop]
      by_cases stuck : a ≤ b ∧ b = intMax
      · have endless : Endless conversion part := ⟨a,b,read,stuck⟩
        have full : ¬b < a := Int.not_lt.mpr stuck.1
        simp only [if_pos stuck,endless,full,not_true_eq_false,false_and,and_false,or_self,reduceCtorEq]
      · have ends : ¬Endless conversion part := by
          rintro ⟨_,_,same,less,top⟩
          rw [read] at same
          obtain ⟨rfl,rfl⟩ := Prod.mk.inj (Option.some.inj same)
          exact stuck ⟨less,top⟩
        have pushed : integers a b = [] ↔ b < a := by
          rw [← List.length_eq_zero_iff,integers,List.length_map,List.length_range]
          omega
        simp only [if_neg stuck,ih,ends,not_false_eq_true,true_and,List.append_eq_nil_iff,pushed,and_assoc]

theorem reads_of_parse {parts : List (List Char)} {ret elements : List Int} (parsed : parse conversion parts ret = some elements)
    (some_ : elements ≠ []) : ∃ ranges, List.Forall₂ (Reads conversion) parts ranges := by
  induction parts generalizing ret with
  | nil => exact ⟨[],.nil⟩
  | cons part rest ih =>
    simp only [parse] at parsed
    split at parsed
    next =>
      cases parsed
      exact absurd rfl some_
    next a b read =>
      by_cases stuck : a ≤ b ∧ b = intMax
      · simp only [loop,if_pos stuck,reduceCtorEq] at parsed
      · simp only [loop,if_neg stuck] at parsed
        obtain ⟨ranges,reads⟩ := ih parsed
        exact ⟨(a,b)::ranges,.cons ⟨read,stuck⟩ reads⟩

theorem mem_integers {a b n : Int} : n ∈ integers a b ↔ a ≤ n ∧ n ≤ b := by
  simp only [integers,List.mem_map,List.mem_range]
  constructor
  · rintro ⟨index,inside,rfl⟩
    omega
  · intro between
    exact ⟨(n - a).toNat,by omega,by omega⟩

theorem reads_mem {parts : List (List Char)} {ranges : List (Int × Int)} (reads : List.Forall₂ (Reads conversion) parts ranges) :
    (∀ part ∈ parts, ∃ range, Reads conversion part range) ∧ ∀ n, n ∈ ranges.flatMap (fun range => integers range.1 range.2) ↔
      ∃ part ∈ parts, ∃ a b, bounds conversion part = some (a,b) ∧ a ≤ n ∧ n ≤ b := by
  induction reads with
  | nil => simp
  | @cons part range parts ranges read reads ih =>
    refine ⟨List.forall_mem_cons.mpr ⟨⟨range,read⟩,ih.1⟩,fun n => ?_⟩
    rw [List.flatMap_cons,List.mem_append,mem_integers,ih.2 n,List.exists_mem_cons_iff]
    refine or_congr_left ⟨fun between => ⟨_,_,read.1,between⟩,?_⟩
    rintro ⟨a,b,same,between⟩
    rw [read.1] at same
    rwa [Option.some.inj same]

theorem mem_of_parse {s : List Char} {elements : List Int} (parsed : getSortedElementsFromString conversion s = some elements)
    (some_ : elements ≠ []) : (∀ part ∈ split ',' s, ∃ range, Reads conversion part range) ∧
      ∀ n, n ∈ elements ↔ ∃ part ∈ split ',' s, ∃ a b, bounds conversion part = some (a,b) ∧ a ≤ n ∧ n ≤ b := by
  obtain ⟨ranges,reads⟩ := reads_of_parse conversion parsed some_
  obtain ⟨all,mem⟩ := reads_mem conversion reads
  refine ⟨all,fun n => ?_⟩
  rw [getSortedElementsFromString,parse_ranges reads] at parsed
  rw [← Option.some.inj parsed,List.mem_insertionSort,List.nil_append]
  exact mem n

theorem parse_of_reads {s : List Char} (reads : ∀ part ∈ split ',' s, ∃ range, Reads conversion part range) :
    ∃ elements, getSortedElementsFromString conversion s = some elements ∧
      ∀ n, n ∈ elements ↔ ∃ part ∈ split ',' s, ∃ a b, bounds conversion part = some (a,b) ∧ a ≤ n ∧ n ≤ b := by
  have ranges : ∃ ranges, List.Forall₂ (Reads conversion) (split ',' s) ranges := by
    generalize split ',' s = parts at reads
    induction parts with
    | nil => exact ⟨[],.nil⟩
    | cons part rest ih =>
      obtain ⟨range,read⟩ := reads part List.mem_cons_self
      obtain ⟨ranges,others⟩ := ih fun other member => reads other (List.mem_cons_of_mem part member)
      exact ⟨range::ranges,.cons read others⟩
  obtain ⟨ranges,reads⟩ := ranges
  refine ⟨_,by rw [getSortedElementsFromString,parse_ranges reads],fun n => ?_⟩
  rw [List.mem_insertionSort,List.nil_append]
  exact (reads_mem conversion reads).2 n

/-- The string is read as the grammar says exactly when it is well formed, or a scan finds
the fault, or all ranges are empty. -/
theorem accurate_iff (conversion : Conversion) (s : List Char) : Accurate conversion s ↔
    WellFormed s ∨ Rejected conversion (split ',' s) ∨ Vacuous conversion (split ',' s) := by
  have nothing := parse_nil_iff conversion (split ',' s) []
  simp only [true_and] at nothing
  by_cases wellFormed : WellFormed s
  · exact iff_of_true ⟨fun good => good.listed,fun bad => absurd wellFormed bad⟩ (.inl wellFormed)
  · simp only [Accurate,wellFormed,false_or,false_implies,not_false_eq_true,true_implies,true_and]
    exact nothing

/-- What glibc stores: the low bits of a `long`, which is as large as can be when the number is larger. -/
def glibc : Conversion where
  narrow value := Int.bmod (max (-2 ^ 63) (min value (2 ^ 63 - 1))) (2 ^ 32)
  bounded value := by
    have low := @Int.le_bmod (max (-2 ^ 63) (min value (2 ^ 63 - 1))) (2 ^ 32) (by decide)
    have high := @Int.bmod_lt (max (-2 ^ 63) (min value (2 ^ 63 - 1))) (2 ^ 32) (by decide)
    simp only [intMax]
    omega

example : getSortedElementsFromString glibc "7,1-3,2".toList = some [1,2,2,3,7] := by decide

/-- A number with a letter behind it counts as the number. -/
theorem trailing_letter : ¬Accurate glibc "3x".toList := by
  rintro ⟨_,rejects⟩
  have one : "3x".toList.splitOn ',' = ["3x".toList] := List.splitOn_eq_singleton (by decide)
  have bad : ¬WellFormed "3x".toList := by
    intro wellFormed
    obtain ⟨n,m,form⟩ := wellFormed "3x".toList (by rw [one]; exact List.mem_singleton_self _)
    generalize same : "3x".toList = part at form
    cases form with
    | single decimal => exact absurd (decimal.digit 'x' (by rw [← same]; decide)) (by decide)
    | range first second => exact absurd (show '-' ∈ "3x".toList by rw [same]; simp) (by decide)
  exact absurd (rejects bad) (by decide)

end Pgasus.NodeRequest
