import Mathlib.Data.Nat.Digits.Defs
import Mathlib.Data.List.TakeWhile

/-!
# Byte strings

A C++ `std::string` is a list of bytes. This module collects the string
functions of the standard library that the programs below rely on: character
classes, decimal printing (`std::to_string`), decimal reading (`std::stoull`, `std::stoi`),
the search for the last occurrence of a byte (`find_last_of`), and `std::getline`.

Results:
1. `toDecimal_inj`, `intDecimal_inj`, `ofDecimal_toDecimal`: decimal printing can be undone.
2. `stoull_toDecimal`, `stoi_intDecimal`: they read back what `to_string` printed.
3. `afterLast_append`: the text behind the last separator.
-/

namespace IMSystem.Lib

/-- A C++ `std::string`: its bytes, in order. -/
abbrev Bytes := List UInt8

/-- The bytes of a string literal. -/
def str (s : String) : Bytes := s.toUTF8.data.toList

/-- The byte of an ASCII character literal. -/
def chr (c : Char) : UInt8 := c.toUInt8

/-! ## Character classes of the "C" locale -/

/-- `std::isspace`: blank, `\t`, `\n`, `\v`, `\f`, `\r`. -/
def isspace (c : UInt8) : Bool := c == 32 || (9 ≤ c && c ≤ 13)

/-- `std::isdigit`. -/
def isdigit (c : UInt8) : Bool := 48 ≤ c && c ≤ 57

theorem isspace_of_isdigit {c : UInt8} (h : isdigit c = true) : isspace c = false := by
  simp only [isdigit, Bool.and_eq_true, decide_eq_true_eq, UInt8.le_iff_toNat_le] at h
  have h48 : (48 : UInt8).toNat = 48 := rfl
  have hne : (c == 32) = false := by
    rw [beq_eq_false_iff_ne]
    rintro rfl
    exact absurd h.1 (by decide)
  have hle : ¬ c ≤ 13 := by
    rw [UInt8.le_iff_toNat_le]
    have h13 : (13 : UInt8).toNat = 13 := rfl
    omega
  simp [isspace, hne, hle]

/-! ## Decimal printing and reading -/

/-- `std::to_string` of an unsigned integer. -/
def toDecimal (n : Nat) : Bytes := (Nat.toDigits 10 n).map Char.toUInt8

/-- `std::to_string` of a signed integer. -/
def intDecimal (i : Int) : Bytes :=
  if i < 0 then chr '-' :: toDecimal i.natAbs else toDecimal i.natAbs

/-- The number that a string of decimal digits denotes. -/
def ofDecimal (s : Bytes) : Nat := s.foldl (fun n c => 10 * n + (c.toNat - 48)) 0

/-- A decimal digit survives the step from a character to a byte. -/
theorem toUInt8_toNat_of_isDigit {c : Char} (h : c.isDigit = true) :
    c.toUInt8.toNat = c.toNat := by
  have hc : c.toNat ≤ 57 := by
    simp only [Char.isDigit, Bool.and_eq_true, decide_eq_true_eq] at h
    exact h.2
  have hmod : c.toUInt8.toNat = c.toNat % 256 := by
    rw [Char.toUInt8, UInt32.toNat_toUInt8, Char.toNat]
  omega

theorem foldl_toUInt8 {cs : List Char} (h : ∀ c ∈ cs, c.isDigit = true) (n : Nat) :
    (cs.map Char.toUInt8).foldl (fun n c => 10 * n + (c.toNat - 48)) n =
      Nat.ofDigitChars 10 cs n := by
  induction cs generalizing n with
  | nil => simp [Nat.ofDigitChars]
  | cons c cs ih =>
    rw [List.map_cons, List.foldl_cons, Nat.ofDigitChars_cons,
      toUInt8_toNat_of_isDigit (h c List.mem_cons_self)]
    exact ih (fun d hd => h d (List.mem_cons_of_mem _ hd)) _

theorem isDigit_of_mem {n : Nat} {c : Char} (h : c ∈ Nat.toDigits 10 n) : c.isDigit = true :=
  Nat.isDigit_of_mem_toDigits (by decide) (by decide) h

/-- Reading undoes printing. -/
@[simp] theorem ofDecimal_toDecimal (n : Nat) : ofDecimal (toDecimal n) = n := by
  unfold ofDecimal toDecimal
  rw [foldl_toUInt8 (fun c hc => isDigit_of_mem hc), Nat.ofDigitChars_ten_toDigits]

theorem toDecimal_inj {m n : Nat} (h : toDecimal m = toDecimal n) : m = n := by
  have := congrArg ofDecimal h
  simpa using this

theorem toDecimal_ne_nil (n : Nat) : toDecimal n ≠ [] := by
  simp [toDecimal]

theorem isdigit_of_mem_toDecimal {n : Nat} {c : UInt8} (h : c ∈ toDecimal n) :
    isdigit c = true := by
  obtain ⟨d, hd, rfl⟩ := List.mem_map.mp h
  have hdig := isDigit_of_mem hd
  have hnat := toUInt8_toNat_of_isDigit hdig
  simp only [Char.isDigit, Bool.and_eq_true, decide_eq_true_eq] at hdig
  simp only [isdigit, Bool.and_eq_true, decide_eq_true_eq, UInt8.le_iff_toNat_le, hnat]
  exact hdig

/-- A byte that is no digit does not occur in a printed number. -/
theorem not_mem_toDecimal {c : UInt8} (h : isdigit c = false) (n : Nat) : c ∉ toDecimal n := by
  intro hc
  rw [isdigit_of_mem_toDecimal hc] at h
  exact Bool.noConfusion h

theorem intDecimal_inj {i j : Int} (h : intDecimal i = intDecimal j) : i = j := by
  have hminus : ∀ n, chr '-' ∉ toDecimal n := not_mem_toDecimal (by decide)
  unfold intDecimal at h
  split at h <;> split at h
  · next hi hj =>
    have := toDecimal_inj (List.tail_eq_of_cons_eq h)
    omega
  · next hi hj =>
    exact absurd (h ▸ List.mem_cons_self) (hminus j.natAbs)
  · next hi hj =>
    exact absurd (h ▸ List.mem_cons_self) (hminus i.natAbs)
  · next hi hj =>
    have := toDecimal_inj h
    omega

/-- A printed signed integer has digits and a minus sign only. -/
theorem not_mem_intDecimal {c : UInt8} (h : isdigit c = false) (hminus : c ≠ chr '-') (i : Int) :
    c ∉ intDecimal i := by
  unfold intDecimal
  split
  · rw [List.mem_cons, not_or]
    exact ⟨hminus, not_mem_toDecimal h _⟩
  · exact not_mem_toDecimal h _

/-! ## Searching -/

/-- `str.substr(str.find_last_of(c) + 1)`, or `none` when `c` does not occur. -/
def afterLast (c : UInt8) : Bytes → Option Bytes
  | [] => none
  | x :: xs =>
    match afterLast c xs with
    | some r => some r
    | none => if x = c then some xs else none

theorem afterLast_eq_none {c : UInt8} {s : Bytes} (h : c ∉ s) : afterLast c s = none := by
  induction s with
  | nil => rfl
  | cons x xs ih =>
    rw [List.mem_cons, not_or] at h
    simp [afterLast, ih h.2, Ne.symm h.1]

/-- The text behind the last separator, when that text is free of it. -/
theorem afterLast_append {c : UInt8} {b : Bytes} (a : Bytes) (h : c ∉ b) :
    afterLast c (a ++ c :: b) = some b := by
  induction a with
  | nil => simp [afterLast, afterLast_eq_none h]
  | cons x xs ih => simp [afterLast, ih]

/-- The last separator tells the two parts of a text apart. -/
theorem append_cons_inj {c : UInt8} {a a' b b' : Bytes} (hb : c ∉ b) (hb' : c ∉ b')
    (h : a ++ c :: b = a' ++ c :: b') : a = a' ∧ b = b' := by
  have hlast := congrArg (afterLast c) h
  rw [afterLast_append a hb, afterLast_append a' hb', Option.some.injEq] at hlast
  subst hlast
  exact ⟨List.append_cancel_right h, rfl⟩

/-! ## `std::stoull` -/

/-- The exceptions of `std::stoull` and `std::stoi`. -/
inductive StoullError where
  | invalidArgument
  | outOfRange
deriving DecidableEq, Repr

/-- The part of `std::stoull` behind the optional sign: the longest run of
digits is read, what follows is ignored. -/
def stoullDigits (negative : Bool) (s : Bytes) : Except StoullError UInt64 :=
  let digits := s.takeWhile isdigit
  if digits = [] then .error .invalidArgument
  else if 2 ^ 64 ≤ ofDecimal digits then .error .outOfRange
  else if negative then .ok (0 - UInt64.ofNat (ofDecimal digits))
  else .ok (UInt64.ofNat (ofDecimal digits))

/-- `std::stoull` in base 10: leading white space and one sign are accepted. -/
def stoull (s : Bytes) : Except StoullError UInt64 :=
  match s.dropWhile isspace with
  | c :: rest =>
    if c = chr '-' then stoullDigits true rest
    else if c = chr '+' then stoullDigits false rest
    else stoullDigits false (c :: rest)
  | [] => .error .invalidArgument

theorem takeWhile_toDecimal (n : Nat) : (toDecimal n).takeWhile isdigit = toDecimal n :=
  List.takeWhile_eq_self_iff.mpr fun _ hc => isdigit_of_mem_toDecimal hc

/-- A printed number starts neither with a blank nor with a sign. -/
theorem toDecimal_cons (n : Nat) : ∃ c rest, toDecimal n = c :: rest ∧
    (c :: rest).dropWhile isspace = c :: rest ∧ c ≠ chr '-' ∧ c ≠ chr '+' := by
  obtain ⟨c, rest, hd⟩ := List.exists_cons_of_ne_nil (toDecimal_ne_nil n)
  have hc : isdigit c = true := isdigit_of_mem_toDecimal (n := n) (by rw [hd]; exact List.mem_cons_self)
  have hminus : c ≠ chr '-' := by rintro rfl; exact absurd hc (by decide)
  have hplus : c ≠ chr '+' := by rintro rfl; exact absurd hc (by decide)
  refine ⟨c, rest, hd, ?_, hminus, hplus⟩
  rw [List.dropWhile_cons, isspace_of_isdigit hc]
  simp

/-- `stoull` reads back what `to_string` printed, unless it exceeds 64 bits. -/
theorem stoull_toDecimal (n : Nat) :
    stoull (toDecimal n) =
      if 2 ^ 64 ≤ n then .error .outOfRange else .ok (UInt64.ofNat n) := by
  have hdigits : stoullDigits false (toDecimal n) =
      if 2 ^ 64 ≤ n then .error .outOfRange else .ok (UInt64.ofNat n) := by
    simp only [stoullDigits, takeWhile_toDecimal, toDecimal_ne_nil, ofDecimal_toDecimal, if_false,
      Bool.false_eq_true]
  obtain ⟨c, rest, hd, hdrop, hminus, hplus⟩ := toDecimal_cons n
  rw [hd] at hdigits ⊢
  unfold stoull
  rw [hdrop]
  simp only [hminus, hplus, if_false]
  exact hdigits

example : stoull (str " 42_7") = .ok 42 := by decide

/-! ## `std::stoi` -/

/-- The part of `std::stoi` behind the optional sign. -/
def stoiDigits (negative : Bool) (s : Bytes) : Except StoullError Int :=
  let digits := s.takeWhile isdigit
  if digits = [] then .error .invalidArgument
  else
    let i : Int := if negative then -ofDecimal digits else ofDecimal digits
    if i < -2 ^ 31 ∨ 2 ^ 31 ≤ i then .error .outOfRange else .ok i

/-- `std::stoi` in base 10: leading white space and one sign are accepted. -/
def stoi (s : Bytes) : Except StoullError Int :=
  match s.dropWhile isspace with
  | c :: rest =>
    if c = chr '-' then stoiDigits true rest
    else if c = chr '+' then stoiDigits false rest
    else stoiDigits false (c :: rest)
  | [] => .error .invalidArgument

/-- `stoi` reads back what `to_string` printed, unless it exceeds an `int`. -/
theorem stoi_toDecimal {n : Nat} (h : n < 2 ^ 31) : stoi (toDecimal n) = .ok (n : Int) := by
  have hdigits : stoiDigits false (toDecimal n) = .ok (n : Int) := by
    simp only [stoiDigits, takeWhile_toDecimal, toDecimal_ne_nil, ofDecimal_toDecimal, if_false,
      Bool.false_eq_true]
    rw [if_neg]
    omega
  obtain ⟨c, rest, hd, hdrop, hminus, hplus⟩ := toDecimal_cons n
  rw [hd] at hdigits ⊢
  unfold stoi
  rw [hdrop]
  simp only [hminus, hplus, if_false]
  exact hdigits

/-- It also reads back a negative number. -/
theorem stoi_intDecimal {i : Int} (h : -2 ^ 31 ≤ i) (h' : i < 2 ^ 31) :
    stoi (intDecimal i) = .ok i := by
  unfold intDecimal
  split
  · next hneg =>
    have hdigits : stoiDigits true (toDecimal i.natAbs) = .ok i := by
      have hself : -(i.natAbs : Int) = i := by
        rw [Int.ofNat_natAbs_of_nonpos (Int.le_of_lt hneg), Int.neg_neg]
      simp only [stoiDigits, takeWhile_toDecimal, toDecimal_ne_nil, ofDecimal_toDecimal, if_false,
        if_true, hself]
      exact if_neg (not_or.mpr ⟨Int.not_lt.mpr h, Int.not_le.mpr h'⟩)
    exact hdigits
  · next hpos =>
    have hself : (i.natAbs : Int) = i := Int.natAbs_of_nonneg (Int.not_lt.mp hpos)
    have hlt : i.natAbs < 2 ^ 31 := by
      rw [← Int.ofNat_lt, hself]
      exact h'
    rw [stoi_toDecimal hlt, hself]

/-! ## Lines -/

/-- The lines of a text, as `std::getline` reads them. Nothing follows the last
line break of the text. -/
def getlines (text : Bytes) : List Bytes :=
  let lines := text.splitOn (chr '\n')
  if lines.getLast? = some [] then lines.dropLast else lines

theorem flatMap_end_eq_intercalate (c : UInt8) (ls : List Bytes) :
    ls.flatMap (· ++ [c]) = [c].intercalate (ls ++ [[]]) := by
  induction ls with
  | nil => rfl
  | cons l ls ih =>
    rw [List.flatMap_cons, ih, List.cons_append, List.intercalate_cons_of_ne_nil (by simp)]

/-- A text made of ended lines has these lines. -/
theorem getlines_flatMap {ls : List Bytes} (h : ∀ l ∈ ls, chr '\n' ∉ l) :
    getlines (ls.flatMap (· ++ [chr '\n'])) = ls := by
  have hsplit : (ls.flatMap (· ++ [chr '\n'])).splitOn (chr '\n') = ls ++ [[]] := by
    rw [flatMap_end_eq_intercalate]
    refine List.splitOn_intercalate _ ?_ (by simp)
    intro l hl
    rcases List.mem_append.mp hl with hl | hl
    · exact h l hl
    · rw [List.mem_singleton.mp hl]
      exact List.not_mem_nil
  unfold getlines
  rw [hsplit]
  simp

end IMSystem.Lib
