import Mathlib

/-!
# Numbers in C strings

`strtol` and `atoi` on byte strings, in the C locale and with a 64-bit `long`.
A conversion reads as far as it can: leading white space, a sign, in base 16
the prefix `0x`, and digits.  Where there are no digits it gives zero.
-/

namespace HydraRT.Lib

/-- The bytes of a string literal of ASCII characters. -/
def ascii (literal : String) : List UInt8 :=
  literal.toList.map Char.toUInt8

/-- `isspace`. -/
def isSpace (char : UInt8) : Bool :=
  char.toNat = 32 || (9 ≤ char.toNat && char.toNat ≤ 13)

/-- The value of a digit or a letter. -/
def digitValue (char : UInt8) : Option Nat :=
  if 48 ≤ char.toNat ∧ char.toNat ≤ 57 then some (char.toNat - 48)
  else if 65 ≤ char.toNat ∧ char.toNat ≤ 90 then some (char.toNat - 55)
  else if 97 ≤ char.toNat ∧ char.toNat ≤ 122 then some (char.toNat - 87)
  else none

def digitIn (base : Nat) (char : UInt8) : Option Nat :=
  (digitValue char).filter (· < base)

/-- The text up to its first NUL. -/
def cString (text : List UInt8) : List UInt8 :=
  text.takeWhile (· ≠ 0)

/-- The digits at the front of a text, after those that made up `value`. -/
def leadingNumber (base value : Nat) : List UInt8 → Nat
  | [] => value
  | char :: rest =>
      match digitIn base char with
      | some digit => leadingNumber base (base * value + digit) rest
      | none => value

/-- An optional `0x`, which base 16 allows. -/
def skipPrefix (base : Nat) : List UInt8 → List UInt8
  | zero :: letter :: rest =>
      if base = 16 ∧ zero.toNat = 48 ∧
          (letter.toNat = 120 ∨ letter.toNat = 88) then rest
      else zero :: letter :: rest
  | text => text

/-- The number at the front of a text without white space there. -/
def signedNumber (base : Nat) : List UInt8 → Int
  | [] => 0
  | char :: rest =>
      if char.toNat = 45 then -leadingNumber base 0 (skipPrefix base rest)
      else if char.toNat = 43 then leadingNumber base 0 (skipPrefix base rest)
      else leadingNumber base 0 (skipPrefix base (char :: rest))

/-- The number that a conversion finds, before it is fitted to a type. -/
def integerAt (base : Nat) (text : List UInt8) : Int :=
  signedNumber base ((cString text).dropWhile isSpace)

/-- Numbers out of range become `LONG_MIN` and `LONG_MAX`. -/
def strtol (text : List UInt8) (base : Nat) : Int :=
  max (-2 ^ 63) (min (2 ^ 63 - 1) (integerAt base text))

/-- Numbers out of range are undefined behaviour: what the call gives for them
is left open. -/
def atoi (beyond : List UInt8 → Int32) (text : List UInt8) : Int32 :=
  if -2 ^ 31 ≤ integerAt 10 text ∧ integerAt 10 text < 2 ^ 31 then
    Int32.ofInt (integerAt 10 text)
  else beyond text

/-! ## Digits -/

/-- Digits are neither white space nor signs, and not the end of a string. -/
structure IsDigit (base : Nat) (char : UInt8) (digit : Nat) : Prop where
  small : digit < base
  notNul : char ≠ 0
  notSpace : isSpace char = false
  notMinus : char.toNat ≠ 45
  notPlus : char.toNat ≠ 43

theorem isDigit_of_digitIn {base : Nat} {char : UInt8} {digit : Nat}
    (found : digitIn base char = some digit) : IsDigit base char digit := by
  obtain ⟨value, small⟩ := Option.filter_eq_some_iff.mp found
  have code : 48 ≤ char.toNat := by
    unfold digitValue at value
    split at value
    · rename_i decimal
      exact decimal.1
    · split at value
      · rename_i upper
        exact le_trans (by omega) upper.1
      · split at value
        · rename_i lower
          exact le_trans (by omega) lower.1
        · cases value
  refine ⟨of_decide_eq_true small, ?_, ?_, by omega, by omega⟩
  · rintro rfl
    exact absurd code (by decide)
  · unfold isSpace
    simp only [Bool.or_eq_false_iff, Bool.and_eq_false_iff,
      decide_eq_false_iff_not]
    omega

theorem leadingNumber_lt {base : Nat} (positive : 0 < base)
    {text : List UInt8} (short : text.length ≤ 1) :
    leadingNumber base 0 text < base := by
  cases text with
  | nil =>
      exact positive
  | cons char rest =>
      obtain rfl : rest = [] := by
        apply List.eq_nil_of_length_eq_zero
        simpa using short
      cases found : digitIn base char with
      | none =>
          rw [leadingNumber, found]
          exact positive
      | some digit =>
          rw [leadingNumber, found]
          simpa [leadingNumber] using (isDigit_of_digitIn found).small

theorem skipPrefix_of_short {base : Nat} {text : List UInt8}
    (short : text.length ≤ 1) : skipPrefix base text = text := by
  cases text with
  | nil =>
      rfl
  | cons char rest =>
      obtain rfl : rest = [] := by
        apply List.eq_nil_of_length_eq_zero
        simpa using short
      rfl

/-- One character has a value of at most one digit. -/
theorem abs_signedNumber_lt {base : Nat} (positive : 0 < base)
    {text : List UInt8} (short : text.length ≤ 1) :
    |signedNumber base text| < base := by
  cases text with
  | nil =>
      simpa [signedNumber] using positive
  | cons char rest =>
      have restShort : rest.length ≤ 1 := by
        simp only [List.length_cons] at short
        omega
      have ofRest : leadingNumber base 0 (skipPrefix base rest) < base := by
        rw [skipPrefix_of_short restShort]
        exact leadingNumber_lt positive restShort
      have ofAll :
          leadingNumber base 0 (skipPrefix base (char :: rest)) < base := by
        rw [skipPrefix_of_short short]
        exact leadingNumber_lt positive short
      rw [signedNumber, abs_lt]
      split_ifs
      · omega
      · omega
      · omega

/-! ## Two characters -/

/-- Two hexadecimal digits denote a byte. -/
theorem strtol_hex {first second : UInt8} {high low : Nat}
    (firstDigit : digitIn 16 first = some high)
    (secondDigit : digitIn 16 second = some low) :
    strtol [first, second] 16 = 16 * high + low := by
  have isFirst := isDigit_of_digitIn firstDigit
  have isSecond := isDigit_of_digitIn secondDigit
  have whole : cString [first, second] = [first, second] := by
    simp [cString, isFirst.notNul, isSecond.notNul]
  have noPrefix : skipPrefix 16 [first, second] = [first, second] := by
    rw [skipPrefix, if_neg]
    rintro ⟨_, _, letter⟩
    have notDigit : digitIn 16 second = none := by
      rcases letter with lower | upper
      · simp [digitIn, digitValue, lower]
      · simp [digitIn, digitValue, upper]
    rw [notDigit] at secondDigit
    cases secondDigit
  have number : integerAt 16 [first, second] = 16 * high + low := by
    simp [integerAt, whole, isFirst.notSpace, signedNumber,
      isFirst.notMinus, isFirst.notPlus, noPrefix, leadingNumber,
      firstDigit, secondDigit]
  have highSmall := isFirst.small
  have lowSmall := isSecond.small
  rw [strtol, number]
  omega

theorem leadingNumber_pair_lt {first second : UInt8}
    (malformed : ¬ ((digitIn 16 first).isSome ∧
      (digitIn 16 second).isSome)) :
    leadingNumber 16 0 (skipPrefix 16 [first, second]) < 16 := by
  rw [skipPrefix]
  split_ifs
  · decide
  · cases firstDigit : digitIn 16 first with
    | none =>
        simp [leadingNumber, firstDigit]
    | some high =>
        have noSecond : digitIn 16 second = none := by
          by_contra found
          apply malformed
          rw [firstDigit]
          exact ⟨rfl, Option.isSome_iff_ne_none.mpr found⟩
        have small := (isDigit_of_digitIn firstDigit).small
        simpa [leadingNumber, firstDigit, noSecond] using small

/-- Two characters that are not both digits have a value of at most one
digit. -/
theorem abs_strtol_lt {first second : UInt8}
    (malformed : ¬ ((digitIn 16 first).isSome ∧
      (digitIn 16 second).isSome)) :
    |strtol [first, second] 16| < 16 := by
  have kept : ((cString [first, second]).dropWhile isSpace).Sublist
      [first, second] :=
    (List.dropWhile_sublist _).trans (List.takeWhile_sublist _)
  have bound : |integerAt 16 [first, second]| < ((16 : Nat) : Int) := by
    unfold integerAt
    by_cases shorter :
        ((cString [first, second]).dropWhile isSpace).length ≤ 1
    · exact abs_signedNumber_lt (by decide) shorter
    · have all : (cString [first, second]).dropWhile isSpace =
          [first, second] := by
        apply kept.eq_of_length_le
        simp only [List.length_cons, List.length_nil]
        omega
      have afterSign :
          leadingNumber 16 0 (skipPrefix 16 [second]) < 16 := by
        rw [skipPrefix_of_short (by simp)]
        exact leadingNumber_lt (by decide) (by simp)
      have unsigned := leadingNumber_pair_lt malformed
      rw [all, signedNumber, abs_lt]
      split_ifs
      · omega
      · omega
      · omega
  rw [abs_lt] at bound ⊢
  rw [strtol]
  omega

end HydraRT.Lib
