import HydraRT.Lib.CText

/-!
# Decimal numbers

What `<<` writes of a number, and that the conversions of C read it back,
whatever follows the digits.
-/

namespace HydraRT.Lib

/-- What `<<` writes of an unsigned number. -/
def decimal (number : Nat) : List UInt8 :=
  ascii (toString number)

/-- A minus sign is applied in the unsigned type, and numbers out of range
become `ULLONG_MAX`. -/
def strtoull (text : List UInt8) (base : Nat) : Nat :=
  if (integerAt base text).natAbs < 2 ^ 64 then
    (integerAt base text % 2 ^ 64).toNat
  else 2 ^ 64 - 1

/-- No digit at the front. -/
def Stops (text : List UInt8) : Prop :=
  ∀ char ∈ text.head?, digitIn 10 char = none

theorem stops_nil : Stops [] := by
  intro char isFirst
  cases isFirst

theorem stops_cons {char : UInt8} (notDigit : digitIn 10 char = none)
    (rest : List UInt8) : Stops (char :: rest) := by
  intro first isFirst
  obtain rfl := Option.some.inj isFirst
  exact notDigit

/-! ## Digits -/

theorem digitIn_toUInt8 {char : Char} (isDigit : char.isDigit = true) :
    digitIn 10 char.toUInt8 = some (char.toNat - '0'.toNat) := by
  obtain ⟨low, high⟩ : 48 ≤ char.toNat ∧ char.toNat ≤ 57 := by
    simpa [Char.isDigit, UInt32.le_iff_toNat_le] using isDigit
  have value : char.toUInt8.toNat = char.toNat := by
    change char.toNat % 256 = char.toNat
    omega
  have zero : '0'.toNat = 48 := rfl
  rw [digitIn, digitValue, value, if_pos ⟨low, high⟩, zero]
  simp only [Option.filter]
  rw [if_pos (decide_eq_true (by omega))]

/-- The digits at the front of a text are all read, whatever comes after
them. -/
theorem leadingNumber_digits {digits : List Char}
    (areDigits : ∀ char ∈ digits, char.isDigit = true) (value : Nat)
    {rest : List UInt8} (stops : Stops rest) :
    leadingNumber 10 value (digits.map Char.toUInt8 ++ rest) =
      Nat.ofDigitChars 10 digits value := by
  induction digits generalizing value with
  | nil =>
      rw [List.map_nil, List.nil_append, Nat.ofDigitChars_nil]
      cases rest with
      | nil => rfl
      | cons char rest => rw [leadingNumber, stops char rfl]
  | cons digit digits inductionHypothesis =>
      obtain ⟨isDigit, others⟩ := List.forall_mem_cons.mp areDigits
      rw [List.map_cons, List.cons_append, leadingNumber,
        digitIn_toUInt8 isDigit, Nat.ofDigitChars_cons]
      exact inductionHypothesis others _

theorem decimal_eq (number : Nat) :
    decimal number = (Nat.toDigits 10 number).map Char.toUInt8 := by
  rw [decimal, ascii, Nat.toString_eq_ofList_toDigits, String.toList_ofList]

theorem isDigit_of_mem_decimal {number : Nat} {char : UInt8}
    (member : char ∈ decimal number) :
    ∃ digit, IsDigit 10 char digit := by
  rw [decimal_eq] at member
  obtain ⟨source, inside, rfl⟩ := List.mem_map.mp member
  have isDigit := Nat.isDigit_of_mem_toDigits (by decide) (by decide) inside
  exact ⟨_, isDigit_of_digitIn (digitIn_toUInt8 isDigit)⟩

theorem decimal_ne_nil (number : Nat) : decimal number ≠ [] := by
  rw [decimal_eq]
  simp [Nat.toDigits_ne_nil]

theorem leadingNumber_decimal (number : Nat) {rest : List UInt8}
    (stops : Stops rest) :
    leadingNumber 10 0 (decimal number ++ rest) = number := by
  rw [decimal_eq, leadingNumber_digits _ 0 stops,
    Nat.ofDigitChars_ten_toDigits]
  intro char member
  exact Nat.isDigit_of_mem_toDigits (by decide) (by decide) member

theorem decimal_injective : Function.Injective decimal := by
  intro first second same
  have number := leadingNumber_decimal first stops_nil
  rw [same, leadingNumber_decimal second stops_nil] at number
  exact number.symm

theorem notMem_decimal {char : UInt8} (notDigit : digitIn 10 char = none)
    (number : Nat) : char ∉ decimal number := by
  rw [decimal_eq]
  intro member
  obtain ⟨source, inside, rfl⟩ := List.mem_map.mp member
  have isDigit := Nat.isDigit_of_mem_toDigits (by decide) (by decide) inside
  rw [digitIn_toUInt8 isDigit] at notDigit
  cases notDigit

/-! ## Conversions -/

theorem cString_append {first rest : List UInt8} (noNul : 0 ∉ first) :
    cString (first ++ rest) = first ++ cString rest := by
  rw [cString, List.takeWhile_append_of_pos]
  · rfl
  · intro char member
    have notNul : char ≠ 0 := fun isNul => noNul (isNul ▸ member)
    simpa using notNul

theorem Stops.cString {text : List UInt8} (stops : Stops text) :
    Stops (cString text) := by
  intro char isFirst
  cases text with
  | nil => cases isFirst
  | cons first rest =>
      rw [Lib.cString, List.takeWhile_cons] at isFirst
      split at isFirst
      · exact stops char isFirst
      · cases isFirst

/-- Only base 16 has a prefix. -/
theorem skipPrefix_of_ne {base : Nat} (other : base ≠ 16)
    (text : List UInt8) : skipPrefix base text = text := by
  match text with
  | [] => rfl
  | [_] => rfl
  | first :: second :: rest =>
      rw [skipPrefix, if_neg fun both => other both.1]

/-- The number after white space. -/
theorem integerAt_decimal (number : Nat) {spaces rest : List UInt8}
    (areSpaces : ∀ char ∈ spaces, isSpace char = true) (stops : Stops rest) :
    integerAt 10 (spaces ++ (decimal number ++ rest)) = number := by
  have noNul : (0 : UInt8) ∉ decimal number := by
    intro member
    obtain ⟨_, isDigit⟩ := isDigit_of_mem_decimal member
    exact isDigit.notNul rfl
  have spacesNoNul : (0 : UInt8) ∉ spaces := by
    intro member
    exact absurd (areSpaces 0 member) (by decide)
  rw [integerAt, cString_append spacesNoNul, cString_append noNul,
    List.dropWhile_append_of_pos areSpaces]
  cases digits : decimal number with
  | nil => exact absurd digits (decimal_ne_nil number)
  | cons first others =>
      obtain ⟨_, isDigit⟩ := isDigit_of_mem_decimal
        (digits ▸ List.mem_cons_self : first ∈ decimal number)
      have whole := leadingNumber_decimal number stops.cString
      rw [digits, List.cons_append] at whole
      rw [List.cons_append,
        List.dropWhile_cons_of_neg (by simp [isDigit.notSpace]),
        signedNumber.eq_2, if_neg isDigit.notMinus, if_neg isDigit.notPlus,
        skipPrefix_of_ne (by decide), whole]

end HydraRT.Lib
