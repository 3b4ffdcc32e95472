import HydraRT.Lib.CText

/-!
# Decoding of URLs

`url_decode` next to the decoder it should be: an escape is a `%` with two
hexadecimal digits, and every other `%` stands for itself.
-/

namespace HydraRT.Inference

open HydraRT.Lib

/-- A `%` with at least two characters after it goes to `strtol` together with
these two, whatever they are. -/
def urlDecode : List UInt8 → List UInt8
  | [] => []
  | char :: rest =>
      if char = '+'.toUInt8 then ' '.toUInt8 :: urlDecode rest
      else if char = '%'.toUInt8 then
        match rest with
        | first :: second :: more =>
            UInt8.ofInt (strtol [first, second] 16) :: urlDecode more
        | truncated => char :: urlDecode truncated
      else char :: urlDecode rest

/-- The decoder that copies a `%` without two hexadecimal digits. -/
def referenceDecode : List UInt8 → List UInt8
  | [] => []
  | char :: rest =>
      if char = '+'.toUInt8 then ' '.toUInt8 :: referenceDecode rest
      else if char = '%'.toUInt8 then
        match rest with
        | first :: second :: more =>
            match digitIn 16 first, digitIn 16 second with
            | some high, some low =>
                UInt8.ofNat (16 * high + low) :: referenceDecode more
            | _, _ => char :: referenceDecode (first :: second :: more)
        | truncated => char :: referenceDecode truncated
      else char :: referenceDecode rest

def isHexDigit (char : UInt8) : Bool :=
  (digitIn 16 char).isSome

/-- Every `%` with at least two characters after it has two hexadecimal digits
after it. -/
def WellEscaped (text : List UInt8) : Prop :=
  ∀ first second more, '%'.toUInt8 :: first :: second :: more <:+ text →
    isHexDigit first = true ∧ isHexDigit second = true

theorem WellEscaped.of_suffix {text suffix : List UInt8}
    (wellEscaped : WellEscaped text) (isSuffix : suffix <:+ text) :
    WellEscaped suffix := by
  intro first second more escape
  exact wellEscaped first second more (escape.trans isSuffix)

theorem wellEscaped_cons {char : UInt8} {rest : List UInt8}
    (plain : char ≠ '%'.toUInt8) :
    WellEscaped (char :: rest) ↔ WellEscaped rest := by
  constructor
  · intro wellEscaped
    exact wellEscaped.of_suffix (List.suffix_cons char rest)
  · intro wellEscaped first second more escape
    rcases List.suffix_cons_iff.mp escape with whole | later
    · exact absurd (List.cons.inj whole).1.symm plain
    · exact wellEscaped first second more later

/-- The digits of an escape are not the start of another one. -/
theorem wellEscaped_escape {first second : UInt8} {more : List UInt8} :
    WellEscaped ('%'.toUInt8 :: first :: second :: more) ↔
      (isHexDigit first = true ∧ isHexDigit second = true) ∧
        WellEscaped more := by
  have percent : ∀ {char}, isHexDigit char = true → char ≠ '%'.toUInt8 := by
    rintro char digit rfl
    exact absurd digit (by decide)
  constructor
  · intro wellEscaped
    refine ⟨wellEscaped first second more List.suffix_rfl, ?_⟩
    exact wellEscaped.of_suffix ⟨['%'.toUInt8, first, second], rfl⟩
  · rintro ⟨⟨firstDigit, secondDigit⟩, wellEscaped⟩ one two others escape
    rcases List.suffix_cons_iff.mp escape with whole | later
    · cases whole
      exact ⟨firstDigit, secondDigit⟩
    · rw [← wellEscaped_cons (percent secondDigit),
        ← wellEscaped_cons (percent firstDigit)] at wellEscaped
      exact wellEscaped one two others later

theorem length_le_one_of_not_pair {text : List UInt8}
    (notPair : ∀ first second more, text = first :: second :: more → False) :
    text.length ≤ 1 := by
  cases text with
  | nil =>
      simp
  | cons first rest =>
      cases rest with
      | nil =>
          simp
      | cons second more =>
          exact (notPair first second more rfl).elim

theorem wellEscaped_of_short {text : List UInt8} (short : text.length ≤ 2) :
    WellEscaped text := by
  intro first second more escape
  have length := escape.length_le
  simp only [List.length_cons] at length
  omega

/-- No value of at most one digit is the code of `%`. -/
theorem ofInt_ne_percent {value : Int} (small : |value| < 16) :
    UInt8.ofInt value ≠ '%'.toUInt8 := by
  intro same
  have code : (value % 2 ^ 8).toNat % 2 ^ 8 = 37 := by
    rw [← UInt8.toNat_ofNat', ← UInt8.ofInt, same]
    rfl
  rw [abs_lt] at small
  omega

/-! ## One step of the two decoders -/

theorem decode_plus (rest : List UInt8) :
    urlDecode ('+'.toUInt8 :: rest) = ' '.toUInt8 :: urlDecode rest ∧
      referenceDecode ('+'.toUInt8 :: rest) =
        ' '.toUInt8 :: referenceDecode rest := by
  constructor
  · rw [urlDecode.eq_def]
    rfl
  · rw [referenceDecode.eq_def]
    rfl

theorem decode_copied {char : UInt8} {rest : List UInt8}
    (notPlus : char ≠ '+'.toUInt8) (notPercent : char ≠ '%'.toUInt8) :
    urlDecode (char :: rest) = char :: urlDecode rest ∧
      referenceDecode (char :: rest) = char :: referenceDecode rest := by
  constructor
  · rw [urlDecode.eq_def]
    simp only [if_neg notPlus, if_neg notPercent]
  · rw [referenceDecode.eq_def]
    simp only [if_neg notPlus, if_neg notPercent]

theorem decode_truncated {rest : List UInt8} (short : rest.length ≤ 1) :
    urlDecode ('%'.toUInt8 :: rest) = '%'.toUInt8 :: urlDecode rest ∧
      referenceDecode ('%'.toUInt8 :: rest) =
        '%'.toUInt8 :: referenceDecode rest := by
  cases rest with
  | nil =>
      decide
  | cons only others =>
      obtain rfl : others = [] := by
        apply List.eq_nil_of_length_eq_zero
        simpa using short
      constructor
      · rw [urlDecode.eq_def]
        rfl
      · rw [referenceDecode.eq_def]
        rfl

theorem urlDecode_escape (first second : UInt8) (more : List UInt8) :
    urlDecode ('%'.toUInt8 :: first :: second :: more) =
      UInt8.ofInt (strtol [first, second] 16) :: urlDecode more := by
  rw [urlDecode.eq_def]
  rfl

/-- On two hexadecimal digits `strtol` and the reference agree. -/
theorem decode_escape_of_hex {first second : UInt8}
    (firstDigit : isHexDigit first = true)
    (secondDigit : isHexDigit second = true) (more : List UInt8) :
    ∃ byte, urlDecode ('%'.toUInt8 :: first :: second :: more) =
        byte :: urlDecode more ∧
      referenceDecode ('%'.toUInt8 :: first :: second :: more) =
        byte :: referenceDecode more := by
  obtain ⟨high, foundHigh⟩ := Option.isSome_iff_exists.mp firstDigit
  obtain ⟨low, foundLow⟩ := Option.isSome_iff_exists.mp secondDigit
  refine ⟨UInt8.ofInt (strtol [first, second] 16),
    urlDecode_escape first second more, ?_⟩
  have highSmall := (isDigit_of_digitIn foundHigh).small
  have lowSmall := (isDigit_of_digitIn foundLow).small
  have byte : UInt8.ofNat (16 * high + low) =
      UInt8.ofInt (strtol [first, second] 16) := by
    rw [strtol_hex foundHigh foundLow, UInt8.ofInt]
    congr 1
    omega
  rw [referenceDecode.eq_def, ← byte]
  simp only [foundHigh, foundLow]
  rfl

/-- On any other two characters they do not. -/
theorem decode_escape_ne {first second : UInt8}
    (malformed : ¬ (isHexDigit first = true ∧ isHexDigit second = true))
    (more : List UInt8) :
    urlDecode ('%'.toUInt8 :: first :: second :: more) ≠
      referenceDecode ('%'.toUInt8 :: first :: second :: more) := by
  have copied :
      referenceDecode ('%'.toUInt8 :: first :: second :: more) =
        '%'.toUInt8 :: referenceDecode (first :: second :: more) := by
    rw [referenceDecode.eq_def]
    cases foundHigh : digitIn 16 first with
    | none =>
        simp only [foundHigh]
        rfl
    | some high =>
        have noLow : digitIn 16 second = none := by
          by_contra found
          apply malformed
          refine ⟨?_, Option.isSome_iff_ne_none.mpr found⟩
          rw [isHexDigit, foundHigh]
          rfl
        simp only [foundHigh, noLow]
        rfl
  rw [urlDecode_escape, copied]
  intro same
  exact ofInt_ne_percent (abs_strtol_lt malformed) (List.cons.inj same).1

/-- `url_decode` decodes like the reference up to the first `%` that is
followed by two characters other than hexadecimal digits, and wrongly
there. -/
theorem urlDecode_eq_referenceDecode_iff (text : List UInt8) :
    urlDecode text = referenceDecode text ↔
      ∀ first second more, '%'.toUInt8 :: first :: second :: more <:+ text →
        isHexDigit first = true ∧ isHexDigit second = true := by
  change _ ↔ WellEscaped text
  induction text using urlDecode.induct with
  | case1 =>
      exact iff_of_true rfl (wellEscaped_of_short (by simp))
  | case2 rest inductionHypothesis =>
      rw [wellEscaped_cons (by decide), ← inductionHypothesis,
        (decode_plus rest).1, (decode_plus rest).2, List.cons_inj_right]
  | case3 first second more _ inductionHypothesis =>
      rw [wellEscaped_escape]
      by_cases digits :
          isHexDigit first = true ∧ isHexDigit second = true
      · obtain ⟨byte, decoded, expected⟩ :=
          decode_escape_of_hex digits.1 digits.2 more
        rw [decoded, expected, List.cons_inj_right, inductionHypothesis,
          and_iff_right digits]
      · exact iff_of_false (decode_escape_ne digits more)
          fun both => digits both.1
  | case4 truncated notPair _ inductionHypothesis =>
      have short := length_le_one_of_not_pair notPair
      have wholeShort : ('%'.toUInt8 :: truncated).length ≤ 2 := by
        rw [List.length_cons]
        omega
      rw [(decode_truncated short).1, (decode_truncated short).2,
        List.cons_inj_right, inductionHypothesis]
      exact iff_of_true (wellEscaped_of_short (by omega))
        (wellEscaped_of_short wholeShort)
  | case5 char rest notPlus notPercent inductionHypothesis =>
      rw [wellEscaped_cons notPercent, ← inductionHypothesis,
        (decode_copied notPlus notPercent).1,
        (decode_copied notPlus notPercent).2, List.cons_inj_right]

/-- `%zz` becomes a NUL. -/
theorem urlDecode_ne_referenceDecode :
    ¬ ∀ text : List UInt8, urlDecode text = referenceDecode text := by
  intro agree
  exact absurd (agree ['%'.toUInt8, 'z'.toUInt8, 'z'.toUInt8])
    (by decide +kernel)

end HydraRT.Inference
