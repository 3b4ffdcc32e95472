import HydraRT.Lib.LittleEndian

/-!
# Binary formats

A `Format` says how a value is written as bytes and how it is read from the
front of a byte string.  Two laws make it one format rather than two halves:
what is written is read back whatever follows it, and only what is written is
accepted.  `Fits` singles out the values that the writer does not garble.

Formats are built from integers by pairing, by changing the representation of
the value and by repetition, and the laws come with them.
-/

namespace HydraRT.Lib

structure Format (Value : Type) where
  write : Value → List UInt8
  read : List UInt8 → Option (Value × List UInt8)
  Fits : Value → Prop
  read_write : ∀ (value : Value) (rest : List UInt8), Fits value →
    read (write value ++ rest) = some (value, rest)
  eq_of_read : ∀ {bytes : List UInt8} {value : Value} {rest : List UInt8},
    read bytes = some (value, rest) →
      Fits value ∧ bytes = write value ++ rest

namespace Format

variable {Value Other : Type}

/-! ## What the laws give -/

/-- A proper beginning of a written value is not accepted. -/
theorem read_eq_none_of_prefix (format : Format Value)
    {value : Value} (fits : format.Fits value)
    {bytes : List UInt8} (isPrefix : bytes <+: format.write value)
    (proper : bytes ≠ format.write value) :
    format.read bytes = none := by
  cases accepted : format.read bytes with
  | none => rfl
  | some result =>
      obtain ⟨other, rest⟩ := result
      obtain ⟨otherFits, content⟩ := format.eq_of_read accepted
      obtain ⟨missing, whole⟩ := isPrefix
      have again : format.read (format.write value) =
          some (other, rest ++ missing) := by
        rw [← whole, content, List.append_assoc]
        exact format.read_write other _ otherFits
      have first : format.read (format.write value) = some (value, []) := by
        have readBack := format.read_write value [] fits
        rwa [List.append_nil] at readBack
      have nothingLeft : rest ++ missing = [] :=
        congrArg Prod.snd (Option.some.inj (again.symm.trans first))
      obtain ⟨_, rfl⟩ := List.append_eq_nil_iff.mp nothingLeft
      rw [List.append_nil] at whole
      exact absurd whole proper

/-! ## Integers -/

/-- An unsigned integer of `width` bytes. -/
def uint (width : Nat) : Format Nat where
  write := toBytes width
  read bytes :=
    if width ≤ bytes.length then
      some (fromBytes (bytes.take width), bytes.drop width)
    else none
  Fits value := value < 256 ^ width
  read_write value rest fits := by
    have enough : width ≤ (toBytes width value ++ rest).length := by
      simp
    rw [if_pos enough, List.take_left' (length_toBytes width value),
      List.drop_left' (length_toBytes width value), fromBytes_toBytes fits]
  eq_of_read := by
    intro bytes value rest accepted
    split at accepted
    · rename_i enough
      cases accepted
      have taken : (bytes.take width).length = width :=
        List.length_take_of_le enough
      refine ⟨?_, ?_⟩
      · have bound := fromBytes_lt (bytes.take width)
        rwa [taken] at bound
      · have written := toBytes_fromBytes (bytes.take width)
        rw [taken] at written
        rw [written, List.take_append_drop]
    · cases accepted

/-! ## Composition -/

/-- One value after another. -/
def pair (first : Format Value) (second : Format Other) :
    Format (Value × Other) where
  write value := first.write value.1 ++ second.write value.2
  read bytes :=
    (first.read bytes).bind fun result =>
      (second.read result.2).map fun later => ((result.1, later.1), later.2)
  Fits value := first.Fits value.1 ∧ second.Fits value.2
  read_write value rest fits := by
    rw [List.append_assoc, first.read_write value.1 _ fits.1]
    simp [second.read_write value.2 rest fits.2]
  eq_of_read := by
    intro bytes value rest accepted
    obtain ⟨⟨one, middle⟩, readFirst, remaining⟩ :=
      Option.bind_eq_some_iff.mp accepted
    obtain ⟨⟨other, after⟩, readSecond, result⟩ :=
      Option.map_eq_some_iff.mp remaining
    cases result
    obtain ⟨firstFits, content⟩ := first.eq_of_read readFirst
    obtain ⟨secondFits, later⟩ :
        second.Fits other ∧ middle = second.write other ++ after :=
      second.eq_of_read readSecond
    refine ⟨⟨firstFits, secondFits⟩, ?_⟩
    rw [content, later, List.append_assoc]

@[simp]
theorem write_pair (first : Format Value) (second : Format Other)
    (value : Value × Other) :
    (first.pair second).write value =
      first.write value.1 ++ second.write value.2 := rfl

/-- The same bytes for another representation.  A value fits if its own
representation does and gives the value back. -/
def convert (format : Format Value) (unpack : Other → Value)
    (pack : Value → Other)
    (unpack_pack : ∀ value, format.Fits value → unpack (pack value) = value) :
    Format Other where
  write other := format.write (unpack other)
  read bytes :=
    (format.read bytes).map fun result => (pack result.1, result.2)
  Fits other := format.Fits (unpack other) ∧ pack (unpack other) = other
  read_write other rest fits := by
    rw [format.read_write _ rest fits.1, Option.map_some, fits.2]
  eq_of_read := by
    intro bytes other rest accepted
    obtain ⟨⟨value, after⟩, readValue, result⟩ :=
      Option.map_eq_some_iff.mp accepted
    cases result
    obtain ⟨valueFits, content⟩ := format.eq_of_read readValue
    have same := unpack_pack value valueFits
    dsimp only
    rw [same]
    exact ⟨⟨valueFits, rfl⟩, content⟩

@[simp]
theorem write_convert (format : Format Value) (unpack : Other → Value)
    (pack : Value → Other)
    (unpack_pack : ∀ value, format.Fits value → unpack (pack value) = value)
    (other : Other) :
    (format.convert unpack pack unpack_pack).write other =
      format.write (unpack other) := rfl

/-- Whenever there are `width` bytes, they are read, whatever they are. -/
def ReadsAll (format : Format Value) (width : Nat) : Prop :=
  ∀ bytes, (format.read bytes).map Prod.snd =
    if width ≤ bytes.length then some (bytes.drop width) else none

theorem readsAll_uint (width : Nat) : (uint width).ReadsAll width := by
  intro bytes
  rw [uint]
  dsimp only
  split_ifs
  · rfl
  · rfl

theorem ReadsAll.pair {first : Format Value} {second : Format Other}
    {width more : Nat} (readsFirst : first.ReadsAll width)
    (readsSecond : second.ReadsAll more) :
    (first.pair second).ReadsAll (width + more) := by
  intro bytes
  have one := readsFirst bytes
  rw [Format.pair]
  dsimp only
  cases read : first.read bytes with
  | none =>
      have missing : ¬ width + more ≤ bytes.length := by
        intro enough
        rw [read, if_pos (by omega)] at one
        cases one
      rw [if_neg missing]
      rfl
  | some result =>
      have rest : result.2 = bytes.drop width := by
        rw [read] at one
        split_ifs at one
        · exact Option.some.inj one
        · cases one
      have enough : width ≤ bytes.length := by
        by_contra few
        rw [read, if_neg few] at one
        cases one
      have other := readsSecond result.2
      rw [rest, List.length_drop, List.drop_drop, ← rest] at other
      have same : more ≤ bytes.length - width ↔
          width + more ≤ bytes.length := by
        omega
      simp only [same] at other
      rw [Option.bind_some, Option.map_map]
      exact other

theorem ReadsAll.convert {format : Format Value} {width : Nat}
    (readsAll : format.ReadsAll width) (unpack : Other → Value)
    (pack : Value → Other)
    (unpack_pack : ∀ value, format.Fits value → unpack (pack value) = value) :
    (format.convert unpack pack unpack_pack).ReadsAll width := by
  intro bytes
  rw [← readsAll bytes, Format.convert]
  dsimp only
  rw [Option.map_map]
  rfl

theorem ReadsAll.isSome_read {format : Format Value} {width : Nat}
    (readsAll : format.ReadsAll width) (bytes : List UInt8) :
    (format.read bytes).isSome = decide (width ≤ bytes.length) := by
  have rest := congrArg Option.isSome (readsAll bytes)
  rw [Option.isSome_map] at rest
  rw [rest]
  split_ifs with enough
  · exact (decide_eq_true enough).symm
  · exact (decide_eq_false enough).symm

/-- A value whose format depends on one read before it. -/
def sized (size : Format Nat) (body : Nat → Format Value)
    (measure : Value → Nat)
    (measured : ∀ count value, (body count).Fits value →
      measure value = count) :
    Format Value where
  write value := size.write (measure value) ++
    (body (measure value)).write value
  read bytes :=
    (size.read bytes).bind fun result => (body result.1).read result.2
  Fits value := size.Fits (measure value) ∧
    (body (measure value)).Fits value
  read_write value rest fits := by
    rw [List.append_assoc, size.read_write _ _ fits.1]
    exact (body _).read_write value rest fits.2
  eq_of_read := by
    intro bytes value rest accepted
    obtain ⟨⟨count, middle⟩, readSize, readBody⟩ :=
      Option.bind_eq_some_iff.mp accepted
    obtain ⟨sizeFits, content⟩ := size.eq_of_read readSize
    obtain ⟨bodyFits, later⟩ : (body count).Fits value ∧
        middle = (body count).write value ++ rest :=
      (body count).eq_of_read readBody
    have same := measured count value bodyFits
    rw [same]
    refine ⟨⟨sizeFits, bodyFits⟩, ?_⟩
    rw [content, later, List.append_assoc]

/-- Exactly `count` bytes. -/
def raw (count : Nat) : Format (List UInt8) where
  write block := block
  read bytes :=
    if count ≤ bytes.length then some (bytes.take count, bytes.drop count)
    else none
  Fits block := block.length = count
  read_write block rest fits := by
    have enough : count ≤ (block ++ rest).length := by
      rw [List.length_append]
      omega
    rw [if_pos enough, List.take_left' fits, List.drop_left' fits]
  eq_of_read := by
    intro bytes block rest accepted
    split at accepted
    · rename_i enough
      cases accepted
      exact ⟨List.length_take_of_le enough,
        (List.take_append_drop count bytes).symm⟩
    · cases accepted

/-- Read one value after another. -/
def readMany (format : Format Value) :
    Nat → List UInt8 → Option (List Value × List UInt8)
  | 0, bytes => some ([], bytes)
  | count + 1, bytes =>
      (format.read bytes).bind fun result =>
        (readMany format count result.2).map fun later =>
          (result.1 :: later.1, later.2)

/-- Exactly `count` values. -/
def many (format : Format Value) (count : Nat) : Format (List Value) where
  write values := values.flatMap format.write
  read := format.readMany count
  Fits values := values.length = count ∧
    ∀ value ∈ values, format.Fits value
  read_write := by
    induction count with
    | zero =>
        intro values rest fits
        obtain rfl := List.eq_nil_of_length_eq_zero fits.1
        rfl
    | succ count inductionHypothesis =>
        intro values rest fits
        cases values with
        | nil => cases fits.1
        | cons first others =>
            obtain ⟨firstFits, othersFit⟩ := List.forall_mem_cons.mp fits.2
            have later := inductionHypothesis others rest
              ⟨Nat.succ.inj fits.1, othersFit⟩
            rw [List.flatMap_cons, List.append_assoc, readMany,
              format.read_write first _ firstFits]
            simp [later]
  eq_of_read := by
    induction count with
    | zero =>
        intro bytes values rest accepted
        cases accepted
        exact ⟨⟨rfl, List.forall_mem_nil _⟩, rfl⟩
    | succ count inductionHypothesis =>
        intro bytes values rest accepted
        rw [readMany] at accepted
        obtain ⟨⟨first, middle⟩, readFirst, remaining⟩ :=
          Option.bind_eq_some_iff.mp accepted
        obtain ⟨⟨others, after⟩, readOthers, result⟩ :=
          Option.map_eq_some_iff.mp remaining
        cases result
        obtain ⟨firstFits, content⟩ := format.eq_of_read readFirst
        obtain ⟨⟨length, othersFit⟩, later⟩ :
            (others.length = count ∧ ∀ value ∈ others, format.Fits value) ∧
              middle = others.flatMap format.write ++ after :=
          inductionHypothesis readOthers
        refine ⟨⟨congrArg Nat.succ length,
          List.forall_mem_cons.mpr ⟨firstFits, othersFit⟩⟩, ?_⟩
        rw [content, later, List.flatMap_cons, List.append_assoc]

/-- A list after the number of its elements. -/
def counted (size : Format Nat) (format : Format Value) :
    Format (List Value) :=
  size.sized format.many List.length fun _ _ fits => fits.1

end Format

end HydraRT.Lib
