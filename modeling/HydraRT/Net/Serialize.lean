import HydraRT.Lib.Format

/-!
# ByteWriter and ByteReader

The explicit little-endian encoding every message uses.  A reader checks each
read against the end of its buffer and keeps a failure flag that never clears.
-/

namespace HydraRT.Net

open HydraRT.Lib

abbrev Bytes := List UInt8

structure ByteWriter where
  buf : Bytes := []
  deriving DecidableEq, Repr

namespace ByteWriter

def bytes (writer : ByteWriter) (block : Bytes) : ByteWriter :=
  ⟨writer.buf ++ block⟩

def u8 (writer : ByteWriter) (value : UInt8) : ByteWriter :=
  writer.bytes [value]

def u16 (writer : ByteWriter) (value : UInt16) : ByteWriter :=
  writer.bytes (toBytes 2 value.toNat)

def u32 (writer : ByteWriter) (value : UInt32) : ByteWriter :=
  writer.bytes (toBytes 4 value.toNat)

def u64 (writer : ByteWriter) (value : UInt64) : ByteWriter :=
  writer.bytes (toBytes 8 value.toNat)

/-- The size is cut to 32 bits before it is written. -/
def blob (writer : ByteWriter) (block : Bytes) : ByteWriter :=
  (writer.u32 (UInt32.ofNat block.length)).bytes block

/-- A `std::string` is a block of bytes. -/
def str (writer : ByteWriter) (text : Bytes) : ByteWriter :=
  writer.blob text

end ByteWriter

structure ByteReader where
  data : Bytes
  pos : Nat := 0
  ok : Bool := true
  deriving DecidableEq, Repr

namespace ByteReader

def need (reader : ByteReader) (count : Nat) : Bool :=
  reader.ok && decide (reader.pos + count ≤ reader.data.length)

/-- The two outcomes of a read of `count` bytes: the bytes and an advanced
reader, or nothing and a failed reader. -/
def take (reader : ByteReader) (count : Nat) : Option Bytes × ByteReader :=
  if reader.need count then
    (some ((reader.data.drop reader.pos).take count),
      { reader with pos := reader.pos + count })
  else (none, { reader with ok := false })

/-- An unsigned integer of `width` bytes, zero when the read fails. -/
def uint (reader : ByteReader) (width : Nat) : Nat × ByteReader :=
  match reader.take width with
  | (some bytes, following) => (fromBytes bytes, following)
  | (none, following) => (0, following)

def u8 (reader : ByteReader) : UInt8 × ByteReader :=
  ((UInt8.ofNat (reader.uint 1).1), (reader.uint 1).2)

def u16 (reader : ByteReader) : UInt16 × ByteReader :=
  ((UInt16.ofNat (reader.uint 2).1), (reader.uint 2).2)

def u32 (reader : ByteReader) : UInt32 × ByteReader :=
  ((UInt32.ofNat (reader.uint 4).1), (reader.uint 4).2)

def u64 (reader : ByteReader) : UInt64 × ByteReader :=
  ((UInt64.ofNat (reader.uint 8).1), (reader.uint 8).2)

/-- The length is read first; a block that is not all there is empty. -/
def blob (reader : ByteReader) : Bytes × ByteReader :=
  match reader.u32.2.take reader.u32.1.toNat with
  | (some block, following) => (block, following)
  | (none, following) => ([], following)

def str (reader : ByteReader) : Bytes × ByteReader :=
  reader.blob

/-- A reader standing right before an encoded integer. -/
theorem uint_of_append
    {reader : ByteReader} (before after : Bytes) {width value : Nat}
    (isOk : reader.ok = true)
    (content : reader.data = before ++ toBytes width value ++ after)
    (position : reader.pos = before.length)
    (fits : value < 256 ^ width) :
    reader.uint width =
      (value, { reader with pos := reader.pos + width }) := by
  have enough : reader.need width = true := by
    simp [need, isOk, content, position]
  have found : (reader.data.drop reader.pos).take width =
      toBytes width value := by
    rw [content, position, List.append_assoc, List.drop_left]
    exact List.take_left' (length_toBytes width value)
  simp only [uint, take, enough, if_true, found]
  rw [fromBytes_toBytes fits]

/-! ## Reading formats -/

/-- What has not been read. -/
def rest (reader : ByteReader) : Bytes :=
  reader.data.drop reader.pos

def Valid (reader : ByteReader) : Prop :=
  reader.pos ≤ reader.data.length

/-- The call succeeds with `value` and leaves `rest`. -/
structure Reads {Value : Type} (result : Value × ByteReader) (value : Value)
    (rest : Bytes) : Prop where
  value : result.1 = value
  ok : result.2.ok = true
  valid : result.2.Valid
  rest : result.2.rest = rest

/-- The call reads values of the format and fails where the format does. -/
structure Follows {Value : Type} (read : ByteReader → Value × ByteReader)
    (format : Format Value) : Prop where
  sticky : ∀ reader, reader.ok = false → (read reader).2.ok = false
  accepts : ∀ reader, reader.ok = true → reader.Valid →
    ∀ value rest, format.read reader.rest = some (value, rest) →
      Reads (read reader) value rest
  rejects : ∀ reader, reader.ok = true → reader.Valid →
    format.read reader.rest = none → (read reader).2.ok = false

theorem need_eq {reader : ByteReader} (isOk : reader.ok = true)
    (valid : reader.Valid) (count : Nat) :
    reader.need count = decide (count ≤ reader.rest.length) := by
  unfold Valid at valid
  simp only [need, isOk, Bool.true_and, rest, List.length_drop]
  congr 1
  simp only [eq_iff_iff]
  omega

/-- Reading a block that is there. -/
theorem take_of_le {reader : ByteReader} (isOk : reader.ok = true)
    (valid : reader.Valid) {count : Nat}
    (enough : count ≤ reader.rest.length) :
    ∃ following, reader.take count =
        (some (reader.rest.take count), following) ∧
      following.ok = true ∧ following.Valid ∧
        following.rest = reader.rest.drop count := by
  have needed : reader.need count = true := by
    rw [need_eq isOk valid]
    exact decide_eq_true enough
  refine ⟨{ reader with pos := reader.pos + count }, ?_, isOk, ?_, ?_⟩
  · rw [take, if_pos needed]
    rfl
  · simp only [rest, List.length_drop] at enough
    simp only [Valid] at valid ⊢
    omega
  · simp only [rest, List.drop_drop]

/-- Reading a block that is not there. -/
theorem take_of_lt {reader : ByteReader} (isOk : reader.ok = true)
    (valid : reader.Valid) {count : Nat}
    (missing : reader.rest.length < count) :
    reader.take count = (none, { reader with ok := false }) := by
  have notNeeded : ¬ reader.need count = true := by
    rw [need_eq isOk valid]
    simpa using missing
  rw [take, if_neg notNeeded]

theorem take_of_failed {reader : ByteReader} (failed : reader.ok = false)
    (count : Nat) :
    reader.take count = (none, { reader with ok := false }) := by
  rw [take, if_neg]
  simp [need, failed]

theorem uint_follows (width : Nat) :
    Follows (·.uint width) (Format.uint width) where
  sticky reader failed := by
    simp only [uint, take_of_failed failed]
  accepts := by
    intro reader isOk valid value rest accepted
    simp only [Format.uint] at accepted
    split at accepted
    · rename_i enough
      cases accepted
      obtain ⟨following, taken, stillOk, stillValid, remaining⟩ :=
        take_of_le isOk valid enough
      simp only [uint, taken]
      exact ⟨rfl, stillOk, stillValid, remaining⟩
    · cases accepted
  rejects := by
    intro reader isOk valid rejected
    simp only [Format.uint] at rejected
    split at rejected
    · cases rejected
    · rename_i missing
      simp only [uint, take_of_lt isOk valid (Nat.lt_of_not_le missing)]

namespace Follows

variable {Value Other : Type} {read : ByteReader → Value × ByteReader}
  {readOther : ByteReader → Other × ByteReader}
  {format : Format Value} {other : Format Other}

/-- Two reads in a row. -/
theorem pair (follows : Follows read format)
    (otherFollows : Follows readOther other) :
    Follows (fun reader =>
        (((read reader).1, (readOther (read reader).2).1),
          (readOther (read reader).2).2))
      (format.pair other) where
  sticky reader failed :=
    otherFollows.sticky _ (follows.sticky reader failed)
  accepts := by
    intro reader isOk valid value rest accepted
    obtain ⟨⟨first, middle⟩, readFirst, remaining⟩ :=
      Option.bind_eq_some_iff.mp accepted
    obtain ⟨⟨second, after⟩, readSecond, result⟩ :=
      Option.map_eq_some_iff.mp remaining
    cases result
    have reads := follows.accepts reader isOk valid first middle readFirst
    rw [← reads.rest] at readSecond
    have readsOther := otherFollows.accepts _ reads.ok reads.valid second
      after readSecond
    refine ⟨?_, readsOther.ok, readsOther.valid, readsOther.rest⟩
    exact Prod.ext reads.value readsOther.value
  rejects := by
    intro reader isOk valid rejected
    cases readFirst : format.read reader.rest with
    | none =>
        exact otherFollows.sticky _
          (follows.rejects reader isOk valid readFirst)
    | some result =>
        obtain ⟨first, middle⟩ := result
        have reads := follows.accepts reader isOk valid first middle
          readFirst
        apply otherFollows.rejects _ reads.ok reads.valid
        rw [reads.rest]
        simpa [Format.pair, readFirst] using rejected

/-- The value in another representation. -/
theorem convert (follows : Follows read format) (unpack : Other → Value)
    (pack : Value → Other)
    (unpack_pack : ∀ value, format.Fits value →
      unpack (pack value) = value) :
    Follows (fun reader => (pack (read reader).1, (read reader).2))
      (format.convert unpack pack unpack_pack) where
  sticky := follows.sticky
  accepts := by
    intro reader isOk valid value rest accepted
    obtain ⟨⟨inner, after⟩, readInner, result⟩ :=
      Option.map_eq_some_iff.mp accepted
    cases result
    have reads := follows.accepts reader isOk valid inner after readInner
    exact ⟨congrArg pack reads.value, reads.ok, reads.valid, reads.rest⟩
  rejects := by
    intro reader isOk valid rejected
    apply follows.rejects reader isOk valid
    simpa [Format.convert] using rejected

/-- The same read written in another way. -/
theorem of_eq {same : ByteReader → Value × ByteReader}
    (follows : Follows read format) (equal : same = read) :
    Follows same format := by
  rw [equal]
  exact follows

/-- A read that depends on the size read before it. -/
theorem sized {size : Format Nat} {body : Nat → Format Value}
    {readSize : ByteReader → Nat × ByteReader}
    {readBody : Nat → ByteReader → Value × ByteReader}
    (sizeFollows : Follows readSize size)
    (bodyFollows : ∀ count, Follows (readBody count) (body count))
    {measure : Value → Nat}
    (measured : ∀ count value, (body count).Fits value →
      measure value = count) :
    Follows (fun reader =>
        readBody (readSize reader).1 (readSize reader).2)
      (size.sized body measure measured) where
  sticky reader failed :=
    (bodyFollows _).sticky _ (sizeFollows.sticky reader failed)
  accepts := by
    intro reader isOk valid value rest accepted
    obtain ⟨⟨count, middle⟩, sizeRead, bodyRead⟩ :=
      Option.bind_eq_some_iff.mp accepted
    have reads := sizeFollows.accepts reader isOk valid count middle sizeRead
    dsimp only at bodyRead
    rw [← reads.rest, ← reads.value] at bodyRead
    exact (bodyFollows _).accepts _ reads.ok reads.valid value rest bodyRead
  rejects := by
    intro reader isOk valid rejected
    cases sizeRead : size.read reader.rest with
    | none =>
        exact (bodyFollows _).sticky _
          (sizeFollows.rejects reader isOk valid sizeRead)
    | some result =>
        obtain ⟨count, middle⟩ := result
        have reads := sizeFollows.accepts reader isOk valid count middle
          sizeRead
        apply (bodyFollows _).rejects _ reads.ok reads.valid
        rw [reads.rest, reads.value]
        simpa [Format.sized, sizeRead] using rejected

end Follows

/-! ## Counted lists -/

/-- The loop `for (i < count) { value = read(r); if (!r.ok()) return false;
values.push_back(value); }`: whether it ran to its end, the values pushed and
the reader after it. -/
def decodeEach {Value : Type} (read : ByteReader → Value × ByteReader) :
    Nat → ByteReader → List Value → Bool × List Value × ByteReader
  | 0, reader, values => (true, values, reader)
  | count + 1, reader, values =>
      let (value, following) := read reader
      if following.ok then
        decodeEach read count following (values ++ [value])
      else (false, values, following)

/-- The beginning of every decoder of a list: the count is read, the output
is cleared and the loop fills it.  Both failures return at once. -/
def decodeList {Value : Type} (read : ByteReader → Value × ByteReader)
    (reader : ByteReader) (prior : List Value) :
    Bool × List Value × ByteReader :=
  let (count, following) := reader.u32
  if following.ok then decodeEach read count.toNat following []
  else (false, prior, following)

section Lists

variable {Value : Type} {read : ByteReader → Value × ByteReader}
  {format : Format Value}

theorem decodeEach_succ (read : ByteReader → Value × ByteReader)
    (count : Nat) (reader : ByteReader) (values : List Value) :
    decodeEach read (count + 1) reader values =
      if (read reader).2.ok then
        decodeEach read count (read reader).2 (values ++ [(read reader).1])
      else (false, values, (read reader).2) := rfl

theorem decodeList_eq (read : ByteReader → Value × ByteReader)
    (reader : ByteReader) (prior : List Value) :
    decodeList read reader prior =
      if reader.u32.2.ok then
        decodeEach read reader.u32.1.toNat reader.u32.2 []
      else (false, prior, reader.u32.2) := rfl

theorem decodeEach_of_read (follows : Follows read format) (count : Nat)
    {reader : ByteReader} (isOk : reader.ok = true) (valid : reader.Valid)
    {values : List Value} {rest : Bytes}
    (accepted : format.readMany count reader.rest = some (values, rest))
    (decoded : List Value) :
    ∃ following, decodeEach read count reader decoded =
        (true, decoded ++ values, following) ∧
      following.ok = true ∧ following.Valid ∧ following.rest = rest := by
  induction count generalizing reader values decoded with
  | zero =>
      cases accepted
      refine ⟨reader, ?_, isOk, valid, rfl⟩
      rw [decodeEach, List.append_nil]
  | succ count inductionHypothesis =>
      rw [Format.readMany] at accepted
      obtain ⟨⟨first, middle⟩, readFirst, remaining⟩ :=
        Option.bind_eq_some_iff.mp accepted
      obtain ⟨⟨others, after⟩, readOthers, result⟩ :=
        Option.map_eq_some_iff.mp remaining
      cases result
      have reads := follows.accepts reader isOk valid first middle readFirst
      rw [← reads.rest] at readOthers
      obtain ⟨following, decodes, stillOk, stillValid, left⟩ :=
        inductionHypothesis reads.ok reads.valid readOthers
          (decoded ++ [first])
      refine ⟨following, ?_, stillOk, stillValid, left⟩
      rw [decodeEach_succ, reads.value, if_pos reads.ok, decodes,
        List.append_assoc, List.singleton_append]

theorem decodeEach_of_none (follows : Follows read format) (count : Nat)
    {reader : ByteReader} (isOk : reader.ok = true) (valid : reader.Valid)
    (rejected : format.readMany count reader.rest = none)
    (decoded : List Value) :
    (decodeEach read count reader decoded).1 = false := by
  induction count generalizing reader decoded with
  | zero =>
      cases rejected
  | succ count inductionHypothesis =>
      rw [Format.readMany] at rejected
      rw [decodeEach_succ]
      cases readFirst : format.read reader.rest with
      | none =>
          have failed := follows.rejects reader isOk valid readFirst
          rw [if_neg (by simp [failed])]
      | some result =>
          obtain ⟨first, middle⟩ := result
          have reads := follows.accepts reader isOk valid first middle
            readFirst
          rw [if_pos reads.ok]
          apply inductionHypothesis reads.ok reads.valid
          rw [reads.rest]
          simpa [readFirst] using rejected

end Lists

end ByteReader

/-! ## The formats of the primitive calls -/

namespace Formats

def u8 : Format UInt8 :=
  (Format.uint 1).convert UInt8.toNat UInt8.ofNat
    fun _ small => UInt8.toNat_ofNat_of_lt small

def u16 : Format UInt16 :=
  (Format.uint 2).convert UInt16.toNat UInt16.ofNat
    fun _ small => UInt16.toNat_ofNat_of_lt small

def u32 : Format UInt32 :=
  (Format.uint 4).convert UInt32.toNat UInt32.ofNat
    fun _ small => UInt32.toNat_ofNat_of_lt small

def u64 : Format UInt64 :=
  (Format.uint 8).convert UInt64.toNat UInt64.ofNat
    fun _ small => UInt64.toNat_ofNat_of_lt small

/-- A block after its length. -/
def blob : Format Bytes :=
  (Format.uint 4).sized Format.raw List.length fun _ _ fits => fits

@[simp]
theorem u8_fits (value : UInt8) : u8.Fits value :=
  ⟨value.toNat_lt, UInt8.ofNat_toNat⟩

@[simp]
theorem u16_fits (value : UInt16) : u16.Fits value :=
  ⟨value.toNat_lt, UInt16.ofNat_toNat⟩

@[simp]
theorem u32_fits (value : UInt32) : u32.Fits value :=
  ⟨value.toNat_lt, UInt32.ofNat_toNat⟩

@[simp]
theorem u64_fits (value : UInt64) : u64.Fits value :=
  ⟨value.toNat_lt, UInt64.ofNat_toNat⟩

@[simp]
theorem blob_fits (block : Bytes) :
    blob.Fits block ↔ block.length < 2 ^ 32 := by
  have power : (256 : Nat) ^ 4 = 2 ^ 32 := by decide
  constructor
  · intro fits
    rw [← power]
    exact fits.1
  · intro small
    rw [← power] at small
    exact ⟨small, rfl⟩

/-- The size that the writer cuts to 32 bits is written as it is. -/
theorem toBytes_toNat_ofNat (value : Nat) :
    toBytes 4 (UInt32.ofNat value).toNat = toBytes 4 value := by
  rw [UInt32.toNat_ofNat']
  exact toBytes_mod 4 value

theorem u8_follows : ByteReader.Follows ByteReader.u8 u8 :=
  (ByteReader.uint_follows 1).convert UInt8.toNat UInt8.ofNat _

theorem u16_follows : ByteReader.Follows ByteReader.u16 u16 :=
  (ByteReader.uint_follows 2).convert UInt16.toNat UInt16.ofNat _

theorem u32_follows : ByteReader.Follows ByteReader.u32 u32 :=
  (ByteReader.uint_follows 4).convert UInt32.toNat UInt32.ofNat _

theorem u64_follows : ByteReader.Follows ByteReader.u64 u64 :=
  (ByteReader.uint_follows 8).convert UInt64.toNat UInt64.ofNat _

/-- A size as the decoders use it: read as 32 bits, used as a number. -/
theorem size_follows :
    ByteReader.Follows
      (fun reader => (reader.u32.1.toNat, reader.u32.2))
      (Format.uint 4) where
  sticky := u32_follows.sticky
  accepts := by
    intro reader isOk valid value rest accepted
    obtain ⟨small, _⟩ := (Format.uint 4).eq_of_read accepted
    have reads := (ByteReader.uint_follows 4).accepts reader isOk valid value
      rest accepted
    refine ⟨?_, reads.ok, reads.valid, reads.rest⟩
    change (UInt32.ofNat (reader.uint 4).1).toNat = value
    rw [reads.value]
    exact UInt32.toNat_ofNat_of_lt small
  rejects := (ByteReader.uint_follows 4).rejects

theorem take_follows (count : Nat) :
    ByteReader.Follows
      (fun reader => (((reader.take count).1).getD [], (reader.take count).2))
      (Format.raw count) where
  sticky reader failed := by
    simp only [ByteReader.take_of_failed failed]
  accepts := by
    intro reader isOk valid value rest accepted
    simp only [Format.raw] at accepted
    split at accepted
    · rename_i enough
      cases accepted
      obtain ⟨following, taken, stillOk, stillValid, remaining⟩ :=
        ByteReader.take_of_le isOk valid enough
      simp only [taken]
      exact ⟨rfl, stillOk, stillValid, remaining⟩
    · cases accepted
  rejects := by
    intro reader isOk valid rejected
    simp only [Format.raw] at rejected
    split at rejected
    · cases rejected
    · rename_i missing
      simp only [ByteReader.take_of_lt isOk valid (Nat.lt_of_not_le missing)]

theorem blob_follows : ByteReader.Follows ByteReader.blob blob := by
  have same : ByteReader.blob = fun reader =>
      (((reader.u32.2.take reader.u32.1.toNat).1).getD [],
        (reader.u32.2.take reader.u32.1.toNat).2) := by
    funext reader
    unfold ByteReader.blob
    split
    · rename_i taken
      rw [taken]
      rfl
    · rename_i missing
      rw [missing]
      rfl
  rw [same]
  exact size_follows.sized take_follows _

end Formats

end HydraRT.Net
