import HydraRT.Net.Serialize

/-!
# ByteReader access by access

`ByteReader` with its 64-bit `pos_` and `size_`, one byte of the buffer at a
time.  A log keeps every addition to the position, every index the reader
accesses and every position it moves to.  It refines the reader over natural
numbers, which is where the decoded values are compared with the formats.
-/

namespace HydraRT.Net.Machine

open HydraRT.Lib

/-- What a reader can stand on: no object is larger than
`std::vector::max_size`. -/
structure Buffer where
  bytes : Bytes
  small : bytes.length < 2 ^ 63

inductive Event where
  /-- `data_[index]`. -/
  | access (index : UInt64)
  /-- `pos_ + count`. -/
  | sum (pos count : UInt64)
  /-- `pos_` is now `pos`. -/
  | moved (pos : UInt64)
  deriving DecidableEq, Repr

structure ByteReader where
  data : Buffer
  size : UInt64
  pos : UInt64 := 0
  ok : Bool := true
  log : List Event := []

namespace ByteReader

/-- `ByteReader(v)`. -/
def ofBuffer (data : Buffer) : ByteReader where
  data := data
  size := UInt64.ofNat data.bytes.length

def remaining (reader : ByteReader) : UInt64 :=
  if reader.ok then reader.size - reader.pos else 0

/-- `pos_ + count`. -/
def sum (reader : ByteReader) (count : UInt64) : UInt64 × ByteReader :=
  (reader.pos + count,
    { reader with log := reader.log ++ [.sum reader.pos count] })

def need (reader : ByteReader) (count : UInt64) : Bool × ByteReader :=
  if !reader.ok then (false, { reader with ok := false })
  else
    let (stop, reader) := reader.sum count
    if stop > reader.size then (false, { reader with ok := false })
    else (true, reader)

/-- `data_[pos_ + index]`. -/
def byteAt (reader : ByteReader) (index : UInt64) : UInt8 × ByteReader :=
  let (place, reader) := reader.sum index
  (reader.data.bytes.getD place.toNat 0,
    { reader with log := reader.log ++ [.access place] })

/-- `pos_ += count`. -/
def advance (reader : ByteReader) (count : UInt64) : ByteReader :=
  let (place, reader) := reader.sum count
  { reader with pos := place, log := reader.log ++ [.moved place] }

/-- The loop `v |= data_[pos_ + i] << (8 * i)` with `left` bytes to go. -/
def orLoop : (left index value : Nat) → ByteReader → Nat × ByteReader
  | 0, _, value, reader => (value, reader)
  | left + 1, index, value, reader =>
      let (byte, reader) := reader.byteAt (UInt64.ofNat index)
      orLoop left (index + 1) (value ||| (byte.toNat <<< (8 * index))) reader

/-- The copy of the range from `data_ + pos_ + index` on. -/
def copyLoop : (left index : Nat) → ByteReader → Bytes × ByteReader
  | 0, _, reader => ([], reader)
  | left + 1, index, reader =>
      let (byte, reader) := reader.byteAt (UInt64.ofNat index)
      let (others, reader) := copyLoop left (index + 1) reader
      (byte :: others, reader)

/-- An unsigned integer of `width` bytes. -/
def uint (reader : ByteReader) (width : Nat) : Nat × ByteReader :=
  let (enough, reader) := reader.need (UInt64.ofNat width)
  if enough then
    let (value, reader) := orLoop width 0 0 reader
    (value, reader.advance (UInt64.ofNat width))
  else (0, reader)

def u8 (reader : ByteReader) : UInt8 × ByteReader :=
  let (enough, reader) := reader.need 1
  if enough then
    let (byte, reader) := reader.byteAt 0
    (byte, reader.advance 1)
  else (0, reader)

def u16 (reader : ByteReader) : UInt16 × ByteReader :=
  (UInt16.ofNat (reader.uint 2).1, (reader.uint 2).2)

def u32 (reader : ByteReader) : UInt32 × ByteReader :=
  (UInt32.ofNat (reader.uint 4).1, (reader.uint 4).2)

def u64 (reader : ByteReader) : UInt64 × ByteReader :=
  (UInt64.ofNat (reader.uint 8).1, (reader.uint 8).2)

def blob (reader : ByteReader) : Bytes × ByteReader :=
  let (length, reader) := reader.u32
  let (enough, reader) := reader.need length.toUInt64
  if enough then
    let (block, reader) := copyLoop length.toNat 0 reader
    (block, reader.advance length.toUInt64)
  else ([], reader)

def str (reader : ByteReader) : Bytes × ByteReader :=
  reader.blob

end ByteReader

/-! ## Sequences of reads -/

inductive Read where
  | u8
  | u16
  | u32
  | u64
  | str
  | blob
  deriving DecidableEq, Repr

namespace Read

abbrev Result : Read → Type
  | .u8 => UInt8
  | .u16 => UInt16
  | .u32 => UInt32
  | .u64 => UInt64
  | .str => Bytes
  | .blob => Bytes

def perform : (read : Read) → ByteReader → read.Result × ByteReader
  | .u8 => ByteReader.u8
  | .u16 => ByteReader.u16
  | .u32 => ByteReader.u32
  | .u64 => ByteReader.u64
  | .str => ByteReader.str
  | .blob => ByteReader.blob

/-- Zero or empty. -/
def zero : (read : Read) → read.Result
  | .u8 => (0 : UInt8)
  | .u16 => (0 : UInt16)
  | .u32 => (0 : UInt32)
  | .u64 => (0 : UInt64)
  | .str => ([] : Bytes)
  | .blob => ([] : Bytes)

/-- Little-endian integers, and blocks after their length. -/
def format : (read : Read) → Format read.Result
  | .u8 => Formats.u8
  | .u16 => Formats.u16
  | .u32 => Formats.u32
  | .u64 => Formats.u64
  | .str => Formats.blob
  | .blob => Formats.blob

/-- The same read over natural numbers. -/
def checked :
    (read : Read) → Net.ByteReader → read.Result × Net.ByteReader
  | .u8 => Net.ByteReader.u8
  | .u16 => Net.ByteReader.u16
  | .u32 => Net.ByteReader.u32
  | .u64 => Net.ByteReader.u64
  | .str => Net.ByteReader.str
  | .blob => Net.ByteReader.blob

end Read

/-- One read after another: what they return, and the reader after them. -/
def performEach : List Read → ByteReader →
    List ((read : Read) × read.Result) × ByteReader
  | [], reader => ([], reader)
  | read :: later, reader =>
      let (value, reader) := read.perform reader
      let (values, reader) := performEach later reader
      (⟨read, value⟩ :: values, reader)

/-! ## Refinement -/

/-- Accesses are below the size, additions do not wrap and positions stay in
range. -/
def Event.Safe (size : UInt64) : Event → Prop
  | .access index => index < size
  | .sum pos count => pos.toNat + count.toNat < 2 ^ 64
  | .moved pos => pos ≤ size

/-- The reader stands where the one over natural numbers does, and has been
safe so far. -/
structure Refines (machine : ByteReader) (reader : Net.ByteReader) :
    Prop where
  data : machine.data.bytes = reader.data
  size : machine.size.toNat = reader.data.length
  pos : machine.pos.toNat = reader.pos
  ok : machine.ok = reader.ok
  valid : reader.Valid
  safe : ∀ event ∈ machine.log, event.Safe machine.size

/-- Two reads return the same and leave readers that stand at the same
place. -/
structure Agrees {Value : Type} (result : Value × ByteReader)
    (expected : Value × Net.ByteReader) : Prop where
  value : result.1 = expected.1
  reader : Refines result.2 expected.2

namespace Refines

variable {machine : ByteReader} {reader : Net.ByteReader}

theorem length_lt (refines : Refines machine reader) :
    reader.data.length < 2 ^ 63 := by
  rw [← refines.data]
  exact machine.data.small

theorem logged (refines : Refines machine reader) {event : Event}
    (safe : event.Safe machine.size) :
    Refines { machine with log := machine.log ++ [event] } reader := by
  refine ⟨refines.data, refines.size, refines.pos, refines.ok,
    refines.valid, ?_⟩
  intro other member
  rcases List.mem_append.mp member with before | last
  · exact refines.safe other before
  · rw [List.mem_singleton.mp last]
    exact safe

theorem sum (refines : Refines machine reader) (count : UInt64)
    (small : count.toNat < 2 ^ 63) :
    (machine.sum count).1.toNat = reader.pos + count.toNat ∧
      Refines (machine.sum count).2 reader := by
  have inside := refines.valid
  have length := refines.length_lt
  have position := refines.pos
  unfold Net.ByteReader.Valid at inside
  have noWrap : machine.pos.toNat + count.toNat < 2 ^ 64 := by omega
  constructor
  · rw [ByteReader.sum, UInt64.toNat_add, Nat.mod_eq_of_lt noWrap, position]
  · exact refines.logged noWrap

theorem need (refines : Refines machine reader) (count : UInt64)
    (small : count.toNat < 2 ^ 63) :
    (machine.need count).1 = reader.need count.toNat ∧
      Refines (machine.need count).2
        { reader with ok := reader.need count.toNat } := by
  obtain ⟨stop, after⟩ := refines.sum count small
  have enough : (machine.sum count).1 > (machine.sum count).2.size ↔
      ¬ reader.pos + count.toNat ≤ reader.data.length := by
    rw [gt_iff_lt, UInt64.lt_iff_toNat_lt, stop, after.size, not_le]
  rw [ByteReader.need, Net.ByteReader.need, ← refines.ok]
  cases isOk : machine.ok with
  | false =>
      exact ⟨rfl, refines.data, refines.size, refines.pos, rfl,
        refines.valid, refines.safe⟩
  | true =>
      simp only [Bool.not_true, Bool.false_eq_true, if_false,
        Bool.true_and]
      by_cases fits : reader.pos + count.toNat ≤ reader.data.length
      · rw [if_neg (fun beyond => enough.mp beyond fits),
          decide_eq_true fits]
        exact ⟨rfl, after.data, after.size, after.pos, isOk, after.valid,
          after.safe⟩
      · rw [if_pos (enough.mpr fits), decide_eq_false fits]
        exact ⟨rfl, after.data, after.size, after.pos, rfl, after.valid,
          after.safe⟩

theorem byteAt (refines : Refines machine reader) (index : UInt64)
    (inside : reader.pos + index.toNat < reader.data.length) :
    (machine.byteAt index).1 =
        reader.data.getD (reader.pos + index.toNat) 0 ∧
      Refines (machine.byteAt index).2 reader := by
  have length := refines.length_lt
  obtain ⟨place, after⟩ := refines.sum index (by omega)
  constructor
  · rw [← place, ← after.data]
    rfl
  · apply after.logged
    change (machine.sum index).1 < _
    rw [UInt64.lt_iff_toNat_lt, place, after.size]
    exact inside

theorem advance (refines : Refines machine reader) (count : UInt64)
    (inside : reader.pos + count.toNat ≤ reader.data.length) :
    Refines (machine.advance count)
      { reader with pos := reader.pos + count.toNat } := by
  have length := refines.length_lt
  obtain ⟨place, after⟩ := refines.sum count (by omega)
  have moved : Event.Safe (machine.sum count).2.size
      (.moved (machine.sum count).1) := by
    change (machine.sum count).1 ≤ _
    rw [UInt64.le_iff_toNat_le, place, after.size]
    exact inside
  obtain ⟨data, size, _, ok, _, safe⟩ := after.logged moved
  exact ⟨data, size, place, ok, inside, safe⟩

theorem toNat_ofNat_of_small {count : Nat} (small : count < 2 ^ 63) :
    (UInt64.ofNat count).toNat = count := by
  rw [UInt64.toNat_ofNat', Nat.mod_eq_of_lt (by omega)]

/-- The bytes from `index` on, one at a time. -/
theorem take_drop_succ {bytes : Bytes} {place : Nat}
    (inside : place < bytes.length) (left : Nat) :
    (bytes.drop place).take (left + 1) =
      bytes.getD place 0 :: (bytes.drop (place + 1)).take left := by
  rw [List.drop_eq_getElem_cons inside, List.take_succ_cons,
    List.getD_eq_getElem _ _ inside]

/-- One access of a loop. -/
theorem byteAt_ofNat (refines : Refines machine reader) (index : Nat)
    (inside : reader.pos + index < reader.data.length) :
    (machine.byteAt (UInt64.ofNat index)).1 =
        reader.data.getD (reader.pos + index) 0 ∧
      Refines (machine.byteAt (UInt64.ofNat index)).2 reader := by
  have length := refines.length_lt
  have same : (UInt64.ofNat index).toNat = index :=
    toNat_ofNat_of_small (by omega)
  have read := refines.byteAt (UInt64.ofNat index) (by omega)
  rw [same] at read
  exact read

theorem orLoop (refines : Refines machine reader) (left index value : Nat)
    (inside : reader.pos + index + left ≤ reader.data.length) :
    Agrees (ByteReader.orLoop left index value machine)
      (orBytes index value
        ((reader.data.drop (reader.pos + index)).take left), reader) := by
  induction left generalizing index value machine with
  | zero =>
      exact ⟨rfl, refines⟩
  | succ left inductionHypothesis =>
      obtain ⟨byte, after⟩ := refines.byteAt_ofNat index (by omega)
      obtain ⟨read, following⟩ := inductionHypothesis after (index + 1)
        (value ||| ((machine.byteAt (UInt64.ofNat index)).1.toNat <<<
          (8 * index))) (by omega)
      rw [take_drop_succ (by omega), orBytes, ← byte]
      exact ⟨read, following⟩

theorem copyLoop (refines : Refines machine reader) (left index : Nat)
    (inside : reader.pos + index + left ≤ reader.data.length) :
    Agrees (ByteReader.copyLoop left index machine)
      ((reader.data.drop (reader.pos + index)).take left, reader) := by
  induction left generalizing index machine with
  | zero =>
      exact ⟨rfl, refines⟩
  | succ left inductionHypothesis =>
      obtain ⟨byte, after⟩ := refines.byteAt_ofNat index (by omega)
      obtain ⟨read, following⟩ := inductionHypothesis after (index + 1)
        (by omega)
      rw [take_drop_succ (by omega), ← byte]
      exact ⟨congrArg (List.cons _) read, following⟩

/-- After a check that succeeded. -/
theorem after_need {count : Nat} (needed : reader.need count = true)
    (refines : Refines machine { reader with ok := true }) :
    reader.pos + count ≤ reader.data.length ∧ Refines machine reader := by
  obtain ⟨isOk, inside⟩ := Bool.and_eq_true_iff.mp needed
  refine ⟨of_decide_eq_true inside, refines.data, refines.size, refines.pos,
    ?_, refines.valid, refines.safe⟩
  rw [refines.ok, isOk]

theorem uint (refines : Refines machine reader) (width : Nat)
    (narrow : width < 2 ^ 63) :
    Agrees (machine.uint width) (reader.uint width) := by
  have same : (UInt64.ofNat width).toNat = width :=
    toNat_ofNat_of_small (by omega)
  obtain ⟨enough, after⟩ := refines.need (UInt64.ofNat width)
    (by omega)
  rw [same] at enough after
  rw [ByteReader.uint, Net.ByteReader.uint, Net.ByteReader.take]
  dsimp only
  rw [enough]
  cases needed : reader.need width with
  | false =>
      rw [needed] at after
      exact ⟨rfl, after⟩
  | true =>
      rw [needed] at after
      obtain ⟨inside, standing⟩ := after_need needed after
      obtain ⟨value, following⟩ := standing.orLoop width 0 0 inside
      have advanced := following.advance (UInt64.ofNat width)
        (by rw [same]; exact inside)
      rw [same] at advanced
      exact ⟨value, advanced⟩

/-- One byte is the integer of one byte. -/
theorem u8 (refines : Refines machine reader) :
    Agrees machine.u8 reader.u8 := by
  obtain ⟨enough, after⟩ := refines.need 1 (by decide)
  change _ = reader.need 1 at enough
  change Refines _ { reader with ok := reader.need 1 } at after
  rw [ByteReader.u8, Net.ByteReader.u8, Net.ByteReader.uint,
    Net.ByteReader.take]
  dsimp only
  rw [enough]
  cases needed : reader.need 1 with
  | false =>
      rw [needed] at after
      exact ⟨rfl, after⟩
  | true =>
      rw [needed] at after
      obtain ⟨inside, standing⟩ := after_need needed after
      obtain ⟨byte, following⟩ := standing.byteAt 0 inside
      have advanced := following.advance 1 inside
      refine ⟨?_, advanced⟩
      rw [if_pos rfl]
      dsimp only
      rw [byte, take_drop_succ inside, List.take_zero]
      apply UInt8.toNat_inj.mp
      simp [fromBytes, orBytes]

theorem blob (refines : Refines machine reader) :
    Agrees machine.blob reader.blob := by
  obtain ⟨number, standing⟩ := refines.uint 4 (by decide)
  have length : machine.u32.1 = reader.u32.1 := congrArg UInt32.ofNat number
  have small : reader.u32.1.toUInt64.toNat < 2 ^ 63 := by
    have bound := reader.u32.1.toNat_lt
    rw [UInt32.toNat_toUInt64]
    omega
  obtain ⟨enough, after⟩ := standing.need _ small
  rw [UInt32.toNat_toUInt64] at enough after
  change (machine.u32.2.need _).1 = reader.u32.2.need reader.u32.1.toNat
    at enough
  change Refines (machine.u32.2.need _).2 { reader.u32.2 with
    ok := reader.u32.2.need reader.u32.1.toNat } at after
  rw [ByteReader.blob, Net.ByteReader.blob, Net.ByteReader.take]
  dsimp only
  rw [length, enough]
  cases needed : reader.u32.2.need reader.u32.1.toNat with
  | false =>
      rw [needed] at after
      exact ⟨rfl, after⟩
  | true =>
      rw [needed] at after
      obtain ⟨inside, standing⟩ := after_need needed after
      obtain ⟨block, following⟩ := standing.copyLoop reader.u32.1.toNat 0
        inside
      have advanced := following.advance reader.u32.1.toUInt64
        (by rw [UInt32.toNat_toUInt64]; exact inside)
      rw [UInt32.toNat_toUInt64] at advanced
      exact ⟨block, advanced⟩

end Refines

/-- Every read agrees with the one over natural numbers. -/
theorem perform_refines (read : Read) {machine : ByteReader}
    {reader : Net.ByteReader} (refines : Refines machine reader) :
    Agrees (read.perform machine) (read.checked reader) := by
  cases read with
  | u8 =>
      exact refines.u8
  | u16 =>
      obtain ⟨value, following⟩ := refines.uint 2 (by decide)
      exact ⟨congrArg UInt16.ofNat value, following⟩
  | u32 =>
      obtain ⟨value, following⟩ := refines.uint 4 (by decide)
      exact ⟨congrArg UInt32.ofNat value, following⟩
  | u64 =>
      obtain ⟨value, following⟩ := refines.uint 8 (by decide)
      exact ⟨congrArg UInt64.ofNat value, following⟩
  | str =>
      exact refines.blob
  | blob =>
      exact refines.blob

theorem ofBuffer_refines (data : Buffer) :
    Refines (.ofBuffer data) { data := data.bytes } := by
  have small := data.small
  refine ⟨rfl, ?_, rfl, rfl, Nat.zero_le _, ?_⟩
  · exact Refines.toNat_ofNat_of_small small
  · intro event member
    exact absurd member List.not_mem_nil

/-! ## What the reads return -/

namespace Read

theorem checked_follows (read : Read) :
    Net.ByteReader.Follows read.checked read.format := by
  cases read with
  | u8 => exact Formats.u8_follows
  | u16 => exact Formats.u16_follows
  | u32 => exact Formats.u32_follows
  | u64 => exact Formats.u64_follows
  | str => exact Formats.blob_follows
  | blob => exact Formats.blob_follows

theorem take_data (reader : Net.ByteReader) (count : Nat) :
    (reader.take count).2.data = reader.data := by
  rw [Net.ByteReader.take]
  split_ifs
  · rfl
  · rfl

theorem uint_data (reader : Net.ByteReader) (width : Nat) :
    (reader.uint width).2.data = reader.data := by
  have sameData := take_data reader width
  rw [Net.ByteReader.uint]
  split
  · rename_i taken
    rw [taken] at sameData
    exact sameData
  · rename_i missing
    rw [missing] at sameData
    exact sameData

theorem blob_data (reader : Net.ByteReader) :
    reader.blob.2.data = reader.data := by
  have sameData := (take_data reader.u32.2 reader.u32.1.toNat).trans
    (uint_data reader 4)
  rw [Net.ByteReader.blob]
  split
  · rename_i taken
    rw [taken] at sameData
    exact sameData
  · rename_i missing
    rw [missing] at sameData
    exact sameData

/-- Reads leave the buffer alone. -/
theorem checked_data (read : Read) (reader : Net.ByteReader) :
    (read.checked reader).2.data = reader.data := by
  cases read with
  | u8 => exact uint_data reader 1
  | u16 => exact uint_data reader 2
  | u32 => exact uint_data reader 4
  | u64 => exact uint_data reader 8
  | str => exact blob_data reader
  | blob => exact blob_data reader

theorem uint_of_failed {reader : Net.ByteReader}
    (failed : reader.ok = false) (width : Nat) :
    reader.uint width = (0, reader) := by
  have unchanged : { reader with ok := false } = reader := by
    rw [← failed]
  rw [Net.ByteReader.uint, Net.ByteReader.take_of_failed failed, unchanged]

theorem blob_of_failed {reader : Net.ByteReader}
    (failed : reader.ok = false) : reader.blob = ([], reader) := by
  have unchanged : { reader with ok := false } = reader := by
    rw [← failed]
  have size : reader.u32 = (0, reader) := by
    rw [Net.ByteReader.u32, uint_of_failed failed]
    rfl
  rw [Net.ByteReader.blob, size]
  dsimp only
  rw [Net.ByteReader.take_of_failed failed, unchanged]

/-- A failed reader returns zeros and stays where it is. -/
theorem checked_of_failed (read : Read) {reader : Net.ByteReader}
    (failed : reader.ok = false) :
    read.checked reader = (read.zero, reader) := by
  cases read with
  | u8 =>
      rw [checked, Net.ByteReader.u8, uint_of_failed failed]
      rfl
  | u16 =>
      rw [checked, Net.ByteReader.u16, uint_of_failed failed]
      rfl
  | u32 =>
      rw [checked, Net.ByteReader.u32, uint_of_failed failed]
      rfl
  | u64 =>
      rw [checked, Net.ByteReader.u64, uint_of_failed failed]
      rfl
  | str =>
      exact blob_of_failed failed
  | blob =>
      exact blob_of_failed failed

/-- A read after which the reader is ok has decoded its format. -/
theorem checked_decodes (read : Read) {reader : Net.ByteReader}
    (valid : reader.Valid) (isOk : (read.checked reader).2.ok = true) :
    reader.ok = true ∧ read.format.read reader.rest =
      some ((read.checked reader).1, (read.checked reader).2.rest) := by
  have wasOk : reader.ok = true := by
    by_contra failed
    rw [checked_of_failed read (Bool.eq_false_of_not_eq_true failed)]
      at isOk
    exact failed isOk
  refine ⟨wasOk, ?_⟩
  cases decoded : read.format.read reader.rest with
  | none =>
      have rejected :=
        (checked_follows read).rejects reader wasOk valid decoded
      rw [isOk] at rejected
      cases rejected
  | some result =>
      have reads := (checked_follows read).accepts reader wasOk valid
        result.1 result.2 decoded
      rw [reads.value, reads.rest]

end Read

theorem performEach_refines (reads : List Read) {machine : ByteReader}
    {reader : Net.ByteReader} (refines : Refines machine reader) :
    ∃ following, Refines (performEach reads machine).2 following ∧
      following.data = reader.data := by
  induction reads generalizing machine reader with
  | nil =>
      exact ⟨reader, refines, rfl⟩
  | cons read later inductionHypothesis =>
      obtain ⟨following, refined, sameData⟩ :=
        inductionHypothesis (perform_refines read refines).reader
      exact ⟨following, refined,
        sameData.trans (read.checked_data reader)⟩

/-- A failed reader stays failed and returns zeros. -/
theorem performEach_of_failed (reads : List Read) {machine : ByteReader}
    {reader : Net.ByteReader} (refines : Refines machine reader)
    (failed : reader.ok = false) :
    (∀ value ∈ (performEach reads machine).1, value.2 = value.1.zero) ∧
      Refines (performEach reads machine).2 reader := by
  induction reads generalizing machine with
  | nil =>
      exact ⟨fun value member => absurd member List.not_mem_nil, refines⟩
  | cons read later inductionHypothesis =>
      obtain ⟨value, following⟩ := perform_refines read refines
      rw [read.checked_of_failed failed] at value following
      obtain ⟨zeros, refined⟩ := inductionHypothesis following
      refine ⟨?_, refined⟩
      intro result member
      rcases List.mem_cons.mp member with rfl | after
      · exact value
      · exact zeros result after

/-- What holds of a read and of everything after it. -/
structure ReadSound (data : Buffer) (read : Read) (reader : ByteReader)
    (result : read.Result × ByteReader) : Prop where
  safe : ∀ event ∈ result.2.log, event.Safe result.2.size
  size : result.2.size.toNat = data.bytes.length
  position : result.2.pos ≤ result.2.size
  /-- While the reader is ok, a read decodes the bytes from its position on
  and moves behind them. -/
  decodes : result.2.ok = true → reader.ok = true ∧
    read.format.read (data.bytes.drop reader.pos.toNat) =
      some (result.1, data.bytes.drop result.2.pos.toNat)
  /-- A reader that is ok stays so if a value is there. -/
  succeeds : reader.ok = true →
    (read.format.read (data.bytes.drop reader.pos.toNat)).isSome = true →
      result.2.ok = true
  /-- After a failed read nothing is read any more. -/
  sticky : result.2.ok = false → ∀ later,
    (∀ value ∈ (performEach later result.2).1, value.2 = value.1.zero) ∧
      (performEach later result.2).2.pos = result.2.pos ∧
      (performEach later result.2).2.ok = false ∧
      (performEach later result.2).2.remaining = 0

/-- On every buffer every read in every sequence of reads stays inside the
buffer, decodes what it finds there, and fails for good. -/
theorem reader_sound (data : Buffer) (earlier : List Read) (read : Read) :
    ReadSound data read (performEach earlier (.ofBuffer data)).2
      (read.perform (performEach earlier (.ofBuffer data)).2) := by
  obtain ⟨reader, refines, sameData⟩ :=
    performEach_refines earlier (ofBuffer_refines data)
  obtain ⟨value, following⟩ := perform_refines read refines
  have sameBuffer : (read.checked reader).2.data = data.bytes :=
    (read.checked_data reader).trans sameData
  refine ⟨following.safe, ?_, ?_, ?_, ?_, ?_⟩
  · rw [following.size, sameBuffer]
  · rw [UInt64.le_iff_toNat_le, following.pos, following.size]
    exact following.valid
  · intro isOk
    obtain ⟨wasOk, decoded⟩ := read.checked_decodes refines.valid
      (following.ok.symm.trans isOk)
    refine ⟨refines.ok.trans wasOk, ?_⟩
    rw [Net.ByteReader.rest, Net.ByteReader.rest, sameData, sameBuffer,
      ← refines.pos, ← following.pos, ← value] at decoded
    exact decoded
  · intro wasOk isThere
    obtain ⟨⟨found, rest⟩, reads⟩ := Option.isSome_iff_exists.mp isThere
    have isLeft : reader.rest = data.bytes.drop
        (performEach earlier (.ofBuffer data)).2.pos.toNat := by
      rw [Net.ByteReader.rest, sameData, refines.pos]
    rw [← isLeft] at reads
    rw [following.ok]
    exact (read.checked_follows.accepts reader (refines.ok.symm.trans wasOk)
      refines.valid found rest reads).ok
  · intro failed later
    have readerFailed : (read.checked reader).2.ok = false := by
      rw [← following.ok, failed]
    obtain ⟨zeros, refined⟩ :=
      performEach_of_failed later following readerFailed
    have stillFailed : (performEach later
        (read.perform (performEach earlier (.ofBuffer data)).2).2).2.ok =
          false := by
      rw [refined.ok, readerFailed]
    refine ⟨zeros, ?_, stillFailed, ?_⟩
    · apply UInt64.toNat_inj.mp
      rw [refined.pos, following.pos]
    · rw [ByteReader.remaining, stillFailed]
      rfl

/-- Two reads succeed, and the third one lacks a byte. -/
example :
    let reads := performEach [.u8, .u16, .u16]
      (.ofBuffer ⟨[5, 1, 2, 3], by decide⟩)
    reads.1 = [⟨.u8, (5 : UInt8)⟩, ⟨.u16, (513 : UInt16)⟩,
      ⟨.u16, (0 : UInt16)⟩] ∧ reads.2.pos = 3 ∧ reads.2.ok = false :=
  ⟨rfl, by decide, by decide⟩

end HydraRT.Net.Machine
