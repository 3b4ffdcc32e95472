import HydraRT.Net.Serialize

/-!
# Framing

Every message travels as a twelve-byte header followed by its payload.  The
header carries a magic number, the message type, two reserved bytes and the
payload length.
-/

namespace HydraRT.Net

open HydraRT.Lib

/-- `"HYDR"`. -/
def kMagic : UInt32 := 0x48594452

/-- magic(4) + type(2) + pad(2) + length(4). -/
def kHeaderSize : Nat := 12

def kMaxPayload : Nat := 64 * 1024 * 1024

/-- `enum class MsgType : uint16_t`.  The header is cast to it unchecked, so
every 16-bit value occurs. -/
structure MsgType where
  raw : UInt16
  deriving DecidableEq, Repr

namespace MsgType

def register : MsgType := ⟨1⟩
def registerAck : MsgType := ⟨2⟩
def heartbeat : MsgType := ⟨3⟩
def nodeList : MsgType := ⟨4⟩
def stealRequest : MsgType := ⟨5⟩
def stealResponse : MsgType := ⟨6⟩
def taskResult : MsgType := ⟨7⟩
def shutdown : MsgType := ⟨8⟩

end MsgType

/-- `proto::frame`. -/
def frame (type : MsgType) (payload : Bytes) : Bytes :=
  (((((({ } : ByteWriter).u32 kMagic).u16 type.raw).u16 0).u32
    (UInt32.ofNat payload.length)).bytes payload).buf

/-- `proto::parse_header`: the type and the payload length, if the header is
acceptable. -/
def parseHeader (header : Bytes) : Option (MsgType × Nat) :=
  if header.length < kHeaderSize then none
  else
    let (magic, afterMagic) := ({ data := header } : ByteReader).u32
    if magic ≠ kMagic then none
    else
      let (type, afterType) := afterMagic.u16
      let (_, afterReserved) := afterType.u16
      let (length, reader) := afterReserved.u32
      if !reader.ok || decide (length.toNat > kMaxPayload) then none
      else some (⟨type⟩, length.toNat)

/-- The twelve bytes `frame` puts before the payload. -/
def header (type : MsgType) (length : Nat) : Bytes :=
  toBytes 4 kMagic.toNat ++ toBytes 2 type.raw.toNat ++ toBytes 2 0 ++
    toBytes 4 (UInt32.ofNat length).toNat

@[simp]
theorem length_header (type : MsgType) (length : Nat) :
    (header type length).length = kHeaderSize := by
  simp [header, kHeaderSize]

theorem frame_eq (type : MsgType) (payload : Bytes) :
    frame type payload = header type payload.length ++ payload := by
  simp [frame, header, ByteWriter.u32, ByteWriter.u16, ByteWriter.bytes]

theorem length_frame (type : MsgType) (payload : Bytes) :
    (frame type payload).length = kHeaderSize + payload.length := by
  rw [frame_eq, List.length_append, length_header]

/-- The receiver recovers the type and the length of every payload that
respects the limit. -/
theorem parseHeader_header
    (type : MsgType) {length : Nat} (small : length ≤ kMaxPayload) :
    parseHeader (header type length) = some (type, length) := by
  have fits : length < 4294967296 := by
    simp only [kMaxPayload] at small
    omega
  have magicRead :
      ({ data := header type length } : ByteReader).uint 4 =
        (kMagic.toNat, ⟨header type length, 4, true⟩) :=
    ByteReader.uint_of_append []
      (toBytes 2 type.raw.toNat ++ toBytes 2 0 ++
        toBytes 4 (UInt32.ofNat length).toNat)
      rfl (by simp [header]) rfl (by decide)
  have typeRead :
      (⟨header type length, 4, true⟩ : ByteReader).uint 2 =
        (type.raw.toNat, ⟨header type length, 6, true⟩) :=
    ByteReader.uint_of_append (toBytes 4 kMagic.toNat)
      (toBytes 2 0 ++ toBytes 4 (UInt32.ofNat length).toNat)
      rfl (by simp [header]) (by simp) type.raw.toNat_lt
  have reservedRead :
      (⟨header type length, 6, true⟩ : ByteReader).uint 2 =
        (0, ⟨header type length, 8, true⟩) :=
    ByteReader.uint_of_append
      (toBytes 4 kMagic.toNat ++ toBytes 2 type.raw.toNat)
      (toBytes 4 (UInt32.ofNat length).toNat)
      rfl (by simp [header]) (by simp) (by decide)
  have lengthRead :
      (⟨header type length, 8, true⟩ : ByteReader).uint 4 =
        ((UInt32.ofNat length).toNat, ⟨header type length, 12, true⟩) :=
    ByteReader.uint_of_append
      (toBytes 4 kMagic.toNat ++ toBytes 2 type.raw.toNat ++ toBytes 2 0)
      []
      rfl (by simp [header]) (by simp) (UInt32.ofNat length).toNat_lt
  have accepted :
      length % 4294967296 ≤ kMaxPayload ∧ length < 4294967296 := by
    rw [Nat.mod_eq_of_lt fits]
    exact ⟨small, fits⟩
  simpa [parseHeader, ByteReader.u32, ByteReader.u16, magicRead, typeRead,
    reservedRead, lengthRead] using accepted

end HydraRT.Net
