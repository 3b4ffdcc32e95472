import HydraRT.Net.Protocol

/-!
# Receiving messages

`TcpSocket::recv_all` and `TcpSocket::recv_msg`, and the receive loops that
keep a connection after a failed `recv_msg`: `Node::serve_peer`,
`Coordinator::serve_connection` and `Node::coordinator_loop`.

What a connection will do is a list of deliveries, in the order in which the
`recv` calls meet them.  A timeout is placed between bytes by the peer and the
network, not by the receiver, so the same list describes every way of cutting
the byte stream into `recv` results.
-/

namespace HydraRT.Net

open HydraRT.Lib

/-- What a `recv` call finds. -/
inductive Delivery where
  /-- At least one byte; a call that asks for fewer leaves the rest. -/
  | data (first : UInt8) (more : Bytes)
  /-- `recv` returns -1 with `EINTR`. -/
  | interrupted
  /-- `recv` returns -1 with `EAGAIN`: the receive timeout expired. -/
  | timedOut
  /-- The peer closed: `recv` returns 0 from here on. -/
  | closed
  deriving DecidableEq, Repr

abbrev Wire := List Delivery

/-- How a receiving call ends.  It is `blocked` when nothing more arrives. -/
inductive Outcome (Value : Type) where
  | returned (value : Value)
  | failed
  | blocked
  deriving DecidableEq, Repr

/-- A message as `send_msg` takes it and `recv_msg` returns it. -/
structure Message where
  type : MsgType
  payload : Bytes
  deriving DecidableEq, Repr

def Message.frame (message : Message) : Bytes :=
  Net.frame message.type message.payload

/-- The loop of `TcpSocket::recv_all`, with `got` already received. -/
def recvAll (count : Nat) (got : Bytes) : Wire → Outcome Bytes × Wire
  | [] =>
      if got.length < count then (.blocked, []) else (.returned got, [])
  | delivery :: rest =>
      if got.length < count then
        match delivery with
        | .data first more =>
            match more.drop (count - got.length - 1) with
            -- the call took everything that was there
            | [] => recvAll count (got ++ first :: more) rest
            | next :: later =>
                (.returned
                  (got ++ first :: more.take (count - got.length - 1)),
                  .data next later :: rest)
        | .interrupted => recvAll count got rest
        | .timedOut => (.failed, rest)
        | .closed => (.failed, .closed :: rest)
      else (.returned got, delivery :: rest)

/-- `TcpSocket::recv_msg`. -/
def recvMsg (wire : Wire) : Outcome Message × Wire :=
  match recvAll kHeaderSize [] wire with
  | (.returned header, afterHeader) =>
      match parseHeader header with
      | none => (.failed, afterHeader)
      | some (type, length) =>
          if length > 0 then
            match recvAll length [] afterHeader with
            | (.returned payload, rest) => (.returned ⟨type, payload⟩, rest)
            | (.failed, rest) => (.failed, rest)
            | (.blocked, rest) => (.blocked, rest)
          else (.returned ⟨type, []⟩, afterHeader)
  | (.failed, rest) => (.failed, rest)
  | (.blocked, rest) => (.blocked, rest)

/-- The messages that the first `calls` calls of `recv_msg` return in a loop
that goes on after a failure.  A failed call does not close the socket, so the
loops' test of `conn.valid()` does not end them. -/
def receiveLoop : (calls : Nat) → Wire → List Message
  | 0, _ => []
  | calls + 1, wire =>
      match recvMsg wire with
      | (.returned message, rest) => message :: receiveLoop calls rest
      | (.failed, rest) => receiveLoop calls rest
      | (.blocked, _) => []

namespace Wire

/-- All bytes that arrive. -/
def bytes : Wire → Bytes
  | [] => []
  | .data first more :: rest => first :: more ++ bytes rest
  | .interrupted :: rest => bytes rest
  | .timedOut :: rest => bytes rest
  | .closed :: _ => []

/-- For every timeout, how many bytes arrive before it. -/
def timeouts : Wire → List Nat
  | [] => []
  | .data _ more :: rest => (timeouts rest).map (· + (more.length + 1))
  | .interrupted :: rest => timeouts rest
  | .timedOut :: rest => 0 :: timeouts rest
  | .closed :: _ => []

/-- The peer does not close the connection. -/
def Open (wire : Wire) : Prop :=
  Delivery.closed ∉ wire

/-- Deliveries and bytes still to come. -/
def size : Wire → Nat
  | [] => 0
  | .data _ more :: rest => more.length + 2 + size rest
  | _ :: rest => 1 + size rest

end Wire

/-- The offsets in the byte stream at which a message ends or the first one
starts. -/
def boundaries : List Message → List Nat
  | [] => [0]
  | message :: rest =>
      0 :: (boundaries rest).map (· + message.frame.length)

/-! ## One receiving call -/

/-- `rest` is what remains of `wire` once the bytes `taken` have been read,
with no timeout met on the way. -/
structure Wire.Consumes (wire : Wire) (taken : Bytes) (rest : Wire) :
    Prop where
  bytes : wire.bytes = taken ++ rest.bytes
  timeouts : wire.timeouts = rest.timeouts.map (· + taken.length)
  isOpen : rest.Open
  size : rest.size + taken.length ≤ wire.size

/-- Like `Consumes`, but the call ended at a timeout. -/
structure Wire.Breaks (wire : Wire) (taken : Bytes) (rest : Wire) :
    Prop where
  bytes : wire.bytes = taken ++ rest.bytes
  timeouts :
    wire.timeouts = taken.length :: rest.timeouts.map (· + taken.length)
  isOpen : rest.Open
  size : rest.size + taken.length < wire.size

namespace Wire

variable {wire middle rest : Wire} {first second taken : Bytes}

theorem Open.tail {delivery : Delivery}
    (isOpen : Open (delivery :: wire)) : Open wire :=
  fun member => isOpen (List.mem_cons_of_mem delivery member)

theorem Consumes.refl (isOpen : wire.Open) : wire.Consumes [] wire :=
  ⟨rfl, by simp, isOpen, by simp⟩

theorem Consumes.trans
    (earlier : wire.Consumes first middle)
    (later : middle.Consumes second rest) :
    wire.Consumes (first ++ second) rest where
  bytes := by rw [earlier.bytes, later.bytes, List.append_assoc]
  timeouts := by
    rw [earlier.timeouts, later.timeouts, List.map_map]
    apply List.map_congr_left
    intro offset _
    simp only [Function.comp_apply, List.length_append]
    omega
  isOpen := later.isOpen
  size := by
    have earlierSize := earlier.size
    have laterSize := later.size
    simp only [List.length_append]
    omega

theorem Consumes.breaks
    (earlier : wire.Consumes first middle)
    (later : middle.Breaks second rest) :
    wire.Breaks (first ++ second) rest where
  bytes := by rw [earlier.bytes, later.bytes, List.append_assoc]
  timeouts := by
    rw [earlier.timeouts, later.timeouts, List.map_cons, List.map_map,
      List.length_append]
    congr 1
    · omega
    · apply List.map_congr_left
      intro offset _
      simp only [Function.comp_apply]
      omega
  isOpen := later.isOpen
  size := by
    have earlierSize := earlier.size
    have laterSize := later.size
    simp only [List.length_append]
    omega

theorem consumes_data
    (start : UInt8) (more : Bytes) (isOpen : wire.Open) :
    Consumes (.data start more :: wire) (start :: more) wire where
  bytes := rfl
  timeouts := rfl
  isOpen := isOpen
  size := by
    simp only [size, List.length_cons]
    omega

/-- Reading only the beginning of what is there. -/
theorem consumes_part
    {start next : UInt8} {more later : Bytes} {count : Nat}
    (isOpen : wire.Open) (left : more.drop count = next :: later) :
    Consumes (.data start more :: wire) (start :: more.take count)
      (.data next later :: wire) := by
  have cut : more.take count ++ next :: later = more := by
    rw [← left]
    exact List.take_append_drop count more
  have total : more.length = (more.take count).length + later.length + 1 := by
    conv_lhs => rw [← cut]
    simp only [List.length_append, List.length_cons]
    omega
  refine ⟨?_, ?_, ?_, ?_⟩
  · have prefixed : more ++ bytes wire =
        more.take count ++ (next :: later ++ bytes wire) := by
      rw [← List.append_assoc, cut]
    simpa [bytes] using prefixed
  · simp only [timeouts, List.map_map]
    apply List.map_congr_left
    intro offset _
    simp only [Function.comp_apply, List.length_cons]
    omega
  · intro member
    rcases List.mem_cons.mp member with impossible | inside
    · cases impossible
    · exact isOpen inside
  · simp only [size, List.length_cons]
    omega

end Wire

/-- What a `recv_all` call that still lacks bytes may do to an open
connection. -/
def RecvAllSpec (count : Nat) (got : Bytes) (wire : Wire) :
    Outcome Bytes × Wire → Prop
  | (.returned block, rest) =>
      ∃ taken, block = got ++ taken ∧ block.length = count ∧
        wire.Consumes taken rest
  | (.failed, rest) =>
      ∃ taken, got.length + taken.length < count ∧ wire.Breaks taken rest
  | (.blocked, _) =>
      wire.timeouts = [] ∧ got.length + wire.bytes.length < count

theorem RecvAllSpec.data
    {count : Nat} {got more : Bytes} {first : UInt8} {wire : Wire}
    {result : Outcome Bytes × Wire} (isOpen : wire.Open)
    (later : RecvAllSpec count (got ++ first :: more) wire result) :
    RecvAllSpec count got (.data first more :: wire) result := by
  have consumed := Wire.consumes_data first more isOpen
  obtain ⟨outcome, rest⟩ := result
  cases outcome with
  | returned block =>
      obtain ⟨taken, content, length, consumes⟩ := later
      exact ⟨first :: more ++ taken, by simp [content], length,
        consumed.trans consumes⟩
  | failed =>
      obtain ⟨taken, missing, breaks⟩ := later
      refine ⟨first :: more ++ taken, ?_, consumed.breaks breaks⟩
      simp only [List.length_append, List.length_cons] at missing ⊢
      omega
  | blocked =>
      obtain ⟨noTimeouts, missing⟩ := later
      refine ⟨by simp [Wire.timeouts, noTimeouts], ?_⟩
      simp only [List.length_append, List.length_cons, Wire.bytes]
        at missing ⊢
      omega

theorem RecvAllSpec.interrupted
    {count : Nat} {got : Bytes} {wire : Wire}
    {result : Outcome Bytes × Wire}
    (later : RecvAllSpec count got wire result) :
    RecvAllSpec count got (.interrupted :: wire) result := by
  have larger : Wire.size (.interrupted :: wire) = 1 + wire.size := rfl
  obtain ⟨outcome, rest⟩ := result
  cases outcome with
  | returned block =>
      obtain ⟨taken, content, length, consumes⟩ := later
      have size := consumes.size
      exact ⟨taken, content, length, consumes.bytes, consumes.timeouts,
        consumes.isOpen, by omega⟩
  | failed =>
      obtain ⟨taken, missing, breaks⟩ := later
      have size := breaks.size
      exact ⟨taken, missing, breaks.bytes, breaks.timeouts,
        breaks.isOpen, by omega⟩
  | blocked =>
      exact later

theorem recvAll_spec
    (count : Nat) (got : Bytes) (wire : Wire)
    (isOpen : wire.Open) (short : got.length ≤ count) :
    RecvAllSpec count got wire (recvAll count got wire) := by
  induction wire generalizing got with
  | nil =>
      unfold recvAll
      by_cases unfinished : got.length < count
      · rw [if_pos unfinished]
        exact ⟨rfl, by simpa [Wire.bytes] using unfinished⟩
      · rw [if_neg unfinished]
        exact ⟨[], by simp, by omega, Wire.Consumes.refl isOpen⟩
  | cons delivery rest inductionHypothesis =>
      unfold recvAll
      by_cases unfinished : got.length < count
      · rw [if_pos unfinished]
        cases delivery with
        | data first more =>
            dsimp only
            cases left : more.drop (count - got.length - 1) with
            | nil =>
                have whole : more.length ≤ count - got.length - 1 :=
                  List.drop_eq_nil_iff.mp left
                refine RecvAllSpec.data isOpen.tail
                  (inductionHypothesis _ isOpen.tail ?_)
                simp only [List.length_append, List.length_cons]
                omega
            | cons next later =>
                refine ⟨first :: more.take (count - got.length - 1), rfl, ?_,
                  Wire.consumes_part isOpen.tail left⟩
                have enough : count - got.length - 1 < more.length := by
                  by_contra notEnough
                  rw [List.drop_eq_nil_iff.mpr (by omega)] at left
                  cases left
                simp only [List.length_append, List.length_cons,
                  List.length_take]
                omega
        | interrupted =>
            exact RecvAllSpec.interrupted
              (inductionHypothesis got isOpen.tail short)
        | timedOut =>
            refine ⟨[], by simpa using unfinished, rfl, ?_, isOpen.tail, ?_⟩
            · simp [Wire.timeouts]
            · simp [Wire.size]
        | closed =>
            exact absurd List.mem_cons_self isOpen
      · rw [if_neg unfinished]
        exact ⟨[], by simp, by omega, Wire.Consumes.refl isOpen⟩

/-- What a `recv_msg` call may do to an open connection.  A call fails at a
timeout, after any number of bytes, or at an unacceptable header. -/
def RecvMsgSpec (wire : Wire) : Outcome Message × Wire → Prop
  | (.returned message, rest) =>
      ∃ taken : Bytes,
        taken.length = kHeaderSize + message.payload.length ∧
          wire.Consumes taken rest
  | (.failed, rest) =>
      ∃ taken, wire.Breaks taken rest ∨
        (0 < taken.length ∧ wire.Consumes taken rest)
  | (.blocked, _) => wire.timeouts = []

theorem recvMsg_spec (wire : Wire) (isOpen : wire.Open) :
    RecvMsgSpec wire (recvMsg wire) := by
  have headerSpec := recvAll_spec kHeaderSize [] wire isOpen (by simp)
  unfold recvMsg
  generalize recvAll kHeaderSize [] wire = result at headerSpec ⊢
  obtain ⟨outcome, afterHeader⟩ := result
  cases outcome with
  | failed =>
      obtain ⟨taken, _, breaks⟩ := headerSpec
      exact ⟨taken, Or.inl breaks⟩
  | blocked =>
      exact headerSpec.1
  | returned header =>
      obtain ⟨_, rfl, length, consumes⟩ := headerSpec
      dsimp only
      cases parsed : parseHeader header with
      | none =>
          exact ⟨header, Or.inr ⟨by rw [length]; decide, consumes⟩⟩
      | some pair =>
          obtain ⟨type, count⟩ := pair
          dsimp only
          by_cases positive : count > 0
          · rw [if_pos positive]
            have payloadSpec := recvAll_spec count [] afterHeader
              consumes.isOpen (by simp)
            generalize recvAll count [] afterHeader = result
              at payloadSpec ⊢
            obtain ⟨outcome, rest⟩ := result
            cases outcome with
            | returned payload =>
                obtain ⟨_, rfl, _, later⟩ := payloadSpec
                refine ⟨header ++ payload, ?_, consumes.trans later⟩
                rw [List.length_append, length]
            | failed =>
                obtain ⟨more, _, later⟩ := payloadSpec
                exact ⟨header ++ more, Or.inl (consumes.breaks later)⟩
            | blocked =>
                have noTimeouts : afterHeader.timeouts = [] := payloadSpec.1
                change wire.timeouts = []
                rw [consumes.timeouts, noTimeouts, List.map_nil]
          · rw [if_neg positive]
            exact ⟨header, length, consumes⟩

/-- A call that can neither meet a timeout nor run out of bytes returns. -/
theorem recvAll_returns
    {wire : Wire} (isOpen : wire.Open) (count : Nat)
    (uninterrupted : ∀ offset ∈ wire.timeouts, count ≤ offset)
    (enough : count ≤ wire.bytes.length) :
    ∃ block rest, recvAll count [] wire = (.returned block, rest) ∧
      block.length = count ∧ wire.Consumes block rest := by
  have spec := recvAll_spec count [] wire isOpen (by simp)
  generalize recvAll count [] wire = result at spec ⊢
  obtain ⟨outcome, rest⟩ := result
  cases outcome with
  | returned block =>
      obtain ⟨_, rfl, length, consumes⟩ := spec
      exact ⟨block, rest, rfl, length, consumes⟩
  | failed =>
      obtain ⟨taken, missing, breaks⟩ := spec
      have met : count ≤ taken.length := uninterrupted taken.length (by
        rw [breaks.timeouts]
        exact List.mem_cons_self)
      rw [List.length_nil, Nat.zero_add] at missing
      omega
  | blocked =>
      obtain ⟨_, missing⟩ := spec
      rw [List.length_nil, Nat.zero_add] at missing
      omega

/-- A frame that no timeout interrupts is returned whole. -/
theorem recvMsg_frame
    {wire : Wire} (isOpen : wire.Open)
    {message : Message} (small : message.payload.length ≤ kMaxPayload)
    {later : Bytes} (content : wire.bytes = message.frame ++ later)
    (uninterrupted :
      ∀ offset ∈ wire.timeouts, message.frame.length ≤ offset) :
    ∃ rest, recvMsg wire = (.returned message, rest) ∧
      wire.Consumes message.frame rest := by
  have frameLength : message.frame.length =
      kHeaderSize + message.payload.length :=
    length_frame message.type message.payload
  have frameContent : message.frame =
      header message.type message.payload.length ++ message.payload :=
    frame_eq message.type message.payload
  obtain ⟨block, afterHeader, headerRead, headerLength, headerConsumes⟩ :=
    recvAll_returns isOpen kHeaderSize
      (fun offset member => by
        have late := uninterrupted offset member
        omega)
      (by rw [content, List.length_append]; omega)
  have split : block ++ afterHeader.bytes =
      header message.type message.payload.length ++
        (message.payload ++ later) := by
    rw [← headerConsumes.bytes, content, frameContent, List.append_assoc]
  obtain ⟨rfl, remaining⟩ := List.append_inj split
    (by rw [headerLength, length_header])
  simp only [recvMsg, headerRead, parseHeader_header message.type small]
  by_cases positive : message.payload.length > 0
  · obtain ⟨payload, rest, payloadRead, payloadLength, payloadConsumes⟩ :=
      recvAll_returns headerConsumes.isOpen message.payload.length
        (fun offset member => by
          have late := uninterrupted (offset + kHeaderSize) (by
            rw [headerConsumes.timeouts, headerLength]
            exact List.mem_map_of_mem member)
          omega)
        (by rw [remaining, List.length_append]; omega)
    have payloadSplit : payload ++ rest.bytes =
        message.payload ++ later := by
      rw [← payloadConsumes.bytes, remaining]
    obtain ⟨rfl, _⟩ := List.append_inj payloadSplit payloadLength
    refine ⟨rest, ?_, ?_⟩
    · rw [if_pos positive, payloadRead]
    · rw [frameContent]
      exact headerConsumes.trans payloadConsumes
  · have empty : message.payload = [] :=
      List.eq_nil_of_length_eq_zero (by omega)
    refine ⟨afterHeader, ?_, ?_⟩
    · rw [if_neg positive, ← empty]
    · rw [frameContent, empty, List.append_nil]
      simpa [empty] using headerConsumes

/-- A timeout that is met before the first byte costs nothing. -/
theorem recvMsg_timeout
    {wire : Wire} (isOpen : wire.Open)
    (atStart : 0 ∈ wire.timeouts)
    (nothingInside :
      ∀ offset ∈ wire.timeouts, offset < kHeaderSize → offset = 0) :
    ∃ rest, recvMsg wire = (.failed, rest) ∧ wire.Breaks [] rest := by
  have spec := recvAll_spec kHeaderSize [] wire isOpen (by simp)
  unfold recvMsg
  generalize recvAll kHeaderSize [] wire = result at spec ⊢
  obtain ⟨outcome, rest⟩ := result
  cases outcome with
  | returned block =>
      obtain ⟨_, rfl, length, consumes⟩ := spec
      rw [consumes.timeouts] at atStart
      obtain ⟨offset, _, zero⟩ := List.mem_map.mp atStart
      rw [length, kHeaderSize] at zero
      omega
  | failed =>
      obtain ⟨taken, missing, breaks⟩ := spec
      have zero : taken.length = 0 := by
        apply nothingInside taken.length
        · rw [breaks.timeouts]
          exact List.mem_cons_self
        · simpa using missing
      obtain rfl : taken = [] := List.eq_nil_of_length_eq_zero zero
      exact ⟨rest, rfl, breaks⟩
  | blocked =>
      rw [spec.1] at atStart
      cases atStart

/-! ## Whole connections -/

theorem mem_boundaries_cons
    {message : Message} {rest : List Message} {offset : Nat} :
    offset ∈ boundaries (message :: rest) ↔
      offset = 0 ∨
        ∃ later ∈ boundaries rest, later + message.frame.length = offset := by
  simp [boundaries]

theorem zero_mem_boundaries (sent : List Message) :
    0 ∈ boundaries sent := by
  cases sent <;> exact List.mem_cons_self

theorem kHeaderSize_le_frame (message : Message) :
    kHeaderSize ≤ message.frame.length := by
  rw [Message.frame, length_frame]
  exact Nat.le_add_right _ _

theorem Wire.timeouts_of_bytes_nil
    {wire : Wire} (empty : wire.bytes = []) :
    ∀ offset ∈ wire.timeouts, offset = 0 := by
  induction wire with
  | nil =>
      intro offset member
      cases member
  | cons delivery rest inductionHypothesis =>
      cases delivery with
      | data first more =>
          cases empty
      | interrupted =>
          exact inductionHypothesis empty
      | timedOut =>
          intro offset member
          rcases List.mem_cons.mp member with rfl | member
          · rfl
          · exact inductionHypothesis empty offset member
      | closed =>
          intro offset member
          cases member

/-- Timeouts between frames do no harm: enough calls return every message. -/
theorem receiveLoop_of_boundaries
    {calls : Nat} {wire : Wire} {sent : List Message}
    (isOpen : wire.Open) (enough : wire.size < calls)
    (small : ∀ message ∈ sent, message.payload.length ≤ kMaxPayload)
    (content : wire.bytes = sent.flatMap Message.frame)
    (aligned : ∀ offset ∈ wire.timeouts, offset ∈ boundaries sent) :
    receiveLoop calls wire = sent := by
  induction calls generalizing wire sent with
  | zero =>
      exact absurd enough (Nat.not_lt_zero _)
  | succ calls inductionHypothesis =>
      unfold receiveLoop
      by_cases atStart : 0 ∈ wire.timeouts
      · obtain ⟨rest, failed, breaks⟩ := recvMsg_timeout isOpen atStart (by
          intro offset member inside
          have boundary := aligned offset member
          cases sent with
          | nil =>
              simpa [boundaries] using boundary
          | cons message later =>
              rcases mem_boundaries_cons.mp boundary with zero | ⟨before, _, rfl⟩
              · exact zero
              · have long := kHeaderSize_le_frame message
                omega)
        have smaller := breaks.size
        rw [List.length_nil] at smaller
        rw [failed]
        apply inductionHypothesis breaks.isOpen (by omega) small
        · rw [← content, breaks.bytes, List.nil_append]
        · intro offset member
          apply aligned
          rw [breaks.timeouts]
          exact List.mem_cons_of_mem _ (List.mem_map.mpr ⟨offset, member, rfl⟩)
      · cases sent with
        | nil =>
            -- without bytes every timeout is at the start, so there is none
            have noTimeouts : wire.timeouts = [] := by
              apply List.eq_nil_iff_forall_not_mem.mpr
              intro offset member
              have zero := Wire.timeouts_of_bytes_nil content offset member
              exact atStart (zero ▸ member)
            have spec := recvMsg_spec wire isOpen
            generalize recvMsg wire = result at spec ⊢
            obtain ⟨outcome, rest⟩ := result
            cases outcome with
            | returned message =>
                obtain ⟨taken, length, consumes⟩ := spec
                have total := congrArg List.length consumes.bytes
                rw [content, List.length_append, length, kHeaderSize] at total
                simp only [List.flatMap_nil, List.length_nil] at total
                omega
            | failed =>
                obtain ⟨taken, breaks | ⟨positive, consumes⟩⟩ := spec
                · rw [breaks.timeouts] at noTimeouts
                  cases noTimeouts
                · have total := congrArg List.length consumes.bytes
                  rw [content, List.length_append] at total
                  simp only [List.flatMap_nil, List.length_nil] at total
                  omega
            | blocked =>
                rfl
        | cons message later =>
            have long := kHeaderSize_le_frame message
            obtain ⟨rest, returned, consumes⟩ := recvMsg_frame isOpen
              (small message List.mem_cons_self) content (by
                intro offset member
                rcases mem_boundaries_cons.mp (aligned offset member) with
                  rfl | ⟨before, _, rfl⟩
                · exact absurd member atStart
                · exact Nat.le_add_left _ _)
            have smaller := consumes.size
            rw [kHeaderSize] at long
            rw [returned]
            dsimp only
            congr 1
            apply inductionHypothesis consumes.isOpen (by omega)
              (fun other member => small other (List.mem_cons_of_mem _ member))
            · exact List.append_cancel_left
                (consumes.bytes.symm.trans content)
            · intro offset member
              have shifted : offset + message.frame.length ∈ wire.timeouts := by
                rw [consumes.timeouts]
                exact List.mem_map.mpr ⟨offset, member, rfl⟩
              rcases mem_boundaries_cons.mp (aligned _ shifted) with
                zero | ⟨before, boundary, same⟩
              · omega
              · obtain rfl : before = offset := Nat.add_right_cancel same
                exact boundary

/-- The messages returned never have more bytes than arrived, and as many only
if every timeout fell between two of them: a call that fails after reading
something drops what it read. -/
theorem receiveLoop_accounts
    (calls : Nat) (wire : Wire) (isOpen : wire.Open) :
    ((receiveLoop calls wire).flatMap Message.frame).length ≤
        wire.bytes.length ∧
      (((receiveLoop calls wire).flatMap Message.frame).length =
          wire.bytes.length →
        ∀ offset ∈ wire.timeouts,
          offset ∈ boundaries (receiveLoop calls wire)) := by
  induction calls generalizing wire with
  | zero =>
      refine ⟨Nat.zero_le _, ?_⟩
      intro noBytes offset member
      have empty : wire.bytes = [] :=
        List.eq_nil_of_length_eq_zero noBytes.symm
      rw [Wire.timeouts_of_bytes_nil empty offset member]
      exact zero_mem_boundaries _
  | succ calls inductionHypothesis =>
      have spec := recvMsg_spec wire isOpen
      unfold receiveLoop
      generalize recvMsg wire = result at spec ⊢
      obtain ⟨outcome, rest⟩ := result
      cases outcome with
      | returned message =>
          obtain ⟨taken, length, consumes⟩ := spec
          obtain ⟨bound, whenEqual⟩ := inductionHypothesis rest consumes.isOpen
          have frameLength : message.frame.length = taken.length := by
            rw [length]
            exact length_frame message.type message.payload
          dsimp only
          rw [List.flatMap_cons, consumes.bytes, List.length_append,
            List.length_append, frameLength]
          refine ⟨by omega, ?_⟩
          intro total offset member
          rw [consumes.timeouts] at member
          obtain ⟨before, inRest, rfl⟩ := List.mem_map.mp member
          rw [← frameLength]
          exact mem_boundaries_cons.mpr
            (Or.inr ⟨before, whenEqual (by omega) before inRest, rfl⟩)
      | failed =>
          obtain ⟨taken, breaks | ⟨positive, consumes⟩⟩ := spec
          · obtain ⟨bound, whenEqual⟩ := inductionHypothesis rest breaks.isOpen
            dsimp only
            rw [breaks.bytes, List.length_append]
            refine ⟨by omega, ?_⟩
            intro total offset member
            have zero : taken.length = 0 := by omega
            rw [breaks.timeouts, zero] at member
            rcases List.mem_cons.mp member with rfl | later
            · exact zero_mem_boundaries _
            · obtain ⟨before, inRest, rfl⟩ := List.mem_map.mp later
              exact whenEqual (by omega) before inRest
          · obtain ⟨bound, _⟩ := inductionHypothesis rest consumes.isOpen
            dsimp only
            rw [consumes.bytes, List.length_append]
            exact ⟨by omega, fun total => by omega⟩
      | blocked =>
          refine ⟨Nat.zero_le _, ?_⟩
          intro _ offset member
          have noTimeouts : wire.timeouts = [] := spec
          rw [noTimeouts] at member
          cases member

theorem aligned_of_receives
    {sent : List Message} {wire : Wire} (isOpen : wire.Open)
    (content : wire.bytes = sent.flatMap Message.frame)
    (receives : ∃ enough, ∀ calls, enough ≤ calls →
      receiveLoop calls wire = sent) :
    ∀ offset ∈ wire.timeouts, offset ∈ boundaries sent := by
  obtain ⟨enough, returns⟩ := receives
  have same := returns enough (Nat.le_refl _)
  have accounts := (receiveLoop_accounts enough wire isOpen).2
  rw [same] at accounts
  exact accounts (by rw [content])

/-- The receive loops return exactly the messages sent if and only if every
receive timeout falls between two frames. -/
theorem stream_survives_timeouts_iff
    (sent : List Message) (wire : Wire) (isOpen : wire.Open)
    (small : ∀ message ∈ sent, message.payload.length ≤ kMaxPayload)
    (content : wire.bytes = sent.flatMap Message.frame) :
    (∃ enough, ∀ calls, enough ≤ calls → receiveLoop calls wire = sent) ↔
      ∀ offset ∈ wire.timeouts, offset ∈ boundaries sent := by
  constructor
  · exact aligned_of_receives isOpen content
  · intro aligned
    refine ⟨wire.size + 1, ?_⟩
    intro calls enough
    exact receiveLoop_of_boundaries isOpen enough small content aligned

/-- Two messages that arrive in pieces, with a timeout between them. -/
theorem stream_survives_timeout_between_frames :
    ∃ enough, ∀ calls, enough ≤ calls →
      receiveLoop calls
          [.timedOut,
            .data 0x52 [0x44, 0x59, 0x48, 5, 0, 0],
            .interrupted,
            .data 0 [1, 0, 0, 0, 7],
            .timedOut,
            .data 0x52 [0x44, 0x59, 0x48, 7, 0, 0, 0, 0, 0, 0, 0]] =
        [⟨.stealRequest, [7]⟩, ⟨.taskResult, []⟩] :=
  (stream_survives_timeouts_iff [⟨.stealRequest, [7]⟩, ⟨.taskResult, []⟩] _
    (by unfold Wire.Open; decide) (by decide) (by decide)).mpr (by decide)

/-- A connection on which a timeout falls between the header and the payload of
a single message, whose payload happens to look like a frame. -/
def interruptedFrame : Wire :=
  [.data 0x52 [0x44, 0x59, 0x48, 1, 0, 0, 0, 12, 0, 0, 0],
    .timedOut,
    .data 0x52 [0x44, 0x59, 0x48, 7, 0, 0, 0, 0, 0, 0, 0]]

/-- That message is lost and another one is invented. -/
theorem stream_broken_by_timeout :
    ∃ sent : List Message,
      (∀ message ∈ sent, message.payload.length ≤ kMaxPayload) ∧
        interruptedFrame.Open ∧
        interruptedFrame.bytes = sent.flatMap Message.frame ∧
        sent.length = 1 ∧
        receiveLoop 2 interruptedFrame = [⟨.taskResult, []⟩] ∧
        ⟨.taskResult, []⟩ ∉ sent ∧
        ¬ ∃ enough, ∀ calls, enough ≤ calls →
          receiveLoop calls interruptedFrame = sent := by
  have isOpen : interruptedFrame.Open := by
    unfold Wire.Open
    decide
  refine ⟨[⟨.register, Net.frame .taskResult []⟩], by decide, isOpen,
    by decide, rfl, by decide, by decide, ?_⟩
  intro receives
  have aligned := aligned_of_receives isOpen (by decide) receives 12
    (by decide)
  revert aligned
  decide

end HydraRT.Net
