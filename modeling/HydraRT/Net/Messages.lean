import HydraRT.Net.Protocol
import HydraRT.Runtime.Task

/-!
# Messages

The seven messages of the protocol and the payload of an inference stage, each
with its two hand-written halves.  Both halves are shown to follow one format;
what a receiver recovers and what it accepts are then properties of the format.

A `std::string` is a block of bytes.
-/

namespace HydraRT.Net

open HydraRT.Lib HydraRT.Inference

/-- A task with all its fields. -/
structure Task where
  taskId : UInt64 := 0
  parentId : UInt64 := 0
  depth : UInt32 := 0
  costHint : UInt32 := 1
  submitNs : UInt64 := 0
  originNode : NodeId := 0
  type : TaskType := .generic
  fn : Option Closure := none
  payload : Bytes := []
  deriving DecidableEq, Repr

structure NodeInfo where
  nodeId : NodeId := 0
  host : Bytes := []
  port : UInt16 := 0
  numWorkers : UInt32 := 0
  label : Bytes := []
  pending : UInt64 := 0
  deriving DecidableEq, Repr

structure RegisterMsg where
  host : Bytes := []
  port : UInt16 := 0
  numWorkers : UInt32 := 0
  label : Bytes := []
  deriving DecidableEq, Repr

structure RegisterAckMsg where
  nodeId : NodeId := 0
  deriving DecidableEq, Repr

structure HeartbeatMsg where
  nodeId : NodeId := 0
  pending : UInt64 := 0
  completed : UInt64 := 0
  deriving DecidableEq, Repr

structure NodeListMsg where
  nodes : List NodeInfo := []
  deriving DecidableEq, Repr

structure StealRequestMsg where
  requesterNode : NodeId := 0
  maxTasks : UInt32 := 1
  /-- `Count` stands for no preference. -/
  preferredType : UInt16 := UInt16.ofNat TaskType.count
  deriving DecidableEq, Repr

structure StealResponseMsg where
  tasks : List Task := []
  victimPending : UInt64 := 0
  deriving DecidableEq, Repr

structure TaskResultMsg where
  taskId : UInt64 := 0
  status : UInt32 := 0
  deriving DecidableEq, Repr

/-! ## Writing -/

/-- `encode_task`. -/
def encodeTask (writer : ByteWriter) (t : Task) : ByteWriter :=
  ((((((writer.u64 t.taskId).u64 t.parentId).u32 t.depth).u32
    t.costHint).u32 t.originNode).u16 t.type.raw).blob t.payload

/-- `encode_node_info`. -/
def encodeNodeInfo (writer : ByteWriter) (n : NodeInfo) : ByteWriter :=
  (((((writer.u32 n.nodeId).str n.host).u16 n.port).u32
    n.numWorkers).str n.label).u64 n.pending

def RegisterMsg.encode (m : RegisterMsg) : Bytes :=
  ((((({ } : ByteWriter).str m.host).u16 m.port).u32
    m.numWorkers).str m.label).buf

def RegisterAckMsg.encode (m : RegisterAckMsg) : Bytes :=
  (({ } : ByteWriter).u32 m.nodeId).buf

def HeartbeatMsg.encode (m : HeartbeatMsg) : Bytes :=
  (((({ } : ByteWriter).u32 m.nodeId).u64 m.pending).u64 m.completed).buf

def NodeListMsg.encode (m : NodeListMsg) : Bytes :=
  (m.nodes.foldl encodeNodeInfo
    (({ } : ByteWriter).u32 (UInt32.ofNat m.nodes.length))).buf

def StealRequestMsg.encode (m : StealRequestMsg) : Bytes :=
  (((({ } : ByteWriter).u32 m.requesterNode).u32 m.maxTasks).u16
    m.preferredType).buf

def StealResponseMsg.encode (m : StealResponseMsg) : Bytes :=
  ((m.tasks.foldl encodeTask
    (({ } : ByteWriter).u32 (UInt32.ofNat m.tasks.length))).u64
      m.victimPending).buf

def TaskResultMsg.encode (m : TaskResultMsg) : Bytes :=
  ((({ } : ByteWriter).u64 m.taskId).u32 m.status).buf

def encodeStage (p : StagePayload) : Bytes :=
  (((((({ } : ByteWriter).u64 (UInt64.ofNat p.requestId)).u8 p.kind.raw).u8
    p.stage.raw).u32 p.imagePixels).u32 p.sequenceLength).u32
      p.batchSize |>.buf

/-! ## Reading

A decoder overwrites its output field by field, also when it fails. -/

/-- `decode_task`. -/
def decodeTask (reader : ByteReader) : Task × ByteReader :=
  let (taskId, reader) := reader.u64
  let (parentId, reader) := reader.u64
  let (depth, reader) := reader.u32
  let (costHint, reader) := reader.u32
  let (originNode, reader) := reader.u32
  let (type, reader) := reader.u16
  let (payload, reader) := reader.blob
  ({ taskId, parentId, depth, costHint, originNode, type := ⟨type⟩,
      payload }, reader)

/-- `decode_node_info`. -/
def decodeNodeInfo (reader : ByteReader) : NodeInfo × ByteReader :=
  let (nodeId, reader) := reader.u32
  let (host, reader) := reader.str
  let (port, reader) := reader.u16
  let (numWorkers, reader) := reader.u32
  let (label, reader) := reader.str
  let (pending, reader) := reader.u64
  ({ nodeId, host, port, numWorkers, label, pending }, reader)

def RegisterMsg.decode (b : Bytes) (m : RegisterMsg) : Bool × RegisterMsg :=
  let (host, reader) := ({ data := b } : ByteReader).str
  let m := { m with host }
  let (port, reader) := reader.u16
  let m := { m with port }
  let (numWorkers, reader) := reader.u32
  let m := { m with numWorkers }
  let (label, reader) := reader.str
  let m := { m with label }
  (reader.ok, m)

def RegisterAckMsg.decode (b : Bytes) (m : RegisterAckMsg) :
    Bool × RegisterAckMsg :=
  let (nodeId, reader) := ({ data := b } : ByteReader).u32
  let m := { m with nodeId }
  (reader.ok, m)

def HeartbeatMsg.decode (b : Bytes) (m : HeartbeatMsg) :
    Bool × HeartbeatMsg :=
  let (nodeId, reader) := ({ data := b } : ByteReader).u32
  let m := { m with nodeId }
  let (pending, reader) := reader.u64
  let m := { m with pending }
  let (completed, reader) := reader.u64
  let m := { m with completed }
  (reader.ok, m)

def NodeListMsg.decode (b : Bytes) (m : NodeListMsg) : Bool × NodeListMsg :=
  let (filled, nodes, reader) :=
    ByteReader.decodeList decodeNodeInfo { data := b } m.nodes
  let m := { m with nodes }
  if filled then (reader.ok, m) else (false, m)

def StealRequestMsg.decode (b : Bytes) (m : StealRequestMsg) :
    Bool × StealRequestMsg :=
  let (requesterNode, reader) := ({ data := b } : ByteReader).u32
  let m := { m with requesterNode }
  let (maxTasks, reader) := reader.u32
  let m := { m with maxTasks }
  let (preferredType, reader) := reader.u16
  let m := { m with preferredType }
  (reader.ok, m)

def StealResponseMsg.decode (b : Bytes) (m : StealResponseMsg) :
    Bool × StealResponseMsg :=
  let (filled, tasks, reader) :=
    ByteReader.decodeList decodeTask { data := b } m.tasks
  let m := { m with tasks }
  if filled then
    let (victimPending, reader) := reader.u64
    (reader.ok, { m with victimPending })
  else (false, m)

def TaskResultMsg.decode (b : Bytes) (m : TaskResultMsg) :
    Bool × TaskResultMsg :=
  let (taskId, reader) := ({ data := b } : ByteReader).u64
  let m := { m with taskId }
  let (status, reader) := reader.u32
  let m := { m with status }
  (reader.ok, m)

def decodeStage (bytes : Bytes) (out : StagePayload) : Bool × StagePayload :=
  let (requestId, reader) := ({ data := bytes } : ByteReader).u64
  let out := { out with requestId := requestId.toNat }
  let (kind, reader) := reader.u8
  let out := { out with kind := ⟨kind⟩ }
  let (stage, reader) := reader.u8
  let out := { out with stage := ⟨stage⟩ }
  let (imagePixels, reader) := reader.u32
  let out := { out with imagePixels }
  let (sequenceLength, reader) := reader.u32
  let out := { out with sequenceLength }
  let (batchSize, reader) := reader.u32
  let out := { out with batchSize }
  (reader.ok, out)

/-! ## The formats -/

namespace Formats

def nodeInfo : Format NodeInfo :=
  (u32.pair (blob.pair (u16.pair (u32.pair (blob.pair u64))))).convert
    (fun n => (n.nodeId, n.host, n.port, n.numWorkers, n.label, n.pending))
    (fun v => ⟨v.1, v.2.1, v.2.2.1, v.2.2.2.1, v.2.2.2.2.1, v.2.2.2.2.2⟩)
    (fun _ _ => rfl)

/-- The portable form of a task. -/
def task : Format Task :=
  (u64.pair (u64.pair (u32.pair (u32.pair
    (u32.pair (u16.pair blob)))))).convert
    (fun t => (t.taskId, t.parentId, t.depth, t.costHint, t.originNode,
      t.type.raw, t.payload))
    (fun v => ⟨v.1, v.2.1, v.2.2.1, v.2.2.2.1, 0, v.2.2.2.2.1,
      ⟨v.2.2.2.2.2.1⟩, none, v.2.2.2.2.2.2⟩)
    (fun _ _ => rfl)

def registerMsg : Format RegisterMsg :=
  (blob.pair (u16.pair (u32.pair blob))).convert
    (fun m => (m.host, m.port, m.numWorkers, m.label))
    (fun v => ⟨v.1, v.2.1, v.2.2.1, v.2.2.2⟩)
    (fun _ _ => rfl)

def registerAckMsg : Format RegisterAckMsg :=
  u32.convert RegisterAckMsg.nodeId RegisterAckMsg.mk (fun _ _ => rfl)

def heartbeatMsg : Format HeartbeatMsg :=
  (u32.pair (u64.pair u64)).convert
    (fun m => (m.nodeId, m.pending, m.completed))
    (fun v => ⟨v.1, v.2.1, v.2.2⟩)
    (fun _ _ => rfl)

def nodeListMsg : Format NodeListMsg :=
  ((Format.uint 4).counted nodeInfo).convert NodeListMsg.nodes
    NodeListMsg.mk (fun _ _ => rfl)

def stealRequestMsg : Format StealRequestMsg :=
  (u32.pair (u32.pair u16)).convert
    (fun m => (m.requesterNode, m.maxTasks, m.preferredType))
    (fun v => ⟨v.1, v.2.1, v.2.2⟩)
    (fun _ _ => rfl)

def stealResponseMsg : Format StealResponseMsg :=
  (((Format.uint 4).counted task).pair u64).convert
    (fun m => (m.tasks, m.victimPending))
    (fun v => ⟨v.1, v.2⟩)
    (fun _ _ => rfl)

def taskResultMsg : Format TaskResultMsg :=
  (u64.pair u32).convert
    (fun m => (m.taskId, m.status))
    (fun v => ⟨v.1, v.2⟩)
    (fun _ _ => rfl)

def stagePayload : Format StagePayload :=
  (u64.pair (u8.pair (u8.pair (u32.pair (u32.pair u32))))).convert
    (fun p => (UInt64.ofNat p.requestId, p.kind.raw, p.stage.raw,
      p.imagePixels, p.sequenceLength, p.batchSize))
    (fun v => ⟨v.1.toNat, ⟨v.2.1⟩, ⟨v.2.2.1⟩, v.2.2.2.1, v.2.2.2.2.1,
      v.2.2.2.2.2⟩)
    (fun v _ => by simp)

theorem nodeInfo_follows : ByteReader.Follows decodeNodeInfo nodeInfo :=
  ByteReader.Follows.of_eq
    ((u32_follows.pair (blob_follows.pair (u16_follows.pair
      (u32_follows.pair (blob_follows.pair u64_follows))))).convert _ _ _)
    rfl

theorem task_follows : ByteReader.Follows decodeTask task :=
  ByteReader.Follows.of_eq
    ((u64_follows.pair (u64_follows.pair (u32_follows.pair (u32_follows.pair
      (u32_follows.pair (u16_follows.pair blob_follows)))))).convert _ _ _)
    rfl

/-! ### The writers write them -/

/-- A call of the writer appends what the format writes. -/
def Writes {Value : Type} (write : ByteWriter → Value → ByteWriter)
    (format : Format Value) : Prop :=
  ∀ writer value, (write writer value).buf =
    writer.buf ++ format.write value

theorem u8_writes : Writes ByteWriter.u8 u8 := by
  intro writer value
  have single : toBytes 1 value.toNat = [value] := by
    rw [toBytes_succ, UInt8.ofNat_toNat]
    rfl
  exact congrArg (writer.buf ++ ·) single.symm

theorem u16_writes : Writes ByteWriter.u16 u16 := fun _ _ => rfl

theorem u32_writes : Writes ByteWriter.u32 u32 := fun _ _ => rfl

theorem u64_writes : Writes ByteWriter.u64 u64 := fun _ _ => rfl

theorem blob_writes : Writes ByteWriter.blob blob := by
  intro writer value
  change writer.buf ++ toBytes 4 (UInt32.ofNat value.length).toNat ++ value =
    writer.buf ++ (toBytes 4 value.length ++ value)
  rw [toBytes_toNat_ofNat, List.append_assoc]

theorem str_writes : Writes ByteWriter.str blob := blob_writes

theorem nodeInfo_writes : Writes encodeNodeInfo nodeInfo := by
  intro writer n
  rw [encodeNodeInfo, u64_writes, str_writes, u32_writes, u16_writes,
    str_writes, u32_writes]
  simp only [nodeInfo, Format.write_convert, Format.write_pair,
    List.append_assoc]

theorem task_writes : Writes encodeTask task := by
  intro writer t
  rw [encodeTask, blob_writes, u16_writes, u32_writes, u32_writes,
    u32_writes, u64_writes, u64_writes]
  simp only [task, Format.write_convert, Format.write_pair,
    List.append_assoc]

/-- The loop that writes a list. -/
theorem foldl_writes {Value : Type}
    {write : ByteWriter → Value → ByteWriter} {format : Format Value}
    (writes : Writes write format) (writer : ByteWriter)
    (values : List Value) :
    (values.foldl write writer).buf =
      writer.buf ++ values.flatMap format.write := by
  induction values generalizing writer with
  | nil =>
      simp
  | cons value others inductionHypothesis =>
      rw [List.foldl_cons, inductionHypothesis, writes, List.flatMap_cons,
        List.append_assoc]

end Formats

/-! ## The two halves of a message -/

/-- Decoding what was encoded, whatever follows it and whatever the output
held before. -/
def RoundTrips {Msg : Type} (encode : Msg → Bytes)
    (decode : Bytes → Msg → Bool × Msg) (Short : Msg → Prop)
    (received : Msg → Msg) : Prop :=
  ∀ m, Short m → ∀ (s : Bytes) (prior : Msg),
    decode (encode m ++ s) prior = (true, received m)

/-- Only encodings are accepted. -/
def Canonical {Msg : Type} (encode : Msg → Bytes)
    (decode : Bytes → Msg → Bool × Msg) : Prop :=
  ∀ (b : Bytes) (prior m : Msg), decode b prior = (true, m) →
    encode m <+: b

/-- A truncated encoding is not accepted. -/
def RejectsTruncated {Msg : Type} (encode : Msg → Bytes)
    (decode : Bytes → Msg → Bool × Msg) (Short : Msg → Prop) : Prop :=
  ∀ m, Short m → ∀ (b : Bytes) (prior : Msg), b <+: encode m →
    b ≠ encode m → (decode b prior).1 = false

/-- Both halves of a message follow the format.  What the receiver gets is
written as the message was. -/
structure Halves {Msg : Type} (encode : Msg → Bytes)
    (decode : Bytes → Msg → Bool × Msg) (received : Msg → Msg)
    (format : Format Msg) : Prop where
  encodes : ∀ m, encode m = format.write m
  write_received : ∀ m, format.write (received m) = format.write m
  accepts : ∀ b prior m rest, format.read b = some (m, rest) →
    decode b prior = (true, m)
  rejects : ∀ b prior, format.read b = none → (decode b prior).1 = false

namespace Halves

variable {Msg : Type} {encode : Msg → Bytes}
  {decode : Bytes → Msg → Bool × Msg} {received : Msg → Msg}
  {format : Format Msg} {Short : Msg → Prop}

theorem roundTrips (halves : Halves encode decode received format)
    (fits : ∀ m, Short m → format.Fits (received m)) :
    RoundTrips encode decode Short received := by
  intro m short s prior
  apply halves.accepts _ prior (received m) s
  rw [halves.encodes, ← halves.write_received]
  exact format.read_write (received m) s (fits m short)

theorem canonical (halves : Halves encode decode received format) :
    Canonical encode decode := by
  intro b prior m accepted
  cases found : format.read b with
  | none =>
      have rejected := halves.rejects b prior found
      rw [accepted] at rejected
      cases rejected
  | some result =>
      obtain ⟨other, rest⟩ := result
      have decoded := halves.accepts b prior other rest found
      rw [accepted] at decoded
      cases decoded
      obtain ⟨_, content⟩ := format.eq_of_read found
      rw [halves.encodes, content]
      exact List.prefix_append _ _

theorem rejectsTruncated (halves : Halves encode decode received format)
    (fits : ∀ m, Short m → format.Fits (received m)) :
    RejectsTruncated encode decode Short := by
  intro m short b prior isPrefix proper
  apply halves.rejects
  rw [halves.encodes, ← halves.write_received] at isPrefix proper
  exact format.read_eq_none_of_prefix (fits m short) isPrefix proper

/-- A decoder that reads one value and reports the flag of its reader. -/
theorem of_follows {read : ByteReader → Msg × ByteReader}
    (follows : ByteReader.Follows read format)
    (encodes : ∀ m, encode m = format.write m)
    (decodes : ∀ b prior, decode b prior =
      ((read { data := b }).2.ok, (read { data := b }).1)) :
    Halves encode decode id format where
  encodes := encodes
  write_received _ := rfl
  accepts := by
    intro b prior m rest found
    have reads := follows.accepts { data := b } rfl (Nat.zero_le _) m rest
      found
    rw [decodes, reads.ok, reads.value]
  rejects := by
    intro b prior found
    rw [decodes]
    exact follows.rejects { data := b } rfl (Nat.zero_le _) found

end Halves

section ListHalves

variable {Value : Type} {read : ByteReader → Value × ByteReader}
  {format : Format Value}

/-- The loop succeeds where the counted format does. -/
theorem decodeList_of_read (follows : ByteReader.Follows read format)
    {b : Bytes} {values : List Value} {rest : Bytes}
    (accepted : ((Format.uint 4).counted format).read b =
      some (values, rest)) (prior : List Value) :
    ∃ following, ByteReader.decodeList read { data := b } prior =
        (true, values, following) ∧
      following.ok = true ∧ following.Valid ∧ following.rest = rest := by
  obtain ⟨⟨count, middle⟩, readSize, readAll⟩ :=
    Option.bind_eq_some_iff.mp accepted
  have reads := Formats.size_follows.accepts { data := b } rfl
    (Nat.zero_le _) count middle readSize
  have found : format.readMany count middle = some (values, rest) := readAll
  rw [← reads.value, ← reads.rest] at found
  obtain ⟨following, decoded, isOk, valid, left⟩ :=
    ByteReader.decodeEach_of_read follows _ reads.ok reads.valid found []
  refine ⟨following, ?_, isOk, valid, left⟩
  rw [ByteReader.decodeList_eq, if_pos reads.ok]
  exact decoded

theorem decodeList_of_none (follows : ByteReader.Follows read format)
    {b : Bytes}
    (rejected : ((Format.uint 4).counted format).read b = none)
    (prior : List Value) :
    (ByteReader.decodeList read { data := b } prior).1 = false := by
  rw [ByteReader.decodeList_eq]
  cases readSize : (Format.uint 4).read b with
  | none =>
      have failed := Formats.size_follows.rejects { data := b } rfl
        (Nat.zero_le _) readSize
      rw [if_neg (by simpa using failed)]
  | some result =>
      obtain ⟨count, middle⟩ := result
      have reads := Formats.size_follows.accepts { data := b } rfl
        (Nat.zero_le _) count middle readSize
      have sameCount : ({ data := b } : ByteReader).u32.1.toNat = count :=
        reads.value
      rw [if_pos reads.ok]
      apply ByteReader.decodeEach_of_none follows _ reads.ok reads.valid
      rw [reads.rest, sameCount]
      simpa [Format.counted, Format.sized, Format.many, readSize]
        using rejected

end ListHalves

/-! ## The messages one by one -/

/-- What is left of a task at the other end: a closure cannot travel and the
submission time is not sent. -/
def Task.received (t : Task) : Task :=
  { t with fn := none, submitNs := 0 }

def StealResponseMsg.received (m : StealResponseMsg) : StealResponseMsg :=
  { m with tasks := m.tasks.map Task.received }

def Task.Short (t : Task) : Prop :=
  t.payload.length < 2 ^ 32

def NodeInfo.Short (n : NodeInfo) : Prop :=
  n.host.length < 2 ^ 32 ∧ n.label.length < 2 ^ 32

def RegisterMsg.Short (m : RegisterMsg) : Prop :=
  m.host.length < 2 ^ 32 ∧ m.label.length < 2 ^ 32

def NodeListMsg.Short (m : NodeListMsg) : Prop :=
  m.nodes.length < 2 ^ 32 ∧ ∀ n ∈ m.nodes, n.Short

def StealResponseMsg.Short (m : StealResponseMsg) : Prop :=
  m.tasks.length < 2 ^ 32 ∧ ∀ t ∈ m.tasks, t.Short

/-- The range of the 64-bit id. -/
def InRange (p : StagePayload) : Prop :=
  p.requestId < 2 ^ 64

/-- Messages without strings, blobs and vectors. -/
def Always {Msg : Type} (_ : Msg) : Prop :=
  True

namespace Formats

theorem nodeInfo_fits {n : NodeInfo} (short : n.Short) : nodeInfo.Fits n := by
  refine ⟨?_, rfl⟩
  simpa [Format.pair, NodeInfo.Short] using short

theorem task_fits {t : Task} (short : t.Short) : task.Fits t.received := by
  refine ⟨?_, rfl⟩
  simpa [Format.pair, Task.received, Task.Short] using short

theorem registerMsg_fits {m : RegisterMsg} (short : m.Short) :
    registerMsg.Fits m := by
  refine ⟨?_, rfl⟩
  simpa [Format.pair, RegisterMsg.Short] using short

theorem counted_fits {Value : Type} {format : Format Value}
    {values : List Value} (small : values.length < 2 ^ 32)
    (each : ∀ value ∈ values, format.Fits value) :
    ((Format.uint 4).counted format).Fits values := by
  have power : (256 : Nat) ^ 4 = 2 ^ 32 := by decide
  rw [← power] at small
  exact ⟨small, rfl, each⟩

theorem nodeListMsg_fits {m : NodeListMsg} (short : m.Short) :
    nodeListMsg.Fits m := by
  refine ⟨counted_fits short.1 ?_, rfl⟩
  intro n member
  exact nodeInfo_fits (short.2 n member)

theorem stealResponseMsg_fits {m : StealResponseMsg} (short : m.Short) :
    stealResponseMsg.Fits m.received := by
  refine ⟨⟨counted_fits ?_ ?_, u64_fits _⟩, rfl⟩
  · rw [StealResponseMsg.received, List.length_map]
    exact short.1
  · intro t member
    obtain ⟨sent, sentMember, rfl⟩ := List.mem_map.mp member
    exact task_fits (short.2 sent sentMember)

theorem stagePayload_fits {p : StagePayload} (inRange : InRange p) :
    stagePayload.Fits p := by
  refine ⟨?_, ?_⟩
  · simp [Format.pair]
  · have same : (UInt64.ofNat p.requestId).toNat = p.requestId :=
      UInt64.toNat_ofNat_of_lt inRange
    simp only [same]

theorem registerAckMsg_fits (m : RegisterAckMsg) :
    registerAckMsg.Fits m :=
  ⟨u32_fits _, rfl⟩

theorem heartbeatMsg_fits (m : HeartbeatMsg) : heartbeatMsg.Fits m :=
  ⟨⟨u32_fits _, u64_fits _, u64_fits _⟩, rfl⟩

theorem stealRequestMsg_fits (m : StealRequestMsg) :
    stealRequestMsg.Fits m :=
  ⟨⟨u32_fits _, u32_fits _, u16_fits _⟩, rfl⟩

theorem taskResultMsg_fits (m : TaskResultMsg) : taskResultMsg.Fits m :=
  ⟨⟨u64_fits _, u32_fits _⟩, rfl⟩

end Formats

section Halves

open Formats

theorem registerMsg_halves :
    Halves RegisterMsg.encode RegisterMsg.decode id registerMsg := by
  refine Halves.of_follows
    ((blob_follows.pair (u16_follows.pair
      (u32_follows.pair blob_follows))).convert _ _ _) ?_ ?_
  · intro m
    rw [RegisterMsg.encode, str_writes, u32_writes, u16_writes, str_writes]
    simp only [registerMsg, Format.write_convert, Format.write_pair,
      List.nil_append, List.append_assoc]
  · exact fun _ _ => rfl

theorem registerAckMsg_halves :
    Halves RegisterAckMsg.encode RegisterAckMsg.decode id
      registerAckMsg :=
  Halves.of_follows (u32_follows.convert _ _ _) (fun _ => rfl)
    (fun _ _ => rfl)

theorem heartbeatMsg_halves :
    Halves HeartbeatMsg.encode HeartbeatMsg.decode id heartbeatMsg := by
  refine Halves.of_follows
    ((u32_follows.pair (u64_follows.pair u64_follows)).convert _ _ _) ?_ ?_
  · intro m
    rw [HeartbeatMsg.encode, u64_writes, u64_writes, u32_writes]
    simp only [heartbeatMsg, Format.write_convert, Format.write_pair,
      List.nil_append, List.append_assoc]
  · exact fun _ _ => rfl

theorem stealRequestMsg_halves :
    Halves StealRequestMsg.encode StealRequestMsg.decode id
      stealRequestMsg := by
  refine Halves.of_follows
    ((u32_follows.pair (u32_follows.pair u16_follows)).convert _ _ _) ?_ ?_
  · intro m
    rw [StealRequestMsg.encode, u16_writes, u32_writes, u32_writes]
    simp only [stealRequestMsg, Format.write_convert, Format.write_pair,
      List.nil_append, List.append_assoc]
  · exact fun _ _ => rfl

theorem taskResultMsg_halves :
    Halves TaskResultMsg.encode TaskResultMsg.decode id taskResultMsg := by
  refine Halves.of_follows
    ((u64_follows.pair u32_follows).convert _ _ _) ?_ ?_
  · intro m
    rw [TaskResultMsg.encode, u32_writes, u64_writes]
    simp only [taskResultMsg, Format.write_convert, Format.write_pair,
      List.nil_append]
  · exact fun _ _ => rfl

theorem stagePayload_halves :
    Halves encodeStage decodeStage id stagePayload := by
  refine Halves.of_follows
    ((u64_follows.pair (u8_follows.pair (u8_follows.pair (u32_follows.pair
      (u32_follows.pair u32_follows))))).convert _ _ _) ?_ ?_
  · intro p
    rw [encodeStage, u32_writes, u32_writes, u32_writes, u8_writes,
      u8_writes, u64_writes]
    simp only [stagePayload, Format.write_convert, Format.write_pair,
      List.nil_append, List.append_assoc]
  · exact fun _ _ => rfl

theorem stagePayload_readsAll : stagePayload.ReadsAll stageSize :=
  ((((Format.readsAll_uint 8).convert _ _ _).pair
    (((Format.readsAll_uint 1).convert _ _ _).pair
      (((Format.readsAll_uint 1).convert _ _ _).pair
        (((Format.readsAll_uint 4).convert _ _ _).pair
          (((Format.readsAll_uint 4).convert _ _ _).pair
            ((Format.readsAll_uint 4).convert _ _ _)))))).convert _ _ _)

/-- The only payloads that `decode_stage` refuses are too short. -/
theorem decodeStage_ok (bytes : Bytes) (out : StagePayload) :
    (decodeStage bytes out).1 = decide (stageSize ≤ bytes.length) := by
  rw [← stagePayload_readsAll.isSome_read bytes]
  cases found : stagePayload.read bytes with
  | none => exact stagePayload_halves.rejects bytes out found
  | some result =>
      rw [stagePayload_halves.accepts bytes out result.1 result.2 found]
      rfl

/-- What the scheduler's model keeps of a payload. -/
def payloadOf (bytes : Bytes) (out : StagePayload) : Payload :=
  if short : bytes.length < stageSize then
    if bytes.isEmpty then .empty else .foreign bytes short
  else .stage (decodeStage bytes out).2

/-- It decodes to what the bytes decode to. -/
theorem decodeStage_payloadOf (bytes : Bytes) (out : StagePayload) :
    (payloadOf bytes out).decodeStage =
      if (decodeStage bytes out).1 then some (decodeStage bytes out).2
      else none := by
  rw [decodeStage_ok, payloadOf]
  by_cases short : bytes.length < stageSize
  · rw [dif_pos short, decide_eq_false (not_le.mpr short),
      if_neg Bool.false_ne_true]
    cases bytes.isEmpty
    · rfl
    · rfl
  · rw [dif_neg short, decide_eq_true (not_lt.mp short)]
    rfl

/-- The count that the encoders of lists write before the elements. -/
theorem u32_length_buf {Value : Type} (values : List Value) :
    (({ } : ByteWriter).u32 (UInt32.ofNat values.length)).buf =
      toBytes 4 values.length := by
  rw [← toBytes_toNat_ofNat]
  rfl

theorem nodeListMsg_halves :
    Halves NodeListMsg.encode NodeListMsg.decode id nodeListMsg where
  encodes m := by
    rw [NodeListMsg.encode, foldl_writes nodeInfo_writes, u32_length_buf]
    rfl
  write_received _ := rfl
  accepts := by
    intro b prior m rest found
    obtain ⟨⟨nodes, after⟩, readNodes, result⟩ :=
      Option.map_eq_some_iff.mp found
    cases result
    obtain ⟨following, decoded, isOk, _, _⟩ :=
      decodeList_of_read nodeInfo_follows readNodes prior.nodes
    simp only [NodeListMsg.decode, decoded, isOk, if_true]
  rejects := by
    intro b prior found
    have rejected := decodeList_of_none nodeInfo_follows
      (Option.map_eq_none_iff.mp found) prior.nodes
    simp only [NodeListMsg.decode, rejected]
    rfl

theorem stealResponseMsg_halves :
    Halves StealResponseMsg.encode StealResponseMsg.decode
      StealResponseMsg.received stealResponseMsg where
  encodes m := by
    rw [StealResponseMsg.encode, u64_writes, foldl_writes task_writes,
      u32_length_buf]
    rfl
  write_received m := by
    have sameTasks : (m.tasks.map Task.received).flatMap task.write =
        m.tasks.flatMap task.write := by
      rw [List.flatMap_map]
      rfl
    change toBytes 4 (m.tasks.map Task.received).length ++ _ ++ _ = _
    rw [List.length_map]
    change _ ++ (m.tasks.map Task.received).flatMap task.write ++ _ = _
    rw [sameTasks]
    rfl
  accepts := by
    intro b prior m rest found
    obtain ⟨⟨⟨tasks, victimPending⟩, after⟩, readBoth, result⟩ :=
      Option.map_eq_some_iff.mp found
    cases result
    obtain ⟨⟨_, middle⟩, readTasks, remaining⟩ :=
      Option.bind_eq_some_iff.mp readBoth
    obtain ⟨⟨_, _⟩, readPending, same⟩ :=
      Option.map_eq_some_iff.mp remaining
    cases same
    obtain ⟨following, decoded, isOk, valid, left⟩ :=
      decodeList_of_read task_follows readTasks prior.tasks
    dsimp only at readPending
    rw [← left] at readPending
    have reads := u64_follows.accepts following isOk valid _ _ readPending
    simp only [StealResponseMsg.decode, decoded, if_true]
    rw [reads.ok, reads.value]
  rejects := by
    intro b prior found
    have rejected := Option.map_eq_none_iff.mp found
    cases readTasks : ((Format.uint 4).counted task).read b with
    | none =>
        have failed := decodeList_of_none task_follows readTasks prior.tasks
        simp only [StealResponseMsg.decode, failed]
        rfl
    | some result =>
        obtain ⟨tasks, middle⟩ := result
        obtain ⟨following, decoded, isOk, valid, left⟩ :=
          decodeList_of_read task_follows readTasks prior.tasks
        simp only [StealResponseMsg.decode, decoded, if_true]
        apply u64_follows.rejects following isOk valid
        rw [left]
        simpa [Format.pair, readTasks] using rejected

end Halves

/-! ## What a receiver recovers and accepts -/

/-- Every message arrives as it was sent. -/
theorem decode_encode :
    RoundTrips RegisterMsg.encode RegisterMsg.decode RegisterMsg.Short id ∧
    RoundTrips RegisterAckMsg.encode RegisterAckMsg.decode Always id ∧
    RoundTrips HeartbeatMsg.encode HeartbeatMsg.decode Always id ∧
    RoundTrips NodeListMsg.encode NodeListMsg.decode NodeListMsg.Short id ∧
    RoundTrips StealRequestMsg.encode StealRequestMsg.decode Always id ∧
    RoundTrips StealResponseMsg.encode StealResponseMsg.decode
      StealResponseMsg.Short StealResponseMsg.received ∧
    RoundTrips TaskResultMsg.encode TaskResultMsg.decode Always id ∧
    RoundTrips encodeStage decodeStage InRange id := by
  refine ⟨?_, ?_, ?_, ?_, ?_, ?_, ?_, ?_⟩
  · exact registerMsg_halves.roundTrips fun _ => Formats.registerMsg_fits
  · exact registerAckMsg_halves.roundTrips fun m _ =>
      Formats.registerAckMsg_fits m
  · exact heartbeatMsg_halves.roundTrips fun m _ =>
      Formats.heartbeatMsg_fits m
  · exact nodeListMsg_halves.roundTrips fun _ => Formats.nodeListMsg_fits
  · exact stealRequestMsg_halves.roundTrips fun m _ =>
      Formats.stealRequestMsg_fits m
  · exact stealResponseMsg_halves.roundTrips fun _ =>
      Formats.stealResponseMsg_fits
  · exact taskResultMsg_halves.roundTrips fun m _ =>
      Formats.taskResultMsg_fits m
  · exact stagePayload_halves.roundTrips fun _ => Formats.stagePayload_fits

/-- A closure with its payload travels as the payload alone. -/
theorem decode_encode_oneTask :
    StealResponseMsg.decode
        (StealResponseMsg.encode ⟨[⟨7, 3, 1, 2, 9, 4, .matrixBlock,
          some (.user 5), [1, 2]⟩], 6⟩ ++ [255])
        ⟨[{ }, { }], 1⟩ =
      (true, ⟨[⟨7, 3, 1, 2, 0, 4, .matrixBlock, none, [1, 2]⟩], 6⟩) :=
  decode_encode.2.2.2.2.2.1 _
    ⟨by decide, by simp [Task.Short]⟩ [255] ⟨[{ }, { }], 1⟩

/-- The decoder accepts encodings only, and no encoding in parts. -/
def AcceptsEncodings {Msg : Type} (encode : Msg → Bytes)
    (decode : Bytes → Msg → Bool × Msg) (Short : Msg → Prop) : Prop :=
  Canonical encode decode ∧ RejectsTruncated encode decode Short

theorem Halves.acceptsEncodings {Msg : Type} {encode : Msg → Bytes}
    {decode : Bytes → Msg → Bool × Msg} {received : Msg → Msg}
    {format : Format Msg} {Short : Msg → Prop}
    (halves : Halves encode decode received format)
    (fits : ∀ m, Short m → format.Fits (received m)) :
    AcceptsEncodings encode decode Short :=
  ⟨halves.canonical, halves.rejectsTruncated fits⟩

theorem decode_acceptsEncodings :
    AcceptsEncodings RegisterMsg.encode RegisterMsg.decode
      RegisterMsg.Short ∧
    AcceptsEncodings RegisterAckMsg.encode RegisterAckMsg.decode Always ∧
    AcceptsEncodings HeartbeatMsg.encode HeartbeatMsg.decode Always ∧
    AcceptsEncodings NodeListMsg.encode NodeListMsg.decode
      NodeListMsg.Short ∧
    AcceptsEncodings StealRequestMsg.encode StealRequestMsg.decode Always ∧
    AcceptsEncodings StealResponseMsg.encode StealResponseMsg.decode
      StealResponseMsg.Short ∧
    AcceptsEncodings TaskResultMsg.encode TaskResultMsg.decode Always ∧
    AcceptsEncodings encodeStage decodeStage InRange := by
  refine ⟨?_, ?_, ?_, ?_, ?_, ?_, ?_, ?_⟩
  · exact registerMsg_halves.acceptsEncodings fun _ =>
      Formats.registerMsg_fits
  · exact registerAckMsg_halves.acceptsEncodings fun m _ =>
      Formats.registerAckMsg_fits m
  · exact heartbeatMsg_halves.acceptsEncodings fun m _ =>
      Formats.heartbeatMsg_fits m
  · exact nodeListMsg_halves.acceptsEncodings fun _ =>
      Formats.nodeListMsg_fits
  · exact stealRequestMsg_halves.acceptsEncodings fun m _ =>
      Formats.stealRequestMsg_fits m
  · exact stealResponseMsg_halves.acceptsEncodings fun _ =>
      Formats.stealResponseMsg_fits
  · exact taskResultMsg_halves.acceptsEncodings fun m _ =>
      Formats.taskResultMsg_fits m
  · exact stagePayload_halves.acceptsEncodings fun _ =>
      Formats.stagePayload_fits

/-- A registration whose host name consists of zero bytes. -/
def longHost (size : Nat) : RegisterMsg where
  host := List.replicate size 0

theorem encode_longHost {size : Nat} (wraps : size % 2 ^ 32 = 0) :
    (longHost size).encode = List.replicate (size + 14) 0 := by
  have written : (UInt32.ofNat size).toNat = 0 := by
    rw [UInt32.toNat_ofNat']
    exact wraps
  have zeros : toBytes 4 0 = List.replicate 4 0 ∧
      toBytes 2 0 = List.replicate 2 0 := by decide
  simp only [RegisterMsg.encode, longHost, ByteWriter.str, ByteWriter.blob,
    ByteWriter.u32, ByteWriter.u16, ByteWriter.bytes, List.length_replicate,
    written]
  have small : (0 : UInt16).toNat = 0 ∧ (0 : UInt32).toNat = 0 ∧
      (UInt32.ofNat ([] : Bytes).length).toNat = 0 := by decide
  simp only [small, zeros, List.nil_append, List.append_nil,
    List.replicate_append_replicate]
  congr 1
  omega

/-- The length of a host name of `2 ^ 32` bytes is written as zero, and the
first fourteen bytes of the encoding are an encoding themselves. -/
theorem decode_longHost_truncated :
    List.replicate 14 0 <+: (longHost (2 ^ 32)).encode ∧
      List.replicate 14 0 ≠ (longHost (2 ^ 32)).encode ∧
        (RegisterMsg.decode (List.replicate 14 0) { }).1 = true := by
  have content : (longHost (2 ^ 32)).encode =
      List.replicate (2 ^ 32 + 14) 0 :=
    encode_longHost (Nat.mod_self _)
  rw [content]
  refine ⟨?_, ?_, by decide⟩
  · rw [Nat.add_comm, List.replicate_add]
    exact List.prefix_append _ _
  · intro same
    have sameLength := congrArg List.length same
    rw [List.length_replicate, List.length_replicate] at sameLength
    omega

end HydraRT.Net
