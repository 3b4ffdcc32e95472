import HydraRT.Cluster.Node
import HydraRT.Net.Messages
import HydraRT.Net.Stream

/-!
# Answering a steal request

The `StealRequest` case of `Node::serve_peer` with everything that travels: the
tasks taken from the portable pools, what is remembered of them and the frame
that goes to the thief.  The batch is chosen by the number of tasks alone; the
receiver has a limit on bytes.
-/

namespace HydraRT.Net

open HydraRT.Lib
open HydraRT.Cluster (takeOrder giveCount)

/-- `Runtime::remote_pools_`. -/
abbrev Pools := Fin TaskType.count → List Task

namespace Pools

/-- `Runtime::portable_available`. -/
def portableAvailable (pools : Pools) : Nat :=
  ((List.finRange TaskType.count).map fun slot => (pools slot).length).sum

/-- Take a task from the first pool that has one. -/
def pop? (pools : Pools) :
    List (Fin TaskType.count) → Option (Task × Pools)
  | [] => none
  | slot :: rest =>
      match pools slot with
      | [] => pop? pools rest
      | task :: left => some (task, Function.update pools slot left)

/-- `Runtime::take_portable`. -/
def takePortable (pools : Pools) (preferred : TaskType) :
    Option (Task × Pools) :=
  pools.pop? (takeOrder preferred)

/-- `for (i < give) { if (!take_portable(t, preferred)) break; … }`. -/
def takeEach (preferred : TaskType) : Nat → Pools → List Task × Pools
  | 0, pools => ([], pools)
  | give + 1, pools =>
      match pools.takePortable preferred with
      | none => ([], pools)
      | some (task, left) =>
          let (tasks, rest) := takeEach preferred give left
          (task :: tasks, rest)

end Pools

/-- What a request changes at the victim. -/
structure Victim where
  pools : Pools
  /-- `outstanding_` with the node each task was given to. -/
  outstanding : List (Task × NodeId) := []

/-- `track_outstanding`: `emplace` keeps an entry that is there. -/
def trackOutstanding (thief : NodeId) (outstanding : List (Task × NodeId))
    (task : Task) : List (Task × NodeId) :=
  if outstanding.any (·.1.taskId == task.taskId) then outstanding
  else outstanding ++ [(task, thief)]

/-- The `StealRequest` case of `serve_peer`. -/
def serveSteal (victim : Victim) (request : StealRequestMsg) :
    StealResponseMsg × Victim :=
  let give := giveCount victim.pools.portableAvailable
    request.maxTasks.toNat
  let preferred : TaskType := ⟨request.preferredType⟩
  let (tasks, pools) := victim.pools.takeEach preferred give
  let outstanding :=
    tasks.foldl (trackOutstanding request.requesterNode) victim.outstanding
  ({ tasks, victimPending := UInt64.ofNat pools.portableAvailable },
    { pools, outstanding })

/-- The bytes `serve_peer` sends. -/
def replyFrame (victim : Victim) (request : StealRequestMsg) : Bytes :=
  frame .stealResponse (serveSteal victim request).1.encode

/-! ## Which tasks are taken -/

/-- The pools in the order in which they are emptied. -/
def searchOrder (preferred : TaskType) : List (Fin TaskType.count) :=
  preferred.slot?.toList ++
    (List.finRange TaskType.count).filter (some · ≠ preferred.slot?)

theorem nodup_searchOrder (preferred : TaskType) :
    (searchOrder preferred).Nodup := by
  have each : ∀ slot? : Option (Fin TaskType.count),
      (slot?.toList ++
        (List.finRange TaskType.count).filter (some · ≠ slot?)).Nodup := by
    decide
  exact each preferred.slot?

namespace Pools

variable {pools : Pools}

theorem pop?_cons_of_empty {slot : Fin TaskType.count}
    (empty : pools slot = []) (slots : List (Fin TaskType.count)) :
    pools.pop? (slot :: slots) = pools.pop? slots := by
  rw [pop?, empty]

/-- An empty pool makes no difference wherever it stands. -/
theorem pop?_filter {skipped : Fin TaskType.count}
    (empty : pools skipped = []) (slots : List (Fin TaskType.count)) :
    pools.pop? (slots.filter (some · ≠ some skipped)) = pools.pop? slots := by
  induction slots with
  | nil =>
      rfl
  | cons slot rest inductionHypothesis =>
      by_cases same : slot = skipped
      · rw [same, pop?_cons_of_empty empty, ← inductionHypothesis]
        simp
      · rw [List.filter_cons_of_pos (by simpa using same), pop?, pop?,
          inductionHypothesis]

theorem takePortable_eq (pools : Pools) (preferred : TaskType) :
    pools.takePortable preferred = pools.pop? (searchOrder preferred) := by
  unfold takePortable takeOrder searchOrder
  cases preferred.slot? with
  | none =>
      simp
  | some slot =>
      cases content : pools slot with
      | nil =>
          rw [Option.toList_some, List.singleton_append,
            List.singleton_append, pop?_cons_of_empty content,
            pop?_cons_of_empty content, pop?_filter content]
      | cons task left =>
          rw [Option.toList_some, List.singleton_append,
            List.singleton_append, pop?, pop?, content]

/-- Popping takes the first task of the pools in order. -/
theorem pop?_eq {slots : List (Fin TaskType.count)} (nodup : slots.Nodup) :
    (slots.flatMap pools = [] ∧ pools.pop? slots = none) ∨
      ∃ slot ∈ slots, ∃ task others,
        pools.pop? slots =
            some (task, Function.update pools slot others) ∧
          slots.flatMap pools =
            task :: slots.flatMap (Function.update pools slot others) := by
  induction slots with
  | nil =>
      exact Or.inl ⟨rfl, rfl⟩
  | cons first rest inductionHypothesis =>
      obtain ⟨notInRest, restNodup⟩ := List.nodup_cons.mp nodup
      cases content : pools first with
      | nil =>
          rw [pop?_cons_of_empty content, List.flatMap_cons, content,
            List.nil_append]
          rcases inductionHypothesis restNodup with
            ⟨empty, nothing⟩ | ⟨slot, member, task, others, popped, order⟩
          · exact Or.inl ⟨empty, nothing⟩
          · have different : first ≠ slot := fun same =>
              notInRest (same ▸ member)
            refine Or.inr ⟨slot, List.mem_cons_of_mem _ member, task, others,
              popped, ?_⟩
            rw [List.flatMap_cons, Function.update_of_ne different, content,
              List.nil_append]
            exact order
      | cons task others =>
          refine Or.inr ⟨first, List.mem_cons_self, task, others, ?_, ?_⟩
          · rw [pop?, content]
          · have same : rest.flatMap (Function.update pools first others) =
                rest.flatMap pools := by
              apply List.flatMap_congr
              intro slot member
              have different : slot ≠ first := fun equal =>
                notInRest (equal ▸ member)
              rw [Function.update_of_ne different]
            rw [List.flatMap_cons, List.flatMap_cons, same,
              Function.update_self, content, List.cons_append]

/-- The loop takes a beginning of the tasks in order. -/
theorem takeEach_fst (preferred : TaskType) (give : Nat) (pools : Pools) :
    (pools.takeEach preferred give).1 =
      ((searchOrder preferred).flatMap pools).take give := by
  induction give generalizing pools with
  | zero =>
      rw [List.take_zero]
      rfl
  | succ give inductionHypothesis =>
      rw [takeEach, takePortable_eq]
      rcases pop?_eq (nodup_searchOrder preferred) with
        ⟨empty, nothing⟩ | ⟨slot, _, task, others, popped, order⟩
      · rw [nothing, empty, List.take_nil]
      · rw [popped, order, List.take_succ_cons, ← inductionHypothesis]

end Pools

/-! ## How many bytes the answer has -/

/-- The bytes of a task on the wire. -/
def Task.wireSize (t : Task) : Nat :=
  34 + t.payload.length

/-- The bytes of an answer with these tasks. -/
def replySize (tasks : List Task) : Nat :=
  12 + (tasks.map Task.wireSize).sum

theorem length_encodeTask (t : Task) :
    (Formats.task.write t).length = t.wireSize := by
  change (toBytes 8 _ ++ (toBytes 8 _ ++ (toBytes 4 _ ++ (toBytes 4 _ ++
    (toBytes 4 _ ++ (toBytes 2 _ ++ (toBytes 4 _ ++ t.payload))))))).length = _
  simp only [List.length_append, length_toBytes, Task.wireSize]
  omega

theorem length_encode_stealResponse (m : StealResponseMsg) :
    m.encode.length = replySize m.tasks := by
  have tasksLength :
      (m.tasks.flatMap Formats.task.write).length =
        (m.tasks.map Task.wireSize).sum := by
    rw [List.length_flatMap]
    congr 1
    exact List.map_congr_left fun t _ => length_encodeTask t
  rw [stealResponseMsg_halves.encodes]
  change (toBytes 4 _ ++ m.tasks.flatMap Formats.task.write ++
    toBytes 8 _).length = _
  rw [List.length_append, List.length_append, tasksLength, length_toBytes,
    length_toBytes, replySize]
  omega

/-- The tasks a request takes: of the preferred pool, then of the others in
order, as many as `give` says. -/
def batch (pools : Pools) (request : StealRequestMsg) : List Task :=
  ((searchOrder ⟨request.preferredType⟩).flatMap pools).take
    (giveCount pools.portableAvailable request.maxTasks.toNat)

theorem serveSteal_tasks (victim : Victim) (request : StealRequestMsg) :
    (serveSteal victim request).1.tasks = batch victim.pools request :=
  Pools.takeEach_fst _ _ _

theorem giveCount_le (available maxTasks : Nat) :
    giveCount available maxTasks ≤ maxTasks := by
  unfold giveCount
  dsimp only
  generalize (if available / 2 = 0 ∧ available > 0 then 1
    else available / 2) = give
  split
  · exact Nat.le_refl _
  · rename_i few
    exact Nat.le_of_not_lt few

theorem length_batch_lt (pools : Pools) (request : StealRequestMsg) :
    (batch pools request).length < 2 ^ 32 := by
  have few := giveCount_le pools.portableAvailable request.maxTasks.toNat
  have bounded := request.maxTasks.toNat_lt
  rw [batch, List.length_take]
  omega

/-- A task of the answer is no larger than the answer. -/
theorem short_of_replySize {tasks : List Task} {t : Task}
    (member : t ∈ tasks) (small : replySize tasks ≤ kMaxPayload) :
    t.Short := by
  have part : t.wireSize ≤ (tasks.map Task.wireSize).sum :=
    List.single_le_sum (fun _ _ => Nat.zero_le _) _
      (List.mem_map_of_mem member)
  have payload : t.wireSize = 34 + t.payload.length := rfl
  unfold replySize kMaxPayload at small
  unfold Task.Short
  omega

/-! ## Whether the thief can read it -/

/-- The header of the answer is accepted with the right type and length, and
the thief gets the tasks that were taken, each of them recorded as handed
out. -/
structure Receivable (victim : Victim) (request : StealRequestMsg) :
    Prop where
  header : parseHeader ((replyFrame victim request).take kHeaderSize) =
    some (.stealResponse, (serveSteal victim request).1.encode.length)
  message : ∀ wire : Wire, wire.Undisturbed →
    wire.bytes = replyFrame victim request →
      ∃ payload rest,
        recvMsg wire = (.returned ⟨.stealResponse, payload⟩, rest) ∧
          ∀ prior, StealResponseMsg.decode payload prior =
            (true, (serveSteal victim request).1.received)
  recorded : ∀ t ∈ (serveSteal victim request).1.tasks,
    ∃ entry ∈ (serveSteal victim request).2.outstanding,
      entry.1.taskId = t.taskId

theorem parseHeader_le {header : Bytes} {type : MsgType} {length : Nat}
    (parsed : parseHeader header = some (type, length)) :
    length ≤ kMaxPayload := by
  simp only [parseHeader] at parsed
  split at parsed
  · cases parsed
  · split at parsed
    · cases parsed
    · split at parsed
      · cases parsed
      · rename_i refused
        cases parsed
        simp only [Bool.or_eq_true, decide_eq_true_eq, not_or,
          Nat.not_lt] at refused
        exact refused.2

theorem mem_trackOutstanding {thief : NodeId}
    {outstanding : List (Task × NodeId)} {entry : Task × NodeId}
    (member : entry ∈ outstanding) (task : Task) :
    entry ∈ trackOutstanding thief outstanding task := by
  unfold trackOutstanding
  split
  · exact member
  · exact List.mem_append_left _ member

theorem exists_trackOutstanding (thief : NodeId)
    (outstanding : List (Task × NodeId)) (task : Task) :
    ∃ entry ∈ trackOutstanding thief outstanding task,
      entry.1.taskId = task.taskId := by
  unfold trackOutstanding
  split
  · rename_i known
    obtain ⟨entry, member, same⟩ := List.any_eq_true.mp known
    exact ⟨entry, member, by simpa using same⟩
  · exact ⟨(task, thief), List.mem_append_right _ List.mem_cons_self, rfl⟩

theorem foldl_trackOutstanding (thief : NodeId) (tasks : List Task)
    (outstanding : List (Task × NodeId)) :
    (∀ entry ∈ outstanding,
      entry ∈ tasks.foldl (trackOutstanding thief) outstanding) ∧
    ∀ t ∈ tasks, ∃ entry ∈ tasks.foldl (trackOutstanding thief) outstanding,
      entry.1.taskId = t.taskId := by
  induction tasks generalizing outstanding with
  | nil =>
      refine ⟨fun _ member => member, ?_⟩
      intro t member
      cases member
  | cons first rest inductionHypothesis =>
      obtain ⟨kept, recorded⟩ :=
        inductionHypothesis (trackOutstanding thief outstanding first)
      refine ⟨?_, ?_⟩
      · intro entry member
        exact kept entry (mem_trackOutstanding member first)
      · intro t member
        rcases List.mem_cons.mp member with rfl | member
        · obtain ⟨entry, inFirst, same⟩ :=
            exists_trackOutstanding thief outstanding t
          exact ⟨entry, kept entry inFirst, same⟩
        · exact recorded t member

theorem short_reply {victim : Victim} {request : StealRequestMsg}
    (small : replySize (batch victim.pools request) ≤ kMaxPayload) :
    (serveSteal victim request).1.Short := by
  unfold StealResponseMsg.Short
  rw [serveSteal_tasks]
  refine ⟨length_batch_lt victim.pools request, ?_⟩
  intro t member
  exact short_of_replySize member small

theorem length_reply (victim : Victim) (request : StealRequestMsg) :
    (serveSteal victim request).1.encode.length =
      replySize (batch victim.pools request) := by
  rw [length_encode_stealResponse, serveSteal_tasks]

theorem receivable_of_small {victim : Victim} {request : StealRequestMsg}
    (small : replySize (batch victim.pools request) ≤ kMaxPayload) :
    Receivable victim request := by
  have payloadSmall : (serveSteal victim request).1.encode.length ≤
      kMaxPayload := by
    rw [length_reply]
    exact small
  refine ⟨?_, ?_, ?_⟩
  · rw [replyFrame, frame_eq, List.take_left' (length_header _ _)]
    exact parseHeader_header .stealResponse payloadSmall
  · intro wire undisturbed content
    let message : Message :=
      ⟨.stealResponse, (serveSteal victim request).1.encode⟩
    obtain ⟨rest, received, _⟩ := recvMsg_frame undisturbed.2
      (show message.payload.length ≤ kMaxPayload from payloadSmall)
      (show wire.bytes = message.frame ++ [] by
        rw [List.append_nil]
        exact content)
      (by
        intro offset member
        rw [Wire.timeouts_of_undisturbed undisturbed] at member
        cases member)
    refine ⟨_, rest, received, ?_⟩
    intro prior
    have roundTrip := stealResponseMsg_halves.roundTrips
      (fun _ => Formats.stealResponseMsg_fits) _ (short_reply small) [] prior
    rwa [List.append_nil] at roundTrip
  · exact (foldl_trackOutstanding _ _ _).2

theorem small_of_receivable {victim : Victim} {request : StealRequestMsg}
    (receivable : Receivable victim request) :
    replySize (batch victim.pools request) ≤ kMaxPayload := by
  rw [← length_reply]
  exact parseHeader_le receivable.header

/-- The thief can read the answer exactly when its tasks fit the limit of the
receiver. -/
theorem stealResponse_receivable_iff (victim : Victim)
    (request : StealRequestMsg) :
    Receivable victim request ↔
      replySize (batch victim.pools request) ≤ kMaxPayload :=
  ⟨small_of_receivable, receivable_of_small⟩

/-- A single task with a payload of the given size. -/
def heavyTask (size : Nat) : Task where
  taskId := 1
  type := .syntheticCompute
  payload := List.replicate size 0

def heavyVictim (size : Nat) : Victim where
  pools slot := if slot = 1 then [heavyTask size] else []

theorem batch_heavyVictim (size : Nat) :
    batch (heavyVictim size).pools { } = [heavyTask size] := by
  have available : (heavyVictim size).pools.portableAvailable = 1 := rfl
  have give : giveCount 1 ({ } : StealRequestMsg).maxTasks.toNat = 1 := rfl
  rw [batch, available, give]
  rfl

theorem replySize_heavyTask (size : Nat) :
    replySize [heavyTask size] = 46 + size := by
  simp only [replySize, Task.wireSize, heavyTask, List.map_cons,
    List.map_nil, List.sum_singleton, List.length_replicate]
  omega

/-- A task whose payload alone reaches the limit is handed out, and the thief
cannot read the answer. -/
theorem heavyVictim_not_receivable :
    batch (heavyVictim kMaxPayload).pools { } = [heavyTask kMaxPayload] ∧
      ¬ Receivable (heavyVictim kMaxPayload) { } := by
  refine ⟨batch_heavyVictim kMaxPayload, ?_⟩
  intro receivable
  have small := small_of_receivable receivable
  rw [batch_heavyVictim, replySize_heavyTask] at small
  omega

end HydraRT.Net
