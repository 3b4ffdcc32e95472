import HydraRT.Net.Messages

/-!
# The coordinator

Registration, heartbeats and the node list.  Every access to `nodes_` is one
critical section, and connections are served by threads of their own, so what
the coordinator has handled is a list of critical sections in the order of
`nodes_mutex_`.  The list sent to a node is read in a section of its own, after
any number of others.
-/

namespace HydraRT.Cluster

open HydraRT.Net (NodeInfo RegisterMsg HeartbeatMsg NodeListMsg)

/-- `Coordinator::NodeRecord`. -/
structure NodeRecord where
  info : NodeInfo
  lastSeenMs : Int := 0
  deriving DecidableEq, Repr

structure Coordinator where
  nodes : List NodeRecord := []
  nextNodeId : NodeId := 1
  deriving DecidableEq, Repr

def kNodeTimeoutMs : Int := 5000

namespace Coordinator

/-- `Coordinator::register_node`. -/
def registerNode (coordinator : Coordinator) (msg : RegisterMsg)
    (now : Int) : Coordinator × NodeId :=
  let record : NodeRecord := {
    info := {
      nodeId := coordinator.nextNodeId
      host := msg.host
      port := msg.port
      numWorkers := msg.numWorkers
      label := msg.label }
    lastSeenMs := now }
  ({ nodes := coordinator.nodes ++ [record]
     nextNodeId := coordinator.nextNodeId + 1 },
    record.info.nodeId)

/-- The search of `touch_node`: only the first record with the id is
touched. -/
def touchFirst (nodeId : NodeId) (now : Int) :
    List NodeRecord → List NodeRecord
  | [] => []
  | record :: rest =>
      if record.info.nodeId = nodeId then
        { record with lastSeenMs := now } :: rest
      else record :: touchFirst nodeId now rest

/-- `Coordinator::touch_node`.  The load and the number of completed tasks are
not used. -/
def touchNode (coordinator : Coordinator) (nodeId : NodeId)
    (_pending _completed : UInt64) (now : Int) : Coordinator :=
  { coordinator with nodes := touchFirst nodeId now coordinator.nodes }

/-- Whether a record is still handed to peers. -/
def live (now : Int) (record : NodeRecord) : Bool :=
  decide (now - record.lastSeenMs ≤ kNodeTimeoutMs)

/-- `Coordinator::current_nodes`. -/
def currentNodes (coordinator : Coordinator) (now : Int) : NodeListMsg where
  nodes := (coordinator.nodes.filter (live now)).map NodeRecord.info

end Coordinator

/-- A message whose critical section has been passed, with the time read
there. -/
inductive Handled where
  | register (msg : RegisterMsg) (now : Int)
  | heartbeat (msg : HeartbeatMsg) (now : Int)
  deriving DecidableEq, Repr

def Coordinator.handle (coordinator : Coordinator) : Handled → Coordinator
  | .register msg now => (coordinator.registerNode msg now).1
  | .heartbeat msg now =>
      coordinator.touchNode msg.nodeId msg.pending msg.completed now

/-- The coordinator after the messages of a log. -/
def Coordinator.after (log : List Handled) : Coordinator :=
  log.foldl Coordinator.handle { }

/-! ## What the log says -/

def Handled.registration? : Handled → Option RegisterMsg
  | .register msg _ => some msg
  | .heartbeat _ _ => none

def Handled.heartbeat? : Handled → Option HeartbeatMsg
  | .register _ _ => none
  | .heartbeat msg _ => some msg

def registrations (log : List Handled) : List RegisterMsg :=
  log.filterMap Handled.registration?

/-- The load in the most recent heartbeat of a node, zero if it sent none. -/
def lastPending (log : List Handled) (nodeId : NodeId) : UInt64 :=
  match (log.filterMap Handled.heartbeat?).reverse.find?
    (·.nodeId == nodeId) with
  | some msg => msg.pending
  | none => 0

/-- The entry of the registration with the given index, before any load. -/
def registered (index : Nat) (msg : RegisterMsg) : NodeInfo where
  nodeId := UInt32.ofNat (index + 1)
  host := msg.host
  port := msg.port
  numWorkers := msg.numWorkers
  label := msg.label

section Hearing

variable {Key : Type} [BEq Key] (about : Nat → Handled → Key × Int)

/-- The messages with what they are about and when they were handled, which may
depend on how many nodes have registered before. -/
def hearings (log : List Handled) : List (Key × Int) :=
  log.mapIdx fun index handled =>
    about (registrations (log.take index)).length handled

/-- When a message was last about `key`. -/
def lastAbout (log : List Handled) (key : Key) : Option Int :=
  ((hearings about log).filter (·.1 == key)).getLast?.map Prod.snd

end Hearing

/-- Which registration a message is about, if `known` nodes have registered
before.  Ids count up from one, and a heartbeat is for the first that has its
id. -/
def Handled.subject (known : Nat) : Handled → Nat × Int
  | .register _ now => (known, now)
  | .heartbeat msg now => ((msg.nodeId - 1).toNat, now)

/-- When the node with this registration was last heard of. -/
def lastHeard (log : List Handled) (index : Nat) : Option Int :=
  lastAbout Handled.subject log index

/-- No node that has been heard of within the timeout reported a load in its
most recent heartbeat. -/
def IdleWhenHeard (log : List Handled) (now : Int) : Prop :=
  ∀ index < (registrations log).length, ∀ time ∈ lastHeard log index,
    now - time ≤ kNodeTimeoutMs →
      lastPending log (UInt32.ofNat (index + 1)) = 0

/-- Every entry of the list sent after `log` has the data its node registered
with and the load of its most recent heartbeat. -/
def CarriesLoad (log : List Handled) (now : Int) : Prop :=
  ∀ info ∈ ((Coordinator.after log).currentNodes now).nodes,
    (∃ index msg, (registrations log)[index]? = some msg ∧
      info = { registered index msg with pending := info.pending }) ∧
    info.pending = lastPending log info.nodeId

/-! ## What the coordinator knows -/

theorem info_touchFirst (nodeId : NodeId) (now : Int)
    (nodes : List NodeRecord) :
    (Coordinator.touchFirst nodeId now nodes).map NodeRecord.info =
      nodes.map NodeRecord.info := by
  induction nodes with
  | nil =>
      rfl
  | cons record rest inductionHypothesis =>
      unfold Coordinator.touchFirst
      split
      · rfl
      · rw [List.map_cons, List.map_cons, inductionHypothesis]

/-- The records are the registrations in order; nothing of a heartbeat but its
time is kept. -/
structure Coordinator.Reflects (coordinator : Coordinator)
    (log : List Handled) : Prop where
  nodes : coordinator.nodes.map NodeRecord.info =
    (registrations log).mapIdx registered
  nextNodeId : coordinator.nextNodeId =
    UInt32.ofNat ((registrations log).length + 1)

theorem Coordinator.Reflects.handle {coordinator : Coordinator}
    {log : List Handled} (reflects : coordinator.Reflects log)
    (handled : Handled) :
    (coordinator.handle handled).Reflects (log ++ [handled]) := by
  obtain ⟨nodes, nextNodeId⟩ := reflects
  cases handled with
  | register msg now =>
      have more : registrations (log ++ [.register msg now]) =
          registrations log ++ [msg] := by
        simp [registrations, Handled.registration?]
      refine ⟨?_, ?_⟩
      · rw [more, List.mapIdx_append, ← nodes]
        simp [Coordinator.handle, registerNode, registered, nextNodeId]
      · rw [more]
        simp [Coordinator.handle, registerNode, nextNodeId,
          UInt32.ofNat_add]
  | heartbeat msg now =>
      have same : registrations (log ++ [.heartbeat msg now]) =
          registrations log := by
        simp [registrations, Handled.registration?]
      refine ⟨?_, ?_⟩
      · rw [same, ← nodes]
        exact info_touchFirst msg.nodeId now coordinator.nodes
      · rw [same]
        exact nextNodeId

theorem Coordinator.after_reflects (log : List Handled) :
    (Coordinator.after log).Reflects log := by
  induction log using List.reverseRecOn with
  | nil =>
      exact ⟨rfl, rfl⟩
  | append_singleton log handled inductionHypothesis =>
      rw [Coordinator.after, List.foldl_append]
      exact inductionHypothesis.handle handled

theorem Coordinator.length_after (log : List Handled) :
    (Coordinator.after log).nodes.length = (registrations log).length := by
  have lengths := congrArg List.length (Coordinator.after_reflects log).nodes
  rwa [List.length_map, List.length_mapIdx] at lengths

theorem after_append (log : List Handled) (handled : Handled) :
    Coordinator.after (log ++ [handled]) =
      (Coordinator.after log).handle handled := by
  rw [Coordinator.after, List.foldl_append]
  rfl

/-- Every record holds a registration, without load. -/
theorem Coordinator.exists_registered {log : List Handled}
    {record : NodeRecord}
    (member : record ∈ (Coordinator.after log).nodes) :
    ∃ index msg, (registrations log)[index]? = some msg ∧
      record.info = registered index msg := by
  have listed : record.info ∈
      (registrations log).mapIdx registered := by
    rw [← (Coordinator.after_reflects log).nodes]
    exact List.mem_map_of_mem member
  obtain ⟨index, below, same⟩ := List.mem_mapIdx.mp listed
  exact ⟨index, _, List.getElem?_eq_getElem below, same.symm⟩

/-! ## When a node was heard of -/

section Hearing

variable {Key : Type} [BEq Key] [LawfulBEq Key] [DecidableEq Key]
  (about : Nat → Handled → Key × Int)

theorem lastAbout_append (log : List Handled) (handled : Handled)
    (key : Key) :
    lastAbout about (log ++ [handled]) key =
      if (about (registrations log).length handled).1 = key then
        some (about (registrations log).length handled).2
      else lastAbout about log key := by
  have more : hearings about (log ++ [handled]) =
      hearings about log ++ [about (registrations log).length handled] := by
    unfold hearings
    rw [List.mapIdx_append]
    congr 1
    · apply List.ext_getElem?
      intro index
      simp only [List.getElem?_mapIdx]
      cases found : log[index]? with
      | none =>
          rfl
      | some earlier =>
          have below : index ≤ log.length :=
            (List.getElem?_eq_some_iff.mp found).1.le
          rw [List.take_append_of_le_length below]
    · simp
  rw [lastAbout, more, List.filter_append]
  by_cases same : (about (registrations log).length handled).1 = key
  · simp [same]
  · simp [same, lastAbout]

end Hearing

theorem touchFirst_eq_modify (nodeId : NodeId) (now : Int)
    (nodes : List NodeRecord) :
    Coordinator.touchFirst nodeId now nodes =
      nodes.modify (nodes.findIdx (·.info.nodeId == nodeId))
        fun record => { record with lastSeenMs := now } := by
  induction nodes with
  | nil =>
      rfl
  | cons record rest inductionHypothesis =>
      rw [Coordinator.touchFirst, List.findIdx_cons]
      by_cases same : record.info.nodeId = nodeId
      · rw [if_pos same, beq_iff_eq.mpr same]
        rfl
      · rw [if_neg same, beq_eq_false_iff_ne.mpr same, inductionHypothesis]
        rfl

theorem nodeId_after (log : List Handled) {index : Nat}
    (inside : index < (Coordinator.after log).nodes.length) :
    (Coordinator.after log).nodes[index].info.nodeId =
      UInt32.ofNat (index + 1) := by
  have here := congrArg (·[index]?) (Coordinator.after_reflects log).nodes
  have length := Coordinator.length_after log
  simp only [List.getElem?_map, List.getElem?_mapIdx,
    List.getElem?_eq_getElem inside,
    List.getElem?_eq_getElem (length ▸ inside), Option.map_some,
    Option.some.injEq] at here
  rw [here, registered]

/-- The first record with an id is that of the registration which got it
first. -/
theorem findIdx_nodeId (log : List Handled) (nodeId : NodeId) {index : Nat}
    (inside : index < (Coordinator.after log).nodes.length) :
    (Coordinator.after log).nodes.findIdx (·.info.nodeId == nodeId) = index ↔
      (nodeId - 1).toNat = index := by
  have sameId : ∀ {other : Nat}, UInt32.ofNat (other + 1) = nodeId ↔
      other % 2 ^ 32 = (nodeId - 1).toNat := by
    intro other
    rw [← UInt32.toNat_ofNat', UInt32.toNat_inj, UInt32.ofNat_add]
    exact eq_sub_iff_add_eq.symm
  have small := (nodeId - 1).toNat_lt
  rw [List.findIdx_eq inside]
  simp only [nodeId_after, beq_iff_eq, beq_eq_false_iff_ne, ne_eq, sameId]
  constructor
  · rintro ⟨here, earlier⟩
    by_contra other
    have wrapped := earlier (nodeId - 1).toNat (by
      have below := Nat.mod_le index (2 ^ 32)
      omega)
    exact wrapped (Nat.mod_eq_of_lt small)
  · rintro rfl
    refine ⟨Nat.mod_eq_of_lt small, fun other before same => ?_⟩
    rw [Nat.mod_eq_of_lt (before.trans small)] at same
    omega

/-- Every record has the time of the last message about its registration. -/
theorem lastSeenMs_after (log : List Handled) {index : Nat}
    (inside : index < (Coordinator.after log).nodes.length) :
    lastHeard log index =
      some (Coordinator.after log).nodes[index].lastSeenMs := by
  induction log using List.reverseRecOn with
  | nil =>
      cases inside
  | append_singleton log handled inductionHypothesis =>
      rw [lastHeard, lastAbout_append, ← Coordinator.length_after,
        ← lastHeard]
      simp only [after_append] at inside ⊢
      cases handled with
      | register msg now =>
          simp only [Coordinator.handle, Coordinator.registerNode,
            Handled.subject] at inside ⊢
          by_cases isNew : (Coordinator.after log).nodes.length = index
          · subst isNew
            simp only [if_true, List.getElem_concat_length]
          · rw [List.length_append, List.length_singleton] at inside
            simp only [isNew, if_false]
            rw [inductionHypothesis (by omega), List.getElem_append_left]
      | heartbeat msg now =>
          simp only [Coordinator.handle, Coordinator.touchNode,
            touchFirst_eq_modify, List.length_modify] at inside ⊢
          rw [List.getElem_modify, Handled.subject]
          dsimp only
          simp only [findIdx_nodeId log msg.nodeId inside]
          split_ifs
          · rfl
          · exact inductionHypothesis inside

/-! ## Whether load figures reach the thieves -/

/-- The nodes in a list are those that have been heard of. -/
theorem idleWhenHeard_iff (log : List Handled) (now : Int) :
    IdleWhenHeard log now ↔
      ∀ record ∈ (Coordinator.after log).nodes,
        Coordinator.live now record = true →
          lastPending log record.info.nodeId = 0 := by
  rw [List.forall_mem_iff_forall_getElem, IdleWhenHeard,
    ← Coordinator.length_after]
  refine forall₂_congr fun index inside => ?_
  rw [lastSeenMs_after log inside, nodeId_after log inside]
  simp [Coordinator.live]

theorem carriesLoad_of_idle {log : List Handled} {now : Int}
    (idle : IdleWhenHeard log now) : CarriesLoad log now := by
  intro info listed
  obtain ⟨record, kept, rfl⟩ := List.mem_map.mp listed
  obtain ⟨member, isLive⟩ := List.mem_filter.mp kept
  obtain ⟨index, msg, found, same⟩ := Coordinator.exists_registered member
  have noLoad : record.info.pending = 0 := by
    rw [same]
    rfl
  refine ⟨⟨index, msg, found, ?_⟩, ?_⟩
  · rw [same]
  · rw [noLoad, (idleWhenHeard_iff log now).mp idle record member isLive]

theorem idle_of_carriesLoad {log : List Handled} {now : Int}
    (carries : CarriesLoad log now) : IdleWhenHeard log now := by
  rw [idleWhenHeard_iff]
  intro record member isLive
  obtain ⟨index, msg, _, same⟩ := Coordinator.exists_registered member
  have noLoad : record.info.pending = 0 := by
    rw [same]
    rfl
  have listed : record.info ∈
      ((Coordinator.after log).currentNodes now).nodes :=
    List.mem_map_of_mem (List.mem_filter.mpr ⟨member, isLive⟩)
  rw [← (carries _ listed).2, noLoad]

/-- The load figures in a node list are right exactly when the nodes heard of
within the timeout have none: a record never learns what a heartbeat says. -/
theorem nodeList_carriesLoad_iff (log : List Handled) (now : Int) :
    CarriesLoad log now ↔ IdleWhenHeard log now :=
  ⟨idle_of_carriesLoad, carriesLoad_of_idle⟩

/-- Two nodes register and the first reports seven pending tasks. -/
def busyLog : List Handled :=
  [.register ⟨[49], 9001, 4, []⟩ 0, .register ⟨[50], 9002, 4, []⟩ 5,
    .heartbeat ⟨1, 7, 0⟩ 100, .heartbeat ⟨2, 0, 0⟩ 120]

/-- The list sent to the second one says that the first has none. -/
theorem busyLog_not_carriesLoad : ¬ CarriesLoad busyLog 120 := by
  intro carries
  have wrong := (carries { nodeId := 1, host := [49], port := 9001,
                           numWorkers := 4 } (by decide)).2
  revert wrong
  decide

end HydraRT.Cluster
