import HydraRT.Cluster.Coordinator

/-!
# Membership

Who is in the list the coordinator sends, read off the messages it has handled.
An id belongs to one registration, and the time of a record is that of the last
message from its node, so a node is listed as long as it has been heard of and
with what it registered.
-/

namespace HydraRT.Cluster

open HydraRT.Net (NodeInfo RegisterMsg HeartbeatMsg)

/-! ## What was heard of a node -/

/-- The ids that `register_node` returns. -/
def Coordinator.idsReturned (coordinator : Coordinator) :
    List Handled → List NodeId
  | [] => []
  | .register msg now :: rest =>
      (coordinator.registerNode msg now).2 ::
        (coordinator.registerNode msg now).1.idsReturned rest
  | .heartbeat msg now :: rest =>
      (coordinator.handle (.heartbeat msg now)).idsReturned rest

/-- Which node a message is from and when it was handled, if `known` nodes have
registered before. -/
def Handled.sighting (known : Nat) : Handled → NodeId × Int
  | .register _ now => (UInt32.ofNat (known + 1), now)
  | .heartbeat msg now => (msg.nodeId, now)

/-- When a node was last heard of. -/
def lastSeen (log : List Handled) (nodeId : NodeId) : Option Int :=
  lastAbout Handled.sighting log nodeId

/-- The latest message of the node is recent enough. -/
def fresh (log : List Handled) (now : Int) (nodeId : NodeId) : Bool :=
  match lastSeen log nodeId with
  | none => false
  | some time => decide (now - time ≤ kNodeTimeoutMs)

/-- What the coordinator promises after the messages of `log`. -/
structure Membership (log : List Handled) : Prop where
  returned : Coordinator.idsReturned { } log =
    ((registrations log).mapIdx registered).map (·.nodeId)
  nonzero : ∀ nodeId ∈ Coordinator.idsReturned { } log, nodeId ≠ 0
  distinct : (Coordinator.idsReturned { } log).Nodup
  /-- One entry for each fresh node, none for a registered one that is not. -/
  entry : ∀ now index msg, (registrations log)[index]? = some msg →
    ((Coordinator.after log).currentNodes now).nodes.filter
        (·.nodeId == (registered index msg).nodeId) =
      if fresh log now (registered index msg).nodeId then
        [registered index msg]
      else []
  /-- No other entries. -/
  registeredOnly : ∀ now,
    ∀ info ∈ ((Coordinator.after log).currentNodes now).nodes,
      ∃ index msg, (registrations log)[index]? = some msg ∧
        info = registered index msg
  /-- A heartbeat of an unknown node changes nothing. -/
  unknown : ∀ (msg : HeartbeatMsg) (now : Int),
    msg.nodeId ∉ Coordinator.idsReturned { } log →
      (Coordinator.after log).handle (.heartbeat msg now) =
        Coordinator.after log
  /-- A heartbeat puts a node back, as it registered. -/
  resumed : ∀ (beat : HeartbeatMsg) (now later : Int) (index : Nat)
    (msg : RegisterMsg), (registrations log)[index]? = some msg →
      beat.nodeId = (registered index msg).nodeId →
        later - now ≤ kNodeTimeoutMs →
          registered index msg ∈
            ((Coordinator.after (log ++ [.heartbeat beat now])).currentNodes
              later).nodes

/-! ## Logs that grow -/

theorem lastSeen_append (log : List Handled) (handled : Handled)
    (nodeId : NodeId) :
    lastSeen (log ++ [handled]) nodeId =
      if (handled.sighting (registrations log).length).1 = nodeId then
        some (handled.sighting (registrations log).length).2
      else lastSeen log nodeId :=
  lastAbout_append Handled.sighting log handled nodeId

theorem lastSeen_append_heartbeat (log : List Handled) (msg : HeartbeatMsg)
    (now : Int) (nodeId : NodeId) :
    lastSeen (log ++ [.heartbeat msg now]) nodeId =
      if msg.nodeId = nodeId then some now else lastSeen log nodeId :=
  lastSeen_append log (.heartbeat msg now) nodeId

theorem registrations_append_register (log : List Handled)
    (msg : RegisterMsg) (now : Int) :
    registrations (log ++ [.register msg now]) = registrations log ++ [msg] := by
  simp [registrations, Handled.registration?]

theorem registrations_append_heartbeat (log : List Handled)
    (msg : HeartbeatMsg) (now : Int) :
    registrations (log ++ [.heartbeat msg now]) = registrations log := by
  simp [registrations, Handled.registration?]

/-! ## Ids -/

/-- The ids count up from one. -/
theorem ids_eq (msgs : List RegisterMsg) :
    (msgs.mapIdx registered).map (·.nodeId) =
      (List.range msgs.length).map fun index => UInt32.ofNat (index + 1) := by
  apply List.ext_getElem?
  intro index
  simp only [List.getElem?_map, List.getElem?_mapIdx]
  by_cases below : index < msgs.length
  · simp [below, registered]
  · simp [below]

theorem toNat_id {index : Nat} (small : index + 1 < 2 ^ 32) :
    (UInt32.ofNat (index + 1)).toNat = index + 1 := by
  rw [UInt32.toNat_ofNat']
  exact Nat.mod_eq_of_lt small

theorem nodup_ids {msgs : List RegisterMsg} (few : msgs.length < 2 ^ 32 - 1) :
    ((msgs.mapIdx registered).map (·.nodeId)).Nodup := by
  rw [ids_eq]
  apply List.Nodup.map_on _ List.nodup_range
  intro first firstBelow second secondBelow same
  rw [List.mem_range] at firstBelow secondBelow
  have numbers := congrArg UInt32.toNat same
  rw [toNat_id (by omega), toNat_id (by omega)] at numbers
  omega

theorem ids_ne_zero {msgs : List RegisterMsg}
    (few : msgs.length < 2 ^ 32 - 1) :
    ∀ nodeId ∈ (msgs.mapIdx registered).map (·.nodeId), nodeId ≠ 0 := by
  rw [ids_eq]
  intro nodeId member isZero
  obtain ⟨index, below, rfl⟩ := List.mem_map.mp member
  rw [List.mem_range] at below
  have number := congrArg UInt32.toNat isZero
  rw [toNat_id (by omega)] at number
  cases number

theorem idsReturned_append (coordinator : Coordinator) (log : List Handled)
    (handled : Handled) :
    coordinator.idsReturned (log ++ [handled]) =
      coordinator.idsReturned log ++
        (log.foldl Coordinator.handle coordinator).idsReturned [handled] := by
  induction log generalizing coordinator with
  | nil =>
      rfl
  | cons first rest inductionHypothesis =>
      cases first with
      | register msg now =>
          exact congrArg (_ :: ·) (inductionHypothesis _)
      | heartbeat msg now =>
          exact inductionHypothesis _

theorem idsReturned_eq (log : List Handled) :
    Coordinator.idsReturned { } log =
      ((registrations log).mapIdx registered).map (·.nodeId) := by
  induction log using List.reverseRecOn with
  | nil =>
      rfl
  | append_singleton log handled inductionHypothesis =>
      rw [idsReturned_append, inductionHypothesis]
      have reflects := Coordinator.after_reflects log
      cases handled with
      | register msg now =>
          have returned : (Coordinator.after log).idsReturned
              [.register msg now] = [(Coordinator.after log).nextNodeId] :=
            rfl
          rw [registrations_append_register, List.mapIdx_append,
            List.map_append]
          change _ ++ (Coordinator.after log).idsReturned _ = _
          rw [returned, reflects.nextNodeId]
          simp [registered]
      | heartbeat msg now =>
          rw [registrations_append_heartbeat]
          exact List.append_nil _

/-! ## Times -/

/-- A list whose records have different ids is touched where the id is. -/
theorem mem_touchFirst {nodeId : NodeId} {now : Int}
    {nodes : List NodeRecord} (distinct : (nodes.map (·.info.nodeId)).Nodup)
    {record : NodeRecord}
    (member : record ∈ Coordinator.touchFirst nodeId now nodes) :
    (record.info.nodeId = nodeId ∧ record.lastSeenMs = now) ∨
      (record.info.nodeId ≠ nodeId ∧ record ∈ nodes) := by
  induction nodes with
  | nil =>
      cases member
  | cons first rest inductionHypothesis =>
      obtain ⟨firstOnly, restDistinct⟩ := List.nodup_cons.mp distinct
      unfold Coordinator.touchFirst at member
      by_cases same : first.info.nodeId = nodeId
      · rw [if_pos same] at member
        rcases List.mem_cons.mp member with rfl | later
        · exact Or.inl ⟨same, rfl⟩
        · refine Or.inr ⟨?_, List.mem_cons_of_mem _ later⟩
          intro again
          apply firstOnly
          change first.info.nodeId ∈ _
          rw [same, ← again]
          exact List.mem_map_of_mem later
      · rw [if_neg same] at member
        rcases List.mem_cons.mp member with rfl | later
        · exact Or.inr ⟨same, List.mem_cons_self⟩
        · rcases inductionHypothesis restDistinct later with
            touched | ⟨other, inRest⟩
          · exact Or.inl touched
          · exact Or.inr ⟨other, List.mem_cons_of_mem _ inRest⟩

theorem touchFirst_unknown {nodeId : NodeId} {now : Int}
    {nodes : List NodeRecord}
    (unknown : nodeId ∉ nodes.map (·.info.nodeId)) :
    Coordinator.touchFirst nodeId now nodes = nodes := by
  induction nodes with
  | nil =>
      rfl
  | cons first rest inductionHypothesis =>
      rw [List.map_cons, List.mem_cons, not_or] at unknown
      unfold Coordinator.touchFirst
      rw [if_neg (Ne.symm unknown.1), inductionHypothesis unknown.2]

theorem ids_after (log : List Handled) :
    (Coordinator.after log).nodes.map (·.info.nodeId) =
      ((registrations log).mapIdx registered).map (·.nodeId) := by
  rw [← (Coordinator.after_reflects log).nodes, List.map_map]
  rfl

/-- Every record has the time of the last message of its node. -/
theorem lastSeen_record {log : List Handled}
    (few : (registrations log).length < 2 ^ 32 - 1) {record : NodeRecord}
    (member : record ∈ (Coordinator.after log).nodes) :
    lastSeen log record.info.nodeId = some record.lastSeenMs := by
  induction log using List.reverseRecOn generalizing record with
  | nil =>
      cases member
  | append_singleton log handled inductionHypothesis =>
      rw [after_append] at member
      cases handled with
      | register msg now =>
          rw [lastSeen_append]
          rw [registrations_append_register] at few
          have fewer : (registrations log).length < 2 ^ 32 - 1 := by
            simp only [List.length_append] at few
            omega
          rcases List.mem_append.mp member with earlier | isNew
          · -- a new id is none of the earlier ones
            have different : (registrations log).length + 1 ≠
                record.info.nodeId.toNat := by
              have listed := List.mem_map_of_mem
                (f := (·.info.nodeId)) earlier
              rw [ids_after, ids_eq] at listed
              obtain ⟨index, below, same⟩ := List.mem_map.mp listed
              rw [List.mem_range] at below
              rw [← same, toNat_id (by omega)]
              omega
            rw [if_neg, inductionHypothesis fewer earlier]
            intro same
            apply different
            rw [← same]
            exact (toNat_id (by omega)).symm
          · rw [List.mem_singleton.mp isNew]
            exact if_pos (Coordinator.after_reflects log).nextNodeId.symm
      | heartbeat msg now =>
          rw [registrations_append_heartbeat] at few
          rw [lastSeen_append_heartbeat]
          have distinct := nodup_ids few
          rw [← ids_after] at distinct
          rcases mem_touchFirst distinct member with
            ⟨same, time⟩ | ⟨other, earlier⟩
          · rw [if_pos same.symm, time]
          · rw [if_neg (Ne.symm other), inductionHypothesis few earlier]

/-! ## The list -/

/-- An item is the only one with its key. -/
theorem filter_key_eq {Item Key : Type} [DecidableEq Key] {key : Item → Key}
    {items : List Item} (distinct : (items.map key).Nodup) {item : Item}
    (member : item ∈ items) :
    items.filter (key · == key item) = [item] := by
  induction items with
  | nil =>
      cases member
  | cons first rest inductionHypothesis =>
      obtain ⟨firstOnly, restDistinct⟩ := List.nodup_cons.mp distinct
      rcases List.mem_cons.mp member with rfl | later
      · have others : rest.filter (key · == key item) = [] := by
          rw [List.filter_eq_nil_iff]
          intro other inRest same
          apply firstOnly
          rw [← beq_iff_eq.mp same]
          exact List.mem_map_of_mem inRest
        rw [List.filter_cons_of_pos (by simp), others]
      · have different : key first ≠ key item := by
          intro same
          apply firstOnly
          rw [same]
          exact List.mem_map_of_mem later
        rw [List.filter_cons_of_neg (by simpa using different)]
        exact inductionHypothesis restDistinct later

theorem live_eq_fresh {log : List Handled}
    (few : (registrations log).length < 2 ^ 32 - 1) {record : NodeRecord}
    (member : record ∈ (Coordinator.after log).nodes) (now : Int) :
    Coordinator.live now record = fresh log now record.info.nodeId := by
  rw [fresh, lastSeen_record few member]
  rfl

/-- The record of a registration. -/
theorem exists_record {log : List Handled} {index : Nat} {msg : RegisterMsg}
    (found : (registrations log)[index]? = some msg) :
    ∃ record ∈ (Coordinator.after log).nodes,
      record.info = registered index msg := by
  have listed : registered index msg ∈
      (Coordinator.after log).nodes.map NodeRecord.info := by
    rw [(Coordinator.after_reflects log).nodes]
    apply List.mem_of_getElem? (i := index)
    rw [List.getElem?_mapIdx, found]
    rfl
  exact List.mem_map.mp listed

theorem currentNodes_filter {log : List Handled}
    (few : (registrations log).length < 2 ^ 32 - 1) (now : Int) {index : Nat}
    {msg : RegisterMsg} (found : (registrations log)[index]? = some msg) :
    ((Coordinator.after log).currentNodes now).nodes.filter
        (·.nodeId == (registered index msg).nodeId) =
      if fresh log now (registered index msg).nodeId then
        [registered index msg]
      else [] := by
  obtain ⟨record, member, same⟩ := exists_record found
  have distinct := nodup_ids few
  rw [← ids_after] at distinct
  have only : (Coordinator.after log).nodes.filter
      (·.info.nodeId == record.info.nodeId) = [record] :=
    filter_key_eq distinct member
  rw [← same, ← live_eq_fresh few member, Coordinator.currentNodes,
    List.filter_map]
  change (((Coordinator.after log).nodes.filter _).filter
    (·.info.nodeId == record.info.nodeId)).map NodeRecord.info = _
  rw [List.filter_comm, only]
  cases isLive : Coordinator.live now record with
  | true =>
      rw [List.filter_cons_of_pos isLive]
      rfl
  | false =>
      rw [List.filter_cons_of_neg (by simp [isLive])]
      rfl

/-- For every order of registrations and heartbeats the coordinator keeps its
promises. -/
theorem coordinator_membership (log : List Handled)
    (few : (registrations log).length < 2 ^ 32 - 1) : Membership log where
  returned := idsReturned_eq log
  nonzero := by
    rw [idsReturned_eq]
    exact ids_ne_zero few
  distinct := by
    rw [idsReturned_eq]
    exact nodup_ids few
  entry := fun now index msg found => currentNodes_filter few now found
  registeredOnly := by
    intro now info listed
    obtain ⟨record, kept, rfl⟩ := List.mem_map.mp listed
    exact Coordinator.exists_registered (List.mem_filter.mp kept).1
  unknown := by
    intro msg now notReturned
    rw [idsReturned_eq, ← ids_after] at notReturned
    rw [Coordinator.handle, Coordinator.touchNode,
      touchFirst_unknown notReturned]
  resumed := by
    intro beat now later index msg found same recent
    rw [← registrations_append_heartbeat log beat now] at found few
    have entry := currentNodes_filter few later found
    have isFresh : fresh (log ++ [.heartbeat beat now]) later
        (registered index msg).nodeId = true := by
      rw [fresh, lastSeen_append_heartbeat, if_pos same]
      exact decide_eq_true recent
    rw [isFresh, if_pos rfl] at entry
    have inside : registered index msg ∈ [registered index msg] :=
      List.mem_singleton_self _
    rw [← entry] at inside
    exact (List.mem_filter.mp inside).1

theorem coordinator_membership_busyLog :
    (registrations busyLog).length = 2 ∧ Membership busyLog :=
  ⟨rfl, coordinator_membership busyLog (by decide)⟩

/-- A node that is silent for more than five seconds and then returns. -/
example :
    let log : List Handled :=
      [.register ⟨[49], 9001, 4, []⟩ 0, .heartbeat ⟨1, 0, 0⟩ 300]
    let back := log ++ [.heartbeat ⟨1, 0, 0⟩ 9000]
    ((Coordinator.after log).currentNodes 5301).nodes = [] ∧
      ((Coordinator.after back).currentNodes 9001).nodes =
        [registered 0 ⟨[49], 9001, 4, []⟩] := by
  decide

end HydraRT.Cluster
