import HydraRT.Cluster.Discovery

/-!
# What nodes know of each other

Consequences of the order in which lists are read and arrive: whose id a node
has, which others it knows and what it knows of them, how old its knowledge is,
and where its load figures come from.
-/

namespace HydraRT.Cluster.Discovery

open HydraRT.Lib
open HydraRT.Net (NodeInfo RegisterMsg HeartbeatMsg NodeListMsg)

variable {configs : List RegisterMsg} {state : State}

/-! ## Two nodes that meet -/

def twoNodes : List RegisterMsg :=
  [⟨[49], 9001, 4, []⟩, ⟨[50], 9002, 2, [103]⟩]

/-- Both nodes register.  The first one takes a list, gives up waiting for a
second one, and finds the other node busy. -/
def meetingRun : List Action :=
  [⟨0, .start true⟩, ⟨0, .serve 0⟩, ⟨0, .serve 1⟩, ⟨0, .receive⟩,
    ⟨1, .start true⟩, ⟨1, .serve 5⟩, ⟨1, .serve 5⟩, ⟨1, .receive⟩,
    ⟨0, .beat 3 7 true⟩, ⟨0, .serve 500⟩, ⟨0, .serve 501⟩, ⟨0, .receive⟩,
    ⟨0, .beat 3 8 true⟩, ⟨0, .serve 1000⟩, ⟨0, .timeOut⟩,
    ⟨0, .attempt ⟨2, .reply { victimPending := 9 }⟩⟩]

theorem nodes_meet : ∃ (state : State) (session : Session),
    (discovery twoNodes).Reachable state ∧
      state.sessions[0]? = some session ∧ session.phase = .sleeping ∧
      session.beats = 2 ∧ session.missed = 1 ∧
      session.events.length = 2 ∧
      session.thief.peers.map (·.info.pending) = [9] := by
  have check : ((discovery twoNodes).run
      { sessions := twoNodes.map fun advertised => { advertised } }
        meetingRun).any (fun state => state.sessions[0]?.any fun session =>
          session.phase == .sleeping && session.beats == 2 &&
            session.missed == 1 && session.events.length == 2 &&
            session.thief.peers.map (·.info.pending) == [9]) = true := by
    decide
  obtain ⟨state, ran, checked⟩ := (Option.any_eq_true _ _).mp check
  obtain ⟨session, present, facts⟩ := (Option.any_eq_true _ _).mp checked
  simp only [Bool.and_eq_true, beq_iff_eq] at facts
  obtain ⟨⟨⟨⟨sleeping, beats⟩, missed⟩, events⟩, figures⟩ := facts
  exact ⟨state, session, Machine.reachable_of_run meetingRun rfl ran, present,
    sleeping, beats, missed, events, figures⟩

/-! ## Ids -/

theorem idOf_inj {first second : Nat} (firstSmall : first + 1 < 2 ^ 32)
    (secondSmall : second + 1 < 2 ^ 32) (same : idOf first = idOf second) :
    first = second := by
  have numbers := congrArg UInt32.toNat same
  rw [idOf, idOf, toNat_id firstSmall, toNat_id secondSmall] at numbers
  exact Nat.succ_injective numbers

/-- No node registers twice. -/
theorem State.Consistent.registrations_le (consistent : state.Consistent configs) :
    (registrations state.log).length ≤ configs.length := by
  have positions : ∀ index : Fin (registrations state.log).length,
      ∃ position : Fin configs.length, ∃ session,
        state.sessions[position.val]? = some session ∧
          session.registration = some index.val := by
    intro index
    obtain ⟨session, member, registration⟩ :=
      consistent.owned index.val index.isLt
    obtain ⟨position, present⟩ := List.mem_iff_getElem?.mp member
    have inside : position < configs.length := by
      rw [← consistent.advertised, List.length_map]
      exact (List.getElem?_eq_some_iff.mp present).1
    exact ⟨⟨position, inside⟩, session, present, registration⟩
  choose position session present registration using positions
  have injective : Function.Injective position := by
    intro first second same
    have sameSession : session first = session second := by
      have here := present first
      rw [same, present second] at here
      exact (Option.some.inj here).symm
    have sameIndex := registration first
    rw [sameSession, registration second] at sameIndex
    exact Fin.ext (Option.some.inj sameIndex).symm
  simpa using Fintype.card_le_of_injective position injective

theorem State.Consistent.index_small (consistent : state.Consistent configs)
    (few : configs.length < 2 ^ 32 - 1) {index : Nat} {msg : RegisterMsg}
    (found : (registrations state.log)[index]? = some msg) :
    index + 1 < 2 ^ 32 := by
  have inside := (List.getElem?_eq_some_iff.mp found).1
  have bounded := consistent.registrations_le
  omega

/-- A node that has joined has the id of its own registration. -/
theorem State.Consistent.own (consistent : state.Consistent configs)
    {session : Session} (member : session ∈ state.sessions)
    (joined : session.Joined) :
    ∃ index, session.registration = some index ∧
      session.thief.self = idOf index ∧
      (registrations state.log)[index]? = some session.advertised := by
  obtain ⟨index, registration, own⟩ :=
    ((consistent.proper session member).beats joined).own
  exact ⟨index, registration, own,
    consistent.registered session member index registration⟩

/-- Every node that has joined has an id that is not zero and no other node's,
and the coordinator has one record with this id, that of this node. -/
theorem own_ids (few : configs.length < 2 ^ 32 - 1)
    (reached : (discovery configs).Reachable state)
    (number : Nat) (session : Session)
    (present : state.sessions[number]? = some session)
    (joined : session.Joined) :
    session.thief.self ≠ 0 ∧
    (state.coordinator.nodes.map NodeRecord.info).filter
        (·.nodeId == session.thief.self) =
      [{ nodeId := session.thief.self
         host := session.advertised.host
         port := session.advertised.port
         numWorkers := session.advertised.numWorkers
         label := session.advertised.label }] ∧
    ∀ (other : Nat) (peer : Session), state.sessions[other]? = some peer →
      peer.Joined → peer.thief.self = session.thief.self →
        other = number := by
  have consistent := State.consistent_of_reachable reached
  obtain ⟨index, registration, own, found⟩ :=
    consistent.own (List.mem_of_getElem? present) joined
  have small := consistent.index_small few found
  have bounded := consistent.registrations_le
  refine ⟨?_, ?_, ?_⟩
  · intro isZero
    have number := congrArg UInt32.toNat (own.symm.trans isZero)
    rw [idOf, toNat_id small] at number
    cases number
  · have listed : registered index session.advertised ∈
        (registrations state.log).mapIdx registered := by
      apply List.mem_of_getElem? (i := index)
      rw [List.getElem?_mapIdx, found]
      rfl
    rw [consistent.coordinator,
      (Coordinator.after_reflects state.log).nodes, own]
    exact filter_key_eq (nodup_ids (by omega)) listed
  · intro other peer isPeer peerJoined same
    obtain ⟨otherIndex, otherRegistration, otherOwn, otherFound⟩ :=
      consistent.own (List.mem_of_getElem? isPeer) peerJoined
    have sameIndex : otherIndex = index :=
      idOf_inj (consistent.index_small few otherFound) small
        (otherOwn.symm.trans (same.trans own))
    subst sameIndex
    exact consistent.distinct other number peer session otherIndex isPeer
      present otherRegistration registration

theorem own_ids_nodes_meet : ∃ (state : State) (session : Session),
    (discovery twoNodes).Reachable state ∧
      state.sessions[0]? = some session ∧ session.Joined ∧
      session.thief.self ≠ 0 := by
  obtain ⟨state, session, reached, present, sleeping, _⟩ := nodes_meet
  exact ⟨state, session, reached, present, .inl sleeping,
    (own_ids (by decide) reached 0 session present (.inl sleeping)).1⟩

/-! ## Lists that have arrived -/

namespace Session

/-- The lists that the node has taken in answer to its heartbeats. -/
def answered (session : Session) : List Snapshot :=
  session.snapshots.take (nodeLists session.events).length

theorem Beats.nodeLists_eq {session : Session} (beats : session.Beats) :
    nodeLists session.events = session.answered.map Snapshot.list := by
  have arrived : nodeLists session.events <+:
      session.snapshots.map Snapshot.list :=
    (List.prefix_append _ _).trans beats.answers
  rw [answered, List.map_take]
  exact List.prefix_iff_eq_take.mp arrived

end Session

/-- The entry is that of a registration, up to the load. -/
def Registered (log : List Handled) (info : NodeInfo) : Prop :=
  ∃ index msg, (registrations log)[index]? = some msg ∧
    info = { registered index msg with pending := info.pending }

theorem Registered.mono {earlier later : List Handled} {info : NodeInfo}
    (isRegistered : Registered earlier info) (longer : earlier <+: later) :
    Registered later info := by
  obtain ⟨index, msg, found, same⟩ := isRegistered
  exact ⟨index, msg, State.getElem?_of_prefix
    (State.prefix_registrations longer) found, same⟩

/-- Entries that are listed come from the coordinator's records. -/
theorem registered_of_listed {snapshot : Snapshot} {info : NodeInfo}
    (listed : info ∈ snapshot.list.nodes) :
    Registered snapshot.log info ∧ info.pending = 0 := by
  obtain ⟨record, kept, rfl⟩ := List.mem_map.mp listed
  obtain ⟨index, msg, found, same⟩ :=
    Coordinator.exists_registered (List.mem_filter.mp kept).1
  rw [same]
  exact ⟨⟨index, msg, found, rfl⟩, rfl⟩

section Links

variable {log : List Handled}

/-- Two entries with one id say the same. -/
theorem Registered.eq_of_nodeId (few : (registrations log).length < 2 ^ 32 - 1)
    {first second : NodeInfo} (isFirst : Registered log first)
    (isSecond : Registered log second)
    (same : first.nodeId = second.nodeId) :
    { first with pending := second.pending } = second := by
  obtain ⟨index, msg, found, isEntry⟩ := isFirst
  obtain ⟨other, otherMsg, otherFound, otherEntry⟩ := isSecond
  have inside := (List.getElem?_eq_some_iff.mp found).1
  have otherInside := (List.getElem?_eq_some_iff.mp otherFound).1
  rw [isEntry, otherEntry] at same
  obtain rfl : index = other := idOf_inj (by omega) (by omega) same
  rw [found] at otherFound
  cases otherFound
  rw [isEntry, otherEntry]

theorem registered_refresh?
    (few : (registrations log).length < 2 ^ 32 - 1) {info : NodeInfo}
    (isRegistered : Registered log info) {peers refreshed : List PeerLink}
    (known : ∀ link ∈ peers, Registered log link.info)
    (changed : refresh? info peers = some refreshed) :
    ∀ link ∈ refreshed, Registered log link.info := by
  induction peers generalizing refreshed with
  | nil => cases changed
  | cons first rest inductionHypothesis =>
      have ofFirst := known first List.mem_cons_self
      have ofRest : ∀ link ∈ rest, Registered log link.info :=
        fun link member => known link (List.mem_cons_of_mem _ member)
      unfold refresh? at changed
      split at changed
      · rename_i same
        cases changed
        intro link member
        rcases List.mem_cons.mp member with rfl | later
        · have agrees := ofFirst.eq_of_nodeId few isRegistered same
          have whole : ({ first.info with
              pending := info.pending
              label := info.label
              numWorkers := info.numWorkers } : NodeInfo) = info := by
            rw [← agrees]
          change Registered log { first.info with
            pending := info.pending
            label := info.label
            numWorkers := info.numWorkers }
          rw [whole]
          exact isRegistered
        · exact ofRest link later
      · obtain ⟨others, inRest, rfl⟩ := Option.map_eq_some_iff.mp changed
        intro link member
        rcases List.mem_cons.mp member with rfl | later
        · exact ofFirst
        · exact inductionHypothesis ofRest inRest link later

theorem registered_updatePeers
    (few : (registrations log).length < 2 ^ 32 - 1) {self : NodeId}
    {nodes : List NodeInfo} {peers : List PeerLink}
    (listed : ∀ info ∈ nodes, Registered log info)
    (known : ∀ link ∈ peers, Registered log link.info) :
    ∀ link ∈ nodes.foldl (updatePeer self) peers,
      Registered log link.info := by
  induction nodes generalizing peers with
  | nil => exact known
  | cons info rest inductionHypothesis =>
      refine inductionHypothesis (fun other member =>
        listed other (List.mem_cons_of_mem _ member)) ?_
      have isRegistered := listed info List.mem_cons_self
      unfold updatePeer
      split
      · exact known
      · cases changed : refresh? info peers with
        | some refreshed =>
            exact registered_refresh? few isRegistered known changed
        | none =>
            intro link member
            rcases List.mem_append.mp member with old | new
            · exact known link old
            · rw [List.mem_singleton.mp new]
              exact isRegistered

/-- A steal attempt changes nothing of an entry but its load. -/
theorem info_tryRemoteSteal (thief : Thief) (made : Attempt) :
    ∀ link ∈ (thief.tryRemoteSteal made.victim made.outcome).1.peers,
      ∃ old ∈ thief.peers,
        link.info = { old.info with pending := link.info.pending } := by
  obtain ⟨victim, outcome⟩ := made
  have ofChange : ∀ change : PeerLink → PeerLink,
      (∀ link, (change link).info =
        { link.info with pending := (change link).info.pending }) →
      ∀ link ∈ (thief.onLink victim change).peers, ∃ old ∈ thief.peers,
        link.info = { old.info with pending := link.info.pending } := by
    intro change changes link member
    obtain ⟨old, isOld, rfl⟩ := List.mem_map.mp member
    refine ⟨old, isOld, ?_⟩
    split
    · exact changes old
    · rfl
  cases outcome with
  | connectFailed => exact fun link member => ⟨link, member, rfl⟩
  | sendFailed | receiveFailed | undecodable =>
      exact ofChange _ fun _ => rfl
  | reply resp =>
      simp only [Thief.tryRemoteSteal]
      split
      · exact ofChange _ fun _ => rfl
      · exact ofChange _ fun _ => rfl

theorem registered_of_run (few : (registrations log).length < 2 ^ 32 - 1)
    {self : NodeId} {events : List PeerEvent} {thief : Thief}
    (ran : (stealing self).run { self } events = some thief)
    (listed : ∀ msg ∈ nodeLists events, ∀ info ∈ msg.nodes,
      Registered log info) :
    ∀ link ∈ thief.peers, Registered log link.info := by
  refine @Machine.run_invariant _ _ _ (fun thief events =>
    (∀ msg ∈ nodeLists events, ∀ info ∈ msg.nodes, Registered log info) →
      ∀ link ∈ thief.peers, Registered log link.info) _ _ _ ?_ ?_ ran listed
  · intro _ link member
    cases member
  · intro state earlier event following known stepped listed
    cases event with
    | nodeList msg =>
        cases stepped
        have lists : nodeLists (earlier ++ [.nodeList msg]) =
            nodeLists earlier ++ [msg] := by
          simp [nodeLists, PeerEvent.nodeList?]
        rw [lists] at listed
        refine registered_updatePeers few ?_ (known ?_)
        · exact listed msg (List.mem_append_right _
            (List.mem_singleton_self _))
        · exact fun other member =>
            listed other (List.mem_append_left _ member)
    | attempt made =>
        have lists : nodeLists (earlier ++ [.attempt made]) =
            nodeLists earlier := by
          simp [nodeLists, PeerEvent.nodeList?]
        rw [lists] at listed
        simp only [stealing] at stepped
        split at stepped
        · cases stepped
          intro link member
          obtain ⟨old, isOld, same⟩ := info_tryRemoteSteal state made link
            member
          obtain ⟨index, msg, found, entry⟩ := known listed old isOld
          refine ⟨index, msg, found, ?_⟩
          rw [same, entry]
        · cases stepped

end Links

/-- A registered node knows exactly the other nodes that were in a list it has
taken, that is, those the coordinator had heard of within its timeout when it
read the list, and it knows of each what that node itself advertised. -/
theorem discovered_peers (few : configs.length < 2 ^ 32 - 1)
    (reached : (discovery configs).Reachable state)
    (number : Nat) (session : Session)
    (present : state.sessions[number]? = some session)
    (joined : session.Joined) :
    (∀ nodeId, (∃ link ∈ session.thief.peers, link.nodeId = nodeId) ↔
      nodeId ≠ session.thief.self ∧ ∃ snapshot ∈ session.answered,
        ∃ record ∈ (Coordinator.after snapshot.log).nodes,
          record.info.nodeId = nodeId ∧
            snapshot.now - record.lastSeenMs ≤ kNodeTimeoutMs) ∧
    ∀ link ∈ session.thief.peers, ∃ (other : Nat) (peer : Session),
      state.sessions[other]? = some peer ∧ other ≠ number ∧
        (peer.Joined → link.nodeId = peer.thief.self) ∧
        link.info = {
          nodeId := link.nodeId
          host := peer.advertised.host
          port := peer.advertised.port
          numWorkers := peer.advertised.numWorkers
          pending := link.info.pending
          label := peer.advertised.label } := by
  have consistent := State.consistent_of_reachable reached
  have member := List.mem_of_getElem? present
  have beats := (consistent.proper session member).beats joined
  have arrived := beats.nodeLists_eq
  have fewHere : (registrations state.log).length < 2 ^ 32 - 1 :=
    lt_of_le_of_lt consistent.registrations_le few
  obtain ⟨_, peers⟩ := isPeer_of_run beats.ran
  refine ⟨?_, ?_⟩
  · intro nodeId
    refine (peers nodeId).trans ?_
    rw [and_comm]
    refine and_congr_right fun _ => ?_
    unfold EverListed
    rw [arrived]
    constructor
    · rintro ⟨msg, isList, info, listed, same⟩
      obtain ⟨snapshot, taken, rfl⟩ := List.mem_map.mp isList
      obtain ⟨record, kept, rfl⟩ := List.mem_map.mp listed
      obtain ⟨isRecord, isLive⟩ := List.mem_filter.mp kept
      exact ⟨snapshot, taken, record, isRecord, same,
        of_decide_eq_true isLive⟩
    · rintro ⟨snapshot, taken, record, isRecord, same, recent⟩
      exact ⟨_, List.mem_map_of_mem taken, record.info,
        List.mem_map_of_mem (List.mem_filter.mpr
          ⟨isRecord, decide_eq_true recent⟩), same⟩
  · intro link isLink
    have listed : ∀ msg ∈ nodeLists session.events, ∀ info ∈ msg.nodes,
        Registered state.log info := by
      rw [arrived]
      intro msg isList info inList
      obtain ⟨snapshot, taken, rfl⟩ := List.mem_map.mp isList
      exact (registered_of_listed inList).1.mono (consistent.snapshots
        session member snapshot (List.mem_of_mem_take taken))
    obtain ⟨index, msg, found, same⟩ :=
      registered_of_run fewHere beats.ran listed link isLink
    obtain ⟨peer, isPeer, registration⟩ := consistent.owned index
      (List.getElem?_eq_some_iff.mp found).1
    obtain ⟨other, atOther⟩ := List.mem_iff_getElem?.mp isPeer
    have advertised := consistent.registered peer isPeer index registration
    rw [found] at advertised
    cases advertised
    have nodeId : link.nodeId = idOf index := congrArg NodeInfo.nodeId same
    refine ⟨other, peer, atOther, ?_, ?_, ?_⟩
    · rintro rfl
      rw [present] at atOther
      cases atOther
      obtain ⟨own, ofOwn, self, _⟩ := consistent.own member joined
      rw [registration] at ofOwn
      cases ofOwn
      exact ((peers link.nodeId).mp ⟨link, isLink, rfl⟩).2
        (nodeId.trans self.symm)
    · intro peerJoined
      obtain ⟨own, ofOwn, self, _⟩ := consistent.own isPeer peerJoined
      rw [registration] at ofOwn
      cases ofOwn
      exact nodeId.trans self.symm
    · rw [nodeId]
      exact same

theorem discovered_peers_nodes_meet : ∃ (state : State) (session : Session),
    (discovery twoNodes).Reachable state ∧
      state.sessions[0]? = some session ∧ session.thief.peers.length = 1 ∧
      ∀ link ∈ session.thief.peers, ∃ other : Nat, other ≠ 0 ∧
        ∃ peer : Session, state.sessions[other]? = some peer ∧
          link.info.host = peer.advertised.host := by
  obtain ⟨state, session, reached, present, sleeping, _, _, _, figures⟩ :=
    nodes_meet
  refine ⟨state, session, reached, present, ?_, fun link isLink => ?_⟩
  · simpa using congrArg List.length figures
  · obtain ⟨other, peer, atOther, different, _, same⟩ :=
      (discovered_peers (by decide) reached 0 session present
        (.inl sleeping)).2 link isLink
    refine ⟨other, different, peer, atOther, ?_⟩
    rw [same]

/-! ## Where load figures come from -/

/-- What an event says about the load of a node.  A list of this coordinator
says that a node has none. -/
def figure? (nodeId : NodeId) : PeerEvent → Option UInt64
  | .nodeList msg =>
      if msg.nodes.any (·.nodeId == nodeId) then some 0 else none
  | .attempt ⟨victim, .reply resp⟩ =>
      if victim = nodeId then some resp.victimPending else none
  | .attempt _ => none

def lastFigure (nodeId : NodeId) (events : List PeerEvent) : UInt64 :=
  (events.reverse.findSome? (figure? nodeId)).getD 0

theorem lastFigure_append (nodeId : NodeId) (events : List PeerEvent)
    (event : PeerEvent) :
    lastFigure nodeId (events ++ [event]) =
      (figure? nodeId event).getD (lastFigure nodeId events) := by
  rw [lastFigure, List.reverse_append, List.reverse_singleton,
    List.singleton_append, List.findSome?_cons]
  cases figure? nodeId event with
  | none => rfl
  | some figure => rfl

/-- Where lists say that nobody has any load. -/
theorem reported?_eq_figure? {nodeId : NodeId} {event : PeerEvent}
    (noLoads : ∀ msg, event = .nodeList msg →
      ∀ info ∈ msg.nodes, info.pending = 0) :
    reported? nodeId event = figure? nodeId event := by
  cases event with
  | nodeList msg =>
      rw [reported?, figure?]
      cases found : lastEntry nodeId msg.nodes with
      | none =>
          have missing := Keyed.lookup_eq_none_iff.mp found
          rw [if_neg]
          · rfl
          · intro listed
            obtain ⟨info, inNodes, same⟩ := List.any_eq_true.mp listed
            apply missing
            rw [← beq_iff_eq.mp same]
            exact List.mem_map_of_mem (List.mem_reverse.mpr inNodes)
      | some last =>
          have inNodes := List.mem_reverse.mp (List.mem_of_find?_eq_some found)
          have same := List.find?_some found
          have listed : msg.nodes.any (·.nodeId == nodeId) = true :=
            List.any_eq_true.mpr
              ⟨last, inNodes, beq_iff_eq.mpr (of_decide_eq_true same)⟩
          rw [if_pos listed]
          exact congrArg some (noLoads msg rfl last inNodes)
  | attempt made =>
      obtain ⟨victim, outcome⟩ := made
      cases outcome with
      | connectFailed | sendFailed | receiveFailed | undecodable | reply =>
          rfl

theorem lastReported_eq_lastFigure {events : List PeerEvent}
    (noLoads : ∀ msg ∈ nodeLists events, ∀ info ∈ msg.nodes,
      info.pending = 0) (nodeId : NodeId) :
    lastReported nodeId events = lastFigure nodeId events := by
  induction events using List.reverseRecOn with
  | nil =>
      rfl
  | append_singleton earlier event inductionHypothesis =>
      have lists : nodeLists (earlier ++ [event]) =
          nodeLists earlier ++ nodeLists [event] :=
        List.filterMap_append
      rw [lists] at noLoads
      rw [lastReported_append, lastFigure_append, reported?_eq_figure?,
        inductionHypothesis fun msg isList =>
          noLoads msg (List.mem_append_left _ isList)]
      rintro msg rfl
      exact noLoads msg
        (List.mem_append_right _ (List.mem_singleton_self msg))

/-- The load figure of a peer is the one in its last reply to a steal, or zero
if a list with the peer in it came later: the coordinator forgets what the
heartbeats say, and its lists wipe out what the thief has found out. -/
theorem load_figures (reached : (discovery configs).Reachable state)
    (session : Session) (member : session ∈ state.sessions)
    (joined : session.Joined) :
    ∀ link ∈ session.thief.peers,
      link.info.pending = lastFigure link.nodeId session.events := by
  have beats := ((State.consistent_of_reachable reached).proper session
    member).beats joined
  have noLoads : ∀ msg ∈ nodeLists session.events, ∀ info ∈ msg.nodes,
      info.pending = 0 := by
    rw [beats.nodeLists_eq]
    intro msg isList info listed
    obtain ⟨snapshot, _, rfl⟩ := List.mem_map.mp isList
    exact (registered_of_listed listed).2
  intro link isLink
  rw [(tabulates_of_run beats.ran).load isLink,
    lastReported_eq_lastFigure noLoads]

theorem load_figures_nodes_meet : ∃ (state : State) (session : Session),
    (discovery twoNodes).Reachable state ∧ session ∈ state.sessions ∧
      session.thief.peers.map (·.info.pending) = [9] ∧
      ∀ link ∈ session.thief.peers,
        link.info.pending = lastFigure link.nodeId session.events := by
  obtain ⟨state, session, reached, present, sleeping, _, _, _, figures⟩ :=
    nodes_meet
  have member := List.mem_of_getElem? present
  exact ⟨state, session, reached, member, figures,
    load_figures reached session member (.inl sleeping)⟩

end HydraRT.Cluster.Discovery
