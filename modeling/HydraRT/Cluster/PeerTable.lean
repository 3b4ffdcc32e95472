import HydraRT.Lib.Keyed
import HydraRT.Cluster.Victims

/-!
# The peer table

`peers_` is a table with the node id as its key.  `update_peers` inserts into
it or refreshes an entry, a reply to a steal changes the entry of the victim,
and `peer_for` looks an entry up.  What the table says about a node follows
from the lists of the coordinator, one node at a time.
-/

namespace HydraRT.Cluster

open HydraRT.Lib
open HydraRT.Net (NodeInfo NodeListMsg)

def PeerLink.nodeId (link : PeerLink) : NodeId :=
  link.info.nodeId

/-- `Node::peer_for`. -/
def peerFor (nodeId : NodeId) (peers : List PeerLink) : Option PeerLink :=
  Keyed.lookup PeerLink.nodeId nodeId peers

/-- The link that `update_peers` makes of a new entry. -/
def PeerLink.ofInfo (info : NodeInfo) : PeerLink :=
  { info }

/-- What `update_peers` does to a link it knows. -/
def PeerLink.refresh (info : NodeInfo) (link : PeerLink) : PeerLink :=
  { link with
    info := { link.info with
      pending := info.pending
      label := info.label
      numWorkers := info.numWorkers } }

/-- Where `try_remote_steal` connects to. -/
def PeerLink.address (link : PeerLink) : Net.Bytes × UInt16 :=
  (link.info.host, link.info.port)

/-- What victims are selected by, and what is shown of them. -/
def PeerLink.figures (link : PeerLink) : UInt64 × Net.Bytes × UInt32 :=
  (link.info.pending, link.info.label, link.info.numWorkers)

/-! ## One entry of a list -/

theorem nodeId_refresh (info : NodeInfo) (link : PeerLink) :
    (PeerLink.refresh info link).nodeId = link.nodeId := rfl

theorem refresh?_getD (info : NodeInfo) (peers : List PeerLink) :
    (refresh? info peers).getD (peers ++ [.ofInfo info]) =
      Keyed.upsert PeerLink.nodeId (.refresh info) (.ofInfo info) peers := by
  induction peers with
  | nil =>
      rfl
  | cons link rest inductionHypothesis =>
      rw [refresh?, Keyed.upsert]
      by_cases same : link.info.nodeId = info.nodeId
      · rw [if_pos same]
        exact (if_pos same).symm
      · rw [if_neg same]
        refine Eq.trans ?_ (if_neg same).symm
        rw [← inductionHypothesis]
        cases refresh? info rest with
        | none => rfl
        | some refreshed => rfl

/-- One round of `update_peers` adds to the table or refreshes an entry. -/
theorem updatePeer_eq_upsert (self : NodeId) (peers : List PeerLink)
    (info : NodeInfo) :
    updatePeer self peers info =
      if info.nodeId = self then peers
      else Keyed.upsert PeerLink.nodeId (.refresh info) (.ofInfo info)
        peers := by
  rw [updatePeer, ← refresh?_getD]
  by_cases own : info.nodeId = self
  · rw [if_pos own, if_pos own]
  · rw [if_neg own, if_neg own]
    cases refresh? info peers with
    | none => rfl
    | some refreshed => rfl

theorem peerFor_updatePeer (self nodeId : NodeId) (peers : List PeerLink)
    (info : NodeInfo) :
    peerFor nodeId (updatePeer self peers info) =
      if nodeId = info.nodeId ∧ nodeId ≠ self then
        some ((peerFor nodeId peers).elim (.ofInfo info) (.refresh info))
      else peerFor nodeId peers := by
  rw [updatePeer_eq_upsert]
  by_cases own : info.nodeId = self
  · rw [if_pos own, if_neg]
    rintro ⟨same, notSelf⟩
    exact notSelf (same.trans own)
  · rw [if_neg own, peerFor, Keyed.lookup_upsert (nodeId_refresh info)]
    by_cases same : nodeId = info.nodeId
    · have notSelf : nodeId ≠ self := fun found => own (same.symm.trans found)
      exact (if_pos same).trans (if_pos ⟨same, notSelf⟩).symm
    · exact (if_neg same).trans (if_neg fun both => same both.1).symm

/-- Distinct ids stay distinct, and the own id stays out. -/
structure WellKeyed (own : NodeId) (peers : List PeerLink) : Prop where
  distinct : (peers.map PeerLink.nodeId).Nodup
  notOwn : own ∉ peers.map PeerLink.nodeId

theorem WellKeyed.updatePeer {self : NodeId} {peers : List PeerLink}
    (wellKeyed : WellKeyed self peers) (info : NodeInfo) :
    WellKeyed self (Cluster.updatePeer self peers info) := by
  rw [updatePeer_eq_upsert]
  by_cases own : info.nodeId = self
  · rw [if_pos own]
    exact wellKeyed
  · rw [if_neg own]
    refine ⟨Keyed.nodup_upsert (nodeId_refresh info) wellKeyed.distinct _, ?_⟩
    rw [Keyed.map_key_upsert (nodeId_refresh info)]
    split_ifs
    · exact wellKeyed.notOwn
    · rw [List.mem_append, not_or]
      refine ⟨wellKeyed.notOwn, ?_⟩
      intro member
      exact own (List.mem_singleton.mp member).symm

/-! ## A whole list -/

/-- The first entry about a node. -/
def firstEntry (nodeId : NodeId) (nodes : List NodeInfo) : Option NodeInfo :=
  Keyed.lookup NodeInfo.nodeId nodeId nodes

/-- The last entry about a node. -/
def lastEntry (nodeId : NodeId) (nodes : List NodeInfo) : Option NodeInfo :=
  Keyed.lookup NodeInfo.nodeId nodeId nodes.reverse

theorem WellKeyed.updatePeers {self : NodeId} {peers : List PeerLink}
    (wellKeyed : WellKeyed self peers) (nodes : List NodeInfo) :
    WellKeyed self (nodes.foldl (Cluster.updatePeer self) peers) := by
  induction nodes generalizing peers with
  | nil =>
      exact wellKeyed
  | cons info rest inductionHypothesis =>
      exact inductionHypothesis (wellKeyed.updatePeer info)

/-- A node keeps the address it was first listed with. -/
theorem address_updatePeers {self nodeId : NodeId} (notSelf : nodeId ≠ self)
    (nodes : List NodeInfo) (peers : List PeerLink) :
    (peerFor nodeId (nodes.foldl (updatePeer self) peers)).map
        PeerLink.address =
      ((peerFor nodeId peers).map PeerLink.address).or
        ((firstEntry nodeId nodes).map fun first =>
          (first.host, first.port)) := by
  induction nodes generalizing peers with
  | nil =>
      exact Option.or_none.symm
  | cons info rest inductionHypothesis =>
      rw [List.foldl_cons, inductionHypothesis, peerFor_updatePeer,
        firstEntry, firstEntry, Keyed.lookup_cons]
      by_cases same : nodeId = info.nodeId
      · rw [if_pos ⟨same, notSelf⟩, if_pos same.symm]
        cases peerFor nodeId peers with
        | none => rfl
        | some link => rfl
      · rw [if_neg (fun both => same both.1), if_neg (Ne.symm same)]

/-- The last entry of the list is the one that counts for the rest. -/
theorem figures_updatePeers {self nodeId : NodeId} (notSelf : nodeId ≠ self)
    (nodes : List NodeInfo) (peers : List PeerLink) :
    peerFor nodeId (nodes.foldl (updatePeer self) peers) =
        peerFor nodeId peers ∧ lastEntry nodeId nodes = none ∨
      ∃ last link, lastEntry nodeId nodes = some last ∧
        peerFor nodeId (nodes.foldl (updatePeer self) peers) = some link ∧
        link.figures = (last.pending, last.label, last.numWorkers) := by
  induction nodes using List.reverseRecOn with
  | nil =>
      exact Or.inl ⟨rfl, rfl⟩
  | append_singleton earlier info inductionHypothesis =>
      rw [List.foldl_append, List.foldl_cons, List.foldl_nil,
        peerFor_updatePeer, lastEntry, List.reverse_append,
        List.reverse_singleton, List.singleton_append, Keyed.lookup_cons]
      by_cases same : nodeId = info.nodeId
      · rw [if_pos ⟨same, notSelf⟩, if_pos same.symm]
        refine Or.inr ⟨info, _, rfl, rfl, ?_⟩
        cases peerFor nodeId (earlier.foldl (updatePeer self) peers) with
        | none => rfl
        | some link => rfl
      · rw [if_neg (fun both => same both.1), if_neg (Ne.symm same)]
        exact inductionHypothesis

/-! ## Replies -/

/-- What an event says about the load of a node. -/
def reported? (nodeId : NodeId) : PeerEvent → Option UInt64
  | .nodeList msg => (lastEntry nodeId msg.nodes).map NodeInfo.pending
  | .attempt ⟨victim, .reply resp⟩ =>
      if victim = nodeId then some resp.victimPending else none
  | .attempt _ => none

theorem reported?_attempt_other {nodeId : NodeId} {made : Attempt}
    (other : nodeId ≠ made.victim) :
    reported? nodeId (.attempt made) = none := by
  obtain ⟨victim, outcome⟩ := made
  cases outcome with
  | reply resp =>
      exact if_neg (Ne.symm other)
  | connectFailed | sendFailed | receiveFailed | undecodable =>
      rfl

/-- An attempt changes entries with the id of the victim, and neither ids nor
addresses.  The load becomes the one that is reported. -/
theorem peers_tryRemoteSteal (thief : Thief) (made : Attempt) :
    ∃ change : PeerLink → PeerLink,
      (thief.tryRemoteSteal made.victim made.outcome).1.peers =
          Keyed.changeAt PeerLink.nodeId made.victim change thief.peers ∧
        (∀ link, (change link).nodeId = link.nodeId) ∧
        (∀ link, (change link).address = link.address) ∧
        ∀ link, (change link).info.pending =
          (reported? made.victim (.attempt made)).getD
            link.info.pending := by
  obtain ⟨victim, outcome⟩ := made
  cases outcome with
  | connectFailed =>
      refine ⟨id, ?_, fun _ => rfl, fun _ => rfl, fun _ => rfl⟩
      simp [Thief.tryRemoteSteal, Keyed.changeAt]
  | sendFailed | receiveFailed | undecodable =>
      exact ⟨_, rfl, fun _ => rfl, fun _ => rfl, fun _ => rfl⟩
  | reply resp =>
      simp only [Thief.tryRemoteSteal, reported?, if_true, Option.getD_some]
      split_ifs
      · exact ⟨_, rfl, fun _ => rfl, fun _ => rfl, fun _ => rfl⟩
      · exact ⟨_, rfl, fun _ => rfl, fun _ => rfl, fun _ => rfl⟩

/-- In a table with distinct ids an attempt changes one entry. -/
theorem peers_tryRemoteSteal_of_distinct {thief : Thief} (made : Attempt)
    {before after : List PeerLink} {link : PeerLink}
    (parts : thief.peers = before ++ link :: after)
    (isVictim : link.nodeId = made.victim)
    (distinct : (thief.peers.map PeerLink.nodeId).Nodup) :
    ∃ changed,
      (thief.tryRemoteSteal made.victim made.outcome).1.peers =
          before ++ changed :: after ∧
        changed.nodeId = link.nodeId ∧ changed.address = link.address := by
  obtain ⟨change, peers, keepsId, keepsAddress, _⟩ :=
    peers_tryRemoteSteal thief made
  refine ⟨change link, ?_, keepsId link, keepsAddress link⟩
  rw [parts] at distinct
  rw [peers, parts, ← isVictim, Keyed.changeAt_of_nodup distinct]

/-! ## Runs -/

/-- All entries of the lists, in order. -/
def entries (events : List PeerEvent) : List NodeInfo :=
  (nodeLists events).flatMap NodeListMsg.nodes

theorem entries_append (events : List PeerEvent) (event : PeerEvent) :
    entries (events ++ [event]) =
      entries events ++ event.nodeList?.elim [] NodeListMsg.nodes := by
  rw [entries, nodeLists, List.filterMap_append, List.flatMap_append]
  cases event with
  | nodeList msg =>
      simp [entries, nodeLists, PeerEvent.nodeList?]
  | attempt made =>
      simp [entries, nodeLists, PeerEvent.nodeList?]

/-- The other nodes that have been listed, in the order in which they first
were. -/
def listedIds (own : NodeId) (events : List PeerEvent) : List NodeId :=
  (((entries events).map NodeInfo.nodeId).filter (· ≠ own)).eraseDups

/-- The load a node has last reported, in a list or in a reply to a steal. -/
def lastReported (nodeId : NodeId) (events : List PeerEvent) : UInt64 :=
  (events.reverse.findSome? (reported? nodeId)).getD 0

theorem lastReported_append (nodeId : NodeId) (events : List PeerEvent)
    (event : PeerEvent) :
    lastReported nodeId (events ++ [event]) =
      (reported? nodeId event).getD (lastReported nodeId events) := by
  rw [lastReported, List.reverse_append, List.reverse_singleton,
    List.singleton_append, List.findSome?_cons]
  cases reported? nodeId event with
  | none => rfl
  | some load => rfl

theorem eraseDups_append_singleton {Item : Type} [DecidableEq Item]
    (items : List Item) (item : Item) :
    (items ++ [item]).eraseDups =
      if item ∈ items.eraseDups then items.eraseDups
      else items.eraseDups ++ [item] := by
  rw [List.eraseDups_append]
  by_cases known : item ∈ items
  · rw [if_pos (List.mem_eraseDups.mpr known)]
    simp [List.removeAll, known]
  · rw [if_neg (mt List.mem_eraseDups.mp known)]
    simp [List.removeAll, known, List.eraseDups_cons]

/-- A new node is linked after those that are known. -/
theorem nodeIds_updatePeers (self : NodeId) (nodes : List NodeInfo)
    {peers : List PeerLink} {ids : List NodeId}
    (known : peers.map PeerLink.nodeId = (ids.filter (· ≠ self)).eraseDups) :
    (nodes.foldl (updatePeer self) peers).map PeerLink.nodeId =
      ((ids ++ nodes.map NodeInfo.nodeId).filter (· ≠ self)).eraseDups := by
  induction nodes using List.reverseRecOn with
  | nil =>
      rw [List.map_nil, List.append_nil]
      exact known
  | append_singleton earlier info inductionHypothesis =>
      rw [List.foldl_append, List.foldl_cons, List.foldl_nil,
        updatePeer_eq_upsert, List.map_append, List.map_singleton,
        ← List.append_assoc, List.filter_append]
      by_cases own : info.nodeId = self
      · rw [if_pos own, inductionHypothesis, own]
        simp
      · have isOther : [info.nodeId].filter (· ≠ self) = [info.nodeId] := by
          simp [own]
        rw [if_neg own, Keyed.map_key_upsert (nodeId_refresh info),
          inductionHypothesis, isOther, eraseDups_append_singleton]
        rfl

/-- What the table says about every node, after any run. -/
structure Tabulates (own : NodeId) (thief : Thief)
    (events : List PeerEvent) : Prop where
  self : thief.self = own
  wellKeyed : WellKeyed own thief.peers
  addresses : ∀ nodeId, nodeId ≠ own →
    (peerFor nodeId thief.peers).map PeerLink.address =
      (firstEntry nodeId (entries events)).map fun first =>
        (first.host, first.port)
  order : thief.peers.map PeerLink.nodeId = listedIds own events
  loads : ∀ nodeId link, peerFor nodeId thief.peers = some link →
    link.info.pending = lastReported nodeId events

variable {own : NodeId} {thief : Thief} {events : List PeerEvent}

theorem Tabulates.nodeList (tabulates : Tabulates own thief events)
    (msg : NodeListMsg) :
    Tabulates own (thief.updatePeers msg) (events ++ [.nodeList msg]) := by
  obtain ⟨rfl, wellKeyed, addresses, order, loads⟩ := tabulates
  refine ⟨rfl, wellKeyed.updatePeers msg.nodes, ?_, ?_, ?_⟩
  · intro nodeId notOwn
    rw [Thief.updatePeers, address_updatePeers notOwn,
      addresses nodeId notOwn, entries_append,
      firstEntry, firstEntry, firstEntry, Keyed.lookup_append,
      Option.map_or]
    rfl
  · rw [Thief.updatePeers, listedIds, entries_append, List.map_append]
    exact nodeIds_updatePeers thief.self msg.nodes order
  · intro nodeId link found
    have notOwn : nodeId ≠ thief.self := by
      rintro rfl
      have unknown := Keyed.lookup_eq_none_iff.mpr
        (wellKeyed.updatePeers msg.nodes).notOwn
      exact absurd (unknown.symm.trans found) (by simp)
    rw [lastReported_append, reported?]
    rcases figures_updatePeers notOwn msg.nodes thief.peers with
      ⟨unchanged, missing⟩ | ⟨last, same, isLast, isSame, figures⟩
    · rw [missing]
      exact loads nodeId link (unchanged.symm.trans found)
    · obtain rfl : link = same := Option.some.inj (found.symm.trans isSame)
      rw [isLast]
      exact congrArg Prod.fst figures

theorem Tabulates.attempt (tabulates : Tabulates own thief events)
    (made : Attempt) :
    Tabulates own (thief.tryRemoteSteal made.victim made.outcome).1
      (events ++ [.attempt made]) := by
  obtain ⟨sameSelf, wellKeyed, addresses, order, loads⟩ := tabulates
  obtain ⟨change, peers, keepsId, keepsAddress, changesLoad⟩ :=
    peers_tryRemoteSteal thief made
  have sameEntries : entries (events ++ [.attempt made]) =
      entries events := by
    rw [entries_append]
    exact List.append_nil _
  refine ⟨(thief.tryRemoteSteal_self _ _).trans sameSelf, ⟨?_, ?_⟩, ?_, ?_,
    ?_⟩
  · rw [peers, Keyed.map_key_changeAt keepsId]
    exact wellKeyed.distinct
  · rw [peers, Keyed.map_key_changeAt keepsId]
    exact wellKeyed.notOwn
  · intro nodeId notOwn
    have known := addresses nodeId notOwn
    rw [peerFor] at known
    rw [peers, peerFor, Keyed.lookup_changeAt keepsId, sameEntries, ← known]
    split_ifs
    · rw [Option.map_map]
      exact congrArg (Option.map · _) (funext keepsAddress)
    · rfl
  · rw [peers, Keyed.map_key_changeAt keepsId, listedIds, sameEntries]
    exact order
  · intro nodeId link found
    rw [peers, peerFor, Keyed.lookup_changeAt keepsId] at found
    rw [lastReported_append]
    by_cases isVictim : nodeId = made.victim
    · rw [if_pos isVictim] at found
      obtain ⟨old, isOld, rfl⟩ := Option.map_eq_some_iff.mp found
      rw [changesLoad, loads nodeId old isOld, isVictim]
    · rw [if_neg isVictim] at found
      rw [reported?_attempt_other isVictim]
      exact loads nodeId link found

theorem tabulates_of_run (ran : (stealing own).run { self := own } events =
    some thief) : Tabulates own thief events := by
  refine Machine.run_invariant ?_ ?_ ran
  · refine ⟨rfl, ⟨List.nodup_nil, List.not_mem_nil⟩, ?_, rfl, ?_⟩
    · intro nodeId _
      rfl
    · intro nodeId link found
      cases found
  · intro state earlier event following tabulates stepped
    cases event with
    | nodeList msg =>
        cases stepped
        exact tabulates.nodeList msg
    | attempt made =>
        simp only [stealing] at stepped
        split at stepped
        · cases stepped
          exact tabulates.attempt made
        · cases stepped

theorem Tabulates.load (tabulates : Tabulates own thief events)
    {link : PeerLink} (member : link ∈ thief.peers) :
    link.info.pending = lastReported link.nodeId events :=
  tabulates.loads link.nodeId link
    ((Keyed.lookup_eq_some_iff tabulates.wellKeyed.distinct).mpr
      ⟨member, rfl⟩)

/-- The table in terms of the lists that were processed. -/
structure PeerTable (own : NodeId) (thief : Thief)
    (events : List PeerEvent) : Prop where
  notOwn : ∀ link ∈ thief.peers, link.nodeId ≠ own
  distinct : (thief.peers.map PeerLink.nodeId).Nodup
  listed : ∀ nodeId, EverListed events nodeId → nodeId ≠ own →
    ∃ link ∈ thief.peers, link.nodeId = nodeId ∧
      ∃ first, firstEntry nodeId (entries events) = some first ∧
        link.address = (first.host, first.port)
  /-- After a further list. -/
  refreshed : ∀ msg nodeId last, nodeId ≠ own →
    lastEntry nodeId msg.nodes = some last →
    ∃ link ∈ (thief.updatePeers msg).peers, link.nodeId = nodeId ∧
      link.figures = (last.pending, last.label, last.numWorkers)
  unlisted : ∀ msg, ∀ link ∈ thief.peers,
    (∀ info ∈ msg.nodes, info.nodeId ≠ link.nodeId) →
    link ∈ (thief.updatePeers msg).peers

/-- In every run of lists and replies the table has one entry for every other
node ever listed, with the address of its first listing, and every list
refreshes the entries it names and no others. -/
theorem peer_table_invariant {own : NodeId} {events : List PeerEvent}
    {thief : Thief} (ran : (stealing own).run { self := own } events =
      some thief) : PeerTable own thief events := by
  obtain ⟨rfl, wellKeyed, addresses, _, _⟩ := tabulates_of_run ran
  refine ⟨?_, wellKeyed.distinct, ?_, ?_, ?_⟩
  · intro link member same
    exact wellKeyed.notOwn (same ▸ List.mem_map_of_mem member)
  · intro nodeId everListed notOwn
    obtain ⟨msg, inLists, info, inMsg, same⟩ := everListed
    have isListed : nodeId ∈ (entries events).map NodeInfo.nodeId := by
      rw [← same]
      exact List.mem_map_of_mem
        (List.mem_flatMap.mpr ⟨msg, inLists, inMsg⟩)
    cases found : firstEntry nodeId (entries events) with
    | none =>
        exact absurd isListed (Keyed.lookup_eq_none_iff.mp found)
    | some first =>
        have known := addresses nodeId notOwn
        rw [found] at known
        obtain ⟨link, isLink, address⟩ := Option.map_eq_some_iff.mp known
        obtain ⟨member, sameId⟩ :=
          (Keyed.lookup_eq_some_iff wellKeyed.distinct).mp isLink
        exact ⟨link, member, sameId, first, rfl, address⟩
  · intro msg nodeId last notOwn found
    rcases figures_updatePeers notOwn msg.nodes thief.peers with
      ⟨_, missing⟩ | ⟨other, link, isLast, isLink, figures⟩
    · rw [found] at missing
      cases missing
    · obtain rfl : last = other := by
        rw [found] at isLast
        exact Option.some.inj isLast
      obtain ⟨member, sameId⟩ := (Keyed.lookup_eq_some_iff
        (wellKeyed.updatePeers msg.nodes).distinct).mp isLink
      exact ⟨link, member, sameId, figures⟩
  · intro msg link member others
    have notOwn : link.nodeId ≠ thief.self := fun same =>
      wellKeyed.notOwn (same ▸ List.mem_map_of_mem member)
    have before : peerFor link.nodeId thief.peers = some link :=
      (Keyed.lookup_eq_some_iff wellKeyed.distinct).mpr ⟨member, rfl⟩
    rcases figures_updatePeers notOwn msg.nodes thief.peers with
      ⟨unchanged, _⟩ | ⟨last, _, isLast, _, _⟩
    · rw [before] at unchanged
      exact ((Keyed.lookup_eq_some_iff
        (wellKeyed.updatePeers msg.nodes).distinct).mp unchanged).1
    · have inMsg := List.mem_of_find?_eq_some isLast
      have sameId := List.find?_some isLast
      exact absurd (of_decide_eq_true sameId)
        (others last (List.mem_reverse.mp inMsg))

/-- Node 2 is listed twice with different addresses and loads, node 1 lists
itself, and node 2 answers a steal. -/
theorem peer_table_invariant_repeated :
    ∃ thief, PeerTable 1 thief
      [.nodeList ⟨[{ nodeId := 2, port := 7, pending := 3 },
          { nodeId := 1 }, { nodeId := 2, port := 8, pending := 4 }]⟩,
        .attempt ⟨2, .reply { victimPending := 9 }⟩] :=
  ⟨_, peer_table_invariant rfl⟩

end HydraRT.Cluster
