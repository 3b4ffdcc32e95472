import HydraRT.Cluster.Peers
import HydraRT.Lib.Leader

/-!
# Which peers become victims

The coordinator drops a silent node from the lists it sends.  `update_peers`
does not turn the absence into anything: the link stays, with the last load
that was seen, and each policy decides whether it is ever asked again.
-/

namespace HydraRT.Cluster

open HydraRT.Lib
open HydraRT.Net (NodeInfo NodeListMsg)

/-! ## What a policy can pick -/

/-- The load a peer last reported. -/
def PeerLink.load (link : PeerLink) : Nat :=
  link.info.pending.toNat

section Score

variable {Score : Type} [LinearOrder Score] [Zero Score]
  {score : UInt64 → UInt32 → Score}

/-- What the adaptive policy compares. -/
def PeerLink.scored (score : UInt64 → UInt32 → Score) (link : PeerLink) :
    Score :=
  score link.info.pending link.misses

/-- What the loop of the adaptive policy has found among the peers it has
looked at. -/
def Scored (score : UInt64 → UInt32 → Score) (seen : List PeerLink) :
    Option PeerLink × Score → Prop
  | (none, best) => best = 0 ∧ ∀ link ∈ seen, ¬ 0 < link.scored score
  | (some link, best) => best = link.scored score ∧
      0 < link.scored score ∧ Leads (PeerLink.scored score) seen link

theorem Scored.next {seen : List PeerLink} {found : Option PeerLink × Score}
    (scored : Scored score seen found) (peer : PeerLink) :
    Scored score (seen ++ [peer])
      (if peer.scored score > found.2 then (some peer, peer.scored score)
        else found) := by
  obtain ⟨link?, best⟩ := found
  cases link? with
  | none =>
      obtain ⟨rfl, idle⟩ := scored
      by_cases better : peer.scored score > 0
      · rw [if_pos better]
        refine ⟨rfl, better, seen, [], rfl, ?_, by simp⟩
        intro other member
        exact (not_lt.mp (idle other member)).trans_lt better
      · rw [if_neg better]
        refine ⟨rfl, ?_⟩
        intro other member
        rcases List.mem_append.mp member with earlier | last
        · exact idle other earlier
        · rw [List.mem_singleton.mp last]
          exact better
  | some link =>
      obtain ⟨rfl, positive, leads⟩ := scored
      have later := leads.next peer
      by_cases better : link.scored score < peer.scored score
      · rw [if_pos better] at later
        rw [if_pos better]
        exact ⟨rfl, positive.trans better, later⟩
      · rw [if_neg better] at later
        rw [if_neg better]
        exact ⟨rfl, positive, later⟩

section Picks

variable {peers : List PeerLink} {property : PeerLink → Prop}

end Picks

end Score

/-! ## Who is known -/

theorem isPeer_updatePeer (self : NodeId) (peers : List PeerLink)
    (info : NodeInfo) (nodeId : NodeId) :
    (∃ link ∈ updatePeer self peers info, link.info.nodeId = nodeId) ↔
      (∃ link ∈ peers, link.info.nodeId = nodeId) ∨
        (info.nodeId = nodeId ∧ nodeId ≠ self) := by
  rcases updatePeer_cases self peers info with
    ⟨wasKnown, marks⟩ | ⟨notSelf, _, added⟩
  · have same : (∃ link ∈ updatePeer self peers info,
        link.info.nodeId = nodeId) ↔
        ∃ link ∈ peers, link.info.nodeId = nodeId := by
      have ids : (updatePeer self peers info).map (·.info.nodeId) =
          peers.map (·.info.nodeId) := by
        have firsts := congrArg (List.map Prod.fst) marks
        rwa [List.map_map, List.map_map] at firsts
      rw [← List.mem_map, ← List.mem_map, ids]
    rw [same]
    constructor
    · exact Or.inl
    · rintro (earlier | ⟨rfl, notSelf⟩)
      · exact earlier
      · exact wasKnown.resolve_left notSelf
  · rw [added]
    simp only [List.mem_append, List.mem_singleton]
    constructor
    · rintro ⟨link, inPeers | rfl, rfl⟩
      · exact Or.inl ⟨link, inPeers, rfl⟩
      · exact Or.inr ⟨rfl, notSelf⟩
    · rintro (⟨link, inPeers, rfl⟩ | ⟨rfl, _⟩)
      · exact ⟨link, Or.inl inPeers, rfl⟩
      · exact ⟨_, Or.inr rfl, rfl⟩

theorem isPeer_updatePeers (self : NodeId) (peers : List PeerLink)
    (nodes : List NodeInfo) (nodeId : NodeId) :
    (∃ link ∈ nodes.foldl (updatePeer self) peers,
        link.info.nodeId = nodeId) ↔
      (∃ link ∈ peers, link.info.nodeId = nodeId) ∨
        ((∃ info ∈ nodes, info.nodeId = nodeId) ∧ nodeId ≠ self) := by
  induction nodes generalizing peers with
  | nil =>
      simp
  | cons info rest inductionHypothesis =>
      rw [List.foldl_cons, inductionHypothesis, isPeer_updatePeer]
      simp only [List.mem_cons, exists_eq_or_imp]
      rw [or_assoc, or_and_right]

/-- An attempt leaves the ids alone. -/
theorem isPeer_tryRemoteSteal (thief : Thief) (attempt : Attempt)
    (nodeId : NodeId) :
    (∃ link ∈ (thief.tryRemoteSteal attempt.victim attempt.outcome).1.peers,
        link.info.nodeId = nodeId) ↔
      ∃ link ∈ thief.peers, link.info.nodeId = nodeId := by
  obtain ⟨change, peers, changes⟩ :=
    thief.tryRemoteSteal_peers attempt.victim attempt.outcome
  have ids : (thief.onLink attempt.victim change).peers.map
      (·.info.nodeId) = thief.peers.map (·.info.nodeId) := by
    rw [Thief.onLink, List.map_map]
    apply List.map_congr_left
    intro link _
    rw [Function.comp_apply]
    split
    · exact (changes link).1
    · rfl
  rw [peers, ← List.mem_map, ← List.mem_map, ids]

theorem Thief.tryRemoteSteal_self (thief : Thief) (victim : NodeId)
    (outcome : StealOutcome) :
    (thief.tryRemoteSteal victim outcome).1.self = thief.self := by
  cases outcome with
  | reply resp =>
      simp only [tryRemoteSteal]
      split <;> rfl
  | connectFailed | sendFailed | receiveFailed | undecodable =>
      rfl

/-- The node has been in a list of the coordinator. -/
def EverListed (events : List PeerEvent) (nodeId : NodeId) : Prop :=
  ∃ msg ∈ nodeLists events, ∃ info ∈ msg.nodes, info.nodeId = nodeId

/-- The peers are the other nodes that have ever been listed. -/
theorem isPeer_of_run {self : NodeId} {events : List PeerEvent}
    {thief : Thief} (ran : (stealing self).run { self } events = some thief) :
    thief.self = self ∧ ∀ nodeId,
      (∃ link ∈ thief.peers, link.info.nodeId = nodeId) ↔
        EverListed events nodeId ∧ nodeId ≠ self := by
  refine @Machine.run_invariant _ _ _
    (fun thief events => thief.self = self ∧ ∀ nodeId,
      (∃ link ∈ thief.peers, link.info.nodeId = nodeId) ↔
        EverListed events nodeId ∧ nodeId ≠ self) _ _ _
    ⟨rfl, by simp [EverListed, nodeLists]⟩ ?_ ran
  intro state earlier event following known stepped
  obtain ⟨sameSelf, peers⟩ := known
  cases event with
  | nodeList msg =>
      cases stepped
      refine ⟨sameSelf, ?_⟩
      intro nodeId
      have listed : EverListed (earlier ++ [.nodeList msg]) nodeId ↔
          EverListed earlier nodeId ∨
            ∃ info ∈ msg.nodes, info.nodeId = nodeId := by
        simp [EverListed, nodeLists, PeerEvent.nodeList?, or_and_right,
          exists_or]
      rw [listed, or_and_right, ← peers, ← sameSelf]
      exact isPeer_updatePeers state.self state.peers msg.nodes nodeId
  | attempt made =>
      have listed : ∀ nodeId, EverListed (earlier ++ [.attempt made]) nodeId ↔
          EverListed earlier nodeId := by
        simp [EverListed, nodeLists, PeerEvent.nodeList?]
      simp only [stealing] at stepped
      split at stepped
      · cases stepped
        refine ⟨?_, ?_⟩
        · exact (state.tryRemoteSteal_self _ _).trans sameSelf
        · intro nodeId
          rw [listed, ← peers]
          exact isPeer_tryRemoteSteal state made nodeId
      · cases stepped

end HydraRT.Cluster
