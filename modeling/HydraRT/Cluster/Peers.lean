import HydraRT.Lib.Transition
import HydraRT.Net.Messages

/-!
# The peers of a thief

What a node knows about the others: `update_peers` turns the coordinator's
lists into links, `select_victim` picks one of them by the configured policy,
and `try_remote_steal` records how the attempt went.  A link is only ever
added, and every way out of an attempt has its own set of counters.

Counters of 32 bits wrap.  Those of 64 bits, which one attempt increments by
one, are natural numbers.
-/

namespace HydraRT.Cluster

open HydraRT.Lib
open HydraRT.Net (NodeInfo NodeListMsg StealResponseMsg)

/-- `Node::PeerLink`, without the socket. -/
structure PeerLink where
  info : NodeInfo
  connected : Bool := false
  misses : UInt32 := 0
  deriving DecidableEq, Repr

/-- What a node keeps to steal. -/
structure Thief where
  self : NodeId
  peers : List PeerLink := []
  stealRequests : Nat := 0
  stealMisses : Nat := 0
  consecutiveFailures : UInt32 := 0
  stolenIn : Nat := 0
  deriving DecidableEq, Repr

/-! ## Learning about peers -/

/-- The inner loop of `update_peers`: the first link with the id is refreshed,
if there is one. -/
def refresh? (info : NodeInfo) : List PeerLink → Option (List PeerLink)
  | [] => none
  | link :: rest =>
      if link.info.nodeId = info.nodeId then
        some ({ link with
          info := { link.info with
            pending := info.pending
            label := info.label
            numWorkers := info.numWorkers } } :: rest)
      else (refresh? info rest).map (link :: ·)

/-- One round of the outer loop. -/
def updatePeer (self : NodeId) (peers : List PeerLink) (info : NodeInfo) :
    List PeerLink :=
  if info.nodeId = self then peers
  else
    match refresh? info peers with
    | some refreshed => refreshed
    | none => peers ++ [{ info }]

/-- `Node::update_peers`. -/
def Thief.updatePeers (thief : Thief) (msg : NodeListMsg) : Thief :=
  { thief with peers := msg.nodes.foldl (updatePeer thief.self) thief.peers }

/-! ## Choosing a victim -/

section Score

variable {Score : Type} [LinearOrder Score] [Zero Score]

end Score

/-! ## Attempts -/

/-- The ways out of `try_remote_steal` once it has a victim. -/
inductive StealOutcome where
  | connectFailed
  | sendFailed
  /-- Nothing was received, or not a `StealResponse`. -/
  | receiveFailed
  | undecodable
  | reply (resp : StealResponseMsg)
  deriving DecidableEq, Repr

/-- `try_remote_steal` returns true. -/
def StealOutcome.foundWork : StealOutcome → Bool
  | .reply resp => !resp.tasks.isEmpty
  | _ => false

namespace Thief

/-- Change the link of the victim. -/
def onLink (thief : Thief) (victim : NodeId) (change : PeerLink → PeerLink) :
    Thief :=
  { thief with
    peers := thief.peers.map fun link =>
      if link.info.nodeId = victim then change link else link }

/-- `Node::try_remote_steal` on the selected victim. -/
def tryRemoteSteal (thief : Thief) (victim : NodeId) :
    StealOutcome → Thief × Bool
  | .connectFailed => (thief, false)
  | .sendFailed =>
      (({ thief with stealRequests := thief.stealRequests + 1 } :
        Thief).onLink victim fun link => { link with connected := false },
        false)
  | .receiveFailed =>
      (({ thief with stealRequests := thief.stealRequests + 1 } :
        Thief).onLink victim fun link => { link with connected := false },
        false)
  | .undecodable =>
      (({ thief with
          stealRequests := thief.stealRequests + 1
          stealMisses := thief.stealMisses + 1 } : Thief).onLink victim
        fun link =>
          { link with connected := true, misses := link.misses + 1 },
        false)
  | .reply resp =>
      if resp.tasks.isEmpty then
        (({ thief with
            stealRequests := thief.stealRequests + 1
            stealMisses := thief.stealMisses + 1
            consecutiveFailures := thief.consecutiveFailures + 1 } :
          Thief).onLink victim fun link =>
            { link with
              connected := true
              info := { link.info with pending := resp.victimPending }
              misses := link.misses + 1 },
          false)
      else
        (({ thief with
            stealRequests := thief.stealRequests + 1
            consecutiveFailures := 0
            stolenIn := thief.stolenIn + resp.tasks.length } :
          Thief).onLink victim fun link =>
            { link with
              connected := true
              info := { link.info with pending := resp.victimPending }
              misses := 0 },
          true)

end Thief

/-- An attempt on a peer. -/
structure Attempt where
  victim : NodeId
  outcome : StealOutcome
  deriving DecidableEq, Repr

/-- What happens to a thief. -/
inductive PeerEvent where
  /-- `update_peers` is called with a list of the coordinator. -/
  | nodeList (msg : NodeListMsg)
  | attempt (made : Attempt)
  deriving DecidableEq, Repr

/-- Lists and attempts on known peers in any order. -/
def stealing (self : NodeId) : Machine Thief PeerEvent where
  initial thief := thief = { self }
  step thief
    | .nodeList msg => some (thief.updatePeers msg)
    | .attempt ⟨victim, outcome⟩ =>
        if thief.peers.any (·.info.nodeId == victim) then
          some (thief.tryRemoteSteal victim outcome).1
        else none

def PeerEvent.attempt? : PeerEvent → Option Attempt
  | .attempt made => some made
  | .nodeList _ => none

def PeerEvent.nodeList? : PeerEvent → Option NodeListMsg
  | .attempt _ => none
  | .nodeList msg => some msg

/-- The attempts among the events. -/
def attempts (events : List PeerEvent) : List Attempt :=
  events.filterMap PeerEvent.attempt?

/-- The lists among the events. -/
def nodeLists (events : List PeerEvent) : List NodeListMsg :=
  events.filterMap PeerEvent.nodeList?

/-! ## What the counters should say -/

/-- The attempts since the last one that found work, the last one first. -/
def sinceSuccess (log : List Attempt) : List Attempt :=
  log.reverse.takeWhile (!·.outcome.foundWork)

/-- The attempts on one peer. -/
def attemptsOn (victim : NodeId) (log : List Attempt) : List Attempt :=
  log.filter (·.victim == victim)

/-- The counters describe the attempts. -/
structure Thief.Accounts (thief : Thief) (log : List Attempt) : Prop where
  consecutive : thief.consecutiveFailures.toNat = (sinceSuccess log).length
  misses : ∀ link ∈ thief.peers, link.misses.toNat =
    (sinceSuccess (attemptsOn link.info.nodeId log)).length
  success : thief.stealRequests - thief.stealMisses =
    log.countP (·.outcome.foundWork)

/-- An answer without tasks. -/
def StealOutcome.isEmpty : StealOutcome → Bool
  | .reply resp => resp.tasks.isEmpty
  | _ => false

/-- A failure that the link and `steal_misses_` count. -/
def StealOutcome.isMiss : StealOutcome → Bool
  | .undecodable => true
  | outcome => outcome.isEmpty

/-- The connection broke after the request was counted. -/
def StealOutcome.isBreak : StealOutcome → Bool
  | .sendFailed | .receiveFailed => true
  | _ => false

theorem sinceSuccess_append_success {log : List Attempt} {attempt : Attempt}
    (found : attempt.outcome.foundWork = true) :
    sinceSuccess (log ++ [attempt]) = [] := by
  simp [sinceSuccess, found]

theorem sinceSuccess_append_failure {log : List Attempt} {attempt : Attempt}
    (failed : attempt.outcome.foundWork = false) :
    sinceSuccess (log ++ [attempt]) = attempt :: sinceSuccess log := by
  simp [sinceSuccess, failed]

theorem attemptsOn_append_self (log : List Attempt) (attempt : Attempt) :
    attemptsOn attempt.victim (log ++ [attempt]) =
      attemptsOn attempt.victim log ++ [attempt] := by
  simp [attemptsOn]

theorem attemptsOn_append_other {victim : NodeId} {attempt : Attempt}
    (other : victim ≠ attempt.victim) (log : List Attempt) :
    attemptsOn victim (log ++ [attempt]) = attemptsOn victim log := by
  simp [attemptsOn, other.symm]

/-! ## What the counters say -/

/-- A 32-bit counter of the attempts since the last success that meet
`counted`. -/
def countSince (counted : StealOutcome → Bool) (log : List Attempt) :
    UInt32 :=
  UInt32.ofNat ((sinceSuccess log).countP (counted ·.outcome))

/-- What an attempt does to such a counter. -/
def StealOutcome.tally (counted : StealOutcome → Bool)
    (outcome : StealOutcome) (count : UInt32) : UInt32 :=
  if outcome.foundWork then 0
  else if counted outcome then count + 1
  else count

theorem countSince_append (counted : StealOutcome → Bool)
    (log : List Attempt) (attempt : Attempt) :
    countSince counted (log ++ [attempt]) =
      attempt.outcome.tally counted (countSince counted log) := by
  unfold StealOutcome.tally
  cases found : attempt.outcome.foundWork with
  | true =>
      rw [countSince, sinceSuccess_append_success found]
      rfl
  | false =>
      rw [countSince, sinceSuccess_append_failure found, List.countP_cons]
      by_cases isCounted : counted attempt.outcome = true
      · rw [if_pos isCounted, if_pos isCounted, UInt32.ofNat_add]
        rfl
      · rw [if_neg isCounted, if_neg isCounted]
        rfl

/-- A counter is the number of failures exactly when all of them are counted
and it has not wrapped. -/
theorem toNat_countSince_iff (counted : StealOutcome → Bool)
    (log : List Attempt) :
    (countSince counted log).toNat = (sinceSuccess log).length ↔
      (∀ attempt ∈ sinceSuccess log, counted attempt.outcome = true) ∧
        (sinceSuccess log).length < 2 ^ 32 := by
  have most := List.countP_le_length
    (p := (counted ·.outcome)) (l := sinceSuccess log)
  rw [countSince, UInt32.toNat_ofNat', ← List.countP_eq_length]
  constructor
  · intro same
    have below := Nat.mod_le
      ((sinceSuccess log).countP (counted ·.outcome)) (2 ^ 32)
    have small := Nat.mod_lt
      ((sinceSuccess log).countP (counted ·.outcome))
      (Nat.two_pow_pos 32)
    omega
  · rintro ⟨all, small⟩
    rw [all, Nat.mod_eq_of_lt small]

/-- What the links really hold after the attempts of `log`. -/
structure LinksTally (peers : List PeerLink) (log : List Attempt) : Prop where
  known : ∀ attempt ∈ log,
    ∃ link ∈ peers, link.info.nodeId = attempt.victim
  misses : ∀ link ∈ peers, link.misses =
    countSince StealOutcome.isMiss (attemptsOn link.info.nodeId log)

/-- What all counters really hold. -/
structure Thief.Tallies (thief : Thief) (log : List Attempt) : Prop where
  links : LinksTally thief.peers log
  consecutive : thief.consecutiveFailures =
    countSince StealOutcome.isEmpty log
  requests : thief.stealRequests = thief.stealMisses +
    log.countP (·.outcome.foundWork) + log.countP (·.outcome.isBreak)

/-! ### Lists of the coordinator -/

/-- What a list leaves alone. -/
def PeerLink.mark (link : PeerLink) : NodeId × UInt32 :=
  (link.info.nodeId, link.misses)

theorem refresh?_some {info : NodeInfo} {peers refreshed : List PeerLink}
    (found : refresh? info peers = some refreshed) :
    refreshed.map PeerLink.mark = peers.map PeerLink.mark ∧
      ∃ link ∈ peers, link.info.nodeId = info.nodeId := by
  induction peers generalizing refreshed with
  | nil =>
      cases found
  | cons link rest inductionHypothesis =>
      unfold refresh? at found
      by_cases same : link.info.nodeId = info.nodeId
      · rw [if_pos same] at found
        cases found
        exact ⟨rfl, link, List.mem_cons_self, same⟩
      · rw [if_neg same] at found
        obtain ⟨later, foundLater, rfl⟩ := Option.map_eq_some_iff.mp found
        obtain ⟨marks, known, member, sameId⟩ :=
          inductionHypothesis foundLater
        refine ⟨?_, known, List.mem_cons_of_mem _ member, sameId⟩
        rw [List.map_cons, List.map_cons, marks]

theorem refresh?_none {info : NodeInfo} {peers : List PeerLink}
    (missing : refresh? info peers = none) :
    ∀ link ∈ peers, link.info.nodeId ≠ info.nodeId := by
  induction peers with
  | nil =>
      intro link member
      cases member
  | cons first rest inductionHypothesis =>
      unfold refresh? at missing
      by_cases same : first.info.nodeId = info.nodeId
      · rw [if_pos same] at missing
        cases missing
      · rw [if_neg same] at missing
        have missingLater := Option.map_eq_none_iff.mp missing
        intro link member
        rcases List.mem_cons.mp member with rfl | later
        · exact same
        · exact inductionHypothesis missingLater link later

/-- A list refreshes a link or adds one; it never removes one. -/
theorem updatePeer_cases (self : NodeId) (peers : List PeerLink)
    (info : NodeInfo) :
    ((info.nodeId = self ∨
        ∃ link ∈ peers, link.info.nodeId = info.nodeId) ∧
      (updatePeer self peers info).map PeerLink.mark =
        peers.map PeerLink.mark) ∨
    (info.nodeId ≠ self ∧
      (∀ link ∈ peers, link.info.nodeId ≠ info.nodeId) ∧
      updatePeer self peers info = peers ++ [{ info := info }]) := by
  unfold updatePeer
  by_cases own : info.nodeId = self
  · rw [if_pos own]
    exact Or.inl ⟨Or.inl own, rfl⟩
  · rw [if_neg own]
    cases found : refresh? info peers with
    | some refreshed =>
        obtain ⟨marks, known⟩ := refresh?_some found
        exact Or.inl ⟨Or.inr known, marks⟩
    | none =>
        exact Or.inr ⟨own, refresh?_none found, rfl⟩

/-- Links that agree on ids and misses keep the same tallies. -/
theorem LinksTally.of_marks {peers others : List PeerLink}
    {log : List Attempt} (tally : LinksTally peers log)
    (marks : others.map PeerLink.mark = peers.map PeerLink.mark) :
    LinksTally others log where
  known := by
    intro attempt member
    obtain ⟨link, inPeers, same⟩ := tally.known attempt member
    have marked : link.mark ∈ others.map PeerLink.mark := by
      rw [marks]
      exact List.mem_map_of_mem inPeers
    obtain ⟨other, inOthers, sameMark⟩ := List.mem_map.mp marked
    obtain ⟨sameId, _⟩ := Prod.mk.inj sameMark
    exact ⟨other, inOthers, sameId.trans same⟩
  misses := by
    intro other inOthers
    have marked : other.mark ∈ peers.map PeerLink.mark := by
      rw [← marks]
      exact List.mem_map_of_mem inOthers
    obtain ⟨link, inPeers, sameMark⟩ := List.mem_map.mp marked
    obtain ⟨sameId, sameMisses⟩ := Prod.mk.inj sameMark
    rw [← sameMisses, ← sameId]
    exact tally.misses link inPeers

/-- Nobody has tried a peer without a link. -/
theorem LinksTally.attemptsOn_of_unknown {peers : List PeerLink}
    {log : List Attempt} (tally : LinksTally peers log) {victim : NodeId}
    (unknown : ∀ link ∈ peers, link.info.nodeId ≠ victim) :
    attemptsOn victim log = [] := by
  rw [attemptsOn, List.filter_eq_nil_iff]
  intro attempt inLog isVictim
  obtain ⟨link, inPeers, same⟩ := tally.known attempt inLog
  exact unknown link inPeers (same.trans (by simpa using isVictim))

theorem LinksTally.updatePeer {peers : List PeerLink} {log : List Attempt}
    (tally : LinksTally peers log) (self : NodeId) (info : NodeInfo) :
    LinksTally (updatePeer self peers info) log := by
  rcases updatePeer_cases self peers info with
    ⟨_, marks⟩ | ⟨_, unknown, added⟩
  · exact tally.of_marks marks
  · rw [added]
    refine ⟨?_, ?_⟩
    · intro attempt member
      obtain ⟨link, inPeers, same⟩ := tally.known attempt member
      exact ⟨link, List.mem_append_left _ inPeers, same⟩
    · intro link member
      rcases List.mem_append.mp member with inPeers | isNew
      · exact tally.misses link inPeers
      · obtain rfl := List.mem_singleton.mp isNew
        change 0 = countSince StealOutcome.isMiss (attemptsOn info.nodeId log)
        rw [tally.attemptsOn_of_unknown unknown]
        rfl

theorem LinksTally.updatePeers {peers : List PeerLink} {log : List Attempt}
    (tally : LinksTally peers log) (self : NodeId) (nodes : List NodeInfo) :
    LinksTally (nodes.foldl (Cluster.updatePeer self) peers) log := by
  induction nodes generalizing peers with
  | nil =>
      exact tally
  | cons info rest inductionHypothesis =>
      exact inductionHypothesis (tally.updatePeer self info)

/-! ### Attempts -/

/-- An attempt touches the link of its victim only, and counts on it the
failures it calls misses. -/
theorem Thief.tryRemoteSteal_peers (thief : Thief) (victim : NodeId)
    (outcome : StealOutcome) :
    ∃ change : PeerLink → PeerLink,
      (thief.tryRemoteSteal victim outcome).1.peers =
        (thief.onLink victim change).peers ∧
      ∀ link, (change link).info.nodeId = link.info.nodeId ∧
        (change link).misses =
          outcome.tally StealOutcome.isMiss link.misses := by
  cases outcome with
  | connectFailed =>
      refine ⟨id, ?_, fun link => ⟨rfl, rfl⟩⟩
      simp [tryRemoteSteal, onLink]
  | sendFailed | receiveFailed | undecodable =>
      exact ⟨_, rfl, fun link => ⟨rfl, rfl⟩⟩
  | reply resp =>
      simp only [tryRemoteSteal, StealOutcome.tally]
      by_cases empty : resp.tasks.isEmpty = true
      · rw [if_pos empty]
        refine ⟨_, rfl, fun link => ⟨rfl, ?_⟩⟩
        simp [StealOutcome.foundWork, StealOutcome.isMiss,
          StealOutcome.isEmpty, empty]
      · rw [if_neg empty]
        refine ⟨_, rfl, fun link => ⟨rfl, ?_⟩⟩
        simp [StealOutcome.foundWork, empty]

/-- Only an empty answer counts for the backoff. -/
theorem Thief.tryRemoteSteal_consecutive (thief : Thief) (victim : NodeId)
    (outcome : StealOutcome) :
    (thief.tryRemoteSteal victim outcome).1.consecutiveFailures =
      outcome.tally StealOutcome.isEmpty thief.consecutiveFailures := by
  cases outcome with
  | connectFailed | sendFailed | receiveFailed | undecodable =>
      rfl
  | reply resp =>
      unfold tryRemoteSteal StealOutcome.tally
      by_cases empty : resp.tasks.isEmpty = true
      · simp [StealOutcome.foundWork, StealOutcome.isEmpty, empty, onLink]
      · simp [StealOutcome.foundWork, empty, onLink]

/-- A request that is neither a miss nor a success was lost with its
connection. -/
theorem Thief.tryRemoteSteal_requests (thief : Thief) (victim : NodeId)
    (outcome : StealOutcome) (found broken : Nat)
    (balanced : thief.stealRequests = thief.stealMisses + found + broken) :
    (thief.tryRemoteSteal victim outcome).1.stealRequests =
      (thief.tryRemoteSteal victim outcome).1.stealMisses +
        (found + if outcome.foundWork then 1 else 0) +
        (broken + if outcome.isBreak then 1 else 0) := by
  cases outcome with
  | connectFailed =>
      exact balanced
  | sendFailed | receiveFailed | undecodable =>
      simp [tryRemoteSteal, onLink, StealOutcome.foundWork,
        StealOutcome.isBreak]
      omega
  | reply resp =>
      unfold tryRemoteSteal
      by_cases empty : resp.tasks.isEmpty = true
      · simp [StealOutcome.foundWork, StealOutcome.isBreak, empty, onLink]
        omega
      · simp [StealOutcome.foundWork, StealOutcome.isBreak, empty, onLink]
        omega

theorem LinksTally.onLink {thief : Thief} {log : List Attempt}
    (tally : LinksTally thief.peers log) (attempt : Attempt)
    {change : PeerLink → PeerLink}
    (changes : ∀ link, (change link).info.nodeId = link.info.nodeId ∧
      (change link).misses =
        attempt.outcome.tally StealOutcome.isMiss link.misses)
    (isKnown : ∃ link ∈ thief.peers, link.info.nodeId = attempt.victim) :
    LinksTally (thief.onLink attempt.victim change).peers
      (log ++ [attempt]) := by
  have sameId : ∀ link : PeerLink,
      (if link.info.nodeId = attempt.victim then change link
        else link).info.nodeId = link.info.nodeId := by
    intro link
    split
    · exact (changes link).1
    · rfl
  refine ⟨?_, ?_⟩
  · intro earlier member
    have before : ∃ link ∈ thief.peers,
        link.info.nodeId = earlier.victim := by
      rcases List.mem_append.mp member with inLog | isNew
      · exact tally.known earlier inLog
      · rw [List.mem_singleton.mp isNew]
        exact isKnown
    obtain ⟨link, inPeers, same⟩ := before
    exact ⟨_, List.mem_map_of_mem inPeers, (sameId link).trans same⟩
  · intro changed member
    obtain ⟨link, inPeers, rfl⟩ := List.mem_map.mp member
    rw [sameId link]
    by_cases isVictim : link.info.nodeId = attempt.victim
    · rw [if_pos isVictim, (changes link).2, tally.misses link inPeers,
        isVictim, attemptsOn_append_self, countSince_append]
    · rw [if_neg isVictim, attemptsOn_append_other isVictim]
      exact tally.misses link inPeers

theorem Thief.Tallies.attempt {thief : Thief} {log : List Attempt}
    (tallies : thief.Tallies log) (attempt : Attempt)
    (isKnown : ∃ link ∈ thief.peers, link.info.nodeId = attempt.victim) :
    (thief.tryRemoteSteal attempt.victim attempt.outcome).1.Tallies
      (log ++ [attempt]) where
  links := by
    obtain ⟨change, peers, changes⟩ :=
      thief.tryRemoteSteal_peers attempt.victim attempt.outcome
    rw [peers]
    exact tallies.links.onLink attempt changes isKnown
  consecutive := by
    rw [tryRemoteSteal_consecutive, tallies.consecutive, countSince_append]
  requests := by
    rw [tryRemoteSteal_requests thief _ _ _ _ tallies.requests,
      List.countP_append, List.countP_append, List.countP_singleton,
      List.countP_singleton]

theorem Thief.Tallies.of_run {self : NodeId} {events : List PeerEvent}
    {thief : Thief} (ran : (stealing self).run { self } events = some thief) :
    thief.Tallies (attempts events) := by
  have start : Thief.Tallies { self } (attempts []) :=
    ⟨⟨by simp [attempts], by simp⟩, rfl, rfl⟩
  refine @Machine.run_invariant _ _ _
    (fun thief events => thief.Tallies (attempts events)) _ _ _ start ?_ ran
  intro state earlier event following tallies stepped
  cases event with
  | nodeList msg =>
      cases stepped
      have same : attempts (earlier ++ [.nodeList msg]) =
          attempts earlier := by
        simp [attempts, PeerEvent.attempt?]
      rw [same]
      exact ⟨tallies.links.updatePeers state.self msg.nodes,
        tallies.consecutive, tallies.requests⟩
  | attempt made =>
      have more : attempts (earlier ++ [.attempt made]) =
          attempts earlier ++ [made] := by
        simp [attempts, PeerEvent.attempt?]
      simp only [stealing] at stepped
      split at stepped
      · rename_i isKnown
        cases stepped
        rw [more]
        apply tallies.attempt made
        simpa using isKnown
      · cases stepped

/-! ## When the counters are right -/

/-- Every failure that still matters was counted where it should be. -/
structure AllCounted (log : List Attempt) : Prop where
  /-- No connection broke. -/
  unbroken : ∀ attempt ∈ log, attempt.outcome.isBreak = false
  /-- All failures since the last success were empty answers. -/
  empty : ∀ attempt ∈ sinceSuccess log, attempt.outcome.isEmpty = true
  few : (sinceSuccess log).length < 2 ^ 32
  /-- Every failure on a peer since its last success was an answer. -/
  answered : ∀ victim, ∀ attempt ∈ sinceSuccess (attemptsOn victim log),
    attempt.outcome.isMiss = true
  fewOnEach : ∀ victim,
    (sinceSuccess (attemptsOn victim log)).length < 2 ^ 32

theorem Thief.Tallies.success_iff {thief : Thief} {log : List Attempt}
    (tallies : thief.Tallies log) :
    thief.stealRequests - thief.stealMisses =
        log.countP (·.outcome.foundWork) ↔
      ∀ attempt ∈ log, attempt.outcome.isBreak = false := by
  have unbroken : log.countP (·.outcome.isBreak) = 0 ↔
      ∀ attempt ∈ log, attempt.outcome.isBreak = false := by
    rw [List.countP_eq_zero]
    simp
  rw [← unbroken, tallies.requests]
  omega

theorem LinksTally.misses_iff {peers : List PeerLink} {log : List Attempt}
    (tally : LinksTally peers log) {link : PeerLink} (member : link ∈ peers) :
    link.misses.toNat =
        (sinceSuccess (attemptsOn link.info.nodeId log)).length ↔
      (∀ attempt ∈ sinceSuccess (attemptsOn link.info.nodeId log),
        attempt.outcome.isMiss = true) ∧
      (sinceSuccess (attemptsOn link.info.nodeId log)).length < 2 ^ 32 := by
  rw [tally.misses link member]
  exact toNat_countSince_iff StealOutcome.isMiss _

/-- The counters of a thief describe its attempts exactly when no connection
broke, the failures since the last success were empty answers, those on each
peer since its last success were answers, and none of the 32-bit counters
wrapped. -/
theorem thief_accounts_iff {self : NodeId} {events : List PeerEvent}
    {thief : Thief} (ran : (stealing self).run { self } events = some thief) :
    thief.Accounts (attempts events) ↔ AllCounted (attempts events) := by
  have tallies := Thief.Tallies.of_run ran
  constructor
  · intro accounts
    obtain ⟨empty, few⟩ := (toNat_countSince_iff _ _).mp
      (tallies.consecutive ▸ accounts.consecutive)
    have each : ∀ victim,
        (∀ attempt ∈ sinceSuccess (attemptsOn victim (attempts events)),
          attempt.outcome.isMiss = true) ∧
        (sinceSuccess (attemptsOn victim (attempts events))).length <
          2 ^ 32 := by
      intro victim
      by_cases isKnown : ∃ link ∈ thief.peers, link.info.nodeId = victim
      · obtain ⟨link, member, rfl⟩ := isKnown
        exact (tallies.links.misses_iff member).mp
          (accounts.misses link member)
      · rw [tallies.links.attemptsOn_of_unknown (by simpa using isKnown)]
        simp [sinceSuccess]
    exact ⟨tallies.success_iff.mp accounts.success, empty, few,
      fun victim => (each victim).1, fun victim => (each victim).2⟩
  · intro counted
    refine ⟨?_, ?_, tallies.success_iff.mpr counted.unbroken⟩
    · rw [tallies.consecutive]
      exact (toNat_countSince_iff _ _).mpr ⟨counted.empty, counted.few⟩
    · intro link member
      exact (tallies.links.misses_iff member).mpr
        ⟨counted.answered _, counted.fewOnEach _⟩

/-- A peer that has nothing, another that gives two tasks, and the first one
again. -/
def answeredEvents : List PeerEvent :=
  [.nodeList ⟨[{ nodeId := 2 }, { nodeId := 3 }]⟩,
    .attempt ⟨2, .reply { }⟩,
    .attempt ⟨3, .reply { tasks := [{ taskId := 1 }, { taskId := 2 }] }⟩,
    .attempt ⟨2, .reply { }⟩]

def answeredThief : Thief where
  self := 1
  peers := [{ info := { nodeId := 2 }, connected := true, misses := 2 },
    { info := { nodeId := 3 }, connected := true }]
  stealRequests := 3
  stealMisses := 2
  consecutiveFailures := 1
  stolenIn := 2

theorem thief_accounts_answered :
    (stealing 1).run { self := 1 } answeredEvents = some answeredThief ∧
      answeredThief.Accounts (attempts answeredEvents) ∧
        AllCounted (attempts answeredEvents) := by
  have ran : (stealing 1).run { self := 1 } answeredEvents =
      some answeredThief := by
    decide +kernel
  have accounts : answeredThief.Accounts (attempts answeredEvents) :=
    ⟨by decide +kernel, by decide +kernel, by decide +kernel⟩
  exact ⟨ran, accounts, (thief_accounts_iff ran).mp accounts⟩

/-- A peer that refuses the connection, and then breaks it. -/
def brokenEvents : List PeerEvent :=
  [.nodeList ⟨[{ nodeId := 2 }]⟩, .attempt ⟨2, .connectFailed⟩,
    .attempt ⟨2, .sendFailed⟩]

def brokenThief : Thief where
  self := 1
  peers := [{ info := { nodeId := 2 } }]
  stealRequests := 1

/-- Neither failure shows in any counter, and the second one looks like a
success. -/
theorem thief_accounts_broken :
    (stealing 1).run { self := 1 } brokenEvents = some brokenThief ∧
      (sinceSuccess (attempts brokenEvents)).length = 2 ∧
      (sinceSuccess (attemptsOn 2 (attempts brokenEvents))).length = 2 ∧
      (attempts brokenEvents).countP (·.outcome.foundWork) = 0 ∧
      ¬ brokenThief.Accounts (attempts brokenEvents) := by
  refine ⟨by decide +kernel, by decide +kernel, by decide +kernel,
    by decide +kernel, ?_⟩
  intro accounts
  have wrong := accounts.success
  revert wrong
  decide +kernel

end HydraRT.Cluster
