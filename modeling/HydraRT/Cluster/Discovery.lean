import HydraRT.Lib.Weight
import HydraRT.Cluster.Membership
import HydraRT.Cluster.PeerTable

/-!
# How nodes find each other

Every node has one connection to the coordinator.  It registers, waits for its
id, and from then on sends a heartbeat, waits for a list, and sleeps.  A node
that waits too long goes on without the answer, which stays on the connection
and is taken for the answer to the next heartbeat.

Connections deliver whole messages in order until they are lost, and a node
never opens a second one.  A receive timeout falls between two frames here;
`recv_all` drops the beginning of a frame that it interrupts, and then the
connection is out of step.  `serve_connection` reads the list in a critical
section of its own, so other connections are served between a heartbeat and
its answer.
-/

namespace HydraRT.Cluster.Discovery

open HydraRT.Lib
open HydraRT.Net (NodeInfo RegisterMsg HeartbeatMsg NodeListMsg)

inductive Request where
  | register (msg : RegisterMsg)
  | heartbeat (msg : HeartbeatMsg)
  deriving DecidableEq, Repr

inductive Reply where
  | registerAck (nodeId : NodeId)
  | nodeList (msg : NodeListMsg)
  deriving DecidableEq, Repr

/-- Where `Coordinator::serve_connection` stands. -/
inductive Serving where
  | receives
  | acknowledges (nodeId : NodeId)
  /-- After `touch_node` and before `current_nodes`. -/
  | lists
  deriving DecidableEq, Repr

/-- Where `Node::start` or `Node::coordinator_loop` stands. -/
inductive Phase where
  | off
  | registering
  | failed
  | sleeping
  | waiting
  deriving DecidableEq, Repr

/-- What `current_nodes` reads: the messages handled so far, and the time. -/
structure Snapshot where
  log : List Handled
  now : Int
  deriving DecidableEq, Repr

def Snapshot.list (snapshot : Snapshot) : NodeListMsg :=
  (Coordinator.after snapshot.log).currentNodes snapshot.now

/-- A node with its connection, and what has happened to both. -/
structure Session where
  /-- What the node registers with. -/
  advertised : RegisterMsg
  phase : Phase := .off
  thief : Thief := { self := 0 }
  requests : List Request := []
  serving : Serving := .receives
  replies : List Reply := []
  lost : Bool := false
  /-- How many nodes had registered before this one. -/
  registration : Option Nat := none
  events : List PeerEvent := []
  beats : Nat := 0
  missed : Nat := 0
  snapshots : List Snapshot := []

structure State where
  coordinator : Coordinator := { }
  now : Int := 0
  log : List Handled := []
  sessions : List Session

inductive Move where
  /-- `register_with_coordinator` up to its `recv_msg`. -/
  | start (connects : Bool)
  /-- A heartbeat, or a `send_msg` that fails. -/
  | beat (pending completed : UInt64) (sent : Bool)
  | receive
  | timeOut
  | attempt (made : Attempt)
  /-- The connection breaks, and the rest of what is on it is lost. -/
  | lose (requests replies : Nat)
  /-- The coordinator's thread goes on, at the given time. -/
  | serve (now : Int)
  deriving DecidableEq, Repr

structure Action where
  number : Nat
  move : Move
  deriving DecidableEq, Repr

namespace Session

def send (session : Session) (request : Request) : Session :=
  if session.lost then session
  else { session with requests := session.requests ++ [request] }

def reply (session : Session) (reply : Reply) : Session :=
  if session.lost then session
  else { session with replies := session.replies ++ [reply] }

/-- `recv_msg` at the node returns a message. -/
def receive (session : Session) : Option Session :=
  match session.phase, session.replies with
  | .registering, .registerAck nodeId :: rest =>
      some { session with
        phase := .sleeping
        thief := { self := nodeId }
        replies := rest }
  | .registering, .nodeList _ :: rest =>
      some { session with phase := .failed, replies := rest }
  | .waiting, .nodeList msg :: rest =>
      some { session with
        phase := .sleeping
        thief := session.thief.updatePeers msg
        events := session.events ++ [.nodeList msg]
        replies := rest }
  | .waiting, .registerAck _ :: rest =>
      some { session with
        phase := .sleeping
        missed := session.missed + 1
        replies := rest }
  | _, _ => none

/-- A step of the node or of the network. -/
def step (session : Session) : Move → Option Session
  | .start connects =>
      match session.phase with
      | .off =>
          if connects then
            some ({ session with phase := .registering }.send
              (.register session.advertised))
          else some { session with phase := .failed }
      | _ => none
  | .beat pending completed sent =>
      match session.phase with
      | .sleeping =>
          if sent then
            some ({ session with
              phase := .waiting
              beats := session.beats + 1 }.send
                (.heartbeat ⟨session.thief.self, pending, completed⟩))
          else if session.lost then some session
          else none
      | _ => none
  | .receive => session.receive
  | .timeOut =>
      match session.phase with
      | .registering => some { session with phase := .failed }
      | .waiting =>
          some { session with
            phase := .sleeping
            missed := session.missed + 1 }
      | _ => none
  | .attempt made =>
      match session.phase with
      | .sleeping | .waiting =>
          ((stealing session.thief.self).step session.thief
            (.attempt made)).map fun thief =>
              { session with
                thief
                events := session.events ++ [.attempt made] }
      | _ => none
  | .lose requests replies =>
      some { session with
        lost := true
        requests := session.requests.take requests
        replies := session.replies.take replies }
  | .serve _ => none

end Session

namespace State

/-- A round of `serve_connection` in three steps at most: a message is read and
handled, the list is read, the answer is sent. -/
def serve (state : State) (number : Nat) (session : Session) (now : Int) :
    Option State :=
  match session.serving, session.requests with
  | .receives, .register msg :: rest =>
      let (coordinator, nodeId) := state.coordinator.registerNode msg now
      some {
        coordinator, now
        log := state.log ++ [.register msg now]
        sessions := state.sessions.set number { session with
          requests := rest
          serving := .acknowledges nodeId
          registration := some (registrations state.log).length } }
  | .receives, .heartbeat msg :: rest =>
      some {
        coordinator := state.coordinator.touchNode msg.nodeId msg.pending
          msg.completed now
        now
        log := state.log ++ [.heartbeat msg now]
        sessions := state.sessions.set number { session with
          requests := rest
          serving := .lists } }
  | .receives, [] => none
  | .acknowledges nodeId, _ =>
      some { state with
        now
        sessions := state.sessions.set number
          (({ session with serving := .receives } : Session).reply
            (.registerAck nodeId)) }
  | .lists, _ =>
      some { state with
        now
        sessions := state.sessions.set number
          (({ session with
            serving := .receives
            snapshots := session.snapshots ++ [⟨state.log, now⟩] } :
              Session).reply
                (.nodeList (state.coordinator.currentNodes now))) }

/-- The clock does not go back. -/
def step (state : State) (action : Action) : Option State :=
  match state.sessions[action.number]? with
  | none => none
  | some session =>
      match action.move with
      | .serve now =>
          if state.now ≤ now then state.serve action.number session now
          else none
      | move =>
          (session.step move).map fun next =>
            { state with sessions := state.sessions.set action.number next }

end State

/-- A coordinator and one node for each configuration. -/
def discovery (configs : List RegisterMsg) : Machine State Action where
  initial state :=
    state = { sessions := configs.map fun advertised => { advertised } }
  step := State.step

/-! ## One connection -/

/-- The id of the registration with the given index. -/
def idOf (index : Nat) : NodeId :=
  UInt32.ofNat (index + 1)

def Reply.nodeList? : Reply → Option NodeListMsg
  | .registerAck _ => none
  | .nodeList msg => some msg

namespace Session

/-- The lists that are on the way to the node. -/
def listsSent (session : Session) : List NodeListMsg :=
  session.replies.filterMap Reply.nodeList?

/-- Heartbeats that the coordinator has still to answer. -/
def unanswered (session : Session) : Nat :=
  session.requests.length +
    if session.serving = .lists then 1 else 0

/-- The node has its id. -/
def Joined (session : Session) : Prop :=
  session.phase = .sleeping ∨ session.phase = .waiting

/-- Before the node has its id, at most the registration and its answer are on
the connection. -/
structure Greets (session : Session) : Prop where
  events : session.events = []
  beats : session.beats = 0
  missed : session.missed = 0
  snapshots : session.snapshots = []
  stage :
    (session.registration = none ∧ session.serving = .receives ∧
      session.replies = [] ∧
      session.requests <+: [.register session.advertised]) ∨
    ∃ index, session.registration = some index ∧ session.requests = [] ∧
      (session.serving = .acknowledges (idOf index) ∧ session.replies = [] ∨
        session.serving = .receives ∧
          session.replies <+: [.registerAck (idOf index)])

/-- Once it has its id, heartbeats and lists are. -/
structure Beats (session : Session) : Prop where
  joined : session.Joined
  own : ∃ index, session.registration = some index ∧
    session.thief.self = idOf index
  requests : ∀ request ∈ session.requests, ∃ msg, request = .heartbeat msg
  serving : session.serving = .receives ∨ session.serving = .lists
  replies : ∀ reply ∈ session.replies, ∃ msg, reply = .nodeList msg
  ran : (stealing session.thief.self).run { self := session.thief.self }
    session.events = some session.thief
  /-- Lists arrive in the order in which they were read. -/
  answers : nodeLists session.events ++ session.listsSent <+:
    session.snapshots.map Snapshot.list
  sent : session.beats = (nodeLists session.events).length +
    session.missed + if session.phase = .waiting then 1 else 0
  handled : session.snapshots.length + session.unanswered ≤ session.beats
  /-- Nothing has been lost. -/
  complete : session.lost = false →
    nodeLists session.events ++ session.listsSent =
        session.snapshots.map Snapshot.list ∧
      session.snapshots.length + session.unanswered = session.beats

/-- What a connection looks like in each phase of its node. -/
def Proper (session : Session) : Prop :=
  match session.phase with
  | .off => session.Greets ∧ session.requests = [] ∧
      session.registration = none
  | .registering | .failed => session.Greets
  | .sleeping | .waiting => session.Beats

section Steps

variable {session next : Session}

theorem proper_of_greets (greets : session.Greets)
    (phase : session.phase = .registering ∨ session.phase = .failed) :
    session.Proper := by
  unfold Proper
  rcases phase with same | same <;> rw [same] <;> exact greets

theorem Beats.proper (beats : session.Beats) : session.Proper := by
  unfold Proper
  rcases beats.joined with same | same <;> rw [same] <;> exact beats

theorem Proper.beats (proper : session.Proper) (joined : session.Joined) :
    session.Beats := by
  unfold Proper at proper
  rcases joined with same | same <;> rw [same] at proper <;> exact proper

theorem proper_start (proper : session.Proper) {connects : Bool}
    (stepped : session.step (.start connects) = some next) :
    next.Proper := by
  simp only [step] at stepped
  split at stepped
  · rename_i off
    simp only [Proper, off] at proper
    obtain ⟨greets, noRequests, unregistered⟩ := proper
    have stage := greets.stage
    rw [unregistered, noRequests] at stage
    obtain ⟨-, serving, replies, -⟩ :
        _ ∧ session.serving = .receives ∧ session.replies = [] ∧ _ := by
      rcases stage with first | ⟨_, impossible, _⟩
      · exact first
      · cases impossible
    split at stepped
    · cases stepped
      unfold send
      refine proper_of_greets ?_ ?_
      · split
        · exact ⟨greets.events, greets.beats, greets.missed,
            greets.snapshots, .inl ⟨unregistered, serving, replies, by
              rw [noRequests]
              exact List.nil_prefix⟩⟩
        · exact ⟨greets.events, greets.beats, greets.missed,
            greets.snapshots, .inl ⟨unregistered, serving, replies, by
              rw [noRequests]
              exact List.prefix_rfl⟩⟩
      · split <;> exact .inl rfl
    · cases stepped
      exact proper_of_greets ⟨greets.events, greets.beats, greets.missed,
        greets.snapshots, greets.stage⟩ (.inr rfl)
  · cases stepped

theorem proper_beat (proper : session.Proper) {pending completed : UInt64}
    {sent : Bool}
    (stepped : session.step (.beat pending completed sent) = some next) :
    next.Proper := by
  simp only [step] at stepped
  split at stepped
  · rename_i sleeping
    have beats := proper.beats (.inl sleeping)
    have counted := beats.sent
    rw [if_neg (by rw [sleeping]; decide)] at counted
    have handled := beats.handled
    split at stepped
    · cases stepped
      refine Beats.proper ?_
      unfold send
      split
      · rename_i isLost
        refine ⟨.inr rfl, beats.own, beats.requests, beats.serving,
          beats.replies, beats.ran, beats.answers, ?_, ?_, ?_⟩
        · simp only [if_true]
          omega
        · exact Nat.le_succ_of_le handled
        · intro notLost
          exact absurd (isLost.symm.trans notLost) (by decide)
      · rename_i isLost
        have notLost : session.lost = false := Bool.eq_false_iff.mpr isLost
        obtain ⟨lists, answered⟩ := beats.complete notLost
        have more : unanswered { session with
            phase := .waiting
            beats := session.beats + 1
            requests := session.requests ++ [.heartbeat
              ⟨session.thief.self, pending, completed⟩] } =
            session.unanswered + 1 := by
          simp only [unanswered, List.length_append, List.length_singleton]
          omega
        refine ⟨.inr rfl, beats.own, ?_, beats.serving, beats.replies,
          beats.ran, beats.answers, ?_, ?_, fun _ => ⟨lists, ?_⟩⟩
        · intro request member
          rcases List.mem_append.mp member with old | new
          · exact beats.requests request old
          · exact ⟨_, List.mem_singleton.mp new⟩
        · simp only [if_true]
          omega
        · rw [more]
          exact Nat.succ_le_succ handled
        · rw [more, ← Nat.add_assoc, answered]
    · split at stepped
      · cases stepped
        exact proper
      · cases stepped
  · cases stepped

/-- The id arrives. -/
theorem beats_of_greets (greets : session.Greets) {nodeId : NodeId}
    {rest : List Reply}
    (arrived : session.replies = .registerAck nodeId :: rest) :
    Beats { session with
      phase := .sleeping
      thief := { self := nodeId }
      replies := rest } := by
  obtain ⟨noEvents, noBeats, noMisses, noSnapshots, stage⟩ := greets
  rw [arrived] at stage
  rcases stage with ⟨_, _, impossible, _⟩ |
    ⟨index, registration, noRequests,
      ⟨_, impossible⟩ | ⟨serving, arrives⟩⟩
  · cases impossible
  · cases impossible
  · obtain ⟨same, noRest⟩ := List.cons_prefix_cons.mp arrives
    cases same
    obtain rfl := List.prefix_nil.mp noRest
    refine ⟨.inl rfl, ⟨index, registration, rfl⟩, ?_, .inl serving, ?_, ?_,
      ?_, ?_, ?_, ?_⟩
    · rw [noRequests]
      exact fun _ member => by cases member
    · exact fun _ member => by cases member
    · rw [noEvents]
      rfl
    · rw [noEvents]
      exact List.nil_prefix
    · simp [noBeats, noEvents, noMisses, nodeLists]
    · simp [unanswered, noSnapshots, noRequests, serving]
    · intro _
      refine ⟨?_, ?_⟩
      · rw [noEvents, noSnapshots]
        rfl
      · simp [unanswered, noSnapshots, noRequests, serving, noBeats]

/-- A list arrives, and the first one that is on the way is the one. -/
theorem Beats.receive (beats : session.Beats)
    (waiting : session.phase = .waiting) {msg : NodeListMsg}
    {rest : List Reply} (arrived : session.replies = .nodeList msg :: rest) :
    Beats { session with
      phase := .sleeping
      thief := session.thief.updatePeers msg
      events := session.events ++ [.nodeList msg]
      replies := rest } := by
  have counted := beats.sent
  rw [if_pos waiting] at counted
  have moved : nodeLists (session.events ++ [.nodeList msg]) ++
      rest.filterMap Reply.nodeList? =
        nodeLists session.events ++ session.listsSent := by
    simp [nodeLists, listsSent, arrived, Reply.nodeList?,
      PeerEvent.nodeList?]
  have longer : (nodeLists (session.events ++ [.nodeList msg])).length =
      (nodeLists session.events).length + 1 := by
    simp [nodeLists, PeerEvent.nodeList?]
  have ran : (stealing session.thief.self).run { self := session.thief.self }
      (session.events ++ [.nodeList msg]) =
        some (session.thief.updatePeers msg) := by
    rw [Machine.run_append_singleton, beats.ran]
    rfl
  refine ⟨.inl rfl, beats.own, beats.requests, beats.serving, ?_, ?_, ?_, ?_,
    beats.handled, ?_⟩
  · intro reply member
    exact beats.replies reply (arrived ▸ List.mem_cons_of_mem _ member)
  · exact ran
  · unfold listsSent
    dsimp only
    rw [moved]
    exact beats.answers
  · dsimp only
    rw [if_neg (by decide)]
    omega
  · intro notLost
    obtain ⟨lists, answered⟩ := beats.complete notLost
    refine ⟨?_, answered⟩
    unfold listsSent
    dsimp only
    rw [moved]
    exact lists

theorem proper_receive (proper : session.Proper)
    (stepped : session.step .receive = some next) : next.Proper := by
  simp only [step, receive] at stepped
  split at stepped
  · rename_i registering arrived
    cases stepped
    simp only [Proper, registering] at proper
    exact (beats_of_greets proper arrived).proper
  · rename_i registering arrived
    simp only [Proper, registering] at proper
    exfalso
    have stage := proper.stage
    rw [arrived] at stage
    rcases stage with ⟨_, _, impossible, _⟩ |
      ⟨_, _, _, ⟨_, impossible⟩ | ⟨_, impossible⟩⟩
    · cases impossible
    · cases impossible
    · cases (List.cons_prefix_cons.mp impossible).1
  · rename_i waiting arrived
    cases stepped
    exact ((proper.beats (.inr waiting)).receive waiting arrived).proper
  · rename_i waiting arrived
    obtain ⟨msg, impossible⟩ := (proper.beats (.inr waiting)).replies _
      (arrived ▸ List.mem_cons_self)
    cases impossible
  · cases stepped

theorem proper_timeOut (proper : session.Proper)
    (stepped : session.step .timeOut = some next) : next.Proper := by
  simp only [step] at stepped
  split at stepped
  · rename_i registering
    cases stepped
    simp only [Proper, registering] at proper
    exact proper_of_greets ⟨proper.events, proper.beats, proper.missed,
      proper.snapshots, proper.stage⟩ (.inr rfl)
  · rename_i waiting
    cases stepped
    have beats := proper.beats (.inr waiting)
    have counted := beats.sent
    rw [if_pos waiting] at counted
    refine Beats.proper ⟨.inl rfl, beats.own, beats.requests, beats.serving,
      beats.replies, beats.ran, beats.answers, ?_, beats.handled,
      beats.complete⟩
    dsimp only
    rw [if_neg (by decide)]
    omega
  · cases stepped

/-- A steal attempt leaves the connection alone. -/
theorem Beats.attempt (beats : session.Beats) {made : Attempt} {thief : Thief}
    (attempted : (stealing session.thief.self).step session.thief
      (.attempt made) = some thief) :
    Beats { session with
      thief
      events := session.events ++ [.attempt made] } := by
  have sameSelf : thief.self = session.thief.self := by
    simp only [stealing] at attempted
    split at attempted
    · cases attempted
      exact Thief.tryRemoteSteal_self _ _ _
    · cases attempted
  have sameLists : nodeLists (session.events ++ [.attempt made]) =
      nodeLists session.events := by
    simp [nodeLists, PeerEvent.nodeList?]
  obtain ⟨index, registration, own⟩ := beats.own
  refine ⟨beats.joined, ⟨index, registration, sameSelf.trans own⟩,
    beats.requests, beats.serving, beats.replies, ?_, ?_, ?_, beats.handled,
    ?_⟩
  · dsimp only
    rw [sameSelf, Machine.run_append_singleton, beats.ran]
    exact attempted
  · dsimp only
    rw [sameLists]
    exact beats.answers
  · dsimp only
    rw [sameLists]
    exact beats.sent
  · dsimp only
    rw [sameLists]
    exact beats.complete

theorem proper_attempt (proper : session.Proper) {made : Attempt}
    (stepped : session.step (.attempt made) = some next) : next.Proper := by
  simp only [step] at stepped
  split at stepped
  · rename_i sleeping
    obtain ⟨thief, attempted, rfl⟩ := Option.map_eq_some_iff.mp stepped
    exact ((proper.beats (.inl sleeping)).attempt attempted).proper
  · rename_i waiting
    obtain ⟨thief, attempted, rfl⟩ := Option.map_eq_some_iff.mp stepped
    exact ((proper.beats (.inr waiting)).attempt attempted).proper
  · cases stepped

theorem Greets.lose (greets : session.Greets) (requests replies : Nat) :
    Greets { session with
      lost := true
      requests := session.requests.take requests
      replies := session.replies.take replies } := by
  refine ⟨greets.events, greets.beats, greets.missed, greets.snapshots, ?_⟩
  rcases greets.stage with ⟨unregistered, serving, noReplies, greeting⟩ |
    ⟨index, registration, noRequests, answer⟩
  · refine .inl ⟨unregistered, serving, ?_, ?_⟩
    · dsimp only
      rw [noReplies, List.take_nil]
    · exact (List.take_prefix _ _).trans greeting
  · refine .inr ⟨index, registration, ?_, ?_⟩
    · dsimp only
      rw [noRequests, List.take_nil]
    · rcases answer with ⟨serving, noReplies⟩ | ⟨serving, answer⟩
      · refine .inl ⟨serving, ?_⟩
        dsimp only
        rw [noReplies, List.take_nil]
      · exact .inr ⟨serving, (List.take_prefix _ _).trans answer⟩

theorem Beats.lose (beats : session.Beats) (requests replies : Nat) :
    Beats { session with
      lost := true
      requests := session.requests.take requests
      replies := session.replies.take replies } := by
  refine ⟨beats.joined, beats.own, ?_, beats.serving, ?_, beats.ran, ?_,
    beats.sent, ?_, ?_⟩
  · intro request member
    exact beats.requests request (List.mem_of_mem_take member)
  · intro reply member
    exact beats.replies reply (List.mem_of_mem_take member)
  · refine List.IsPrefix.trans ?_ beats.answers
    exact (List.prefix_append_right_inj _).mpr
      ((List.take_prefix _ _).filterMap _)
  · refine le_trans ?_ beats.handled
    have fewer := List.length_take_le requests session.requests
    simp only [unanswered]
    have shorter := List.length_take_le' requests session.requests
    omega
  · intro impossible
    cases impossible

theorem proper_lose (proper : session.Proper) {requests replies : Nat}
    (stepped : session.step (.lose requests replies) = some next) :
    next.Proper := by
  cases stepped
  unfold Proper at proper ⊢
  dsimp only
  split at proper
  · obtain ⟨greets, noRequests, unregistered⟩ := proper
    refine ⟨greets.lose requests replies, ?_, unregistered⟩
    rw [noRequests, List.take_nil]
  · exact proper.lose requests replies
  · exact proper.lose requests replies
  · exact proper.lose requests replies
  · exact proper.lose requests replies

/-- Every step of a node and of the network. -/
theorem proper_step (proper : session.Proper) {move : Move}
    (stepped : session.step move = some next) : next.Proper := by
  cases move with
  | start connects => exact proper_start proper stepped
  | beat pending completed sent => exact proper_beat proper stepped
  | receive => exact proper_receive proper stepped
  | timeOut => exact proper_timeOut proper stepped
  | attempt made => exact proper_attempt proper stepped
  | lose requests replies => exact proper_lose proper stepped
  | serve now => cases stepped

/-- What only the coordinator's thread changes. -/
theorem step_keeps {move : Move} (stepped : session.step move = some next) :
    next.advertised = session.advertised ∧
      next.registration = session.registration ∧
      next.snapshots = session.snapshots := by
  cases move with
  | start connects =>
      simp only [step, send] at stepped
      split at stepped
      · split at stepped
        · cases stepped
          split <;> exact ⟨rfl, rfl, rfl⟩
        · cases stepped
          exact ⟨rfl, rfl, rfl⟩
      · cases stepped
  | beat pending completed sent =>
      simp only [step, send] at stepped
      split at stepped
      · split at stepped
        · cases stepped
          split <;> exact ⟨rfl, rfl, rfl⟩
        · split at stepped
          · cases stepped
            exact ⟨rfl, rfl, rfl⟩
          · cases stepped
      · cases stepped
  | receive =>
      simp only [step, receive] at stepped
      split at stepped <;> cases stepped <;> exact ⟨rfl, rfl, rfl⟩
  | timeOut =>
      simp only [step] at stepped
      split at stepped <;> cases stepped <;> exact ⟨rfl, rfl, rfl⟩
  | attempt made =>
      simp only [step] at stepped
      split at stepped
      · obtain ⟨thief, _, rfl⟩ := Option.map_eq_some_iff.mp stepped
        exact ⟨rfl, rfl, rfl⟩
      · obtain ⟨thief, _, rfl⟩ := Option.map_eq_some_iff.mp stepped
        exact ⟨rfl, rfl, rfl⟩
      · cases stepped
  | lose requests replies =>
      cases stepped
      exact ⟨rfl, rfl, rfl⟩
  | serve now => cases stepped

/-- While anything but heartbeats is handled, the node has no id. -/
theorem Proper.greets (proper : session.Proper)
    (notBeats : ¬ session.Beats) :
    session.Greets ∧ (session.requests = [] ∨ session.phase = .registering ∨
      session.phase = .failed) := by
  unfold Proper at proper
  split at proper
  · exact ⟨proper.1, .inl proper.2.1⟩
  · rename_i phase
    exact ⟨proper, .inr (.inl phase)⟩
  · rename_i phase
    exact ⟨proper, .inr (.inr phase)⟩
  · exact absurd proper notBeats
  · exact absurd proper notBeats

/-- The coordinator handles the registration. -/
theorem proper_registered (proper : session.Proper) {msg : RegisterMsg}
    {rest : List Request}
    (arrived : session.requests = .register msg :: rest) (index : Nat) :
    msg = session.advertised ∧ session.registration = none ∧
      Proper { session with
        requests := rest
        serving := .acknowledges (idOf index)
        registration := some index } := by
  have notBeats : ¬ session.Beats := by
    intro beats
    obtain ⟨msg, impossible⟩ := beats.requests _
      (arrived ▸ List.mem_cons_self)
    cases impossible
  obtain ⟨greets, phase⟩ := proper.greets notBeats
  have phase := phase.resolve_left (by rw [arrived]; exact List.cons_ne_nil _ _)
  rcases greets.stage with ⟨unregistered, _, noReplies, greeting⟩ |
    ⟨_, _, impossible, _⟩
  · rw [arrived] at greeting
    obtain ⟨same, noRest⟩ := List.cons_prefix_cons.mp greeting
    cases same
    obtain rfl := List.prefix_nil.mp noRest
    exact ⟨rfl, unregistered, proper_of_greets ⟨greets.events, greets.beats,
      greets.missed, greets.snapshots,
      .inr ⟨index, rfl, rfl, .inl ⟨rfl, noReplies⟩⟩⟩ phase⟩
  · rw [arrived] at impossible
    cases impossible

/-- The coordinator handles a heartbeat. -/
theorem proper_touched (proper : session.Proper) {msg : HeartbeatMsg}
    {rest : List Request} (receives : session.serving = .receives)
    (arrived : session.requests = .heartbeat msg :: rest) :
    Proper { session with requests := rest, serving := .lists } := by
  by_cases beats : session.Beats
  · have same : unanswered { session with
        requests := rest
        serving := .lists } = session.unanswered := by
      simp [unanswered, arrived, receives]
    refine Beats.proper ⟨beats.joined, beats.own, ?_, .inr rfl,
      beats.replies, beats.ran, beats.answers, beats.sent, ?_, ?_⟩
    · intro request member
      exact beats.requests request
        (arrived ▸ List.mem_cons_of_mem _ member)
    · rw [same]
      exact beats.handled
    · rw [same]
      exact beats.complete
  · exfalso
    rcases (proper.greets beats).1.stage with ⟨_, _, _, greeting⟩ |
      ⟨_, _, impossible, _⟩
    · rw [arrived] at greeting
      cases (List.cons_prefix_cons.mp greeting).1
    · rw [arrived] at impossible
      cases impossible

/-- The id is sent. -/
theorem proper_acknowledged (proper : session.Proper) {nodeId : NodeId}
    (acknowledges : session.serving = .acknowledges nodeId) :
    (({ session with serving := .receives } : Session).reply
      (.registerAck nodeId)).Proper := by
  have notBeats : ¬ session.Beats := by
    intro beats
    rcases beats.serving with impossible | impossible <;>
      cases acknowledges.symm.trans impossible
  obtain ⟨greets, phase⟩ := proper.greets notBeats
  rcases greets.stage with ⟨_, impossible, _, _⟩ |
    ⟨index, registration, noRequests,
      ⟨serving, noReplies⟩ | ⟨impossible, _⟩⟩
  · cases acknowledges.symm.trans impossible
  · cases acknowledges.symm.trans serving
    have later : Greets
        (({ session with serving := .receives } : Session).reply
          (.registerAck (idOf index))) := by
      unfold reply
      split
      · exact ⟨greets.events, greets.beats, greets.missed, greets.snapshots,
          .inr ⟨index, registration, noRequests, .inr ⟨rfl, by
            rw [noReplies]
            exact List.nil_prefix⟩⟩⟩
      · exact ⟨greets.events, greets.beats, greets.missed, greets.snapshots,
          .inr ⟨index, registration, noRequests, .inr ⟨rfl, by
            rw [noReplies]
            exact List.prefix_rfl⟩⟩⟩
    have samePhase : (({ session with serving := .receives } :
        Session).reply (.registerAck (idOf index))).phase =
          session.phase := by
      unfold reply
      split <;> rfl
    unfold Proper at proper ⊢
    rw [samePhase]
    split at proper
    · rw [proper.2.2] at registration
      cases registration
    · exact later
    · exact later
    · exact absurd proper notBeats
    · exact absurd proper notBeats
  · cases acknowledges.symm.trans impossible

/-- A list is read and sent. -/
theorem proper_listed (proper : session.Proper)
    (lists : session.serving = .lists) (snapshot : Snapshot) :
    (({ session with
      serving := .receives
      snapshots := session.snapshots ++ [snapshot] } : Session).reply
        (.nodeList snapshot.list)).Proper := by
  have beats : session.Beats := by
    by_contra notBeats
    rcases (proper.greets notBeats).1.stage with ⟨_, impossible, _⟩ |
      ⟨_, _, _, ⟨impossible, _⟩ | ⟨impossible, _⟩⟩ <;>
        cases lists.symm.trans impossible
  have fewer : session.unanswered = session.requests.length + 1 := by
    simp [unanswered, lists]
  have handled := beats.handled
  unfold reply
  split
  · rename_i isLost
    refine Beats.proper ⟨beats.joined, beats.own, beats.requests, .inl rfl,
      beats.replies, beats.ran, ?_, beats.sent, ?_, ?_⟩
    · rw [List.map_append]
      exact beats.answers.trans (List.prefix_append _ _)
    · simp only [unanswered, List.length_append, List.length_singleton,
        reduceCtorEq, if_false]
      omega
    · intro notLost
      exact absurd (isLost.symm.trans notLost) (by decide)
  · rename_i isLost
    obtain ⟨same, answered⟩ :=
      beats.complete (Bool.eq_false_iff.mpr isLost)
    have more : nodeLists session.events ++
        (session.replies ++ [Reply.nodeList snapshot.list]).filterMap
          Reply.nodeList? =
        (session.snapshots ++ [snapshot]).map Snapshot.list := by
      rw [List.map_append, ← same, List.filterMap_append, listsSent,
        List.append_assoc]
      rfl
    refine Beats.proper ⟨beats.joined, beats.own, beats.requests, .inl rfl,
      ?_, beats.ran, ?_, beats.sent, ?_, fun _ => ⟨more, ?_⟩⟩
    · intro reply member
      rcases List.mem_append.mp member with old | new
      · exact beats.replies reply old
      · exact ⟨_, List.mem_singleton.mp new⟩
    · exact more ▸ List.prefix_rfl
    · simp only [unanswered, List.length_append, List.length_singleton,
        reduceCtorEq, if_false]
      omega
    · simp only [unanswered, List.length_append, List.length_singleton,
        reduceCtorEq, if_false]
      omega

end Steps

end Session

/-! ## All connections -/

namespace State

/-- Every registration is that of one node. -/
structure Consistent (configs : List RegisterMsg) (state : State) : Prop where
  coordinator : state.coordinator = Coordinator.after state.log
  advertised : state.sessions.map Session.advertised = configs
  proper : ∀ session ∈ state.sessions, session.Proper
  registered : ∀ session ∈ state.sessions, ∀ index,
    session.registration = some index →
      (registrations state.log)[index]? = some session.advertised
  snapshots : ∀ session ∈ state.sessions, ∀ snapshot ∈ session.snapshots,
    snapshot.log <+: state.log
  owned : ∀ index < (registrations state.log).length,
    ∃ session ∈ state.sessions, session.registration = some index
  distinct : ∀ (first second : Nat) (session other : Session) (index : Nat),
    state.sessions[first]? = some session →
      state.sessions[second]? = some other →
        session.registration = some index →
          other.registration = some index → first = second

section Steps

variable {configs : List RegisterMsg} {state : State} {number : Nat}
  {session next : Session}

theorem prefix_registrations {earlier later : List Handled}
    (isPrefix : earlier <+: later) :
    registrations earlier <+: registrations later :=
  isPrefix.filterMap _

theorem getElem?_of_prefix {Item : Type} {earlier later : List Item}
    (isPrefix : earlier <+: later) {index : Nat} {item : Item}
    (present : earlier[index]? = some item) : later[index]? = some item := by
  obtain ⟨rest, rfl⟩ := isPrefix
  rw [List.getElem?_append_left (List.getElem?_eq_some_iff.mp present).1]
  exact present

/-- One session changes, and registers at most. -/
theorem Consistent.install (consistent : state.Consistent configs)
    (present : state.sessions[number]? = some session)
    {coordinator : Coordinator} {log : List Handled} (now : Int)
    (isAfter : coordinator = Coordinator.after log)
    (longer : state.log <+: log) (proper : next.Proper)
    (advertised : next.advertised = session.advertised)
    (snapshots : ∀ snapshot ∈ next.snapshots, snapshot.log <+: log)
    (registers :
      next.registration = session.registration ∧
          registrations log = registrations state.log ∨
        session.registration = none ∧
          next.registration = some (registrations state.log).length ∧
          registrations log =
            registrations state.log ++ [session.advertised]) :
    Consistent configs {
      coordinator, now, log
      sessions := state.sessions.set number next } := by
  have member := List.mem_of_getElem? present
  have isNext : next ∈ state.sessions.set number next :=
    List.mem_set (List.getElem?_eq_some_iff.mp present).1 next
  have small : ∀ other ∈ state.sessions, ∀ index,
      other.registration = some index →
        index < (registrations state.log).length := by
    intro other isOther index registration
    exact (List.getElem?_eq_some_iff.mp
      (consistent.registered other isOther index registration)).1
  refine ⟨isAfter, ?_, ?_, ?_, ?_, ?_, ?_⟩
  · rw [← consistent.advertised]
    apply List.ext_getElem?
    intro index
    rw [List.getElem?_map, List.getElem?_map, List.getElem?_set]
    split
    · rename_i same
      subst same
      rw [present, if_pos (List.getElem?_eq_some_iff.mp present).1]
      exact congrArg some advertised
    · rfl
  · intro other isOther
    rcases List.mem_or_eq_of_mem_set isOther with old | rfl
    · exact consistent.proper other old
    · exact proper
  · intro other isOther index registration
    rcases List.mem_or_eq_of_mem_set isOther with old | rfl
    · exact getElem?_of_prefix (prefix_registrations longer)
        (consistent.registered other old index registration)
    · rw [advertised]
      rcases registers with ⟨same, _⟩ | ⟨_, fresh, more⟩
      · exact getElem?_of_prefix (prefix_registrations longer)
          (consistent.registered session member index
            (same ▸ registration))
      · rw [fresh] at registration
        cases registration
        rw [more]
        exact List.getElem?_concat_length
  · intro other isOther snapshot taken
    rcases List.mem_or_eq_of_mem_set isOther with old | rfl
    · exact (consistent.snapshots other old snapshot taken).trans longer
    · exact snapshots snapshot taken
  · intro index inside
    have kept : (∃ other ∈ state.sessions, other.registration = some index) →
        (session.registration = some index →
          next.registration = some index) →
        ∃ other ∈ state.sessions.set number next,
          other.registration = some index := by
      rintro ⟨other, isOther, registration⟩ ofSession
      rcases mem_or_mem_set present next isOther with rfl | stays
      · exact ⟨next, isNext, ofSession registration⟩
      · exact ⟨other, stays, registration⟩
    rcases registers with ⟨same, sameLog⟩ | ⟨unregistered, fresh, more⟩
    · exact kept (consistent.owned index (sameLog ▸ inside))
        (fun registration => same.trans registration)
    · dsimp only at inside
      rw [more, List.length_append, List.length_singleton] at inside
      rcases Nat.lt_succ_iff_lt_or_eq.mp inside with old | rfl
      · refine kept (consistent.owned index old) fun registration => ?_
        rw [unregistered] at registration
        cases registration
      · exact ⟨next, isNext, fresh⟩
  · -- only the new index could clash, and nobody has it
    intro first second one other index isFirst isSecond ofFirst ofSecond
    have holder : ∀ place found,
        (state.sessions.set number next)[place]? = some found →
          found.registration = some index →
            place = number ∧ next.registration = some index ∨
              state.sessions[place]? = some found := by
      intro place found atPlace registration
      rw [List.getElem?_set] at atPlace
      split at atPlace
      · rename_i same
        split at atPlace
        · cases atPlace
          exact .inl ⟨same.symm, registration⟩
        · cases atPlace
      · exact .inr atPlace
    have clash : ∀ place found, next.registration = some index →
        state.sessions[place]? = some found →
          found.registration = some index → place = number := by
      intro place found ofNext atPlace registration
      rcases registers with ⟨same, _⟩ | ⟨_, fresh, _⟩
      · exact consistent.distinct place number found session index atPlace
          present registration (same ▸ ofNext)
      · rw [fresh] at ofNext
        cases ofNext
        exact absurd (small found (List.mem_of_getElem? atPlace) _
          registration) (lt_irrefl _)
    rcases holder first one isFirst ofFirst with ⟨rfl, ofNext⟩ | oldFirst
    · rcases holder second other isSecond ofSecond with
        ⟨rfl, _⟩ | oldSecond
      · rfl
      · exact (clash second other ofNext oldSecond ofSecond).symm
    · rcases holder second other isSecond ofSecond with
        ⟨rfl, ofNext⟩ | oldSecond
      · exact clash first one ofNext oldFirst ofFirst
      · exact consistent.distinct first second one other index oldFirst
          oldSecond ofFirst ofSecond

theorem Consistent.serve (consistent : state.Consistent configs)
    (present : state.sessions[number]? = some session) {now : Int}
    {following : State}
    (served : state.serve number session now = some following) :
    following.Consistent configs := by
  have member := List.mem_of_getElem? present
  have proper := consistent.proper session member
  have earlier := consistent.snapshots session member
  have reflects := Coordinator.after_reflects state.log
  unfold State.serve at served
  split at served
  · rename_i msg rest receives arrived
    cases served
    have own : state.coordinator.nextNodeId =
        idOf (registrations state.log).length := by
      rw [consistent.coordinator]
      exact reflects.nextNodeId
    obtain ⟨rfl, unregistered, later⟩ := Session.proper_registered proper
      arrived (registrations state.log).length
    rw [← own] at later
    refine consistent.install present now ?_ (List.prefix_append _ _) later
      rfl (fun snapshot taken =>
        (earlier snapshot taken).trans (List.prefix_append _ _))
      (.inr ⟨unregistered, rfl, registrations_append_register _ _ _⟩)
    rw [after_append, ← consistent.coordinator]
    rfl
  · rename_i msg rest receives arrived
    cases served
    refine consistent.install present now ?_ (List.prefix_append _ _)
      (Session.proper_touched proper receives arrived) rfl
      (fun snapshot taken =>
        (earlier snapshot taken).trans (List.prefix_append _ _))
      (.inl ⟨rfl, registrations_append_heartbeat _ _ _⟩)
    rw [after_append, ← consistent.coordinator]
    rfl
  · cases served
  · rename_i nodeId acknowledges
    cases served
    have later := Session.proper_acknowledged proper acknowledges
    refine consistent.install present now consistent.coordinator
      List.prefix_rfl later ?_ ?_ ?_
    all_goals
      unfold Session.reply
      split
    · rfl
    · rfl
    · exact earlier
    · exact earlier
    · exact .inl ⟨rfl, rfl⟩
    · exact .inl ⟨rfl, rfl⟩
  · rename_i lists
    cases served
    have later := Session.proper_listed proper lists ⟨state.log, now⟩
    have taken : ∀ snapshot ∈ session.snapshots ++ [⟨state.log, now⟩],
        snapshot.log <+: state.log := by
      intro snapshot isTaken
      rcases List.mem_append.mp isTaken with old | new
      · exact earlier snapshot old
      · rw [List.mem_singleton.mp new]
    rw [Snapshot.list, ← consistent.coordinator] at later
    refine consistent.install present now consistent.coordinator
      List.prefix_rfl later ?_ ?_ ?_
    all_goals
      unfold Session.reply
      split
    · rfl
    · rfl
    · exact taken
    · exact taken
    · exact .inl ⟨rfl, rfl⟩
    · exact .inl ⟨rfl, rfl⟩

theorem Consistent.step (consistent : state.Consistent configs)
    {action : Action} {following : State}
    (stepped : state.step action = some following) :
    following.Consistent configs := by
  unfold State.step at stepped
  split at stepped
  · cases stepped
  · rename_i session present
    split at stepped
    · split at stepped
      · exact consistent.serve present stepped
      · cases stepped
    · obtain ⟨next, moved, rfl⟩ := Option.map_eq_some_iff.mp stepped
      have member := List.mem_of_getElem? present
      obtain ⟨advertised, registration, snapshots⟩ :=
        Session.step_keeps moved
      exact consistent.install present state.now consistent.coordinator
        List.prefix_rfl
        (Session.proper_step (consistent.proper session member) moved)
        advertised (snapshots ▸ consistent.snapshots session member)
        (.inl ⟨registration, rfl⟩)

theorem consistent_start (configs : List RegisterMsg) :
    Consistent configs
      { sessions := configs.map fun advertised => { advertised } } where
  coordinator := rfl
  advertised := by
    rw [List.map_map]
    exact List.map_id configs
  proper := by
    intro session member
    obtain ⟨advertised, _, rfl⟩ := List.mem_map.mp member
    exact ⟨⟨rfl, rfl, rfl, rfl, .inl ⟨rfl, rfl, rfl, List.nil_prefix⟩⟩, rfl,
      rfl⟩
  registered := by
    intro session member index registration
    obtain ⟨advertised, _, rfl⟩ := List.mem_map.mp member
    cases registration
  snapshots := by
    intro session member snapshot taken
    obtain ⟨advertised, _, rfl⟩ := List.mem_map.mp member
    cases taken
  owned := by
    intro index impossible
    cases impossible
  distinct := by
    intro first second session other index isFirst _ registration
    obtain ⟨advertised, _, rfl⟩ :=
      List.mem_map.mp (List.mem_of_getElem? isFirst)
    cases registration

theorem consistent_of_reachable
    (reached : (discovery configs).Reachable state) :
    state.Consistent configs := by
  refine Machine.Reachable.invariant ?_ ?_ reached
  · rintro _ rfl
    exact consistent_start configs
  · intro source action following consistent stepped
    exact consistent.step stepped

end Steps

end State

end HydraRT.Cluster.Discovery
