import HydraRT.Net.Messages
import HydraRT.Net.Socket

/-!
# The serving loops

The loops of `Node::serve_peer` and `Coordinator::serve_connection` on one
connection, while `running_` stays true.  They leave when `recv_msg` fails on a
socket that is no longer valid, and validity is whether `fd_` holds a
descriptor.  Only `close` takes the descriptor away, and no path of `recv_all`
calls it.
-/

namespace HydraRT.Net

/-- A connected `TcpSocket`: its descriptor, if it has one, and what its peer
still does. -/
structure TcpSocket where
  fd : Option Nat
  wire : Wire
  deriving DecidableEq, Repr

namespace TcpSocket

def valid (sock : TcpSocket) : Bool :=
  sock.fd.isSome

/-- `TcpSocket::recv_msg`.  Without a descriptor the first `recv_all` fails at
once. -/
def recvMsg (sock : TcpSocket) : Outcome Message × TcpSocket :=
  match sock.fd with
  | none => (.failed, sock)
  | some _ =>
      let (outcome, rest) := Net.recvMsg sock.wire
      (outcome, { sock with wire := rest })

end TcpSocket

/-- Where a loop stands after a round. -/
inductive Round (Service : Type) where
  | inside (sock : TcpSocket) (service : Service)
  | left (service : Service)
  /-- `recv` waits for bytes that never come. -/
  | blocked

variable {Service : Type}

/-- One round of either loop; `serve` is the switch on the message. -/
def serveRound (serve : Message → Service → Service)
    (sock : TcpSocket) (service : Service) : Round Service :=
  match sock.recvMsg with
  | (.failed, sock) =>
      if !sock.valid then .left service else .inside sock service
  | (.blocked, _) => .blocked
  | (.returned message, sock) => .inside sock (serve message service)

/-- The loop after at most the given number of rounds. -/
def serveLoop (serve : Message → Service → Service) :
    (rounds : Nat) → TcpSocket → Service → Round Service
  | 0, sock, service => .inside sock service
  | rounds + 1, sock, service =>
      match serveRound serve sock service with
      | .inside sock service => serveLoop serve rounds sock service
      | other => other

/-- The loop ends by itself. -/
def Leaves (serve : Message → Service → Service) (sock : TcpSocket)
    (service : Service) : Prop :=
  ∃ rounds result, serveLoop serve rounds sock service = .left result

/-- The loop is still inside after every number of rounds. -/
def Spins (serve : Message → Service → Service) (sock : TcpSocket)
    (service : Service) : Prop :=
  ∀ rounds, ∃ later reached,
    serveLoop serve rounds sock service = .inside later reached

/-- The switch of `Node::serve_peer`, with its two cases as given. -/
def servePeer (steal : StealRequestMsg → Service → Service)
    (result : TaskResultMsg → Service → Service) (message : Message)
    (service : Service) : Service :=
  if message.type = .stealRequest then
    match StealRequestMsg.decode message.payload { } with
    | (true, request) => steal request service
    | (false, _) => service
  else if message.type = .taskResult then
    match TaskResultMsg.decode message.payload { } with
    | (true, res) => result res service
    | (false, _) => service
  else service

/-- The switch of `Coordinator::serve_connection`. -/
def serveConnection (register : RegisterMsg → Service → Service)
    (heartbeat : HeartbeatMsg → Service → Service) (message : Message)
    (service : Service) : Service :=
  if message.type = .register then
    match RegisterMsg.decode message.payload { } with
    | (true, msg) => register msg service
    | (false, _) => service
  else if message.type = .heartbeat then
    match HeartbeatMsg.decode message.payload { } with
    | (true, msg) => heartbeat msg service
    | (false, _) => service
  else service

/-! ## Receiving after the close -/

/-- The peer has closed, perhaps after some more bytes. -/
def Wire.Ends (wire : Wire) : Prop :=
  Delivery.closed ∈ wire

/-- A receive that meets the close neither waits nor forgets it. -/
def KeepsEnd {Value : Type} (result : Outcome Value × Wire) : Prop :=
  result.1 ≠ .blocked ∧ result.2.Ends

theorem Wire.Ends.tail {delivery : Delivery} {rest : Wire}
    (ends : Wire.Ends (delivery :: rest)) (different : delivery ≠ .closed) :
    rest.Ends := by
  rcases List.mem_cons.mp ends with same | later
  · exact absurd same.symm different
  · exact later

theorem recvAll_keepsEnd (count : Nat) (got : Bytes) {wire : Wire}
    (ends : wire.Ends) : KeepsEnd (recvAll count got wire) := by
  induction wire generalizing got with
  | nil =>
      cases ends
  | cons delivery rest inductionHypothesis =>
      unfold recvAll
      by_cases unfinished : got.length < count
      · rw [if_pos unfinished]
        cases delivery with
        | data first more =>
            have later : Wire.Ends rest := ends.tail (by simp)
            dsimp only
            split
            · exact inductionHypothesis _ later
            · exact ⟨by simp, List.mem_cons_of_mem _ later⟩
        | interrupted =>
            exact inductionHypothesis got (ends.tail (by simp))
        | timedOut =>
            exact ⟨by simp, ends.tail (by simp)⟩
        | closed =>
            exact ⟨by simp, List.mem_cons_self⟩
      · rw [if_neg unfinished]
        exact ⟨by simp, ends⟩

theorem recvMsg_keepsEnd {wire : Wire} (ends : wire.Ends) :
    KeepsEnd (recvMsg wire) := by
  have header := recvAll_keepsEnd kHeaderSize [] ends
  unfold recvMsg
  generalize recvAll kHeaderSize [] wire = result at header ⊢
  obtain ⟨outcome, afterHeader⟩ := result
  cases outcome with
  | blocked =>
      exact absurd rfl header.1
  | failed =>
      exact ⟨by simp, header.2⟩
  | returned bytes =>
      dsimp only
      split
      · exact ⟨by simp, header.2⟩
      · rename_i type length _
        by_cases positive : length > 0
        · rw [if_pos positive]
          have payload := recvAll_keepsEnd length [] header.2
          generalize recvAll length [] afterHeader = result at payload ⊢
          obtain ⟨outcome, rest⟩ := result
          cases outcome with
          | blocked =>
              exact absurd rfl payload.1
          | failed =>
              exact ⟨by simp, payload.2⟩
          | returned bytes =>
              exact ⟨by simp, payload.2⟩
        · rw [if_neg positive]
          exact ⟨by simp, header.2⟩

/-! ## The loops go on -/

/-- A socket that is valid although its peer is gone. -/
structure Deserted (sock : TcpSocket) : Prop where
  valid : sock.valid = true
  ends : sock.wire.Ends

theorem deserted_append (fd : Nat) (stream : Wire) :
    Deserted ⟨some fd, stream ++ [.closed]⟩ where
  valid := rfl
  ends := List.mem_append_right stream List.mem_cons_self

/-- No round of a loop closes the socket. -/
theorem serveRound_deserted (serve : Message → Service → Service)
    {sock : TcpSocket} (deserted : Deserted sock) (service : Service) :
    ∃ later result, serveRound serve sock service = .inside later result ∧
      Deserted later := by
  obtain ⟨fd, wire⟩ := sock
  cases fd with
  | none =>
      exact absurd deserted.valid (by simp [TcpSocket.valid])
  | some fd =>
      have received := recvMsg_keepsEnd deserted.ends
      unfold serveRound TcpSocket.recvMsg
      dsimp only at received ⊢
      generalize recvMsg wire = result at received ⊢
      obtain ⟨outcome, rest⟩ := result
      cases outcome with
      | blocked =>
          exact absurd rfl received.1
      | failed =>
          exact ⟨_, _, rfl, rfl, received.2⟩
      | returned message =>
          exact ⟨_, _, rfl, rfl, received.2⟩

theorem spins_of_deserted (serve : Message → Service → Service)
    {sock : TcpSocket} (deserted : Deserted sock) (service : Service) :
    Spins serve sock service := by
  intro rounds
  induction rounds generalizing sock service with
  | zero =>
      exact ⟨sock, service, rfl⟩
  | succ rounds inductionHypothesis =>
      obtain ⟨later, result, stayed, still⟩ :=
        serveRound_deserted serve deserted service
      rw [serveLoop, stayed]
      exact inductionHypothesis still result

theorem Spins.not_leaves {serve : Message → Service → Service}
    {sock : TcpSocket} {service : Service}
    (spins : Spins serve sock service) : ¬ Leaves serve sock service := by
  rintro ⟨rounds, result, left⟩
  obtain ⟨later, kept, stayed⟩ := spins rounds
  rw [stayed] at left
  cases left

/-- Whatever arrives before the peer closes, and whatever the messages lead to,
neither loop ever ends.  It does not wait either: it is inside after every
number of rounds. -/
theorem serveLoops_never_leave
    (steal : StealRequestMsg → Service → Service)
    (result : TaskResultMsg → Service → Service)
    (register : RegisterMsg → Service → Service)
    (heartbeat : HeartbeatMsg → Service → Service)
    (fd : Nat) (stream : Wire) (service : Service) :
    (¬ Leaves (servePeer steal result)
        ⟨some fd, stream ++ [.closed]⟩ service ∧
      Spins (servePeer steal result)
        ⟨some fd, stream ++ [.closed]⟩ service) ∧
    (¬ Leaves (serveConnection register heartbeat)
        ⟨some fd, stream ++ [.closed]⟩ service ∧
      Spins (serveConnection register heartbeat)
        ⟨some fd, stream ++ [.closed]⟩ service) := by
  have deserted := deserted_append fd stream
  have peerSpins := spins_of_deserted (servePeer steal result)
    deserted service
  have connectionSpins := spins_of_deserted
    (serveConnection register heartbeat) deserted service
  exact ⟨⟨peerSpins.not_leaves, peerSpins⟩,
    connectionSpins.not_leaves, connectionSpins⟩

/-- A peer that connects and closes without a word. -/
theorem serveLoops_silentPeer :
    let sock : TcpSocket := ⟨some 7, [.closed]⟩
    ¬ Leaves (servePeer (fun _ served => served + 1)
        (fun _ served => served + 1)) sock 0 ∧
      ¬ Leaves (serveConnection (fun _ served => served + 1)
        (fun _ served => served + 1)) sock 0 :=
  ⟨(spins_of_deserted _ (deserted_append 7 []) 0).not_leaves,
    (spins_of_deserted _ (deserted_append 7 []) 0).not_leaves⟩

end HydraRT.Net
