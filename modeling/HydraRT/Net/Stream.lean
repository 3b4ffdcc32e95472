import HydraRT.Net.Socket

/-!
# Messages over a byte stream

`TcpSocket::send_all` and `TcpSocket::send_msg`, and a whole exchange: one end
sends a list of messages, the other receives them.

What the `send` calls will do is a list of results, in the order in which the
calls meet them, like the deliveries at the receiving end.  The two lists cut
the stream independently of each other.
-/

namespace HydraRT.Net

open HydraRT.Lib

/-- What a `send` call does. -/
inductive SendResult where
  /-- Up to `more + 1` bytes are taken, at most what the call was given. -/
  | transferred (more : Nat)
  /-- `send` returns -1 with `EINTR`. -/
  | interrupted
  /-- `send` returns 0 or -1 with another error. -/
  | failed
  deriving DecidableEq, Repr

/-- The loop of `TcpSocket::send_all` with `data` still to send: how it ends,
what it put on the stream and the results it left. -/
def sendAll (data : Bytes) :
    List SendResult → Outcome Unit × Bytes × List SendResult
  | [] => (if data.isEmpty then .returned () else .blocked, [], [])
  | result :: rest =>
      if data.isEmpty then (.returned (), [], result :: rest)
      else
        match result with
        | .transferred more =>
            let (outcome, sent, left) := sendAll (data.drop (more + 1)) rest
            (outcome, data.take (more + 1) ++ sent, left)
        | .interrupted => sendAll data rest
        | .failed => (.failed, [], rest)

/-- `TcpSocket::send_msg`. -/
def sendMsg (message : Message) (results : List SendResult) :
    Outcome Unit × Bytes × List SendResult :=
  sendAll message.frame results

/-- One `send_msg` call for each message: what the calls that return
return, what they put on the stream and the results they left. -/
def sendEach : List Message → List SendResult →
    List Bool × Bytes × List SendResult
  | [], results => ([], [], results)
  | message :: later, results =>
      match sendMsg message results with
      | (.returned _, sent, left) =>
          let (returned, more, rest) := sendEach later left
          (true :: returned, sent ++ more, rest)
      | (.failed, sent, left) =>
          let (returned, more, rest) := sendEach later left
          (false :: returned, sent ++ more, rest)
      | (.blocked, sent, left) => ([], sent, left)

/-- What `calls` successive `recv_msg` calls return: a message, or nothing when
the call returns false. -/
def recvEach : (calls : Nat) → Wire → List (Option Message) × Wire
  | 0, wire => ([], wire)
  | calls + 1, wire =>
      match recvMsg wire with
      | (.returned message, rest) =>
          let (returned, left) := recvEach calls rest
          (some message :: returned, left)
      | (.failed, rest) =>
          let (returned, left) := recvEach calls rest
          (none :: returned, left)
      | (.blocked, rest) => ([], rest)

/-- How many of the results transfer bytes. -/
def transfers : List SendResult → Nat
  | [] => 0
  | .transferred _ :: rest => transfers rest + 1
  | _ :: rest => transfers rest

/-- Every `recv` call transfers bytes or is interrupted. -/
def Wire.Undisturbed (wire : Wire) : Prop :=
  Delivery.timedOut ∉ wire ∧ Delivery.closed ∉ wire

/-! ## Sending -/

/-- Without a failing call the loop sends everything or still waits. -/
structure SendAllSpec (data : Bytes) (results : List SendResult)
    (after : Outcome Unit × Bytes × List SendResult) : Prop where
  outcome : after.1 = .returned () ∨ after.1 = .blocked
  sent : after.1 = .returned () → after.2.1 = data
  faultless : SendResult.failed ∉ after.2.2
  enough : data.length ≤ transfers results →
    after.1 = .returned () ∧
      transfers results ≤ transfers after.2.2 + data.length

theorem sendAll_spec (data : Bytes) (results : List SendResult)
    (faultless : SendResult.failed ∉ results) :
    SendAllSpec data results (sendAll data results) := by
  induction results generalizing data with
  | nil =>
      cases data with
      | nil =>
          exact ⟨Or.inl rfl, fun _ => rfl, faultless,
            fun _ => ⟨rfl, Nat.zero_le _⟩⟩
      | cons first others =>
          refine ⟨Or.inr rfl, ?_, faultless, ?_⟩
          · intro returned
            cases returned
          · intro enough
            simp [transfers] at enough
  | cons result rest inductionHypothesis =>
      cases data with
      | nil =>
          exact ⟨Or.inl rfl, fun _ => rfl, faultless,
            fun _ => ⟨rfl, Nat.le_add_right _ _⟩⟩
      | cons first others =>
          have restFaultless : SendResult.failed ∉ rest :=
            fun member => faultless (List.mem_cons_of_mem _ member)
          cases result with
          | transferred more =>
              obtain ⟨outcome, sent, leftFaultless, enough⟩ :=
                inductionHypothesis ((first :: others).drop (more + 1))
                  restFaultless
              refine ⟨outcome, ?_, leftFaultless, ?_⟩
              · intro returned
                change (first :: others).take (more + 1) ++ _ = _
                rw [sent returned, List.take_append_drop]
              · intro bound
                have shorter :
                    ((first :: others).drop (more + 1)).length + 1 ≤
                      (first :: others).length := by
                  simp only [List.length_drop, List.length_cons]
                  omega
                change _ ≤ transfers rest + 1 at bound
                obtain ⟨returned, left⟩ := enough (by omega)
                refine ⟨returned, ?_⟩
                change transfers rest + 1 ≤ _
                change _ ≤ transfers (sendAll
                  ((first :: others).drop (more + 1)) rest).2.2 + _
                omega
          | interrupted =>
              obtain ⟨outcome, sent, leftFaultless, enough⟩ :=
                inductionHypothesis (first :: others) restFaultless
              exact ⟨outcome, sent, leftFaultless, enough⟩
          | failed =>
              exact absurd List.mem_cons_self faultless

/-- What a sequence of `send_msg` calls does when no `send` call fails. -/
structure SendEachSpec (messages : List Message) (results : List SendResult)
    (after : List Bool × Bytes × List SendResult) : Prop where
  returned : ∀ result ∈ after.1, result = true
  sent : after.1.length = messages.length →
    after.2.1 = messages.flatMap Message.frame
  enough : (messages.flatMap Message.frame).length ≤ transfers results →
    after.1.length = messages.length

theorem sendEach_spec (messages : List Message) (results : List SendResult)
    (faultless : SendResult.failed ∉ results) :
    SendEachSpec messages results (sendEach messages results) := by
  induction messages generalizing results with
  | nil =>
      refine ⟨?_, fun _ => rfl, fun _ => rfl⟩
      intro result member
      cases member
  | cons message later inductionHypothesis =>
      have spec := sendAll_spec message.frame results faultless
      rw [sendEach, sendMsg]
      generalize sendAll message.frame results = after at spec ⊢
      obtain ⟨outcome, sent, left⟩ := after
      obtain ⟨ended, whole, leftFaultless, enough⟩ := spec
      dsimp only at ended whole leftFaultless enough
      rcases ended with rfl | rfl
      · obtain ⟨returned, sentLater, enoughLater⟩ :=
          inductionHypothesis left leftFaultless
        refine ⟨?_, ?_, ?_⟩
        · intro result member
          rcases List.mem_cons.mp member with rfl | member
          · rfl
          · exact returned result member
        · intro all
          change sent ++ (sendEach later left).2.1 = _
          rw [whole rfl, sentLater (Nat.succ.inj all), List.flatMap_cons]
        · intro bound
          rw [List.flatMap_cons, List.length_append] at bound
          obtain ⟨_, kept⟩ := enough (by omega)
          exact congrArg Nat.succ (enoughLater (by omega))
      · refine ⟨?_, ?_, ?_⟩
        · intro result member
          cases member
        · intro all
          cases all
        · intro bound
          rw [List.flatMap_cons, List.length_append] at bound
          obtain ⟨impossible, _⟩ := enough (by omega)
          cases impossible

/-! ## Receiving -/

theorem Wire.timeouts_of_undisturbed {wire : Wire}
    (undisturbed : wire.Undisturbed) : wire.timeouts = [] := by
  obtain ⟨noTimeout, notClosed⟩ := undisturbed
  induction wire with
  | nil =>
      rfl
  | cons delivery rest inductionHypothesis =>
      have restTimeouts := inductionHypothesis
        (fun member => noTimeout (List.mem_cons_of_mem _ member))
        (fun member => notClosed (List.mem_cons_of_mem _ member))
      cases delivery with
      | data first more =>
          rw [Wire.timeouts, restTimeouts, List.map_nil]
      | interrupted =>
          exact restTimeouts
      | timedOut =>
          exact absurd List.mem_cons_self noTimeout
      | closed =>
          exact absurd List.mem_cons_self notClosed

/-- Without timeouts every call returns the next message. -/
theorem recvEach_of_frames {messages : List Message} {wire : Wire}
    (isOpen : wire.Open) (noTimeouts : wire.timeouts = [])
    (small : ∀ message ∈ messages, message.payload.length ≤ kMaxPayload)
    (content : wire.bytes = messages.flatMap Message.frame) :
    ∃ rest, recvEach messages.length wire = (messages.map some, rest) ∧
      rest.bytes = [] := by
  induction messages generalizing wire with
  | nil =>
      exact ⟨wire, rfl, content⟩
  | cons message later inductionHypothesis =>
      obtain ⟨smallFirst, smallLater⟩ := List.forall_mem_cons.mp small
      rw [List.flatMap_cons] at content
      obtain ⟨middle, received, consumes⟩ :=
        recvMsg_frame isOpen smallFirst content (by
          intro offset member
          rw [noTimeouts] at member
          cases member)
      have middleTimeouts : middle.timeouts = [] := by
        have shifted := consumes.timeouts
        rw [noTimeouts] at shifted
        exact List.map_eq_nil_iff.mp shifted.symm
      have middleContent : middle.bytes = later.flatMap Message.frame := by
        have split := consumes.bytes
        rw [content] at split
        exact (List.append_cancel_left split).symm
      obtain ⟨rest, receivedLater, nothingLeft⟩ :=
        inductionHypothesis consumes.isOpen middleTimeouts smallLater
          middleContent
      refine ⟨rest, ?_, nothingLeft⟩
      rw [List.length_cons, recvEach, received]
      dsimp only
      rw [receivedLater, List.map_cons]

/-! ## Exchanges -/

/-- Whatever partial transfers and interruptions the calls meet at both ends,
no `send_msg` call returns false, all return once enough transfers have been
made, and then the `recv_msg` calls at the other end return the messages in
order and leave no byte. -/
theorem exchange_delivers (messages : List Message)
    (small : ∀ message ∈ messages, message.payload.length ≤ kMaxPayload)
    (results : List SendResult)
    (faultless : SendResult.failed ∉ results) :
    (∀ result ∈ (sendEach messages results).1, result = true) ∧
    ((messages.flatMap Message.frame).length ≤ transfers results →
      (sendEach messages results).1.length = messages.length) ∧
    ((sendEach messages results).1.length = messages.length →
      ∀ wire : Wire, wire.Undisturbed →
        wire.bytes = (sendEach messages results).2.1 →
        ∃ rest, recvEach messages.length wire = (messages.map some, rest) ∧
          rest.bytes = []) := by
  have spec := sendEach_spec messages results faultless
  refine ⟨spec.returned, spec.enough, ?_⟩
  intro all wire undisturbed content
  rw [spec.sent all] at content
  exact recvEach_of_frames undisturbed.2
    (Wire.timeouts_of_undisturbed undisturbed) small content

/-- Two messages sent in pieces of five bytes and received in other pieces. -/
theorem exchange_delivers_two :
    ∃ rest, recvEach 2
        [.data 0x52 [0x44, 0x59], .interrupted,
          .data 0x48 [5, 0, 0, 0, 1, 0, 0, 0, 7, 0x52, 0x44, 0x59, 0x48],
          .data 7 [0, 0, 0, 0, 0, 0, 0]] =
        ([some ⟨.stealRequest, [7]⟩, some ⟨.taskResult, []⟩], rest) ∧
      rest.bytes = [] :=
  (exchange_delivers [⟨.stealRequest, [7]⟩, ⟨.taskResult, []⟩] (by decide)
    (.interrupted :: List.replicate 25 (.transferred 4))
    (by decide)).2.2 (by decide) _ (by unfold Wire.Undisturbed; decide)
    (by decide)

end HydraRT.Net
