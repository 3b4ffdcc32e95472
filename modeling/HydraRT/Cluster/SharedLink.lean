import HydraRT.Lib.Transition
import HydraRT.Net.ServeLoops

/-!
# One link, two threads

The steal thread and the completion thread of a node share the `PeerLink` of a
peer.  Each takes the link's mutex, connects if `connected` is false, sends and
releases the mutex; the steal thread also receives in between.  A failed send
or receive closes the socket, and the next user opens a new connection.  The
peer serves every connection it ever accepted, at its own pace.

A connection delivers whole frames in the order they were sent, for as long as
it delivers.  A frame that is never received stays where it is.  What the peer
answers to a `StealRequest` is arbitrary, so that replies of another type and
replies that do not decode occur.
-/

namespace HydraRT.Cluster

open HydraRT.Lib
open HydraRT.Net

/-! ## Connections -/

/-- A frame on its way to the victim.  A `StealRequest` is numbered by
`steal_requests_`. -/
structure SentFrame where
  number : Nat
  message : Message
  deriving DecidableEq, Repr

def SentFrame.isRequest (frame : SentFrame) : Bool :=
  frame.message.type == .stealRequest

/-- A frame on its way to the thief: the request it answers, and how many
answers the victim had begun before. -/
structure Answer where
  request : Nat
  batch : Nat
  message : Message
  deriving DecidableEq, Repr

/-- A connection with the `serve_peer` at its other end. -/
structure Line where
  toVictim : List SentFrame := []
  /-- The request that the victim has read and not answered. -/
  answering : Option Nat := none
  toThief : List Answer := []
  deriving DecidableEq, Repr

namespace Line

def send (line : Line) (frame : SentFrame) : Line :=
  { line with toVictim := line.toVictim ++ [frame] }

/-- A round of `serve_peer` up to the answer. -/
def read? (line : Line) : Option Line :=
  match line.answering, line.toVictim with
  | none, frame :: rest =>
      some (servePeer
        (fun _ line => { line with answering := some frame.number })
        (fun _ line => line) frame.message { line with toVictim := rest })
  | _, _ => none

/-- The answer is sent, or lost with the connection. -/
def answer (line : Line) (answer : Answer) (delivered : Bool) : Line :=
  { line with
    answering := none
    toThief :=
      if delivered then line.toThief ++ [answer] else line.toThief }

/-- The requests whose answers are unread or owed, the oldest first. -/
def pending (line : Line) : List Nat :=
  line.toThief.map Answer.request ++ line.answering.toList ++
    (line.toVictim.filter SentFrame.isRequest).map SentFrame.number

end Line

/-! ## The link -/

inductive LinkUser where
  | stealer
  | completer
  deriving DecidableEq, Repr

/-- Where a thread stands with the link. -/
inductive LinkPc where
  /-- Without the mutex. -/
  | away
  /-- Before the test of `connected`. -/
  | locked
  /-- Before `send_msg`. -/
  | ready
  /-- Before `recv_msg`, having sent the request of this number. -/
  | receiving (call : Nat)
  /-- On return, before the mutex is released. -/
  | leaving
  deriving DecidableEq, Repr

/-- A `StealResponse` that a call of `try_remote_steal` has accepted. -/
structure AcceptedAnswer where
  /-- The request that the same call sent. -/
  call : Nat
  answer : Answer
  resp : StealResponseMsg
  deriving DecidableEq, Repr

/-- A `PeerLink` with its connections, numbered in the order they were opened.
The socket holds the last one while `connected` is true. -/
structure SharedLink where
  mutex : Option LinkUser := none
  connected : Bool := false
  current : Nat := 0
  lines : Nat → Line := fun _ => { }
  pc : LinkUser → LinkPc := fun _ => .away
  stealRequests : Nat := 0
  /-- How many answers the victim has begun. -/
  answers : Nat := 0
  accepted : List AcceptedAnswer := []

inductive LinkAction where
  | lock (user : LinkUser)
  /-- The test of `connected`; if it is false, `connect` and its result. -/
  | connect (user : LinkUser) (ok : Bool)
  /-- `send_msg` and its result.  A failed call may have sent the frame. -/
  | sendRequest (ok sent : Bool)
  | sendResult (taskId : UInt64) (ok sent : Bool)
  /-- `recv_msg` returns a frame. -/
  | receive
  /-- `recv_msg` fails or times out. -/
  | receiveFails
  | unlock (user : LinkUser)
  /-- The victim reads a frame of a connection. -/
  | read (line : Nat)
  /-- The victim answers on a connection. -/
  | answer (line : Nat) (message : Message) (delivered : Bool)
  deriving DecidableEq, Repr

namespace SharedLink

def goto (link : SharedLink) (user : LinkUser) (pc : LinkPc) : SharedLink :=
  { link with pc := Function.update link.pc user pc }

def onLine (link : SharedLink) (number : Nat) (line : Line) : SharedLink :=
  { link with lines := Function.update link.lines number line }

/-- The connection that the socket holds. -/
def line (link : SharedLink) : Line :=
  link.lines link.current

def send (link : SharedLink) (frame : SentFrame) : SharedLink :=
  link.onLine link.current (link.line.send frame)

/-- `connected = false` and `sock.close()`. -/
def close (link : SharedLink) : SharedLink :=
  { link with connected := false }

/-- What both users do when `send_msg` has failed. -/
def sendFailed (link : SharedLink) (frame : SentFrame) (sent : Bool) :
    SharedLink :=
  (if sent then link.send frame else link).close

/-- What `try_remote_steal` does with a frame it has received. -/
def received (link : SharedLink) (call : Nat) (answer : Answer) :
    SharedLink :=
  if answer.message.type ≠ .stealResponse then link.close
  else
    match StealResponseMsg.decode answer.message.payload { } with
    | (false, _) => link
    | (true, resp) =>
        { link with accepted := link.accepted ++ [⟨call, answer, resp⟩] }

/-- One step of a user or of the victim.  The thief always sends the same
`request`. -/
def step (request : StealRequestMsg) (link : SharedLink) :
    LinkAction → Option SharedLink
  | .lock user =>
      if link.pc user = .away ∧ link.mutex = none then
        some ({ link with mutex := some user }.goto user .locked)
      else none
  | .connect user ok =>
      if link.pc user = .locked then
        if link.connected then some (link.goto user .ready)
        else if ok then
          some ({ link with
            connected := true
            current := link.current + 1 }.goto user .ready)
        else some (link.goto user .leaving)
      else none
  | .sendRequest ok sent =>
      if link.pc .stealer = .ready then
        let call := link.stealRequests
        let frame := ⟨call, ⟨.stealRequest, request.encode⟩⟩
        let link := { link with stealRequests := call + 1 }
        if ok then
          some ((link.send frame).goto .stealer (.receiving call))
        else some ((link.sendFailed frame sent).goto .stealer .leaving)
      else none
  | .sendResult taskId ok sent =>
      if link.pc .completer = .ready then
        let res : TaskResultMsg := { taskId, status := 0 }
        let frame := ⟨0, ⟨.taskResult, res.encode⟩⟩
        if ok then some ((link.send frame).goto .completer .leaving)
        else some ((link.sendFailed frame sent).goto .completer .leaving)
      else none
  | .receive =>
      match link.pc .stealer, link.line.toThief with
      | .receiving call, answer :: rest =>
          some (((link.onLine link.current
            { link.line with toThief := rest }).received call answer).goto
              .stealer .leaving)
      | _, _ => none
  | .receiveFails =>
      match link.pc .stealer with
      | .receiving _ => some (link.close.goto .stealer .leaving)
      | _ => none
  | .unlock user =>
      if link.pc user = .leaving then
        some ({ link with mutex := none }.goto user .away)
      else none
  | .read number => (link.lines number).read?.map (link.onLine number)
  | .answer number message delivered =>
      (link.lines number).answering.map fun request =>
        { link with answers := link.answers + 1 }.onLine number
          ((link.lines number).answer ⟨request, link.answers, message⟩
            delivered)

end SharedLink

/-- The runs of one link, for a thief that sends this request. -/
def sharedLink (request : StealRequestMsg) :
    Machine SharedLink LinkAction where
  initial link := link = { }
  step := SharedLink.step request

/-! ## What is unread or owed -/

namespace Line

variable {line next : Line}

theorem pending_send (line : Line) (frame : SentFrame) :
    (line.send frame).pending =
      line.pending ++ if frame.isRequest then [frame.number] else [] := by
  unfold pending send
  rw [List.filter_append, List.map_append, ← List.append_assoc]
  cases isRequest : frame.isRequest <;> simp [isRequest]

/-- What the victim does with a frame it has read adds no request. -/
theorem pending_read (reads : line.read? = some next) :
    next.pending.Sublist line.pending ∧ next.toThief = line.toThief := by
  obtain ⟨toVictim, answering, toThief⟩ := line
  unfold read? at reads
  split at reads
  · rename_i frame rest noAnswer unread
    dsimp only at noAnswer unread
    subst noAnswer unread
    cases reads
    have dropped : ∀ line : Line,
        line = { toVictim := rest, answering := none, toThief } →
          line.pending.Sublist
              (pending { toVictim := frame :: rest, toThief }) ∧
            line.toThief = toThief := by
      rintro line rfl
      refine ⟨?_, rfl⟩
      apply List.Sublist.append (List.Sublist.refl _)
      exact ((List.sublist_cons_self frame rest).filter _).map _
    by_cases isRequest : frame.message.type = .stealRequest
    · cases decoded : StealRequestMsg.decode frame.message.payload { } with
      | mk decodes received =>
          cases decodes with
          | false =>
              simp only [servePeer, isRequest, if_true, decoded]
              exact ⟨(dropped _ rfl).1, trivial⟩
          | true =>
              simp only [servePeer, isRequest, if_true, decoded]
              simp [pending, SentFrame.isRequest, isRequest]
    · apply dropped
      unfold servePeer
      rw [if_neg isRequest]
      split
      · split <;> rfl
      · rfl
  · cases reads

/-- An answer takes the place of the request it answers. -/
theorem pending_answer {request : Nat} (answers : line.answering = some request)
    (batch : Nat) (message : Message) (delivered : Bool) :
    (line.answer ⟨request, batch, message⟩ delivered).pending.Sublist
      line.pending := by
  cases delivered with
  | true => simp [pending, answer, answers]
  | false =>
      unfold pending
      apply List.Sublist.append _ (List.Sublist.refl _)
      exact List.Sublist.append (List.Sublist.refl _) (List.nil_sublist _)

theorem mem_toThief_answer {unread answer : Answer} {delivered : Bool}
    (member : unread ∈ (line.answer answer delivered).toThief) :
    unread ∈ line.toThief ∨ unread = answer := by
  cases delivered with
  | true =>
      rcases List.mem_append.mp member with old | isNew
      · exact .inl old
      · exact .inr (List.mem_singleton.mp isNew)
  | false => exact .inl member

/-- Reading the only answer leaves nothing. -/
theorem pending_receive {call : Nat} {answer : Answer}
    {rest : List Answer} (unread : line.toThief = answer :: rest)
    (owed : line.pending.Sublist [call]) :
    answer.request = call ∧
      ({ line with toThief := rest } : Line).pending = [] := by
  have split : line.pending =
      answer.request :: ({ line with toThief := rest } : Line).pending := by
    simp [pending, unread]
  rw [split] at owed
  have short := owed.length_le
  refine ⟨List.mem_singleton.mp (owed.mem List.mem_cons_self), ?_⟩
  apply List.length_eq_zero_iff.mp
  simpa using short

/-- Nothing pending means that no answer is unread or owed. -/
theorem pending_eq_nil_iff :
    line.pending = [] ↔ line.toThief = [] ∧ line.answering = none ∧
      ∀ frame ∈ line.toVictim, frame.message.type ≠ .stealRequest := by
  unfold pending
  rw [List.append_eq_nil_iff, List.append_eq_nil_iff, List.map_eq_nil_iff,
    List.map_eq_nil_iff, List.filter_eq_nil_iff, and_assoc]
  simp [SentFrame.isRequest]

end Line

/-! ## The invariant -/

namespace SharedLink

/-- What the holder of the mutex may rely on. -/
structure Custody (link : SharedLink) : Prop where
  held : ∀ user, link.pc user ≠ .away → link.mutex = some user
  ready : ∀ user, link.pc user = .ready → link.connected = true
  settled : link.connected = true →
    (∀ call, link.pc .stealer ≠ .receiving call) → link.line.pending = []
  owed : ∀ call, link.pc .stealer = .receiving call →
    link.connected = true ∧ link.line.pending.Sublist [call]

/-- Where the answers of the victim are. -/
structure Traffic (link : SharedLink) : Prop where
  fresh : ∀ number, link.current < number → link.lines number = { }
  unread : ∀ answer ∈ link.line.toThief, answer.batch < link.answers ∧
    ∀ entry ∈ link.accepted, entry.answer.batch ≠ answer.batch
  matched : ∀ entry ∈ link.accepted, entry.answer.request = entry.call
  known : ∀ entry ∈ link.accepted, entry.answer.batch < link.answers
  once : (link.accepted.map (·.answer.batch)).Nodup

section Steps

variable {link : SharedLink} {user : LinkUser}

@[simp]
theorem pc_goto_self (pc : LinkPc) : (link.goto user pc).pc user = pc :=
  Function.update_self ..

theorem pc_goto_other {other : LinkUser} (different : other ≠ user)
    (pc : LinkPc) : (link.goto user pc).pc other = link.pc other :=
  Function.update_of_ne different ..

@[simp]
theorem line_onLine (line : Line) :
    (link.onLine link.current line).line = line :=
  Function.update_self ..

/-- Only the thread that holds the mutex is in a call. -/
theorem Custody.away_of_other (custody : link.Custody) {other : LinkUser}
    (busy : link.pc user ≠ .away) (different : other ≠ user) :
    link.pc other = .away := by
  by_contra otherBusy
  have first := custody.held user busy
  have second := custody.held other otherBusy
  rw [first] at second
  exact different (Option.some.inj second).symm

/-- Unless its holder waits for an answer, a connected link is settled. -/
theorem Custody.settled_of_holder (custody : link.Custody)
    (busy : link.pc user ≠ .away)
    (notReceiving : ∀ call, link.pc user ≠ .receiving call)
    (connected : link.connected = true) : link.line.pending = [] := by
  apply custody.settled connected
  intro call receiving
  by_cases isUser : LinkUser.stealer = user
  · subst isUser
    exact notReceiving call receiving
  · cases (custody.away_of_other busy isUser).symm.trans receiving

/-- The holder of the mutex takes a step that leaves the link settled. -/
theorem Custody.goto {next : SharedLink} {pc : LinkPc}
    (custody : link.Custody) (busy : link.pc user ≠ .away)
    (same : next.pc = link.pc) (holds : next.mutex = some user)
    (ready : pc = .ready → next.connected = true)
    (settled : next.connected = true →
      (∀ call, pc ≠ .receiving call) → next.line.pending = [])
    (owed : ∀ call, pc = .receiving call →
      user = .stealer ∧ next.connected = true ∧
        next.line.pending.Sublist [call]) :
    (next.goto user pc).Custody := by
  have others : ∀ other, other ≠ user →
      (next.goto user pc).pc other = .away := by
    intro other different
    rw [pc_goto_other different, same]
    exact custody.away_of_other busy different
  refine ⟨?_, ?_, ?_, ?_⟩
  · intro other otherBusy
    by_cases isUser : other = user
    · rw [isUser]
      exact holds
    · exact absurd (others other isUser) otherBusy
  · intro other otherReady
    by_cases isUser : other = user
    · subst isUser
      rw [pc_goto_self] at otherReady
      exact ready otherReady
    · rw [others other isUser] at otherReady
      cases otherReady
  · intro connected notReceiving
    by_cases isReceiving : ∃ call, pc = .receiving call
    · obtain ⟨call, rfl⟩ := isReceiving
      obtain ⟨rfl, _⟩ := owed call rfl
      exact absurd (pc_goto_self _) (notReceiving call)
    · exact settled connected (not_exists.mp isReceiving)
  · intro call receiving
    by_cases isUser : LinkUser.stealer = user
    · subst isUser
      rw [pc_goto_self] at receiving
      exact (owed call receiving).2
    · rw [others .stealer isUser] at receiving
      cases receiving

/-- A failed send closes the socket, so nothing need be known of the
connection. -/
theorem Custody.sendFailed (custody : link.Custody)
    (busy : link.pc user ≠ .away) (frame : SentFrame) (sent : Bool) :
    ((link.sendFailed frame sent).goto user .leaving).Custody := by
  have samePc : (link.sendFailed frame sent).pc = link.pc := by
    cases sent <;> rfl
  have sameMutex : (link.sendFailed frame sent).mutex = link.mutex := by
    cases sent <;> rfl
  refine custody.goto busy samePc
    (sameMutex.trans (custody.held user busy)) nofun ?_ nofun
  intro connected
  cases connected

/-- The victim moves what is pending along, or drops it. -/
theorem Custody.onLine (custody : link.Custody) {number : Nat} {line : Line}
    (shrinks : line.pending.Sublist (link.lines number).pending) :
    (link.onLine number line).Custody := by
  have less : (link.onLine number line).line.pending.Sublist
      link.line.pending := by
    by_cases isCurrent : link.current = number
    · subst isCurrent
      rw [line_onLine]
      exact shrinks
    · have same : (link.onLine number line).line = link.line :=
        Function.update_of_ne isCurrent ..
      rw [same]
  refine ⟨custody.held, custody.ready, ?_, ?_⟩
  · intro connected notReceiving
    have nothing := custody.settled connected notReceiving
    rw [nothing] at less
    exact List.sublist_nil.mp less
  · intro call receiving
    obtain ⟨connected, owed⟩ := custody.owed call receiving
    exact ⟨connected, less.trans owed⟩

/-- The mutex, the flag and the threads do not matter. -/
theorem Traffic.same (traffic : link.Traffic) {next : SharedLink}
    (current : next.current = link.current)
    (lines : next.lines = link.lines)
    (answers : next.answers = link.answers)
    (accepted : next.accepted = link.accepted) : next.Traffic := by
  obtain ⟨fresh, unread, matched, known, once⟩ := traffic
  unfold line at unread
  refine ⟨?_, ?_, ?_, ?_, ?_⟩
  · rw [current, lines]
    exact fresh
  · unfold line
    rw [current, lines, answers, accepted]
    exact unread
  · rw [accepted]
    exact matched
  · rw [accepted, answers]
    exact known
  · rw [accepted]
    exact once

/-- A connection changes without a new answer. -/
theorem Traffic.onLine (traffic : link.Traffic) {number : Nat} {line : Line}
    (opened : number ≤ link.current)
    (fewer : line.toThief.Sublist (link.lines number).toThief) :
    (link.onLine number line).Traffic := by
  refine ⟨?_, ?_, traffic.matched, traffic.known, traffic.once⟩
  · intro other later
    have different : other ≠ number := by
      rintro rfl
      exact absurd later (Nat.not_lt.mpr opened)
    exact (Function.update_of_ne different ..).trans
      (traffic.fresh other later)
  · intro answer isUnread
    apply traffic.unread
    by_cases isCurrent : link.current = number
    · subst isCurrent
      rw [line_onLine] at isUnread
      exact fewer.mem isUnread
    · have same : (link.onLine number line).line = link.line :=
        Function.update_of_ne isCurrent ..
      rwa [same] at isUnread

theorem Traffic.send (traffic : link.Traffic) (frame : SentFrame) :
    (link.send frame).Traffic :=
  traffic.onLine (Nat.le_refl _) (List.Sublist.refl _)

theorem Traffic.sendFailed (traffic : link.Traffic) (frame : SentFrame)
    (sent : Bool) : (link.sendFailed frame sent).Traffic := by
  unfold SharedLink.sendFailed
  split
  · exact (traffic.send frame).same rfl rfl rfl rfl
  · exact traffic.same rfl rfl rfl rfl

/-- Something has happened on the connection, so it was opened. -/
theorem Traffic.opened (traffic : link.Traffic) {number : Nat}
    (used : link.lines number ≠ { }) : number ≤ link.current := by
  by_contra later
  exact used (traffic.fresh number (Nat.not_le.mp later))

/-- The victim numbers its answers. -/
theorem Traffic.answer (traffic : link.Traffic) {number request : Nat}
    (answers : (link.lines number).answering = some request)
    (message : Message) (delivered : Bool) :
    ({ link with answers := link.answers + 1 }.onLine number
      ((link.lines number).answer ⟨request, link.answers, message⟩
        delivered)).Traffic := by
  have opened : number ≤ link.current := by
    apply traffic.opened
    intro unused
    rw [unused] at answers
    cases answers
  have later : ∀ entry ∈ link.accepted,
      entry.answer.batch < link.answers + 1 :=
    fun entry member => Nat.lt_succ_of_lt (traffic.known entry member)
  have known : ∀ answer ∈ link.line.toThief,
      answer.batch < link.answers + 1 ∧
        ∀ entry ∈ link.accepted, entry.answer.batch ≠ answer.batch := by
    intro answer isUnread
    obtain ⟨earlier, isNew⟩ := traffic.unread answer isUnread
    exact ⟨Nat.lt_succ_of_lt earlier, isNew⟩
  refine ⟨?_, ?_, traffic.matched, later, traffic.once⟩
  · intro other beyond
    have different : other ≠ number := by
      rintro rfl
      exact absurd beyond (Nat.not_lt.mpr opened)
    exact (Function.update_of_ne different ..).trans
      (traffic.fresh other beyond)
  · intro answer isUnread
    by_cases isCurrent : link.current = number
    · subst isCurrent
      have same : ({ link with answers := link.answers + 1 }.onLine
          link.current ((link.lines link.current).answer
            ⟨request, link.answers, message⟩ delivered)).line =
          link.line.answer ⟨request, link.answers, message⟩ delivered :=
        Function.update_self ..
      rw [same] at isUnread
      rcases Line.mem_toThief_answer isUnread with old | rfl
      · exact known answer old
      · exact ⟨Nat.lt_succ_self _, fun entry member =>
          Nat.ne_of_lt (traffic.known entry member)⟩
    · have same : ({ link with answers := link.answers + 1 }.onLine number
          ((link.lines number).answer ⟨request, link.answers, message⟩
            delivered)).line = link.line :=
        Function.update_of_ne isCurrent ..
      rw [same] at isUnread
      exact known answer isUnread

theorem received_keeps (link : SharedLink) (call : Nat) (answer : Answer) :
    (link.received call answer).pc = link.pc ∧
      (link.received call answer).mutex = link.mutex ∧
      (link.received call answer).line = link.line := by
  unfold SharedLink.received
  split
  · exact ⟨rfl, rfl, rfl⟩
  · split <;> exact ⟨rfl, rfl, rfl⟩

/-- The thief takes the answer to the request of the call it is in. -/
theorem Traffic.received (traffic : link.Traffic) {call : Nat}
    {answer : Answer} {rest : List Answer}
    (unread : link.line.toThief = answer :: rest)
    (owed : link.line.pending.Sublist [call]) :
    ((link.onLine link.current { link.line with
      toThief := rest }).received call answer).Traffic := by
  obtain ⟨isAnswer, nothing⟩ := Line.pending_receive unread owed
  have popped : (link.onLine link.current { link.line with
      toThief := rest }).Traffic := by
    apply traffic.onLine (Nat.le_refl _)
    change rest.Sublist link.line.toThief
    rw [unread]
    exact List.sublist_cons_self answer rest
  obtain ⟨earlier, isNew⟩ :=
    traffic.unread answer (by rw [unread]; exact List.mem_cons_self)
  unfold SharedLink.received
  split
  · exact popped.same rfl rfl rfl rfl
  · split
    · exact popped
    · rename_i resp decoded
      refine ⟨popped.fresh, ?_, ?_, ?_, ?_⟩
      · intro other isUnread
        have none : rest = [] := (Line.pending_eq_nil_iff.mp nothing).1
        have same : (link.onLine link.current { link.line with
            toThief := rest }).line.toThief = rest := by
          rw [line_onLine]
        change other ∈ (link.onLine link.current { link.line with
          toThief := rest }).line.toThief at isUnread
        rw [same, none] at isUnread
        cases isUnread
      · intro entry member
        rcases List.mem_append.mp member with old | isThis
        · exact traffic.matched entry old
        · rw [List.mem_singleton.mp isThis]
          exact isAnswer
      · intro entry member
        rcases List.mem_append.mp member with old | isThis
        · exact traffic.known entry old
        · rw [List.mem_singleton.mp isThis]
          exact earlier
      · change ((link.accepted ++ [_]).map _).Nodup
        rw [List.map_append, List.nodup_append]
        refine ⟨traffic.once, List.nodup_singleton _, ?_⟩
        intro batch old other isThis
        obtain ⟨entry, member, rfl⟩ := List.mem_map.mp old
        rw [List.mem_singleton.mp isThis]
        exact isNew entry member

end Steps

/-- The invariant of a link. -/
structure Sound (link : SharedLink) : Prop where
  custody : link.Custody
  traffic : link.Traffic

section Kept

variable {link following : SharedLink} {user : LinkUser}
  {request : StealRequestMsg}

/-- While no thread has got past `lock`, the link only has to be settled. -/
theorem Custody.of_quiet {next : SharedLink}
    (held : ∀ user, next.pc user ≠ .away → next.mutex = some user)
    (quiet : ∀ user, next.pc user = .away ∨ next.pc user = .locked)
    (settled : next.connected = true → next.line.pending = []) :
    next.Custody := by
  refine ⟨held, ?_, fun connected _ => settled connected, ?_⟩
  · intro user isReady
    rcases quiet user with isAway | isLocked
    · cases isAway.symm.trans isReady
    · cases isLocked.symm.trans isReady
  · intro call isReceiving
    rcases quiet .stealer with isAway | isLocked
    · cases isAway.symm.trans isReceiving
    · cases isLocked.symm.trans isReceiving

theorem Sound.lock (sound : link.Sound) (isAway : link.pc user = .away)
    (free : link.mutex = none) :
    ({ link with mutex := some user }.goto user .locked).Sound := by
  have allAway : ∀ other, link.pc other = .away := by
    intro other
    by_contra busy
    cases free.symm.trans (sound.custody.held other busy)
  have others : ∀ other, other ≠ user →
      ({ link with mutex := some user }.goto user .locked).pc other =
        .away := by
    intro other different
    rw [pc_goto_other different]
    exact allAway other
  refine ⟨?_, sound.traffic.same rfl rfl rfl rfl⟩
  apply Custody.of_quiet
  · intro other busy
    by_cases isUser : other = user
    · rw [isUser]
      rfl
    · exact absurd (others other isUser) busy
  · intro other
    by_cases isUser : other = user
    · subst isUser
      exact .inr (pc_goto_self _)
    · exact .inl (others other isUser)
  · intro connected
    apply sound.custody.settled connected
    intro call receiving
    cases (allAway .stealer).symm.trans receiving

theorem Sound.unlock (sound : link.Sound)
    (isLeaving : link.pc user = .leaving) :
    ({ link with mutex := none }.goto user .away).Sound := by
  have busy : link.pc user ≠ .away := by simp [isLeaving]
  have allAway : ∀ other,
      ({ link with mutex := none }.goto user .away).pc other = .away := by
    intro other
    by_cases isUser : other = user
    · subst isUser
      exact pc_goto_self _
    · rw [pc_goto_other isUser]
      exact sound.custody.away_of_other busy isUser
  refine ⟨?_, sound.traffic.same rfl rfl rfl rfl⟩
  apply Custody.of_quiet
  · intro other stillBusy
    exact absurd (allAway other) stillBusy
  · exact fun other => .inl (allAway other)
  · exact sound.custody.settled_of_holder busy (by simp [isLeaving])

theorem Sound.connect (sound : link.Sound) {ok : Bool}
    (stepped : link.step request (.connect user ok) = some following) :
    following.Sound := by
  simp only [step] at stepped
  split at stepped
  · rename_i isLocked
    have busy : link.pc user ≠ .away := by simp [isLocked]
    have holds := sound.custody.held user busy
    have settled := sound.custody.settled_of_holder busy
      (by simp [isLocked])
    split at stepped
    · rename_i connected
      cases stepped
      refine ⟨sound.custody.goto busy rfl holds (fun _ => connected)
        (fun _ _ => settled connected) nofun, ?_⟩
      exact sound.traffic.same rfl rfl rfl rfl
    · split at stepped <;> cases stepped
      · -- nothing has travelled on the new connection
        have unused : link.lines (link.current + 1) = { } :=
          sound.traffic.fresh _ (Nat.lt_succ_self _)
        constructor
        · refine sound.custody.goto busy rfl holds (fun _ => rfl)
            (fun _ _ => ?_) nofun
          change (link.lines (link.current + 1)).pending = []
          rw [unused]
          rfl
        · refine ⟨?_, ?_, sound.traffic.matched, sound.traffic.known,
            sound.traffic.once⟩
          · intro number later
            exact sound.traffic.fresh number (Nat.lt_of_succ_lt later)
          · intro answer isUnread
            change answer ∈ (link.lines (link.current + 1)).toThief
              at isUnread
            rw [unused] at isUnread
            cases isUnread
      · refine ⟨sound.custody.goto busy rfl holds nofun
          (fun connected _ => settled connected) nofun, ?_⟩
        exact sound.traffic.same rfl rfl rfl rfl
  · cases stepped

/-- The request that has just been sent is all that is pending. -/
theorem Sound.requests (sound : link.Sound)
    (isReady : link.pc .stealer = .ready) {frame : SentFrame}
    (isRequest : frame.isRequest = true) :
    ((link.send frame).goto .stealer (.receiving frame.number)).Sound := by
  have busy : link.pc .stealer ≠ .away := by simp [isReady]
  have connected := sound.custody.ready .stealer isReady
  have settled := sound.custody.settled_of_holder busy (by simp [isReady])
    connected
  constructor
  · refine sound.custody.goto busy rfl (sound.custody.held .stealer busy)
      nofun (fun _ notReceiving => absurd rfl (notReceiving _)) ?_
    rintro call ⟨⟩
    refine ⟨rfl, connected, ?_⟩
    change (link.onLine link.current _).line.pending.Sublist _
    rw [line_onLine, Line.pending_send, settled, isRequest]
    exact List.Sublist.refl _
  · exact (sound.traffic.send frame).same rfl rfl rfl rfl

theorem Sound.sendRequest (sound : link.Sound) {ok sent : Bool}
    (stepped : link.step request (.sendRequest ok sent) = some following) :
    following.Sound := by
  simp only [step] at stepped
  split at stepped
  · rename_i isReady
    have busy : link.pc .stealer ≠ .away := by simp [isReady]
    have counted : ({ link with
        stealRequests := link.stealRequests + 1 } : SharedLink).Sound :=
      ⟨⟨sound.custody.held, sound.custody.ready, sound.custody.settled,
        sound.custody.owed⟩, sound.traffic.same rfl rfl rfl rfl⟩
    split at stepped <;> cases stepped
    · exact counted.requests isReady rfl
    · exact ⟨counted.custody.sendFailed busy _ sent,
        (counted.traffic.sendFailed _ sent).same rfl rfl rfl rfl⟩
  · cases stepped

theorem Sound.sendResult (sound : link.Sound) {taskId : UInt64}
    {ok sent : Bool}
    (stepped : link.step request (.sendResult taskId ok sent) =
      some following) : following.Sound := by
  simp only [step] at stepped
  split at stepped
  · rename_i isReady
    have busy : link.pc .completer ≠ .away := by simp [isReady]
    have holds := sound.custody.held .completer busy
    have settled := sound.custody.settled_of_holder busy (by simp [isReady])
    split at stepped <;> cases stepped
    · constructor
      · refine sound.custody.goto busy rfl holds nofun
          (fun connected _ => ?_) nofun
        -- a result asks for no answer
        change (link.onLine link.current _).line.pending = []
        rw [line_onLine, Line.pending_send, settled connected]
        rfl
      · exact (sound.traffic.send _).same rfl rfl rfl rfl
    · exact ⟨sound.custody.sendFailed busy _ sent,
        (sound.traffic.sendFailed _ sent).same rfl rfl rfl rfl⟩
  · cases stepped

theorem Sound.receive (sound : link.Sound)
    (stepped : link.step request .receive = some following) :
    following.Sound := by
  simp only [step] at stepped
  split at stepped
  · rename_i call answer rest isReceiving unread
    cases stepped
    have busy : link.pc .stealer ≠ .away := by simp [isReceiving]
    have holds := sound.custody.held .stealer busy
    obtain ⟨_, owed⟩ := sound.custody.owed call isReceiving
    obtain ⟨_, nothing⟩ := Line.pending_receive unread owed
    obtain ⟨samePc, sameMutex, sameLine⟩ := received_keeps (link.onLine
      link.current { link.line with toThief := rest }) call answer
    constructor
    · refine sound.custody.goto busy samePc (sameMutex.trans holds) nofun
        (fun _ _ => ?_) nofun
      rw [sameLine, line_onLine]
      exact nothing
    · exact (sound.traffic.received unread owed).same rfl rfl rfl rfl
  · cases stepped

theorem Sound.receiveFails (sound : link.Sound)
    (stepped : link.step request .receiveFails = some following) :
    following.Sound := by
  simp only [step] at stepped
  split at stepped
  · rename_i call isReceiving
    cases stepped
    have busy : link.pc .stealer ≠ .away := by simp [isReceiving]
    refine ⟨?_, sound.traffic.same rfl rfl rfl rfl⟩
    refine sound.custody.goto busy rfl (sound.custody.held .stealer busy)
      nofun ?_ nofun
    intro connected
    cases connected
  · cases stepped

theorem Sound.read (sound : link.Sound) {number : Nat}
    (stepped : link.step request (.read number) = some following) :
    following.Sound := by
  obtain ⟨line, reads, rfl⟩ := Option.map_eq_some_iff.mp stepped
  obtain ⟨fewer, sameAnswers⟩ := Line.pending_read reads
  have opened : number ≤ link.current := by
    apply sound.traffic.opened
    intro unused
    rw [unused] at reads
    cases reads
  refine ⟨sound.custody.onLine fewer, sound.traffic.onLine opened ?_⟩
  rw [sameAnswers]

theorem Sound.answer (sound : link.Sound) {number : Nat}
    {message : Message} {delivered : Bool}
    (stepped : link.step request (.answer number message delivered) =
      some following) : following.Sound := by
  obtain ⟨answered, isAnswering, rfl⟩ := Option.map_eq_some_iff.mp stepped
  refine ⟨?_, sound.traffic.answer isAnswering message delivered⟩
  have counted : ({ link with
      answers := link.answers + 1 } : SharedLink).Custody :=
    ⟨sound.custody.held, sound.custody.ready, sound.custody.settled,
      sound.custody.owed⟩
  exact counted.onLine
    (Line.pending_answer isAnswering link.answers message delivered)

end Kept

theorem sound_of_reachable {request : StealRequestMsg} {link : SharedLink}
    (reached : (sharedLink request).Reachable link) : link.Sound := by
  refine Machine.Reachable.invariant ?_ ?_ reached
  · rintro link rfl
    exact ⟨⟨nofun, nofun, nofun, nofun⟩,
      ⟨fun _ _ => rfl, nofun, nofun, nofun, List.nodup_nil⟩⟩
  · intro link action following sound stepped
    change link.step request action = some following at stepped
    cases action with
    | lock user =>
        simp only [step] at stepped
        split at stepped
        · rename_i free
          cases stepped
          exact sound.lock free.1 free.2
        · cases stepped
    | connect user ok => exact sound.connect stepped
    | sendRequest ok sent => exact sound.sendRequest stepped
    | sendResult taskId ok sent => exact sound.sendResult stepped
    | receive => exact sound.receive stepped
    | receiveFails => exact sound.receiveFails stepped
    | unlock user =>
        simp only [step] at stepped
        split at stepped
        · rename_i isLeaving
          cases stepped
          exact sound.unlock isLeaving
        · cases stepped
    | read number => exact sound.read stepped
    | answer number message delivered => exact sound.answer stepped

end SharedLink

/-- While nobody uses a connected link, no answer is unread or owed on its
connection.  Every answer that the thief accepts is that to the request of the
same call, and none is accepted twice. -/
theorem steal_replies_matched {request : StealRequestMsg} {link : SharedLink}
    (reached : (sharedLink request).Reachable link) :
    (link.mutex = none → link.connected = true →
        link.line.toThief = [] ∧ link.line.answering = none ∧
          ∀ frame ∈ link.line.toVictim,
            frame.message.type ≠ .stealRequest) ∧
      (∀ entry ∈ link.accepted, entry.answer.request = entry.call) ∧
      (link.accepted.map (·.answer.batch)).Nodup := by
  have sound := SharedLink.sound_of_reachable reached
  refine ⟨?_, sound.traffic.matched, sound.traffic.once⟩
  intro free connected
  apply Line.pending_eq_nil_iff.mp
  apply sound.custody.settled connected
  intro call receiving
  have busy : link.pc .stealer ≠ .away := by simp [receiving]
  cases free.symm.trans (sound.custody.held .stealer busy)

/-- The first answer comes after the timeout.  The completion thread opens a
new connection, on which the second answer does not decode and the third one
does. -/
def lateAnswer : List LinkAction :=
  let empty : StealResponseMsg := { }
  [.lock .stealer, .connect .stealer true, .sendRequest true true, .read 1,
    .receiveFails, .unlock .stealer,
    .answer 1 ⟨.stealResponse, empty.encode⟩ true,
    .lock .completer, .connect .completer true, .sendResult 7 true true,
    .unlock .completer,
    .lock .stealer, .connect .stealer true, .sendRequest true true, .read 2,
    .read 2, .answer 2 ⟨.stealResponse, []⟩ true, .receive,
    .unlock .stealer,
    .lock .stealer, .connect .stealer true, .sendRequest true true, .read 2,
    .answer 2 ⟨.stealResponse, empty.encode⟩ true, .receive,
    .unlock .stealer]

theorem lateAnswer_runs :
    ((sharedLink { }).run { } lateAnswer).isSome = true := by
  decide +kernel

theorem steal_replies_matched_late :
    ∃ link, (sharedLink { }).run { } lateAnswer = some link ∧
      link.accepted.map (fun entry => (entry.call, entry.answer.batch)) =
        [(2, 2)] ∧
      (∀ entry ∈ link.accepted, entry.answer.request = entry.call) ∧
      link.line.toThief = [] ∧ (link.lines 1).toThief.length = 1 := by
  have ran := (Option.some_get lateAnswer_runs).symm
  obtain ⟨settled, matched, _⟩ := steal_replies_matched
    (Machine.reachable_of_run lateAnswer rfl ran)
  refine ⟨_, ran, by decide +kernel, matched, ?_, by decide +kernel⟩
  exact (settled (by decide +kernel) (by decide +kernel)).1

end HydraRT.Cluster
