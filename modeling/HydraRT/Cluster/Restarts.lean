import HydraRT.Cluster.Coverage
import HydraRT.Cluster.Handing

/-!
# Nodes that crash and start again

A node that starts again is a new incarnation: it gets a new id from the
coordinator and a fresh `Runtime`, whose task ids begin at 1, but it listens
at the old address.  Peers keep their links by id, and a link names an
address; so a `TaskResult` that a thief sends to a node reaches whichever
incarnation listens there now.  The message carries the id of the task and
nothing of the incarnation that submitted it.
-/

namespace HydraRT.Cluster

open HydraRT.Lib

/-- The nodes of a cluster are the incarnations. -/
structure RestartConfig extends ClusterConfig where
  /-- `advertise_host` and `listen_port`. -/
  address : Fin size → String × UInt16

variable {config : RestartConfig}

inductive Life where
  | waiting
  | running
  | crashed
  deriving DecidableEq, Repr

/-- A `TaskResult` on a connection to an incarnation.  The id of the node that
the sender means stays with the sender. -/
structure Letter (config : RestartConfig) where
  receiver : Fin config.size
  notice : NodeId × Nat
  deriving DecidableEq, Repr

structure RestartState (config : RestartConfig) where
  nodes : (i : Fin config.size) → State (config.node i)
  life : Fin config.size → Life
  /-- The responses in flight, each with the node that asked for it. -/
  flying : List (NodeId × Reply)
  mail : List (Letter config)

inductive RestartAction (config : RestartConfig) where
  | start (i : Fin config.size)
  | crash (i : Fin config.size)
  /-- A node acts on its own. -/
  | act (i : Fin config.size) (action : Action)
  /-- A response reaches the steal thread of the node that asked for it, over
  a link that may still have the id of an earlier incarnation. -/
  | reply (index : Nat) (i : Fin config.size) (thread : Nat) (link : NodeId)
  /-- A result reaches a peer thread of the incarnation it was sent to. -/
  | result (index : Nat) (thread : Nat)
  deriving DecidableEq, Repr

/-- The two ids name one address. -/
def RestartConfig.sameAddress (config : RestartConfig)
    (first second : NodeId) : Bool :=
  (List.finRange config.size).any fun named =>
    (config.node named).nodeId == first &&
      (List.finRange config.size).any fun other =>
        (config.node other).nodeId == second &&
          config.address named == config.address other

namespace RestartState

/-- The incarnation that listens at the address of the node with this id. -/
def listener? (state : RestartState config) (id : NodeId) :
    Option (Fin config.size) :=
  (List.finRange config.size).find? fun k =>
    state.life k == .running &&
      (List.finRange config.size).any fun named =>
        (config.node named).nodeId == id &&
          config.address named == config.address k

/-- A node has taken a step; what it sent is on its way. -/
def install (state : RestartState config) (i : Fin config.size)
    (own : Action) (next : State (config.node i))
    (flying : List (NodeId × Reply)) (mail : List (Letter config)) :
    RestartState config where
  nodes := Function.update state.nodes i next
  life := state.life
  flying := flying ++
    (next.shared.replies.drop (state.nodes i).shared.replies.length).map
      fun reply => ((state.nodes i).requester own, reply)
  mail := mail ++
    (next.shared.results.drop
        (state.nodes i).shared.results.length).filterMap
      fun notice => (state.listener? notice.1).map fun k => ⟨k, notice⟩

def step (state : RestartState config) :
    RestartAction config → Option (RestartState config)
  | .start i =>
      if state.life i = .waiting ∧
          ∀ k, config.address k = config.address i →
            state.life k ≠ .running then
        some { state with life := Function.update state.life i .running }
      else none
  | .crash i =>
      if state.life i = .running then
        some { state with life := Function.update state.life i .crashed }
      else none
  | .act i action =>
      if state.life i = .running ∧ action.isLocal then
        ((state.nodes i).step action).map fun next =>
          state.install i action next state.flying state.mail
      else none
  | .reply index i thread link =>
      match state.flying[index]? with
      | none => none
      | some (requester, reply) =>
          if (state.life i = .running ∧
              requester = (config.node i).nodeId) ∧
              config.sameAddress link reply.victim then
            ((state.nodes i).step
                (.move thread (.reply link reply.tasks))).map
              fun next => state.install i
                (.move thread (.reply link reply.tasks)) next
                (state.flying.eraseIdx index) state.mail
          else none
  | .result index thread =>
      match state.mail[index]? with
      | none => none
      | some ⟨i, notice⟩ =>
          if state.life i = .running then
            ((state.nodes i).step (.move thread (.result notice.2))).map
              fun next => state.install i (.move thread (.result notice.2))
                next state.flying (state.mail.eraseIdx index)
          else none

end RestartState

/-- The runs of a cluster whose nodes crash and start again. -/
def restarts (config : RestartConfig) :
    Machine (RestartState config) (RestartAction config) where
  initial state :=
    (∀ i, (state.nodes i).Initial) ∧ (∀ i, state.life i = .waiting) ∧
      state.flying = [] ∧ state.mail = []
  step := RestartState.step

/-! ## Inversion -/

/-- What a step does. -/
inductive Restarted (state : RestartState config) :
    RestartState config → Prop
  | life {life : Fin config.size → Life} :
      Restarted state { state with life }
  | node {i : Fin config.size} {own : Action} {next : State (config.node i)}
      {flying : List (NodeId × Reply)} {mail : List (Letter config)} :
      (node (config.node i)).step (state.nodes i) own = some next →
      (∀ response ∈ flying, response ∈ state.flying) →
      (∀ letter ∈ mail, letter ∈ state.mail) →
      (∀ thread link tasks, own = .move thread (.reply link tasks) →
        ∃ reply, ((config.node i).nodeId, reply) ∈ state.flying ∧
          reply.tasks = tasks) →
      Restarted state (state.install i own next flying mail)

theorem restarts_step {state following : RestartState config}
    {action : RestartAction config}
    (stepped : (restarts config).step state action = some following) :
    Restarted state following := by
  cases action with
  | start i =>
      simp only [restarts, RestartState.step] at stepped
      split at stepped
      · cases stepped
        exact .life
      · cases stepped
  | crash i =>
      simp only [restarts, RestartState.step] at stepped
      split at stepped
      · cases stepped
        exact .life
      · cases stepped
  | act i action =>
      simp only [restarts, RestartState.step] at stepped
      split at stepped
      · rename_i may
        obtain ⟨next, moved, rfl⟩ := Option.map_eq_some_iff.mp stepped
        refine .node moved (fun _ member => member) (fun _ member => member)
          ?_
        rintro thread link tasks rfl
        cases may.2
      · cases stepped
  | reply index i thread link =>
      simp only [restarts, RestartState.step] at stepped
      split at stepped
      · cases stepped
      · rename_i requester reply found
        split at stepped
        · rename_i may
          obtain ⟨next, moved, rfl⟩ := Option.map_eq_some_iff.mp stepped
          refine .node moved (fun _ => List.mem_of_mem_eraseIdx)
            (fun _ member => member) ?_
          intro _ _ tasks same
          injection same with _ sameMove
          injection sameMove with _ sameTasks
          have inFlight := List.mem_of_getElem? found
          rw [may.1.2] at inFlight
          exact ⟨reply, inFlight, sameTasks⟩
        · cases stepped
  | result index thread =>
      simp only [restarts, RestartState.step] at stepped
      split at stepped
      · cases stepped
      · rename_i i notice found
        split at stepped
        · obtain ⟨next, moved, rfl⟩ := Option.map_eq_some_iff.mp stepped
          refine .node moved (fun _ member => member)
            (fun _ => List.mem_of_mem_eraseIdx) ?_
          intro _ _ tasks same
          cases same
        · cases stepped

/-- Every incarnation runs as a node does. -/
theorem restart_node_reachable {state : RestartState config}
    (reached : (restarts config).Reachable state) (i : Fin config.size) :
    (node (config.node i)).Reachable (state.nodes i) := by
  refine reached.seen (·.nodes i) (fun _ isInitial => isInitial.1 i) ?_
  intro before action after _ stepped
  cases restarts_step stepped with
  | life => exact .inl rfl
  | @node mover own next flying mail moved _ _ _ =>
      by_cases same : i = mover
      · subst same
        refine .inr ⟨own, trivial, ?_⟩
        simp only [RestartState.install, Function.update_self]
        exact moved
      · refine .inl ?_
        simp only [RestartState.install, Function.update_of_ne same]

/-! ## Attribution -/

/-- `run_task` has returned for the closure that `accept_stolen_task` made of
the task, and the handler was called if the node has one. -/
structure State.RanFor {config : NodeConfig} (state : State config)
    (task : Task) : Prop where
  executed : ∃ closure, .counted closure ∈ state.shared.history ∧
    closure.fn = task.stolenFrom.fn ∧
      .executed closure.taskId ∈ state.shared.history
  performed : config.handlers.run task.type ≠ none →
    .ran task.originNode task.taskId (.handler task.type task.payload) ∈
      state.shared.history

/-- The task of the entry, as this incarnation submitted it, has been run by
the thief it was handed to. -/
structure RestartState.RanByThief (state : RestartState config)
    (i : Fin config.size) (entry : Outstanding) : Prop where
  submitted : .counted entry.task ∈ (state.nodes i).shared.history
  origin : entry.task.originNode = (config.node i).nodeId
  ran : ∃ j, (config.node j).nodeId = entry.thiefNode ∧
    (state.nodes j).RanFor entry.task

/-- What the nodes have handed out, each with the thief. -/
abbrev Logs (config : RestartConfig) :=
  Fin config.size → List (Nat × NodeId)

namespace RestartState

variable (state : RestartState config) (logs : Logs config)

/-- The origin of the task has handed it to the thief. -/
def SentTo (thief : NodeId) (task : Task) : Prop :=
  ∃ i, task.originNode = (config.node i).nodeId ∧
    (task.taskId, thief) ∈ logs i ∧
      .counted task ∈ (state.nodes i).shared.history

/-- The notice is about a task that the node was sent and has run. -/
def Reported (j : Fin config.size) (notice : NodeId × Nat) : Prop :=
  ∃ task, state.SentTo logs (config.node j).nodeId task ∧
    (task.originNode, task.taskId) = notice ∧ (state.nodes j).RanFor task

end RestartState

/-- Whatever travels between nodes was handed to the node it travels to. -/
structure Attributed (state : RestartState config) (logs : Logs config) :
    Prop where
  handed : ∀ i, Handed (state.nodes i) (logs i)
  flying : ∀ response ∈ state.flying, ∀ task ∈ response.2.tasks,
    state.SentTo logs response.1 task
  arrived : ∀ j task, ⟨.arrived, task⟩ ∈ (state.nodes j).tokens →
    state.SentTo logs (config.node j).nodeId task
  stolen : ∀ j, ∀ token ∈ (state.nodes j).tokens, token.place ≠ .arrived →
    ∀ type payload origin taskId,
      token.task.fn = some (.stolen type payload origin taskId) →
        ∃ task, state.SentTo logs (config.node j).nodeId task ∧
          token.task.fn = task.stolenFrom.fn
  owed : ∀ j notice, owedToken notice ∈ (state.nodes j).tokens →
    state.Reported logs j notice
  mail : ∀ letter ∈ state.mail, ∃ j, state.Reported logs j letter.notice

section Grows

variable {state following : RestartState config} {logs longer : Logs config}

/-- Histories and logs only grow. -/
structure Grows (state following : RestartState config)
    (logs longer : Logs config) : Prop where
  history : ∀ i, ∀ entry ∈ (state.nodes i).shared.history,
    entry ∈ (following.nodes i).shared.history
  logs : ∀ i, ∀ note ∈ logs i, note ∈ longer i

theorem State.RanFor.mono {config : NodeConfig}
    {earlier later : State config} {task : Task}
    (ran : earlier.RanFor task)
    (grows : ∀ entry ∈ earlier.shared.history,
      entry ∈ later.shared.history) : later.RanFor task where
  executed := by
    obtain ⟨closure, counted, same, executed⟩ := ran.executed
    exact ⟨closure, grows _ counted, same, grows _ executed⟩
  performed hasHandler := grows _ (ran.performed hasHandler)

theorem Grows.sentTo (grows : Grows state following logs longer)
    {thief : NodeId} {task : Task} (sent : state.SentTo logs thief task) :
    following.SentTo longer thief task := by
  obtain ⟨i, origin, noted, counted⟩ := sent
  exact ⟨i, origin, grows.logs i _ noted, grows.history i _ counted⟩

theorem Grows.reported (grows : Grows state following logs longer)
    {j : Fin config.size} {notice : NodeId × Nat}
    (reported : state.Reported logs j notice) :
    following.Reported longer j notice := by
  obtain ⟨task, sent, same, ran⟩ := reported
  exact ⟨task, grows.sentTo sent, same, ran.mono (grows.history j)⟩

end Grows

section Sent

variable {config : NodeConfig} {state following : State config}
  {action : Action} {event : Event}

/-- What a step sends was in the response that a call built. -/
theorem Happens.mem_copied (happens : Happens action event state following)
    {reply : Reply}
    (isNew : reply ∈ following.shared.replies.drop
      state.shared.replies.length) {task : Task}
    (inReply : task ∈ reply.tasks) : ⟨.copied, task⟩ ∈ state.tokens := by
  obtain ⟨new, grown, tasks⟩ :=
    Event.replies_enter config event state.shared.books
  have replies : following.shared.replies = state.shared.replies ++ new :=
    (congrArg Books.replies happens.books).trans grown
  rw [replies, List.drop_left] at isNew
  have isSent : task ∈ event.sent := by
    rw [← tasks]
    exact List.mem_flatMap.mpr ⟨reply, isNew, inReply⟩
  cases event with
  | send reply => exact happens.held (List.mem_map_of_mem isSent)
  | _ => cases isSent

/-- The end of a stolen closure has run its task. -/
theorem Happens.ranFor {closure task : Task}
    (happens : Happens action (.ran closure) state following)
    (enrolled : Enrolled state.shared.books state.tokens)
    (same : closure.fn = task.stolenFrom.fn) :
    following.RanFor task := by
  have counted := enrolled.counted _
    (happens.held (List.mem_singleton_self _)) rfl
  have history : following.shared.history = state.shared.history ++
      (.executed closure.taskId :: performs config closure) :=
    congrArg Books.history happens.books
  refine ⟨⟨closure, ?_, same, ?_⟩, fun hasHandler => ?_⟩
  · rw [history]
    exact List.mem_append_left _ counted
  · rw [history]
    exact List.mem_append_right _ List.mem_cons_self
  · rw [history]
    exact List.mem_append_right _ (List.mem_cons_of_mem _
      (performs_stolen same hasHandler))

end Sent

/-! ## Steps -/

section Install

variable {state : RestartState config} {logs : Logs config}
  {i : Fin config.size} {own : Action} {next : State (config.node i)}
  {flying : List (NodeId × Reply)} {mail : List (Letter config)}

@[simp]
theorem RestartState.install_self :
    (state.install i own next flying mail).nodes i = next := by
  simp [RestartState.install]

theorem RestartState.install_of_ne {j : Fin config.size} (other : j ≠ i) :
    (state.install i own next flying mail).nodes j = state.nodes j := by
  simp [RestartState.install, other]

/-- What node `i` hands out is written down. -/
def Logs.note (logs : Logs config) (state : RestartState config)
    (i : Fin config.size) (own : Action) : Logs config :=
  Function.update logs i (logs i ++ (state.nodes i).handing own)

theorem Logs.mem_note {j : Fin config.size} {note : Nat × NodeId}
    (member : note ∈ logs j) : note ∈ logs.note state i own j := by
  by_cases same : j = i
  · subst same
    simp only [Logs.note, Function.update_self]
    exact List.mem_append_left _ member
  · simp only [Logs.note, Function.update_of_ne same]
    exact member

theorem Grows.install {event : Event}
    (happens : Happens own event (state.nodes i) next) :
    Grows state (state.install i own next flying mail) logs
      (logs.note state i own) where
  history j entry member := by
    by_cases same : j = i
    · subst same
      rw [RestartState.install_self]
      have grown := Event.mem_history_enter (config.node j) event
        (state.nodes j).shared.books member
      rw [← happens.books] at grown
      exact grown
    · rw [RestartState.install_of_ne same]
      exact member
  logs j note member := Logs.mem_note member

/-- A token of the acting node was there or is new; the other nodes keep
theirs. -/
theorem Happens.mem_installed {event : Event}
    (happens : Happens own event (state.nodes i) next)
    {j : Fin config.size} {token : Token}
    (member : token ∈
      ((state.install i own next flying mail).nodes j).tokens) :
    token ∈ (state.nodes j).tokens ∨
      j = i ∧
        token ∈ event.added (config.node i) (state.nodes i).shared.books := by
  by_cases same : j = i
  · subst same
    rw [RestartState.install_self] at member
    rcases happens.moves.mem member with old | isAdded
    · exact .inl old
    · exact .inr ⟨rfl, isAdded⟩
  · rw [RestartState.install_of_ne same] at member
    exact .inl member

/-- A step of a node keeps the attribution.  Of what the node has not been
sent before it may only take in a response that was meant for it. -/
theorem Attributed.install
    (reached : (node (config.node i)).Reachable (state.nodes i))
    (attributed : Attributed state logs)
    (moved : (node (config.node i)).step (state.nodes i) own = some next)
    (fewer : ∀ response ∈ flying, response ∈ state.flying)
    (less : ∀ letter ∈ mail, letter ∈ state.mail)
    (meant : ∀ thread link tasks, own = .move thread (.reply link tasks) →
      ∃ reply, ((config.node i).nodeId, reply) ∈ state.flying ∧
        reply.tasks = tasks) :
    Attributed (state.install i own next flying mail)
      (logs.note state i own) := by
  obtain ⟨event, happens⟩ := step_happens moved
  have grows : Grows state (state.install i own next flying mail) logs
      (logs.note state i own) := .install happens
  have held : ∀ {token}, token ∈ event.removed (config.node i) →
      token ∈ (state.nodes i).tokens := happens.held
  have arrived : ∀ j task, ⟨.arrived, task⟩ ∈
      ((state.install i own next flying mail).nodes j).tokens →
        (state.install i own next flying mail).SentTo
          (logs.note state i own) (config.node j).nodeId task := by
    intro j task member
    rcases happens.mem_installed member with old | ⟨rfl, isAdded⟩
    · exact grows.sentTo (attributed.arrived j task old)
    · have received := Event.arrived_added isAdded
      cases event with
      | arrive tasks =>
          obtain ⟨thread, link, isReply⟩ := happens.caused
          obtain ⟨reply, inFlight, rfl⟩ := meant thread link tasks isReply
          exact grows.sentTo (attributed.flying _ inFlight task received)
      | _ => cases received
  have owed : ∀ j notice, owedToken notice ∈
      ((state.install i own next flying mail).nodes j).tokens →
        (state.install i own next flying mail).Reported
          (logs.note state i own) j notice := by
    intro j notice member
    rcases happens.mem_installed member with old | ⟨rfl, isAdded⟩
    · exact grows.reported (attributed.owed j notice old)
    · obtain ⟨closure, type, payload, rfl, isStolen⟩ :=
        Event.owed_added isAdded
      obtain ⟨task, sent, same⟩ := attributed.stolen j _
        (held (List.mem_singleton_self _)) Place.noConfusion _ _ _ _ isStolen
      refine ⟨task, grows.sentTo sent, ?_, ?_⟩
      · simp only [isStolen, Task.stolenFrom, Option.some.injEq,
          Closure.stolen.injEq] at same
        exact Prod.ext same.2.2.1.symm same.2.2.2.symm
      · rw [RestartState.install_self]
        exact happens.ranFor (enrolled_of_reachable reached) same
  refine ⟨?_, ?_, arrived, ?_, owed, ?_⟩
  · intro j
    by_cases same : j = i
    · subst same
      rw [RestartState.install_self]
      simp only [Logs.note, Function.update_self]
      exact (attributed.handed j).step reached moved
    · rw [RestartState.install_of_ne same]
      simp only [Logs.note, Function.update_of_ne same]
      exact attributed.handed j
  · intro response member task inReply
    rcases List.mem_append.mp member with old | isNew
    · exact grows.sentTo
        (attributed.flying response (fewer response old) task inReply)
    · obtain ⟨reply, sent, rfl⟩ := List.mem_map.mp isNew
      have copied := happens.mem_copied sent inReply
      have origin := ((shaped_of_reachable reached _ copied).portable rfl).2
      have counted := (enrolled_of_reachable reached).counted _ copied rfl
      obtain ⟨new, replies, noted⟩ :=
        (step_dealt (attributed.handed i).frames moved).replies
      rw [replies, List.drop_left] at sent
      exact ⟨i, origin, Logs.mem_note (noted reply sent task inReply),
        grows.history i _ counted⟩
  · intro j token member inside type payload origin taskId closure
    rcases happens.mem_installed member with old | ⟨rfl, isAdded⟩
    · obtain ⟨task, sent, same⟩ := attributed.stolen j token old inside type
        payload origin taskId closure
      exact ⟨task, grows.sentTo sent, same⟩
    · rcases happens.stolen_added isAdded inside closure with
        ⟨old, isRemoved, oldInside, oldClosure⟩ | ⟨remote, rfl, same⟩
      · obtain ⟨task, sent, same⟩ := attributed.stolen j old (held isRemoved)
          oldInside type payload origin taskId oldClosure
        rw [oldClosure] at same
        exact ⟨task, grows.sentTo sent, closure.trans same⟩
      · refine ⟨remote, grows.sentTo (attributed.arrived j remote
          (held (List.mem_singleton_self _))), ?_⟩
        rw [same]
  · intro letter member
    rcases List.mem_append.mp member with old | isNew
    · obtain ⟨j, reported⟩ := attributed.mail letter (less letter old)
      exact ⟨j, grows.reported reported⟩
    · obtain ⟨notice, sent, routed⟩ := List.mem_filterMap.mp isNew
      obtain ⟨k, _, rfl⟩ := Option.map_eq_some_iff.mp routed
      refine ⟨i, owed i notice ?_⟩
      rw [RestartState.install_self]
      refine List.mem_append_left _ (List.mem_append_right _ ?_)
      exact List.mem_map_of_mem (List.mem_of_mem_drop sent)

end Install

theorem attributed_of_reachable {state : RestartState config}
    (reached : (restarts config).Reachable state) :
    ∃ logs, Attributed state logs := by
  induction reached with
  | start isInitial =>
      obtain ⟨nodes, _, flying, mail⟩ := isInitial
      have noTokens : ∀ j, State.tokens _ = [] :=
        fun j => State.Initial.tokens (nodes j)
      refine ⟨fun _ => [], fun i => .initial (nodes i), ?_, ?_, ?_, ?_, ?_⟩
      · rw [flying]
        exact List.forall_mem_nil _
      · intro j
        rw [noTokens j]
        intros
        contradiction
      · intro j
        rw [noTokens j]
        exact List.forall_mem_nil _
      · intro j
        rw [noTokens j]
        intros
        contradiction
      · rw [mail]
        exact List.forall_mem_nil _
  | next earlier _ stepped inductionHypothesis =>
      obtain ⟨logs, attributed⟩ := inductionHypothesis
      cases restarts_step stepped with
      | life =>
          exact ⟨logs, attributed.handed, attributed.flying,
            attributed.arrived, attributed.stolen, attributed.owed,
            attributed.mail⟩
      | @node i own next flying mail moved fewer less meant =>
          exact ⟨_, attributed.install (restart_node_reachable earlier i)
            moved fewer less meant⟩

/-! ## Results -/

/-- A result that is received is about a task of the incarnation that receives
it, or that incarnation has no entry with its id. -/
def NoticesCurrent (state : RestartState config) :
    RestartAction config → Prop
  | .result index _ =>
      match state.mail[index]? with
      | none => True
      | some ⟨i, notice⟩ =>
          notice.1 = (config.node i).nodeId ∨
            ∀ entry ∈ (state.nodes i).shared.outstanding,
              entry.task.taskId ≠ notice.2
  | _ => True

instance (state : RestartState config) (action : RestartAction config) :
    Decidable (NoticesCurrent state action) := by
  unfold NoticesCurrent
  split
  · split <;> infer_instance
  · infer_instance

/-- A result removes the entry with its id. -/
theorem taskId_of_result {config : NodeConfig}
    {state following : State config} {thread taskId : Nat}
    (moved : (node config).step state (.move thread (.result taskId)) =
      some following) {entry : Outstanding}
    (was : entry ∈ state.shared.outstanding)
    (removed : entry ∉ following.shared.outstanding) :
    entry.task.taskId = taskId := by
  cases step_stepped moved with
  | @move index acting move shared stack found _ _ stacked =>
      cases stacked with
      | begin empty begins =>
          unfold Role.begin at begins
          split at begins
          case h_3 same =>
            cases same
            split at begins
            · cases begins
              exact absurd was removed
            · rename_i index located
              obtain ⟨first, atIndex, result⟩ :=
                Option.map_eq_some_iff.mp begins
              cases result
              obtain ⟨place, atPlace⟩ := List.mem_iff_getElem?.mp was
              have here : place = index := by
                by_contra elsewhere
                exact removed (List.mem_eraseIdx_iff_getElem?.mpr
                  ⟨place, elsewhere, atPlace⟩)
              rw [here, atIndex] at atPlace
              cases atPlace
              obtain ⟨bound, matching, _⟩ :=
                List.findIdx?_eq_some_iff_getElem.mp located
              rw [List.getElem?_eq_getElem bound] at atIndex
              rw [Option.some.inj atIndex] at matching
              exact eq_of_beq matching
          all_goals
            simp_all

/-- What a result of this incarnation's task completes has been run by its
thief. -/
theorem Attributed.ranByThief {state : RestartState config}
    {logs : Logs config} (attributed : Attributed state logs)
    {i : Fin config.size}
    (reached : (node (config.node i)).Reachable (state.nodes i))
    {letter : Letter config} (inMail : letter ∈ state.mail)
    (ours : letter.notice.1 = (config.node i).nodeId) {entry : Outstanding}
    (member : entry ∈ (state.nodes i).shared.outstanding)
    (sameId : entry.task.taskId = letter.notice.2) :
    state.RanByThief i entry := by
  have tracked := State.mem_tokens_of_outstanding member
  have counted := (enrolled_of_reachable reached).counted _ tracked rfl
  have origin := ((shaped_of_reachable reached _ tracked).portable rfl).2
  obtain ⟨j, task, ⟨k, ofOrigin, noted, alsoCounted⟩, about, ran⟩ :=
    attributed.mail letter inMail
  have aboutId : task.taskId = letter.notice.2 := congrArg Prod.snd about
  have aboutNode : task.originNode = letter.notice.1 :=
    congrArg Prod.fst about
  obtain rfl : k = i := by
    apply config.distinct
    exact ofOrigin.symm.trans (aboutNode.trans ours)
  have sameTask : entry.task = task :=
    (enrolled_of_reachable reached).once _ _ counted alsoCounted
      (sameId.trans aboutId.symm)
  refine ⟨counted, origin, j, ?_, ?_⟩
  · rw [← sameTask] at noted
    exact (attributed.handed k).thief_unique noted
      ((attributed.handed k).entries entry member)
  · rw [sameTask]
    exact ran

/-- In every run in which no incarnation gets a result about a task of an
earlier one while it has an entry with the same id, a result removes only the
entry of a task that the thief of the entry has run. -/
theorem result_completes_its_task
    {state following : RestartState config}
    (reached : (restarts config).ReachableUnder NoticesCurrent state)
    {index thread : Nat}
    (current : NoticesCurrent state (.result index thread))
    (stepped : (restarts config).step state (.result index thread) =
      some following) {i : Fin config.size} {entry : Outstanding}
    (was : entry ∈ (state.nodes i).shared.outstanding)
    (removed : entry ∉ (following.nodes i).shared.outstanding) :
    state.RanByThief i entry := by
  obtain ⟨logs, attributed⟩ := attributed_of_reachable reached.reachable
  have ofNode := restart_node_reachable reached.reachable i
  simp only [restarts, RestartState.step] at stepped
  simp only [NoticesCurrent] at current
  split at stepped
  · cases stepped
  · rename_i receiver notice found
    rw [found] at current
    split at stepped
    · obtain ⟨next, moved, rfl⟩ := Option.map_eq_some_iff.mp stepped
      obtain rfl : i = receiver := by
        by_contra other
        rw [RestartState.install_of_ne other] at removed
        exact removed was
      rw [RestartState.install_self] at removed
      have sameId := taskId_of_result moved was removed
      rcases current with ours | noEntry
      · exact attributed.ranByThief ofNode (List.mem_of_getElem? found) ours
          was sameId
      · exact absurd sameId (noEntry entry was)
    · cases stepped

/-! ## A node with two lives -/

/-- Two incarnations of one node, and a thief between them. -/
def trioConfig : RestartConfig where
  size := 3
  node i := { soloConfig with nodeId := UInt32.ofNat (i.val + 1) }
  distinct := by
    have distinct : ∀ i j : Fin 3,
        UInt32.ofNat (i.val + 1) = UInt32.ofNat (j.val + 1) → i = j := by
      decide
    exact fun i j same => distinct i j same
  address i := if i = 1 then ("thief", 9001) else ("origin", 9000)

def firstLife : Fin trioConfig.size := (0 : Fin 3)

def robber : Fin trioConfig.size := (1 : Fin 3)

def secondLife : Fin trioConfig.size := (2 : Fin 3)

def trioStart : RestartState trioConfig where
  nodes i := State.fresh (trioConfig.node i)
  life _ := .waiting
  flying := []
  mail := []

theorem trioStart_initial : (restarts trioConfig).initial trioStart :=
  ⟨fun i => State.fresh_initial (trioConfig.node i), fun _ => rfl, rfl, rfl⟩

/-- Let an incarnation act on its own. -/
def trioActs (i : Fin trioConfig.size) (actions : List Action) :
    List (RestartAction trioConfig) :=
  actions.map (.act i)

/-- An incarnation submits a task, which gets the id 1, and hands it to the
thief. -/
def trioLend (i : Fin trioConfig.size) : List (RestartAction trioConfig) :=
  trioActs i (.move 1 (.call (.submitPortable 1 noStage 1)) ::
    advances 1 3 ++ .move 2 (.request ⟨2, 4, .generic⟩) :: advances 2 19)

/-- The thief takes the task in, over its link to the first incarnation, and
runs it. -/
def trioRun : List (RestartAction trioConfig) :=
  .reply 0 robber 4 1 ::
    trioActs robber (advances 4 6 ++ advances 0 5 ++
      [Action.move 0 .bodyEnds] ++
      advances 0 4)

/-- The thief sends the result. -/
def trioReport : List (RestartAction trioConfig) :=
  trioActs robber (.move 5 .drain :: advances 5 2)

/-- The origin hands a task to the thief, crashes when the thief has run it,
and starts again. -/
def trioRestart : List (RestartAction trioConfig) :=
  [.start firstLife, .start robber] ++ trioLend firstLife ++ trioRun ++
    [.crash firstLife, .start secondLife]

/-- The result is received before the second incarnation hands out a task. -/
def trioCurrent : List (RestartAction trioConfig) :=
  trioRestart ++ trioReport ++ [.result 0 2] ++ trioLend secondLife ++
    trioRun ++ trioReport

theorem result_completes_its_task_after_restart :
    ∃ state following entry,
      (restarts trioConfig).run trioStart trioCurrent = some state ∧
        (restarts trioConfig).step state (.result 0 2) = some following ∧
        (state.nodes secondLife).shared.outstanding = [entry] ∧
        (following.nodes secondLife).shared.outstanding = [] ∧
        state.RanByThief secondLife entry := by
  refine ⟨_, _, _, rfl, rfl, rfl, rfl, ?_⟩
  refine @result_completes_its_task trioConfig _ _ ?_ 0 2 ?_ rfl _ _ ?_ ?_
  · exact Machine.ReachableUnder.run trioCurrent (.start trioStart_initial)
      rfl (by decide +kernel)
  · decide +kernel
  · exact List.mem_cons_self
  · exact List.not_mem_nil

/-- The second incarnation hands its task 1 to the thief, and then the thief
sends the result of task 1 of the first incarnation. -/
def trioStale : List (RestartAction trioConfig) :=
  trioRestart ++ trioLend secondLife ++ trioReport

theorem result_completes_other_task :
    ∃ state following entry,
      (restarts trioConfig).Reachable state ∧
        (restarts trioConfig).step state (.result 0 2) = some following ∧
        entry ∈ (state.nodes secondLife).shared.outstanding ∧
        entry ∉ (following.nodes secondLife).shared.outstanding ∧
        ¬ state.RanByThief secondLife entry := by
  refine ⟨_, _, ⟨{
      taskId := 1
      originNode := 3
      type := .syntheticCompute
      payload := noStage }, 2, 0⟩,
    Machine.reachable_of_run trioStale trioStart_initial rfl, rfl,
    by decide +kernel, by decide +kernel, ?_⟩
  rintro ⟨_, _, j, isThief, ran⟩
  obtain rfl : j = robber := trioConfig.distinct isThief
  have performed := ran.performed (by decide +kernel)
  revert performed
  decide +kernel

end HydraRT.Cluster
