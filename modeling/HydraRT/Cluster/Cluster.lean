import HydraRT.Cluster.Shapes

/-!
# A cluster

Nodes that run side by side and exchange `StealResponse` and `TaskResult`
messages.  A response is received at most once, by any node and at any later
time, or never.  A result is received by the node it names, at any later time
and any number of times, or never.  Requests need no bookkeeping: the nodes
answer them whenever they come.

Every node of a cluster runs as the model of a single node does, so what holds
of all its runs holds in the cluster; the messages it gets are those that the
other nodes sent.
-/

namespace HydraRT.Cluster

open HydraRT.Lib

structure ClusterConfig where
  size : Nat
  node : Fin size → NodeConfig
  /-- The coordinator gives every node an id of its own. -/
  distinct : Function.Injective fun i => (node i).nodeId

variable {config : ClusterConfig}

structure ClusterState (config : ClusterConfig) where
  nodes : (i : Fin config.size) → State (config.node i)
  /-- The responses that nobody has received yet. -/
  flying : List Reply

inductive ClusterAction (config : ClusterConfig) where
  /-- A node acts on its own. -/
  | act (i : Fin config.size) (action : Action)
  /-- A response in flight reaches the steal thread of a node. -/
  | reply (index : Nat) (i : Fin config.size) (thread : Nat)
  /-- A result that `sender` has sent reaches a peer thread. -/
  | result (sender : Fin config.size) (index : Nat) (i : Fin config.size)
      (thread : Nat)
  deriving DecidableEq, Repr

/-- The action needs no message of another node. -/
def Action.isLocal : Action → Bool
  | .move _ (.reply ..) | .move _ (.result _) => false
  | _ => true

namespace ClusterState

/-- A node has taken a step; what it sent is in flight. -/
def install (state : ClusterState config) (i : Fin config.size)
    (next : State (config.node i)) (flying : List Reply) :
    ClusterState config where
  nodes := Function.update state.nodes i next
  flying := flying ++
    next.shared.replies.drop (state.nodes i).shared.replies.length

def step (state : ClusterState config) :
    ClusterAction config → Option (ClusterState config)
  | .act i action =>
      if action.isLocal then
        ((state.nodes i).step action).map fun next =>
          state.install i next state.flying
      else none
  | .reply index i thread =>
      match state.flying[index]? with
      | none => none
      | some reply =>
          ((state.nodes i).step
              (.move thread (.reply reply.victim reply.tasks))).map
            fun next => state.install i next (state.flying.eraseIdx index)
  | .result sender index i thread =>
      match (state.nodes sender).shared.results[index]? with
      | none => none
      | some notice =>
          if notice.1 = (config.node i).nodeId then
            ((state.nodes i).step (.move thread (.result notice.2))).map
              fun next => state.install i next state.flying
          else none

/-- The tasks of the responses in flight. -/
def flyingTasks (state : ClusterState config) : List Task :=
  state.flying.flatMap Reply.tasks

end ClusterState

/-- The runs of a cluster. -/
def cluster (config : ClusterConfig) :
    Machine (ClusterState config) (ClusterAction config) where
  initial state := (∀ i, (state.nodes i).Initial) ∧ state.flying = []
  step := ClusterState.step

/-! ## Events -/

namespace Event

/-- The tasks that leave the node with a response. -/
def sent : Event → List Task
  | .send reply => reply.tasks
  | _ => []

/-- The tasks that come in with a response. -/
def received : Event → List Task
  | .arrive tasks => tasks
  | _ => []

end Event

/-- The event describes the step that node `i` takes between the two states
of the cluster. -/
structure ClusterHappens (i : Fin config.size) (action : Action)
    (event : Event) (before after : ClusterState config) : Prop where
  stepped : (node (config.node i)).step (before.nodes i) action =
    some (after.nodes i)
  happens : Happens action event (before.nodes i) (after.nodes i)
  others : ∀ j, j ≠ i → after.nodes j = before.nodes j
  carried : Leaks before.flyingTasks after.flyingTasks event.received
    event.sent
  /-- A result that settles a task was sent by some node. -/
  resolved : ∀ task, event = .resolve task →
    ∃ sender, ((config.node i).nodeId, task.taskId) ∈
      (before.nodes sender).shared.results

/-- The sender of the result still has the notice on its books. -/
theorem ClusterHappens.owed {i : Fin config.size} {action : Action}
    {event : Event} {before after : ClusterState config} {task : Task}
    (happens : ClusterHappens i action event before after)
    (resolves : event = .resolve task) :
    ∃ sender, owedToken ((config.node i).nodeId, task.taskId) ∈
      (before.nodes sender).tokens := by
  obtain ⟨sender, sent⟩ := happens.resolved task resolves
  exact ⟨sender, State.owed_of_sent sent⟩

theorem Event.replies_enter (nodeConfig : NodeConfig) (event : Event)
    (books : Books) :
    ∃ new, (event.enter nodeConfig books).replies = books.replies ++ new ∧
      new.flatMap Reply.tasks = event.sent := by
  cases event with
  | send reply => exact ⟨[reply], rfl, by simp [Event.sent]⟩
  | _ => exact ⟨[], (List.append_nil _).symm, rfl⟩

section Install

variable {state : ClusterState config} {i : Fin config.size}
  {next : State (config.node i)} {action : Action} {event : Event}
  {flying : List Reply}

/-- Stepping one node of the cluster. -/
theorem Happens.install
    (stepped : (node (config.node i)).step (state.nodes i) action = some next)
    (happens : Happens action event (state.nodes i) next)
    (received : ∀ weigh, total weigh (flying.flatMap Reply.tasks) +
      total weigh event.received ≤ total weigh state.flyingTasks)
    (resolved : ∀ task, event = .resolve task →
      ∃ sender, ((config.node i).nodeId, task.taskId) ∈
        (state.nodes sender).shared.results) :
    ClusterHappens i action event state (state.install i next flying) where
  stepped := by
    simpa [ClusterState.install] using stepped
  happens := by
    simpa [ClusterState.install] using happens
  others j different := by
    simp [ClusterState.install, different]
  carried := by
    intro weigh
    obtain ⟨new, grown, tasks⟩ :=
      Event.replies_enter (config.node i) event (state.nodes i).shared.books
    have replies : next.shared.replies =
        (state.nodes i).shared.replies ++ new :=
      (congrArg Books.replies happens.books).trans grown
    have bound := received weigh
    simp only [ClusterState.install, ClusterState.flyingTasks, replies,
      List.drop_left, List.flatMap_append, tasks, total_append] at bound ⊢
    omega
  resolved := resolved

end Install

/-- No application in the cluster forges a stage. -/
def ClusterAction.Honest : ClusterAction config → Prop
  | .act _ action => action.Honest
  | _ => True

instance (action : ClusterAction config) : Decidable action.Honest := by
  unfold ClusterAction.Honest
  split <;> infer_instance

/-- Every step of a cluster is an event of one of its nodes. -/
theorem cluster_step_happens {state following : ClusterState config}
    {action : ClusterAction config}
    (stepped : (cluster config).step state action = some following) :
    ∃ i own event, ClusterHappens i own event state following ∧
      (action = .act i own ∨ own.isLocal = false) := by
  cases action with
  | act i action =>
      simp only [cluster, ClusterState.step] at stepped
      split at stepped
      · rename_i isLocal
        obtain ⟨next, moved, rfl⟩ := Option.map_eq_some_iff.mp stepped
        obtain ⟨event, happens⟩ := step_happens moved
        refine ⟨i, action, event, happens.install moved ?_ ?_, .inl rfl⟩
        · intro weigh
          cases event with
          | arrive tasks =>
              obtain ⟨thread, link, rfl⟩ := happens.caused
              cases isLocal
          | _ => exact Nat.le_refl _
        · rintro task rfl
          obtain ⟨thread, rfl⟩ := happens.caused
          cases isLocal
      · cases stepped
  | reply index i thread =>
      simp only [cluster, ClusterState.step] at stepped
      split at stepped
      · cases stepped
      · rename_i reply found
        obtain ⟨next, moved, rfl⟩ := Option.map_eq_some_iff.mp stepped
        have ofNode : (node (config.node i)).step (state.nodes i)
            (.move thread (.reply reply.victim reply.tasks)) = some next :=
          moved
        obtain ⟨event, happens⟩ := step_happens ofNode
        refine ⟨i, _, event, happens.install ofNode ?_ ?_, .inr rfl⟩
        · intro weigh
          have erased := total_eraseIdx
            (fun reply : Reply => total weigh reply.tasks) found
          simp only [ClusterState.flyingTasks, total_flatMap]
          cases event with
          | arrive tasks =>
              obtain ⟨_, _, same⟩ := happens.caused
              cases same
              simp only [Event.received]
              omega
          | _ =>
              simp only [Event.received, total_nil]
              omega
        · rintro task rfl
          obtain ⟨_, same⟩ := happens.caused
          cases same
  | result sender index i thread =>
      simp only [cluster, ClusterState.step] at stepped
      split at stepped
      · cases stepped
      · rename_i notice found
        split at stepped
        · rename_i addressed
          obtain ⟨next, moved, rfl⟩ := Option.map_eq_some_iff.mp stepped
          have ofNode : (node (config.node i)).step (state.nodes i)
              (.move thread (.result notice.2)) = some next := moved
          obtain ⟨event, happens⟩ := step_happens ofNode
          refine ⟨i, _, event, happens.install ofNode ?_ ?_, .inr rfl⟩
          · intro weigh
            cases event with
            | arrive tasks =>
                obtain ⟨_, _, same⟩ := happens.caused
                cases same
            | _ => exact Nat.le_refl _
          · rintro task rfl
            obtain ⟨_, same⟩ := happens.caused
            injection same with _ sameMove
            injection sameMove with sameId
            refine ⟨sender, ?_⟩
            rw [← addressed, ← sameId]
            exact List.mem_of_getElem? found
        · cases stepped

/-! ## Nodes of a cluster -/

/-- Runs in which no application forges a stage. -/
def HonestCluster (_ : ClusterState config) (action : ClusterAction config) :
    Prop :=
  action.Honest

instance (state : ClusterState config) (action : ClusterAction config) :
    Decidable (HonestCluster state action) :=
  inferInstanceAs (Decidable action.Honest)

/-- A node of a cluster runs as it would alone: what is asked of the actions
its own threads choose is asked of the node. -/
theorem node_reachable_under {allowed : Action → Prop}
    {guard : ClusterState config → ClusterAction config → Prop}
    (ofOwn : ∀ state i own, guard state (.act i own) → allowed own)
    (ofMessage : ∀ own, own.isLocal = false → allowed own)
    {state : ClusterState config}
    (reached : (cluster config).ReachableUnder guard state)
    (i : Fin config.size) :
    (node (config.node i)).ReachableUnder (fun _ own => allowed own)
      (state.nodes i) := by
  refine reached.seen (·.nodes i) (fun _ isInitial => isInitial.1 i) ?_
  intro before action after guarded stepped
  obtain ⟨mover, own, event, happens, origin⟩ := cluster_step_happens stepped
  by_cases same : i = mover
  · subst same
    refine .inr ⟨own, ?_, happens.stepped⟩
    rcases origin with rfl | isMessage
    · exact ofOwn _ _ own guarded
    · exact ofMessage own isMessage
  · exact .inl (happens.others i same)

theorem node_reachable {state : ClusterState config}
    (reached : (cluster config).Reachable state) (i : Fin config.size) :
    (node (config.node i)).Reachable (state.nodes i) :=
  node_reachable_under (fun _ _ _ _ => trivial) (fun _ _ => trivial)
    reached i

/-- A message calls no submit function. -/
theorem Action.Honest.of_message {own : Action} (isMessage : own.isLocal = false) :
    own.Honest := by
  unfold Action.isLocal at isMessage
  split at isMessage
  · trivial
  · trivial
  · cases isMessage

theorem node_reachable_honest {state : ClusterState config}
    (reached : (cluster config).ReachableUnder HonestCluster state)
    (i : Fin config.size) :
    (node (config.node i)).ReachableUnder Honest (state.nodes i) :=
  node_reachable_under (fun _ _ _ honest => honest)
    (fun _ isMessage => .of_message isMessage) reached i

/-- What every event of a guarded run keeps holds throughout the run. -/
theorem invariant_of_cluster_events
    {guard : ClusterState config → ClusterAction config → Prop}
    (Invariant : ClusterState config → Prop)
    (holdsInitially : ∀ state, (cluster config).initial state →
      Invariant state)
    (isKept : ∀ {state following : ClusterState config}
      {i : Fin config.size} {action : Action} {event : Event},
      (cluster config).ReachableUnder guard state → Invariant state →
        ClusterHappens i action event state following → Invariant following)
    {state : ClusterState config}
    (reached : (cluster config).ReachableUnder guard state) :
    Invariant state := by
  induction reached with
  | start isInitial => exact holdsInitially _ isInitial
  | next earlier _ stepped inductionHypothesis =>
      obtain ⟨i, own, event, happens, _⟩ := cluster_step_happens stepped
      exact isKept earlier inductionHypothesis happens

/-! ## A small cluster -/

/-- Two nodes, with ids 1 and 2. -/
def duoConfig : ClusterConfig where
  size := 2
  node i := { soloConfig with nodeId := if i = 0 then 1 else 2 }
  distinct := by
    have distinct : ∀ i j : Fin 2,
        (if i = 0 then (1 : NodeId) else 2) = (if j = 0 then 1 else 2) →
          i = j := by
      decide
    exact fun i j same => distinct i j same

/-- The two nodes by name. -/
def origin : Fin duoConfig.size := (0 : Fin 2)

def thief : Fin duoConfig.size := (1 : Fin 2)

def duoStart : ClusterState duoConfig where
  nodes i := State.fresh (duoConfig.node i)
  flying := []

theorem duoStart_initial : (cluster duoConfig).initial duoStart :=
  ⟨fun i => State.fresh_initial (duoConfig.node i), rfl⟩

/-- Let a node of the small cluster act on its own. -/
def acts (i : Fin duoConfig.size) (actions : List Action) :
    List (ClusterAction duoConfig) :=
  actions.map (.act i)

/-- The first node answers a request for tasks with the only one it has, and
the second node takes it in. -/
def duoSteal : List (ClusterAction duoConfig) :=
  acts origin (.move 2 (.request ⟨2, 4, .generic⟩) :: advances 2 19) ++
    [.reply 0 thief 4] ++ acts thief (advances 4 6)

end HydraRT.Cluster
