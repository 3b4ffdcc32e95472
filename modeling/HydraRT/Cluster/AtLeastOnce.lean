import HydraRT.Cluster.Coverage

/-!
# At least once, and once if never reaped

How often a task can still run is bounded by its *chances*: the runs on
record, the task itself before its body ran, the copies on their way to a
thief and the closures built from them, and the closures of the reaper.  An id
starts with one chance, and only the reaper adds to them.
-/

namespace HydraRT.Cluster

open HydraRT.Lib

/-! ## Chances -/

/-- The task of this id has not run as what it is. -/
def Place.isAhead : Place → Bool
  | .numbered .. | .counted .. | .queued _ | .executing => true
  | _ => false

/-- A copy of a task of its origin. -/
def Place.isCopy : Place → Bool
  | .copied | .arrived => true
  | _ => false

/-- One for an entry that records a run of the task. -/
def Entry.isRun (origin : NodeId) (taskId : Nat) : Entry → Bool
  | .ran other id _ => other == origin && id == taskId
  | _ => false

/-- The number of runs of a task that a history records. -/
def runsIn (origin : NodeId) (taskId : Nat) (history : List Entry) : Nat :=
  history.countP (Entry.isRun origin taskId)

/-- One for a closure of node `self` that runs the task. -/
def closureChance (self origin : NodeId) (taskId : Nat) :
    Option Closure → Nat
  | some (.stolen _ _ other id) => if other = origin ∧ id = taskId then 1 else 0
  | some (.rerun _ _ lost) => if self = origin ∧ lost = taskId then 1 else 0
  | _ => 0

@[simp]
theorem closureChance_none (self origin : NodeId) (taskId : Nat) :
    closureChance self origin taskId none = 0 := rfl

/-- One for a copy of the task. -/
def copyChance (origin : NodeId) (taskId : Nat) (task : Task) : Nat :=
  if task.originNode = origin ∧ task.taskId = taskId then 1 else 0

/-- One for the task itself on its node `self`. -/
def ownChance (self origin : NodeId) (taskId : Nat) (task : Task) : Nat :=
  if self = origin ∧ task.taskId = taskId then 1 else 0

/-- How often a token may make the task run. -/
def chance (self origin : NodeId) (taskId : Nat) (token : Token) : Nat :=
  (if token.place.isAhead then ownChance self origin taskId token.task
    else 0) +
    (if token.place.isUnrun then
      closureChance self origin taskId token.task.fn else 0) +
    (if token.place.isCopy then copyChance origin taskId token.task else 0)

theorem chance_mk (self origin : NodeId) (taskId : Nat) (place : Place)
    (task : Task) :
    chance self origin taskId ⟨place, task⟩ =
      (if place.isAhead then ownChance self origin taskId task else 0) +
        (if place.isUnrun then closureChance self origin taskId task.fn
          else 0) +
        (if place.isCopy then copyChance origin taskId task else 0) := rfl

section Node

variable {config : NodeConfig} {state following : State config}
  {action : Action} {event : Event} (origin : NodeId) (taskId : Nat)

/-- The end of a body uses up the chances of its task. -/
theorem runsIn_performs_le (config : NodeConfig) (origin : NodeId)
    (taskId : Nat) (task : Task) :
    runsIn origin taskId (performs config task) ≤
      ownChance config.nodeId origin taskId task +
        closureChance config.nodeId origin taskId task.fn := by
  unfold performs
  split
  · exact Nat.zero_le _
  · generalize task.fn = fn
    unfold runsIn ownChance
    rw [List.countP_cons]
    have rest : ∀ work,
        (if Entry.isRun origin taskId
            (.ran config.nodeId task.taskId work) = true then 1 else 0) =
          if config.nodeId = origin ∧ task.taskId = taskId then 1 else 0 := by
      intro work
      simp [Entry.isRun]
    rw [rest]
    split <;>
      simp [Entry.isRun, closureChance, List.countP_cons, Nat.add_comm]

/-- The chances that an event adds. -/
def Event.luck (config : NodeConfig) (books : Books) (origin : NodeId)
    (taskId : Nat) : Event → Nat
  | .number .. =>
      if config.nodeId = origin ∧ books.nextId = taskId then 1 else 0
  | .resubmit lost => ownChance config.nodeId origin taskId lost
  | _ => 0

/-- The chances that the end of a body uses up. -/
def Event.spent (config : NodeConfig) (origin : NodeId) (taskId : Nat) :
    Event → Nat
  | .ran task =>
      ownChance config.nodeId origin taskId task +
        closureChance config.nodeId origin taskId task.fn
  | _ => 0

/-- Events hand chances on.  Only luck adds to them. -/
theorem Happens.chance_le
    (shaped : ∀ token ∈ state.tokens, token.Shaped config)
    (happens : Happens action event state following) :
    total (chance config.nodeId origin taskId) following.tokens +
        event.spent config origin taskId +
        total (copyChance origin taskId) event.sent ≤
      total (chance config.nodeId origin taskId) state.tokens +
        total (copyChance origin taskId) event.received +
        event.luck config state.shared.books origin taskId := by
  have equation := happens.moves (chance config.nodeId origin taskId)
  cases event with
  | ran task =>
      simp [Event.removed, Event.added, chance_mk, Place.isAhead,
        Place.isUnrun, Place.isCopy, owedToken] at equation
      simp only [Event.sent, Event.received, Event.luck, Event.spent,
        total_nil]
      omega
  | send reply =>
      simp [Event.removed, Event.added, chance_mk, Place.isAhead,
        Place.isUnrun, Place.isCopy] at equation
      change _ + total (copyChance origin taskId) reply.tasks = _ at equation
      simp only [Event.sent, Event.received, Event.luck, Event.spent,
        total_nil]
      omega
  | arrive tasks =>
      simp [Event.removed, Event.added, chance_mk, Place.isAhead,
        Place.isUnrun, Place.isCopy] at equation
      change _ = _ + total (copyChance origin taskId) tasks at equation
      simp only [Event.sent, Event.received, Event.luck, Event.spent,
        total_nil]
      omega
  | take task =>
      -- the copy belongs to this node
      have held := happens.held (List.mem_singleton_self _)
      obtain ⟨noClosure, isOrigin⟩ :
          task.fn = none ∧ task.originNode = config.nodeId :=
        (shaped _ held).portable rfl
      simp [Event.removed, Event.added, chance_mk, Place.isAhead,
        Place.isUnrun, Place.isCopy, noClosure, ownChance, copyChance,
        isOrigin] at equation
      simp only [Event.sent, Event.received, Event.luck, Event.spent,
        total_nil]
      omega
  | start portable task =>
      obtain ⟨closure, _⟩ := happens.allowed
      have noChance : closureChance config.nodeId origin taskId task.fn =
          0 := by
        rcases closure with none | ⟨body, isUser⟩
        · rw [none]
          rfl
        · rw [isUser]
          rfl
      simp [Event.removed, Event.added, chance_mk, Place.isAhead,
        Place.isUnrun, Place.isCopy, noChance] at equation
      simp only [Event.sent, Event.received, Event.luck, Event.spent,
        total_nil]
      omega
  | number site portable task =>
      simp [Event.removed, Event.added, chance_mk, Place.isAhead,
        Place.isUnrun, Place.isCopy, ownChance] at equation
      simp only [Event.sent, Event.received, Event.luck, Event.spent,
        total_nil, Shared.books]
      simp only [Shared.books] at equation
      omega
  | resubmit lost =>
      simp [Event.removed, Event.added, chance_mk, Place.isAhead,
        Place.isUnrun, Place.isCopy, Task.rerun, closureChance] at equation
      simp only [Event.sent, Event.received, Event.luck, Event.spent,
        total_nil, ownChance]
      omega
  | wrap task =>
      simp [Event.removed, Event.added, chance_mk, Place.isAhead,
        Place.isUnrun, Place.isCopy, Task.stolenFrom, closureChance,
        copyChance] at equation
      simp only [Event.sent, Event.received, Event.luck, Event.spent,
        total_nil]
      omega
  | _ =>
      simp [Event.removed, Event.added, chance_mk, Place.isAhead,
        Place.isUnrun, Place.isCopy, recordingToken, owedToken,
        preparingToken] at equation
      simp only [Event.sent, Event.received, Event.luck, Event.spent,
        total_nil]
      omega

/-- The runs on record are paid for with chances. -/
theorem Event.runsIn_enter_le (books : Books) :
    runsIn origin taskId (event.enter config books).history ≤
      runsIn origin taskId books.history +
        event.spent config origin taskId := by
  cases event with
  | ran task =>
      have bound := runsIn_performs_le config origin taskId task
      have history : runsIn origin taskId
          ((Event.ran task).enter config books).history =
          runsIn origin taskId books.history +
            runsIn origin taskId (performs config task) := by
        simp [Event.enter, Books.remember, runsIn, Entry.isRun]
      rw [history]
      simp only [Event.spent]
      omega
  | reap lost =>
      simp only [Event.enter, Books.remember, runsIn, List.countP_append,
        List.countP_map]
      simp [Entry.isRun, Function.comp_def]
  | _ =>
      simp [Event.enter, Books.remember, runsIn, Entry.isRun]

end Node

/-! ## Chances in a cluster -/

variable {config : ClusterConfig}

namespace ClusterState

/-- The chances that a node holds. -/
def share (state : ClusterState config) (origin : NodeId) (taskId : Nat)
    (i : Fin config.size) : Nat :=
  total (chance (config.node i).nodeId origin taskId)
      (state.nodes i).tokens +
    runsIn origin taskId (state.nodes i).shared.history

/-- All chances of a task. -/
def chances (state : ClusterState config) (origin : NodeId)
    (taskId : Nat) : Nat :=
  total (state.share origin taskId) (List.finRange config.size) +
    total (copyChance origin taskId) state.flyingTasks

/-- How often a task has run, anywhere in the cluster. -/
def runs (state : ClusterState config) (origin : NodeId)
    (taskId : Nat) : Nat :=
  total (fun i => runsIn origin taskId (state.nodes i).shared.history)
    (List.finRange config.size)

theorem runs_le_chances (state : ClusterState config) (origin : NodeId)
    (taskId : Nat) :
    state.runs origin taskId ≤ state.chances origin taskId := by
  refine Nat.le_trans (total_le_total ?_) (Nat.le_add_right _ _)
  intro i _
  exact Nat.le_add_left _ _

theorem one_le_runs {state : ClusterState config} {origin : NodeId}
    {taskId : Nat} {work : Work} (did : state.Did origin taskId work) :
    1 ≤ state.runs origin taskId := by
  obtain ⟨i, ran⟩ := did
  refine Nat.le_trans ?_ (le_total_of_mem (List.mem_finRange i))
  exact List.countP_pos_iff.mpr ⟨_, ran, by simp [Entry.isRun]⟩

end ClusterState

section Kept

variable {before after : ClusterState config} {i : Fin config.size}
  {action : Action} {event : Event}

theorem ClusterHappens.chances_le
    (reached : (cluster config).Reachable before)
    (happens : ClusterHappens i action event before after)
    (origin : NodeId) (taskId : Nat) :
    after.chances origin taskId ≤ before.chances origin taskId +
      event.luck (config.node i) (before.nodes i).shared.books origin
        taskId := by
  have ofNode := happens.happens.chance_le origin taskId
    (shaped_of_reachable (node_reachable reached i))
  have entered := @Event.runsIn_enter_le (config.node i) event origin taskId
    (before.nodes i).shared.books
  have carried := happens.carried (copyChance origin taskId)
  have replaced := total_replace (after.share origin taskId)
    (before.share origin taskId) (List.nodup_finRange _)
    (List.mem_finRange i) ?_
  · rw [← happens.happens.books, Shared.books_history,
      Shared.books_history] at entered
    unfold ClusterState.chances
    unfold ClusterState.share at replaced ⊢
    omega
  · intro j different
    unfold ClusterState.share
    rw [happens.others j different]

/-- The chances of the tasks of a node. -/
structure Limited (state : ClusterState config) (i : Fin config.size)
    (taskId : Nat) : Prop where
  unborn : (state.nodes i).shared.nextId ≤ taskId →
    state.chances (config.node i).nodeId taskId = 0
  once : .reaped taskId ∉ (state.nodes i).shared.history →
    state.chances (config.node i).nodeId taskId ≤ 1

/-- Something that grows by luck only, while it is nothing before the id is
given and at most one as long as the task is not reaped. -/
theorem ClusterHappens.limit_kept
    (reached : (cluster config).Reachable before)
    (happens : ClusterHappens i action event before after)
    {j : Fin config.size} {taskId old new : Nat}
    (bound : new ≤ old + event.luck (config.node i)
      (before.nodes i).shared.books (config.node j).nodeId taskId)
    (unborn : (before.nodes j).shared.nextId ≤ taskId → old = 0)
    (once : .reaped taskId ∉ (before.nodes j).shared.history → old ≤ 1) :
    ((after.nodes j).shared.nextId ≤ taskId → new = 0) ∧
      (.reaped taskId ∉ (after.nodes j).shared.history → new ≤ 1) := by
  have nextGrows : (before.nodes j).shared.nextId ≤
      (after.nodes j).shared.nextId := by
    by_cases same : j = i
    · subst same
      have books := congrArg Books.nextId happens.happens.books
      change (after.nodes j).shared.nextId = _ at books
      rw [books]
      exact Event.nextId_le_enter event (before.nodes j).shared.books
    · rw [happens.others j same]
  have stays : .reaped taskId ∉ (after.nodes j).shared.history →
      .reaped taskId ∉ (before.nodes j).shared.history :=
    fun notReaped reaped => notReaped (happens.history_grows j reaped)
  have unlucky :
      event.luck (config.node i) (before.nodes i).shared.books
          (config.node j).nodeId taskId = 0 →
        ((after.nodes j).shared.nextId ≤ taskId → new = 0) ∧
          (.reaped taskId ∉ (after.nodes j).shared.history → new ≤ 1) := by
    intro noLuck
    refine ⟨fun late => ?_, fun notReaped => ?_⟩
    · have zero := unborn (Nat.le_trans nextGrows late)
      omega
    · have one := once (stays notReaped)
      omega
  cases event with
  | number site portable task =>
      by_cases isNext : (config.node i).nodeId = (config.node j).nodeId ∧
          (before.nodes i).shared.nextId = taskId
      · obtain ⟨sameNode, rfl⟩ := isNext
        obtain rfl := config.distinct sameNode
        have zero := unborn (Nat.le_refl _)
        have lucky : (Event.number site portable task).luck (config.node i)
            (before.nodes i).shared.books (config.node i).nodeId
            (before.nodes i).shared.nextId = 1 := if_pos ⟨rfl, rfl⟩
        refine ⟨fun late => ?_, fun _ => ?_⟩
        · have books := congrArg Books.nextId happens.happens.books
          change (after.nodes i).shared.nextId =
            (before.nodes i).shared.nextId + 1 at books
          omega
        · omega
      · exact unlucky (if_neg isNext)
  | resubmit lost =>
      by_cases isLost : (config.node i).nodeId = (config.node j).nodeId ∧
          lost.taskId = taskId
      · obtain ⟨sameNode, rfl⟩ := isLost
        obtain rfl := config.distinct sameNode
        have held := happens.happens.held (List.mem_singleton_self _)
        have ofNode := node_reachable reached i
        refine ⟨fun late => ?_, fun notReaped => ?_⟩
        · have bears :
              1 ≤ total (bearing lost.taskId) (before.nodes i).tokens := by
            refine Nat.le_trans ?_ (le_total_of_mem held)
            simp [bearing_mk, Place.bearsId]
          have none := (balanced_of_reachable ofNode).known lost.taskId
            (Nat.le_trans nextGrows late)
          omega
        · exact absurd ((enrolled_of_reachable ofNode).reaped lost held)
            (stays notReaped)
      · exact unlucky (if_neg isLost)
  | _ => exact unlucky rfl

theorem Limited.kept (reached : (cluster config).Reachable before)
    (happens : ClusterHappens i action event before after)
    {j : Fin config.size} {taskId : Nat}
    (limited : Limited before j taskId) : Limited after j taskId := by
  have bound := happens.chances_le reached (config.node j).nodeId taskId
  obtain ⟨unborn, once⟩ :=
    happens.limit_kept reached bound limited.unborn limited.once
  exact ⟨unborn, once⟩

theorem limited_of_reachable {state : ClusterState config}
    (reached : (cluster config).Reachable state) (j : Fin config.size)
    (taskId : Nat) : Limited state j taskId := by
  refine invariant_of_cluster_events (fun state => Limited state j taskId)
    ?_ ?_ reached
  · intro state isInitial
    have none : state.chances (config.node j).nodeId taskId = 0 := by
      unfold ClusterState.chances ClusterState.flyingTasks
      rw [isInitial.2]
      refine (Nat.add_zero _).trans (total_eq_zero.mpr fun i _ => ?_)
      unfold ClusterState.share
      rw [State.Initial.tokens (isInitial.1 i), (isInitial.1 i).shared]
      rfl
    exact ⟨fun _ => none, fun _ => Nat.le_trans (Nat.le_of_eq none)
      (Nat.zero_le 1)⟩
  · intro before after i action event reached limited happens
    exact limited.kept reached happens

end Kept

/-- In every state in which the counters of a node agree, every task ever
submitted to its runtime has been run to completion by some node, and a task
that was never reaped has been run exactly once. -/
theorem at_least_once {state : ClusterState config}
    (reached : (cluster config).Reachable state)
    (registered : state.Registered) (i : Fin config.size)
    (balanced : (state.nodes i).shared.completed =
      (state.nodes i).shared.submitted) :
    ∀ task, .counted task ∈ (state.nodes i).shared.history →
      state.Did (config.node i).nodeId task.taskId task.work ∧
        (.reaped task.taskId ∉ (state.nodes i).shared.history →
          state.runs (config.node i).nodeId task.taskId = 1) := by
  intro task counted
  have did := did_of_balanced reached registered balanced counted
  refine ⟨did, fun notReaped => Nat.le_antisymm ?_ ?_⟩
  · exact Nat.le_trans (state.runs_le_chances _ _)
      ((limited_of_reachable reached i task.taskId).once notReaped)
  · exact ClusterState.one_le_runs did

/-- A task is stolen, run by the thief and settled by its result. -/
def duoRoundTrip : List (ClusterAction duoConfig) :=
  acts origin (.move 1 (.call (.submitPortable 1 noStage 1)) ::
      advances 1 3) ++ duoSteal ++
    acts thief (advances 0 5 ++ [Action.move 0 .bodyEnds] ++ advances 0 4 ++
      [Action.move 5 .drain] ++ advances 5 2) ++
    [.result thief 0 origin 2] ++ acts origin (advances 2 2)

theorem at_least_once_round_trip :
    ∃ state, (cluster duoConfig).run duoStart duoRoundTrip = some state ∧
      (state.nodes origin).shared.submitted = 1 ∧
      ∀ task, .counted task ∈ (state.nodes origin).shared.history →
        state.Did 1 task.taskId task.work ∧
          (.reaped task.taskId ∉ (state.nodes origin).shared.history →
            state.runs 1 task.taskId = 1) := by
  refine ⟨_, rfl, by decide, at_least_once
    (Machine.reachable_of_run duoRoundTrip duoStart_initial rfl) ?_ origin
    (by decide)⟩
  unfold ClusterState.Registered
  decide

end HydraRT.Cluster
