import HydraRT.Cluster.Cluster
import HydraRT.Cluster.History

/-!
# Who is responsible for a task

In every state of a cluster somebody answers for every task that was counted:
it has run somewhere, or it is on its way at its node, or a closure that runs
it again is.  The messages are honest: what travels is a copy of a task of its
origin, and a result is sent only for a task whose handler was called.
-/

namespace HydraRT.Cluster

open HydraRT.Inference
open HydraRT.Lib

variable {config : ClusterConfig}

/-! ## What happened so far -/

/-- The node with the id `origin` counted this portable task. -/
def ClusterState.Names (state : ClusterState config) (origin : NodeId)
    (taskId : Nat) (type : TaskType) (payload : Payload) : Prop :=
  ∃ i, (config.node i).nodeId = origin ∧
    Cluster.Names (state.nodes i).shared.history taskId type payload

/-- Some node has run the work of this task to completion. -/
def ClusterState.Did (state : ClusterState config) (origin : NodeId)
    (taskId : Nat) (work : Work) : Prop :=
  ∃ i, .ran origin taskId work ∈ (state.nodes i).shared.history

section Grows

variable {before after : ClusterState config} {i : Fin config.size}
  {action : Action} {event : Event}

theorem ClusterHappens.history_grows
    (happens : ClusterHappens i action event before after)
    (j : Fin config.size) {entry : Entry}
    (member : entry ∈ (before.nodes j).shared.history) :
    entry ∈ (after.nodes j).shared.history := by
  by_cases same : j = i
  · subst same
    have grown := Event.mem_history_enter (config.node j) event
      (before.nodes j).shared.books member
    rw [← happens.happens.books] at grown
    exact grown
  · rw [happens.others j same]
    exact member

theorem ClusterState.Names.mono {origin : NodeId} {taskId : Nat}
    {type : TaskType} {payload : Payload}
    (names : before.Names origin taskId type payload)
    (happens : ClusterHappens i action event before after) :
    after.Names origin taskId type payload := by
  obtain ⟨j, isOrigin, ofNode⟩ := names
  exact ⟨j, isOrigin, ofNode.mono fun _ => happens.history_grows j⟩

theorem ClusterState.Did.mono {origin : NodeId} {taskId : Nat} {work : Work}
    (did : before.Did origin taskId work)
    (happens : ClusterHappens i action event before after) :
    after.Did origin taskId work := by
  obtain ⟨j, ran⟩ := did
  exact ⟨j, happens.history_grows j ran⟩

/-- A token of the acting node was there or is new; the other nodes keep
theirs. -/
theorem ClusterHappens.mem_tokens
    (happens : ClusterHappens i action event before after)
    {j : Fin config.size} {token : Token}
    (member : token ∈ (after.nodes j).tokens) :
    token ∈ (before.nodes j).tokens ∨
      j = i ∧
        token ∈ event.added (config.node i) (before.nodes i).shared.books := by
  by_cases same : j = i
  · subst same
    rcases happens.happens.moves.mem member with old | isAdded
    · exact .inl old
    · exact .inr ⟨rfl, isAdded⟩
  · rw [happens.others j same] at member
    exact .inl member

end Grows

/-! ## Honest messages -/

/-- What travels between nodes, and what stolen closures and results speak of,
are tasks of their origins. -/
structure Faithful (state : ClusterState config) : Prop where
  flying : ∀ task ∈ state.flyingTasks,
    state.Names task.originNode task.taskId task.type task.payload
  arrived : ∀ i task, ⟨.arrived, task⟩ ∈ (state.nodes i).tokens →
    state.Names task.originNode task.taskId task.type task.payload
  stolen : ∀ i, ∀ token ∈ (state.nodes i).tokens, token.place ≠ .arrived →
    ∀ type payload origin taskId,
      token.task.fn = some (.stolen type payload origin taskId) →
        state.Names origin taskId type payload
  /-- A notice is owed for a task whose handler was called, if there is
  one. -/
  owed : ∀ i origin taskId,
    owedToken (origin, taskId) ∈ (state.nodes i).tokens →
      ∃ type payload, state.Names origin taskId type payload ∧
        ((config.node i).handlers.run type ≠ none →
          .ran origin taskId (.handler type payload) ∈
            (state.nodes i).shared.history)

section Added

variable {nodeConfig : NodeConfig} {state following : State nodeConfig}
  {action : Action} {event : Event}

/-- A closure around a stolen task comes from the steal thread. -/
theorem Happens.stolen_added
    (happens : Happens action event state following) {token : Token}
    (isAdded : token ∈ event.added nodeConfig state.shared.books)
    (inside : token.place ≠ .arrived) {type : TaskType} {payload : Payload}
    {origin : NodeId} {taskId : Nat}
    (closure : token.task.fn =
      some (.stolen type payload origin taskId)) :
    (∃ old ∈ event.removed nodeConfig, old.place ≠ .arrived ∧
        old.task.fn = some (.stolen type payload origin taskId)) ∨
      ∃ remote, event = .wrap remote ∧ token.task = remote.stolenFrom := by
  cases Event.yields_of_added isAdded with
  | moved isRemoved leads =>
      exact .inl ⟨_, isRemoved, leads.inside, closure⟩
  | start portable task =>
      obtain ⟨body, isUser⟩ := happens.allowed.user closure
      cases isUser
  | number site portable task | count site portable task
  | serve task | copy task | advance cause task p next =>
      exact .inl ⟨_, List.mem_singleton_self _, Place.noConfusion, closure⟩
  | wrap remote =>
      exact .inr ⟨remote, rfl, rfl⟩
  | arrive tasks task inTasks =>
      exact absurd rfl inside
  | _ => cases closure

theorem Event.arrived_added {books : Books} {task : Task}
    (isAdded : ⟨.arrived, task⟩ ∈ event.added nodeConfig books) :
    task ∈ event.received := by
  cases Event.yields_of_added isAdded with
  | moved _ leads => cases leads
  | arrive tasks task inTasks => exact inTasks

/-- A notice is owed when a stolen closure ends. -/
theorem Event.owed_added {books : Books} {notice : NodeId × Nat}
    (isAdded : owedToken notice ∈ event.added nodeConfig books) :
    ∃ task type payload, event = .ran task ∧
      task.fn = some (.stolen type payload notice.1 notice.2) := by
  generalize owed : owedToken notice = token at isAdded
  cases Event.yields_of_added isAdded with
  | owe task other owes =>
      obtain rfl : notice = other := by
        simp only [owedToken, Token.mk.injEq, Task.mk.injEq] at owed
        exact Prod.ext owed.2.2.2.1 owed.2.1
      unfold Event.notices at owes
      split at owes
      · rename_i type payload origin taskId closure
        obtain rfl := List.mem_singleton.mp owes
        exact ⟨task, type, payload, rfl, closure⟩
      · cases owes
  | moved _ leads => cases leads <;> cases owed
  | _ => cases owed

end Added

section Kept

variable {before after : ClusterState config} {i : Fin config.size}
  {action : Action} {event : Event}

/-- What a stolen closure does when its body ends. -/
theorem performs_stolen {nodeConfig : NodeConfig} {task : Task}
    {type : TaskType} {payload : Payload} {origin : NodeId} {taskId : Nat}
    (closure : task.fn = some (.stolen type payload origin taskId))
    (hasHandler : nodeConfig.handlers.run type ≠ none) :
    .ran origin taskId (.handler type payload) ∈
      performs nodeConfig task := by
  unfold performs TaskRegistry.handlerFor
  rw [closure]
  split
  · rename_i missing
    exact absurd missing hasHandler
  · simp

theorem Faithful.kept (reached : (cluster config).Reachable before)
    (faithful : Faithful before)
    (happens : ClusterHappens i action event before after) :
    Faithful after := by
  have held : ∀ {token}, token ∈ event.removed (config.node i) →
      token ∈ (before.nodes i).tokens :=
    happens.happens.held
  refine ⟨?_, ?_, ?_, ?_⟩
  · intro task member
    rcases happens.carried.mem member with old | isSent
    · exact (faithful.flying task old).mono happens
    · cases event with
      | send reply =>
          have copied : ⟨.copied, task⟩ ∈ (before.nodes i).tokens :=
            held (List.mem_map_of_mem isSent)
          have ofNode := node_reachable reached i
          obtain ⟨noClosure, isOrigin⟩ :=
            (shaped_of_reachable ofNode _ copied).portable rfl
          have counted := (enrolled_of_reachable ofNode).counted _ copied rfl
          have names : before.Names task.originNode task.taskId task.type
              task.payload :=
            ⟨i, isOrigin.symm, task, counted, rfl, noClosure, rfl, rfl⟩
          exact names.mono happens
      | _ => cases isSent
  · intro j task member
    rcases happens.mem_tokens member with old | ⟨_, isAdded⟩
    · exact (faithful.arrived j task old).mono happens
    · have received := Event.arrived_added isAdded
      have flew : task ∈ before.flyingTasks := by
        refine (happens.carried.mem_removed received).resolve_right ?_
        cases event <;> simp_all [Event.sent, Event.received]
      exact (faithful.flying task flew).mono happens
  · intro j token member inside type payload origin taskId closure
    rcases happens.mem_tokens member with old | ⟨rfl, isAdded⟩
    · exact (faithful.stolen j token old inside type payload origin taskId
        closure).mono happens
    · rcases happens.happens.stolen_added isAdded inside closure with
        ⟨old, isRemoved, oldInside, oldClosure⟩ | ⟨remote, rfl, same⟩
      · exact (faithful.stolen j old (held isRemoved) oldInside type payload
          origin taskId oldClosure).mono happens
      · rw [same] at closure
        cases closure
        exact (faithful.arrived j remote
          (held (List.mem_singleton_self _))).mono happens
  · intro j origin taskId member
    rcases happens.mem_tokens member with old | ⟨rfl, isAdded⟩
    · obtain ⟨type, payload, names, ran⟩ := faithful.owed j origin taskId old
      exact ⟨type, payload, names.mono happens,
        fun hasHandler => happens.history_grows j (ran hasHandler)⟩
    · obtain ⟨task, type, payload, rfl, closure⟩ := Event.owed_added isAdded
      have executing := held (List.mem_singleton_self _)
      have names := faithful.stolen j _ executing Place.noConfusion type
        payload origin taskId closure
      refine ⟨type, payload, names.mono happens, fun hasHandler => ?_⟩
      have ran := performs_stolen closure hasHandler
      have books := congrArg Books.history happens.happens.books
      change (after.nodes j).shared.history = _ at books
      rw [books]
      exact List.mem_append_right _ (List.mem_cons_of_mem _ ran)

theorem faithful_of_reachable {state : ClusterState config}
    (reached : (cluster config).Reachable state) : Faithful state := by
  refine invariant_of_cluster_events Faithful ?_ ?_ reached
  · intro state isInitial
    have noTokens : ∀ j, (state.nodes j).tokens = [] :=
      fun j => State.Initial.tokens (isInitial.1 j)
    refine ⟨?_, ?_, ?_, ?_⟩
    · intro task member
      rw [ClusterState.flyingTasks, isInitial.2] at member
      cases member
    all_goals
      intro j
      rw [noTokens j]
      intros
      contradiction
  · intro state following i action event reached faithful happens
    exact faithful.kept reached happens

end Kept

/-! ## Responsibility -/

/-- Somebody answers for the task of node `i`. -/
inductive ClusterState.Covers (state : ClusterState config)
    (i : Fin config.size) (task : Task) : Prop
  | ran : state.Did (config.node i).nodeId task.taskId task.work →
      state.Covers i task
  | pending (place : Place) :
      ⟨place, task⟩ ∈ (state.nodes i).tokens → place.isPending = true →
      state.Covers i task
  | rerun (token : Token) (type : TaskType) (payload : Payload) :
      token ∈ (state.nodes i).tokens → token.place.isUnrun = true →
      token.task.fn = some (.rerun type payload task.taskId) →
      state.Covers i task

/-- Every node has a handler for the type of a counted task that needs one. -/
def Entry.Registered (config : ClusterConfig) : Entry → Prop
  | .counted task => task.fn = none →
      ∀ i, ((config.node i).handlers.run task.type).isSome = true
  | _ => True

instance (entry : Entry) : Decidable (entry.Registered config) := by
  unfold Entry.Registered
  split <;> infer_instance

/-- Every node has a handler for every task type in use. -/
def ClusterState.Registered (state : ClusterState config) : Prop :=
  ∀ i, ∀ entry ∈ (state.nodes i).shared.history, entry.Registered config

theorem performs_self {nodeConfig : NodeConfig} {task : Task}
    (hasHandler : nodeConfig.handlers.handlerFor task ≠ none) :
    .ran nodeConfig.nodeId task.taskId task.work ∈
      performs nodeConfig task := by
  unfold performs
  split
  · rename_i missing
    exact absurd missing hasHandler
  · exact List.mem_cons_self

theorem performs_rerun {nodeConfig : NodeConfig} {task : Task}
    {type : TaskType} {payload : Payload} {lost : Nat}
    (closure : task.fn = some (.rerun type payload lost))
    (hasHandler : nodeConfig.handlers.handlerFor task ≠ none) :
    .ran nodeConfig.nodeId lost (.handler type payload) ∈
      performs nodeConfig task := by
  unfold performs
  split
  · rename_i missing
    exact absurd missing hasHandler
  · simp [closure]

/-- The named task is the one that was counted. -/
theorem Enrolled.work_eq {books : Books} {tokens : List Token}
    (enrolled : Enrolled books tokens) {task : Task}
    (counted : .counted task ∈ books.history) {type : TaskType}
    {payload : Payload}
    (names : Names books.history task.taskId type payload) :
    task.work = .handler type payload := by
  obtain ⟨other, isOther, sameId, noClosure, rfl, rfl⟩ := names
  obtain rfl := enrolled.once other task isOther counted sameId
  simp [Task.work, noClosure]

section Covered

variable {before after : ClusterState config} {i : Fin config.size}
  {action : Action} {event : Event}

theorem ClusterState.Registered.of_names (registered : before.Registered)
    {origin : NodeId} {taskId : Nat} {type : TaskType} {payload : Payload}
    (names : before.Names origin taskId type payload) (j : Fin config.size) :
    (config.node j).handlers.run type ≠ none := by
  obtain ⟨k, _, task, counted, _, noClosure, rfl, _⟩ := names
  have isSome := registered k _ counted noClosure j
  intro missing
  rw [missing] at isSome
  cases isSome

/-- Earlier, fewer types were in use. -/
theorem ClusterState.Registered.earlier (registered : after.Registered)
    (happens : ClusterHappens i action event before after) :
    before.Registered :=
  fun j entry member => registered j entry (happens.history_grows j member)

/-- A task that is being executed finds its handler. -/
theorem handlerFor_of_executing (registered : before.Registered)
    (reached : (cluster config).Reachable before) {task : Task}
    (executing : ⟨.executing, task⟩ ∈ (before.nodes i).tokens) :
    (config.node i).handlers.handlerFor task ≠ none := by
  have enrolled := enrolled_of_reachable (node_reachable reached i)
  unfold TaskRegistry.handlerFor
  split
  · rename_i noClosure
    exact registered.of_names
      ⟨i, rfl, task, enrolled.counted _ executing rfl, rfl, noClosure, rfl,
        rfl⟩ i
  · simp
  · rename_i type payload origin taskId closure
    exact registered.of_names ((faithful_of_reachable reached).stolen i _
      executing Place.noConfusion type payload origin taskId closure) i
  · rename_i type payload lost closure
    obtain ⟨names, _⟩ := enrolled.rerun _ executing Place.noConfusion type
      payload lost closure
    exact registered.of_names ⟨i, rfl, names⟩ i

/-- The end of a body is on record. -/
theorem ClusterHappens.did_of_performs {task : Task}
    (happens : ClusterHappens i action (.ran task) before after)
    {origin : NodeId} {taskId : Nat} {work : Work}
    (performed : .ran origin taskId work ∈ performs (config.node i) task) :
    after.Did origin taskId work := by
  refine ⟨i, ?_⟩
  have books := congrArg Books.history happens.happens.books
  change (after.nodes i).shared.history = _ at books
  rw [books]
  exact List.mem_append_right _ (List.mem_cons_of_mem _ performed)

/-- A result settles a task that has run. -/
theorem did_of_resolve (registered : before.Registered)
    (reached : (cluster config).Reachable before) {task : Task}
    (happens : ClusterHappens i action (.resolve task) before after) :
    before.Did (config.node i).nodeId task.taskId task.work := by
  have outstanding := happens.happens.held (List.mem_singleton_self _)
  obtain ⟨sender, owed⟩ := happens.owed rfl
  obtain ⟨type, payload, names, ran⟩ :=
    (faithful_of_reachable reached).owed sender _ _ owed
  have didRun := ran (registered.of_names names sender)
  obtain ⟨j, isOrigin, ofNode⟩ := names
  obtain rfl := config.distinct isOrigin
  have enrolled := enrolled_of_reachable (node_reachable reached j)
  rw [enrolled.work_eq (enrolled.counted _ outstanding rfl) ofNode]
  exact ⟨sender, didRun⟩

theorem ClusterState.Covers.kept (registered : before.Registered)
    (reached : (cluster config).Reachable before)
    (happens : ClusterHappens i action event before after)
    {j : Fin config.size} {task : Task}
    (counted : .counted task ∈ (before.nodes j).shared.history)
    (covers : before.Covers j task) : after.Covers j task := by
  by_cases same : j = i
  · subst same
    have ofNode := node_reachable reached j
    have enrolled := enrolled_of_reachable ofNode
    cases covers with
    | ran did => exact .ran (did.mono happens)
    | pending place member pending =>
        rcases happens.happens.moves.mem_or_removed member with
          stays | isRemoved
        · exact .pending place stays pending
        rcases Event.pending_removed isRemoved pending with
          ⟨target, isAdded, stillPending⟩ | rfl | rfl | rfl | rfl
        · exact .pending target (happens.happens.gained isAdded) stillPending
        · have executing := happens.happens.held (List.mem_singleton_self _)
          exact .ran (happens.did_of_performs (performs_self
            (handlerFor_of_executing registered reached executing)))
        · exact .ran ((did_of_resolve registered reached happens).mono
            happens)
        · -- the reaper has built the closure that runs the task again
          have gained := happens.happens.gained
            (List.mem_cons_of_mem _ (List.mem_singleton_self _))
          exact .rerun _ _ _ gained rfl rfl
        · exact ((balanced_of_reachable ofNode).not_trackTwice
            happens.happens).elim
    | rerun token type payload member unrun closure =>
        rcases happens.happens.moves.mem_or_removed member with
          stays | isRemoved
        · exact .rerun token type payload stays unrun closure
        rcases Event.unrun_removed isRemoved unrun with
          ⟨new, isAdded, stillUnrun, sameClosure⟩ | rfl | rfl
        · exact .rerun new type payload (happens.happens.gained isAdded)
            stillUnrun (sameClosure.trans closure)
        · have executing := happens.happens.held (List.mem_singleton_self _)
          obtain ⟨names, _⟩ := enrolled.rerun _ executing Place.noConfusion
            type payload task.taskId closure
          refine .ran ?_
          rw [enrolled.work_eq counted names]
          exact happens.did_of_performs (performs_rerun closure
            (handlerFor_of_executing registered reached executing))
        · have queued := happens.happens.held (List.mem_singleton_self _)
          have noClosure :=
            ((shaped_of_reachable ofNode _ queued).portable rfl).1
          cases noClosure.symm.trans closure
  · cases covers with
    | ran did => exact .ran (did.mono happens)
    | pending place member pending =>
        rw [← happens.others j same] at member
        exact .pending place member pending
    | rerun token type payload member unrun closure =>
        rw [← happens.others j same] at member
        exact .rerun token type payload member unrun closure

/-- Somebody answers for every task that was counted. -/
theorem covers_of_reachable {state : ClusterState config}
    (reached : (cluster config).Reachable state)
    (registered : state.Registered) {j : Fin config.size} {task : Task}
    (counted : .counted task ∈ (state.nodes j).shared.history) :
    state.Covers j task := by
  revert registered j task
  refine invariant_of_cluster_events (fun state =>
    state.Registered → ∀ {j : Fin config.size} {task : Task},
      .counted task ∈ (state.nodes j).shared.history →
        state.Covers j task) ?_ ?_ reached
  · intro state isInitial _ j task counted
    rw [(isInitial.1 j).shared] at counted
    cases counted
  · intro before after i action event reached covers happens registered j
      task counted
    have earlier := registered.earlier happens
    by_cases same : j = i
    · subst same
      have books := congrArg Books.history happens.happens.books
      change (after.nodes j).shared.history = _ at books
      rw [books] at counted
      rcases Event.counted_of_enter counted with old | ⟨site, portable, rfl⟩
      · exact (covers earlier old).kept earlier reached happens old
      · exact .pending _ (happens.happens.gained
          (List.mem_singleton_self _)) rfl
    · rw [happens.others j same] at counted
      exact (covers earlier counted).kept earlier reached happens counted

/-- When the counters of a node agree, all its tasks have run. -/
theorem did_of_balanced {state : ClusterState config}
    (reached : (cluster config).Reachable state)
    (registered : state.Registered) {j : Fin config.size}
    (balanced : (state.nodes j).shared.completed =
      (state.nodes j).shared.submitted) {task : Task}
    (counted : .counted task ∈ (state.nodes j).shared.history) :
    state.Did (config.node j).nodeId task.taskId task.work := by
  have ofNode := node_reachable reached j
  cases covers_of_reachable reached registered counted with
  | ran did => exact did
  | pending place member pending =>
      have outside := not_inLedger_of_balanced ofNode balanced member
      cases place <;> simp [Place.isPending, Place.inLedger] at pending outside
  | rerun token type payload member unrun closure =>
      -- a re-run that is not counted yet has its original in the ledger
      have outside := not_inLedger_of_balanced ofNode balanced member
      have notRerun := not_rerun_of_balanced ofNode balanced member
      have inside : token.place ≠ .arrived := by
        intro arrived
        rw [arrived] at unrun
        cases unrun
      obtain ⟨_, sites⟩ :=
        (shaped_of_reachable ofNode _ member).rerun inside closure
      exfalso
      revert unrun outside notRerun sites
      cases token.place <;>
        simp [Place.isUnrun, Place.inLedger, Place.submittedBy]

end Covered

end HydraRT.Cluster
