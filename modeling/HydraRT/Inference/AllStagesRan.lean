import HydraRT.Cluster.Coverage
import HydraRT.Inference.Advance

/-!
# `wait_all` means done

When the counters of the runtime agree, the requests it has accepted are done
and every stage of theirs has run on some node: `on_stage_done` is only called
for a task whose body has run, here or elsewhere.
-/

namespace HydraRT.Cluster

open HydraRT.Inference
open HydraRT.Lib

/-! ## Stage tasks -/

/-- A task that reads as a stage is one that `submit_stage` built, or a
closure of the reaper. -/
def IsStageTask (task : Task) : Prop :=
  ∀ p, task.payload = .stage p →
    (task.fn = none → task.type = taskTypeFor p.stage) ∧
      ∀ body, task.fn ≠ some (.user body)

/-- Places of tasks of this node. -/
def Place.isTask : Place → Bool
  | .arrived | .recording => false
  | _ => true

structure StageTasks (books : Books) (tokens : List Token) : Prop where
  tokens : ∀ token ∈ tokens, token.place.isTask = true →
    IsStageTask token.task
  counted : ∀ task, .counted task ∈ books.history → IsStageTask task

section Node

variable {config : NodeConfig} {state following : State config}
  {action : Action} {event : Event}

/-- Tasks with a stage come from tasks with that stage, or are new. -/
theorem Happens.stage_added (honest : action.Honest)
    (happens : Happens action event state following) {token : Token}
    (isAdded : token ∈ event.added config state.shared.books)
    (isTask : token.place.isTask = true) :
    IsStageTask token.task ∨
      ∃ old ∈ event.removed config, old.place.isTask = true ∧
        old.task.fn = token.task.fn ∧ old.task.type = token.task.type ∧
        old.task.payload = token.task.payload := by
  have ofPayload : ∀ {task : Task}, task.payload.decodeStage = none →
      IsStageTask task := by
    intro task reads p isStage
    rw [isStage] at reads
    cases reads
  have ofStage : ∀ (p : StagePayload) (node : NodeId),
      IsStageTask (p.task node) := by
    intro p node q isStage
    cases isStage
    exact ⟨fun _ => rfl, fun body isUser => by cases isUser⟩
  cases Event.yields_of_added isAdded with
  | moved isRemoved leads =>
      refine .inr ⟨_, isRemoved, ?_, rfl, rfl, rfl⟩
      cases leads <;> rfl
  | start portable task =>
      exact .inl (ofPayload (start_payload happens.caused honest))
  | number site portable task | count site portable task
  | serve task | copy task | advance cause task p next =>
      exact .inr ⟨_, List.mem_singleton_self _, rfl, rfl, rfl, rfl⟩
  | settle portable task lost | owe task notice owes | wrap task =>
      exact .inl (ofPayload rfl)
  | rerun lost =>
      refine .inl fun p _ => ⟨?_, ?_⟩
      · intro noClosure
        cases noClosure
      · intro body isUser
        cases isUser
  | successor cause task p next | fetch request | emplace request id
  | request request id =>
      exact .inl (ofStage _ _)
  | _ => cases isTask

theorem stageTasks_of_reachable
    (reached : (node config).ReachableUnder Honest state) :
    StageTasks state.shared.books state.tokens := by
  refine invariant_of_balanced_events StageTasks ?_ ?_ reached
  · constructor <;> intros <;> contradiction
  · intro state following action event _ stages honest happens
    refine ⟨?_, ?_⟩
    · intro token member isTask
      rcases happens.moves.mem member with old | isAdded
      · exact stages.tokens token old isTask
      · rcases happens.stage_added honest isAdded isTask with
          new | ⟨old, isRemoved, wasTask, sameFn, sameType, samePayload⟩
        · exact new
        · have before := stages.tokens old (happens.held isRemoved) wasTask
          intro p isStage
          rw [← samePayload] at isStage
          rw [← sameFn, ← sameType]
          exact before p isStage
    · intro task member
      rcases Event.counted_of_enter member with old | ⟨site, portable, rfl⟩
      · exact stages.counted task old
      · exact stages.tokens _ (happens.held (List.mem_singleton_self _)) rfl

/-- Where a task that is about to be observed comes from. -/
theorem Event.finishing_added {books : Books} {cause : Cause} {task : Task}
    (isAdded : ⟨.finishing cause .before, task⟩ ∈
      event.added config books) :
    event = .ran task ∨ event = .resolve task ∨ task.payload = .empty := by
  cases event <;>
    simp_all [Event.added, recordingToken, owedToken, preparingToken,
      Task.settled]

/-- A call of `on_stage_done` is for a task that is about to be observed. -/
theorem Happens.stageDone_of_enter
    (happens : Happens action event state following) {p : StagePayload}
    (member : .stageDone p ∈ (event.enter config state.shared.books).history) :
    .stageDone p ∈ state.shared.history ∨
      ∃ cause task, ⟨.finishing cause .before, task⟩ ∈ state.tokens ∧
        observed config task = some p := by
  have performed : ∀ done, .stageDone p ∉ performs config done := by
    intro done
    unfold performs
    split
    · simp
    · split <;> simp
  cases event with
  | advance cause task q next =>
      rcases List.mem_append.mp member with old | new
      · exact .inl old
      · obtain rfl : p = q := by simpa using new
        exact .inr ⟨cause, task, happens.held (List.mem_singleton_self _),
          happens.allowed.1⟩
  | markDone cause task q =>
      rcases List.mem_append.mp member with old | new
      · exact .inl old
      · obtain rfl : p = q := by simpa using new
        exact .inr ⟨cause, task, happens.held (List.mem_singleton_self _),
          happens.allowed.1⟩
  | misread cause task q =>
      rcases List.mem_append.mp member with old | new
      · exact .inl old
      · obtain rfl : p = q := by simpa using new
        exact .inr ⟨cause, task, happens.held (List.mem_singleton_self _),
          happens.allowed.1⟩
  | ran task =>
      rcases List.mem_append.mp member with old | new
      · exact .inl old
      · rcases List.mem_cons.mp new with same | isRun
        · cases same
        · exact absurd isRun (performed task)
  | count site portable task =>
      rcases List.mem_append.mp member with old | new
      · exact .inl old
      · simp at new
  | reap lost =>
      rcases List.mem_append.mp member with old | new
      · exact .inl old
      · simp at new
  | _ => exact .inl member

theorem payload_of_observed {task : Task} {p : StagePayload}
    (reads : observed config task = some p) : task.payload = .stage p := by
  unfold observed at reads
  split at reads
  · cases payload : task.payload <;> simp_all [Payload.decodeStage]
  · cases reads

end Node

/-! ## Stages that ran -/

variable {config : ClusterConfig}

/-- The handler of the stage, a stage of a request of node `origin`, has run
to completion on some node. -/
def ClusterState.StageRan (state : ClusterState config) (origin : NodeId)
    (p : StagePayload) : Prop :=
  ∃ taskId, state.Did origin taskId
    (.handler (taskTypeFor p.stage) (.stage p))

/-- The observer hears of a stage only after it ran. -/
structure Observes (state : ClusterState config) : Prop where
  finishing : ∀ i cause task p,
    ⟨.finishing cause .before, task⟩ ∈ (state.nodes i).tokens →
      task.payload = .stage p → state.StageRan (config.node i).nodeId p
  observed : ∀ i p, .stageDone p ∈ (state.nodes i).shared.history →
    state.StageRan (config.node i).nodeId p

section Kept

variable {before after : ClusterState config} {i : Fin config.size}
  {action : Action} {event : Event}

theorem ClusterState.StageRan.mono {origin : NodeId} {p : StagePayload}
    (ran : before.StageRan origin p)
    (happens : ClusterHappens i action event before after) :
    after.StageRan origin p := by
  obtain ⟨taskId, did⟩ := ran
  exact ⟨taskId, did.mono happens⟩

/-- The body of a task with a stage ends on its own node. -/
theorem stageRan_of_ran (handlers : ∀ i, (config.node i).StageHandlers)
    (reached : (cluster config).ReachableUnder HonestCluster before)
    {task : Task} {p : StagePayload} (isStage : task.payload = .stage p)
    (happens : ClusterHappens i action (.ran task) before after) :
    after.StageRan (config.node i).nodeId p := by
  have executing := happens.happens.held (List.mem_singleton_self _)
  have ofNode := node_reachable_honest reached i
  have stages := stageTasks_of_reachable ofNode
  have shaped := shaped_of_reachable ofNode.reachable _ executing
  have hasHandler : (config.node i).handlers.run (taskTypeFor p.stage) ≠
      none := by
    rw [(handlers i).run]
    simp
  obtain ⟨typed, notUser⟩ := stages.tokens _ executing rfl p isStage
  cases closure : task.fn with
  | none =>
      have sameType : task.type = taskTypeFor p.stage := typed closure
      have handled : (config.node i).handlers.handlerFor task ≠ none := by
        simpa [TaskRegistry.handlerFor, closure, sameType] using hasHandler
      have ran := performs_self handled
      have work : task.work = .handler (taskTypeFor p.stage) (.stage p) := by
        simp [Task.work, closure, sameType, isStage]
      rw [work] at ran
      exact ⟨_, happens.did_of_performs ran⟩
  | some fn =>
      cases fn with
      | user body => exact absurd closure (notUser body)
      | stolen type payload origin taskId =>
          have empty := shaped.stolen Place.noConfusion closure
          cases empty.symm.trans isStage
      | rerun type payload lost =>
          obtain ⟨samePayload, _⟩ := shaped.rerun Place.noConfusion closure
          obtain rfl : payload = .stage p := samePayload.symm.trans isStage
          obtain ⟨⟨original, counted, _, noClosure, sameType, samePayload⟩, _⟩ :=
            (enrolled_of_reachable ofNode.reachable).rerun _ executing
              Place.noConfusion type _ lost closure
          obtain rfl : type = taskTypeFor p.stage :=
            sameType.symm.trans
              ((stages.counted original counted p samePayload).1 noClosure)
          have handled : (config.node i).handlers.handlerFor task ≠ none := by
            simpa [TaskRegistry.handlerFor, closure] using hasHandler
          exact ⟨_, happens.did_of_performs (performs_rerun closure handled)⟩

/-- A result comes back for a stage that a thief ran. -/
theorem stageRan_of_resolve (handlers : ∀ i, (config.node i).StageHandlers)
    (reached : (cluster config).ReachableUnder HonestCluster before)
    {task : Task} {p : StagePayload} (isStage : task.payload = .stage p)
    (happens : ClusterHappens i action (.resolve task) before after) :
    before.StageRan (config.node i).nodeId p := by
  have outstanding := happens.happens.held (List.mem_singleton_self _)
  have ofNode := node_reachable_honest reached i
  have enrolled := enrolled_of_reachable ofNode.reachable
  have noClosure :=
    ((shaped_of_reachable ofNode.reachable _ outstanding).portable rfl).1
  have typed := ((stageTasks_of_reachable ofNode).tokens _ outstanding rfl p
    isStage).1 noClosure
  obtain ⟨sender, owed⟩ := happens.owed rfl
  obtain ⟨type, payload, ⟨j, isOrigin, original, counted, sameId, _, rfl,
    rfl⟩, ran⟩ :=
    (faithful_of_reachable reached.reachable).owed sender _ _ owed
  obtain rfl := config.distinct isOrigin
  obtain rfl := enrolled.once original task counted
    (enrolled.counted _ outstanding rfl) sameId
  refine ⟨original.taskId, sender, ?_⟩
  rw [← isStage, ← typed]
  apply ran
  rw [typed, (handlers sender).run]
  simp

theorem Observes.kept (handlers : ∀ i, (config.node i).StageHandlers)
    (reached : (cluster config).ReachableUnder HonestCluster before)
    (observes : Observes before)
    (happens : ClusterHappens i action event before after) :
    Observes after := by
  refine ⟨?_, ?_⟩
  · intro j cause task p member isStage
    rcases happens.mem_tokens member with old | ⟨rfl, isAdded⟩
    · exact (observes.finishing j cause task p old isStage).mono happens
    · rcases Event.finishing_added isAdded with rfl | rfl | empty
      · exact stageRan_of_ran handlers reached isStage happens
      · exact (stageRan_of_resolve handlers reached isStage happens).mono
          happens
      · cases empty.symm.trans isStage
  · intro j p member
    by_cases same : j = i
    · subst same
      have books := congrArg Books.history happens.happens.books
      change (after.nodes j).shared.history = _ at books
      rw [books] at member
      rcases happens.happens.stageDone_of_enter member with
        old | ⟨cause, task, finishing, reads⟩
      · exact (observes.observed j p old).mono happens
      · exact (observes.finishing j cause task p finishing
          (payload_of_observed reads)).mono happens
    · rw [happens.others j same] at member
      exact (observes.observed j p member).mono happens

theorem observes_of_reachable
    (handlers : ∀ i, (config.node i).StageHandlers)
    {state : ClusterState config}
    (reached : (cluster config).ReachableUnder HonestCluster state) :
    Observes state := by
  refine invariant_of_cluster_events Observes ?_ ?_ reached
  · intro state isInitial
    refine ⟨?_, ?_⟩
    · intro j cause task p member
      rw [State.Initial.tokens (isInitial.1 j)] at member
      cases member
    · intro j p member
      rw [(isInitial.1 j).shared] at member
      cases member
  · intro before after i action event reached observes happens
    exact observes.kept handlers reached happens

end Kept

/-- The calls for a request are on record. -/
theorem stageDone_of_mem_callsFor {history : List Entry} {id : Nat}
    {stage : Stage} (called : stage ∈ callsFor history id) :
    ∃ p, .stageDone p ∈ history ∧ p.requestId = id ∧ p.stage = stage := by
  obtain ⟨entry, member, calledFor⟩ := List.mem_filterMap.mp called
  cases entry with
  | stageDone p =>
      simp only [Entry.calledFor] at calledFor
      split at calledFor
      · rename_i mine
        exact ⟨p, member, mine, Option.some.inj calledFor⟩
      · cases calledFor
  | _ => cases calledFor

/-- In every state in which the counters of the runtime of a node agree, every
request that `JobManager::submit` has returned is done and each of its four
stages has run; and in every state `completed()` is the number of requests
that are done and is at most `submitted()`. -/
theorem wait_all_means_done
    (handlers : ∀ i, (config.node i).StageHandlers)
    {state : ClusterState config}
    (reached : (cluster config).ReachableUnder HonestCluster state)
    (i : Fin config.size) (hasJobs : (config.node i).hasJobs = true) :
    ((state.nodes i).shared.completed = (state.nodes i).shared.submitted →
      ∀ id, (state.nodes i).Returned id →
        (state.nodes i).shared.jobs.isDone id ∧
          ∀ stage ∈ Stage.chain, ∃ p, p.requestId = id ∧
            p.stage = stage ∧ state.StageRan (config.node i).nodeId p) ∧
      (state.nodes i).shared.jobs.completed =
        (state.nodes i).shared.jobs.doneCount ∧
      (state.nodes i).shared.jobs.completed ≤
        (state.nodes i).shared.jobs.submitted := by
  have ofNode := node_reachable_honest reached i
  refine ⟨?_, completed_eq_doneCount hasJobs ofNode⟩
  intro balanced id returned
  have stands := returned.isDone_of_balanced hasJobs ofNode balanced
  refine ⟨?_, fun stage inChain => ?_⟩
  · obtain ⟨entry, found, isDone⟩ := Option.map_eq_some_iff.mp stands.state
    exact ⟨entry, found, isDone⟩
  · have calls : callsFor (state.nodes i).shared.history id = Stage.chain :=
      stands.calls
    rw [← calls] at inChain
    obtain ⟨p, done, sameId, sameStage⟩ := stageDone_of_mem_callsFor inChain
    exact ⟨p, sameId, sameStage,
      (observes_of_reachable handlers reached).observed i p done⟩

/-- The first stage of a request runs on a thief, the others at home. -/
def duoRequest : List (ClusterAction duoConfig) :=
  acts origin (.move 1 (.call (.submitJob { kind := .imageClassifier })) ::
      advances 1 6) ++ duoSteal ++
    acts thief (advances 0 5 ++ [Action.move 0 .bodyEnds] ++ advances 0 4 ++
      [Action.move 5 .drain] ++ advances 5 2) ++
    [.result thief 0 origin 2] ++
    acts origin (advances 2 6 ++ advances 0 7 ++ [Action.move 0 .bodyEnds] ++
      advances 0 7 ++ advances 0 8 ++ [Action.move 0 .bodyEnds] ++
      advances 0 7 ++ advances 0 7 ++ [Action.move 0 .bodyEnds] ++ advances 0 3)

theorem wait_all_means_done_after_steal :
    ∃ state, (cluster duoConfig).run duoStart duoRequest = some state ∧
      (state.nodes origin).shared.submitted = 4 ∧
      (state.nodes origin).shared.jobs.isDone 1 ∧
      ∀ stage ∈ Stage.chain, ∃ p, p.requestId = 1 ∧ p.stage = stage ∧
        state.StageRan 1 p := by
  refine ⟨_, rfl, by decide +kernel,
    (wait_all_means_done (fun _ => ⟨rfl, rfl⟩)
      (Machine.ReachableUnder.run duoRequest (.start duoStart_initial) rfl
        (by decide +kernel)) origin rfl).1 (by decide +kernel) 1
      ⟨by decide, by decide +kernel, ?_⟩⟩
  unfold State.Frames
  decide +kernel

end HydraRT.Cluster
