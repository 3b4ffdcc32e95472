import HydraRT.Cluster.Cluster
import HydraRT.Inference.LiveStage

/-!
# One advance for every stage

A stage may run on two nodes, but the chain of its request advances once, on
the node that accepted it.  What a thief runs is a closure without a payload,
so the observer of the thief has nothing to say about it.
-/

namespace HydraRT.Cluster

open HydraRT.Inference
open HydraRT.Lib

/-- `JobManager::register_handlers` has been called. -/
def NodeConfig.StageHandlers (config : NodeConfig) : Prop :=
  config.handlers.run .syntheticCompute = some .runStage ∧
    config.handlers.run .mandelbrotTile = some .runStage

theorem NodeConfig.StageHandlers.run {config : NodeConfig}
    (handlers : config.StageHandlers) (stage : Stage) :
    config.handlers.run (taskTypeFor stage) = some .runStage := by
  unfold taskTypeFor
  split
  · exact handlers.2
  · exact handlers.1

/-- The closure that runs a stage of a request of another node. -/
def IsStolenStage (task : Task) : Prop :=
  ∃ p origin taskId,
    task.fn = some (.stolen (taskTypeFor p.stage) (.stage p) origin taskId)

section Stolen

variable {config : NodeConfig} {state following : State config}
  {index : Nat} {thread : Thread config} {task : Task} {helped : Bool}
  {pc : ExecutePc config} {below : List (Frame config)}

/-- A stolen closure that is past its body has no payload. -/
theorem payload_of_stolen
    (reached : (node config).Reachable state)
    (found : state.threads[index]? = some thread)
    {completing : CompletePc config}
    (holds : thread.stack =
      .execute task helped (.completing completing) :: below)
    (stolen : IsStolenStage task) :
    task.payload = .empty := by
  have inFrame : ∃ phase, (⟨.finishing .executed phase, task⟩ : Token) ∈
      (Frame.execute task helped (.completing completing)).tokens := by
    cases completing <;>
      simp [Frame.tokens, ExecutePc.tokens, CompletePc.tokens]
  obtain ⟨phase, inFrame⟩ := inFrame
  have inTokens : (⟨.finishing .executed phase, task⟩ : Token) ∈
      state.tokens := by
    refine List.mem_append_right _ (List.mem_flatMap.mpr
      ⟨thread, List.mem_of_getElem? found, ?_⟩)
    rw [holds, stackTokens_cons]
    exact List.mem_append_left _ inFrame
  obtain ⟨p, origin, taskId, closure⟩ := stolen
  exact (shaped_of_reachable reached _ inTokens).stolen Place.noConfusion
    closure

/-- No step of the execution of a stolen stage touches the job table. -/
theorem jobs_of_stolen_stage (handlers : config.StageHandlers)
    (reached : (node config).ReachableUnder Honest state)
    (found : state.threads[index]? = some thread)
    (holds : thread.stack = .execute task helped pc :: below)
    (stolen : IsStolenStage task) {move : Move}
    (stepped : (node config).step state (.move index move) =
      some following) :
    following.shared.jobs = state.shared.jobs := by
  have notOut : callsOut config task = false := by
    obtain ⟨p, origin, taskId, closure⟩ := id stolen
    simp [callsOut, TaskRegistry.handlerFor, closure, handlers.run]
  have sound : pc.Sound task := by
    refine sound_of_reachable reached thread (List.mem_of_getElem? found)
      (.execute task helped pc) ?_
    rw [holds]
    exact List.mem_cons_self
  cases step_stepped stepped with
  | quit => rfl
  | move alsoFound _ _ stacked =>
      obtain rfl : thread = _ :=
        Option.some.inj (found.symm.trans alsoFound)
      cases stacked with
      | advance holds' advanced =>
          cases holds.symm.trans holds'
          cases pc with
          | running begun =>
              cases begun with
              | none => cases advanced
              | some begun =>
                  rw [sound.1] at notOut
                  cases notOut
          | notify origin taskId =>
              simp only [Frame.advance, ExecutePc.step] at advanced
              cases advanced
              dsimp only
              split <;> rfl
          | localCount =>
              cases advanced
              rfl
          | completing pc =>
              have noPayload := payload_of_stolen reached.reachable found
                holds stolen
              have ignored : observed config task = none := by
                simp [observed, noPayload, Payload.decodeStage]
              cases pc with
              | observe =>
                  simp only [Frame.advance, ExecutePc.step,
                    CompletePc.step, ignored] at advanced
                  cases advanced
                  rfl
              | submitting p call =>
                  cases ignored.symm.trans sound.1
              | record p =>
                  cases ignored.symm.trans sound
              | finish =>
                  cases advanced
                  rfl
          | helpedCount =>
              cases advanced
              rfl
      | bodyEnds holds' =>
          rfl
      | help holds' _ => rfl
      | call holds' _ _ => rfl
      | begin empty _ =>
          cases holds.symm.trans empty

end Stolen

/-! ## In a cluster -/

variable {config : ClusterConfig}

/-- In a cluster whose nodes all run a `JobManager`: `on_stage_done` is called
at most once for each stage and in the order of the chain; a request that has
been returned is done or has exactly one live stage; and running a stolen
stage leaves the job table of the thief alone. -/
theorem pipeline_advances_once
    (hasJobs : ∀ i, (config.node i).hasJobs = true)
    (handlers : ∀ i, (config.node i).StageHandlers)
    {state : ClusterState config}
    (reached : (cluster config).ReachableUnder HonestCluster state)
    (i : Fin config.size) :
    (∀ id, callsFor (state.nodes i).shared.history id <+: Stage.chain) ∧
      (∀ id, (state.nodes i).Returned id →
        ((state.nodes i).shared.jobs.isDone id ∧
            (state.nodes i).liveStages id = []) ∨
          (¬ (state.nodes i).shared.jobs.isDone id ∧
            ∃ token, (state.nodes i).liveStages id = [token])) ∧
      ∀ index thread task helped pc below move following,
        (state.nodes i).threads[index]? = some thread →
        thread.stack = .execute task helped pc :: below →
        IsStolenStage task →
        (cluster config).step state (.act i (.move index move)) =
          some following →
        (following.nodes i).shared.jobs = (state.nodes i).shared.jobs := by
  have ofNode := node_reachable_honest reached i
  refine ⟨fun id => callsFor_isPrefix (hasJobs i) ofNode id,
    fun id returned => returned.done_or_live (hasJobs i) ofNode, ?_⟩
  intro index thread task helped pc below move following found holds stolen
    stepped
  simp only [cluster, ClusterState.step] at stepped
  split at stepped
  · obtain ⟨next, moved, rfl⟩ := Option.map_eq_some_iff.mp stepped
    have unchanged := jobs_of_stolen_stage (handlers i) ofNode found holds
      stolen moved
    simpa [ClusterState.install] using unchanged
  · cases stepped

/-- Both nodes accept a request with id 1; the thief gets the first stage of
the other one and is about to end its body. -/
def duoStage : List (ClusterAction duoConfig) :=
  acts origin (.move 1 (.call (.submitJob { kind := .imageClassifier })) ::
      advances 1 6) ++
    acts thief (.move 1 (.call (.submitJob { kind := .textTransformer })) ::
      advances 1 6) ++
    duoSteal ++ acts thief (advances 0 5)

theorem pipeline_advances_once_during_steal :
    ∃ state following,
      (cluster duoConfig).run duoStart duoStage = some state ∧
        (cluster duoConfig).step state (.act thief (.move 0 .bodyEnds)) =
          some following ∧
        (∃ token, (state.nodes origin).liveStages 1 = [token]) ∧
        (following.nodes thief).shared.jobs =
          (state.nodes thief).shared.jobs := by
  refine ⟨_, _, rfl, rfl, ?_, ?_⟩
  · have advances := pipeline_advances_once (fun _ => rfl)
      (fun _ => ⟨rfl, rfl⟩)
      (Machine.ReachableUnder.run duoStage (.start duoStart_initial) rfl
        (by decide)) origin
    refine ((advances.2.1 1 ⟨by decide, by decide, ?_⟩).resolve_left ?_).2
    · unfold State.Frames
      decide
    · exact fun done => absurd done.1 (by decide)
  · have advances := pipeline_advances_once (fun _ => rfl)
      (fun _ => ⟨rfl, rfl⟩)
      (Machine.ReachableUnder.run duoStage (.start duoStart_initial) rfl
        (by decide)) thief
    exact advances.2.2 0 _ _ _ _ _ .bodyEnds _ rfl rfl
      ⟨({ kind := .imageClassifier } : Request).payload 1, 1, 1, rfl⟩ rfl

end HydraRT.Cluster
