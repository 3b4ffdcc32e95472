import HydraRT.Cluster.Workers

/-!
# The effort that is left

How many accesses the calls in progress and the queued tasks still need when
the bodies of tasks end without calling anything.  A task brings the tasks of
the stages after its own with it.
-/

namespace HydraRT.Cluster

open HydraRT.Inference
open HydraRT.Lib

variable {config : NodeConfig}

/-! ## Effort -/

/-- How many stages follow the one that the task computes. -/
def stagesLeft (config : NodeConfig) (task : Task) : Nat :=
  match observed config task with
  | none => 0
  | some p => 3 - p.stage.rank

/-- Twelve accesses for every stage to come, and eight for the task itself. -/
def taskEffort (config : NodeConfig) (task : Task) : Nat :=
  12 * stagesLeft config task + 8

def SubmitCall.effort (call : SubmitCall config) : Nat :=
  taskEffort config call.task +
    match call.pc with
    | .takeId => 4
    | .count => 3
    | .route => 2
    | .push _ => 1

def CompletePc.effort (task : Task) : CompletePc config → Nat
  | .observe => 12 * stagesLeft config task + 3
  | .submitting _ call => call.effort + 2
  | .record _ => 2
  | .finish => 1

/-- A request is at the first of four stages. -/
def JobPc.effort : JobPc config → Nat
  | .fetchId => 51
  | .emplace _ => 50
  | .count _ => 49
  | .submitting _ call => call.effort

def UserCall.effort : UserCall config → Nat
  | .submit call => call.effort
  | .job _ pc => pc.effort

def ExecutePc.effort (task : Task) : ExecutePc config → Nat
  | .running none => 12 * stagesLeft config task + 7
  | .running (some call) => 12 * stagesLeft config task + 7 + call.effort
  | .notify .. => 12 * stagesLeft config task + 6
  | .localCount => 12 * stagesLeft config task + 5
  | .completing pc => pc.effort task + 1
  | .helpedCount => 1

/-- The loop of a worker does not end, and the calls of service threads are
left out. -/
def Frame.effort : Frame config → Nat
  | .help remaining => remaining.length + 1
  | .execute task _ pc => pc.effort task
  | .call begun => begun.effort
  | _ => 0

def queuedEffort (config : NodeConfig) (token : Token) : Nat :=
  if token.place.isQueued then taskEffort config token.task else 0

/-- The effort of the queued tasks. -/
def Shared.backlog (shared : Shared config) : Nat :=
  total (queuedEffort config) shared.tokens

def State.effort (state : State config) : Nat :=
  state.shared.backlog +
    total (fun thread => total Frame.effort thread.stack) state.threads

theorem Shared.backlog_push (shared : Shared config) (queue : Queue config)
    (task : Task) :
    (shared.push queue task).backlog =
      shared.backlog + taskEffort config task :=
  shared.total_push (queuedEffort config) queue task

theorem Shared.backlog_take? {shared following : Shared config}
    {home : Option (Fin config.workers)} {queue : Queue config}
    {misses : Bool} {task : Task}
    (taken : shared.take? home queue misses = some (task, following)) :
    following.backlog + taskEffort config task = shared.backlog :=
  Shared.total_take? taken (queuedEffort config)

/-- Only the queues count. -/
theorem Shared.backlog_congr {shared following : Shared config}
    (same : following.queues = shared.queues) :
    following.backlog = shared.backlog := by
  simp [Shared.backlog, Shared.tokens, total_flatMap, queuedTokens,
    queuedEffort, owedToken, Place.isQueued, same]

theorem stagesLeft_le (config : NodeConfig) (task : Task) :
    stagesLeft config task ≤ 3 := by
  unfold stagesLeft
  split
  · exact Nat.zero_le 3
  · exact Nat.sub_le _ _

/-- The next stage has one stage less to come. -/
theorem stagesLeft_next {task : Task} {p next : StagePayload}
    (reads : observed config task = some p) (hasNext : p.next? = some next) :
    stagesLeft config (next.task config.nodeId) + 1 ≤
      stagesLeft config task := by
  obtain ⟨_, early, rank⟩ := StagePayload.next?_eq_some hasNext
  have attached : config.hasJobs = true := by
    unfold observed at reads
    split at reads
    · assumption
    · cases reads
  have readsNext : observed config (next.task config.nodeId) = some next := by
    simp [observed, attached, StagePayload.task, Payload.decodeStage]
  simp only [stagesLeft, reads, readsNext]
  omega

/-! ## Steps -/

section Steps

variable {shared following : Shared config}
  {home : Option (Fin config.workers)}

/-- The step leaves less to do. -/
def Lightens (shared following : Shared config) (old new : Nat) : Prop :=
  following.backlog + new < shared.backlog + old

theorem SubmitCall.lightens (shared : Shared config)
    (home : Option (Fin config.workers)) (call : SubmitCall config) :
    Lightens shared (call.step shared home).1 call.effort
      (((call.step shared home).2.map SubmitCall.effort).getD 0) := by
  obtain ⟨task, pool, pc⟩ := call
  cases pc with
  | takeId => exact Nat.lt_succ_self _
  | count =>
      change shared.backlog + (taskEffort config task + _) <
        shared.backlog + (taskEffort config task + 3)
      cases pool <;> cases home <;> simp
  | route => exact Nat.lt_succ_self _
  | push queue =>
      change (shared.push queue task).backlog + 0 <
        shared.backlog + (taskEffort config task + 1)
      rw [shared.backlog_push]
      omega

/-- The two ways a submission may go on. -/
theorem SubmitCall.lightens_some {call rest : SubmitCall config}
    (stepped : call.step shared home = (following, some rest)) :
    Lightens shared following call.effort rest.effort := by
  have lighter := call.lightens shared home
  rw [stepped] at lighter
  exact lighter

theorem SubmitCall.lightens_none {call : SubmitCall config}
    (stepped : call.step shared home = (following, none)) :
    Lightens shared following call.effort 0 := by
  have lighter := call.lightens shared home
  rw [stepped] at lighter
  exact lighter

theorem CompletePc.lightens (shared : Shared config)
    (home : Option (Fin config.workers)) (task : Task)
    (pc : CompletePc config) :
    Lightens shared (pc.step shared home task).1 (pc.effort task)
      (((pc.step shared home task).2.map (CompletePc.effort task)).getD
        0) := by
  cases pc with
  | observe =>
      have enough : 1 < 12 * stagesLeft config task + 3 := by omega
      simp only [CompletePc.step]
      split
      · exact Nat.add_lt_add_left enough _
      · rename_i p reads
        split
        · rename_i next hasNext
          have fewer := stagesLeft_next reads hasNext
          refine Nat.add_lt_add_left ?_ shared.backlog
          simp only [Option.map_some, Option.getD_some, CompletePc.effort,
            SubmitCall.effort, submitStage, taskEffort]
          omega
        · split
          · exact Nat.add_lt_add_left enough shared.backlog
          · refine Nat.add_lt_add_left ?_ shared.backlog
            simp only [Option.map_some, Option.getD_some, CompletePc.effort]
            omega
  | submitting p call =>
      simp only [CompletePc.step]
      split
      · rename_i rest stepped
        exact Nat.add_lt_add_right (SubmitCall.lightens_some stepped) 2
      · rename_i stepped
        exact Nat.add_lt_add_right (SubmitCall.lightens_none stepped) 2
  | record p => exact Nat.lt_succ_self _
  | finish => exact Nat.lt_succ_self _

theorem JobPc.lightens (shared : Shared config)
    (home : Option (Fin config.workers)) (request : Request)
    (pc : JobPc config) :
    Lightens shared (pc.step shared home request).1 pc.effort
      (((pc.step shared home request).2.map JobPc.effort).getD 0) := by
  cases pc with
  | count id =>
      have few := stagesLeft_le config
        ((request.payload id).task config.nodeId)
      refine Nat.add_lt_add_left ?_ shared.backlog
      simp only [JobPc.step, Option.map_some, Option.getD_some, JobPc.effort,
        SubmitCall.effort, submitStage, taskEffort]
      omega
  | submitting id call =>
      simp only [JobPc.step]
      split
      · rename_i stepped
        exact SubmitCall.lightens_some stepped
      · rename_i stepped
        exact SubmitCall.lightens_none stepped
  | _ => exact Nat.lt_succ_self _

theorem UserCall.lightens (shared : Shared config)
    (home : Option (Fin config.workers)) (call : UserCall config) :
    Lightens shared (call.step shared home).1 call.effort
      (((call.step shared home).2.map UserCall.effort).getD 0) := by
  cases call with
  | submit call =>
      simp only [UserCall.step]
      split
      · rename_i stepped
        exact SubmitCall.lightens_some stepped
      · rename_i stepped
        exact SubmitCall.lightens_none stepped
  | job request pc =>
      have lighter := pc.lightens shared home request
      simp only [UserCall.step]
      split <;> rename_i stepped <;> rw [stepped] at lighter <;> exact lighter

theorem ExecutePc.lightens {task : Task} {helped : Bool}
    {pc : ExecutePc config} {frames : List (Frame config)}
    (stepped : pc.step shared home task helped = some (following, frames)) :
    Lightens shared following (pc.effort task)
      (total Frame.effort frames) := by
  cases pc with
  | running call =>
      cases call with
      | none => cases stepped
      | some call =>
          have lighter := call.lightens shared home
          simp only [ExecutePc.step, Option.some.injEq] at stepped
          generalize call.step shared home = result at lighter stepped
          obtain ⟨between, rest⟩ := result
          cases stepped
          unfold Lightens at lighter ⊢
          cases rest with
          | none =>
              simp only [total_cons, total_nil, Frame.effort,
                ExecutePc.effort, Option.map_none, Option.getD_none]
                at lighter ⊢
              omega
          | some rest =>
              simp only [total_cons, total_nil, Frame.effort,
                ExecutePc.effort, Option.map_some, Option.getD_some]
                at lighter ⊢
              omega
  | notify origin taskId =>
      cases stepped
      unfold Lightens
      rw [Shared.backlog_congr (by split <;> rfl)]
      exact Nat.lt_succ_self _
  | localCount =>
      cases stepped
      exact Nat.lt_succ_self _
  | completing pc =>
      have lighter := pc.lightens shared home task
      unfold Lightens at lighter ⊢
      simp only [ExecutePc.step] at stepped
      split at stepped <;> rename_i advanced <;> rw [advanced] at lighter <;>
        cases stepped
      · exact Nat.add_lt_add_right lighter 1
      · cases helped
        · exact Nat.lt_succ_of_lt lighter
        · exact Nat.add_lt_add_right lighter 1
  | helpedCount =>
      cases stepped
      exact Nat.lt_succ_self _

/-! ## Local calls -/

/-- A call that a worker or a client may be in, the loop of a worker apart. -/
def Frame.isTask : Frame config → Bool
  | .help _ | .execute .. | .call _ => true
  | _ => false

/-- No local call takes the mutex of a link. -/
theorem Frame.locks_of_isTask {frame : Frame config}
    (isTask : frame.isTask = true) : frame.locks = none := by
  cases frame with
  | complete => cases isTask
  | _ => rfl

theorem Frame.isTask_eq (frame : Frame config) :
    frame.isTask = decide (frame.kind ∈ [.help, .execute, .call]) := by
  cases frame <;> rfl

theorem Frame.lightens {fails : Bool} {frame : Frame config}
    {frames : List (Frame config)}
    (isTask : frame.isTask = true)
    (advanced : frame.advance shared home fails =
      some (following, frames)) :
    Lightens shared following frame.effort (total Frame.effort frames) := by
  cases frame with
  | help remaining =>
      cases remaining with
      | nil =>
          cases advanced
          exact Nat.lt_succ_self _
      | cons queue rest =>
          simp only [Frame.advance] at advanced
          split at advanced
          · rename_i task between taken
            cases advanced
            have lighter := Shared.backlog_take? taken
            simp only [Lightens, total_cons, total_nil, Frame.effort,
              ExecutePc.effort, taskEffort] at lighter ⊢
            omega
          · cases advanced
            exact Nat.lt_succ_self _
  | execute task helped pc => exact ExecutePc.lightens advanced
  | call begun =>
      have lighter := begun.lightens shared home
      simp only [Frame.advance] at advanced
      split at advanced <;> rename_i stepped <;> rw [stepped] at lighter <;>
        cases advanced <;> exact lighter
  | _ => cases isTask

theorem bodyEnds_lightens (shared : Shared config) (task : Task)
    (helped : Bool) :
    Lightens shared
      (shared.remember (.executed task.taskId :: performs config task))
      (.execute task helped (.running none) : Frame config).effort
      (total Frame.effort
        [(.execute task helped (afterBody task) : Frame config)]) := by
  refine Nat.add_lt_add_left ?_ shared.backlog
  unfold afterBody
  split <;> simp [Frame.effort, ExecutePc.effort]

/-- Local calls lead to local calls. -/
theorem Frame.advance_isTask {fails : Bool} {frame : Frame config}
    {frames : List (Frame config)}
    (isTask : frame.isTask = true)
    (advanced : frame.advance shared home fails =
      some (following, frames)) :
    ∀ new ∈ frames, new.isTask = true := by
  intro new member
  rw [Frame.isTask_eq] at isTask ⊢
  rcases Frame.advance_kind advanced new member with same | executes
  · rw [same]
    exact isTask
  · rw [executes]
    rfl

/-- A local call can always go on, except for a body that is to decide what
comes next. -/
theorem Frame.advances_or_runs {frame : Frame config}
    (isTask : frame.isTask = true) (shared : Shared config)
    (home : Option (Fin config.workers)) :
    (∃ following frames, frame.advance shared home false =
        some (following, frames)) ∨
      ∃ task helped, frame = .execute task helped (.running none) := by
  cases frame with
  | help remaining =>
      left
      cases remaining with
      | nil => exact ⟨_, _, rfl⟩
      | cons queue rest =>
          simp only [Frame.advance]
          split <;> exact ⟨_, _, rfl⟩
  | execute task helped pc =>
      cases pc with
      | running call =>
          cases call with
          | none => exact .inr ⟨task, helped, rfl⟩
          | some call => exact .inl ⟨_, _, rfl⟩
      | completing pc =>
          left
          simp only [Frame.advance, ExecutePc.step]
          split <;> exact ⟨_, _, rfl⟩
      | _ => exact .inl ⟨_, _, rfl⟩
  | call begun =>
      left
      simp only [Frame.advance]
      split <;> exact ⟨_, _, rfl⟩
  | _ => cases isTask

end Steps

end HydraRT.Cluster
