import HydraRT.Cluster.AtLeastOnce

/-!
# Notices

The end of a stolen closure turns the last chance of its task into a notice.
Until the reaper gives a task up, its chances and the notices about it are at
most one together.  A notice that has been sent therefore leaves no copy of
its task behind.
-/

namespace HydraRT.Cluster

open HydraRT.Lib

/-- One for a notice about the task. -/
def noticeOf (origin : NodeId) (taskId : Nat) (token : Token) : Nat :=
  if token.place = .owed ∧ token.task.originNode = origin ∧
      token.task.taskId = taskId then 1
  else 0

theorem noticeOf_mk (origin : NodeId) (taskId : Nat) (place : Place)
    (task : Task) :
    noticeOf origin taskId ⟨place, task⟩ =
      if place = .owed ∧ task.originNode = origin ∧ task.taskId = taskId then 1
      else 0 := rfl

section Node

variable {config : NodeConfig} {state following : State config}
  {action : Action} {event : Event} (origin : NodeId) (taskId : Nat)

/-- The closure of a task owes at most the notice that it had a chance for. -/
theorem total_notices_le (self : NodeId) (task : Task) :
    total (noticeOf origin taskId) ((Event.notices task).map owedToken) ≤
      closureChance self origin taskId task.fn := by
  unfold Event.notices closureChance
  split
  · rename_i closure
    simp [noticeOf, owedToken, closure]
  · exact Nat.zero_le _

/-- Notices are paid for with chances. -/
theorem Happens.notice_le (happens : Happens action event state following) :
    total (noticeOf origin taskId) following.tokens ≤
      total (noticeOf origin taskId) state.tokens +
        event.spent config origin taskId := by
  have equation := happens.moves (noticeOf origin taskId)
  cases event with
  | ran task =>
      have bound := total_notices_le origin taskId config.nodeId task
      simp only [Event.removed, Event.added, total_cons, total_nil,
        noticeOf_mk, reduceCtorEq, false_and, if_false] at equation
      simp only [Event.spent]
      omega
  | forget notice =>
      simp only [Event.added, total_nil] at equation
      omega
  | _ =>
      simp [Event.removed, Event.added, noticeOf_mk, recordingToken,
        preparingToken] at equation
      simp only [Event.spent]
      omega

end Node

variable {config : ClusterConfig}

/-- The chances of a task and the notices about it. -/
def ClusterState.prospects (state : ClusterState config) (origin : NodeId)
    (taskId : Nat) : Nat :=
  total (fun i =>
      total (chance (config.node i).nodeId origin taskId)
          (state.nodes i).tokens +
        total (noticeOf origin taskId) (state.nodes i).tokens)
    (List.finRange config.size) +
    total (copyChance origin taskId) state.flyingTasks

theorem ClusterHappens.prospects_le {before after : ClusterState config}
    {i : Fin config.size} {action : Action} {event : Event}
    (reached : (cluster config).Reachable before)
    (happens : ClusterHappens i action event before after)
    (origin : NodeId) (taskId : Nat) :
    after.prospects origin taskId ≤ before.prospects origin taskId +
      event.luck (config.node i) (before.nodes i).shared.books origin
        taskId := by
  have chances := happens.happens.chance_le origin taskId
    (shaped_of_reachable (node_reachable reached i))
  have notices := happens.happens.notice_le origin taskId
  have carried := happens.carried (copyChance origin taskId)
  have replaced := total_replace
    (fun j => total (chance (config.node j).nodeId origin taskId)
        (after.nodes j).tokens +
      total (noticeOf origin taskId) (after.nodes j).tokens)
    (fun j => total (chance (config.node j).nodeId origin taskId)
        (before.nodes j).tokens +
      total (noticeOf origin taskId) (before.nodes j).tokens)
    (List.nodup_finRange _) (List.mem_finRange i) ?_
  · unfold ClusterState.prospects
    omega
  · intro j different
    simp only [happens.others j different]

/-- A task that is not reaped has one prospect at most. -/
theorem prospects_of_reachable {state : ClusterState config}
    (reached : (cluster config).Reachable state) (j : Fin config.size)
    (taskId : Nat) :
    ((state.nodes j).shared.nextId ≤ taskId →
        state.prospects (config.node j).nodeId taskId = 0) ∧
      (.reaped taskId ∉ (state.nodes j).shared.history →
        state.prospects (config.node j).nodeId taskId ≤ 1) := by
  refine invariant_of_cluster_events (fun state =>
    ((state.nodes j).shared.nextId ≤ taskId →
        state.prospects (config.node j).nodeId taskId = 0) ∧
      (.reaped taskId ∉ (state.nodes j).shared.history →
        state.prospects (config.node j).nodeId taskId ≤ 1)) ?_ ?_ reached
  · intro state isInitial
    have none : state.prospects (config.node j).nodeId taskId = 0 := by
      unfold ClusterState.prospects ClusterState.flyingTasks
      rw [isInitial.2]
      refine (Nat.add_zero _).trans (total_eq_zero.mpr fun i _ => ?_)
      rw [State.Initial.tokens (isInitial.1 i)]
      rfl
    exact ⟨fun _ => none, fun _ => Nat.le_trans (Nat.le_of_eq none)
      (Nat.zero_le 1)⟩
  · intro before after i action event reached ⟨unborn, once⟩ happens
    exact happens.limit_kept reached
      (happens.prospects_le reached (config.node j).nodeId taskId)
      unborn once

/-- Once a notice exists, no copy of its task can run any more. -/
theorem no_chance_of_notice {state : ClusterState config}
    (reached : (cluster config).Reachable state)
    {sender j : Fin config.size} {taskId : Nat}
    (notReaped : .reaped taskId ∉ (state.nodes j).shared.history)
    (owed : owedToken ((config.node j).nodeId, taskId) ∈
      (state.nodes sender).tokens) :
    (∀ i, ∀ token ∈ (state.nodes i).tokens,
        chance (config.node i).nodeId (config.node j).nodeId taskId token =
          0) ∧
      ∀ task ∈ state.flyingTasks,
        copyChance (config.node j).nodeId taskId task = 0 := by
  have one := (prospects_of_reachable reached j taskId).2 notReaped
  have notice : 1 ≤ total (noticeOf (config.node j).nodeId taskId)
      (state.nodes sender).tokens := by
    refine Nat.le_trans ?_ (le_total_of_mem owed)
    simp [noticeOf, owedToken]
  let noticesOf (i : Fin config.size) :=
    total (noticeOf (config.node j).nodeId taskId) (state.nodes i).tokens
  have notices : noticesOf sender ≤
      total noticesOf (List.finRange config.size) :=
    le_total_of_mem (List.mem_finRange sender)
  unfold ClusterState.prospects at one
  rw [total_add] at one
  change 1 ≤ noticesOf sender at notice
  change _ + total noticesOf _ + _ ≤ 1 at one
  refine ⟨?_, ?_⟩
  · intro i token member
    have ofNodes : total (fun i =>
        total (chance (config.node i).nodeId (config.node j).nodeId taskId)
          (state.nodes i).tokens) (List.finRange config.size) = 0 := by
      omega
    have ofNode := total_eq_zero.mp ofNodes i (List.mem_finRange i)
    exact total_eq_zero.mp ofNode token member
  · have ofFlying : total (copyChance (config.node j).nodeId taskId)
        state.flyingTasks = 0 := by
      omega
    exact total_eq_zero.mp ofFlying

end HydraRT.Cluster
