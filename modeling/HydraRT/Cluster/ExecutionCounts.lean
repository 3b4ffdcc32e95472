import HydraRT.Cluster.HeldLinks

/-!
# Execution counts across a cluster

In a cluster in which one node submits and the others only help, every task of
that node is run once, by somebody.  When the counters of the origin agree all
of its tasks have run, but the counters that say who ran them may lag behind,
since a thief queues the notice about a task before it counts the task.  The
counters of stolen tasks do not lag: the thief counts a response before it
gives up the link that the notices need.
-/

namespace HydraRT.Cluster

open HydraRT.Inference
open HydraRT.Lib

variable {config : ClusterConfig}

/-! ## When the origin is done -/

theorem sentIn_eq_zero {replies : List Reply}
    (nothing : replies.flatMap Reply.tasks = []) : sentIn replies = 0 := by
  have lengths : sentIn replies = (replies.flatMap Reply.tasks).length := by
    rw [List.length_flatMap]
    rfl
  rw [lengths, nothing]
  rfl

theorem Frame.uncounted_le {nodeConfig : NodeConfig}
    (frame : Frame nodeConfig) :
    frame.uncounted ≤ total debit frame.tokens := by
  unfold Frame.uncounted
  split
  · simp [Frame.tokens, ExecutePc.tokens, debit_mk, Place.inLedger]
  · simp [Frame.tokens, ExecutePc.tokens, debit_mk, Place.inLedger]
  · exact Nat.zero_le _

theorem Frame.unsent_le {nodeConfig : NodeConfig}
    (frame : Frame nodeConfig) :
    frame.unsent ≤ total pending frame.tokens := by
  unfold Frame.unsent
  split
  · simp [Frame.tokens, ServePc.tokens, pending]
  · simp [Frame.tokens, ServePc.tokens, pending]
  · exact Nat.zero_le _

/-- What is left when nothing is on the debit side. -/
theorem pending_eq_zero {token : Token} (zero : debit token = 0)
    (notStolen : isStolen token.task = false)
    (notArrived : token.place ≠ .arrived)
    (notCopied : token.place ≠ .copied) : pending token = 0 := by
  obtain ⟨place, task⟩ := token
  cases place <;> simp_all [pending, debit, Place.inLedger]

/-- No work is left anywhere. -/
structure AtRest (state : ClusterState config) (origin : Fin config.size) :
    Prop where
  pending : ∀ i, total pending (state.nodes i).tokens = 0
  flying : sentIn state.flying = 0
  unsent : (state.nodes origin).reading Frame.unsent = 0
  uncounted : (state.nodes origin).reading Frame.uncounted = 0
  accepting : ∀ i, (state.nodes i).reading Frame.accepting = 0

section Done

variable {origin : Fin config.size} {state : ClusterState config}
  (reached : (cluster config).ReachableUnder (OneSubmits origin) state)

include reached

/-- When the counters of the origin agree, all of its tasks have run. -/
theorem atRest_of_done
    (done : (state.nodes origin).shared.completed =
      (state.nodes origin).shared.submitted) :
    AtRest state origin := by
  have ofOrigin := node_reachable reached.reachable origin
  have balance : (state.nodes origin).shared.submitted =
      (state.nodes origin).shared.completed +
        total debit (state.nodes origin).tokens :=
    (balanced_of_reachable ofOrigin).balance
  have noDebit : ∀ token ∈ (state.nodes origin).tokens, debit token = 0 :=
    total_eq_zero.mp (by omega)
  have closed : ∀ taskId, ¬ state.IsOpen origin taskId := by
    rintro taskId ⟨token, member, opened, _⟩
    have zero := noDebit token member
    obtain ⟨place, task⟩ := token
    cases place with
    | serving => cases zero
    | outstanding => cases zero
    | _ => cases opened
  have owing := owing_of_reachable reached
  have faithful := faithful_of_reachable reached.reachable
  have noFlying : state.flyingTasks = [] := by
    rw [List.eq_nil_iff_forall_not_mem]
    intro task member
    exact closed _ (owing.flying task member
      (originNode_eq reached (faithful.flying task member)))
  have noPending : ∀ i, total pending (state.nodes i).tokens = 0 := by
    intro i
    refine total_eq_zero.mpr fun token member => ?_
    have carriesNot : ∀ taskId,
        ¬ Carries (config.node origin).nodeId taskId token :=
      fun taskId carries =>
        closed taskId (owing.tokens i token member taskId carries)
    by_cases isOrigin : i = origin
    · subst isOrigin
      obtain ⟨notStolen, notArrived⟩ :=
        (domestic_origin reached).own token member
      have zero := noDebit token member
      have shaped := shaped_of_reachable ofOrigin token member
      refine pending_eq_zero zero notStolen notArrived fun copied => ?_
      have ours := (shaped.portable (by rw [copied]; rfl)).2
      exact carriesNot token.task.taskId
        (.inl ⟨by rw [copied]; rfl, ours, rfl⟩)
    · have guest := (helping_thief reached isOrigin).guests token member
      have ran : token.place.isUnrun = true → isStolen token.task = true →
          False := by
        intro unrun stolen
        unfold isStolen at stolen
        split at stolen
        · rename_i type payload owner taskId closure
          have inside : token.place ≠ .arrived := by
            intro arrived
            rw [arrived] at unrun
            cases unrun
          have names := faithful.stolen i token member inside type payload
            owner taskId closure
          obtain rfl := originNode_eq reached names
          exact carriesNot taskId (.inr ⟨unrun, type, payload, closure⟩)
        · cases stolen
      obtain ⟨place, task⟩ := token
      cases place with
      | arrived =>
          have ours := originNode_eq reached (faithful.arrived i task member)
          exact absurd (.inl ⟨rfl, ours, rfl⟩) (carriesNot task.taskId)
      | _ => simp_all [pending, Token.isGuest, Place.isUnrun]
  refine ⟨noPending, sentIn_eq_zero noFlying, ?_, ?_,
    accepting_eq_zero reached closed⟩
  · exact Nat.le_zero.mp (Nat.le_trans
      (State.reading_le _ Frame.unsent_le) (Nat.le_of_eq (noPending origin)))
  · exact Nat.le_zero.mp (Nat.le_trans
      (State.reading_le _ Frame.uncounted_le) (by omega))

/-- What the counters show when the origin is done: every task has been run,
and the counters miss only the runs that a thread is about to count. -/
theorem counters_of_done
    (done : (state.nodes origin).shared.completed =
      (state.nodes origin).shared.submitted) :
    total (fun i => (state.nodes i).shared.localExecuted)
          (List.finRange config.size) +
        total (fun i => (state.nodes i).reading Frame.uncounted)
          (List.finRange config.size) =
        (state.nodes origin).shared.submitted ∧
      total (fun i => (state.nodes i).shared.stolenIn)
          (List.finRange config.size) =
        (state.nodes origin).shared.stolenOut := by
  have rest := atRest_of_done reached done
  have domestic := domestic_origin reached
  have sent := sent_of_reachable reached.reachable
  have work := total_congr fun i (_ : i ∈ List.finRange config.size) =>
    work_of_reachable (node_reachable reached.reachable i)
  have counted := total_congr fun i (_ : i ∈ List.finRange config.size) =>
    (exact_of_reachable (node_reachable reached.reachable i)).counted
  have sentByOrigin :=
    (exact_of_reachable (node_reachable reached.reachable origin)).sent
  simp only [rest.pending, Nat.add_zero, total_add] at work
  simp only [total_add] at counted
  have home := total_replace
    (fun i => homeIn (state.nodes i).shared.history) (fun _ => 0)
    (List.nodup_finRange _) (List.mem_finRange origin)
    fun j isThief => (helping_thief reached isThief).home
  have sentOnly := total_replace
    (fun i => sentIn (state.nodes i).shared.replies) (fun _ => 0)
    (List.nodup_finRange _) (List.mem_finRange origin)
    fun j isThief => (helping_thief reached isThief).sent
  have intake : total (fun i => (state.nodes i).intake)
      (List.finRange config.size) =
      total (fun i => (state.nodes i).shared.stolenIn)
          (List.finRange config.size) +
        total (fun i => (state.nodes i).reading Frame.accepting)
          (List.finRange config.size) :=
    total_add _ _
  have accepting : total (fun i => (state.nodes i).reading Frame.accepting)
      (List.finRange config.size) = 0 :=
    total_eq_zero.mpr fun i _ => rest.accepting i
  have homeOfOrigin := domestic.home
  have flying := rest.flying
  have unsent := rest.unsent
  rw [total_zero] at home sentOnly
  refine ⟨?_, ?_⟩
  · omega
  · omega

end Done

/-- The execution counts add up to the tasks of the origin, and the thieves
have counted what the origin has given away. -/
structure ClusterState.AddsUp (state : ClusterState config)
    (origin : Fin config.size) : Prop where
  executed : total (fun i => (state.nodes i).shared.localExecuted)
      (List.finRange config.size) = (state.nodes origin).shared.submitted
  stolen : total (fun i => (state.nodes i).shared.stolenIn)
      ((List.finRange config.size).filter (· ≠ origin)) =
    (state.nodes origin).shared.stolenOut

/-- No thief is between running a task and counting it. -/
def ClusterState.Settled (state : ClusterState config)
    (origin : Fin config.size) : Prop :=
  ∀ j, j ≠ origin → (state.nodes j).reading Frame.uncounted = 0

instance (state : ClusterState config) (origin : Fin config.size) :
    Decidable (state.Settled origin) := by
  unfold ClusterState.Settled
  infer_instance

/-- A sum over all nodes to which the origin contributes nothing. -/
theorem total_thieves {measure : Fin config.size → Nat}
    {origin : Fin config.size} (nothing : measure origin = 0) :
    total measure ((List.finRange config.size).filter (· ≠ origin)) =
      total measure (List.finRange config.size) := by
  have parted := total_filter_add_filter_not measure
    (fun j => decide (j ≠ origin)) (List.finRange config.size)
  have ofOrigin : total measure ((List.finRange config.size).filter
      fun j => !decide (j ≠ origin)) = 0 := by
    refine total_eq_zero.mpr fun j member => ?_
    have isOrigin : j = origin := by
      simpa using (List.mem_filter.mp member).2
    rw [isOrigin, nothing]
  omega

section Sums

variable {origin : Fin config.size} {state : ClusterState config}

/-- A settled cluster has no run left to count. -/
theorem ClusterState.Settled.uncounted (settled : state.Settled origin)
    (rest : AtRest state origin) :
    total (fun i => (state.nodes i).reading Frame.uncounted)
      (List.finRange config.size) = 0 := by
  refine total_eq_zero.mpr fun i _ => ?_
  by_cases isOrigin : i = origin
  · rw [isOrigin]
    exact rest.uncounted
  · exact settled i isOrigin

theorem ClusterState.Settled.of_uncounted
    (uncounted : total (fun i => (state.nodes i).reading Frame.uncounted)
      (List.finRange config.size) = 0) :
    state.Settled origin :=
  fun j _ => total_eq_zero.mp uncounted j (List.mem_finRange j)

/-- When the origin is done, the counts add up exactly if no thief lags. -/
theorem addsUp_iff_settled
    (reached : (cluster config).ReachableUnder (OneSubmits origin) state)
    (done : (state.nodes origin).shared.completed =
      (state.nodes origin).shared.submitted) :
    state.AddsUp origin ↔ state.Settled origin := by
  obtain ⟨executed, stolen⟩ := counters_of_done reached done
  have domestic := domestic_origin reached
  have thieves := @total_thieves config
    (fun i => (state.nodes i).shared.stolenIn) origin
    (Nat.add_eq_zero_iff.mp domestic.intake).1
  constructor
  · intro addsUp
    have executedSum := addsUp.executed
    exact .of_uncounted (by omega)
  · intro settled
    have uncounted := settled.uncounted (atRest_of_done reached done)
    exact ⟨by omega, thieves.trans stolen⟩

end Sums

/-! ## The last completion -/

/-- `wait_all` of the origin may return. -/
def ClusterState.isDone (state : ClusterState config)
    (origin : Fin config.size) : Bool :=
  0 < (state.nodes origin).shared.submitted &&
    (state.nodes origin).shared.completed ==
      (state.nodes origin).shared.submitted

/-- The step makes the counters of the origin agree. -/
def ClusterState.closes (state : ClusterState config)
    (origin : Fin config.size) (action : ClusterAction config) : Bool :=
  match state.step action with
  | some following => following.isDone origin && !state.isDone origin
  | none => false

/-- The last task of the origin is completed only when no thief lags. -/
def SettlesFirst (origin : Fin config.size) (state : ClusterState config)
    (action : ClusterAction config) : Prop :=
  OneSubmits origin state action ∧
    (state.closes origin action = true → state.Settled origin)

instance (origin : Fin config.size) (state : ClusterState config)
    (action : ClusterAction config) :
    Decidable (SettlesFirst origin state action) :=
  inferInstanceAs (Decidable (_ ∧ _))

section Runs

variable {origin : Fin config.size} {state following : ClusterState config}

theorem ClusterState.done_of_isDone (done : state.isDone origin = true) :
    (state.nodes origin).shared.completed =
      (state.nodes origin).shared.submitted := by
  simp only [ClusterState.isDone, Bool.and_eq_true, beq_iff_eq] at done
  exact done.2

/-- While the origin is done, thieves that have settled stay so. -/
theorem ClusterState.Settled.kept {action : ClusterAction config}
    {own : Action} (settled : state.Settled origin)
    (reached : (cluster config).ReachableUnder (OneSubmits origin) state)
    (after : (cluster config).ReachableUnder (OneSubmits origin) following)
    (taken : NodeStep state action own following)
    (done : state.isDone origin = true) : following.Settled origin := by
  by_cases acts : action.node = origin
  · intro j isThief
    rw [taken.others j (acts ▸ isThief)]
    exact settled j isThief
  · have sameOrigin := taken.others origin (Ne.symm acts)
    have isDone := ClusterState.done_of_isDone done
    obtain ⟨executed, _⟩ := counters_of_done reached isDone
    obtain ⟨executedAfter, _⟩ := counters_of_done after
      (by rw [sameOrigin]; exact isDone)
    rw [sameOrigin] at executedAfter
    have uncounted := settled.uncounted (atRest_of_done reached isDone)
    have metered := step_metered taken.stepped
    have localGrows : total
        (fun i => (state.nodes i).shared.localExecuted)
          (List.finRange config.size) ≤
        total (fun i => (following.nodes i).shared.localExecuted)
          (List.finRange config.size) := by
      refine total_le_total fun i _ => ?_
      by_cases isMover : i = action.node
      · rw [isMover]
        exact metered.localGrows
      · rw [taken.others i isMover]
    exact .of_uncounted (by omega)

theorem settled_of_isDone
    (reached : (cluster config).ReachableUnder (SettlesFirst origin) state)
    (done : state.isDone origin = true) : state.Settled origin := by
  induction reached with
  | start isInitial =>
      rw [ClusterState.isDone, (isInitial.1 origin).shared] at done
      cases done
  | @next before after action earlier allowed stepped inductionHypothesis =>
      obtain ⟨own, taken⟩ := cluster_step_node stepped
      have weaker := earlier.mono fun _ _ both => both.1
      cases wasDone : before.isDone origin with
      | true =>
          exact (inductionHypothesis wasDone).kept weaker
            (weaker.next allowed.1 stepped) taken wasDone
      | false =>
          have closes : before.closes origin action = true := by
            have same : before.step action = some after := stepped
            simp [ClusterState.closes, same, done, wasDone]
          have settled := allowed.2 closes
          have acts : action.node = origin := by
            by_contra isThief
            rw [ClusterState.isDone, taken.others origin (Ne.symm isThief)]
              at done
            exact absurd (done.symm.trans wasDone) Bool.noConfusion
          intro j isThief
          rw [taken.others j (acts ▸ isThief)]
          exact settled j isThief

/-- In every run in which one node submits, nothing is reaped and the last
task of the origin is completed only when no thief lags, the execution counts
add up whenever the counters of the origin agree. -/
theorem execution_counts_add_up
    (reached : (cluster config).ReachableUnder (SettlesFirst origin) state)
    (submitted : 0 < (state.nodes origin).shared.submitted)
    (done : (state.nodes origin).shared.completed =
      (state.nodes origin).shared.submitted) :
    state.AddsUp origin := by
  have isDone : state.isDone origin = true := by
    simp [ClusterState.isDone, submitted, done]
  exact (addsUp_iff_settled (reached.mono fun _ _ both => both.1) done).mpr
    (settled_of_isDone reached isDone)

end Runs

theorem execution_counts_add_up_round_trip :
    ∃ state, (cluster duoConfig).run duoStart duoRoundTrip = some state ∧
      (state.nodes origin).shared.submitted = 1 ∧
      (state.nodes thief).shared.localExecuted = 1 ∧
      state.AddsUp origin := by
  refine ⟨_, rfl, by decide +kernel, by decide +kernel,
    execution_counts_add_up
      (Machine.ReachableUnder.run duoRoundTrip (.start duoStart_initial) rfl
        (by decide +kernel)) (by decide +kernel) (by decide +kernel)⟩

/-- The thief sends the notice about the task before its worker has counted
the task. -/
def duoLateCounts : List (ClusterAction duoConfig) :=
  acts origin (.move 1 (.call (.submitPortable 1 noStage 1)) ::
      advances 1 3 ++ .move 2 (.request ⟨2, 4, .generic⟩) ::
      advances 2 19) ++
    [.reply 0 thief 4] ++
    acts thief (advances 4 6 ++ advances 0 5 ++ [Action.move 0 .bodyEnds] ++
      advances 0 1 ++ [Action.move 5 .drain] ++ advances 5 1) ++
    [.result thief 0 origin 2] ++ acts origin (advances 2 2)

theorem execution_counts_late :
    ∃ state, (cluster duoConfig).run duoStart duoLateCounts = some state ∧
      (cluster duoConfig).ReachableUnder (OneSubmits origin) state ∧
      (state.nodes origin).shared.submitted = 1 ∧
      (state.nodes origin).shared.completed = 1 ∧
      (state.nodes origin).shared.localExecuted = 0 ∧
      (state.nodes thief).shared.localExecuted = 0 ∧
      (state.nodes origin).shared.stolenOut = 1 ∧
      (state.nodes thief).shared.stolenIn = 1 ∧ ¬ state.AddsUp origin := by
  refine ⟨_, rfl, Machine.ReachableUnder.run duoLateCounts
    (.start duoStart_initial) rfl (by decide +kernel), by decide +kernel,
    by decide +kernel, by decide +kernel, by decide +kernel,
    by decide +kernel, by decide +kernel, ?_⟩
  intro addsUp
  have executed := addsUp.executed
  revert executed
  decide +kernel

end HydraRT.Cluster
