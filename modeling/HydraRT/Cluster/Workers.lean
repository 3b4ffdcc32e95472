import HydraRT.Cluster.Calls

/-!
# Worker threads

The stack of a worker is its loop with the tasks it is executing on top; it is
empty once the worker has left its loop, which it does only after the shutdown
flag was stored.  Nothing a thread does touches that flag, and only the
service threads touch `outstanding_`.
-/

namespace HydraRT.Cluster

open HydraRT.Inference
open HydraRT.Lib

variable {config : NodeConfig}

def Role.isWorker (role : Role config) : Bool :=
  role.worker?.isSome

def Frame.isWorker : Frame config → Bool
  | .worker _ => true
  | _ => false

theorem Frame.isWorker_eq (frame : Frame config) :
    frame.isWorker = decide (frame.kind = .worker) := by
  cases frame <;> rfl

def Frame.isServe : Frame config → Bool
  | .serve .. => true
  | _ => false

/-! ## What moves leave alone -/

/-- The shutdown flag and the tasks at other nodes are as they were. -/
structure Shared.Keeps (shared following : Shared config) : Prop where
  flag : following.shutdownFlag = shared.shutdownFlag
  outstanding : following.outstanding = shared.outstanding

/-- The shutdown flag, what the node has given away, and what it has
answered. -/
def Shared.dealings (shared : Shared config) :
    Bool × List Outstanding × List Reply :=
  (shared.shutdownFlag, shared.outstanding, shared.replies)

section Calls

variable (shared : Shared config) (home : Option (Fin config.workers))

theorem SubmitCall.dealings_step (call : SubmitCall config) :
    (call.step shared home).1.dealings = shared.dealings := by
  unfold SubmitCall.step
  split <;> rfl

theorem CompletePc.dealings_step (task : Task) (pc : CompletePc config) :
    (pc.step shared home task).1.dealings = shared.dealings := by
  cases pc with
  | observe =>
      simp only [CompletePc.step]
      split
      · rfl
      · split
        · rfl
        · split <;> rfl
  | submitting p call =>
      rw [CompletePc.step_submitting_fst]
      exact call.dealings_step shared home
  | record p => rfl
  | finish => rfl

theorem JobPc.dealings_step (request : Request)
    (pc : JobPc config) :
    (pc.step shared home request).1.dealings = shared.dealings := by
  cases pc with
  | submitting id call =>
      rw [JobPc.step_submitting_fst]
      exact call.dealings_step shared home
  | _ => rfl

theorem UserCall.dealings_step (call : UserCall config) :
    (call.step shared home).1.dealings = shared.dealings := by
  cases call with
  | submit call =>
      rw [UserCall.step_submit_fst]
      exact call.dealings_step shared home
  | job request pc =>
      rw [UserCall.step_job_fst]
      exact pc.dealings_step shared home request

end Calls

theorem Shared.dealings_take? {shared following : Shared config}
    {home : Option (Fin config.workers)} {queue : Queue config}
    {misses : Bool} {task : Task}
    (taken : shared.take? home queue misses = some (task, following)) :
    following.dealings = shared.dealings := by
  obtain ⟨rest, rfl, _⟩ := Shared.take?_eq_some taken
  rfl

/-- A step that neither hands tasks out nor begins to answer a request. -/
structure LeavesAlone (shared following : Shared config)
    (frames : List (Frame config)) : Prop where
  dealings : following.dealings = shared.dealings
  plain : frames.any Frame.isServe = false

theorem WorkerPc.leavesAlone (shared : Shared config)
    (worker : Fin config.workers) (completedFirst misses : Bool)
    (pc : WorkerPc config) :
    LeavesAlone shared (pc.step shared worker completedFirst misses).1
      (pc.step shared worker completedFirst misses).2 := by
  unfold WorkerPc.step
  split
  · exact ⟨rfl, rfl⟩
  · exact ⟨rfl, rfl⟩
  · exact ⟨rfl, rfl⟩
  · split <;> exact ⟨rfl, rfl⟩
  · exact ⟨rfl, rfl⟩
  · split
    · rename_i taken
      exact ⟨Shared.dealings_take? taken, rfl⟩
    · exact ⟨rfl, rfl⟩

theorem ExecutePc.leavesAlone {shared following : Shared config}
    {home : Option (Fin config.workers)} {task : Task} {helped : Bool}
    {pc : ExecutePc config} {frames : List (Frame config)}
    (stepped : pc.step shared home task helped = some (following, frames)) :
    LeavesAlone shared following frames := by
  cases pc with
  | running call =>
      cases call with
      | none => cases stepped
      | some call =>
          cases stepped
          exact ⟨call.dealings_step shared home, rfl⟩
  | notify origin taskId =>
      cases stepped
      refine ⟨?_, rfl⟩
      split <;> rfl
  | localCount =>
      cases stepped
      exact ⟨rfl, rfl⟩
  | completing pc =>
      have kept := pc.dealings_step shared home task
      simp only [ExecutePc.step] at stepped
      split at stepped
      · rename_i advanced
        cases stepped
        rw [advanced] at kept
        exact ⟨kept, rfl⟩
      · rename_i advanced
        cases stepped
        rw [advanced] at kept
        refine ⟨kept, ?_⟩
        split <;> rfl
  | helpedCount =>
      cases stepped
      exact ⟨rfl, rfl⟩

theorem ReapPc.leavesAlone (shared : Shared config)
    (home : Option (Fin config.workers)) (lost : List Task)
    (pc : ReapPc config) :
    LeavesAlone shared (pc.step shared home lost).1
      (pc.step shared home lost).2 := by
  unfold ReapPc.step
  split
  · exact ⟨rfl, rfl⟩
  · exact ⟨rfl, rfl⟩
  · rename_i task call
    have kept := call.dealings_step shared home
    split
    · rename_i stepped
      rw [stepped] at kept
      exact ⟨kept, rfl⟩
    · rename_i stepped
      rw [stepped] at kept
      exact ⟨kept, rfl⟩
  · rename_i task pc
    have kept := pc.dealings_step shared home task.settled
    split
    · rename_i stepped
      rw [stepped] at kept
      exact ⟨kept, rfl⟩
    · rename_i stepped
      rw [stepped] at kept
      exact ⟨kept, rfl⟩

theorem acceptStep_leavesAlone (shared : Shared config)
    (home : Option (Fin config.workers)) (link : NodeId)
    (tasks remaining : List Task) (begun : Option (SubmitCall config)) :
    LeavesAlone shared (acceptStep shared home link tasks remaining begun).1
      (acceptStep shared home link tasks remaining begun).2 := by
  unfold acceptStep
  split
  · exact ⟨rfl, rfl⟩
  · exact ⟨rfl, rfl⟩
  · rename_i call
    exact ⟨call.dealings_step shared home, rfl⟩

/-- Calls other than `serve_peer` hand nothing out. -/
theorem Frame.leavesAlone {shared following : Shared config}
    {home : Option (Fin config.workers)} {fails : Bool}
    {frame : Frame config} {frames : List (Frame config)}
    (plain : frame.isServe = false)
    (advanced : frame.advance shared home fails = some (following, frames)) :
    LeavesAlone shared following frames := by
  unfold Frame.advance at advanced
  split at advanced
  · rename_i pc
    obtain ⟨worker, _, result⟩ := Option.map_eq_some_iff.mp advanced
    have kept := WorkerPc.leavesAlone shared worker fails fails pc
    rw [result] at kept
    exact kept
  · cases advanced
    exact ⟨rfl, rfl⟩
  · split at advanced
    · rename_i taken
      cases advanced
      exact ⟨Shared.dealings_take? taken, rfl⟩
    · cases advanced
      exact ⟨rfl, rfl⟩
  · exact ExecutePc.leavesAlone advanced
  · rename_i begun
    have kept := begun.dealings_step shared home
    split at advanced
    · rename_i stepped
      cases advanced
      rw [stepped] at kept
      exact ⟨kept, rfl⟩
    · rename_i stepped
      cases advanced
      rw [stepped] at kept
      exact ⟨kept, rfl⟩
  · cases plain
  · rename_i task pc
    have kept := pc.dealings_step shared home task
    split at advanced
    · rename_i stepped
      cases advanced
      rw [stepped] at kept
      exact ⟨kept, rfl⟩
    · rename_i stepped
      cases advanced
      rw [stepped] at kept
      exact ⟨kept, rfl⟩
  · rename_i lost pc
    have kept := ReapPc.leavesAlone shared home lost pc
    rw [Option.some.inj advanced] at kept
    exact kept
  · rename_i link tasks remaining begun
    have kept :=
      acceptStep_leavesAlone shared home link tasks remaining begun
    rw [Option.some.inj advanced] at kept
    exact kept
  · cases advanced
    exact ⟨rfl, rfl⟩
  · cases advanced
    refine ⟨?_, rfl⟩
    split <;> rfl

theorem Frame.advance_keeps {shared following : Shared config}
    {home : Option (Fin config.workers)} {fails : Bool}
    {frame : Frame config} {frames : List (Frame config)}
    (notServe : frame.isServe = false)
    (advanced : frame.advance shared home fails = some (following, frames)) :
    shared.Keeps following := by
  have same := (Frame.leavesAlone notServe advanced).dealings
  exact ⟨congrArg (·.1) same, congrArg (·.2.1) same⟩

theorem ServePc.step_flag (shared : Shared config) (request : StealRequest)
    (pc : ServePc) :
    (pc.step shared request).1.shutdownFlag = shared.shutdownFlag := by
  unfold ServePc.step
  split
  case h_5 =>
    split
    · rename_i taken
      exact congrArg (·.1) (Shared.dealings_take? taken)
    · rfl
  case h_6 =>
    unfold Shared.trackOutstanding
    dsimp only
    split <;> rfl
  all_goals
    rfl

theorem Role.begin_flag {shared following : Shared config}
    {role : Role config} {move : Move} {frames : List (Frame config)}
    (begins : role.begin shared move = some (following, frames)) :
    following.shutdownFlag = shared.shutdownFlag := by
  unfold Role.begin at begins
  split at begins
  · split at begins
    · cases begins
      rfl
    · obtain ⟨begun, _, result⟩ := Option.map_eq_some_iff.mp begins
      cases result
      rfl
  · cases begins
    rfl
  · split at begins
    · cases begins
      rfl
    · obtain ⟨entry, _, result⟩ := Option.map_eq_some_iff.mp begins
      cases result
      rfl
  · split at begins
    · cases begins
      rfl
    · cases begins
  · split at begins <;> cases begins <;> rfl
  · cases begins
    rfl
  · cases begins

/-- No thread stores the shutdown flag. -/
theorem Stacked.flag {shared following : Shared config}
    {thread : Thread config} {move : Move} {stack : List (Frame config)}
    (stacked : Stacked shared thread move following stack) :
    following.shutdownFlag = shared.shutdownFlag := by
  cases stacked with
  | advance holds advanced =>
      rename_i fails frame below frames
      cases isServe : frame.isServe with
      | false => exact (Frame.advance_keeps isServe advanced).flag
      | true =>
          cases frame with
          | serve request pc =>
              have kept := ServePc.step_flag shared request pc
              rw [Option.some.inj advanced] at kept
              exact kept
          | _ => cases isServe
  | bodyEnds => rfl
  | help => rfl
  | call => rfl
  | begin _ begins => exact Role.begin_flag begins

/-! ## Postures -/

/-- Only a worker without a task runs its loop. -/
theorem Frame.advance_isWorker {shared following : Shared config}
    {home : Option (Fin config.workers)} {fails : Bool}
    {frame : Frame config} {frames : List (Frame config)}
    (notWorker : frame.isWorker = false)
    (advanced : frame.advance shared home fails =
      some (following, frames)) :
    ∀ new ∈ frames, new.isWorker = false := by
  intro new member
  rw [Frame.isWorker_eq, decide_eq_false_iff_not] at notWorker ⊢
  rcases Frame.advance_kind advanced new member with same | executes
  · exact same ▸ notWorker
  · exact executes ▸ Frame.Kind.noConfusion

/-- The stack of a worker. -/
inductive Posture : List (Frame config) → Prop
  | exited : Posture []
  | looping (pc : WorkerPc config) : Posture [.worker pc]
  | busy (top : Frame config) (rest : List (Frame config)) :
      top.isWorker = false → (∀ frame ∈ rest, frame.isWorker = false) →
      Posture (top :: (rest ++ [.worker .loading]))

/-- Frames of tasks on top of the loop. -/
theorem Posture.of_frames {frames : List (Frame config)}
    (notWorker : ∀ frame ∈ frames, frame.isWorker = false) :
    Posture (frames ++ [.worker .loading]) := by
  cases frames with
  | nil => exact .looping .loading
  | cons top rest =>
      obtain ⟨first, others⟩ := List.forall_mem_cons.mp notWorker
      exact .busy top rest first others

/-- A worker in its loop takes a step. -/
theorem Posture.of_worker {shared following : Shared config}
    {worker : Fin config.workers} {completedFirst misses : Bool}
    {pc : WorkerPc config} {frames : List (Frame config)}
    (stepped : pc.step shared worker completedFirst misses =
      (following, frames)) :
    Posture frames ∧ (shared.shutdownFlag = false → frames ≠ []) := by
  unfold WorkerPc.step at stepped
  split at stepped
  · cases stepped
    exact ⟨.looping _, fun _ => List.cons_ne_nil _ _⟩
  · cases stepped
    exact ⟨.looping _, fun _ => List.cons_ne_nil _ _⟩
  · cases stepped
    exact ⟨.looping _, fun _ => List.cons_ne_nil _ _⟩
  · split at stepped
    · rename_i exits
      cases stepped
      refine ⟨.exited, fun noFlag => ?_⟩
      rw [noFlag] at exits
      cases exits
    · cases stepped
      exact ⟨.looping _, fun _ => List.cons_ne_nil _ _⟩
  · cases stepped
    exact ⟨.looping _, fun _ => List.cons_ne_nil _ _⟩
  · split at stepped
    · cases stepped
      exact ⟨.busy _ [] rfl (List.forall_mem_nil _),
        fun _ => List.cons_ne_nil _ _⟩
    · cases stepped
      exact ⟨.looping _, fun _ => List.cons_ne_nil _ _⟩

/-- A worker with tasks has its loop below them after any of its moves. -/
theorem Stacked.of_busy {shared following : Shared config}
    {thread : Thread config} {move : Move}
    {top : Frame config} {rest stack : List (Frame config)}
    (stacked : Stacked shared thread move following stack)
    (holds : thread.stack = top :: (rest ++ [.worker .loading]))
    (notWorker : top.isWorker = false)
    (others : ∀ frame ∈ rest, frame.isWorker = false) :
    ∃ frames, stack = frames ++ [.worker .loading] ∧
      ∀ frame ∈ frames, frame.isWorker = false := by
  cases stacked with
  | advance stands advanced =>
      obtain ⟨rfl, rfl⟩ := List.cons.inj (stands.symm.trans holds)
      refine ⟨_ ++ rest, (List.append_assoc ..).symm, ?_⟩
      exact List.forall_mem_append.mpr
        ⟨Frame.advance_isWorker notWorker advanced, others⟩
  | bodyEnds stands =>
      obtain ⟨rfl, rfl⟩ := List.cons.inj (stands.symm.trans holds)
      exact ⟨_ :: rest, rfl, List.forall_mem_cons.mpr ⟨rfl, others⟩⟩
  | help stands callsOut =>
      obtain ⟨rfl, rfl⟩ := List.cons.inj (stands.symm.trans holds)
      refine ⟨_ :: _ :: rest, rfl, List.forall_mem_cons.mpr ⟨rfl, ?_⟩⟩
      exact List.forall_mem_cons.mpr ⟨rfl, others⟩
  | call stands callsOut started =>
      obtain ⟨rfl, rfl⟩ := List.cons.inj (stands.symm.trans holds)
      exact ⟨_ :: rest, rfl, List.forall_mem_cons.mpr ⟨rfl, others⟩⟩
  | begin empty begins =>
      rw [holds] at empty
      cases empty

/-- A worker without a task makes the next access of its loop. -/
theorem Stacked.of_looping {shared following : Shared config}
    {thread : Thread config} {move : Move} {pc : WorkerPc config}
    {stack : List (Frame config)}
    (stacked : Stacked shared thread move following stack)
    (holds : thread.stack = [.worker pc]) :
    ∃ worker fails, pc.step shared worker fails fails =
      (following, stack) := by
  cases stacked with
  | advance stands advanced =>
      obtain ⟨rfl, rfl⟩ := List.cons.inj (stands.symm.trans holds)
      obtain ⟨worker, _, result⟩ := Option.map_eq_some_iff.mp advanced
      rw [List.append_nil]
      exact ⟨worker, _, result⟩
  | bodyEnds stands => cases stands.symm.trans holds
  | help stands callsOut => cases stands.symm.trans holds
  | call stands callsOut started => cases stands.symm.trans holds
  | begin empty begins => cases empty.symm.trans holds

/-- A worker that has left its loop does nothing. -/
theorem Stacked.not_exited {shared following : Shared config}
    {thread : Thread config} {move : Move} {stack : List (Frame config)}
    (stacked : Stacked shared thread move following stack)
    (isWorker : thread.role.isWorker = true) : thread.stack ≠ [] := by
  intro exited
  cases stacked with
  | advance stands _ => cases stands.symm.trans exited
  | bodyEnds stands => cases stands.symm.trans exited
  | help stands callsOut => cases stands.symm.trans exited
  | call stands callsOut started => cases stands.symm.trans exited
  | begin _ begins =>
      cases role : thread.role with
      | worker index =>
          rw [role] at begins
          cases begins
      | _ =>
          rw [role] at isWorker
          cases isWorker

theorem Posture.stacked {shared following : Shared config}
    {thread : Thread config} {move : Move} {stack : List (Frame config)}
    (posture : Posture thread.stack) (isWorker : thread.role.isWorker = true)
    (stacked : Stacked shared thread move following stack) :
    Posture stack ∧ (shared.shutdownFlag = false → stack ≠ []) := by
  generalize holds : thread.stack = before at posture
  cases posture with
  | exited => exact absurd holds (stacked.not_exited isWorker)
  | looping pc =>
      obtain ⟨worker, fails, stepped⟩ := stacked.of_looping holds
      exact Posture.of_worker stepped
  | busy top rest notWorker others =>
      obtain ⟨frames, rfl, areTasks⟩ := stacked.of_busy holds notWorker others
      exact ⟨.of_frames areTasks, fun _ => by simp⟩

/-- What is known of the workers. -/
structure Working (state : State config) : Prop where
  postures : ∀ thread ∈ state.threads, thread.role.isWorker = true →
    Posture thread.stack
  awake : state.shared.shutdownFlag = false →
    ∀ thread ∈ state.threads, thread.role.isWorker = true →
      thread.stack ≠ []
  workers : state.threads.filterMap (·.role.worker?) =
    List.finRange config.workers

/-- Replacing the stack of a thread keeps its role. -/
theorem filterMap_role_set {threads : List (Thread config)} {index : Nat}
    {thread replaced : Thread config}
    (found : threads[index]? = some thread)
    (sameRole : replaced.role = thread.role) :
    (threads.set index replaced).filterMap (·.role.worker?) =
      threads.filterMap (·.role.worker?) := by
  induction threads generalizing index with
  | nil => cases found
  | cons first rest inductionHypothesis =>
      cases index with
      | zero =>
          obtain rfl : first = thread := by simpa using found
          simp [List.filterMap_cons, sameRole]
      | succ index =>
          have shifted := inductionHypothesis
            (by simpa using found : rest[index]? = some thread)
          simp only [List.set_cons_succ, List.filterMap_cons, shifted]

theorem working_of_reachable {state : State config}
    (reached : (node config).Reachable state) : Working state := by
  refine Machine.Reachable.invariant ?_ ?_ reached
  · intro state isInitial
    refine ⟨?_, ?_, isInitial.workers⟩
    · intro thread member isWorker
      rw [(isInitial.threads thread member).1]
      cases thread.role with
      | worker index => exact .looping .loading
      | _ => exact .exited
    · intro _ thread member isWorker
      rw [(isInitial.threads thread member).1]
      cases role : thread.role with
      | worker index => exact List.cons_ne_nil _ _
      | _ =>
          rw [role] at isWorker
          cases isWorker
  · intro state action following working stepped
    cases step_stepped stepped with
    | tick => exact ⟨working.postures, working.awake, working.workers⟩
    | stop => exact ⟨working.postures, working.awake, working.workers⟩
    | shutdown =>
        refine ⟨working.postures, fun noFlag => ?_, working.workers⟩
        cases noFlag
    | @quit index thread found _ _ _ =>
        have member := List.mem_of_getElem? found
        refine ⟨?_, ?_, ?_⟩
        · intro other inside isWorker
          rcases List.mem_or_eq_of_mem_set inside with old | rfl
          · exact working.postures other old isWorker
          · exact working.postures thread member isWorker
        · intro noFlag other inside isWorker
          rcases List.mem_or_eq_of_mem_set inside with old | rfl
          · exact working.awake noFlag other old isWorker
          · exact working.awake noFlag thread member isWorker
        · refine Eq.trans ?_ working.workers
          exact filterMap_role_set found rfl
    | move found _ _ stacked =>
        have member := List.mem_of_getElem? found
        refine ⟨?_, ?_, ?_⟩
        · intro other inside isWorker
          rcases List.mem_or_eq_of_mem_set inside with old | rfl
          · exact working.postures other old isWorker
          · exact ((working.postures _ member isWorker).stacked isWorker
              stacked).1
        · intro noFlag other inside isWorker
          rw [stacked.flag] at noFlag
          rcases List.mem_or_eq_of_mem_set inside with old | rfl
          · exact working.awake noFlag other old isWorker
          · exact ((working.postures _ member isWorker).stacked isWorker
              stacked).2 noFlag
        · refine Eq.trans ?_ working.workers
          exact filterMap_role_set found rfl

/-! ## Tasks at other nodes -/

section Outstanding

/-- One for a task that is at another node. -/
def away : Token → Nat :=
  placed Place.isOutstanding

theorem away_mk (place : Place) (task : Task) :
    away ⟨place, task⟩ = if place.isOutstanding then 1 else 0 := rfl

/-- The tasks at other nodes are those in `outstanding_`. -/
theorem State.total_away (state : State config) :
    total away state.tokens = state.shared.outstanding.length := by
  have queued : ∀ portable tasks,
      total away (queuedTokens portable tasks) = 0 := by
    intro portable tasks
    simp [queuedTokens, away_mk, Place.isOutstanding]
  have inFrames : total away (state.threads.flatMap fun thread =>
      stackTokens thread.stack) = 0 := by
    rw [total_flatMap, Lib.total_eq_zero]
    intro thread _
    rw [stackTokens, total_flatMap, Lib.total_eq_zero]
    intro frame _
    rw [Lib.total_eq_zero]
    intro token member
    have elsewhere := frame.not_stored token member
    obtain ⟨place, task⟩ := token
    rw [away_mk, if_neg]
    intro isOutstanding
    cases place <;> simp_all [Place.isOutstanding, Place.isStored]
  rw [State.tokens, total_append, inFrames]
  simp [Shared.tokens, total_flatMap, queued, owedToken, away_mk,
    Place.isOutstanding]

end Outstanding

/-! ## Replacing a thread -/

theorem mem_set_self {threads : List (Thread config)} {index : Nat}
    {thread : Thread config} (replaced : Thread config)
    (found : threads[index]? = some thread) :
    replaced ∈ threads.set index replaced :=
  List.mem_set (List.getElem?_eq_some_iff.mp found).1 replaced

/-- A thread other than the replaced one stays. -/
theorem mem_set_of_mem {threads : List (Thread config)} {index : Nat}
    {thread other : Thread config} (replaced : Thread config)
    (found : threads[index]? = some thread) (member : other ∈ threads) :
    other = thread ∨ other ∈ threads.set index replaced := by
  obtain ⟨position, at_⟩ := List.mem_iff_getElem?.mp member
  by_cases same : position = index
  · subst same
    exact .inl (Option.some.inj (at_.symm.trans found))
  · right
    apply List.mem_iff_getElem?.mpr
    exact ⟨position, by rw [List.getElem?_set_ne (Ne.symm same), at_]⟩

/-- There is a worker. -/
theorem Working.exists_worker {state : State config}
    (working : Working state) :
    ∃ thread ∈ state.threads, thread.role.isWorker = true := by
  have first : (⟨0, config.workers_pos⟩ : Fin config.workers) ∈
      state.threads.filterMap (·.role.worker?) := by
    rw [working.workers]
    exact List.mem_finRange _
  obtain ⟨thread, member, isFirst⟩ := List.mem_filterMap.mp first
  exact ⟨thread, member, Option.isSome_of_eq_some isFirst⟩

end HydraRT.Cluster
