import HydraRT.Cluster.Cluster

/-!
# The counters of a node

`local_executed_`, `stolen_in_` and `stolen_out_` lag behind what they count:
a thread that has run a task, taken tasks in or handed tasks out adds to the
counter some steps later.  What the counters and the threads on their way to
them show together is exact.
-/

namespace HydraRT.Cluster

open HydraRT.Inference
open HydraRT.Lib

variable {config : NodeConfig}

/-! ## Readings -/

/-- One for a call that has run a task and not counted it. -/
def Frame.uncounted : Frame config → Nat
  | .execute _ _ (.notify _ _) | .execute _ _ .localCount => 1
  | _ => 0

/-- The tasks in a response that is counted and not sent. -/
def Frame.unsent : Frame config → Nat
  | .serve _ (.sizing _ _ taken) | .serve _ (.sending _ taken) => taken.length
  | _ => 0

/-- The tasks that a call of `try_remote_steal` has received and not
counted. -/
def Frame.accepting : Frame config → Nat
  | .accept _ tasks _ _ => tasks.length
  | _ => 0

/-- One for application code inside a submit function. -/
def Frame.calling : Frame config → Nat
  | .call _ | .execute _ _ (.running (some _)) => 1
  | _ => 0

/-- The sum of a reading over all calls in progress. -/
def State.reading (state : State config) (measure : Frame config → Nat) :
    Nat :=
  total (fun thread => total measure thread.stack) state.threads

def Entry.isExecuted : Entry → Bool
  | .executed _ => true
  | _ => false

/-- How many tasks have been run. -/
def executedIn (history : List Entry) : Nat :=
  history.countP Entry.isExecuted

def Entry.isReaped : Entry → Bool
  | .reaped _ => true
  | _ => false

/-- How many tasks have been reaped. -/
def reapedIn (history : List Entry) : Nat :=
  history.countP Entry.isReaped

/-- How many tasks have been sent. -/
def sentIn (replies : List Reply) : Nat :=
  total (fun reply => reply.tasks.length) replies

/-- What the counters and the records show. -/
structure Meters where
  localExecuted : Nat
  stolenIn : Nat
  stolenOut : Nat
  executed : Nat
  sent : Nat
  requests : Nat
  reaped : Nat
  deriving DecidableEq, Repr

def Shared.meters (shared : Shared config) : Meters where
  localExecuted := shared.localExecuted
  stolenIn := shared.stolenIn
  stolenOut := shared.stolenOut
  executed := executedIn shared.history
  sent := sentIn shared.replies
  requests := shared.jobs.nextRequestId
  reaped := reapedIn shared.history

/-- The tasks that come in with the move. -/
def Move.received : Move → List Task
  | .reply _ tasks => tasks
  | _ => []

def Action.received : Action → List Task
  | .move _ made => made.received
  | _ => []

/-- The reaper finds expired tasks. -/
def Action.reaps : Action → Bool
  | .move _ (.reap lost) => !lost.isEmpty
  | _ => false

/-- Application code calls a submit function. -/
def Action.submits : Action → Bool
  | .move _ (.call .help) => false
  | .move _ (.call _) => true
  | _ => false

/-! ## Calls that touch no counter -/

section Calls

variable (shared : Shared config) (home : Option (Fin config.workers))

theorem Shared.meters_remember {entries : List Entry}
    (noRun : entries.countP Entry.isExecuted = 0)
    (noReap : entries.countP Entry.isReaped = 0) :
    (shared.remember entries).meters = shared.meters := by
  simp [Shared.meters, Shared.remember, executedIn, reapedIn, noRun, noReap]

theorem JobManager.nextRequestId_markDone (jobs : JobManager)
    (p : StagePayload) :
    (jobs.markDone p).nextRequestId = jobs.nextRequestId := by
  unfold JobManager.markDone
  split
  · rfl
  · split <;> rfl

theorem SubmitCall.meters_step (call : SubmitCall config) :
    (call.step shared home).1.meters = shared.meters := by
  unfold SubmitCall.step
  split
  · rfl
  · exact Shared.meters_remember _ rfl rfl
  · rfl
  · rfl

theorem CompletePc.meters_step (task : Task) (pc : CompletePc config) :
    (pc.step shared home task).1.meters = shared.meters := by
  cases pc with
  | observe =>
      simp only [CompletePc.step]
      split
      · rfl
      · split
        · exact Shared.meters_remember _ rfl rfl
        · split
          · refine (Shared.meters_remember _ rfl rfl).trans ?_
            unfold Shared.meters
            rw [JobManager.nextRequestId_markDone]
          · exact Shared.meters_remember _ rfl rfl
  | submitting p call =>
      rw [CompletePc.step_submitting_fst]
      exact call.meters_step shared home
  | record p => rfl
  | finish => rfl

/-- Only `JobManager::submit` draws a request id. -/
theorem UserCall.meters_step (call : UserCall config) :
    (call.step shared home).1.meters =
      { shared.meters with
        requests := (call.step shared home).1.jobs.nextRequestId } := by
  have submitting : ∀ call : SubmitCall config,
      (call.step shared home).1.meters =
        { shared.meters with
          requests := (call.step shared home).1.jobs.nextRequestId } := by
    intro call
    have kept := call.meters_step shared home
    have requests := congrArg Meters.requests kept
    change (call.step shared home).1.jobs.nextRequestId = _ at requests
    rw [kept, requests]
  cases call with
  | submit call =>
      rw [UserCall.step_submit_fst]
      exact submitting call
  | job request pc =>
      rw [UserCall.step_job_fst]
      cases pc with
      | submitting id call =>
          rw [JobPc.step_submitting_fst]
          exact submitting call
      | _ => rfl

end Calls

theorem Shared.meters_take? {shared following : Shared config}
    {home : Option (Fin config.workers)} {queue : Queue config}
    {misses : Bool} {task : Task}
    (taken : shared.take? home queue misses = some (task, following)) :
    following.meters = shared.meters := by
  obtain ⟨rest, rfl, _⟩ := Shared.take?_eq_some taken
  rfl

/-! ## Steps -/

/-- What a step does to the counters and to the readings of the acting
call. -/
structure Metered (before after : Meters) (old new : List (Frame config)) :
    Prop where
  counted : after.localExecuted + total Frame.uncounted new +
      before.executed =
    before.localExecuted + total Frame.uncounted old + after.executed
  sent : after.stolenOut + before.sent + total Frame.unsent old =
    before.stolenOut + after.sent + total Frame.unsent new
  accepted : after.stolenIn + total Frame.accepting new =
    before.stolenIn + total Frame.accepting old
  localGrows : before.localExecuted ≤ after.localExecuted
  unreaped : after.reaped = before.reaped
  uncalled : total Frame.calling old = 0 →
    total Frame.calling new = 0 ∧ after.requests = before.requests

section Still

variable {before after : Meters} {old new : List (Frame config)}

/-- A step that moves no counter and no reading. -/
theorem Metered.still (same : after = before)
    (uncounted : total Frame.uncounted new = total Frame.uncounted old)
    (unsent : total Frame.unsent new = total Frame.unsent old)
    (accepting : total Frame.accepting new = total Frame.accepting old)
    (calling : total Frame.calling new = total Frame.calling old) :
    Metered before after old new := by
  subst same
  exact ⟨by omega, by omega, by omega, Nat.le_refl _, rfl,
    fun none => ⟨calling.trans none, rfl⟩⟩

/-- A step of a submit function that application code has called. -/
theorem Metered.called
    (same : after = { before with requests := after.requests })
    (uncounted : total Frame.uncounted new = total Frame.uncounted old)
    (unsent : total Frame.unsent new = total Frame.unsent old)
    (accepting : total Frame.accepting new = total Frame.accepting old)
    (calling : total Frame.calling old ≠ 0) :
    Metered before after old new := by
  rw [same]
  exact ⟨by dsimp only; omega, by dsimp only; omega, by dsimp only; omega,
    Nat.le_refl _, rfl, fun none => absurd none calling⟩

end Still

theorem WorkerPc.metered (shared : Shared config)
    (worker : Fin config.workers) (completedFirst misses : Bool)
    (pc : WorkerPc config) :
    Metered shared.meters
      (pc.step shared worker completedFirst misses).1.meters
      [.worker pc] (pc.step shared worker completedFirst misses).2 := by
  unfold WorkerPc.step
  split
  · exact .still rfl rfl rfl rfl rfl
  · exact .still rfl rfl rfl rfl rfl
  · exact .still rfl rfl rfl rfl rfl
  · split
    · exact .still rfl rfl rfl rfl rfl
    · exact .still rfl rfl rfl rfl rfl
  · exact .still rfl rfl rfl rfl rfl
  · split
    · rename_i taken
      exact .still (Shared.meters_take? taken) rfl rfl rfl rfl
    · exact .still rfl rfl rfl rfl rfl

theorem ExecutePc.metered {shared following : Shared config}
    {home : Option (Fin config.workers)} {task : Task} {helped : Bool}
    {pc : ExecutePc config} {frames : List (Frame config)}
    (stepped : pc.step shared home task helped = some (following, frames)) :
    Metered shared.meters following.meters [.execute task helped pc]
      frames := by
  cases pc with
  | running call =>
      cases call with
      | none => cases stepped
      | some call =>
          cases stepped
          exact .called (call.meters_step shared home) rfl rfl rfl
            Nat.one_ne_zero
  | notify origin taskId =>
      cases stepped
      split
      · exact .still rfl rfl rfl rfl rfl
      · exact .still rfl rfl rfl rfl rfl
  | localCount =>
      cases stepped
      refine ⟨?_, rfl, rfl, Nat.le_succ _, rfl, fun _ => ⟨rfl, rfl⟩⟩
      simp only [Shared.meters, Frame.uncounted, total_cons, total_nil]
  | completing pc =>
      have kept := pc.meters_step shared home task
      simp only [ExecutePc.step] at stepped
      split at stepped
      · rename_i next rest advanced
        cases stepped
        rw [advanced] at kept
        exact .still kept rfl rfl rfl rfl
      · rename_i next advanced
        cases stepped
        rw [advanced] at kept
        refine .still kept ?_ ?_ ?_ ?_
        all_goals cases helped <;> rfl
  | helpedCount =>
      cases stepped
      exact .still rfl rfl rfl rfl rfl

theorem ServePc.metered (shared : Shared config) (request : StealRequest)
    (pc : ServePc) :
    Metered shared.meters (pc.step shared request).1.meters
      [.serve request pc] (pc.step shared request).2 := by
  unfold ServePc.step
  split
  · exact .still rfl rfl rfl rfl rfl
  · exact .still rfl rfl rfl rfl rfl
  · exact .still rfl rfl rfl rfl rfl
  · exact .still rfl rfl rfl rfl rfl
  · split
    · rename_i taken
      exact .still (Shared.meters_take? taken) rfl rfl rfl rfl
    · exact .still rfl rfl rfl rfl rfl
  · refine .still ?_ rfl rfl rfl rfl
    unfold Shared.trackOutstanding
    split <;> rfl
  · rename_i taken
    refine ⟨rfl, ?_, rfl, Nat.le_refl _, rfl,
      fun _ => ⟨rfl, rfl⟩⟩
    simp only [Shared.meters, Frame.unsent, total_cons, total_nil]
    omega
  · exact .still rfl rfl rfl rfl rfl
  · exact .still rfl rfl rfl rfl rfl
  · rename_i pending taken
    refine ⟨rfl, ?_, rfl, Nat.le_refl _, rfl,
      fun _ => ⟨rfl, rfl⟩⟩
    simp only [Shared.meters, Frame.unsent, sentIn, total_append, total_cons,
      total_nil]
    omega

theorem ReapPc.metered (shared : Shared config)
    (home : Option (Fin config.workers)) (lost : List Task)
    (pc : ReapPc config) :
    Metered shared.meters (pc.step shared home lost).1.meters
      [.reap lost pc] (pc.step shared home lost).2 := by
  unfold ReapPc.step
  split
  · exact .still rfl rfl rfl rfl rfl
  · exact .still rfl rfl rfl rfl rfl
  · rename_i task call
    have kept := call.meters_step shared home
    split
    · rename_i stepped
      rw [stepped] at kept
      exact .still kept rfl rfl rfl rfl
    · rename_i stepped
      rw [stepped] at kept
      exact .still kept rfl rfl rfl rfl
  · rename_i task pc
    have kept := pc.meters_step shared home task.settled
    split
    · rename_i stepped
      rw [stepped] at kept
      exact .still kept rfl rfl rfl rfl
    · rename_i stepped
      rw [stepped] at kept
      exact .still kept rfl rfl rfl rfl

theorem acceptStep_metered (shared : Shared config)
    (home : Option (Fin config.workers)) (link : NodeId)
    (tasks remaining : List Task) (call : Option (SubmitCall config)) :
    Metered shared.meters
      (acceptStep shared home link tasks remaining call).1.meters
      [.accept link tasks remaining call]
      (acceptStep shared home link tasks remaining call).2 := by
  unfold acceptStep
  split
  · refine ⟨rfl, rfl, ?_, Nat.le_refl _, rfl, fun _ => ⟨rfl, rfl⟩⟩
    simp only [Shared.meters, Frame.accepting, total_cons, total_nil]
    omega
  · exact .still rfl rfl rfl rfl rfl
  · rename_i call
    exact .still (call.meters_step shared home) rfl rfl rfl rfl

theorem Frame.metered {shared following : Shared config}
    {home : Option (Fin config.workers)} {fails : Bool}
    {frame : Frame config} {frames : List (Frame config)}
    (advanced : frame.advance shared home fails = some (following, frames)) :
    Metered shared.meters following.meters [frame] frames := by
  cases frame with
  | worker pc =>
      cases home with
      | none => cases advanced
      | some worker =>
          have result : pc.step shared worker fails fails =
              (following, frames) := Option.some.inj advanced
          have metered := pc.metered shared worker fails fails
          rw [result] at metered
          exact metered
  | help remaining =>
      cases remaining with
      | nil =>
          cases advanced
          exact .still rfl rfl rfl rfl rfl
      | cons queue rest =>
          simp only [Frame.advance] at advanced
          split at advanced
          · rename_i taken
            cases advanced
            exact .still (Shared.meters_take? taken) rfl rfl rfl rfl
          · cases advanced
            exact .still rfl rfl rfl rfl rfl
  | execute task helped pc => exact ExecutePc.metered advanced
  | call begun =>
      have kept := begun.meters_step shared home
      simp only [Frame.advance] at advanced
      split at advanced
      · rename_i stepped
        cases advanced
        rw [stepped] at kept
        exact .called kept rfl rfl rfl Nat.one_ne_zero
      · rename_i stepped
        cases advanced
        rw [stepped] at kept
        exact .called kept rfl rfl rfl Nat.one_ne_zero
  | serve request pc =>
      have metered := pc.metered shared request
      rw [Option.some.inj advanced] at metered
      exact metered
  | resolve task pc =>
      have kept := pc.meters_step shared home task
      simp only [Frame.advance] at advanced
      split at advanced
      · rename_i stepped
        cases advanced
        rw [stepped] at kept
        exact .still kept rfl rfl rfl rfl
      · rename_i stepped
        cases advanced
        rw [stepped] at kept
        exact .still kept rfl rfl rfl rfl
  | reap lost pc =>
      have metered := pc.metered shared home lost
      rw [Option.some.inj advanced] at metered
      exact metered
  | accept link tasks remaining call =>
      have metered := acceptStep_metered shared home link tasks remaining call
      rw [Option.some.inj advanced] at metered
      exact metered
  | complete batch =>
      cases batch with
      | nil =>
          cases advanced
          exact .still rfl rfl rfl rfl rfl
      | cons item rest =>
          cases advanced
          split
          · exact .still rfl rfl rfl rfl rfl
          · exact .still rfl rfl rfl rfl rfl

/-- What a step of a node does to its counters and readings. -/
structure StepMetered (action : Action) (before after : State config) :
    Prop where
  counted : after.shared.localExecuted + after.reading Frame.uncounted +
      executedIn before.shared.history =
    before.shared.localExecuted + before.reading Frame.uncounted +
      executedIn after.shared.history
  sent : after.shared.stolenOut + sentIn before.shared.replies +
      before.reading Frame.unsent =
    before.shared.stolenOut + sentIn after.shared.replies +
      after.reading Frame.unsent
  accepted : after.shared.stolenIn + after.reading Frame.accepting =
    before.shared.stolenIn + before.reading Frame.accepting +
      action.received.length
  localGrows : before.shared.localExecuted ≤ after.shared.localExecuted
  unreaped : action.reaps = false →
    reapedIn after.shared.history = reapedIn before.shared.history
  uncalled : action.submits = false → before.reading Frame.calling = 0 →
    after.reading Frame.calling = 0 ∧
      after.shared.jobs.nextRequestId = before.shared.jobs.nextRequestId

section Steps

variable {state following : State config}

/-- Replacing the stack of one thread. -/
theorem State.reading_set (measure : Frame config → Nat)
    (shared : Shared config) (stack : List (Frame config)) {index : Nat}
    {thread : Thread config}
    (found : state.threads[index]? = some thread) :
    State.reading { shared
                    threads := state.threads.set index
                      { thread with stack } } measure +
        total measure thread.stack =
      state.reading measure + total measure stack :=
  total_set (fun each : Thread config => total measure each.stack) found
    { thread with stack }

theorem State.le_reading (state : State config)
    (measure : Frame config → Nat) {index : Nat} {thread : Thread config}
    (found : state.threads[index]? = some thread) :
    total measure thread.stack ≤ state.reading measure :=
  @le_total_of_mem _ (fun each : Thread config => total measure each.stack)
    _ _ (List.mem_of_getElem? found)

/-- A reading that the tokens of every call account for. -/
theorem State.reading_le (state : State config) {measure : Frame config → Nat}
    {weigh : Token → Nat}
    (bound : ∀ frame, measure frame ≤ total weigh frame.tokens) :
    state.reading measure ≤ total weigh state.tokens := by
  unfold State.reading State.tokens
  rw [total_append, total_flatMap]
  refine Nat.le_trans (total_le_total fun thread _ => ?_)
    (Nat.le_add_left _ _)
  unfold stackTokens
  rw [total_flatMap]
  exact total_le_total fun frame _ => bound frame

/-- A step that neither the counters nor the readings show. -/
theorem StepMetered.still {action : Action}
    (same : following.shared.meters = state.shared.meters)
    (noTasks : action.received = [])
    (readings : ∀ measure, following.reading measure =
      state.reading measure) :
    StepMetered action state following := by
  simp only [Shared.meters, Meters.mk.injEq] at same
  obtain ⟨sameLocal, sameIn, sameOut, sameExecuted, sameSent, requests,
    reaped⟩ := same
  refine ⟨?_, ?_, ?_, by omega, fun _ => reaped, ?_⟩
  · rw [readings]
    omega
  · rw [readings]
    omega
  · rw [readings, noTasks]
    simp only [List.length_nil]
    omega
  · intro _ none
    rw [readings]
    exact ⟨none, requests⟩

/-- A step of one thread that takes no tasks in and starts no call. -/
theorem Metered.step {index : Nat} {thread : Thread config} {move : Move}
    {shared : Shared config} {old new below : List (Frame config)}
    (metered : Metered state.shared.meters shared.meters old new)
    (found : state.threads[index]? = some thread)
    (holds : thread.stack = old ++ below)
    (noTasks : move.received = []) :
    StepMetered (.move index move) state
      { shared
        threads := state.threads.set index
          { thread with stack := new ++ below } } := by
  have replaced := fun measure =>
    state.reading_set measure shared (new ++ below) found
  simp only [holds, total_append] at replaced
  obtain ⟨counted, sent, accepted, localGrows, unreaped, uncalled⟩ := metered
  simp only [Shared.meters] at counted sent accepted localGrows
  refine ⟨?_, ?_, ?_, localGrows, fun _ => unreaped, ?_⟩
  · have reading := replaced Frame.uncounted
    dsimp only at reading ⊢
    omega
  · have reading := replaced Frame.unsent
    dsimp only at reading ⊢
    omega
  · have reading := replaced Frame.accepting
    simp only [Action.received, noTasks, List.length_nil]
    omega
  · intro _ none
    have reading := replaced Frame.calling
    have held := state.le_reading Frame.calling found
    rw [holds, total_append] at held
    obtain ⟨noCall, requests⟩ := uncalled (by omega)
    exact ⟨by omega, requests⟩

/-- A step that begins a call and leaves the counters alone. -/
theorem StepMetered.begun {index : Nat} {thread : Thread config}
    {move : Move} {shared : Shared config} {stack : List (Frame config)}
    (same : shared.meters =
      { state.shared.meters with reaped := reapedIn shared.history })
    (unreaped : (Action.move index move).reaps = false →
      reapedIn shared.history = reapedIn state.shared.history)
    (found : state.threads[index]? = some thread)
    (uncounted : total Frame.uncounted stack =
      total Frame.uncounted thread.stack)
    (unsent : total Frame.unsent stack = total Frame.unsent thread.stack)
    (accepting : total Frame.accepting stack =
      total Frame.accepting thread.stack + move.received.length)
    (calling : (Action.move index move).submits = false →
      total Frame.calling stack = total Frame.calling thread.stack) :
    StepMetered (.move index move) state
      { shared
        threads := state.threads.set index { thread with stack } } := by
  have replaced := fun measure =>
    state.reading_set measure shared stack found
  simp only [Shared.meters, Meters.mk.injEq] at same
  obtain ⟨sameLocal, sameIn, sameOut, sameExecuted, sameSent, requests, _⟩ :=
    same
  refine ⟨?_, ?_, ?_, Nat.le_of_eq sameLocal.symm, unreaped, ?_⟩
  · have reading := replaced Frame.uncounted
    dsimp only
    omega
  · have reading := replaced Frame.unsent
    dsimp only
    omega
  · have reading := replaced Frame.accepting
    simp only [Action.received]
    omega
  · intro submits none
    have reading := replaced Frame.calling
    have kept := calling submits
    exact ⟨by omega, requests⟩

/-- A call that a thread without a call in progress begins. -/
theorem Role.begin_metered {shared after : Shared config}
    {role : Role config} {move : Move} {frames : List (Frame config)}
    (begins : role.begin shared move = some (after, frames)) :
    after.meters = { shared.meters with reaped := reapedIn after.history } ∧
      (∀ index, (Action.move index move).reaps = false →
        reapedIn after.history = reapedIn shared.history) ∧
      total Frame.uncounted frames = 0 ∧ total Frame.unsent frames = 0 ∧
      total Frame.accepting frames = move.received.length ∧
      (∀ index, (Action.move index move).submits = false →
        total Frame.calling frames = 0) := by
  unfold Role.begin at begins
  split at begins
  · split at begins
    · cases begins
      exact ⟨rfl, fun _ _ => rfl, rfl, rfl, rfl, fun _ _ => rfl⟩
    · rename_i call notHelp
      obtain ⟨begun, started, result⟩ := Option.map_eq_some_iff.mp begins
      cases result
      refine ⟨rfl, fun _ _ => rfl, rfl, rfl, rfl, fun index submits => ?_⟩
      cases call <;> simp_all [Action.submits, Call.start]
  · cases begins
    exact ⟨rfl, fun _ _ => rfl, rfl, rfl, rfl, fun _ _ => rfl⟩
  · split at begins
    · cases begins
      exact ⟨rfl, fun _ _ => rfl, rfl, rfl, rfl, fun _ _ => rfl⟩
    · obtain ⟨entry, _, result⟩ := Option.map_eq_some_iff.mp begins
      cases result
      exact ⟨rfl, fun _ _ => rfl, rfl, rfl, rfl, fun _ _ => rfl⟩
  · split at begins
    · rename_i lost _
      cases begins
      refine ⟨?_, fun _ noLoss => ?_, rfl, rfl, rfl, fun _ _ => rfl⟩
      · simp [Shared.meters, Shared.remember, executedIn, List.countP_map,
          Function.comp_def, Entry.isExecuted]
      · have none : lost = [] := by
          simpa [Action.reaps] using noLoss
        simp [Shared.remember, none]
    · cases begins
  · split at begins
    · rename_i tasks empty
      cases begins
      rw [List.isEmpty_iff.mp empty]
      exact ⟨rfl, fun _ _ => rfl, rfl, rfl, rfl, fun _ _ => rfl⟩
    · cases begins
      exact ⟨rfl, fun _ _ => rfl, rfl, rfl, rfl, fun _ _ => rfl⟩
  · cases begins
    exact ⟨rfl, fun _ _ => rfl, rfl, rfl, rfl, fun _ _ => rfl⟩
  · cases begins

/-- What a body leaves to be counted. -/
theorem bodyEnds_metered (shared : Shared config) (task : Task)
    (helped : Bool) :
    Metered shared.meters
      (shared.remember (.executed task.taskId :: performs config task)).meters
      ([.execute task helped (.running none)] : List (Frame config))
      [.execute task helped (afterBody task)] := by
  have noOther : (performs config task).countP Entry.isExecuted = 0 := by
    unfold performs
    split
    · rfl
    · split <;> rfl
  have executed : executedIn (shared.remember
      (.executed task.taskId :: performs config task)).history =
      executedIn shared.history + 1 := by
    simp [Shared.remember, executedIn, List.countP_cons, noOther,
      Entry.isExecuted]
  have reaped : reapedIn (shared.remember
      (.executed task.taskId :: performs config task)).history =
      reapedIn shared.history := by
    have noReap : (performs config task).countP Entry.isReaped = 0 := by
      unfold performs
      split
      · rfl
      · split <;> rfl
    simp [Shared.remember, reapedIn, noReap, Entry.isReaped]
  unfold afterBody
  split
  · refine ⟨?_, rfl, rfl, Nat.le_refl _, reaped,
      fun _ => ⟨rfl, rfl⟩⟩
    simp only [Shared.meters, executed, total_cons, total_nil,
      Frame.uncounted]
    change shared.localExecuted + _ + _ = _
    omega
  · refine ⟨?_, rfl, rfl, Nat.le_refl _, reaped,
      fun _ => ⟨rfl, rfl⟩⟩
    simp only [Shared.meters, executed, total_cons, total_nil,
      Frame.uncounted]
    change shared.localExecuted + _ + _ = _
    omega

/-- Every step keeps the books of the counters. -/
theorem step_metered {action : Action}
    (stepped : (node config).step state action = some following) :
    StepMetered action state following := by
  cases step_stepped stepped with
  | tick => exact .still rfl rfl fun _ => rfl
  | stop => exact .still rfl rfl fun _ => rfl
  | shutdown => exact .still rfl rfl fun _ => rfl
  | @quit index thread found _ _ _ =>
      refine .still rfl rfl fun measure => ?_
      have replaced := total_set
        (fun each : Thread config => total measure each.stack) found
        { thread with finished := true }
      exact Nat.add_right_cancel replaced
  | @move index thread move shared stack found _ _ stacked =>
      cases stacked with
      | advance holds advanced =>
          exact (Frame.metered advanced).step found holds rfl
      | bodyEnds holds =>
          exact (bodyEnds_metered state.shared _ _).step found holds rfl
      | help holds =>
          refine .begun rfl (fun _ => rfl) found ?_ ?_ ?_ fun _ => ?_
          · simp [holds, Frame.uncounted]
          · simp [holds, Frame.unsent]
          · simp [holds, Frame.accepting, Move.received]
          · simp [holds, Frame.calling]
      | @call _ _ _ call _ holds _ started =>
          refine .begun rfl (fun _ => rfl) found ?_ ?_ ?_ ?_
          · simp [holds, Frame.uncounted]
          · simp [holds, Frame.unsent]
          · simp [holds, Frame.accepting, Move.received]
          · intro submits
            cases call <;> simp_all [Action.submits, Call.start]
      | begin empty begins =>
          obtain ⟨same, unreaped, uncounted, unsent, accepting, calling⟩ :=
            Role.begin_metered begins
          refine .begun same (unreaped index) found ?_ ?_ ?_ ?_
          · rw [empty, uncounted]
            rfl
          · rw [empty, unsent]
            rfl
          · rw [empty, accepting]
            exact (Nat.zero_add _).symm
          · intro submits
            rw [empty, calling index submits]
            rfl

end Steps

/-! ## Runs of a node -/

theorem State.Initial.reading {state : State config}
    (isInitial : state.Initial) {measure : Frame config → Nat}
    (loading : measure (.worker .loading) = 0) :
    state.reading measure = 0 := by
  refine total_eq_zero.mpr fun thread member => ?_
  rw [(isInitial.threads thread member).1]
  cases thread.role with
  | worker index => simp [Role.initialStack, loading]
  | _ => rfl

/-- The counters of a node, together with the threads on their way to them,
are exact. -/
structure Exact (state : State config) : Prop where
  counted : state.shared.localExecuted + state.reading Frame.uncounted =
    executedIn state.shared.history
  sent : state.shared.stolenOut =
    sentIn state.shared.replies + state.reading Frame.unsent

theorem exact_of_reachable {state : State config}
    (reached : (node config).Reachable state) : Exact state := by
  refine Machine.Reachable.invariant ?_ ?_ reached
  · intro state isInitial
    refine ⟨?_, ?_⟩
    · rw [State.Initial.reading isInitial rfl, State.Initial.shared isInitial]
      rfl
    · rw [State.Initial.reading isInitial rfl, State.Initial.shared isInitial]
      rfl
  · intro state action following before stepped
    have metered := step_metered stepped
    have counted := metered.counted
    have sent := metered.sent
    have countedBefore := before.counted
    have sentBefore := before.sent
    exact ⟨by omega, by omega⟩

/-! ## Work -/

/-- The task runs a task of another node. -/
def isStolen (task : Task) : Bool :=
  match task.fn with
  | some (.stolen ..) => true
  | _ => false

/-- Application code does not submit stolen tasks. -/
theorem Event.Allowed.not_stolen {portable : Bool} {task : Task}
    {tokens : List Token}
    (allowed : (Event.start portable task).Allowed config tokens) :
    isStolen task = false := by
  rcases allowed.1 with none | ⟨body, isUser⟩
  · simp [isStolen, none]
  · simp [isStolen, isUser]

/-- One for a task that still has to run, here or elsewhere, and was counted
by its own node. -/
def pending (token : Token) : Nat :=
  match token.place with
  | .created .. | .numbered .. => if isStolen token.task then 1 else 0
  | .counted .. | .queued _ | .executing | .copied | .arrived => 1
  | _ => 0

/-- The entry counts a task of this node. -/
def Entry.isHome : Entry → Bool
  | .counted task => !isStolen task
  | _ => false

/-- How many tasks of this node have been counted. -/
def homeIn (history : List Entry) : Nat :=
  history.countP Entry.isHome

theorem not_home_performs (task : Task) :
    (performs config task).countP Entry.isHome = 0 ∧
      (performs config task).countP Entry.isExecuted = 0 := by
  unfold performs
  split
  · exact ⟨rfl, rfl⟩
  · split <;> exact ⟨rfl, rfl⟩

/-- Where the work of an event comes from and goes to. -/
theorem Happens.pending_eq {state following : State config} {action : Action}
    {event : Event} (happens : Happens action event state following) :
    homeIn following.shared.history + executedIn state.shared.history +
        total pending state.tokens + sentIn state.shared.replies +
        event.received.length =
      homeIn state.shared.history + executedIn following.shared.history +
        total pending following.tokens +
        sentIn following.shared.replies := by
  have equation := happens.moves pending
  have history := congrArg Books.history happens.books
  have replies := congrArg Books.replies happens.books
  change following.shared.history = _ at history
  change following.shared.replies = _ at replies
  rw [history, replies]
  cases event with
  | ran task =>
      obtain ⟨noHome, noRun⟩ := @not_home_performs config task
      simp [Event.removed, Event.added, pending, owedToken] at equation
      simp [Event.enter, Books.remember, homeIn, executedIn, Entry.isHome,
        Entry.isExecuted, Event.received, List.countP_cons, noHome, noRun]
      omega
  | count site portable task =>
      simp [Event.removed, Event.added, pending] at equation
      simp [Event.enter, Books.remember, homeIn, executedIn, Entry.isHome,
        Entry.isExecuted, Event.received, List.countP_cons]
      cases stolen : isStolen task <;> simp [stolen] at equation ⊢ <;> omega
  | start portable task =>
      have notStolen : isStolen task = false := happens.allowed.not_stolen
      simp [Event.removed, Event.added, pending, notStolen] at equation
      simp only [Event.enter, Event.received, List.length_nil,
        Shared.books_history, Shared.books_replies]
      omega
  | reap lost =>
      simp [Event.removed, Event.added, pending] at equation
      simp [Event.enter, Books.remember, homeIn, executedIn, Entry.isHome,
        Entry.isExecuted, Event.received, List.countP_map,
        Function.comp_def]
      omega
  | number site portable task =>
      have same : isStolen { task with
          taskId := state.shared.books.nextId } = isStolen task := rfl
      simp only [Event.removed, Event.added, pending, total_cons, total_nil,
        same] at equation
      simp only [Event.enter, Event.received, List.length_nil,
        Shared.books_history, Shared.books_replies]
      omega
  | send reply =>
      simp [Event.removed, Event.added, pending] at equation
      simp [Event.enter, homeIn, executedIn, Event.received, sentIn]
      omega
  | arrive tasks =>
      simp [Event.removed, Event.added, pending] at equation
      simp only [Event.enter, Event.received, Shared.books_history,
        Shared.books_replies]
      omega
  | _ =>
      simp [Event.removed, Event.added, pending, recordingToken, owedToken,
        preparingToken, isStolen, StagePayload.task, Task.stolenFrom,
        Task.rerun] at equation
      simp [Event.enter, Books.remember, homeIn, executedIn, Entry.isHome,
        Entry.isExecuted, Event.received, sentIn]
      omega

/-- A response takes its tasks in. -/
theorem reply_happens {state following : State config} {index : Nat}
    {link : NodeId} {tasks : List Task}
    (stepped : (node config).step state (.move index (.reply link tasks)) =
      some following) :
    Happens (.move index (.reply link tasks)) (.arrive tasks) state
      following := by
  cases step_stepped stepped with
  | move found _ _ stacked =>
      cases stacked with
      | begin empty begins =>
          refine Effect.happens found ?_ ⟨index, link, rfl⟩ rfl
          rw [empty]
          unfold Role.begin at begins
          split at begins
          · cases ‹Move.reply link tasks = _›
          · cases ‹Move.reply link tasks = _›
          · cases ‹Move.reply link tasks = _›
          · cases ‹Move.reply link tasks = _›
          · cases ‹Move.reply link tasks = _›
            split at begins
            · rename_i isEmpty
              cases begins
              rw [List.isEmpty_iff.mp isEmpty]
              exact ⟨rfl, fun _ => rfl, trivial⟩
            · cases begins
              refine ⟨rfl, fun weigh => ?_, trivial⟩
              simp only [total_append, stackTokens_cons, stackTokens_nil,
                Frame.tokens, Option.map_none, Option.getD_none,
                Event.removed, Event.added, total_nil]
              omega
          · cases ‹Move.reply link tasks = _›
          · cases begins

/-- The event of a step takes in what the action brings. -/
theorem step_receives {state following : State config} {action : Action}
    (stepped : (node config).step state action = some following) :
    ∃ event, Happens action event state following ∧
      event.received = action.received := by
  by_cases isReply :
      ∃ index link tasks, action = .move index (.reply link tasks)
  · obtain ⟨index, link, tasks, rfl⟩ := isReply
    exact ⟨_, reply_happens stepped, rfl⟩
  · obtain ⟨event, happens⟩ := step_happens stepped
    have nothing : action.received = [] := by
      unfold Action.received Move.received
      split
      · split
        · exact absurd ⟨_, _, _, rfl⟩ isReply
        · rfl
      · rfl
    refine ⟨event, happens, ?_⟩
    rw [nothing]
    cases event with
    | arrive tasks =>
        obtain ⟨thread, link, same⟩ := happens.caused
        exact absurd ⟨thread, link, tasks, same⟩ isReply
    | _ => rfl

/-- What has come in, counted or not. -/
def State.intake (state : State config) : Nat :=
  state.shared.stolenIn + state.reading Frame.accepting

/-- Tasks of a node and tasks it took in have run, are pending or have left
again. -/
theorem work_of_reachable {state : State config}
    (reached : (node config).Reachable state) :
    homeIn state.shared.history + state.intake =
      executedIn state.shared.history + total pending state.tokens +
        sentIn state.shared.replies := by
  induction reached with
  | start isInitial =>
      have none := State.Initial.reading isInitial
        (rfl : Frame.accepting (.worker .loading : Frame config) = 0)
      rw [State.intake, none, State.Initial.tokens isInitial,
        State.Initial.shared isInitial]
      rfl
  | next _ _ stepped inductionHypothesis =>
      obtain ⟨event, happens, received⟩ := step_receives stepped
      have equation := happens.pending_eq
      have accepted := (step_metered stepped).accepted
      rw [received] at equation
      unfold State.intake at inductionHypothesis ⊢
      omega

end HydraRT.Cluster
