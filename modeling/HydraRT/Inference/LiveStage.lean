import HydraRT.Cluster.Calls

/-!
# The live stage of a request

The pipeline counts a stage as live from the moment its submission begins.  A
client sees it differently: a stage is live until its `on_stage_done` has
submitted the next one.  The two counts agree once `JobManager::submit` has
returned, because a submission by the observer happens inside the completion
of the previous stage.
-/

namespace HydraRT.Cluster

open HydraRT.Inference
open HydraRT.Lib

variable {config : NodeConfig}

namespace Place

/-- A task here is queued, running, handed to a thief, being resolved or being
run again, and its `on_stage_done` has not submitted the next stage. -/
def isUndone : Place → Bool
  | .queued _ | .executing | .serving | .outstanding | .reaped => true
  | .finishing _ phase => phase != .after
  | .created site _ | .numbered site _ | .counted site _ => site == .rerun
  | _ => false

end Place

/-- One for a token of the request at certain places. -/
def requestAt (holds : Place → Bool) (id : Nat) (token : Token) : Nat :=
  if holds token.place ∧ token.task.request? = some id then 1 else 0

theorem requestAt_mk (holds : Place → Bool) (id : Nat) (place : Place)
    (task : Task) :
    requestAt holds id ⟨place, task⟩ =
      if holds place ∧ task.request? = some id then 1 else 0 := rfl

/-! ## Returned requests -/

/-- The request that a call of `JobManager::submit` has an id for. -/
def JobPc.requestId? : JobPc config → Option Nat
  | .fetchId => none
  | .emplace id | .count id | .submitting id _ => some id

def UserCall.requestId? : UserCall config → Option Nat
  | .submit _ => none
  | .job _ pc => pc.requestId?

def Frame.requestId? : Frame config → Option Nat
  | .call begun => begun.requestId?
  | .execute _ _ (.running (some begun)) => begun.requestId?
  | _ => none

/-- `JobManager::submit` has returned the id. -/
structure State.Returned (state : State config) (id : Nat) : Prop where
  positive : 0 < id
  accepted : id < state.shared.jobs.nextRequestId
  returned : state.Frames fun frame => frame.requestId? ≠ some id

section Frames

variable (id : Nat)

/-- A submission that involves no stage of the request. -/
theorem SubmitCall.total_live_of_other {call : SubmitCall config}
    {stage : Option StagePayload} (submits : call.Submits stage)
    (others : ∀ p, stage = some p → p.requestId ≠ id) (site : Site) :
    total (liveOf id) (call.tokens site) =
      total (requestAt Place.isUndone id) (call.tokens site) := by
  have isOther : call.task.request? ≠ some id := by
    unfold Task.request?
    rw [submits]
    cases stage with
    | none => simp
    | some p => simpa using others p rfl
  unfold SubmitCall.tokens
  split <;> simp [liveOf_mk, requestAt_mk, isOther]

theorem UserCall.total_live {call : UserCall config} (sound : call.Sound)
    (elsewhere : call.requestId? ≠ some id) :
    total (liveOf id) call.tokens =
      total (requestAt Place.isUndone id) call.tokens := by
  cases call with
  | submit call =>
      exact SubmitCall.total_live_of_other id sound (by simp) .client
  | job request pc =>
      cases pc with
      | submitting other call =>
          refine SubmitCall.total_live_of_other id sound ?_ .request
          intro p same
          cases same
          intro same
          exact elsewhere (congrArg some same)
      | _ =>
          simp [UserCall.tokens, JobPc.tokens, preparingToken, liveOf_mk,
            requestAt_mk, Place.isLive, Place.isUndone]

/-- While the observer submits the next stage, the finishing task is live in
one count and the submitted task in the other. -/
theorem CompletePc.total_live {task : Task} {pc : CompletePc config}
    (sound : pc.Sound task) (cause : Cause) :
    total (liveOf id) (pc.tokens cause task) =
      total (requestAt Place.isUndone id) (pc.tokens cause task) := by
  cases pc with
  | submitting p call =>
      obtain ⟨reads, next, hasNext, submits⟩ := sound
      have names : task.request? = some p.requestId := by
        apply request?_eq
        unfold observed at reads
        split at reads
        · exact reads
        · cases reads
      have namesNext : call.task.request? = some p.requestId := by
        rw [request?_eq submits, (StagePayload.next?_eq_some hasNext).1]
      unfold CompletePc.tokens SubmitCall.tokens
      dsimp only
      split <;>
        simp [liveOf_mk, requestAt_mk, Place.isLive, Place.isUndone, names,
          namesNext, recordingToken]
  | _ =>
      simp [CompletePc.tokens, liveOf_mk, requestAt_mk, Place.isLive,
        Place.isUndone, recordingToken]

theorem Frame.total_live {frame : Frame config} (sound : frame.Sound)
    (elsewhere : frame.requestId? ≠ some id) :
    total (liveOf id) frame.tokens =
      total (requestAt Place.isUndone id) frame.tokens := by
  cases frame with
  | execute task helped pc =>
      cases pc with
      | running begun =>
          cases begun with
          | none =>
              simp [Frame.tokens, ExecutePc.tokens, liveOf_mk, requestAt_mk,
                Place.isLive, Place.isUndone]
          | some begun =>
              have same := UserCall.total_live id sound.2 elsewhere
              simp [Frame.tokens, ExecutePc.tokens, liveOf_mk, requestAt_mk,
                Place.isLive, Place.isUndone, same]
      | completing pc => exact CompletePc.total_live id sound .executed
      | _ =>
          simp [Frame.tokens, ExecutePc.tokens, liveOf_mk, requestAt_mk,
            Place.isLive, Place.isUndone, owedToken]
  | call begun => exact UserCall.total_live id sound elsewhere
  | serve request pc =>
      cases pc <;>
        simp [Frame.tokens, ServePc.tokens, liveOf_mk, requestAt_mk,
          Place.isLive, Place.isUndone]
  | resolve task pc => exact CompletePc.total_live id sound .resolved
  | reap lost pc =>
      cases pc with
      | next =>
          simp [Frame.tokens, ReapPc.tokens, liveOf_mk, requestAt_mk,
            Place.isLive, Place.isUndone]
      | resubmit task call =>
          simp only [Frame.tokens, ReapPc.tokens, SubmitCall.tokens]
          split <;>
            simp [liveOf_mk, requestAt_mk, Place.isLive, Place.isUndone]
      | settle task pc =>
          have same := CompletePc.total_live id sound .settled
          simp [Frame.tokens, ReapPc.tokens, liveOf_mk, requestAt_mk,
            Place.isLive, Place.isUndone, same]
  | accept link tasks remaining begun =>
      cases begun with
      | none =>
          simp [Frame.tokens, liveOf_mk, requestAt_mk, Place.isLive,
            Place.isUndone]
      | some call =>
          have same := SubmitCall.total_live_of_other id sound (by simp)
            .stolen
          simp [Frame.tokens, liveOf_mk, requestAt_mk, Place.isLive,
            Place.isUndone, same]
  | complete batch =>
      simp [Frame.tokens, owedToken, liveOf_mk, requestAt_mk, Place.isLive,
        Place.isUndone]
  | _ => rfl

/-- The tokens of a request inside `JobManager::submit` are in the frame of
that call. -/
theorem Frame.total_preparing {frame : Frame config} (recorded : Bool)
    (elsewhere : frame.requestId? ≠ some id) :
    total (preparingOf id recorded) frame.tokens = 0 := by
  have ofSubmitCall : ∀ (site : Site) (call : SubmitCall config),
      total (preparingOf id recorded) (call.tokens site) = 0 := by
    intro site call
    unfold SubmitCall.tokens
    split <;> simp [preparingOf_mk]
  have ofUserCall : ∀ call : UserCall config, call.requestId? ≠ some id →
      total (preparingOf id recorded) call.tokens = 0 := by
    intro call elsewhere
    cases call with
    | submit call => exact ofSubmitCall _ call
    | job request pc =>
        cases pc with
        | fetchId => rfl
        | submitting other call => exact ofSubmitCall _ call
        | _ =>
            simp only [UserCall.requestId?, JobPc.requestId?, ne_eq,
              Option.some.injEq] at elsewhere
            simp [UserCall.tokens, JobPc.tokens, preparingToken,
              preparingOf_mk, elsewhere]
  have ofCompletePc : ∀ (cause : Cause) (task : Task)
      (pc : CompletePc config),
      total (preparingOf id recorded) (pc.tokens cause task) = 0 := by
    intro cause task pc
    cases pc <;>
      simp [CompletePc.tokens, preparingOf_mk, recordingToken, ofSubmitCall]
  cases frame with
  | execute task helped pc =>
      cases pc with
      | running begun =>
          cases begun with
          | none =>
              simp [Frame.tokens, ExecutePc.tokens, preparingOf_mk]
          | some begun =>
              have none := ofUserCall begun elsewhere
              simp [Frame.tokens, ExecutePc.tokens, preparingOf_mk, none]
      | completing pc => exact ofCompletePc _ task pc
      | _ =>
          simp [Frame.tokens, ExecutePc.tokens, preparingOf_mk, owedToken]
  | call begun => exact ofUserCall begun elsewhere
  | serve request pc =>
      cases pc <;> simp [Frame.tokens, ServePc.tokens, preparingOf_mk]
  | resolve task pc => exact ofCompletePc _ task pc
  | reap lost pc =>
      cases pc <;>
        simp [Frame.tokens, ReapPc.tokens, preparingOf_mk, ofSubmitCall,
          ofCompletePc]
  | accept link tasks remaining begun =>
      cases begun <;> simp [Frame.tokens, preparingOf_mk, ofSubmitCall]
  | complete batch => simp [Frame.tokens, owedToken, preparingOf_mk]
  | _ => rfl

end Frames

/-! ## A request that has been returned -/

section Returned

variable {state : State config} {id : Nat}

theorem State.Returned.total_live (returned : state.Returned id)
    (reached : (node config).ReachableUnder Honest state) :
    total (liveOf id) state.tokens =
      total (requestAt Place.isUndone id) state.tokens := by
  refine State.total_congr ?_ ?_
  · apply Lib.total_congr
    intro token member
    simp only [Shared.tokens, queuedTokens, List.mem_append,
      List.mem_flatMap, List.mem_map] at member
    obtain ((⟨queue, _, task, _, rfl⟩ | ⟨entry, _, rfl⟩) | ⟨notice, _, rfl⟩) |
      ⟨notice, _, rfl⟩ := member <;>
      simp [liveOf_mk, requestAt_mk, Place.isLive, Place.isUndone, owedToken]
  · intro thread inThreads frame inStack
    exact Frame.total_live id (sound_of_reachable reached thread inThreads
      frame inStack) (returned.returned thread inThreads frame inStack)

theorem State.Returned.total_preparing (returned : state.Returned id)
    (recorded : Bool) :
    total (preparingOf id recorded) state.tokens = 0 := by
  rw [← total_zero state.tokens]
  refine State.total_congr ?_ ?_
  · rw [total_zero]
    apply Shared.total_eq_zero <;> simp [preparingOf_mk]
  · intro thread inThreads frame inStack
    rw [total_zero]
    exact Frame.total_preparing id recorded
      (returned.returned thread inThreads frame inStack)

/-- A returned request is in one of its four stages, or done. -/
theorem State.Returned.stands (returned : state.Returned id)
    (hasJobs : config.hasJobs = true)
    (reached : (node config).ReachableUnder Honest state) :
    Stands id state.shared.books state.tokens .done ∨
      ∃ rank, Stands id state.shared.books state.tokens (.live rank) := by
  obtain ⟨stand, stands⟩ := (inPipeline_of_reachable hasJobs reached).stands id
  cases stand with
  | unborn =>
      have born := stands.born.mpr ⟨returned.positive, returned.accepted⟩
      cases born
  | preparing recorded =>
      have one := stands.preparations recorded
      rw [returned.total_preparing recorded] at one
      simp [Stand.preparations] at one
  | live rank => exact .inr ⟨rank, stands⟩
  | done => exact .inl stands

/-- The tasks that are a live stage of the request. -/
def State.liveStages (state : State config) (id : Nat) : List Token :=
  state.tokens.filter fun token =>
    token.place.isUndone && token.task.request? == some id

theorem State.length_liveStages (state : State config) (id : Nat) :
    (state.liveStages id).length =
      total (requestAt Place.isUndone id) state.tokens := by
  unfold State.liveStages
  rw [← List.countP_eq_length_filter, countP_eq_total]
  apply Lib.total_congr
  intro token _
  simp [requestAt]

/-- Once `JobManager::submit` has returned, the request is done or has exactly
one live stage. -/
theorem State.Returned.done_or_live (returned : state.Returned id)
    (hasJobs : config.hasJobs = true)
    (reached : (node config).ReachableUnder Honest state) :
    (state.shared.jobs.isDone id ∧ state.liveStages id = []) ∨
      (¬ state.shared.jobs.isDone id ∧
        ∃ token, state.liveStages id = [token]) := by
  have length : (state.liveStages id).length = total (liveOf id) state.tokens :=
    (state.length_liveStages id).trans (returned.total_live reached).symm
  rcases returned.stands hasJobs reached with stands | ⟨rank, stands⟩
  · refine .inl ⟨?_, ?_⟩
    · obtain ⟨entry, found, isDone⟩ := Option.map_eq_some_iff.mp stands.state
      exact ⟨entry, found, isDone⟩
    · rw [stands.lives] at length
      exact List.length_eq_zero_iff.mp length
  · refine .inr ⟨?_, ?_⟩
    · rintro ⟨entry, found, isDone⟩
      have state := stands.state
      rw [Shared.books_jobs, found, Option.map_some, isDone] at state
      cases state
    · rw [stands.lives] at length
      exact List.length_eq_one_iff.mp length

/-- When the counters of the runtime agree, every returned request is done. -/
theorem State.Returned.isDone_of_balanced (returned : state.Returned id)
    (hasJobs : config.hasJobs = true)
    (reached : (node config).ReachableUnder Honest state)
    (balanced : state.shared.completed = state.shared.submitted) :
    Stands id state.shared.books state.tokens .done := by
  rcases returned.stands hasJobs reached with stands | ⟨rank, stands⟩
  · exact stands
  · have one : 0 < total (requestAt Place.isUndone id) state.tokens := by
      rw [← returned.total_live reached, stands.lives]
      exact Nat.one_pos
    obtain ⟨token, member, weight⟩ := exists_of_total_pos one
    have outside :=
      not_inLedger_of_balanced reached.reachable balanced member
    have notRerun := not_rerun_of_balanced reached.reachable balanced member
    have undone : token.place.isUndone = true := by
      unfold requestAt at weight
      split at weight
      · rename_i holds
        exact holds.1
      · cases weight
    exfalso
    revert undone outside notRerun
    cases token.place <;>
      simp [Place.isUndone, Place.inLedger, Place.submittedBy]

/-- The calls of `on_stage_done` for a request follow the chain. -/
theorem callsFor_isPrefix (hasJobs : config.hasJobs = true)
    (reached : (node config).ReachableUnder Honest state) (id : Nat) :
    callsFor state.shared.history id <+: Stage.chain := by
  obtain ⟨stand, stands⟩ := (inPipeline_of_reachable hasJobs reached).stands id
  have calls : callsFor state.shared.history id = stand.calls := stands.calls
  rw [calls]
  cases stand with
  | live rank => exact List.take_prefix rank Stage.chain
  | done => exact List.prefix_refl _
  | _ => exact List.nil_prefix

end Returned

/-! ## The counters of the job table -/

/-- One for a token that stands for a stage of some request. -/
def liveAny (token : Token) : Nat :=
  if token.place.isLive ∧ token.task.request?.isSome then 1 else 0

theorem liveAny_mk (place : Place) (task : Task) :
    liveAny ⟨place, task⟩ =
      if place.isLive ∧ task.request?.isSome then 1 else 0 := rfl

/-- The counters agree with the entries and with the stages on their way. -/
structure Tallied (books : Books) (tokens : List Token) : Prop where
  pipeline : InPipeline books tokens
  distinct : books.jobs.KeysDistinct
  completed : books.jobs.completed = books.jobs.doneCount
  submitted :
    books.jobs.submitted = books.jobs.doneCount + total liveAny tokens

section Tally

variable {state following : State config} {action : Action} {event : Event}

theorem Tallied.markDone {cause : Cause} {task : Task} {p : StagePayload}
    (hasJobs : config.hasJobs = true)
    (tallied : Tallied state.shared.books state.tokens)
    (happens : Happens action (.markDone cause task p) state following) :
    (state.shared.jobs.markDone p).completed =
        (state.shared.jobs.markDone p).doneCount ∧
      (state.shared.jobs.markDone p).submitted =
        (state.shared.jobs.markDone p).doneCount +
          total liveAny following.tokens := by
  obtain ⟨reads, -⟩ := happens.allowed
  simp only [observed, hasJobs, if_true] at reads
  have lives := happens.moves liveAny
  simp [Event.removed, Event.added, liveAny_mk, Place.isLive,
    request?_eq reads] at lives
  obtain ⟨stand, stands⟩ := tallied.pipeline.stands p.requestId
  have held : 0 < total (liveAt p.requestId p.stage.rank) state.tokens := by
    have present := happens.moves.mem_removed List.mem_cons_self
    refine liveAt_of_finishing cause ?_ reads
    simpa [Event.added] using present
  obtain rfl := stands.eq_live held
  obtain ⟨entry, found, isRunning⟩ := Option.map_eq_some_iff.mp stands.state
  have notDone : entry.state ≠ .done := by
    rw [isRunning]
    decide
  have counts := JobManager.doneCount_markDone tallied.distinct found notDone
  have marked : (state.shared.jobs.markDone p).completed =
        state.shared.jobs.completed + 1 ∧
      (state.shared.jobs.markDone p).submitted =
        state.shared.jobs.submitted := by
    rw [Shared.books_jobs] at found
    simp [JobManager.markDone, found, notDone, JobManager.modify]
  have completed := tallied.completed
  have submitted := tallied.submitted
  rw [Shared.books_jobs] at counts completed submitted
  omega

theorem Tallied.kept
    (hasJobs : config.hasJobs = true) (honest : action.Honest)
    (balanced : Balanced state.shared.books state.tokens)
    (tallied : Tallied state.shared.books state.tokens)
    (happens : Happens action event state following) :
    Tallied (event.enter config state.shared.books) following.tokens := by
  have pipeline := tallied.pipeline.kept hasJobs honest balanced happens
  have lives := happens.moves liveAny
  have completed := tallied.completed
  have submitted := tallied.submitted
  have unnoticed :
      (event.enter config state.shared.books).jobs = state.shared.jobs →
      total liveAny (event.removed config) =
        total liveAny (event.added config state.shared.books) →
      Tallied (event.enter config state.shared.books) following.tokens := by
    intro sameJobs sameLives
    rw [Shared.books_jobs] at completed submitted
    refine ⟨pipeline, ?_, ?_, ?_⟩
    · rw [sameJobs]
      exact tallied.distinct
    · rw [sameJobs]
      exact completed
    · rw [sameJobs]
      omega
  cases event with
  | markDone cause task p =>
      obtain ⟨sameDone, sameLive⟩ := tallied.markDone hasJobs happens
      exact ⟨pipeline, tallied.distinct.markDone p, sameDone, sameLive⟩
  | record p =>
      have sameCount :=
        JobManager.doneCount_recordStage state.shared.books.jobs p
      simp [Event.removed, Event.added, recordingToken, liveAny_mk,
        Place.isLive] at lives
      refine ⟨pipeline, tallied.distinct.recordStage p, ?_, ?_⟩
      · exact completed.trans sameCount.symm
      · simp only [Event.enter, sameCount, lives]
        exact submitted
  | emplace request id =>
      have sameCount :=
        JobManager.doneCount_emplace state.shared.books.jobs id request.kind
      have sameCounters :
          (state.shared.books.jobs.emplace id request.kind).completed =
              state.shared.books.jobs.completed ∧
            (state.shared.books.jobs.emplace id request.kind).submitted =
              state.shared.books.jobs.submitted := by
        unfold JobManager.emplace
        split <;> exact ⟨rfl, rfl⟩
      simp [Event.removed, Event.added, preparingToken, liveAny_mk,
        Place.isLive] at lives
      refine ⟨pipeline, tallied.distinct.emplace id request.kind, ?_, ?_⟩
      · simp only [Event.enter, sameCount, sameCounters]
        exact completed
      · simp only [Event.enter, sameCount, sameCounters, lives]
        exact submitted
  | fetchRequest request =>
      simp [Event.removed, Event.added, preparingToken, liveAny_mk,
        Place.isLive] at lives
      refine ⟨pipeline, tallied.distinct, completed, ?_⟩
      rw [lives]
      exact submitted
  | countRequest request id =>
      simp [Event.removed, Event.added, preparingToken, liveAny_mk,
        Place.isLive] at lives
      refine ⟨pipeline, tallied.distinct, completed, ?_⟩
      rw [lives]
      exact congrArg (· + 1) submitted
  | advance cause task p next =>
      obtain ⟨reads, -⟩ := happens.allowed
      simp only [observed, hasJobs, if_true] at reads
      refine unnoticed rfl ?_
      simp [Event.removed, Event.added, liveAny_mk, Place.isLive,
        request?_eq reads, recordingToken]
  | misread cause task p =>
      exact (tallied.pipeline.not_misread hasJobs happens).elim
  | trackTwice task =>
      exact (balanced.not_trackTwice happens).elim
  | start portable task =>
      have reads := start_payload happens.caused honest
      refine unnoticed rfl ?_
      simp [Event.removed, Event.added, liveAny_mk, request?_eq_none reads]
  | ignore cause task =>
      have reads := happens.allowed
      simp only [Event.Allowed, observed, hasJobs, if_true] at reads
      refine unnoticed rfl ?_
      simp [Event.removed, Event.added, liveAny_mk, request?_eq_none reads]
  | number site portable task =>
      refine unnoticed rfl ?_
      simp [Event.removed, Event.added, liveAny_mk, Place.isLive,
        Task.request?]
  | _ =>
      refine unnoticed rfl ?_
      simp [Event.removed, Event.added, liveAny_mk, Place.isLive, owedToken]

theorem tallied_of_reachable (hasJobs : config.hasJobs = true)
    (reached : (node config).ReachableUnder Honest state) :
    Tallied state.shared.books state.tokens := by
  refine invariant_of_balanced_events Tallied ?_ ?_ reached
  · exact ⟨inPipeline_initially, List.nodup_nil, rfl, rfl⟩
  · intro state following action event balanced tallied honest happens
    exact tallied.kept hasJobs honest balanced happens

/-- `completed()` is the number of entries that are done, and never exceeds
`submitted()`. -/
theorem completed_eq_doneCount (hasJobs : config.hasJobs = true)
    (reached : (node config).ReachableUnder Honest state) :
    state.shared.jobs.completed = state.shared.jobs.doneCount ∧
      state.shared.jobs.completed ≤ state.shared.jobs.submitted := by
  have tallied := tallied_of_reachable hasJobs reached
  have completed := tallied.completed
  have submitted := tallied.submitted
  rw [Shared.books_jobs] at completed submitted
  exact ⟨completed, by omega⟩

end Tally

end HydraRT.Cluster
