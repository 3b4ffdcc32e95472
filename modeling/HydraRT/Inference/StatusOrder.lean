import HydraRT.Inference.Pipeline

/-!
# The reported status

`on_stage_done` submits the next stage first and takes `mutex_` to write the
status afterwards, so the writes for one request can happen in another order
than the stages.  The status goes forward as long as no write overtakes that
of an earlier stage; this module shows that this is enough, and that the code
does not ensure it.
-/

namespace HydraRT.Cluster

open HydraRT.Inference
open HydraRT.Lib

variable {config : NodeConfig}

/-- One for a status of the given stage of the request that is still to be
written. -/
def recordingAt (id rank : Nat) (token : Token) : Nat :=
  if token.place = .recording ∧ token.task.stage? = some (id, rank) then 1
  else 0

theorem recordingAt_mk (id rank : Nat) (place : Place) (task : Task) :
    recordingAt id rank ⟨place, task⟩ =
      if place = .recording ∧ task.stage? = some (id, rank) then 1 else 0 :=
  rfl

theorem recordingAt_recordingToken (id rank : Nat) (p : StagePayload) :
    recordingAt id rank (recordingToken p) =
      if p.requestId = id ∧ p.stage.rank = rank then 1 else 0 := by
  simp [recordingToken, recordingAt_mk, Task.stage?, Payload.decodeStage]

/-- The status of an earlier stage of the same request is still to be
written. -/
def State.earlierPending (state : State config) (p : StagePayload) : Bool :=
  state.tokens.any fun token =>
    token.place = .recording &&
      token.task.stage?.any fun (id, rank) =>
        id = p.requestId && rank < p.stage.rank

/-- The action writes no status before that of an earlier stage. -/
def InOrder (state : State config) (action : Action) : Prop :=
  action.Honest ∧
    match state.write? action with
    | none => True
    | some p => state.earlierPending p = false

instance (state : State config) (action : Action) :
    Decidable (InOrder state action) := by
  unfold InOrder
  have : Decidable (match state.write? action with
    | none => True
    | some p => state.earlierPending p = false) := by
    split <;> infer_instance
  infer_instance

theorem InOrder.none_pending {state : State config} {action : Action}
    (inOrder : InOrder state action) {p : StagePayload}
    (writes : state.write? action = some p) (rank : Nat)
    (earlier : rank < p.stage.rank) :
    total (recordingAt p.requestId rank) state.tokens = 0 := by
  have none : state.earlierPending p = false := by
    have second := inOrder.2
    rw [writes] at second
    exact second
  rw [total_eq_zero]
  intro token member
  have notThis := List.any_eq_false.mp none token member
  rw [recordingAt]
  split
  · rename_i holds
    obtain ⟨recording, names⟩ := holds
    exact absurd (by simp [recording, names, earlier]) notThis
  · rfl

/-- What the job table and the writes still to come say about a request. -/
structure Recorded (books : Books) (tokens : List Token) (id : Nat) :
    Prop where
  once : ∀ rank, total (recordingAt id rank) tokens ≤ 1
  /-- A write belongs to a call of `on_stage_done`. -/
  called : ∀ rank, 0 < total (recordingAt id rank) tokens →
    rank < (callsFor books.history id).length
  /-- The status is not ahead of any write still to come. -/
  pending : ∀ entry, books.jobs.status id = some entry →
    ∀ rank, 0 < total (recordingAt id rank) tokens → entry.stage.rank ≤ rank
  /-- Nor is it ahead of the calls. -/
  reached : ∀ entry, books.jobs.status id = some entry →
    entry.stage.rank ≤ (callsFor books.history id).length
  done : ∀ entry, books.jobs.status id = some entry →
    entry.state = .done → entry.stage = .postprocess ∧
      ∀ rank, total (recordingAt id rank) tokens = 0

def StatusOrdered (books : Books) (tokens : List Token) : Prop :=
  InPipeline books tokens ∧ ∀ id, Recorded books tokens id

/-- The status of a request stays or goes forward. -/
def ForwardFor (before after : JobManager) (id : Nat) : Prop :=
  ∀ entry, before.status id = some entry →
    ∃ next, after.status id = some next ∧
      entry.stage.rank ≤ next.stage.rank

/-- No status goes backwards. -/
def Forward (before after : JobManager) : Prop :=
  ∀ id, ForwardFor before after id

theorem ForwardFor.of_eq {before after : JobManager} {id : Nat}
    (same : after.status id = before.status id) :
    ForwardFor before after id := by
  intro entry found
  exact ⟨entry, same.trans found, Nat.le_refl _⟩

theorem Forward.trans {before between after : JobManager}
    (first : Forward before between) (second : Forward between after) :
    Forward before after := by
  intro id entry found
  obtain ⟨next, isNext, bound⟩ := first id entry found
  obtain ⟨last, isLast, alsoBound⟩ := second id next isNext
  exact ⟨last, isLast, Nat.le_trans bound alsoBound⟩

theorem Recorded.keep {books after : Books} {tokens later : List Token}
    {id : Nat} (recorded : Recorded books tokens id)
    (sameStatus : after.jobs.status id = books.jobs.status id)
    (sameCalls : callsFor after.history id = callsFor books.history id)
    (sameRecording : ∀ rank,
      total (recordingAt id rank) later = total (recordingAt id rank) tokens) :
    Recorded after later id where
  once rank := by
    rw [sameRecording]
    exact recorded.once rank
  called rank := by
    rw [sameRecording, sameCalls]
    exact recorded.called rank
  pending entry := by
    simp only [sameStatus, sameRecording]
    exact recorded.pending entry
  reached entry := by
    rw [sameStatus, sameCalls]
    exact recorded.reached entry
  done entry := by
    simp only [sameStatus, sameRecording]
    exact recorded.done entry

/-! ## One event -/

section Kept

variable {state following : State config} {action : Action} {event : Event}

/-- `on_stage_done` is called for a stage that has a successor: a write is
added, behind the status. -/
theorem StatusOrdered.advance
    {cause : Cause} {task : Task} {p next : StagePayload}
    (hasJobs : config.hasJobs = true)
    (ordered : StatusOrdered state.shared.books state.tokens)
    (happens : Happens action (.advance cause task p next) state following)
    (id : Nat) :
    Recorded ((Event.advance cause task p next).enter config
      state.shared.books) following.tokens id := by
  obtain ⟨reads, -⟩ := happens.allowed
  simp only [observed, hasJobs, if_true] at reads
  have recorded := ordered.2 id
  have recordings : ∀ rank, total (recordingAt id rank) following.tokens =
      total (recordingAt id rank) state.tokens +
        if p.requestId = id ∧ p.stage.rank = rank then 1 else 0 := by
    intro rank
    have equation := happens.moves (recordingAt id rank)
    simpa [Event.removed, Event.added, recordingAt_recordingToken,
      recordingAt_mk] using equation
  have calls := callsFor_enter_advance config
    state.shared.books cause task p next id
  by_cases mine : p.requestId = id
  · subst mine
    obtain ⟨stand, stands⟩ := ordered.1.stands p.requestId
    have held : 0 < total (liveAt p.requestId p.stage.rank) state.tokens := by
      have present := happens.moves.mem_removed List.mem_cons_self
      refine liveAt_of_finishing cause ?_ reads
      simpa [Event.added, recordingToken] using present
    obtain rfl := stands.eq_live held
    have length : (callsFor state.shared.books.history p.requestId).length =
        p.stage.rank := by
      have bound : p.stage.rank < 4 := stands.valid
      rw [stands.calls]
      simp only [Stand.calls, List.length_take, Stage.chain, List.length_cons,
        List.length_nil]
      omega
    have running : ∀ entry,
        state.shared.books.jobs.status p.requestId = some entry →
          entry.state ≠ .done := by
      intro entry found isDone
      have state := stands.state
      rw [found, Option.map_some, isDone] at state
      cases state
    simp only [true_and, if_true] at recordings calls
    refine ⟨?_, ?_, ?_, ?_, ?_⟩
    · intro rank
      have atMostOne := recorded.once rank
      have wasCalled := recorded.called rank
      rw [recordings]
      split <;> omega
    · intro rank pending
      have wasCalled := recorded.called rank
      rw [recordings] at pending
      rw [calls, List.length_append, length, List.length_singleton]
      split at pending <;> omega
    · intro entry found rank pending
      have behind := recorded.pending entry found rank
      have reached := recorded.reached entry found
      rw [recordings] at pending
      split at pending <;> omega
    · intro entry found
      have reached := recorded.reached entry found
      rw [calls, List.length_append]
      omega
    · intro entry found isDone
      exact absurd isDone (running entry found)
  · refine recorded.keep rfl ?_ ?_
    · rw [calls, if_neg mine, List.append_nil]
    · intro rank
      rw [recordings]
      simp [mine]

/-- A status is written. -/
theorem StatusOrdered.record {p : StagePayload}
    (inOrder : InOrder state action)
    (ordered : StatusOrdered state.shared.books state.tokens)
    (happens : Happens action (.record p) state following) (id : Nat) :
    Recorded ((Event.record p).enter config state.shared.books)
        following.tokens id ∧
      ForwardFor state.shared.jobs (state.shared.jobs.recordStage p) id := by
  have recorded := ordered.2 id
  have recordings : ∀ rank, total (recordingAt id rank) following.tokens +
      (if p.requestId = id ∧ p.stage.rank = rank then 1 else 0) =
        total (recordingAt id rank) state.tokens := by
    intro rank
    have equation := happens.moves (recordingAt id rank)
    simpa [Event.removed, Event.added, recordingAt_recordingToken]
      using equation
  have status := JobManager.status_recordStage state.shared.jobs p id
  by_cases mine : p.requestId = id
  · subst mine
    simp only [true_and, if_true] at recordings status
    have held : 0 < total (recordingAt p.requestId p.stage.rank)
        state.tokens := by
      have equation := recordings p.stage.rank
      simp only [if_true] at equation
      omega
    have early : p.stage.rank <
        (callsFor state.shared.books.history p.requestId).length :=
      recorded.called _ held
    have atMostFour :
        (callsFor state.shared.books.history p.requestId).length ≤ 4 := by
      obtain ⟨stand, stands⟩ := ordered.1.stands p.requestId
      rw [stands.calls]
      exact stand.calls_length_le
    have succ : p.stage.succ.rank = p.stage.rank + 1 :=
      Stage.rank_succ (by omega)
    refine ⟨⟨?_, ?_, ?_, ?_, ?_⟩, ?_⟩
    · intro rank
      have atMostOne := recorded.once rank
      have equation := recordings rank
      omega
    · intro rank pending
      have equation := recordings rank
      exact recorded.called rank (by omega)
    · intro entry found rank pending
      obtain ⟨old, -, rfl⟩ := Option.map_eq_some_iff.mp (status ▸ found)
      have atMostOne := recorded.once rank
      have equation := recordings rank
      have noEarlier := inOrder.none_pending happens.write.symm rank
      simp only [succ]
      split at equation <;> omega
    · intro entry found
      obtain ⟨old, -, rfl⟩ := Option.map_eq_some_iff.mp (status ▸ found)
      simp only [succ]
      exact early
    · intro entry found isDone
      obtain ⟨old, wasFound, rfl⟩ := Option.map_eq_some_iff.mp (status ▸ found)
      have none := (recorded.done old wasFound isDone).2 p.stage.rank
      omega
    · intro entry found
      have behind := recorded.pending entry found _ held
      rw [found] at status
      refine ⟨_, status, ?_⟩
      simp only [succ]
      omega
  · rw [if_neg fun same => mine same.symm] at status
    refine ⟨recorded.keep status rfl ?_, .of_eq status⟩
    intro rank
    simpa [mine] using recordings rank

/-- The last stage is entered. -/
theorem StatusOrdered.markDone
    {cause : Cause} {task : Task} {p : StagePayload}
    (hasJobs : config.hasJobs = true) (inOrder : InOrder state action)
    (ordered : StatusOrdered state.shared.books state.tokens)
    (happens : Happens action (.markDone cause task p) state following)
    (id : Nat) :
    Recorded ((Event.markDone cause task p).enter config state.shared.books)
        following.tokens id ∧
      ForwardFor state.shared.jobs (state.shared.jobs.markDone p) id := by
  obtain ⟨reads, last⟩ := happens.allowed
  simp only [observed, hasJobs, if_true] at reads
  have recorded := ordered.2 id
  have recordings : ∀ rank, total (recordingAt id rank) following.tokens =
      total (recordingAt id rank) state.tokens := by
    intro rank
    have equation := happens.moves (recordingAt id rank)
    simpa [Event.removed, Event.added, recordingAt_mk] using equation
  obtain ⟨stand, stands⟩ := ordered.1.stands p.requestId
  have held : 0 < total (liveAt p.requestId p.stage.rank) state.tokens := by
    have present := happens.moves.mem_removed List.mem_cons_self
    refine liveAt_of_finishing cause ?_ reads
    simpa [Event.added] using present
  obtain rfl := stands.eq_live held
  obtain ⟨entry, found, isRunning⟩ := Option.map_eq_some_iff.mp stands.state
  have status := JobManager.status_markDone found
    (by rw [isRunning]; decide) id
  rw [Shared.books_jobs] at status
  have calls := callsFor_enter_markDone config
    state.shared.books cause task p id
  by_cases mine : p.requestId = id
  · subst mine
    have length : (callsFor state.shared.books.history p.requestId).length =
        3 := by
      rw [stands.calls, last]
      rfl
    have lastRank : p.stage.rank = 3 := by
      rw [last]
      rfl
    -- a write still to come belongs to an earlier stage
    have nonePending : ∀ rank,
        total (recordingAt p.requestId rank) state.tokens = 0 := by
      intro rank
      have wasCalled := recorded.called rank
      have noEarlier := inOrder.none_pending happens.write.symm rank
      omega
    have written : ∀ next,
        (state.shared.jobs.markDone p).status p.requestId = some next →
          next.stage = .postprocess := by
      intro next isNext
      rw [status, if_pos rfl] at isNext
      cases isNext
      rfl
    refine ⟨⟨?_, ?_, ?_, ?_, ?_⟩, ?_⟩
    · intro rank
      rw [recordings]
      exact recorded.once rank
    · intro rank pending
      have none := nonePending rank
      rw [recordings] at pending
      omega
    · intro next _ rank pending
      have none := nonePending rank
      rw [recordings] at pending
      omega
    · intro next isNext
      rw [written next isNext, calls, if_pos rfl, List.length_append, length,
        List.length_singleton]
      decide
    · intro next isNext _
      refine ⟨written next isNext, fun rank => ?_⟩
      rw [recordings]
      exact nonePending rank
    · intro old wasFound
      have reached := recorded.reached old wasFound
      rw [length] at reached
      exact ⟨_, status.trans (if_pos rfl), reached⟩
  · rw [if_neg fun same => mine same.symm] at status
    refine ⟨recorded.keep status ?_ recordings, .of_eq status⟩
    rw [calls, if_neg mine, List.append_nil]

/-- A request is entered in the table. -/
theorem StatusOrdered.emplace {request : Request} {id : Nat}
    (ordered : StatusOrdered state.shared.books state.tokens)
    (happens : Happens action (.emplace request id) state following)
    (other : Nat) :
    Recorded ((Event.emplace request id).enter config state.shared.books)
        following.tokens other ∧
      ForwardFor state.shared.jobs
        (state.shared.jobs.emplace id request.kind) other := by
  have recorded := ordered.2 other
  have recordings : ∀ rank, total (recordingAt other rank) following.tokens =
      total (recordingAt other rank) state.tokens := by
    intro rank
    have equation := happens.moves (recordingAt other rank)
    simpa [Event.removed, Event.added, recordingAt_mk, preparingToken]
      using equation
  obtain ⟨stand, stands⟩ := ordered.1.stands id
  have held : 0 < total (preparingOf id false) state.tokens := by
    have equation := happens.moves (preparingOf id false)
    simp [Event.removed, Event.added, preparingOf_mk, preparingToken]
      at equation
    omega
  obtain rfl := stands.eq_preparing held
  have fresh : state.shared.jobs.status id = none :=
    Option.map_eq_none_iff.mp stands.state
  have status := JobManager.status_emplace request.kind fresh other
  by_cases mine : other = id
  · subst mine
    rw [if_pos rfl] at status
    have entered : ∀ next,
        (state.shared.jobs.emplace other request.kind).status other =
          some next → next.stage.rank = 0 ∧ next.state = .running := by
      intro next isNext
      rw [status] at isNext
      cases isNext
      exact ⟨rfl, rfl⟩
    refine ⟨⟨?_, ?_, ?_, ?_, ?_⟩, ?_⟩
    · intro rank
      rw [recordings]
      exact recorded.once rank
    · intro rank
      rw [recordings]
      exact recorded.called rank
    · intro next isNext rank _
      rw [(entered next isNext).1]
      exact Nat.zero_le rank
    · intro next isNext
      rw [(entered next isNext).1]
      exact Nat.zero_le _
    · intro next isNext isDone
      rw [(entered next isNext).2] at isDone
      cases isDone
    · intro entry found
      rw [fresh] at found
      cases found
  · rw [if_neg mine] at status
    exact ⟨recorded.keep status rfl recordings, .of_eq status⟩

/-- An event in order keeps the writes in order and moves no status back. -/
theorem StatusOrdered.kept
    (hasJobs : config.hasJobs = true) (inOrder : InOrder state action)
    (balanced : Balanced state.shared.books state.tokens)
    (ordered : StatusOrdered state.shared.books state.tokens)
    (happens : Happens action event state following) :
    StatusOrdered (event.enter config state.shared.books) following.tokens ∧
      Forward state.shared.jobs
        (event.enter config state.shared.books).jobs := by
  have pipeline := ordered.1.kept hasJobs inOrder.1 balanced happens
  have recordings := fun id rank => happens.moves (recordingAt id rank)
  have unnoticed :
      (event.enter config state.shared.books).jobs.jobs =
        state.shared.jobs.jobs →
      (∀ id, callsFor (event.enter config state.shared.books).history id =
        callsFor state.shared.history id) →
      (∀ id rank, total (recordingAt id rank) (event.removed config) =
        total (recordingAt id rank)
          (event.added config state.shared.books)) →
      StatusOrdered (event.enter config state.shared.books) following.tokens ∧
        Forward state.shared.jobs
          (event.enter config state.shared.books).jobs := by
    intro sameJobs sameCalls sameRecordings
    have sameStatus : ∀ id,
        (event.enter config state.shared.books).jobs.status id =
          state.shared.jobs.status id := by
      intro id
      unfold JobManager.status
      rw [sameJobs]
    refine ⟨⟨pipeline, fun id => ?_⟩, fun id => .of_eq (sameStatus id)⟩
    refine (ordered.2 id).keep (sameStatus id) (sameCalls id) fun rank => ?_
    have equation := recordings id rank
    rw [sameRecordings id rank] at equation
    omega
  cases event with
  | advance cause task p next =>
      exact ⟨⟨pipeline, ordered.advance hasJobs happens⟩,
        fun _ => .of_eq rfl⟩
  | markDone cause task p =>
      have kept := ordered.markDone hasJobs inOrder happens
      exact ⟨⟨pipeline, fun id => (kept id).1⟩, fun id => (kept id).2⟩
  | record p =>
      have kept := ordered.record inOrder happens
      exact ⟨⟨pipeline, fun id => (kept id).1⟩, fun id => (kept id).2⟩
  | emplace request id =>
      have kept := ordered.emplace happens
      exact ⟨⟨pipeline, fun id => (kept id).1⟩, fun id => (kept id).2⟩
  | misread cause task p =>
      exact (ordered.1.not_misread hasJobs happens).elim
  | ran task =>
      refine unnoticed rfl (fun id => ?_) (fun id rank => ?_)
      · exact callsFor_enter_ran config _ task id
      · simp [Event.removed, Event.added, recordingAt_mk, owedToken]
  | count site portable task =>
      refine unnoticed rfl (fun id => ?_) (fun id rank => ?_)
      · exact callsFor_enter_count config _ site portable task id
      · simp [Event.removed, Event.added, recordingAt_mk]
  | reap lost =>
      refine unnoticed rfl (fun id => ?_) (fun id rank => ?_)
      · exact callsFor_enter_reap config _ lost id
      · simp [Event.removed, Event.added, recordingAt_mk]
  | _ =>
      refine unnoticed rfl (fun _ => rfl) (fun id rank => ?_)
      simp [Event.removed, Event.added, recordingAt_mk, owedToken,
        preparingToken]

end Kept

/-! ## Runs -/

theorem statusOrdered_of_reachable
    (hasJobs : config.hasJobs = true) {state : State config}
    (reached : (node config).ReachableUnder InOrder state) :
    StatusOrdered state.shared.books state.tokens := by
  refine invariant_of_balanced_events StatusOrdered ?_ ?_ reached
  · refine ⟨inPipeline_initially, fun id => ?_⟩
    refine ⟨fun _ => Nat.zero_le 1, ?_, ?_, ?_, ?_⟩
    · intro rank impossible
      exact absurd impossible (Nat.lt_irrefl 0)
    all_goals
      intro entry found
      cases found
  · intro state following action event balanced ordered inOrder happens
    exact (ordered.kept hasJobs inOrder balanced happens).1

theorem forward_of_step
    (hasJobs : config.hasJobs = true) {state following : State config}
    {action : Action}
    (reached : (node config).ReachableUnder InOrder state)
    (inOrder : InOrder state action)
    (stepped : (node config).step state action = some following) :
    Forward state.shared.jobs following.shared.jobs := by
  obtain ⟨event, happens⟩ := step_happens stepped
  have ordered := statusOrdered_of_reachable hasJobs reached
  have kept := ordered.kept hasJobs inOrder
    (balanced_of_reachable reached.reachable) happens
  rw [← happens.books] at kept
  exact kept.2

/-- In every run whose status writes keep the order of the stages, no status
ever goes backwards, and a request that is done shows its last stage. -/
theorem status_goes_forward
    (hasJobs : config.hasJobs = true) {state later : State config}
    (reached : (node config).ReachableUnder InOrder state)
    (continued : (node config).ContinuesUnder InOrder state later) :
    Forward state.shared.jobs later.shared.jobs ∧
      ∀ id entry, later.shared.jobs.status id = some entry →
        entry.state = .done → entry.stage = .postprocess := by
  refine ⟨?_, ?_⟩
  · induction continued with
    | stay =>
        exact fun _ => .of_eq rfl
    | next earlier inOrder stepped inductionHypothesis =>
        exact inductionHypothesis.trans (forward_of_step hasJobs
          (reached.continues earlier) inOrder stepped)
  · intro id entry found isDone
    have ordered := statusOrdered_of_reachable hasJobs
      (reached.continues continued)
    exact ((ordered.2 id).done entry found isDone).1

/-- A client submits a request, and the worker runs its first stage up to the
write of the status. -/
def soloFirstStage : List Action :=
  [Action.move 1 (.call (.submitJob { kind := .imageClassifier }))] ++
    advances 1 6 ++ advances 0 7 ++ [Action.move 0 .bodyEnds] ++ advances 0 5

/-- A helping client runs the second and the third stage. -/
def soloMiddleStages : List Action :=
  [Action.move 6 (.call .help)] ++ advances 6 3 ++ [Action.move 6 .bodyEnds] ++
    advances 6 8 ++ [Action.move 6 (.call .help)] ++ advances 6 4 ++
    [Action.move 6 .bodyEnds] ++ advances 6 8

/-- It runs the last stage. -/
def soloLastStage : List Action :=
  [Action.move 6 (.call .help)] ++ advances 6 3 ++ [Action.move 6 .bodyEnds] ++
    advances 6 4

/-- The worker writes the status before the other stages run. -/
def soloInOrder : List Action :=
  advances 0 1 ++ soloMiddleStages ++ soloLastStage

/-- The worker is delayed between submitting the second stage and writing the
status of the first, until the request is done. -/
def soloOvertaken : List Action :=
  soloFirstStage ++ soloMiddleStages ++ soloLastStage

theorem status_goes_forward_in_order :
    ∃ state later,
      (node soloConfig).run soloStart soloFirstStage = some state ∧
        (node soloConfig).run state soloInOrder = some later ∧
        Forward state.shared.jobs later.shared.jobs ∧
        (state.shared.jobs.status 1).map (·.stage) = some .decode ∧
        later.shared.jobs.isDone 1 := by
  refine ⟨_, _, rfl, rfl, ?_, ?_, ?_⟩
  · exact (status_goes_forward rfl
      (Machine.ReachableUnder.run soloFirstStage (.start soloStart_initial)
        rfl (by decide))
      (Machine.ContinuesUnder.of_run soloInOrder rfl (by decide))).1
  · decide
  · decide

theorem status_goes_backwards :
    ∃ state later, (node soloConfig).ReachableUnder Honest state ∧
      (node soloConfig).ContinuesUnder Honest state later ∧
      ¬ Forward state.shared.jobs later.shared.jobs ∧
      ¬ ∀ id entry, later.shared.jobs.status id = some entry →
        entry.state = .done → entry.stage = .postprocess := by
  refine ⟨_, _,
    Machine.ReachableUnder.run soloOvertaken (.start soloStart_initial) rfl
      (by decide),
    Machine.ContinuesUnder.of_run (advances 0 1) rfl (by decide), ?_, ?_⟩
  · intro forward
    obtain ⟨next, isNext, bound⟩ := forward 1 _ rfl
    cases isNext
    exact absurd bound (by decide)
  · intro always
    exact absurd (always 1 _ rfl rfl) (by decide)

end HydraRT.Cluster
