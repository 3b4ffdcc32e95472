import HydraRT.Cluster.Ledger

/-!
# The life of a request

Seen from its node, a request is a small state machine: it is prepared inside
`JobManager::submit`, then exactly one task of the node stands for its current
stage, and at last it is done.  `Stand` is that machine.  The observer moves a
request from one stage to the next, and nothing else does: a stolen closure
has no payload, a settled task has none either, and a re-run takes over the
payload of the task it replaces.

Application code takes part as long as the payloads it submits do not read as
stages of somebody's request.
-/

namespace HydraRT.Cluster

open HydraRT.Inference
open HydraRT.Lib

variable {config : NodeConfig}

/-- The payload that application code passes to a submit function. -/
def Call.payload : Call → Payload
  | .submitPortable _ payload _ => payload
  | .submitTask _ _ payload _ => payload
  | _ => .empty

/-- The action does not submit, by hand, a payload that reads as a stage. -/
def Action.Honest : Action → Prop
  | .move _ (.call call) => call.payload.decodeStage = none
  | _ => True

instance (action : Action) : Decidable action.Honest := by
  unfold Action.Honest
  split <;> infer_instance

theorem start_payload {action : Action} {portable : Bool} {task : Task}
    (caused : (Event.start portable task).CausedBy config action)
    (honest : action.Honest) : task.payload.decodeStage = none := by
  obtain ⟨thread, call, begun, rfl, started, rfl⟩ := caused
  cases call with
  | submit body =>
      cases started
      rfl
  | submitPortable slot payload costHint =>
      cases started
      exact honest
  | submitTask body type payload originNode =>
      cases started
      exact honest
  | submitJob request =>
      simp only [Call.start] at started
      split at started <;> cases started
  | help =>
      cases started

/-! ## What the tokens say about a request -/

/-- A task here stands for the stage its payload names: its `on_stage_done` is
still to come. -/
def Place.isLive : Place → Bool
  | .created .. | .numbered .. | .counted .. | .queued _ | .executing |
      .finishing _ .before | .serving | .outstanding | .reaped => true
  | _ => false

/-- One for a token that stands for some stage of the request. -/
def liveOf (id : Nat) (token : Token) : Nat :=
  if token.place.isLive ∧ token.task.request? = some id then 1
  else 0

/-- One for a token that stands for the given stage of the request. -/
def liveAt (id rank : Nat) (token : Token) : Nat :=
  if token.place.isLive ∧ token.task.stage? = some (id, rank) then 1 else 0

/-- One for a token of the request inside `JobManager::submit`. -/
def preparingOf (id : Nat) (recorded : Bool) (token : Token) : Nat :=
  if token.place = .preparing recorded ∧
      token.task.request? = some id then 1
  else 0

theorem liveOf_mk (id : Nat) (place : Place) (task : Task) :
    liveOf id ⟨place, task⟩ =
      if place.isLive ∧ task.request? = some id then 1 else 0 :=
  rfl

theorem liveAt_mk (id rank : Nat) (place : Place) (task : Task) :
    liveAt id rank ⟨place, task⟩ =
      if place.isLive ∧ task.stage? = some (id, rank) then 1 else 0 :=
  rfl

theorem preparingOf_mk (id : Nat) (recorded : Bool) (place : Place)
    (task : Task) :
    preparingOf id recorded ⟨place, task⟩ =
      if place = .preparing recorded ∧
          task.request? = some id then 1
      else 0 :=
  rfl

/-- The stage of the request whose `on_stage_done` an entry records. -/
def Entry.calledFor (id : Nat) : Entry → Option Stage
  | .stageDone p => if p.requestId = id then some p.stage else none
  | _ => none

/-- The calls of `on_stage_done` for a request, in order. -/
def callsFor (history : List Entry) (id : Nat) : List Stage :=
  history.filterMap (Entry.calledFor id)

/-! ## Standings -/

/-- The states a request goes through. -/
inductive Stand where
  | unborn
  | preparing (recorded : Bool)
  | live (rank : Nat)
  | done
  deriving DecidableEq, Repr

namespace Stand

/-- `JobManager::submit` has handed out the id. -/
def born : Stand → Bool
  | .unborn => false
  | _ => true

/-- How many tokens stand for a stage of a request in this state. -/
def lives : Stand → Nat
  | .live _ => 1
  | _ => 0

def livesAt : Stand → Nat → Nat
  | .live rank, other => if other = rank then 1 else 0
  | _, _ => 0

/-- How many tokens are inside `JobManager::submit`. -/
def preparations : Stand → Bool → Nat
  | .preparing recorded, other => if other = recorded then 1 else 0
  | _, _ => 0

/-- What the job table says. -/
def state : Stand → Option JobState
  | .unborn | .preparing false => none
  | .preparing true | .live _ => some .running
  | .done => some .done

/-- Which calls of `on_stage_done` there have been. -/
def calls : Stand → List Stage
  | .unborn | .preparing _ => []
  | .live rank => Stage.chain.take rank
  | .done => Stage.chain

/-- There are four stages. -/
def Valid : Stand → Prop
  | .live rank => rank < 4
  | _ => True

theorem calls_length_le (stand : Stand) : stand.calls.length ≤ 4 := by
  cases stand with
  | live rank =>
      simp only [calls, List.length_take, Stage.chain, List.length_cons,
        List.length_nil]
      omega
  | _ =>
      simp [calls, Stage.chain]

end Stand

/-- The request is in the given state. -/
structure Stands (id : Nat) (books : Books) (tokens : List Token)
    (stand : Stand) : Prop where
  valid : stand.Valid
  born : stand.born = true ↔ 0 < id ∧ id < books.jobs.nextRequestId
  lives : total (liveOf id) tokens = stand.lives
  livesAt : ∀ rank, total (liveAt id rank) tokens = stand.livesAt rank
  preparations : ∀ recorded,
    total (preparingOf id recorded) tokens = stand.preparations recorded
  state : (books.jobs.status id).map JobStatus.state = stand.state
  calls : callsFor books.history id = stand.calls

/-- Every request is in one of the states. -/
structure InPipeline (books : Books) (tokens : List Token) : Prop where
  positive : 0 < books.jobs.nextRequestId
  stands : ∀ id, ∃ stand, Stands id books tokens stand

theorem callsFor_append (history entries : List Entry) (id : Nat) :
    callsFor (history ++ entries) id =
      callsFor history id ++ callsFor entries id :=
  List.filterMap_append

theorem callsFor_performs (task : Task) (id : Nat) :
    callsFor (performs config task) id = [] := by
  unfold performs
  split
  · rfl
  · split <;> rfl

theorem callsFor_executed (taskId : Nat) (entries : List Entry) (id : Nat) :
    callsFor (.executed taskId :: entries) id = callsFor entries id := rfl

theorem callsFor_reaped (lost : List Task) (id : Nat) :
    callsFor (lost.map fun task => .reaped task.taskId) id = [] := by
  unfold callsFor
  rw [List.filterMap_map]
  apply List.filterMap_eq_nil_iff.mpr
  intro task _
  rfl

theorem callsFor_stageDone (p : StagePayload) (id : Nat) :
    callsFor [.stageDone p] id =
      if p.requestId = id then [p.stage] else [] := by
  unfold callsFor
  simp only [List.filterMap_cons, List.filterMap_nil, Entry.calledFor]
  split <;> rename_i decided <;> split at decided <;> simp_all

/-- Recording a stage changes no state. -/
theorem state_recordStage (jobs : JobManager) (p : StagePayload) (id : Nat) :
    ((jobs.recordStage p).status id).map JobStatus.state =
      (jobs.status id).map JobStatus.state := by
  rw [JobManager.status_recordStage]
  split
  · rw [Option.map_map]
    rfl
  · rfl

namespace Stands

variable {id : Nat} {books after : Books} {tokens later : List Token}
  {stand : Stand}

/-- A token that stands for a stage pins the request down. -/
theorem eq_live {rank : Nat} (stands : Stands id books tokens stand)
    (held : 0 < total (liveAt id rank) tokens) : stand = .live rank := by
  have count := stands.livesAt rank
  cases stand with
  | live other =>
      simp only [Stand.livesAt] at count
      split at count
      · rename_i equal
        rw [equal]
      · omega
  | unborn =>
      simp only [Stand.livesAt] at count
      omega
  | preparing recorded =>
      simp only [Stand.livesAt] at count
      omega
  | done =>
      simp only [Stand.livesAt] at count
      omega

theorem eq_preparing {recorded : Bool}
    (stands : Stands id books tokens stand)
    (held : 0 < total (preparingOf id recorded) tokens) :
    stand = .preparing recorded := by
  have count := stands.preparations recorded
  cases stand with
  | preparing other =>
      simp only [Stand.preparations] at count
      split at count
      · rename_i equal
        rw [equal]
      · omega
  | unborn =>
      simp only [Stand.preparations] at count
      omega
  | live rank =>
      simp only [Stand.preparations] at count
      omega
  | done =>
      simp only [Stand.preparations] at count
      omega

/-- A request keeps its state if its weights, its entry and its calls stay. -/
theorem keep (stands : Stands id books tokens stand)
    (sameNext : after.jobs.nextRequestId = books.jobs.nextRequestId)
    (sameState : (after.jobs.status id).map JobStatus.state =
      (books.jobs.status id).map JobStatus.state)
    (sameCalls : callsFor after.history id = callsFor books.history id)
    (sameLives : total (liveOf id) later = total (liveOf id) tokens)
    (sameLivesAt : ∀ rank,
      total (liveAt id rank) later = total (liveAt id rank) tokens)
    (samePreparations : ∀ recorded,
      total (preparingOf id recorded) later =
        total (preparingOf id recorded) tokens) :
    Stands id after later stand where
  valid := stands.valid
  born := by
    rw [sameNext]
    exact stands.born
  lives := sameLives.trans stands.lives
  livesAt rank := (sameLivesAt rank).trans (stands.livesAt rank)
  preparations recorded :=
    (samePreparations recorded).trans (stands.preparations recorded)
  state := sameState.trans stands.state
  calls := sameCalls.trans stands.calls

end Stands

/-- A task about to be observed stands for the stage it names. -/
theorem liveAt_of_finishing {tokens : List Token} (cause : Cause)
    {task : Task} {p : StagePayload}
    (present : (⟨.finishing cause .before, task⟩ : Token) ∈ tokens)
    (reads : task.payload.decodeStage = some p) :
    0 < total (liveAt p.requestId p.stage.rank) tokens := by
  refine Nat.lt_of_lt_of_le ?_ (le_total_of_mem present)
  simp [liveAt_mk, Place.isLive, stage?_eq reads]

/-! ## One event -/

section Calls

variable (config) (books : Books)

theorem callsFor_enter_ran (task : Task) (id : Nat) :
    callsFor ((Event.ran task).enter config books).history id =
      callsFor books.history id := by
  simp only [Event.enter, Books.remember, callsFor_append, callsFor_executed,
    callsFor_performs, List.append_nil]

theorem callsFor_enter_count (site : Site) (portable : Bool) (task : Task)
    (id : Nat) :
    callsFor ((Event.count site portable task).enter config books).history
        id = callsFor books.history id := by
  simp only [Event.enter, Books.remember, callsFor_append]
  exact List.append_nil _

theorem callsFor_enter_reap (lost : List Task) (id : Nat) :
    callsFor ((Event.reap lost).enter config books).history id =
      callsFor books.history id := by
  simp only [Event.enter, Books.remember, callsFor_append, callsFor_reaped,
    List.append_nil]

theorem callsFor_enter_markDone (cause : Cause) (task : Task)
    (p : StagePayload) (id : Nat) :
    callsFor ((Event.markDone cause task p).enter config books).history id =
      callsFor books.history id ++
        if p.requestId = id then [p.stage] else [] := by
  rw [← callsFor_stageDone, ← callsFor_append]
  rfl

theorem callsFor_enter_advance (cause : Cause) (task : Task)
    (p next : StagePayload) (id : Nat) :
    callsFor ((Event.advance cause task p next).enter config books).history
        id =
      callsFor books.history id ++
        if p.requestId = id then [p.stage] else [] := by
  rw [← callsFor_stageDone, ← callsFor_append]
  rfl

end Calls

section Kept

variable {state following : State config} {action : Action} {event : Event}

/-- `on_stage_done` for a stage that has a successor. -/
theorem InPipeline.advance
    {cause : Cause} {task : Task} {p next : StagePayload}
    (hasJobs : config.hasJobs = true)
    (pipeline : InPipeline state.shared.books state.tokens)
    (happens : Happens action (.advance cause task p next) state following) :
    InPipeline ((Event.advance cause task p next).enter config
      state.shared.books) following.tokens := by
  refine ⟨pipeline.positive, fun id => ?_⟩
  obtain ⟨stand, stands⟩ := pipeline.stands id
  obtain ⟨reads, hasNext⟩ := happens.allowed
  simp only [observed, hasJobs, if_true] at reads
  obtain ⟨sameId, early, nextRank⟩ := StagePayload.next?_eq_some hasNext
  have lives : total (liveOf id) following.tokens =
      total (liveOf id) state.tokens := by
    have equation := happens.moves (liveOf id)
    simp [Event.removed, Event.added, liveOf_mk, Place.isLive, request?_eq reads,
      recordingToken, sameId] at equation
    omega
  have livesAt : ∀ rank, total (liveAt id rank) following.tokens +
        (if p.requestId = id ∧ p.stage.rank = rank then 1 else 0) =
      total (liveAt id rank) state.tokens +
        (if p.requestId = id ∧ p.stage.rank + 1 = rank then 1 else 0) := by
    intro rank
    have equation := happens.moves (liveAt id rank)
    simpa [Event.removed, Event.added, liveAt_mk, Place.isLive, stage?_eq reads,
      recordingToken, sameId, nextRank] using equation
  have preparations : ∀ recorded,
      total (preparingOf id recorded) following.tokens =
        total (preparingOf id recorded) state.tokens := by
    intro recorded
    have equation := happens.moves (preparingOf id recorded)
    simpa [Event.removed, Event.added, preparingOf_mk, recordingToken]
      using equation
  have calls := callsFor_enter_advance config
    state.shared.books cause task p next id
  by_cases mine : p.requestId = id
  · simp only [mine, true_and] at livesAt
    have held : 0 < total (liveAt id p.stage.rank) state.tokens := by
      have equation := livesAt p.stage.rank
      simp at equation
      omega
    obtain rfl := stands.eq_live held
    refine ⟨.live (p.stage.rank + 1), ?_, stands.born,
      lives.trans stands.lives, ?_,
      fun recorded => (preparations recorded).trans
        (stands.preparations recorded), stands.state, ?_⟩
    · simp only [Stand.Valid]
      omega
    · intro rank
      have before := stands.livesAt rank
      have equation := livesAt rank
      simp only [Stand.livesAt] at before ⊢
      grind
    · rw [calls, if_pos mine, stands.calls]
      exact Stage.chain_take_succ (by omega)
  · refine ⟨stand, stands.keep rfl rfl ?_ lives ?_ preparations⟩
    · rw [calls, if_neg mine, List.append_nil]
    · intro rank
      simpa [mine] using livesAt rank

/-- `on_stage_done` for the last stage. -/
theorem InPipeline.markDone
    {cause : Cause} {task : Task} {p : StagePayload}
    (hasJobs : config.hasJobs = true)
    (pipeline : InPipeline state.shared.books state.tokens)
    (happens : Happens action (.markDone cause task p) state following) :
    InPipeline ((Event.markDone cause task p).enter config
      state.shared.books) following.tokens := by
  obtain ⟨reads, last⟩ := happens.allowed
  simp only [observed, hasJobs, if_true] at reads
  have livesAt : ∀ id rank, total (liveAt id rank) following.tokens +
        (if p.requestId = id ∧ p.stage.rank = rank then 1 else 0) =
      total (liveAt id rank) state.tokens := by
    intro id rank
    have equation := happens.moves (liveAt id rank)
    simpa [Event.removed, Event.added, liveAt_mk, Place.isLive, stage?_eq reads]
      using equation
  obtain ⟨own, ownStands⟩ := pipeline.stands p.requestId
  have held : 0 < total (liveAt p.requestId p.stage.rank) state.tokens := by
    have equation := livesAt p.requestId p.stage.rank
    simp at equation
    omega
  obtain rfl := ownStands.eq_live held
  obtain ⟨entry, found, isRunning⟩ := Option.map_eq_some_iff.mp ownStands.state
  have sameNext : ((Event.markDone cause task p).enter config
      state.shared.books).jobs.nextRequestId =
        state.shared.jobs.nextRequestId :=
    JobManager.nextRequestId_markDone _ p
  refine ⟨sameNext.symm ▸ pipeline.positive, fun id => ?_⟩
  have status := JobManager.status_markDone found
    (by rw [isRunning]; decide) id
  obtain ⟨stand, stands⟩ := pipeline.stands id
  have lives : total (liveOf id) following.tokens +
        (if p.requestId = id then 1 else 0) =
      total (liveOf id) state.tokens := by
    have equation := happens.moves (liveOf id)
    simpa [Event.removed, Event.added, liveOf_mk, Place.isLive, request?_eq reads]
      using equation
  have preparations : ∀ recorded,
      total (preparingOf id recorded) following.tokens =
        total (preparingOf id recorded) state.tokens := by
    intro recorded
    have equation := happens.moves (preparingOf id recorded)
    simpa [Event.removed, Event.added, preparingOf_mk] using equation
  have calls := callsFor_enter_markDone config
    state.shared.books cause task p id
  by_cases mine : p.requestId = id
  · subst mine
    refine ⟨.done, trivial, ?_, ?_, ?_,
      fun recorded => (preparations recorded).trans
        (ownStands.preparations recorded), ?_, ?_⟩
    · rw [sameNext]
      exact ownStands.born
    · have before := ownStands.lives
      simp only [if_true, Stand.lives] at lives before ⊢
      omega
    · intro rank
      have before := ownStands.livesAt rank
      have equation := livesAt p.requestId rank
      simp only [Stand.livesAt, true_and] at equation before ⊢
      grind
    · refine (congrArg (Option.map JobStatus.state) status).trans ?_
      simp [Stand.state]
    · rw [calls, if_pos rfl, ownStands.calls]
      refine (Stage.chain_take_succ ownStands.valid).trans ?_
      rw [last]
      rfl
  · refine ⟨stand, stands.keep sameNext ?_ ?_ (by simpa [mine] using lives)
      (fun rank => by simpa [mine] using livesAt id rank) preparations⟩
    · refine congrArg (Option.map JobStatus.state) (status.trans ?_)
      rw [if_neg fun same => mine same.symm]
    · rw [calls, if_neg mine, List.append_nil]

/-- `on_stage_done` is only ever called for one of the four stages. -/
theorem InPipeline.not_misread
    {cause : Cause} {task : Task} {p : StagePayload}
    (hasJobs : config.hasJobs = true)
    (pipeline : InPipeline state.shared.books state.tokens)
    (happens : Happens action (.misread cause task p) state following) :
    False := by
  obtain ⟨reads, noNext, notLast⟩ := happens.allowed
  simp only [observed, hasJobs, if_true] at reads
  obtain ⟨stand, stands⟩ := pipeline.stands p.requestId
  have held : 0 < total (liveAt p.requestId p.stage.rank) state.tokens := by
    have equation := happens.moves (liveAt p.requestId p.stage.rank)
    simp [Event.removed, Event.added, liveAt_mk, Place.isLive, stage?_eq reads,
      recordingToken] at equation
    omega
  obtain rfl := stands.eq_live held
  exact notLast (StagePayload.last_of_next?_eq_none stands.valid noNext)

/-- `JobManager::submit` takes an id. -/
theorem InPipeline.fetchRequest {request : Request}
    (pipeline : InPipeline state.shared.books state.tokens)
    (happens : Happens action (.fetchRequest request) state following) :
    InPipeline ((Event.fetchRequest request).enter config
      state.shared.books) following.tokens := by
  refine ⟨Nat.succ_pos _, fun id => ?_⟩
  obtain ⟨stand, stands⟩ := pipeline.stands id
  have lives : total (liveOf id) following.tokens =
      total (liveOf id) state.tokens := by
    have equation := happens.moves (liveOf id)
    simpa [Event.removed, Event.added, liveOf_mk, Place.isLive, preparingToken]
      using equation
  have livesAt : ∀ rank, total (liveAt id rank) following.tokens =
      total (liveAt id rank) state.tokens := by
    intro rank
    have equation := happens.moves (liveAt id rank)
    simpa [Event.removed, Event.added, liveAt_mk, Place.isLive, preparingToken]
      using equation
  have preparations : ∀ recorded,
      total (preparingOf id recorded) following.tokens =
        total (preparingOf id recorded) state.tokens +
          if recorded = false ∧ state.shared.jobs.nextRequestId = id then 1
          else 0 := by
    intro recorded
    have equation := happens.moves (preparingOf id recorded)
    simp [Event.removed, Event.added, preparingOf_mk, preparingToken] at equation
    rw [equation]
  have positive : 0 < state.shared.jobs.nextRequestId := pipeline.positive
  by_cases mine : state.shared.jobs.nextRequestId = id
  · subst mine
    obtain rfl : stand = .unborn := by
      have bornIff := stands.born
      cases stand with
      | unborn => rfl
      | _ => simp [Stand.born] at bornIff
    refine ⟨.preparing false, trivial, ?_, lives.trans stands.lives,
      fun rank => (livesAt rank).trans (stands.livesAt rank), ?_,
      stands.state, stands.calls⟩
    · simp [Stand.born, Event.enter, positive]
    · intro recorded
      have before := stands.preparations recorded
      simp only [Stand.preparations] at before ⊢
      rw [preparations, before]
      simp
  · refine ⟨stand, stands.valid, ?_, lives.trans stands.lives,
      fun rank => (livesAt rank).trans (stands.livesAt rank), ?_,
      stands.state, stands.calls⟩
    · refine stands.born.trans ?_
      simp only [Event.enter, Shared.books_jobs]
      omega
    · intro recorded
      rw [preparations, stands.preparations]
      simp [mine]

/-- `JobManager::submit` enters the request in the table. -/
theorem InPipeline.emplace {request : Request} {id : Nat}
    (pipeline : InPipeline state.shared.books state.tokens)
    (happens : Happens action (.emplace request id) state following) :
    InPipeline ((Event.emplace request id).enter config
      state.shared.books) following.tokens := by
  have preparations : ∀ other recorded,
      total (preparingOf other recorded) following.tokens +
          (if recorded = false ∧ id = other then 1 else 0) =
        total (preparingOf other recorded) state.tokens +
          if recorded = true ∧ id = other then 1 else 0 := by
    intro other recorded
    have equation := happens.moves (preparingOf other recorded)
    simpa [Event.removed, Event.added, preparingOf_mk, preparingToken, eq_comm]
      using equation
  obtain ⟨own, ownStands⟩ := pipeline.stands id
  have held : 0 < total (preparingOf id false) state.tokens := by
    have equation := preparations id false
    simp at equation
    omega
  obtain rfl := ownStands.eq_preparing held
  have fresh : state.shared.jobs.status id = none :=
    Option.map_eq_none_iff.mp ownStands.state
  have sameNext : ((Event.emplace request id).enter config
      state.shared.books).jobs.nextRequestId =
        state.shared.jobs.nextRequestId :=
    JobManager.nextRequestId_emplace _ id request.kind
  refine ⟨sameNext.symm ▸ pipeline.positive, fun other => ?_⟩
  have status := JobManager.status_emplace request.kind fresh other
  have lives : total (liveOf other) following.tokens =
      total (liveOf other) state.tokens := by
    have equation := happens.moves (liveOf other)
    simpa [Event.removed, Event.added, liveOf_mk, Place.isLive, preparingToken]
      using equation
  have livesAt : ∀ rank, total (liveAt other rank) following.tokens =
      total (liveAt other rank) state.tokens := by
    intro rank
    have equation := happens.moves (liveAt other rank)
    simpa [Event.removed, Event.added, liveAt_mk, Place.isLive, preparingToken]
      using equation
  by_cases mine : other = id
  · subst mine
    refine ⟨.preparing true, trivial, ?_, lives.trans ownStands.lives,
      fun rank => (livesAt rank).trans (ownStands.livesAt rank), ?_, ?_,
      ownStands.calls⟩
    · rw [sameNext]
      exact ownStands.born
    · intro recorded
      have before := ownStands.preparations recorded
      have equation := preparations other recorded
      simp only [Stand.preparations] at before ⊢
      grind
    · refine (congrArg (Option.map JobStatus.state) status).trans ?_
      simp [Stand.state]
  · obtain ⟨stand, stands⟩ := pipeline.stands other
    refine ⟨stand, stands.keep sameNext ?_ rfl lives livesAt ?_⟩
    · refine congrArg (Option.map JobStatus.state) (status.trans ?_)
      rw [if_neg mine]
      rfl
    · intro recorded
      have equation := preparations other recorded
      simpa [Ne.symm mine] using equation

/-- `JobManager::submit` counts the request and begins to submit its first
stage. -/
theorem InPipeline.countRequest {request : Request} {id : Nat}
    (pipeline : InPipeline state.shared.books state.tokens)
    (happens : Happens action (.countRequest request id) state following) :
    InPipeline ((Event.countRequest request id).enter config
      state.shared.books) following.tokens := by
  refine ⟨pipeline.positive, fun other => ?_⟩
  have preparations : ∀ recorded,
      total (preparingOf other recorded) following.tokens +
          (if recorded = true ∧ id = other then 1 else 0) =
        total (preparingOf other recorded) state.tokens := by
    intro recorded
    have equation := happens.moves (preparingOf other recorded)
    simpa [Event.removed, Event.added, preparingOf_mk, preparingToken, eq_comm]
      using equation
  have lives : total (liveOf other) following.tokens =
      total (liveOf other) state.tokens + if id = other then 1 else 0 := by
    have equation := happens.moves (liveOf other)
    simpa [Event.removed, Event.added, liveOf_mk, Place.isLive, preparingToken]
      using equation
  have livesAt : ∀ rank, total (liveAt other rank) following.tokens =
      total (liveAt other rank) state.tokens +
        if id = other ∧ 0 = rank then 1 else 0 := by
    intro rank
    have equation := happens.moves (liveAt other rank)
    simpa [Event.removed, Event.added, liveAt_mk, Place.isLive, preparingToken]
      using equation
  obtain ⟨stand, stands⟩ := pipeline.stands other
  by_cases mine : id = other
  · subst mine
    have held : 0 < total (preparingOf id true) state.tokens := by
      have equation := preparations true
      simp at equation
      omega
    obtain rfl := stands.eq_preparing held
    refine ⟨.live 0, Nat.zero_lt_succ 3, stands.born, ?_, ?_, ?_, stands.state,
      stands.calls⟩
    · rw [lives, stands.lives]
      simp [Stand.lives]
    · intro rank
      rw [livesAt, stands.livesAt]
      simp [Stand.livesAt, eq_comm]
    · intro recorded
      have before := stands.preparations recorded
      have equation := preparations recorded
      simp only [Stand.preparations] at before ⊢
      grind
  · refine ⟨stand, stands.keep rfl rfl rfl (by simpa [mine] using lives)
      (fun rank => by simpa [mine] using livesAt rank)
      (fun recorded => by simpa [mine] using preparations recorded)⟩

/-- Every event keeps every request in one of its states. -/
theorem InPipeline.kept
    (hasJobs : config.hasJobs = true) (honest : action.Honest)
    (balanced : Balanced state.shared.books state.tokens)
    (pipeline : InPipeline state.shared.books state.tokens)
    (happens : Happens action event state following) :
    InPipeline (event.enter config state.shared.books) following.tokens := by
  have lives := fun id => happens.moves (liveOf id)
  have livesAt := fun id rank => happens.moves (liveAt id rank)
  have preparations := fun id recorded =>
    happens.moves (preparingOf id recorded)
  -- events that the pipeline does not notice
  have unnoticed :
      (event.enter config state.shared.books).jobs.nextRequestId =
        state.shared.jobs.nextRequestId →
      (∀ id, ((event.enter config state.shared.books).jobs.status id).map
          JobStatus.state =
        (state.shared.jobs.status id).map JobStatus.state) →
      (∀ id, callsFor (event.enter config state.shared.books).history id =
        callsFor state.shared.history id) →
      (∀ id, total (liveOf id) (event.removed config) =
        total (liveOf id) (event.added config state.shared.books)) →
      (∀ id rank, total (liveAt id rank) (event.removed config) =
        total (liveAt id rank) (event.added config state.shared.books)) →
      (∀ id recorded, total (preparingOf id recorded) (event.removed config) =
        total (preparingOf id recorded)
          (event.added config state.shared.books)) →
      InPipeline (event.enter config state.shared.books)
        following.tokens := by
    intro sameNext sameState sameCalls sameLives sameLivesAt samePreparations
    refine ⟨sameNext.symm ▸ pipeline.positive, fun id => ?_⟩
    obtain ⟨stand, stands⟩ := pipeline.stands id
    refine ⟨stand, stands.keep sameNext (sameState id) (sameCalls id) ?_
      (fun rank => ?_) (fun recorded => ?_)⟩
    · have equation := lives id
      rw [sameLives id] at equation
      omega
    · have equation := livesAt id rank
      rw [sameLivesAt id rank] at equation
      omega
    · have equation := preparations id recorded
      rw [samePreparations id recorded] at equation
      omega
  cases event with
  | advance cause task p next =>
      exact pipeline.advance hasJobs happens
  | markDone cause task p =>
      exact pipeline.markDone hasJobs happens
  | misread cause task p =>
      exact (pipeline.not_misread hasJobs happens).elim
  | trackTwice task =>
      exact (balanced.not_trackTwice happens).elim
  | fetchRequest request =>
      exact pipeline.fetchRequest happens
  | emplace request id =>
      exact pipeline.emplace happens
  | countRequest request id =>
      exact pipeline.countRequest happens
  | start portable task =>
      have reads := start_payload happens.caused honest
      refine unnoticed rfl (fun _ => rfl) (fun _ => rfl) (fun id => ?_)
        (fun id rank => ?_) (fun id recorded => ?_) <;>
        simp [Event.removed, Event.added, liveOf_mk, liveAt_mk,
          preparingOf_mk, request?_eq_none reads, stage?_eq_none reads]
  | ignore cause task =>
      have reads := happens.allowed
      simp only [Event.Allowed, observed, hasJobs, if_true] at reads
      refine unnoticed rfl (fun _ => rfl) (fun _ => rfl) (fun id => ?_)
        (fun id rank => ?_) (fun id recorded => ?_) <;>
        simp [Event.removed, Event.added, liveOf_mk, liveAt_mk,
          preparingOf_mk, request?_eq_none reads, stage?_eq_none reads]
  | record p =>
      refine unnoticed rfl (fun id => state_recordStage _ p id)
        (fun _ => rfl) (fun id => ?_) (fun id rank => ?_)
        (fun id recorded => ?_) <;>
        simp [Event.removed, Event.added, liveOf_mk, liveAt_mk,
          preparingOf_mk, Place.isLive, recordingToken]
  | ran task =>
      refine unnoticed rfl (fun _ => rfl) (fun id => ?_) (fun id => ?_)
        (fun id rank => ?_) (fun id recorded => ?_)
      · exact callsFor_enter_ran config _ task id
      all_goals
        simp [Event.removed, Event.added, liveOf_mk, liveAt_mk,
          preparingOf_mk, Place.isLive, owedToken]
  | count site portable task =>
      refine unnoticed rfl (fun _ => rfl) (fun id => ?_) (fun id => ?_)
        (fun id rank => ?_) (fun id recorded => ?_)
      · exact callsFor_enter_count config _ site portable task id
      all_goals
        simp [Event.removed, Event.added, liveOf_mk, liveAt_mk,
          preparingOf_mk, Place.isLive]
  | reap lost =>
      refine unnoticed rfl (fun _ => rfl) (fun id => ?_) (fun id => ?_)
        (fun id rank => ?_) (fun id recorded => ?_)
      · exact callsFor_enter_reap config _ lost id
      all_goals
        simp [Event.removed, Event.added, liveOf_mk, liveAt_mk,
          preparingOf_mk, Place.isLive]
  | number site portable task =>
      refine unnoticed rfl (fun _ => rfl) (fun _ => rfl) (fun id => ?_)
        (fun id rank => ?_) (fun id recorded => ?_) <;>
        simp [Event.removed, Event.added, liveOf_mk, liveAt_mk,
          preparingOf_mk, Place.isLive, Task.request?, Task.stage?]
  | _ =>
      refine unnoticed rfl (fun _ => rfl) (fun _ => rfl) (fun id => ?_)
        (fun id rank => ?_) (fun id recorded => ?_) <;>
        simp [Event.removed, Event.added, liveOf_mk, liveAt_mk,
          preparingOf_mk, Place.isLive, owedToken]

end Kept

/-- Runs in which application code forges no stage. -/
def Honest (_ : State config) (action : Action) : Prop :=
  action.Honest

instance (state : State config) (action : Action) :
    Decidable (Honest state action) :=
  inferInstanceAs (Decidable action.Honest)

theorem inPipeline_initially : InPipeline ({ } : Shared config).books [] := by
  refine ⟨Nat.one_pos, fun id => ⟨.unborn, ?_⟩⟩
  refine ⟨trivial, ?_, rfl, fun _ => rfl, fun _ => rfl, rfl, rfl⟩
  have first : ({ } : Shared config).books.jobs.nextRequestId = 1 := rfl
  rw [first]
  constructor
  · intro impossible
    cases impossible
  · omega

theorem inPipeline_of_reachable
    (hasJobs : config.hasJobs = true) {state : State config}
    (reached : (node config).ReachableUnder Honest state) :
    InPipeline state.shared.books state.tokens := by
  refine invariant_of_balanced_events InPipeline inPipeline_initially ?_
    reached
  · intro state following action event balanced pipeline honest happens
    exact pipeline.kept hasJobs honest balanced happens

end HydraRT.Cluster
