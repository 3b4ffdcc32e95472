import HydraRT.Cluster.Events

/-!
# The ledger of a node

`submitted_` minus `completed_` is the number of tasks that are somewhere on
their way: the counters are a ledger, and every event enters each task once on
either side.  The proof carries along that task ids are unique, because a
second task with the id of a tracked one would vanish in `track_outstanding`.
-/

namespace HydraRT.Cluster

open HydraRT.Inference
open HydraRT.Lib

variable {config : NodeConfig}

namespace Place

/-- Counted in `submitted_` and not yet pushed. -/
def isUnpushed : Place → Bool
  | .counted .. => true
  | _ => false

/-- In a deque, an injection queue or a portable pool. -/
def isQueued : Place → Bool
  | .queued _ => true
  | _ => false

/-- Dequeued for local execution and not yet counted by `finish_one`. -/
def isExecuting : Place → Bool
  | .executing | .finishing .executed _ => true
  | _ => false

/-- Held in the response of `serve_peer` before it is tracked. -/
def isServing : Place → Bool
  | .serving => true
  | _ => false

/-- In `outstanding_`. -/
def isOutstanding : Place → Bool
  | .outstanding => true
  | _ => false

/-- Erased by `resolve_outstanding` and not yet counted by `finish_one`. -/
def isResolved : Place → Bool
  | .finishing .resolved _ => true
  | _ => false

/-- Erased by the reaper and not yet counted by `finish_one`. -/
def isReaped : Place → Bool
  | .reaped | .resubmitting | .finishing .settled _ => true
  | _ => false

/-- A task here is on the debit side of the ledger. -/
def inLedger : Place → Bool
  | .counted .. | .queued _ | .executing | .finishing .. | .serving |
      .outstanding | .reaped | .resubmitting => true
  | _ => false

/-- A task here has an id of this node. -/
def bearsId : Place → Bool
  | .numbered .. | .counted .. | .queued _ | .executing | .finishing .. |
      .serving | .outstanding | .reaped | .resubmitting => true
  | _ => false

end Place

/-- The number of tasks at certain places. -/
def State.count (state : State config) (holds : Place → Bool) : Nat :=
  state.tokens.countP fun token => holds token.place

/-- One for a token on the debit side. -/
def debit (token : Token) : Nat :=
  if token.place.inLedger then 1 else 0

/-- One for a token that bears the id. -/
def bearing (id : Nat) (token : Token) : Nat :=
  if token.place.bearsId ∧ token.task.taskId = id then 1 else 0

/-- The counters are balanced and no two tasks share an id. -/
structure Balanced (books : Books) (tokens : List Token) : Prop where
  balance : books.submitted = books.completed + total debit tokens
  unique : ∀ id, total (bearing id) tokens ≤ 1
  known : ∀ id, books.nextId ≤ id → total (bearing id) tokens = 0

/-- Two tokens at different places cannot bear the same id. -/
theorem Balanced.not_both {books : Books} {tokens : List Token}
    (balanced : Balanced books tokens) {first second : Token}
    (inTokens : first ∈ tokens) (alsoInTokens : second ∈ tokens)
    (differ : first.place ≠ second.place)
    (bears : first.place.bearsId) (alsoBears : second.place.bearsId) :
    first.task.taskId ≠ second.task.taskId := by
  intro sameId
  have parted : total (bearing first.task.taskId) tokens =
      total (fun token => if token.place = first.place then
        bearing first.task.taskId token else 0) tokens +
      total (fun token => if token.place = first.place then 0
        else bearing first.task.taskId token) tokens := by
    rw [← total_add]
    apply total_congr
    intro token _
    split <;> simp
  have one : 1 ≤ total (fun token => if token.place = first.place then
      bearing first.task.taskId token else 0) tokens := by
    refine Nat.le_trans ?_ (le_total_of_mem inTokens)
    simp [bearing, bears]
  have another : 1 ≤ total (fun token => if token.place = first.place then 0
      else bearing first.task.taskId token) tokens := by
    refine Nat.le_trans ?_ (le_total_of_mem alsoInTokens)
    simp [bearing, alsoBears, Ne.symm differ, sameId]
  have atMostOne := balanced.unique first.task.taskId
  omega

/-- The id of a re-run's original passes to the task that settles it. -/
@[simp]
theorem settled_taskId (lost : Task) : lost.settled.taskId = lost.taskId := rfl

/-- `track_outstanding` never finds the id of its task tracked already. -/
theorem Balanced.not_trackTwice {state following : State config}
    {action : Action} {task : Task}
    (balanced : Balanced state.shared.books state.tokens)
    (happens : Happens action (.trackTwice task) state following) :
    False := by
  obtain ⟨tracked, member, sameId⟩ := happens.allowed
  have held : (⟨.serving, task⟩ : Token) ∈ state.tokens := by
    have present := happens.moves.mem_removed List.mem_cons_self
    simpa [Event.added] using present
  exact balanced.not_both held member Place.noConfusion rfl rfl sameId.symm

/-- What the two weights make of a token. -/
theorem debit_mk (place : Place) (task : Task) :
    debit ⟨place, task⟩ = if place.inLedger then 1 else 0 := rfl

theorem bearing_mk (id : Nat) (place : Place) (task : Task) :
    bearing id ⟨place, task⟩ =
      if place.bearsId ∧ task.taskId = id then 1 else 0 := rfl

theorem Balanced.kept {state following : State config} {action : Action}
    {event : Event}
    (balanced : Balanced state.shared.books state.tokens)
    (happens : Happens action event state following) :
    Balanced (event.enter config state.shared.books) following.tokens := by
  obtain ⟨balance, unique, known⟩ := id balanced
  have debits := happens.moves debit
  have bearers := fun id => happens.moves (bearing id)
  cases event with
  | trackTwice task =>
      exact (balanced.not_trackTwice happens).elim
  | number site portable task =>
      -- the new id is the first one that no token bears
      simp [Event.removed, Event.added, debit_mk, bearing_mk, Place.inLedger,
        Place.bearsId] at debits bearers
      refine ⟨?_, ?_, ?_⟩
      · simp only [Event.enter]
        omega
      · intro id
        have equation := bearers id
        have atMostOne := unique id
        have noneYet := known id
        split at equation <;> omega
      · intro id late
        have equation := bearers id
        have noneYet := known id
        simp only [Event.enter] at late
        split at equation <;> omega
  | _ =>
      simp [Event.removed, Event.added, debit_mk, bearing_mk, Place.inLedger,
        Place.bearsId, recordingToken, owedToken, preparingToken]
        at debits bearers
      refine ⟨?_, ?_, ?_⟩
      · simp only [Event.enter, Books.remember]
        omega
      · intro id
        have equation := bearers id
        have atMostOne := unique id
        omega
      · intro id late
        have equation := bearers id
        have noneYet := known id
        simp only [Event.enter, Books.remember] at late
        omega

theorem balanced_of_reachable {state : State config}
    (reached : (node config).Reachable state) :
    Balanced state.shared.books state.tokens := by
  refine invariant_of_events ?_ ?_ reached
  · exact ⟨rfl, fun _ => Nat.zero_le 1, fun _ _ => rfl⟩
  · intro state following action event balanced _ happens
    exact balanced.kept happens

/-- The rule for invariants, with the ledger at hand. -/
theorem invariant_of_balanced_events
    {guard : State config → Action → Prop}
    (Invariant : Books → List Token → Prop)
    (holdsInitially : Invariant (({ } : Shared config).books) [])
    (isKept : ∀ {state following : State config} {action : Action}
      {event : Event}, Balanced state.shared.books state.tokens →
        Invariant state.shared.books state.tokens →
        guard state action → Happens action event state following →
          Invariant (event.enter config state.shared.books) following.tokens)
    {state : State config}
    (reached : (node config).ReachableUnder guard state) :
    Invariant state.shared.books state.tokens := by
  induction reached with
  | start isInitial =>
      rw [State.Initial.tokens isInitial, State.Initial.shared isInitial]
      exact holdsInitially
  | next earlier allowed stepped inductionHypothesis =>
      obtain ⟨event, happens⟩ := step_happens stepped
      rw [happens.books]
      exact isKept (balanced_of_reachable earlier.reachable)
        inductionHypothesis allowed happens

/-- The debit side is made of seven kinds of places. -/
theorem total_debit (tokens : List Token) :
    total debit tokens =
      tokens.countP (fun token => token.place.isUnpushed) +
        tokens.countP (fun token => token.place.isQueued) +
        tokens.countP (fun token => token.place.isExecuting) +
        tokens.countP (fun token => token.place.isServing) +
        tokens.countP (fun token => token.place.isOutstanding) +
        tokens.countP (fun token => token.place.isResolved) +
        tokens.countP (fun token => token.place.isReaped) := by
  simp only [countP_eq_total, ← total_add]
  apply total_congr
  intro token _
  obtain ⟨place, task⟩ := token
  cases place with
  | finishing cause phase => cases cause <;> rfl
  | _ => rfl

/-- In every reachable state the counters differ by the number of tasks on
their way, also when they are subtracted as 64-bit values. -/
theorem node_ledger {state : State config}
    (reached : (node config).Reachable state) :
    state.shared.completed ≤ state.shared.submitted ∧
      state.shared.submitted - state.shared.completed =
        state.count Place.isUnpushed + state.count Place.isQueued +
          state.count Place.isExecuting + state.count Place.isServing +
          state.count Place.isOutstanding + state.count Place.isResolved +
          state.count Place.isReaped ∧
      (state.shared.submitted < 2 ^ 64 →
        (UInt64.ofNat state.shared.submitted -
            UInt64.ofNat state.shared.completed).toNat =
          state.shared.submitted - state.shared.completed) := by
  have balance : state.shared.submitted =
      state.shared.completed + total debit state.tokens :=
    (balanced_of_reachable reached).balance
  refine ⟨by omega, ?_, ?_⟩
  · have parts := total_debit state.tokens
    simp only [State.count]
    omega
  · intro small
    rw [UInt64.toNat_sub]
    simp only [UInt64.toNat_ofNat']
    omega

/-- Two tasks are submitted and a thief takes one of them. -/
def soloSteal : List Action :=
  [Action.move 1 (.call (.submitPortable 1 noStage 1))] ++
    advances 1 3 ++
    [Action.move 1 (.call (.submitPortable 3 .empty 1))] ++ advances 1 3 ++
    [Action.move 2 (.request ⟨2, 4, .generic⟩)] ++ advances 2 11

theorem node_ledger_during_steal :
    ∃ state, (node soloConfig).run soloStart soloSteal = some state ∧
      state.shared.submitted - state.shared.completed =
        state.count Place.isUnpushed + state.count Place.isQueued +
          state.count Place.isExecuting + state.count Place.isServing +
          state.count Place.isOutstanding + state.count Place.isResolved +
          state.count Place.isReaped ∧
      state.count Place.isQueued = 1 ∧
        state.count Place.isOutstanding = 1 := by
  refine ⟨_, rfl, (node_ledger
    (Machine.reachable_of_run soloSteal soloStart_initial rfl)).2.1, ?_, ?_⟩
  · decide
  · decide

end HydraRT.Cluster
