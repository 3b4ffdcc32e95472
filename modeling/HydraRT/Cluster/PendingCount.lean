import HydraRT.Cluster.WaitPredicate

/-!
# The number of pending tasks

`Runtime::pending` subtracts `completed_` from `submitted_`.  Each counter is
loaded once, in an order the compiler chooses, while every other thread goes
on.  At any one moment `completed_` is not above `submitted_`, but the two
values are from different moments.
-/

namespace HydraRT.Cluster

open HydraRT.Lib

variable {config : NodeConfig}

/-- Where a call of `pending` stands. -/
inductive PendingCall where
  | idle
  /-- Loaded `submitted_` and still has to load `completed_`. -/
  | sawSubmitted (submitted : Nat)
  /-- Loaded `completed_` and still has to load `submitted_`. -/
  | sawCompleted (completed : Nat)
  /-- Returned the difference of the loaded values. -/
  | returned (submitted completed : Nat)
  deriving DecidableEq, Repr

/-- The difference as the code computes it. -/
def pendingValue (submitted completed : Nat) : UInt64 :=
  UInt64.ofNat submitted - UInt64.ofNat completed

/-- The next load of the call.  After the last one a new call may begin. -/
def PendingCall.load (shared : Shared config) (completedFirst : Bool) :
    PendingCall → PendingCall
  | .sawSubmitted submitted => .returned submitted shared.completed
  | .sawCompleted completed => .returned shared.submitted completed
  | .idle | .returned .. =>
      if completedFirst then .sawCompleted shared.completed
      else .sawSubmitted shared.submitted

/-- A node and a thread that calls `pending`. -/
structure Polled (config : NodeConfig) where
  state : State config
  call : PendingCall := .idle

inductive PolledAction where
  | node (action : Action)
  /-- The next load; `completedFirst` chooses the operand of a new call. -/
  | load (completedFirst : Bool)
  deriving DecidableEq, Repr

/-- The runs of a node next to the calls of `pending`. -/
def polledNode (config : NodeConfig) :
    Machine (Polled config) PolledAction where
  initial polled := polled.state.Initial ∧ polled.call = .idle
  step polled
    | .node action =>
        (polled.state.step action).map fun following =>
          { polled with state := following }
    | .load completedFirst =>
        some { polled with
          call := polled.call.load polled.state.shared completedFirst }

/-- The action increments `completed_`. -/
def State.finishes (state : State config) (action : Action) : Bool :=
  ((state.step action).map (·.shared.completed)) !=
      some state.shared.completed &&
    (state.step action).isSome

/-- While a call holds a `submitted_` that it loaded before `completed_`, no
task is completed beyond that number. -/
def NoneOvertakes (polled : Polled config) : PolledAction → Prop
  | .load _ => True
  | .node action =>
      match polled.call with
      | .sawSubmitted submitted =>
          polled.state.finishes action = true →
            polled.state.shared.completed < submitted
      | _ => True

instance (polled : Polled config) (action : PolledAction) :
    Decidable (NoneOvertakes polled action) :=
  match action with
  | .load _ => isTrue trivial
  | .node action =>
      match held : polled.call with
      | .sawSubmitted submitted =>
          decidable_of_iff
            (polled.state.finishes action = true →
              polled.state.shared.completed < submitted)
            (by simp only [NoneOvertakes, held])
      | .idle | .sawCompleted _ | .returned .. =>
          isTrue (by simp only [NoneOvertakes, held])

/-! ## What a call knows -/

/-- A step completes at most one task. -/
theorem completed_of_step {state following : State config} {action : Action}
    (stepped : (node config).step state action = some following) :
    following.shared.completed = state.shared.completed ∨
      (state.finishes action = true ∧
        following.shared.completed = state.shared.completed + 1) := by
  have same : state.step action = some following := stepped
  obtain ⟨event, happens⟩ := step_happens stepped
  have entered : following.shared.completed =
      (event.enter config state.shared.books).completed :=
    congrArg Books.completed happens.books
  cases event with
  | finish =>
      have more : following.shared.completed = state.shared.completed + 1 :=
        entered
      refine Or.inr ⟨?_, more⟩
      simp [State.finishes, same, more]
  | _ =>
      exact Or.inl entered

/-- The loaded values fit together, now and after whatever may happen. -/
def PendingCall.Known (shared : Shared config) : PendingCall → Prop
  | .idle => True
  | .sawSubmitted submitted =>
      shared.completed ≤ submitted ∧ submitted ≤ shared.submitted
  | .sawCompleted completed => completed ≤ shared.submitted
  | .returned submitted completed =>
      completed ≤ submitted ∧ submitted ≤ shared.submitted

theorem PendingCall.Known.load {shared : Shared config} {call : PendingCall}
    (known : call.Known shared) (completedFirst : Bool)
    (ledger : shared.completed ≤ shared.submitted) :
    (call.load shared completedFirst).Known shared := by
  have begins : (if completedFirst then
      PendingCall.sawCompleted shared.completed
      else .sawSubmitted shared.submitted).Known shared := by
    cases completedFirst with
    | true =>
        exact ledger
    | false =>
        exact ⟨ledger, Nat.le_refl _⟩
  cases call with
  | idle =>
      exact begins
  | returned submitted completed =>
      exact begins
  | sawSubmitted submitted =>
      exact known
  | sawCompleted completed =>
      exact ⟨known, Nat.le_refl _⟩

theorem PendingCall.Known.node_step {polled : Polled config}
    {following : State config} {action : Action}
    (known : polled.call.Known polled.state.shared)
    (allowed : NoneOvertakes polled (.node action))
    (moved : (node config).step polled.state action = some following) :
    polled.call.Known following.shared := by
  have grows := submitted_le_of_step moved
  obtain ⟨state, call⟩ := polled
  cases call with
  | idle =>
      trivial
  | returned submitted completed =>
      exact ⟨known.1, known.2.trans grows⟩
  | sawCompleted completed =>
      exact Nat.le_trans known grows
  | sawSubmitted submitted =>
      obtain ⟨notAbove, below⟩ := known
      refine ⟨?_, below.trans grows⟩
      rcases completed_of_step moved with same | ⟨finishes, more⟩
      · rw [same]
        exact notAbove
      · rw [more]
        exact allowed finishes

theorem polled_reachable {polled : Polled config}
    {guard : Polled config → PolledAction → Prop}
    (reached : (polledNode config).ReachableUnder guard polled) :
    (node config).Reachable polled.state := by
  refine reached.seen Polled.state (fun _ isInitial => isInitial.1) ?_
  intro before action after _ stepped
  cases action with
  | node action =>
      obtain ⟨following, moved, rfl⟩ := Option.map_eq_some_iff.mp stepped
      exact .inr ⟨action, trivial, moved⟩
  | load completedFirst =>
      cases stepped
      exact .inl rfl

theorem known_of_polled {polled : Polled config}
    (reached : (polledNode config).ReachableUnder NoneOvertakes polled) :
    polled.call.Known polled.state.shared := by
  induction reached with
  | start isInitial =>
      rw [isInitial.2]
      trivial
  | @next before after action earlier allowed stepped inductionHypothesis =>
      cases action with
      | node action =>
          obtain ⟨following, moved, rfl⟩ := Option.map_eq_some_iff.mp stepped
          exact inductionHypothesis.node_step allowed moved
      | load completedFirst =>
          cases stepped
          have balance : before.state.shared.submitted =
              before.state.shared.completed +
                total debit before.state.tokens :=
            (balanced_of_reachable (polled_reachable earlier)).balance
          exact inductionHypothesis.load completedFirst (by omega)

/-! ## The returned value -/

/-- The value that a call returns is the difference of what it loaded and not
more than has been submitted. -/
def InRange (shared : Shared config) (submitted completed : Nat) : Prop :=
  completed ≤ submitted ∧
    (pendingValue submitted completed).toNat ≤ shared.submitted ∧
    (submitted < 2 ^ 64 →
      (pendingValue submitted completed).toNat = submitted - completed)

theorem inRange_of_known {shared : Shared config} {submitted completed : Nat}
    (known : (PendingCall.returned submitted completed).Known shared) :
    InRange shared submitted completed := by
  obtain ⟨notAbove, below⟩ := known
  have exactly : submitted < 2 ^ 64 →
      (pendingValue submitted completed).toNat = submitted - completed := by
    intro small
    rw [pendingValue, UInt64.toNat_sub]
    simp only [UInt64.toNat_ofNat']
    omega
  refine ⟨notAbove, ?_, exactly⟩
  by_cases small : submitted < 2 ^ 64
  · rw [exactly small]
    omega
  · have bounded := UInt64.toNat_lt (pendingValue submitted completed)
    omega

/-- If no completion overtakes a `submitted_` that a call has loaded first,
`pending` returns a number of tasks: the subtraction never wraps. -/
theorem pending_inRange {polled : Polled config} {submitted completed : Nat}
    (reached : (polledNode config).ReachableUnder NoneOvertakes polled)
    (returned : polled.call = .returned submitted completed) :
    InRange polled.state.shared submitted completed := by
  have known := known_of_polled reached
  rw [returned] at known
  exact inRange_of_known known

def polledStart : Polled soloConfig where
  state := soloStart

theorem polledStart_initial : (polledNode soloConfig).initial polledStart :=
  ⟨soloStart_initial, rfl⟩

/-- Let the node act while `pending` is called. -/
def polling (actions : List Action) : List PolledAction :=
  actions.map .node

/-- A task is submitted and run up to `finish_one`. -/
def soloAlmostDone : List PolledAction :=
  polling ([Action.move 1 (.call (.submit 5))] ++ advances 1 4 ++
    advances 0 5 ++ [Action.move 0 .bodyEnds] ++ advances 0 2)

/-- The task is finished between the two loads. -/
def soloFinishBetween : List PolledAction :=
  soloAlmostDone ++ [PolledAction.load false] ++ polling (advances 0 1) ++
    [PolledAction.load false]

theorem pending_inRange_finish :
    ∃ polled,
      (polledNode soloConfig).run polledStart soloFinishBetween =
        some polled ∧
      polled.call = .returned 1 1 ∧
      InRange polled.state.shared 1 1 := by
  refine ⟨_, rfl, by decide +kernel, pending_inRange
    (Machine.ReachableUnder.run soloFinishBetween
      (.start polledStart_initial) rfl (by decide +kernel))
    (by decide +kernel)⟩

/-- The task is submitted as well between the two loads. -/
def soloPendingOvertaken : List PolledAction :=
  [PolledAction.load false] ++ soloAlmostDone ++ polling (advances 0 1) ++
    [PolledAction.load false]

theorem pending_wraps :
    ∃ polled,
      (polledNode soloConfig).run polledStart soloPendingOvertaken = some polled ∧
      (polledNode soloConfig).Reachable polled ∧
      polled.call = .returned 0 1 ∧
      polled.state.shared.submitted = 1 ∧
      (pendingValue 0 1).toNat = 2 ^ 64 - 1 ∧
      ¬ InRange polled.state.shared 0 1 := by
  refine ⟨_, rfl, Machine.reachable_of_run soloPendingOvertaken polledStart_initial
    rfl, by decide +kernel, by decide +kernel, by decide +kernel, ?_⟩
  intro inRange
  exact absurd inRange.1 (by decide)

end HydraRT.Cluster
