import HydraRT.Cluster.Ledger

/-!
# The predicate of wait_all

`submitted_ > 0 && completed_ >= submitted_` makes three loads while every
other thread goes on.  The first one comes first; the operands of `>=` are
unsequenced.  The predicate is evaluated here next to a whole node, one load a
step, and the evaluation remembers whether the ledger has been balanced since
its first load.
-/

namespace HydraRT.Cluster

open HydraRT.Lib

variable {config : NodeConfig}

/-- Where the evaluation of the predicate stands. -/
inductive Evaluation where
  | idle
  /-- Read a positive `submitted_`. -/
  | sawPositive
  /-- Read `completed_` and still has to read `submitted_` again. -/
  | sawCompleted (completed : Nat)
  /-- Read `submitted_` again and still has to read `completed_`. -/
  | sawSubmitted (submitted : Nat)
  | evaluated (value : Bool)
  deriving DecidableEq, Repr

/-- Between the first load and the last. -/
def Evaluation.isActive : Evaluation → Bool
  | .sawPositive | .sawCompleted _ | .sawSubmitted _ => true
  | _ => false

/-- Holds a `submitted_` that was read before `completed_`. -/
def Evaluation.holdsSubmitted : Evaluation → Bool
  | .sawSubmitted _ => true
  | _ => false

/-- A node and a thread that evaluates the predicate. -/
structure Watched (config : NodeConfig) where
  state : State config
  evaluation : Evaluation := .idle
  /-- At some moment since the first load `completed_` was `submitted_`. -/
  wasBalanced : Bool := false

inductive WatchedAction where
  | node (action : Action)
  /-- The next load; `completedFirst` chooses between the operands of `>=`. -/
  | load (completedFirst : Bool)
  deriving DecidableEq, Repr

def Shared.isBalanced (shared : Shared config) : Bool :=
  shared.completed == shared.submitted

/-- The next load of the evaluation. -/
def Evaluation.load (shared : Shared config) (completedFirst : Bool) :
    Evaluation → Evaluation
  | .sawPositive =>
      if completedFirst then .sawCompleted shared.completed
      else .sawSubmitted shared.submitted
  | .sawCompleted completed =>
      .evaluated (decide (completed ≥ shared.submitted))
  | .sawSubmitted submitted =>
      .evaluated (decide (shared.completed ≥ submitted))
  | .idle | .evaluated _ =>
      if shared.submitted > 0 then .sawPositive else .evaluated false

namespace Watched

def step (watched : Watched config) :
    WatchedAction → Option (Watched config)
  | .node action =>
      (watched.state.step action).map fun following =>
        { watched with
          state := following
          wasBalanced := watched.wasBalanced ||
            (watched.evaluation.isActive && following.shared.isBalanced) }
  | .load completedFirst =>
      some { watched with
        evaluation :=
          watched.evaluation.load watched.state.shared completedFirst
        wasBalanced :=
          (watched.evaluation.isActive && watched.wasBalanced) ||
            watched.state.shared.isBalanced }

end Watched

/-- The runs of a node next to the evaluations of the predicate. -/
def watchedNode (config : NodeConfig) :
    Machine (Watched config) WatchedAction where
  initial watched := watched.state.Initial ∧ watched.evaluation = .idle ∧
    watched.wasBalanced = false
  step := Watched.step

/-- The action increments `submitted_`. -/
def State.counts (state : State config) (action : Action) : Bool :=
  ((state.step action).map (·.shared.submitted)) !=
      some state.shared.submitted &&
    (state.step action).isSome

/-- While the evaluation holds a `submitted_` that it read before
`completed_`, and the ledger has not been balanced since its first load, no
submission is counted. -/
def NoneCounted (watched : Watched config) : WatchedAction → Prop
  | .node action =>
      watched.wasBalanced = false →
        watched.evaluation.holdsSubmitted = true →
          watched.state.counts action = false
  | .load _ => True

instance (watched : Watched config) (action : WatchedAction) :
    Decidable (NoneCounted watched action) := by
  unfold NoneCounted
  split <;> infer_instance

/-! ## Counters only grow -/

theorem submitted_le_of_step {state following : State config}
    {action : Action}
    (stepped : (node config).step state action = some following) :
    state.shared.submitted ≤ following.shared.submitted := by
  obtain ⟨event, happens⟩ := step_happens stepped
  have entered : following.shared.submitted =
      (event.enter config state.shared.books).submitted :=
    congrArg Books.submitted happens.books
  rw [entered]
  cases event with
  | count => exact Nat.le_succ _
  | _ => exact Nat.le_refl _

theorem watched_reachable {watched : Watched config}
    {guard : Watched config → WatchedAction → Prop}
    (reached : (watchedNode config).ReachableUnder guard watched) :
    (node config).Reachable watched.state := by
  refine reached.seen Watched.state (fun _ isInitial => isInitial.1) ?_
  intro before action after _ stepped
  cases action with
  | node action =>
      obtain ⟨following, moved, rfl⟩ := Option.map_eq_some_iff.mp stepped
      exact .inr ⟨action, trivial, moved⟩
  | load completedFirst =>
      cases stepped
      exact .inl rfl

/-! ## What the evaluation knows -/

/-- A loaded `completed_` is below `submitted_`, a loaded `submitted_` is still
its value, and the predicate is not true. -/
def Evaluation.Known (shared : Shared config) : Evaluation → Prop
  | .sawCompleted completed => completed < shared.submitted
  | .sawSubmitted submitted => submitted = shared.submitted
  | .evaluated value => value = false
  | _ => True

theorem Evaluation.Known.load {shared : Shared config}
    {evaluation : Evaluation} (completedFirst : Bool)
    (behind : shared.completed < shared.submitted)
    (known : evaluation.isActive = true → evaluation.Known shared) :
    (evaluation.load shared completedFirst).Known shared := by
  have positive : shared.submitted > 0 := Nat.zero_lt_of_lt behind
  cases evaluation with
  | idle =>
      rw [Evaluation.load, if_pos positive]
      trivial
  | evaluated value =>
      rw [Evaluation.load, if_pos positive]
      trivial
  | sawPositive =>
      cases completedFirst with
      | true => exact behind
      | false => rfl
  | sawCompleted completed =>
      have below : completed < shared.submitted := known rfl
      exact decide_eq_false (Nat.not_le_of_lt below)
  | sawSubmitted submitted =>
      have same : submitted = shared.submitted := known rfl
      rw [same]
      exact decide_eq_false (Nat.not_le_of_lt behind)

theorem Evaluation.Known.grow {shared following : Shared config}
    {evaluation : Evaluation} (known : evaluation.Known shared)
    (grows : shared.submitted ≤ following.submitted)
    (unchanged : evaluation.holdsSubmitted = true →
      following.submitted = shared.submitted) :
    evaluation.Known following := by
  cases evaluation with
  | sawCompleted completed =>
      exact Nat.lt_of_lt_of_le known grows
  | sawSubmitted submitted =>
      have same : submitted = shared.submitted := known
      rw [← unchanged rfl] at same
      exact same
  | evaluated value => exact known
  | idle => trivial
  | sawPositive => trivial

/-- The evaluation is right unless the ledger has been balanced. -/
def Watched.Sound (watched : Watched config) : Prop :=
  watched.wasBalanced = false →
    watched.evaluation.Known watched.state.shared

theorem Watched.Sound.node_step {watched : Watched config}
    {following : State config} {action : Action}
    (sound : watched.Sound)
    (allowed : NoneCounted watched (.node action))
    (moved : (node config).step watched.state action = some following) :
    Watched.Sound { watched with
      state := following
      wasBalanced := watched.wasBalanced ||
        (watched.evaluation.isActive && following.shared.isBalanced) } := by
  intro stillNot
  have notYet : watched.wasBalanced = false :=
    (Bool.or_eq_false_iff.mp stillNot).1
  refine (sound notYet).grow (submitted_le_of_step moved) ?_
  intro holdsSubmitted
  have uncounted := allowed notYet holdsSubmitted
  have stepped : watched.state.step action = some following := moved
  simpa [State.counts, stepped] using uncounted

theorem Watched.Sound.load_step {watched : Watched config}
    (sound : watched.Sound) (completedFirst : Bool)
    (ledger : watched.state.shared.completed ≤
      watched.state.shared.submitted) :
    Watched.Sound { watched with
      evaluation :=
        watched.evaluation.load watched.state.shared completedFirst
      wasBalanced :=
        (watched.evaluation.isActive && watched.wasBalanced) ||
          watched.state.shared.isBalanced } := by
  intro stillNot
  obtain ⟨notBefore, notNow⟩ := Bool.or_eq_false_iff.mp stillNot
  have behind : watched.state.shared.completed <
      watched.state.shared.submitted := by
    simp only [Shared.isBalanced, beq_eq_false_iff_ne] at notNow
    omega
  refine Evaluation.Known.load completedFirst behind ?_
  intro isActive
  rw [isActive, Bool.true_and] at notBefore
  exact sound notBefore

theorem sound_of_watched {watched : Watched config}
    (reached : (watchedNode config).ReachableUnder NoneCounted watched) :
    watched.Sound := by
  induction reached with
  | start isInitial =>
      intro _
      rw [isInitial.2.1]
      trivial
  | @next before after action earlier allowed stepped inductionHypothesis =>
      cases action with
      | node action =>
          obtain ⟨following, moved, rfl⟩ := Option.map_eq_some_iff.mp stepped
          exact inductionHypothesis.node_step allowed moved
      | load completedFirst =>
          cases stepped
          have ledger : before.state.shared.submitted =
              before.state.shared.completed +
                total debit before.state.tokens :=
            (balanced_of_reachable (watched_reachable earlier)).balance
          exact inductionHypothesis.load_step completedFirst (by omega)

/-- If no submission is counted between a load of `submitted_` and a later
load of `completed_`, the predicate is true only after a moment at which no
submitted task was unfinished. -/
theorem predicate_true_balanced {watched : Watched config}
    (reached : (watchedNode config).ReachableUnder NoneCounted watched)
    (holds : watched.evaluation = .evaluated true) :
    watched.wasBalanced = true := by
  cases seen : watched.wasBalanced with
  | true => rfl
  | false =>
      have known := sound_of_watched reached seen
      rw [holds] at known
      cases known

/-- Let the node of the small example act while the predicate is watched. -/
def watching (actions : List Action) : List WatchedAction :=
  actions.map .node

def watchedStart : Watched soloConfig where
  state := soloStart

theorem watchedStart_initial : (watchedNode soloConfig).initial watchedStart :=
  ⟨soloStart_initial, rfl, rfl⟩

/-- The only task is finished between the loads of `submitted_` and
`completed_`. -/
def soloFinishSeen : List WatchedAction :=
  watching ([Action.move 1 (.call (.submit 5))] ++ advances 1 4 ++
      advances 0 5 ++ [Action.move 0 .bodyEnds] ++ advances 0 2) ++
    [WatchedAction.load false, .load false] ++ watching (advances 0 1) ++
    [WatchedAction.load false]

theorem predicate_true_balanced_finish :
    ∃ watched,
      (watchedNode soloConfig).run watchedStart soloFinishSeen =
          some watched ∧
        watched.evaluation = .evaluated true ∧
        watched.wasBalanced = true := by
  refine ⟨_, rfl, by decide +kernel, predicate_true_balanced
    (Machine.ReachableUnder.run soloFinishSeen (.start watchedStart_initial)
      rfl (by decide +kernel)) (by decide +kernel)⟩

/-- The first stage of a request is done, and the evaluation reads
`submitted_`; the second stage is submitted, the first one is counted as
completed, and the evaluation reads `completed_`. -/
def soloStageBetween : List WatchedAction :=
  watching (
      [Action.move 1 (.call (.submitJob { kind := .imageClassifier }))] ++
      advances 1 6 ++ advances 0 7 ++ [Action.move 0 .bodyEnds] ++
      advances 0 2) ++
    [WatchedAction.load false, .load false] ++ watching (advances 0 5) ++
    [WatchedAction.load false]

theorem predicate_true_unbalanced :
    ∃ watched,
      (watchedNode soloConfig).run watchedStart soloStageBetween =
          some watched ∧
        (watchedNode soloConfig).Reachable watched ∧
        watched.evaluation = .evaluated true ∧
        watched.wasBalanced = false ∧
        watched.state.shared.completed = 1 ∧
        watched.state.shared.submitted = 2 := by
  refine ⟨_, rfl, Machine.reachable_of_run soloStageBetween
    watchedStart_initial rfl, ?_⟩
  decide +kernel

end HydraRT.Cluster
