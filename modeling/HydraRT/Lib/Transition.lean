import Mathlib

/-!
# Machines with computed steps

A `Machine` is a transition system whose steps are computed by a partial
function of the state and of an action.  The action names the thread that
moves and every choice the environment makes, so one state has as many
successors as there are enabled actions and a run is a list of actions.

`ReachableUnder guard` collects the states of the runs all of whose steps meet
`guard`.  The unrestricted notion `Reachable` is the case of the guard that
allows everything.
-/

namespace HydraRT.Lib

/-- A transition system over `State` driven by `Action`. -/
structure Machine (State Action : Type) where
  initial : State → Prop
  step : State → Action → Option State

namespace Machine

variable {State Action : Type}

/-- The states of those runs whose every step meets `guard` in the state it
leaves. -/
inductive ReachableUnder (machine : Machine State Action)
    (guard : State → Action → Prop) : State → Prop
  | start {state : State} :
      machine.initial state → ReachableUnder machine guard state
  | next {state following : State} {action : Action} :
      ReachableUnder machine guard state →
      guard state action →
      machine.step state action = some following →
      ReachableUnder machine guard following

/-- The states of all runs. -/
def Reachable (machine : Machine State Action) : State → Prop :=
  machine.ReachableUnder fun _ _ => True

/-- The states that steps meeting `guard` may lead to from `source`. -/
inductive ContinuesUnder (machine : Machine State Action)
    (guard : State → Action → Prop) (source : State) : State → Prop
  | stay : ContinuesUnder machine guard source source
  | next {state following : State} {action : Action} :
      ContinuesUnder machine guard source state →
      guard state action →
      machine.step state action = some following →
      ContinuesUnder machine guard source following

/-- The states a run may continue to from `source`. -/
def Continues (machine : Machine State Action) (source : State) :
    State → Prop :=
  machine.ContinuesUnder (fun _ _ => True) source

/-- Execute a list of actions, stopping at the first disabled one. -/
def run (machine : Machine State Action) :
    State → List Action → Option State
  | state, [] => some state
  | state, action :: rest =>
      (machine.step state action).bind fun following =>
        machine.run following rest

/-- Every step of the executed part of a run meets `guard`. -/
def Meets (machine : Machine State Action)
    (guard : State → Action → Prop) : State → List Action → Prop
  | _, [] => True
  | state, action :: rest =>
      guard state action ∧
        match machine.step state action with
        | some following => machine.Meets guard following rest
        | none => True

/-- A computable guard can be tested along a run. -/
def decideMeets (machine : Machine State Action)
    (guard : State → Action → Prop)
    [∀ state action, Decidable (guard state action)] :
    ∀ (state : State) (actions : List Action),
      Decidable (machine.Meets guard state actions)
  | _, [] => isTrue trivial
  | state, action :: rest =>
      match decided : machine.step state action with
      | some following =>
          have := machine.decideMeets guard following rest
          decidable_of_iff
            (guard state action ∧ machine.Meets guard following rest)
            (by simp only [Meets, decided])
      | none =>
          decidable_of_iff (guard state action)
            (by simp only [Meets, decided, and_true])

instance (machine : Machine State Action)
    (guard : State → Action → Prop)
    [∀ state action, Decidable (guard state action)]
    (state : State) (actions : List Action) :
    Decidable (machine.Meets guard state actions) :=
  machine.decideMeets guard state actions

section Rules

variable {machine : Machine State Action}
  {guard : State → Action → Prop}

/-- A run with one more action. -/
theorem run_append_singleton (source : State) (actions : List Action)
    (action : Action) :
    machine.run source (actions ++ [action]) =
      (machine.run source actions).bind (machine.step · action) := by
  induction actions generalizing source with
  | nil =>
      change (machine.step source action).bind some = _
      rw [Option.bind_fun_some]
      rfl
  | cons first rest inductionHypothesis =>
      change (machine.step source first).bind _ =
        ((machine.step source first).bind _).bind _
      rw [Option.bind_assoc]
      exact Option.bind_congr fun following _ =>
        inductionHypothesis following

/-- An invariant of the state and of the actions that led to it. -/
theorem run_invariant {Invariant : State → List Action → Prop}
    {source target : State} {actions : List Action}
    (holdsInitially : Invariant source [])
    (isKept : ∀ state earlier action following,
      Invariant state earlier →
        machine.step state action = some following →
          Invariant following (earlier ++ [action]))
    (ran : machine.run source actions = some target) :
    Invariant target actions := by
  induction actions using List.reverseRecOn generalizing target with
  | nil =>
      cases ran
      exact holdsInitially
  | append_singleton earlier action inductionHypothesis =>
      rw [run_append_singleton] at ran
      obtain ⟨state, reached, stepped⟩ := Option.bind_eq_some_iff.mp ran
      exact isKept _ _ _ _ (inductionHypothesis reached) stepped

/-- An invariant holds initially and is kept by every guarded step. -/
theorem ReachableUnder.invariant
    {Invariant : State → Prop}
    (holdsInitially : ∀ state, machine.initial state → Invariant state)
    (isKept : ∀ state action following,
      Invariant state → guard state action →
        machine.step state action = some following →
          Invariant following)
    {state : State} (reached : machine.ReachableUnder guard state) :
    Invariant state := by
  induction reached with
  | start isInitial =>
      exact holdsInitially _ isInitial
  | next _ allowed stepped inductionHypothesis =>
      exact isKept _ _ _ inductionHypothesis allowed stepped

/-- A stricter guard allows fewer runs. -/
theorem ReachableUnder.mono
    {weaker : State → Action → Prop}
    (implies : ∀ state action, guard state action → weaker state action)
    {state : State} (reached : machine.ReachableUnder guard state) :
    machine.ReachableUnder weaker state := by
  induction reached with
  | start isInitial =>
      exact .start isInitial
  | next _ allowed stepped inductionHypothesis =>
      exact .next inductionHypothesis (implies _ _ allowed) stepped

/-- What is seen of a machine is a run of another one, if every step is seen as
a step of the other or leaves what is seen as it was. -/
theorem ReachableUnder.seen {Seen SeenAction : Type}
    {other : Machine Seen SeenAction} {otherGuard : Seen → SeenAction → Prop}
    {state : State} (reached : machine.ReachableUnder guard state)
    (view : State → Seen)
    (starts : ∀ state, machine.initial state → other.initial (view state))
    (steps : ∀ state action following, guard state action →
      machine.step state action = some following →
        view following = view state ∨
          ∃ seenAction, otherGuard (view state) seenAction ∧
            other.step (view state) seenAction = some (view following)) :
    other.ReachableUnder otherGuard (view state) := by
  induction reached with
  | start isInitial =>
      exact .start (starts _ isInitial)
  | next _ allowed stepped inductionHypothesis =>
      rcases steps _ _ _ allowed stepped with unseen | ⟨_, granted, moved⟩
      · rw [unseen]
        exact inductionHypothesis
      · exact .next inductionHypothesis granted moved

theorem ReachableUnder.reachable
    {state : State} (reached : machine.ReachableUnder guard state) :
    machine.Reachable state :=
  reached.mono fun _ _ _ => trivial

/-- The invariant rule for unrestricted runs. -/
theorem Reachable.invariant
    {Invariant : State → Prop}
    (holdsInitially : ∀ state, machine.initial state → Invariant state)
    (isKept : ∀ state action following,
      Invariant state → machine.step state action = some following →
        Invariant following)
    {state : State} (reached : machine.Reachable state) :
    Invariant state :=
  ReachableUnder.invariant holdsInitially
    (fun state action following holds _ stepped =>
      isKept state action following holds stepped) reached

theorem Reachable.next
    {state following : State} {action : Action}
    (reached : machine.Reachable state)
    (stepped : machine.step state action = some following) :
    machine.Reachable following :=
  ReachableUnder.next reached trivial stepped

/-- A continuation of a guarded run is a guarded run. -/
theorem ReachableUnder.continues
    {source target : State}
    (reached : machine.ReachableUnder guard source)
    (continued : machine.ContinuesUnder guard source target) :
    machine.ReachableUnder guard target := by
  induction continued with
  | stay =>
      exact reached
  | next _ allowed stepped inductionHypothesis =>
      exact inductionHypothesis.next allowed stepped

theorem ContinuesUnder.trans
    {source middle target : State}
    (earlier : machine.ContinuesUnder guard source middle)
    (later : machine.ContinuesUnder guard middle target) :
    machine.ContinuesUnder guard source target := by
  induction later with
  | stay =>
      exact earlier
  | next _ allowed stepped inductionHypothesis =>
      exact .next inductionHypothesis allowed stepped

/-- A goal that some continuation brings nearer is reached by some
continuation. -/
theorem ContinuesUnder.of_wellFounded
    {Invariant Goal : State → Prop} {Rank : Type}
    {less : Rank → Rank → Prop} (wellFounded : WellFounded less)
    (rank : State → Rank)
    (progress : ∀ state, Invariant state → Goal state ∨
      ∃ following, machine.ContinuesUnder guard state following ∧
        Invariant following ∧ less (rank following) (rank state))
    {source : State} (holds : Invariant source) :
    ∃ target, machine.ContinuesUnder guard source target ∧ Goal target := by
  generalize height : rank source = value
  induction value using wellFounded.induction generalizing source with
  | _ value inductionHypothesis =>
      rcases progress source holds with reached | ⟨following, nearer⟩
      · exact ⟨source, .stay, reached⟩
      · obtain ⟨continued, stillHolds, smaller⟩ := nearer
        rw [height] at smaller
        obtain ⟨target, later, reached⟩ :=
          inductionHypothesis _ smaller stillHolds rfl
        exact ⟨target, continued.trans later, reached⟩

/-- A sequence of ranks that never grow descends finitely often. -/
theorem exists_last_descent {Rank : Type} {less : Rank → Rank → Prop}
    (wellFounded : WellFounded less) (rank : Nat → Rank)
    (shrinks : ∀ n, less (rank (n + 1)) (rank n) ∨ rank (n + 1) = rank n) :
    ∃ bound, ∀ n, bound ≤ n → ¬ less (rank (n + 1)) (rank n) := by
  generalize height : rank 0 = value
  induction value using wellFounded.induction generalizing rank with
  | _ value inductionHypothesis =>
      by_cases descends : ∃ n, less (rank (n + 1)) (rank n)
      · classical
        -- up to the first descent nothing changes
        have same : ∀ n ≤ Nat.find descends, rank n = value := by
          intro n early
          induction n with
          | zero => exact height
          | succ n before =>
              rcases shrinks n with down | still
              · exact absurd down (Nat.find_min descends early)
              · rw [still, before (Nat.le_of_succ_le early)]
        have down := Nat.find_spec descends
        rw [same _ le_rfl] at down
        obtain ⟨bound, later⟩ := inductionHypothesis _ down
          (fun n => rank (n + (Nat.find descends + 1)))
          (fun n => by
            rw [Nat.add_right_comm]
            exact shrinks _)
          (by rw [Nat.zero_add])
        refine ⟨bound + (Nat.find descends + 1), ?_⟩
        intro n late
        have shifted := later (n - (Nat.find descends + 1)) (by omega)
        rwa [Nat.add_right_comm, Nat.sub_add_cancel (by omega)] at shifted
      · rw [not_exists] at descends
        exact ⟨0, fun n _ => descends n⟩

/-- The rule for ranks that are numbers. -/
theorem ContinuesUnder.of_rank
    {Invariant Goal : State → Prop} (rank : State → Nat)
    (progress : ∀ state, Invariant state → Goal state ∨
      ∃ following, machine.ContinuesUnder guard state following ∧
        Invariant following ∧ rank following < rank state)
    {source : State} (holds : Invariant source) :
    ∃ target, machine.ContinuesUnder guard source target ∧ Goal target :=
  of_wellFounded Nat.lt_wfRel.wf rank progress holds

/-- A run all of whose steps meet the guard. -/
theorem ContinuesUnder.of_run
    {source target : State} (actions : List Action)
    (ran : machine.run source actions = some target)
    (meets : machine.Meets guard source actions) :
    machine.ContinuesUnder guard source target := by
  induction actions generalizing source with
  | nil =>
      cases ran
      exact .stay
  | cons action rest inductionHypothesis =>
      obtain ⟨following, stepped, remaining⟩ :=
        Option.bind_eq_some_iff.mp ran
      obtain ⟨allowed, later⟩ := meets
      rw [stepped] at later
      exact ContinuesUnder.trans (.next .stay allowed stepped)
        (inductionHypothesis remaining later)

theorem continues_of_run
    {source target : State} {actions : List Action}
    (ran : machine.run source actions = some target) :
    machine.Continues source target := by
  induction actions generalizing source with
  | nil =>
      cases ran
      exact .stay
  | cons action rest inductionHypothesis =>
      obtain ⟨following, stepped, remaining⟩ :=
        Option.bind_eq_some_iff.mp ran
      exact ContinuesUnder.trans (.next .stay trivial stepped)
        (inductionHypothesis remaining)

/-- A computed run from an initial state reaches its final state. -/
theorem reachable_of_run
    {source target : State} (actions : List Action)
    (isInitial : machine.initial source)
    (ran : machine.run source actions = some target) :
    machine.Reachable target :=
  ReachableUnder.continues (.start isInitial) (continues_of_run ran)

/-- A run all of whose steps meet the guard extends a guarded run. -/
theorem ReachableUnder.run
    {source target : State} (actions : List Action)
    (reached : machine.ReachableUnder guard source)
    (ran : machine.run source actions = some target)
    (meets : machine.Meets guard source actions) :
    machine.ReachableUnder guard target :=
  reached.continues (ContinuesUnder.of_run actions ran meets)

end Rules

/-! ## Logs -/

/-- The machine that also writes down what `note` says of every step. -/
def logged {Note : Type} (machine : Machine State Action)
    (note : State → Action → List Note) :
    Machine (State × List Note) Action where
  initial pair := machine.initial pair.1 ∧ pair.2 = []
  step pair action :=
    (machine.step pair.1 action).map fun following =>
      (following, pair.2 ++ note pair.1 action)

section Logged

variable {Note : Type} {machine : Machine State Action}
  {note : State → Action → List Note} {guard : State → Action → Prop}

/-- Writing a log does not disturb the machine. -/
theorem ReachableUnder.of_logged {pair : State × List Note}
    (reached : (machine.logged note).ReachableUnder
      (fun earlier action => guard earlier.1 action) pair) :
    machine.ReachableUnder guard pair.1 := by
  refine reached.seen Prod.fst (fun _ isInitial => isInitial.1) ?_
  intro earlier action later allowed stepped
  obtain ⟨following, moved, rfl⟩ := Option.map_eq_some_iff.mp stepped
  exact .inr ⟨action, allowed, moved⟩

/-- An invariant of the state and its log. -/
theorem ReachableUnder.logged_invariant
    {Invariant : State → List Note → Prop}
    (holdsInitially : ∀ state, machine.initial state → Invariant state [])
    (isKept : ∀ state log action following,
      machine.ReachableUnder guard state → Invariant state log →
        guard state action → machine.step state action = some following →
          Invariant following (log ++ note state action))
    {pair : State × List Note}
    (reached : (machine.logged note).ReachableUnder
      (fun earlier action => guard earlier.1 action) pair) :
    Invariant pair.1 pair.2 := by
  induction reached with
  | start isInitial =>
      rw [isInitial.2]
      exact holdsInitially _ isInitial.1
  | next earlier allowed stepped inductionHypothesis =>
      obtain ⟨following, moved, rfl⟩ := Option.map_eq_some_iff.mp stepped
      exact isKept _ _ _ _ earlier.of_logged inductionHypothesis allowed moved

theorem Reachable.logged_invariant {Invariant : State → List Note → Prop}
    (holdsInitially : ∀ state, machine.initial state → Invariant state [])
    (isKept : ∀ state log action following,
      machine.Reachable state → Invariant state log →
        machine.step state action = some following →
          Invariant following (log ++ note state action))
    {pair : State × List Note}
    (reached : (machine.logged note).Reachable pair) :
    Invariant pair.1 pair.2 :=
  @ReachableUnder.logged_invariant _ _ _ machine note (fun _ _ => True) _
    holdsInitially (fun _ _ _ _ earlier holds _ stepped =>
      isKept _ _ _ _ earlier holds stepped) _ reached

/-- What was logged before a run stays in front. -/
theorem run_logged_append {source target : State} {actions : List Action}
    {first last : List Note} (earlier : List Note)
    (ran : (machine.logged note).run (source, first) actions =
      some (target, last)) :
    (machine.logged note).run (source, earlier ++ first) actions =
      some (target, earlier ++ last) := by
  induction actions generalizing source first with
  | nil =>
      cases ran
      rfl
  | cons action rest inductionHypothesis =>
      obtain ⟨middle, stepped, remaining⟩ := Option.bind_eq_some_iff.mp ran
      obtain ⟨following, moved, rfl⟩ := Option.map_eq_some_iff.mp stepped
      refine Option.bind_eq_some_iff.mpr
        ⟨(following, earlier ++ (first ++ note source action)), ?_,
          inductionHypothesis remaining⟩
      refine Option.map_eq_some_iff.mpr ⟨following, moved, ?_⟩
      rw [List.append_assoc]

/-- Forward simulation: if every step is matched by a run of another machine
that logs the same, then all that the machine logs is logged by the other. -/
theorem Reachable.logged_simulated {Seen SeenAction : Type}
    {other : Machine Seen SeenAction} {seenNote : Seen → SeenAction → List Note}
    (Related : State → Seen → Prop)
    (starts : ∀ state, machine.initial state →
      ∃ seen, other.initial seen ∧ Related state seen)
    (steps : ∀ state seen action following, Related state seen →
      machine.step state action = some following →
        ∃ actions later, (other.logged seenNote).run (seen, []) actions =
            some (later, note state action) ∧ Related following later)
    {pair : State × List Note}
    (reached : (machine.logged note).Reachable pair) :
    ∃ seen, (other.logged seenNote).Reachable (seen, pair.2) ∧
      Related pair.1 seen := by
  induction reached with
  | start isInitial =>
      obtain ⟨seen, begins, related⟩ := starts _ isInitial.1
      exact ⟨seen, .start ⟨begins, isInitial.2⟩, related⟩
  | @next pair _ _ _ _ stepped inductionHypothesis =>
      obtain ⟨seen, matched, related⟩ := inductionHypothesis
      obtain ⟨following, moved, rfl⟩ := Option.map_eq_some_iff.mp stepped
      obtain ⟨actions, later, ran, still⟩ := steps _ _ _ _ related moved
      have continued := run_logged_append pair.2 ran
      rw [List.append_nil] at continued
      exact ⟨later, matched.continues (continues_of_run continued), still⟩

end Logged

end Machine

end HydraRT.Lib
