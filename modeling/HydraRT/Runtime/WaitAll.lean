import HydraRT.Lib.Transition

/-!
# Waiting for the ledger to balance

`Runtime::wait_all` blocks on `cv_` until `completed_` has caught up with
`submitted_`, and `Runtime::finish_one` wakes it.  The waiter evaluates its
predicate while it holds `cv_mutex_`, but `finish_one` changes the counter and
notifies without that mutex.  This module interleaves any number of waiters,
submissions and finishers, one atomic access a step.

A finisher starts only while some counted task is unfinished: every caller of
`finish_one` settles a task that `submitted_` already counts.
-/

namespace HydraRT.WaitAll

open HydraRT.Lib

/-- Where a caller of `Runtime::wait_all` stands. -/
inductive Waiter where
  /-- Not holding `cv_mutex_`: on entry, or woken and about to lock again. -/
  | entering
  /-- Holds `cv_mutex_`; the predicate has not been evaluated yet. -/
  | holding
  /-- Read a positive `submitted_`. -/
  | sawPositive
  /-- Read `completed_` and still has to read `submitted_` again. -/
  | sawCompleted (completed : Nat)
  /-- Read `submitted_` again and still has to read `completed_`. -/
  | sawSubmitted (submitted : Nat)
  /-- The predicate came out false and the mutex is still held. -/
  | refused
  /-- Inside `cv_.wait`, with the mutex released. -/
  | blocked
  | returned
  deriving DecidableEq, Repr

/-- A `finish_one` call between its `fetch_add` and its return. -/
inductive Finisher where
  /-- Holds the value of `done` and has not read `submitted_`. -/
  | counted (done : Nat)
  /-- Read `submitted_`, found `done >= submitted_`, and is about to notify. -/
  | notifying
  deriving DecidableEq, Repr

structure State where
  submitted : Nat
  completed : Nat
  waiters : List Waiter
  finishers : List Finisher
  deriving DecidableEq, Repr

inductive Action where
  /-- `submitted_.fetch_add(1)` in one of the submit functions. -/
  | submit
  /-- `completed_.fetch_add(1)` at the start of a `finish_one`. -/
  | fetchAdd
  | load (finisher : Nat)
  | notify (finisher : Nat)
  /-- The next access of a waiter.  The operands of `>=` are unsequenced, so
  `completedFirst` chooses which of them is read first. -/
  | wait (waiter : Nat) (completedFirst : Bool)
  deriving DecidableEq, Repr

namespace Waiter

/-- The waiter owns `cv_mutex_`. -/
def holdsMutex : Waiter → Bool
  | entering | blocked | returned => false
  | _ => true

/-- `notify_all` reaches the threads that are blocked at that moment. -/
def wake : Waiter → Waiter
  | blocked => entering
  | waiter => waiter

/-- What the waiter has read makes its predicate false, whatever the counters
hold by now. -/
def stale (submitted : Nat) : Waiter → Bool
  | refused => true
  | sawCompleted completed => completed < submitted
  | _ => false

end Waiter

/-- The `finish_one` call will reach its `notify_all` unless a submission
comes in between. -/
def Finisher.willNotify (submitted : Nat) : Finisher → Bool
  | .counted done => submitted ≤ done
  | .notifying => true

namespace State

/-- The condition `wait_all` waits for. -/
def balanced (state : State) : Prop :=
  0 < state.submitted ∧ state.submitted ≤ state.completed

instance (state : State) : Decidable state.balanced :=
  inferInstanceAs (Decidable (_ ∧ _))

def mutexFree (state : State) : Bool :=
  state.waiters.all fun waiter => !waiter.holdsMutex

/-- One access of a waiter inside `cv_.wait(lock, predicate)`. -/
def advance (state : State) (completedFirst : Bool) :
    Waiter → Option Waiter
  | .entering => if state.mutexFree then some .holding else none
  | .holding =>
      some (if 0 < state.submitted then .sawPositive else .refused)
  | .sawPositive =>
      some (if completedFirst then .sawCompleted state.completed
        else .sawSubmitted state.submitted)
  | .sawCompleted completed =>
      some (if state.submitted ≤ completed then .returned else .refused)
  | .sawSubmitted submitted =>
      some (if submitted ≤ state.completed then .returned else .refused)
  -- releasing the mutex and joining the waiters is one step of `cv_`
  | .refused => some .blocked
  | .blocked => none
  | .returned => none

def step (state : State) : Action → Option State
  | .submit => some { state with submitted := state.submitted + 1 }
  | .fetchAdd =>
      if state.completed < state.submitted then
        some { state with
          completed := state.completed + 1
          finishers := state.finishers ++ [.counted (state.completed + 1)] }
      else none
  | .load finisher =>
      match state.finishers[finisher]? with
      | some (.counted done) =>
          some { state with
            finishers :=
              if state.submitted ≤ done then
                state.finishers.set finisher .notifying
              else state.finishers.eraseIdx finisher }
      | _ => none
  | .notify finisher =>
      match state.finishers[finisher]? with
      | some .notifying =>
          some { state with
            waiters := state.waiters.map Waiter.wake
            finishers := state.finishers.eraseIdx finisher }
      | _ => none
  | .wait waiter completedFirst =>
      match state.waiters[waiter]? with
      | some current =>
          (state.advance completedFirst current).map fun following =>
            { state with waiters := state.waiters.set waiter following }
      | none => none

/-- A waiter sleeps although the ledger is balanced, and no `finish_one` call
is left that could wake it. -/
def lostWakeup (state : State) : Prop :=
  Waiter.blocked ∈ state.waiters ∧ state.finishers = [] ∧ state.balanced

instance (state : State) : Decidable state.lostWakeup :=
  inferInstanceAs (Decidable (_ ∧ _ ∧ _))

end State

/-- Any number of threads about to call `wait_all` on a fresh Runtime. -/
def machine : Machine State Action where
  initial state :=
    ∃ threads, state = ⟨0, 0, List.replicate threads .entering, []⟩
  step := State.step

/-- A notification is early when the ledger is balanced, no other `finish_one`
call will notify, and a waiter whose predicate is bound to come out false, by
what it has read so far, is not blocked yet. -/
def early (state : State) : Action → Prop
  | .notify finisher =>
      state.balanced ∧
        (∃ waiter ∈ state.waiters, waiter.stale state.submitted = true) ∧
          ∀ other ∈ state.finishers.eraseIdx finisher,
            other.willNotify state.submitted = false
  | _ => False

instance (state : State) (action : Action) :
    Decidable (early state action) :=
  match action with
  | .notify _ => inferInstanceAs (Decidable (_ ∧ _ ∧ _))
  | .submit | .fetchAdd | .load _ | .wait _ _ =>
      inferInstanceAs (Decidable False)

/-! ## The invariant -/

/-- Whoever is asleep, or bound to fall asleep, while the ledger is balanced
will still be notified. -/
structure Attended (state : State) : Prop where
  completed_le : state.completed ≤ state.submitted
  saw_le : ∀ seen,
    Waiter.sawSubmitted seen ∈ state.waiters → seen ≤ state.submitted
  attended : state.balanced →
    ∀ waiter ∈ state.waiters,
      waiter = .blocked ∨ waiter.stale state.submitted = true →
        ∃ finisher ∈ state.finishers,
          finisher.willNotify state.submitted = true

theorem attended_initial
    (state : State) (isInitial : machine.initial state) :
    Attended state := by
  obtain ⟨threads, rfl⟩ := isInitial
  refine ⟨Nat.le_refl 0, ?_, ?_⟩
  · intro seen member
    simp at member
  · rintro ⟨positive, _⟩
    exact absurd positive (Nat.lt_irrefl 0)

theorem attended_submit
    {state : State} (attended : Attended state) :
    Attended { state with submitted := state.submitted + 1 } := by
  have bound := attended.completed_le
  refine ⟨Nat.le_succ_of_le bound, ?_, ?_⟩
  · intro seen member
    exact Nat.le_succ_of_le (attended.saw_le seen member)
  · rintro ⟨_, caughtUp⟩
    exact absurd caughtUp (Nat.not_le_of_lt (Nat.lt_succ_of_le bound))

theorem attended_fetchAdd
    {state : State} (attended : Attended state)
    (unfinished : state.completed < state.submitted) :
    Attended { state with
      completed := state.completed + 1
      finishers := state.finishers ++ [.counted (state.completed + 1)] } := by
  refine ⟨unfinished, attended.saw_le, ?_⟩
  rintro ⟨_, caughtUp⟩ _ _ _
  -- the task that balances the ledger is the one whose call will notify
  refine ⟨.counted (state.completed + 1), ?_, ?_⟩
  · simp
  · simpa [Finisher.willNotify] using caughtUp

/-- Reading `submitted_` never loses a call that is going to notify. -/
theorem willNotify_after_load
    {state : State} {finisher done : Nat}
    (present : state.finishers[finisher]? = some (.counted done))
    {witness : Finisher} (member : witness ∈ state.finishers)
    (notifies : witness.willNotify state.submitted = true) :
    ∃ other ∈ (if state.submitted ≤ done then
        state.finishers.set finisher .notifying
      else state.finishers.eraseIdx finisher),
      other.willNotify state.submitted = true := by
  obtain ⟨position, found⟩ := List.mem_iff_getElem?.mp member
  have inRange : finisher < state.finishers.length := by
    obtain ⟨bound, _⟩ := List.getElem?_eq_some_iff.mp present
    exact bound
  by_cases reached : state.submitted ≤ done
  · rw [if_pos reached]
    exact ⟨.notifying, List.mem_set inRange _, rfl⟩
  · rw [if_neg reached]
    refine ⟨witness, List.mem_eraseIdx_iff_getElem?.mpr
      ⟨position, ?_, found⟩, notifies⟩
    rintro rfl
    rw [present] at found
    cases found
    simp [Finisher.willNotify, reached] at notifies

theorem attended_load
    {state : State} (attended : Attended state)
    {finisher done : Nat}
    (present : state.finishers[finisher]? = some (.counted done)) :
    Attended { state with
      finishers :=
        if state.submitted ≤ done then
          state.finishers.set finisher .notifying
        else state.finishers.eraseIdx finisher } := by
  refine ⟨attended.completed_le, attended.saw_le, ?_⟩
  intro isBalanced waiter member asleep
  obtain ⟨witness, witnessMember, notifies⟩ :=
    attended.attended isBalanced waiter member asleep
  exact willNotify_after_load present witnessMember notifies

theorem wake_eq_of_stale
    {waiter : Waiter} {submitted : Nat}
    (asleep : waiter.wake = .blocked ∨
      waiter.wake.stale submitted = true) :
    waiter.stale submitted = true := by
  cases waiter <;> simp_all [Waiter.wake, Waiter.stale]

theorem attended_notify
    {state : State} (attended : Attended state) {finisher : Nat}
    (timely : ¬ early state (.notify finisher)) :
    Attended { state with
      waiters := state.waiters.map Waiter.wake
      finishers := state.finishers.eraseIdx finisher } := by
  refine ⟨attended.completed_le, ?_, ?_⟩
  · intro seen member
    obtain ⟨waiter, waiterMember, woken⟩ := List.mem_map.mp member
    cases waiter <;> simp only [Waiter.wake] at woken <;> cases woken
    exact attended.saw_le seen waiterMember
  · intro isBalanced waiter member asleep
    obtain ⟨before, beforeMember, rfl⟩ := List.mem_map.mp member
    have beforeStale := wake_eq_of_stale asleep
    by_contra nobody
    push Not at nobody
    refine timely ⟨isBalanced, ⟨before, beforeMember, beforeStale⟩, ?_⟩
    intro other otherMember
    simpa using nobody other otherMember

/-- A waiter reads a false predicate only while the ledger is not balanced. -/
theorem advance_attended
    {state : State} (attended : Attended state)
    {completedFirst : Bool} {current following : Waiter}
    (member : current ∈ state.waiters)
    (advanced : state.advance completedFirst current = some following)
    (isBalanced : state.balanced)
    (asleep : following = .blocked ∨
      following.stale state.submitted = true) :
    current.stale state.submitted = true := by
  obtain ⟨positive, caughtUp⟩ := isBalanced
  cases current with
  | entering =>
      simp only [State.advance, Option.ite_none_right_eq_some] at advanced
      obtain ⟨_, equality⟩ := advanced
      cases equality
      simp [Waiter.stale] at asleep
  | holding =>
      simp only [State.advance, positive, if_true] at advanced
      cases advanced
      simp [Waiter.stale] at asleep
  | sawPositive =>
      cases completedFirst with
      | true =>
          cases advanced
          have lagging : state.completed < state.submitted := by
            simpa [Waiter.stale] using asleep
          omega
      | false =>
          cases advanced
          simp [Waiter.stale] at asleep
  | sawCompleted completed =>
      by_cases reached : state.submitted ≤ completed
      · simp only [State.advance, reached, if_true] at advanced
        cases advanced
        simp [Waiter.stale] at asleep
      · simpa [Waiter.stale] using reached
  | sawSubmitted seen =>
      have seenBound := attended.saw_le seen member
      have reached : seen ≤ state.completed := by omega
      simp only [State.advance, reached, if_true] at advanced
      cases advanced
      simp [Waiter.stale] at asleep
  | refused =>
      rfl
  | blocked =>
      simp [State.advance] at advanced
  | returned =>
      simp [State.advance] at advanced

theorem advance_sawSubmitted
    {state : State} {completedFirst : Bool} {current : Waiter} {seen : Nat}
    (advanced :
      state.advance completedFirst current = some (.sawSubmitted seen)) :
    seen = state.submitted := by
  cases current with
  | sawPositive =>
      cases completedFirst <;> simp [State.advance] at advanced
      exact advanced.symm
  | entering | holding | sawCompleted | sawSubmitted =>
      simp only [State.advance] at advanced
      split at advanced <;> cases advanced
  | refused | blocked | returned =>
      simp [State.advance] at advanced

theorem attended_wait
    {state : State} (attended : Attended state)
    {waiter : Nat} {completedFirst : Bool} {current following : Waiter}
    (present : state.waiters[waiter]? = some current)
    (advanced : state.advance completedFirst current = some following) :
    Attended { state with
      waiters := state.waiters.set waiter following } := by
  refine ⟨attended.completed_le, ?_, ?_⟩
  · intro seen member
    rcases List.mem_or_eq_of_mem_set member with old | new
    · exact attended.saw_le seen old
    · subst new
      have equality : seen = state.submitted :=
        advance_sawSubmitted advanced
      exact Nat.le_of_eq equality
  · intro isBalanced tested member asleep
    rcases List.mem_or_eq_of_mem_set member with old | new
    · exact attended.attended isBalanced tested old asleep
    · subst new
      have currentMember := List.mem_of_getElem? present
      exact attended.attended isBalanced current currentMember
        (Or.inr (advance_attended attended currentMember advanced
          isBalanced asleep))

theorem attended_step
    (state : State) (action : Action) (following : State)
    (attended : Attended state)
    (timely : ¬ early state action)
    (stepped : machine.step state action = some following) :
    Attended following := by
  cases action with
  | submit =>
      cases stepped
      exact attended_submit attended
  | fetchAdd =>
      simp only [machine, State.step,
        Option.ite_none_right_eq_some] at stepped
      obtain ⟨unfinished, equality⟩ := stepped
      cases equality
      exact attended_fetchAdd attended unfinished
  | load finisher =>
      simp only [machine, State.step] at stepped
      split at stepped
      · next done present =>
          cases stepped
          exact attended_load attended present
      · cases stepped
  | notify finisher =>
      simp only [machine, State.step] at stepped
      split at stepped
      · cases stepped
        exact attended_notify attended timely
      · cases stepped
  | wait waiter completedFirst =>
      simp only [machine, State.step] at stepped
      split at stepped
      · next current present =>
          obtain ⟨reached, advanced, equality⟩ :=
            Option.map_eq_some_iff.mp stepped
          cases equality
          exact attended_wait attended present advanced
      · cases stepped

/-! ## Wakeups -/

/-- As long as no notification comes early, nobody sleeps through the
notification that announces a balanced ledger. -/
theorem no_lost_wakeup
    (state : State)
    (reached :
      machine.ReachableUnder
        (fun source action => ¬ early source action) state) :
    ¬ state.lostWakeup := by
  rintro ⟨asleep, noFinisher, isBalanced⟩
  have attended : Attended state :=
    reached.invariant attended_initial attended_step
  obtain ⟨finisher, member, _⟩ :=
    attended.attended isBalanced .blocked asleep (Or.inl rfl)
  rw [noFinisher] at member
  exact absurd member List.not_mem_nil

/-- One task and one waiter: the waiter reads `completed_ = 0`, the task
finishes and notifies nobody, and only then does the waiter block. -/
def lostWakeupRun : List Action :=
  [.submit, .wait 0 true, .wait 0 true, .wait 0 true, .wait 0 true,
    .fetchAdd, .load 0, .notify 0, .wait 0 true]

theorem lost_wakeup_reachable :
    ∃ state, machine.Reachable state ∧ state.lostWakeup :=
  ⟨⟨1, 1, [.blocked], []⟩,
    Machine.reachable_of_run lostWakeupRun ⟨1, rfl⟩ (by decide),
    by decide⟩

/-- The same task and waiter when the waiter blocks before the task finishes:
the notification is still to come. -/
theorem no_lost_wakeup_blocked_first :
    ∃ state,
      machine.ReachableUnder
        (fun source action => ¬ early source action) state ∧
      Waiter.blocked ∈ state.waiters ∧ state.balanced ∧
      ¬ state.lostWakeup := by
  have reached :
      machine.ReachableUnder (fun source action => ¬ early source action)
        ⟨1, 1, [.blocked], [.counted 1]⟩ :=
    Machine.ReachableUnder.run
      [.submit, .wait 0 true, .wait 0 true, .wait 0 true, .wait 0 true,
        .wait 0 true, .fetchAdd]
      (.start ⟨1, rfl⟩) (by decide) (by decide)
  exact ⟨_, reached, by decide, by decide, no_lost_wakeup _ reached⟩

end HydraRT.WaitAll
