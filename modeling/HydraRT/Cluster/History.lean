import HydraRT.Cluster.Shapes

/-!
# Tasks and the history of their node

The history of a node has an entry for every task that was counted in
`submitted_`.  A task that is on its way is the one its entry names, an id
names one task only, and what the reaper runs again was counted and reaped
before.
-/

namespace HydraRT.Cluster

open HydraRT.Inference
open HydraRT.Lib

variable {config : NodeConfig}

/-- A task here has been counted. -/
def Place.isEnrolled : Place → Bool
  | .counted .. | .queued _ | .executing | .serving | .copied |
      .outstanding | .reaped | .resubmitting => true
  | _ => false

/-- The history names the portable task that has this id. -/
def Names (history : List Entry) (taskId : Nat) (type : TaskType)
    (payload : Payload) : Prop :=
  ∃ task, .counted task ∈ history ∧ task.taskId = taskId ∧ task.fn = none ∧
    task.type = type ∧ task.payload = payload

theorem Names.mono {history longer : List Entry} {taskId : Nat}
    {type : TaskType} {payload : Payload}
    (names : Names history taskId type payload)
    (grows : ∀ entry ∈ history, entry ∈ longer) :
    Names longer taskId type payload := by
  obtain ⟨task, counted, rest⟩ := names
  exact ⟨task, grows _ counted, rest⟩

structure Enrolled (books : Books) (tokens : List Token) : Prop where
  counted : ∀ token ∈ tokens, token.place.isEnrolled = true →
    .counted token.task ∈ books.history
  once : ∀ first second, .counted first ∈ books.history →
    .counted second ∈ books.history → first.taskId = second.taskId →
      first = second
  known : ∀ task, .counted task ∈ books.history →
    task.taskId < books.nextId
  /-- A task that only has its id has not been counted. -/
  fresh : ∀ site portable task, ⟨.numbered site portable, task⟩ ∈ tokens →
    ∀ other, .counted other ∈ books.history → other.taskId ≠ task.taskId
  reaped : ∀ task, ⟨.reaped, task⟩ ∈ tokens →
    .reaped task.taskId ∈ books.history
  rerun : ∀ token ∈ tokens, token.place ≠ .arrived →
    ∀ type payload lost, token.task.fn = some (.rerun type payload lost) →
      Names books.history lost type payload ∧
        .reaped lost ∈ books.history

/-- The history only grows. -/
theorem Event.mem_history_enter (config : NodeConfig) (event : Event)
    (books : Books) {entry : Entry} (member : entry ∈ books.history) :
    entry ∈ (event.enter config books).history := by
  cases event with
  | count => exact List.mem_append_left _ member
  | ran => exact List.mem_append_left _ member
  | reap => exact List.mem_append_left _ member
  | advance => exact List.mem_append_left _ member
  | markDone => exact List.mem_append_left _ member
  | misread => exact List.mem_append_left _ member
  | _ => exact member

/-- Only `count` enters a task. -/
theorem Event.counted_of_enter {event : Event} {books : Books} {task : Task}
    (member : .counted task ∈ (event.enter config books).history) :
    .counted task ∈ books.history ∨
      ∃ site portable, event = .count site portable task := by
  have performed : ∀ done, .counted task ∉ performs config done := by
    intro done
    unfold performs
    split
    · simp
    · split <;> simp
  cases event with
  | count site portable other =>
      rcases List.mem_append.mp member with old | new
      · exact .inl old
      · obtain rfl : task = other := by simpa using new
        exact .inr ⟨site, portable, rfl⟩
  | ran other =>
      rcases List.mem_append.mp member with old | new
      · exact .inl old
      · rcases List.mem_cons.mp new with same | isRun
        · cases same
        · exact absurd isRun (performed other)
  | reap lost =>
      rcases List.mem_append.mp member with old | new
      · exact .inl old
      · simp at new
  | advance =>
      rcases List.mem_append.mp member with old | new
      · exact .inl old
      · simp at new
  | markDone =>
      rcases List.mem_append.mp member with old | new
      · exact .inl old
      · simp at new
  | misread =>
      rcases List.mem_append.mp member with old | new
      · exact .inl old
      · simp at new
  | _ => exact .inl member

theorem Event.nextId_le_enter (event : Event) (books : Books) :
    books.nextId ≤ (event.enter config books).nextId := by
  cases event with
  | number => exact Nat.le_succ _
  | _ => exact Nat.le_refl _

section Kept

variable {state following : State config} {action : Action} {event : Event}

/-- An event that moves a counted task leaves it as it is. -/
theorem Event.enrolled_added {books : Books} {token : Token}
    (isAdded : token ∈ event.added config books)
    (enrolled : token.place.isEnrolled = true) :
    (∃ old ∈ event.removed config, old.place.isEnrolled = true ∧
        old.task = token.task) ∨
      ∃ site portable, event = .count site portable token.task := by
  cases Event.yields_of_added isAdded with
  | moved isRemoved leads =>
      refine .inl ⟨_, isRemoved, ?_, rfl⟩
      cases leads with
      | run | resolve | observe => cases enrolled
      | _ => rfl
  | count site portable task =>
      exact .inr ⟨site, portable, rfl⟩
  | serve task | copy task =>
      exact .inl ⟨_, List.mem_singleton_self _, rfl, rfl⟩
  | _ => cases enrolled

/-- A closure of the reaper comes from the reaper. -/
theorem Happens.rerun_added
    (happens : Happens action event state following) {token : Token}
    (isAdded : token ∈ event.added config state.shared.books)
    (inside : token.place ≠ .arrived) {type : TaskType} {payload : Payload}
    {lost : Nat} (closure : token.task.fn = some (.rerun type payload lost)) :
    (∃ old ∈ event.removed config, old.place ≠ .arrived ∧
        old.task.fn = some (.rerun type payload lost)) ∨
      ∃ original, event = .resubmit original ∧
        token.task = original.rerun := by
  cases Event.yields_of_added isAdded with
  | moved isRemoved leads =>
      exact .inl ⟨_, isRemoved, leads.inside, closure⟩
  | start portable task =>
      obtain ⟨body, isUser⟩ := happens.allowed.user closure
      cases isUser
  | number site portable task | count site portable task
  | serve task | copy task | advance cause task p next =>
      exact .inl ⟨_, List.mem_singleton_self _, Place.noConfusion, closure⟩
  | rerun original =>
      exact .inr ⟨original, rfl, rfl⟩
  | arrive tasks task inTasks =>
      exact absurd rfl inside
  | _ => cases closure

/-- A new id is the next one. -/
theorem Event.numbered_added {books : Books} {site : Site} {portable : Bool}
    {task : Task}
    (isAdded : ⟨.numbered site portable, task⟩ ∈ event.added config books) :
    (∃ old, event = .number site portable old) ∧
      task.taskId = books.nextId := by
  cases Event.yields_of_added isAdded with
  | moved _ leads => cases leads
  | number site portable task => exact ⟨⟨task, rfl⟩, rfl⟩

theorem Event.reaped_added {books : Books} {task : Task}
    (isAdded : ⟨.reaped, task⟩ ∈ event.added config books) :
    .reaped task.taskId ∈ (event.enter config books).history := by
  cases event with
  | reap lost =>
      obtain ⟨other, inLost, same⟩ := List.mem_map.mp isAdded
      cases same
      exact List.mem_append_right _ (List.mem_map_of_mem inLost)
  | _ =>
      simp [Event.added, recordingToken, owedToken, preparingToken]
        at isAdded

theorem Enrolled.kept
    (balanced : Balanced state.shared.books state.tokens)
    (shaped : ∀ token ∈ state.tokens, token.Shaped config)
    (enrolled : Enrolled state.shared.books state.tokens)
    (happens : Happens action event state following) :
    Enrolled (event.enter config state.shared.books) following.tokens := by
  have grows : ∀ entry ∈ state.shared.history,
      entry ∈ (event.enter config state.shared.books).history :=
    fun entry member => Event.mem_history_enter config event _ member
  refine ⟨?_, ?_, ?_, ?_, ?_, ?_⟩
  · intro token member isEnrolled
    rcases happens.moves.mem member with old | isAdded
    · exact grows _ (enrolled.counted token old isEnrolled)
    · rcases Event.enrolled_added isAdded isEnrolled with
        ⟨old, isRemoved, wasEnrolled, same⟩ | ⟨site, portable, rfl⟩
      · rw [← same]
        exact grows _ (enrolled.counted old (happens.held isRemoved)
          wasEnrolled)
      · exact List.mem_append_right _ (List.mem_singleton_self _)
  · -- a task that is counted now was only numbered before
    intro first second isFirst isSecond sameId
    rcases Event.counted_of_enter isFirst with old | ⟨site, portable, rfl⟩
    · rcases Event.counted_of_enter isSecond with
        alsoOld | ⟨site, portable, rfl⟩
      · exact enrolled.once first second old alsoOld sameId
      · have held := happens.held (List.mem_singleton_self _)
        exact absurd sameId (enrolled.fresh site portable second held first
          old)
    · rcases Event.counted_of_enter isSecond with old | ⟨_, _, same⟩
      · have held := happens.held (List.mem_singleton_self _)
        exact absurd sameId.symm (enrolled.fresh site portable first held
          second old)
      · cases same
        rfl
  · intro task member
    rcases Event.counted_of_enter member with old | ⟨site, portable, rfl⟩
    · exact Nat.lt_of_lt_of_le (enrolled.known task old)
        (Event.nextId_le_enter event _)
    · have held := happens.held (List.mem_singleton_self _)
      have bears : 1 ≤ total (bearing task.taskId) state.tokens := by
        refine Nat.le_trans ?_ (le_total_of_mem held)
        simp [bearing_mk, Place.bearsId]
      have noneYet := balanced.known task.taskId
      change task.taskId < state.shared.books.nextId
      omega
  · intro site portable task member other isOther
    rcases happens.moves.mem member with old | isAdded
    · rcases Event.counted_of_enter isOther with known | ⟨_, _, rfl⟩
      · exact enrolled.fresh site portable task old other known
      · have gained := happens.gained (List.mem_singleton_self _)
        exact (balanced.kept happens).not_both gained member
          Place.noConfusion rfl rfl
    · obtain ⟨⟨old, rfl⟩, isNext⟩ := Event.numbered_added isAdded
      have known := enrolled.known other isOther
      rw [isNext]
      exact Nat.ne_of_lt known
  · intro task member
    rcases happens.moves.mem member with old | isAdded
    · exact grows _ (enrolled.reaped task old)
    · exact Event.reaped_added isAdded
  · intro token member inside type payload lost closure
    rcases happens.moves.mem member with old | isAdded
    · obtain ⟨names, reaped⟩ :=
        enrolled.rerun token old inside type payload lost closure
      exact ⟨names.mono grows, grows _ reaped⟩
    · rcases happens.rerun_added isAdded inside closure with
        ⟨old, isRemoved, oldInside, oldClosure⟩ | ⟨original, rfl, same⟩
      · obtain ⟨names, reaped⟩ := enrolled.rerun old
          (happens.held isRemoved) oldInside type payload lost oldClosure
        exact ⟨names.mono grows, grows _ reaped⟩
      · rw [same] at closure
        cases closure
        have held := happens.held (List.mem_singleton_self _)
        have counted := enrolled.counted _ held rfl
        exact ⟨⟨original, counted, rfl, ((shaped _ held).portable rfl).1, rfl,
          rfl⟩, enrolled.reaped original held⟩

end Kept

theorem enrolled_of_reachable {state : State config}
    (reached : (node config).Reachable state) :
    Enrolled state.shared.books state.tokens := by
  induction reached with
  | start isInitial =>
      rw [State.Initial.tokens isInitial, State.Initial.shared isInitial]
      constructor <;> intros <;> contradiction
  | next earlier _ stepped inductionHypothesis =>
      obtain ⟨event, happens⟩ := step_happens stepped
      rw [happens.books]
      exact inductionHypothesis.kept (balanced_of_reachable earlier)
        (shaped_of_reachable earlier) happens

/-! ## Tasks on their way -/

namespace Place

/-- A task here is on its way and has not been given up. -/
def isPending : Place → Bool
  | .counted .. | .queued _ | .executing | .serving | .outstanding |
      .reaped => true
  | _ => false

/-- The body of a task here has not run. -/
def isUnrun : Place → Bool
  | .created .. | .numbered .. | .counted .. | .queued _ | .executing => true
  | _ => false

end Place

section Removed

variable {event : Event}

/-- How a pending task leaves its place. -/
theorem Event.pending_removed {books : Books} {place : Place} {task : Task}
    (isRemoved : ⟨place, task⟩ ∈ event.removed config)
    (pending : place.isPending = true) :
    (∃ target, ⟨target, task⟩ ∈ event.added config books ∧
        target.isPending = true) ∨
      event = .ran task ∨ event = .resolve task ∨ event = .resubmit task ∨
        event = .trackTwice task := by
  cases event with
  | reap lost =>
      obtain ⟨other, inLost, same⟩ := List.mem_map.mp isRemoved
      cases same
      exact .inl ⟨.reaped, List.mem_map_of_mem inLost, rfl⟩
  | send reply =>
      obtain ⟨other, _, same⟩ := List.mem_map.mp isRemoved
      cases same
      cases pending
  | _ =>
      simp only [Event.removed, List.mem_cons, List.not_mem_nil, or_false,
        Token.mk.injEq, recordingToken, owedToken, preparingToken]
        at isRemoved <;>
        rcases isRemoved with ⟨rfl, rfl⟩ | ⟨rfl, rfl⟩ <;>
        simp_all [Event.added, Place.isPending]

/-- How a task whose body has not run leaves its place. -/
theorem Event.unrun_removed {books : Books} {token : Token}
    (isRemoved : token ∈ event.removed config)
    (unrun : token.place.isUnrun = true) :
    (∃ new ∈ event.added config books, new.place.isUnrun = true ∧
        new.task.fn = token.task.fn) ∨
      event = .ran token.task ∨ event = .take token.task := by
  cases event with
  | reap lost =>
      obtain ⟨other, _, rfl⟩ := List.mem_map.mp isRemoved
      cases unrun
  | send reply =>
      obtain ⟨other, _, rfl⟩ := List.mem_map.mp isRemoved
      cases unrun
  | _ =>
      simp only [Event.removed, List.mem_cons, List.not_mem_nil, or_false]
        at isRemoved <;>
        rcases isRemoved with rfl | rfl <;>
        simp_all [Event.added, Place.isUnrun, recordingToken, owedToken,
          preparingToken]

end Removed

end HydraRT.Cluster
