import HydraRT.Cluster.Cluster

/-!
# Tasks without a handler

`TaskRegistry::run` returns false for a type without a handler, and `run_task`
passes the answer on.  `Worker::execute`, `Runtime::execute_helped` and the
closures of `accept_stolen_task` and `reap_outstanding` all ignore it: the
thread goes on as if the task had run, up to `finish_one`, and a stolen closure
still queues the notice that becomes a `TaskResult` with status 0.
-/

namespace HydraRT.Cluster

open HydraRT.Lib

/-! ## Moves of one thread -/

section Moves

variable {config : NodeConfig} {state : State config} {index : Nat}
  {role : Role config}

/-- The node needs no message to act. -/
def ByItself (_ : State config) (action : Action) : Prop :=
  action.isLocal = true

/-- The state after a move of thread `index`. -/
def State.moved (state : State config) (index : Nat) (role : Role config)
    (shared : Shared config) (stack : List (Frame config)) :
    State config where
  shared
  threads := state.threads.set index { role, stack }

theorem State.moved_self {thread : Thread config} {shared : Shared config}
    {stack : List (Frame config)}
    (found : state.threads[index]? = some thread) :
    (state.moved index role shared stack).threads[index]? =
      some { role, stack } := by
  obtain ⟨inside, _⟩ := List.getElem?_eq_some_iff.mp found
  exact List.getElem?_set_self inside

theorem State.moved_other {other : Nat} {shared : Shared config}
    {stack : List (Frame config)} (different : index ≠ other) :
    (state.moved index role shared stack).threads[other]? =
      state.threads[other]? :=
  List.getElem?_set_ne different

theorem State.step_moved {stack following : List (Frame config)}
    {move : Move} {shared : Shared config}
    (found : state.threads[index]? = some { role, stack })
    (stays : move ≠ .quit)
    (free : state.blocks { role, stack } move = false)
    (stepped : Thread.step state.shared { role, stack } move =
      some (shared, following)) :
    (node config).step state (.move index move) =
      some (state.moved index role shared following) := by
  cases move with
  | quit => exact absurd rfl stays
  | _ => simp [node, State.step, State.moved, found, free, stepped]

theorem State.continues_moved {stack following : List (Frame config)}
    {shared : Shared config} (move : Move)
    (found : state.threads[index]? = some { role, stack })
    (isLocal : (Action.move index move).isLocal = true)
    (stays : move ≠ .quit)
    (free : state.blocks { role, stack } move = false)
    (stepped : Thread.step state.shared { role, stack } move =
      some (shared, following)) :
    (node config).ContinuesUnder ByItself state
      (state.moved index role shared following) :=
  .next .stay isLocal (State.step_moved found stays free stepped)

/-- The innermost call of a thread makes its next access. -/
theorem State.continues_advance {frame : Frame config}
    {below frames : List (Frame config)} {shared : Shared config}
    (found : state.threads[index]? = some { role, stack := frame :: below })
    (free : ∀ link, frame.locks = some link → state.linkHeld link = false)
    (advanced : frame.advance state.shared role.home false =
      some (shared, frames)) :
    (node config).ContinuesUnder ByItself state
      (state.moved index role shared (frames ++ below)) := by
  refine State.continues_moved (.advance false) found rfl nofun ?_ ?_
  · change frame.locks.any state.linkHeld = false
    cases locks : frame.locks with
    | none => rfl
    | some link => exact free link locks
  · simp [Thread.step, advanced]

/-! ## On to `finish_one` -/

/-- How many accesses a submission needs. -/
def SubmitCall.remaining (call : SubmitCall config) : Nat :=
  match call.pc with
  | .takeId => 4
  | .count => 3
  | .route => 2
  | .push _ => 1

/-- How many accesses come before `finish_one`. -/
def CompletePc.remaining : CompletePc config → Nat
  | .observe => 6
  | .submitting _ call => call.remaining + 1
  | .record _ => 1
  | .finish => 0

theorem SubmitCall.remaining_step (shared : Shared config)
    (home : Option (Fin config.workers)) (call : SubmitCall config) :
    ∀ next ∈ (call.step shared home).2, next.remaining < call.remaining := by
  obtain ⟨task, pool, pc⟩ := call
  intro next isNext
  cases pc with
  | push queue => cases isNext
  | count =>
      cases isNext
      cases pool <;> cases home <;> simp [SubmitCall.remaining]
  | _ =>
      cases isNext
      exact Nat.lt_succ_self _

/-- The observer cannot get stuck. -/
theorem CompletePc.advances (shared : Shared config)
    (home : Option (Fin config.workers)) (task : Task)
    {pc : CompletePc config} (notYet : pc ≠ .finish) :
    ∃ following next, pc.step shared home task = (following, some next) ∧
      next.remaining < pc.remaining := by
  cases pc with
  | observe =>
      simp only [CompletePc.step]
      split
      · exact ⟨_, _, rfl, Nat.succ_pos 5⟩
      · split
        · exact ⟨_, _, rfl, Nat.lt_succ_self 5⟩
        · split
          · exact ⟨_, _, rfl, Nat.succ_pos 5⟩
          · exact ⟨_, _, rfl, by simp [CompletePc.remaining]⟩
  | submitting p call =>
      have nearer := call.remaining_step shared home
      simp only [CompletePc.step]
      generalize call.step shared home = result at nearer ⊢
      obtain ⟨following, rest⟩ := result
      cases rest with
      | none =>
          refine ⟨_, _, rfl, Nat.succ_lt_succ ?_⟩
          obtain ⟨_, _, pc⟩ := call
          cases pc <;> exact Nat.succ_pos _
      | some next =>
          exact ⟨_, _, rfl, Nat.succ_lt_succ (nearer next rfl)⟩
  | record p => exact ⟨_, _, rfl, Nat.one_pos⟩
  | finish => exact absurd rfl notYet

/-- These frames get on with the completion of the task. -/
structure Completes (task : Task) (wrap : CompletePc config → Frame config) :
    Prop where
  advance : ∀ shared home pc following next,
    CompletePc.step shared home task pc = (following, some next) →
      (wrap pc).advance shared home false = some (following, [wrap next])
  locks : ∀ pc link, (wrap pc).locks ≠ some link

theorem completes_execute (task : Task) (helped : Bool) :
    Completes task
      fun pc : CompletePc config =>
        .execute task helped (.completing pc) := by
  refine ⟨fun shared home pc following next stepped => ?_, fun _ _ => nofun⟩
  simp [Frame.advance, ExecutePc.step, stepped]

theorem completes_resolve (task : Task) :
    Completes task fun pc : CompletePc config => .resolve task pc := by
  refine ⟨fun shared home pc following next stepped => ?_, fun _ _ => nofun⟩
  simp [Frame.advance, stepped]

/-- A call that completes a task gets to `finish_one`, whatever else it
does. -/
theorem State.reaches_finish {task : Task}
    {wrap : CompletePc config → Frame config}
    (completes : Completes task wrap)
    {below : List (Frame config)} (pc : CompletePc config)
    (found : state.threads[index]? = some { role, stack := wrap pc :: below }) :
    ∃ later, (node config).ContinuesUnder ByItself state later ∧
      later.threads[index]? = some { role, stack := wrap .finish :: below } := by
  generalize bound : pc.remaining = count
  induction count using Nat.strongRecOn generalizing pc state with
  | ind count inductionHypothesis =>
      by_cases arrived : pc = .finish
      · subst arrived
        exact ⟨state, .stay, found⟩
      · obtain ⟨following, next, stepped, nearer⟩ :=
          CompletePc.advances state.shared role.home task arrived
        have moved := State.continues_advance found
          (fun link locks => absurd locks (completes.locks pc link))
          (completes.advance _ _ _ _ _ stepped)
        obtain ⟨later, continued, reached⟩ := inductionHypothesis
          next.remaining (bound ▸ nearer) next (State.moved_self found) rfl
        exact ⟨later, moved.trans continued, reached⟩

/-- The thread leaves `run_task`. -/
theorem State.ends_body {task : Task} {helped : Bool}
    {below : List (Frame config)}
    (found : state.threads[index]? =
      some { role, stack := .execute task helped (.running none) :: below }) :
    ∃ ended, (node config).ContinuesUnder ByItself state ended ∧
      ended.threads[index]? = some {
        role, stack := .execute task helped (afterBody task) :: below } ∧
      ended.shared = state.shared.remember
        (.executed task.taskId :: performs config task) ∧
      ∀ other, index ≠ other →
        ended.threads[other]? = state.threads[other]? :=
  ⟨_, State.continues_moved .bodyEnds found rfl nofun rfl rfl,
    State.moved_self found, rfl, fun _ => State.moved_other⟩

/-- Only a stolen closure queues a notice. -/
theorem afterBody_cases (task : Task) :
    (∃ origin taskId,
        (afterBody task : ExecutePc config) = .notify origin taskId) ∨
      (afterBody task : ExecutePc config) = .localCount := by
  unfold afterBody
  split
  · exact .inl ⟨_, _, rfl⟩
  · exact .inr rfl

/-- A thread inside `run_task` gets to `finish_one`.  Nothing on the way asks
whether a handler was found. -/
theorem State.finishes_execution {task : Task} {helped : Bool}
    {below : List (Frame config)}
    (found : state.threads[index]? =
      some { role, stack := .execute task helped (.running none) :: below }) :
    ∃ later, (node config).ContinuesUnder ByItself state later ∧
      later.threads[index]? = some {
        role
        stack := .execute task helped (.completing .finish) :: below } := by
  have fromCount : ∀ {state : State config},
      state.threads[index]? = some {
        role, stack := .execute task helped .localCount :: below } →
      ∃ later, (node config).ContinuesUnder ByItself state later ∧
        later.threads[index]? = some {
          role
          stack := .execute task helped (.completing .finish) :: below } := by
    intro state counting
    have moved := State.continues_advance counting (fun _ => nofun) rfl
    obtain ⟨later, continued, reached⟩ := State.reaches_finish
      (completes_execute task helped) .observe (State.moved_self counting)
    exact ⟨later, moved.trans continued, reached⟩
  obtain ⟨ended, ending, afterwards, _⟩ := State.ends_body found
  rcases afterBody_cases task with ⟨origin, taskId, owes⟩ | noNotice
  · rw [owes] at afterwards
    have notified :=
      State.continues_advance afterwards (fun _ => nofun) rfl
    obtain ⟨later, continued, reached⟩ :=
      fromCount (State.moved_self afterwards)
    exact ⟨later, (ending.trans notified).trans continued, reached⟩
  · rw [noNotice] at afterwards
    obtain ⟨later, continued, reached⟩ := fromCount afterwards
    exact ⟨later, ending.trans continued, reached⟩

/-! ## On to the result -/

/-- Thread `index` works by itself; the notices and the other threads stay as
they are. -/
structure State.WorksAlone (state later : State config) (index : Nat) :
    Prop where
  continues : (node config).ContinuesUnder ByItself state later
  notices : later.shared.notices = state.shared.notices
  length : later.threads.length = state.threads.length
  others : ∀ other, index ≠ other →
    later.threads[other]? = state.threads[other]?

theorem State.WorksAlone.refl (state : State config) (index : Nat) :
    state.WorksAlone state index :=
  ⟨.stay, rfl, rfl, fun _ _ => rfl⟩

theorem State.WorksAlone.trans {between later : State config}
    (first : state.WorksAlone between index)
    (second : between.WorksAlone later index) :
    state.WorksAlone later index :=
  ⟨first.continues.trans second.continues,
    second.notices.trans first.notices, second.length.trans first.length,
    fun other different =>
      (second.others other different).trans (first.others other different)⟩

/-- How many accesses a call of `try_remote_steal` needs at most to return. -/
def acceptsLeft (remaining : List Task) (call : Option (SubmitCall config)) :
    Nat :=
  5 * remaining.length + (call.map SubmitCall.remaining).getD 0

/-- One access of a call that accepts a response. -/
theorem State.worksAlone_accept {link : NodeId} {tasks remaining : List Task}
    {call : Option (SubmitCall config)} {below frames : List (Frame config)}
    {shared : Shared config}
    (found : state.threads[index]? =
      some { role, stack := .accept link tasks remaining call :: below })
    (stepped : acceptStep state.shared role.home link tasks remaining call =
      (shared, frames))
    (notices : shared.notices = state.shared.notices) :
    state.WorksAlone (state.moved index role shared (frames ++ below))
      index where
  continues := State.continues_advance found (fun _ locks => by cases locks)
    (congrArg some stepped)
  notices := notices
  length := List.length_set
  others _ := State.moved_other

/-- A call of `try_remote_steal` can always go on, up to its return. -/
theorem State.returns_accept {link : NodeId} {tasks remaining : List Task}
    {call : Option (SubmitCall config)} {below : List (Frame config)}
    (found : state.threads[index]? =
      some { role, stack := .accept link tasks remaining call :: below }) :
    ∃ later, state.WorksAlone later index ∧
      later.threads[index]? = some { role, stack := below } := by
  generalize bound : acceptsLeft remaining call = count
  induction count using Nat.strongRecOn
      generalizing remaining call state with
  | ind count inductionHypothesis =>
      have goesOn : ∀ {shared : Shared config} {rest : List Task}
          {next : Option (SubmitCall config)},
          acceptStep state.shared role.home link tasks remaining call =
            (shared, [.accept link tasks rest next]) →
          shared.notices = state.shared.notices →
          acceptsLeft rest next < count →
          ∃ later, state.WorksAlone later index ∧
            later.threads[index]? = some { role, stack := below } := by
        intro shared rest next stepped notices fewer
        have worked := State.worksAlone_accept found stepped notices
        obtain ⟨later, rests, returned⟩ :=
          inductionHypothesis _ fewer (State.moved_self found) rfl
        exact ⟨later, worked.trans rests, returned⟩
      cases call with
      | none =>
          cases remaining with
          | nil =>
              exact ⟨_, State.worksAlone_accept found rfl rfl,
                State.moved_self found⟩
          | cons task rest =>
              refine goesOn rfl rfl ?_
              rw [← bound]
              simp only [acceptsLeft, SubmitCall.remaining, List.length_cons,
                Option.map_some, Option.map_none, Option.getD_some,
                Option.getD_none]
              omega
      | some call =>
          have fewer := call.remaining_step state.shared role.home
          have notices := call.notices_step state.shared role.home
          generalize stepped : call.step state.shared role.home = result
            at fewer notices
          obtain ⟨shared, next⟩ := result
          refine @goesOn shared remaining next ?_ notices ?_
          · cases remaining <;> simp [acceptStep, stepped]
          · rw [← bound]
            cases next with
            | none =>
                obtain ⟨_, _, pc⟩ := call
                cases pc <;> simp [acceptsLeft, SubmitCall.remaining]
            | some next =>
                have nearer := fewer next rfl
                simp only [acceptsLeft, Option.map_some, Option.getD_some]
                omega

/-- A thread goes on until it holds no link. -/
theorem State.releases (state : State config) (index : Nat) :
    ∃ later, state.WorksAlone later index ∧
      (∀ thread, later.threads[index]? = some thread →
        thread.held? = none) ∧
      ∀ thread, state.threads[index]? = some thread → thread.held? = none →
        later.threads[index]? = some thread := by
  have ofStack : ∀ (role : Role config) (stack : List (Frame config))
      (state : State config),
      state.threads[index]? = some { role, stack } →
      ∃ later, state.WorksAlone later index ∧
        (∀ thread, later.threads[index]? = some thread →
          thread.held? = none) ∧
        ∀ thread, state.threads[index]? = some thread →
          thread.held? = none → later.threads[index]? = some thread := by
    intro role stack
    induction stack with
    | nil =>
        intro state found
        refine ⟨state, .refl state index, ?_, fun _ same _ => same⟩
        intro thread same
        cases found.symm.trans same
        rfl
    | cons frame below inductionHypothesis =>
        intro state found
        cases frame with
        | accept link tasks remaining call =>
            obtain ⟨between, worked, returned⟩ := State.returns_accept found
            obtain ⟨later, rests, released, _⟩ :=
              inductionHypothesis between returned
            refine ⟨later, worked.trans rests, released, ?_⟩
            intro thread same free
            cases found.symm.trans same
            cases free
        | _ =>
            refine ⟨state, .refl state index, ?_, fun _ same _ => same⟩
            intro thread same
            cases found.symm.trans same
            rfl
  cases found : state.threads[index]? with
  | none =>
      refine ⟨state, .refl state index, ?_, ?_⟩
      · intro thread same
        cases found.symm.trans same
      · intro thread same
        cases same
  | some thread =>
      obtain ⟨role, stack, finished⟩ := thread
      cases finished with
      | false =>
          rw [← found]
          exact ofStack role stack state found
      | true =>
          refine ⟨state, .refl state index, ?_, ?_⟩
          · intro thread same
            cases found.symm.trans same
            rfl
          · intro thread same _
            exact found.trans same

/-- The steal threads go on until no link is held.  Nothing else needs to
move. -/
theorem State.frees_links (state : State config) :
    ∃ later, (node config).ContinuesUnder ByItself state later ∧
      later.shared.notices = state.shared.notices ∧
      (∀ link, later.linkHeld link = false) ∧
      ∀ (index : Nat) (thread : Thread config),
        state.threads[index]? = some thread → thread.held? = none →
          later.threads[index]? = some thread := by
  -- the first `count` threads
  have ofFirst : ∀ count, ∃ later,
      (node config).ContinuesUnder ByItself state later ∧
      later.shared.notices = state.shared.notices ∧
      later.threads.length = state.threads.length ∧
      (∀ index : Nat, index < count → ∀ thread : Thread config,
        later.threads[index]? = some thread → thread.held? = none) ∧
      ∀ (index : Nat) (thread : Thread config),
        state.threads[index]? = some thread → thread.held? = none →
          later.threads[index]? = some thread := by
    intro count
    induction count with
    | zero =>
        exact ⟨state, .stay, rfl, rfl,
          fun _ inside => absurd inside (Nat.not_lt_zero _),
          fun _ _ same _ => same⟩
    | succ count inductionHypothesis =>
        obtain ⟨between, continued, notices, length, released, kept⟩ :=
          inductionHypothesis
        obtain ⟨later, worked, now, keeps⟩ := between.releases count
        refine ⟨later, continued.trans worked.continues,
          worked.notices.trans notices, worked.length.trans length, ?_, ?_⟩
        · intro index inside thread same
          by_cases isLast : count = index
          · exact now thread (isLast ▸ same)
          · rw [worked.others index isLast] at same
            exact released index (by omega) thread same
        · intro index thread same free
          have before := kept index thread same free
          by_cases isLast : count = index
          · subst isLast
            exact keeps thread before free
          · exact (worked.others index isLast).trans before
  obtain ⟨later, continued, notices, length, released, kept⟩ :=
    ofFirst state.threads.length
  refine ⟨later, continued, notices, fun link => ?_, kept⟩
  refine List.any_eq_false.mpr fun thread member => ?_
  obtain ⟨index, inside, same⟩ := List.mem_iff_getElem.mp member
  rw [released index (length ▸ inside) thread
    (List.getElem?_eq_some_iff.mpr ⟨inside, same⟩)]
  exact Bool.false_ne_true

/-- A thread that takes no mutex leaves the links free. -/
theorem State.free_moved {shared : Shared config}
    {stack : List (Frame config)}
    (free : ∀ link, state.linkHeld link = false)
    (takesNone : ({ role, stack } : Thread config).held? = none)
    (link : NodeId) :
    (state.moved index role shared stack).linkHeld link = false := by
  refine List.any_eq_false.mpr fun thread member => ?_
  rcases List.mem_or_eq_of_mem_set member with old | rfl
  · exact List.any_eq_false.mp (free link) thread old
  · rw [takesNone]
    exact Bool.false_ne_true

/-- The completion thread sends what it has taken. -/
theorem State.sends_batch {below : List (Frame config)}
    (batch : List (NodeId × Nat))
    (free : ∀ link, state.linkHeld link = false)
    (found : state.threads[index]? =
      some { role, stack := .complete batch :: below }) :
    ∃ later, (node config).ContinuesUnder ByItself state later ∧
      later.shared.results = state.shared.results ++ batch := by
  induction batch generalizing state with
  | nil => exact ⟨state, .stay, (List.append_nil _).symm⟩
  | cons notice rest inductionHypothesis =>
      have moved :=
        State.continues_advance found (fun link _ => free link) rfl
      obtain ⟨later, continued, sent⟩ :=
        inductionHypothesis (State.free_moved free rfl)
          (State.moved_self found)
      refine ⟨later, moved.trans continued, sent.trans ?_⟩
      exact List.append_assoc state.shared.results [notice] rest

/-- The completion thread sends everything that is queued, when the steal
threads have left the links. -/
theorem State.sends_completions {completer : Nat}
    (waits : state.threads[completer]? =
      some { role := .completer, stack := [] }) :
    ∃ later, (node config).ContinuesUnder ByItself state later ∧
      later.shared.results =
        state.shared.results ++ state.shared.completions := by
  obtain ⟨between, freeing, notices, free, kept⟩ := state.frees_links
  have stillWaits := kept completer _ waits rfl
  have taken :=
    State.continues_moved .drain stillWaits rfl nofun rfl rfl
  obtain ⟨later, continued, sent⟩ := State.sends_batch _
    (State.free_moved free rfl) (State.moved_self stillWaits)
  obtain ⟨completions, results⟩ := Prod.mk.inj notices
  refine ⟨later, (freeing.trans taken).trans continued, sent.trans ?_⟩
  rw [← results, ← completions]
  rfl

/-- The end of a stolen closure queues its notice.  Nothing on the way asks
whether a handler was found. -/
theorem State.queues_notice {task : Task} {helped : Bool}
    {below : List (Frame config)} {type : TaskType} {payload : Payload}
    {origin : NodeId} {taskId : Nat}
    (found : state.threads[index]? =
      some { role, stack := .execute task helped (.running none) :: below })
    (closure : task.fn = some (.stolen type payload origin taskId))
    (reports : config.dropCompletions = false) :
    ∃ later, (node config).ContinuesUnder ByItself state later ∧
      later.shared.results = state.shared.results ∧
      later.shared.completions =
        state.shared.completions ++ [(origin, taskId)] ∧
      ∀ other, index ≠ other →
        later.threads[other]? = state.threads[other]? := by
  have owes : (afterBody task : ExecutePc config) =
      .notify origin taskId := by
    unfold afterBody
    rw [closure]
  obtain ⟨ended, ending, afterwards, shared, others⟩ :=
    State.ends_body found
  rw [owes] at afterwards
  refine ⟨_, ending.trans
    (State.continues_advance afterwards (fun _ => nofun) rfl), ?_, ?_, ?_⟩
  · rw [reports, shared]
    rfl
  · rw [reports, shared]
    rfl
  · intro other different
    exact (State.moved_other different).trans (others other different)

/-- The end of a stolen closure becomes a result. -/
theorem State.sends_notice {task : Task} {helped : Bool}
    {below : List (Frame config)} {type : TaskType} {payload : Payload}
    {origin : NodeId} {taskId completer : Nat}
    (found : state.threads[index]? =
      some { role, stack := .execute task helped (.running none) :: below })
    (closure : task.fn = some (.stolen type payload origin taskId))
    (reports : config.dropCompletions = false)
    (waits : state.threads[completer]? =
      some { role := .completer, stack := [] }) :
    ∃ later, (node config).ContinuesUnder ByItself state later ∧
      later.shared.results = state.shared.results ++
        (state.shared.completions ++ [(origin, taskId)]) := by
  have different : index ≠ completer := by
    rintro rfl
    cases found.symm.trans waits
  obtain ⟨queued, continued, results, completions, others⟩ :=
    State.queues_notice found closure reports
  obtain ⟨later, sending, sent⟩ :=
    State.sends_completions ((others completer different).trans waits)
  rw [results, completions] at sent
  exact ⟨later, continued.trans sending, sent⟩

/-! ## On to the origin's `finish_one` -/

/-- A result that arrives settles the task it names. -/
theorem State.settles {peer taskId : Nat}
    (waits : state.threads[peer]? = some { role := .peer, stack := [] })
    (isOutstanding : ∃ entry ∈ state.shared.outstanding,
      entry.task.taskId = taskId) :
    ∃ taken task, (node config).step state (.move peer (.result taskId)) =
        some taken ∧ task.taskId = taskId ∧
      ∃ later, (node config).ContinuesUnder ByItself taken later ∧
        later.threads[peer]? =
          some { role := .peer, stack := [.resolve task .finish] } := by
  obtain ⟨position, isFound⟩ : ∃ position,
      state.shared.outstanding.findIdx? (·.task.taskId == taskId) =
        some position := by
    obtain ⟨entry, member, sameId⟩ := isOutstanding
    apply Option.isSome_iff_exists.mp
    rw [List.findIdx?_isSome, List.any_eq_true]
    exact ⟨entry, member, beq_iff_eq.mpr sameId⟩
  obtain ⟨inside, sameId, _⟩ := List.findIdx?_eq_some_iff_getElem.mp isFound
  have begins : Thread.step state.shared
      ({ role := .peer, stack := [] } : Thread config) (.result taskId) =
        some ({ state.shared with
          outstanding := state.shared.outstanding.eraseIdx position },
          [.resolve state.shared.outstanding[position].task .observe]) := by
    simp [Thread.step, Role.begin, isFound, List.getElem?_eq_getElem inside]
  obtain ⟨later, continued, reached⟩ := State.reaches_finish
    (completes_resolve _) .observe (State.moved_self waits)
  exact ⟨_, _, State.step_moved waits (by simp) rfl begins,
    beq_iff_eq.mp sameId, later, continued, reached⟩

end Moves

/-! ## Reports in a cluster -/

variable {config : ClusterConfig}

namespace ClusterState

/-- Thread `index` of node `i` is inside `run_task`, which `Worker::execute` or
`Runtime::execute_helped` has called. -/
def Executes (state : ClusterState config) (i : Fin config.size)
    (index : Nat) (task : Task) : Prop :=
  ∃ role helped below, (state.nodes i).threads[index]? =
    some { role, stack := .execute task helped (.running none) :: below }

/-- The next access of the thread is that of `finish_one`, for the task that it
has executed. -/
def Finishes (state : ClusterState config) (i : Fin config.size)
    (index : Nat) (task : Task) : Prop :=
  ∃ role helped below, (state.nodes i).threads[index]? =
    some {
      role, stack := .execute task helped (.completing .finish) :: below }

/-- The next access of a thread of node `j` is that of `finish_one`, for a task
that a result has settled. -/
def Settles (state : ClusterState config) (j : Fin config.size)
    (taskId : Nat) : Prop :=
  ∃ (index : Nat) (role : Role (config.node j)) (task : Task)
      (below : List (Frame (config.node j))),
    (state.nodes j).threads[index]? =
        some { role, stack := .resolve task .finish :: below } ∧
      task.taskId = taskId

/-- Node `i` has sent the result, with status 0, since. -/
def SentSince (later earlier : ClusterState config) (i : Fin config.size)
    (notice : NodeId × Nat) : Prop :=
  notice ∈ (later.nodes i).shared.results.drop
    (earlier.nodes i).shared.results.length

/-- However the run goes on, nobody learns of the task as of one that ran. -/
structure Silent (state : ClusterState config) (i : Fin config.size)
    (index : Nat) (task : Task) : Prop where
  executing : ∀ later, (cluster config).Continues state later →
    ¬ later.Finishes i index task
  result : ∀ later, (cluster config).Continues state later →
    ∀ notice ∈ Event.notices task, ¬ later.SentSince state i notice
  origin : ∀ later, (cluster config).Continues state later →
    ∀ notice ∈ Event.notices task, ∀ j,
      (config.node j).nodeId = notice.1 → ¬ later.Settles j notice.2

/-- What a node does by itself it does in the cluster. -/
theorem continues_of_node {state : ClusterState config}
    {i : Fin config.size} {target : State (config.node i)}
    (continued : (node (config.node i)).ContinuesUnder ByItself
      (state.nodes i) target) :
    ∃ later, (cluster config).Continues state later ∧
      later.nodes i = target ∧ ∀ j, j ≠ i → later.nodes j = state.nodes j := by
  induction continued with
  | stay => exact ⟨state, .stay, rfl, fun _ _ => rfl⟩
  | @next _ following action _ isLocal stepped inductionHypothesis =>
      obtain ⟨between, reaching, here, others⟩ := inductionHypothesis
      have moved : (cluster config).step between (.act i action) =
          some (between.install i following between.flying) := by
        have ofNode : (between.nodes i).step action = some following := by
          rw [here]
          exact stepped
        have isLocal : action.isLocal = true := isLocal
        simp only [cluster, ClusterState.step, isLocal, ofNode, if_true,
          Option.map_some]
      refine ⟨_, .next reaching trivial moved, Function.update_self .., ?_⟩
      intro j different
      exact (Function.update_of_ne different ..).trans (others j different)

end ClusterState

section Reports

variable {state : ClusterState config} {i : Fin config.size} {index : Nat}
  {task : Task}

theorem ClusterState.Executes.finishes
    (executes : state.Executes i index task) :
    ∃ later, (cluster config).Continues state later ∧
      later.Finishes i index task := by
  obtain ⟨role, helped, below, found⟩ := executes
  obtain ⟨target, continued, reached⟩ := State.finishes_execution found
  obtain ⟨later, reaching, here, _⟩ :=
    ClusterState.continues_of_node continued
  refine ⟨later, reaching, role, helped, below, ?_⟩
  rw [here]
  exact reached

theorem ClusterState.Executes.sends
    (executes : state.Executes i index task) {type : TaskType}
    {payload : Payload} {origin : NodeId} {taskId completer : Nat}
    (closure : task.fn = some (.stolen type payload origin taskId))
    (reports : (config.node i).dropCompletions = false)
    (waits : (state.nodes i).threads[completer]? =
      some { role := .completer, stack := [] }) :
    ∃ later, (cluster config).Continues state later ∧
      later.SentSince state i (origin, taskId) ∧
      ∀ j, j ≠ i → later.nodes j = state.nodes j := by
  obtain ⟨role, helped, below, found⟩ := executes
  obtain ⟨target, continued, sent⟩ :=
    State.sends_notice found closure reports waits
  obtain ⟨later, reaching, here, others⟩ :=
    ClusterState.continues_of_node continued
  refine ⟨later, reaching, ?_, others⟩
  unfold ClusterState.SentSince
  rw [here, sent, List.drop_left]
  exact List.mem_append_right _ (List.mem_singleton_self _)

/-- A result that was sent settles the task at its origin. -/
theorem ClusterState.SentSince.settles {earlier : ClusterState config}
    {j : Fin config.size} {taskId peer : Nat}
    (sent : state.SentSince earlier i ((config.node j).nodeId, taskId))
    (waits : (state.nodes j).threads[peer]? =
      some { role := .peer, stack := [] })
    (isOutstanding : ∃ entry ∈ (state.nodes j).shared.outstanding,
      entry.task.taskId = taskId) :
    ∃ later, (cluster config).Continues state later ∧
      later.Settles j taskId := by
  obtain ⟨position, isSent⟩ :=
    List.mem_iff_getElem?.mp (List.mem_of_mem_drop sent)
  obtain ⟨taken, settled, stepped, sameId, target, continued, reached⟩ :=
    State.settles waits isOutstanding
  have moved : (cluster config).step state (.result i position j peer) =
      some (state.install j taken state.flying) := by
    have ofNode : (state.nodes j).step (.move peer (.result taskId)) =
        some taken := stepped
    simp only [cluster, ClusterState.step, isSent, ofNode, if_true,
      Option.map_some]
  have here : (state.install j taken state.flying).nodes j = taken :=
    Function.update_self ..
  rw [← here] at continued
  obtain ⟨later, reaching, there, _⟩ :=
    ClusterState.continues_of_node continued
  refine ⟨later, Machine.ContinuesUnder.trans (.next .stay trivial moved)
    reaching, peer, .peer, settled, [], ?_, sameId⟩
  rw [there]
  exact reached

/-- A task that is being executed without a handler is kept from being
reported exactly if there is a handler after all.  Otherwise the executing node
counts it in `finish_one`; if it was stolen, the thief sends its result and the
origin counts it too. -/
theorem unrun_silent_iff (executes : state.Executes i index task) :
    (((config.node i).handlers.handlerFor task = none →
        state.Silent i index task) ↔
      (config.node i).handlers.handlerFor task ≠ none) ∧
    ∀ type payload taskId j (completer peer : Nat),
      (config.node i).handlers.handlerFor task = none →
      task.fn =
        some (.stolen type payload (config.node j).nodeId taskId) →
      (config.node i).dropCompletions = false → j ≠ i →
      (state.nodes i).threads[completer]? =
        some { role := .completer, stack := [] } →
      (state.nodes j).threads[peer]? = some { role := .peer, stack := [] } →
      (∃ entry ∈ (state.nodes j).shared.outstanding,
        entry.task.taskId = taskId) →
      ∃ sent settled, (cluster config).Continues state sent ∧
        sent.SentSince state i ((config.node j).nodeId, taskId) ∧
        (cluster config).Continues sent settled ∧
        settled.Settles j taskId := by
  constructor
  · constructor
    · intro silent missing
      obtain ⟨later, continued, finishes⟩ := executes.finishes
      exact (silent missing).executing later continued finishes
    · intro hasHandler missing
      exact absurd missing hasHandler
  · intro type payload taskId j completer peer _ closure reports different
      completerWaits peerWaits isOutstanding
    obtain ⟨sent, sending, isSent, others⟩ :=
      executes.sends closure reports completerWaits
    rw [← others j different] at peerWaits isOutstanding
    obtain ⟨settled, settling, settles⟩ :=
      isSent.settles peerWaits isOutstanding
    exact ⟨sent, settled, sending, isSent, settling, settles⟩

end Reports

/-! ## Tables that disagree -/

/-- The two nodes of the small cluster, but the thief has no handlers. -/
def mismatchConfig : ClusterConfig where
  size := duoConfig.size
  node i := { duoConfig.node i with
    handlers := if i = thief then fun _ => none
      else (duoConfig.node i).handlers }
  distinct := duoConfig.distinct

def mismatchStart : ClusterState mismatchConfig where
  nodes i := State.fresh (mismatchConfig.node i)
  flying := []

theorem mismatchStart_initial :
    (cluster mismatchConfig).initial mismatchStart :=
  ⟨fun i => State.fresh_initial (mismatchConfig.node i), rfl⟩

/-- The thief has stolen the task of the origin, and its worker is inside
`run_task`. -/
def mismatchSteal : List (ClusterAction mismatchConfig) :=
  (.move 1 (.call (.submitPortable 1 noStage 1)) :: advances 1 3 ++
    .move 2 (.request ⟨2, 4, .generic⟩) :: advances 2 19).map
      (.act origin) ++
    [.reply 0 thief 4] ++ (advances 4 6 ++ advances 0 5).map (.act thief)

/-- The thief sends the result, and the origin takes it. -/
def mismatchReport : List (ClusterAction mismatchConfig) :=
  (.move 0 .bodyEnds :: advances 0 4 ++ .move 5 .drain :: advances 5 2).map
      (.act thief) ++
    [.result thief 0 origin 2] ++ (advances 2 2).map (.act origin)

/-- The closure in which the thief holds the stolen task. -/
def mismatchTask : Task where
  taskId := 1
  fn := some (.stolen ⟨1⟩ noStage 1 1)

/-- Where `mismatchSteal` ends. -/
def mismatchExecuting : ClusterState mismatchConfig :=
  ((cluster mismatchConfig).run mismatchStart mismatchSteal).get
    (by decide +kernel)

theorem mismatchExecuting_reached :
    (cluster mismatchConfig).Reachable mismatchExecuting :=
  Machine.reachable_of_run mismatchSteal mismatchStart_initial
    (Option.some_get _).symm

theorem mismatchExecuting_executes :
    mismatchExecuting.Executes thief 0 mismatchTask :=
  ⟨.worker ⟨0, Nat.one_pos⟩, false, [.worker .loading], by decide +kernel⟩

theorem mismatchReport_runs :
    ((cluster mismatchConfig).run mismatchExecuting
      mismatchReport).isSome = true := by
  decide +kernel

/-- Nothing ran, and both nodes count the task as completed. -/
theorem unrun_reported :
    (cluster mismatchConfig).Reachable mismatchExecuting ∧
      mismatchExecuting.Executes thief 0 mismatchTask ∧
      (mismatchConfig.node thief).handlers.handlerFor mismatchTask = none ∧
      ∃ later, (cluster mismatchConfig).run mismatchExecuting
          mismatchReport = some later ∧
        (later.nodes thief).shared.history =
          [.counted mismatchTask, .executed mismatchTask.taskId] ∧
        (later.nodes thief).shared.completed = 1 ∧
        (later.nodes thief).shared.results = [(1, 1)] ∧
        (later.nodes origin).shared.submitted = 1 ∧
        (later.nodes origin).shared.completed = 1 := by
  refine ⟨mismatchExecuting_reached, mismatchExecuting_executes,
    by decide +kernel, _, (Option.some_get mismatchReport_runs).symm, ?_⟩
  decide +kernel

theorem unrun_silent_mismatch :
    ¬ mismatchExecuting.Silent thief 0 mismatchTask ∧
      ∃ later, (cluster mismatchConfig).Continues mismatchExecuting later ∧
        later.Settles origin 1 := by
  have missing : (mismatchConfig.node thief).handlers.handlerFor
      mismatchTask = none := by
    decide +kernel
  obtain ⟨silent_iff, reports⟩ :=
    unrun_silent_iff mismatchExecuting_executes
  constructor
  · intro silent
    exact silent_iff.mp (fun _ => silent) missing
  · obtain ⟨sent, settled, sending, _, settling, settles⟩ :=
      reports ⟨1⟩ noStage 1 origin 5 2 missing rfl
        (by decide +kernel) (Fin.ne_of_val_ne Nat.zero_ne_one)
        (by decide +kernel) (by decide +kernel) (by decide +kernel)
    exact ⟨settled, sending.trans settling, settles⟩

end HydraRT.Cluster
