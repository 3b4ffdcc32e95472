import HydraRT.Cluster.History
import HydraRT.Cluster.Workers

/-!
# Shutdown

`Runtime::shutdown` stores a flag, and a worker leaves its loop when it finds
the flag set and the counters balanced.  It loads the counters first, so the
balance it acts on may be an old one.  Tasks cannot be lost as long as one
worker is *alert* when the flag is stored: nothing it has loaded so far lets
it leave while the counters differ.
-/

namespace HydraRT.Cluster

open HydraRT.Inference
open HydraRT.Lib

variable {config : NodeConfig}

/-! ## Alert workers -/

/-- What the worker has loaded does not let it leave while the counters
differ. -/
def WorkerPc.isAlert (shared : Shared config) : WorkerPc config → Bool
  | .sawSubmitted submitted =>
      submitted < shared.completed || shared.submitted ≤ submitted
  | .loadFlag allDone => !allDone || shared.completed == shared.submitted
  | _ => true

/-- A worker with a task loads the counters again before it leaves. -/
def stackIsAlert (shared : Shared config) : List (Frame config) → Bool
  | [] => false
  | [.worker pc] => pc.isAlert shared
  | _ => true

def State.isWatched (state : State config) : Bool :=
  state.threads.any fun thread =>
    thread.role.isWorker && stackIsAlert state.shared thread.stack

/-- A thread other than a worker increments `submitted_`. -/
def State.submitsOutside (state : State config) : Action → Bool
  | .move index move =>
      match state.threads[index]?, state.step (.move index move) with
      | some thread, some following =>
          !thread.role.isWorker &&
            following.shared.submitted != state.shared.submitted
      | _, _ => false
  | _ => false

/-- No task is at another node, and once the flag is set only the workers
submit. -/
def OwnWork (state : State config) (action : Action) : Prop :=
  state.shared.outstanding = [] ∧
    (state.shared.shutdownFlag = true →
      state.submitsOutside action = false)

instance (state : State config) (action : Action) :
    Decidable (OwnWork state action) :=
  inferInstanceAs (Decidable (_ ∧ _))

/-- Moreover, some worker is alert when the flag is stored. -/
def Timely (state : State config) (action : Action) : Prop :=
  OwnWork state action ∧
    (action = .shutdown → state.shared.shutdownFlag = false →
      state.isWatched = true)

instance (state : State config) (action : Action) :
    Decidable (Timely state action) :=
  inferInstanceAs (Decidable (_ ∧ _))

theorem State.isWatched_iff {state : State config} :
    state.isWatched = true ↔
      ∃ thread ∈ state.threads, thread.role.isWorker = true ∧
        stackIsAlert state.shared thread.stack = true := by
  simp [State.isWatched]

/-- The counters are equal or a worker is alert. -/
def State.Guarded (state : State config) : Prop :=
  state.shared.completed = state.shared.submitted ∨ state.isWatched = true

/-! ## Moves of workers -/

/-- Frames of tasks on top of the loop. -/
theorem stackIsAlert_of_frames (shared : Shared config)
    {frames : List (Frame config)}
    (notWorker : ∀ frame ∈ frames, frame.isWorker = false) :
    stackIsAlert shared (frames ++ [.worker .loading]) = true := by
  cases frames with
  | nil => rfl
  | cons top rest =>
      cases rest with
      | nil => cases top <;> rfl
      | cons => cases top <;> rfl

/-- A worker in its loop leaves the books alone. -/
theorem WorkerPc.step_books (shared : Shared config)
    (worker : Fin config.workers) (completedFirst misses : Bool)
    (pc : WorkerPc config) :
    (pc.step shared worker completedFirst misses).1.books = shared.books := by
  unfold WorkerPc.step
  split
  case h_4 =>
    split <;> rfl
  case h_6 =>
    split
    · rename_i taken
      exact Shared.books_take? taken
    · rfl
  all_goals
    rfl

/-- An alert worker stays alert until the counters are equal. -/
theorem WorkerPc.isAlert_step {shared following : Shared config}
    {worker : Fin config.workers} {completedFirst misses : Bool}
    {pc : WorkerPc config} {frames : List (Frame config)}
    (alert : pc.isAlert shared = true)
    (ordered : shared.completed ≤ shared.submitted)
    (seen : ∀ completed, pc = .sawCompleted completed →
      completed ≤ shared.completed)
    (stepped : pc.step shared worker completedFirst misses =
      (following, frames)) :
    shared.completed = shared.submitted ∨
      stackIsAlert following frames = true := by
  unfold WorkerPc.step at stepped
  split at stepped
  · cases stepped
    cases completedFirst <;> simp [stackIsAlert, WorkerPc.isAlert]
  · cases stepped
    simp only [WorkerPc.isAlert, Bool.or_eq_true, decide_eq_true_eq] at alert
    simp only [stackIsAlert, WorkerPc.isAlert, Bool.or_eq_true,
      Bool.not_eq_true', beq_eq_false_iff_ne, beq_iff_eq]
    omega
  · rename_i completed
    cases stepped
    have past := seen completed rfl
    simp only [stackIsAlert, WorkerPc.isAlert, Bool.or_eq_true,
      Bool.not_eq_true', beq_eq_false_iff_ne, beq_iff_eq]
    omega
  · rename_i allDone
    split at stepped
    · rename_i leaves
      have done : allDone = true := (Bool.and_eq_true _ _ ▸ leaves).2
      subst done
      left
      simpa [WorkerPc.isAlert] using alert
    · cases stepped
      exact .inr rfl
  · cases stepped
    exact .inr rfl
  · split at stepped <;> cases stepped <;> exact .inr rfl


/-- Tasks that other threads finish do not make a worker less alert. -/
theorem stackIsAlert_mono {shared following : Shared config}
    {stack : List (Frame config)}
    (alert : stackIsAlert shared stack = true)
    (unbalanced : shared.completed ≠ shared.submitted)
    (sameSubmitted : following.submitted = shared.submitted)
    (moreCompleted : shared.completed ≤ following.completed) :
    stackIsAlert following stack = true := by
  unfold stackIsAlert at alert ⊢
  split at alert
  · cases alert
  · rename_i pc
    cases pc with
    | sawSubmitted submitted =>
        simp only [WorkerPc.isAlert, Bool.or_eq_true, decide_eq_true_eq]
          at alert ⊢
        omega
    | loadFlag allDone =>
        simp only [WorkerPc.isAlert, Bool.or_eq_true, Bool.not_eq_true',
          beq_iff_eq, unbalanced, or_false] at alert
        simp [WorkerPc.isAlert, alert]
    | _ => rfl
  · rfl

/-! ## Steps of the node -/

theorem Event.completed_le_enter (event : Event) (books : Books) :
    books.completed ≤ (event.enter config books).completed := by
  cases event with
  | finish => exact Nat.le_succ _
  | _ => exact Nat.le_refl _

theorem completed_le_of_step {state following : State config}
    {action : Action}
    (stepped : (node config).step state action = some following) :
    state.shared.completed ≤ following.shared.completed := by
  obtain ⟨event, happens⟩ := step_happens stepped
  have entered : following.shared.completed =
      (event.enter config state.shared.books).completed :=
    congrArg Books.completed happens.books
  rw [entered]
  exact event.completed_le_enter state.shared.books

theorem completed_le_submitted {state : State config}
    (reached : (node config).Reachable state) :
    state.shared.completed ≤ state.shared.submitted :=
  (node_ledger reached).1

/-- What the workers go by. -/
structure Attentive (state : State config) : Prop where
  seen : ∀ thread ∈ state.threads, thread.role.isWorker = true →
    ∀ completed, thread.stack = [.worker (.sawCompleted completed)] →
      completed ≤ state.shared.completed
  guarded : state.shared.shutdownFlag = true → state.Guarded

/-- A worker in its loop has read `completed_` as it was before. -/
theorem WorkerPc.sawCompleted_of_step {shared following : Shared config}
    {worker : Fin config.workers} {completedFirst misses : Bool}
    {pc : WorkerPc config} {completed : Nat}
    (stepped : pc.step shared worker completedFirst misses =
      (following, [.worker (.sawCompleted completed)])) :
    completed = shared.completed := by
  unfold WorkerPc.step at stepped
  split at stepped
  · cases completedFirst <;> cases stepped
    rfl
  · cases stepped
  · cases stepped
  · split at stepped <;> cases stepped
  · cases stepped
  · split at stepped <;> cases stepped

theorem State.Guarded.of_looping {state : State config} {index : Nat}
    {thread : Thread config} {pc : WorkerPc config}
    {following : Shared config} {stack : List (Frame config)}
    {worker : Fin config.workers} {fails : Bool}
    (guarded : state.Guarded) (attentive : Attentive state)
    (ordered : state.shared.completed ≤ state.shared.submitted)
    (found : state.threads[index]? = some thread)
    (isWorker : thread.role.isWorker = true)
    (holds : thread.stack = [.worker pc])
    (stepped : pc.step state.shared worker fails fails =
      (following, stack)) :
    State.Guarded
      { shared := following
        threads := state.threads.set index { thread with stack } } := by
  have sameBooks := pc.step_books state.shared worker fails fails
  rw [stepped] at sameBooks
  have sameSubmitted : following.submitted = state.shared.submitted :=
    congrArg Books.submitted sameBooks
  have sameCompleted : following.completed = state.shared.completed :=
    congrArg Books.completed sameBooks
  unfold State.Guarded
  rw [sameSubmitted, sameCompleted]
  by_cases balanced : state.shared.completed = state.shared.submitted
  · exact .inl balanced
  · have watched := guarded.resolve_left balanced
    obtain ⟨other, member, alsoWorker, alert⟩ :=
      State.isWatched_iff.mp watched
    rcases mem_set_of_mem { thread with stack } found member with rfl | stays
    · rw [holds] at alert
      have seen : ∀ completed, pc = .sawCompleted completed →
          completed ≤ state.shared.completed := by
        rintro completed rfl
        exact attentive.seen other member isWorker completed holds
      have alertNow := (WorkerPc.isAlert_step alert ordered seen
        stepped).resolve_left balanced
      right
      exact State.isWatched_iff.mpr
        ⟨{ other with stack }, mem_set_self _ found, isWorker, alertNow⟩
    · right
      refine State.isWatched_iff.mpr ⟨other, stays, alsoWorker, ?_⟩
      exact stackIsAlert_mono alert balanced sameSubmitted sameCompleted.ge

/-- Whatever a worker with a task does, it will load the counters again. -/
theorem State.Guarded.of_busy {state : State config} {index : Nat}
    {thread : Thread config} {following : Shared config}
    {frames : List (Frame config)}
    (found : state.threads[index]? = some thread)
    (isWorker : thread.role.isWorker = true)
    (areTasks : ∀ frame ∈ frames, frame.isWorker = false) :
    State.Guarded
      { shared := following
        threads := state.threads.set index
          { thread with stack := frames ++ [.worker .loading] } } := by
  right
  refine State.isWatched_iff.mpr
    ⟨{ thread with stack := frames ++ [.worker .loading] },
      mem_set_self _ found, isWorker, ?_⟩
  exact stackIsAlert_of_frames following areTasks

/-- Other threads only complete tasks. -/
theorem State.Guarded.of_outside {state : State config} {index : Nat}
    {thread : Thread config} {following : Shared config}
    {stack : List (Frame config)}
    (guarded : state.Guarded)
    (found : state.threads[index]? = some thread)
    (outside : thread.role.isWorker = false)
    (ordered : following.completed ≤ following.submitted)
    (sameSubmitted : following.submitted = state.shared.submitted)
    (moreCompleted : state.shared.completed ≤ following.completed) :
    State.Guarded
      { shared := following
        threads := state.threads.set index { thread with stack } } := by
  by_cases balanced : state.shared.completed = state.shared.submitted
  · left
    simp only
    omega
  · have watched := guarded.resolve_left balanced
    obtain ⟨other, member, isWorker, alert⟩ :=
      State.isWatched_iff.mp watched
    right
    rcases mem_set_of_mem { thread with stack } found member with rfl | stays
    · rw [outside] at isWorker
      cases isWorker
    · refine State.isWatched_iff.mpr ⟨other, stays, isWorker, ?_⟩
      exact stackIsAlert_mono alert balanced sameSubmitted moreCompleted

/-- What a worker loads is recent. -/
theorem Attentive.seen_next {state following : State config}
    {action : Action}
    (attentive : Attentive state) (working : Working state)
    (stepped : (node config).step state action = some following) :
    ∀ thread ∈ following.threads, thread.role.isWorker = true →
      ∀ completed, thread.stack = [.worker (.sawCompleted completed)] →
        completed ≤ following.shared.completed := by
  have grows := completed_le_of_step stepped
  have before : ∀ thread ∈ state.threads, thread.role.isWorker = true →
      ∀ completed, thread.stack = [.worker (.sawCompleted completed)] →
        completed ≤ following.shared.completed :=
    fun thread member isWorker completed holds =>
      Nat.le_trans (attentive.seen thread member isWorker completed holds)
        grows
  cases step_stepped stepped with
  | tick => exact before
  | stop => exact before
  | shutdown => exact before
  | @quit index thread found _ _ _ =>
      intro other inside isWorker completed holds
      rcases List.mem_or_eq_of_mem_set inside with old | rfl
      · exact before other old isWorker completed holds
      · exact before thread (List.mem_of_getElem? found) isWorker completed
          holds
  | @move index thread move shared stack found _ _ stacked =>
      intro other inside isWorker completed holds
      rcases List.mem_or_eq_of_mem_set inside with old | rfl
      · exact before other old isWorker completed holds
      · have posture := working.postures thread
          (List.mem_of_getElem? found) isWorker
        generalize stands : thread.stack = earlier at posture
        cases posture with
        | exited => exact absurd stands (stacked.not_exited isWorker)
        | looping pc =>
            obtain ⟨worker, fails, advanced⟩ := stacked.of_looping stands
            obtain rfl : stack = [.worker (.sawCompleted completed)] := holds
            rw [WorkerPc.sawCompleted_of_step advanced]
            exact grows
        | busy top rest notWorker others =>
            obtain ⟨frames, rfl, _⟩ :=
              stacked.of_busy stands notWorker others
            cases frames with
            | nil => cases holds
            | cons => simp at holds

theorem Attentive.guarded_next {state following : State config}
    {action : Action}
    (attentive : Attentive state)
    (reached : (node config).Reachable state)
    (timely : Timely state action)
    (stepped : (node config).step state action = some following)
    (flagged : following.shared.shutdownFlag = true) :
    following.Guarded := by
  have working := working_of_reachable reached
  have grows := completed_le_of_step stepped
  have ordered := completed_le_submitted (reached.next stepped)
  have ownWork := timely.1.2
  cases step_stepped stepped with
  | tick => exact attentive.guarded flagged
  | stop => exact attentive.guarded flagged
  | shutdown =>
      cases already : state.shared.shutdownFlag with
      | true => exact attentive.guarded already
      | false => exact .inr (timely.2 rfl already)
  | @quit index thread found isService _ _ =>
      rcases attentive.guarded flagged with balanced | watched
      · exact .inl balanced
      · obtain ⟨other, member, isWorker, alert⟩ :=
          State.isWatched_iff.mp watched
        right
        rcases mem_set_of_mem { thread with finished := true } found member
          with rfl | stays
        · exact State.isWatched_iff.mpr
            ⟨{ other with finished := true }, mem_set_self _ found, isWorker,
              alert⟩
        · exact State.isWatched_iff.mpr ⟨other, stays, isWorker, alert⟩
  | @move index thread move shared stack found _ _ stacked =>
      have already : state.shared.shutdownFlag = true :=
        stacked.flag.symm.trans flagged
      have guarded := attentive.guarded already
      cases isWorker : thread.role.isWorker with
      | false =>
          have sameSubmitted : shared.submitted = state.shared.submitted := by
            have inside := ownWork already
            have computed : state.step (.move index move) = some _ := stepped
            simpa [State.submitsOutside, found, computed, isWorker]
              using inside
          exact guarded.of_outside found isWorker ordered sameSubmitted grows
      | true =>
          have posture := working.postures thread
            (List.mem_of_getElem? found) isWorker
          generalize stands : thread.stack = earlier at posture
          cases posture with
          | exited => exact absurd stands (stacked.not_exited isWorker)
          | looping pc =>
              obtain ⟨worker, fails, advanced⟩ := stacked.of_looping stands
              exact guarded.of_looping attentive
                (completed_le_submitted reached) found isWorker stands
                advanced
          | busy top rest notWorker others =>
              obtain ⟨frames, rfl, areTasks⟩ :=
                stacked.of_busy stands notWorker others
              exact .of_busy found isWorker areTasks

theorem attentive_of_reachable {state : State config}
    (reached : (node config).ReachableUnder Timely state) :
    Attentive state := by
  induction reached with
  | start isInitial =>
      refine ⟨?_, ?_⟩
      · intro thread member _ completed holds
        rw [(State.Initial.threads isInitial thread member).1] at holds
        generalize thread.role = role at holds
        cases role <;> cases holds
      · intro flagged
        rw [State.Initial.shared isInitial] at flagged
        cases flagged
  | next earlier timely stepped inductionHypothesis =>
      have reached := earlier.reachable
      exact ⟨inductionHypothesis.seen_next (working_of_reachable reached)
        stepped, inductionHypothesis.guarded_next reached timely stepped⟩

/-! ## Executed tasks -/

/-- Every counted task has been executed or is still here. -/
structure Accounted (books : Books) (tokens : List Token) : Prop where
  tasks : ∀ task, .counted task ∈ books.history →
    .executed task.taskId ∈ books.history ∨
      ∃ place, ⟨place, task⟩ ∈ tokens ∧ place.isPending = true
  noneReaped : ∀ task, ⟨.reaped, task⟩ ∉ tokens

/-- Without outstanding tasks no token is at another node. -/
theorem not_outstanding_of_nil {state : State config}
    (atHome : state.shared.outstanding = []) (task : Task) :
    ⟨.outstanding, task⟩ ∉ state.tokens := by
  intro member
  have bound : away ⟨.outstanding, task⟩ ≤ total away state.tokens :=
    le_total_of_mem member
  rw [state.total_away, atHome] at bound
  cases bound

theorem Accounted.kept {state following : State config} {action : Action}
    {event : Event}
    (accounted : Accounted state.shared.books state.tokens)
    (balanced : Balanced state.shared.books state.tokens)
    (atHome : state.shared.outstanding = [])
    (happens : Happens action event state following) :
    Accounted (event.enter config state.shared.books) following.tokens := by
  have noneOutstanding := not_outstanding_of_nil atHome
  refine ⟨?_, ?_⟩
  · intro task counted
    rcases Event.counted_of_enter counted with old | ⟨site, portable, rfl⟩
    · rcases accounted.tasks task old with done | ⟨place, held, pending⟩
      · exact .inl (Event.mem_history_enter config event _ done)
      · rcases happens.moves.mem_or_removed held with stays | isRemoved
        · exact .inr ⟨place, stays, pending⟩
        · rcases Event.pending_removed isRemoved pending with
            ⟨target, isAdded, stillPending⟩ | rfl | rfl | rfl | rfl
          · exact .inr ⟨target, happens.gained isAdded, stillPending⟩
          · left
            simp [Event.enter, Books.remember]
          · exact absurd (happens.held (List.mem_singleton_self _))
              (noneOutstanding task)
          · exact absurd (happens.held (List.mem_singleton_self _))
              (accounted.noneReaped task)
          · exact (balanced.not_trackTwice happens).elim
    · right
      exact ⟨.counted site portable,
        happens.gained (List.mem_singleton_self _), rfl⟩
  · intro task member
    rcases happens.moves.mem member with old | isAdded
    · exact accounted.noneReaped task old
    · cases Event.yields_of_added isAdded with
      | moved isRemoved leads =>
          cases leads
          exact noneOutstanding task (happens.held isRemoved)

theorem accounted_of_reachable {state : State config}
    (reached : (node config).ReachableUnder Timely state) :
    Accounted state.shared.books state.tokens := by
  refine invariant_of_balanced_events Accounted ?_ ?_ reached
  · exact ⟨fun _ counted => (List.not_mem_nil counted).elim,
      fun _ => List.not_mem_nil⟩
  · intro state following action event balanced accounted timely happens
    exact accounted.kept balanced timely.1.1 happens

/-! ## Draining -/

/-- A queued task is a token. -/
theorem mem_tokens_of_queued {state : State config} {queue : Queue config}
    {task : Task} (member : task ∈ state.shared.queues queue) :
    ⟨.queued queue.isPool, task⟩ ∈ state.tokens := by
  unfold State.tokens Shared.tokens
  simp only [List.mem_append]
  refine .inl (.inl (.inl (.inl ?_)))
  refine List.mem_flatMap.mpr ⟨queue, Queue.mem_all queue, ?_⟩
  exact List.mem_map_of_mem member

/-- Every worker has returned from `Worker::run`. -/
def State.AllExited (state : State config) : Prop :=
  ∀ thread ∈ state.threads, thread.role.isWorker = true → thread.stack = []

instance (state : State config) : Decidable state.AllExited :=
  inferInstanceAs (Decidable (∀ thread ∈ state.threads, _))

/-- Nothing is queued, and every task that was counted has been executed. -/
structure State.Drained (state : State config) : Prop where
  queues : ∀ queue, state.shared.queues queue = []
  tasks : ∀ task, .counted task ∈ state.shared.history →
    .executed task.taskId ∈ state.shared.history

/-- If some worker is alert when the flag is stored, the workers leave nothing
behind. -/
theorem shutdown_drains {state : State config}
    (reached : (node config).ReachableUnder Timely state)
    (allExited : state.AllExited) : state.Drained := by
  have working := working_of_reachable reached.reachable
  have balanced : state.shared.completed = state.shared.submitted := by
    obtain ⟨first, member, isWorker⟩ := working.exists_worker
    have exited := allExited first member isWorker
    have flagged : state.shared.shutdownFlag = true := by
      by_contra unset
      have awake := working.awake (by simpa using unset)
      exact awake first member isWorker exited
    refine ((attentive_of_reachable reached).guarded flagged).resolve_right ?_
    intro watched
    obtain ⟨other, inside, alsoWorker, alert⟩ :=
      State.isWatched_iff.mp watched
    rw [allExited other inside alsoWorker] at alert
    cases alert
  have outside : ∀ token ∈ state.tokens, token.place.inLedger = false :=
    fun token => not_inLedger_of_balanced reached.reachable balanced
  refine ⟨?_, ?_⟩
  · intro queue
    refine List.eq_nil_iff_forall_not_mem.mpr fun task queued => ?_
    cases outside _ (mem_tokens_of_queued queued)
  · intro task counted
    refine ((accounted_of_reachable reached).tasks task counted).resolve_right
      ?_
    rintro ⟨place, held, pending⟩
    have settled := outside _ held
    cases place <;> simp_all [Place.isPending, Place.inLedger]

/-- A task is submitted, the flag is stored, and the task submits another. -/
def soloShutdown : List Action :=
  [Action.move 1 (.call (.submit 5))] ++ advances 1 4 ++ [Action.shutdown] ++
    advances 0 5 ++ [Action.move 0 (.call (.submit 6))] ++ advances 0 3 ++
    [Action.move 0 .bodyEnds] ++ advances 0 7 ++ [Action.move 0 .bodyEnds] ++
    advances 0 6

theorem shutdown_drains_spawned :
    ∃ state, (node soloConfig).run soloStart soloShutdown = some state ∧
      state.AllExited ∧ state.Drained ∧ state.shared.submitted = 2 := by
  have allExited : State.AllExited (Option.get
      ((node soloConfig).run soloStart soloShutdown) rfl) := by
    decide +kernel
  refine ⟨_, rfl, allExited, shutdown_drains ?_ allExited, rfl⟩
  refine Machine.ReachableUnder.run soloShutdown (.start soloStart_initial)
    rfl ?_
  decide +kernel

/-- The worker finds the counters equal, a client submits a task, the flag is
stored and the worker loads it. -/
def soloStaleExit : List Action :=
  advances 0 2 ++ [Action.move 1 (.call (.submit 5))] ++ advances 1 4 ++
    [Action.shutdown] ++ advances 0 1

theorem shutdown_loses_task :
    ∃ state, (node soloConfig).run soloStart soloStaleExit = some state ∧
      (node soloConfig).ReachableUnder OwnWork state ∧ state.AllExited ∧
        ¬ state.Drained := by
  refine ⟨_, rfl, ?_, by decide +kernel, ?_⟩
  · refine Machine.ReachableUnder.run soloStaleExit
      (.start soloStart_initial) rfl ?_
    decide +kernel
  · intro drained
    have queued := drained.queues (.injection ⟨0, soloConfig.workers_pos⟩)
    revert queued
    decide +kernel

end HydraRT.Cluster
