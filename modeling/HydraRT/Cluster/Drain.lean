import HydraRT.Cluster.Effort

/-!
# Stopping a node

`Node::stop` joins the service threads and then waits, in the destructor of
`Runtime`, for workers that leave only when the counters are equal.  Tasks at
other nodes are counted in `submitted_`, and the threads that could settle
them are gone.
-/

namespace HydraRT.Cluster

open HydraRT.Inference
open HydraRT.Lib

variable {config : NodeConfig}

/-! ## Stacks by role -/

/-- Whose stack has what on it. -/
structure Housed (state : State config) : Prop where
  finished : ∀ thread ∈ state.threads, thread.finished = true →
    thread.role.isService = true ∧ thread.stack = []
  tasks : ∀ thread ∈ state.threads, thread.role.isService = false →
    ∀ frame ∈ thread.stack, frame.isWorker = true ∨ frame.isTask = true
  loops : ∀ thread ∈ state.threads, thread.role.isWorker = false →
    ∀ frame ∈ thread.stack, frame.isWorker = false

theorem WorkerPc.step_tasks {shared following : Shared config}
    {worker : Fin config.workers} {completedFirst misses : Bool}
    {pc : WorkerPc config} {frames : List (Frame config)}
    (stepped : pc.step shared worker completedFirst misses =
      (following, frames)) :
    ∀ frame ∈ frames, frame.isWorker = true ∨ frame.isTask = true := by
  have alone : ∀ pc : WorkerPc config, ∀ frame ∈ [Frame.worker pc],
      frame.isWorker = true ∨ frame.isTask = true :=
    fun _ => List.forall_mem_singleton.mpr (.inl rfl)
  unfold WorkerPc.step at stepped
  split at stepped
  · cases stepped
    exact alone _
  · cases stepped
    exact alone _
  · cases stepped
    exact alone _
  · split at stepped
    · cases stepped
      exact List.forall_mem_nil _
    · cases stepped
      exact alone _
  · cases stepped
    exact alone _
  · split at stepped
    · cases stepped
      exact List.forall_mem_cons.mpr ⟨.inr rfl, alone _⟩
    · cases stepped
      exact alone _

/-- A worker or a client is in local calls after any of its moves. -/
theorem Stacked.tasks {shared following : Shared config}
    {thread : Thread config} {move : Move} {stack : List (Frame config)}
    (stacked : Stacked shared thread move following stack)
    (notService : thread.role.isService = false)
    (tasks : ∀ frame ∈ thread.stack,
      frame.isWorker = true ∨ frame.isTask = true) :
    ∀ frame ∈ stack, frame.isWorker = true ∨ frame.isTask = true := by
  cases stacked with
  | @advance fails frame below frames _ holds advanced =>
      rw [holds] at tasks
      obtain ⟨first, others⟩ := List.forall_mem_cons.mp tasks
      refine List.forall_mem_append.mpr ⟨?_, others⟩
      rcases first with isWorker | isTask
      · cases frame with
        | worker pc =>
            obtain ⟨worker, _, result⟩ := Option.map_eq_some_iff.mp advanced
            exact WorkerPc.step_tasks result
        | _ => cases isWorker
      · exact fun new member =>
          .inr (Frame.advance_isTask isTask advanced new member)
  | bodyEnds holds =>
      rw [holds] at tasks
      exact List.forall_mem_cons.mpr
        ⟨.inr rfl, (List.forall_mem_cons.mp tasks).2⟩
  | help holds callsOut =>
      rw [holds] at tasks
      exact List.forall_mem_cons.mpr ⟨.inr rfl, tasks⟩
  | call holds callsOut started =>
      rw [holds] at tasks
      exact List.forall_mem_cons.mpr
        ⟨.inr rfl, (List.forall_mem_cons.mp tasks).2⟩
  | begin empty begins =>
      cases role : thread.role with
      | client =>
          rw [role] at begins
          cases move with
          | call call =>
              simp only [Role.begin] at begins
              split at begins
              · cases begins
                exact List.forall_mem_singleton.mpr (.inr rfl)
              · obtain ⟨begun, _, result⟩ :=
                  Option.map_eq_some_iff.mp begins
                cases result
                exact List.forall_mem_singleton.mpr (.inr rfl)
          | _ => cases begins
      | worker index =>
          rw [role] at begins
          cases begins
      | _ =>
          rw [role] at notService
          cases notService

/-- No thread begins with the loop. -/
theorem Role.begin_isWorker {shared following : Shared config}
    {role : Role config} {move : Move} {frames : List (Frame config)}
    (begins : role.begin shared move = some (following, frames)) :
    ∀ frame ∈ frames, frame.isWorker = false := by
  unfold Role.begin at begins
  split at begins
  · split at begins
    · cases begins
      exact List.forall_mem_singleton.mpr rfl
    · obtain ⟨begun, _, result⟩ := Option.map_eq_some_iff.mp begins
      cases result
      exact List.forall_mem_singleton.mpr rfl
  · cases begins
    exact List.forall_mem_singleton.mpr rfl
  · split at begins
    · cases begins
      exact List.forall_mem_nil _
    · obtain ⟨entry, _, result⟩ := Option.map_eq_some_iff.mp begins
      cases result
      exact List.forall_mem_singleton.mpr rfl
  · split at begins
    · cases begins
      exact List.forall_mem_singleton.mpr rfl
    · cases begins
  · split at begins <;> cases begins
    · exact List.forall_mem_nil _
    · exact List.forall_mem_singleton.mpr rfl
  · cases begins
    exact List.forall_mem_singleton.mpr rfl
  · cases begins

/-- Only workers run the loop. -/
theorem Stacked.loops {shared following : Shared config}
    {thread : Thread config} {move : Move} {stack : List (Frame config)}
    (stacked : Stacked shared thread move following stack)
    (loops : ∀ frame ∈ thread.stack, frame.isWorker = false) :
    ∀ frame ∈ stack, frame.isWorker = false := by
  cases stacked with
  | advance holds advanced =>
      rw [holds] at loops
      obtain ⟨first, others⟩ := List.forall_mem_cons.mp loops
      exact List.forall_mem_append.mpr
        ⟨Frame.advance_isWorker first advanced, others⟩
  | bodyEnds holds =>
      rw [holds] at loops
      exact List.forall_mem_cons.mpr
        ⟨rfl, (List.forall_mem_cons.mp loops).2⟩
  | help holds callsOut =>
      rw [holds] at loops
      exact List.forall_mem_cons.mpr ⟨rfl, loops⟩
  | call holds callsOut started =>
      rw [holds] at loops
      exact List.forall_mem_cons.mpr
        ⟨rfl, (List.forall_mem_cons.mp loops).2⟩
  | begin empty begins => exact Role.begin_isWorker begins

theorem housed_of_reachable {state : State config}
    (reached : (node config).Reachable state) : Housed state := by
  refine Machine.Reachable.invariant ?_ ?_ reached
  · intro state isInitial
    refine ⟨?_, ?_, ?_⟩
    · intro thread member finished
      rw [(isInitial.threads thread member).2] at finished
      cases finished
    · intro thread member _ frame inStack
      rw [(isInitial.threads thread member).1] at inStack
      generalize thread.role = role at inStack
      cases role with
      | worker index =>
          obtain rfl := List.mem_singleton.mp inStack
          exact .inl rfl
      | _ => cases inStack
    · intro thread member notWorker frame inStack
      rw [(isInitial.threads thread member).1] at inStack
      generalize thread.role = role at inStack notWorker
      cases role with
      | worker index => cases notWorker
      | _ => cases inStack
  · intro state action following housed stepped
    cases step_stepped stepped with
    | tick => exact ⟨housed.finished, housed.tasks, housed.loops⟩
    | stop => exact ⟨housed.finished, housed.tasks, housed.loops⟩
    | shutdown => exact ⟨housed.finished, housed.tasks, housed.loops⟩
    | @quit index thread found isService empty _ =>
        have member := List.mem_of_getElem? found
        refine ⟨?_, ?_, ?_⟩ <;> intro other inside <;>
          rcases List.mem_or_eq_of_mem_set inside with old | rfl
        · exact housed.finished other old
        · exact fun _ => ⟨isService, empty⟩
        · exact housed.tasks other old
        · exact housed.tasks thread member
        · exact housed.loops other old
        · exact housed.loops thread member
    | @move index thread move shared stack found unfinished _ stacked =>
        have member := List.mem_of_getElem? found
        refine ⟨?_, ?_, ?_⟩ <;> intro other inside <;>
          rcases List.mem_or_eq_of_mem_set inside with old | rfl
        · exact housed.finished other old
        · intro finished
          exact absurd (unfinished.symm.trans finished) Bool.false_ne_true
        · exact housed.tasks other old
        · intro notService
          exact stacked.tasks notService
            (housed.tasks thread member notService)
        · exact housed.loops other old
        · intro notWorker
          exact stacked.loops (housed.loops thread member notWorker)

/-! ## Going on without the service threads -/

/-- `Node::stop` has joined its threads and reaches `runtime_.reset()`. -/
structure State.Joined (state : State config) : Prop where
  stopped : state.shared.running = false
  joined : ∀ thread ∈ state.threads, thread.role.isService = true →
    thread.finished = true
  flag : state.shared.shutdownFlag = false

/-- A thread goes on with a call that it is in: no message arrives, no pass of
the reaper begins and no client calls anew. -/
def GoesOn (state : State config) (action : Action) : Prop :=
  ∃ index move thread, action = .move index move ∧
    state.threads[index]? = some thread ∧ thread.stack ≠ []

/-- Every queue is empty and no thread is in a call, the loops of the workers
apart. -/
structure State.Idle (state : State config) : Prop where
  queues : ∀ queue, state.shared.queues queue = []
  calls : ∀ thread ∈ state.threads, ∀ frame ∈ thread.stack,
    frame.isWorker = true

/-- The local tasks and whatever they submit can be executed to the end, and
when they have been the counters are equal. -/
structure State.Drains (state : State config) : Prop where
  ends : ∀ later, (node config).ContinuesUnder GoesOn state later →
    ∃ final, (node config).ContinuesUnder GoesOn later final ∧ final.Idle
  balances : ∀ final, (node config).ContinuesUnder GoesOn state final →
    final.Idle → final.shared.completed = final.shared.submitted

/-- What continuing without the service threads keeps. -/
structure Alone (lent : List Outstanding) (state : State config) :
    Prop where
  reached : (node config).Reachable state
  joined : ∀ thread ∈ state.threads, thread.role.isService = true →
    thread.finished = true
  flag : state.shared.shutdownFlag = false
  outstanding : state.shared.outstanding = lent

/-- A thread in a call is a worker or a client. -/
theorem Alone.notService {lent : List Outstanding} {state : State config}
    {thread : Thread config} (alone : Alone lent state)
    (member : thread ∈ state.threads) (inCall : thread.stack ≠ []) :
    thread.role.isService = false := by
  by_contra isService
  have finished := alone.joined thread member (by simpa using isService)
  have housed := housed_of_reachable alone.reached
  exact inCall (housed.finished thread member finished).2

/-- A worker or a client leaves the flag and the tasks at other nodes
alone. -/
theorem Stacked.keeps {shared following : Shared config}
    {thread : Thread config} {move : Move} {stack : List (Frame config)}
    (stacked : Stacked shared thread move following stack)
    (inCall : thread.stack ≠ [])
    (tasks : ∀ frame ∈ thread.stack,
      frame.isWorker = true ∨ frame.isTask = true) :
    shared.Keeps following := by
  cases stacked with
  | @advance fails frame below frames _ holds advanced =>
      have notServe : frame.isServe = false := by
        rw [holds] at tasks
        have first := (List.forall_mem_cons.mp tasks).1
        cases frame <;> simp_all [Frame.isWorker, Frame.isTask, Frame.isServe]
      exact Frame.advance_keeps notServe advanced
  | bodyEnds => exact ⟨rfl, rfl⟩
  | help => exact ⟨rfl, rfl⟩
  | call => exact ⟨rfl, rfl⟩
  | begin empty => exact absurd empty inCall

theorem Alone.next {lent : List Outstanding}
    {state following : State config} {action : Action}
    (alone : Alone lent state) (goesOn : GoesOn state action)
    (stepped : (node config).step state action = some following) :
    Alone lent following := by
  have reached := alone.reached.next stepped
  obtain ⟨index, move, thread, rfl, found, inCall⟩ := goesOn
  have member := List.mem_of_getElem? found
  have notService := alone.notService member inCall
  have tasks := (housed_of_reachable alone.reached).tasks thread member
    notService
  cases step_stepped stepped with
  | quit alsoFound _ empty _ =>
      obtain rfl := Option.some.inj (alsoFound.symm.trans found)
      exact absurd empty inCall
  | move alsoFound unfinished _ stacked =>
      obtain rfl := Option.some.inj (alsoFound.symm.trans found)
      have kept := stacked.keeps inCall tasks
      refine ⟨reached, ?_, kept.flag.trans alone.flag,
        kept.outstanding.trans alone.outstanding⟩
      intro other inside isService
      rcases List.mem_or_eq_of_mem_set inside with old | rfl
      · exact alone.joined other old isService
      · exact absurd (notService.symm.trans isService) Bool.false_ne_true

theorem Alone.continues {lent : List Outstanding}
    {state later : State config} (alone : Alone lent state)
    (continued : (node config).ContinuesUnder GoesOn state later) :
    Alone lent later := by
  induction continued with
  | stay => exact alone
  | next _ goesOn stepped inductionHypothesis =>
      exact inductionHypothesis.next goesOn stepped

/-! ## The ledger of an idle node -/

/-- With nothing left to do here, only tasks at other nodes are open. -/
theorem State.Idle.total_debit {state : State config} (idle : state.Idle) :
    total debit state.tokens = state.shared.outstanding.length := by
  have inFrames : (state.threads.flatMap fun thread =>
      stackTokens thread.stack) = [] := by
    apply List.flatMap_eq_nil_iff.mpr
    intro thread member
    apply List.flatMap_eq_nil_iff.mpr
    intro frame inStack
    have isWorker := idle.calls thread member frame inStack
    cases frame with
    | worker pc => rfl
    | _ => cases isWorker
  simp [State.tokens, inFrames, Shared.tokens, queuedTokens, idle.queues,
    total_flatMap, owedToken, debit_mk, Place.inLedger]

theorem State.Idle.balanced_iff {state : State config} (idle : state.Idle)
    (reached : (node config).Reachable state) :
    state.shared.completed = state.shared.submitted ↔
      state.shared.outstanding = [] := by
  have balance : state.shared.submitted =
      state.shared.completed + total debit state.tokens :=
    (balanced_of_reachable reached).balance
  rw [idle.total_debit] at balance
  rw [← List.length_eq_zero_iff]
  omega

/-! ## Getting on with the work -/

theorem State.effort_set {state : State config} {index : Nat}
    {thread : Thread config} {following : Shared config}
    {below frames : List (Frame config)} {frame : Frame config}
    (found : state.threads[index]? = some thread)
    (holds : thread.stack = frame :: below)
    (lighter : Lightens state.shared following frame.effort
      (total Frame.effort frames)) :
    State.effort
        { shared := following
          threads := state.threads.set index
            { thread with stack := frames ++ below } } <
      state.effort := by
  have exchanged := total_set
    (fun thread : Thread config => total Frame.effort thread.stack) found
    { thread with stack := frames ++ below }
  simp only [holds, total_cons, total_append] at exchanged
  unfold Lightens at lighter
  simp only [State.effort]
  omega

/-- A thread in a local call gets on with it. -/
theorem Alone.call_progresses {lent : List Outstanding}
    {state : State config} {index : Nat} {thread : Thread config}
    {frame : Frame config} {below : List (Frame config)}
    (alone : Alone lent state)
    (found : state.threads[index]? = some thread)
    (holds : thread.stack = frame :: below) (isTask : frame.isTask = true) :
    ∃ later, (node config).ContinuesUnder GoesOn state later ∧
      later.effort < state.effort := by
  have member := List.mem_of_getElem? found
  have inCall : thread.stack ≠ [] := by
    rw [holds]
    exact List.cons_ne_nil _ _
  have unfinished : thread.finished = false := by
    by_contra finished
    have housed := housed_of_reachable alone.reached
    exact inCall (housed.finished thread member (by simpa using finished)).2
  rcases Frame.advances_or_runs isTask state.shared thread.role.home with
    ⟨following, frames, advanced⟩ | ⟨task, helped, rfl⟩
  · refine ⟨_, .next .stay ⟨index, .advance false, thread, rfl, found,
      inCall⟩ ?_, State.effort_set found holds
        (Frame.lightens isTask advanced)⟩
    have free : state.blocks thread (.advance false) = false := by
      refine State.blocks_of_unlocked ?_
      rw [Thread.locks, holds]
      exact Frame.locks_of_isTask isTask
    simp [node, State.step, found, unfinished, free, Thread.step, holds,
      advanced]
  · refine ⟨_, .next .stay ⟨index, .bodyEnds, thread, rfl, found, inCall⟩ ?_,
      State.effort_set found holds
        (bodyEnds_lightens state.shared task helped)⟩
    have free : state.blocks thread .bodyEnds = false :=
      State.blocks_of_unlocked rfl
    simp [node, State.step, found, unfinished, free, Thread.step, holds]

/-! ## A round of the loop -/

theorem Shared.take?_of_nil {shared : Shared config}
    {home : Option (Fin config.workers)} {queue : Queue config}
    (empty : shared.queues queue = []) :
    shared.take? home queue false = none := by
  cases queue <;> simp [Shared.take?, empty]

/-- A steal that does not miss finds what is there. -/
theorem Shared.take?_of_ne_nil {shared : Shared config}
    (home : Option (Fin config.workers)) {queue : Queue config}
    (content : shared.queues queue ≠ []) :
    ∃ task following, shared.take? home queue false =
      some (task, following) := by
  have front : ∃ task rest, shared.queues queue = task :: rest :=
    List.exists_cons_of_ne_nil content
  obtain ⟨task, rest, isFront⟩ := front
  cases queue with
  | deque owner =>
      simp only [Shared.take?]
      split
      · rw [List.getLast?_eq_some_getLast content]
        exact ⟨_, _, rfl⟩
      · rw [isFront]
        exact ⟨_, _, rfl⟩
  | _ =>
      simp only [Shared.take?, isFront]
      exact ⟨_, _, rfl⟩

/-- A round looks into every queue. -/
theorem mem_scanOrder (worker : Fin config.workers) (queue : Queue config) :
    queue ∈ scanOrder worker := by
  cases queue with
  | deque owner =>
      by_cases own : owner = worker <;> simp [scanOrder, otherWorkers, own]
  | injection index =>
      by_cases own : index = worker <;> simp [scanOrder, otherWorkers, own]
  | pool slot => simp [scanOrder, pools]

/-- The state in which a worker stands at `pc` of its loop. -/
def State.loopAt (state : State config) (index : Nat) (thread : Thread config)
    (pc : WorkerPc config) : State config :=
  { state with
    threads := state.threads.set index
      { thread with stack := [.worker pc] } }

section Round

variable {state : State config} {index : Nat} {thread : Thread config}
  {worker : Fin config.workers}

theorem State.loopAt_self {pc : WorkerPc config}
    (found : state.threads[index]? = some thread)
    (holds : thread.stack = [.worker pc]) :
    state.loopAt index thread pc = state := by
  obtain ⟨inRange, isThread⟩ := List.getElem?_eq_some_iff.mp found
  have same : { thread with stack := [.worker pc] } = thread := by
    rw [← holds]
  unfold State.loopAt
  rw [same, ← isThread, List.set_getElem_self]

theorem State.loopAt_getElem? (pc : WorkerPc config)
    (found : state.threads[index]? = some thread) :
    (state.loopAt index thread pc).threads[index]? =
      some { thread with stack := [.worker pc] } :=
  List.getElem?_set_self (List.getElem?_eq_some_iff.mp found).1

/-- One access of the loop. -/
theorem State.loopAt_step {pc : WorkerPc config} {following : Shared config}
    {frames : List (Frame config)}
    (found : state.threads[index]? = some thread)
    (unfinished : thread.finished = false)
    (home : thread.role.home = some worker)
    (stepped : pc.step state.shared worker false false =
      (following, frames)) :
    (node config).ContinuesUnder GoesOn (state.loopAt index thread pc)
      { shared := following
        threads := state.threads.set index
          { thread with stack := frames } } := by
  have foundNow := State.loopAt_getElem? pc found
  refine .next .stay ⟨index, .advance false, _, rfl, foundNow,
    List.cons_ne_nil _ _⟩ ?_
  have free : ∀ finished, (state.loopAt index thread pc).blocks
      { role := thread.role, stack := [.worker pc], finished }
      (.advance false) = false :=
    fun _ => State.blocks_of_unlocked rfl
  simp only [node, State.step, foundNow, unfinished, free, Bool.or_false,
    Bool.false_eq_true, if_false, Thread.step, Frame.advance, home,
    Option.map_some]
  simp only [State.loopAt, stepped, List.append_nil, List.set_set]

/-- Over empty queues a round comes to its end. -/
theorem State.scan_ends (remaining : List (Queue config))
    (found : state.threads[index]? = some thread)
    (unfinished : thread.finished = false)
    (home : thread.role.home = some worker)
    (empty : ∀ queue ∈ remaining, state.shared.queues queue = []) :
    (node config).ContinuesUnder GoesOn
      (state.loopAt index thread (.scan remaining))
      (state.loopAt index thread .loading) := by
  induction remaining with
  | nil => exact State.loopAt_step found unfinished home rfl
  | cons queue rest inductionHypothesis =>
      obtain ⟨first, others⟩ := List.forall_mem_cons.mp empty
      have missed : WorkerPc.step state.shared worker false false
          (.scan (queue :: rest)) =
            (state.shared, [.worker (.scan rest)]) := by
        simp [WorkerPc.step, Shared.take?_of_nil first]
      exact (State.loopAt_step found unfinished home missed).trans
        (inductionHypothesis others)

/-- A round takes the first task it finds. -/
theorem State.scan_takes (remaining : List (Queue config))
    (found : state.threads[index]? = some thread)
    (unfinished : thread.finished = false)
    (home : thread.role.home = some worker)
    (content : ∃ queue ∈ remaining, state.shared.queues queue ≠ []) :
    ∃ later, (node config).ContinuesUnder GoesOn
        (state.loopAt index thread (.scan remaining)) later ∧
      later.effort + total Frame.effort thread.stack < state.effort := by
  induction remaining with
  | nil =>
      obtain ⟨queue, inside, _⟩ := content
      cases inside
  | cons queue rest inductionHypothesis =>
      by_cases empty : state.shared.queues queue = []
      · have missed : WorkerPc.step state.shared worker false false
            (.scan (queue :: rest)) =
              (state.shared, [.worker (.scan rest)]) := by
          simp [WorkerPc.step, Shared.take?_of_nil empty]
        obtain ⟨other, inside, nonempty⟩ := content
        have inRest : other ∈ rest := by
          rcases List.mem_cons.mp inside with rfl | inRest
          · exact absurd empty nonempty
          · exact inRest
        obtain ⟨later, continued, lighter⟩ :=
          inductionHypothesis ⟨other, inRest, nonempty⟩
        exact ⟨later, (State.loopAt_step found unfinished home missed).trans
          continued, lighter⟩
      · obtain ⟨task, following, taken⟩ :=
          Shared.take?_of_ne_nil (some worker) empty
        have takes : WorkerPc.step state.shared worker false false
            (.scan (queue :: rest)) =
              (following, [.execute task false (.running none),
                .worker .loading]) := by
          simp [WorkerPc.step, taken]
        refine ⟨_, State.loopAt_step found unfinished home takes, ?_⟩
        have lighter := Shared.backlog_take? taken
        have exchanged := total_set
          (fun thread : Thread config => total Frame.effort thread.stack)
          found { thread with
            stack := [.execute task false (.running none), .worker .loading] }
        simp only [total_cons, total_nil, Frame.effort, ExecutePc.effort]
          at exchanged
        simp only [taskEffort] at lighter
        simp only [State.effort]
        omega

/-- The exit test comes before every round. -/
theorem State.starts_scan (pc : WorkerPc config)
    (found : state.threads[index]? = some thread)
    (unfinished : thread.finished = false)
    (home : thread.role.home = some worker)
    (flag : state.shared.shutdownFlag = false)
    (inTest : ∀ remaining, pc ≠ .scan remaining) :
    (node config).ContinuesUnder GoesOn (state.loopAt index thread pc)
      (state.loopAt index thread (.scan (scanOrder worker))) := by
  have fromFlag : ∀ allDone, (node config).ContinuesUnder GoesOn
      (state.loopAt index thread (.loadFlag allDone))
      (state.loopAt index thread (.scan (scanOrder worker))) := by
    intro allDone
    refine State.loopAt_step found unfinished home ?_
    simp [WorkerPc.step, flag]
  have fromSubmitted : ∀ submitted, (node config).ContinuesUnder GoesOn
      (state.loopAt index thread (.sawSubmitted submitted))
      (state.loopAt index thread (.scan (scanOrder worker))) := by
    intro submitted
    exact (State.loopAt_step found unfinished home rfl).trans (fromFlag _)
  cases pc with
  | loading =>
      exact (State.loopAt_step found unfinished home rfl).trans
        (fromSubmitted _)
  | sawSubmitted submitted => exact fromSubmitted submitted
  | sawCompleted completed =>
      exact (State.loopAt_step found unfinished home rfl).trans (fromFlag _)
  | loadFlag allDone => exact fromFlag allDone
  | scan remaining => exact absurd rfl (inTest remaining)

/-- A worker in its loop takes a task if there is one. -/
theorem State.loop_takes (pc : WorkerPc config)
    (found : state.threads[index]? = some thread)
    (holds : thread.stack = [.worker pc])
    (unfinished : thread.finished = false)
    (home : thread.role.home = some worker)
    (flag : state.shared.shutdownFlag = false)
    {queue : Queue config} (content : state.shared.queues queue ≠ []) :
    ∃ later, (node config).ContinuesUnder GoesOn state later ∧
      later.effort < state.effort := by
  have here : state.loopAt index thread pc = state :=
    State.loopAt_self found holds
  have noEffort : total Frame.effort thread.stack = 0 := by
    rw [holds]
    rfl
  have fromRound : ∀ {remaining : List (Queue config)},
      (node config).ContinuesUnder GoesOn state
        (state.loopAt index thread (.scan remaining)) →
      (∃ queue ∈ remaining, state.shared.queues queue ≠ []) →
      ∃ later, (node config).ContinuesUnder GoesOn state later ∧
        later.effort < state.effort := by
    intro remaining reaches nonempty
    obtain ⟨later, continued, lighter⟩ := State.scan_takes remaining found
      unfinished home nonempty
    rw [noEffort] at lighter
    exact ⟨later, reaches.trans continued, lighter⟩
  have everywhere : ∃ other ∈ scanOrder worker,
      state.shared.queues other ≠ [] :=
    ⟨queue, mem_scanOrder worker queue, content⟩
  by_cases scanning : ∃ remaining, pc = .scan remaining
  · obtain ⟨remaining, rfl⟩ := scanning
    by_cases nonempty : ∃ other ∈ remaining, state.shared.queues other ≠ []
    · refine fromRound ?_ nonempty
      rw [here]
      exact .stay
    · -- what is left of this round is empty, so the next one finds the task
      push Not at nonempty
      refine fromRound ?_ everywhere
      have ended := State.scan_ends remaining found unfinished home nonempty
      rw [here] at ended
      exact ended.trans (State.starts_scan .loading found unfinished home
        flag nofun)
  · refine fromRound ?_ everywhere
    have started := State.starts_scan pc found unfinished home flag
      (not_exists.mp scanning)
    rw [here] at started
    exact started

end Round

/-! ## Draining -/

/-- Without a task in progress only the loops are left. -/
theorem Alone.loops_of_no_task {lent : List Outstanding}
    {state : State config} (alone : Alone lent state)
    (noTask : ¬ ∃ thread ∈ state.threads, ∃ frame below,
      thread.stack = frame :: below ∧ frame.isTask = true) :
    ∀ thread ∈ state.threads, ∀ frame ∈ thread.stack,
      frame.isWorker = true := by
  have housed := housed_of_reachable alone.reached
  have working := working_of_reachable alone.reached
  intro thread member
  cases holds : thread.stack with
  | nil => exact List.forall_mem_nil _
  | cons first below =>
      have notService := alone.notService member (by simp [holds])
      have firstLoops : first.isWorker = true := by
        have tasks := housed.tasks thread member notService
        rw [holds] at tasks
        refine (List.forall_mem_cons.mp tasks).1.resolve_right ?_
        exact fun isTask => noTask ⟨thread, member, first, below, holds,
          isTask⟩
      have isWorker : thread.role.isWorker = true := by
        by_contra notWorker
        have noLoop := housed.loops thread member (by simpa using notWorker)
        rw [holds] at noLoop
        have firstNot := (List.forall_mem_cons.mp noLoop).1
        exact absurd (firstNot.symm.trans firstLoops) Bool.false_ne_true
      have posture := working.postures thread member isWorker
      rw [holds] at posture
      cases posture with
      | looping pc => exact List.forall_mem_singleton.mpr rfl
      | busy top rest notWorker others =>
          exact absurd (notWorker.symm.trans firstLoops) Bool.false_ne_true

/-- When only the loops are left, a worker takes the next task. -/
theorem Alone.loop_progresses {lent : List Outstanding}
    {state : State config} (alone : Alone lent state)
    (loops : ∀ thread ∈ state.threads, ∀ frame ∈ thread.stack,
      frame.isWorker = true)
    {queue : Queue config} (content : state.shared.queues queue ≠ []) :
    ∃ later, (node config).ContinuesUnder GoesOn state later ∧
      later.effort < state.effort := by
  have housed := housed_of_reachable alone.reached
  have working := working_of_reachable alone.reached
  obtain ⟨thread, member, isWorker⟩ := working.exists_worker
  obtain ⟨index, found⟩ := List.mem_iff_getElem?.mp member
  obtain ⟨worker, role⟩ : ∃ worker, thread.role = .worker worker := by
    cases role : thread.role with
    | worker worker => exact ⟨worker, rfl⟩
    | _ =>
        rw [role] at isWorker
        cases isWorker
  have unfinished : thread.finished = false := by
    by_contra finished
    have isService := (housed.finished thread member
      (by simpa using finished)).1
    rw [role] at isService
    cases isService
  have posture := working.postures thread member isWorker
  have awake := working.awake alone.flag thread member isWorker
  have looping := loops thread member
  generalize holds : thread.stack = stack at posture awake looping
  cases posture with
  | exited => exact absurd rfl awake
  | looping pc =>
      exact State.loop_takes pc found holds unfinished (by rw [role]; rfl)
        alone.flag content
  | busy top rest notWorker others =>
      have topLoops := (List.forall_mem_cons.mp looping).1
      exact absurd (notWorker.symm.trans topLoops) Bool.false_ne_true

/-- Without service threads the local work comes to its end. -/
theorem Alone.becomes_idle {lent : List Outstanding} {state : State config}
    (alone : Alone lent state) :
    ∃ final, (node config).ContinuesUnder GoesOn state final ∧
      final.Idle := by
  refine Machine.ContinuesUnder.of_rank State.effort ?_ alone
  intro state alone
  suffices progress : state.Idle ∨ ∃ later,
      (node config).ContinuesUnder GoesOn state later ∧
        later.effort < state.effort by
    refine progress.imp_right ?_
    rintro ⟨later, continued, lighter⟩
    exact ⟨later, continued, alone.continues continued, lighter⟩
  by_cases inCall : ∃ thread ∈ state.threads, ∃ frame below,
      thread.stack = frame :: below ∧ frame.isTask = true
  · obtain ⟨thread, member, frame, below, holds, isTask⟩ := inCall
    obtain ⟨index, found⟩ := List.mem_iff_getElem?.mp member
    exact .inr (alone.call_progresses found holds isTask)
  · have loops := alone.loops_of_no_task inCall
    by_cases content : ∃ queue, state.shared.queues queue ≠ []
    · obtain ⟨queue, nonempty⟩ := content
      exact .inr (alone.loop_progresses loops nonempty)
    · left
      push Not at content
      exact ⟨content, loops⟩

theorem State.Joined.alone {state : State config}
    (reached : (node config).Reachable state) (joined : state.Joined) :
    Alone state.shared.outstanding state :=
  ⟨reached, joined.joined, joined.flag, rfl⟩

/-- Tasks at other nodes keep the counters apart for good. -/
theorem State.Drains.outstanding_eq_nil {state : State config}
    (reached : (node config).Reachable state) (joined : state.Joined)
    (drains : state.Drains) : state.shared.outstanding = [] := by
  obtain ⟨final, continued, idle⟩ := drains.ends state .stay
  have balanced := drains.balances final continued idle
  have alone := (joined.alone reached).continues continued
  rw [← alone.outstanding]
  exact (idle.balanced_iff alone.reached).mp balanced

/-- When `Node::stop` has joined its threads, executing the local tasks makes
the counters equal exactly if no task is at another node. -/
theorem stop_drains_iff {state : State config}
    (reached : (node config).Reachable state) (joined : state.Joined) :
    state.Drains ↔ state.shared.outstanding = [] := by
  refine ⟨fun drains => drains.outstanding_eq_nil reached joined, ?_⟩
  intro atHome
  have alone := joined.alone reached
  refine ⟨?_, ?_⟩
  · intro later continued
    exact (alone.continues continued).becomes_idle
  · intro final continued idle
    have aloneStill := alone.continues continued
    refine (idle.balanced_iff aloneStill.reached).mpr ?_
    exact aloneStill.outstanding.trans atHome

/-- The service threads leave their loops. -/
def soloStop : List Action :=
  [.stop, .move 2 .quit, .move 3 .quit, .move 4 .quit, .move 5 .quit]

/-- The node is stopped with a task of its own in a queue. -/
def soloStopQueued : List Action :=
  [Action.move 1 (.call (.submit 5))] ++ advances 1 4 ++ soloStop

theorem stop_drains_queued :
    ∃ state, (node soloConfig).run soloStart soloStopQueued = some state ∧
      state.Joined ∧ state.Drains ∧
        state.shared.completed < state.shared.submitted := by
  have joined : State.Joined (Option.get
      ((node soloConfig).run soloStart soloStopQueued) rfl) :=
    ⟨rfl, by decide, rfl⟩
  refine ⟨_, rfl, joined, ?_, by decide⟩
  have reached := Machine.reachable_of_run soloStopQueued soloStart_initial
    rfl
  exact (stop_drains_iff reached joined).mpr rfl

/-- The node is stopped while a thief has its only task. -/
def soloStopLent : List Action :=
  [Action.move 1 (.call (.submitPortable 1 noStage 1))] ++
    advances 1 3 ++ [Action.move 2 (.request ⟨2, 4, .generic⟩)] ++
    advances 2 19 ++ soloStop

theorem stop_never_drains_lent :
    ∃ state, (node soloConfig).run soloStart soloStopLent = some state ∧
      state.Joined ∧ ¬ state.Drains := by
  have joined : State.Joined (Option.get
      ((node soloConfig).run soloStart soloStopLent) rfl) :=
    ⟨rfl, by decide, rfl⟩
  refine ⟨_, rfl, joined, fun drains => ?_⟩
  have reached := Machine.reachable_of_run soloStopLent soloStart_initial rfl
  have atHome := drains.outstanding_eq_nil reached joined
  cases atHome

end HydraRT.Cluster
