import HydraRT.Lib.Transition
import HydraRT.Runtime.TaskRegistry

/-!
# Several runtimes in one process

Any number of `Runtime` objects share the threads of a process.  Which deque a
submission or a helping thread uses is decided by the thread-local
`t_current_queue`, which knows nothing of the runtime that is called.

A thread is a stack of calls.  Worker threads run `Worker::run` of their own
runtime; the others are application code.  The body of a task is application
code, and so is the task observer, which runs right after it on the same
thread: both may call any runtime.  What else a task carries does not matter
here; every task remembers the runtime it was submitted to.
-/

namespace HydraRT.Process

open HydraRT.Lib

structure Config where
  /-- The runtimes with their numbers of workers. -/
  runtimes : Nat
  workers : Fin runtimes → Nat
  workers_pos : ∀ runtime, 0 < workers runtime

variable {config : Config}

abbrev RuntimeId (config : Config) := Fin config.runtimes

/-- The worker whose deque `t_current_queue` points to. -/
structure Home (config : Config) where
  runtime : RuntimeId config
  worker : Nat
  deriving DecidableEq, Repr

/-- The places a task can be queued in. -/
inductive Queue (config : Config) where
  | deque (home : Home config)
  | injection (runtime : RuntimeId config) (index : Nat)
  | pool (runtime : RuntimeId config) (slot : Fin TaskType.count)
  deriving DecidableEq, Repr

/-- The runtime that owns the queue. -/
def Queue.runtime : Queue config → RuntimeId config
  | .deque home => home.runtime
  | .injection runtime _ | .pool runtime _ => runtime

structure Task (config : Config) where
  taskId : Nat := 0
  /-- The runtime whose submit function was called. -/
  submittedTo : RuntimeId config
  deriving DecidableEq, Repr

/-- The members of one `Runtime` besides its queues. -/
structure Counters where
  nextId : Nat := 1
  submitted : Nat := 0
  completed : Nat := 0
  injectionRr : UInt32 := 0
  deriving DecidableEq, Repr

structure Shared (config : Config) where
  queues : Queue config → List (Task config) := fun _ => []
  counters : RuntimeId config → Counters := fun _ => { }
  /-- The tasks that `finish_one` was called for. -/
  finished : List (Task config) := []

/-! ## Calls in progress -/

inductive SubmitPc (config : Config) where
  /-- Before `next_id_++`. -/
  | takeId
  /-- Before `submitted_.fetch_add`. -/
  | count
  /-- Before `injection_rr_.fetch_add`. -/
  | route
  | push (queue : Queue config)
  deriving DecidableEq, Repr

/-- `submit`, `submit_task` and `submit_portable` of a runtime. -/
structure SubmitCall (config : Config) where
  task : Task config
  pool : Option (Fin TaskType.count) := none
  pc : SubmitPc config := .takeId
  deriving DecidableEq, Repr

inductive Frame (config : Config) where
  /-- `Worker::run`, with the queues it has not tried in this round. -/
  | worker (remaining : List (Queue config))
  /-- `try_execute_one` of a runtime. -/
  | help (target : RuntimeId config) (remaining : List (Queue config))
  /-- A task that `runtime` executes, with the submission its body is
  making. -/
  | execute (runtime : RuntimeId config) (task : Task config)
      (call : Option (SubmitCall config))
  /-- Before `completed_.fetch_add` in `finish_one` of `runtime`. -/
  | finish (runtime : RuntimeId config) (task : Task config)
  | call (call : SubmitCall config)
  deriving DecidableEq, Repr

structure Thread (config : Config) where
  /-- `t_current_queue`. -/
  home : Option (Home config)
  stack : List (Frame config)
  deriving DecidableEq, Repr

structure State (config : Config) where
  shared : Shared config
  threads : List (Thread config)

/-- The functions of a runtime that application code may call. -/
inductive Call where
  | submit
  | submitTask
  | spawn
  | submitPortable (slot : Fin TaskType.count)
  | tryExecuteOne
  deriving DecidableEq, Repr

inductive Move (config : Config) where
  /-- The next access of the innermost call.  If `misses`, a steal fails. -/
  | advance (misses : Bool)
  /-- Application code calls a function of `target`. -/
  | call (target : RuntimeId config) (call : Call)
  /-- The body of the innermost task ends. -/
  | bodyEnds
  deriving DecidableEq, Repr

structure Action (config : Config) where
  thread : Nat
  move : Move config
  deriving DecidableEq, Repr

/-! ## Steps -/

namespace Shared

def put (shared : Shared config) (queue : Queue config)
    (tasks : List (Task config)) : Shared config :=
  { shared with queues := Function.update shared.queues queue tasks }

def update (shared : Shared config) (runtime : RuntimeId config)
    (counters : Counters) : Shared config :=
  { shared with
    counters := Function.update shared.counters runtime counters }

/-- `WorkDeque::pop` for the owner of a deque, `WorkDeque::steal` for others,
and `InjectionQueue::pop`. -/
def take? (shared : Shared config) (home : Option (Home config))
    (queue : Queue config) (misses : Bool) :
    Option (Task config × Shared config) :=
  match queue with
  | .deque owner =>
      if home = some owner then
        match (shared.queues queue).getLast? with
        | none => none
        | some task =>
            some (task, shared.put queue (shared.queues queue).dropLast)
      else if misses then none
      else
        match shared.queues queue with
        | [] => none
        | task :: rest => some (task, shared.put queue rest)
  | _ =>
      match shared.queues queue with
      | [] => none
      | task :: rest => some (task, shared.put queue rest)

/-- `completed_.fetch_add` in `finish_one` of `runtime`. -/
def finishOne (shared : Shared config) (runtime : RuntimeId config)
    (task : Task config) : Shared config :=
  let counters := shared.counters runtime
  { shared.update runtime
      { counters with completed := counters.completed + 1 } with
    finished := shared.finished ++ [task] }

end Shared

def injections (runtime : RuntimeId config) : List (Queue config) :=
  (List.range (config.workers runtime)).map (.injection runtime)

def pools (runtime : RuntimeId config) : List (Queue config) :=
  (List.finRange TaskType.count).map (.pool runtime)

def deques (runtime : RuntimeId config) : List (Queue config) :=
  (List.range (config.workers runtime)).map fun worker =>
    .deque ⟨runtime, worker⟩

/-- One round of `Worker::run`. -/
def scanOrder (home : Home config) : List (Queue config) :=
  [.deque home, .injection home.runtime home.worker] ++ pools home.runtime ++
    (injections home.runtime).filter
      (· ≠ .injection home.runtime home.worker) ++
    (deques home.runtime).filter (· ≠ .deque home)

/-- `try_execute_one` of `target` on a thread with this `t_current_queue`. -/
def helpOrder (home : Option (Home config)) (target : RuntimeId config) :
    List (Queue config) :=
  home.toList.map .deque ++ injections target ++ pools target ++
    (deques target).filter (fun queue => some queue ≠ home.map .deque)

/-- The rest of the call, or nothing if it has returned. -/
def SubmitCall.step (shared : Shared config) (home : Option (Home config))
    (call : SubmitCall config) :
    Shared config × Option (SubmitCall config) :=
  let target := call.task.submittedTo
  let counters := shared.counters target
  match call.pc with
  | .takeId =>
      (shared.update target { counters with nextId := counters.nextId + 1 },
        some { call with
          task := { call.task with taskId := counters.nextId }
          pc := .count })
  | .count =>
      (shared.update target
          { counters with submitted := counters.submitted + 1 },
        some { call with
          pc :=
            match call.pool, home with
            | some slot, _ => .push (.pool target slot)
            -- the deque of the calling thread, whatever its runtime
            | none, some owner => .push (.deque owner)
            | none, none => .route })
  | .route =>
      (shared.update target
          { counters with injectionRr := counters.injectionRr + 1 },
        some { call with
          pc := .push (.injection target
            (counters.injectionRr.toNat % config.workers target)) })
  | .push queue =>
      (shared.put queue (shared.queues queue ++ [call.task]), none)

def Frame.advance (shared : Shared config) (home : Option (Home config))
    (misses : Bool) :
    Frame config → Option (Shared config × List (Frame config))
  | .worker [] =>
      home.map fun owner => (shared, [.worker (scanOrder owner)])
  | .worker (queue :: rest) =>
      home.map fun owner =>
        match shared.take? home queue misses with
        | some (task, shared) =>
            (shared, [.execute owner.runtime task none, .worker []])
        | none => (shared, [.worker rest])
  | .help _ [] => some (shared, [])
  | .help target (queue :: rest) =>
      match shared.take? home queue misses with
      | some (task, shared) => some (shared, [.execute target task none])
      | none => some (shared, [.help target rest])
  -- the body decides what comes next
  | .execute _ _ none => none
  | .execute runtime task (some begun) =>
      let (shared, rest) := begun.step shared home
      some (shared, [.execute runtime task rest])
  | .finish runtime task => some (shared.finishOne runtime task, [])
  | .call begun =>
      match begun.step shared home with
      | (shared, some rest) => some (shared, [.call rest])
      | (shared, none) => some (shared, [])

/-- The submission that a call begins, unless it is `try_execute_one`. -/
def Call.start (target : RuntimeId config) :
    Call → Option (SubmitCall config)
  | .submit | .submitTask | .spawn => some { task := { submittedTo := target } }
  | .submitPortable slot =>
      some { task := { submittedTo := target }, pool := some slot }
  | .tryExecuteOne => none

def Thread.step (shared : Shared config) (thread : Thread config) :
    Move config → Option (Shared config × List (Frame config))
  | .advance misses =>
      match thread.stack with
      | [] => none
      | frame :: below =>
          (frame.advance shared thread.home misses).map
            fun (shared, frames) => (shared, frames ++ below)
  | .bodyEnds =>
      match thread.stack with
      | .execute runtime task none :: below =>
          some (shared, .finish runtime task :: below)
      | _ => none
  | .call target call =>
      match thread.stack with
      | [] =>
          match call.start target with
          | some begun => some (shared, [.call begun])
          | none => some (shared, [.help target (helpOrder thread.home target)])
      | .execute runtime task none :: below =>
          match call.start target with
          | some begun =>
              some (shared, .execute runtime task (some begun) :: below)
          | none =>
              some (shared, .help target (helpOrder thread.home target) ::
                .execute runtime task none :: below)
      | _ => none

def State.step (state : State config) (action : Action config) :
    Option (State config) :=
  match state.threads[action.thread]? with
  | none => none
  | some thread =>
      (thread.step state.shared action.move).map fun (shared, stack) =>
        { shared
          threads := state.threads.set action.thread { thread with stack } }

/-- The stack a thread starts with. -/
def initialStack (home : Option (Home config)) : List (Frame config) :=
  match home with
  | some _ => [.worker []]
  | none => []

/-- The worker threads of a process. -/
def homes (config : Config) : List (Home config) :=
  (List.finRange config.runtimes).flatMap fun runtime =>
    (List.range (config.workers runtime)).map fun worker =>
      ⟨runtime, worker⟩

/-- A process in which nothing has been submitted yet: one thread for each
worker of each runtime, and any number of others. -/
structure State.Initial (state : State config) : Prop where
  shared : state.shared = { }
  threads : ∀ thread ∈ state.threads,
    thread.stack = initialStack thread.home
  workers : state.threads.filterMap Thread.home = homes config

/-- The runs of a process. -/
def process (config : Config) : Machine (State config) (Action config) where
  initial := State.Initial
  step := State.step

/-! ## Separation -/

/-- Every queued task is in a queue of the runtime it was submitted to, and
every finished task was counted by that runtime. -/
structure State.Separate (state : State config) : Prop where
  queued : ∀ queue, ∀ task ∈ state.shared.queues queue,
    queue.runtime = task.submittedTo
  completed : ∀ runtime, (state.shared.counters runtime).completed =
    state.shared.finished.countP (·.submittedTo = runtime)

/-- The submission uses `t_current_queue`. -/
def Call.usesHome : Call → Bool
  | .submit | .submitTask | .spawn => true
  | _ => false

/-- The call is `try_execute_one` about to take a task out of a queue of
another runtime. -/
def Frame.robs (shared : Shared config) : Frame config → Bool
  | .help target (queue :: _) =>
      queue.runtime ≠ target && !(shared.queues queue).isEmpty
  | _ => false

/-- A worker of one runtime submits to another runtime, or helps another
runtime while its own deque has tasks. -/
def State.crosses (state : State config) (action : Action config) : Bool :=
  match state.threads[action.thread]? with
  | none => false
  | some thread =>
      match action.move with
      | .call target call =>
          call.usesHome &&
            (thread.home.map Home.runtime).any (· ≠ target)
      | .advance _ => thread.stack.head?.any (Frame.robs state.shared)
      | .bodyEnds => false

/-- The step crosses no border between runtimes. -/
def KeepsApart (state : State config) (action : Action config) : Prop :=
  state.crosses action = false

instance (state : State config) (action : Action config) :
    Decidable (KeepsApart state action) :=
  inferInstanceAs (Decidable (_ = _))

/-! ## What calls in progress respect -/

/-- The submission will push into a queue of its runtime. -/
def SubmitCall.Apart (home : Option (Home config))
    (call : SubmitCall config) : Prop :=
  match call.pc with
  | .push queue => queue.runtime = call.task.submittedTo
  | .route => True
  | _ => call.pool = none → ∀ owner, home = some owner →
      owner.runtime = call.task.submittedTo

def Frame.Apart (home : Option (Home config)) : Frame config → Prop
  | .worker remaining => ∀ owner, home = some owner →
      ∀ queue ∈ remaining, queue.runtime = owner.runtime
  | .help _ _ => True
  | .execute runtime task begun => task.submittedTo = runtime ∧
      ∀ call, begun = some call → call.Apart home
  | .finish runtime task => task.submittedTo = runtime
  | .call begun => begun.Apart home

theorem mem_queues_runtime {runtime : RuntimeId config}
    {queue : Queue config} :
    (queue ∈ injections runtime → queue.runtime = runtime) ∧
      (queue ∈ pools runtime → queue.runtime = runtime) ∧
        (queue ∈ deques runtime → queue.runtime = runtime) := by
  refine ⟨?_, ?_, ?_⟩
  · intro member
    obtain ⟨_, _, rfl⟩ := List.mem_map.mp member
    rfl
  · intro member
    obtain ⟨_, _, rfl⟩ := List.mem_map.mp member
    rfl
  · intro member
    obtain ⟨_, _, rfl⟩ := List.mem_map.mp member
    rfl

/-- A worker looks into the queues of its own runtime only. -/
theorem runtime_of_mem_scanOrder {home : Home config} {queue : Queue config}
    (member : queue ∈ scanOrder home) : queue.runtime = home.runtime := by
  simp only [scanOrder, List.mem_append, List.mem_cons, List.not_mem_nil,
    or_false, List.mem_filter] at member
  rcases member with
    (((rfl | rfl) | inPools) | ⟨inInjections, _⟩) | ⟨inDeques, _⟩
  · rfl
  · rfl
  · exact mem_queues_runtime.2.1 inPools
  · exact mem_queues_runtime.1 inInjections
  · exact mem_queues_runtime.2.2 inDeques

section Steps

variable {shared following : Shared config} {home : Option (Home config)}

/-- What a step may do to the shared state: a task is pushed into a queue of
its runtime, tasks are taken out, and a task is finished by its runtime. -/
structure Shared.Kept (shared following : Shared config) : Prop where
  queued : (∀ queue, ∀ task ∈ shared.queues queue,
      queue.runtime = task.submittedTo) →
    ∀ queue, ∀ task ∈ following.queues queue,
      queue.runtime = task.submittedTo
  completed : (∀ runtime, (shared.counters runtime).completed =
      shared.finished.countP (·.submittedTo = runtime)) →
    ∀ runtime, (following.counters runtime).completed =
      following.finished.countP (·.submittedTo = runtime)

theorem Shared.Kept.rfl : shared.Kept shared :=
  ⟨id, id⟩

theorem Shared.kept_put {queue : Queue config} {tasks : List (Task config)}
    (inside : (∀ other, ∀ task ∈ shared.queues other,
        other.runtime = task.submittedTo) →
      ∀ task ∈ tasks, queue.runtime = task.submittedTo) :
    shared.Kept (shared.put queue tasks) := by
  refine ⟨?_, id⟩
  intro separate other task member
  by_cases same : other = queue
  · subst same
    simp only [Shared.put, Function.update_self] at member
    exact inside separate task member
  · simp only [Shared.put, Function.update_of_ne same] at member
    exact separate other task member

theorem Shared.kept_update {runtime : RuntimeId config} {counters : Counters}
    (same : counters.completed = (shared.counters runtime).completed) :
    shared.Kept (shared.update runtime counters) := by
  refine ⟨id, ?_⟩
  intro completed other
  by_cases isTarget : other = runtime
  · subst isTarget
    simp only [Shared.update, Function.update_self, same]
    exact completed other
  · simp only [Shared.update, Function.update_of_ne isTarget]
    exact completed other

theorem Shared.kept_take? {queue : Queue config} {misses : Bool}
    {task : Task config}
    (taken : shared.take? home queue misses = some (task, following)) :
    shared.Kept following ∧ task ∈ shared.queues queue := by
  have front : ∀ {rest : List (Task config)},
      shared.queues queue = task :: rest →
        shared.Kept (shared.put queue rest) ∧
          task ∈ shared.queues queue := by
    intro rest content
    refine ⟨Shared.kept_put ?_, ?_⟩
    · intro separate left member
      apply separate queue left
      rw [content]
      exact List.mem_cons_of_mem _ member
    · rw [content]
      exact List.mem_cons_self
  unfold Shared.take? at taken
  split at taken
  · split at taken
    · split at taken
      · cases taken
      · rename_i last
        cases taken
        refine ⟨Shared.kept_put ?_, List.mem_of_getLast? last⟩
        intro separate left member
        exact separate _ left (List.mem_of_mem_dropLast member)
    · split at taken
      · cases taken
      · split at taken
        · cases taken
        · rename_i content
          cases taken
          exact front content
  · split at taken
    · cases taken
    · rename_i content
      cases taken
      exact front content

theorem Shared.kept_finishOne {runtime : RuntimeId config}
    {task : Task config} (own : task.submittedTo = runtime) :
    shared.Kept (shared.finishOne runtime task) := by
  refine ⟨id, ?_⟩
  intro completed other
  simp only [Shared.finishOne, Shared.update, List.countP_append,
    List.countP_singleton, own]
  by_cases same : other = runtime
  · subst same
    simp [completed other]
  · simp [Function.update_of_ne same, completed other, Ne.symm same]

theorem SubmitCall.Apart.step {call : SubmitCall config}
    {rest : Option (SubmitCall config)} (apart : call.Apart home)
    (stepped : call.step shared home = (following, rest)) :
    shared.Kept following ∧ ∀ later, rest = some later → later.Apart home := by
  unfold SubmitCall.step at stepped
  unfold SubmitCall.Apart at apart
  dsimp only at stepped
  split at stepped
  · rename_i atTake
    rw [atTake] at apart
    cases stepped
    refine ⟨Shared.kept_update rfl, ?_⟩
    rintro later ⟨⟩
    exact apart
  · rename_i atCount
    rw [atCount] at apart
    cases stepped
    refine ⟨Shared.kept_update rfl, ?_⟩
    rintro later ⟨⟩
    unfold SubmitCall.Apart
    cases pooled : call.pool with
    | some slot => rfl
    | none =>
        cases home with
        | none => trivial
        | some owner => exact apart pooled owner rfl
  · cases stepped
    refine ⟨Shared.kept_update rfl, ?_⟩
    rintro later ⟨⟩
    rfl
  · rename_i queue atPush
    rw [atPush] at apart
    cases stepped
    refine ⟨Shared.kept_put ?_, ?_⟩
    · intro separate task member
      rcases List.mem_append.mp member with old | new
      · exact separate queue task old
      · rw [List.mem_singleton.mp new]
        exact apart
    · rintro later ⟨⟩

/-- A frame that takes nothing from another runtime keeps the runtimes apart:
what it takes belongs to the runtime that is going to execute it. -/
theorem Frame.Apart.advance {frame : Frame config}
    {frames : List (Frame config)} {misses : Bool}
    (queued : ∀ queue, ∀ task ∈ shared.queues queue,
      queue.runtime = task.submittedTo)
    (apart : frame.Apart home) (honest : frame.robs shared = false)
    (advanced : frame.advance shared home misses = some (following, frames)) :
    shared.Kept following ∧ ∀ later ∈ frames, later.Apart home := by
  cases frame with
  | worker remaining =>
      cases home with
      | none =>
          cases remaining with
          | nil => cases advanced
          | cons queue rest => cases advanced
      | some owner =>
          cases remaining with
          | nil =>
              cases advanced
              refine ⟨Shared.Kept.rfl, ?_⟩
              simp only [List.mem_singleton, forall_eq]
              rintro _ ⟨⟩ queue member
              exact runtime_of_mem_scanOrder member
          | cons queue rest =>
              have inScope := apart owner rfl
              simp only [Frame.advance, Option.map_some,
                Option.some.injEq] at advanced
              split at advanced
              · rename_i task after taken
                cases advanced
                obtain ⟨kept, member⟩ := Shared.kept_take? taken
                refine ⟨kept, ?_⟩
                simp only [List.mem_cons, List.not_mem_nil, or_false,
                  forall_eq_or_imp, forall_eq]
                refine ⟨⟨?_, nofun⟩, ?_⟩
                · rw [← queued queue task member]
                  exact inScope queue List.mem_cons_self
                · rintro _ _ other ⟨⟩
              · cases advanced
                refine ⟨Shared.Kept.rfl, ?_⟩
                simp only [List.mem_singleton, forall_eq]
                rintro _ ⟨⟩ other member
                exact inScope other (List.mem_cons_of_mem _ member)
  | help target remaining =>
      cases remaining with
      | nil =>
          cases advanced
          exact ⟨Shared.Kept.rfl, nofun⟩
      | cons queue rest =>
          simp only [Frame.advance] at advanced
          split at advanced
          · rename_i task after taken
            cases advanced
            obtain ⟨kept, member⟩ := Shared.kept_take? taken
            refine ⟨kept, ?_⟩
            simp only [List.mem_singleton, forall_eq]
            refine ⟨?_, nofun⟩
            -- the queue holds `task`, so the call may not be robbing it
            have occupied : (shared.queues queue).isEmpty = false := by
              cases content : shared.queues queue with
              | nil => simp [content] at member
              | cons _ _ => rfl
            have sameRuntime : queue.runtime = target := by
              by_contra other
              simp [Frame.robs, other, occupied] at honest
            rw [← queued queue task member, sameRuntime]
          · cases advanced
            refine ⟨Shared.Kept.rfl, ?_⟩
            simp only [List.mem_singleton, forall_eq]
            trivial
  | execute runtime task begun =>
      cases begun with
      | none => cases advanced
      | some begun =>
          obtain ⟨own, inCall⟩ := apart
          cases advanced
          obtain ⟨kept, later⟩ :=
            (inCall begun rfl).step (Prod.mk.eta.symm :
              begun.step shared home = (_, _))
          refine ⟨kept, ?_⟩
          simp only [List.mem_singleton, forall_eq]
          exact ⟨own, later⟩
  | finish runtime task =>
      cases advanced
      exact ⟨Shared.kept_finishOne apart, nofun⟩
  | call begun =>
      simp only [Frame.advance] at advanced
      split at advanced
      · rename_i after rest stepped
        cases advanced
        obtain ⟨kept, later⟩ := SubmitCall.Apart.step apart stepped
        refine ⟨kept, ?_⟩
        simp only [List.mem_singleton, forall_eq]
        exact later rest rfl
      · rename_i after stepped
        cases advanced
        exact ⟨(SubmitCall.Apart.step apart stepped).1, nofun⟩

/-- A submission that begins on a worker of its own runtime, on another
thread, or for a pool. -/
theorem Call.start_apart {call : Call} {target : RuntimeId config}
    {begun : SubmitCall config}
    (atHome : (call.usesHome &&
      (home.map Home.runtime).any (· ≠ target)) = false)
    (started : call.start target = some begun) : begun.Apart home := by
  have ownRuntime : call.usesHome = true →
      ∀ owner, home = some owner → owner.runtime = target := by
    rintro uses owner rfl
    simpa [uses] using atHome
  cases call with
  | submit =>
      cases started
      exact fun _ => ownRuntime rfl
  | submitTask =>
      cases started
      exact fun _ => ownRuntime rfl
  | spawn =>
      cases started
      exact fun _ => ownRuntime rfl
  | submitPortable slot =>
      cases started
      exact nofun
  | tryExecuteOne => cases started

end Steps

/-! ## Whole runs -/

/-- The frames of every thread respect its `t_current_queue`. -/
structure State.Apart (state : State config) : Prop where
  separate : state.Separate
  frames : ∀ thread ∈ state.threads, ∀ frame ∈ thread.stack,
    frame.Apart thread.home

theorem State.Initial.apart {state : State config}
    (isInitial : state.Initial) : state.Apart := by
  constructor
  · constructor
    · rw [isInitial.shared]
      exact fun _ => nofun
    · rw [isInitial.shared]
      exact fun _ => rfl
  · intro thread member frame inStack
    rw [isInitial.threads thread member] at inStack
    cases atHome : thread.home with
    | none =>
        rw [atHome] at inStack
        cases inStack
    | some owner =>
        rw [atHome] at inStack
        rw [List.mem_singleton.mp inStack]
        exact fun _ _ _ => nofun

/-- One step of a thread, its stack afterwards included. -/
theorem Thread.step_apart {state : State config} {action : Action config}
    {thread : Thread config} {following : Shared config}
    {stack : List (Frame config)}
    (apart : state.Apart) (allowed : KeepsApart state action)
    (found : state.threads[action.thread]? = some thread)
    (stepped : thread.step state.shared action.move =
      some (following, stack)) :
    state.shared.Kept following ∧
      ∀ frame ∈ stack, frame.Apart thread.home := by
  have frames := apart.frames thread (List.mem_of_getElem? found)
  simp only [KeepsApart, State.crosses, found] at allowed
  obtain ⟨_, move⟩ := action
  cases move with
  | advance misses =>
      simp only [Thread.step] at stepped
      split at stepped
      · cases stepped
      · rename_i frame below atStack
        rw [atStack] at frames allowed
        simp only [Option.map_eq_some_iff, Prod.exists] at stepped
        obtain ⟨after, onTop, advanced, same⟩ := stepped
        cases same
        obtain ⟨kept, new⟩ :=
          (frames frame List.mem_cons_self).advance
            apart.separate.queued (by simpa using allowed) advanced
        refine ⟨kept, ?_⟩
        intro later member
        rcases List.mem_append.mp member with top | old
        · exact new later top
        · exact frames later (List.mem_cons_of_mem _ old)
  | bodyEnds =>
      simp only [Thread.step] at stepped
      split at stepped
      · rename_i runtime task below atStack
        rw [atStack] at frames
        cases stepped
        refine ⟨Shared.Kept.rfl, ?_⟩
        intro later member
        rcases List.mem_cons.mp member with rfl | old
        · exact (frames _ List.mem_cons_self).1
        · exact frames later (List.mem_cons_of_mem _ old)
      · cases stepped
  | call target call =>
      simp only [Thread.step] at stepped
      split at stepped
      · split at stepped
        · rename_i begun started
          cases stepped
          refine ⟨Shared.Kept.rfl, ?_⟩
          simp only [List.mem_singleton, forall_eq]
          exact Call.start_apart allowed started
        · cases stepped
          refine ⟨Shared.Kept.rfl, ?_⟩
          simp only [List.mem_singleton, forall_eq]
          trivial
      · rename_i runtime task below atStack
        rw [atStack] at frames
        split at stepped
        · rename_i begun started
          cases stepped
          refine ⟨Shared.Kept.rfl, ?_⟩
          intro later member
          rcases List.mem_cons.mp member with rfl | old
          · refine ⟨(frames _ List.mem_cons_self).1, ?_⟩
            rintro _ ⟨⟩
            exact Call.start_apart allowed started
          · exact frames later (List.mem_cons_of_mem _ old)
        · cases stepped
          refine ⟨Shared.Kept.rfl, ?_⟩
          intro later member
          rcases List.mem_cons.mp member with rfl | old
          · trivial
          · exact frames later old
      · cases stepped

theorem State.step_apart {state following : State config}
    {action : Action config} (apart : state.Apart)
    (allowed : KeepsApart state action)
    (stepped : state.step action = some following) : following.Apart := by
  unfold State.step at stepped
  split at stepped
  · cases stepped
  · rename_i thread found
    simp only [Option.map_eq_some_iff, Prod.exists] at stepped
    obtain ⟨after, stack, moved, rfl⟩ := stepped
    obtain ⟨kept, frames⟩ := Thread.step_apart apart allowed found moved
    constructor
    · exact ⟨kept.queued apart.separate.queued,
        kept.completed apart.separate.completed⟩
    · intro other member
      rcases List.mem_or_eq_of_mem_set member with old | rfl
      · exact apart.frames other old
      · exact frames

/-- Runtimes of one process do not interfere as long as no worker submits
locally to another runtime, nor helps another runtime while its own deque has
tasks. -/
theorem runtimes_separate {state : State config}
    (reached : (process config).ReachableUnder KeepsApart state) :
    state.Separate := by
  have apart : state.Apart := by
    refine Machine.ReachableUnder.invariant ?_ ?_ reached
    · intro before isInitial
      exact State.Initial.apart isInitial
    · intro before action after apart allowed stepped
      exact State.step_apart apart allowed stepped
  exact apart.separate

/-! ## Two runtimes with one worker each -/

def twoRuntimes : Config where
  runtimes := 2
  workers _ := 1
  workers_pos _ := Nat.one_pos

def first : RuntimeId twoRuntimes := ⟨0, Nat.two_pos⟩

def second : RuntimeId twoRuntimes := ⟨1, Nat.one_lt_two⟩

/-- The two workers and a thread of the application. -/
def twoStart : State twoRuntimes where
  shared := { }
  threads :=
    [⟨some ⟨first, 0⟩, [.worker []]⟩, ⟨some ⟨second, 0⟩, [.worker []]⟩,
      ⟨none, []⟩]

theorem twoStart_initial : (process twoRuntimes).initial twoStart where
  shared := rfl
  threads := by decide
  workers := by decide

def advances (thread count : Nat) : List (Action twoRuntimes) :=
  List.replicate count ⟨thread, .advance false⟩

/-- The application submits to the first runtime, whose worker starts the
task. -/
def firstStarts : List (Action twoRuntimes) :=
  [⟨2, .call first .submit⟩] ++ advances 2 4 ++ advances 0 3

/-- The task submits another one to its own runtime and one in portable form
to the second runtime, and is finished. -/
def politeRun : List (Action twoRuntimes) :=
  firstStarts ++ [⟨0, .call first .submit⟩] ++ advances 0 3 ++
    [⟨0, .call second (.submitPortable 0)⟩] ++ advances 0 3 ++
    [⟨0, .bodyEnds⟩] ++ advances 0 1

theorem runtimes_separate_polite :
    ∃ state, (process twoRuntimes).run twoStart politeRun = some state ∧
      state.Separate ∧
      state.shared.queues (.deque ⟨first, 0⟩) = [⟨2, first⟩] ∧
      state.shared.queues (.pool second 0) = [⟨1, second⟩] ∧
      (state.shared.counters first).completed = 1 := by
  refine ⟨_, rfl, runtimes_separate
    (Machine.ReachableUnder.run politeRun (.start twoStart_initial) rfl
      (by decide +kernel)), ?_⟩
  decide +kernel

/-- The task submits to the second runtime, and its worker goes on to run what
it finds in its deque. -/
def crossingRun : List (Action twoRuntimes) :=
  firstStarts ++ [⟨0, .call second .submit⟩] ++ advances 0 3 ++
    [⟨0, .bodyEnds⟩] ++ advances 0 3 ++ [⟨0, .bodyEnds⟩] ++ advances 0 1

/-- The task submitted to the second runtime was queued in, and counted by,
the first one. -/
theorem runtimes_interfere :
    (∃ state, (process twoRuntimes).Reachable state ∧
        ⟨1, second⟩ ∈ state.shared.queues (.deque ⟨first, 0⟩)) ∧
      ∃ state, (process twoRuntimes).Reachable state ∧
        state.shared.finished = [⟨1, first⟩, ⟨1, second⟩] ∧
        (state.shared.counters first).completed = 2 ∧
        (state.shared.counters second).completed = 0 ∧ ¬state.Separate := by
  refine ⟨⟨_, Machine.reachable_of_run (crossingRun.take 12)
    twoStart_initial rfl, by decide +kernel⟩, _,
    Machine.reachable_of_run crossingRun twoStart_initial rfl,
    by decide +kernel, by decide +kernel, by decide +kernel, ?_⟩
  intro separate
  have counted := separate.completed second
  revert counted
  decide +kernel

end HydraRT.Process
