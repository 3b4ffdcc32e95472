import HydraRT.Inference.JobManager
import HydraRT.Lib.Transition
import HydraRT.Runtime.Task

/-!
# A node

One `Node` with its `Runtime` and, if it has one, its `JobManager`: the threads
that act on them and every access to shared state, one access a step.  Work
that touches only the acting thread is part of the step before it.

A thread is a stack of calls.  Worker threads run `Worker::run`; a client
thread is application code; the others are the service threads of `Node`.
Application code, in a client or in the body of a task, may call the submit
functions at any time and may wait for a future, which runs other tasks from
inside the waiting one.

The worker deques appear as lists: the owner takes from the back, everyone else
from the front.  A steal may come back empty-handed from a non-empty deque.
The notification at the end of `finish_one` is left to the model of `wait_all`.

The mutex of a `PeerLink` is the only lock that is held over several accesses:
`try_remote_steal` takes it before it sends its request and keeps it until the
tasks of the response are submitted and counted, and `completion_loop` takes it
to send one notice.  The request itself touches nothing else, so the mutex is
seen here from the arrival of the response on.
-/

namespace HydraRT.Cluster

open HydraRT.Inference
open HydraRT.Lib

structure NodeConfig where
  nodeId : NodeId
  workers : Nat
  workers_pos : 0 < workers
  handlers : TaskRegistry
  taskTimeoutMs : Int := 4000
  dropCompletions : Bool := false
  /-- A `JobManager` is attached and observes the runtime. -/
  hasJobs : Bool := true

/-! ## Shared state -/

/-- The places a task can be queued in. -/
inductive Queue (config : NodeConfig) where
  | deque (owner : Fin config.workers)
  | injection (index : Fin config.workers)
  | pool (slot : Fin TaskType.count)
  deriving DecidableEq, Repr

/-- What the history of a run remembers. -/
inductive Entry where
  /-- `submitted_` was incremented for the task. -/
  | counted (task : Task)
  /-- `run_task` returned. -/
  | executed (taskId : Nat)
  /-- The work of a task of node `origin` ran to completion on this node. -/
  | ran (origin : NodeId) (taskId : Nat) (work : Work)
  | reaped (taskId : Nat)
  /-- The observer called `on_stage_done`. -/
  | stageDone (p : StagePayload)
  deriving DecidableEq, Repr

structure Outstanding where
  task : Task
  thiefNode : NodeId
  sentMs : Int
  deriving DecidableEq, Repr

/-- A `StealResponse`, on the connection to the node that sends it. -/
structure Reply where
  victim : NodeId
  tasks : List Task
  victimPending : Nat
  deriving DecidableEq, Repr

structure Shared (config : NodeConfig) where
  -- `Runtime`
  queues : Queue config → List Task := fun _ => []
  injectionRr : UInt32 := 0
  submitted : Nat := 0
  completed : Nat := 0
  nextId : Nat := 1
  localExecuted : Nat := 0
  helped : Nat := 0
  shutdownFlag : Bool := false
  -- `Node`
  running : Bool := true
  nowMs : Int := 0
  outstanding : List Outstanding := []
  completions : List (NodeId × Nat) := []
  stolenIn : Nat := 0
  stolenOut : Nat := 0
  tasksReassigned : Nat := 0
  -- `JobManager`
  jobs : JobManager := { }
  -- what was sent, and what happened
  replies : List Reply := []
  results : List (NodeId × Nat) := []
  history : List Entry := []

/-! ## Calls in progress -/

/-- Where a call of `submit`, `submit_portable` or `submit_task` stands. -/
inductive SubmitPc (config : NodeConfig) where
  /-- Before `next_id_++`. -/
  | takeId
  /-- Before `submitted_.fetch_add`. -/
  | count
  /-- Before `injection_rr_.fetch_add`. -/
  | route
  | push (queue : Queue config)
  deriving DecidableEq, Repr

/-- The three submit functions differ in the task they build and in whether it
goes to a portable pool. -/
structure SubmitCall (config : NodeConfig) where
  task : Task
  pool : Option (Fin TaskType.count) := none
  pc : SubmitPc config := .takeId
  deriving DecidableEq, Repr

/-- Where the completion of a task stands: the observer, then `finish_one`. -/
inductive CompletePc (config : NodeConfig) where
  | observe
  /-- `on_stage_done` submits the next stage. -/
  | submitting (p : StagePayload) (call : SubmitCall config)
  /-- `on_stage_done` is about to write the status. -/
  | record (p : StagePayload)
  | finish
  deriving DecidableEq, Repr

/-- Where a call of `JobManager::submit` stands. -/
inductive JobPc (config : NodeConfig) where
  | fetchId
  | emplace (id : Nat)
  | count (id : Nat)
  | submitting (id : Nat) (call : SubmitCall config)
  deriving DecidableEq, Repr

/-- A call from application code. -/
inductive UserCall (config : NodeConfig) where
  | submit (call : SubmitCall config)
  | job (request : Request) (pc : JobPc config)
  deriving DecidableEq, Repr

/-- Where `Worker::run` stands.  The operands of `==` in its exit test are
unsequenced. -/
inductive WorkerPc (config : NodeConfig) where
  | loading
  | sawSubmitted (submitted : Nat)
  | sawCompleted (completed : Nat)
  | loadFlag (allDone : Bool)
  | scan (remaining : List (Queue config))
  deriving DecidableEq, Repr

/-- Where the execution of a task stands. -/
inductive ExecutePc (config : NodeConfig) where
  /-- Inside `run_task`, with the call the body is making. -/
  | running (call : Option (UserCall config))
  /-- Inside `enqueue_completion`, at the end of a stolen closure. -/
  | notify (origin : NodeId) (taskId : Nat)
  /-- Before `local_executed_.fetch_add`. -/
  | localCount
  | completing (pc : CompletePc config)
  /-- Before `helped_.fetch_add`. -/
  | helpedCount
  deriving DecidableEq, Repr

/-- Where `serve_peer` stands in answering a `StealRequest`. -/
inductive ServePc where
  /-- Inside `portable_available`. -/
  | counting (remaining : List (Fin TaskType.count)) (available : Nat)
  /-- Inside `take_portable`, with the pools it has not tried yet. -/
  | taking (budget : Nat) (untried : List (Fin TaskType.count))
      (taken : List Task)
  | tracking (untracked taken : List Task)
  /-- Inside the second `portable_available`. -/
  | sizing (remaining : List (Fin TaskType.count)) (pending : Nat)
      (taken : List Task)
  | sending (pending : Nat) (taken : List Task)
  deriving DecidableEq, Repr

/-- Where `reap_outstanding` stands in its second loop. -/
inductive ReapPc (config : NodeConfig) where
  | next
  | resubmit (lost : Task) (call : SubmitCall config)
  | settle (lost : Task) (pc : CompletePc config)
  deriving DecidableEq, Repr

structure StealRequest where
  requesterNode : NodeId
  maxTasks : Nat
  preferredType : TaskType
  deriving DecidableEq, Repr

/-- A call on the stack of a thread. -/
inductive Frame (config : NodeConfig) where
  | worker (pc : WorkerPc config)
  /-- `try_execute_one`, with the queues it has not tried yet. -/
  | help (remaining : List (Queue config))
  | execute (task : Task) (helped : Bool) (pc : ExecutePc config)
  | call (call : UserCall config)
  | serve (request : StealRequest) (pc : ServePc)
  /-- `resolve_outstanding` after its critical section. -/
  | resolve (task : Task) (pc : CompletePc config)
  | reap (lost : List Task) (pc : ReapPc config)
  /-- `try_remote_steal` with the tasks of the reply and those still to accept.
  The call has the mutex of the link. -/
  | accept (link : NodeId) (tasks remaining : List Task)
      (call : Option (SubmitCall config))
  /-- `completion_loop` with the rest of its batch. -/
  | complete (batch : List (NodeId × Nat))
  deriving DecidableEq, Repr

inductive Role (config : NodeConfig) where
  | worker (index : Fin config.workers)
  | client
  | peer
  | reaper
  | stealer
  | completer
  deriving DecidableEq, Repr

structure Thread (config : NodeConfig) where
  role : Role config
  stack : List (Frame config)
  finished : Bool := false
  deriving DecidableEq, Repr

structure State (config : NodeConfig) where
  shared : Shared config
  threads : List (Thread config)

/-! ## Moves -/

/-- What application code may call. -/
inductive Call where
  | submit (body : Nat)
  | submitPortable (slot : Fin TaskType.count) (payload : Payload)
      (costHint : UInt32)
  | submitTask (body : Option Nat) (type : TaskType) (payload : Payload)
      (originNode : NodeId)
  | submitJob (request : Request)
  /-- `Future::get` finds its future unresolved. -/
  | help
  deriving DecidableEq, Repr

inductive Move where
  /-- The next access of the innermost call.  If `fails`, a steal misses or a
  message cannot be sent. -/
  | advance (fails : Bool)
  /-- Application code makes a call. -/
  | call (call : Call)
  /-- The body of the innermost task ends. -/
  | bodyEnds
  /-- A `StealRequest` arrives. -/
  | request (request : StealRequest)
  /-- A `TaskResult` arrives. -/
  | result (taskId : Nat)
  /-- The reaper wakes; `lost` is the order it finds the expired tasks in. -/
  | reap (lost : List Task)
  /-- A `StealResponse` arrives on the link of a peer. -/
  | reply (link : NodeId) (tasks : List Task)
  /-- The completion thread takes the queued completions. -/
  | drain
  /-- A service thread finds `running_` false and leaves its loop. -/
  | quit
  deriving DecidableEq, Repr

inductive Action where
  | move (thread : Nat) (move : Move)
  | tick
  /-- `running_.exchange(false)` in `Node::stop`. -/
  | stop
  /-- The store in `Runtime::shutdown`. -/
  | shutdown
  deriving DecidableEq, Repr

variable {config : NodeConfig}

namespace Shared

def remember (shared : Shared config) (entries : List Entry) :
    Shared config :=
  { shared with history := shared.history ++ entries }

def put (shared : Shared config) (queue : Queue config) (tasks : List Task) :
    Shared config :=
  { shared with queues := Function.update shared.queues queue tasks }

def push (shared : Shared config) (queue : Queue config) (task : Task) :
    Shared config :=
  shared.put queue (shared.queues queue ++ [task])

/-- Take a task out of a queue: `WorkDeque::pop` for the owner of a deque,
`WorkDeque::steal` for others, and `InjectionQueue::pop`. -/
def take? (shared : Shared config) (home : Option (Fin config.workers))
    (queue : Queue config) (misses : Bool) :
    Option (Task × Shared config) :=
  match queue with
  | .deque owner =>
      if home = some owner then
        match (shared.queues queue).getLast? with
        | none => none
        | some task =>
            some (task, shared.put queue (shared.queues queue).dropLast)
      else if misses then none
      else
        match shared.queues queue with
        | [] => none
        | task :: rest => some (task, shared.put queue rest)
  | _ =>
      match shared.queues queue with
      | [] => none
      | task :: rest => some (task, shared.put queue rest)

/-- `track_outstanding`. -/
def trackOutstanding (shared : Shared config) (task : Task)
    (thiefNode : NodeId) : Shared config :=
  if shared.outstanding.any (·.task.taskId == task.taskId) then shared
  else
    { shared with
      outstanding :=
        shared.outstanding ++ [⟨task, thiefNode, shared.nowMs⟩] }

def expired (shared : Shared config) (entry : Outstanding) : Bool :=
  decide (shared.nowMs - entry.sentMs > config.taskTimeoutMs)

end Shared

/-! ## Orders of search -/

def otherWorkers (home : Option (Fin config.workers)) :
    List (Fin config.workers) :=
  (List.finRange config.workers).filter (some · ≠ home)

def pools : List (Queue config) :=
  (List.finRange TaskType.count).map .pool

/-- One round of `Worker::run`. -/
def scanOrder (worker : Fin config.workers) : List (Queue config) :=
  [.deque worker, .injection worker] ++ pools ++
    (otherWorkers (some worker)).map .injection ++
    (otherWorkers (some worker)).map .deque

/-- `try_execute_one`. -/
def helpOrder (home : Option (Fin config.workers)) : List (Queue config) :=
  home.toList.map .deque ++ (List.finRange config.workers).map .injection ++
    pools ++ (otherWorkers home).map .deque

/-- `take_portable`: the preferred pool if it exists, then every pool. -/
def takeOrder (preferred : TaskType) : List (Fin TaskType.count) :=
  preferred.slot?.toList ++ List.finRange TaskType.count

/-- How many tasks `serve_peer` gives away. -/
def giveCount (available maxTasks : Nat) : Nat :=
  let half := available / 2
  let give := if half = 0 ∧ available > 0 then 1 else half
  if give > maxTasks then maxTasks else give

/-! ## Steps of calls -/

/-- The rest of the call, or nothing if it has returned. -/
def SubmitCall.step (shared : Shared config)
    (home : Option (Fin config.workers)) (call : SubmitCall config) :
    Shared config × Option (SubmitCall config) :=
  match call.pc with
  | .takeId =>
      ({ shared with nextId := shared.nextId + 1 },
        some { call with
          task := { call.task with taskId := shared.nextId }
          pc := .count })
  | .count =>
      (({ shared with submitted := shared.submitted + 1 } :
          Shared config).remember [.counted call.task],
        some { call with
          pc :=
            match call.pool, home with
            | some slot, _ => .push (.pool slot)
            | none, some owner => .push (.deque owner)
            | none, none => .route })
  | .route =>
      ({ shared with injectionRr := shared.injectionRr + 1 },
        some { call with
          pc := .push (.injection
            ⟨shared.injectionRr.toNat % config.workers,
              Nat.mod_lt _ config.workers_pos⟩) })
  | .push queue => (shared.push queue call.task, none)

/-- `JobManager::submit_stage`. -/
def submitStage (p : StagePayload) : SubmitCall config where
  task := p.task config.nodeId
  pool := (taskTypeFor p.stage).slot?

/-- What the observer reads off a finished task. -/
def observed (config : NodeConfig) (task : Task) : Option StagePayload :=
  if config.hasJobs then task.payload.decodeStage else none

def CompletePc.step (shared : Shared config)
    (home : Option (Fin config.workers)) (task : Task) :
    CompletePc config → Shared config × Option (CompletePc config)
  | .observe =>
      match observed config task with
      | none => (shared, some .finish)
      | some p =>
          match p.next? with
          | some next =>
              (shared.remember [.stageDone p],
                some (.submitting p (submitStage next)))
          | none =>
              if p.stage = .postprocess then
                (({ shared with jobs := shared.jobs.markDone p } :
                  Shared config).remember [.stageDone p], some .finish)
              else (shared.remember [.stageDone p], some (.record p))
  | .submitting p call =>
      match call.step shared home with
      | (shared, some call) => (shared, some (.submitting p call))
      | (shared, none) => (shared, some (.record p))
  | .record p =>
      ({ shared with jobs := shared.jobs.recordStage p }, some .finish)
  | .finish => ({ shared with completed := shared.completed + 1 }, none)

def JobPc.step (shared : Shared config)
    (home : Option (Fin config.workers)) (request : Request) :
    JobPc config → Shared config × Option (JobPc config)
  | .fetchId =>
      ({ shared with
          jobs := { shared.jobs with
            nextRequestId := shared.jobs.nextRequestId + 1 } },
        some (.emplace shared.jobs.nextRequestId))
  | .emplace id =>
      ({ shared with jobs := shared.jobs.emplace id request.kind },
        some (.count id))
  | .count id =>
      ({ shared with
          jobs := { shared.jobs with
            submitted := shared.jobs.submitted + 1 } },
        some (.submitting id (submitStage (request.payload id))))
  | .submitting id call =>
      match call.step shared home with
      | (shared, some call) => (shared, some (.submitting id call))
      | (shared, none) => (shared, none)

def UserCall.step (shared : Shared config)
    (home : Option (Fin config.workers)) :
    UserCall config → Shared config × Option (UserCall config)
  | .submit call =>
      match call.step shared home with
      | (shared, some call) => (shared, some (.submit call))
      | (shared, none) => (shared, none)
  | .job request pc =>
      match pc.step shared home request with
      | (shared, some pc) => (shared, some (.job request pc))
      | (shared, none) => (shared, none)

section Nested

/-! A call inside a call: the inner one is what changes the shared state. -/

variable (shared : Shared config) (home : Option (Fin config.workers))

@[simp]
theorem CompletePc.step_submitting_fst (task : Task) (p : StagePayload)
    (call : SubmitCall config) :
    ((CompletePc.submitting p call).step shared home task).1 =
      (call.step shared home).1 := by
  simp only [CompletePc.step]
  split <;> rename_i stepped <;> rw [stepped]

@[simp]
theorem JobPc.step_submitting_fst (request : Request) (id : Nat)
    (call : SubmitCall config) :
    ((JobPc.submitting id call).step shared home request).1 =
      (call.step shared home).1 := by
  simp only [JobPc.step]
  split <;> rename_i stepped <;> rw [stepped]

@[simp]
theorem UserCall.step_submit_fst (call : SubmitCall config) :
    ((UserCall.submit call).step shared home).1 =
      (call.step shared home).1 := by
  simp only [UserCall.step]
  split <;> rename_i stepped <;> rw [stepped]

@[simp]
theorem UserCall.step_job_fst (request : Request) (pc : JobPc config) :
    ((UserCall.job request pc).step shared home).1 =
      (pc.step shared home request).1 := by
  simp only [UserCall.step]
  split <;> rename_i stepped <;> rw [stepped]

end Nested

/-! ## Steps of threads -/

/-- What a completed run of a task's body amounts to.  A task without a handler
runs nothing. -/
def performs (config : NodeConfig) (task : Task) : List Entry :=
  match config.handlers.handlerFor task with
  | none => []
  | some _ =>
      .ran config.nodeId task.taskId task.work ::
        match task.fn with
        | some (.stolen type payload origin taskId) =>
            [.ran origin taskId (.handler type payload)]
        | some (.rerun type payload lost) =>
            [.ran config.nodeId lost (.handler type payload)]
        | _ => []

/-- The body of the task is application code. -/
def callsOut (config : NodeConfig) (task : Task) : Bool :=
  config.handlers.handlerFor task == some .user

/-- The call that application code starts, unless it is `help`. -/
def Call.start (config : NodeConfig) : Call → Option (UserCall config)
  | .submit body => some (.submit { task := { fn := some (.user body) } })
  | .submitPortable slot payload costHint =>
      some (.submit {
        task := {
          costHint
          originNode := config.nodeId
          type := .ofSlot slot
          payload }
        pool := some slot })
  | .submitTask body type payload originNode =>
      some (.submit {
        task := { originNode, type, fn := body.map .user, payload } })
  | .submitJob request =>
      if config.hasJobs then some (.job request .fetchId) else none
  | .help => none

/-- Where execution continues after `run_task` returned. -/
def afterBody (task : Task) : ExecutePc config :=
  match task.fn with
  | some (.stolen _ _ origin taskId) => .notify origin taskId
  | _ => .localCount

def WorkerPc.step (shared : Shared config) (worker : Fin config.workers)
    (completedFirst misses : Bool) :
    WorkerPc config → Shared config × List (Frame config)
  | .loading =>
      (shared, [.worker (if completedFirst then .sawCompleted shared.completed
        else .sawSubmitted shared.submitted)])
  | .sawSubmitted submitted =>
      (shared, [.worker (.loadFlag (submitted == shared.completed))])
  | .sawCompleted completed =>
      (shared, [.worker (.loadFlag (shared.submitted == completed))])
  | .loadFlag allDone =>
      if shared.shutdownFlag && allDone then (shared, [])
      else (shared, [.worker (.scan (scanOrder worker))])
  | .scan [] => (shared, [.worker .loading])
  | .scan (queue :: rest) =>
      match shared.take? (some worker) queue misses with
      | some (task, shared) =>
          (shared, [.execute task false (.running none), .worker .loading])
      | none => (shared, [.worker (.scan rest)])

def ExecutePc.step (shared : Shared config)
    (home : Option (Fin config.workers)) (task : Task) (helped : Bool) :
    ExecutePc config → Option (Shared config × List (Frame config))
  -- the body decides what comes next
  | .running none => none
  | .running (some call) =>
      let (shared, rest) := call.step shared home
      some (shared, [.execute task helped (.running rest)])
  | .notify origin taskId =>
      some
        (if config.dropCompletions then shared
          else { shared with
            completions := shared.completions ++ [(origin, taskId)] },
          [.execute task helped .localCount])
  | .localCount =>
      some ({ shared with localExecuted := shared.localExecuted + 1 },
        [.execute task helped (.completing .observe)])
  | .completing pc =>
      match pc.step shared home task with
      | (shared, some pc) =>
          some (shared, [.execute task helped (.completing pc)])
      | (shared, none) =>
          some (shared,
            if helped then [.execute task helped .helpedCount] else [])
  | .helpedCount => some ({ shared with helped := shared.helped + 1 }, [])

def ServePc.step (shared : Shared config) (request : StealRequest) :
    ServePc → Shared config × List (Frame config)
  | .counting (slot :: rest) available =>
      (shared, [.serve request
        (.counting rest (available + (shared.queues (.pool slot)).length))])
  | .counting [] available =>
      (shared, [.serve request
        (.taking (giveCount available request.maxTasks)
          (takeOrder request.preferredType) [])])
  | .taking 0 _ taken => (shared, [.serve request (.tracking taken taken)])
  | .taking (_ + 1) [] taken =>
      (shared, [.serve request (.tracking taken taken)])
  | .taking (budget + 1) (slot :: rest) taken =>
      match shared.take? none (.pool slot) false with
      | some (task, shared) =>
          (shared, [.serve request
            (.taking budget (takeOrder request.preferredType)
              (taken ++ [task]))])
      | none => (shared, [.serve request (.taking (budget + 1) rest taken)])
  | .tracking (task :: rest) taken =>
      (shared.trackOutstanding task request.requesterNode,
        [.serve request (.tracking rest taken)])
  | .tracking [] taken =>
      ({ shared with stolenOut := shared.stolenOut + taken.length },
        [.serve request (.sizing (List.finRange TaskType.count) 0 taken)])
  | .sizing (slot :: rest) pending taken =>
      (shared, [.serve request
        (.sizing rest (pending + (shared.queues (.pool slot)).length)
          taken)])
  | .sizing [] pending taken =>
      (shared, [.serve request (.sending pending taken)])
  | .sending pending taken =>
      ({ shared with
          replies := shared.replies ++ [⟨config.nodeId, taken, pending⟩] }, [])

def ReapPc.step (shared : Shared config)
    (home : Option (Fin config.workers)) :
    (lost : List Task) → ReapPc config →
      Shared config × List (Frame config)
  | [], .next => (shared, [])
  | task :: rest, .next =>
      ({ shared with tasksReassigned := shared.tasksReassigned + 1 },
        [.reap rest (.resubmit task { task := task.rerun })])
  | rest, .resubmit task call =>
      match call.step shared home with
      | (shared, some call) => (shared, [.reap rest (.resubmit task call)])
      | (shared, none) => (shared, [.reap rest (.settle task .observe)])
  | rest, .settle task pc =>
      match pc.step shared home task.settled with
      | (shared, some pc) => (shared, [.reap rest (.settle task pc)])
      | (shared, none) => (shared, [.reap rest .next])

/-- The loop over `accept_stolen_task`, then `stolen_in_.fetch_add`.  With the
return the mutex of the link is free. -/
def acceptStep (shared : Shared config)
    (home : Option (Fin config.workers)) (link : NodeId) (tasks : List Task) :
    (remaining : List Task) → Option (SubmitCall config) →
      Shared config × List (Frame config)
  | [], none =>
      ({ shared with stolenIn := shared.stolenIn + tasks.length }, [])
  | task :: rest, none =>
      (shared, [.accept link tasks rest (some { task := task.stolenFrom })])
  | rest, some call =>
      let (shared, call) := call.step shared home
      (shared, [.accept link tasks rest call])

/-- The next access of the innermost call.  The first access of the exit test
uses `fails` to choose the operand it reads. -/
def Frame.advance (shared : Shared config)
    (home : Option (Fin config.workers)) (fails : Bool) :
    Frame config → Option (Shared config × List (Frame config))
  | .worker pc =>
      home.map fun worker => pc.step shared worker fails fails
  | .help [] => some (shared, [])
  | .help (queue :: rest) =>
      match shared.take? home queue fails with
      | some (task, shared) =>
          some (shared, [.execute task true (.running none)])
      | none => some (shared, [.help rest])
  | .execute task helped pc => pc.step shared home task helped
  | .call begun =>
      match begun.step shared home with
      | (shared, some rest) => some (shared, [.call rest])
      | (shared, none) => some (shared, [])
  | .serve request pc => some (pc.step shared request)
  | .resolve task pc =>
      match pc.step shared home task with
      | (shared, some pc) => some (shared, [.resolve task pc])
      | (shared, none) => some (shared, [])
  | .reap lost pc => some (pc.step shared home lost)
  | .accept link tasks remaining begun =>
      some (acceptStep shared home link tasks remaining begun)
  | .complete [] => some (shared, [])
  | .complete (item :: rest) =>
      some
        (if fails then shared
          else { shared with results := shared.results ++ [item] },
          [.complete rest])

/-- What a thread without a call in progress may begin. -/
def Role.begin (shared : Shared config) :
    Role config → Move → Option (Shared config × List (Frame config))
  | .client, .call call =>
      match call with
      | .help => some (shared, [.help (helpOrder none)])
      | other =>
          (other.start config).map fun begun => (shared, [.call begun])
  | .peer, .request request =>
      some (shared, [.serve request
        (.counting (List.finRange TaskType.count) 0)])
  | .peer, .result taskId =>
      match shared.outstanding.findIdx? (·.task.taskId == taskId) with
      | none => some (shared, [])
      | some index =>
          (shared.outstanding[index]?).map fun entry =>
            ({ shared with outstanding := shared.outstanding.eraseIdx index },
              [.resolve entry.task .observe])
  | .reaper, .reap lost =>
      if lost.isPerm
          ((shared.outstanding.filter shared.expired).map (·.task)) then
        some
          (({ shared with
              outstanding :=
                shared.outstanding.filter (!shared.expired ·) } :
            Shared config).remember (lost.map fun task =>
              .reaped task.taskId),
            [.reap lost .next])
      else none
  | .stealer, .reply link tasks =>
      if tasks.isEmpty then some (shared, [])
      else some (shared, [.accept link tasks tasks none])
  | .completer, .drain =>
      some ({ shared with completions := [] },
        [.complete shared.completions])
  | _, _ => none

def Role.home : Role config → Option (Fin config.workers)
  | .worker index => some index
  | _ => none

/-- A service thread of `Node`, which `Node::stop` joins. -/
def Role.isService : Role config → Bool
  | .worker _ | .client => false
  | _ => true

/-- What a move of the thread does to the shared state and to its stack. -/
def Thread.step (shared : Shared config) (thread : Thread config) :
    Move → Option (Shared config × List (Frame config))
  | .advance fails =>
      match thread.stack with
      | [] => none
      | frame :: below =>
          (frame.advance shared thread.role.home fails).map
            fun (shared, frames) => (shared, frames ++ below)
  | .bodyEnds =>
      match thread.stack with
      | .execute task helped (.running none) :: below =>
          some
            (shared.remember (.executed task.taskId :: performs config task),
              .execute task helped (afterBody task) :: below)
      | _ => none
  | .call call =>
      match thread.stack with
      | [] => thread.role.begin shared (.call call)
      | .execute task helped (.running none) :: below =>
          if callsOut config task then
            match call with
            | .help =>
                some (shared, .help (helpOrder thread.role.home) ::
                  .execute task helped (.running none) :: below)
            | other =>
                (other.start config).map fun begun =>
                  (shared,
                    .execute task helped (.running (some begun)) :: below)
          else none
      | _ => none
  | move =>
      match thread.stack with
      | [] => thread.role.begin shared move
      | _ => none

/-! ## The mutex of a link -/

/-- The link whose mutex the thread has. -/
def Thread.held? (thread : Thread config) : Option NodeId :=
  match thread.finished, thread.stack with
  | false, .accept link _ _ _ :: _ => some link
  | _, _ => none

def State.linkHeld (state : State config) (link : NodeId) : Bool :=
  state.threads.any (·.held? == some link)

/-- The link whose mutex `completion_loop` takes to send its next notice. -/
def Frame.locks : Frame config → Option NodeId
  | .complete (item :: _) => some item.1
  | _ => none

/-- The link whose mutex the thread takes with the move. -/
def Thread.locks (thread : Thread config) : Move → Option NodeId
  | .advance _ => thread.stack.head?.bind Frame.locks
  | .reply link _ => some link
  | _ => none

/-- The mutex that the thread takes with its move is not free. -/
def State.blocks (state : State config) (thread : Thread config)
    (move : Move) : Bool :=
  (thread.locks move).any state.linkHeld

def State.step (state : State config) : Action → Option (State config)
  | .tick =>
      some { state with
        shared := { state.shared with nowMs := state.shared.nowMs + 1 } }
  | .stop =>
      some { state with shared := { state.shared with running := false } }
  | .shutdown =>
      some { state with
        shared := { state.shared with shutdownFlag := true } }
  | .move index .quit =>
      match state.threads[index]? with
      | none => none
      | some thread =>
          if thread.role.isService && thread.stack.isEmpty &&
              !state.shared.running then
            some { state with
              threads := state.threads.set index
                { thread with finished := true } }
          else none
  | .move index move =>
      match state.threads[index]? with
      | none => none
      | some thread =>
          if thread.finished || state.blocks thread move then none
          else
            (thread.step state.shared move).map fun (shared, stack) =>
              { shared
                threads := state.threads.set index { thread with stack } }

/-- The stack a thread starts with. -/
def Role.initialStack : Role config → List (Frame config)
  | .worker _ => [.worker .loading]
  | _ => []

def Role.worker? : Role config → Option (Fin config.workers)
  | .worker index => some index
  | _ => none

/-- A freshly started node: one thread for each worker, and any number of the
others. -/
structure State.Initial (state : State config) : Prop where
  shared : state.shared = { }
  threads : ∀ thread ∈ state.threads,
    thread.stack = thread.role.initialStack ∧ thread.finished = false
  workers : state.threads.filterMap (·.role.worker?) =
    List.finRange config.workers

/-- The runs of one node.  Messages of any content may arrive. -/
def node (config : NodeConfig) : Machine (State config) Action where
  initial := State.Initial
  step := State.step

/-! ## A small node -/

/-- A started node with its workers, two clients and one thread for each
service. -/
def State.fresh (config : NodeConfig) : State config where
  shared := { }
  threads :=
    (List.finRange config.workers).map (fun index =>
        { role := .worker index, stack := [.worker .loading] }) ++
      [{ role := .client, stack := [] },
        { role := .peer, stack := [] },
        { role := .reaper, stack := [] },
        { role := .stealer, stack := [] },
        { role := .completer, stack := [] },
        { role := .client, stack := [] }]

theorem State.fresh_initial (config : NodeConfig) :
    (State.fresh config).Initial where
  shared := rfl
  threads := by
    intro thread member
    simp only [State.fresh, List.mem_append, List.mem_map,
      List.mem_cons, List.not_mem_nil, or_false] at member
    rcases member with ⟨index, _, rfl⟩ | rfl | rfl | rfl | rfl | rfl | rfl <;>
      exact ⟨rfl, rfl⟩
  workers := by
    simp [State.fresh, Role.worker?]

/-- One worker, application handlers for every type and a job table. -/
def soloConfig : NodeConfig where
  nodeId := 1
  workers := 1
  workers_pos := Nat.one_pos
  handlers := TaskRegistry.withStageHandlers fun _ => some .user

/-- Thread 0 is the worker; the others follow in the order of `fresh`. -/
def soloStart : State soloConfig :=
  State.fresh soloConfig

theorem soloStart_initial : (node soloConfig).initial soloStart :=
  State.fresh_initial soloConfig

/-- Let a thread make several accesses in a row. -/
def advances (thread count : Nat) : List Action :=
  List.replicate count (.move thread (.advance false))

end HydraRT.Cluster
