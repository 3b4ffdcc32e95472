import HydraRT.Cluster.Node
import HydraRT.Lib.Weight

/-!
# Where tasks are, and how they move

The abstract view of a node.  Its state is a collection of *tokens*, a task at
a place, together with the *books*: the counters, the job table and the
history.  An `Event` says which tokens go, which come and what is entered in
the books.

Places are finer than queues and variables of the program.  A task that is
being completed, for instance, remembers which path completes it and whether
its observer has been called, because that decides what the task still stands
for.
-/

namespace HydraRT.Cluster

open HydraRT.Inference
open HydraRT.Lib

/-- On whose behalf a task is being submitted. -/
inductive Site where
  | client
  | request
  | successor
  | rerun
  | stolen
  deriving DecidableEq, Repr

/-- Which path completes a task: `on_task_complete` after a local execution,
`on_remote_task_complete` for a result, or the same function for a task that
the reaper settles. -/
inductive Cause where
  | executed
  | resolved
  | settled
  deriving DecidableEq, Repr

/-- Where the observer stands. -/
inductive Phase where
  | before
  /-- The observer is submitting the next stage. -/
  | during
  | after
  deriving DecidableEq, Repr

inductive Place where
  /-- Built by a submit function. -/
  | created (site : Site) (portable : Bool)
  /-- Holds its id. -/
  | numbered (site : Site) (portable : Bool)
  /-- Counted in `submitted_` but not pushed. -/
  | counted (site : Site) (portable : Bool)
  | queued (portable : Bool)
  /-- Dequeued, inside `run_task`. -/
  | executing
  /-- Past its execution, not counted by `finish_one`. -/
  | finishing (cause : Cause) (phase : Phase)
  /-- Taken by `serve_peer` and not tracked. -/
  | serving
  | outstanding
  /-- Erased by the reaper, still in `lost`. -/
  | reaped
  /-- Erased by the reaper, its re-run is being submitted. -/
  | resubmitting
  /-- A copy in the response that `serve_peer` builds. -/
  | copied
  /-- A copy in a response that the steal thread received. -/
  | arrived
  /-- A request inside `JobManager::submit`. -/
  | preparing (recorded : Bool)
  /-- A status that `on_stage_done` still has to write. -/
  | recording
  /-- A completion notice for another node, sent or not. -/
  | owed
  deriving DecidableEq, Repr

structure Token where
  place : Place
  task : Task
  deriving DecidableEq, Repr

/-- The token of a status to be written. -/
def recordingToken (p : StagePayload) : Token :=
  ⟨.recording, { payload := .stage p }⟩

/-- The token of a completion notice. -/
def owedToken (notice : NodeId × Nat) : Token :=
  ⟨.owed, { originNode := notice.1, taskId := notice.2 }⟩

variable {config : NodeConfig}

/-! ## Tokens of a state -/

def Queue.isPool : Queue config → Bool
  | .pool _ => true
  | _ => false

def Queue.all (config : NodeConfig) : List (Queue config) :=
  (List.finRange config.workers).map .deque ++
    (List.finRange config.workers).map .injection ++ pools

theorem Queue.mem_all (queue : Queue config) : queue ∈ Queue.all config := by
  cases queue <;> simp [Queue.all, pools]

theorem Queue.nodup_all : (Queue.all config).Nodup := by
  unfold Queue.all pools
  rw [List.nodup_append, List.nodup_append]
  refine ⟨⟨?_, ?_, ?_⟩, ?_, ?_⟩
  · exact (List.nodup_finRange _).map fun _ _ same => by
      simpa using same
  · exact (List.nodup_finRange _).map fun _ _ same => by
      simpa using same
  · intro first isDeque second isInjection
    obtain ⟨_, _, rfl⟩ := List.mem_map.mp isDeque
    obtain ⟨_, _, rfl⟩ := List.mem_map.mp isInjection
    intro same
    cases same
  · exact (List.nodup_finRange _).map fun _ _ same => by
      simpa using same
  · intro first isLocal second isPool
    obtain ⟨_, _, rfl⟩ := List.mem_map.mp isPool
    rcases List.mem_append.mp isLocal with inDeques | inInjections
    · obtain ⟨_, _, rfl⟩ := List.mem_map.mp inDeques
      intro same
      cases same
    · obtain ⟨_, _, rfl⟩ := List.mem_map.mp inInjections
      intro same
      cases same

def queuedTokens (portable : Bool) (tasks : List Task) : List Token :=
  tasks.map (⟨.queued portable, ·⟩)

def Shared.tokens (shared : Shared config) : List Token :=
  (Queue.all config).flatMap
      (fun queue => queuedTokens queue.isPool (shared.queues queue)) ++
    shared.outstanding.map (⟨.outstanding, ·.task⟩) ++
    shared.completions.map owedToken ++
    shared.results.map owedToken

def SubmitCall.tokens (site : Site) (call : SubmitCall config) : List Token :=
  match call.pc with
  | .takeId => [⟨.created site call.pool.isSome, call.task⟩]
  | .count => [⟨.numbered site call.pool.isSome, call.task⟩]
  | .route => [⟨.counted site false, call.task⟩]
  | .push queue => [⟨.counted site queue.isPool, call.task⟩]

def CompletePc.tokens (cause : Cause) (task : Task) :
    CompletePc config → List Token
  | .observe => [⟨.finishing cause .before, task⟩]
  | .submitting p call =>
      ⟨.finishing cause .during, task⟩ :: recordingToken p ::
        call.tokens .successor
  | .record p => [⟨.finishing cause .after, task⟩, recordingToken p]
  | .finish => [⟨.finishing cause .after, task⟩]

def preparingToken (config : NodeConfig) (recorded : Bool)
    (request : Request) (id : Nat) : Token :=
  ⟨.preparing recorded, (request.payload id).task config.nodeId⟩

def JobPc.tokens (request : Request) : JobPc config → List Token
  | .fetchId => []
  | .emplace id => [preparingToken config false request id]
  | .count id => [preparingToken config true request id]
  | .submitting _ call => call.tokens .request

def UserCall.tokens : UserCall config → List Token
  | .submit call => call.tokens .client
  | .job request pc => pc.tokens request

def ExecutePc.tokens (task : Task) : ExecutePc config → List Token
  | .running call =>
      ⟨.executing, task⟩ :: (call.map UserCall.tokens).getD []
  | .notify origin taskId =>
      [⟨.finishing .executed .before, task⟩, owedToken (origin, taskId)]
  | .localCount => [⟨.finishing .executed .before, task⟩]
  | .completing pc => pc.tokens .executed task
  | .helpedCount => []

def ServePc.tokens : ServePc → List Token
  | .counting _ _ => []
  | .taking _ _ taken =>
      taken.map (⟨.serving, ·⟩) ++ taken.map (⟨.copied, ·⟩)
  | .tracking untracked taken =>
      untracked.map (⟨.serving, ·⟩) ++ taken.map (⟨.copied, ·⟩)
  | .sizing _ _ taken => taken.map (⟨.copied, ·⟩)
  | .sending _ taken => taken.map (⟨.copied, ·⟩)

def ReapPc.tokens : ReapPc config → List Token
  | .next => []
  | .resubmit lost call => ⟨.resubmitting, lost⟩ :: call.tokens .rerun
  | .settle lost pc => pc.tokens .settled lost.settled

def Frame.tokens : Frame config → List Token
  | .worker _ => []
  | .help _ => []
  | .execute task _ pc => pc.tokens task
  | .call begun => begun.tokens
  | .serve _ pc => pc.tokens
  | .resolve task pc => pc.tokens .resolved task
  | .reap lost pc => lost.map (⟨.reaped, ·⟩) ++ pc.tokens
  | .accept _ _ remaining begun =>
      remaining.map (⟨.arrived, ·⟩) ++
        (begun.map (SubmitCall.tokens .stolen)).getD []
  | .complete batch => batch.map owedToken

def stackTokens (stack : List (Frame config)) : List Token :=
  stack.flatMap Frame.tokens

def State.tokens (state : State config) : List Token :=
  state.shared.tokens ++
    state.threads.flatMap fun thread => stackTokens thread.stack

/-- A notice stays on the sender's books when it is sent. -/
theorem State.owed_of_sent {state : State config} {notice : NodeId × Nat}
    (sent : notice ∈ state.shared.results) :
    owedToken notice ∈ state.tokens :=
  List.mem_append_left _
    (List.mem_append_right _ (List.mem_map_of_mem sent))

/-! ## Books -/

structure Books where
  submitted : Nat
  completed : Nat
  nextId : Nat
  jobs : JobManager
  replies : List Reply
  history : List Entry

def Shared.books (shared : Shared config) : Books where
  submitted := shared.submitted
  completed := shared.completed
  nextId := shared.nextId
  jobs := shared.jobs
  replies := shared.replies
  history := shared.history

@[simp]
theorem Shared.books_jobs (shared : Shared config) :
    shared.books.jobs = shared.jobs := rfl

@[simp]
theorem Shared.books_history (shared : Shared config) :
    shared.books.history = shared.history := rfl

@[simp]
theorem Shared.books_replies (shared : Shared config) :
    shared.books.replies = shared.replies := rfl

def Books.remember (books : Books) (entries : List Entry) : Books :=
  { books with history := books.history ++ entries }

/-! ## Events -/

inductive Event where
  /-- Nothing that the tokens or the books show. -/
  | quiet
  /-- Application code begins to submit. -/
  | start (portable : Bool) (task : Task)
  | number (site : Site) (portable : Bool) (task : Task)
  | count (site : Site) (portable : Bool) (task : Task)
  | enqueue (site : Site) (portable : Bool) (task : Task)
  /-- The observer's call of `submit_portable` pushes the next stage of
  `owner`. -/
  | enqueueSuccessor (portable : Bool) (task : Task) (cause : Cause)
      (owner : Task)
  /-- The reaper's call of `submit_task` pushes the re-run of `lost`. -/
  | enqueueRerun (portable : Bool) (task : Task) (lost : Task)
  | dequeue (portable : Bool) (task : Task)
  /-- `run_task` returns. -/
  | ran (task : Task)
  | take (task : Task)
  | track (task : Task)
  /-- `track_outstanding` finds the id already tracked. -/
  | trackTwice (task : Task)
  | send (reply : Reply)
  | resolve (task : Task)
  | reap (lost : List Task)
  | resubmit (lost : Task)
  /-- The observer has nothing to do. -/
  | ignore (cause : Cause) (task : Task)
  /-- `on_stage_done` begins to submit the next stage. -/
  | advance (cause : Cause) (task : Task) (p next : StagePayload)
  | markDone (cause : Cause) (task : Task) (p : StagePayload)
  /-- `on_stage_done` is called for something that is not a stage. -/
  | misread (cause : Cause) (task : Task) (p : StagePayload)
  | record (p : StagePayload)
  | finish (cause : Cause) (task : Task)
  | fetchRequest (request : Request)
  | emplace (request : Request) (id : Nat)
  | countRequest (request : Request) (id : Nat)
  | arrive (tasks : List Task)
  | wrap (task : Task)
  /-- A completion notice is dropped. -/
  | forget (notice : NodeId × Nat)

namespace Event

/-- The notice that the end of a stolen closure owes. -/
def notices (task : Task) : List (NodeId × Nat) :=
  match task.fn with
  | some (.stolen _ _ origin taskId) => [(origin, taskId)]
  | _ => []

def removed (config : NodeConfig) : Event → List Token
  | .quiet | .start .. | .fetchRequest _ | .arrive _ => []
  | .number site portable task => [⟨.created site portable, task⟩]
  | .count site portable task => [⟨.numbered site portable, task⟩]
  | .enqueue site portable task => [⟨.counted site portable, task⟩]
  | .enqueueSuccessor portable task cause owner =>
      [⟨.counted .successor portable, task⟩,
        ⟨.finishing cause .during, owner⟩]
  | .enqueueRerun portable task lost =>
      [⟨.counted .rerun portable, task⟩, ⟨.resubmitting, lost⟩]
  | .dequeue portable task => [⟨.queued portable, task⟩]
  | .ran task => [⟨.executing, task⟩]
  | .take task => [⟨.queued true, task⟩]
  | .track task => [⟨.serving, task⟩]
  | .trackTwice task => [⟨.serving, task⟩]
  | .send reply => reply.tasks.map (⟨.copied, ·⟩)
  | .resolve task => [⟨.outstanding, task⟩]
  | .reap lost => lost.map (⟨.outstanding, ·⟩)
  | .resubmit lost => [⟨.reaped, lost⟩]
  | .ignore cause task => [⟨.finishing cause .before, task⟩]
  | .advance cause task _ _ => [⟨.finishing cause .before, task⟩]
  | .markDone cause task _ => [⟨.finishing cause .before, task⟩]
  | .misread cause task _ => [⟨.finishing cause .before, task⟩]
  | .record p => [recordingToken p]
  | .finish cause task => [⟨.finishing cause .after, task⟩]
  | .emplace request id => [preparingToken config false request id]
  | .countRequest request id => [preparingToken config true request id]
  | .wrap task => [⟨.arrived, task⟩]
  | .forget notice => [owedToken notice]

def added (config : NodeConfig) (books : Books) : Event → List Token
  | .quiet | .trackTwice _ | .send _ | .record _ | .finish .. |
      .forget _ => []
  | .start portable task => [⟨.created .client portable, task⟩]
  | .number site portable task =>
      [⟨.numbered site portable, { task with taskId := books.nextId }⟩]
  | .count site portable task => [⟨.counted site portable, task⟩]
  | .enqueue _ portable task => [⟨.queued portable, task⟩]
  | .enqueueSuccessor portable task cause owner =>
      [⟨.queued portable, task⟩, ⟨.finishing cause .after, owner⟩]
  | .enqueueRerun portable task lost =>
      [⟨.queued portable, task⟩, ⟨.finishing .settled .before, lost.settled⟩]
  | .dequeue _ task => [⟨.executing, task⟩]
  | .ran task =>
      ⟨.finishing .executed .before, task⟩ :: (notices task).map owedToken
  | .take task => [⟨.serving, task⟩, ⟨.copied, task⟩]
  | .track task => [⟨.outstanding, task⟩]
  | .resolve task => [⟨.finishing .resolved .before, task⟩]
  | .reap lost => lost.map (⟨.reaped, ·⟩)
  | .resubmit lost =>
      [⟨.resubmitting, lost⟩, ⟨.created .rerun false, lost.rerun⟩]
  | .ignore cause task => [⟨.finishing cause .after, task⟩]
  | .advance cause task p next =>
      [⟨.finishing cause .during, task⟩, recordingToken p,
        ⟨.created .successor true, next.task config.nodeId⟩]
  | .markDone cause task _ => [⟨.finishing cause .after, task⟩]
  | .misread cause task p =>
      [⟨.finishing cause .after, task⟩, recordingToken p]
  | .fetchRequest request =>
      [preparingToken config false request books.jobs.nextRequestId]
  | .emplace request id => [preparingToken config true request id]
  | .countRequest request id =>
      [⟨.created .request true, (request.payload id).task config.nodeId⟩]
  | .arrive tasks => tasks.map (⟨.arrived, ·⟩)
  | .wrap task => [⟨.created .stolen false, task.stolenFrom⟩]

/-- What the event enters in the books. -/
def enter (config : NodeConfig) (books : Books) : Event → Books
  | .number .. => { books with nextId := books.nextId + 1 }
  | .count _ _ task =>
      ({ books with submitted := books.submitted + 1 } : Books).remember
        [.counted task]
  | .ran task =>
      books.remember (.executed task.taskId :: performs config task)
  | .send reply => { books with replies := books.replies ++ [reply] }
  | .reap lost => books.remember (lost.map fun task => .reaped task.taskId)
  | .advance _ _ p _ => books.remember [.stageDone p]
  | .markDone _ _ p =>
      ({ books with jobs := books.jobs.markDone p } : Books).remember
        [.stageDone p]
  | .misread _ _ p => books.remember [.stageDone p]
  | .record p => { books with jobs := books.jobs.recordStage p }
  | .finish .. => { books with completed := books.completed + 1 }
  | .fetchRequest _ =>
      { books with
        jobs := { books.jobs with
          nextRequestId := books.jobs.nextRequestId + 1 } }
  | .emplace request id =>
      { books with jobs := books.jobs.emplace id request.kind }
  | .countRequest .. =>
      { books with
        jobs := { books.jobs with submitted := books.jobs.submitted + 1 } }
  | _ => books

/-- What is known when the event happens. -/
def Allowed (config : NodeConfig) (tokens : List Token) : Event → Prop
  | .start portable task =>
      (task.fn = none ∨ ∃ body, task.fn = some (.user body)) ∧
        (portable = true → task.fn = none ∧ task.originNode = config.nodeId)
  | .enqueue site _ _ => site ≠ .successor ∧ site ≠ .rerun
  | .trackTwice task =>
      ∃ tracked, ⟨.outstanding, tracked⟩ ∈ tokens ∧
        tracked.taskId = task.taskId
  | .send reply => reply.victim = config.nodeId
  | .ignore _ task => observed config task = none
  | .advance _ task p next =>
      observed config task = some p ∧ p.next? = some next
  | .markDone _ task p =>
      observed config task = some p ∧ p.stage = .postprocess
  | .misread _ task p =>
      observed config task = some p ∧ p.next? = none ∧
        p.stage ≠ .postprocess
  | _ => True

/-- Which action an event that depends on the outside comes from. -/
def CausedBy (config : NodeConfig) (action : Action) : Event → Prop
  | .start _ task =>
      ∃ thread call begun, action = .move thread (.call call) ∧
        call.start config = some (.submit begun) ∧ begun.task = task
  | .resolve task =>
      ∃ thread, action = .move thread (.result task.taskId)
  | .arrive tasks =>
      ∃ thread link, action = .move thread (.reply link tasks)
  | _ => True

/-- The stage whose completion the event writes into the job table. -/
def write? : Event → Option StagePayload
  | .record p => some p
  | .markDone _ _ p => some p
  | _ => none

end Event

/-- Application code wraps nothing but its own callables. -/
theorem Event.Allowed.user {portable : Bool} {task : Task}
    {tokens : List Token}
    (allowed : (Event.start portable task).Allowed config tokens)
    {closure : Closure} (runs : task.fn = some closure) :
    ∃ body, closure = .user body := by
  rcases allowed.1 with none | ⟨body, isUser⟩
  · cases none.symm.trans runs
  · exact ⟨body, Option.some.inj (runs.symm.trans isUser)⟩

/-! ## Where tokens come from -/

/-- A task that is left as it is gets from one place to another. -/
inductive Place.Leads : Place → Place → Prop where
  | enqueue (site : Site) (portable : Bool) :
      Leads (.counted site portable) (.queued portable)
  | dequeue (portable : Bool) : Leads (.queued portable) .executing
  | run : Leads .executing (.finishing .executed .before)
  | track : Leads .serving .outstanding
  | resolve : Leads .outstanding (.finishing .resolved .before)
  | reap : Leads .outstanding .reaped
  | resubmit : Leads .reaped .resubmitting
  | observe (cause : Cause) (phase : Phase) :
      Leads (.finishing cause phase) (.finishing cause .after)

/-- A task that has arrived is not moved. -/
theorem Place.Leads.inside {source target : Place}
    (leads : source.Leads target) : source ≠ .arrived := by
  cases leads <;> exact Place.noConfusion

theorem Place.Leads.stays {source target : Place}
    (leads : source.Leads target) : target ≠ .arrived := by
  cases leads <;> exact Place.noConfusion

/-- What an event adds: a task that has moved, or something new. -/
inductive Event.Yields (config : NodeConfig) (books : Books) :
    Event → Token → Prop where
  | moved {event : Event} {source target : Place} {task : Task}
      (isRemoved : ⟨source, task⟩ ∈ event.removed config)
      (leads : source.Leads target) :
      Yields config books event ⟨target, task⟩
  | start (portable : Bool) (task : Task) :
      Yields config books (.start portable task)
        ⟨.created .client portable, task⟩
  | number (site : Site) (portable : Bool) (task : Task) :
      Yields config books (.number site portable task)
        ⟨.numbered site portable, { task with taskId := books.nextId }⟩
  | count (site : Site) (portable : Bool) (task : Task) :
      Yields config books (.count site portable task)
        ⟨.counted site portable, task⟩
  | serve (task : Task) : Yields config books (.take task) ⟨.serving, task⟩
  | copy (task : Task) : Yields config books (.take task) ⟨.copied, task⟩
  | settle (portable : Bool) (task lost : Task) :
      Yields config books (.enqueueRerun portable task lost)
        ⟨.finishing .settled .before, lost.settled⟩
  | rerun (lost : Task) :
      Yields config books (.resubmit lost)
        ⟨.created .rerun false, lost.rerun⟩
  | owe (task : Task) (notice : NodeId × Nat)
      (owes : notice ∈ Event.notices task) :
      Yields config books (.ran task) (owedToken notice)
  | arrive (tasks : List Task) (task : Task) (inTasks : task ∈ tasks) :
      Yields config books (.arrive tasks) ⟨.arrived, task⟩
  | wrap (task : Task) :
      Yields config books (.wrap task)
        ⟨.created .stolen false, task.stolenFrom⟩
  | advance (cause : Cause) (task : Task) (p next : StagePayload) :
      Yields config books (.advance cause task p next)
        ⟨.finishing cause .during, task⟩
  | successor (cause : Cause) (task : Task) (p next : StagePayload) :
      Yields config books (.advance cause task p next)
        ⟨.created .successor true, next.task config.nodeId⟩
  | record (cause : Cause) (task : Task) (p next : StagePayload) :
      Yields config books (.advance cause task p next) (recordingToken p)
  | misread (cause : Cause) (task : Task) (p : StagePayload) :
      Yields config books (.misread cause task p) (recordingToken p)
  | fetch (request : Request) :
      Yields config books (.fetchRequest request)
        (preparingToken config false request books.jobs.nextRequestId)
  | emplace (request : Request) (id : Nat) :
      Yields config books (.emplace request id)
        (preparingToken config true request id)
  | request (request : Request) (id : Nat) :
      Yields config books (.countRequest request id)
        ⟨.created .request true, (request.payload id).task config.nodeId⟩

theorem Event.yields_of_added {event : Event} {books : Books} {token : Token}
    (isAdded : token ∈ event.added config books) :
    event.Yields config books token := by
  cases event with
  | start portable task =>
      obtain rfl := List.mem_singleton.mp isAdded
      exact .start portable task
  | number site portable task =>
      obtain rfl := List.mem_singleton.mp isAdded
      exact .number site portable task
  | count site portable task =>
      obtain rfl := List.mem_singleton.mp isAdded
      exact .count site portable task
  | enqueue site portable task =>
      obtain rfl := List.mem_singleton.mp isAdded
      exact .moved (List.mem_singleton_self _) (.enqueue site portable)
  | enqueueSuccessor portable task cause owner =>
      rcases List.mem_cons.mp isAdded with rfl | isOwner
      · exact .moved List.mem_cons_self (.enqueue .successor portable)
      · obtain rfl := List.mem_singleton.mp isOwner
        exact .moved (List.mem_cons_of_mem _ List.mem_cons_self)
          (.observe cause .during)
  | enqueueRerun portable task lost =>
      rcases List.mem_cons.mp isAdded with rfl | isLost
      · exact .moved List.mem_cons_self (.enqueue .rerun portable)
      · obtain rfl := List.mem_singleton.mp isLost
        exact .settle portable task lost
  | dequeue portable task =>
      obtain rfl := List.mem_singleton.mp isAdded
      exact .moved (List.mem_singleton_self _) (.dequeue portable)
  | ran task =>
      rcases List.mem_cons.mp isAdded with rfl | isOwed
      · exact .moved (List.mem_singleton_self _) .run
      · obtain ⟨notice, owes, rfl⟩ := List.mem_map.mp isOwed
        exact .owe task notice owes
  | take task =>
      rcases List.mem_cons.mp isAdded with rfl | isCopy
      · exact .serve task
      · obtain rfl := List.mem_singleton.mp isCopy
        exact .copy task
  | track task =>
      obtain rfl := List.mem_singleton.mp isAdded
      exact .moved (List.mem_singleton_self _) .track
  | resolve task =>
      obtain rfl := List.mem_singleton.mp isAdded
      exact .moved (List.mem_singleton_self _) .resolve
  | reap lost =>
      obtain ⟨task, inLost, rfl⟩ := List.mem_map.mp isAdded
      exact .moved (List.mem_map_of_mem inLost) .reap
  | resubmit lost =>
      rcases List.mem_cons.mp isAdded with rfl | isRerun
      · exact .moved (List.mem_singleton_self _) .resubmit
      · obtain rfl := List.mem_singleton.mp isRerun
        exact .rerun lost
  | ignore cause task | markDone cause task p =>
      obtain rfl := List.mem_singleton.mp isAdded
      exact .moved (List.mem_singleton_self _) (.observe cause .before)
  | advance cause task p next =>
      simp only [Event.added, List.mem_cons, List.not_mem_nil,
        or_false] at isAdded
      rcases isAdded with rfl | rfl | rfl
      · exact .advance cause task p next
      · exact .record cause task p next
      · exact .successor cause task p next
  | misread cause task p =>
      rcases List.mem_cons.mp isAdded with rfl | isRecording
      · exact .moved (List.mem_singleton_self _) (.observe cause .before)
      · obtain rfl := List.mem_singleton.mp isRecording
        exact .misread cause task p
  | fetchRequest request =>
      obtain rfl := List.mem_singleton.mp isAdded
      exact .fetch request
  | emplace request id =>
      obtain rfl := List.mem_singleton.mp isAdded
      exact .emplace request id
  | countRequest request id =>
      obtain rfl := List.mem_singleton.mp isAdded
      exact .request request id
  | arrive tasks =>
      obtain ⟨task, inTasks, rfl⟩ := List.mem_map.mp isAdded
      exact .arrive tasks task inTasks
  | wrap task =>
      obtain rfl := List.mem_singleton.mp isAdded
      exact .wrap task
  | _ => cases isAdded

/-! ## Status writes -/

/-- The status that the next access of a completion writes. -/
def CompletePc.write? (task : Task) : CompletePc config → Option StagePayload
  | .observe =>
      match observed config task with
      | some p => if p.stage = .postprocess then some p else none
      | none => none
  | .record p => some p
  | _ => none

def Frame.write? : Frame config → Option StagePayload
  | .execute task _ (.completing pc) => pc.write? task
  | .resolve task pc => pc.write? task
  | .reap _ (.settle lost pc) => pc.write? lost.settled
  | _ => none

/-- The status that an action writes. -/
def State.write? (state : State config) : Action → Option StagePayload
  | .move index (.advance _) => do
      let thread ← state.threads[index]?
      let frame ← thread.stack.head?
      frame.write?
  | _ => none

/-- The event describes the step between the two states. -/
structure Happens (action : Action) (event : Event)
    (before after : State config) : Prop where
  books : after.shared.books = event.enter config before.shared.books
  moves : Moves before.tokens after.tokens (event.removed config)
    (event.added config before.shared.books)
  allowed : event.Allowed config before.tokens
  caused : event.CausedBy config action
  write : event.write? = before.write? action

end HydraRT.Cluster
