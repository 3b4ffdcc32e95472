import HydraRT.Cluster.Node
import HydraRT.Lib.Scan
import HydraRT.Runtime.SequentialDeque

/-!
# The two searches for work

`Worker::run` and `Runtime::try_execute_one` look for a task in the workers'
deques, the injection queues and the portable pools, each in an order of its
own.  Here one of them runs alone: every access of the loop body or of the call
is made without interruption, on deques that are in between two calls, wherever
in their rings their tasks lie.

What a task or the observer does outside the scheduler is a parameter.
-/

namespace HydraRT.IdleScan

open HydraRT.Lib.Scan

variable {workers : Nat} {World : Type}

/-! ## The scheduler -/

/-- What the code of closures, handlers and the observer does. -/
structure Effects (World : Type) where
  call : Work → World → World
  handlers : TaskRegistry
  observer : Option (Task → World → World)

structure Scheduler (workers : Nat) (World : Type) where
  deques : Fin workers → ChaseLev.State Task
  injectionQueues : Fin workers → List Task
  remotePools : Fin TaskType.count → List Task
  submitted : Nat
  completed : Nat
  shutdownFlag : Bool
  localExecuted : Nat
  helped : Nat
  /-- `idle_rounds`, a local variable of `Worker::run`. -/
  idleRounds : Fin workers → UInt32
  stealAttempts : Fin workers → Nat
  stealSuccesses : Fin workers → Nat
  world : World
  /-- The tasks passed to `run_task`, and whether they count as stolen. -/
  executed : List (Task × Bool)

/-- How the body of the loop in `Worker::run` ends. -/
inductive Turn where
  /-- `break`. -/
  | leave
  /-- `continue`. -/
  | again
  | yield
  | sleep (microseconds : Nat)
  deriving DecidableEq, Repr

/-- Whether a task was found, if the loop goes on. -/
def Turn.found : Turn → Option Bool
  | .leave => none
  | .again => some true
  | .yield => some false
  | .sleep _ => some false

/-- A call that may come back with a task.  It has no result where the code
would follow an invalid pointer. -/
abbrev Search (workers : Nat) (World : Type) :=
  Scheduler workers World → Option (Scheduler workers World × Option Task)

namespace Scheduler

/-! ### Execution -/

/-- `run_task`.  Without a handler nothing is run. -/
def runTask (effects : Effects World) (task : Task) (stolen : Bool)
    (s : Scheduler workers World) : Scheduler workers World :=
  { s with
    executed := s.executed ++ [(task, stolen)]
    world :=
      if task.fn.isSome || (effects.handlers.run task.type).isSome then
        effects.call task.work s.world
      else s.world }

/-- `on_task_complete` with `finish_one`. -/
def onTaskComplete (effects : Effects World) (task : Task)
    (s : Scheduler workers World) : Scheduler workers World :=
  { s with
    localExecuted := s.localExecuted + 1
    world :=
      match effects.observer with
      | none => s.world
      | some observer => observer task s.world
    completed := s.completed + 1 }

/-- `Worker::execute`. -/
def execute (effects : Effects World) (task : Task) (stolen : Bool)
    (s : Scheduler workers World) : Scheduler workers World :=
  (s.runTask effects task stolen).onTaskComplete effects task

/-- `Runtime::execute_helped`. -/
def executeHelped (effects : Effects World) (task : Task) (stolen : Bool)
    (s : Scheduler workers World) : Scheduler workers World :=
  let after := (s.runTask effects task stolen).onTaskComplete effects task
  { after with helped := after.helped + 1 }

/-! ### Queues -/

/-- A call of a deque, if it returns `false` or a task. -/
def callDeque (owner : Fin workers) (call : ChaseLev.Call Task) :
    Search workers World := fun s =>
  match (s.deques owner).perform call with
  | some (after, .refused) =>
      some ({ s with deques := Function.update s.deques owner after }, none)
  | some (after, .taken (some task)) =>
      some ({ s with deques := Function.update s.deques owner after },
        some task)
  | _ => none

/-- `t_current_queue != nullptr && t_current_queue->pop(t)`. -/
def popCurrent (home : Option (Fin workers)) : Search workers World := fun s =>
  match home with
  | none => some (s, none)
  | some owner => callDeque owner .pop s

/-- `InjectionQueue::pop` on a queue of `injection_queues_`. -/
def popInjection (index : Fin workers) : Search workers World := fun s =>
  match s.injectionQueues index with
  | [] => some (s, none)
  | task :: rest =>
      some ({ s with
        injectionQueues := Function.update s.injectionQueues index rest },
        some task)

/-- `InjectionQueue::pop` on a queue of `remote_pools_`. -/
def popPool (slot : Fin TaskType.count) : Search workers World := fun s =>
  match s.remotePools slot with
  | [] => some (s, none)
  | task :: rest =>
      some ({ s with
        remotePools := Function.update s.remotePools slot rest }, some task)

/-- A loop that stops at the first task. -/
def tryEach : List (Search workers World) → Scheduler workers World →
    Option (Scheduler workers World × Option Task)
  | [], s => some (s, none)
  | search :: rest, s =>
      match search s with
      | some (after, none) => tryEach rest after
      | result => result

/-! ### The loop body and the call -/

/-- A stage of a search: what it finds is dealt with by `hit`, and after a
`miss` the code goes on. -/
def stage {Result : Type} (search : Search workers World)
    (hit : Task → Scheduler workers World → Result)
    (miss : Scheduler workers World → Option Result)
    (s : Scheduler workers World) : Option Result :=
  match search s with
  | some (after, some task) => some (hit task after)
  | some (after, none) => miss after
  | none => none

def others (home : Option (Fin workers)) : List (Fin workers) :=
  (List.finRange workers).filter (some · ≠ home)

/-- `Runtime::try_execute_one`, called by a worker, its `home`, or by a thread
that has no deque. -/
def tryExecuteOne (effects : Effects World) (home : Option (Fin workers)) :
    Scheduler workers World → Option (Scheduler workers World × Bool) :=
  let helped (stolen : Bool) (task : Task) (s : Scheduler workers World) :=
    (s.executeHelped effects task stolen, true)
  stage (popCurrent home) (helped false) <|
  stage (tryEach ((List.finRange workers).map popInjection)) (helped true) <|
  stage (tryEach ((List.finRange TaskType.count).map popPool))
    (helped false) <|
  stage (tryEach ((others home).map (callDeque · .steal))) (helped true) <|
  fun s => some (s, false)

end Scheduler

/-! ## What the queues hold -/

inductive Place (workers : Nat) where
  | deque (owner : Fin workers)
  | injection (index : Fin workers)
  | pool (slot : Fin TaskType.count)
  deriving DecidableEq, Repr

namespace Scheduler

/-- The distribution of the tasks, front first. -/
def contents (s : Scheduler workers World) : Place workers → List Task
  | .deque owner => (s.deques owner).stored.filterMap (s.deques owner).task
  | .injection index => s.injectionQueues index
  | .pool slot => s.remotePools slot

/-- Nobody is in a call of a deque. -/
def Quiescent (s : Scheduler workers World) : Prop :=
  ∀ owner, (s.deques owner).Holds (s.contents (.deque owner))

end Scheduler

/-- What the owner of a deque takes. -/
def takeBack (tasks : List Task) : Option (Task × List Task) :=
  tasks.getLast?.map fun task => (task, tasks.dropLast)

/-- What everyone else takes. -/
def takeFront : List Task → Option (Task × List Task)
  | [] => none
  | task :: rest => some (task, rest)

/-- What the worker `home`, or a thread without a deque, takes from a place. -/
def takeAt (home : Option (Fin workers)) :
    Place workers → List Task → Option (Task × List Task)
  | .deque owner, tasks =>
      if home = some owner then takeBack tasks else takeFront tasks
  | .injection _, tasks => takeFront tasks
  | .pool _, tasks => takeFront tasks

namespace Scheduler

variable {s after : Scheduler workers World}
  {home : Option (Fin workers)}

/-! ## Changes of one queue -/

/-- From `s` only queues have changed, and they hold `left` now. -/
structure Leaves (s after : Scheduler workers World)
    (left : Place workers → List Task) : Prop where
  quiescent : after.Quiescent
  contents : after.contents = left
  executed : after.executed = s.executed
  completed : after.completed = s.completed

theorem Leaves.refl (quiescent : s.Quiescent) : s.Leaves s s.contents :=
  ⟨quiescent, rfl, rfl, rfl⟩

theorem Leaves.trans {last : Scheduler workers World}
    {left later : Place workers → List Task} (leaves : s.Leaves after left)
    (further : after.Leaves last later) : s.Leaves last later :=
  ⟨further.quiescent, further.contents,
    further.executed.trans leaves.executed,
    further.completed.trans leaves.completed⟩

theorem tasks_eq_of_holds {deque : ChaseLev.State Task} {tasks : List Task}
    (holds : deque.Holds tasks) :
    deque.stored.filterMap deque.task = tasks := by
  have mapped := congrArg (List.filterMap id) holds.content
  rw [List.filterMap_map, List.filterMap_map] at mapped
  simpa using mapped

/-- The call takes the first task it finds in `places`, and does nothing
else to the queues. -/
def Searches (home : Option (Fin workers)) (places : List (Place workers))
    (search : Search workers World) : Prop :=
  ∀ s : Scheduler workers World, s.Quiescent → ∃ after,
    search s = some (after, (takeFirst (takeAt home) s.contents places).2) ∧
      s.Leaves after (takeFirst (takeAt home) s.contents places).1

/-- One more task has been run and completed, and the queues are as they
were. -/
structure Executes (s : Scheduler workers World) (task : Task)
    (after : Scheduler workers World) : Prop where
  deques : after.deques = s.deques
  injectionQueues : after.injectionQueues = s.injectionQueues
  remotePools : after.remotePools = s.remotePools
  executed : ∃ stolen, after.executed = s.executed ++ [(task, stolen)]
  completed : after.completed = s.completed + 1

theorem Executes.contents_eq {task : Task} (executes : s.Executes task after) :
    after.contents = s.contents := by
  funext place
  cases place with
  | deque owner => rw [contents, contents, executes.deques]
  | injection index => rw [contents, contents, executes.injectionQueues]
  | pool slot => rw [contents, contents, executes.remotePools]

theorem Executes.quiescent {task : Task} (executes : s.Executes task after)
    (quiescent : s.Quiescent) : after.Quiescent := by
  intro owner
  rw [executes.contents_eq, executes.deques]
  exact quiescent owner

/-- The queues hold `left` now, and what was found has been run. -/
structure Completes (s after : Scheduler workers World)
    (left : Place workers → List Task) (found : Option Task) : Prop where
  quiescent : after.Quiescent
  contents : after.contents = left
  executed : ∃ stolen,
    after.executed = s.executed ++ found.toList.map (·, stolen)
  completed : after.completed = s.completed + found.toList.length

/-- The code takes the first task it finds in `places` and runs it.  `found`
reads off its result whether there was one. -/
def Serves {Result : Type} (found : Result → Option Bool)
    (home : Option (Fin workers)) (places : List (Place workers))
    (code : Scheduler workers World →
      Option (Scheduler workers World × Result)) : Prop :=
  ∀ s : Scheduler workers World, s.Quiescent → ∃ after result,
    code s = some (after, result) ∧
      s.Completes after (takeFirst (takeAt home) s.contents places).1
        (takeFirst (takeAt home) s.contents places).2 ∧
      found result =
        some (takeFirst (takeAt home) s.contents places).2.isSome

section Stages

variable {Result : Type} {found : Result → Option Bool}
  {first second : List (Place workers)} {search : Search workers World}
  {hit : Task → Scheduler workers World → Scheduler workers World × Result}
  {miss : Scheduler workers World → Option (Scheduler workers World × Result)}

theorem Serves.stage (searches : Searches home first search)
    (hits : ∀ task (s : Scheduler workers World),
      s.Executes task (hit task s).1 ∧ found (hit task s).2 = some true)
    (misses : Serves found home second miss) :
    Serves found home (first ++ second) (stage search hit miss) := by
  intro s quiescent
  obtain ⟨after, ran, leaves⟩ := searches s quiescent
  cases outcome : (takeFirst (takeAt home) s.contents first).2 with
  | none =>
      rw [outcome] at ran
      rw [takeFirst_of_none outcome] at leaves
      obtain ⟨last, result, continued, completes, verdict⟩ :=
        misses after leaves.quiescent
      rw [leaves.contents] at completes verdict
      rw [takeFirst_append_of_none outcome]
      refine ⟨last, result, ?_, ?_, verdict⟩
      · rw [Scheduler.stage, ran]
        exact continued
      · obtain ⟨quiet, contents, executed, completed⟩ := completes
        rw [leaves.executed] at executed
        rw [leaves.completed] at completed
        exact ⟨quiet, contents, executed, completed⟩
  | some task =>
      rw [outcome] at ran
      obtain ⟨executes, verdict⟩ := hits task after
      obtain ⟨stolen, executed⟩ := executes.executed
      rw [takeFirst_append_of_some outcome, outcome]
      refine ⟨_, _, by rw [Scheduler.stage, ran], ?_, verdict⟩
      refine ⟨executes.quiescent leaves.quiescent,
        executes.contents_eq.trans leaves.contents, ⟨stolen, ?_⟩, ?_⟩
      · rw [executed, leaves.executed]
        rfl
      · rw [executes.completed, leaves.completed]
        rfl

end Stages

/-! ## The orders of search -/

def poolPlaces : List (Place workers) :=
  (List.finRange TaskType.count).map .pool

/-- The places a round of `Worker::run` looks into. -/
def loopPlaces (worker : Fin workers) : List (Place workers) :=
  [.deque worker] ++ ([.injection worker] ++ (poolPlaces ++
    ((others (some worker)).map .injection ++
      ((others (some worker)).map .deque ++ []))))

/-- The places `try_execute_one` looks into. -/
def helpPlaces (home : Option (Fin workers)) : List (Place workers) :=
  home.toList.map .deque ++ ((List.finRange workers).map .injection ++
    (poolPlaces ++ ((others home).map .deque ++ [])))

/-- A deque counts as quiescent after any run, however many threads took part
in it, once they are all between two calls. -/
theorem quiescent_of_reachable
    (reachable : ∀ owner, ∃ deque : ChaseLev.State Task,
      (ChaseLev.machine Task).Reachable deque ∧ deque.owner = .idle ∧
        s.deques owner = { deque with thieves := [.idle] }) :
    s.Quiescent := by
  intro owner
  obtain ⟨deque, reached, isIdle, same⟩ := reachable owner
  obtain ⟨tasks, holds⟩ :=
    ChaseLev.State.exists_holds_of_reachable reached isIdle
  rw [contents, same, tasks_eq_of_holds holds]
  exact holds

/-- Every distribution of tasks occurs. -/
theorem exists_quiescent (world : World)
    (distribution : Place workers → List Task) :
    ∃ s : Scheduler workers World, s.Quiescent ∧
      s.contents = distribution ∧ s.shutdownFlag = false := by
  have deques : ∀ owner : Fin workers, ∃ deque : ChaseLev.State Task,
      deque.Holds (distribution (.deque owner)) := by
    intro owner
    obtain ⟨deque, _, holds⟩ := (ChaseLev.State.holds_create 1024).performAll
      ((distribution (.deque owner)).map .push)
    rw [ChaseLev.listPerformAll_push] at holds
    exact ⟨deque, holds⟩
  choose deque holds using deques
  let s : Scheduler workers World :=
    { deques := deque
      injectionQueues := fun index => distribution (.injection index)
      remotePools := fun slot => distribution (.pool slot)
      submitted := 0, completed := 0, shutdownFlag := false
      localExecuted := 0, helped := 0, idleRounds := fun _ => 0
      stealAttempts := fun _ => 0, stealSuccesses := fun _ => 0
      world := world, executed := [] }
  have same : s.contents = distribution := by
    funext place
    cases place with
    | deque owner => exact tasks_eq_of_holds (holds owner)
    | injection index => rfl
    | pool slot => rfl
  refine ⟨s, ?_, same, rfl⟩
  intro owner
  rw [same]
  exact holds owner

end Scheduler

section Node

variable {config : Cluster.NodeConfig}

/-- A place as the model of a node names it. -/
def Place.queue : Place config.workers → Cluster.Queue config
  | .deque owner => .deque owner
  | .injection index => .injection index
  | .pool slot => .pool slot

/-- Step by step, a worker of a node looks into the same places. -/
theorem map_queue_loopPlaces (worker : Fin config.workers) :
    (Scheduler.loopPlaces worker).map Place.queue =
      Cluster.scanOrder worker := by
  simp [Scheduler.loopPlaces, Scheduler.poolPlaces, Scheduler.others,
    Cluster.scanOrder, Cluster.pools, Cluster.otherWorkers, Place.queue,
    Function.comp_def]

theorem map_queue_helpPlaces (home : Option (Fin config.workers)) :
    (Scheduler.helpPlaces home).map Place.queue = Cluster.helpOrder home := by
  simp [Scheduler.helpPlaces, Scheduler.poolPlaces, Scheduler.others,
    Cluster.helpOrder, Cluster.pools, Cluster.otherWorkers, Place.queue,
    Function.comp_def]

/-- And a steal that does not miss takes the same task. -/
theorem take?_queue (shared : Cluster.Shared config)
    (home : Option (Fin config.workers)) (place : Place config.workers) :
    shared.take? home place.queue false =
      (takeAt home place (shared.queues place.queue)).map
        fun (task, left) => (task, shared.put place.queue left) := by
  cases place with
  | deque owner =>
      by_cases own : home = some owner
      · simp only [Cluster.Shared.take?, takeAt, Place.queue, if_pos own,
          takeBack]
        cases (shared.queues (.deque owner)).getLast? <;> rfl
      · simp only [Cluster.Shared.take?, takeAt, Place.queue, if_neg own]
        cases shared.queues (.deque owner) <;> rfl
  | injection index =>
      simp only [Cluster.Shared.take?, takeAt, Place.queue]
      cases shared.queues (.injection index) <;> rfl
  | pool slot =>
      simp only [Cluster.Shared.take?, takeAt, Place.queue]
      cases shared.queues (.pool slot) <;> rfl

end Node

end HydraRT.IdleScan
