import HydraRT.Inference.InferenceJob

/-!
# Tasks

A task carries its work either as a closure or as a type tag with a payload.
Closures are represented by what they capture: those the application passes to
`submit`, the one `Node::accept_stolen_task` wraps around a task of another
node, and the one `Node::reap_outstanding` gives to a task it runs again.

Task ids are unbounded: `next_id_` has 64 bits and is never seen to wrap.
-/

namespace HydraRT

open HydraRT.Inference

/-- The id the coordinator gives a node. -/
abbrev NodeId := UInt32

/-- The bytes that `decode_stage` reads. -/
abbrev stageSize : Nat := 22

/-- Payload bytes, up to what `decode_stage` makes of them: bytes that decode
are represented by the stage they decode to, and all others are too short. -/
inductive Payload where
  | empty
  | foreign (bytes : List UInt8) (short : bytes.length < stageSize)
  | stage (p : StagePayload)
  deriving DecidableEq, Repr

/-- `decode_stage`, together with the observer's test for an empty payload. -/
def Payload.decodeStage : Payload → Option StagePayload
  | .stage p => some p
  | _ => none

/-- One byte, which is no stage. -/
def noStage : Payload :=
  .foreign [7] (by decide)

/-- The closures that occur as `Task::fn`. -/
inductive Closure where
  /-- A callable passed to `submit` or `spawn`. -/
  | user (body : Nat)
  /-- The closure of `accept_stolen_task`. -/
  | stolen (type : TaskType) (payload : Payload) (origin : NodeId)
      (taskId : Nat)
  /-- The closure of `reap_outstanding`.  It captures the type and the payload;
  `lost` remembers for the history which task is run again. -/
  | rerun (type : TaskType) (payload : Payload) (lost : Nat)
  deriving DecidableEq, Repr

/-- The fields of `Task` that scheduling reads. -/
structure Task where
  taskId : Nat := 0
  costHint : UInt32 := 1
  originNode : NodeId := 0
  type : TaskType := .generic
  fn : Option Closure := none
  payload : Payload := .empty
  deriving DecidableEq, Repr

namespace Task

/-- `Task::portable`. -/
def portable (task : Task) : Bool :=
  task.fn.isNone && task.type != .generic

end Task

/-- What running a task means: calling its closure, or calling the handler of
its type on its payload. -/
inductive Work where
  | closure (fn : Closure)
  | handler (type : TaskType) (payload : Payload)
  deriving DecidableEq, Repr

def Task.work (task : Task) : Work :=
  match task.fn with
  | some fn => .closure fn
  | none => .handler task.type task.payload

namespace TaskRegistry

/-- The handler that `run_task` ends up in, if it finds one. -/
def handlerFor (registry : TaskRegistry) (task : Task) : Option Handler :=
  match task.fn with
  | none => registry.run task.type
  | some (.user _) => some .user
  | some (.stolen type _ _ _) => registry.run type
  | some (.rerun type _ _) => registry.run type

end TaskRegistry

/-- The task `accept_stolen_task` submits for a task of another node. -/
def Task.stolenFrom (remote : Task) : Task where
  fn := some (.stolen remote.type remote.payload remote.originNode
    remote.taskId)

/-- The copy of a lost task that `reap_outstanding` submits. -/
def Task.rerun (lost : Task) : Task :=
  { lost with fn := some (.rerun lost.type lost.payload lost.taskId) }

/-- What `reap_outstanding` passes to `on_remote_task_complete`. -/
def Task.settled (lost : Task) : Task where
  taskId := lost.taskId

/-- The task `JobManager::submit_stage` submits. -/
def Inference.StagePayload.task (p : StagePayload) (node : NodeId) : Task where
  costHint := stageCostUnits p
  originNode := node
  type := taskTypeFor p.stage
  payload := .stage p

/-! ## Stages of requests -/

/-- The request that a task's payload names. -/
def Task.request? (task : Task) : Option Nat :=
  task.payload.decodeStage.map StagePayload.requestId

/-- The request and the rank of the stage that a task's payload names. -/
def Task.stage? (task : Task) : Option (Nat × Nat) :=
  task.payload.decodeStage.map fun p => (p.requestId, p.stage.rank)

@[simp]
theorem request?_rerun (lost : Task) :
    lost.rerun.request? = lost.request? := rfl

@[simp]
theorem request?_settled (lost : Task) : lost.settled.request? = none := rfl

@[simp]
theorem request?_stolenFrom (remote : Task) :
    remote.stolenFrom.request? = none := rfl

@[simp]
theorem request?_task (p : StagePayload) (node : NodeId) :
    (p.task node).request? = some p.requestId := rfl

@[simp]
theorem fn_task (p : StagePayload) (node : NodeId) :
    (p.task node).fn = none := rfl

@[simp]
theorem stage?_rerun (lost : Task) : lost.rerun.stage? = lost.stage? := rfl

@[simp]
theorem stage?_settled (lost : Task) : lost.settled.stage? = none := rfl

@[simp]
theorem stage?_stolenFrom (remote : Task) :
    remote.stolenFrom.stage? = none := rfl

@[simp]
theorem stage?_task (p : StagePayload) (node : NodeId) :
    (p.task node).stage? = some (p.requestId, p.stage.rank) := rfl

section Reads

variable {task : Task} {p : StagePayload}

theorem request?_eq (reads : task.payload.decodeStage = some p) :
    task.request? = some p.requestId := by
  simp [Task.request?, reads]

theorem stage?_eq (reads : task.payload.decodeStage = some p) :
    task.stage? = some (p.requestId, p.stage.rank) := by
  simp [Task.stage?, reads]

theorem request?_eq_none (reads : task.payload.decodeStage = none) :
    task.request? = none := by
  simp [Task.request?, reads]

theorem stage?_eq_none (reads : task.payload.decodeStage = none) :
    task.stage? = none := by
  simp [Task.stage?, reads]

end Reads

end HydraRT
