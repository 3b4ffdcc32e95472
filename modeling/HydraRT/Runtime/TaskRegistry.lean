import Mathlib

/-!
# Task types and their handlers

A task that crosses a process boundary is a type tag and a payload; every node
looks the tag up in its own handler table.
-/

namespace HydraRT

/-- `enum class TaskType : uint16_t`.  Tags from the wire are cast to it
unchecked, so every 16-bit value occurs. -/
structure TaskType where
  raw : UInt16
  deriving DecidableEq, Repr

namespace TaskType

def generic : TaskType := ⟨0⟩
def syntheticCompute : TaskType := ⟨1⟩
def mandelbrotTile : TaskType := ⟨2⟩
def mergeSortRange : TaskType := ⟨3⟩
def matrixBlock : TaskType := ⟨4⟩

/-- The sentinel `TaskType::Count`, as a size. -/
abbrev count : Nat := 5

instance : NeZero count :=
  ⟨by decide⟩

/-- The array index of a type below `Count`. -/
def slot? (type : TaskType) : Option (Fin count) :=
  if below : type.raw.toNat < count then some ⟨type.raw.toNat, below⟩ else none

def ofSlot (slot : Fin count) : TaskType :=
  ⟨UInt16.ofNat slot.val⟩

@[simp]
theorem slot?_ofSlot (slot : Fin count) : slot? (ofSlot slot) = some slot := by
  revert slot
  decide

end TaskType

/-- What the code of a handler may do.  The stage handler of `JobManager` only
computes; a handler of the application may also submit tasks or wait for a
future on the node that runs it. -/
inductive Handler where
  | runStage
  | user
  deriving DecidableEq, Repr

/-- The table `TaskRegistry::handlers_`. -/
abbrev TaskRegistry := Fin TaskType.count → Option Handler

namespace TaskRegistry

def registerHandler (registry : TaskRegistry) (type : TaskType)
    (handler : Handler) : TaskRegistry :=
  match type.slot? with
  | none => registry
  | some slot => Function.update registry slot (some handler)

/-- The handler `TaskRegistry::run` invokes; it returns false if there is
none. -/
def run (registry : TaskRegistry) (type : TaskType) : Option Handler :=
  type.slot?.bind registry

/-- The table after `JobManager::register_handlers`. -/
def withStageHandlers (registry : TaskRegistry) : TaskRegistry :=
  (registry.registerHandler .syntheticCompute .runStage).registerHandler
    .mandelbrotTile .runStage

end TaskRegistry

end HydraRT
