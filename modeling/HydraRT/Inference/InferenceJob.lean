import HydraRT.Runtime.TaskRegistry

/-!
# Inference requests and their stages

Every request runs through four stages, each a task of its own whose payload
says which stage of which request it is.  Request ids are unbounded here: the
64-bit counter they come from is never seen to wrap.
-/

namespace HydraRT.Inference

/-- `enum class ModelKind : uint8_t`, cast unchecked from the wire. -/
structure ModelKind where
  raw : UInt8
  deriving DecidableEq, Repr

namespace ModelKind

def imageClassifier : ModelKind := ⟨0⟩
def textTransformer : ModelKind := ⟨1⟩

end ModelKind

/-- `enum class Stage : uint8_t`, cast unchecked from the wire. -/
structure Stage where
  raw : UInt8
  deriving DecidableEq, Repr

namespace Stage

def decode : Stage := ⟨0⟩
def preprocess : Stage := ⟨1⟩
def infer : Stage := ⟨2⟩
def postprocess : Stage := ⟨3⟩

/-- The position of a stage in the chain. -/
def rank (stage : Stage) : Nat :=
  stage.raw.toNat

/-- `static_cast<Stage>(static_cast<uint8_t>(stage) + 1)`. -/
def succ (stage : Stage) : Stage :=
  ⟨stage.raw + 1⟩

/-- The four stages in order. -/
def chain : List Stage :=
  [decode, preprocess, infer, postprocess]

theorem ext_rank {first second : Stage}
    (same : first.rank = second.rank) : first = second := by
  cases first
  cases second
  exact congrArg Stage.mk (UInt8.toNat_inj.mp same)

/-- The stage of a given rank is where the chain has it. -/
theorem chain_getElem? {stage : Stage} (known : stage.rank < 4) :
    chain[stage.rank]? = some stage := by
  have listed : ∀ rank < 4, ∀ entry, chain[rank]? = some entry →
      entry.rank = rank := by
    decide
  have bound : stage.rank < chain.length := known
  rw [List.getElem?_eq_getElem bound]
  congr 1
  exact ext_rank (listed _ known _ (List.getElem?_eq_getElem bound))

theorem chain_take_succ {stage : Stage} (known : stage.rank < 4) :
    chain.take stage.rank ++ [stage] = chain.take (stage.rank + 1) := by
  rw [List.take_add_one, chain_getElem? known]
  rfl

theorem rank_succ {stage : Stage} (early : stage.rank < 255) :
    stage.succ.rank = stage.rank + 1 := by
  unfold rank at early
  have wrapped : (stage.raw + 1).toNat = (stage.raw.toNat + 1) % 256 := by
    simp [UInt8.toNat_add]
  change (stage.raw + 1).toNat = stage.raw.toNat + 1
  omega

end Stage

/-- A client request, without the id `JobManager::submit` gives it. -/
structure Request where
  kind : ModelKind
  imagePixels : UInt32 := 50176
  sequenceLength : UInt32 := 128
  batchSize : UInt32 := 1
  deriving DecidableEq, Repr

/-- One stage of one request. -/
structure StagePayload where
  requestId : Nat
  kind : ModelKind
  stage : Stage
  imagePixels : UInt32
  sequenceLength : UInt32
  batchSize : UInt32
  deriving DecidableEq, Repr

/-- `stage_cost_units`: computed in 64 bits and capped to 32. -/
def stageCostUnits (p : StagePayload) : UInt32 :=
  let atLeastOne (size : UInt32) : UInt64 :=
    if size ≠ 0 then size.toUInt64 else 1
  let px := atLeastOne p.imagePixels
  let len := atLeastOne p.sequenceLength
  let base : UInt64 :=
    if p.kind = .imageClassifier then
      if p.stage = .decode then 200 + px / 64
      else if p.stage = .preprocess then 300 + px / 16
      else if p.stage = .infer then 2000 + px / 2
      else if p.stage = .postprocess then 150
      else 0
    else if p.kind = .textTransformer then
      if p.stage = .decode then 100 + len
      else if p.stage = .preprocess then 200 + len * 4
      else if p.stage = .infer then 1000 + len * len / 4
      else if p.stage = .postprocess then 120 + len / 2
      else 0
    else 0
  let units := base * atLeastOne p.batchSize
  if units > 0xFFFFFFFF then 0xFFFFFFFF else units.toUInt32

/-- `task_type_for`. -/
def taskTypeFor (stage : Stage) : TaskType :=
  if stage = .infer then .mandelbrotTile else .syntheticCompute

/-- The first payload of a request. -/
def Request.payload (request : Request) (id : Nat) : StagePayload where
  requestId := id
  kind := request.kind
  stage := .decode
  imagePixels := request.imagePixels
  sequenceLength := request.sequenceLength
  batchSize := request.batchSize

@[simp]
theorem Request.payload_requestId (request : Request) (id : Nat) :
    (request.payload id).requestId = id := rfl

@[simp]
theorem Request.payload_rank (request : Request) (id : Nat) :
    (request.payload id).stage.rank = 0 := rfl

/-- The payload `on_stage_done` submits next, if the stage has a successor. -/
def StagePayload.next? (p : StagePayload) : Option StagePayload :=
  if p.stage = .decode then some { p with stage := .preprocess }
  else if p.stage = .preprocess then some { p with stage := .infer }
  else if p.stage = .infer then some { p with stage := .postprocess }
  else none

theorem StagePayload.next?_eq_some
    {p following : StagePayload} (next : p.next? = some following) :
    following.requestId = p.requestId ∧ p.stage.rank < 3 ∧
      following.stage.rank = p.stage.rank + 1 := by
  unfold next? at next
  split at next
  · rename_i atDecode
    cases next
    rw [atDecode]
    exact ⟨rfl, by decide, rfl⟩
  · split at next
    · rename_i atPreprocess
      cases next
      rw [atPreprocess]
      exact ⟨rfl, by decide, rfl⟩
    · split at next
      · rename_i atInfer
        cases next
        rw [atInfer]
        exact ⟨rfl, by decide, rfl⟩
      · cases next

/-- Every stage but the last of the four has a successor. -/
theorem StagePayload.last_of_next?_eq_none
    {p : StagePayload} (known : p.stage.rank < 4) (none : p.next? = none) :
    p.stage = .postprocess := by
  unfold next? at none
  split at none
  · cases none
  · rename_i notDecode
    split at none
    · cases none
    · rename_i notPreprocess
      split at none
      · cases none
      · rename_i notInfer
        have notFirst : p.stage.rank ≠ 0 := fun zero =>
          notDecode (Stage.ext_rank zero)
        have notSecond : p.stage.rank ≠ 1 := fun one =>
          notPreprocess (Stage.ext_rank one)
        have notThird : p.stage.rank ≠ 2 := fun two =>
          notInfer (Stage.ext_rank two)
        apply Stage.ext_rank
        change p.stage.rank = 3
        omega

end HydraRT.Inference
