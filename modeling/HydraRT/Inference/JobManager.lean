import HydraRT.Inference.InferenceJob
import HydraRT.Lib.Weight

/-!
# The job table

The part of `JobManager` that `mutex_` protects, with the counters beside it.
Each function here is one critical section.  Timestamps are left out, and
`next_request_id_` is a number that has not reached 2^64.
-/

namespace HydraRT.Inference

open HydraRT.Lib

inductive JobState where
  | queued
  | running
  | done
  deriving DecidableEq, Repr

structure JobStatus where
  requestId : Nat
  state : JobState
  stage : Stage
  kind : ModelKind
  deriving DecidableEq, Repr

structure JobManager where
  jobs : List JobStatus := []
  nextRequestId : Nat := 1
  submitted : Nat := 0
  completed : Nat := 0
  deriving DecidableEq, Repr

namespace JobManager

/-- `JobManager::status`. -/
def status (manager : JobManager) (id : Nat) : Option JobStatus :=
  manager.jobs.find? (·.requestId == id)

/-- Rewrite the entry of a request, if there is one. -/
def modify (manager : JobManager) (id : Nat)
    (change : JobStatus → JobStatus) : JobManager :=
  { manager with
    jobs := manager.jobs.map fun entry =>
      if entry.requestId = id then change entry else entry }

/-- The critical section of `JobManager::submit`. -/
def emplace (manager : JobManager) (id : Nat) (kind : ModelKind) :
    JobManager :=
  if (manager.status id).isSome then manager
  else { manager with jobs := manager.jobs ++ [⟨id, .running, .decode, kind⟩] }

/-- The critical section at the end of `on_stage_done`. -/
def recordStage (manager : JobManager) (p : StagePayload) : JobManager :=
  manager.modify p.requestId fun entry => { entry with stage := p.stage.succ }

/-- The critical section of `on_stage_done` for the last stage. -/
def markDone (manager : JobManager) (p : StagePayload) : JobManager :=
  match manager.status p.requestId with
  | none => manager
  | some entry =>
      if entry.state = .done then manager
      else
        { manager.modify p.requestId
            (fun entry =>
              { entry with state := .done, stage := .postprocess }) with
          completed := manager.completed + 1 }

/-- The number of entries that are `Done`. -/
def doneCount (manager : JobManager) : Nat :=
  manager.jobs.countP (·.state == .done)

def isDone (manager : JobManager) (id : Nat) : Prop :=
  ∃ entry, manager.status id = some entry ∧ entry.state = .done

instance (manager : JobManager) (id : Nat) : Decidable (manager.isDone id) :=
  decidable_of_iff ((manager.status id).any (·.state == .done)) (by
    simp [isDone, Option.any_eq_true])

/-- No request has two entries. -/
def KeysDistinct (manager : JobManager) : Prop :=
  (manager.jobs.map JobStatus.requestId).Nodup

/-! ## Lookups after a critical section -/

theorem status_eq_none {manager : JobManager} {id : Nat} :
    manager.status id = none ↔ ∀ entry ∈ manager.jobs, entry.requestId ≠ id := by
  simp [status]

theorem status_modify
    (manager : JobManager) (id : Nat) (change : JobStatus → JobStatus)
    (keepsKey : ∀ entry, (change entry).requestId = entry.requestId)
    (other : Nat) :
    (manager.modify id change).status other =
      if other = id then (manager.status other).map change
      else manager.status other := by
  unfold status modify
  induction manager.jobs with
  | nil =>
      simp
  | cons entry rest inductionHypothesis =>
      have key : (if entry.requestId = id then change entry
          else entry).requestId = entry.requestId := by
        split
        · exact keepsKey entry
        · rfl
      rw [List.map_cons, List.find?_cons, List.find?_cons, key]
      by_cases same : entry.requestId = other
      · simp only [same, beq_self_eq_true]
        split <;> rfl
      · have different : (entry.requestId == other) = false := by
          simpa using same
        rw [different]
        exact inductionHypothesis

theorem status_emplace
    {manager : JobManager} {id : Nat} (kind : ModelKind)
    (fresh : manager.status id = none) (other : Nat) :
    (manager.emplace id kind).status other =
      if other = id then some ⟨id, .running, .decode, kind⟩
      else manager.status other := by
  unfold emplace
  rw [fresh]
  simp only [Option.isSome_none, Bool.false_eq_true, if_false]
  unfold status at fresh ⊢
  rw [List.find?_append]
  by_cases same : other = id
  · subst same
    simp [fresh]
  · have different : (id == other) = false := by
      simpa using fun equal => same equal.symm
    simp [same, different]

theorem status_recordStage
    (manager : JobManager) (p : StagePayload) (other : Nat) :
    (manager.recordStage p).status other =
      if other = p.requestId then
        (manager.status other).map fun entry =>
          { entry with stage := p.stage.succ }
      else manager.status other := by
  exact status_modify manager p.requestId
    (fun entry => { entry with stage := p.stage.succ }) (fun _ => rfl) other

theorem status_markDone
    {manager : JobManager} {p : StagePayload} {entry : JobStatus}
    (found : manager.status p.requestId = some entry)
    (notDone : entry.state ≠ .done) (other : Nat) :
    (manager.markDone p).status other =
      if other = p.requestId then
        some { entry with state := .done, stage := .postprocess }
      else manager.status other := by
  have modified := status_modify manager p.requestId
    (fun entry => { entry with state := .done, stage := .postprocess })
    (fun _ => rfl) other
  unfold markDone
  rw [found]
  simp only [notDone, if_false]
  refine modified.trans ?_
  by_cases same : other = p.requestId
  · subst same
    simp [found]
  · simp [same]

theorem nextRequestId_markDone (manager : JobManager) (p : StagePayload) :
    (manager.markDone p).nextRequestId = manager.nextRequestId := by
  unfold markDone
  split
  · rfl
  · split <;> rfl

theorem nextRequestId_emplace (manager : JobManager) (id : Nat)
    (kind : ModelKind) :
    (manager.emplace id kind).nextRequestId = manager.nextRequestId := by
  unfold emplace
  split <;> rfl

/-! ## Keys and counts -/

theorem KeysDistinct.modify
    {manager : JobManager} (distinct : manager.KeysDistinct) (id : Nat)
    {change : JobStatus → JobStatus}
    (keepsKey : ∀ entry, (change entry).requestId = entry.requestId) :
    (manager.modify id change).KeysDistinct := by
  have sameKeys : (manager.modify id change).jobs.map JobStatus.requestId =
      manager.jobs.map JobStatus.requestId := by
    unfold JobManager.modify
    rw [List.map_map]
    apply List.map_congr_left
    intro entry _
    simp only [Function.comp_apply]
    split
    · exact keepsKey entry
    · rfl
  unfold KeysDistinct
  rw [sameKeys]
  exact distinct

theorem KeysDistinct.emplace
    {manager : JobManager} (distinct : manager.KeysDistinct) (id : Nat)
    (kind : ModelKind) : (manager.emplace id kind).KeysDistinct := by
  unfold JobManager.emplace
  split
  · exact distinct
  · rename_i absent
    have fresh : manager.status id = none := by simpa using absent
    rw [status_eq_none] at fresh
    unfold KeysDistinct at distinct ⊢
    rw [List.map_append, List.nodup_append]
    refine ⟨distinct, by simp, ?_⟩
    intro key member other isNew
    obtain ⟨entry, inside, rfl⟩ := List.mem_map.mp member
    obtain rfl : other = id := by simpa using isNew
    exact fresh entry inside

theorem KeysDistinct.recordStage
    {manager : JobManager} (distinct : manager.KeysDistinct)
    (p : StagePayload) : (manager.recordStage p).KeysDistinct :=
  distinct.modify p.requestId fun _ => rfl

theorem KeysDistinct.markDone
    {manager : JobManager} (distinct : manager.KeysDistinct)
    (p : StagePayload) : (manager.markDone p).KeysDistinct := by
  unfold JobManager.markDone
  split
  · exact distinct
  · split
    · exact distinct
    · exact distinct.modify p.requestId fun _ => rfl

/-- Recording a stage does not touch any state. -/
theorem doneCount_recordStage (manager : JobManager) (p : StagePayload) :
    (manager.recordStage p).doneCount = manager.doneCount := by
  unfold doneCount recordStage modify
  rw [List.countP_map]
  apply List.countP_congr
  intro entry _
  simp only [Function.comp_apply]
  split <;> rfl

theorem doneCount_emplace (manager : JobManager) (id : Nat)
    (kind : ModelKind) :
    (manager.emplace id kind).doneCount = manager.doneCount := by
  unfold doneCount emplace
  split
  · rfl
  · simp

/-- With distinct keys, marking a request done counts it once. -/
theorem doneCount_markDone
    {manager : JobManager} (distinct : manager.KeysDistinct)
    {p : StagePayload} {entry : JobStatus}
    (found : manager.status p.requestId = some entry)
    (notDone : entry.state ≠ .done) :
    (manager.markDone p).doneCount = manager.doneCount + 1 := by
  unfold markDone
  rw [found]
  simp only [notDone, if_false]
  unfold doneCount modify
  unfold status at found
  unfold KeysDistinct at distinct
  dsimp only
  generalize manager.jobs = jobs at found distinct ⊢
  induction jobs with
  | nil =>
      cases found
  | cons head rest inductionHypothesis =>
      rw [List.map_cons, List.nodup_cons] at distinct
      rw [List.find?_cons] at found
      rw [List.map_cons, List.countP_cons, List.countP_cons]
      by_cases same : head.requestId = p.requestId
      · -- the other entries have other keys and stay as they are
        rw [same, beq_self_eq_true] at found
        obtain rfl : head = entry := by simpa using found
        have unchanged : (rest.map fun entry =>
            if entry.requestId = p.requestId then
              { entry with state := .done, stage := .postprocess }
            else entry) = rest := by
          refine (List.map_congr_left ?_).trans (List.map_id rest)
          intro other member
          have different : other.requestId ≠ p.requestId := by
            intro equal
            apply distinct.1
            rw [same, ← equal]
            exact List.mem_map_of_mem member
          rw [if_neg different, id_eq]
        rw [unchanged]
        simp [same, notDone]
      · have different : (head.requestId == p.requestId) = false := by
          simpa using same
        rw [different] at found
        have later := inductionHypothesis found distinct.2
        rw [if_neg same]
        omega

end JobManager

end HydraRT.Inference
