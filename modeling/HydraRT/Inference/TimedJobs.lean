import HydraRT.Inference.JobManager
import HydraRT.Lib.Keyed

/-!
# The job table with its times

`JobManager` once more, with the timestamps of its entries.  Without them the
operations are those of the untimed table.  Whatever calls they are mixed with,
an entry keeps its request and its times: what was said about a finished
request stays true.
-/

namespace HydraRT.Inference

open HydraRT.Lib HydraRT.Lib.Keyed

/-- `JobStatus`, with its times. -/
structure TimedStatus extends JobStatus where
  submitNs : Nat := 0
  finishNs : Nat := 0
  deriving DecidableEq, Repr

def TimedStatus.latencyNs (status : TimedStatus) : Nat :=
  if status.finishNs > status.submitNs then status.finishNs - status.submitNs
  else 0

/-- The key of an entry in `jobs_`. -/
def TimedStatus.key (status : TimedStatus) : Nat :=
  status.requestId

/-- The members of `JobManager`.  Its counters are natural numbers: none of
them reaches 2^64. -/
structure TimedJobs where
  jobs : List TimedStatus := []
  nextRequestId : Nat := 1
  submitted : Nat := 0
  completed : Nat := 0
  deriving DecidableEq, Repr

namespace TimedJobs

def status (table : TimedJobs) (id : Nat) : Option TimedStatus :=
  lookup TimedStatus.key id table.jobs

/-- The critical section of `submit`: `emplace` leaves an entry that is there
already. -/
def emplace (table : TimedJobs) (id : Nat) (kind : ModelKind) (now : Nat) :
    TimedJobs :=
  { table with
    jobs := upsert TimedStatus.key (fun entry => entry)
      { requestId := id, state := .running, stage := .decode, kind := kind,
        submitNs := now } table.jobs }

/-- The critical section at the end of `on_stage_done`. -/
def recordStage (table : TimedJobs) (p : StagePayload) : TimedJobs :=
  { table with
    jobs := changeAt TimedStatus.key p.requestId
      (fun entry => { entry with stage := p.stage.succ }) table.jobs }

/-- The critical section of `on_stage_done` for the last stage. -/
def markDone (table : TimedJobs) (p : StagePayload) (now : Nat) :
    TimedJobs :=
  match table.status p.requestId with
  | none => table
  | some entry =>
      if entry.state = .done then table
      else
        { table with
          jobs := changeAt TimedStatus.key p.requestId
            (fun entry =>
              { entry with
                state := .done, stage := .postprocess, finishNs := now })
            table.jobs
          completed := table.completed + 1 }

/-- `request_latencies_ns`. -/
def requestLatenciesNs (table : TimedJobs) : List Nat :=
  (table.jobs.filter (·.state == .done)).map TimedStatus.latencyNs

/-! ## The table without times -/

def untimed (table : TimedJobs) : JobManager where
  jobs := table.jobs.map TimedStatus.toJobStatus
  nextRequestId := table.nextRequestId
  submitted := table.submitted
  completed := table.completed

theorem status_untimed (table : TimedJobs) (id : Nat) :
    table.untimed.status id =
      (table.status id).map TimedStatus.toJobStatus := by
  rw [JobManager.status, untimed, status, lookup, List.find?_map]
  rfl

theorem map_changeAt (id : Nat) {change : TimedStatus → TimedStatus}
    {untimedChange : JobStatus → JobStatus}
    (same : ∀ entry, (change entry).toJobStatus =
      untimedChange entry.toJobStatus) (jobs : List TimedStatus) :
    (changeAt TimedStatus.key id change jobs).map TimedStatus.toJobStatus =
      (jobs.map TimedStatus.toJobStatus).map fun entry =>
        if entry.requestId = id then untimedChange entry else entry := by
  rw [changeAt, List.map_map, List.map_map]
  apply List.map_congr_left
  intro entry _
  rw [Function.comp_apply, Function.comp_apply, TimedStatus.key]
  split_ifs
  · exact same entry
  · rfl

theorem untimed_recordStage (table : TimedJobs) (p : StagePayload) :
    (table.recordStage p).untimed = table.untimed.recordStage p := by
  exact congrArg (fun jobs => JobManager.mk jobs _ _ _)
    (map_changeAt p.requestId (fun _ => rfl) table.jobs)

theorem untimed_markDone (table : TimedJobs) (p : StagePayload)
    (now : Nat) : (table.markDone p now).untimed = table.untimed.markDone p := by
  rw [markDone, JobManager.markDone, status_untimed]
  cases table.status p.requestId with
  | none => rfl
  | some entry =>
      dsimp only [Option.map_some]
      split_ifs
      · rfl
      · exact congrArg (fun jobs => JobManager.mk jobs _ _ _)
          (map_changeAt p.requestId (fun _ => rfl) table.jobs)

theorem untimed_emplace (table : TimedJobs) (id : Nat) (kind : ModelKind)
    (now : Nat) :
    (table.emplace id kind now).untimed = table.untimed.emplace id kind := by
  rw [emplace, upsert_keep, JobManager.emplace, status_untimed,
    Option.isSome_map]
  change TimedJobs.untimed { table with
    jobs := if (table.status id).isSome then table.jobs else _ } = _
  split_ifs
  · rfl
  · exact congrArg (fun jobs => JobManager.mk jobs _ _ _) List.map_append

/-! ## What stays true of an entry -/

/-- The later entry is the earlier one, perhaps further on. -/
structure Follows (earlier later : TimedStatus) : Prop where
  requestId : later.requestId = earlier.requestId
  kind : later.kind = earlier.kind
  submitNs : later.submitNs = earlier.submitNs
  done : earlier.state = .done →
    later.state = .done ∧ later.finishNs = earlier.finishNs

/-- What was found under a key is found again. -/
def Progresses (earlier later : Option TimedStatus) : Prop :=
  ∀ old ∈ earlier, ∃ new ∈ later, Follows old new

theorem Follows.refl (entry : TimedStatus) : Follows entry entry :=
  ⟨rfl, rfl, rfl, fun isDone => ⟨isDone, rfl⟩⟩

theorem Follows.trans {first second third : TimedStatus}
    (before : Follows first second) (after : Follows second third) :
    Follows first third where
  requestId := after.requestId.trans before.requestId
  kind := after.kind.trans before.kind
  submitNs := after.submitNs.trans before.submitNs
  done isDone := by
    obtain ⟨stillDone, sameFinish⟩ := before.done isDone
    obtain ⟨atLast, lastFinish⟩ := after.done stillDone
    exact ⟨atLast, lastFinish.trans sameFinish⟩

theorem Progresses.refl (entry : Option TimedStatus) :
    Progresses entry entry :=
  fun old isOld => ⟨old, isOld, .refl old⟩

theorem Progresses.trans {first second third : Option TimedStatus}
    (before : Progresses first second) (after : Progresses second third) :
    Progresses first third := by
  intro old isOld
  obtain ⟨middle, isMiddle, follows⟩ := before old isOld
  obtain ⟨new, isNew, continues⟩ := after middle isMiddle
  exact ⟨new, isNew, follows.trans continues⟩

theorem requestId_of_status {table : TimedJobs} {id : Nat}
    {entry : TimedStatus} (found : table.status id = some entry) :
    entry.requestId = id := by
  have matched := List.find?_some found
  exact of_decide_eq_true matched

theorem status_emplace (table : TimedJobs) (id : Nat) (kind : ModelKind)
    (now other : Nat) :
    (table.emplace id kind now).status other =
      if other = id then
        some ((table.status other).getD
          { requestId := id, state := .running, stage := .decode,
            kind := kind, submitNs := now })
      else table.status other := by
  rw [status, emplace, lookup_upsert fun _ => rfl]
  congr 1
  rw [status]
  cases lookup TimedStatus.key other table.jobs with
  | none => rfl
  | some entry => rfl

/-- An entry is changed in a way that keeps what stays true of it. -/
theorem progresses_changeAt {table : TimedJobs} {id other : Nat}
    {change : TimedStatus → TimedStatus}
    (follows : other = id → ∀ entry ∈ table.status other,
      Follows entry (change entry))
    (keepsKey : ∀ entry, (change entry).key = entry.key) :
    Progresses (table.status other)
      (lookup TimedStatus.key other
        (changeAt TimedStatus.key id change table.jobs)) := by
  rw [lookup_changeAt keepsKey]
  split_ifs with here
  · intro old isOld
    exact ⟨change old, Option.mem_map_of_mem _ isOld, follows here old isOld⟩
  · exact .refl _

theorem progresses_emplace (table : TimedJobs) (id : Nat) (kind : ModelKind)
    (now other : Nat) :
    Progresses (table.status other)
      ((table.emplace id kind now).status other) := by
  rw [status_emplace]
  split_ifs
  · intro old isOld
    rw [Option.mem_def.mp isOld]
    exact ⟨old, rfl, .refl old⟩
  · exact .refl _

theorem progresses_recordStage (table : TimedJobs) (p : StagePayload)
    (other : Nat) :
    Progresses (table.status other) ((table.recordStage p).status other) :=
  progresses_changeAt
    (fun _ _ _ => ⟨rfl, rfl, rfl, fun isDone => ⟨isDone, rfl⟩⟩)
    fun _ => rfl

theorem progresses_markDone (table : TimedJobs) (p : StagePayload)
    (now other : Nat) :
    Progresses (table.status other) ((table.markDone p now).status other) := by
  rw [markDone]
  cases found : table.status p.requestId with
  | none => exact .refl _
  | some entry =>
      dsimp only
      split_ifs with isDone
      · exact .refl _
      · refine progresses_changeAt ?_ fun _ => rfl
        rintro rfl old isOld
        obtain rfl : entry = old := Option.some.inj (found.symm.trans isOld)
        exact ⟨rfl, rfl, rfl, fun wasDone => absurd wasDone isDone⟩

/-- Only an entry that is added is found where none was. -/
theorem status_eq_none_of_changeAt (table : TimedJobs) (id other : Nat)
    {change : TimedStatus → TimedStatus}
    (keepsKey : ∀ entry, (change entry).key = entry.key)
    (absent : table.status other = none) :
    lookup TimedStatus.key other
      (changeAt TimedStatus.key id change table.jobs) = none := by
  rw [lookup_changeAt keepsKey]
  rw [status] at absent
  rw [absent]
  split_ifs
  · rfl
  · rfl

theorem status_recordStage_eq_none {table : TimedJobs} {other : Nat}
    (absent : table.status other = none) (p : StagePayload) :
    (table.recordStage p).status other = none :=
  table.status_eq_none_of_changeAt p.requestId other (fun _ => rfl) absent

theorem status_markDone_eq_none {table : TimedJobs} {other : Nat}
    (absent : table.status other = none) (p : StagePayload) (now : Nat) :
    (table.markDone p now).status other = none := by
  rw [markDone]
  cases table.status p.requestId with
  | none => exact absent
  | some entry =>
      dsimp only
      split_ifs
      · exact absent
      · exact table.status_eq_none_of_changeAt p.requestId other
          (fun _ => rfl) absent

theorem nextRequestId_markDone (table : TimedJobs) (p : StagePayload)
    (now : Nat) : (table.markDone p now).nextRequestId =
      table.nextRequestId := by
  rw [markDone]
  split
  · rfl
  · split_ifs
    · rfl
    · rfl

/-! ## Times and counts -/

/-- The times of an entry at a later time. -/
structure Timely (now : Nat) (entry : TimedStatus) : Prop where
  submitted : entry.submitNs ≤ now
  finished : entry.state = .done →
    entry.submitNs ≤ entry.finishNs ∧ entry.finishNs ≤ now
  unfinished : entry.state ≠ .done → entry.finishNs = 0

structure Dated (table : TimedJobs) (now : Nat) : Prop where
  distinct : table.untimed.KeysDistinct
  timely : ∀ entry ∈ table.jobs, Timely now entry
  counted : table.completed = table.untimed.doneCount

theorem Timely.mono {now later : Nat} {entry : TimedStatus}
    (timely : Timely now entry) (after : now ≤ later) :
    Timely later entry where
  submitted := timely.submitted.trans after
  finished isDone :=
    ⟨(timely.finished isDone).1, (timely.finished isDone).2.trans after⟩
  unfinished := timely.unfinished

theorem Dated.mono {table : TimedJobs} {now later : Nat}
    (dated : table.Dated now) (after : now ≤ later) : table.Dated later where
  distinct := dated.distinct
  timely entry member := (dated.timely entry member).mono after
  counted := dated.counted

theorem Timely.changeAt {table : TimedJobs} {id now : Nat}
    {change : TimedStatus → TimedStatus}
    (timely : ∀ entry ∈ table.jobs, Timely now entry)
    (changed : ∀ entry ∈ table.jobs, Timely now (change entry)) :
    ∀ entry ∈ Keyed.changeAt TimedStatus.key id change table.jobs,
      Timely now entry := by
  intro entry member
  obtain ⟨old, wasThere, rfl⟩ := List.mem_map.mp member
  split_ifs
  · exact changed old wasThere
  · exact timely old wasThere

theorem Dated.emplace {table : TimedJobs} {now : Nat}
    (dated : table.Dated now) (id : Nat) (kind : ModelKind) :
    (table.emplace id kind now).Dated now where
  distinct := by
    rw [untimed_emplace]
    exact dated.distinct.emplace id kind
  timely := by
    rw [TimedJobs.emplace, upsert_keep]
    split_ifs
    · exact dated.timely
    · intro entry member
      rcases List.mem_append.mp member with old | new
      · exact dated.timely entry old
      · obtain rfl := List.mem_singleton.mp new
        refine ⟨le_rfl, ?_, fun _ => rfl⟩
        intro isDone
        cases isDone
  counted := by
    rw [untimed_emplace, JobManager.doneCount_emplace]
    exact dated.counted

theorem Dated.recordStage {table : TimedJobs} {now : Nat}
    (dated : table.Dated now) (p : StagePayload) :
    (table.recordStage p).Dated now where
  distinct := by
    rw [untimed_recordStage]
    exact dated.distinct.recordStage p
  timely := Timely.changeAt dated.timely fun entry member =>
    ⟨(dated.timely entry member).submitted,
      (dated.timely entry member).finished,
      (dated.timely entry member).unfinished⟩
  counted := by
    rw [untimed_recordStage, JobManager.doneCount_recordStage]
    exact dated.counted

theorem Dated.markDone {table : TimedJobs} {now : Nat}
    (dated : table.Dated now) (p : StagePayload) :
    (table.markDone p now).Dated now := by
  have untimed := table.untimed_markDone p now
  refine ⟨untimed ▸ dated.distinct.markDone p, ?_, ?_⟩
  · rw [TimedJobs.markDone]
    cases table.status p.requestId with
    | none => exact dated.timely
    | some entry =>
        dsimp only
        split_ifs
        · exact dated.timely
        · refine Timely.changeAt dated.timely fun entry member => ?_
          have submitted := (dated.timely entry member).submitted
          exact ⟨submitted, fun _ => ⟨submitted, le_rfl⟩,
            fun notDone => absurd rfl notDone⟩
  · have counted := dated.counted
    cases found : table.status p.requestId with
    | none =>
        rw [TimedJobs.markDone, found]
        exact counted
    | some entry =>
        by_cases isDone : entry.state = .done
        · rw [TimedJobs.markDone, found]
          simpa [isDone] using counted
        · have untimedFound := table.status_untimed p.requestId
          rw [found, Option.map_some] at untimedFound
          rw [untimed, JobManager.doneCount_markDone dated.distinct
            untimedFound isDone, ← counted, TimedJobs.markDone, found]
          dsimp only
          rw [if_neg isDone]

/-- The latencies are those of the requests that are done. -/
theorem Dated.length_requestLatenciesNs {table : TimedJobs} {now : Nat}
    (dated : table.Dated now) :
    table.requestLatenciesNs.length = table.completed := by
  rw [dated.counted, requestLatenciesNs, JobManager.doneCount, untimed,
    List.length_map, List.countP_map, List.countP_eq_length_filter]
  rfl

end TimedJobs

end HydraRT.Inference
