import HydraRT.Cluster.Calls

/-!
# Submissions in progress

Every call makes at most one submission at a time, and only a submission puts a
task into a queue.  What holds of a submission when it begins and of the task
it pushes is therefore found by looking at the few places that begin one.
-/

namespace HydraRT.Cluster

open HydraRT.Inference
open HydraRT.Lib

variable {config : NodeConfig}

def CompletePc.submission? : CompletePc config → Option (SubmitCall config)
  | .submitting _ call => some call
  | _ => none

def JobPc.submission? : JobPc config → Option (SubmitCall config)
  | .submitting _ call => some call
  | _ => none

def UserCall.submission? : UserCall config → Option (SubmitCall config)
  | .submit call => some call
  | .job _ pc => pc.submission?

/-- The submission that a call is in the middle of. -/
def Frame.submission? : Frame config → Option (SubmitCall config)
  | .execute _ _ (.running begun) => begun.bind UserCall.submission?
  | .execute _ _ (.completing pc) => pc.submission?
  | .call begun => begun.submission?
  | .resolve _ pc => pc.submission?
  | .reap _ (.resubmit _ begun) => some begun
  | .reap _ (.settle _ pc) => pc.submission?
  | .accept _ _ _ begun => begun
  | _ => none

/-- The submissions that the program itself begins. -/
inductive SubmitCall.Fresh : SubmitCall config → Prop
  | stage (p : StagePayload) : Fresh (submitStage p)
  | rerun (lost : Task) : Fresh { task := lost.rerun }
  | stolen (remote : Task) : Fresh { task := remote.stolenFrom }

/-! ## What a step submits -/

/-- What may become of the submission `old` in one step: it goes on as `new`,
or pushes its task and is replaced by a fresh one or by none. -/
structure Submitting (shared following : Shared config)
    (home : Option (Fin config.workers))
    (old new : Option (SubmitCall config)) : Prop where
  submission : ∀ call, new = some call →
    (∃ earlier, old = some earlier ∧
      (earlier.step shared home).2 = some call) ∨ call.Fresh
  queues : ∀ queue, ∀ task ∈ following.queues queue,
    task ∈ shared.queues queue ∨
      ∃ call, old = some call ∧ call.pc = .push queue ∧ call.task = task

section Steps

variable {shared following : Shared config}
  {home : Option (Fin config.workers)}
  {old new : Option (SubmitCall config)}

/-- A step that pushes nothing and begins nothing. -/
theorem Submitting.idle (same : following.queues = shared.queues) :
    Submitting shared following home old none where
  submission call begins := by cases begins
  queues queue task member := by
    rw [same] at member
    exact .inl member

/-- A step that only takes tasks out of queues. -/
theorem Submitting.taking
    (fewer : ∀ queue, ∀ task ∈ following.queues queue,
      task ∈ shared.queues queue) :
    Submitting shared following home old none where
  submission call begins := by cases begins
  queues queue task member := .inl (fewer queue task member)

theorem Submitting.begins (same : following.queues = shared.queues)
    {call : SubmitCall config} (fresh : call.Fresh) :
    Submitting shared following home old (some call) where
  submission other begins := by
    cases begins
    exact .inr fresh
  queues queue task member := by
    rw [same] at member
    exact .inl member

theorem SubmitCall.step_submitting {call : SubmitCall config}
    {rest : Option (SubmitCall config)}
    (stepped : call.step shared home = (following, rest)) :
    Submitting shared following home (some call) rest := by
  refine ⟨?_, ?_⟩
  · intro later goesOn
    refine .inl ⟨call, rfl, ?_⟩
    rw [stepped, goesOn]
  · intro queue task member
    unfold SubmitCall.step at stepped
    split at stepped
    · cases stepped
      exact .inl member
    · cases stepped
      exact .inl member
    · cases stepped
      exact .inl member
    · rename_i target atPush
      cases stepped
      by_cases same : queue = target
      · subst same
        simp only [Shared.push, Shared.put, Function.update_self] at member
        rcases List.mem_append.mp member with old | pushed
        · exact .inl old
        · exact .inr ⟨call, rfl, atPush, (List.mem_singleton.mp pushed).symm⟩
      · simp only [Shared.push, Shared.put,
          Function.update_of_ne same] at member
        exact .inl member

theorem CompletePc.step_submitting {task : Task} {pc : CompletePc config}
    {rest : Option (CompletePc config)}
    (stepped : pc.step shared home task = (following, rest)) :
    Submitting shared following home pc.submission?
      (rest.bind CompletePc.submission?) := by
  cases pc with
  | observe =>
      simp only [CompletePc.step] at stepped
      split at stepped
      · cases stepped
        exact .idle rfl
      · split at stepped
        · cases stepped
          refine .begins ?_ (.stage _)
          rfl
        · split at stepped <;> cases stepped <;> exact .idle rfl
  | submitting p call =>
      simp only [CompletePc.step] at stepped
      split at stepped
      · rename_i between later advanced
        cases stepped
        exact SubmitCall.step_submitting advanced
      · rename_i between advanced
        cases stepped
        exact SubmitCall.step_submitting advanced
  | record p =>
      cases stepped
      exact .idle rfl
  | finish =>
      cases stepped
      exact .idle rfl

theorem JobPc.step_submitting {request : Request} {pc : JobPc config}
    {rest : Option (JobPc config)}
    (stepped : pc.step shared home request = (following, rest)) :
    Submitting shared following home pc.submission?
      (rest.bind JobPc.submission?) := by
  cases pc with
  | submitting id call =>
      simp only [JobPc.step] at stepped
      split at stepped
      · rename_i between later advanced
        cases stepped
        exact SubmitCall.step_submitting advanced
      · rename_i between advanced
        cases stepped
        exact SubmitCall.step_submitting advanced
  | count id =>
      cases stepped
      refine .begins ?_ (.stage _)
      rfl
  | fetchId =>
      cases stepped
      exact .idle rfl
  | emplace id =>
      cases stepped
      exact .idle rfl

theorem UserCall.step_submitting {call : UserCall config}
    {rest : Option (UserCall config)}
    (stepped : call.step shared home = (following, rest)) :
    Submitting shared following home call.submission?
      (rest.bind UserCall.submission?) := by
  cases call with
  | submit call =>
      simp only [UserCall.step] at stepped
      split at stepped
      · rename_i between later advanced
        cases stepped
        exact SubmitCall.step_submitting advanced
      · rename_i between advanced
        cases stepped
        exact SubmitCall.step_submitting advanced
  | job request pc =>
      simp only [UserCall.step] at stepped
      split at stepped
      · rename_i between later advanced
        cases stepped
        exact JobPc.step_submitting advanced
      · rename_i between advanced
        cases stepped
        exact JobPc.step_submitting advanced

/-- Taking a task out of a queue. -/
theorem Shared.mem_of_take? {queue : Queue config} {misses : Bool}
    {task : Task}
    (taken : shared.take? home queue misses = some (task, following)) :
    ∀ other, ∀ left ∈ following.queues other, left ∈ shared.queues other := by
  have shrinks : ∀ rest : List Task,
      (∀ left ∈ rest, left ∈ shared.queues queue) →
      ∀ other, ∀ left ∈ (shared.put queue rest).queues other,
        left ∈ shared.queues other := by
    intro rest inside other left member
    by_cases same : other = queue
    · subst same
      simp only [Shared.put, Function.update_self] at member
      exact inside left member
    · simpa only [Shared.put, Function.update_of_ne same] using member
  unfold Shared.take? at taken
  split at taken
  · split at taken
    · split at taken
      · cases taken
      · cases taken
        exact shrinks _ fun left => List.mem_of_mem_dropLast
    · split at taken
      · cases taken
      · split at taken
        · cases taken
        · rename_i content
          cases taken
          refine shrinks _ ?_
          intro left member
          rw [content]
          exact List.mem_cons_of_mem _ member
  · split at taken
    · cases taken
    · rename_i content
      cases taken
      refine shrinks _ ?_
      intro left member
      rw [content]
      exact List.mem_cons_of_mem _ member

/-- What a step of a call does about submissions, whatever frames it leaves. -/
def Submits (shared following : Shared config)
    (home : Option (Fin config.workers)) (old : Option (SubmitCall config))
    (frames : List (Frame config)) : Prop :=
  Submitting shared following home old none ∧
    ∀ new ∈ frames, Submitting shared following home old new.submission?

theorem Submitting.single {frame : Frame config}
    (submitting : Submitting shared following home old frame.submission?) :
    Submits shared following home old [frame] := by
  refine ⟨⟨?_, submitting.queues⟩, ?_⟩
  · intro call begins
    cases begins
  · intro new member
    rw [List.mem_singleton.mp member]
    exact submitting

theorem Submitting.last
    (submitting : Submitting shared following home old none) :
    Submits shared following home old [] := by
  refine ⟨submitting, ?_⟩
  intro new member
  cases member

/-- Frames that make no submission. -/
theorem Submitting.without {frames : List (Frame config)}
    (submitting : Submitting shared following home old none)
    (idle : ∀ new ∈ frames, new.submission? = none) :
    Submits shared following home old frames := by
  refine ⟨submitting, ?_⟩
  intro new member
  rw [idle new member]
  exact submitting

theorem WorkerPc.step_submits {worker : Fin config.workers}
    {completedFirst misses : Bool} {pc : WorkerPc config}
    {frames : List (Frame config)}
    (stepped : pc.step shared worker completedFirst misses =
      (following, frames)) :
    Submits shared following home none frames := by
  have idle : ∀ new ∈ frames, new.submission? = none := by
    intro new member
    have works := WorkerPc.step_frames shared worker completedFirst misses pc
    rw [stepped] at works
    rcases works new member with ⟨rest, rfl⟩ | ⟨task, rfl⟩ <;> rfl
  refine Submitting.without (.taking ?_) idle
  unfold WorkerPc.step at stepped
  split at stepped
  · cases stepped
    exact fun _ _ member => member
  · cases stepped
    exact fun _ _ member => member
  · cases stepped
    exact fun _ _ member => member
  · split at stepped <;> cases stepped <;> exact fun _ _ member => member
  · cases stepped
    exact fun _ _ member => member
  · split at stepped
    · rename_i task between taken
      cases stepped
      exact Shared.mem_of_take? taken
    · cases stepped
      exact fun _ _ member => member

theorem ServePc.step_submits {request : StealRequest} {pc : ServePc}
    {frames : List (Frame config)}
    (stepped : pc.step shared request = (following, frames)) :
    Submits shared following home none frames := by
  have idle : ∀ new ∈ frames, new.submission? = none := by
    intro new member
    have serves := ServePc.step_frames shared request pc
    rw [stepped] at serves
    obtain ⟨rest, rfl⟩ := serves new member
    rfl
  refine Submitting.without (.taking ?_) idle
  unfold ServePc.step at stepped
  split at stepped
  case h_5 =>
    split at stepped
    · rename_i task between taken
      cases stepped
      exact Shared.mem_of_take? taken
    · cases stepped
      exact fun _ _ member => member
  case h_6 =>
    cases stepped
    unfold Shared.trackOutstanding
    split <;> exact fun _ _ member => member
  all_goals
    cases stepped
    exact fun _ _ member => member

theorem ExecutePc.step_submits {task : Task} {helped : Bool}
    {pc : ExecutePc config} {frames : List (Frame config)}
    (stepped : pc.step shared home task helped = some (following, frames)) :
    Submits shared following home (Frame.execute task helped pc).submission?
      frames := by
  unfold ExecutePc.step at stepped
  split at stepped
  · cases stepped
  · rename_i call
    generalize advanced : call.step shared home = result at stepped
    obtain ⟨between, rest⟩ := result
    cases stepped
    exact (UserCall.step_submitting advanced).single
  · cases stepped
    refine (Submitting.idle ?_).single
    split <;> rfl
  · cases stepped
    exact (Submitting.idle (by rfl)).single
  · split at stepped
    · rename_i between rest advanced
      cases stepped
      exact (CompletePc.step_submitting advanced).single
    · rename_i between advanced
      cases stepped
      refine (CompletePc.step_submitting advanced).without ?_
      intro new member
      split at member
      · rw [List.mem_singleton.mp member]
        rfl
      · cases member
  · cases stepped
    exact (Submitting.idle (by rfl)).last

theorem ReapPc.step_submits {lost : List Task} {pc : ReapPc config}
    {frames : List (Frame config)}
    (stepped : pc.step shared home lost = (following, frames)) :
    Submits shared following home (Frame.reap lost pc).submission?
      frames := by
  unfold ReapPc.step at stepped
  split at stepped
  · cases stepped
    exact (Submitting.idle rfl).last
  · cases stepped
    refine Submitting.single (.begins ?_ (.rerun _))
    rfl
  · split at stepped
    · rename_i between rest advanced
      cases stepped
      exact (SubmitCall.step_submitting advanced).single
    · rename_i between advanced
      cases stepped
      exact (SubmitCall.step_submitting advanced).single
  · split at stepped
    · rename_i between rest advanced
      cases stepped
      exact (CompletePc.step_submitting advanced).single
    · rename_i between advanced
      cases stepped
      exact (CompletePc.step_submitting advanced).single

theorem acceptStep_submits {link : NodeId} {tasks remaining : List Task}
    {begun : Option (SubmitCall config)} {frames : List (Frame config)}
    (stepped : acceptStep shared home link tasks remaining begun =
      (following, frames)) :
    Submits shared following home begun frames := by
  unfold acceptStep at stepped
  split at stepped
  · cases stepped
    exact (Submitting.idle (by rfl)).last
  · cases stepped
    refine Submitting.single (.begins ?_ (.stolen _))
    rfl
  · rename_i rest call
    generalize advanced : call.step shared home = result at stepped
    obtain ⟨between, next⟩ := result
    cases stepped
    exact (SubmitCall.step_submitting advanced).single

/-- Where the submissions and the queued tasks come from that are there after
a step of a call. -/
theorem Frame.advance_submits {fails : Bool} {frame : Frame config}
    {frames : List (Frame config)}
    (advanced : frame.advance shared home fails =
      some (following, frames)) :
    Submits shared following home frame.submission? frames := by
  unfold Frame.advance at advanced
  split at advanced
  · obtain ⟨worker, _, result⟩ := Option.map_eq_some_iff.mp advanced
    exact WorkerPc.step_submits result
  · cases advanced
    exact (Submitting.idle rfl).last
  · split at advanced
    · rename_i task between taken
      cases advanced
      exact Submitting.single (.taking (Shared.mem_of_take? taken))
    · cases advanced
      exact (Submitting.idle rfl).single
  · exact ExecutePc.step_submits advanced
  · split at advanced
    · rename_i between rest stepped
      cases advanced
      exact (UserCall.step_submitting stepped).single
    · rename_i between stepped
      cases advanced
      exact (UserCall.step_submitting stepped).last
  · exact ServePc.step_submits (Option.some.inj advanced)
  · split at advanced
    · rename_i between rest stepped
      cases advanced
      exact (CompletePc.step_submitting stepped).single
    · rename_i between stepped
      cases advanced
      exact (CompletePc.step_submitting stepped).last
  · exact ReapPc.step_submits (Option.some.inj advanced)
  · exact acceptStep_submits (Option.some.inj advanced)
  · cases advanced
    exact (Submitting.idle rfl).last
  · cases advanced
    refine (Submitting.idle ?_).single
    split <;> rfl

end Steps

end HydraRT.Cluster
