import HydraRT.Inference.Pipeline

/-!
# Calls in progress

What a move does to the stack of its thread, and what every call on a stack
knows about the tasks it holds.  A frame is *sound* if the submissions it makes
fit the task that causes them: the observer submits the successor of the stage
it was called for, `JobManager::submit` the first stage of its request, and
nobody else submits a stage.  Only the bodies of application code make calls.
-/

namespace HydraRT.Cluster

open HydraRT.Inference
open HydraRT.Lib

variable {config : NodeConfig}

/-! ## Inversion -/

/-- What a move does to the stack. -/
inductive Stacked (shared : Shared config) (thread : Thread config) :
    Move → Shared config → List (Frame config) → Prop
  | advance {fails : Bool} {frame : Frame config}
      {below frames : List (Frame config)} {following : Shared config} :
      thread.stack = frame :: below →
      frame.advance shared thread.role.home fails =
        some (following, frames) →
      Stacked shared thread (.advance fails) following (frames ++ below)
  | bodyEnds {task : Task} {helped : Bool} {below : List (Frame config)} :
      thread.stack = .execute task helped (.running none) :: below →
      Stacked shared thread .bodyEnds
        (shared.remember (.executed task.taskId :: performs config task))
        (.execute task helped (afterBody task) :: below)
  | help {task : Task} {helped : Bool} {below : List (Frame config)} :
      thread.stack = .execute task helped (.running none) :: below →
      callsOut config task = true →
      Stacked shared thread (.call .help) shared
        (.help (helpOrder thread.role.home) ::
          .execute task helped (.running none) :: below)
  | call {task : Task} {helped : Bool} {below : List (Frame config)}
      {call : Call} {begun : UserCall config} :
      thread.stack = .execute task helped (.running none) :: below →
      callsOut config task = true →
      call.start config = some begun →
      Stacked shared thread (.call call) shared
        (.execute task helped (.running (some begun)) :: below)
  | begin {move : Move} {frames : List (Frame config)}
      {following : Shared config} :
      thread.stack = [] →
      thread.role.begin shared move = some (following, frames) →
      Stacked shared thread move following frames

theorem Thread.step_stacked {shared following : Shared config}
    {thread : Thread config} {move : Move} {stack : List (Frame config)}
    (stepped : thread.step shared move = some (following, stack)) :
    Stacked shared thread move following stack := by
  cases move with
  | advance fails =>
      simp only [Thread.step] at stepped
      split at stepped
      · cases stepped
      · rename_i frame below holds
        obtain ⟨⟨between, frames⟩, advanced, result⟩ :=
          Option.map_eq_some_iff.mp stepped
        cases result
        exact .advance holds advanced
  | bodyEnds =>
      simp only [Thread.step] at stepped
      split at stepped
      · rename_i task helped below holds
        cases stepped
        exact .bodyEnds holds
      · cases stepped
  | call call =>
      simp only [Thread.step] at stepped
      split at stepped
      · rename_i empty
        exact .begin empty stepped
      · rename_i task helped below holds
        split at stepped
        · rename_i callsOut
          split at stepped
          · cases stepped
            exact .help holds callsOut
          · obtain ⟨begun, started, result⟩ :=
              Option.map_eq_some_iff.mp stepped
            cases result
            exact .call holds callsOut started
        · cases stepped
      · cases stepped
  | request request =>
      obtain ⟨empty, begins⟩ := Thread.step_of_begins rfl stepped
      exact .begin empty begins
  | result taskId =>
      obtain ⟨empty, begins⟩ := Thread.step_of_begins rfl stepped
      exact .begin empty begins
  | reap lost =>
      obtain ⟨empty, begins⟩ := Thread.step_of_begins rfl stepped
      exact .begin empty begins
  | reply link tasks =>
      obtain ⟨empty, begins⟩ := Thread.step_of_begins rfl stepped
      exact .begin empty begins
  | drain =>
      obtain ⟨empty, begins⟩ := Thread.step_of_begins rfl stepped
      exact .begin empty begins
  | quit =>
      obtain ⟨empty, begins⟩ := Thread.step_of_begins rfl stepped
      exact .begin empty begins

/-- What a step does to the threads. -/
inductive Stepped (state : State config) : Action → State config → Prop
  | tick : Stepped state .tick
      { state with
        shared := { state.shared with nowMs := state.shared.nowMs + 1 } }
  | stop : Stepped state .stop
      { state with shared := { state.shared with running := false } }
  | shutdown : Stepped state .shutdown
      { state with shared := { state.shared with shutdownFlag := true } }
  | quit {index : Nat} {thread : Thread config} :
      state.threads[index]? = some thread →
      thread.role.isService = true → thread.stack = [] →
      state.shared.running = false →
      Stepped state (.move index .quit)
        { state with
          threads := state.threads.set index
            { thread with finished := true } }
  | move {index : Nat} {thread : Thread config} {move : Move}
      {following : Shared config} {stack : List (Frame config)} :
      state.threads[index]? = some thread → thread.finished = false →
      move ≠ .quit →
      Stacked state.shared thread move following stack →
      Stepped state (.move index move)
        { shared := following
          threads := state.threads.set index { thread with stack } }

theorem step_stepped {state following : State config} {action : Action}
    (stepped : (node config).step state action = some following) :
    Stepped state action following := by
  cases action with
  | tick =>
      cases stepped
      exact .tick
  | stop =>
      cases stepped
      exact .stop
  | shutdown =>
      cases stepped
      exact .shutdown
  | move index move =>
      cases move with
      | quit =>
          simp only [node, State.step] at stepped
          split at stepped
          · cases stepped
          · rename_i thread found
            split at stepped
            · rename_i may
              simp only [Bool.and_eq_true, List.isEmpty_iff,
                Bool.not_eq_true'] at may
              cases stepped
              exact .quit found may.1.1 may.1.2 may.2
            · cases stepped
      | _ =>
          simp only [node, State.step] at stepped
          split at stepped
          · cases stepped
          · rename_i thread found
            split at stepped
            · cases stepped
            · rename_i may
              obtain ⟨⟨shared, stack⟩, moved, rfl⟩ :=
                Option.map_eq_some_iff.mp stepped
              rw [Bool.or_eq_true, not_or] at may
              exact .move found (Bool.eq_false_iff.mpr may.1) (by simp)
                (Thread.step_stacked moved)

/-- A move that takes no mutex is not held up. -/
theorem State.blocks_of_unlocked {state : State config}
    {thread : Thread config} {move : Move}
    (unlocked : thread.locks move = none) :
    state.blocks thread move = false := by
  rw [State.blocks, unlocked]
  rfl

/-- A move that takes the mutex of a link finds it free. -/
theorem step_unblocked {state following : State config} {index : Nat}
    {thread : Thread config} {move : Move} {link : NodeId}
    (stepped : (node config).step state (.move index move) = some following)
    (found : state.threads[index]? = some thread)
    (locks : thread.locks move = some link) :
    state.linkHeld link = false := by
  cases move with
  | advance fails | reply other tasks =>
      simp only [node, State.step, found] at stepped
      split at stepped
      · cases stepped
      · rename_i may
        rw [Bool.or_eq_true, not_or] at may
        have free := Bool.eq_false_iff.mpr may.2
        rw [State.blocks, locks] at free
        exact free
  | _ => cases locks

/-! ## Notices -/

/-- The notices that are queued and those that have been sent. -/
def Shared.notices (shared : Shared config) :
    List (NodeId × Nat) × List (NodeId × Nat) :=
  (shared.completions, shared.results)

section Notices

variable (shared : Shared config) (home : Option (Fin config.workers))

theorem SubmitCall.notices_step (call : SubmitCall config) :
    (call.step shared home).1.notices = shared.notices := by
  unfold SubmitCall.step
  split <;> rfl

theorem CompletePc.notices_step (task : Task) (pc : CompletePc config) :
    (pc.step shared home task).1.notices = shared.notices := by
  cases pc with
  | observe =>
      simp only [CompletePc.step]
      split
      · rfl
      · split
        · rfl
        · split <;> rfl
  | submitting p call =>
      rw [CompletePc.step_submitting_fst]
      exact call.notices_step shared home
  | record p => rfl
  | finish => rfl

theorem UserCall.notices_step (call : UserCall config) :
    (call.step shared home).1.notices = shared.notices := by
  cases call with
  | submit call =>
      rw [UserCall.step_submit_fst]
      exact call.notices_step shared home
  | job request pc =>
      rw [UserCall.step_job_fst]
      cases pc with
      | submitting id call =>
          rw [JobPc.step_submitting_fst]
          exact call.notices_step shared home
      | _ => rfl

end Notices

/-! ## Kinds of calls -/

/-- The function that a call on a stack is in. -/
inductive Frame.Kind where
  | worker
  | help
  | execute
  | call
  | serve
  | resolve
  | reap
  | accept
  | complete
  deriving DecidableEq

def Frame.kind : Frame config → Frame.Kind
  | .worker _ => .worker
  | .help _ => .help
  | .execute .. => .execute
  | .call _ => .call
  | .serve .. => .serve
  | .resolve .. => .resolve
  | .reap .. => .reap
  | .accept .. => .accept
  | .complete _ => .complete

/-- A call goes on, returns, or begins to execute a task. -/
theorem Frame.advance_kind {shared following : Shared config}
    {home : Option (Fin config.workers)} {fails : Bool}
    {frame : Frame config} {frames : List (Frame config)}
    (advanced : frame.advance shared home fails =
      some (following, frames)) :
    ∀ new ∈ frames, new.kind = frame.kind ∨ new.kind = .execute := by
  have goesOn : ∀ {next : Frame config}, next.kind = frame.kind →
      ∀ new ∈ [next], new.kind = frame.kind ∨ new.kind = .execute :=
    fun same => List.forall_mem_singleton.mpr (.inl same)
  cases frame with
  | worker pc =>
      obtain ⟨worker, _, stepped⟩ := Option.map_eq_some_iff.mp advanced
      unfold WorkerPc.step at stepped
      split at stepped
      · cases stepped
        exact goesOn rfl
      · cases stepped
        exact goesOn rfl
      · cases stepped
        exact goesOn rfl
      · split at stepped <;> cases stepped
        · exact List.forall_mem_nil _
        · exact goesOn rfl
      · cases stepped
        exact goesOn rfl
      · split at stepped <;> cases stepped
        · exact List.forall_mem_cons.mpr ⟨.inr rfl, goesOn rfl⟩
        · exact goesOn rfl
  | help remaining =>
      cases remaining with
      | nil =>
          cases advanced
          exact List.forall_mem_nil _
      | cons queue rest =>
          simp only [Frame.advance] at advanced
          split at advanced <;> cases advanced
          · exact List.forall_mem_singleton.mpr (.inr rfl)
          · exact goesOn rfl
  | execute task helped pc =>
      simp only [Frame.advance] at advanced
      unfold ExecutePc.step at advanced
      split at advanced
      · cases advanced
      · cases advanced
        exact goesOn rfl
      · cases advanced
        exact goesOn rfl
      · cases advanced
        exact goesOn rfl
      · split at advanced <;> cases advanced
        · exact goesOn rfl
        · split
          · exact goesOn rfl
          · exact List.forall_mem_nil _
      · cases advanced
        exact List.forall_mem_nil _
  | call begun =>
      simp only [Frame.advance] at advanced
      split at advanced <;> cases advanced
      · exact goesOn rfl
      · exact List.forall_mem_nil _
  | serve request pc =>
      have stepped := Option.some.inj advanced
      unfold ServePc.step at stepped
      split at stepped
      case h_5 =>
        split at stepped <;> cases stepped <;> exact goesOn rfl
      case h_10 =>
        cases stepped
        exact List.forall_mem_nil _
      all_goals
        cases stepped
        exact goesOn rfl
  | resolve task pc =>
      simp only [Frame.advance] at advanced
      split at advanced <;> cases advanced
      · exact goesOn rfl
      · exact List.forall_mem_nil _
  | reap lost pc =>
      have stepped := Option.some.inj advanced
      unfold ReapPc.step at stepped
      split at stepped
      · cases stepped
        exact List.forall_mem_nil _
      · cases stepped
        exact goesOn rfl
      · split at stepped <;> cases stepped <;> exact goesOn rfl
      · split at stepped <;> cases stepped <;> exact goesOn rfl
  | accept link tasks remaining begun =>
      have stepped := Option.some.inj advanced
      unfold acceptStep at stepped
      split at stepped <;> cases stepped
      · exact List.forall_mem_nil _
      · exact goesOn rfl
      · exact goesOn rfl
  | complete batch =>
      cases batch with
      | nil =>
          cases advanced
          exact List.forall_mem_nil _
      | cons item rest =>
          cases advanced
          exact goesOn rfl

/-! ## A rule for invariants of frames -/

/-- Every frame of every stack has the property. -/
def State.Frames (Sound : Frame config → Prop) (state : State config) : Prop :=
  ∀ thread ∈ state.threads, ∀ frame ∈ thread.stack, Sound frame

/-- What a property of frames needs in order to be kept by every move. -/
structure KeptByMoves (Sound : Frame config → Prop)
    (guard : Action → Prop) : Prop where
  loading : Sound (.worker .loading)
  advance : ∀ {shared following : Shared config}
    {home : Option (Fin config.workers)} {fails : Bool}
    {frame : Frame config} {frames : List (Frame config)},
    Sound frame → frame.advance shared home fails =
      some (following, frames) → ∀ new ∈ frames, Sound new
  bodyEnds : ∀ task helped, Sound (.execute task helped (afterBody task))
  help : ∀ remaining, Sound (.help remaining)
  call : ∀ {thread : Nat} {task : Task} {helped : Bool} {call : Call}
    {begun : UserCall config}, guard (.move thread (.call call)) →
      callsOut config task = true → call.start config = some begun →
        Sound (.execute task helped (.running (some begun)))
  begin : ∀ {shared following : Shared config} {role : Role config}
    {thread : Nat} {move : Move} {frames : List (Frame config)},
    guard (.move thread move) →
      role.begin shared move = some (following, frames) →
        ∀ new ∈ frames, Sound new

theorem State.Frames.set {Sound : Frame config → Prop}
    {state : State config} {index : Nat} {thread : Thread config}
    (frames : state.Frames Sound) (shared : Shared config)
    (sound : ∀ frame ∈ thread.stack, Sound frame) :
    State.Frames Sound
      { shared, threads := state.threads.set index thread } := by
  intro other member
  rcases List.mem_or_eq_of_mem_set member with inside | rfl
  · exact frames other inside
  · exact sound

theorem KeptByMoves.stacked {Sound : Frame config → Prop}
    {guard : Action → Prop} (kept : KeptByMoves Sound guard)
    {shared following : Shared config} {thread : Thread config} {move : Move}
    {stack : List (Frame config)} {index : Nat}
    (allowed : guard (.move index move))
    (sound : ∀ frame ∈ thread.stack, Sound frame)
    (stacked : Stacked shared thread move following stack) :
    ∀ frame ∈ stack, Sound frame := by
  cases stacked with
  | advance holds advanced =>
      rw [holds] at sound
      obtain ⟨first, rest⟩ := List.forall_mem_cons.mp sound
      exact List.forall_mem_append.mpr ⟨kept.advance first advanced, rest⟩
  | bodyEnds holds =>
      rw [holds] at sound
      exact List.forall_mem_cons.mpr
        ⟨kept.bodyEnds _ _, (List.forall_mem_cons.mp sound).2⟩
  | help holds callsOut =>
      rw [holds] at sound
      exact List.forall_mem_cons.mpr ⟨kept.help _, sound⟩
  | call holds callsOut started =>
      rw [holds] at sound
      exact List.forall_mem_cons.mpr
        ⟨kept.call allowed callsOut started, (List.forall_mem_cons.mp sound).2⟩
  | begin holds begins =>
      exact kept.begin allowed begins

/-- A property that every move keeps holds of every frame of every run. -/
theorem KeptByMoves.frames {Sound : Frame config → Prop}
    {guard : Action → Prop} (kept : KeptByMoves Sound guard)
    {state : State config}
    (reached : (node config).ReachableUnder (fun _ action => guard action)
      state) :
    state.Frames Sound := by
  refine Machine.ReachableUnder.invariant ?_ ?_ reached
  · intro state isInitial thread member frame inStack
    rw [(isInitial.threads thread member).1] at inStack
    generalize thread.role = role at inStack
    cases role with
    | worker index =>
        obtain rfl := List.mem_singleton.mp inStack
        exact kept.loading
    | _ => cases inStack
  · intro state action following frames allowed stepped
    cases step_stepped stepped with
    | tick => exact frames
    | stop => exact frames
    | shutdown => exact frames
    | quit found _ empty _ =>
        exact frames.set _ (by simp [empty])
    | move found _ _ stacked =>
        exact frames.set _ (kept.stacked allowed
          (frames _ (List.mem_of_getElem? found)) stacked)

/-! ## Soundness -/

/-- The call submits the stage, or no stage. -/
def SubmitCall.Submits (call : SubmitCall config)
    (stage : Option StagePayload) : Prop :=
  call.task.payload.decodeStage = stage

def CompletePc.Sound (task : Task) : CompletePc config → Prop
  | .submitting p call =>
      observed config task = some p ∧
        ∃ next, p.next? = some next ∧ call.Submits (some next)
  | .record p => observed config task = some p
  | _ => True

def JobPc.Sound (request : Request) : JobPc config → Prop
  | .submitting id call => call.Submits (some (request.payload id))
  | _ => True

def UserCall.Sound : UserCall config → Prop
  | .submit call => call.Submits none
  | .job request pc => pc.Sound request

def ExecutePc.Sound (task : Task) : ExecutePc config → Prop
  | .running (some call) => callsOut config task = true ∧ call.Sound
  | .completing pc => pc.Sound task
  | _ => True

def Frame.Sound : Frame config → Prop
  | .execute task _ pc => pc.Sound task
  | .call begun => begun.Sound
  | .resolve task pc => pc.Sound task
  | .reap _ (.settle lost pc) => pc.Sound lost.settled
  | .accept _ _ _ (some begun) => begun.Submits none
  | _ => True

/-- A submission keeps its payload. -/
theorem SubmitCall.Submits.step {shared following : Shared config}
    {home : Option (Fin config.workers)} {call rest : SubmitCall config}
    {stage : Option StagePayload} (submits : call.Submits stage)
    (stepped : call.step shared home = (following, some rest)) :
    rest.Submits stage := by
  unfold SubmitCall.step at stepped
  split at stepped <;> cases stepped <;> exact submits

theorem CompletePc.Sound.step {shared following : Shared config}
    {home : Option (Fin config.workers)} {task : Task}
    {pc rest : CompletePc config} (sound : pc.Sound task)
    (stepped : pc.step shared home task = (following, some rest)) :
    rest.Sound task := by
  cases pc with
  | observe =>
      simp only [CompletePc.step] at stepped
      split at stepped
      · cases stepped
        trivial
      · rename_i p reads
        split at stepped
        · rename_i next hasNext
          cases stepped
          exact ⟨reads, next, hasNext, rfl⟩
        · split at stepped
          · cases stepped
            trivial
          · cases stepped
            exact reads
  | submitting p call =>
      simp only [CompletePc.step] at stepped
      split at stepped
      · rename_i between call advanced
        obtain ⟨reads, next, hasNext, submits⟩ := sound
        cases stepped
        exact ⟨reads, next, hasNext, submits.step advanced⟩
      · cases stepped
        exact sound.1
  | record p =>
      cases stepped
      trivial
  | finish => cases stepped

theorem UserCall.Sound.step {shared following : Shared config}
    {home : Option (Fin config.workers)} {call rest : UserCall config}
    (sound : call.Sound)
    (stepped : call.step shared home = (following, some rest)) :
    rest.Sound := by
  cases call with
  | submit call =>
      simp only [UserCall.step] at stepped
      split at stepped
      · rename_i between call advanced
        cases stepped
        exact SubmitCall.Submits.step sound advanced
      · cases stepped
  | job request pc =>
      simp only [UserCall.step] at stepped
      split at stepped
      · rename_i between pc advanced
        cases stepped
        unfold JobPc.step at advanced
        split at advanced
        · cases advanced
          trivial
        · cases advanced
          trivial
        · cases advanced
          rfl
        · split at advanced
          · rename_i between call submitted
            cases advanced
            exact SubmitCall.Submits.step sound submitted
          · cases advanced
      · cases stepped

theorem ExecutePc.Sound.step {shared following : Shared config}
    {home : Option (Fin config.workers)} {task : Task} {helped : Bool}
    {pc : ExecutePc config} {frames : List (Frame config)}
    (sound : pc.Sound task)
    (stepped : pc.step shared home task helped = some (following, frames)) :
    ∀ frame ∈ frames, frame.Sound := by
  unfold ExecutePc.step at stepped
  split at stepped
  · cases stepped
  · rename_i call
    generalize advanced : call.step shared home = result at stepped
    obtain ⟨between, rest⟩ := result
    cases stepped
    rw [List.forall_mem_singleton]
    cases rest with
    | none => trivial
    | some rest => exact ⟨sound.1, sound.2.step advanced⟩
  · cases stepped
    rw [List.forall_mem_singleton]
    trivial
  · cases stepped
    rw [List.forall_mem_singleton]
    trivial
  · split at stepped
    · rename_i between pc advanced
      cases stepped
      rw [List.forall_mem_singleton]
      exact CompletePc.Sound.step sound advanced
    · cases stepped
      split
      · rw [List.forall_mem_singleton]
        trivial
      · exact List.forall_mem_nil _
  · cases stepped
    exact List.forall_mem_nil _

theorem ReapPc.Sound.step {shared following : Shared config}
    {home : Option (Fin config.workers)} {lost : List Task}
    {pc : ReapPc config} {frames : List (Frame config)}
    (sound : (Frame.reap lost pc).Sound)
    (stepped : pc.step shared home lost = (following, frames)) :
    ∀ frame ∈ frames, frame.Sound := by
  unfold ReapPc.step at stepped
  split at stepped
  · cases stepped
    exact List.forall_mem_nil _
  · cases stepped
    rw [List.forall_mem_singleton]
    trivial
  · split at stepped <;> cases stepped <;>
      rw [List.forall_mem_singleton] <;> trivial
  · split at stepped
    · rename_i between pc advanced
      cases stepped
      rw [List.forall_mem_singleton]
      exact CompletePc.Sound.step sound advanced
    · cases stepped
      rw [List.forall_mem_singleton]
      trivial

theorem acceptStep_sound {shared following : Shared config}
    {home : Option (Fin config.workers)} {link : NodeId}
    {tasks remaining : List Task} {begun : Option (SubmitCall config)}
    {frames : List (Frame config)}
    (sound : (Frame.accept link tasks remaining begun).Sound)
    (stepped : acceptStep shared home link tasks remaining begun =
      (following, frames)) :
    ∀ frame ∈ frames, frame.Sound := by
  unfold acceptStep at stepped
  split at stepped
  · cases stepped
    exact List.forall_mem_nil _
  · cases stepped
    rw [List.forall_mem_singleton]
    rfl
  · rename_i rest call
    generalize advanced : call.step shared home = result at stepped
    obtain ⟨between, next⟩ := result
    cases stepped
    rw [List.forall_mem_singleton]
    cases next with
    | none => trivial
    | some next => exact SubmitCall.Submits.step sound advanced

/-- `serve_peer` calls nothing. -/
theorem ServePc.step_frames (shared : Shared config)
    (request : StealRequest) (pc : ServePc) :
    ∀ frame ∈ (pc.step shared request).2,
      ∃ rest, frame = Frame.serve request rest := by
  unfold ServePc.step
  split
  case h_5 =>
    split <;> simp
  all_goals
    simp

/-- Nor does a worker without a task. -/
theorem WorkerPc.step_frames (shared : Shared config)
    (worker : Fin config.workers) (completedFirst misses : Bool)
    (pc : WorkerPc config) :
    ∀ frame ∈ (pc.step shared worker completedFirst misses).2,
      (∃ rest, frame = .worker rest) ∨
        ∃ task, frame = .execute task false (.running none) := by
  unfold WorkerPc.step
  split
  case h_4 =>
    split <;> simp
  case h_6 =>
    split <;> simp
  all_goals
    simp

theorem Frame.Sound.advance {shared following : Shared config}
    {home : Option (Fin config.workers)} {fails : Bool}
    {frame : Frame config} {frames : List (Frame config)}
    (sound : frame.Sound)
    (advanced : frame.advance shared home fails =
      some (following, frames)) :
    ∀ new ∈ frames, new.Sound := by
  unfold Frame.advance at advanced
  split at advanced
  · rename_i pc
    obtain ⟨worker, _, result⟩ := Option.map_eq_some_iff.mp advanced
    intro new member
    have works := WorkerPc.step_frames shared worker fails fails pc
    rw [result] at works
    rcases works new member with ⟨rest, rfl⟩ | ⟨task, rfl⟩ <;> trivial
  · cases advanced
    exact List.forall_mem_nil _
  · split at advanced <;> cases advanced <;>
      rw [List.forall_mem_singleton] <;> trivial
  · exact ExecutePc.Sound.step sound advanced
  · split at advanced
    · rename_i between rest stepped
      cases advanced
      rw [List.forall_mem_singleton]
      exact UserCall.Sound.step sound stepped
    · cases advanced
      exact List.forall_mem_nil _
  · rename_i request pc
    intro new member
    have serves := ServePc.step_frames shared request pc
    rw [Option.some.inj advanced] at serves
    obtain ⟨rest, rfl⟩ := serves new member
    trivial
  · split at advanced
    · rename_i between pc stepped
      cases advanced
      rw [List.forall_mem_singleton]
      exact CompletePc.Sound.step sound stepped
    · cases advanced
      exact List.forall_mem_nil _
  · exact ReapPc.Sound.step sound (Option.some.inj advanced)
  · exact acceptStep_sound sound (Option.some.inj advanced)
  · cases advanced
    exact List.forall_mem_nil _
  · cases advanced
    rw [List.forall_mem_singleton]
    trivial

/-- Application code begins with a call that submits no stage by hand. -/
theorem Call.start_sound {call : Call} {begun : UserCall config}
    (honest : call.payload.decodeStage = none)
    (started : call.start config = some begun) : begun.Sound := by
  cases call with
  | submit body =>
      cases started
      rfl
  | submitPortable slot payload costHint =>
      cases started
      exact honest
  | submitTask body type payload originNode =>
      cases started
      exact honest
  | submitJob request =>
      simp only [Call.start] at started
      split at started
      · cases started
        trivial
      · cases started
  | help =>
      cases started

theorem Role.begin_sound {shared following : Shared config}
    {role : Role config} {thread : Nat} {move : Move}
    {frames : List (Frame config)}
    (honest : (Action.move thread move).Honest)
    (begins : role.begin shared move = some (following, frames)) :
    ∀ frame ∈ frames, frame.Sound := by
  unfold Role.begin at begins
  split at begins
  · split at begins
    · cases begins
      rw [List.forall_mem_singleton]
      trivial
    · obtain ⟨begun, started, result⟩ := Option.map_eq_some_iff.mp begins
      cases result
      rw [List.forall_mem_singleton]
      exact Call.start_sound honest started
  · cases begins
    rw [List.forall_mem_singleton]
    trivial
  · split at begins
    · cases begins
      exact List.forall_mem_nil _
    · obtain ⟨entry, _, result⟩ := Option.map_eq_some_iff.mp begins
      cases result
      rw [List.forall_mem_singleton]
      trivial
  · split at begins
    · cases begins
      rw [List.forall_mem_singleton]
      trivial
    · cases begins
  · split at begins <;> cases begins
    · exact List.forall_mem_nil _
    · rw [List.forall_mem_singleton]
      trivial
  · cases begins
    rw [List.forall_mem_singleton]
    trivial
  · cases begins

theorem sound_keptByMoves :
    KeptByMoves (Frame.Sound : Frame config → Prop) Action.Honest where
  loading := trivial
  advance := Frame.Sound.advance
  bodyEnds task helped := by
    unfold afterBody
    split <;> trivial
  help _ := trivial
  call honest callsOut started :=
    ⟨callsOut, Call.start_sound honest started⟩
  begin := Role.begin_sound

/-- Every call of every honest run is sound. -/
theorem sound_of_reachable {state : State config}
    (reached : (node config).ReachableUnder Honest state) :
    state.Frames Frame.Sound :=
  sound_keptByMoves.frames reached

/-! ## Counting frame by frame -/

/-- Two weights that agree on the shared state and on every frame. -/
theorem State.total_congr {weigh other : Token → Nat} {state : State config}
    (sameShared : total weigh state.shared.tokens =
      total other state.shared.tokens)
    (sameFrames : state.Frames fun frame =>
      total weigh frame.tokens = total other frame.tokens) :
    total weigh state.tokens = total other state.tokens := by
  simp only [State.tokens, total_append, sameShared, total_flatMap,
    stackTokens]
  congr 1
  apply Lib.total_congr
  intro thread inThreads
  apply Lib.total_congr
  intro frame inStack
  exact sameFrames thread inThreads frame inStack

/-- Tokens of the shared state are queued, outstanding or owed. -/
theorem Shared.total_eq_zero {weigh : Token → Nat} (shared : Shared config)
    (queued : ∀ portable task, weigh ⟨.queued portable, task⟩ = 0)
    (outstanding : ∀ task, weigh ⟨.outstanding, task⟩ = 0)
    (owed : ∀ task, weigh ⟨.owed, task⟩ = 0) :
    total weigh shared.tokens = 0 := by
  rw [Lib.total_eq_zero]
  intro token member
  simp only [Shared.tokens, queuedTokens, List.mem_append, List.mem_flatMap,
    List.mem_map] at member
  obtain ((⟨queue, _, task, _, rfl⟩ | ⟨entry, _, rfl⟩) | ⟨notice, _, rfl⟩) |
    ⟨notice, _, rfl⟩ := member
  · exact queued _ task
  · exact outstanding _
  · exact owed _
  · exact owed _

namespace Place

/-- Being submitted on behalf of `site`. -/
def submittedBy (site : Site) : Place → Bool
  | .created other _ | .numbered other _ | .counted other _ => other == site
  | _ => false

def isResubmitting : Place → Bool
  | .resubmitting => true
  | _ => false

end Place

/-- One for a token at certain places. -/
def placed (holds : Place → Bool) (token : Token) : Nat :=
  if holds token.place then 1 else 0

theorem placed_mk (holds : Place → Bool) (place : Place) (task : Task) :
    placed holds ⟨place, task⟩ = if holds place then 1 else 0 := rfl

/-- In a queue or in `outstanding_`. -/
def Place.isStored : Place → Bool
  | .queued _ | .outstanding => true
  | _ => false

theorem SubmitCall.not_stored (site : Site) (call : SubmitCall config) :
    ∀ token ∈ call.tokens site, token.place.isStored = false := by
  unfold SubmitCall.tokens
  split <;> simp [Place.isStored]

theorem CompletePc.not_stored (cause : Cause) (task : Task)
    (pc : CompletePc config) :
    ∀ token ∈ pc.tokens cause task, token.place.isStored = false := by
  cases pc with
  | submitting p call =>
      intro token member
      rcases List.mem_cons.mp member with rfl | member
      · rfl
      · rcases List.mem_cons.mp member with rfl | member
        · rfl
        · exact call.not_stored .successor token member
  | _ => simp [CompletePc.tokens, recordingToken, Place.isStored]

theorem UserCall.not_stored (call : UserCall config) :
    ∀ token ∈ call.tokens, token.place.isStored = false := by
  cases call with
  | submit call => exact call.not_stored .client
  | job request pc =>
      cases pc with
      | submitting id call => exact call.not_stored .request
      | _ => simp [UserCall.tokens, JobPc.tokens, preparingToken,
          Place.isStored]

/-- A task held by a call is neither queued nor outstanding. -/
theorem Frame.not_stored (frame : Frame config) :
    ∀ token ∈ frame.tokens, token.place.isStored = false := by
  cases frame with
  | execute task helped pc =>
      cases pc with
      | running begun =>
          intro token member
          rcases List.mem_cons.mp member with rfl | member
          · rfl
          · cases begun with
            | none => cases member
            | some begun => exact begun.not_stored token member
      | completing pc => exact pc.not_stored _ task
      | _ => simp [Frame.tokens, ExecutePc.tokens, owedToken,
          Place.isStored]
  | call begun => exact begun.not_stored
  | serve request pc =>
      intro token member
      cases pc <;>
        simp only [Frame.tokens, ServePc.tokens, List.mem_append,
          List.mem_map, List.not_mem_nil] at member
      all_goals grind [Place.isStored]
  | resolve task pc => exact pc.not_stored _ task
  | reap lost pc =>
      intro token member
      rcases List.mem_append.mp member with inLost | member
      · obtain ⟨task, _, rfl⟩ := List.mem_map.mp inLost
        rfl
      · cases pc with
        | next => cases member
        | resubmit task call =>
            rcases List.mem_cons.mp member with rfl | member
            · rfl
            · exact call.not_stored _ token member
        | settle task pc => exact pc.not_stored _ _ token member
  | accept link tasks remaining begun =>
      intro token member
      rcases List.mem_append.mp member with inReply | member
      · obtain ⟨task, _, rfl⟩ := List.mem_map.mp inReply
        rfl
      · cases begun with
        | none => cases member
        | some call => exact call.not_stored _ token member
  | complete batch =>
      intro token member
      obtain ⟨notice, _, rfl⟩ := List.mem_map.mp member
      rfl
  | worker pc =>
      intro token member
      cases member
  | help remaining =>
      intro token member
      cases member

/-- A stored task is where the shared state has it. -/
theorem State.mem_shared_of_stored {state : State config} {token : Token}
    (member : token ∈ state.tokens) (stored : token.place.isStored = true) :
    token ∈ state.shared.tokens := by
  rcases List.mem_append.mp member with inside | held
  · exact inside
  · obtain ⟨thread, _, inStack⟩ := List.mem_flatMap.mp held
    obtain ⟨frame, _, inFrame⟩ := List.mem_flatMap.mp inStack
    rw [frame.not_stored token inFrame] at stored
    cases stored

/-- A task in a portable pool. -/
theorem State.mem_pool_of_queued {state : State config} {task : Task}
    (member : ⟨.queued true, task⟩ ∈ state.tokens) :
    ∃ slot, task ∈ state.shared.queues (.pool slot) := by
  have inside := State.mem_shared_of_stored member rfl
  simp only [Shared.tokens, queuedTokens, List.mem_append, List.mem_flatMap,
    List.mem_map] at inside
  obtain ((⟨queue, _, other, inQueue, same⟩ | ⟨entry, _, same⟩) |
    ⟨notice, _, same⟩) | ⟨notice, _, same⟩ := inside
  · injection same with samePlace sameTask
    injection samePlace with isPool
    subst sameTask
    cases queue with
    | pool slot => exact ⟨slot, inQueue⟩
    | deque owner => cases isPool
    | injection index => cases isPool
  · injection same with samePlace _
    cases samePlace
  · injection same with samePlace _
    cases samePlace
  · injection same with samePlace _
    cases samePlace

/-- A re-run is submitted while its original is being resubmitted. -/
theorem Frame.total_rerun (frame : Frame config) :
    total (placed (Place.submittedBy .rerun)) frame.tokens =
      total (placed Place.isResubmitting) frame.tokens := by
  have ofSubmitCall : ∀ (site : Site) (call : SubmitCall config),
      total (placed (Place.submittedBy .rerun)) (call.tokens site) =
          (if site = .rerun then 1 else 0) ∧
        total (placed Place.isResubmitting) (call.tokens site) = 0 := by
    intro site call
    unfold SubmitCall.tokens
    split <;>
      simp [placed_mk, Place.submittedBy, Place.isResubmitting]
  have ofUserCall : ∀ call : UserCall config,
      total (placed (Place.submittedBy .rerun)) call.tokens =
        total (placed Place.isResubmitting) call.tokens := by
    intro call
    cases call with
    | submit call => simp [UserCall.tokens, ofSubmitCall]
    | job request pc =>
        cases pc <;>
          simp [UserCall.tokens, JobPc.tokens, preparingToken, placed_mk,
            Place.submittedBy, Place.isResubmitting, ofSubmitCall]
  have ofCompletePc : ∀ (cause : Cause) (task : Task)
      (pc : CompletePc config),
      total (placed (Place.submittedBy .rerun)) (pc.tokens cause task) =
        total (placed Place.isResubmitting) (pc.tokens cause task) := by
    intro cause task pc
    cases pc <;>
      simp [CompletePc.tokens, placed_mk, recordingToken, Place.submittedBy,
        Place.isResubmitting, ofSubmitCall]
  cases frame with
  | execute task helped pc =>
      cases pc with
      | running begun =>
          cases begun <;>
            simp [Frame.tokens, ExecutePc.tokens, placed_mk,
              Place.submittedBy, Place.isResubmitting, ofUserCall]
      | completing pc => exact ofCompletePc _ task pc
      | _ =>
          simp [Frame.tokens, ExecutePc.tokens, placed_mk, owedToken,
            Place.submittedBy, Place.isResubmitting]
  | call begun => exact ofUserCall begun
  | serve request pc =>
      cases pc <;>
        simp [Frame.tokens, ServePc.tokens, placed_mk, Place.submittedBy,
          Place.isResubmitting]
  | resolve task pc => exact ofCompletePc _ task pc
  | reap lost pc =>
      cases pc <;>
        simp [Frame.tokens, ReapPc.tokens, placed_mk, Place.submittedBy,
          Place.isResubmitting, ofSubmitCall, ofCompletePc]
  | accept link tasks remaining begun =>
      cases begun <;>
        simp [Frame.tokens, placed_mk, Place.submittedBy,
          Place.isResubmitting, ofSubmitCall]
  | complete batch =>
      simp [Frame.tokens, owedToken, placed_mk, Place.submittedBy,
        Place.isResubmitting]
  | _ => rfl

section Balanced

variable {state : State config}

/-- Re-runs being submitted are as many as tasks being resubmitted. -/
theorem State.total_rerun (state : State config) :
    total (placed (Place.submittedBy .rerun)) state.tokens =
      total (placed Place.isResubmitting) state.tokens := by
  refine State.total_congr ?_ fun _ _ frame _ => Frame.total_rerun frame
  rw [Shared.total_eq_zero, Shared.total_eq_zero] <;>
    simp [placed_mk, Place.submittedBy, Place.isResubmitting]

/-- A balanced ledger leaves no task at any of the places it counts. -/
theorem not_inLedger_of_balanced
    (reached : (node config).Reachable state)
    (balanced : state.shared.completed = state.shared.submitted)
    {token : Token} (member : token ∈ state.tokens) :
    token.place.inLedger = false := by
  have balance : state.shared.submitted =
      state.shared.completed + total debit state.tokens :=
    (balanced_of_reachable reached).balance
  have none : total debit state.tokens = 0 := by omega
  have weight := Lib.total_eq_zero.mp none token member
  unfold debit at weight
  split at weight
  · cases weight
  · rename_i outside
    simpa using outside

/-- Nor is a re-run being submitted then. -/
theorem not_rerun_of_balanced
    (reached : (node config).Reachable state)
    (balanced : state.shared.completed = state.shared.submitted)
    {token : Token} (member : token ∈ state.tokens) :
    token.place.submittedBy .rerun = false := by
  have none : total (placed (Place.submittedBy .rerun)) state.tokens = 0 := by
    rw [state.total_rerun, Lib.total_eq_zero]
    intro other isOther
    have outside := not_inLedger_of_balanced reached balanced isOther
    unfold placed
    split
    · rename_i resubmitting
      unfold Place.isResubmitting at resubmitting
      split at resubmitting
      · rename_i place
        rw [place] at outside
        cases outside
      · cases resubmitting
    · rfl
  have weight := Lib.total_eq_zero.mp none token member
  unfold placed at weight
  split at weight
  · cases weight
  · rename_i outside
    simpa using outside

end Balanced

end HydraRT.Cluster
