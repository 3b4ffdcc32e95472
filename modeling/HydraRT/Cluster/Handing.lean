import HydraRT.Cluster.Portable
import HydraRT.Cluster.Workers

/-!
# To whom a node hands its tasks

The entry that `track_outstanding` makes for a task names the thief, and so
does the request that the response answers.  This file follows both through
the steps of a node: a task is handed out once, and sent only to the thief
that its entry was made for.
-/

namespace HydraRT.Cluster

open HydraRT.Lib

variable {config : NodeConfig}

/-- The node whose request the call answers, if it answers one. -/
def Frame.requester : Frame config → NodeId
  | .serve request _ => request.requesterNode
  | _ => 0

/-- The node whose request the acting thread answers. -/
def State.requester (state : State config) : Action → NodeId
  | .move index (.advance _) =>
      (((state.threads[index]?).bind (·.stack.head?)).map
        Frame.requester).getD 0
  | _ => 0

/-- The id that an action hands out, with the thief. -/
def State.handing (state : State config) (action : Action) :
    List (Nat × NodeId) :=
  (state.track? action).toList.map fun task =>
    (task.taskId, state.requester action)

/-! ## Answering a request -/

/-- What the call is about to send has been handed to its requester, but for
the tasks it still has to track. -/
def Frame.Tracked (log : List (Nat × NodeId)) : Frame config → Prop
  | .serve request (.tracking untracked taken) =>
      ∀ task ∈ taken, task ∈ untracked ∨
        (task.taskId, request.requesterNode) ∈ log
  | .serve request (.sizing _ _ taken) | .serve request (.sending _ taken) =>
      ∀ task ∈ taken, (task.taskId, request.requesterNode) ∈ log
  | _ => True

theorem Frame.Tracked.of_plain {log : List (Nat × NodeId)}
    {frame : Frame config} (plain : frame.isServe = false) :
    frame.Tracked log := by
  cases frame with
  | serve request pc => cases plain
  | _ => trivial

theorem Frame.Tracked.mono {log longer : List (Nat × NodeId)}
    {frame : Frame config} (tracked : frame.Tracked log)
    (grows : ∀ note ∈ log, note ∈ longer) : frame.Tracked longer := by
  unfold Frame.Tracked at tracked ⊢
  split at tracked
  · intro task member
    exact (tracked task member).imp_right (grows _)
  · exact fun task member => grows _ (tracked task member)
  · exact fun task member => grows _ (tracked task member)
  · trivial

theorem LeavesAlone.tracked {shared following : Shared config}
    {frames : List (Frame config)} (alone : LeavesAlone shared following frames)
    (log : List (Nat × NodeId)) : ∀ frame ∈ frames, frame.Tracked log := by
  intro frame member
  apply Frame.Tracked.of_plain
  simpa using List.any_eq_false.mp alone.plain frame member

/-- The id that the next access of the call hands out, with the thief. -/
def Frame.handing (frame : Frame config) : List (Nat × NodeId) :=
  frame.track?.toList.map fun task => (task.taskId, frame.requester)

/-- What one access of a call hands out and sends. -/
structure Dealt (log : List (Nat × NodeId)) (frame : Frame config)
    (shared following : Shared config) (frames : List (Frame config)) :
    Prop where
  entries : ∀ entry ∈ following.outstanding,
    entry ∈ shared.outstanding ∨
      (entry.task.taskId, entry.thiefNode) ∈ frame.handing
  replies : ∃ new, following.replies = shared.replies ++ new ∧
    ∀ reply ∈ new, ∀ task ∈ reply.tasks,
      (task.taskId, frame.requester) ∈ log
  frames : ∀ next ∈ frames, next.Tracked (log ++ frame.handing)

section Dealt

variable {log : List (Nat × NodeId)} {frame : Frame config}
  {shared following : Shared config} {frames : List (Frame config)}

theorem Dealt.of_dealings (same : following.dealings = shared.dealings)
    (tracked : ∀ next ∈ frames, next.Tracked (log ++ frame.handing)) :
    Dealt log frame shared following frames where
  entries entry member := by
    have sameEntries : following.outstanding = shared.outstanding :=
      congrArg (·.2.1) same
    rw [sameEntries] at member
    exact .inl member
  replies := by
    have sameReplies : following.replies = shared.replies :=
      congrArg (·.2.2) same
    exact ⟨[], by rw [sameReplies, List.append_nil], List.forall_mem_nil _⟩
  frames := tracked

theorem ServePc.dealt {request : StealRequest} {pc : ServePc}
    (tracked : (Frame.serve request pc : Frame config).Tracked log) :
    Dealt log (.serve request pc) shared (pc.step shared request).1
      (pc.step shared request).2 := by
  unfold ServePc.step
  split
  · refine .of_dealings rfl ?_
    rw [List.forall_mem_singleton]
    trivial
  · refine .of_dealings rfl ?_
    rw [List.forall_mem_singleton]
    trivial
  · refine .of_dealings rfl ?_
    rw [List.forall_mem_singleton]
    exact fun task member => .inl member
  · refine .of_dealings rfl ?_
    rw [List.forall_mem_singleton]
    exact fun task member => .inl member
  · split
    · rename_i taken
      refine .of_dealings (Shared.dealings_take? taken) ?_
      rw [List.forall_mem_singleton]
      trivial
    · refine .of_dealings rfl ?_
      rw [List.forall_mem_singleton]
      trivial
  · rename_i first rest taken
    refine ⟨?_, ⟨[], ?_, List.forall_mem_nil _⟩, ?_⟩
    · intro entry member
      unfold Shared.trackOutstanding at member
      split at member
      · exact .inl member
      · rcases List.mem_append.mp member with old | new
        · exact .inl old
        · rw [List.mem_singleton.mp new]
          exact .inr List.mem_cons_self
    · unfold Shared.trackOutstanding
      split <;> exact (List.append_nil _).symm
    · rw [List.forall_mem_singleton]
      intro task member
      rcases tracked task member with waits | handed
      · rcases List.mem_cons.mp waits with rfl | later
        · exact .inr (List.mem_append_right _ List.mem_cons_self)
        · exact .inl later
      · exact .inr (List.mem_append_left _ handed)
  · refine .of_dealings rfl ?_
    rw [List.forall_mem_singleton]
    intro task member
    rcases tracked task member with waits | handed
    · cases waits
    · exact List.mem_append_left _ handed
  · refine .of_dealings rfl ?_
    rw [List.forall_mem_singleton]
    exact fun task member => List.mem_append_left _ (tracked task member)
  · refine .of_dealings rfl ?_
    rw [List.forall_mem_singleton]
    exact fun task member => List.mem_append_left _ (tracked task member)
  · refine ⟨fun entry member => .inl member, ⟨_, rfl, ?_⟩,
      List.forall_mem_nil _⟩
    rw [List.forall_mem_singleton]
    exact tracked

theorem Frame.dealt {home : Option (Fin config.workers)} {fails : Bool}
    (tracked : frame.Tracked log)
    (advanced : frame.advance shared home fails =
      some (following, frames)) :
    Dealt log frame shared following frames := by
  by_cases serves : frame.isServe = true
  · cases frame with
    | serve request pc =>
        have dealt := @ServePc.dealt _ _ shared _ _ tracked
        have result : pc.step shared request = (following, frames) :=
          Option.some.inj advanced
        rw [result] at dealt
        exact dealt
    | _ => cases serves
  · have alone := Frame.leavesAlone (by simpa using serves) advanced
    exact .of_dealings alone.dealings (alone.tracked _)

end Dealt

/-! ## Steps of a node -/

/-- What a step of a node hands out and sends. -/
structure StepDealt (log : List (Nat × NodeId)) (action : Action)
    (state following : State config) : Prop where
  entries : ∀ entry ∈ following.shared.outstanding,
    entry ∈ state.shared.outstanding ∨
      (entry.task.taskId, entry.thiefNode) ∈ state.handing action
  replies : ∃ new, following.shared.replies = state.shared.replies ++ new ∧
    ∀ reply ∈ new, ∀ task ∈ reply.tasks,
      (task.taskId, state.requester action) ∈ log
  frames : following.Frames (Frame.Tracked (log ++ state.handing action))

/-- A thread without a call begins one. -/
theorem Role.begin_dealt {shared following : Shared config}
    {role : Role config} {move : Move} {frames : List (Frame config)}
    (begins : role.begin shared move = some (following, frames))
    (log : List (Nat × NodeId)) :
    (∀ entry ∈ following.outstanding, entry ∈ shared.outstanding) ∧
      following.replies = shared.replies ∧
        ∀ frame ∈ frames, frame.Tracked log := by
  unfold Role.begin at begins
  split at begins
  · split at begins
    · cases begins
      rw [List.forall_mem_singleton]
      exact ⟨fun _ member => member, rfl, trivial⟩
    · obtain ⟨begun, _, result⟩ := Option.map_eq_some_iff.mp begins
      cases result
      rw [List.forall_mem_singleton]
      exact ⟨fun _ member => member, rfl, trivial⟩
  · cases begins
    rw [List.forall_mem_singleton]
    exact ⟨fun _ member => member, rfl, trivial⟩
  · split at begins
    · cases begins
      exact ⟨fun _ member => member, rfl, List.forall_mem_nil _⟩
    · obtain ⟨entry, _, result⟩ := Option.map_eq_some_iff.mp begins
      cases result
      rw [List.forall_mem_singleton]
      exact ⟨fun _ member => List.mem_of_mem_eraseIdx member, rfl, trivial⟩
  · split at begins
    · cases begins
      rw [List.forall_mem_singleton]
      exact ⟨fun _ member => List.mem_of_mem_filter member, rfl, trivial⟩
    · cases begins
  · split at begins <;> cases begins
    · exact ⟨fun _ member => member, rfl, List.forall_mem_nil _⟩
    · rw [List.forall_mem_singleton]
      exact ⟨fun _ member => member, rfl, trivial⟩
  · cases begins
    rw [List.forall_mem_singleton]
    exact ⟨fun _ member => member, rfl, trivial⟩
  · cases begins

section Steps

variable {log : List (Nat × NodeId)} {action : Action}
  {state following : State config}

/-- A step that hands nothing out. -/
theorem StepDealt.still
    (entries : ∀ entry ∈ following.shared.outstanding,
      entry ∈ state.shared.outstanding)
    (replies : following.shared.replies = state.shared.replies)
    (frames : following.Frames (Frame.Tracked log)) :
    StepDealt log action state following where
  entries entry member := .inl (entries entry member)
  replies := ⟨[], by rw [replies, List.append_nil], List.forall_mem_nil _⟩
  frames thread member frame inStack :=
    (frames thread member frame inStack).mono
      fun _ inLog => List.mem_append_left _ inLog

theorem step_dealt (tracked : state.Frames (Frame.Tracked log))
    (stepped : (node config).step state action = some following) :
    StepDealt log action state following := by
  cases step_stepped stepped with
  | tick => exact .still (fun _ member => member) rfl tracked
  | stop => exact .still (fun _ member => member) rfl tracked
  | shutdown => exact .still (fun _ member => member) rfl tracked
  | quit found _ empty _ =>
      refine .still (fun _ member => member) rfl (tracked.set _ ?_)
      rw [empty]
      exact List.forall_mem_nil _
  | @move index thread move shared stack found _ _ stacked =>
      have ofThread := tracked thread (List.mem_of_getElem? found)
      cases stacked with
      | @advance fails frame below frames _ holds advanced =>
          rw [holds] at ofThread
          obtain ⟨ofFrame, ofBelow⟩ := List.forall_mem_cons.mp ofThread
          have dealt := Frame.dealt ofFrame advanced
          have sameHanding :
              state.handing (.move index (.advance fails)) =
                frame.handing := by
            simp [State.handing, State.track?, State.requester,
              Frame.handing, found, holds]
          have sameRequester :
              state.requester (.move index (.advance fails)) =
                frame.requester := by
            simp [State.requester, found, holds]
          refine ⟨?_, ?_, ?_⟩
          · rw [sameHanding]
            exact dealt.entries
          · rw [sameRequester]
            exact dealt.replies
          · have wider : state.Frames
                (Frame.Tracked (log ++ frame.handing)) :=
              fun other member each inStack =>
                (tracked other member each inStack).mono
                  fun _ inLog => List.mem_append_left _ inLog
            rw [sameHanding]
            refine wider.set _ (List.forall_mem_append.mpr
              ⟨dealt.frames, ?_⟩)
            intro each inBelow
            exact (ofBelow each inBelow).mono
              fun _ inLog => List.mem_append_left _ inLog
      | bodyEnds holds =>
          rw [holds] at ofThread
          refine .still (fun _ member => member) rfl (tracked.set _ ?_)
          exact List.forall_mem_cons.mpr
            ⟨trivial, (List.forall_mem_cons.mp ofThread).2⟩
      | help holds _ =>
          rw [holds] at ofThread
          refine .still (fun _ member => member) rfl (tracked.set _ ?_)
          exact List.forall_mem_cons.mpr ⟨trivial, ofThread⟩
      | call holds _ _ =>
          rw [holds] at ofThread
          refine .still (fun _ member => member) rfl (tracked.set _ ?_)
          exact List.forall_mem_cons.mpr
            ⟨trivial, (List.forall_mem_cons.mp ofThread).2⟩
      | begin _ begins =>
          obtain ⟨entries, replies, frames⟩ := Role.begin_dealt begins log
          exact .still entries replies (tracked.set _ frames)

end Steps

/-! ## Runs of a node -/

/-- The log lists the ids that the node has handed out, each once and with its
thief. -/
structure Handed (state : State config) (log : List (Nat × NodeId)) :
    Prop where
  once : (log.map Prod.fst).Nodup
  gone : ∀ note ∈ log, Gone state note.1
  entries : ∀ entry ∈ state.shared.outstanding,
    (entry.task.taskId, entry.thiefNode) ∈ log
  frames : state.Frames (Frame.Tracked log)

theorem Handed.thief_unique {state : State config}
    {log : List (Nat × NodeId)} (handed : Handed state log) {id : Nat}
    {first second : NodeId} (isFirst : (id, first) ∈ log)
    (isSecond : (id, second) ∈ log) : first = second := by
  have same := List.inj_on_of_nodup_map handed.once isFirst isSecond rfl
  exact congrArg Prod.snd same

theorem Handed.initial {state : State config} (isInitial : state.Initial) :
    Handed state [] where
  once := List.nodup_nil
  gone := List.forall_mem_nil _
  entries := by
    rw [isInitial.shared]
    exact List.forall_mem_nil _
  frames := by
    intro thread member frame inStack
    rw [(isInitial.threads thread member).1] at inStack
    generalize thread.role = role at inStack
    cases role with
    | worker index =>
        obtain rfl := List.mem_singleton.mp inStack
        trivial
    | _ => cases inStack

theorem Handed.step {state following : State config} {action : Action}
    {log : List (Nat × NodeId)}
    (reached : (node config).Reachable state) (handed : Handed state log)
    (stepped : (node config).step state action = some following) :
    Handed following (log ++ state.handing action) := by
  have dealt := step_dealt handed.frames stepped
  obtain ⟨event, happens⟩ := step_happens stepped
  have before := balanced_of_reachable reached
  have after := balanced_of_reachable (reached.next stepped)
  have entries : ∀ entry ∈ following.shared.outstanding,
      (entry.task.taskId, entry.thiefNode) ∈ log ++ state.handing action := by
    intro entry member
    rcases dealt.entries entry member with old | new
    · exact List.mem_append_left _ (handed.entries entry old)
    · exact List.mem_append_right _ new
  have stays : ∀ note ∈ log, Gone following note.1 :=
    fun note member => (handed.gone note member).kept happens
  cases tracks : state.track? action with
  | none =>
      have nothing : state.handing action = [] := by
        simp [State.handing, tracks]
      have frames := dealt.frames
      rw [nothing, List.append_nil] at entries frames ⊢
      exact ⟨handed.once, stays, entries, frames⟩
  | some task =>
      have one : state.handing action =
          [(task.taskId, state.requester action)] := by
        simp [State.handing, tracks]
      have frames := dealt.frames
      rw [one] at entries frames ⊢
      obtain ⟨serving, thief, tracked⟩ :=
        State.mem_serving_of_track? tracks stepped
      refine ⟨?_, ?_, entries, frames⟩
      · rw [List.map_append, List.nodup_append]
        refine ⟨handed.once, List.nodup_singleton _, ?_⟩
        rintro id inLog other isNew rfl
        rw [List.mem_singleton.mp isNew] at inLog
        obtain ⟨note, member, sameId⟩ := List.mem_map.mp inLog
        have gone := handed.gone note member
        rw [sameId] at gone
        exact gone.not_serving serving
      · rw [List.forall_mem_append, List.forall_mem_singleton]
        exact ⟨stays, .of_outstanding after
          (tracked_now before serving tracked)⟩

end HydraRT.Cluster
