import HydraRT.Cluster.OneOrigin
import HydraRT.Cluster.Workers

/-!
# Links in use

`try_remote_steal` keeps the mutex of its link until it has counted the tasks
of the response, and the notice about any of them needs the same mutex.  So the
origin still waits for every task of a response that a thief is accepting.
-/

namespace HydraRT.Cluster

open HydraRT.Inference
open HydraRT.Lib

section Node

variable {config : NodeConfig}

/-! ## Responses being accepted -/

/-- The response that the call is accepting, with its link. -/
def Frame.response? : Frame config → Option (NodeId × List Task)
  | .accept link tasks _ _ => some (link, tasks)
  | _ => none

theorem Frame.kind_of_response {frame : Frame config}
    {response : NodeId × List Task}
    (accepts : frame.response? = some response) : frame.kind = .accept := by
  cases frame with
  | accept => rfl
  | _ => cases accepts

/-- A thread accepts the tasks, which came over the link. -/
def State.Accepts (state : State config) (response : NodeId × List Task) :
    Prop :=
  ∃ thread ∈ state.threads, ∃ frame ∈ thread.stack,
    frame.response? = some response

/-- A call that accepts goes on with the same response. -/
theorem Frame.advance_response {shared following : Shared config}
    {home : Option (Fin config.workers)} {fails : Bool}
    {frame : Frame config} {frames : List (Frame config)}
    (advanced : frame.advance shared home fails = some (following, frames))
    {new : Frame config} (member : new ∈ frames)
    {response : NodeId × List Task}
    (accepts : new.response? = some response) :
    frame.response? = some response ∧ frames = [new] := by
  have isAccept := Frame.kind_of_response accepts
  rcases Frame.advance_kind advanced new member with same | executes
  · cases frame with
    | accept link tasks remaining begun =>
        have stepped := Option.some.inj advanced
        unfold acceptStep at stepped
        split at stepped <;> cases stepped
        · cases member
        · obtain rfl := List.mem_singleton.mp member
          exact ⟨accepts, rfl⟩
        · obtain rfl := List.mem_singleton.mp member
          exact ⟨accepts, rfl⟩
    | _ => cases same.symm.trans isAccept
  · cases executes.symm.trans isAccept

/-- A thread begins to accept when a response comes in. -/
theorem Role.begin_response {shared following : Shared config}
    {role : Role config} {move : Move} {frames : List (Frame config)}
    (begins : role.begin shared move = some (following, frames))
    {new : Frame config} (member : new ∈ frames)
    {response : NodeId × List Task}
    (accepts : new.response? = some response) :
    move = .reply response.1 response.2 ∧ frames = [new] := by
  unfold Role.begin at begins
  split at begins
  case h_5 =>
    split at begins <;> cases begins
    · cases member
    · obtain rfl := List.mem_singleton.mp member
      cases accepts
      exact ⟨rfl, rfl⟩
  case h_1 =>
    split at begins
    · cases begins
      obtain rfl := List.mem_singleton.mp member
      cases accepts
    · obtain ⟨begun, _, result⟩ := Option.map_eq_some_iff.mp begins
      cases result
      obtain rfl := List.mem_singleton.mp member
      cases accepts
  case h_3 =>
    split at begins
    · cases begins
      cases member
    · obtain ⟨entry, _, result⟩ := Option.map_eq_some_iff.mp begins
      cases result
      obtain rfl := List.mem_singleton.mp member
      cases accepts
  case h_4 =>
    split at begins <;> cases begins
    obtain rfl := List.mem_singleton.mp member
    cases accepts
  case h_7 => cases begins
  all_goals
    cases begins
    obtain rfl := List.mem_singleton.mp member
    cases accepts

/-- A call that accepts a response is all that its thread is doing. -/
structure Thread.Lone (thread : Thread config) : Prop where
  alone : ∀ frame ∈ thread.stack, ∀ response,
    frame.response? = some response → thread.stack = [frame]
  unfinished : thread.finished = true → thread.stack = []

def State.Lone (state : State config) : Prop :=
  ∀ thread ∈ state.threads, thread.Lone

/-- What a move makes of a stack: the responses on it were there before, or
one has come in. -/
theorem Stacked.responses {shared following : Shared config}
    {thread : Thread config} {move : Move} {stack : List (Frame config)}
    (stacked : Stacked shared thread move following stack)
    (lone : thread.Lone) :
    ∀ frame ∈ stack, ∀ response, frame.response? = some response →
      stack = [frame] ∧
        (move = .reply response.1 response.2 ∨
          ∃ old ∈ thread.stack, old.response? = some response) := by
  intro frame member response accepts
  have below : ∀ {top rest}, thread.stack = top :: rest → frame ∉ rest := by
    intro top rest holds inside
    have single := lone.alone frame
      (holds ▸ List.mem_cons_of_mem _ inside) response accepts
    rw [holds] at single
    obtain ⟨rfl, rfl⟩ := List.cons.inj single
    cases inside
  cases stacked with
  | advance holds advanced =>
      rcases List.mem_append.mp member with isNew | inside
      · obtain ⟨old, single⟩ :=
          Frame.advance_response advanced isNew accepts
        have onTop := lone.alone _ (holds ▸ List.mem_cons_self) response old
        rw [holds] at onTop ⊢
        obtain ⟨_, rfl⟩ := List.cons.inj onTop
        rw [single]
        exact ⟨rfl, .inr ⟨_, List.mem_cons_self, old⟩⟩
      · exact absurd inside (below holds)
  | bodyEnds holds =>
      rcases List.mem_cons.mp member with rfl | inside
      · cases accepts
      · exact absurd inside (below holds)
  | help holds callsOut =>
      rcases List.mem_cons.mp member with rfl | member
      · cases accepts
      · rcases List.mem_cons.mp member with rfl | inside
        · cases accepts
        · exact absurd inside (below holds)
  | call holds callsOut started =>
      rcases List.mem_cons.mp member with rfl | inside
      · cases accepts
      · exact absurd inside (below holds)
  | begin empty begins =>
      obtain ⟨isReply, single⟩ := Role.begin_response begins member accepts
      exact ⟨single, .inl isReply⟩

theorem lone_of_reachable {state : State config}
    (reached : (node config).Reachable state) : state.Lone := by
  refine Machine.Reachable.invariant ?_ ?_ reached
  · intro state isInitial thread member
    obtain ⟨starts, unfinished⟩ := isInitial.threads thread member
    refine ⟨fun frame inStack response accepts => ?_, fun finished => ?_⟩
    · rw [starts] at inStack
      generalize thread.role = role at inStack
      cases role with
      | worker index =>
          obtain rfl := List.mem_singleton.mp inStack
          cases accepts
      | _ => cases inStack
    · cases unfinished.symm.trans finished
  · intro state action following lone stepped
    cases step_stepped stepped with
    | tick => exact lone
    | stop => exact lone
    | shutdown => exact lone
    | quit found _ empty _ =>
        intro other inside
        rcases List.mem_or_eq_of_mem_set inside with old | rfl
        · exact lone other old
        · refine ⟨fun frame inStack => ?_, fun _ => empty⟩
          rw [show Thread.stack _ = [] from empty] at inStack
          cases inStack
    | @move index thread move shared stack found unfinished _ stacked =>
        have responses :=
          stacked.responses (lone thread (List.mem_of_getElem? found))
        intro other inside
        rcases List.mem_or_eq_of_mem_set inside with old | rfl
        · exact lone other old
        · refine ⟨fun frame inStack response accepts => ?_, fun finished => ?_⟩
          · exact (responses frame inStack response accepts).1
          · cases unfinished.symm.trans finished

/-- While a response is accepted, its link is held. -/
theorem State.Accepts.linkHeld {state : State config}
    {response : NodeId × List Task}
    (reached : (node config).Reachable state)
    (accepts : state.Accepts response) :
    state.linkHeld response.1 = true := by
  obtain ⟨thread, member, frame, inStack, isResponse⟩ := accepts
  obtain ⟨alone, unfinished⟩ := lone_of_reachable reached thread member
  have single := alone frame inStack response isResponse
  have runs : thread.finished = false := by
    rw [Bool.eq_false_iff]
    intro finished
    cases single.symm.trans (unfinished finished)
  refine List.any_eq_true.mpr ⟨thread, member, ?_⟩
  cases frame with
  | accept link tasks remaining begun =>
      cases isResponse
      simp [Thread.held?, runs, single]
  | _ => cases isResponse

/-- A response that is accepted was accepted before, or has come in. -/
theorem State.Accepts.before {state following : State config}
    {action : Action} {response : NodeId × List Task}
    (reached : (node config).Reachable state)
    (stepped : (node config).step state action = some following)
    (accepts : following.Accepts response) :
    state.Accepts response ∨
      ∃ index, action = .move index (.reply response.1 response.2) := by
  obtain ⟨thread, member, frame, inStack, isResponse⟩ := accepts
  have lone := lone_of_reachable reached
  cases step_stepped stepped with
  | tick => exact .inl ⟨thread, member, frame, inStack, isResponse⟩
  | stop => exact .inl ⟨thread, member, frame, inStack, isResponse⟩
  | shutdown => exact .inl ⟨thread, member, frame, inStack, isResponse⟩
  | quit found _ empty _ =>
      rcases List.mem_or_eq_of_mem_set member with old | rfl
      · exact .inl ⟨thread, old, frame, inStack, isResponse⟩
      · rw [show Thread.stack _ = [] from empty] at inStack
        cases inStack
  | @move index mover move shared stack found _ _ stacked =>
      rcases List.mem_or_eq_of_mem_set member with old | rfl
      · exact .inl ⟨thread, old, frame, inStack, isResponse⟩
      · have present := List.mem_of_getElem? found
        rcases (stacked.responses (lone mover present) frame inStack response
            isResponse).2 with isReply | ⟨older, wasInStack, wasResponse⟩
        · exact .inr ⟨index, by rw [isReply]⟩
        · exact .inl ⟨mover, present, older, wasInStack, wasResponse⟩

/-! ## Notices being sent -/

/-- Only the completion thread sends notices, one at a time. -/
theorem Frame.advance_results {shared following : Shared config}
    {home : Option (Fin config.workers)} {fails : Bool}
    {frame : Frame config} {frames : List (Frame config)}
    (advanced : frame.advance shared home fails = some (following, frames)) :
    following.results = shared.results ∨
      ∃ notice, frame.locks = some notice.1 ∧
        following.results = shared.results ++ [notice] := by
  have ofNotices : ∀ {later : Shared config},
      later.notices = shared.notices → later.results = shared.results :=
    fun same => congrArg (·.2) same
  cases frame with
  | worker pc =>
      obtain ⟨worker, _, stepped⟩ := Option.map_eq_some_iff.mp advanced
      unfold WorkerPc.step at stepped
      split at stepped
      case h_4 =>
        split at stepped <;> cases stepped <;> exact .inl rfl
      case h_6 =>
        split at stepped
        · rename_i taken
          obtain ⟨rest, rfl, _⟩ := Shared.take?_eq_some taken
          cases stepped
          exact .inl rfl
        · cases stepped
          exact .inl rfl
      all_goals
        cases stepped
        exact .inl rfl
  | help remaining =>
      cases remaining with
      | nil =>
          cases advanced
          exact .inl rfl
      | cons queue rest =>
          simp only [Frame.advance] at advanced
          split at advanced
          · rename_i taken
            obtain ⟨rest, rfl, _⟩ := Shared.take?_eq_some taken
            cases advanced
            exact .inl rfl
          · cases advanced
            exact .inl rfl
  | execute task helped pc =>
      simp only [Frame.advance] at advanced
      cases pc with
      | running call =>
          cases call with
          | none => cases advanced
          | some call =>
              cases advanced
              exact .inl (ofNotices (call.notices_step shared home))
      | notify origin taskId =>
          cases advanced
          left
          split <;> rfl
      | localCount =>
          cases advanced
          exact .inl rfl
      | completing pc =>
          have kept := pc.notices_step shared home task
          simp only [ExecutePc.step] at advanced
          split at advanced <;> rename_i stepped <;> cases advanced <;>
            rw [stepped] at kept <;> exact .inl (ofNotices kept)
      | helpedCount =>
          cases advanced
          exact .inl rfl
  | call begun =>
      have kept := begun.notices_step shared home
      simp only [Frame.advance] at advanced
      split at advanced <;> rename_i stepped <;> cases advanced <;>
        rw [stepped] at kept <;> exact .inl (ofNotices kept)
  | serve request pc =>
      have stepped := Option.some.inj advanced
      unfold ServePc.step at stepped
      split at stepped
      case h_5 =>
        split at stepped
        · rename_i taken
          obtain ⟨rest, rfl, _⟩ := Shared.take?_eq_some taken
          cases stepped
          exact .inl rfl
        · cases stepped
          exact .inl rfl
      case h_6 =>
        cases stepped
        unfold Shared.trackOutstanding
        left
        split <;> rfl
      all_goals
        cases stepped
        exact .inl rfl
  | resolve task pc =>
      have kept := pc.notices_step shared home task
      simp only [Frame.advance] at advanced
      split at advanced <;> rename_i stepped <;> cases advanced <;>
        rw [stepped] at kept <;> exact .inl (ofNotices kept)
  | reap lost pc =>
      have result := Option.some.inj advanced
      cases pc with
      | next =>
          cases lost <;> cases result <;> exact .inl rfl
      | resubmit task call =>
          have kept := call.notices_step shared home
          simp only [ReapPc.step] at result
          split at result <;> rename_i stepped <;> cases result <;>
            rw [stepped] at kept <;> exact .inl (ofNotices kept)
      | settle task pc =>
          have kept := pc.notices_step shared home task.settled
          simp only [ReapPc.step] at result
          split at result <;> rename_i stepped <;> cases result <;>
            rw [stepped] at kept <;> exact .inl (ofNotices kept)
  | accept link tasks remaining begun =>
      have stepped := Option.some.inj advanced
      unfold acceptStep at stepped
      split at stepped <;> cases stepped
      · exact .inl rfl
      · exact .inl rfl
      · rename_i call
        exact .inl (ofNotices (call.notices_step shared home))
  | complete batch =>
      cases batch with
      | nil =>
          cases advanced
          exact .inl rfl
      | cons notice rest =>
          cases advanced
          cases fails with
          | true => exact .inl rfl
          | false => exact .inr ⟨notice, rfl, rfl⟩

theorem Role.begin_results {shared following : Shared config}
    {role : Role config} {move : Move} {frames : List (Frame config)}
    (begins : role.begin shared move = some (following, frames)) :
    following.results = shared.results := by
  unfold Role.begin at begins
  split at begins
  case h_1 =>
    split at begins
    · cases begins
      rfl
    · obtain ⟨begun, _, result⟩ := Option.map_eq_some_iff.mp begins
      cases result
      rfl
  case h_3 =>
    split at begins
    · cases begins
      rfl
    · obtain ⟨entry, _, result⟩ := Option.map_eq_some_iff.mp begins
      cases result
      rfl
  case h_7 => cases begins
  all_goals
    first
    | cases begins; rfl
    | split at begins <;> cases begins <;> rfl

/-- A notice is sent while the mutex of its link is free. -/
theorem step_results {state following : State config} {action : Action}
    (stepped : (node config).step state action = some following)
    {notice : NodeId × Nat}
    (isSent : notice ∈ following.shared.results) :
    notice ∈ state.shared.results ∨ state.linkHeld notice.1 = false := by
  cases step_stepped stepped with
  | tick => exact .inl isSent
  | stop => exact .inl isSent
  | shutdown => exact .inl isSent
  | quit => exact .inl isSent
  | @move index thread move shared stack found _ _ stacked =>
      change notice ∈ shared.results at isSent
      cases stacked with
      | advance holds advanced =>
          rcases Frame.advance_results advanced with same | ⟨sent, locks, grown⟩
          · exact .inl (same ▸ isSent)
          · rw [grown] at isSent
            rcases List.mem_append.mp isSent with old | isNew
            · exact .inl old
            · obtain rfl := List.mem_singleton.mp isNew
              refine .inr (step_unblocked stepped found ?_)
              rw [Thread.locks, holds]
              exact locks
      | bodyEnds => exact .inl isSent
      | help => exact .inl isSent
      | call => exact .inl isSent
      | begin _ begins => exact .inl (Role.begin_results begins ▸ isSent)

/-! ## Who answers -/

/-- A node answers in its own name. -/
theorem victim_of_reachable {state : State config}
    (reached : (node config).Reachable state) :
    ∀ reply ∈ state.shared.replies, reply.victim = config.nodeId := by
  refine @invariant_of_events config _
    (fun books _ => ∀ reply ∈ books.replies, reply.victim = config.nodeId)
    (List.forall_mem_nil _) ?_ state reached
  intro state following action event named _ happens reply member
  rcases Event.replies_of_enter member with old | rfl
  · exact named reply old
  · exact happens.allowed

/-- A response that is accepted shows in the reading. -/
theorem State.Accepts.reading {state : State config}
    {response : NodeId × List Task} (accepts : state.Accepts response) :
    response.2.length ≤ state.reading Frame.accepting := by
  obtain ⟨thread, member, frame, inStack, isResponse⟩ := accepts
  have ofFrame : response.2.length = frame.accepting := by
    cases frame with
    | accept => cases isResponse; rfl
    | _ => cases isResponse
  rw [ofFrame]
  exact Nat.le_trans (le_total_of_mem inStack)
    (@le_total_of_mem _
      (fun each : Thread config => total Frame.accepting each.stack) _ _
      member)

end Node

/-! ## Tasks of a response -/

variable {config : ClusterConfig}

/-- What a node may still do about the task: run it, or send a notice. -/
def ClusterState.stake (state : ClusterState config) (origin : NodeId)
    (taskId : Nat) (i : Fin config.size) : Nat :=
  total (chance (config.node i).nodeId origin taskId)
      (state.nodes i).tokens +
    total (noticeOf origin taskId) (state.nodes i).tokens

theorem ClusterState.prospects_eq (state : ClusterState config)
    (origin : NodeId) (taskId : Nat) :
    state.prospects origin taskId =
      total (state.stake origin taskId) (List.finRange config.size) +
        total (copyChance origin taskId) state.flyingTasks := rfl

/-- A node with a notice has a stake. -/
theorem ClusterState.stake_ne_zero {state : ClusterState config}
    {origin : NodeId} {taskId : Nat} {i : Fin config.size}
    (owed : owedToken (origin, taskId) ∈ (state.nodes i).tokens) :
    state.stake origin taskId i ≠ 0 := by
  have notice : 1 ≤ total (noticeOf origin taskId) (state.nodes i).tokens := by
    refine Nat.le_trans ?_ (le_total_of_mem owed)
    simp [noticeOf, owedToken]
  unfold ClusterState.stake
  omega

/-- The origin waits for the task, and only node `j` can make it stop: nobody
else has a stake in the task, and `j` has not sent its notice. -/
structure Awaited (state : ClusterState config) (origin j : Fin config.size)
    (taskId : Nat) : Prop where
  isOpen : state.IsOpen origin taskId
  elsewhere : ∀ k, k ≠ j →
    state.stake (config.node origin).nodeId taskId k = 0
  flying : total (copyChance (config.node origin).nodeId taskId)
    state.flyingTasks = 0
  unsent : ((config.node origin).nodeId, taskId) ∉
    (state.nodes j).shared.results

section Awaited

variable {origin j : Fin config.size} {before after : ClusterState config}
  {i : Fin config.size} {action : Action} {event : Event}

/-- A task that has just come in is awaited. -/
theorem awaited_of_arrived {task : Task}
    (reached : (cluster config).ReachableUnder (OneSubmits origin) before)
    (arrived : ⟨.arrived, task⟩ ∈ (before.nodes j).tokens) :
    task.originNode = (config.node origin).nodeId ∧
      Awaited before origin j task.taskId := by
  have ours := originNode_eq reached
    ((faithful_of_reachable reached.reachable).arrived j task arrived)
  have isOpen := (owing_of_reachable reached).tokens j _ arrived task.taskId
    (.inl ⟨rfl, ours, rfl⟩)
  have notReaped :
      .reaped task.taskId ∉ (before.nodes origin).shared.history :=
    fun reaped => absurd rfl
      (List.countP_eq_zero.mp (reapedIn_eq_zero reached origin) _ reaped)
  have one := (prospects_of_reachable reached.reachable origin
    task.taskId).2 notReaped
  rw [ClusterState.prospects_eq] at one
  -- the copy that has come in is the only prospect
  have copied : 1 ≤ total (chance (config.node j).nodeId
      (config.node origin).nodeId task.taskId) (before.nodes j).tokens := by
    refine Nat.le_trans ?_ (le_total_of_mem arrived)
    simp [chance_mk, Place.isCopy, copyChance, ours]
  have ofThief : 1 ≤ before.stake (config.node origin).nodeId task.taskId j :=
    Nat.le_trans copied (Nat.le_add_right _ _)
  have staked : before.stake (config.node origin).nodeId task.taskId j ≤
      total (before.stake (config.node origin).nodeId task.taskId)
        (List.finRange config.size) :=
    le_total_of_mem (List.mem_finRange j)
  refine ⟨ours, isOpen, ?_, by omega, fun isSent => ?_⟩
  · intro k different
    have both := add_le_total
      (before.stake (config.node origin).nodeId task.taskId) different
      (List.mem_finRange k) (List.mem_finRange j)
    omega
  · have owed := (no_chance_of_notice reached.reachable notReaped
      (State.owed_of_sent isSent)).1 j _ arrived
    exact absurd owed
      (Carries.chance_ne_zero (.inl ⟨rfl, ours, rfl⟩) _)

/-- A step brings tasks in or sends tasks out. -/
theorem Event.one_way (event : Event) :
    event.sent = [] ∨ event.received = [] := by
  cases event with
  | send reply => exact .inr rfl
  | _ => exact .inl rfl

/-- An id that the origin waits for is given, and the reaper is not at it. -/
theorem ClusterHappens.no_luck
    (reached : (cluster config).ReachableUnder (OneSubmits origin) before)
    (happens : ClusterHappens i action event before after) {taskId : Nat}
    (isOpen : before.IsOpen origin taskId) :
    event.luck (config.node i) (before.nodes i).shared.books
      (config.node origin).nodeId taskId = 0 := by
  cases event with
  | number site portable task =>
      refine if_neg ?_
      rintro ⟨sameNode, isNext⟩
      obtain rfl := config.distinct sameNode
      obtain ⟨token, member, opened, sameId⟩ := isOpen
      have enrolled :=
        enrolled_of_reachable (node_reachable reached.reachable i)
      have isEnrolled : token.place.isEnrolled = true := by
        unfold Place.isOpen at opened
        split at opened
        · rename_i isServing
          rw [isServing]
          rfl
        · rename_i isOutstanding
          rw [isOutstanding]
          rfl
        · cases opened
      have known :=
        enrolled.known _ (enrolled.counted token member isEnrolled)
      rw [sameId, ← isNext] at known
      exact absurd known (Nat.lt_irrefl _)
  | resubmit lost =>
      have held := happens.happens.held (List.mem_singleton_self _)
      have reaped := (enrolled_of_reachable
        (node_reachable reached.reachable i)).reaped lost held
      exact absurd rfl
        (List.countP_eq_zero.mp (reapedIn_eq_zero reached i) _ reaped)
  | _ => rfl

/-- As long as node `j` holds the link to the origin, the origin waits for the
tasks that came over it. -/
theorem Awaited.kept {taskId : Nat}
    (reached : (cluster config).ReachableUnder (OneSubmits origin) before)
    (noReap : reapedIn (after.nodes origin).shared.history = 0)
    (happens : ClusterHappens i action event before after)
    (isThief : j ≠ origin)
    (held : (before.nodes j).linkHeld (config.node origin).nodeId = true)
    (awaited : Awaited before origin j taskId) :
    Awaited after origin j taskId := by
  have luck := happens.no_luck reached awaited.isOpen
  have chances := happens.happens.chance_le (config.node origin).nodeId taskId
    (shaped_of_reachable (node_reachable reached.reachable i))
  have notices := happens.happens.notice_le (config.node origin).nodeId taskId
  have carried :=
    happens.carried (copyChance (config.node origin).nodeId taskId)
  have landed := awaited.flying
  refine ⟨?_, ?_, ?_, ?_⟩
  · rcases happens.keeps_open reached.reachable noReap awaited.isOpen with
      stays | ⟨rfl, task, isResolve, rfl⟩
    · exact stays
    · -- the notice would have been sent by someone
      obtain ⟨sender, isSent⟩ := happens.resolved task isResolve
      by_cases isHolder : sender = j
      · exact absurd (isHolder ▸ isSent) awaited.unsent
      · exact absurd (awaited.elsewhere sender isHolder)
          (ClusterState.stake_ne_zero (State.owed_of_sent isSent))
  · intro k different
    by_cases acts : k = i
    · subst acts
      have nothing := awaited.elsewhere k different
      unfold ClusterState.stake at nothing ⊢
      rcases event.one_way with noneSent | noneReceived
      · rw [noneSent, total_nil] at carried
        omega
      · rw [noneReceived, total_nil] at chances
        omega
    · have same : after.stake (config.node origin).nodeId taskId k =
          before.stake (config.node origin).nodeId taskId k := by
        unfold ClusterState.stake
        rw [happens.others k acts]
      rw [same]
      exact awaited.elsewhere k different
  · by_cases acts : i = j
    · subst acts
      have noneSent := happens.happens.sends_nothing
        (helping_thief reached isThief).guests
      rw [noneSent, total_nil] at carried
      omega
    · have nothing := awaited.elsewhere i acts
      unfold ClusterState.stake at nothing
      rcases event.one_way with noneSent | noneReceived
      · rw [noneSent, total_nil] at carried
        omega
      · rw [noneReceived, total_nil] at chances
        omega
  · intro isSent
    by_cases acts : j = i
    · subst acts
      rcases step_results happens.stepped isSent with old | free
      · exact awaited.unsent old
      · exact Bool.false_ne_true (free.symm.trans held)
    · rw [happens.others j acts] at isSent
      exact awaited.unsent isSent

end Awaited

/-! ## Runs -/

/-- Only the origin gives tasks away, and the tasks of a response that a node
is accepting are awaited. -/
structure LinksHeld (state : ClusterState config) (origin : Fin config.size) :
    Prop where
  victims : ∀ reply ∈ state.flying,
    reply.tasks = [] ∨ reply.victim = (config.node origin).nodeId
  awaited : ∀ j response, (state.nodes j).Accepts response →
    ∀ task ∈ response.2, response.1 = (config.node origin).nodeId ∧
      Awaited state origin j task.taskId

section Runs

variable {origin : Fin config.size} {state : ClusterState config}
  (reached : (cluster config).ReachableUnder (OneSubmits origin) state)

include reached

/-- The origin accepts nothing. -/
theorem ne_origin_of_accepts {j : Fin config.size}
    {response : NodeId × List Task}
    (accepts : (state.nodes j).Accepts response) {task : Task}
    (inResponse : task ∈ response.2) : j ≠ origin := by
  rintro rfl
  have reading := accepts.reading
  have none := (domestic_origin reached).intake
  have some := List.length_pos_of_mem inResponse
  unfold State.intake at none
  omega

theorem replies_of_thief {j : Fin config.size} (isThief : j ≠ origin)
    {reply : Reply} (member : reply ∈ (state.nodes j).shared.replies) :
    reply.tasks = [] := by
  have none := total_eq_zero.mp (helping_thief reached isThief).sent reply
    member
  exact List.length_eq_zero_iff.mp none

theorem linksHeld_of_reachable : LinksHeld state origin := by
  induction reached with
  | start isInitial =>
      refine ⟨?_, ?_⟩
      · rw [isInitial.2]
        exact List.forall_mem_nil _
      · rintro j response ⟨thread, member, frame, inStack, isResponse⟩
        rw [((isInitial.1 j).threads thread member).1] at inStack
        generalize thread.role = role at inStack
        cases role with
        | worker index =>
            obtain rfl := List.mem_singleton.mp inStack
            cases isResponse
        | _ => cases inStack
  | @next before after action earlier allowed stepped inductionHypothesis =>
      have following := earlier.next allowed stepped
      obtain ⟨own, taken⟩ := cluster_step_node stepped
      obtain ⟨i, other, event, happens, _⟩ := cluster_step_happens stepped
      refine ⟨?_, ?_⟩
      · intro reply member
        rcases taken.launched reply member with old | isNew
        · exact inductionHypothesis.victims reply old
        · by_cases acts : action.node = origin
          · right
            rw [← acts]
            exact victim_of_reachable
              (node_reachable following.reachable action.node) reply isNew
          · exact .inl (replies_of_thief following acts isNew)
      · intro j response accepts task inResponse
        have isThief := ne_origin_of_accepts following accepts inResponse
        have ofNode := node_reachable earlier.reachable j
        -- a response that was being accepted before
        have older : (before.nodes j).Accepts response →
            response.1 = (config.node origin).nodeId ∧
              Awaited after origin j task.taskId := by
          intro accepted
          obtain ⟨link, awaited⟩ :=
            inductionHypothesis.awaited j response accepted task inResponse
          have held := accepted.linkHeld ofNode
          rw [link] at held
          exact ⟨link, awaited.kept earlier
            (reapedIn_eq_zero following origin) happens isThief held⟩
        by_cases acts : j = action.node
        · subst acts
          rcases accepts.before ofNode taken.stepped with
            accepted | ⟨index, rfl⟩
          · exact older accepted
          · -- a response that has come in
            obtain ⟨reply, flew, link, tasks⟩ := taken.arrived _ _ _ rfl
            have victim := (inductionHypothesis.victims reply flew).resolve_left
              fun empty => by
                rw [← tasks, empty] at inResponse
                cases inResponse
            have arrived : ⟨.arrived, task⟩ ∈
                (after.nodes action.node).tokens :=
              (reply_happens taken.stepped).gained
                (List.mem_map_of_mem inResponse)
            exact ⟨link.symm.trans victim,
              (awaited_of_arrived following arrived).2⟩
        · rw [taken.others j acts] at accepts
          exact older accepts

/-- When the origin waits for nothing, no node is accepting tasks. -/
theorem accepting_eq_zero (closed : ∀ taskId, ¬ state.IsOpen origin taskId)
    (j : Fin config.size) : (state.nodes j).reading Frame.accepting = 0 := by
  refine total_eq_zero.mpr fun thread member =>
    total_eq_zero.mpr fun frame inStack => ?_
  cases frame with
  | accept link tasks remaining begun =>
      refine List.length_eq_zero_iff.mpr ?_
      rw [List.eq_nil_iff_forall_not_mem]
      intro task inTasks
      obtain ⟨_, awaited⟩ := (linksHeld_of_reachable reached).awaited j
        (link, tasks) ⟨thread, member, _, inStack, rfl⟩ task inTasks
      exact closed task.taskId awaited.isOpen
  | _ => rfl

end Runs

end HydraRT.Cluster
