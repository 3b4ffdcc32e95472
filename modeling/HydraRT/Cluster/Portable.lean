import HydraRT.Cluster.Cluster
import HydraRT.Cluster.History
import HydraRT.Cluster.Submissions

/-!
# Tasks that may leave their node

What is in the portable pools was put there by `submit_portable`: it has the
type of its pool, carries its work as bytes and belongs to the node.  Such a
task is handed out once.  A task that came from another node and a task that
the reaper runs again carry a closure, so they stay.
-/

namespace HydraRT.Cluster

open HydraRT.Inference
open HydraRT.Lib

/-! ## Pools -/

section Node

variable {config : NodeConfig}

/-- A task that belongs in the pool. -/
structure Suits (config : NodeConfig) (slot : Fin TaskType.count)
    (task : Task) : Prop where
  type : task.type = .ofSlot slot
  named : slot ≠ 0
  fn : task.fn = none
  originNode : task.originNode = config.nodeId

theorem Suits.portable {slot : Fin TaskType.count} {task : Task}
    (suits : Suits config slot task) : task.portable = true := by
  have typed : ∀ slot : Fin TaskType.count, slot ≠ 0 →
      TaskType.ofSlot slot ≠ .generic := by
    decide
  simp [Task.portable, suits.fn, suits.type, typed slot suits.named]

/-- `submit_portable` is called with a type strictly between `Generic` and
`Count`. -/
def Call.Typed : Call → Prop
  | .submitPortable slot _ _ => slot ≠ 0
  | _ => True

def Action.Typed : Action → Prop
  | .move _ (.call call) => call.Typed
  | _ => True

instance (call : Call) : Decidable call.Typed := by
  unfold Call.Typed
  split <;> infer_instance

instance (action : Action) : Decidable action.Typed :=
  match action with
  | .move _ (.call call) => inferInstanceAs (Decidable call.Typed)
  | .move _ (.advance _) | .move _ .bodyEnds | .move _ (.request _) |
      .move _ (.result _) | .move _ (.reap _) | .move _ (.reply ..) |
      .move _ .drain | .move _ .quit | .tick | .stop | .shutdown =>
      isTrue trivial

/-- The submission puts its task into the right pool, if into any. -/
structure SubmitCall.Suited (call : SubmitCall config) : Prop where
  pool : ∀ slot, call.pool = some slot → Suits config slot call.task
  push : ∀ slot, call.pc = .push (.pool slot) → Suits config slot call.task

theorem SubmitCall.Suited.of_pool_eq_none {call : SubmitCall config}
    (unpooled : call.pool = none) (begins : call.pc = .takeId) :
    call.Suited := by
  refine ⟨?_, ?_⟩
  · intro slot pooled
    rw [unpooled] at pooled
    cases pooled
  · intro slot atPush
    rw [begins] at atPush
    cases atPush

theorem SubmitCall.Suited.step {shared : Shared config}
    {home : Option (Fin config.workers)} {call rest : SubmitCall config}
    (suited : call.Suited)
    (stepped : (call.step shared home).2 = some rest) : rest.Suited := by
  unfold SubmitCall.step at stepped
  split at stepped
  · cases stepped
    refine ⟨?_, ?_⟩
    · intro slot pooled
      have before := suited.pool slot pooled
      exact ⟨before.type, before.named, before.fn, before.originNode⟩
    · intro slot atPush
      cases atPush
  · cases stepped
    refine ⟨suited.pool, ?_⟩
    intro slot atPush
    apply suited.pool slot
    dsimp only at atPush
    split at atPush
    · rename_i pooled
      cases atPush
      exact pooled
    · cases atPush
    · cases atPush
  · cases stepped
    refine ⟨suited.pool, ?_⟩
    intro slot atPush
    cases atPush
  · cases stepped

/-- A stage goes to the pool of its type. -/
theorem submitStage_suited (p : StagePayload) :
    (submitStage p : SubmitCall config).Suited := by
  have slots : (taskTypeFor p.stage).slot? = some 1 ∧
        taskTypeFor p.stage = .ofSlot 1 ∨
      (taskTypeFor p.stage).slot? = some 2 ∧
        taskTypeFor p.stage = .ofSlot 2 := by
    unfold taskTypeFor
    split
    · exact .inr (by decide)
    · exact .inl (by decide)
  refine ⟨?_, ?_⟩
  · intro slot pooled
    change (taskTypeFor p.stage).slot? = some slot at pooled
    rcases slots with ⟨found, type⟩ | ⟨found, type⟩
    · rw [found] at pooled
      cases pooled
      exact ⟨type, by decide, rfl, rfl⟩
    · rw [found] at pooled
      cases pooled
      exact ⟨type, by decide, rfl, rfl⟩
  · intro slot atPush
    cases atPush

theorem SubmitCall.Fresh.suited {call : SubmitCall config}
    (fresh : call.Fresh) : call.Suited := by
  cases fresh with
  | stage p => exact submitStage_suited p
  | rerun lost => exact .of_pool_eq_none rfl rfl
  | stolen remote => exact .of_pool_eq_none rfl rfl

/-- The calls of application code. -/
theorem Call.start_suited {call : Call} {begun : UserCall config}
    (typed : call.Typed) (started : call.start config = some begun)
    {submission : SubmitCall config}
    (submits : begun.submission? = some submission) : submission.Suited := by
  cases call with
  | submit body =>
      cases started
      cases submits
      exact .of_pool_eq_none rfl rfl
  | submitPortable slot payload costHint =>
      cases started
      cases submits
      refine ⟨?_, ?_⟩
      · intro other pooled
        cases pooled
        exact ⟨rfl, typed, rfl, rfl⟩
      · intro other atPush
        cases atPush
  | submitTask body type payload originNode =>
      cases started
      cases submits
      exact .of_pool_eq_none rfl rfl
  | submitJob request =>
      simp only [Call.start] at started
      split at started
      · cases started
        cases submits
      · cases started
  | help =>
      cases started

/-- Every submission in progress is suited. -/
def Frame.Suited (frame : Frame config) : Prop :=
  ∀ call, frame.submission? = some call → call.Suited

theorem Frame.Suited.of_idle {frame : Frame config}
    (idle : frame.submission? = none) : frame.Suited := by
  intro call submits
  rw [idle] at submits
  cases submits

theorem Role.begin_suited {shared following : Shared config}
    {role : Role config} {thread : Nat} {move : Move}
    {frames : List (Frame config)}
    (typed : (Action.move thread move).Typed)
    (begins : role.begin shared move = some (following, frames)) :
    (∀ frame ∈ frames, frame.Suited) ∧
      following.queues = shared.queues := by
  unfold Role.begin at begins
  split at begins
  · split at begins
    · cases begins
      rw [List.forall_mem_singleton]
      exact ⟨.of_idle rfl, rfl⟩
    · obtain ⟨begun, started, result⟩ := Option.map_eq_some_iff.mp begins
      cases result
      rw [List.forall_mem_singleton]
      exact ⟨fun _ submits => Call.start_suited typed started submits, rfl⟩
  · cases begins
    rw [List.forall_mem_singleton]
    exact ⟨.of_idle rfl, rfl⟩
  · split at begins
    · cases begins
      exact ⟨List.forall_mem_nil _, rfl⟩
    · obtain ⟨entry, _, result⟩ := Option.map_eq_some_iff.mp begins
      cases result
      rw [List.forall_mem_singleton]
      exact ⟨.of_idle rfl, rfl⟩
  · split at begins
    · cases begins
      rw [List.forall_mem_singleton]
      exact ⟨.of_idle rfl, rfl⟩
    · cases begins
  · split at begins <;> cases begins
    · exact ⟨List.forall_mem_nil _, rfl⟩
    · rw [List.forall_mem_singleton]
      exact ⟨.of_idle rfl, rfl⟩
  · cases begins
    rw [List.forall_mem_singleton]
    exact ⟨.of_idle rfl, rfl⟩
  · cases begins

theorem suited_keptByMoves :
    KeptByMoves (Frame.Suited : Frame config → Prop) Action.Typed where
  loading := .of_idle rfl
  advance := by
    intro shared following home fails frame frames suited advanced new member
      call submits
    rcases ((Frame.advance_submits advanced).2 new member).submission call
      submits with ⟨earlier, wasSubmitting, goesOn⟩ | fresh
    · exact (suited earlier wasSubmitting).step goesOn
    · exact fresh.suited
  bodyEnds task helped := by
    unfold afterBody
    split <;> exact .of_idle rfl
  help _ := .of_idle rfl
  call typed _ started _ submits := Call.start_suited typed started submits
  begin typed begins := (Role.begin_suited typed begins).1

/-- What is in a pool belongs there. -/
theorem pools_suit {state : State config}
    (reached : (node config).ReachableUnder
      (fun _ action => action.Typed) state) :
    ∀ slot, ∀ task ∈ state.shared.queues (.pool slot),
      Suits config slot task := by
  induction reached with
  | start isInitial =>
      intro slot task member
      rw [State.Initial.shared isInitial] at member
      cases member
  | next earlier typed stepped inductionHypothesis =>
      cases step_stepped stepped with
      | tick => exact inductionHypothesis
      | stop => exact inductionHypothesis
      | shutdown => exact inductionHypothesis
      | quit => exact inductionHypothesis
      | move found _ _ stacked =>
          cases stacked with
          | advance holds advanced =>
              intro slot task member
              rcases (Frame.advance_submits advanced).1.queues _ task
                member with old | ⟨call, submits, atPush, rfl⟩
              · exact inductionHypothesis slot task old
              · have suited := suited_keptByMoves.frames earlier _
                  (List.mem_of_getElem? found) _
                  (by rw [holds]; exact List.mem_cons_self) call submits
                exact suited.push slot atPush
          | bodyEnds => exact inductionHypothesis
          | help => exact inductionHypothesis
          | call => exact inductionHypothesis
          | begin _ begins =>
              intro slot task member
              dsimp only at member
              rw [(Role.begin_suited typed begins).2] at member
              exact inductionHypothesis slot task member

/-! ## Responses -/

/-- Given away, or about to be. -/
def Place.isLent : Place → Bool
  | .serving | .copied | .outstanding | .reaped | .resubmitting => true
  | _ => false

/-- A task that is given away was given away before or comes from a pool. -/
theorem Event.lent_added {event : Event} {books : Books} {token : Token}
    (isAdded : token ∈ event.added config books)
    (lent : token.place.isLent = true) :
    (∃ old ∈ event.removed config, old.place.isLent = true ∧
      old.task = token.task) ∨ event = .take token.task := by
  cases Event.yields_of_added isAdded with
  | moved isRemoved leads =>
      refine .inl ⟨_, isRemoved, ?_, rfl⟩
      cases leads with
      | track | reap | resubmit => rfl
      | _ => cases lent
  | serve task | copy task =>
      exact .inr rfl
  | _ => cases lent

/-- What is given away is portable, and so is what was sent. -/
structure Lends (state : State config) : Prop where
  tokens : ∀ token ∈ state.tokens, token.place.isLent = true →
    token.task.portable = true
  replies : ∀ reply ∈ state.shared.replies, ∀ task ∈ reply.tasks,
    task.portable = true

theorem lends_of_reachable {state : State config}
    (reached : (node config).ReachableUnder
      (fun _ action => action.Typed) state) :
    Lends state := by
  induction reached with
  | start isInitial =>
      refine ⟨?_, ?_⟩
      · rw [State.Initial.tokens isInitial]
        exact fun _ member => by cases member
      · rw [State.Initial.shared isInitial]
        exact fun _ member => by cases member
  | next earlier typed stepped inductionHypothesis =>
      obtain ⟨event, happens⟩ := step_happens stepped
      have suit := pools_suit earlier
      refine ⟨?_, ?_⟩
      · intro token member lent
        rcases happens.moves.mem member with old | isAdded
        · exact inductionHypothesis.tokens token old lent
        · rcases Event.lent_added isAdded lent with
            ⟨old, isRemoved, wasLent, same⟩ | rfl
          · rw [← same]
            exact inductionHypothesis.tokens old (happens.held isRemoved)
              wasLent
          · obtain ⟨slot, inPool⟩ := State.mem_pool_of_queued
              (happens.held (List.mem_singleton_self _))
            exact (suit slot _ inPool).portable
      · intro reply member task inReply
        have entered := member
        rw [← Shared.books_replies, happens.books] at entered
        rcases Event.replies_of_enter entered with old | rfl
        · exact inductionHypothesis.replies reply old task inReply
        · exact inductionHypothesis.tokens _
            (happens.held (List.mem_map_of_mem inReply)) rfl

/-! ## Handing out -/

/-- The task that the next access passes to `track_outstanding`. -/
def Frame.track? : Frame config → Option Task
  | .serve _ (.tracking (task :: _) _) => some task
  | _ => none

/-- The task that an action passes to `track_outstanding`. -/
def State.track? (state : State config) : Action → Option Task
  | .move index (.advance _) => do
      let thread ← state.threads[index]?
      let frame ← thread.stack.head?
      frame.track?
  | _ => none

/-- Handed out already. -/
def Place.isGone : Place → Bool
  | .outstanding | .reaped | .resubmitting => true
  | .finishing cause _ => cause != .executed
  | _ => false

theorem Event.gone_added {event : Event} {books : Books} {token : Token}
    (isAdded : token ∈ event.added config books)
    (bears : token.place.bearsId = true) :
    (∃ old ∈ event.removed config, old.place.bearsId = true ∧
      old.task.taskId = token.task.taskId ∧
        (old.place.isGone = true → token.place.isGone = true)) ∨
      token.task.taskId = books.nextId := by
  cases Event.yields_of_added isAdded with
  | moved isRemoved leads =>
      refine .inl ⟨_, isRemoved, ?_, rfl, ?_⟩
      · cases leads <;> rfl
      · cases leads <;> first | exact id | exact fun _ => rfl
  | number site portable task =>
      exact .inr rfl
  | count site portable task | advance cause task p next =>
      exact .inl ⟨_, List.mem_singleton_self _, rfl, rfl, id⟩
  | serve task =>
      exact .inl ⟨_, List.mem_singleton_self _, rfl, rfl, fun gone => by
        cases gone⟩
  | settle portable task lost =>
      exact .inl ⟨_, List.mem_cons_of_mem _ List.mem_cons_self, rfl, rfl,
        fun _ => rfl⟩
  | _ => cases bears

/-- A node whose task is about to be tracked. -/
theorem State.mem_serving_of_track? {state following : State config}
    {action : Action} {task : Task}
    (tracks : state.track? action = some task)
    (stepped : (node config).step state action = some following) :
    ⟨.serving, task⟩ ∈ state.tokens ∧
      ∃ thief, following.shared =
        state.shared.trackOutstanding task thief := by
  cases step_stepped stepped with
  | @move index thread move shared stack found _ _ stacked =>
      cases stacked with
      | @advance fails frame below frames _ holds advanced =>
          have atTop : frame.track? = some task := by
            simpa [State.track?, found, holds] using tracks
          unfold Frame.track? at atTop
          split at atTop
          · rename_i request first rest taken
            cases atTop
            cases advanced
            refine ⟨?_, request.requesterNode, rfl⟩
            refine List.mem_append_right _ (List.mem_flatMap.mpr
              ⟨thread, List.mem_of_getElem? found, ?_⟩)
            rw [holds, stackTokens_cons]
            exact List.mem_append_left _ (List.mem_append_left _
              List.mem_cons_self)
          · cases atTop
      | bodyEnds => cases tracks
      | help => cases tracks
      | call => cases tracks
      | begin empty begins =>
          cases move with
          | advance fails => simp [State.track?, found, empty] at tracks
          | _ => cases tracks
  | _ => cases tracks

theorem State.mem_tokens_of_outstanding {state : State config}
    {entry : Outstanding} (member : entry ∈ state.shared.outstanding) :
    ⟨.outstanding, entry.task⟩ ∈ state.tokens := by
  refine List.mem_append_left _ (List.mem_append_left _
    (List.mem_append_left _ (List.mem_append_right _ ?_)))
  exact List.mem_map_of_mem member

/-- `track_outstanding` finds no entry with the id of its task. -/
theorem not_tracked {state : State config} {task : Task}
    (balanced : Balanced state.shared.books state.tokens)
    (serving : ⟨.serving, task⟩ ∈ state.tokens) :
    ∀ entry ∈ state.shared.outstanding,
      entry.task.taskId ≠ task.taskId := by
  intro entry member sameId
  have tracked := State.mem_tokens_of_outstanding member
  exact balanced.not_both serving tracked Place.noConfusion rfl rfl
    sameId.symm

/-- So it makes one. -/
theorem tracked_now {state following : State config} {task : Task}
    {thief : NodeId}
    (balanced : Balanced state.shared.books state.tokens)
    (serving : ⟨.serving, task⟩ ∈ state.tokens)
    (tracks : following.shared =
      state.shared.trackOutstanding task thief) :
    ⟨.outstanding, task⟩ ∈ following.tokens := by
  have fresh : ¬ state.shared.outstanding.any
      (·.task.taskId == task.taskId) = true := by
    intro known
    obtain ⟨entry, member, same⟩ := List.any_eq_true.mp known
    exact not_tracked balanced serving entry member (by simpa using same)
  have entered : ⟨task, thief, state.shared.nowMs⟩ ∈
      following.shared.outstanding := by
    rw [tracks, Shared.trackOutstanding, if_neg fresh]
    exact List.mem_append_right _ List.mem_cons_self
  exact State.mem_tokens_of_outstanding entered

/-- The id is in use and its task has been handed out. -/
structure Gone (state : State config) (id : Nat) : Prop where
  known : id < state.shared.nextId
  tokens : ∀ token ∈ state.tokens, token.place.bearsId = true →
    token.task.taskId = id → token.place.isGone = true

/-- What has been handed out does not come back. -/
theorem Gone.kept {state following : State config} {action : Action}
    {event : Event} {id : Nat} (gone : Gone state id)
    (happens : Happens action event state following) :
    Gone following id := by
  refine ⟨?_, ?_⟩
  · have grows := @Event.nextId_le_enter config event state.shared.books
    rw [← happens.books] at grows
    exact Nat.lt_of_lt_of_le gone.known grows
  · intro token inTokens bears sameId
    rcases happens.moves.mem inTokens with old | isAdded
    · exact gone.tokens token old bears sameId
    · rcases Event.gone_added isAdded bears with
        ⟨old, isRemoved, oldBears, oldId, stays⟩ | isNext
      · exact stays (gone.tokens old (happens.held isRemoved) oldBears
          (oldId.trans sameId))
      · have early := gone.known
        change token.task.taskId = state.shared.nextId at isNext
        omega

theorem Gone.of_outstanding {state : State config} {task : Task}
    (balanced : Balanced state.shared.books state.tokens)
    (tracked : ⟨.outstanding, task⟩ ∈ state.tokens) :
    Gone state task.taskId := by
  refine ⟨?_, ?_⟩
  · by_contra late
    have noneYet := balanced.known task.taskId (Nat.le_of_not_lt late)
    have bears : 1 ≤ total (bearing task.taskId) state.tokens := by
      refine Nat.le_trans ?_ (le_total_of_mem tracked)
      simp [bearing_mk, Place.bearsId]
    omega
  · intro token inTokens bears sameId
    by_cases there : token.place = .outstanding
    · rw [there]
      rfl
    · exact absurd sameId.symm (balanced.not_both tracked inTokens
        (Ne.symm there) rfl bears)

theorem Gone.not_serving {state : State config} {task : Task}
    (gone : Gone state task.taskId) :
    ⟨.serving, task⟩ ∉ state.tokens := by
  intro serving
  have impossible := gone.tokens _ serving rfl rfl
  cases impossible

end Node

/-! ## In a cluster -/

variable {config : ClusterConfig}

/-- Every application of the cluster calls `submit_portable` with a type
strictly between `Generic` and `Count`. -/
def TypedCluster (_ : ClusterState config) :
    ClusterAction config → Prop
  | .act _ action => action.Typed
  | _ => True

instance (state : ClusterState config) (action : ClusterAction config) :
    Decidable (TypedCluster state action) :=
  match action with
  | .act _ own => inferInstanceAs (Decidable own.Typed)
  | .reply .. | .result .. => isTrue trivial

theorem Action.Typed.of_message {own : Action}
    (isMessage : own.isLocal = false) : own.Typed := by
  unfold Action.isLocal at isMessage
  split at isMessage
  · trivial
  · trivial
  · cases isMessage

theorem node_reachable_typed {state : ClusterState config}
    (reached : (cluster config).ReachableUnder TypedCluster state)
    (i : Fin config.size) :
    (node (config.node i)).ReachableUnder (fun _ own => own.Typed)
      (state.nodes i) :=
  node_reachable_under (fun _ _ _ typed => typed)
    (fun _ isMessage => .of_message isMessage) reached i

/-- What a step of the cluster hands out: the node and the id of the task. -/
def handsOut (state : ClusterState config) :
    ClusterAction config → List (Fin config.size × Nat)
  | .act i action =>
      ((state.nodes i).track? action).toList.map fun task =>
        (i, task.taskId)
  | _ => []

/-- A cluster that writes down what is handed out. -/
def lendingCluster (config : ClusterConfig) :
    Machine (ClusterState config × List (Fin config.size × Nat))
      (ClusterAction config) :=
  (cluster config).logged handsOut

/-- The ids handed out are distinct, and their tasks are no longer in a
pool. -/
structure Lent (state : ClusterState config)
    (log : List (Fin config.size × Nat)) : Prop where
  nodup : log.Nodup
  known : ∀ i id, (i, id) ∈ log → id < (state.nodes i).shared.nextId
  gone : ∀ i id, (i, id) ∈ log → ∀ token ∈ (state.nodes i).tokens,
    token.place.bearsId = true → token.task.taskId = id →
      token.place.isGone = true

theorem Lent.gone_at {state : ClusterState config}
    {log : List (Fin config.size × Nat)} (lent : Lent state log)
    {i : Fin config.size} {id : Nat} (member : (i, id) ∈ log) :
    Gone (state.nodes i) id :=
  ⟨lent.known i id member, lent.gone i id member⟩

theorem Lent.of_gone {state : ClusterState config}
    {log : List (Fin config.size × Nat)} (nodup : log.Nodup)
    (gone : ∀ i id, (i, id) ∈ log → Gone (state.nodes i) id) :
    Lent state log :=
  ⟨nodup, fun i id member => (gone i id member).known,
    fun i id member => (gone i id member).tokens⟩

/-- A step keeps what is known of the ids handed out before it. -/
theorem ClusterHappens.keeps_lent {i : Fin config.size} {own : Action}
    {event : Event} {before after : ClusterState config}
    {log : List (Fin config.size × Nat)}
    (happens : ClusterHappens i own event before after)
    (lent : Lent before log) : Lent after log := by
  refine .of_gone lent.nodup ?_
  intro j id member
  have gone := lent.gone_at member
  by_cases same : j = i
  · subst same
    exact gone.kept happens.happens
  · rw [happens.others j same]
    exact gone

/-- A step that hands a task out adds its id. -/
theorem Lent.hand_out {state following : ClusterState config}
    {log : List (Fin config.size × Nat)} {i : Fin config.size} {task : Task}
    (before : Balanced (state.nodes i).shared.books (state.nodes i).tokens)
    (after : Balanced (following.nodes i).shared.books
      (following.nodes i).tokens)
    (earlier : Lent state log) (lent : Lent following log)
    (serving : ⟨.serving, task⟩ ∈ (state.nodes i).tokens)
    {thief : NodeId}
    (tracks : (following.nodes i).shared =
      (state.nodes i).shared.trackOutstanding task thief) :
    Lent following (log ++ [(i, task.taskId)]) := by
  have notYet : (i, task.taskId) ∉ log := by
    intro member
    exact (earlier.gone_at member).not_serving serving
  refine .of_gone ?_ ?_
  · rw [List.nodup_append]
    refine ⟨lent.nodup, List.nodup_singleton _, ?_⟩
    rintro entry inLog other isNew rfl
    rw [List.mem_singleton.mp isNew] at inLog
    exact notYet inLog
  · intro j id member
    rcases List.mem_append.mp member with old | new
    · exact lent.gone_at old
    · cases List.mem_singleton.mp new
      exact .of_outstanding after (tracked_now before serving tracks)

theorem lent_of_reachable
    {pair : ClusterState config × List (Fin config.size × Nat)}
    (reached : (lendingCluster config).ReachableUnder
      (fun earlier action => TypedCluster earlier.1 action) pair) :
    Lent pair.1 pair.2 := by
  refine Machine.ReachableUnder.logged_invariant ?_ ?_ reached
  · intro state isInitial
    refine ⟨List.nodup_nil, ?_, ?_⟩
    · intro i id member
      cases member
    · intro i id member
      cases member
  · intro state log action following earlier lent typed stepped
    obtain ⟨i, own, event, happens, _⟩ := cluster_step_happens stepped
    have kept := happens.keeps_lent lent
    cases action with
    | act j action =>
        cases tracks : (state.nodes j).track? action with
        | none =>
            simpa [handsOut, tracks] using kept
        | some task =>
            have ofNode := Machine.Reachable.next earlier.reachable stepped
            simp only [cluster, ClusterState.step] at stepped
            split at stepped
            · obtain ⟨next, moved, rfl⟩ := Option.map_eq_some_iff.mp stepped
              obtain ⟨serving, thief, tracked⟩ :=
                State.mem_serving_of_track? tracks moved
              have after := balanced_of_reachable (node_reachable ofNode j)
              have before := balanced_of_reachable
                (node_reachable earlier.reachable j)
              have installed :
                  ((state.install j next state.flying).nodes j).shared =
                    (state.nodes j).shared.trackOutstanding task thief := by
                simp [ClusterState.install, tracked]
              simp only [handsOut, tracks, Option.toList_some, List.map_cons,
                List.map_nil]
              exact lent.hand_out before after kept serving installed
            · cases stepped
    | reply index j thread =>
        simpa [handsOut] using kept
    | result sender index j thread =>
        simpa [handsOut] using kept

/-- The task stays at this node: it came from another one, or the reaper runs
it again. -/
def Stays (task : Task) : Prop :=
  (∃ remote : Task, task.fn = remote.stolenFrom.fn) ∨
    ∃ lost : Task, task.fn = lost.rerun.fn

/-- What is in the portable pools and in the responses of a node. -/
structure Exports (nodeConfig : NodeConfig) (state : State nodeConfig) :
    Prop where
  pools : ∀ slot, ∀ task ∈ state.shared.queues (.pool slot),
    task.type = .ofSlot slot ∧ task.fn = none ∧
      task.originNode = nodeConfig.nodeId
  replies : ∀ reply ∈ state.shared.replies, ∀ task ∈ reply.tasks,
    task.portable = true
  poolsStay : ∀ slot, ∀ task ∈ state.shared.queues (.pool slot),
    ¬ Stays task
  repliesStay : ∀ reply ∈ state.shared.replies, ∀ task ∈ reply.tasks,
    ¬ Stays task
  /-- `emplace` never meets an existing key. -/
  keys : ∀ action task, state.track? action = some task →
    (state.step action).isSome = true →
      ∀ entry ∈ state.shared.outstanding, entry.task.taskId ≠ task.taskId

theorem not_stays {task : Task} (closureless : task.fn = none) :
    ¬ Stays task := by
  rintro (⟨remote, same⟩ | ⟨lost, same⟩)
  · rw [closureless] at same
    cases same
  · rw [closureless] at same
    cases same

theorem exports_of_reachable {nodeConfig : NodeConfig}
    {state : State nodeConfig}
    (reached : (node nodeConfig).ReachableUnder
      (fun _ own => own.Typed) state) :
    Exports nodeConfig state := by
  have suit := pools_suit reached
  have lends := lends_of_reachable reached
  have closureless : ∀ task : Task, task.portable = true →
      task.fn = none := by
    intro task portable
    simp only [Task.portable, Bool.and_eq_true, Option.isNone_iff_eq_none]
      at portable
    exact portable.1
  refine ⟨?_, lends.replies, ?_, ?_, ?_⟩
  · intro slot task member
    have suits := suit slot task member
    exact ⟨suits.type, suits.fn, suits.originNode⟩
  · intro slot task member
    exact not_stays (suit slot task member).fn
  · intro reply member task inReply
    exact not_stays (closureless task
      (lends.replies reply member task inReply))
  · intro action task tracks enabled
    obtain ⟨following, stepped⟩ := Option.isSome_iff_exists.mp enabled
    exact not_tracked (balanced_of_reachable reached.reachable)
      (State.mem_serving_of_track? tracks stepped).1

/-- In every run of a cluster a task leaves its origin at most once and never
travels on. -/
theorem leaves_origin_once
    {state : ClusterState config} {log : List (Fin config.size × Nat)}
    (reached : (lendingCluster config).ReachableUnder
      (fun earlier action => TypedCluster earlier.1 action) (state, log)) :
    (∀ i, Exports (config.node i) (state.nodes i)) ∧ log.Nodup := by
  refine ⟨?_, (lent_of_reachable reached).nodup⟩
  intro i
  have ofCluster : (cluster config).ReachableUnder TypedCluster state :=
    reached.of_logged
  exact exports_of_reachable (node_reachable_typed ofCluster i)

/-- A task is submitted, handed out and taken in by the other node. -/
def duoLend : List (ClusterAction duoConfig) :=
  acts origin (.move 1 (.call (.submitPortable 1 noStage 1)) ::
    advances 1 3) ++ duoSteal

theorem leaves_origin_once_lent :
    ∃ state log,
      (lendingCluster duoConfig).run (duoStart, []) duoLend =
          some (state, log) ∧
        log = [(origin, 1)] ∧
        (state.nodes origin).shared.outstanding.length = 1 ∧
        (∀ i, Exports (duoConfig.node i) (state.nodes i)) ∧ log.Nodup := by
  have starts : (lendingCluster duoConfig).initial (duoStart, []) :=
    ⟨duoStart_initial, rfl⟩
  refine ⟨_, _, rfl, by decide +kernel, by decide +kernel,
    leaves_origin_once (Machine.ReachableUnder.run duoLend (.start starts) rfl
      (by decide +kernel))⟩

end HydraRT.Cluster
