import HydraRT.Cluster.Meters
import HydraRT.Cluster.Notices

/-!
# Clusters in which one node submits

The other nodes have nothing but tasks of this node, and for every copy of a
task that is somewhere, the node still waits.
-/

namespace HydraRT.Cluster

open HydraRT.Inference
open HydraRT.Lib

variable {config : ClusterConfig}

/-! ## Steps of a cluster as steps of its nodes -/

/-- The node that acts. -/
def ClusterAction.node : ClusterAction config → Fin config.size
  | .act i _ | .reply _ i _ | .result _ _ i _ => i

/-- What the node does. -/
def ClusterState.own? (state : ClusterState config) :
    ClusterAction config → Option Action
  | .act _ action => some action
  | .reply index _ thread =>
      (state.flying[index]?).map fun reply =>
        .move thread (.reply reply.victim reply.tasks)
  | .result sender index _ thread =>
      ((state.nodes sender).shared.results[index]?).map fun notice =>
        .move thread (.result notice.2)

/-- A step of the cluster, seen as a step of the node that acts. -/
structure NodeStep (state : ClusterState config)
    (action : ClusterAction config) (own : Action)
    (following : ClusterState config) : Prop where
  chosen : state.own? action = some own
  stepped : (node (config.node action.node)).step (state.nodes action.node)
    own = some (following.nodes action.node)
  others : ∀ j, j ≠ action.node → following.nodes j = state.nodes j
  carried : sentIn following.flying + own.received.length +
      sentIn (state.nodes action.node).shared.replies =
    sentIn state.flying +
      sentIn (following.nodes action.node).shared.replies
  launched : ∀ reply ∈ following.flying, reply ∈ state.flying ∨
    reply ∈ (following.nodes action.node).shared.replies
  arrived : ∀ thread link tasks, own = .move thread (.reply link tasks) →
    ∃ reply ∈ state.flying, reply.victim = link ∧ reply.tasks = tasks

theorem sentIn_append (first second : List Reply) :
    sentIn (first ++ second) = sentIn first + sentIn second :=
  total_append _ first second

/-- What a node sends is in flight. -/
theorem sentIn_install {state : ClusterState config} {i : Fin config.size}
    {own : Action} {next : State (config.node i)} {flying : List Reply}
    (stepped : (node (config.node i)).step (state.nodes i) own = some next) :
    sentIn (state.install i next flying).flying +
        sentIn (state.nodes i).shared.replies =
      sentIn flying + sentIn next.shared.replies := by
  obtain ⟨event, happens⟩ := step_happens stepped
  obtain ⟨new, grown, _⟩ :=
    Event.replies_enter (config.node i) event (state.nodes i).shared.books
  have replies : next.shared.replies =
      (state.nodes i).shared.replies ++ new :=
    (congrArg Books.replies happens.books).trans grown
  simp only [ClusterState.install, replies, List.drop_left, sentIn_append]
  omega

theorem NodeStep.of_install {state : ClusterState config}
    {action : ClusterAction config} {own : Action}
    {next : State (config.node action.node)} {flying : List Reply}
    (chosen : state.own? action = some own)
    (moved : (node (config.node action.node)).step
      (state.nodes action.node) own = some next)
    (received : sentIn flying + own.received.length = sentIn state.flying)
    (remaining : ∀ reply ∈ flying, reply ∈ state.flying)
    (arrived : ∀ thread link tasks, own = .move thread (.reply link tasks) →
      ∃ reply ∈ state.flying, reply.victim = link ∧ reply.tasks = tasks) :
    NodeStep state action own (state.install action.node next flying) where
  chosen := chosen
  arrived := arrived
  launched reply member := by
    rcases List.mem_append.mp member with old | isNew
    · exact .inl (remaining reply old)
    · refine .inr ?_
      simpa [ClusterState.install] using List.mem_of_mem_drop isNew
  stepped := by
    simpa [ClusterState.install] using moved
  others j different := by
    simp [ClusterState.install, different]
  carried := by
    have sent := @sentIn_install config state _ own next flying moved
    have installed : (state.install action.node next flying).nodes
        action.node = next := by
      simp [ClusterState.install]
    rw [installed]
    omega

theorem cluster_step_node {state following : ClusterState config}
    {action : ClusterAction config}
    (stepped : (cluster config).step state action = some following) :
    ∃ own, NodeStep state action own following := by
  cases action with
  | act i own =>
      simp only [cluster, ClusterState.step] at stepped
      split at stepped
      · rename_i isLocal
        obtain ⟨next, moved, rfl⟩ := Option.map_eq_some_iff.mp stepped
        have nothing : own.received = [] := by
          unfold Action.received Move.received
          split
          · split
            · cases isLocal
            · rfl
          · rfl
        refine ⟨own, .of_install rfl moved ?_ (fun _ member => member) ?_⟩
        · rw [nothing]
          rfl
        · rintro thread link tasks rfl
          cases isLocal
      · cases stepped
  | reply index i thread =>
      simp only [cluster, ClusterState.step] at stepped
      split at stepped
      · cases stepped
      · rename_i reply found
        obtain ⟨next, moved, rfl⟩ := Option.map_eq_some_iff.mp stepped
        refine ⟨.move thread (.reply reply.victim reply.tasks),
          .of_install ?_ moved ?_ (fun _ => List.mem_of_mem_eraseIdx) ?_⟩
        · simp [ClusterState.own?, found]
        · exact total_eraseIdx (fun reply : Reply => reply.tasks.length) found
        · intro _ link tasks same
          cases same
          exact ⟨reply, List.mem_of_getElem? found, rfl, rfl⟩
  | result sender index i thread =>
      simp only [cluster, ClusterState.step] at stepped
      split at stepped
      · cases stepped
      · rename_i notice found
        split at stepped
        · obtain ⟨next, moved, rfl⟩ := Option.map_eq_some_iff.mp stepped
          refine ⟨.move thread (.result notice.2), .of_install ?_ moved rfl
            (fun _ member => member) ?_⟩
          · simp [ClusterState.own?, found]
          · intro _ link tasks same
            cases same
        · cases stepped

/-- A node of a cluster runs under what the guard says of its own actions. -/
theorem node_reachable_own {allowed : Action → Prop}
    {guard : ClusterState config → ClusterAction config → Prop}
    {i : Fin config.size}
    (ofGuard : ∀ state action own, guard state action →
      state.own? action = some own → action.node = i → allowed own)
    {state : ClusterState config}
    (reached : (cluster config).ReachableUnder guard state) :
    (node (config.node i)).ReachableUnder (fun _ own => allowed own)
      (state.nodes i) := by
  refine reached.seen (·.nodes i) (fun _ isInitial => isInitial.1 i) ?_
  intro before action after guarded stepped
  obtain ⟨own, taken⟩ := cluster_step_node stepped
  by_cases acts : i = action.node
  · subst acts
    exact .inr ⟨own, ofGuard before action own guarded taken.chosen rfl,
      taken.stepped⟩
  · exact .inl (taken.others i acts)

/-- What has been sent is in flight or has come in. -/
theorem sent_of_reachable {state : ClusterState config}
    (reached : (cluster config).Reachable state) :
    total (fun i => sentIn (state.nodes i).shared.replies)
        (List.finRange config.size) =
      sentIn state.flying +
        total (fun i => (state.nodes i).intake)
          (List.finRange config.size) := by
  induction reached with
  | start isInitial =>
      rw [isInitial.2, total_eq_zero.mpr, total_eq_zero.mpr]
      · rfl
      · intro i _
        have none := State.Initial.reading (isInitial.1 i)
          (rfl : Frame.accepting (.worker .loading : Frame _) = 0)
        rw [State.intake, none, (isInitial.1 i).shared]
      · intro i _
        rw [(isInitial.1 i).shared]
        rfl
  | @next before after action _ _ stepped inductionHypothesis =>
      obtain ⟨own, taken⟩ := cluster_step_node stepped
      have carried := taken.carried
      have accepted := (step_metered taken.stepped).accepted
      have sent := total_replace
        (fun i => sentIn (after.nodes i).shared.replies)
        (fun i => sentIn (before.nodes i).shared.replies)
        (List.nodup_finRange _) (List.mem_finRange action.node)
        fun j different => by simp only [taken.others j different]
      have intake := total_replace
        (fun i => (after.nodes i).intake) (fun i => (before.nodes i).intake)
        (List.nodup_finRange _) (List.mem_finRange action.node)
        fun j different => by simp only [taken.others j different]
      simp only [State.intake] at sent intake inductionHypothesis ⊢
      omega

/-! ## One node submits -/

/-- Only `origin` submits, nothing is reaped, and `origin` takes no tasks in:
a node never steals from itself, and the others have nothing to give. -/
def OneSubmits (origin : Fin config.size) (state : ClusterState config)
    (action : ClusterAction config) : Prop :=
  ∀ own ∈ state.own? action,
    (own.submits = true → action.node = origin) ∧ own.reaps = false ∧
      (action.node = origin → own.received = [])

instance (origin : Fin config.size) (state : ClusterState config)
    (action : ClusterAction config) :
    Decidable (OneSubmits origin state action) := by
  unfold OneSubmits
  infer_instance

section Node

variable {nodeConfig : NodeConfig} {state following : State nodeConfig}
  {action : Action} {event : Event}

/-- All tasks of the node are its own. -/
structure Domestic (state : State nodeConfig) : Prop where
  own : ∀ token ∈ state.tokens,
    isStolen token.task = false ∧ token.place ≠ .arrived
  home : homeIn state.shared.history = state.shared.submitted
  intake : state.intake = 0

theorem Happens.own_added
    (happens : Happens action event state following)
    (nothing : event.received = [])
    (own : ∀ token ∈ state.tokens,
      isStolen token.task = false ∧ token.place ≠ .arrived) :
    ∀ token ∈ event.added nodeConfig state.shared.books,
      isStolen token.task = false ∧ token.place ≠ .arrived := by
  have held : ∀ {token}, token ∈ event.removed nodeConfig →
      isStolen token.task = false ∧ token.place ≠ .arrived :=
    fun isRemoved => own _ (happens.held isRemoved)
  intro token isAdded
  cases Event.yields_of_added isAdded with
  | moved isRemoved leads =>
      exact ⟨(held isRemoved).1, leads.stays⟩
  | start portable task =>
      exact ⟨happens.allowed.not_stolen, Place.noConfusion⟩
  | number site portable task | count site portable task
  | serve task | copy task | advance cause task p next =>
      exact ⟨(held (List.mem_singleton_self _)).1, Place.noConfusion⟩
  | arrive tasks task inTasks =>
      rw [show tasks = [] from nothing] at inTasks
      cases inTasks
  | wrap task =>
      exact absurd rfl (held (List.mem_singleton_self _)).2
  | _ => exact ⟨rfl, Place.noConfusion⟩

/-- The tasks of this node that an event counts. -/
def Event.homecomings : Event → Nat
  | .count _ _ task => if isStolen task then 0 else 1
  | _ => 0

theorem Event.homeIn_enter (event : Event) (books : Books) :
    homeIn (event.enter nodeConfig books).history =
      homeIn books.history + event.homecomings := by
  cases event with
  | count site portable task =>
      cases stolen : isStolen task <;>
        simp [Event.enter, Books.remember, homeIn, Entry.isHome,
          Event.homecomings, stolen]
  | ran task =>
      have noHome := (@not_home_performs nodeConfig task).1
      simp [Event.enter, Books.remember, homeIn, Entry.isHome,
        Event.homecomings, noHome]
  | reap lost =>
      simp [Event.enter, Books.remember, homeIn, Entry.isHome,
        Event.homecomings, List.countP_map, Function.comp_def]
  | _ =>
      simp [Event.enter, Books.remember, homeIn, Entry.isHome,
        Event.homecomings]

theorem domestic_of_reachable
    (reached : (node nodeConfig).ReachableUnder
      (fun _ own => own.received = []) state) :
    Domestic state := by
  induction reached with
  | start isInitial =>
      refine ⟨?_, ?_, ?_⟩
      · rw [State.Initial.tokens isInitial]
        exact fun _ member => by cases member
      · rw [State.Initial.shared isInitial]
        rfl
      · have none := State.Initial.reading isInitial
          (rfl : Frame.accepting (.worker .loading : Frame _) = 0)
        rw [State.intake, none, State.Initial.shared isInitial]
  | @next before after action _ allowed stepped inductionHypothesis =>
      obtain ⟨event, happens, received⟩ := step_receives stepped
      rw [allowed] at received
      have added := happens.own_added received inductionHypothesis.own
      refine ⟨?_, ?_, ?_⟩
      · intro token member
        rcases happens.moves.mem member with old | isAdded
        · exact inductionHypothesis.own token old
        · exact added token isAdded
      · have home := inductionHypothesis.home
        have books := happens.books
        have history := congrArg Books.history books
        have submitted := congrArg Books.submitted books
        change after.shared.history = _ at history
        change after.shared.submitted = _ at submitted
        rw [history, submitted, Event.homeIn_enter, Shared.books_history]
        cases event with
        | count site portable task =>
            have notStolen :=
              (added _ (List.mem_singleton_self _)).1
            change _ = before.shared.submitted + 1
            simp [Event.homecomings, notStolen, home]
        | _ => exact home
      · have accepted := (step_metered stepped).accepted
        have none := inductionHypothesis.intake
        unfold State.intake at none ⊢
        rw [allowed] at accepted
        simp only [List.length_nil] at accepted
        omega

/-- What the tokens of a node that only helps look like. -/
def Token.isGuest (token : Token) : Bool :=
  match token.place with
  | .arrived | .owed => true
  | .created _ portable | .numbered _ portable | .counted _ portable |
      .queued portable => !portable && isStolen token.task
  | .executing => isStolen token.task
  | .finishing _ phase => phase != .during && isStolen token.task
  | _ => false

/-- The node has nothing but tasks of others. -/
structure Helping (state : State nodeConfig) : Prop where
  guests : ∀ token ∈ state.tokens, token.isGuest = true
  home : homeIn state.shared.history = 0
  sent : sentIn state.shared.replies = 0
  calling : state.reading Frame.calling = 0

theorem observed_guest {token : Token} (guest : token.isGuest = true)
    (shaped : token.Shaped nodeConfig) {cause : Cause} {phase : Phase}
    (finishing : token.place = .finishing cause phase) :
    observed nodeConfig token.task = none := by
  obtain ⟨place, task⟩ := token
  subst finishing
  simp only [Token.isGuest, Bool.and_eq_true] at guest
  have stolen := guest.2
  unfold isStolen at stolen
  split at stolen
  · rename_i closure
    have empty := shaped.stolen Place.noConfusion closure
    dsimp only at empty
    simp [observed, empty, Payload.decodeStage]
  · cases stolen

theorem Happens.guest_added
    (happens : Happens action event state following)
    (shaped : ∀ token ∈ state.tokens, token.Shaped nodeConfig)
    (submitsNot : action.submits = false)
    (requests : following.shared.jobs.nextRequestId =
      state.shared.jobs.nextRequestId)
    (guests : ∀ token ∈ state.tokens, token.isGuest = true) :
    ∀ token ∈ event.added nodeConfig state.shared.books,
      token.isGuest = true := by
  have held : ∀ {token}, token ∈ event.removed nodeConfig →
      token.isGuest = true :=
    fun isRemoved => guests _ (happens.held isRemoved)
  have unread : ∀ {cause task}, ⟨.finishing cause .before, task⟩ ∈
      event.removed nodeConfig → observed nodeConfig task = none := by
    intro cause task isRemoved
    exact observed_guest (held isRemoved)
      (shaped _ (happens.held isRemoved)) rfl
  intro token isAdded
  cases Event.yields_of_added isAdded with
  | moved isRemoved leads =>
      have guest := held isRemoved
      cases leads with
      | enqueue | run => exact guest
      | dequeue | observe => exact (Bool.and_eq_true_iff.mp guest).2
      | _ => cases guest
  | start portable task =>
      obtain ⟨thread, call, begun, rfl, started, _⟩ := happens.caused
      cases call with
      | help => cases started
      | _ => cases submitsNot
  | number site portable task | count site portable task =>
      have before := held (List.mem_singleton_self _)
      exact before
  | wrap task | owe task notice owes | arrive tasks task inTasks =>
      rfl
  | advance cause task p next | successor cause task p next
  | record cause task p next =>
      have none := unread (List.mem_singleton_self _)
      rw [happens.allowed.1] at none
      cases none
  | misread cause task p =>
      have none := unread (List.mem_singleton_self _)
      rw [happens.allowed.1] at none
      cases none
  | fetch request =>
      have jobs := congrArg Books.jobs happens.books
      have drawn := congrArg JobManager.nextRequestId jobs
      change following.shared.jobs.nextRequestId =
        state.shared.jobs.nextRequestId + 1 at drawn
      omega
  | settle portable task lost =>
      cases held (List.mem_cons_of_mem _ List.mem_cons_self)
  | serve task | copy task | rerun lost | emplace request id
  | request request id =>
      cases held (List.mem_singleton_self _)

/-- A node that has nothing but tasks of others hands nothing out. -/
theorem Happens.sends_nothing
    (happens : Happens action event state following)
    (guests : ∀ token ∈ state.tokens, token.isGuest = true) :
    event.sent = [] := by
  cases event with
  | send reply =>
      change reply.tasks = []
      rw [List.eq_nil_iff_forall_not_mem]
      intro task inReply
      cases guests _ (happens.held (List.mem_map_of_mem inReply))
  | _ => rfl

theorem helping_of_reachable
    (reached : (node nodeConfig).ReachableUnder
      (fun _ own => own.submits = false) state) :
    Helping state := by
  induction reached with
  | start isInitial =>
      refine ⟨?_, ?_, ?_, State.Initial.reading isInitial rfl⟩
      · rw [State.Initial.tokens isInitial]
        exact fun _ member => by cases member
      · rw [State.Initial.shared isInitial]
        rfl
      · rw [State.Initial.shared isInitial]
        rfl
  | @next before after action earlier allowed stepped inductionHypothesis =>
      obtain ⟨event, happens⟩ := step_happens stepped
      obtain ⟨calling, requests⟩ := (step_metered stepped).uncalled allowed
        inductionHypothesis.calling
      have added := happens.guest_added
        (shaped_of_reachable earlier.reachable) allowed requests
        inductionHypothesis.guests
      have history := congrArg Books.history happens.books
      have replies := congrArg Books.replies happens.books
      change after.shared.history = _ at history
      change after.shared.replies = _ at replies
      refine ⟨?_, ?_, ?_, calling⟩
      · intro token member
        rcases happens.moves.mem member with old | isAdded
        · exact inductionHypothesis.guests token old
        · exact added token isAdded
      · rw [history, Event.homeIn_enter, Shared.books_history,
          inductionHypothesis.home]
        cases event with
        | count site portable task =>
            have guest := added _ (List.mem_singleton_self _)
            simp only [Token.isGuest, Bool.and_eq_true] at guest
            simp [Event.homecomings, guest.2]
        | _ => rfl
      · rw [replies]
        cases event with
        | send reply =>
            have nothing : reply.tasks = [] :=
              happens.sends_nothing inductionHypothesis.guests
            simp only [Event.enter, Shared.books_replies, sentIn_append,
              inductionHypothesis.sent]
            simp [sentIn, nothing]
        | _ => exact inductionHypothesis.sent

/-- Nothing is reaped. -/
theorem reapedIn_of_reachable
    (reached : (node nodeConfig).ReachableUnder
      (fun _ own => own.reaps = false) state) :
    reapedIn state.shared.history = 0 := by
  induction reached with
  | start isInitial =>
      rw [State.Initial.shared isInitial]
      rfl
  | next _ allowed stepped inductionHypothesis =>
      rw [(step_metered stepped).unreaped allowed]
      exact inductionHypothesis

end Node

/-! ## Copies of open tasks -/

/-- The token is a copy of the task, or will run one. -/
def Carries (origin : NodeId) (taskId : Nat) (token : Token) : Prop :=
  (token.place.isCopy = true ∧ token.task.originNode = origin ∧
      token.task.taskId = taskId) ∨
    token.place.isUnrun = true ∧
      ∃ type payload,
        token.task.fn = some (.stolen type payload origin taskId)

theorem Carries.chance_ne_zero {origin : NodeId} {taskId : Nat}
    {token : Token} (carries : Carries origin taskId token) (self : NodeId) :
    chance self origin taskId token ≠ 0 := by
  rcases carries with ⟨isCopy, isOrigin, isTask⟩ | ⟨unrun, type, payload, fn⟩
  · simp [chance, isCopy, copyChance, isOrigin, isTask]
  · simp [chance, unrun, fn, closureChance]

/-- Where a copy comes from. -/
theorem Happens.carries_added {nodeConfig : NodeConfig}
    {state following : State nodeConfig} {action : Action} {event : Event}
    (happens : Happens action event state following) {token : Token}
    (isAdded : token ∈ event.added nodeConfig state.shared.books)
    {origin : NodeId} {taskId : Nat} (carries : Carries origin taskId token) :
    (∃ old ∈ event.removed nodeConfig, Carries origin taskId old) ∨
      token.task.originNode = origin ∧ token.task.taskId = taskId ∧
        (event = .take token.task ∨ token.task ∈ event.received) := by
  rcases carries with ⟨isCopy, isOrigin, isTask⟩ | ⟨unrun, type, payload, fn⟩
  · refine .inr ⟨isOrigin, isTask, ?_⟩
    cases Event.yields_of_added isAdded with
    | moved isRemoved leads => cases leads <;> cases isCopy
    | copy task => exact .inl rfl
    | arrive tasks task inTasks => exact .inr inTasks
    | _ => cases isCopy
  · left
    cases Event.yields_of_added isAdded with
    | moved isRemoved leads =>
        refine ⟨_, isRemoved, .inr ⟨?_, type, payload, fn⟩⟩
        cases leads with
        | enqueue | dequeue => rfl
        | _ => cases unrun
    | start portable task =>
        obtain ⟨body, isUser⟩ := happens.allowed.user fn
        cases isUser
    | number site portable task | count site portable task =>
        exact ⟨_, List.mem_singleton_self _, .inr ⟨rfl, type, payload, fn⟩⟩
    | wrap remote =>
        cases fn
        exact ⟨_, List.mem_singleton_self _, .inl ⟨rfl, rfl, rfl⟩⟩
    | rerun lost | successor cause task p next | request request id =>
        cases fn
    | _ => cases unrun

section Open

variable {before after : ClusterState config} {i origin : Fin config.size}
  {action : Action} {event : Event} {taskId : Nat}

/-- The origin waits for a copy of the task. -/
def Place.isOpen : Place → Bool
  | .serving | .outstanding => true
  | _ => false

/-- The origin still counts on a result for the task. -/
def ClusterState.IsOpen (state : ClusterState config)
    (origin : Fin config.size) (taskId : Nat) : Prop :=
  ∃ token ∈ (state.nodes origin).tokens, token.place.isOpen = true ∧
    token.task.taskId = taskId

/-- Only a result closes a task that is not reaped. -/
theorem ClusterHappens.keeps_open
    (reached : (cluster config).Reachable before)
    (happens : ClusterHappens i action event before after)
    (noReap : reapedIn (after.nodes origin).shared.history = 0)
    (isOpen : before.IsOpen origin taskId) :
    after.IsOpen origin taskId ∨
      i = origin ∧ ∃ task, event = .resolve task ∧ task.taskId = taskId := by
  obtain ⟨token, member, opened, rfl⟩ := isOpen
  by_cases acts : origin = i
  · subst acts
    rcases happens.happens.moves.mem_or_removed member with stays | isRemoved
    · exact .inl ⟨token, stays, opened, rfl⟩
    · have gained := fun new => @Happens.gained _ _ _ _ _ happens.happens new
      cases event with
      | track task =>
          obtain rfl := List.mem_singleton.mp isRemoved
          exact .inl ⟨_, gained _ (List.mem_singleton_self _), rfl, rfl⟩
      | trackTwice task =>
          exact ((balanced_of_reachable
            (node_reachable reached origin)).not_trackTwice
              happens.happens).elim
      | resolve task =>
          obtain rfl := List.mem_singleton.mp isRemoved
          exact .inr ⟨rfl, task, rfl, rfl⟩
      | reap lost =>
          obtain ⟨task, inLost, rfl⟩ := List.mem_map.mp isRemoved
          have history := congrArg Books.history happens.happens.books
          change (after.nodes origin).shared.history = _ at history
          have entered : .reaped task.taskId ∈
              (after.nodes origin).shared.history := by
            rw [history]
            exact List.mem_append_right _ (List.mem_map_of_mem inLost)
          exact absurd rfl
            (List.countP_eq_zero.mp noReap _ entered)
      | send reply =>
          obtain ⟨task, _, rfl⟩ := List.mem_map.mp isRemoved
          cases opened
      | _ =>
          simp only [Event.removed, List.mem_cons, List.not_mem_nil,
            or_false] at isRemoved <;>
            rcases isRemoved with rfl | rfl <;>
            cases opened
  · refine .inl ⟨token, ?_, opened, rfl⟩
    rw [happens.others origin acts]
    exact member

/-- As long as a copy of a task exists, the origin waits for it. -/
structure Owing (state : ClusterState config) (origin : Fin config.size) :
    Prop where
  tokens : ∀ j, ∀ token ∈ (state.nodes j).tokens, ∀ taskId,
    Carries (config.node origin).nodeId taskId token →
      state.IsOpen origin taskId
  flying : ∀ task ∈ state.flyingTasks,
    task.originNode = (config.node origin).nodeId →
      state.IsOpen origin task.taskId

theorem Owing.kept (reached : (cluster config).Reachable before)
    (happens : ClusterHappens i action event before after)
    (noReap : reapedIn (after.nodes origin).shared.history = 0)
    (owing : Owing before origin) : Owing after origin := by
  -- a result for a task that still has a copy would be a second prospect
  have notReaped : ∀ taskId,
      .reaped taskId ∉ (before.nodes origin).shared.history := by
    intro taskId reaped
    exact absurd rfl (List.countP_eq_zero.mp noReap _
      (happens.history_grows origin reaped))
  have unresolved : ∀ {task}, i = origin → event = .resolve task →
      (∀ j, ∀ token ∈ (before.nodes j).tokens,
          ¬ Carries (config.node origin).nodeId task.taskId token) ∧
        ∀ flown ∈ before.flyingTasks,
          flown.originNode = (config.node origin).nodeId →
            flown.taskId ≠ task.taskId := by
    rintro task rfl isResolve
    obtain ⟨sender, owed⟩ := happens.owed isResolve
    obtain ⟨noToken, noFlying⟩ :=
      no_chance_of_notice reached (notReaped task.taskId) owed
    refine ⟨fun j token member carries => ?_, fun flown member ours same => ?_⟩
    · exact carries.chance_ne_zero _ (noToken j token member)
    · have zero := noFlying flown member
      simp [copyChance, ours, same] at zero
  have ofToken : ∀ {j token taskId}, token ∈ (before.nodes j).tokens →
      Carries (config.node origin).nodeId taskId token →
        after.IsOpen origin taskId := by
    intro j token taskId member carries
    rcases happens.keeps_open reached noReap
      (owing.tokens j token member taskId carries) with
      stays | ⟨isOrigin, task, isResolve, rfl⟩
    · exact stays
    · exact absurd carries ((unresolved isOrigin isResolve).1 j token member)
  have ofFlying : ∀ {task}, task ∈ before.flyingTasks →
      task.originNode = (config.node origin).nodeId →
        after.IsOpen origin task.taskId := by
    intro task member ours
    rcases happens.keeps_open reached noReap
      (owing.flying task member ours) with
      stays | ⟨isOrigin, resolved, isResolve, same⟩
    · exact stays
    · exact absurd same.symm
        ((unresolved isOrigin isResolve).2 task member ours)
  refine ⟨?_, ?_⟩
  · intro j token member taskId carries
    rcases happens.mem_tokens member with old | ⟨rfl, isAdded⟩
    · exact ofToken old carries
    · rcases happens.happens.carries_added isAdded carries with
        ⟨old, isRemoved, oldCarries⟩ | ⟨ours, rfl, rfl | received⟩
      · exact ofToken (happens.happens.held isRemoved) oldCarries
      · -- the task leaves a pool of its own node
        have queued := happens.happens.held (List.mem_singleton_self _)
        have isHere : token.task.originNode = (config.node j).nodeId :=
          ((shaped_of_reachable (node_reachable reached j) _
            queued).portable rfl).2
        obtain rfl := config.distinct (isHere.symm.trans ours)
        exact ⟨_, happens.happens.gained List.mem_cons_self, rfl, rfl⟩
      · have flew : token.task ∈ before.flyingTasks := by
          refine (happens.carried.mem_removed received).resolve_right ?_
          cases event <;> simp_all [Event.sent, Event.received]
        exact ofFlying flew ours
  · intro task member ours
    rcases happens.carried.mem member with old | isSent
    · exact ofFlying old ours
    · cases event with
      | send reply =>
          exact ofToken (happens.happens.held (List.mem_map_of_mem isSent))
            (.inl ⟨rfl, ours, rfl⟩)
      | _ => cases isSent

end Open

/-! ## Runs -/

section Runs

variable {origin : Fin config.size} {state : ClusterState config}
  (reached : (cluster config).ReachableUnder (OneSubmits origin) state)

include reached

theorem domestic_origin : Domestic (state.nodes origin) := by
  refine domestic_of_reachable (node_reachable_own ?_ reached)
  intro state action own allowed chosen acts
  exact (allowed own chosen).2.2 acts

theorem helping_thief {j : Fin config.size} (isThief : j ≠ origin) :
    Helping (state.nodes j) := by
  refine helping_of_reachable (node_reachable_own ?_ reached)
  intro state action own allowed chosen acts
  cases submits : own.submits with
  | false => rfl
  | true =>
      exact absurd (acts.symm.trans ((allowed own chosen).1 submits)) isThief

theorem reapedIn_eq_zero (j : Fin config.size) :
    reapedIn (state.nodes j).shared.history = 0 := by
  refine reapedIn_of_reachable (node_reachable_own ?_ reached)
  intro state action own allowed chosen _
  exact (allowed own chosen).2.1

theorem owing_of_reachable : Owing state origin := by
  induction reached with
  | start isInitial =>
      refine ⟨?_, ?_⟩
      · intro j token member
        rw [State.Initial.tokens (isInitial.1 j)] at member
        cases member
      · intro task member
        rw [ClusterState.flyingTasks, isInitial.2] at member
        cases member
  | next earlier allowed stepped inductionHypothesis =>
      obtain ⟨i, own, event, happens, _⟩ := cluster_step_happens stepped
      exact inductionHypothesis.kept earlier.reachable happens
        (reapedIn_eq_zero (earlier.next allowed stepped) origin)

/-- Every task that was ever sent is a task of the origin. -/
theorem originNode_eq {owner : NodeId} {taskId : Nat} {type : TaskType}
    {payload : Payload} (names : state.Names owner taskId type payload) :
    owner = (config.node origin).nodeId := by
  obtain ⟨j, isOwner, task, counted, _, noClosure, _⟩ := names
  by_cases isThief : j = origin
  · rw [← isOwner, isThief]
  · have none := (helping_thief reached isThief).home
    have isHome := List.countP_eq_zero.mp none _ counted
    simp [Entry.isHome, isStolen, noClosure] at isHome

end Runs

end HydraRT.Cluster
