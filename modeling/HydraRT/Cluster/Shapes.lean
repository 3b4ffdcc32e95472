import HydraRT.Cluster.Calls

/-!
# The shape of tasks

What a task looks like follows from where it is.  A task that a thief may get
is portable and belongs to this node; a closure around a stolen task carries
no payload; a task the reaper runs again carries the payload it captured.
-/

namespace HydraRT.Cluster

open HydraRT.Inference
open HydraRT.Lib

variable {config : NodeConfig}

/-- On the way into a portable pool, or out of one through `serve_peer`. -/
def Place.isPortable : Place → Bool
  | .created _ portable | .numbered _ portable | .counted _ portable |
      .queued portable => portable
  | .serving | .copied | .outstanding | .reaped | .resubmitting => true
  | _ => false

/-- Tasks that arrive from elsewhere may look like anything. -/
structure Token.Shaped (config : NodeConfig) (token : Token) : Prop where
  portable : token.place.isPortable = true →
    token.task.fn = none ∧ token.task.originNode = config.nodeId
  stolen : token.place ≠ .arrived → ∀ {type payload origin taskId},
    token.task.fn = some (.stolen type payload origin taskId) →
      token.task.payload = .empty
  rerun : token.place ≠ .arrived → ∀ {type payload lost},
    token.task.fn = some (.rerun type payload lost) →
      token.task.payload = payload ∧
        ∀ site, token.place.submittedBy site = true → site = .rerun
  settled : ∀ {phase}, token.place = .finishing .settled phase →
    token.task.payload = .empty

/-- A task without a closure. -/
theorem Token.Shaped.of_fn_eq_none {token : Token}
    (noClosure : token.task.fn = none)
    (portable : token.place.isPortable = true →
      token.task.originNode = config.nodeId)
    (settled : ∀ {phase}, token.place = .finishing .settled phase →
      token.task.payload = .empty) :
    token.Shaped config where
  portable isPortable := ⟨noClosure, portable isPortable⟩
  stolen _ _ _ _ _ closure := by
    rw [noClosure] at closure
    cases closure
  rerun _ _ _ _ closure := by
    rw [noClosure] at closure
    cases closure
  settled := settled

/-- The task of a shaped token at a place of the same kind. -/
theorem Token.Shaped.moved {place : Place} {task : Task}
    (shaped : Token.Shaped config ⟨place, task⟩) {target : Place}
    (inside : place ≠ .arrived)
    (portable : target.isPortable = true → place.isPortable = true)
    (submitted : ∀ site, target.submittedBy site = true →
      place.submittedBy site = true)
    (settled : ∀ {phase}, target = .finishing .settled phase →
      ∃ phase, place = .finishing .settled phase) :
    Token.Shaped config ⟨target, task⟩ where
  portable isPortable := shaped.portable (portable isPortable)
  stolen _ _ _ _ _ closure := shaped.stolen inside closure
  rerun _ _ _ _ closure := by
    obtain ⟨samePayload, sites⟩ := shaped.rerun inside closure
    exact ⟨samePayload, fun site isThere => sites site (submitted site isThere)⟩
  settled isSettled := by
    obtain ⟨phase, wasSettled⟩ := settled isSettled
    exact shaped.settled wasSettled

/-- The reaper is settling a task there. -/
def Place.isSettling : Place → Bool
  | .finishing .settled _ => true
  | _ => false

theorem Place.not_settling {place : Place} (other : place.isSettling = false)
    {phase : Phase} : place ≠ .finishing .settled phase := by
  rintro rfl
  cases other

/-- The observer of a finishing task gets on. -/
theorem Token.Shaped.finishing {cause : Cause} {phase : Phase} {task : Task}
    (shaped : Token.Shaped config ⟨.finishing cause phase, task⟩)
    (later : Phase) : Token.Shaped config ⟨.finishing cause later, task⟩ := by
  refine shaped.moved Place.noConfusion id (fun _ => id) ?_
  intro phase isSettled
  cases isSettled
  exact ⟨_, rfl⟩

/-- A task arrives where nobody submits or settles tasks. -/
theorem Token.Shaped.rests {place : Place} {task : Task}
    (shaped : Token.Shaped config ⟨place, task⟩) {target : Place}
    (inside : place ≠ .arrived)
    (portable : target.isPortable = true → place.isPortable = true)
    (notSubmitted : ∀ site, target.submittedBy site = false)
    (notSettling : target.isSettling = false) :
    Token.Shaped config ⟨target, task⟩ := by
  refine shaped.moved inside portable ?_ ?_
  · intro site submitted
    cases (notSubmitted site).symm.trans submitted
  · intro phase isSettled
    exact absurd isSettled (Place.not_settling notSettling)

/-- A task that is left as it is keeps its shape. -/
theorem Token.Shaped.leads {source target : Place} {task : Task}
    (shaped : Token.Shaped config ⟨source, task⟩)
    (leads : source.Leads target) : Token.Shaped config ⟨target, task⟩ := by
  cases leads with
  | enqueue site portable =>
      exact shaped.rests Place.noConfusion id (fun _ => rfl) rfl
  | dequeue portable | run | resolve =>
      exact shaped.rests Place.noConfusion Bool.noConfusion (fun _ => rfl) rfl
  | track | reap | resubmit =>
      exact shaped.rests Place.noConfusion id (fun _ => rfl) rfl
  | observe cause phase =>
      exact shaped.finishing _

/-- Something new without a closure. -/
theorem Token.Shaped.of_new {token : Token} (noClosure : token.task.fn = none)
    (portable : token.place.isPortable = true →
      token.task.originNode = config.nodeId)
    (notSettling : token.place.isSettling = false) :
    token.Shaped config :=
  .of_fn_eq_none noClosure portable fun isSettled =>
    absurd isSettled (Place.not_settling notSettling)

section Kept

variable {state following : State config} {action : Action} {event : Event}

/-- What an event adds has its shape. -/
theorem Happens.shaped_added
    (shaped : ∀ token ∈ state.tokens, token.Shaped config)
    (happens : Happens action event state following) :
    ∀ token ∈ event.added config state.shared.books,
      token.Shaped config := by
  have held : ∀ {token}, token ∈ event.removed config →
      token.Shaped config :=
    fun isRemoved => shaped _ (happens.held isRemoved)
  intro token isAdded
  cases Event.yields_of_added isAdded with
  | moved isRemoved leads =>
      exact (held isRemoved).leads leads
  | start portable task =>
      refine ⟨happens.allowed.2, ?_, ?_, fun isSettled => by
        cases isSettled⟩
      · intro _ type payload origin taskId isStolen
        obtain ⟨body, isUser⟩ := happens.allowed.user isStolen
        cases isUser
      · intro _ type payload lost isRerun
        obtain ⟨body, isUser⟩ := happens.allowed.user isRerun
        cases isUser
  | number site portable task =>
      have before := held (List.mem_singleton_self _)
      exact ⟨before.portable,
        fun _ _ _ _ _ closure => before.stolen Place.noConfusion closure,
        fun _ _ _ _ closure => before.rerun Place.noConfusion closure,
        fun isSettled => by cases isSettled⟩
  | count site portable task =>
      exact (held (List.mem_singleton_self _)).moved Place.noConfusion id
        (fun _ => id) (fun isSettled => by cases isSettled)
  | serve task | copy task =>
      exact (held (List.mem_singleton_self _)).rests Place.noConfusion id
        (fun _ => rfl) rfl
  | settle portable task lost =>
      exact .of_fn_eq_none rfl Bool.noConfusion fun _ => rfl
  | rerun lost =>
      refine ⟨Bool.noConfusion, ?_, ?_, fun isSettled => by cases isSettled⟩
      · intro _ type payload origin taskId isStolen
        cases isStolen
      · intro _ type payload again isAgain
        cases isAgain
        exact ⟨rfl, fun site submitted => (eq_of_beq submitted).symm⟩
  | owe task notice owes =>
      exact .of_new rfl Bool.noConfusion rfl
  | arrive tasks task inTasks =>
      exact ⟨Bool.noConfusion, fun inside => absurd rfl inside,
        fun inside => absurd rfl inside, fun isSettled => by
          cases isSettled⟩
  | wrap task =>
      refine ⟨Bool.noConfusion, fun _ _ _ _ _ _ => rfl, ?_, fun isSettled => by
        cases isSettled⟩
      intro _ type payload lost isRerun
      cases isRerun
  | advance cause task p next =>
      exact (held (List.mem_singleton_self _)).finishing _
  | successor cause task p next =>
      exact .of_new rfl (fun _ => rfl) rfl
  | record cause task p next | misread cause task p =>
      exact .of_new rfl Bool.noConfusion rfl
  | fetch request | emplace request id =>
      exact .of_new rfl Bool.noConfusion rfl
  | request request id =>
      exact .of_new rfl (fun _ => rfl) rfl

end Kept

/-- Every task has the shape of its place. -/
theorem shaped_of_reachable {state : State config}
    (reached : (node config).Reachable state) :
    ∀ token ∈ state.tokens, token.Shaped config := by
  refine invariant_of_balanced_events (fun _ tokens =>
    ∀ token ∈ tokens, token.Shaped config) ?_ ?_ reached
  · intro token impossible
    cases impossible
  · intro state following action event _ shaped _ happens token member
    rcases happens.moves.mem member with old | isAdded
    · exact shaped token old
    · exact happens.shaped_added shaped token isAdded

end HydraRT.Cluster
