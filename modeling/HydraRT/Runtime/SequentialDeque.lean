import HydraRT.Runtime.ChaseLevInvariant

/-!
# The deque as a list

The calls of `ChaseLevDeque` executed one at a time: each runs all its accesses
without interruption.  Then `push` and `pop` work at the back of a list and
`steal` at its front, whatever the capacity the ring starts with, however often
it grows and wherever in the ring the list lies.
-/

namespace HydraRT.ChaseLev

open HydraRT.Lib

variable {Task : Type}

/-! ## Calls without interruption -/

inductive Call (Task : Type) where
  | push (task : Task)
  | pop
  | steal
  | size
  deriving DecidableEq, Repr

/-- What a call returns.  A task is missing where a pointer has no task. -/
inductive Answer (Task : Type) where
  | done
  /-- `false`. -/
  | refused
  | taken (task : Option Task)
  | counted (size : Nat)
  deriving DecidableEq, Repr

namespace State

/-- The task at an address. -/
def task (state : State Task) (pointer : Pointer) : Option Task :=
  if pointer = 0 then none else state.pushed[pointer - 1]?

/-- The rest of the owner's call, if it ends within `fuel` accesses. -/
def finishOwner : (fuel : Nat) → State Task → Option (State Task)
  | 0, state =>
      match state.owner with
      | .idle => some state
      | _ => none
  | fuel + 1, state =>
      match state.owner with
      | .idle => some state
      | _ => state.ownerStep.bind (finishOwner fuel)

/-- The rest of the first thief's call. -/
def finishThief : (fuel : Nat) → State Task → Option (State Task)
  | 0, state =>
      match state.thieves.head? with
      | some .idle => some state
      | _ => none
  | fuel + 1, state =>
      match state.thieves.head? with
      | some .idle => some state
      | _ => (state.step (.thief 0)).bind (finishThief fuel)

/-- What has been returned since there were `count` returned pointers. -/
def answer (state : State Task) (count : Nat) (returned : List Pointer) :
    Answer Task :=
  match returned.drop count with
  | [] => .refused
  | pointer :: _ => .taken (state.task pointer)

/-- A call that runs alone, with what it returns.  The loop of `grow` makes two
accesses for each element. -/
def perform (state : State Task) :
    Call Task → Option (State Task × Answer Task)
  | .push task =>
      ((state.step (.push task)).bind (finishOwner (2 * state.size + 5))).map
        fun after => (after, .done)
  | .pop =>
      ((state.step .pop).bind (finishOwner 6)).map fun after =>
        (after, after.answer state.popped.length after.popped)
  | .steal =>
      ((state.step (.thief 0)).bind (finishThief 4)).map fun after =>
        (after, after.answer state.stolen.length after.stolen)
  | .size => some (state, .counted state.size)

/-- Several calls, one after the other. -/
def performAll (state : State Task) :
    List (Call Task) → Option (State Task × List (Answer Task))
  | [] => some (state, [])
  | call :: rest =>
      (state.perform call).bind fun (after, answer) =>
        (after.performAll rest).map fun (last, answers) =>
          (last, answer :: answers)

end State

/-! ## The list -/

/-- What a call does to a list, front first. -/
def listPerform (tasks : List Task) : Call Task → List Task × Answer Task
  | .push task => (tasks ++ [task], .done)
  | .pop =>
      match tasks.getLast? with
      | none => (tasks, .refused)
      | some task => (tasks.dropLast, .taken (some task))
  | .steal =>
      match tasks with
      | [] => ([], .refused)
      | task :: rest => (rest, .taken (some task))
  | .size => (tasks, .counted tasks.length)

def listPerformAll (tasks : List Task) :
    List (Call Task) → List Task × List (Answer Task)
  | [] => (tasks, [])
  | call :: rest =>
      let (after, answer) := listPerform tasks call
      let (last, answers) := listPerformAll after rest
      (last, answer :: answers)

theorem listPerformAll_push (tasks more : List Task) :
    (listPerformAll tasks (more.map .push)).1 = tasks ++ more := by
  induction more generalizing tasks with
  | nil =>
      exact (List.append_nil tasks).symm
  | cons task rest inductionHypothesis =>
      rw [List.map_cons, listPerformAll]
      simp [listPerform, inductionHypothesis]

namespace State

/-! ## Running to the end -/

theorem finishOwner_idle {state : State Task} (isIdle : state.owner = .idle)
    (fuel : Nat) : finishOwner fuel state = some state := by
  cases fuel with
  | zero =>
      rw [finishOwner, isIdle]
  | succ fuel =>
      rw [finishOwner, isIdle]

theorem finishOwner_step {state following : State Task}
    (stepped : state.ownerStep = some following) (fuel : Nat) :
    finishOwner (fuel + 1) state = finishOwner fuel following := by
  rw [finishOwner]
  cases atPoint : state.owner with
  | idle =>
      rw [ownerStep, atPoint] at stepped
      cases stepped
  | _ =>
      exact congrArg (Option.bind · (finishOwner fuel)) stepped

/-- More fuel does no harm. -/
theorem finishOwner_more {fuel : Nat} {state after : State Task}
    (finished : finishOwner fuel state = some after) (extra : Nat) :
    finishOwner (fuel + extra) state = some after := by
  induction fuel generalizing state with
  | zero =>
      rw [finishOwner] at finished
      cases atPoint : state.owner with
      | idle =>
          rw [atPoint] at finished
          rw [finishOwner_idle atPoint]
          exact finished
      | _ =>
          rw [atPoint] at finished
          cases finished
  | succ fuel inductionHypothesis =>
      rw [Nat.add_right_comm]
      rw [finishOwner] at finished ⊢
      cases atPoint : state.owner with
      | idle =>
          rw [atPoint] at finished
          exact finished
      | _ =>
          rw [atPoint] at finished
          obtain ⟨following, stepped, later⟩ :=
            Option.bind_eq_some_iff.mp finished
          exact Option.bind_eq_some_iff.mpr
            ⟨following, stepped, inductionHypothesis later⟩

/-! ## push -/

/-- What a call of `push` leaves. -/
structure PushedOnto (before : State Task) (task : Task)
    (live : List Pointer) (after : State Task) : Prop where
  represents : after.Represents (live ++ [before.pushed.length + 1]) []
  isIdle : after.owner = .idle
  pushed : after.pushed = before.pushed ++ [task]
  thieves : after.thieves = before.thieves

variable {state : State Task} {live : List Pointer} {task : Task} {b : Int}

/-- One access more at the beginning. -/
theorem PushedOnto.after_step {next : State Task} {fuel : Nat}
    (stepped : state.ownerStep = some next)
    (pushed : next.pushed = state.pushed)
    (thieves : next.thieves = state.thieves)
    (rest : ∃ after, finishOwner fuel next = some after ∧
      PushedOnto next task live after) :
    ∃ after, finishOwner (fuel + 1) state = some after ∧
      PushedOnto state task live after := by
  obtain ⟨after, ran, onto⟩ := rest
  have represents := onto.represents
  rw [pushed] at represents
  refine ⟨after, ?_, represents, onto.isIdle, ?_, ?_⟩
  · rw [finishOwner_step stepped]
    exact ran
  · rw [onto.pushed, pushed]
  · rw [onto.thieves, thieves]

theorem push_from_put {buf : Nat} (represents : state.Represents live [])
    (atPoint : state.owner = .put task b buf) :
    ∃ after, finishOwner 2 state = some after ∧
      PushedOnto state task live after := by
  have put := represents_put represents atPoint
  have stored := represents_pushStoreBottom put rfl
  refine ⟨_, ?_, stored, rfl, rfl, rfl⟩
  rw [finishOwner_step (by rw [ownerStep, atPoint]),
    finishOwner_step rfl, finishOwner_idle rfl]

/-- The loop of `grow`, with `left` elements to copy. -/
theorem push_from_grow (left : Nat) {i : Int} {buf grown : Nat}
    (represents : state.Represents live [])
    (atPoint : state.owner = .growLoad task b buf grown i)
    (remaining : (b - i).toNat = left) :
    ∃ after, finishOwner (2 * left + 3) state = some after ∧
      PushedOnto state task live after := by
  induction left generalizing state i with
  | zero =>
      have finished : ¬ i < b := by omega
      have published := represents_publish represents atPoint finished
      have stepped : state.ownerStep =
          some { state with buffer := grown, owner := .put task b grown } := by
        simp only [ownerStep, atPoint, if_neg finished]
      exact PushedOnto.after_step stepped rfl rfl
        (push_from_put published rfl)
  | succ left inductionHypothesis =>
      have unfinished : i < b := by omega
      have loaded := represents_growLoad represents atPoint unfinished
      have stored := represents_growStore loaded rfl
      have stepped : state.ownerStep =
          some { state with
            owner := .growStore task b buf grown i
              ((state.rings buf).get i) } := by
        simp only [ownerStep, atPoint, if_pos unfinished]
      apply PushedOnto.after_step stepped rfl rfl
      exact PushedOnto.after_step rfl rfl rfl
        (inductionHypothesis stored rfl (by omega))

/-- A `push` that runs alone ends, and puts its task at the back. -/
theorem push_alone (represents : state.Represents live [])
    (isIdle : state.owner = .idle) (task : Task) :
    ∃ after, (state.step (.push task)).bind
        (finishOwner (2 * state.size + 5)) = some after ∧
      PushedOnto state task live after := by
  have begun := represents_push represents task isIdle
  have loaded := represents_pushLoadTop begun rfl
  have start : state.step (.push task) =
      some { state with owner := .pushLoadTop task state.bottom } := by
    rw [step, isIdle]
  rw [start, Option.bind_some, finishOwner_step rfl]
  by_cases full :
      state.bottom - state.top ≥ (state.ring.capacity : Int) - 1
  · have allocated := represents_allocate loaded rfl
    have positive : (1 : Int) ≤ state.ring.capacity := by
      have := represents.pow2.pos
      omega
    have left : (state.bottom - state.top).toNat = state.size := by
      unfold size
      split <;> omega
    have stepped : ownerStep { state with
        owner := .pushLoadBuffer task state.bottom state.top } =
          some { state with
            rings := Function.update state.rings state.allocated
              (RingBuffer.create (state.ring.capacity * 2))
            allocated := state.allocated + 1
            owner := .growLoad task state.bottom state.buffer
              state.allocated state.top } :=
      if_pos full
    obtain ⟨after, ran, pushed⟩ := PushedOnto.after_step stepped rfl rfl
      (push_from_grow state.size allocated rfl left)
    exact ⟨after, ran, pushed.represents, pushed.isIdle, pushed.pushed,
      pushed.thieves⟩
  · have roomFound := represents_roomFound loaded rfl full
    have stepped : ownerStep { state with
        owner := .pushLoadBuffer task state.bottom state.top } =
          some { state with
            owner := .put task state.bottom state.buffer } :=
      if_neg full
    obtain ⟨after, ran, pushed⟩ := PushedOnto.after_step stepped rfl rfl
      (push_from_put roomFound rfl)
    refine ⟨after, ?_, pushed.represents, pushed.isIdle, pushed.pushed,
      pushed.thieves⟩
    rw [show 2 * state.size + 4 = 2 + 1 + (2 * state.size + 1) by omega]
    exact finishOwner_more ran _

/-! ## pop -/

/-- What the rest of a `pop` leaves. -/
structure PoppedFrom (before : State Task) (live : List Pointer)
    (result : Option Pointer) (after : State Task) : Prop where
  represents : after.Represents live []
  isIdle : after.owner = .idle
  pushed : after.pushed = before.pushed
  popped : after.popped = before.popped ++ result.toList
  thieves : after.thieves = before.thieves

/-- One access more at the beginning. -/
theorem PoppedFrom.after_step {next : State Task} {fuel : Nat}
    {result : Option Pointer} (stepped : state.ownerStep = some next)
    (pushed : next.pushed = state.pushed)
    (popped : next.popped = state.popped)
    (thieves : next.thieves = state.thieves)
    (rest : ∃ after, finishOwner fuel next = some after ∧
      PoppedFrom next live result after) :
    ∃ after, finishOwner (fuel + 1) state = some after ∧
      PoppedFrom state live result after := by
  obtain ⟨after, ran, left⟩ := rest
  refine ⟨after, ?_, left.represents, left.isIdle, ?_, ?_, ?_⟩
  · rw [finishOwner_step stepped]
    exact ran
  · rw [left.pushed, pushed]
  · rw [left.popped, popped]
  · rw [left.thieves, thieves]

theorem pop_from_restore {hand : List Pointer} {result : Option Pointer}
    (represents : state.Represents live hand)
    (atPoint : state.owner = .popRestore b result) :
    ∃ after, finishOwner 1 state = some after ∧
      PoppedFrom state live result after := by
  have restored := represents_popRestore represents atPoint
  refine ⟨_, ?_, restored, rfl, rfl, rfl, rfl⟩
  rw [finishOwner_step (by rw [ownerStep, atPoint]), finishOwner_idle rfl]

/-- Nobody interferes, so the compare-exchange succeeds. -/
theorem pop_from_compareExchange {hand : List Pointer} {t : Int}
    {pointer : Pointer} (represents : state.Represents live hand)
    (atPoint : state.owner = .popCompareExchange b t pointer)
    (current : state.top = t) :
    ∃ after, finishOwner 2 state = some after ∧
      PoppedFrom state [] (some pointer) after := by
  have won := represents_popWin represents atPoint current
  have stepped : state.ownerStep =
      some { state with top := t + 1, owner := .popRestore b (some pointer) } := by
    simp only [ownerStep, atPoint, if_pos current]
  exact PoppedFrom.after_step stepped rfl rfl rfl (pop_from_restore won rfl)

theorem pop_from_get_last {hand : List Pointer} {t : Int} {buf : Nat}
    (represents : state.Represents live hand)
    (atPoint : state.owner = .popGet b t buf) (last : t = b)
    (current : state.top = t) :
    ∃ after, finishOwner 3 state = some after ∧
      PoppedFrom state [] (some ((state.rings buf).get b)) after := by
  have got := represents_popGetLast represents atPoint last
  have stepped : state.ownerStep = some { state with
      owner := .popCompareExchange b t ((state.rings buf).get b) } := by
    simp only [ownerStep, atPoint, if_pos last]
  exact PoppedFrom.after_step stepped rfl rfl rfl
    (pop_from_compareExchange got rfl current)

theorem pop_from_get {hand : List Pointer} {t : Int} {buf : Nat}
    (represents : state.Represents live hand)
    (atPoint : state.owner = .popGet b t buf) (claimed : t ≠ b) :
    ∃ after, finishOwner 1 state = some after ∧
      PoppedFrom state live (some ((state.rings buf).get b)) after := by
  have returned := represents_popReturn represents atPoint claimed
  have stepped : state.ownerStep = some { state with
      popped := state.popped ++ [(state.rings buf).get b]
      owner := .idle } := by
    simp only [ownerStep, atPoint, if_neg claimed]
  refine ⟨_, ?_, returned, rfl, rfl, rfl, rfl⟩
  rw [finishOwner_step stepped, finishOwner_idle rfl]

/-- The last element is where `bottom_` has been lowered to. -/
theorem Represents.getLast?_eq (represents : state.Represents live [])
    {buf : Nat} (atPoint : state.owner = .popLoadTop b buf)
    (ahead : state.top ≤ b) : live.getLast? = some (state.ring.get b) := by
  have length := represents.length
  simp only [back, atPoint] at length
  have inside : live.length - 1 < live.length := by omega
  have position : state.top + ((live.length - 1 : Nat) : Int) = b := by
    omega
  rw [List.getLast?_eq_getElem?, List.getElem?_eq_getElem inside,
    ← represents.slots, position]

/-- After reading `top_` the rest of `pop` is decided. -/
theorem pop_from_loadTop {buf : Nat} (represents : state.Represents live [])
    (atPoint : state.owner = .popLoadTop b buf) :
    ∃ after, finishOwner 4 state = some after ∧
      PoppedFrom state live.dropLast live.getLast? after := by
  have length := represents.length
  simp only [back, atPoint] at length
  have sameBuffer : buf = state.buffer := by
    have agrees := represents.owner
    simp only [OwnerAgrees, atPoint] at agrees
    exact agrees.2.2
  subst sameBuffer
  by_cases overtaken : state.top > b
  · obtain rfl : live = [] := List.eq_nil_of_length_eq_zero (by omega)
    have stopped := represents_popEmpty represents atPoint overtaken
    have stepped : state.ownerStep =
        some { state with owner := .popRestore b none } := by
      simp only [ownerStep, atPoint, if_pos overtaken]
    obtain ⟨after, ran, popped⟩ := PoppedFrom.after_step stepped rfl rfl rfl
      (pop_from_restore stopped rfl)
    exact ⟨after, finishOwner_more ran 2, popped⟩
  · have stepped : state.ownerStep = some { state with
        owner := .popGet b state.top state.buffer } := by
      simp only [ownerStep, atPoint, if_neg overtaken]
    rw [represents.getLast?_eq atPoint (by omega)]
    apply PoppedFrom.after_step stepped rfl rfl rfl
    rcases lt_or_eq_of_le (not_lt.mp overtaken) with below | last
    · have claimed := represents_popClaim represents atPoint below
      obtain ⟨after, ran, popped⟩ := pop_from_get claimed rfl (ne_of_lt below)
      exact ⟨after, finishOwner_more ran 2, popped⟩
    · have read := represents_popLast represents atPoint last
      have single : live.dropLast = [] :=
        List.eq_nil_of_length_eq_zero (by rw [List.length_dropLast]; omega)
      rw [single]
      exact pop_from_get_last read rfl last rfl

/-- A `pop` that runs alone ends, with the element at the back if there is
one. -/
theorem pop_alone (represents : state.Represents live [])
    (isIdle : state.owner = .idle) :
    ∃ after, (state.step .pop).bind (finishOwner 6) = some after ∧
      PoppedFrom state live.dropLast live.getLast? after := by
  have begun := represents_pop represents isIdle
  have loaded := represents_popLoadBuffer begun rfl
  have lowered := represents_popStoreBottom loaded rfl
  obtain ⟨after, ran, popped⟩ := pop_from_loadTop lowered rfl
  have start : state.step .pop =
      some { state with owner := .popLoadBuffer (state.bottom - 1) } := by
    rw [step, isIdle]
  refine ⟨after, ?_, popped.represents, popped.isIdle, popped.pushed,
    popped.popped, popped.thieves⟩
  rw [start, Option.bind_some, finishOwner_step rfl, finishOwner_step rfl]
  exact ran

/-- On an empty deque `pop` puts everything back. -/
theorem pop_alone_empty (represents : state.Represents [] [])
    (isIdle : state.owner = .idle) :
    (state.step .pop).bind (finishOwner 6) = some state := by
  have length := represents.length
  simp only [back, isIdle, List.length_nil, Nat.cast_zero] at length
  have start : state.step .pop =
      some { state with owner := .popLoadBuffer (state.bottom - 1) } := by
    rw [step, isIdle]
  have overtaken : state.top > state.bottom - 1 := by omega
  have stepped : ownerStep { state with
      bottom := state.bottom - 1
      owner := .popLoadTop (state.bottom - 1) state.buffer } =
        some { state with
          bottom := state.bottom - 1
          owner := .popRestore (state.bottom - 1) none } :=
    if_pos overtaken
  rw [start, Option.bind_some, finishOwner_step rfl, finishOwner_step rfl,
    finishOwner_step stepped, finishOwner_step rfl, finishOwner_idle rfl]
  obtain ⟨top, bottom, buffer, rings, allocated, owner, thieves, pushed,
    popped, stolen⟩ := state
  obtain rfl : owner = .idle := isIdle
  simp

/-! ## steal -/

theorem finishThief_idle {state : State Task}
    (isIdle : state.thieves.head? = some .idle) (fuel : Nat) :
    finishThief fuel state = some state := by
  cases fuel with
  | zero =>
      rw [finishThief, isIdle]
  | succ fuel =>
      rw [finishThief, isIdle]

theorem finishThief_step {state following : State Task} {thief : Thief}
    (atPoint : state.thieves.head? = some thief) (isActive : thief ≠ .idle)
    (stepped : state.step (.thief 0) = some following) (fuel : Nat) :
    finishThief (fuel + 1) state = finishThief fuel following := by
  rw [finishThief, atPoint]
  cases thief with
  | idle =>
      exact absurd rfl isActive
  | _ =>
      exact congrArg (Option.bind · (finishThief fuel)) stepped

/-- What a call of `steal` leaves. -/
structure StolenFrom (before : State Task) (live : List Pointer)
    (result : Option Pointer) (after : State Task) : Prop where
  represents : after.Represents live []
  isIdle : after.owner = .idle
  pushed : after.pushed = before.pushed
  stolen : after.stolen = before.stolen ++ result.toList
  thieves : after.thieves = before.thieves

/-- The state with the program counter of its only thief. -/
def withThief (state : State Task) (thief : Thief) : State Task :=
  { state with thieves := [thief] }

theorem withThief_idle (alone : state.thieves = [.idle]) :
    state.withThief .idle = state := by
  rw [withThief, ← alone]

theorem step_loadTop (state : State Task) :
    (state.withThief .idle).step (.thief 0) =
      some (state.withThief (.loadBottom state.top)) := rfl

/-- On an empty deque `steal` changes nothing. -/
theorem steal_alone_empty (represents : state.Represents [] [])
    (isIdle : state.owner = .idle) (alone : state.thieves = [.idle]) :
    (state.step (.thief 0)).bind (finishThief 4) = some state := by
  have length := represents.length
  simp only [back, isIdle, List.length_nil, Nat.cast_zero] at length
  have stepped : (state.withThief (.loadBottom state.top)).step (.thief 0) =
      some (state.withThief .idle) := by
    have noneLeft : state.top ≥ state.bottom := by omega
    simp [withThief, step, thiefStep, noneLeft]
  have start := step_loadTop state
  rw [withThief_idle alone] at start stepped
  rw [start, Option.bind_some,
    finishThief_step rfl (by simp) stepped,
    finishThief_idle (by rw [alone]; rfl)]

/-- A `steal` that runs alone ends, with the element at the front if there is
one. -/
theorem steal_alone (represents : state.Represents live [])
    (isIdle : state.owner = .idle) (alone : state.thieves = [.idle]) :
    ∃ after, (state.step (.thief 0)).bind (finishThief 4) = some after ∧
      StolenFrom state live.tail live.head? after := by
  cases live with
  | nil =>
      exact ⟨state, steal_alone_empty represents isIdle alone, represents,
        isIdle, rfl, by simp, rfl⟩
  | cons pointer rest =>
      have length := represents.length
      simp only [back, isIdle, List.length_cons, Nat.cast_add,
        Nat.cast_one] at length
      have front := represents.front (List.cons_ne_nil pointer rest)
      have same : pointer = state.ring.get state.top := by
        simpa using front
      have taken := represents_steal represents 0 (List.head?_cons)
      have start := step_loadTop state
      rw [withThief_idle alone] at start
      have some_ : (state.withThief (.loadBottom state.top)).step
          (.thief 0) = some (state.withThief (.loadBuffer state.top)) := by
        have someLeft : ¬ state.top ≥ state.bottom := by omega
        simp [withThief, step, thiefStep, someLeft]
      have ring : (state.withThief (.loadBuffer state.top)).step
          (.thief 0) =
            some (state.withThief (.get state.top state.buffer)) := rfl
      have read : (state.withThief (.get state.top state.buffer)).step
          (.thief 0) =
            some (state.withThief
              (.compareExchange state.top (state.ring.get state.top))) :=
        rfl
      have won : (state.withThief
          (.compareExchange state.top (state.ring.get state.top))).step
            (.thief 0) =
          some { state with
            top := state.top + 1
            stolen := state.stolen ++ [state.ring.get state.top]
            thieves := state.thieves.set 0 .idle } := by
        rw [alone]
        simp [withThief, step, thiefStep]
      rw [same] at taken
      refine ⟨_, ?_, taken, isIdle, rfl, by rw [same]; rfl, ?_⟩
      · rw [start, Option.bind_some, finishThief_step rfl (by simp) some_,
          finishThief_step rfl (by simp) ring,
          finishThief_step rfl (by simp) read,
          finishThief_step rfl (by simp) won]
        exact finishThief_idle (by simp [alone]) 0
      · simp [alone]

/-! ## The deque and its list -/

/-- Nobody is in a call, and the deque holds these tasks, front first. -/
structure Holds (state : State Task) (tasks : List Task) : Prop where
  isIdle : state.owner = .idle
  alone : state.thieves = [.idle]
  represents : state.Represents state.stored []
  content : state.stored.map state.task = tasks.map some

theorem Holds.of_represents {tasks : List Task} (isIdle : state.owner = .idle)
    (alone : state.thieves = [.idle]) (represents : state.Represents live [])
    (content : live.map state.task = tasks.map some) :
    state.Holds tasks := by
  have stored := represents.stored_eq isIdle
  refine ⟨isIdle, alone, ?_, ?_⟩
  · rw [stored]
    exact represents
  · rw [stored]
    exact content

theorem Holds.size_eq {tasks : List Task} (holds : state.Holds tasks) :
    state.size = tasks.length := by
  have length := congrArg List.length holds.content
  rw [List.length_map, List.length_map] at length
  rw [holds.represents.size_eq holds.isIdle, length]

/-- A stored pointer is that of a pushed task. -/
theorem Represents.pointer_bounds (represents : state.Represents live [])
    {pointer : Pointer} (member : pointer ∈ live) :
    1 ≤ pointer ∧ pointer ≤ state.pushed.length := by
  have inRange : pointer ∈ List.range' 1 state.pushed.length := by
    apply represents.partition.mem_iff.mp
    simp [member]
  rw [List.mem_range'_1, Nat.add_comm] at inRange
  exact ⟨inRange.1, Nat.le_of_lt_succ inRange.2⟩

/-- Older pointers keep their tasks. -/
theorem PushedOnto.task_eq {after : State Task}
    (pushedOnto : PushedOnto state task live after) {pointer : Pointer}
    (positive : 1 ≤ pointer) (known : pointer ≤ state.pushed.length) :
    after.task pointer = state.task pointer := by
  unfold State.task
  rw [pushedOnto.pushed,
    List.getElem?_append_left (Nat.sub_one_lt_of_le positive known)]

theorem PushedOnto.task_new {after : State Task}
    (pushedOnto : PushedOnto state task live after) :
    after.task (state.pushed.length + 1) = some task := by
  unfold State.task
  rw [pushedOnto.pushed]
  simp

theorem task_congr {after : State Task} (same : after.pushed = state.pushed) :
    after.task = state.task := by
  funext pointer
  unfold State.task
  rw [same]

/-- What is returned is what has been appended. -/
theorem answer_append (after : State Task) (earlier : List Pointer)
    (result : Option Pointer) :
    after.answer earlier.length (earlier ++ result.toList) =
      match result with
      | none => .refused
      | some pointer => .taken (after.task pointer) := by
  unfold answer
  rw [List.drop_left]
  cases result <;> rfl

/-- Each call does to the list what it should, and one that is refused leaves
the deque as it was. -/
structure Refines (state : State Task) (tasks : List Task)
    (call : Call Task) (after : State Task) : Prop where
  performed : state.perform call = some (after, (listPerform tasks call).2)
  holds : after.Holds (listPerform tasks call).1
  unchanged : (listPerform tasks call).2 = .refused → after = state

theorem Holds.push {tasks : List Task} (holds : state.Holds tasks)
    (task : Task) : ∃ after, state.Refines tasks (.push task) after := by
  obtain ⟨after, ran, pushed⟩ := push_alone holds.represents holds.isIdle task
  refine ⟨after, ?_, ?_, ?_⟩
  · rw [perform, ran]
    rfl
  · refine .of_represents pushed.isIdle (pushed.thieves.trans holds.alone)
      pushed.represents ?_
    have older : state.stored.map after.task =
        state.stored.map state.task := by
      apply List.map_congr_left
      intro pointer member
      obtain ⟨positive, known⟩ := holds.represents.pointer_bounds member
      exact pushed.task_eq positive known
    rw [List.map_append, older, holds.content]
    simp [listPerform, pushed.task_new]
  · intro refused
    cases refused

theorem Holds.pop {tasks : List Task} (holds : state.Holds tasks) :
    ∃ after, state.Refines tasks .pop after := by
  obtain ⟨after, ran, popped⟩ := pop_alone holds.represents holds.isIdle
  have sameTask := task_congr popped.pushed
  have last : state.stored.getLast?.map state.task =
      tasks.getLast?.map some := by
    rw [← List.getLast?_map, ← List.getLast?_map, holds.content]
  have others : state.stored.dropLast.map state.task =
      tasks.dropLast.map some := by
    rw [List.map_dropLast, List.map_dropLast, holds.content]
  have performed : state.perform .pop = some (after,
      match state.stored.getLast? with
      | none => .refused
      | some pointer => .taken (after.task pointer)) := by
    rw [perform, ran, Option.map_some, popped.popped, answer_append]
  have holdsAfter : after.Holds tasks.dropLast := by
    refine .of_represents popped.isIdle (popped.thieves.trans holds.alone)
      popped.represents ?_
    rw [sameTask]
    exact others
  refine ⟨after, ?_⟩
  cases found : tasks.getLast? with
  | none =>
      rw [found] at last
      have empty : state.stored.getLast? = none := by simpa using last
      have noneStored := List.getLast?_eq_none_iff.mp empty
      have noneHeld := List.getLast?_eq_none_iff.mp found
      have representsNone := holds.represents
      rw [noneStored] at representsNone
      have same : after = state := by
        have restored := pop_alone_empty representsNone holds.isIdle
        rw [ran] at restored
        exact Option.some.inj restored
      rw [empty] at performed
      subst noneHeld
      exact ⟨performed, holdsAfter, fun _ => same⟩
  | some task =>
      rw [found] at last
      obtain ⟨pointer, atBack, content⟩ := Option.map_eq_some_iff.mp last
      rw [atBack, sameTask] at performed
      dsimp only at performed
      rw [content] at performed
      refine ⟨?_, ?_, ?_⟩
      · rw [performed, listPerform, found]
      · rw [listPerform, found]
        exact holdsAfter
      · rw [listPerform, found]
        intro refused
        cases refused

theorem Holds.steal {tasks : List Task} (holds : state.Holds tasks) :
    ∃ after, state.Refines tasks .steal after := by
  obtain ⟨after, ran, stolen⟩ :=
    steal_alone holds.represents holds.isIdle holds.alone
  have sameTask := task_congr stolen.pushed
  have performed : state.perform .steal = some (after,
      match state.stored.head? with
      | none => .refused
      | some pointer => .taken (after.task pointer)) := by
    rw [perform, ran, Option.map_some, stolen.stolen, answer_append]
  have holdsAfter : after.Holds tasks.tail := by
    refine .of_represents stolen.isIdle (stolen.thieves.trans holds.alone)
      stolen.represents ?_
    rw [sameTask, List.map_tail, List.map_tail, holds.content]
  refine ⟨after, ?_⟩
  cases tasks with
  | nil =>
      have noneStored : state.stored = [] := by simpa using holds.content
      have representsNone := holds.represents
      rw [noneStored] at representsNone performed
      have same : after = state := by
        have restored :=
          steal_alone_empty representsNone holds.isIdle holds.alone
        rw [ran] at restored
        exact Option.some.inj restored
      exact ⟨performed, holdsAfter, fun _ => same⟩
  | cons task rest =>
      obtain ⟨pointer, others, stored, content, _⟩ :=
        List.map_eq_cons_iff.mp holds.content
      rw [stored, sameTask, List.head?_cons] at performed
      dsimp only at performed
      rw [content] at performed
      refine ⟨performed, holdsAfter, ?_⟩
      · intro refused
        cases refused

theorem Holds.refines {tasks : List Task} (holds : state.Holds tasks)
    (call : Call Task) : ∃ after, state.Refines tasks call after := by
  cases call with
  | push task =>
      exact holds.push task
  | pop =>
      exact holds.pop
  | steal =>
      exact holds.steal
  | size =>
      refine ⟨state, ?_, holds, fun _ => rfl⟩
      rw [perform, holds.size_eq]
      rfl

/-- A sequence of calls does to the list what it should. -/
theorem Holds.performAll {tasks : List Task} (holds : state.Holds tasks)
    (calls : List (Call Task)) :
    ∃ after,
      state.performAll calls = some (after, (listPerformAll tasks calls).2) ∧
      after.Holds (listPerformAll tasks calls).1 := by
  induction calls generalizing state tasks with
  | nil =>
      exact ⟨state, rfl, holds⟩
  | cons call rest inductionHypothesis =>
      obtain ⟨middle, refines⟩ := holds.refines call
      obtain ⟨after, ran, holdsAfter⟩ := inductionHypothesis refines.holds
      refine ⟨after, ?_, holdsAfter⟩
      rw [State.performAll, refines.performed, Option.bind_some]
      dsimp only
      rw [ran]
      rfl

theorem holds_create (capacity : Nat) :
    (State.create capacity 1 : State Task).Holds [] :=
  .of_represents rfl rfl (represents_create capacity 1) rfl

/-- Whatever has happened to a deque, it is as if it had only ever been called
by one thread, once nobody is in a call. -/
theorem exists_holds_of_reachable
    (reached : (machine Task).Reachable state)
    (isIdle : state.owner = .idle) :
    ∃ tasks, ({ state with thieves := [.idle] } : State Task).Holds tasks := by
  obtain ⟨live, hand, represents⟩ := exists_represents reached
  have handEmpty : hand = [] := by
    have agrees := represents.owner
    rw [OwnerAgrees, isIdle] at agrees
    exact agrees
  subst handEmpty
  have known : ∀ pointer ∈ live, (state.task pointer).isSome := by
    intro pointer member
    obtain ⟨positive, below⟩ := represents.pointer_bounds member
    have inside : pointer - 1 < state.pushed.length :=
      Nat.sub_one_lt_of_le positive below
    simp [task, inside, Nat.ne_of_gt positive]
  have content : live.map state.task =
      (live.filterMap state.task).map some := by
    rw [List.map_filterMap_some_eq_filter_map_isSome, List.filter_eq_self.mpr]
    simpa using known
  refine ⟨live.filterMap state.task, .of_represents isIdle rfl ?_ content⟩
  exact { represents with
    thieves := by
      intro thief member
      rw [List.mem_singleton.mp member]
      trivial }

/-- At most one element less than the ring has slots, each in a slot of its
own. -/
structure Fits (state : State Task) : Prop where
  room : state.bottom - state.top ≤ (state.ring.capacity : Int) - 1
  apart : ∀ low high : Int, state.top ≤ low → low < high →
    high < state.bottom → state.ring.position low ≠ state.ring.position high

theorem Represents.fits {hand : List Pointer}
    (represents : state.Represents live hand) : state.Fits := by
  have length := represents.length
  have room := represents.room
  have behind := represents.bottom_le_back
  have topNonneg := represents.top_nonneg
  refine ⟨by omega, ?_⟩
  intro low high lower below upper
  exact RingBuffer.position_ne represents.pow2 (by omega) below (by omega)

end State

/-- Calls executed one at a time make the deque a list, whatever the capacity
it is created with, and a call that is refused leaves it as it was.  The live
elements fit the ring at all times, also in the middle of a call. -/
theorem sequential_deque_is_list {Task : Type} :
    (∀ (capacity : Nat) (calls : List (Call Task)),
      ∃ state : State Task,
        (State.create capacity 1).performAll calls =
            some (state, (listPerformAll [] calls).2) ∧
          state.stored.map state.task =
            (listPerformAll [] calls).1.map some ∧
          state.size = (listPerformAll [] calls).1.length ∧
          ∀ call after,
            state.perform call = some (after, .refused) → after = state) ∧
    ∀ state : State Task, (machine Task).Reachable state → state.Fits := by
  refine ⟨?_, ?_⟩
  · intro capacity calls
    obtain ⟨state, ran, holds⟩ := (State.holds_create capacity).performAll calls
    refine ⟨state, ran, holds.content, holds.size_eq, ?_⟩
    intro call after performed
    obtain ⟨reached, refines⟩ := holds.refines call
    rw [refines.performed] at performed
    obtain ⟨same, refused⟩ := Prod.mk.inj (Option.some.inj performed)
    rw [← same]
    exact refines.unchanged refused
  · intro state reached
    obtain ⟨live, hand, represents⟩ := State.exists_represents reached
    exact represents.fits

end HydraRT.ChaseLev
