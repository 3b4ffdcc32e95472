import HydraRT.Runtime.SequentialDeque

/-!
# The Chase-Lev deque seen from outside

Every call takes effect at one moment between its start and its return: `push`
when it stores `bottom_`, `pop` when it reads `top_` or, for the last task, at
its compare-exchange, `steal` at its compare-exchange.  The calls and returns
of any run are those of a list that is shared under a lock.

`steal` may return false although the list is not empty, in two cases only:
the front has been taken since the call, or one task is left and a `pop` is
after it.
-/

namespace HydraRT.ChaseLev

open HydraRT.Lib

variable {Task : Type}

/-- What the callers see. -/
inductive Event (Task : Type) where
  | pushCalled (task : Task)
  | pushReturned
  | popCalled
  | popReturned (answer : Answer Task)
  | stealCalled (thief : Nat)
  | stealReturned (thief : Nat) (answer : Answer Task)
  deriving DecidableEq, Repr

/-- A pointer that `pop` or `steal` returns, or `false`. -/
def State.answered (state : State Task) : Option Pointer → Answer Task
  | none => .refused
  | some pointer => .taken (state.task pointer)

/-- The calls and returns that an access is part of. -/
def events (state : State Task) : Action Task → List (Event Task)
  | .push task => [.pushCalled task]
  | .pop => [.popCalled]
  | .owner =>
      match state.owner with
      | .pushStoreBottom _ => [.pushReturned]
      | .popGet b t buf =>
          if t = b then []
          else [.popReturned
            (state.answered (some ((state.rings buf).get b)))]
      | .popRestore _ result => [.popReturned (state.answered result)]
      | _ => []
  | .thief number =>
      match state.thieves[number]? with
      | some .idle => [.stealCalled number]
      | some (.loadBottom t) =>
          if t ≥ state.bottom then [.stealReturned number .refused] else []
      | some (.compareExchange t pointer) =>
          [.stealReturned number (state.answered
            (if state.top = t then some pointer else none))]
      | _ => []

/-! ## A list under a lock -/

namespace Atomic

inductive Owner (Task : Type) where
  | idle
  | pushing (task : Task)
  | popping
  /-- The call has taken effect and is still to return. -/
  | pushed
  | popped (answer : Answer Task)

/-- `overtaken` says that the front has been taken since the call. -/
inductive Thief (Task : Type) where
  | idle
  | stealing (overtaken : Bool)
  | stole (answer : Answer Task)

structure State (Task : Type) where
  items : List Task
  owner : Owner Task
  thieves : List (Thief Task)

inductive Action (Task : Type) where
  | callPush (task : Task)
  | callPop
  | callSteal (thief : Nat)
  /-- The owner's call takes effect. -/
  | owner
  | steal (thief : Nat)
  | miss (thief : Nat)
  | ownerReturns
  | thiefReturns (thief : Nat)

def Owner.isPopping : Owner Task → Bool
  | .popping => true
  | _ => false

def Thief.overtake : Thief Task → Thief Task
  | .stealing _ => .stealing true
  | other => other

namespace State

/-- The owner's call takes effect.  Only a `pop` of the last task takes the
front. -/
def ownerStep (state : State Task) : Option (State Task) :=
  match state.owner with
  | .pushing task =>
      some { state with
        items := (listPerform state.items (.push task)).1
        owner := .pushed }
  | .popping =>
      some { state with
        items := (listPerform state.items .pop).1
        owner := .popped (listPerform state.items .pop).2
        thieves :=
          if state.items.length = 1 then state.thieves.map Thief.overtake
          else state.thieves }
  | _ => none

/-- When `steal` may return false. -/
def mayMiss (state : State Task) (overtaken : Bool) : Bool :=
  overtaken || state.items.isEmpty ||
    (state.items.length == 1 && state.owner.isPopping)

def setThief (state : State Task) (number : Nat) (thief : Thief Task) :
    State Task :=
  { state with thieves := state.thieves.set number thief }

def step (state : State Task) : Action Task → Option (State Task)
  | .callPush task =>
      match state.owner with
      | .idle => some { state with owner := .pushing task }
      | _ => none
  | .callPop =>
      match state.owner with
      | .idle => some { state with owner := .popping }
      | _ => none
  | .callSteal number =>
      match state.thieves[number]? with
      | some .idle => some (state.setThief number (.stealing false))
      | _ => none
  | .owner => state.ownerStep
  | .steal number =>
      match state.thieves[number]?, state.items with
      | some (.stealing _), task :: rest =>
          some (setThief { state with
            items := rest
            thieves := state.thieves.map Thief.overtake } number
              (.stole (.taken (some task))))
      | _, _ => none
  | .miss number =>
      match state.thieves[number]? with
      | some (.stealing overtaken) =>
          if state.mayMiss overtaken then
            some (state.setThief number (.stole .refused))
          else none
      | _ => none
  | .ownerReturns =>
      match state.owner with
      | .pushed | .popped _ => some { state with owner := .idle }
      | _ => none
  | .thiefReturns number =>
      match state.thieves[number]? with
      | some (.stole _) => some (state.setThief number .idle)
      | _ => none

end State

def events (state : State Task) : Action Task → List (Event Task)
  | .callPush task => [.pushCalled task]
  | .callPop => [.popCalled]
  | .callSteal number => [.stealCalled number]
  | .ownerReturns =>
      match state.owner with
      | .pushed => [.pushReturned]
      | .popped answer => [.popReturned answer]
      | _ => []
  | .thiefReturns number =>
      match state.thieves[number]? with
      | some (.stole answer) => [.stealReturned number answer]
      | _ => []
  | _ => []

/-- A list that is empty at first, and any number of thieves. -/
def deque (Task : Type) : Machine (State Task) (Action Task) where
  initial state := ∃ thieves,
    state = ⟨[], .idle, List.replicate thieves .idle⟩
  step := State.step

end Atomic

/-! ## What the list is at every moment -/

namespace State

/-- How far the owner's call has come on the list. -/
def OwnerShows (state : State Task) (hand : List Pointer) :
    Owner Task → Atomic.Owner Task → Prop
  | .idle, shown => shown = .idle
  | .pushLoadTop task _, shown => shown = .pushing task
  | .pushLoadBuffer task _ _, shown => shown = .pushing task
  | .growLoad task _ _ _ _, shown => shown = .pushing task
  | .growStore task _ _ _ _ _, shown => shown = .pushing task
  | .put task _ _, shown => shown = .pushing task
  | .pushStoreBottom _, shown =>
      ∃ task, shown = .pushing task ∧ hand.map state.task = [some task]
  | .popLoadBuffer _, shown => shown = .popping
  | .popStoreBottom _ _, shown => shown = .popping
  | .popLoadTop _ _, shown => shown = .popping
  | .popGet b t _, shown =>
      if t = b then shown = .popping
      else ∃ pointer, hand = [pointer] ∧
        shown = .popped (state.answered (some pointer))
  | .popCompareExchange _ _ _, shown => shown = .popping
  | .popRestore _ result, shown => shown = .popped (state.answered result)

/-- A thief that remembers an old value of `top_` has been overtaken. -/
def ThiefShows (top : Int) : Thief → Atomic.Thief Task → Prop
  | .idle, shown => shown = .idle
  | .loadBottom t, shown
  | .loadBuffer t, shown
  | .get t _, shown
  | .compareExchange t _, shown =>
      ∃ overtaken, shown = .stealing overtaken ∧
        (t < top → overtaken = true)

/-- The list holds the tasks of `live`, and every thread is as far as it is. -/
structure Shows (state : State Task) (live hand : List Pointer)
    (shown : Atomic.State Task) : Prop where
  represents : state.Represents live hand
  items : live.map state.task = shown.items.map some
  owner : state.OwnerShows hand state.owner shown.owner
  thieves : List.Forall₂ (ThiefShows state.top) state.thieves shown.thieves

theorem forall₂_set {Left Right : Type} {related : Left → Right → Prop}
    {lefts : List Left} {rights : List Right} {left : Left} {right : Right}
    (both : List.Forall₂ related lefts rights) (index : Nat)
    (isRelated : related left right) :
    List.Forall₂ related (lefts.set index left) (rights.set index right) := by
  induction both generalizing index with
  | nil => exact .nil
  | cons first rest inductionHypothesis =>
      cases index with
      | zero => exact .cons isRelated rest
      | succ index => exact .cons first (inductionHypothesis index)

theorem forall₂_getElem? {Left Right : Type} {related : Left → Right → Prop}
    {lefts : List Left} {rights : List Right} {left : Left} {index : Nat}
    (both : List.Forall₂ related lefts rights)
    (present : lefts[index]? = some left) :
    ∃ right, rights[index]? = some right ∧ related left right := by
  induction both generalizing index with
  | nil => cases present
  | cons first rest inductionHypothesis =>
      cases index with
      | zero =>
          cases present
          exact ⟨_, rfl, first⟩
      | succ index => exact inductionHypothesis present

/-- Whatever `top_` becomes, everyone may be taken to be overtaken. -/
theorem thiefShows_overtake {top later : Int} {thieves : List Thief}
    {shown : List (Atomic.Thief Task)}
    (both : List.Forall₂ (ThiefShows top) thieves shown) :
    List.Forall₂ (ThiefShows later) thieves
      (shown.map Atomic.Thief.overtake) := by
  rw [List.forall₂_map_right_iff]
  refine both.imp fun thief atomic isShown => ?_
  cases thief with
  | idle =>
      cases isShown
      rfl
  | _ =>
      obtain ⟨_, rfl, _⟩ := isShown
      exact ⟨true, rfl, fun _ => rfl⟩

/-- Moves of the list that a step of the deque amounts to. -/
def Matched (shown : Atomic.State Task) (seen : List (Event Task))
    (following : State Task) : Prop :=
  ∃ actions later,
    ((Atomic.deque Task).logged Atomic.events).run (shown, []) actions =
        some (later, seen) ∧
      ∃ live hand, following.Shows live hand later

section Matching

variable {state following : State Task} {live hand : List Pointer}
  {shown : Atomic.State Task}

/-- The list does not move. -/
theorem Matched.stay (shows_ : following.Shows live hand shown) :
    Matched shown [] following :=
  ⟨[], shown, rfl, live, hand, shows_⟩

/-- An access that moves nothing but the owner's program counter and rings. -/
theorem Shows.keep {rings : Nat → RingBuffer} {allocated buffer : Nat}
    {bottom : Int} {owner : Owner Task} (shows_ : state.Shows live hand shown)
    (represents : Represents { state with
      rings, allocated, buffer, bottom, owner } live hand)
    (sameOwner : State.OwnerShows { state with
      rings, allocated, buffer, bottom, owner } hand owner shown.owner) :
    Shows { state with rings, allocated, buffer, bottom, owner } live hand
      shown where
  represents := represents
  items := shows_.items
  owner := sameOwner
  thieves := shows_.thieves

theorem shows_owner (shows_ : state.Shows live hand shown) {owner : Owner Task}
    (atPoint : state.owner = owner) :
    state.OwnerShows hand owner shown.owner := by
  have isShown := shows_.owner
  rwa [atPoint] at isShown

/-- What was pushed earlier keeps its task. -/
theorem task_append {pointer : Pointer} (task : Task)
    (known : pointer ≤ state.pushed.length)
    (pushed : following.pushed = state.pushed ++ [task]) :
    following.task pointer = state.task pointer := by
  unfold State.task
  split
  · rfl
  · rename_i notNull
    rw [pushed, List.getElem?_append_left
      (Nat.sub_one_lt_of_le (Nat.pos_of_ne_zero notNull) known)]

theorem matched_put (shows_ : state.Shows live hand shown) {task : Task}
    {b : Int} {buf : Nat} (atPoint : state.owner = .put task b buf) :
    Matched shown [] { state with
      rings := Function.update state.rings buf
        ((state.rings buf).put b (state.pushed.length + 1))
      pushed := state.pushed ++ [task]
      owner := .pushStoreBottom b } := by
  have calls := shows_owner shows_ atPoint
  refine ⟨[], shown, rfl, live, [state.pushed.length + 1],
    represents_put shows_.represents atPoint, ?_, ⟨task, calls, ?_⟩,
      shows_.thieves⟩
  · rw [← shows_.items]
    refine List.map_congr_left fun pointer member => task_append task ?_ rfl
    exact shows_.represents.mem_le
      (List.mem_append_right _ (List.mem_append_left _ member))
  · simp [State.task]

theorem matched_pushStoreBottom (shows_ : state.Shows live hand shown)
    {b : Int} (atPoint : state.owner = .pushStoreBottom b) :
    Matched shown [.pushReturned]
      { state with bottom := b + 1, owner := .idle } := by
  obtain ⟨task, calls, inHand⟩ := shows_owner shows_ atPoint
  obtain ⟨items, owner, thieves⟩ := shown
  cases calls
  refine ⟨[.owner, .ownerReturns], ⟨items ++ [task], .idle, thieves⟩, rfl,
    live ++ hand, [], ?_⟩
  refine ⟨represents_pushStoreBottom shows_.represents atPoint, ?_, rfl,
    shows_.thieves⟩
  change (live ++ hand).map state.task = _
  rw [List.map_append, List.map_append, inHand, shows_.items]
  rfl

/-- `pop` takes effect on an empty list. -/
theorem matched_popNone (shows_ : state.Shows live hand shown) {b : Int}
    (calls : shown.owner = .popping) (noLive : live = [])
    (represents : Represents { state with owner := .popRestore b none }
      live hand) :
    Matched shown [] { state with owner := .popRestore b none } := by
  obtain ⟨items, owner, thieves⟩ := shown
  cases calls
  have noItems : items = [] := by
    have same := shows_.items
    rw [noLive] at same
    exact List.map_eq_nil_iff.mp same.symm
  subst noItems
  exact ⟨[.owner], ⟨[], .popped .refused, thieves⟩, rfl, live, hand,
    represents, shows_.items, rfl, shows_.thieves⟩

/-- `pop` finds the deque empty. -/
theorem matched_popEmpty (shows_ : state.Shows live hand shown)
    {b : Int} {buf : Nat} (atPoint : state.owner = .popLoadTop b buf)
    (overtaken : state.top > b) :
    Matched shown [] { state with owner := .popRestore b none } := by
  have calls := shows_owner shows_ atPoint
  have represents := represents_popEmpty shows_.represents atPoint overtaken
  obtain ⟨_, _, noLive⟩ := represents.owner
  exact matched_popNone shows_ calls noLive represents

/-- The task at the back, on the list and in the ring. -/
theorem Shows.getLast? (shows_ : state.Shows live hand shown)
    {b : Int} {buf : Nat} (atPoint : state.owner = .popLoadTop b buf)
    (ahead : state.top ≤ b) :
    ∃ task, shown.items.getLast? = some task ∧
      state.task (state.ring.get b) = some task := by
  have represents := shows_.represents
  have agrees := represents.owner
  simp only [OwnerAgrees, atPoint] at agrees
  obtain ⟨rfl, _, _⟩ := agrees
  have same := congrArg List.getLast? shows_.items
  rw [List.getLast?_map, List.getLast?_map,
    represents.getLast?_eq atPoint ahead, Option.map_some] at same
  obtain ⟨task, isLast, found⟩ := Option.map_eq_some_iff.mp same.symm
  exact ⟨task, isLast, found.symm⟩

/-- `pop` takes the back, which is not the front. -/
theorem matched_popClaim (shows_ : state.Shows live hand shown)
    {b : Int} {buf : Nat} (atPoint : state.owner = .popLoadTop b buf)
    (below : state.top < b) :
    Matched shown [] { state with owner := .popGet b state.top buf } := by
  have calls := shows_owner shows_ atPoint
  have represents := represents_popClaim shows_.represents atPoint below
  have length := shows_.represents.length
  simp only [back, atPoint] at length
  obtain ⟨task, isLast, found⟩ := shows_.getLast? atPoint (le_of_lt below)
  have same := shows_.items
  have thieves := shows_.thieves
  obtain ⟨items, owner, shownThieves⟩ := shown
  cases calls
  have many : items.length ≠ 1 := by
    have lengths := congrArg List.length same
    simp only [List.length_map] at lengths
    omega
  refine ⟨[.owner], ⟨items.dropLast, .popped (.taken (some task)),
    shownThieves⟩, ?_, live.dropLast, [state.ring.get b], represents, ?_, ?_,
    thieves⟩
  · dsimp only at isLast
    simp [Machine.run, Machine.logged, Atomic.deque, Atomic.State.step,
      Atomic.State.ownerStep, Atomic.events, listPerform, isLast, many]
  · change live.dropLast.map state.task = _
    rw [List.map_dropLast, same]
    exact List.map_dropLast.symm
  · simp only [OwnerShows, if_neg (ne_of_lt below)]
    refine ⟨_, rfl, ?_⟩
    change _ = Atomic.Owner.popped (.taken (state.task (state.ring.get b)))
    rw [found]

theorem matched_popReturn (shows_ : state.Shows live hand shown)
    {b t : Int} {buf : Nat} (atPoint : state.owner = .popGet b t buf)
    (claimed : t ≠ b) :
    Matched shown
      [.popReturned (state.answered (some ((state.rings buf).get b)))]
      { state with
        popped := state.popped ++ [(state.rings buf).get b]
        owner := .idle } := by
  have represents := represents_popReturn shows_.represents atPoint claimed
  have calls := shows_owner shows_ atPoint
  have agrees := shows_.represents.owner
  simp only [OwnerAgrees, atPoint] at agrees
  obtain ⟨_, rfl, bound, inHand, _⟩ := agrees
  simp only [OwnerShows, if_neg claimed] at calls
  obtain ⟨pointer, isHand, calls⟩ := calls
  have isBack : pointer = state.ring.get b := by
    rw [inHand (lt_of_le_of_ne bound claimed)] at isHand
    exact (List.singleton_inj.mp isHand).symm
  subst isBack
  have same := shows_.items
  have thieves := shows_.thieves
  obtain ⟨items, owner, shownThieves⟩ := shown
  cases calls
  exact ⟨[.ownerReturns], ⟨items, .idle, shownThieves⟩, rfl, live, [],
    represents, same, rfl, thieves⟩

/-- `pop` takes the last task, and with it the front. -/
theorem matched_popWin (shows_ : state.Shows live hand shown)
    {b t : Int} {pointer : Pointer}
    (atPoint : state.owner = .popCompareExchange b t pointer)
    (current : state.top = t) :
    Matched shown [] { state with
      top := t + 1
      owner := .popRestore b (some pointer) } := by
  have represents := represents_popWin shows_.represents atPoint current
  have calls := shows_owner shows_ atPoint
  have agrees := shows_.represents.owner
  simp only [OwnerAgrees, atPoint] at agrees
  obtain ⟨_, _, rfl, _, only⟩ := agrees
  obtain rfl := only current
  have same := shows_.items
  have thieves := shows_.thieves
  obtain ⟨items, owner, shownThieves⟩ := shown
  cases calls
  obtain ⟨task, rfl, found⟩ : ∃ task, items = [task] ∧
      state.task pointer = some task := by
    cases items with
    | nil => cases same
    | cons task rest =>
        simp only [List.map_cons, List.map_nil, List.cons.injEq] at same
        obtain ⟨found, noRest⟩ := same
        rw [List.map_eq_nil_iff.mp noRest.symm]
        exact ⟨task, rfl, found⟩
  refine ⟨[.owner], ⟨[], .popped (.taken (some task)),
    shownThieves.map Atomic.Thief.overtake⟩, rfl, [], [pointer], represents,
    rfl, ?_, thiefShows_overtake thieves⟩
  change _ = Atomic.Owner.popped (.taken (state.task pointer))
  rw [found]

theorem matched_popLose (shows_ : state.Shows live hand shown)
    {b t : Int} {pointer : Pointer}
    (atPoint : state.owner = .popCompareExchange b t pointer)
    (moved : state.top ≠ t) :
    Matched shown [] { state with owner := .popRestore b none } := by
  have represents := represents_popLose shows_.represents atPoint moved
  obtain ⟨_, _, noLive⟩ := represents.owner
  exact matched_popNone shows_ (shows_owner shows_ atPoint) noLive represents

theorem matched_popRestore (shows_ : state.Shows live hand shown)
    {b : Int} {result : Option Pointer}
    (atPoint : state.owner = .popRestore b result) :
    Matched shown [.popReturned (state.answered result)] { state with
      bottom := b + 1
      popped := state.popped ++ result.toList
      owner := .idle } := by
  have represents := represents_popRestore shows_.represents atPoint
  have calls := shows_owner shows_ atPoint
  have same := shows_.items
  have thieves := shows_.thieves
  obtain ⟨items, owner, shownThieves⟩ := shown
  cases calls
  exact ⟨[.ownerReturns], ⟨items, .idle, shownThieves⟩, rfl, live, [],
    represents, same, rfl, thieves⟩

/-- Every access of the owner. -/
theorem matched_owner (shows_ : state.Shows live hand shown)
    (stepped : state.ownerStep = some following) :
    Matched shown (events state .owner) following := by
  have represents := shows_.represents
  unfold ownerStep at stepped
  unfold events
  split at stepped
  case h_1 => cases stepped
  case h_2 task b atPoint =>
    cases stepped
    simp only [atPoint]
    exact .stay (shows_.keep (represents_pushLoadTop represents atPoint)
      (shows_owner shows_ atPoint))
  case h_3 task b t atPoint =>
    simp only [atPoint]
    dsimp only at stepped
    split at stepped
    · cases stepped
      exact .stay (shows_.keep (represents_allocate represents atPoint)
        (shows_owner shows_ atPoint))
    · next hasRoom =>
        cases stepped
        exact .stay (shows_.keep
          (represents_roomFound represents atPoint hasRoom)
          (shows_owner shows_ atPoint))
  case h_4 task b buf grown i atPoint =>
    simp only [atPoint]
    split at stepped
    · next unfinished =>
        cases stepped
        exact .stay (shows_.keep
          (represents_growLoad represents atPoint unfinished)
          (shows_owner shows_ atPoint))
    · next finished =>
        cases stepped
        exact .stay (shows_.keep
          (represents_publish represents atPoint finished)
          (shows_owner shows_ atPoint))
  case h_5 task b buf grown i pointer atPoint =>
    cases stepped
    simp only [atPoint]
    exact .stay (shows_.keep (represents_growStore represents atPoint)
      (shows_owner shows_ atPoint))
  case h_6 task b buf atPoint =>
    cases stepped
    simp only [atPoint]
    exact matched_put shows_ atPoint
  case h_7 b atPoint =>
    cases stepped
    simp only [atPoint]
    exact matched_pushStoreBottom shows_ atPoint
  case h_8 b atPoint =>
    cases stepped
    simp only [atPoint]
    exact .stay (shows_.keep (represents_popLoadBuffer represents atPoint)
      (shows_owner shows_ atPoint))
  case h_9 b buf atPoint =>
    cases stepped
    simp only [atPoint]
    exact .stay (shows_.keep (represents_popStoreBottom represents atPoint)
      (shows_owner shows_ atPoint))
  case h_10 b buf atPoint =>
    simp only [atPoint]
    split at stepped
    · next overtaken =>
        cases stepped
        exact matched_popEmpty shows_ atPoint overtaken
    · next ahead =>
        cases stepped
        rcases lt_or_eq_of_le (not_lt.mp ahead) with below | last
        · exact matched_popClaim shows_ atPoint below
        · refine .stay (shows_.keep
            (represents_popLast represents atPoint last) ?_)
          simp only [OwnerShows, if_pos last]
          exact shows_owner shows_ atPoint
  case h_11 b t buf atPoint =>
    simp only [atPoint]
    dsimp only at stepped
    split at stepped
    · next last =>
        cases stepped
        rw [if_pos last]
        refine .stay (shows_.keep
          (represents_popGetLast represents atPoint last) ?_)
        have calls := shows_owner shows_ atPoint
        rwa [OwnerShows, if_pos last] at calls
    · next claimed =>
        cases stepped
        rw [if_neg claimed]
        exact matched_popReturn shows_ atPoint claimed
  case h_12 b t pointer atPoint =>
    simp only [atPoint]
    split at stepped
    · next current =>
        cases stepped
        exact matched_popWin shows_ atPoint current
    · next moved =>
        cases stepped
        exact matched_popLose shows_ atPoint moved
  case h_13 b result atPoint =>
    cases stepped
    simp only [atPoint]
    exact matched_popRestore shows_ atPoint

theorem Shows.length_eq (shows_ : state.Shows live hand shown) :
    shown.items.length = live.length := by
  have lengths := congrArg List.length shows_.items
  rw [List.length_map, List.length_map] at lengths
  exact lengths.symm

/-- While `bottom_` is not above `top_`, at most the task that a `pop` is after
is left. -/
theorem Shows.few_items (shows_ : state.Shows live hand shown)
    (crossed : state.bottom ≤ state.top) :
    shown.items = [] ∨ shown.items.length = 1 ∧ shown.owner = .popping := by
  have count := shows_.length_eq
  have length := shows_.represents.length
  have agrees := shows_.represents.owner
  have calls := shows_.owner
  have none : live = [] → shown.items = [] := by
    rintro rfl
    exact List.eq_nil_of_length_eq_zero count
  have one (upper : state.back ≤ state.top + 1)
      (popping : shown.owner = .popping) :
      shown.items = [] ∨ shown.items.length = 1 ∧ shown.owner = .popping := by
    rcases Nat.eq_zero_or_pos shown.items.length with empty | positive
    · exact .inl (List.eq_nil_of_length_eq_zero empty)
    · exact .inr ⟨by omega, popping⟩
  unfold OwnerAgrees at agrees
  cases atPoint : state.owner with
  | popLoadTop b buf =>
      simp only [atPoint] at agrees calls
      exact one (by simp only [back, atPoint]; omega) calls
  | popGet b t buf =>
      simp only [atPoint] at agrees calls
      obtain ⟨sameBottom, _, bound, _, _⟩ := agrees
      rcases lt_or_eq_of_le bound with below | last
      · refine .inl (none (shows_.represents.empty ?_))
        simp only [back, atPoint, if_pos below]
        omega
      · simp only [OwnerShows, if_pos last] at calls
        refine one ?_ calls
        simp only [back, atPoint, last, lt_irrefl, if_false]
        omega
  | popCompareExchange b t pointer =>
      simp only [atPoint] at agrees calls
      exact one (by simp only [back, atPoint]; omega) calls
  | popRestore b result =>
      simp only [atPoint] at agrees
      exact .inl (none agrees.2.2)
  | idle | pushLoadTop | pushLoadBuffer | growLoad | growStore | put
  | pushStoreBottom | popLoadBuffer | popStoreBottom =>
      refine .inl (none (shows_.represents.empty ?_))
      simp only [back, atPoint]
      exact crossed

/-- A step that moves a thief, and the same thief of the list. -/
theorem Shows.setThief (shows_ : state.Shows live hand shown) (number : Nat)
    (thief : Thief) (atomic : Atomic.Thief Task)
    (represents : Represents { state with
      thieves := state.thieves.set number thief } live hand)
    (isShown : ThiefShows state.top thief atomic) :
    Shows { state with thieves := state.thieves.set number thief } live hand
      (shown.setThief number atomic) where
  represents := represents
  items := shows_.items
  owner := shows_.owner
  thieves := forall₂_set shows_.thieves number isShown

/-- A call that has taken effect returns. -/
theorem step_thiefReturns (shown : Atomic.State Task) {number : Nat}
    (inside : number < shown.thieves.length) (answer : Answer Task) :
    (shown.setThief number (.stole answer)).step (.thiefReturns number) =
        some (shown.setThief number .idle) ∧
      Atomic.events (shown.setThief number (.stole answer))
        (.thiefReturns number) = [.stealReturned number answer] := by
  have present : (shown.setThief number (.stole answer)).thieves[number]? =
      some (.stole answer) :=
    List.getElem?_set_self inside
  constructor
  · rw [Atomic.State.step, present]
    simp only [Atomic.State.setThief, List.set_set]
  · rw [Atomic.events, present]

/-- `steal` takes effect and returns. -/
theorem Matched.of_steal {number : Nat} {action : Atomic.Action Task}
    {middle : Atomic.State Task} {answer : Answer Task}
    (acts : shown.step action = some (middle.setThief number (.stole answer)))
    (silent : Atomic.events shown action = [])
    (inside : number < middle.thieves.length)
    (shows_ : following.Shows live hand (middle.setThief number .idle)) :
    Matched shown [.stealReturned number answer] following := by
  obtain ⟨returns, seen⟩ := step_thiefReturns middle inside answer
  refine ⟨[action, .thiefReturns number], _, ?_, live, hand, shows_⟩
  simp only [Machine.run, Machine.logged, Atomic.deque, acts, silent, returns,
    seen, Option.map_some, Option.bind_some, List.nil_append]

/-- A thief that gives up has a reason to. -/
theorem matched_miss (shows_ : state.Shows live hand shown) {number : Nat}
    {overtaken : Bool}
    (shownThief : shown.thieves[number]? = some (.stealing overtaken))
    (mayMiss : shown.mayMiss overtaken = true) :
    Matched shown [.stealReturned number .refused]
      { state with thieves := state.thieves.set number .idle } := by
  have acts : shown.step (.miss number) =
      some (shown.setThief number (.stole .refused)) := by
    rw [Atomic.State.step, shownThief]
    exact if_pos mayMiss
  exact .of_steal acts rfl (List.getElem?_eq_some_iff.mp shownThief).1
    (shows_.setThief number .idle .idle
      (shows_.represents.setThief number trivial) rfl)

/-- A compare-exchange that finds `top_` unchanged takes the front. -/
theorem matched_steal (shows_ : state.Shows live hand shown) {number : Nat}
    {pointer : Pointer} {overtaken : Bool}
    (shownThief : shown.thieves[number]? = some (.stealing overtaken))
    (front : live.head? = some pointer) :
    Matched shown [.stealReturned number (state.answered (some pointer))]
      { state with
        top := state.top + 1
        stolen := state.stolen ++ [pointer]
        thieves := state.thieves.set number .idle } := by
  have represents := represents_steal shows_.represents number front
  have same := shows_.items
  have thieves := shows_.thieves
  have calls := shows_.owner
  obtain ⟨items, owner, shownThieves⟩ := shown
  obtain ⟨rest, rfl⟩ : ∃ rest, live = pointer :: rest :=
    ⟨live.tail, List.eq_cons_of_mem_head? front⟩
  cases items with
  | nil => cases same
  | cons task others =>
      simp only [List.map_cons, List.cons.injEq] at same
      obtain ⟨found, sameRest⟩ := same
      let middle : Atomic.State Task :=
        ⟨others, owner, shownThieves.map Atomic.Thief.overtake⟩
      have acts : Atomic.State.step ⟨task :: others, owner, shownThieves⟩
          (.steal number) = some (middle.setThief number
            (.stole (.taken (some task)))) := by
        dsimp only at shownThief
        rw [Atomic.State.step, shownThief]
      have inside : number < middle.thieves.length := by
        rw [List.length_map]
        exact (List.getElem?_eq_some_iff.mp shownThief).1
      rw [answered, found]
      exact .of_steal acts rfl inside ⟨represents, sameRest, calls,
        forall₂_set (thiefShows_overtake thieves) number rfl⟩

/-- Every access of a thief. -/
theorem matched_thief (shows_ : state.Shows live hand shown) {number : Nat}
    {thief : Thief} (present : state.thieves[number]? = some thief) :
    Matched shown (events state (.thief number))
      { (state.thiefStep thief).1 with
        thieves := state.thieves.set number (state.thiefStep thief).2 } := by
  have agrees :=
    shows_.represents.thieves thief (List.mem_of_getElem? present)
  obtain ⟨atomic, shownThief, isShown⟩ :=
    forall₂_getElem? shows_.thieves present
  -- the list's thief stays where it is
  have stays {next : Thief} (represents : Represents { state with
        thieves := state.thieves.set number next } live hand)
      (stillShown : ThiefShows state.top next atomic) :
      Matched shown [] { state with
        thieves := state.thieves.set number next } := by
    have moved := shows_.setThief number next atomic represents stillShown
    have same : shown.setThief number atomic = shown := by
      obtain ⟨inside, rfl⟩ := List.getElem?_eq_some_iff.mp shownThief
      simp only [Atomic.State.setThief, List.set_getElem_self]
    rw [same] at moved
    exact .stay moved
  cases thief with
  | idle =>
      cases isShown
      have called := shows_.setThief number (.loadBottom state.top)
        (.stealing false)
        (shows_.represents.setThief number (le_refl state.top))
        ⟨false, rfl, fun later => absurd later (lt_irrefl _)⟩
      refine ⟨[.callSteal number], _, ?_, live, hand, called⟩
      simp only [Machine.run, Machine.logged, Atomic.deque,
        Atomic.State.step, Atomic.events, events, shownThief, present,
        Option.map_some, Option.bind_some, List.nil_append]
  | loadBottom t =>
      obtain ⟨overtaken, rfl, wasOvertaken⟩ := isShown
      simp only [events, present, thiefStep]
      split
      · next crossed =>
          refine matched_miss shows_ shownThief ?_
          rcases lt_or_eq_of_le agrees with earlier | current
          · rw [Atomic.State.mayMiss, wasOvertaken earlier]
            rfl
          · rcases shows_.few_items (by omega) with noItems | ⟨one, popping⟩
            · simp [Atomic.State.mayMiss, noItems]
            · simp [Atomic.State.mayMiss, one, popping,
                Atomic.Owner.isPopping]
      · next below =>
          refine stays (shows_.represents.setThief number ⟨agrees, ?_⟩)
            ⟨overtaken, rfl, wasOvertaken⟩
          intro current
          have backBound := shows_.represents.bottom_le_back
          exact shows_.represents.back_nonempty (by omega)
  | loadBuffer t =>
      obtain ⟨bound, nonempty⟩ := agrees
      simp only [events, present, thiefStep]
      refine stays (shows_.represents.setThief number
        ⟨bound, le_refl _, ?_⟩) isShown
      intro current
      rw [current]
      exact shows_.represents.front (nonempty current)
  | get t buf =>
      obtain ⟨bound, _, content⟩ := agrees
      simp only [events, present, thiefStep]
      exact stays (shows_.represents.setThief number ⟨bound, content⟩) isShown
  | compareExchange t pointer =>
      obtain ⟨bound, content⟩ := agrees
      obtain ⟨overtaken, rfl, wasOvertaken⟩ := isShown
      simp only [events, present, thiefStep]
      split
      · next current =>
          subst current
          exact matched_steal shows_ shownThief (content rfl)
      · next moved =>
          refine matched_miss shows_ shownThief ?_
          rw [Atomic.State.mayMiss, wasOvertaken (by omega)]
          rfl

theorem matched_step {action : Action Task}
    (shows_ : state.Shows live hand shown)
    (stepped : state.step action = some following) :
    Matched shown (events state action) following := by
  cases action with
  | push task =>
      simp only [step] at stepped
      split at stepped
      · next isIdle =>
          cases stepped
          have represents := represents_push shows_.represents task isIdle
          have calls := shows_owner shows_ isIdle
          have same := shows_.items
          have thieves := shows_.thieves
          obtain ⟨items, owner, shownThieves⟩ := shown
          cases calls
          exact ⟨[.callPush task], ⟨items, .pushing task, shownThieves⟩, rfl,
            live, hand, represents, same, rfl, thieves⟩
      · cases stepped
  | pop =>
      simp only [step] at stepped
      split at stepped
      · next isIdle =>
          cases stepped
          have represents := represents_pop shows_.represents isIdle
          have calls := shows_owner shows_ isIdle
          have same := shows_.items
          have thieves := shows_.thieves
          obtain ⟨items, owner, shownThieves⟩ := shown
          cases calls
          exact ⟨[.callPop], ⟨items, .popping, shownThieves⟩, rfl, live, hand,
            represents, same, rfl, thieves⟩
      · cases stepped
  | owner => exact matched_owner shows_ stepped
  | thief number =>
      simp only [step] at stepped
      split at stepped
      · next thief present =>
          cases stepped
          exact matched_thief shows_ present
      · cases stepped

end Matching

theorem shows_create (capacity thieves : Nat) :
    Shows (State.create capacity thieves : State Task) [] []
      ⟨[], .idle, List.replicate thieves .idle⟩ where
  represents := represents_create capacity thieves
  items := rfl
  owner := rfl
  thieves := by
    simp only [State.create]
    induction thieves with
    | zero => exact .nil
    | succ thieves inductionHypothesis =>
        exact .cons rfl inductionHypothesis

end State

/-- What callers see of a run, in which accesses of the owner and of any number
of thieves interleave, they can also see of a list under a lock; and between
two calls of the owner the list holds just the stored tasks. -/
theorem chase_lev_linearizable (state : State Task) (seen : List (Event Task))
    (reached : ((machine Task).logged events).Reachable (state, seen)) :
    ∃ shown : Atomic.State Task,
      ((Atomic.deque Task).logged Atomic.events).Reachable (shown, seen) ∧
      (state.owner = .idle →
        state.stored.map state.task = shown.items.map some) := by
  let Related (state : State Task) (shown : Atomic.State Task) : Prop :=
    ∃ live hand, state.Shows live hand shown
  obtain ⟨shown, matched, live, hand, shows_⟩ :=
    Machine.Reachable.logged_simulated Related
      (by
        rintro _ ⟨capacity, thieves, rfl⟩
        exact ⟨_, ⟨thieves, rfl⟩, [], [], State.shows_create capacity thieves⟩)
      (fun state shown action following ⟨live, hand, shows_⟩ stepped =>
        State.matched_step shows_ stepped)
      reached
  refine ⟨shown, matched, fun isIdle => ?_⟩
  rw [shows_.represents.stored_eq isIdle]
  exact shows_.items

theorem chase_lev_linearizable_steal_during_growth :
    ∃ shown : Atomic.State Unit,
      ((Atomic.deque Unit).logged Atomic.events).Reachable (shown,
        [.pushCalled (), .pushReturned, .stealCalled 0, .pushCalled (),
          .pushReturned, .stealReturned 0 (.taken (some ()))]) := by
  have seen : (((machine Unit).logged events).run (State.create 1 1, [])
      stealDuringGrowth).map Prod.snd = some
        [.pushCalled (), .pushReturned, .stealCalled 0, .pushCalled (),
          .pushReturned, .stealReturned 0 (.taken (some ()))] := by
    decide
  obtain ⟨⟨state, _⟩, ran, rfl⟩ := Option.map_eq_some_iff.mp seen
  obtain ⟨shown, matched, _⟩ := chase_lev_linearizable state _
    (Machine.reachable_of_run stealDuringGrowth ⟨⟨1, 1, rfl⟩, rfl⟩ ran)
  exact ⟨shown, matched⟩

end HydraRT.ChaseLev
