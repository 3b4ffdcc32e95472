import HydraRT.Lib.Transition

/-!
# Futures and their continuations

`Future::set`, `Future::then` and `Future::get` on one future, by any number of
threads, one access of `mutex_`, `ready_`, `value_` or `continuations_` a step.
`set` is called once, as the task of `spawn` does.  A callback is named by the
number of the `then` call it was passed to.  Callbacks run outside the mutex;
what they do themselves, calls on the same future included, are further steps
of this machine.
-/

namespace HydraRT.Future

open HydraRT.Lib

/-- Where the call of `set` stands. -/
inductive SetCall where
  | notCalled
  /-- Holds `mutex_`. -/
  | locked
  /-- Has assigned `value_`. -/
  | stored
  /-- Has stored `ready_`. -/
  | published
  /-- Has taken the continuations out and released `mutex_`; those of `toRun`
  are still to be called. -/
  | running (toRun : List Nat)
  | returned
  deriving DecidableEq, Repr

/-- Where a call of `then` stands. -/
inductive ThenCall where
  | entering
  /-- Holds `mutex_`. -/
  | locked
  /-- Has read that `ready_` is false, and still holds `mutex_`. -/
  | unresolved
  /-- Has read that `ready_` is true and released `mutex_`. -/
  | resolved
  | returned
  deriving DecidableEq, Repr

/-- Where a call of `get` stands. -/
inductive GetCall (Value : Type) where
  /-- In the loop, helping or yielding. -/
  | waiting
  /-- Has read that `ready_` is true. -/
  | resolved
  /-- Holds `mutex_`. -/
  | locked
  | returned (value : Value)
  deriving DecidableEq, Repr

inductive Event (Value : Type) where
  /-- `set` has assigned `value_`. -/
  | stored (value : Value)
  /-- The callback has been called with the value. -/
  | invoked (callback : Nat) (value : Value)
  deriving DecidableEq, Repr

/-- The future, the calls on it, and what has happened so far. -/
structure State (Value : Type) where
  value : Value
  ready : Bool := false
  continuations : List Nat := []
  setter : SetCall := .notCalled
  thens : List ThenCall := []
  gets : List (GetCall Value) := []
  history : List (Event Value) := []
  deriving DecidableEq, Repr

inductive Action where
  /-- The next access of `set`. -/
  | moveSet
  /-- Some thread calls `then`. -/
  | callThen
  /-- The next access of a call of `then`. -/
  | moveThen (call : Nat)
  /-- Some thread calls `get`. -/
  | callGet
  /-- The next access of a call of `get`. -/
  | moveGet (call : Nat)
  deriving DecidableEq, Repr

def SetCall.holdsMutex : SetCall → Bool
  | .locked | .stored | .published => true
  | .notCalled | .running _ | .returned => false

def ThenCall.holdsMutex : ThenCall → Bool
  | .locked | .unresolved => true
  | .entering | .resolved | .returned => false

def GetCall.holdsMutex {Value : Type} : GetCall Value → Bool
  | .locked => true
  | .waiting | .resolved | .returned _ => false

namespace State

variable {Value : Type}

def mutexFree (state : State Value) : Bool :=
  !state.setter.holdsMutex &&
    state.thens.all (fun call => !call.holdsMutex) &&
    state.gets.all fun call => !call.holdsMutex

/-- One access of the call `set(given)`. -/
def moveSet (given : Value) (state : State Value) : Option (State Value) :=
  match state.setter with
  | .notCalled =>
      if state.mutexFree then some { state with setter := .locked } else none
  | .locked =>
      some { state with
        value := given
        setter := .stored
        history := state.history ++ [.stored given] }
  | .stored => some { state with ready := true, setter := .published }
  | .published =>
      some { state with
        setter := .running state.continuations
        continuations := [] }
  | .running [] => some { state with setter := .returned }
  | .running (callback :: rest) =>
      some { state with
        setter := .running rest
        history := state.history ++ [.invoked callback state.value] }
  | .returned => none

/-- One access of a call of `then`. -/
def moveThen (call : Nat) (state : State Value) : Option (State Value) :=
  match state.thens[call]? with
  | some .entering =>
      if state.mutexFree then
        some { state with thens := state.thens.set call .locked }
      else none
  | some .locked =>
      some { state with
        thens := state.thens.set call
          (if state.ready then .resolved else .unresolved) }
  | some .unresolved =>
      some { state with
        continuations := state.continuations ++ [call]
        thens := state.thens.set call .returned }
  | some .resolved =>
      some { state with
        thens := state.thens.set call .returned
        history := state.history ++ [.invoked call state.value] }
  | some .returned => none
  | none => none

/-- One access of a call of `get`. -/
def moveGet (call : Nat) (state : State Value) : Option (State Value) :=
  match state.gets[call]? with
  | some .waiting =>
      some { state with
        gets := state.gets.set call
          (if state.ready then .resolved else .waiting) }
  | some .resolved =>
      if state.mutexFree then
        some { state with gets := state.gets.set call .locked }
      else none
  | some .locked =>
      some { state with
        gets := state.gets.set call (.returned state.value) }
  | some (.returned _) => none
  | none => none

def step (given : Value) (state : State Value) :
    Action → Option (State Value)
  | .moveSet => state.moveSet given
  | .callThen => some { state with thens := state.thens ++ [.entering] }
  | .moveThen call => state.moveThen call
  | .callGet => some { state with gets := state.gets ++ [.waiting] }
  | .moveGet call => state.moveGet call

end State

/-- A fresh future, with `value_` default-constructed, that is going to be set
to `given`. -/
def machine {Value : Type} (default given : Value) :
    Machine (State Value) Action where
  initial state := state = { value := default }
  step := State.step given

/-! ## Where a callback is -/

def Event.invokes {Value : Type} (callback : Nat) : Event Value → Bool
  | .stored _ => false
  | .invoked other _ => other == callback

/-- The callbacks that `set` still has to call. -/
def SetCall.toRun : SetCall → List Nat
  | .running toRun => toRun
  | _ => []

/-- The callback is still with its call of `then`. -/
def ThenCall.carries : ThenCall → Nat
  | .returned => 0
  | _ => 1

namespace State

variable {Value : Type}

/-- How often a callback has been called. -/
def invocations (state : State Value) (callback : Nat) : Nat :=
  state.history.countP (Event.invokes callback)

/-- The callback counted wherever it can be. -/
def places (state : State Value) (callback : Nat) : Nat :=
  state.invocations callback + state.continuations.count callback +
    state.setter.toRun.count callback +
    (state.thens[callback]?).elim 0 ThenCall.carries

end State

/-- `set` has assigned the value. -/
def SetCall.hasStored : SetCall → Bool
  | .notCalled | .locked => false
  | _ => true

/-- `set` has stored `ready_`. -/
def SetCall.hasPublished : SetCall → Bool
  | .notCalled | .locked | .stored => false
  | _ => true

/-- `set` has taken the continuations out. -/
def SetCall.hasSwapped : SetCall → Bool
  | .running _ | .returned => true
  | _ => false

/-- Callbacks get the value that was set, after it was assigned. -/
def Ordered {Value : Type} (given : Value) (history : List (Event Value)) :
    Prop :=
  ∀ before callback value after,
    history = before ++ .invoked callback value :: after →
      value = given ∧ .stored given ∈ before

/-- What the mutex protects, and where the callbacks are. -/
structure Sound {Value : Type} (given : Value) (state : State Value) :
    Prop where
  exclusive : state.setter.holdsMutex = true →
    ∀ call ∈ state.thens, call.holdsMutex = false
  published : state.ready = state.setter.hasPublished
  valued : state.setter.hasStored = true →
    state.value = given ∧ .stored given ∈ state.history
  swept : state.setter.hasSwapped = true → state.continuations = []
  unresolved : .unresolved ∈ state.thens → state.ready = false
  resolved : .resolved ∈ state.thens → state.ready = true
  places : ∀ callback, state.places callback =
    if callback < state.thens.length then 1 else 0
  ordered : Ordered given state.history
  gotten : ∀ call ∈ state.gets, (call = .waiting ∨ state.ready = true) ∧
    ∀ value, call = .returned value → value = given

/-! ## Single facts -/

theorem Ordered.append {Value : Type} {given : Value}
    {history : List (Event Value)} (ordered : Ordered given history)
    {event : Event Value}
    (last : ∀ callback value, event = .invoked callback value →
      value = given ∧ .stored given ∈ history) :
    Ordered given (history ++ [event]) := by
  intro before callback value after parts
  rcases List.eq_nil_or_concat after with rfl | ⟨earlier, final, rfl⟩
  · obtain ⟨rfl, sameEvent⟩ := List.append_inj' parts rfl
    exact last callback value (List.singleton_inj.mp sameEvent)
  · rw [List.concat_eq_append, ← List.cons_append,
      ← List.append_assoc] at parts
    exact ordered before callback value earlier (List.append_inj' parts rfl).1

theorem countP_invokes {Value : Type} (history : List (Event Value))
    (callback other : Nat) (value : Value) :
    (history ++ [Event.invoked callback value]).countP (Event.invokes other) =
      history.countP (Event.invokes other) +
        if callback = other then 1 else 0 := by
  rw [List.countP_append]
  by_cases same : callback = other
  · simp [Event.invokes, same]
  · simp [Event.invokes, same]

theorem carries_set {thens : List ThenCall} {call : Nat}
    {current : ThenCall} (present : thens[call]? = some current)
    (next : ThenCall) (callback : Nat) :
    ((thens.set call next)[callback]?).elim 0 ThenCall.carries =
      if callback = call then next.carries
      else (thens[callback]?).elim 0 ThenCall.carries := by
  obtain ⟨inside, _⟩ := List.getElem?_eq_some_iff.mp present
  by_cases same : callback = call
  · subst same
    rw [if_pos rfl, List.getElem?_set_self inside]
    rfl
  · rw [if_neg same, List.getElem?_set_ne (Ne.symm same)]

theorem carries_append (thens : List ThenCall) (callback : Nat) :
    ((thens ++ [.entering])[callback]?).elim 0 ThenCall.carries =
      if callback = thens.length then 1
      else (thens[callback]?).elim 0 ThenCall.carries := by
  rw [List.getElem?_append]
  by_cases before : callback < thens.length
  · rw [if_pos before, if_neg (by omega)]
  · rw [if_neg before, List.getElem?_eq_none (not_lt.mp before)]
    by_cases last : callback = thens.length
    · rw [if_pos last, last, Nat.sub_self]
      rfl
    · rw [if_neg last, List.getElem?_eq_none]
      rw [List.length_singleton]
      omega

theorem State.setter_of_mutexFree {Value : Type} {state : State Value}
    (free : state.mutexFree = true) : state.setter.holdsMutex = false := by
  simp only [State.mutexFree, Bool.and_eq_true, Bool.not_eq_true'] at free
  exact free.1.1

theorem State.thens_of_mutexFree {Value : Type} {state : State Value}
    (free : state.mutexFree = true) :
    ∀ call ∈ state.thens, call.holdsMutex = false := by
  simp only [State.mutexFree, Bool.and_eq_true, Bool.not_eq_true',
    List.all_eq_true] at free
  exact free.1.2

/-! ## Steps -/

section Steps

variable {Value : Type} {given : Value} {state following : State Value}

theorem sound_callThen (sound : Sound given state) :
    Sound given { state with thens := state.thens ++ [.entering] } := by
  refine ⟨?_, sound.published, sound.valued, sound.swept, ?_, ?_, ?_,
    sound.ordered, sound.gotten⟩
  · intro holds call member
    rcases List.mem_append.mp member with known | new
    · exact sound.exclusive holds call known
    · rw [List.mem_singleton.mp new]
      rfl
  · intro member
    apply sound.unresolved
    simpa using member
  · intro member
    apply sound.resolved
    simpa using member
  · intro callback
    have known := sound.places callback
    unfold State.places State.invocations at known ⊢
    dsimp only
    rw [carries_append, List.length_append, List.length_singleton]
    by_cases last : callback = state.thens.length
    · subst last
      rw [List.getElem?_eq_none le_rfl] at known
      rw [if_pos rfl, if_pos (Nat.lt_succ_self _)]
      rw [if_neg (lt_irrefl _)] at known
      simp only [Option.elim_none] at known
      omega
    · rw [if_neg last, known]
      by_cases before : callback < state.thens.length
      · rw [if_pos before, if_pos (by omega)]
      · rw [if_neg before, if_neg (by omega)]

/-- A callback counted after a call of `then` has moved. -/
theorem places_set (sound : Sound given state) {call : Nat}
    {current : ThenCall} (present : state.thens[call]? = some current)
    (next : ThenCall) (callback : Nat) :
    state.invocations callback + state.continuations.count callback +
        state.setter.toRun.count callback +
        ((state.thens.set call next)[callback]?).elim 0 ThenCall.carries +
        (if callback = call then current.carries else 0) =
      (if callback < (state.thens.set call next).length then 1 else 0) +
        (if callback = call then next.carries else 0) := by
  have known := sound.places callback
  rw [State.places] at known
  rw [carries_set present, List.length_set]
  by_cases same : callback = call
  · subst same
    rw [present, Option.elim_some] at known
    rw [if_pos rfl, if_pos rfl, if_pos rfl]
    omega
  · rw [if_neg same, if_neg same, if_neg same]
    omega

/-- Only the position of a call of `then` changes. -/
theorem sound_setThen (sound : Sound given state) {call : Nat}
    {current next : ThenCall} (present : state.thens[call]? = some current)
    (keeps : next.carries = current.carries)
    (holds : next.holdsMutex = true → state.setter.holdsMutex = false)
    (sawFalse : next = .unresolved → state.ready = false)
    (sawTrue : next = .resolved → state.ready = true) :
    Sound given { state with thens := state.thens.set call next } := by
  refine ⟨?_, sound.published, sound.valued, sound.swept, ?_, ?_, ?_,
    sound.ordered, sound.gotten⟩
  · intro setterHolds other member
    rcases List.mem_or_eq_of_mem_set member with known | rfl
    · exact sound.exclusive setterHolds other known
    · by_contra nextHolds
      rw [holds (Bool.eq_true_of_not_eq_false nextHolds)] at setterHolds
      cases setterHolds
  · intro member
    rcases List.mem_or_eq_of_mem_set member with known | isNext
    · exact sound.unresolved known
    · exact sawFalse isNext.symm
  · intro member
    rcases List.mem_or_eq_of_mem_set member with known | isNext
    · exact sound.resolved known
    · exact sawTrue isNext.symm
  · intro callback
    have counted := places_set sound present next callback
    rw [keeps] at counted
    exact Nat.add_right_cancel counted

/-- A call that holds the mutex keeps `set` out. -/
theorem setter_of_locked (sound : Sound given state) {call : Nat}
    {current : ThenCall} (present : state.thens[call]? = some current)
    (holds : current.holdsMutex = true) :
    state.setter.holdsMutex = false := by
  by_contra setterHolds
  have excluded := sound.exclusive (Bool.eq_true_of_not_eq_false setterHolds)
    current (List.mem_of_getElem? present)
  rw [holds] at excluded
  cases excluded

theorem hasPublished_of_hasSwapped {setter : SetCall}
    (swapped : setter.hasSwapped = true) : setter.hasPublished = true := by
  cases setter with
  | running toRun => rfl
  | returned => rfl
  | notCalled | locked | stored | published => cases swapped

theorem hasStored_of_hasPublished {setter : SetCall}
    (published : setter.hasPublished = true) : setter.hasStored = true := by
  cases setter with
  | published | running toRun | returned => rfl
  | notCalled | locked | stored => cases published

theorem sound_push (sound : Sound given state) {call : Nat}
    (present : state.thens[call]? = some .unresolved) :
    Sound given { state with
      continuations := state.continuations ++ [call]
      thens := state.thens.set call .returned } := by
  have notReady := sound.unresolved (List.mem_of_getElem? present)
  refine ⟨?_, sound.published, sound.valued, ?_, ?_, ?_, ?_, sound.ordered,
    sound.gotten⟩
  · intro setterHolds
    rw [setter_of_locked sound present rfl] at setterHolds
    cases setterHolds
  · intro swapped
    rw [sound.published, hasPublished_of_hasSwapped swapped] at notReady
    cases notReady
  · intro _
    exact notReady
  · intro member
    rcases List.mem_or_eq_of_mem_set member with known | isNext
    · exact sound.resolved known
    · cases isNext
  · intro callback
    have counted := places_set sound present .returned callback
    unfold State.places State.invocations at *
    dsimp only at counted ⊢
    rw [List.count_append, List.count_singleton]
    by_cases same : callback = call
    · subst same
      rw [if_pos rfl, if_pos rfl] at counted
      rw [beq_self_eq_true, if_pos rfl]
      simp only [ThenCall.carries] at counted ⊢
      omega
    · have different : (call == callback) = false :=
        beq_eq_false_iff_ne.mpr (Ne.symm same)
      rw [if_neg same, if_neg same] at counted
      rw [different, if_neg Bool.false_ne_true]
      exact counted

theorem sound_runNow (sound : Sound given state) {call : Nat}
    (present : state.thens[call]? = some .resolved) :
    Sound given { state with
      thens := state.thens.set call .returned
      history := state.history ++ [.invoked call state.value] } := by
  have ready := sound.resolved (List.mem_of_getElem? present)
  obtain ⟨value, stored⟩ := sound.valued
    (hasStored_of_hasPublished (sound.published ▸ ready))
  refine ⟨?_, sound.published, ?_, sound.swept, ?_, ?_, ?_, ?_,
    sound.gotten⟩
  · intro setterHolds other member
    rcases List.mem_or_eq_of_mem_set member with known | rfl
    · exact sound.exclusive setterHolds other known
    · rfl
  · intro hasStored
    exact ⟨value, List.mem_append_left _ stored⟩
  · intro member
    rcases List.mem_or_eq_of_mem_set member with known | isNext
    · exact sound.unresolved known
    · cases isNext
  · intro _
    exact ready
  · intro callback
    have counted := places_set sound present .returned callback
    unfold State.places State.invocations at *
    dsimp only at counted ⊢
    rw [countP_invokes]
    by_cases same : callback = call
    · subst same
      rw [if_pos rfl, if_pos rfl] at counted
      rw [if_pos rfl]
      simp only [ThenCall.carries] at counted ⊢
      omega
    · rw [if_neg same, if_neg same] at counted
      rw [if_neg (Ne.symm same)]
      exact counted
  · apply sound.ordered.append
    intro callback other isEvent
    cases isEvent
    exact ⟨value, stored⟩

/-- A call of `then` moves on. -/
theorem sound_moveThen (sound : Sound given state) {call : Nat}
    (moved : state.moveThen call = some following) :
    Sound given following := by
  rw [State.moveThen] at moved
  cases present : state.thens[call]? with
  | none =>
      rw [present] at moved
      cases moved
  | some current =>
      rw [present] at moved
      cases current with
      | entering =>
          obtain ⟨free, isNext⟩ := Option.ite_none_right_eq_some.mp moved
          cases isNext
          refine sound_setThen sound present ?_ ?_ ?_ ?_
          · rfl
          · intro _
            exact State.setter_of_mutexFree free
          · intro impossible
            cases impossible
          · intro impossible
            cases impossible
      | locked =>
          cases moved
          have outside := setter_of_locked sound present rfl
          refine sound_setThen sound present ?_ ?_ ?_ ?_
          · cases state.ready with
            | true => rfl
            | false => rfl
          · intro _
            exact outside
          · intro saw
            cases ready : state.ready with
            | true =>
                rw [ready] at saw
                cases saw
            | false => rfl
          · intro saw
            cases ready : state.ready with
            | true => rfl
            | false =>
                rw [ready] at saw
                cases saw
      | unresolved =>
          cases moved
          exact sound_push sound present
      | resolved =>
          cases moved
          exact sound_runNow sound present
      | returned =>
          cases moved

theorem sound_lock (sound : Sound given state)
    (notCalled : state.setter = .notCalled) (free : state.mutexFree = true) :
    Sound given { state with setter := .locked } := by
  have outside := State.thens_of_mutexFree free
  refine ⟨fun _ => outside, ?_, ?_, ?_,
    sound.unresolved, sound.resolved, ?_, sound.ordered, sound.gotten⟩
  · rw [sound.published, notCalled]
    rfl
  · intro impossible
    cases impossible
  · intro impossible
    cases impossible
  · intro callback
    have counted := sound.places callback
    rw [State.places, notCalled] at counted
    exact counted

theorem sound_store (sound : Sound given state)
    (locked : state.setter = .locked) :
    Sound given { state with
      value := given
      setter := .stored
      history := state.history ++ [.stored given] } := by
  refine ⟨?_, ?_, ?_, ?_, sound.unresolved, sound.resolved, ?_, ?_,
    sound.gotten⟩
  · intro _
    exact sound.exclusive (by rw [locked]; rfl)
  · rw [sound.published, locked]
    rfl
  · intro _
    exact ⟨rfl, List.mem_append_right _ (List.mem_singleton_self _)⟩
  · intro impossible
    cases impossible
  · intro callback
    have counted := sound.places callback
    rw [State.places, State.invocations, locked] at counted
    rw [State.places, State.invocations, List.countP_append]
    exact counted
  · apply sound.ordered.append
    intro callback value impossible
    cases impossible

/-- Nobody who has read that `ready_` is false is left when it is stored. -/
theorem sound_publish (sound : Sound given state)
    (stored : state.setter = .stored) :
    Sound given { state with ready := true, setter := .published } := by
  have exclusive := sound.exclusive (by rw [stored]; rfl)
  refine ⟨fun _ => exclusive, rfl, ?_, ?_, ?_, fun _ => rfl, ?_,
    sound.ordered, ?_⟩
  · intro _
    exact sound.valued (by rw [stored]; rfl)
  · intro impossible
    cases impossible
  · intro member
    cases exclusive _ member
  · intro callback
    have counted := sound.places callback
    rw [State.places, stored] at counted
    exact counted
  · intro call member
    exact ⟨Or.inr rfl, (sound.gotten call member).2⟩

theorem sound_swap (sound : Sound given state)
    (published : state.setter = .published) :
    Sound given { state with
      setter := .running state.continuations
      continuations := [] } := by
  refine ⟨?_, ?_, ?_, fun _ => rfl, sound.unresolved, sound.resolved, ?_,
    sound.ordered, sound.gotten⟩
  · intro impossible
    cases impossible
  · rw [sound.published, published]
    rfl
  · intro _
    exact sound.valued (by rw [published]; rfl)
  · intro callback
    have counted := sound.places callback
    rw [State.places, published] at counted
    simp only [State.places, State.invocations, SetCall.toRun,
      List.count_nil] at counted ⊢
    omega

theorem sound_runNext (sound : Sound given state) {callback : Nat}
    {rest : List Nat} (running : state.setter = .running (callback :: rest)) :
    Sound given { state with
      setter := .running rest
      history := state.history ++ [.invoked callback state.value] } := by
  obtain ⟨value, stored⟩ := sound.valued (by rw [running]; rfl)
  refine ⟨?_, ?_, ?_, ?_, sound.unresolved, sound.resolved, ?_, ?_,
    sound.gotten⟩
  · intro impossible
    cases impossible
  · rw [sound.published, running]
    rfl
  · intro _
    exact ⟨value, List.mem_append_left _ stored⟩
  · intro _
    exact sound.swept (by rw [running]; rfl)
  · intro other
    have counted := sound.places other
    rw [State.places, running] at counted
    simp only [State.places, State.invocations, SetCall.toRun,
      List.count_cons, countP_invokes, beq_iff_eq] at counted ⊢
    omega
  · apply sound.ordered.append
    intro other passed isEvent
    cases isEvent
    exact ⟨value, stored⟩

theorem sound_return (sound : Sound given state)
    (running : state.setter = .running []) :
    Sound given { state with setter := .returned } := by
  refine ⟨?_, ?_, ?_, ?_, sound.unresolved, sound.resolved, ?_,
    sound.ordered, sound.gotten⟩
  · intro impossible
    cases impossible
  · rw [sound.published, running]
    rfl
  · intro _
    exact sound.valued (by rw [running]; rfl)
  · intro _
    exact sound.swept (by rw [running]; rfl)
  · intro callback
    have counted := sound.places callback
    rw [State.places, running] at counted
    exact counted

/-- The call of `set` moves on. -/
theorem sound_moveSet (sound : Sound given state)
    (moved : state.moveSet given = some following) :
    Sound given following := by
  rw [State.moveSet] at moved
  cases standing : state.setter with
  | notCalled =>
      rw [standing] at moved
      obtain ⟨free, isNext⟩ := Option.ite_none_right_eq_some.mp moved
      cases isNext
      exact sound_lock sound standing free
  | locked =>
      rw [standing] at moved
      cases moved
      exact sound_store sound standing
  | stored =>
      rw [standing] at moved
      cases moved
      exact sound_publish sound standing
  | published =>
      rw [standing] at moved
      cases moved
      exact sound_swap sound standing
  | running toRun =>
      rw [standing] at moved
      cases toRun with
      | nil =>
          cases moved
          exact sound_return sound standing
      | cons callback rest =>
          cases moved
          exact sound_runNext sound standing
  | returned =>
      rw [standing] at moved
      cases moved

/-- A call of `get` moves on. -/
theorem sound_moveGet (sound : Sound given state) {call : Nat}
    (moved : state.moveGet call = some following) :
    Sound given following := by
  have setGet : ∀ next : GetCall Value,
      (next = .waiting ∨ state.ready = true) →
      (∀ value, next = .returned value → value = given) →
      Sound given { state with gets := state.gets.set call next } := by
    intro next isReady isGiven
    refine ⟨sound.exclusive, sound.published, sound.valued, sound.swept,
      sound.unresolved, sound.resolved, sound.places, sound.ordered, ?_⟩
    intro other member
    rcases List.mem_or_eq_of_mem_set member with known | rfl
    · exact sound.gotten other known
    · exact ⟨isReady, isGiven⟩
  rw [State.moveGet] at moved
  cases present : state.gets[call]? with
  | none =>
      rw [present] at moved
      cases moved
  | some current =>
      rw [present] at moved
      obtain ⟨isReady, _⟩ :=
        sound.gotten current (List.mem_of_getElem? present)
      cases current with
      | waiting =>
          cases moved
          apply setGet
          · cases state.ready with
            | true => exact Or.inr rfl
            | false => exact Or.inl rfl
          · intro value impossible
            split at impossible
            · cases impossible
            · cases impossible
      | resolved =>
          obtain ⟨_, isNext⟩ := Option.ite_none_right_eq_some.mp moved
          cases isNext
          apply setGet
          · exact Or.inr (isReady.resolve_left (by simp))
          · intro value impossible
            cases impossible
      | locked =>
          cases moved
          have ready := isReady.resolve_left (by simp)
          apply setGet
          · exact Or.inr ready
          · intro value isReturned
            cases isReturned
            exact (sound.valued (hasStored_of_hasPublished
              (sound.published ▸ ready))).1
      | returned value =>
          cases moved

end Steps

/-! ## Runs -/

section Runs

variable {Value : Type} {default given : Value} {state : State Value}

theorem sound_of_reachable
    (reached : (machine default given).Reachable state) :
    Sound given state := by
  refine Machine.Reachable.invariant ?_ ?_ reached
  · rintro _ rfl
    refine ⟨?_, rfl, ?_, ?_, ?_, ?_, ?_, ?_, ?_⟩
    · intro impossible
      cases impossible
    · intro impossible
      cases impossible
    · intro impossible
      cases impossible
    · intro member
      exact absurd member List.not_mem_nil
    · intro member
      exact absurd member List.not_mem_nil
    · intro callback
      exact (if_neg (Nat.not_lt_zero callback)).symm
    · intro before callback value after parts
      exact absurd parts.symm
        (List.append_ne_nil_of_right_ne_nil _ (List.cons_ne_nil _ _))
    · intro call member
      exact absurd member List.not_mem_nil
  · intro earlier action following sound stepped
    cases action with
    | moveSet =>
        exact sound_moveSet sound stepped
    | callThen =>
        cases stepped
        exact sound_callThen sound
    | moveThen call =>
        exact sound_moveThen sound stepped
    | callGet =>
        cases stepped
        refine ⟨sound.exclusive, sound.published, sound.valued, sound.swept,
          sound.unresolved, sound.resolved, sound.places, sound.ordered, ?_⟩
        intro call member
        rcases List.mem_append.mp member with known | new
        · exact sound.gotten call known
        · rw [List.mem_singleton.mp new]
          refine ⟨Or.inl rfl, ?_⟩
          intro value impossible
          cases impossible
    | moveGet call =>
        exact sound_moveGet sound stepped

/-- Somebody can move who is in a call or about to call `set`. -/
def CanMove (given : Value) (state : State Value) : Prop :=
  ∃ action following, action ≠ .callThen ∧ action ≠ .callGet ∧
    state.step given action = some following

theorem canMove_then {call : Nat} {current : ThenCall}
    (present : state.thens[call]? = some current)
    (notReturned : current ≠ .returned)
    (enters : current = .entering → state.mutexFree = true) :
    CanMove given state := by
  have moves : ∃ following, state.moveThen call = some following := by
    rw [State.moveThen, present]
    cases current with
    | entering =>
        dsimp only
        rw [if_pos (enters rfl)]
        exact ⟨_, rfl⟩
    | locked | unresolved | resolved =>
        exact ⟨_, rfl⟩
    | returned =>
        exact absurd rfl notReturned
  obtain ⟨following, moved⟩ := moves
  exact ⟨.moveThen call, following, by simp, by simp, moved⟩

theorem canMove_set (notReturned : state.setter ≠ .returned)
    (enters : state.setter = .notCalled → state.mutexFree = true) :
    CanMove given state := by
  have moves : ∃ following, state.moveSet given = some following := by
    rw [State.moveSet]
    cases standing : state.setter with
    | notCalled =>
        dsimp only
        rw [if_pos (enters standing)]
        exact ⟨_, rfl⟩
    | locked | stored | published =>
        exact ⟨_, rfl⟩
    | running toRun =>
        cases toRun with
        | nil => exact ⟨_, rfl⟩
        | cons callback rest => exact ⟨_, rfl⟩
    | returned =>
        exact absurd standing notReturned
  obtain ⟨following, moved⟩ := moves
  exact ⟨.moveSet, following, by simp, by simp, moved⟩

/-- Whoever waits for the mutex waits for a call that can move. -/
theorem canMove_of_unfinished (given : Value)
    (unfinished : state.setter ≠ .returned ∨
      ∃ call ∈ state.thens, call ≠ .returned) :
    CanMove given state := by
  by_cases free : state.mutexFree = true
  · rcases unfinished with notReturned | ⟨current, member, notReturned⟩
    · exact canMove_set notReturned fun _ => free
    · obtain ⟨call, present⟩ := List.mem_iff_getElem?.mp member
      exact canMove_then present notReturned fun _ => free
  · by_cases setterHolds : state.setter.holdsMutex = true
    · apply canMove_set
      · intro returned
        rw [returned] at setterHolds
        cases setterHolds
      · intro notCalled
        rw [notCalled] at setterHolds
        cases setterHolds
    · by_cases thenHolds : ∃ call ∈ state.thens, call.holdsMutex = true
      · obtain ⟨current, member, holds⟩ := thenHolds
        obtain ⟨call, present⟩ := List.mem_iff_getElem?.mp member
        apply canMove_then present
        · rintro rfl
          cases holds
        · rintro rfl
          cases holds
      · have getHolds : ∃ call ∈ state.gets, call.holdsMutex = true := by
          by_contra nobody
          apply free
          push Not at thenHolds nobody
          simp only [State.mutexFree, Bool.and_eq_true, Bool.not_eq_true',
            List.all_eq_true]
          refine ⟨⟨Bool.eq_false_of_not_eq_true setterHolds, ?_⟩, ?_⟩
          · intro call member
            exact Bool.eq_false_of_not_eq_true (thenHolds call member)
          · intro call member
            exact Bool.eq_false_of_not_eq_true (nobody call member)
        obtain ⟨current, member, holds⟩ := getHolds
        obtain ⟨call, present⟩ := List.mem_iff_getElem?.mp member
        cases current with
        | locked =>
            have moves : ∃ following, state.moveGet call = some following := by
              rw [State.moveGet, present]
              exact ⟨_, rfl⟩
            obtain ⟨following, moved⟩ := moves
            exact ⟨.moveGet call, following, by simp, by simp, moved⟩
        | waiting | resolved =>
            cases holds
        | returned value =>
            cases holds

/-- In every interleaving each callback is called with the value that was set,
after it was assigned and at most once, and exactly once when all calls have
returned.  Until then some call can move, by `canMove_of_unfinished`. -/
theorem continuations_fire_once
    (reached : (machine default given).Reachable state) :
    (∀ before callback value after,
      state.history = before ++ .invoked callback value :: after →
        value = given ∧ .stored given ∈ before) ∧
    (∀ callback, state.invocations callback ≤ 1) ∧
    (state.setter = .returned → (∀ call ∈ state.thens, call = .returned) →
      ∀ callback, callback < state.thens.length →
        state.invocations callback = 1) := by
  have sound := sound_of_reachable reached
  refine ⟨sound.ordered, ?_, ?_⟩
  · intro callback
    have counted := sound.places callback
    rw [State.places] at counted
    split at counted
    · omega
    · omega
  · intro setReturned allReturned callback called
    have counted := sound.places callback
    have swept := sound.swept (by rw [setReturned]; rfl)
    have returned : state.thens[callback]? = some .returned := by
      rw [List.getElem?_eq_getElem called]
      exact congrArg some (allReturned _ (List.getElem_mem called))
    rw [State.places, swept, setReturned, returned, if_pos called] at counted
    simpa [SetCall.toRun, ThenCall.carries] using counted

end Runs

/-- A callback registered before `set`, one while `set` is between its
critical section and the callbacks, and one that comes too late for it. -/
def threeCallbacks : List Action :=
  [.callThen, .moveThen 0, .moveThen 0, .moveThen 0, .moveSet, .moveSet,
    .moveSet, .moveSet, .callThen, .moveThen 1, .moveThen 1, .moveSet,
    .moveThen 1, .moveSet, .callThen, .moveThen 2, .moveThen 2, .moveThen 2]

def threeCallbacksRun : State Nat where
  value := 7
  ready := true
  setter := .returned
  thens := [.returned, .returned, .returned]
  history := [.stored 7, .invoked 0 7, .invoked 1 7, .invoked 2 7]

theorem continuations_fire_once_three : ∃ state,
    (machine 0 7).Reachable state ∧ state.thens.length = 3 ∧
      ∀ callback < 3, state.invocations callback = 1 := by
  have reached : (machine 0 7).Reachable threeCallbacksRun :=
    Machine.reachable_of_run threeCallbacks
      (show (machine 0 7).initial { value := 0 } from rfl) rfl
  exact ⟨threeCallbacksRun, reached, rfl,
    (continuations_fire_once reached).2.2 rfl (by decide)⟩

end HydraRT.Future
