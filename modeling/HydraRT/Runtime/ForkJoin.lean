import HydraRT.Lib.Transition
import HydraRT.Lib.Weight

/-!
# Fork and join

Tasks that call `spawn` and wait for futures with `get`.  A thread that waits
runs other tasks from inside the waiting one, on the same stack, so a task
stays buried until what was started above it has returned.

Application code is given as a tree of calls, and its sequential meaning runs
every spawned body on the spot.  The machine interleaves the workers and the
clients, one queue access, one call or one return a step.  Portable pools,
counters and shutdown play no part.
-/

namespace HydraRT.ForkJoin

open HydraRT.Lib

/-! ## Application code -/

/-- The code of a task that knows `known` futures: the ones its closure
captured, and then those it has spawned itself.  The tree of calls is finite
along every path, so code that spawns itself for ever has no `Program`. -/
inductive Program (Value : Type) : Nat → Type where
  | ret {known : Nat} (value : Value) : Program Value known
  | spawn {known captured : Nat} (capture : Fin captured → Fin known)
      (body : Program Value captured) (rest : Program Value (known + 1)) :
      Program Value known
  | get {known : Nat} (future : Fin known)
      (rest : Value → Program Value known) : Program Value known

/-- One more future is known. -/
def extend {Name : Type} {known : Nat} (names : Fin known → Name)
    (new : Name) : Fin (known + 1) → Name :=
  fun index =>
    if old : index.val < known then names ⟨index.val, old⟩ else new

namespace Program

variable {Value : Type}

/-- What the code returns if every spawned body is run on the spot. -/
def value {known : Nat} :
    Program Value known → (Fin known → Value) → Value
  | .ret result, _ => result
  | .spawn capture body rest, values =>
      rest.value (extend values (body.value fun index =>
        values (capture index)))
  | .get future rest, values => (rest (values future)).value values

/-- The code waits for futures only from the position `own` on. -/
def AwaitsFrom {known : Nat} (own : Nat) : Program Value known → Prop
  | .ret _ => True
  | @spawn _ _ captured _ body rest =>
      body.AwaitsFrom captured ∧ rest.AwaitsFrom own
  | .get future rest => own ≤ future.val ∧ ∀ result, (rest result).AwaitsFrom own

end Program

/-! ## The runtime -/

variable {Value : Type} {workers : Nat}

/-- The closure that `spawn` passes to `submit`, with the futures it holds. -/
structure Closure (Value : Type) where
  future : Nat
  {known : Nat}
  program : Program Value known
  handles : Fin known → Nat

/-- A closure on the stack of a thread.  `started` is the number of futures
that there were when it was called. -/
structure Activation (Value : Type) where
  closure : Closure Value
  started : Nat

inductive Place (workers : Nat) where
  | deque (owner : Fin workers)
  | injection (index : Fin workers)
  deriving DecidableEq, Repr

/-- A worker or a client.  `search` is what is left of a round of
`Worker::run` or of a call of `try_execute_one`. -/
structure Thread (Value : Type) (workers : Nat) where
  home : Option (Fin workers)
  search : Option (List (Place workers)) := none
  stack : List (Activation Value)

structure State (Value : Type) (workers : Nat) where
  queues : Place workers → List (Closure Value) := fun _ => []
  injectionRr : UInt32 := 0
  /-- The value of every future that `set` has been called on. -/
  futures : List (Option Value)
  threads : List (Thread Value workers)

/-- The thread that moves, and whether it misses a steal because of others. -/
structure Action where
  thread : Nat
  misses : Bool
  deriving DecidableEq, Repr

def otherWorkers (home : Option (Fin workers)) : List (Fin workers) :=
  (List.finRange workers).filter (some · ≠ home)

/-- One round of `Worker::run`. -/
def scanOrder (worker : Fin workers) : List (Place workers) :=
  [.deque worker, .injection worker] ++
    (otherWorkers (some worker)).map .injection ++
    (otherWorkers (some worker)).map .deque

/-- `try_execute_one`. -/
def helpOrder (home : Option (Fin workers)) : List (Place workers) :=
  home.toList.map .deque ++ (List.finRange workers).map .injection ++
    (otherWorkers home).map .deque

/-- `InjectionQueue::pop`, and a `steal` that wins. -/
def popFront {Item : Type} : List Item → Option (Item × List Item)
  | [] => none
  | item :: rest => some (item, rest)

namespace State

/-- Take a closure out of a queue.  The owner of a deque takes from the back,
everyone else from the front. -/
def take? (state : State Value workers) (home : Option (Fin workers))
    (place : Place workers) (misses : Bool) :
    Option (Closure Value × List (Closure Value)) :=
  match place with
  | .deque owner =>
      if home = some owner then
        (state.queues place).getLast?.map fun closure =>
          (closure, (state.queues place).dropLast)
      else if misses then none
      else popFront (state.queues place)
  | .injection _ => popFront (state.queues place)

def put (state : State Value workers) (place : Place workers)
    (closures : List (Closure Value)) : State Value workers :=
  { state with queues := Function.update state.queues place closures }

/-- `Runtime::submit`. -/
def submit (state : State Value workers) (workersPos : 0 < workers)
    (home : Option (Fin workers)) (closure : Closure Value) :
    State Value workers :=
  match home with
  | some owner =>
      state.put (.deque owner) (state.queues (.deque owner) ++ [closure])
  | none =>
      let index : Fin workers :=
        ⟨state.injectionRr.toNat % workers, Nat.mod_lt _ workersPos⟩
      { state with injectionRr := state.injectionRr + 1 }.put
        (.injection index) (state.queues (.injection index) ++ [closure])

/-- The value that `get` returns, if `set` has been called. -/
def result? (state : State Value workers) (future : Nat) : Option Value :=
  state.futures[future]?.join

end State

/-- One step of a thread. -/
def Thread.step (workersPos : 0 < workers) (state : State Value workers)
    (misses : Bool) (thread : Thread Value workers) :
    Option (State Value workers × Thread Value workers) :=
  match thread.search, thread.stack with
  | some [], _ => some (state, { thread with search := none })
  | some (place :: rest), stack =>
      match state.take? thread.home place misses with
      | none => some (state, { thread with search := some rest })
      | some (closure, remaining) =>
          some (state.put place remaining,
            { thread with
              search := none
              stack := ⟨closure, state.futures.length⟩ :: stack })
  | none, [] =>
      -- a client has returned from its code
      thread.home.map fun worker =>
        (state, { thread with search := some (scanOrder worker) })
  | none, ⟨⟨future, program, handles⟩, started⟩ :: below =>
      match program with
      | .ret value =>
          some ({ state with futures := state.futures.set future (some value) },
            { thread with stack := below })
      | .spawn capture body rest =>
          let new := state.futures.length
          some (({ state with futures := state.futures ++ [none] } :
              State Value workers).submit workersPos thread.home
              ⟨new, body, fun index => handles (capture index)⟩,
            { thread with
              stack :=
                ⟨⟨future, rest, extend handles new⟩, started⟩ :: below })
      | .get awaited rest =>
          match state.result? (handles awaited) with
          | some value =>
              some (state, { thread with
                stack := ⟨⟨future, rest value, handles⟩, started⟩ :: below })
          | none =>
              some (state, { thread with
                search := some (helpOrder thread.home) })

def State.step (workersPos : 0 < workers) (state : State Value workers)
    (action : Action) : Option (State Value workers) :=
  match state.threads[action.thread]? with
  | none => none
  | some thread =>
      (thread.step workersPos state action.misses).map fun (moved, next) =>
        { moved with threads := state.threads.set action.thread next }

/-- Idle workers, and one client for each of the programs.  The future of a
client stands for what its code returns. -/
def State.start (workers : Nat) (mains : List (Program Value 0)) :
    State Value workers where
  futures := mains.map fun _ => none
  threads :=
    (List.finRange workers).map (fun worker =>
        { home := some worker, stack := [] }) ++
      mains.mapIdx fun index main =>
        { home := none
          stack := [⟨⟨index, main, Fin.elim0⟩, mains.length⟩] }

/-- The runs of the clients' code on a pool of workers. -/
def forkJoin (workersPos : 0 < workers) (mains : List (Program Value 0)) :
    Machine (State Value workers) Action where
  initial state := state = State.start workers mains
  step := State.step workersPos

/-! ## What one step does -/

section Steps

variable {workersPos : 0 < workers} {state moved : State Value workers}
  {thread next : Thread Value workers} {misses : Bool}

theorem popFront_eq_some {Item : Type} {items rest : List Item} {item : Item}
    (taken : popFront items = some (item, rest)) : items = item :: rest := by
  cases items with
  | nil => cases taken
  | cons first others =>
      cases taken
      rfl

theorem popFront_eq_none {Item : Type} {items : List Item}
    (missed : popFront items = none) : items = [] := by
  cases items with
  | nil => rfl
  | cons first others => cases missed

theorem take?_eq_some {home : Option (Fin workers)} {place : Place workers}
    {closure : Closure Value} {remaining : List (Closure Value)}
    (taken : state.take? home place misses = some (closure, remaining)) :
    ∃ before after, state.queues place = before ++ closure :: after ∧
      remaining = before ++ after := by
  have ofFront : popFront (state.queues place) = some (closure, remaining) →
      ∃ before after, state.queues place = before ++ closure :: after ∧
        remaining = before ++ after :=
    fun front => ⟨[], remaining, popFront_eq_some front, rfl⟩
  cases place with
  | injection index => exact ofFront taken
  | deque owner =>
      simp only [State.take?] at taken
      split at taken
      · obtain ⟨last, isLast, same⟩ := Option.map_eq_some_iff.mp taken
        cases same
        refine ⟨(state.queues (.deque owner)).dropLast, [], ?_, ?_⟩
        · exact (List.dropLast_append_getLast? _ isLast).symm
        · exact (List.append_nil _).symm
      · split at taken
        · cases taken
        · exact ofFront taken

/-- Who looks into a queue and misses nothing takes what is there. -/
theorem take?_eq_none {home : Option (Fin workers)} {place : Place workers}
    (missed : state.take? home place false = none) :
    state.queues place = [] := by
  cases place with
  | injection index => exact popFront_eq_none missed
  | deque owner =>
      simp only [State.take?, Bool.false_eq_true, if_false] at missed
      split at missed
      · rw [Option.map_eq_none_iff] at missed
        exact List.getLast?_eq_none_iff.mp missed
      · exact popFront_eq_none missed

/-- `submit` pushes at the back of one queue. -/
theorem submit_eq (workersPos : 0 < workers) (state : State Value workers)
    (home : Option (Fin workers)) (closure : Closure Value) :
    ∃ place injectionRr, state.submit workersPos home closure =
      { state with injectionRr }.put place
        (state.queues place ++ [closure]) := by
  cases home with
  | some owner => exact ⟨.deque owner, state.injectionRr, rfl⟩
  | none => exact ⟨_, _, rfl⟩

/-- The ways a thread can move. -/
inductive Moved (state : State Value workers) (thread : Thread Value workers) :
    State Value workers → Thread Value workers → Prop
  /-- A search begins, misses or ends. -/
  | search (remaining : Option (List (Place workers))) :
      Moved state thread state { thread with search := remaining }
  | take {place : Place workers} {closure : Closure Value}
      {before after : List (Closure Value)} :
      state.queues place = before ++ closure :: after →
      Moved state thread (state.put place (before ++ after))
        { thread with
          search := none
          stack := ⟨closure, state.futures.length⟩ :: thread.stack }
  | ret {future known started : Nat} {value : Value}
      {handles : Fin known → Nat} {below : List (Activation Value)} :
      thread.stack = ⟨⟨future, .ret value, handles⟩, started⟩ :: below →
      Moved state thread
        { state with futures := state.futures.set future (some value) }
        { thread with stack := below }
  | spawn {future known captured started : Nat}
      {capture : Fin captured → Fin known} {body : Program Value captured}
      {rest : Program Value (known + 1)} {handles : Fin known → Nat}
      {below : List (Activation Value)} {place : Place workers}
      {injectionRr : UInt32} :
      thread.stack =
        ⟨⟨future, .spawn capture body rest, handles⟩, started⟩ :: below →
      Moved state thread
        (State.put { state with
            futures := state.futures ++ [none]
            injectionRr } place
          (state.queues place ++
            [⟨state.futures.length, body, fun index =>
              handles (capture index)⟩]))
        { thread with
          stack := ⟨⟨future, rest, extend handles state.futures.length⟩,
            started⟩ :: below }
  | get {future known started : Nat} {awaited : Fin known}
      {rest : Value → Program Value known} {handles : Fin known → Nat}
      {below : List (Activation Value)} {value : Value} :
      thread.stack =
        ⟨⟨future, .get awaited rest, handles⟩, started⟩ :: below →
      state.result? (handles awaited) = some value →
      Moved state thread state
        { thread with
          stack := ⟨⟨future, rest value, handles⟩, started⟩ :: below }

theorem thread_step_moved
    (stepped : thread.step workersPos state misses = some (moved, next)) :
    Moved state thread moved next := by
  unfold Thread.step at stepped
  split at stepped
  · cases stepped
    exact .search none
  · rename_i stack place rest searching
    split at stepped
    · cases stepped
      exact .search (some rest)
    · rename_i closure remaining taken
      cases stepped
      obtain ⟨before, after, parts, rfl⟩ := take?_eq_some taken
      exact .take parts
  · obtain ⟨worker, isHome, same⟩ := Option.map_eq_some_iff.mp stepped
    cases same
    exact .search _
  · rename_i future known program handles started below noSearch onTop
    cases program with
    | ret value =>
        cases stepped
        exact .ret onTop
    | spawn capture body rest =>
        cases stepped
        obtain ⟨place, injectionRr, pushed⟩ := submit_eq workersPos
          { state with futures := state.futures ++ [none] } thread.home
          ⟨state.futures.length, body, fun index => handles (capture index)⟩
        rw [pushed]
        exact .spawn onTop
    | get awaited rest =>
        dsimp only at stepped
        split at stepped
        · rename_i value found
          cases stepped
          exact .get onTop found
        · cases stepped
          exact .search _

theorem step_moved {following : State Value workers} {action : Action}
    (stepped : state.step workersPos action = some following) :
    ∃ thread moved next, state.threads[action.thread]? = some thread ∧
      Moved state thread moved next ∧
      following =
        { moved with threads := state.threads.set action.thread next } := by
  unfold State.step at stepped
  split at stepped
  · cases stepped
  · rename_i thread present
    obtain ⟨⟨moved, next⟩, advanced, rfl⟩ := Option.map_eq_some_iff.mp stepped
    exact ⟨thread, moved, next, present, thread_step_moved advanced, rfl⟩

end Steps

/-! ## Results are those of the sequential code -/

section Values

variable {expected : Nat → Value} {count : Nat}

@[simp]
theorem extend_last {Name : Type} {known : Nat} (names : Fin known → Name)
    (new : Name) (index : Fin (known + 1)) (last : ¬ index.val < known) :
    extend names new index = new :=
  dif_neg last

theorem extend_old {Name : Type} {known : Nat} (names : Fin known → Name)
    (new : Name) (index : Fin (known + 1)) (old : index.val < known) :
    extend names new index = names ⟨index.val, old⟩ :=
  dif_pos old

/-- The closure knows futures that exist, and what it returns is what its own
future is expected to be. -/
structure Closure.Sound (count : Nat) (expected : Nat → Value)
    (closure : Closure Value) : Prop where
  future : closure.future < count
  handles : ∀ index, closure.handles index < count
  value : closure.program.value (fun index =>
    expected (closure.handles index)) = expected closure.future

/-- Expectations of later futures do not matter to a closure. -/
theorem Closure.Sound.extend {closure : Closure Value} {later : Nat → Value}
    (sound : closure.Sound count expected)
    (agrees : ∀ future < count, later future = expected future) :
    closure.Sound (count + 1) later where
  future := Nat.lt_succ_of_lt sound.future
  handles index := Nat.lt_succ_of_lt (sound.handles index)
  value := by
    have names : (fun index => later (closure.handles index)) =
        fun index => expected (closure.handles index) :=
      funext fun index => agrees _ (sound.handles index)
    rw [names, agrees _ sound.future]
    exact sound.value

/-- `expected` tells the result of every future that exists. -/
structure State.Sound (mains : List (Program Value 0))
    (expected : Nat → Value) (state : State Value workers) : Prop where
  clients : mains.length ≤ state.futures.length
  mains : ∀ index (inside : index < mains.length),
    expected index = mains[index].value Fin.elim0
  queued : ∀ place, ∀ closure ∈ state.queues place,
    closure.Sound state.futures.length expected
  running : ∀ thread ∈ state.threads, ∀ activation ∈ thread.stack,
    activation.closure.Sound state.futures.length expected
  resolved : ∀ future value, state.result? future = some value →
    value = expected future

theorem result?_set {state : State Value workers} {future other : Nat}
    {value result : Value}
    (found : State.result? { state with
      futures := state.futures.set future (some value) } other = some result) :
    other = future ∧ result = value ∨ state.result? other = some result := by
  simp only [State.result?, List.getElem?_set] at found
  split at found
  · rename_i same
    split at found
    · cases found
      exact .inl ⟨same.symm, rfl⟩
    · cases found
  · exact .inr found

theorem result?_append {state : State Value workers} {other : Nat}
    {result : Value}
    (found : State.result? { state with
      futures := state.futures ++ [none] } other = some result) :
    state.result? other = some result ∧ other < state.futures.length := by
  simp only [State.result?, List.getElem?_append] at found
  split at found
  · rename_i inside
    exact ⟨found, inside⟩
  · cases atEnd : other - state.futures.length with
    | zero => simp [atEnd] at found
    | succ offset => simp [atEnd] at found

variable {mains : List (Program Value 0)} {state : State Value workers}

/-- The thread that moves gets a stack of sound closures, and every queue has
sound closures. -/
theorem State.Sound.install {moved : State Value workers}
    {next : Thread Value workers} {number : Nat}
    (clients : mains.length ≤ moved.futures.length)
    (isMain : ∀ index (inside : index < mains.length),
      expected index = mains[index].value Fin.elim0)
    (queued : ∀ place, ∀ closure ∈ moved.queues place,
      closure.Sound moved.futures.length expected)
    (others : ∀ thread ∈ state.threads, ∀ activation ∈ thread.stack,
      activation.closure.Sound moved.futures.length expected)
    (stack : ∀ activation ∈ next.stack,
      activation.closure.Sound moved.futures.length expected)
    (resolved : ∀ future value, moved.result? future = some value →
      value = expected future) :
    State.Sound mains expected
      { moved with threads := state.threads.set number next } where
  clients := clients
  mains := isMain
  queued := queued
  running := by
    intro thread member
    rcases List.mem_or_eq_of_mem_set member with old | rfl
    · exact others thread old
    · exact stack
  resolved := resolved

theorem State.Sound.step {workersPos : 0 < workers}
    {following : State Value workers} {action : Action}
    (sound : state.Sound mains expected)
    (stepped : state.step workersPos action = some following) :
    ∃ later, following.Sound mains later := by
  obtain ⟨thread, moved, next, present, effect, rfl⟩ := step_moved stepped
  have ofThread := sound.running thread (List.mem_of_getElem? present)
  cases effect with
  | search remaining =>
      exact ⟨expected, .install sound.clients sound.mains sound.queued
        sound.running ofThread sound.resolved⟩
  | @take place closure before after parts =>
      refine ⟨expected, .install sound.clients sound.mains ?_ sound.running ?_
        sound.resolved⟩
      · intro each other member
        by_cases same : each = place
        · subst same
          apply sound.queued each
          rw [parts]
          simp only [State.put, Function.update_self] at member
          rcases List.mem_append.mp member with early | late
          · exact List.mem_append_left _ early
          · exact List.mem_append_right _ (List.mem_cons_of_mem _ late)
        · simp only [State.put, Function.update_of_ne same] at member
          exact sound.queued each other member
      · intro activation member
        rcases List.mem_cons.mp member with rfl | below
        · apply sound.queued place
          rw [parts]
          exact List.mem_append_right _ List.mem_cons_self
        · exact ofThread activation below
  | @ret future known started value handles below onTop =>
      rw [onTop] at ofThread
      have top := ofThread _ List.mem_cons_self
      have sameCount : (state.futures.set future (some value)).length =
          state.futures.length := List.length_set
      refine ⟨expected, .install ?_ sound.mains ?_ ?_ ?_ ?_⟩
      · exact sameCount ▸ sound.clients
      · exact sameCount ▸ sound.queued
      · exact sameCount ▸ sound.running
      · intro activation member
        have stays := ofThread activation (List.mem_cons_of_mem _ member)
        exact sameCount ▸ stays
      · intro other result found
        rcases result?_set found with ⟨rfl, rfl⟩ | earlier
        · exact top.value
        · exact sound.resolved other result earlier
  | @spawn future known captured started capture body rest handles below place
      injectionRr onTop =>
      rw [onTop] at ofThread
      have top := ofThread _ List.mem_cons_self
      let count := state.futures.length
      let result := body.value fun index => expected (handles (capture index))
      let later := Function.update expected count result
      have atNew : later count = result := Function.update_self _ _ _
      have agrees : ∀ other < count, later other = expected other := by
        intro other inside
        exact Function.update_of_ne (Nat.ne_of_lt inside) _ _
      have longer : (state.futures ++ [none]).length = count + 1 := by
        simp [count]
      refine ⟨later, .install ?_ ?_ ?_ ?_ ?_ ?_⟩
      · refine sound.clients.trans ?_
        change state.futures.length ≤ (state.futures ++ [none]).length
        rw [longer]
        exact Nat.le_succ _
      · intro index inside
        rw [agrees index (inside.trans_le sound.clients)]
        exact sound.mains index inside
      · intro each other member
        change other.Sound (state.futures ++ [none]).length later
        rw [longer]
        have old : other ∈ state.queues each ∨ other = ⟨count, body,
            fun index => handles (capture index)⟩ := by
          by_cases same : each = place
          · subst same
            simpa [State.put] using member
          · simp only [State.put, Function.update_of_ne same] at member
            exact .inl member
        rcases old with inside | rfl
        · exact (sound.queued each other inside).extend agrees
        · refine ⟨Nat.lt_succ_self _, ?_, ?_⟩
          · intro index
            exact Nat.lt_succ_of_lt (top.handles (capture index))
          · dsimp only
            rw [atNew]
            congr 1
            exact funext fun index => agrees _ (top.handles (capture index))
      · intro other member activation onStack
        change activation.closure.Sound (state.futures ++ [none]).length later
        rw [longer]
        exact (sound.running other member activation onStack).extend agrees
      · intro activation member
        change activation.closure.Sound (state.futures ++ [none]).length later
        rw [longer]
        rcases List.mem_cons.mp member with rfl | under
        · refine ⟨Nat.lt_succ_of_lt top.future, ?_, ?_⟩
          · intro index
            by_cases old : index.val < known
            · change extend handles count index < count + 1
              rw [extend_old _ _ _ old]
              exact Nat.lt_succ_of_lt (top.handles _)
            · change extend handles count index < count + 1
              rw [extend_last _ _ _ old]
              exact Nat.lt_succ_self _
          · change rest.value (fun index =>
              later (extend handles count index)) = later future
            rw [agrees future top.future, ← top.value]
            change _ = rest.value (extend _ result)
            congr 1
            funext index
            by_cases old : index.val < known
            · rw [extend_old _ _ _ old, extend_old _ _ _ old]
              exact agrees _ (top.handles _)
            · rw [extend_last _ _ _ old, extend_last _ _ _ old]
              exact atNew
        · exact (ofThread activation (List.mem_cons_of_mem _ under)).extend
            agrees
      · intro other value found
        obtain ⟨earlier, inside⟩ := result?_append found
        rw [agrees other inside]
        exact sound.resolved other value earlier
  | @get future known started awaited rest handles below value onTop found =>
      rw [onTop] at ofThread
      have top := ofThread _ List.mem_cons_self
      refine ⟨expected, .install sound.clients sound.mains sound.queued
        sound.running ?_ sound.resolved⟩
      intro activation member
      rcases List.mem_cons.mp member with rfl | under
      · refine ⟨top.future, top.handles, ?_⟩
        dsimp only
        rw [sound.resolved _ _ found]
        exact top.value
      · exact ofThread activation (List.mem_cons_of_mem _ under)

theorem State.Sound.start (mains : List (Program Value 0))
    (isMain : ∀ index (inside : index < mains.length),
      expected index = mains[index].value Fin.elim0) :
    (State.start workers mains).Sound mains expected where
  clients := by simp [State.start]
  mains := isMain
  queued := by
    intro place closure member
    cases member
  running := by
    intro thread member activation onStack
    rcases List.mem_append.mp member with isWorker | isClient
    · obtain ⟨worker, _, rfl⟩ := List.mem_map.mp isWorker
      cases onStack
    · obtain ⟨index, inside, rfl⟩ := List.mem_mapIdx.mp isClient
      obtain rfl := List.mem_singleton.mp onStack
      refine ⟨by simpa [State.start] using inside, ?_, ?_⟩
      · intro index
        exact index.elim0
      · dsimp only
        rw [isMain index inside]
        congr 1
        exact funext fun index => index.elim0
  resolved := by
    intro future value found
    have member := List.mem_of_getElem? (Option.join_eq_some_iff.mp found)
    simp [State.start] at member

theorem sound_of_reachable {workersPos : 0 < workers} (default : Value)
    (reached : (forkJoin workersPos mains).Reachable state) :
    ∃ expected, state.Sound mains expected := by
  let Invariant (tested : State Value workers) : Prop :=
    ∃ expected, tested.Sound mains expected
  suffices holds : Invariant state from holds
  refine Machine.Reachable.invariant ?_ ?_ reached
  · rintro _ rfl
    refine ⟨fun future => if inside : future < mains.length then
      mains[future].value Fin.elim0 else default, .start mains ?_⟩
    intro other inside
    exact dif_pos inside
  · rintro source action following ⟨expected, sound⟩ stepped
    exact sound.step stepped

theorem State.Sound.result_eq (sound : state.Sound mains expected)
    {index : Nat} (inside : index < mains.length) {value : Value}
    (returned : state.result? index = some value) :
    value = mains[index].value Fin.elim0 := by
  rw [sound.resolved index value returned]
  exact sound.mains index inside

/-- Whatever the schedule, what the code of a client returns is what it
returns when every spawned body is run on the spot. -/
theorem results_sequential {workersPos : 0 < workers}
    (mains : List (Program Value 0))
    (reached : (forkJoin workersPos mains).Reachable state)
    (index : Nat) (inside : index < mains.length) (value : Value)
    (returned : state.result? index = some value) :
    value = mains[index].value Fin.elim0 := by
  obtain ⟨expected, sound⟩ := sound_of_reachable value reached
  exact sound.result_eq inside returned

end Values

/-- A client that waits for a task it has spawned. -/
def spawningMain : Program Nat 0 :=
  .spawn Fin.elim0 (.ret 3) (.get (Fin.last 0) .ret)

/-- The client spawns, worker 0 finds the task and runs it, and the client has
its result. -/
def spawningSchedule : List Action :=
  [⟨1, false⟩, ⟨0, false⟩, ⟨0, false⟩, ⟨0, false⟩, ⟨0, false⟩,
    ⟨1, false⟩, ⟨1, false⟩]

theorem results_sequential_spawned : ∃ state : State Nat 1,
    (forkJoin Nat.one_pos [spawningMain]).Reachable state ∧
      state.result? 0 = some 3 ∧ 3 = spawningMain.value Fin.elim0 := by
  have check : (((forkJoin Nat.one_pos [spawningMain]).run
      (State.start 1 [spawningMain]) spawningSchedule).any
        fun state => state.result? 0 == some 3) = true := by
    decide
  obtain ⟨state, ran, found⟩ := (Option.any_eq_true _ _).mp check
  have reached := Machine.reachable_of_run spawningSchedule rfl ran
  have returned := beq_iff_eq.mp found
  exact ⟨state, reached, returned,
    results_sequential [spawningMain] reached 0 Nat.one_pos 3 returned⟩

end HydraRT.ForkJoin
