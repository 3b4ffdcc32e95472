import HydraRT.Runtime.ForkJoin

/-!
# Fork and join comes to an end

Every call that application code makes leaves less code to run, so a run works
finitely often and only searches after that.  What remains to be excluded is
that all threads wait.  A task buried on a stack was started before the task
on top of it, and a task that waits only for futures younger than itself waits
for one that was started later: a circle of waiting threads would go back in
time.
-/

namespace HydraRT.ForkJoin

open HydraRT.Lib

variable {Value : Type} {workers : Nat} {workersPos : 0 < workers}

/-! ## Code that is left to run -/

/-- The code of a closure, in a queue or on a stack. -/
structure Residue (Value : Type) where
  queued : Bool
  {known : Nat}
  program : Program Value known

/-- One code is what another has become, or has submitted. -/
inductive Residue.Smaller : Residue Value → Residue Value → Prop
  | start {known : Nat} (program : Program Value known) :
      Smaller ⟨false, program⟩ ⟨true, program⟩
  | body {known captured : Nat} (capture : Fin captured → Fin known)
      (body : Program Value captured) (rest : Program Value (known + 1)) :
      Smaller ⟨true, body⟩ ⟨false, .spawn capture body rest⟩
  | rest {known captured : Nat} (capture : Fin captured → Fin known)
      (body : Program Value captured) (rest : Program Value (known + 1)) :
      Smaller ⟨false, rest⟩ ⟨false, .spawn capture body rest⟩
  | get {known : Nat} (future : Fin known)
      (rest : Value → Program Value known) (value : Value) :
      Smaller ⟨false, rest value⟩ ⟨false, .get future rest⟩

namespace Residue

theorem acc_queued {known : Nat} {program : Program Value known}
    (running : Acc Smaller (⟨false, program⟩ : Residue Value)) :
    Acc Smaller (⟨true, program⟩ : Residue Value) := by
  refine ⟨_, fun smaller below => ?_⟩
  cases below
  exact running

theorem acc_running {known : Nat} (program : Program Value known) :
    Acc Smaller (⟨false, program⟩ : Residue Value) := by
  induction program with
  | ret value =>
      refine ⟨_, fun smaller below => ?_⟩
      cases below
  | spawn capture body rest bodyHypothesis restHypothesis =>
      refine ⟨_, fun smaller below => ?_⟩
      cases below
      · exact acc_queued bodyHypothesis
      · exact restHypothesis
  | get future rest inductionHypothesis =>
      refine ⟨_, fun smaller below => ?_⟩
      cases below
      exact inductionHypothesis _

theorem smaller_wellFounded :
    WellFounded (Smaller : Residue Value → Residue Value → Prop) := by
  refine ⟨fun ⟨queued, program⟩ => ?_⟩
  cases queued with
  | true => exact acc_queued (acc_running program)
  | false => exact acc_running program

end Residue

def places (workers : Nat) : List (Place workers) :=
  (List.finRange workers).map .deque ++ (List.finRange workers).map .injection

theorem mem_places (place : Place workers) : place ∈ places workers := by
  cases place <;> simp [places]

theorem nodup_places : (places workers).Nodup := by
  refine List.nodup_append.mpr ⟨?_, ?_, ?_⟩
  · exact (List.nodup_finRange workers).map fun _ _ same => by cases same; rfl
  · exact (List.nodup_finRange workers).map fun _ _ same => by cases same; rfl
  · intro deque isDeque injection isInjection
    obtain ⟨_, _, rfl⟩ := List.mem_map.mp isDeque
    obtain ⟨_, _, rfl⟩ := List.mem_map.mp isInjection
    intro same
    cases same

def Closure.residue (closure : Closure Value) (queued : Bool) :
    Residue Value :=
  ⟨queued, closure.program⟩

def Thread.residues (thread : Thread Value workers) : List (Residue Value) :=
  thread.stack.map (·.closure.residue false)

/-- Everything that is left to run. -/
def State.residues (state : State Value workers) : List (Residue Value) :=
  (places workers).flatMap (fun place =>
      (state.queues place).map (·.residue true)) ++
    state.threads.flatMap Thread.residues

/-- Code is exchanged for smaller code. -/
def Lighter (following state : State Value workers) : Prop :=
  Relation.CutExpand Residue.Smaller
    (following.residues : Multiset (Residue Value)) state.residues

theorem Lighter.of_exchange {following state : State Value workers}
    (gone : Residue Value) (come : List (Residue Value))
    (exchanged : Moves state.residues following.residues [gone] come)
    (below : ∀ new ∈ come, Residue.Smaller new gone) :
    Lighter following state :=
  exchanged.cutExpand below

/-- The threads have searched, and nothing else has happened. -/
structure OnlySearched (state following : State Value workers) : Prop where
  queues : following.queues = state.queues
  futures : following.futures = state.futures
  onStacks : following.threads.map Thread.stack =
    state.threads.map Thread.stack

theorem OnlySearched.residues {state following : State Value workers}
    (searched : OnlySearched state following) :
    following.residues = state.residues := by
  have ofThreads : ∀ threads : List (Thread Value workers),
      threads.flatMap Thread.residues =
        (threads.map Thread.stack).flatMap
          (·.map (·.closure.residue false)) := by
    intro threads
    rw [List.flatMap_map]
    rfl
  rw [State.residues, State.residues, searched.queues, ofThreads, ofThreads,
    searched.onStacks]

/-- The thread is somewhere else in its search. -/
def State.withSearch (state : State Value workers) (number : Nat)
    (thread : Thread Value workers)
    (search : Option (List (Place workers))) : State Value workers :=
  { state with threads := state.threads.set number { thread with search } }

theorem onlySearched_withSearch {state : State Value workers}
    {thread : Thread Value workers} {number : Nat}
    (present : state.threads[number]? = some thread)
    (search : Option (List (Place workers))) :
    OnlySearched state (state.withSearch number thread search) := by
  refine ⟨rfl, rfl, ?_⟩
  obtain ⟨inside, rfl⟩ := List.getElem?_eq_some_iff.mp present
  apply List.ext_getElem?
  intro index
  rw [State.withSearch, List.getElem?_map, List.getElem?_map,
    List.getElem?_set]
  split
  · rename_i same
    subst same
    simp [inside]
  · rfl

section Weights

variable {state moved : State Value workers}
  {thread next : Thread Value workers} {number : Nat}

/-- What a thread does to a queue and to its stack. -/
theorem total_residues_put (weigh : Residue Value → Nat)
    (present : state.threads[number]? = some thread) (place : Place workers)
    (closures : List (Closure Value)) (futures : List (Option Value))
    (injectionRr : UInt32) (next : Thread Value workers) :
    total weigh (State.residues {
          queues := Function.update state.queues place closures
          injectionRr, futures
          threads := state.threads.set number next }) +
        total (fun closure => weigh (closure.residue true))
          (state.queues place) + total weigh thread.residues =
      total weigh state.residues +
        total (fun closure => weigh (closure.residue true)) closures +
        total weigh next.residues := by
  have ofQueues := total_shelves_update
    (fun _ => total fun closure : Closure Value =>
      weigh (closure.residue true))
    nodup_places state.queues (mem_places place) closures
  have ofThreads := total_set
    (fun thread : Thread Value workers => total weigh thread.residues)
    present next
  simp only [State.residues, total_append, total_flatMap, total_map]
  omega

theorem total_residues_set (weigh : Residue Value → Nat)
    (present : state.threads[number]? = some thread)
    (futures : List (Option Value)) (next : Thread Value workers) :
    total weigh (State.residues { state with
          futures := futures
          threads := state.threads.set number next }) +
        total weigh thread.residues =
      total weigh state.residues + total weigh next.residues := by
  have ofThreads := total_set
    (fun thread : Thread Value workers => total weigh thread.residues)
    present next
  simp only [State.residues, total_append, total_flatMap]
  omega

theorem lighter_take (present : state.threads[number]? = some thread)
    {place : Place workers} {closure : Closure Value}
    {before after : List (Closure Value)}
    (parts : state.queues place = before ++ closure :: after) :
    Lighter { state.put place (before ++ after) with
      threads := state.threads.set number { thread with
        search := none
        stack := ⟨closure, state.futures.length⟩ :: thread.stack } }
      state := by
  refine .of_exchange (closure.residue true) [closure.residue false] ?_ ?_
  · intro weigh
    have sums := total_residues_put weigh present place (before ++ after)
      state.futures state.injectionRr { thread with
        search := none
        stack := ⟨closure, state.futures.length⟩ :: thread.stack }
    simp only [parts, total_append, total_cons, Thread.residues,
      List.map_cons] at sums
    simp only [State.put, total_cons, total_nil]
    omega
  · intro new member
    rw [List.mem_singleton.mp member]
    exact .start closure.program

section Code

variable {future known started : Nat} {handles : Fin known → Nat}
  {below : List (Activation Value)}

theorem lighter_ret (present : state.threads[number]? = some thread)
    {value : Value}
    (onTop : thread.stack =
      ⟨⟨future, .ret value, handles⟩, started⟩ :: below) :
    Lighter { state with
      futures := state.futures.set future (some value)
      threads := state.threads.set number { thread with stack := below } }
      state := by
  refine .of_exchange ⟨false, (.ret value : Program Value known)⟩ [] ?_ ?_
  · intro weigh
    have sums := total_residues_set weigh present
      (state.futures.set future (some value)) { thread with stack := below }
    simp only [Thread.residues, onTop, List.map_cons, total_cons,
      Closure.residue] at sums
    simp only [total_cons, total_nil]
    omega
  · intro new member
    cases member

theorem lighter_spawn (present : state.threads[number]? = some thread)
    {captured : Nat} {capture : Fin captured → Fin known}
    {body : Program Value captured} {rest : Program Value (known + 1)}
    (onTop : thread.stack =
      ⟨⟨future, .spawn capture body rest, handles⟩, started⟩ :: below)
    (place : Place workers) (injectionRr : UInt32) :
    Lighter { State.put { state with
        futures := state.futures ++ [none]
        injectionRr } place
          (state.queues place ++
            [⟨state.futures.length, body, fun index =>
              handles (capture index)⟩]) with
      threads := state.threads.set number { thread with
        stack := ⟨⟨future, rest, extend handles state.futures.length⟩,
          started⟩ :: below } } state := by
  refine .of_exchange ⟨false, .spawn capture body rest⟩
    [⟨true, body⟩, ⟨false, rest⟩] ?_ ?_
  · intro weigh
    have sums := total_residues_put weigh present place
      (state.queues place ++
        [⟨state.futures.length, body, fun index =>
          handles (capture index)⟩])
      (state.futures ++ [none]) injectionRr { thread with
        stack := ⟨⟨future, rest, extend handles state.futures.length⟩,
          started⟩ :: below }
    simp only [Thread.residues, onTop, List.map_cons, total_append,
      total_cons, total_nil, Closure.residue] at sums
    simp only [State.put, total_cons, total_nil]
    omega
  · intro new member
    rcases List.mem_cons.mp member with rfl | last
    · exact .body capture body rest
    · rw [List.mem_singleton.mp last]
      exact .rest capture body rest

theorem lighter_get (present : state.threads[number]? = some thread)
    {awaited : Fin known} {rest : Value → Program Value known}
    (onTop : thread.stack =
      ⟨⟨future, .get awaited rest, handles⟩, started⟩ :: below)
    (value : Value) :
    Lighter { state with
      threads := state.threads.set number { thread with
        stack := ⟨⟨future, rest value, handles⟩, started⟩ :: below } }
      state := by
  refine .of_exchange ⟨false, .get awaited rest⟩ [⟨false, rest value⟩] ?_ ?_
  · intro weigh
    have sums := total_residues_set weigh present state.futures
      { thread with
        stack := ⟨⟨future, rest value, handles⟩, started⟩ :: below }
    simp only [Thread.residues, onTop, List.map_cons, total_cons,
      Closure.residue] at sums
    simp only [total_cons, total_nil]
    omega
  · intro new member
    rw [List.mem_singleton.mp member]
    exact .get awaited rest value

end Code

/-- A step makes the state lighter, unless the thread only searches. -/
theorem Moved.lighter (present : state.threads[number]? = some thread)
    (effect : Moved state thread moved next) :
    Lighter { moved with threads := state.threads.set number next } state ∨
      OnlySearched state
        { moved with threads := state.threads.set number next } := by
  cases effect with
  | search remaining => exact .inr (onlySearched_withSearch present remaining)
  | take parts => exact .inl (lighter_take present parts)
  | ret onTop => exact .inl (lighter_ret present onTop)
  | spawn onTop => exact .inl (lighter_spawn present onTop _ _)
  | get onTop found => exact .inl (lighter_get present onTop _)

end Weights

theorem step_lighter {state following : State Value workers} {action : Action}
    (stepped : state.step workersPos action = some following) :
    Lighter following state ∨ OnlySearched state following := by
  obtain ⟨thread, moved, next, present, effect, rfl⟩ := step_moved stepped
  exact effect.lighter present

/-- Whatever the schedule, from some point on threads only search: code that
is a finite tree runs, and starts tasks, finitely often. -/
theorem work_is_finite (workersPos : 0 < workers)
    (states : Nat → State Value workers) (actions : Nat → Action)
    (steps : ∀ n, (states n).step workersPos (actions n) =
      some (states (n + 1))) :
    ∃ bound, ∀ n, bound ≤ n → OnlySearched (states n) (states (n + 1)) := by
  have shrinks : ∀ n,
      Relation.CutExpand Residue.Smaller
          ((states (n + 1)).residues : Multiset (Residue Value))
          ((states n).residues : Multiset (Residue Value)) ∨
        ((states (n + 1)).residues : Multiset (Residue Value)) =
          (states n).residues := by
    intro n
    rcases step_lighter (steps n) with lighter | searched
    · exact .inl lighter
    · exact .inr (congrArg _ searched.residues)
  obtain ⟨bound, still⟩ := Machine.exists_last_descent
    Residue.smaller_wellFounded.cutExpand
    (fun n => ((states n).residues : Multiset (Residue Value))) shrinks
  refine ⟨bound, fun n late => ?_⟩
  rcases step_lighter (steps n) with lighter | searched
  · exact absurd lighter (still n late)
  · exact searched

/-- The client's code has come to its end, and worker 0 looks for work. -/
def spawningIdle (step : Nat) : State Nat 1 :=
  { ((forkJoin Nat.one_pos [spawningMain]).run (State.start 1 [spawningMain])
      spawningSchedule).getD (State.start 1 [spawningMain]) with
    threads := [
      { home := some 0
        search := match step % 4 with
          | 0 => none
          | 1 => some (scanOrder 0)
          | 2 => some [.injection 0]
          | _ => some []
        stack := [] },
      { home := none, stack := [] }] }

/-- A run of the pool that never ends. -/
def spawningRun (step : Nat) : State Nat 1 :=
  if step < 7 then
    ((forkJoin Nat.one_pos [spawningMain]).run (State.start 1 [spawningMain])
      (spawningSchedule.take step)).getD (State.start 1 [spawningMain])
  else spawningIdle (step - 7)

theorem spawningIdle_step (step : Nat) :
    (spawningIdle step).step Nat.one_pos ⟨0, false⟩ =
      some (spawningIdle (step + 1)) := by
  have phase : step % 4 = 0 ∨ step % 4 = 1 ∨ step % 4 = 2 ∨ step % 4 = 3 := by
    omega
  rcases phase with here | here | here | here
  all_goals
    simp only [spawningIdle, Nat.add_mod step 1 4, here]
    rfl

theorem work_is_finite_spawning :
    spawningRun 0 = State.start 1 [spawningMain] ∧
      (spawningRun 7).result? 0 = some 3 ∧
      ∃ bound, ∀ n, bound ≤ n →
        OnlySearched (spawningRun n) (spawningRun (n + 1)) := by
  refine ⟨rfl, rfl, ?_⟩
  refine work_is_finite Nat.one_pos spawningRun
    (fun step => spawningSchedule.getD step ⟨0, false⟩) ?_
  intro step
  by_cases early : step < 7
  · interval_cases step
    all_goals rfl
  · obtain ⟨later, rfl⟩ := Nat.exists_eq_add_of_le (not_lt.mp early)
    have idle : spawningSchedule.getD (7 + later) ⟨0, false⟩ = ⟨0, false⟩ :=
      List.getD_eq_default _ _ (Nat.le_add_right 7 later)
    have now : spawningRun (7 + later) = spawningIdle later := by
      rw [spawningRun, if_neg early, Nat.add_sub_cancel_left]
    have next : spawningRun (7 + later + 1) = spawningIdle (later + 1) := by
      rw [spawningRun, if_neg (by omega), Nat.add_assoc,
        Nat.add_sub_cancel_left]
    rw [idle, now, next]
    exact spawningIdle_step later

/-! ## Who waits for whom -/

/-- The future that the code of a closure is about to `get`. -/
def Closure.awaited? (closure : Closure Value) : Option Nat :=
  match closure.program with
  | .get future _ => some (closure.handles future)
  | _ => none

/-- A queued closure is younger than its future and waits for none of those it
captured. -/
structure Closure.Timely (count : Nat) (closure : Closure Value) : Prop where
  future : closure.future < count
  handles : ∀ index, closure.handles index < count
  awaits : closure.program.AwaitsFrom closure.known

/-- A closure that was called after its future was created waits only for
futures created after the call. -/
structure Activation.Timely (count : Nat) (activation : Activation Value) :
    Prop where
  future : activation.closure.future < activation.started
  started : activation.started ≤ count
  handles : ∀ index, activation.closure.handles index < count
  awaits : ∃ own, activation.closure.program.AwaitsFrom own ∧
    ∀ index, own ≤ index.val →
      activation.started ≤ activation.closure.handles index

theorem Activation.Timely.mono {activation : Activation Value}
    {count larger : Nat} (timely : activation.Timely count)
    (more : count ≤ larger) : activation.Timely larger where
  future := timely.future
  started := timely.started.trans more
  handles index := (timely.handles index).trans_le more
  awaits := timely.awaits

theorem Closure.Timely.mono {closure : Closure Value} {count larger : Nat}
    (timely : closure.Timely count) (more : count ≤ larger) :
    closure.Timely larger where
  future := timely.future.trans_le more
  handles index := (timely.handles index).trans_le more
  awaits := timely.awaits

/-- What a timely closure is about to `get` is not older than its call. -/
theorem Activation.Timely.started_le {activation : Activation Value}
    {count awaited : Nat} (timely : activation.Timely count)
    (waits : activation.closure.awaited? = some awaited) :
    activation.started ≤ awaited ∧ awaited < count := by
  obtain ⟨⟨future, program, handles⟩, started⟩ := activation
  obtain ⟨own, awaitsFrom, younger⟩ := timely.awaits
  cases program with
  | get index rest =>
      cases waits
      exact ⟨younger index awaitsFrom.1, timely.handles index⟩
  | _ => cases waits

/-- Some closure, queued or running, has still to `set` the future. -/
def State.Holds (state : State Value workers) (future : Nat) : Prop :=
  (∃ place, ∃ closure ∈ state.queues place, closure.future = future) ∨
    ∃ thread ∈ state.threads, ∃ activation ∈ thread.stack,
      activation.closure.future = future

structure State.Timely (state : State Value workers) : Prop where
  queued : ∀ place, ∀ closure ∈ state.queues place,
    closure.Timely state.futures.length
  running : ∀ thread ∈ state.threads, ∀ activation ∈ thread.stack,
    activation.Timely state.futures.length
  /-- What lies above on a stack was called later. -/
  sorted : ∀ thread ∈ state.threads, thread.stack.Pairwise
    fun above below => below.started ≤ above.started
  held : ∀ future, state.futures[future]? = some none → state.Holds future

section Timely

variable {state moved : State Value workers}
  {thread next : Thread Value workers} {number : Nat}

/-- A closure stays where it is, or goes to the stack of the thread that
moves. -/
theorem State.Holds.install {future : Nat} (holds : state.Holds future)
    (present : state.threads[number]? = some thread)
    (queues : ∀ place, ∀ closure ∈ state.queues place,
      closure.future = future → closure ∈ moved.queues place ∨
        ∃ activation ∈ next.stack, activation.closure.future = future)
    (stack : ∀ activation ∈ thread.stack,
      activation.closure.future = future →
        ∃ later ∈ next.stack, later.closure.future = future) :
    State.Holds { moved with threads := state.threads.set number next }
      future := by
  have isNext : next ∈ state.threads.set number next :=
    List.mem_set (List.getElem?_eq_some_iff.mp present).1 next
  rcases holds with ⟨place, closure, isQueued, same⟩ |
    ⟨other, member, activation, onStack, same⟩
  · rcases queues place closure isQueued same with still | ⟨later, isHere⟩
    · exact .inl ⟨place, closure, still, same⟩
    · exact .inr ⟨next, isNext, later, isHere⟩
  · rcases mem_or_mem_set present next member with rfl | stays
    · obtain ⟨later, isHere⟩ := stack activation onStack same
      exact .inr ⟨next, isNext, later, isHere⟩
    · exact .inr ⟨other, stays, activation, onStack, same⟩

theorem State.Timely.install (timely : state.Timely)
    (more : state.futures.length ≤ moved.futures.length)
    (queued : ∀ place, ∀ closure ∈ moved.queues place,
      closure.Timely moved.futures.length)
    (stack : ∀ activation ∈ next.stack,
      activation.Timely moved.futures.length)
    (sorted : next.stack.Pairwise fun above below =>
      below.started ≤ above.started)
    (held : ∀ future, moved.futures[future]? = some none →
      State.Holds { moved with threads := state.threads.set number next }
        future) :
    State.Timely
      { moved with threads := state.threads.set number next } where
  queued := queued
  running := by
    intro other member activation onStack
    rcases List.mem_or_eq_of_mem_set member with old | rfl
    · exact (timely.running other old activation onStack).mono more
    · exact stack activation onStack
  sorted := by
    intro other member
    rcases List.mem_or_eq_of_mem_set member with old | rfl
    · exact timely.sorted other old
    · exact sorted
  held := held

theorem Moved.timely (timely : state.Timely)
    (present : state.threads[number]? = some thread)
    (effect : Moved state thread moved next) :
    State.Timely
      { moved with threads := state.threads.set number next } := by
  have member := List.mem_of_getElem? present
  have ofThread := timely.running thread member
  have isSorted := timely.sorted thread member
  cases effect with
  | search remaining =>
      refine timely.install le_rfl timely.queued ofThread isSorted
        fun future unresolved => ?_
      exact (timely.held future unresolved).install present
        (fun _ _ isQueued _ => .inl isQueued)
        (fun activation onStack same => ⟨activation, onStack, same⟩)
  | @take place closure before after parts =>
      have wasQueued : closure ∈ state.queues place := by
        rw [parts]
        exact List.mem_append_right _ List.mem_cons_self
      have taken := timely.queued place closure wasQueued
      refine timely.install le_rfl ?_ ?_ ?_ ?_
      · intro each other isQueued
        by_cases same : each = place
        · subst same
          simp only [State.put, Function.update_self] at isQueued
          apply timely.queued each
          rw [parts]
          rcases List.mem_append.mp isQueued with early | late
          · exact List.mem_append_left _ early
          · exact List.mem_append_right _ (List.mem_cons_of_mem _ late)
        · simp only [State.put, Function.update_of_ne same] at isQueued
          exact timely.queued each other isQueued
      · intro activation onStack
        rcases List.mem_cons.mp onStack with rfl | below
        · refine ⟨taken.future, le_rfl, taken.handles, closure.known,
            taken.awaits, ?_⟩
          intro index late
          exact absurd index.isLt (not_lt.mpr late)
        · exact ofThread activation below
      · refine List.pairwise_cons.mpr ⟨?_, isSorted⟩
        intro activation below
        exact (ofThread activation below).started
      · intro future unresolved
        refine (timely.held future unresolved).install present ?_ ?_
        · intro each other isQueued isHolder
          by_cases same : each = place
          · subst same
            rw [parts] at isQueued
            simp only [State.put, Function.update_self]
            rcases List.mem_append.mp isQueued with early | late
            · exact .inl (List.mem_append_left _ early)
            · rcases List.mem_cons.mp late with rfl | later
              · exact .inr ⟨_, List.mem_cons_self, isHolder⟩
              · exact .inl (List.mem_append_right _ later)
          · simp only [State.put, Function.update_of_ne same]
            exact .inl isQueued
        · intro activation onStack isHolder
          exact ⟨activation, List.mem_cons_of_mem _ onStack, isHolder⟩
  | @ret future known started value handles below onTop =>
      rw [onTop] at ofThread isSorted
      have sameCount : (state.futures.set future (some value)).length =
          state.futures.length := List.length_set
      refine timely.install sameCount.ge ?_ ?_
        (List.Pairwise.of_cons isSorted) ?_
      · exact sameCount ▸ timely.queued
      · intro activation onStack
        have stays := ofThread activation (List.mem_cons_of_mem _ onStack)
        exact stays.mono sameCount.ge
      · intro other unresolved
        have different : future ≠ other := by
          rintro rfl
          rw [List.getElem?_set_self'] at unresolved
          cases found : state.futures[future]? <;> simp [found] at unresolved
        rw [List.getElem?_set_ne different] at unresolved
        refine (timely.held other unresolved).install present
          (fun _ _ isQueued _ => .inl isQueued) ?_
        intro activation onStack isHolder
        rw [onTop] at onStack
        rcases List.mem_cons.mp onStack with rfl | under
        · exact absurd isHolder different
        · exact ⟨activation, under, isHolder⟩
  | @spawn future known captured started capture body rest handles below place
      injectionRr onTop =>
      rw [onTop] at ofThread isSorted
      have top := ofThread _ List.mem_cons_self
      obtain ⟨own, ⟨bodyAwaits, restAwaits⟩, younger⟩ := top.awaits
      have longer : (state.futures ++ [none]).length =
          state.futures.length + 1 := by simp
      have new : Closure.Timely (state.futures.length + 1)
          ⟨state.futures.length, body, fun index =>
            handles (capture index)⟩ :=
        ⟨Nat.lt_succ_self _, fun index =>
          Nat.lt_succ_of_lt (top.handles (capture index)), bodyAwaits⟩
      refine timely.install ?_ ?_ ?_ ?_ ?_
      · exact longer.ge.trans' (Nat.le_succ _)
      · intro each other isQueued
        change other.Timely (state.futures ++ [none]).length
        rw [longer]
        by_cases same : each = place
        · subst same
          simp only [State.put, Function.update_self] at isQueued
          rcases List.mem_append.mp isQueued with old | last
          · exact (timely.queued each other old).mono (Nat.le_succ _)
          · rw [List.mem_singleton.mp last]
            exact new
        · simp only [State.put, Function.update_of_ne same] at isQueued
          exact (timely.queued each other isQueued).mono (Nat.le_succ _)
      · intro activation onStack
        change activation.Timely (state.futures ++ [none]).length
        rw [longer]
        rcases List.mem_cons.mp onStack with rfl | under
        · refine ⟨top.future, Nat.le_succ_of_le top.started, ?_, own,
            restAwaits, ?_⟩
          · intro index
            by_cases old : index.val < known
            · change extend handles state.futures.length index < _
              rw [extend_old _ _ _ old]
              exact Nat.lt_succ_of_lt (top.handles _)
            · change extend handles state.futures.length index < _
              rw [extend_last _ _ _ old]
              exact Nat.lt_succ_self _
          · intro index isOwn
            by_cases old : index.val < known
            · change started ≤ extend handles state.futures.length index
              rw [extend_old _ _ _ old]
              exact younger _ isOwn
            · change started ≤ extend handles state.futures.length index
              rw [extend_last _ _ _ old]
              exact top.started
        · exact (ofThread activation (List.mem_cons_of_mem _ under)).mono
            (Nat.le_succ _)
      · refine List.pairwise_cons.mpr ⟨?_, List.Pairwise.of_cons isSorted⟩
        exact (List.pairwise_cons.mp isSorted).1
      · intro other unresolved
        by_cases isNew : other = state.futures.length
        · subst isNew
          refine .inl ⟨place, ⟨state.futures.length, body, fun index =>
            handles (capture index)⟩, ?_, rfl⟩
          simp only [State.put, Function.update_self]
          exact List.mem_append_right _ (List.mem_singleton_self _)
        · have old : state.futures[other]? = some none := by
            change (state.futures ++ [none])[other]? = some none at unresolved
            rw [List.getElem?_append] at unresolved
            split at unresolved
            · exact unresolved
            · have inside := (List.getElem?_eq_some_iff.mp unresolved).1
              simp only [List.length_singleton] at inside
              omega
          refine (timely.held other old).install present ?_ ?_
          · intro each closure isQueued _
            by_cases same : each = place
            · subst same
              simp only [State.put, Function.update_self]
              exact .inl (List.mem_append_left _ isQueued)
            · simp only [State.put, Function.update_of_ne same]
              exact .inl isQueued
          · intro activation onStack isHolder
            rw [onTop] at onStack
            rcases List.mem_cons.mp onStack with rfl | under
            · exact ⟨_, List.mem_cons_self, isHolder⟩
            · exact ⟨activation, List.mem_cons_of_mem _ under, isHolder⟩
  | @get future known started awaited rest handles below value onTop found =>
      rw [onTop] at ofThread isSorted
      have top := ofThread _ List.mem_cons_self
      obtain ⟨own, ⟨_, restAwaits⟩, younger⟩ := top.awaits
      refine timely.install le_rfl timely.queued ?_ ?_ ?_
      · intro activation onStack
        rcases List.mem_cons.mp onStack with rfl | under
        · exact ⟨top.future, top.started, top.handles, own,
            restAwaits value, younger⟩
        · exact ofThread activation (List.mem_cons_of_mem _ under)
      · refine List.pairwise_cons.mpr ⟨?_, List.Pairwise.of_cons isSorted⟩
        exact (List.pairwise_cons.mp isSorted).1
      · intro other unresolved
        refine (timely.held other unresolved).install present
          (fun _ _ isQueued _ => .inl isQueued) ?_
        intro activation onStack isHolder
        rw [onTop] at onStack
        rcases List.mem_cons.mp onStack with rfl | under
        · exact ⟨_, List.mem_cons_self, isHolder⟩
        · exact ⟨activation, List.mem_cons_of_mem _ under, isHolder⟩

end Timely

theorem State.Timely.start (mains : List (Program Value 0))
    (awaits : ∀ main ∈ mains, main.AwaitsFrom 0) :
    (State.start workers mains).Timely where
  queued := by
    intro place closure isQueued
    cases isQueued
  running := by
    intro thread member activation onStack
    rcases List.mem_append.mp member with isWorker | isClient
    · obtain ⟨worker, _, rfl⟩ := List.mem_map.mp isWorker
      cases onStack
    · obtain ⟨index, inside, rfl⟩ := List.mem_mapIdx.mp isClient
      obtain rfl := List.mem_singleton.mp onStack
      refine ⟨inside, by simp [State.start], fun index => index.elim0, 0,
        awaits _ (List.getElem_mem inside), fun index => index.elim0⟩
  sorted := by
    intro thread member
    rcases List.mem_append.mp member with isWorker | isClient
    · obtain ⟨worker, _, rfl⟩ := List.mem_map.mp isWorker
      exact List.Pairwise.nil
    · obtain ⟨index, inside, rfl⟩ := List.mem_mapIdx.mp isClient
      exact List.pairwise_singleton _ _
  held := by
    intro future unresolved
    have inside : future < mains.length := by
      simpa [State.start] using (List.getElem?_eq_some_iff.mp unresolved).1
    refine .inr ⟨_, List.mem_append_right _
      (List.mem_mapIdx.mpr ⟨future, inside, rfl⟩), _,
      List.mem_singleton_self _, rfl⟩

theorem timely_of_reachable {mains : List (Program Value 0)}
    (awaits : ∀ main ∈ mains, main.AwaitsFrom 0)
    {state : State Value workers}
    (reached : (forkJoin workersPos mains).Reachable state) :
    state.Timely := by
  refine Machine.Reachable.invariant ?_ ?_ reached
  · rintro _ rfl
    exact .start mains awaits
  · intro source action following timely stepped
    obtain ⟨thread, moved, next, present, effect, rfl⟩ := step_moved stepped
    exact effect.timely timely present

/-! ## Somebody can go on -/

/-- The thread can only look for other work. -/
def State.Waits (state : State Value workers)
    (activation : Activation Value) : Prop :=
  ∃ future, activation.closure.awaited? = some future ∧
    state.result? future = none

instance (state : State Value workers) (activation : Activation Value) :
    Decidable (state.Waits activation) :=
  decidable_of_iff
    (∃ future ∈ activation.closure.awaited?, state.result? future = none)
    (by simp only [State.Waits, Option.mem_def])

/-- No closure is queued, and every thread waits or has nothing to run. -/
structure State.Stuck (state : State Value workers) : Prop where
  queues : ∀ place, state.queues place = []
  waits : ∀ thread ∈ state.threads, ∀ top ∈ thread.stack.head?,
    state.Waits top

instance (state : State Value workers) : Decidable state.Stuck :=
  decidable_of_iff
    ((∀ place ∈ places workers, state.queues place = []) ∧
      ∀ thread ∈ state.threads, ∀ top ∈ thread.stack.head?, state.Waits top)
    ⟨fun ⟨queues, waits⟩ =>
        ⟨fun place => queues place (mem_places place), waits⟩,
      fun stuck => ⟨fun place _ => stuck.queues place, stuck.waits⟩⟩

structure State.Finished (state : State Value workers) : Prop where
  queues : ∀ place, state.queues place = []
  threads : ∀ thread ∈ state.threads, thread.stack = []

/-- The task that a thread of a stuck state waits for lies on a stack, under a
task that was started later than the one that waits. -/
theorem State.Timely.later {state : State Value workers}
    (timely : state.Timely) (stuck : state.Stuck)
    {thread : Thread Value workers} (member : thread ∈ state.threads)
    {top : Activation Value} {below : List (Activation Value)}
    (onTop : thread.stack = top :: below) :
    ∃ other ∈ state.threads, ∃ above under,
      other.stack = above :: under ∧ top.started < above.started := by
  obtain ⟨future, awaited, unresolved⟩ :=
    stuck.waits thread member top (by rw [onTop]; rfl)
  have isTimely := timely.running thread member top
    (onTop ▸ List.mem_cons_self)
  obtain ⟨younger, exists_⟩ := isTimely.started_le awaited
  have notSet : state.futures[future]? = some none := by
    rw [State.result?, List.getElem?_eq_getElem exists_] at unresolved
    rw [List.getElem?_eq_getElem exists_]
    exact congrArg some unresolved
  rcases timely.held future notSet with ⟨place, closure, isQueued, _⟩ |
    ⟨other, isThread, holder, onStack, isHolder⟩
  · rw [stuck.queues place] at isQueued
    cases isQueued
  · have created := (timely.running other isThread holder onStack).future
    rw [isHolder] at created
    have isSorted := timely.sorted other isThread
    cases stack : other.stack with
    | nil =>
        rw [stack] at onStack
        cases onStack
    | cons above under =>
        refine ⟨other, isThread, above, under, stack, ?_⟩
        rw [stack] at onStack isSorted
        have notBefore : holder.started ≤ above.started := by
          rcases List.mem_cons.mp onStack with rfl | buried
          · exact le_rfl
          · exact (List.pairwise_cons.mp isSorted).1 holder buried
        omega

/-- A timely state is stuck only when all is done. -/
theorem State.Timely.finished {state : State Value workers}
    (timely : state.Timely) (stuck : state.Stuck) : state.Finished := by
  refine ⟨stuck.queues, fun thread member => ?_⟩
  cases stack : thread.stack with
  | nil => rfl
  | cons top below =>
      exfalso
      have late : ∀ bound, ∃ other ∈ state.threads, ∃ above under,
          other.stack = above :: under ∧ bound ≤ above.started := by
        intro bound
        induction bound with
        | zero => exact ⟨thread, member, top, below, stack, Nat.zero_le _⟩
        | succ bound inductionHypothesis =>
            obtain ⟨other, isThread, above, under, onTop, reached⟩ :=
              inductionHypothesis
            obtain ⟨next, isNext, higher, rest, onNext, later⟩ :=
              timely.later stuck isThread onTop
            exact ⟨next, isNext, higher, rest, onNext, by omega⟩
      obtain ⟨other, isThread, above, under, onTop, reached⟩ :=
        late (state.futures.length + 1)
      have inTime := (timely.running other isThread above
        (onTop ▸ List.mem_cons_self)).started
      omega

section Progress

variable {mains : List (Program Value 0)} {state : State Value workers}
  {thread : Thread Value workers} {number : Nat}

/-- Some continuation of the run leaves less code to run. -/
def State.Progresses (workersPos : 0 < workers)
    (mains : List (Program Value 0)) (state : State Value workers) : Prop :=
  ∃ following, (forkJoin workersPos mains).Continues state following ∧
    Lighter following state

theorem State.Progresses.of_continues {middle : State Value workers}
    (continued : (forkJoin workersPos mains).Continues state middle)
    (same : middle.residues = state.residues)
    (progresses : middle.Progresses workersPos mains) :
    state.Progresses workersPos mains := by
  obtain ⟨following, later, lighter⟩ := progresses
  refine ⟨following, continued.trans later, ?_⟩
  rw [Lighter, ← same]
  exact lighter

theorem continues_step {following : State Value workers} (action : Action)
    (stepped : state.step workersPos action = some following) :
    (forkJoin workersPos mains).Continues state following :=
  .next .stay trivial stepped

theorem getElem?_withSearch (present : state.threads[number]? = some thread)
    (search : Option (List (Place workers))) :
    (state.withSearch number thread search).threads[number]? =
      some { thread with search } :=
  List.getElem?_set_self (List.getElem?_eq_some_iff.mp present).1

theorem withSearch_withSearch (search again : Option (List (Place workers))) :
    (state.withSearch number thread search).withSearch number
        { thread with search } again =
      state.withSearch number thread again := by
  simp only [State.withSearch, List.set_set]

/-- A search that misses nothing finds a task or sees empty queues. -/
theorem search_ends (present : state.threads[number]? = some thread)
    {remaining : List (Place workers)}
    (searching : thread.search = some remaining) :
    state.Progresses workersPos mains ∨
      (∀ place ∈ remaining, state.queues place = []) ∧
        (forkJoin workersPos mains).Continues state
          (state.withSearch number thread none) := by
  induction remaining generalizing state thread with
  | nil =>
      refine .inr ⟨by simp, ?_⟩
      apply continues_step ⟨number, false⟩
      simp [State.step, present, Thread.step, searching, State.withSearch]
  | cons place rest inductionHypothesis =>
      cases taken : state.take? thread.home place false with
      | some found =>
          obtain ⟨closure, others⟩ := found
          have stepped : state.step workersPos ⟨number, false⟩ = some
              { state.put place others with
                threads := state.threads.set number { thread with
                  search := none
                  stack := ⟨closure, state.futures.length⟩ ::
                    thread.stack } } := by
            simp [State.step, present, Thread.step, searching, taken]
          obtain ⟨before, after, parts, rfl⟩ := take?_eq_some taken
          exact .inl ⟨_, continues_step _ stepped, lighter_take present parts⟩
      | none =>
          have stepped : state.step workersPos ⟨number, false⟩ =
              some (state.withSearch number thread (some rest)) := by
            simp [State.step, present, Thread.step, searching, taken,
              State.withSearch]
          have continued : (forkJoin workersPos mains).Continues state
              (state.withSearch number thread (some rest)) :=
            continues_step _ stepped
          have searched := onlySearched_withSearch present (some rest)
          rcases inductionHypothesis
              (getElem?_withSearch present (some rest)) rfl with
            progresses | ⟨empty, ended⟩
          · exact .inl (.of_continues continued searched.residues progresses)
          · refine .inr ⟨?_, ?_⟩
            · intro each member
              rcases List.mem_cons.mp member with rfl | later
              · exact take?_eq_none taken
              · exact empty each later
            · rw [withSearch_withSearch] at ended
              exact continued.trans ended

theorem mem_scanOrder (worker : Fin workers) (place : Place workers) :
    place ∈ scanOrder worker := by
  cases place with
  | deque owner =>
      by_cases same : owner = worker
      · simp [scanOrder, same]
      · simp [scanOrder, otherWorkers, same]
  | injection index =>
      by_cases same : index = worker
      · simp [scanOrder, same]
      · simp [scanOrder, otherWorkers, same]

theorem mem_helpOrder (home : Option (Fin workers)) (place : Place workers) :
    place ∈ helpOrder home := by
  cases place with
  | deque owner =>
      by_cases same : some owner = home
      · subst same
        simp [helpOrder]
      · simp [helpOrder, otherWorkers, same]
  | injection index => simp [helpOrder]

theorem step_of_thread (present : state.threads[number]? = some thread)
    {search : Option (List (Place workers))}
    (stepped : thread.step workersPos state false =
      some (state, { thread with search })) :
    state.step workersPos ⟨number, false⟩ =
      some (state.withSearch number thread search) := by
  rw [State.step, present]
  dsimp only
  rw [stepped]
  rfl

/-- A thread whose code waits searches everywhere. -/
theorem step_of_waits (workersPos : 0 < workers)
    (noSearch : thread.search = none)
    {top : Activation Value} {below : List (Activation Value)}
    (onTop : thread.stack = top :: below) (waits : state.Waits top) :
    thread.step workersPos state false =
      some (state, { thread with search := some (helpOrder thread.home) }) := by
  obtain ⟨⟨future, program, handles⟩, started⟩ := top
  obtain ⟨awaited, isAwaited, unresolved⟩ := waits
  cases program with
  | get index rest =>
      cases isAwaited
      simp [Thread.step, noSearch, onTop, unresolved]
  | _ => cases isAwaited

/-- A worker without code on its stack, or with code that waits, finds a task
if any is queued. -/
theorem progresses_of_search {worker : Fin workers}
    (present : state.threads[number]? = some thread)
    (isWorker : thread.home = some worker)
    (waits : ∀ top below, thread.stack = top :: below → state.Waits top)
    {place : Place workers} (someQueued : state.queues place ≠ []) :
    state.Progresses workersPos mains := by
  have begins : ∀ (state : State Value workers)
      (thread : Thread Value workers),
      state.queues place ≠ [] → state.threads[number]? = some thread →
      thread.home = some worker → thread.search = none →
      (∀ top below, thread.stack = top :: below → state.Waits top) →
        state.Progresses workersPos mains := by
    intro state thread someQueued present isWorker noSearch waits
    obtain ⟨order, inOrder, stepped⟩ : ∃ order, place ∈ order ∧
        thread.step workersPos state false =
          some (state, { thread with search := some order }) := by
      cases stack : thread.stack with
      | nil =>
          refine ⟨_, mem_scanOrder worker place, ?_⟩
          simp [Thread.step, noSearch, stack, isWorker]
      | cons top below =>
          refine ⟨_, mem_helpOrder thread.home place, ?_⟩
          rw [← stack]
          exact step_of_waits workersPos noSearch stack
            (waits top below stack)
    refine .of_continues
      (continues_step _ (step_of_thread present stepped))
      (onlySearched_withSearch present (some order)).residues ?_
    rcases search_ends (getElem?_withSearch present (some order)) rfl with
      progresses | ⟨empty, _⟩
    · exact progresses
    · exact absurd (empty place inOrder) someQueued
  cases searching : thread.search with
  | none => exact begins _ _ someQueued present isWorker searching waits
  | some remaining =>
      rcases search_ends present searching with progresses | ⟨_, ended⟩
      · exact progresses
      · refine .of_continues ended
          (onlySearched_withSearch present none).residues ?_
        exact begins _ { thread with search := none } someQueued
          (getElem?_withSearch present none) isWorker rfl waits

/-- Code that does not wait makes its next call. -/
theorem lighter_of_ready (workersPos : 0 < workers)
    (thread : Thread Value workers)
    (present : state.threads[number]? = some thread)
    (noSearch : thread.search = none)
    {top : Activation Value} {below : List (Activation Value)}
    (onTop : thread.stack = top :: below) (ready : ¬ state.Waits top) :
    ∃ following, state.step workersPos ⟨number, false⟩ = some following ∧
      Lighter following state := by
  obtain ⟨⟨future, program, handles⟩, started⟩ := top
  have steps : ∀ (moved : State Value workers) (next : Thread Value workers),
      thread.step workersPos state false = some (moved, next) →
      Lighter { moved with threads := state.threads.set number next } state →
      ∃ following, state.step workersPos ⟨number, false⟩ = some following ∧
        Lighter following state := by
    intro moved next stepped lighter
    refine ⟨_, ?_, lighter⟩
    rw [State.step, present]
    dsimp only
    rw [stepped]
    rfl
  cases program with
  | ret value =>
      refine steps { state with
        futures := state.futures.set future (some value) } _ ?_
        (lighter_ret present onTop)
      simp [Thread.step, noSearch, onTop]
  | spawn capture body rest =>
      obtain ⟨place, injectionRr, pushed⟩ := submit_eq workersPos
        { state with futures := state.futures ++ [none] } thread.home
        ⟨state.futures.length, body, fun index => handles (capture index)⟩
      refine steps _ _ ?_ (lighter_spawn present onTop place injectionRr)
      simp [Thread.step, noSearch, onTop, pushed]
  | get awaited rest =>
      cases found : state.result? (handles awaited) with
      | none => exact absurd ⟨_, rfl, found⟩ ready
      | some value =>
          refine steps state _ ?_ (lighter_get present onTop value)
          simp [Thread.step, noSearch, onTop, found]

theorem progresses_of_ready (present : state.threads[number]? = some thread)
    {top : Activation Value} {below : List (Activation Value)}
    (onTop : thread.stack = top :: below) (ready : ¬ state.Waits top) :
    state.Progresses workersPos mains := by
  cases searching : thread.search with
  | none =>
      obtain ⟨following, stepped, lighter⟩ :=
        lighter_of_ready workersPos thread present searching onTop ready
      exact ⟨following, continues_step _ stepped, lighter⟩
  | some remaining =>
      rcases search_ends present searching with progresses | ⟨_, ended⟩
      · exact progresses
      · obtain ⟨following, stepped, lighter⟩ :=
          lighter_of_ready workersPos { thread with search := none }
            (getElem?_withSearch present none) rfl onTop ready
        exact .of_continues ended
          (onlySearched_withSearch present none).residues
          ⟨following, continues_step _ stepped, lighter⟩

/-- Somebody can go on, or nobody can. -/
theorem stuck_or_progresses (workersPos : 0 < workers)
    (mains : List (Program Value 0))
    (homes : ∀ worker : Fin workers, ∃ thread ∈ state.threads,
      thread.home = some worker) :
    state.Stuck ∨ state.Progresses workersPos mains := by
  by_cases waits : ∀ thread ∈ state.threads, ∀ top ∈ thread.stack.head?,
      state.Waits top
  · by_cases empty : ∀ place, state.queues place = []
    · exact .inl ⟨empty, waits⟩
    · obtain ⟨place, someQueued⟩ := not_forall.mp empty
      obtain ⟨thread, member, isWorker⟩ := homes ⟨0, workersPos⟩
      obtain ⟨number, present⟩ := List.mem_iff_getElem?.mp member
      refine .inr (progresses_of_search present isWorker ?_ someQueued)
      intro top below onTop
      exact waits thread member top (by rw [onTop]; rfl)
  · simp only [not_forall] at waits
    obtain ⟨thread, member, top, isTop, ready⟩ := waits
    obtain ⟨number, present⟩ := List.mem_iff_getElem?.mp member
    cases stack : thread.stack with
    | nil =>
        rw [stack] at isTop
        cases isTop
    | cons first below =>
        rw [stack] at isTop
        cases isTop
        exact .inr (progresses_of_ready present stack ready)

/-- Nothing comes out of a stuck state but searches. -/
theorem State.Stuck.step {following : State Value workers} {action : Action}
    (stuck : state.Stuck)
    (stepped : state.step workersPos action = some following) :
    OnlySearched state following := by
  obtain ⟨thread, moved, next, present, effect, rfl⟩ := step_moved stepped
  have waits : ∀ top below, thread.stack = top :: below → state.Waits top := by
    intro top below onTop
    exact stuck.waits thread (List.mem_of_getElem? present) top
      (by rw [onTop]; rfl)
  cases effect with
  | search remaining => exact onlySearched_withSearch present remaining
  | @take place closure before after parts =>
      rw [stuck.queues place] at parts
      cases before <;> cases parts
  | ret onTop =>
      obtain ⟨_, awaited, _⟩ := waits _ _ onTop
      cases awaited
  | spawn onTop =>
      obtain ⟨_, awaited, _⟩ := waits _ _ onTop
      cases awaited
  | get onTop found =>
      obtain ⟨_, awaited, unresolved⟩ := waits _ _ onTop
      cases awaited
      rw [found] at unresolved
      cases unresolved

theorem OnlySearched.stuck {following : State Value workers}
    (searched : OnlySearched state following) (stuck : state.Stuck) :
    following.Stuck where
  queues place := by
    rw [searched.queues]
    exact stuck.queues place
  waits := by
    intro thread member top isTop
    have isStack : thread.stack ∈ state.threads.map Thread.stack := by
      rw [← searched.onStacks]
      exact List.mem_map_of_mem member
    obtain ⟨old, isOld, same⟩ := List.mem_map.mp isStack
    obtain ⟨future, awaited, unresolved⟩ :=
      stuck.waits old isOld top (by rw [same]; exact isTop)
    refine ⟨future, awaited, ?_⟩
    rw [State.result?, searched.futures]
    exact unresolved

theorem OnlySearched.trans {middle following : State Value workers}
    (earlier : OnlySearched state middle)
    (later : OnlySearched middle following) : OnlySearched state following where
  queues := later.queues.trans earlier.queues
  futures := later.futures.trans earlier.futures
  onStacks := later.onStacks.trans earlier.onStacks

theorem State.Stuck.continues {target : State Value workers}
    (stuck : state.Stuck)
    (continued : (forkJoin workersPos mains).Continues state target) :
    OnlySearched state target := by
  induction continued with
  | stay => exact ⟨rfl, rfl, rfl⟩
  | next _ _ stepped searched =>
      exact searched.trans ((searched.stuck stuck).step stepped)

theorem Moved.home_eq {moved : State Value workers}
    {next : Thread Value workers} (effect : Moved state thread moved next) :
    next.home = thread.home := by
  cases effect <;> rfl

theorem homes_of_reachable
    (reached : (forkJoin workersPos mains).Reachable state)
    (worker : Fin workers) :
    ∃ thread ∈ state.threads, thread.home = some worker := by
  let Invariant (tested : State Value workers) : Prop :=
    ∃ thread ∈ tested.threads, thread.home = some worker
  suffices holds : Invariant state from holds
  refine Machine.Reachable.invariant ?_ ?_ reached
  · rintro _ rfl
    exact ⟨_, List.mem_append_left _
      (List.mem_map_of_mem (List.mem_finRange worker)), rfl⟩
  · rintro source action following ⟨other, member, isWorker⟩ stepped
    obtain ⟨thread, moved, next, present, effect, rfl⟩ := step_moved stepped
    rcases mem_or_mem_set present next member with rfl | stays
    · exact ⟨next, List.mem_set (List.getElem?_eq_some_iff.mp present).1 next,
        effect.home_eq.trans isWorker⟩
    · exact ⟨other, stays, isWorker⟩

/-- The pool has come to a standstill exactly when no closure is queued and
every thread that has code to run waits for a future that is not set. -/
theorem standstill_iff_stuck (state : State Value workers)
    (reached : (forkJoin workersPos mains).Reachable state) :
    (∀ target, (forkJoin workersPos mains).Continues state target →
      OnlySearched state target) ↔ state.Stuck := by
  refine ⟨fun standstill => ?_, fun stuck _ => stuck.continues⟩
  rcases stuck_or_progresses workersPos mains
      (homes_of_reachable reached) with stuck | ⟨target, continued, lighter⟩
  · exact stuck
  · exfalso
    have same := (standstill target continued).residues
    rw [Lighter, same] at lighter
    exact Residue.smaller_wellFounded.cutExpand.irrefl.irrefl _ lighter

/-- The client spawns a task that waits for a task of its own, and another one
that waits for the first. -/
def buriedMain : Program Nat 0 :=
  let inner : Program Nat 0 := .ret 1
  let first : Program Nat 0 :=
    .spawn Fin.elim0 inner (.get 0 fun value => .ret value)
  let second : Program Nat 1 := .get 0 fun value => .ret value
  .spawn Fin.elim0 first (.spawn id second (.get 0 fun value => .ret value))

/-- Worker 1 steals the innermost task, and worker 0, which waits for it, helps
with the second one. -/
def buriedSchedule : List Action :=
  [⟨2, false⟩,
    ⟨0, false⟩, ⟨0, false⟩, ⟨0, false⟩, ⟨0, false⟩,
    ⟨1, false⟩, ⟨1, false⟩, ⟨1, false⟩, ⟨1, false⟩, ⟨1, false⟩,
    ⟨2, false⟩,
    ⟨0, false⟩, ⟨0, false⟩, ⟨0, false⟩, ⟨0, false⟩,
    ⟨1, false⟩]

def buriedPool : Machine (State Nat 2) Action :=
  forkJoin Nat.two_pos [buriedMain]

theorem buried_stuck : ∃ state, buriedPool.Reachable state ∧ state.Stuck ∧
    state.result? 0 = none ∧
      state.threads.map (·.stack.length) = [2, 0, 1] := by
  have check : ((buriedPool.run (State.start 2 [buriedMain])
      buriedSchedule).any fun state =>
        decide state.Stuck && (state.result? 0).isNone &&
          state.threads.map (·.stack.length) == [2, 0, 1]) = true := by
    decide
  obtain ⟨state, ran, checked⟩ := (Option.any_eq_true _ _).mp check
  simp only [Bool.and_eq_true, decide_eq_true_eq, Option.isNone_iff_eq_none,
    beq_iff_eq] at checked
  obtain ⟨⟨stuck, unset⟩, heights⟩ := checked
  exact ⟨state, Machine.reachable_of_run buriedSchedule rfl ran, stuck, unset,
    heights⟩

/-- With two calls on the stack of worker 0 and that of the client waiting,
nothing is left but looking for work. -/
theorem standstill_iff_stuck_buried : ∃ state, buriedPool.Reachable state ∧
    state.threads.map (·.stack.length) = [2, 0, 1] ∧
      ∀ target, buriedPool.Continues state target →
        OnlySearched state target := by
  obtain ⟨state, reached, stuck, _, heights⟩ := buried_stuck
  exact ⟨state, reached, heights,
    (standstill_iff_stuck state reached).mpr stuck⟩

/-- Futures that are handed to another task can bring the pool to a standstill
before the client has its result. -/
theorem buried_task_never_returns :
    ∃ state, buriedPool.Reachable state ∧
      ∀ target, buriedPool.Continues state target →
        target.result? 0 = none := by
  obtain ⟨state, reached, stuck, unset, _⟩ := buried_stuck
  refine ⟨state, reached, ?_⟩
  intro target continued
  rw [State.result?, (stuck.continues continued).futures]
  exact unset

end Progress

/-- When all is done every future has its value. -/
theorem State.Timely.result_of_finished {state : State Value workers}
    (timely : state.Timely) (finished : state.Finished) {future : Nat}
    (inside : future < state.futures.length) :
    ∃ value, state.result? future = some value := by
  have present := List.getElem?_eq_getElem inside
  cases found : state.futures[future] with
  | some value => exact ⟨value, by rw [State.result?, present, found]; rfl⟩
  | none =>
      rw [found] at present
      rcases timely.held future present with ⟨place, closure, isQueued, _⟩ |
        ⟨thread, member, activation, onStack, _⟩
      · rw [finished.queues place] at isQueued
        cases isQueued
      · rw [finished.threads thread member] at onStack
        cases onStack

theorem finishes (mains : List (Program Value 0))
    (awaits : ∀ main ∈ mains, main.AwaitsFrom 0) {state : State Value workers}
    (reached : (forkJoin workersPos mains).Reachable state) :
    ∃ target, (forkJoin workersPos mains).Continues state target ∧
      target.Finished := by
  refine Machine.ContinuesUnder.of_wellFounded
    Residue.smaller_wellFounded.cutExpand
    (fun state => (state.residues : Multiset (Residue Value))) ?_ reached
  intro state reached
  rcases stuck_or_progresses workersPos mains
      (homes_of_reachable reached) with
    stuck | ⟨following, continued, lighter⟩
  · exact .inl ((timely_of_reachable awaits reached).finished stuck)
  · exact .inr ⟨following, continued, reached.continues continued, lighter⟩

/-- When every task waits only for futures that it created itself, all of the
code can still come to an end, whatever has happened so far, and returns what
it returns when every spawned body is run on the spot. -/
theorem fork_join_completes (mains : List (Program Value 0))
    (awaits : ∀ main ∈ mains, main.AwaitsFrom 0) (state : State Value workers)
    (reached : (forkJoin workersPos mains).Reachable state) :
    ∃ target, (forkJoin workersPos mains).Continues state target ∧
      target.Finished ∧
      ∀ index (inside : index < mains.length),
        target.result? index = some (mains[index].value Fin.elim0) := by
  obtain ⟨target, continued, finished⟩ := finishes mains awaits reached
  refine ⟨target, continued, finished, ?_⟩
  intro index inside
  have later := reached.continues continued
  obtain ⟨expected, sound⟩ :=
    sound_of_reachable (mains[index].value Fin.elim0) later
  obtain ⟨value, returned⟩ := (timely_of_reachable awaits later)
    |>.result_of_finished finished (inside.trans_le sound.clients)
  rw [returned, sound.result_eq inside returned]

theorem fork_join_completes_spawned : ∃ target : State Nat 2,
    (forkJoin Nat.two_pos [.spawn Fin.elim0 (.ret 3) (.get 0 .ret)]).Continues
        (State.start 2 [.spawn Fin.elim0 (.ret 3) (.get 0 .ret)]) target ∧
      target.Finished ∧ target.result? 0 = some 3 := by
  obtain ⟨target, continued, finished, results⟩ := fork_join_completes
    [(.spawn Fin.elim0 (.ret 3) (.get 0 .ret) : Program Nat 0)]
    (by simp [Program.AwaitsFrom]) (State.start 2 _) (.start rfl)
  exact ⟨target, continued, finished, results 0 Nat.one_pos⟩

end HydraRT.ForkJoin
