import HydraRT.Inference.InferenceApi
import HydraRT.Lib.Weight

/-!
# The counters of the job manager

As long as the observer is called only for tasks that the runtime was given,
no request is counted as completed before it is counted as submitted, and the
latencies are those of the requests counted as completed.
-/

namespace HydraRT.Inference.Api

open HydraRT.Lib HydraRT.Net

variable {beyond : Bytes → Int32} {stats : Nat → Nat → HttpResponse}

/-- The observer is called for a task that the runtime was given. -/
def Honest (state : State) : Action → Prop
  | .observe p => p ∈ state.tasks
  | _ => True

/-- The request whose first stage the thread has yet to submit. -/
def Call.pending? : Call → Option Nat
  | .emplace id _ | .count id _ | .submitStage id _ => some id
  | _ => none

/-- The request that has an entry but is not counted. -/
def Call.counting? : Call → Option Nat
  | .count id _ => some id
  | _ => none

/-- The task of which the observer has just heard. -/
def Call.observing? : Call → Option StagePayload
  | .stageDone p => some p
  | _ => none

/-- The first stage of the request has been submitted. -/
structure Started (state : State) (id : Nat) : Prop where
  drawn : id < state.table.nextRequestId
  submitted : ∀ thread ∈ state.threads, thread.call.pending? ≠ some id

def counting (thread : Thread) : Nat :=
  if thread.call.counting?.isSome then 1 else 0

structure Counted (state : State) : Prop where
  dated : state.table.Dated state.now
  entries : state.table.jobs.length =
    state.table.submitted + total counting state.threads
  begun : ∀ p ∈ state.tasks, Started state p.requestId
  observed : ∀ thread ∈ state.threads, ∀ p, thread.call = .stageDone p →
    p ∈ state.tasks
  finished : ∀ entry ∈ state.table.jobs, entry.state = .done →
    Started state entry.requestId

theorem claim?_of_pending {thread : Thread} {id : Nat}
    (pending : thread.call.pending? = some id) : thread.claim? = some id := by
  obtain ⟨request, call⟩ := thread
  cases call with
  | emplace own request => exact pending
  | count own request => exact pending
  | submitStage own request => exact pending
  | _ => cases pending

theorem not_pending {call : Call} {claim : Nat → Prop}
    (isNone : call.pending? = none) (id : Nat)
    (isPending : call.pending? = some id) : claim id := by
  rw [isNone] at isPending
  cases isPending

theorem not_observed {call : Call} (isNone : call.observing? = none)
    (p : StagePayload) : call ≠ .stageDone p := by
  rintro rfl
  cases isNone

section Step

variable {state : State} {log : List Event} {number : Nat} {thread : Thread}
  {table : TimedJobs} {tasks : List StagePayload} {call : Call}

/-- The state after a step of a thread. -/
def State.after (state : State) (number : Nat) (thread : Thread)
    (table : TimedJobs) (tasks : List StagePayload) (call : Call) : State :=
  { state with
    table := table
    tasks := tasks
    threads := state.threads.set number { thread with call := call } }

theorem Started.after {id : Nat} (started : Started state id)
    (member : thread ∈ state.threads)
    (drawn : state.table.nextRequestId ≤ table.nextRequestId)
    (pending : ∀ id, call.pending? = some id →
      thread.call.pending? = some id ∨ id = state.table.nextRequestId) :
    Started (state.after number thread table tasks call) id where
  drawn := started.drawn.trans_le drawn
  submitted other isOther isPending := by
    rcases List.mem_or_eq_of_mem_set isOther with old | rfl
    · exact started.submitted other old isPending
    · rcases pending id isPending with before | rfl
      · exact started.submitted thread member before
      · exact Nat.lt_irrefl _ started.drawn

/-- What a step does to the counters. -/
structure Counts (state : State) (thread : Thread) (table : TimedJobs)
    (tasks : List StagePayload) (call : Call) : Prop where
  dated : table.Dated state.now
  entries : table.jobs.length + state.table.submitted +
      counting thread =
    state.table.jobs.length + table.submitted +
      counting { thread with call := call }
  drawn : state.table.nextRequestId ≤ table.nextRequestId
  pending : ∀ id, call.pending? = some id →
    thread.call.pending? = some id ∨ id = state.table.nextRequestId
  given : ∀ p ∈ tasks, p ∈ state.tasks ∨
    (∃ old ∈ state.tasks, p.requestId = old.requestId) ∨
    (thread.call.pending? = some p.requestId ∧ call.pending? = none)
  kept : ∀ p ∈ state.tasks, p ∈ tasks
  notObserved : ∀ p, call ≠ .stageDone p
  finished : ∀ entry ∈ table.jobs, entry.state = .done →
    (∃ old ∈ state.table.jobs, old.state = .done ∧
      old.requestId = entry.requestId) ∨
    ∃ p ∈ state.tasks, p.requestId = entry.requestId

theorem Counted.after (counted : Counted state)
    (consistent : Consistent beyond state log)
    (present : state.threads[number]? = some thread)
    (counts : Counts state thread table tasks call) :
    Counted (state.after number thread table tasks call) := by
  have member := List.mem_of_getElem? present
  have still : ∀ {id}, Started state id →
      Started (state.after number thread table tasks call) id :=
    fun started => started.after member counts.drawn counts.pending
  refine ⟨counts.dated, ?_, ?_, ?_, ?_⟩
  · have replaced := total_set counting present { thread with call := call }
    have before := counted.entries
    have balance := counts.entries
    change table.jobs.length = table.submitted +
      total counting (state.threads.set number { thread with call := call })
    omega
  · intro p isTask
    rcases counts.given p isTask with old | ⟨old, isOld, same⟩ | ⟨was, is⟩
    · exact still (counted.begun p old)
    · rw [same]
      exact still (counted.begun old isOld)
    · -- no other thread has drawn the id
      have claimed := claim?_of_pending was
      refine ⟨(consistent.claims number thread present _ claimed).2.trans_le
        counts.drawn, ?_⟩
      intro other isOther isPending
      obtain ⟨index, found⟩ := List.mem_iff_getElem?.mp isOther
      rw [State.after, List.getElem?_set] at found
      split_ifs at found with here
      · obtain rfl := Option.some.inj found
        rw [is] at isPending
        cases isPending
      · exact here (consistent.unique _ _ thread other _ present found claimed
          (claim?_of_pending isPending))
  · intro other isOther p isObserved
    rcases List.mem_or_eq_of_mem_set isOther with old | rfl
    · exact counts.kept p (counted.observed other old p isObserved)
    · exact absurd isObserved (counts.notObserved p)
  · intro entry isEntry isDone
    rcases counts.finished entry isEntry isDone with
      ⟨old, isOld, wasDone, same⟩ | ⟨p, isTask, same⟩
    · rw [← same]
      exact still (counted.finished old isOld wasDone)
    · rw [← same]
      exact still (counted.begun p isTask)

/-- A step that leaves the jobs and the tasks as they are, and neither begins
nor ends a count. -/
theorem Counts.of_same (counted : Counted state)
    (quiet : call.counting? = thread.call.counting?)
    (pending : ∀ id, call.pending? = some id →
      thread.call.pending? = some id ∨ id = state.table.nextRequestId)
    (notObserved : ∀ p, call ≠ .stageDone p) :
    Counts state thread state.table state.tasks call where
  dated := counted.dated
  entries := by
    rw [counting, counting, quiet]
  drawn := le_rfl
  pending := pending
  given p isTask := .inl isTask
  kept p isTask := isTask
  notObserved := notObserved
  finished entry isEntry isDone := .inl ⟨entry, isEntry, isDone, rfl⟩

/-- The last stage of a task that the runtime was given is done. -/
theorem counts_markDone (counted : Counted state) {p : StagePayload}
    (isTask : p ∈ state.tasks) {request : Option HttpRequest} :
    Counts state ⟨request, .stageDone p⟩ (state.table.markDone p state.now)
      state.tasks .observed := by
  have dated := counted.dated.markDone p
  have unchanged : Counts state ⟨request, .stageDone p⟩ state.table
      state.tasks .observed :=
    .of_same counted rfl (not_pending rfl) (not_observed rfl)
  rw [TimedJobs.markDone] at dated ⊢
  cases found : state.table.status p.requestId with
  | none => exact unchanged
  | some entry =>
      rw [found] at dated
      dsimp only at dated ⊢
      split_ifs at dated ⊢
      · exact unchanged
      · refine ⟨dated, ?_, le_rfl, not_pending rfl, fun _ => .inl,
          fun _ => id, not_observed rfl, ?_⟩
        · rw [Keyed.changeAt, List.length_map]
          rfl
        · intro changed isEntry isDone
          obtain ⟨old, isOld, rfl⟩ := List.mem_map.mp isEntry
          by_cases same : old.key = p.requestId
          · rw [if_pos same]
            exact .inr ⟨p, isTask, same.symm⟩
          · rw [if_neg same] at isDone ⊢
            exact .inl ⟨old, isOld, isDone, rfl⟩

theorem counts_of_step (counted : Counted state)
    (consistent : Consistent beyond state log)
    (present : state.threads[number]? = some thread)
    (stepped : thread.call.step beyond stats state.table state.now
      state.tasks = some (table, tasks, call)) :
    Counts state thread table tasks call := by
  have member := List.mem_of_getElem? present
  have fits := consistent.fits number thread present
  obtain ⟨request, current⟩ := thread
  dsimp only at fits stepped
  cases fits with
  | handle request =>
      cases stepped
      have undrawn : (dispatch beyond request).pending? = none ∧
          (dispatch beyond request).counting? = none ∧
            (dispatch beyond request).observing? = none := by
        rw [dispatch]
        split_ifs
        · exact ⟨rfl, rfl, rfl⟩
        · cases requestedId request with
          | none => exact ⟨rfl, rfl, rfl⟩
          | some id => exact ⟨rfl, rfl, rfl⟩
        · exact ⟨rfl, rfl, rfl⟩
        · exact ⟨rfl, rfl, rfl⟩
      obtain ⟨noPending, noCount, unobserved⟩ := undrawn
      exact .of_same counted noCount (not_pending noPending)
        (not_observed unobserved)
  | submit isInfer =>
      cases stepped
      refine ⟨⟨counted.dated.distinct, counted.dated.timely,
          counted.dated.counted⟩, rfl, Nat.le_succ _, ?_, fun _ => .inl,
        fun _ isTask => isTask, not_observed rfl,
        fun entry isEntry isDone => .inl ⟨entry, isEntry, isDone, rfl⟩⟩
      intro id isPending
      exact .inr (Option.some.inj isPending).symm
  | @emplace request id isInfer absent =>
      cases stepped
      have added : (state.table.emplace id (inferRequest beyond request).kind
          state.now).jobs = state.table.jobs ++
            [{ requestId := id, state := .running, stage := .decode
               kind := (inferRequest beyond request).kind
               submitNs := state.now }] := by
        rw [TimedJobs.emplace, Keyed.upsert_keep]
        rw [TimedJobs.status] at absent
        exact if_neg (by simp [TimedStatus.key, absent])
      refine ⟨counted.dated.emplace id _, ?_, le_rfl, fun _ => .inl,
        fun _ => .inl, fun _ isTask => isTask, not_observed rfl, ?_⟩
      · rw [added, List.length_append, List.length_singleton]
        exact Nat.add_right_comm _ 1 _
      · intro entry isEntry isDone
        rw [added] at isEntry
        rcases List.mem_append.mp isEntry with old | new
        · exact .inl ⟨entry, old, isDone, rfl⟩
        · obtain rfl := List.mem_singleton.mp new
          cases isDone
  | count isInfer found kind =>
      cases stepped
      exact ⟨⟨counted.dated.distinct, counted.dated.timely,
          counted.dated.counted⟩, rfl, le_rfl, fun _ => .inl,
        fun _ => .inl, fun _ isTask => isTask, not_observed rfl,
        fun entry isEntry isDone => .inl ⟨entry, isEntry, isDone, rfl⟩⟩
  | @submitStage request id st isInfer found kind =>
      cases stepped
      refine ⟨counted.dated, rfl, le_rfl, not_pending rfl, ?_, ?_,
        not_observed rfl,
        fun entry isEntry isDone => .inl ⟨entry, isEntry, isDone, rfl⟩⟩
      · intro p isTask
        rcases List.mem_append.mp isTask with old | new
        · exact .inl old
        · obtain rfl := List.mem_singleton.mp new
          exact .inr (.inr ⟨rfl, rfl⟩)
      · exact fun p isTask => List.mem_append_left _ isTask
  | lookUp asks =>
      cases stepped
      exact .of_same counted rfl (not_pending rfl) (not_observed rfl)
  | loadSubmitted route =>
      cases stepped
      exact .of_same counted rfl (not_pending rfl) (not_observed rfl)
  | loadCompleted submitted route =>
      cases stepped
      exact .of_same counted rfl (not_pending rfl) (not_observed rfl)
  | respond reports =>
      cases stepped
      exact .of_same counted rfl (not_pending rfl) (not_observed rfl)
  | sent reports => cases stepped
  | stageDone p =>
      have isTask := counted.observed _ member p rfl
      rw [Call.step] at stepped
      cases next : p.next? with
      | some next =>
          rw [next] at stepped
          cases stepped
          refine ⟨counted.dated, rfl, le_rfl, not_pending rfl, ?_, ?_,
            not_observed rfl,
            fun entry isEntry isDone => .inl ⟨entry, isEntry, isDone, rfl⟩⟩
          · intro other isOther
            rcases List.mem_append.mp isOther with old | new
            · exact .inl old
            · obtain rfl := List.mem_singleton.mp new
              exact .inr (.inl ⟨p, isTask,
                (StagePayload.next?_eq_some next).1⟩)
          · exact fun other isOther => List.mem_append_left _ isOther
      | none =>
          rw [next] at stepped
          dsimp only at stepped
          split_ifs at stepped
          · cases stepped
            exact counts_markDone counted isTask
          · cases stepped
            exact .of_same counted rfl (not_pending rfl) (not_observed rfl)
  | record p =>
      cases stepped
      refine ⟨counted.dated.recordStage p, ?_, le_rfl, not_pending rfl,
        fun _ => .inl, fun _ isTask => isTask, not_observed rfl, ?_⟩
      · rw [TimedJobs.recordStage, Keyed.changeAt, List.length_map]
        rfl
      · intro entry isEntry isDone
        obtain ⟨old, isOld, rfl⟩ := List.mem_map.mp isEntry
        refine .inl ⟨old, isOld, ?_, ?_⟩
        · split_ifs at isDone
          · exact isDone
          · exact isDone
        · split_ifs
          · rfl
          · rfl
  | observed => cases stepped

end Step

/-! ## Runs -/

theorem Counted.begin {state : State} (counted : Counted state)
    {thread : Thread} (quiet : thread.call.pending? = none)
    (given : ∀ p, thread.call = .stageDone p → p ∈ state.tasks) :
    Counted { state with threads := state.threads ++ [thread] } := by
  have uncounted : counting thread = 0 := by
    obtain ⟨request, call⟩ := thread
    cases call with
    | count id request => cases quiet
    | _ => rfl
  have still : ∀ {id}, Started state id →
      Started { state with threads := state.threads ++ [thread] } id := by
    intro id started
    refine ⟨started.drawn, fun other isOther isPending => ?_⟩
    rcases List.mem_append.mp isOther with old | new
    · exact started.submitted other old isPending
    · obtain rfl := List.mem_singleton.mp new
      rw [quiet] at isPending
      cases isPending
  refine ⟨counted.dated, ?_, ?_, ?_, ?_⟩
  · rw [total_append, total_cons, uncounted, total_nil]
    exact counted.entries
  · exact fun p isTask => still (counted.begun p isTask)
  · intro other isOther p isObserved
    rcases List.mem_append.mp isOther with old | new
    · exact counted.observed other old p isObserved
    · obtain rfl := List.mem_singleton.mp new
      exact given p isObserved
  · exact fun entry isEntry isDone => still
      (counted.finished entry isEntry isDone)

theorem counted_step {state following : State} {log : List Event}
    {action : Action} (counted : Counted state)
    (consistent : Consistent beyond state log) (honest : Honest state action)
    (stepped : (api beyond stats).step state action = some following) :
    Counted following := by
  cases action with
  | pass ns =>
      cases stepped
      exact ⟨counted.dated.mono (Nat.le_add_right _ _), counted.entries,
        fun p isTask => ⟨(counted.begun p isTask).drawn,
          (counted.begun p isTask).submitted⟩,
        counted.observed,
        fun entry isEntry isDone =>
          ⟨(counted.finished entry isEntry isDone).drawn,
            (counted.finished entry isEntry isDone).submitted⟩⟩
  | ask request =>
      cases stepped
      exact counted.begin rfl nofun
  | observe p =>
      cases stepped
      refine counted.begin rfl fun other same => ?_
      obtain rfl := Call.stageDone.inj same
      exact honest
  | advance number =>
      rw [api] at stepped
      dsimp only [State.step] at stepped
      split at stepped
      · cases stepped
      · rename_i thread present
        obtain ⟨⟨table, tasks, call⟩, moved, rfl⟩ :=
          Option.map_eq_some_iff.mp stepped
        exact counted.after consistent present
          (counts_of_step counted consistent present moved)

theorem counted_start : Counted {} where
  dated := ⟨List.nodup_nil, fun _ member => absurd member List.not_mem_nil, rfl⟩
  entries := rfl
  begun _ member := absurd member List.not_mem_nil
  observed _ member := absurd member List.not_mem_nil
  finished _ member := absurd member List.not_mem_nil

theorem counted_of_reachable {state : State}
    (reached : (api beyond stats).ReachableUnder Honest state) :
    (∃ log, Consistent beyond state log) ∧ Counted state := by
  refine @Machine.ReachableUnder.invariant _ _ _ _
    (fun state => (∃ log, Consistent beyond state log) ∧ Counted state)
    ?_ ?_ _ reached
  · rintro _ rfl
    exact ⟨⟨[], consistent_start⟩, counted_start⟩
  · rintro state action following ⟨⟨log, consistent⟩, counted⟩ honest stepped
    exact ⟨⟨_, consistent_step consistent stepped⟩,
      counted_step counted consistent honest stepped⟩

/-! ## The counters -/

/-- The requests that have an entry and are not counted yet. -/
def State.uncounted (state : State) : List Nat :=
  state.threads.filterMap (·.call.counting?)

theorem State.length_uncounted (state : State) :
    state.uncounted.length = total counting state.threads := by
  rw [uncounted, List.length_filterMap_eq_countP, countP_eq_total]
  rfl

theorem pending_of_counting {call : Call} {id : Nat}
    (isCounting : call.counting? = some id) : call.pending? = some id := by
  cases call with
  | count own request => exact isCounting
  | _ => cases isCounting

theorem Consistent.nodup_uncounted {state : State} {log : List Event}
    (consistent : Consistent beyond state log) : state.uncounted.Nodup := by
  rw [State.uncounted, List.Nodup, List.pairwise_filterMap,
    List.pairwise_iff_getElem]
  intro first second insideFirst insideSecond ordered id isFirst other
    isSecond same
  subst same
  exact ordered.ne (consistent.unique first second _ _ id
    (List.getElem?_eq_getElem insideFirst)
    (List.getElem?_eq_getElem insideSecond)
    (claim?_of_pending (pending_of_counting isFirst))
    (claim?_of_pending (pending_of_counting isSecond)))

/-- An uncounted request is not done. -/
theorem Counted.uncounted_unfinished {state : State} {log : List Event}
    (counted : Counted state) (consistent : Consistent beyond state log) :
    state.uncounted ⊆
      (state.table.jobs.filter fun entry => !(entry.state == .done)).map
        TimedStatus.key := by
  intro id isUncounted
  obtain ⟨thread, member, isCounting⟩ := List.mem_filterMap.mp isUncounted
  obtain ⟨number, present⟩ := List.mem_iff_getElem?.mp member
  have fits := consistent.fits number thread present
  have pending := pending_of_counting isCounting
  obtain ⟨request, call⟩ := thread
  cases fits with
  | @count request own st isInfer found kind =>
      obtain rfl : own = id := Option.some.inj isCounting
      have isEntry := List.mem_of_find?_eq_some found
      have key := TimedJobs.requestId_of_status found
      refine List.mem_map.mpr ⟨st, List.mem_filter.mpr ⟨isEntry, ?_⟩, key⟩
      rw [Bool.not_eq_true', beq_eq_false_iff_ne]
      intro isDone
      exact (counted.finished st isEntry isDone).submitted _ member
        (pending.trans (congrArg some key.symm))
  | _ => cases isCounting

/-- Every completed request has been counted as submitted, and every submitted
one has its entry; each latency is the time between the two stamps of a
completed request. -/
theorem counters_add_up (beyond : Bytes → Int32)
    (stats : Nat → Nat → HttpResponse) {state : State}
    (reached : (api beyond stats).ReachableUnder Honest state) :
    state.table.completed ≤ state.table.submitted ∧
      state.table.submitted ≤ state.table.jobs.length ∧
      state.table.requestLatenciesNs.length = state.table.completed ∧
      ∀ entry ∈ state.table.jobs, entry.state = .done →
        entry.submitNs + entry.latencyNs = entry.finishNs ∧
          entry.finishNs ≤ state.now := by
  obtain ⟨⟨log, consistent⟩, counted⟩ := counted_of_reachable reached
  have entries := counted.entries
  rw [← state.length_uncounted] at entries
  have latencies := counted.dated.length_requestLatenciesNs
  have unfinished : state.uncounted.length ≤
      (state.table.jobs.filter fun entry => !(entry.state == .done)).length := by
    have bound := (List.subperm_of_subset consistent.nodup_uncounted
      (counted.uncounted_unfinished consistent)).length_le
    rwa [List.length_map] at bound
  have finished := latencies
  rw [TimedJobs.requestLatenciesNs, List.length_map] at finished
  have parts := state.table.jobs.length_eq_length_filter_add
    (fun entry => entry.state == .done)
  refine ⟨by omega, by omega, latencies, ?_⟩
  · intro entry isEntry isDone
    obtain ⟨ordered, late⟩ :=
      (counted.dated.timely entry isEntry).finished isDone
    refine ⟨?_, late⟩
    rw [TimedStatus.latencyNs]
    split_ifs
    · omega
    · omega

instance (state : State) (action : Action) :
    Decidable (Honest state action) :=
  match action with
  | .observe p => inferInstanceAs (Decidable (p ∈ state.tasks))
  | .pass _ | .ask _ | .advance _ => isTrue trivial

/-- The four stages of a request end after one another. -/
def finishingRun : List Action :=
  [.ask posting, .advance 0, .advance 0, .advance 0, .pass 10, .advance 0,
    .advance 0, .advance 0, .observe (postedStage .decode), .advance 1,
    .advance 1, .observe (postedStage .preprocess), .advance 2,
    .observe (postedStage .infer), .advance 3, .advance 2, .pass 20,
    .observe (postedStage .postprocess), .advance 4, .advance 3]

theorem counters_add_up_finishing : ∃ state : State,
    (api (fun _ => 0) fun _ _ => {}).ReachableUnder Honest state ∧
      state.now = 30 ∧ state.table.completed = 1 ∧ state.table.submitted = 1 ∧
      state.table.requestLatenciesNs.length = 1 := by
  have check : ((api (fun _ => 0) fun _ _ => {}).run {} finishingRun).any
      (fun state => state.now == 30 && state.table.completed == 1 &&
        state.table.jobs.length == 1) = true := by
    decide
  obtain ⟨state, ran, facts⟩ := (Option.any_eq_true _ _).mp check
  simp only [Bool.and_eq_true, beq_iff_eq] at facts
  obtain ⟨⟨now, completed⟩, entries⟩ := facts
  have reached := Machine.ReachableUnder.run finishingRun (.start rfl) ran
    (by decide : (api (fun _ => 0) fun _ _ => {}).Meets Honest {} finishingRun)
  obtain ⟨submitted, counted, latencies, _⟩ :=
    counters_add_up (fun _ => 0) _ reached
  exact ⟨state, reached, now, completed, by omega, latencies.trans completed⟩

end HydraRT.Inference.Api
