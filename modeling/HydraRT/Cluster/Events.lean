import HydraRT.Cluster.Tokens

/-!
# Every step is an event

The step function of a node is taken apart once, here: each step of each call
is one of the events of the abstract view.  Invariants are then checked event
by event.
-/

namespace HydraRT.Cluster

open HydraRT.Inference
open HydraRT.Lib

variable {config : NodeConfig}

/-- What a step does to the shared state and to the tokens `old` that the
acting call holds. -/
structure Effect (shared following : Shared config) (old new : List Token)
    (event : Event) : Prop where
  books : following.books = event.enter config shared.books
  moves : Moves (shared.tokens ++ old) (following.tokens ++ new)
    (event.removed config) (event.added config shared.books)
  allowed : event.Allowed config shared.tokens

/-- The event does not depend on the outside. -/
def Event.Internal (config : NodeConfig) (event : Event) : Prop :=
  ∀ action, event.CausedBy config action

/-- Some internal event describes the step, and it writes the status `write`
if there is one. -/
def Explained (shared following : Shared config) (old new : List Token)
    (write : Option StagePayload) : Prop :=
  ∃ event : Event, event.Internal config ∧ event.write? = write ∧
    Effect shared following old new event

namespace Effect

variable {shared following : Shared config} {old new : List Token}
  {event : Event}

/-- Tokens the step does not touch. -/
theorem context (effect : Effect shared following old new event)
    (others : List Token) :
    Effect shared following (others ++ old) (others ++ new) event where
  books := effect.books
  moves := by
    intro weigh
    have equation := effect.moves weigh
    simp only [total_append] at equation ⊢
    omega
  allowed := effect.allowed

theorem contextRight (effect : Effect shared following old new event)
    (others : List Token) :
    Effect shared following (old ++ others) (new ++ others) event where
  books := effect.books
  moves := by
    intro weigh
    have equation := effect.moves weigh
    simp only [total_append] at equation ⊢
    omega
  allowed := effect.allowed

end Effect

namespace Explained

variable {shared following : Shared config} {old new : List Token}
  {write : Option StagePayload}

theorem context (explained : Explained shared following old new write)
    (others : List Token) :
    Explained shared following (others ++ old) (others ++ new) write := by
  obtain ⟨event, internal, writes, effect⟩ := explained
  exact ⟨event, internal, writes, effect.context others⟩

theorem contextRight (explained : Explained shared following old new write)
    (others : List Token) :
    Explained shared following (old ++ others) (new ++ others) write := by
  obtain ⟨event, internal, writes, effect⟩ := explained
  exact ⟨event, internal, writes, effect.contextRight others⟩

/-- A step that neither the books nor the tokens show. -/
theorem quiet (sameBooks : following.books = shared.books)
    (sameTokens : following.tokens ++ new = shared.tokens ++ old) :
    Explained shared following old new none := by
  refine ⟨.quiet, fun _ => trivial, rfl, sameBooks, ?_, trivial⟩
  intro weigh
  rw [sameTokens]
  rfl

end Explained

/-! ## Queues -/

theorem Shared.total_put (weigh : Token → Nat) (shared : Shared config)
    (queue : Queue config) (tasks : List Task) :
    total weigh (shared.put queue tasks).tokens +
        total weigh (queuedTokens queue.isPool (shared.queues queue)) =
      total weigh shared.tokens +
        total weigh (queuedTokens queue.isPool tasks) := by
  have restocked := total_shelves_update
    (fun each tasks => total weigh (queuedTokens each.isPool tasks))
    Queue.nodup_all shared.queues (Queue.mem_all queue) tasks
  simp only [Shared.tokens, Shared.put, total_append, total_flatMap]
  omega

theorem Shared.total_push (weigh : Token → Nat) (shared : Shared config)
    (queue : Queue config) (task : Task) :
    total weigh (shared.push queue task).tokens =
      total weigh shared.tokens + weigh ⟨.queued queue.isPool, task⟩ := by
  have stocked := shared.total_put weigh queue (shared.queues queue ++ [task])
  simp only [queuedTokens, List.map_append, List.map_cons, List.map_nil,
    total_append, total_cons, total_nil] at stocked
  unfold Shared.push
  omega

/-- Taking a task changes nothing but its queue. -/
theorem Shared.take?_eq_some {shared following : Shared config}
    {home : Option (Fin config.workers)} {queue : Queue config}
    {misses : Bool} {task : Task}
    (taken : shared.take? home queue misses = some (task, following)) :
    ∃ rest, following = shared.put queue rest ∧
      ∀ weigh : Token → Nat,
        total weigh (queuedTokens queue.isPool (shared.queues queue)) =
          total weigh (queuedTokens queue.isPool rest) +
            weigh ⟨.queued queue.isPool, task⟩ := by
  have front : ∀ {rest : List Task}, shared.queues queue = task :: rest →
      ∀ weigh : Token → Nat,
        total weigh (queuedTokens queue.isPool (shared.queues queue)) =
          total weigh (queuedTokens queue.isPool rest) +
            weigh ⟨.queued queue.isPool, task⟩ := by
    intro rest content weigh
    rw [content]
    simp only [queuedTokens, List.map_cons, total_cons]
    omega
  unfold Shared.take? at taken
  split at taken
  · split at taken
    · split at taken
      · cases taken
      · rename_i last
        simp only [Option.some.injEq, Prod.mk.injEq] at taken
        obtain ⟨rfl, rfl⟩ := taken
        refine ⟨_, rfl, ?_⟩
        intro weigh
        have split := List.dropLast_append_getLast? _ last
        conv_lhs => rw [← split]
        simp [queuedTokens]
    · split at taken
      · cases taken
      · split at taken
        · cases taken
        · rename_i content
          simp only [Option.some.injEq, Prod.mk.injEq] at taken
          obtain ⟨rfl, rfl⟩ := taken
          exact ⟨_, rfl, front content⟩
  · split at taken
    · cases taken
    · rename_i content
      simp only [Option.some.injEq, Prod.mk.injEq] at taken
      obtain ⟨rfl, rfl⟩ := taken
      exact ⟨_, rfl, front content⟩

theorem Shared.total_take? {shared following : Shared config}
    {home : Option (Fin config.workers)} {queue : Queue config}
    {misses : Bool} {task : Task}
    (taken : shared.take? home queue misses = some (task, following))
    (weigh : Token → Nat) :
    total weigh following.tokens + weigh ⟨.queued queue.isPool, task⟩ =
      total weigh shared.tokens := by
  obtain ⟨rest, rfl, content⟩ := Shared.take?_eq_some taken
  have stocked := shared.total_put weigh queue rest
  have before := content weigh
  omega

theorem Shared.books_take? {shared following : Shared config}
    {home : Option (Fin config.workers)} {queue : Queue config}
    {misses : Bool} {task : Task}
    (taken : shared.take? home queue misses = some (task, following)) :
    following.books = shared.books := by
  obtain ⟨rest, rfl, _⟩ := Shared.take?_eq_some taken
  rfl

/-! ## Submitting -/

theorem SubmitCall.step_some {shared following : Shared config}
    {home : Option (Fin config.workers)} {call rest : SubmitCall config}
    (stepped : call.step shared home = (following, some rest))
    (site : Site) :
    Explained shared following (call.tokens site) (rest.tokens site)
      none := by
  obtain ⟨task, pool, pc⟩ := call
  cases pc with
  | takeId =>
      cases stepped
      refine ⟨.number site pool.isSome task, fun _ => trivial, rfl, rfl, ?_,
        trivial⟩
      intro weigh
      change total weigh (shared.tokens ++ _) + _ = _
      simp only [total_append, SubmitCall.tokens, Event.removed, Event.added,
        Shared.books]
      omega
  | count =>
      cases stepped
      refine ⟨.count site pool.isSome task, fun _ => trivial, rfl, rfl, ?_,
        trivial⟩
      intro weigh
      change total weigh (shared.tokens ++ _) + _ = _
      simp only [total_append, Event.removed, Event.added]
      cases pool <;> cases home <;>
        simp only [SubmitCall.tokens, Queue.isPool, Option.isSome_none,
          Option.isSome_some] <;>
        omega
  | route =>
      cases stepped
      exact Explained.quiet rfl rfl
  | push queue =>
      cases stepped

theorem SubmitCall.step_none {shared following : Shared config}
    {home : Option (Fin config.workers)} {call : SubmitCall config}
    (stepped : call.step shared home = (following, none))
    (site : Site) :
    ∃ portable, call.tokens site = [⟨.counted site portable, call.task⟩] ∧
      following.books = shared.books ∧
      ∀ weigh : Token → Nat,
        total weigh following.tokens =
          total weigh shared.tokens + weigh ⟨.queued portable, call.task⟩ := by
  obtain ⟨task, pool, pc⟩ := call
  cases pc with
  | push queue =>
      cases stepped
      exact ⟨queue.isPool, rfl, rfl, fun weigh =>
        shared.total_push weigh queue task⟩
  | takeId => cases stepped
  | count => cases stepped
  | route => cases stepped

/-- A submission whose caller has nothing to settle. -/
theorem SubmitCall.explained (shared : Shared config)
    (home : Option (Fin config.workers)) (call : SubmitCall config)
    {site : Site} (plain : site ≠ .successor ∧ site ≠ .rerun) :
    Explained shared (call.step shared home).1 (call.tokens site)
      (((call.step shared home).2.map (SubmitCall.tokens site)).getD [])
      none := by
  generalize stepped : call.step shared home = result
  obtain ⟨following, rest⟩ := result
  cases rest with
  | some rest =>
      exact SubmitCall.step_some stepped site
  | none =>
      obtain ⟨portable, held, sameBooks, pushed⟩ :=
        SubmitCall.step_none stepped site
      refine ⟨.enqueue site portable call.task, fun _ => trivial, rfl, sameBooks,
        ?_, plain⟩
      intro weigh
      have stocked := pushed weigh
      simp only [held, Option.map_none, Option.getD_none, total_append,
        total_nil, Event.removed, Event.added, total_cons]
      omega

/-! ## Completing -/

@[simp]
theorem submitStage_tokens (site : Site) (p : StagePayload) :
    (submitStage p : SubmitCall config).tokens site =
      [⟨.created site true, p.task config.nodeId⟩] := by
  have portable : (taskTypeFor p.stage).slot?.isSome = true := by
    unfold taskTypeFor
    split <;> rfl
  simp only [SubmitCall.tokens, submitStage, portable]

theorem CompletePc.step_some {shared following : Shared config}
    {home : Option (Fin config.workers)} {task : Task}
    {pc rest : CompletePc config}
    (stepped : pc.step shared home task = (following, some rest))
    (cause : Cause) :
    Explained shared following (pc.tokens cause task)
      (rest.tokens cause task) (pc.write? task) := by
  cases pc with
  | observe =>
      simp only [CompletePc.step] at stepped
      split at stepped
      · rename_i nothing
        cases stepped
        refine ⟨.ignore cause task, fun _ => trivial, ?_, rfl, ?_, nothing⟩
        · simp [CompletePc.write?, Event.write?, nothing]
        · intro weigh
          simp only [total_append, CompletePc.tokens, Event.removed,
            Event.added]
          omega
      · rename_i p reads
        split at stepped
        · rename_i next hasNext
          cases stepped
          have notLast : p.stage ≠ .postprocess := by
            intro last
            have early := (StagePayload.next?_eq_some hasNext).2.1
            rw [last] at early
            exact absurd early (by decide)
          refine ⟨.advance cause task p next, fun _ => trivial, ?_, rfl, ?_,
            reads, hasNext⟩
          · simp [CompletePc.write?, Event.write?, reads, notLast]
          · intro weigh
            change total weigh (shared.tokens ++ _) + _ = _
            simp only [total_append, CompletePc.tokens, submitStage_tokens,
              Event.removed, Event.added]
            omega
        · rename_i noNext
          split at stepped
          · rename_i last
            cases stepped
            refine ⟨.markDone cause task p, fun _ => trivial, ?_, rfl, ?_,
              reads, last⟩
            · simp [CompletePc.write?, Event.write?, reads, last]
            · intro weigh
              change total weigh (shared.tokens ++ _) + _ = _
              simp only [total_append, CompletePc.tokens, Event.removed,
                Event.added]
              omega
          · rename_i notLast
            cases stepped
            refine ⟨.misread cause task p, fun _ => trivial, ?_, rfl, ?_,
              reads, noNext, notLast⟩
            · simp [CompletePc.write?, Event.write?, reads, notLast]
            · intro weigh
              change total weigh (shared.tokens ++ _) + _ = _
              simp only [total_append, CompletePc.tokens, Event.removed,
                Event.added]
              omega
  | submitting p call =>
      generalize called : call.step shared home = result
      obtain ⟨between, remaining⟩ := result
      simp only [CompletePc.step, called] at stepped
      cases remaining with
      | some remaining =>
          cases stepped
          exact (SubmitCall.step_some called .successor).context
            [⟨.finishing cause .during, task⟩, recordingToken p]
      | none =>
          cases stepped
          obtain ⟨portable, held, sameBooks, pushed⟩ :=
            SubmitCall.step_none called .successor
          refine ⟨.enqueueSuccessor portable call.task cause task,
            fun _ => trivial, rfl, sameBooks, ?_, trivial⟩
          intro weigh
          have stocked := pushed weigh
          simp only [total_append, CompletePc.tokens, held, Event.removed,
            Event.added, total_cons, total_nil]
          omega
  | record p =>
      cases stepped
      refine ⟨.record p, fun _ => trivial, rfl, rfl, ?_, trivial⟩
      intro weigh
      change total weigh (shared.tokens ++ _) + _ = _
      simp only [total_append, CompletePc.tokens, Event.removed, Event.added,
        total_cons, total_nil]
      omega
  | finish =>
      cases stepped

theorem CompletePc.step_none {shared following : Shared config}
    {home : Option (Fin config.workers)} {task : Task}
    {pc : CompletePc config}
    (stepped : pc.step shared home task = (following, none))
    (cause : Cause) :
    Explained shared following (pc.tokens cause task) []
      (pc.write? task) := by
  cases pc with
  | finish =>
      cases stepped
      refine ⟨.finish cause task, fun _ => trivial, rfl, rfl, ?_, trivial⟩
      intro weigh
      change total weigh (shared.tokens ++ _) + _ = _
      simp only [total_append, CompletePc.tokens, Event.removed, Event.added,
        total_nil]
      omega
  | observe =>
      simp only [CompletePc.step] at stepped
      split at stepped
      · cases stepped
      · split at stepped
        · cases stepped
        · split at stepped <;> cases stepped
  | submitting p call =>
      simp only [CompletePc.step] at stepped
      split at stepped <;> cases stepped
  | record p =>
      cases stepped

/-! ## Calls of the application -/

theorem JobPc.explained (shared : Shared config)
    (home : Option (Fin config.workers)) (request : Request)
    (pc : JobPc config) :
    Explained shared (pc.step shared home request).1 (pc.tokens request)
      (((pc.step shared home request).2.map
        (JobPc.tokens request)).getD []) none := by
  cases pc with
  | fetchId =>
      refine ⟨.fetchRequest request, fun _ => trivial, rfl, rfl, ?_, trivial⟩
      intro weigh
      change total weigh (shared.tokens ++ _) + _ = _
      simp only [total_append, JobPc.step, JobPc.tokens, Option.map_some,
        Option.getD_some, Event.removed, Event.added, Shared.books, total_nil]
      omega
  | emplace id =>
      refine ⟨.emplace request id, fun _ => trivial, rfl, rfl, ?_, trivial⟩
      intro weigh
      change total weigh (shared.tokens ++ _) + _ = _
      simp only [total_append, JobPc.step, JobPc.tokens, Option.map_some,
        Option.getD_some, Event.removed, Event.added]
      omega
  | count id =>
      refine ⟨.countRequest request id, fun _ => trivial, rfl, rfl, ?_, trivial⟩
      intro weigh
      change total weigh (shared.tokens ++ _) + _ = _
      simp only [total_append, JobPc.step, JobPc.tokens, submitStage_tokens,
        Option.map_some, Option.getD_some, Event.removed, Event.added]
      omega
  | submitting id call =>
      have explained := SubmitCall.explained shared home call
        (by decide : Site.request ≠ .successor ∧ Site.request ≠ .rerun)
      generalize called : call.step shared home = result at explained
      obtain ⟨following, rest⟩ := result
      simp only [JobPc.step, called]
      cases rest <;> exact explained

theorem UserCall.explained (shared : Shared config)
    (home : Option (Fin config.workers)) (call : UserCall config) :
    Explained shared (call.step shared home).1 call.tokens
      (((call.step shared home).2.map UserCall.tokens).getD []) none := by
  cases call with
  | submit begun =>
      have explained := SubmitCall.explained shared home begun
        (by decide : Site.client ≠ .successor ∧ Site.client ≠ .rerun)
      generalize called : begun.step shared home = result at explained
      obtain ⟨following, rest⟩ := result
      simp only [UserCall.step, called]
      cases rest <;> exact explained
  | job request pc =>
      have explained := JobPc.explained shared home request pc
      generalize called : pc.step shared home request = result at explained
      obtain ⟨following, rest⟩ := result
      simp only [UserCall.step, called]
      cases rest <;> exact explained

/-! ## Threads -/

@[simp]
theorem stackTokens_nil : stackTokens ([] : List (Frame config)) = [] := rfl

@[simp]
theorem stackTokens_cons (frame : Frame config) (rest : List (Frame config)) :
    stackTokens (frame :: rest) = frame.tokens ++ stackTokens rest := rfl

theorem stackTokens_append (first second : List (Frame config)) :
    stackTokens (first ++ second) =
      stackTokens first ++ stackTokens second :=
  List.flatMap_append

/-- A task leaves its queue to be executed. -/
theorem Explained.dequeue {shared following : Shared config}
    {home : Option (Fin config.workers)} {queue : Queue config}
    {misses : Bool} {task : Task}
    (taken : shared.take? home queue misses = some (task, following)) :
    Explained shared following [] [⟨.executing, task⟩] none := by
  refine ⟨.dequeue queue.isPool task, fun _ => trivial, rfl,
    Shared.books_take? taken, ?_, trivial⟩
  intro weigh
  have stocked := Shared.total_take? taken weigh
  simp only [total_append, Event.removed, Event.added, total_cons, total_nil]
  omega

theorem WorkerPc.explained (shared : Shared config)
    (worker : Fin config.workers) (completedFirst misses : Bool)
    (pc : WorkerPc config) :
    Explained shared (pc.step shared worker completedFirst misses).1 []
      (stackTokens (pc.step shared worker completedFirst misses).2) none := by
  cases pc with
  | loading => exact Explained.quiet rfl rfl
  | sawSubmitted submitted => exact Explained.quiet rfl rfl
  | sawCompleted completed => exact Explained.quiet rfl rfl
  | loadFlag allDone =>
      simp only [WorkerPc.step]
      split <;> exact Explained.quiet rfl rfl
  | scan remaining =>
      cases remaining with
      | nil => exact Explained.quiet rfl rfl
      | cons queue rest =>
          simp only [WorkerPc.step]
          split
          · rename_i taken
            exact Explained.dequeue taken
          · exact Explained.quiet rfl rfl

theorem ExecutePc.explained {shared following : Shared config}
    {home : Option (Fin config.workers)} {task : Task} {helped : Bool}
    {pc : ExecutePc config} {frames : List (Frame config)}
    (stepped : pc.step shared home task helped = some (following, frames)) :
    Explained shared following (pc.tokens task) (stackTokens frames)
      (Frame.execute task helped pc).write? := by
  cases pc with
  | running call =>
      cases call with
      | none => cases stepped
      | some call =>
          simp only [ExecutePc.step, Option.some.injEq, Prod.mk.injEq]
            at stepped
          obtain ⟨rfl, rfl⟩ := stepped
          have explained := UserCall.explained shared home call
          simpa [Frame.tokens, ExecutePc.tokens, Frame.write?] using
            explained.context [⟨.executing, task⟩]
  | notify origin taskId =>
      simp only [ExecutePc.step, Option.some.injEq, Prod.mk.injEq] at stepped
      obtain ⟨rfl, rfl⟩ := stepped
      split
      · refine ⟨.forget (origin, taskId), fun _ => trivial, rfl, rfl, ?_, trivial⟩
        intro weigh
        simp only [total_append, stackTokens_cons, stackTokens_nil,
          Frame.tokens, ExecutePc.tokens, Event.removed, Event.added,
          total_cons, total_nil]
        omega
      · refine ⟨.quiet, fun _ => trivial, rfl, rfl, ?_, trivial⟩
        intro weigh
        simp only [total_append, stackTokens_cons, stackTokens_nil,
          Frame.tokens, ExecutePc.tokens, Event.removed, Event.added,
          Shared.tokens, List.map_append, List.map_cons, List.map_nil,
          total_cons, total_nil]
        omega
  | localCount =>
      cases stepped
      exact Explained.quiet rfl rfl
  | completing pc =>
      generalize completed : pc.step shared home task = result
      obtain ⟨between, rest⟩ := result
      simp only [ExecutePc.step, completed] at stepped
      cases rest with
      | some rest =>
          cases stepped
          simpa [Frame.tokens, ExecutePc.tokens, Frame.write?] using
            CompletePc.step_some completed .executed
      | none =>
          simp only [Option.some.injEq, Prod.mk.injEq] at stepped
          obtain ⟨rfl, rfl⟩ := stepped
          have explained := CompletePc.step_none completed .executed
          cases helped <;> exact explained
  | helpedCount =>
      cases stepped
      exact Explained.quiet rfl rfl

theorem ServePc.explained (shared : Shared config) (request : StealRequest)
    (pc : ServePc) :
    Explained shared (pc.step shared request).1 pc.tokens
      (stackTokens (pc.step shared request).2) none := by
  cases pc with
  | counting remaining available =>
      cases remaining <;> exact Explained.quiet rfl rfl
  | taking budget untried taken =>
      cases budget with
      | zero => exact Explained.quiet rfl (by simp [ServePc.step, Frame.tokens,
          ServePc.tokens])
      | succ budget =>
          cases untried with
          | nil => exact Explained.quiet rfl (by
              simp [ServePc.step, Frame.tokens, ServePc.tokens])
          | cons slot rest =>
              simp only [ServePc.step]
              split
              · rename_i task following found
                refine ⟨.take task, fun _ => trivial, rfl,
                  Shared.books_take? found, ?_, trivial⟩
                intro weigh
                have stocked := Shared.total_take? found weigh
                simp only [Queue.isPool] at stocked
                simp only [total_append, stackTokens_cons, stackTokens_nil,
                  Frame.tokens, ServePc.tokens, List.map_append,
                  List.map_cons, List.map_nil, Event.removed, Event.added,
                  total_cons, total_nil]
                omega
              · exact Explained.quiet rfl (by
                  simp [Frame.tokens, ServePc.tokens])
  | tracking untracked taken =>
      cases untracked with
      | nil => exact Explained.quiet rfl (by
          simp [ServePc.step, Frame.tokens, ServePc.tokens, Shared.tokens])
      | cons task rest =>
          simp only [ServePc.step, Shared.trackOutstanding]
          split
          · rename_i known
            obtain ⟨entry, member, same⟩ := List.any_eq_true.mp known
            refine ⟨.trackTwice task, fun _ => trivial, rfl, rfl, ?_,
              entry.task, ?_, by simpa using same⟩
            · intro weigh
              simp only [total_append, stackTokens_cons, stackTokens_nil,
                Frame.tokens, ServePc.tokens, List.map_cons, Event.removed,
                Event.added, total_cons, total_nil]
              omega
            · simp only [Shared.tokens, List.mem_append, List.mem_map]
              exact Or.inl (Or.inl (Or.inr ⟨entry, member, rfl⟩))
          · refine ⟨.track task, fun _ => trivial, rfl, rfl, ?_, trivial⟩
            intro weigh
            simp only [total_append, stackTokens_cons, stackTokens_nil,
              Frame.tokens, ServePc.tokens, Shared.tokens, List.map_append,
              List.map_cons, List.map_nil, Event.removed, Event.added,
              total_cons, total_nil]
            omega
  | sizing remaining pending taken =>
      cases remaining <;> exact Explained.quiet rfl (by
        simp [ServePc.step, Frame.tokens, ServePc.tokens])
  | sending pending taken =>
      refine ⟨.send ⟨config.nodeId, taken, pending⟩, fun _ => trivial, rfl,
        rfl, ?_, rfl⟩
      intro weigh
      change total weigh (shared.tokens ++ _) + _ = _
      simp only [total_append, ServePc.step, stackTokens_nil, ServePc.tokens,
        Event.removed, Event.added, total_nil]
      omega

theorem ReapPc.explained (shared : Shared config)
    (home : Option (Fin config.workers)) (lost : List Task)
    (pc : ReapPc config) :
    Explained shared (pc.step shared home lost).1
      (lost.map (⟨.reaped, ·⟩) ++ pc.tokens)
      (stackTokens (pc.step shared home lost).2)
      (Frame.reap lost pc).write? := by
  cases pc with
  | next =>
      cases lost with
      | nil => exact Explained.quiet rfl rfl
      | cons task rest =>
          refine ⟨.resubmit task, fun _ => trivial, rfl, rfl, ?_, trivial⟩
          intro weigh
          change total weigh (shared.tokens ++ _) + _ = _
          simp only [total_append, ReapPc.step, stackTokens_cons,
            stackTokens_nil, Frame.tokens, ReapPc.tokens, SubmitCall.tokens,
            List.map_cons, Option.isSome_none, Event.removed, Event.added,
            total_cons, total_nil]
          omega
  | resubmit task call =>
      generalize called : call.step shared home = result
      obtain ⟨following, rest⟩ := result
      cases rest with
      | some rest =>
          have explained := (SubmitCall.step_some called .rerun).context
            (lost.map (⟨.reaped, ·⟩) ++ [⟨.resubmitting, task⟩])
          simpa [ReapPc.step, called, Frame.tokens, ReapPc.tokens,
            Frame.write?] using
            explained
      | none =>
          obtain ⟨portable, held, sameBooks, pushed⟩ :=
            SubmitCall.step_none called .rerun
          simp only [ReapPc.step, called]
          refine ⟨.enqueueRerun portable call.task task, fun _ => trivial, rfl,
            sameBooks, ?_, trivial⟩
          intro weigh
          have stocked := pushed weigh
          simp only [total_append, stackTokens_cons, stackTokens_nil,
            Frame.tokens, ReapPc.tokens, CompletePc.tokens, held,
            Event.removed, Event.added, total_cons, total_nil]
          omega
  | settle task pc =>
      generalize completed : pc.step shared home task.settled = result
      obtain ⟨following, rest⟩ := result
      cases rest with
      | some rest =>
          have explained := (CompletePc.step_some completed .settled).context
            (lost.map (⟨.reaped, ·⟩))
          simpa [ReapPc.step, completed, Frame.tokens, ReapPc.tokens,
            Frame.write?] using
            explained
      | none =>
          have explained := (CompletePc.step_none completed .settled).context
            (lost.map (⟨.reaped, ·⟩))
          simpa [ReapPc.step, completed, Frame.tokens, ReapPc.tokens,
            Frame.write?] using
            explained

theorem acceptStep_explained (shared : Shared config)
    (home : Option (Fin config.workers)) (link : NodeId)
    (tasks remaining : List Task) (call : Option (SubmitCall config)) :
    Explained shared (acceptStep shared home link tasks remaining call).1
      (remaining.map (⟨.arrived, ·⟩) ++
        (call.map (SubmitCall.tokens .stolen)).getD [])
      (stackTokens (acceptStep shared home link tasks remaining call).2)
      none := by
  cases call with
  | none =>
      cases remaining with
      | nil => exact Explained.quiet rfl rfl
      | cons task rest =>
          refine ⟨.wrap task, fun _ => trivial, rfl, rfl, ?_, trivial⟩
          intro weigh
          simp only [total_append, acceptStep, stackTokens_cons,
            stackTokens_nil, Frame.tokens, SubmitCall.tokens, List.map_cons,
            Option.map_none, Option.map_some, Option.getD_none,
            Option.getD_some, Option.isSome_none, Event.removed, Event.added,
            total_cons, total_nil]
          omega
  | some call =>
      have explained := (SubmitCall.explained shared home call
        (by decide : Site.stolen ≠ .successor ∧ Site.stolen ≠ .rerun)).context
        (remaining.map (⟨.arrived, ·⟩))
      simpa [acceptStep, Frame.tokens] using explained

theorem Frame.explained {shared following : Shared config}
    {home : Option (Fin config.workers)} {fails : Bool}
    {frame : Frame config} {frames : List (Frame config)}
    (stepped : frame.advance shared home fails = some (following, frames)) :
    Explained shared following frame.tokens (stackTokens frames)
      frame.write? := by
  cases frame with
  | worker pc =>
      obtain ⟨worker, rfl, result⟩ := Option.map_eq_some_iff.mp stepped
      have explained := WorkerPc.explained shared worker fails fails pc
      rw [result] at explained
      exact explained
  | help remaining =>
      cases remaining with
      | nil =>
          cases stepped
          exact Explained.quiet rfl rfl
      | cons queue rest =>
          simp only [Frame.advance] at stepped
          split at stepped
          · rename_i taken
            cases stepped
            exact Explained.dequeue taken
          · cases stepped
            exact Explained.quiet rfl rfl
  | execute task helped pc =>
      exact ExecutePc.explained stepped
  | call begun =>
      have explained := UserCall.explained shared home begun
      simp only [Frame.advance] at stepped
      split at stepped
      · rename_i called
        cases stepped
        rw [called] at explained
        simpa [Frame.tokens, Frame.write?] using explained
      · rename_i called
        cases stepped
        rw [called] at explained
        exact explained
  | serve request pc =>
      have explained := ServePc.explained shared request pc
      rw [Option.some.inj stepped] at explained
      exact explained
  | resolve task pc =>
      simp only [Frame.advance] at stepped
      split at stepped
      · rename_i completed
        cases stepped
        simpa [Frame.tokens, Frame.write?] using
          CompletePc.step_some completed .resolved
      · rename_i completed
        cases stepped
        exact CompletePc.step_none completed .resolved
  | reap lost pc =>
      have explained := ReapPc.explained shared home lost pc
      rw [Option.some.inj stepped] at explained
      exact explained
  | accept link tasks remaining begun =>
      have explained :=
        acceptStep_explained shared home link tasks remaining begun
      rw [Option.some.inj stepped] at explained
      exact explained
  | complete batch =>
      cases batch with
      | nil =>
          cases stepped
          exact Explained.quiet rfl rfl
      | cons item rest =>
          simp only [Frame.advance, Option.some.injEq, Prod.mk.injEq]
            at stepped
          obtain ⟨rfl, rfl⟩ := stepped
          split
          · refine ⟨.forget item, fun _ => trivial, rfl, rfl, ?_, trivial⟩
            intro weigh
            simp only [total_append, stackTokens_cons, stackTokens_nil,
              Frame.tokens, List.map_cons, Event.removed, Event.added,
              total_cons, total_nil]
            omega
          · refine ⟨.quiet, fun _ => trivial, rfl, rfl, ?_, trivial⟩
            intro weigh
            simp only [total_append, stackTokens_cons, stackTokens_nil,
              Frame.tokens, Shared.tokens, List.map_append, List.map_cons,
              List.map_nil, Event.removed, Event.added, total_cons,
              total_nil]
            omega

/-! ## States -/

/-- A call that application code begins. -/
theorem Call.start_submit {call : Call} {begun : UserCall config}
    (started : call.start config = some begun) :
    (∃ request, begun = .job request .fetchId) ∨
      ∃ submission : SubmitCall config, begun = .submit submission ∧
        begun.tokens =
          [⟨.created .client submission.pool.isSome, submission.task⟩] ∧
        Event.Allowed config []
          (.start submission.pool.isSome submission.task) := by
  cases call with
  | submit body =>
      cases started
      exact Or.inr ⟨_, rfl, rfl, Or.inr ⟨body, rfl⟩, by simp⟩
  | submitPortable slot payload costHint =>
      cases started
      exact Or.inr ⟨_, rfl, rfl, Or.inl rfl, fun _ => ⟨rfl, rfl⟩⟩
  | submitTask body type payload originNode =>
      cases started
      refine Or.inr ⟨_, rfl, rfl, ?_, by simp⟩
      cases body with
      | none => exact Or.inl rfl
      | some body => exact Or.inr ⟨body, rfl⟩
  | submitJob request =>
      simp only [Call.start] at started
      split at started
      · cases started
        exact Or.inl ⟨request, rfl⟩
      · cases started
  | help =>
      cases started

/-- Application code begins a call. -/
theorem Call.start_effect {call : Call} {begun : UserCall config}
    (started : call.start config = some begun) (shared : Shared config)
    (thread : Nat) :
    ∃ event : Event,
      event.CausedBy config (.move thread (.call call)) ∧
        event.write? = none ∧
        Effect shared shared [] begun.tokens event := by
  rcases Call.start_submit started with
    ⟨request, rfl⟩ | ⟨submission, rfl, held, allowed⟩
  · refine ⟨.quiet, trivial, rfl, rfl, ?_, trivial⟩
    intro weigh
    rfl
  · refine ⟨.start submission.pool.isSome submission.task,
      ⟨thread, call, submission, rfl, started, rfl⟩, rfl, rfl, ?_, allowed⟩
    intro weigh
    simp only [held, total_append, Event.removed, Event.added, total_nil]
    omega

theorem Explained.caused {shared following : Shared config}
    {old new : List Token} {write : Option StagePayload}
    (explained : Explained shared following old new write)
    (action : Action) :
    ∃ event : Event, event.CausedBy config action ∧ event.write? = write ∧
      Effect shared following old new event := by
  obtain ⟨event, internal, writes, effect⟩ := explained
  exact ⟨event, internal action, writes, effect⟩

/-- What an idle thread begins. -/
theorem Role.begin_effect {shared following : Shared config}
    {role : Role config} {move : Move} {frames : List (Frame config)}
    (begins : role.begin shared move = some (following, frames))
    (thread : Nat) :
    ∃ event : Event, event.CausedBy config (.move thread move) ∧
      event.write? = none ∧
      Effect shared following [] (stackTokens frames) event := by
  unfold Role.begin at begins
  split at begins
  · -- a client calls
    split at begins
    · cases begins
      exact (Explained.quiet rfl rfl).caused _
    · obtain ⟨begun, started, result⟩ := Option.map_eq_some_iff.mp begins
      cases result
      have effect := Call.start_effect started shared thread
      simpa [Frame.tokens] using effect
  · cases begins
    exact (Explained.quiet rfl rfl).caused _
  · -- a result arrives
    split at begins
    · cases begins
      exact (Explained.quiet rfl rfl).caused _
    · rename_i taskId _ index located
      obtain ⟨entry, found, result⟩ := Option.map_eq_some_iff.mp begins
      cases result
      have same : entry.task.taskId = taskId := by
        obtain ⟨bound, holds, _⟩ := List.findIdx?_eq_some_iff_getElem.mp located
        rw [List.getElem?_eq_getElem bound] at found
        cases found
        simpa using holds
      refine ⟨.resolve entry.task, ⟨thread, by rw [same]⟩, rfl, rfl, ?_,
        trivial⟩
      intro weigh
      have erased := total_eraseIdx
        (fun entry : Outstanding => weigh ⟨.outstanding, entry.task⟩) found
      simp only [total_append, stackTokens_cons, stackTokens_nil,
        Frame.tokens, CompletePc.tokens, Shared.tokens, total_map,
        Event.removed, Event.added, total_cons, total_nil]
      omega
  · -- the reaper takes the expired entries
    split at begins
    · rename_i lost permuted
      cases begins
      refine ⟨.reap lost, trivial, rfl, rfl, ?_, trivial⟩
      intro weigh
      have expired := total_perm
        (fun task => weigh ⟨.outstanding, task⟩) (List.isPerm_iff.mp permuted)
      have parted := total_filter_add_filter_not
        (fun entry : Outstanding => weigh ⟨.outstanding, entry.task⟩)
        shared.expired shared.outstanding
      rw [total_map] at expired
      simp only [total_append, stackTokens_cons, stackTokens_nil,
        Frame.tokens, ReapPc.tokens, Shared.remember, Shared.tokens,
        total_map, Event.removed, Event.added, total_nil]
      omega
    · cases begins
  · split at begins
    · cases begins
      exact (Explained.quiet rfl rfl).caused _
    · rename_i link tasks _
      cases begins
      refine ⟨.arrive tasks, ⟨thread, link, rfl⟩, rfl, rfl, ?_, trivial⟩
      intro weigh
      simp only [total_append, stackTokens_cons, stackTokens_nil,
        Frame.tokens, Option.map_none, Option.getD_none, Event.removed,
        Event.added, total_nil]
      omega
  · cases begins
    refine ⟨.quiet, trivial, rfl, rfl, ?_, trivial⟩
    intro weigh
    simp only [total_append, stackTokens_cons, stackTokens_nil,
      Frame.tokens, Shared.tokens, List.map_nil, Event.removed, Event.added,
      total_nil]
    omega
  · cases begins

/-- The body of a task ends. -/
theorem bodyEnds_explained (shared : Shared config) (task : Task)
    (helped : Bool) :
    Explained shared
      (shared.remember (.executed task.taskId :: performs config task))
      (.execute task helped (.running none) : Frame config).tokens
      (.execute task helped (afterBody task) : Frame config).tokens
      none := by
  refine ⟨.ran task, fun _ => trivial, rfl, rfl, ?_, trivial⟩
  intro weigh
  change total weigh (shared.tokens ++ _) + _ = _
  have after : (.execute task helped (afterBody task) : Frame config).tokens =
      ⟨.finishing .executed .before, task⟩ ::
        (Event.notices task).map owedToken := by
    unfold afterBody Event.notices
    generalize task.fn = fn
    cases fn with
    | none => rfl
    | some fn => cases fn <;> rfl
  rw [after]
  simp only [total_append, Frame.tokens, ExecutePc.tokens, Option.map_none,
    Option.getD_none, Event.removed, Event.added, total_cons, total_nil]
  omega

/-- The status that a move of the thread writes. -/
def Thread.write? (thread : Thread config) : Move → Option StagePayload
  | .advance _ => thread.stack.head?.bind Frame.write?
  | _ => none

/-- A message, a pass of the reaper and the like begin a call. -/
def Move.begins : Move → Bool
  | .advance _ | .bodyEnds | .call _ => false
  | _ => true

/-- Such a move needs a thread without a call in progress. -/
theorem Thread.step_of_begins {shared following : Shared config}
    {thread : Thread config} {move : Move} {stack : List (Frame config)}
    (begins : move.begins = true)
    (stepped : thread.step shared move = some (following, stack)) :
    thread.stack = [] ∧
      thread.role.begin shared move = some (following, stack) := by
  cases move with
  | advance fails => cases begins
  | bodyEnds => cases begins
  | call call => cases begins
  | _ =>
      simp only [Thread.step] at stepped
      split at stepped
      · rename_i empty
        exact ⟨empty, stepped⟩
      · cases stepped

theorem Thread.step_effect {shared following : Shared config}
    {thread : Thread config} {move : Move} {stack : List (Frame config)}
    (stepped : thread.step shared move = some (following, stack))
    (index : Nat) :
    ∃ event : Event, event.CausedBy config (.move index move) ∧
      event.write? = thread.write? move ∧
      Effect shared following (stackTokens thread.stack)
        (stackTokens stack) event := by
  have idle : thread.write? move = none → thread.stack = [] →
      thread.role.begin shared move = some (following, stack) →
      ∃ event : Event, event.CausedBy config (.move index move) ∧
        event.write? = thread.write? move ∧
        Effect shared following (stackTokens thread.stack)
          (stackTokens stack) event := by
    intro writesNothing empty begins
    rw [writesNothing, empty]
    exact Role.begin_effect begins index
  cases move with
  | advance fails =>
      simp only [Thread.step] at stepped
      split at stepped
      · cases stepped
      · rename_i frame below holds
        obtain ⟨⟨between, frames⟩, advanced, result⟩ :=
          Option.map_eq_some_iff.mp stepped
        cases result
        rw [Thread.write?, holds, stackTokens_append, stackTokens_cons]
        exact ((Frame.explained advanced).contextRight
          (stackTokens below)).caused _
  | bodyEnds =>
      simp only [Thread.step] at stepped
      split at stepped
      · rename_i task helped below holds
        cases stepped
        rw [holds, stackTokens_cons, stackTokens_cons]
        exact ((bodyEnds_explained shared task helped).contextRight
          (stackTokens below)).caused _
      · cases stepped
  | call call =>
      simp only [Thread.step] at stepped
      split at stepped
      · rename_i empty
        rw [empty]
        exact Role.begin_effect stepped index
      · rename_i task helped below holds
        rw [holds]
        split at stepped
        · split at stepped
          · cases stepped
            exact (Explained.quiet rfl rfl).caused _
          · obtain ⟨begun, started, result⟩ :=
              Option.map_eq_some_iff.mp stepped
            cases result
            obtain ⟨event, caused, writes, effect⟩ :=
              Call.start_effect started shared index
            refine ⟨event, caused, writes, ?_⟩
            have framed := (effect.context [⟨.executing, task⟩]).contextRight
              (stackTokens below)
            simpa [Frame.tokens, ExecutePc.tokens] using framed
        · cases stepped
      · cases stepped
  | request request =>
      obtain ⟨empty, begins⟩ := Thread.step_of_begins rfl stepped
      exact idle rfl empty begins
  | result taskId =>
      obtain ⟨empty, begins⟩ := Thread.step_of_begins rfl stepped
      exact idle rfl empty begins
  | reap lost =>
      obtain ⟨empty, begins⟩ := Thread.step_of_begins rfl stepped
      exact idle rfl empty begins
  | reply link tasks =>
      obtain ⟨empty, begins⟩ := Thread.step_of_begins rfl stepped
      exact idle rfl empty begins
  | drain =>
      obtain ⟨empty, begins⟩ := Thread.step_of_begins rfl stepped
      exact idle rfl empty begins
  | quit =>
      obtain ⟨empty, begins⟩ := Thread.step_of_begins rfl stepped
      exact idle rfl empty begins

theorem State.write?_move {state : State config} {index : Nat}
    {thread : Thread config} (found : state.threads[index]? = some thread)
    (move : Move) : state.write? (.move index move) = thread.write? move := by
  cases move with
  | advance fails =>
      simp [State.write?, found, Thread.write?]
  | _ => rfl

/-- Replacing the stack of one thread. -/
theorem Effect.happens {state : State config} {following : Shared config}
    {index : Nat} {thread replaced : Thread config} {action : Action}
    {event : Event}
    (found : state.threads[index]? = some thread)
    (effect : Effect state.shared following (stackTokens thread.stack)
      (stackTokens replaced.stack) event)
    (caused : event.CausedBy config action)
    (writes : event.write? = state.write? action) :
    Happens action event state
      { shared := following
        threads := state.threads.set index replaced } where
  books := effect.books
  moves := by
    intro weigh
    have equation := effect.moves weigh
    have exchanged := total_set
      (fun thread : Thread config => total weigh (stackTokens thread.stack))
      found replaced
    simp only [total_append] at equation
    simp only [State.tokens, total_append, total_flatMap]
    omega
  allowed := by
    have allowed := effect.allowed
    cases event with
    | trackTwice task =>
        obtain ⟨tracked, member, same⟩ := allowed
        exact ⟨tracked, List.mem_append_left _ member, same⟩
    | _ => exact allowed
  caused := caused
  write := writes

/-- Every step of a node is an event. -/
theorem step_happens {state following : State config} {action : Action}
    (stepped : (node config).step state action = some following) :
    ∃ event, Happens action event state following := by
  have unnoticed : ∀ {shared : Shared config},
      shared.books = state.shared.books →
      shared.tokens = state.shared.tokens →
      state.write? action = none →
      Happens action .quiet state { state with shared } := by
    intro shared sameBooks sameTokens writesNothing
    refine ⟨sameBooks, ?_, trivial, trivial, writesNothing.symm⟩
    intro weigh
    simp only [State.tokens, sameTokens, Event.removed, Event.added]
  cases action with
  | tick =>
      cases stepped
      exact ⟨.quiet, unnoticed rfl rfl rfl⟩
  | stop =>
      cases stepped
      exact ⟨.quiet, unnoticed rfl rfl rfl⟩
  | shutdown =>
      cases stepped
      exact ⟨.quiet, unnoticed rfl rfl rfl⟩
  | move index move =>
      have ordinary : ∀ {thread : Thread config} {shared : Shared config}
          {stack : List (Frame config)},
          state.threads[index]? = some thread →
          thread.step state.shared move = some (shared, stack) →
          ∃ event, Happens (.move index move) event state
            { shared
              threads := state.threads.set index { thread with stack } } := by
        intro thread shared stack found moved
        obtain ⟨event, caused, writes, effect⟩ :=
          Thread.step_effect moved index
        rw [← State.write?_move found] at writes
        exact ⟨event, effect.happens found caused writes⟩
      cases move with
      | quit =>
          simp only [node, State.step] at stepped
          split at stepped
          · cases stepped
          · rename_i thread found
            split at stepped
            · cases stepped
              obtain ⟨event, caused, writes, effect⟩ :=
                (Explained.quiet
                  (rfl : state.shared.books = state.shared.books)
                  (rfl : state.shared.tokens ++ stackTokens thread.stack =
                    _)).caused (.move index .quit)
              exact ⟨event, effect.happens found caused writes⟩
            · cases stepped
      | _ =>
          simp only [node, State.step] at stepped
          split at stepped
          · cases stepped
          · rename_i thread found
            split at stepped
            · cases stepped
            · obtain ⟨⟨shared, stack⟩, moved, rfl⟩ :=
                Option.map_eq_some_iff.mp stepped
              exact ordinary found moved

/-- What an event removes was there. -/
theorem Happens.held {state following : State config} {action : Action}
    {event : Event} (happens : Happens action event state following)
    {token : Token} (isRemoved : token ∈ event.removed config) :
    token ∈ state.tokens := by
  have present := happens.moves.mem_removed isRemoved
  refine present.resolve_right fun isAdded => ?_
  cases event <;>
    simp [Event.removed, Event.added, recordingToken, owedToken,
      preparingToken] at isRemoved isAdded <;>
    grind

/-- What an event adds is there afterwards. -/
theorem Happens.gained {state following : State config} {action : Action}
    {event : Event} (happens : Happens action event state following)
    {token : Token} (isAdded : token ∈ event.added config state.shared.books) :
    token ∈ following.tokens := by
  have present := happens.moves.symm.mem_removed isAdded
  refine present.resolve_right fun isRemoved => ?_
  cases event <;>
    simp [Event.removed, Event.added, recordingToken, owedToken,
      preparingToken] at isRemoved isAdded <;>
    grind

/-! ## Invariants of the books and the tokens -/

theorem Event.replies_of_enter {event : Event} {books : Books}
    {reply : Reply} (member : reply ∈ (event.enter config books).replies) :
    reply ∈ books.replies ∨ event = .send reply := by
  cases event with
  | send other =>
      rcases List.mem_append.mp member with old | new
      · exact .inl old
      · rw [List.mem_singleton.mp new]
        exact .inr rfl
  | _ => exact .inl member

theorem State.Initial.tokens {state : State config}
    (isInitial : state.Initial) : state.tokens = [] := by
  have noThreads : (state.threads.flatMap fun thread =>
      stackTokens thread.stack) = [] := by
    apply List.flatMap_eq_nil_iff.mpr
    intro thread member
    rw [(isInitial.threads thread member).1]
    cases thread.role <;> rfl
  unfold State.tokens
  rw [noThreads, isInitial.shared, List.append_nil]
  simp [Shared.tokens, queuedTokens]

section Rules

variable {guard : State config → Action → Prop}
  {Invariant : Books → List Token → Prop}

/-- What every event of a guarded run keeps holds throughout the run. -/
theorem invariant_of_events
    (holdsInitially : Invariant (({ } : Shared config).books) [])
    (isKept : ∀ {state following : State config} {action : Action}
      {event : Event}, Invariant state.shared.books state.tokens →
        guard state action → Happens action event state following →
          Invariant (event.enter config state.shared.books) following.tokens)
    {state : State config}
    (reached : (node config).ReachableUnder guard state) :
    Invariant state.shared.books state.tokens := by
  induction reached with
  | start isInitial =>
      rw [State.Initial.tokens isInitial, State.Initial.shared isInitial]
      exact holdsInitially
  | next _ allowed stepped inductionHypothesis =>
      obtain ⟨event, happens⟩ := step_happens stepped
      rw [happens.books]
      exact isKept inductionHypothesis allowed happens

end Rules

end HydraRT.Cluster
