import HydraRT.Net.StealReply

/-!
# Giving away half

What a steal request does to a victim whose pools nobody else touches: which
tasks go, which stay, and what is written down about them.  `take_portable`
chooses a pool anew for every task; together the calls cut the tasks of all
pools, in the order of the search, at one place.
-/

namespace HydraRT.Net

open HydraRT.Cluster (takeOrder giveCount)

/-- A victim with its counter `stolen_out_`. -/
structure Lender extends Victim where
  stolenOut : Nat := 0

/-- The `StealRequest` case of `serve_peer` with the counter. -/
def serveStealRequest (lender : Lender) (request : StealRequestMsg) :
    StealResponseMsg × Lender :=
  let (response, victim) := serveSteal lender.toVictim request
  (response,
    { toVictim := victim
      stolenOut := lender.stolenOut + response.tasks.length })

/-- How many of `available` tasks go to a thief that asks for `maxTasks`. -/
def halfOf (available maxTasks : Nat) : Nat :=
  min maxTasks (max (available / 2) (min available 1))

/-- All tasks of the pools, as a search for `preferred` finds them. -/
def Pools.inOrder (pools : Pools) (preferred : TaskType) : List Task :=
  (searchOrder preferred).flatMap pools

/-! ## How many -/

theorem giveCount_eq (available maxTasks : Nat) :
    giveCount available maxTasks = halfOf available maxTasks := by
  unfold giveCount halfOf
  dsimp only
  split <;> split <;> omega

theorem halfOf_le (available maxTasks : Nat) :
    halfOf available maxTasks ≤ available := by
  unfold halfOf
  omega

theorem searchOrder_perm (preferred : TaskType) :
    (searchOrder preferred).Perm (List.finRange TaskType.count) := by
  have each : ∀ slot? : Option (Fin TaskType.count),
      (slot?.toList ++
        (List.finRange TaskType.count).filter (some · ≠ slot?)).Perm
        (List.finRange TaskType.count) := by
    decide
  exact each preferred.slot?

theorem length_inOrder (pools : Pools) (preferred : TaskType) :
    (pools.inOrder preferred).length = pools.portableAvailable := by
  rw [Pools.inOrder, List.length_flatMap, Pools.portableAvailable]
  exact ((searchOrder_perm preferred).map _).sum_eq

/-! ## What stays -/

namespace Pools

/-- A pool only loses tasks at its front. -/
theorem suffix_of_pop? {pools left : Pools} {task : Task}
    {slots : List (Fin TaskType.count)}
    (popped : pools.pop? slots = some (task, left))
    (slot : Fin TaskType.count) : left slot <:+ pools slot := by
  induction slots with
  | nil =>
      cases popped
  | cons first rest inductionHypothesis =>
      cases content : pools first with
      | nil =>
          rw [pop?_cons_of_empty content] at popped
          exact inductionHypothesis popped
      | cons head others =>
          rw [pop?, content] at popped
          cases popped
          by_cases same : slot = first
          · rw [same, Function.update_self, content]
            exact List.suffix_cons _ others
          · rw [Function.update_of_ne same]

theorem suffix_takeEach (preferred : TaskType) (give : Nat) (pools : Pools)
    (slot : Fin TaskType.count) :
    (pools.takeEach preferred give).2 slot <:+ pools slot := by
  induction give generalizing pools with
  | zero =>
      exact List.suffix_rfl
  | succ give inductionHypothesis =>
      rw [takeEach]
      cases taken : pools.takePortable preferred with
      | none =>
          exact List.suffix_rfl
      | some pair =>
          obtain ⟨task, left⟩ := pair
          exact (inductionHypothesis left).trans
            (suffix_of_pop? taken slot)

/-- The loop leaves what it did not take, in order. -/
theorem takeEach_snd (preferred : TaskType) (give : Nat) (pools : Pools) :
    (pools.takeEach preferred give).2.inOrder preferred =
      (pools.inOrder preferred).drop give := by
  induction give generalizing pools with
  | zero =>
      rfl
  | succ give inductionHypothesis =>
      rw [takeEach, takePortable_eq]
      rcases pop?_eq (nodup_searchOrder preferred) with
        ⟨empty, nothing⟩ | ⟨slot, _, task, others, popped, order⟩
      · rw [nothing]
        change pools.inOrder preferred = _
        rw [inOrder, empty, List.drop_nil]
      · rw [popped]
        change (takeEach preferred give _).2.inOrder preferred = _
        rw [inductionHypothesis, inOrder, inOrder, order, List.drop_succ_cons]

end Pools

/-! ## What is written down -/

theorem trackOutstanding_new {thief : NodeId}
    {outstanding : List (Task × NodeId)} {task : Task}
    (absent : ∀ entry ∈ outstanding, entry.1.taskId ≠ task.taskId) :
    trackOutstanding thief outstanding task =
      outstanding ++ [(task, thief)] := by
  unfold trackOutstanding
  rw [if_neg]
  intro known
  obtain ⟨entry, member, same⟩ := List.any_eq_true.mp known
  exact absent entry member (by simpa using same)

/-- Tasks with new ids are appended to the table. -/
theorem foldl_trackOutstanding_new (thief : NodeId) {tasks : List Task}
    {outstanding : List (Task × NodeId)}
    (distinct : (tasks.map (·.taskId)).Nodup)
    (absent : ∀ task ∈ tasks, ∀ entry ∈ outstanding,
      entry.1.taskId ≠ task.taskId) :
    tasks.foldl (trackOutstanding thief) outstanding =
      outstanding ++ tasks.map (·, thief) := by
  induction tasks generalizing outstanding with
  | nil =>
      rw [List.map_nil, List.append_nil]
      rfl
  | cons first rest inductionHypothesis =>
      obtain ⟨firstOnly, restDistinct⟩ := List.nodup_cons.mp distinct
      have firstAbsent := absent first List.mem_cons_self
      rw [List.foldl_cons, trackOutstanding_new firstAbsent,
        inductionHypothesis restDistinct]
      · rw [List.map_cons, List.append_assoc, List.singleton_append]
      · intro task member entry inTable
        rcases List.mem_append.mp inTable with earlier | isNew
        · exact absent task (List.mem_cons_of_mem _ member) entry earlier
        · rw [List.mem_singleton.mp isNew]
          intro same
          apply firstOnly
          change first.taskId ∈ _
          rw [same]
          exact List.mem_map_of_mem member

/-! ## The whole request -/

/-- The tasks of all pools can be told apart, also from those handed out. -/
structure FreshIds (lender : Lender) : Prop where
  distinct : (((List.finRange TaskType.count).flatMap lender.pools).map
    (·.taskId)).Nodup
  absent : ∀ slot, ∀ task ∈ lender.pools slot,
    ∀ entry ∈ lender.outstanding, entry.1.taskId ≠ task.taskId

/-- What the answer to a request is and what it leaves, when `given` tasks
go. -/
structure GivesHalf (lender : Lender) (request : StealRequestMsg)
    (given : Nat) (response : StealResponseMsg) (after : Lender) : Prop where
  tasks : response.tasks =
    (lender.pools.inOrder ⟨request.preferredType⟩).take given
  exactly : response.tasks.length = given
  /-- The others stay in the order of the search … -/
  remaining : after.pools.inOrder ⟨request.preferredType⟩ =
    (lender.pools.inOrder ⟨request.preferredType⟩).drop given
  /-- … each in its pool, in the same order. -/
  inPlace : ∀ slot, after.pools slot <:+ lender.pools slot
  left : after.pools.portableAvailable =
    lender.pools.portableAvailable - given
  reported : response.victimPending =
    UInt64.ofNat (lender.pools.portableAvailable - given)
  outstanding : after.outstanding =
    lender.outstanding ++ response.tasks.map (·, request.requesterNode)
  counted : after.stolenOut = lender.stolenOut + given

theorem FreshIds.nodup_inOrder {lender : Lender} (fresh : FreshIds lender)
    (preferred : TaskType) :
    ((lender.pools.inOrder preferred).map (·.taskId)).Nodup := by
  have samePools := (searchOrder_perm preferred).flatMap_right lender.pools
  exact (samePools.map (·.taskId)).nodup_iff.mpr fresh.distinct

theorem FreshIds.absent_inOrder {lender : Lender} (fresh : FreshIds lender)
    {preferred : TaskType} {task : Task}
    (member : task ∈ lender.pools.inOrder preferred) :
    ∀ entry ∈ lender.outstanding, entry.1.taskId ≠ task.taskId := by
  obtain ⟨slot, _, inPool⟩ := List.mem_flatMap.mp member
  exact fresh.absent slot task inPool

/-- A request takes half of what is there, at least one task and at most as
many as it asks for, from the preferred pool first. -/
theorem serveStealRequest_givesHalf (lender : Lender)
    (request : StealRequestMsg) (fresh : FreshIds lender) :
    GivesHalf lender request
      (halfOf lender.pools.portableAvailable request.maxTasks.toNat)
      (serveStealRequest lender request).1
      (serveStealRequest lender request).2 := by
  have tasks : (serveStealRequest lender request).1.tasks =
      (lender.pools.inOrder ⟨request.preferredType⟩).take
        (halfOf lender.pools.portableAvailable request.maxTasks.toNat) := by
    rw [← giveCount_eq]
    exact serveSteal_tasks lender.toVictim request
  have length : (serveStealRequest lender request).1.tasks.length =
      halfOf lender.pools.portableAvailable request.maxTasks.toNat := by
    rw [tasks, List.length_take, length_inOrder]
    exact Nat.min_eq_left (halfOf_le _ _)
  have remaining :
      (serveStealRequest lender request).2.pools.inOrder
          ⟨request.preferredType⟩ =
        (lender.pools.inOrder ⟨request.preferredType⟩).drop
          (halfOf lender.pools.portableAvailable
            request.maxTasks.toNat) := by
    rw [← giveCount_eq]
    exact Pools.takeEach_snd _ _ _
  have left :
      (serveStealRequest lender request).2.pools.portableAvailable =
        lender.pools.portableAvailable -
          halfOf lender.pools.portableAvailable request.maxTasks.toNat := by
    rw [← length_inOrder _ ⟨request.preferredType⟩, remaining,
      List.length_drop, length_inOrder]
  refine ⟨tasks, length, remaining, ?_, left, ?_, ?_, ?_⟩
  · intro slot
    exact Pools.suffix_takeEach _ _ _ slot
  · rw [← left]
    rfl
  · refine foldl_trackOutstanding_new request.requesterNode ?_ ?_
    · change ((serveStealRequest lender request).1.tasks.map
        (·.taskId)).Nodup
      rw [tasks, List.map_take]
      exact (fresh.nodup_inOrder _).sublist (List.take_sublist _ _)
    · intro task member
      change task ∈ (serveStealRequest lender request).1.tasks at member
      rw [tasks] at member
      exact fresh.absent_inOrder (List.mem_of_mem_take member)
  · rw [← length]
    rfl

/-- Five tasks in two pools, and one that is already away. -/
def smallLender : Lender where
  pools slot :=
    if slot = 1 then [{ taskId := 1 }, { taskId := 2 }, { taskId := 4 }]
    else if slot = 2 then [{ taskId := 3 }, { taskId := 5 }]
    else []
  outstanding := [({ taskId := 9 }, 4)]
  stolenOut := 7

theorem serveStealRequest_smallLender :
    (serveStealRequest smallLender ⟨6, 8, 2⟩).1.tasks =
        [{ taskId := 3 }, { taskId := 5 }] ∧
      GivesHalf smallLender ⟨6, 8, 2⟩ 2
        (serveStealRequest smallLender ⟨6, 8, 2⟩).1
        (serveStealRequest smallLender ⟨6, 8, 2⟩).2 := by
  refine ⟨by decide +kernel, ?_⟩
  exact serveStealRequest_givesHalf smallLender ⟨6, 8, 2⟩
    ⟨by decide +kernel, by decide +kernel⟩

end HydraRT.Net
