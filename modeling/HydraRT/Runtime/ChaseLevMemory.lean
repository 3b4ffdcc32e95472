import HydraRT.Runtime.ChaseLevInvariant

/-!
# The memory of a Chase-Lev deque

A ring that has been replaced stays allocated, since a thief may still read
it.  Rings double, so the replaced ones together are smaller than the current
one, and the current one is no larger than twice what the deque has held.
-/

namespace HydraRT.ChaseLev

open HydraRT.Lib

variable {Task : Type}

/-- What `size` would have returned before each access. -/
def sizes (state : State Task) (_ : Action Task) : List Nat :=
  [state.size]

namespace State

/-- The deque has held all but one of the slots of its current ring. -/
def HasFilled (state : State Task) (seen : List Nat) : Prop :=
  ∃ size ∈ seen, state.ring.capacity ≤ size + 1

/-- Why the owner is where it is on its way to a larger ring. -/
def OwnerHasSeen (state : State Task) (seen : List Nat) : Prop :=
  match state.owner with
  | .pushLoadBuffer _ b t => ∃ size ∈ seen, b - t ≤ size
  | .growLoad .. | .growStore .. => state.HasFilled seen
  | _ => True

structure Sized (state : State Task) (seen : List Nat) : Prop where
  doubled : ∀ buf ≤ state.buffer,
    (state.rings buf).capacity = (state.rings 0).capacity * 2 ^ buf
  needed : state.buffer = 0 ∨
    ∃ size ∈ seen, state.ring.capacity ≤ 2 * (size + 1)
  owner : state.OwnerHasSeen seen

section Steps

variable {state following : State Task} {seen : List Nat}
  {live hand : List Pointer}

/-- The rings stay as they are. -/
theorem Sized.keep (sized : state.Sized seen) (more : List Nat)
    (sameBuffer : following.buffer = state.buffer)
    (sameCapacity : ∀ buf ≤ state.buffer,
      (following.rings buf).capacity = (state.rings buf).capacity)
    (owner : following.OwnerHasSeen (seen ++ more)) :
    following.Sized (seen ++ more) where
  doubled := by
    intro buf bound
    rw [sameBuffer] at bound
    rw [sameCapacity buf bound, sameCapacity 0 (Nat.zero_le _)]
    exact sized.doubled buf bound
  needed := by
    rw [sameBuffer]
    refine sized.needed.imp_right ?_
    rintro ⟨size, member, bound⟩
    refine ⟨size, List.mem_append_left _ member, ?_⟩
    rw [ring, sameBuffer, sameCapacity _ (le_refl _)]
    exact bound
  owner := owner

theorem HasFilled.append (filled : state.HasFilled seen) (more : List Nat) :
    state.HasFilled (seen ++ more) := by
  obtain ⟨size, member, bound⟩ := filled
  exact ⟨size, List.mem_append_left _ member, bound⟩

theorem capacity_update {rings : Nat → RingBuffer} {changed : RingBuffer}
    {place buf : Nat} (same : buf = place →
      changed.capacity = (rings buf).capacity) :
    (Function.update rings place changed buf).capacity =
      (rings buf).capacity := by
  by_cases here : buf = place
  · rw [here, Function.update_self, same here, here]
  · rw [Function.update_of_ne here]

/-- The new ring is published. -/
theorem sized_publish (sized : state.Sized seen)
    (represents : state.Represents live hand) (more : List Nat)
    {task : Task} {b i : Int} {buf grown : Nat}
    (atPoint : state.owner = .growLoad task b buf grown i) :
    Sized { state with buffer := grown, owner := .put task b grown }
      (seen ++ more) := by
  have agrees := represents.owner
  simp only [OwnerAgrees, atPoint] at agrees
  obtain ⟨_, _, _, rfl, rfl, capacity, _⟩ := agrees
  have filled : state.HasFilled seen := by
    have owner := sized.owner
    rwa [OwnerHasSeen, atPoint] at owner
  refine ⟨?_, .inr ?_, trivial⟩
  · intro other bound
    rcases Nat.le_succ_iff.mp bound with old | rfl
    · exact sized.doubled other old
    · change (state.rings (state.buffer + 1)).capacity = _
      rw [capacity, ring, sized.doubled state.buffer (le_refl _), pow_succ,
        mul_assoc]
  · obtain ⟨size, member, bound⟩ := filled
    refine ⟨size, List.mem_append_left _ member, ?_⟩
    change (state.rings (state.buffer + 1)).capacity ≤ _
    rw [capacity]
    omega

theorem sized_owner (sized : state.Sized seen)
    (represents : state.Represents live hand)
    (stepped : state.ownerStep = some following) :
    following.Sized (seen ++ [state.size]) := by
  have agrees := represents.owner
  have owner := sized.owner
  unfold ownerStep at stepped
  split at stepped
  case h_1 => cases stepped
  case h_2 task b atPoint =>
    cases stepped
    simp only [OwnerAgrees, atPoint] at agrees
    obtain ⟨_, sameBottom⟩ := agrees
    refine sized.keep _ rfl (fun _ _ => rfl) ⟨state.size, by simp, ?_⟩
    unfold size
    split <;> omega
  case h_3 task b t atPoint =>
    simp only [OwnerHasSeen, atPoint] at owner
    dsimp only at stepped
    split at stepped
    · next full =>
        cases stepped
        have fresh : state.allocated = state.buffer + 1 := by
          simpa [unpublished, atPoint] using represents.allocated
        have sameCapacity : ∀ buf ≤ state.buffer,
            (Function.update state.rings state.allocated (RingBuffer.create
              ((state.rings state.buffer).capacity * 2)) buf).capacity =
                (state.rings buf).capacity := by
          intro buf bound
          exact capacity_update fun here => by omega
        refine sized.keep _ rfl sameCapacity ?_
        obtain ⟨size, member, bound⟩ := owner
        refine ⟨size, List.mem_append_left _ member, ?_⟩
        change (Function.update state.rings state.allocated _
          state.buffer).capacity ≤ _
        rw [sameCapacity _ (le_refl _)]
        omega
    · cases stepped
      exact sized.keep _ rfl (fun _ _ => rfl) trivial
  case h_4 task b buf grown i atPoint =>
    simp only [OwnerHasSeen, atPoint] at owner
    split at stepped
    · cases stepped
      exact sized.keep _ rfl (fun _ _ => rfl) (owner.append _)
    · cases stepped
      exact sized_publish sized represents _ atPoint
  case h_5 task b buf grown i pointer atPoint =>
    simp only [OwnerHasSeen, atPoint] at owner
    cases stepped
    have sameCapacity : ∀ buf ≤ state.buffer,
        (Function.update state.rings grown
          ((state.rings grown).put i pointer) buf).capacity =
            (state.rings buf).capacity := by
      intro buf _
      exact capacity_update fun here => by rw [here]; rfl
    refine sized.keep _ rfl sameCapacity ?_
    obtain ⟨size, member, bound⟩ := owner
    refine ⟨size, List.mem_append_left _ member, ?_⟩
    change (Function.update state.rings grown _ state.buffer).capacity ≤ _
    rw [sameCapacity _ (le_refl _)]
    exact bound
  case h_6 task b buf atPoint =>
    cases stepped
    refine sized.keep _ rfl (fun other _ => ?_) trivial
    exact capacity_update fun here => by rw [here]; rfl
  case h_10 =>
    split at stepped <;> cases stepped
    all_goals exact sized.keep _ rfl (fun _ _ => rfl) trivial
  case h_11 =>
    dsimp only at stepped
    split at stepped <;> cases stepped
    all_goals exact sized.keep _ rfl (fun _ _ => rfl) trivial
  case h_12 =>
    split at stepped <;> cases stepped
    all_goals exact sized.keep _ rfl (fun _ _ => rfl) trivial
  all_goals
    cases stepped
    exact sized.keep _ rfl (fun _ _ => rfl) trivial

/-- A thief touches no ring and not the owner. -/
theorem thiefStep_rings (state : State Task) (thief : Thief) :
    (state.thiefStep thief).1.rings = state.rings ∧
      (state.thiefStep thief).1.buffer = state.buffer ∧
      (state.thiefStep thief).1.owner = state.owner := by
  cases thief with
  | loadBottom t =>
      simp only [thiefStep]
      split <;> exact ⟨rfl, rfl, rfl⟩
  | compareExchange t pointer =>
      simp only [thiefStep]
      split <;> exact ⟨rfl, rfl, rfl⟩
  | _ => exact ⟨rfl, rfl, rfl⟩

theorem OwnerHasSeen.append (hasSeen : state.OwnerHasSeen seen)
    (more : List Nat) : state.OwnerHasSeen (seen ++ more) := by
  unfold OwnerHasSeen at hasSeen ⊢
  split
  · next atPoint =>
      simp only [atPoint] at hasSeen
      obtain ⟨size, member, bound⟩ := hasSeen
      exact ⟨size, List.mem_append_left _ member, bound⟩
  · next atPoint =>
      simp only [atPoint] at hasSeen
      exact HasFilled.append hasSeen more
  · next atPoint =>
      simp only [atPoint] at hasSeen
      exact HasFilled.append hasSeen more
  · trivial

theorem sized_step {action : Action Task} (sized : state.Sized seen)
    (represents : state.Represents live hand)
    (stepped : state.step action = some following) :
    following.Sized (seen ++ [state.size]) := by
  cases action with
  | push task =>
      simp only [step] at stepped
      split at stepped
      · cases stepped
        exact sized.keep _ rfl (fun _ _ => rfl) trivial
      · cases stepped
  | pop =>
      simp only [step] at stepped
      split at stepped
      · cases stepped
        exact sized.keep _ rfl (fun _ _ => rfl) trivial
      · cases stepped
  | owner => exact sized_owner sized represents stepped
  | thief number =>
      simp only [step] at stepped
      split at stepped
      · next thief present =>
          cases stepped
          obtain ⟨sameRings, sameBuffer, sameOwner⟩ :=
            thiefStep_rings state thief
          refine sized.keep _ sameBuffer ?_ ?_
          · intro buf _
            exact congrArg RingBuffer.capacity (congrFun sameRings buf)
          · have still := sized.owner.append [state.size]
            unfold OwnerHasSeen HasFilled ring at still ⊢
            simpa only [sameRings, sameBuffer, sameOwner] using still
      · cases stepped

end Steps

end State

/-- In every run the rings that have been replaced make up, together with a
ring of the first size, just one more ring of the current size; and a ring that
replaced another one is at most twice as large as what the deque once held, and
two slots. -/
theorem ring_memory_bounded (state : State Task) (seen : List Nat)
    (reached : ((machine Task).logged sizes).Reachable (state, seen)) :
    (∑ buf ∈ Finset.range state.buffer, (state.rings buf).capacity) +
        (state.rings 0).capacity = state.ring.capacity ∧
      (state.buffer = 0 ∨
        ∃ size ∈ seen, state.ring.capacity ≤ 2 * (size + 1)) := by
  have sized : state.Sized seen := by
    refine Machine.Reachable.logged_invariant ?_ ?_ reached
    · rintro _ ⟨capacity, thieves, rfl⟩
      refine ⟨?_, .inl rfl, trivial⟩
      intro buf bound
      obtain rfl := Nat.le_zero.mp bound
      exact (Nat.mul_one _).symm
    · intro state seen action following reached sized stepped
      obtain ⟨live, hand, represents⟩ := State.exists_represents reached
      exact State.sized_step sized represents stepped
  refine ⟨?_, sized.needed⟩
  rw [State.ring, sized.doubled _ (le_refl _)]
  have before : ∀ count ≤ state.buffer,
      (∑ buf ∈ Finset.range count, (state.rings buf).capacity) +
        (state.rings 0).capacity = (state.rings 0).capacity * 2 ^ count := by
    intro count bound
    induction count with
    | zero => simp
    | succ count inductionHypothesis =>
        have earlier := inductionHypothesis (Nat.le_of_succ_le bound)
        rw [Finset.sum_range_succ,
          sized.doubled count (Nat.le_of_succ_le bound), pow_succ,
          ← mul_assoc]
        omega
  exact before _ (le_refl _)

theorem ring_memory_bounded_after_growth :
    ∃ (state : State Unit) (seen : List Nat),
      ((machine Unit).logged sizes).Reachable (state, seen) ∧
      state.buffer = 2 ∧
      (∑ buf ∈ Finset.range 2, (state.rings buf).capacity) +
        (state.rings 0).capacity = state.ring.capacity := by
  have check : (((machine Unit).logged sizes).run (State.create 1 1, [])
      stealDuringGrowth).map (fun pair => pair.1.buffer) = some 2 := by
    decide
  obtain ⟨⟨state, seen⟩, ran, grown⟩ := Option.map_eq_some_iff.mp check
  have reached : ((machine Unit).logged sizes).Reachable (state, seen) :=
    Machine.reachable_of_run stealDuringGrowth ⟨⟨1, 1, rfl⟩, rfl⟩ ran
  have bounded := ring_memory_bounded state seen reached
  dsimp only at grown
  rw [grown] at bounded
  exact ⟨state, seen, reached, grown, bounded.1⟩

end HydraRT.ChaseLev
