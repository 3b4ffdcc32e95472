import HydraRT.Runtime.ChaseLevDeque

/-!
# No task of a Chase-Lev deque is lost or returned twice

The concurrent deque is related to a list `live` of the pointers it holds,
front first, and to a list `hand` of at most one pointer that the owner has
put in a slot but not yet published, or has claimed but not yet returned.
`Represents` is the relation, and every atomic access preserves it.

The claims of the owner and of a thief cannot collide for one reason.  A thief
past its test of `bottom_` remembers a value of `top_`; while `top_` still has
that value, the thief's element is the front of `live` and sits where the
thief will look for it.  Any claim on that element moves `top_`, and the
thief's compare-exchange then fails.
-/

namespace HydraRT.ChaseLev

open HydraRT.Lib

/-! ## Rings -/

namespace RingBuffer

variable {ring : RingBuffer}

/-- Capacities are powers of two, which makes `& mask` a remainder. -/
def IsPow2 (ring : RingBuffer) : Prop :=
  ∃ exponent, ring.capacity = 2 ^ exponent

theorem IsPow2.pos (pow2 : ring.IsPow2) : 0 < ring.capacity := by
  obtain ⟨exponent, equality⟩ := pow2
  rw [equality]
  exact Nat.two_pow_pos exponent

theorem position_eq_mod (pow2 : ring.IsPow2) (index : Int) :
    ring.position index = index.toNat % ring.capacity := by
  obtain ⟨exponent, equality⟩ := pow2
  simp only [position, mask, equality]
  exact Nat.and_two_pow_sub_one_eq_mod _ _

/-- Two indices less than a capacity apart live in different slots. -/
theorem position_ne
    (pow2 : ring.IsPow2) {low high : Int}
    (nonneg : 0 ≤ low) (below : low < high)
    (close : high < low + ring.capacity) :
    ring.position low ≠ ring.position high := by
  rw [position_eq_mod pow2, position_eq_mod pow2]
  intro same
  have apart :
      (high.toNat - low.toNat) % ring.capacity = 0 :=
    Nat.sub_mod_eq_zero_of_mod_eq same.symm
  have positive : 0 < high.toNat - low.toNat := by omega
  have small : high.toNat - low.toNat < ring.capacity := by omega
  rw [Nat.mod_eq_of_lt small] at apart
  omega

@[simp]
theorem put_capacity (ring : RingBuffer) (index : Int) (pointer : Pointer) :
    (ring.put index pointer).capacity = ring.capacity := rfl

@[simp]
theorem get_put_self
    (ring : RingBuffer) (index : Int) (pointer : Pointer) :
    (ring.put index pointer).get index = pointer := by
  simp [get, put, position, mask]

theorem get_put_of_ne
    {index other : Int} (pointer : Pointer)
    (different : ring.position other ≠ ring.position index) :
    (ring.put index pointer).get other = ring.get other := by
  simp only [get, put]
  exact Function.update_of_ne different _ _

end RingBuffer

theorem isPow2_doubleUntil
    (bound fuel exponent : Nat) :
    ∃ result, doubleUntil bound fuel (2 ^ exponent) = 2 ^ result := by
  induction fuel generalizing exponent with
  | zero =>
      exact ⟨exponent, rfl⟩
  | succ fuel inductionHypothesis =>
      simp only [doubleUntil]
      split
      · simpa [pow_succ] using inductionHypothesis (exponent + 1)
      · exact ⟨exponent, rfl⟩

/-! ## The relation -/

namespace State

variable {Task : Type}

/-- One past the last index whose element no operation has claimed from the
back.  It differs from `bottom_` while a `pop` has lowered `bottom_` without
having claimed the element there. -/
def back (state : State Task) : Int :=
  match state.owner with
  | .popLoadTop b _ => b + 1
  | .popGet b t _ => if t < b then b else b + 1
  | .popCompareExchange b _ _ => b + 1
  | .popRestore b _ => b + 1
  | _ => state.bottom

/-- The number of rings that exist besides the ones `buffer_` has pointed to. -/
def unpublished (state : State Task) : Nat :=
  match state.owner with
  | .growLoad .. => 1
  | .growStore .. => 1
  | _ => 0

/-- What the owner's local variables say about the deque. -/
def OwnerAgrees (state : State Task) (live hand : List Pointer) : Prop :=
  match state.owner with
  | .idle => hand = []
  | .pushLoadTop _ b => hand = [] ∧ state.bottom = b
  | .pushLoadBuffer _ b t =>
      hand = [] ∧ state.bottom = b ∧ 0 ≤ t ∧ t ≤ state.top ∧
        b - t ≤ state.ring.capacity - 1
  | .growLoad _ b buf grown i =>
      hand = [] ∧ state.bottom = b ∧ 0 ≤ i ∧
        buf = state.buffer ∧ grown = state.buffer + 1 ∧
        (state.rings grown).capacity = state.ring.capacity * 2 ∧
        ∀ j, state.top ≤ j → j < i → j < b →
          (state.rings grown).get j = state.ring.get j
  | .growStore _ b buf grown i pointer =>
      hand = [] ∧ state.bottom = b ∧ 0 ≤ i ∧ i < b ∧
        buf = state.buffer ∧ grown = state.buffer + 1 ∧
        pointer = state.ring.get i ∧
        (state.rings grown).capacity = state.ring.capacity * 2 ∧
        ∀ j, state.top ≤ j → j < i → j < b →
          (state.rings grown).get j = state.ring.get j
  | .put _ b buf =>
      hand = [] ∧ state.bottom = b ∧ buf = state.buffer ∧
        b - state.top + 2 ≤ state.ring.capacity
  | .pushStoreBottom b =>
      hand = [state.ring.get b] ∧ state.bottom = b ∧
        b - state.top + 2 ≤ state.ring.capacity
  | .popLoadBuffer b => hand = [] ∧ state.bottom = b + 1
  | .popStoreBottom b buf =>
      hand = [] ∧ state.bottom = b + 1 ∧ buf = state.buffer
  | .popLoadTop b buf =>
      hand = [] ∧ state.bottom = b ∧ buf = state.buffer
  | .popGet b t buf =>
      state.bottom = b ∧ buf = state.buffer ∧ t ≤ b ∧
        (t < b → hand = [state.ring.get b]) ∧
        (t = b → hand = [] ∧ b ≤ state.top)
  | .popCompareExchange b t pointer =>
      hand = [] ∧ state.bottom = b ∧ t = b ∧ b ≤ state.top ∧
        (state.top = b → live = [pointer])
  | .popRestore b result =>
      hand = result.toList ∧ state.bottom = b ∧ live = []

/-- What a thief's local variables say about the deque. -/
def ThiefAgrees (state : State Task) (live : List Pointer) : Thief → Prop
  | .idle => True
  | .loadBottom t => t ≤ state.top
  | .loadBuffer t =>
      t ≤ state.top ∧ (t = state.top → live ≠ [])
  | .get t buf =>
      t ≤ state.top ∧ buf ≤ state.buffer ∧
        (t = state.top → live.head? = some ((state.rings buf).get t))
  | .compareExchange t pointer =>
      t ≤ state.top ∧ (t = state.top → live.head? = some pointer)

/-- The deque holds exactly `live`, and the owner has `hand` in its hands. -/
structure Represents (state : State Task) (live hand : List Pointer) :
    Prop where
  top_nonneg : 0 ≤ state.top
  length : (live.length : Int) = state.back - state.top
  slots : ∀ offset (inside : offset < live.length),
    state.ring.get (state.top + offset) = live[offset]
  pow2 : state.ring.IsPow2
  room : live.length + 1 ≤ state.ring.capacity
  allocated : state.allocated = state.buffer + 1 + state.unpublished
  owner : state.OwnerAgrees live hand
  thieves : ∀ thief ∈ state.thieves, state.ThiefAgrees live thief
  /-- Every pushed task is in exactly one of the four lists. -/
  partition :
    (state.popped ++ (state.stolen ++ (live ++ hand))).Perm
      (List.range' 1 state.pushed.length)
  /-- Older tasks sit nearer to the front. -/
  sorted : (state.stolen ++ (live ++ hand)).Pairwise (· < ·)

/-- What a thief knows survives every step that keeps the front element and
its slots, and any step that moves `top_`. -/
theorem ThiefAgrees.mono
    {state following : State Task} {live remaining : List Pointer}
    {thief : Thief}
    (agrees : state.ThiefAgrees live thief)
    (topMonotone : state.top ≤ following.top)
    (bufferMonotone : state.buffer ≤ following.buffer)
    (sameFront : following.top = state.top →
      ∀ front, live.head? = some front → remaining.head? = some front)
    (sameSlots : following.top = state.top → live ≠ [] →
      ∀ buf ≤ state.buffer,
        (following.rings buf).get state.top =
          (state.rings buf).get state.top) :
    following.ThiefAgrees remaining thief := by
  have front :
      following.top = state.top → live ≠ [] → remaining ≠ [] := by
    intro same nonempty
    obtain ⟨first, rest, rfl⟩ := List.exists_cons_of_ne_nil nonempty
    have := sameFront same first rfl
    rintro rfl
    simp at this
  cases thief with
  | idle =>
      trivial
  | loadBottom t =>
      exact le_trans agrees topMonotone
  | loadBuffer t =>
      obtain ⟨bound, nonempty⟩ := agrees
      refine ⟨le_trans bound topMonotone, ?_⟩
      intro current
      have same : following.top = state.top := by omega
      exact front same (nonempty (by omega))
  | get t buf =>
      obtain ⟨bound, bufferBound, content⟩ := agrees
      refine ⟨le_trans bound topMonotone,
        le_trans bufferBound bufferMonotone, ?_⟩
      intro current
      have same : following.top = state.top := by omega
      have atTop : t = state.top := by omega
      have found := content atTop
      have nonempty : live ≠ [] := by
        rintro rfl
        simp at found
      rw [atTop] at found ⊢
      rw [sameSlots same nonempty buf bufferBound]
      exact sameFront same _ found
  | compareExchange t pointer =>
      obtain ⟨bound, content⟩ := agrees
      refine ⟨le_trans bound topMonotone, ?_⟩
      intro current
      have same : following.top = state.top := by omega
      exact sameFront same pointer (content (by omega))

variable {state : State Task} {live hand : List Pointer}

theorem Represents.back_nonempty
    (represents : state.Represents live hand)
    (ahead : state.top < state.back) : live ≠ [] := by
  rintro rfl
  have length := represents.length
  simp only [List.length_nil, Nat.cast_zero] at length
  omega

theorem Represents.empty
    (represents : state.Represents live hand)
    (behind : state.back ≤ state.top) : live = [] := by
  have length := represents.length
  apply List.eq_nil_of_length_eq_zero
  omega

/-- The front of `live` is stored at `top_`. -/
theorem Represents.front
    (represents : state.Represents live hand) (nonempty : live ≠ []) :
    live.head? = some (state.ring.get state.top) := by
  obtain ⟨first, rest, rfl⟩ := List.exists_cons_of_ne_nil nonempty
  have stored := represents.slots 0 (by simp)
  simpa using stored.symm

/-- A step of the owner that touches no ring a thief may hold, no index and no
list of tasks. -/
theorem Represents.keepPublished
    (represents : state.Represents live hand)
    {rings : Nat → RingBuffer} {allocated : Nat} {owner : Owner Task}
    (sameRings : ∀ buf ≤ state.buffer, rings buf = state.rings buf)
    (sameBack : State.back { state with
      rings := rings, allocated := allocated, owner := owner } = state.back)
    (count : allocated = state.buffer + 1 + State.unpublished { state with
      rings := rings, allocated := allocated, owner := owner })
    (agrees : State.OwnerAgrees { state with
      rings := rings, allocated := allocated, owner := owner } live hand) :
    Represents { state with
      rings := rings, allocated := allocated, owner := owner } live hand := by
  have sameRing : rings state.buffer = state.ring :=
    sameRings state.buffer (le_refl _)
  constructor
  case top_nonneg => exact represents.top_nonneg
  case length =>
    rw [sameBack]
    exact represents.length
  case slots =>
    intro offset inside
    change (rings state.buffer).get _ = _
    rw [sameRing]
    exact represents.slots offset inside
  case pow2 =>
    change (rings state.buffer).IsPow2
    rw [sameRing]
    exact represents.pow2
  case room =>
    change _ ≤ (rings state.buffer).capacity
    rw [sameRing]
    exact represents.room
  case allocated => exact count
  case owner => exact agrees
  case thieves =>
    intro thief member
    refine (represents.thieves thief member).mono (le_refl _) (le_refl _)
      (fun _ _ found => found) ?_
    intro _ _ buf bound
    simp only [sameRings buf bound]
  case partition => exact represents.partition
  case sorted => exact represents.sorted

/-- A step that only moves the owner's program counter. -/
theorem Represents.setOwner
    (represents : state.Represents live hand) (owner : Owner Task)
    (sameBack : State.back { state with owner := owner } = state.back)
    (sameUnpublished :
      State.unpublished { state with owner := owner } = state.unpublished)
    (agrees : State.OwnerAgrees { state with owner := owner } live hand) :
    Represents { state with owner := owner } live hand := by
  refine represents.keepPublished (fun _ _ => rfl) sameBack ?_ agrees
  rw [sameUnpublished]
  exact represents.allocated

/-! ## The owner's accesses -/

theorem represents_push
    (represents : state.Represents live hand) (task : Task)
    (isIdle : state.owner = .idle) :
    Represents { state with owner := .pushLoadTop task state.bottom }
      live hand := by
  have agrees := represents.owner
  simp only [OwnerAgrees, isIdle] at agrees
  refine represents.setOwner _ ?_ ?_ ?_
  · simp [back, isIdle]
  · simp [unpublished, isIdle]
  · exact ⟨agrees, rfl⟩

theorem represents_pop
    (represents : state.Represents live hand)
    (isIdle : state.owner = .idle) :
    Represents { state with owner := .popLoadBuffer (state.bottom - 1) }
      live hand := by
  have agrees := represents.owner
  simp only [OwnerAgrees, isIdle] at agrees
  refine represents.setOwner _ ?_ ?_ ?_
  · simp [back, isIdle]
  · simp [unpublished, isIdle]
  · exact ⟨agrees, by simp⟩

theorem represents_pushLoadTop
    (represents : state.Represents live hand) {task : Task} {b : Int}
    (atPoint : state.owner = .pushLoadTop task b) :
    Represents { state with owner := .pushLoadBuffer task b state.top }
      live hand := by
  have agrees := represents.owner
  simp only [OwnerAgrees, atPoint] at agrees
  obtain ⟨noHand, sameBottom⟩ := agrees
  have length := represents.length
  have room := represents.room
  simp only [back, atPoint] at length
  refine represents.setOwner _ ?_ ?_ ?_
  · simp [back, atPoint]
  · simp [unpublished, atPoint]
  · refine ⟨noHand, sameBottom, represents.top_nonneg, le_refl _, ?_⟩
    change b - state.top ≤ (state.ring.capacity : Int) - 1
    omega

/-- `grow` allocates a ring that nobody else can see. -/
theorem represents_allocate
    (represents : state.Represents live hand) {task : Task} {b t : Int}
    (atPoint : state.owner = .pushLoadBuffer task b t) :
    Represents { state with
        rings := Function.update state.rings state.allocated
          (RingBuffer.create (state.ring.capacity * 2))
        allocated := state.allocated + 1
        owner := .growLoad task b state.buffer state.allocated t }
      live hand := by
  have agrees := represents.owner
  simp only [OwnerAgrees, atPoint] at agrees
  obtain ⟨noHand, sameBottom, nonneg, stale, _⟩ := agrees
  have fresh : state.allocated = state.buffer + 1 := by
    simpa [unpublished, atPoint] using represents.allocated
  have sameRings : ∀ buf ≤ state.buffer,
      Function.update state.rings state.allocated
        (RingBuffer.create (state.ring.capacity * 2)) buf =
          state.rings buf := by
    intro buf bound
    exact Function.update_of_ne (by omega) _ _
  refine represents.keepPublished sameRings ?_ ?_ ?_
  · simp [back, atPoint]
  · simp [unpublished, fresh]
  · refine ⟨noHand, sameBottom, nonneg, rfl, fresh, ?_, ?_⟩
    · change (Function.update state.rings state.allocated
        (RingBuffer.create (state.ring.capacity * 2))
          state.allocated).capacity =
        (Function.update state.rings state.allocated
          (RingBuffer.create (state.ring.capacity * 2))
            state.buffer).capacity * 2
      rw [sameRings _ (le_refl _), Function.update_self]
      rfl
    · -- the loop starts at a value of `top_` that may be out of date
      intro j lower upper _
      exact absurd upper (by simp only at lower; omega)

theorem represents_roomFound
    (represents : state.Represents live hand) {task : Task} {b t : Int}
    (atPoint : state.owner = .pushLoadBuffer task b t)
    (hasRoom : ¬ b - t ≥ (state.ring.capacity : Int) - 1) :
    Represents { state with owner := .put task b state.buffer }
      live hand := by
  have agrees := represents.owner
  simp only [OwnerAgrees, atPoint] at agrees
  obtain ⟨noHand, sameBottom, _, stale, _⟩ := agrees
  refine represents.setOwner _ ?_ ?_ ?_
  · simp [back, atPoint]
  · simp [unpublished, atPoint]
  · refine ⟨noHand, sameBottom, rfl, ?_⟩
    change b - state.top + 2 ≤ (state.ring.capacity : Int)
    omega

theorem represents_growLoad
    (represents : state.Represents live hand)
    {task : Task} {b i : Int} {buf grown : Nat}
    (atPoint : state.owner = .growLoad task b buf grown i)
    (unfinished : i < b) :
    Represents { state with
        owner := .growStore task b buf grown i ((state.rings buf).get i) }
      live hand := by
  have agrees := represents.owner
  simp only [OwnerAgrees, atPoint] at agrees
  obtain ⟨noHand, sameBottom, nonneg, rfl, next, capacity, copied⟩ := agrees
  refine represents.setOwner _ ?_ ?_ ?_
  · simp [back, atPoint]
  · simp [unpublished, atPoint]
  · exact ⟨noHand, sameBottom, nonneg, unfinished, rfl, next, rfl,
      capacity, copied⟩

/-- Publishing the grown ring: every live element has been copied. -/
theorem represents_publish
    (represents : state.Represents live hand)
    {task : Task} {b i : Int} {buf grown : Nat}
    (atPoint : state.owner = .growLoad task b buf grown i)
    (finished : ¬ i < b) :
    Represents { state with buffer := grown, owner := .put task b grown }
      live hand := by
  have agrees := represents.owner
  simp only [OwnerAgrees, atPoint] at agrees
  obtain ⟨noHand, sameBottom, nonneg, rfl, rfl, capacity, copied⟩ := agrees
  have length := represents.length
  simp only [back, atPoint] at length
  have room := represents.room
  have positive := represents.pow2.pos
  have count := represents.allocated
  simp only [unpublished, atPoint] at count
  constructor
  case top_nonneg => exact represents.top_nonneg
  case length => simpa [back] using length
  case slots =>
    intro offset inside
    have same := copied (state.top + offset)
      (by omega) (by omega) (by omega)
    rw [← represents.slots offset inside, ← same]
    rfl
  case pow2 =>
    obtain ⟨exponent, equality⟩ := represents.pow2
    refine ⟨exponent + 1, ?_⟩
    change (state.rings (state.buffer + 1)).capacity = _
    rw [capacity, equality, pow_succ]
  case room =>
    change _ ≤ (state.rings (state.buffer + 1)).capacity
    omega
  case allocated =>
    simp only [unpublished]
    omega
  case owner =>
    refine ⟨noHand, sameBottom, rfl, ?_⟩
    change b - state.top + 2 ≤ ((state.rings (state.buffer + 1)).capacity : Int)
    omega
  case thieves =>
    intro thief member
    exact (represents.thieves thief member).mono (le_refl _)
      (Nat.le_succ _) (fun _ _ found => found) (fun _ _ _ _ => rfl)
  case partition => exact represents.partition
  case sorted => exact represents.sorted

theorem represents_growStore
    (represents : state.Represents live hand)
    {task : Task} {b i : Int} {buf grown : Nat} {pointer : Pointer}
    (atPoint : state.owner = .growStore task b buf grown i pointer) :
    Represents { state with
        rings := Function.update state.rings grown
          ((state.rings grown).put i pointer)
        owner := .growLoad task b buf grown (i + 1) }
      live hand := by
  have agrees := represents.owner
  simp only [OwnerAgrees, atPoint] at agrees
  obtain ⟨noHand, sameBottom, nonneg, unfinished, rfl, rfl, content,
    capacity, copied⟩ := agrees
  have length := represents.length
  simp only [back, atPoint] at length
  have room := represents.room
  have grownPow2 : (state.rings (state.buffer + 1)).IsPow2 := by
    obtain ⟨exponent, equality⟩ := represents.pow2
    exact ⟨exponent + 1, by rw [capacity, equality, pow_succ]⟩
  have sameRings : ∀ current ≤ state.buffer,
      Function.update state.rings (state.buffer + 1)
        ((state.rings (state.buffer + 1)).put i pointer) current =
          state.rings current := by
    intro current bound
    exact Function.update_of_ne (by omega) _ _
  have grownRing :
      Function.update state.rings (state.buffer + 1)
        ((state.rings (state.buffer + 1)).put i pointer)
          (state.buffer + 1) =
        (state.rings (state.buffer + 1)).put i pointer :=
    Function.update_self _ _ _
  refine represents.keepPublished sameRings ?_ ?_ ?_
  · simp [back, atPoint]
  · simpa [unpublished, atPoint] using represents.allocated
  · refine ⟨noHand, sameBottom, by omega, rfl, rfl, ?_, ?_⟩
    · simp only [ring, sameRings _ (le_refl _), grownRing]
      exact capacity
    · intro j lower upper inside
      simp only [ring, sameRings _ (le_refl _), grownRing]
      change state.top ≤ j at lower
      have topNonneg := represents.top_nonneg
      rcases lt_or_eq_of_le (Int.lt_add_one_iff.mp upper) with earlier | rfl
      · rw [RingBuffer.get_put_of_ne]
        · exact copied j lower earlier inside
        · exact RingBuffer.position_ne grownPow2 (by omega) earlier
            (by rw [capacity]; omega)
      · rw [RingBuffer.get_put_self]
        exact content

/-- Writing the slot at `bottom_` disturbs no live element. -/
theorem Represents.position_ne_bottom
    (represents : state.Represents live hand) {index b : Int}
    (lower : state.top ≤ index) (upper : index < b)
    (room : b - state.top + 2 ≤ state.ring.capacity) :
    state.ring.position index ≠ state.ring.position b := by
  have topNonneg := represents.top_nonneg
  exact RingBuffer.position_ne represents.pow2 (by omega) upper (by omega)

/-- Every pointer in use was handed out by an earlier push. -/
theorem Represents.mem_le
    (represents : state.Represents live hand) {pointer : Pointer}
    (member : pointer ∈ state.stolen ++ (live ++ hand)) :
    pointer ≤ state.pushed.length := by
  have inRange : pointer ∈ List.range' 1 state.pushed.length :=
    represents.partition.mem_iff.mp (List.mem_append_right _ member)
  rw [List.mem_range'_1, Nat.add_comm] at inRange
  exact Nat.le_of_lt_succ inRange.2

theorem represents_put
    (represents : state.Represents live hand)
    {task : Task} {b : Int} {buf : Nat}
    (atPoint : state.owner = .put task b buf) :
    Represents { state with
        rings := Function.update state.rings buf
          ((state.rings buf).put b (state.pushed.length + 1))
        pushed := state.pushed ++ [task]
        owner := .pushStoreBottom b }
      live [state.pushed.length + 1] := by
  have agrees := represents.owner
  simp only [OwnerAgrees, atPoint] at agrees
  obtain ⟨rfl, sameBottom, rfl, room⟩ := agrees
  have length := represents.length
  simp only [back, atPoint] at length
  have current :
      Function.update state.rings state.buffer
        (state.ring.put b (state.pushed.length + 1)) state.buffer =
          state.ring.put b (state.pushed.length + 1) :=
    Function.update_self _ _ _
  constructor
  case top_nonneg => exact represents.top_nonneg
  case length => simpa [back] using length
  case slots =>
    intro offset inside
    change (Function.update state.rings state.buffer
      (state.ring.put b (state.pushed.length + 1)) state.buffer).get _ = _
    rw [current, RingBuffer.get_put_of_ne]
    · exact represents.slots offset inside
    · exact represents.position_ne_bottom (by simp) (by simp only; omega)
        room
  case pow2 =>
    change (Function.update state.rings state.buffer
      (state.ring.put b (state.pushed.length + 1)) state.buffer).IsPow2
    rw [current]
    exact represents.pow2
  case room =>
    change _ ≤ (Function.update state.rings state.buffer
      (state.ring.put b (state.pushed.length + 1)) state.buffer).capacity
    rw [current]
    exact represents.room
  case allocated =>
    simpa [unpublished, atPoint] using represents.allocated
  case owner =>
    simp only [OwnerAgrees, ring]
    change [_] = [(Function.update state.rings state.buffer
        (state.ring.put b (state.pushed.length + 1)) state.buffer).get b] ∧
      state.bottom = b ∧
      b - state.top + 2 ≤ ((Function.update state.rings state.buffer
        (state.ring.put b (state.pushed.length + 1))
          state.buffer).capacity : Int)
    rw [current, RingBuffer.get_put_self]
    exact ⟨rfl, sameBottom, room⟩
  case thieves =>
    intro thief member
    refine (represents.thieves thief member).mono (le_refl _) (le_refl _)
      (fun _ _ found => found) ?_
    intro _ nonempty tested _
    change (Function.update state.rings state.buffer
      (state.ring.put b (state.pushed.length + 1)) tested).get _ = _
    by_cases same : tested = state.buffer
    · subst same
      have positive : 0 < live.length := List.length_pos_iff.mpr nonempty
      rw [current, RingBuffer.get_put_of_ne]
      · rfl
      · exact represents.position_ne_bottom (le_refl _) (by omega) room
    · rw [Function.update_of_ne same]
  case partition =>
    have extended := represents.partition.append_right
      [state.pushed.length + 1]
    rw [List.length_append, List.length_singleton, List.range'_concat]
    simpa [Nat.add_comm] using extended
  case sorted =>
    have sorted := represents.sorted
    rw [List.append_nil] at sorted
    rw [← List.append_assoc, List.pairwise_append]
    refine ⟨sorted, List.pairwise_singleton _ _, ?_⟩
    intro older member newest newestMember
    rw [List.mem_singleton] at newestMember
    subst newestMember
    exact Nat.lt_succ_of_le (represents.mem_le (by simpa using member))

/-- The new task becomes visible at the back. -/
theorem represents_pushStoreBottom
    (represents : state.Represents live hand) {b : Int}
    (atPoint : state.owner = .pushStoreBottom b) :
    Represents { state with bottom := b + 1, owner := .idle }
      (live ++ hand) [] := by
  have agrees := represents.owner
  simp only [OwnerAgrees, atPoint] at agrees
  obtain ⟨rfl, sameBottom, room⟩ := agrees
  have length := represents.length
  simp only [back, atPoint] at length
  constructor
  case top_nonneg => exact represents.top_nonneg
  case length =>
    simp only [back, List.length_append, List.length_singleton,
      Nat.cast_add, Nat.cast_one]
    omega
  case slots =>
    intro offset inside
    by_cases old : offset < live.length
    · rw [List.getElem_append_left old]
      exact represents.slots offset old
    · have last : state.top + offset = b := by
        simp only [List.length_append, List.length_singleton] at inside
        omega
      rw [List.getElem_append_right (by omega)]
      simp only [List.getElem_singleton]
      exact congrArg state.ring.get last
  case pow2 => exact represents.pow2
  case room =>
    change (live ++ [state.ring.get b]).length + 1 ≤ state.ring.capacity
    simp only [List.length_append, List.length_singleton]
    omega
  case allocated =>
    simpa [unpublished, atPoint] using represents.allocated
  case owner => rfl
  case thieves =>
    intro thief member
    refine (represents.thieves thief member).mono (le_refl _) (le_refl _)
      ?_ (fun _ _ _ _ => rfl)
    intro _ front found
    rw [List.head?_append, found]
    rfl
  case partition => simpa using represents.partition
  case sorted => simpa using represents.sorted

theorem represents_popLoadBuffer
    (represents : state.Represents live hand) {b : Int}
    (atPoint : state.owner = .popLoadBuffer b) :
    Represents { state with owner := .popStoreBottom b state.buffer }
      live hand := by
  have agrees := represents.owner
  simp only [OwnerAgrees, atPoint] at agrees
  obtain ⟨noHand, sameBottom⟩ := agrees
  refine represents.setOwner _ ?_ ?_ ?_
  · simp [back, atPoint]
  · simp [unpublished, atPoint]
  · exact ⟨noHand, sameBottom, rfl⟩

theorem represents_popStoreBottom
    (represents : state.Represents live hand) {b : Int} {buf : Nat}
    (atPoint : state.owner = .popStoreBottom b buf) :
    Represents { state with bottom := b, owner := .popLoadTop b buf }
      live hand := by
  have agrees := represents.owner
  simp only [OwnerAgrees, atPoint] at agrees
  obtain ⟨noHand, sameBottom, sameBuffer⟩ := agrees
  constructor
  case top_nonneg => exact represents.top_nonneg
  case length =>
    have length := represents.length
    simp only [back, atPoint] at length
    simp only [back]
    omega
  case slots => exact represents.slots
  case pow2 => exact represents.pow2
  case room => exact represents.room
  case allocated =>
    simpa [unpublished, atPoint] using represents.allocated
  case owner => exact ⟨noHand, rfl, sameBuffer⟩
  case thieves =>
    intro thief member
    exact (represents.thieves thief member).mono (le_refl _) (le_refl _)
      (fun _ _ found => found) (fun _ _ _ _ => rfl)
  case partition => exact represents.partition
  case sorted => exact represents.sorted

theorem represents_popEmpty
    (represents : state.Represents live hand) {b : Int} {buf : Nat}
    (atPoint : state.owner = .popLoadTop b buf)
    (overtaken : state.top > b) :
    Represents { state with owner := .popRestore b none } live hand := by
  have agrees := represents.owner
  simp only [OwnerAgrees, atPoint] at agrees
  obtain ⟨noHand, sameBottom, _⟩ := agrees
  have noLive : live = [] :=
    represents.empty (by simp only [back, atPoint]; omega)
  refine represents.setOwner _ ?_ ?_ ?_
  · simp [back, atPoint]
  · simp [unpublished, atPoint]
  · exact ⟨noHand, sameBottom, noLive⟩

/-- One element is left: nothing is claimed before the compare-exchange. -/
theorem represents_popLast
    (represents : state.Represents live hand) {b : Int} {buf : Nat}
    (atPoint : state.owner = .popLoadTop b buf)
    (last : state.top = b) :
    Represents { state with owner := .popGet b state.top buf }
      live hand := by
  have agrees := represents.owner
  simp only [OwnerAgrees, atPoint] at agrees
  obtain ⟨noHand, sameBottom, sameBuffer⟩ := agrees
  refine represents.setOwner _ ?_ ?_ ?_
  · simp [back, atPoint, last]
  · simp [unpublished, atPoint]
  · refine ⟨sameBottom, sameBuffer, le_of_eq last, ?_, ?_⟩
    · intro below
      omega
    · intro _
      exact ⟨noHand, le_of_eq last.symm⟩

/-- More than one element is left: reading `top_` claims the one at the back.
A thief that still sees this `top_` is after the front, not after the back. -/
theorem represents_popClaim
    (represents : state.Represents live hand) {b : Int} {buf : Nat}
    (atPoint : state.owner = .popLoadTop b buf)
    (below : state.top < b) :
    Represents { state with owner := .popGet b state.top buf }
      live.dropLast [state.ring.get b] := by
  have agrees := represents.owner
  simp only [OwnerAgrees, atPoint] at agrees
  obtain ⟨rfl, sameBottom, sameBuffer⟩ := agrees
  have length := represents.length
  simp only [back, atPoint] at length
  have nonempty : live ≠ [] :=
    represents.back_nonempty (by simp only [back, atPoint]; omega)
  have lastStored : state.ring.get b = live.getLast nonempty := by
    have position : state.top + ((live.length - 1 : Nat) : Int) = b := by
      omega
    rw [List.getLast_eq_getElem, ← represents.slots, position]
  have restored : live.dropLast ++ [state.ring.get b] = live := by
    rw [lastStored]
    exact List.dropLast_concat_getLast nonempty
  constructor
  case top_nonneg => exact represents.top_nonneg
  case length =>
    simp only [back, below, if_true, List.length_dropLast]
    omega
  case slots =>
    intro offset inside
    rw [List.getElem_dropLast]
    exact represents.slots offset _
  case pow2 => exact represents.pow2
  case room =>
    change _ ≤ state.ring.capacity
    have room := represents.room
    simp only [List.length_dropLast]
    omega
  case allocated =>
    simpa [unpublished, atPoint] using represents.allocated
  case owner =>
    refine ⟨sameBottom, sameBuffer, le_of_lt below, fun _ => rfl, ?_⟩
    intro same
    omega
  case thieves =>
    intro thief member
    refine (represents.thieves thief member).mono (le_refl _) (le_refl _)
      ?_ (fun _ _ _ _ => rfl)
    intro _ front found
    rw [List.head?_dropLast, if_pos (by omega)]
    exact found
  case partition => simpa [restored] using represents.partition
  case sorted => simpa [restored] using represents.sorted

theorem represents_popGetLast
    (represents : state.Represents live hand) {b t : Int} {buf : Nat}
    (atPoint : state.owner = .popGet b t buf) (last : t = b) :
    Represents { state with
        owner := .popCompareExchange b t ((state.rings buf).get b) }
      live hand := by
  have agrees := represents.owner
  simp only [OwnerAgrees, atPoint] at agrees
  obtain ⟨sameBottom, rfl, _, _, atLast⟩ := agrees
  obtain ⟨noHand, bound⟩ := atLast last
  have length := represents.length
  simp only [back, atPoint, last, lt_irrefl, if_false] at length
  refine represents.setOwner _ ?_ ?_ ?_
  · simp [back, atPoint, last]
  · simp [unpublished, atPoint]
  · refine ⟨noHand, sameBottom, last, bound, ?_⟩
    intro current
    change state.top = b at current
    have single : live.length = 1 := by omega
    obtain ⟨only, rfl⟩ := List.length_eq_one_iff.mp single
    have stored := represents.slots 0 (by simp)
    rw [← current]
    change [only] = [state.ring.get state.top]
    simpa using stored.symm

theorem represents_popReturn
    (represents : state.Represents live hand) {b t : Int} {buf : Nat}
    (atPoint : state.owner = .popGet b t buf) (claimed : t ≠ b) :
    Represents { state with
        popped := state.popped ++ [(state.rings buf).get b]
        owner := .idle }
      live [] := by
  have agrees := represents.owner
  simp only [OwnerAgrees, atPoint] at agrees
  obtain ⟨sameBottom, rfl, bound, inHand, _⟩ := agrees
  have below : t < b := lt_of_le_of_ne bound claimed
  obtain rfl := inHand below
  constructor
  case top_nonneg => exact represents.top_nonneg
  case length =>
    have length := represents.length
    simp only [back, atPoint, below, if_true] at length
    simp only [back]
    omega
  case slots => exact represents.slots
  case pow2 => exact represents.pow2
  case room => exact represents.room
  case allocated =>
    simpa [unpublished, atPoint] using represents.allocated
  case owner => rfl
  case thieves =>
    intro thief member
    exact (represents.thieves thief member).mono (le_refl _) (le_refl _)
      (fun _ _ found => found) (fun _ _ _ _ => rfl)
  case partition =>
    refine List.Perm.trans ?_ represents.partition
    change (state.popped ++ [state.ring.get b] ++
      (state.stolen ++ (live ++ []))).Perm _
    rw [List.append_assoc, List.append_nil, ← List.append_assoc _ live]
    exact List.Perm.append_left _ List.perm_append_comm
  case sorted =>
    refine represents.sorted.sublist ?_
    rw [List.append_nil, ← List.append_assoc]
    exact List.sublist_append_left _ _

theorem represents_popWin
    (represents : state.Represents live hand)
    {b t : Int} {pointer : Pointer}
    (atPoint : state.owner = .popCompareExchange b t pointer)
    (current : state.top = t) :
    Represents { state with
        top := t + 1
        owner := .popRestore b (some pointer) }
      [] [pointer] := by
  have agrees := represents.owner
  simp only [OwnerAgrees, atPoint] at agrees
  obtain ⟨rfl, sameBottom, rfl, _, only⟩ := agrees
  obtain rfl := only current
  have topNonneg := represents.top_nonneg
  constructor
  case top_nonneg =>
    change 0 ≤ t + 1
    omega
  case length => simp [back]
  case slots =>
    intro offset inside
    exact absurd inside (Nat.not_lt_zero _)
  case pow2 => exact represents.pow2
  case room =>
    have room := represents.room
    change 0 + 1 ≤ state.ring.capacity
    simp only [List.length_singleton] at room
    omega
  case allocated =>
    simpa [unpublished, atPoint] using represents.allocated
  case owner => exact ⟨rfl, sameBottom, rfl⟩
  case thieves =>
    intro thief member
    refine (represents.thieves thief member).mono ?_ (le_refl _) ?_ ?_
    · change state.top ≤ t + 1
      omega
    · intro same
      change t + 1 = state.top at same
      omega
    · intro same
      change t + 1 = state.top at same
      omega
  case partition => simpa using represents.partition
  case sorted => simpa using represents.sorted

theorem represents_popLose
    (represents : state.Represents live hand)
    {b t : Int} {pointer : Pointer}
    (atPoint : state.owner = .popCompareExchange b t pointer)
    (moved : state.top ≠ t) :
    Represents { state with owner := .popRestore b none } live hand := by
  have agrees := represents.owner
  simp only [OwnerAgrees, atPoint] at agrees
  obtain ⟨noHand, sameBottom, rfl, bound, _⟩ := agrees
  have noLive : live = [] :=
    represents.empty (by simp only [back, atPoint]; omega)
  refine represents.setOwner _ ?_ ?_ ?_
  · simp [back, atPoint]
  · simp [unpublished, atPoint]
  · exact ⟨noHand, sameBottom, noLive⟩

theorem represents_popRestore
    (represents : state.Represents live hand)
    {b : Int} {result : Option Pointer}
    (atPoint : state.owner = .popRestore b result) :
    Represents { state with
        bottom := b + 1
        popped := state.popped ++ result.toList
        owner := .idle }
      live [] := by
  have agrees := represents.owner
  simp only [OwnerAgrees, atPoint] at agrees
  obtain ⟨rfl, sameBottom, rfl⟩ := agrees
  constructor
  case top_nonneg => exact represents.top_nonneg
  case length => simpa [back, atPoint] using represents.length
  case slots => exact represents.slots
  case pow2 => exact represents.pow2
  case room => exact represents.room
  case allocated =>
    simpa [unpublished, atPoint] using represents.allocated
  case owner => rfl
  case thieves =>
    intro thief member
    exact (represents.thieves thief member).mono (le_refl _) (le_refl _)
      (fun _ _ found => found) (fun _ _ _ _ => rfl)
  case partition =>
    refine List.Perm.trans ?_ represents.partition
    rw [List.append_assoc]
    apply List.Perm.append_left
    simpa using List.perm_append_comm
  case sorted =>
    refine represents.sorted.sublist ?_
    simp

/-- Every access of the owner preserves the relation. -/
theorem represents_owner
    (represents : state.Represents live hand) {following : State Task}
    (stepped : state.ownerStep = some following) :
    ∃ remaining held, following.Represents remaining held := by
  unfold ownerStep at stepped
  split at stepped
  case h_1 => cases stepped
  case h_2 task b atPoint =>
    cases stepped
    exact ⟨_, _, represents_pushLoadTop represents atPoint⟩
  case h_3 task b t atPoint =>
    dsimp only at stepped
    split at stepped
    · cases stepped
      exact ⟨_, _, represents_allocate represents atPoint⟩
    · next hasRoom =>
        cases stepped
        exact ⟨_, _, represents_roomFound represents atPoint hasRoom⟩
  case h_4 task b buf grown i atPoint =>
    split at stepped
    · next unfinished =>
        cases stepped
        exact ⟨_, _, represents_growLoad represents atPoint unfinished⟩
    · next finished =>
        cases stepped
        exact ⟨_, _, represents_publish represents atPoint finished⟩
  case h_5 task b buf grown i pointer atPoint =>
    cases stepped
    exact ⟨_, _, represents_growStore represents atPoint⟩
  case h_6 task b buf atPoint =>
    cases stepped
    exact ⟨_, _, represents_put represents atPoint⟩
  case h_7 b atPoint =>
    cases stepped
    exact ⟨_, _, represents_pushStoreBottom represents atPoint⟩
  case h_8 b atPoint =>
    cases stepped
    exact ⟨_, _, represents_popLoadBuffer represents atPoint⟩
  case h_9 b buf atPoint =>
    cases stepped
    exact ⟨_, _, represents_popStoreBottom represents atPoint⟩
  case h_10 b buf atPoint =>
    split at stepped
    · next overtaken =>
        cases stepped
        exact ⟨_, _, represents_popEmpty represents atPoint overtaken⟩
    · next ahead =>
        cases stepped
        rcases lt_or_eq_of_le (not_lt.mp ahead) with below | last
        · exact ⟨_, _, represents_popClaim represents atPoint below⟩
        · exact ⟨_, _, represents_popLast represents atPoint last⟩
  case h_11 b t buf atPoint =>
    dsimp only at stepped
    split at stepped
    · next last =>
        cases stepped
        exact ⟨_, _, represents_popGetLast represents atPoint last⟩
    · next claimed =>
        cases stepped
        exact ⟨_, _, represents_popReturn represents atPoint claimed⟩
  case h_12 b t pointer atPoint =>
    split at stepped
    · next current =>
        cases stepped
        exact ⟨_, _, represents_popWin represents atPoint current⟩
    · next moved =>
        cases stepped
        exact ⟨_, _, represents_popLose represents atPoint moved⟩
  case h_13 b result atPoint =>
    cases stepped
    exact ⟨_, _, represents_popRestore represents atPoint⟩

/-! ## The thieves' accesses -/

theorem Represents.bottom_le_back
    (represents : state.Represents live hand) :
    state.bottom ≤ state.back := by
  have agrees := represents.owner
  unfold OwnerAgrees at agrees
  unfold back
  cases atPoint : state.owner with
  | popGet b t buf =>
      simp only [atPoint] at agrees ⊢
      split <;> omega
  | popLoadTop | popCompareExchange | popRestore =>
      simp only [atPoint] at agrees ⊢
      omega
  | idle | pushLoadTop | pushLoadBuffer | growLoad | growStore | put
  | pushStoreBottom | popLoadBuffer | popStoreBottom =>
      exact le_refl _

/-- A step that only moves a thief's program counter. -/
theorem Represents.setThief
    (represents : state.Represents live hand) (number : Nat)
    {thief : Thief} (agrees : state.ThiefAgrees live thief) :
    Represents { state with thieves := state.thieves.set number thief }
      live hand where
  top_nonneg := represents.top_nonneg
  length := represents.length
  slots := represents.slots
  pow2 := represents.pow2
  room := represents.room
  allocated := represents.allocated
  owner := represents.owner
  thieves := by
    intro tested member
    have kept : state.ThiefAgrees live tested := by
      rcases List.mem_or_eq_of_mem_set member with old | rfl
      · exact represents.thieves tested old
      · exact agrees
    exact kept.mono (le_refl _) (le_refl _)
      (fun _ _ found => found) (fun _ _ _ _ => rfl)
  partition := represents.partition
  sorted := represents.sorted

/-- Taking the front element keeps everything the owner knows. -/
theorem ownerAgrees_steal
    {pointer : Pointer}
    (agrees : state.OwnerAgrees (pointer :: live) hand) :
    OwnerAgrees { state with top := state.top + 1 } live hand := by
  unfold OwnerAgrees at agrees ⊢
  cases atPoint : state.owner with
  | pushLoadBuffer task b t =>
      simp only [atPoint] at agrees ⊢
      obtain ⟨noHand, sameBottom, nonneg, bound, room⟩ := agrees
      exact ⟨noHand, sameBottom, nonneg, by omega, room⟩
  | growLoad task b buf grown i =>
      simp only [atPoint] at agrees ⊢
      obtain ⟨noHand, sameBottom, nonneg, sameBuffer, next, capacity,
        copied⟩ := agrees
      exact ⟨noHand, sameBottom, nonneg, sameBuffer, next, capacity,
        fun j lower => copied j (by omega)⟩
  | growStore task b buf grown i content =>
      simp only [atPoint] at agrees ⊢
      obtain ⟨noHand, sameBottom, nonneg, unfinished, sameBuffer, next,
        loaded, capacity, copied⟩ := agrees
      exact ⟨noHand, sameBottom, nonneg, unfinished, sameBuffer, next,
        loaded, capacity, fun j lower => copied j (by omega)⟩
  | put task b buf =>
      simp only [atPoint] at agrees ⊢
      obtain ⟨noHand, sameBottom, sameBuffer, room⟩ := agrees
      refine ⟨noHand, sameBottom, sameBuffer, ?_⟩
      change b - (state.top + 1) + 2 ≤ (state.ring.capacity : Int)
      omega
  | pushStoreBottom b =>
      simp only [atPoint] at agrees ⊢
      obtain ⟨inHand, sameBottom, room⟩ := agrees
      refine ⟨inHand, sameBottom, ?_⟩
      change b - (state.top + 1) + 2 ≤ (state.ring.capacity : Int)
      omega
  | popGet b t buf =>
      simp only [atPoint] at agrees ⊢
      obtain ⟨sameBottom, sameBuffer, bound, inHand, atLast⟩ := agrees
      refine ⟨sameBottom, sameBuffer, bound, inHand, ?_⟩
      intro last
      obtain ⟨noHand, lower⟩ := atLast last
      exact ⟨noHand, by omega⟩
  | popCompareExchange b t content =>
      simp only [atPoint] at agrees ⊢
      obtain ⟨noHand, sameBottom, same, lower, _⟩ := agrees
      exact ⟨noHand, sameBottom, same, by omega, by omega⟩
  | popRestore b result =>
      simp only [atPoint] at agrees
      obtain ⟨_, _, impossible⟩ := agrees
      cases impossible
  | idle | pushLoadTop | popLoadBuffer | popStoreBottom | popLoadTop =>
      simpa only [atPoint] using agrees

/-- A compare-exchange that finds `top_` unchanged takes the front. -/
theorem represents_steal
    (represents : state.Represents live hand) (number : Nat)
    {pointer : Pointer} (front : live.head? = some pointer) :
    Represents { state with
        top := state.top + 1
        stolen := state.stolen ++ [pointer]
        thieves := state.thieves.set number .idle }
      live.tail hand := by
  obtain ⟨rest, rfl⟩ : ∃ rest, live = pointer :: rest :=
    ⟨live.tail, List.eq_cons_of_mem_head? front⟩
  have topNonneg := represents.top_nonneg
  have length := represents.length
  simp only [List.length_cons, Nat.cast_add, Nat.cast_one] at length
  constructor
  case top_nonneg =>
    change 0 ≤ state.top + 1
    omega
  case length =>
    change ((rest.length : Nat) : Int) = state.back - (state.top + 1)
    omega
  case slots =>
    intro offset inside
    have stored := represents.slots (offset + 1)
      (Nat.succ_lt_succ inside)
    have index :
        state.top + ((offset + 1 : Nat) : Int) =
          state.top + 1 + offset := by omega
    rw [index, List.getElem_cons_succ] at stored
    exact stored
  case pow2 => exact represents.pow2
  case room =>
    have room := represents.room
    change rest.length + 1 ≤ state.ring.capacity
    simp only [List.length_cons] at room
    omega
  case allocated => exact represents.allocated
  case owner => exact ownerAgrees_steal represents.owner
  case thieves =>
    intro tested member
    have moved : state.top < state.top + 1 := by omega
    rcases List.mem_or_eq_of_mem_set member with old | rfl
    · refine (represents.thieves tested old).mono (le_of_lt moved)
        (le_refl _) ?_ ?_
      · intro same
        exact absurd same (ne_of_gt moved)
      · intro same
        exact absurd same (ne_of_gt moved)
    · trivial
  case partition =>
    have partition := represents.partition
    simpa using partition
  case sorted =>
    have sorted := represents.sorted
    simpa using sorted

/-- Every access of a thief preserves the relation. -/
theorem represents_thief
    (represents : state.Represents live hand)
    {number : Nat} {thief : Thief}
    (present : state.thieves[number]? = some thief) :
    ∃ remaining,
      Represents { (state.thiefStep thief).1 with
          thieves := state.thieves.set number (state.thiefStep thief).2 }
        remaining hand := by
  have agrees := represents.thieves thief (List.mem_of_getElem? present)
  cases thief with
  | idle =>
      refine ⟨live, represents.setThief number ?_⟩
      exact le_refl state.top
  | loadBottom t =>
      simp only [thiefStep]
      split
      · exact ⟨live, represents.setThief number trivial⟩
      · next below =>
          refine ⟨live, represents.setThief number ⟨agrees, ?_⟩⟩
          intro current
          have backBound := represents.bottom_le_back
          exact represents.back_nonempty (by omega)
  | loadBuffer t =>
      obtain ⟨bound, nonempty⟩ := agrees
      refine ⟨live, represents.setThief number ⟨bound, le_refl _, ?_⟩⟩
      intro current
      rw [current]
      exact represents.front (nonempty current)
  | get t buf =>
      obtain ⟨bound, _, content⟩ := agrees
      exact ⟨live, represents.setThief number ⟨bound, content⟩⟩
  | compareExchange t pointer =>
      obtain ⟨_, content⟩ := agrees
      simp only [thiefStep]
      split
      · next current =>
          subst current
          exact ⟨live.tail,
            represents_steal represents number (content rfl)⟩
      · exact ⟨live, represents.setThief number trivial⟩

/-! ## Runs -/

theorem represents_create (capacity thieves : Nat) :
    Represents (State.create capacity thieves : State Task) [] [] := by
  constructor
  case top_nonneg => exact le_refl _
  case length => rfl
  case slots =>
    intro offset inside
    exact absurd inside (Nat.not_lt_zero _)
  case pow2 => exact isPow2_doubleUntil capacity 62 0
  case room =>
    exact RingBuffer.IsPow2.pos (isPow2_doubleUntil capacity 62 0)
  case allocated => rfl
  case owner => rfl
  case thieves =>
    intro thief member
    rw [List.eq_of_mem_replicate member]
    trivial
  case partition => exact List.Perm.nil
  case sorted => exact List.Pairwise.nil

theorem represents_step
    {following : State Task} {action : Action Task}
    (represents : state.Represents live hand)
    (stepped : state.step action = some following) :
    ∃ remaining held, following.Represents remaining held := by
  cases action with
  | push task =>
      simp only [step] at stepped
      split at stepped
      · next isIdle =>
          cases stepped
          exact ⟨_, _, represents_push represents task isIdle⟩
      · cases stepped
  | pop =>
      simp only [step] at stepped
      split at stepped
      · next isIdle =>
          cases stepped
          exact ⟨_, _, represents_pop represents isIdle⟩
      · cases stepped
  | owner =>
      exact represents_owner represents stepped
  | thief number =>
      simp only [step] at stepped
      split at stepped
      · next thief present =>
          cases stepped
          obtain ⟨remaining, kept⟩ := represents_thief represents present
          exact ⟨remaining, hand, kept⟩
      · cases stepped

/-- Every reachable state represents some list. -/
theorem exists_represents
    {state : State Task} (reached : (machine Task).Reachable state) :
    ∃ live hand, state.Represents live hand := by
  let Invariant (tested : State Task) : Prop :=
    ∃ live hand, tested.Represents live hand
  change Invariant state
  refine Machine.Reachable.invariant ?_ ?_ reached
  · rintro _ ⟨capacity, thieves, rfl⟩
    exact ⟨[], [], represents_create capacity thieves⟩
  · rintro source action following ⟨live, hand, represents⟩ stepped
    exact represents_step represents stepped

/-- Between two calls of the owner, `live` is what the current ring stores at
`top_` to `bottom_ - 1`. -/
theorem Represents.stored_eq
    (represents : state.Represents live hand)
    (isIdle : state.owner = .idle) : state.stored = live := by
  have length := represents.length
  simp only [back, isIdle] at length
  have count : (state.bottom - state.top).toNat = live.length := by omega
  apply List.ext_getElem
  · simp [stored, count]
  · intro offset inside _
    simp only [stored, List.getElem_map, List.getElem_range]
    exact represents.slots offset _

theorem Represents.size_eq
    (represents : state.Represents live hand)
    (isIdle : state.owner = .idle) : state.size = live.length := by
  have length := represents.length
  simp only [back, isIdle] at length
  unfold size
  split <;> omega

end State

/-- What the deque promises in a state: no task is returned twice, only pushed
tasks are returned, thieves take the oldest tasks first and always the one at
`top_`, and between calls of the owner the tasks not yet returned are the
stored ones. -/
structure NoLossNoDuplication {Task : Type} (state : State Task) : Prop where
  returned_once : (state.popped ++ state.stolen).Nodup
  returned_pushed : ∀ pointer ∈ state.popped ++ state.stolen,
    1 ≤ pointer ∧ pointer ≤ state.pushed.length
  stolen_oldest_first : state.stolen.Pairwise (· < ·)
  stolen_before_rest : ∀ older ∈ state.stolen, ∀ pointer,
    1 ≤ pointer → pointer ≤ state.pushed.length →
      pointer ∉ state.popped → pointer ∉ state.stolen → older < pointer
  stolen_from_top : ∀ t pointer,
    Thief.compareExchange t pointer ∈ state.thieves →
      t = state.top → pointer = state.ring.get state.top
  stored_rest : state.owner = .idle →
    (state.popped ++ state.stolen ++ state.stored).Perm
      (List.range' 1 state.pushed.length)
  size_eq : state.owner = .idle →
    state.size + state.popped.length + state.stolen.length =
      state.pushed.length

theorem noLossNoDuplication_of_represents
    {Task : Type} {state : State Task} {live hand : List Pointer}
    (represents : state.Represents live hand) :
    NoLossNoDuplication state := by
  have accounted :
      (state.popped ++ state.stolen ++ (live ++ hand)).Perm
        (List.range' 1 state.pushed.length) := by
    simpa using represents.partition
  constructor
  case returned_once =>
    have distinct := accounted.nodup_iff.mpr List.nodup_range'
    exact (List.nodup_append.mp distinct).1
  case returned_pushed =>
    intro pointer member
    have inRange := accounted.mem_iff.mp (List.mem_append_left _ member)
    rw [List.mem_range'_1, Nat.add_comm] at inRange
    exact ⟨inRange.1, Nat.le_of_lt_succ inRange.2⟩
  case stolen_oldest_first =>
    exact (List.pairwise_append.mp represents.sorted).1
  case stolen_before_rest =>
    intro older olderMember pointer lower upper notPopped notStolen
    have inRange : pointer ∈ List.range' 1 state.pushed.length := by
      rw [List.mem_range'_1]
      exact ⟨lower, by rw [Nat.add_comm]; exact Nat.lt_succ_of_le upper⟩
    have remains : pointer ∈ live ++ hand := by
      rcases List.mem_append.mp (accounted.mem_iff.mpr inRange) with
        returned | remaining
      · rcases List.mem_append.mp returned with popped | stolen
        · exact absurd popped notPopped
        · exact absurd stolen notStolen
      · exact remaining
    exact (List.pairwise_append.mp represents.sorted).2.2
      older olderMember pointer remains
  case stolen_from_top =>
    intro t pointer member current
    have content := (represents.thieves _ member).2 current
    have nonempty : live ≠ [] := by
      rintro rfl
      simp at content
    rw [represents.front nonempty] at content
    exact (Option.some.inj content).symm
  case stored_rest =>
    intro isIdle
    have noHand : hand = [] := by
      simpa [State.OwnerAgrees, isIdle] using represents.owner
    rw [represents.stored_eq isIdle]
    simpa [noHand] using accounted
  case size_eq =>
    intro isIdle
    have noHand : hand = [] := by
      simpa [State.OwnerAgrees, isIdle] using represents.owner
    have total := accounted.length_eq
    simp only [noHand, List.append_nil, List.length_append,
      List.length_range'] at total
    rw [represents.size_eq isIdle]
    omega

/-- In every interleaving of the owner's pushes and pops with any number of
thieves, across any number of growths of the ring. -/
theorem no_loss_no_duplication
    {Task : Type} (state : State Task)
    (reached : (machine Task).Reachable state) :
    NoLossNoDuplication state := by
  obtain ⟨live, hand, represents⟩ := State.exists_represents reached
  exact noLossNoDuplication_of_represents represents

/-- A push, a thief that reads its slot, a second push that replaces the ring,
and only then the thief's compare-exchange. -/
def stealDuringGrowth : List (Action Unit) :=
  [.push (), .owner, .owner, .owner, .owner, .owner,
    .thief 0, .thief 0, .thief 0, .thief 0,
    .push (), .owner, .owner, .owner, .owner, .owner, .owner, .owner,
    .thief 0]

theorem no_loss_no_duplication_steal_during_growth :
    ∃ state : State Unit, (machine Unit).Reachable state ∧
      state.stolen = [1] ∧ state.stored = [2] ∧
      NoLossNoDuplication state := by
  have isSome :
      ((machine Unit).run (State.create 1 1) stealDuringGrowth).isSome := by
    decide
  obtain ⟨state, ran⟩ := Option.isSome_iff_exists.mp isSome
  have reached : (machine Unit).Reachable state :=
    Machine.reachable_of_run stealDuringGrowth ⟨1, 1, rfl⟩ ran
  refine ⟨state, reached, ?_, ?_, no_loss_no_duplication state reached⟩
  · have stolen :
        ((machine Unit).run (State.create 1 1) stealDuringGrowth).map
          State.stolen = some [1] := by decide
    simpa [ran] using stolen
  · have stored :
        ((machine Unit).run (State.create 1 1) stealDuringGrowth).map
          State.stored = some [2] := by decide
    simpa [ran] using stored

end HydraRT.ChaseLev
