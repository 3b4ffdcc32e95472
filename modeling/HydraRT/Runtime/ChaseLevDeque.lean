import HydraRT.Lib.Transition

/-!
# The Chase-Lev deque, one atomic access at a time

`ChaseLevDeque` under sequentially consistent interleaving.  Every load, store
and compare-exchange of `top_`, `bottom_`, `buffer_` and of a ring slot is one
step; local computation is folded into the access that precedes it.  One owner
thread calls `push` and `pop`, any number of thieves call `steal`.

Indices are unbounded integers.  `bottom_` is an integer rather than a natural
number because `pop` on an empty deque lowers it below `top_`.  Rings are never
reclaimed, so a thief may go on reading a ring that has been replaced.
-/

namespace HydraRT.ChaseLev

open HydraRT.Lib

/-- A `Task*`.  The null pointer is `0`; the task of the `n`-th push lives at
address `n`, counting from one. -/
abbrev Pointer := Nat

structure RingBuffer where
  capacity : Nat
  slots : Nat → Pointer

namespace RingBuffer

/-- `RingBuffer(int64_t cap)`, with all slots null. -/
def create (capacity : Nat) : RingBuffer :=
  ⟨capacity, fun _ => 0⟩

def mask (ring : RingBuffer) : Nat :=
  ring.capacity - 1

/-- `idx & mask`.  Only non-negative indices are ever looked up. -/
def position (ring : RingBuffer) (index : Int) : Nat :=
  index.toNat &&& ring.mask

def get (ring : RingBuffer) (index : Int) : Pointer :=
  ring.slots (ring.position index)

def put (ring : RingBuffer) (index : Int) (pointer : Pointer) :
    RingBuffer :=
  { ring with
    slots := Function.update ring.slots (ring.position index) pointer }

end RingBuffer

/-- `while (p < n) p <<= 1`, for at most `fuel` rounds. -/
def doubleUntil (bound : Nat) : (fuel power : Nat) → Nat
  | 0, power => power
  | fuel + 1, power =>
      if power < bound then doubleUntil bound fuel (power * 2) else power

/-- `ChaseLevDeque::next_pow2`.  A result that fits `int64_t` needs at most 62
doublings. -/
def nextPow2 (bound : Nat) : Nat :=
  doubleUntil bound 62 1

/-- Where the owner stands in `push` or `pop`, with its local variables. -/
inductive Owner (Task : Type) where
  | idle
  | pushLoadTop (task : Task) (b : Int)
  | pushLoadBuffer (task : Task) (b t : Int)
  /-- The copying loop of `grow`, about to test `i < bottom`. -/
  | growLoad (task : Task) (b : Int) (buf grown : Nat) (i : Int)
  | growStore (task : Task) (b : Int) (buf grown : Nat) (i : Int)
      (pointer : Pointer)
  | put (task : Task) (b : Int) (buf : Nat)
  | pushStoreBottom (b : Int)
  | popLoadBuffer (b : Int)
  | popStoreBottom (b : Int) (buf : Nat)
  | popLoadTop (b : Int) (buf : Nat)
  | popGet (b t : Int) (buf : Nat)
  | popCompareExchange (b t : Int) (pointer : Pointer)
  /-- About to store `b + 1` back and to return the task, if there is one. -/
  | popRestore (b : Int) (result : Option Pointer)
  deriving DecidableEq, Repr

/-- Where a thief stands in `steal`. -/
inductive Thief where
  | idle
  | loadBottom (t : Int)
  | loadBuffer (t : Int)
  | get (t : Int) (buf : Nat)
  | compareExchange (t : Int) (pointer : Pointer)
  deriving DecidableEq, Repr

/-- The deque, its threads, and what they have been given and have returned.
`allocated` rings exist; `buffer` points to the current one. -/
structure State (Task : Type) where
  top : Int
  bottom : Int
  buffer : Nat
  rings : Nat → RingBuffer
  allocated : Nat
  owner : Owner Task
  thieves : List Thief
  /-- Tasks in the order of their pushes. -/
  pushed : List Task
  /-- Tasks returned by `pop` and by `steal`, in the order of the returns. -/
  popped : List Pointer
  stolen : List Pointer

inductive Action (Task : Type) where
  | push (task : Task)
  | pop
  /-- The next access of the owner's current call. -/
  | owner
  /-- The next access of a thief; an idle thief starts a new `steal`. -/
  | thief (number : Nat)
  deriving DecidableEq, Repr

namespace State

variable {Task : Type}

def create (capacity thieves : Nat) : State Task where
  top := 0
  bottom := 0
  buffer := 0
  rings := fun _ => RingBuffer.create (nextPow2 capacity)
  allocated := 1
  owner := .idle
  thieves := List.replicate thieves .idle
  pushed := []
  popped := []
  stolen := []

/-- The ring `buffer_` points to. -/
def ring (state : State Task) : RingBuffer :=
  state.rings state.buffer

/-- `ChaseLevDeque::size`, read at one moment. -/
def size (state : State Task) : Nat :=
  if state.top < state.bottom then (state.bottom - state.top).toNat else 0

/-- The pointers stored at `top_` to `bottom_ - 1` of the current ring. -/
def stored (state : State Task) : List Pointer :=
  (List.range (state.bottom - state.top).toNat).map fun offset : Nat =>
    state.ring.get (state.top + offset)

def ownerStep (state : State Task) : Option (State Task) :=
  match state.owner with
  | .idle => none
  | .pushLoadTop task b =>
      some { state with owner := .pushLoadBuffer task b state.top }
  | .pushLoadBuffer task b t =>
      let buf := state.buffer
      if b - t ≥ (state.rings buf).capacity - 1 then
        some { state with
          rings := Function.update state.rings state.allocated
            (RingBuffer.create ((state.rings buf).capacity * 2))
          allocated := state.allocated + 1
          owner := .growLoad task b buf state.allocated t }
      else some { state with owner := .put task b buf }
  | .growLoad task b buf grown i =>
      if i < b then
        some { state with
          owner :=
            .growStore task b buf grown i ((state.rings buf).get i) }
      else
        some { state with buffer := grown, owner := .put task b grown }
  | .growStore task b buf grown i pointer =>
      some { state with
        rings := Function.update state.rings grown
          ((state.rings grown).put i pointer)
        owner := .growLoad task b buf grown (i + 1) }
  | .put task b buf =>
      some { state with
        rings := Function.update state.rings buf
          ((state.rings buf).put b (state.pushed.length + 1))
        pushed := state.pushed ++ [task]
        owner := .pushStoreBottom b }
  | .pushStoreBottom b =>
      some { state with bottom := b + 1, owner := .idle }
  | .popLoadBuffer b =>
      some { state with owner := .popStoreBottom b state.buffer }
  | .popStoreBottom b buf =>
      some { state with bottom := b, owner := .popLoadTop b buf }
  | .popLoadTop b buf =>
      if state.top > b then
        some { state with owner := .popRestore b none }
      else some { state with owner := .popGet b state.top buf }
  | .popGet b t buf =>
      let pointer := (state.rings buf).get b
      if t = b then
        some { state with owner := .popCompareExchange b t pointer }
      else
        some { state with
          popped := state.popped ++ [pointer]
          owner := .idle }
  | .popCompareExchange b t pointer =>
      if state.top = t then
        some { state with
          top := t + 1
          owner := .popRestore b (some pointer) }
      else some { state with owner := .popRestore b none }
  | .popRestore b result =>
      some { state with
        bottom := b + 1
        popped := state.popped ++ result.toList
        owner := .idle }

/-- One access of a thief: the new state of the deque and of the thief. -/
def thiefStep (state : State Task) : Thief → State Task × Thief
  | .idle => (state, .loadBottom state.top)
  | .loadBottom t =>
      if t ≥ state.bottom then (state, .idle) else (state, .loadBuffer t)
  | .loadBuffer t => (state, .get t state.buffer)
  | .get t buf => (state, .compareExchange t ((state.rings buf).get t))
  | .compareExchange t pointer =>
      if state.top = t then
        ({ state with
            top := t + 1
            stolen := state.stolen ++ [pointer] }, .idle)
      else (state, .idle)

def step (state : State Task) : Action Task → Option (State Task)
  | .push task =>
      match state.owner with
      | .idle =>
          some { state with owner := .pushLoadTop task state.bottom }
      | _ => none
  | .pop =>
      match state.owner with
      | .idle =>
          some { state with owner := .popLoadBuffer (state.bottom - 1) }
      | _ => none
  | .owner => state.ownerStep
  | .thief number =>
      match state.thieves[number]? with
      | some thief =>
          let (moved, following) := state.thiefStep thief
          some { moved with
            thieves := state.thieves.set number following }
      | none => none

end State

/-- A deque of any initial capacity with any number of thieves. -/
def machine (Task : Type) : Machine (State Task) (Action Task) where
  initial state := ∃ capacity thieves, state = State.create capacity thieves
  step := State.step

end HydraRT.ChaseLev
