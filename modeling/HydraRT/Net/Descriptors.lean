import HydraRT.Lib.Transition
import HydraRT.Lib.Weight

/-!
# Who closes a descriptor

Any number of threads construct, move, connect, listen on, accept from, use and
close any number of `TcpSocket`s.  Each access to an `fd_` and each system call
is a step of its own, and the system hands out a number again as soon as it is
free.  A descriptor that is open has one owner, a socket or a call that is
about to store or to close it, unless a store has overwritten it.
-/

namespace HydraRT.Net.Descriptors

open HydraRT.Lib

/-- An open file: the number that the program sees, and which of all files ever
opened it is. -/
structure Descriptor where
  number : Nat
  serial : Nat
  deriving DecidableEq, Repr

/-- What a function does after its call of `close`. -/
inductive Next where
  | finish
  /-- `connect`: resolve the address. -/
  | resolve (socket : Nat)
  /-- `connect`: the next address. -/
  | tryNext (socket untried : Nat)
  /-- `listen`: open a socket. -/
  | openNew (socket : Nat)
  /-- Move assignment: take the descriptor of the other. -/
  | take (socket other : Nat)
  deriving DecidableEq, Repr

/-- Where a call stands. -/
inductive Call where
  /-- Before the exchange of `close`. -/
  | exchanging (socket : Nat) (next : Next)
  /-- Before `::close`. -/
  | closing (fd : Descriptor) (next : Next)
  /-- Before `::getaddrinfo`. -/
  | resolving (socket : Nat)
  /-- Before `::socket` in `connect`. -/
  | trying (socket untried : Nat)
  /-- Before `::connect`. -/
  | connecting (socket : Nat) (fd : Descriptor) (untried : Nat)
  /-- Before `::socket` in `listen`. -/
  | opening (socket : Nat)
  /-- Before `::bind` and `::listen`. -/
  | binding (socket : Nat) (fd : Descriptor)
  /-- Move assignment, before the exchange. -/
  | taking (socket other : Nat)
  /-- Before `fd_.store`. -/
  | putting (socket : Nat) (taken : Option Descriptor)
  /-- Before `fd_.load` in `accept` and in the functions that send, receive
  and ask for the port. -/
  | loading (socket : Nat) (accepts : Bool)
  /-- Before a system call on the loaded number. -/
  | inUse (fd : Descriptor) (accepts : Bool)
  /-- Move construction, before the exchange. -/
  | moving (source : Nat)
  /-- Before a socket is there that has the descriptor. -/
  | constructing (taken : Option Descriptor)
  | returned
  deriving DecidableEq, Repr

def Next.call : Next → Call
  | .finish => .returned
  | .resolve socket => .resolving socket
  | .tryNext socket untried => .trying socket untried
  | .openNew socket => .opening socket
  | .take socket other => .taking socket other

structure State where
  /-- The `fd_` of every socket. -/
  sockets : List (Option Descriptor) := []
  calls : List Call := []
  /-- The files that are open, as far as sockets opened them. -/
  table : List Descriptor := []
  opened : Nat := 0
  closed : List Descriptor := []
  /-- What a store found in the `fd_` it wrote. -/
  overwritten : List Descriptor := []
  deriving DecidableEq, Repr

/-- The functions of `TcpSocket`; the destructor is `close`. -/
inductive Operation where
  | create
  | close (socket : Nat)
  | connect (socket : Nat)
  | listen (socket : Nat)
  | accept (socket : Nat)
  | use (socket : Nat)
  | moveConstruct (source : Nat)
  | moveAssign (socket other : Nat)
  deriving DecidableEq, Repr

inductive Action where
  | begin (operation : Operation)
  /-- The next step of a call; `outcome` is what the system call gives: nothing
  if it fails, else a number of addresses or the number of a new file. -/
  | advance (call : Nat) (outcome : Option Nat)
  deriving DecidableEq, Repr

def Operation.start : Operation → Call
  | .create => .constructing none
  | .close socket => .exchanging socket .finish
  | .connect socket => .exchanging socket (.resolve socket)
  | .listen socket => .exchanging socket (.openNew socket)
  | .accept socket => .loading socket true
  | .use socket => .loading socket false
  | .moveConstruct source => .moving source
  | .moveAssign socket other =>
      if socket = other then .returned
      else .exchanging socket (.take socket other)

namespace State

/-- The file that a number stands for. -/
def lookup (state : State) (number : Nat) : Option Descriptor :=
  state.table.find? (·.number == number)

/-- A system call that returns a new file under a free number. -/
def openFile? (state : State) (number : Nat) : Option (State × Descriptor) :=
  if (state.lookup number).isSome then none
  else
    some ({ state with
        table := ⟨number, state.opened⟩ :: state.table
        opened := state.opened + 1 }, ⟨number, state.opened⟩)

/-- `::close`. -/
def close (state : State) (number : Nat) : State :=
  match state.lookup number with
  | none => state
  | some fd =>
      { state with
        table := state.table.erase fd
        closed := state.closed ++ [fd] }

/-- `fd_.exchange(-1)`. -/
def exchange (state : State) (socket : Nat) : State :=
  { state with sockets := state.sockets.set socket none }

/-- `fd_.store` over what is there. -/
def store (state : State) (socket : Nat) (old new : Option Descriptor) :
    State :=
  { state with
    sockets := state.sockets.set socket new
    overwritten := old.toList ++ state.overwritten }

end State

/-- A step of a call, with what becomes of the rest. -/
def Call.step (state : State) (outcome : Option Nat) :
    Call → Option (State × Call)
  | .exchanging socket next =>
      match state.sockets[socket]? with
      | none => none
      | some none => some (state, next.call)
      | some (some fd) => some (state.exchange socket, .closing fd next)
  | .closing fd next => some (state.close fd.number, next.call)
  | .resolving socket =>
      match outcome with
      | none => some (state, .returned)
      | some addresses => some (state, .trying socket addresses)
  | .trying _ 0 => some (state, .returned)
  | .trying socket (untried + 1) =>
      match outcome with
      | none => some (state, .trying socket untried)
      | some number =>
          (state.openFile? number).map fun (state, fd) =>
            (state, .connecting socket fd untried)
  | .connecting socket fd untried =>
      match outcome with
      | none => some (state, .closing fd (.tryNext socket untried))
      | some _ => some (state, .putting socket (some fd))
  | .opening socket =>
      match outcome with
      | none => some (state, .returned)
      | some number =>
          (state.openFile? number).map fun (state, fd) =>
            (state, .binding socket fd)
  | .binding socket fd =>
      match outcome with
      | none => some (state, .closing fd .finish)
      | some _ => some (state, .putting socket (some fd))
  | .taking socket other =>
      match state.sockets[other]? with
      | none => none
      | some taken => some (state.exchange other, .putting socket taken)
  | .putting socket taken =>
      match state.sockets[socket]? with
      | none => none
      | some old => some (state.store socket old taken, .returned)
  | .loading socket accepts =>
      match state.sockets[socket]? with
      | none => none
      | some none =>
          some (state, if accepts then .constructing none else .returned)
      | some (some fd) => some (state, .inUse fd accepts)
  | .inUse fd accepts =>
      match outcome with
      | none => some (state, if accepts then .constructing none else .returned)
      | some number =>
          if accepts then
            (state.openFile? number).map fun (state, fd) =>
              (state, .constructing (some fd))
          else some (state, .inUse fd accepts)
  | .moving source =>
      match state.sockets[source]? with
      | none => none
      | some taken => some (state.exchange source, .constructing taken)
  | .constructing taken =>
      some ({ state with sockets := state.sockets ++ [taken] }, .returned)
  | .returned => none

def State.step (state : State) : Action → Option State
  | .begin operation =>
      some { state with calls := state.calls ++ [operation.start] }
  | .advance number outcome =>
      match state.calls[number]? with
      | none => none
      | some call =>
          (call.step state outcome).map fun (state, call) =>
            { state with calls := state.calls.set number call }

def descriptors : Machine State Action where
  initial state := state = {}
  step := State.step

/-! ## Owners -/

/-- The descriptor that a call is about to store or to close. -/
def Call.held? : Call → Option Descriptor
  | .closing fd _ | .connecting _ fd _ | .binding _ fd => some fd
  | .putting _ taken | .constructing taken => taken
  | _ => none

/-- The descriptor whose number a call has loaded. -/
def Call.loaded? : Call → Option Descriptor
  | .inUse fd _ => some fd
  | _ => none

namespace State

/-- The descriptors of all sockets and calls. -/
def owned (state : State) : List Descriptor :=
  state.sockets.filterMap id ++ state.calls.filterMap Call.held?

/-- Every file that a socket ever opened, those that are open at the end. -/
def files (state : State) : List Descriptor :=
  state.closed ++ state.table

end State

def holds (fd : Descriptor) (held : Option Descriptor) : Nat :=
  if held = some fd then 1 else 0

@[simp]
theorem holds_none (fd : Descriptor) : holds fd none = 0 := rfl

/-- What the system says of the files. -/
structure Tidy (state : State) : Prop where
  distinct : (state.table.map Descriptor.number).Nodup
  accounted : (state.files.map Descriptor.serial).Perm
    (List.range state.opened)
  reused : ∀ old ∈ state.closed, ∀ new ∈ state.table,
    old.number = new.number → old.serial < new.serial

structure Owned (state : State) : Prop extends Tidy state where
  balanced : ∀ fd, state.table.count fd =
    total (holds fd) state.sockets +
      total (fun call => holds fd call.held?) state.calls +
      state.overwritten.count fd
  known : ∀ call ∈ state.calls, ∀ fd, call.loaded? = some fd →
    fd ∈ state.files

/-- What a step of a call may do. -/
structure Shift (state following : State) (call later : Call) : Prop
    extends Tidy following where
  calls : following.calls = state.calls
  balanced : ∀ fd, following.table.count fd +
      (total (holds fd) state.sockets + holds fd call.held? +
        state.overwritten.count fd) =
    state.table.count fd +
      (total (holds fd) following.sockets + holds fd later.held? +
        following.overwritten.count fd)
  known : ∀ fd ∈ state.files, fd ∈ following.files
  loaded : ∀ fd, later.loaded? = some fd → fd ∈ state.files

section Step

variable {state following : State} {call later : Call} {number : Nat}

theorem Owned.advance (owned : Owned state)
    (present : state.calls[number]? = some call)
    (shift : Shift state following call later) :
    Owned { following with calls := following.calls.set number later } where
  balanced fd := by
    have replaced := total_set (fun call => holds fd call.held?) present later
    have before := owned.balanced fd
    have shifted := shift.balanced fd
    rw [shift.calls]
    dsimp only at replaced ⊢
    omega
  toTidy := ⟨shift.distinct, shift.accounted, shift.reused⟩
  known other member fd isLoaded := by
    rw [shift.calls] at member
    rcases List.mem_or_eq_of_mem_set member with old | rfl
    · exact shift.known fd (owned.known other old fd isLoaded)
    · exact shift.known fd (shift.loaded fd isLoaded)

theorem Owned.mem_table (owned : Owned state) {fd : Descriptor}
    (has : 0 < total (holds fd) state.sockets +
      total (fun call => holds fd call.held?) state.calls) :
    fd ∈ state.table := by
  have balanced := owned.balanced fd
  exact List.count_pos_iff.mp (by omega)

theorem Tidy.serial_lt (tidy : Tidy state) {fd : Descriptor}
    (isFile : fd ∈ state.files) : fd.serial < state.opened :=
  List.mem_range.mp
    (tidy.accounted.mem_iff.mp (List.mem_map_of_mem isFile))

/-- An open file is found under its number. -/
theorem Tidy.lookup_of_mem (tidy : Tidy state) {fd : Descriptor}
    (member : fd ∈ state.table) :
    state.lookup fd.number = some fd := by
  rw [State.lookup, List.find?_eq_some_iff_append]
  refine ⟨beq_self_eq_true _, ?_⟩
  obtain ⟨before, after, parts⟩ := List.append_of_mem member
  refine ⟨before, after, parts, ?_⟩
  intro other isBefore
  have distinct := tidy.distinct
  rw [parts, List.map_append, List.map_cons] at distinct
  have apart := (List.nodup_append.mp distinct).2.2 other.number
    (List.mem_map_of_mem isBefore) fd.number List.mem_cons_self
  rw [Bool.not_eq_true', beq_eq_false_iff_ne]
  exact apart

theorem Shift.quiet (owned : Owned state)
    (held : later.held? = call.held?)
    (loaded : ∀ fd, later.loaded? = some fd → fd ∈ state.files) :
    Shift state state call later where
  calls := rfl
  balanced fd := by rw [held]
  toTidy := ⟨owned.distinct, owned.accounted, owned.reused⟩
  known _ member := member
  loaded := loaded

theorem idle {later : Call} (isNone : later.loaded? = none) (fd : Descriptor)
    (isLoaded : later.loaded? = some fd) : fd ∈ state.files := by
  rw [isNone] at isLoaded
  cases isLoaded

theorem Shift.exchange (owned : Owned state) {socket : Nat}
    {taken : Option Descriptor}
    (found : state.sockets[socket]? = some taken)
    (empty : call.held? = none) (held : later.held? = taken)
    (unloaded : later.loaded? = none) :
    Shift state (state.exchange socket) call later where
  calls := rfl
  balanced fd := by
    have replaced := total_set (holds fd) found none
    rw [holds_none] at replaced
    rw [empty, held, holds_none, State.exchange]
    dsimp only
    omega
  toTidy := ⟨owned.distinct, owned.accounted, owned.reused⟩
  known _ member := member
  loaded := idle unloaded

theorem count_toList (old : Option Descriptor) (fd : Descriptor) :
    old.toList.count fd = holds fd old := by
  cases old with
  | none => rfl
  | some other =>
      rw [Option.toList_some, List.count_singleton, holds]
      simp only [beq_iff_eq, Option.some.injEq]

theorem Shift.store (owned : Owned state) {socket : Nat}
    {old taken : Option Descriptor}
    (found : state.sockets[socket]? = some old)
    (held : call.held? = taken) :
    Shift state (state.store socket old taken) call .returned where
  calls := rfl
  balanced fd := by
    have replaced := total_set (holds fd) found taken
    have returned : Call.returned.held? = none := rfl
    rw [held, returned, holds_none, State.store]
    dsimp only
    rw [List.count_append, count_toList]
    omega
  toTidy := ⟨owned.distinct, owned.accounted, owned.reused⟩
  known _ member := member
  loaded := idle rfl

theorem Shift.construct (owned : Owned state) {taken : Option Descriptor} :
    Shift state { state with sockets := state.sockets ++ [taken] }
      (.constructing taken) .returned where
  calls := rfl
  balanced fd := by
    have returned : Call.returned.held? = none := rfl
    have constructing : (Call.constructing taken).held? = taken := rfl
    rw [returned, constructing, holds_none]
    dsimp only
    rw [total_append, total_cons, total_nil]
    omega
  toTidy := ⟨owned.distinct, owned.accounted, owned.reused⟩
  known _ member := member
  loaded := idle rfl

theorem Shift.opened (owned : Owned state) {fd : Descriptor}
    (opened : state.openFile? number = some (following, fd))
    (empty : call.held? = none) (held : later.held? = some fd)
    (unloaded : later.loaded? = none) :
    Shift state following call later := by
  rw [State.openFile?] at opened
  split_ifs at opened with taken
  cases opened
  rw [Bool.not_eq_true, Option.isSome_eq_false_iff, Option.isNone_iff_eq_none,
    State.lookup, List.find?_eq_none] at taken
  refine ⟨⟨?_, ?_, ?_⟩, rfl, ?_, ?_, idle unloaded⟩
  · rw [List.map_cons, List.nodup_cons]
    refine ⟨?_, owned.distinct⟩
    intro isTaken
    obtain ⟨other, member, same⟩ := List.mem_map.mp isTaken
    exact taken other member (beq_iff_eq.mpr same)
  · rw [List.range_succ]
    refine (List.Perm.map _ List.perm_middle).trans ?_
    rw [List.map_cons]
    refine (List.Perm.cons _ owned.accounted).trans ?_
    exact (List.perm_append_singleton _ _).symm
  · intro old isOld new isNew same
    rcases List.mem_cons.mp isNew with rfl | before
    · exact owned.serial_lt (List.mem_append_left _ isOld)
    · exact owned.reused old isOld new before same
  · intro fd
    rw [empty, held, holds_none, List.count_cons, holds]
    simp only [beq_iff_eq, Option.some.injEq]
    omega
  · intro other member
    rcases List.mem_append.mp member with old | old
    · exact List.mem_append_left _ old
    · exact List.mem_append_right _ (List.mem_cons_of_mem _ old)

theorem Shift.closed (owned : Owned state) {fd : Descriptor}
    (member : fd ∈ state.table) (held : call.held? = some fd)
    (empty : later.held? = none) (unloaded : later.loaded? = none) :
    Shift state (state.close fd.number) call later := by
  rw [State.close, owned.lookup_of_mem member]
  have erased := List.perm_cons_erase member
  have numbers := (erased.map Descriptor.number).nodup_iff.mp owned.distinct
  rw [List.map_cons, List.nodup_cons] at numbers
  refine ⟨⟨numbers.2, ?_, ?_⟩, rfl, ?_, ?_, idle unloaded⟩
  · refine (List.Perm.map _ ?_).trans owned.accounted
    rw [State.files, State.files, List.append_assoc]
    exact List.Perm.append_left _ erased.symm
  · intro old isOld new isNew same
    have stays := List.mem_of_mem_erase isNew
    rcases List.mem_append.mp isOld with before | last
    · exact owned.reused old before new stays same
    · obtain rfl := List.mem_singleton.mp last
      -- no other open file has the number
      rw [same] at numbers
      exact absurd (List.mem_map_of_mem isNew) numbers.1
  · intro other
    have split := erased.count_eq other
    rw [List.count_cons] at split
    rw [held, empty, holds_none, holds]
    simp only [beq_iff_eq, Option.some.injEq] at split ⊢
    omega
  · intro other isFile
    rw [State.files, List.append_assoc]
    rcases List.mem_append.mp isFile with old | old
    · exact List.mem_append_left _ old
    · exact List.mem_append_right _ (erased.mem_iff.mp old)

theorem Owned.mem_of_socket (owned : Owned state) {socket : Nat}
    {fd : Descriptor} (found : state.sockets[socket]? = some (some fd)) :
    fd ∈ state.table := by
  refine owned.mem_table (Nat.add_pos_left ?_ _)
  have bound : holds fd (some fd) ≤ total (holds fd) state.sockets :=
    le_total_of_mem (List.mem_of_getElem? found)
  rw [holds, if_pos rfl] at bound
  exact bound

theorem Owned.mem_of_call (owned : Owned state) {fd : Descriptor}
    (member : call ∈ state.calls) (held : call.held? = some fd) :
    fd ∈ state.table := by
  refine owned.mem_table (Nat.add_pos_right _ ?_)
  have bound :=
    @le_total_of_mem _ (fun call => holds fd call.held?) _ _ member
  rw [held, holds, if_pos rfl] at bound
  exact bound

theorem Next.held?_call (next : Next) : next.call.held? = none := by
  cases next
  all_goals rfl

theorem Next.loaded?_call (next : Next) : next.call.loaded? = none := by
  cases next
  all_goals rfl

/-- Every step of every function of `TcpSocket` is a shift. -/
theorem shift_of_step (owned : Owned state) {outcome : Option Nat}
    (member : call ∈ state.calls)
    (stepped : call.step state outcome = some (following, later)) :
    Shift state following call later := by
  cases call with
  | exchanging socket next =>
      rw [Call.step] at stepped
      cases found : state.sockets[socket]? with
      | none =>
          rw [found] at stepped
          cases stepped
      | some taken =>
          rw [found] at stepped
          cases taken with
          | none =>
              cases stepped
              exact .quiet owned next.held?_call (idle next.loaded?_call)
          | some fd =>
              cases stepped
              exact .exchange owned found rfl rfl rfl
  | closing fd next =>
      cases stepped
      exact .closed owned (owned.mem_of_call member rfl) rfl next.held?_call
        next.loaded?_call
  | resolving socket =>
      cases outcome with
      | none =>
          cases stepped
          exact .quiet owned rfl (idle rfl)
      | some addresses =>
          cases stepped
          exact .quiet owned rfl (idle rfl)
  | trying socket untried =>
      cases untried with
      | zero =>
          cases stepped
          exact .quiet owned rfl (idle rfl)
      | succ untried =>
          cases outcome with
          | none =>
              cases stepped
              exact .quiet owned rfl (idle rfl)
          | some number =>
              obtain ⟨⟨opened, fd⟩, isOpened, same⟩ :=
                Option.map_eq_some_iff.mp stepped
              cases same
              exact .opened owned isOpened rfl rfl rfl
  | connecting socket fd untried =>
      cases outcome with
      | none =>
          cases stepped
          exact .quiet owned rfl (idle rfl)
      | some connected =>
          cases stepped
          exact .quiet owned rfl (idle rfl)
  | opening socket =>
      cases outcome with
      | none =>
          cases stepped
          exact .quiet owned rfl (idle rfl)
      | some number =>
          obtain ⟨⟨opened, fd⟩, isOpened, same⟩ :=
            Option.map_eq_some_iff.mp stepped
          cases same
          exact .opened owned isOpened rfl rfl rfl
  | binding socket fd =>
      cases outcome with
      | none =>
          cases stepped
          exact .quiet owned rfl (idle rfl)
      | some bound =>
          cases stepped
          exact .quiet owned rfl (idle rfl)
  | taking socket other =>
      rw [Call.step] at stepped
      cases found : state.sockets[other]? with
      | none =>
          rw [found] at stepped
          cases stepped
      | some taken =>
          rw [found] at stepped
          cases stepped
          exact .exchange owned found rfl rfl rfl
  | putting socket taken =>
      rw [Call.step] at stepped
      cases found : state.sockets[socket]? with
      | none =>
          rw [found] at stepped
          cases stepped
      | some old =>
          rw [found] at stepped
          cases stepped
          exact .store owned found rfl
  | loading socket accepts =>
      rw [Call.step] at stepped
      cases found : state.sockets[socket]? with
      | none =>
          rw [found] at stepped
          cases stepped
      | some taken =>
          rw [found] at stepped
          cases taken with
          | none =>
              cases stepped
              refine .quiet owned ?_ ?_
              · cases accepts
                all_goals rfl
              · refine idle ?_
                cases accepts
                all_goals rfl
          | some fd =>
              cases stepped
              refine .quiet owned rfl ?_
              intro other same
              cases same
              exact List.mem_append_right _ (owned.mem_of_socket found)
  | inUse fd accepts =>
      cases outcome with
      | none =>
          cases stepped
          refine .quiet owned ?_ ?_
          · cases accepts
            all_goals rfl
          · refine idle ?_
            cases accepts
            all_goals rfl
      | some number =>
          rw [Call.step] at stepped
          dsimp only at stepped
          split_ifs at stepped
          · obtain ⟨⟨opened, client⟩, isOpened, same⟩ :=
              Option.map_eq_some_iff.mp stepped
            cases same
            exact .opened owned isOpened rfl rfl rfl
          · cases stepped
            exact .quiet owned rfl (owned.known _ member)
  | moving source =>
      rw [Call.step] at stepped
      cases found : state.sockets[source]? with
      | none =>
          rw [found] at stepped
          cases stepped
      | some taken =>
          rw [found] at stepped
          cases stepped
          exact .exchange owned found rfl rfl rfl
  | constructing taken =>
      cases stepped
      exact .construct owned
  | returned => cases stepped

theorem Operation.held?_start (operation : Operation) :
    operation.start.held? = none := by
  cases operation with
  | moveAssign socket other =>
      rw [Operation.start]
      split_ifs
      all_goals rfl
  | _ => rfl

theorem Operation.loaded?_start (operation : Operation) :
    operation.start.loaded? = none := by
  cases operation with
  | moveAssign socket other =>
      rw [Operation.start]
      split_ifs
      all_goals rfl
  | _ => rfl

theorem Owned.begin (owned : Owned state) (operation : Operation) :
    Owned { state with calls := state.calls ++ [operation.start] } where
  balanced fd := by
    rw [total_append, total_cons, total_nil, operation.held?_start, holds_none]
    exact owned.balanced fd
  toTidy := ⟨owned.distinct, owned.accounted, owned.reused⟩
  known call member := by
    rcases List.mem_append.mp member with old | new
    · exact owned.known call old
    · obtain rfl := List.mem_singleton.mp new
      exact idle operation.loaded?_start

theorem owned_step {action : Action} (owned : Owned state)
    (stepped : descriptors.step state action = some following) :
    Owned following := by
  cases action with
  | begin operation =>
      cases stepped
      exact owned.begin operation
  | advance number outcome =>
      rw [descriptors] at stepped
      dsimp only [State.step] at stepped
      split at stepped
      · cases stepped
      · rename_i call present
        obtain ⟨⟨middle, later⟩, moved, rfl⟩ :=
          Option.map_eq_some_iff.mp stepped
        exact owned.advance present
          (shift_of_step owned (List.mem_of_getElem? present) moved)

theorem owned_of_reachable (reached : descriptors.Reachable state) :
    Owned state := by
  refine Machine.Reachable.invariant ?_ ?_ reached
  · rintro _ rfl
    exact ⟨⟨List.nodup_nil, List.Perm.refl _, by simp⟩, fun _ => rfl, by simp⟩
  · intro state action following owned stepped
    exact owned_step owned stepped

end Step

theorem count_owned (state : State) (fd : Descriptor) :
    state.owned.count fd = total (holds fd) state.sockets +
      total (fun call => holds fd call.held?) state.calls := by
  have same : ∀ held : Option Descriptor,
      (if (held == some fd) = true then 1 else 0) = holds fd held := by
    intro held
    rw [holds]
    simp only [beq_iff_eq]
  rw [State.owned, List.count_append, List.count_filterMap,
    List.count_filterMap, countP_eq_total, countP_eq_total]
  simp only [id, same]

/-- The number that an owner has stands for the file that it opened, so this is
what its `::close` closes, and no other owner has it.  Every file that was ever
opened has been closed once or is open, and then it is owned, or it was
overwritten by a store. -/
theorem descriptors_owned {state : State}
    (reached : descriptors.Reachable state) :
    (∀ fd ∈ state.owned, state.lookup fd.number = some fd) ∧
      (state.owned.map Descriptor.number).Nodup ∧
      (state.files.map Descriptor.serial).Perm (List.range state.opened) ∧
      state.table.Perm (state.owned ++ state.overwritten) := by
  have owned := owned_of_reachable reached
  have everything : state.table.Perm (state.owned ++ state.overwritten) := by
    rw [List.perm_iff_count]
    intro fd
    rw [List.count_append, count_owned]
    exact owned.balanced fd
  have numbers := (everything.map Descriptor.number).nodup_iff.mp owned.distinct
  rw [List.map_append] at numbers
  refine ⟨?_, (List.nodup_append.mp numbers).1, owned.accounted, everything⟩
  intro fd isOwned
  exact owned.lookup_of_mem
    (everything.mem_iff.mpr (List.mem_append_left _ isOwned))

/-- Two threads connect one socket at the same time. -/
def connectingTwice : List Action :=
  [.begin .create, .advance 0 none, .begin (.connect 0), .begin (.connect 0),
    .advance 1 none, .advance 2 none, .advance 1 (some 1),
    .advance 1 (some 3), .advance 2 (some 2), .advance 2 none,
    .advance 2 (some 4), .advance 1 (some 0), .advance 2 (some 0),
    .advance 2 none, .advance 1 none]

/-- The second store loses what the first one stored. -/
theorem descriptors_owned_connecting : ∃ state,
    descriptors.Reachable state ∧ state.owned = [⟨3, 0⟩] ∧
      state.table.Perm [⟨3, 0⟩, ⟨4, 1⟩] := by
  have check : (descriptors.run {} connectingTwice).any (fun state =>
      state.owned == [⟨3, 0⟩] && state.overwritten == [⟨4, 1⟩]) = true := by
    decide
  obtain ⟨state, ran, facts⟩ := (Option.any_eq_true _ _).mp check
  simp only [Bool.and_eq_true, beq_iff_eq] at facts
  have reached := Machine.reachable_of_run connectingTwice rfl ran
  obtain ⟨_, _, _, everything⟩ := descriptors_owned reached
  rw [facts.1, facts.2] at everything
  exact ⟨state, reached, facts.1, everything⟩

/-- A number that a call has loaded stands for the same file as long as that
file has not been closed.  Afterwards it stands for none that a socket opened,
or for one that was opened later. -/
theorem loaded_number_stands {state : State}
    (reached : descriptors.Reachable state) {fd : Descriptor} {accepts : Bool}
    (loaded : .inUse fd accepts ∈ state.calls) :
    (state.lookup fd.number = some fd ↔ fd ∉ state.closed) ∧
      ∀ other, state.lookup fd.number = some other → fd ∈ state.closed →
        fd.serial < other.serial := by
  have owned := owned_of_reachable reached
  have found : ∀ {other}, state.lookup fd.number = some other →
      other ∈ state.table ∧ fd.number = other.number := by
    intro other isFound
    rw [State.lookup] at isFound
    have same := List.find?_some isFound
    exact ⟨List.mem_of_find?_eq_some isFound, (beq_iff_eq.mp same).symm⟩
  refine ⟨⟨?_, ?_⟩, ?_⟩
  · intro isFound isClosed
    exact Nat.lt_irrefl _
      (owned.reused fd isClosed fd (found isFound).1 rfl)
  · intro notClosed
    rcases List.mem_append.mp (owned.known _ loaded fd rfl) with
      isClosed | isOpen
    · exact absurd isClosed notClosed
    · exact owned.lookup_of_mem isOpen
  · intro other isFound isClosed
    obtain ⟨isOpen, same⟩ := found isFound
    exact owned.reused fd isClosed other isOpen same

/-- A thread is about to accept when another one closes the socket, and a third
one gets the number. -/
def acceptingLate : List Action :=
  [.begin .create, .advance 0 none, .begin (.listen 0), .advance 1 none,
    .advance 1 (some 3), .advance 1 (some 0), .advance 1 none,
    .begin (.accept 0), .advance 2 none, .begin (.close 0), .advance 3 none,
    .advance 3 none, .begin .create, .advance 4 none, .begin (.connect 1),
    .advance 5 none, .advance 5 (some 1), .advance 5 (some 3)]

theorem loaded_number_stands_late : ∃ state,
    descriptors.Reachable state ∧ .inUse ⟨3, 0⟩ true ∈ state.calls ∧
      state.lookup 3 = some ⟨3, 1⟩ ∧ ⟨3, 0⟩ ∈ state.closed := by
  have check : (descriptors.run {} acceptingLate).any (fun state =>
      state.calls.contains (.inUse ⟨3, 0⟩ true) &&
        state.lookup 3 == some ⟨3, 1⟩) = true := by
    decide
  obtain ⟨state, ran, facts⟩ := (Option.any_eq_true _ _).mp check
  simp only [Bool.and_eq_true, beq_iff_eq, List.contains_iff_mem] at facts
  have reached := Machine.reachable_of_run acceptingLate rfl ran
  have stands := (loaded_number_stands reached facts.1).1
  refine ⟨state, reached, facts.1, facts.2, ?_⟩
  by_contra notClosed
  exact absurd (facts.2.symm.trans (stands.mpr notClosed)) (by decide)

end HydraRT.Net.Descriptors
