import HydraRT.Lib.Pieces
import HydraRT.Inference.ParseTarget
import HydraRT.Net.Stream

/-!
# The HTTP server

`HttpServer::serve` reads a request from what `recv_some` returns, call after
call, and hands it to the handler of its route.  The server is independent of
how the stream was cut into these results as long as nothing follows the body
and the headers end early enough.
-/

namespace HydraRT.Inference

open HydraRT.Lib HydraRT.Net

structure HttpResponse where
  status : Int := 200
  contentType : Bytes := ascii "application/json"
  body : Bytes := []
  deriving DecidableEq, Repr

abbrev Handler := HttpRequest → HttpResponse

/-- `TcpSocket::recv_some`: what it received, or nothing when it returns zero
or less. -/
def recvSome (count : Nat) : Wire → Bytes × Wire
  | [] => ([], [])
  | .data first more :: rest =>
      match more.drop (count - 1) with
      | [] => (first :: more, rest)
      | next :: later =>
          (first :: more.take (count - 1), .data next later :: rest)
  | .interrupted :: rest => recvSome count rest
  | .timedOut :: rest => ([], rest)
  | .closed :: rest => ([], .closed :: rest)

def chunkSize : Nat := 1024

/-- What a `recv_some` call takes off the wire. -/
structure RecvSomeSpec (count : Nat) (wire : Wire)
    (after : Bytes × Wire) : Prop where
  size : after.1.length ≤ count
  progress : after.1 ≠ [] → after.2.size < wire.size
  bytes : wire.Undisturbed → wire.bytes = after.1 ++ after.2.bytes
  undisturbed : wire.Undisturbed → after.2.Undisturbed
  ended : wire.Undisturbed → after.1 = [] → wire.bytes = []

theorem recvSome_spec (count : Nat) (positive : 0 < count) (wire : Wire) :
    RecvSomeSpec count wire (recvSome count wire) := by
  induction wire with
  | nil =>
      refine ⟨Nat.zero_le _, ?_, fun _ => rfl, id, fun _ _ => rfl⟩
      intro some
      exact absurd rfl some
  | cons delivery rest inductionHypothesis =>
      have restUndisturbed : Wire.Undisturbed (delivery :: rest) →
          Wire.Undisturbed rest := by
        rintro ⟨noTimeout, notClosed⟩
        exact ⟨fun member => noTimeout (List.mem_cons_of_mem _ member),
          fun member => notClosed (List.mem_cons_of_mem _ member)⟩
      cases delivery with
      | data first more =>
          rw [recvSome]
          cases left : more.drop (count - 1) with
          | nil =>
              have short := List.drop_eq_nil_iff.mp left
              refine ⟨?_, ?_, fun _ => rfl, restUndisturbed, ?_⟩
              · dsimp only
                rw [List.length_cons]
                omega
              · intro _
                dsimp only [Wire.size]
                omega
              · intro _ empty
                cases empty
          | cons next later =>
              have parts : more.take (count - 1) ++ next :: later = more := by
                rw [← left, List.take_append_drop]
              have length := congrArg List.length parts
              rw [List.length_append, List.length_cons] at length
              refine ⟨?_, ?_, ?_, ?_, ?_⟩
              · dsimp only
                rw [List.length_cons, List.length_take]
                omega
              · intro _
                dsimp only [Wire.size]
                omega
              · intro _
                change first :: (more ++ Wire.bytes rest) =
                  first :: (more.take (count - 1) ++
                    (next :: later ++ Wire.bytes rest))
                rw [← List.append_assoc, parts]
              · rintro ⟨noTimeout, notClosed⟩
                refine ⟨?_, ?_⟩
                · simpa using noTimeout
                · simpa using notClosed
              · intro _ empty
                cases empty
      | interrupted =>
          obtain ⟨size, progress, bytes, undisturbed, ended⟩ :=
            inductionHypothesis
          refine ⟨size, ?_, ?_, ?_, ?_⟩
          · intro some
            have smaller := progress some
            dsimp only [Wire.size, recvSome]
            omega
          · intro whole
            exact bytes (restUndisturbed whole)
          · intro whole
            exact undisturbed (restUndisturbed whole)
          · intro whole
            exact ended (restUndisturbed whole)
      | timedOut =>
          refine ⟨Nat.zero_le _, fun some => absurd rfl some, ?_, ?_, ?_⟩
          · intro whole
            exact absurd List.mem_cons_self whole.1
          · exact restUndisturbed
          · intro whole
            exact absurd List.mem_cons_self whole.1
      | closed =>
          exact ⟨Nat.zero_le _, fun some => absurd rfl some, fun _ => rfl,
            id, fun _ _ => rfl⟩

/-- What successive `recv_some` calls return until one returns zero or
less. -/
def recvResults (wire : Wire) : List Bytes :=
  match _result : recvSome chunkSize wire with
  | ([], _) => []
  | (first :: more, rest) => (first :: more) :: recvResults rest
termination_by wire.size
decreasing_by
  have progress := (recvSome_spec chunkSize (by decide) wire).progress
  rw [_result] at progress
  exact progress (List.cons_ne_nil _ _)

/-! ## Reading a request -/

def terminator : Bytes := ascii "\r\n\r\n"

def headerLimit : Nat := 64 * 1024

/-- The loop that reads the headers, with the results of the `recv_some` calls
to come. -/
def readHeaders (buf : Bytes) : List Bytes → Option (Bytes × List Bytes)
  | [] =>
      if (find terminator buf).isNone ∧ buf.length < headerLimit then none
      else some (buf, [])
  | chunk :: rest =>
      if (find terminator buf).isNone ∧ buf.length < headerLimit then
        readHeaders (buf ++ chunk) rest
      else some (buf, chunk :: rest)

/-- The loop that reads what is missing of the body. -/
def readBody (contentLength : Nat) (body : Bytes) : List Bytes → Bytes
  | [] => body
  | chunk :: rest =>
      if body.length < contentLength then
        readBody contentLength (body ++ chunk) rest
      else body

/-- What successive `std::getline` calls give. -/
def getlines : Bytes → List Bytes
  | [] => []
  | char :: rest =>
      if char = '\n'.toUInt8 then [] :: getlines rest
      else
        match getlines rest with
        | [] => [[char]]
        | line :: later => (char :: line) :: later

/-- `stream >> word`. -/
def nextWord (text : Bytes) : Bytes × Bytes :=
  let text := text.dropWhile isSpace
  (text.takeWhile fun char => !isSpace char,
    text.dropWhile fun char => !isSpace char)

def parseRequestLine (line : Bytes) : HttpRequest :=
  let (method, rest) := nextWord line
  parseTarget (nextWord rest).1 { method := method }

def isContentLength (line : Bytes) : Bool :=
  line.length > 15 &&
    (line.take 15 == ascii "Content-Length:" ||
      line.take 15 == ascii "content-length:")

/-- What `serve` takes out of the buffer: where the headers end, the request
line and the lines after it. -/
structure HeaderBlock where
  headerEnd : Nat
  line : Bytes
  headers : List Bytes

def headerBlock (buf : Bytes) : Option HeaderBlock :=
  (find terminator buf).bind fun headerEnd =>
    match getlines (buf.take headerEnd) with
    | [] => none
    | line :: headers => some ⟨headerEnd, line, headers⟩

/-- `static_cast<std::size_t>` of an `int`. -/
def toSize (value : Int32) : Nat :=
  (value.toInt % 2 ^ 64).toNat

/-- The last of the `Content-Length` lines counts. -/
def contentLength (beyond : Bytes → Int32) (headers : List Bytes) : Nat :=
  headers.foldl
    (fun length line =>
      if isContentLength line then toSize (atoi beyond (line.drop 15))
      else length) 0

/-- The key under which `route` keeps a handler. -/
def HttpRequest.route (request : HttpRequest) : Bytes :=
  request.method ++ ascii " " ++ request.path

def notFound : HttpResponse where
  status := 404
  body := ascii "\x7b\"error\":\"not found\"\x7d"

def reason (status : Int) : Bytes :=
  if status = 200 then ascii "OK"
  else if status = 404 then ascii "Not Found"
  else if status = 400 then ascii "Bad Request"
  else ascii "Error"

def HttpResponse.payload (response : HttpResponse) : Bytes :=
  ascii "HTTP/1.1 " ++ ascii (toString response.status) ++ ascii " " ++
    reason response.status ++ ascii "\r\n" ++
    ascii "Content-Type: " ++ response.contentType ++ ascii "\r\n" ++
    ascii "Content-Length: " ++ ascii (toString response.body.length) ++
    ascii "\r\n" ++ ascii "Connection: close\r\n\r\n" ++ response.body

/-- What `serve` does with a connection: the request it hands to a handler and
the bytes it sends. -/
structure Served where
  dispatched : Option HttpRequest := none
  sent : Option Bytes := none

def serve (routes : StringMap Handler) (beyond : Bytes → Int32)
    (recvs : List Bytes) : Served :=
  match readHeaders [] recvs with
  | none => {}
  | some (buf, recvs) =>
      match headerBlock buf with
      | none => {}
      | some block =>
          let request := { parseRequestLine block.line with
            body := readBody (contentLength beyond block.headers)
              (buf.drop (block.headerEnd + 4)) recvs }
          match routes request.route with
          | none => { sent := some notFound.payload }
          | some handler =>
              { dispatched := some request
                sent := some (handler request).payload }

/-! ## Cutting the stream -/

/-- The stream as `recv_some` calls for 1024 bytes can return it. -/
structure IsSplit (stream : Bytes) (recvs : List Bytes) : Prop where
  whole : recvs.flatten = stream
  size : ∀ chunk ∈ recvs, 1 ≤ chunk.length ∧ chunk.length ≤ chunkSize

/-- The results of `recv_some` on an undisturbed connection are a split. -/
theorem isSplit_recvResults {wire : Wire} (undisturbed : wire.Undisturbed) :
    IsSplit wire.bytes (recvResults wire) := by
  induction wire using recvResults.induct with
  | case1 wire rest result =>
      have spec := recvSome_spec chunkSize (by decide) wire
      rw [result] at spec
      rw [recvResults, result, spec.ended undisturbed rfl]
      exact ⟨rfl, fun chunk member => absurd member List.not_mem_nil⟩
  | case2 wire first more rest result inductionHypothesis =>
      have spec := recvSome_spec chunkSize (by decide) wire
      rw [result] at spec
      obtain ⟨whole, size⟩ :=
        inductionHypothesis (spec.undisturbed undisturbed)
      rw [recvResults, result]
      refine ⟨?_, ?_⟩
      · rw [List.flatten_cons, whole, spec.bytes undisturbed]
      · intro chunk member
        rcases List.mem_cons.mp member with rfl | later
        · exact ⟨Nat.succ_le_succ (Nat.zero_le _), spec.size⟩
        · exact size chunk later

/-- Every split comes from some connection. -/
theorem exists_wire_of_isSplit {stream : Bytes} {recvs : List Bytes}
    (split : IsSplit stream recvs) :
    ∃ wire : Wire, wire.Undisturbed ∧ wire.bytes = stream ∧
      recvResults wire = recvs := by
  induction recvs generalizing stream with
  | nil =>
      refine ⟨[], ?_, split.whole, ?_⟩
      · exact ⟨List.not_mem_nil, List.not_mem_nil⟩
      · rw [recvResults]
        rfl
  | cons chunk rest inductionHypothesis =>
      obtain ⟨firstSize, restSize⟩ := List.forall_mem_cons.mp split.size
      obtain ⟨wire, undisturbed, bytes, results⟩ :=
        inductionHypothesis ⟨rfl, restSize⟩
      cases chunk with
      | nil =>
          exact absurd firstSize.1 (by decide)
      | cons first more =>
          have all : more.drop (1024 - 1) = [] := by
            rw [List.drop_eq_nil_iff]
            have small := firstSize.2
            rw [List.length_cons] at small
            exact Nat.le_sub_of_add_le small
          refine ⟨.data first more :: wire, ?_, ?_, ?_⟩
          · refine ⟨?_, ?_⟩
            · simpa using undisturbed.1
            · simpa using undisturbed.2
          · rw [Wire.bytes, bytes, ← split.whole]
            rfl
          · have received : recvSome 1024 (.data first more :: wire) =
                (first :: more, wire) := by
              rw [recvSome, all]
            rw [recvResults, chunkSize, received]
            dsimp only
            rw [results]

def HeaderBlock.bodyStart (block : HeaderBlock) : Nat :=
  block.headerEnd + 4

def HeaderBlock.route (block : HeaderBlock) : Bytes :=
  (parseRequestLine block.line).route

/-- How many bytes the header loop waits for. -/
def headerGoal (stream : Bytes) : Nat :=
  match find terminator stream with
  | none => headerLimit
  | some headerEnd => min (headerEnd + 4) headerLimit

theorem unfinished_iff {stream buf : Bytes} (isPrefix : buf <+: stream) :
    ((find terminator buf).isNone ∧ buf.length < headerLimit) ↔
      buf.length < headerGoal stream := by
  have taken : buf = stream.take buf.length :=
    List.prefix_iff_eq_take.mp isPrefix
  have found : find terminator buf = (find terminator stream).filter
      fun index => index + terminator.length ≤ buf.length := by
    conv_lhs => rw [taken]
    rw [find_take]
  rw [found, headerGoal]
  have four : terminator.length = 4 := rfl
  cases find terminator stream with
  | none =>
      simp
  | some headerEnd =>
      by_cases there : headerEnd + 4 ≤ buf.length
      · simp [Option.filter, four, there]
      · simp [Option.filter, four, there]
        omega

/-- What the header loop leaves for the body. -/
theorem readHeaders_spec {stream : Bytes} (buf : Bytes) (recvs : List Bytes)
    (split : buf ++ recvs.flatten = stream) :
    (stream.length < headerGoal stream → readHeaders buf recvs = none) ∧
      (headerGoal stream ≤ stream.length → ∃ taken rest,
        recvs = taken ++ rest ∧
          readHeaders buf recvs = some (buf ++ taken.flatten, rest) ∧
          taken.flatten.length =
            cover (headerGoal stream - buf.length) recvs) := by
  have isPrefix : buf <+: stream := ⟨_, split⟩
  have unfinished := unfinished_iff isPrefix
  induction recvs generalizing buf with
  | nil =>
      rw [List.flatten_nil, List.append_nil] at split
      subst split
      rw [readHeaders]
      constructor
      · intro missing
        rw [if_pos (unfinished.mpr missing)]
      · intro enough
        rw [if_neg (unfinished.not.mpr (by omega))]
        exact ⟨[], [], rfl, by simp, rfl⟩
  | cons chunk rest inductionHypothesis =>
      have longer := isPrefix.length_le
      rw [List.flatten_cons, ← List.append_assoc] at split
      rw [readHeaders]
      by_cases more : buf.length < headerGoal stream
      · rw [if_pos (unfinished.mpr more)]
        obtain ⟨missing, enough⟩ := inductionHypothesis (buf ++ chunk) split
          ⟨_, split⟩ (unfinished_iff ⟨_, split⟩)
        refine ⟨missing, ?_⟩
        intro there
        obtain ⟨taken, left, parts, read, length⟩ := enough there
        refine ⟨chunk :: taken, left, ?_, ?_, ?_⟩
        · rw [parts, List.cons_append]
        · rw [read, List.flatten_cons, List.append_assoc]
        · rw [List.flatten_cons, List.length_append, length,
            List.length_append, cover, if_neg (by omega), Nat.sub_sub]
      · rw [if_neg (unfinished.not.mpr more)]
        constructor
        · intro missing
          omega
        · intro _
          refine ⟨[], chunk :: rest, rfl, by simp, ?_⟩
          rw [Nat.sub_eq_zero_of_le (by omega), cover_zero]
          rfl

theorem readBody_spec (contentLength : Nat) (body : Bytes)
    (recvs : List Bytes) :
    readBody contentLength body recvs =
      body ++ recvs.flatten.take
        (cover (contentLength - body.length) recvs) := by
  induction recvs generalizing body with
  | nil =>
      simp [readBody]
  | cons chunk rest inductionHypothesis =>
      rw [readBody, cover, List.flatten_cons]
      by_cases more : body.length < contentLength
      · rw [if_pos more, if_neg (by omega), inductionHypothesis,
          List.length_append, ← Nat.sub_sub, List.take_length_add_append,
          List.append_assoc]
      · rw [if_neg more, if_pos (by omega), List.take_zero, List.append_nil]

/-- The headers of a beginning of the stream. -/
theorem headerBlock_take (stream : Bytes) (count : Nat) :
    headerBlock (stream.take count) =
      (headerBlock stream).filter fun block => block.bodyStart ≤ count := by
  have four : terminator.length = 4 := rfl
  rw [headerBlock, headerBlock, find_take]
  cases find terminator stream with
  | none =>
      rfl
  | some headerEnd =>
      by_cases there : headerEnd + 4 ≤ count
      · have shorter : min headerEnd count = headerEnd := by omega
        simp only [Option.filter, four, there, decide_true, if_true,
          Option.bind_some, List.take_take, shorter]
        cases getlines (stream.take headerEnd) with
        | nil => rfl
        | cons line headers =>
            simp [HeaderBlock.bodyStart, there]
      · simp only [Option.filter, four, there, decide_false,
          Bool.false_eq_true, if_false, Option.bind_none, Option.bind_some]
        cases getlines (stream.take headerEnd) with
        | nil => rfl
        | cons line headers =>
            simp [HeaderBlock.bodyStart, there]

theorem headerGoal_of_block {stream : Bytes} {block : HeaderBlock}
    (found : headerBlock stream = some block) :
    headerGoal stream = min block.bodyStart headerLimit ∧
      block.bodyStart ≤ stream.length := by
  obtain ⟨headerEnd, atEnd, parsed⟩ := Option.bind_eq_some_iff.mp found
  have inside := find_le atEnd
  split at parsed
  · cases parsed
  · cases parsed
    rw [headerGoal, atEnd]
    exact ⟨rfl, inside⟩

section Dispatch

variable (routes : StringMap Handler) (beyond : Bytes → Int32)
  {stream : Bytes} {recvs : List Bytes}

/-- The header loop ends with the reads that cover its goal, and the body loop
goes on from there. -/
theorem readHeaders_take (split : recvs.flatten = stream)
    (enough : headerGoal stream ≤ stream.length) :
    ∃ rest, readHeaders [] recvs =
        some (stream.take (cover (headerGoal stream) recvs), rest) ∧
      rest.flatten = stream.drop (cover (headerGoal stream) recvs) ∧
      ∀ count, headerGoal stream ≤ count →
        cover (headerGoal stream) recvs +
            cover (count - cover (headerGoal stream) recvs) rest =
          cover count recvs := by
  obtain ⟨taken, rest, parts, read, length⟩ :=
    (readHeaders_spec [] recvs split).2 enough
  rw [List.length_nil, Nat.sub_zero] at length
  have whole : taken.flatten ++ rest.flatten = stream := by
    rw [← split, parts, List.flatten_append]
  rw [List.nil_append] at read
  refine ⟨rest, ?_, ?_, ?_⟩
  · rw [read, ← length, ← whole, List.take_left]
  · rw [← length, ← whole, List.drop_left]
  · intro count more
    have covered := min_le_cover (headerGoal stream) recvs
    rw [split, min_eq_left enough] at covered
    have first := cover_append (headerGoal stream) taken rest
    rw [← parts, Nat.sub_eq_zero_of_le (by omega), cover_zero] at first
    have atLeast := cover_mono more taken
    have atMost := cover_le count taken
    rw [parts, cover_append count taken rest, ← parts, length]
    omega

/-- Without a terminator, or without a line before it, no handler is
called. -/
theorem dispatched_of_no_block (split : recvs.flatten = stream)
    (noBlock : headerBlock stream = none) :
    (serve routes beyond recvs).dispatched = none := by
  rw [serve]
  by_cases there : headerGoal stream ≤ stream.length
  · obtain ⟨rest, read, _, _⟩ := readHeaders_take split there
    rw [read]
    simp only [headerBlock_take, noBlock]
    rfl
  · rw [(readHeaders_spec [] recvs split).1 (by omega)]

theorem drop_take_append {start middle count : Nat} (before : start ≤ middle)
    (inside : middle ≤ stream.length) :
    (stream.take middle).drop start ++ (stream.drop middle).take count =
      (stream.take (middle + count)).drop start := by
  rw [List.take_add, List.drop_append_of_le_length]
  rw [List.length_take]
  omega

/-- Which request a handler gets, in terms of the stream and of where the
reads end. -/
theorem dispatched_of_block {block : HeaderBlock}
    (split : recvs.flatten = stream)
    (found : headerBlock stream = some block) :
    (serve routes beyond recvs).dispatched =
      if (routes block.route).isSome ∧ block.bodyStart ≤
          cover (min block.bodyStart headerLimit) recvs then
        some { parseRequestLine block.line with
          body := (stream.take (cover
            (block.bodyStart + contentLength beyond block.headers)
              recvs)).drop block.bodyStart }
      else none := by
  obtain ⟨goal, inside⟩ := headerGoal_of_block found
  obtain ⟨rest, read, remaining, later⟩ :=
    readHeaders_take split (by omega)
  rw [goal] at read remaining later
  rw [serve, read]
  dsimp only
  rw [headerBlock_take, found]
  by_cases there : block.bodyStart ≤
      cover (min block.bodyStart headerLimit) recvs
  · have body : readBody (contentLength beyond block.headers)
          ((stream.take (cover (min block.bodyStart headerLimit) recvs)).drop
            block.bodyStart) rest =
        (stream.take (cover
          (block.bodyStart + contentLength beyond block.headers)
            recvs)).drop block.bodyStart := by
      have atMost := cover_le (min block.bodyStart headerLimit) recvs
      rw [split] at atMost
      have total := later
        (block.bodyStart + contentLength beyond block.headers) (by omega)
      have missing : contentLength beyond block.headers -
            (cover (min block.bodyStart headerLimit) recvs -
              block.bodyStart) =
          block.bodyStart + contentLength beyond block.headers -
            cover (min block.bodyStart headerLimit) recvs := by
        omega
      rw [readBody_spec, remaining, List.length_drop, List.length_take,
        min_eq_left atMost, missing, drop_take_append there atMost, total]
    simp only [Option.filter, there, decide_true, if_true, and_true]
    have sameRoute : ∀ bytes, ({ parseRequestLine block.line with
        body := bytes } : HttpRequest).route = block.route :=
      fun _ => rfl
    rw [sameRoute]
    change (match routes block.route with
      | none => _
      | some handler => _ : Served).dispatched = _
    cases routes block.route with
    | none => rfl
    | some handler =>
        change some { parseRequestLine block.line with
          body := readBody (contentLength beyond block.headers)
            ((stream.take
              (cover (min block.bodyStart headerLimit) recvs)).drop
                block.bodyStart) rest } = _
        rw [body]
        rfl
  · simp only [Option.filter, there, decide_false, Bool.false_eq_true,
      if_false, and_false]

/-! ## Packet boundaries -/

/-- Every way of cutting the stream hands the same request to a handler, or
none. -/
def SplitIndependent (stream : Bytes) : Prop :=
  ∀ first second, IsSplit stream first → IsSplit stream second →
    (serve routes beyond first).dispatched =
      (serve routes beyond second).dispatched

/-- A request whose `Content-Length` bytes are all there has them as its
body. -/
def BodyExact (stream : Bytes) : Prop :=
  ∀ block, headerBlock stream = some block →
    (∃ line ∈ block.headers, isContentLength line = true) →
    block.bodyStart + contentLength beyond block.headers ≤ stream.length →
    ∀ recvs, IsSplit stream recvs → ∀ request,
      (serve routes beyond recvs).dispatched = some request →
      request.body = (stream.drop block.bodyStart).take
        (contentLength beyond block.headers)

/-- If the request has a handler and its headers can be found at all, then they
end within the limit of the header loop and nothing follows the body. -/
def Settled (stream : Bytes) : Prop :=
  ∀ block, headerBlock stream = some block →
    (routes block.route).isSome →
    block.bodyStart < headerLimit + chunkSize →
    block.bodyStart ≤ headerLimit ∧
      stream.length ≤ block.bodyStart + contentLength beyond block.headers

variable {routes beyond}

/-- Of a settled stream the handler gets all that follows the headers. -/
theorem dispatched_of_settled (settled : Settled routes beyond stream)
    {block : HeaderBlock} (found : headerBlock stream = some block)
    (split : IsSplit stream recvs) :
    (serve routes beyond recvs).dispatched =
      if (routes block.route).isSome ∧
          block.bodyStart < headerLimit + chunkSize then
        some { parseRequestLine block.line with
          body := stream.drop block.bodyStart }
      else none := by
  have inside := (headerGoal_of_block found).2
  rw [dispatched_of_block routes beyond split.whole found]
  by_cases routed : (routes block.route).isSome
  · by_cases early : block.bodyStart < headerLimit + chunkSize
    · obtain ⟨withinLimit, nothingLeft⟩ := settled block found routed early
      have reached := min_le_cover (min block.bodyStart headerLimit) recvs
      have everything := min_le_cover
        (block.bodyStart + contentLength beyond block.headers) recvs
      rw [split.whole] at reached everything
      rw [if_pos ⟨routed, by omega⟩, if_pos ⟨routed, early⟩,
        List.take_of_length_le (by omega)]
    · have short : cover (min block.bodyStart headerLimit) recvs <
          min block.bodyStart headerLimit + chunkSize := by
        apply cover_lt
        · simp only [headerLimit, chunkSize] at early ⊢
          omega
        · intro chunk member
          exact (split.size chunk member).2
      have notReached : ¬ block.bodyStart ≤
          cover (min block.bodyStart headerLimit) recvs := by
        omega
      rw [if_neg (fun both => notReached both.2),
        if_neg (fun both => early both.2)]
  · rw [if_neg (fun both => routed both.1),
      if_neg (fun both => routed both.1)]

theorem splitIndependent_of_settled (settled : Settled routes beyond stream) :
    SplitIndependent routes beyond stream := by
  intro first second firstSplit secondSplit
  cases found : headerBlock stream with
  | none =>
      rw [dispatched_of_no_block routes beyond firstSplit.whole found,
        dispatched_of_no_block routes beyond secondSplit.whole found]
  | some block =>
      rw [dispatched_of_settled settled found firstSplit,
        dispatched_of_settled settled found secondSplit]

theorem bodyExact_of_settled (settled : Settled routes beyond stream) :
    BodyExact routes beyond stream := by
  intro block found _ complete recvs split request dispatched
  rw [dispatched_of_settled settled found split] at dispatched
  split_ifs at dispatched with called
  · obtain ⟨_, nothingLeft⟩ := settled block found called.1 called.2
    cases dispatched
    rw [List.take_of_length_le]
    rw [List.length_drop]
    omega

/-! ## Streams that are not settled -/

/-- Byte by byte, except for one piece after `count` bytes. -/
def cutAt (count size : Nat) (stream : Bytes) : List Bytes :=
  (stream.take count).map (fun byte => [byte]) ++
    ((stream.drop count).take size ::
      (stream.drop (count + size)).map fun byte => [byte])

theorem isSplit_singles (stream : Bytes) :
    IsSplit stream (stream.map fun byte => [byte]) := by
  refine ⟨flatten_singles stream, ?_⟩
  intro chunk member
  obtain ⟨byte, _, rfl⟩ := List.mem_map.mp member
  refine ⟨le_rfl, ?_⟩
  rw [List.length_singleton]
  decide

theorem isSplit_cutAt {count size : Nat} (inside : count < stream.length)
    (positive : 1 ≤ size) (small : size ≤ chunkSize) :
    IsSplit stream (cutAt count size stream) := by
  constructor
  · rw [cutAt, List.flatten_append, List.flatten_cons, flatten_singles,
      flatten_singles, ← List.drop_drop, List.take_append_drop,
      List.take_append_drop]
  · intro chunk member
    rcases List.mem_append.mp member with before | later
    · exact (isSplit_singles _).size chunk before
    · rcases List.mem_cons.mp later with rfl | after
      · rw [List.length_take, List.length_drop]
        omega
      · exact (isSplit_singles _).size chunk after

/-- Who wants one byte of the piece gets all of it. -/
theorem cover_cutAt {count size : Nat} (some : 0 < count)
    (inside : count ≤ stream.length) (positive : 1 ≤ size) :
    cover count (cutAt (count - 1) size stream) =
      min (count - 1 + size) stream.length := by
  have before : (stream.take (count - 1)).length = count - 1 :=
    List.length_take_of_le (by omega)
  have piece : ((stream.drop (count - 1)).take size).length =
      min size (stream.length - (count - 1)) := by
    rw [List.length_take, List.length_drop]
  have missing : count - (count - 1) = 1 := by omega
  have nothing : 1 - min size (stream.length - (count - 1)) = 0 := by omega
  rw [cutAt, cover_append, cover_singles, flatten_singles, before, missing,
    cover, if_neg Nat.one_ne_zero, piece, nothing, cover_zero]
  omega

/-- Two cuts that show the boundaries. -/
theorem settled_of_splitIndependent
    (independent : SplitIndependent routes beyond stream) :
    Settled routes beyond stream := by
  intro block found routed early
  have inside := (headerGoal_of_block found).2
  have byByte := isSplit_singles stream
  have dispatched := fun recvs (split : IsSplit stream recvs) =>
    dispatched_of_block routes beyond split.whole found
  have withinLimit : block.bodyStart ≤ headerLimit := by
    by_contra late
    have late : headerLimit < block.bodyStart := not_le.mp late
    have positive : 0 < headerLimit := by decide
    have byPiece :
        IsSplit stream (cutAt (headerLimit - 1) chunkSize stream) :=
      isSplit_cutAt (by omega) (by decide) le_rfl
    have reached : cover headerLimit
          (cutAt (headerLimit - 1) chunkSize stream) =
        min (headerLimit - 1 + chunkSize) stream.length :=
      cover_cutAt positive (by omega) (by decide)
    have same := independent _ _ byByte byPiece
    rw [dispatched _ byByte, dispatched _ byPiece, min_eq_right late.le,
      cover_singles, reached, if_neg (by omega),
      if_pos ⟨routed, by omega⟩] at same
    cases same
  refine ⟨withinLimit, ?_⟩
  by_contra more
  have start : 4 ≤ block.bodyStart := Nat.le_add_left 4 block.headerEnd
  have byPair : IsSplit stream
      (cutAt (block.bodyStart + contentLength beyond block.headers - 1) 2
        stream) :=
    isSplit_cutAt (by omega) (by decide) (by decide)
  have tooMuch : cover
        (block.bodyStart + contentLength beyond block.headers) (cutAt
          (block.bodyStart + contentLength beyond block.headers - 1) 2
            stream) =
      block.bodyStart + contentLength beyond block.headers + 1 := by
    rw [cover_cutAt (by omega) (by omega) (by decide)]
    omega
  have reached := min_le_cover block.bodyStart (cutAt
    (block.bodyStart + contentLength beyond block.headers - 1) 2 stream)
  rw [byPair.whole, min_eq_left inside] at reached
  have same := independent _ _ byByte byPair
  rw [dispatched _ byByte, dispatched _ byPair, min_eq_left withinLimit,
    cover_singles, cover_singles, tooMuch, if_pos ⟨routed, by omega⟩,
    if_pos ⟨routed, reached⟩] at same
  have bodies := congrArg (fun request => request.body.length)
    (Option.some.inj same)
  simp only [List.length_drop, List.length_take] at bodies
  omega

end Dispatch

/-- What a handler gets does not depend on how the stream was cut, and its
body is what `Content-Length` announces, if and only if the stream is
settled. -/
theorem packet_boundaries_iff (routes : StringMap Handler)
    (beyond : Bytes → Int32) (stream : Bytes) :
    (SplitIndependent routes beyond stream ∧
        BodyExact routes beyond stream) ↔
      Settled routes beyond stream := by
  constructor
  · rintro ⟨independent, _⟩
    exact settled_of_splitIndependent independent
  · intro settled
    exact ⟨splitIndependent_of_settled settled, bodyExact_of_settled settled⟩

/-- A request with one byte more than its `Content-Length`. -/
def overlong : Bytes :=
  ascii "POST /j HTTP/1.1\r\nContent-Length: 2\r\n\r\n\x7b\x7dX"

/-- In one piece the handler gets the byte that follows the body, byte by byte
it does not. -/
theorem packet_boundaries_overlong :
    ¬ ∀ (routes : StringMap Handler) (beyond : Bytes → Int32)
      (stream : Bytes), SplitIndependent routes beyond stream ∧
        BodyExact routes beyond stream := by
  intro always
  have independent := (always
    (StringMap.empty.assign (ascii "POST /j") fun _ => {})
    (fun _ => 0) overlong).1
  have whole : IsSplit overlong [overlong] := by
    refine ⟨List.flatten_singleton, ?_⟩
    simp only [List.mem_singleton, forall_eq]
    decide
  have bodies := congrArg (Option.map HttpRequest.body)
    (independent _ _ whole (isSplit_singles overlong))
  exact absurd bodies (by decide +kernel)

end HydraRT.Inference
