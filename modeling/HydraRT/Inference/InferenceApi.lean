import HydraRT.Inference.TimedJobs
import HydraRT.Inference.HttpExchange
import HydraRT.Lib.Transition

/-!
# The inference API

`POST /infer` and `GET /status` on top of the job table: any number of
connections and of observer callbacks run at the same time, each critical
section and each access to a counter a step of its own.  The observer may be
called with any payload at any time.  What a client was told stays true, and
its request is known once it has the id.
-/

namespace HydraRT.Inference

open HydraRT.Lib HydraRT.Net

/-! ## Texts -/

def modelKindName (kind : ModelKind) : Bytes :=
  if kind = .imageClassifier then ascii "image"
  else if kind = .textTransformer then ascii "text"
  else ascii "unknown"

def stageName (stage : Stage) : Bytes :=
  if stage = .decode then ascii "decode"
  else if stage = .preprocess then ascii "preprocess"
  else if stage = .infer then ascii "infer"
  else if stage = .postprocess then ascii "postprocess"
  else ascii "unknown"

def stateName (state : JobState) : Bytes :=
  if state = .done then ascii "done" else ascii "running"

/-- How the bodies that name a request begin. -/
def requestIdField : Bytes :=
  ascii "\x7b\"request_id\":"

/-- The response of `POST /infer`. -/
def inferResponse (id : Nat) (kind : ModelKind) : HttpResponse where
  body := requestIdField ++ (decimal id ++ (ascii ",\"model\":\"" ++
    (modelKindName kind ++ ascii "\"\x7d")))

/-- The response of `GET /status` for what was found in the table. -/
def statusResponse : Option TimedStatus → HttpResponse
  | none =>
      { status := 404, body := ascii "\x7b\"error\":\"unknown request\"\x7d" }
  | some st =>
      { body := requestIdField ++ (decimal st.requestId ++
          (ascii ",\"state\":\"" ++ (stateName st.state ++
            (ascii "\",\"stage\":\"" ++ (stageName st.stage ++
              (ascii "\",\"latency_us\":" ++
                (decimal (st.latencyNs / 1000) ++ ascii "\x7d"))))))) }

/-- The response of `GET /status` for a request that is done. -/
def doneResponse (id : Nat) (stage : Stage) (latencyUs : Nat) :
    HttpResponse where
  body := requestIdField ++ (decimal id ++
    (ascii ",\"state\":\"" ++ (ascii "done" ++
      (ascii "\",\"stage\":\"" ++ (stageName stage ++
        (ascii "\",\"latency_us\":" ++
          (decimal latencyUs ++ ascii "\x7d")))))))

def missingId : HttpResponse where
  status := 400
  body := ascii "\x7b\"error\":\"missing id\"\x7d"

/-- The id that a client finds in a body. -/
def idIn (response : HttpResponse) : Int :=
  integerAt 10 (response.body.drop requestIdField.length)

/-! ## Parameters -/

/-- An `int` parameter, assigned to a `uint32_t`. -/
def sizeParameter (beyond : Bytes → Int32) (request : HttpRequest)
    (name : Bytes) (default : UInt32) : UInt32 :=
  match request.query name with
  | none => default
  | some value => (atoi beyond value).toUInt32

/-- What the handler of `POST /infer` reads out of the query. -/
def inferRequest (beyond : Bytes → Int32) (request : HttpRequest) : Request :=
  if request.query (ascii "model") = some (ascii "text") then
    { kind := .textTransformer
      sequenceLength := sizeParameter beyond request (ascii "seq") 128
      batchSize := sizeParameter beyond request (ascii "batch") 1 }
  else
    { kind := .imageClassifier
      imagePixels := sizeParameter beyond request (ascii "pixels") 50176
      batchSize := sizeParameter beyond request (ascii "batch") 1 }

/-- The id that `GET /status` is asked for. -/
def requestedId (request : HttpRequest) : Option Nat :=
  (request.query (ascii "id")).map (strtoull · 10)

namespace Api

/-! ## Threads -/

/-- Where a thread is. -/
inductive Call where
  | handle (request : HttpRequest)
  | submit (request : Request)
  | emplace (id : Nat) (request : Request)
  | count (id : Nat) (request : Request)
  | submitStage (id : Nat) (request : Request)
  | lookUp (id : Nat)
  | loadSubmitted
  | loadCompleted (submitted : Nat)
  | respond (response : HttpResponse)
  | sent (response : HttpResponse)
  | stageDone (p : StagePayload)
  | record (p : StagePayload)
  | observed

/-- A thread of a connection has its request; a callback of the observer has
none. -/
structure Thread where
  request : Option HttpRequest
  call : Call

structure State where
  table : TimedJobs := {}
  now : Nat := 0
  /-- The payloads given to `submit_portable`. -/
  tasks : List StagePayload := []
  threads : List Thread := []

inductive Action where
  | pass (ns : Nat)
  | ask (request : HttpRequest)
  | observe (p : StagePayload)
  | advance (thread : Nat)

section Steps

-- what `GET /stats` makes of the two counters: its other figures are the node's
variable (beyond : Bytes → Int32) (stats : Nat → Nat → HttpResponse)

/-- The handler of a route, up to its first access to the job manager. -/
def dispatch (request : HttpRequest) : Call :=
  if request.route = ascii "POST /infer" then
    .submit (inferRequest beyond request)
  else if request.route = ascii "GET /status" then
    match requestedId request with
    | none => .respond missingId
    | some id => .lookUp id
  else if request.route = ascii "GET /stats" then .loadSubmitted
  else .respond notFound

/-- One step of a thread, with what becomes of the table and of the tasks. -/
def Call.step (table : TimedJobs) (now : Nat) (tasks : List StagePayload) :
    Call → Option (TimedJobs × List StagePayload × Call)
  | .handle request => some (table, tasks, dispatch beyond request)
  | .submit request =>
      some ({ table with nextRequestId := table.nextRequestId + 1 }, tasks,
        .emplace table.nextRequestId request)
  | .emplace id request =>
      some (table.emplace id request.kind now, tasks, .count id request)
  | .count id request =>
      some ({ table with submitted := table.submitted + 1 }, tasks,
        .submitStage id request)
  | .submitStage id request =>
      some (table, tasks ++ [request.payload id],
        .respond (inferResponse id request.kind))
  | .lookUp id =>
      some (table, tasks, .respond (statusResponse (table.status id)))
  | .loadSubmitted => some (table, tasks, .loadCompleted table.submitted)
  | .loadCompleted submitted =>
      some (table, tasks, .respond (stats submitted table.completed))
  | .respond response => some (table, tasks, .sent response)
  | .stageDone p =>
      match p.next? with
      | some next => some (table, tasks ++ [next], .record p)
      | none =>
          if p.stage = .postprocess then
            some (table.markDone p now, tasks, .observed)
          else some (table, tasks, .record p)
  | .record p => some (table.recordStage p, tasks, .observed)
  | .sent _ | .observed => none

def State.step (state : State) : Action → Option State
  | .pass ns => some { state with now := state.now + ns }
  | .ask request =>
      some { state with
        threads := state.threads ++ [⟨some request, .handle request⟩] }
  | .observe p =>
      some { state with threads := state.threads ++ [⟨none, .stageDone p⟩] }
  | .advance number =>
      match state.threads[number]? with
      | none => none
      | some thread =>
          (thread.call.step beyond stats state.table state.now
            state.tasks).map fun (table, tasks, call) =>
              { state with
                table := table
                tasks := tasks
                threads := state.threads.set number { thread with call := call } }

def api : Machine State Action where
  initial state := state = {}
  step := State.step beyond stats

end Steps

/-! ## What clients see -/

inductive Event where
  | asked (thread : Nat) (request : HttpRequest)
  | answered (thread : Nat) (request : HttpRequest) (response : HttpResponse)

def events (state : State) : Action → List Event
  | .ask request => [.asked state.threads.length request]
  | .advance number =>
      match state.threads[number]? with
      | some ⟨some request, .respond response⟩ =>
          [.answered number request response]
      | _ => []
  | _ => []

def IsInfer (request : HttpRequest) : Prop :=
  request.route = ascii "POST /infer"

/-- The request asks for the status of a request. -/
structure AsksFor (request : HttpRequest) (id : Nat) : Prop where
  route : request.route = ascii "GET /status"
  id : requestedId request = some id

/-! ## What was said -/

variable (beyond : Bytes → Int32) (stats : Nat → Nat → HttpResponse)

/-- What a response says of the request `id` is borne out by what is found in
the table. -/
structure Knows (asked : HttpRequest) (response : HttpResponse) (id : Nat)
    (found : Option TimedStatus) : Prop where
  status : AsksFor asked id → ∃ before, response = statusResponse before ∧
    TimedJobs.Progresses before found
  infer : IsInfer asked → idIn response = id → ∃ st, found = some st ∧
    st.kind = (inferRequest beyond asked).kind

/-- A response has been answered before a request was asked. -/
def Before (log : List Event) (asked : HttpRequest) (response : HttpResponse)
    (number : Nat) (request : HttpRequest) : Prop :=
  ∃ earlier, List.Sublist
    [.answered earlier asked response, .asked number request] log

/-- A thread's response, and what it has to agree with. -/
structure Reports (table : TimedJobs) (log : List Event) (number : Nat)
    (request : HttpRequest) (response : HttpResponse) : Prop where
  status : ∀ id, AsksFor request id → ∃ found,
    response = statusResponse found ∧
    (∀ st ∈ found, st.requestId = id) ∧
    TimedJobs.Progresses found (table.status id) ∧
    ∀ asked first, Before log asked first number request →
      Knows beyond asked first id found
  infer : IsInfer request → ∃ id st,
    response = inferResponse id (inferRequest beyond request).kind ∧
    table.status id = some st ∧ st.kind = (inferRequest beyond request).kind

/-- Where a thread may be. -/
inductive Fits (table : TimedJobs) (log : List Event) (number : Nat) :
    Option HttpRequest → Call → Prop
  | handle (request : HttpRequest) :
      Fits table log number (some request) (.handle request)
  | submit {request : HttpRequest} : IsInfer request →
      Fits table log number (some request)
        (.submit (inferRequest beyond request))
  | emplace {request : HttpRequest} {id : Nat} : IsInfer request →
      table.status id = none →
      Fits table log number (some request)
        (.emplace id (inferRequest beyond request))
  | count {request : HttpRequest} {id : Nat} {st : TimedStatus} :
      IsInfer request → table.status id = some st →
      st.kind = (inferRequest beyond request).kind →
      Fits table log number (some request)
        (.count id (inferRequest beyond request))
  | submitStage {request : HttpRequest} {id : Nat} {st : TimedStatus} :
      IsInfer request → table.status id = some st →
      st.kind = (inferRequest beyond request).kind →
      Fits table log number (some request)
        (.submitStage id (inferRequest beyond request))
  | lookUp {request : HttpRequest} {id : Nat} : AsksFor request id →
      Fits table log number (some request) (.lookUp id)
  | loadSubmitted {request : HttpRequest} :
      request.route = ascii "GET /stats" →
      Fits table log number (some request) .loadSubmitted
  | loadCompleted {request : HttpRequest} (submitted : Nat) :
      request.route = ascii "GET /stats" →
      Fits table log number (some request) (.loadCompleted submitted)
  | respond {request : HttpRequest} {response : HttpResponse} :
      Reports beyond table log number request response →
      Fits table log number (some request) (.respond response)
  | sent {request : HttpRequest} {response : HttpResponse} :
      Reports beyond table log number request response →
      Fits table log number (some request) (.sent response)
  | stageDone (p : StagePayload) :
      Fits table log number none (.stageDone p)
  | record (p : StagePayload) : Fits table log number none (.record p)
  | observed : Fits table log number none .observed

/-- The id that a thread has drawn. -/
def Thread.claim? (thread : Thread) : Option Nat :=
  match thread.call with
  | .emplace id _ | .count id _ | .submitStage id _ => some id
  | .respond response | .sent response =>
      match thread.request with
      | none => none
      | some request =>
          if request.route = ascii "POST /infer" then
            some (idIn response).toNat
          else none
  | _ => none

structure Consistent (state : State) (log : List Event) : Prop where
  positive : 0 < state.table.nextRequestId
  fresh : ∀ id, state.table.nextRequestId ≤ id → state.table.status id = none
  fits : ∀ number thread, state.threads[number]? = some thread →
    Fits beyond state.table log number thread.request thread.call
  claims : ∀ (number : Nat) (thread : Thread),
    state.threads[number]? = some thread → ∀ id, thread.claim? = some id →
      0 < id ∧ id < state.table.nextRequestId
  unique : ∀ (first second : Nat) (one other : Thread) (id : Nat),
    state.threads[first]? = some one → state.threads[second]? = some other →
      one.claim? = some id → other.claim? = some id → first = second
  asked : ∀ number request, .asked number request ∈ log →
    number < state.threads.length
  answered : ∀ number request response,
    .answered number request response ∈ log →
      state.threads[number]? = some ⟨some request, .sent response⟩

variable {beyond stats}

theorem Knows.mono {asked : HttpRequest} {response : HttpResponse} {id : Nat}
    {found later : Option TimedStatus}
    (knows : Knows beyond asked response id found)
    (progresses : TimedJobs.Progresses found later) :
    Knows beyond asked response id later where
  status asks := by
    obtain ⟨before, same, earlier⟩ := knows.status asks
    exact ⟨before, same, earlier.trans progresses⟩
  infer isInfer same := by
    obtain ⟨st, isFound, kind⟩ := knows.infer isInfer same
    obtain ⟨new, isNew, follows⟩ := progresses st isFound
    exact ⟨new, isNew, follows.kind.trans kind⟩

/-- What happens to the table and to the log while a thread stands still. -/
structure Keeps (table later : TimedJobs) (log longer : List Event)
    (number : Nat) (call : Call) : Prop where
  progresses : ∀ id,
    TimedJobs.Progresses (table.status id) (later.status id)
  absent : ∀ id own, call = .emplace id own → table.status id = none →
    later.status id = none
  before : ∀ asked response request,
    Before longer asked response number request →
      Before log asked response number request

section Kept

variable {table later : TimedJobs} {log longer : List Event} {number : Nat}
  {call : Call}

theorem Keeps.found (keeps : Keeps table later log longer number call)
    {id : Nat} {st : TimedStatus} (found : table.status id = some st) :
    ∃ new, later.status id = some new ∧ new.kind = st.kind := by
  obtain ⟨new, isNew, follows⟩ := keeps.progresses id st found
  exact ⟨new, isNew, follows.kind⟩

theorem Reports.keep {request : HttpRequest} {response : HttpResponse}
    (reports : Reports beyond table log number request response)
    (keeps : Keeps table later log longer number call) :
    Reports beyond later longer number request response where
  status id asks := by
    obtain ⟨found, same, ids, progresses, knows⟩ := reports.status id asks
    exact ⟨found, same, ids, progresses.trans (keeps.progresses id),
      fun asked first before => knows asked first
        (keeps.before asked first request before)⟩
  infer isInfer := by
    obtain ⟨id, st, same, found, kind⟩ := reports.infer isInfer
    obtain ⟨new, isNew, newKind⟩ := keeps.found found
    exact ⟨id, new, same, isNew, newKind.trans kind⟩

theorem Fits.keep {request : Option HttpRequest}
    (fits : Fits beyond table log number request call)
    (keeps : Keeps table later log longer number call) :
    Fits beyond later longer number request call := by
  cases fits with
  | handle request => exact .handle request
  | submit isInfer => exact .submit isInfer
  | emplace isInfer absent =>
      exact .emplace isInfer (keeps.absent _ _ rfl absent)
  | count isInfer found kind =>
      obtain ⟨new, isNew, newKind⟩ := keeps.found found
      exact .count isInfer isNew (newKind.trans kind)
  | submitStage isInfer found kind =>
      obtain ⟨new, isNew, newKind⟩ := keeps.found found
      exact .submitStage isInfer isNew (newKind.trans kind)
  | lookUp asks => exact .lookUp asks
  | loadSubmitted route => exact .loadSubmitted route
  | loadCompleted submitted route => exact .loadCompleted submitted route
  | respond reports => exact .respond (reports.keep keeps)
  | sent reports => exact .sent (reports.keep keeps)
  | stageDone p => exact .stageDone p
  | record p => exact .record p
  | observed => exact .observed

end Kept

/-! ## Steps -/

/-- A pattern that ends with an old entry is in the old part of a log. -/
theorem sublist_of_append {Entry : Type} {initial log new : List Entry}
    {last : Entry} (old : last ∉ new)
    (sublist : (initial ++ [last]).Sublist (log ++ new)) :
    (initial ++ [last]).Sublist log := by
  obtain ⟨first, second, split, inLog, inNew⟩ :=
    List.sublist_append_iff.mp sublist
  rcases List.eq_nil_or_concat second with rfl | ⟨others, final, rfl⟩
  · rw [split, List.append_nil]
    exact inLog
  · rw [List.concat_eq_append, ← List.append_assoc] at split
    obtain ⟨_, same⟩ := List.append_inj' split rfl
    obtain rfl := List.singleton_inj.mp same
    exact absurd (inNew.mem (by simp)) old

theorem before_of_append {log new : List Event} {asked : HttpRequest}
    {response : HttpResponse} {number : Nat} {request : HttpRequest}
    (old : .asked number request ∉ new)
    (before : Before (log ++ new) asked response number request) :
    Before log asked response number request := by
  obtain ⟨earlier, sublist⟩ := before
  exact ⟨earlier, @sublist_of_append _ [_] _ _ _ old sublist⟩

/-- What the step of one thread may do to the table and to the log. -/
structure Advances (table later : TimedJobs) (thread : Thread) (call : Call)
    (number : Nat) (new : List Event) : Prop where
  progresses : ∀ id,
    TimedJobs.Progresses (table.status id) (later.status id)
  absent : ∀ id, table.status id = none →
    later.status id = none ∨ ∃ own, thread.call = .emplace id own
  drawn : table.nextRequestId ≤ later.nextRequestId
  claim : ∀ id, Thread.claim? { thread with call := call } = some id →
    thread.claim? = some id ∨
      (id = table.nextRequestId ∧ id < later.nextRequestId)
  unsent : ∀ response, thread.call ≠ .sent response
  new : ∀ event ∈ new, ∃ request response,
    event = .answered number request response ∧
      thread.request = some request ∧ call = .sent response

section Step

variable {state : State} {log new : List Event} {number : Nat}
  {thread : Thread} {table : TimedJobs} {call : Call}

theorem Consistent.install (consistent : Consistent beyond state log)
    (present : state.threads[number]? = some thread)
    (advances : Advances state.table table thread call number new)
    (fits : Fits beyond table (log ++ new) number thread.request call)
    (tasks : List StagePayload) :
    Consistent beyond
      { state with
        table := table
        tasks := tasks
        threads := state.threads.set number { thread with call := call } }
      (log ++ new) := by
  have inside := (List.getElem?_eq_some_iff.mp present).1
  have notAsked : ∀ other request, Event.asked other request ∉ new := by
    intro other request member
    obtain ⟨_, _, impossible, _⟩ := advances.new _ member
    cases impossible
  have lookup : ∀ (other : Nat) (one : Thread),
      (state.threads.set number { thread with call := call })[other]? =
          some one →
        (other = number ∧ one = { thread with call := call }) ∨
          (other ≠ number ∧ state.threads[other]? = some one) := by
    intro other one found
    rw [List.getElem?_set] at found
    split_ifs at found with same
    · exact .inl ⟨same.symm, (Option.some.inj found).symm⟩
    · exact .inr ⟨Ne.symm same, found⟩
  -- a new claim is the id that nobody has yet
  have claimed : ∀ (other : Nat) (one : Thread) (id : Nat),
      (state.threads.set number { thread with call := call })[other]? =
          some one → one.claim? = some id →
        (∃ before, state.threads[other]? = some before ∧
          before.claim? = some id) ∨
        (other = number ∧ id = state.table.nextRequestId) := by
    intro other one id found claims
    rcases lookup other one found with ⟨rfl, rfl⟩ | ⟨_, old⟩
    · rcases advances.claim id claims with before | ⟨isNew, _⟩
      · exact .inl ⟨thread, present, before⟩
      · exact .inr ⟨rfl, isNew⟩
    · exact .inl ⟨one, old, claims⟩
  refine ⟨?_, ?_, ?_, ?_, ?_, ?_, ?_⟩
  · exact consistent.positive.trans_le advances.drawn
  · intro id late
    have before := advances.drawn.trans late
    rcases advances.absent id (consistent.fresh id before) with
      still | ⟨own, emplacing⟩
    · exact still
    · obtain ⟨_, bound⟩ := consistent.claims number thread present id
        (by rw [Thread.claim?, emplacing])
      exact absurd bound (Nat.not_lt.mpr before)
  · intro other one found
    rcases lookup other one found with ⟨rfl, rfl⟩ | ⟨different, old⟩
    · exact fits
    · refine (consistent.fits other one old).keep ⟨advances.progresses, ?_, ?_⟩
      · intro id own emplacing absent
        rcases advances.absent id absent with still | ⟨theirs, alsoEmplacing⟩
        · exact still
        · exact absurd (consistent.unique other number one thread id old present
            (by rw [Thread.claim?, emplacing])
            (by rw [Thread.claim?, alsoEmplacing])) different
      · exact fun asked response request before =>
          before_of_append (notAsked _ _) before
  · intro other one found id claimed
    rcases lookup other one found with ⟨rfl, rfl⟩ | ⟨_, old⟩
    · rcases advances.claim id claimed with before | ⟨rfl, small⟩
      · obtain ⟨positive, bound⟩ := consistent.claims _ _ present id before
        exact ⟨positive, bound.trans_le advances.drawn⟩
      · exact ⟨consistent.positive, small⟩
    · obtain ⟨positive, bound⟩ := consistent.claims _ _ old id claimed
      exact ⟨positive, bound.trans_le advances.drawn⟩
  · intro first second one other id isOne isOther oneClaims otherClaims
    have notNew : ∀ (index : Nat) (before : Thread),
        state.threads[index]? = some before → before.claim? = some id →
          id ≠ state.table.nextRequestId := by
      intro index before found claims
      exact (consistent.claims index before found id claims).2.ne
    rcases claimed first one id isOne oneClaims with
      ⟨before, isBefore, claims⟩ | ⟨rfl, isNew⟩
    · rcases claimed second other id isOther otherClaims with
        ⟨alsoBefore, isAlso, alsoClaims⟩ | ⟨_, isNew⟩
      · exact consistent.unique first second before alsoBefore id isBefore
          isAlso claims alsoClaims
      · exact absurd isNew (notNew first before isBefore claims)
    · rcases claimed second other id isOther otherClaims with
        ⟨before, isBefore, claims⟩ | ⟨same, _⟩
      · exact absurd isNew (notNew second before isBefore claims)
      · exact same.symm
  · intro other request member
    rw [List.length_set]
    rcases List.mem_append.mp member with old | added
    · exact consistent.asked other request old
    · exact absurd added (notAsked other request)
  · intro other request response member
    rcases List.mem_append.mp member with old | added
    · have before := consistent.answered other request response old
      have different : number ≠ other := by
        rintro rfl
        obtain rfl := Option.some.inj (present.symm.trans before)
        exact advances.unsent response rfl
      rw [List.getElem?_set_ne different]
      exact before
    · obtain ⟨_, _, same, isRequest, isSent⟩ := advances.new _ added
      cases same
      rw [List.getElem?_set_self inside, isRequest, isSent]

/-- A step that leaves all entries as they are. -/
theorem Advances.of_status {later : TimedJobs} {before : TimedJobs}
    (same : ∀ id, later.status id = before.status id)
    (drawn : before.nextRequestId ≤ later.nextRequestId)
    (claim : ∀ id, Thread.claim? { thread with call := call } = some id →
      thread.claim? = some id ∨
        (id = before.nextRequestId ∧ id < later.nextRequestId))
    (unsent : ∀ response, thread.call ≠ .sent response) :
    Advances before later thread call number [] where
  progresses id := by
    rw [same]
    exact .refl _
  absent id isNone := .inl ((same id).trans isNone)
  drawn := drawn
  claim := claim
  unsent := unsent
  new _ member := absurd member List.not_mem_nil

/-- A step that touches entries and draws no id. -/
theorem Advances.of_progress {later : TimedJobs} {before : TimedJobs}
    (progresses : ∀ id,
      TimedJobs.Progresses (before.status id) (later.status id))
    (absent : ∀ id, before.status id = none → later.status id = none)
    (drawn : later.nextRequestId = before.nextRequestId)
    (claim : Thread.claim? { thread with call := call } = none)
    (unsent : ∀ response, thread.call ≠ .sent response) :
    Advances before later thread call number [] where
  progresses := progresses
  absent id isNone := .inl (absent id isNone)
  drawn := drawn.ge
  claim id isClaim := by
    rw [claim] at isClaim
    cases isClaim
  unsent := unsent
  new _ member := absurd member List.not_mem_nil

/-- The first step of a handler. -/
theorem fits_dispatch {table : TimedJobs} (request : HttpRequest) :
    Fits beyond table log number (some request) (dispatch beyond request) := by
  have silent : ∀ response, request.route ≠ ascii "POST /infer" →
      (∀ id, ¬ AsksFor request id) →
        Fits beyond table log number (some request) (.respond response) := by
    intro response notInfer asksNothing
    exact .respond ⟨fun id asks => absurd asks (asksNothing id),
      fun isInfer => absurd isInfer notInfer⟩
  rw [dispatch]
  split_ifs with infer status statistics
  · exact .submit infer
  · split
    · rename_i missing
      refine silent _ infer fun id asks => ?_
      have named := asks.id
      rw [missing] at named
      cases named
    · rename_i id asked
      exact .lookUp ⟨status, asked⟩
  · exact .loadSubmitted statistics
  · exact silent _ infer fun id asks => status asks.route

theorem claim?_dispatch (request : HttpRequest) :
    Thread.claim? ⟨some request, dispatch beyond request⟩ = none := by
  rw [Thread.claim?, dispatch]
  split_ifs with infer status statistics
  · rfl
  · cases requestedId request with
    | none => simp [infer]
    | some id => rfl
  · rfl
  · simp [infer]

theorem idIn_inferResponse (id : Nat) (kind : ModelKind) :
    idIn (inferResponse id kind) = id := by
  have stops : Stops (ascii ",\"model\":\"" ++
      (modelKindName kind ++ ascii "\"\x7d")) :=
    stops_cons (by decide) _
  have number := @integerAt_decimal id [] _ (by simp) stops
  rw [idIn, inferResponse]
  dsimp only
  rw [List.drop_left]
  exact number

theorem idIn_statusResponse (st : TimedStatus) :
    idIn (statusResponse (some st)) = st.requestId := by
  have stops : Stops (ascii ",\"state\":\"" ++ (stateName st.state ++
      (ascii "\",\"stage\":\"" ++ (stageName st.stage ++
        (ascii "\",\"latency_us\":" ++
          (decimal (st.latencyNs / 1000) ++ ascii "\x7d")))))) :=
    stops_cons (by decide) _
  have number := @integerAt_decimal st.requestId [] _ (by simp) stops
  rw [idIn, statusResponse]
  dsimp only
  rw [List.drop_left]
  exact number

/-- What a response that was sent says is borne out by the table. -/
theorem Consistent.knows (consistent : Consistent beyond state log)
    {earlier : Nat} {asked : HttpRequest} {response : HttpResponse}
    (answered : .answered earlier asked response ∈ log) (id : Nat) :
    Knows beyond asked response id (state.table.status id) := by
  have fits := consistent.fits _ _
    (consistent.answered earlier asked response answered)
  dsimp only at fits
  cases fits with
  | sent reports =>
      constructor
      · intro asks
        obtain ⟨found, same, _, progresses, _⟩ := reports.status id asks
        exact ⟨found, same, progresses⟩
      · intro isInfer same
        obtain ⟨drawn, st, isResponse, found, kind⟩ := reports.infer isInfer
        rw [isResponse, idIn_inferResponse] at same
        obtain rfl := Int.ofNat_inj.mp same
        exact ⟨st, found, kind⟩

/-- The thread's next call, with the log that it leaves. -/
theorem Consistent.advance (consistent : Consistent beyond state log)
    {tasks : List StagePayload}
    (present : state.threads[number]? = some thread)
    (stepped : thread.call.step beyond stats state.table state.now
      state.tasks = some (table, tasks, call)) :
    Consistent beyond
      { state with
        table := table
        tasks := tasks
        threads := state.threads.set number { thread with call := call } }
      (log ++ events state (.advance number)) := by
  have fits := consistent.fits number thread present
  have silent : (∀ response, thread.call ≠ .respond response) →
      events state (.advance number) = [] := by
    intro notResponding
    rw [events, present]
    split
    · rename_i same
      exact absurd (congrArg Thread.call (Option.some.inj same))
        (notResponding _)
    · rfl
  obtain ⟨request, current⟩ := thread
  dsimp only at fits stepped silent
  cases fits with
  | handle request =>
      cases stepped
      rw [silent nofun]
      refine consistent.install present ?_ (fits_dispatch request) state.tasks
      refine .of_status (fun _ => rfl) le_rfl ?_ nofun
      intro id claims
      rw [claim?_dispatch] at claims
      cases claims
  | submit isInfer =>
      cases stepped
      rw [silent nofun]
      have absent : TimedJobs.status
          { state.table with nextRequestId := state.table.nextRequestId + 1 }
          state.table.nextRequestId = none :=
        consistent.fresh _ le_rfl
      refine consistent.install present ?_ (.emplace isInfer absent) state.tasks
      refine .of_status (fun _ => rfl) (Nat.le_succ _) ?_ nofun
      intro id claims
      cases claims
      exact .inr ⟨rfl, Nat.lt_succ_self _⟩
  | @emplace request id isInfer absent =>
      cases stepped
      rw [silent nofun]
      have added : (state.table.emplace id (inferRequest beyond request).kind
          state.now).status id = some
            { requestId := id, state := .running, stage := .decode
              kind := (inferRequest beyond request).kind
              submitNs := state.now } := by
        rw [TimedJobs.status_emplace, if_pos rfl, absent, Option.getD_none]
      refine consistent.install present ?_ (.count isInfer added rfl)
        state.tasks
      refine ⟨fun other => state.table.progresses_emplace _ _ _ _, ?_, le_rfl,
        fun other claims => .inl claims, nofun,
        fun _ member => absurd member List.not_mem_nil⟩
      intro other isNone
      rw [TimedJobs.status_emplace]
      split_ifs with same
      · subst same
        exact .inr ⟨_, rfl⟩
      · exact .inl isNone
  | @count request id st isInfer found kind =>
      cases stepped
      rw [silent nofun]
      have still : TimedJobs.status
          { state.table with submitted := state.table.submitted + 1 } id =
            some st :=
        found
      refine consistent.install present ?_ (.submitStage isInfer still kind)
        state.tasks
      exact .of_status (fun _ => rfl) le_rfl (fun _ => .inl) nofun
  | @submitStage request id st isInfer found kind =>
      cases stepped
      rw [silent nofun]
      refine consistent.install present ?_ (.respond ⟨?_, ?_⟩) _
      · refine .of_status (fun _ => rfl) le_rfl ?_ nofun
        intro other claims
        rw [Thread.claim?] at claims
        dsimp only at claims
        rw [if_pos (Eq.trans isInfer rfl), idIn_inferResponse] at claims
        exact .inl claims
      · intro other asks
        exact absurd (isInfer.symm.trans asks.route) (by decide)
      · exact fun _ => ⟨id, st, rfl, found, kind⟩
  | @lookUp request id asks =>
      cases stepped
      rw [silent nofun]
      refine consistent.install present ?_ (.respond ⟨?_, ?_⟩) state.tasks
      · refine .of_status (fun _ => rfl) le_rfl ?_ nofun
        intro other claims
        rw [Thread.claim?] at claims
        dsimp only at claims
        rw [asks.route, if_neg (by decide)] at claims
        cases claims
      · intro other asksOther
        obtain rfl : id = other :=
          Option.some.inj (asks.id.symm.trans asksOther.id)
        refine ⟨_, rfl, fun st found => TimedJobs.requestId_of_status found,
          .refl _, ?_⟩
        intro asked first before
        rw [List.append_nil] at before
        obtain ⟨earlier, sublist⟩ := before
        exact consistent.knows (sublist.mem List.mem_cons_self) id
      · intro isInfer
        exact absurd (isInfer.symm.trans asks.route) (by decide)
  | loadSubmitted route =>
      cases stepped
      rw [silent nofun]
      refine consistent.install present ?_ (.loadCompleted _ route) state.tasks
      exact .of_status (fun _ => rfl) le_rfl (fun _ => .inl) nofun
  | @loadCompleted request submitted route =>
      cases stepped
      rw [silent nofun]
      refine consistent.install present ?_ (.respond ⟨?_, ?_⟩) state.tasks
      · refine .of_status (fun _ => rfl) le_rfl ?_ nofun
        intro other claims
        rw [Thread.claim?] at claims
        dsimp only at claims
        rw [route, if_neg (by decide)] at claims
        cases claims
      · intro other asks
        exact absurd (route.symm.trans asks.route) (by decide)
      · intro isInfer
        exact absurd (isInfer.symm.trans route) (by decide)
  | @respond request response reports =>
      cases stepped
      have answered : events state (.advance number) =
          [.answered number request response] := by
        rw [events, present]
      have keeps : Keeps state.table state.table log
          (log ++ [.answered number request response]) number
          (.respond response) := by
        refine ⟨fun _ => .refl _, fun _ _ _ isNone => isNone, ?_⟩
        intro asked first again before
        exact before_of_append (by simp) before
      rw [answered]
      refine consistent.install present ?_ (.sent (reports.keep keeps))
        state.tasks
      refine ⟨fun _ => .refl _, fun _ => .inl, le_rfl, fun _ => .inl, nofun, ?_⟩
      intro event member
      exact ⟨request, response, List.mem_singleton.mp member, rfl, rfl⟩
  | sent reports => cases stepped
  | stageDone p =>
      rw [silent nofun]
      rw [Call.step] at stepped
      cases next : p.next? with
      | some next =>
          rw [next] at stepped
          cases stepped
          refine consistent.install present ?_ (.record p) _
          exact .of_status (fun _ => rfl) le_rfl (fun _ => .inl) nofun
      | none =>
          rw [next] at stepped
          dsimp only at stepped
          split_ifs at stepped
          · cases stepped
            exact consistent.install present
              (.of_progress
                (fun _ => state.table.progresses_markDone p state.now _)
                (fun _ isNone =>
                  TimedJobs.status_markDone_eq_none isNone p state.now)
                (TimedJobs.nextRequestId_markDone _ p _) rfl nofun)
              .observed state.tasks
          · cases stepped
            refine consistent.install present ?_ (.record p) state.tasks
            exact .of_status (fun _ => rfl) le_rfl (fun _ => .inl) nofun
  | record p =>
      cases stepped
      rw [silent nofun]
      exact consistent.install present
        (.of_progress (fun _ => state.table.progresses_recordStage p _)
          (fun _ isNone => TimedJobs.status_recordStage_eq_none isNone p) rfl
          rfl nofun)
        .observed state.tasks
  | observed => cases stepped

/-- A thread begins. -/
theorem Consistent.begin (consistent : Consistent beyond state log)
    (fits : Fits beyond state.table (log ++ new) state.threads.length
      thread.request thread.call)
    (unclaimed : thread.claim? = none)
    (fresh : ∀ event ∈ new, ∃ request,
      event = .asked state.threads.length request) :
    Consistent beyond { state with threads := state.threads ++ [thread] }
      (log ++ new) := by
  have lookup : ∀ (other : Nat) (one : Thread),
      (state.threads ++ [thread])[other]? = some one →
        (other = state.threads.length ∧ one = thread) ∨
          (other < state.threads.length ∧
            state.threads[other]? = some one) := by
    intro other one found
    rcases Nat.lt_or_ge other state.threads.length with inside | beyondAll
    · rw [List.getElem?_append_left inside] at found
      exact .inr ⟨inside, found⟩
    · rw [List.getElem?_append_right beyondAll, List.getElem?_singleton] at found
      split_ifs at found with first
      · exact .inl ⟨by omega, (Option.some.inj found).symm⟩
  refine ⟨consistent.positive, consistent.fresh, ?_, ?_, ?_, ?_, ?_⟩
  · intro other one found
    rcases lookup other one found with ⟨rfl, rfl⟩ | ⟨inside, old⟩
    · exact fits
    · refine (consistent.fits other one old).keep
        ⟨fun _ => .refl _, fun _ _ _ isNone => isNone, ?_⟩
      intro asked response request before
      refine before_of_append (fun member => ?_) before
      obtain ⟨_, same⟩ := fresh _ member
      cases same
      exact Nat.lt_irrefl _ inside
  · intro other one found id claims
    rcases lookup other one found with ⟨_, rfl⟩ | ⟨_, old⟩
    · rw [unclaimed] at claims
      cases claims
    · exact consistent.claims other one old id claims
  · intro first second one other id isOne isOther oneClaims otherClaims
    rcases lookup first one isOne with ⟨_, rfl⟩ | ⟨_, oneOld⟩
    · rw [unclaimed] at oneClaims
      cases oneClaims
    · rcases lookup second other isOther with ⟨_, rfl⟩ | ⟨_, otherOld⟩
      · rw [unclaimed] at otherClaims
        cases otherClaims
      · exact consistent.unique first second one other id oneOld otherOld
          oneClaims otherClaims
  · intro other request member
    rw [List.length_append, List.length_singleton]
    rcases List.mem_append.mp member with old | added
    · exact Nat.lt_succ_of_lt (consistent.asked other request old)
    · obtain ⟨_, same⟩ := fresh _ added
      cases same
      exact Nat.lt_succ_self _
  · intro other request response member
    rcases List.mem_append.mp member with old | added
    · have before := consistent.answered other request response old
      rw [List.getElem?_append_left (List.getElem?_eq_some_iff.mp before).1]
      exact before
    · obtain ⟨_, same⟩ := fresh _ added
      cases same

theorem consistent_step {action : Action} {following : State}
    (consistent : Consistent beyond state log)
    (stepped : (api beyond stats).step state action = some following) :
    Consistent beyond following (log ++ events state action) := by
  cases action with
  | pass ns =>
      cases stepped
      have quiet : events state (.pass ns) = [] := rfl
      rw [quiet, List.append_nil]
      exact ⟨consistent.positive, consistent.fresh, consistent.fits,
        consistent.claims, consistent.unique, consistent.asked,
        consistent.answered⟩
  | ask request =>
      cases stepped
      exact consistent.begin (.handle request) rfl
        fun event member => ⟨request, List.mem_singleton.mp member⟩
  | observe p =>
      cases stepped
      exact consistent.begin (.stageDone p) rfl
        fun _ member => absurd member List.not_mem_nil
  | advance number =>
      rw [api] at stepped
      dsimp only [State.step] at stepped
      split at stepped
      · cases stepped
      · rename_i thread present
        obtain ⟨⟨table, tasks, call⟩, moved, rfl⟩ :=
          Option.map_eq_some_iff.mp stepped
        exact consistent.advance present moved

theorem consistent_start : Consistent beyond {} [] where
  positive := Nat.one_pos
  fresh _ _ := rfl
  fits _ _ found := nomatch found
  claims _ _ found := nomatch found
  unique _ _ _ _ _ found := nomatch found
  asked _ _ member := absurd member List.not_mem_nil
  answered _ _ _ member := absurd member List.not_mem_nil

theorem consistent_of_reachable
    (reached : ((api beyond stats).logged events).Reachable (state, log)) :
    Consistent beyond state log := by
  refine Machine.Reachable.logged_invariant ?_ ?_ reached
  · rintro _ rfl
    exact consistent_start
  · intro state log action following _ consistent stepped
    exact consistent_step consistent stepped

end Step

/-! ## What a client may rely on -/

/-- A request for a status that is sent after some other response has arrived
is answered with an entry that bears out what that response said. -/
theorem answered_knows {state : State} {log : List Event}
    (reached : ((api beyond stats).logged events).Reachable (state, log))
    {earlier later : Nat} {asked again : HttpRequest}
    {first second : HttpResponse} {id : Nat} (asks : AsksFor again id)
    (order : List.Sublist [.answered earlier asked first, .asked later again,
      .answered later again second] log) :
    ∃ found, second = statusResponse found ∧
      (∀ st ∈ found, st.requestId = id) ∧
      Knows beyond asked first id found := by
  have consistent := consistent_of_reachable reached
  have fits := consistent.fits _ _ (consistent.answered later again second
    (order.mem (by simp)))
  dsimp only at fits
  cases fits with
  | sent reports =>
      obtain ⟨found, same, ids, _, knows⟩ := reports.status id asks
      refine ⟨found, same, ids, knows asked first ⟨earlier, ?_⟩⟩
      exact (List.take_sublist 2 _).trans order

/-- An entry that is done is answered as such. -/
theorem statusResponse_of_done {st : TimedStatus} (isDone : st.state = .done) :
    statusResponse (some st) =
      doneResponse st.requestId st.stage (st.latencyNs / 1000) := by
  rw [statusResponse, isDone]
  rfl

/-- Names have no quotes in them. -/
theorem notMem_stateName (state : JobState) : 34 ∉ stateName state := by
  rw [stateName]
  split_ifs <;> decide

theorem notMem_stageName (stage : Stage) : 34 ∉ stageName stage := by
  rw [stageName]
  split_ifs <;> decide

/-- An answer that says done can be read back. -/
theorem done_of_statusResponse {found : Option TimedStatus} {id : Nat}
    {stage : Stage} {latencyUs : Nat}
    (same : doneResponse id stage latencyUs = statusResponse found) :
    ∃ st, found = some st ∧ st.state = .done ∧
      st.latencyNs / 1000 = latencyUs := by
  cases found with
  | none =>
      have status := congrArg HttpResponse.status same
      cases status
  | some st =>
      have body := List.append_cancel_left
        (congrArg HttpResponse.body same)
      have comma : digitIn 10 44 = none := by decide
      obtain ⟨_, afterId⟩ := append_mark_inj (notMem_decimal comma id)
        (notMem_decimal comma st.requestId) body
      have afterField : ascii "done" ++ 34 :: (ascii ",\"stage\":\"" ++
            (stageName stage ++ 34 :: (ascii ",\"latency_us\":" ++
              (decimal latencyUs ++ ascii "\x7d")))) =
          stateName st.state ++ 34 :: (ascii ",\"stage\":\"" ++
            (stageName st.stage ++ 34 :: (ascii ",\"latency_us\":" ++
              (decimal (st.latencyNs / 1000) ++ ascii "\x7d")))) :=
        List.append_cancel_left afterId
      obtain ⟨name, afterState⟩ := append_mark_inj (by decide)
        (notMem_stateName st.state) afterField
      have isDone : st.state = .done := by
        by_contra running
        rw [stateName, if_neg running] at name
        revert name
        decide
      obtain ⟨_, afterStage⟩ := append_mark_inj (notMem_stageName stage)
        (notMem_stageName st.stage) (List.append_cancel_left afterState)
      have latency := List.append_cancel_right
        (List.append_cancel_left afterStage)
      exact ⟨st, rfl, isDone, (decimal_injective latency).symm⟩

/-- A request for a status that is sent after some other response has arrived:
a request whose id was given out is known, one that was known is known again,
and one that was done is done with the same latency. -/
theorem answers_progress (beyond : Bytes → Int32)
    (stats : Nat → Nat → HttpResponse) {state : State} {log : List Event}
    (reached : ((api beyond stats).logged events).Reachable (state, log))
    {earlier later : Nat} {asked again : HttpRequest}
    {first second : HttpResponse} {id : Nat} (asks : AsksFor again id)
    (order : List.Sublist [.answered earlier asked first, .asked later again,
      .answered later again second] log) :
    (IsInfer asked → idIn first = id → second.status = 200) ∧
    (AsksFor asked id → first.status = 200 → second.status = 200) ∧
    (∀ stage latencyUs, AsksFor asked id →
      first = doneResponse id stage latencyUs →
        ∃ stage', second = doneResponse id stage' latencyUs) ∧
    (second.status = 200 → idIn second = id) := by
  obtain ⟨found, rfl, ids, knows⟩ := answered_knows reached asks order
  refine ⟨?_, ?_, ?_, ?_⟩
  · intro isInfer sameId
    obtain ⟨st, rfl, _⟩ := knows.infer isInfer sameId
    rfl
  · intro asksBefore known
    obtain ⟨before, rfl, progresses⟩ := knows.status asksBefore
    cases before with
    | none => cases known
    | some old =>
        obtain ⟨st, isFound, _⟩ := progresses old rfl
        obtain rfl : found = some st := isFound
        rfl
  · intro stage latencyUs asksBefore saysDone
    obtain ⟨before, isBefore, progresses⟩ := knows.status asksBefore
    obtain ⟨old, rfl, wasDone, latency⟩ :=
      done_of_statusResponse (saysDone.symm.trans isBefore)
    obtain ⟨st, isFound, follows⟩ := progresses old rfl
    obtain rfl : found = some st := isFound
    obtain ⟨isDone, sameFinish⟩ := follows.done wasDone
    refine ⟨st.stage, ?_⟩
    rw [statusResponse_of_done isDone, ids st rfl, ← latency,
      TimedStatus.latencyNs, TimedStatus.latencyNs, sameFinish,
      follows.submitNs]
  · intro known
    cases found with
    | none => cases known
    | some st =>
        rw [idIn_statusResponse, ids st rfl]

/-- A client that asks for a job. -/
def posting : HttpRequest where
  method := ascii "POST"
  path := ascii "/infer"
  query := fun _ => none
  body := []

/-- A client that asks for the status of the first request. -/
def polling : HttpRequest where
  method := ascii "GET"
  path := ascii "/status"
  query name := if name = ascii "id" then some (ascii "1") else none
  body := []

/-- A stage of the first request, once `posting` has been answered. -/
def postedStage (stage : Stage) : StagePayload :=
  { (inferRequest (fun _ => 0) posting).payload 1 with stage := stage }

/-- All stages of a job end, the callback of the second one late, and the
client asks before that and after it. -/
def lateRun : List Action :=
  [.ask posting, .advance 0, .advance 0, .advance 0, .advance 0, .advance 0,
    .advance 0, .pass 2000, .observe (postedStage .decode), .advance 1,
    .advance 1, .observe (postedStage .preprocess), .advance 2,
    .observe (postedStage .infer), .advance 3, .advance 3,
    .observe (postedStage .postprocess), .advance 4,
    .ask polling, .advance 5, .advance 5, .advance 5, .advance 2,
    .ask polling, .advance 6, .advance 6, .advance 6]

/-- The stage goes back, the rest stays. -/
def lateLog : List Event :=
  [.asked 0 posting, .answered 0 posting (inferResponse 1 .imageClassifier),
    .asked 5 polling, .answered 5 polling (doneResponse 1 .postprocess 2),
    .asked 6 polling, .answered 6 polling (doneResponse 1 .infer 2)]

/-- The request is known once its id was given out, and it stays done. -/
theorem answers_progress_late : ∃ state,
    ((api (fun _ => 0) fun _ _ => {}).logged events).Reachable
        (state, lateLog) ∧
      (doneResponse 1 .postprocess 2).status = 200 ∧
      ∃ stage, doneResponse 1 .infer 2 = doneResponse 1 stage 2 := by
  have starts : ((api (fun _ => 0) fun _ _ => {}).logged events).initial
      ({}, []) := ⟨rfl, rfl⟩
  have reached := Machine.reachable_of_run lateRun starts rfl
  have asksFor : AsksFor polling 1 := ⟨rfl, rfl⟩
  obtain ⟨known, _⟩ := answers_progress (fun _ => 0) _ reached asksFor
    (.cons _ (.cons_cons _ (.cons_cons _ (.cons_cons _ (.cons _
      (.cons _ .slnil))))))
  obtain ⟨_, _, staysDone, _⟩ := answers_progress (fun _ => 0) _ reached
    asksFor (.cons _ (.cons _ (.cons _ (.cons_cons _ (.cons_cons _
      (.cons_cons _ .slnil))))))
  exact ⟨_, reached, known rfl (idIn_inferResponse 1 _),
    staysDone .postprocess 2 asksFor rfl⟩

/-- A job is asked for and asked about, and meanwhile another one is asked
for. -/
def pollingRun : List Action :=
  [.ask posting, .advance 0, .advance 0, .advance 0, .advance 0, .advance 0,
    .advance 0, .ask polling, .ask posting, .advance 1, .advance 2, .advance 2,
    .advance 1, .advance 2, .advance 2, .advance 2, .advance 2, .advance 1]

def firstStatus : TimedStatus where
  requestId := 1
  state := .running
  stage := .decode
  kind := .imageClassifier

def pollingLog : List Event :=
  [.asked 0 posting, .answered 0 posting (inferResponse 1 .imageClassifier),
    .asked 1 polling, .asked 2 posting,
    .answered 2 posting (inferResponse 2 .imageClassifier),
    .answered 1 polling (statusResponse (some firstStatus))]

theorem pollingLog_reachable : ∃ state,
    ((api (fun _ => 0) fun _ _ => {}).logged events).Reachable
      (state, pollingLog) := by
  have starts : ((api (fun _ => 0) fun _ _ => {}).logged events).initial
      ({}, []) := ⟨rfl, rfl⟩
  exact ⟨_, Machine.reachable_of_run pollingRun starts rfl⟩

/-- The ids that clients get are positive and all different, as long as there
are fewer than 2^64 of them. -/
theorem request_ids_distinct (beyond : Bytes → Int32)
    (stats : Nat → Nat → HttpResponse) {state : State} {log : List Event}
    (reached : ((api beyond stats).logged events).Reachable (state, log))
    {one other : Nat} {asked again : HttpRequest}
    {first second : HttpResponse} (different : one ≠ other)
    (isInfer : IsInfer asked) (alsoInfer : IsInfer again)
    (answered : .answered one asked first ∈ log)
    (alsoAnswered : .answered other again second ∈ log) :
    0 < idIn first ∧ idIn first ≠ idIn second := by
  have consistent := consistent_of_reachable reached
  have present := consistent.answered one asked first answered
  have alsoPresent := consistent.answered other again second alsoAnswered
  have claim : ∀ {request : HttpRequest} {response : HttpResponse},
      IsInfer request → Thread.claim? ⟨some request, .sent response⟩ =
        some (idIn response).toNat := by
    intro request response isInfer
    rw [Thread.claim?]
    exact if_pos isInfer
  have positive := (consistent.claims _ _ present _ (claim isInfer)).1
  refine ⟨by omega, fun same => different ?_⟩
  exact consistent.unique one other _ _ _ present alsoPresent (claim isInfer)
    (by rw [claim alsoInfer, same])

theorem request_ids_distinct_polling : ∃ state,
    ((api (fun _ => 0) fun _ _ => {}).logged events).Reachable
        (state, pollingLog) ∧
      0 < idIn (inferResponse 1 .imageClassifier) ∧
      idIn (inferResponse 1 .imageClassifier) ≠
        idIn (inferResponse 2 .imageClassifier) := by
  obtain ⟨state, reached⟩ := pollingLog_reachable
  refine ⟨state, reached, request_ids_distinct (fun _ => 0) _ reached
    (by decide : 0 ≠ 2) (rfl : IsInfer posting) (rfl : IsInfer posting) ?_ ?_⟩
  · exact .tail _ (.head _)
  · exact .tail _ (.tail _ (.tail _ (.tail _ (.head _))))

end Api

end HydraRT.Inference
