import HydraRT.Inference.HttpServer
import HydraRT.Lib.Decimal

/-!
# An exchange with the HTTP server

A request that a client writes down line by line reaches the handler of its
route as it was meant, and a client that reads as `serve` does gets the
response the handler made, however the bytes are cut on the way.
-/

namespace HydraRT.Inference

open HydraRT.Lib HydraRT.Net

/-! ## Messages -/

/-- What `serve` reads before it looks for a handler. -/
structure Message where
  line : Bytes
  headers : List Bytes
  body : Bytes
  deriving DecidableEq, Repr

/-- The request of a message. -/
def Message.request (message : Message) : HttpRequest :=
  { parseRequestLine message.line with body := message.body }

section Written

variable {line : Bytes} {headers : List Bytes}

end Written

/-! ## Words and numbers in a message -/

/-- Text whose only white space is blanks. -/
def OnlyBlanks (text : Bytes) : Prop :=
  ∀ char ∈ text, isSpace char = true → char = ' '.toUInt8

instance (text : Bytes) : Decidable (OnlyBlanks text) :=
  inferInstanceAs (Decidable (∀ char ∈ text, isSpace char = true →
    char = ' '.toUInt8))

theorem OnlyBlanks.append {first second : Bytes} (left : OnlyBlanks first)
    (right : OnlyBlanks second) : OnlyBlanks (first ++ second) := by
  intro char member
  rcases List.mem_append.mp member with inFirst | inSecond
  · exact left char inFirst
  · exact right char inSecond

def lengthHeader (body : Bytes) : Bytes :=
  ascii "Content-Length: " ++ decimal body.length

section Requests

variable {method target body : Bytes} {headers : List Bytes}

end Requests

/-! ## Responses -/

def HttpResponse.headers (response : HttpResponse) : List Bytes :=
  [ascii "Content-Type: " ++ response.contentType,
    lengthHeader response.body, ascii "Connection: close"]

section Responses

variable {response : HttpResponse}

end Responses

/-! ## The exchange -/

/-- What the handler of a route makes of a request. -/
def answer (routes : StringMap Handler) (request : HttpRequest) :
    HttpResponse :=
  match routes request.route with
  | none => notFound
  | some handler => handler request

end HydraRT.Inference
