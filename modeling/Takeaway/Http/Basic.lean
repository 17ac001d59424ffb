import Takeaway.Engine.Basic
import Takeaway.Http.MediaType
import Takeaway.Http.Target

/-!
Requests and responses, and the responses to what went wrong.
-/

namespace Takeaway.Http

/-- A request. -/
structure Request where
  method : String
  target : String
  contentType : Option String := none
  body : Text.Bytes := []
deriving DecidableEq

/-- What a response holds. -/
inductive Body where
  /-- Nothing, or a text for people. -/
  | none
  | json (j : Json)
  /-- The counts of what happened. -/
  | metrics (m : Metrics)

/-- A response. -/
structure Response where
  status : Nat
  body : Body := .none

/-- What is wrong with a request, or went wrong with it. -/
inductive Problem where
  | notFound (text : String)
  | badRequest (text : String)
  | fault (f : Fault)
deriving DecidableEq

namespace Problem

/-- The status that answers to a fault. -/
def faultStatus (f : Fault) : Nat :=
  match f with
  | .refused (.unknownOrder _) => 404
  | .refused (.wrongStatus _ _) => 409
  | f =>
    match f.category with
    | .validation => 400
    | .infrastructure => 503
    | .internal => 500

/-- The status of the response. -/
def status : Problem → Nat
  | notFound _ => 404
  | badRequest _ => 400
  | fault f => faultStatus f

/-- The wording of a problem. -/
def message : Problem → String
  | notFound text => text
  | badRequest text => text
  | fault f => f.message

/-- The response to a problem. -/
def response (p : Problem) : Response :=
  ⟨p.status, .json (.record [("error", .text p.message)])⟩

end Problem

/-- The content type of the counts. -/
def metricsType : String := "text/plain; version=0.0.4; charset=utf-8"

end Takeaway.Http
