import Takeaway.Http.Basic

/-!
The interface: where things are found, by which methods, what a request has to say, and what is
answered.
-/

namespace Takeaway.Http

open Takeaway.Json (Reader)

/-! ### Places -/

/-- What a path leads to. -/
inductive Place where
  | health
  | metrics
  | orders
  | sweep
  /-- An order, by the segment that gives its number. -/
  | order (number : String)
  | collect (number : String)
  | inventory
deriving DecidableEq

/-- The place that a path leads to; a fixed name goes before a number. A number may be empty in the
middle of a path, where it is no order number, but at its end it is missing. -/
def Place.ofSegments? : List String → Option Place
  | ["", "health"] => some health
  | ["", "metrics"] => some metrics
  | ["", "orders"] => some orders
  | ["", "inventory"] => some inventory
  | ["", "orders", n] =>
    if n = "sweep" then some sweep else if n = "" then none else some (order n)
  | ["", "orders", n, "collect"] => some (collect n)
  | _ => none

/-- Something that can be done. -/
inductive Endpoint where
  | health
  | metrics
  | place
  | list
  | sweep
  | get (number : String)
  | collect (number : String)
  | inventory
  | addInventory
deriving DecidableEq

/-- What is done at a place by getting. -/
def Place.onGet? : Place → Option Endpoint
  | health => some .health
  | metrics => some .metrics
  | orders => some .list
  | order n => some (.get n)
  | inventory => some .inventory
  | sweep | collect _ => none

/-- What is done at a place by posting. -/
def Place.onPost? : Place → Option Endpoint
  | orders => some .place
  | sweep => some .sweep
  | collect n => some (.collect n)
  | inventory => some .addInventory
  | health | metrics | order _ => none

/-- What a request does, or the status by which it is turned away. -/
def endpoint (r : Request) : Except Nat Endpoint :=
  if r.method = "OPTIONS" then .error 200
  else match Place.ofSegments? (segments r.target) with
    | none => .error 404
    | some place =>
      let found :=
        if r.method = "GET" ∨ r.method = "HEAD" then place.onGet?
        else if r.method = "POST" then place.onPost?
        else none
      match found with
      | some e => .ok e
      | none => .error 405

/-! ### What a request says -/

/-- The most bytes that a body may have. -/
def largestBody : Nat := 2 * 1024 * 1024

/-- The value in the body of a request, or the status by which it is turned away. -/
def readBody {α : Type} (read : Reader α) (r : Request) : Except Nat α :=
  if r.contentType.any isJsonType then
    if largestBody < r.body.length then .error 413
    else match Json.decodeBytes read r.body with
      | .ok a => .ok a
      | .error .malformed => .error 400
      | .error .mismatched => .error 422
  else .error 415

/-- Reads who orders what. -/
def orderReader : Reader (CustomerId × List Item) := fun d => do
  let f ← Reader.fields
    [Reader.field "customerId" CustomerId.reader,
     Reader.field "items" (Reader.list Item.reader)] d
  return (← f.get "customerId" CustomerId.reader, ← f.get "items" (Reader.list Item.reader))

/-- The text in a segment, or the status by which the request is turned away. -/
def readSegment (s : String) : Except Nat String :=
  match segmentText? s with
  | some t => .ok t
  | none => .error 400

/-- The order number in a text. -/
def readNumber (s : String) : Except Problem OrderNumber :=
  (OrderNumber.read s).mapError fun _ => .badRequest ("Invalid order number: " ++ s)

/-- The status asked for in a query, or the status by which the request is turned away. -/
def readStatus (target : String) : Except Nat (Option String) :=
  match (query target).filter fun p => p.1 == "status" with
  | [] => .ok none
  | [p] => .ok (some p.2)
  | _ => .error 400

/-- The orders that are asked for: those that wait for units unless told otherwise. -/
def readFilter : Option String → Except Problem OrderFilter
  | none | some "open" => .ok .waiting
  | some "all" => .ok .all
  | some s => .error (.badRequest ("Unknown status filter: " ++ s ++ " (expected open or all)"))

/-! ### What is answered -/

/-- An order as it is shown, with what it misses. -/
def orderDocument (o : Order) : Json :=
  match o.document with
  | .record fs => .record (fs ++ [("missingItems", .list (o.missingItems.map Item.document))])
  | j => j

/-- What is done for a request: it is turned away, or answered, or something is wrong with it. -/
abbrev Reply := ExceptT Problem Flow Response

/-- A reply with what work brings about. -/
def Reply.ofWork {α : Type} (x : Work α) (response : α → Response) : Reply :=
  ExceptT.mk do return ((← x.run).mapError Problem.fault).map response

/-- Goes on with what a request says, or turns it away. -/
def Reply.given {α : Type} (x : Except Nat α) (next : α → Reply) : Reply :=
  match x with
  | .ok a => next a
  | .error status => return { status := status }

/-- Goes on with what a request means, unless something is wrong with it. -/
def Reply.meant {α : Type} (x : Except Problem α) (next : α → Reply) : Reply :=
  match x with
  | .ok a => next a
  | .error p => throw p

/-- The reply of an endpoint. -/
def reply (e : Engine) (topic : String) (r : Request) : Endpoint → Reply
  | .health => return ⟨200, .json (.record [("status", .text "ok"), ("topic", .text topic)])⟩
  | .metrics => return ⟨200, .metrics (← Flow.ask .metrics)⟩
  | .place =>
    .given (readBody orderReader r) fun (customer, items) =>
      .ofWork (e.place customer items) fun o => ⟨201, .json (orderDocument o)⟩
  | .list =>
    .given (readStatus r.target) fun s =>
      .meant (readFilter s) fun f =>
        .ofWork (Work.ofDesk (Desk.list f)) fun os => ⟨200, .json (.list (os.map orderDocument))⟩
  | .sweep =>
    .ofWork e.requestSweep fun _ => ⟨202, .json (.record [("status", .text "accepted")])⟩
  | .get segment =>
    .given (readSegment segment) fun s =>
      .meant (readNumber s) fun n => do
        match ← (Work.ofDesk (Desk.get n)).run with
        | .error f => throw (.fault f)
        | .ok none => throw (.notFound ("Order not found: " ++ n.text))
        | .ok (some o) => return ⟨200, .json (orderDocument o)⟩
  | .collect segment =>
    .given (readSegment segment) fun s =>
      .meant (readNumber s) fun n =>
        .ofWork (e.collect n) fun o => ⟨202, .json (orderDocument o)⟩
  | .inventory => do
    let counts ← Flow.ask .inventory
    return ⟨200, .json (.record (counts.entries.map fun c => (c.1, .int c.2.units)))⟩
  | .addInventory =>
    .given (readBody Item.lineReader r) fun i =>
      .ofWork (e.addInventory i.name i.quantity) fun q =>
        ⟨200, .json (Item.lineDocument ⟨i.name, q⟩)⟩

/-- Answers a request. A problem is counted, a request that is turned away is not. -/
def respond (e : Engine) (topic : String) (r : Request) : Flow Response := do
  let response ← match endpoint r with
    | .error status => pure { status := status }
    | .ok endpoint =>
      match ← (reply e topic r endpoint).run with
      | .ok response => pure response
      | .error p => do
        Flow.count (.apiErrors p.status)
        pure p.response
  return if r.method = "HEAD" then { response with body := .none } else response

end Takeaway.Http
