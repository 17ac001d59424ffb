import Takeaway.Index
import Takeaway.Message.Event
import Takeaway.Message.Failure
import Takeaway.Order.Document
import Takeaway.Text.Utf8
import Takeaway.Time.Timestamp

/-!
Envelopes: what travels between the parts of the system. Two headers are looked at, the tag of the
event and the order number; the payload stays bytes until somebody decodes it.
-/

namespace Takeaway

open Json (Reader)

/-- A message. -/
structure Envelope where
  key : Option String
  headers : Index String String
  payload : Text.Bytes
  time : Timestamp
deriving DecidableEq

namespace Envelope

/-- The header that holds the tag of the event. -/
def eventHeader : String := "event"

/-- The header that holds the order number. -/
def orderHeader : String := "order"

/-! ### Making envelopes -/

/-- An envelope with nothing in it. -/
def blank (time : Timestamp) : Envelope := ⟨none, ∅, [], time⟩

/-- The envelope with a header set, whatever it held before. -/
def withHeader (e : Envelope) (name value : String) : Envelope :=
  { e with headers := e.headers.insert name value }

/-- The envelope with the given tag. -/
def withTag (e : Envelope) (tag : String) : Envelope := e.withHeader eventHeader tag

/-- The envelope with the tag of an event. -/
def withEvent (e : Envelope) (event : Event) : Envelope := e.withTag event.tag

/-- The envelope with the number of an order. -/
def withOrder (e : Envelope) (n : OrderNumber) : Envelope := e.withHeader orderHeader n.text

/-- The envelope with a key. -/
def withKey (e : Envelope) (key : String) : Envelope := { e with key := some key }

/-- The envelope with the given bytes as payload. -/
def withBytes (e : Envelope) (b : Text.Bytes) : Envelope := { e with payload := b }

/-- The envelope with a JSON value as payload. -/
def withJson (e : Envelope) (j : Json) : Envelope := e.withBytes (Text.toBytes j.chars)

/-- The envelope with the given time. -/
def withTime (e : Envelope) (time : Timestamp) : Envelope := { e with time := time }

/-! ### Reading envelopes -/

/-- The value of a header. -/
def header? (e : Envelope) (name : String) : Option String := e.headers.find? name

/-- The value of a header that has to be there. -/
def required (e : Envelope) (name : String) : Except MessageFailure String :=
  match e.header? name with
  | some value => .ok value
  | none => .error (.missingHeader name)

/-- The tag of the event. -/
def tag (e : Envelope) : Except MessageFailure String := e.required eventHeader

/-- The event that the message tells of. -/
def event (e : Envelope) : Except MessageFailure Event := do
  let tag ← e.tag
  match Event.ofTag? tag with
  | some event => .ok event
  | none => .error (.unknownEvent tag)

/-- The number of the order that the message is about. -/
def orderNumber (e : Envelope) : Except MessageFailure OrderNumber := do
  let text ← e.required orderHeader
  (OrderNumber.read text).mapError .invalidOrder

/-- The payload, read in the given way. -/
def decode {α : Type} (e : Envelope) (read : Reader α) : Except MessageFailure α :=
  (Json.decodeBytes read e.payload).mapError .payload

/-! ### Envelopes as documents -/

/-- A byte as a document. -/
def byteDocument (b : UInt8) : Json := .int b.toNat

/-- An envelope as a document. -/
def document (e : Envelope) : Json := .record
  [("key", match e.key with | some k => .text k | none => .null),
   ("headers", .record (e.headers.entries.map fun h => (h.1, .text h.2))),
   ("payload", .list (e.payload.map byteDocument)),
   ("timestamp", .text e.time.text)]

/-- The fields of an envelope. -/
def fields : List Reader.Field :=
  [Reader.fieldOr "key" (Reader.optional Reader.text),
   Reader.field "headers" Reader.texts,
   Reader.field "payload" (Reader.list Reader.byte),
   Reader.field "timestamp" Timestamp.reader]

/-- Reads an envelope. -/
def reader : Reader Envelope := fun d => do
  let f ← Reader.fields fields d
  let key ← f.get? "key" (Reader.optional Reader.text)
  return {
    key := key.join
    headers := Index.ofList (← f.get "headers" Reader.texts)
    payload := ← f.get "payload" (Reader.list Reader.byte)
    time := ← f.get "timestamp" Timestamp.reader }

/-- The text of an envelope. -/
def write (e : Envelope) : String := e.document.render

/-- Reads an envelope back from text. -/
def read (s : String) : Except Json.Misread Envelope := Json.decodeText reader s

end Envelope

end Takeaway
