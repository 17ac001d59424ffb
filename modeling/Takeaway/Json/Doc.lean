import Takeaway.Json.Token
import Takeaway.Json.Value

/-!
What JSON text says, as far as it can be read. A text that breaks off, or goes wrong somewhere,
still has a document: the part before that place, with the lists and records around it left open.
So a reader that walks the document in its order meets a wrong shape and a broken text in the
order in which they stand.
-/

namespace Takeaway.Json

/-- A document as far as it can be read. -/
inductive Doc where
  | broken
  | null
  | bool (b : Bool)
  | number (n : Numeral)
  | text (s : Option String)
  | list (items : List Doc) (closed : Bool)
  | record (members : List (Option String × Doc)) (closed : Bool)

namespace Doc

/-- A list or a record in the making, its parts last first; of a record the key that waits for its
value stands beside. -/
inductive Frame where
  | list (items : List Doc)
  | record (members : List (Option String × Doc)) (key : Option (Option String))

/-- What may come next. -/
inductive Want where
  | value | item | key | member | colon | comma
deriving DecidableEq

/-- A frame as a document. -/
def Frame.close : Frame → Bool → Doc
  | .list items, closed => .list items.reverse closed
  | .record members none, closed => .record members.reverse closed
  | .record members (some k), _ => .record ((k, .broken) :: members).reverse false

/-- A frame with one more part. -/
def Frame.add : Frame → Doc → Frame
  | .list items, d => .list (d :: items)
  | .record members (some k), d => .record ((k, d) :: members) none
  | .record members none, _ => .record members none

/-- The document of a text that goes wrong inside the given frames, the innermost first. -/
def abandon : List Frame → Doc
  | [] => .broken
  | [f] => f.close false
  | f :: g :: r => abandon (g.add (f.close false) :: r)
termination_by s => s.length

/-- Where a reader stands: inside frames, at the end of a document, or at a place where the text
is wrong. -/
inductive State where
  | within (stack : List Frame) (want : Want)
  | complete (d : Doc)
  | lost (d : Doc)

/-- A finished value in its place. -/
def settle (d : Doc) : List Frame → State
  | [] => .complete d
  | f :: r => .within (f.add d :: r) .comma

/-- The step at a place where a value may stand. -/
def onValue (stack : List Frame) (t : Token) : State :=
  match t with
  | .null => settle .null stack
  | .bool b => settle (.bool b) stack
  | .number n => settle (.number n) stack
  | .text s => settle (.text s) stack
  | .listOpen => .within (.list [] :: stack) .item
  | .recordOpen => .within (.record [] none :: stack) .member
  | _ => .lost (abandon stack)

/-- The step at a place where a key may stand. -/
def onKey (stack : List Frame) (t : Token) : State :=
  match t, stack with
  | .text s, .record members none :: r => .within (.record members (some s) :: r) .colon
  | _, _ => .lost (abandon stack)

/-- The step at the closing bracket of the innermost frame. -/
def onClose (stack : List Frame) (t : Token) : State :=
  match t, stack with
  | .listClose, .list items :: r => settle ((Frame.list items).close true) r
  | .recordClose, .record members none :: r => settle ((Frame.record members none).close true) r
  | _, _ => .lost (abandon stack)

/-- The step behind a finished part of the innermost frame. -/
def onComma (stack : List Frame) (t : Token) : State :=
  match t, stack with
  | .comma, .list items :: r => .within (.list items :: r) .value
  | .comma, .record members none :: r => .within (.record members none :: r) .key
  | t, stack => onClose stack t

/-- What one token does. -/
def step (stack : List Frame) (want : Want) (t : Token) : State :=
  match want with
  | .value => onValue stack t
  | .item => if t = .listClose then onClose stack t else onValue stack t
  | .key => onKey stack t
  | .member => if t = .recordClose then onClose stack t else onKey stack t
  | .colon => if t = .colon then .within stack .value else .lost (abandon stack)
  | .comma => onComma stack t

/-- The document that tokens begin with, and whether nothing follows it. -/
def build (stack : List Frame) (want : Want) : List Token → Doc × Bool
  | [] => (abandon stack, true)
  | t :: r =>
    match step stack want t with
    | .within stack want => build stack want r
    | .complete d => (d, r.isEmpty)
    | .lost d => (d, true)

/-- The document of a text, and whether nothing follows it. -/
def ofGlyphs (s : List Text.Glyph) : Doc × Bool := build [] .value (tokens s)

end Doc

mutual

/-- What is read of a value that was written. -/
def doc : Json → Doc
  | .null => .null
  | .bool b => .bool b
  | .int n => .number (.whole n)
  | .text s => .text (some s)
  | .list xs => .list (docs xs) true
  | .record fs => .record (members fs) true

/-- What is read of the items of a list. -/
def docs : List Json → List Doc
  | [] => []
  | x :: r => doc x :: docs r

/-- What is read of the fields of a record. -/
def members : List (String × Json) → List (Option String × Doc)
  | [] => []
  | (k, x) :: r => (some k, doc x) :: members r

end

end Takeaway.Json
