import Takeaway.Json.Doc
import Takeaway.Quantity

/-!
Reading values of the domain from JSON documents. A record may be written as a list of its fields
in their order; unknown fields are passed over, a field that stands twice is refused. Of two
mistakes the one that stands first is reported.
-/

namespace Takeaway.Json

open Takeaway.Text

/-- Why a text was not read: it is no JSON, or it is JSON of another shape. -/
inductive Misread where
  | malformed
  | mismatched
deriving DecidableEq

/-- A way to read documents. -/
abbrev Reader (α : Type) := Doc → Except Misread α

namespace Doc

/-! ### Documents that are passed over -/

mutual

/-- Whether a document is complete, whatever it says. -/
def isComplete : Doc → Bool
  | .broken => false
  | .null | .bool _ | .number _ | .text _ => true
  | .list items closed => closed && allComplete items
  | .record members closed => closed && allMembersComplete members

/-- Whether all of the documents are complete. -/
def allComplete : List Doc → Bool
  | [] => true
  | d :: r => d.isComplete && allComplete r

/-- Whether the documents of all members are complete. -/
def allMembersComplete : List (Option String × Doc) → Bool
  | [] => true
  | (_, d) :: r => d.isComplete && allMembersComplete r

end

/-- The mistake in a document of the wrong shape: a value that cannot be read at all is no JSON. -/
def mistake : Doc → Misread
  | .broken | .text none | .number .huge => .malformed
  | _ => .mismatched

end Doc

namespace Reader

/-! ### Single values -/

/-- Reads a text. -/
def text : Reader String
  | .text (some s) => .ok s
  | d => .error d.mistake

/-- Reads a whole number that passes a test. -/
def whole (accept : Int → Bool) : Reader Int
  | .number (.whole n) => if accept n then .ok n else .error .mismatched
  | d => .error d.mistake

/-- Reads a number of units. -/
def quantity : Reader Quantity := fun d => do
  let n ← whole (fun n => decide (0 ≤ n)) d
  match Quantity.ofNat? n.toNat with
  | some q => .ok q
  | none => .error .mismatched

/-- Reads a byte. -/
def byte : Reader UInt8 := fun d => do
  let n ← whole (fun n => decide (0 ≤ n) && decide (n < 256)) d
  return UInt8.ofNat n.toNat

/-- Reads a value or null. -/
def optional {α : Type} (read : Reader α) : Reader (Option α)
  | .null => .ok none
  | d => (read d).map some

/-- Reads a list. -/
def list {α : Type} (read : Reader α) : Reader (List α)
  | .list ds closed => do
    let xs ← ds.mapM read
    if closed then .ok xs else .error .malformed
  | d => .error d.mistake

/-! ### Records -/

/-- A field of a record: its name, whether it may be left out, and what is refused in it. -/
structure Field where
  name : String
  mayMiss : Bool := false
  check : Doc → Except Misread Unit

/-- The field of the given name, read in the given way. -/
def field {α : Type} (name : String) (read : Reader α) : Field :=
  ⟨name, false, fun d => (read d).map fun _ => ()⟩

/-- A field that may be left out. -/
def fieldOr {α : Type} (name : String) (read : Reader α) : Field :=
  ⟨name, true, fun d => (read d).map fun _ => ()⟩

/-- The documents found for the fields of a record, by name. -/
abbrev Found := List (String × Doc)

/-- Walks the members of a record in their order. -/
def findMembers (fs : List Field) (found : Found) :
    List (Option String × Doc) → Except Misread Found
  | [] => .ok found
  | (none, _) :: _ => .error .malformed
  | (some k, d) :: r =>
    match fs.find? (·.name == k) with
    | none => if d.isComplete then findMembers fs found r else .error .malformed
    | some f =>
      if (found.lookup k).isSome then .error .mismatched
      else do
        f.check d
        findMembers fs ((k, d) :: found) r

/-- Walks the items of a list that stands for a record: one for each field. -/
def findItems (closed : Bool) : List Field → List Doc → Except Misread Found
  | [], [] => if closed then .ok [] else .error .malformed
  | [], _ :: _ => .error .malformed
  | _ :: _, [] => .error (if closed then .mismatched else .malformed)
  | f :: fs, d :: ds => do
    f.check d
    let found ← findItems closed fs ds
    return (f.name, d) :: found

/-- The documents of the fields of a record. -/
def fields (fs : List Field) : Reader Found
  | .record members closed => do
    let found ← findMembers fs [] members
    if !closed then .error .malformed
    else if fs.all fun f => f.mayMiss || (found.lookup f.name).isSome then .ok found
    else .error .mismatched
  | .list items closed => findItems closed fs items
  | d => .error d.mistake

/-- Reads the field of the given name among those found. -/
def Found.get {α : Type} (found : Found) (name : String) (read : Reader α) : Except Misread α :=
  match found.lookup name with
  | some d => read d
  | none => .error .mismatched

/-- Reads the field of the given name among those found, if it was not left out. -/
def Found.get? {α : Type} (found : Found) (name : String) (read : Reader α) :
    Except Misread (Option α) :=
  match found.lookup name with
  | some d => (read d).map some
  | none => .ok none

/-- Reads one of the given names: as a text, or as the only key of a record that holds null. -/
def oneOf {α : Type} (named : String → Option α) : Reader α
  | .text (some s) => pick s
  | .record ((some k, d) :: rest) closed => do
    let a ← pick k
    match d with
    | .null => if closed && rest.isEmpty then .ok a else .error .malformed
    | d => .error d.mistake
  | .record ((none, _) :: _) _ => .error .malformed
  | .record [] closed => .error (if closed then .mismatched else .malformed)
  | _ => .error .malformed
where
  /-- The value of a name. -/
  pick (s : String) : Except Misread α :=
    match named s with
    | some a => .ok a
    | none => .error .mismatched

/-- Reads a record of texts whose keys are not fixed; of equal keys the last counts. -/
def texts : Reader (List (String × String))
  | .record members closed => do
    let es ← members.mapM fun (k, d) =>
      match k with
      | some k => (text d).map fun s => (k, s)
      | none => .error .malformed
    if closed then .ok es else .error .malformed
  | d => .error d.mistake

end Reader

/-- Reads a whole text; nothing but blanks may follow the document. -/
def decode {α : Type} (read : Reader α) (s : List Glyph) : Except Misread α := do
  let (d, ends) := Doc.ofGlyphs s
  let a ← read d
  if ends then .ok a else .error .malformed

/-- Reads the text that bytes hold. -/
def decodeBytes {α : Type} (read : Reader α) (b : Bytes) : Except Misread α :=
  decode read (glyphs b)

/-- Reads a text. -/
def decodeText {α : Type} (read : Reader α) (s : String) : Except Misread α :=
  decode read (s.toList.map .char)

end Takeaway.Json
