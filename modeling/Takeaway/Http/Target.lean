import Takeaway.Text.Numeral
import Takeaway.Text.Utf8

/-!
Request targets: the segments of a path, with what stands behind percent signs, and the pairs of
a query. A percent sign without two hexadecimal digits behind it stands for itself.
-/

namespace Takeaway.Http

open Takeaway.Text

/-- Splits a text at every occurrence of a character. -/
def splitAt (c : Char) : List Char → List (List Char)
  | [] => [[]]
  | d :: r =>
    if d = c then [] :: splitAt c r
    else match splitAt c r with
      | [] => [[d]]
      | s :: ss => (d :: s) :: ss

/-- A text up to the first occurrence of a character, and what stands behind that. -/
def cutAt (c : Char) (s : List Char) : List Char × Option (List Char) :=
  (s.takeWhile (· != c),
    match s.dropWhile (· != c) with
    | [] => none
    | _ :: r => some r)

/-- The bytes of a text in which percent signs stand before bytes in hexadecimal; the next `skip`
characters belong to one that was read. -/
def unescapeFrom (skip : Nat) : List Char → Bytes
  | [] => []
  | c :: r =>
    match skip with
    | skip + 1 => unescapeFrom skip r
    | 0 =>
      match if c = '%' then (r[0]?.bind hexValue?, r[1]?.bind hexValue?) else (none, none) with
      | (some a, some b) => UInt8.ofNat (16 * a + b) :: unescapeFrom 2 r
      | _ => String.utf8EncodeChar c ++ unescapeFrom 0 r

/-- The bytes of a text with percent signs. -/
def unescape (s : List Char) : Bytes := unescapeFrom 0 s

/-- A target without its fragment. -/
def beforeFragment (target : String) : List Char := (cutAt '#' target.toList).1

/-- The segments of the path of a target, as they are written; the first is what stands before
the first slash. -/
def segments (target : String) : List String :=
  (splitAt '/' (cutAt '?' (beforeFragment target)).1).map String.ofList

/-- The text that a segment stands for, unless it is no UTF-8. -/
def segmentText? (s : String) : Option String := ofBytes? (unescape s.toList)

/-- The text that a part of a query stands for: a plus sign is a blank, and what is no UTF-8 is
replaced. -/
def formText (s : List Char) : String :=
  ofBytesReplacing (unescape (s.map fun c => if c = '+' then ' ' else c))

/-- The names and values in the query of a target; a name alone has an empty value. -/
def query (target : String) : List (String × String) :=
  let parts := splitAt '&' ((cutAt '?' (beforeFragment target)).2.getD [])
  (parts.filter fun p => !p.isEmpty).map fun p =>
    let (name, value) := cutAt '=' p
    (formText name, formText (value.getD []))

end Takeaway.Http
