import Takeaway.Text.Numeral

/-!
JSON values and how they are written: without blanks, the fields of a record in their order, and
in strings only quotes, backslashes and controls escaped.
-/

namespace Takeaway

/-- A JSON value; its numbers are whole. -/
inductive Json where
  | null
  | bool (b : Bool)
  | int (n : Int)
  | text (s : String)
  | list (xs : List Json)
  | record (fields : List (String × Json))

namespace Json

/-- One character as it stands in a JSON string. -/
def escaped (c : Char) : List Char :=
  if c = '"' then ['\\', '"']
  else if c = '\\' then ['\\', '\\']
  else if c = '\n' then ['\\', 'n']
  else if c = '\r' then ['\\', 'r']
  else if c = '\t' then ['\\', 't']
  else if c = '\x08' then ['\\', 'b']
  else if c = '\x0c' then ['\\', 'f']
  else if c.toNat < 32 then
    ['\\', 'u', '0', '0', Text.hexDigit (c.toNat / 16), Text.hexDigit c.toNat]
  else [c]

/-- A JSON string. -/
def string (s : String) : List Char := '"' :: s.toList.flatMap escaped ++ ['"']

mutual

/-- A value as it is written. -/
def chars : Json → List Char
  | .null => ['n', 'u', 'l', 'l']
  | .bool true => ['t', 'r', 'u', 'e']
  | .bool false => ['f', 'a', 'l', 's', 'e']
  | .int n => Text.ofInt n
  | .text s => string s
  | .list xs => '[' :: itemChars xs ++ [']']
  | .record fs => '\x7b' :: fieldChars fs ++ ['\x7d']

/-- The items of a list, with commas between. -/
def itemChars : List Json → List Char
  | [] => []
  | [x] => chars x
  | x :: y :: r => chars x ++ ',' :: itemChars (y :: r)

/-- The fields of a record, with commas between. -/
def fieldChars : List (String × Json) → List Char
  | [] => []
  | [(k, x)] => string k ++ ':' :: chars x
  | (k, x) :: f :: r => string k ++ ':' :: chars x ++ ',' :: fieldChars (f :: r)

end

/-- A value as text. -/
def render (j : Json) : String := String.ofList j.chars

/-- The value under a key of a record. -/
def field? (j : Json) (k : String) : Option Json :=
  match j with
  | .record fs => fs.lookup k
  | _ => none

end Json

end Takeaway
