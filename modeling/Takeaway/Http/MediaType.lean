/-!
Media types: which values of the content type header say that a body is JSON.
-/

namespace Takeaway.Http

/-- The characters of the names in a media type. -/
def isNameChar (c : Char) : Bool :=
  c.isAlphanum || "!#$%&'*+-.^_`|~".toList.contains c

/-- Where a reader stands among the parameters of a media type. -/
inductive Parameters where
  /-- Before a name, of which some has been read or not. -/
  | name (begun : Bool)
  /-- In a value without quotes, of which some has been read or not. -/
  | value (begun : Bool)
  /-- In a value in quotes, of which some has been read or not. -/
  | quoted (begun : Bool)
  /-- Behind a value in quotes. -/
  | behind
deriving DecidableEq

/-- The step over one character, unless it must not stand there. -/
def Parameters.next (p : Parameters) (c : Char) : Option Parameters :=
  match p with
  | .name begun =>
    if c = ' ' ∧ !begun then some (.name false)
    else if isNameChar c then some (.name true)
    else if c = '=' ∧ begun then some (.value false)
    else none
  | .value begun =>
    if c = '"' ∧ !begun then some (.quoted false)
    else if isNameChar c then some (.value true)
    else if c = ';' ∧ begun then some (.name false)
    else none
  | .quoted begun =>
    if c = '"' ∧ begun then some .behind
    else if 31 < c.toNat ∧ c.toNat < 127 then some (.quoted true)
    else none
  | .behind =>
    if c = ';' then some (.name false) else if c = ' ' then some .behind else none

/-- Whether parameters may end there. -/
def Parameters.mayEnd : Parameters → Bool
  | .name begun => !begun
  | .value _ => true
  | .quoted _ => false
  | .behind => true

/-- Whether a text is a row of parameters. -/
def areParameters (s : List Char) : Bool :=
  ((s.foldlM Parameters.next (.name false)).map Parameters.mayEnd).getD false

/-- Whether the second name of a media type says JSON: before the last plus sign, or behind it. -/
def saysJson (s : List Char) : Bool :=
  let suffix := (s.reverse.takeWhile (· != '+')).reverse
  let stem := s.take (s.length - suffix.length - 1)
  if stem.isEmpty then s == "json".toList
  else stem == "json".toList || suffix == "json".toList

/-- Whether a content type is that of JSON. -/
def isJsonType (contentType : String) : Bool :=
  let s := contentType.toList.map Char.toLower
  let first := s.takeWhile isNameChar
  match s.dropWhile isNameChar with
  | '/' :: r =>
    let second := r.takeWhile isNameChar
    let fits := match r.dropWhile isNameChar with
      | [] => true
      | ';' :: ps => areParameters ps
      | _ => false
    first == "application".toList && saysJson second && fits
  | _ => false

end Takeaway.Http
