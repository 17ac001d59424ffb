import Takeaway.Text.Numeral
import Takeaway.Text.Utf8

/-!
The tokens of JSON text. The scanner takes one glyph at a time; at the first place where the text
can be no JSON it leaves the token `broken` and stops.
-/

namespace Takeaway.Json

open Takeaway.Text

/-- What a number stands for, as far as reading whole numbers has to know. -/
inductive Numeral where
  /-- Written without fraction and exponent, and not as a negative zero. -/
  | whole (n : Int)
  /-- Written with a fraction or an exponent, or as a negative zero. -/
  | fractional
  /-- Too large for a double. -/
  | huge
deriving DecidableEq

/-- A token of JSON text. A string that is well delimited but stands for no text, since it holds
a stray byte or half of a surrogate pair, is `text none`. -/
inductive Token where
  | listOpen | listClose | recordOpen | recordClose | comma | colon
  | null | bool (b : Bool)
  | number (n : Numeral)
  | text (s : Option String)
  | broken
deriving DecidableEq

/-! ### Numbers -/

/-- How far a number has been scanned. -/
inductive Figure.Phase where
  | sign | zero | whole | point | fraction | mark | markSign | power
deriving DecidableEq

/-- A number in the making: its digits, how many of them follow the point, and its exponent. -/
structure Figure where
  phase : Figure.Phase
  negative : Bool
  digits : Nat := 0
  places : Nat := 0
  powerNegative : Bool := false
  power : Nat := 0

namespace Figure

/-- Whether the number would round to a double above the largest one. Its decimal length decides,
except between 10^308 and 10^310. -/
def isHuge (f : Figure) : Bool :=
  let scale : Int := (if f.powerNegative then -(f.power : Int) else f.power) - f.places
  let length : Int := (ofNat f.digits).length + scale
  f.digits != 0 && (decide (310 < length) || (decide (308 < length) &&
    decide ((Nat.pow 2 1024 - Nat.pow 2 970) * Nat.pow 10 (-scale).toNat ≤
      f.digits * Nat.pow 10 scale.toNat)))

/-- The number that has been scanned, if it may end here. -/
def finish? (f : Figure) : Option Numeral :=
  match f.phase with
  | .zero => some (if f.negative then .fractional else .whole 0)
  | .whole =>
    some (if f.isHuge then .huge else .whole (if f.negative then -(f.digits : Int) else f.digits))
  | .fraction | .power => some (if f.isHuge then .huge else .fractional)
  | _ => none

/-- One more digit before the exponent. -/
def push (f : Figure) (d : Nat) (phase : Phase) : Figure :=
  { f with
    phase, digits := 10 * f.digits + d
    places := if phase = .fraction then f.places + 1 else f.places }

/-- What a character does to a number: it goes on, it is over, or it is none. -/
inductive Next where
  | more (f : Figure)
  | over
  | wrong

/-- The number with one more character. -/
def next (f : Figure) (c : Char) : Next :=
  match f.phase, digit? c with
  | .sign, some d => .more (f.push d (if d = 0 then .zero else .whole))
  | .zero, some _ => .wrong
  | .whole, some d => .more (f.push d .whole)
  | .point, some d | .fraction, some d => .more (f.push d .fraction)
  | .mark, some d | .markSign, some d | .power, some d =>
    .more { f with phase := .power, power := 10 * f.power + d }
  | .zero, none | .whole, none =>
    if c = '.' then .more { f with phase := .point }
    else if c = 'e' ∨ c = 'E' then .more { f with phase := .mark }
    else .over
  | .fraction, none => if c = 'e' ∨ c = 'E' then .more { f with phase := .mark } else .over
  | .mark, none =>
    if c = '+' then .more { f with phase := .markSign }
    else if c = '-' then .more { f with phase := .markSign, powerNegative := true }
    else .wrong
  | .power, none => .over
  | .sign, none | .point, none | .markSign, none => .wrong

end Figure

/-! ### Strings -/

/-- A piece of a string: a character, a unit of UTF-16, or a stray byte. -/
inductive Piece where
  | char (c : Char)
  | unit (n : Nat)
  | stray
deriving DecidableEq

/-- The characters of a row of pieces. Two units of a surrogate pair make one character; a stray
byte or half a pair makes none. -/
def Piece.chars? : List Piece → Option (List Char)
  | [] => some []
  | .char c :: r => (Piece.chars? r).map (c :: ·)
  | .stray :: _ => none
  | .unit n :: r =>
    if 0xD800 ≤ n ∧ n < 0xDC00 then
      match r with
      | .unit m :: r =>
        if 0xDC00 ≤ m ∧ m < 0xE000 then
          (Piece.chars? r).map (Char.ofNat (0x10000 + (n - 0xD800) * 0x400 + (m - 0xDC00)) :: ·)
        else none
      | _ => none
    else if 0xDC00 ≤ n ∧ n < 0xE000 then none
    else (Piece.chars? r).map (Char.ofNat n :: ·)

/-- The character that a backslash and a letter stand for. -/
def escape? (c : Char) : Option Char :=
  if c = '"' ∨ c = '\\' ∨ c = '/' then some c
  else if c = 'b' then some '\x08'
  else if c = 'f' then some '\x0c'
  else if c = 'n' then some '\n'
  else if c = 'r' then some '\r'
  else if c = 't' then some '\t'
  else none

/-! ### The scanner -/

/-- Where the scanner stands. Pieces are kept last first. -/
inductive Scan where
  | ground
  | number (f : Figure)
  | word (left : List Char) (t : Token)
  | text (seen : List Piece)
  | escape (seen : List Piece)
  | code (seen : List Piece) (count value : Nat)
  | stopped

namespace Scan

/-- The step from between two tokens. -/
def start (g : Glyph) : List Token × Scan :=
  match g with
  | .stray _ => ([.broken], .stopped)
  | .char c =>
    if c = ' ' ∨ c = '\n' ∨ c = '\t' ∨ c = '\r' then ([], .ground)
    else if c = '[' then ([.listOpen], .ground)
    else if c = ']' then ([.listClose], .ground)
    else if c = '\x7b' then ([.recordOpen], .ground)
    else if c = '\x7d' then ([.recordClose], .ground)
    else if c = ',' then ([.comma], .ground)
    else if c = ':' then ([.colon], .ground)
    else if c = '"' then ([], .text [])
    else if c = 'n' then ([], .word ['u', 'l', 'l'] .null)
    else if c = 't' then ([], .word ['r', 'u', 'e'] (.bool true))
    else if c = 'f' then ([], .word ['a', 'l', 's', 'e'] (.bool false))
    else if c = '-' then ([], .number ⟨.sign, true, 0, 0, false, 0⟩)
    else match (Figure.mk .sign false 0 0 false 0).next c with
      | .more f => ([], .number f)
      | _ => ([.broken], .stopped)

/-- The step inside a string. -/
def inText (seen : List Piece) (g : Glyph) : List Token × Scan :=
  match g with
  | .stray _ => ([], .text (.stray :: seen))
  | .char c =>
    if c = '"' then ([.text ((Piece.chars? seen.reverse).map String.ofList)], .ground)
    else if c = '\\' then ([], .escape seen)
    else if c.toNat < 32 then ([.broken], .stopped)
    else ([], .text (.char c :: seen))

/-- The step after a backslash. -/
def inEscape (seen : List Piece) (g : Glyph) : List Token × Scan :=
  match g with
  | .stray _ => ([.broken], .stopped)
  | .char c =>
    if c = 'u' then ([], .code seen 0 0)
    else match escape? c with
      | some d => ([], .text (.char d :: seen))
      | none => ([.broken], .stopped)

/-- The step inside the four digits of an escaped unit. -/
def inCode (seen : List Piece) (count value : Nat) (g : Glyph) : List Token × Scan :=
  match g with
  | .stray _ => ([.broken], .stopped)
  | .char c =>
    match hexValue? c with
    | none => ([.broken], .stopped)
    | some d =>
      let value := 16 * value + d
      if count = 3 then ([], .text (.unit value :: seen)) else ([], .code seen (count + 1) value)

/-- The step inside a number: a character that ends it is looked at again from between tokens. -/
def inNumber (f : Figure) (g : Glyph) : List Token × Scan :=
  let next := match g with
    | .char c => f.next c
    | .stray _ => .over
  match next with
  | .more f => ([], .number f)
  | .wrong => ([.broken], .stopped)
  | .over =>
    match f.finish? with
    | some n => ((.number n :: (start g).1), (start g).2)
    | none => ([.broken], .stopped)

/-- The step inside a word that has the characters `left` still to come. -/
def inWord (left : List Char) (t : Token) (g : Glyph) : List Token × Scan :=
  match left with
  | [] => ([.broken], .stopped)
  | c :: r =>
    if g = .char c then (if r.isEmpty then ([t], .ground) else ([], .word r t))
    else ([.broken], .stopped)

/-- What one glyph adds to the tokens, and where it leaves the scanner. -/
def step : Scan → Glyph → List Token × Scan
  | .ground, g => start g
  | .number f, g => inNumber f g
  | .word left t, g => inWord left t g
  | .text seen, g => inText seen g
  | .escape seen, g => inEscape seen g
  | .code seen count value, g => inCode seen count value g
  | .stopped, _ => ([], .stopped)

/-- What the end of the text adds to the tokens. -/
def finish : Scan → List Token
  | .ground | .stopped => []
  | .number f => [(f.finish?.map Token.number).getD .broken]
  | _ => [.broken]

/-- The tokens of the rest of a text. -/
def run : Scan → List Glyph → List Token
  | s, [] => s.finish
  | s, g :: r => (s.step g).1 ++ run (s.step g).2 r

end Scan

/-- The tokens of a text. -/
def tokens (s : List Glyph) : List Token := Scan.run .ground s

end Takeaway.Json
