import Takeaway.Text.Numeral

/-!
Binary floating-point numbers of 64 bits, as far as a scale needs them: rounding a ratio to the
nearest double, half way to the even one, reading decimal text, and the bits of a double.
-/

namespace Takeaway

/-- A double. A finite one is `mantissa * 2 ^ power` in units of 2^-1074. -/
inductive Double where
  | nan
  | infinite (negative : Bool)
  | finite (negative : Bool) (mantissa power : Nat)
deriving DecidableEq

namespace Double

/-- A ratio rounded to a whole number, half way to the even one. -/
def halfEven (num den : Nat) : Nat :=
  let q := num / den
  let r := num % den
  if 2 * r < den then q else if den < 2 * r then q + 1 else q + q % 2

/-- The double nearest to a ratio. -/
def ofRatio (negative : Bool) (num den : Nat) : Double :=
  let num := num * Nat.pow 2 1074
  let power := (num / den).log2 - 52
  let mantissa := halfEven num (den * Nat.pow 2 power)
  let (mantissa, power) :=
    if mantissa = Nat.pow 2 53 then (Nat.pow 2 52, power + 1) else (mantissa, power)
  if 2045 < power then .infinite negative else .finite negative mantissa power

/-- The double nearest to a number. -/
def ofNat (n : Nat) : Double := ofRatio false n 1

/-- The size of a finite double in units of 2^-1074. -/
def units : Double → Nat
  | .finite _ m p => m * Nat.pow 2 p
  | _ => 0

/-- Whether a double is finite and not below zero. -/
def isScale : Double → Bool
  | .finite negative m _ => !negative || m == 0
  | _ => false

/-- Whether a double is finite and above zero. -/
def isPositive : Double → Bool
  | .finite negative m _ => !negative && m != 0
  | _ => false

/-- The sum of two finite doubles that are not below zero. -/
def sum (a b : Double) : Double := ofRatio false (a.units + b.units) (Nat.pow 2 1074)

/-- The product of two finite doubles that are not below zero. -/
def product (a b : Double) : Double := ofRatio false (a.units * b.units) (Nat.pow 2 2148)

/-- The 64 bits of a double. -/
def bits : Double → Nat
  | .nan => 0x7FF8 * Nat.pow 2 48
  | .infinite negative => negative.toNat * Nat.pow 2 63 + 0x7FF0 * Nat.pow 2 48
  | .finite negative m p =>
    negative.toNat * Nat.pow 2 63 +
      (if m < Nat.pow 2 52 then m else (p + 1) * Nat.pow 2 52 + (m - Nat.pow 2 52))

/-! ### Reading -/

/-- The double nearest to `digits * 10 ^ scale`. Beyond the range of doubles the length decides,
so that no large power has to be worked out. -/
def ofDecimal (negative : Bool) (digits : Nat) (scale : Int) : Double :=
  let length : Int := (Text.ofNat digits).length + scale
  if digits = 0 ∨ length < -330 then .finite negative 0 0
  else if 310 < length then .infinite negative
  else ofRatio negative (digits * Nat.pow 10 scale.toNat) (Nat.pow 10 (-scale).toNat)

/-- Whether two texts are equal up to the case of ASCII letters. -/
def sameLetters (s : List Char) (t : String) : Bool := s.map Char.toLower == t.toList

/-- Reads a decimal number without its sign: digits with a point before, between or behind them,
and an exponent. -/
def readDecimal? (negative : Bool) (s : List Char) : Option Double := do
  let isDigit := fun c => (Text.digit? c).isSome
  let whole := s.takeWhile isDigit
  let rest := s.dropWhile isDigit
  let (places, rest) := match rest with
    | '.' :: r => (r.takeWhile isDigit, r.dropWhile isDigit)
    | r => ([], r)
  let digits ← Text.digits? (whole ++ places)
  let power ← match rest with
    | [] => some 0
    | c :: r => if c = 'e' ∨ c = 'E' then Text.int? r else none
  return ofDecimal negative digits (power - places.length)

/-- Reads a number without its sign: a decimal one, or one of the words `nan`, `inf` and
`infinity`, in any case. -/
def readUnsigned? (negative : Bool) (s : List Char) : Option Double :=
  if sameLetters s "nan" then some .nan
  else if sameLetters s "inf" || sameLetters s "infinity" then some (.infinite negative)
  else readDecimal? negative s

/-- Reads a number. -/
def read? : List Char → Option Double
  | '+' :: r => readUnsigned? false r
  | '-' :: r => readUnsigned? true r
  | s => readUnsigned? false s

/-- The number one. -/
def one : Double := .finite false (Nat.pow 2 52) 1022

end Double

end Takeaway
