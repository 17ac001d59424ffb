/-!
Decimal numerals: how numbers are written, and which rows of digits are read back. Digits are the
ASCII ones alone; leading zeros are allowed, in any number.
-/

namespace Takeaway.Text

/-- The value of an ASCII digit. -/
def digit? (c : Char) : Option Nat :=
  if '0' ≤ c ∧ c ≤ '9' then some (c.toNat - 48) else none

/-- The number that further digits make of `n`; `none` when a character is no digit. -/
def digitsFrom? (n : Nat) : List Char → Option Nat
  | [] => some n
  | c :: r => (digit? c).bind fun d => digitsFrom? (10 * n + d) r

/-- The number that a row of at least one digit denotes. -/
def digits? : List Char → Option Nat
  | [] => none
  | s => digitsFrom? 0 s

/-- A natural number, with an optional plus sign. -/
def nat? : List Char → Option Nat
  | '+' :: r => digits? r
  | s => digits? s

/-- A whole number, with an optional sign. -/
def int? : List Char → Option Int
  | '+' :: r => (digits? r).map Int.ofNat
  | '-' :: r => (digits? r).map fun n => -(n : Int)
  | s => (digits? s).map Int.ofNat

/-- A natural number of at most `bits` binary digits. -/
def natWithin? (bits : Nat) (s : List Char) : Option Nat := (nat? s).filter (· < Nat.pow 2 bits)

/-- The whole numbers that fit in `bits` binary digits, sign included. -/
def fitsSigned (bits : Nat) (n : Int) : Bool :=
  decide (-(Nat.pow 2 (bits - 1) : Int) ≤ n) && decide (n < (Nat.pow 2 (bits - 1) : Int))

/-- A whole number that fits in `bits` binary digits, sign included. -/
def intWithin? (bits : Nat) (s : List Char) : Option Int := (int? s).filter (fitsSigned bits)

/-- The decimal digits of a number. -/
def ofNat (n : Nat) : List Char := Nat.toDigits 10 n

/-- The decimal digits of a whole number, with a minus sign below zero. -/
def ofInt : Int → List Char
  | .ofNat n => ofNat n
  | .negSucc n => '-' :: ofNat (n + 1)

/-- The decimal digits of a number, with zeros in front up to the given width. -/
def padded (width n : Nat) : List Char :=
  let ds := ofNat n
  List.replicate (width - ds.length) '0' ++ ds

/-- A hexadecimal digit, in lower case above nine. -/
def hexDigit (n : Nat) : Char := Nat.digitChar (n % 16)

/-- The value of a hexadecimal digit of either case. -/
def hexValue? (c : Char) : Option Nat :=
  if '0' ≤ c ∧ c ≤ '9' then some (c.toNat - 48)
  else if 'a' ≤ c ∧ c ≤ 'f' then some (c.toNat - 87)
  else if 'A' ≤ c ∧ c ≤ 'F' then some (c.toNat - 55)
  else none

/-- A number in hexadecimal, without leading zeros. -/
def hex (n : Nat) : List Char := Nat.toDigits 16 n

end Takeaway.Text
