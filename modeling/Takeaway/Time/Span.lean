import Takeaway.Double

/-!
Spans of time, in nanoseconds, and how long a wait takes on a clock that ticks in milliseconds.
-/

namespace Takeaway

/-- A span of time. -/
structure Span where
  nanos : Nat
deriving DecidableEq, Inhabited

namespace Span

/-- No time. -/
def zero : Span := ⟨0⟩

/-- A span of whole milliseconds. -/
def millis (n : Nat) : Span := ⟨n * 1000000⟩

/-- A span of whole seconds. -/
def seconds (n : Nat) : Span := ⟨n * 1000000000⟩

/-- The ticks of the clock until the span is over: a part of a millisecond counts as one. -/
def ticks (s : Span) : Nat := (s.nanos + 999999) / 1000000

/-- A number with the given count of places, without the zeros at its end. -/
def decimal (whole part places : Nat) : List Char :=
  let digits := ((Text.padded places part).reverse.dropWhile (· == '0')).reverse
  Text.ofNat whole ++ (if digits.isEmpty then [] else '.' :: digits)

/-- A span in the largest unit of which it holds one, with as many places as it needs. -/
def text (s : Span) : String :=
  let n := s.nanos
  if 1000000000 ≤ n then String.ofList (decimal (n / 1000000000) (n % 1000000000) 9) ++ "s"
  else if 1000000 ≤ n then String.ofList (decimal (n / 1000000) (n % 1000000) 6) ++ "ms"
  else if 1000 ≤ n then String.ofList (decimal (n / 1000) (n % 1000) 3) ++ "µs"
  else String.ofList (Text.ofNat n) ++ "ns"

/-- A span in seconds. -/
def toDouble (s : Span) : Double :=
  (Double.ofNat (s.nanos / 1000000000)).sum
    (Double.ofRatio false (s.nanos % 1000000000) 1000000000)

/-- A number of seconds as a span, to the nearest nanosecond; 2^64 seconds and more are none. -/
def ofDouble (d : Double) : Span :=
  match d with
  | .finite _ _ _ =>
    if Nat.pow 2 64 * Nat.pow 2 1074 ≤ d.units then zero
    else ⟨Double.halfEven (d.units * 1000000000) (Nat.pow 2 1074)⟩
  | _ => zero

/-- A span made longer or shorter by a scale; a scale that is not a number above zero leaves
nothing of it. -/
def scaled (s : Span) (scale : Double) : Span :=
  if scale.isPositive then ofDouble (s.toDouble.product scale) else zero

end Span

end Takeaway
