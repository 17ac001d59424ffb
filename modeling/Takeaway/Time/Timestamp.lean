import Takeaway.Text.Blank
import Takeaway.Text.Numeral

/-!
Points in time to the nanosecond, as calendar date and time of day in universal time, with the
RFC 3339 form that they are written in. Reading is more lenient than writing: blanks before
numbers and marks, short numbers, and offsets from universal time are allowed.
-/

namespace Takeaway

open Takeaway.Text

/-- A point in time. A leap second is the second after the one before it, so its nanoseconds are
a thousand million or more. -/
structure Timestamp where
  year : Int
  month : Nat
  day : Nat
  hour : Nat
  minute : Nat
  second : Nat
  nanos : Nat
deriving DecidableEq, Inhabited

namespace Timestamp

/-! ### The calendar -/

/-- Whether a year has a leap day. -/
def isLeap (year : Int) : Bool := year % 4 == 0 && (year % 100 != 0 || year % 400 == 0)

/-- The number of days of a month. -/
def monthLength (year : Int) (month : Nat) : Nat :=
  if month = 2 then (if isLeap year then 29 else 28)
  else if month = 4 ∨ month = 6 ∨ month = 9 ∨ month = 11 then 30
  else 31

/-- The years that are kept. -/
def isYear (year : Int) : Bool := decide (-262143 ≤ year) && decide (year ≤ 262142)

/-- Whether the parts make a point in time. -/
def isValid (t : Timestamp) : Bool :=
  isYear t.year && decide (1 ≤ t.month) && decide (t.month ≤ 12) && decide (1 ≤ t.day) &&
    decide (t.day ≤ monthLength t.year t.month) && decide (t.hour < 24) &&
    decide (t.minute < 60) && decide (t.second < 60) &&
    decide (t.nanos < (if t.second = 59 then 2000000000 else 1000000000))

/-- The same time on the day before. -/
def dayBefore (t : Timestamp) : Timestamp :=
  if 1 < t.day then { t with day := t.day - 1 }
  else if 1 < t.month then
    { t with month := t.month - 1, day := monthLength t.year (t.month - 1) }
  else { t with year := t.year - 1, month := 12, day := 31 }

/-- The same time on the day after. -/
def dayAfter (t : Timestamp) : Timestamp :=
  if t.day < monthLength t.year t.month then { t with day := t.day + 1 }
  else if t.month < 12 then { t with month := t.month + 1, day := 1 }
  else { t with year := t.year + 1, month := 1, day := 1 }

/-- The point in universal time of a local time that is the given minutes ahead, less than a day
of them. -/
def atOffset (t : Timestamp) (ahead : Int) : Timestamp :=
  let minutes : Int := (t.hour * 60 + t.minute : Nat) - ahead
  let (t, minutes) :=
    if minutes < 0 then (t.dayBefore, minutes + 1440)
    else if 1440 ≤ minutes then (t.dayAfter, minutes - 1440)
    else (t, minutes)
  { t with hour := minutes.toNat / 60, minute := minutes.toNat % 60 }

/-- Whether a point in time is not after another. -/
def notAfter (a b : Timestamp) : Bool :=
  if a.year ≠ b.year then decide (a.year < b.year)
  else compareOfLessAndEq
    [a.month, a.day, a.hour, a.minute, a.second, a.nanos]
    [b.month, b.day, b.hour, b.minute, b.second, b.nanos] != .gt

/-- The date that many days after the first of January 1970. -/
def ofDays (n : Nat) : Timestamp :=
  let n := n + 719468
  let era := n / 146097
  let dayOfEra := n % 146097
  let yearOfEra := (dayOfEra - dayOfEra / 1460 + dayOfEra / 36524 - dayOfEra / 146096) / 365
  let dayOfYear := dayOfEra - (365 * yearOfEra + yearOfEra / 4 - yearOfEra / 100)
  let shifted := (5 * dayOfYear + 2) / 153
  let month := if shifted < 10 then shifted + 3 else shifted - 9
  let year := yearOfEra + era * 400 + (if month ≤ 2 then 1 else 0)
  ⟨year, month, dayOfYear - (153 * shifted + 2) / 5 + 1, 0, 0, 0, 0⟩

/-- The point in time that many milliseconds after the beginning of 1970. -/
def ofMillis (n : Nat) : Timestamp :=
  let s := n / 1000 % 86400
  { ofDays (n / 86400000) with
    hour := s / 3600, minute := s / 60 % 60, second := s % 60, nanos := n % 1000 * 1000000 }

/-! ### Writing -/

/-- The year, in four digits or, outside of the years that these can show, with a sign. -/
def yearChars (year : Int) : List Char :=
  if 0 ≤ year ∧ year ≤ 9999 then padded 4 year.toNat
  else (if year < 0 then '-' else '+') :: padded 4 year.natAbs

/-- The fraction of a second, in as few groups of three digits as it needs. -/
def fractionChars (nanos : Nat) : List Char :=
  if nanos = 0 then []
  else if nanos % 1000000 = 0 then '.' :: padded 3 (nanos / 1000000)
  else if nanos % 1000 = 0 then '.' :: padded 6 (nanos / 1000)
  else '.' :: padded 9 nanos

/-- A point in time as it is written. -/
def chars (t : Timestamp) : List Char :=
  let leap := t.nanos / 1000000000
  yearChars t.year ++ '-' :: padded 2 t.month ++ '-' :: padded 2 t.day ++
    'T' :: padded 2 t.hour ++ ':' :: padded 2 t.minute ++ ':' :: padded 2 (t.second + leap) ++
    fractionChars (t.nanos % 1000000000) ++ ['Z']

/-- A point in time as text. -/
def text (t : Timestamp) : String := String.ofList t.chars

/-! ### Reading -/

/-- Reading from the front of a text. -/
abbrev Reading := StateT (List Char) Option

/-- Passes over blanks. -/
def blanks : Reading Unit := modify trimStart

/-- The digits in front, at most that many. -/
def digitRun (most : Nat) : Reading (List Char) := do
  let s ← get
  let ds := (s.take most).takeWhile fun c => (digit? c).isSome
  set (s.drop ds.length)
  return ds

/-- The number in front, of at most that many digits. -/
def number (most : Nat) : Reading Nat := do
  let ds ← digitRun most
  digits? ds

/-- The number in front, behind blanks. -/
def shortNumber : Reading Nat := do blanks; number 2

/-- Passes over the given character. -/
def mark (c : Char) : Reading Unit := do
  match ← get with
  | d :: r => if d = c then set r else failure
  | [] => failure

/-- Passes over blanks and the given character behind them. -/
def blanksAndMark (c : Char) : Reading Unit := do blanks; mark c

/-- The year: up to four digits, or any number of them behind a sign. -/
def yearNumber : Reading Int := do
  blanks
  let s ← get
  match s with
  | '-' :: r => set r; return -((← number r.length : Nat) : Int)
  | '+' :: r => set r; return ((← number r.length : Nat) : Int)
  | _ => return ((← number 4 : Nat) : Int)

/-- The fraction of a second, in nanoseconds; digits beyond the ninth are passed over. -/
def fraction : Reading Nat := do
  match ← get with
  | '.' :: r =>
    set r
    let ds ← digitRun 9
    let n ← digits? ds
    modify fun s => s.dropWhile fun c => (digit? c).isSome
    return n * Nat.pow 10 (9 - ds.length)
  | _ => return 0

/-- The two digits in front. -/
def pair : Reading Nat := do
  match ← get with
  | a :: b :: r => set r; return 10 * (← digit? a) + (← digit? b)
  | _ => failure

/-- The minutes that a local time is ahead of universal time, from their sign on. -/
def signedOffset : Reading Int := do
  let sign : Int ← match ← get with
    | '+' :: r => set r; pure 1
    | '-' :: r | '\u2212' :: r => set r; pure (-1)
    | _ => failure
  let hours ← pair
  modify fun s => s.dropWhile fun c => c == ':' || isBlank c
  let minutes ← pair
  if minutes < 60 ∧ hours < 24 then return sign * (60 * hours + minutes : Nat) else failure

/-- The minutes that a local time is ahead of universal time. -/
def offset : Reading Int := do
  blanks
  match ← get with
  | 'Z' :: r | 'z' :: r => set r; return 0
  | u :: t :: c :: r =>
    if [u, t, c].map Char.toLower = ['u', 't', 'c'] then set r; return 0 else signedOffset
  | _ => signedOffset

/-- A local time with its offset. -/
def localTime : Reading (Timestamp × Int) := do
  let year ← yearNumber
  blanksAndMark '-'
  let month ← shortNumber
  blanksAndMark '-'
  let day ← shortNumber
  match ← get with
  | 'T' :: r | 't' :: r | ' ' :: r => set r
  | _ => failure
  let hour ← shortNumber
  blanksAndMark ':'
  let minute ← shortNumber
  blanksAndMark ':'
  let second ← shortNumber
  let nanos ← fraction
  let ahead ← offset
  blanks
  let leap := second == 60
  return (⟨year, month, day, hour, minute, if leap then 59 else second,
    if leap then nanos + 1000000000 else nanos⟩, ahead)

/-- Reads a point in time. -/
def read? (s : String) : Option Timestamp := do
  let ((t, ahead), rest) ← localTime.run s.toList
  let u := t.atOffset ahead
  if rest.isEmpty && t.isValid && isYear u.year then some u else none

end Timestamp

end Takeaway
