import Takeaway.Text.Numeral

/-!
Keys of kitchen requests: numbers of 128 binary digits, written as 32 hexadecimal digits in five
groups. A key is read with or without the hyphens, in either case, and in braces or behind the
prefix of a name.
-/

namespace Takeaway

/-- The key of a kitchen request. -/
structure RequestKey where
  code : Nat
  fits : code < 0x100000000000000000000000000000000
deriving DecidableEq

namespace RequestKey

/-- The number that hexadecimal digits denote. -/
def hexNumber? (s : List Char) : Option Nat :=
  s.foldlM (fun n c => (Text.hexValue? c).map (16 * n + ·)) 0

/-- The key with the given number. -/
def ofCode? (n : Nat) : Option RequestKey :=
  if h : n < 0x100000000000000000000000000000000 then some ⟨n, h⟩ else none

/-- Takes away the hyphens after the first, second, third and fourth group. -/
def ungroup? (s : List Char) : Option (List Char) :=
  if [8, 13, 18, 23].all (fun i => s[i]? == some '-') then
    some (s.take 8 ++ (s.drop 9).take 4 ++ (s.drop 14).take 4 ++ (s.drop 19).take 4 ++ s.drop 24)
  else none

/-- The digits of a written key: the 32 digits alone, or in groups, which may stand in braces or
behind `urn:uuid:`. -/
def digits? (s : List Char) : Option (List Char) :=
  let name := "urn:uuid:".toList
  if s.length = 32 then some s
  else if s.length = 36 then ungroup? s
  else if s.length = 38 ∧ s.head? = some '\x7b' ∧ s.getLast? = some '\x7d' then
    ungroup? ((s.drop 1).take 36)
  else if s.length = 45 ∧ s.take 9 = name then ungroup? (s.drop 9)
  else none

/-- Reads a key. -/
def read? (s : String) : Option RequestKey := do
  let ds ← digits? s.toList
  let n ← hexNumber? ds
  ofCode? n

/-- The 32 digits of a key, in lower case. -/
def hexDigits (k : RequestKey) : List Char :=
  let ds := Text.hex k.code
  List.replicate (32 - ds.length) '0' ++ ds

/-- A key as it is written: 8, 4, 4, 4 and 12 digits with hyphens between. -/
def text (k : RequestKey) : String :=
  let ds := k.hexDigits
  String.ofList (ds.take 8 ++ '-' :: ((ds.drop 8).take 4 ++ '-' :: ((ds.drop 12).take 4 ++
    '-' :: ((ds.drop 16).take 4 ++ '-' :: ds.drop 20))))

/-- The key of the request with the given serial number, in the form of a random key: version 4,
first variant. -/
def ofSerial (n : Nat) : RequestKey :=
  ⟨0x40008000000000000000 + n % 0x4000000000000000, by
    have : n % 0x4000000000000000 < 0x4000000000000000 := Nat.mod_lt _ (by decide)
    omega⟩

end RequestKey

end Takeaway
