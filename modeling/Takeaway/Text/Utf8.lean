/-!
Bytes and characters. A byte string is read as a row of characters of UTF-8 and of stray bytes,
those that are part of no character, so that text inside a damaged byte string can still be told
from the damage.
-/

namespace Takeaway.Text

/-- A byte string. -/
abbrev Bytes := List UInt8

/-- A character of a byte string, or a byte that is part of none. -/
inductive Glyph where
  | char (c : Char)
  | stray (b : UInt8)
deriving DecidableEq

/-- The UTF-8 form of a row of characters. -/
def toBytes (s : List Char) : Bytes := s.flatMap String.utf8EncodeChar

/-- Whether a byte continues a character. -/
def continues (b : UInt8) : Bool := 0x80 ≤ b && b ≤ 0xBF

/-- Whether the second byte of a character of three bytes may follow the first: no overlong form,
no surrogate. -/
def leadsThree (a b : UInt8) : Bool :=
  if a = 0xE0 then 0xA0 ≤ b && b ≤ 0xBF
  else if a = 0xED then 0x80 ≤ b && b ≤ 0x9F
  else 0xE1 ≤ a && a ≤ 0xEF && continues b

/-- Whether the second byte of a character of four bytes may follow the first: no overlong form,
no code point above the last one. -/
def leadsFour (a b : UInt8) : Bool :=
  if a = 0xF0 then 0x90 ≤ b && b ≤ 0xBF
  else if a = 0xF4 then 0x80 ≤ b && b ≤ 0x8F
  else 0xF1 ≤ a && a ≤ 0xF3 && continues b

/-- The payload bits of a byte that continues a character. -/
def tailBits (b : UInt8) : Nat := b.toNat % 64

/-- The character that begins with the byte `a` when the bytes `r` follow, and how many of those
belong to it. -/
def leading? (a : UInt8) (r : Bytes) : Option (Char × Nat) :=
  if a < 0x80 then some (Char.ofNat a.toNat, 0)
  else match r with
    | b :: r =>
      if 0xC2 ≤ a && a ≤ 0xDF && continues b then
        some (Char.ofNat (a.toNat % 32 * 64 + tailBits b), 1)
      else match r with
        | c :: r =>
          if leadsThree a b && continues c then
            some (Char.ofNat ((a.toNat % 16 * 64 + tailBits b) * 64 + tailBits c), 2)
          else match r with
            | d :: _ =>
              if leadsFour a b && continues c && continues d then
                some (Char.ofNat (((a.toNat % 8 * 64 + tailBits b) * 64 + tailBits c) * 64 +
                  tailBits d), 3)
              else none
            | [] => none
        | [] => none
    | [] => none

/-- Reads bytes as characters and stray bytes, leaving out the first `skip` bytes. -/
def glyphsFrom (skip : Nat) : Bytes → List Glyph
  | [] => []
  | a :: r =>
    match skip with
    | skip + 1 => glyphsFrom skip r
    | 0 =>
      match leading? a r with
      | some (c, more) => .char c :: glyphsFrom more r
      | none => .stray a :: glyphsFrom 0 r

/-- Reads bytes as characters and stray bytes. -/
def glyphs (b : Bytes) : List Glyph := glyphsFrom 0 b

/-- The characters of a row without stray bytes. -/
def chars? : List Glyph → Option (List Char)
  | [] => some []
  | .char c :: r => (chars? r).map (c :: ·)
  | .stray _ :: _ => none

/-- The text that bytes are the UTF-8 form of. -/
def ofBytes? (b : Bytes) : Option String := (chars? (glyphs b)).map String.ofList

/-- Whether the stray byte `b` goes on with a character that the stray bytes before it, last
first, had begun. -/
def resumes (b : UInt8) : List UInt8 → Bool
  | [a] => leadsThree a b || leadsFour a b
  | [b₁, a] => leadsFour a b₁ && continues b
  | _ => false

/-- The characters of a row, with one replacement character for every row of stray bytes that
begins a character and goes on with it as far as it can. -/
def replacing (begun : List UInt8) : List Glyph → List Char
  | [] => []
  | .char c :: r => c :: replacing [] r
  | .stray b :: r =>
    if resumes b begun then replacing (b :: begun) r
    else '\ufffd' :: replacing [b] r

/-- The text of bytes, with replacement characters for what is no UTF-8. -/
def ofBytesReplacing (b : Bytes) : String := String.ofList (replacing [] (glyphs b))

end Takeaway.Text
