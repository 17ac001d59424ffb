import Takeaway.Text.Hidden
import Takeaway.Text.Numeral

/-!
Quoted text, as error messages show what was read: in double quotes, with a backslash in front of
quotes and backslashes, short names for the common controls and the code point of every other
character that does not show on its own.
-/

namespace Takeaway.Text

/-- One character as it stands between the quotes. -/
def quotedChar (c : Char) : List Char :=
  if c = '"' then ['\\', '"']
  else if c = '\\' then ['\\', '\\']
  else if c = '\t' then ['\\', 't']
  else if c = '\n' then ['\\', 'n']
  else if c = '\r' then ['\\', 'r']
  else if c = '\x00' then ['\\', '0']
  else if isHidden c then ['\\', 'u', '\x7b'] ++ hex c.toNat ++ ['\x7d']
  else [c]

/-- A text in quotes. -/
def quoted (s : String) : String :=
  String.ofList (['"'] ++ s.toList.flatMap quotedChar ++ ['"'])

end Takeaway.Text
