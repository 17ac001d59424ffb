/-!
White space and trimming. A character is blank when it has the Unicode property White_Space,
which is wider than the ASCII blanks: the no-break space and the line separators belong to it,
the zero-width space does not.
-/

namespace Takeaway.Text

/-- The characters with the property White_Space. -/
def isBlank (c : Char) : Bool :=
  let n := c.toNat
  (0x9 ≤ n && n ≤ 0xD) || n == 0x20 || n == 0x85 || n == 0xA0 || n == 0x1680 ||
    (0x2000 ≤ n && n ≤ 0x200A) || n == 0x2028 || n == 0x2029 || n == 0x202F || n == 0x205F ||
    n == 0x3000

/-- The blanks that ASCII knows are blanks. -/
theorem isBlank_of_isWhitespace {c : Char} (h : c.isWhitespace = true) : isBlank c = true := by
  simp only [Char.isWhitespace, Bool.or_eq_true, decide_eq_true_eq] at h
  rcases h with ((rfl | rfl) | rfl) | rfl <;> decide

/-- What remains after the leading blanks. -/
def trimStart (s : List Char) : List Char := s.dropWhile isBlank

/-- What remains without the trailing blanks. -/
def trimEnd (s : List Char) : List Char := (s.reverse.dropWhile isBlank).reverse

/-- What remains without the blanks at both ends. -/
def trim (s : List Char) : List Char := trimEnd (trimStart s)

end Takeaway.Text
