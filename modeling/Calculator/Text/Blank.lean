/-
# White space in text

Listings, state records and model names are trimmed before they are read.  What trimming
removes are the characters with the Unicode property White_Space, which is a larger set than
`Char.isWhitespace`: it also holds the no-break space, the line and paragraph separators and the
typographic spaces (`isBlank_of_isWhitespace` is the inclusion).
-/
namespace Calculator.Text

/-- The characters with the Unicode property White_Space. -/
def isBlank (c : Char) : Bool :=
  let n := c.toNat
  (0x9 ≤ n && n ≤ 0xd) || n == 0x20 || n == 0x85 || n == 0xa0 || n == 0x1680 ||
    (0x2000 ≤ n && n ≤ 0x200a) || n == 0x2028 || n == 0x2029 || n == 0x202f || n == 0x205f ||
    n == 0x3000

/-- Every blank of the core library is one here. -/
theorem isBlank_of_isWhitespace {c : Char} (h : c.isWhitespace = true) : isBlank c = true := by
  simp only [Char.isWhitespace, Bool.or_eq_true, decide_eq_true_eq] at h
  rcases h with ((h | h) | h) | h <;> subst h <;> decide

/-- Text without the blanks at its two ends. -/
def trim (cs : List Char) : List Char :=
  ((cs.dropWhile isBlank).reverse.dropWhile isBlank).reverse

example : trim [' ', '\u00a0', 'a', ' ', 'b', '\u2003', '\r'] = ['a', ' ', 'b'] := by decide

end Calculator.Text
