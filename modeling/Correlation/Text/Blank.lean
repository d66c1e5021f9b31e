import Correlation.Text.Ranges

/-!
# Blank characters

The characters with the Unicode property `White_Space`, and the text that is left when they are
taken off both ends.  The zero width space and the byte order mark are not blank.
-/

namespace Correlation

/-- The code points of the blank characters, as inclusive ranges in ascending order. -/
def blankRanges : List (Nat × Nat) :=
  [(0x9, 0xd), (0x20, 0x20), (0x85, 0x85), (0xa0, 0xa0), (0x1680, 0x1680), (0x2000, 0x200a),
   (0x2028, 0x2029), (0x202f, 0x202f), (0x205f, 0x205f), (0x3000, 0x3000)]

/-- Whether a character is blank, in the sense of Unicode. -/
def isBlank (c : Char) : Bool := inRanges blankRanges c.toNat

/-- The text without the blanks at its start. -/
def trimStart (text : List Char) : List Char := text.dropWhile isBlank

/-- The text without the blanks at its two ends. -/
def trim (text : List Char) : List Char := (trimStart (trimStart text).reverse).reverse

/-! ## Tests -/

example : trim " \u00a0a b\u2003\n".toList = "a b".toList := by decide +kernel

example : trim "\u200bx\ufeff".toList = "\u200bx\ufeff".toList := by decide +kernel

end Correlation
