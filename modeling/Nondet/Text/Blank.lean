import Nondet.Text.Ranges

/-!
# Text — Blank

The characters that are blank space: the class `White_Space` of Unicode.  Of these only four
separate tokens of a script; a report trims all of them from the end of a line.
-/

namespace Nondet.Text

/-- The ranges of `White_Space`. -/
def blankRanges : Ranges :=
  [(0x9, 0xd), (0x20, 0x20), (0x85, 0x85), (0xa0, 0xa0), (0x1680, 0x1680), (0x2000, 0x200a),
    (0x2028, 0x2029), (0x202f, 0x202f), (0x205f, 0x205f), (0x3000, 0x3000)]

def isBlank (c : Char) : Bool := blankRanges.has c

/-- The text without the blank characters at its end. -/
def trimEnd (cs : List Char) : List Char := (cs.reverse.dropWhile isBlank).reverse

end Nondet.Text
