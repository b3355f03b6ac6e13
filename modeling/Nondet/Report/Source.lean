import Nondet.Text.Blank
import Nondet.Text.Width

/-!
# Report — Source

A text as numbered lines of characters.  A line ends behind its terminator, which belongs to it; the
end of the text ends the last line, and a text that is empty has one empty line.  Offsets count
characters here.
-/

namespace Nondet.Report

/-- The characters that end a line.  A carriage return and a line feed together end it once. -/
def isTerminator (c : Char) : Bool :=
  c == '\n' || c == '\r' || c == '\x0b' || c == '\x0c'
    || c == '\u0085' || c == '\u2028' || c == '\u2029'

/-- The lines of a text, where `line` holds the characters of the first one in reverse. -/
def linesFrom (line : List Char) : List Char → List (List Char)
  | []                => if line.isEmpty then [] else [line.reverse]
  | '\r' :: '\n' :: r => ('\n' :: '\r' :: line).reverse :: linesFrom [] r
  | c :: r            =>
    if isTerminator c then (c :: line).reverse :: linesFrom [] r else linesFrom (c :: line) r

/-- A line of a text. -/
structure Line where
  /-- Lines are numbered from one. -/
  number : Nat
  /-- The offset of its first character. -/
  start : Nat
  characters : List Char
  deriving Repr, Inhabited

namespace Line

/-- Numbers lines from `number` and `start` on. -/
def numberFrom (number start : Nat) : List (List Char) → List Line
  | []      => []
  | l :: ls => ⟨number, start, l⟩ :: numberFrom (number + 1) (start + l.length) ls

/-- The lines of a text. -/
def all (source : List Char) : List Line :=
  match linesFrom [] source with
  | [] => [⟨1, 0, []⟩]
  | ls => numberFrom 1 0 ls

/-- The last of some lines that begins at an offset or before it. -/
def find (lines : List Line) (offset : Nat) : Line :=
  ((lines.filter fun l => l.start ≤ offset).getLast?).getD default

/-- The characters that are drawn. -/
def shown (l : Line) : List Char := Text.trimEnd l.characters

/-- Tabs stop every so many characters. -/
def tabStop : Nat := 4

/-- How many columns the character at an index takes.  The place of a tab is told by its index, not
by the columns before it. -/
def cell (index : Nat) (c : Char) : Nat :=
  if c = '\t' then (index / tabStop + 1) * tabStop - index
  else if Text.isBlank c then 1
  else Text.columns c

/-- The widths of the characters that are drawn. -/
def cells (l : Line) : List Nat := l.shown.mapIdx cell

/-- The widths of the first places; behind the drawn characters every place is one wide. -/
def places (l : Line) (count : Nat) : List Nat :=
  let cells := l.cells.take count
  cells ++ List.replicate (count - cells.length) 1

end Line

end Nondet.Report
