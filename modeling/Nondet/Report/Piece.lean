/-!
# Report — Piece

Text in colours.  Every coloured piece is opened and closed on its own, so a report with its colours
taken out is the plain report.
-/

namespace Nondet.Report

/-- A colour of the terminal. -/
inductive Paint where
  | plain
  | red
  /-- One of the 256 numbered colours. -/
  | indexed (n : Nat)
  deriving DecidableEq, Repr, Inhabited

/-- A text in one colour. -/
structure Piece where
  paint : Paint
  text : String
  deriving DecidableEq, Repr, Inhabited

namespace Paint

/-- What is drawn around a report: numbers, bars and corners. -/
def frame : Paint := .indexed 246

/-- The margin beside lines that are not of the text. -/
def margin : Paint := .indexed 240

/-- The part of the text that a report is about, and all that points to it. -/
def label : Paint := .indexed 155

/-- The rest of the text. -/
def rest : Paint := .indexed 249

/-- The word that introduces a hint. -/
def help : Paint := .indexed 115

/-- The characters that switch a colour on. -/
def opening : Paint → String
  | .plain     => ""
  | .red       => "\x1b[31m"
  | .indexed n => "\x1b[38;5;" ++ toString n ++ "m"

/-- The characters that switch a colour off. -/
def closing : Paint → String
  | .plain => ""
  | _      => "\x1b[0m"

end Paint

/-- A line of a report. -/
abbrev Row := List Piece

namespace Piece

def plain (text : String) : Piece := ⟨.plain, text⟩

/-- So many spaces. -/
def blank (count : Nat) : Piece := ⟨.plain, String.ofList (List.replicate count ' ')⟩

/-- Every character as a piece of its own. -/
def each (paint : Paint) (cs : List Char) : Row := cs.map fun c => ⟨paint, String.singleton c⟩

/-- The text of a piece, with or without its colour. -/
def render (coloured : Bool) (p : Piece) : String :=
  if coloured then p.paint.opening ++ p.text ++ p.paint.closing else p.text

end Piece

/-- The text of a line. -/
def Row.render (coloured : Bool) (row : Row) : String :=
  String.join (row.map (Piece.render coloured))

end Nondet.Report
