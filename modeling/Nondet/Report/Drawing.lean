import Nondet.Tree.Span
import Nondet.Report.Piece
import Nondet.Report.Source

/-!
# Report — Drawing

What the drawing library makes of a report: a header, the place, the lines that the span touches with
the span marked and its label beside the mark, and the hint.  The bounds of the span are taken as
counts of characters.  A span that is not in the text leaves only the header, and one that ends right
behind the text is left open: it is not marked.
-/

namespace Nondet.Report

/-- What is drawn: the span in characters, the lines it touches, the width of line numbers. -/
structure Layout where
  first : Nat
  behind : Nat
  top : Line
  bottom : Line
  numberWidth : Nat
  /-- The span goes on behind the text, so that no line holds its last character. -/
  isOpen : Bool
  deriving Inhabited

namespace Layout

/-- Where a span lies in a text, if both its ends do.  The second line of an empty span is its
first. -/
def of? (span : Span) (source : List Char) : Option Layout :=
  let isEmpty := span.stop ≤ span.start
  if source.length < span.start || (!isEmpty && source.length < span.stop - 1) then none
  else
    let lines := Line.all source
    let top := Line.find lines span.start
    let bottom := if isEmpty then top else Line.find lines (span.stop - 1)
    let isOpen := !isEmpty && source.length < span.stop
    some ⟨span.start, span.stop, top, bottom, (toString bottom.number).length, isOpen⟩

/-- The span is within one line. -/
def isSingle (l : Layout) : Bool := l.top.number == l.bottom.number

/-- A character of the text is part of the span. -/
def covers (l : Layout) (offset : Nat) : Bool := l.first ≤ offset && offset < l.behind

/-- The column of the mark on a single line: the middle of the span. -/
def mark (l : Layout) : Nat := max ((l.first + l.behind) / 2) l.first - l.top.start

/-- The widths of the places below a single line: those up to the span's end and two more. -/
def places (l : Layout) : List Nat := l.top.places (l.behind - l.top.start + 2)

/-! ### Margins -/

/-- The margin of a line of the text. -/
def numbered (l : Layout) (line : Line) : Row :=
  let number := toString line.number
  let filler := String.ofList (List.replicate (l.numberWidth - number.length) ' ')
  [.plain " ", ⟨.frame, filler ++ number ++ " │"⟩, .plain " "]

/-- The margin of any other line, with the bar given. -/
def margin (l : Layout) (bar : String) : Row :=
  let filler := String.ofList (List.replicate (l.numberWidth + 1) ' ')
  [.plain " ", ⟨.margin, filler ++ bar⟩, .plain " "]

/-! ### The text -/

/-- The drawn characters of a line.  Blanks of all kinds are spaces. -/
def text (l : Layout) (line : Line) : Row :=
  (line.shown.mapIdx fun index c =>
    let paint := if l.covers (line.start + index) then Paint.label else Paint.rest
    if Text.isBlank c then Piece.each paint (List.replicate (Line.cell index c) ' ')
    else Piece.each paint [c]).flatten

/-! ### Marks -/

/-- A place that is filled by a character and, when it is wider, others after it. -/
def fill (paint : Paint) (width : Nat) (head tail : Char) : Row :=
  match width with
  | 0         => []
  | width + 1 => Piece.each paint (head :: List.replicate width tail)

/-- The line under the span, with the mark. -/
def underline (l : Layout) : Row :=
  (l.places.mapIdx fun index width =>
    let covered := l.covers (l.top.start + index)
    if index = l.mark then
      if covered then fill .label width '┬' '─' else fill .label width '│' ' '
    else if covered then fill .label width '─' '─'
    else [.blank width]).flatten

/-- The line from the mark to the message. -/
def pointer (l : Layout) : Row :=
  (l.places.mapIdx fun index width =>
    if index = l.mark then fill .label width '╰' '─'
    else if l.mark < index then fill .label width '─' '─'
    else [.blank width]).flatten

/-- The columns from the left of the last line to behind its end. -/
def reach (l : Layout) : Nat :=
  (l.bottom.places l.bottom.characters.length).foldr (· + ·) 2

/-- A span within one line: the line, the span underlined, and the message.  Of an open span
nothing is drawn. -/
def single (l : Layout) (message : String) : List Row :=
  if l.isOpen then [l.margin "│"]
  else
    [l.numbered l.top ++ l.text l.top,
      l.margin "│" ++ l.underline,
      l.margin "│" ++ l.pointer ++ [.plain (" " ++ message)]]

/-- The last line of a span over several lines, and the message. -/
def ending (l : Layout) (message : String) : List Row :=
  [l.numbered l.bottom ++ Piece.each .label ['├', '─', '▶', ' '] ++ l.text l.bottom,
    l.margin "│" ++ Piece.each .label ['│'] ++ [.blank (3 + l.reach)],
    l.margin "│" ++ Piece.each .label ('╰' :: List.replicate (3 + l.reach) '─')
      ++ [.plain (" " ++ message)]]

/-- A span over several lines: the first and the last, joined on the left, and the message.  An open
span has no last line. -/
def several (l : Layout) (message : String) : List Row :=
  let skipped := l.margin "┆" ++ Piece.each .label ['┆'] ++ [.blank 3]
  [l.numbered l.top ++ Piece.each .label ['╭', '─', '▶', ' '] ++ l.text l.top]
    ++ (if l.isOpen || l.top.number + 1 < l.bottom.number then [skipped] else [])
    ++ (if l.isOpen then [] else l.ending message)

/-! ### The whole -/

/-- Where the span begins in the text of that name: line and column, counted from one. -/
def place (l : Layout) (name : String) : List Row :=
  let column := l.first - l.top.start + 1
  let where_ := " " ++ name ++ ":" ++ toString l.top.number ++ ":" ++ toString column ++ " "
  [.blank (l.numberWidth + 2) :: Piece.each .frame ['╭', '─', '[']
      ++ [.plain where_, ⟨.frame, "]"⟩],
    [.blank (l.numberWidth + 2), ⟨.frame, "│"⟩]]

/-- What stands between the margin and a hint: below a span over several lines the room for its bar.
A hint belongs to the first line of the text, and the bar is drawn when the span begins where that
line ends. -/
def gutter (l : Layout) : Row :=
  if l.isSingle then []
  else if l.top.number = 2 && l.first = l.top.start then Piece.each .label ['│'] ++ [.blank 3]
  else [.blank 4]

/-- The lines of a hint, where `line` holds the characters of the first one in reverse.  A line feed
ends a line, alone or after a carriage return. -/
def hintLinesFrom (line : List Char) : List Char → List String
  | []                => if line.isEmpty then [] else [String.ofList line.reverse]
  | '\r' :: '\n' :: r => String.ofList line.reverse :: hintLinesFrom [] r
  | '\n' :: r         => String.ofList line.reverse :: hintLinesFrom [] r
  | c :: r            => hintLinesFrom (c :: line) r

/-- How the lines of a hint are drawn: the later ones below the text of the first. -/
def hintRows : List String → List Row
  | []      => []
  | t :: ts => [⟨.help, "Help"⟩, .plain (": " ++ t)] :: ts.map fun t => [.blank 6, .plain t]

/-- The hint, below an empty line. -/
def hint (l : Layout) : Option String → List Row
  | none      => []
  | some text =>
    ([] :: hintRows (hintLinesFrom [] text.toList)).map fun row => l.margin "│" ++ l.gutter ++ row

/-- The corner that closes a report. -/
def corner (l : Layout) : Row :=
  [⟨.frame, String.ofList (List.replicate (l.numberWidth + 2) '─' ++ ['╯'])⟩]

end Layout

/-- A report that the library is asked to draw, with one label on the span that it is about. -/
structure Drawing where
  /-- The kind of the report. -/
  kind : String
  code : Option String
  message : String
  /-- The name of the text. -/
  name : String
  span : Span
  /-- What is written beside the mark. -/
  label : String
  help : Option String
  deriving DecidableEq, Repr, Inhabited

namespace Drawing

/-- A code takes two columns at least. -/
def codeText (code : String) : String :=
  "[" ++ code ++ String.ofList (List.replicate (2 - code.length) ' ') ++ "] "

/-- The message under its code. -/
def header (r : Drawing) : Row :=
  [⟨.red, (r.code.map codeText).getD "" ++ r.kind ++ ":"⟩, .plain (" " ++ r.message)]

/-- The lines of a report. -/
def rows (r : Drawing) (source : String) : List Row :=
  match Layout.of? r.span source.toList with
  | none   => [r.header]
  | some l =>
    [r.header] ++ l.place r.name
      ++ (if l.isSingle then l.single r.label else l.several r.label)
      ++ l.hint r.help ++ [l.corner]

/-- The report as a text. -/
def draw (coloured : Bool) (r : Drawing) (source : String) : String :=
  String.join ((r.rows source).map fun row => row.render coloured ++ "\n")

end Drawing

end Nondet.Report
