import Nondet.Grammar.Parser

/-!
# Grammar — Pair

What the grammar yields of a text: for each rule that matched a pair, which holds the place where the
rule began, the place where it ended and the pairs of the rules inside it.  Characters yield nothing,
and a silent rule yields what is inside it.  Between the parts of a rule stands layout: a sequence
takes it before each of its parts but the first one, also before one that then matches nothing.
-/

namespace Nondet.Grammar

/-- The characters of the text that is left that stand before an offset. -/
def Cursor.textTo (c : Cursor) (offset : Nat) : List Char :=
  go c.rest c.offset
where
  go : List Char → Nat → List Char
    | [],      _    => []
    | x :: xs, here => if here < offset then x :: go xs (here + x.utf8Size) else []

/-- A rule that matched from one place to another, around the pairs of the rules inside it. -/
structure Pair where
  rule : Rule
  start : Cursor
  stop : Cursor
  inner : List Pair
  deriving Repr, Inhabited

namespace Pair

def span (p : Pair) : Span := ⟨p.start.offset, p.stop.offset⟩

/-- The text that the rule took. -/
def text (p : Pair) : String := String.ofList (p.start.textTo p.stop.offset)

/-- How many pairs lie one in the other, this one counted. -/
def depth (p : Pair) : Nat :=
  match p with
  | ⟨_, _, _, inner⟩ => deepest inner + 1
where
  deepest : List Pair → Nat
    | []      => 0
    | p :: ps => max p.depth (deepest ps)

end Pair

/-- A part of the grammar: a parser for the pairs of the rules in it. -/
abbrev Pattern : Type := Parser (List Pair)

namespace Pattern

/-- Some characters. -/
def symbol (text : List Char) : Pattern := do
  Parser.symbol text
  return []

/-- Some characters must not come next; nothing is taken. -/
def notNext (text : List Char) : Pattern := do
  Parser.notNext text
  return []

/-- The beginning of the text. -/
def startOfInput : Pattern := fun c f => (if c.offset = 0 then some ([], c) else none, f)

/-- A rule of the grammar: one pair around those inside it. -/
def rule (r : Rule) (p : Pattern) : Pattern :=
  Parser.rule r fun c f =>
    match p c f with
    | (some (inner, d), f) => (some ([⟨r, c, d, inner⟩], d), f)
    | (none, f)            => (none, f)

/-- A token: inside it there is no layout and no rule, and nothing is recorded. -/
def token {α : Type} (r : Rule) (s : Cursor → Option (α × Cursor)) : Pattern :=
  rule r (Parser.scan fun c => (s c).map fun (_, d) => ([], d))

/-- The parts one behind the other, with layout between each two. -/
def sequence : List Pattern → Pattern
  | []      => pure []
  | [p]     => p
  | p :: ps => do
    let first ← p
    Parser.layout
    let others ← sequence ps
    return first ++ others

/-- Nothing where the part does not match. -/
def optional (p : Pattern) : Pattern := do
  let found ← Parser.optional p
  return found.getD []

/-- The part as often as it matches, with layout between each two. -/
def many (p : Pattern) : Pattern := do
  let found ← Parser.many p
  return found.flatten

/-- The part at least once, with a separator between each two. -/
def separated (separator : List Char) (p : Pattern) : Pattern :=
  sequence [p, many (sequence [symbol separator, p])]

/-- The end of the text, which is a rule of its own. -/
def endOfInput : Pattern :=
  rule .endOfInput fun c f => (if c.rest.isEmpty then some ([], c) else none, f)

end Pattern

end Nondet.Grammar
