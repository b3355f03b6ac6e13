import Nondet.Tree.Span
import Nondet.Grammar.Farthest

/-!
# Grammar — Parser

Ordered choice over a text.  A parser takes a position and the record of failed attempts; it gives
a value and a new position, or nothing, and in both cases the record.  A parser that gives nothing
has not moved, since its caller still holds the position: backtracking costs nothing and undoes
everything but the record.

Between the parts of a rule stands layout: blanks and comments.  A sequence takes the layout
before each of its parts, also before one that then matches nothing; a repetition takes layout
only where another item follows.
-/

namespace Nondet.Grammar

/-- A position in a text: what is left of it and the byte offset reached. -/
structure Cursor where
  rest : List Char
  offset : Nat
  deriving DecidableEq, Repr, Inhabited

namespace Cursor

/-- The beginning of a text. -/
def start (source : String) : Cursor := ⟨source.toList, 0⟩

/-- The longest stretch of characters of a class, and the position behind it. -/
def takeWhile (p : Char → Bool) (c : Cursor) : List Char × Cursor :=
  go [] c.rest c.offset
where
  go (taken : List Char) : List Char → Nat → List Char × Cursor
    | [],      offset => (taken.reverse, ⟨[], offset⟩)
    | x :: xs, offset =>
      if p x then go (x :: taken) xs (offset + x.utf8Size) else (taken.reverse, ⟨x :: xs, offset⟩)

/-- Behind some characters, if they come next. -/
def literal? : List Char → Cursor → Option Cursor
  | [],      c => some c
  | x :: xs, c =>
    match c.rest with
    | y :: rest => if x = y then literal? xs ⟨rest, c.offset + y.utf8Size⟩ else none
    | []        => none

/-- Behind the end of a comment that was opened; nothing when it is never closed. -/
def blockComment? : List Char → Nat → Option Cursor
  | [],               _      => none
  | '*' :: '/' :: xs, offset => some ⟨xs, offset + 2⟩
  | x :: xs,          offset => blockComment? xs (offset + x.utf8Size)

/-- The four characters that separate tokens. -/
def isSpace (c : Char) : Bool := c == ' ' || c == '\t' || c == '\r' || c == '\n'

/-- Behind all blanks and comments that come next, given at least as much fuel as characters are
left.  A comment that is never closed is no comment. -/
def layoutFrom : Nat → Cursor → Cursor
  | 0,        c => c
  | fuel + 1, c =>
    match c.rest with
    | '/' :: '/' :: xs => layoutFrom fuel ((⟨xs, c.offset + 2⟩ : Cursor).takeWhile (· != '\n')).2
    | '/' :: '*' :: xs =>
      match blockComment? xs (c.offset + 2) with
      | some d => layoutFrom fuel d
      | none   => c
    | x :: xs => if isSpace x then layoutFrom fuel ⟨xs, c.offset + x.utf8Size⟩ else c
    | []      => c

/-- Behind all blanks and comments that come next. -/
def layout (c : Cursor) : Cursor :=
  match c.rest with
  | x :: _ => if isSpace x || x == '/' then layoutFrom c.rest.length c else c
  | []     => c

end Cursor

/-- A parser of ordered choice with a record of failed attempts. -/
def Parser (α : Type) : Type := Cursor → Farthest → Option (α × Cursor) × Farthest

namespace Parser

variable {α β : Type}

@[always_inline, inline]
protected def pure (a : α) : Parser α := fun c f => (some (a, c), f)

@[always_inline, inline]
protected def bind (p : Parser α) (k : α → Parser β) : Parser β := fun c f =>
  match p c f with
  | (some (a, c), f) => k a c f
  | (none, f)        => (none, f)

instance : Monad Parser where
  pure := Parser.pure
  bind := Parser.bind

/-- Matches nothing. -/
def fail : Parser α := fun _ f => (none, f)

/-- The first of two parsers that matches. -/
@[inline]
def orElse (p q : Parser α) : Parser α := fun c f =>
  match p c f with
  | (none, f) => q c f
  | matched   => matched

/-- The first parser of a list that matches. -/
def choice : List (Parser α) → Parser α
  | []      => fail
  | p :: ps => p.orElse (choice ps)

/-- A scanner of single tokens as a parser: it records nothing. -/
@[inline]
def scan (s : Cursor → Option (α × Cursor)) : Parser α := fun c f => (s c, f)

/-- Blanks and comments. -/
def layout : Parser Unit := fun c f => (some ((), c.layout), f)

/-- Some characters. -/
def symbol (text : List Char) : Parser Unit := fun c f => ((c.literal? text).map ((), ·), f)

/-- Some characters must not come next; nothing is taken. -/
def notNext (text : List Char) : Parser Unit := fun c f =>
  (if (c.literal? text).isSome then none else some ((), c), f)

/-- The value, or nothing where the parser does not match. -/
@[inline]
def optional (p : Parser α) : Parser (Option α) := fun c f =>
  match p c f with
  | (some (a, c), f) => (some (some a, c), f)
  | (none, f)        => (some (none, c), f)

/-- Items with layout between them, after those in `taken`, at most `fuel` more. -/
def manyFrom (p : Parser α) : Nat → List α → Cursor → Farthest → Option (List α × Cursor) × Farthest
  | 0,        taken, c, f => (some (taken.reverse, c), f)
  | fuel + 1, taken, c, f =>
    match p c.layout f with
    | (some (a, d), f) => manyFrom p fuel (a :: taken) d f
    | (none, f)        => (some (taken.reverse, c), f)

/-- As many items as there are, with layout between them.  An item takes at least one character,
so there are no more items than characters; the attempt after the last one counts too, since its
failure is recorded. -/
def many (p : Parser α) : Parser (List α) := fun c f =>
  match p c f with
  | (some (a, d), f) => manyFrom p (d.rest.length + 1) [a] d f
  | (none, f)        => (some ([], c), f)

/-- A rule of the grammar: its failure is recorded where it began. -/
@[inline]
def rule (r : Rule) (p : Parser α) : Parser α := fun c f =>
  let before := f.count c.offset
  match p c f with
  | (none, f) => (none, f.record r c.offset before)
  | matched   => matched

end Parser

end Nondet.Grammar
