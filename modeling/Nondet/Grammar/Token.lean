import Nondet.Decimal.Reading
import Nondet.Grammar.Parser

/-!
# Grammar — Token

The single tokens.  A word is the longest stretch of letters, digits, `_` and `$`; keywords are
words, so `iffy` is no `if`, and a name is a word that does not begin with a digit and is not
reserved.  Inside a token there is no layout and nothing is recorded; a token as a whole is a rule.
-/

namespace Nondet.Grammar

namespace Token

def isWordChar (c : Char) : Bool := c.isAlphanum || c == '_' || c == '$'

def isWordStart (c : Char) : Bool := c.isAlpha || c == '_' || c == '$'

/-- The words that name nothing. -/
def reserved : List String :=
  ["function", "return", "if", "else", "let", "const", "var", "true", "false", "null", "undefined"]

/-- The word that comes next. -/
def word (c : Cursor) : String × Cursor :=
  let (taken, d) := c.takeWhile isWordChar
  (String.ofList taken, d)

/-- One of some words, with what it stands for. -/
def oneOf? {α : Type} (words : List (String × α)) (c : Cursor) : Option (α × Cursor) :=
  let (w, d) := word c
  (words.lookup w).map (·, d)

/-- A name that is not reserved. -/
def name? (c : Cursor) : Option (String × Cursor) :=
  match c.rest with
  | x :: _ =>
    if isWordStart x then
      let (w, d) := word c
      if w ∈ reserved then none else some (w, d)
    else none
  | [] => none

/-- A point with digits behind it. -/
def fraction? (c : Cursor) : Option (List Char × Cursor) := do
  let d ← c.literal? ['.']
  let (digits, e) := d.takeWhile Char.isDigit
  if digits.isEmpty then none else some (digits, e)

/-- The sign of an exponent, which may be left out: whether it is negative. -/
def sign (c : Cursor) : Bool × Cursor :=
  match c.literal? ['-'] with
  | some d => (true, d)
  | none   => (false, (c.literal? ['+']).getD c)

/-- An exponent mark, an optional sign and digits. -/
def exponent? (c : Cursor) : Option (Int × Cursor) := do
  let d ← (c.literal? ['e']).orElse fun _ => c.literal? ['E']
  let (negative, d) := sign d
  let (digits, e) := d.takeWhile Char.isDigit
  if digits.isEmpty then none
  else
    let size : Int := Decimal.digitsValue digits
    some (if negative then -size else size, e)

/-- Digits, and behind them a fraction and an exponent where there are such. -/
def numeral? (c : Cursor) : Option (Decimal.Numeral × Cursor) :=
  let (whole, d) := c.takeWhile Char.isDigit
  if whole.isEmpty then none
  else
    let (fraction, d) := (fraction? d).getD ([], d)
    let (exponent, d) := (exponent? d).getD (0, d)
    some (⟨whole, fraction, exponent⟩, d)

/-- Behind the characters that may stand in quotes: each of them is behind a backslash, or neither a
quote nor a backslash. -/
def insideQuotes (quote : Char) : List Char → Nat → Cursor
  | [],              offset => ⟨[], offset⟩
  | '\\' :: x :: xs, offset => insideQuotes quote xs (offset + 1 + x.utf8Size)
  | x :: xs,         offset =>
    if x = quote || x = '\\' then ⟨x :: xs, offset⟩
    else insideQuotes quote xs (offset + x.utf8Size)

end Token

end Nondet.Grammar
