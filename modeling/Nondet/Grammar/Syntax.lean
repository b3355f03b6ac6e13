import Nondet.Grammar.Token
import Nondet.Grammar.Pair

/-!
# Grammar — Syntax

The grammar of scripts, rule by rule, as what it yields.  Each rule is given over the patterns for the
expressions and statements nested in it; `patternAt` closes the circle on a number of nestings, and
every nesting takes at least one character of the text.
-/

namespace Nondet.Grammar

/-- The two notions that scripts nest. -/
inductive Nested where
  | expression
  | statement
  deriving DecidableEq, Repr

namespace Syntax

open Pattern

/-! ### Tokens -/

def ident : Pattern := token .ident Token.name?

def number : Pattern := token .number Token.numeral?

/-- The quotes belong to the string, and what stands between them is a rule of its own. -/
def quoted (r : Rule) (quote : Char) : Pattern := do
  Parser.symbol [quote]
  let contents ← token r fun c => some ((), Token.insideQuotes quote c.rest c.offset)
  Parser.symbol [quote]
  return contents

def string : Pattern :=
  rule .string ((quoted .doubleQuoted '"').orElse (quoted .singleQuoted '\''))

/-- One of some words. -/
def words (r : Rule) (ws : List String) : Pattern :=
  token r (Token.oneOf? (ws.map fun w => (w, ())))

def boolean : Pattern := words .boolean ["true", "false"]

def null : Pattern := words .null ["null"]

def undefined : Pattern := words .undefined ["undefined"]

def declarationKind : Pattern := words .declarationKind ["let", "const", "var"]

/-- Some characters, under the rule that stands for them. -/
def operator (r : Rule) (text : List Char) : Pattern := rule r (symbol text)

/-! ### Statements -/

/-- The patterns for what is nested in a rule. -/
abbrev Inner := Nested → Pattern

namespace Inner

abbrev expression (inner : Inner) : Pattern := inner .expression

abbrev statement (inner : Inner) : Pattern := inner .statement

end Inner

def block (inner : Inner) : Pattern :=
  rule .block <| sequence [symbol ['\x7b'], many inner.statement, symbol ['\x7d']]

def params : Pattern :=
  rule .params <| sequence [symbol ['('], optional (separated [','] ident), symbol [')']]

def functionDeclaration (inner : Inner) : Pattern :=
  rule .functionDeclaration <|
    sequence [words .kwFunction ["function"], ident, params, block inner]

def variableDeclaration (inner : Inner) : Pattern :=
  rule .variableDeclaration <|
    sequence [declarationKind, ident, symbol ['='], inner.expression, symbol [';']]

def returnStatement (inner : Inner) : Pattern :=
  rule .returnStatement <|
    sequence [words .kwReturn ["return"], optional inner.expression, symbol [';']]

def ifStatement (inner : Inner) : Pattern :=
  rule .ifStatement <|
    sequence [words .kwIf ["if"], symbol ['('], inner.expression, symbol [')'], inner.statement,
      optional (sequence [words .kwElse ["else"], inner.statement])]

def expressionStatement (inner : Inner) : Pattern :=
  rule .expressionStatement <| sequence [inner.expression, symbol [';']]

/-- The statements in the order in which they are tried: a brace begins a block. -/
def statement (inner : Inner) : Pattern :=
  Parser.choice
    [functionDeclaration inner, variableDeclaration inner, returnStatement inner,
      ifStatement inner, block inner, expressionStatement inner]

/-! ### Expressions -/

def arrowFunction (inner : Inner) : Pattern :=
  rule .arrowFunction <|
    sequence [params.orElse ident, symbol ['=', '>'], (block inner).orElse inner.expression]

/-- Two equality signs are no assignment. -/
def assignment (inner : Inner) : Pattern :=
  rule .assignment <|
    sequence [ident, notNext ['=', '='], symbol ['='], inner.expression]

def prefixOperator : Pattern := (operator .neg ['-']).orElse (operator .not ['!'])

def call (inner : Inner) : Pattern :=
  rule .call <|
    sequence [symbol ['('], optional (separated [','] inner.expression), symbol [')']]

/-- Longer operators come before those they begin with. -/
def infixOperator : Pattern :=
  Parser.choice
    [operator .strictEq ['=', '=', '='], operator .strictNe ['!', '=', '='],
      operator .le ['<', '='], operator .ge ['>', '='], operator .lt ['<'], operator .gt ['>'],
      operator .add ['+'], operator .sub ['-'], operator .mul ['*'], operator .div ['/'],
      operator .rem ['%'], operator .and ['&', '&'], operator .or ['|', '|']]

/-- An operand without operators and calls.  Parentheses yield no pair of their own. -/
def primary (inner : Inner) : Pattern :=
  Parser.choice
    [number, string, boolean, null, undefined, ident,
      sequence [symbol ['('], inner.expression, symbol [')']]]

/-- The operands and the operators lie side by side; which operator takes which operand is not told
here. -/
def binary (inner : Inner) : Pattern :=
  rule .binary <|
    sequence [many prefixOperator, primary inner, many (call inner),
      many (sequence [infixOperator, many prefixOperator, primary inner, many (call inner)])]

def conditional (inner : Inner) : Pattern :=
  rule .conditional <|
    sequence [binary inner,
      optional (sequence [symbol ['?'], inner.expression, symbol [':'], inner.expression])]

/-- The expressions in the order in which they are tried. -/
def expression (inner : Inner) : Pattern :=
  rule .expression (Parser.choice [arrowFunction inner, assignment inner, conditional inner])

/-! ### Scripts -/

/-- The patterns with at most `fuel` nestings. -/
def patternAt : Nat → Inner
  | 0,        _           => Parser.fail
  | fuel + 1, .expression => fun c f => expression (patternAt fuel) c f
  | fuel + 1, .statement  => fun c f => statement (patternAt fuel) c f

/-- The text from its beginning to its end. -/
def main (inner : Inner) : Pattern :=
  rule .main <| sequence [startOfInput, many inner.statement, endOfInput]

end Syntax

/-- Each character allows for a statement and an expression in it. -/
def nestings (source : String) : Nat := 2 * source.length + 2

end Nondet.Grammar
