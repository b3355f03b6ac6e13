import Nondet.Grammar.Script
import Nondet.Proofs.Grammar.Chain

/-!
# Grammar — Fused

The grammar with what is built of it: every rule reads straight to the tree of its pair, and the
operators of a chain are joined level by level.  A script is read in this way to the same tree, and
fails in the same way (`parse_eq`), so what is proved of these parsers holds of `parse`.
-/

namespace Nondet.Grammar

/-! ### Tokens -/

namespace Token

/-- The characters up to a quote that no backslash stands before, as they are written. -/
def contents? (quote : Char) : List Char → List Char → Nat → Option (List Char × Cursor)
  | _,     [],               _      => none
  | taken, '\\' :: x :: xs, offset =>
    contents? quote (x :: '\\' :: taken) xs (offset + 1 + x.utf8Size)
  | taken, x :: xs,          offset =>
    if x = quote then some (taken.reverse, ⟨xs, offset + x.utf8Size⟩)
    else if x = '\\' then none
    else contents? quote (x :: taken) xs (offset + x.utf8Size)

/-- A text in double or single quotes, with its escapes replaced. -/
def string? (c : Cursor) : Option (String × Cursor) :=
  match c.rest with
  | x :: xs =>
    if x = '"' || x = '\'' then
      (contents? x [] xs (c.offset + 1)).map fun (raw, d) => (String.ofList (Text.unescape raw), d)
    else none
  | [] => none

end Token

namespace Parser

variable {α : Type}

/-- At least one item, with a separator between each two. -/
def separated (separator : List Char) (p : Parser α) : Parser (List α) := do
  let first ← p
  layout
  let others ← many do symbol separator; layout; p
  return first :: others

/-- Builds a value from the span of what was matched. -/
@[inline]
def spanned (p : Parser (Span → α)) : Parser α := fun c f =>
  match p c f with
  | (some (build, d), f) => (some (build ⟨c.offset, d.offset⟩, d), f)
  | (none, f)            => (none, f)

def name : Parser String := rule .ident (scan Token.name?)

def number : Parser Float :=
  rule .number (scan fun c => (Token.numeral? c).map fun (n, d) => (n.value, d))

def string : Parser String := rule .string (scan Token.string?)

def boolean : Parser Bool := rule .boolean (scan (Token.oneOf? [("true", true), ("false", false)]))

def null : Parser Unit := rule .null (scan (Token.oneOf? [("null", ())]))

def undefined : Parser Unit := rule .undefined (scan (Token.oneOf? [("undefined", ())]))

/-- A keyword, under the rule that stands for it. -/
def keyword (r : Rule) (text : String) : Parser Unit := rule r (scan (Token.oneOf? [(text, ())]))

def declarationKeyword : Parser DeclarationKeyword :=
  rule .declarationKind
    (scan (Token.oneOf? [("let", .let), ("const", .const), ("var", .var)]))

/-- Some characters, under the rule that stands for them. -/
def operator {α : Type} (r : Rule) (text : List Char) (a : α) : Parser α :=
  rule r do symbol text; return a

/-- The end of the text. -/
def endOfInput : Parser Unit :=
  rule .endOfInput fun c f => (if c.rest.isEmpty then some ((), c) else none, f)

end Parser

/-- The parsers for what is nested in a rule. -/
abbrev Inner := Nested → Parser Node

namespace Inner

abbrev expression (inner : Inner) : Parser Node := inner .expression

abbrev statement (inner : Inner) : Parser Node := inner .statement

end Inner

open Nondet.Grammar.Parser

/-! ### Statements -/

/-- Statements between braces. -/
def block (inner : Inner) : Parser Node :=
  rule .block <| spanned do
    symbol ['\x7b']
    layout
    let statements ← many inner.statement
    layout
    symbol ['\x7d']
    return fun span => .block span statements

/-- Names between parentheses, with commas between them. -/
def params : Parser (List String) :=
  rule .params do
    symbol ['(']
    layout
    let names ← optional (separated [','] name)
    layout
    symbol [')']
    return names.getD []

/-- `function name(params)` and a block. -/
def functionDeclaration (inner : Inner) : Parser Node :=
  rule .functionDeclaration <| spanned do
    keyword .kwFunction "function"
    layout
    let name ← name
    layout
    let params ← params
    layout
    let body ← block inner
    return fun span => .functionDeclaration span (some name) params .block body

/-- `let name = init;` with any of the three keywords. -/
def variableDeclaration (inner : Inner) : Parser Node :=
  rule .variableDeclaration <| spanned do
    let keyword ← declarationKeyword
    layout
    let name ← name
    layout
    symbol ['=']
    layout
    let init ← inner.expression
    layout
    symbol [';']
    return fun span => .variableDeclaration span keyword name init

/-- `return argument;` where the argument may be missing. -/
def returnStatement (inner : Inner) : Parser Node :=
  rule .returnStatement <| spanned do
    keyword .kwReturn "return"
    layout
    let argument ← optional inner.expression
    layout
    symbol [';']
    return fun span => .returnStatement span argument

/-- `if (test) statement`, with or without an `else`.  Without one the layout behind the branch
still belongs to the statement. -/
def ifStatement (inner : Inner) : Parser Node :=
  rule .ifStatement <| spanned do
    keyword .kwIf "if"
    layout
    symbol ['(']
    layout
    let test ← inner.expression
    layout
    symbol [')']
    layout
    let consequent ← inner.statement
    layout
    let alternate ← optional do
      keyword .kwElse "else"
      layout
      inner.statement
    return fun span => .ifStatement span test consequent alternate

/-- An expression with a semicolon. -/
def expressionStatement (inner : Inner) : Parser Node :=
  rule .expressionStatement <| spanned do
    let expression ← inner.expression
    layout
    symbol [';']
    return fun span => .expressionStatement span expression

/-- The statements in the order in which they are tried: a brace begins a block. -/
def statement (inner : Inner) : Parser Node :=
  choice
    [functionDeclaration inner, variableDeclaration inner, returnStatement inner,
      ifStatement inner, block inner, expressionStatement inner]

/-! ### Expressions -/

/-- One name stands for a list of one parameter. -/
def arrowParams : Parser (List String) := params.orElse do return [← name]

/-- What is behind an arrow: a brace begins a block. -/
def arrowBody (inner : Inner) : Parser (BodyForm × Node) :=
  Parser.orElse (do return (.block, ← block inner)) (do return (.expression, ← inner.expression))

/-- `params => body`. -/
def arrowFunction (inner : Inner) : Parser Node :=
  rule .arrowFunction <| spanned do
    let params ← arrowParams
    layout
    symbol ['=', '>']
    layout
    let (form, body) ← arrowBody inner
    return fun span => .arrowFunction span none params form body

/-- `name = value`.  Two equality signs are no assignment. -/
def assignment (inner : Inner) : Parser Node :=
  rule .assignment <| spanned do
    let name ← name
    layout
    notNext ['=', '=']
    layout
    symbol ['=']
    layout
    let value ← inner.expression
    return fun span => .assignment span name value

/-- One operator in front of an operand. -/
def prefixMark : Parser PrefixMark :=
  spanned do
    let op ← (operator .neg ['-'] UnaryOp.neg).orElse (operator .not ['!'] UnaryOp.not)
    return fun span => ⟨op, span⟩

/-- The parentheses of a call. -/
def argumentList (inner : Inner) : Parser ArgumentList :=
  rule .call <| spanned do
    symbol ['(']
    layout
    let arguments ← optional (separated [','] inner.expression)
    layout
    symbol [')']
    return fun span => ⟨arguments.getD [], span⟩

/-- Longer operators come before those they begin with. -/
def infixOperator : Parser Infix :=
  choice
    [operator .strictEq ['=', '=', '='] (.binary .strictEq),
      operator .strictNe ['!', '=', '='] (.binary .strictNe),
      operator .le ['<', '='] (.binary .le),
      operator .ge ['>', '='] (.binary .ge),
      operator .lt ['<'] (.binary .lt),
      operator .gt ['>'] (.binary .gt),
      operator .add ['+'] (.binary .add),
      operator .sub ['-'] (.binary .sub),
      operator .mul ['*'] (.binary .mul),
      operator .div ['/'] (.binary .div),
      operator .rem ['%'] (.binary .rem),
      operator .and ['&', '&'] (.logical .and),
      operator .or ['|', '|'] (.logical .or)]

/-- A token that is a value, with its span. -/
def literal {α : Type} (p : Parser α) (build : α → Literal) : Parser Node :=
  spanned do
    let value ← p
    return fun span => .literal span (build value)

/-- A name as an expression. -/
def identifier : Parser Node :=
  spanned do
    let name ← name
    return fun span => .identifier span name

/-- Parentheses leave no trace in the tree: the expression keeps its own span. -/
def parenthesised (inner : Inner) : Parser Node := do
  symbol ['(']
  layout
  let expression ← inner.expression
  layout
  symbol [')']
  return expression

/-- An operand without operators and calls. -/
def primary (inner : Inner) : Parser Node :=
  choice
    [literal number .number, literal string .string, literal boolean .bool,
      literal null fun _ => .null, literal undefined fun _ => .undefined,
      identifier, parenthesised inner]

/-- An operand with the operators in front of it and the calls behind it. -/
def operandExpression (inner : Inner) : Parser Node := do
  let marks ← many prefixMark
  layout
  let node ← primary inner
  layout
  let calls ← many (argumentList inner)
  return operand marks node calls

/-- Operands with operators between them. -/
def binary (inner : Inner) : Parser Node :=
  rule .binary do
    let first ← operandExpression inner
    layout
    let others ← many do
      let op ← infixOperator
      layout
      return (op, ← operandExpression inner)
    return Chain.toNode ⟨first, others⟩

/-- A choice spans all that was taken, with the layout at its end; a test without branches is
itself. -/
def conditional (inner : Inner) : Parser Node :=
  rule .conditional <| spanned do
    let test ← binary inner
    layout
    let branches ← optional do
      symbol ['?']
      layout
      let consequent ← inner.expression
      layout
      symbol [':']
      layout
      return (consequent, ← inner.expression)
    return fun span =>
      match branches with
      | some (consequent, alternate) => .conditional span test consequent alternate
      | none                         => test

/-- The expressions in the order in which they are tried. -/
def expression (inner : Inner) : Parser Node :=
  rule .expression (choice [arrowFunction inner, assignment inner, conditional inner])

/-! ### Scripts -/

/-- The parsers with at most `fuel` nestings. -/
def parserAt : Nat → Inner
  | 0,        _           => fail
  | fuel + 1, .expression => fun c f => expression (parserAt fuel) c f
  | fuel + 1, .statement  => fun c f => statement (parserAt fuel) c f

/-- The text from its beginning to its end as a list of statements. -/
def script (inner : Inner) : Parser Node :=
  rule .main <| spanned do
    layout
    let statements ← many inner.statement
    layout
    endOfInput
    return fun span => .program span statements

end Nondet.Grammar
