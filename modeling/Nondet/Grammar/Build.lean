import Nondet.Decimal.Reading
import Nondet.Text.Quoted
import Nondet.Tree.Node
import Nondet.Grammar.Pratt
import Nondet.Grammar.Syntax

/-!
# Grammar — Build

The trees of pairs.  Every builder takes a pair of some rules, and the pairs inside it one after the
other, in the order in which the grammar yields them; a part that is not there, or that is a pair of
another rule, is a malformed one.  Each builder is given over the builders for what is nested in its
pair; `builderAt` closes the circle on a depth of pairs.
-/

namespace Nondet.Grammar

/-- What builds the nodes of the pairs nested in a pair. -/
abbrev Builder := Nested → Pair → Except Failure Node

namespace Builder

abbrev statement (build : Builder) (p : Pair) : Except Failure Node := build .statement p

abbrev expression (build : Builder) (p : Pair) : Except Failure Node := build .expression p

end Builder

namespace Pair

/-- The next pair and those behind it. -/
def next (ps : List Pair) (expected : String) (span : Span) : Except Failure (Pair × List Pair) :=
  match ps with
  | []      => .error (.malformed expected span)
  | p :: ps => .ok (p, ps)

/-- The names of the pairs inside a parameter list. -/
def params (p : Pair) : List String := p.inner.map text

/-! ### Operands and operators -/

/-- An operand without operators and calls. -/
def primary (build : Builder) (p : Pair) : Except Failure Node :=
  match p.rule with
  | .number =>
    match Decimal.read? p.text with
    | some x => return .literal p.span (.number x)
    | none   => throw (.invalidLiteral "number" p.text p.span)
  | .string => do
    let (contents, _) ← next p.inner "string contents" p.span
    return .literal p.span (.string (String.ofList (Text.unescape contents.text.toList)))
  | .boolean    => return .literal p.span (.bool (p.text == "true"))
  | .null       => return .literal p.span .null
  | .undefined  => return .literal p.span .undefined
  | .ident      => return .identifier p.span p.text
  | .expression => build.expression p
  | _           => throw (.malformed "operand" p.span)

/-- An operator in front of its operand. -/
def unary (op : Pair) (operand : Except Failure Node) : Except Failure Node := do
  let argument ← operand
  match op.rule with
  | .neg => return .unary (op.span.through argument.span) .neg argument
  | .not => return .unary (op.span.through argument.span) .not argument
  | _    => throw (.malformed "prefix operator" op.span)

/-- An operator between its operands. -/
def joined (left : Except Failure Node) (op : Pair) (right : Except Failure Node) :
    Except Failure Node := do
  let left ← left
  let right ← right
  let span := left.span.through right.span
  let binary (operator : BinaryOp) : Node := .binary span operator left right
  let logical (operator : LogicalOp) : Node := .logical span operator left right
  match op.rule with
  | .and      => return logical .and
  | .or       => return logical .or
  | .add      => return binary .add
  | .sub      => return binary .sub
  | .mul      => return binary .mul
  | .div      => return binary .div
  | .rem      => return binary .rem
  | .strictEq => return binary .strictEq
  | .strictNe => return binary .strictNe
  | .lt       => return binary .lt
  | .le       => return binary .le
  | .gt       => return binary .gt
  | .ge       => return binary .ge
  | _         => throw (.malformed "binary operator" op.span)

/-- A call behind its callee. -/
def call (build : Builder) (callee : Except Failure Node) (op : Pair) : Except Failure Node := do
  let callee ← callee
  let arguments ← op.inner.mapM build.expression
  return .call (callee.span.through op.span) callee arguments

/-- A chain of operands and operators. -/
def binary (build : Builder) (p : Pair) : Except Failure Node := do
  let tree ← Fold.chain ⟨primary build, unary, joined, call build⟩ p.inner
  tree

/-! ### Statements and expressions -/

def statements (build : Builder) (ps : List Pair) : Except Failure (List Node) :=
  (ps.filter (·.rule ≠ .endOfInput)).mapM build.statement

/-- What the text of a declaration kind stands for. -/
def declarationKeyword (p : Pair) : DeclarationKeyword :=
  if p.text = "const" then .const else if p.text = "var" then .var else .let

def statement (build : Builder) (p : Pair) : Except Failure Node :=
  match p.rule with
  | .block => do
    return .block p.span (← statements build p.inner)
  | .functionDeclaration => do
    let (_, rest) ← next p.inner "`function`" p.span
    let (name, rest) ← next rest "function name" p.span
    let (params, rest) ← next rest "parameter list" p.span
    let (body, _) ← next rest "function body" p.span
    return .functionDeclaration p.span (some name.text) params.params .block (← build.statement body)
  | .variableDeclaration => do
    let (keyword, rest) ← next p.inner "declaration kind" p.span
    let (name, rest) ← next rest "variable name" p.span
    let (init, _) ← next rest "initializer" p.span
    return .variableDeclaration p.span keyword.declarationKeyword name.text (← build.expression init)
  | .returnStatement => do
    let (_, rest) ← next p.inner "`return`" p.span
    return .returnStatement p.span (← rest.head?.mapM build.expression)
  | .ifStatement => do
    let (_, rest) ← next p.inner "`if`" p.span
    let (test, rest) ← next rest "condition" p.span
    let test ← build.expression test
    let (consequent, rest) ← next rest "consequent" p.span
    let consequent ← build.statement consequent
    match rest with
    | []        => return .ifStatement p.span test consequent none
    | _ :: rest =>
      let (alternate, _) ← next rest "alternate" p.span
      return .ifStatement p.span test consequent (some (← build.statement alternate))
  | .expressionStatement => do
    let (expression, _) ← next p.inner "expression" p.span
    return .expressionStatement p.span (← build.expression expression)
  | _ => throw (.malformed "statement" p.span)

/-- What is behind an arrow. -/
def arrowBody (build : Builder) (p : Pair) : Except Failure (BodyForm × Node) :=
  match p.rule with
  | .block => do return (.block, ← build.statement p)
  | _      => do return (.expression, ← build.expression p)

def expression (build : Builder) (p : Pair) : Except Failure Node :=
  match p.rule with
  | .expression => do
    let (inner, _) ← next p.inner "expression" p.span
    build.expression inner
  | .arrowFunction => do
    let (head, rest) ← next p.inner "parameters" p.span
    let params := if head.rule = .params then head.params else [head.text]
    let (body, _) ← next rest "arrow body" p.span
    let (form, body) ← arrowBody build body
    return .arrowFunction p.span none params form body
  | .assignment => do
    let (name, rest) ← next p.inner "assignment target" p.span
    let (value, _) ← next rest "assigned value" p.span
    return .assignment p.span name.text (← build.expression value)
  | .conditional => do
    let (test, rest) ← next p.inner "operand" p.span
    let test ← binary build test
    match rest with
    | []                 => return test
    | consequent :: rest =>
      let consequent ← build.expression consequent
      let (alternate, _) ← next rest "`:` branch" p.span
      return .conditional p.span test consequent (← build.expression alternate)
  | .binary => binary build p
  | _       => primary build p

/-- The builders for pairs that are at most so deep. -/
def builderAt : Nat → Builder
  | 0,         .statement  => fun p => throw (.malformed "statement" p.span)
  | 0,         .expression => fun p => throw (.malformed "operand" p.span)
  | depth + 1, .statement  => statement (builderAt depth)
  | depth + 1, .expression => expression (builderAt depth)

/-- The tree of the pairs of a script. -/
def script (ps : List Pair) (size : Nat) : Except Failure Node := do
  let (main, _) ← next ps "program" ⟨0, size⟩
  return .program main.span (← statements (builderAt main.depth) main.inner)

end Pair

end Nondet.Grammar
