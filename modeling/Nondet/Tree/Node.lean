import Nondet.Tree.Span
import Nondet.Tree.Operator

/-!
# Tree — Node

The tree a script is read into.  Every node carries the span it was read from.  The tree does not say
which nodes stand where: statements and expressions are one type, and the reader is what keeps them in
their places.
-/

namespace Nondet

/-- The constants a script can write down. -/
inductive Literal where
  | number (x : Float)
  | string (s : String)
  | bool (b : Bool)
  | null
  | undefined
  deriving Inhabited

/-- How a function's body was written: as a block, or as an expression it returns. -/
inductive BodyForm where
  | block
  | expression
  deriving DecidableEq, Repr, Inhabited

/-- A statement, an expression or a whole script. -/
inductive Node where
  | literal (span : Span) (value : Literal)
  | identifier (span : Span) (name : String)
  | call (span : Span) (callee : Node) (arguments : List Node)
  | unary (span : Span) (op : UnaryOp) (argument : Node)
  | binary (span : Span) (op : BinaryOp) (left right : Node)
  | logical (span : Span) (op : LogicalOp) (left right : Node)
  | conditional (span : Span) (test consequent alternate : Node)
  | variableDeclaration (span : Span) (keyword : DeclarationKeyword) (name : String) (init : Node)
  | assignment (span : Span) (name : String) (value : Node)
  | functionDeclaration (span : Span) (name : Option String) (params : List String)
      (form : BodyForm) (body : Node)
  | arrowFunction (span : Span) (name : Option String) (params : List String)
      (form : BodyForm) (body : Node)
  | ifStatement (span : Span) (test consequent : Node) (alternate : Option Node)
  | returnStatement (span : Span) (argument : Option Node)
  | block (span : Span) (statements : List Node)
  | expressionStatement (span : Span) (expression : Node)
  | program (span : Span) (statements : List Node)
  deriving Inhabited

namespace Node

def span : Node → Span
  | .literal s _
  | .identifier s _
  | .call s _ _
  | .unary s _ _
  | .binary s _ _ _
  | .logical s _ _ _
  | .conditional s _ _ _
  | .variableDeclaration s _ _ _
  | .assignment s _ _
  | .functionDeclaration s _ _ _ _
  | .arrowFunction s _ _ _ _
  | .ifStatement s _ _ _
  | .returnStatement s _
  | .block s _
  | .expressionStatement s _
  | .program s _ => s

/-- The nodes directly below, in the order they were written. -/
def children : Node → List Node
  | .literal _ _ | .identifier _ _          => []
  | .call _ callee arguments                => callee :: arguments
  | .unary _ _ a                            => [a]
  | .binary _ _ l r | .logical _ _ l r      => [l, r]
  | .conditional _ t c a                    => [t, c, a]
  | .variableDeclaration _ _ _ n            => [n]
  | .assignment _ _ n                       => [n]
  | .functionDeclaration _ _ _ _ body       => [body]
  | .arrowFunction _ _ _ _ body             => [body]
  | .ifStatement _ t c a                    => t :: c :: a.toList
  | .returnStatement _ a                    => a.toList
  | .block _ ss | .program _ ss             => ss
  | .expressionStatement _ e                => [e]

/-- The statements of a list-like node; any other node is a list of itself. -/
def statements : Node → List Node
  | .block _ ss | .program _ ss => ss
  | n                           => [n]

/-- The name a statement declares in the scope it stands in. -/
def declaredName? : Node → Option String
  | .variableDeclaration _ _ name _     => some name
  | .functionDeclaration _ name _ _ _   => name
  | _                                   => none

end Node

/-- What a function value keeps of the node it was made from.  The span is that of the node; a
function that a host puts together without one stands nowhere. -/
structure Function where
  name : Option String
  params : List String
  form : BodyForm
  body : Node
  /-- The span of the node that the function was made of. -/
  span : Span := .zero
  deriving Inhabited

namespace Function

/-- The name shown for a function that has none is `anonymous`. -/
def displayName (f : Function) : String := f.name.getD "anonymous"

/-- The body as a block: an expression body `e` is the block `{ return e; }`. -/
def block (f : Function) : Node :=
  match f.form with
  | .block      => f.body
  | .expression => .block f.body.span [.returnStatement f.body.span (some f.body)]

/-- The statements a call runs.  A body that is not a block is run as a single statement. -/
def statements (f : Function) : List Node :=
  match f.block with
  | .block _ ss => ss
  | n           => [n]

end Function

end Nondet
