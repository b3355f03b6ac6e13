import Nondet.Tree.Node
import Nondet.Text.Quoted
import Nondet.Decimal.Style

/-!
# Tree — Render

A tree as one line of nested parentheses: the head names the shape, the children follow.  Spans
are left out, and so is everything that only spelling decides: two function bodies written as an
expression and as a block differ here because the block is a node of its own.
-/

namespace Nondet

/-- Numbers in a rendered tree: both zeros, and a short word for infinity. -/
def Literal.numbers : Decimal.Style :=
  { infinity := "inf", signedZero := true, pointed := false, exponential := false }

/-- A literal as one word, a string in quotes with the characters of a class by number. -/
def Literal.renderWith (hidden : Char → Bool) : Literal → String
  | .number x   => Literal.numbers.write x
  | .string s   => Text.quoteWith hidden s
  | .bool true  => "true"
  | .bool false => "false"
  | .null       => "null"
  | .undefined  => "undefined"

/-- The head of a function: its name, or an arrow when it has none, and its parameters. -/
def renderHead (name : Option String) (params : List String) : String :=
  "(function " ++ name.getD "=>" ++ " (" ++ " ".intercalate params ++ ")"

namespace Node

section

variable (hidden : Char → Bool)

mutual

/-- The tree on one line, where the characters of a class are written by their numbers. -/
def renderWith : Node → String
  | .literal _ value              => value.renderWith hidden
  | .identifier _ name            => name
  | .call _ callee arguments      => "(call " ++ callee.renderWith ++ renderEach arguments ++ ")"
  | .unary _ op argument          => "(" ++ op.symbol ++ " " ++ argument.renderWith ++ ")"
  | .binary _ op left right       =>
    "(" ++ op.symbol ++ " " ++ left.renderWith ++ " " ++ right.renderWith ++ ")"
  | .logical _ op left right      =>
    "(" ++ op.symbol ++ " " ++ left.renderWith ++ " " ++ right.renderWith ++ ")"
  | .conditional _ test consequent alternate =>
    "(? " ++ test.renderWith ++ " " ++ consequent.renderWith ++ " " ++ alternate.renderWith ++ ")"
  | .variableDeclaration _ keyword name init =>
    "(" ++ keyword.text ++ " " ++ name ++ " " ++ init.renderWith ++ ")"
  | .assignment _ name value      => "(= " ++ name ++ " " ++ value.renderWith ++ ")"
  | .functionDeclaration _ name params _ body => renderHead name params ++ " " ++ body.renderWith ++ ")"
  | .arrowFunction _ name params _ body       => renderHead name params ++ " " ++ body.renderWith ++ ")"
  | .ifStatement _ test consequent alternate  =>
    "(if " ++ test.renderWith ++ " " ++ consequent.renderWith ++ renderOption alternate ++ ")"
  | .returnStatement _ argument   => "(return" ++ renderOption argument ++ ")"
  | .block _ statements           => "(block" ++ renderEach statements ++ ")"
  | .expressionStatement _ expression => expression.renderWith ++ ";"
  | .program _ statements         => "(program" ++ renderEach statements ++ ")"

/-- Every node behind a space. -/
def renderEach : List Node → String
  | []      => ""
  | n :: ns => " " ++ n.renderWith ++ renderEach ns

/-- A node that may be missing, behind a space. -/
def renderOption : Option Node → String
  | none   => ""
  | some n => " " ++ n.renderWith

end

end

/-- The tree on one line. -/
def render (n : Node) : String := n.renderWith Text.isHidden

end Node

end Nondet
