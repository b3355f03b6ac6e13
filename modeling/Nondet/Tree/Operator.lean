/-!
# Tree — Operator

The operators of the language and the keywords that introduce a variable, with their spelling.
-/

namespace Nondet

/-- The operators written before one operand. -/
inductive UnaryOp where
  | neg
  | not
  deriving DecidableEq, Repr, Inhabited

/-- The operators between two operands that are both evaluated. -/
inductive BinaryOp where
  | add
  | sub
  | mul
  | div
  | rem
  | strictEq
  | strictNe
  | lt
  | le
  | gt
  | ge
  deriving DecidableEq, Repr, Inhabited

/-- The operators whose left operand decides whether the right one is evaluated. -/
inductive LogicalOp where
  | and
  | or
  deriving DecidableEq, Repr, Inhabited

/-- The keywords that declare a variable. -/
inductive DeclarationKeyword where
  | let
  | const
  | var
  deriving DecidableEq, Repr, Inhabited

namespace UnaryOp

def symbol : UnaryOp → String
  | .neg => "-"
  | .not => "!"

end UnaryOp

namespace BinaryOp

def symbol : BinaryOp → String
  | .add      => "+"
  | .sub      => "-"
  | .mul      => "*"
  | .div      => "/"
  | .rem      => "%"
  | .strictEq => "==="
  | .strictNe => "!=="
  | .lt       => "<"
  | .le       => "<="
  | .gt       => ">"
  | .ge       => ">="

end BinaryOp

namespace LogicalOp

def symbol : LogicalOp → String
  | .and => "&&"
  | .or  => "||"

end LogicalOp

namespace DeclarationKeyword

def text : DeclarationKeyword → String
  | .let   => "let"
  | .const => "const"
  | .var   => "var"

/-- Only `const` declares a name that cannot be assigned again. -/
def isConstant : DeclarationKeyword → Bool
  | .const => true
  | _      => false

end DeclarationKeyword

end Nondet
