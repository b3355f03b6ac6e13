import Nondet.Frame

/-!
# Failure

Why an evaluation stopped: a mistake of the script, at the span of the node that made it, or a
limit that was reached.
-/

namespace Nondet

/-- The operand of an operator that an error speaks of. -/
inductive Side where
  | left
  | right
  deriving DecidableEq, Repr, Inhabited

def Side.text : Side → String
  | .left  => "left"
  | .right => "right"

/-- The mistakes that a running script can make. -/
inductive Mistake where
  /-- A name is declared twice in one frame, or defined without having been declared. -/
  | redeclared (name : String) (isMutable : Bool)
  /-- A name is read before its declaration was run. -/
  | unassigned (name : String)
  /-- No frame around has the name. -/
  | undefined (name : String)
  /-- A constant is assigned to. -/
  | constant (name : String)
  | argumentCount (expected got : Nat)
  /-- Something is called that is no function; `callee` is its text. -/
  | notFunction (callee : String)
  /-- A value has the wrong type for what is done with it. -/
  | type (operation : String) (side : Option Side) (expected got : String)
  /-- A native failed for a reason of its own. -/
  | exception (message : String)
  deriving DecidableEq, Repr, Inhabited

/-- What was found where a value has to stand but `cut` does. -/
def cutText : String := "cut"

namespace Mistake

def message : Mistake → String
  | .redeclared name true           => "variable '" ++ name ++ "' has already been declared"
  | .redeclared name false          => "constant '" ++ name ++ "' has already been declared"
  | .unassigned name                => "name '" ++ name ++ "' was read before it was assigned"
  | .undefined name                 => "name '" ++ name ++ "' is not declared"
  | .constant name                  => "cannot assign to constant '" ++ name ++ "'"
  | .argumentCount expected got     =>
    "expected " ++ toString expected ++ " argument(s) but got " ++ toString got
  | .notFunction callee             => "calling non-function value " ++ callee
  | .type operation none expected got =>
    "expected " ++ expected ++ " in " ++ operation ++ ", got " ++ got
  | .type operation (some side) expected got =>
    side.text ++ " hand side: expected " ++ expected ++ " in " ++ operation ++ ", got " ++ got
  | .exception message              => "error during native call: " ++ message

/-- The mistake that a refused operation on a name amounts to. -/
def ofBind (failure : BindFailure) (name : String) : Mistake :=
  match failure with
  | .redeclared isMutable => .redeclared name isMutable
  | .unassigned           => .unassigned name
  | .undefined            => .undefined name
  | .constant             => .constant name

end Mistake

/-- The limits that an evaluation can reach. -/
inductive Limit where
  /-- The number of frames on the stack when a function is called. -/
  | stack
  /-- The number of nodes being evaluated inside one another. -/
  | nesting
  deriving DecidableEq, Repr, Inhabited

/-- Why an evaluation stopped. -/
inductive Failure where
  | mistake (mistake : Mistake) (span : Span)
  | exceeded (limit : Limit) (depth maximum : Nat) (span : Span)
  deriving DecidableEq, Repr, Inhabited

namespace Failure

def span : Failure → Span
  | .mistake _ span      => span
  | .exceeded _ _ _ span => span

def message : Failure → String
  | .mistake m _ => m.message
  | .exceeded .stack depth maximum _ =>
    "evaluation stack overflow: depth " ++ toString depth ++ " exceeds maximum of "
      ++ toString maximum
  | .exceeded .nesting depth maximum _ =>
    "evaluation nested too deeply: depth " ++ toString depth ++ " exceeds maximum of "
      ++ toString maximum

end Failure

end Nondet
