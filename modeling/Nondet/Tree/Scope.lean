import Nondet.Tree.Node
import Nondet.Distinct

/-!
# Tree — Scope

The names that are in scope at an offset of a script.  A scope is the script, a block, or a
function with its parameters; each scope whose span contains the offset contributes what is
declared directly in it, the outermost first, and a name that several declare keeps its first
place.  The walk enters no node whose span misses the offset.
-/

namespace Nondet

namespace Node

/-- The names that statements declare in the scope they stand in. -/
def declared (statements : List Node) : List String := statements.filterMap Node.declaredName?

mutual

/-- Every name that a scope around the offset declares, with repetitions. -/
def namesAround (offset : Nat) (n : Node) : List String :=
  if n.span.contains offset then
    match n with
    | .literal _ _ | .identifier _ _      => []
    | .call _ callee arguments            =>
      namesAround offset callee ++ namesAroundEach offset arguments
    | .unary _ _ argument                 => namesAround offset argument
    | .binary _ _ left right              => namesAround offset left ++ namesAround offset right
    | .logical _ _ left right             => namesAround offset left ++ namesAround offset right
    | .conditional _ test consequent alternate =>
      namesAround offset test ++ namesAround offset consequent ++ namesAround offset alternate
    | .variableDeclaration _ _ _ init     => namesAround offset init
    | .assignment _ _ value               => namesAround offset value
    | .functionDeclaration _ _ params _ body => params ++ namesAround offset body
    | .arrowFunction _ _ params _ body       => params ++ namesAround offset body
    | .ifStatement _ test consequent alternate =>
      namesAround offset test ++ namesAround offset consequent ++ namesAroundOption offset alternate
    | .returnStatement _ argument         => namesAroundOption offset argument
    | .block _ statements                 =>
      declared statements ++ namesAroundEach offset statements
    | .expressionStatement _ expression   => namesAround offset expression
    | .program _ statements               =>
      declared statements ++ namesAroundEach offset statements
  else []

/-- The same for every node of a list. -/
def namesAroundEach (offset : Nat) : List Node → List String
  | []      => []
  | n :: ns => namesAround offset n ++ namesAroundEach offset ns

/-- The same for a node that may be missing. -/
def namesAroundOption (offset : Nat) : Option Node → List String
  | none   => []
  | some n => namesAround offset n

end

end Node

/-- The names declared in every scope around an offset, the outermost first. -/
def declarationsAt (program : Node) (offset : Nat) : List String :=
  distinct (program.namesAround offset)

end Nondet
