import Nondet.Tree.Node

/-!
# Grammar — Chain

A chain of operands with operators between them becomes a tree by joining neighbours, the tightest
operators first and each kind from the left.  Calls bind tighter than prefix operators, and those
tighter than any operator between operands.  That is the tree which the powers of the operators give,
too (`Nondet.Proofs.Grammar.Pratt`), told level by level.
-/

namespace Nondet.Grammar

/-- An operator between two operands. -/
inductive Infix where
  | binary (op : BinaryOp)
  | logical (op : LogicalOp)
  deriving DecidableEq, Repr, Inhabited

namespace Infix

/-- How tightly an operator binds. -/
def level : Infix → Nat
  | .logical .or                                => 1
  | .logical .and                               => 2
  | .binary .strictEq | .binary .strictNe       => 3
  | .binary .lt | .binary .le                   => 4
  | .binary .gt | .binary .ge                   => 4
  | .binary .add | .binary .sub                 => 5
  | .binary .mul | .binary .div | .binary .rem  => 6

/-- All levels, the tightest first. -/
def levels : List Nat := [6, 5, 4, 3, 2, 1]

/-- Two operands joined; the span reaches from the left one to the right one. -/
def join (left : Node) (op : Infix) (right : Node) : Node :=
  let span := left.span.through right.span
  match op with
  | .binary op  => .binary span op left right
  | .logical op => .logical span op left right

end Infix

/-- Operands with operators between them. -/
structure Chain where
  first : Node
  others : List (Infix × Node)
  deriving Inhabited

namespace Chain

/-- Joins every pair of neighbours whose operator binds at `level`, from the left. -/
def joinLevel (level : Nat) (left : Node) : List (Infix × Node) → Chain
  | []                  => ⟨left, []⟩
  | (op, right) :: rest =>
    if op.level = level then joinLevel level (op.join left right) rest
    else
      let tail := joinLevel level right rest
      ⟨left, (op, tail.first) :: tail.others⟩

/-- The tree of a chain.  After the last level no operator is left. -/
def toNode (chain : Chain) : Node :=
  (Infix.levels.foldl (fun c level => joinLevel level c.first c.others) chain).first

end Chain

/-- A prefix operator and where it stands. -/
structure PrefixMark where
  op : UnaryOp
  span : Span
  deriving Repr, Inhabited

/-- The arguments of a call and where their parentheses stand. -/
structure ArgumentList where
  arguments : List Node
  span : Span
  deriving Inhabited

/-- An operand: calls apply to it from the left, then prefix operators from the right. -/
def operand (marks : List PrefixMark) (primary : Node) (calls : List ArgumentList) : Node :=
  let called := calls.foldl
    (fun callee args => .call (callee.span.through args.span) callee args.arguments) primary
  marks.foldr
    (fun mark argument => .unary (mark.span.through argument.span) mark.op argument) called

end Nondet.Grammar
