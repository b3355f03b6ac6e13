import Nondet.Failure
import Nondet.Decimal.Remainder

/-!
# Operation

What the operators do with values, and which values they take.  `+` and the comparisons take two
numbers or two strings, the other arithmetic two numbers, strict equality anything.  When the left
operand fits, the right one is to blame.
-/

namespace Nondet

/-- The type that an operation wanted and did not get. -/
def Mistake.wrongType (operation : String) (side : Option Side) (expected : String) (got : Value) :
    Mistake :=
  .type operation side expected got.typeName

/-- The value of a unary operator. -/
def UnaryOp.apply (op : UnaryOp) (v : Value) : Except Mistake Value :=
  match op, v with
  | .neg, .number x => .ok (.number (-x))
  | .not, .bool b   => .ok (.bool !b)
  | .neg, v         => .error (.wrongType op.symbol none "number" v)
  | .not, v         => .error (.wrongType op.symbol none "boolean" v)

namespace BinaryOp

/-- What an operator asks of its operands. -/
inductive Demand where
  /-- Anything. -/
  | any
  /-- Two numbers, or two strings. -/
  | alike
  /-- Two numbers. -/
  | numbers
  deriving DecidableEq, Repr

/-- Equality takes anything; of the others only `+` and the comparisons take strings. -/
def demand : BinaryOp → Demand
  | .strictEq | .strictNe               => .any
  | .add | .lt | .le | .gt | .ge        => .alike
  | .sub | .mul | .div | .rem           => .numbers

/-- The complaint about two operands, if there is one. -/
def complaint? (op : BinaryOp) (left right : Value) : Option Mistake :=
  match op.demand, left, right with
  | .any,     _,         _         => none
  | .alike,   .number _, .number _ => none
  | .alike,   .string _, .string _ => none
  | .alike,   .number _, _         => some (.wrongType op.symbol (some .right) left.typeName right)
  | .alike,   .string _, _         => some (.wrongType op.symbol (some .right) left.typeName right)
  | .alike,   _,         _         =>
    some (.wrongType op.symbol (some .left) "string or number" left)
  | .numbers, .number _, .number _ => none
  | .numbers, .number _, _         => some (.wrongType op.symbol (some .right) "number" right)
  | .numbers, _,         _         => some (.wrongType op.symbol (some .left) "number" left)

/-- Operations on two numbers.  Comparisons with what is no number are false. -/
def onNumbers (op : BinaryOp) (x y : Float) : Value :=
  match op with
  | .add      => .number (x + y)
  | .sub      => .number (x - y)
  | .mul      => .number (x * y)
  | .div      => .number (x / y)
  | .rem      => .number (Decimal.remainder x y)
  | .lt       => .bool (x < y)
  | .le       => .bool (x ≤ y)
  | .gt       => .bool (y < x)
  | .ge       => .bool (y ≤ x)
  | .strictEq => .bool (x == y)
  | .strictNe => .bool (x != y)

/-- Operations on two strings, which are compared by their code points. -/
def onStrings (op : BinaryOp) (s t : String) : Value :=
  match op with
  | .add      => .string (s ++ t)
  | .lt       => .bool (s < t)
  | .le       => .bool !(t < s)
  | .gt       => .bool (t < s)
  | .ge       => .bool !(s < t)
  | .strictEq => .bool (s == t)
  | .strictNe => .bool (s != t)
  | _         => .undefined

/-- The value of an operator on operands it does not complain about. -/
def compute (op : BinaryOp) (left right : Value) : Value :=
  match op, left, right with
  | .strictEq, v,         w         => .bool (v.equal w)
  | .strictNe, v,         w         => .bool !(v.equal w)
  | op,        .number x, .number y => op.onNumbers x y
  | op,        .string s, .string t => op.onStrings s t
  | _,         _,         _         => .undefined

/-- The value of a binary operator. -/
def apply (op : BinaryOp) (left right : Value) : Except Mistake Value :=
  match op.complaint? left right with
  | some mistake => .error mistake
  | none         => .ok (op.compute left right)

end BinaryOp

/-- What a branch depends on: how type errors call it, and which operand it is. -/
structure Test where
  operation : String
  side : Option Side
  deriving DecidableEq, Repr, Inhabited

/-- Only the two truth values decide a branch. -/
def Test.decide (test : Test) (v : Value) : Except Mistake Bool :=
  match v with
  | .bool b => .ok b
  | v       => .error (.wrongType test.operation test.side "boolean" v)

end Nondet
