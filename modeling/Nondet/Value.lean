import Nondet.Tree.Node
import Nondet.Text.Quoted
import Nondet.Decimal.Style

/-!
# Value

The values that scripts compute with.  A closure is a function together with the frame it was made
in and a number of its own: two closures are the same when they were made at the same moment, never
because they look alike.  A native is known by its name alone; the host says what it does.
-/

namespace Nondet

/-- Frames are known by the order in which they were created. -/
abbrev FrameId := Nat

/-- A function value. -/
structure Closure where
  /-- No two closures share it. -/
  id : Nat
  function : Function
  /-- The frame that was current when the function was evaluated. -/
  frame : FrameId
  deriving Inhabited

/-- What expressions evaluate to. -/
inductive Value where
  | undefined
  | null
  | bool (b : Bool)
  | number (x : Float)
  | string (s : String)
  | closure (c : Closure)
  | native (name : String)
  deriving Inhabited

namespace Closure

def name (c : Closure) : String := c.function.displayName

def params (c : Closure) : List String := c.function.params

end Closure

/-- The constant that a literal stands for. -/
def Literal.value : Literal → Value
  | .number x  => .number x
  | .string s  => .string s
  | .bool b    => .bool b
  | .null      => .null
  | .undefined => .undefined

namespace Value

/-! ### Kinds of values -/

/-- The name of a value's type, as error messages give it. -/
def typeName : Value → String
  | .undefined => "undefined"
  | .null      => "null"
  | .bool _    => "boolean"
  | .number _  => "number"
  | .string _  => "string"
  | .closure _ => "function"
  | .native _  => "function"

def asBool? : Value → Option Bool
  | .bool b => some b
  | _       => none

def asNumber? : Value → Option Float
  | .number x => some x
  | _         => none

def asString? : Value → Option String
  | .string s => some s
  | _         => none

def asClosure? : Value → Option Closure
  | .closure c => some c
  | _          => none

def isFunction : Value → Bool
  | .closure _ | .native _ => true
  | _                      => false

def isUndefined : Value → Bool
  | .undefined => true
  | _          => false

/-- Closures are equal when they are the same closure, natives when they have one name, numbers as
numbers compare: zero has no sign and what is no number equals nothing. -/
def equal : Value → Value → Bool
  | .undefined, .undefined   => true
  | .null,      .null        => true
  | .bool a,    .bool b      => a == b
  | .number x,  .number y    => x == y
  | .string s,  .string t    => s == t
  | .closure c, .closure d   => c.id == d.id
  | .native m,  .native n    => m == n
  | _,          _            => false

/-! ### Text forms -/

/-- Numbers as scripts see them: one zero, and infinity in full. -/
def numbers : Decimal.Style :=
  { infinity := "Infinity", signedZero := false, pointed := false, exponential := false }

/-- Numbers with both zeros told apart. -/
def signedNumbers : Decimal.Style := { numbers with signedZero := true }

/-- Numbers for the eyes of a programmer: always a point or an exponent. -/
def debugNumbers : Decimal.Style :=
  { infinity := "inf", signedZero := true, pointed := true, exponential := true }

/-- The value as a script would write it, as far as it can be written, where the characters of a class
are written by their numbers. -/
def textWith (hidden : Char → Bool) : Value → String
  | .undefined  => "undefined"
  | .null       => "null"
  | .bool true  => "true"
  | .bool false => "false"
  | .number x   => numbers.write x
  | .string s   => Text.quoteWith hidden s
  | .closure c  => "[Function " ++ c.name ++ "]"
  | .native n   => "[Native " ++ n ++ "]"

/-- The value as a script would write it. -/
def text : Value → String := textWith Text.isHidden

/-- The same without quotes around a string. -/
def plainText : Value → String
  | .string s => s
  | v         => v.text

/-- The value with the name of its kind. -/
def debugText : Value → String
  | .undefined  => "Undefined"
  | .null       => "Null"
  | .bool true  => "Bool(true)"
  | .bool false => "Bool(false)"
  | .number x   => "Number(" ++ debugNumbers.write x ++ ")"
  | .string s   => "Str(" ++ Text.quote s ++ ")"
  | .closure c  => "Closure(" ++ c.name ++ ")"
  | .native n   => "Native(" ++ n ++ ")"

end Value

/-- The closure's name and parameters; its frame may lead back to it and is left out. -/
def Closure.debugText (c : Closure) : String :=
  "Closure \x7b name: " ++ Text.quote c.name ++ ", params: ["
    ++ ", ".intercalate (c.params.map Text.quote) ++ "], .. \x7d"

end Nondet
