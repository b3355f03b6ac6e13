import Nondet.Native

/-!
# Native — Prelude

The natives that a session starts with: texts of values, tests of their types, failing on
purpose, and a little arithmetic.
-/

namespace Nondet.Prelude

/-! ### Arguments -/

/-- A native of exactly one argument. -/
def unary (name : String) (f : Value → Except NativeFailure Value) : Native
  | [v] => f v
  | vs  =>
    .error (.refused (name ++ " expects 1 argument(s), got " ++ toString vs.length))

/-- A number, or a complaint about its type. -/
def number (name : String) : Value → Except NativeFailure Float
  | .number x => .ok x
  | v         => .error (.refused (name ++ " expects a number, got " ++ v.typeName))

/-- A native that tests one value. -/
def test (name : String) (p : Value → Bool) : Native := unary name fun v => .ok (.bool (p v))

/-- A native of one number. -/
def arithmetic (name : String) (f : Float → Float) : Native :=
  unary name fun v => (number name v).map (.number ∘ f)

/-- A native that combines its numbers, of which there must be one. -/
def combine (name : String) (f : Float → Float → Float) : Native
  | []      => .error (.refused (name ++ " expects at least one argument"))
  | v :: vs => do
    let first ← number name v
    let result ← vs.foldlM (fun x w => (number name w).map (f x)) first
    return .number result

/-! ### The natives -/

/-- The texts of all arguments with spaces between them. -/
def display : Native := fun vs => .ok (.string (" ".intercalate (vs.map Value.plainText)))

/-- The text of one value, a string with its quotes and with the characters of a class by number. -/
def stringifyWith (hidden : Char → Bool) : Native :=
  unary "stringify" fun v => .ok (.string (v.textWith hidden))

/-- The text of one value, a string with its quotes. -/
def stringify : Native := stringifyWith Text.isHidden

/-- Fails with its argument's text. -/
def error : Native := fun vs => .error (.refused ((vs.head?.map Value.plainText).getD ""))

/-- The larger of two numbers.  One that is no number is passed over. -/
def larger (x y : Float) : Float :=
  if x.isNaN then y else if y.isNaN then x else if x < y then y else x

/-- The smaller of two numbers.  One that is no number is passed over. -/
def smaller (x y : Float) : Float :=
  if x.isNaN then y else if y.isNaN then x else if y < x then y else x

/-- Every native, in the order in which a session binds them. -/
def natives : List (String × Native) :=
  [("display", display), ("stringify", stringify),
    ("is_number", test "is_number" fun v => v.asNumber?.isSome),
    ("is_string", test "is_string" fun v => v.asString?.isSome),
    ("is_boolean", test "is_boolean" fun v => v.asBool?.isSome),
    ("is_function", test "is_function" Value.isFunction),
    ("is_undefined", test "is_undefined" Value.isUndefined),
    ("error", error),
    ("math_abs", arithmetic "math_abs" Float.abs),
    ("math_floor", arithmetic "math_floor" Float.floor),
    ("math_sqrt", arithmetic "math_sqrt" Float.sqrt),
    ("math_max", combine "math_max" larger),
    ("math_min", combine "math_min" smaller)]

/-- The prelude as a host. -/
def host : Host := fun name => natives.lookup name

end Nondet.Prelude
