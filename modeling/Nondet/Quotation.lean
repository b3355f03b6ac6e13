import Nondet.Context

/-!
# Quotation

Values as nodes that evaluate to them, and the way back.  A negative number is written as the
negation of a positive one, as a script would have to write it; functions, infinities and what is no
number cannot be written.  The way back also knows the names of natives.
-/

namespace Nondet

/-- The node that evaluates to a value, if it can be written. -/
def Value.toNode? (v : Value) (span : Span) : Option Node :=
  match v with
  | .undefined => some (.literal span .undefined)
  | .null      => some (.literal span .null)
  | .bool b    => some (.literal span (.bool b))
  | .string s  => some (.literal span (.string s))
  | .number x  =>
    if !x.isFinite then none
    else if x < 0 then some (.unary span .neg (.literal span (.number (-x))))
    else some (.literal span (.number x))
  | .closure _ => none
  | .native _  => none

/-- The value of a literal, of a negated number, or of a name that the global frame binds to a
native. -/
def Node.toValue? (n : Node) (c : Context) : Option Value :=
  match n with
  | .literal _ value                              => some value.value
  | .unary _ .neg (.literal _ (.number x))        => some (.number (-x))
  | .identifier _ name =>
    match c.frames.lookup c.global name with
    | .ok (.native native) => some (.native native)
    | _                    => none
  | _ => none

end Nondet
