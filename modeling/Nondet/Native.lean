import Nondet.Failure

/-!
# Native

Functions that the host provides.  A native takes values and gives a value or fails; it sees
neither frames nor choices.  A host is a table from names to natives.
-/

namespace Nondet

/-- How a native fails. -/
inductive NativeFailure where
  /-- It was called with arguments that it does not take, or asked to fail. -/
  | refused (message : String)
  /-- Something outside the library failed. -/
  | foreign (message : String)
  /-- It reports a mistake as the evaluation itself would, with the span to blame. -/
  | mistake (mistake : Mistake) (span : Span)
  /-- It hands on a failure of an evaluation. -/
  | failure (failure : Failure)
  deriving DecidableEq, Repr, Inhabited

def NativeFailure.message : NativeFailure → String
  | .refused message => message
  | .foreign message => message
  | .mistake m _     => m.message
  | .failure f       => f.message

/-- What a native does with its arguments. -/
abbrev Native := List Value → Except NativeFailure Value

/-- The natives that a host provides, by name. -/
abbrev Host := String → Option Native

/-- Calls a native of a host. -/
def Host.call (host : Host) (name : String) (arguments : List Value) : Except NativeFailure Value :=
  match host name with
  | some native => native arguments
  | none        => .error (.foreign ("no native " ++ name))

end Nondet
