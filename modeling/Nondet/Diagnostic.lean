import Nondet.Failure
import Nondet.Grammar.Failure

/-!
# Diagnostic

Failures as a session reports them: a message at a span of the text that was run, with a code that
stays the same from version to version and sometimes a hint.  A limit that was reached has no place
in the text and is only a message.
-/

namespace Nondet

/-- A message about a place in a text. -/
structure Diagnostic where
  message : String
  span : Span
  help : Option String
  code : Option String
  deriving DecidableEq, Repr, Inhabited

namespace Mistake

/-- The code of a mistake. -/
def code : Mistake → String
  | .redeclared _ _     => "E0101"
  | .unassigned _       => "E0102"
  | .undefined _        => "E0103"
  | .constant _         => "E0104"
  | .argumentCount _ _  => "E0105"
  | .notFunction _      => "E0106"
  | .type _ _ _ _       => "E0107"
  | .exception _        => "E0108"

/-- The hint that goes with a mistake. -/
def help? : Mistake → Option String
  | .unassigned name =>
    some ("'" ++ name ++ "' is declared in this scope but its initializer has not run yet")
  | .constant _      => some "declare it with `let` to allow assignment"
  | .type _ _ _ got  => if got = cutText then some "`cut` is a statement and has no value" else none
  | _                => none

end Mistake

namespace Diagnostic

def ofMistake (mistake : Mistake) (span : Span) : Diagnostic :=
  ⟨mistake.message, span, mistake.help?, some mistake.code⟩

def ofGrammar (failure : Grammar.Failure) : Diagnostic :=
  ⟨failure.message, failure.span, none, some "E0001"⟩

end Diagnostic

/-- Why a session could not run a text, with the text. -/
inductive Error where
  | parse (diagnostic : Diagnostic) (source : String)
  | runtime (diagnostic : Diagnostic) (source : String)
  | exceeded (message : String)
  deriving DecidableEq, Repr, Inhabited

namespace Error

def ofGrammar (failure : Grammar.Failure) (source : String) : Error :=
  .parse (.ofGrammar failure) source

def ofFailure (failure : Failure) (source : String) : Error :=
  match failure with
  | .mistake m span => .runtime (.ofMistake m span) source
  | .exceeded _ _ _ _ => .exceeded failure.message

/-- The place in the text, where there is one. -/
def diagnostic? : Error → Option Diagnostic
  | .parse d _ | .runtime d _ => some d
  | .exceeded _               => none

def message : Error → String
  | .parse d _   => "Parse error: " ++ d.message
  | .runtime d _ => "Runtime error: " ++ d.message
  | .exceeded m  => "Resource limit exceeded: " ++ m

end Error

end Nondet
