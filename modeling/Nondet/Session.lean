import Nondet.Solutions
import Nondet.Diagnostic
import Nondet.Grammar.Script

/-!
# Session

One context over many scripts: what a script declares, later ones see.  A script is parsed before
anything runs, and its solutions are computed as they are asked for; those that are never asked for
raise no errors.
-/

namespace Nondet

/-- How a session starts. -/
structure SessionOptions where
  limits : Limits
  /-- Whether the natives of the prelude are bound. -/
  prelude : Bool
  deriving Inhabited

/-- A context that scripts are run in, one after the other. -/
structure Session where
  context : Context
  deriving Inhabited

/-- The solutions of a script that are still to come. -/
structure Session.Run where
  solutions : Solutions
  source : String
  deriving Inhabited

namespace Session

/-- A new session with the natives of a host. -/
def start (options : SessionOptions) (host : Host) : Session :=
  ⟨if options.prelude then .withPrelude options.limits host else .empty options.limits host⟩

/-- Binds a constant for all scripts to come. -/
def define (s : Session) (name : String) (value : Value) : Session :=
  ⟨s.context.defineGlobal name value⟩

/-- Parses a script.  Nothing is evaluated. -/
def run (source : String) : Except Error Run :=
  match Grammar.parse source with
  | .ok program    => .ok ⟨.of program, source⟩
  | .error failure => .error (.ofGrammar failure source)

/-- The next solution of a script. -/
def Run.next (fuel : Nat) (r : Run) (s : Session) :
    Option (Except Error (Option Value) × Run × Session) :=
  (r.solutions.next fuel s.context).map fun (answer, solutions, context) =>
    let result := match answer with
      | .value v   => .ok (some v)
      | .none      => .ok none
      | .failure f => .error (.ofFailure f r.source)
    (result, { r with solutions }, ⟨context⟩)

/-- At most `count` solutions of a script, or the error among them. -/
def take (fuel count : Nat) (source : String) (s : Session) :
    Option (Except Error (List Value) × Session) :=
  match run source with
  | .error e => some (.error e, s)
  | .ok r    =>
    (r.solutions.take fuel [] count s.context).map fun (result, context) =>
      (result.mapError (Error.ofFailure · source), ⟨context⟩)

/-- Every solution of a script, or the first error.  There are never as many as there is fuel. -/
def all (fuel : Nat) (source : String) (s : Session) :
    Option (Except Error (List Value) × Session) :=
  s.take fuel fuel source

/-- The first solution of a script, if it has one. -/
def first (fuel : Nat) (source : String) (s : Session) :
    Option (Except Error (Option Value) × Session) :=
  (s.take fuel 1 source).map fun (result, s) => (result.map List.head?, s)

/-- The session as one line of text. -/
def debugText (s : Session) : String :=
  "Interpreter \x7b context: " ++ s.context.debugText ++ " \x7d"

end Session

end Nondet
