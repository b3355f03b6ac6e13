import Nondet.Tree.Span
import Nondet.Grammar.Rule

/-!
# Grammar — Failure

Why there is no tree of a text: the grammar does not match it, or what the grammar yields is not what
a tree is built of.
-/

namespace Nondet.Grammar

/-- Why there is no tree. -/
inductive Failure where
  /-- No rule of the grammar goes on at an offset where some were expected. -/
  | unexpected (offset : Nat) (expected : List Rule)
  /-- Any other complaint about the grammar's work.  A program that breaks off instead of giving an
  answer counts here, too: the grammar itself never complains in this way. -/
  | custom (message : String) (span : Span)
  /-- A token stands for no value. -/
  | invalidLiteral (what text : String) (span : Span)
  /-- A part is missing that the grammar promises. -/
  | malformed (expected : String) (span : Span)
  deriving DecidableEq, Repr, Inhabited

namespace Failure

def message : Failure → String
  | .unexpected _ expected      => "expected " ++ describe expected
  | .custom message _           => message
  | .invalidLiteral what text _ => "invalid " ++ what ++ " literal `" ++ text ++ "`"
  | .malformed expected _       => "malformed parse tree: expected " ++ expected

def span : Failure → Span
  | .unexpected offset _     => .point offset
  | .custom _ span           => span
  | .invalidLiteral _ _ span => span
  | .malformed _ span        => span

end Failure

end Nondet.Grammar
