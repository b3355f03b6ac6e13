import Nondet.Tree.Scope
import Nondet.Proofs.Tree.Every

/-!
# Tree — Site

Where a node stands in a script.  A scope is the script, a block, or a function with its parameters
and the statements of its body; a `Site` lists what the scopes around a node declare, and
`n.LiesAt s` reads it off the tree.  Two things are evaluated that nobody wrote, and they stand where
they are made up: the return statement around a body that is an expression, and the constant that a
logical operator gives.
-/

namespace Nondet

/-- A place in a script: the statements of the script, and the names that each scope around the place
declares, the innermost scope first. -/
structure Site where
  script : List Node
  scopes : List (List String)

namespace Site

/-- The place of the statements of a script. -/
def top (script : List Node) : Site := ⟨script, [Node.declared script]⟩

/-- One scope further in. -/
def inside (s : Site) (names : List String) : Site := { s with scopes := names :: s.scopes }

/-- The nearest scope around the place that declares the name, counted from the inside. -/
def declaring? (s : Site) (name : String) : Option Nat := s.scopes.findIdx? (name ∈ ·)

end Site

namespace Node

/-- Whether what is below the node stands in a scope of its own. -/
def opensScope : Node → Bool
  | .functionDeclaration _ _ _ _ _ | .arrowFunction _ _ _ _ _ | .block _ _ | .program _ _ => true
  | _                                                                                     => false

/-- The function that a node is evaluated to. -/
def function? : Node → Option Function
  | .functionDeclaration span name params form body
  | .arrowFunction span name params form body => some ⟨name, params, form, body, span⟩
  | _ => none

theorem span_of_function? {n : Node} {f : Function} (h : n.function? = some f) : f.span = n.span := by
  cases n with
  | functionDeclaration | arrowFunction => cases h; rfl
  | _ => cases h

end Node

/-- What a function declares in its scope: its parameters, and what the statements of its body
declare directly. -/
def Function.names (f : Function) : List String := f.params ++ Node.declared f.statements

/-- The node stands at the place, or is made up there. -/
inductive Node.LiesAt : Node → Site → Prop
  | statement {script n} (h : n ∈ script) : LiesAt n (.top script)
  | part {n m s} (h : LiesAt n s) (hn : n.opensScope = false) (hm : m ∈ n.children) : LiesAt m s
  | block {span ss s m} (h : LiesAt (.block span ss) s) (hm : m ∈ ss) :
      LiesAt m (s.inside (declared ss))
  | body {n f s m} (h : LiesAt n s) (hf : n.function? = some f) (hm : m ∈ f.statements) :
      LiesAt m (s.inside f.names)
  | constant {span op left right s} (h : LiesAt (.logical span op left right) s) (b : Bool) :
      LiesAt (.literal span (.bool b)) s

/-- The function is the value of a node that stands at the place. -/
def Function.LiesAt (f : Function) (s : Site) : Prop := ∃ n : Node, n.LiesAt s ∧ n.function? = some f

theorem Function.LiesAt.statements {f : Function} {s : Site} (h : f.LiesAt s) :
    ∀ m ∈ f.statements, m.LiesAt (s.inside f.names) := fun _ hm =>
  have ⟨_, hn, hf⟩ := h
  .body hn hf hm

end Nondet
