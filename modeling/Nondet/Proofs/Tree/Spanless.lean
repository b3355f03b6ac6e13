import Nondet.Tree.Node

/-!
# Tree — Spanless

A tree up to its spans.  Two trees are the same up to spans when they have the same tree without
them.
-/

namespace Nondet

namespace Node

mutual

/-- The tree with the empty span at every node. -/
def spanless : Node → Node
  | .literal _ value => .literal .zero value
  | .identifier _ name => .identifier .zero name
  | .call _ callee arguments => .call .zero callee.spanless (spanlessEach arguments)
  | .unary _ op argument => .unary .zero op argument.spanless
  | .binary _ op left right => .binary .zero op left.spanless right.spanless
  | .logical _ op left right => .logical .zero op left.spanless right.spanless
  | .conditional _ test consequent alternate =>
    .conditional .zero test.spanless consequent.spanless alternate.spanless
  | .variableDeclaration _ keyword name init =>
    .variableDeclaration .zero keyword name init.spanless
  | .assignment _ name value => .assignment .zero name value.spanless
  | .functionDeclaration _ name params form body =>
    .functionDeclaration .zero name params form body.spanless
  | .arrowFunction _ name params form body => .arrowFunction .zero name params form body.spanless
  | .ifStatement _ test consequent alternate =>
    .ifStatement .zero test.spanless consequent.spanless (spanlessOption alternate)
  | .returnStatement _ argument => .returnStatement .zero (spanlessOption argument)
  | .block _ statements => .block .zero (spanlessEach statements)
  | .expressionStatement _ expression => .expressionStatement .zero expression.spanless
  | .program _ statements => .program .zero (spanlessEach statements)

/-- The same for every node of a list. -/
def spanlessEach : List Node → List Node
  | []      => []
  | n :: ns => n.spanless :: spanlessEach ns

/-- The same for a node that may be missing. -/
def spanlessOption : Option Node → Option Node
  | none   => none
  | some n => some n.spanless

end

@[simp] theorem spanlessEach_eq_map : ∀ ns : List Node, spanlessEach ns = ns.map spanless
  | []      => rfl
  | n :: ns => congrArg (n.spanless :: ·) (spanlessEach_eq_map ns)

@[simp] theorem spanlessOption_eq_map : ∀ n : Option Node, spanlessOption n = n.map spanless
  | none   => rfl
  | some _ => rfl

theorem spanless_block (span : Span) (ns : List Node) :
    (block span ns).spanless = .block .zero (ns.map spanless) :=
  congrArg (block .zero) (spanlessEach_eq_map ns)

theorem spanless_program (span : Span) (ns : List Node) :
    (program span ns).spanless = .program .zero (ns.map spanless) :=
  congrArg (program .zero) (spanlessEach_eq_map ns)

@[simp] theorem span_spanless (n : Node) : n.spanless.span = .zero := by cases n <;> rfl

theorem children_spanless (n : Node) : n.spanless.children = n.children.map spanless := by
  cases n with
  | ifStatement _ _ _ alternate | returnStatement _ alternate =>
      cases alternate <;> simp [spanless, children]
  | _ => simp [spanless, children]

/-- The tree is `n` up to spans. -/
def Like (n a : Node) : Prop := a.spanless = n

end Node

end Nondet
