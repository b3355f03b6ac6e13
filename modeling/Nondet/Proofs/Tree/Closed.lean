import Nondet.Stream
import Nondet.Tree.Scope

/-!
# Tree — Closed

Nodes that name nothing outside themselves.  `n.closedIn names` says that every name which is read,
called or assigned in the node is declared by a scope around it in the node, or is one of `names`.
Two names are not looked up and need no declaration: the one that makes a call a choice, and the
marker.  A script is closed when it is closed in no names at all.
-/

namespace Nondet

namespace Node

mutual

/-- Whether each name that is used in the node is one of the names or declared around its use.  The
name that makes a call a choice is no use of it, and neither is the marker. -/
def closedIn (names : List String) : Node → Bool
  | .literal _ _                        => true
  | .identifier _ name                  => name == cutName || names.contains name
  | .call _ callee arguments            =>
    (callee.isAmb || closedIn names callee) && closedInEach names arguments
  | .unary _ _ argument                 => closedIn names argument
  | .binary _ _ left right              => closedIn names left && closedIn names right
  | .logical _ _ left right             => closedIn names left && closedIn names right
  | .conditional _ test consequent alternate =>
    closedIn names test && closedIn names consequent && closedIn names alternate
  | .variableDeclaration _ _ _ init     => closedIn names init
  | .assignment _ name value            => names.contains name && closedIn names value
  | .functionDeclaration _ _ params _ body => closedIn (params ++ names) body
  | .arrowFunction _ _ params _ body       => closedIn (params ++ names) body
  | .ifStatement _ test consequent alternate =>
    closedIn names test && closedIn names consequent && closedInOption names alternate
  | .returnStatement _ argument         => closedInOption names argument
  | .block _ statements                 => closedInEach (declared statements ++ names) statements
  | .expressionStatement _ expression   => closedIn names expression
  | .program _ statements               => closedInEach (declared statements ++ names) statements

/-- The same for every node of a list. -/
def closedInEach (names : List String) : List Node → Bool
  | []      => true
  | n :: ns => closedIn names n && closedInEach names ns

/-- The same for a node that may be missing. -/
def closedInOption (names : List String) : Option Node → Bool
  | none   => true
  | some n => closedIn names n

end

/-- Whether the node names nothing outside itself. -/
def closed (n : Node) : Bool := n.closedIn []

theorem closedInEach_iff {names : List String} : ∀ ns : List Node,
    closedInEach names ns ↔ ∀ n ∈ ns, n.closedIn names
  | []      => by simp [closedInEach]
  | n :: ns => by simp [closedInEach, closedInEach_iff ns]

/-- With statements in a scope of their own, each may use what all of them declare. -/
theorem closedIn_block {names : List String} {span : Span} {ss : List Node} :
    (Node.block span ss).closedIn names ↔ ∀ n ∈ ss, n.closedIn (declared ss ++ names) :=
  closedInEach_iff ss

theorem closedIn_program {names : List String} {span : Span} {ss : List Node} :
    (Node.program span ss).closedIn names ↔ ∀ n ∈ ss, n.closedIn (declared ss ++ names) :=
  closedInEach_iff ss

/-- The names of a scope, and those around it. -/
theorem subset_inside {names names' : List String} (h : names ⊆ names') (own : List String) :
    own ++ names ⊆ own ++ names' := fun _ hn =>
  List.mem_append.mpr ((List.mem_append.mp hn).imp_right fun hn => h hn)

mutual

/-- A node that is closed in some names is closed in more. -/
theorem closedIn_mono {names names' : List String} (h : names ⊆ names') :
    ∀ {n : Node}, n.closedIn names → n.closedIn names'
  | .literal _ _, _ => rfl
  | .identifier _ name, hn => by
      simp only [closedIn, Bool.or_eq_true, List.contains_iff_mem] at hn ⊢
      exact hn.imp_right fun hn => h hn
  | .call _ callee arguments, hn => by
      simp only [closedIn, Bool.and_eq_true, Bool.or_eq_true] at hn ⊢
      exact ⟨hn.1.imp_right (closedIn_mono h), closedInEach_mono h hn.2⟩
  | .unary _ _ argument, hn => closedIn_mono h (n := argument) hn
  | .binary _ _ _ _, hn | .logical _ _ _ _, hn => by
      simp only [closedIn, Bool.and_eq_true] at hn ⊢
      exact ⟨closedIn_mono h hn.1, closedIn_mono h hn.2⟩
  | .conditional _ _ _ _, hn => by
      simp only [closedIn, Bool.and_eq_true] at hn ⊢
      exact ⟨⟨closedIn_mono h hn.1.1, closedIn_mono h hn.1.2⟩, closedIn_mono h hn.2⟩
  | .variableDeclaration _ _ _ init, hn => closedIn_mono h (n := init) hn
  | .assignment _ _ _, hn => by
      simp only [closedIn, Bool.and_eq_true, List.contains_iff_mem] at hn ⊢
      exact ⟨h hn.1, closedIn_mono h hn.2⟩
  | .functionDeclaration _ _ params _ body, hn | .arrowFunction _ _ params _ body, hn =>
    closedIn_mono (subset_inside h params) (n := body) hn
  | .ifStatement _ _ _ _, hn => by
      simp only [closedIn, Bool.and_eq_true] at hn ⊢
      exact ⟨⟨closedIn_mono h hn.1.1, closedIn_mono h hn.1.2⟩, closedInOption_mono h hn.2⟩
  | .returnStatement _ argument, hn => closedInOption_mono h (n := argument) hn
  | .block _ ss, hn | .program _ ss, hn =>
    closedInEach_mono (subset_inside h (declared ss)) (l := ss) hn
  | .expressionStatement _ expression, hn => closedIn_mono h (n := expression) hn

theorem closedInEach_mono {names names' : List String} (h : names ⊆ names') :
    ∀ {l : List Node}, closedInEach names l → closedInEach names' l
  | [], _ => rfl
  | _ :: _, hn => by
      simp only [closedInEach, Bool.and_eq_true] at hn ⊢
      exact ⟨closedIn_mono h hn.1, closedInEach_mono h hn.2⟩

theorem closedInOption_mono {names names' : List String} (h : names ⊆ names') :
    ∀ {n : Option Node}, closedInOption names n → closedInOption names' n
  | none, _ => rfl
  | some n, hn => closedIn_mono h (n := n) hn

end

end Node

namespace Function

/-- Whether the function's body uses parameters, names that it declares, and the names only. -/
def closedIn (names : List String) (f : Function) : Bool := f.body.closedIn (f.params ++ names)

/-- **What a call of a closed function runs is closed in the scope of the call.** -/
theorem closedIn_statements {names : List String} {f : Function} (h : f.closedIn names) :
    ∀ m ∈ f.statements, m.closedIn (Node.declared f.statements ++ (f.params ++ names)) := by
  have h : f.body.closedIn (f.params ++ names) := h
  have single {m : Node} (hm : m.closedIn (f.params ++ names)) :
      ∀ m' ∈ [m], m'.closedIn (Node.declared [m] ++ (f.params ++ names)) :=
    List.forall_mem_singleton.mpr (Node.closedIn_mono (List.subset_append_right _ _) hm)
  rw [statements, block]
  cases f.form with
  | block =>
      simp only
      split
      next span ss e => exact Node.closedIn_block.mp (e ▸ h)
      next => exact single h
  | expression => exact single h

end Function

end Nondet
