import Nondet.Tree.Render
import Nondet.Proofs.Tree.Every
import Nondet.Proofs.Tree.Outline

/-!
# Tree — Render

The outline of a tree.  Rendering a tree writes its outline down (`Node.text_outline`): a shape is a
list with its name in front, a name or a constant is a word, and a statement that is an expression is
the outline of the expression with a semicolon.
-/

namespace Nondet

namespace Node

mutual

/-- What a tree looks like when it is rendered. -/
def outline : Node → Outline
  | .literal _ (.string s)      => .quoted s
  | .literal _ value            => .word (value.renderWith fun _ => false)
  | .identifier _ name          => .word name
  | .call _ callee arguments    => .list (.word "call" :: callee.outline :: outlineEach arguments)
  | .unary _ op argument        => .list [.word op.symbol, argument.outline]
  | .binary _ op left right     => .list [.word op.symbol, left.outline, right.outline]
  | .logical _ op left right    => .list [.word op.symbol, left.outline, right.outline]
  | .conditional _ test consequent alternate =>
    .list [.word "?", test.outline, consequent.outline, alternate.outline]
  | .variableDeclaration _ keyword name init =>
    .list [.word keyword.text, .word name, init.outline]
  | .assignment _ name value    => .list [.word "=", .word name, value.outline]
  | .functionDeclaration _ name params _ body | .arrowFunction _ name params _ body =>
    .list [.word "function", .word (name.getD "=>"), .list (params.map .word), body.outline]
  | .ifStatement _ test consequent alternate =>
    .list (.word "if" :: test.outline :: consequent.outline :: outlineOption alternate)
  | .returnStatement _ argument => .list (.word "return" :: outlineOption argument)
  | .block _ statements         => .list (.word "block" :: outlineEach statements)
  | .expressionStatement _ expression => .ended expression.outline
  | .program _ statements       => .list (.word "program" :: outlineEach statements)

/-- The outline of every node of a list. -/
def outlineEach : List Node → List Outline
  | []      => []
  | n :: ns => n.outline :: outlineEach ns

/-- The outline of a node that may be missing. -/
def outlineOption : Option Node → List Outline
  | none   => []
  | some n => [n.outline]

end

@[simp] theorem outlineEach_eq_map : ∀ ns : List Node, outlineEach ns = ns.map outline
  | []      => rfl
  | n :: ns => congrArg (n.outline :: ·) (outlineEach_eq_map ns)

@[simp] theorem outlineOption_eq_map : ∀ n : Option Node, outlineOption n = n.toList.map outline
  | none   => rfl
  | some _ => rfl

end Node

/-- Words with a space between each two. -/
theorem Outline.texts_words (hidden : Char → Bool) : ∀ ws : List String,
    texts hidden (ws.map .word) = (" ".intercalate ws).toList
  | []           => rfl
  | [w]          => by simp [texts, textsBehind, text]
  | w :: w' :: ws => by
      have ih := texts_words hidden (w' :: ws)
      rw [String.toList_intercalate] at ih ⊢
      have first : " ".toList.intercalate ((w :: w' :: ws).map String.toList) =
          w.toList ++ ' ' :: " ".toList.intercalate ((w' :: ws).map String.toList) := by simp
      rw [first, ← ih]
      simp [texts, textsBehind, text]

namespace Node

open Outline (textsBehind)

variable {hidden : Char → Bool}

theorem textsBehind_outlineEach {ns : List Node} 
    (h : ∀ n ∈ ns, n.outline.text hidden = (n.renderWith hidden).toList) :
    textsBehind hidden (outlineEach ns) = (renderEach hidden ns).toList := by
  induction ns with
  | nil => rfl
  | cons n ns ih =>
      rw [List.forall_mem_cons] at h
      simp [outlineEach, renderEach, textsBehind, h.1, ← ih h.2]

theorem textsBehind_outlineOption {n : Option Node}
    (h : ∀ m ∈ n.toList, m.outline.text hidden = (m.renderWith hidden).toList) :
    textsBehind hidden (outlineOption n) = (renderOption hidden n).toList := by
  cases n with
  | none => rfl
  | some n =>
      rw [Option.toList_some, List.forall_mem_singleton] at h
      simp [outlineOption, renderOption, textsBehind, h]

/-- **Rendering a tree writes its outline down.** -/
theorem text_outline (hidden : Char → Bool) (n : Node) :
    n.outline.text hidden = (n.renderWith hidden).toList := by
  induction n using Node.of_children with | h n ih
  cases n with
  | literal _ value =>
      cases value with
      | bool b => cases b <;> rfl
      | _ => rfl
  | identifier => rfl
  | call _ callee arguments =>
      obtain ⟨hc, ha⟩ := List.forall_mem_cons.mp ih
      have ha := textsBehind_outlineEach ha
      simp [outline, renderWith, Outline.text, Outline.texts, textsBehind, hc, ← ha]
  | functionDeclaration _ name params _ body | arrowFunction _ name params _ body =>
      have hb := ih body List.mem_cons_self
      simp [outline, renderWith, renderHead, Outline.text, Outline.texts, textsBehind, hb,
        Outline.texts_words]
  | ifStatement _ test consequent alternate =>
      obtain ⟨ht, ha⟩ := List.forall_mem_cons.mp ih
      obtain ⟨hc, ha⟩ := List.forall_mem_cons.mp ha
      have ha := textsBehind_outlineOption ha
      simp [outline, renderWith, Outline.text, Outline.texts, textsBehind, ht, hc, ← ha]
  | returnStatement _ argument =>
      have ha := textsBehind_outlineOption ih
      simp [outline, renderWith, Outline.text, Outline.texts, ← ha]
  | block _ statements | program _ statements =>
      have hs : textsBehind hidden (outlineEach statements) = (renderEach hidden statements).toList :=
        textsBehind_outlineEach ih
      simp [outline, renderWith, Outline.text, Outline.texts, ← hs]
  | _ =>
      simp only [children, List.forall_mem_cons] at ih
      simp [outline, renderWith, Outline.text, Outline.texts, textsBehind, ih]

end Node

end Nondet
