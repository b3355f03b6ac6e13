import Nondet.Proofs.Grammar.Written
import Nondet.Proofs.Tree.Render
import Nondet.Proofs.Tree.Spanless

/-!
# Grammar — Rendering

Reading a rendered tree.  The head of a list says which shape it is, but for the operators that stand
before one operand and between two, which are told by how many there are; `Outline.node` is the tree
with an outline, and it gives back every tree that was read from a source (`Written.node_outline`).
Numbers are left out: their texts are not told from the names `NaN` and `inf`.
-/

namespace Nondet

/-! ### The tree with an outline -/

/-- The operator before one operand that is written so. -/
def UnaryOp.ofSymbol (symbol : String) : UnaryOp := if symbol = "!" then .not else .neg

/-- The operator between two operands that is written so. -/
def BinaryOp.ofSymbol? (symbol : String) : Option BinaryOp :=
  [.add, .sub, .mul, .div, .rem, .strictEq, .strictNe, .lt, .le, .gt, .ge].find? fun op : BinaryOp =>
    op.symbol = symbol

def LogicalOp.ofSymbol (symbol : String) : LogicalOp := if symbol = "&&" then .and else .or

def DeclarationKeyword.ofText? (text : String) : Option DeclarationKeyword :=
  [.let, .const, .var].find? fun keyword : DeclarationKeyword => keyword.text = text

/-- A body that is a block is written as one. -/
def BodyForm.of : Node → BodyForm
  | .block _ _ => .block
  | _          => .expression

/-- The text of a word. -/
def Outline.wordText : Outline → String
  | .word w => w
  | _       => ""

/-- The words of a list. -/
def Outline.words : Outline → List String
  | .list items => items.map wordText
  | _           => []

namespace Node

/-- The constant or the name that is written as one word. -/
def ofWord (w : String) : Node :=
  if w = "true" then .literal .zero (.bool true)
  else if w = "false" then .literal .zero (.bool false)
  else if w = "null" then .literal .zero .null
  else if w = "undefined" then .literal .zero .undefined
  else .identifier .zero w

/-- The operator between two operands, or before one. -/
def ofOperands (symbol : String) : List Node → Node
  | [argument]    => .unary .zero (.ofSymbol symbol) argument
  | [left, right] =>
    match BinaryOp.ofSymbol? symbol with
    | some op => .binary .zero op left right
    | none    => .logical .zero (.ofSymbol symbol) left right
  | _             => default

/-- The function with this name, of which an arrow stands for none. -/
def ofFunction (name : String) (params : List String) (body : Node) : Node :=
  if name = "=>" then .arrowFunction .zero none params (.of body) body
  else .functionDeclaration .zero (some name) params .block body

/-- The tree with a head and what is behind the head: outlines, and the trees that they stand for. -/
def ofParts (head : String) (items : List Outline) (nodes : List Node) : Node :=
  match DeclarationKeyword.ofText? head with
  | some keyword =>
    .variableDeclaration .zero keyword (items.headI.wordText) (nodes.getI 1)
  | none =>
    if head = "call" then .call .zero nodes.headI nodes.tail
    else if head = "?" then .conditional .zero (nodes.getI 0) (nodes.getI 1) (nodes.getI 2)
    else if head = "=" then .assignment .zero items.headI.wordText (nodes.getI 1)
    else if head = "function" then
      ofFunction items.headI.wordText (items.getI 1).words (nodes.getI 2)
    else if head = "if" then .ifStatement .zero (nodes.getI 0) (nodes.getI 1) nodes[2]?
    else if head = "return" then .returnStatement .zero nodes[0]?
    else if head = "block" then .block .zero nodes
    else if head = "program" then .program .zero nodes
    else ofOperands head nodes

end Node

namespace Outline

mutual

/-- The tree that has the outline. -/
def node : Outline → Node
  | .word w                => .ofWord w
  | .quoted s              => .literal .zero (.string s)
  | .list []               => default
  | .list (head :: items)  => .ofParts head.wordText items (nodes items)
  | .ended item            => .expressionStatement .zero item.node

/-- The trees that have the outlines. -/
def nodes : List Outline → List Node
  | []      => []
  | o :: os => o.node :: nodes os

end

@[simp] theorem nodes_eq_map : ∀ os : List Outline, nodes os = os.map node
  | []      => rfl
  | o :: os => congrArg (o.node :: ·) (nodes_eq_map os)

end Outline

/-! ### Heads -/

namespace Node

variable {items : List Outline} {a b : Node}

theorem ofParts_call {arguments : List Node} :
    ofParts "call" items (a :: arguments) = .call .zero a arguments := rfl

theorem ofParts_unary (op : UnaryOp) : ofParts op.symbol items [a] = .unary .zero op a := by
  cases op <;> rfl

theorem ofParts_binary (op : BinaryOp) : ofParts op.symbol items [a, b] = .binary .zero op a b := by
  cases op <;> rfl

theorem ofParts_logical (op : LogicalOp) : ofParts op.symbol items [a, b] = .logical .zero op a b := by
  cases op <;> rfl

theorem ofParts_keyword (keyword : DeclarationKeyword) {name : String} :
    ofParts keyword.text (.word name :: items) [a, b] =
      .variableDeclaration .zero keyword name b := by
  cases keyword <;> rfl

/-- The parameters of a function are words, and are not read as trees. -/
theorem ofParts_function {name : String} {params : List String} {body : Node} :
    ofParts "function" (.word name :: .list (params.map .word) :: items) [a, b, body] =
      ofFunction name params body := by
  have words : (Outline.list (params.map .word)).words = params := by
    rw [Outline.words, List.map_map]
    exact List.map_id params
  exact congrArg (ofFunction name · body) words

end Node

/-- Whether the node is a number. -/
def Node.isNumber : Node → Bool
  | .literal _ (.number _) => true
  | _                      => false

/-- No part of the node is a number. -/
def Node.Numberless : Node → Prop := Node.Every (·.isNumber = false)

/-- Nodes that are given back one by one are given back as a list. -/
theorem Outline.map_node_outline {ns : List Node} (h : ∀ n ∈ ns, n.outline.node = n.spanless) :
    (ns.map Node.outline).map node = ns.map Node.spanless := by
  rw [List.map_map]
  exact List.map_congr_left h

namespace Grammar

open Outline (map_node_outline)

theorem IsName.ofWord {name : String} (h : IsName name) : Node.ofWord name = .identifier .zero name := by
  have other {w : String} (hw : w ∈ Token.reserved) : name ≠ w := fun e => h.unreserved (e ▸ hw)
  rw [Node.ofWord, if_neg (other (by decide)), if_neg (other (by decide)), if_neg (other (by decide)),
    if_neg (other (by decide))]

theorem IsName.ne_arrow {name : String} (h : IsName name) : name ≠ "=>" := by
  obtain ⟨x, xs, e, hx⟩ := h.start
  rintro rfl
  obtain rfl := (List.cons.inj e).1
  exact absurd hx (by decide)

/-- No expression is a block. -/
theorem Written.form_of_expression {n : Node} (h : Written .expression n) :
    BodyForm.of n.spanless = .expression := by
  cases h <;> rfl

theorem node_outline_block (span : Span) {statements : List Node}
    (h : ∀ n ∈ statements, n.outline.node = n.spanless) :
    (Node.block span statements).outline.node = (Node.block span statements).spanless := by
  rw [Node.spanless_block, ← map_node_outline h, Node.outline, Node.outlineEach_eq_map,
    Outline.node, Outline.nodes_eq_map]
  rfl

/-- **A tree that can be read is given back by its outline**, up to spans. -/
theorem Written.node_outline {what : Nested} {n : Node} (h : Written what n) (hn : n.Numberless) :
    n.outline.node = n.spanless := by
  induction h with
  | @literal span value =>
      cases value with
      | number x => cases hn.self
      | string s => rfl
      | bool b => cases b <;> rfl
      | null => rfl
      | undefined => rfl
  | identifier h => exact h.ofWord
  | call _ _ hc ha =>
      have callee := hc (hn.child List.mem_cons_self)
      have arguments := map_node_outline fun a hm => ha a hm (hn.child (List.mem_cons_of_mem _ hm))
      rw [Node.outline, Node.outlineEach_eq_map, Outline.node, Outline.nodes, Outline.nodes_eq_map,
        callee, arguments, Node.spanless, Node.spanlessEach_eq_map]
      exact Node.ofParts_call
  | @unary _ op _ _ ih =>
      have argument := ih (hn.child List.mem_cons_self)
      rw [Node.spanless, ← argument]
      exact Node.ofParts_unary op
  | @binary _ op _ _ _ _ hl hr =>
      have left := hl (hn.child List.mem_cons_self)
      have right := hr (hn.child (by simp [Node.children]))
      rw [Node.spanless, ← left, ← right]
      exact Node.ofParts_binary op
  | @logical _ op _ _ _ _ hl hr =>
      have left := hl (hn.child List.mem_cons_self)
      have right := hr (hn.child (by simp [Node.children]))
      rw [Node.spanless, ← left, ← right]
      exact Node.ofParts_logical op
  | conditional _ _ _ ht hc ha =>
      have test := ht (hn.child List.mem_cons_self)
      have consequent := hc (hn.child (by simp [Node.children]))
      have alternate := ha (hn.child (by simp [Node.children]))
      rw [Node.spanless, ← test, ← consequent, ← alternate]
      rfl
  | assignment _ _ ih =>
      have value := ih (hn.child List.mem_cons_self)
      rw [Node.spanless, ← value]
      rfl
  | arrowExpression _ hb ih =>
      have body := ih (hn.child List.mem_cons_self)
      have form := hb.form_of_expression
      rw [Node.spanless, ← form, ← body]
      exact Node.ofParts_function
  | @arrowBlock _ _ inner _ _ _ ih =>
      have body := node_outline_block inner fun m hm => ih m hm ((hn.child List.mem_cons_self).child hm)
      rw [Node.spanless, ← body]
      exact Node.ofParts_function
  | @functionDeclaration _ _ _ inner _ hname _ _ ih =>
      have body := node_outline_block inner fun m hm => ih m hm ((hn.child List.mem_cons_self).child hm)
      rw [Node.spanless, ← body]
      exact Node.ofParts_function.trans (if_neg hname.ne_arrow)
  | variableDeclaration _ _ ih =>
      have init := ih (hn.child List.mem_cons_self)
      rw [Node.spanless, ← init]
      exact Node.ofParts_keyword _
  | @ifStatement _ _ _ alternate _ _ _ _ ht hc ha =>
      have test := ht (hn.child List.mem_cons_self)
      have consequent := hc (hn.child (by simp [Node.children]))
      cases alternate with
      | none =>
          rw [Node.spanless, ← test, ← consequent]
          rfl
      | some other =>
          have alternate := ha other rfl (hn.child (by simp [Node.children]))
          rw [Node.spanless, Node.spanlessOption, ← test, ← consequent, ← alternate]
          rfl
  | @returnStatement _ argument _ ha =>
      cases argument with
      | none => rfl
      | some a =>
          have given := ha a rfl (hn.child (by simp [Node.children]))
          rw [Node.spanless, Node.spanlessOption, ← given]
          rfl
  | block _ ih => exact node_outline_block _ fun m hm => ih m hm (hn.child hm)
  | expressionStatement _ ih =>
      have expression := ih (hn.child List.mem_cons_self)
      rw [Node.spanless, ← expression]
      rfl

/-! ### Plain outlines -/

theorem IsName.isWord {name : String} (h : IsName name) : Outline.IsWord name := by
  have noMark : ∀ x ∈ Outline.marks, Token.isWordChar x = false := by decide
  refine ⟨?_, fun x hx hm => nomatch (noMark x hm).symm.trans (h.chars x hx)⟩
  rintro rfl
  obtain ⟨x, xs, e, -⟩ := h.start
  cases e

/-- A list with its name in front. -/
theorem plain_list {head : String} {os : List Outline} (hh : Outline.IsWord head)
    (h : ∀ o ∈ os, o.Plain) : (Outline.list (.word head :: os)).Plain :=
  .list (List.forall_mem_cons.mpr ⟨.word hh, h⟩)

theorem plain_map {ns : List Node} (h : ∀ n ∈ ns, n.outline.Plain) :
    ∀ o ∈ ns.map Node.outline, o.Plain := List.forall_mem_map.mpr h

theorem plain_block (span : Span) {statements : List Node} (h : ∀ n ∈ statements, n.outline.Plain) :
    (Node.block span statements).outline.Plain := by
  rw [Node.outline, Node.outlineEach_eq_map]
  exact plain_list (by decide) (plain_map h)

/-- The head of a function, its parameters and its body. -/
theorem plain_function {name : String} {params : List String} {body : Node}
    (hn : Outline.IsWord name) (hp : ∀ p ∈ params, IsName p) (hb : body.outline.Plain) :
    (Outline.list [.word "function", .word name, .list (params.map .word), body.outline]).Plain := by
  have words : ∀ o ∈ params.map Outline.word, o.Plain :=
    List.forall_mem_map.mpr fun p hm => .word (hp p hm).isWord
  exact plain_list (by decide) (List.forall_mem_cons.mpr ⟨.word hn,
    List.forall_mem_cons.mpr ⟨.list words, List.forall_mem_singleton.mpr hb⟩⟩)

/-- No expression has a semicolon behind it. -/
theorem Written.mark_outline {n : Node} (h : Written .expression n) : n.outline.mark = [] := by
  cases h with
  | @literal _ value => cases value <;> rfl
  | _ => rfl

/-- The outline of a tree that can be read is plain. -/
theorem Written.plain_outline {what : Nested} {n : Node} (h : Written what n) (hn : n.Numberless) :
    n.outline.Plain := by
  induction h with
  | @literal span value =>
      cases value with
      | number x => cases hn.self
      | string s => exact .quoted
      | bool b => cases b <;> exact .word (by decide)
      | null => exact .word (by decide)
      | undefined => exact .word (by decide)
  | identifier h => exact .word h.isWord
  | call _ _ hc ha =>
      have callee := hc (hn.child List.mem_cons_self)
      have arguments := plain_map fun a hm => ha a hm (hn.child (List.mem_cons_of_mem _ hm))
      rw [Node.outline, Node.outlineEach_eq_map]
      exact plain_list (by decide) (List.forall_mem_cons.mpr ⟨callee, arguments⟩)
  | @unary _ op _ _ ih =>
      have argument := ih (hn.child List.mem_cons_self)
      exact plain_list (by cases op <;> decide) (List.forall_mem_singleton.mpr argument)
  | @binary _ op _ _ _ _ hl hr =>
      have left := hl (hn.child List.mem_cons_self)
      have right := hr (hn.child (by simp [Node.children]))
      exact plain_list (by cases op <;> decide)
        (List.forall_mem_cons.mpr ⟨left, List.forall_mem_singleton.mpr right⟩)
  | @logical _ op _ _ _ _ hl hr =>
      have left := hl (hn.child List.mem_cons_self)
      have right := hr (hn.child (by simp [Node.children]))
      exact plain_list (by cases op <;> decide)
        (List.forall_mem_cons.mpr ⟨left, List.forall_mem_singleton.mpr right⟩)
  | conditional _ _ _ ht hc ha =>
      have test := ht (hn.child List.mem_cons_self)
      have consequent := hc (hn.child (by simp [Node.children]))
      have alternate := ha (hn.child (by simp [Node.children]))
      exact plain_list (by decide) (List.forall_mem_cons.mpr
        ⟨test, List.forall_mem_cons.mpr ⟨consequent, List.forall_mem_singleton.mpr alternate⟩⟩)
  | assignment hname _ ih =>
      have value := ih (hn.child List.mem_cons_self)
      exact plain_list (by decide)
        (List.forall_mem_cons.mpr ⟨.word hname.isWord, List.forall_mem_singleton.mpr value⟩)
  | arrowExpression hp _ ih =>
      exact plain_function (by decide) hp (ih (hn.child List.mem_cons_self))
  | @arrowBlock _ _ inner _ hp _ ih =>
      have body := plain_block inner fun m hm => ih m hm ((hn.child List.mem_cons_self).child hm)
      exact plain_function (by decide) hp body
  | @functionDeclaration _ _ _ inner _ hname hp _ ih =>
      have body := plain_block inner fun m hm => ih m hm ((hn.child List.mem_cons_self).child hm)
      exact plain_function hname.isWord hp body
  | @variableDeclaration _ keyword _ _ hname _ ih =>
      have init := ih (hn.child List.mem_cons_self)
      exact plain_list (by cases keyword <;> decide)
        (List.forall_mem_cons.mpr ⟨.word hname.isWord, List.forall_mem_singleton.mpr init⟩)
  | @ifStatement _ _ _ alternate _ _ _ _ ht hc ha =>
      have test := ht (hn.child List.mem_cons_self)
      have consequent := hc (hn.child (by simp [Node.children]))
      have alternate := plain_map fun m hm => ha m (Option.mem_toList.mp hm)
        (hn.child (List.mem_cons_of_mem _ (List.mem_cons_of_mem _ hm)))
      rw [Node.outline, Node.outlineOption_eq_map]
      exact plain_list (by decide)
        (List.forall_mem_cons.mpr ⟨test, List.forall_mem_cons.mpr ⟨consequent, alternate⟩⟩)
  | returnStatement _ ha =>
      have given := plain_map fun m hm => ha m (Option.mem_toList.mp hm) (hn.child hm)
      rw [Node.outline, Node.outlineOption_eq_map]
      exact plain_list (by decide) given
  | block _ ih => exact plain_block _ fun m hm => ih m hm (hn.child hm)
  | expressionStatement he ih =>
      have expression := ih (hn.child List.mem_cons_self)
      exact .ended expression he.mark_outline

/-! ### Scripts -/

/-- The outline of a script is plain and gives the script back. -/
theorem outline_of_parse {source : String} {n : Node} (h : parse source = .ok n)
    (hn : n.Numberless) : n.outline.Plain ∧ n.outline.node = n.spanless := by
  obtain ⟨span, ss, rfl, hss⟩ := parse_written h
  have plain := plain_map fun m hm => (hss m hm).plain_outline (hn.child hm)
  have back := map_node_outline fun m hm => (hss m hm).node_outline (hn.child hm)
  rw [Node.outline, Node.outlineEach_eq_map]
  refine ⟨plain_list (by decide) plain, ?_⟩
  rw [Node.spanless, Node.spanlessEach_eq_map, ← back, Outline.node, Outline.nodes_eq_map]
  rfl

/-- **The rendering of scripts without numbers tells them apart**: two sources that are read as trees
with the same rendering are read as the same tree, up to spans.  Which characters in quotes are written
by their numbers makes no difference. -/
theorem render_injective (hidden : Char → Bool) {source source' : String} {n n' : Node} (h : parse source = .ok n)
    (h' : parse source' = .ok n') (hn : n.Numberless) (hn' : n'.Numberless)
    (same : n.renderWith hidden = n'.renderWith hidden) : n.spanless = n'.spanless := by
  obtain ⟨plain, back⟩ := outline_of_parse h hn
  obtain ⟨plain', back'⟩ := outline_of_parse h' hn'
  have texts : n.outline.text hidden = n'.outline.text hidden := by
    rw [n.text_outline, n'.text_outline, same]
  rw [← back, ← back', Outline.text_inj plain plain' texts]

/-- Two texts of one tree, with and without the parentheses that make no difference. -/
theorem render_injective_parentheses : ∃ n n', parse "-a - f(\"(b)\");" = .ok n ∧
    parse "(-a) - (f)( '(b)' ) ; // the same" = .ok n' ∧ n.Numberless ∧ n'.Numberless ∧
      n.render = n'.render ∧ n.spanless = n'.spanless := by
  let test : Node → Bool := fun n =>
    n.everyDown (!·.isNumber) 6 && n.render == "(program (- (- a) (call f \"(b)\"));)"
  have passes {n : Node} (h : test n) :
      n.Numberless ∧ n.render = "(program (- (- a) (call f \"(b)\"));)" := by
    obtain ⟨every, text⟩ := Bool.and_eq_true_iff.mp h
    exact ⟨fun m hm => by simpa using Node.every_of_everyDown every m hm, beq_iff_eq.mp text⟩
  have read : (parse "-a - f(\"(b)\");").toOption.any test := by decide +kernel
  have read' : (parse "(-a) - (f)( '(b)' ) ; // the same").toOption.any test := by decide +kernel
  cases h : parse "-a - f(\"(b)\");" with
  | error failure =>
      rw [h] at read
      cases read
  | ok n =>
      cases h' : parse "(-a) - (f)( '(b)' ) ; // the same" with
      | error failure =>
          rw [h'] at read'
          cases read'
      | ok n' =>
          rw [h] at read
          rw [h'] at read'
          obtain ⟨hn, text⟩ := passes read
          obtain ⟨hn', text'⟩ := passes read'
          have same := text.trans text'.symm
          exact ⟨n, n', rfl, rfl, hn, hn', same, render_injective Text.isHidden h h' hn hn' same⟩

end Grammar

end Nondet
