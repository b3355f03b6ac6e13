import Nondet.Proofs.Grammar.Built
import Nondet.Proofs.Grammar.Word
import Nondet.Proofs.Tree.Every

/-!
# Grammar — Written

The trees that can be read.  `Written what n` says that `n` is a tree of the grammar, rule by rule:
names are names, a function has parameters and a body of its form, and an `else` stands behind no
branch that would take it.  Every parser for a nested notion finds such trees and leaves less than it
was given, so the number of nestings the reader begins with is always enough, and it agrees with
itself on any larger one (`script_agrees`).
-/

namespace Nondet

/-- Whether an `else` behind the statement would belong to it. -/
def Node.endsOpen : Node → Bool
  | .ifStatement _ _ _ none             => true
  | .ifStatement _ _ _ (some alternate) => alternate.endsOpen
  | _                                   => false

end Nondet

namespace Nondet.Grammar

/-- What a source says can be an expression or a statement. -/
inductive Written : Nested → Node → Prop
  | literal {span value} : Written .expression (.literal span value)
  | identifier {span name} (hn : IsName name) : Written .expression (.identifier span name)
  | call {span callee arguments} (hc : Written .expression callee)
      (ha : ∀ a ∈ arguments, Written .expression a) :
      Written .expression (.call span callee arguments)
  | unary {span op argument} (ha : Written .expression argument) :
      Written .expression (.unary span op argument)
  | binary {span op left right} (hl : Written .expression left) (hr : Written .expression right) :
      Written .expression (.binary span op left right)
  | logical {span op left right} (hl : Written .expression left)
      (hr : Written .expression right) : Written .expression (.logical span op left right)
  | conditional {span test consequent alternate} (ht : Written .expression test)
      (hc : Written .expression consequent) (ha : Written .expression alternate) :
      Written .expression (.conditional span test consequent alternate)
  | assignment {span name value} (hn : IsName name) (hv : Written .expression value) :
      Written .expression (.assignment span name value)
  | arrowExpression {span params body} (hp : ∀ p ∈ params, IsName p)
      (hb : Written .expression body) :
      Written .expression (.arrowFunction span none params .expression body)
  | arrowBlock {span params span' statements} (hp : ∀ p ∈ params, IsName p)
      (hss : ∀ n ∈ statements, Written .statement n) :
      Written .expression (.arrowFunction span none params .block (.block span' statements))
  | functionDeclaration {span name params span' statements} (hn : IsName name)
      (hp : ∀ p ∈ params, IsName p) (hss : ∀ n ∈ statements, Written .statement n) :
      Written .statement
        (.functionDeclaration span (some name) params .block (.block span' statements))
  | variableDeclaration {span keyword name init} (hn : IsName name)
      (hi : Written .expression init) :
      Written .statement (.variableDeclaration span keyword name init)
  | ifStatement {span test consequent alternate} (ht : Written .expression test)
      (hc : Written .statement consequent) (ha : ∀ n ∈ alternate, Written .statement n)
      (hd : alternate.isSome → consequent.endsOpen = false) :
      Written .statement (.ifStatement span test consequent alternate)
  | returnStatement {span argument} (ha : ∀ n ∈ argument, Written .expression n) :
      Written .statement (.returnStatement span argument)
  | block {span statements} (hss : ∀ n ∈ statements, Written .statement n) :
      Written .statement (.block span statements)
  | expressionStatement {span expression} (he : Written .expression expression) :
      Written .statement (.expressionStatement span expression)

/-- What is below a node that can be read can be read. -/
theorem Written.child {what : Nested} {n m : Node} (h : Written what n) (hm : m ∈ n.children) :
    ∃ what', Written what' m := by
  cases h with
  | literal | identifier => cases hm
  | call hc ha =>
      rcases List.mem_cons.mp hm with rfl | hm
      · exact ⟨_, hc⟩
      · exact ⟨_, ha m hm⟩
  | unary h | assignment _ h | variableDeclaration _ h | arrowExpression _ h | expressionStatement h =>
      obtain rfl := List.mem_singleton.mp hm
      exact ⟨_, h⟩
  | binary hl hr | logical hl hr =>
      simp only [Node.children, List.mem_cons, List.not_mem_nil, or_false] at hm
      rcases hm with rfl | rfl
      · exact ⟨_, hl⟩
      · exact ⟨_, hr⟩
  | conditional ht hc ha =>
      simp only [Node.children, List.mem_cons, List.not_mem_nil, or_false] at hm
      rcases hm with rfl | rfl | rfl
      · exact ⟨_, ht⟩
      · exact ⟨_, hc⟩
      · exact ⟨_, ha⟩
  | arrowBlock _ hss | functionDeclaration _ _ hss =>
      obtain rfl := List.mem_singleton.mp hm
      exact ⟨_, .block hss⟩
  | ifStatement ht hc ha =>
      simp only [Node.children, List.mem_cons, Option.mem_toList] at hm
      rcases hm with rfl | rfl | hm
      · exact ⟨_, ht⟩
      · exact ⟨_, hc⟩
      · exact ⟨_, ha m hm⟩
  | returnStatement ha => exact ⟨_, ha m (Option.mem_toList.mp hm)⟩
  | block hss => exact ⟨_, hss m hm⟩

theorem Written.part {what : Nested} {n m : Node} (h : Written what n) (hm : n.Part m) :
    ∃ what', Written what' m := by
  induction hm with
  | refl => exact ⟨_, h⟩
  | tail _ hm ih =>
      obtain ⟨what', ih⟩ := ih
      exact ih.child hm

/-- No script is an expression or a statement, or stands in one. -/
theorem Written.scriptFree {what : Nested} {n : Node} (h : Written what n) : n.ScriptFree := by
  intro m hm
  obtain ⟨what', hw⟩ := h.part hm
  cases hw <;> rfl

open Nondet.Grammar.Parser

/-! ### Joining operands -/

/-- What holds of all operands and passes from two operands to the two joined holds of the tree of a
chain. -/
theorem Chain.toNode_of_join {P : Node → Prop}
    (join : ∀ {left right : Node} (op : Infix), P left → P right → P (op.join left right))
    {chain : Chain} (hf : P chain.first) (ho : ∀ p ∈ chain.others, P p.2) : P chain.toNode := by
  have level (level : Nat) : ∀ (others : List (Infix × Node)) {left : Node}, P left →
      (∀ p ∈ others, P p.2) →
        P (joinLevel level left others).first ∧ ∀ p ∈ (joinLevel level left others).others, P p.2 := by
    intro others
    induction others with
    | nil => exact fun hl ho => ⟨hl, ho⟩
    | cons p others ih =>
        intro left hl ho
        rw [List.forall_mem_cons] at ho
        rw [joinLevel]
        split
        · exact ih (join p.1 hl ho.1) ho.2
        · exact ⟨hl, List.forall_mem_cons.mpr (ih ho.1 ho.2)⟩
  exact (List.foldlRecOn (motive := fun c : Chain => P c.first ∧ ∀ p ∈ c.others, P p.2)
    Infix.levels _ ⟨hf, ho⟩ fun _ h l _ => level l _ h.1 h.2).1

theorem Written.join {left right : Node} (op : Infix) (hl : Written .expression left)
    (hr : Written .expression right) : Written .expression (op.join left right) := by
  cases op with
  | binary op => exact .binary hl hr
  | logical op => exact .logical hl hr

theorem Written.operand (marks : List PrefixMark) {primary : Node} {calls : List ArgumentList}
    (hp : Written .expression primary)
    (hc : ∀ args ∈ calls, ∀ n ∈ args.arguments, Written .expression n) :
    Written .expression (operand marks primary calls) := by
  have called : Written .expression (calls.foldl (fun callee args =>
      .call (callee.span.through args.span) callee args.arguments) primary) :=
    List.foldlRecOn (motive := Written .expression) calls _ hp fun _ h args ha => .call h (hc args ha)
  rw [Grammar.operand]
  induction marks with
  | nil => exact called
  | cons mark marks ih => exact .unary ih

/-! ### Rules -/

/-- The `else` of an if statement with what is behind it. -/
def alternate (inner : Inner) : Parser Node := do
  keyword .kwElse "else"
  layout
  inner.statement

/-- The parsers for scripts, nested as deeply as the text that is left may need. -/
def reader : Inner := fun what c f => parserAt (2 * c.rest.length + 2) what c f

/-- What is found where an expression or a statement is read.  Behind a statement to which an `else`
would belong comes none. -/
def Found : Nested → Node → Cursor → Prop
  | .expression, n, _ => Written .expression n
  | .statement, n, d  =>
    Written .statement n ∧ (n.endsOpen → d.layout = d ∧ ∀ f, (alternate reader d f).1 = none)

/-- What is nested behind the place is read in the same way. -/
def Near (c : Cursor) (inner inner' : Inner) : Prop :=
  ∀ what d, d.rest.length < c.rest.length → AgreeAt (Found what) (inner what) (inner' what) d

section Rules

variable {inner inner' : Inner} {c : Cursor}

theorem Near.statement (h : Near c inner inner') {d : Cursor} (hd : d.rest.length < c.rest.length) :
    AgreeAt (fun n _ => Written .statement n) inner.statement inner'.statement d :=
  (h .statement d hd).imp fun _ _ _ hf => hf.1

theorem block_agrees (h : Near c inner inner') :
    AgreeAt (fun n _ => ∃ span ss, n = .block span ss ∧ ∀ m ∈ ss, Written .statement m)
      (block inner) (block inner') c := by
  refine .rule (.spanned (.bind (.symbol _ _) fun _ d _ hd => .bind .layout fun _ d' hd' _ => ?_))
  refine .bind (.many fun e he => h.statement (by omega)) fun ss _ _ hss => ?_
  exact .bind .layout fun _ _ _ _ => .bind (.symbol _ _) fun _ _ _ _ =>
    .pure fun span => ⟨span, ss, rfl, hss⟩

theorem params_agrees : AgreeAt (fun ps d => (∀ p ∈ ps, IsName p) ∧ d.rest.length < c.rest.length)
    params params c := by
  refine .rule (.bind (.symbol _ _) fun _ d _ hd => .bind .layout fun _ d₁ h₁ _ => ?_)
  have names : AgreeAt (fun ps _ => ∀ p ∈ ps, IsName p) (separated [','] name)
      (separated [','] name) d₁ := .separated _ _ fun e _ => AgreeAt.name.imp fun _ _ _ hn => hn.1
  refine .bind (.optional names) fun ps d₂ h₂ hps => ?_
  refine .bind .layout fun _ d₃ h₃ _ => .bind (.symbol _ _) fun _ d₄ h₄ _ => .pure ⟨?_, by omega⟩
  cases ps with
  | none => exact nofun
  | some ps => exact hps ps rfl

theorem functionDeclaration_agrees (h : Near c inner inner') :
    AgreeAt (fun n _ => Written .statement n ∧ n.endsOpen = false) (functionDeclaration inner)
      (functionDeclaration inner') c := by
  refine .rule (.spanned (.bind (.oneOf rfl) fun _ d _ hd => .bind .layout fun _ d₁ h₁ _ => ?_))
  refine .bind .name fun name d₂ h₂ hn => .bind .layout fun _ d₃ h₃ _ => ?_
  refine .bind params_agrees fun ps d₄ h₄ hps => .bind .layout fun _ d₅ h₅ _ => ?_
  refine .bind (block_agrees fun what e he => h what e (by omega)) fun body _ _ hb => .pure fun _ => ?_
  obtain ⟨span, ss, rfl, hss⟩ := hb
  exact ⟨.functionDeclaration hn.1 hps.1 hss, rfl⟩

theorem variableDeclaration_agrees (h : Near c inner inner') :
    AgreeAt (fun n _ => Written .statement n ∧ n.endsOpen = false) (variableDeclaration inner)
      (variableDeclaration inner') c := by
  refine .rule (.spanned (.bind (.oneOf rfl) fun _ d _ hd => .bind .layout fun _ d₁ h₁ _ => ?_))
  refine .bind .name fun name d₂ h₂ hn => .bind .layout fun _ d₃ h₃ _ => ?_
  refine .bind (.symbol _ _) fun _ d₄ h₄ _ => .bind .layout fun _ d₅ h₅ _ => ?_
  refine .bind (h .expression d₅ (by omega)) fun init _ _ hi => .bind .layout fun _ _ _ _ => ?_
  exact .bind (.symbol _ _) fun _ _ _ _ => .pure fun _ => ⟨.variableDeclaration hn.1 hi, rfl⟩

theorem returnStatement_agrees (h : Near c inner inner') :
    AgreeAt (fun n _ => Written .statement n ∧ n.endsOpen = false) (returnStatement inner)
      (returnStatement inner') c := by
  refine .rule (.spanned (.bind (.oneOf rfl) fun _ d _ hd => .bind .layout fun _ d₁ h₁ _ => ?_))
  refine .bind (.optional (h .expression d₁ (by omega))) fun argument _ _ ha => ?_
  exact .bind .layout fun _ _ _ _ => .bind (.symbol _ _) fun _ _ _ _ =>
    .pure fun _ => ⟨.returnStatement ha, rfl⟩

theorem alternate_agrees (h : Near c inner inner') :
    AgreeAt (Found .statement) (alternate inner) (alternate inner') c :=
  .bind (.oneOf rfl) fun _ d _ hd => .bind .layout fun _ d₁ h₁ _ => h .statement d₁ (by omega)

/-- Since an `else` belongs to the nearest statement that can have one, none is left for a statement
around it. -/
theorem ifStatement_agrees (h : Near c inner inner') (hr : Near c inner reader) :
    AgreeAt (Found .statement) (ifStatement inner) (ifStatement inner') c := by
  refine .rule (.spanned (.bind (.oneOf rfl) fun _ d _ hd => .bind .layout fun _ d₁ h₁ _ => ?_))
  refine .bind (.symbol _ _) fun _ d₂ h₂ _ => .bind .layout fun _ d₃ h₃ _ => ?_
  refine .bind (h .expression d₃ (by omega)) fun test d₄ h₄ ht => .bind .layout fun _ d₅ h₅ _ => ?_
  refine .bind (.symbol _ _) fun _ d₆ h₆ _ => .bind .layout fun _ d₇ h₇ _ => ?_
  refine .bind (h .statement d₇ (by omega)) fun consequent d₈ h₈ hc => ?_
  refine .bind .layout fun _ d₉ h₉ e => ?_
  refine .bind (.optional_iff (alternate_agrees fun what e he => h what e (by omega))
    (alternate_agrees fun what e he => hr what e (by omega))) fun a d' _ ha => .pure fun span => ?_
  obtain ⟨hc, hopen⟩ := hc
  cases a with
  | none =>
      obtain ⟨rfl, hnone⟩ := ha
      refine ⟨.ifStatement ht hc nofun nofun, fun _ => ⟨?_, hnone⟩⟩
      rw [e, Cursor.layout_layout]
  | some a =>
      obtain ⟨⟨hw, hend⟩, hsome⟩ := ha
      refine ⟨.ifStatement ht hc (by simpa using hw) fun _ => ?_, hend⟩
      rw [← Bool.not_eq_true]
      intro ho
      obtain ⟨hlayout, hnone⟩ := hopen ho
      have := hsome .none
      rw [e, hlayout, hnone] at this
      cases this

theorem expressionStatement_agrees
    (he : AgreeAt (Found .expression) inner.expression inner'.expression c) :
    AgreeAt (fun n _ => Written .statement n ∧ n.endsOpen = false) (expressionStatement inner)
      (expressionStatement inner') c :=
  .rule (.spanned (.bind he fun _ _ _ he => .bind .layout fun _ _ _ _ => .bind (.symbol _ _)
    fun _ _ _ _ => .pure fun _ => ⟨.expressionStatement he, rfl⟩))

theorem statement_agrees (h : Near c inner inner') (hr : Near c inner reader)
    (he : AgreeAt (Found .expression) inner.expression inner'.expression c) :
    AgreeAt (Found .statement) (statement inner) (statement inner') c := by
  have closed {p p' : Parser Node}
      (h : AgreeAt (fun n _ => Written .statement n ∧ n.endsOpen = false) p p' c) :
      AgreeAt (Found .statement) p p' c :=
    h.imp fun _ _ _ hn => ⟨hn.1, fun ho => nomatch hn.2.symm.trans ho⟩
  refine .choice (.cons (closed (functionDeclaration_agrees h)) (.cons
    (closed (variableDeclaration_agrees h)) (.cons (closed (returnStatement_agrees h)) (.cons
      (ifStatement_agrees h hr) (.cons (closed ((block_agrees h).imp ?_)) (.cons
        (closed (expressionStatement_agrees he)) .nil))))))
  rintro _ _ _ ⟨span, ss, rfl, hss⟩
  exact ⟨.block hss, rfl⟩

theorem arrowFunction_agrees (h : Near c inner inner') :
    AgreeAt (Found .expression) (arrowFunction inner) (arrowFunction inner') c := by
  have one : AgreeAt (fun ps d => (∀ p ∈ ps, IsName p) ∧ d.rest.length < c.rest.length)
      (do return [← name]) (do return [← name]) c :=
    .bind .name fun _ _ _ hn => .pure ⟨by simpa using hn.1, hn.2⟩
  refine .rule (.spanned (.bind (.orElse params_agrees one) fun ps d _ hps => ?_))
  refine .bind .layout fun _ d₁ h₁ _ => .bind (.symbol _ _) fun _ d₂ h₂ _ => ?_
  refine .bind .layout fun _ d₃ h₃ _ => ?_
  have blockBody : AgreeAt (fun b _ => ∀ span, Written .expression
      (.arrowFunction span none ps b.1 b.2)) (do return (BodyForm.block, ← block inner))
      (do return (BodyForm.block, ← block inner')) d₃ := by
    refine .bind (block_agrees fun what e he => h what e (by omega)) fun _ _ _ hb => .pure fun _ => ?_
    obtain ⟨span, ss, rfl, hss⟩ := hb
    exact .arrowBlock hps.1 hss
  have expressionBody : AgreeAt (fun b _ => ∀ span, Written .expression
      (.arrowFunction span none ps b.1 b.2)) (do return (BodyForm.expression, ← inner.expression))
      (do return (BodyForm.expression, ← inner'.expression)) d₃ :=
    .bind (h .expression d₃ (by omega)) fun _ _ _ hb => .pure fun _ => .arrowExpression hps.1 hb
  exact .bind (.orElse blockBody expressionBody) fun _ _ _ hb => .pure hb

theorem assignment_agrees (h : Near c inner inner') :
    AgreeAt (Found .expression) (assignment inner) (assignment inner') c := by
  refine .rule (.spanned (.bind .name fun _ d _ hn => .bind .layout fun _ d₁ h₁ _ => ?_))
  refine .bind (.notNext _) fun _ d₂ h₂ _ => .bind .layout fun _ d₃ h₃ _ => ?_
  refine .bind (.symbol _ _) fun _ d₄ h₄ _ => .bind .layout fun _ d₅ h₅ _ => ?_
  have := hn.2
  exact .bind (h .expression d₅ (by omega)) fun _ _ _ hv => .pure fun _ => .assignment hn.1 hv

theorem argumentList_agrees (h : Near c inner inner') :
    AgreeAt (fun args _ => ∀ n ∈ args.arguments, Written .expression n) (argumentList inner)
      (argumentList inner') c := by
  refine .rule (.spanned (.bind (.symbol _ _) fun _ d _ hd => .bind .layout fun _ d₁ h₁ _ => ?_))
  have each : AgreeAt (fun ns _ => ∀ n ∈ ns, Written .expression n)
      (separated [','] inner.expression) (separated [','] inner'.expression) d₁ :=
    .separated _ _ fun e he => h .expression e (by omega)
  refine .bind (.optional each) fun arguments _ _ ha => .bind .layout fun _ _ _ _ => ?_
  refine .bind (.symbol _ _) fun _ _ _ _ => .pure fun _ => ?_
  cases arguments with
  | none => exact nofun
  | some arguments => exact ha arguments rfl

theorem primary_agrees (h : Near c inner inner') :
    AgreeAt (Found .expression) (primary inner) (primary inner') c := by
  have scanned {α : Type} {p : Parser α} (hp : AgreeAt (fun _ _ => True) p p c) (build : α → Literal) :
      AgreeAt (Found .expression) (literal p build) (literal p build) c :=
    .spanned (.bind hp fun _ _ _ _ => .pure fun _ => .literal)
  have parenthesis : AgreeAt (Found .expression) (parenthesised inner) (parenthesised inner') c :=
    .bind (.symbol _ _) fun _ d _ hd => .bind .layout fun _ d₁ h₁ _ =>
      .bind (h .expression d₁ (by omega)) fun _ _ _ hn => .bind .layout fun _ _ _ _ =>
        .bind (.symbol _ _) fun _ _ _ _ => .pure hn
  refine .choice (.cons (scanned (.literal fun n d hs => ?_) _) (.cons
    (scanned (.literal fun _ _ => Token.string?_length) _) (.cons (scanned (.word rfl) _) (.cons
      (scanned (.word rfl) _) (.cons (scanned (.word rfl) _) (.cons (.spanned (.bind .name
        fun _ _ _ hn => .pure fun _ => .identifier hn.1)) (.cons parenthesis .nil)))))))
  obtain ⟨⟨n', d'⟩, hn, e⟩ := Option.map_eq_some_iff.mp hs
  cases e
  exact Token.numeral?_length hn

theorem prefixMark_agrees : AgreeAt (fun _ _ => True) prefixMark prefixMark c := by
  have one (r : Rule) (x : Char) (op : UnaryOp) :
      AgreeAt (fun _ _ => True) (operator r [x] op) (operator r [x] op) c :=
    .rule (.bind (.symbol _ _) fun _ _ _ _ => .pure trivial)
  exact .spanned (.bind (.orElse (one _ _ _) (one _ _ _)) fun _ _ _ _ => .pure fun _ => trivial)

theorem operandExpression_agrees (h : Near c inner inner') :
    AgreeAt (Found .expression) (operandExpression inner) (operandExpression inner') c := by
  refine .bind (.many fun _ _ => prefixMark_agrees) fun marks d hd _ => ?_
  refine .bind .layout fun _ d₁ h₁ _ => ?_
  refine .bind (primary_agrees fun what e he => h what e (by omega)) fun _ d₂ h₂ hp => ?_
  refine .bind .layout fun _ d₃ h₃ _ => ?_
  exact .bind (.many fun e he => argumentList_agrees fun what g hg => h what g (by omega))
    fun _ _ _ hc => .pure (hp.operand marks hc)

theorem infixOperator_agrees : AgreeAt (fun _ _ => True) infixOperator infixOperator c := by
  have one (r : Rule) (x : Char) (xs : List Char) (op : Infix) :
      AgreeAt (fun _ _ => True) (operator r (x :: xs) op) (operator r (x :: xs) op) c :=
    .rule (.bind (.symbol _ _) fun _ _ _ _ => .pure trivial)
  exact .choice (List.forall₂_same.mpr (by simp [one]))

theorem binary_agrees (h : Near c inner inner') :
    AgreeAt (Found .expression) (binary inner) (binary inner') c := by
  refine .rule (.bind (operandExpression_agrees h) fun _ d hd hf => .bind .layout fun _ d₁ h₁ _ => ?_)
  have other (e : Cursor) (he : e.rest.length ≤ d₁.rest.length) :
      AgreeAt (fun p _ => Written .expression p.2)
        (do let op ← infixOperator; layout; return (op, ← operandExpression inner))
        (do let op ← infixOperator; layout; return (op, ← operandExpression inner')) e :=
    .bind infixOperator_agrees fun _ e₁ g₁ _ => .bind .layout fun _ e₂ g₂ _ =>
      .bind (operandExpression_agrees fun what g hg => h what g (by omega)) fun _ _ _ hn => .pure hn
  exact .bind (.many other) fun _ _ _ ho => .pure (Chain.toNode_of_join Written.join hf ho)

theorem conditional_agrees (h : Near c inner inner') :
    AgreeAt (Found .expression) (conditional inner) (conditional inner') c := by
  refine .rule (.spanned (.bind (binary_agrees h) fun test d hd ht => ?_))
  refine .bind .layout fun _ d₁ h₁ _ => ?_
  have both : AgreeAt (fun p _ => Written .expression p.1 ∧ Written .expression p.2)
      (do
        symbol ['?']
        layout
        let consequent ← inner.expression
        layout
        symbol [':']
        layout
        return (consequent, ← inner.expression))
      (do
        symbol ['?']
        layout
        let consequent ← inner'.expression
        layout
        symbol [':']
        layout
        return (consequent, ← inner'.expression)) d₁ := by
    refine .bind (.symbol _ _) fun _ d₂ h₂ _ => .bind .layout fun _ d₃ h₃ _ => ?_
    refine .bind (h .expression d₃ (by omega)) fun _ d₄ h₄ hc => .bind .layout fun _ d₅ h₅ _ => ?_
    refine .bind (.symbol _ _) fun _ d₆ h₆ _ => .bind .layout fun _ d₇ h₇ _ => ?_
    exact .bind (h .expression d₇ (by omega)) fun _ _ _ ha => .pure ⟨hc, ha⟩
  refine .bind (.optional both) fun branches _ _ hb => .pure fun _ => ?_
  cases branches with
  | none => exact ht
  | some b =>
      obtain ⟨hc, ha⟩ := hb b rfl
      exact .conditional ht hc ha

theorem expression_agrees (h : Near c inner inner') :
    AgreeAt (Found .expression) (expression inner) (expression inner') c :=
  .rule (.choice (.cons (arrowFunction_agrees h) (.cons (assignment_agrees h)
    (.cons (conditional_agrees h) .nil))))

end Rules

/-! ### Nestings -/

/-- How many nestings suffice for a text of some length.  A statement can begin with an expression
without taking anything first; everything else takes a character. -/
def Nested.need : Nested → Nat → Nat
  | .expression, n => 2 * n + 1
  | .statement, n  => 2 * n + 2

theorem Nested.need_lt {what : Nested} {n m : Nat} (h : n < m) : what.need n ≤ 2 * m := by
  cases what <;> simp only [need] <;> omega

theorem parserAt_expression (fuel : Nat) :
    parserAt (fuel + 1) .expression = expression (parserAt fuel) := rfl

theorem parserAt_statement (fuel : Nat) :
    parserAt (fuel + 1) .statement = statement (parserAt fuel) := rfl

/-- At one place the reader is one of the parsers. -/
theorem agreeAt_reader {what : Nested} {P : Node → Cursor → Prop} {p : Parser Node} {c : Cursor} :
    AgreeAt P p (reader what) c ↔ AgreeAt P p (parserAt (2 * c.rest.length + 2) what) c := by
  simp only [AgreeAt, reader]

/-- **With enough nestings it makes no difference how many there are.** -/
theorem parserAt_agrees (c : Cursor) : ∀ what fuel fuel', what.need c.rest.length ≤ fuel →
    what.need c.rest.length ≤ fuel' → AgreeAt (Found what) (parserAt fuel what) (parserAt fuel' what) c := by
  -- Behind the place the text is shorter, and any two numbers that suffice there agree.
  have near {fuel fuel' : Nat} (h : 2 * c.rest.length ≤ fuel) (h' : 2 * c.rest.length ≤ fuel') :
      Near c (parserAt fuel) (parserAt fuel') := fun what d hd =>
    parserAt_agrees d what fuel fuel' (Nat.le_trans (Nested.need_lt hd) h)
      (Nat.le_trans (Nested.need_lt hd) h')
  have toReader {fuel : Nat} (h : 2 * c.rest.length ≤ fuel) : Near c (parserAt fuel) reader :=
    fun what d hd => agreeAt_reader.mpr (parserAt_agrees d what fuel _
      (Nat.le_trans (Nested.need_lt hd) h) (by cases what <;> simp [Nested.need]))
  have readsExpression : ∀ fuel fuel', 2 * c.rest.length + 1 ≤ fuel → 2 * c.rest.length + 1 ≤ fuel' →
      AgreeAt (Found .expression) (parserAt fuel .expression) (parserAt fuel' .expression) c := by
    intro fuel fuel' h h'
    obtain ⟨fuel, rfl⟩ := Nat.exists_eq_add_of_lt h
    obtain ⟨fuel', rfl⟩ := Nat.exists_eq_add_of_lt h'
    rw [parserAt_expression, parserAt_expression]
    exact expression_agrees (near (Nat.le_add_right _ _) (Nat.le_add_right _ _))
  intro what fuel fuel' h h'
  cases what with
  | expression => exact readsExpression fuel fuel' h h'
  | statement =>
      obtain ⟨fuel, rfl⟩ := Nat.exists_eq_add_of_lt h
      obtain ⟨fuel', rfl⟩ := Nat.exists_eq_add_of_lt h'
      rw [parserAt_statement, parserAt_statement]
      have hle (k : Nat) : 2 * c.rest.length ≤ 2 * c.rest.length + 1 + k := by omega
      exact statement_agrees (near (hle _) (hle _)) (toReader (hle _))
        (readsExpression _ _ (Nat.le_add_right _ _) (Nat.le_add_right _ _))
termination_by c.rest.length

theorem near_reader {c : Cursor} {fuel : Nat} (h : 2 * c.rest.length ≤ fuel) :
    Near c (parserAt fuel) reader := fun what d hd =>
  agreeAt_reader.mpr (parserAt_agrees d what fuel _ (Nat.le_trans (Nested.need_lt hd) h)
    (by cases what <;> simp [Nested.need]))

/-- The number of nestings with which the reader begins suffices. -/
theorem parserAt_reader (c : Cursor) (what : Nested) {fuel : Nat}
    (h : what.need c.rest.length ≤ fuel) :
    AgreeAt (Found what) (parserAt fuel what) (reader what) c :=
  agreeAt_reader.mpr (parserAt_agrees c what fuel _ h (by cases what <;> simp [Nested.need]))

/-- The reader of expressions reads by the rule for them. -/
theorem reader_expression (c : Cursor) :
    AgreeAt (Found .expression) (expression reader) (reader .expression) c := by
  rw [agreeAt_reader, parserAt_expression]
  exact (expression_agrees (near_reader (Nat.le_succ _))).symm

/-- The reader of statements reads by the rule for them. -/
theorem reader_statement (c : Cursor) :
    AgreeAt (Found .statement) (statement reader) (reader .statement) c := by
  rw [agreeAt_reader, parserAt_statement]
  exact (statement_agrees (near_reader (Nat.le_succ _)) (near_reader (Nat.le_succ _))
    (parserAt_reader c .expression (Nat.le_refl _))).symm

/-- What is read for a script. -/
theorem script_agrees (source : String) :
    AgreeAt (fun n _ => ∃ span ss, n = .program span ss ∧ ∀ m ∈ ss, Written .statement m)
      (script (parserAt (nestings source))) (script reader) (.start source) := by
  have length : (Cursor.start source).rest.length = source.length := source.length_toList
  refine .rule (.spanned (.bind .layout fun _ d hd _ => ?_))
  refine .bind (.many fun e he => (parserAt_reader e .statement ?_).imp fun _ _ _ hn => hn.1)
    fun ss d₁ h₁ hss => .bind .layout fun _ d₂ h₂ _ => .bind .endOfInput
      fun _ _ _ _ => .pure fun span => ⟨span, ss, rfl, hss⟩
  simp only [Nested.need, nestings]
  omega

/-- **A text is a script when the reader reads it as one.** -/
theorem parse_eq_ok_iff {source : String} {n : Node} :
    parse source = .ok n ↔ ∃ d, (script reader (.start source) .none).1 = some (n, d) := by
  rw [← (script_agrees source .none .none).eq, parse_eq]
  rcases script (parserAt (nestings source)) (.start source) .none with ⟨_ | ⟨n', d⟩, f⟩ <;> simp

/-- **What is read from a source is written in it.** -/
theorem parse_written {source : String} {n : Node} (h : parse source = .ok n) :
    ∃ span ss, n = .program span ss ∧ ∀ m ∈ ss, Written .statement m := by
  obtain ⟨d, hd⟩ := parse_eq_ok_iff.mp h
  exact ((script_agrees source .none .none).symm.of_eq_some hd).1

/-- A script is read as a program node, and no other node in it is one. -/
theorem parse_program {source : String} {n : Node} (h : parse source = .ok n) :
    ∃ span ss, n = .program span ss ∧ ∀ m ∈ ss, m.ScriptFree := by
  obtain ⟨span, ss, rfl, hss⟩ := parse_written h
  exact ⟨span, ss, rfl, fun m hm => (hss m hm).scriptFree⟩

end Nondet.Grammar
