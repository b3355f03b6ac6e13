import Nondet.Proofs.Grammar.Statements

/-!
# Grammar — RoundTrip

Printing a tree and reading what was printed.  A printed text is a list of lexemes with a space
between each two (`Written.solid`), and node by node those lexemes are read as the node they were
printed for (`Written.printed`): an expression at whatever tightness is wanted, a statement in front
of anything but an `else` that would belong to it.  `parse_print` puts the two together for a script.
-/

namespace Nondet.Grammar

open Nondet.Grammar.Parser

variable {n : Node} {style : Style}

/-! ### Tokens -/

/-- A word or a literal is in front of no layout. -/
theorem Lexeme.Solid.of_first {x : Char} {xs : Lexeme} (hx : ¬ Token.IsMark x)
    (ht : (Token.token? ⟨x :: xs, 0⟩).map Cursor.rest = some []) : Lexeme.Solid (x :: xs) where
  noLayout := by
    have marks : ∀ y ∈ [' ', '\t', '\r', '\n', '/'], Token.IsMark y := by decide
    have noSpace : Cursor.isSpace x = false := by
      rw [← Bool.not_eq_true]
      exact fun hs => hx (marks x (List.mem_append_left ['/'] (Cursor.isSpace_iff.mp hs)))
    have noSlash {xs' : List Char} : ¬ '/' :: xs' <+: x :: xs := fun h =>
      hx ((List.cons_prefix_cons.mp h).1 ▸ marks '/' (by decide))
    exact Cursor.skip?_eq_none rfl noSpace noSlash noSlash
  token := ht

theorem IsName.solid {s : String} (h : IsName s) : Lexeme.Solid s.toList := by
  obtain ⟨x, xs, e, hx⟩ := h.start
  have chars := h.chars
  rw [e] at chars ⊢
  refine .of_first (fun hm => nomatch hm.word.symm.trans hx) ?_
  rw [Token.token?_word rfl hx, Option.map_some, Token.rest_word, List.dropWhile_eq_nil_iff.mpr chars]

theorem ReadsBack.solid {text : String} {x : Float} (h : ReadsBack text x) :
    Lexeme.Solid text.toList := by
  obtain ⟨y, ys, e, hy⟩ := h.digit
  obtain ⟨n, d, hn, hd, -⟩ := h
  rw [Cursor.start, e] at hn
  rw [e]
  refine .of_first (fun hm => nomatch hm.digit.symm.trans hy) ?_
  rw [Token.token?_number rfl hy, hn]
  exact congrArg some hd

theorem Quotes.solid {l : Lexeme} {t : String} (h : Quotes l t) : l.Solid := by
  obtain ⟨x, xs, rfl, hx⟩ := h.quote
  obtain ⟨d, hs, hd⟩ := h
  refine .of_first (fun hm => hm.quote hx) ?_
  rw [Token.token?_string rfl hx, hs]
  exact congrArg some hd

theorem Infix.solid (op : Infix) : op.text.Solid := by
  rcases op with op | op <;> cases op <;> decide

theorem Style.solid_literal {span : Span} {value : Literal}
    (h : style.Faithful (.literal span value)) : (style.literal value).Solid := by
  cases value with
  | number x =>
      have read : ReadsBack (style.number x) x := h.self x span rfl
      exact read.solid
  | string t =>
      exact (quotes_quoted (by by_cases ht : style.single t <;> simp [ht, IsQuote]) t).solid
  | bool b =>
      have words : ∀ b : Bool, Lexeme.Solid (if b then "true" else "false").toList := by decide
      exact words b
  | null =>
      have word : Lexeme.Solid "null".toList := by decide
      exact word
  | undefined =>
      have word : Lexeme.Solid "undefined".toList := by decide
      exact word

theorem inCommas_solid {lists : List (List Lexeme)} (h : ∀ ls ∈ lists, ∀ l ∈ ls, l.Solid) :
    ∀ l ∈ inCommas lists, l.Solid := by
  cases lists with
  | nil => nofun
  | cons ls others =>
      obtain ⟨first, rest⟩ := List.forall_mem_cons.mp h
      refine List.forall_mem_append.mpr ⟨first, fun l hl => ?_⟩
      obtain ⟨ls', hm, hl⟩ := List.mem_flatMap.mp hl
      rcases List.mem_cons.mp hl with rfl | hl
      · decide
      · exact rest ls' hm l hl

theorem inParens_solid {ls : List Lexeme} (h : ∀ l ∈ ls, l.Solid) : ∀ l ∈ inParens ls, l.Solid := by
  refine List.forall_mem_cons.mpr ⟨by decide, List.forall_mem_append.mpr ⟨h, ?_⟩⟩
  exact List.forall_mem_singleton.mpr (by decide)

theorem paramLexemes_solid {params : List String} (h : ∀ p ∈ params, IsName p) :
    ∀ l ∈ paramLexemes params, l.Solid := by
  refine inParens_solid (inCommas_solid ?_)
  rw [List.forall_mem_map]
  exact fun p hp => List.forall_mem_singleton.mpr (h p hp).solid

theorem Style.enclose_solid {k : Nat} {ls : List Lexeme} (h : ∀ l ∈ ls, l.Solid) :
    ∀ l ∈ style.enclose k n ls, l.Solid := by
  rw [Style.enclose]
  split
  · exact inParens_solid h
  · exact h

theorem block_solid (span : Span) {statements : List Node}
    (h : ∀ m ∈ statements, ∀ l ∈ style.lexemes 0 m, l.Solid) (k : Nat) :
    ∀ l ∈ style.lexemes k (.block span statements), l.Solid := by
  rw [Style.lexemes_block]
  refine List.forall_mem_cons.mpr ⟨by decide, List.forall_mem_append.mpr
    ⟨fun l hl => ?_, List.forall_mem_singleton.mpr (by decide)⟩⟩
  obtain ⟨m, hm, hl⟩ := List.mem_flatMap.mp (List.flatMap_def ▸ hl)
  exact h m hm l hl

theorem UnaryOp.solid (op : UnaryOp) : Lexeme.Solid op.symbol.toList := by
  cases op <;> decide

/-- Layout ends in front of every lexeme of a tree. -/
theorem Written.solid {what : Nested} (h : Written what n) (hf : style.Faithful n) (k : Nat) :
    ∀ l ∈ style.lexemes k n, l.Solid := by
  induction h generalizing k with
  | literal =>
      rw [Style.lexemes]
      exact Style.enclose_solid (List.forall_mem_singleton.mpr (Style.solid_literal hf))
  | identifier hn =>
      rw [Style.lexemes]
      exact Style.enclose_solid (List.forall_mem_singleton.mpr hn.solid)
  | call _ _ hc ha =>
      have callee := hc (hf.child List.mem_cons_self)
      rw [Style.lexemes, Style.lexemesEach_eq_map]
      refine Style.enclose_solid (List.forall_mem_append.mpr
        ⟨callee 8, inParens_solid (inCommas_solid (List.forall_mem_map.mpr fun a hm => ?_))⟩)
      exact ha a hm (hf.child (List.mem_cons_of_mem _ hm)) 0
  | unary _ ih =>
      have argument := ih (hf.child List.mem_cons_self)
      rw [Style.lexemes]
      exact Style.enclose_solid (List.forall_mem_cons.mpr ⟨UnaryOp.solid _, argument 7⟩)
  | @binary _ op _ _ _ _ hl hr =>
      have left := hl (hf.child List.mem_cons_self)
      have right := hr (hf.child (by simp [Node.children]))
      rw [Style.lexemes]
      exact Style.enclose_solid (List.forall_mem_append.mpr
        ⟨left _, List.forall_mem_cons.mpr ⟨(Infix.binary op).solid, right _⟩⟩)
  | @logical _ op _ _ _ _ hl hr =>
      have left := hl (hf.child List.mem_cons_self)
      have right := hr (hf.child (by simp [Node.children]))
      rw [Style.lexemes]
      exact Style.enclose_solid (List.forall_mem_append.mpr
        ⟨left _, List.forall_mem_cons.mpr ⟨(Infix.logical op).solid, right _⟩⟩)
  | conditional _ _ _ ht hc ha =>
      have test := ht (hf.child List.mem_cons_self)
      have consequent := hc (hf.child (by simp [Node.children]))
      have alternate := ha (hf.child (by simp [Node.children]))
      rw [Style.lexemes]
      simp only [List.append_assoc, List.cons_append]
      exact Style.enclose_solid (List.forall_mem_append.mpr ⟨test 1, List.forall_mem_cons.mpr
        ⟨by decide, List.forall_mem_append.mpr ⟨consequent 0,
          List.forall_mem_cons.mpr ⟨by decide, alternate 0⟩⟩⟩⟩)
  | assignment hn _ ih =>
      have value := ih (hf.child List.mem_cons_self)
      rw [Style.lexemes]
      exact Style.enclose_solid (List.forall_mem_cons.mpr
        ⟨hn.solid, List.forall_mem_cons.mpr ⟨by decide, value 0⟩⟩)
  | arrowExpression hp _ ih =>
      have body := ih (hf.child List.mem_cons_self)
      rw [Style.lexemes]
      exact Style.enclose_solid (List.forall_mem_append.mpr
        ⟨paramLexemes_solid hp, List.forall_mem_cons.mpr ⟨by decide, body 0⟩⟩)
  | @arrowBlock _ _ inner _ hp _ ih =>
      have body := block_solid inner fun m hm =>
        ih m hm ((hf.child List.mem_cons_self).child hm) 0
      rw [Style.lexemes]
      exact Style.enclose_solid (List.forall_mem_append.mpr
        ⟨paramLexemes_solid hp, List.forall_mem_cons.mpr ⟨by decide, body 0⟩⟩)
  | @functionDeclaration _ _ _ inner _ hn hp _ ih =>
      have body := block_solid inner fun m hm =>
        ih m hm ((hf.child List.mem_cons_self).child hm) 0
      rw [Style.lexemes]
      exact List.forall_mem_cons.mpr ⟨by decide, List.forall_mem_append.mpr
        ⟨List.forall_mem_append.mpr ⟨List.forall_mem_singleton.mpr hn.solid,
          paramLexemes_solid hp⟩, body 0⟩⟩
  | @variableDeclaration _ keyword _ _ hn _ ih =>
      have init := ih (hf.child List.mem_cons_self)
      have word : Lexeme.Solid keyword.text.toList := by
        cases keyword <;> decide
      rw [Style.lexemes]
      exact List.forall_mem_cons.mpr ⟨word, List.forall_mem_cons.mpr ⟨hn.solid,
        List.forall_mem_cons.mpr ⟨by decide, List.forall_mem_append.mpr
          ⟨init 0, List.forall_mem_singleton.mpr (by decide)⟩⟩⟩⟩
  | @ifStatement _ _ _ other _ _ _ _ ht hc ha =>
      have test := ht (hf.child List.mem_cons_self)
      have consequent := hc (hf.child (by simp [Node.children]))
      have second : ∀ l ∈ ((other.map (style.lexemes 0)).map ("else".toList :: ·)).getD [],
          Lexeme.Solid l := by
        cases other with
        | none => exact List.forall_mem_nil _
        | some other =>
            exact List.forall_mem_cons.mpr
              ⟨by decide, ha other rfl (hf.child (by simp [Node.children])) 0⟩
      rw [Style.lexemes, Style.lexemesOption_eq_map]
      exact List.forall_mem_cons.mpr ⟨by decide, List.forall_mem_append.mpr
        ⟨List.forall_mem_append.mpr ⟨inParens_solid (test 0), consequent 0⟩, second⟩⟩
  | @returnStatement _ argument _ ha =>
      have given : ∀ l ∈ (argument.map (style.lexemes 0)).getD [], l.Solid := by
        cases argument with
        | none => exact List.forall_mem_nil _
        | some a => exact ha a rfl (hf.child (by simp [Node.children])) 0
      rw [Style.lexemes, Style.lexemesOption_eq_map]
      exact List.forall_mem_cons.mpr ⟨by decide, List.forall_mem_append.mpr
        ⟨given, List.forall_mem_singleton.mpr (by decide)⟩⟩
  | block _ ih => exact block_solid _ (fun m hm => ih m hm (hf.child hm) 0) k
  | expressionStatement _ ih =>
      have expression := ih (hf.child List.mem_cons_self)
      rw [Style.lexemes]
      exact List.forall_mem_append.mpr
        ⟨expression 0, List.forall_mem_singleton.mpr (by decide)⟩

/-! ### Printed trees -/

/-- What is printed for an expression or a statement is read as it. -/
def Printed (style : Style) : Nested → Node → Prop
  | .expression, n => ∀ k, Binds k n.spanless (style.lexemes k n)
  | .statement, n  => Statement n.spanless n.endsOpen (style.lexemes 0 n)

/-- What is printed for a value is read as the value. -/
theorem Primary.value {style : Style} {span : Span} {value : Literal}
    (h : style.Faithful (.literal span value)) :
    Primary (.literal .zero value) [style.literal value] := by
  cases value with
  | number x => exact .number (h.self x span rfl)
  | string t => exact .string (quotes_quoted (by by_cases ht : style.single t <;> simp [ht, IsQuote]) t)
  | bool b => exact .bool b
  | null => exact .null
  | undefined => exact .undefined

variable {style : Style}

/-- A block is read as its statements. -/
theorem reads_printedBlock {statements : List Node}
    (h : ∀ m ∈ statements, Printed style .statement m) (span : Span) (v : List Lexeme) :
    Reads (block reader) (style.lexemes 0 (.block span statements) ++ v) v
      (Node.spanless (.block span statements)).Like := by
  rw [Node.spanless_block, Style.lexemes_block]
  exact Statement.reads_block h v

theorem tightness_binary (span : Span) (op : BinaryOp) (left right : Node) :
    (Node.binary span op left right).tightness = (Infix.binary op).level := by cases op <;> rfl

theorem tightness_logical (span : Span) (op : LogicalOp) (left right : Node) :
    (Node.logical span op left right).tightness = (Infix.logical op).level := by cases op <;> rfl

/-- **Printing and reading, node by node.** -/
theorem Written.printed {what : Nested} (h : Written what n) (hf : style.Faithful n) :
    Printed style what n := by
  induction h with
  | literal => exact fun k => Binds.enclose (Primary.value hf) rfl
  | identifier hn => exact fun k => Binds.enclose (Primary.identifier hn) rfl
  | call _ _ hc ha =>
      have called := (hc (hf.child (by simp [Node.children])) 8).call (Arguments.of_expressions
        fun a hm => ha a hm (hf.child (by simp [Node.children, hm])) 0)
      intro k
      rw [Node.spanless, Node.spanlessEach_eq_map, Style.lexemes, Style.lexemesEach_eq_map]
      exact Binds.enclose called rfl
  | unary _ ih =>
      have argument := ih (hf.child (by simp [Node.children])) 7
      exact fun k => Binds.enclose (Operand.unary _ argument) rfl
  | @binary _ op _ _ _ _ hl hr =>
      have joined := Binds.join (hl (hf.child (by simp [Node.children])) (Infix.binary op).level)
        (hr (hf.child (by simp [Node.children])) _)
      rw [← Infix.spanless_join, ← tightness_binary] at joined
      exact fun k => Binds.enclose joined rfl
  | @logical _ op _ _ _ _ hl hr =>
      have joined := Binds.join (hl (hf.child (by simp [Node.children])) (Infix.logical op).level)
        (hr (hf.child (by simp [Node.children])) _)
      rw [← Infix.spanless_join, ← tightness_logical] at joined
      exact fun k => Binds.enclose joined rfl
  | conditional _ _ _ ht hc ha =>
      have test := ht (hf.child (by simp [Node.children])) 1
      have consequent := hc (hf.child (by simp [Node.children])) 0
      have alternate := ha (hf.child (by simp [Node.children])) 0
      exact fun k =>
        Binds.enclose (Expression.conditional (by decide) test consequent alternate) rfl
  | assignment hn _ ih =>
      have value := ih (hf.child (by simp [Node.children])) 0
      exact fun k => Binds.enclose (Expression.assignment hn value) rfl
  | arrowExpression hp _ ih =>
      have body := ih (hf.child (by simp [Node.children])) 0
      exact fun k =>
        Binds.enclose (Expression.arrowFunction hp (Expression.reads_arrowBody body)) rfl
  | arrowBlock hp _ ih =>
      have body := reads_printedBlock fun m hm => ih m hm
        ((hf.child List.mem_cons_self).child hm)
      exact fun k => Binds.enclose (Expression.arrowFunction hp fun {u} _ =>
        .orElse_left (.map (body _ u) fun _ hb => ⟨rfl, hb⟩)) rfl
  | functionDeclaration hn hp _ ih =>
      have body := reads_printedBlock fun m hm => ih m hm
        ((hf.child List.mem_cons_self).child hm)
      exact Statement.functionDeclaration hn hp (body _)
  | variableDeclaration hn _ ih =>
      exact Statement.variableDeclaration hn (ih (hf.child (by simp [Node.children])) 0)
  | @ifStatement _ _ _ other _ _ _ hd ht hc ha =>
      have test := ht (hf.child (by simp [Node.children])) 0
      have consequent := hc (hf.child (by simp [Node.children]))
      cases other with
      | none =>
          have alone := Statement.ifStatement test consequent
          rw [← List.append_nil (_ ++ _)] at alone
          exact alone
      | some other =>
          have := ha other rfl (hf.child (by simp [Node.children]))
          rw [Printed, hd rfl] at consequent
          exact Statement.ifElse test consequent this
  | returnStatement _ ha =>
      have := Statement.returnStatement fun a hm =>
        ha a hm (hf.child (by simpa [Node.children] using hm)) 0
      rw [Printed, Node.spanless, Node.spanlessOption_eq_map, Style.lexemes,
        Style.lexemesOption_eq_map]
      exact this
  | block _ ih =>
      rw [Printed, Node.spanless_block, Style.lexemes_block]
      exact Statement.block fun m hm => ih m hm (hf.child (by simpa [Node.children] using hm))
  | expressionStatement _ ih =>
      exact Statement.expressionStatement (ih (hf.child (by simp [Node.children])) 0)

/-! ### Scripts -/

/-- What is printed for statements that a source can say is read as a script of them. -/
theorem parse_printed (style : Style) {span : Span} {ss : List Node}
    (h : ∀ m ∈ ss, Written .statement m) (hf : style.Faithful (.program span ss)) :
    ∃ program, parse (style.print (.program span ss)) = .ok program ∧
      program.spanless = (Node.program span ss).spanless := by
  have printed : ∀ m ∈ ss, Printed style .statement m := fun m hm => (h m hm).printed (hf.child hm)
  have at_ : (Cursor.start (style.print (.program span ss))).At
      ((ss.map (style.lexemes 0)).flatten) := by
    refine Cursor.at_joined (fun l hl => ?_) ?_
    · obtain ⟨m, hm, hl⟩ := List.mem_flatMap.mp (List.flatMap_def ▸ hl)
      exact (h m hm).solid (hf.child hm) 0 l hl
    · rw [Cursor.start, Style.print, String.toList_ofList, intercalate_eq_joined,
        Style.lexemes_program]
  obtain ⟨program, hr, hp⟩ := parse_of_spells printed at_.spells
  exact ⟨program, hr, by rw [hp, Node.spanless_program]⟩

/-- **Printing a tree and reading it gives the tree back**, up to spans, for every tree that was read
and every style: with the parentheses that are needed and no others, or with more of them, up to
parentheses around every expression. -/
theorem parse_print (style : Style) {source : String} {program : Node}
    (h : parse source = .ok program) (hf : style.Faithful program) :
    ∃ program', parse (style.print program) = .ok program' ∧
      program'.spanless = program.spanless := by
  obtain ⟨span, ss, rfl, hss⟩ := parse_written h
  exact parse_printed style hss hf

/-- The rule for a product with a sum on its right and a text in single quotes. -/
theorem parse_print_product : ∃ (style : Style) (program : Node),
    parse "2 * ( x + 'a' ) ;" = .ok program ∧ style.Faithful program ∧
      ∃ program', parse (style.print program) = .ok program' ∧
        program'.spanless = program.spanless := by
  let style : Style := ⟨fun _ => "2", fun _ => true, fun _ => false⟩
  let two : Decimal.Numeral := ⟨['2'], [], 0⟩
  let sum : Node := .binary .zero .add (.identifier .zero "x") (.literal .zero (.string "a"))
  let product : Node := .binary .zero .mul (.literal .zero (.number two.value)) sum
  let script : Node := .program .zero [.expressionStatement .zero product]
  have name : IsName "x" := ⟨⟨'x', [], rfl, by decide⟩, by decide, by decide⟩
  have written : Written .expression product := .binary .literal (.binary (.identifier name) .literal)
  have number : ReadsBack "2" two.value := ⟨two, ⟨[], 1⟩, by decide, rfl, rfl⟩
  have number : style.Faithful (.literal .zero (.number two.value)) :=
    Node.every_iff.mpr ⟨by rintro _ _ ⟨⟩; exact number, nofun⟩
  have addends : style.Faithful sum := Node.every_iff.mpr ⟨nofun, List.forall_mem_cons.mpr
    ⟨Node.every_iff.mpr ⟨nofun, nofun⟩, List.forall_mem_singleton.mpr
      (Node.every_iff.mpr ⟨nofun, nofun⟩)⟩⟩
  have factors : style.Faithful product := Node.every_iff.mpr
    ⟨nofun, List.forall_mem_cons.mpr ⟨number, List.forall_mem_singleton.mpr addends⟩⟩
  have faithful : style.Faithful script := Node.every_iff.mpr ⟨nofun, List.forall_mem_singleton.mpr
    (Node.every_iff.mpr ⟨nofun, List.forall_mem_singleton.mpr factors⟩)⟩
  obtain ⟨program, hp, hs⟩ := parse_printed style
    (List.forall_mem_singleton.mpr (.expressionStatement written)) faithful
  have text : style.print script = "2 * ( x + 'a' ) ;" := by decide +kernel +zetaReduce
  have read : parse "2 * ( x + 'a' ) ;" = .ok program := text ▸ hp
  have numbers : style.Faithful program := by
    rw [← Style.faithful_spanless, hs, Style.faithful_spanless]
    exact faithful
  exact ⟨style, program, read, numbers, parse_print style read numbers⟩

end Nondet.Grammar
