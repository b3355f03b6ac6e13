import Nondet.Proofs.Grammar.Binds

/-!
# Grammar — Statements

What the reader makes of the lexemes of a statement.  A statement is tried as one kind after the
other, and the word or the brace it begins with tells which kind it is (the rules under
`Statement`).  What is behind it matters only to a statement that ends with a branch to which an
`else` would belong.
-/

namespace Nondet.Grammar

open Nondet.Grammar.Parser

variable {n : Node} {s : String} {ts te u v : List Lexeme}

/-- The lexemes are read as a statement, in front of anything but an `else` that would belong to
it. -/
structure Statement (n : Node) (isOpen : Bool) (ts : List Lexeme) : Prop where
  nonempty : ts ≠ []
  noElse (u : List Lexeme) : leadWord (ts ++ u) ≠ "else"
  reads {u : List Lexeme} (h : isOpen → leadWord u ≠ "else") :
    Reads reader.statement (ts ++ u) u n.Like

theorem reads_keyword {w : String} (hw : w ∈ Token.reserved) (r : Rule) (u : List Lexeme) :
    Reads (keyword r w) (w.toList :: u) u fun _ => True :=
  (Reads.word (a := ()) (by simpa using hw) (by simp) u).imp fun _ _ => trivial

section Rejects

variable {ls : List Lexeme}

theorem rejects_functionDeclaration (h : leadWord ls ≠ "function") :
    Rejects (functionDeclaration reader) ls :=
  .rule _ (.spanned (.bind_left (.word (by decide) (by simpa using h))))

theorem rejects_variableDeclaration (h : leadWord ls ∉ ["let", "const", "var"]) :
    Rejects (variableDeclaration reader) ls := .rule _ (.spanned (.bind_left (.word (by decide) h)))

theorem rejects_returnStatement (h : leadWord ls ≠ "return") : Rejects (returnStatement reader) ls :=
  .rule _ (.spanned (.bind_left (.word (by decide) (by simpa using h))))

theorem rejects_ifStatement (h : leadWord ls ≠ "if") : Rejects (ifStatement reader) ls :=
  .rule _ (.spanned (.bind_left (.word (by decide) (by simpa using h))))

theorem rejects_block (h : lead ls ≠ some '\x7b') : Rejects (block reader) ls :=
  .rule _ (.spanned (.bind_left (.symbol_of_lead h)))

theorem rejects_alternate (h : leadWord ls ≠ "else") : Rejects (alternate reader) ls :=
  .bind_left (.word (by decide) (by simpa using h))

/-- No statement begins with a closing brace, or with nothing. -/
theorem rejects_statement (h : ∀ x ∈ lead ls, x = '\x7d') : Rejects reader.statement ls := by
  have noWord : leadWord ls = "" := leadWord_eq_empty fun x hx => h x hx ▸ rfl
  refine (AgreeAt.rejects_iff reader_statement).mp (.choice ?_)
  simp only [List.forall_mem_cons, List.not_mem_nil, false_imp_iff, implies_true, and_true]
  refine ⟨rejects_functionDeclaration ?_, rejects_variableDeclaration ?_, rejects_returnStatement ?_,
    rejects_ifStatement ?_, rejects_block fun e => absurd (h _ e) (by decide),
    .rule _ (.spanned (.bind_left (rejects_expression fun x hx => by simp [h x hx])))⟩
  all_goals
    rw [noWord]
    decide

end Rejects

namespace Statement

/-- Statements one after the other, in front of what begins none. -/
theorem reads_many {ι : Type} {node : ι → Node} {isOpen : ι → Bool} {text : ι → List Lexeme}
    {xs : List ι} (h : ∀ x ∈ xs, Statement (node x) (isOpen x) (text x))
    (hu : ∀ x ∈ lead u, x = '\x7d') :
    Reads (many reader.statement) ((xs.map text).flatten ++ u) u
      (·.map Node.spanless = xs.map node) := by
  have behind : leadWord u ≠ "else" := by
    rw [leadWord_eq_empty fun x hx => hu x hx ▸ rfl]
    decide
  have items : ∀ x ∈ xs, Reads.Item reader.statement (leadWord · ≠ "else") (text x) (node x).Like :=
    fun x hx => ⟨(h x hx).nonempty, fun v hv => ⟨(h x hx).noElse v, (h x hx).reads fun _ => hv⟩⟩
  rw [← List.flatMap_def]
  exact (Reads.many behind (rejects_statement hu) items).imp fun _ => map_eq_of_forall₂

theorem reads_block {ι : Type} {node : ι → Node} {isOpen : ι → Bool} {text : ι → List Lexeme}
    {xs : List ι} (h : ∀ x ∈ xs, Statement (node x) (isOpen x) (text x)) (v : List Lexeme) :
    Reads (block reader) (['\x7b'] :: ((xs.map text).flatten ++ [['\x7d']]) ++ v) v
      (Node.block .zero (xs.map node)).Like := by
  rw [List.cons_append, List.append_assoc]
  refine .rule _ (.spanned (.bind (.symbol (by decide) _) fun _ _ => .bind (reads_many h fun x hx => ?_)
    fun ss hss => .map (.symbol (by decide) _) fun _ _ span => ?_))
  · cases hx
    rfl
  · rw [Node.Like, Node.spanless_block, hss]

/-- A statement that begins with a keyword. -/
theorem of_word {w : String} {isOpen : Bool} (hw : ∀ x ∈ w.toList, Token.isWordChar x)
    (he : w ≠ "else") (hr : ∀ {u}, (isOpen → leadWord u ≠ "else") →
      leadWord (w.toList :: (ts ++ u)) = w →
      Reads (statement reader) (w.toList :: (ts ++ u)) u n.Like) :
    Statement n isOpen (w.toList :: ts) where
  nonempty := nofun
  noElse u := (leadWord_name hw (ts ++ u)).symm ▸ he
  reads h := (AgreeAt.reads_iff reader_statement).mp (hr h (leadWord_name hw _))

theorem functionDeclaration {params : List String} {statements : List Node} (hs : IsName s)
    (hp : ∀ p ∈ params, IsName p)
    (hb : ∀ v, Reads (Grammar.block reader) (ts ++ v) v (Node.block .zero statements).Like) :
    Statement (.functionDeclaration .zero (some s) params .block (.block .zero statements)) false
      ("function".toList :: ([s.toList] ++ paramLexemes params ++ ts)) := by
  refine .of_word (by decide) (by decide) fun {u} _ _ => .orElse_left (.rule _ (.spanned ?_))
  rw [List.append_assoc, List.append_assoc]
  refine .bind (reads_keyword (by decide) _ _) fun _ _ => .bind (.name hs _) fun s' hs' =>
    .bind (reads_params hp _) fun ps hps => .map (hb u) fun b hb span => ?_
  rw [Node.Like] at hb
  rw [Node.Like, Node.spanless, hs', hps, hb]

theorem variableDeclaration {keyword : DeclarationKeyword} {init : Node} (hs : IsName s)
    (hi : Expression init te) : Statement (.variableDeclaration .zero keyword s init) false
      (keyword.text.toList :: s.toList :: ['='] :: (te ++ [[';']])) := by
  have chars : ∀ x ∈ keyword.text.toList, Token.isWordChar x := by cases keyword <;> decide
  refine .of_word chars (by cases keyword <;> decide) fun {u} _ hl => .orElse_right
    (rejects_functionDeclaration (by rw [hl]; cases keyword <;> decide)) (.orElse_left (.rule _ (.spanned ?_)))
  have found (u : List Lexeme) : Reads declarationKeyword (keyword.text.toList :: u) u (· = keyword) :=
    .word (by decide) (by cases keyword <;> rfl) u
  simp only [List.cons_append, List.append_assoc]
  refine .bind (found _) fun k hk => .bind (.name hs _) fun s' hs' => .bind (.symbol (by decide) _)
    fun _ _ => .bind (hi.reads ⟨';', [], _, rfl, by decide⟩) fun a ha => .map (.symbol (by decide) _)
      fun _ _ span => ?_
  rw [Node.Like] at ha
  rw [Node.Like, Node.spanless, hk, hs', ha]

theorem returnStatement {node : Node → Node} {text : Node → List Lexeme} {argument : Option Node}
    (ha : ∀ a ∈ argument, Expression (node a) (text a)) :
    Statement (.returnStatement .zero (argument.map node)) false
      ("return".toList :: ((argument.map text).getD [] ++ [[';']])) := by
  refine .of_word (by decide) (by decide) fun {u} _ hl => .orElse_right
    (rejects_functionDeclaration (by rw [hl]; decide)) (.orElse_right
      (rejects_variableDeclaration (by rw [hl]; decide)) (.orElse_left (.rule _ (.spanned ?_))))
  have given : Reads (Parser.optional reader.expression)
      ((argument.map text).getD [] ++ [';'] :: u) ([';'] :: u)
      fun o => o.map Node.spanless = argument.map node := by
    cases argument with
    | none =>
        exact (Reads.optional_none (rejects_expression fun x hx => by cases hx; decide)).imp
          fun o ho => by rw [ho]; rfl
    | some a =>
        refine (Reads.optional ((ha a rfl).reads ⟨';', [], u, rfl, by decide⟩)).imp ?_
        rintro _ ⟨a', rfl, ha'⟩
        exact congrArg some ha'
  rw [List.append_assoc]
  refine .bind (reads_keyword (by decide) _ _) fun _ _ => .bind given fun o ho =>
    .map (.symbol (by decide) _) fun _ _ span => ?_
  rw [Node.Like, Node.spanless, Node.spanlessOption_eq_map, ho]

/-- A statement with a test, up to what is behind its branch. -/
theorem reads_if {test consequent : Node} {tt tc : List Lexeme} {other : Option Node}
    (ht : Expression test tt) (hc : Reads reader.statement (tc ++ u) u consequent.Like)
    (ha : Reads (Parser.optional (alternate reader)) u v fun o => o.map Node.spanless = other) :
    Reads (Grammar.ifStatement reader) ("if".toList :: (inParens tt ++ (tc ++ u))) v
      (Node.ifStatement .zero test consequent other).Like := by
  refine .rule _ (.spanned ?_)
  simp only [inParens, List.cons_append, List.append_assoc]
  refine .bind (reads_keyword (by decide) _ _) fun _ _ => .bind (.symbol (by decide) _) fun _ _ =>
    .bind (ht.reads ⟨')', [], _, rfl, by decide⟩) fun t ht => .bind (.symbol (by decide) _) fun _ _ =>
      .bind hc fun c hc => .map ha fun o ho span => ?_
  rw [Node.Like] at ht hc
  rw [Node.Like, Node.spanless, Node.spanlessOption_eq_map, ht, hc, ho]

theorem of_if {isOpen : Bool}
    (hr : ∀ {u}, (isOpen → leadWord u ≠ "else") →
      Reads (Grammar.ifStatement reader) ("if".toList :: (ts ++ u)) u n.Like) :
    Statement n isOpen ("if".toList :: ts) :=
  .of_word (by decide) (by decide) fun h hl => .orElse_right
    (rejects_functionDeclaration (by rw [hl]; decide)) (.orElse_right
      (rejects_variableDeclaration (by rw [hl]; decide)) (.orElse_right
        (rejects_returnStatement (by rw [hl]; decide)) (.orElse_left (hr h))))

/-- Without an `else`, one that is behind the branch would belong to the statement. -/
theorem ifStatement {test consequent : Node} {isOpen : Bool} {tt tc : List Lexeme}
    (ht : Expression test tt) (hc : Statement consequent isOpen tc) :
    Statement (.ifStatement .zero test consequent none) true ("if".toList :: (inParens tt ++ tc)) :=
  .of_if fun h => by
    have behind := h rfl
    rw [List.append_assoc]
    exact reads_if ht (hc.reads fun _ => behind)
      ((Reads.optional_none (rejects_alternate behind)).imp fun o ho => by rw [ho]; rfl)

/-- An `else` belongs to the statement when none could belong to its branch. -/
theorem ifElse {test consequent other : Node} {isOpen : Bool} {tt tc ta : List Lexeme}
    (ht : Expression test tt) (hc : Statement consequent false tc) (ha : Statement other isOpen ta) :
    Statement (.ifStatement .zero test consequent (some other)) isOpen
      ("if".toList :: (inParens tt ++ tc ++ "else".toList :: ta)) :=
  .of_if fun {u} h => by
    have second : Reads (alternate reader) ("else".toList :: (ta ++ u)) u other.Like :=
      .bind (reads_keyword (by decide) _ _) fun _ _ => ha.reads h
    rw [List.append_assoc, List.append_assoc]
    refine reads_if ht (hc.reads nofun) ((Reads.optional second).imp ?_)
    rintro _ ⟨a, rfl, ha⟩
    exact congrArg some ha

theorem block {ι : Type} {node : ι → Node} {isOpen : ι → Bool} {text : ι → List Lexeme}
    {xs : List ι} (h : ∀ x ∈ xs, Statement (node x) (isOpen x) (text x)) :
    Statement (.block .zero (xs.map node)) false
      (['\x7b'] :: ((xs.map text).flatten ++ [['\x7d']])) where
  nonempty := nofun
  noElse u := by
    rw [List.cons_append, leadWord_eq_empty fun x hx => by cases hx; rfl]
    decide
  reads {u} _ := by
    have hl : leadWord (['\x7b'] :: ((xs.map text).flatten ++ [['\x7d']]) ++ u) = "" :=
      leadWord_eq_empty fun x hx => by cases hx; rfl
    exact (AgreeAt.reads_iff reader_statement).mp (.orElse_right
      (rejects_functionDeclaration (by rw [hl]; decide)) (.orElse_right
        (rejects_variableDeclaration (by rw [hl]; decide)) (.orElse_right
          (rejects_returnStatement (by rw [hl]; decide)) (.orElse_right
            (rejects_ifStatement (by rw [hl]; decide)) (.orElse_left (reads_block h u))))))

theorem expressionStatement {expression : Node} (he : Expression expression te) :
    Statement (.expressionStatement .zero expression) false (te ++ [[';']]) where
  nonempty := by simp
  noElse u := by
    have := he.begins.leadWord ([[';']] ++ u)
    rw [List.append_assoc]
    exact fun e => this (e ▸ by decide)
  reads {u} _ := by
    rw [List.append_assoc]
    have hw := he.begins.leadWord ([[';']] ++ u)
    have not {words : List String} (hs : ∀ w ∈ words, w ∈ statementWords) :
        leadWord (te ++ ([[';']] ++ u)) ∉ words := fun hm => hw (hs _ hm)
    refine (AgreeAt.reads_iff reader_statement).mp (.orElse_right
      (rejects_functionDeclaration fun e => hw (e ▸ by decide)) (.orElse_right
        (rejects_variableDeclaration (not (by decide))) (.orElse_right
          (rejects_returnStatement fun e => hw (e ▸ by decide)) (.orElse_right
            (rejects_ifStatement fun e => hw (e ▸ by decide)) (.orElse_right
              (rejects_block ((he.begins.leads _).ne (by decide))) (.orElse_left (.rule _ (.spanned
                (.bind (he.reads ⟨';', [], u, rfl, by decide⟩) fun a ha => .map (.symbol (by decide) _)
                  fun _ _ span => ?_)))))))))
    rw [Node.Like] at ha
    rw [Node.Like, Node.spanless, ha]

end Statement

/-! ### Scripts -/

theorem reads_endOfInput : Reads endOfInput [] [] fun _ => True :=
  .rule _ fun c _ hc =>
    have rest : c.rest.isEmpty := by rw [hc.nil]; rfl
    ⟨(), c, if_pos rest, hc.layout.symm ▸ hc, trivial⟩

/-- A text that spells statements is read as a script of them. -/
theorem parse_of_spells {ι : Type} {node : ι → Node} {isOpen : ι → Bool} {text : ι → List Lexeme}
    {xs : List ι} (h : ∀ x ∈ xs, Statement (node x) (isOpen x) (text x)) {source : String}
    (hs : (Cursor.start source).Spells ((xs.map text).flatten)) :
    ∃ program, parse source = .ok program ∧ program.spanless = .program .zero (xs.map node) := by
  have items := Statement.reads_many (u := []) h nofun
  rw [List.append_nil] at items
  have behind : Reads (many reader.statement >>= fun ss => layout >>= fun _ => endOfInput >>= fun _ =>
      pure fun span => Node.program span ss) ((xs.map text).flatten) []
      fun build => ∀ span, (build span).spanless = .program .zero (xs.map node) :=
    .bind items fun ss hss => .map reads_endOfInput fun _ _ span => by
      rw [Node.spanless_program, hss]
  -- The script itself may begin with layout.
  obtain ⟨build, d, f, hr, -, hb⟩ := behind.run hs.at_layout .none
  refine ⟨_, parse_eq_ok_iff.mpr ⟨d, ?_⟩, hb ⟨(Cursor.start source).offset, d.offset⟩⟩
  rw [script, rule_fst, spanned, bind_run]
  simp only [layout, hr]

end Nondet.Grammar
