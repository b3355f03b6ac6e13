import Nondet.Proofs.Grammar.Begins
import Nondet.Proofs.Grammar.Precedence

/-!
# Grammar — Binds

What the reader makes of the lexemes of an expression, by how tightly the expression binds.
`Binds k n ts` says that the lexemes `ts` stand for the tree `n` up to spans wherever something is
wanted that binds at least as tightly as `k`: a `Primary` is one token or stands in parentheses, a
`Called` is a primary with calls behind it, an `Operand` has prefix operators in front of that, a
`Chained` is a chain of operands that joins to one tree at its level, and an `Expression` is
anything that what closes an expression can be behind.  Every kind of node gives a rule of its level,
and what binds more tightly binds less tightly, too (`Binds.mono`).
-/

namespace Nondet.Grammar

open Nondet.Grammar.Parser

variable {n : Node} {s : String} {ts te u v : List Lexeme}

theorem map_eq_of_forall₂ {α β γ : Type} {f : β → γ} {g : α → γ} {xs : List α} {as : List β}
    (h : List.Forall₂ (fun x a => f a = g x) xs as) : as.map f = xs.map g := by
  induction h with
  | nil => rfl
  | cons ha _ ih => rw [List.map_cons, List.map_cons, ha, ih]

/-! ### Operators -/

namespace Infix

/-- How the operator is written. -/
def text : Infix → Lexeme
  | .binary op  => op.symbol.toList
  | .logical op => op.symbol.toList

/-- The operators in the order in which they are tried. -/
def table : List (Rule × List Char × Infix) :=
  [(.strictEq, ['=', '=', '='], .binary .strictEq), (.strictNe, ['!', '=', '='], .binary .strictNe),
    (.le, ['<', '='], .binary .le), (.ge, ['>', '='], .binary .ge), (.lt, ['<'], .binary .lt),
    (.gt, ['>'], .binary .gt), (.add, ['+'], .binary .add), (.sub, ['-'], .binary .sub),
    (.mul, ['*'], .binary .mul), (.div, ['/'], .binary .div), (.rem, ['%'], .binary .rem),
    (.and, ['&', '&'], .logical .and), (.or, ['|', '|'], .logical .or)]

theorem infixOperator_eq : infixOperator = operators table := rfl

/-- An operator is not taken for a shorter or a longer one. -/
theorem reads (op : Infix) (u : List Lexeme) : Reads infixOperator (op.text :: u) u (· = op) := by
  have found : ∃ r, table.find? (·.2.1.isPrefixOf op.text) = some (r, op.text, op) := by
    rcases op with op | op <;> cases op <;> exact ⟨_, rfl⟩
  obtain ⟨r, hr⟩ := found
  exact infixOperator_eq ▸ Reads.operators (by decide) hr u

/-- What stands behind a chain of operands. -/
def Ends (u : List Lexeme) : Prop := Leads (· ∈ ['?', ')', ';', ',', ':']) u

theorem rejects (h : Ends u) : Rejects infixOperator u := by
  have first : ∀ e ∈ table, ∃ x xs, e.2.1 = x :: xs ∧ x ∉ ['?', ')', ';', ',', ':'] := by
    simp [table]
  refine infixOperator_eq ▸ Rejects.operators (by decide) fun e he hp => ?_
  obtain ⟨x, xs, e, hx⟩ := first e he
  exact h.ne hx (lead_of_isPrefixed (e ▸ hp))

/-- A list ends before no operator, and no operator begins arguments. -/
theorem leads (op : Infix) (u : List Lexeme) :
    Leads (· ∉ [',', ')', '(']) (op.text :: u) := by
  rcases op with op | op <;> cases op <;> exact ⟨_, _, u, rfl, by decide⟩

theorem stops (op : Infix) (u : List Lexeme) : Stops (op.text :: u) := by
  constructor
  · rw [prefix_joined (by decide)]
    rcases op with op | op <;> cases op <;> decide
  · rw [prefix_joined (by decide), prefix_joined (by decide)]
    rcases op with op | op <;> cases op <;> decide

end Infix

theorem reads_prefixMark (op : UnaryOp) (u : List Lexeme) :
    Reads prefixMark (op.symbol.toList :: u) u (·.op = op) := by
  refine .spanned (.map (P := (· = op)) ?_ fun _ h _ => h)
  cases op with
  | neg => exact .orElse_left (.operator _ (by decide) _ u)
  | not =>
      have other : ¬ ['-'] <+: joined (['!'] :: u) := by rw [prefix_joined (by decide)]; decide
      exact .orElse_right (.operator (by decide) other) (.operator _ (by decide) _ u)

theorem rejects_prefixMark (h : ∀ x ∈ lead u, x ∉ ['-', '!']) : Rejects prefixMark u := by
  have no {x : Char} (hx : x ∈ ['-', '!']) : ¬ [x] <+: joined u := fun hp =>
    h x (prefix_joined_iff_lead.mp hp) hx
  exact .spanned (.bind_left (.orElse (.operator (by decide) (no (by simp)))
    (.operator (by decide) (no (by simp)))))

/-! ### Nothing to read -/

theorem Parser.Rejects.literal {α : Type} {p : Parser α} {build : α → Literal} (h : Rejects p u) :
    Rejects (literal p build) u := .spanned (.bind_left h)

section NoOperand

variable {c : Cursor}

/-- What comes next ends an expression or goes on in an operator, or nothing comes next. -/
def NoOperand (c : Cursor) : Prop := ∀ x ∈ c.rest.head?, x ∈ [')', ';', '\x7d', '=', '>', '*']

theorem NoOperand.imp (h : NoOperand c) {p : Char → Prop}
    (hp : ∀ x ∈ [')', ';', '\x7d', '=', '>', '*'], p x) : ∀ x ∈ c.rest.head?, p x :=
  fun x hx => hp x (h x hx)

theorem NoOperand.symbol (h : NoOperand c) {x : Char} (hx : x ∉ [')', ';', '\x7d', '=', '>', '*']) :
    FailsAt (symbol [x]) c := .symbol <| by
  rintro ⟨r, e⟩
  exact hx (h x (by rw [← e]; rfl))

theorem NoOperand.name (h : NoOperand c) : FailsAt name c :=
  .rule _ (.scan (Token.name?_eq_none (h.imp (by decide))))

theorem NoOperand.word (h : NoOperand c) {α : Type} {r : Rule} {words : List (String × α)}
    (hw : words.lookup "" = none) :
    FailsAt (Parser.rule r (Parser.scan (Token.oneOf? words))) c := by
  have none : (Token.word c).1 = "" := by
    rw [Token.word_fst]
    cases e : c.rest with
    | nil => rfl
    | cons x xs =>
        have hx : ∀ x ∈ c.rest.head?, Token.isWordChar x = false := h.imp (by decide)
        rw [List.takeWhile_cons_of_neg (by simp [hx x (by rw [e]; rfl)])]
  refine .rule r (.scan ?_)
  rw [Token.oneOf?]
  simp only [none, hw, Option.map_none]

theorem failsAt_primary (h : NoOperand c) : FailsAt (primary reader) c := by
  have noNumeral : Token.numeral? c = none := Token.numeral?_eq_none (h.imp (by decide))
  have noNumber : FailsAt number c := .rule _ (.scan (by rw [noNumeral]; rfl))
  have noQuote : ∀ x ∈ c.rest.head?, ¬ IsQuote x := h.imp (by decide)
  have noString : FailsAt string c := .rule _ (.scan (Token.string?_eq_none noQuote))
  refine .choice ?_
  simp only [List.forall_mem_cons, List.not_mem_nil, false_imp_iff, implies_true, and_true]
  exact ⟨.spanned (.bind noNumber), .spanned (.bind noString), .spanned (.bind (h.word rfl)),
    .spanned (.bind (h.word rfl)), .spanned (.bind (h.word rfl)), .spanned (.bind h.name),
    .bind (h.symbol (by decide))⟩

theorem failsAt_prefixMark (h : NoOperand c) : FailsAt prefixMark c :=
  .spanned (.bind (.orElse (.rule _ (.bind (h.symbol (by decide))))
    (.rule _ (.bind (h.symbol (by decide))))))

theorem failsAt_operand (hc : c.layout = c) (h : NoOperand c) :
    FailsAt (operandExpression reader) c :=
  .many (failsAt_prefixMark h) (.layout (by rw [hc]; exact .bind (failsAt_primary h)))

/-- An expression does not begin here. -/
theorem failsAt_expression (hc : c.layout = c) (h : NoOperand c) : FailsAt reader.expression c := by
  have noParams : FailsAt arrowParams c :=
    .orElse (.rule _ (.bind (h.symbol (by decide)))) (.bind h.name)
  refine FailsAt.of_agrees (.rule _ (.choice ?_)) (reader_expression c)
  simp only [List.forall_mem_cons, List.not_mem_nil, false_imp_iff, implies_true, and_true]
  exact ⟨.rule _ (.spanned (.bind noParams)), .rule _ (.spanned (.bind h.name)),
    .rule _ (.spanned (.bind (.rule _ (.bind (failsAt_operand hc h)))))⟩

end NoOperand

theorem rejects_expression (h : ∀ x ∈ lead u, x ∈ [')', ';', '\x7d']) : Rejects reader.expression u := by
  intro c f hc
  have none : NoOperand c := fun x hx => List.mem_append_left ['=', '>', '*'] (h x (hc.head ▸ hx))
  exact (failsAt_expression hc.layout none).fst f

/-! ### Levels -/

/-- What closes an expression. -/
def Closes (u : List Lexeme) : Prop := Leads (· ∈ [')', ';', ',', ':']) u

theorem Closes.ends (h : Closes u) : Infix.Ends u := h.imp fun _ => List.mem_cons_of_mem _

/-- The lexemes are read as an expression in front of what closes one. -/
structure Expression (n : Node) (ts : List Lexeme) : Prop where
  begins : Begins ts
  reads {u : List Lexeme} (h : Closes u) : Reads reader.expression (ts ++ u) u n.Like

/-- The lexemes are read as an operand without operators and calls. -/
structure Primary (n : Node) (ts : List Lexeme) : Prop where
  begins : Begins ts
  noPrefix (v : List Lexeme) : Rejects prefixMark (ts ++ v)
  apart {v : List Lexeme} (h : Stops v) : Apart (ts ++ v)
  reads (v : List Lexeme) : Reads (primary reader) (ts ++ v) v n.Like

/-- The lexemes are read as the arguments of a call. -/
structure Arguments (ns : List Node) (ts : List Lexeme) : Prop where
  begins : ∃ ts', ts = ['('] :: ts'
  reads (v : List Lexeme) :
    Reads (argumentList reader) (ts ++ v) v (·.arguments.map Node.spanless = ns)

/-- A primary with calls behind it. -/
inductive Called : Node → List Lexeme → Prop
  | mk {n : Node} {ts : List Lexeme} {calls : List (List Node × List Lexeme)} (hp : Primary n ts)
      (hc : ∀ c ∈ calls, Arguments c.1 c.2) :
      Called ((calls.map Prod.fst).foldl (.call .zero) n) (ts ++ calls.flatMap Prod.snd)

/-- Something called with operators in front of it. -/
inductive Operand : Node → List Lexeme → Prop
  | mk {n : Node} {ts : List Lexeme} (ops : List UnaryOp) (h : Called n ts) :
      Operand (ops.foldr (.unary .zero) n) (ops.flatMap (fun op => [op.symbol.toList]) ++ ts)

/-- An operand with the operator in front of it. -/
structure Link where
  op : Infix
  right : Node
  text : List Lexeme

def Link.lexemes (link : Link) : List Lexeme := link.op.text :: link.text

/-- A chain of operands that becomes one tree when its tightest `i` levels are joined. -/
inductive Chained (i : Nat) : Node → List Lexeme → Prop
  | mk {n n' : Node} {ts : List Lexeme} {links : List Link} (hn : Operand n ts)
      (hl : ∀ l ∈ links, Operand l.right l.text)
      (hj : Chain.joinTightest i ⟨n, links.map fun l => (l.op, l.right)⟩ = ⟨n', []⟩) :
      Chained i n' (ts ++ links.flatMap Link.lexemes)

/-- The lexemes stand for the tree where what binds at least as tightly as `k` is wanted. -/
def Binds (k : Nat) (n : Node) (ts : List Lexeme) : Prop :=
  match k with
  | 0 => Expression n ts
  | 1 | 2 | 3 | 4 | 5 | 6 => Chained (7 - k) n ts
  | 7 => Operand n ts
  | 8 => Called n ts
  | _ => Primary n ts

/-! ### One token, or parentheses -/

/-- A token that is no name. -/
theorem Primary.token {x : Char} {xs : Lexeme} (hn : ∀ u, Rejects name ((x :: xs) :: u))
    (hw : leadWord [x :: xs] ∉ statementWords)
    (hx : x ∉ ['\x7b', '\x7d', ')', ';', '-', '!', '('])
    (hr : ∀ v, Reads (primary reader) ((x :: xs) :: v) v n.Like) : Primary n [x :: xs] where
  begins := .other hn hw (by simp_all)
  noPrefix v := rejects_prefixMark (by simp_all)
  apart _ := .of_name (hn _) (by simp_all)
  reads := hr

theorem Primary.number {text : String} {x : Float} (h : ReadsBack text x) :
    Primary (.literal .zero (.number x)) [text.toList] := by
  obtain ⟨y, ys, e, hy⟩ := h.digit
  have hs := Token.not_isWordStart_of_isDigit hy
  have sub : ∀ w ∈ statementWords, w ∈ Token.reserved := by decide
  have hr (v : List Lexeme) := Reads.number h v
  rw [e] at hr ⊢
  refine .token (fun u => .name (.inl fun _ h => by cases h; exact hs))
    (fun hm => leadWord_unreserved hs ys [] (sub _ hm)) (fun hm => ?_)
    fun v => .orElse_left (.spanned (.map (hr v) fun a ha span => by rw [ha]; rfl))
  have none : ∀ x ∈ ['\x7b', '\x7d', ')', ';', '-', '!', '('], x.isDigit = false := by decide
  exact nomatch (none y hm).symm.trans hy

theorem Primary.string {l : Lexeme} {t : String} (h : Quotes l t) :
    Primary (.literal .zero (.string t)) [l] := by
  obtain ⟨quote, xs, rfl, hq⟩ := h.quote
  have hs : Token.isWordStart quote = false := by rcases hq with rfl | rfl <;> rfl
  have sub : ∀ w ∈ statementWords, w ∈ Token.reserved := by decide
  refine .token (fun u => .name (.inl fun _ h => by cases h; exact hs))
    (fun hm => leadWord_unreserved hs _ [] (sub _ hm)) (fun hm => ?_)
    fun v => .orElse_right (.literal (.number fun _ h => ?_)) (.orElse_left
      (.spanned (.map (Reads.string h v) fun a ha span => by rw [ha]; rfl)))
  · have none : ∀ x ∈ ['\x7b', '\x7d', ')', ';', '-', '!', '('], ¬ IsQuote x := by decide
    exact none quote hm hq
  · cases h
    rcases hq with rfl | rfl <;> rfl

/-- A word is read behind numbers and strings. -/
theorem reads_primary_word (hu : Leads (fun x => Token.isWordStart x) u)
    (h : Reads (choice [literal boolean .bool, literal null fun _ => .null,
      literal undefined fun _ => .undefined, identifier, parenthesised reader]) u v n.Like) :
    Reads (primary reader) u v n.Like := by
  have noNumber : Rejects number u := .number fun x hx => by
    by_contra hd
    rw [Bool.not_eq_false] at hd
    exact nomatch (Token.not_isWordStart_of_isDigit hd).symm.trans (hu.lead_mem x hx)
  have noString : Rejects string u := .string fun x hx hq => by
    have hs := hu.lead_mem x hx
    rcases hq with rfl | rfl <;> cases hs
  exact .orElse_right (.literal noNumber) (.orElse_right (.literal noString) h)

/-- A reserved word that stands for a value. -/
theorem Primary.word {w : String} (hs : ∀ v, Leads (fun x => Token.isWordStart x) (w.toList :: v))
    (hc : ∀ y ∈ w.toList, Token.isWordChar y) (hr : w ∈ Token.reserved) (hw : w ∉ statementWords)
    (hp : ∀ v, Reads (choice [literal boolean .bool, literal null fun _ => .null,
      literal undefined fun _ => .undefined, identifier, parenthesised reader]) (w.toList :: v) v
      n.Like) : Primary n [w.toList] := by
  have hl (u : List Lexeme) : Grammar.leadWord (w.toList :: u) = w := leadWord_name hc u
  have reads (v : List Lexeme) := reads_primary_word (hs v) (hp v)
  obtain ⟨x, xs, _, e, hx⟩ := hs []
  injection e with e
  rw [e] at hl reads ⊢
  have none : ∀ x ∈ ['\x7b', '\x7d', ')', ';', '-', '!', '('], ¬ Token.isWordStart x := by decide
  exact .token (fun u => .name (.inr (hl u ▸ hr))) (hl [] ▸ hw) (fun hm => none x hm hx) reads

theorem Primary.bool (b : Bool) :
    Primary (.literal .zero (.bool b)) [(if b then "true" else "false").toList] := by
  cases b with
  | true =>
      exact .word (fun v => ⟨_, _, v, rfl, rfl⟩) (by decide) (by decide) (by decide) fun v =>
        .orElse_left (.spanned (.map (.word (by decide) rfl v) fun _ h _ => by rw [h]; rfl))
  | false =>
      exact .word (fun v => ⟨_, _, v, rfl, rfl⟩) (by decide) (by decide) (by decide) fun v =>
        .orElse_left (.spanned (.map (.word (by decide) rfl v) fun _ h _ => by rw [h]; rfl))

theorem Primary.null : Primary (.literal .zero .null) ["null".toList] := by
  have chars : ∀ x ∈ "null".toList, Token.isWordChar x := by decide
  refine .word (fun v => ⟨_, _, v, rfl, rfl⟩) chars (by decide) (by decide) fun v =>
    .orElse_right (.literal (.word (by decide) ?_))
      (.orElse_left (.spanned (.map (.word (a := ()) (by decide) rfl v) fun _ _ _ => rfl)))
  rw [leadWord_name chars]
  decide

theorem Primary.undefined : Primary (.literal .zero .undefined) ["undefined".toList] := by
  have chars : ∀ x ∈ "undefined".toList, Token.isWordChar x := by decide
  refine .word (fun v => ⟨_, _, v, rfl, rfl⟩) chars (by decide) (by decide) fun v =>
    .orElse_right (.literal (.word (by decide) ?_)) (.orElse_right (.literal (.word (by decide) ?_))
      (.orElse_left (.spanned (.map (.word (a := ()) (by decide) rfl v) fun _ _ _ => rfl))))
  all_goals
    rw [leadWord_name chars]
    decide

theorem Primary.identifier (hs : IsName s) : Primary (.identifier .zero s) [s.toList] where
  begins := .name hs (.inl rfl)
  noPrefix v := by
    have none : ∀ x ∈ ['-', '!'], ¬ Token.isWordStart x := by decide
    exact rejects_prefixMark fun x hx hm => none x hm ((hs.leads v).lead_mem x hx)
  apart hv := .name hs hv
  reads v := by
    have unlike {α : Type} {r : Rule} {words : List (String × α)}
        (h : ∀ w ∈ words.map Prod.fst, w ∈ Token.reserved) :
        Rejects (Parser.rule r (Parser.scan (Token.oneOf? words))) (s.toList :: v) :=
      .word h fun hm => hs.unreserved (h _ (hs.leadWord v ▸ hm))
    exact reads_primary_word (hs.leads v) (.orElse_right (.literal (unlike (by decide)))
      (.orElse_right (.literal (unlike (by decide))) (.orElse_right (.literal (unlike (by decide)))
        (.orElse_left (.spanned (.map (.name hs v) fun _ h _ => by rw [h]; rfl))))))

/-- **Parentheses leave no trace.** -/
theorem Expression.inParens (h : Expression n te) : Primary n (inParens te) where
  begins := by
    have hn (u : List Lexeme) : Rejects name (['('] :: u) := .name (.inl fun _ h => by cases h; rfl)
    exact .other hn (by decide) (by decide)
  noPrefix v := rejects_prefixMark fun x hx => by
    cases hx
    decide
  apart hv := h.begins.inParens hv
  reads v := by
    rw [Grammar.inParens, List.cons_append, List.append_assoc]
    have lead {x : Char} (hx : x ∈ lead (['('] :: (te ++ ([[')']] ++ v)))) : x = '(' := by
      cases hx
      rfl
    have noWord : Grammar.leadWord (['('] :: (te ++ ([[')']] ++ v))) = "" :=
      leadWord_eq_empty fun x hx => lead hx ▸ rfl
    have unlike {α : Type} {r : Rule} {words : List (String × α)}
        (hr : ∀ w ∈ words.map Prod.fst, w ∈ Token.reserved) :
        Rejects (Parser.rule r (Parser.scan (Token.oneOf? words))) (['('] :: (te ++ ([[')']] ++ v))) :=
      .word hr fun hm => absurd (hr _ (noWord ▸ hm)) (by decide)
    refine .orElse_right (.literal (.number fun x hx => lead hx ▸ rfl)) (.orElse_right
      (.literal (.string fun x hx => lead hx ▸ by decide)) (.orElse_right
        (.literal (unlike (by decide))) (.orElse_right (.literal (unlike (by decide)))
          (.orElse_right (.literal (unlike (by decide))) (.orElse_right
            (.spanned (.bind_left (.name (.inl fun x hx => lead hx ▸ rfl)))) (.orElse_left ?_))))))
    exact .bind (.symbol (by decide) _) fun _ _ => .bind (h.reads ⟨')', [], v, rfl, by simp⟩) fun _ ha =>
      .map (.symbol (by decide) _) fun _ _ => ha

/-! ### Calls and prefix operators -/

/-- Expressions between parentheses, with commas between them, are arguments. -/
theorem Arguments.of_expressions {ι : Type} {node : ι → Node} {text : ι → List Lexeme} {xs : List ι}
    (h : ∀ x ∈ xs, Expression (node x) (text x)) :
    Arguments (xs.map node) (inParens (inCommas (xs.map text))) where
  begins := ⟨_, rfl⟩
  reads v := by
    have no (v : List Lexeme) : Rejects reader.expression ([')'] :: v) :=
      rejects_expression fun x hx => by
        cases hx
        decide
    have each : ∀ x ∈ xs, ∀ v, Parts v → Reads reader.expression (text x ++ v) v (node x).Like :=
      fun x hx v hv => (h x hx).reads (hv.imp fun y hy => by simp at hy ⊢; tauto)
    rw [inParens, List.cons_append, List.append_assoc]
    refine .rule _ (.spanned (.bind (.symbol (by decide) _) fun _ _ => .bind (Reads.listed no each v)
      fun o ho => .map (.symbol (by decide) _) fun _ _ span => map_eq_of_forall₂ ho))

namespace Called

theorem of_primary (h : Primary n ts) : Called n ts := by
  have := @Called.mk _ _ [] h nofun
  simpa using this

/-- A call applies to what the calls before it give. -/
theorem call {ns : List Node} (h : Called n ts) (ha : Arguments ns te) :
    Called (.call .zero n ns) (ts ++ te) := by
  obtain @⟨n, ts, calls, hp, hc⟩ := h
  have := @Called.mk _ _ (calls ++ [(ns, te)]) hp (by
    rintro c hm
    rcases List.mem_append.mp hm with hm | hm
    · exact hc c hm
    · exact List.mem_singleton.mp hm ▸ ha)
  simpa [List.append_assoc] using this

theorem leads_calls {calls : List (List Node × List Lexeme)} (hc : ∀ c ∈ calls, Arguments c.1 c.2) :
    calls.flatMap Prod.snd = [] ∨ Leads (· = '(') (calls.flatMap Prod.snd) := by
  cases calls with
  | nil => exact .inl rfl
  | cons c calls =>
      obtain ⟨ts', e⟩ := (hc c List.mem_cons_self).begins
      exact .inr ⟨'(', [], ts' ++ calls.flatMap Prod.snd, by rw [List.flatMap_cons, e]; rfl, rfl⟩

theorem begins (h : Called n ts) : Begins ts := by
  obtain @⟨n, ts, calls, hp, hc⟩ := h
  exact hp.begins.append ((leads_calls hc).imp id fun h => h.imp fun x hx => by simp [hx])

theorem apart (h : Called n ts) (hv : Stops v) : Apart (ts ++ v) := by
  obtain @⟨n, ts, calls, hp, hc⟩ := h
  rw [List.append_assoc]
  refine hp.apart ?_
  rcases leads_calls hc with h | h
  · rw [h]
    exact hv
  · exact .of_lead ((h.append v).ne (by decide))

end Called

namespace Operand

theorem of_called (h : Called n ts) : Operand n ts := .mk [] h

theorem unary (op : UnaryOp) (h : Operand n ts) :
    Operand (.unary .zero op n) (op.symbol.toList :: ts) := by
  obtain ⟨ops, h⟩ := h
  exact .mk (op :: ops) h

theorem begins (h : Operand n ts) : Begins ts := by
  obtain ⟨_ | ⟨op, ops⟩, h⟩ := h
  · exact h.begins
  · cases op <;>
      exact .other (fun u => .name (.inl fun _ h => by cases h; rfl)) (by decide) (by decide)

theorem apart (h : Operand n ts) (hv : Stops v) : Apart (ts ++ v) := by
  obtain ⟨_ | ⟨op, ops⟩, h⟩ := h
  · exact h.apart hv
  · cases op <;> exact .of_name (.name (.inl fun _ h => by cases h; rfl)) fun h => by cases h

theorem reads (h : Operand n ts) (hv : lead v ≠ some '(') :
    Reads (operandExpression reader) (ts ++ v) v n.Like := by
  obtain ⟨ops, h⟩ := h
  obtain @⟨n, ts, calls, hp, hc⟩ := h
  rw [List.append_assoc, List.append_assoc]
  have marks : ∀ op ∈ ops, Reads.Item prefixMark (fun _ => True) [op.symbol.toList] (·.op = op) :=
    fun op _ => ⟨by simp, fun v _ => ⟨trivial, reads_prefixMark op v⟩⟩
  have args : ∀ c ∈ calls, Reads.Item (argumentList reader) (fun _ => True) c.2
      (·.arguments.map Node.spanless = c.1) := fun c hm => by
    obtain ⟨ts', e⟩ := (hc c hm).begins
    exact ⟨by simp [e], fun v _ => ⟨trivial, (hc c hm).reads v⟩⟩
  have noCall : Rejects (argumentList reader) v :=
    .rule _ (.spanned (.bind_left (.symbol_of_lead hv)))
  refine .bind (.many trivial (hp.noPrefix _) marks) fun marks hm => ?_
  refine .bind (hp.reads _) fun node hn => .map (.many trivial noCall args) fun args ha => ?_
  rw [Node.Like, spanless_operand, hn, map_eq_of_forall₂ ha, map_eq_of_forall₂ (g := id) hm,
    List.map_id]

end Operand

/-! ### Chains -/

namespace Chained

variable {i j : Nat}

theorem of_operand (h : Operand n ts) : Chained 0 n ts := by
  have := @Chained.mk 0 _ _ _ [] h nofun rfl
  simpa using this

theorem mono (h : Chained i n ts) (hij : i ≤ j) : Chained j n ts := by
  obtain ⟨hn, hl, hj⟩ := h
  exact ⟨hn, hl, Chain.joinTightest_done hj hij⟩

/-- **An operator takes a chain of its level on its left, and a tighter one on its right.** -/
theorem join {op : Infix} {left right : Node} (hi : op.level + i = 6) (hl : Chained (i + 1) left ts)
    (hr : Chained i right te) : Chained (i + 1) (op.join left right) (ts ++ op.text :: te) := by
  obtain @⟨l, _, ts, links, hn, hl, hj⟩ := hl
  obtain @⟨r, _, te, links', hn', hl', hj'⟩ := hr
  have := @Chained.mk _ _ _ _ (links ++ ⟨op, r, te⟩ :: links') hn
    (List.forall_mem_append.mpr ⟨hl, List.forall_mem_cons.mpr ⟨hn', hl'⟩⟩)
    (by simpa using Chain.joinTightest_join hi hj hj')
  simpa [Link.lexemes] using this

theorem leads_links : ∀ links : List Link, links.flatMap Link.lexemes = [] ∨
    ∃ (op : Infix) (u : List Lexeme), links.flatMap Link.lexemes = op.text :: u
  | []            => .inl rfl
  | link :: links => .inr ⟨link.op, link.text ++ links.flatMap Link.lexemes, rfl⟩

theorem begins (h : Chained i n ts) : Begins ts := by
  obtain @⟨n, _, ts, links, hn, hl, -⟩ := h
  refine hn.begins.append ((leads_links links).imp id ?_)
  rintro ⟨op, u, e⟩
  rw [e]
  exact (op.leads u).imp fun x hx hm => hx (by simp at hm ⊢; tauto)

theorem apart (h : Chained i n ts) (hv : Stops v) : Apart (ts ++ v) := by
  obtain @⟨n, _, ts, links, hn, hl, -⟩ := h
  rw [List.append_assoc]
  refine hn.apart ?_
  rcases leads_links links with e | ⟨op, u, e⟩
  · rw [e]
    exact hv
  · rw [e]
    exact op.stops _

theorem reads (h : Chained i n ts) (hi : i ≤ 6) (hv : Infix.Ends v) :
    Reads (binary reader) (ts ++ v) v n.Like := by
  obtain @⟨f, n, ts, links, hn, hl, hj⟩ := h
  rw [List.append_assoc]
  have noCall : lead v ≠ some '(' := hv.ne (by decide)
  have parts : ∀ l ∈ links, Reads.Item
      (do let op ← infixOperator; layout; return (op, ← operandExpression reader))
      (fun u => lead u ≠ some '(') l.lexemes fun p => (p.1, p.2.spanless) = (l.op, l.right) :=
    fun l hm => ⟨by simp [Link.lexemes], fun u hu => ⟨((l.op.leads _).append u).ne (by simp),
      .bind (l.op.reads _) fun op ho => .map ((hl l hm).reads hu) fun a ha => by rw [ho, ha]⟩⟩
  refine .rule _ (.bind (hn.reads (Reads.follows parts noCall)) fun first hf =>
    .map (.many noCall (.bind_left (Infix.rejects hv)) parts) fun others ho => ?_)
  have chain : Chain.spanless ⟨first, others⟩ = ⟨f, links.map fun l => (l.op, l.right)⟩ := by
    rw [Chain.spanless, hf, map_eq_of_forall₂ ho]
  rw [Node.Like, Chain.spanless_toNode, chain, Chain.toNode_eq_joinTightest,
    Chain.joinTightest_done hj hi]

end Chained

/-! ### Everything else -/

namespace Expression

/-- The rule for expressions is tried as a function, then as an assignment. -/
theorem reads_behind (h : Apart u) (hr : Reads (conditional reader) u v n.Like) :
    Reads reader.expression u v n.Like :=
  (AgreeAt.reads_iff reader_expression).mp
    (.rule _ (.orElse_right h.arrow (.orElse_right h.assign (.orElse_left hr))))

theorem of_chained {i : Nat} (hi : i ≤ 6) (h : Chained i n ts) : Expression n ts where
  begins := h.begins
  reads hu := by
    refine reads_behind (h.apart (.of_lead (hu.ne (by decide)))) (.rule _ (.spanned (.bind
      (h.reads hi hu.ends) fun test ht => .map (.optional_none (.bind_left (.symbol_of_lead
        (hu.ne (by decide))))) fun branches hb span => ?_)))
    rw [hb]
    exact ht

theorem conditional {i : Nat} {test consequent alternate : Node} {tt tc ta : List Lexeme} (hi : i ≤ 6)
    (ht : Chained i test tt) (hc : Expression consequent tc) (ha : Expression alternate ta) :
    Expression (.conditional .zero test consequent alternate) (tt ++ ['?'] :: tc ++ [':'] :: ta) where
  begins := by
    have mark : Leads (· ∉ [',', ')']) (['?'] :: tc ++ [':'] :: ta) := ⟨'?', [], _, rfl, by decide⟩
    rw [List.append_assoc]
    exact ht.begins.append (.inr mark)
  reads {u} hu := by
    simp only [List.append_assoc, List.cons_append]
    refine reads_behind (ht.apart (.of_lead (by simp))) (.rule _ (.spanned (.bind
      (ht.reads hi ⟨'?', [], _, rfl, by decide⟩) fun test ht => .map (.optional (.bind (.symbol (by decide) _)
        fun _ _ => .bind (hc.reads ⟨':', [], _, rfl, by decide⟩) fun c hc => .bind (.symbol (by decide) _)
          fun _ _ => .map (Q := fun p : Node × Node => p.1.spanless = consequent ∧ p.2.spanless = alternate)
            (ha.reads hu) fun a ha => ⟨hc, ha⟩)) fun branches hb span => ?_)))
    obtain ⟨⟨c, a⟩, rfl, hc, ha⟩ := hb
    simp only [Node.Like, Node.spanless] at ht ⊢
    rw [ht, hc, ha]

theorem assignment {value : Node} (hs : IsName s) (hv : Expression value te) :
    Expression (.assignment .zero s value) (s.toList :: ['='] :: te) where
  begins := .name hs (.inr ⟨'=', [], te, rfl, by decide⟩)
  reads {u} hu := by
    have noArrow : ¬ ['=', '>'] <+: joined (['='] :: (te ++ u)) := by
      rw [prefix_joined (by decide)]
      decide
    have single : ¬ ['=', '='] <+: joined (['='] :: (te ++ u)) := by
      rw [prefix_joined (by decide)]
      decide
    refine (AgreeAt.reads_iff reader_expression).mp (.rule _ (.orElse_right (rejects_arrow hs noArrow)
      (.orElse_left (.rule _ (.spanned (.bind (.name hs _) fun s' hs' => .bind (.notNext (by decide) single)
        fun _ _ => .bind (.symbol (by decide) _) fun _ _ => .map (hv.reads hu) fun a ha span => ?_))))))
    rw [Node.Like, Node.spanless, hs', ha]

/-- A function, from its parameters as they are written. -/
theorem of_arrow {params : List String} {form : BodyForm} {body : Node}
    (hb : Begins (ts ++ ['=', '>'] :: te))
    (hp : ∀ v, Reads arrowParams (ts ++ ['=', '>'] :: v) (['=', '>'] :: v) (· = params))
    (hr : ∀ {u}, Closes u → Reads (arrowBody reader) (te ++ u) u fun b => b.1 = form ∧ body.Like b.2) :
    Expression (.arrowFunction .zero none params form body) (ts ++ ['=', '>'] :: te) where
  begins := hb
  reads {u} hu := by
    rw [List.append_assoc, List.cons_append]
    refine (AgreeAt.reads_iff reader_expression).mp (.rule _ (.orElse_left (.rule _ (.spanned
      (.bind (hp _) fun ps hps => .bind (.symbol (by decide) _) fun _ _ =>
        .last (hr hu) fun b hb => ⟨_, rfl, fun span => ?_⟩)))))
    rw [Node.Like, Node.spanless, hps, hb.1, hb.2]

theorem arrowFunction {params : List String} {form : BodyForm} {body : Node}
    (hp : ∀ p ∈ params, IsName p) (hr : ∀ {u}, Closes u →
      Reads (arrowBody reader) (te ++ u) u fun b => b.1 = form ∧ body.Like b.2) :
    Expression (.arrowFunction .zero none params form body)
      (paramLexemes params ++ ['=', '>'] :: te) :=
  of_arrow (.other (fun u => .name (.inl fun _ h => by cases h; rfl)) (by decide) (by decide))
    (fun v => .orElse_left (reads_params hp _)) hr

/-- One parameter needs no parentheses. -/
theorem arrowOfOne {form : BodyForm} {body : Node} (hs : IsName s) (hr : ∀ {u}, Closes u →
      Reads (arrowBody reader) (te ++ u) u fun b => b.1 = form ∧ body.Like b.2) :
    Expression (.arrowFunction .zero none [s] form body) ([s.toList] ++ ['=', '>'] :: te) := by
  refine of_arrow (.name hs (.inr ⟨'=', ['>'], te, rfl, by decide⟩)) (fun v => ?_) hr
  have noParen : lead (s.toList :: ['=', '>'] :: v) ≠ some '(' := (hs.leads _).ne (by decide)
  exact .orElse_right (.rule _ (.bind_left (.symbol_of_lead noParen)))
    (.map (.name hs _) fun _ h => by rw [h])

/-- An expression is the body of a function. -/
theorem reads_arrowBody (h : Expression n te) (hu : Closes u) :
    Reads (arrowBody reader) (te ++ u) u fun b => b.1 = .expression ∧ n.Like b.2 :=
  .orElse_right (.bind_left (.rule _ (.spanned (.bind_left (.symbol_of_lead
    ((h.begins.leads u).ne (by decide)))))))
    (.map (h.reads hu) fun _ ha => ⟨rfl, ha⟩)

end Expression

/-! ### By level -/

namespace Binds

variable {k m : Nat}

theorem weaken : ∀ {k : Nat}, Binds (k + 1) n ts → Binds k n ts
  | 0, h             => .of_chained (by decide) h
  | 1, h | 2, h | 3, h | 4, h | 5, h => Chained.mono h (by decide)
  | 6, h             => (Chained.of_operand h).mono (by decide)
  | 7, h             => Operand.of_called h
  | 8, h             => Called.of_primary h
  | _ + 9, h         => h

/-- **What binds tightly stands wherever less is wanted.** -/
theorem mono (h : Binds m n ts) (hk : k ≤ m) : Binds k n ts := by
  induction hk with
  | refl => exact h
  | step _ ih => exact ih h.weaken

theorem of_primary (h : Primary n ts) (k : Nat) : Binds k n ts := by
  have top : Binds (k + 9) n ts := h
  exact top.mono (Nat.le_add_right k 9)

/-- An expression of the level `m`, in parentheses if it needs or gets them. -/
theorem enclose {style : Style} {n' : Node} (h : Binds n'.tightness n ts) (hn : n'.isExpression) :
    Binds k n (style.enclose k n' ts) := by
  rw [Style.enclose]
  split
  · exact of_primary (Expression.inParens (h.mono (Nat.zero_le _))) k
  next hc =>
    refine h.mono ?_
    simp only [hn, Bool.true_and, Bool.or_eq_true, decide_eq_true_eq, not_or, Nat.not_lt] at hc
    exact hc.1

theorem chained (hk : 1 ≤ k) (h7 : k ≤ 7) (h : Binds k n ts) : Chained (7 - k) n ts := by
  match k with
  | 1 | 2 | 3 | 4 | 5 | 6 => exact h
  | 7 => exact .of_operand h

theorem of_chained (hk : 1 ≤ k) (h6 : k ≤ 6) (h : Chained (7 - k) n ts) : Binds k n ts := by
  match k with
  | 1 | 2 | 3 | 4 | 5 | 6 => exact h

/-- An operator between two operands takes what binds as tightly on its left, and what binds more
tightly on its right. -/
theorem join {op : Infix} {left right : Node} (hl : Binds op.level left ts)
    (hr : Binds (op.level + 1) right te) :
    Binds op.level (op.join left right) (ts ++ op.text :: te) := by
  have low : 1 ≤ op.level := by rcases op with op | op <;> cases op <;> decide
  have high : op.level ≤ 6 := by rcases op with op | op <;> cases op <;> decide
  obtain ⟨i, hi⟩ := Nat.exists_eq_add_of_le high
  have hl := hl.chained low (by omega)
  have hr := hr.chained (by omega) (by omega)
  rw [show 7 - op.level = i + 1 by omega] at hl
  rw [show 7 - (op.level + 1) = i by omega] at hr
  refine of_chained low high ?_
  rw [show 7 - op.level = i + 1 by omega]
  exact .join hi.symm hl hr

end Binds

end Nondet.Grammar
