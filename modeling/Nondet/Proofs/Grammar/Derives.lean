import Nondet.Proofs.Grammar.Statements
import Nondet.Proofs.Grammar.Takes

/-!
# Grammar — Derives

Whatever the reader takes as an expression or a statement are tokens that stand for it wherever one
is wanted (`takes_reader`): rule by rule the tokens of the parts make up those of the whole, by the
rules under which the whole is read back.  So what is read does not depend on what was tried in vain,
nor on what stood behind it.
-/

namespace Nondet.Grammar

open Nondet.Grammar.Parser

variable {c : Cursor}

/-- The tokens stand for the tree as a statement, if no branch of it takes the `else` of another. -/
def SpellsStatement (n : Node) (ts : List Lexeme) : Prop :=
  Written .statement n → Statement n.spanless n.endsOpen ts

/-- What is nested behind the place is taken as what it is. -/
structure Deep (c : Cursor) : Prop where
  expression (d : Cursor) (hd : d.layout = d) (hl : d.rest.length < c.rest.length) :
    Takes (fun n ts => Expression n.spanless ts) reader.expression d
  statement (d : Cursor) (hd : d.layout = d) (hl : d.rest.length < c.rest.length) :
    Takes (fun n ts => Statement n.spanless n.endsOpen ts) reader.statement d

theorem Deep.mono {d : Cursor} (h : Deep c) (hl : d.rest.length ≤ c.rest.length) : Deep d where
  expression e he hel := h.expression e he (Nat.lt_of_lt_of_le hel hl)
  statement e he hel := h.statement e he (Nat.lt_of_lt_of_le hel hl)

/-! ### Statements -/

theorem takes_params (hc : c.layout = c) :
    Takes (fun ps ts => (∀ p ∈ ps, IsName p) ∧ ts = paramLexemes ps) params c := by
  refine .rule _ (.bind (.symbol hc (by decide) (by decide)) fun _ d ts hd _ hts => ?_)
  refine .bind (.optional (.separated hd (fun e he => .symbol he (by decide) (by decide))
    fun e he _ => .name he)) fun names d₁ us h₁ _ hu => ?_
  refine .map (.symbol h₁ (by decide) (by decide)) fun _ vs hv => ?_
  subst hts hv
  rcases hu with ⟨rfl, rfl⟩ | ⟨_, rfl, items, rfl, rfl, hi⟩
  · exact ⟨nofun, rfl⟩
  · have texts : items.map Prod.snd = (items.map Prod.fst).map fun p => [p.toList] := by
      rw [List.map_map]
      exact List.map_congr_left fun x hx => (hi x hx).2
    exact ⟨List.forall_mem_map.mpr fun x hx => (hi x hx).1, by rw [texts]; rfl⟩

/-- The tokens of a block, from those of its statements. -/
theorem takes_block (hc : c.layout = c) (h : Deep c) :
    Takes (fun n ts => ∃ (span : Span) (items : List (Node × List Lexeme)),
      n = .block span (items.map Prod.fst) ∧
      ts = ['\x7b'] :: ((items.map Prod.snd).flatten ++ [['\x7d']]) ∧
      ∀ x ∈ items, Statement x.1.spanless x.1.endsOpen x.2) (block reader) c := by
  refine .rule _ (.spanned (.bind (.symbol hc (by decide) (by decide)) fun _ d ts hd hl hts => ?_))
  subst hts
  rw [List.length_singleton] at hl
  refine .bind (.many hd fun e he hle => h.statement e he (by omega)) fun ss d₁ us h₁ _ hu => ?_
  refine .map (.symbol h₁ (by decide) (by decide)) fun _ vs hv span => ?_
  obtain ⟨items, rfl, rfl, hi⟩ := hu
  subst hv
  exact ⟨span, items, rfl, by rw [List.flatMap_def]; rfl, hi⟩

theorem takes_functionDeclaration (hc : c.layout = c) (h : Deep c) :
    Takes (fun n ts => Statement n.spanless n.endsOpen ts) (functionDeclaration reader) c := by
  refine .rule _ (.spanned (.bind (.keyword hc _ (by decide)) fun _ d ts hd hl hts => ?_))
  refine .bind (.name hd) fun name d₁ us h₁ l₁ hn => ?_
  refine .bind (takes_params h₁) fun ps d₂ vs h₂ l₂ hp => ?_
  refine .map (takes_block h₂ (h.mono (by omega))) fun body ws hb span => ?_
  obtain ⟨inner, items, rfl, rfl, hi⟩ := hb
  have body := Statement.functionDeclaration hn.1 hp.1 (Statement.reads_block hi)
  simp only [Node.spanless, Node.spanlessEach_eq_map, List.map_map, hts, hn.2, hp.2]
  exact body

theorem takes_variableDeclaration (hc : c.layout = c) (h : Deep c) :
    Takes (fun n ts => Statement n.spanless n.endsOpen ts) (variableDeclaration reader) c := by
  refine .rule _ (.spanned (.bind (.word hc (by decide)) fun keyword d ts hd hl hk => ?_))
  refine .bind (.name hd) fun name d₁ us h₁ l₁ hn => ?_
  -- An equality sign out of a longer symbol has no expression behind it.
  refine TakesOr.bind (.symbol h₁ (by decide)) (fun _ e he none => (failsAt_expression he none).bind)
    fun _ d₂ vs h₂ l₂ hv => ?_
  rw [hv, List.length_singleton] at l₂
  refine .bind (h.expression d₂ h₂ (by omega)) fun init d₃ ws h₃ l₃ hi => ?_
  refine .map (.symbol h₃ (by decide) (by decide)) fun _ xs hx span => ?_
  obtain ⟨w, hw, rfl⟩ := hk
  obtain rfl : w = keyword.text := by
    obtain ⟨l₁, l₂, e, -⟩ := List.lookup_eq_some_iff.mp hw
    have hm : (w, keyword) ∈ [("let", .let), ("const", .const), ("var", .var)] := e ▸ by simp
    simp only [List.mem_cons, Prod.mk.injEq, List.not_mem_nil, or_false] at hm
    rcases hm with ⟨rfl, rfl⟩ | ⟨rfl, rfl⟩ | ⟨rfl, rfl⟩ <;> rfl
  rw [hn.2, hv, hx]
  exact Statement.variableDeclaration hn.1 hi

theorem takes_returnStatement (hc : c.layout = c) (h : Deep c) :
    Takes (fun n ts => Statement n.spanless n.endsOpen ts) (returnStatement reader) c := by
  refine .rule _ (.spanned (.bind (.keyword hc _ (by decide)) fun _ d ts hd hl hts => ?_))
  rw [hts, List.length_singleton] at hl
  refine .bind (.optional (h.expression d hd (by omega))) fun argument d₁ us h₁ _ ha => ?_
  refine .map (.symbol h₁ (by decide) (by decide)) fun _ vs hv span => ?_
  rw [hts, hv]
  rcases ha with ⟨rfl, rfl⟩ | ⟨a, rfl, ha⟩
  · have none : ∀ n ∈ (none : Option Node), Expression n.spanless [] := nofun
    exact Statement.returnStatement none
  · have given : ∀ n ∈ some a, Expression n.spanless us := by
      rintro _ ⟨⟩
      exact ha
    exact Statement.returnStatement given

/-- An `else` with what is behind it. -/
theorem takes_alternate (hc : c.layout = c) (h : Deep c) :
    Takes (fun n ts => ∃ us, ts = "else".toList :: us ∧ Statement n.spanless n.endsOpen us)
      (alternate reader) c := by
  refine .bind (.keyword hc _ (by decide)) fun _ d ts hd hl hts => ?_
  rw [hts, List.length_singleton] at hl
  exact (h.statement d hd (by omega)).imp fun n us hn => ⟨us, by rw [hts]; rfl, hn⟩

theorem takes_ifStatement (hc : c.layout = c) (h : Deep c) :
    Takes SpellsStatement (ifStatement reader) c := by
  refine .rule _ (.spanned (.bind (.keyword hc _ (by decide)) fun _ d ts hd hl hts => ?_))
  rw [hts, List.length_singleton] at hl
  refine .bind (.symbol hd (by decide) (by decide)) fun _ d₁ us h₁ l₁ hu => ?_
  refine .bind (h.expression d₁ h₁ (by omega)) fun test d₂ tt h₂ l₂ ht => ?_
  refine .bind (.symbol h₂ (by decide) (by decide)) fun _ d₃ vs h₃ l₃ hv => ?_
  refine .bind (h.statement d₃ h₃ (by omega)) fun consequent d₄ tc h₄ l₄ hcons => ?_
  refine .map (.optional (takes_alternate h₄ (h.mono (by omega)))) fun other ta ho span hw => ?_
  subst hts hu hv
  cases hw with
  | ifStatement _ _ _ hd =>
      rcases ho with ⟨rfl, rfl⟩ | ⟨a, rfl, ws, rfl, ha⟩
      · have alone := Statement.ifStatement ht hcons
        simpa [inParens, Node.spanless, Node.endsOpen] using alone
      · rw [hd rfl] at hcons
        have both := Statement.ifElse ht hcons ha
        simpa [inParens, Node.spanless, Node.endsOpen] using both

theorem takes_expressionStatement
    (he : Takes (fun n ts => Expression n.spanless ts) reader.expression c) :
    Takes (fun n ts => Statement n.spanless n.endsOpen ts) (expressionStatement reader) c := by
  refine .rule _ (.spanned (.bind he fun expression d ts hd _ hts => ?_))
  refine .map (.symbol hd (by decide) (by decide)) fun _ us hu span => ?_
  rw [hu]
  exact Statement.expressionStatement hts

theorem takes_statement (hc : c.layout = c) (h : Deep c)
    (he : Takes (fun n ts => Expression n.spanless ts) reader.expression c) :
    Takes SpellsStatement (statement reader) c := by
  have any {p : Parser Node} (hp : Takes (fun n ts => Statement n.spanless n.endsOpen ts) p c) :
      Takes SpellsStatement p c := hp.imp fun _ _ hn _ => hn
  have block : Takes (fun n ts => Statement n.spanless n.endsOpen ts) (block reader) c := by
    refine (takes_block hc h).imp fun n ts hn => ?_
    obtain ⟨span, items, rfl, rfl, hi⟩ := hn
    simp only [Node.spanless_block, List.map_map]
    exact Statement.block hi
  refine .choice ?_
  simp only [List.forall_mem_cons, List.not_mem_nil, false_imp_iff, implies_true, and_true]
  exact ⟨any (takes_functionDeclaration hc h), any (takes_variableDeclaration hc h),
    any (takes_returnStatement hc h), takes_ifStatement hc h, any block,
    any (takes_expressionStatement he)⟩

/-! ### Expressions -/

theorem takes_arrowParams (hc : c.layout = c) :
    Takes (fun ps ts => (∀ p ∈ ps, IsName p) ∧
      (ts = paramLexemes ps ∨ ∃ p, ps = [p] ∧ ts = [p.toList])) arrowParams c :=
  .orElse ((takes_params hc).imp fun _ _ h => ⟨h.1, .inl h.2⟩)
    (.map (.name hc) fun p _ h => ⟨by simpa using h.1, .inr ⟨p, rfl, h.2⟩⟩)

theorem takes_arrowBody (hc : c.layout = c) (h : Deep c)
    (he : Takes (fun n ts => Expression n.spanless ts) reader.expression c) :
    Takes (fun b ts => ∀ {u}, Closes u → Reads (arrowBody reader) (ts ++ u) u fun b' =>
      b'.1 = b.1 ∧ b.2.spanless.Like b'.2) (arrowBody reader) c := by
  refine .orElse (.map (takes_block hc h) fun n ts hn u _ => ?_)
    (.map he fun n ts hn u hu => Expression.reads_arrowBody hn hu)
  obtain ⟨span, items, rfl, rfl, hi⟩ := hn
  simp only [Node.spanless_block, List.map_map]
  exact .orElse_left (.map (Statement.reads_block hi u) fun _ hb => ⟨rfl, hb⟩)

theorem takes_arrowFunction (hc : c.layout = c) (h : Deep c) :
    Takes (fun n ts => Expression n.spanless ts) (arrowFunction reader) c := by
  refine .rule _ (.spanned (.bind (takes_arrowParams hc) fun ps d ts hd hl hps => ?_))
  refine .bind (.symbol hd (by decide) (by decide)) fun _ d₁ us h₁ l₁ hu => ?_
  rw [hu, List.length_singleton] at l₁
  refine .last (takes_arrowBody h₁ (h.mono (by omega)) (h.expression d₁ h₁ (by omega)))
    fun body vs hb => ⟨_, rfl, fun span => ?_⟩
  rw [hu]
  obtain ⟨names, rfl | ⟨p, rfl, rfl⟩⟩ := hps
  · exact Expression.arrowFunction names hb
  · exact Expression.arrowOfOne (names p List.mem_cons_self) hb

theorem takes_assignment (hc : c.layout = c) (h : Deep c) :
    Takes (fun n ts => Expression n.spanless ts) (assignment reader) c := by
  refine .rule _ (.spanned (.bind (.name hc) fun name d ts hd hl hn => ?_))
  refine .bind (.notNext _) fun _ d₁ us h₁ l₁ hu => ?_
  refine TakesOr.bind (.symbol h₁ (by decide)) (fun _ e he none => (failsAt_expression he none).bind)
    fun _ d₂ vs h₂ l₂ hv => ?_
  rw [hv, List.length_singleton] at l₂
  refine .map (h.expression d₂ h₂ (by omega)) fun value ws hw span => ?_
  rw [hn.2, hu, hv]
  exact Expression.assignment hn.1 hw

theorem takes_argumentList (hc : c.layout = c) (h : Deep c) :
    Takes (fun args ts => Arguments (args.arguments.map Node.spanless) ts) (argumentList reader) c := by
  refine .rule _ (.spanned (.bind (.symbol hc (by decide) (by decide)) fun _ d ts hd hl hts => ?_))
  rw [hts, List.length_singleton] at hl
  refine .bind (.optional (.separated hd (fun e he => .symbol he (by decide) (by decide))
    fun e he hle => h.expression e he (by omega))) fun arguments d₁ us h₁ _ hu => ?_
  refine .map (.symbol h₁ (by decide) (by decide)) fun _ vs hv span => ?_
  subst hts hv
  rcases hu with ⟨rfl, rfl⟩ | ⟨_, rfl, items, rfl, rfl, hi⟩
  · have none : ∀ x ∈ ([] : List (Node × List Lexeme)), Expression x.1.spanless x.2 := nofun
    simpa [inParens, inCommas] using Arguments.of_expressions none
  · simpa [inParens, Function.comp_def] using Arguments.of_expressions hi

/-- A reserved word that stands for a value. -/
theorem takes_word {α : Type} (hc : c.layout = c) {r : Rule} {words : List (String × α)}
    {build : α → Literal} (hr : ∀ w ∈ words.map Prod.fst, w ∈ Token.reserved)
    (hp : ∀ x ∈ words, Primary (.literal .zero (build x.2)) [x.1.toList]) :
    Takes (fun n ts => Primary n.spanless ts)
      (literal (Parser.rule r (Parser.scan (Token.oneOf? words))) build) c := by
  refine .spanned (.map (.word hc hr) fun a ts h span => ?_)
  obtain ⟨w, hw, rfl⟩ := h
  obtain ⟨l₁, l₂, rfl, -⟩ := List.lookup_eq_some_iff.mp hw
  exact hp (w, a) (by simp)

theorem takes_primary (hc : c.layout = c) (h : Deep c) :
    Takes (fun n ts => Primary n.spanless ts) (primary reader) c := by
  have inParens : Takes (fun n ts => Primary n.spanless ts) (parenthesised reader) c := by
    refine .bind (.symbol hc (by decide) (by decide)) fun _ d ts hd hl hts => ?_
    rw [hts, List.length_singleton] at hl
    refine .bind (h.expression d hd (by omega)) fun n d₁ us h₁ _ hn => ?_
    refine .map (.symbol h₁ (by decide) (by decide)) fun _ vs hv => ?_
    rw [hts, hv]
    exact Expression.inParens hn
  refine .choice ?_
  simp only [List.forall_mem_cons, List.not_mem_nil, false_imp_iff, implies_true, and_true]
  refine ⟨.spanned (.map (.number hc) fun x ts hx span => ?_),
    .spanned (.map (.string hc) fun s ts hs span => ?_), takes_word hc (by decide) ?_,
    takes_word hc (by decide) ?_, takes_word hc (by decide) ?_,
    .spanned (.map (.name hc) fun s ts hs span => ?_), inParens⟩
  · obtain ⟨text, hx, rfl⟩ := hx
    exact Primary.number hx
  · obtain ⟨l, hs, rfl⟩ := hs
    exact Primary.string hs
  · exact List.forall_mem_cons.mpr
      ⟨Primary.bool true, List.forall_mem_singleton.mpr (Primary.bool false)⟩
  · exact List.forall_mem_singleton.mpr Primary.null
  · exact List.forall_mem_singleton.mpr Primary.undefined
  · rw [hs.2]
    exact Primary.identifier hs.1

theorem takes_operand (hc : c.layout = c) (h : Deep c) :
    Takes (fun n ts => Operand n.spanless ts) (operandExpression reader) c := by
  refine TakesOr.bind (.many hc (fun _ _ none => failsAt_prefixMark none)
    fun d hd _ => takesOr_prefixMark hd) (fun _ d _ none => (failsAt_primary none).bind)
    fun marks d ts hd hl hm => ?_
  refine .bind (takes_primary hd (h.mono (by omega))) fun node d₁ us h₁ l₁ hn => ?_
  refine .map (.many h₁ fun e he hle => takes_argumentList he (h.mono (by omega)))
    fun calls vs ha => ?_
  obtain ⟨marked, rfl, rfl, hm⟩ := hm
  obtain ⟨called, rfl, rfl, ha⟩ := ha
  have texts : marked.flatMap Prod.snd =
      (marked.map fun x => x.1.op).flatMap fun op => [op.symbol.toList] := by
    rw [List.flatMap_map]
    exact List.flatMap_congr hm
  have args : ∀ x ∈ called.map fun x => (x.1.arguments.map Node.spanless, x.2), Arguments x.1 x.2 :=
    List.forall_mem_map.mpr ha
  have whole := Operand.mk (marked.map fun x => x.1.op) (.mk hn args)
  rw [spanless_operand, texts]
  simpa [List.flatMap_map, List.map_map, Function.comp_def] using whole

theorem takes_binary (hc : c.layout = c) (h : Deep c) :
    Takes (fun n ts => Chained 6 n.spanless ts) (binary reader) c := by
  refine .rule _ (.bind (takes_operand hc h) fun first d ts hd hl hf => ?_)
  -- An operator and the operand behind it.
  have link (e : Cursor) (he : e.layout = e) (hle : e.rest.length ≤ d.rest.length) :
      Takes (fun p ts => Operand p.2.spanless ts.tail ∧ ts = Infix.text p.1 :: ts.tail)
        (do let op ← infixOperator; layout; return (op, ← operandExpression reader)) e :=
    TakesOr.bind (takesOr_infixOperator he) (fun _ g hg none => (failsAt_operand hg none).bind)
      fun op g us hg hlg hu => .map (takes_operand hg (h.mono (by omega))) fun n vs hn => by
        rw [hu]
        exact ⟨hn, rfl⟩
  refine .map (.many hd link) fun others us ho => ?_
  obtain ⟨items, rfl, rfl, ho⟩ := ho
  let links : List Link := items.map fun x => ⟨x.1.1, x.1.2.spanless, x.2.tail⟩
  have operands : ∀ l ∈ links, Operand l.right l.text :=
    List.forall_mem_map.mpr fun x hx => (ho x hx).1
  have texts : items.flatMap Prod.snd = links.flatMap Link.lexemes := by
    rw [List.flatMap_map]
    exact List.flatMap_congr fun x hx => (ho x hx).2
  have whole := Chained.mk hf operands (Chain.joinTightest_all _)
  rw [Chain.spanless_toNode, texts]
  simpa [links, Chain.spanless, List.map_map, Function.comp_def] using whole

theorem takes_conditional (hc : c.layout = c) (h : Deep c) :
    Takes (fun n ts => Expression n.spanless ts) (conditional reader) c := by
  refine .rule _ (.spanned (.bind (takes_binary hc h) fun test d ts hd hl ht => ?_))
  have branches : Takes (fun (p : Node × Node) ts => ∃ tc ta, ts = ['?'] :: tc ++ [':'] :: ta ∧
      Expression p.1.spanless tc ∧ Expression p.2.spanless ta)
      (do
        symbol ['?']
        layout
        let consequent ← reader.expression
        layout
        symbol [':']
        layout
        return (consequent, ← reader.expression)) d := by
    refine .bind (.symbol hd (by decide) (by decide)) fun _ d₁ us h₁ l₁ hu => ?_
    rw [hu, List.length_singleton] at l₁
    refine .bind (h.expression d₁ h₁ (by omega)) fun consequent d₂ tc h₂ l₂ hcons => ?_
    refine .bind (.symbol h₂ (by decide) (by decide)) fun _ d₃ vs h₃ l₃ hv => ?_
    refine .map (h.expression d₃ h₃ (by omega)) fun alternate ta ha => ?_
    rw [hu, hv]
    exact ⟨tc, ta, by simp, hcons, ha⟩
  refine .map (.optional branches) fun b us hb span => ?_
  rcases hb with ⟨rfl, rfl⟩ | ⟨⟨consequent, alternate⟩, rfl, tc, ta, rfl, hcons, ha⟩
  · rw [List.append_nil]
    exact .of_chained (Nat.le_refl _) ht
  · rw [Node.spanless, ← List.append_assoc]
    exact .conditional (Nat.le_refl _) ht hcons ha

theorem takes_expression (hc : c.layout = c) (h : Deep c) :
    Takes (fun n ts => Expression n.spanless ts) (expression reader) c := by
  refine .rule _ (.choice ?_)
  simp only [List.forall_mem_cons, List.not_mem_nil, false_imp_iff, implies_true, and_true]
  exact ⟨takes_arrowFunction hc h, takes_assignment hc h, takes_conditional hc h⟩

/-! ### Nestings -/

/-- **What is read as an expression or a statement stands for it anywhere.** -/
theorem takes_reader (c : Cursor) (hc : c.layout = c) :
    Takes (fun n ts => Expression n.spanless ts) reader.expression c ∧
      Takes (fun n ts => Statement n.spanless n.endsOpen ts) reader.statement c := by
  have deep : Deep c :=
    ⟨fun d hd _ => (takes_reader d hd).1, fun d hd _ => (takes_reader d hd).2⟩
  have expression := (takes_expression hc deep).of_agrees (reader_expression c)
  have statement := (takes_statement hc deep expression).of_agrees (reader_statement c)
  refine ⟨expression, (AgreeAt.and statement (reader_statement c).right).imp fun n d _ hn => ?_⟩
  obtain ⟨⟨ts, hc, hs⟩, hw, -⟩ := hn
  exact ⟨ts, hc, hs hw⟩
termination_by c.rest.length

/-! ### Scripts -/

/-- The tokens are those of statements, one behind the other. -/
def SpellsScript (ss : List Node) (ts : List Lexeme) : Prop :=
  Items (fun n ts => Statement n.spanless n.endsOpen ts) ss ts

/-- What is read from a source is spelled in it. -/
theorem parse_spelled {source : String} {n : Node} (h : parse source = .ok n) :
    ∃ span ss ts, n = .program span ss ∧ (Cursor.start source).Spells ts ∧ SpellsScript ss ts := by
  obtain ⟨d, hd⟩ := parse_eq_ok_iff.mp h
  have script : AgreeAt (fun n _ => ∃ span ss ts, n = .program span ss ∧
      (Cursor.start source).Spells ts ∧ SpellsScript ss ts) (script reader) (script reader)
      (.start source) := by
    refine .rule (.spanned (.bind .layout fun _ c _ hc => ?_))
    subst hc
    refine .bind (Takes.many (Cursor.layout_layout _) fun e he _ => (takes_reader e he).2)
      fun ss d _ hss => .bind .layout fun _ d' _ hd => .bind .endOfInput fun _ e _ he =>
        .pure fun span => ?_
    obtain ⟨ts, hts, hss⟩ := hss
    obtain ⟨rfl, none⟩ := he
    subst hd
    refine ⟨span, ss, ts, rfl, ?_, hss⟩
    have behind : d.layout.Spells [] := ⟨d.layout, .nil, by rw [Cursor.layout_layout, none]⟩
    have covered := (Cursor.layout_covers.mp hts).spells (Cursor.spells_layout.mp behind)
    rwa [List.append_nil] at covered
  exact ((script .none .none).of_eq_some hd).1

/-- A text with the tokens of statements is a script of them. -/
theorem parse_of_spelled {source : String} {ss : List Node} {ts : List Lexeme}
    (h : (Cursor.start source).Spells ts) (hss : SpellsScript ss ts) :
    ∃ program, parse source = .ok program ∧
      program.spanless = .program .zero (ss.map Node.spanless) := by
  obtain ⟨items, rfl, rfl, hi⟩ := hss
  rw [List.flatMap_def] at h
  rw [List.map_map]
  exact parse_of_spells hi h

end Nondet.Grammar
