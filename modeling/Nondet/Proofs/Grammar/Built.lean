import Nondet.Proofs.Grammar.Pratt
import Nondet.Proofs.Grammar.Yield

/-!
# Grammar — Built

What the grammar yields is what trees are built of.  Rule by rule the grammar and the parsers that read
straight to trees run in parallel, and the builders make of the pairs the tree that is read (`Yields`):
the parts that a builder asks for are there, in its order, and each is a pair of a rule that it knows.
Hence a script is built to the tree that is read, and no builder ever complains (`parse_eq`).
-/

namespace Nondet.Grammar

open Nondet.Grammar.Parser (ParallelAt)
open Pattern

variable {α : Type} {c d : Cursor} {r : Rule} {ps qs : List Pair} {n : Node}

namespace Pair

theorem deepest_append (ps qs : List Pair) :
    depth.deepest (ps ++ qs) = max (depth.deepest ps) (depth.deepest qs) := by
  induction ps with
  | nil => exact (Nat.zero_max _).symm
  | cons p ps ih => rw [List.cons_append, depth.deepest, ih, depth.deepest, Nat.max_assoc]

theorem deepest_singleton (p : Pair) : depth.deepest [p] = p.depth := Nat.max_zero _

theorem depth_le_of_mem {p : Pair} {k : Nat} (hk : depth.deepest ps ≤ k) (hp : p ∈ ps) :
    p.depth ≤ k := by
  induction ps with
  | nil => cases hp
  | cons q ps ih =>
      rw [depth.deepest, Nat.max_le] at hk
      rcases List.mem_cons.mp hp with rfl | hp
      · exact hk.1
      · exact ih hk.2 hp

/-- Every builder that reaches deep enough makes of the pair what is expected. -/
def Builds (build : Builder → Pair → Except Failure α) (p : Pair) (a : α) : Prop :=
  ∀ k, p.depth ≤ k → build (builderAt k) p = .ok a

/-- What reaches as deep as some pairs lie reaches each of them. -/
theorem Builds.reached {build : Builder → Pair → Except Failure α} {p : Pair} {a : α} {k : Nat}
    (h : p.Builds build a) (hk : depth.deepest ps ≤ k) (hp : p ∈ ps) :
    build (builderAt k) p = .ok a :=
  h k (depth_le_of_mem hk hp)

end Pair

/-- There is one pair, of a rule that is asked for, and what is expected is built of it. -/
def Yields (rule : Rule → Prop) (build : Builder → Pair → Except Failure α) (ps : List Pair)
    (a : α) : Prop :=
  ∃ p : Pair, ps = [p] ∧ rule p.rule ∧ p.Builds build a

namespace Yields

variable {rule rule' : Rule → Prop} {build : Builder → Pair → Except Failure α} {a : α}

theorem imp (h : Yields rule build ps a) (hr : ∀ r, rule r → rule' r) : Yields rule' build ps a :=
  have ⟨p, e, hp, hb⟩ := h
  ⟨p, e, hr _ hp, hb⟩

/-- What the builders that reach the parts make of a pair is made of it by those that reach one
deeper. -/
theorem of_parts {part : Builder → Pair → Except Failure α}
    (hp : ∀ k p, build (Pair.builderAt (k + 1)) p = part (Pair.builderAt k) p) (hr : rule r)
    (h : ∀ k, Pair.depth.deepest ps ≤ k → part (Pair.builderAt k) ⟨r, c, d, ps⟩ = .ok a) :
    Yields rule build [⟨r, c, d, ps⟩] a :=
  ⟨_, rfl, hr, fun
    | 0, hk => absurd hk (Nat.not_succ_le_zero _)
    | k + 1, hk => (hp k _).trans (h k (Nat.le_of_succ_le_succ hk))⟩

theorem statement (hr : rule r)
    (h : ∀ k, Pair.depth.deepest ps ≤ k →
      Pair.statement (Pair.builderAt k) ⟨r, c, d, ps⟩ = .ok n) :
    Yields rule Builder.statement [⟨r, c, d, ps⟩] n :=
  of_parts (fun _ _ => rfl) hr h

theorem expression (hr : rule r)
    (h : ∀ k, Pair.depth.deepest ps ≤ k →
      Pair.expression (Pair.builderAt k) ⟨r, c, d, ps⟩ = .ok n) :
    Yields rule Builder.expression [⟨r, c, d, ps⟩] n :=
  of_parts (fun _ _ => rfl) hr h

end Yields

/-- A statement is yielded. -/
abbrev YieldsStatement : List Pair → Node → Prop := Yields (· ≠ .endOfInput) Builder.statement

/-- An expression is yielded. -/
abbrev YieldsExpression : List Pair → Node → Prop := Yields (· = .expression) Builder.expression

/-- The patterns for what is nested in a rule yield what the parsers read. -/
structure InParallel (patterns : Syntax.Inner) (inner : Inner) : Prop where
  statement : ∀ c, ParallelAt (fun _ => YieldsStatement) patterns.statement inner.statement c
  expression : ∀ c, ParallelAt (fun _ => YieldsExpression) patterns.expression inner.expression c

/-! ### Lists of parts -/

theorem mapM_of_listed {rule : Rule → Prop} {build : Builder → Pair → Except Failure Node}
    {as : List Node} {k : Nat} (h : Listed (Yields rule build) ps as)
    (hk : Pair.depth.deepest ps ≤ k) :
    (∀ p ∈ ps, rule p.rule) ∧ ps.mapM (build (Pair.builderAt k)) = .ok as := by
  obtain ⟨found, rfl, h⟩ := h
  induction h with
  | nil => exact ⟨nofun, rfl⟩
  | @cons ps a found as hp _ ih =>
      obtain ⟨p, rfl, hr, hb⟩ := hp
      rw [List.flatten_cons, Pair.deepest_append, Pair.deepest_singleton, Nat.max_le] at hk
      obtain ⟨hrs, hbs⟩ := ih hk.2
      refine ⟨List.forall_mem_cons.mpr ⟨hr, hrs⟩, ?_⟩
      rw [List.flatten_cons, List.singleton_append, List.mapM_cons, hb k hk.1, hbs]
      rfl

theorem statements_ok {as : List Node} {k : Nat} (h : Listed YieldsStatement ps as)
    (hk : Pair.depth.deepest ps ≤ k) : Pair.statements (Pair.builderAt k) ps = .ok as := by
  obtain ⟨hr, hb⟩ := mapM_of_listed h hk
  rw [Pair.statements, List.filter_eq_self.mpr fun p hp => decide_eq_true (hr p hp)]
  exact hb

/-- A name is yielded. -/
def YieldsName (ps : List Pair) (s : String) : Prop :=
  ∃ p : Pair, ps = [p] ∧ p.rule = .ident ∧ p.text = s

theorem name_parallel : ParallelAt (fun _ => YieldsName) Syntax.ident Parser.name c :=
  Syntax.ident_parallel.imp fun _ _ _ ⟨e, text⟩ => ⟨_, e, rfl, text⟩

theorem names_of_listed {names : List String} (h : Listed YieldsName ps names) :
    ps.map Pair.text = names := by
  obtain ⟨found, rfl, h⟩ := h
  induction h with
  | nil => rfl
  | cons hp _ ih =>
      obtain ⟨p, rfl, -, rfl⟩ := hp
      rw [List.flatten_cons, List.map_append, ih]
      rfl

/-! ### Statements -/

section Statements

variable {patterns : Syntax.Inner} {inner : Inner} (h : InParallel patterns inner)

include h

theorem block_parallel :
    ParallelAt (fun _ => Yields (· = .block) Builder.statement) (Syntax.block patterns)
      (block inner) c := by
  refine rule_parallel (.spanned (symbol_sequence_parallel fun _ => ?_))
  refine sequence_parallel (many_parallel h.statement) fun _ qs ss hs => ?_
  refine symbol_last_parallel fun d => .statement rfl fun k hk => ?_
  rw [List.append_nil] at hk ⊢
  change (Pair.statements (Pair.builderAt k) qs >>= fun ss => _) = _
  rw [statements_ok hs hk]
  rfl

omit h in
theorem params_parallel : ParallelAt (fun _ ps names => ∃ p : Pair, ps = [p] ∧ p.rule = .params ∧
    p.params = names) Syntax.params params c := by
  refine rule_parallel (symbol_sequence_parallel fun _ => ?_)
  refine sequence_parallel (optional_parallel (separated_parallel fun _ => name_parallel))
    fun _ qs names hn => ?_
  refine symbol_last_parallel fun d => ⟨_, rfl, rfl, ?_⟩
  obtain ⟨found, rfl, hn⟩ := hn
  rw [List.append_nil]
  cases hn with
  | none => rfl
  | some hn => exact names_of_listed hn

omit h in
theorem keyword_parallel {r : Rule} (text : String) :
    ParallelAt (fun _ ps _ => ∃ p : Pair, ps = [p]) (Syntax.words r [text]) (Parser.keyword r text) c :=
  (Syntax.words_parallel [(text, ())]).imp fun _ _ _ h => ⟨_, h.1⟩

theorem functionDeclaration_parallel :
    ParallelAt (fun _ => YieldsStatement) (Syntax.functionDeclaration patterns)
      (functionDeclaration inner) c := by
  refine rule_parallel (.spanned ?_)
  refine sequence_parallel (keyword_parallel _) fun _ _ _ ⟨_, hw⟩ => ?_
  refine sequence_parallel name_parallel fun _ _ _ ⟨name, hn, _, text⟩ => ?_
  refine sequence_parallel params_parallel fun _ _ _ ⟨params, hp, _, names⟩ => ?_
  refine (block_parallel h).map_right fun d _ _ ⟨body, hb, _, hbody⟩ =>
    .statement (by decide) fun k hk => ?_
  subst hw hn hp hb text names
  change ((Pair.builderAt k).statement body >>= fun body => _) = _
  rw [hbody.reached hk (by simp)]
  rfl

omit h in
theorem declarationKind_parallel :
    ParallelAt (fun _ ps keyword => ∃ p : Pair, ps = [p] ∧ p.declarationKeyword = keyword)
      Syntax.declarationKind Parser.declarationKeyword c :=
  (Syntax.words_parallel
    [("let", DeclarationKeyword.let), ("const", .const), ("var", .var)]).imp
    fun _ _ keyword ⟨e, hl⟩ => by
      refine ⟨_, e, ?_⟩
      unfold Pair.declarationKeyword
      generalize Pair.text _ = text at hl
      by_cases isLet : text = "let"
      · subst isLet
        cases hl
        rfl
      by_cases isConst : text = "const"
      · subst isConst
        cases hl
        rfl
      by_cases isVar : text = "var"
      · subst isVar
        cases hl
        rfl
      · simp only [List.lookup_cons, beq_eq_false_iff_ne.mpr isLet, beq_eq_false_iff_ne.mpr isConst,
          beq_eq_false_iff_ne.mpr isVar] at hl
        cases hl

theorem variableDeclaration_parallel :
    ParallelAt (fun _ => YieldsStatement) (Syntax.variableDeclaration patterns)
      (variableDeclaration inner) c := by
  refine rule_parallel (.spanned ?_)
  refine sequence_parallel declarationKind_parallel fun _ _ keyword ⟨kind, hw, hkind⟩ => ?_
  refine sequence_parallel name_parallel fun _ _ _ ⟨name, hn, _, text⟩ => ?_
  refine symbol_sequence_parallel fun _ => ?_
  refine sequence_parallel (h.expression _) fun _ _ _ ⟨init, hi, _, hinit⟩ => ?_
  refine symbol_last_parallel fun d => .statement (by decide) fun k hk => ?_
  subst hw hn hi text hkind
  change ((Pair.builderAt k).expression init >>= fun init => _) = _
  rw [hinit.reached hk (by simp)]
  rfl

theorem returnStatement_parallel :
    ParallelAt (fun _ => YieldsStatement) (Syntax.returnStatement patterns)
      (returnStatement inner) c := by
  refine rule_parallel (.spanned ?_)
  refine sequence_parallel (keyword_parallel _) fun _ _ _ ⟨_, hw⟩ => ?_
  refine sequence_parallel (optional_parallel (h.expression _)) fun _ _ _ ⟨found, hf, ha⟩ => ?_
  refine symbol_last_parallel fun d => .statement (by decide) fun k hk => ?_
  subst hw hf
  cases ha with
  | none => rfl
  | some ha =>
      obtain ⟨argument, rfl, _, hargument⟩ := ha
      change (((Pair.builderAt k).expression argument >>= fun a => pure (some a)) >>= fun a => _) = _
      rw [hargument.reached hk (by simp)]
      rfl

theorem ifStatement_parallel :
    ParallelAt (fun _ => YieldsStatement) (Syntax.ifStatement patterns) (ifStatement inner) c := by
  refine rule_parallel (.spanned ?_)
  refine sequence_parallel (keyword_parallel _) fun _ _ _ ⟨_, hw⟩ => ?_
  refine symbol_sequence_parallel fun _ => ?_
  refine sequence_parallel (h.expression _) fun _ _ _ ⟨test, ht, _, htest⟩ => ?_
  refine symbol_sequence_parallel fun _ => ?_
  refine sequence_parallel (h.statement _) fun _ _ _ ⟨consequent, hp, _, hconsequent⟩ => ?_
  have alternates (c : Cursor) : ParallelAt (fun _ qs n => ∃ e alternate : Pair,
      qs = [e, alternate] ∧ alternate.Builds Builder.statement n)
      (sequence [Syntax.words .kwElse ["else"], patterns.statement])
      (do Parser.keyword .kwElse "else"; Parser.layout; inner.statement) c :=
    sequence_parallel (keyword_parallel _) fun _ _ _ ⟨e, he⟩ =>
      (h.statement _).imp fun _ _ _ ⟨q, hq, _, hb⟩ => ⟨e, q, by rw [he, hq]; rfl, hb⟩
  refine (optional_parallel (alternates _)).map_right fun d _ _ ⟨found, hf, ha⟩ =>
    .statement (by decide) fun k hk => ?_
  subst hw ht hp hf
  change ((Pair.builderAt k).expression test >>= fun test => _) = _
  rw [htest.reached hk (by simp)]
  change ((Pair.builderAt k).statement consequent >>= fun consequent => _) = _
  rw [hconsequent.reached hk (by simp)]
  cases ha with
  | none => rfl
  | some ha =>
      obtain ⟨e, alternate, rfl, halternate⟩ := ha
      change ((Pair.builderAt k).statement alternate >>= fun alternate => _) = _
      rw [halternate.reached hk (by simp)]
      rfl

theorem expressionStatement_parallel :
    ParallelAt (fun _ => YieldsStatement) (Syntax.expressionStatement patterns)
      (expressionStatement inner) c := by
  refine rule_parallel (.spanned ?_)
  refine sequence_parallel (h.expression _) fun _ _ _ ⟨expression, he, _, hexpression⟩ => ?_
  refine symbol_last_parallel fun d => .statement (by decide) fun k hk => ?_
  subst he
  change ((Pair.builderAt k).expression expression >>= fun n => _) = _
  rw [hexpression.reached hk (by simp)]
  rfl

theorem statement_parallel :
    ParallelAt (fun _ => YieldsStatement) (Syntax.statement patterns) (statement inner) c := by
  have block : ParallelAt (fun _ => YieldsStatement) (Syntax.block patterns) (block inner) c :=
    (block_parallel h).imp fun _ _ _ hb => hb.imp fun _ e => e ▸ by decide
  exact .choice (.cons (functionDeclaration_parallel h) (.cons (variableDeclaration_parallel h)
    (.cons (returnStatement_parallel h) (.cons (ifStatement_parallel h) (.cons block
      (.cons (expressionStatement_parallel h) .nil))))))

end Statements

/-! ### Operands and operators -/

theorem forall₂_of_listed {Q : Pair → α → Prop} {as : List α}
    (h : Listed (fun ps a => ∃ p : Pair, ps = [p] ∧ Q p a) ps as) : List.Forall₂ Q ps as := by
  obtain ⟨found, rfl, h⟩ := h
  induction h with
  | nil => exact .nil
  | cons hp _ ih =>
      obtain ⟨p, rfl, hq⟩ := hp
      exact .cons hq ih

/-- What holds of each pair with the builders that reach it holds of all with those that reach all. -/
theorem forall₂_reached {Q : Builder → Pair → α → Prop} {as : List α} {k : Nat}
    (h : List.Forall₂ (fun p a => ∀ k, p.depth ≤ k → Q (Pair.builderAt k) p a) ps as)
    (hk : Pair.depth.deepest ps ≤ k) : List.Forall₂ (Q (Pair.builderAt k)) ps as := by
  induction h with
  | nil => exact .nil
  | cons hq _ ih =>
      rw [Pair.depth.deepest, Nat.max_le] at hk
      exact .cons (hq k hk.1) (ih hk.2)

theorem prefixMark_parallel : ParallelAt (fun _ ps mark => ∃ p : Pair, ps = [p] ∧ p.IsMark mark)
    Syntax.prefixOperator prefixMark c := by
  have operator (op : UnaryOp) (text : List Char) :
      ParallelAt (fun d ps op => ps = [(⟨UnaryOp.rule op, c, d, []⟩ : Pair)])
        (Syntax.operator (UnaryOp.rule op) text) (Parser.operator (UnaryOp.rule op) text op) c :=
    rule_parallel ((symbol_parallel text).map_right fun _ _ _ e => e ▸ rfl)
  refine .spanned (.map_right (.orElse (operator .neg _) (operator .not _)) fun d ps op e => ?_)
  exact ⟨_, e, rfl, rfl⟩

theorem infixOperator_parallel :
    ParallelAt (fun _ ps op => ∃ p : Pair, ps = [p] ∧ p.rule = Infix.rule op) Syntax.infixOperator
      infixOperator c := by
  have operator (op : Infix) (text : List Char) :
      ParallelAt (fun _ ps op => ∃ p : Pair, ps = [p] ∧ p.rule = Infix.rule op)
        (Syntax.operator op.rule text) (Parser.operator op.rule text op) c :=
    rule_parallel ((symbol_parallel text).map_right fun _ _ _ _ => ⟨_, rfl, rfl⟩)
  refine .choice (.cons (operator (.binary .strictEq) _) (.cons (operator (.binary .strictNe) _)
    (.cons (operator (.binary .le) _) (.cons (operator (.binary .ge) _)
    (.cons (operator (.binary .lt) _) (.cons (operator (.binary .gt) _)
    (.cons (operator (.binary .add) _) (.cons (operator (.binary .sub) _)
    (.cons (operator (.binary .mul) _) (.cons (operator (.binary .div) _)
    (.cons (operator (.binary .rem) _) (.cons (operator (.logical .and) _)
    (.cons (operator (.logical .or) _) .nil)))))))))))))

/-- An operand is yielded that is no operator. -/
abbrev YieldsPrimary : List Pair → Node → Prop := Yields (·.power? = none) Pair.primary

theorem literals_parallel :
    List.Forall₂ (fun p q => ParallelAt (fun _ => YieldsPrimary) p q c)
      [Syntax.number, Syntax.string, Syntax.boolean, Syntax.null, Syntax.undefined, Syntax.ident]
      [literal Parser.number .number, literal Parser.string .string, literal Parser.boolean .bool,
        literal Parser.null fun _ => .null, literal Parser.undefined fun _ => .undefined,
        identifier] := by
  have number : ParallelAt (fun _ => YieldsPrimary) Syntax.number (literal Parser.number .number) c :=
    .spanned (Syntax.number_parallel.map_right fun d _ x ⟨e, hx⟩ => ⟨_, e, rfl, fun k _ => by
      unfold Pair.primary
      simp only [hx]
      rfl⟩)
  have string : ParallelAt (fun _ => YieldsPrimary) Syntax.string (literal Parser.string .string) c :=
    .spanned (Syntax.string_parallel.map_right fun d _ s ⟨contents, e, hs⟩ =>
      ⟨_, e, rfl, fun k _ => hs ▸ rfl⟩)
  have boolean : ParallelAt (fun _ => YieldsPrimary) Syntax.boolean
      (literal Parser.boolean .bool) c := by
    refine .spanned ((Syntax.words_parallel [("true", true), ("false", false)]).map_right
      fun d _ b ⟨e, hl⟩ => ⟨_, e, rfl, fun k _ => ?_⟩)
    generalize hp : (⟨.boolean, c, d, []⟩ : Pair) = p at hl
    have hb : (p.text == "true") = b := by
      by_cases isTrue : p.text = "true"
      · rw [isTrue] at hl ⊢
        exact Option.some.inj hl
      by_cases isFalse : p.text = "false"
      · rw [isFalse] at hl ⊢
        exact Option.some.inj hl
      · simp only [List.lookup_cons, beq_eq_false_iff_ne.mpr isTrue,
          beq_eq_false_iff_ne.mpr isFalse] at hl
        cases hl
    subst hp hb
    rfl
  have null : ParallelAt (fun _ => YieldsPrimary) Syntax.null (literal Parser.null fun _ => .null) c :=
    .spanned ((Syntax.words_parallel [("null", ())]).map_right
      fun d _ _ h => ⟨_, h.1, rfl, fun _ _ => rfl⟩)
  have undefined : ParallelAt (fun _ => YieldsPrimary) Syntax.undefined
      (literal Parser.undefined fun _ => .undefined) c :=
    .spanned ((Syntax.words_parallel [("undefined", ())]).map_right
      fun d _ _ h => ⟨_, h.1, rfl, fun _ _ => rfl⟩)
  have identifier : ParallelAt (fun _ => YieldsPrimary) Syntax.ident identifier c :=
    .spanned (Syntax.ident_parallel.map_right fun d _ s ⟨e, text⟩ =>
      ⟨_, e, rfl, fun _ _ => text ▸ rfl⟩)
  exact .cons number (.cons string (.cons boolean (.cons null (.cons undefined
    (.cons identifier .nil)))))

/-- An operand is yielded with the operators in front of it and the calls behind it. -/
def YieldsOperand (ps : List Pair) (n : Node) : Prop :=
  ∀ k, Pair.depth.deepest ps ≤ k → Pair.IsOperand (Pair.builderAt k) ps n

section Expressions

variable {β : Type} {patterns : Syntax.Inner} {inner : Inner} (h : InParallel patterns inner)

include h

theorem primary_parallel :
    ParallelAt (fun _ => YieldsPrimary) (Syntax.primary patterns) (primary inner) c := by
  have parenthesised : ParallelAt (fun _ => YieldsPrimary)
      (sequence [symbol ['('], patterns.expression, symbol [')']]) (parenthesised inner) c := by
    refine symbol_sequence_parallel fun _ => ?_
    refine sequence_parallel (h.expression _) fun _ qs n ⟨p, hp, hr, hb⟩ => ?_
    refine symbol_last_parallel fun d =>
      ⟨p, by rw [hp, List.append_nil], by rw [hr]; rfl, fun k hk => ?_⟩
    unfold Pair.primary
    rw [hr]
    exact hb k hk
  exact .choice (List.rel_append literals_parallel (.cons parenthesised .nil))

theorem argumentList_parallel :
    ParallelAt (fun _ ps args => ∃ p : Pair, ps = [p] ∧ ∀ k, p.depth ≤ k →
      p.IsCall (Pair.builderAt k) args) (Syntax.call patterns) (argumentList inner) c := by
  refine rule_parallel (.spanned (symbol_sequence_parallel fun _ => ?_))
  refine sequence_parallel (optional_parallel (separated_parallel h.expression))
    fun _ qs arguments ⟨found, hf, ha⟩ => ?_
  refine symbol_last_parallel fun d => ⟨_, rfl, fun k hk => ⟨rfl, rfl, ?_⟩⟩
  subst hf
  rw [List.append_nil] at hk ⊢
  cases ha with
  | none => rfl
  | some ha => exact (mapM_of_listed ha (Nat.le_of_succ_le hk)).2

theorem operand_parallel :
    ParallelAt (fun _ => YieldsOperand)
      (sequence [many Syntax.prefixOperator, Syntax.primary patterns, many (Syntax.call patterns)])
      (operandExpression inner) c := by
  refine sequence_parallel (many_parallel fun _ => prefixMark_parallel) fun _ _ marks hm => ?_
  refine sequence_parallel (primary_parallel h) fun _ _ n ⟨p, hp, hr, hb⟩ => ?_
  refine (many_parallel fun _ => argumentList_parallel h).map_right fun d _ calls hc => fun k hk => ?_
  subst hp
  simp only [Pair.deepest_append, Nat.max_le, Pair.deepest_singleton] at hk
  exact ⟨_, p, _, marks, n, calls, rfl, rfl, forall₂_of_listed hm, hr, hb k hk.2.1,
    forall₂_reached (forall₂_of_listed hc) hk.2.2⟩

/-- An operator is yielded, with an operand behind it. -/
def YieldsLink (ps : List Pair) (link : Infix × Node) : Prop :=
  ∃ (p : Pair) (qs : List Pair), ps = p :: qs ∧ p.rule = Infix.rule link.1 ∧ YieldsOperand qs link.2

omit h in
theorem links_of_listed {others : List (Infix × Node)} {k : Nat} (h : Listed YieldsLink ps others)
    (hk : Pair.depth.deepest ps ≤ k) : Pair.Links (Pair.builderAt k) ps others := by
  obtain ⟨found, rfl, h⟩ := h
  induction h with
  | nil => exact .nil
  | @cons ps link found others hp _ ih =>
      obtain ⟨p, qs, rfl, hr, hn⟩ := hp
      rw [List.flatten_cons, List.cons_append, Pair.depth.deepest, Pair.deepest_append, Nat.max_le,
        Nat.max_le] at hk
      exact .cons hr (hn k hk.2.1) (ih hk.2.2)

theorem link_parallel :
    ParallelAt (fun _ => YieldsLink)
      (sequence [Syntax.infixOperator, many Syntax.prefixOperator, Syntax.primary patterns,
        many (Syntax.call patterns)])
      (do let op ← infixOperator; Parser.layout; return (op, ← operandExpression inner)) c :=
  sequence_parallel infixOperator_parallel fun _ _ _ ⟨p, hp, hr⟩ =>
    (operand_parallel h).map_right fun _ qs _ hn => ⟨p, qs, hp ▸ rfl, hr, hn⟩

theorem binary_parallel :
    ParallelAt (fun _ => Yields (· = .binary) Pair.binary) (Syntax.binary patterns)
      (binary inner) c := by
  refine rule_parallel ?_
  change ParallelAt _ (Pattern.sequence
    ([many Syntax.prefixOperator, Syntax.primary patterns, many (Syntax.call patterns)] ++ [_])) _ c
  rw [sequence_append _ (List.cons_ne_nil _ _)]
  refine .bind (operand_parallel h) fun _ ps first hf => .layout ?_
  refine .bind (many_parallel fun _ => link_parallel h) fun d qs others ho => .pure ?_
  refine ⟨_, rfl, rfl, fun k hk => ?_⟩
  have hk := Nat.le_of_succ_le hk
  rw [Pair.deepest_append, Nat.max_le] at hk
  change ((Pair.folding (Pair.builderAt k)).chain (ps ++ qs) >>= id) = _
  rw [Pair.chain_ok (hf k hk.1) (links_of_listed ho hk.2)]
  rfl

/-! ### Expressions -/

/-- One of the expressions is yielded, without the pair around it. -/
abbrev YieldsInside : List Pair → Node → Prop := Yields (fun _ => True) Builder.expression

theorem conditional_parallel :
    ParallelAt (fun _ => YieldsInside) (Syntax.conditional patterns) (conditional inner) c := by
  refine rule_parallel (.spanned ?_)
  refine sequence_parallel (binary_parallel h) fun _ _ _ ⟨test, ht, _, htest⟩ => ?_
  have branches (c : Cursor) : ParallelAt (fun _ qs (branches : Node × Node) =>
      ∃ consequent alternate : Pair, qs = [consequent, alternate] ∧
        consequent.Builds Builder.expression branches.1 ∧
        alternate.Builds Builder.expression branches.2)
      (sequence [symbol ['?'], patterns.expression, symbol [':'], patterns.expression])
      (do
        Parser.symbol ['?']; Parser.layout
        let consequent ← inner.expression
        Parser.layout; Parser.symbol [':']; Parser.layout
        return (consequent, ← inner.expression)) c := by
    refine symbol_sequence_parallel fun _ => ?_
    refine sequence_parallel (h.expression _) fun _ _ _ ⟨p, hp, _, hconsequent⟩ => ?_
    refine symbol_sequence_parallel fun _ => ?_
    exact (h.expression _).map_right fun _ _ _ ⟨q, hq, _, halternate⟩ =>
      ⟨p, q, by rw [hp, hq]; rfl, hconsequent, halternate⟩
  refine (optional_parallel (branches _)).map_right fun d _ _ ⟨found, hf, hb⟩ =>
    .expression trivial fun k hk => ?_
  subst ht hf
  change (test.binary (Pair.builderAt k) >>= fun test => _) = _
  rw [htest.reached hk (by simp)]
  cases hb with
  | none => rfl
  | some hb =>
      obtain ⟨consequent, alternate, rfl, hconsequent, halternate⟩ := hb
      change ((Pair.builderAt k).expression consequent >>= fun consequent => _) = _
      rw [hconsequent.reached hk (by simp)]
      change ((Pair.builderAt k).expression alternate >>= fun alternate => _) = _
      rw [halternate.reached hk (by simp)]
      rfl

omit h in
theorem arrowParams_parallel :
    ParallelAt (fun _ ps names => ∃ p : Pair, ps = [p] ∧
      (if p.rule = .params then p.params else [p.text]) = names)
      (Syntax.params.orElse Syntax.ident) arrowParams c :=
  .orElse (params_parallel.imp fun _ _ _ ⟨p, hp, hr, names⟩ => ⟨p, hp, by rw [if_pos hr, names]⟩)
    (name_parallel.map_right fun _ _ _ ⟨p, hp, hr, text⟩ =>
      ⟨p, hp, by rw [if_neg (by rw [hr]; decide), text]⟩)

theorem arrowBody_parallel :
    ParallelAt (fun _ => Yields (fun _ => True) Pair.arrowBody)
      ((Syntax.block patterns).orElse patterns.expression) (arrowBody inner) c := by
  refine .orElse ((block_parallel h).map_right ?_) ((h.expression _).map_right ?_)
  · refine fun _ _ n ⟨p, hp, hr, hb⟩ => ⟨p, hp, trivial, fun k hk => ?_⟩
    unfold Pair.arrowBody
    simp only [hr, hb k hk]
    rfl
  · refine fun _ _ n ⟨p, hp, hr, hb⟩ => ⟨p, hp, trivial, fun k hk => ?_⟩
    unfold Pair.arrowBody
    simp only [hr, hb k hk]
    rfl

theorem arrowFunction_parallel :
    ParallelAt (fun _ => YieldsInside) (Syntax.arrowFunction patterns) (arrowFunction inner) c := by
  refine rule_parallel (.spanned ?_)
  refine sequence_parallel arrowParams_parallel fun _ _ _ ⟨head, hh, names⟩ => ?_
  refine symbol_sequence_parallel fun _ => ?_
  refine (arrowBody_parallel h).map_right fun d _ _ ⟨body, hb, _, hbody⟩ =>
    .expression trivial fun k hk => ?_
  subst hh hb names
  change (body.arrowBody (Pair.builderAt k) >>= fun body => _) = _
  rw [hbody.reached hk (by simp)]
  rfl

theorem assignment_parallel :
    ParallelAt (fun _ => YieldsInside) (Syntax.assignment patterns) (assignment inner) c := by
  refine rule_parallel (.spanned ?_)
  refine sequence_parallel name_parallel fun _ _ _ ⟨name, hn, _, text⟩ => ?_
  refine sequence_parallel (notNext_parallel _) fun _ _ _ he => ?_
  refine symbol_sequence_parallel fun _ => ?_
  refine (h.expression _).map_right fun d _ _ ⟨value, hv, _, hvalue⟩ =>
    .expression trivial fun k hk => ?_
  subst hn he hv text
  change ((Pair.builderAt k).expression value >>= fun value => _) = _
  rw [hvalue.reached hk (by simp)]
  rfl

theorem expression_parallel :
    ParallelAt (fun _ => YieldsExpression) (Syntax.expression patterns) (expression inner) c := by
  refine rule_parallel (.imp (.choice (.cons (arrowFunction_parallel h) (.cons (assignment_parallel h)
    (.cons (conditional_parallel h) .nil)))) fun d _ n ⟨p, hp, _, hn⟩ => .expression rfl fun k hk => ?_)
  subst hp
  exact hn.reached hk List.mem_cons_self

end Expressions

/-! ### Scripts -/

/-- **Every rule yields what is built to the tree that is read.** -/
theorem patternAt_parallel : ∀ fuel, InParallel (Syntax.patternAt fuel) (parserAt fuel)
  | 0        => ⟨fun _ => .fail, fun _ => .fail⟩
  | fuel + 1 =>
    have h := patternAt_parallel fuel
    ⟨fun _ => statement_parallel h, fun _ => expression_parallel h⟩

theorem endOfInput_parallel :
    ParallelAt (fun _ ps _ => ∃ p : Pair, ps = [p] ∧ p.rule = .endOfInput) Pattern.endOfInput
      Parser.endOfInput c :=
  rule_parallel fun f => by
    cases c.rest.isEmpty with
    | true => exact .some ⟨_, rfl, rfl⟩
    | false => exact .none

theorem statements_append_end {p : Pair} (hp : p.rule = .endOfInput) (build : Builder) :
    Pair.statements build (ps ++ [p]) = Pair.statements build ps := by
  rw [Pair.statements, List.filter_append, List.filter_singleton, hp]
  simp [Pair.statements]

theorem main_parallel {patterns : Syntax.Inner} {inner : Inner} (h : InParallel patterns inner)
    (hc : c.offset = 0) :
    ParallelAt (fun _ ps n => ∀ size, Pair.script ps size = .ok n) (Syntax.main patterns)
      (script inner) c := by
  have start : ParallelAt Silent startOfInput (pure ()) c := fun f => by
    rw [startOfInput, if_pos hc]
    exact .some rfl
  refine rule_parallel (.spanned ?_)
  refine silent_sequence_parallel start fun _ => ?_
  refine sequence_parallel (many_parallel h.statement) fun _ ps ss hss => ?_
  refine endOfInput_parallel.map_right fun d _ _ ⟨p, hp, hr⟩ => fun size => ?_
  subst hp
  have built : Pair.statements (Pair.builderAt (⟨.main, c, d, ps ++ [p]⟩ : Pair).depth)
      (ps ++ [p]) = .ok ss := by
    rw [statements_append_end hr]
    refine statements_ok hss (Nat.le_trans ?_ (Nat.le_succ _))
    rw [Pair.deepest_append]
    exact Nat.le_max_left _ _
  change (Pair.statements _ _ >>= fun ss => _) = _
  rw [built]
  rfl

/-- **No builder ever complains.**  A script is built to the tree that is read straight from the text. -/
theorem parse_eq (source : String) : parse source =
    match script (parserAt (nestings source)) (.start source) .none with
    | (some (n, _), _)  => .ok n
    | (none, farthest) => .error (.unexpected farthest.offset farthest.expected) := by
  unfold parse
  rcases (main_parallel (c := .start source) (patternAt_parallel _) rfl).results .none with
    ⟨f, hp, hq⟩ | ⟨ps, n, d, f, hp, hq, h⟩
  · rw [hp, hq]
  · rw [hp, hq]
    exact h _

end Nondet.Grammar
