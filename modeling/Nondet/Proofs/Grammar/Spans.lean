import Nondet.Proofs.Grammar.Built
import Nondet.Proofs.Grammar.Offsets
import Nondet.Proofs.Tree.Site

/-!
# Grammar — Spans

Where the nodes of a tree stand in its text.  A node that was read between two places spans a stretch
between them, from one place of the text to another, and so does every node in it; the children of a
node stand in its stretch one behind the other, and the stretch of a function is what a rule for
functions took (`Node.Within`).  Operands that are joined stand one behind the other, so the stretch
from the first to the last is one.  Every rule reads such nodes (`parserAt_keeps`), hence all spans of
a script are nested in its text and the script spans all of it (`parse_spans`), and the place where
the reader gives up lies in it (`parse_error_within`).
-/

namespace Nondet

open Grammar Grammar.Parser

/-- The children of the node stand inside its stretch. -/
def Node.Encloses (n : Node) : Prop :=
  ∀ m ∈ n.children, n.span.start ≤ m.span.start ∧ m.span.stop ≤ n.span.stop

/-- The children of the node stand one behind the other. -/
def Node.Apart (n : Node) : Prop :=
  n.children.Pairwise fun a b => a.span.stop ≤ b.span.start

/-- A rule for functions takes the node from the one place to the other. -/
def Node.TakenAsFunction (c : Cursor) (n : Node) (d : Cursor) : Prop :=
  ∃ fuel f, (Grammar.functionDeclaration (parserAt fuel) c f).1 = some (n, d) ∨
    (Grammar.arrowFunction (parserAt fuel) c f).1 = some (n, d)

/-- The node spans a stretch of the text behind a place, and a function's stretch is what was taken
for it. -/
structure Node.ReadFrom (c : Cursor) (n : Node) : Prop where
  start : c.Meets n.span.start
  stop : c.Meets n.span.stop
  function : n.function?.isSome → ∃ d e, c.Onto d ∧ n.TakenAsFunction d e ∧
    n.span = ⟨d.offset, e.offset⟩

theorem Node.ReadFrom.before {c d : Cursor} {n : Node} (h : n.ReadFrom d) (hc : c.Onto d) :
    n.ReadFrom c :=
  ⟨h.start.before hc, h.stop.before hc, fun hf =>
    have ⟨d', e, hd, he⟩ := h.function hf
    ⟨d', e, hc.trans hd, he⟩⟩

/-- The node stands between two offsets of the text behind a place, and around its children. -/
structure Node.Stands (c : Cursor) (lo hi : Nat) (n : Node) : Prop where
  bounds : lo ≤ n.span.start ∧ n.span.start ≤ n.span.stop ∧ n.span.stop ≤ hi
  read : n.ReadFrom c
  encloses : n.Encloses
  apart : n.Apart

/-- The node and all nodes in it stand between two offsets of the text behind a place. -/
def Node.Within (c : Cursor) (lo hi : Nat) (n : Node) : Prop := n.Every (Node.Stands c lo hi)

namespace Node.Within

variable {c d : Cursor} {lo lo' hi hi' : Nat} {n : Node}

theorem mono (h : n.Within c lo hi) (hlo : lo' ≤ lo) (hhi : hi ≤ hi') : n.Within c lo' hi' := by
  intro m hm
  obtain ⟨⟨h₁, h₂, h₃⟩, read, encloses, apart⟩ := h m hm
  exact ⟨⟨Nat.le_trans hlo h₁, h₂, Nat.le_trans h₃ hhi⟩, read, encloses, apart⟩

/-- What was read behind a place was read behind every place in front of it. -/
theorem before (h : n.Within d lo hi) (hc : c.Onto d) : n.Within c lo hi := by
  intro m hm
  obtain ⟨bounds, read, encloses, apart⟩ := h m hm
  exact ⟨bounds, read.before hc, encloses, apart⟩

theorem bounds (h : n.Within c lo hi) :
    lo ≤ n.span.start ∧ n.span.start ≤ n.span.stop ∧ n.span.stop ≤ hi := h.self.bounds

theorem le (h : n.Within c lo hi) : lo ≤ hi :=
  have ⟨h₁, h₂, h₃⟩ := h.bounds
  Nat.le_trans h₁ (Nat.le_trans h₂ h₃)

/-- A node that spans a stretch, with its children in it one behind the other. -/
theorem of_children (hs : lo ≤ n.span.start ∧ n.span.start ≤ n.span.stop ∧ n.span.stop ≤ hi)
    (hr : n.ReadFrom c) (h : Spread (Node.Within c) n.span.start n.span.stop n.children) :
    n.Within c lo hi := by
  have each := (h.forall_mem Node.Within.le).2
  refine Node.every_iff.mpr ⟨⟨hs, hr, fun m hm => ?_, ?_⟩, fun m hm => ?_⟩
  · obtain ⟨l, k, hl, hk, hw⟩ := each m hm
    exact ⟨Nat.le_trans hl hw.bounds.1, Nat.le_trans hw.bounds.2.2 hk⟩
  · exact Spread.pairwise (A := Node.Within c) Node.Within.le (fun ha hle hb =>
      Nat.le_trans ha.bounds.2.2 (Nat.le_trans hle hb.bounds.1)) h
  · obtain ⟨l, k, hl, hk, hw⟩ := each m hm
    exact hw.mono (Nat.le_trans hs.1 hl) (Nat.le_trans hk hs.2.2)

/-- The stretch of the node itself holds all nodes in it. -/
theorem tight (h : n.Within c lo hi) : n.Within c n.span.start n.span.stop := by
  suffices inside : ∀ {k : Node} {lo' hi' : Nat}, k.Every (Node.Stands c lo hi) →
      lo' ≤ k.span.start → k.span.stop ≤ hi' → k.Within c lo' hi' from
    inside h (Nat.le_refl _) (Nat.le_refl _)
  intro k
  induction k using Node.of_children with
  | h k ih =>
      intro lo' hi' hk hlo hhi
      obtain ⟨⟨-, hle, -⟩, read, encloses, apart⟩ := hk.self
      refine Node.every_iff.mpr ⟨⟨⟨hlo, hle, hhi⟩, read, encloses, apart⟩, fun m hm => ?_⟩
      obtain ⟨h₁, h₂⟩ := encloses m hm
      exact ih m hm (hk.child hm) (Nat.le_trans hlo h₁) (Nat.le_trans h₂ hhi)

end Node.Within

end Nondet

namespace Nondet.Grammar

open Nondet.Grammar.Parser

variable {c : Cursor} {lo m l hi : Nat}

/-! ### Operands -/

/-- What is no function is read from wherever its ends are. -/
theorem readFrom_of_function? {n : Node} (start : c.Meets n.span.start) (stop : c.Meets n.span.stop)
    (hf : n.function? = none) : n.ReadFrom c :=
  ⟨start, stop, fun h => by rw [hf] at h; cases h⟩

theorem within_join {left right : Node} (op : Infix) (hl : left.Within c lo m) (hlm : m ≤ l)
    (hr : right.Within c l hi) : (op.join left right).Within c lo hi := by
  have hleft := hl.bounds
  have hright := hr.bounds
  have parts : Spread (Node.Within c) left.span.start right.span.stop [left, right] :=
    ⟨_, _, Nat.le_refl _, hl.tight, .one (by omega) hr.tight (Nat.le_refl _)⟩
  have span : lo ≤ left.span.start ∧ left.span.start ≤ right.span.stop ∧ right.span.stop ≤ hi := by
    omega
  have start := hl.self.read.start
  have stop := hr.self.read.stop
  cases op with
  | binary op =>
      exact .of_children (n := .binary _ op left right) span (readFrom_of_function? start stop rfl) parts
  | logical op =>
      exact .of_children (n := .logical _ op left right) span (readFrom_of_function? start stop rfl)
        parts

/-- The operands of a chain stand one behind the other. -/
def Chain.Within (c : Cursor) (lo hi : Nat) (chain : Chain) : Prop :=
  ∃ m, chain.first.Within c lo m ∧ Spread (fun l h p => Node.Within c l h p.2) m hi chain.others

theorem Chain.within_joinLevel (level : Nat) : ∀ (others : List (Infix × Node)) {left : Node} {lo : Nat},
    Chain.Within c lo hi ⟨left, others⟩ → (joinLevel level left others).Within c lo hi
  | [], _, _, h => h
  | (op, right) :: rest, left, lo, ⟨m, hl, l, k, hml, hr, hs⟩ => by
      rw [joinLevel]
      split
      · exact within_joinLevel level rest ⟨k, within_join op hl hml hr, hs⟩
      · obtain ⟨k', hfirst, hothers⟩ := within_joinLevel level rest ⟨k, hr, hs⟩
        exact ⟨m, hl, l, k', hml, hfirst, hothers⟩

/-- The tree of a chain spans the stretch of its operands. -/
theorem Chain.Within.toNode {chain : Chain} (h : chain.Within c lo hi) :
    chain.toNode.Within c lo hi := by
  obtain ⟨m, hf, hs⟩ := List.foldlRecOn (motive := Chain.Within c lo hi) Infix.levels
    (fun chain level => joinLevel level chain.first chain.others) h
    fun chain hc level _ => within_joinLevel level chain.others hc
  refine hf.mono (Nat.le_refl _) ?_
  exact (Spread.forall_mem (fun h => Node.Within.le h) hs).1

/-- The arguments of a call stand between its parentheses. -/
structure ArgumentList.Within (c : Cursor) (lo hi : Nat) (args : ArgumentList) : Prop where
  bounds : lo ≤ args.span.start ∧ args.span.start ≤ args.span.stop ∧ args.span.stop ≤ hi
  stop : c.Meets args.span.stop
  arguments : Spread (Node.Within c) args.span.start args.span.stop args.arguments

structure PrefixMark.Within (c : Cursor) (lo hi : Nat) (mark : PrefixMark) : Prop where
  bounds : lo ≤ mark.span.start ∧ mark.span.start ≤ mark.span.stop ∧ mark.span.stop ≤ hi
  start : c.Meets mark.span.start

/-- What is called stands in front of the arguments. -/
theorem within_calls : ∀ {calls : List ArgumentList} {callee : Node} {m : Nat}, callee.Within c lo m →
    Spread (ArgumentList.Within c) m hi calls →
    (calls.foldl (fun callee args => .call (callee.span.through args.span) callee args.arguments)
      callee).Within c lo hi
  | [], _, _, hc, h => hc.mono (Nat.le_refl _) h
  | args :: calls, callee, m, hc, ⟨l, k, hl, ⟨⟨h₁, h₂, h₃⟩, stop, ha⟩, hs⟩ => by
      have hcallee := hc.bounds
      have span : lo ≤ callee.span.start ∧ callee.span.start ≤ args.span.stop ∧ args.span.stop ≤ k := by
        omega
      have parts : Spread (Node.Within c) callee.span.start args.span.stop (callee :: args.arguments) :=
        ⟨_, _, Nat.le_refl _, hc.tight, ha.widen id (by omega) (Nat.le_refl _)⟩
      have called : (Node.call (callee.span.through args.span) callee args.arguments).Within c lo k :=
        .of_children span (readFrom_of_function? hc.self.read.start stop rfl) parts
      rw [List.foldl_cons]
      exact within_calls called hs

/-- Operators stand in front of their operand. -/
theorem within_operand : ∀ {marks : List PrefixMark} {primary : Node} {calls : List ArgumentList}
    {lo : Nat}, Spread (PrefixMark.Within c) lo m marks → m ≤ l →
    (operand [] primary calls).Within c l hi → (operand marks primary calls).Within c lo hi
  | [], _, _, lo, h, hl, ho => ho.mono (Nat.le_trans h hl) (Nat.le_refl _)
  | mark :: marks, primary, calls, lo, ⟨l', k, hl', ⟨⟨h₁, h₂, h₃⟩, start⟩, hs⟩, hl, ho => by
      have inside : (operand marks primary calls).Within c k hi := within_operand hs hl ho
      have hinside := inside.bounds
      have span : lo ≤ mark.span.start ∧
          mark.span.start ≤ (operand marks primary calls).span.stop ∧
          (operand marks primary calls).span.stop ≤ hi := by omega
      have parts : Spread (Node.Within c) mark.span.start (operand marks primary calls).span.stop
          [operand marks primary calls] := .one (by omega) inside.tight (Nat.le_refl _)
      exact .of_children (n := .unary _ mark.op _) span
        (readFrom_of_function? start inside.self.read.stop rfl) parts

/-! ### Tokens -/

section Tokens

theorem name_keeps : KeepsAt (fun _ _ => True) name c :=
  .rule (.scan fun _ _ e => ⟨Token.onto_name? e, trivial⟩)

theorem words_keep {α : Type} (r : Rule) (words : List (String × α)) :
    KeepsAt (fun _ _ => True) (rule r (scan (Token.oneOf? words))) c :=
  .rule (.scan fun _ _ e => ⟨Token.onto_oneOf? e, trivial⟩)

theorem operator_keeps {α : Type} (r : Rule) (text : List Char) (a : α) :
    KeepsAt (fun _ _ => True) (operator r text a) c :=
  .rule (.bind (.symbol _) fun _ _ _ _ => .pure trivial)

theorem separated_keeps {α : Type} {A : Nat → Nat → α → Prop} {p : Parser α} (text : List Char)
    (hA : ∀ {l' l m a}, l' ≤ l → A l m a → A l' m a)
    (h : ∀ d, c.Onto d → KeepsAt (fun a e => A d.offset e.offset a) p d) :
    KeepsAt (fun as d => Spread A c.offset d.offset as) (separated text p) c := by
  refine .bind (h c (.refl c)) fun a d hd ha => .bind .layout fun _ d₁ h₁ _ => ?_
  -- Each of the others begins behind its separator.
  have others : KeepsAt (fun as e => Spread A d₁.offset e.offset as)
      (many do symbol text; Parser.layout; p) d₁ := by
    refine .many fun e he => .bind (.symbol _) fun _ e₁ g₁ _ => .bind .layout fun _ e₂ g₂ _ => ?_
    have hce : c.Onto e₂ := hd.trans (h₁.trans (he.trans (g₁.trans g₂)))
    exact (h e₂ hce).imp fun b g _ hb => hA (g₁.trans g₂).le hb
  exact .bind others fun as d₂ _ has => .pure
    ⟨c.offset, d.offset, Nat.le_refl _, ha, has.widen id h₁.le (Nat.le_refl _)⟩

theorem params_keep : KeepsAt (fun _ _ => True) params c := by
  refine .rule (.bind (.symbol _) fun _ d _ _ => .bind .layout fun _ d₁ _ _ => ?_)
  have names : KeepsAt (fun _ _ => True) (separated [','] name) d₁ :=
    (separated_keeps (A := fun l m _ => l ≤ m) [','] Nat.le_trans fun d _ =>
      name_keeps.imp fun _ _ he _ => he.le).imp fun _ _ _ _ => trivial
  exact .bind (.optional names) fun _ _ _ _ => .bind .layout fun _ _ _ _ =>
    .bind (.symbol _) fun _ _ _ _ => .pure trivial

end Tokens

/-! ### Rules -/

/-- What is read stands between the place where reading began and the place that it came to. -/
def Spans (c : Cursor) (n : Node) (d : Cursor) : Prop := n.Within c c.offset d.offset

section Rules

variable {fuel : Nat} {d e e' : Cursor} {n : Node}

/-- What was read in a part of a stretch stands in the whole of it. -/
theorem Spans.widen (h : Spans d n e) (hc : c.Onto d) (he : e.Onto e') : Spans c n e' :=
  (h.before hc).mono hc.le he.le

/-- A single child that was read in a part of a stretch. -/
theorem Spans.only (h : Spans d n e) (hc : c.Onto d) (he : e.Onto e') :
    Spread (Node.Within c) c.offset e'.offset [n] := .one hc.le (h.before hc) he.le

/-- One child more, which was read in front of the others. -/
theorem Spans.cons (h : Spans d n e) (hc : c.Onto d) {ns : List Node} {hi : Nat}
    (hs : Spread (Node.Within c) e.offset hi ns) : Spread (Node.Within c) c.offset hi (n :: ns) :=
  ⟨d.offset, e.offset, hc.le, h.before hc, hs⟩

/-- A node that spans what was read, with its children in it one behind the other. -/
def Frames (c : Cursor) (n : Node) (d : Cursor) : Prop :=
  n.span = ⟨c.offset, d.offset⟩ ∧ Spread (Node.Within c) c.offset d.offset n.children

theorem Frames.spans (h : Frames c n d) (hd : c.Onto d)
    (hf : n.function?.isSome → n.TakenAsFunction c d) : Spans c n d := by
  obtain ⟨hs, children⟩ := h
  refine .of_children (by rw [hs]; exact ⟨Nat.le_refl _, hd.le, Nat.le_refl _⟩) ?_ (hs ▸ children)
  exact ⟨hs ▸ (Cursor.Onto.refl c).meets, hs ▸ hd.meets, fun h => ⟨c, d, .refl c, hf h, hs⟩⟩

/-- A node that is no function and spans what was read. -/
theorem spans_of_children (hd : c.Onto d) (hs : n.span = ⟨c.offset, d.offset⟩)
    (hf : n.function? = none) (h : Spread (Node.Within c) c.offset d.offset n.children) :
    Spans c n d :=
  Frames.spans ⟨hs, h⟩ hd fun hf' => by rw [hf] at hf'; cases hf'

/-- The parsers for what is nested read in their places. -/
def Inner.Keeps (inner : Inner) : Prop := ∀ what c, KeepsAt (Spans c) (inner what) c

variable (h : (parserAt fuel).Keeps)

include h

theorem statements_keep :
    KeepsAt (fun ss d => Spread (Node.Within c) c.offset d.offset ss)
      (many (parserAt fuel).statement) c :=
  .many fun d hd => (h .statement d).imp fun _ _ _ hn => hn.before hd

theorem block_keeps : KeepsAt (Spans c) (block (parserAt fuel)) c := by
  refine .rule (.spanned (.bind (.symbol _) fun _ _ h₁ _ => .bind .layout fun _ _ h₂ _ => ?_))
  refine .bind (statements_keep h) fun ss _ h₃ hss => .bind .layout fun _ _ h₄ _ => ?_
  refine .bind (.symbol _) fun _ _ h₅ _ => .pure ?_
  exact spans_of_children (h₁.trans (h₂.trans (h₃.trans (h₄.trans h₅)))) rfl rfl
    (hss.widen (fun hn => hn.before (h₁.trans h₂)) (h₁.trans h₂).le (h₄.trans h₅).le)

theorem functionDeclaration_keeps : KeepsAt (Spans c) (functionDeclaration (parserAt fuel)) c := by
  have frames : KeepsAt (Frames c) (functionDeclaration (parserAt fuel)) c := by
    refine .rule (.spanned (.bind (words_keep _ _) fun _ _ h₁ _ => .bind .layout fun _ _ h₂ _ => ?_))
    refine .bind name_keeps fun _ _ h₃ _ => .bind .layout fun _ _ h₄ _ => ?_
    refine .bind params_keep fun _ _ h₅ _ => .bind .layout fun _ _ h₆ _ => ?_
    refine .bind (block_keeps h) fun body e h₇ hb => .pure ⟨rfl, ?_⟩
    exact hb.only (h₁.trans (h₂.trans (h₃.trans (h₄.trans (h₅.trans h₆))))) (.refl e)
  exact frames.result.imp fun n d hd ⟨hn, f, taken⟩ => hn.spans hd fun _ => ⟨fuel, f, .inl taken⟩

theorem variableDeclaration_keeps : KeepsAt (Spans c) (variableDeclaration (parserAt fuel)) c := by
  refine .rule (.spanned (.bind (words_keep _ _) fun _ _ h₁ _ => .bind .layout fun _ _ h₂ _ => ?_))
  refine .bind name_keeps fun _ _ h₃ _ => .bind .layout fun _ _ h₄ _ => ?_
  refine .bind (.symbol _) fun _ _ h₅ _ => .bind .layout fun _ _ h₆ _ => ?_
  refine .bind (h .expression _) fun init _ h₇ hi => .bind .layout fun _ _ h₈ _ => ?_
  refine .bind (.symbol _) fun _ _ h₉ _ => .pure ?_
  have front := h₁.trans (h₂.trans (h₃.trans (h₄.trans (h₅.trans h₆))))
  exact spans_of_children (front.trans (h₇.trans (h₈.trans h₉))) rfl rfl
    (hi.only front (h₈.trans h₉))

theorem returnStatement_keeps : KeepsAt (Spans c) (returnStatement (parserAt fuel)) c := by
  refine .rule (.spanned (.bind (words_keep _ _) fun _ _ h₁ _ => .bind .layout fun _ _ h₂ _ => ?_))
  refine .bind (.optional (h .expression _)) fun argument _ h₃ ha => .bind .layout fun _ _ h₄ _ => ?_
  refine .bind (.symbol _) fun _ _ h₅ _ => .pure ?_
  have whole := h₁.trans (h₂.trans (h₃.trans (h₄.trans h₅)))
  refine spans_of_children whole rfl rfl ?_
  cases argument with
  | none => exact whole.le
  | some n => exact (ha n rfl).only (h₁.trans h₂) (h₄.trans h₅)

theorem ifStatement_keeps : KeepsAt (Spans c) (ifStatement (parserAt fuel)) c := by
  refine .rule (.spanned (.bind (words_keep _ _) fun _ _ h₁ _ => .bind .layout fun _ _ h₂ _ => ?_))
  refine .bind (.symbol _) fun _ _ h₃ _ => .bind .layout fun _ _ h₄ _ => ?_
  refine .bind (h .expression _) fun test e₅ h₅ ht => .bind .layout fun _ _ h₆ _ => ?_
  refine .bind (.symbol _) fun _ _ h₇ _ => .bind .layout fun _ e₈ h₈ _ => ?_
  refine .bind (h .statement _) fun consequent e₉ h₉ hc => .bind .layout fun _ d₁ k₁ _ => ?_
  have other : KeepsAt (Spans d₁)
      (do keyword .kwElse "else"; Parser.layout; (parserAt fuel).statement) d₁ :=
    .bind (words_keep _ _) fun _ _ g₁ _ => .bind .layout fun _ _ g₂ _ =>
      (h .statement _).imp fun _ e _ hn => hn.widen (g₁.trans g₂) (.refl e)
  refine .bind (.optional other) fun alternate e k₂ ha => .pure ?_
  have front := h₁.trans (h₂.trans (h₃.trans h₄))
  have middle := h₆.trans (h₇.trans h₈)
  have behind := front.trans (h₅.trans (middle.trans (h₉.trans k₁)))
  have last : Spread (Node.Within c) e₉.offset e.offset alternate.toList := by
    cases alternate with
    | none => exact (k₁.trans k₂).le
    | some n => exact .one k₁.le ((ha n rfl).before behind) (Nat.le_refl _)
  refine spans_of_children (behind.trans k₂) rfl rfl (ht.cons front ?_)
  exact ⟨e₈.offset, e₉.offset, middle.le, hc.before (front.trans (h₅.trans middle)), last⟩

theorem expressionStatement_keeps : KeepsAt (Spans c) (expressionStatement (parserAt fuel)) c := by
  refine .rule (.spanned (.bind (h .expression c) fun n _ h₁ hn => .bind .layout fun _ _ h₂ _ => ?_))
  refine .bind (.symbol _) fun _ _ h₃ _ => .pure ?_
  exact spans_of_children (h₁.trans (h₂.trans h₃)) rfl rfl (hn.only (.refl c) (h₂.trans h₃))

theorem statement_keeps : KeepsAt (Spans c) (statement (parserAt fuel)) c := by
  refine .choice ?_
  simp only [List.forall_mem_cons, List.not_mem_nil, false_imp_iff, forall_const, and_true]
  exact ⟨functionDeclaration_keeps h, variableDeclaration_keeps h, returnStatement_keeps h,
    ifStatement_keeps h, block_keeps h, expressionStatement_keeps h⟩

theorem arrowFunction_keeps : KeepsAt (Spans c) (arrowFunction (parserAt fuel)) c := by
  have params : KeepsAt (fun _ _ => True) arrowParams c :=
    .orElse params_keep (.bind name_keeps fun _ _ _ _ => .pure trivial)
  have body (d : Cursor) : KeepsAt (fun b e => Spans d b.2 e) (arrowBody (parserAt fuel)) d :=
    .orElse (.bind (block_keeps h) fun _ _ _ hb => .pure hb)
      (.bind (h .expression d) fun _ _ _ hb => .pure hb)
  have frames : KeepsAt (Frames c) (arrowFunction (parserAt fuel)) c := by
    refine .rule (.spanned (.bind params fun _ _ h₁ _ => .bind .layout fun _ _ h₂ _ => ?_))
    refine .bind (.symbol _) fun _ _ h₃ _ => .bind .layout fun _ _ h₄ _ => ?_
    exact .bind (body _) fun b e h₅ hb => .pure
      ⟨rfl, hb.only (h₁.trans (h₂.trans (h₃.trans h₄))) (.refl e)⟩
  exact frames.result.imp fun n d hd ⟨hn, f, taken⟩ => hn.spans hd fun _ => ⟨fuel, f, .inr taken⟩

theorem assignment_keeps : KeepsAt (Spans c) (assignment (parserAt fuel)) c := by
  refine .rule (.spanned (.bind name_keeps fun _ _ h₁ _ => .bind .layout fun _ _ h₂ _ => ?_))
  refine .bind (.notNext _) fun _ _ h₃ _ => .bind .layout fun _ _ h₄ _ => ?_
  refine .bind (.symbol _) fun _ _ h₅ _ => .bind .layout fun _ _ h₆ _ => ?_
  refine .bind (h .expression _) fun value e h₇ hv => .pure ?_
  have front := h₁.trans (h₂.trans (h₃.trans (h₄.trans (h₅.trans h₆))))
  exact spans_of_children (front.trans h₇) rfl rfl (hv.only front (.refl e))

theorem argumentList_keeps :
    KeepsAt (fun args d => args.Within c c.offset d.offset) (argumentList (parserAt fuel)) c := by
  refine .rule (.spanned (.bind (.symbol _) fun _ _ h₁ _ => .bind .layout fun _ d₂ h₂ _ => ?_))
  have between := h₁.trans h₂
  have list : KeepsAt (fun as d => Spread (Node.Within d₂) d₂.offset d.offset as)
      (separated [','] (parserAt fuel).expression) d₂ :=
    separated_keeps [','] (fun hl ha => ha.mono hl (Nat.le_refl _)) fun d hd =>
      (h .expression d).imp fun _ _ _ hn => hn.before hd
  refine .bind (.optional list) fun arguments _ h₃ ha => .bind .layout fun _ _ h₄ _ => ?_
  refine .bind (.symbol _) fun _ d h₅ _ => .pure ?_
  have all := between.trans (h₃.trans (h₄.trans h₅))
  refine ⟨⟨Nat.le_refl _, all.le, Nat.le_refl _⟩, all.meets, ?_⟩
  cases arguments with
  | none => exact all.le
  | some arguments =>
      exact (ha arguments rfl).widen (fun hn => hn.before between) between.le (h₄.trans h₅).le

omit h in
theorem prefixMark_keeps : KeepsAt (fun mark d => mark.Within c c.offset d.offset) prefixMark c :=
  .spanned (.bind (.orElse (operator_keeps _ _ _) (operator_keeps _ _ _)) fun _ _ h₁ _ =>
    .pure ⟨⟨Nat.le_refl _, h₁.le, Nat.le_refl _⟩, (Cursor.Onto.refl c).meets⟩)

omit h in
theorem literal_keeps {α : Type} {p : Parser α} (hp : KeepsAt (fun _ _ => True) p c)
    (build : α → Literal) : KeepsAt (Spans c) (literal p build) c :=
  .spanned (.bind hp fun _ _ h₁ _ => .pure (spans_of_children h₁ rfl rfl h₁.le))

theorem primary_keeps : KeepsAt (Spans c) (primary (parserAt fuel)) c := by
  have number : KeepsAt (fun _ _ => True) number c := .rule (.scan fun _ _ e => by
    obtain ⟨⟨n, d⟩, hn, e⟩ := Option.map_eq_some_iff.mp e
    cases e
    exact ⟨Token.onto_numeral? hn, trivial⟩)
  have string : KeepsAt (fun _ _ => True) string c :=
    .rule (.scan fun _ _ e => ⟨Token.onto_string? e, trivial⟩)
  have identifier : KeepsAt (Spans c) identifier c :=
    .spanned (.bind name_keeps fun _ _ h₁ _ => .pure (spans_of_children h₁ rfl rfl h₁.le))
  have parenthesised : KeepsAt (Spans c) (parenthesised (parserAt fuel)) c := by
    refine .bind (.symbol _) fun _ _ h₁ _ => .bind .layout fun _ _ h₂ _ => ?_
    refine .bind (h .expression _) fun n _ _ hn => .bind .layout fun _ _ h₄ _ => ?_
    exact .bind (.symbol _) fun _ _ h₅ _ => .pure (hn.widen (h₁.trans h₂) (h₄.trans h₅))
  refine .choice ?_
  simp only [List.forall_mem_cons, List.not_mem_nil, false_imp_iff, forall_const, and_true]
  exact ⟨literal_keeps number _, literal_keeps string _, literal_keeps (words_keep _ _) _,
    literal_keeps (words_keep _ _) _, literal_keeps (words_keep _ _) _, identifier, parenthesised⟩

theorem operandExpression_keeps : KeepsAt (Spans c) (operandExpression (parserAt fuel)) c := by
  have marks : KeepsAt (fun marks d => Spread (PrefixMark.Within c) c.offset d.offset marks)
      (many prefixMark) c :=
    .many fun d hd => prefixMark_keeps.imp fun _ _ _ hm => ⟨hm.bounds, hm.start.before hd⟩
  refine .bind marks fun marks _ h₁ hm => .bind .layout fun _ _ h₂ _ => ?_
  refine .bind (primary_keeps h) fun n _ h₃ hn => .bind .layout fun _ d h₄ _ => ?_
  have front := h₁.trans h₂
  have behind := front.trans (h₃.trans h₄)
  have calls : KeepsAt (fun calls e => Spread (ArgumentList.Within c) d.offset e.offset calls)
      (many (argumentList (parserAt fuel))) d :=
    .many fun e he => (argumentList_keeps h).imp fun args _ _ ha =>
      have hce := behind.trans he
      ⟨ha.bounds, ha.stop.before hce,
        ha.arguments.widen (fun hn => hn.before hce) (Nat.le_refl _) (Nat.le_refl _)⟩
  exact .bind calls fun calls _ _ hc => .pure
    (within_operand hm h₂.le (within_calls ((hn.before front).mono (Nat.le_refl _) h₄.le) hc))

omit h in
theorem infixOperator_keeps : KeepsAt (fun _ _ => True) infixOperator c :=
  .choice (by simp [operator_keeps])

theorem binary_keeps : KeepsAt (Spans c) (binary (parserAt fuel)) c := by
  refine .rule (.bind (operandExpression_keeps h) fun first d h₁ hf => .bind .layout fun _ d₂ h₂ _ => ?_)
  have other (e : Cursor) (he : c.Onto e) :
      KeepsAt (fun (p : Infix × Node) g => p.2.Within c e.offset g.offset)
        (do
          let op ← infixOperator
          Parser.layout
          return (op, ← operandExpression (parserAt fuel))) e :=
    .bind infixOperator_keeps fun _ _ g₁ _ => .bind .layout fun _ _ g₂ _ =>
      .bind (operandExpression_keeps h) fun _ g _ hn => .pure
        ((hn.widen (g₁.trans g₂) (.refl g)).before he)
  refine .bind (.many (A := fun l m p => Node.Within c l m p.2) fun e he =>
    other e ((h₁.trans h₂).trans he)) fun others _ _ ho => .pure ?_
  exact Chain.Within.toNode ⟨d₂.offset, hf.mono (Nat.le_refl _) h₂.le, ho⟩

theorem conditional_keeps : KeepsAt (Spans c) (conditional (parserAt fuel)) c := by
  refine .rule (.spanned (.bind (binary_keeps h) fun test e₁ h₁ ht => .bind .layout fun _ d h₂ _ => ?_))
  have both : KeepsAt (fun p e => Spread (Node.Within d) d.offset e.offset [p.1, p.2])
      (do
        symbol ['?']
        Parser.layout
        let consequent ← (parserAt fuel).expression
        Parser.layout
        symbol [':']
        Parser.layout
        return (consequent, ← (parserAt fuel).expression)) d := by
    refine .bind (.symbol _) fun _ _ g₁ _ => .bind .layout fun _ _ g₂ _ => ?_
    refine .bind (h .expression _) fun _ _ g₃ hc => .bind .layout fun _ _ g₄ _ => ?_
    refine .bind (.symbol _) fun _ _ g₅ _ => .bind .layout fun _ _ g₆ _ => ?_
    refine .bind (h .expression _) fun _ e g₇ ha => .pure ?_
    have front := g₁.trans g₂
    have between := g₄.trans (g₅.trans g₆)
    exact hc.cons front (.one between.le (ha.before (front.trans (g₃.trans between))) (Nat.le_refl _))
  refine .bind (.optional both) fun branches e h₃ hb => .pure ?_
  cases branches with
  | none => exact ht.widen (.refl c) (h₂.trans h₃)
  | some b =>
      have branches := (hb b rfl).widen (fun hn => hn.before (h₁.trans h₂)) h₂.le (Nat.le_refl _)
      exact spans_of_children (h₁.trans (h₂.trans h₃)) rfl rfl (ht.cons (.refl c) branches)

theorem expression_keeps : KeepsAt (Spans c) (expression (parserAt fuel)) c := by
  refine .rule (.choice ?_)
  simp only [List.forall_mem_cons, List.not_mem_nil, false_imp_iff, forall_const, and_true]
  exact ⟨arrowFunction_keeps h, assignment_keeps h, conditional_keeps h⟩

omit h in
theorem endOfInput_keeps : KeepsAt (fun _ d => d.rest = []) endOfInput c := by
  refine .rule fun f hf => ⟨hf, fun _ _ e => ?_⟩
  split at e
  next hr =>
    cases e
    exact ⟨.refl _, List.isEmpty_iff.mp hr⟩
  next => cases e

/-- A script spans all that is left of the text. -/
theorem script_keeps :
    KeepsAt (fun n d => Spans c n d ∧ n.span = ⟨c.offset, c.stop⟩) (script (parserAt fuel)) c := by
  refine .rule (.spanned (.bind .layout fun _ _ h₁ _ => .bind (statements_keep h) fun ss _ h₂ hss => ?_))
  refine .bind .layout fun _ _ h₃ _ => .bind endOfInput_keeps fun _ d h₄ hd => .pure ?_
  have whole := h₁.trans (h₂.trans (h₃.trans h₄))
  refine ⟨spans_of_children whole rfl rfl
    (hss.widen (fun hn => hn.before h₁) h₁.le (h₃.trans h₄).le), ?_⟩
  rw [← whole.stop, Cursor.stop, hd]
  rfl

end Rules

/-- **Whatever is nested reads in its place.** -/
theorem parserAt_keeps : ∀ fuel, (parserAt fuel).Keeps
  | 0 => fun _ _ => .fail
  | fuel + 1 => fun what c => by
      cases what with
      | expression => exact expression_keeps (parserAt_keeps fuel)
      | statement => exact statement_keeps (parserAt_keeps fuel)

theorem stop_start (source : String) : (Cursor.start source).stop = source.utf8ByteSize := by
  simp [Cursor.stop, Cursor.start, bytes_toList]

/-- **All spans of a script are nested in its text, and the script spans all of it.** -/
theorem parse_spans {source : String} {n : Node} (h : parse source = .ok n) :
    n.Within (.start source) 0 source.utf8ByteSize ∧ n.span = ⟨0, source.utf8ByteSize⟩ := by
  have keeps := script_keeps (c := .start source) (parserAt_keeps (nestings source)) .none
    (Nat.zero_le _)
  rw [parse_eq] at h
  split at h
  next n' d f e =>
    cases h
    rw [e] at keeps
    obtain ⟨hd, hn, hs⟩ := keeps.2 n d rfl
    rw [stop_start] at hs
    exact ⟨hn.mono (Nat.zero_le _) (stop_start source ▸ hd.stop ▸ d.offset_le_stop), hs⟩
  next => cases h

theorem parse_within {source : String} {n : Node} (h : parse source = .ok n) :
    n.Within (.start source) 0 source.utf8ByteSize := (parse_spans h).1

/-- The place where reading failed lies in the text. -/
theorem parse_error_within {source : String} {failure : Failure} (h : parse source = .error failure) :
    ∃ offset expected, failure = .unexpected offset expected ∧ offset ≤ source.utf8ByteSize := by
  have keeps := script_keeps (c := .start source) (parserAt_keeps (nestings source)) .none
    (Nat.zero_le _)
  rw [parse_eq] at h
  split at h
  next => cases h
  next f e =>
    cases h
    rw [e] at keeps
    exact ⟨_, _, rfl, stop_start source ▸ keeps.1⟩

end Nondet.Grammar
