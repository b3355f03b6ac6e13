import Nondet.Proofs.Grammar.Print
import Nondet.Proofs.Grammar.Written

/-!
# Grammar — Begins

How the lexemes of an expression begin.  An expression is tried as a function and as an assignment
before it is tried as anything else, and both begin with names: what stands behind a first name, or
behind a name in parentheses, tells them apart (`Stops`, `Apart`).  `Begins` is what the first two
lexemes of an expression must be for that, when the expression is put in parentheses.
-/

namespace Nondet.Grammar

open Nondet.Grammar.Parser

variable {s : String} {ts te u v : List Lexeme}

theorem IsName.leads (h : IsName s) (u : List Lexeme) :
    Leads (fun x => Token.isWordStart x) (s.toList :: u) :=
  have ⟨x, xs, e, hx⟩ := h.start
  ⟨x, xs, u, e ▸ rfl, hx⟩

theorem IsName.leadWord (h : IsName s) (u : List Lexeme) : leadWord (s.toList :: u) = s :=
  leadWord_name h.chars u

/-! ### Lists in parentheses -/

section Listed

variable {ι α : Type} {p : Parser α} {text : ι → List Lexeme} {R : ι → α → Prop}

/-- What may stand behind a part of a list. -/
def Parts (u : List Lexeme) : Prop := Leads (· ∈ [',', ')']) u

/-- Items with commas between them, up to a closing parenthesis. -/
theorem Reads.listed (hr : ∀ v, Rejects p ([')'] :: v)) : ∀ {xs : List ι},
    (∀ x ∈ xs, ∀ v, Parts v → Reads p (text x ++ v) v (R x)) → ∀ v,
    Reads (Parser.optional (separated [','] p)) (inCommas (xs.map text) ++ [')'] :: v) ([')'] :: v)
      fun o => List.Forall₂ R xs (o.getD [])
  | [], _, v =>
    (Reads.optional_none (.bind_left (hr v))).imp fun o ho => by
      rw [ho]
      exact .nil
  | x :: xs, h, v => by
      have closing : Parts ([')'] :: v) := ⟨')', [], v, rfl, by simp⟩
      have separator (v : List Lexeme) : Parts ([','] :: v) := ⟨',', [], v, rfl, by simp⟩
      have items := Reads.separated (.symbol_of_lead (by simp)) closing
        (Reads.symbol (by decide)) separator h
      rw [List.map_cons, inCommas, List.flatMap_map]
      exact (Reads.optional items).imp fun o ⟨as, e, has⟩ => e ▸ has

end Listed

/-- A parameter list reads as its names. -/
theorem reads_params {params : List String} (hp : ∀ p ∈ params, IsName p) (v : List Lexeme) :
    Reads Grammar.params (paramLexemes params ++ v) v (· = params) := by
  have no (v : List Lexeme) : Rejects name ([')'] :: v) := .name (.inl (by simp; decide))
  have each : ∀ p ∈ params, ∀ v, Parts v → Reads name ([p.toList] ++ v) v (p = ·) :=
    fun p hm v _ => (Reads.name (hp p hm) v).imp fun _ h => h.symm
  rw [paramLexemes, inParens, List.cons_append, List.append_assoc]
  refine .rule _ (.bind (.symbol (by decide) _) fun _ _ => .bind (Reads.listed no each v) fun o ho =>
    .map (.symbol (by decide) _) fun _ _ => ?_)
  rw [List.forall₂_eq_eq_eq] at ho
  exact ho.symm

/-! ### What stands behind a name -/

/-- Behind a name, neither a function nor an assignment goes on here. -/
structure Stops (v : List Lexeme) : Prop where
  noArrow : ¬ ['=', '>'] <+: joined v
  noAssign : ['='] <+: joined v → ['=', '='] <+: joined v

theorem Stops.of_lead (h : lead v ≠ some '=') : Stops v :=
  ⟨fun hp => h (lead_of_isPrefixed hp), fun hp => absurd (lead_of_isPrefixed hp) h⟩

/-- A name begins no function when no arrow is behind it. -/
theorem rejects_arrow (hs : IsName s) (hv : ¬ ['=', '>'] <+: joined v) :
    Rejects (arrowFunction reader) (s.toList :: v) := by
  have hp : lead (s.toList :: v) ≠ some '(' := (hs.leads v).ne (by decide)
  have one : Reads arrowParams (s.toList :: v) v fun _ => True :=
    .orElse_right (.rule _ (.bind_left (.symbol_of_lead hp))) (.map (.name hs v) fun _ _ => trivial)
  exact .rule _ (.spanned (.bind one fun _ _ => .bind_left (.symbol (by decide) hv)))

/-- No function and no assignment begins here. -/
structure Apart (ls : List Lexeme) : Prop where
  arrow : Rejects (arrowFunction reader) ls
  assign : Rejects (assignment reader) ls

namespace Apart

theorem of_params {ls : List Lexeme} (hn : Rejects Parser.name ls) (hp : Rejects params ls) :
    Apart ls where
  arrow := .rule _ (.spanned (.bind_left (.orElse hp (.bind_left hn))))
  assign := .rule _ (.spanned (.bind_left hn))

theorem of_name {ls : List Lexeme} (hn : Rejects Parser.name ls) (hp : lead ls ≠ some '(') :
    Apart ls := .of_params hn (.rule _ (.bind_left (.symbol_of_lead hp)))

theorem name (hs : IsName s) (hv : Stops v) : Apart (s.toList :: v) where
  arrow := rejects_arrow hs hv.noArrow
  assign := by
    refine .rule _ (.spanned (.bind (.name hs v) fun _ _ => ?_))
    by_cases he : ['=', '='] <+: joined v
    · exact .bind_left (.notNext (by decide) he)
    · exact .bind (.notNext (by decide) he) fun _ _ =>
        .bind_left (.symbol (by decide) fun hp => he (hv.noAssign hp))

end Apart

/-! ### How an expression begins -/

/-- The words that begin a statement, or a part of one. -/
def statementWords : List String := ["function", "return", "if", "else", "let", "const", "var"]

/-- The lexemes begin with a name, and not as a parameter list; or with something else that begins
no statement and closes nothing. -/
inductive Begins : List Lexeme → Prop
  | name {s ls} (hs : IsName s) (hls : ls = [] ∨ Leads (· ∉ [',', ')']) ls) :
      Begins (s.toList :: ls)
  | other {x xs ls} (hn : ∀ u, Rejects name ((x :: xs) :: u))
      (hw : leadWord [x :: xs] ∉ statementWords) (hx : x ∉ ['{', '}', ')', ';']) :
      Begins ((x :: xs) :: ls)

namespace Begins

theorem append (h : Begins ts) (hu : u = [] ∨ Leads (· ∉ [',', ')']) u) : Begins (ts ++ u) := by
  cases h with
  | name hs hls =>
      rcases hls with rfl | hls
      · exact .name hs hu
      · exact .name hs (.inr (hls.append u))
  | other hn hw hx => exact .other hn hw hx

theorem leads (h : Begins ts) (u : List Lexeme) :
    Leads (· ∉ ['{', '}', ')', ';']) (ts ++ u) := by
  cases h with
  | name hs _ =>
      refine (hs.leads _).imp fun x hx hm => ?_
      have none : ∀ x ∈ ['{', '}', ')', ';'], ¬ Token.isWordStart x := by decide
      exact none x hm hx
  | @other x xs ls _ _ hx => exact ⟨x, xs, ls ++ u, rfl, hx⟩

theorem leadWord (h : Begins ts) (u : List Lexeme) : leadWord (ts ++ u) ∉ statementWords := by
  cases h with
  | name hs _ =>
      have sub : ∀ w ∈ statementWords, w ∈ Token.reserved := by decide
      rw [List.cons_append, hs.leadWord]
      exact fun hm => hs.unreserved (sub _ hm)
  | other _ hw _ =>
      rw [List.cons_append, leadWord_cons]
      rwa [leadWord_cons] at hw

/-- In parentheses, too, no function and no assignment begins. -/
theorem inParens (h : Begins te) (hv : Stops v) : Apart (inParens te ++ v) := by
  have noName : Rejects Parser.name (Grammar.inParens te ++ v) := .name (.inl fun x hx => by
    cases hx
    rfl)
  cases h with
  | @name s ls hs hls =>
      rcases hls with rfl | hls
      · -- One name in parentheses is a parameter list, but no arrow is behind it.
        have list : Reads params (paramLexemes [s] ++ v) v (· = [s]) :=
          reads_params (by simpa using hs) v
        exact ⟨.rule _ (.spanned (.bind (.orElse_left list) fun _ _ =>
          .bind_left (.symbol (by decide) hv.noArrow))), .rule _ (.spanned (.bind_left noName))⟩
      · have behind := hls.append ([')'] :: v)
        have names : Reads (separated [','] Parser.name) (s.toList :: (ls ++ [')'] :: v))
            (ls ++ [')'] :: v) fun _ => True :=
          .bind (.name hs _) fun _ _ =>
            .map (.many_nil (.bind_left (.symbol_of_lead (behind.ne (by simp))))) fun _ _ => trivial
        rw [Grammar.inParens, List.cons_append, List.append_assoc] at noName ⊢
        exact .of_params noName (.rule _ (.bind (.symbol (by decide) _) fun _ _ => .bind (.optional names)
          fun _ _ => .bind_left (.symbol_of_lead (behind.ne (by simp)))))
  | @other x xs ls hn _ hx =>
      rw [Grammar.inParens, List.cons_append, List.append_assoc] at noName ⊢
      refine .of_params noName (.rule _ (.bind (.symbol (by decide) _) fun _ _ => .bind (.optional_none
        (.bind_left (hn _))) fun _ _ => .bind_left (.symbol_of_lead ?_)))
      rintro ⟨⟩
      exact hx (by simp)

end Begins

end Nondet.Grammar
