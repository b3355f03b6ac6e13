import Nondet.Proofs.Grammar.Written
import Nondet.Proofs.Tree.Origin

/-!
# Tree — Declarations

Where declarations stand.  The grammar lets one stand wherever a statement may, also as the bare
branch of an `if`; there nobody hoists it.  In a script that keeps them to its lists of statements
(`Node.Listed`) whatever stands elsewhere is no declaration, and all declarations have a name, since
the grammar leaves none without (`Node.Listed.orderly`).
-/

namespace Nondet

/-- Whether evaluating the node completes a declaration. -/
def Node.isDeclaration : Node → Bool
  | .variableDeclaration _ _ _ _ | .functionDeclaration _ _ _ _ _ => true
  | _                                                             => false

/-- Whether the nodes below are a list of statements. -/
def Node.isList : Node → Bool
  | .block _ _ | .program _ _ => true
  | _                         => false

/-- Declarations stand in lists of statements and nowhere else. -/
def Node.Listed : Node → Prop := Node.Every fun n => ∀ m ∈ n.children, m.isDeclaration → n.isList

/-- No declaration stands right below the node, unless that is a list of statements. -/
def Node.lists (n : Node) : Bool := n.isList || n.children.all (!·.isDeclaration)

theorem Node.Listed.of_everyDown {n : Node} {depth : Nat} (h : n.everyDown Node.lists depth) :
    n.Listed := by
  intro k hk m hm hd
  rcases Bool.or_eq_true_iff.mp (Node.every_of_everyDown h k hk) with h | h
  · exact h
  · have free := List.all_eq_true.mp h m hm
    rw [hd] at free
    cases free

/-- Declarations stand in lists of statements and nowhere else, and each of them has a name. -/
def Node.Orderly : Node → Prop := Node.Every fun n =>
  (∀ m ∈ n.children, m.isDeclaration → n.isList) ∧ (n.isDeclaration → n.declaredName?.isSome)

/-- The node is orderly and declares nothing itself. -/
structure Node.Plain (n : Node) : Prop where
  orderly : n.Orderly
  declares : n.isDeclaration = false

/-- A function whose body is orderly.  What stands for the body of a function is no list of
statements itself. -/
def Function.Orderly (f : Function) : Prop := f.body.Plain

namespace Node

variable {n m : Node}

/-- What is no declaration declares no name. -/
theorem declaredName?_of_isDeclaration (h : n.isDeclaration = false) : n.declaredName? = none := by
  cases n <;> first | rfl | cases h

theorem Plain.declaredName? (h : n.Plain) : n.declaredName? = none :=
  declaredName?_of_isDeclaration h.declares

/-- Constants are plain. -/
theorem Plain.of_literal (span : Span) (value : Literal) : (literal span value).Plain :=
  ⟨every_iff.mpr ⟨⟨nofun, nofun⟩, nofun⟩, rfl⟩

namespace Orderly

/-- What stands in no list declares nothing. -/
theorem plain (h : n.Orderly) (hn : n.isList = false) (hm : m ∈ n.children) : m.Plain := by
  refine ⟨Every.child h hm, Bool.eq_false_iff.mpr fun hd => ?_⟩
  rw [(h.self : _ ∧ _).1 m hm hd] at hn
  cases hn

theorem statement (h : n.Orderly) (hm : m ∈ n.children) : m.Orderly := Every.child h hm

/-- An orderly declaration has a name. -/
theorem name (h : n.Orderly) (hn : n.isDeclaration) : n.declaredName?.isSome :=
  (h.self : _ ∧ _).2 hn

/-- A function that is written in orderly code is orderly. -/
theorem function {f : Function} (h : n.Orderly) (hf : n.function? = some f) : f.Orderly := by
  obtain ⟨-, hbody⟩ := opensScope_of_function? hf
  have hlist : n.isList = false := by cases n <;> first | rfl | cases hf
  exact h.plain hlist hbody

end Orderly

end Node

/-- What a call of an orderly function runs is orderly. -/
theorem Function.Orderly.statements {f : Function} (h : f.Orderly) : ∀ m ∈ f.statements, m.Orderly := by
  intro m hm
  rcases Function.mem_statements hm with rfl | hm | rfl
  · exact h.orderly
  · exact h.orderly.statement hm
  · refine Node.every_iff.mpr ⟨⟨fun m hm hd => ?_, nofun⟩, List.forall_mem_singleton.mpr h.orderly⟩
    obtain rfl := List.mem_singleton.mp hm
    rw [h.declares] at hd
    cases hd

namespace Grammar

/-- Declarations that can be read have names. -/
theorem Written.name {what : Nested} {n : Node} (h : Written what n) (hn : n.isDeclaration) :
    n.declaredName?.isSome := by
  cases h with
  | functionDeclaration _ _ _ | variableDeclaration _ _ => rfl
  | _ => cases hn

end Grammar

/-- Statements of a script that keeps its declarations to lists are orderly. -/
theorem Node.Listed.orderly {source : String} {n : Node} (h : n.Listed)
    (hp : Grammar.parse source = .ok n) : ∀ m ∈ n.children, m.Orderly := by
  obtain ⟨span, ss, rfl, hss⟩ := Grammar.parse_written hp
  intro m hm k hk
  obtain ⟨what, hw⟩ := (hss m hm).part hk
  exact ⟨Node.Every.child h hm k hk, hw.name⟩

end Nondet
