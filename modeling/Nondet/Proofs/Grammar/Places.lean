import Nondet.Proofs.Grammar.Written
import Nondet.Proofs.Grammar.Spans

/-!
# Grammar — Places

Which nodes stand where.  The tree does not keep statements, expressions and scripts apart, but every
child of a node stands in a place for one of them (`Node.places`), and the reader puts nothing else
there.  A node is in order when what is below it stands in its place, when a function has the name and
the body that its kind of function has, and when all names that are written in it are names
(`Node.InOrder`).  Reading a text ends with a tree in which everything is in order, or with what was
expected instead (`parse_in_order`).
-/

namespace Nondet

/-- What a node can be. -/
inductive Kind where
  | expression
  | statement
  | script
  deriving DecidableEq, Repr

namespace Node

/-- What the node is. -/
def kind : Node → Kind
  | .variableDeclaration _ _ _ _ | .functionDeclaration _ _ _ _ _ | .ifStatement _ _ _ _
  | .returnStatement _ _ | .block _ _ | .expressionStatement _ _ => .statement
  | .program _ _ => .script
  | _            => .expression

/-- What the body of a function is. -/
def bodyKind : BodyForm → Kind
  | .block      => .statement
  | .expression => .expression

/-- The nodes directly below, each with what belongs in its place. -/
def places : Node → List (Kind × Node)
  | .literal _ _ | .identifier _ _          => []
  | .call _ callee arguments                =>
    (.expression, callee) :: arguments.map (.expression, ·)
  | .unary _ _ a                            => [(.expression, a)]
  | .binary _ _ l r | .logical _ _ l r      => [(.expression, l), (.expression, r)]
  | .conditional _ t c a                    =>
    [(.expression, t), (.expression, c), (.expression, a)]
  | .variableDeclaration _ _ _ n            => [(.expression, n)]
  | .assignment _ _ n                       => [(.expression, n)]
  | .functionDeclaration _ _ _ form body    => [(bodyKind form, body)]
  | .arrowFunction _ _ _ form body          => [(bodyKind form, body)]
  | .ifStatement _ t c a                    =>
    (.expression, t) :: (.statement, c) :: a.toList.map (.statement, ·)
  | .returnStatement _ a                    => a.toList.map (.expression, ·)
  | .block _ ss | .program _ ss             => ss.map (.statement, ·)
  | .expressionStatement _ e                => [(.expression, e)]

/-- Every node directly below stands in a place. -/
theorem map_snd_places (n : Node) : n.places.map Prod.snd = n.children := by
  cases n <;> simp [places, children, Function.comp_def]

/-- The names that are written in the node itself: of what it stands for, declares or assigns to, and
of parameters. -/
def names : Node → List String
  | .identifier _ name | .variableDeclaration _ _ name _ | .assignment _ name _ => [name]
  | .functionDeclaration _ name params _ _ | .arrowFunction _ name params _ _ =>
    name.toList ++ params
  | _ => []

/-- A function that is declared has a name and a block for a body.  One that is written with an arrow
has no name, and its body is a block or an expression, as its form says. -/
def FunctionInOrder : Node → Prop
  | .functionDeclaration _ name _ form body =>
    name.isSome ∧ form = .block ∧ ∃ span ss, body = .block span ss
  | .arrowFunction _ name _ form body =>
    name = none ∧ match form with
      | .block      => ∃ span ss, body = .block span ss
      | .expression => body.kind = .expression
  | _ => True

/-- What is written at the node is as it has to be. -/
structure InOrder (n : Node) : Prop where
  places : ∀ p ∈ n.places, p.2.kind = p.1
  function : n.FunctionInOrder
  names : ∀ x ∈ n.names, Grammar.IsName x

end Node

namespace Grammar

open Node

/-- What belongs where an expression or a statement is read. -/
def Nested.kind : Nested → Kind
  | .expression => .expression
  | .statement  => .statement

/-- What is written as an expression is one, and what is written as a statement is one. -/
theorem Written.kind {what : Nested} {n : Node} (h : Written what n) : n.kind = what.kind := by
  cases h <;> rfl

/-- What is written is in order. -/
theorem Written.inOrder {what : Nested} {n : Node} (h : Written what n) : n.InOrder := by
  have each {what : Nested} {ns : List Node} (h : ∀ n ∈ ns, Written what n) :
      ∀ p ∈ ns.map (what.kind, ·), p.2.kind = p.1 := by
    intro p hp
    obtain ⟨n, hn, rfl⟩ := List.mem_map.mp hp
    exact (h n hn).kind
  have toList {what : Nested} {n : Option Node} (h : ∀ m ∈ n, Written what m) :
      ∀ m ∈ n.toList, Written what m := fun m hm => h m (Option.mem_toList.mp hm)
  cases h with
  | literal => exact ⟨nofun, trivial, nofun⟩
  | identifier hn => exact ⟨nofun, trivial, List.forall_mem_singleton.mpr hn⟩
  | call hc ha =>
      exact ⟨List.forall_mem_cons.mpr ⟨hc.kind, each ha⟩, trivial, nofun⟩
  | unary ha | expressionStatement ha =>
      exact ⟨List.forall_mem_singleton.mpr ha.kind, trivial, nofun⟩
  | binary hl hr | logical hl hr =>
      exact ⟨List.forall_mem_cons.mpr ⟨hl.kind, List.forall_mem_singleton.mpr hr.kind⟩, trivial, nofun⟩
  | conditional ht hc ha =>
      exact ⟨List.forall_mem_cons.mpr ⟨ht.kind, List.forall_mem_cons.mpr
        ⟨hc.kind, List.forall_mem_singleton.mpr ha.kind⟩⟩, trivial, nofun⟩
  | assignment hn hv | variableDeclaration hn hv =>
      exact ⟨List.forall_mem_singleton.mpr hv.kind, trivial, List.forall_mem_singleton.mpr hn⟩
  | arrowExpression hp hb => exact ⟨List.forall_mem_singleton.mpr hb.kind, ⟨rfl, hb.kind⟩, hp⟩
  | arrowBlock hp hss => exact ⟨List.forall_mem_singleton.mpr rfl, ⟨rfl, _, _, rfl⟩, hp⟩
  | functionDeclaration hn hp hss =>
      exact ⟨List.forall_mem_singleton.mpr rfl, ⟨rfl, rfl, _, _, rfl⟩,
        List.forall_mem_cons.mpr ⟨hn, hp⟩⟩
  | ifStatement ht hc ha hd =>
      exact ⟨List.forall_mem_cons.mpr ⟨ht.kind, List.forall_mem_cons.mpr
        ⟨hc.kind, each (toList ha)⟩⟩, trivial, nofun⟩
  | returnStatement ha => exact ⟨each (toList ha), trivial, nofun⟩
  | block hss => exact ⟨each hss, trivial, nofun⟩

/-- **Reading a text ends with a tree that is in order, or with what was expected instead.**  The tree
is that of a script; every node in it is in order, and none but the first is a script. -/
theorem parse_in_order (source : String) :
    (∃ offset expected, parse source = .error (.unexpected offset expected) ∧
        offset ≤ source.utf8ByteSize) ∨
      ∃ span ss, parse source = .ok (.program span ss) ∧
        (∀ m, (Node.program span ss).Part m → m.InOrder) ∧
        ∀ m ∈ ss, ∀ p, m.Part p → p.kind ≠ .script := by
  cases hp : parse source with
  | error failure =>
      obtain ⟨offset, expected, rfl, hle⟩ := parse_error_within hp
      exact .inl ⟨offset, expected, rfl, hle⟩
  | ok program =>
      obtain ⟨span, ss, rfl, hss⟩ := parse_written hp
      have part {m p : Node} (hm : m ∈ ss) (hp : m.Part p) : ∃ what, Written what p :=
        (hss m hm).part hp
      refine .inr ⟨span, ss, rfl, fun m hm => ?_, fun m hm p hp => ?_⟩
      · rcases Relation.ReflTransGen.cases_head hm with rfl | ⟨s, hs, hm⟩
        · refine ⟨fun p hp => ?_, trivial, nofun⟩
          obtain ⟨s, hs, rfl⟩ := List.mem_map.mp hp
          exact (hss s hs).kind
        · obtain ⟨what, hw⟩ := part hs hm
          exact hw.inOrder
      · obtain ⟨what, hw⟩ := part hm hp
        rw [hw.kind]
        cases what <;> exact nofun

end Grammar

end Nondet
