import Nondet.Proofs.Grammar.Lexeme
import Nondet.Proofs.Tree.Every
import Nondet.Proofs.Tree.Spanless

/-!
# Grammar — Print

The printed form of a tree: its tokens with a space between each two.  An expression stands in
parentheses where one that binds more tightly is needed, and wherever else the style wants them; the
style also says how numbers are written, and in which quotes a string stands.
-/

namespace Nondet

namespace Node

/-- Whether the node is an expression. -/
def isExpression : Node → Bool
  | .literal _ _ | .identifier _ _ | .call _ _ _ | .unary _ _ _ | .binary _ _ _ _ | .logical _ _ _ _
  | .conditional _ _ _ _ | .assignment _ _ _ | .arrowFunction _ _ _ _ _ => true
  | _ => false

/-- How tightly an expression binds: choices, assignments and functions the least, what is written
as one token the most. -/
def tightness : Node → Nat
  | .logical _ .or _ _  => 1
  | .logical _ .and _ _ => 2
  | .binary _ op _ _    =>
    match op with
    | .strictEq | .strictNe  => 3
    | .lt | .le | .gt | .ge  => 4
    | .add | .sub            => 5
    | .mul | .div | .rem     => 6
  | .unary _ _ _        => 7
  | .call _ _ _         => 8
  | .literal _ _ | .identifier _ _ => 9
  | _                   => 0

end Node

namespace Grammar

/-- How a tree is written where the grammar leaves a choice. -/
structure Style where
  /-- The text of a number. -/
  number : Float → String
  /-- Whether a string stands in single quotes. -/
  single : String → Bool
  /-- Whether an expression stands in parentheses that it does not need. -/
  extra : Node → Bool

/-- Lexemes in parentheses. -/
def inParens (ls : List Lexeme) : List Lexeme := ['('] :: (ls ++ [[')']])

/-- Lexemes with a comma between each two lists of them. -/
def inCommas : List (List Lexeme) → List Lexeme
  | []          => []
  | ls :: others => ls ++ others.flatMap ([','] :: ·)

/-- A parameter list. -/
def paramLexemes (params : List String) : List Lexeme :=
  inParens (inCommas (params.map fun p => [p.toList]))

namespace Style

variable (s : Style)

/-- A value as a token. -/
def literal : Literal → Lexeme
  | .number x  => (s.number x).toList
  | .string t  => quoted (if s.single t then '\'' else '"') t
  | .bool b    => (if b then "true" else "false").toList
  | .null      => "null".toList
  | .undefined => "undefined".toList

/-- The lexemes of a node where what stands there binds at least as tightly as `k`. -/
def enclose (k : Nat) (n : Node) (ls : List Lexeme) : List Lexeme :=
  if n.isExpression && (n.tightness < k || s.extra n) then inParens ls else ls

mutual

/-- The lexemes of a node where what stands there binds at least as tightly as `k`. -/
def lexemes (k : Nat) (n : Node) : List Lexeme :=
  s.enclose k n <|
    match n with
    | .literal _ value => [s.literal value]
    | .identifier _ name => [name.toList]
    | .call _ callee arguments => lexemes 8 callee ++ inParens (inCommas (lexemesEach arguments))
    | .unary _ op argument => op.symbol.toList :: lexemes 7 argument
    | .binary span op left right =>
      lexemes (Node.tightness (.binary span op left right)) left ++ op.symbol.toList ::
        lexemes (Node.tightness (.binary span op left right) + 1) right
    | .logical span op left right =>
      lexemes (Node.tightness (.logical span op left right)) left ++ op.symbol.toList ::
        lexemes (Node.tightness (.logical span op left right) + 1) right
    | .conditional _ test consequent alternate =>
      lexemes 1 test ++ ['?'] :: lexemes 0 consequent ++ [':'] :: lexemes 0 alternate
    | .assignment _ name value => name.toList :: ['='] :: lexemes 0 value
    | .arrowFunction _ _ params _ body => paramLexemes params ++ ['=', '>'] :: lexemes 0 body
    | .functionDeclaration _ name params _ body =>
      "function".toList :: (name.toList.map String.toList ++ paramLexemes params ++ lexemes 0 body)
    | .variableDeclaration _ keyword name init =>
      keyword.text.toList :: name.toList :: ['='] :: (lexemes 0 init ++ [[';']])
    | .ifStatement _ test consequent alternate =>
      "if".toList :: (inParens (lexemes 0 test) ++ lexemes 0 consequent ++
        ((lexemesOption alternate).map ("else".toList :: ·)).getD [])
    | .returnStatement _ argument =>
      "return".toList :: ((lexemesOption argument).getD [] ++ [[';']])
    | .block _ statements => ['\x7b'] :: ((lexemesEach statements).flatten ++ [['\x7d']])
    | .expressionStatement _ expression => lexemes 0 expression ++ [[';']]
    | .program _ statements => (lexemesEach statements).flatten

/-- The lexemes of every node of a list. -/
def lexemesEach : List Node → List (List Lexeme)
  | []      => []
  | n :: ns => lexemes 0 n :: lexemesEach ns

/-- The lexemes of a node that may be missing. -/
def lexemesOption : Option Node → Option (List Lexeme)
  | none   => none
  | some n => some (lexemes 0 n)

end

@[simp] theorem lexemesEach_eq_map : ∀ ns : List Node, s.lexemesEach ns = ns.map (s.lexemes 0)
  | []      => rfl
  | n :: ns => congrArg (s.lexemes 0 n :: ·) (lexemesEach_eq_map ns)

@[simp] theorem lexemesOption_eq_map : ∀ n : Option Node, s.lexemesOption n = n.map (s.lexemes 0)
  | none   => rfl
  | some _ => rfl

/-- A block stands in no parentheses. -/
theorem lexemes_block (k : Nat) (span : Span) (ns : List Node) :
    s.lexemes k (.block span ns) =
      ['\x7b'] :: ((ns.map (s.lexemes 0)).flatten ++ [['\x7d']]) := by
  rw [lexemes, lexemesEach_eq_map]
  rfl

theorem lexemes_program (k : Nat) (span : Span) (ns : List Node) :
    s.lexemes k (.program span ns) = (ns.map (s.lexemes 0)).flatten := by
  rw [lexemes, lexemesEach_eq_map]
  rfl

/-- A tree as a text. -/
def print (n : Node) : String := String.ofList ([' '].intercalate (s.lexemes 0 n))

/-- Numbers in the tree are written as texts that stand for them. -/
def Faithful (n : Node) : Prop :=
  n.Every fun m => ∀ x span, m = .literal span (.number x) → ReadsBack (s.number x) x

/-- Spans make no difference to the numbers in a tree. -/
theorem faithful_spanless {n : Node} : s.Faithful n.spanless ↔ s.Faithful n := by
  induction n using Node.of_children with
  | h n ih =>
      have here : (∀ x span, n.spanless = .literal span (.number x) → ReadsBack (s.number x) x) ↔
          ∀ x span, n = .literal span (.number x) → ReadsBack (s.number x) x := by
        cases n <;> simp [Node.spanless]
      rw [Faithful, Faithful, Node.every_iff, Node.every_iff, here, Node.children_spanless,
        List.forall_mem_map]
      exact and_congr_right fun _ => forall₂_congr ih

end Style

end Grammar

end Nondet
