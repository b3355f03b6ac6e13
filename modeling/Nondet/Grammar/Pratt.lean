import Nondet.Grammar.Failure
import Nondet.Grammar.Pair

/-!
# Grammar — Pratt

Operator precedence by the method of Pratt.  A chain is operands with operators before, between and
behind them, one after the other.  Each operator has a power; an operand that stands between two
operators goes to the one that binds more tightly, and to the left one if both are the same.  The
operators whose right operand is not complete yet wait on a list, the innermost first.
-/

namespace Nondet.Grammar

/-- Where an operator stands. -/
inductive Affix where
  | before
  | between
  | behind
  deriving DecidableEq, Repr

/-- The operators by their place and the rules that stand for them, those that bind the least tightly
first. -/
def affixes : List (Affix × List Rule) :=
  [(.between, [.or]), (.between, [.and]), (.between, [.strictEq, .strictNe]),
    (.between, [.lt, .le, .gt, .ge]), (.between, [.add, .sub]), (.between, [.mul, .div, .rem]),
    (.before, [.neg, .not]), (.behind, [.call])]

/-- Where an operator stands and how tightly it binds. -/
def Rule.power? (r : Rule) : Option (Affix × Nat) :=
  go 10 affixes
where
  go (power : Nat) : List (Affix × List Rule) → Option (Affix × Nat)
    | []                 => none
    | (affix, rs) :: ops => if r ∈ rs then some (affix, power) else go (power + 10) ops

/-- What the operands and the operators of a chain stand for. -/
structure Fold (α : Type) where
  operand : Pair → α
  before : Pair → α → α
  between : α → Pair → α → α
  behind : α → Pair → α

/-- An operator that waits for its right operand. -/
structure Waiting (α : Type) where
  power : Nat
  complete : α → α

namespace Waiting

variable {α : Type}

/-- The operand goes to the operators that bind it at least as tightly as what comes next does. -/
def settle (next : Nat) : List (Waiting α) → α → List (Waiting α) × α
  | [],      a => ([], a)
  | w :: ws, a => if w.power < next then (w :: ws, a) else settle next ws (w.complete a)

end Waiting

namespace Fold

variable {α : Type}

/-- The rest of a chain, with the operand that was read last if one was.  At a chain out of order the
program breaks off.  The right operand of a prefix operator may hold operators of its own power, that
of an operator between two operands may not. -/
def rest (fold : Fold α) :
    List (Waiting α) → Option α → List Pair → Except Failure α
  | _,       none,   []      => .error (.custom "Pratt parsing expects non-empty Pairs" .zero)
  | waiting, none,   p :: ps =>
    match p.rule.power? with
    | some (.before, power) => fold.rest (⟨power - 1, fold.before p⟩ :: waiting) none ps
    | none                  => fold.rest waiting (some (fold.operand p)) ps
    | some _                => .error (.custom "Expected prefix or primary expression" p.span)
  | waiting, some a, []      => .ok (Waiting.settle 0 waiting a).2
  | waiting, some a, p :: ps =>
    match p.rule.power? with
    | some (.between, power) =>
      let (waiting, a) := Waiting.settle power waiting a
      fold.rest (⟨power, fold.between a p⟩ :: waiting) none ps
    | some (.behind, power)  =>
      let (waiting, a) := Waiting.settle power waiting a
      fold.rest waiting (some (fold.behind a p)) ps
    | some (.before, _)      => .error (.custom "Expected postfix or infix expression" p.span)
    | none                   => .error (.custom "Expected operator" p.span)

/-- What a chain stands for. -/
def chain (fold : Fold α) (ps : List Pair) : Except Failure α := fold.rest [] none ps

end Fold

end Nondet.Grammar
