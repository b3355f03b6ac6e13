import Nondet.Grammar.Rule

/-!
# Grammar — Farthest

What is remembered of failed attempts: the farthest offset at which a rule failed, and the rules
that failed there.  Nothing is forgotten on backtracking.  A rule that fails where it started
takes the place of the rules tried inside it, unless exactly one of them was recorded: then that
one says more than the rule around it.
-/

namespace Nondet.Grammar

/-- The farthest offset of a failure, and the rules that failed there, the last one first. -/
structure Farthest where
  offset : Nat
  rules : List Rule
  deriving DecidableEq, Repr, Inhabited

namespace Farthest

/-- Before anything was tried. -/
def none : Farthest := ⟨0, []⟩

/-- How many rules are recorded at an offset. -/
def count (f : Farthest) (offset : Nat) : Nat := if f.offset = offset then f.rules.length else 0

/-- Records that `rule` failed at `offset`, where `before` rules were recorded when it began. -/
def record (f : Farthest) (rule : Rule) (offset before : Nat) : Farthest :=
  if f.count offset = before + 1 then f
  else if f.offset = offset then ⟨offset, rule :: f.rules.drop (f.rules.length - before)⟩
  else if f.offset < offset then ⟨offset, [rule]⟩
  else f

/-- The recorded rules in the order of the grammar, each once. -/
def expected (f : Farthest) : List Rule := Rule.all.filter (· ∈ f.rules)

/-- Recording never moves the offset back. -/
theorem offset_le_record (f : Farthest) (rule : Rule) (offset before : Nat) :
    f.offset ≤ (f.record rule offset before).offset := by
  unfold record
  split
  · exact Nat.le_refl _
  · split
    · next h => exact Nat.le_of_eq h
    · split
      · next h => exact Nat.le_of_lt h
      · exact Nat.le_refl _

end Farthest

end Nondet.Grammar
