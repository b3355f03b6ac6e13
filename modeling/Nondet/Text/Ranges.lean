/-!
# Text — Ranges

Classes of characters given by the ranges of their code points, both ends included.
-/

namespace Nondet.Text

/-- The ranges of a class of characters. -/
abbrev Ranges := List (Nat × Nat)

namespace Ranges

/-- A character is in a class when its code point lies in one of the ranges. -/
def has (table : Ranges) (c : Char) : Bool :=
  table.any fun r => r.1 ≤ c.toNat && c.toNat ≤ r.2

theorem has_iff {table : Ranges} {c : Char} :
    table.has c = true ↔ ∃ r ∈ table, r.1 ≤ c.toNat ∧ c.toNat ≤ r.2 := by
  simp [has]

end Ranges

end Nondet.Text
