/-!
# Tree — Span

The stretch of text a node was read from.  Offsets count bytes of the text's UTF-8 form, from zero;
both ends belong to the stretch when one asks whether an offset lies in it.
-/

namespace Nondet

/-- A stretch of text, from the byte offset `start` up to the byte offset `stop`. -/
structure Span where
  start : Nat
  stop : Nat
  deriving DecidableEq, Repr, Inhabited

namespace Span

/-- The empty stretch at the beginning of a text. -/
def zero : Span := ⟨0, 0⟩

/-- The empty stretch at an offset. -/
def point (offset : Nat) : Span := ⟨offset, offset⟩

/-- From the beginning of one stretch to the end of another. -/
def through (first last : Span) : Span := ⟨first.start, last.stop⟩

/-- Both ends count, so that a caret behind the last character is still inside. -/
def contains (s : Span) (offset : Nat) : Bool := s.start ≤ offset && offset ≤ s.stop

/-- The two offsets with two dots between them. -/
def text (s : Span) : String := toString s.start ++ ".." ++ toString s.stop

theorem contains_iff {s : Span} {offset : Nat} :
    s.contains offset = true ↔ s.start ≤ offset ∧ offset ≤ s.stop := by
  simp [contains]

@[simp] theorem start_through (a b : Span) : (a.through b).start = a.start := rfl

@[simp] theorem stop_through (a b : Span) : (a.through b).stop = b.stop := rfl

end Span

end Nondet
