import Nondet.Proofs.Grammar.Spans

/-!
# Grammar — Nested

What the spans of a tree tell of its text.  Every offset at which a node begins or ends is one
between two characters, children lie in their parents and one behind the other, and a function spans
what its node does, which is exactly the stretch that was taken for it (`spans_nest`).  Parentheses leave no trace, layout may
stand at the end of a stretch, and operands are joined to longer ones; none of this makes two
stretches cross.
-/

namespace Nondet

open Grammar

/-- A rule for functions, at some place of the text, takes the function and comes to the end of the
stretch. -/
def Function.Fills (source : String) (f : Function) (s : Span) : Prop :=
  ∃ (c d : Cursor) (n : Node), (Cursor.start source).Onto c ∧ n.TakenAsFunction c d ∧
    n.function? = some f ∧ s = ⟨c.offset, d.offset⟩

/-- The offset of a place of the text is between two characters. -/
theorem Grammar.Cursor.Meets.isValid {source : String} {offset : Nat}
    (h : (Cursor.start source).Meets offset) : (⟨offset⟩ : String.Pos.Raw).IsValid source := by
  obtain ⟨d, ⟨before, hr, ho⟩, rfl⟩ := h
  refine String.Pos.Raw.isValid_iff_exists_append.mpr
    ⟨String.ofList before, String.ofList d.rest, ?_, ?_⟩
  · rw [← String.ofList_append, ← hr]
    exact String.ofList_toList.symm
  · have size : (String.ofList before).utf8ByteSize = bytes before := by
      rw [← bytes_toList, String.toList_ofList]
    rw [ho, String.rawEndPos, size]
    exact congrArg String.Pos.Raw.mk (Nat.zero_add _)

/-- **Spans nest.**  A script spans its whole text.  Every node of it spans a stretch of the text,
from a boundary between characters to another; its children lie in the stretch, in their order and
without a common character; and the span of a function is that of its node, which is the stretch that
was taken for the function. -/
theorem spans_nest {source : String} {program : Node} (h : parse source = .ok program) :
    program.span = ⟨0, source.utf8ByteSize⟩ ∧
      ∀ n, program.Part n →
        (n.span.start ≤ n.span.stop ∧ n.span.stop ≤ source.utf8ByteSize) ∧
        ((⟨n.span.start⟩ : String.Pos.Raw).IsValid source ∧
          (⟨n.span.stop⟩ : String.Pos.Raw).IsValid source) ∧
        (∀ m ∈ n.children, n.span.start ≤ m.span.start ∧ m.span.stop ≤ n.span.stop) ∧
        (n.children.Pairwise fun a b => a.span.stop ≤ b.span.start) ∧
        ∀ f, n.function? = some f → f.span = n.span ∧ f.Fills source n.span := by
  obtain ⟨within, whole⟩ := parse_spans h
  refine ⟨whole, fun n hn => ?_⟩
  obtain ⟨⟨-, hle, hstop⟩, ⟨start, stop, function⟩, encloses, apart⟩ := within n hn
  refine ⟨⟨hle, hstop⟩, ⟨start.isValid, stop.isValid⟩, encloses, apart, fun f hf => ?_⟩
  obtain ⟨c, d, hc, taken, hs⟩ := function (hf ▸ rfl)
  exact ⟨Node.span_of_function? hf, c, d, n, hc, taken, hf, hs⟩

/-- The rule for a text with characters of two bytes and a function before whose end a blank
stands. -/
theorem spans_nest_beside_wide_characters :
    ∃ program n f, parse "let s = 'é'; let f = (a) => -(a) ; // ü" = .ok program ∧
      program.span = ⟨0, 41⟩ ∧ program.Part n ∧ n.function? = some f ∧ f.span = ⟨22, 34⟩ ∧
      f.Fills "let s = 'é'; let f = (a) => -(a) ; // ü" ⟨22, 34⟩ := by
  have read : (parse "let s = 'é'; let f = (a) => -(a) ; // ü").toOption.any (fun program =>
      program.children[1]?.any fun s => s.children[0]?.any fun n =>
        n.function?.isSome && n.span == ⟨22, 34⟩) = true := by decide +kernel
  cases h : parse "let s = 'é'; let f = (a) => -(a) ; // ü" with
  | error failure =>
      rw [h] at read
      cases read
  | ok program =>
      rw [h] at read
      obtain ⟨p, e, read⟩ := (Option.any_eq_true _ _).mp read
      cases e
      obtain ⟨s, hs, read⟩ := (Option.any_eq_true _ _).mp read
      obtain ⟨n, hn, read⟩ := (Option.any_eq_true _ _).mp read
      obtain ⟨hf, span⟩ := Bool.and_eq_true_iff.mp read
      obtain ⟨f, hf⟩ := Option.isSome_iff_exists.mp hf
      obtain ⟨whole, parts⟩ := spans_nest h
      have part : program.Part n :=
        .head (List.mem_of_getElem? hs) (.head (List.mem_of_getElem? hn) .refl)
      obtain ⟨-, -, -, -, function⟩ := parts n part
      exact ⟨program, n, f, rfl, whole, part, hf, eq_of_beq span ▸ function f hf⟩

end Nondet
