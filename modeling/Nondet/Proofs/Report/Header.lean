import Nondet.Report
import Nondet.Native
import Nondet.Proofs.Grammar.Offsets
import Nondet.Proofs.Report.Lines
import Nondet.Proofs.Session.Dialogue

/-!
# Report — Header

The position that a report names, below its message.  The span is handed to the drawing library as it
is, which reads the bounds as counts of characters (`names_report_iff`), and a span counts bytes.  So
the character that is named is the one with that number, and it is the one that the span begins at only
where every character before it takes one byte (`report_names_position`).
-/

namespace Nondet.Report

/-- The line of a report that names a position. -/
def Position.row (p : Position) (width : Nat) : Row :=
  [.blank width] ++ Piece.each .frame ['╭', '─', '[']
    ++ [.plain (" <program>:" ++ toString p.line ++ ":" ++ toString p.column ++ " "), ⟨.frame, "]"⟩]

/-- A text is the report of a diagnostic with a position named right below the message. -/
def Names (coloured : Bool) (d : Diagnostic) (report : String) (p : Position) : Prop :=
  ∃ width rest, report =
    d.drawing.header.render coloured ++ "\n" ++ ((p.row width).render coloured ++ "\n" ++ rest)

/-! ### Rendered lines -/

theorem render_append (coloured : Bool) (r s : Row) :
    Row.render coloured (r ++ s) = Row.render coloured r ++ Row.render coloured s := by
  simp [Row.render]

/-- What stands in front of a position. -/
def corner (coloured : Bool) : List Char :=
  (Row.render coloured (Piece.each .frame ['╭', '─', '['])).toList

/-- What stands behind a position. -/
def bracket (coloured : Bool) : List Char := (Row.render coloured [⟨.frame, "]"⟩]).toList

theorem corner_eq_cons (coloured : Bool) :
    ∃ c cs, corner coloured = c :: cs ∧ (c == ' ') = false := by
  cases coloured
  · exact ⟨'╭', ['─', '['], by decide, rfl⟩
  · exact ⟨'\x1b', (corner true).tail, by decide, rfl⟩

theorem toList_render_row (coloured : Bool) (p : Position) (width : Nat) :
    ((p.row width).render coloured).toList =
      List.replicate width ' ' ++ (corner coloured ++ (" <program>:".toList
        ++ (Nat.toDigits 10 p.line ++ ':' :: (Nat.toDigits 10 p.column ++ ' ' :: bracket coloured)))) := by
  have blanks : (Row.render coloured [.blank width]).toList = List.replicate width ' ' := by
    cases coloured <;> simp [Row.render, Piece.render, Piece.blank, Paint.opening, Paint.closing]
  have middle : (Row.render coloured [.plain (" <program>:" ++ toString p.line ++ ":" ++
      toString p.column ++ " ")]).toList = " <program>:".toList
        ++ (Nat.toDigits 10 p.line ++ ':' :: (Nat.toDigits 10 p.column ++ [' '])) := by
    cases coloured <;>
      simp [Row.render, Piece.render, Piece.plain, Paint.opening, Paint.closing]
  rw [Position.row, ← List.singleton_append (x := Piece.plain _), render_append, render_append,
    render_append, String.toList_append, String.toList_append, String.toList_append, blanks, middle,
    corner, bracket]
  simp

/-! ### One position is named -/

/-- Characters of a kind end where one of another kind stands. -/
theorem append_cons_inj {kind : Char → Bool} {xs ys xs' ys' : List Char} {c c' : Char}
    (hxs : ∀ x ∈ xs, kind x) (hxs' : ∀ x ∈ xs', kind x) (hc : kind c = false) (hc' : kind c' = false)
    (h : xs ++ c :: ys = xs' ++ c' :: ys') : xs = xs' ∧ c :: ys = c' :: ys' := by
  have taken := congrArg (List.takeWhile kind) h
  rw [List.takeWhile_append_of_pos hxs, List.takeWhile_append_of_pos hxs',
    List.takeWhile_cons_of_neg (by simp [hc]), List.takeWhile_cons_of_neg (by simp [hc']),
    List.append_nil, List.append_nil] at taken
  subst taken
  exact ⟨rfl, List.append_cancel_left h⟩

/-- A number is told from its digits, up to a character that is none. -/
theorem digits_append_cons_inj {m n : Nat} {c : Char} {ys ys' : List Char} (hc : c.isDigit = false)
    (h : Nat.toDigits 10 m ++ c :: ys = Nat.toDigits 10 n ++ c :: ys') : m = n ∧ ys = ys' := by
  have digits (n : Nat) : ∀ x ∈ Nat.toDigits 10 n, x.isDigit := fun _ hx =>
    Nat.isDigit_of_mem_toDigits (by decide) (by decide) hx
  obtain ⟨same, behind⟩ := append_cons_inj (digits m) (digits n) hc hc h
  refine ⟨?_, List.tail_eq_of_cons_eq behind⟩
  rw [← Nat.ofDigitChars_ten_toDigits (n := m), same, Nat.ofDigitChars_ten_toDigits]

/-- A report names one position. -/
theorem Names.unique {coloured : Bool} {d : Diagnostic} {report : String} {p q : Position}
    (hp : Names coloured d report p) (hq : Names coloured d report q) : p = q := by
  obtain ⟨width, rest, e⟩ := hp
  obtain ⟨width', rest', e'⟩ := hq
  have rows := congrArg String.toList ((String.append_right_inj _).mp (e.symm.trans e'))
  obtain ⟨c, cs, head, hc⟩ := corner_eq_cons coloured
  have blank (width : Nat) : ∀ x ∈ List.replicate width ' ', (x == ' ') = true := fun x hx => by
    simp [(List.mem_replicate.mp hx).2]
  simp only [String.toList_append, toList_render_row, head, List.append_assoc, List.cons_append]
    at rows
  have behind := List.tail_eq_of_cons_eq (append_cons_inj (blank _) (blank _) hc hc rows).2
  have numbers := List.append_cancel_left (List.append_cancel_left behind)
  obtain ⟨line, numbers⟩ := digits_append_cons_inj (by decide) numbers
  obtain ⟨column, -⟩ := digits_append_cons_inj (by decide) numbers
  exact congr (congrArg Position.mk line) column

/-! ### What is named -/

variable {coloured : Bool} {d : Diagnostic} {source : String}

/-- A span is drawn when its bounds, read as counts of characters, are of the text; that it ends right
behind the text is allowed. -/
theorem map_of?_eq (span : Span) (source : List Char) :
    (Layout.of? span source).map (fun l => l.top.position l.first) =
      if span.start ≤ source.length ∧ span.stop ≤ source.length + 1 then
        some ((Line.find (Line.all source) span.start).position span.start)
      else none := by
  split
  next fits =>
    simp [Layout.of?]
    omega
  next outside =>
    simp [Layout.of?]
    omega

/-- A text that is drawn has the position below its message. -/
theorem names_of_layout {l : Layout} (h : Layout.of? d.span source.toList = some l) :
    Names coloured d (d.report coloured source) (l.top.position l.first) := by
  obtain ⟨rest, e⟩ : ∃ rest, d.drawing.rows source =
      d.drawing.header :: (l.top.position l.first).row (l.numberWidth + 2) :: rest := by
    rw [Drawing.rows, Diagnostic.drawing, h]
    exact ⟨_, rfl⟩
  refine ⟨l.numberWidth + 2, String.join (rest.map fun row => row.render coloured ++ "\n"), ?_⟩
  rw [Diagnostic.report, Drawing.draw, e, List.map_cons, List.map_cons, String.join_cons,
    String.join_cons]

/-- Without a layout there is only the message. -/
theorem not_names_of_none {p : Position} (h : Layout.of? d.span source.toList = none) :
    ¬Names coloured d (d.report coloured source) p := by
  rintro ⟨width, rest, e⟩
  rw [Diagnostic.report, Drawing.draw, Drawing.rows, Diagnostic.drawing, h, List.map_cons,
    String.join_cons] at e
  have nothing := congrArg String.toList ((String.append_right_inj _).mp e)
  simp at nothing

/-- A report names the position of the offset that the span begins at, as the lines give it, if the
span is drawn. -/
theorem names_report_iff {p : Position} :
    Names coloured d (d.report coloured source) p ↔
      (d.span.start ≤ source.length ∧ d.span.stop ≤ source.length + 1) ∧
        (Line.find (Line.all source.toList) d.span.start).position d.span.start = p := by
  have named : Names coloured d (d.report coloured source) p ↔
      (Layout.of? d.span source.toList).map (fun l => l.top.position l.first) = some p := by
    cases h : Layout.of? d.span source.toList with
    | none => exact iff_of_false (not_names_of_none h) nofun
    | some l =>
        have here : Names coloured d (d.report coloured source) (l.top.position l.first) :=
          names_of_layout h
        rw [Option.map_some, Option.some.injEq]
        exact ⟨here.unique, fun e => e ▸ here⟩
  rw [named, map_of?_eq, Option.ite_none_right_eq_some, Option.some.injEq, String.length_toList]

/-- There are as many bytes as characters when each character takes one, and otherwise there are
more. -/
theorem length_le_bytes (cs : List Char) : cs.length ≤ Grammar.bytes cs := by
  induction cs with
  | nil => exact Nat.le_refl 0
  | cons x xs ih =>
      have := x.utf8Size_pos
      simp only [Grammar.bytes, List.length_cons]
      omega

theorem bytes_eq_length_iff {cs : List Char} :
    Grammar.bytes cs = cs.length ↔ ∀ x ∈ cs, x.utf8Size = 1 := by
  induction cs with
  | nil => exact iff_of_true rfl nofun
  | cons x xs ih =>
      have one := x.utf8Size_pos
      have more := length_le_bytes xs
      rw [List.forall_mem_cons, ← ih, Grammar.bytes, List.length_cons]
      omega

/-- **The position that is named.**  Of an error whose span begins at `ch`, the report names a
position when the bounds of the span, read as counts of characters, are of the text, and it is that of
the character with the number of the first bound.  That is `ch` exactly when every character before
`ch` takes one byte. -/
theorem report_names_position {e : Error} {before after : List Char} {ch : Char}
    (drawn : e = .parse d source ∨ e = .runtime d source)
    (text : source.toList = before ++ ch :: after)
    (starts : d.span.start = Grammar.bytes before) (coloured : Bool) :
    ((∃ p, Names coloured d (e.report coloured) p) ↔
      d.span.start ≤ source.length ∧ d.span.stop ≤ source.length + 1) ∧
    (d.span.start < source.length → d.span.stop ≤ source.length + 1 →
      Names coloured d (e.report coloured) (.ofIndex d.span.start source.toList)) ∧
    (Names coloured d (e.report coloured) (.ofIndex before.length source.toList) ↔
      (∀ x ∈ before, x.utf8Size = 1) ∧ d.span.stop ≤ source.length + 1) := by
  have report : e.report coloured = d.report coloured source := by
    rcases drawn with rfl | rfl <;> rfl
  have length : source.length = before.length + (after.length + 1) := by
    rw [← String.length_toList, text, List.length_append, List.length_cons]
  simp only [report, names_report_iff]
  refine ⟨⟨fun ⟨_, h⟩ => h.1, fun h => ⟨_, h, rfl⟩⟩, fun lt stop => ?_, ?_⟩
  · exact ⟨⟨by omega, stop⟩, Line.position_find_all (by rwa [String.length_toList])⟩
  · have here : (Line.find (Line.all source.toList) before.length).position before.length =
        .ofIndex before.length source.toList :=
      Line.position_find_all (by rw [String.length_toList]; omega)
    rw [← bytes_eq_length_iff, ← starts, ← here]
    constructor
    · rintro ⟨⟨-, stop⟩, same⟩
      exact ⟨Line.position_find_inj same, stop⟩
    · rintro ⟨same, stop⟩
      rw [same]
      exact ⟨⟨by omega, stop⟩, rfl⟩

/-- Behind a character of two bytes the report of a name that is not declared names the column behind
the first one of the name; before such a character it names the column of the name. -/
theorem report_names_position_accent :
    ∃ d d' s s', (Session.start ⟨.standard, true⟩ Prelude.host).take 40 1 "\"é\"; nope;" =
        some (.error (.runtime d "\"é\"; nope;"), s) ∧
      (Session.start ⟨.standard, true⟩ Prelude.host).take 40 1 "nope; \"é\";" =
        some (.error (.runtime d' "nope; \"é\";"), s') ∧
      Names false d (Error.report false (.runtime d "\"é\"; nope;")) ⟨1, 7⟩ ∧
      ¬Names false d (Error.report false (.runtime d "\"é\"; nope;")) ⟨1, 6⟩ ∧
      Names false d' (Error.report false (.runtime d' "nope; \"é\";")) ⟨1, 1⟩ := by
  have run (source : String) (span : Span)
      (h : (Trial.error? ((Session.start ⟨.standard, true⟩ Prelude.host).take 40 1 source)).any
        (·.1 == .runtime (.ofMistake (.undefined "nope") span) source) = true) :
      ∃ s, (Session.start ⟨.standard, true⟩ Prelude.host).take 40 1 source =
        some (.error (.runtime (.ofMistake (.undefined "nope") span) source), s) := by
    obtain ⟨⟨e, s⟩, taken, he⟩ := (Option.any_eq_true _ _).mp h
    obtain rfl := eq_of_beq he
    exact ⟨s, Trial.of_error? taken⟩
  obtain ⟨s, h⟩ := run "\"é\"; nope;" ⟨6, 10⟩ (by decide +kernel)
  obtain ⟨s', h'⟩ := run "nope; \"é\";" ⟨0, 4⟩ (by decide +kernel)
  have text : "\"é\"; nope;".toList = ['"', 'é', '"', ';', ' '] ++ 'n' :: ['o', 'p', 'e', ';'] :=
    String.toList_ofList
  have text' : "nope; \"é\";".toList = [] ++ 'n' :: ['o', 'p', 'e', ';', ' ', '"', 'é', '"', ';'] :=
    String.toList_ofList
  have starts : (Diagnostic.ofMistake (.undefined "nope") ⟨6, 10⟩).span.start =
      Grammar.bytes ['"', 'é', '"', ';', ' '] := by decide
  have starts' : (Diagnostic.ofMistake (.undefined "nope") ⟨0, 4⟩).span.start =
      Grammar.bytes [] := rfl
  obtain ⟨-, numbered, here⟩ := report_names_position (.inr rfl) text starts false
  obtain ⟨-, -, here'⟩ := report_names_position (.inr rfl) text' starts' false
  refine ⟨_, _, s, s', h, h', numbered (by decide) (by decide), fun named => ?_, ?_⟩
  · exact absurd ((here.mp named).1 'é' (by decide)) (by decide)
  · exact here'.mpr ⟨List.forall_mem_nil _, by decide⟩

end Nondet.Report
