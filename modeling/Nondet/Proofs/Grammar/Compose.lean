import Nondet.Proofs.Grammar.Derives
import Nondet.Proofs.Grammar.Gaps

/-!
# Grammar — Compose

Texts of scripts put together.  A script is told from its tokens (`parse_spelled`, `parse_of_spelled`),
and tokens stay the same when a blank parts the last of them from what is behind it.  So a gap can be
put behind any token of a script (`parse_insert`), and one script behind another (`parse_append`).
-/

namespace Nondet.Grammar

open Cursor

/-- **Layout does not matter.**  The tokens of a script make up its text.  At the beginning of the text
or directly behind any token there can be a gap that begins with a blank, however it ends: the text is
read as the same tree up to spans. -/
theorem parse_insert {source : String} {program : Node} (h : parse source = .ok program) :
    (∃ ts, (start source).Spells ts) ∧
      ∀ {ls : List Lexeme} {d : Cursor} {before gap : List Char}, (start source).Reaches ls d →
        source.toList = before ++ d.rest → Gap gap → (∃ x ∈ gap.head?, isSpace x) →
          ∃ program', parse (String.ofList (before ++ gap ++ d.rest)) = .ok program' ∧
            program'.spanless = program.spanless := by
  obtain ⟨span, ss, ts, rfl, hts, hss⟩ := parse_spelled h
  refine ⟨⟨ts, hts⟩, fun {ls d before gap} hd split hg first => ?_⟩
  obtain ⟨us, rfl, hus⟩ := hd.behind hts
  have parted : Parted (gap ++ d.rest) := by
    obtain ⟨x, hx, hs⟩ := first
    intro y hy
    rw [List.head?_append, hx] at hy
    cases hy
    exact hs
  have beside : Beside d.rest (gap ++ d.rest) (start source)
      (start (String.ofList (before ++ gap ++ d.rest))) :=
    ⟨before, split, by simp [start]⟩
  obtain ⟨d', hd', hb⟩ := beside.reaches parted hd (Nat.le_refl _)
  obtain ⟨program', hp, hs⟩ := parse_of_spelled (hd'.spells hg (hb.rest_eq rfl) hus) hss
  exact ⟨program', hp, by rw [hs, Node.spanless, Node.spanlessEach_eq_map]⟩

/-- A comment behind the sign of a division. -/
theorem parse_insert_quotient : ∃ program, parse "a/b;" = .ok program ∧
    (start "a/b;").Reaches [['a'], ['/']] ⟨['b', ';'], 2⟩ ∧ Gap " // half\n".toList ∧
      ∃ program', parse "a/ // half\nb;" = .ok program' ∧ program'.spanless = program.spanless := by
  have read : (parse "a/b;").isOk := by decide +kernel
  have tokens : (start "a/b;").Reaches [['a'], ['/']] ⟨['b', ';'], 2⟩ :=
    .cons (d := ⟨['/', 'b', ';'], 1⟩) (by decide +kernel) (by decide +kernel)
      (.cons (by decide +kernel) (by decide +kernel) .nil)
  have comment : Gap ('/' :: '/' :: (" half".toList ++ '\n' :: [])) := .line (by decide) .nil
  have gap : Gap " // half\n".toList := .blank rfl comment
  have split : "a/b;".toList = ['a', '/'] ++ ['b', ';'] := by decide
  have text : String.ofList (['a', '/'] ++ " // half\n".toList ++ ['b', ';']) = "a/ // half\nb;" := by
    decide
  cases hp : parse "a/b;" with
  | error failure =>
      rw [hp] at read
      cases read
  | ok program =>
      have inserted := (parse_insert hp).2 tokens split gap ⟨' ', by decide⟩
      rw [text] at inserted
      exact ⟨program, rfl, tokens, gap, inserted⟩

/-- **One script behind another**, with the end of a line between them: its statements are those of
the first one and then those of the second one, up to spans. -/
theorem parse_append {p q : String} {n m : Node} (hn : parse p = .ok n) (hm : parse q = .ok m) :
    ∃ span ss span' ss' span'' ss'', n = .program span ss ∧ m = .program span' ss' ∧
      parse (p ++ "\n" ++ q) = .ok (.program span'' ss'') ∧
        ss''.map Node.spanless = ss.map Node.spanless ++ ss'.map Node.spanless := by
  obtain ⟨span, ss, ts, rfl, ⟨d, hd, none⟩, hss⟩ := parse_spelled hn
  obtain ⟨span', ss', us, rfl, hus, hss'⟩ := parse_spelled hm
  have parted : Parted ('\n' :: q.toList) := by
    rintro _ ⟨⟩
    rfl
  have beside : Beside [] ('\n' :: q.toList) (start p) (start (p ++ "\n" ++ q)) :=
    ⟨p.toList, (List.append_nil _).symm, by simp [start]⟩
  obtain ⟨d', hd', y, e, e'⟩ := beside.reaches parted hd (Nat.zero_le _)
  -- What is behind the last token of the first script is a gap with the end of the line.
  have gap : d'.rest = (d.rest ++ ['\n']) ++ (start q).rest := by
    rw [e', e, List.append_nil, List.append_assoc]
    rfl
  obtain ⟨program, hp, hs⟩ := parse_of_spelled (hd'.spells (gap_of_layout none) gap hus)
    (Parser.Items.append hss hss')
  obtain ⟨span'', ss'', rfl, -⟩ := parse_program hp
  refine ⟨span, ss, span', ss', span'', ss'', rfl, rfl, hp, ?_⟩
  rw [Node.spanless, Node.spanlessEach_eq_map, List.map_append] at hs
  exact (Node.program.inj hs).2

/-- A script that ends with a comment, and one that begins as arguments do. -/
theorem parse_append_comment : ∃ n m, parse "if (a) b; // last" = .ok n ∧ parse "(c);" = .ok m ∧
    ∃ span ss span' ss' span'' ss'', n = .program span ss ∧ m = .program span' ss' ∧
      parse "if (a) b; // last\n(c);" = .ok (.program span'' ss'') ∧
        ss''.map Node.spanless = ss.map Node.spanless ++ ss'.map Node.spanless := by
  have first : (parse "if (a) b; // last").isOk := by decide +kernel
  have second : (parse "(c);").isOk := by decide +kernel
  have text : "if (a) b; // last" ++ "\n" ++ "(c);" = "if (a) b; // last\n(c);" := by decide
  cases hn : parse "if (a) b; // last" with
  | error failure =>
      rw [hn] at first
      cases first
  | ok n =>
      cases hm : parse "(c);" with
      | error failure =>
          rw [hm] at second
          cases second
      | ok m =>
          have both := parse_append hn hm
          rw [text] at both
          exact ⟨n, m, rfl, rfl, both⟩

end Nondet.Grammar
