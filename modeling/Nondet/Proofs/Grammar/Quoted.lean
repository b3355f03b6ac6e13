import Nondet.Proofs.Grammar.Statements
import Nondet.Proofs.Text.Quoted

/-!
# Grammar — Quoted

The reader on a text that was written between quotes.  No character that is written there ends the
string early (`string?_quoteWith`), so the whole of it is one token, and with a semicolon behind it a
script of one statement (`parse_quoteWith`).
-/

namespace Nondet.Grammar

open Text Token

variable {hidden : Char → Bool} {r : List Char}

/-- A character that is written between quotes is taken whole. -/
theorem contents?_escapeChar (c : Char) (taken : List Char) (o : Nat) : ∃ o',
    contents? '"' taken (escapeChar hidden c ++ r) o =
      contents? '"' ((escapeChar hidden c).reverse ++ taken) r o' := by
  cases h : isNumbered hidden c with
  | true =>
      have tail : ∀ x ∈ (numeral c).tail, x ≠ '"' ∧ x ≠ '\\' := fun x hx =>
        numeral_plain c x (List.mem_of_mem_tail hx)
      obtain ⟨o', rest⟩ := contents?_stretch tail ('u' :: '\\' :: taken) (o + 1 + 'u'.utf8Size)
      refine ⟨o', ?_⟩
      rw [escapeChar_of_isNumbered h]
      exact rest.trans (by simp [numeral])
  | false =>
      rcases escapeChar_cases h with ⟨y, -, -, e⟩ | ⟨hq, hb, e⟩
      · rw [e]
        exact ⟨_, rfl⟩
      · rw [e]
        exact contents?_stretch (List.forall_mem_singleton.mpr ⟨hq, hb⟩) taken o

theorem writes_escapeChar : Writes '"' (escapeChar hidden) (readChar hidden) where
  whole c taken _ o := contents?_escapeChar c taken o
  back c _ := unescape_escapeChar c

/-- **The string ends where the text does**, and no character of the text ends it early. -/
theorem string?_quoteWith {s : String} {c : Cursor} (h : c.rest = (quoteWith hidden s).toList ++ r) :
    ∃ d, string? c = some (readBack hidden s, d) ∧ d.rest = r := by
  rw [quoteWith, String.toList_ofList, List.cons_append, List.append_assoc] at h
  exact writes_escapeChar.string? (.inl rfl) h

theorem quotes_quoteWith (hidden : Char → Bool) (s : String) :
    Quotes (quoteWith hidden s).toList (readBack hidden s) :=
  have ⟨d, hs, hd⟩ := string?_quoteWith (r := []) (c := ⟨(quoteWith hidden s).toList, 0⟩)
    (List.append_nil _).symm
  ⟨d, hs, hd⟩

/-- What begins with none of these is in front of no layout. -/
theorem layout_of_first {c : Cursor} {x : Char} (h : c.rest = x :: r)
    (hx : x ∉ [' ', '\t', '\r', '\n', '/']) : c.layout = c := by
  have blank : Cursor.isSpace x = false := by
    rw [← Bool.not_eq_true]
    exact fun hs => hx (List.mem_append_left ['/'] (Cursor.isSpace_iff.mp hs))
  have comment {xs : List Char} : ¬ '/' :: xs <+: c.rest := fun hp =>
    hx ((List.cons_prefix_cons.mp (h ▸ hp)).1 ▸ by decide)
  exact Cursor.layout_of_none (Cursor.skip?_eq_none h blank comment comment)

/-- A text in quotes and the semicolon behind it are two tokens. -/
theorem spells_quoteWith (hidden : Char → Bool) (s : String) :
    (Cursor.start (quoteWith hidden s ++ ";")).Spells [(quoteWith hidden s).toList, [';']] := by
  have text : (Cursor.start (quoteWith hidden s ++ ";")).rest = (quoteWith hidden s).toList ++ [';'] :=
    String.toList_append
  obtain ⟨d, hs, hd⟩ := string?_quoteWith text
  obtain ⟨e, he, hr⟩ := Cursor.literal?_append (hd.trans (List.append_nil [';']).symm)
  have begins : ∃ xs, (quoteWith hidden s).toList = '"' :: xs := ⟨_, String.toList_ofList⟩
  obtain ⟨xs, begins⟩ := begins
  have first : (Cursor.start (quoteWith hidden s ++ ";")).rest = '"' :: (xs ++ [';']) := by
    rw [text, begins, List.cons_append]
  have layout := layout_of_first first (by decide)
  have layout' := layout_of_first hd (by decide)
  refine .cons (d := d) ?_ (by rw [layout, text, hd])
    (.cons (d := e) ?_ (by rw [layout', hd, hr]; rfl) ?_)
  · rw [layout, token?_string first (.inl rfl), hs]
    rfl
  · rw [layout']
    exact token?_of_whole (by decide) (by decide) he
  · exact ⟨e, .nil, by simpa [hr] using e.layout_suffix⟩

/-- **A text in quotes with a semicolon behind it is a script of one string.** -/
theorem parse_quoteWith (hidden : Char → Bool) (s : String) :
    ∃ program, parse (quoteWith hidden s ++ ";") = .ok program ∧ program.spanless =
      .program .zero [.expressionStatement .zero (.literal .zero (.string (readBack hidden s)))] := by
  let text : Unit → List Lexeme := fun _ => [(quoteWith hidden s).toList] ++ [[';']]
  let node : Unit → Node := fun _ =>
    .expressionStatement .zero (.literal .zero (.string (readBack hidden s)))
  have value : Binds 0 (.literal .zero (.string (readBack hidden s))) [(quoteWith hidden s).toList] :=
    Binds.of_primary (Primary.string (quotes_quoteWith hidden s)) 0
  have read : ∀ x ∈ [()], Statement (node x) false (text x) :=
    List.forall_mem_singleton.mpr (Statement.expressionStatement value)
  exact parse_of_spells read (spells_quoteWith hidden s)

end Nondet.Grammar
