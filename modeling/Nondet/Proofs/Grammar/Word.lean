import Mathlib.Data.List.TakeWhile
import Nondet.Proofs.Grammar.Agree
import Nondet.Proofs.Text.Quoted

/-!
# Grammar — Word

What the scanners of single tokens take.  A token takes at least one character, but for a word that
is not there; what is read as a name is one (`IsName`).
-/

namespace Nondet.Grammar

/-- A word that names something. -/
structure IsName (s : String) : Prop where
  start : ∃ x xs, s.toList = x :: xs ∧ Token.isWordStart x
  chars : ∀ x ∈ s.toList, Token.isWordChar x
  unreserved : s ∉ Token.reserved

namespace Token

variable {α : Type} {c d : Cursor}

theorem word_fst (c : Cursor) : (word c).1 = String.ofList (c.rest.takeWhile isWordChar) :=
  congrArg String.ofList (c.takeWhile_fst isWordChar)

theorem rest_word (c : Cursor) : (word c).2.rest = c.rest.dropWhile isWordChar :=
  c.rest_takeWhile isWordChar

/-- The word and what is behind it. -/
theorem word_append (c : Cursor) : c.rest = (word c).1.toList ++ (word c).2.rest := by
  rw [word_fst, rest_word, String.toList_ofList, List.takeWhile_append_dropWhile]

/-- A word that has characters takes them. -/
theorem word_length (h : (word c).1 ≠ "") : (word c).2.rest.length < c.rest.length := by
  rw [rest_word]
  cases hc : c.rest with
  | nil => exact absurd (by rw [word_fst, hc]; rfl) h
  | cons x xs =>
      by_cases hx : isWordChar x
      · rw [List.dropWhile_cons_of_pos hx]
        exact Nat.lt_succ_of_le (List.dropWhile_suffix _).length_le
      · exact absurd (by rw [word_fst, hc, List.takeWhile_cons_of_neg hx]) h

theorem oneOf?_length {words : List (String × α)} (hw : words.lookup "" = none) {a : α}
    (h : oneOf? words c = some (a, d)) : d.rest.length < c.rest.length := by
  obtain ⟨a', hl, e⟩ := Option.map_eq_some_iff.mp h
  cases e
  refine word_length fun e => ?_
  have hl : words.lookup (word c).1 = some a := hl
  rw [e, hw] at hl
  cases hl

theorem isWordChar_of_isWordStart {x : Char} (h : isWordStart x) : isWordChar x := by
  simp only [isWordStart, isWordChar, Char.isAlphanum, Bool.or_eq_true] at h ⊢
  tauto

/-- A name is the word that comes next, if that is not reserved. -/
theorem name?_eq_some {s : String} (h : name? c = some (s, d)) :
    word c = (s, d) ∧ s ∉ reserved ∧ ∃ x xs, c.rest = x :: xs ∧ isWordStart x := by
  unfold name? at h
  split at h
  next x xs e =>
    split at h
    next hx =>
      simp only at h
      split at h
      next => cases h
      next hr =>
        cases h
        exact ⟨rfl, hr, x, xs, e, hx⟩
    next => cases h
  next => cases h

/-- What is read as a name is one. -/
theorem isName_of_name? {s : String} (h : name? c = some (s, d)) :
    IsName s ∧ d.rest.length < c.rest.length := by
  obtain ⟨e, hr, x, xs, hc, hx⟩ := name?_eq_some h
  obtain ⟨rfl, rfl⟩ : (word c).1 = s ∧ (word c).2 = d := Prod.ext_iff.mp e
  have hword : (word c).1.toList = x :: xs.takeWhile isWordChar := by
    rw [word_fst, String.toList_ofList, hc,
      List.takeWhile_cons_of_pos (isWordChar_of_isWordStart hx)]
  refine ⟨⟨⟨x, _, hword, hx⟩, fun y hy => ?_, hr⟩, word_length fun h => ?_⟩
  · rw [word_fst, String.toList_ofList] at hy
    exact List.mem_takeWhile_imp hy
  · rw [h] at hword
    cases hword

/-! ### Numbers and strings -/

theorem suffix_takeWhile (p : Char → Bool) (c : Cursor) : (c.takeWhile p).2.rest <:+ c.rest :=
  c.rest_takeWhile p ▸ List.dropWhile_suffix _

theorem suffix_literal? {text : List Char} (h : c.literal? text = some d) : d.rest <:+ c.rest :=
  ⟨text, (Cursor.rest_of_literal? h).symm⟩

theorem fraction?_suffix {digits : List Char} (h : fraction? c = some (digits, d)) :
    ∃ x xs, c.rest = x :: xs ∧ d.rest <:+ xs := by
  obtain ⟨c₁, h₁, h⟩ := Option.bind_eq_some_iff.mp h
  simp only at h
  split at h
  · cases h
  · cases h
    exact ⟨_, _, Cursor.rest_of_literal? h₁, suffix_takeWhile _ _⟩

theorem sign_suffix (c : Cursor) : (sign c).2.rest <:+ c.rest := by
  unfold sign
  split
  next d h => exact suffix_literal? h
  next =>
    cases h : c.literal? ['+'] with
    | none => exact List.suffix_rfl
    | some d => exact suffix_literal? h

theorem exponent?_suffix {size : Int} (h : exponent? c = some (size, d)) :
    ∃ x xs, c.rest = x :: xs ∧ d.rest <:+ xs := by
  obtain ⟨c₁, h₁, h⟩ := Option.bind_eq_some_iff.mp h
  have mark : ∃ x, c.rest = x :: c₁.rest := by
    cases he : c.literal? ['e'] with
    | none => exact ⟨_, Cursor.rest_of_literal? (by simpa [he] using h₁ : c.literal? ['E'] = some c₁)⟩
    | some d => exact ⟨_, Cursor.rest_of_literal? (by simpa [he] using h₁ : c.literal? ['e'] = some c₁)⟩
  obtain ⟨x, e⟩ := mark
  simp only at h
  split at h
  · cases h
  · cases h
    exact ⟨x, _, e, (suffix_takeWhile _ _).trans (sign_suffix c₁)⟩

/-- What is left behind the parts of a numeral that may be missing. -/
theorem suffix_getD {o : Option (α × Cursor)} (a : α)
    (h : ∀ a d, o = some (a, d) → ∃ x xs, c.rest = x :: xs ∧ d.rest <:+ xs) :
    (o.getD (a, c)).2.rest <:+ c.rest := by
  cases o with
  | none => exact List.suffix_rfl
  | some p =>
      obtain ⟨x, xs, e, hs⟩ := h p.1 p.2 rfl
      rw [e]
      exact hs.trans (List.suffix_cons _ _)

theorem numeral?_suffix {n : Decimal.Numeral} (h : numeral? c = some (n, d)) :
    d.rest <:+ (c.takeWhile Char.isDigit).2.rest := by
  unfold numeral? at h
  simp only at h
  split at h
  · cases h
  · cases h
    exact (suffix_getD _ fun _ _ => exponent?_suffix).trans (suffix_getD _ fun _ _ => fraction?_suffix)

theorem numeral?_length {n : Decimal.Numeral} (h : numeral? c = some (n, d)) :
    d.rest.length ≤ c.rest.length :=
  ((numeral?_suffix h).trans (suffix_takeWhile _ _)).length_le

theorem contents?_suffix (quote : Char) : ∀ {taken xs : List Char} {offset : Nat} {raw : List Char},
    contents? quote taken xs offset = some (raw, d) → d.rest <:+ xs := by
  intro taken xs offset raw h
  fun_induction contents? quote taken xs offset with
  | case1 => cases h
  | case2 taken offset x xs ih =>
      exact (ih h).trans ((List.suffix_cons _ _).trans (List.suffix_cons _ _))
  | case3 taken offset xs =>
      cases h
      exact List.suffix_cons _ _
  | case4 => cases h
  | case5 taken offset x xs _ _ _ ih => exact (ih h).trans (List.suffix_cons _ _)

/-- The quotes are taken, too. -/
theorem string?_suffix {s : String} (h : string? c = some (s, d)) : ∃ x xs, c.rest = x :: xs ∧
    d.rest <:+ xs := by
  unfold string? at h
  split at h
  next x xs e =>
    split at h
    next =>
      obtain ⟨p, hp, e'⟩ := Option.map_eq_some_iff.mp h
      cases e'
      exact ⟨x, xs, e, contents?_suffix x hp⟩
    next => cases h
  next => cases h

theorem string?_length {s : String} (h : string? c = some (s, d)) :
    d.rest.length ≤ c.rest.length := by
  obtain ⟨x, xs, e, h⟩ := string?_suffix h
  rw [e]
  exact Nat.le_succ_of_le h.length_le

end Token

namespace Parser.AgreeAt

variable {α : Type} {c : Cursor}

/-- A scanner of tokens under its rule. -/
theorem token (r : Rule) {s : Cursor → Option (α × Cursor)} {P : α → Cursor → Prop}
    (h : ∀ a d, s c = some (a, d) → d.rest.length ≤ c.rest.length ∧ P a d) :
    AgreeAt P (Parser.rule r (Parser.scan s)) (Parser.rule r (Parser.scan s)) c := .rule (.scan h)

theorem name : AgreeAt (fun s d => IsName s ∧ d.rest.length < c.rest.length) name name c :=
  .token _ fun _ _ h =>
    have hn := Token.isName_of_name? h
    ⟨Nat.le_of_lt hn.2, hn⟩

/-- The end of the text takes nothing. -/
theorem endOfInput :
    AgreeAt (fun _ d => d = c ∧ d.rest = []) endOfInput endOfInput c := by
  refine .rule fun f f' => ?_
  by_cases he : c.rest = []
  · simp only [he, List.isEmpty_nil, if_true]
    exact .some (Nat.le_refl _) ⟨rfl, he⟩
  · simp only [List.isEmpty_eq_false_iff.mpr he, Bool.false_eq_true, if_false]
    exact .none

theorem oneOf {r : Rule} {words : List (String × α)} (hw : words.lookup "" = none) :
    AgreeAt (fun _ d => d.rest.length < c.rest.length) (Parser.rule r (Parser.scan (Token.oneOf? words)))
      (Parser.rule r (Parser.scan (Token.oneOf? words))) c :=
  .token _ fun _ _ h =>
    have hl := Token.oneOf?_length hw h
    ⟨Nat.le_of_lt hl, hl⟩

/-- What is read of a literal is of no concern here. -/
theorem literal {r : Rule} {s : Cursor → Option (α × Cursor)}
    (h : ∀ a d, s c = some (a, d) → d.rest.length ≤ c.rest.length) :
    AgreeAt (fun _ _ => True) (Parser.rule r (Parser.scan s)) (Parser.rule r (Parser.scan s)) c :=
  .token _ fun a d hs => ⟨h a d hs, trivial⟩

theorem word {r : Rule} {words : List (String × α)} (hw : words.lookup "" = none) :
    AgreeAt (fun _ _ => True) (Parser.rule r (Parser.scan (Token.oneOf? words)))
      (Parser.rule r (Parser.scan (Token.oneOf? words))) c :=
  (oneOf hw).imp fun _ _ _ _ => trivial

end Parser.AgreeAt

end Nondet.Grammar
