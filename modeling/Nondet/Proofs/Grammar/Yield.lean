import Nondet.Proofs.Grammar.Beside
import Nondet.Proofs.Grammar.Offsets
import Nondet.Proofs.Grammar.Parallel

/-!
# Grammar — Yield

What the tokens yield.  The pair of a token holds the characters that were taken for it, and what is
read off these characters is what a scanner reads straight away: a name is its text, a numeral is
complete (`read?_numeral`), and the text between quotes is the contents of the string.
-/

namespace Nondet.Grammar

variable {c d : Cursor}

/-! ### The text of a pair -/

theorem Cursor.textTo_append {w : List Char} : ∀ {c : Cursor}, c.rest = w ++ d.rest →
    d.offset = c.offset + bytes w → c.textTo d.offset = w := by
  have go (w r : List Char) : ∀ here, textTo.go (here + bytes w) (w ++ r) here = w ++
      textTo.go (here + bytes w) r (here + bytes w) := by
    induction w with
    | nil => exact fun _ => rfl
    | cons x w ih =>
        intro here
        have hx := x.utf8Size_pos
        rw [List.cons_append, textTo.go, bytes, if_pos (by omega), ← Nat.add_assoc, ih,
          List.cons_append]
  intro c hr ho
  rw [textTo, hr, ho, go]
  cases d.rest with
  | nil => exact List.append_nil w
  | cons x r => rw [textTo.go, if_neg (Nat.lt_irrefl _), List.append_nil]

theorem Pair.text_eq {r : Rule} {inner : List Pair} {w : List Char} (h : c.Onto d)
    (hw : c.rest = w ++ d.rest) : (⟨r, c, d, inner⟩ : Pair).text = String.ofList w := by
  obtain ⟨between, hr, ho⟩ := h
  obtain rfl : between = w := List.append_cancel_right (hr.symm.trans hw)
  exact congrArg String.ofList (Cursor.textTo_append hr ho)

/-! ### Numbers -/

namespace Token

theorem scanSign_eq (c : Cursor) : Decimal.scanSign c.rest = ((sign c).1, (sign c).2.rest) := by
  unfold sign
  obtain ⟨rest, offset⟩ := c
  cases rest with
  | nil => rfl
  | cons x r =>
      rw [literal?_char rfl, literal?_char rfl]
      by_cases hm : '-' = x
      · subst hm
        rfl
      by_cases hp : '+' = x
      · subst hp
        rfl
      · simp only [if_neg hm, if_neg hp]
        unfold Decimal.scanSign
        split
        next h => exact absurd (List.cons.inj h).1.symm hp
        next h => exact absurd (List.cons.inj h).1.symm hm
        next => rfl

/-- What stands behind the mark of an exponent, of which only the text that is left counts. -/
theorem magnitude?_rest (c : Cursor) : (magnitude? c).map (fun p => (p.1, p.2.rest)) =
    (let (negative, digits) := Decimal.scanSign c.rest
      let exponent := digits.takeWhile Char.isDigit
      if exponent.isEmpty then none
      else
        let size : Int := Decimal.digitsValue exponent
        some (if negative then -size else size, digits.dropWhile Char.isDigit)) := by
  unfold magnitude?
  simp only [scanSign_eq, Cursor.takeWhile_fst]
  split
  · rfl
  · rw [Option.map_some, Cursor.rest_takeWhile]

theorem scanExponent?_eq (c : Cursor) : Decimal.scanExponent? c.rest =
    (exponent? c).map fun p => (p.1, p.2.rest) := by
  rw [exponent?_eq]
  cases hr : c.rest with
  | nil =>
      simp only [Cursor.literal?, hr]
      rfl
  | cons x xs =>
      rw [literal?_char hr, literal?_char hr]
      unfold Decimal.scanExponent?
      by_cases he : 'e' = x
      · subst he
        simp only [if_pos, Option.orElse_some, Option.bind_some, magnitude?_rest]
        rfl
      by_cases hE : 'E' = x
      · subst hE
        simp only [if_neg he, if_pos, Option.orElse_none, Option.bind_some, magnitude?_rest]
        rfl
      · simp [if_neg he, if_neg hE, Ne.symm he, Ne.symm hE]

/-- A numeral that takes a whole text is the numeral of the text. -/
theorem numeral?_whole {n : Decimal.Numeral} (h : numeral? c = some (n, d)) (hd : d.rest = []) :
    Decimal.numeral? c.rest = some n := by
  have exponents (e : Cursor) : Decimal.scanExponent e.rest =
      (((exponent? e).getD (0, e)).1, ((exponent? e).getD (0, e)).2.rest) := by
    rw [Decimal.scanExponent, scanExponent?_eq]
    cases exponent? e <;> rfl
  unfold numeral? at h
  simp only at h
  split at h
  · cases h
  next hw =>
    obtain ⟨rfl, rfl⟩ := Prod.mk.inj (Option.some.inj h)
    generalize hc₁ : (c.takeWhile Char.isDigit).2 = c₁ at hd ⊢
    have hr : c.rest.dropWhile Char.isDigit = c₁.rest := by rw [← hc₁, Cursor.rest_takeWhile]
    -- A point without digits would be left over.
    have fractions : Decimal.scanFraction c₁.rest =
        (((fraction? c₁).getD ([], c₁)).1, ((fraction? c₁).getD ([], c₁)).2.rest) := by
      cases hr₁ : c₁.rest with
      | nil =>
          rw [fraction?, Cursor.literal?_eq_none (by simp [hr₁])]
          simp [hr₁, Decimal.scanFraction]
      | cons x r =>
          unfold Decimal.scanFraction
          by_cases hx : x = '.'
          · subst hx
            rw [fraction?, literal?_char hr₁, if_pos rfl]
            simp only [Option.bind_eq_bind, Option.bind_some, Cursor.takeWhile_fst]
            split
            next hd₁ =>
              rw [fraction?, literal?_char hr₁, if_pos rfl] at hd
              simp only [Option.bind_eq_bind, Option.bind_some, Cursor.takeWhile_fst, if_pos hd₁,
                Option.getD_none] at hd
              have left := congrArg Prod.snd (exponents c₁)
              rw [hd, hr₁] at left
              cases left
            next => rw [Option.getD_some, Cursor.rest_takeWhile]
          · rw [fraction?, literal?_char hr₁, if_neg (Ne.symm hx)]
            split
            next h => exact absurd (List.cons.inj h).1 hx
            next => simp [hr₁]
    rw [Cursor.takeWhile_fst] at hw ⊢
    unfold Decimal.numeral?
    simp only [hr, fractions, exponents, hd]
    rw [if_neg]
    simp only [List.isEmpty_nil, Bool.not_true, Bool.or_false, List.isEmpty_iff,
      List.append_eq_nil_iff] at hw ⊢
    exact fun h => hw h.1

theorem toLower_of_isDigit {x : Char} (h : x.isDigit) : x.toLower = x := by
  simp only [Char.isDigit, Bool.and_eq_true, decide_eq_true_eq] at h
  exact dif_neg fun upper => absurd (UInt32.le_trans upper.1 h.2) (by decide)

/-- **The text of a numeral stands for its value.** -/
theorem read?_numeral {n : Decimal.Numeral} (h : numeral? c = some (n, d)) {r : Rule}
    {inner : List Pair} : Decimal.read? (⟨r, c, d, inner⟩ : Pair).text = some n.value := by
  have on := onto_numeral? h
  have ⟨w, hw, _⟩ := on
  rw [Pair.text_eq on hw]
  -- Nothing but the end of the text comes behind the numeral when it is read by itself.
  obtain ⟨d', h', y, hy, hd'⟩ : ∃ d', numeral? ⟨w, 0⟩ = some (n, d') ∧ Beside d.rest [] d d' :=
    Beside.numeral? ⟨w, hw, (List.append_nil w).symm⟩ (by simp [Parted]) h (Nat.le_refl _)
  obtain rfl : y = [] := List.self_eq_append_left.mp hy
  have whole : Decimal.numeral? w = some n := numeral?_whole h' hd'
  obtain ⟨x, xs, hx, digit⟩ := digit_of_numeral? h'
  obtain rfl : w = x :: xs := hx
  have lower : (String.ofList ((x :: xs).map Char.toLower)).toList.head? = some x := by
    rw [String.toList_ofList, List.map_cons, toLower_of_isDigit digit, List.head?_cons]
  have word (s : String) (hs : s.toList.head?.any Char.isDigit = false) :
      String.ofList ((x :: xs).map Char.toLower) ≠ s := fun e => by
    rw [← e, lower, Option.any_some, digit] at hs
    cases hs
  have unsigned : Decimal.magnitude? (x :: xs) = some n.value := by
    unfold Decimal.magnitude?
    simp only
    rw [if_neg, if_neg (word "nan" rfl), whole, Option.map_some]
    simp only [Bool.or_eq_true, decide_eq_true_eq]
    exact not_or.mpr ⟨word "inf" rfl, word "infinity" rfl⟩
  unfold Decimal.read?
  rw [String.toList_ofList]
  split
  next h =>
    cases h
    cases digit
  next h =>
    cases h
    cases digit
  next => exact unsigned

/-! ### Texts in quotes -/

theorem onto_insideQuotes (quote : Char) (xs : List Char) (offset : Nat) :
    Cursor.Onto ⟨xs, offset⟩ (insideQuotes quote xs offset) := by
  fun_induction insideQuotes quote xs offset with
  | case1 => exact .refl _
  | case2 offset x xs ih => exact .trans (.trans .char .char) ih
  | case3 => exact .refl _
  | case4 offset x xs _ _ ih => exact .trans .char ih

/-- The contents of a string are what may stand in its quotes, up to the quote at its end. -/
theorem contents?_eq {quote : Char} (hq : quote ≠ '\\') (taken xs : List Char) (offset : Nat) :
    ∃ w, xs = w ++ (insideQuotes quote xs offset).rest ∧ contents? quote taken xs offset =
      ((insideQuotes quote xs offset).literal? [quote]).map (taken.reverse ++ w, ·) := by
  fun_induction contents? quote taken xs offset with
  | case1 => exact ⟨[], rfl, rfl⟩
  | case2 taken x xs offset ih =>
      obtain ⟨w, e, h⟩ := ih
      rw [insideQuotes, h, List.reverse_cons, List.reverse_cons, List.append_assoc, List.append_assoc]
      exact ⟨'\\' :: x :: w, congrArg _ (congrArg _ e), rfl⟩
  | case3 taken xs offset hx =>
      rw [insideQuotes.eq_3 _ _ _ _ hx, if_pos (by simp), literal?_char rfl, if_pos rfl]
      exact ⟨[], rfl, by rw [List.append_nil]; rfl⟩
  | case4 taken xs offset hx =>
      rw [insideQuotes.eq_3 _ _ _ _ hx, if_pos (by simp), literal?_char rfl, if_neg hq]
      exact ⟨[], rfl, rfl⟩
  | case5 taken x xs offset hx hquote hback ih =>
      obtain ⟨w, e, h⟩ := ih
      rw [insideQuotes.eq_3 _ _ _ _ hx, if_neg (by simp [hquote, hback]), h, List.reverse_cons,
        List.append_assoc]
      exact ⟨x :: w, congrArg _ e, rfl⟩

end Token

/-! ### Tokens -/

open Nondet.Grammar.Parser (ParallelAt)

namespace Pattern

variable {α γ : Type} {r : Rule}

/-- A token and a scanner that takes the same. -/
theorem token_reads {s : Cursor → Option (γ × Cursor)} {s' : Cursor → Option (α × Cursor)}
    {P : Cursor → α → Prop} (h : (s c).map Prod.snd = (s' c).map Prod.snd)
    (hP : ∀ a d, s' c = some (a, d) → P d a) :
    ParallelAt (fun d ps a => ps = [⟨r, c, d, []⟩] ∧ P d a) (token r s)
      (Parser.rule r (Parser.scan s')) c := by
  refine token_parallel ?_
  cases hs : s c with
  | none =>
      rw [hs] at h
      rw [Option.map_eq_none_iff.mp h.symm]
      exact .none
  | some x =>
      rw [hs] at h
      obtain ⟨y, hy, e⟩ := Option.map_eq_some_iff.mp h.symm
      rw [hy]
      exact .some ⟨e.symm, rfl, e ▸ hP y.1 y.2 hy⟩

end Pattern

namespace Syntax

open Pattern

variable {α : Type}

theorem ident_parallel :
    ParallelAt (fun d ps s => ps = [⟨.ident, c, d, []⟩] ∧ (⟨.ident, c, d, []⟩ : Pair).text = s)
      ident Parser.name c :=
  token_reads rfl fun s d h => by
    have word := Token.word_append c
    obtain ⟨e, -⟩ := Token.name?_eq_some h
    rw [e] at word
    rw [Pair.text_eq (Token.onto_name? h) word, String.ofList_toList]

theorem number_parallel :
    ParallelAt (fun d ps x => ps = [⟨.number, c, d, []⟩] ∧
      Decimal.read? (⟨.number, c, d, []⟩ : Pair).text = some x) number Parser.number c :=
  token_reads (by cases Token.numeral? c <;> rfl) fun x d h => by
    obtain ⟨⟨n, d'⟩, hn, e⟩ := Option.map_eq_some_iff.mp h
    cases e
    exact Token.read?_numeral hn

/-- The text of a word tells what it stands for. -/
theorem words_parallel {r : Rule} (table : List (String × α)) :
    ParallelAt (fun d ps a => ps = [⟨r, c, d, []⟩] ∧
      table.lookup (⟨r, c, d, []⟩ : Pair).text = some a)
      (words r (table.map Prod.fst)) (Parser.rule r (Parser.scan (Token.oneOf? table))) c := by
  refine token_reads ?_ fun a d h => ?_
  · have known (w : String) : ((table.map Prod.fst).map fun w => (w, ())).lookup w =
        (table.lookup w).map fun _ => () := by
      induction table with
      | nil => rfl
      | cons p table ih =>
          rw [List.map_cons, List.map_cons, List.lookup_cons, List.lookup_cons]
          cases w == p.fst with
          | true => rfl
          | false => exact ih
    simp only [Token.oneOf?, known]
    cases table.lookup (Token.word c).1 <;> rfl
  · obtain ⟨a', hl, e⟩ := Option.map_eq_some_iff.mp h
    cases e
    change table.lookup (⟨r, c, (Token.word c).2, []⟩ : Pair).text = some a
    rw [Pair.text_eq (Token.onto_word c) (Token.word_append c), String.ofList_toList]
    exact hl

/-- What is between two quotes of a kind. -/
theorem quoted_run {quote : Char} (hq : quote ≠ '\\') (r : Rule) {xs : List Char}
    (hc : c.rest = quote :: xs) (f : Farthest) : ∃ contents : Pair, quoted r quote c f =
      (((Token.contents? quote [] xs (c.offset + quote.utf8Size)).map fun p => ([contents], p.2)), f) ∧
        ∀ p ∈ Token.contents? quote [] xs (c.offset + quote.utf8Size),
          contents.text = String.ofList p.1 := by
  let start : Cursor := ⟨xs, c.offset + quote.utf8Size⟩
  let stop := Token.insideQuotes quote xs (c.offset + quote.utf8Size)
  have opened : Parser.symbol [quote] c f = (some ((), start), f) := by
    rw [Parser.symbol, literal?_char hc, if_pos rfl]
    rfl
  have taken : token r (fun c => some ((), Token.insideQuotes quote c.rest c.offset)) start f =
      (some ([⟨r, start, stop, []⟩], stop), f) := rfl
  obtain ⟨w, hw, e⟩ := Token.contents?_eq hq [] xs (c.offset + quote.utf8Size)
  refine ⟨⟨r, start, stop, []⟩, ?_, fun p hp => ?_⟩
  · rw [quoted, Parser.bind_of_some opened, Parser.bind_of_some taken, e, Option.map_map]
    change Parser.bind _ _ stop f = _
    unfold Parser.bind Parser.symbol
    cases stop.literal? [quote] <;> rfl
  · rw [e] at hp
    obtain ⟨_, -, rfl⟩ := Option.map_eq_some_iff.mp hp
    exact Pair.text_eq (Token.onto_insideQuotes ..) hw

theorem string_parallel :
    ParallelAt (fun d ps s => ∃ contents : Pair, ps = [⟨.string, c, d, [contents]⟩] ∧
      String.ofList (Text.unescape contents.text.toList) = s) string Parser.string c := by
  refine rule_parallel fun f => ?_
  have closed {r : Rule} {quote : Char} (h : ∀ xs, c.rest ≠ quote :: xs) (f : Farthest) :
      quoted r quote c f = (none, f) := by
    refine Parser.bind_of_none ?_
    rw [Parser.symbol, Cursor.literal?_eq_none fun ⟨xs, e⟩ => h xs e.symm]
    rfl
  have opened {r : Rule} {quote : Char} (hq : quote = '"' ∨ quote = '\'') {xs : List Char}
      (hc : c.rest = quote :: xs) :
      Parser.InStep (fun d ps s => ∃ contents : Pair, [⟨.string, c, d, ps⟩] =
        [(⟨.string, c, d, [contents]⟩ : Pair)] ∧
        String.ofList (Text.unescape contents.text.toList) = s)
        (quoted r quote c f) (Parser.scan Token.string? c f) := by
    obtain ⟨contents, e, text⟩ := quoted_run (by rintro rfl; simp at hq) r hc f
    have size : quote.utf8Size = 1 := by rcases hq with rfl | rfl <;> rfl
    rw [e, Parser.scan, Token.string?, hc]
    simp only [Bool.or_eq_true, decide_eq_true_eq, if_pos hq]
    rw [size] at text ⊢
    revert text
    cases Token.contents? quote [] xs (c.offset + 1) with
    | none => exact fun _ => .none
    | some p =>
        intro text
        refine .some ⟨contents, rfl, ?_⟩
        rw [text p rfl, String.toList_ofList]
  cases hc : c.rest with
  | nil =>
      refine .orElse_right (closed (by simp [hc]) f) ?_
      rw [closed (by simp [hc]), Parser.scan, Token.string?, hc]
      exact .none
  | cons x xs =>
      by_cases hd : x = '"'
      · subst hd
        exact .orElse_left (opened (.inl rfl) hc) (closed (by simp [hc]))
      refine .orElse_right (closed (by simp [hc, hd]) f) ?_
      by_cases hs : x = '\''
      · subst hs
        exact opened (.inr rfl) hc
      rw [closed (by simp [hc, hs]), Parser.scan, Token.string?, hc]
      simp only [hd, hs, decide_false, Bool.or_false, Bool.false_eq_true, if_false]
      exact .none

end Syntax

end Nondet.Grammar
