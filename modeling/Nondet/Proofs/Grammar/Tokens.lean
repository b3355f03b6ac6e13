import Nondet.Proofs.Grammar.Word

/-!
# Grammar — Tokens

The tokens of a text, told without the grammar: behind layout stands a word, a number, a text in
quotes, or the longest symbol there is.  `Reaches` says which tokens stand between two places, and
`At` that nothing but the given tokens comes next.  Nothing in either depends on what the tokens
mean.
-/

namespace Nondet.Grammar

/-- A token as it is written. -/
abbrev Lexeme := List Char

/-- Whether the character is one of the two quotes. -/
def IsQuote (quote : Char) : Prop := quote = '"' ∨ quote = '\''

instance : DecidablePred IsQuote := fun _ => inferInstanceAs (Decidable (_ ∨ _))

namespace Token

/-! ### Symbols -/

/-- Everything that is neither a word nor a literal.  None of them stands behind one that it begins
with. -/
def symbols : List Lexeme :=
  [['=', '=', '='], ['!', '=', '='], ['=', '='], ['=', '>'], ['<', '='], ['>', '='], ['&', '&'],
    ['|', '|'], ['='], ['!'], ['<'], ['>'], ['+'], ['-'], ['*'], ['/'], ['%'], ['?'], [':'], ['('],
    [')'], ['\x7b'], ['\x7d'], [','], [';']]

/-- In such a list the first one that a text begins with is the longest one. -/
theorem find?_prefix {L : List Lexeme} (hL : L.Pairwise (¬ · <+: ·)) {r s : List Char} :
    L.find? (·.isPrefixOf r) = some s ↔
      s ∈ L ∧ s <+: r ∧ ∀ s' ∈ L, s' <+: r → s'.length ≤ s.length := by
  induction L with
  | nil => simp
  | cons l L ih =>
      obtain ⟨hl, hL⟩ := List.pairwise_cons.mp hL
      rw [List.find?_cons]
      by_cases h : l <+: r
      · rw [List.isPrefixOf_iff_prefix.mpr h]
        -- What stands behind `l` and begins the same text is shorter.
        have longest : ∀ s' ∈ L, s' <+: r → s'.length < l.length := fun s' hs' hr => by
          by_contra hlt
          exact hl s' hs' (List.prefix_of_prefix_length_le h hr (Nat.le_of_not_lt hlt))
        constructor
        · rintro ⟨⟩
          exact ⟨List.mem_cons_self, h, List.forall_mem_cons.mpr
            ⟨fun _ => Nat.le_refl _, fun s' hs' hr => Nat.le_of_lt (longest s' hs' hr)⟩⟩
        · rintro ⟨hs, hr, hm⟩
          rcases List.mem_cons.mp hs with rfl | hs
          · rfl
          · have := longest s hs hr
            have := hm l List.mem_cons_self h
            omega
      · rw [Bool.eq_false_iff.mpr fun e => h (List.isPrefixOf_iff_prefix.mp e)]
        simp only [ih hL, List.mem_cons]
        constructor
        · rintro ⟨hs, hr, hm⟩
          refine ⟨.inr hs, hr, ?_⟩
          rintro s' (rfl | hs') hr'
          · exact absurd hr' h
          · exact hm s' hs' hr'
        · rintro ⟨rfl | hs, hr, hm⟩
          · exact absurd hr h
          · exact ⟨hs, hr, fun s' hs' => hm s' (.inr hs')⟩

theorem symbols_pairwise : symbols.Pairwise (¬ · <+: ·) := by decide

/-- Behind the longest symbol that comes next. -/
def symbol? (c : Cursor) : Option Cursor :=
  (symbols.find? (·.isPrefixOf c.rest)).bind fun s => c.literal? s

/-- No word that names something begins with a digit. -/
theorem not_isWordStart_of_isDigit {x : Char} (h : x.isDigit) : isWordStart x = false := by
  have other : x ≠ '_' ∧ x ≠ '$' :=
    ⟨by rintro rfl; exact absurd h (by decide), by rintro rfl; exact absurd h (by decide)⟩
  have digit : x.val ≤ '9'.val := of_decide_eq_true (Bool.and_eq_true_iff.mp h).2
  have below {y : UInt32} (hy : '9'.val < y) : ¬ x.val ≥ y := fun hx =>
    absurd (UInt32.lt_of_lt_of_le hy (UInt32.le_trans hx digit)) (UInt32.lt_irrefl _)
  have upper : x.isUpper = false := decide_eq_false fun hx => below (by decide) hx.1
  have lower : x.isLower = false :=
    Bool.and_eq_false_iff.mpr (.inl (decide_eq_false (below (by decide))))
  have letter : x.isAlpha = false := Bool.or_eq_false_iff.mpr ⟨upper, lower⟩
  simp [isWordStart, letter, other]

/-! ### Tokens -/

/-- The character begins no word and no literal. -/
structure IsMark (x : Char) : Prop where
  word : isWordStart x = false
  digit : x.isDigit = false
  quote : ¬ IsQuote x

instance : DecidablePred IsMark := fun _ =>
  decidable_of_iff (_ ∧ _ ∧ _) ⟨fun ⟨hw, hd, hq⟩ => ⟨hw, hd, hq⟩, fun h => ⟨h.word, h.digit, h.quote⟩⟩

theorem kind (x : Char) : isWordStart x ∨ x.isDigit ∨ IsQuote x ∨ IsMark x := by
  by_cases hw : isWordStart x
  · exact .inl hw
  by_cases hd : x.isDigit
  · exact .inr (.inl hd)
  by_cases hq : IsQuote x
  · exact .inr (.inr (.inl hq))
  · exact .inr (.inr (.inr ⟨by simpa using hw, by simpa using hd, hq⟩))

/-- Behind the token that comes next, where there is no layout.  None begins as a comment does. -/
def token? (c : Cursor) : Option Cursor :=
  match c.rest with
  | []     => none
  | x :: _ =>
    if isWordStart x then some (word c).2
    else if x.isDigit then (numeral? c).map Prod.snd
    else if IsQuote x then (string? c).map Prod.snd
    else if ['/', '*'].isPrefixOf c.rest then none
    else symbol? c

variable {c d : Cursor} {x : Char} {xs : List Char}

/-! ### What no scanner takes -/

theorem name?_eq_none (h : ∀ x ∈ c.rest.head?, isWordStart x = false) : name? c = none := by
  unfold name?
  split
  next x xs e => exact if_neg (by simp [h x (by rw [e]; rfl)])
  next => rfl

theorem numeral?_eq_none (h : ∀ x ∈ c.rest.head?, x.isDigit = false) : numeral? c = none := by
  simp only [numeral?, Cursor.takeWhile_fst]
  cases e : c.rest with
  | nil => rfl
  | cons x xs => simp [h x (by rw [e]; rfl)]

theorem string?_eq_none (h : ∀ x ∈ c.rest.head?, ¬ IsQuote x) : string? c = none := by
  unfold string?
  split
  next x xs e =>
    have hx : ¬ IsQuote x := h x (by rw [e]; rfl)
    exact if_neg (by simpa [IsQuote] using hx)
  next => rfl

/-- A numeral begins with a digit. -/
theorem digit_of_numeral? {n : Decimal.Numeral} (h : numeral? c = some (n, d)) :
    ∃ x xs, c.rest = x :: xs ∧ x.isDigit := by
  by_contra no
  rw [numeral?_eq_none] at h
  · cases h
  intro x hx
  cases e : c.rest with
  | nil =>
      rw [e] at hx
      cases hx
  | cons y ys =>
      rw [e] at hx
      cases hx
      by_contra hd
      exact no ⟨x, ys, e, by simpa using hd⟩

/-- A text in quotes begins with one. -/
theorem quote_of_string? {s : String} (h : string? c = some (s, d)) :
    ∃ x xs, c.rest = x :: xs ∧ IsQuote x ∧ d.rest <:+ xs := by
  obtain ⟨x, xs, e, hs⟩ := string?_suffix h
  refine ⟨x, xs, e, ?_, hs⟩
  by_contra hq
  rw [string?_eq_none (by rw [e]; rintro _ ⟨⟩; exact hq)] at h
  cases h

/-! ### What a token is -/

theorem token?_word (h : c.rest = x :: xs) (hx : isWordStart x) : token? c = some (word c).2 := by
  simp only [token?, h, hx, if_true]

theorem token?_number (h : c.rest = x :: xs) (hx : x.isDigit) :
    token? c = (numeral? c).map Prod.snd := by
  simp only [token?, h, not_isWordStart_of_isDigit hx, hx, if_true, Bool.false_eq_true, if_false]

theorem token?_string (h : c.rest = x :: xs) (hx : IsQuote x) :
    token? c = (string? c).map Prod.snd := by
  have other : isWordStart x = false ∧ x.isDigit = false := by rcases hx with rfl | rfl <;> decide
  simp only [token?, h, other, hx, if_true, Bool.false_eq_true, if_false]

theorem token?_symbol (h : c.rest = x :: xs) (hx : IsMark x) :
    token? c = if ['/', '*'].isPrefixOf c.rest then none else symbol? c := by
  simp only [token?, h, hx.word, hx.digit, hx.quote, Bool.false_eq_true, if_false]

/-- No token begins as a comment does. -/
theorem token?_comment (h : ['/', '*'] <+: c.rest) : token? c = none := by
  obtain ⟨r, e⟩ := h
  rw [token?_symbol e.symm (by decide), if_pos (List.isPrefixOf_iff_prefix.mpr ⟨r, e⟩)]

theorem isMark_of_mem_symbols : ∀ s ∈ symbols, ∃ x xs, s = x :: xs ∧ IsMark x := by
  have marks : ∀ s ∈ symbols, s.head?.any fun x => IsMark x := by decide
  intro s hs
  cases s with
  | nil => exact absurd (marks [] hs) nofun
  | cons x xs => exact ⟨x, xs, rfl, by simpa using marks (x :: xs) hs⟩

/-- The symbol that comes next is the longest one. -/
theorem symbol?_eq_some_iff : symbol? c = some d ↔
    ∃ s ∈ symbols, c.rest = s ++ d.rest ∧ c.literal? s = some d ∧
      ∀ s' ∈ symbols, s' <+: c.rest → s'.length ≤ s.length := by
  simp only [symbol?, Option.bind_eq_some_iff, find?_prefix symbols_pairwise]
  constructor
  · rintro ⟨s, ⟨hs, -, hm⟩, hl⟩
    exact ⟨s, hs, Cursor.rest_of_literal? hl, hl, hm⟩
  · rintro ⟨s, hs, hr, hl, hm⟩
    exact ⟨s, ⟨hs, ⟨d.rest, hr.symm⟩, hm⟩, hl⟩

/-- A token that begins as a word does is the word. -/
theorem word_of_token? {l : Lexeme} (hl : l.head?.any isWordStart) (h : token? c = some d)
    (hr : c.rest = l ++ d.rest) : word c = (String.ofList l, d) ∧ ∀ y ∈ l, isWordChar y := by
  obtain _ | ⟨x, xs⟩ := l
  · cases hl
  rw [token?_word hr hl] at h
  cases h
  have taken : c.rest.takeWhile isWordChar = x :: xs := by
    have split := List.takeWhile_append_dropWhile (p := isWordChar) (l := c.rest)
    rwa [← rest_word, hr, List.append_left_inj, ← hr] at split
  have first : (word c).1 = String.ofList (x :: xs) := by rw [word_fst, taken]
  exact ⟨Prod.ext first rfl, fun y hy => List.mem_takeWhile_imp (taken ▸ hy)⟩

/-- Behind a token that is a symbol. -/
theorem symbol?_of_token? (e : c.rest = x :: xs) (hx : IsMark x) (h : token? c = some d) :
    symbol? c = some d := by
  rw [token?_symbol e hx] at h
  split at h
  · cases h
  · exact h

/-- A token is scanned as the symbol that it is. -/
theorem literal?_of_token? {s : Lexeme} (hs : s ∈ symbols) (h : token? c = some d)
    (hr : c.rest = s ++ d.rest) : c.literal? s = some d := by
  obtain ⟨x, xs, rfl, hx⟩ := isMark_of_mem_symbols s hs
  obtain ⟨s', -, hr', hl, -⟩ := symbol?_eq_some_iff.mp (symbol?_of_token? hr hx h)
  rw [hr, List.append_left_inj] at hr'
  exact hr' ▸ hl

/-- Of the symbols that come next the token is the longest one. -/
theorem prefix_of_token? {s l : Lexeme} (hs : s ∈ symbols) (h : token? c = some d)
    (hr : c.rest = l ++ d.rest) (hp : s <+: c.rest) : s <+: l := by
  obtain ⟨x, xs, rfl, hx⟩ := isMark_of_mem_symbols s hs
  obtain ⟨r, e⟩ := hp
  obtain ⟨l', -, hr', -, hm⟩ := symbol?_eq_some_iff.mp (symbol?_of_token? e.symm hx h)
  rw [hr, List.append_left_inj] at hr'
  subst hr'
  exact List.prefix_of_prefix_length_le ⟨r, e⟩ (hr ▸ List.prefix_append _ _) (hm _ hs ⟨r, e⟩)

/-- Where no longer symbol and no comment comes next, a symbol is a token. -/
theorem token?_of_literal? {s : Lexeme} (hs : s ∈ symbols) (h : c.literal? s = some d)
    (hm : ∀ s' ∈ ['/', '*'] :: symbols, s' <+: c.rest → s'.length ≤ s.length) : token? c = some d := by
  obtain ⟨x, xs, rfl, hx⟩ := isMark_of_mem_symbols s hs
  have hr := Cursor.rest_of_literal? h
  rw [List.forall_mem_cons] at hm
  rw [token?_symbol hr hx, if_neg]
  · exact symbol?_eq_some_iff.mpr ⟨_, hs, hr, h, hm.2⟩
  · intro hc
    have hc := List.isPrefixOf_iff_prefix.mp hc
    have none : ∀ s ∈ symbols, ¬ ['/', '*'] <+: s := by decide
    exact none _ hs (List.prefix_of_prefix_length_le hc (hr ▸ List.prefix_append _ _) (hm.1 hc))

/-- A symbol is a token, or it is read out of what begins with it, and then `=`, `>` or `*` is
behind it. -/
theorem token?_or {s : Lexeme} (hs : s ∈ symbols) (h : c.literal? s = some d) :
    token? c = some d ∨ ∃ x ∈ d.rest.head?, x ∈ ['=', '>', '*'] := by
  have hr := Cursor.rest_of_literal? h
  by_cases hl : ∃ s' ∈ ['/', '*'] :: symbols, s' <+: c.rest ∧ s.length < s'.length
  · right
    have behind : ∀ s ∈ symbols, ∀ s' ∈ ['/', '*'] :: symbols, s <+: s' → s.length < s'.length →
        (s'.drop s.length).head?.any (· ∈ ['=', '>', '*']) := by decide
    obtain ⟨s', hs', hp, hlt⟩ := hl
    have within : s <+: s' :=
      List.prefix_of_prefix_length_le (hr ▸ List.prefix_append _ _) hp (Nat.le_of_lt hlt)
    have next := behind s hs s' hs' within hlt
    obtain ⟨r, e⟩ := hp
    obtain ⟨ys, rfl⟩ := within
    rw [List.drop_left] at next
    rw [hr, List.append_assoc, List.append_cancel_left_eq] at e
    cases ys with
    | nil => cases next
    | cons y ys => exact ⟨y, by rw [← e]; rfl, of_decide_eq_true next⟩
  · exact .inl (token?_of_literal? hs h fun s' hs' hp =>
      Nat.le_of_not_lt fun hlt => hl ⟨s', hs', hp, hlt⟩)

/-- What begins no longer symbol and no comment is a token. -/
theorem token?_of_whole {s : Lexeme} (hs : s ∈ symbols)
    (hw : ∀ s' ∈ ['/', '*'] :: symbols, s <+: s' → s' = s) (h : c.literal? s = some d) :
    token? c = some d := by
  refine token?_of_literal? hs h fun s' hs' hp => Nat.le_of_not_lt fun hlt => ?_
  have within : s <+: s' := List.prefix_of_prefix_length_le
    (Cursor.rest_of_literal? h ▸ List.prefix_append _ _) hp (Nat.le_of_lt hlt)
  rw [hw s' hs' within] at hlt
  exact Nat.lt_irrefl _ hlt

/-- A token takes its first character, and goes on in the text. -/
theorem token?_suffix (h : token? c = some d) : ∃ x xs, c.rest = x :: xs ∧ d.rest <:+ xs := by
  rcases e : c.rest with _ | ⟨x, xs⟩
  · simp [token?, e] at h
  rcases kind x with hx | hx | hx | hx
  · rw [token?_word e hx] at h
    cases h
    rw [rest_word, e, List.dropWhile_cons_of_pos (isWordChar_of_isWordStart hx)]
    exact ⟨x, xs, rfl, List.dropWhile_suffix _⟩
  · rw [token?_number e hx] at h
    obtain ⟨⟨n, _⟩, hn, rfl⟩ := Option.map_eq_some_iff.mp h
    have digits := numeral?_suffix hn
    rw [Cursor.rest_takeWhile, e, List.dropWhile_cons_of_pos hx] at digits
    exact ⟨x, xs, rfl, digits.trans (List.dropWhile_suffix _)⟩
  · rw [token?_string e hx] at h
    obtain ⟨⟨s, _⟩, hs, rfl⟩ := Option.map_eq_some_iff.mp h
    exact e ▸ string?_suffix hs
  · rw [token?_symbol e hx] at h
    split at h
    · cases h
    obtain ⟨s, hs, hr, -, -⟩ := symbol?_eq_some_iff.mp h
    obtain ⟨y, ys, rfl, -⟩ := isMark_of_mem_symbols s hs
    rw [e, List.cons_append, List.cons.injEq] at hr
    exact ⟨x, xs, rfl, ys, hr.2.symm⟩

theorem token?_length (h : token? c = some d) : d.rest.length < c.rest.length := by
  obtain ⟨x, xs, e, hs⟩ := token?_suffix h
  rw [e]
  exact Nat.lt_succ_of_le hs.length_le

end Token

/-! ### Texts of tokens -/

namespace Cursor

open Token

variable {c d e : Cursor} {l : Lexeme} {ls ls' : List Lexeme}

/-- From the first place to the second one there are these tokens, with layout in front of each, and
nothing behind the last one. -/
inductive Reaches : Cursor → List Lexeme → Cursor → Prop
  | nil {c : Cursor} : Reaches c [] c
  | cons {c d e : Cursor} {l : Lexeme} {ls : List Lexeme} (ht : token? c.layout = some d)
      (hl : c.layout.rest = l ++ d.rest) (h : Reaches d ls e) : Reaches c (l :: ls) e

/-- There are these tokens up to the end of the text. -/
def Spells (c : Cursor) (ls : List Lexeme) : Prop := ∃ d, c.Reaches ls d ∧ d.layout.rest = []

/-- The tokens come next, and nothing else. -/
structure At (c : Cursor) (ls : List Lexeme) : Prop where
  layout : c.layout = c
  spells : c.Spells ls

theorem Reaches.trans (h : c.Reaches ls d) (h' : d.Reaches ls' e) : c.Reaches (ls ++ ls') e := by
  induction h with
  | nil => exact h'
  | cons ht hl _ ih => exact .cons ht hl (ih h')

theorem Reaches.suffix (h : c.Reaches ls d) : d.rest <:+ c.rest := by
  induction h with
  | nil => exact List.suffix_rfl
  | @cons c d e l ls ht hl _ ih => exact ih.trans ((hl ▸ List.suffix_append _ _).trans c.layout_suffix)

theorem Spells.cons (ht : token? c.layout = some d) (hl : c.layout.rest = l ++ d.rest)
    (h : d.Spells ls) : c.Spells (l :: ls) :=
  have ⟨e, he, hr⟩ := h
  ⟨e, .cons ht hl he, hr⟩

/-- Layout in front of tokens makes no difference. -/
theorem spells_layout : c.layout.Spells ls ↔ c.Spells ls := by
  constructor
  · rintro ⟨d, h, hd⟩
    cases h with
    | nil => exact ⟨c, .nil, by rwa [layout_layout] at hd⟩
    | cons ht hl h =>
        rw [layout_layout] at ht hl
        exact ⟨d, .cons ht hl h, hd⟩
  · rintro ⟨d, h, hd⟩
    cases h with
    | nil => exact ⟨_, .nil, by rwa [layout_layout]⟩
    | cons ht hl h =>
        rw [← c.layout_layout] at ht hl
        exact ⟨d, .cons ht hl h, hd⟩

theorem Spells.at_layout (h : c.Spells ls) : c.layout.At ls := ⟨c.layout_layout, spells_layout.mpr h⟩

theorem At.nil (h : c.At []) : c.rest = [] := by
  obtain ⟨d, hd, hr⟩ := h.spells
  cases hd
  rwa [h.layout] at hr

/-- The first token, and the others behind it. -/
theorem At.token (h : c.At (l :: ls)) :
    ∃ d, token? c = some d ∧ c.rest = l ++ d.rest ∧ d.layout.At ls := by
  obtain ⟨e, he, hr⟩ := h.spells
  cases he with
  | cons ht hl he =>
      rw [h.layout] at ht hl
      exact ⟨_, ht, hl, Spells.at_layout ⟨e, he, hr⟩⟩

theorem At.nonempty (h : c.At (l :: ls)) : ∃ x xs, l = x :: xs := by
  obtain ⟨d, ht, hr, -⟩ := h.token
  have := token?_length ht
  cases l with
  | nil =>
      rw [hr, List.nil_append] at this
      exact absurd this (Nat.lt_irrefl _)
  | cons x xs => exact ⟨x, xs, rfl⟩

/-- There are no more tokens than characters. -/
theorem At.length : ∀ {ls : List Lexeme} {c : Cursor}, c.At ls → ls.length ≤ c.rest.length
  | [], _, _ => Nat.zero_le _
  | l :: ls, c, h => by
      obtain ⟨d, ht, -, hd⟩ := h.token
      have := token?_length ht
      have := d.layout_length
      have := hd.length
      rw [List.length_cons]
      omega

end Cursor

end Nondet.Grammar
