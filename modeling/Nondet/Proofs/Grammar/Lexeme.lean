import Nondet.Proofs.Grammar.Fused
import Nondet.Proofs.Grammar.Reads
import Nondet.Proofs.Grammar.Word

/-!
# Grammar — Lexeme

The parsers of single tokens on lexemes.  A parser reads the lexemes of its kind; whether it rejects
others is told from what comes first, a character (`lead`) or a word (`leadWord`).
-/

namespace Nondet.Grammar

variable {l : Lexeme} {ls u : List Lexeme}

/-! ### What comes first -/

/-- The first character. -/
def lead (ls : List Lexeme) : Option Char := (joined ls).head?

/-- The word that comes first, empty when there is none. -/
def leadWord (ls : List Lexeme) : String := String.ofList ((joined ls).takeWhile Token.isWordChar)

@[simp] theorem lead_cons (x : Char) (xs : Lexeme) (u : List Lexeme) :
    lead ((x :: xs) :: u) = some x := rfl

@[simp] theorem lead_nil : lead [] = none := rfl

theorem leadWord_cons (l : Lexeme) (u : List Lexeme) :
    leadWord (l :: u) = String.ofList (l.takeWhile Token.isWordChar) :=
  congrArg String.ofList (takeWhile_lexeme (by decide) l u).1

theorem leadWord_name {s : String} (h : ∀ x ∈ s.toList, Token.isWordChar x) (u : List Lexeme) :
    leadWord (s.toList :: u) = s := by
  rw [leadWord_cons, List.takeWhile_eq_self_iff.mpr h, String.ofList_toList]

/-- There is no word in front of what begins with no word character. -/
theorem leadWord_eq_empty (h : ∀ x ∈ lead ls, Token.isWordChar x = false) : leadWord ls = "" := by
  rw [lead] at h
  rw [leadWord]
  cases hl : joined ls with
  | nil => rfl
  | cons x xs =>
      have hx : Token.isWordChar x = false := h x (by rw [hl]; rfl)
      rw [List.takeWhile_cons_of_neg (by simp [hx])]

/-- The first character, which there is, satisfies `p`. -/
def Leads (p : Char → Prop) (ls : List Lexeme) : Prop := ∃ x xs ls', ls = (x :: xs) :: ls' ∧ p x

namespace Leads

variable {p q : Char → Prop}

theorem append (h : Leads p ls) (u : List Lexeme) : Leads p (ls ++ u) :=
  have ⟨x, xs, ls', e, hx⟩ := h
  ⟨x, xs, ls' ++ u, e ▸ rfl, hx⟩

theorem imp (h : Leads p ls) (hpq : ∀ x, p x → q x) : Leads q ls :=
  have ⟨x, xs, ls', e, hx⟩ := h
  ⟨x, xs, ls', e, hpq x hx⟩

theorem lead_mem (h : Leads p ls) : ∀ x ∈ lead ls, p x := by
  obtain ⟨x, xs, ls', rfl, hx⟩ := h
  rintro _ ⟨⟩
  exact hx

theorem ne {x : Char} (h : Leads p ls) (hx : ¬ p x) : lead ls ≠ some x := fun e =>
  hx (h.lead_mem x e)

end Leads

/-- A reserved word begins as a word. -/
theorem takeWhile_unreserved {x : Char} (hx : Token.isWordStart x = false) (xs : List Char) :
    String.ofList ((x :: xs).takeWhile Token.isWordChar) ∉ Token.reserved := by
  have starts : ∀ w ∈ Token.reserved, w.toList.head?.any Token.isWordStart := by decide
  intro h
  obtain ⟨y, hy, hs⟩ := (Option.any_eq_true _ _).mp (starts _ h)
  rw [String.toList_ofList, List.takeWhile_cons] at hy
  split at hy
  · cases hy
    exact nomatch hx.symm.trans hs
  · cases hy

theorem first_of_reserved {c : Cursor} (h : (Token.word c).1 ∈ Token.reserved) :
    ∃ x xs, c.rest = x :: xs ∧ Token.isWordStart x := by
  rw [Token.word_fst] at h
  cases e : c.rest with
  | nil =>
      rw [e] at h
      exact absurd h (by decide)
  | cons x xs =>
      refine ⟨x, xs, rfl, ?_⟩
      by_contra hx
      rw [e] at h
      exact takeWhile_unreserved (by simpa using hx) xs h

theorem leadWord_unreserved {x : Char} (hx : Token.isWordStart x = false) (xs : Lexeme)
    (u : List Lexeme) : leadWord ((x :: xs) :: u) ∉ Token.reserved :=
  takeWhile_unreserved hx (xs ++ spaced u)

/-- What a lexeme begins with does not reach behind it. -/
theorem prefix_joined {text : List Char} (ht : ∀ x ∈ text, Cursor.isSpace x = false) (l : Lexeme)
    (u : List Lexeme) : text <+: joined (l :: u) ↔ text <+: l := prefix_parted (parted_spaced u) ht

theorem lead_of_isPrefixed {x : Char} {xs : List Char} (h : x :: xs <+: joined ls) :
    lead ls = some x := by
  obtain ⟨r, h⟩ := h
  rw [lead, ← h]
  rfl

theorem prefix_joined_iff_lead {x : Char} {ls : List Lexeme} :
    [x] <+: joined ls ↔ lead ls = some x := by
  rw [lead]
  cases joined ls <;> simp [eq_comm]

namespace Cursor

variable {c : Cursor}

/-- The first character in the text. -/
theorem At.head (h : c.At ls) : c.rest.head? = lead ls := by
  cases ls with
  | nil =>
      rw [h.nil]
      rfl
  | cons l ls =>
      obtain ⟨d, -, hr, -⟩ := h.token
      obtain ⟨x, xs, rfl⟩ := h.nonempty
      rw [hr]
      rfl

/-- Whether a symbol comes next in the text. -/
theorem At.prefix_iff (h : c.At ls) {s : Lexeme} (hs : s ∈ Token.symbols) :
    s <+: c.rest ↔ s <+: joined ls := by
  cases ls with
  | nil => rw [h.nil]; rfl
  | cons l ls =>
      obtain ⟨d, ht, hr, -⟩ := h.token
      rw [prefix_joined (symbol_not_isSpace s hs)]
      exact ⟨Token.prefix_of_token? hs ht hr, fun hp => hp.trans (hr ▸ List.prefix_append _ _)⟩

/-- Whether a reserved word comes next in the text. -/
theorem At.word_iff (h : c.At ls) {w : String} (hw : w ∈ Token.reserved) :
    (Token.word c).1 = w ↔ leadWord ls = w := by
  cases ls with
  | nil =>
      rw [Token.word_fst, h.nil]
      rfl
  | cons l ls =>
      obtain ⟨d, ht, hr, -⟩ := h.token
      obtain ⟨x, xs, rfl⟩ := h.nonempty
      by_cases hx : Token.isWordStart x
      · obtain ⟨e, hc⟩ := Token.word_of_token? (l := x :: xs) hx ht hr
        rw [e, leadWord_cons, List.takeWhile_eq_self_iff.mpr hc]
      · rw [Bool.not_eq_true] at hx
        have no : (Token.word c).1 ∉ Token.reserved := by
          rw [Token.word_fst, hr]
          exact takeWhile_unreserved hx _
        exact ⟨fun e => absurd (e ▸ hw) no, fun e => absurd (e ▸ hw) (leadWord_unreserved hx xs ls)⟩

end Cursor

/-! ### How literals are written -/

/-- The text is a numeral that stands for the number. -/
def ReadsBack (text : String) (x : Float) : Prop :=
  ∃ n d, Token.numeral? (.start text) = some (n, d) ∧ d.rest = [] ∧ n.value = x

/-- A numeral begins with a digit. -/
theorem ReadsBack.digit {text : String} {x : Float} (h : ReadsBack text x) :
    ∃ y ys, text.toList = y :: ys ∧ y.isDigit :=
  have ⟨_, _, hn, _, _⟩ := h
  Token.digit_of_numeral? hn

/-- The lexeme is a text in quotes that stands for the string. -/
def Quotes (l : Lexeme) (s : String) : Prop := ∃ d, Token.string? ⟨l, 0⟩ = some (s, d) ∧ d.rest = []

/-- A text in quotes begins with one. -/
theorem Quotes.quote {s : String} (h : Quotes l s) : ∃ x xs, l = x :: xs ∧ IsQuote x :=
  have ⟨_, hs, _⟩ := h
  have ⟨x, xs, e, hx, _⟩ := Token.quote_of_string? hs
  ⟨x, xs, e, hx⟩

/-- A character as it is written between two such quotes. -/
def escaped (quote x : Char) : List Char := if x = quote ∨ x = '\\' then ['\\', x] else [x]

/-- A text between two such quotes. -/
def quoted (quote : Char) (s : String) : Lexeme :=
  quote :: (s.toList.flatMap (escaped quote) ++ [quote])

variable {quote : Char} {r : List Char}

/-- What is neither a quote nor a backslash is taken as it is. -/
theorem Token.contents?_stretch : ∀ {xs : List Char}, (∀ x ∈ xs, x ≠ quote ∧ x ≠ '\\') →
    ∀ (taken : List Char) (o : Nat), ∃ o',
      contents? quote taken (xs ++ r) o = contents? quote (xs.reverse ++ taken) r o'
  | [], _, taken, o => ⟨o, rfl⟩
  | x :: xs, h, taken, o => by
      obtain ⟨⟨hq, hb⟩, h⟩ := List.forall_mem_cons.mp h
      obtain ⟨o', ih⟩ := contents?_stretch h (x :: taken) (o + x.utf8Size)
      refine ⟨o', ?_⟩
      rw [List.cons_append, contents?.eq_3 _ _ _ _ _ (by simp [hb]), if_neg hq, if_neg hb, ih]
      simp

/-- A way to write characters between two such quotes: no character ends the text, and each is read
on its own as what `read` says. -/
structure Writes (quote : Char) (write read : Char → List Char) : Prop where
  whole (x : Char) (taken r : List Char) (o : Nat) : ∃ o',
    Token.contents? quote taken (write x ++ r) o =
      Token.contents? quote ((write x).reverse ++ taken) r o'
  back (x : Char) (r : List Char) : Text.unescape (write x ++ r) = read x ++ Text.unescape r

namespace Writes

variable {write read : Char → List Char} (h : Writes quote write read)

include h

/-- The text ends at the quote behind it. -/
theorem contents? (hq : quote ≠ '\\') : ∀ (xs taken : List Char) (o : Nat), ∃ o',
    Token.contents? quote taken (xs.flatMap write ++ quote :: r) o =
      some (taken.reverse ++ xs.flatMap write, ⟨r, o'⟩)
  | [], taken, o => ⟨o + quote.utf8Size, by simp [Token.contents?, hq]⟩
  | x :: xs, taken, o => by
      obtain ⟨o₁, first⟩ := h.whole x taken (xs.flatMap write ++ quote :: r) o
      obtain ⟨o₂, rest⟩ := contents? hq xs ((write x).reverse ++ taken) o₁
      refine ⟨o₂, ?_⟩
      rw [List.flatMap_cons, List.append_assoc, first, rest]
      simp

theorem unescape : ∀ xs : List Char, Text.unescape (xs.flatMap write) = xs.flatMap read
  | []      => rfl
  | x :: xs => by
      rw [List.flatMap_cons, h.back, unescape xs, List.flatMap_cons]

/-- A text that is written so between two quotes is a string, of what is read of its characters. -/
theorem string? (hq : IsQuote quote) {s : String} {c : Cursor}
    (hc : c.rest = quote :: (s.toList.flatMap write ++ quote :: r)) :
    ∃ d, Token.string? c = some (String.ofList (s.toList.flatMap read), d) ∧ d.rest = r := by
  have noBackslash : quote ≠ '\\' := by
    rcases hq with rfl | rfl <;> decide
  have hq : quote = '"' ∨ quote = '\'' := hq
  obtain ⟨o', taken⟩ := h.contents? (r := r) noBackslash s.toList [] (c.offset + 1)
  exact ⟨⟨r, o'⟩, by simp [Token.string?, hc, hq, taken, h.unescape], rfl⟩

end Writes

namespace Parser

/-! ### Symbols -/

theorem Reads.symbol {text : Lexeme} (ht : text ∈ Token.symbols) (u : List Lexeme) :
    Reads (symbol text) (text :: u) u fun _ => True :=
  .scan fun _ _ h hr => ⟨(), by rw [Token.literal?_of_token? ht h hr]; rfl, trivial⟩

theorem Rejects.symbol {text : Lexeme} (ht : text ∈ Token.symbols) (h : ¬ text <+: joined ls) :
    Rejects (symbol text) ls := by
  intro c f hc
  rw [Parser.symbol, Cursor.literal?_eq_none fun hp => h ((hc.prefix_iff ht).mp hp)]
  rfl

/-- A symbol is rejected when another character comes first. -/
theorem Rejects.symbol_of_lead {x : Char} {xs : Lexeme} (h : lead ls ≠ some x) :
    Rejects (Parser.symbol (x :: xs)) ls := by
  intro c f hc
  have no : ¬ x :: xs <+: c.rest := by
    rintro ⟨r, e⟩
    exact h (by rw [← hc.head, ← e]; rfl)
  rw [Parser.symbol, Cursor.literal?_eq_none no]
  rfl

theorem Reads.operator {α : Type} (r : Rule) {text : Lexeme} (ht : text ∈ Token.symbols) (a : α)
    (u : List Lexeme) : Reads (operator r text a) (text :: u) u (· = a) :=
  .rule r (.map (.symbol ht u) fun _ _ => rfl)

theorem Rejects.operator {α : Type} {r : Rule} {text : Lexeme} {a : α} (ht : text ∈ Token.symbols)
    (h : ¬ text <+: joined ls) : Rejects (operator r text a) ls := .rule r (.bind_left (.symbol ht h))

theorem Reads.notNext {text : Lexeme} (ht : text ∈ Token.symbols) (h : ¬ text <+: joined ls) :
    Reads (notNext text) ls ls fun _ => True := by
  intro c f hc
  refine ⟨(), c, ?_, hc.layout.symm ▸ hc, trivial⟩
  rw [Parser.notNext, Cursor.literal?_eq_none fun hp => h ((hc.prefix_iff ht).mp hp)]
  rfl

theorem Rejects.notNext {text : Lexeme} (ht : text ∈ Token.symbols) (h : text <+: joined ls) :
    Rejects (notNext text) ls := by
  intro c f hc
  obtain ⟨r, e⟩ := (hc.prefix_iff ht).mpr h
  obtain ⟨d, hd, -⟩ := Cursor.literal?_append e.symm
  rw [Parser.notNext, hd]
  rfl

/-- One of some symbols, each under its rule. -/
def operators {α : Type} (table : List (Rule × List Char × α)) : Parser α :=
  choice (table.map fun e => operator e.1 e.2.1 e.2.2)

/-- Of several symbols the first one is read that the lexeme begins with. -/
theorem Reads.operators {α : Type} {r : Rule} {a : α} : ∀ {table : List (Rule × List Char × α)},
    (∀ e ∈ table, e.2.1 ∈ Token.symbols) → table.find? (·.2.1.isPrefixOf l) = some (r, l, a) →
    ∀ u, Reads (operators table) (l :: u) u (· = a)
  | [], _, h, _ => nomatch h
  | (r', text, a') :: table, hs, h, u => by
      rw [List.forall_mem_cons] at hs
      rw [List.find?_cons] at h
      split at h
      · cases h
        exact .orElse_left (Reads.operator r hs.1 a u)
      next hp =>
        refine .orElse_right (.operator hs.1 ?_) (Reads.operators hs.2 h u)
        rw [prefix_joined (symbol_not_isSpace _ hs.1), ← List.isPrefixOf_iff_prefix, hp]
        exact Bool.false_ne_true

theorem Rejects.operators {α : Type} {table : List (Rule × List Char × α)}
    (ht : ∀ e ∈ table, e.2.1 ∈ Token.symbols) (h : ∀ e ∈ table, ¬ e.2.1 <+: joined ls) :
    Rejects (operators table) ls := by
  refine .choice fun p hp => ?_
  obtain ⟨e, he, rfl⟩ := List.mem_map.mp hp
  exact .operator (ht e he) (h e he)

/-! ### Words -/

/-- A word that is a token. -/
theorem Reads.word {α : Type} {r : Rule} {words : List (String × α)}
    (hr : ∀ w ∈ words.map Prod.fst, w ∈ Token.reserved) {w : String} {a : α}
    (h : words.lookup w = some a) (u : List Lexeme) :
    Reads (Parser.rule r (Parser.scan (Token.oneOf? words))) (w.toList :: u) u (· = a) := by
  have starts : ∀ w ∈ Token.reserved, w.toList.head?.any Token.isWordStart := by decide
  have reserved : w ∈ Token.reserved := by
    obtain ⟨l₁, l₂, rfl, -⟩ := List.lookup_eq_some_iff.mp h
    exact hr w (by simp)
  refine .rule r (.scan fun c d ht hc => ⟨a, ?_, rfl⟩)
  rw [Token.oneOf?, (Token.word_of_token? (starts w reserved) ht hc).1]
  simp only [String.ofList_toList, h, Option.map_some]

theorem Rejects.word {α : Type} {r : Rule} {words : List (String × α)}
    (hr : ∀ w ∈ words.map Prod.fst, w ∈ Token.reserved) (h : leadWord ls ∉ words.map Prod.fst) :
    Rejects (Parser.rule r (Parser.scan (Token.oneOf? words))) ls := by
  refine .rule r fun c f hc => ?_
  have none : words.lookup (Token.word c).1 = none := by
    refine List.lookup_eq_none_iff.mpr fun p hp => bne_iff_ne.mpr fun e => ?_
    have hm := List.mem_map_of_mem (f := Prod.fst) hp
    exact h ((hc.word_iff (hr _ hm)).mp e ▸ hm)
  change Option.map _ (words.lookup (Token.word c).1) = .none
  rw [none]
  rfl

theorem Reads.name {s : String} (h : IsName s) (u : List Lexeme) :
    Reads name (s.toList :: u) u (· = s) := by
  obtain ⟨x, xs, hx, hstart⟩ := h.start
  refine .rule _ (.scan fun c d ht hc => ⟨s, ?_, rfl⟩)
  have word := (Token.word_of_token? (by rw [hx]; exact hstart) ht hc).1
  rw [String.ofList_toList] at word
  simp only [Token.name?, hc, hx, List.cons_append, hstart, if_true, word, if_neg h.unreserved]

/-- What is no name is rejected. -/
theorem Rejects.name (h : (∀ x ∈ lead ls, Token.isWordStart x = false) ∨ leadWord ls ∈ Token.reserved) :
    Rejects name ls := by
  refine .rule _ fun c f hc => ?_
  change Token.name? c = none
  rcases h with h | h
  · exact Token.name?_eq_none (hc.head ▸ h)
  · have hw : (Token.word c).1 ∈ Token.reserved := (hc.word_iff h).mpr rfl ▸ h
    unfold Token.name?
    split <;> simp only [if_pos hw, ite_self]

/-! ### Numbers -/

theorem Reads.number {text : String} {x : Float} (h : ReadsBack text x) (u : List Lexeme) :
    Reads number (text.toList :: u) u (· = x) := by
  obtain ⟨y, ys, e, hy⟩ := h.digit
  obtain ⟨n, d₀, hn, -, rfl⟩ := h
  refine .rule _ (.scan fun c d ht hc => ⟨n.value, ?_, rfl⟩)
  rw [Token.token?_number (by rw [hc, e]; rfl) hy] at ht
  obtain ⟨⟨n', _⟩, hn', rfl⟩ := Option.map_eq_some_iff.mp ht
  -- The numeral in the text is the one that the token is by itself.
  have alone : Beside _ [] c (.start text) := ⟨text.toList, hc, (List.append_nil _).symm⟩
  obtain ⟨d', hd', -⟩ := alone.numeral? nofun hn' (Nat.le_refl _)
  cases hn.symm.trans hd'
  rw [hn']
  rfl

theorem Rejects.number (h : ∀ x ∈ lead ls, x.isDigit = false) : Rejects number ls :=
  .rule _ fun c f hc => by
    change Option.map _ (Token.numeral? c) = none
    rw [Token.numeral?_eq_none (hc.head ▸ h)]
    rfl

/-! ### Strings -/

variable {quote : Char}

theorem writes_escaped (hq : IsQuote quote) : Writes quote (escaped quote) ([·]) where
  whole x taken r o := by
    by_cases hx : x = quote ∨ x = '\\'
    · rw [escaped, if_pos hx]
      exact ⟨_, rfl⟩
    · rw [escaped, if_neg hx]
      exact Token.contents?_stretch (List.forall_mem_singleton.mpr (not_or.mp hx)) taken o
  back x r := by
    by_cases hx : x = quote ∨ x = '\\'
    · have same : Text.unescapeChar x = x := by
        rcases hx with rfl | rfl
        · rcases hq with rfl | rfl <;> rfl
        · rfl
      rw [escaped, if_pos hx]
      exact congrArg (· :: Text.unescape r) same
    · rw [escaped, if_neg hx]
      exact Text.unescape_cons (not_or.mp hx).2

theorem quotes_quoted (hq : IsQuote quote) (s : String) : Quotes (quoted quote s) s := by
  obtain ⟨d, hs, hd⟩ := (writes_escaped hq).string? (c := ⟨quoted quote s, 0⟩) hq rfl
  rw [List.flatMap_singleton', String.ofList_toList] at hs
  exact ⟨d, hs, hd⟩

theorem Reads.string {s : String} (h : Quotes l s) (u : List Lexeme) :
    Reads string (l :: u) u (· = s) := by
  obtain ⟨x, xs, rfl, hx⟩ := h.quote
  obtain ⟨d₀, hs, -⟩ := h
  refine .rule _ (.scan fun c d ht hc => ⟨s, ?_, rfl⟩)
  rw [Token.token?_string hc hx] at ht
  obtain ⟨⟨s', _⟩, hs', rfl⟩ := Option.map_eq_some_iff.mp ht
  have alone : Beside _ [] c ⟨x :: xs, 0⟩ := ⟨x :: xs, hc, (List.append_nil _).symm⟩
  obtain ⟨d', hd', -⟩ := alone.string? hs' (Nat.le_refl _)
  cases hs.symm.trans hd'
  exact hs'

theorem Rejects.string (h : ∀ x ∈ lead ls, ¬ IsQuote x) : Rejects string ls :=
  .rule _ fun _ _ hc => Token.string?_eq_none (hc.head ▸ h)

end Parser

end Nondet.Grammar
