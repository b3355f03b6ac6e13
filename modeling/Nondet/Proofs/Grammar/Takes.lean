import Nondet.Proofs.Grammar.Lexeme
import Nondet.Proofs.Grammar.Binds

/-!
# Grammar — Takes

What a parser took of a text.  `Takes R p c` says that what is read at the place stands there as
tokens, and that the value and the tokens satisfy `R`; every combinator puts the tokens of its parts
together.  A symbol can be read out of a longer one, and then nothing that may follow it is read
behind it: `TakesOr` leaves this as a second case.
-/

namespace Nondet.Grammar

namespace Cursor

variable {c d e : Cursor} {l : Lexeme} {ls ts us : List Lexeme}

/-- The tokens stand between the two places, up to layout. -/
def Covers (c : Cursor) (ts : List Lexeme) (d : Cursor) : Prop :=
  ∃ e, c.Reaches ts e ∧ e.layout = d.layout

theorem Covers.refl (c : Cursor) : c.Covers [] c := ⟨c, .nil, rfl⟩

theorem Reaches.of_layout (h : c.Reaches (l :: ls) e) (hd : c.layout = d.layout) :
    d.Reaches (l :: ls) e := by
  cases h with
  | cons ht hl h =>
      rw [hd] at ht hl
      exact .cons ht hl h

theorem Covers.trans (h : c.Covers ts d) (h' : d.Covers us e) : c.Covers (ts ++ us) e := by
  obtain ⟨d', hr, hd⟩ := h
  obtain ⟨e', hr', he⟩ := h'
  cases us with
  | nil =>
      cases hr'
      exact ⟨d', by rwa [List.append_nil], hd.trans he⟩
  | cons u us => exact ⟨e', hr.trans (hr'.of_layout hd.symm), he⟩

theorem covers_layout : c.Covers ts d.layout ↔ c.Covers ts d := by
  simp only [Covers, layout_layout]

theorem layout_covers : c.layout.Covers ts d ↔ c.Covers ts d := by
  have toward : c.Covers [] c.layout := ⟨c, .nil, c.layout_layout.symm⟩
  have back : c.layout.Covers [] c := ⟨c.layout, .nil, c.layout_layout⟩
  exact ⟨toward.trans, back.trans⟩

theorem Covers.token (hc : c.layout = c) (ht : Token.token? c = some d) (hl : c.rest = l ++ d.rest) :
    c.Covers [l] d := ⟨d, .cons (by rw [hc, ht]) (by rw [hc, hl]) .nil, rfl⟩

/-- What is behind the tokens is behind them in the text. -/
theorem Covers.spells (h : c.Covers ts d) (hd : d.Spells us) : c.Spells (ts ++ us) := by
  obtain ⟨e, hr, he⟩ := hd
  obtain ⟨e', hr', he'⟩ := h.trans ⟨e, hr, rfl⟩
  exact ⟨e', hr', by rw [he', he]⟩

theorem Reaches.length (h : c.Reaches ts d) : d.rest.length + ts.length ≤ c.rest.length := by
  induction h with
  | nil => exact Nat.le_refl _
  | @cons c d e l ls ht _ _ ih =>
      have := Token.token?_length ht
      have := c.layout_length
      rw [List.length_cons]
      omega

/-- Every token takes a character. -/
theorem Covers.length (h : c.Covers ts d) : d.layout.rest.length + ts.length ≤ c.rest.length := by
  obtain ⟨e, hr, he⟩ := h
  have := hr.length
  have := e.layout_length
  rw [← he]
  omega

end Cursor

namespace Parser

variable {α β : Type} {c d : Cursor} {p q : Parser α} {R : α → List Lexeme → Prop}
  {S : β → List Lexeme → Prop}

/-- What is read at the place are tokens that satisfy `R` with the value. -/
def Takes (R : α → List Lexeme → Prop) (p : Parser α) (c : Cursor) : Prop :=
  AgreeAt (fun a d => ∃ ts, c.Covers ts d ∧ R a ts) p p c

/-- What is read at the place are such tokens, or it ends where no operand begins. -/
def TakesOr (R : α → List Lexeme → Prop) (p : Parser α) (c : Cursor) : Prop :=
  AgreeAt (fun a d => (∃ ts, c.Covers ts d ∧ R a ts) ∨ (d.layout = d ∧ NoOperand d)) p p c

namespace Takes

theorem imp {R' : α → List Lexeme → Prop} (h : Takes R p c) (hr : ∀ a ts, R a ts → R' a ts) :
    Takes R' p c := AgreeAt.imp h fun a _ _ ⟨ts, hc, ha⟩ => ⟨ts, hc, hr a ts ha⟩

/-- Where one parser agrees with another, what is read is what the other one reads. -/
theorem of_agrees {P : α → Cursor → Prop} (h : Takes R p c) (h' : AgreeAt P p q c) : Takes R q c :=
  fun f f' => by
    rw [← (h' f f).eq, ← (h' f' f').eq]
    exact h f f'

/-- A scanner that takes one token. -/
theorem scan {s : Cursor → Option (α × Cursor)} (hc : c.layout = c)
    (h : ∀ a d, s c = some (a, d) → ∃ l, Token.token? c = some d ∧ c.rest = l ++ d.rest ∧ R a [l]) :
    Takes R (scan s) c :=
  AgreeAt.scan fun a d hs => by
    obtain ⟨l, ht, hl, ha⟩ := h a d hs
    exact ⟨Nat.le_of_lt (Token.token?_length ht), [l], .token hc ht hl, ha⟩

theorem map {g : α → β} (h : Takes R p c) (hg : ∀ a ts, R a ts → S (g a) ts) :
    Takes S (p >>= fun a => Pure.pure (g a)) c :=
  AgreeAt.bind h fun a _ _ ⟨ts, hc, ha⟩ => .pure ⟨ts, hc, hg a ts ha⟩

theorem last {k : α → Parser β} (h : Takes R p c)
    (hk : ∀ a ts, R a ts → ∃ b, k a = Pure.pure b ∧ S b ts) : Takes S (p >>= k) c :=
  AgreeAt.bind h fun a _ _ ⟨ts, hc, ha⟩ => by
    obtain ⟨b, e, hb⟩ := hk a ts ha
    exact e ▸ .pure ⟨ts, hc, hb⟩

/-- What is taken behind layout, with the tokens in front of it. -/
theorem behind {q : Parser β} {ts : List Lexeme} (h : c.Covers ts d)
    (hq : Takes (fun b us => S b (ts ++ us)) q d.layout) :
    AgreeAt (fun b e => ∃ us, c.Covers us e ∧ S b us) (Parser.layout >>= fun _ => q)
      (Parser.layout >>= fun _ => q) d := by
  refine AgreeAt.bind AgreeAt.layout fun _ e _ he => ?_
  subst he
  exact AgreeAt.imp hq fun b e _ ⟨us, he, hb⟩ =>
    ⟨ts ++ us, (Cursor.covers_layout.mpr h).trans he, hb⟩

/-- One thing behind another, with layout between them. -/
theorem bind {k : α → Parser β} (h : Takes R p c)
    (hk : ∀ a d ts, d.layout = d → d.rest.length + ts.length ≤ c.rest.length → R a ts →
      Takes (fun b us => S b (ts ++ us)) (k a) d) :
    Takes S (p >>= fun a => Parser.layout >>= fun _ => k a) c :=
  AgreeAt.bind h fun a d _ ⟨ts, hc, ha⟩ => behind hc (hk a _ ts d.layout_layout hc.length ha)

/-- Nothing is taken. -/
theorem notNext (text : List Char) : Takes (fun _ ts => ts = []) (notNext text) c :=
  AgreeAt.imp (AgreeAt.notNext text) fun _ _ _ e => ⟨[], e ▸ .refl c, rfl⟩

theorem rule (r : Rule) (h : Takes R p c) : Takes R (rule r p) c := AgreeAt.rule h

theorem spanned {p : Parser (Span → α)} (h : Takes (fun build ts => ∀ span, R (build span) ts) p c) :
    Takes R (spanned p) c :=
  AgreeAt.spanned (AgreeAt.imp h fun _ _ _ ⟨ts, hc, hb⟩ span => ⟨ts, hc, hb span⟩)

theorem orElse (h : Takes R p c) (h' : Takes R q c) : Takes R (p.orElse q) c := AgreeAt.orElse h h'

theorem choice {ps : List (Parser α)} (h : ∀ p ∈ ps, Takes R p c) : Takes R (choice ps) c :=
  AgreeAt.choice (List.forall₂_same.mpr h)

theorem optional (h : Takes R p c) :
    Takes (fun o ts => (o = none ∧ ts = []) ∨ ∃ a, o = some a ∧ R a ts) (optional p) c := by
  refine (AgreeAt.optional_iff h h).imp fun o d _ ho => ?_
  cases o with
  | none =>
      obtain ⟨rfl, -⟩ := ho
      exact ⟨[], .refl d, .inl ⟨rfl, rfl⟩⟩
  | some a =>
      obtain ⟨⟨ts, hc, ha⟩, -⟩ := ho
      exact ⟨ts, hc, .inr ⟨a, rfl, ha⟩⟩

end Takes

namespace TakesOr

/-- One thing behind another, with layout between them, if the other one can be behind it. -/
theorem bind {k : α → Parser β} (h : TakesOr R p c)
    (hf : ∀ a d, d.layout = d → NoOperand d → FailsAt (k a) d)
    (hk : ∀ a d ts, d.layout = d → d.rest.length + ts.length ≤ c.rest.length → R a ts →
      Takes (fun b us => S b (ts ++ us)) (k a) d) :
    Takes S (p >>= fun a => Parser.layout >>= fun _ => k a) c := by
  refine AgreeAt.bind h fun a d _ ha => ?_
  rcases ha with ⟨ts, hc, ha⟩ | ⟨hd, none⟩
  · exact Takes.behind hc (hk a _ ts d.layout_layout hc.length ha)
  · exact (FailsAt.layout (by rw [hd]; exact hf a d hd none)).agrees

end TakesOr

/-! ### Repetition -/

/-- The items stand one behind the other, each with its tokens. -/
def Items (R : α → List Lexeme → Prop) (as : List α) (ts : List Lexeme) : Prop :=
  ∃ items : List (α × List Lexeme), as = items.map Prod.fst ∧ ts = items.flatMap Prod.snd ∧
    ∀ x ∈ items, R x.1 x.2

namespace Items

theorem nil : Items R [] [] := ⟨[], rfl, rfl, nofun⟩

theorem one {a : α} {ts : List Lexeme} (h : R a ts) : Items R [a] ts :=
  ⟨[(a, ts)], rfl, by simp, List.forall_mem_singleton.mpr h⟩

theorem append {as bs : List α} {ts us : List Lexeme} (h : Items R as ts) (h' : Items R bs us) :
    Items R (as ++ bs) (ts ++ us) := by
  obtain ⟨items, rfl, rfl, h⟩ := h
  obtain ⟨items', rfl, rfl, h'⟩ := h'
  exact ⟨items ++ items', List.map_append.symm, List.flatMap_append.symm,
    List.forall_mem_append.mpr ⟨h, h'⟩⟩

end Items

section Many

variable {X : Cursor → Prop} {ts : List Lexeme} {b : Cursor}

/-- No item is read where none can be. -/
theorem manyFrom_failsAt (hd : d.layout = d) (h : FailsAt p d) (fuel : Nat) (taken : List α)
    (f : Farthest) : (manyFrom p fuel taken d f).1 = some (taken.reverse, d) := by
  cases fuel with
  | zero => rfl
  | succ fuel =>
      have none := h.fst f
      rw [manyFrom, hd]
      rcases e : p d f with ⟨_ | r, f₁⟩
      · rfl
      · rw [e] at none
        cases none

theorem takes_manyFrom (hX : ∀ d, X d → d.layout = d ∧ FailsAt p d)
    (h : ∀ d, d.layout = d → d.rest.length ≤ b.rest.length →
      AgreeAt (fun a e => (∃ ts, d.Covers ts e ∧ R a ts) ∨ X e) p p d) :
    ∀ (fuel : Nat) {taken : List α} {ts : List Lexeme} {c : Cursor}, b.Covers ts c →
      Items R taken.reverse ts → c.rest.length ≤ b.rest.length → ∀ f f',
        Same (fun as e => (∃ ts, b.Covers ts e ∧ Items R as ts) ∨ X e) c
          (manyFrom p fuel taken c f).1 (manyFrom p fuel taken c f').1
  | 0, taken, ts, c, hc, ht, _, _, _ => .some (Nat.le_refl _) (.inl ⟨ts, hc, ht⟩)
  | fuel + 1, taken, ts, c, hc, ht, hl, f, f' => by
      have hlayout := c.layout_length
      rcases (h c.layout c.layout_layout (by omega)).results f f' with
          ⟨f₁, f₁', e, e'⟩ | ⟨a, d, f₁, f₁', e, e', hd, ha⟩ <;> simp only [manyFrom, e, e']
      · exact .some (Nat.le_refl _) (.inl ⟨ts, hc, ht⟩)
      have hdc : d.rest.length ≤ c.rest.length := by omega
      rcases ha with ⟨us, hu, ha⟩ | hx
      · have items : Items R (a :: taken).reverse (ts ++ us) := by
          rw [List.reverse_cons]
          exact ht.append (.one ha)
        exact (takes_manyFrom hX h fuel (hc.trans (Cursor.layout_covers.mp hu)) items (by omega)
          f₁ f₁').farther hdc
      · obtain ⟨hd, none⟩ := hX d hx
        rw [manyFrom_failsAt hd none, manyFrom_failsAt hd none]
        exact .some hdc (.inr hx)

theorem takes_many (hX : ∀ d, X d → d.layout = d ∧ FailsAt p d) (hc : c.layout = c)
    (h : ∀ d, d.layout = d → d.rest.length ≤ c.rest.length →
      AgreeAt (fun a e => (∃ ts, d.Covers ts e ∧ R a ts) ∨ X e) p p d) :
    AgreeAt (fun as e => (∃ ts, c.Covers ts e ∧ Items R as ts) ∨ X e) (many p) (many p) c := by
  intro f f'
  rcases (h c hc (Nat.le_refl _)).results f f' with
      ⟨f₁, f₁', e, e'⟩ | ⟨a, d, f₁, f₁', e, e', hd, ha⟩ <;> simp only [many, e, e']
  · exact .some (Nat.le_refl _) (.inl ⟨[], .refl c, .nil⟩)
  rcases ha with ⟨us, hu, ha⟩ | hx
  · have one : Items R [a].reverse us := .one ha
    exact (takes_manyFrom hX h _ hu one hd f₁ f₁').farther hd
  · obtain ⟨hl, none⟩ := hX d hx
    rw [manyFrom_failsAt hl none, manyFrom_failsAt hl none]
    exact .some hd (.inr hx)

theorem Takes.many (hc : c.layout = c)
    (h : ∀ d, d.layout = d → d.rest.length ≤ c.rest.length → Takes R p d) :
    Takes (Items R) (many p) c :=
  (takes_many (fun _ => False.elim) hc fun d hd hl =>
    AgreeAt.imp (h d hd hl) fun _ _ _ => .inl).imp fun _ _ _ h => h.resolve_right id

theorem TakesOr.many (hc : c.layout = c)
    (hf : ∀ d, d.layout = d → NoOperand d → FailsAt p d)
    (h : ∀ d, d.layout = d → d.rest.length ≤ c.rest.length → TakesOr R p d) :
    TakesOr (Items R) (many p) c :=
  takes_many (fun d hd => ⟨hd.1, hf d hd.1 hd.2⟩) hc h

/-- Items with a comma between each two. -/
theorem Takes.separated (hc : c.layout = c)
    (hs : ∀ d, d.layout = d → Takes (fun _ ts => ts = [[',']]) (symbol [',']) d)
    (h : ∀ d, d.layout = d → d.rest.length ≤ c.rest.length → Takes R p d) :
    Takes (fun as ts => ∃ items : List (α × List Lexeme), as = items.map Prod.fst ∧
      ts = inCommas (items.map Prod.snd) ∧ ∀ x ∈ items, R x.1 x.2) (separated [','] p) c := by
  refine .bind (h c hc (Nat.le_refl _)) fun a d ts hd hl ha => ?_
  have other (e : Cursor) (he : e.layout = e) (hle : e.rest.length ≤ d.rest.length) :
      Takes (fun a ts => R a ts.tail ∧ ts = [','] :: ts.tail) (do symbol [',']; layout; p) e :=
    .bind (hs e he) fun _ g _ hg hlg hts => (h g hg (by omega)).imp fun a us ha => by
      subst hts
      exact ⟨ha, rfl⟩
  refine .map (.many hd other) fun as us has => ?_
  obtain ⟨items, rfl, rfl, h⟩ := has
  refine ⟨(a, ts) :: items.map fun x => (x.1, x.2.tail), by simp, ?_, ?_⟩
  · rw [List.map_cons, inCommas, List.map_map, List.flatMap_map]
    exact congrArg (ts ++ ·) (List.flatMap_congr fun x hx => (h x hx).2)
  · rw [List.forall_mem_cons, List.forall_mem_map]
    exact ⟨ha, fun x hx => (h x hx).1⟩

end Many

/-! ### Tokens -/

/-- Behind a part of a symbol no operand begins. -/
theorem noOperand_of_head (h : ∃ x ∈ d.rest.head?, x ∈ ['=', '>', '*']) :
    d.layout = d ∧ NoOperand d := by
  obtain ⟨x, hx, hm⟩ := h
  obtain ⟨xs, e⟩ : ∃ xs, d.rest = x :: xs := by
    cases e : d.rest with
    | nil =>
        rw [e] at hx
        cases hx
    | cons y ys =>
        rw [e] at hx
        cases hx
        exact ⟨ys, rfl⟩
  have clear : ∀ x ∈ ['=', '>', '*'], Cursor.isSpace x = false ∧ x ≠ '/' := by decide
  obtain ⟨hs, hd⟩ := clear x hm
  have noSlash {ys : List Char} : ¬ '/' :: ys <+: d.rest := fun h => by
    rw [e, List.cons_prefix_cons] at h
    exact hd h.1.symm
  refine ⟨Cursor.layout_of_none (Cursor.skip?_eq_none e hs noSlash noSlash), fun y hy => ?_⟩
  rw [e] at hy
  cases hy
  exact List.mem_append_right [')', ';', '\x7d'] hm

theorem TakesOr.symbol (hc : c.layout = c) {s : Lexeme} (hs : s ∈ Token.symbols) :
    TakesOr (fun _ ts => ts = [s]) (symbol s) c :=
  AgreeAt.scan fun _ d h => by
    obtain ⟨d', h, e⟩ := Option.map_eq_some_iff.mp h
    cases e
    refine ⟨(Token.suffix_literal? h).length_le, ?_⟩
    rcases Token.token?_or hs h with ht | hx
    · exact .inl ⟨[s], .token hc ht (Cursor.rest_of_literal? h), rfl⟩
    · exact .inr (noOperand_of_head hx)

theorem TakesOr.operator (r : Rule) (hc : c.layout = c) {s : Lexeme} (hs : s ∈ Token.symbols) (a : α) :
    TakesOr (fun b ts => b = a ∧ ts = [s]) (operator r s a) c :=
  AgreeAt.rule (AgreeAt.bind (TakesOr.symbol hc hs) fun _ _ _ h =>
    .pure (h.imp_left fun ⟨ts, hc, hts⟩ => ⟨ts, hc, rfl, hts⟩))

/-- A symbol that nothing else begins with. -/
theorem Takes.symbol (hc : c.layout = c) {s : Lexeme} (hs : s ∈ Token.symbols)
    (hw : ∀ s' ∈ ['/', '*'] :: Token.symbols, s <+: s' → s' = s) :
    Takes (fun _ ts => ts = [s]) (symbol s) c :=
  .scan hc fun _ d h => by
    obtain ⟨d', h, e⟩ := Option.map_eq_some_iff.mp h
    cases e
    exact ⟨s, Token.token?_of_whole hs hw h, Cursor.rest_of_literal? h, rfl⟩

namespace Takes

theorem word (hc : c.layout = c) {r : Rule} {words : List (String × α)}
    (hr : ∀ w ∈ words.map Prod.fst, w ∈ Token.reserved) :
    Takes (fun a ts => ∃ w, words.lookup w = some a ∧ ts = [w.toList])
      (Parser.rule r (Parser.scan (Token.oneOf? words))) c := by
  refine .rule r (.scan hc fun a d h => ?_)
  obtain ⟨a', hl, e⟩ := Option.map_eq_some_iff.mp h
  cases e
  have hl : words.lookup (Token.word c).1 = some a := hl
  have reserved : (Token.word c).1 ∈ Token.reserved := by
    obtain ⟨l₁, l₂, rfl, -⟩ := List.lookup_eq_some_iff.mp hl
    exact hr _ (by simp)
  obtain ⟨x, xs, e, hx⟩ := first_of_reserved reserved
  exact ⟨_, Token.token?_word e hx, Token.word_append c, _, hl, rfl⟩

theorem keyword (hc : c.layout = c) (r : Rule) {w : String} (hw : w ∈ Token.reserved) :
    Takes (fun _ ts => ts = [w.toList]) (keyword r w) c := by
  refine (word hc (by simpa using hw)).imp fun _ ts h => ?_
  obtain ⟨w', hl, rfl⟩ := h
  obtain ⟨l₁, l₂, e, -⟩ := List.lookup_eq_some_iff.mp hl
  have hm : (w', ()) ∈ [(w, ())] := e ▸ by simp
  rw [(Prod.mk.inj (List.mem_singleton.mp hm)).1]

theorem name (hc : c.layout = c) : Takes (fun s ts => IsName s ∧ ts = [s.toList]) name c := by
  refine .rule _ (.scan hc fun s d h => ?_)
  obtain ⟨hw, -, x, xs, e, hx⟩ := Token.name?_eq_some h
  have ht := Token.token?_word e hx
  have split := Token.word_append c
  rw [hw] at ht split
  exact ⟨_, ht, split, (Token.isName_of_name? h).1, rfl⟩

theorem number (hc : c.layout = c) :
    Takes (fun x ts => ∃ text, ReadsBack text x ∧ ts = [text.toList]) number c := by
  refine .rule _ (.scan hc fun x d h => ?_)
  obtain ⟨⟨n, d'⟩, h, e⟩ := Option.map_eq_some_iff.mp h
  cases e
  obtain ⟨l, e⟩ := (Token.numeral?_suffix h).trans (Token.suffix_takeWhile _ _)
  obtain ⟨y, ys, ey, hy⟩ := Token.digit_of_numeral? h
  have alone : Beside d.rest [] c (.start (String.ofList l)) := ⟨l, e.symm, by simp [Cursor.start]⟩
  obtain ⟨d', hd', hb⟩ := alone.numeral? nofun h (Nat.le_refl _)
  exact ⟨l, by rw [Token.token?_number ey hy, h]; rfl, e.symm, String.ofList l,
    ⟨n, d', hd', hb.rest_eq rfl, rfl⟩, by rw [String.toList_ofList]⟩

theorem string (hc : c.layout = c) :
    Takes (fun s ts => ∃ l, Quotes l s ∧ ts = [l]) string c := by
  refine .rule _ (.scan hc fun s d h => ?_)
  obtain ⟨x, xs, e, hx, r, rfl⟩ := Token.quote_of_string? h
  have alone : Beside d.rest [] c ⟨x :: r, 0⟩ := ⟨x :: r, e, (List.append_nil _).symm⟩
  obtain ⟨d', hd', hb⟩ := alone.string? h (Nat.le_refl _)
  exact ⟨x :: r, by rw [Token.token?_string e hx, h]; rfl, e, _, ⟨d', hd', hb.rest_eq rfl⟩, rfl⟩

end Takes

theorem takesOr_infixOperator (hc : c.layout = c) :
    TakesOr (fun op ts => ts = [Infix.text op]) infixOperator c := by
  have texts : ∀ e ∈ Infix.table, e.2.1 ∈ Token.symbols ∧ e.2.1 = e.2.2.text := by decide
  refine Infix.infixOperator_eq ▸ AgreeAt.choice (List.forall₂_same.mpr fun p hp => ?_)
  obtain ⟨e, he, rfl⟩ := List.mem_map.mp hp
  obtain ⟨hs, ht⟩ := texts e he
  exact AgreeAt.imp (TakesOr.operator e.1 hc hs e.2.2) fun op d _ h =>
    h.imp_left fun ⟨ts, hc, hop, hts⟩ => ⟨ts, hc, by rw [hts, hop, ht]⟩

theorem takesOr_prefixMark (hc : c.layout = c) :
    TakesOr (fun mark ts => ts = [mark.op.symbol.toList]) prefixMark c := by
  have one (r : Rule) (op : UnaryOp) (ht : op.symbol.toList ∈ Token.symbols) :
      TakesOr (fun a ts => ts = [a.symbol.toList]) (operator r op.symbol.toList op) c :=
    AgreeAt.imp (TakesOr.operator r hc ht op) fun op d _ h =>
      h.imp_left fun ⟨ts, hc, hop, hts⟩ => ⟨ts, hc, by rw [hts, hop]⟩
  refine AgreeAt.spanned (AgreeAt.bind (AgreeAt.orElse (one .neg .neg (by decide))
    (one .not .not (by decide))) fun op d _ h => .pure fun span => h)

end Parser

end Nondet.Grammar
