import Nondet.Proofs.Grammar.Agree
import Nondet.Proofs.Grammar.Beside

/-!
# Grammar — Reads

Parsers on texts of lexemes.  `Reads p ls u P` says that the parser reads the lexemes `ls` up to where
`u` is left, and gives a value that satisfies `P`; `Rejects p ls` says that it reads nothing there.
Where a lexeme ends is settled once, in `Cursor.At`; from then on a text is a list, and every
combinator is a rule about lists.  One text of given lexemes is that with a space between each two
(`joined`).
-/

namespace Nondet.Grammar

/-- By itself it is a token. -/
structure Lexeme.Solid (l : Lexeme) : Prop where
  noLayout : (⟨l, 0⟩ : Cursor).skip? = none
  token : (Token.token? ⟨l, 0⟩).map Cursor.rest = some []

instance (l : Lexeme) : Decidable l.Solid :=
  decidable_of_iff (_ ∧ _) ⟨fun ⟨hs, ht⟩ => ⟨hs, ht⟩, fun h => ⟨h.noLayout, h.token⟩⟩

/-- It is a token wherever it is parted from what follows it. -/
theorem Lexeme.Solid.parted {l : Lexeme} (h : l.Solid) {c : Cursor} {t : List Char}
    (hr : c.rest = l ++ t) (ht : Parted t) :
    c.skip? = none ∧ ∃ d, Token.token? c = some d ∧ d.rest = t := by
  obtain ⟨d₀, hd₀, none⟩ := Option.map_eq_some_iff.mp h.token
  have beside : Beside [] t ⟨l, 0⟩ c := ⟨l, (List.append_nil l).symm, hr⟩
  obtain ⟨d, hd, y, e, e'⟩ := beside.token? ht hd₀ (Nat.zero_le _)
  obtain rfl : y = [] := by simpa [none] using e.symm
  exact ⟨beside.skip?_none ht h.noLayout hd₀ (Nat.zero_le _), d, hd, e'⟩

/-- Lexemes with a space in front of each. -/
def spaced (ls : List Lexeme) : List Char := ls.flatMap (' ' :: ·)

/-- Lexemes with a space between each two. -/
def joined : List Lexeme → List Char
  | []      => []
  | l :: ls => l ++ spaced ls

theorem intercalate_eq_joined : ∀ ls : List Lexeme, [' '].intercalate ls = joined ls
  | []           => rfl
  | [l]          => by simp [joined, spaced]
  | l :: l' :: ls => by
      have ih := intercalate_eq_joined (l' :: ls)
      rw [List.intercalate_cons_cons, ih]
      simp [joined, spaced]

/-- A stretch of characters that excludes the space ends with the lexeme. -/
theorem takeWhile_lexeme {p : Char → Bool} (hp : p ' ' = false) (l : Lexeme) (u : List Lexeme) :
    (l ++ spaced u).takeWhile p = l.takeWhile p ∧
      (l ++ spaced u).dropWhile p = l.dropWhile p ++ spaced u := by
  induction l with
  | nil => cases u <;> simp [spaced, hp]
  | cons x l ih => by_cases hx : p x <;> simp [hx, ih]

theorem parted_spaced : ∀ ls : List Lexeme, Parted (spaced ls)
  | []     => nofun
  | _ :: _ => by
      rintro _ ⟨⟩
      rfl

namespace Cursor

variable {c : Cursor} {ls : List Lexeme}

/-- A space parts two tokens. -/
theorem spells_spaced : ∀ {ls : List Lexeme} {c : Cursor}, (∀ l ∈ ls, l.Solid) →
    c.rest = spaced ls → c.Spells ls
  | [], c, _, hr => by
      have none : c.rest = [] := hr
      exact ⟨c, .nil, by simpa [none] using c.layout_suffix⟩
  | l :: ls, c, hs, hr => by
      rw [List.forall_mem_cons] at hs
      have hr : c.rest = ' ' :: (l ++ spaced ls) := hr
      let e : Cursor := ⟨l ++ spaced ls, c.offset + ' '.utf8Size⟩
      have skip : c.skip? = some e := by
        rw [skip?, hr]
        rfl
      have he : e.rest = l ++ spaced ls := rfl
      obtain ⟨none, d, ht, hd⟩ := hs.1.parted he (parted_spaced ls)
      have layout := (layout_of_skip? skip).trans (layout_of_none none)
      exact .cons (by rw [layout, ht]) (by rw [layout, hd]) (spells_spaced hs.2 hd)

theorem at_joined (hs : ∀ l ∈ ls, l.Solid) (hr : c.rest = joined ls) : c.At ls := by
  cases ls with
  | nil => exact ⟨layout_of_none (by rw [skip?, hr]; rfl), spells_spaced hs hr⟩
  | cons l ls =>
      rw [List.forall_mem_cons] at hs
      obtain ⟨none, d, ht, hd⟩ := hs.1.parted hr (parted_spaced ls)
      have layout := layout_of_none none
      exact ⟨layout, .cons (by rw [layout, ht]) (by rw [layout, hd]; exact hr) (spells_spaced hs.2 hd)⟩

end Cursor

namespace Parser

variable {α β : Type} {c : Cursor} {l : Lexeme} {ls u v : List Lexeme} {P : α → Prop} {Q : β → Prop}

/-- On the lexemes `ls` the parser gives a value that satisfies `P`, and leaves the lexemes `u`. -/
def Reads (p : Parser α) (ls u : List Lexeme) (P : α → Prop) : Prop :=
  ∀ c f, c.At ls → ∃ a d, (p c f).1 = some (a, d) ∧ d.layout.At u ∧ P a

/-- On the lexemes the parser gives nothing. -/
def Rejects (p : Parser α) (ls : List Lexeme) : Prop := ∀ c f, c.At ls → (p c f).1 = none

/-- What two parsers that agree read is the same. -/
theorem AgreeAt.reads_iff {A : α → Cursor → Prop} {p q : Parser α} (h : ∀ c, AgreeAt A p q c) :
    Reads p ls u P ↔ Reads q ls u P := by
  have same (c : Cursor) (f : Farthest) : (p c f).1 = (q c f).1 := (h c f f).eq
  simp only [Reads, same]

theorem AgreeAt.rejects_iff {A : α → Cursor → Prop} {p q : Parser α} (h : ∀ c, AgreeAt A p q c) :
    Rejects p ls ↔ Rejects q ls := by
  have same (c : Cursor) (f : Farthest) : (p c f).1 = (q c f).1 := (h c f f).eq
  simp only [Rejects, same]

theorem rule_fst (r : Rule) (p : Parser α) (c : Cursor) (f : Farthest) :
    (rule r p c f).1 = (p c f).1 := by
  rcases h : p c f with ⟨_ | ⟨a, d⟩, f'⟩ <;> simp only [rule, h]

/-- How a parser that reads runs. -/
theorem Reads.run {p : Parser α} (h : Reads p ls u P) (hc : c.At ls) (f : Farthest) :
    ∃ a d f₁, p c f = (some (a, d), f₁) ∧ d.layout.At u ∧ P a := by
  obtain ⟨a, d, hr, hd, ha⟩ := h c f hc
  exact ⟨a, d, (p c f).2, Prod.ext hr rfl, hd, ha⟩

/-- How a parser that rejects runs. -/
theorem Rejects.run {p : Parser α} (h : Rejects p ls) (hc : c.At ls) (f : Farthest) :
    ∃ f₁, p c f = (none, f₁) := ⟨(p c f).2, Prod.ext (h c f hc) rfl⟩

namespace Reads

variable {p q : Parser α}

theorem imp {P' : α → Prop} (h : Reads p ls u P) (hp : ∀ a, P a → P' a) : Reads p ls u P' :=
  fun c f hc =>
    have ⟨a, d, hr, hd, ha⟩ := h c f hc
    ⟨a, d, hr, hd, hp a ha⟩

/-- A scanner that takes one token. -/
theorem scan {s : Cursor → Option (α × Cursor)}
    (h : ∀ c d, Token.token? c = some d → c.rest = l ++ d.rest → ∃ a, s c = some (a, d) ∧ P a) :
    Reads (scan s) (l :: u) u P := by
  intro c f hc
  obtain ⟨d, ht, hr, hd⟩ := hc.token
  obtain ⟨a, hs, ha⟩ := h c d ht hr
  exact ⟨a, d, hs, hd, ha⟩

/-- One thing behind another, with layout between them. -/
theorem bind {k : α → Parser β} (h : Reads p ls u P) (hk : ∀ a, P a → Reads (k a) u v Q) :
    Reads (p >>= fun a => layout >>= fun _ => k a) ls v Q := by
  intro c f hc
  obtain ⟨a, d, f₁, hp, hd, ha⟩ := h.run hc f
  rw [bind_run, hp]
  exact hk a ha d.layout f₁ hd

/-- Nothing is read behind the last thing. -/
theorem last {k : α → Parser β} (h : Reads p ls u P)
    (hk : ∀ a, P a → ∃ b, k a = Pure.pure b ∧ Q b) : Reads (p >>= k) ls u Q := by
  intro c f hc
  obtain ⟨a, d, f₁, hp, hd, ha⟩ := h.run hc f
  obtain ⟨b, hk, hb⟩ := hk a ha
  have run : k a d f₁ = (some (b, d), f₁) := congrFun (congrFun hk d) f₁
  rw [bind_run, hp]
  exact ⟨b, d, congrArg Prod.fst run, hd, hb⟩

theorem map {g : α → β} (h : Reads p ls u P) (hg : ∀ a, P a → Q (g a)) :
    Reads (p >>= fun a => Pure.pure (g a)) ls u Q := h.last fun a ha => ⟨g a, rfl, hg a ha⟩

theorem rule (r : Rule) (h : Reads p ls u P) : Reads (rule r p) ls u P := fun c f hc => by
  rw [rule_fst]
  exact h c f hc

theorem spanned {p : Parser (Span → α)} (h : Reads p ls u fun build => ∀ span, P (build span)) :
    Reads (spanned p) ls u P := by
  intro c f hc
  obtain ⟨build, d, f₁, hp, hd, hb⟩ := h.run hc f
  simp only [Parser.spanned, hp]
  exact ⟨_, d, rfl, hd, hb _⟩

theorem orElse_left (h : Reads p ls u P) : Reads (p.orElse q) ls u P := by
  intro c f hc
  obtain ⟨a, d, f₁, hp, hd, ha⟩ := h.run hc f
  simp only [Parser.orElse, hp]
  exact ⟨a, d, rfl, hd, ha⟩

theorem orElse_right (h : Rejects p ls) (h' : Reads q ls u P) : Reads (p.orElse q) ls u P := by
  intro c f hc
  obtain ⟨f₁, hp⟩ := h.run hc f
  simp only [Parser.orElse, hp]
  exact h' c f₁ hc

theorem optional (h : Reads p ls u P) : Reads (optional p) ls u fun o => ∃ a, o = some a ∧ P a := by
  intro c f hc
  obtain ⟨a, d, f₁, hp, hd, ha⟩ := h.run hc f
  simp only [Parser.optional, hp]
  exact ⟨some a, d, rfl, hd, a, rfl, ha⟩

theorem optional_none (h : Rejects p ls) : Reads (Parser.optional p) ls ls (· = none) := by
  intro c f hc
  obtain ⟨f₁, hp⟩ := h.run hc f
  simp only [Parser.optional, hp]
  exact ⟨none, c, rfl, hc.layout.symm ▸ hc, rfl⟩

/-! ### Repetition -/

theorem many_nil (h : Rejects p ls) : Reads (Parser.many p) ls ls (· = []) := by
  intro c f hc
  obtain ⟨f₁, hp⟩ := h.run hc f
  simp only [Parser.many, hp]
  exact ⟨[], c, rfl, hc.layout.symm ▸ hc, rfl⟩

section Many

variable {ι : Type} {text : ι → List Lexeme} {R : ι → α → Prop} {F : List Lexeme → Prop}

/-- The item is read wherever the lexemes behind it satisfy `F`, and the item satisfies it with
them. -/
def Item (p : Parser α) (F : List Lexeme → Prop) (text : List Lexeme) (P : α → Prop) : Prop :=
  text ≠ [] ∧ ∀ v, F v → F (text ++ v) ∧ Reads p (text ++ v) v P

theorem follows : ∀ {xs : List ι}, (∀ x ∈ xs, Item p F (text x) (R x)) → F u →
    F (xs.flatMap text ++ u)
  | [], _, hF => hF
  | x :: xs, h, hF => by
      rw [List.forall_mem_cons] at h
      rw [List.flatMap_cons, List.append_assoc]
      exact (h.1.2 _ (follows h.2 hF)).1

/-- Items one after the other, with fuel for each of them. -/
theorem manyFrom (hF : F u) (hu : Rejects p u) : ∀ (fuel : Nat) {xs : List ι} (taken : List α)
    {c : Cursor} (f : Farthest), xs.length ≤ fuel → (∀ x ∈ xs, Item p F (text x) (R x)) →
    c.layout.At (xs.flatMap text ++ u) →
    ∃ as d, (manyFrom p fuel taken c f).1 = some (taken.reverse ++ as, d) ∧ d.layout.At u ∧
      List.Forall₂ R xs as
  | 0, [], taken, c, f, _, _, hc => ⟨[], c, by simp [Parser.manyFrom], hc, .nil⟩
  | fuel + 1, [], taken, c, f, _, _, hc => by
      obtain ⟨f₁, hp⟩ := hu.run hc f
      exact ⟨[], c, by simp [Parser.manyFrom, hp], hc, .nil⟩
  | fuel + 1, x :: xs, taken, c, f, hl, hx, hc => by
      rw [List.forall_mem_cons] at hx
      rw [List.flatMap_cons, List.append_assoc] at hc
      obtain ⟨a, d, f₁, hp, hd, ha⟩ := (hx.1.2 _ (follows hx.2 hF)).2.run hc f
      obtain ⟨as, d', hr, hd', has⟩ := manyFrom hF hu fuel (a :: taken) f₁
        (Nat.le_of_succ_le_succ hl) hx.2 hd
      exact ⟨a :: as, d', by simpa [Parser.manyFrom, hp] using hr, hd', .cons ha has⟩

theorem length_le_flatMap : ∀ {xs : List ι}, (∀ x ∈ xs, text x ≠ []) →
    xs.length ≤ (xs.flatMap text).length
  | [], _ => Nat.le_refl _
  | x :: xs, h => by
      rw [List.forall_mem_cons] at h
      have := List.length_pos_of_ne_nil h.1
      have := length_le_flatMap h.2
      rw [List.flatMap_cons, List.length_append, List.length_cons]
      omega

theorem many (hF : F u) (hu : Rejects p u) : ∀ {xs : List ι}, (∀ x ∈ xs, Item p F (text x) (R x)) →
    Reads (many p) (xs.flatMap text ++ u) u (List.Forall₂ R xs)
  | [], _ => (many_nil hu).imp fun _ h => h ▸ .nil
  | x :: xs, hx => fun c f hc => by
      rw [List.forall_mem_cons] at hx
      rw [List.flatMap_cons, List.append_assoc] at hc
      obtain ⟨a, d, f₁, hp, hd, ha⟩ := (hx.1.2 _ (follows hx.2 hF)).2.run hc f
      -- Every item has a lexeme, and every lexeme a character.
      have items := length_le_flatMap fun y hy => (hx.2 y hy).1
      have lexemes := hd.length
      have fuel : xs.length ≤ d.rest.length + 1 := by
        have := d.layout_length
        rw [List.length_append] at lexemes
        omega
      obtain ⟨as, d', hr, hd', has⟩ := manyFrom hF hu _ [a] f₁ fuel hx.2 hd
      exact ⟨a :: as, d', by simpa [Parser.many, hp] using hr, hd', .cons ha has⟩

/-- Items with a separator between each two.  The first item need not be told from what is behind
the last one. -/
theorem separated {separator : Lexeme} (hu : Rejects (symbol separator) u) (hF : F u)
    (hs : ∀ v, Reads (symbol separator) (separator :: v) v fun _ => True)
    (hsF : ∀ v, F (separator :: v)) {x : ι} {xs : List ι}
    (hx : ∀ y ∈ x :: xs, ∀ v, F v → Reads p (text y ++ v) v (R y)) :
    Reads (separated separator p) (text x ++ xs.flatMap (fun y => separator :: text y) ++ u) u
      (List.Forall₂ R (x :: xs)) := by
  rw [List.forall_mem_cons] at hx
  have rejects : Rejects (do symbol separator; Parser.layout; p) u := by
    intro c f hc
    obtain ⟨f₁, hp⟩ := hu.run hc f
    rw [bind_run, hp]
  have items : ∀ y ∈ xs, Item (do symbol separator; Parser.layout; p) F (separator :: text y) (R y) :=
    fun y hy => ⟨nofun, fun v hv => ⟨hsF _, bind (hs _) fun _ _ => hx.2 y hy v hv⟩⟩
  rw [List.append_assoc]
  exact bind (hx.1 _ (follows items hF)) fun a ha => map (many hF rejects items) fun as has =>
    .cons ha has

end Many

end Reads

namespace Rejects

variable {p q : Parser α}

theorem bind_left {k : α → Parser β} (h : Rejects p ls) : Rejects (p >>= k) ls := by
  intro c f hc
  obtain ⟨f₁, hp⟩ := h.run hc f
  rw [bind_run, hp]

/-- What is read first is no help when what is behind it is rejected. -/
theorem bind {k : α → Parser β} (h : Reads p ls u P) (hk : ∀ a, P a → Rejects (k a) u) :
    Rejects (p >>= fun a => layout >>= fun _ => k a) ls := by
  intro c f hc
  obtain ⟨a, d, f₁, hp, hd, ha⟩ := h.run hc f
  rw [bind_run, hp]
  exact hk a ha d.layout f₁ hd

theorem rule (r : Rule) (h : Rejects p ls) : Rejects (rule r p) ls := fun c f hc => by
  rw [rule_fst]
  exact h c f hc

theorem spanned {p : Parser (Span → α)} (h : Rejects p ls) : Rejects (spanned p) ls := by
  intro c f hc
  obtain ⟨f₁, hp⟩ := h.run hc f
  simp only [Parser.spanned, hp]

theorem orElse (h : Rejects p ls) (h' : Rejects q ls) : Rejects (p.orElse q) ls := by
  intro c f hc
  obtain ⟨f₁, hp⟩ := h.run hc f
  simp only [Parser.orElse, hp]
  exact h' c f₁ hc

theorem choice {ps : List (Parser α)} (h : ∀ p ∈ ps, Rejects p ls) : Rejects (choice ps) ls := by
  induction ps with
  | nil => exact fun _ _ _ => rfl
  | cons p ps ih =>
      rw [List.forall_mem_cons] at h
      exact orElse h.1 (ih h.2)

end Rejects

end Parser

end Nondet.Grammar
