import Mathlib.Data.Option.Basic
import Nondet.Proofs.Grammar.Tokens

/-!
# Grammar — Beside

What a scanner does not look at makes no difference to it.  Two places are beside one another when
their texts are the same up to some point; a scanner that does not go beyond that point in one of them
takes the same in the other, if a blank or nothing is there.
-/

namespace Nondet.Grammar

open Cursor

/-- The texts at the two places are the same in front of `t` and of `t'`. -/
def Beside (t t' : List Char) (c c' : Cursor) : Prop := ∃ y, c.rest = y ++ t ∧ c'.rest = y ++ t'

/-- The same is scanned, up to places beside one another. -/
def Alike {α : Type} (t t' : List Char) (p p' : α × Cursor) : Prop := p'.1 = p.1 ∧ Beside t t' p.2 p'.2

/-- A blank comes next, or nothing. -/
def Parted (t : List Char) : Prop := ∀ x ∈ t.head?, isSpace x

section Scanners

variable {t t' : List Char} {c c' d : Cursor}

theorem Beside.length (h : Beside t t' c c') : t.length ≤ c.rest.length := by
  obtain ⟨y, e, -⟩ := h
  rw [e, List.length_append]
  exact Nat.le_add_left _ _

theorem Beside.rest_eq (h : Beside t t' c c') (e : c.rest = t) : c'.rest = t' := by
  obtain ⟨y, e₁, e₂⟩ := h
  obtain rfl : y = [] := by simpa [e] using e₁
  exact e₂

/-- A stretch of characters that ends before the texts may differ. -/
theorem Beside.takeWhile_inside (h : Beside t t' c c') {p : Char → Bool}
    (hn : t.length < (c.takeWhile p).2.rest.length) : Alike t t' (c.takeWhile p) (c'.takeWhile p) := by
  obtain ⟨y, e, e'⟩ := h
  have inside : y.dropWhile p ≠ [] := fun hy => by
    rw [rest_takeWhile, e, List.dropWhile_append, hy] at hn
    exact absurd (List.dropWhile_suffix p).length_le (Nat.not_le_of_lt hn)
  have short : (y.takeWhile p).length ≠ y.length := fun hl => inside <| by
    have := congrArg List.length (List.takeWhile_append_dropWhile (p := p) (l := y))
    rw [List.length_append, hl] at this
    exact List.eq_nil_of_length_eq_zero (by omega)
  refine ⟨?_, y.dropWhile p, ?_, ?_⟩
  · rw [takeWhile_fst, takeWhile_fst, e, e', List.takeWhile_append, List.takeWhile_append,
      if_neg short, if_neg short]
  · rw [rest_takeWhile, e, List.dropWhile_append, if_neg (by simpa using inside)]
  · rw [rest_takeWhile, e', List.dropWhile_append, if_neg (by simpa using inside)]

/-- A stretch of characters that holds no blank and ends where the texts may differ, or before. -/
theorem Beside.takeWhile (h : Beside t t' c c') (ht : Parted t') {p : Char → Bool}
    (hp : ∀ x, isSpace x → p x = false) (hn : t.length ≤ (c.takeWhile p).2.rest.length) :
    Alike t t' (c.takeWhile p) (c'.takeWhile p) := by
  rcases Nat.lt_or_eq_of_le hn with hn | hn
  · exact h.takeWhile_inside hn
  obtain ⟨y, e, e'⟩ := h
  rw [rest_takeWhile, e] at hn
  have stop : (y ++ t).dropWhile p = t := by
    have behind := List.suffix_of_suffix_length_le (List.suffix_append y t)
      (List.dropWhile_suffix p (l := y ++ t)) (Nat.le_of_eq hn)
    exact (behind.eq_of_length hn).symm
  have taken : (y ++ t).takeWhile p = y := by
    have split := List.takeWhile_append_dropWhile (p := p) (l := y ++ t)
    rwa [stop, List.append_left_inj] at split
  have all : ∀ x ∈ y, p x := fun x hx => List.mem_takeWhile_imp (taken ▸ hx)
  have none : t'.takeWhile p = [] ∧ t'.dropWhile p = t' := by
    cases t' with
    | nil => exact ⟨rfl, rfl⟩
    | cons x xs => simp [hp x (ht x rfl)]
  refine ⟨?_, [], ?_, ?_⟩
  · rw [takeWhile_fst, takeWhile_fst, e, e', taken, List.takeWhile_append_of_pos all, none.1,
      List.append_nil]
  · rw [rest_takeWhile, e, stop, List.nil_append]
  · rw [rest_takeWhile, e', List.dropWhile_append_of_pos all, none.2, List.nil_append]

/-! ### Numbers -/

theorem not_isDigit_of_isSpace {x : Char} (h : isSpace x) : x.isDigit = false := by
  have all : ∀ x ∈ [' ', '\t', '\r', '\n'], x.isDigit = false := by decide
  exact all x (isSpace_iff.mp h)

/-- Either the texts may differ at once, or the same character comes next. -/
theorem Beside.first (h : Beside t t' c c') : (c.rest = t ∧ c'.rest = t') ∨
    ∃ x xs xs', c.rest = x :: xs ∧ c'.rest = x :: xs' ∧ ∀ o o', Beside t t' ⟨xs, o⟩ ⟨xs', o'⟩ := by
  obtain ⟨_ | ⟨x, y⟩, e, e'⟩ := h
  · exact .inl ⟨e, e'⟩
  · exact .inr ⟨x, y ++ t, y ++ t', e, e', fun _ _ => ⟨y, rfl, rfl⟩⟩

theorem literal?_char {x : Char} {xs : List Char} (e : c.rest = x :: xs) (z : Char) :
    c.literal? [z] = if z = x then some ⟨xs, c.offset + x.utf8Size⟩ else none := by
  simp only [Cursor.literal?, e]

/-- No blank is taken for another character. -/
theorem literal?_parted (ht : Parted c.rest) {z : Char} (hz : isSpace z = false) :
    c.literal? [z] = none := by
  refine literal?_eq_none fun h => ?_
  obtain ⟨r, e⟩ := h
  have := ht z (by rw [← e]; rfl)
  rw [hz] at this
  cases this

/-- Digits, unless they would be none. -/
theorem Beside.digits (h : Beside t t' c c') (ht : Parted t')
    (hn : (c.takeWhile Char.isDigit).1 ≠ [] → t.length ≤ (c.takeWhile Char.isDigit).2.rest.length) :
    Alike t t' (c.takeWhile Char.isDigit) (c'.takeWhile Char.isDigit) := by
  refine h.takeWhile ht (fun _ => not_isDigit_of_isSpace) ?_
  by_cases hd : (c.takeWhile Char.isDigit).1 = []
  · have split := List.takeWhile_append_dropWhile (p := Char.isDigit) (l := c.rest)
    rw [takeWhile_fst] at hd
    rw [hd, List.nil_append] at split
    rw [rest_takeWhile, split]
    exact h.length
  · exact hn hd

/-- What is scanned in `t` ends in `t`, and that is excluded. -/
theorem eq_none_of_suffix {α : Type} {o : Option (α × Cursor)} (e : c.rest = t)
    (hs : ∀ a d, o = some (a, d) → ∃ x xs, c.rest = x :: xs ∧ d.rest <:+ xs)
    (hn : ∀ a d, o = some (a, d) → t.length ≤ d.rest.length) : o = none :=
  Option.eq_none_iff_forall_ne_some.mpr fun ⟨a, d⟩ h => by
    obtain ⟨x, xs, e', hx⟩ := hs a d h
    have := hn a d h
    have := hx.length_le
    have := congrArg List.length (e.symm.trans e')
    rw [List.length_cons] at this
    omega

theorem Beside.fraction? (h : Beside t t' c c') (ht : Parted t')
    (hn : ∀ digits d, Token.fraction? c = some (digits, d) → t.length ≤ d.rest.length) :
    Option.Rel (Alike t t') (Token.fraction? c) (Token.fraction? c') := by
  rcases h.first with ⟨e, e'⟩ | ⟨x, xs, xs', e, e', h⟩
  · have none' : Token.fraction? c' = none := by
      rw [Token.fraction?, literal?_parted (e' ▸ ht) (by decide)]
      rfl
    rw [eq_none_of_suffix e (fun _ _ => Token.fraction?_suffix) hn, none']
    exact .none
  · unfold Token.fraction? at hn ⊢
    rw [literal?_char e] at hn ⊢
    rw [literal?_char e']
    by_cases hx : '.' = x
    · simp only [if_pos hx, Option.bind_eq_bind, Option.bind_some] at hn ⊢
      obtain ⟨ed, ha⟩ := (h (c.offset + x.utf8Size) (c'.offset + x.utf8Size)).digits ht
        fun hd => hn _ _ (if_neg (by simpa using hd))
      rw [ed]
      split
      · exact .none
      · exact .some ⟨rfl, ha⟩
    · simp only [if_neg hx]
      exact .none

/-- What stands behind the mark of an exponent. -/
def magnitude? (c : Cursor) : Option (Int × Cursor) :=
  let (negative, d) := Token.sign c
  let (digits, e) := d.takeWhile Char.isDigit
  if digits.isEmpty then none
  else
    let size : Int := Decimal.digitsValue digits
    some (if negative then -size else size, e)

theorem exponent?_eq (c : Cursor) : Token.exponent? c =
    ((c.literal? ['e']).orElse fun _ => c.literal? ['E']).bind magnitude? := rfl

theorem magnitude?_suffix {size : Int} (h : magnitude? c = some (size, d)) :
    ∃ x xs, c.rest = x :: xs ∧ d.rest <:+ xs := by
  unfold magnitude? at h
  simp only at h
  split at h
  · cases h
  next hd =>
    cases h
    rw [takeWhile_fst] at hd
    rw [rest_takeWhile]
    obtain ⟨pre, e⟩ := Token.sign_suffix c
    rcases hs : (Token.sign c).2.rest with _ | ⟨y, ys⟩
    · exact absurd (by rw [hs]; rfl) hd
    rw [hs] at e hd
    have hy : y.isDigit := by
      by_contra hy
      exact hd (by rw [List.takeWhile_cons_of_neg hy]; rfl)
    rw [List.dropWhile_cons_of_pos hy]
    have digits := List.dropWhile_suffix Char.isDigit (l := ys)
    cases pre with
    | nil => exact ⟨y, ys, e.symm, digits⟩
    | cons x pre =>
        exact ⟨x, pre ++ y :: ys, e.symm,
          digits.trans ((List.suffix_cons _ _).trans (List.suffix_append _ _))⟩

theorem Beside.magnitude? (h : Beside t t' c c') (ht : Parted t')
    (hn : ∀ size d, magnitude? c = some (size, d) → t.length ≤ d.rest.length) :
    Option.Rel (Alike t t') (Grammar.magnitude? c) (Grammar.magnitude? c') := by
  rcases h.first with ⟨e, e'⟩ | ⟨x, xs, xs', e, e', hx⟩
  · have sign : Token.sign c' = (false, c') := by
      rw [Token.sign, literal?_parted (e' ▸ ht) (by decide), literal?_parted (e' ▸ ht) (by decide)]
      rfl
    have none' : Grammar.magnitude? c' = none := by
      have no : (c'.takeWhile Char.isDigit).1 = [] := by
        rw [takeWhile_fst, e']
        cases t' with
        | nil => rfl
        | cons x xs => simp [not_isDigit_of_isSpace (ht x rfl)]
      simp only [Grammar.magnitude?, sign, no]
      rfl
    rw [eq_none_of_suffix e (fun _ _ => magnitude?_suffix) hn, none']
    exact .none
  · have sign : Alike t t' (Token.sign c) (Token.sign c') := by
      unfold Token.sign
      rw [literal?_char e, literal?_char e', literal?_char e, literal?_char e']
      by_cases hm : '-' = x
      · simp only [if_pos hm]
        exact ⟨rfl, hx _ _⟩
      by_cases hp : '+' = x
      · simp only [if_neg hm, if_pos hp]
        exact ⟨rfl, hx _ _⟩
      · simp only [if_neg hm, if_neg hp]
        exact ⟨rfl, h⟩
    unfold Grammar.magnitude? at hn ⊢
    simp only at hn ⊢
    obtain ⟨ed, ha⟩ := sign.2.digits ht fun hd => hn _ _ (if_neg (by simpa using hd))
    rw [ed, sign.1]
    split
    · exact .none
    · exact .some ⟨rfl, ha⟩

theorem Beside.exponent? (h : Beside t t' c c') (ht : Parted t')
    (hn : ∀ size d, Token.exponent? c = some (size, d) → t.length ≤ d.rest.length) :
    Option.Rel (Alike t t') (Token.exponent? c) (Token.exponent? c') := by
  rcases h.first with ⟨e, e'⟩ | ⟨x, xs, xs', e, e', h⟩
  · have none' : Token.exponent? c' = none := by
      rw [exponent?_eq, literal?_parted (e' ▸ ht) (by decide), literal?_parted (e' ▸ ht) (by decide)]
      rfl
    rw [eq_none_of_suffix e (fun _ _ => Token.exponent?_suffix) hn, none']
    exact .none
  · rw [exponent?_eq] at hn ⊢
    rw [exponent?_eq]
    rw [literal?_char e, literal?_char e] at hn ⊢
    rw [literal?_char e', literal?_char e']
    by_cases he : 'e' = x
    · simp only [if_pos he, Option.orElse_some, Option.bind_some] at hn ⊢
      exact (h _ _).magnitude? ht hn
    by_cases hE : 'E' = x
    · simp only [if_neg he, if_pos hE, Option.orElse_none, Option.bind_some] at hn ⊢
      exact (h _ _).magnitude? ht hn
    · simp only [if_neg he, if_neg hE, Option.orElse_none, Option.bind_none]
      exact .none

/-- What may be missing is there, or is missing, at both places. -/
theorem Beside.part {α : Type} {s : Cursor → Option (α × Cursor)} (a : α) (h : Beside t t' c c')
    (hs : (∀ b d, s c = some (b, d) → t.length ≤ d.rest.length) →
      Option.Rel (Alike t t') (s c) (s c'))
    (hn : t.length ≤ ((s c).getD (a, c)).2.rest.length) :
    Alike t t' ((s c).getD (a, c)) ((s c').getD (a, c')) := by
  have rel := hs fun b d e => by rwa [e] at hn
  revert rel
  cases s c <;> cases s c' <;> intro rel <;> cases rel
  · exact ⟨rfl, h⟩
  next h => exact h

/-- **A numeral is the same in front of anything that it does not go on in.** -/
theorem Beside.numeral? (h : Beside t t' c c') (ht : Parted t') {n : Decimal.Numeral}
    (hn : Token.numeral? c = some (n, d)) (hd : t.length ≤ d.rest.length) :
    ∃ d', Token.numeral? c' = some (n, d') ∧ Beside t t' d d' := by
  have fractions (e : Cursor) : ((Token.fraction? e).getD ([], e)).2.rest.length ≤ e.rest.length :=
    (Token.suffix_getD _ fun _ _ => Token.fraction?_suffix).length_le
  have exponents (e : Cursor) : ((Token.exponent? e).getD (0, e)).2.rest.length ≤ e.rest.length :=
    (Token.suffix_getD _ fun _ _ => Token.exponent?_suffix).length_le
  unfold Token.numeral? at hn ⊢
  simp only at hn ⊢
  split at hn
  · cases hn
  next hw =>
    obtain ⟨rfl, rfl⟩ := Prod.mk.inj (Option.some.inj hn)
    have hd₂ := Nat.le_trans hd (exponents _)
    have hd₁ := Nat.le_trans hd₂ (fractions _)
    obtain ⟨ew, h₁⟩ := h.digits ht fun _ => hd₁
    obtain ⟨ef, h₂⟩ := h₁.part [] (h₁.fraction? ht) hd₂
    obtain ⟨ee, h₃⟩ := h₂.part 0 (h₂.exponent? ht) hd
    exact ⟨_, by rw [ew, ef, ee, if_neg hw], h₃⟩

/-! ### Words, texts in quotes and symbols -/

/-- What is taken in front of `t` is in front of `t'`, too. -/
theorem append_eq_cons {x : Char} {xs y : List Char} (e : y ++ t = x :: xs)
    (hn : t.length ≤ xs.length) : ∃ y', y = x :: y' ∧ xs = y' ++ t := by
  cases y with
  | nil =>
      rw [List.nil_append] at e
      rw [e, List.length_cons] at hn
      omega
  | cons x' y =>
      obtain ⟨rfl, rfl⟩ := List.cons.inj e
      exact ⟨y, rfl, rfl⟩

/-- What holds no blank ends in front of one. -/
theorem prefix_parted (ht : Parted t) {s y : List Char} (hs : ∀ x ∈ s, isSpace x = false) :
    s <+: y ++ t ↔ s <+: y := by
  refine ⟨fun h => ?_, fun h => h.trans (List.prefix_append _ _)⟩
  induction s generalizing y with
  | nil => exact List.nil_prefix
  | cons x s ih =>
      rw [List.forall_mem_cons] at hs
      cases y with
      | nil =>
          obtain ⟨r, e⟩ := h
          have := ht x (by rw [List.nil_append] at e; rw [← e]; rfl)
          rw [hs.1] at this
          cases this
      | cons z y =>
          rw [List.cons_append, List.cons_prefix_cons] at h
          exact List.cons_prefix_cons.mpr ⟨h.1, ih hs.2 h.2⟩

theorem Beside.contents? {quote : Char} (hq : IsQuote quote) {taken xs y : List Char} {offset : Nat}
    {raw : List Char} (h : Token.contents? quote taken xs offset = some (raw, d)) (e : y ++ t = xs)
    (hn : t.length ≤ d.rest.length) (o : Nat) :
    ∃ d', Token.contents? quote taken (y ++ t') o = some (raw, d') ∧ Beside t t' d d' := by
  fun_induction Token.contents? quote taken xs offset generalizing y o with
  | case1 => cases h
  | case2 taken x xs offset ih =>
      have hx := Nat.le_trans hn (Token.contents?_suffix quote h).length_le
      obtain ⟨y, rfl, e₁⟩ := append_eq_cons e (Nat.le_succ_of_le hx)
      obtain ⟨y, rfl, e₂⟩ := append_eq_cons e₁.symm hx
      exact ih h e₂.symm (o + 1 + x.utf8Size)
  | case3 taken xs offset =>
      cases h
      obtain ⟨y, rfl, rfl⟩ := append_eq_cons e hn
      refine ⟨⟨y ++ t', o + quote.utf8Size⟩, ?_, y, rfl, rfl⟩
      rcases hq with rfl | rfl <;> simp [Token.contents?]
  | case4 => cases h
  | case5 taken x xs offset _ hx hb ih =>
      obtain ⟨y, rfl, rfl⟩ := append_eq_cons e
        (Nat.le_trans hn (Token.contents?_suffix quote h).length_le)
      obtain ⟨d', hd', hb'⟩ := ih h rfl (o + x.utf8Size)
      refine ⟨d', ?_, hb'⟩
      rw [List.cons_append, Token.contents?.eq_3 _ _ _ _ _ (by simp [hb]), if_neg hx, if_neg hb]
      exact hd'

theorem Beside.string? (h : Beside t t' c c') {s : String} (hs : Token.string? c = some (s, d))
    (hn : t.length ≤ d.rest.length) : ∃ d', Token.string? c' = some (s, d') ∧ Beside t t' d d' := by
  obtain ⟨y, e, e'⟩ := h
  unfold Token.string? at hs ⊢
  split at hs
  next x xs ex =>
    split at hs
    next hq =>
      obtain ⟨⟨raw, _⟩, hr, hp⟩ := Option.map_eq_some_iff.mp hs
      cases hp
      obtain ⟨y, rfl, rfl⟩ := append_eq_cons (e.symm.trans ex)
        (Nat.le_trans hn (Token.contents?_suffix x hr).length_le)
      obtain ⟨d', hd', hb⟩ := Beside.contents? (by simpa [IsQuote] using hq) hr rfl hn (c'.offset + 1)
      refine ⟨d', ?_, hb⟩
      simp only [e', List.cons_append, if_pos hq, hd']
      rfl
    next => cases hs
  next => cases hs

theorem Beside.word (h : Beside t t' c c') (ht : Parted t')
    (hn : t.length ≤ (Token.word c).2.rest.length) : Alike t t' (Token.word c) (Token.word c') := by
  have blank : ∀ x ∈ [' ', '\t', '\r', '\n'], Token.isWordChar x = false := by decide
  obtain ⟨e, hb⟩ := h.takeWhile ht (fun x hx => blank x (isSpace_iff.mp hx)) hn
  exact ⟨congrArg String.ofList e, hb⟩

theorem symbol_not_isSpace : ∀ s ∈ Token.symbols, ∀ x ∈ s, isSpace x = false := by decide

theorem Beside.symbol? (h : Beside t t' c c') (ht : Parted t') (hs : Token.symbol? c = some d)
    (hn : t.length ≤ d.rest.length) : ∃ d', Token.symbol? c' = some d' ∧ Beside t t' d d' := by
  obtain ⟨y, e, e'⟩ := h
  obtain ⟨s, hs, hr, hl, hm⟩ := Token.symbol?_eq_some_iff.mp hs
  have inside : s <+: y := by
    refine List.prefix_of_prefix_length_le ⟨d.rest, hr.symm⟩ (e ▸ List.prefix_append y t) ?_
    have := congrArg List.length (e.symm.trans hr)
    rw [List.length_append, List.length_append] at this
    omega
  obtain ⟨y, rfl⟩ := inside
  rw [List.append_assoc] at e'
  obtain ⟨d', hl', hr'⟩ := literal?_append e'
  refine ⟨d', Token.symbol?_eq_some_iff.mpr ⟨s, hs, hr' ▸ e', hl', fun s' hs' hp => hm s' hs' ?_⟩, y,
    ?_, hr'⟩
  · rw [e', ← List.append_assoc, prefix_parted ht (symbol_not_isSpace s' hs')] at hp
    exact hp.trans (e ▸ List.prefix_append _ _)
  · rw [e, List.append_assoc, List.append_cancel_left_eq] at hr
    exact hr.symm

/-- **A token is the same in front of anything parted from it.** -/
theorem Beside.token? (h : Beside t t' c c') (ht : Parted t') (hd : Token.token? c = some d)
    (hn : t.length ≤ d.rest.length) : ∃ d', Token.token? c' = some d' ∧ Beside t t' d d' := by
  obtain ⟨x, xs, e, hx⟩ := Token.token?_suffix hd
  have inside : t.length < c.rest.length := by
    have := hx.length_le
    rw [e, List.length_cons]
    omega
  rcases h.first with ⟨e', -⟩ | ⟨x', xs', xs'', e', e'', hb⟩
  · rw [e'] at inside
    exact absurd inside (Nat.lt_irrefl _)
  obtain ⟨rfl, rfl⟩ := List.cons.inj (e.symm.trans e')
  rcases Token.kind x with hk | hk | hk | hk
  · rw [Token.token?_word e hk] at hd
    cases hd
    exact ⟨_, Token.token?_word e'' hk, (h.word ht hn).2⟩
  · rw [Token.token?_number e hk] at hd
    obtain ⟨⟨n, _⟩, hm, rfl⟩ := Option.map_eq_some_iff.mp hd
    obtain ⟨d', hd', hb'⟩ := h.numeral? ht hm hn
    exact ⟨d', by rw [Token.token?_number e'' hk, hd']; rfl, hb'⟩
  · rw [Token.token?_string e hk] at hd
    obtain ⟨⟨s, _⟩, hs, rfl⟩ := Option.map_eq_some_iff.mp hd
    obtain ⟨d', hd', hb'⟩ := h.string? hs hn
    exact ⟨d', by rw [Token.token?_string e'' hk, hd']; rfl, hb'⟩
  · rw [Token.token?_symbol e hk] at hd
    rw [Token.token?_symbol e'' hk]
    split at hd
    · cases hd
    next hc =>
      rw [if_neg]
      · exact h.symbol? ht hd hn
      · obtain ⟨y, e₁, e₂⟩ := h
        rw [List.isPrefixOf_iff_prefix, e₁] at hc
        rw [List.isPrefixOf_iff_prefix, e₂, prefix_parted ht (by decide)]
        exact fun hp => hc (hp.trans (List.prefix_append _ _))

/-! ### Layout -/

theorem Beside.blockComment? {xs y : List Char} {offset : Nat} (h : blockComment? xs offset = some d)
    (e : y ++ t = xs) (hn : t.length < d.rest.length) (o : Nat) :
    ∃ d', blockComment? (y ++ t') o = some d' ∧ Beside t t' d d' := by
  fun_induction Cursor.blockComment? xs offset generalizing y o with
  | case1 => cases h
  | case2 xs offset =>
      cases h
      obtain ⟨y, rfl, e₁⟩ := append_eq_cons e (Nat.le_succ_of_le (Nat.le_of_lt hn))
      obtain ⟨y, rfl, e₂⟩ := append_eq_cons e₁.symm (Nat.le_of_lt hn)
      exact ⟨_, rfl, y, e₂, rfl⟩
  | case3 x xs offset hx ih =>
      have hl := Nat.lt_of_lt_of_le hn (blockComment?_suffix h).length_le
      obtain ⟨y, rfl, rfl⟩ := append_eq_cons e (Nat.le_of_lt hl)
      obtain ⟨d', hd', hb⟩ := ih h rfl (o + x.utf8Size)
      refine ⟨d', ?_, hb⟩
      -- What closes the comment is not in front of `t`, and not across it.
      cases y with
      | nil => exact absurd hl (Nat.lt_irrefl _)
      | cons z y =>
          rw [List.cons_append, Cursor.blockComment?.eq_3]
          · exact hd'
          · rintro _ rfl e
            obtain ⟨rfl, -⟩ := List.cons.inj e
            exact hx _ rfl rfl

/-- A blank or a comment that ends in front of `t`. -/
theorem Beside.skip? (h : Beside t t' c c') (hs : c.skip? = some d) (hn : t.length < d.rest.length) :
    ∃ d', c'.skip? = some d' ∧ Beside t t' d d' := by
  obtain ⟨y, e, e'⟩ := h
  unfold Cursor.skip? at hs
  split at hs
  next xs ex =>
    cases hs
    have hl : t.length < xs.length :=
      Nat.lt_of_lt_of_le hn (Token.suffix_takeWhile (· != '\n') ⟨xs, c.offset + 2⟩).length_le
    obtain ⟨y, rfl, e₁⟩ := append_eq_cons (e.symm.trans ex) (Nat.le_succ_of_le (Nat.le_of_lt hl))
    obtain ⟨y, rfl, e₂⟩ := append_eq_cons e₁.symm (Nat.le_of_lt hl)
    have line : Beside t t' ⟨xs, c.offset + 2⟩ ⟨y ++ t', c'.offset + 2⟩ := ⟨y, e₂, rfl⟩
    exact ⟨_, by rw [Cursor.skip?, e']; rfl, (line.takeWhile_inside hn).2⟩
  next xs ex =>
    have hl : t.length < xs.length := Nat.lt_of_lt_of_le hn (blockComment?_suffix hs).length_le
    obtain ⟨y, rfl, e₁⟩ := append_eq_cons (e.symm.trans ex) (Nat.le_succ_of_le (Nat.le_of_lt hl))
    obtain ⟨y, rfl, e₂⟩ := append_eq_cons e₁.symm (Nat.le_of_lt hl)
    obtain ⟨d', hd', hb⟩ := Beside.blockComment? hs e₂.symm hn (c'.offset + 2)
    exact ⟨d', by rw [Cursor.skip?, e']; exact hd', hb⟩
  next x xs no no' ex =>
    split at hs
    next hx =>
      cases hs
      obtain ⟨y, rfl, rfl⟩ := append_eq_cons (e.symm.trans ex) (Nat.le_of_lt hn)
      have other : x ≠ '/' := by
        rintro rfl
        cases hx
      exact ⟨⟨y ++ t', c'.offset + x.utf8Size⟩, by simp [Cursor.skip?, e', hx, other], y, rfl, rfl⟩
    next => cases hs
  next => cases hs

/-- In front of a token that ends in front of `t` no comment begins. -/
theorem Beside.skip?_none (h : Beside t t' c c') (ht : Parted t') (hs : c.skip? = none)
    (hd : Token.token? c = some d) (hn : t.length ≤ d.rest.length) : c'.skip? = none := by
  obtain ⟨x, xs, e, hx⟩ := Token.token?_suffix hd
  obtain ⟨y, e₁, e₂⟩ := h
  obtain ⟨y, rfl, rfl⟩ := append_eq_cons (e₁.symm.trans e) (Nat.le_trans hn hx.length_le)
  obtain ⟨hs, hl⟩ := of_skip?_eq_none hs e
  have shorter {s : List Char} (hb : ∀ x ∈ s, isSpace x = false) (h : s <+: c'.rest) :
      s <+: c.rest := by
    rw [e₂, prefix_parted ht hb] at h
    exact h.trans (e₁ ▸ List.prefix_append _ _)
  refine skip?_eq_none e₂ hs (fun h => hl (shorter (by decide) h)) fun h => ?_
  rw [Token.token?_comment (shorter (by decide) h)] at hd
  cases hd

/-- **Layout in front of a token.** -/
theorem Beside.layout {c c' : Cursor} (h : Beside t t' c c') (ht : Parted t')
    (hd : Token.token? c.layout = some d) (hn : t.length ≤ d.rest.length) :
    Beside t t' c.layout c'.layout := by
  have inside := Nat.lt_of_le_of_lt hn (Token.token?_length hd)
  cases hs : c.skip? with
  | none =>
      rw [layout_of_none hs] at hd ⊢
      rwa [layout_of_none (h.skip?_none ht hs hd hn)]
  | some e =>
      have length := skip?_length hs
      rw [layout_of_skip? hs] at hd inside ⊢
      obtain ⟨e', hs', he⟩ := h.skip? hs (Nat.lt_of_lt_of_le inside e.layout_length)
      rw [layout_of_skip? hs']
      exact he.layout ht hd hn
termination_by c.rest.length

/-- **Tokens are the same in front of anything parted from the last one.** -/
theorem Beside.reaches {ls : List Lexeme} (h : Beside t t' c c') (ht : Parted t')
    (hr : c.Reaches ls d) (hn : t.length ≤ d.rest.length) :
    ∃ d', c'.Reaches ls d' ∧ Beside t t' d d' := by
  induction hr generalizing c' with
  | nil => exact ⟨c', .nil, h⟩
  | @cons c e d l ls he hl hr ih =>
      have hd := Nat.le_trans hn hr.suffix.length_le
      have hb := h.layout ht he hd
      obtain ⟨e', he', hb'⟩ := hb.token? ht he hd
      obtain ⟨d', hr', hd'⟩ := ih hb' hn
      refine ⟨d', .cons he' ?_ hr', hd'⟩
      obtain ⟨z, e₁, e₂⟩ := hb
      obtain ⟨y, e₃, e₄⟩ := hb'
      rw [hl, e₃, ← List.append_assoc, List.append_cancel_right_eq] at e₁
      rw [e₂, e₄, ← e₁, List.append_assoc]

end Scanners

end Nondet.Grammar
