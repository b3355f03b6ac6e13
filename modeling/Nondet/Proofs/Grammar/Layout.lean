import Nondet.Grammar.Parser

/-!
# Grammar — Layout

What a scanner leaves of a text.  Layout goes past one blank or one comment at a time
(`Cursor.skip?`), so that it stops where there is none (`Cursor.skip?_layout`) and a second time
changes nothing.
-/

namespace Nondet.Grammar.Cursor

variable {c d : Cursor}

/-! ### Stretches of characters -/

theorem takeWhile_go (p : Char → Bool) (taken : List Char) : ∀ (xs : List Char) (offset : Nat),
    (takeWhile.go p taken xs offset).1 = taken.reverse ++ xs.takeWhile p ∧
      (takeWhile.go p taken xs offset).2.rest = xs.dropWhile p
  | [], _ => by simp [takeWhile.go]
  | x :: xs, offset => by
      rw [takeWhile.go]
      by_cases h : p x
      · obtain ⟨taken', rest⟩ := takeWhile_go p (x :: taken) xs (offset + x.utf8Size)
        simp [h, taken', rest]
      · simp [h]

/-- The stretch that is taken. -/
theorem takeWhile_fst (p : Char → Bool) (c : Cursor) : (c.takeWhile p).1 = c.rest.takeWhile p :=
  (takeWhile_go p [] c.rest c.offset).1

/-- What is left behind it. -/
theorem rest_takeWhile (p : Char → Bool) (c : Cursor) :
    (c.takeWhile p).2.rest = c.rest.dropWhile p := (takeWhile_go p [] c.rest c.offset).2

/-- Behind some characters that come next stands what follows them. -/
theorem literal?_append : ∀ {text r : List Char} {c : Cursor}, c.rest = text ++ r →
    ∃ d, c.literal? text = some d ∧ d.rest = r
  | [], _, c, h => ⟨c, rfl, h⟩
  | x :: text, r, ⟨rest, offset⟩, h => by
      obtain rfl : rest = x :: (text ++ r) := h
      simp only [literal?, if_true]
      exact literal?_append rfl

theorem rest_of_literal? : ∀ {text : List Char} {c d : Cursor}, c.literal? text = some d →
    c.rest = text ++ d.rest
  | [], c, d, h => by
      cases h
      rfl
  | x :: text, ⟨[], offset⟩, d, h => nomatch h
  | x :: text, ⟨y :: rest, offset⟩, d, h => by
      simp only [literal?] at h
      split at h
      next hxy => rw [hxy, List.cons_append, ← rest_of_literal? h]
      next => cases h

theorem literal?_eq_none {text : List Char} (h : ¬ text <+: c.rest) : c.literal? text = none :=
  Option.eq_none_iff_forall_ne_some.mpr fun d hd => h ⟨d.rest, (rest_of_literal? hd).symm⟩

theorem literal?_length {text : List Char} (h : c.literal? text = some d) :
    c.rest.length = text.length + d.rest.length := by
  rw [rest_of_literal? h, List.length_append]

theorem blockComment?_suffix : ∀ {xs : List Char} {offset : Nat}, blockComment? xs offset = some d →
    d.rest <:+ xs := by
  intro xs offset h
  fun_induction blockComment? xs offset with
  | case1 => cases h
  | case2 xs offset =>
      cases h
      exact (List.suffix_cons _ _).trans (List.suffix_cons _ _)
  | case3 offset x xs _ ih => exact (ih h).trans (List.suffix_cons _ _)

/-! ### One blank or comment -/

theorem isSpace_iff {x : Char} : isSpace x ↔ x ∈ [' ', '\t', '\r', '\n'] := by
  simp [isSpace, or_assoc]

/-- Behind the blank or the comment that comes next, if there is one. -/
def skip? (c : Cursor) : Option Cursor :=
  match c.rest with
  | '/' :: '/' :: xs => some ((⟨xs, c.offset + 2⟩ : Cursor).takeWhile (· != '\n')).2
  | '/' :: '*' :: xs => blockComment? xs (c.offset + 2)
  | x :: xs          => if isSpace x then some ⟨xs, c.offset + x.utf8Size⟩ else none
  | []               => none

/-- A blank or a comment takes its first character, and goes on in the text. -/
theorem skip?_suffix (h : c.skip? = some d) : ∃ x xs, c.rest = x :: xs ∧ d.rest <:+ xs := by
  unfold skip? at h
  split at h
  next xs e =>
    cases h
    refine ⟨_, _, e, ?_⟩
    rw [rest_takeWhile]
    exact (List.dropWhile_suffix _).trans (List.suffix_cons _ _)
  next xs e => exact ⟨_, _, e, (blockComment?_suffix h).trans (List.suffix_cons _ _)⟩
  next x xs _ _ e =>
    split at h
    next =>
      cases h
      exact ⟨x, xs, e, List.suffix_rfl⟩
    next => cases h
  next => cases h

theorem skip?_length (h : c.skip? = some d) : d.rest.length < c.rest.length := by
  obtain ⟨x, xs, e, hs⟩ := skip?_suffix h
  rw [e]
  exact Nat.lt_succ_of_le hs.length_le

/-- In front of a token there is no blank, and no two slashes. -/
theorem skip?_eq_none {x : Char} {xs : List Char} (e : c.rest = x :: xs) (hx : isSpace x = false)
    (hl : ¬ ['/', '/'] <+: c.rest) (hb : ¬ ['/', '*'] <+: c.rest) : c.skip? = none := by
  rw [skip?, e]
  split
  next e' => exact absurd ⟨_, (e.trans e').symm⟩ hl
  next e' => exact absurd ⟨_, (e.trans e').symm⟩ hb
  next e' =>
    injection e' with e' _
    rw [← e', hx]
    rfl
  next e' => cases e'

theorem of_skip?_eq_none {x : Char} {xs : List Char} (h : c.skip? = none) (e : c.rest = x :: xs) :
    isSpace x = false ∧ ¬ ['/', '/'] <+: c.rest := by
  rw [skip?] at h
  constructor
  · rw [← Bool.not_eq_true]
    intro hx
    have other : x ≠ '/' := by
      rintro rfl
      cases hx
    simp [e, hx, other] at h
  · rintro ⟨r, hr⟩
    rw [← hr] at h
    cases h

theorem layoutFrom_succ (fuel : Nat) (c : Cursor) :
    layoutFrom (fuel + 1) c = (c.skip?.map (layoutFrom fuel)).getD c := by
  rw [layoutFrom]
  split
  next e => simp [skip?, e]
  next e => split <;> simp [skip?, *]
  next x xs h h' e => split <;> simp [skip?, *]
  next e => simp [skip?, e]

/-- Where there is no blank and no comment, layout stops. -/
theorem layoutFrom_of_none (h : c.skip? = none) : ∀ fuel, layoutFrom fuel c = c
  | 0 => rfl
  | fuel + 1 => by rw [layoutFrom_succ, h]; rfl

/-- More fuel than there are characters makes no difference. -/
theorem layoutFrom_of_le : ∀ {fuel fuel' : Nat} {c : Cursor}, c.rest.length ≤ fuel →
    c.rest.length ≤ fuel' → layoutFrom fuel c = layoutFrom fuel' c := by
  intro fuel
  induction fuel with
  | zero =>
      intro fuel' c h _
      have e : c.skip? = none := by
        rw [skip?, List.eq_nil_of_length_eq_zero (Nat.le_zero.mp h)]
      rw [layoutFrom_of_none e, layoutFrom_of_none e]
  | succ fuel ih =>
      intro fuel' c h h'
      cases e : c.skip? with
      | none => rw [layoutFrom_of_none e, layoutFrom_of_none e]
      | some d =>
          have hd := skip?_length e
          cases fuel' with
          | zero => omega
          | succ fuel' =>
              rw [layoutFrom_succ, layoutFrom_succ, e]
              exact ih (by omega) (by omega)

theorem layout_eq_layoutFrom (c : Cursor) : c.layout = layoutFrom c.rest.length c := by
  unfold layout
  split
  next x xs e =>
    split
    next => rfl
    next h =>
      have hs : c.skip? = none := by
        rw [Bool.not_eq_true, Bool.or_eq_false_iff, beq_eq_false_iff_ne] at h
        rw [skip?, e]
        split <;> simp_all
      exact (layoutFrom_of_none hs _).symm
  next e => rw [e]; rfl

/-- **Layout is one blank or comment after the other.** -/
theorem layout_of_skip? (h : c.skip? = some d) : c.layout = d.layout := by
  have hd := skip?_length h
  rw [layout_eq_layoutFrom, layout_eq_layoutFrom d,
    layoutFrom_of_le (Nat.le_refl _) (Nat.le_succ c.rest.length), layoutFrom_succ, h]
  exact layoutFrom_of_le (Nat.le_of_lt hd) (Nat.le_refl _)

theorem layout_of_none (h : c.skip? = none) : c.layout = c := by
  rw [layout_eq_layoutFrom, layoutFrom_of_none h]

/-- Behind layout comes no blank and no comment. -/
theorem skip?_layout (c : Cursor) : c.layout.skip? = none ∧ c.layout.rest <:+ c.rest := by
  cases h : c.skip? with
  | none =>
      rw [layout_of_none h]
      exact ⟨h, List.suffix_rfl⟩
  | some d =>
      have hd := skip?_length h
      obtain ⟨x, xs, e, hx⟩ := skip?_suffix h
      obtain ⟨hs, hl⟩ := skip?_layout d
      rw [layout_of_skip? h, e]
      exact ⟨hs, (hl.trans hx).trans (List.suffix_cons _ _)⟩
termination_by c.rest.length

@[simp] theorem layout_layout (c : Cursor) : c.layout.layout = c.layout :=
  layout_of_none (skip?_layout c).1

theorem layout_suffix (c : Cursor) : c.layout.rest <:+ c.rest := (skip?_layout c).2

theorem layout_length (c : Cursor) : c.layout.rest.length ≤ c.rest.length := c.layout_suffix.length_le

end Nondet.Grammar.Cursor
