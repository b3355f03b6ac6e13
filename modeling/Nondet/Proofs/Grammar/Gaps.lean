import Nondet.Proofs.Grammar.Beside

/-!
# Grammar — Gaps

What stands between tokens tells nothing.  A blank or a comment is a relation between what is in
front of it and what is left behind it (`skip?_iff`), so that layout depends on the text alone.  A gap
is a text of blanks and complete comments: layout in front of a gap goes on behind it
(`Gap.layout_rest`), and where nothing but layout is left, the end of the line makes a gap of it
(`gap_of_layout`).
-/

namespace Nondet.Grammar

open Cursor

variable {c d e : Cursor} {ls ts us : List Lexeme} {r s : List Char}

/-! ### Blanks and comments -/

/-- From the first text to the second one there is a blank or a comment.  A line comment goes to the
end of the line, and a block comment to the first closing mark. -/
inductive Skips : List Char → List Char → Prop
  | blank {x r} (hx : isSpace x) : Skips (x :: r) r
  | line {body r} (hb : '\n' ∉ body) (hr : ∀ x ∈ r.head?, x = '\n') :
      Skips ('/' :: '/' :: (body ++ r)) r
  | block {body r} (hb : ¬ ['*', '/'] <:+: body) : Skips ('/' :: '*' :: (body ++ '*' :: '/' :: r)) r

theorem of_blockComment? {xs : List Char} {offset : Nat} (h : blockComment? xs offset = some d) :
    ∃ body, xs = body ++ '*' :: '/' :: d.rest ∧ ¬ ['*', '/'] <:+: body := by
  fun_induction blockComment? xs offset with
  | case1 => cases h
  | case2 xs offset =>
      cases h
      exact ⟨[], rfl, by simp⟩
  | case3 x xs offset hx ih =>
      obtain ⟨body, rfl, hb⟩ := ih h
      refine ⟨x :: body, rfl, fun hi => (List.infix_cons_iff.mp hi).elim (fun hp => ?_) hb⟩
      obtain ⟨e, z, rfl⟩ := List.cons_prefix_cons.mp hp
      exact hx (z ++ '*' :: '/' :: d.rest) e.symm (by simp)

theorem blockComment?_append {body : List Char} (hb : ¬ ['*', '/'] <:+: body) (offset : Nat) :
    ∃ d, blockComment? (body ++ '*' :: '/' :: r) offset = some d ∧ d.rest = r := by
  induction body generalizing offset with
  | nil => exact ⟨_, rfl, rfl⟩
  | cons x body ih =>
      rw [List.infix_cons_iff, not_or] at hb
      obtain ⟨d, hd, hr⟩ := ih hb.2 (offset + x.utf8Size)
      refine ⟨d, ?_, hr⟩
      rw [List.cons_append, blockComment?.eq_3]
      · exact hd
      · rintro z rfl hz
        -- The mark is not closed in the body, and its first character does not close one.
        cases body with
        | nil => cases hz
        | cons y body =>
            obtain ⟨rfl, -⟩ := List.cons.inj hz
            exact hb.1 (by simp)

/-- What `skip?` goes past depends on the text alone. -/
theorem skip?_iff : (∃ d, c.skip? = some d ∧ d.rest = r) ↔ Skips c.rest r := by
  constructor
  · rintro ⟨d, hs, rfl⟩
    unfold skip? at hs
    split at hs
    next xs e =>
      cases hs
      have line : '\n' ∉ xs.takeWhile (· != '\n') := fun hm => by
        simpa using List.mem_takeWhile_imp hm
      have ended : ∀ x ∈ (xs.dropWhile (· != '\n')).head?, x = '\n' := fun x hx => by
        have := List.head?_dropWhile_not (· != '\n') xs
        rw [hx] at this
        simpa using this
      have skips := Skips.line line ended
      rw [List.takeWhile_append_dropWhile] at skips
      rwa [e, rest_takeWhile]
    next xs e =>
      obtain ⟨body, rfl, hb⟩ := of_blockComment? hs
      exact e ▸ .block hb
    next x xs _ _ e =>
      split at hs
      next hx =>
        cases hs
        exact e ▸ .blank hx
      next => cases hs
    next => cases hs
  · intro h
    obtain ⟨rest, offset⟩ := c
    cases h with
    | @blank x _ hx =>
        have other : x ≠ '/' := by
          rintro rfl
          cases hx
        exact ⟨⟨r, offset + x.utf8Size⟩, by simp [skip?, hx, other], rfl⟩
    | @line body _ hb hr =>
        have inside : ∀ x ∈ body, (x != '\n') = true := fun x hx =>
          bne_iff_ne.mpr fun e => hb (e ▸ hx)
        have stop : r.dropWhile (· != '\n') = r := by
          cases r with
          | nil => rfl
          | cons x r => rw [hr x rfl]; rfl
        exact ⟨_, rfl, by rw [rest_takeWhile, List.dropWhile_append_of_pos inside, stop]⟩
    | block hb => exact blockComment?_append hb _

/-- So does what layout leaves. -/
theorem layout_rest_congr {c d : Cursor} (h : c.rest = d.rest) : c.layout.rest = d.layout.rest := by
  cases hc : c.skip? with
  | none =>
      have none : d.skip? = none := Option.eq_none_iff_forall_ne_some.mpr fun d' hd => by
        obtain ⟨c', hc', -⟩ := skip?_iff.mpr (h ▸ skip?_iff.mp ⟨d', hd, rfl⟩)
        exact nomatch hc.symm.trans hc'
      rw [layout_of_none hc, layout_of_none none, h]
  | some c' =>
      obtain ⟨d', hd, hr⟩ := skip?_iff.mpr (h ▸ skip?_iff.mp ⟨c', hc, rfl⟩)
      have := skip?_length hc
      rw [layout_of_skip? hc, layout_of_skip? hd]
      exact layout_rest_congr hr.symm
termination_by c.rest.length

theorem layout_rest_of_skips (h : Skips c.rest d.rest) : c.layout.rest = d.layout.rest := by
  obtain ⟨d', hd, hr⟩ := skip?_iff.mpr h
  rw [layout_of_skip? hd, layout_rest_congr hr]

/-! ### Gaps -/

/-- Blanks and complete comments, where a line comment is complete with the end of its line. -/
inductive Gap : List Char → Prop
  | nil : Gap []
  | blank {x s} (hx : isSpace x) (h : Gap s) : Gap (x :: s)
  | line {body s} (hb : '\n' ∉ body) (h : Gap s) : Gap ('/' :: '/' :: (body ++ '\n' :: s))
  | block {body s} (hb : ¬ ['*', '/'] <:+: body) (h : Gap s) :
      Gap ('/' :: '*' :: (body ++ '*' :: '/' :: s))

/-- **Layout goes on behind a gap.** -/
theorem Gap.layout_rest (h : Gap s) {c d : Cursor} (hr : c.rest = s ++ d.rest) :
    c.layout.rest = d.layout.rest := by
  induction h generalizing c with
  | nil => exact layout_rest_congr hr
  | @blank x s hx _ ih =>
      have skips : Skips c.rest (s ++ d.rest) := hr ▸ .blank hx
      exact (layout_rest_of_skips (d := ⟨s ++ d.rest, 0⟩) skips).trans (ih rfl)
  | @line body s hb _ ih =>
      have line : Skips c.rest ('\n' :: (s ++ d.rest)) := by
        rw [hr, List.cons_append, List.cons_append, List.append_assoc]
        exact .line hb fun x hx => by cases hx; rfl
      have skips : Skips ('\n' :: (s ++ d.rest)) (s ++ d.rest) := .blank rfl
      exact ((layout_rest_of_skips (d := ⟨'\n' :: (s ++ d.rest), 0⟩) line).trans
        (layout_rest_of_skips (d := ⟨s ++ d.rest, 0⟩) skips)).trans (ih rfl)
  | @block body s hb _ ih =>
      have skips : Skips c.rest (s ++ d.rest) := by
        rw [hr, List.cons_append, List.cons_append, List.append_assoc]
        exact .block hb
      exact (layout_rest_of_skips (d := ⟨s ++ d.rest, 0⟩) skips).trans (ih rfl)

/-- Where only layout is left, the end of the line makes a gap of it. -/
theorem gap_of_layout {c : Cursor} (h : c.layout.rest = []) : Gap (c.rest ++ ['\n']) := by
  cases hc : c.skip? with
  | none =>
      rw [layout_of_none hc] at h
      rw [h]
      exact .blank rfl .nil
  | some d =>
      have := skip?_length hc
      rw [layout_of_skip? hc] at h
      have behind := gap_of_layout h
      have skips := skip?_iff.mp ⟨d, hc, rfl⟩
      generalize c.rest = r, d.rest = r' at skips behind
      cases skips with
      | blank hx => exact .blank hx behind
      | @line body _ hb hr =>
          cases r' with
          | nil => simpa using Gap.line hb .nil
          | cons x r' =>
              obtain rfl : x = '\n' := hr x rfl
              cases behind with
              | blank _ h => simpa using Gap.line hb h
      | block hb => simpa using Gap.block hb behind
termination_by c.rest.length

/-! ### Gaps between tokens -/

namespace Cursor

/-- The tokens are those behind layout. -/
theorem Spells.congr (hs : c.Spells ts) (h : c.layout.rest = d.layout.rest) : d.Spells ts := by
  obtain ⟨e, he, hr⟩ := spells_layout.mpr hs
  have beside : Beside [] [] c.layout d.layout :=
    ⟨c.layout.rest, (List.append_nil _).symm, by rw [h, List.append_nil]⟩
  obtain ⟨e', he', y, e₁, e₂⟩ := beside.reaches nofun he (Nat.zero_le _)
  exact spells_layout.mp ⟨e', he', by rw [layout_rest_congr (e₂.trans e₁.symm), hr]⟩

/-- Behind a gap the tokens go on. -/
theorem Reaches.spells (h : c.Reaches ls d) (hs : Gap s) (hr : d.rest = s ++ e.rest)
    (he : e.Spells us) : c.Spells (ls ++ us) := by
  obtain ⟨e', h', none⟩ := he.congr (hs.layout_rest hr).symm
  exact ⟨e', h.trans h', none⟩

/-- Of the tokens of a text the first ones are those up to a place, and the others are behind it. -/
theorem Reaches.behind (h : c.Reaches ls d) (hs : c.Spells ts) : ∃ us, ts = ls ++ us ∧ d.Spells us := by
  induction h generalizing ts with
  | nil => exact ⟨ts, rfl, hs⟩
  | @cons c d e l ls ht hl _ ih =>
      obtain ⟨g, hg, none⟩ := hs
      cases hg with
      | nil =>
          rw [Token.token?, none] at ht
          cases ht
      | cons ht' hl' hg =>
          obtain rfl := Option.some.inj (ht.symm.trans ht')
          rw [hl, List.append_cancel_right_eq] at hl'
          obtain ⟨us, rfl, hu⟩ := ih ⟨g, hg, none⟩
          exact ⟨us, by rw [hl', List.cons_append], hu⟩

end Cursor

end Nondet.Grammar
