import Mathlib.Data.List.Forall2
import Nondet.Proofs.Grammar.Fused
import Nondet.Proofs.Grammar.Layout

/-!
# Grammar — Agree

Parsers that read the same.  `AgreeAt P p q c` compares two parsers at one place of a text and says
what they read there, if they read anything: a value and a place behind it that satisfy `P`.  The
record of failed attempts is left out on both sides, and so the relation also says of one parser
that the record does not tell it what to read.  Every combinator passes the relation on, with what is
read by its parts.
-/

namespace Nondet.Grammar

namespace Parser

variable {α β : Type} {c d : Cursor}

/-- The results are the same: nothing, or a value and a place that satisfy `P`, no farther from the
end of the text than `c`. -/
inductive Same (P : α → Cursor → Prop) (c : Cursor) :
    Option (α × Cursor) → Option (α × Cursor) → Prop
  | none : Same P c none none
  | some {a d} (hd : d.rest.length ≤ c.rest.length) (ha : P a d) : Same P c (some (a, d)) (some (a, d))

/-- At the place the parsers read the same, whatever failed before. -/
def AgreeAt (P : α → Cursor → Prop) (p q : Parser α) (c : Cursor) : Prop :=
  ∀ f f', Same P c (p c f).1 (q c f').1

namespace Same

variable {P Q : α → Cursor → Prop} {r r' r'' : Option (α × Cursor)}

theorem imp (h : Same P c r r') (hq : ∀ a d, d.rest.length ≤ c.rest.length → P a d → Q a d) :
    Same Q c r r' := by
  cases h with
  | none => exact .none
  | some hd ha => exact .some hd (hq _ _ hd ha)

/-- What is read farther on is read from here, too. -/
theorem farther (hd : d.rest.length ≤ c.rest.length) (h : Same P d r r') : Same P c r r' := by
  cases h with
  | none => exact .none
  | some hd' ha => exact .some (Nat.le_trans hd' hd) ha

theorem symm (h : Same P c r r') : Same P c r' r := by
  cases h with
  | none => exact .none
  | some hd ha => exact .some hd ha

theorem eq (h : Same P c r r') : r = r' := by cases h <;> rfl

/-- What is read satisfies `P`. -/
theorem of_eq_some (h : Same P c r r') {a : α} (hr : r = Option.some (a, d)) :
    P a d ∧ d.rest.length ≤ c.rest.length := by
  cases h with
  | none => cases hr
  | some hd ha =>
      cases hr
      exact ⟨ha, hd⟩

end Same

/-- What two parsers that agree come to. -/
theorem AgreeAt.results {P : α → Cursor → Prop} {p p' : Parser α} (h : AgreeAt P p p' c)
    (f f' : Farthest) :
    (∃ f₁ f₁', p c f = (none, f₁) ∧ p' c f' = (none, f₁')) ∨
      ∃ a d f₁ f₁', p c f = (some (a, d), f₁) ∧ p' c f' = (some (a, d), f₁') ∧
        d.rest.length ≤ c.rest.length ∧ P a d := by
  have hs := h f f'
  rcases hp : p c f with ⟨o, f₁⟩
  rcases hp' : p' c f' with ⟨o', f₁'⟩
  rw [hp, hp'] at hs
  cases hs with
  | none => exact .inl ⟨f₁, f₁', rfl, rfl⟩
  | some hd ha => exact .inr ⟨_, _, f₁, f₁', rfl, rfl, hd, ha⟩

theorem bind_run (p : Parser α) (k : α → Parser β) (c : Cursor) (f : Farthest) :
    (p >>= k) c f = match p c f with
      | (some (a, c), f) => k a c f
      | (none, f)        => (none, f) := rfl

namespace AgreeAt

variable {P P' : α → Cursor → Prop} {Q : β → Cursor → Prop} {p p' p'' : Parser α} {r : Rule}

theorem imp (h : AgreeAt P p p' c) (hp : ∀ a d, d.rest.length ≤ c.rest.length → P a d → P' a d) :
    AgreeAt P' p p' c := fun f f' => (h f f').imp hp

theorem symm (h : AgreeAt P p p' c) : AgreeAt P p' p c := fun f f' => (h f' f).symm

theorem and (h : AgreeAt P p p' c) (h' : AgreeAt P' p p' c) :
    AgreeAt (fun a d => P a d ∧ P' a d) p p' c := fun f f' => by
  rcases h.results f f' with ⟨f₁, f₁', e, e'⟩ | ⟨a, d, f₁, f₁', e, e', hd, ha⟩
  · rw [e, e']
    exact .none
  · have ha' := ((h' f f').of_eq_some (by rw [e])).1
    rw [e, e']
    exact .some hd ⟨ha, ha'⟩

/-- What agrees with something agrees with itself. -/
theorem right (h : AgreeAt P p p' c) : AgreeAt P p' p' c := fun f f' => by
  rw [← (h f f).eq]
  exact h f f'

theorem pure {a : α} (h : P a c) : AgreeAt P (pure a) (pure a) c :=
  fun _ _ => .some (Nat.le_refl _) h

theorem fail : AgreeAt P fail fail c := fun _ _ => .none

theorem bind {k k' : α → Parser β} (h : AgreeAt P p p' c)
    (hk : ∀ a d, d.rest.length ≤ c.rest.length → P a d → AgreeAt Q (k a) (k' a) d) :
    AgreeAt Q (p >>= k) (p' >>= k') c := by
  intro f f'
  rw [bind_run, bind_run]
  rcases h.results f f' with ⟨f₁, f₁', e, e'⟩ | ⟨a, d, f₁, f₁', e, e', hd, ha⟩ <;> rw [e, e']
  · exact .none
  · exact (hk a d hd ha f₁ f₁').farther hd

/-- A scanner records nothing. -/
theorem scan {s : Cursor → Option (α × Cursor)}
    (h : ∀ a d, s c = some (a, d) → d.rest.length ≤ c.rest.length ∧ P a d) :
    AgreeAt P (scan s) (scan s) c := by
  intro f f'
  change Same P c (s c) (s c)
  rcases hs : s c with _ | ⟨a, d⟩
  · exact .none
  · obtain ⟨hd, ha⟩ := h a d hs
    exact .some hd ha

/-- Behind layout comes none. -/
theorem layout : AgreeAt (fun _ d => d = c.layout) layout layout c :=
  fun _ _ => .some c.layout_length rfl

/-- Some characters. -/
theorem symbol (x : Char) (xs : List Char) :
    AgreeAt (fun _ d => d.rest.length < c.rest.length) (symbol (x :: xs)) (symbol (x :: xs)) c :=
  scan fun _ d h => by
    obtain ⟨d', h', e⟩ := Option.map_eq_some_iff.mp h
    cases e
    have := Cursor.literal?_length h'
    rw [List.length_cons] at this
    omega

theorem notNext (text : List Char) :
    AgreeAt (fun _ d => d = c) (notNext text) (notNext text) c :=
  scan fun _ d h => by
    split at h
    · cases h
    · cases h
      exact ⟨Nat.le_refl _, rfl⟩

theorem orElse {q q' : Parser α} (h : AgreeAt P p p' c) (h' : AgreeAt P q q' c) :
    AgreeAt P (p.orElse q) (p'.orElse q') c := by
  intro f f'
  rcases h.results f f' with ⟨f₁, f₁', e, e'⟩ | ⟨a, d, f₁, f₁', e, e', hd, ha⟩ <;>
    simp only [Parser.orElse, e, e']
  · exact h' f₁ f₁'
  · exact .some hd ha

theorem choice : ∀ {ps ps' : List (Parser α)}, List.Forall₂ (AgreeAt P · · c) ps ps' →
    AgreeAt P (choice ps) (choice ps') c
  | _, _, .nil => fail
  | _, _, .cons h hs => orElse h (choice hs)

/-- What is there or is not there for one parser is so for another that agrees with it. -/
theorem optional_iff (h : AgreeAt P p p' c) (h' : AgreeAt P' p p'' c) :
    AgreeAt (fun o d => match o with
      | some a => P a d ∧ ∀ f, (p'' c f).1 = some (a, d)
      | none   => d = c ∧ ∀ f, (p'' c f).1 = none) (optional p) (optional p') c := by
  intro f f'
  rcases h.results f f' with ⟨f₁, f₁', e, e'⟩ | ⟨a, d, f₁, f₁', e, e', hd, ha⟩ <;>
    simp only [Parser.optional, e, e']
  · exact .some (Nat.le_refl _) ⟨rfl, fun f'' => (h' f f'').eq.symm.trans (by rw [e])⟩
  · exact .some hd ⟨ha, fun f'' => (h' f f'').eq.symm.trans (by rw [e])⟩

theorem optional (h : AgreeAt P p p' c) :
    AgreeAt (fun o d => ∀ a ∈ o, P a d) (optional p) (optional p') c := by
  refine (optional_iff h h).imp fun o d _ ho a ha => ?_
  cases ha
  exact ho.1

/-- Items are read one after the other, each of them farther on. -/
theorem manyFrom {A : α → Prop} : ∀ (fuel : Nat) {taken : List α} {c : Cursor},
    (∀ a ∈ taken, A a) →
    (∀ d, d.rest.length ≤ c.rest.length → AgreeAt (fun a _ => A a) p p' d) →
    ∀ f f', Same (fun as _ => ∀ a ∈ as, A a) c (manyFrom p fuel taken c f).1
      (manyFrom p' fuel taken c f').1
  | 0, taken, c, ht, _ => fun _ _ => .some (Nat.le_refl _) (by simpa using ht)
  | fuel + 1, taken, c, ht, h => by
      intro f f'
      have hl := c.layout_length
      rcases (h c.layout hl).results f f' with
          ⟨f₁, f₁', e, e'⟩ | ⟨a, d, f₁, f₁', e, e', hd, ha⟩ <;> simp only [Parser.manyFrom, e, e']
      · exact .some (Nat.le_refl _) (by simpa using ht)
      · have hdc := Nat.le_trans hd hl
        exact (manyFrom fuel (List.forall_mem_cons.mpr ⟨ha, ht⟩)
          (fun g hg => h g (Nat.le_trans hg hdc)) f₁ f₁').farther hdc

theorem many {A : α → Prop}
    (h : ∀ d, d.rest.length ≤ c.rest.length → AgreeAt (fun a _ => A a) p p' d) :
    AgreeAt (fun as _ => ∀ a ∈ as, A a) (many p) (many p') c := by
  intro f f'
  rcases (h c (Nat.le_refl _)).results f f' with
      ⟨f₁, f₁', e, e'⟩ | ⟨a, d, f₁, f₁', e, e', hd, ha⟩ <;> simp only [Parser.many, e, e']
  · exact .some (Nat.le_refl _) nofun
  · exact (manyFrom _ (by simpa using ha) (fun g hg => h g (Nat.le_trans hg hd)) f₁ f₁').farther hd

theorem separated {A : α → Prop} (x : Char) (xs : List Char)
    (h : ∀ d, d.rest.length ≤ c.rest.length → AgreeAt (fun a _ => A a) p p' d) :
    AgreeAt (fun as _ => ∀ a ∈ as, A a) (separated (x :: xs) p) (separated (x :: xs) p') c := by
  refine bind (h c (Nat.le_refl _)) fun a d hd ha => ?_
  refine bind layout fun _ e he _ => ?_
  refine bind (many fun g hg => ?_) fun as _ _ has => pure (List.forall_mem_cons.mpr ⟨ha, has⟩)
  refine bind (symbol x xs) fun _ g' hg' _ => bind layout fun _ g'' hg'' _ => h g'' ?_
  omega

theorem rule (h : AgreeAt P p p' c) : AgreeAt P (rule r p) (rule r p') c := by
  intro f f'
  rcases h.results f f' with ⟨f₁, f₁', e, e'⟩ | ⟨a, d, f₁, f₁', e, e', hd, ha⟩ <;>
    simp only [Parser.rule, e, e']
  · exact .none
  · exact .some hd ha

/-- A value is built from the span and from something that makes it satisfy `P` with any span. -/
theorem spanned {p p' : Parser (Span → α)}
    (h : AgreeAt (fun build d => ∀ span, P (build span) d) p p' c) :
    AgreeAt P (spanned p) (spanned p') c := by
  intro f f'
  rcases h.results f f' with ⟨f₁, f₁', e, e'⟩ | ⟨a, d, f₁, f₁', e, e', hd, ha⟩ <;>
    simp only [Parser.spanned, e, e']
  · exact .none
  · exact .some hd (ha _)

end AgreeAt

/-! ### Nothing to read -/

/-- Nothing is read at the place. -/
def FailsAt (p : Parser α) (c : Cursor) : Prop := AgreeAt (fun _ _ => False) p p c

namespace FailsAt

variable {P : α → Cursor → Prop} {p q : Parser α}

theorem fst (h : FailsAt p c) (f : Farthest) : (p c f).1 = none := by
  rcases h.results f f with ⟨f₁, -, e, -⟩ | ⟨_, _, _, _, _, _, _, no⟩
  · rw [e]
  · exact no.elim

/-- Where one parser reads nothing, one that agrees with it reads nothing. -/
theorem of_agrees (h : FailsAt p c) (h' : AgreeAt P p q c) : FailsAt q c := fun f f' => by
  rw [← (h' f f).eq, ← (h' f' f').eq, h.fst, h.fst]
  exact .none

/-- Of what is read where nothing is read anything holds. -/
theorem agrees (h : FailsAt p c) : AgreeAt P p p c := h.imp fun _ _ _ => False.elim

theorem scan {s : Cursor → Option (α × Cursor)} (h : s c = none) : FailsAt (scan s) c :=
  AgreeAt.scan fun a d e => by
    rw [h] at e
    cases e

theorem symbol {text : List Char} (h : ¬ text <+: c.rest) : FailsAt (symbol text) c :=
  scan (by rw [Cursor.literal?_eq_none h]; rfl)

theorem bind {k : α → Parser β} (h : FailsAt p c) : FailsAt (p >>= k) c :=
  AgreeAt.bind h fun _ _ _ => False.elim

theorem rule (r : Rule) (h : FailsAt p c) : FailsAt (rule r p) c := AgreeAt.rule h

theorem spanned {p : Parser (Span → α)} (h : FailsAt p c) : FailsAt (spanned p) c :=
  AgreeAt.spanned (h.imp fun _ _ _ => False.elim)

theorem orElse (h : FailsAt p c) (h' : FailsAt q c) : FailsAt (p.orElse q) c := AgreeAt.orElse h h'

theorem choice {ps : List (Parser α)} (h : ∀ p ∈ ps, FailsAt p c) : FailsAt (choice ps) c :=
  AgreeAt.choice (List.forall₂_same.mpr h)

/-- No item is read, and what is behind them from the same place. -/
theorem many {k : List α → Parser β} (h : FailsAt p c) (hk : FailsAt (k []) c) :
    FailsAt (many p >>= k) c := by
  intro f f'
  rcases h.results f f' with ⟨f₁, f₁', e, e'⟩ | ⟨_, _, _, _, _, _, _, no⟩
  · simp only [bind_run, Parser.many, e, e']
    exact hk f₁ f₁'
  · exact no.elim

/-- Layout in front of what fails behind it. -/
theorem layout {k : Unit → Parser β} (h : FailsAt (k ()) c.layout) :
    FailsAt (Parser.layout >>= k) c := fun f f' => (h f f').farther c.layout_length

end FailsAt

end Parser

end Nondet.Grammar
