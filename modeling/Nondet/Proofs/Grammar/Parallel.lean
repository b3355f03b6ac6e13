import Mathlib.Data.List.Forall2
import Nondet.Proofs.Grammar.Fused

/-!
# Grammar — Parallel

Two parsers side by side.  They run in parallel at a place if they match there or both do not, come to
the same place, record the same failures, and give results that stand in a relation.  Every
combinator passes this on, so that two readers of one grammar are compared rule by rule.
-/

namespace Nondet.Grammar

namespace Parser

variable {α β γ δ : Type} {c d : Cursor}

instance : LawfulMonad Parser :=
  have id_map {α : Type} (p : Parser α) : Parser.bind p Parser.pure = p := by
    funext c f
    unfold Parser.bind Parser.pure
    rcases p c f with ⟨_ | ⟨a, d⟩, f'⟩ <;> rfl
  have bind_assoc {α β γ : Type} (p : Parser α) (k : α → Parser β) (k' : β → Parser γ) :
      Parser.bind (Parser.bind p k) k' = Parser.bind p fun a => Parser.bind (k a) k' := by
    funext c f
    unfold Parser.bind
    rcases p c f with ⟨_ | ⟨a, d⟩, f'⟩ <;> rfl
  .mk' _ id_map (fun _ _ => rfl) bind_assoc

/-- Both results are nothing, or both are something at the same place; the record is the same. -/
inductive InStep (R : Cursor → α → β → Prop) :
    Option (α × Cursor) × Farthest → Option (β × Cursor) × Farthest → Prop
  | none {f} : InStep R (none, f) (none, f)
  | some {a b d f} (h : R d a b) : InStep R (some (a, d), f) (some (b, d), f)

/-- The first of two parsers decides where the second one matches nothing. -/
theorem InStep.orElse_left {R : Cursor → α → β → Prop} {p p' : Parser α} {f : Farthest}
    {r : Option (β × Cursor) × Farthest} (h : InStep R (p c f) r)
    (hp : ∀ f, p' c f = (Option.none, f)) :
    InStep R (p.orElse p' c f) r := by
  unfold Parser.orElse
  generalize p c f = l at h
  cases h with
  | none =>
      change InStep R (p' c _) _
      exact (hp _).symm ▸ .none
  | some h => exact .some h

/-- The second of two parsers decides where the first one matches nothing. -/
theorem InStep.orElse_right {R : Cursor → α → β → Prop} {p p' : Parser α} {f : Farthest}
    {r : Option (β × Cursor) × Farthest} (hp : p c f = (Option.none, f)) (h : InStep R (p' c f) r) :
    InStep R (p.orElse p' c f) r := by
  rw [Parser.orElse, hp]
  exact h

/-- At the place the parsers do the same, whatever failed before. -/
def ParallelAt (R : Cursor → α → β → Prop) (p : Parser α) (q : Parser β) (c : Cursor) : Prop :=
  ∀ f, InStep R (p c f) (q c f)

namespace ParallelAt

variable {R : Cursor → α → β → Prop} {S : Cursor → γ → δ → Prop}
variable {p p' : Parser α} {q q' : Parser β}

/-- What two parallel parsers come to. -/
theorem results (h : ParallelAt R p q c) (f : Farthest) :
    (∃ f', p c f = (none, f') ∧ q c f = (none, f')) ∨
      ∃ a b d f', p c f = (some (a, d), f') ∧ q c f = (some (b, d), f') ∧ R d a b := by
  have h := h f
  generalize p c f = r, q c f = r' at h
  cases h with
  | none => exact .inl ⟨_, rfl, rfl⟩
  | some h => exact .inr ⟨_, _, _, _, rfl, rfl, h⟩

theorem imp {R' : Cursor → α → β → Prop} (h : ParallelAt R p q c)
    (hR : ∀ d a b, R d a b → R' d a b) : ParallelAt R' p q c := fun f => by
  rcases h.results f with ⟨f', hp, hq⟩ | ⟨a, b, d, f', hp, hq, h⟩
  · rw [hp, hq]
    exact .none
  · rw [hp, hq]
    exact .some (hR d a b h)

theorem refl (p : Parser α) : ParallelAt (fun _ a b => a = b) p p c := fun f => by
  rcases p c f with ⟨_ | ⟨a, d⟩, f'⟩
  · exact .none
  · exact .some rfl

theorem pure {a : α} {b : β} (h : R c a b) : ParallelAt R (pure a) (pure b) c := fun _ => .some h

theorem fail : ParallelAt R fail fail c := fun _ => .none

theorem bind {k : α → Parser γ} {k' : β → Parser δ} (h : ParallelAt R p q c)
    (hk : ∀ d a b, R d a b → ParallelAt S (k a) (k' b) d) :
    ParallelAt S (p >>= k) (q >>= k') c := fun f => by
  change InStep S (Parser.bind p k c f) (Parser.bind q k' c f)
  unfold Parser.bind
  rcases h.results f with ⟨f', hp, hq⟩ | ⟨a, b, d, f', hp, hq, h⟩
  · rw [hp, hq]
    exact .none
  · rw [hp, hq]
    exact hk d a b h f'

theorem layout {p : Parser γ} {q : Parser δ} (h : ParallelAt S p q c.layout) :
    ParallelAt S (Parser.layout >>= fun _ => p) (Parser.layout >>= fun _ => q) c := h

/-- What is made of the left result changes nothing else. -/
theorem map_left {S : Cursor → γ → β → Prop} {g : α → γ} (h : ParallelAt R p q c)
    (hS : ∀ d a b, R d a b → S d (g a) b) :
    ParallelAt S (p >>= fun a => Pure.pure (g a)) q c := by
  have made : ParallelAt S (p >>= fun a => Pure.pure (g a)) (q >>= Pure.pure) c :=
    h.bind fun d a b hR => pure (hS d a b hR)
  rwa [bind_pure] at made

/-- What is made of the right result changes nothing else. -/
theorem map_right {S : Cursor → α → δ → Prop} {g : β → δ} (h : ParallelAt R p q c)
    (hS : ∀ d a b, R d a b → S d a (g b)) :
    ParallelAt S p (q >>= fun b => Pure.pure (g b)) c := by
  have made : ParallelAt S (p >>= Pure.pure) (q >>= fun b => Pure.pure (g b)) c :=
    h.bind fun d a b hR => pure (hS d a b hR)
  rwa [bind_pure] at made

theorem orElse (h : ParallelAt R p q c) (h' : ParallelAt R p' q' c) :
    ParallelAt R (p.orElse p') (q.orElse q') c := fun f => by
  unfold Parser.orElse
  rcases h.results f with ⟨f', hp, hq⟩ | ⟨a, b, d, f', hp, hq, h⟩
  · rw [hp, hq]
    exact h' f'
  · rw [hp, hq]
    exact .some h

theorem choice {ps : List (Parser α)} {qs : List (Parser β)}
    (h : List.Forall₂ (fun p q => ParallelAt R p q c) ps qs) :
    ParallelAt R (choice ps) (choice qs) c := by
  induction h with
  | nil => exact fail
  | cons h _ ih => exact h.orElse ih

/-- Scanners that come to the same place. -/
theorem scan {s : Cursor → Option (α × Cursor)} {s' : Cursor → Option (β × Cursor)}
    (h : Option.Rel (fun x y => x.2 = y.2 ∧ R x.2 x.1 y.1) (s c) (s' c)) :
    ParallelAt R (scan s) (scan s') c := fun f => by
  change InStep R (s c, f) (s' c, f)
  generalize s c = r, s' c = r' at h
  cases h with
  | none => exact .none
  | @some x y h =>
      obtain ⟨a, d⟩ := x
      obtain ⟨b, d'⟩ := y
      obtain ⟨rfl, h⟩ := h
      exact .some h

theorem rule (r : Rule) (h : ParallelAt R p q c) :
    ParallelAt R (rule r p) (rule r q) c := fun f => by
  unfold Parser.rule
  rcases h.results f with ⟨f', hp, hq⟩ | ⟨a, b, d, f', hp, hq, h⟩
  · rw [hp, hq]
    exact .none
  · rw [hp, hq]
    exact .some h

theorem optional (h : ParallelAt R p q c) :
    ParallelAt (fun d => Option.Rel (R d)) (optional p) (optional q) c := fun f => by
  unfold Parser.optional
  rcases h.results f with ⟨f', hp, hq⟩ | ⟨a, b, d, f', hp, hq, h⟩
  · rw [hp, hq]
    exact .some .none
  · rw [hp, hq]
    exact .some (.some h)

variable {T : α → β → Prop}

theorem manyFrom (h : ∀ c, ParallelAt (fun _ => T) p q c) : ∀ (fuel : Nat) {as : List α} {bs : List β}
    {c : Cursor}, List.Forall₂ T as bs →
    ParallelAt (fun _ => List.Forall₂ T) (Parser.manyFrom p fuel as) (Parser.manyFrom q fuel bs) c
  | 0, _, _, _, hs => fun _ => .some (List.forall₂_reverse_iff.mpr hs)
  | fuel + 1, as, bs, c, hs => fun f => by
      unfold Parser.manyFrom
      rcases (h c.layout).results f with ⟨f', hp, hq⟩ | ⟨a, b, d, f', hp, hq, hab⟩
      · rw [hp, hq]
        exact .some (List.forall₂_reverse_iff.mpr hs)
      · rw [hp, hq]
        exact manyFrom h fuel (.cons hab hs) f'

theorem many (h : ∀ c, ParallelAt (fun _ => T) p q c) :
    ParallelAt (fun _ => List.Forall₂ T) (many p) (many q) c := fun f => by
  unfold Parser.many
  rcases (h c).results f with ⟨f', hp, hq⟩ | ⟨a, b, d, f', hp, hq, hab⟩
  · rw [hp, hq]
    exact .some .nil
  · rw [hp, hq]
    exact manyFrom h _ (.cons hab .nil) f'

/-- The span of what is read belongs to the right result. -/
theorem spanned {R : Cursor → α → δ → Prop} {q : Parser (Span → δ)}
    (h : ParallelAt (fun d a build => R d a (build ⟨c.offset, d.offset⟩)) p q c) :
    ParallelAt R p (spanned q) c := fun f => by
  unfold Parser.spanned
  rcases h.results f with ⟨f', hp, hq⟩ | ⟨a, b, d, f', hp, hq, h⟩
  · rw [hp, hq]
    exact .none
  · rw [hp, hq]
    exact .some h

end ParallelAt

end Parser

/-! ### Patterns beside parsers -/

namespace Pattern

open Nondet.Grammar.Parser (InStep ParallelAt)

variable {α β : Type} {c : Cursor} {R : Cursor → List Pair → α → Prop}
variable {S : Cursor → List Pair → β → Prop}
variable {p p' : Pattern} {ps ps' : List Pattern} {q : Parser α}

/-- Nothing is yielded. -/
def Silent (_ : Cursor) (ps : List Pair) (_ : Unit) : Prop := ps = []

theorem symbol_parallel (text : List Char) :
    ParallelAt Silent (symbol text) (Parser.symbol text) c :=
  (ParallelAt.refl (Parser.symbol text)).map_left fun _ _ _ _ => rfl

theorem notNext_parallel (text : List Char) :
    ParallelAt Silent (notNext text) (Parser.notNext text) c :=
  (ParallelAt.refl (Parser.notNext text)).map_left fun _ _ _ _ => rfl

/-- A rule yields a pair. -/
theorem rule_parallel {r : Rule} (h : ParallelAt (fun d ps a => R d [⟨r, c, d, ps⟩] a) p q c) :
    ParallelAt R (rule r p) (Parser.rule r q) c :=
  .rule r fun f => by
    rcases h.results f with ⟨f', hp, hq⟩ | ⟨ps, a, d, f', hp, hq, h⟩
    · simp only [hp, hq]
      exact .none
    · simp only [hp, hq]
      exact .some h

theorem token_parallel {γ : Type} {r : Rule} {s : Cursor → Option (γ × Cursor)}
    {s' : Cursor → Option (α × Cursor)}
    (h : Option.Rel (fun x y => x.2 = y.2 ∧ R x.2 [⟨r, c, x.2, []⟩] y.1) (s c) (s' c)) :
    ParallelAt R (token r s) (Parser.rule r (Parser.scan s')) c := by
  refine rule_parallel (.scan ?_)
  generalize s c = x, s' c = y at h
  cases h with
  | none => exact .none
  | some h => exact .some h

/-- A part of a sequence, and what is behind it. -/
theorem sequence_parallel {k : α → Parser β} (h : ParallelAt R p q c)
    (hk : ∀ d qs a, R d qs a →
      ParallelAt (fun e qs' b => S e (qs ++ qs') b) (sequence (p' :: ps)) (k a) d.layout) :
    ParallelAt S (sequence (p :: p' :: ps)) (q >>= fun a => Parser.layout >>= fun _ => k a) c :=
  .bind h fun d qs a hR => .layout ((hk d qs a hR).map_left fun _ _ _ h => h)

theorem sequence_cons (q : Pattern) : sequence (q :: p :: ps) = (do
    let first ← q
    Parser.layout
    let others ← sequence (p :: ps)
    return first ++ others) := rfl

/-- A sequence in two parts. -/
theorem sequence_append : ∀ ps : List Pattern, ps ≠ [] → sequence (ps ++ p :: ps') = (do
    let first ← sequence ps
    Parser.layout
    let others ← sequence (p :: ps')
    return first ++ others)
  | [_], _ => rfl
  | q :: q' :: ps, _ => by
      rw [List.cons_append, List.cons_append, sequence_cons, ← List.cons_append,
        sequence_append (q' :: ps) (List.cons_ne_nil _ _), sequence_cons]
      simp only [bind_assoc, pure_bind, List.append_assoc]

/-- A part of a sequence that takes nothing, which the parser on the right does not ask for. -/
theorem silent_sequence_parallel {k : Parser β} (h : ParallelAt Silent p (pure ()) c)
    (hk : ∀ d, ParallelAt S (sequence (p' :: ps)) k (Cursor.layout d)) :
    ParallelAt S (sequence (p :: p' :: ps)) (Parser.layout >>= fun _ => k) c := by
  have parts := sequence_parallel (S := S) (k := fun _ => k) h fun d qs _ hs => by
    obtain rfl : qs = [] := hs
    exact hk d
  rwa [pure_bind] at parts

/-- Characters of a sequence, and what is behind them. -/
theorem symbol_sequence_parallel {text : List Char} {k : Parser β}
    (h : ∀ c, ParallelAt S (sequence (p :: ps)) k c) :
    ParallelAt S (sequence (symbol text :: p :: ps))
      (Parser.symbol text >>= fun _ => Parser.layout >>= fun _ => k) c :=
  sequence_parallel (symbol_parallel text) fun d _ _ hs => hs ▸ h d.layout

/-- Characters at the end of a sequence. -/
theorem symbol_last_parallel {text : List Char} {b : β} (h : ∀ d, S d [] b) :
    ParallelAt S (sequence [symbol text]) (Parser.symbol text >>= fun _ => pure b) c :=
  (symbol_parallel text).map_right fun d _ _ hs => hs ▸ h d

theorem optional_parallel (h : ParallelAt R p q c) :
    ParallelAt (fun d ps o =>
        ∃ found : Option (List Pair), ps = found.getD [] ∧ Option.Rel (R d) found o)
      (optional p) (Parser.optional q) c :=
  (ParallelAt.optional h).map_left fun _ found _ h => ⟨found, rfl, h⟩

/-- The pairs of several results, one after the other. -/
def Listed (T : List Pair → α → Prop) (ps : List Pair) (as : List α) : Prop :=
  ∃ found : List (List Pair), ps = found.flatten ∧ List.Forall₂ T found as

variable {T : List Pair → α → Prop}

theorem many_parallel (h : ∀ c, ParallelAt (fun _ => T) p q c) :
    ParallelAt (fun _ => Listed T) (many p) (Parser.many q) c :=
  (ParallelAt.many h).map_left fun _ found _ h => ⟨found, rfl, h⟩

theorem separated_parallel {separator : List Char} (h : ∀ c, ParallelAt (fun _ => T) p q c) :
    ParallelAt (fun _ => Listed T) (separated separator p) (Parser.separated separator q) c :=
  sequence_parallel (h c) fun _ first _ ha =>
    (many_parallel fun _ => symbol_sequence_parallel h).map_right fun _ _ _ ⟨found, e, hs⟩ =>
      ⟨first :: found, e ▸ rfl, .cons ha hs⟩

end Pattern

end Nondet.Grammar
