import Nondet.Proofs.Grammar.Fused
import Nondet.Proofs.Grammar.Word

/-!
# Grammar — Offsets

Where a parser comes to.  A scanner goes on in the text that it was given (`Cursor.Onto`): its offset
never falls, and offset and rest together are always the whole text.  `KeepsAt P p c` says the same of
a parser at one place, that no failure is recorded beyond the end of the text, and what is read, if
anything is: a value and a place behind it that satisfy `P`.
-/

namespace Nondet.Grammar

/-- How many bytes some characters take. -/
def bytes : List Char → Nat
  | []      => 0
  | x :: xs => x.utf8Size + bytes xs

theorem bytes_append (xs ys : List Char) : bytes (xs ++ ys) = bytes xs + bytes ys := by
  induction xs with
  | nil => exact (Nat.zero_add _).symm
  | cons x xs ih => rw [List.cons_append, bytes, ih, bytes, Nat.add_assoc]

theorem bytes_toList (s : String) : bytes s.toList = s.utf8ByteSize := by
  suffices h : ∀ xs, (String.ofList xs).utf8ByteSize = bytes xs by
    rw [← h, String.ofList_toList]
  intro xs
  induction xs with
  | nil => rfl
  | cons x xs ih =>
      have split : String.ofList (x :: xs) = String.ofList [x] ++ String.ofList xs := by
        rw [← String.ofList_append, List.singleton_append]
      rw [split, String.utf8ByteSize_append, ih, bytes]
      simp

namespace Cursor

variable {c d e : Cursor}

/-- The offset of the end of the text. -/
def stop (c : Cursor) : Nat := c.offset + bytes c.rest

/-- The second place is the first one or lies behind it, in the same text: some characters stand
between them, which may be none. -/
def Onto (c d : Cursor) : Prop :=
  ∃ between, c.rest = between ++ d.rest ∧ d.offset = c.offset + bytes between

namespace Onto

theorem le (h : c.Onto d) : c.offset ≤ d.offset :=
  have ⟨_, _, h⟩ := h
  h ▸ Nat.le_add_right _ _

theorem stop (h : c.Onto d) : d.stop = c.stop := by
  obtain ⟨between, hr, ho⟩ := h
  rw [Cursor.stop, ho, Cursor.stop, hr, bytes_append, Nat.add_assoc]

theorem refl (c : Cursor) : c.Onto c := ⟨[], rfl, rfl⟩

theorem trans (h : c.Onto d) (h' : d.Onto e) : c.Onto e := by
  obtain ⟨between, hr, ho⟩ := h
  obtain ⟨between', hr', ho'⟩ := h'
  refine ⟨between ++ between', by rw [hr, hr', List.append_assoc], ?_⟩
  rw [ho', ho, bytes_append, Nat.add_assoc]

/-- Behind one character. -/
theorem char {x : Char} {xs : List Char} {offset : Nat} :
    Onto ⟨x :: xs, offset⟩ ⟨xs, offset + x.utf8Size⟩ := ⟨[x], rfl, rfl⟩

/-- Behind two characters of one byte each. -/
theorem two {x y : Char} {xs : List Char} {offset : Nat} (hx : x.utf8Size = 1) (hy : y.utf8Size = 1) :
    Onto ⟨x :: y :: xs, offset⟩ ⟨xs, offset + 2⟩ := ⟨[x, y], rfl, by simp only [bytes, hx, hy]⟩

end Onto

theorem offset_le_stop (c : Cursor) : c.offset ≤ c.stop := Nat.le_add_right _ _

/-- A place of the text that is left has this offset. -/
def Meets (c : Cursor) (offset : Nat) : Prop := ∃ d, c.Onto d ∧ d.offset = offset

theorem Onto.meets (h : c.Onto d) : c.Meets d.offset := ⟨d, h, rfl⟩

theorem Meets.before {offset : Nat} (h : d.Meets offset) (hc : c.Onto d) : c.Meets offset :=
  have ⟨e, he, ho⟩ := h
  ⟨e, hc.trans he, ho⟩

/-! ### Scanners -/

theorem onto_takeWhile (p : Char → Bool) (c : Cursor) : c.Onto (c.takeWhile p).2 := by
  have go (taken xs : List Char) (offset : Nat) :
      Onto ⟨xs, offset⟩ (takeWhile.go p taken xs offset).2 := by
    induction xs generalizing taken offset with
    | nil => exact .refl _
    | cons x xs ih =>
        rw [takeWhile.go]
        split
        · exact .trans .char (ih _ _)
        · exact .refl _
  exact go [] c.rest c.offset

theorem onto_literal? : ∀ {text : List Char} {c d : Cursor}, c.literal? text = some d → c.Onto d
  | [], c, d, h => Option.some.inj h ▸ .refl c
  | x :: text, ⟨[], offset⟩, d, h => nomatch h
  | x :: text, ⟨y :: rest, offset⟩, d, h => by
      change (if x = y then literal? text ⟨rest, offset + y.utf8Size⟩ else none) = some d at h
      split at h
      · exact .trans .char (onto_literal? h)
      · cases h

theorem onto_blockComment? {xs : List Char} {offset : Nat} (h : blockComment? xs offset = some d) :
    Onto ⟨xs, offset⟩ d := by
  fun_induction blockComment? xs offset with
  | case1 => cases h
  | case2 xs offset =>
      cases h
      exact .two rfl rfl
  | case3 offset x xs _ ih => exact .trans .char (ih h)

theorem onto_skip? (h : c.skip? = some d) : c.Onto d := by
  obtain ⟨rest, offset⟩ := c
  unfold skip? at h
  split at h
  next xs e =>
    cases h
    obtain rfl : rest = _ := e
    exact .trans (.two rfl rfl) (onto_takeWhile _ _)
  next xs e =>
    obtain rfl : rest = _ := e
    exact .trans (.two rfl rfl) (onto_blockComment? h)
  next x xs _ _ e =>
    obtain rfl : rest = _ := e
    split at h
    · cases h
      exact .char
    · cases h
  next => cases h

theorem onto_layout (c : Cursor) : c.Onto c.layout := by
  rw [layout_eq_layoutFrom]
  have behind : ∀ (fuel : Nat) (c : Cursor), c.Onto (layoutFrom fuel c) := by
    intro fuel
    induction fuel with
    | zero => exact .refl
    | succ fuel ih =>
        intro c
        rw [layoutFrom_succ]
        cases h : c.skip? with
        | none => exact .refl c
        | some d => exact (onto_skip? h).trans (ih d)
  exact behind _ c

end Cursor

namespace Token

variable {α : Type} {c d : Cursor}

theorem onto_word (c : Cursor) : c.Onto (word c).2 := c.onto_takeWhile isWordChar

theorem onto_oneOf? {words : List (String × α)} {a : α} (h : oneOf? words c = some (a, d)) :
    c.Onto d := by
  obtain ⟨a', -, e⟩ := Option.map_eq_some_iff.mp h
  cases e
  exact onto_word c

theorem onto_name? {s : String} (h : name? c = some (s, d)) : c.Onto d := by
  unfold name? at h
  split at h
  · split at h
    · simp only at h
      split at h
      · cases h
      · cases h
        exact onto_word c
    · cases h
  · cases h

theorem onto_fraction? {digits : List Char} (h : fraction? c = some (digits, d)) : c.Onto d := by
  obtain ⟨c₁, h₁, h⟩ := Option.bind_eq_some_iff.mp h
  simp only at h
  split at h
  · cases h
  · cases h
    exact (Cursor.onto_literal? h₁).trans (c₁.onto_takeWhile _)

theorem onto_sign (c : Cursor) : c.Onto (sign c).2 := by
  unfold sign
  split
  next d h => exact Cursor.onto_literal? h
  next =>
    cases h : c.literal? ['+'] with
    | none => exact .refl c
    | some d => exact Cursor.onto_literal? h

theorem onto_exponent? {size : Int} (h : exponent? c = some (size, d)) : c.Onto d := by
  obtain ⟨c₁, h₁, h⟩ := Option.bind_eq_some_iff.mp h
  have first : c.Onto c₁ := by
    cases he : c.literal? ['e'] with
    | none => exact Cursor.onto_literal? (by simpa [he] using h₁ : c.literal? ['E'] = some c₁)
    | some d => exact Cursor.onto_literal? (by simpa [he] using h₁ : c.literal? ['e'] = some c₁)
  simp only at h
  split at h
  · cases h
  · cases h
    exact (first.trans (onto_sign c₁)).trans (Cursor.onto_takeWhile _ _)

theorem onto_numeral? {n : Decimal.Numeral} (h : numeral? c = some (n, d)) : c.Onto d := by
  unfold numeral? at h
  simp only at h
  split at h
  · cases h
  · cases h
    have fraction (c₁ : Cursor) : c₁.Onto ((fraction? c₁).getD ([], c₁)).2 := by
      cases h : fraction? c₁ with
      | none => exact .refl c₁
      | some p => exact onto_fraction? h
    have exponent (c₁ : Cursor) : c₁.Onto ((exponent? c₁).getD (0, c₁)).2 := by
      cases h : exponent? c₁ with
      | none => exact .refl c₁
      | some p => exact onto_exponent? h
    exact ((c.onto_takeWhile _).trans (fraction _)).trans (exponent _)

theorem onto_contents? {quote : Char} {taken xs : List Char} {offset : Nat} {raw : List Char}
    (h : contents? quote taken xs offset = some (raw, d)) : Cursor.Onto ⟨xs, offset⟩ d := by
  fun_induction contents? quote taken xs offset with
  | case1 => cases h
  | case2 taken offset x xs ih => exact .trans (.trans .char .char) (ih h)
  | case3 taken offset xs =>
      cases h
      exact .char
  | case4 => cases h
  | case5 taken offset x xs _ _ _ ih => exact .trans .char (ih h)

theorem onto_string? {s : String} (h : string? c = some (s, d)) : c.Onto d := by
  obtain ⟨rest, offset⟩ := c
  unfold string? at h
  split at h
  next x xs e =>
    obtain rfl : rest = _ := e
    split at h
    next hq =>
      obtain ⟨p, hp, e'⟩ := Option.map_eq_some_iff.mp h
      cases e'
      -- Both quotes take one byte.
      have one : x.utf8Size = 1 := by
        simp only [Bool.or_eq_true, decide_eq_true_eq] at hq
        rcases hq with rfl | rfl <;> rfl
      exact .trans (one ▸ .char) (onto_contents? hp)
    next => cases h
  next => cases h

end Token

/-! ### Parsers -/

namespace Parser

variable {α β : Type} {c d : Cursor}

theorem bind_of_none {p : Parser α} {k : α → Parser β} {f f' : Farthest}
    (h : p c f = (none, f')) : (p >>= k) c f = (none, f') := by
  change Parser.bind p k c f = _
  rw [Parser.bind, h]

theorem bind_of_some {p : Parser α} {k : α → Parser β} {f f' : Farthest} {a : α}
    (h : p c f = (some (a, d), f')) : (p >>= k) c f = k a d f' := by
  change Parser.bind p k c f = _
  rw [Parser.bind, h]

/-- At the place the parser keeps to the text, and what it reads satisfies `P` with the place that it
comes to. -/
def KeepsAt (P : α → Cursor → Prop) (p : Parser α) (c : Cursor) : Prop :=
  ∀ f : Farthest, f.offset ≤ c.stop → (p c f).2.offset ≤ c.stop ∧
    ∀ a d, (p c f).1 = some (a, d) → c.Onto d ∧ P a d

/-- Items that were read one after the other between two offsets, each in a stretch of its own. -/
def Spread (A : Nat → Nat → α → Prop) : Nat → Nat → List α → Prop
  | lo, hi, []      => lo ≤ hi
  | lo, hi, a :: as => ∃ l m, lo ≤ l ∧ A l m a ∧ Spread A m hi as

namespace Spread

variable {A : Nat → Nat → α → Prop}

/-- One item more, farther on. -/
theorem concat : ∀ {as : List α} {lo m l hi : Nat} {a : α}, Spread A lo m as → m ≤ l → A l hi a →
    Spread A lo hi (as ++ [a])
  | [], _, _, l, hi, _, h, hl, ha => ⟨l, hi, Nat.le_trans h hl, ha, Nat.le_refl _⟩
  | _ :: _, _, _, _, _, _, ⟨l', m', hl', ha', h⟩, hl, ha => ⟨l', m', hl', ha', concat h hl ha⟩

/-- Each item lies in the whole stretch, if stretches are no shorter than nothing. -/
theorem forall_mem (hA : ∀ {l m a}, A l m a → l ≤ m) : ∀ {as : List α} {lo hi : Nat},
    Spread A lo hi as → lo ≤ hi ∧ ∀ a ∈ as, ∃ l m, lo ≤ l ∧ m ≤ hi ∧ A l m a
  | [], _, _, h => ⟨h, nofun⟩
  | _ :: _, _, _, ⟨l, m, hl, ha, h⟩ => by
      obtain ⟨hm, hs⟩ := forall_mem hA h
      have hlm := hA ha
      refine ⟨by omega, List.forall_mem_cons.mpr ⟨⟨l, m, hl, hm, ha⟩, fun b hb => ?_⟩⟩
      obtain ⟨l', m', hl', hm', hb⟩ := hs b hb
      exact ⟨l', m', by omega, hm', hb⟩

/-- A single item. -/
theorem one {lo l m hi : Nat} {a : α} (hl : lo ≤ l) (ha : A l m a) (hm : m ≤ hi) :
    Spread A lo hi [a] := ⟨l, m, hl, ha, hm⟩

/-- The same items in a longer stretch, of which less may be said. -/
theorem widen {B : Nat → Nat → α → Prop} (hB : ∀ {l m a}, A l m a → B l m a) : ∀ {as : List α}
    {lo lo' hi hi' : Nat}, Spread A lo hi as → lo' ≤ lo → hi ≤ hi' → Spread B lo' hi' as
  | [], _, _, _, _, h, hlo, hhi => Nat.le_trans hlo (Nat.le_trans h hhi)
  | _ :: _, _, _, _, _, ⟨l, m, hl, ha, h⟩, hlo, hhi =>
    ⟨l, m, Nat.le_trans hlo hl, hB ha, widen hB h (Nat.le_refl m) hhi⟩

/-- Of two items the first one ends where the second one begins, or before. -/
theorem pairwise {R : α → α → Prop} (hA : ∀ {l m a}, A l m a → l ≤ m)
    (hR : ∀ {l m l' m' a b}, A l m a → m ≤ l' → A l' m' b → R a b) :
    ∀ {as : List α} {lo hi : Nat}, Spread A lo hi as → as.Pairwise R
  | [], _, _, _ => .nil
  | _ :: _, _, _, ⟨_, _, _, ha, h⟩ => .cons
    (fun _ hb => have ⟨_, _, hl, _, hb⟩ := (forall_mem hA h).2 _ hb; hR ha hl hb) (pairwise hA hR h)

end Spread

namespace KeepsAt

variable {P P' : α → Cursor → Prop} {Q : β → Cursor → Prop} {p q : Parser α} {r : Rule}

theorem imp (h : KeepsAt P p c) (hp : ∀ a d, c.Onto d → P a d → P' a d) : KeepsAt P' p c :=
  fun f hf => ⟨(h f hf).1, fun a d e => have ⟨hd, ha⟩ := (h f hf).2 a d e; ⟨hd, hp a d hd ha⟩⟩

/-- What is read is what the parser reads. -/
theorem result (h : KeepsAt P p c) :
    KeepsAt (fun a d => P a d ∧ ∃ f, (p c f).1 = some (a, d)) p c := fun f hf =>
  ⟨(h f hf).1, fun a d e => have ⟨hd, ha⟩ := (h f hf).2 a d e; ⟨hd, ha, f, e⟩⟩

theorem pure {a : α} (h : P a c) : KeepsAt P (Pure.pure a) c :=
  fun _ hf => ⟨hf, fun _ _ e => by cases e; exact ⟨.refl c, h⟩⟩

theorem fail : KeepsAt P fail c := fun _ hf => ⟨hf, fun _ _ e => nomatch e⟩

theorem bind {k : α → Parser β} (h : KeepsAt P p c)
    (hk : ∀ a d, c.Onto d → P a d → KeepsAt Q (k a) d) : KeepsAt Q (p >>= k) c := by
  intro f hf
  obtain ⟨hf', ha⟩ := h f hf
  rcases hp : p c f with ⟨_ | ⟨a, d⟩, f'⟩ <;> rw [hp] at hf' ha
  · rw [bind_of_none hp]
    exact ⟨hf', fun _ _ e => by cases e⟩
  · rw [bind_of_some hp]
    obtain ⟨hd, ha⟩ := ha a d rfl
    obtain ⟨hf'', hb⟩ := hk a d hd ha f' (hd.stop.symm ▸ hf')
    exact ⟨hd.stop ▸ hf'', fun b e he => ⟨hd.trans (hb b e he).1, (hb b e he).2⟩⟩

theorem scan {s : Cursor → Option (α × Cursor)} (h : ∀ a d, s c = some (a, d) → c.Onto d ∧ P a d) :
    KeepsAt P (scan s) c := fun _ hf => ⟨hf, h⟩

theorem layout : KeepsAt (fun _ _ => True) layout c :=
  fun _ hf => ⟨hf, fun _ _ e => by cases e; exact ⟨c.onto_layout, trivial⟩⟩

theorem symbol (text : List Char) : KeepsAt (fun _ _ => True) (symbol text) c :=
  scan fun _ d h => by
    obtain ⟨d', h', e⟩ := Option.map_eq_some_iff.mp h
    cases e
    exact ⟨Cursor.onto_literal? h', trivial⟩

theorem notNext (text : List Char) : KeepsAt (fun _ _ => True) (notNext text) c :=
  scan fun _ d h => by
    split at h
    · cases h
    · cases h
      exact ⟨.refl c, trivial⟩

theorem orElse (h : KeepsAt P p c) (h' : KeepsAt P q c) : KeepsAt P (p.orElse q) c := by
  intro f hf
  have hp := h f hf
  rw [Parser.orElse]
  rcases e : p c f with ⟨_ | ⟨a, d⟩, f'⟩ <;> rw [e] at hp
  · exact h' f' hp.1
  · exact hp

theorem choice : ∀ {ps : List (Parser α)}, (∀ p ∈ ps, KeepsAt P p c) → KeepsAt P (choice ps) c
  | [], _ => fail
  | _ :: _, h => orElse (h _ List.mem_cons_self) (choice fun p hp => h p (List.mem_cons_of_mem _ hp))

theorem optional (h : KeepsAt P p c) :
    KeepsAt (fun o d => ∀ a ∈ o, P a d) (optional p) c := by
  intro f hf
  have hp := h f hf
  rw [Parser.optional]
  rcases e : p c f with ⟨_ | ⟨a, d⟩, f'⟩ <;> rw [e] at hp
  · refine ⟨hp.1, fun _ _ e => ?_⟩
    cases e
    exact ⟨.refl c, fun _ e => by cases e⟩
  · refine ⟨hp.1, fun _ _ e => ?_⟩
    cases e
    obtain ⟨hd, ha⟩ := hp.2 a d rfl
    exact ⟨hd, fun _ e => by cases e; exact ha⟩

/-- Items are read one after the other. -/
theorem manyFrom {A : Nat → Nat → α → Prop} {lo : Nat} : ∀ (fuel : Nat) {taken : List α}
    {c : Cursor}, Spread A lo c.offset taken.reverse →
    (∀ d, c.Onto d → KeepsAt (fun a e => A d.offset e.offset a) p d) →
    KeepsAt (fun as d => Spread A lo d.offset as) (Parser.manyFrom p fuel taken) c
  | 0, _, c, ht, _ => fun _ hf => ⟨hf, fun _ _ e => by cases e; exact ⟨.refl c, ht⟩⟩
  | fuel + 1, taken, c, ht, h => by
      intro f hf
      have hl := c.onto_layout
      have hp := h c.layout hl f (hl.stop.symm ▸ hf)
      rw [Parser.manyFrom]
      rcases e : p c.layout f with ⟨_ | ⟨a, d⟩, f'⟩ <;> rw [e] at hp
      · exact ⟨hl.stop ▸ hp.1, fun _ _ e => by cases e; exact ⟨.refl c, ht⟩⟩
      · obtain ⟨hd, ha⟩ := hp.2 a d rfl
        have hcd := hl.trans hd
        have more : Spread A lo d.offset (a :: taken).reverse := by
          rw [List.reverse_cons]
          exact ht.concat hl.le ha
        obtain ⟨hf', hr⟩ := manyFrom fuel more (fun e he => h e (hcd.trans he)) f'
          (hcd.stop.symm ▸ hl.stop ▸ hp.1)
        exact ⟨hcd.stop ▸ hf', fun as e he => ⟨hcd.trans (hr as e he).1, (hr as e he).2⟩⟩

theorem many {A : Nat → Nat → α → Prop}
    (h : ∀ d, c.Onto d → KeepsAt (fun a e => A d.offset e.offset a) p d) :
    KeepsAt (fun as d => Spread A c.offset d.offset as) (many p) c := by
  intro f hf
  have hp := h c (.refl c) f hf
  rw [Parser.many]
  rcases e : p c f with ⟨_ | ⟨a, d⟩, f'⟩ <;> rw [e] at hp
  · exact ⟨hp.1, fun _ _ e => by cases e; exact ⟨.refl c, Nat.le_refl _⟩⟩
  · obtain ⟨hd, ha⟩ := hp.2 a d rfl
    have first : Spread A c.offset d.offset [a].reverse :=
      ⟨c.offset, d.offset, Nat.le_refl _, ha, Nat.le_refl _⟩
    obtain ⟨hf', hr⟩ := manyFrom (d.rest.length + 1) first (fun e he => h e (hd.trans he)) f'
      (hd.stop.symm ▸ hp.1)
    exact ⟨hd.stop ▸ hf', fun as e he => ⟨hd.trans (hr as e he).1, (hr as e he).2⟩⟩

theorem rule (h : KeepsAt P p c) : KeepsAt P (rule r p) c := by
  intro f hf
  have hp := h f hf
  rw [Parser.rule]
  rcases e : p c f with ⟨_ | ⟨a, d⟩, f'⟩ <;> rw [e] at hp
  · refine ⟨?_, fun _ _ e => by cases e⟩
    have := c.offset_le_stop
    have := hp.1
    simp only [Farthest.record]
    split
    · assumption
    · split
      · assumption
      · split <;> assumption
  · exact hp

/-- A value is built from the span of what is read. -/
theorem spanned {p : Parser (Span → α)}
    (h : KeepsAt (fun build d => P (build ⟨c.offset, d.offset⟩) d) p c) :
    KeepsAt P (spanned p) c := by
  intro f hf
  have hp := h f hf
  rw [Parser.spanned]
  rcases e : p c f with ⟨_ | ⟨a, d⟩, f'⟩ <;> rw [e] at hp
  · exact ⟨hp.1, fun _ _ e => by cases e⟩
  · refine ⟨hp.1, fun _ _ e => ?_⟩
    cases e
    exact hp.2 a d rfl

end KeepsAt

end Parser

end Nondet.Grammar
