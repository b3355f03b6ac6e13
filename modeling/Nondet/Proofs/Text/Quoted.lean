import Nondet.Text.Quoted

/-!
# Text — Quoted

What is read of a text that was written between quotes.  Every character is written on its own, as it
is, with a short escape, or by its number; the first two are read back as the character
(`escapeChar_cases`).  The number is not: a script has no such escape, so the backslash is dropped and
what stood behind it stays (`unescape_escapeChar`).
-/

namespace Nondet.Text

-- Decided by running through `l`, not through all characters.
instance decidableForallMem (l : List Char) (p : Char → Prop) [DecidablePred p] :
    Decidable (∀ x ∈ l, p x) := l.decidableBAll p

/-- The characters with an escape of their own. -/
def shorts : List Char := ['"', '\\', '\n', '\r', '\t', '\x00']

/-- Whether a character is written by its number: it is in the class, and has no escape of its own. -/
def isNumbered (hidden : Char → Bool) (c : Char) : Bool := c ∉ shorts && hidden c

/-- The number of a character between braces, as it is written behind a backslash. -/
def numeral (c : Char) : List Char := 'u' :: '\x7b' :: (Nat.toDigits 16 c.toNat ++ ['\x7d'])

/-- What is read of a character that was written between quotes. -/
def readChar (hidden : Char → Bool) (c : Char) : List Char :=
  if isNumbered hidden c then numeral c else [c]

/-- What is read of a text that was written between quotes. -/
def readBack (hidden : Char → Bool) (s : String) : String :=
  String.ofList (s.toList.flatMap (readChar hidden))

variable {hidden : Char → Bool}

/-! ### How a character is written -/

theorem digitChar_mem : ∀ n < 16, Nat.digitChar n ∈ "0123456789abcdef".toList := by decide

/-- The digits of a number. -/
theorem mem_toDigits {n : Nat} : ∀ x ∈ Nat.toDigits 16 n, x ∈ "0123456789abcdef".toList := by
  induction n using Nat.strongRecOn with | ind n ih
  intro x hx
  rw [Nat.toDigits_eq_if (by decide)] at hx
  split at hx
  next hn =>
    obtain rfl := List.mem_singleton.mp hx
    exact digitChar_mem n hn
  next hn =>
    rcases List.mem_append.mp hx with hx | hx
    · exact ih (n / 16) (by omega) x hx
    · obtain rfl := List.mem_singleton.mp hx
      exact digitChar_mem _ (Nat.mod_lt n (by decide))

/-- There is neither a quote nor a backslash in a numeral. -/
theorem numeral_plain (c : Char) : ∀ x ∈ numeral c, x ≠ '"' ∧ x ≠ '\\' := by
  have digits : ∀ x ∈ "0123456789abcdef".toList, x ≠ '"' ∧ x ≠ '\\' := by decide
  have digits : ∀ x ∈ Nat.toDigits 16 c.toNat, x ≠ '"' ∧ x ≠ '\\' := fun x hx =>
    digits x (mem_toDigits x hx)
  exact List.forall_mem_cons.mpr ⟨by decide, List.forall_mem_cons.mpr ⟨by decide,
    List.forall_mem_append.mpr ⟨digits, List.forall_mem_singleton.mpr (by decide)⟩⟩⟩

theorem escapeChar_of_isNumbered {c : Char} (h : isNumbered hidden c) :
    escapeChar hidden c = '\\' :: numeral c := by
  simp only [isNumbered, shorts, Bool.and_eq_true, decide_eq_true_eq, List.mem_cons,
    List.not_mem_nil, or_false, not_or] at h
  obtain ⟨⟨h₁, h₂, h₃, h₄, h₅, h₆⟩, h₇⟩ := h
  rw [escapeChar, if_neg h₁, if_neg h₂, if_neg h₃, if_neg h₄, if_neg h₅, if_neg h₆, if_pos h₇]
  rfl

/-- A character that is not written by its number has a short escape or stands for itself. -/
theorem escapeChar_cases {c : Char} (h : isNumbered hidden c = false) :
    (∃ y, y ≠ 'u' ∧ unescapeChar y = c ∧ escapeChar hidden c = ['\\', y]) ∨
      c ≠ '"' ∧ c ≠ '\\' ∧ escapeChar hidden c = [c] := by
  by_cases hs : c ∈ shorts
  · have short : ∀ c ∈ shorts, ∃ y, y ≠ 'u' ∧ unescapeChar y = c ∧
        escapeChar hidden c = ['\\', y] := by
      simp only [shorts, List.forall_mem_cons]
      exact ⟨⟨'"', by decide, rfl, rfl⟩, ⟨'\\', by decide, rfl, rfl⟩, ⟨'n', by decide, rfl, rfl⟩,
        ⟨'r', by decide, rfl, rfl⟩, ⟨'t', by decide, rfl, rfl⟩, ⟨'0', by decide, rfl, rfl⟩,
        List.forall_mem_nil _⟩
    exact .inl (short c hs)
  · have seen : ¬ hidden c := by
      simpa [isNumbered, hs] using h
    simp only [shorts, List.mem_cons, List.not_mem_nil, or_false, not_or] at hs
    obtain ⟨h₁, h₂, h₃, h₄, h₅, h₆⟩ := hs
    refine .inr ⟨h₁, h₂, ?_⟩
    rw [escapeChar, if_neg h₁, if_neg h₂, if_neg h₃, if_neg h₄, if_neg h₅, if_neg h₆, if_neg seen]

/-! ### What is read of it -/

variable {r : List Char}

theorem unescape_cons {c : Char} (h : c ≠ '\\') : unescape (c :: r) = c :: unescape r := by
  simp [unescape, h]

/-- Where there is no backslash, nothing is replaced. -/
theorem unescape_stretch : ∀ {xs : List Char}, (∀ x ∈ xs, x ≠ '\\') →
    unescape (xs ++ r) = xs ++ unescape r
  | [], _ => rfl
  | x :: xs, h => by
      rw [List.forall_mem_cons] at h
      rw [List.cons_append, unescape_cons h.1, unescape_stretch h.2, List.cons_append]

theorem unescape_escapeChar (c : Char) :
    unescape (escapeChar hidden c ++ r) = readChar hidden c ++ unescape r := by
  cases h : isNumbered hidden c with
  | true =>
      have rest := unescape_stretch (r := r) fun x hx => (numeral_plain c x hx).2
      rw [escapeChar_of_isNumbered h, readChar, if_pos h, ← rest]
      rfl
  | false =>
      rw [readChar, if_neg (by simp [h])]
      rcases escapeChar_cases h with ⟨y, -, hy, e⟩ | ⟨-, hb, e⟩
      · rw [e, ← hy]
        rfl
      · rw [e]
        exact unescape_cons hb

/-! ### When the text is read back -/

theorem readChar_of_not_isNumbered {c : Char} (h : isNumbered hidden c = false) :
    readChar hidden c = [c] := by
  rw [readChar, if_neg (by simp [h])]

/-- No less is read than was written. -/
theorem length_readChar (hidden : Char → Bool) (c : Char) :
    1 ≤ (readChar hidden c).length ∧ (isNumbered hidden c → 1 < (readChar hidden c).length) := by
  rw [readChar]
  split
  · simp [numeral]
  next h => exact ⟨Nat.le_refl 1, fun h' => absurd h' h⟩

theorem length_flatMap_readChar (hidden : Char → Bool) : ∀ xs : List Char,
    xs.length ≤ (xs.flatMap (readChar hidden)).length ∧
    ((∃ c ∈ xs, isNumbered hidden c) → xs.length < (xs.flatMap (readChar hidden)).length)
  | []      => ⟨Nat.le_refl 0, nofun⟩
  | x :: xs => by
      obtain ⟨hx, hx'⟩ := length_readChar hidden x
      obtain ⟨ih, ih'⟩ := length_flatMap_readChar hidden xs
      rw [List.flatMap_cons, List.length_append, List.length_cons]
      refine ⟨by omega, fun ⟨c, hc, hn⟩ => ?_⟩
      rcases List.mem_cons.mp hc with rfl | hc
      · have := hx' hn
        omega
      · have := ih' ⟨c, hc, hn⟩
        omega

theorem flatMap_readChar : ∀ {xs : List Char}, (∀ c ∈ xs, isNumbered hidden c = false) →
    xs.flatMap (readChar hidden) = xs
  | [], _      => rfl
  | x :: xs, h => by
      rw [List.forall_mem_cons] at h
      rw [List.flatMap_cons, readChar_of_not_isNumbered h.1, flatMap_readChar h.2]
      rfl

/-- **A text is read back just when no character of it is written by its number.** -/
theorem readBack_eq_iff {s : String} :
    readBack hidden s = s ↔ ∀ c ∈ s.toList, isNumbered hidden c = false := by
  constructor
  · intro h c hc
    cases hn : isNumbered hidden c with
    | false => rfl
    | true =>
        have longer := (length_flatMap_readChar hidden s.toList).2 ⟨c, hc, hn⟩
        rw [← String.toList_ofList (l := s.toList.flatMap (readChar hidden)), ← readBack, h] at longer
        exact absurd longer (Nat.lt_irrefl _)
  · intro h
    rw [readBack, flatMap_readChar h, String.ofList_toList]

/-! ### Two texts in quotes -/

/-- The number that is written with the digits. -/
def hexValue (xs : List Char) : Nat :=
  xs.foldl (fun v x => 16 * v + "0123456789abcdef".toList.idxOf x) 0

theorem hexValue_toDigits (n : Nat) : hexValue (Nat.toDigits 16 n) = n := by
  have digit : ∀ n < 16, "0123456789abcdef".toList.idxOf (Nat.digitChar n) = n := by decide
  induction n using Nat.strongRecOn with | ind n ih
  rw [Nat.toDigits_eq_if (by decide)]
  split
  next hn => exact (Nat.zero_add _).trans (digit n hn)
  next hn =>
    have first : hexValue (Nat.toDigits 16 (n / 16)) = n / 16 := ih (n / 16) (by omega)
    have last := digit (n % 16) (Nat.mod_lt n (by decide))
    rw [hexValue] at first ⊢
    rw [List.foldl_append, first, List.foldl_cons, List.foldl_nil, last]
    omega

/-- Two stretches of characters of a kind are the same when what is behind them begins with no such
character. -/
theorem stretch_append_inj {p : Char → Prop} : ∀ {xs ys r r' : List Char}, (∀ x ∈ xs, p x) →
    (∀ y ∈ ys, p y) → (∀ x ∈ r.head?, ¬ p x) → (∀ x ∈ r'.head?, ¬ p x) → xs ++ r = ys ++ r' →
      xs = ys ∧ r = r'
  | [], [], _, _, _, _, _, _, h => ⟨rfl, h⟩
  | [], y :: ys, r, r', _, hy, hr, _, h =>
    have behind : r = y :: ys ++ r' := h
    absurd (List.forall_mem_cons.mp hy).1 (hr y (by rw [behind]; rfl))
  | x :: xs, [], r, r', hx, _, _, hr', h =>
    have behind : x :: xs ++ r = r' := h
    absurd (List.forall_mem_cons.mp hx).1 (hr' x (by rw [← behind]; rfl))
  | x :: xs, y :: ys, _, _, hx, hy, hr, hr', h => by
      obtain ⟨rfl, behind⟩ := List.cons.inj h
      obtain ⟨rfl, rest⟩ := stretch_append_inj (List.forall_mem_cons.mp hx).2
        (List.forall_mem_cons.mp hy).2 hr hr' behind
      exact ⟨rfl, rest⟩

/-- The numeral tells the character, and where the numeral ends. -/
theorem numeral_append_inj {c d : Char} {r r' : List Char} (h : numeral c ++ r = numeral d ++ r') :
    c = d ∧ r = r' := by
  have digits : ∀ c : Char, ∀ x ∈ Nat.toDigits 16 c.toNat, x ≠ '\x7d' := fun c x hx =>
    (by decide : ∀ x ∈ "0123456789abcdef".toList, x ≠ '\x7d') x (mem_toDigits x hx)
  have brace : ∀ r : List Char, ∀ x ∈ ('\x7d' :: r).head?, ¬ x ≠ '\x7d' := by simp
  simp only [numeral, List.cons_append, List.cons.injEq, true_and, List.append_assoc,
    List.nil_append] at h
  obtain ⟨same, behind⟩ := stretch_append_inj (digits c) (digits d) (brace r) (brace r') h
  have value := congrArg hexValue same
  rw [hexValue_toDigits, hexValue_toDigits] at value
  exact ⟨Char.toNat_inj.mp value, (List.cons.inj behind).2⟩

/-- What is written for a character tells the character, and where it ends. -/
theorem escapeChar_append_inj {c d : Char} {r r' : List Char}
    (h : escapeChar hidden c ++ r = escapeChar hidden d ++ r') : c = d ∧ r = r' := by
  cases hc : isNumbered hidden c <;> cases hd : isNumbered hidden d
  · rcases escapeChar_cases hc with ⟨y, -, hy, e⟩ | ⟨-, hb, e⟩ <;>
      rcases escapeChar_cases hd with ⟨y', -, hy', e'⟩ | ⟨-, hb', e'⟩ <;> rw [e, e'] at h <;> cases h
    · exact ⟨hy.symm.trans hy', rfl⟩
    · exact absurd rfl hb'
    · exact absurd rfl hb
    · exact ⟨rfl, rfl⟩
  · rcases escapeChar_cases hc with ⟨y, hy, -, e⟩ | ⟨-, hb, e⟩ <;>
      rw [e, escapeChar_of_isNumbered hd] at h <;> cases h
    · exact absurd rfl hy
    · exact absurd rfl hb
  · rcases escapeChar_cases hd with ⟨y, hy, -, e⟩ | ⟨-, hb, e⟩ <;>
      rw [e, escapeChar_of_isNumbered hc] at h <;> cases h
    · exact absurd rfl hy
    · exact absurd rfl hb
  · rw [escapeChar_of_isNumbered hc, escapeChar_of_isNumbered hd] at h
    exact numeral_append_inj (List.cons.inj h).2

/-- What is written for a character does not begin with a quote. -/
theorem escapeChar_ne_quote {c : Char} {r r' : List Char} : escapeChar hidden c ++ r ≠ '"' :: r' := by
  intro h
  cases hc : isNumbered hidden c with
  | true =>
      rw [escapeChar_of_isNumbered hc] at h
      cases h
  | false =>
      rcases escapeChar_cases hc with ⟨y, -, -, e⟩ | ⟨hq, -, e⟩ <;> rw [e] at h <;> cases h
      exact hq rfl

theorem escapes_append_inj : ∀ {xs ys r r' : List Char},
    xs.flatMap (escapeChar hidden) ++ '"' :: r = ys.flatMap (escapeChar hidden) ++ '"' :: r' →
      xs = ys ∧ r = r'
  | [], [], _, _, h => ⟨rfl, (List.cons.inj h).2⟩
  | [], y :: ys, _, _, h => by
      rw [List.flatMap_cons, List.append_assoc] at h
      exact absurd h.symm escapeChar_ne_quote
  | x :: xs, [], _, _, h => by
      rw [List.flatMap_cons, List.append_assoc] at h
      exact absurd h escapeChar_ne_quote
  | x :: xs, y :: ys, _, _, h => by
      rw [List.flatMap_cons, List.flatMap_cons, List.append_assoc, List.append_assoc] at h
      obtain ⟨rfl, behind⟩ := escapeChar_append_inj h
      obtain ⟨rfl, rest⟩ := escapes_append_inj behind
      exact ⟨rfl, rest⟩

/-- **A text in quotes tells the text**, and where it ends. -/
theorem quoteWith_append_inj {s t : String} {r r' : List Char}
    (h : (quoteWith hidden s).toList ++ r = (quoteWith hidden t).toList ++ r') : s = t ∧ r = r' := by
  simp only [quoteWith, String.toList_ofList, List.cons_append, List.append_assoc, List.cons.injEq,
    true_and, List.nil_append] at h
  obtain ⟨same, rfl⟩ := escapes_append_inj h
  exact ⟨String.toList_inj.mp same, rfl⟩

end Nondet.Text
