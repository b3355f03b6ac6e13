import Nondet.Proofs.Text.Quoted

/-!
# Tree — Outline

What a rendered tree is before it is a text: words, texts in quotes, and lists of such in parentheses,
each with or without a semicolon behind it.  The text of an outline can be read in one way only
(`Outline.text_inj`).  Reading goes from the left: a word ends at the first mark, a text in quotes where
its quotes do, and a list at the parenthesis that closes it; a semicolon belongs to what is in front of
it, so it is settled after that (`Outline.base_unique`).
-/

namespace Nondet

/-- Words, texts in quotes, lists of outlines, and outlines with a semicolon behind them. -/
inductive Outline where
  | word (w : String)
  | quoted (s : String)
  | list (items : List Outline)
  | ended (item : Outline)
  deriving Inhabited

namespace Outline

section

variable (hidden : Char → Bool)

mutual

/-- An outline as a text, where the characters of a class are written by their numbers. -/
def text : Outline → List Char
  | .word w     => w.toList
  | .quoted s   => (Text.quoteWith hidden s).toList
  | .list items => '(' :: (texts items ++ [')'])
  | .ended item => item.text ++ [';']

/-- Outlines with a space between each two. -/
def texts : List Outline → List Char
  | []      => []
  | o :: os => o.text ++ textsBehind os

/-- Every outline behind a space. -/
def textsBehind : List Outline → List Char
  | []      => []
  | o :: os => ' ' :: (o.text ++ textsBehind os)

end

end

/-- The characters that stand in no word. -/
def marks : List Char := [' ', '(', ')', ';', '"']

/-- The outline without the semicolon behind it. -/
def base : Outline → Outline
  | .ended item => item
  | o           => o

/-- The semicolon behind the outline, if there is one. -/
def mark : Outline → List Char
  | .ended _ => [';']
  | _        => []

/-- A word has characters, and none of the marks. -/
def IsWord (w : String) : Prop := w ≠ "" ∧ ∀ x ∈ w.toList, x ∉ marks

instance (w : String) : Decidable (IsWord w) := inferInstanceAs (Decidable (_ ∧ _))

/-- Words are such, and there is at most one semicolon behind anything. -/
inductive Plain : Outline → Prop
  | word {w : String} (hw : IsWord w) : Plain (.word w)
  | quoted {s : String} : Plain (.quoted s)
  | list {items : List Outline} (h : ∀ o ∈ items, o.Plain) : Plain (.list items)
  | ended {item : Outline} (h : item.Plain) (hm : item.mark = []) : Plain (.ended item)

/-- Nothing behind an outline goes on with it: there is a mark, or nothing at all. -/
def Closed (r : List Char) : Prop := ∀ x ∈ r.head?, x ∈ [' ', ')', ';']

variable {hidden : Char → Bool} {a b o : Outline} {os : List Outline} {r r' : List Char}

/-! ### The semicolon -/

theorem text_eq_base (o : Outline) : o.text hidden = o.base.text hidden ++ o.mark := by
  cases o with
  | ended item => rfl
  | _ => exact (List.append_nil _).symm

theorem base_of_mark (h : o.mark = []) : o.base = o := by
  cases o with
  | ended item => cases h
  | _ => rfl

theorem Plain.base (h : o.Plain) : o.base.Plain ∧ o.base.mark = [] := by
  cases h with
  | ended h hm => exact ⟨h, hm⟩
  | word hw => exact ⟨.word hw, rfl⟩
  | quoted => exact ⟨.quoted, rfl⟩
  | list h => exact ⟨.list h, rfl⟩

theorem closed_mark (o : Outline) (h : Closed r) : Closed (o.mark ++ r) := by
  cases o with
  | ended item =>
      rintro _ ⟨⟩
      decide
  | _ => exact h

/-- Where no semicolon follows, two outlines are the same with their semicolons. -/
theorem eq_of_base (hb : a.base = b.base) (hm : a.mark ++ r = b.mark ++ r')
    (hr : r.head? ≠ some ';') (hr' : r'.head? ≠ some ';') : a = b ∧ r = r' := by
  cases a with
  | ended a =>
      cases b with
      | ended b =>
          obtain rfl : a = b := hb
          exact ⟨rfl, (List.cons.inj hm).2⟩
      | _ =>
          have behind : ';' :: r = r' := hm
          exact absurd (by rw [← behind]; rfl) hr'
  | _ =>
      cases b with
      | ended b =>
          have behind : r = ';' :: r' := hm
          exact absurd (by rw [behind]; rfl) hr
      | _ => exact ⟨hb, hm⟩

/-! ### What an outline begins with -/

/-- The character is one that such an outline begins with. -/
def Leads : Outline → Char → Prop
  | .word _, x     => x ∉ marks
  | .quoted _, x   => x = '"'
  | .list _, x     => x = '('
  | .ended item, x => item.Leads x

theorem Plain.leads (h : o.Plain) : ∃ x xs, o.text hidden = x :: xs ∧ o.Leads x := by
  induction h with
  | @word w hw =>
      cases hx : w.toList with
      | nil => exact absurd (String.toList_eq_nil_iff.mp hx) hw.1
      | cons x xs => exact ⟨x, xs, hx, hw.2 x (by rw [hx]; exact List.mem_cons_self)⟩
  | quoted => exact ⟨'"', _, String.toList_ofList, rfl⟩
  | list => exact ⟨'(', _, rfl, rfl⟩
  | ended _ _ ih =>
      obtain ⟨x, xs, e, hx⟩ := ih
      exact ⟨x, xs ++ [';'], by rw [text, e]; rfl, hx⟩

/-- Outlines that begin the same text begin with the same character. -/
theorem Plain.lead_of_append (ha : a.Plain) (hb : b.Plain)
    (h : a.text hidden ++ r = b.text hidden ++ r') : ∃ x, a.Leads x ∧ b.Leads x := by
  obtain ⟨x, xs, ea, hx⟩ := ha.leads
  obtain ⟨y, ys, eb, hy⟩ := hb.leads
  rw [ea, eb] at h
  obtain rfl := (List.cons.inj h).1
  exact ⟨x, hx, hy⟩

/-- Nothing begins with the parenthesis that closes a list. -/
theorem Plain.append_ne_close (h : o.Plain) : o.text hidden ++ r ≠ ')' :: r' := by
  obtain ⟨x, xs, e, hx⟩ := h.base.1.leads
  rw [text_eq_base, e]
  intro same
  obtain rfl := (List.cons.inj same).1
  revert hx
  cases hb : o.base with
  | word w => exact fun hx => hx (by decide)
  | quoted s => exact nofun
  | list items => exact nofun
  | ended item =>
      have hm := h.base.2
      rw [hb] at hm
      cases hm

/-! ### Reading from the left -/

/-- What follows on an item of a list is a space or the parenthesis that closes the list. -/
theorem closed_textsBehind (hidden : Char → Bool) (os : List Outline) (r : List Char) :
    Closed (textsBehind hidden os ++ ')' :: r) ∧
      (textsBehind hidden os ++ ')' :: r).head? ≠ some ';' := by
  cases os with
  | nil => exact ⟨by rintro _ ⟨⟩; decide, nofun⟩
  | cons o os => exact ⟨by rintro _ ⟨⟩; decide, nofun⟩

/-- Two outlines without semicolons that begin the same text are the same, if their items are when they
are lists. -/
theorem unmarked_unique (ha : a.Plain) (ma : a.mark = []) (hb : b.Plain) (mb : b.mark = [])
    (hr : Closed r) (hr' : Closed r') (h : a.text hidden ++ r = b.text hidden ++ r')
    (items : ∀ as bs, a = .list as → b = .list bs →
      texts hidden as ++ ')' :: r = texts hidden bs ++ ')' :: r' →
      as = bs ∧ r = r') : a = b ∧ r = r' := by
  have outside : ∀ {r : List Char}, Closed r → ∀ x ∈ r.head?, ¬ x ∉ marks := fun hr x hx no =>
    no ((by decide : ∀ x ∈ [' ', ')', ';'], x ∈ marks) x (hr x hx))
  obtain ⟨x, hx, hy⟩ := ha.lead_of_append hb h
  cases ha with
  | @word w hw =>
      cases hb with
      | @word w' hw' =>
          obtain ⟨same, rest⟩ := Text.stretch_append_inj hw.2 hw'.2 (outside hr) (outside hr') h
          exact ⟨congrArg word (String.toList_inj.mp same), rest⟩
      | quoted | list =>
          obtain rfl := hy
          exact absurd (by decide) hx
      | ended => cases mb
  | @quoted s =>
      cases hb with
      | @quoted t =>
          obtain ⟨rfl, rest⟩ := Text.quoteWith_append_inj h
          exact ⟨rfl, rest⟩
      | word =>
          obtain rfl := hx
          exact absurd (by decide) hy
      | list => cases hx.symm.trans hy
      | ended => cases mb
  | @list as _ =>
      cases hb with
      | @list bs _ =>
          have inside : texts hidden as ++ ')' :: r = texts hidden bs ++ ')' :: r' := by
            simpa [text] using h
          obtain ⟨rfl, rest⟩ := items as bs rfl rfl inside
          exact ⟨rfl, rest⟩
      | word =>
          obtain rfl := hx
          exact absurd (by decide) hy
      | quoted => cases hx.symm.trans hy
      | ended => cases mb
  | ended => cases ma

mutual

/-- **An outline is read in one way**, up to the semicolon behind it. -/
theorem base_unique : ∀ (a b : Outline) {r r' : List Char}, a.Plain → b.Plain → Closed r → Closed r' →
    a.text hidden ++ r = b.text hidden ++ r' → a.base = b.base ∧ a.mark ++ r = b.mark ++ r'
  | .ended a, b, r, r', ha, hb, hr, hr', h => by
      obtain ⟨ha, hm⟩ : a.Plain ∧ a.mark = [] := ha.base
      have h : a.text hidden ++ ';' :: r = b.text hidden ++ r' := by
        rw [← h, text, List.append_assoc]
        rfl
      have closed : Closed (';' :: r) := by
        rintro _ ⟨⟩
        decide
      obtain ⟨same, behind⟩ := base_unique a b ha hb closed hr' h
      rw [base_of_mark hm] at same
      rw [hm] at behind
      exact ⟨same, behind⟩
  | .word w, b, r, r', ha, hb, hr, hr', h => by
      rw [text_eq_base b, List.append_assoc] at h
      exact unmarked_unique ha rfl hb.base.1 hb.base.2 hr (closed_mark b hr') h nofun
  | .quoted s, b, r, r', ha, hb, hr, hr', h => by
      rw [text_eq_base b, List.append_assoc] at h
      exact unmarked_unique ha rfl hb.base.1 hb.base.2 hr (closed_mark b hr') h nofun
  | .list as, b, r, r', ha, hb, hr, hr', h => by
      rw [text_eq_base b, List.append_assoc] at h
      refine unmarked_unique ha rfl hb.base.1 hb.base.2 hr (closed_mark b hr') h ?_
      rintro _ bs ⟨⟩ eb inside
      have plain : (Outline.list bs).Plain := eb ▸ hb.base.1
      cases ha with | list ha
      cases plain with | list hb
      exact texts_unique as bs ha hb inside

/-- So are the items of a list, up to the parenthesis that closes it. -/
theorem texts_unique : ∀ (as bs : List Outline) {r r' : List Char}, (∀ o ∈ as, o.Plain) →
    (∀ o ∈ bs, o.Plain) →
    texts hidden as ++ ')' :: r = texts hidden bs ++ ')' :: r' → as = bs ∧ r = r'
  | [], [], _, _, _, _, h => ⟨rfl, (List.cons.inj h).2⟩
  | [], b :: bs, r, r', _, hb, h => by
      rw [texts, texts, List.append_assoc] at h
      exact absurd h.symm (hb b List.mem_cons_self).append_ne_close
  | a :: as, [], r, r', ha, _, h => by
      rw [texts, texts, List.append_assoc] at h
      exact absurd h (ha a List.mem_cons_self).append_ne_close
  | a :: as, b :: bs, r, r', ha, hb, h => by
      obtain ⟨ha, has⟩ := List.forall_mem_cons.mp ha
      obtain ⟨hb, hbs⟩ := List.forall_mem_cons.mp hb
      rw [texts, texts, List.append_assoc, List.append_assoc] at h
      have ca := closed_textsBehind hidden as r
      have cb := closed_textsBehind hidden bs r'
      obtain ⟨same, marked⟩ := base_unique a b ha hb ca.1 cb.1 h
      obtain ⟨rfl, behind⟩ := eq_of_base same marked ca.2 cb.2
      cases as with
      | nil =>
          cases bs with
          | nil => exact ⟨rfl, (List.cons.inj behind).2⟩
          | cons b' bs => cases (List.cons.inj behind).1
      | cons a' as =>
          cases bs with
          | nil => cases (List.cons.inj behind).1
          | cons b' bs =>
              obtain ⟨same, rest⟩ := texts_unique (a' :: as) (b' :: bs) has hbs (List.cons.inj behind).2
              exact ⟨congrArg (a :: ·) same, rest⟩

end

/-- **The text of an outline tells the outline.** -/
theorem text_inj (ha : a.Plain) (hb : b.Plain) (h : a.text hidden = b.text hidden) : a = b := by
  have none : Closed [] := nofun
  have h : a.text hidden ++ [] = b.text hidden ++ [] := by rw [h]
  obtain ⟨same, behind⟩ := base_unique a b ha hb none none h
  exact (eq_of_base same behind nofun nofun).1

end Outline

end Nondet
