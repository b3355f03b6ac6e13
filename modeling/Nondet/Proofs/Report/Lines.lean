import Nondet.Report.Source

/-!
# Report — Lines

The line and the column of a character.  `Position.walk` counts them from character to character and
knows no lines; `Line.position` reads them off the line that holds an offset.  At every character of a
text the two agree (`Line.position_find_all`), and no two offsets have one position
(`Line.position_find_inj`), the offset behind the text included.
-/

namespace Nondet.Report

/-- A line and a column in it, both counted from one. -/
structure Position where
  line : Nat
  column : Nat
  deriving DecidableEq, Repr

/-- A character ends its line, before the characters given.  The first of the pair that ends a line
together does not. -/
def endsLine (c : Char) (rest : List Char) : Bool :=
  isTerminator c && !(c == '\r' && rest.head? == some '\n')

namespace Position

/-- The position behind a character. -/
def next (p : Position) (ends : Bool) : Position :=
  if ends then ⟨p.line + 1, 1⟩ else ⟨p.line, p.column + 1⟩

/-- The position of the character with an index, in a text whose first character is at `p`. -/
def walk (p : Position) : Nat → List Char → Position
  | 0, _              => p
  | _ + 1, []         => p
  | index + 1, c :: r => (p.next (endsLine c r)).walk index r

/-- The position of the character with an index in a text. -/
def ofIndex (index : Nat) (source : List Char) : Position := walk ⟨1, 1⟩ index source

end Position

/-! ### Lines as stretches of a text -/

/-- The first line goes on with what it has already. -/
theorem exists_linesFrom {line cs : List Char} (h : line ++ cs ≠ []) :
    ∃ l ls, linesFrom line cs = (line.reverse ++ l) :: ls := by
  fun_induction linesFrom line cs with
  | case1 line empty => exact absurd (by simpa using empty) h
  | case2 line => exact ⟨[], [], by rw [List.append_nil]⟩
  | case3 line r => exact ⟨['\r', '\n'], linesFrom [] r, by simp⟩
  | case4 line c r => exact ⟨[c], linesFrom [] r, by simp⟩
  | case5 line c r _ _ ih =>
      obtain ⟨l, ls, e⟩ := ih (List.cons_ne_nil _ _)
      exact ⟨c :: l, ls, by rw [e, List.reverse_cons, List.append_assoc, List.singleton_append]⟩

theorem linesFrom_ne_nil {cs : List Char} (h : 0 < cs.length) : linesFrom [] cs ≠ [] := by
  have begun : [] ++ cs ≠ [] := List.ne_nil_of_length_pos h
  obtain ⟨l, ls, e⟩ := exists_linesFrom begun
  exact e ▸ List.cons_ne_nil _ _

namespace Line

variable {number start offset : Nat} {l : List Char} {ls : List (List Char)}

/-- The position of an offset in a line. -/
def position (l : Line) (offset : Nat) : Position := ⟨l.number, offset - l.start + 1⟩

theorem le_of_mem_numberFrom {x : Line} (h : x ∈ numberFrom number start ls) :
    number ≤ x.number ∧ start ≤ x.start := by
  induction ls generalizing number start with
  | nil => cases h
  | cons l ls ih =>
      rcases List.mem_cons.mp h with rfl | h
      · exact ⟨Nat.le_refl _, Nat.le_refl _⟩
      · have := ih h
        omega

/-- A number is that of one line. -/
theorem eq_of_number_eq {x y : Line} (hx : x ∈ numberFrom number start ls)
    (hy : y ∈ numberFrom number start ls) (h : x.number = y.number) : x = y := by
  induction ls generalizing number start with
  | nil => cases hx
  | cons l ls ih =>
      rcases List.mem_cons.mp hx with rfl | hx' <;> rcases List.mem_cons.mp hy with rfl | hy'
      · rfl
      · exact absurd (le_of_mem_numberFrom hy').1 (by simp only at h; omega)
      · exact absurd (le_of_mem_numberFrom hx').1 (by simp only at h; omega)
      · exact ih hx' hy'

/-! ### Finding the line of an offset -/

/-- The line that is found is one of those that begin at the offset or before it. -/
theorem find_spec {ls : List Line} {x : Line} (hx : x ∈ ls) (h : x.start ≤ offset) :
    find ls offset ∈ ls ∧ (find ls offset).start ≤ offset := by
  have ne : ls.filter (·.start ≤ offset) ≠ [] :=
    List.ne_nil_of_mem (List.mem_filter.mpr ⟨hx, decide_eq_true h⟩)
  have found : find ls offset ∈ ls.filter (·.start ≤ offset) := by
    rw [find, List.getLast?_eq_some_getLast ne]
    exact List.getLast_mem ne
  obtain ⟨mem, le⟩ := List.mem_filter.mp found
  exact ⟨mem, of_decide_eq_true le⟩

theorem find_first (le : start ≤ offset) (lt : offset < start + l.length) :
    find (numberFrom number start (l :: ls)) offset = ⟨number, start, l⟩ := by
  have later : (numberFrom (number + 1) (start + l.length) ls).filter (·.start ≤ offset) = [] :=
    List.filter_eq_nil_iff.mpr fun x hx => by
      have := (le_of_mem_numberFrom hx).2
      simp only [decide_eq_true_eq]
      omega
  rw [find, numberFrom, List.filter_cons_of_pos (by simpa using le), later]
  rfl

theorem find_later (h : start + l.length ≤ offset) (ne : ls ≠ []) :
    find (numberFrom number start (l :: ls)) offset =
      find (numberFrom (number + 1) (start + l.length) ls) offset := by
  obtain ⟨l', ls', rfl⟩ := List.exists_cons_of_ne_nil ne
  have first : start ≤ offset := by omega
  rw [find, find, numberFrom, List.filter_cons_of_pos (by simpa using first), numberFrom,
    List.filter_cons_of_pos (by simpa using h), List.getLast?_cons_cons]

/-- In the first line the column is counted from its start. -/
theorem position_find_first (le : start ≤ offset) (lt : offset < start + l.length) :
    (find (numberFrom number start (l :: ls)) offset).position offset =
      ⟨number, offset - start + 1⟩ := by
  rw [find_first le lt]
  rfl

/-- Behind the first line the offset is one of the text that is left. -/
theorem position_find_later {cs : List Char} {index : Nat} (h : index < cs.length)
    (here : offset = start + l.length + index) :
    (find (numberFrom number start (l :: linesFrom [] cs)) offset).position offset =
      (find (numberFrom (number + 1) (start + l.length) (linesFrom [] cs))
        (start + l.length + index)).position (start + l.length + index) := by
  rw [find_later (by omega) (linesFrom_ne_nil (Nat.zero_lt_of_lt h)), here]

/-- The walk comes to the position that a line gives, at the characters behind those of a line that
is under way. -/
theorem position_find_linesFrom {line cs : List Char} {index : Nat} (h : index < cs.length)
    (number start : Nat) :
    (find (numberFrom number start (linesFrom line cs)) (start + line.length + index)).position
        (start + line.length + index) =
      Position.walk ⟨number, line.length + 1⟩ index cs := by
  fun_induction linesFrom line cs generalizing number start index with
  | case1 => cases h
  | case2 => cases h
  | case3 line r ih =>
      match index, h with
      | 0, _ =>
          rw [position_find_first (by omega) (by simp), Position.walk]
          simp
      | 1, _ =>
          rw [position_find_first (by omega) (by simp; omega), Position.walk, Position.walk]
          simp [Position.next, endsLine]
          omega
      | index + 2, h =>
          have h : index < r.length := by simpa using h
          rw [position_find_later h (by simp; omega)]
          refine (ih h _ _).trans ?_
          simp [Position.walk, Position.next, endsLine, isTerminator]
  | case4 line c r single ends ih =>
      match index, h with
      | 0, _ =>
          rw [position_find_first (by omega) (by simp), Position.walk]
          simp
      | index + 1, h =>
          have h : index < r.length := by simpa using h
          have ends : endsLine c r = true := by
            rw [endsLine, ends, Bool.true_and, Bool.not_eq_true', Bool.and_eq_false_imp, beq_iff_eq,
              beq_eq_false_iff_ne]
            intro hc hr
            obtain ⟨r', e⟩ := List.head?_eq_some_iff.mp hr
            exact single r' hc e
          rw [position_find_later h (by simp; omega)]
          refine (ih h _ _).trans ?_
          rw [Position.walk, Position.next, if_pos ends]
          rfl
  | case5 line c r _ inside ih =>
      match index, h with
      | 0, _ =>
          have begun : c :: line ++ r ≠ [] := List.cons_ne_nil _ _
          obtain ⟨l, ls, e⟩ := exists_linesFrom begun
          rw [e, position_find_first (by omega) (by simp), Position.walk]
          simp
      | index + 1, h =>
          have h : index < r.length := by simpa using h
          have inside : endsLine c r = false := by simp [endsLine, inside]
          have here : start + line.length + (index + 1) = start + (c :: line).length + index := by
            simp
            omega
          rw [here, ih h, Position.walk, Position.next, inside]
          rfl

/-! ### The lines of a text -/

/-- A text has a line, be it an empty one. -/
theorem all_eq (source : List Char) : ∃ l ls, all source = numberFrom 1 0 (l :: ls) := by
  unfold all
  split
  · exact ⟨[], [], rfl⟩
  · next ne =>
      obtain ⟨l, ls, e⟩ := List.exists_cons_of_ne_nil ne
      exact ⟨l, ls, congrArg (numberFrom 1 0) e⟩

/-- The lines of a text give every character the position that the walk comes to. -/
theorem position_find_all {source : List Char} {index : Nat} (h : index < source.length) :
    (find (all source) index).position index = Position.ofIndex index source := by
  have ne := linesFrom_ne_nil (Nat.zero_lt_of_lt h)
  have lines : all source = numberFrom 1 0 (linesFrom [] source) := by
    unfold all
    split
    · next e => exact absurd e ne
    · rfl
  have walked : (find (numberFrom 1 0 (linesFrom [] source)) (0 + 0 + index)).position
      (0 + 0 + index) = Position.ofIndex index source := position_find_linesFrom h 1 0
  rwa [Nat.zero_add, ← lines] at walked

/-- No two offsets have one position. -/
theorem position_find_inj {source : List Char} {i j : Nat}
    (h : (find (all source) i).position i = (find (all source) j).position j) : i = j := by
  obtain ⟨l, ls, lines⟩ := all_eq source
  have first : (⟨1, 0, l⟩ : Line) ∈ all source := lines ▸ List.mem_cons_self
  obtain ⟨hi, lei⟩ := find_spec first (Nat.zero_le i)
  obtain ⟨hj, lej⟩ := find_spec first (Nat.zero_le j)
  obtain ⟨hnumber, hcolumn⟩ := Position.mk.inj h
  rw [lines] at hi hj
  have same := eq_of_number_eq hi hj (lines ▸ hnumber)
  rw [← lines] at same
  rw [same] at hcolumn lei
  omega

end Line

end Nondet.Report
