import Nondet.Frame.Store

/-!
# Frame — Store laws

What the operations on all frames leave of each single one.  A new frame changes no other; a
binding that is set and a table that is replaced change one table and nothing else.  `get?` is
what every law is about.
-/

namespace Nondet

namespace Frames

variable {fs : Frames} {i j : FrameId}

/-- A number is in use when it is below the next one. -/
theorem get?_isSome : (fs.get? i).isSome ↔ i < fs.next := by
  simp [get?, next]

theorem lt_next {f : Frame} (h : fs.get? i = some f) : i < fs.next :=
  get?_isSome.mp (by rw [h]; rfl)

theorem get?_push (frame : Frame) :
    (fs.push frame).get? i = if i = fs.next then some frame else fs.get? i :=
  Array.getElem?_push

/-- A frame is found as before when another is added. -/
theorem get?_push_of_some {f : Frame} (h : fs.get? i = some f) (frame : Frame) :
    (fs.push frame).get? i = some f := by
  rw [get?_push, if_neg (Nat.ne_of_lt (lt_next h)), h]

theorem get?_setBindings (bindings : Bindings) :
    (fs.setBindings i bindings).get? j =
      if i = j then (fs.get? j).map fun f => { f with bindings } else fs.get? j := by
  simp [get?, setBindings, Array.getElem?_modify]

theorem get?_set (name : String) (binding : Binding) :
    (fs.set i name binding).get? j =
      if i = j then (fs.get? j).map fun f => { f with bindings := f.bindings.set name binding }
      else fs.get? j := by
  simp [get?, set, Array.getElem?_modify]

@[simp] theorem next_push (frame : Frame) : (fs.push frame).next = fs.next + 1 := by
  simp [next, push]

@[simp] theorem next_setBindings (bindings : Bindings) :
    (fs.setBindings i bindings).next = fs.next := by
  simp [next, setBindings]

@[simp] theorem next_set (name : String) (binding : Binding) :
    (fs.set i name binding).next = fs.next := by
  simp [next, set]

@[simp] theorem next_apply (change : Change) : (fs.apply change).next = fs.next :=
  next_set _ _

@[simp] theorem next_makeClosure (function : Function) (frame : FrameId) :
    (fs.makeClosure function frame).2.next = fs.next := rfl

theorem bindings_of_get? {f : Frame} (h : fs.get? i = some f) : fs.bindings i = f.bindings := by
  simp [bindings, h]

theorem bindings_setBindings (bindings : Bindings) :
    (fs.setBindings i bindings).bindings j =
      if i = j ∧ j < fs.next then bindings else fs.bindings j := by
  by_cases hij : i = j
  · subst hij
    by_cases hlt : i < fs.next
    · obtain ⟨f, hf⟩ := Option.isSome_iff_exists.mp (get?_isSome.mpr hlt)
      simp [Frames.bindings, get?_setBindings, hf, hlt]
    · have hf : fs.get? i = none := by simpa [← get?_isSome] using hlt
      simp [Frames.bindings, get?_setBindings, hf, hlt]
  · simp [Frames.bindings, get?_setBindings, hij]

theorem bindings_push (frame : Frame) :
    (fs.push frame).bindings i = if i = fs.next then frame.bindings else fs.bindings i := by
  rw [Frames.bindings]
  rw [get?_push]
  split <;> rfl

/-! ### Changes -/

variable {name : String} {value : Value} {change : Change}

/-- A name is declared in a frame that does not have it. -/
theorem declaration_eq_ok (h : fs.declaration i name = .ok change) :
    fs.binding? i name = none ∧ change = ⟨i, name, .unassigned⟩ := by
  rw [declaration] at h
  split at h
  next => cases h
  next hb =>
    cases h
    exact ⟨hb, rfl⟩

/-- A value is given to a name that has none. -/
theorem definition_eq_ok {constant : Bool} (h : fs.definition i name value constant = .ok change) :
    fs.binding? i name = some .unassigned ∧ change = ⟨i, name, .assigned value !constant⟩ := by
  rw [definition] at h
  split at h
  next hb =>
    cases h
    exact ⟨hb, rfl⟩
  next => cases h
  next => cases h

/-- An assignment overwrites a value in one of the frames outwards. -/
theorem assignment_eq_ok (h : fs.assignment i name value = .ok change) :
    ∃ j ∈ fs.chain i, (∃ w, fs.binding? j name = some (.assigned w true)) ∧
      change = ⟨j, name, .assigned value true⟩ := by
  rw [assignment] at h
  -- The frame that changes is looked for along the chain of frames.
  generalize fs.chain i = frames at h ⊢
  induction frames with
  | nil => cases h
  | cons j outer ih =>
      rw [assignmentIn] at h
      split at h
      next w hb =>
        cases h
        exact ⟨j, List.mem_cons_self, ⟨w, hb⟩, rfl⟩
      next => cases h
      all_goals
        obtain ⟨k, hk, hb⟩ := ih h
        exact ⟨k, List.mem_cons_of_mem j hk, hb⟩

/-- An assignment is refused where the nearest value is a constant, or where there is none. -/
theorem assignment_eq_error {e : BindFailure} (h : fs.assignment i name value = .error e) :
    e = .undefined ∨ e = .constant := by
  rw [assignment] at h
  generalize fs.chain i = frames at h
  induction frames with
  | nil =>
      cases h
      exact .inl rfl
  | cons j outer ih =>
      rw [assignmentIn] at h
      split at h
      next => cases h
      next =>
        cases h
        exact .inr rfl
      all_goals exact ih h

/-- A value that is looked up is that of the name in one of the frames outwards. -/
theorem lookup_eq_ok (h : fs.lookup i name = .ok value) :
    ∃ j ∈ fs.chain i, ∃ m, fs.binding? j name = some (.assigned value m) := by
  rw [lookup] at h
  generalize fs.chain i = frames at h ⊢
  induction frames with
  | nil => cases h
  | cons j outer ih =>
      rw [lookupIn] at h
      split at h
      next w m hb =>
        cases h
        exact ⟨j, List.mem_cons_self, m, hb⟩
      next => cases h
      next =>
        obtain ⟨k, hk, hb⟩ := ih h
        exact ⟨k, List.mem_cons_of_mem j hk, hb⟩

/-- No value is found where the name has none yet, or where no frame has the name. -/
theorem lookup_eq_error {e : BindFailure} (h : fs.lookup i name = .error e) :
    e = .undefined ∨ e = .unassigned := by
  rw [lookup] at h
  generalize fs.chain i = frames at h
  induction frames with
  | nil =>
      cases h
      exact .inl rfl
  | cons j outer ih =>
      rw [lookupIn] at h
      split at h
      next => cases h
      next =>
        cases h
        exact .inr rfl
      next => exact ih h

/-- A declaration gives no value. -/
theorem binding_of_declaration (h : fs.declaration i name = .ok change) :
    change.binding = .unassigned := by
  obtain ⟨-, rfl⟩ := declaration_eq_ok h
  rfl

/-- A definition gives the value. -/
theorem binding_of_definition {constant : Bool} (h : fs.definition i name value constant = .ok change) :
    change.binding = .assigned value !constant := by
  obtain ⟨-, rfl⟩ := definition_eq_ok h
  rfl

/-- An assignment gives the value, in whichever frame. -/
theorem binding_of_assignment (h : fs.assignment i name value = .ok change) :
    change.binding = .assigned value true := by
  obtain ⟨j, -, -, rfl⟩ := assignment_eq_ok h
  rfl

end Frames

/-! ### Names in a frame -/

namespace Bindings

/-- What is in a table after a name was set. -/
theorem mem_set {bs : Bindings} {name n : String} {binding b : Binding}
    (h : (n, b) ∈ bs.set name binding) : (n = name ∧ b = binding) ∨ (n, b) ∈ bs := by
  induction bs with
  | nil => simpa [set] using h
  | cons p bs ih =>
      obtain ⟨m, b'⟩ := p
      rw [set] at h
      split at h
      next e =>
        rcases List.mem_cons.mp h with h | h
        · cases h
          exact .inl ⟨e, rfl⟩
        · exact .inr (List.mem_cons_of_mem _ h)
      next =>
        rcases List.mem_cons.mp h with h | h
        · exact .inr (h ▸ List.mem_cons_self)
        · exact (ih h).imp_right (List.mem_cons_of_mem _)

/-- A binding that is found is in the table. -/
theorem mem_of_get? {bs : Bindings} {name : String} {b : Binding} (h : bs.get? name = some b) :
    (name, b) ∈ bs := by
  induction bs with
  | nil => simp at h
  | cons p bs ih =>
      obtain ⟨n, b'⟩ := p
      rw [get?_cons] at h
      split at h
      next e =>
        cases h
        exact e ▸ List.mem_cons_self
      next => exact List.mem_cons_of_mem _ (ih h)

/-- Parameters are bound to arguments and to nothing else. -/
theorem mem_ofArguments {params : List String} {arguments : List Value} {n : String} {b : Binding}
    (h : (n, b) ∈ ofArguments params arguments) : ∃ v ∈ arguments, b = .assigned v true := by
  have bound : (n, b) ∈ ofArguments params arguments → ∃ v ∈ arguments, b = .assigned v true := by
    refine List.foldlRecOn
      (motive := fun bs => (n, b) ∈ bs → ∃ v ∈ arguments, b = .assigned v true)
      (params.zip arguments) _ (fun h => nomatch h) fun bs ih p hp h => ?_
    rcases mem_set h with ⟨-, rfl⟩ | h
    · exact ⟨p.2, (List.of_mem_zip hp).2, rfl⟩
    · exact ih h
  exact bound h

end Bindings

namespace Frame

/-- The values that a frame holds, by where it holds them. -/
theorem mem_values {f : Frame} {v : Value} :
    v ∈ f.values ↔ (∃ name m, (name, .assigned v m) ∈ f.bindings) ∨ f.this = some v ∨
      ∃ call, f.call = some call ∧ v ∈ call.arguments := by
  rw [Frame.values]
  simp only [List.mem_append, List.mem_filterMap, Option.mem_toList, or_assoc]
  refine or_congr ?_ (or_congr Iff.rfl ?_)
  · constructor
    · rintro ⟨⟨name, _ | ⟨v', m⟩⟩, hm, h⟩
      · cases h
      · cases h
        exact ⟨name, m, hm⟩
    · rintro ⟨name, m, h⟩
      exact ⟨_, h, rfl⟩
  · cases f.call <;> simp

/-- A frame of its own for a script or a block holds nothing yet. -/
@[simp] theorem values_child (name : String) (parent : FrameId) : (child name parent).values = [] := by
  simp [child, values]

/-- The frame of a call holds what the call was given. -/
theorem mem_values_activation {closure : Closure} {arguments : List Value} {span : Span}
    {this : Option Value} {v : Value} (h : v ∈ (activation closure arguments span this).values) :
    v ∈ arguments ∨ this = some v := by
  rcases mem_values.mp h with ⟨name, m, h⟩ | h | ⟨call, hcall, h⟩
  · obtain ⟨a, ha, e⟩ := Bindings.mem_ofArguments h
    cases e
    exact .inl ha
  · exact .inr h
  · cases hcall
    exact .inl h

/-- From a frame one comes to its parent and to the frames of the closures that it holds. -/
theorem mem_neighbours {f : Frame} {j : FrameId} :
    j ∈ f.neighbours ↔
      f.parent = some j ∨ ∃ closure, .closure closure ∈ f.values ∧ closure.frame = j := by
  rw [Frame.neighbours, List.mem_append, Option.mem_toList, List.mem_filterMap]
  refine or_congr Iff.rfl ⟨?_, ?_⟩
  · rintro ⟨v, hv, hj⟩
    cases v with
    | closure closure => exact ⟨closure, hv, Option.some.inj hj⟩
    | _ => cases hj
  · rintro ⟨closure, hv, rfl⟩
    exact ⟨_, hv, rfl⟩

end Frame

end Nondet
