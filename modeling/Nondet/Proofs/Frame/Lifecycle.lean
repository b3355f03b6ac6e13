import Nondet.Proofs.Frame.Names

/-!
# Frame — Life cycle

What becomes of a name in a frame while names are declared, defined, assigned and looked up, in any
order and from any frames of a tree of frames.  A name is absent at first, is declared without a
value in its own frame, is given a value there, and from then on is either constant or has other
values assigned to it; nothing leads back (`Binding.Ages`).  `Operation.Effect` is all that one
operation does: one that is refused changes nothing, and one that is carried out changes one binding
of one frame at most.  Assignments and look-ups go the same way outwards (`Frames.Outward`), but an
assignment passes over a name that has no value yet, where a look-up stops.
-/

namespace Nondet

/-- Something done with a name, as seen from a frame. -/
inductive Operation where
  | declare (frame : FrameId) (name : String)
  | define (frame : FrameId) (name : String) (value : Value) (constant : Bool)
  | assign (frame : FrameId) (name : String) (value : Value)
  | lookup (frame : FrameId) (name : String)

namespace Operation

/-- The frame that the name is seen from. -/
def frame : Operation → FrameId
  | .declare i _ | .define i _ _ _ | .assign i _ _ | .lookup i _ => i

/-- The answer to an operation that leads to other frames, or does not, and the frames afterwards. -/
def settle (fs : Frames) : Except BindFailure Frames → Except BindFailure (Option Value) × Frames
  | .ok fs'        => (.ok none, fs')
  | .error failure => (.error failure, fs)

/-- What is answered, a value if one is looked up, and the frames afterwards. -/
def perform (fs : Frames) : Operation → Except BindFailure (Option Value) × Frames
  | .declare i name               => settle fs (fs.declare i name)
  | .define i name value constant => settle fs (fs.define i name value constant)
  | .assign i name value          => settle fs (fs.assign i name value)
  | .lookup i name                => ((fs.lookup i name).map some, fs)

end Operation

/-- The frames after some operations. -/
def Frames.after (fs : Frames) (ops : List Operation) : Frames :=
  ops.foldl (fun fs op => (op.perform fs).2) fs

theorem Frames.after_nil (fs : Frames) : fs.after [] = fs := rfl

theorem Frames.after_append (fs : Frames) (ops ops' : List Operation) :
    fs.after (ops ++ ops') = (fs.after ops).after ops' := List.foldl_append

theorem Frames.after_concat (fs : Frames) (ops : List Operation) (op : Operation) :
    fs.after (ops ++ [op]) = (op.perform (fs.after ops)).2 := after_append fs ops [op]

/-! ### Ages of a binding -/

/-- What becomes of a name in a frame as time passes, whether it is there or not. -/
inductive Binding.Ages : Option Binding → Option Binding → Prop
  | same (b : Option Binding) : Ages b b
  | declared : Ages none (some .unassigned)
  | introduced (v : Value) (m : Bool) : Ages none (some (.assigned v m))
  | defined (v : Value) (m : Bool) : Ages (some .unassigned) (some (.assigned v m))
  | reassigned (v w : Value) : Ages (some (.assigned v true)) (some (.assigned w true))

theorem Binding.Ages.trans {b b₁ b₂ : Option Binding} (h : Ages b b₁) (h' : Ages b₁ b₂) :
    Ages b b₂ := by
  cases h with
  | same => exact h'
  | declared =>
      cases h' with
      | same => exact .declared
      | defined v m => exact .introduced v m
  | introduced v m =>
      cases h' with
      | same => exact .introduced v m
      | reassigned _ w => exact .introduced w true
  | defined v m =>
      cases h' with
      | same => exact .defined v m
      | reassigned _ w => exact .defined w true
  | reassigned v w =>
      cases h' with
      | same => exact .reassigned v w
      | reassigned _ u => exact .reassigned v u

namespace Frames

/-- One comes from `i` outwards to `j`, which is `i` or around it, and leaves the frames `nearer` on
the way. -/
inductive Outward (fs : Frames) : FrameId → List FrameId → FrameId → Prop
  | here {i} : Outward fs i [] i
  | out {i f p nearer j} (hf : fs.get? i = some f) (hp : f.parent = some p)
      (h : Outward fs p nearer j) : Outward fs i (i :: nearer) j

/-- The frames are those of before, but that a name in one of them stands for something else. -/
def Rebinds (fs : Frames) (j : FrameId) (name : String) (b : Binding) (fs' : Frames) : Prop :=
  ∀ k other, fs'.binding? k other = if k = j ∧ other = name then some b else fs.binding? k other

variable {fs fs' : Frames} {i j : FrameId} {name : String} {value : Value} {change : Change}

/-! ### The way outwards -/

/-- The frames that one comes to on the way outwards are those of the chain, in the same order. -/
theorem Layered.outward_iff (h : fs.Layered) : ∀ {nearer : List FrameId} {i : FrameId},
    i < fs.next → (fs.Outward i nearer j ↔ ∃ outer, fs.chain i = nearer ++ j :: outer) := by
  intro nearer
  induction nearer with
  | nil =>
      intro i hi
      obtain ⟨f, hf⟩ := Option.isSome_iff_exists.mp (get?_isSome.mpr hi)
      rw [h.chain_eq hf]
      constructor
      · rintro ⟨⟩
        exact ⟨_, rfl⟩
      · rintro ⟨outer, e⟩
        cases e
        exact .here
  | cons k nearer ih =>
      intro i hi
      obtain ⟨f, hf⟩ := Option.isSome_iff_exists.mp (get?_isSome.mpr hi)
      rw [h.chain_eq hf]
      constructor
      · rintro (_ | ⟨hf', hp, ho⟩)
        cases hf.symm.trans hf'
        obtain ⟨outer, e⟩ := (ih (Nat.lt_trans (h _ _ _ hf hp) hi)).mp ho
        exact ⟨outer, by rw [hp, Option.map_some, Option.getD_some, e, List.cons_append]⟩
      · rintro ⟨outer, e⟩
        rw [List.cons_append, List.cons.injEq] at e
        obtain ⟨rfl, e⟩ := e
        cases hp : f.parent with
        | none =>
            rw [hp] at e
            exact absurd e.symm (List.append_ne_nil_of_right_ne_nil _ (List.cons_ne_nil _ _))
        | some p =>
            rw [hp] at e
            exact .out hf hp ((ih (Nat.lt_trans (h i f p hf hp) hi)).mpr ⟨outer, e⟩)

/-- On the way outwards one comes to a first frame of some kind, or to none. -/
theorem Layered.nearest (h : fs.Layered) (hi : i < fs.next) (p : FrameId → Prop) :
    (∃ nearer j outer, fs.Outward i nearer j ∧ fs.chain i = nearer ++ j :: outer ∧
        (∀ k ∈ nearer, ¬ p k) ∧ p j) ∨
      (∀ k ∈ fs.chain i, ¬ p k) ∧ ∀ nearer k, fs.Outward i nearer k → ¬ p k := by
  classical
  cases hfind : (fs.chain i).find? (p ·) with
  | none =>
      have none : ∀ k ∈ fs.chain i, ¬ p k := by simpa using hfind
      refine .inr ⟨none, fun nearer k ho => none k ?_⟩
      obtain ⟨outer, e⟩ := (h.outward_iff hi).mp ho
      simp [e]
  | some j =>
      obtain ⟨hj, nearer, outer, e, hn⟩ := List.find?_eq_some_iff_append.mp hfind
      exact .inl ⟨nearer, j, outer, (h.outward_iff hi).mpr ⟨outer, e⟩, e, by simpa using hn,
        of_decide_eq_true hj⟩

/-- An assignment passes over frames where the name has no value. -/
theorem assignmentIn_append {nearer rest : List FrameId}
    (hn : ∀ k ∈ nearer, ¬ (fs.bindings k).Holds name) :
    fs.assignmentIn name value (nearer ++ rest) = fs.assignmentIn name value rest := by
  induction nearer with
  | nil => rfl
  | cons k nearer ih =>
      rw [List.forall_mem_cons] at hn
      rw [List.cons_append, assignmentIn]
      split
      next hb => exact absurd ⟨_, _, hb⟩ hn.1
      next hb => exact absurd ⟨_, _, hb⟩ hn.1
      next => exact ih hn.2
      next => exact ih hn.2

/-- A frame where the name has a value takes the assignment, or refuses it. -/
theorem assignmentIn_of_assigned {rest : List FrameId} {w : Value} {m : Bool}
    (hb : fs.binding? j name = some (.assigned w m)) :
    fs.assignmentIn name value (j :: rest) =
      if m then .ok ⟨j, name, .assigned value true⟩ else .error .constant := by
  rw [assignmentIn, hb]
  cases m <;> rfl

/-- A look-up stops where the name is declared, if it comes to no value before. -/
theorem lookupIn_unassigned {nearer rest : List FrameId}
    (hn : ∀ k ∈ nearer, ¬ (fs.bindings k).Holds name)
    (hu : ∃ k ∈ nearer, fs.binding? k name = some .unassigned) :
    fs.lookupIn name (nearer ++ rest) = .error .unassigned := by
  induction nearer with
  | nil => simp at hu
  | cons k nearer ih =>
      rw [List.forall_mem_cons] at hn
      rw [List.cons_append]
      cases hb : fs.binding? k name with
      | none =>
          obtain ⟨k', hk', hu⟩ := hu
          rw [lookupIn_of_none hb]
          rcases List.mem_cons.mp hk' with rfl | hk'
          · cases hb.symm.trans hu
          · exact ih hn.2 ⟨k', hk', hu⟩
      | some b =>
          cases b with
          | unassigned => exact lookupIn_of_binding? hb
          | assigned v m => exact absurd ⟨v, m, hb⟩ hn.1

/-! ### Changes -/

/-- A change in a frame that is there rebinds its name, and nothing else. -/
theorem rebinds_apply (h : change.frame < fs.next) :
    fs.Rebinds change.frame change.name change.binding (fs.apply change) := by
  intro k other
  rw [binding?, apply, set_eq_setBindings, bindings_setBindings]
  by_cases hk : change.frame = k
  · subst hk
    rw [if_pos ⟨rfl, h⟩, Bindings.get?_set]
    by_cases ho : other = change.name <;> simp [ho, binding?]
  · rw [if_neg (fun e => hk e.1), if_neg (fun e => hk e.1.symm), binding?]

/-- A change moves no frame. -/
theorem parent_apply (change : Change) (i : FrameId) :
    ((fs.apply change).get? i).map Frame.parent = (fs.get? i).map Frame.parent := by
  rw [apply, get?_set]
  split
  · rw [Option.map_map]
    rfl
  · rfl

theorem Layered.apply (h : fs.Layered) (change : Change) : (fs.apply change).Layered := by
  intro i f p hf hp
  have same : ((fs.apply change).get? i).map Frame.parent = (fs.get? i).map Frame.parent :=
    parent_apply change i
  rw [hf, Option.map_some, hp] at same
  obtain ⟨f', hf', hp'⟩ := Option.map_eq_some_iff.mp same.symm
  exact h i f' p hf' hp'

/-- The frames around a frame are told from where frames lie. -/
theorem chainFrom_congr (h : ∀ i, (fs'.get? i).map Frame.parent = (fs.get? i).map Frame.parent) :
    ∀ (fuel : Nat) (i : FrameId), fs'.chainFrom fuel i = fs.chainFrom fuel i
  | 0, _ => rfl
  | fuel + 1, i => by
      have rest := chainFrom_congr h fuel
      have here := h i
      rw [chainFrom, chainFrom]
      cases hf : fs.get? i with
      | none =>
          rw [hf, Option.map_none, Option.map_eq_none_iff] at here
          rw [here]
      | some f =>
          rw [hf, Option.map_some] at here
          obtain ⟨f', hf', hp⟩ := Option.map_eq_some_iff.mp here
          simp only [hf', hp, rest]

theorem chain_apply (change : Change) (i : FrameId) : (fs.apply change).chain i = fs.chain i :=
  chainFrom_congr (parent_apply change) _ i

/-- A name that is bound is bound in a frame that is there. -/
theorem lt_next_of_binding? {b : Binding} (h : fs.binding? i name = some b) : i < fs.next := by
  by_contra hi
  have none : fs.get? i = none := by simpa [← get?_isSome] using hi
  simp [binding?, bindings, none] at h

end Frames

/-! ### One operation -/

namespace Operation

/-- Why an operation is refused. -/
inductive Refused (fs : Frames) : Operation → BindFailure → Prop
  | present {i name b} (hb : fs.binding? i name = some b) :
      Refused fs (.declare i name) (.redeclared b.isMutable)
  | undeclared {i name v constant} (hb : fs.binding? i name = none) :
      Refused fs (.define i name v constant) (.redeclared !constant)
  | completed {i name v constant w m} (hb : fs.binding? i name = some (.assigned w m)) :
      Refused fs (.define i name v constant) (.redeclared m)
  | constant {i name v nearer j w} (ho : fs.Outward i nearer j)
      (hn : ∀ k ∈ nearer, ¬ (fs.bindings k).Holds name)
      (hb : fs.binding? j name = some (.assigned w false)) : Refused fs (.assign i name v) .constant
  | valueless {i name v} (hn : ∀ nearer j, fs.Outward i nearer j → ¬ (fs.bindings j).Holds name) :
      Refused fs (.assign i name v) .undefined
  | unassigned {i name nearer j} (ho : fs.Outward i nearer j)
      (hn : ∀ k ∈ nearer, fs.binding? k name = none)
      (hb : fs.binding? j name = some .unassigned) : Refused fs (.lookup i name) .unassigned
  | unknown {i name} (hn : ∀ nearer j, fs.Outward i nearer j → fs.binding? j name = none) :
      Refused fs (.lookup i name) .undefined

/-- What an operation does: what it answers, and what it makes of the frames. -/
inductive Effect (fs : Frames) : Operation → Except BindFailure (Option Value) → Frames → Prop
  | refused {op failure fs'} (hr : op.Refused fs failure)
      (hs : ∀ k other, fs'.binding? k other = fs.binding? k other) :
      Effect fs op (.error failure) fs'
  | found {i name nearer j v m} (ho : fs.Outward i nearer j)
      (hn : ∀ k ∈ nearer, fs.binding? k name = none)
      (hb : fs.binding? j name = some (.assigned v m)) :
      Effect fs (.lookup i name) (.ok (some v)) fs
  | declared {i name fs'} (hb : fs.binding? i name = none)
      (hs : fs.Rebinds i name .unassigned fs') : Effect fs (.declare i name) (.ok none) fs'
  | defined {i name v constant fs'} (hb : fs.binding? i name = some .unassigned)
      (hs : fs.Rebinds i name (.assigned v !constant) fs') :
      Effect fs (.define i name v constant) (.ok none) fs'
  /-- The nearest value of the name, which is mutable, is overwritten.  It is then what one finds
  where it was assigned, unless the name is declared without a value on the way. -/
  | assigned {i name v fs' nearer j w} (ho : fs.Outward i nearer j)
      (hn : ∀ k ∈ nearer, ¬ (fs.bindings k).Holds name)
      (hb : fs.binding? j name = some (.assigned w true))
      (hs : fs.Rebinds j name (.assigned v true) fs')
      (hfree : (∀ k ∈ nearer, fs.binding? k name = none) → fs'.lookup i name = .ok v)
      (hstop : (∃ k ∈ nearer, fs.binding? k name = some .unassigned) →
        fs'.lookup i name = .error .unassigned) :
      Effect fs (.assign i name v) (.ok none) fs'

variable {fs : Frames} {op : Operation} {i j : FrameId} {name : String} {v w : Value}
  {nearer outer : List FrameId}

/-- The nearest value of a name is overwritten. -/
theorem effect_overwritten (ho : fs.Outward i nearer j) (hc : fs.chain i = nearer ++ j :: outer)
    (hn : ∀ k ∈ nearer, ¬ (fs.bindings k).Holds name)
    (hb : fs.binding? j name = some (.assigned w true)) :
    Effect fs (.assign i name v) (.ok none) (fs.apply ⟨j, name, .assigned v true⟩) := by
  have rebinds : fs.Rebinds j name (.assigned v true) (fs.apply ⟨j, name, .assigned v true⟩) :=
    Frames.rebinds_apply (Frames.lt_next_of_binding? hb)
  -- What is overwritten does not lie on the way.
  have way : ∀ k ∈ nearer,
      (fs.apply ⟨j, name, .assigned v true⟩).binding? k name = fs.binding? k name := by
    intro k hk
    refine (rebinds k name).trans (if_neg ?_)
    rintro ⟨rfl, -⟩
    exact hn k hk ⟨w, true, hb⟩
  have found : (fs.apply ⟨j, name, .assigned v true⟩).lookupIn name (j :: outer) = .ok v :=
    Frames.lookupIn_of_binding? ((rebinds j name).trans (if_pos ⟨rfl, rfl⟩))
  have looked : (fs.apply ⟨j, name, .assigned v true⟩).lookup i name =
      (fs.apply ⟨j, name, .assigned v true⟩).lookupIn name (nearer ++ j :: outer) := by
    rw [Frames.lookup, Frames.chain_apply, hc]
  refine .assigned ho hn hb rebinds (fun hfree => ?_) ?_
  · exact looked.trans
      ((Frames.lookupIn_append fun k hk => (way k hk).trans (hfree k hk)).trans found)
  · rintro ⟨k, hk, hu⟩
    refine looked.trans (Frames.lookupIn_unassigned ?_ ⟨k, hk, (way k hk).trans hu⟩)
    rintro k hk ⟨u, m, hv⟩
    exact hn k hk ⟨u, m, (way k hk).symm.trans hv⟩

theorem effect_assign (hl : fs.Layered) (hi : i < fs.next) :
    Effect fs (.assign i name v) (perform fs (.assign i name v)).1 (perform fs (.assign i name v)).2 := by
  rw [perform, Frames.assign, Frames.assignment]
  rcases hl.nearest hi fun k => (fs.bindings k).Holds name with
    ⟨nearer, j, outer, ho, hc, hn, w, m, hb⟩ | ⟨hc, hn⟩
  · rw [hc, Frames.assignmentIn_append hn, Frames.assignmentIn_of_assigned hb]
    cases m with
    | true => exact effect_overwritten ho hc hn hb
    | false => exact .refused (.constant ho hn hb) fun _ _ => rfl
  · rw [← List.append_nil (fs.chain i), Frames.assignmentIn_append hc]
    exact .refused (.valueless hn) fun _ _ => rfl

theorem effect_lookup (hl : fs.Layered) (hi : i < fs.next) :
    Effect fs (.lookup i name) (perform fs (.lookup i name)).1 (perform fs (.lookup i name)).2 := by
  rw [perform, Frames.lookup]
  rcases hl.nearest hi fun k => fs.binding? k name ≠ none with
    ⟨nearer, j, outer, ho, hc, hn, hb⟩ | ⟨hc, hn⟩
  · have hn : ∀ k ∈ nearer, fs.binding? k name = none := fun k hk => of_not_not (hn k hk)
    obtain ⟨b, hb⟩ := Option.ne_none_iff_exists'.mp hb
    rw [hc, Frames.lookupIn_append hn, Frames.lookupIn_of_binding? hb]
    cases b with
    | assigned v m => exact .found ho hn hb
    | unassigned => exact .refused (.unassigned ho hn hb) fun _ _ => rfl
  · have hc : ∀ k ∈ fs.chain i, fs.binding? k name = none := fun k hk => of_not_not (hc k hk)
    rw [← List.append_nil (fs.chain i), Frames.lookupIn_append hc]
    exact .refused (.unknown fun nearer k ho => of_not_not (hn nearer k ho)) fun _ _ => rfl

/-- **What each operation does.** -/
theorem effect (hl : fs.Layered) (hi : op.frame < fs.next) :
    op.Effect fs (op.perform fs).1 (op.perform fs).2 := by
  cases op with
  | declare i name =>
      rw [perform, Frames.declare, Frames.declaration]
      cases hb : fs.binding? i name with
      | some b => exact .refused (.present hb) fun _ _ => rfl
      | none => exact .declared hb (Frames.rebinds_apply hi)
  | define i name v constant =>
      rw [perform, Frames.define, Frames.definition]
      cases hb : fs.binding? i name with
      | none => exact .refused (.undeclared hb) fun _ _ => rfl
      | some b =>
          cases b with
          | assigned w m => exact .refused (.completed hb) fun _ _ => rfl
          | unassigned => exact .defined hb (Frames.rebinds_apply hi)
  | assign i name v => exact effect_assign hl hi
  | lookup i name => exact effect_lookup hl hi

end Operation

/-- A name that is rebound ages, if what it stands for from then on is what it may become. -/
theorem Frames.Rebinds.ages {fs fs' : Frames} {j : FrameId} {name : String} {b : Binding}
    (h : fs.Rebinds j name b fs') (hb : Binding.Ages (fs.binding? j name) (some b)) (k : FrameId)
    (other : String) : Binding.Ages (fs.binding? k other) (fs'.binding? k other) := by
  rw [h k other]
  split
  next e => rwa [e.1, e.2]
  next => exact .same _

namespace Operation

variable {fs fs' : Frames} {op : Operation} {answer : Except BindFailure (Option Value)}

/-- Whatever an operation does, every name ages. -/
theorem Effect.ages (h : op.Effect fs answer fs') (k : FrameId) (other : String) :
    Binding.Ages (fs.binding? k other) (fs'.binding? k other) := by
  cases h with
  | refused _ hs => exact hs k other ▸ .same _
  | found => exact .same _
  | declared hb hs => exact hs.ages (hb ▸ .declared) k other
  | defined hb hs => exact hs.ages (hb ▸ .defined _ _) k other
  | assigned _ _ hb hs => exact hs.ages (hb ▸ .reassigned _ _) k other

/-- The frames afterwards are those of before, or those of before with one change. -/
theorem perform_snd (fs : Frames) (op : Operation) :
    (op.perform fs).2 = fs ∨ ∃ change, (op.perform fs).2 = fs.apply change := by
  have settled (result : Except BindFailure Frames.Change) :
      (settle fs (result.map fs.apply)).2 = fs ∨
        ∃ change, (settle fs (result.map fs.apply)).2 = fs.apply change := by
    cases result with
    | ok change => exact .inr ⟨change, rfl⟩
    | error failure => exact .inl rfl
  cases op with
  | declare | define | assign => exact settled _
  | lookup => exact .inl rfl

end Operation

/-! ### Any number of operations -/

namespace Frames

variable {fs : Frames}

/-- No operation adds a frame or moves one. -/
theorem layered_after (h : fs.Layered) (ops : List Operation) :
    (fs.after ops).Layered ∧ (fs.after ops).next = fs.next := by
  refine List.foldlRecOn (motive := fun fs' : Frames => fs'.Layered ∧ fs'.next = fs.next) ops _
    ⟨h, rfl⟩ ?_
  rintro fs' ⟨hl, hn⟩ op -
  rcases op.perform_snd fs' with e | ⟨change, e⟩ <;> rw [e]
  · exact ⟨hl, hn⟩
  · exact ⟨hl.apply change, (next_apply change).trans hn⟩

/-- **Names age, whatever is done with them.** -/
theorem ages_after (h : fs.Layered) {ops : List Operation} (ho : ∀ op ∈ ops, op.frame < fs.next)
    (j : FrameId) (name : String) :
    Binding.Ages (fs.binding? j name) ((fs.after ops).binding? j name) := by
  induction ops using List.reverseRecOn with
  | nil => exact .same _
  | append_singleton ops op ih =>
      rw [List.forall_mem_append, List.forall_mem_singleton] at ho
      obtain ⟨hl, hn⟩ := layered_after h ops
      have last : Binding.Ages ((fs.after ops).binding? j name)
          ((op.perform (fs.after ops)).2.binding? j name) :=
        (Operation.effect hl (hn ▸ ho.2)).ages j name
      rw [after_concat]
      exact (ih ho.1).trans last

end Frames

/-- **The life of a binding.**  Of all operations on the frames of a tree, each does no more than
what it is for, whatever was done before, and in all of them together every name in every frame goes
from absent to declared, from declared to a value, and from one value to another only where it is
mutable. -/
theorem binding_life_cycle {fs : Frames} (hl : fs.Layered) {ops : List Operation}
    (ho : ∀ op ∈ ops, op.frame < fs.next) :
    (∀ before op later, ops = before ++ op :: later →
      op.Effect (fs.after before) (op.perform (fs.after before)).1
        (op.perform (fs.after before)).2) ∧
    ∀ before during later, ops = before ++ during ++ later → ∀ j name,
      Binding.Ages ((fs.after before).binding? j name)
        ((fs.after (before ++ during)).binding? j name) := by
  refine ⟨?_, ?_⟩
  · rintro before op later rfl
    obtain ⟨hl, hn⟩ := Frames.layered_after hl before
    exact Operation.effect hl (hn ▸ ho op (by simp))
  · rintro before during later rfl j name
    obtain ⟨hl, hn⟩ := Frames.layered_after hl before
    rw [Frames.after_append]
    exact Frames.ages_after hl (fun op hm => hn ▸ ho op (by simp [hm])) j name

/-- A variable of an outer frame is assigned from an inner one that has declared the same name: the
outer one gets the value, and the name cannot be read from the inner one. -/
theorem binding_life_cycle_shadowed : ∃ (fs : Frames) (before : List Operation) (op : Operation),
    fs.Layered ∧ (∀ o ∈ before ++ [op], o.frame < fs.next) ∧
    op.Effect (fs.after before) (.ok none) (fs.after (before ++ [op])) ∧
    (fs.after (before ++ [op])).lookup 1 "x" = .error .unassigned ∧
    fs.binding? 0 "x" = none ∧
    (fs.after (before ++ [op])).binding? 0 "x" = some (.assigned (.bool false) true) ∧
    Binding.Ages (fs.binding? 0 "x") ((fs.after (before ++ [op])).binding? 0 "x") := by
  let fs : Frames := (Frames.empty.push (.root "global")).push (.child "block" 0)
  let before : List Operation :=
    [.declare 0 "x", .define 0 "x" (.bool true) false, .declare 1 "x"]
  let op : Operation := .assign 1 "x" (.bool false)
  have hl : fs.Layered := by
    intro i f p hf hp
    rw [Frames.get?_push] at hf
    split at hf
    next e =>
      cases hf
      cases hp
      exact e ▸ Nat.zero_lt_one
    next =>
      rw [Frames.get?_push] at hf
      split at hf
      · cases hf
        cases hp
      · cases hf
  have ho : ∀ o ∈ before ++ [op], o.frame < fs.next := by decide
  obtain ⟨each, ages⟩ := binding_life_cycle hl ho
  have done : (op.perform (fs.after before)).1 = .ok none ∧
      (fs.after (before ++ [op])).lookup 1 "x" = .error .unassigned ∧
      (fs.after (before ++ [op])).binding? 0 "x" = some (.assigned (.bool false) true) := by
    simp [fs, before, op, Frames.after, Operation.perform, Operation.settle, Frames.declare,
      Frames.declaration, Frames.define, Frames.definition, Frames.assign, Frames.assignment,
      Frames.assignmentIn, Frames.lookup, Frames.lookupIn, Frames.chain, Frames.chainFrom,
      Frames.binding?, Frames.bindings, Frames.get?, Frames.apply, Frames.set, Frames.push,
      Frames.empty, Frame.root, Frame.child, Bindings.get?, Bindings.set, Except.map]
  obtain ⟨answer, lookup, assigned⟩ := done
  have last := each before op [] rfl
  have whole := ages [] (before ++ [op]) [] (List.append_nil _).symm 0 "x"
  rw [answer, ← Frames.after_concat] at last
  rw [Frames.after_nil, List.nil_append] at whole
  exact ⟨fs, before, op, hl, ho, last, lookup, rfl, assigned, whole⟩

end Nondet
