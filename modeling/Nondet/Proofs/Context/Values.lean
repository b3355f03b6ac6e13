import Nondet.Proofs.Operation
import Nondet.Proofs.Frame.Names

/-!
# Context — Values

What holds of all values in frames.  Actions get values from frames, from the host and from one
another, and put values into frames; so what holds of all values in frames and of all that the host
gives goes on to do so (`Action.Hands`).
-/

namespace Nondet

open Nondet.Action

variable {fs : Frames} {c : Context} {α β : Type} {P : Value → Prop}

/-! ### Frames -/

/-- All values in frames satisfy `P`. -/
def Frames.All (P : Value → Prop) (fs : Frames) : Prop :=
  ∀ i f, fs.get? i = some f → ∀ v ∈ f.values, P v

namespace Frames.All

theorem imp {Q : Value → Prop} (h : fs.All P) (hpq : ∀ v, P v → Q v) : fs.All Q :=
  fun i f hf v hv => hpq v (h i f hf v hv)

theorem push (h : fs.All P) {frame : Frame} (hf : ∀ v ∈ frame.values, P v) :
    (fs.push frame).All P := fun i f hi => by
  rw [get?_push] at hi
  split at hi
  · cases hi
    exact hf
  · exact h i f hi

/-- Values that are in a table are in the frame. -/
theorem bindings (h : fs.All P) {i : FrameId} {name : String} {v : Value} {m : Bool}
    (hv : (name, .assigned v m) ∈ fs.bindings i) : P v := by
  cases hi : fs.get? i with
  | none => simp [Frames.bindings, hi] at hv
  | some f =>
      rw [bindings_of_get? hi] at hv
      exact h i f hi v (Frame.mem_values.mpr (.inl ⟨name, m, hv⟩))

theorem setBindings (h : fs.All P) {i : FrameId} {bs : Bindings}
    (hb : ∀ name v m, (name, .assigned v m) ∈ bs → P v) : (fs.setBindings i bs).All P := by
  intro j f hj v hv
  rw [get?_setBindings] at hj
  split at hj
  · obtain ⟨f₀, hf₀, rfl⟩ := Option.map_eq_some_iff.mp hj
    rcases Frame.mem_values.mp hv with ⟨name, m, hv⟩ | hv
    · exact hb name v m hv
    · exact h j f₀ hf₀ v (Frame.mem_values.mpr (.inr hv))
  · exact h j f hj v hv

theorem set (h : fs.All P) {i : FrameId} {name : String} {binding : Binding}
    (hb : ∀ v m, binding = .assigned v m → P v) : (fs.set i name binding).All P := by
  rw [set_eq_setBindings]
  refine h.setBindings fun n v m hv => ?_
  rcases Bindings.mem_set hv with ⟨-, e⟩ | hv
  · exact hb v m e.symm
  · exact h.bindings hv

/-- Going back to tables whose values satisfy `P`. -/
theorem restore {c : Context} {snapshot : Snapshot} (h : c.frames.All P)
    (hs : ∀ p ∈ snapshot.bindings, ∀ name v m, (name, .assigned v m) ∈ p.2 → P v) :
    (c.restore snapshot).frames.All P :=
  List.foldlRecOn (motive := fun fs : Frames => fs.All P) snapshot.bindings _ h
    fun _ hfs p hp => hfs.setBindings (hs p hp)

/-- A value that is looked up is in a frame. -/
theorem lookup (h : fs.All P) {i : FrameId} {name : String} {v : Value}
    (hv : fs.lookup i name = .ok v) : P v := by
  obtain ⟨j, -, m, hb⟩ := Frames.lookup_eq_ok hv
  exact h.bindings (Bindings.mem_of_get? hb)

end Frames.All

/-! ### Actions -/

/-- In the context the action keeps what holds of all values in frames, and its result
satisfies `Q`. -/
def Action.Hands (P : Value → Prop) (Q : α → Prop) (c : Context) (a : Action α) : Prop :=
  (a.on c).2.frames.All P ∧ ∀ x, (a.on c).1 = .ok x → Q x

/-- The values that it makes in the context, or has from the host, satisfy `P`. -/
def Deferred.Makes (P : Value → Prop) (c : Context) : Deferred → Prop
  | .defineFunction _ function | .closure function => ∀ id, P (.closure ⟨id, function, c.current⟩)
  | .native _ name arguments => ∀ v, c.host.call name arguments = .ok v → P v
  | .lookup _ _ | .notFunction _ _ => True

namespace Action.Hands

variable {Q : α → Prop} {Q' : β → Prop}

theorem pure {a : α} (hc : c.frames.All P) (h : Q a) : Hands P Q c (pure a : Action α) :=
  ⟨hc, fun x hx => by cases hx; exact h⟩

theorem raise (hc : c.frames.All P) (failure : Failure) :
    Hands P Q c (raise failure : Action α) := ⟨hc, fun _ hx => nomatch hx⟩

theorem bind {a : Action α} {f : α → Action β} (ha : Hands P Q c a)
    (hf : ∀ x c', c'.frames.All P → Q x → Hands P Q' c' (f x)) : Hands P Q' c (a >>= f) := by
  rw [Hands] at ha ⊢
  rw [on_bind]
  rcases hr : a.on c with ⟨failure | x, c'⟩ <;> rw [hr] at ha
  · exact ⟨ha.1, fun y hy => nomatch hy⟩
  · exact hf x c' ha.1 (ha.2 x rfl)

theorem check (hc : c.frames.All P) (span : Span) {result : Except Mistake α}
    (h : ∀ a, result = .ok a → Q a) : Hands P Q c (check span result) := by
  cases result with
  | ok a => exact pure hc (h a rfl)
  | error mistake => exact raise hc _

theorem operand (hc : c.frames.All P) (span : Span) (operation : String) {outcome : Outcome}
    (h : P outcome.toValue) : Hands P P c (operand span operation outcome) := by
  cases outcome with
  | value v => exact pure hc h
  | returned v => exact pure hc h
  | cut => exact raise hc _

theorem change (hc : c.frames.All P) (name : String) (span : Span)
    {result : Except BindFailure Frames.Change}
    (h : ∀ ch, result = .ok ch → ∀ v m, ch.binding = .assigned v m → P v) :
    Hands P (fun _ => True) c (change name span result) := by
  cases result with
  | ok ch => exact ⟨hc.set (h ch rfl), fun _ _ => trivial⟩
  | error failure => exact raise hc _

theorem define (hc : c.frames.All P) (name : String) {value : Value} (hv : P value) (constant : Bool)
    (span : Span) : Hands P (fun _ => True) c (define name value constant span) := by
  refine change hc name span fun ch hch v m e => ?_
  cases (Frames.binding_of_definition hch).symm.trans e
  exact hv

theorem assign (hc : c.frames.All P) (name : String) {value : Value} (hv : P value) (span : Span) :
    Hands P (fun _ => True) c (assign name value span) := by
  refine change hc name span fun ch hch v m e => ?_
  cases (Frames.binding_of_assignment hch).symm.trans e
  exact hv

theorem lookup (hc : c.frames.All P) (name : String) (span : Span) :
    Hands P P c (lookup name span) := by
  rw [Hands, on_lookup]
  split
  next v hv => exact ⟨hc, fun x hx => by cases hx; exact hc.lookup hv⟩
  next => exact raise hc _

theorem hoist : ∀ (ns : List Node) {c : Context}, c.frames.All P →
    Hands P (fun _ => True) c (hoist ns)
  | [], _, hc => pure hc trivial
  | n :: ns, c, hc => by
      rw [Hands, on_hoist_cons]
      split
      · exact hoist ns hc
      next name _ =>
        exact bind (change hc name n.span fun _ hch _ _ e =>
          nomatch (Frames.binding_of_declaration hch).symm.trans e) fun _ _ hc' _ => hoist ns hc'

theorem makeClosure (hc : c.frames.All P) {function : Function}
    (h : ∀ id, P (.closure ⟨id, function, c.current⟩)) :
    Hands P (fun closure => P (.closure closure)) c (makeClosure function) :=
  ⟨hc, fun _ hx => by cases hx; exact h _⟩

theorem callNative (hc : c.frames.All P) (span : Span) {name : String} {arguments : List Value}
    (h : ∀ v, c.host.call name arguments = .ok v → P v) :
    Hands P P c (callNative span name arguments) := by
  rw [Hands, on_callNative]
  rcases hv : c.host.call name arguments with (_ | _ | _ | _) | v
  case ok => exact ⟨hc, fun x hx => by cases hx; exact h v hv⟩
  all_goals exact raise hc _

/-- What a stream puts off gives values that it looks up, makes, or has from the host. -/
theorem deferred (hc : c.frames.All P) (hP : ∀ v : Value, v.isFunction = false → P v)
    {what : Deferred} (h : what.Makes P c) : Hands P (fun o => P o.toValue) c what.run := by
  cases what with
  | lookup span name => exact bind (lookup hc name span) fun _ _ hc' hv => pure hc' hv
  | defineFunction span function =>
      exact bind (makeClosure hc h) fun _ _ hc' hcl =>
        bind (define hc' _ hcl true span) fun _ _ hc'' _ => pure hc'' (hP _ rfl)
  | closure function => exact bind (makeClosure hc h) fun _ _ hc' hcl => pure hc' hcl
  | native span name arguments =>
      exact bind (callNative hc span h) fun _ _ hc' hv => pure hc' hv
  | notFunction span callee => exact raise hc _

/-- Transforms pass values on or compute such as are no functions. -/
theorem transform (hc : c.frames.All P) (hP : ∀ v : Value, v.isFunction = false → P v)
    (f : Transform) {outcome : Outcome} (h : P outcome.toValue) :
    Hands P (fun o => P o.toValue) c (f.run outcome) := by
  cases f with
  | unary span op =>
      refine bind (operand hc span _ h) fun v _ hc' _ => ?_
      refine bind (check hc' span fun w hw => ?_) fun _ _ hc'' hw => pure hc'' hw
      exact hP w (UnaryOp.isFunction_apply hw)
  | binary span op left =>
      refine bind (operand hc span _ h) fun v _ hc' _ => ?_
      refine bind (check hc' span fun w hw => ?_) fun _ _ hc'' hw => pure hc'' hw
      exact hP w (BinaryOp.isFunction_apply hw)
  | define span keyword name =>
      exact bind (operand hc span _ h) fun v _ hc' hv =>
        bind (define hc' name hv _ span) fun _ _ hc'' _ => pure hc'' hv
  | assign span name =>
      exact bind (operand hc span _ h) fun v _ hc' hv =>
        bind (assign hc' name hv span) fun _ _ hc'' _ => pure hc'' hv
  | «return» span => exact bind (operand hc span _ h) fun v _ hc' hv => pure hc' hv

end Action.Hands

end Nondet
