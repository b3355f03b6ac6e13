import Nondet.Proofs.Context.Action
import Nondet.Proofs.Frame.Store

/-!
# Context — Failing

What actions fail for.  Mistakes are blamed on the span that an action is given, and only those
actions that declare names complain of a redeclaration.  So to know something of all failures of an
action, one has to know it of the mistakes at its span (`Action.Fails`).
-/

namespace Nondet

open Nondet.Action

variable {α β : Type}

/-! ### Mistakes -/

/-- A name has already been declared. -/
def Mistake.isRedeclaration : Mistake → Bool
  | .redeclared _ _ => true
  | _               => false

def Failure.isRedeclaration : Failure → Bool
  | .mistake m _       => m.isRedeclaration
  | .exceeded _ _ _ _  => false

namespace Frames

variable {fs : Frames} {i : FrameId} {name : String} {e : BindFailure}

theorem lookup_error (h : fs.lookup i name = .error e) :
    ¬ (Mistake.ofBind e name).isRedeclaration := by
  rcases lookup_eq_error h with rfl | rfl <;> exact nofun

theorem assignment_error {value : Value} (h : fs.assignment i name value = .error e) :
    ¬ (Mistake.ofBind e name).isRedeclaration := by
  rcases assignment_eq_error h with rfl | rfl <;> exact nofun

end Frames

/-- Operators complain of types only. -/
theorem UnaryOp.apply_error {op : UnaryOp} {v : Value} {m : Mistake} (h : op.apply v = .error m) :
    ¬ m.isRedeclaration := by
  unfold apply at h
  split at h <;> cases h <;> exact nofun

theorem BinaryOp.apply_error {op : BinaryOp} {left right : Value} {m : Mistake}
    (h : op.apply left right = .error m) : ¬ m.isRedeclaration := by
  unfold apply at h
  split at h
  next mistake hm =>
    cases h
    unfold complaint? at hm
    split at hm <;> cases hm <;> exact nofun
  next => cases h

theorem Test.decide_error {test : Test} {v : Value} {m : Mistake} (h : test.decide v = .error m) :
    ¬ m.isRedeclaration := by
  unfold decide at h
  split at h <;> cases h
  exact nofun

/-! ### Actions -/

/-- Whatever failure the action raises satisfies `Q`. -/
def Action.Fails (Q : Failure → Prop) (a : Action α) : Prop :=
  ∀ c failure c', a.on c = (.error failure, c') → Q failure

/-- What mistakes are blamed on. -/
def Transform.span : Transform → Span
  | .unary span _ | .binary span _ _ | .define span _ _ | .assign span _ | .return span => span

def Continuation.span : Continuation → Span
  | .rightOperand span _ _ | .branch span _ _ _ | .arguments span _ => span

namespace Action.Fails

variable {Q : Failure → Prop} {span : Span}

theorem pure (a : α) : Fails Q (pure a : Action α) := nofun

theorem bind {a : Action α} {f : α → Action β} (ha : Fails Q a) (hf : ∀ x, Fails Q (f x)) :
    Fails Q (a >>= f) := by
  intro c failure c' h
  rcases on_bind_eq_error h with h | ⟨x, c₁, -, h⟩
  · exact ha c failure c' h
  · exact hf x c₁ failure c' h

theorem raise {failure : Failure} (h : Q failure) : Fails Q (raise failure : Action α) := by
  rintro c _ c' ⟨⟩
  exact h

/-- Changing a name may fail for any mistake. -/
theorem change (name : String) (h : ∀ m, Q (.mistake m span))
    (result : Except BindFailure Frames.Change) : Fails Q (change name span result) := by
  cases result with
  | ok change => exact nofun
  | error failure => exact raise (h _)

theorem declare (name : String) (h : ∀ m, Q (.mistake m span)) : Fails Q (declare name span) :=
  fun c => change name h _ c

theorem define (name : String) (value : Value) (constant : Bool) (h : ∀ m, Q (.mistake m span)) :
    Fails Q (define name value constant span) := fun c => change name h _ c

section

variable (h : ∀ m : Mistake, ¬ m.isRedeclaration → Q (.mistake m span))

include h

theorem check {result : Except Mistake α} (hr : ∀ m, result = .error m → ¬ m.isRedeclaration) :
    Fails Q (check span result) := by
  cases result with
  | ok a => exact pure a
  | error m => exact raise (h m (hr m rfl))

theorem operand (operation : String) (outcome : Outcome) :
    Fails Q (operand span operation outcome) := by
  cases outcome with
  | value v => exact pure v
  | returned v => exact pure v
  | cut => exact raise (h _ nofun)

theorem lookup (name : String) : Fails Q (lookup name span) := by
  intro c failure c' e
  rw [on_lookup] at e
  split at e
  · cases e
  next he =>
    cases e
    exact h _ (Frames.lookup_error he)

theorem assign (name : String) (value : Value) : Fails Q (assign name value span) := by
  intro c failure c' e
  rw [on_assign, on_change] at e
  split at e
  · cases e
  next he =>
    cases e
    exact h _ (Frames.assignment_error he)

end

/-- Only a transformation that completes a declaration complains of one. -/
theorem transform {f : Transform}
    (h : ∀ m : Mistake, (f.names = [] → ¬ m.isRedeclaration) → Q (.mistake m f.span))
    (outcome : Outcome) : Fails Q (f.run outcome) := by
  have other (m : Mistake) (hm : ¬ m.isRedeclaration) : Q (.mistake m f.span) := h m fun _ => hm
  cases f with
  | unary span op =>
      exact bind (operand other _ outcome) fun _ =>
        bind (check other fun _ => UnaryOp.apply_error) fun _ => pure _
  | binary span op left =>
      exact bind (operand other _ outcome) fun _ =>
        bind (check other fun _ => BinaryOp.apply_error) fun _ => pure _
  | define span keyword name =>
      exact bind (operand other _ outcome) fun _ => bind (define _ _ _ fun m => h m nofun) fun _ => pure _
  | assign span name =>
      exact bind (operand other _ outcome) fun _ => bind (assign other _ _) fun _ => pure _
  | «return» span => exact bind (operand other _ outcome) fun _ => pure _

theorem continuation {next : Continuation}
    (h : ∀ m : Mistake, ¬ m.isRedeclaration → Q (.mistake m next.span)) (outcome : Outcome) :
    Fails Q (next.run outcome) := by
  cases next with
  | rightOperand span op right => exact bind (operand h _ outcome) fun _ => pure _
  | branch span test consequent alternate =>
      refine bind (operand h _ outcome) fun _ =>
        bind (check h fun _ => Test.decide_error) fun taken => ?_
      cases taken <;> exact pure _
  | arguments span nodes => exact bind (operand h _ outcome) fun _ => pure _

end Action.Fails

end Nondet
