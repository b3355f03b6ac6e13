import Nondet.Stream

/-!
# Context — Action

What the actions do, one equation each.  An action either gives a value or raises a failure, once:
`Context.raised` is the context after that.  No action but entering a node or a call touches
anything besides the frames: a steady action (`Action.Steady`) leaves a context that is alike but
for its frames, or the context that has raised its failure.
-/

namespace Nondet

variable {α β : Type}

/-- The context after a failure: it is recorded, and the stack is cut down to the outer frames. -/
def Context.raised (c : Context) (failure : Failure) : Context :=
  { c with failures := c.failures ++ [failure] }.truncate

/-! ### Contexts that differ in their frames only -/

/-- Everything but the frames is the same. -/
structure Context.Alike (c c' : Context) : Prop where
  stack : c'.stack = c.stack
  outer : c'.outer = c.outer
  nesting : c'.nesting = c.nesting
  failures : c'.failures = c.failures
  limits : c'.limits = c.limits
  host : c'.host = c.host
  global : c'.global = c.global

namespace Context.Alike

variable {c c₁ c₂ : Context}

theorem refl (c : Context) : c.Alike c := ⟨rfl, rfl, rfl, rfl, rfl, rfl, rfl⟩

theorem trans (h : c.Alike c₁) (h' : c₁.Alike c₂) : c.Alike c₂ :=
  ⟨h'.stack.trans h.stack, h'.outer.trans h.outer, h'.nesting.trans h.nesting,
    h'.failures.trans h.failures, h'.limits.trans h.limits, h'.host.trans h.host,
    h'.global.trans h.global⟩

theorem frames (c : Context) (frames : Frames) : c.Alike { c with frames } :=
  ⟨rfl, rfl, rfl, rfl, rfl, rfl, rfl⟩

/-- Contexts that are alike raise alike. -/
theorem raised (h : c.Alike c₁) (failure : Failure) :
    (c.raised failure).Alike (c₁.raised failure) :=
  ⟨by simp [Context.raised, truncate, h.stack, h.outer], h.outer, h.nesting,
    by simp [Context.raised, truncate, h.failures], h.limits, h.host, h.global⟩

theorem depth (h : c.Alike c₁) : c₁.depth = c.depth := by rw [Context.depth, h.stack, Context.depth]

theorem current (h : c.Alike c₁) : c₁.current = c.current := by
  rw [Context.current, Context.current, h.stack, h.global]

end Context.Alike

/-- The names whose declarations the computation completes. -/
def Deferred.names : Deferred → List String
  | .defineFunction _ function => [function.name.getD ""]
  | _                          => []

/-- The names whose declarations are completed. -/
def Transform.names : Transform → List String
  | .define _ _ name => [name]
  | _                => []

namespace Action

/-! ### Composing actions -/

@[simp] theorem on_pure (a : α) (c : Context) : (pure a : Action α).on c = (.ok a, c) := rfl

theorem on_bind (a : Action α) (f : α → Action β) (c : Context) :
    (a >>= f).on c =
      match a.on c with
      | (.ok x, c')    => (f x).on c'
      | (.error e, c') => (.error e, c') := by
  change (ExceptT.bindCont f (a c).1) (a c).2 = match a c with
      | (.ok x, c')    => (f x).on c'
      | (.error e, c') => (.error e, c')
  rcases a c with ⟨_ | _, c'⟩ <;> rfl

/-- Of two actions that fail one after the other, either the first one does or the second one. -/
theorem on_bind_eq_error {a : Action α} {f : α → Action β} {c c' : Context} {failure : Failure}
    (h : (a >>= f).on c = (.error failure, c')) :
    a.on c = (.error failure, c') ∨
      ∃ x c₁, a.on c = (.ok x, c₁) ∧ (f x).on c₁ = (.error failure, c') := by
  rw [on_bind] at h
  rcases hr : a.on c with ⟨failure' | x, c₁⟩ <;> rw [hr] at h
  · cases h
    exact .inl rfl
  · exact .inr ⟨x, c₁, rfl, h⟩

@[simp] theorem on_get (c : Context) : (get : Action Context).on c = (.ok c, c) := rfl

@[simp] theorem on_set (c c' : Context) : (set c' : Action PUnit).on c = (.ok ⟨⟩, c') := rfl

@[simp] theorem on_modify (f : Context → Context) (c : Context) :
    (modify f : Action PUnit).on c = (.ok ⟨⟩, f c) := rfl

@[simp] theorem on_raise (failure : Failure) (c : Context) :
    (raise failure : Action α).on c = (.error failure, c.raised failure) := rfl

@[simp] theorem on_blame (span : Span) (mistake : Mistake) (c : Context) :
    (blame span mistake : Action α).on c =
      (.error (.mistake mistake span), c.raised (.mistake mistake span)) := rfl

/-! ### Single actions -/

theorem on_enterNested (span : Span) (c : Context) :
    (enterNested span).on c =
      if c.limits.maxNesting ≤ c.nesting then
        let failure := .exceeded .nesting (c.nesting + 1) c.limits.maxNesting span
        (.error failure, c.raised failure)
      else (.ok ⟨⟩, { c with nesting := c.nesting + 1 }) := by
  simp only [enterNested, on_bind, on_get]
  split <;> rfl

theorem on_change (name : String) (span : Span) (result : Except BindFailure Frames.Change)
    (c : Context) :
    (change name span result).on c =
      match result with
      | .ok change     => (.ok ⟨⟩, { c with frames := c.frames.apply change })
      | .error failure =>
        (.error (.mistake (.ofBind failure name) span),
          c.raised (.mistake (.ofBind failure name) span)) := by
  cases result <;> rfl

theorem on_declare (name : String) (span : Span) (c : Context) :
    (declare name span).on c = (change name span (c.frames.declaration c.current name)).on c := rfl

theorem on_define (name : String) (value : Value) (constant : Bool) (span : Span) (c : Context) :
    (define name value constant span).on c =
      (change name span (c.frames.definition c.current name value constant)).on c := rfl

theorem on_assign (name : String) (value : Value) (span : Span) (c : Context) :
    (assign name value span).on c =
      (change name span (c.frames.assignment c.current name value)).on c := rfl

theorem on_lookup (name : String) (span : Span) (c : Context) :
    (lookup name span).on c =
      match c.frames.lookup c.current name with
      | .ok value      => (.ok value, c)
      | .error failure =>
        (.error (.mistake (.ofBind failure name) span),
          c.raised (.mistake (.ofBind failure name) span)) := by
  simp only [lookup, on_bind, on_get]
  cases c.frames.lookup c.current name <;> rfl

@[simp] theorem on_makeClosure (function : Function) (c : Context) :
    (makeClosure function).on c =
      (.ok (c.frames.makeClosure function c.current).1,
        { c with frames := (c.frames.makeClosure function c.current).2 }) := rfl

@[simp] theorem on_operand_value (span : Span) (operation : String) (v : Value) (c : Context) :
    (operand span operation (.value v)).on c = (.ok v, c) := rfl

@[simp] theorem on_operand_returned (span : Span) (operation : String) (v : Value) (c : Context) :
    (operand span operation (.returned v)).on c = (.ok v, c) := rfl

/-- An operand is a failure or a value, and changes nothing. -/
theorem on_operand_cases (span : Span) (operation : String) (outcome : Outcome) (c : Context) :
    (∃ failure, (operand span operation outcome).on c = (.error failure, c.raised failure)) ∨
      (operand span operation outcome).on c = (.ok outcome.toValue, c) := by
  cases outcome with
  | value v | returned v => exact .inr rfl
  | cut => exact .inl ⟨_, rfl⟩

/-- An operand that has a value is that value. -/
theorem on_operand_eq_ok {span : Span} {operation : String} {outcome : Outcome} {v : Value}
    {c c' : Context} (h : (operand span operation outcome).on c = (.ok v, c')) :
    c = c' ∧ outcome.toValue = v := by
  cases outcome <;> cases h <;> exact ⟨rfl, rfl⟩

/-- A check is a failure or a result, and changes nothing. -/
theorem on_check_cases (span : Span) (result : Except Mistake α) (c : Context) :
    (∃ failure, (check span result).on c = (.error failure, c.raised failure)) ∨
      ∃ a, (check span result).on c = (.ok a, c) := by
  cases result with
  | ok a => exact .inr ⟨a, rfl⟩
  | error mistake => exact .inl ⟨_, rfl⟩

/-- A check that gives a result changes nothing. -/
theorem on_check_eq_ok {span : Span} {result : Except Mistake α} {a : α} {c c' : Context}
    (h : (check span result).on c = (.ok a, c')) : c = c' ∧ result = .ok a := by
  cases result <;> cases h
  exact ⟨rfl, rfl⟩

theorem on_hoist_nil (c : Context) : (hoist []).on c = (.ok ⟨⟩, c) := rfl

theorem on_hoist_cons (n : Node) (ns : List Node) (c : Context) :
    (hoist (n :: ns)).on c =
      match n.declaredName? with
      | none      => (hoist ns).on c
      | some name => (declare name n.span >>= fun _ => hoist ns).on c := by
  cases h : n.declaredName? with
  | none => rw [hoist, h]
  | some name => rw [hoist, h]

/-! ### What is composed of actions -/

/-- A property of actions that giving a value has, and raising a failure, and one action after the
other if both have it. -/
structure Composes (P : ∀ {α : Type}, Action α → Prop) : Prop where
  pure {α : Type} (a : α) : P (pure a : Action α)
  raise {α : Type} (failure : Failure) : P (raise failure : Action α)
  bind {α β : Type} {a : Action α} {f : α → Action β} (ha : P a) (hf : ∀ x, P (f x)) : P (a >>= f)

/-- The same for a property of all that streams compute with, but for giving names their first
values. -/
structure Computes (P : ∀ {α : Type}, Action α → Prop) : Prop extends Composes P where
  lookup (name : String) (span : Span) : P (lookup name span)
  assign (name : String) (value : Value) (span : Span) : P (assign name value span)
  makeClosure (function : Function) : P (makeClosure function)
  callNative (span : Span) (name : String) (arguments : List Value) :
    P (callNative span name arguments)

namespace Composes

variable {P : ∀ {α : Type}, Action α → Prop} (h : Composes P)

include h

theorem check (span : Span) (result : Except Mistake α) : P (check span result) := by
  cases result with
  | ok a => exact h.pure a
  | error mistake => exact h.raise _

theorem operand (span : Span) (operation : String) (outcome : Outcome) :
    P (operand span operation outcome) := by
  cases outcome with
  | value v => exact h.pure v
  | returned v => exact h.pure v
  | cut => exact h.raise _

theorem hoist (declare : ∀ name span, P (declare name span)) : ∀ ns : List Node, P (hoist ns)
  | [] => h.pure _
  | n :: ns => by
      have rest := hoist declare ns
      rw [Action.hoist]
      cases n.declaredName? with
      | none => exact rest
      | some name => exact h.bind (declare name n.span) fun _ => rest

theorem continuation (next : Continuation) (outcome : Outcome) : P (next.run outcome) := by
  cases next with
  | rightOperand span op right => exact h.bind (h.operand span _ outcome) fun _ => h.pure _
  | branch span test consequent alternate =>
      refine h.bind (h.operand span _ outcome) fun _ => h.bind (h.check span _) fun taken => ?_
      cases taken <;> exact h.pure _
  | arguments span nodes => exact h.bind (h.operand span _ outcome) fun _ => h.pure _

end Composes

namespace Computes

variable {P : ∀ {α : Type}, Action α → Prop} (h : Computes P)

include h

/-- What a stream puts off may complete the declaration of a function. -/
theorem deferred (what : Deferred)
    (define : ∀ name ∈ what.names, ∀ v constant span, P (define name v constant span)) :
    P what.run := by
  cases what with
  | lookup span name => exact h.bind (h.lookup name span) fun _ => h.pure _
  | defineFunction span function =>
      exact h.bind (h.makeClosure function) fun _ =>
        h.bind (define _ (List.mem_singleton_self _) _ _ span) fun _ => h.pure _
  | closure function => exact h.bind (h.makeClosure function) fun _ => h.pure _
  | native span name arguments =>
      exact h.bind (h.callNative span name arguments) fun _ => h.pure _
  | notFunction span callee => exact h.raise _

/-- What is made of an operand may complete the declaration of a variable. -/
theorem transform (f : Transform)
    (define : ∀ name ∈ f.names, ∀ v constant span, P (define name v constant span))
    (outcome : Outcome) : P (f.run outcome) := by
  cases f with
  | unary span op | binary span op left =>
      exact h.bind (h.operand span _ outcome) fun _ => h.bind (h.check span _) fun _ => h.pure _
  | define span keyword name =>
      exact h.bind (h.operand span _ outcome) fun _ =>
        h.bind (define _ (List.mem_singleton_self _) _ _ span) fun _ => h.pure _
  | assign span name =>
      exact h.bind (h.operand span _ outcome) fun _ => h.bind (h.assign _ _ span) fun _ => h.pure _
  | «return» span => exact h.bind (h.operand span _ outcome) fun _ => h.pure _

end Computes

/-! ### Steady actions -/

/-- The context after an action differs from the one before in its frames, apart from what a failure
brings about. -/
def Leaves (c : Context) : Except Failure α × Context → Prop
  | (.ok _, c')          => c.Alike c'
  | (.error failure, c') => (c.raised failure).Alike c'

/-- An action that changes nothing but the frames, unless it raises a failure. -/
def Steady (a : Action α) : Prop := ∀ c, Leaves c (a.on c)

namespace Steady

theorem pure (a : α) : Steady (pure a : Action α) := Context.Alike.refl

theorem bind {a : Action α} {f : α → Action β} (ha : Steady a) (hf : ∀ x, Steady (f x)) :
    Steady (a >>= f) := by
  intro c
  have h := ha c
  rw [on_bind]
  rcases hr : a.on c with ⟨_ | x, c₁⟩ <;> rw [hr] at h
  · exact h
  · have h' := hf x c₁
    show Leaves c ((f x).on c₁)
    rcases hr : (f x).on c₁ with ⟨failure | _, c₂⟩ <;> rw [hr] at h'
    · exact (Context.Alike.raised h failure).trans h'
    · exact Context.Alike.trans h h'

theorem raise (failure : Failure) : Steady (raise failure : Action α) :=
  fun c => .refl (c.raised failure)

theorem blame (span : Span) (mistake : Mistake) : Steady (blame span mistake : Action α) :=
  raise _

theorem get_bind {f : Context → Action α} (h : ∀ c, Leaves c ((f c).on c)) :
    Steady (get >>= f) := fun c => by rw [on_bind]; exact h c

theorem composes : Composes @Steady := ⟨pure, raise, bind⟩

theorem change (name : String) (span : Span) (result : Except BindFailure Frames.Change) :
    Steady (change name span result) := by
  cases result with
  | ok change => exact fun c => .frames c _
  | error failure => exact blame span _

theorem declare (name : String) (span : Span) : Steady (declare name span) :=
  get_bind fun c => change name span _ c

theorem define (name : String) (value : Value) (constant : Bool) (span : Span) :
    Steady (define name value constant span) :=
  get_bind fun c => change name span _ c

theorem assign (name : String) (value : Value) (span : Span) : Steady (assign name value span) :=
  get_bind fun c => change name span _ c

theorem lookup (name : String) (span : Span) : Steady (lookup name span) :=
  get_bind fun c => by
    cases c.frames.lookup c.current name with
    | ok value => exact pure value c
    | error failure => exact blame span _ c

theorem makeClosure (function : Function) : Steady (makeClosure function) :=
  fun c => .frames c _

theorem hoist (ns : List Node) : Steady (hoist ns) := composes.hoist declare ns

end Steady

/-! ### Values of actions -/

/-- Whatever value the action gives satisfies `P`. -/
def Returns (P : α → Prop) (a : Action α) : Prop := ∀ c x c', a.on c = (.ok x, c') → P x

namespace Returns

theorem pure {P : α → Prop} {a : α} (h : P a) : Returns P (pure a : Action α) := by
  rintro c x c' ⟨rfl, rfl⟩
  exact h

/-- The value of the last action is the value of all. -/
theorem bind {P : β → Prop} {a : Action α} {f : α → Action β} (h : ∀ x, Returns P (f x)) :
    Returns P (a >>= f) := by
  intro c y c' hy
  rw [on_bind] at hy
  rcases hr : a.on c with ⟨_ | x, c₁⟩ <;> rw [hr] at hy
  · cases hy
  · exact h x c₁ y c' hy

end Returns

end Action

/-! ### What streams compute -/

open Nondet.Action

theorem Context.truncate_truncate (c : Context) : c.truncate.truncate = c.truncate := by
  simp only [Context.truncate, List.length_drop, List.drop_drop, Context.mk.injEq, true_and, and_true]
  congr 1
  omega

/-- Cutting the stack down before a failure is raised makes no difference to it. -/
theorem Context.raised_truncate (c : Context) (failure : Failure) :
    c.truncate.raised failure = c.raised failure :=
  congrArg (fun c' : Context => { c' with failures := c.failures ++ [failure] }) c.truncate_truncate

theorem Action.on_callNative (span : Span) (name : String) (arguments : List Value) (c : Context) :
    (callNative span name arguments).on c =
      match c.host.call name arguments with
      | .ok value      => (.ok value, c)
      | .error failure =>
        match failure with
        | .failure f               => (.error f, c.raised f)
        | .mistake m own           => (.error (.mistake m own), c.raised (.mistake m own))
        | .refused m | .foreign m  =>
          (.error (.mistake (.exception m) span), c.raised (.mistake (.exception m) span)) := by
  simp only [callNative, on_bind, on_get]
  rcases c.host.call name arguments with (_ | _ | _ | _) | _ <;>
    simp [on_bind, Context.raised_truncate]

namespace Action.Steady

theorem callNative (span : Span) (name : String) (arguments : List Value) :
    Steady (callNative span name arguments) := by
  intro c
  rw [on_callNative]
  rcases c.host.call name arguments with (_ | _ | _ | _) | _ <;> exact Context.Alike.refl _

theorem computes : Computes @Steady := ⟨composes, lookup, assign, makeClosure, callNative⟩

theorem deferred (what : Deferred) : Steady what.run :=
  computes.deferred what fun name _ => define name

theorem transform (f : Transform) (outcome : Outcome) : Steady (f.run outcome) :=
  computes.transform f (fun name _ => define name) outcome

end Action.Steady

/-- The streams that a continuation may go on with when the value of its operand is known. -/
inductive Continuation.Next (v : Value) : Continuation → Stream → Prop
  | right (span : Span) (op : BinaryOp) (n : Node) :
      Next v (.rightOperand span op n) (.map (evaluate n) (.binary span op v))
  | consequent (span : Span) (test : Test) (n : Node) (alternate : Option Node) :
      Next v (.branch span test n alternate) (evaluate n)
  | alternate (span : Span) (test : Test) (consequent n : Node) :
      Next v (.branch span test consequent (some n)) (evaluate n)
  | neither (span : Span) (test : Test) (consequent : Node) :
      Next v (.branch span test consequent none) (.once (.value .undefined))
  | calls (span : Span) (nodes : List Node) :
      Next v (.arguments span nodes) (.calls span v (.start nodes))

/-- A continuation is a failure or a stream, and changes nothing. -/
theorem Continuation.on_run_cases (next : Continuation) (outcome : Outcome) (c : Context) :
    (∃ failure, (next.run outcome).on c = (.error failure, c.raised failure)) ∨
      ∃ s, (next.run outcome).on c = (.ok s, c) ∧ next.Next outcome.toValue s := by
  cases next with
  | rightOperand span op n =>
      obtain ⟨failure, e⟩ | e := on_operand_cases span op.symbol outcome c <;>
        simp only [run, on_bind, e]
      · exact .inl ⟨failure, rfl⟩
      · exact .inr ⟨_, rfl, .right span op n⟩
  | branch span test consequent alternate =>
      obtain ⟨failure, e⟩ | e := on_operand_cases span test.operation outcome c <;>
        simp only [run, on_bind, e]
      · exact .inl ⟨failure, rfl⟩
      · obtain ⟨failure, e⟩ | ⟨taken, e⟩ := on_check_cases span (test.decide outcome.toValue) c <;>
          simp only [e]
        · exact .inl ⟨failure, rfl⟩
        · refine .inr ?_
          cases taken with
          | true => exact ⟨_, rfl, .consequent span test consequent alternate⟩
          | false =>
              cases alternate with
              | none => exact ⟨_, rfl, .neither span test consequent⟩
              | some n => exact ⟨_, rfl, .alternate span test consequent n⟩
  | arguments span nodes =>
      obtain ⟨failure, e⟩ | e := on_operand_cases span "call" outcome c <;>
        simp only [run, on_bind, e]
      · exact .inl ⟨failure, rfl⟩
      · exact .inr ⟨_, rfl, .calls span nodes⟩

/-- A call that is entered leaves its frame beside the stack. -/
theorem Action.on_enterCall (span : Span) (closure : Closure) (arguments : List Value)
    (this : Option Value) (c : Context) :
    (enterCall span closure arguments this).on c =
      if arguments.length ≠ closure.params.length then
        let failure := .mistake (.argumentCount closure.params.length arguments.length) span
        (.error failure, c.raised failure)
      else
        let entered := (c.addFrame (.activation closure arguments span this)).push c.frames.next
        if c.limits.maxDepth < c.depth + 1 then
          let failure := .exceeded .stack (c.depth + 1) c.limits.maxDepth span
          (.error failure, entered.raised failure)
        else (.ok c.frames.next, c.addFrame (.activation closure arguments span this)) := by
  have counted (frame : FrameId) (e : Context) :
      (do
        let c ← get
        if c.limits.maxDepth < c.depth then
          raise (.exceeded .stack c.depth c.limits.maxDepth span)
        else
          set c.pop
          return frame : Action FrameId).on e =
        if e.limits.maxDepth < e.depth then
          (.error (.exceeded .stack e.depth e.limits.maxDepth span),
            e.raised (.exceeded .stack e.depth e.limits.maxDepth span))
        else (.ok frame, e.pop) := by
    simp only [on_bind, on_get]
    split <;> rfl
  rw [enterCall]
  by_cases harity : arguments.length = closure.params.length
  · simp only [harity, ne_eq, not_true_eq_false, if_false, on_bind, on_get, on_modify]
    exact counted _ _
  · simp [harity]

end Nondet
