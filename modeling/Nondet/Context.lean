import Nondet.Frame.Store
import Nondet.Native.Prelude

/-!
# Context

What an evaluation works on: all frames, the stack of those in use, the failures so far, and the
limits.  At the bottom of the stack lie the outer frames, the global one and one for each script;
a failure cuts the stack down to them and never further.  `Action` is what may change a context and
may fail; a failure keeps the changes made before it.
-/

namespace Nondet

/-- The limits of an evaluation. -/
structure Limits where
  /-- So many frames may be on the stack when a function is called. -/
  maxDepth : Nat
  /-- So many nodes may be evaluated inside one another. -/
  maxNesting : Nat
  deriving DecidableEq, Repr

/-- The limits of a session that sets none. -/
def Limits.standard : Limits := ⟨500, 20000⟩

instance : Inhabited Limits := ⟨.standard⟩

/-- All that an evaluation reads and changes. -/
structure Context where
  frames : Frames
  global : FrameId
  /-- The frames in use, innermost first. -/
  stack : List FrameId
  /-- How many frames at the bottom of the stack are outer. -/
  outer : Nat
  /-- How many nodes are being evaluated inside one another. -/
  nesting : Nat
  /-- Every failure that was raised, the oldest first. -/
  failures : List Failure
  limits : Limits
  host : Host

namespace Context

/-- The global frame is empty and alone on the stack. -/
def empty (limits : Limits) (host : Host) : Context :=
  { frames := Frames.empty.push (.root "global")
    global := 0
    stack := [0]
    outer := 1
    nesting := 0
    failures := []
    limits
    host }

instance : Inhabited Context := ⟨empty .standard fun _ => none⟩

/-- The innermost frame. -/
def current (c : Context) : FrameId := c.stack.headD c.global

/-- How many frames are on the stack. -/
def depth (c : Context) : Nat := c.stack.length

/-- Binds a constant in the global frame, whatever its name stood for. -/
def defineGlobal (c : Context) (name : String) (value : Value) : Context :=
  { c with frames := c.frames.set c.global name (.assigned value false) }

/-- The natives of the prelude are constants in the global frame. -/
def withPrelude (limits : Limits) (host : Host) : Context :=
  Prelude.natives.foldl (fun c p => c.defineGlobal p.1 (.native p.1)) (empty limits host)

/-! ### The stack -/

/-- Puts a frame on the stack. -/
def push (c : Context) (frame : FrameId) : Context := { c with stack := frame :: c.stack }

/-- Takes the innermost frame off the stack, whichever it is. -/
def pop (c : Context) : Context := { c with stack := c.stack.tail }

/-- Takes everything off the stack that lies above the outer frames. -/
def truncate (c : Context) : Context :=
  { c with stack := c.stack.drop (c.stack.length - c.outer) }

/-- A new frame, which is not put on the stack. -/
def addFrame (c : Context) (frame : Frame) : Context := { c with frames := c.frames.push frame }

/-- A script's frame lies on the outer frames and becomes one of them. -/
def enterProgram (c : Context) : Context :=
  let c := c.truncate
  let frame := c.frames.next
  let c := (c.addFrame (.child "program" c.current)).push frame
  { c with outer := c.depth }

/-- One node fewer is being evaluated. -/
def leaveNested (c : Context) : Context := { c with nesting := c.nesting - 1 }

/-- The binding of a name in the frame `level` steps out from the innermost one. -/
def bindingAt? (c : Context) (name : String) (level : Nat) : Option Binding :=
  (c.frames.chain c.current)[level]?.bind fun i => c.frames.binding? i name

/-! ### Text -/

/-- The sizes of a context and its limits; the frames themselves may be cyclic and are left out. -/
def debugText (c : Context) : String :=
  "Context \x7b depth: " ++ toString c.depth
    ++ ", outer_environments: " ++ toString c.outer
    ++ ", nesting: " ++ toString c.nesting
    ++ ", errors: " ++ toString c.failures.length
    ++ ", options: EvaluatorOptions \x7b max_depth: " ++ toString c.limits.maxDepth
    ++ ", max_nesting: " ++ toString c.limits.maxNesting ++ " \x7d, .. \x7d"

end Context

/-- What may change a context and may fail. -/
abbrev Action (α : Type) := ExceptT Failure (StateM Context) α

namespace Action

/-- The value or the failure, and the context afterwards. -/
def on {α : Type} (action : Action α) (c : Context) : Except Failure α × Context := action.run c

/-- Records a failure and cuts the stack down to the outer frames. -/
def raise {α : Type} (failure : Failure) : Action α := do
  modify fun c => { c with failures := c.failures ++ [failure] }.truncate
  throw failure

/-- Raises a mistake at a span. -/
def blame {α : Type} (span : Span) (mistake : Mistake) : Action α := raise (.mistake mistake span)

/-- Checks that one more node may be evaluated inside the others, and counts it. -/
def enterNested (span : Span) : Action Unit := do
  let c ← get
  if c.limits.maxNesting ≤ c.nesting then
    raise (.exceeded .nesting (c.nesting + 1) c.limits.maxNesting span)
  else
    set { c with nesting := c.nesting + 1 }

/-- Makes a change to the frames; a refusal is a mistake at the span. -/
def change (name : String) (span : Span) (result : Except BindFailure Frames.Change) :
    Action Unit := do
  match result with
  | .ok change     => modify fun c => { c with frames := c.frames.apply change }
  | .error failure => blame span (.ofBind failure name)

/-- Adds a name without a value to the innermost frame. -/
def declare (name : String) (span : Span) : Action Unit := do
  let c ← get
  change name span (c.frames.declaration c.current name)

/-- Gives a name of the innermost frame its value. -/
def define (name : String) (value : Value) (constant : Bool) (span : Span) : Action Unit := do
  let c ← get
  change name span (c.frames.definition c.current name value constant)

/-- Overwrites the nearest value of a name. -/
def assign (name : String) (value : Value) (span : Span) : Action Unit := do
  let c ← get
  change name span (c.frames.assignment c.current name value)

/-- The nearest value of a name. -/
def lookup (name : String) (span : Span) : Action Value := do
  let c ← get
  match c.frames.lookup c.current name with
  | .ok value      => return value
  | .error failure => blame span (.ofBind failure name)

/-- Declares what statements declare directly, so that they can refer to each other and none of
them sees an outer name of the same spelling. -/
def hoist : List Node → Action Unit
  | []      => pure ()
  | n :: ns => do
    if let some name := n.declaredName? then
      declare name n.span
    hoist ns

/-- A closure over the innermost frame. -/
def makeClosure (function : Function) : Action Closure :=
  modifyGet fun c =>
    let (closure, frames) := c.frames.makeClosure function c.current
    (closure, { c with frames })

end Action

end Nondet
