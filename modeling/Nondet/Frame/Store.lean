import Nondet.Frame

/-!
# Frame — Store

All frames that were ever created, and the four operations on names.  `declare` and `define` act on
one frame, `lookup` and `assign` on a frame and those around it: a name without a value stops a
look-up and is passed over by an assignment.  An operation that fails changes nothing.
-/

namespace Nondet

/-- All frames in the order of their creation, and how many closures were made. -/
structure Frames where
  all : Array Frame
  closures : Nat
  deriving Inhabited

namespace Frames

def empty : Frames := ⟨#[], 0⟩

def get? (fs : Frames) (i : FrameId) : Option Frame := fs.all[i]?

/-- The bindings of a frame. -/
def bindings (fs : Frames) (i : FrameId) : Bindings := ((fs.get? i).map Frame.bindings).getD []

/-- The binding of a name in one frame. -/
def binding? (fs : Frames) (i : FrameId) (name : String) : Option Binding :=
  (fs.bindings i).get? name

/-- The number that the next frame will have. -/
def next (fs : Frames) : FrameId := fs.all.size

/-- Adds a frame under the next number. -/
def push (fs : Frames) (frame : Frame) : Frames := { fs with all := fs.all.push frame }

/-- Replaces the whole table of a frame. -/
def setBindings (fs : Frames) (i : FrameId) (bindings : Bindings) : Frames :=
  { fs with all := fs.all.modify i fun f => { f with bindings } }

/-- Binds a name in one frame, whatever it stood for. -/
def set (fs : Frames) (i : FrameId) (name : String) (binding : Binding) : Frames :=
  { fs with all := fs.all.modify i fun f => { f with bindings := f.bindings.set name binding } }

/-- A closure that no other closure equals. -/
def makeClosure (fs : Frames) (function : Function) (frame : FrameId) : Closure × Frames :=
  (⟨fs.closures, function, frame⟩, { fs with closures := fs.closures + 1 })

/-! ### The frames around a frame -/

/-- A frame and at most `fuel - 1` frames around it, innermost first. -/
def chainFrom (fs : Frames) : Nat → FrameId → List FrameId
  | 0,        _ => []
  | fuel + 1, i =>
    match fs.get? i with
    | none   => []
    | some f =>
      i :: match f.parent with
        | none   => []
        | some p => chainFrom fs fuel p

/-- A frame and all frames around it, innermost first.  Every frame was created after those around
it, so there are no more of them than its number says. -/
def chain (fs : Frames) (i : FrameId) : List FrameId := fs.chainFrom (i + 1) i

/-! ### Operations on names -/

/-- A name in a frame and what it is going to stand for: the one change that an operation makes. -/
structure Change where
  frame : FrameId
  name : String
  binding : Binding

/-- Makes a change that was found to be allowed. -/
def apply (fs : Frames) (change : Change) : Frames := fs.set change.frame change.name change.binding

/-- A name can be declared in a frame that does not have it. -/
def declaration (fs : Frames) (i : FrameId) (name : String) : Except BindFailure Change :=
  match fs.binding? i name with
  | some b => .error (.redeclared b.isMutable)
  | none   => .ok ⟨i, name, .unassigned⟩

/-- A value can be given to a name that is declared and has none. -/
def definition (fs : Frames) (i : FrameId) (name : String) (value : Value) (constant : Bool) :
    Except BindFailure Change :=
  match fs.binding? i name with
  | some .unassigned => .ok ⟨i, name, .assigned value !constant⟩
  | some b           => .error (.redeclared b.isMutable)
  | none             => .error (.redeclared !constant)

/-- Of some frames the first where the name has a value takes an assignment, if it is mutable. -/
def assignmentIn (fs : Frames) (name : String) (value : Value) :
    List FrameId → Except BindFailure Change
  | []      => .error .undefined
  | i :: is =>
    match fs.binding? i name with
    | some (.assigned _ true)  => .ok ⟨i, name, .assigned value true⟩
    | some (.assigned _ false) => .error .constant
    | some .unassigned | none  => assignmentIn fs name value is

/-- An assignment goes to the nearest value of the name. -/
def assignment (fs : Frames) (i : FrameId) (name : String) (value : Value) :
    Except BindFailure Change :=
  fs.assignmentIn name value (fs.chain i)

/-- The value of a name in the first of some frames that has the name. -/
def lookupIn (fs : Frames) (name : String) : List FrameId → Except BindFailure Value
  | []      => .error .undefined
  | i :: is =>
    match fs.binding? i name with
    | some (.assigned v _) => .ok v
    | some .unassigned     => .error .unassigned
    | none                 => lookupIn fs name is

/-- The value of a name as seen from a frame. -/
def lookup (fs : Frames) (i : FrameId) (name : String) : Except BindFailure Value :=
  fs.lookupIn name (fs.chain i)

/-- Adds a name without a value to a frame. -/
def declare (fs : Frames) (i : FrameId) (name : String) : Except BindFailure Frames :=
  (fs.declaration i name).map fs.apply

/-- Gives a declared name its value. -/
def define (fs : Frames) (i : FrameId) (name : String) (value : Value) (constant : Bool) :
    Except BindFailure Frames :=
  (fs.definition i name value constant).map fs.apply

/-- Overwrites the nearest value of a name as seen from a frame. -/
def assign (fs : Frames) (i : FrameId) (name : String) (value : Value) :
    Except BindFailure Frames :=
  (fs.assignment i name value).map fs.apply

/-! ### Text -/

/-- The frame's names in order, and the name of the frame around it. -/
def debugText (fs : Frames) (f : Frame) : String :=
  let names := (f.bindings.names.mergeSort fun a b => decide (a ≤ b)).map Text.quote
  let tail := match f.parent.bind fs.get? with
    | some p => "Some(" ++ Text.quote p.name ++ ")"
    | none   => "None"
  "Frame \x7b name: " ++ Text.quote f.name ++ ", names: [" ++ ", ".intercalate names ++ "], tail: "
    ++ tail ++ " \x7d"

/-- The texts of a frame and of all frames around it, innermost first. -/
def chainText (fs : Frames) (i : FrameId) : List String :=
  ((fs.chain i).filterMap fs.get?).map fs.debugText

end Frames

end Nondet
