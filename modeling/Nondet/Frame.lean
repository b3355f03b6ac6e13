import Nondet.Value

/-!
# Frame

A frame holds the bindings of one scope and knows the frame it was created in.  A name in a frame
is absent, then declared without a value, then bound to a value; whether the value may change is
fixed when it is bound.  `Bindings` is the table of one frame, `Frame` the frame itself.
-/

namespace Nondet

/-- What a declared name stands for. -/
inductive Binding where
  /-- Declared, but its declaration has not been run. -/
  | unassigned
  | assigned (value : Value) (isMutable : Bool)
  deriving Inhabited

/-- A name without a value counts as mutable when it is declared again. -/
def Binding.isMutable : Binding → Bool
  | .unassigned   => true
  | .assigned _ m => m

/-- The names of a frame with their bindings, each name once, in the order of declaration. -/
abbrev Bindings := List (String × Binding)

namespace Bindings

def get? (bs : Bindings) (name : String) : Option Binding := bs.lookup name

/-- Replaces the binding of a name, or adds the name at the end. -/
def set (name : String) (binding : Binding) : Bindings → Bindings
  | []            => [(name, binding)]
  | (n, b) :: bs  => if n = name then (n, binding) :: bs else (n, b) :: set name binding bs

def names (bs : Bindings) : List String := bs.map Prod.fst

/-- Parameters bound to arguments, as far as both go.  Of two parameters of one name the later
counts. -/
def ofArguments (params : List String) (arguments : List Value) : Bindings :=
  (params.zip arguments).foldl (fun bs p => set p.1 (.assigned p.2 true) bs) []

@[simp] theorem get?_nil (name : String) : get? [] name = none := rfl

theorem get?_cons (n : String) (b : Binding) (bs : Bindings) (name : String) :
    get? ((n, b) :: bs) name = if name = n then some b else get? bs name := by
  by_cases h : name = n
  · simp [get?, h]
  · have hn : (name == n) = false := by simp [h]
    simp [get?, List.lookup_cons, hn, h]

/-- Setting a name changes that name only. -/
theorem get?_set (bs : Bindings) (name other : String) (b : Binding) :
    get? (set name b bs) other = if other = name then some b else get? bs other := by
  induction bs with
  | nil => simp [set, get?_cons]
  | cons p bs ih =>
    obtain ⟨n, b'⟩ := p
    by_cases hn : n = name
    · subst hn
      by_cases ho : other = n <;> simp [set, get?_cons, ho]
    · by_cases ho : other = n
      · subst ho; simp [set, get?_cons, hn]
      · simp [set, get?_cons, hn, ho, ih]

end Bindings

/-- The call that a frame was created for. -/
structure CallRecord where
  span : Span
  arguments : List Value
  deriving Inhabited

/-- The scope of a script, a block or a call. -/
structure Frame where
  name : String
  bindings : Bindings
  /-- The frame around it; a root has none. -/
  parent : Option FrameId
  /-- The value a call was made on. -/
  this : Option Value
  call : Option CallRecord
  deriving Inhabited

namespace Frame

/-- A frame with nothing around it. -/
def root (name : String) : Frame := ⟨name, [], none, none, none⟩

/-- An empty frame inside another. -/
def child (name : String) (parent : FrameId) : Frame := ⟨name, [], some parent, none, none⟩

/-- The frame of a call: the parameters are mutable, and around it is the closure's frame, not
the caller's. -/
def activation (closure : Closure) (arguments : List Value) (span : Span) (this : Option Value) :
    Frame :=
  { name := closure.name
    bindings := .ofArguments closure.params arguments
    parent := some closure.frame
    this := this
    call := some ⟨span, arguments⟩ }

/-- The values a frame holds in whatever way. -/
def values (f : Frame) : List Value :=
  (f.bindings.filterMap fun p =>
    match p.2 with
    | .assigned v _ => some v
    | .unassigned   => none)
    ++ f.this.toList
    ++ ((f.call.map CallRecord.arguments).getD [])

/-- The frames that can be reached from a frame in one step: its parent and the frames of the
closures it holds. -/
def neighbours (f : Frame) : List FrameId :=
  f.parent.toList ++ (f.values.filterMap fun v => v.asClosure?.map Closure.frame)

end Frame

/-- Why a frame refused an operation. -/
inductive BindFailure where
  /-- The name is in the frame already. -/
  | redeclared (isMutable : Bool)
  /-- The name was found and has no value yet. -/
  | unassigned
  /-- No frame has the name. -/
  | undefined
  /-- The nearest value may not change. -/
  | constant
  deriving DecidableEq, Repr, Inhabited

namespace BindFailure

def message : BindFailure → String
  | .redeclared _ => "Name already declared in this frame"
  | .unassigned   => "Name used before it was assigned"
  | .undefined    => "Name not found in any frame"
  | .constant     => "Cannot assign to a constant"

end BindFailure

end Nondet
