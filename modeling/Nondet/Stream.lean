import Nondet.Operation
import Nondet.Context.Snapshot

/-!
# Stream

What is left of an evaluation.  Evaluating a node gives a stream of outcomes; a stream is data that
says what to do when the next outcome is wanted, and nothing runs before that.  A stream that has
said that there are no more outcomes is dropped, so every stream that exists can still be asked.
`evaluate` is the stream of a node, `build` its first unfolding.

Three streams carry more than a continuation.  A choice holds a snapshot and the alternatives to
come.  An `Odometer` holds one open stream for each argument that was begun.  A sequence holds one
open stream for each statement that was begun, and forgets them when a `cut` is reached.
-/

namespace Nondet

/-- What evaluating a node gives. -/
inductive Outcome where
  | value (v : Value)
  /-- A value on its way out of the function that is running. -/
  | returned (v : Value)
  /-- The marker that commits to the choices made so far. -/
  | cut
  deriving Inhabited

/-- The outcome as the reader of a solution sees it. -/
def Outcome.toValue : Outcome → Value
  | .value v | .returned v => v
  | .cut                   => .undefined

/-- A single outcome that is computed when it is wanted. -/
inductive Deferred where
  | lookup (span : Span) (name : String)
  | defineFunction (span : Span) (function : Function)
  | closure (function : Function)
  | native (span : Span) (name : String) (arguments : List Value)
  | notFunction (span : Span) (callee : Value)
  deriving Inhabited

/-- What becomes of each outcome of an operand. -/
inductive Transform where
  | unary (span : Span) (op : UnaryOp)
  /-- The left operand is known already. -/
  | binary (span : Span) (op : BinaryOp) (left : Value)
  | define (span : Span) (keyword : DeclarationKeyword) (name : String)
  | assign (span : Span) (name : String)
  | return (span : Span)
  deriving Inhabited

/-- What is evaluated next for each outcome of an operand. -/
inductive Continuation where
  | rightOperand (span : Span) (op : BinaryOp) (right : Node)
  | branch (span : Span) (test : Test) (consequent : Node) (alternate : Option Node)
  | arguments (span : Span) (arguments : List Node)
  deriving Inhabited

mutual

/-- What is left of an evaluation. -/
inductive Stream where
  /-- Nothing more. -/
  | empty
  | once (outcome : Outcome)
  | deferred (what : Deferred)
  /-- A node that was not begun. -/
  | node (n : Node)
  /-- A node that was begun; each request for an outcome counts as a nested evaluation. -/
  | nested (span : Span) (inner : Stream)
  | map (inner : Stream) (f : Transform)
  | flatMap (outer : Stream) (next : Continuation)
  /-- All of one stream, then all of another. -/
  | append (first second : Stream)
  /-- One call for each list of arguments. -/
  | calls (span : Span) (callee : Value) (arguments : Odometer)
  /-- A choice that was not begun. -/
  | amb (alternatives : List Node)
  /-- A choice that is at one of its alternatives. -/
  | choice (snapshot : Snapshot) (current : Stream) (later : List Node)
  | block (statements : List Node)
  | program (statements : List Node)
  /-- Statements in the innermost frame, not begun. -/
  | body (statements : List Node)
  /-- Statements that were begun. -/
  | sequence (begun : OpenStatements)
  /-- Runs in a frame that is on the stack only meanwhile. -/
  | framed (frame : FrameId) (inner : Stream)
  /-- A call that was not begun. -/
  | call (span : Span) (closure : Closure) (arguments : List Value) (this : Option Value)
  /-- A call in its frame. -/
  | activation (frame : FrameId) (inner : Stream)

/-- All lists of arguments, the last argument changing fastest. -/
inductive Odometer where
  | start (arguments : List Node)
  /-- One open stream more than there are values, or none at the end; the last value comes
  first. -/
  | turning (begun : OpenArguments) (values : List Value)

/-- The arguments that were begun, the last one first, each with those that follow it. -/
inductive OpenArguments where
  | none
  | push (stream : Stream) (span : Span) (later : List Node) (earlier : OpenArguments)

/-- The statements that were begun, the last one first, each with those that follow it. -/
inductive OpenStatements where
  | none
  | push (stream : Stream) (later : List Node) (earlier : OpenStatements)

end

instance : Inhabited Stream := ⟨.empty⟩

instance : Inhabited Odometer := ⟨.start []⟩

/-- Every outcome of a node. -/
def evaluate (n : Node) : Stream := .node n

/-- The name that evaluates to the marker. -/
def cutName : String := "cut"

/-- The name that makes a call a choice. -/
def ambName : String := "amb"

/-- A choice is a call by name, whatever the name is bound to. -/
def Node.isAmb : Node → Bool
  | .identifier _ name => name == ambName
  | _                  => false

namespace Stream

/-- A branch on each outcome of a test. -/
def branch (span : Span) (test : Test) (condition consequent : Node) (alternate : Option Node) :
    Stream :=
  .flatMap (evaluate condition) (.branch span test consequent alternate)

/-- The first unfolding of a node.  `a && b` is `a ? b : false`, and `a || b` is `a ? true : b`; a
statement that is an expression is no nested evaluation of its own. -/
def build : Node → Stream
  | .literal _ value              => .once (.value value.value)
  | .identifier span name         =>
    if name = cutName then .once .cut else .deferred (.lookup span name)
  | .call span callee arguments   =>
    if callee.isAmb then .amb arguments
    else .flatMap (evaluate callee) (.arguments span arguments)
  | .unary span op argument       => .map (evaluate argument) (.unary span op)
  | .binary span op left right    => .flatMap (evaluate left) (.rightOperand span op right)
  | .logical span .and left right =>
    branch span ⟨LogicalOp.and.symbol, some .left⟩ left right
      (some (.literal span (.bool false)))
  | .logical span .or left right  =>
    branch span ⟨LogicalOp.or.symbol, some .left⟩ left (.literal span (.bool true)) (some right)
  | .conditional span test consequent alternate =>
    branch span ⟨"conditional expression", none⟩ test consequent (some alternate)
  | .variableDeclaration span keyword name init =>
    .map (evaluate init) (.define span keyword name)
  | .assignment span name value   => .map (evaluate value) (.assign span name)
  | .functionDeclaration span name params form inside =>
    .deferred (.defineFunction span ⟨name, params, form, inside, span⟩)
  | .arrowFunction span name params form inside =>
    .deferred (.closure ⟨name, params, form, inside, span⟩)
  | .ifStatement span test consequent alternate =>
    branch span ⟨"if statement", none⟩ test consequent alternate
  | .returnStatement _ none       => .once (.returned .undefined)
  | .returnStatement span (some argument) => .map (evaluate argument) (.return span)
  | .block _ statements           => .block statements
  | .expressionStatement _ expression => build expression
  | .program _ statements         => .program statements

end Stream

/-- Every outcome of calling a value. -/
def apply (callee : Value) (arguments : List Value) (span : Span) (this : Option Value) : Stream :=
  match callee with
  | .closure closure => .call span closure arguments this
  | .native name     => .deferred (.native span name arguments)
  | callee           => .deferred (.notFunction span callee)

namespace OpenStatements

/-- The first of some statements, begun after those in `earlier`. -/
def begin (statements : List Node) (earlier : OpenStatements) : OpenStatements :=
  match statements with
  | []      => earlier
  | n :: ns => .push (evaluate n) ns earlier

end OpenStatements

/-- Statements in order.  No statements at all give one outcome. -/
def Stream.ofStatements (statements : List Node) : Stream :=
  match statements with
  | [] => .once (.value .undefined)
  | ns => .sequence (.begin ns .none)

namespace Action

/-- The value of an operand.  The marker is none. -/
def operand (span : Span) (operation : String) : Outcome → Action Value
  | .value v | .returned v => return v
  | .cut                   => blame span (.type operation none "a value" cutText)

/-- The result of a computation on values; a mistake is raised at the span. -/
def check {α : Type} (span : Span) : Except Mistake α → Action α
  | .ok a          => return a
  | .error mistake => blame span mistake

/-- Calls a native.  A failure first takes everything of the script off the stack. -/
def callNative (span : Span) (name : String) (arguments : List Value) : Action Value := do
  match (← get).host.call name arguments with
  | .ok value      => return value
  | .error failure =>
    modify Context.truncate
    match failure with
    | .failure f            => raise f
    | .mistake m own        => blame own m
    | .refused m | .foreign m => blame span (.exception m)

end Action

namespace Deferred

/-- Computes the outcome. -/
def run : Deferred → Action Outcome
  | .lookup span name             => return .value (← Action.lookup name span)
  | .defineFunction span function => do
    let closure ← Action.makeClosure function
    Action.define (function.name.getD "") (.closure closure) true span
    return .value .undefined
  | .closure function             => return .value (.closure (← Action.makeClosure function))
  | .native span name arguments   => return .value (← Action.callNative span name arguments)
  | .notFunction span callee      => Action.blame span (.notFunction callee.text)

end Deferred

namespace Transform

/-- The outcome made of an operand's outcome. -/
def run (outcome : Outcome) : Transform → Action Outcome
  | .unary span op => do
    let v ← Action.operand span op.symbol outcome
    return .value (← Action.check span (op.apply v))
  | .binary span op left => do
    let right ← Action.operand span op.symbol outcome
    return .value (← Action.check span (op.apply left right))
  | .define span keyword name => do
    let v ← Action.operand span "variable declaration" outcome
    Action.define name v keyword.isConstant span
    return .value v
  | .assign span name => do
    let v ← Action.operand span "assignment" outcome
    Action.assign name v span
    return .value v
  | .return span => return .returned (← Action.operand span "return" outcome)

end Transform

namespace Continuation

/-- What is evaluated next. -/
def run (outcome : Outcome) : Continuation → Action Stream
  | .rightOperand span op right => do
    let left ← Action.operand span op.symbol outcome
    return .map (evaluate right) (.binary span op left)
  | .branch span test consequent alternate => do
    let v ← Action.operand span test.operation outcome
    if ← Action.check span (test.decide v) then
      return evaluate consequent
    else
      return (alternate.map evaluate).getD (.once (.value .undefined))
  | .arguments span nodes => do
    let callee ← Action.operand span "call" outcome
    return .calls span callee (.start nodes)

end Continuation

/-- Checks a call and creates its frame.  The frame is on the stack when it is counted against the
limit, and taken off again until the body is asked. -/
def Action.enterCall (span : Span) (closure : Closure) (arguments : List Value)
    (this : Option Value) : Action FrameId := do
  let expected := closure.params.length
  if arguments.length ≠ expected then
    blame span (.argumentCount expected arguments.length)
  else
    let frame := (← get).frames.next
    modify fun c => (c.addFrame (.activation closure arguments span this)).push frame
    let c ← get
    if c.limits.maxDepth < c.depth then
      raise (.exceeded .stack c.depth c.limits.maxDepth span)
    else
      set c.pop
      return frame

/-- What a call makes of an outcome of its body: only `return` gives a value. -/
def Outcome.ofBody : Outcome → Outcome
  | .returned v      => .value v
  | .value _ | .cut  => .value .undefined

end Nondet
