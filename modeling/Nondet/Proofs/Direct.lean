import Nondet.Proofs.Pull.Program

/-!
# Direct

The ordinary interpreter of the language: what a script without choices does, said in direct style.
A node is run once and gives one outcome or fails; operands are run from left to right, statements
one after the other, a call runs the body in a frame of its own and a `return` leaves it.  Nothing
is suspended and nothing is asked twice.

It works on the same contexts and with the same actions as the streams do.  `room` is how many nodes
may still be entered inside one another; with none left a node fails, so the recursion is on it.
-/

namespace Nondet.Direct

variable {α : Type}

/-- Does something inside one more node. -/
def inside (action : Action α) : Action α := ExceptT.mk do
  modify Context.enterNested
  let result ← action.run
  modify Context.leaveNested
  return result

/-- Does something in a frame that is on the stack only meanwhile. -/
def within (frame : FrameId) (action : Action α) : Action α := do
  modify (Context.push · frame)
  let result ← action
  modify Context.pop
  return result

section

variable (run : Node → Action Outcome)

/-- Runs the statements in order, up to the first that returns. -/
def statements : List Node → Action Outcome
  | []      => return .value .undefined
  | [n]     => run n
  | n :: ns => do
    match ← run n with
    | .returned v     => return .returned v
    | .value _ | .cut => statements ns

/-- Declares what the statements declare, then runs them. -/
def body (ns : List Node) : Action Outcome := do
  Action.hoist ns
  statements run ns

/-- The values of the arguments of a call. -/
def arguments : List Node → Action (List Value)
  | []      => return []
  | n :: ns => do
    let v ← Action.operand n.span "call argument" (← run n)
    return v :: (← arguments ns)

/-- Calls a value. -/
def call (span : Span) (values : List Value) : Value → Action Outcome
  | .closure closure => do
    let frame ← Action.enterCall span closure values none
    return (← within frame (body run closure.function.statements)).ofBody
  | .native name     => return .value (← Action.callNative span name values)
  | callee           => Action.blame span (.notFunction callee.text)

/-- Whether a test is passed. -/
def test (span : Span) (t : Test) (condition : Node) : Action Bool := do
  let v ← Action.operand span t.operation (← run condition)
  Action.check span (t.decide v)

/-- What a node does, given how the nodes in it are run. -/
def step : Node → Action Outcome
  | .literal _ value              => return .value value.value
  | .identifier span name         =>
    if name = cutName then return .cut else return .value (← Action.lookup name span)
  | .call span callee nodes       => do
    let f ← Action.operand span "call" (← run callee)
    let values ← arguments run nodes
    call run span values f
  | .unary span op argument       => do
    let v ← Action.operand span op.symbol (← run argument)
    return .value (← Action.check span (op.apply v))
  | .binary span op left right    => do
    let v ← Action.operand span op.symbol (← run left)
    let w ← Action.operand span op.symbol (← run right)
    return .value (← Action.check span (op.apply v w))
  | .logical span .and left right => do
    if ← test run span ⟨LogicalOp.and.symbol, some .left⟩ left then run right
    else return .value (.bool false)
  | .logical span .or left right  => do
    if ← test run span ⟨LogicalOp.or.symbol, some .left⟩ left then return .value (.bool true)
    else run right
  | .conditional span condition consequent alternate => do
    if ← test run span ⟨"conditional expression", none⟩ condition then run consequent
    else run alternate
  | .variableDeclaration span keyword name init => do
    let v ← Action.operand span "variable declaration" (← run init)
    Action.define name v keyword.isConstant span
    return .value v
  | .assignment span name value   => do
    let v ← Action.operand span "assignment" (← run value)
    Action.assign name v span
    return .value v
  | .functionDeclaration span name params form inside => do
    let closure ← Action.makeClosure ⟨name, params, form, inside, span⟩
    Action.define (name.getD "") (.closure closure) true span
    return .value .undefined
  | .arrowFunction span name params form inside =>
    return .value (.closure (← Action.makeClosure ⟨name, params, form, inside, span⟩))
  | .ifStatement span condition consequent alternate => do
    if ← test run span ⟨"if statement", none⟩ condition then run consequent
    else
      match alternate with
      | some alternate => run alternate
      | none           => return .value .undefined
  | .returnStatement _ none       => return .returned .undefined
  | .returnStatement span (some argument) =>
    return .returned (← Action.operand span "return" (← run argument))
  | .block _ ns                   => do
    let c ← get
    modify (Context.addFrame · (.child "block" c.current))
    within c.frames.next (body run ns)
  | .expressionStatement _ expression => step expression
  | .program _ ns                 => do
    modify Context.enterProgram
    body run ns

end

/-- Runs a node, when so many nodes may be entered inside one another, this one included. -/
def run : Nat → Node → Action Outcome
  | 0, n        => do
    let c ← get
    Action.raise (.exceeded .nesting (c.nesting + 1) c.limits.maxNesting n.span)
  | room + 1, n => inside (step (run room) n)

end Nondet.Direct
