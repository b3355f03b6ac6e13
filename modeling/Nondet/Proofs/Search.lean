import Nondet.Session

/-!
# Search

What a script means when nothing is suspended, popped or put back.  `Node.search` is a textbook
backtracker: from a frame and a store of its own it finds a list of outcomes, each with the store it
leaves, and the way the list ends.  A choice is its alternatives one after the other, each from the
same store; operands and arguments are nested loops, the leftmost the slowest; statements go on once
for each outcome of the one before, a `return` skips those that follow, and a `cut` gives up
whatever is still to be found in its list.

The recursion follows the nodes, and each call goes one level down (`callWithin`).
-/

namespace Nondet

/-! ### Findings -/

/-- How a search ends. -/
inductive Ending where
  | complete
  | failed (failure : Failure)
  /-- More functions were called inside one another than the search goes into. -/
  | tooDeep

/-- What a search finds, in order, each item with the store it leaves, and how the search ends. -/
inductive Found (α : Type) where
  | stop (ending : Ending)
  | found (item : α) (store : Frames) (rest : Found α)

/-- A search starts from a store. -/
abbrev Search (α : Type) := Frames → Found α

namespace Found

variable {α β : Type}

/-- A single item. -/
def one (a : α) (store : Frames) : Found α := .found a store (.stop .complete)

/-- All of one search, then all of another, unless the first breaks off. -/
def append : Found α → Found α → Found α
  | .stop .complete, other       => other
  | .stop ending, _              => .stop ending
  | .found a store rest, other   => .found a store (rest.append other)

/-- A loop: for each item all that is found from it. -/
def bind (f : α → Search β) : Found α → Found β
  | .stop ending         => .stop ending
  | .found a store rest  => (f a store).append (rest.bind f)

/-- Goes on after each outcome of a statement.  `next` is told what is left to be found after it:
the other outcomes of the statement and then `after`.  For a cut that is nothing. -/
def thread (next : Outcome → Found Outcome → Search Outcome) :
    Found Outcome → Found Outcome → Found Outcome
  | .stop .complete, after                 => after
  | .stop ending, _                        => .stop ending
  | .found (.returned v) store rest, after => .found (.returned v) store (thread next rest after)
  | .found (.value v) store rest, after    => next (.value v) (thread next rest after) store
  | .found .cut store _, _                 => next .cut (.stop .complete) store

/-- The items without their stores. -/
def items : Found α → List α
  | .stop _            => []
  | .found a _ rest    => a :: rest.items

/-- How the search ended. -/
def ending : Found α → Ending
  | .stop ending       => ending
  | .found _ _ rest    => rest.ending

variable {γ : Type}

theorem append_complete : ∀ F : Found α, F.append (.stop .complete) = F
  | .stop .complete | .stop (.failed _) | .stop .tooDeep => rfl
  | .found a store rest => congrArg (Found.found a store) rest.append_complete

theorem append_assoc : ∀ F G H : Found α, (F.append G).append H = F.append (G.append H)
  | .stop .complete, _, _ | .stop (.failed _), _, _ | .stop .tooDeep, _, _ => rfl
  | .found a store rest, G, H => congrArg (Found.found a store) (append_assoc rest G H)

/-- Two loops one after the other are a loop over both. -/
theorem append_bind (f : α → Search β) :
    ∀ F G : Found α, (F.append G).bind f = (F.bind f).append (G.bind f)
  | .stop .complete, _ | .stop (.failed _), _ | .stop .tooDeep, _ => rfl
  | .found a store rest, G => by
      have ih := append_bind f rest G
      simp only [append, bind, ih, append_assoc]

theorem one_bind (a : α) (store : Frames) (f : α → Search β) : (one a store).bind f = f a store :=
  append_complete _

theorem bind_one : ∀ F : Found α, F.bind one = F
  | .stop _ => rfl
  | .found a store rest => congrArg (Found.found a store) rest.bind_one

theorem bind_assoc (f : α → Search β) (g : β → Search γ) :
    ∀ F : Found α, (F.bind f).bind g = F.bind fun a store => (f a store).bind g
  | .stop _ => rfl
  | .found a store rest => by
      have ih := bind_assoc f g rest
      simp only [bind, append_bind, ih]

end Found

instance : Monad Search where
  pure a store := .one a store
  bind m f store := (m store).bind f

namespace Search

variable {α : Type}

/-! ### Single searches -/

/-- Nothing is found. -/
def none : Search α := fun _ => .stop .complete

/-- All of one search, then all of another from the same store. -/
def either (first second : Search α) : Search α := fun store => (first store).append (second store)

def raise (failure : Failure) : Search α := fun _ => .stop (.failed failure)

/-- Fails with a mistake at a span. -/
def blame (span : Span) (mistake : Mistake) : Search α := raise (.mistake mistake span)

/-- The value of an operand.  The marker is none. -/
def operand (span : Span) (operation : String) : Outcome → Search Value
  | .value v | .returned v => return v
  | .cut                   => blame span (.type operation Option.none "a value" cutText)

/-- The result of a computation on values. -/
def check (span : Span) : Except Mistake α → Search α
  | .ok a          => return a
  | .error mistake => blame span mistake

/-- What a branch on an outcome depends on. -/
def decision (span : Span) (test : Test) (outcome : Outcome) : Search Bool := do
  check span (test.decide (← operand span test.operation outcome))

/-- The value of a name as seen from a frame. -/
def lookup (name : String) (span : Span) (frame : FrameId) : Search Value := fun store =>
  match store.lookup frame name with
  | .ok v          => .one v store
  | .error failure => .stop (.failed (.mistake (.ofBind failure name) span))

/-- Changes the store, unless the change is refused. -/
def change (name : String) (span : Span) (f : Frames → Except BindFailure Frames) : Search Unit :=
  fun store =>
    match f store with
    | .ok store'     => .one () store'
    | .error failure => .stop (.failed (.mistake (.ofBind failure name) span))

/-- Gives a name of the frame its value. -/
def define (name : String) (v : Value) (constant : Bool) (span : Span) (frame : FrameId) :
    Search Unit :=
  change name span fun store => store.define frame name v constant

/-- Overwrites the nearest value of a name. -/
def assign (name : String) (v : Value) (span : Span) (frame : FrameId) : Search Unit :=
  change name span fun store => store.assign frame name v

/-- Declares in the frame what statements declare directly. -/
def hoist (frame : FrameId) : List Node → Search Unit
  | []      => return ()
  | n :: ns => do
    if let some name := n.declaredName? then
      change name n.span fun store => store.declare frame name
    hoist frame ns

def makeClosure (function : Function) (frame : FrameId) : Search Closure := fun store =>
  .one (store.makeClosure function frame).1 (store.makeClosure function frame).2

/-- A new frame. -/
def enter (frame : Frame) : Search FrameId := fun store => .one store.next (store.push frame)

/-- Calls a native. -/
def native (host : Host) (span : Span) (name : String) (arguments : List Value) : Search Value :=
  match host.call name arguments with
  | .ok v                    => return v
  | .error (.failure f)      => raise f
  | .error (.mistake m own)  => blame own m
  | .error (.refused m)      => blame span (.exception m)
  | .error (.foreign m)      => blame span (.exception m)

/-- Statements that stand in a frame: `run` goes through them, once their names are declared. -/
def scope (statements : List Node) (frame : FrameId) (run : Search Outcome) : Search Outcome := do
  hoist frame statements
  if statements.isEmpty then return .value .undefined else run

/-! ### Nodes -/

/-- How a closure is called at a span. -/
abbrev Call := Span → Closure → List Value → Search Outcome

/-- Calls a value. -/
def apply (host : Host) (call : Call) (span : Span) (callee : Value) (arguments : List Value) :
    Search Outcome :=
  match callee with
  | .closure closure => call span closure arguments
  | .native name     => return .value (← native host span name arguments)
  | callee           => blame span (.notFunction callee.text)

end Search

variable (host : Host) (call : Search.Call)

mutual

/-- Every outcome of a node that stands in a frame. -/
def Node.search : Node → FrameId → Search Outcome
  | .literal _ value, _ => return .value value.value
  | .identifier span name, e =>
    if name = cutName then return .cut else return .value (← Search.lookup name span e)
  | .call span callee arguments, e =>
    if callee.isAmb then searchAlternatives arguments e
    else do
      let f ← Search.operand span "call" (← callee.search e)
      Search.apply host call span f (← searchArguments arguments e)
  | .unary span op argument, e => do
    let v ← Search.operand span op.symbol (← argument.search e)
    return .value (← Search.check span (op.apply v))
  | .binary span op left right, e => do
    let v ← Search.operand span op.symbol (← left.search e)
    let w ← Search.operand span op.symbol (← right.search e)
    return .value (← Search.check span (op.apply v w))
  | .logical span .and left right, e => do
    if ← Search.decision span ⟨LogicalOp.and.symbol, some .left⟩ (← left.search e) then
      right.search e
    else
      return .value (.bool false)
  | .logical span .or left right, e => do
    if ← Search.decision span ⟨LogicalOp.or.symbol, some .left⟩ (← left.search e) then
      return .value (.bool true)
    else
      right.search e
  | .conditional span test consequent alternate, e => do
    if ← Search.decision span ⟨"conditional expression", none⟩ (← test.search e) then
      consequent.search e
    else
      alternate.search e
  | .variableDeclaration span keyword name init, e => do
    let v ← Search.operand span "variable declaration" (← init.search e)
    Search.define name v keyword.isConstant span e
    return .value v
  | .assignment span name value, e => do
    let v ← Search.operand span "assignment" (← value.search e)
    Search.assign name v span e
    return .value v
  | .functionDeclaration span name params form body, e => do
    let closure ← Search.makeClosure ⟨name, params, form, body, span⟩ e
    Search.define (name.getD "") (.closure closure) true span e
    return .value .undefined
  | .arrowFunction span name params form body, e =>
    return .value (.closure (← Search.makeClosure ⟨name, params, form, body, span⟩ e))
  | .ifStatement span test consequent none, e => do
    if ← Search.decision span ⟨"if statement", none⟩ (← test.search e) then
      consequent.search e
    else
      return .value .undefined
  | .ifStatement span test consequent (some alternate), e => do
    if ← Search.decision span ⟨"if statement", none⟩ (← test.search e) then
      consequent.search e
    else
      alternate.search e
  | .returnStatement _ none, _ => return .returned .undefined
  | .returnStatement span (some argument), e =>
    return .returned (← Search.operand span "return" (← argument.search e))
  | .block _ statements, e => do
    let frame ← Search.enter (.child "block" e)
    Search.scope statements frame (searchStatements statements frame (.stop .complete))
  | .expressionStatement _ expression, e => expression.search e
  | .program _ statements, e => do
    let frame ← Search.enter (.child "program" e)
    Search.scope statements frame (searchStatements statements frame (.stop .complete))

/-- Every outcome of every alternative. -/
def searchAlternatives : List Node → FrameId → Search Outcome
  | [], _      => .none
  | n :: ns, e => .either (n.search e) (searchAlternatives ns e)

/-- Every list of arguments. -/
def searchArguments : List Node → FrameId → Search (List Value)
  | [], _      => return []
  | n :: ns, e => do
    let v ← Search.operand n.span "call argument" (← n.search e)
    return v :: (← searchArguments ns e)

/-- Every outcome of statements, with `after` to be found when they are through.  The outcomes of
the last one are those of the list. -/
def searchStatements : List Node → FrameId → Found Outcome → Search Outcome
  | [], _, after      => fun _ => after
  | n :: ns, e, after => fun store =>
    .thread
      (fun outcome rest store =>
        if ns.isEmpty then .found outcome store rest else searchStatements ns e rest store)
      (n.search e store) after

end

/-- Every outcome of statements that stand in a frame. -/
def searchBody (statements : List Node) (e : FrameId) : Search Outcome :=
  Search.scope statements e (searchStatements host call statements e (.stop .complete))

theorem searchBody_apply (statements : List Node) (e : FrameId) (store : Frames) :
    searchBody host call statements e store =
      (Search.hoist e statements store).bind fun _ store =>
        if statements.isEmpty then .one (.value .undefined) store
        else searchStatements host call statements e (.stop .complete) store := by
  cases statements <;> rfl

/-- A call takes as many arguments as there are parameters. -/
def Search.arity (span : Span) (closure : Closure) (arguments : List Value) : Search Unit :=
  if arguments.length ≠ closure.params.length then
    blame span (.argumentCount closure.params.length arguments.length)
  else
    return ()

/-- Calls a closure, and within it others to a depth. -/
def callWithin : Nat → Search.Call
  | 0, span, closure, arguments => do
    Search.arity span closure arguments
    fun _ => .stop .tooDeep
  | depth + 1, span, closure, arguments => do
    Search.arity span closure arguments
    let frame ← Search.enter (.activation closure arguments span none)
    return (← searchBody host (callWithin depth) closure.function.statements frame).ofBody

/-- All that is found of a script in a new session, with calls to a depth inside one another. -/
def Session.search (options : SessionOptions) (host : Host) (depth : Nat) (program : Node) :
    Found Outcome :=
  let c := (Session.start options host).context
  program.search host (callWithin host depth) c.global c.frames

end Nondet
