import Nondet.Stream.Pull
import Nondet.Proofs.Context.Action

/-!
# Pull — Move

One request, one layer deep.  `Stream.move` says what a stream does when it is asked: it answers at
once, or it asks another stream, in a context that it names, and goes on according to the reply.
`Stream.ask_succ` and `Odometer.ask_succ` say that pulling with one more unit of fuel is making one
move.  Everything that is shown of pulling is shown of moves: that more fuel never changes a reply
(`Stream.Gives.unique`), what a run asks on its way, and what each request keeps.
-/

namespace Nondet

variable {σ α : Type}

/-- The answer to a request that had fuel enough. -/
inductive Reply (σ α : Type) where
  | yield (item : α) (rest : σ) (c : Context)
  | finished (c : Context)
  | failed (failure : Failure) (c : Context)

namespace Reply

/-- The context after the request. -/
def context : Reply σ α → Context
  | .yield _ _ c | .finished c | .failed _ c => c

/-- The reply of a computation: its value, with `rest` to be asked next, or its failure. -/
def ofResult (rest : σ) : Except Failure α × Context → Reply σ α
  | (.ok item, c)       => .yield item rest c
  | (.error failure, c) => .failed failure c

end Reply

/-- The reply in a step, if the fuel sufficed. -/
def Step.reply? : Step σ α → Option (Reply σ α)
  | .yield item rest c => some (.yield item rest c)
  | .finished c        => some (.finished c)
  | .failed failure c  => some (.failed failure c)
  | .starved           => none

/-- The reply of a stream to a request with so much fuel, if that sufficed. -/
def Stream.ask (fuel : Nat) (s : Stream) (c : Context) : Option (Reply Stream Outcome) :=
  (s.pull fuel c).reply?

/-- The reply of an odometer to a request with so much fuel, if that sufficed. -/
def Odometer.ask (fuel : Nat) (o : Odometer) (c : Context) : Option (Reply Odometer (List Value)) :=
  (o.pull fuel c).reply?

/-- What is done on one request: an answer, or another request and what follows from its reply. -/
inductive Move (σ α : Type) where
  | answer (reply : Reply σ α)
  | stream (s : Stream) (c : Context) (next : Reply Stream Outcome → Move σ α)
  | odometer (o : Odometer) (c : Context) (next : Reply Odometer (List Value) → Move σ α)

/-- The reply that a move leads to, given replies to what it asks. -/
def Move.run (askStream : Stream → Context → Option (Reply Stream Outcome))
    (askOdometer : Odometer → Context → Option (Reply Odometer (List Value))) :
    Move σ α → Option (Reply σ α)
  | .answer reply      => some reply
  | .stream s c next   => (askStream s c).bind fun r => (next r).run askStream askOdometer
  | .odometer o c next => (askOdometer o c).bind fun r => (next r).run askStream askOdometer

/-! ### The moves -/

/-- What a stream does when it is asked. -/
def Stream.move : Stream → Context → Move Stream Outcome
  | .empty, c => .answer (.finished c)
  | .once outcome, c => .answer (.yield outcome .empty c)
  | .deferred what, c => .answer (.ofResult .empty (what.run.on c))
  | .node n, c => .stream (.nested n.span (.build n)) c .answer
  | .nested span inner, c =>
    match (Action.enterNested span).on c with
    | (.error failure, c) => .answer (.failed failure c)
    | (.ok (), c) => .stream inner c fun
      | .yield outcome inner c => .answer (.yield outcome (.nested span inner) c.leaveNested)
      | .finished c            => .answer (.finished c.leaveNested)
      | .failed failure c      => .answer (.failed failure c.leaveNested)
  | .map inner f, c => .stream inner c fun
    | .yield outcome inner c => .answer (.ofResult (.map inner f) ((f.run outcome).on c))
    | .finished c            => .answer (.finished c)
    | .failed failure c      => .answer (.failed failure c)
  | .flatMap outer next, c => .stream outer c fun
    | .yield outcome outer c =>
      match (next.run outcome).on c with
      | (.ok inner, c)      => .stream (.append inner (.flatMap outer next)) c .answer
      | (.error failure, c) => .answer (.failed failure c)
    | .finished c            => .answer (.finished c)
    | .failed failure c      => .answer (.failed failure c)
  | .append first second, c => .stream first c fun
    | .yield outcome first c => .answer (.yield outcome (.append first second) c)
    | .finished c            => .stream second c .answer
    | .failed failure c      => .answer (.failed failure c)
  | .calls span callee arguments, c => .odometer arguments c fun
    | .yield values arguments c =>
      .stream (.append (apply callee values span none) (.calls span callee arguments)) c .answer
    | .finished c               => .answer (.finished c)
    | .failed failure c         => .answer (.failed failure c)
  | .amb [], c => .answer (.finished c)
  | .amb (n :: later), c => .stream (.choice c.snapshot (evaluate n) later) c .answer
  | .choice snapshot current later, c => .stream current c fun
    | .yield outcome current c => .answer (.yield outcome (.choice snapshot current later) c)
    | .finished c =>
      match later with
      | []         => .answer (.finished (c.restore snapshot))
      | n :: later => .stream (.choice snapshot (evaluate n) later) (c.restore snapshot) .answer
    | .failed failure c        => .answer (.failed failure c)
  | .block statements, c =>
    .stream (.framed c.frames.next (.body statements)) (c.addFrame (.child "block" c.current))
      .answer
  | .program statements, c => .stream (.body statements) c.enterProgram .answer
  | .body statements, c =>
    match (Action.hoist statements).on c with
    | (.ok (), c)         => .stream (.ofStatements statements) c .answer
    | (.error failure, c) => .answer (.failed failure c)
  | .sequence .none, c => .answer (.finished c)
  | .sequence (.push current later earlier), c => .stream current c fun
    | .yield (.returned v) current c =>
      .answer (.yield (.returned v) (.sequence (.push current later earlier)) c)
    | .yield .cut _ c =>
      match later with
      | []     => .answer (.yield .cut .empty c)
      | _ :: _ => .stream (.sequence (.begin later .none)) c .answer
    | .yield (.value v) current c =>
      match later with
      | []     => .answer (.yield (.value v) (.sequence (.push current later earlier)) c)
      | _ :: _ => .stream (.sequence (.begin later (.push current later earlier))) c .answer
    | .finished c       => .stream (.sequence earlier) c .answer
    | .failed failure c => .answer (.failed failure c)
  | .framed frame inner, c => .stream inner (c.push frame) fun
    | .yield outcome inner c => .answer (.yield outcome (.framed frame inner) c.pop)
    | .finished c            => .answer (.finished c.pop)
    | .failed failure c      => .answer (.failed failure c)
  | .call span closure arguments this, c =>
    match (Action.enterCall span closure arguments this).on c with
    | (.ok frame, c)      =>
      .stream (.activation frame (.body closure.function.statements)) c .answer
    | (.error failure, c) => .answer (.failed failure c)
  | .activation frame inner, c => .stream inner (c.push frame) fun
    | .yield outcome inner c => .answer (.yield outcome.ofBody (.activation frame inner) c.pop)
    | .finished c            => .answer (.finished c.pop)
    | .failed failure c      => .answer (.failed failure c)

/-- What an odometer does when it is asked. -/
def Odometer.move : Odometer → Context → Move Odometer (List Value)
  | .start [], c => .answer (.yield [] (.turning .none []) c)
  | .start (n :: later), c =>
    .odometer (.turning (.push (evaluate n) n.span later .none) []) c .answer
  | .turning .none _, c => .answer (.finished c)
  | .turning (.push current span later earlier) values, c => .stream current c fun
    | .yield outcome current c =>
      match (Action.operand span "call argument" outcome).on c with
      | (.ok v, c) =>
        match later with
        | [] =>
          .answer (.yield (v :: values).reverse
            (.turning (.push current span later earlier) values) c)
        | n :: next =>
          .odometer (.turning (.push (evaluate n) n.span next (.push current span later earlier))
            (v :: values)) c .answer
      | (.error failure, c) => .answer (.failed failure c)
    | .finished c       => .odometer (.turning earlier values.tail) c .answer
    | .failed failure c => .answer (.failed failure c)

/-! ### Moves that may be refused -/

/-- A context in which one more node is being evaluated. -/
def Context.enterNested (c : Context) : Context := { c with nesting := c.nesting + 1 }

/-- A reply of what is inside a node, as a reply of the node. -/
def Reply.leaving (span : Span) : Reply Stream Outcome → Reply Stream Outcome
  | .yield outcome inner c => .yield outcome (.nested span inner) c.leaveNested
  | .finished c            => .finished c.leaveNested
  | .failed failure c      => .failed failure c.leaveNested

theorem Reply.context_leaving (span : Span) (r : Reply Stream Outcome) :
    (r.leaving span).context = r.context.leaveNested := by
  cases r <;> rfl

/-- The reply of a request that is refused: the failure is raised. -/
def Reply.refused (c : Context) (failure : Failure) : Reply σ α :=
  .failed failure (c.raised failure)

/-- Below the limit a node that was begun asks what is inside. -/
theorem Stream.move_nested {c : Context} (h : c.nesting < c.limits.maxNesting) (span : Span)
    (inner : Stream) :
    (Stream.nested span inner).move c =
      .stream inner c.enterNested fun r => .answer (r.leaving span) := by
  simp only [Stream.move, Action.on_enterNested, if_neg (Nat.not_le_of_lt h)]
  congr 1
  funext r
  cases r <;> rfl

/-- At the limit it is refused. -/
theorem Stream.move_nested_full {c : Context} (h : c.limits.maxNesting ≤ c.nesting) (span : Span)
    (inner : Stream) :
    (Stream.nested span inner).move c =
      .answer (.refused c (.exceeded .nesting (c.nesting + 1) c.limits.maxNesting span)) := by
  simp only [Stream.move, Action.on_enterNested, if_pos h, Reply.refused]

/-- A node that was begun is refused, or asks what is inside. -/
theorem Stream.move_nested_cases (span : Span) (inner : Stream) (c : Context) :
    (c.limits.maxNesting ≤ c.nesting ∧
      (Stream.nested span inner).move c =
        .answer (.refused c (.exceeded .nesting (c.nesting + 1) c.limits.maxNesting span))) ∨
    (c.nesting < c.limits.maxNesting ∧
      (Stream.nested span inner).move c =
        .stream inner c.enterNested fun r => .answer (r.leaving span)) :=
  (Nat.lt_or_ge c.nesting c.limits.maxNesting).symm.imp
    (fun full => ⟨full, move_nested_full full span inner⟩)
    fun below => ⟨below, move_nested below span inner⟩

section

variable (span : Span) {closure : Closure} {arguments : List Value} (this : Option Value)
  {c : Context}

/-- A call with another number of arguments than there are parameters is refused. -/
theorem Stream.move_call_mismatch (h : arguments.length ≠ closure.params.length) :
    (Stream.call span closure arguments this).move c =
      .answer (.refused c
        (.mistake (.argumentCount closure.params.length arguments.length) span)) := by
  simp only [Stream.move, Action.on_enterCall, if_pos h, Reply.refused]

/-- A call that the stack has no place for is refused when its frame is on the stack. -/
theorem Stream.move_call_full (h : arguments.length = closure.params.length)
    (full : c.limits.maxDepth ≤ c.depth) :
    (Stream.call span closure arguments this).move c =
      .answer (.refused
        ((c.addFrame (.activation closure arguments span this)).push c.frames.next)
        (.exceeded .stack (c.depth + 1) c.limits.maxDepth span)) := by
  simp only [Stream.move, Action.on_enterCall, if_neg (Decidable.not_not.mpr h),
    if_pos (Nat.lt_succ_of_le full), Reply.refused]

/-- Any other call asks its body in its frame. -/
theorem Stream.move_call (h : arguments.length = closure.params.length)
    (below : c.depth < c.limits.maxDepth) :
    (Stream.call span closure arguments this).move c =
      .stream (.activation c.frames.next (.body closure.function.statements))
        (c.addFrame (.activation closure arguments span this)) .answer := by
  simp only [Stream.move, Action.on_enterCall, if_neg (Decidable.not_not.mpr h),
    if_neg (Nat.not_lt.mpr (Nat.succ_le_of_lt below))]

/-- A call is refused for its arguments, refused for the depth of the stack, or entered. -/
theorem Stream.move_call_cases (closure : Closure) (arguments : List Value) (c : Context) :
    (arguments.length ≠ closure.params.length ∧
      (Stream.call span closure arguments this).move c =
        .answer (.refused c
          (.mistake (.argumentCount closure.params.length arguments.length) span))) ∨
    (arguments.length = closure.params.length ∧ c.limits.maxDepth ≤ c.depth ∧
      (Stream.call span closure arguments this).move c =
        .answer (.refused
          ((c.addFrame (.activation closure arguments span this)).push c.frames.next)
          (.exceeded .stack (c.depth + 1) c.limits.maxDepth span))) ∨
    (arguments.length = closure.params.length ∧ c.depth < c.limits.maxDepth ∧
      (Stream.call span closure arguments this).move c =
        .stream (.activation c.frames.next (.body closure.function.statements))
          (c.addFrame (.activation closure arguments span this)) .answer) := by
  by_cases harity : arguments.length = closure.params.length
  · rcases Nat.lt_or_ge c.depth c.limits.maxDepth with below | full
    · exact .inr (.inr ⟨harity, below, move_call span this harity below⟩)
    · exact .inr (.inl ⟨harity, full, move_call_full span this harity full⟩)
  · exact .inl ⟨harity, move_call_mismatch span this harity⟩

end

/-! ### Pulling is moving -/

@[simp] theorem Stream.ask_zero (s : Stream) (c : Context) : s.ask 0 c = none := by
  simp [Stream.ask, Stream.pull, Step.reply?]

@[simp] theorem Odometer.ask_zero (o : Odometer) (c : Context) : o.ask 0 c = none := by
  simp [Odometer.ask, Odometer.pull, Step.reply?]

/-- With one more unit of fuel a stream makes one move. -/
theorem Stream.ask_succ (fuel : Nat) (s : Stream) (c : Context) :
    s.ask (fuel + 1) c = (s.move c).run (Stream.ask fuel) (Odometer.ask fuel) := by
  unfold Stream.ask
  cases s with
  | empty | once _ => rfl
  | node _ | block _ | program _ => simp [Stream.pull, Stream.move, Move.run]
  | deferred what =>
      rcases h : what.run.on c with ⟨_ | _, c⟩ <;>
        simp [Stream.pull, Stream.move, Move.run, Step.reply?, Reply.ofResult, h]
  | nested span inner =>
      rcases h : (Action.enterNested span).on c with ⟨_ | _, c⟩
      · simp [Stream.pull, Stream.move, Move.run, Step.reply?, h]
      · rcases hp : inner.pull fuel c with _ | _ | _ | _ <;>
          simp [Stream.pull, Stream.move, Move.run, Step.reply?, h, hp]
  | map inner f =>
      rcases hp : inner.pull fuel c with ⟨outcome, inner, c⟩ | _ | _ | _
      · rcases h : (f.run outcome).on c with ⟨_ | _, c⟩ <;>
          simp [Stream.pull, Stream.move, Move.run, Step.reply?, Reply.ofResult, h, hp]
      all_goals simp [Stream.pull, Stream.move, Move.run, Step.reply?, hp]
  | flatMap outer next =>
      rcases hp : outer.pull fuel c with ⟨outcome, outer, c⟩ | _ | _ | _
      · rcases h : (next.run outcome).on c with ⟨_ | _, c⟩ <;>
          simp [Stream.pull, Stream.move, Move.run, Step.reply?, h, hp]
      all_goals simp [Stream.pull, Stream.move, Move.run, Step.reply?, hp]
  | append first second =>
      rcases hp : first.pull fuel c with _ | _ | _ | _ <;>
        simp [Stream.pull, Stream.move, Move.run, Step.reply?, hp]
  | calls span callee arguments =>
      rcases hp : arguments.pull fuel c with _ | _ | _ | _ <;>
        simp [Stream.pull, Stream.move, Move.run, Step.reply?, Odometer.ask, hp]
  | amb alternatives =>
      cases alternatives <;> simp [Stream.pull, Stream.move, Move.run, Step.reply?]
  | choice snapshot current later =>
      rcases hp : current.pull fuel c with _ | _ | _ | _ <;> cases later <;>
        simp [Stream.pull, Stream.move, Move.run, Step.reply?, hp]
  | body statements =>
      rcases h : (Action.hoist statements).on c with ⟨_ | _, c⟩ <;>
        simp [Stream.pull, Stream.move, Move.run, Step.reply?, h]
  | sequence begun =>
      rcases begun with _ | ⟨current, later, earlier⟩
      · simp [Stream.pull, Stream.move, Move.run, Step.reply?]
      · rcases hp : current.pull fuel c with ⟨_ | _ | _, _, _⟩ | _ | _ | _ <;> cases later <;>
          simp [Stream.pull, Stream.move, Move.run, Step.reply?, hp]
  | framed frame inner | activation frame inner =>
      rcases hp : inner.pull fuel (c.push frame) with _ | _ | _ | _ <;>
        simp [Stream.pull, Stream.move, Move.run, Step.reply?, hp]
  | call span closure arguments this =>
      rcases h : (Action.enterCall span closure arguments this).on c with ⟨_ | _, c⟩ <;>
        simp [Stream.pull, Stream.move, Move.run, Step.reply?, h]

/-- With one more unit of fuel an odometer makes one move. -/
theorem Odometer.ask_succ (fuel : Nat) (o : Odometer) (c : Context) :
    o.ask (fuel + 1) c = (o.move c).run (Stream.ask fuel) (Odometer.ask fuel) := by
  unfold Odometer.ask
  rcases o with (_ | ⟨n, later⟩) | ⟨_ | ⟨current, span, later, earlier⟩, values⟩
  · simp [Odometer.pull, Odometer.move, Move.run, Step.reply?]
  · simp [Odometer.pull, Odometer.move, Move.run]
  · simp [Odometer.pull, Odometer.move, Move.run, Step.reply?]
  · rcases hp : current.pull fuel c with ⟨outcome, current, c⟩ | _ | _ | _
    · rcases h : (Action.operand span "call argument" outcome).on c with ⟨_ | _, c⟩ <;>
        cases later <;>
          simp [Odometer.pull, Odometer.move, Move.run, Step.reply?, Stream.ask, h, hp]
    all_goals simp [Odometer.pull, Odometer.move, Move.run, Step.reply?, Stream.ask, hp]

end Nondet
