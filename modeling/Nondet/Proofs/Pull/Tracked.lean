import Nondet.Stream.Pull

/-!
# Pull — Tracked

Streams that are kept after their last word.  A stream that has ended or failed is dropped when it
is pulled, so that nothing shows whether it would have been asked again.  Here every stream stays
where it is: a request writes what is left of it back into its place, a stream that ends or fails
is marked `spent` there, and asking what is spent is answered `repeated`, which no stream above it
takes for anything else.  A place is given up only where `Stream.pull` itself goes on without what
stands there: an alternative or a call that had no more outcomes, an argument or a statement that
was gone back from, and what a `cut` makes superfluous.

The streams of `Nondet.Stream` are the tracked streams in which nothing is spent (`Stream.tracked`).
-/

namespace Nondet.Tracked

/-! ### Streams with their ends -/

mutual

/-- A stream as in `Nondet.Stream`, or one that has said its last. -/
inductive Stream where
  | spent (was : Stream)
  | empty
  | once (outcome : Outcome)
  | deferred (what : Deferred)
  | node (n : Node)
  | nested (span : Span) (inner : Stream)
  | map (inner : Stream) (f : Transform)
  | flatMap (outer : Stream) (next : Continuation)
  | append (first second : Stream)
  | calls (span : Span) (callee : Value) (arguments : Odometer)
  | amb (alternatives : List Node)
  | choice (snapshot : Snapshot) (current : Stream) (later : List Node)
  | block (statements : List Node)
  | program (statements : List Node)
  | body (statements : List Node)
  | sequence (begun : OpenStatements)
  | framed (frame : FrameId) (inner : Stream)
  | call (span : Span) (closure : Closure) (arguments : List Value) (this : Option Value)
  | activation (frame : FrameId) (inner : Stream)

/-- All lists of arguments, or an odometer that has said its last. -/
inductive Odometer where
  | spent (was : Odometer)
  | start (arguments : List Node)
  | turning (begun : OpenArguments) (values : List Value)

/-- The arguments that were begun, the last one first, each with those that follow it. -/
inductive OpenArguments where
  | none
  | push (stream : Stream) (span : Span) (later : List Node) (earlier : OpenArguments)

/-- The statements that were begun, the last one first, each with those that follow it. -/
inductive OpenStatements where
  | none
  | push (stream : Stream) (later : List Node) (earlier : OpenStatements)

end

end Nondet.Tracked

namespace Nondet

mutual

/-- The stream with nothing spent in it. -/
def Stream.tracked : Stream → Tracked.Stream
  | .empty                            => .empty
  | .once outcome                     => .once outcome
  | .deferred what                    => .deferred what
  | .node n                           => .node n
  | .nested span inner                => .nested span inner.tracked
  | .map inner f                      => .map inner.tracked f
  | .flatMap outer next               => .flatMap outer.tracked next
  | .append first second              => .append first.tracked second.tracked
  | .calls span callee arguments      => .calls span callee arguments.tracked
  | .amb alternatives                 => .amb alternatives
  | .choice snapshot current later    => .choice snapshot current.tracked later
  | .block statements                 => .block statements
  | .program statements               => .program statements
  | .body statements                  => .body statements
  | .sequence begun                   => .sequence begun.tracked
  | .framed frame inner               => .framed frame inner.tracked
  | .call span closure arguments this => .call span closure arguments this
  | .activation frame inner           => .activation frame inner.tracked

/-- The odometer with nothing spent in it. -/
def Odometer.tracked : Odometer → Tracked.Odometer
  | .start arguments      => .start arguments
  | .turning begun values => .turning begun.tracked values

/-- The arguments that were begun, with nothing spent in them. -/
def OpenArguments.tracked : OpenArguments → Tracked.OpenArguments
  | .none                          => .none
  | .push stream span later earlier => .push stream.tracked span later earlier.tracked

/-- The statements that were begun, with nothing spent in them. -/
def OpenStatements.tracked : OpenStatements → Tracked.OpenStatements
  | .none                     => .none
  | .push stream later earlier => .push stream.tracked later earlier.tracked

end

end Nondet

namespace Nondet.Tracked

variable {σ τ α β : Type}

/-- What is said on a request. -/
inductive Said (α : Type) where
  | yield (item : α)
  | finished
  | failed (failure : Failure)

/-- Nothing may be asked after it. -/
def Said.IsLast : Said α → Prop
  | .yield _              => False
  | .finished | .failed _ => True

/-- What comes of a request: what is said, with what is left in the place of what was asked; or
something was asked that was spent; or there was too little fuel. -/
inductive Step (σ α : Type) where
  | said (what : Said α) (left : σ) (c : Context)
  | repeated
  | starved

/-- Goes on when something was said. -/
def Step.andThen (step : Step σ α) (next : Said α → σ → Context → Step τ β) : Step τ β :=
  match step with
  | .said what left c => next what left c
  | .repeated         => .repeated
  | .starved          => .starved

/-- A stream says something; it is spent after its last word. -/
def Stream.tells (what : Said Outcome) (left : Stream) (c : Context) : Step Stream Outcome :=
  match what with
  | .yield outcome  => .said (.yield outcome) left c
  | .finished       => .said .finished (.spent left) c
  | .failed failure => .said (.failed failure) (.spent left) c

/-- An odometer says something; it is spent after its last word. -/
def Odometer.tells (what : Said (List Value)) (left : Odometer) (c : Context) :
    Step Odometer (List Value) :=
  match what with
  | .yield values   => .said (.yield values) left c
  | .finished       => .said .finished (.spent left) c
  | .failed failure => .said (.failed failure) (.spent left) c

/-! ### Pulling -/

mutual

/-- The next outcome of a stream, and the stream as it is left. -/
def Stream.pull : Nat → Stream → Context → Step Stream Outcome
  | 0, _, _ => .starved
  | _ + 1, .spent _, _ => .repeated
  | _ + 1, .empty, c => Stream.tells .finished .empty c
  | _ + 1, .once outcome, c => Stream.tells (.yield outcome) .empty c
  | _ + 1, .deferred what, c =>
    match what.run.on c with
    | (.ok outcome, c)    => Stream.tells (.yield outcome) .empty c
    | (.error failure, c) => Stream.tells (.failed failure) (.deferred what) c
  | fuel + 1, .node n, c =>
    Stream.pull fuel (.nested n.span (Nondet.Stream.build n).tracked) c
  | fuel + 1, .nested span inner, c =>
    match (Action.enterNested span).on c with
    | (.error failure, c) => Stream.tells (.failed failure) (.nested span inner) c
    | (.ok (), c) =>
      (Stream.pull fuel inner c).andThen fun what inner c =>
        Stream.tells what (.nested span inner) c.leaveNested
  | fuel + 1, .map inner f, c =>
    (Stream.pull fuel inner c).andThen fun
      | .yield outcome, inner, c =>
        match (f.run outcome).on c with
        | (.ok outcome, c)    => Stream.tells (.yield outcome) (.map inner f) c
        | (.error failure, c) => Stream.tells (.failed failure) (.map inner f) c
      | .finished, inner, c       => Stream.tells .finished (.map inner f) c
      | .failed failure, inner, c => Stream.tells (.failed failure) (.map inner f) c
  | fuel + 1, .flatMap outer next, c =>
    (Stream.pull fuel outer c).andThen fun
      | .yield outcome, outer, c =>
        match (next.run outcome).on c with
        | (.ok inner, c)      => Stream.pull fuel (.append inner.tracked (.flatMap outer next)) c
        | (.error failure, c) => Stream.tells (.failed failure) (.flatMap outer next) c
      | .finished, outer, c       => Stream.tells .finished (.flatMap outer next) c
      | .failed failure, outer, c => Stream.tells (.failed failure) (.flatMap outer next) c
  | fuel + 1, .append first second, c =>
    (Stream.pull fuel first c).andThen fun
      | .yield outcome, first, c  => Stream.tells (.yield outcome) (.append first second) c
      | .finished, _, c           => Stream.pull fuel second c
      | .failed failure, first, c => Stream.tells (.failed failure) (.append first second) c
  | fuel + 1, .calls span callee arguments, c =>
    (Odometer.pull fuel arguments c).andThen fun
      | .yield values, arguments, c =>
        Stream.pull fuel
          (.append (apply callee values span none).tracked (.calls span callee arguments)) c
      | .finished, arguments, c       => Stream.tells .finished (.calls span callee arguments) c
      | .failed failure, arguments, c =>
        Stream.tells (.failed failure) (.calls span callee arguments) c
  | _ + 1, .amb [], c => Stream.tells .finished (.amb []) c
  | fuel + 1, .amb (n :: later), c =>
    Stream.pull fuel (.choice c.snapshot (evaluate n).tracked later) c
  | fuel + 1, .choice snapshot current later, c =>
    (Stream.pull fuel current c).andThen fun
      | .yield outcome, current, c =>
        Stream.tells (.yield outcome) (.choice snapshot current later) c
      | .finished, _, c =>
        match later with
        | []         => Stream.tells .finished (.amb []) (c.restore snapshot)
        | n :: later =>
          Stream.pull fuel (.choice snapshot (evaluate n).tracked later) (c.restore snapshot)
      | .failed failure, current, c =>
        Stream.tells (.failed failure) (.choice snapshot current later) c
  | fuel + 1, .block statements, c =>
    Stream.pull fuel (.framed c.frames.next (.body statements))
      (c.addFrame (.child "block" c.current))
  | fuel + 1, .program statements, c => Stream.pull fuel (.body statements) c.enterProgram
  | fuel + 1, .body statements, c =>
    match (Action.hoist statements).on c with
    | (.ok (), c)         => Stream.pull fuel (Nondet.Stream.ofStatements statements).tracked c
    | (.error failure, c) => Stream.tells (.failed failure) (.body statements) c
  | _ + 1, .sequence .none, c => Stream.tells .finished (.sequence .none) c
  | fuel + 1, .sequence (.push current later earlier), c =>
    (Stream.pull fuel current c).andThen fun
      | .yield (.returned v), current, c =>
        Stream.tells (.yield (.returned v)) (.sequence (.push current later earlier)) c
      | .yield .cut, _, c =>
        match later with
        | []         => Stream.tells (.yield .cut) .empty c
        | n :: later => Stream.pull fuel (.sequence (.push (evaluate n).tracked later .none)) c
      | .yield (.value v), current, c =>
        match later with
        | []          => Stream.tells (.yield (.value v)) (.sequence (.push current later earlier)) c
        | n :: later' =>
          Stream.pull fuel
            (.sequence (.push (evaluate n).tracked later' (.push current later earlier))) c
      | .finished, _, c             => Stream.pull fuel (.sequence earlier) c
      | .failed failure, current, c =>
        Stream.tells (.failed failure) (.sequence (.push current later earlier)) c
  | fuel + 1, .framed frame inner, c =>
    (Stream.pull fuel inner (c.push frame)).andThen fun
      | .yield outcome, inner, c  => Stream.tells (.yield outcome) (.framed frame inner) c.pop
      | .finished, inner, c       => Stream.tells .finished (.framed frame inner) c.pop
      | .failed failure, inner, c => Stream.tells (.failed failure) (.framed frame inner) c
  | fuel + 1, .call span closure arguments this, c =>
    match (Action.enterCall span closure arguments this).on c with
    | (.ok frame, c)      =>
      Stream.pull fuel (.activation frame (.body closure.function.statements)) c
    | (.error failure, c) => Stream.tells (.failed failure) (.call span closure arguments this) c
  | fuel + 1, .activation frame inner, c =>
    (Stream.pull fuel inner (c.push frame)).andThen fun
      | .yield outcome, inner, c  =>
        Stream.tells (.yield outcome.ofBody) (.activation frame inner) c.pop
      | .finished, inner, c       => Stream.tells .finished (.activation frame inner) c.pop
      | .failed failure, inner, c => Stream.tells (.failed failure) (.activation frame inner) c

/-- The next list of arguments, and the odometer as it is left. -/
def Odometer.pull : Nat → Odometer → Context → Step Odometer (List Value)
  | 0, _, _ => .starved
  | _ + 1, .spent _, _ => .repeated
  | _ + 1, .start [], c => Odometer.tells (.yield []) (.turning .none []) c
  | fuel + 1, .start (n :: later), c =>
    Odometer.pull fuel (.turning (.push (evaluate n).tracked n.span later .none) []) c
  | _ + 1, .turning .none values, c => Odometer.tells .finished (.turning .none values) c
  | fuel + 1, .turning (.push current span later earlier) values, c =>
    (Stream.pull fuel current c).andThen fun
      | .yield outcome, current, c =>
        match (Action.operand span "call argument" outcome).on c with
        | (.ok v, c) =>
          match later with
          | []        =>
            Odometer.tells (.yield (v :: values).reverse)
              (.turning (.push current span later earlier) values) c
          | n :: next =>
            Odometer.pull fuel
              (.turning (.push (evaluate n).tracked n.span next
                (.push current span later earlier)) (v :: values)) c
        | (.error failure, c) =>
          Odometer.tells (.failed failure) (.turning (.push current span later earlier) values) c
      | .finished, _, c             => Odometer.pull fuel (.turning earlier values.tail) c
      | .failed failure, current, c =>
        Odometer.tells (.failed failure) (.turning (.push current span later earlier) values) c

end

/-! ### Drivers -/

/-- One request of a driver: the context in which it asks, with so much fuel. -/
structure Request where
  fuel : Nat
  context : Context

/-- What may be asked next. -/
def Step.rest? : Step σ α → Option σ
  | .said (.yield _) left _ => some left
  | _                       => none

/-- The requests of a driver one after the other, until the stream says its last. -/
def Stream.drive : List Request → Stream → List (Step Stream Outcome)
  | [], _ => []
  | r :: later, s =>
    let step := s.pull r.fuel r.context
    step :: (step.rest?.map (drive later)).getD []

end Nondet.Tracked

namespace Nondet

/-- What may be asked next. -/
def Step.rest? {σ α : Type} : Step σ α → Option σ
  | .yield _ rest _ => some rest
  | _               => none

/-- The requests of a driver one after the other, until the stream says its last. -/
def Stream.drive : List Tracked.Request → Stream → List (Step Stream Outcome)
  | [], _ => []
  | r :: later, s =>
    let step := s.pull r.fuel r.context
    step :: (step.rest?.map (drive later)).getD []

end Nondet
