import Nondet.Stream

/-!
# Stream — Pull

Asking a stream for its next outcome.  `Stream.pull` runs as much of the evaluation as one outcome
takes; what is left comes back as a stream, unless the stream has ended or failed.  Both ask for
fuel, one unit for each stream visited; an answer that is given does not depend on how much fuel
there was, and `starved` says that there was too little.
-/

namespace Nondet

/-- What comes of asking for the next item. -/
inductive Step (σ α : Type) where
  | yield (item : α) (rest : σ) (c : Context)
  | finished (c : Context)
  | failed (failure : Failure) (c : Context)
  | starved

mutual

/-- The next outcome of a stream. -/
def Stream.pull : Nat → Stream → Context → Step Stream Outcome
  | 0, _, _ => .starved
  | _ + 1, .empty, c => .finished c
  | _ + 1, .once outcome, c => .yield outcome .empty c
  | _ + 1, .deferred what, c =>
    match what.run.on c with
    | (.ok outcome, c)    => .yield outcome .empty c
    | (.error failure, c) => .failed failure c
  | fuel + 1, .node n, c => Stream.pull fuel (.nested n.span (.build n)) c
  | fuel + 1, .nested span inner, c =>
    match (Action.enterNested span).on c with
    | (.error failure, c) => .failed failure c
    | (.ok (), c) =>
      match Stream.pull fuel inner c with
      | .yield outcome inner c => .yield outcome (.nested span inner) c.leaveNested
      | .finished c            => .finished c.leaveNested
      | .failed failure c      => .failed failure c.leaveNested
      | .starved               => .starved
  | fuel + 1, .map inner f, c =>
    match Stream.pull fuel inner c with
    | .yield outcome inner c =>
      match (f.run outcome).on c with
      | (.ok outcome, c)    => .yield outcome (.map inner f) c
      | (.error failure, c) => .failed failure c
    | .finished c       => .finished c
    | .failed failure c => .failed failure c
    | .starved          => .starved
  | fuel + 1, .flatMap outer next, c =>
    match Stream.pull fuel outer c with
    | .yield outcome outer c =>
      match (next.run outcome).on c with
      | (.ok inner, c)      => Stream.pull fuel (.append inner (.flatMap outer next)) c
      | (.error failure, c) => .failed failure c
    | .finished c       => .finished c
    | .failed failure c => .failed failure c
    | .starved          => .starved
  | fuel + 1, .append first second, c =>
    match Stream.pull fuel first c with
    | .yield outcome first c => .yield outcome (.append first second) c
    | .finished c            => Stream.pull fuel second c
    | .failed failure c      => .failed failure c
    | .starved               => .starved
  | fuel + 1, .calls span callee arguments, c =>
    match Odometer.pull fuel arguments c with
    | .yield values arguments c =>
      Stream.pull fuel (.append (apply callee values span none) (.calls span callee arguments)) c
    | .finished c       => .finished c
    | .failed failure c => .failed failure c
    | .starved          => .starved
  | _ + 1, .amb [], c => .finished c
  | fuel + 1, .amb (n :: later), c => Stream.pull fuel (.choice c.snapshot (evaluate n) later) c
  | fuel + 1, .choice snapshot current later, c =>
    match Stream.pull fuel current c with
    | .yield outcome current c => .yield outcome (.choice snapshot current later) c
    | .finished c =>
      let c := c.restore snapshot
      match later with
      | []         => .finished c
      | n :: later => Stream.pull fuel (.choice snapshot (evaluate n) later) c
    | .failed failure c => .failed failure c
    | .starved          => .starved
  | fuel + 1, .block statements, c =>
    let frame := c.frames.next
    let c := c.addFrame (.child "block" c.current)
    Stream.pull fuel (.framed frame (.body statements)) c
  | fuel + 1, .program statements, c => Stream.pull fuel (.body statements) c.enterProgram
  | fuel + 1, .body statements, c =>
    match (Action.hoist statements).on c with
    | (.ok (), c)         => Stream.pull fuel (.ofStatements statements) c
    | (.error failure, c) => .failed failure c
  | _ + 1, .sequence .none, c => .finished c
  | fuel + 1, .sequence (.push current later earlier), c =>
    match Stream.pull fuel current c with
    | .yield (.returned v) current c =>
      .yield (.returned v) (.sequence (.push current later earlier)) c
    | .yield .cut _ c =>
      match later with
      | []     => .yield .cut .empty c
      | _ :: _ => Stream.pull fuel (.sequence (.begin later .none)) c
    | .yield (.value v) current c =>
      match later with
      | []     => .yield (.value v) (.sequence (.push current later earlier)) c
      | _ :: _ => Stream.pull fuel (.sequence (.begin later (.push current later earlier))) c
    | .finished c       => Stream.pull fuel (.sequence earlier) c
    | .failed failure c => .failed failure c
    | .starved          => .starved
  | fuel + 1, .framed frame inner, c =>
    match Stream.pull fuel inner (c.push frame) with
    | .yield outcome inner c => .yield outcome (.framed frame inner) c.pop
    | .finished c            => .finished c.pop
    | .failed failure c      => .failed failure c
    | .starved               => .starved
  | fuel + 1, .call span closure arguments this, c =>
    match (Action.enterCall span closure arguments this).on c with
    | (.ok frame, c) =>
      Stream.pull fuel (.activation frame (.body closure.function.statements)) c
    | (.error failure, c) => .failed failure c
  | fuel + 1, .activation frame inner, c =>
    match Stream.pull fuel inner (c.push frame) with
    | .yield outcome inner c => .yield outcome.ofBody (.activation frame inner) c.pop
    | .finished c            => .finished c.pop
    | .failed failure c      => .failed failure c
    | .starved               => .starved

/-- The next list of arguments.  When an argument gives a value, the one after it is begun afresh;
when an argument has no more values, the one before it goes on. -/
def Odometer.pull : Nat → Odometer → Context → Step Odometer (List Value)
  | 0, _, _ => .starved
  | _ + 1, .start [], c => .yield [] (.turning .none []) c
  | fuel + 1, .start (n :: later), c =>
    Odometer.pull fuel (.turning (.push (evaluate n) n.span later .none) []) c
  | _ + 1, .turning .none _, c => .finished c
  | fuel + 1, .turning (.push current span later earlier) values, c =>
    match Stream.pull fuel current c with
    | .yield outcome current c =>
      match (Action.operand span "call argument" outcome).on c with
      | (.ok v, c) =>
        match later with
        | [] =>
          .yield (v :: values).reverse (.turning (.push current span later earlier) values) c
        | n :: next =>
          Odometer.pull fuel
            (.turning (.push (evaluate n) n.span next (.push current span later earlier))
              (v :: values)) c
      | (.error failure, c) => .failed failure c
    | .finished c       => Odometer.pull fuel (.turning earlier values.tail) c
    | .failed failure c => .failed failure c
    | .starved          => .starved

end

end Nondet
