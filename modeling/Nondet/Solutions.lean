import Nondet.Stream.Pull

/-!
# Solutions

The solutions of a node, one after the other: its outcomes as values.  The first failure is the last
answer; after it, as after the last solution, there are no more, however often one asks.
-/

namespace Nondet

/-- The answer to one request for a solution. -/
inductive Answer where
  | value (v : Value)
  | failure (f : Failure)
  | none
  deriving Inhabited

/-- Solutions that are still to come; none when the stream is gone. -/
structure Solutions where
  stream : Option Stream
  deriving Inhabited

namespace Solutions

/-- All solutions of a node. -/
def of (n : Node) : Solutions := ⟨some (evaluate n)⟩

/-- The next solution, what is to come after it, and the context; nothing when the fuel does not
suffice. -/
def next (fuel : Nat) (s : Solutions) (c : Context) : Option (Answer × Solutions × Context) :=
  match s.stream with
  | none        => some (.none, s, c)
  | some stream =>
    match stream.pull fuel c with
    | .yield outcome rest c => some (.value outcome.toValue, ⟨some rest⟩, c)
    | .finished c           => some (.none, ⟨none⟩, c)
    | .failed failure c     => some (.failure failure, ⟨none⟩, c)
    | .starved              => none

/-- At most `count` solutions in order, or the failure among them. -/
def take (fuel : Nat) (taken : List Value) :
    Nat → Solutions → Context → Option (Except Failure (List Value) × Context)
  | 0,         _, c => some (.ok taken.reverse, c)
  | count + 1, s, c =>
    match s.next fuel c with
    | none                      => none
    | some (.none, _, c)        => some (.ok taken.reverse, c)
    | some (.failure f, _, c)   => some (.error f, c)
    | some (.value v, s, c)     => take fuel (v :: taken) count s c

end Solutions

/-- More fuel than any evaluation uses up that comes to an end in practice. -/
def ampleFuel : Nat := 1 <<< 62

end Nondet
