import Std.Data.TreeSet.Basic
import Nondet.Context

/-!
# Context — Snapshot

What a choice point remembers.  A snapshot holds the bindings of every frame that can be reached
from the stack or from the global frame, through parents and through closures that frames hold; a
frame keeps its identity when its bindings are put back.  `Reach` finds those frames: each enters
the waiting list once, so there are no more rounds than frames.
-/

namespace Nondet

/-- Frames that were found, and those of them that wait: their neighbours are still to be found. -/
structure Reach where
  found : Std.TreeSet FrameId
  waiting : List FrameId
  deriving Inhabited

namespace Reach

/-- Nothing was found yet. -/
def none : Reach := ⟨∅, []⟩

/-- A frame waits unless it was found before. -/
def add (r : Reach) (i : FrameId) : Reach :=
  if i ∈ r.found then r else ⟨r.found.insert i, i :: r.waiting⟩

/-- Each of some frames waits unless it was found before. -/
def addAll (r : Reach) (is : List FrameId) : Reach := is.foldl add r

/-- Visits waiting frames, at most `fuel` of them, and gives all that were found. -/
def run (frames : Frames) : Nat → Reach → List FrameId
  | 0,        r => r.found.toList
  | fuel + 1, r =>
    match r.waiting with
    | []           => r.found.toList
    | i :: waiting =>
      run frames fuel (addAll ⟨r.found, waiting⟩ (((frames.get? i).map Frame.neighbours).getD []))

end Reach

/-- Every frame that can be reached from some frames. -/
def Frames.reachable (frames : Frames) (roots : List FrameId) : List FrameId :=
  Reach.run frames (frames.all.size + roots.length) (Reach.none.addAll roots)

/-- What a choice point remembers of a context. -/
structure Snapshot where
  stack : List FrameId
  bindings : List (FrameId × Bindings)
  /-- How many failures there were. -/
  failures : Nat
  outer : Nat
  deriving Inhabited

namespace Context

/-- What has to be remembered to come back to a context. -/
def snapshot (c : Context) : Snapshot :=
  { stack := c.stack
    bindings := (c.frames.reachable (c.global :: c.stack)).map fun i => (i, c.frames.bindings i)
    failures := c.failures.length
    outer := c.outer }

/-- Puts everything back that a snapshot remembers.  Frames and closures that were created since
stay, and so does the count of nested evaluations. -/
def restore (c : Context) (s : Snapshot) : Context :=
  { c with
    frames := s.bindings.foldl (fun frames p => frames.setBindings p.1 p.2) c.frames
    stack := s.stack
    failures := c.failures.take s.failures
    outer := s.outer }

end Context

end Nondet
