import Nondet.Proofs.Context.Action

/-!
# Context — Level

How many nodes are being evaluated inside one another, and under which limits.  Only entering a node
and leaving it change the level; whatever else is done to a context stays at it.
-/

namespace Nondet

/-- The context has these limits, and so many nodes are being evaluated. -/
structure Context.At (l : Limits) (k : Nat) (c : Context) : Prop where
  limits : c.limits = l
  nesting : c.nesting = k

namespace Context.At

variable {l : Limits} {k : Nat} {c c' : Context}

theorem alike (h : c.At l k) (h' : c.Alike c') : c'.At l k :=
  ⟨h'.limits.trans h.limits, h'.nesting.trans h.nesting⟩

theorem raised (h : c.At l k) (failure : Failure) : (c.raised failure).At l k := ⟨h.1, h.2⟩

theorem restore (h : c.At l k) (s : Snapshot) : (c.restore s).At l k := ⟨h.1, h.2⟩

theorem push (h : c.At l k) (frame : FrameId) : (c.push frame).At l k := ⟨h.1, h.2⟩

theorem pop (h : c.At l k) : c.pop.At l k := ⟨h.1, h.2⟩

theorem addFrame (h : c.At l k) (frame : Frame) : (c.addFrame frame).At l k := ⟨h.1, h.2⟩

theorem enterProgram (h : c.At l k) : c.enterProgram.At l k := ⟨h.1, h.2⟩

/-- One node deeper. -/
theorem deeper (h : c.At l k) : Context.At l (k + 1) { c with nesting := c.nesting + 1 } :=
  ⟨h.1, by rw [h.2]⟩

theorem leaveNested (h : c.At l (k + 1)) : c.leaveNested.At l k :=
  ⟨h.1, by rw [Context.leaveNested, h.2]; rfl⟩

/-- A steady action stays at its level. -/
theorem leaves {α : Type} (h : c.At l k) {result : Except Failure α × Context}
    (hr : Action.Leaves c result) : result.2.At l k := by
  rcases result with ⟨failure | _, c'⟩
  · exact (h.raised failure).alike hr
  · exact h.alike hr

/-- Entering a call stays at its level. -/
theorem enterCall (h : c.At l k) (span : Span) (closure : Closure) (arguments : List Value)
    (this : Option Value) : ((Action.enterCall span closure arguments this).on c).2.At l k := by
  rw [Action.on_enterCall]
  split
  · exact h.raised _
  · simp only
    split
    -- The frame is there even if the stack has no place for it.
    · exact ((h.addFrame _).push _).raised _
    · exact h.addFrame _

end Context.At

end Nondet
