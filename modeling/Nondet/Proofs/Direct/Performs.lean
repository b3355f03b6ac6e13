import Nondet.Proofs.Direct
import Nondet.Proofs.Pull.Fits
import Nondet.Proofs.Termination

/-!
# Direct — Performs

What a stream does that has one outcome.  The result of an action is a value or a failure, and a
context; `s.Performs l k c result` says that the stream `s`, asked in the context `c`, ends up with
the same: it gives the one outcome and leaves a rest that is spent, or it fails.  A spent stream
answers that there is nothing more and leaves every context as it is, though it still visits all
that it was made of: frames are put on the stack and taken off again, nodes are entered and left,
and statements that had their outcome are asked once more.

A stream around a stream performs what is done first inside and then with the outcome, so each
performs what the corresponding action in direct style does.
-/

namespace Nondet

open Nondet.Action

/-! ### Streams that are spent -/

variable {l : Limits} {k : Nat}

/-- The stream has no more outcomes, and it changes nothing to say so. -/
def Stream.Spent (l : Limits) (k : Nat) (s : Stream) : Prop :=
  ∀ c, c.At l k → s.Gives c (.finished c)

/-- The odometer has no more lists of arguments, and it changes nothing to say so. -/
def Odometer.Spent (l : Limits) (k : Nat) (o : Odometer) : Prop :=
  ∀ c, c.At l k → o.Gives c (.finished c)

namespace Stream.Spent

theorem empty : Stream.Spent l k .empty := fun _ _ => Stream.gives_iff.mpr rfl

theorem nested {inner : Stream} (h : inner.Spent l (k + 1)) (hk : k < l.maxNesting) (span : Span) :
    (Stream.nested span inner).Spent l k := fun c hc => by
  have below : c.nesting < c.limits.maxNesting := by rwa [hc.limits, hc.nesting]
  exact (Stream.gives_nested below).mpr ⟨_, h c.enterNested hc.deeper, rfl⟩

theorem map {inner : Stream} (h : inner.Spent l k) (f : Transform) : (Stream.map inner f).Spent l k :=
  fun c hc => Stream.gives_iff.mpr ⟨_, h c hc, rfl⟩

theorem flatMap {outer : Stream} (h : outer.Spent l k) (next : Continuation) :
    (Stream.flatMap outer next).Spent l k := fun c hc => Stream.gives_iff.mpr ⟨_, h c hc, rfl⟩

theorem append {first second : Stream} (h : first.Spent l k) (h' : second.Spent l k) :
    (Stream.append first second).Spent l k :=
  fun c hc => Stream.gives_iff.mpr ⟨_, h c hc, Move.leads_asked.mpr (h' c hc)⟩

theorem calls {o : Odometer} (h : o.Spent l k) (span : Span) (callee : Value) :
    (Stream.calls span callee o).Spent l k := fun c hc => Stream.gives_iff.mpr ⟨_, h c hc, rfl⟩

theorem noStatements : (Stream.sequence .none).Spent l k := fun _ _ => Stream.gives_iff.mpr rfl

theorem sequence {current : Stream} {earlier : OpenStatements} (h : current.Spent l k)
    (he : (Stream.sequence earlier).Spent l k) (later : List Node) :
    (Stream.sequence (.push current later earlier)).Spent l k :=
  fun c hc => Stream.gives_iff.mpr ⟨_, h c hc, Move.leads_asked.mpr (he c hc)⟩

theorem framed {inner : Stream} (h : inner.Spent l k) (frame : FrameId) :
    (Stream.framed frame inner).Spent l k :=
  fun c hc => Stream.gives_iff.mpr ⟨_, h (c.push frame) (hc.push frame), rfl⟩

theorem activation {inner : Stream} (h : inner.Spent l k) (frame : FrameId) :
    (Stream.activation frame inner).Spent l k :=
  fun c hc => Stream.gives_iff.mpr ⟨_, h (c.push frame) (hc.push frame), rfl⟩

end Stream.Spent

namespace Odometer.Spent

theorem noArguments (values : List Value) : (Odometer.turning .none values).Spent l k :=
  fun _ _ => Odometer.gives_iff.mpr rfl

theorem turning {current : Stream} {earlier : OpenArguments} (h : current.Spent l k)
    (he : ∀ values, (Odometer.turning earlier values).Spent l k) (span : Span) (later : List Node)
    (values : List Value) : (Odometer.turning (.push current span later earlier) values).Spent l k :=
  fun c hc => Odometer.gives_iff.mpr ⟨_, h c hc, Move.leads_odometer_asked.mpr (he _ c hc)⟩

end Odometer.Spent

/-! ### Performing an action -/

section

variable {σ α : Type} {c : Context} {result : Except Failure α × Context}

/-- The move does what led to the result: it gives the one item and leaves what is spent, or it
fails. -/
def Move.Performs (spent : σ → Prop) (m : Move σ α) : Except Failure α × Context → Prop
  | (.ok item, c)       => ∃ rest, m.Leads (.yield item rest c) ∧ spent rest
  | (.error failure, c) => m.Leads (.failed failure c)

/-- Asked in the context, the stream does what led to the result. -/
def Stream.Performs (l : Limits) (k : Nat) (s : Stream) (c : Context)
    (result : Except Failure Outcome × Context) : Prop :=
  (s.move c).Performs (Stream.Spent l k) result

/-- Asked in the context, the odometer does what led to the result. -/
def Odometer.Performs (l : Limits) (k : Nat) (o : Odometer) (c : Context)
    (result : Except Failure (List Value) × Context) : Prop :=
  (o.move c).Performs (Odometer.Spent l k) result

/-- The action finds the stream that does what led to the result, or fails in the same way. -/
def Action.Launches (l : Limits) (k : Nat) (start : Action Stream) (c : Context)
    (result : Except Failure Outcome × Context) : Prop :=
  match start.on c with
  | (.ok s, c')          => s.Performs l k c' result
  | (.error failure, c') => result = (.error failure, c')

namespace Move.Performs

variable {spent : σ → Prop}

theorem yields {item : α} {rest : σ} (h : spent rest) :
    (Move.answer (.yield item rest c)).Performs spent (.ok item, c) := ⟨rest, rfl, h⟩

theorem fails (failure : Failure) :
    (Move.answer (.failed failure c) : Move σ α).Performs spent (.error failure, c) := rfl

/-- The result of an action is done by the reply that is made of it. -/
theorem ofResult {rest : σ} (h : spent rest) :
    (Move.answer (.ofResult rest result)).Performs spent result := by
  rcases result with ⟨failure | item, c⟩
  · exact fails failure
  · exact yields h

theorem afterStream {s : Stream} {r : Reply Stream Outcome} (hr : s.Gives c r)
    {next : Reply Stream Outcome → Move σ α} (h : (next r).Performs spent result) :
    (Move.stream s c next).Performs spent result := by
  rcases result with ⟨failure | item, c'⟩
  · exact ⟨r, hr, h⟩
  · obtain ⟨rest, hl, hs⟩ := h
    exact ⟨rest, ⟨r, hr, hl⟩, hs⟩

theorem afterOdometer {o : Odometer} {r : Reply Odometer (List Value)} (hr : o.Gives c r)
    {next : Reply Odometer (List Value) → Move σ α} (h : (next r).Performs spent result) :
    (Move.odometer o c next).Performs spent result := by
  rcases result with ⟨failure | item, c'⟩
  · exact ⟨r, hr, h⟩
  · obtain ⟨rest, hl, hs⟩ := h
    exact ⟨rest, ⟨r, hr, hl⟩, hs⟩

end Move.Performs

end

namespace Odometer.Performs

variable {c c' : Context} {o : Odometer}

theorem gives_ok {values : List Value} (h : o.Performs l k c (.ok values, c')) :
    ∃ rest, o.Gives c (.yield values rest c') ∧ rest.Spent l k := by
  obtain ⟨rest, hl, hs⟩ := h
  exact ⟨rest, Odometer.gives_iff.mpr hl, hs⟩

theorem gives_error {failure : Failure} (h : o.Performs l k c (.error failure, c')) :
    o.Gives c (.failed failure c') := Odometer.gives_iff.mpr h

/-- Asking an odometer, for its answer. -/
theorem asked {result : Except Failure (List Value) × Context} (h : o.Performs l k c result) :
    (Move.odometer o c .answer).Performs (Odometer.Spent l k) result := by
  rcases result with ⟨failure | values, c'⟩
  · exact Move.leads_odometer_asked.mpr h.gives_error
  · obtain ⟨rest, hg, hs⟩ := h.gives_ok
    exact ⟨rest, Move.leads_odometer_asked.mpr hg, hs⟩

end Odometer.Performs

namespace Stream.Performs

variable {c c' : Context} {result : Except Failure Outcome × Context}

theorem gives_ok {s : Stream} {outcome : Outcome} (h : s.Performs l k c (.ok outcome, c')) :
    ∃ rest, s.Gives c (.yield outcome rest c') ∧ rest.Spent l k := by
  obtain ⟨rest, hl, hs⟩ := h
  exact ⟨rest, Stream.gives_iff.mpr hl, hs⟩

theorem gives_error {s : Stream} {failure : Failure} (h : s.Performs l k c (.error failure, c')) :
    s.Gives c (.failed failure c') := Stream.gives_iff.mpr h

/-- Asking a stream, for its answer. -/
theorem asked {s : Stream} (h : s.Performs l k c result) :
    (Move.stream s c .answer).Performs (Stream.Spent l k) result := by
  rcases result with ⟨failure | outcome, c'⟩
  · exact Move.leads_asked.mpr h.gives_error
  · obtain ⟨rest, hg, hs⟩ := h.gives_ok
    exact ⟨rest, Move.leads_asked.mpr hg, hs⟩

theorem once (outcome : Outcome) : (Stream.once outcome).Performs l k c (.ok outcome, c) :=
  .yields .empty

theorem deferred (what : Deferred) : (Stream.deferred what).Performs l k c (what.run.on c) :=
  .ofResult .empty

theorem map {inner : Stream} {a : Action Outcome} (h : inner.Performs l k c (a.on c))
    (f : Transform) : (Stream.map inner f).Performs l k c ((a >>= f.run).on c) := by
  rw [on_bind]
  rcases ha : a.on c with ⟨failure | outcome, c'⟩ <;> rw [ha] at h
  · exact .afterStream h.gives_error (.fails failure)
  · obtain ⟨rest, hg, hs⟩ := h.gives_ok
    exact .afterStream hg (.ofResult (hs.map f))

theorem append {first second : Stream} (h : first.Performs l k c result)
    (hs : second.Spent l k) : (Stream.append first second).Performs l k c result := by
  rcases result with ⟨failure | outcome, c'⟩
  · exact .afterStream h.gives_error (.fails failure)
  · obtain ⟨rest, hg, hr⟩ := h.gives_ok
    exact .afterStream hg (.yields (hr.append hs))

theorem flatMap {outer : Stream} {a : Action Outcome} {f : Outcome → Action Outcome}
    {next : Continuation} (h : outer.Performs l k c (a.on c))
    (hn : ∀ outcome rest c', outer.Gives c (.yield outcome rest c') →
      (next.run outcome).Launches l k c' ((f outcome).on c')) :
    (Stream.flatMap outer next).Performs l k c ((a >>= f).on c) := by
  rw [on_bind]
  rcases ha : a.on c with ⟨failure | outcome, c'⟩ <;> rw [ha] at h
  · exact .afterStream h.gives_error (.fails failure)
  obtain ⟨rest, hg, hs⟩ := h.gives_ok
  have hn := hn outcome rest c' hg
  refine .afterStream hg ?_
  rw [Launches] at hn
  rcases hr : (next.run outcome).on c' with ⟨failure | inner, c''⟩ <;> rw [hr] at hn
  · simp only [hr, hn]
    exact .fails failure
  · simp only [hr]
    exact (hn.append (hs.flatMap next)).asked

theorem framed {inner : Stream} {frame : FrameId} {a : Action Outcome}
    (h : inner.Performs l k (c.push frame) (a.on (c.push frame))) :
    (Stream.framed frame inner).Performs l k c ((Direct.within frame a).on c) := by
  simp only [Direct.within, on_bind, on_modify, on_pure]
  rcases ha : a.on (c.push frame) with ⟨failure | outcome, c'⟩ <;> rw [ha] at h
  · exact .afterStream h.gives_error (.fails failure)
  · obtain ⟨rest, hg, hs⟩ := h.gives_ok
    exact .afterStream hg (.yields (hs.framed frame))

theorem activation {inner : Stream} {frame : FrameId} {a : Action Outcome}
    (h : inner.Performs l k (c.push frame) (a.on (c.push frame))) :
    (Stream.activation frame inner).Performs l k c
      ((Direct.within frame a >>= fun outcome => pure outcome.ofBody).on c) := by
  simp only [Direct.within, on_bind, on_modify, on_pure]
  rcases ha : a.on (c.push frame) with ⟨failure | outcome, c'⟩ <;> rw [ha] at h
  · exact .afterStream h.gives_error (.fails failure)
  · obtain ⟨rest, hg, hs⟩ := h.gives_ok
    exact .afterStream hg (.yields (hs.activation frame))

end Stream.Performs

namespace Action.Launches

variable {α : Type} {c : Context}

theorem pure {s : Stream} {result : Except Failure Outcome × Context} (h : s.Performs l k c result) :
    (pure s : Action Stream).Launches l k c result := h

theorem bind {a : Action α} {start : α → Action Stream} {f : α → Action Outcome}
    (h : ∀ x c', a.on c = (.ok x, c') → (start x).Launches l k c' ((f x).on c')) :
    (a >>= start).Launches l k c ((a >>= f).on c) := by
  rw [Launches, on_bind, on_bind]
  rcases ha : a.on c with ⟨failure | x, c'⟩
  · rfl
  · exact h x c' ha

end Action.Launches

/-! ### What a stream meets -/

variable {R : Regime} {c c' : Context}

/-- What a stream is asked in: a context at the level that keeps to the regime. -/
structure Context.Keeps (R : Regime) (l : Limits) (k : Nat) (c : Context) : Prop where
  level : c.At l k
  fits : c.Fits R

namespace Context.Keeps

theorem push (h : c.Keeps R l k) {frame : FrameId} (hf : R.frame c.frames.next frame) :
    (c.push frame).Keeps R l k := ⟨h.level.push frame, h.fits.push hf⟩

/-- After an outcome the context is as before, and the outcome fits. -/
theorem afterStream (h : c.Keeps R l k) {s : Stream} (hs : s.Fits R c.frames.next)
    {outcome : Outcome} {rest : Stream} (hg : s.Gives c (.yield outcome rest c')) :
    c'.Keeps R l k ∧ c.frames.next ≤ c'.frames.next ∧ outcome.Fits R c'.frames.next := by
  obtain ⟨hc', hle, hy⟩ := R.kept.gives ⟨h.fits, hs⟩ hg
  obtain ⟨r, hr, hd⟩ := (s.drains k).reply h.level
  cases hr.unique hg
  exact ⟨⟨hd.1, hc'⟩, hle, (hy _ _ _ rfl).1⟩

/-- After a list of arguments the context is as before, and the arguments fit. -/
theorem afterOdometer (h : c.Keeps R l k) {o : Odometer} (ho : o.Fits R c.frames.next)
    {values : List Value} {rest : Odometer} (hg : o.Gives c (.yield values rest c')) :
    c'.Keeps R l k ∧ c.frames.next ≤ c'.frames.next ∧ Values.Fits R c'.frames.next values := by
  obtain ⟨hc', hle, hy⟩ := R.kept.odometer_gives ⟨h.fits, ho⟩ hg
  obtain ⟨r, hr, hd⟩ := (o.drains k).reply h.level
  cases hr.unique hg
  exact ⟨⟨hd.1, hc'⟩, hle, (hy _ _ _ rfl).1⟩

end Context.Keeps

/-- A node that has an outcome was entered. -/
theorem Context.At.lt_of_gives_yield (h : c.At l k) {n : Node} {outcome : Outcome} {rest : Stream}
    (hg : (evaluate n).Gives c (.yield outcome rest c')) : k < l.maxNesting := by
  by_contra hk
  have full : c.limits.maxNesting ≤ c.nesting := by
    rw [h.limits, h.nesting]
    exact Nat.le_of_not_lt hk
  have refused := Stream.gives_iff.mp (Stream.gives_node.mp hg)
  rw [Stream.move_nested_full full] at refused
  cases refused

/-! ### Nodes inside nodes -/

/-- A node does what is done inside it. -/
theorem Stream.Performs.node {n : Node} {a : Action Outcome} (hc : c.At l k)
    (hk : k < l.maxNesting) (h : (Stream.build n).Performs l (k + 1) c.enterNested (a.on c.enterNested)) :
    (evaluate n).Performs l k c ((Direct.inside a).on c) := by
  have below : c.nesting < c.limits.maxNesting := by rwa [hc.limits, hc.nesting]
  have nested : (Stream.nested n.span (.build n)).Performs l k c ((Direct.inside a).on c) := by
    rw [Stream.Performs, Stream.move_nested below]
    have result : (Direct.inside a).on c =
        ((a.on c.enterNested).1, (a.on c.enterNested).2.leaveNested) := rfl
    rw [result]
    rcases ha : a.on c.enterNested with ⟨failure | outcome, c'⟩ <;> rw [ha] at h
    · exact .afterStream h.gives_error (.fails failure)
    · obtain ⟨rest, hg, hs⟩ := h.gives_ok
      exact .afterStream hg (.yields (hs.nested hk n.span))
  exact nested.asked

/-- A literal made up where another node could be entered. -/
theorem Stream.Performs.literal (hc : c.At l k) (hk : k < l.maxNesting) (span : Span)
    (value : Literal) :
    (evaluate (.literal span value)).Performs l k c (.ok (.value value.value), c) :=
  Stream.Performs.node (a := pure (.value value.value)) hc hk (.once _)

end Nondet
