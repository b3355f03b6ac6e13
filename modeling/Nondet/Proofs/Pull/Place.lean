import Nondet.Proofs.Grammar.Written
import Nondet.Proofs.Pull.Fits
import Nondet.Proofs.Pull.Made

/-!
# Pull — Place

Where a stream may be asked.  A choice goes back to the stack, the outer frames and the failures of
its snapshot, so it belongs to one place: `s.Placed p` says that every choice in `s` goes back to
the place `p`, or to the place inside the frames that stand around it in `s`.  A stream that is
asked in its place keeps to a discipline (`discipline_kept`): it leaves everything but the frames as it
was, and a failure is recorded once and cuts the stack down.  Blocks and calls push their frame and
take it off around every outcome; a failure skips that, and since it has cut the stack down, rightly
so.

All this is for nodes inside a script; the script itself leaves a frame on the stack.
-/

namespace Nondet

/-! ### Places -/

/-- What a choice goes back to, apart from bindings. -/
structure Place where
  stack : List FrameId
  outer : Nat
  failures : Nat

def Context.place (c : Context) : Place := ⟨c.stack, c.outer, c.failures.length⟩

def Snapshot.place (s : Snapshot) : Place := ⟨s.stack, s.outer, s.failures⟩

/-- One frame further in. -/
def Place.push (p : Place) (frame : FrameId) : Place := { p with stack := frame :: p.stack }

mutual

/-- The choices of the stream go back to the place `p`, or to one inside the frames around them. -/
def Stream.Placed (p : Place) : Stream → Prop
  | .empty | .once _ | .deferred _ | .node _ | .amb _ | .block _ | .body _ | .call _ _ _ _ => True
  | .program _                  => False
  | .nested _ inner             => inner.Placed p
  | .map inner _                => inner.Placed p
  | .flatMap outer _            => outer.Placed p
  | .append first second        => first.Placed p ∧ second.Placed p
  | .calls _ _ arguments        => arguments.Placed p
  | .choice snapshot current _  => snapshot.place = p ∧ current.Placed p
  | .sequence begun             => begun.Placed p
  | .framed frame inner         => inner.Placed (p.push frame)
  | .activation frame inner     => inner.Placed (p.push frame)

def Odometer.Placed (p : Place) : Odometer → Prop
  | .start _         => True
  | .turning begun _ => begun.Placed p

def OpenArguments.Placed (p : Place) : OpenArguments → Prop
  | .none                    => True
  | .push stream _ _ earlier => stream.Placed p ∧ earlier.Placed p

def OpenStatements.Placed (p : Place) : OpenStatements → Prop
  | .none                  => True
  | .push stream _ earlier => stream.Placed p ∧ earlier.Placed p

end

variable {p : Place}

/-- What was just made and is no script has no choices that would have to go back anywhere. -/
theorem Stream.Made.placed {s : Stream} (h : s.Made False) : s.Placed p := by
  cases h <;> trivial

/-! ### The discipline -/

/-- A context as requests find it under the limits `l`: the outer frames are on the stack, and no
more nodes are being evaluated than the limit says. -/
structure Context.Ready (l : Limits) (c : Context) : Prop where
  outer : c.outer ≤ c.depth
  nesting : c.nesting ≤ l.maxNesting
  limits : c.limits = l

/-- The context afterwards: as before but for its frames, or as after the failure. -/
def Context.Disciplined {σ α : Type} (c : Context) (placed : Place → σ → Prop) : Reply σ α → Prop
  | .yield _ rest c'    => c.Alike c' ∧ placed c.place rest
  | .finished c'        => c.Alike c'
  | .failed failure c'  => (c.raised failure).Alike c'

/-- A stream asked in its place. -/
def discipline (l : Limits) : Contract where
  stream s c := s.Placed c.place ∧ c.Ready l
  streamReply _ c r := c.Disciplined Stream.Placed r
  odometer o c := o.Placed c.place ∧ c.Ready l
  odometerReply _ c r := c.Disciplined Odometer.Placed r

namespace Context

variable {c c' : Context} {l : Limits}

theorem Alike.place (h : c.Alike c') : c'.place = c.place := by
  rw [Context.place, h.stack, h.outer, h.failures, Context.place]

theorem Alike.ready (h : c.Alike c') (hr : c.Ready l) : c'.Ready l :=
  ⟨by rw [h.outer, h.depth]; exact hr.outer, h.nesting ▸ hr.nesting, h.limits.trans hr.limits⟩

/-- Going back to a place from a context that is alike is no change but of the frames. -/
theorem Alike.restore (h : c.Alike c') {s : Snapshot} (hs : s.place = c.place) :
    c.Alike (c'.restore s) := by
  obtain ⟨stack, bindings, failures, outer⟩ := s
  obtain ⟨rfl, rfl, rfl⟩ := Place.mk.inj hs
  exact ⟨rfl, rfl, h.nesting, by simp [Context.restore, h.failures], h.limits, h.host, h.global⟩

theorem Alike.pop {frame : FrameId} (h : (c.push frame).Alike c') : c.Alike c'.pop :=
  ⟨by rw [Context.pop, h.stack]; rfl, h.outer, h.nesting, h.failures, h.limits, h.host, h.global⟩

theorem Alike.leaveNested (h : Alike { c with nesting := c.nesting + 1 } c') :
    c.Alike c'.leaveNested :=
  ⟨h.stack, h.outer, by rw [Context.leaveNested, h.nesting]; rfl, h.failures, h.limits, h.host,
    h.global⟩

/-- A failure cuts a frame above the outer ones off. -/
theorem raised_push (hr : c.Ready l) (frame : FrameId) (failure : Failure) :
    (c.push frame).raised failure = c.raised failure := by
  have h : (frame :: c.stack).length - c.outer = c.stack.length - c.outer + 1 := by
    have := hr.outer
    rw [Context.depth] at this
    rw [List.length_cons]
    omega
  simp only [Context.raised, Context.truncate, Context.push, h, List.drop_succ_cons]

/-- After a failure it makes no difference that the frame was on the stack. -/
theorem Alike.cut {frame : FrameId} {failure : Failure} (hr : c.Ready l)
    (h : ((c.push frame).raised failure).Alike c') : (c.raised failure).Alike c' := by
  rw [raised_push hr] at h
  exact h

theorem Ready.push (hr : c.Ready l) (frame : FrameId) : (c.push frame).Ready l :=
  ⟨Nat.le_trans hr.outer (Nat.le_succ _), hr.nesting, hr.limits⟩

end Context

namespace Context

variable {c c' : Context} {σ α : Type} {placed : Place → σ → Prop}

/-- The discipline carries over to a context that is alike. -/
theorem Disciplined.of_alike {r : Reply σ α} (h : c'.Disciplined placed r) (ha : c.Alike c') :
    c.Disciplined placed r := by
  cases r with
  | yield item rest c'' => exact ⟨ha.trans h.1, ha.place ▸ h.2⟩
  | finished c'' => exact ha.trans h
  | failed failure c'' => exact (ha.raised failure).trans h

/-- The reply of a steady action. -/
theorem disciplined_ofResult {result : Except Failure α × Context} (h : Action.Leaves c result)
    {rest : σ} (hs : placed c.place rest) : c.Disciplined placed (.ofResult rest result) := by
  rcases result with ⟨failure | item, c'⟩
  · exact h
  · exact ⟨h, hs⟩

end Context

/-! ### One move of each stream -/

namespace Discipline

/-- The moves of the stream in the context keep the discipline. -/
def Stays (l : Limits) (s : Stream) (c : Context) : Prop :=
  (s.move c).Meets (discipline l) ((discipline l).streamReply s c)

/-- The moves of the odometer in the context keep the discipline. -/
def OdometerStays (l : Limits) (o : Odometer) (c : Context) : Prop :=
  (o.move c).Meets (discipline l) ((discipline l).odometerReply o c)

variable {c c' : Context} {l : Limits}

/-- A stream that is asked, for its answer, in a context that is alike. -/
theorem asked {s : Stream} (hs : s.Placed c.place) (ha : c.Alike c') (hr : c.Ready l) :
    (Move.stream s c' .answer).Meets (discipline l) (c.Disciplined Stream.Placed) :=
  ⟨⟨ha.place ▸ hs, ha.ready hr⟩, fun _ h => h.of_alike ha⟩

/-- An odometer that is asked, for its answer, in a context that is alike. -/
theorem odometer_asked {o : Odometer} (ho : o.Placed c.place) (ha : c.Alike c') (hr : c.Ready l) :
    (Move.odometer o c' .answer).Meets (discipline l) (c.Disciplined Odometer.Placed) :=
  ⟨⟨ha.place ▸ ho, ha.ready hr⟩, fun _ h => h.of_alike ha⟩

theorem nested {inner : Stream} (hs : inner.Placed c.place) (hr : c.Ready l) (span : Span) :
    Stays l (.nested span inner) c := by
  obtain ⟨-, h⟩ | ⟨below, h⟩ := Stream.move_nested_cases span inner c <;> rw [Stays, h]
  · exact Context.Alike.refl (c.raised _)
  · have ready : c.enterNested.Ready l := ⟨hr.outer, hr.limits ▸ below, hr.limits⟩
    refine ⟨⟨hs, ready⟩, fun r h => ?_⟩
    cases r with
    | yield outcome inner' c' => exact ⟨h.1.leaveNested, h.2⟩
    | finished c' => exact Context.Alike.leaveNested h
    -- A failure cuts the stack, but leaves the count of nodes to be put right.
    | failed failure c' => exact Context.Alike.leaveNested (c := c.raised failure) h

theorem map {inner : Stream} (hs : inner.Placed c.place) (hr : c.Ready l) (f : Transform) :
    Stays l (.map inner f) c := by
  refine ⟨⟨hs, hr⟩, fun r h => ?_⟩
  cases r with
  | yield outcome inner' c' =>
      have step := Action.Steady.transform f outcome c'
      exact (Context.disciplined_ofResult step (h.1.place ▸ h.2)).of_alike h.1
  | finished c' => exact h
  | failed failure c' => exact h

theorem flatMap {outer : Stream} (hs : outer.Placed c.place) (hr : c.Ready l) (next : Continuation) :
    Stays l (.flatMap outer next) c := by
  refine ⟨⟨hs, hr⟩, fun r h => ?_⟩
  cases r with
  | yield outcome outer' c' =>
      obtain ⟨failure, e⟩ | ⟨inner, e, hi⟩ := next.on_run_cases outcome c' <;> simp only [e]
      · exact h.1.raised failure
      · exact asked ⟨hi.made.placed, h.2⟩ h.1 hr
  | finished c' => exact h
  | failed failure c' => exact h

theorem append {first second : Stream} (hs : first.Placed c.place) (hs' : second.Placed c.place)
    (hr : c.Ready l) : Stays l (.append first second) c := by
  refine ⟨⟨hs, hr⟩, fun r h => ?_⟩
  cases r with
  | yield outcome first' c' => exact ⟨h.1, h.2, hs'⟩
  | finished c' => exact asked hs' h hr
  | failed failure c' => exact h

theorem calls {arguments : Odometer} (ho : arguments.Placed c.place) (hr : c.Ready l) (span : Span)
    (callee : Value) : Stays l (.calls span callee arguments) c := by
  refine ⟨⟨ho, hr⟩, fun r h => ?_⟩
  cases r with
  | yield values arguments' c' => exact asked ⟨(made_apply _ _ _ _).placed, h.2⟩ h.1 hr
  | finished c' => exact h
  | failed failure c' => exact h

theorem amb (hr : c.Ready l) : ∀ alternatives : List Node, Stays l (.amb alternatives) c
  | []     => Context.Alike.refl c
  | _ :: _ => asked ⟨rfl, trivial⟩ (.refl c) hr

theorem choice {snapshot : Snapshot} (hp : snapshot.place = c.place) {current : Stream}
    (hs : current.Placed c.place) (hr : c.Ready l) (later : List Node) :
    Stays l (.choice snapshot current later) c := by
  refine ⟨⟨hs, hr⟩, fun r h => ?_⟩
  cases r with
  | yield outcome current' c' => exact ⟨h.1, hp, h.2⟩
  | finished c' =>
      have back : c.Alike (c'.restore snapshot) := Context.Alike.restore h hp
      cases later with
      | nil => exact back
      | cons n later => exact asked ⟨hp, trivial⟩ back hr
  | failed failure c' => exact h

theorem body (hr : c.Ready l) (statements : List Node) : Stays l (.body statements) c := by
  have step := Action.Steady.hoist statements c
  rw [Stays]
  simp only [Stream.move]
  rcases hx : (Action.hoist statements).on c with ⟨failure | _, c'⟩ <;> rw [hx] at step
  · exact step
  · exact asked (Stream.made_ofStatements statements).placed step hr

theorem sequence (hr : c.Ready l) : ∀ {begun : OpenStatements}, begun.Placed c.place →
    Stays l (.sequence begun) c
  | .none, _ => Context.Alike.refl c
  | .push current later earlier, ⟨hs, he⟩ => by
      refine ⟨⟨hs, hr⟩, fun r h => ?_⟩
      cases r with
      | yield outcome current' c' =>
          cases outcome with
          | returned v => exact ⟨h.1, h.2, he⟩
          | value v =>
              cases later with
              | nil => exact ⟨h.1, h.2, he⟩
              | cons n later => exact asked ⟨trivial, h.2, he⟩ h.1 hr
          | cut =>
              cases later with
              -- A cut gives up whatever else the open statements have.
              | nil => exact ⟨h.1, trivial⟩
              | cons n later => exact asked ⟨trivial, trivial⟩ h.1 hr
      | finished c' => exact asked (s := .sequence earlier) he h hr
      | failed failure c' => exact h

theorem framed {frame : FrameId} {inner : Stream} (hs : inner.Placed (c.place.push frame))
    (hr : c.Ready l) : Stays l (.framed frame inner) c := by
  refine ⟨⟨hs, hr.push frame⟩, fun r h => ?_⟩
  cases r with
  | yield outcome inner' c' => exact ⟨h.1.pop, h.2⟩
  | finished c' => exact Context.Alike.pop h
  | failed failure c' => exact Context.Alike.cut hr h

theorem activation {frame : FrameId} {inner : Stream} (hs : inner.Placed (c.place.push frame))
    (hr : c.Ready l) : Stays l (.activation frame inner) c := by
  refine ⟨⟨hs, hr.push frame⟩, fun r h => ?_⟩
  cases r with
  | yield outcome inner' c' => exact ⟨h.1.pop, h.2⟩
  | finished c' => exact Context.Alike.pop h
  | failed failure c' => exact Context.Alike.cut hr h

theorem call (hr : c.Ready l) (span : Span) (closure : Closure) (arguments : List Value)
    (this : Option Value) : Stays l (.call span closure arguments this) c := by
  obtain ⟨-, h⟩ | ⟨-, -, h⟩ | ⟨-, -, h⟩ :=
    Stream.move_call_cases span this closure arguments c <;> rw [Stays, h]
  · exact Context.Alike.refl (c.raised _)
  -- The frame of the refused call is cut off again.
  · have entered : c.Alike (c.addFrame (.activation closure arguments span this)) := .frames c _
    have ready := entered.ready hr
    have cut := entered.raised (.exceeded .stack (c.depth + 1) c.limits.maxDepth span)
    rw [← Context.raised_push ready c.frames.next] at cut
    exact cut
  · exact asked trivial (.frames c _) hr

theorem turning (hr : c.Ready l) {begun : OpenArguments} (hb : begun.Placed c.place)
    (values : List Value) : OdometerStays l (.turning begun values) c := by
  cases begun with
  | none => exact Context.Alike.refl c
  | push current span later earlier =>
      obtain ⟨hs, he⟩ := hb
      refine ⟨⟨hs, hr⟩, fun r h => ?_⟩
      cases r with
      | yield outcome current' c' =>
          obtain ⟨failure, e⟩ | e := Action.on_operand_cases span "call argument" outcome c' <;>
            simp only [e]
          · exact h.1.raised failure
          · cases later with
            | nil => exact ⟨h.1, h.2, he⟩
            | cons n later => exact odometer_asked ⟨trivial, h.2, he⟩ h.1 hr
      | finished c' => exact odometer_asked (o := .turning earlier _) he h hr
      | failed failure c' => exact h

theorem start (hr : c.Ready l) : ∀ arguments : List Node, OdometerStays l (.start arguments) c
  | []     => ⟨.refl c, trivial⟩
  | _ :: _ => odometer_asked ⟨trivial, trivial⟩ (.refl c) hr

end Discipline

/-! ### Inside a script -/

/-- Under the regime everything but a script may be evaluated. -/
class Regime.ScriptFree (R : Regime) : Prop where
  node_iff : ∀ n, R.node n ↔ n.isProgram = false

/-- The regime inside a script: no node that is evaluated is a script. -/
def Regime.scriptFree : Regime where
  node n := n.isProgram = false
  frame _ _ := True
  first := 0
  literal _ _ := rfl
  returned _ _ := rfl
  frame_mono _ h := h
  frame_new _ _ := trivial
  frame_old h _ := h

instance : Regime.scriptFree.ScriptFree := ⟨fun _ => Iff.rfl⟩

/-- The regime inside a script of a session in which no frame is referred to before it exists. -/
def Regime.ordinary : Regime where
  node n := n.isProgram = false
  frame n i := i < n
  first := 0
  literal _ _ := rfl
  returned _ _ := rfl
  frame_mono hle hi := Nat.lt_of_lt_of_le hi hle
  frame_new n _ := Nat.lt_succ_self n
  frame_old := FrameId.lt_of_lt_succ

instance : Regime.ordinary.ScriptFree := ⟨fun _ => Iff.rfl⟩

/-- In a session no frame is referred to before it exists. -/
theorem Context.Fits.range {c : Context} (h : c.Fits .ordinary) : c.frames.InRange :=
  fun _ _ he => h.frames.edge (Frames.lt_next he.choose_spec.1) he

/-- What is inside a node that may be evaluated is no script. -/
theorem Regime.ScriptFree.every {R : Regime} [R.ScriptFree] {n : Node} (h : n.Every R.node) :
    n.ScriptFree := fun m hm => (node_iff m).mp (h m hm)

/-- **Inside a script the discipline is kept.** -/
theorem discipline_kept {R : Regime} [R.ScriptFree] (l : Limits) :
    (R.contract.and (discipline l)).Kept := by
  refine R.kept.and (fun s c hb hc => Move.Meets.over ?_)
    fun o c _ hc => Move.Meets.over ?_
  · obtain ⟨hs, hr⟩ := hc
    cases s with
    | empty => exact Context.Alike.refl c
    | once outcome => exact ⟨.refl c, trivial⟩
    | deferred what => exact Context.disciplined_ofResult (Action.Steady.deferred what c) trivial
    -- A node that is no script may be asked anywhere.
    | node n => exact Discipline.asked (Stream.made_build (.inr (Regime.ScriptFree.every hb.2))).placed (.refl c) hr
    | nested span inner => exact Discipline.nested (show inner.Placed c.place from hs) hr span
    | map inner f => exact Discipline.map (show inner.Placed c.place from hs) hr f
    | flatMap outer next => exact Discipline.flatMap (show outer.Placed c.place from hs) hr next
    | append first second => exact Discipline.append hs.1 hs.2 hr
    | calls span callee arguments => exact Discipline.calls hs hr span callee
    | amb alternatives => exact Discipline.amb hr alternatives
    | choice snapshot current later => exact Discipline.choice hs.1 hs.2 hr later
    | block statements => exact Discipline.asked trivial (.frames c _) hr
    | program statements => exact absurd hs id
    | body statements => exact Discipline.body hr statements
    | sequence begun => exact Discipline.sequence hr hs
    | framed frame inner => exact Discipline.framed hs hr
    | call span closure arguments this => exact Discipline.call hr span closure arguments this
    | activation frame inner => exact Discipline.activation hs hr
  · obtain ⟨ho, hr⟩ := hc
    cases o with
    | start arguments => exact Discipline.start hr arguments
    | turning begun values => exact Discipline.turning hr ho values

end Nondet
