import Nondet.Session
import Nondet.Proofs.Pull.Gives
import Nondet.Proofs.Context.Level

/-!
# Termination

Every request is answered, and every stream comes to an end.  `Drains l k s` says so of the stream
`s`, asked again and again inside `k` nodes under the limits `l`: each request is answered, and what
is left drains too.  Nothing is assumed of the contexts between two requests but their limits and
how many nodes are being evaluated, so the claim is robust: a consumer may do to the frames, the
stack and the failures whatever it likes.

The measure is how many nodes may still be entered.  A node that is entered is asked one level
deeper, and at the deepest level a node refuses; nothing else is recursive that does not shrink,
since a body that is called consists of nodes again.  So if all nodes drain one level deeper, all
streams do there, and then all nodes drain here (`Drains.node`).
-/

namespace Nondet

/-! ### Streams that drain -/

/-- The stream answers every request, and so does what is left of it, until nothing is. -/
inductive Drains (l : Limits) (k : Nat) : Stream → Prop
  | intro {s : Stream} (gives : ∀ c, c.At l k → ∃ r, s.Gives c r ∧ r.context.At l k)
      (rest : ∀ c outcome s' c', c.At l k → s.Gives c (.yield outcome s' c') → Drains l k s') :
      Drains l k s

/-- The odometer answers every request, and so does what is left of it, until nothing is. -/
inductive OdometerDrains (l : Limits) (k : Nat) : Odometer → Prop
  | intro {o : Odometer} (gives : ∀ c, c.At l k → ∃ r, o.Gives c r ∧ r.context.At l k)
      (rest : ∀ c values o' c', c.At l k → o.Gives c (.yield values o' c') →
        OdometerDrains l k o') :
      OdometerDrains l k o

variable {l : Limits} {k : Nat}

/-- The reply stays at its level, and what is left drains. -/
def Reply.Drains (l : Limits) (k : Nat) : Reply Stream Outcome → Prop
  | .yield _ rest c => c.At l k ∧ Nondet.Drains l k rest
  | .finished c     => c.At l k
  | .failed _ c     => c.At l k

/-- The reply stays at its level, and what is left of the odometer drains. -/
def Reply.OdometerDrains (l : Limits) (k : Nat) : Reply Odometer (List Value) → Prop
  | .yield _ rest c => c.At l k ∧ Nondet.OdometerDrains l k rest
  | .finished c     => c.At l k
  | .failed _ c     => c.At l k

/-- The move leads to a reply after which the stream drains. -/
def Move.Drains (l : Limits) (k : Nat) (m : Move Stream Outcome) : Prop :=
  ∃ r, m.Leads r ∧ r.Drains l k

/-- The move leads to a reply after which the odometer drains. -/
def Move.OdometerDrains (l : Limits) (k : Nat) (m : Move Odometer (List Value)) : Prop :=
  ∃ r, m.Leads r ∧ r.OdometerDrains l k

theorem Move.drains_answer {r : Reply Stream Outcome} (h : r.Drains l k) :
    (Move.answer r).Drains l k := ⟨r, rfl, h⟩

theorem Move.odometerDrains_answer {r : Reply Odometer (List Value)} (h : r.OdometerDrains l k) :
    (Move.answer r).OdometerDrains l k := ⟨r, rfl, h⟩

namespace Drains

/-- A stream drains when each of its moves leads to a reply after which it drains. -/
theorem of_move {s : Stream} (h : ∀ c, c.At l k → (s.move c).Drains l k) : Drains l k s := by
  refine .intro (fun c hc => ?_) fun c outcome s' c' hc hg => ?_
  · obtain ⟨r, hr, hd⟩ := h c hc
    refine ⟨r, Stream.gives_iff.mpr hr, ?_⟩
    cases r with
    | yield _ _ _ => exact hd.1
    | finished _ => exact hd
    | failed _ _ => exact hd
  · obtain ⟨r, hr, hd⟩ := h c hc
    cases (Stream.gives_iff.mpr hr).unique hg
    exact hd.2

/-- The reply of a stream that drains. -/
theorem reply {s : Stream} (h : Drains l k s) {c : Context} (hc : c.At l k) :
    ∃ r, s.Gives c r ∧ r.Drains l k := by
  obtain ⟨gives, rest⟩ := h
  obtain ⟨r, hr, hat⟩ := gives c hc
  refine ⟨r, hr, ?_⟩
  cases r with
  | yield outcome s' c' => exact ⟨hat, rest c outcome s' c' hc hr⟩
  | finished c' => exact hat
  | failed f c' => exact hat

/-- A move that only asks a stream which drains. -/
theorem asked {s : Stream} (h : Drains l k s) {c : Context} (hc : c.At l k) :
    (Move.stream s c .answer).Drains l k := by
  obtain ⟨r, hr, hd⟩ := h.reply hc
  exact ⟨r, ⟨r, hr, rfl⟩, hd⟩

/-- The induction on a stream that drains, for a stream `W inner` around it: it is enough that a
move of `W inner` answers at once, or asks `inner` and goes on well from any reply after which
`W` around the rest drains. -/
theorem around (W : Stream → Stream) {k' : Nat} {inner : Stream} (h : Drains l k' inner)
    (step : ∀ s c, c.At l k → ((W s).move c).Drains l k ∨
      ∃ c' next, c'.At l k' ∧ (W s).move c = .stream s c' next ∧
        ∀ r : Reply Stream Outcome, r.context.At l k' →
          (∀ outcome s' c'', r = .yield outcome s' c'' → Drains l k (W s')) →
          (next r).Drains l k) :
    Drains l k (W inner) := by
  induction h with
  | @intro s gives rest ih =>
      refine of_move fun c hc => ?_
      obtain hd | ⟨c', next, hc', hm, hnext⟩ := step s c hc
      · exact hd
      · obtain ⟨r, hr, hat⟩ := gives c' hc'
        obtain ⟨r', hr', hd⟩ := hnext r hat fun outcome s' c'' e => ih c' outcome s' c'' hc' (e ▸ hr)
        exact ⟨r', hm ▸ ⟨r, hr, hr'⟩, hd⟩

/-! ### Leaves -/

theorem empty : Drains l k .empty := of_move fun _ hc => ⟨_, rfl, hc⟩

theorem once (outcome : Outcome) : Drains l k (.once outcome) :=
  of_move fun _ hc => ⟨_, rfl, hc, empty⟩

/-- A result whose context is at the level, with a rest that drains. -/
theorem ofResult {s : Stream} (h : Drains l k s) {result : Except Failure Outcome × Context}
    (hr : result.2.At l k) : (Reply.ofResult s result).Drains l k := by
  rcases result with ⟨_ | _, c⟩
  · exact hr
  · exact ⟨hr, h⟩

theorem deferred (what : Deferred) : Drains l k (.deferred what) :=
  of_move fun c hc =>
    Move.drains_answer (empty.ofResult (hc.leaves (Action.Steady.deferred what c)))

/-! ### Streams around streams -/

theorem map {inner : Stream} (h : Drains l k inner) (f : Transform) : Drains l k (.map inner f) :=
  h.around (.map · f) fun s c hc => .inr ⟨c, _, hc, rfl, fun r hat hrest => by
    cases r with
    | yield outcome s' c' =>
        exact Move.drains_answer
          ((hrest _ _ _ rfl).ofResult (hat.leaves (Action.Steady.transform f outcome c')))
    | finished c' => exact Move.drains_answer hat
    | failed failure c' => exact Move.drains_answer hat⟩

theorem append {first second : Stream} (h : Drains l k first) (h' : Drains l k second) :
    Drains l k (.append first second) :=
  h.around (.append · second) fun s c hc => .inr ⟨c, _, hc, rfl, fun r hat hrest => by
    cases r with
    | yield outcome s' c' => exact Move.drains_answer ⟨hat, hrest _ _ _ rfl⟩
    | finished c' => exact h'.asked hat
    | failed failure c' => exact Move.drains_answer hat⟩

theorem flatMap {outer : Stream} {next : Continuation} (h : Drains l k outer)
    (hn : ∀ {v s}, next.Next v s → Drains l k s) :
    Drains l k (.flatMap outer next) :=
  h.around (.flatMap · next) fun s c hc => .inr ⟨c, _, hc, rfl, fun r hat hrest => by
    cases r with
    | yield outcome s' c' =>
        obtain ⟨failure, e⟩ | ⟨inner, e, hi⟩ := next.on_run_cases outcome c' <;> simp only [e]
        · exact Move.drains_answer (Context.At.raised hat failure)
        · exact ((hn hi).append (hrest _ _ _ rfl)).asked hat
    | finished c' => exact Move.drains_answer hat
    | failed failure c' => exact Move.drains_answer hat⟩

/-- A stream that is asked in a frame, whatever becomes of the outcomes. -/
theorem inFrame (W : Stream → Stream) {f : Outcome → Outcome} {frame : FrameId} {inner : Stream}
    (h : Drains l k inner)
    (hW : ∀ s c, (W s).move c = .stream s (c.push frame) fun
      | .yield outcome s c => .answer (.yield (f outcome) (W s) c.pop)
      | .finished c        => .answer (.finished c.pop)
      | .failed failure c  => .answer (.failed failure c)) :
    Drains l k (W inner) :=
  h.around W fun s c hc => .inr ⟨_, _, hc.push frame, hW s c, fun r hat hrest => by
    cases r with
    | yield outcome s' c' => exact Move.drains_answer ⟨hat.pop, hrest _ _ _ rfl⟩
    | finished c' => exact Move.drains_answer hat.pop
    | failed failure c' => exact Move.drains_answer hat⟩

theorem framed {inner : Stream} (h : Drains l k inner) (frame : FrameId) :
    Drains l k (.framed frame inner) := h.inFrame (.framed frame) (f := id) fun _ _ => rfl

theorem activation {inner : Stream} (h : Drains l k inner) (frame : FrameId) :
    Drains l k (.activation frame inner) := h.inFrame (.activation frame) fun _ _ => rfl

/-- A node that was begun drains when what is inside drains one level deeper. -/
theorem nested {inner : Stream} (h : k < l.maxNesting → Drains l (k + 1) inner) (span : Span) :
    Drains l k (.nested span inner) := by
  by_cases hk : k < l.maxNesting
  · refine (h hk).around (.nested span) fun s c hc => .inr ?_
    have below : c.nesting < c.limits.maxNesting := by rwa [hc.limits, hc.nesting]
    refine ⟨_, _, hc.deeper, Stream.move_nested below span s, fun r hat hrest => ?_⟩
    cases r with
    | yield outcome s' c' => exact Move.drains_answer ⟨hat.leaveNested, hrest _ _ _ rfl⟩
    | finished c' => exact Move.drains_answer hat.leaveNested
    | failed failure c' => exact Move.drains_answer hat.leaveNested
  -- At the deepest level the node refuses, and nothing is asked inside.
  · refine of_move fun c hc => ?_
    have refuses : c.limits.maxNesting ≤ c.nesting := by rw [hc.limits, hc.nesting]; omega
    rw [Stream.move_nested_full refuses]
    exact Move.drains_answer (hc.raised _)

/-- A choice drains when its current alternative and all nodes do. -/
theorem choice (hn : ∀ n, Drains l k (evaluate n)) (snapshot : Snapshot) :
    ∀ (later : List Node) {current : Stream}, Drains l k current →
      Drains l k (.choice snapshot current later)
  -- The induction is on the alternatives that are still to come.
  | [], _, h => h.around (.choice snapshot · []) fun s c hc => .inr ⟨c, _, hc, rfl,
      fun r hat hrest => by
        cases r with
        | yield outcome s' c' => exact Move.drains_answer ⟨hat, hrest _ _ _ rfl⟩
        | finished c' => exact Move.drains_answer (hat.restore snapshot)
        | failed failure c' => exact Move.drains_answer hat⟩
  | n :: later, _, h => h.around (.choice snapshot · (n :: later)) fun s c hc => .inr ⟨c, _, hc, rfl,
      fun r hat hrest => by
        cases r with
        | yield outcome s' c' => exact Move.drains_answer ⟨hat, hrest _ _ _ rfl⟩
        | finished c' => exact (choice hn snapshot later (hn n)).asked (hat.restore snapshot)
        | failed failure c' => exact Move.drains_answer hat⟩

theorem amb (hn : ∀ n, Drains l k (evaluate n)) :
    ∀ alternatives : List Node, Drains l k (.amb alternatives)
  | [] => of_move fun c hc => Move.drains_answer (r := .finished c) hc
  | n :: later => of_move fun c hc => (choice hn c.snapshot later (hn n)).asked hc

/-! ### Statements -/

theorem noStatements : Drains l k (.sequence .none) :=
  of_move fun c hc => Move.drains_answer (r := .finished c) hc

/-- Statements that were begun drain when the current one, those that were begun earlier, and all
nodes do. -/
theorem sequence (hn : ∀ n, Drains l k (evaluate n)) :
    ∀ (later : List Node) {earlier : OpenStatements} {current : Stream},
      Drains l k (.sequence earlier) → Drains l k current →
        Drains l k (.sequence (.push current later earlier))
  -- A statement that is begun opens a stream, but leaves fewer to be begun.
  | [], earlier, _, he, h => h.around (fun s => .sequence (.push s [] earlier)) fun s c hc =>
      .inr ⟨c, _, hc, rfl, fun r hat hrest => by
        cases r with
        | yield outcome s' c' =>
            cases outcome with
            | value v | returned v => exact Move.drains_answer ⟨hat, hrest _ _ _ rfl⟩
            | cut => exact Move.drains_answer ⟨hat, empty⟩
        | finished c' => exact he.asked hat
        | failed failure c' => exact Move.drains_answer hat⟩
  | n :: later, earlier, _, he, h =>
      h.around (fun s => .sequence (.push s (n :: later) earlier)) fun s c hc =>
        .inr ⟨c, _, hc, rfl, fun r hat hrest => by
          cases r with
          | yield outcome s' c' =>
              cases outcome with
              | value v => exact (sequence hn later (hrest _ _ _ rfl) (hn n)).asked hat
              | returned v => exact Move.drains_answer ⟨hat, hrest _ _ _ rfl⟩
              | cut => exact (sequence hn later noStatements (hn n)).asked hat
          | finished c' => exact he.asked hat
          | failed failure c' => exact Move.drains_answer hat⟩

theorem ofStatements (hn : ∀ n, Drains l k (evaluate n)) :
    ∀ statements : List Node, Drains l k (.ofStatements statements)
  | []      => once _
  | n :: ns => sequence hn ns noStatements (hn n)

theorem body (hn : ∀ n, Drains l k (evaluate n)) (statements : List Node) :
    Drains l k (.body statements) := by
  refine of_move fun c hc => ?_
  have hat := hc.leaves (Action.Steady.hoist statements c)
  simp only [Stream.move]
  rcases hr : (Action.hoist statements).on c with ⟨failure | _, c'⟩ <;> rw [hr] at hat
  · exact Move.drains_answer hat
  · exact (ofStatements hn statements).asked hat

theorem block (hn : ∀ n, Drains l k (evaluate n)) (statements : List Node) :
    Drains l k (.block statements) :=
  of_move fun _ hc => ((body hn statements).framed _).asked (hc.addFrame _)

theorem program (hn : ∀ n, Drains l k (evaluate n)) (statements : List Node) :
    Drains l k (.program statements) :=
  of_move fun _ hc => (body hn statements).asked hc.enterProgram

/-! ### Calls -/

theorem call (hn : ∀ n, Drains l k (evaluate n)) (span : Span) (closure : Closure)
    (arguments : List Value) (this : Option Value) :
    Drains l k (.call span closure arguments this) := by
  refine of_move fun c hc => ?_
  have hat := hc.enterCall span closure arguments this
  simp only [Stream.move]
  rcases hr : (Action.enterCall span closure arguments this).on c with ⟨failure | frame, c'⟩ <;>
    rw [hr] at hat
  · exact Move.drains_answer hat
  · exact ((body hn _).activation frame).asked hat

theorem apply (hn : ∀ n, Drains l k (evaluate n)) (callee : Value) (arguments : List Value)
    (span : Span) (this : Option Value) : Drains l k (apply callee arguments span this) := by
  cases callee with
  | closure closure => exact call hn span closure arguments this
  | _ => exact deferred _

end Drains

namespace OdometerDrains

/-- An odometer drains when each of its moves leads to a reply after which it drains. -/
theorem of_move {o : Odometer} (h : ∀ c, c.At l k → (o.move c).OdometerDrains l k) :
    OdometerDrains l k o := by
  refine .intro (fun c hc => ?_) fun c values o' c' hc hg => ?_
  · obtain ⟨r, hr, hd⟩ := h c hc
    refine ⟨r, Odometer.gives_iff.mpr hr, ?_⟩
    cases r with
    | yield _ _ _ => exact hd.1
    | finished _ => exact hd
    | failed _ _ => exact hd
  · obtain ⟨r, hr, hd⟩ := h c hc
    cases (Odometer.gives_iff.mpr hr).unique hg
    exact hd.2

/-- The reply of an odometer that drains. -/
theorem reply {o : Odometer} (h : OdometerDrains l k o) {c : Context} (hc : c.At l k) :
    ∃ r, o.Gives c r ∧ r.OdometerDrains l k := by
  obtain ⟨gives, rest⟩ := h
  obtain ⟨r, hr, hat⟩ := gives c hc
  refine ⟨r, hr, ?_⟩
  cases r with
  | yield values o' c' => exact ⟨hat, rest c values o' c' hc hr⟩
  | finished c' => exact hat
  | failed failure c' => exact hat

/-- A move that only asks an odometer which drains. -/
theorem asked {o : Odometer} (h : OdometerDrains l k o) {c : Context} (hc : c.At l k) :
    (Move.odometer o c .answer).OdometerDrains l k := by
  obtain ⟨r, hr, hd⟩ := h.reply hc
  exact ⟨r, ⟨r, hr, rfl⟩, hd⟩

theorem noArguments (values : List Value) : OdometerDrains l k (.turning .none values) :=
  of_move fun c hc => Move.odometerDrains_answer (r := .finished c) hc

/-- The induction on a stream that drains, for odometers `W s values` that ask it. -/
theorem around (W : Stream → List Value → Odometer) {inner : Stream} (h : Drains l k inner)
    (step : ∀ s values c, c.At l k → ∃ next, (W s values).move c = .stream s c next ∧
      ∀ r : Reply Stream Outcome, r.context.At l k →
        (∀ outcome s' c', r = .yield outcome s' c' → ∀ values, OdometerDrains l k (W s' values)) →
        (next r).OdometerDrains l k) :
    ∀ values, OdometerDrains l k (W inner values) := by
  induction h with
  | @intro s gives rest ih =>
      refine fun values => of_move fun c hc => ?_
      obtain ⟨next, hm, hnext⟩ := step s values c hc
      obtain ⟨r, hr, hat⟩ := gives c hc
      obtain ⟨r', hr', hd⟩ := hnext r hat fun outcome s' c' e => ih c outcome s' c' hc (e ▸ hr)
      exact ⟨r', hm ▸ ⟨r, hr, hr'⟩, hd⟩

/-- Arguments that were begun drain when the current one, those that were begun earlier, and all
nodes do. -/
theorem turning (hn : ∀ n, Drains l k (evaluate n)) :
    ∀ (later : List Node) (span : Span) {earlier : OpenArguments} {current : Stream},
      (∀ values, OdometerDrains l k (.turning earlier values)) → Drains l k current →
        ∀ values, OdometerDrains l k (.turning (.push current span later earlier) values) := by
  -- As with statements, the induction is on the arguments that are still to be begun.
  intro later
  induction later with
  | nil =>
      intro span earlier current he h
      refine around (fun s values => .turning (.push s span [] earlier) values) h
        fun s values c hc => ⟨_, rfl, fun r hat hrest => ?_⟩
      cases r with
      | yield outcome s' c' =>
          obtain ⟨failure, e⟩ | e := Action.on_operand_cases span "call argument" outcome c' <;>
            simp only [e]
          · exact Move.odometerDrains_answer (Context.At.raised hat failure)
          · exact Move.odometerDrains_answer ⟨hat, hrest _ _ _ rfl values⟩
      | finished c' => exact (he _).asked hat
      | failed failure c' => exact Move.odometerDrains_answer hat
  | cons n later ih =>
      intro span earlier current he h
      refine around (fun s values => .turning (.push s span (n :: later) earlier) values) h
        fun s values c hc => ⟨_, rfl, fun r hat hrest => ?_⟩
      cases r with
      | yield outcome s' c' =>
          obtain ⟨failure, e⟩ | e := Action.on_operand_cases span "call argument" outcome c' <;>
            simp only [e]
          · exact Move.odometerDrains_answer (Context.At.raised hat failure)
          · exact (ih n.span (hrest _ _ _ rfl) (hn n) (outcome.toValue :: values)).asked hat
      | finished c' => exact (he _).asked hat
      | failed failure c' => exact Move.odometerDrains_answer hat

theorem start (hn : ∀ n, Drains l k (evaluate n)) :
    ∀ arguments : List Node, OdometerDrains l k (.start arguments)
  | [] => of_move fun c hc =>
      Move.odometerDrains_answer (r := .yield [] (.turning .none []) c) ⟨hc, noArguments []⟩
  | n :: later => of_move fun _ hc =>
      (turning hn later n.span noArguments (hn n) []).asked hc

end OdometerDrains

namespace Drains

theorem calls (hn : ∀ n, Drains l k (evaluate n)) (span : Span) (callee : Value)
    {arguments : Odometer} (h : OdometerDrains l k arguments) :
    Drains l k (.calls span callee arguments) := by
  induction h with
  | @intro o gives rest ih =>
      refine of_move fun c hc => ?_
      obtain ⟨r, hr, hat⟩ := gives c hc
      -- What is left of the odometer waits behind the call that is made for its values.
      have later : ∀ values o' c', r = .yield values o' c' → Drains l k (.calls span callee o') :=
        fun values o' c' e => ih c values o' c' hc (e ▸ hr)
      cases r with
      | yield values o' c' =>
          have hd := (apply hn callee values span none).append (later values o' c' rfl)
          obtain ⟨r', hr', hd'⟩ := hd.asked hat
          exact ⟨r', ⟨_, hr, hr'⟩, hd'⟩
      | finished c' => exact ⟨_, ⟨_, hr, rfl⟩, hat⟩
      | failed failure c' => exact ⟨_, ⟨_, hr, rfl⟩, hat⟩

/-! ### Nodes -/

/-- What a continuation goes on with. -/
theorem continuation (hn : ∀ n, Drains l k (evaluate n)) {next : Continuation} {v : Value}
    {s : Stream} (h : next.Next v s) : Drains l k s := by
  cases h with
  | right span op n => exact (hn n).map _
  | consequent _ _ n _ | alternate _ _ _ n => exact hn n
  | neither span test consequent => exact once _
  | calls span nodes => exact calls hn span v (.start hn nodes)

/-- The first unfolding of a node drains when all nodes do. -/
theorem build (hn : ∀ n, Drains l k (evaluate n)) : ∀ n : Node, Drains l k (.build n)
  | .literal _ _ => once _
  | .identifier span name => by
      rw [Stream.build]
      split
      · exact once _
      · exact deferred _
  | .call span callee arguments => by
      rw [Stream.build]
      split
      · exact amb hn arguments
      · exact (hn callee).flatMap (continuation hn)
  | .unary _ _ argument => (hn argument).map _
  | .binary _ _ left _ => (hn left).flatMap (continuation hn)
  | .logical _ .and left _ => (hn left).flatMap (continuation hn)
  | .logical _ .or left _ => (hn left).flatMap (continuation hn)
  | .conditional _ test _ _ => (hn test).flatMap (continuation hn)
  | .variableDeclaration _ _ _ init => (hn init).map _
  | .assignment _ _ value => (hn value).map _
  | .functionDeclaration _ _ _ _ _ => deferred _
  | .arrowFunction _ _ _ _ _ => deferred _
  | .ifStatement _ test _ _ => (hn test).flatMap (continuation hn)
  | .returnStatement _ none => once _
  | .returnStatement _ (some argument) => (hn argument).map _
  | .block _ statements => block hn statements
  | .expressionStatement _ expression => build hn expression
  | .program _ statements => program hn statements

/-- A node drains when, unless it is refused, all nodes drain one level deeper. -/
theorem node (h : k < l.maxNesting → ∀ n, Drains l (k + 1) (evaluate n)) (n : Node) :
    Drains l k (evaluate n) :=
  of_move fun _ hc => (nested (fun hk => build (h hk) n) n.span).asked hc

/-- **Every node drains, at every level.** -/
theorem evaluate (n : Node) : Drains l k (evaluate n) := by
  -- The number of levels left goes down as nodes are entered, so the induction is on it.
  suffices h : ∀ left k, l.maxNesting - k = left → ∀ n, Drains l k (Nondet.evaluate n) from
    h _ k rfl n
  intro left
  induction left with
  | zero => exact fun k hk => node fun hlt => absurd hk (by omega)
  | succ left ih => exact fun k hk => node fun _ => ih (k + 1) (by omega)

end Drains

/-! ### All streams

The streams of an evaluation that is under way drain as well: they are made of streams and nodes. -/

mutual

/-- **Every stream drains, at every level.** -/
theorem Stream.drains : ∀ (s : Stream) (k : Nat), Drains l k s
  | .empty, _ => .empty
  | .once outcome, _ => .once outcome
  | .deferred what, _ => .deferred what
  | .node n, _ => .evaluate n
  | .nested span inner, k => .nested (fun _ => inner.drains (k + 1)) span
  | .map inner f, k => (inner.drains k).map f
  | .flatMap outer _, k => (outer.drains k).flatMap (.continuation .evaluate)
  | .append first second, k => (first.drains k).append (second.drains k)
  | .calls span callee arguments, k => .calls .evaluate span callee (arguments.drains k)
  | .amb alternatives, _ => .amb .evaluate alternatives
  | .choice snapshot current later, k => .choice .evaluate snapshot later (current.drains k)
  | .block statements, _ => .block .evaluate statements
  | .program statements, _ => .program .evaluate statements
  | .body statements, _ => .body .evaluate statements
  | .sequence begun, k => begun.drains k
  | .framed frame inner, k => (inner.drains k).framed frame
  | .call span closure arguments this, _ => .call .evaluate span closure arguments this
  | .activation frame inner, k => (inner.drains k).activation frame

/-- Every odometer drains, at every level. -/
theorem Odometer.drains : ∀ (o : Odometer) (k : Nat), OdometerDrains l k o
  | .start arguments, _ => .start .evaluate arguments
  | .turning begun values, k => begun.drains k values

theorem OpenArguments.drains :
    ∀ (begun : OpenArguments) (k : Nat) (values : List Value),
      OdometerDrains l k (.turning begun values)
  | .none, _, values => .noArguments values
  | .push stream span later earlier, k, values =>
    .turning .evaluate later span (earlier.drains k) (stream.drains k) values

theorem OpenStatements.drains : ∀ (begun : OpenStatements) (k : Nat), Drains l k (.sequence begun)
  | .none, _ => .noStatements
  | .push stream later earlier, k =>
    .sequence .evaluate later (earlier.drains k) (stream.drains k)

end

/-- Every request is answered, whatever the stream and the context. -/
theorem Stream.gives (s : Stream) (c : Context) : ∃ r, s.Gives c r := by
  obtain ⟨r, hr, _⟩ := (s.drains c.nesting).reply ⟨rfl, rfl⟩
  exact ⟨r, hr⟩

/-! ### Solutions -/

namespace Solutions

/-- The answer to a request for a solution, and the solutions that are left. -/
def answer : Reply Stream Outcome → Answer × Solutions × Context
  | .yield outcome rest c => (.value outcome.toValue, ⟨some rest⟩, c)
  | .finished c           => (.none, ⟨none⟩, c)
  | .failed failure c     => (.failure failure, ⟨none⟩, c)

theorem next_some (fuel : Nat) (s : Stream) (c : Context) :
    next fuel ⟨some s⟩ c = (s.ask fuel c).map answer := by
  rw [next, Stream.ask]
  cases h : s.pull fuel c <;> simp [h, Step.reply?, answer]

/-- With fuel enough, the answer is that of the reply. -/
theorem next_of_gives {s : Stream} {c : Context} {r : Reply Stream Outcome} (h : s.Gives c r) :
    ∃ fuel, next fuel ⟨some s⟩ c = some (answer r) := by
  obtain ⟨fuel, h⟩ := h
  exact ⟨fuel, by rw [next_some, h]; rfl⟩

/-- The solutions answer every request, and so does what is left of them after a value, until the
end or a failure. -/
inductive Drains (l : Limits) (k : Nat) : Solutions → Prop
  | intro {s : Solutions}
      (answers : ∀ c, c.At l k → ∃ fuel answer s' c', s.next fuel c = some (answer, s', c') ∧ c'.At l k)
      (rest : ∀ c fuel v s' c', c.At l k → s.next fuel c = some (.value v, s', c') → Drains l k s') :
      Drains l k s

/-- The solutions are these values in order, and the answer after them is the last. -/
inductive Ends : Solutions → Context → List Value → Answer → Context → Prop
  | stop {s c fuel a s' c'} (h : s.next fuel c = some (a, s', c')) (last : ∀ v, a ≠ .value v) :
      Ends s c [] a c'
  | more {s c fuel v s' c' vs a c''} (h : s.next fuel c = some (.value v, s', c'))
      (rest : Ends s' c' vs a c'') : Ends s c (v :: vs) a c''

theorem drains_of_stream {s : Stream} (h : Nondet.Drains l k s) : Drains l k ⟨some s⟩ := by
  induction h with
  | @intro s gives rest ih =>
      refine .intro (fun c hc => ?_) fun c fuel v s' c' hc hn => ?_
      · obtain ⟨r, ⟨fuel, hr⟩, hat⟩ := gives c hc
        refine ⟨fuel, (answer r).1, (answer r).2.1, (answer r).2.2, ?_, ?_⟩
        · rw [next_some, hr]
          rfl
        · cases r <;> exact hat
      · rw [next_some] at hn
        obtain ⟨r, hr, ha⟩ := Option.map_eq_some_iff.mp hn
        cases r with
        | yield outcome rest c'' =>
            obtain ⟨_, rfl, rfl⟩ := Prod.mk.injEq .. ▸ ha
            exact ih c outcome _ _ hc ⟨fuel, hr⟩
        | finished c'' => simp [answer] at ha
        | failed failure c'' => simp [answer] at ha

/-- Solutions that drain come to an end when they are asked without a break. -/
theorem Drains.ends {s : Solutions} (h : s.Drains l k) {c : Context} (hc : c.At l k) :
    ∃ vs a c', s.Ends c vs a c' := by
  induction h generalizing c with
  | @intro s answers rest ih =>
      obtain ⟨fuel, a, s', c', hn, hat⟩ := answers c hc
      cases a with
      | value v =>
          obtain ⟨vs, a, c'', he⟩ := ih c fuel v s' c' hc hn hat
          exact ⟨v :: vs, a, c'', .more hn he⟩
      | failure f => exact ⟨[], _, c', .stop hn (by simp)⟩
      | none => exact ⟨[], _, c', .stop hn (by simp)⟩

/-- More fuel changes no answer. -/
theorem next_mono {s : Solutions} {c : Context} {x : Answer × Solutions × Context}
    {fuel fuel' : Nat} (hle : fuel ≤ fuel') (h : s.next fuel c = some x) :
    s.next fuel' c = some x := by
  obtain ⟨_ | stream⟩ := s
  · exact h
  · rw [next_some] at h ⊢
    obtain ⟨r, hr, rfl⟩ := Option.map_eq_some_iff.mp h
    rw [Stream.ask_mono hle hr]
    rfl

/-- All solutions taken together: the values, unless the last answer is a failure. -/
def result (vs : List Value) : Answer → Except Failure (List Value)
  | .failure f => .error f
  | _          => .ok vs

/-- With fuel enough, taking more solutions than there are takes all of them. -/
theorem Ends.take {s : Solutions} {c : Context} {vs : List Value} {a : Answer} {c' : Context}
    (h : s.Ends c vs a c') : ∃ enough, ∀ fuel ≥ enough, ∀ count > vs.length, ∀ taken,
      Solutions.take fuel taken count s c = some (result (taken.reverse ++ vs) a, c') := by
  induction h with
  | @stop s c fuel a s' c' hn last =>
      refine ⟨fuel, fun fuel' hle count hc taken => ?_⟩
      -- There was fuel for the last answer, and one more is asked for than there are values.
      obtain ⟨count, rfl⟩ := Nat.exists_eq_succ_of_ne_zero (by omega : count ≠ 0)
      cases a with
      | value v => exact absurd rfl (last v)
      | failure f => simp [Solutions.take, next_mono hle hn, result]
      | none => simp [Solutions.take, next_mono hle hn, result]
  | @more s c fuel v s' c' vs a c'' hn _ ih =>
      obtain ⟨enough, ih⟩ := ih
      -- The fuel must do for this value and for those that follow.
      refine ⟨max fuel enough, fun fuel' hle count hc taken => ?_⟩
      obtain ⟨count, rfl⟩ := Nat.exists_eq_succ_of_ne_zero (by omega : count ≠ 0)
      have hn' := next_mono (Nat.le_trans (Nat.le_max_left ..) hle) hn
      have h := ih fuel' (Nat.le_trans (Nat.le_max_right ..) hle) count (by simpa using hc) (v :: taken)
      simpa [Solutions.take, hn'] using h

/-- Fewer values than were asked for are all that there are. -/
theorem Ends.of_take {fuel : Nat} : ∀ {count : Nat} {taken vs : List Value} {s : Solutions}
    {c c' : Context}, Solutions.take fuel taken count s c = some (.ok vs, c') →
      vs.length < taken.length + count → ∃ us, vs = taken.reverse ++ us ∧ s.Ends c us .none c'
  | 0, taken, vs, s, c, c', h, hlt => by
      cases h
      simp at hlt
  | count + 1, taken, vs, s, c, c', h, hlt => by
      rw [Solutions.take] at h
      rcases hn : s.next fuel c with _ | ⟨v | f | _, s', c₁⟩ <;> rw [hn] at h
      · cases h
      · have fewer : vs.length < (v :: taken).length + count := by
          rw [List.length_cons]
          omega
        obtain ⟨us, rfl, he⟩ := Ends.of_take h fewer
        exact ⟨v :: us, by simp, .more hn he⟩
      · cases h
      · cases h
        exact ⟨[], by simp, .stop hn (by simp)⟩

end Solutions

/-- **Enumerating the solutions of a node terminates**, in whatever context and under whatever
limits: every request is answered and there are finitely many solutions, even if between two
requests anything happens to the context that leaves the limits and the nesting as they are. -/
theorem enumeration_terminates (n : Node) (c : Context) :
    (Solutions.of n).Drains c.limits c.nesting ∧ ∃ vs a c', (Solutions.of n).Ends c vs a c' := by
  have h : (Solutions.of n).Drains c.limits c.nesting := Solutions.drains_of_stream (.evaluate n)
  exact ⟨h, h.ends ⟨rfl, rfl⟩⟩

/-- The run of a script has the solutions of the program that was read. -/
theorem Session.run_eq_ok {source : String} {r : Session.Run} (h : Session.run source = .ok r) :
    ∃ program, Grammar.parse source = .ok program ∧ r = ⟨.of program, source⟩ := by
  unfold Session.run at h
  generalize Grammar.parse source = parsed at h ⊢
  cases parsed with
  | ok program => exact ⟨program, rfl, (Except.ok.inj h).symm⟩
  | error failure => cases h

/-- A script that can be read is run. -/
theorem Session.run_of_parse {source : String} {n : Node} (h : Grammar.parse source = .ok n) :
    Session.run source = .ok ⟨.of n, source⟩ := by
  unfold Session.run
  rw [h]

/-- What a session answers to a script is what the solutions of the script come to. -/
theorem Session.all_of_ends (s : Session) {source : String} {solutions : Solutions}
    (hr : Session.run source = .ok ⟨solutions, source⟩) {vs : List Value} {a : Answer}
    {c' : Context} (he : solutions.Ends s.context vs a c') :
    ∃ enough, ∀ fuel ≥ enough, s.all fuel source =
      some ((Solutions.result vs a).mapError (Error.ofFailure · source), ⟨c'⟩) := by
  unfold Session.all Session.take
  rw [hr]
  obtain ⟨enough, ht⟩ := he.take
  refine ⟨max enough (vs.length + 1), fun fuel hle => ?_⟩
  have ht := ht fuel (Nat.le_trans (Nat.le_max_left ..) hle) fuel
    (Nat.lt_of_succ_le (Nat.le_trans (Nat.le_max_right ..) hle)) []
  simp only [ht, Option.map_some]
  rfl

/-- A session has an answer to every script, and it does not depend on the fuel. -/
theorem Session.all_answers (s : Session) (source : String) :
    ∃ enough result s', ∀ fuel ≥ enough, s.all fuel source = some (result, s') := by
  cases hp : Session.run source with
  | error e =>
      refine ⟨0, .error e, s, fun _ _ => ?_⟩
      unfold Session.all Session.take
      rw [hp]
  | ok r =>
      obtain ⟨program, -, rfl⟩ := Session.run_eq_ok hp
      have hd : (Solutions.of program).Drains s.context.limits s.context.nesting :=
        Solutions.drains_of_stream (.evaluate program)
      obtain ⟨vs, a, c', he⟩ := hd.ends ⟨rfl, rfl⟩
      obtain ⟨enough, ht⟩ := s.all_of_ends hp he
      exact ⟨enough, _, _, ht⟩

end Nondet
