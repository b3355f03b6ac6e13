import Nondet.Proofs.Context.Ground
import Nondet.Proofs.Pull.Closed
import Nondet.Proofs.Pull.Limits

/-!
# Pull — Ground

A closed script gets the same replies in a session as alone.  Two streams echo each other (`s.Echoes
G t`) when they are the same but for the numbers of frames and closures, which are those of the
session in `t`, and for what their snapshots remember of the ground.  Asked in contexts that echo
each other they make moves that do so (`Move.Echoes`), request by request, until the session runs
into a limit; and so do their replies (`ask_echoes`).

An assignment passes over a declaration that was not executed yet, and then it may go beyond the
script, where the session has frames and the script alone has none.  So no request may execute one
too early (`Query.Premature`); if none does in the session, none does alone, and the other way
round.
-/

namespace Nondet

variable {G : Ground} {k k' c c' : Context} {α σ : Type} {l : Limits}

/-! ### What a stream holds -/

def Deferred.rename (G : Ground) : Deferred → Deferred
  | .native span name arguments => .native span name (arguments.map (Value.rename G))
  | .notFunction span callee    => .notFunction span (callee.rename G)
  | what                        => what

def Transform.rename (G : Ground) : Transform → Transform
  | .binary span op left => .binary span op (left.rename G)
  | f                    => f

/-- What a closed stream puts off comes to the same thing. -/
theorem Deferred.echoes (hG : G.Sound) (h : k.Echoes G c) (hl : k.frames.Layered) {what : Deferred}
    (hw : what.Closed k.frames k.current) :
    Action.Echoes G (fun o p => p = o.rename G) (what.run.on k) ((what.rename G).run.on c) := by
  cases what with
  | lookup span name =>
      exact (Action.Echoes.lookup h hG hl hw span).bind fun _ _ _ _ _ _ e h' => .ok (e ▸ rfl) h'
  | defineFunction span function =>
      refine (Action.Echoes.makeClosure h function).bind fun a b _ _ _ _ e h' => ?_
      subst e
      exact (Action.Echoes.define h' hG _ (.closure a) true span).bind
        fun _ _ _ _ _ _ _ h'' => .ok rfl h''
  | closure function =>
      exact (Action.Echoes.makeClosure h function).bind fun _ _ _ _ _ _ e h' => .ok (e ▸ rfl) h'
  | native span name arguments => exact absurd hw id
  | notFunction span callee =>
      simp only [Deferred.rename, Deferred.run, Value.text_rename]
      exact .error

/-- A transform of a closed stream comes to the same thing, unless it is an assignment that is
executed before the nearest declaration of its target. -/
theorem Transform.echoes (hG : G.Sound) (h : k.Echoes G c) (hl : k.frames.Layered) {f : Transform}
    (hf : f.Closed k.frames k.current) (outcome : Outcome)
    (hu : ∀ span name, f = .assign span name → outcome ≠ .cut →
      k.frames.lookup k.current name ≠ .error .unassigned) :
    Action.Echoes G (fun o p => p = o.rename G) ((f.run outcome).on k)
      (((f.rename G).run (outcome.rename G)).on c) := by
  cases f with
  | unary span op =>
      refine (Action.Echoes.operand h span _ outcome).bind fun v _ _ _ _ _ e h' => ?_
      rw [e, UnaryOp.apply_rename]
      refine (Action.Echoes.check h' span _).bind fun w _ _ _ hw _ e h'' => ?_
      subst e
      exact .ok (congrArg Outcome.value (Value.rename_of_isFunction
        (UnaryOp.isFunction_apply (Action.on_check_eq_ok hw).2)).symm) h''
  | binary span op left =>
      refine (Action.Echoes.operand h span _ outcome).bind fun v _ _ _ _ _ e h' => ?_
      rw [e, BinaryOp.apply_rename]
      refine (Action.Echoes.check h' span _).bind fun w _ _ _ hw _ e h'' => ?_
      subst e
      exact .ok (congrArg Outcome.value (Value.rename_of_isFunction
        (BinaryOp.isFunction_apply (Action.on_check_eq_ok hw).2)).symm) h''
  | define span keyword name =>
      refine (Action.Echoes.operand h span _ outcome).bind fun v _ _ _ _ _ e h' => ?_
      subst e
      exact (Action.Echoes.define h' hG name v _ span).bind fun _ _ _ _ _ _ _ h'' => .ok rfl h''
  | assign span name =>
      refine (Action.Echoes.operand h span _ outcome).bind fun v _ k' c' hk _ e h' => ?_
      subst e
      have executed : outcome ≠ .cut := by
        rintro rfl
        cases hk
      obtain ⟨rfl, -⟩ := Action.on_operand_eq_ok hk
      exact (Action.Echoes.assign h' hG hl hf (hu span name rfl executed) v span).bind
        fun _ _ _ _ _ _ _ h'' => .ok rfl h''
  | «return» span =>
      exact (Action.Echoes.operand h span _ outcome).bind fun _ _ _ _ _ _ e h' => .ok (e ▸ rfl) h'

/-! ### Streams -/

mutual

/-- The second stream is that of the session. -/
inductive Stream.Echoes (G : Ground) : Stream → Stream → Prop
  | empty : Stream.Echoes G .empty .empty
  | once (outcome) : Stream.Echoes G (.once outcome) (.once (outcome.rename G))
  | deferred (what) : Stream.Echoes G (.deferred what) (.deferred (what.rename G))
  | node (n) : Stream.Echoes G (.node n) (.node n)
  | nested {span s t} (h : Stream.Echoes G s t) : Stream.Echoes G (.nested span s) (.nested span t)
  | map {s t} (h : Stream.Echoes G s t) (f) : Stream.Echoes G (.map s f) (.map t (f.rename G))
  | flatMap {s t} (h : Stream.Echoes G s t) (next) :
      Stream.Echoes G (.flatMap s next) (.flatMap t next)
  | append {s t s' t'} (h : Stream.Echoes G s t) (h' : Stream.Echoes G s' t') :
      Stream.Echoes G (.append s s') (.append t t')
  | calls (span callee) {o p} (h : o.Echoes G p) :
      Stream.Echoes G (.calls span callee o) (.calls span (callee.rename G) p)
  | amb (alternatives) : Stream.Echoes G (.amb alternatives) (.amb alternatives)
  | choice {snapshot snapshot' s t} (hs : snapshot.Echoes G snapshot') (h : Stream.Echoes G s t)
      (later) :
      Stream.Echoes G (.choice snapshot s later) (.choice snapshot' t later)
  | block (statements) : Stream.Echoes G (.block statements) (.block statements)
  | body (statements) : Stream.Echoes G (.body statements) (.body statements)
  | sequence {begun begun'} (h : begun.Echoes G begun') :
      Stream.Echoes G (.sequence begun) (.sequence begun')
  | framed {frame s t} (hi : frame ≠ 0) (h : Stream.Echoes G s t) :
      Stream.Echoes G (.framed frame s) (.framed (G.frame frame) t)
  | call (span closure arguments this) :
      Stream.Echoes G (.call span closure arguments this)
        (.call span (closure.rename G) (arguments.map (Value.rename G)) (this.map (Value.rename G)))
  | activation {frame s t} (hi : frame ≠ 0) (h : Stream.Echoes G s t) :
      Stream.Echoes G (.activation frame s) (.activation (G.frame frame) t)

inductive Odometer.Echoes (G : Ground) : Odometer → Odometer → Prop
  | start (arguments) : Odometer.Echoes G (.start arguments) (.start arguments)
  | turning {begun begun'} (h : begun.Echoes G begun') (values) :
      Odometer.Echoes G (.turning begun values) (.turning begun' (values.map (Value.rename G)))

inductive OpenArguments.Echoes (G : Ground) : OpenArguments → OpenArguments → Prop
  | none : OpenArguments.Echoes G .none .none
  | push {s t} (h : s.Echoes G t) (span later) {earlier earlier'}
      (he : OpenArguments.Echoes G earlier earlier') :
      OpenArguments.Echoes G (.push s span later earlier) (.push t span later earlier')

inductive OpenStatements.Echoes (G : Ground) : OpenStatements → OpenStatements → Prop
  | none : OpenStatements.Echoes G .none .none
  | push {s t} (h : s.Echoes G t) (later) {earlier earlier'}
      (he : OpenStatements.Echoes G earlier earlier') :
      OpenStatements.Echoes G (.push s later earlier) (.push t later earlier')

end

namespace Stream

/-- A node that is no script unfolds alike. -/
theorem echoes_build : ∀ {n : Node}, n.ScriptFree → (build n).Echoes G (build n)
  | .literal _ value, _ => by cases value <;> exact .once (.value _)
  | .identifier span name, _ => by
      rw [build]
      split
      · exact .once .cut
      · exact .deferred (.lookup span name)
  | .call _ callee arguments, _ => by
      rw [build]
      split
      · exact .amb arguments
      · exact .flatMap (.node callee) _
  | .unary span op argument, _ => .map (.node argument) (.unary span op)
  | .binary _ _ left _, _ => .flatMap (.node left) _
  | .logical _ .and left _, _ | .logical _ .or left _, _ => .flatMap (.node left) _
  | .conditional _ test _ _, _ | .ifStatement _ test _ _, _ => .flatMap (.node test) _
  | .variableDeclaration span keyword name init, _ => .map (.node init) (.define span keyword name)
  | .assignment span name value, _ => .map (.node value) (.assign span name)
  | .functionDeclaration span _ _ _ _, _ => .deferred (.defineFunction span _)
  | .arrowFunction _ _ _ _ _, _ => .deferred (.closure _)
  | .returnStatement _ none, _ => .once (.returned .undefined)
  | .returnStatement span (some argument), _ => .map (.node argument) (.return span)
  | .block _ statements, _ => .block statements
  | .expressionStatement _ expression, h =>
    echoes_build (n := expression) (h.child List.mem_cons_self)
  | .program _ _, h => nomatch h.self

theorem echoes_ofStatements : ∀ ss : List Node, (ofStatements ss).Echoes G (ofStatements ss)
  | [] => .once (.value .undefined)
  | n :: ns => .sequence (.push (.node n) ns .none)

end Stream

theorem echoes_apply (callee : Value) (arguments : List Value) (span : Span) :
    (apply callee arguments span none).Echoes G
      (apply (callee.rename G) (arguments.map (Value.rename G)) span none) := by
  cases callee with
  | closure closure => exact .call span closure arguments none
  | native name => exact .deferred (.native span name arguments)
  | _ => exact .deferred (.notFunction span _)

/-- What is evaluated next is evaluated alike. -/
theorem Continuation.echoes (h : k.Echoes G c) (next : Continuation) (outcome : Outcome) :
    Action.Echoes G (Stream.Echoes G) ((next.run outcome).on k)
      ((next.run (outcome.rename G)).on c) := by
  cases next with
  | rightOperand span op right =>
      refine (Action.Echoes.operand h span _ outcome).bind fun v _ _ _ _ _ e h' => ?_
      subst e
      exact .ok (.map (.node right) (.binary span op v)) h'
  | branch span test consequent alternate =>
      refine (Action.Echoes.operand h span _ outcome).bind fun v _ _ _ _ _ e h' => ?_
      rw [e, Test.decide_rename]
      refine (Action.Echoes.check h' span _).bind fun taken _ _ _ _ _ e h'' => ?_
      subst e
      cases taken with
      | true => exact .ok (.node consequent) h''
      | false =>
          cases alternate with
          | none => exact .ok (.once (.value .undefined)) h''
          | some alternate => exact .ok (.node alternate) h''
  | arguments span nodes =>
      refine (Action.Echoes.operand h span _ outcome).bind fun v _ _ _ _ _ e h' => ?_
      subst e
      exact .ok (.calls span v (.start nodes)) h'

/-! ### Replies and moves -/

/-- The second reply is that of the session. -/
inductive Reply.Echoes (G : Ground) (S : σ → σ → Prop) (A : α → α → Prop) :
    Reply σ α → Reply σ α → Prop
  | yield {a b s t} {k c : Context} (ha : A a b) (hs : S s t) (hc : k.Echoes G c) :
      Echoes G S A (.yield a s k) (.yield b t c)
  | finished {k c : Context} (hc : k.Echoes G c) : Echoes G S A (.finished k) (.finished c)
  | failed {failure} {k c : Context} : Echoes G S A (.failed failure k) (.failed failure c)

abbrev Reply.StreamEchoes (G : Ground) : Reply Stream Outcome → Reply Stream Outcome → Prop :=
  Reply.Echoes G (Stream.Echoes G) fun o p => p = o.rename G

abbrev Reply.OdometerEchoes (G : Ground) :
    Reply Odometer (List Value) → Reply Odometer (List Value) → Prop :=
  Reply.Echoes G (Odometer.Echoes G) fun vs ws => ws = vs.map (Value.rename G)

theorem Reply.Echoes.ofResult {S : σ → σ → Prop} {A : α → α → Prop} {s t : σ}
    {x y : Except Failure α × Context} (h : Action.Echoes G A x y) (hs : S s t) :
    Reply.Echoes G S A (.ofResult s x) (.ofResult t y) := by
  cases h with
  | ok ha hc => exact .yield ha hs hc
  | error => exact .failed

/-- The request executes an assignment before the nearest declaration of its target. -/
inductive Query.Premature : Query → Prop
  | assignment {inner span name c outcome rest c'} (h : inner.Gives c (.yield outcome rest c'))
      (executed : outcome ≠ .cut)
      (unassigned : c'.frames.lookup c'.current name = .error .unassigned) :
      Premature (.stream (.map inner (.assign span name)) c)

/-- Nothing that is asked on the way executes an assignment too early. -/
def Query.Timely (q : Query) : Prop := ∀ q', q.Within q' → ¬ q'.Premature

/-- A request is timely when it is so itself and all that it asks is. -/
theorem Query.timely_iff {q : Query} :
    q.Timely ↔ ¬ q.Premature ∧ ∀ q', q.Asks q' → q'.Timely := by
  refine ⟨fun h => ⟨h q .refl, fun q' hq q'' hw => h q'' (.head hq hw)⟩,
    fun ⟨self, asked⟩ q' hw => ?_⟩
  rcases Relation.ReflTransGen.cases_head hw with rfl | ⟨q₁, hq, hw⟩
  · exact self
  · exact asked q₁ hq q' hw

/-- What holds of requests inside a closed script. -/
abbrev inClosed (l : Limits) : Contract := (requests l .blank).and closing

/-- An assignment that is executed too early alone is executed too early in the session. -/
theorem Query.Premature.echo (hG : G.Sound) {inner inner' : Stream} {span : Span} {name : String}
    (hn : k.frames.Has name k.current) {r r' : Reply Stream Outcome}
    (hreply : (inClosed l).streamReply inner k r) (hg : inner.Gives k r) (hg' : inner'.Gives c r')
    (he : r.StreamEchoes G r')
    (h : (Query.stream (.map inner (.assign span name)) k).Premature) :
    (Query.stream (.map inner' (.assign span name)) c).Premature := by
  obtain ⟨hg₁, executed, unassigned⟩ := h
  obtain rfl := hg.unique hg₁
  obtain ⟨⟨⟨⟨fits, -⟩, hd⟩, -⟩, hk⟩ := hreply
  cases he with
  | yield ha hs hc' =>
      subst ha
      refine .assignment hg' (fun e => executed (Outcome.rename_eq_cut.mp e)) ?_
      exact (hc'.unassigned_iff hG (Context.Fits.layered fits)
        (hd.1.current ▸ hn.mono hk.1)).mpr unassigned

/-- The second move, which is that of the session, asks what the first one asks and answers alike,
or it has run into a limit. -/
inductive Move.Echoes (G : Ground) (l : Limits) (A : Reply σ α → Reply σ α → Prop) :
    Move σ α → Move σ α → Prop
  | answer {r r'} (h : A r r') : Echoes G l A (.answer r) (.answer r')
  | exceeded {m failure c} (h : failure.Exceeded) : Echoes G l A m (.answer (.failed failure c))
  | stream {s t k c next next'} (hs : s.Echoes G t) (hc : k.Echoes G c)
      (h : ∀ r r', (inClosed l).streamReply s k r → s.Gives k r → t.Gives c r' →
        r.StreamEchoes G r' → Echoes G l A (next r) (next' r'))
      (pass : ∀ failure c', ∃ c'', next' (.failed failure c') = .answer (.failed failure c'')) :
      Echoes G l A (.stream s k next) (.stream t c next')
  | odometer {o p k c next next'} (ho : o.Echoes G p) (hc : k.Echoes G c)
      (h : ∀ r r', (inClosed l).odometerReply o k r → r.OdometerEchoes G r' →
        Echoes G l A (next r) (next' r'))
      (pass : ∀ failure c', ∃ c'', next' (.failed failure c') = .answer (.failed failure c'')) :
      Echoes G l A (.odometer o k next) (.odometer p c next')

namespace Move.Echoes

/-- A limit that was reached on the way is the answer. -/
theorem exceeded_of_pass {τ β : Type} {r' : Reply σ α} {next' : Reply τ β → Move σ α}
    {r₁ : Reply τ β} (e : r₁.Exceeded)
    (pass : ∀ failure c', ∃ c'', next' (.failed failure c') = .answer (.failed failure c''))
    {askStream : Stream → Context → Option (Reply Stream Outcome)}
    {askOdometer : Odometer → Context → Option (Reply Odometer (List Value))}
    (hr : (next' r₁).run askStream askOdometer = some r') : r'.Exceeded := by
  cases r₁ with
  | failed failure c' =>
      obtain ⟨c'', e'⟩ := pass failure c'
      rw [e'] at hr
      cases hr
      exact e
  | yield _ _ _ => cases e
  | finished _ => cases e

/-- With so much fuel, a request of the session gets the reply that the script alone gets, unless it
runs into a limit; and if the request is timely on one side, it is timely alone. -/
def StreamsEcho (G : Ground) (l : Limits) (fuel : Nat) : Prop :=
  ∀ s t k c r', (inClosed l).stream s k → s.Echoes G t → k.Echoes G c →
    (Query.stream s k).Timely ∨ (Query.stream t c).Timely → t.ask fuel c = some r' →
    r'.Exceeded ∨ (Query.stream s k).Timely ∧ ∃ r, s.ask fuel k = some r ∧ r.StreamEchoes G r'

/-- The same for odometers. -/
def OdometersEcho (G : Ground) (l : Limits) (fuel : Nat) : Prop :=
  ∀ o p k c r', (inClosed l).odometer o k → o.Echoes G p → k.Echoes G c →
    (Query.odometer o k).Timely ∨ (Query.odometer p c).Timely → p.ask fuel c = some r' →
    r'.Exceeded ∨ (Query.odometer o k).Timely ∧ ∃ r, o.ask fuel k = some r ∧ r.OdometerEchoes G r'

/-- Moves that echo each other come to replies that do so, if all that they ask does. -/
theorem run {fuel : Nat} {A : Reply σ α → Reply σ α → Prop} {Q : Reply σ α → Prop}
    (hs : StreamsEcho G l fuel) (ho : OdometersEcho G l fuel)
    {m m' : Move σ α} (h : Echoes G l A m m') (hm : m.Meets (inClosed l) Q)
    (hq : (∀ q, m.Asks q → q.Timely) ∨ ∀ q, m'.Asks q → q.Timely) {r' : Reply σ α}
    (hr : m'.run (Stream.ask fuel) (Odometer.ask fuel) = some r') :
    r'.Exceeded ∨ (∀ q, m.Asks q → q.Timely) ∧
      ∃ r, m.run (Stream.ask fuel) (Odometer.ask fuel) = some r ∧ A r r' := by
  have kept := closing_kept l
  induction h with
  | answer h =>
      cases hr
      exact .inr ⟨nofun, _, rfl, h⟩
  | exceeded h =>
      cases hr
      exact .inl h
  | @stream s t k c next next' hst hc _ pass ih =>
      obtain ⟨r₁', h₁, h₂⟩ := Option.bind_eq_some_iff.mp hr
      rcases hs s t k c r₁' hm.1 hst hc (hq.imp (· _ .stream) (· _ .stream)) h₁ with
        e | ⟨timely, r₁, hr₁, he⟩
      · exact .inl (exceeded_of_pass e pass h₂)
      · have reply := (kept.ask fuel).1 s k r₁ hm.1 hr₁
        have later := hq.imp (fun h q hq => h q (.afterStream ⟨fuel, hr₁⟩ hq))
          fun h q hq => h q (.afterStream ⟨fuel, h₁⟩ hq)
        refine (ih r₁ r₁' reply ⟨fuel, hr₁⟩ ⟨fuel, h₁⟩ he (hm.2 r₁ reply) later h₂).imp_right
          fun ⟨rest, r, hr, ha⟩ => ⟨fun q hq => ?_, r, Option.bind_eq_some_iff.mpr ⟨r₁, hr₁, hr⟩, ha⟩
        cases hq with
        | stream => exact timely
        | afterStream hg hq => exact rest q (hg.unique ⟨fuel, hr₁⟩ ▸ hq)
  | @odometer o p k c next next' hop hc _ pass ih =>
      obtain ⟨r₁', h₁, h₂⟩ := Option.bind_eq_some_iff.mp hr
      rcases ho o p k c r₁' hm.1 hop hc (hq.imp (· _ .odometer) (· _ .odometer)) h₁ with
        e | ⟨timely, r₁, hr₁, he⟩
      · exact .inl (exceeded_of_pass e pass h₂)
      · have reply := (kept.ask fuel).2 o k r₁ hm.1 hr₁
        have later := hq.imp (fun h q hq => h q (.afterOdometer ⟨fuel, hr₁⟩ hq))
          fun h q hq => h q (.afterOdometer ⟨fuel, h₁⟩ hq)
        refine (ih r₁ r₁' reply he (hm.2 r₁ reply) later h₂).imp_right
          fun ⟨rest, r, hr, ha⟩ => ⟨fun q hq => ?_, r, Option.bind_eq_some_iff.mpr ⟨r₁, hr₁, hr⟩, ha⟩
        cases hq with
        | odometer => exact timely
        | afterOdometer hg hq => exact rest q (hg.unique ⟨fuel, hr₁⟩ ▸ hq)

/-- What is asked for its answer. -/
theorem asked {s t : Stream} (hs : s.Echoes G t) (hc : k.Echoes G c) :
    Echoes G l (Reply.StreamEchoes G) (.stream s k .answer) (.stream t c .answer) :=
  .stream hs hc (fun _ _ _ _ _ h => .answer h) fun _ c' => ⟨c', rfl⟩

theorem odometer_asked {o p : Odometer} (ho : o.Echoes G p) (hc : k.Echoes G c) :
    Echoes G l (Reply.OdometerEchoes G) (.odometer o k .answer) (.odometer p c .answer) :=
  .odometer ho hc (fun _ _ _ h => .answer h) fun _ c' => ⟨c', rfl⟩

/-! ### One move of each stream -/

/-- What runs in a frame of its own. -/
theorem inFrame {frame : FrameId} {f : Outcome → Outcome} {W W' : Stream → Stream}
    (hf : ∀ o, f (Outcome.rename G o) = (f o).rename G)
    (hW : ∀ {s t : Stream}, s.Echoes G t → (W s).Echoes G (W' t)) (hc : k.Echoes G c) :
    ∀ {r r' : Reply Stream Outcome}, (k.push frame).Disciplined Stream.Placed r →
      r.StreamEchoes G r' → Echoes G l (Reply.StreamEchoes G)
        (match r with
          | .yield outcome inner c => .answer (.yield (f outcome) (W inner) c.pop)
          | .finished c            => .answer (.finished c.pop)
          | .failed failure c      => .answer (.failed failure c) : Move Stream Outcome)
        (match r' with
          | .yield outcome inner c => .answer (.yield (f outcome) (W' inner) c.pop)
          | .finished c            => .answer (.finished c.pop)
          | .failed failure c      => .answer (.failed failure c) : Move Stream Outcome)
  | _, _, hd, .yield ha hs hc' =>
    .answer (.yield (ha ▸ hf _) (hW hs) (hc.pop hc' hd.1.stack))
  | _, _, hd, .finished hc' => .answer (.finished (hc.pop hc' (Context.Alike.stack hd)))
  | _, _, _, .failed => .answer .failed

theorem nested (hc : k.Echoes G c) {s t : Stream} (h : s.Echoes G t) (span : Span) :
    Echoes G l (Reply.StreamEchoes G) ((Stream.nested span s).move k)
      ((Stream.nested span t).move c) := by
  obtain ⟨-, e⟩ | ⟨below, e⟩ := Stream.move_nested_cases span t c <;> rw [e]
  · exact .exceeded trivial
  · rw [Stream.move_nested
      (Nat.lt_of_le_of_lt hc.nesting (Nat.lt_of_lt_of_le below hc.maxNesting))]
    refine .stream h hc.enterNested (fun r r' _ _ _ he => ?_) fun _ c' => ⟨c'.leaveNested, rfl⟩
    cases he with
    | yield ha hs hc' => exact .answer (.yield ha (.nested hs) hc'.leaveNested)
    | finished hc' => exact .answer (.finished hc'.leaveNested)
    | failed => exact .answer .failed

theorem map (hG : G.Sound) (hc : k.Echoes G c) {s t : Stream} (h : s.Echoes G t) {f : Transform}
    (hf : f.Closed k.frames k.current)
    (hp : ¬ (Query.stream (.map s f) k).Premature ∨
      ¬ (Query.stream (.map t (f.rename G)) c).Premature) :
    Echoes G l (Reply.StreamEchoes G) ((Stream.map s f).move k)
      ((Stream.map t (f.rename G)).move c) := by
  refine .stream h hc (fun r r' reply hg hg' he => ?_) fun _ c' => ⟨c', rfl⟩
  obtain ⟨⟨⟨⟨fits, -⟩, hd⟩, -⟩, hk⟩ := id reply
  cases he with
  | @yield outcome _ s' t' k' c' ha hs hc' =>
      subst ha
      have layered := Context.Fits.layered fits
      have hf' : f.Closed k'.frames k'.current := hd.1.current ▸ hf.mono hk.1
      refine .answer (.ofResult (Transform.echoes hG hc' layered hf' outcome
        fun span name e executed unassigned => ?_) (.map hs f))
      -- The assignment would be executed too early in both contexts.
      subst e
      have early : (Query.stream (.map s (.assign span name)) k).Premature :=
        .assignment hg executed unassigned
      exact hp.elim (· early) (· (early.echo hG hf reply hg hg' (.yield rfl hs hc')))
  | finished hc' => exact .answer (.finished hc')
  | failed => exact .answer .failed

theorem flatMap (hc : k.Echoes G c) {s t : Stream} (h : s.Echoes G t) (next : Continuation) :
    Echoes G l (Reply.StreamEchoes G) ((Stream.flatMap s next).move k)
      ((Stream.flatMap t next).move c) := by
  refine .stream h hc (fun r r' _ _ _ he => ?_) fun _ c' => ⟨c', rfl⟩
  cases he with
  | @yield outcome _ s' t' k' c' ha hs hc' =>
      subst ha
      have result := Continuation.echoes hc' next outcome
      rcases hx : (next.run outcome).on k' with ⟨failure | inner, k''⟩ <;>
        rcases hy : (next.run (outcome.rename G)).on c' with ⟨failure' | inner', c''⟩ <;>
          rw [hx, hy] at result <;> simp only [hx, hy]
      · cases result
        exact .answer .failed
      · cases result
      · cases result
      · cases result with
        | ok hi hc'' => exact asked (.append hi (.flatMap hs next)) hc''
  | finished hc' => exact .answer (.finished hc')
  | failed => exact .answer .failed

theorem append (hc : k.Echoes G c) {s t s' t' : Stream} (h : s.Echoes G t) (h' : s'.Echoes G t') :
    Echoes G l (Reply.StreamEchoes G) ((Stream.append s s').move k)
      ((Stream.append t t').move c) := by
  refine .stream h hc (fun r r' _ _ _ he => ?_) fun _ c' => ⟨c', rfl⟩
  cases he with
  | yield ha hs hc' => exact .answer (.yield ha (.append hs h') hc')
  | finished hc' => exact asked h' hc'
  | failed => exact .answer .failed

theorem calls (hc : k.Echoes G c) (span : Span) (callee : Value) {o p : Odometer}
    (h : o.Echoes G p) :
    Echoes G l (Reply.StreamEchoes G) ((Stream.calls span callee o).move k)
      ((Stream.calls span (callee.rename G) p).move c) := by
  refine .odometer h hc (fun r r' _ he => ?_) fun _ c' => ⟨c', rfl⟩
  cases he with
  | yield ha ho hc' =>
      subst ha
      exact asked (.append (echoes_apply callee _ span) (.calls span callee ho)) hc'
  | finished hc' => exact .answer (.finished hc')
  | failed => exact .answer .failed

theorem amb (hG : G.Sound) (hr : k.frames.InRange) (hc : k.Echoes G c) : ∀ alternatives : List Node,
    Echoes G l (Reply.StreamEchoes G) ((Stream.amb alternatives).move k)
      ((Stream.amb alternatives).move c)
  | []         => .answer (.finished hc)
  | n :: later => asked (.choice (hc.snapshot hG hr) (.node n) later) hc

theorem choice (hc : k.Echoes G c) {snapshot snapshot' : Snapshot}
    (hs : snapshot.Echoes G snapshot')
    {s t : Stream} (h : s.Echoes G t) (later : List Node) :
    Echoes G l (Reply.StreamEchoes G) ((Stream.choice snapshot s later).move k)
      ((Stream.choice snapshot' t later).move c) := by
  refine .stream h hc (fun r r' _ _ _ he => ?_) fun _ c' => ⟨c', rfl⟩
  cases he with
  | yield ha ht hc' => exact .answer (.yield ha (.choice hs ht later) hc')
  | finished hc' =>
      have back := hc'.restore hs
      cases later with
      | nil => exact .answer (.finished back)
      | cons n later => exact asked (.choice hs (.node n) later) back
  | failed => exact .answer .failed

theorem body (hG : G.Sound) (hc : k.Echoes G c) (ss : List Node) :
    Echoes G l (Reply.StreamEchoes G) ((Stream.body ss).move k) ((Stream.body ss).move c) := by
  have result := Action.Echoes.hoist hG ss hc
  simp only [Stream.move]
  rcases hx : (Action.hoist ss).on k with ⟨failure | _, k'⟩ <;>
    rcases hy : (Action.hoist ss).on c with ⟨failure' | _, c'⟩ <;> rw [hx, hy] at result
  · cases result
    exact .answer .failed
  · cases result
  · cases result
  · cases result with
    | ok _ hc' => exact asked (Stream.echoes_ofStatements ss) hc'

theorem sequence (hc : k.Echoes G c) : ∀ {begun begun' : OpenStatements}, begun.Echoes G begun' →
    Echoes G l (Reply.StreamEchoes G) ((Stream.sequence begun).move k)
      ((Stream.sequence begun').move c)
  | _, _, .none => .answer (.finished hc)
  | _, _, .push h later hb => by
      refine .stream h hc (fun r r' _ _ _ he => ?_) fun _ c' => ⟨c', rfl⟩
      cases he with
      | @yield outcome _ s' t' k' c' ha hs hc' =>
          subst ha
          cases outcome with
          | returned v => exact .answer (.yield rfl (.sequence (.push hs later hb)) hc')
          | value v =>
              cases later with
              | nil => exact .answer (.yield rfl (.sequence (.push hs [] hb)) hc')
              | cons n later =>
                  exact asked (.sequence (.push (.node n) later (.push hs (n :: later) hb))) hc'
          | cut =>
              cases later with
              | nil => exact .answer (.yield rfl .empty hc')
              | cons n later => exact asked (.sequence (.push (.node n) later .none)) hc'
      | finished hc' => exact asked (.sequence hb) hc'
      | failed => exact .answer .failed

theorem block (hc : k.Echoes G c) (ss : List Node) :
    Echoes G l (Reply.StreamEchoes G) ((Stream.block ss).move k) ((Stream.block ss).move c) := by
  have new : c.frames.next = G.frame k.frames.next := hc.frames.next
  have frame : Frame.child "block" c.current = (Frame.child "block" k.current).rename G := by
    rw [hc.current]
    rfl
  simp only [Stream.move, new, frame]
  exact asked (.framed (Nat.ne_of_gt hc.frames.next_pos) (.body ss)) (hc.addFrame _)

theorem call (hc : k.Echoes G c) (span : Span) (closure : Closure) (arguments : List Value)
    (this : Option Value) : Echoes G l (Reply.StreamEchoes G)
      ((Stream.call span closure arguments this).move k)
      ((Stream.call span (closure.rename G) (arguments.map (Value.rename G))
        (this.map (Value.rename G))).move c) := by
  have new : c.frames.next = G.frame k.frames.next := hc.frames.next
  have same : (arguments.map (Value.rename G)).length = arguments.length := List.length_map _
  obtain ⟨arity, e⟩ | ⟨-, -, e⟩ | ⟨arity, below, e⟩ := Stream.move_call_cases span
    (this.map (Value.rename G)) (closure.rename G) (arguments.map (Value.rename G)) c <;> rw [e]
  · rw [Stream.move_call_mismatch span this (same ▸ arity), same]
    exact .answer .failed
  · exact .exceeded trivial
  · have below' : k.depth < k.limits.maxDepth := by
      have := hc.depth
      have := hc.maxDepth
      omega
    rw [Stream.move_call span this (same ▸ arity) below', new, ← Frame.rename_activation]
    exact asked (.activation (Nat.ne_of_gt hc.frames.next_pos) (.body _)) (hc.addFrame _)

theorem turning (hc : k.Echoes G c) (values : List Value) :
    ∀ {begun begun' : OpenArguments}, begun.Echoes G begun' →
      Echoes G l (Reply.OdometerEchoes G) ((Odometer.turning begun values).move k)
        ((Odometer.turning begun' (values.map (Value.rename G))).move c)
  | _, _, .none => .answer (.finished hc)
  | _, _, .push h span later hb => by
      refine .stream h hc (fun r r' _ _ _ he => ?_) fun _ c' => ⟨c', rfl⟩
      cases he with
      | @yield outcome _ s' t' k' c' ha hs hc' =>
          subst ha
          have result := Action.Echoes.operand hc' span "call argument" outcome
          rcases hx : (Action.operand span "call argument" outcome).on k' with ⟨failure | v, k''⟩ <;>
            rcases hy : (Action.operand span "call argument" (outcome.rename G)).on c' with
              ⟨failure' | v', c''⟩ <;> rw [hx, hy] at result <;> simp only [hx, hy]
          · cases result
            exact .answer .failed
          · cases result
          · cases result
          · cases result with
            | ok hv hc'' =>
                subst hv
                cases later with
                | nil =>
                    refine .answer (.yield ?_ (.turning (.push hs span [] hb) values) hc'')
                    rw [List.map_reverse, List.map_cons]
                | cons n later =>
                    exact odometer_asked
                      (.turning (.push (.node n) _ later (.push hs span (n :: later) hb))
                        (v :: values))
                      hc''
      | finished hc' =>
          exact odometer_asked (List.map_tail ▸ .turning hb values.tail) hc'
      | failed => exact .answer .failed

theorem start (hc : k.Echoes G c) : ∀ arguments : List Node,
    Echoes G l (Reply.OdometerEchoes G) ((Odometer.start arguments).move k)
      ((Odometer.start arguments).move c)
  | []     => .answer (.yield rfl (.turning .none []) hc)
  | n :: later => odometer_asked (.turning (.push (.node n) n.span later .none) []) hc

/-- **Streams that echo each other make moves that do.** -/
theorem stream_move (hG : G.Sound) {s t : Stream} (hb : (inClosed l).stream s k) (h : s.Echoes G t)
    (hc : k.Echoes G c)
    (hp : ¬ (Query.stream s k).Premature ∨ ¬ (Query.stream t c).Premature) :
    Echoes G l (Reply.StreamEchoes G) (s.move k) (t.move c) := by
  obtain ⟨⟨⟨⟨context, fits⟩, -⟩, -⟩, -, closed⟩ := hb
  have layered := Context.Fits.layered context
  cases h with
  | empty => exact .answer (.finished hc)
  | once outcome => exact .answer (.yield rfl .empty hc)
  | deferred what => exact .answer (.ofResult (what.echoes hG hc layered closed) .empty)
  | node n => exact asked (.nested (Stream.echoes_build (Regime.ScriptFree.every fits))) hc
  | nested h => exact nested hc h _
  | map h f => exact map hG hc h closed.2 hp
  | flatMap h next => exact flatMap hc h next
  | append h h' => exact append hc h h'
  | calls span callee h => exact calls hc span callee h
  | amb alternatives => exact amb hG context.range hc alternatives
  | choice hs h later => exact choice hc hs h later
  | block statements => exact block hc statements
  | body statements => exact body hG hc statements
  | sequence h => exact sequence hc h
  | framed hi h =>
      exact .stream h (hc.push hi) (fun r r' hr _ _ he => inFrame (f := id) (fun _ => rfl)
        (fun h => .framed hi h) hc hr.1.1.2 he) fun _ c' => ⟨c', rfl⟩
  | call span closure arguments this => exact call hc span closure arguments this
  | activation hi h =>
      refine .stream h (hc.push hi) (fun r r' hr _ _ he => inFrame (fun o => ?_)
        (fun h => .activation hi h) hc hr.1.1.2 he) fun _ c' => ⟨c', rfl⟩
      cases o <;> rfl

theorem odometer_move {o p : Odometer} (h : o.Echoes G p) (hc : k.Echoes G c) :
    Echoes G l (Reply.OdometerEchoes G) (o.move k) (p.move c) := by
  cases h with
  | start arguments => exact start hc arguments
  | turning h values => exact turning hc values h

end Move.Echoes

/-- What is timely in the session, unless it runs into a limit, is not too early alone. -/
theorem Query.Premature.echo_move (hG : G.Sound) {fuel : Nat}
    (hs : Move.Echoes.StreamsEcho G l fuel)
    {s t : Stream} (hb : (inClosed l).stream s k) (h : s.Echoes G t) (hc : k.Echoes G c)
    (hq : ∀ q, (t.move c).Asks q → q.Timely) {r' : Reply Stream Outcome}
    (hr : (t.move c).run (Stream.ask fuel) (Odometer.ask fuel) = some r')
    (hp : (Query.stream s k).Premature) : r'.Exceeded ∨ (Query.stream t c).Premature := by
  have kept := closing_kept l
  have meets := kept.stream s k hb
  cases id hp with
  | @assignment inner span name =>
      cases h with
      | @map _ t' h =>
          obtain ⟨r₁', h₁, h₂⟩ := Option.bind_eq_some_iff.mp hr
          rcases hs inner t' k c r₁' meets.1 h hc (.inr (hq _ .stream)) h₁ with e | ⟨-, r₁, hr₁, he⟩
          · cases r₁' with
            | failed failure c' =>
                cases h₂
                exact .inl e
            | yield _ _ _ => cases e
            | finished _ => cases e
          · exact .inr (hp.echo hG hb.2.2.2 ((kept.ask fuel).1 inner k r₁ meets.1 hr₁)
              ⟨fuel, hr₁⟩ ⟨fuel, h₁⟩ he)

/-- Requests of the session get the replies that the script alone gets, with any fuel. -/
theorem ask_echoes (hG : G.Sound) (l : Limits) : ∀ fuel,
    Move.Echoes.StreamsEcho G l fuel ∧ Move.Echoes.OdometersEcho G l fuel
  | 0 => ⟨fun _ _ _ _ _ _ _ _ _ hr => by simp at hr, fun _ _ _ _ _ _ _ _ _ hr => by simp at hr⟩
  | fuel + 1 => by
      obtain ⟨hs, ho⟩ := ask_echoes hG l fuel
      have kept := closing_kept l
      refine ⟨fun s t k c r' hb h hc hq hr => ?_, fun o p k c r' hb h hc hq hr => ?_⟩
      · rw [Query.timely_iff, Query.timely_iff] at hq
        rw [Stream.ask_succ] at hr ⊢
        have moves := Move.Echoes.stream_move hG hb h hc (hq.imp And.left And.left)
        rcases moves.run hs ho (kept.stream s k hb) (hq.imp And.right And.right) hr with
          e | ⟨asked, replies⟩
        · exact .inl e
        by_cases hp : (Query.stream s k).Premature
        · -- Then the request is timely in the session, and it is not.
          obtain ⟨notYet, timely⟩ := hq.resolve_left fun h => h.1 hp
          exact .inl ((hp.echo_move hG hs hb h hc timely hr).resolve_right notYet)
        · exact .inr ⟨Query.timely_iff.mpr ⟨hp, asked⟩, replies⟩
      · rw [Query.timely_iff, Query.timely_iff] at hq
        rw [Odometer.ask_succ] at hr ⊢
        refine ((Move.Echoes.odometer_move h hc).run hs ho (kept.odometer o k hb)
          (hq.imp And.right And.right) hr).imp_right fun ⟨asked, replies⟩ => ?_
        exact ⟨Query.timely_iff.mpr ⟨nofun, asked⟩, replies⟩

/-- **A closed script gets the same reply in a session as alone,** unless it runs into a limit. -/
theorem Stream.Echoes.gives (hG : G.Sound) {s t : Stream} (hb : (inClosed l).stream s k)
    (h : s.Echoes G t) (hc : k.Echoes G c)
    (hq : (Query.stream s k).Timely ∨ (Query.stream t c).Timely)
    {r' : Reply Stream Outcome} (hr : t.Gives c r') :
    r'.Exceeded ∨ (Query.stream s k).Timely ∧ ∃ r, s.Gives k r ∧ r.StreamEchoes G r' := by
  obtain ⟨fuel, hr⟩ := hr
  refine ((ask_echoes hG l fuel).1 s t k c r' hb h hc hq hr).imp_right fun ⟨timely, r, hr, he⟩ => ?_
  exact ⟨timely, r, ⟨fuel, hr⟩, he⟩

end Nondet
