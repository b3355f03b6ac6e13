import Nondet.Proofs.Context.Values
import Nondet.Proofs.Pull.Contract
import Nondet.Proofs.Tree.Declarations

/-!
# Pull — Orderly

Code that keeps its declarations to lists of statements leads to no other code.  A stream is orderly
when all nodes and all functions in it are (`Stream.Orderly`), a context when all functions in frames
are and the natives of the host give no others.  Asked in such a context, such a stream leaves both
so (`orderly_kept`): functions come from nodes, from frames and from the host, and from nowhere else.
-/

namespace Nondet

open Nondet.Action

variable {c c' : Context} {α β σ : Type}

/-! ### What is orderly -/

def Value.Orderly : Value → Prop
  | .closure c => c.function.Orderly
  | _          => True

/-- What is no closure is orderly. -/
theorem Value.orderly_of_asClosure? (v : Value) (h : v.asClosure? = none) : v.Orderly := by
  cases v with
  | closure c => cases h
  | _ => trivial

theorem Value.orderly_of_isFunction (v : Value) (h : v.isFunction = false) : v.Orderly :=
  v.orderly_of_asClosure? (asClosure?_of_isFunction h)

def Outcome.Orderly (o : Outcome) : Prop := o.toValue.Orderly

/-- The natives of the host give orderly values when their arguments are. -/
def Host.Orderly (host : Host) : Prop := ∀ name arguments, (∀ a ∈ arguments, a.Orderly) →
  ∀ v, host.call name arguments = .ok v → v.Orderly

/-- A host that only hands closures on is orderly. -/
theorem Host.HandsOn.orderly {host : Host} (h : host.HandsOn) : host.Orderly :=
  fun _ _ => h.gives Value.orderly_of_asClosure?

/-- In the context all values are orderly, and those that natives give are. -/
structure Context.Orderly (c : Context) : Prop where
  values : c.frames.All Value.Orderly
  host : c.host.Orderly

def Snapshot.Orderly (s : Snapshot) : Prop :=
  ∀ p ∈ s.bindings, ∀ name v m, (name, .assigned v m) ∈ p.2 → v.Orderly

def Deferred.Orderly : Deferred → Prop
  | .defineFunction _ function | .closure function => function.Orderly
  | .native _ _ arguments => ∀ a ∈ arguments, a.Orderly
  | .lookup _ _ | .notFunction _ _ => True

/-- Nodes that are evaluated next are orderly and declare nothing. -/
def Continuation.Plain : Continuation → Prop
  | .rightOperand _ _ right            => right.Plain
  | .branch _ _ consequent alternate   => consequent.Plain ∧ ∀ n ∈ alternate, n.Plain
  | .arguments _ nodes                 => ∀ n ∈ nodes, n.Plain

mutual

def Stream.Orderly : Stream → Prop
  | .empty                         => True
  | .once outcome                  => outcome.Orderly
  | .deferred what                 => what.Orderly
  | .node n                        => n.Orderly
  | .nested _ inner                => inner.Orderly
  | .map inner _                   => inner.Orderly
  | .flatMap outer next            => outer.Orderly ∧ next.Plain
  | .append first second           => first.Orderly ∧ second.Orderly
  | .calls _ callee arguments      => callee.Orderly ∧ arguments.Orderly
  | .amb alternatives              => ∀ n ∈ alternatives, n.Plain
  | .choice snapshot current later => snapshot.Orderly ∧ current.Orderly ∧ ∀ n ∈ later, n.Plain
  | .block statements | .program statements | .body statements => ∀ n ∈ statements, n.Orderly
  | .sequence begun                => begun.Orderly
  | .framed _ inner | .activation _ inner => inner.Orderly
  | .call _ closure arguments this =>
    closure.function.Orderly ∧ (∀ a ∈ arguments, a.Orderly) ∧ ∀ v ∈ this, v.Orderly

def Odometer.Orderly : Odometer → Prop
  | .start arguments      => ∀ n ∈ arguments, n.Plain
  | .turning begun values => begun.Orderly ∧ ∀ v ∈ values, v.Orderly

def OpenArguments.Orderly : OpenArguments → Prop
  | .none                        => True
  | .push stream _ later earlier => stream.Orderly ∧ (∀ n ∈ later, n.Plain) ∧ earlier.Orderly

def OpenStatements.Orderly : OpenStatements → Prop
  | .none                      => True
  | .push stream later earlier => stream.Orderly ∧ (∀ n ∈ later, n.Orderly) ∧ earlier.Orderly

end

/-! ### The first unfolding -/

/-- An orderly node unfolds into an orderly stream. -/
theorem Stream.orderly_build : ∀ {n : Node}, n.Orderly → (Stream.build n).Orderly
  | .literal _ value, _ => by cases value <;> trivial
  | .identifier _ _, _ => by
      rw [Stream.build]
      split <;> trivial
  | .call _ callee arguments, h => by
      have ha : ∀ n ∈ arguments, n.Plain := fun n hn => h.plain rfl (List.mem_cons_of_mem _ hn)
      rw [Stream.build]
      split
      · exact ha
      · exact ⟨(h.plain rfl List.mem_cons_self).orderly, ha⟩
  | .unary _ _ _, h => (h.plain rfl List.mem_cons_self).orderly
  | .binary _ _ _ _, h =>
    ⟨(h.plain rfl List.mem_cons_self).orderly, h.plain rfl (by simp [Node.children])⟩
  | .logical _ .and _ _, h =>
    ⟨(h.plain rfl List.mem_cons_self).orderly, h.plain rfl (by simp [Node.children]),
      fun _ hn => by cases hn; exact .of_literal _ _⟩
  | .logical _ .or _ _, h =>
    ⟨(h.plain rfl List.mem_cons_self).orderly, .of_literal _ _,
      fun _ hn => by cases hn; exact h.plain rfl (by simp [Node.children])⟩
  | .conditional _ _ _ _, h =>
    ⟨(h.plain rfl List.mem_cons_self).orderly, h.plain rfl (by simp [Node.children]),
      fun _ hn => by cases hn; exact h.plain rfl (by simp [Node.children])⟩
  | .variableDeclaration _ _ _ _, h => (h.plain rfl List.mem_cons_self).orderly
  | .assignment _ _ _, h => (h.plain rfl List.mem_cons_self).orderly
  | .functionDeclaration _ _ _ _ _, h => h.function rfl
  | .arrowFunction _ _ _ _ _, h => h.function rfl
  | .ifStatement _ _ _ alternate, h =>
    ⟨(h.plain rfl List.mem_cons_self).orderly, h.plain rfl (by simp [Node.children]),
      fun n hn => h.plain rfl (by simp [Node.children, Option.mem_def.mp hn])⟩
  | .returnStatement _ none, _ => trivial
  | .returnStatement _ (some _), h => (h.plain rfl List.mem_cons_self).orderly
  | .block _ _, h => fun _ hn => h.statement hn
  | .expressionStatement _ expression, h =>
    Stream.orderly_build (n := expression) (h.statement List.mem_cons_self)
  | .program _ _, h => fun _ hn => h.statement hn

theorem Stream.orderly_ofStatements : ∀ {ss : List Node}, (∀ n ∈ ss, n.Orderly) →
    (Stream.ofStatements ss).Orderly
  | [], _ => trivial
  | _ :: _, h => ⟨h _ List.mem_cons_self, fun n hn => h n (List.mem_cons_of_mem _ hn), trivial⟩

theorem orderly_apply {callee : Value} (hc : callee.Orderly) {arguments : List Value}
    (ha : ∀ a ∈ arguments, a.Orderly) (span : Span) : (apply callee arguments span none).Orderly := by
  cases callee with
  | closure closure => exact ⟨hc, ha, nofun⟩
  | native name => exact ha
  | _ => trivial

/-! ### Actions -/

theorem Deferred.Orderly.makes {what : Deferred} (h : what.Orderly) (hh : c.host.Orderly) :
    what.Makes Value.Orderly c := by
  cases what with
  | defineFunction span function | closure function => exact fun _ => h
  | native span name arguments => exact hh name arguments h
  | _ => trivial

theorem Continuation.Next.orderly {next : Continuation} {v : Value} {st : Stream}
    (h : next.Next v st) (hn : next.Plain) (hv : v.Orderly) : st.Orderly := by
  cases h with
  | right span op n => exact hn.orderly
  | consequent span test n alternate => exact hn.1.orderly
  | alternate span test consequent n => exact (hn.2 n rfl).orderly
  | neither span test consequent => trivial
  | calls span nodes => exact ⟨hv, hn⟩

namespace Context.Orderly

/-- What an action leaves. -/
theorem after {a : Action α} {Q : α → Prop} (hc : c.Orderly) (ha : a.Hands Value.Orderly Q c)
    (hs : a.Steady) : (a.on c).2.Orderly := by
  refine ⟨ha.1, ?_⟩
  have step := hs c
  rcases hr : a.on c with ⟨failure | x, c'⟩ <;> rw [hr] at step
  · exact (Context.Alike.host (c := c.raised failure) step) ▸ hc.host
  · exact (Context.Alike.host step) ▸ hc.host

theorem raised (hc : c.Orderly) (failure : Failure) : (c.raised failure).Orderly :=
  ⟨hc.values, hc.host⟩

theorem pop (hc : c.Orderly) : c.pop.Orderly := ⟨hc.values, hc.host⟩

theorem leaveNested (hc : c.Orderly) : c.leaveNested.Orderly := ⟨hc.values, hc.host⟩

theorem enterProgram (hc : c.Orderly) : c.enterProgram.Orderly :=
  ⟨hc.values.push fun v hv => by simp at hv, hc.host⟩

theorem addFrame (hc : c.Orderly) {frame : Frame} (h : ∀ v ∈ frame.values, v.Orderly) :
    (c.addFrame frame).Orderly := ⟨hc.values.push h, hc.host⟩

end Context.Orderly

/-! ### The contract -/

/-- All that is left is orderly. -/
def Reply.Orderly (rest : σ → Prop) (item : α → Prop) : Reply σ α → Prop
  | .yield a s c => c.Orderly ∧ item a ∧ rest s
  | .finished c | .failed _ c => c.Orderly

/-- What is orderly stays so. -/
def orderly : Contract where
  stream st c := c.Orderly ∧ st.Orderly
  streamReply _ _ r := r.Orderly Stream.Orderly Outcome.Orderly
  odometer o c := c.Orderly ∧ o.Orderly
  odometerReply _ _ r := r.Orderly Odometer.Orderly fun values => ∀ v ∈ values, v.Orderly

namespace Orderly

/-- The reply of an action whose result is passed on. -/
theorem ofResult {rest : σ → Prop} {item : α → Prop} {a : Action α} (hc : c.Orderly)
    (ha : a.Hands Value.Orderly item c) (hs : a.Steady) {s : σ} (h : rest s) :
    (Reply.ofResult s (a.on c)).Orderly rest item := by
  have left := hc.after ha hs
  have result := ha.2
  rcases hr : a.on c with ⟨failure | x, c'⟩ <;> rw [hr] at left result
  · exact left
  · exact ⟨left, result x rfl, h⟩

/-- A stream that is asked for its answer. -/
theorem asked {s : Stream} (hc : c.Orderly) (hs : s.Orderly) :
    (Move.stream s c .answer).Meets orderly (Reply.Orderly Stream.Orderly Outcome.Orderly) :=
  ⟨⟨hc, hs⟩, fun _ h => h⟩

/-- An odometer that is asked for its answer. -/
theorem odometer_asked {o : Odometer} (hc : c.Orderly) (ho : o.Orderly) :
    (Move.odometer o c .answer).Meets orderly
      (Reply.Orderly Odometer.Orderly fun values => ∀ v ∈ values, v.Orderly) :=
  ⟨⟨hc, ho⟩, fun _ h => h⟩

/-! ### One move of each stream -/

/-- The moves of the stream in the context leave what is orderly. -/
def Stays (st : Stream) (c : Context) : Prop :=
  (st.move c).Meets orderly (Reply.Orderly Stream.Orderly Outcome.Orderly)

/-- The moves of the odometer in the context leave what is orderly. -/
def OdometerStays (o : Odometer) (c : Context) : Prop :=
  (o.move c).Meets orderly
    (Reply.Orderly Odometer.Orderly fun values => ∀ v ∈ values, v.Orderly)

variable (hc : c.Orderly)

include hc

theorem nested {inner : Stream} (hs : inner.Orderly) (span : Span) : Stays (.nested span inner) c := by
  obtain ⟨-, h⟩ | ⟨-, h⟩ := Stream.move_nested_cases span inner c <;> rw [Stays, h]
  · exact hc.raised _
  · refine ⟨⟨⟨hc.values, hc.host⟩, hs⟩, fun r hr => ?_⟩
    cases r with
    | yield outcome inner' c' => exact ⟨hr.1.leaveNested, hr.2⟩
    | finished c' | failed failure c' => exact Context.Orderly.leaveNested hr

theorem map {inner : Stream} (hs : inner.Orderly) (f : Transform) : Stays (.map inner f) c := by
  refine ⟨⟨hc, hs⟩, fun r hr => ?_⟩
  cases r with
  | yield outcome inner' c' =>
      obtain ⟨hc', ho, hs'⟩ := hr
      exact ofResult (s := Stream.map inner' f) hc'
        (.transform hc'.values Value.orderly_of_isFunction f ho) (.transform f outcome) hs'
  | finished c' | failed failure c' => exact hr

theorem flatMap {outer : Stream} (hs : outer.Orderly) {next : Continuation} (hn : next.Plain) :
    Stays (.flatMap outer next) c := by
  refine ⟨⟨hc, hs⟩, fun r hr => ?_⟩
  cases r with
  | yield outcome outer' c' =>
      obtain ⟨hc', ho, hs'⟩ := hr
      obtain ⟨failure, e⟩ | ⟨inner, e, hi⟩ := next.on_run_cases outcome c' <;> simp only [e]
      · exact hc'.raised failure
      · exact asked hc' ⟨hi.orderly hn ho, hs', hn⟩
  | finished c' | failed failure c' => exact hr

theorem append {first second : Stream} (hs : first.Orderly) (hs' : second.Orderly) :
    Stays (.append first second) c := by
  refine ⟨⟨hc, hs⟩, fun r hr => ?_⟩
  cases r with
  | yield outcome first' c' => exact ⟨hr.1, hr.2.1, hr.2.2, hs'⟩
  | finished c' => exact asked hr hs'
  | failed failure c' => exact hr

theorem calls {callee : Value} (hv : callee.Orderly) {arguments : Odometer} (ho : arguments.Orderly)
    (span : Span) : Stays (.calls span callee arguments) c := by
  refine ⟨⟨hc, ho⟩, fun r hr => ?_⟩
  cases r with
  | yield values arguments' c' =>
      obtain ⟨hc', hvs, ho'⟩ := hr
      exact asked hc' ⟨orderly_apply hv hvs span, hv, ho'⟩
  | finished c' | failed failure c' => exact hr

theorem amb : ∀ {alternatives : List Node}, (∀ n ∈ alternatives, n.Plain) → Stays (.amb alternatives) c
  | [], _ => hc
  | _ :: _, h => by
      rw [List.forall_mem_cons] at h
      refine asked hc ⟨fun p hp name v m hv => ?_, h.1.orderly, h.2⟩
      obtain ⟨i, -, rfl⟩ := List.mem_map.mp hp
      exact hc.values.bindings hv

theorem choice {snapshot : Snapshot} (hsn : snapshot.Orderly) {current : Stream} (hs : current.Orderly)
    {later : List Node} (hl : ∀ n ∈ later, n.Plain) : Stays (.choice snapshot current later) c := by
  refine ⟨⟨hc, hs⟩, fun r hr => ?_⟩
  cases r with
  | yield outcome current' c' => exact ⟨hr.1, hr.2.1, hsn, hr.2.2, hl⟩
  | finished c' =>
      have hc' : c'.Orderly := hr
      have back : (c'.restore snapshot).Orderly := ⟨hc'.values.restore hsn, hc'.host⟩
      cases later with
      | nil => exact back
      | cons n later =>
          rw [List.forall_mem_cons] at hl
          exact asked back ⟨hsn, hl.1.orderly, hl.2⟩
  | failed failure c' => exact hr

theorem body {ss : List Node} (h : ∀ n ∈ ss, n.Orderly) : Stays (.body ss) c := by
  have left := hc.after (.hoist ss hc.values) (.hoist ss)
  rw [Stays]
  simp only [Stream.move]
  rcases hx : (hoist ss).on c with ⟨failure | _, c'⟩ <;> rw [hx] at left
  · exact left
  · exact asked left (Stream.orderly_ofStatements h)

theorem sequence : ∀ {begun : OpenStatements}, begun.Orderly → Stays (.sequence begun) c
  | .none, _ => hc
  | .push current later earlier, ⟨hs, hl, hb⟩ => by
      refine ⟨⟨hc, hs⟩, fun r hr => ?_⟩
      cases r with
      | yield outcome current' c' =>
          obtain ⟨hc', ho, hs'⟩ := hr
          have rest : (OpenStatements.push current' later earlier).Orderly := ⟨hs', hl, hb⟩
          cases outcome with
          | returned v => exact ⟨hc', ho, rest⟩
          | value v =>
              cases later with
              | nil => exact ⟨hc', ho, rest⟩
              | cons n later =>
                  rw [List.forall_mem_cons] at hl
                  exact asked hc' ⟨hl.1, hl.2, rest⟩
          | cut =>
              cases later with
              | nil => exact ⟨hc', ho, trivial⟩
              | cons n later =>
                  rw [List.forall_mem_cons] at hl
                  exact asked hc' ⟨hl.1, hl.2, trivial⟩
      | finished c' => exact asked (s := .sequence earlier) hr hb
      | failed failure c' => exact hr

theorem framed (frame : FrameId) {inner : Stream} (hs : inner.Orderly) :
    Stays (.framed frame inner) c := by
  refine ⟨⟨⟨hc.values, hc.host⟩, hs⟩, fun r hr => ?_⟩
  cases r with
  | yield outcome inner' c' => exact ⟨hr.1.pop, hr.2⟩
  | finished c' => exact Context.Orderly.pop hr
  | failed failure c' => exact hr

theorem activation (frame : FrameId) {inner : Stream} (hs : inner.Orderly) :
    Stays (.activation frame inner) c := by
  refine ⟨⟨⟨hc.values, hc.host⟩, hs⟩, fun r hr => ?_⟩
  cases r with
  | yield outcome inner' c' =>
      refine ⟨hr.1.pop, ?_, hr.2.2⟩
      cases outcome with
      | returned v => exact hr.2.1
      | value _ | cut => trivial
  | finished c' => exact Context.Orderly.pop hr
  | failed failure c' => exact hr

theorem call (span : Span) {closure : Closure} (hf : closure.function.Orderly) {arguments : List Value}
    (ha : ∀ a ∈ arguments, a.Orderly) {this : Option Value} (ht : ∀ v ∈ this, v.Orderly) :
    Stays (.call span closure arguments this) c := by
  have entered : (c.addFrame (.activation closure arguments span this)).Orderly :=
    hc.addFrame fun v hv => (Frame.mem_values_activation hv).elim (ha v) (ht v)
  obtain ⟨-, h⟩ | ⟨-, -, h⟩ | ⟨-, -, h⟩ :=
    Stream.move_call_cases span this closure arguments c <;> rw [Stays, h]
  · exact hc.raised _
  · exact ⟨entered.values, entered.host⟩
  · exact asked entered hf.statements

theorem turning {values : List Value} (hvs : ∀ v ∈ values, v.Orderly) :
    ∀ {begun : OpenArguments}, begun.Orderly → OdometerStays (.turning begun values) c
  | .none, _ => hc
  | .push current span later earlier, ⟨hs, hl, hb⟩ => by
      refine ⟨⟨hc, hs⟩, fun r hr => ?_⟩
      cases r with
      | yield outcome current' c' =>
          obtain ⟨hc', ho, hs'⟩ := hr
          obtain ⟨failure, e⟩ | e := on_operand_cases span "call argument" outcome c' <;>
            simp only [e]
          · exact hc'.raised failure
          · have opened : (OpenArguments.push current' span later earlier).Orderly := ⟨hs', hl, hb⟩
            have more : ∀ w ∈ outcome.toValue :: values, w.Orderly :=
              List.forall_mem_cons.mpr ⟨ho, hvs⟩
            cases later with
            | nil => exact ⟨hc', fun w hw => more w (List.mem_reverse.mp hw), opened, hvs⟩
            | cons n later =>
                rw [List.forall_mem_cons] at hl
                exact odometer_asked hc' ⟨⟨hl.1.orderly, hl.2, opened⟩, more⟩
      | finished c' =>
          exact odometer_asked (o := .turning earlier _) hr
            ⟨hb, fun w hw => hvs w (List.mem_of_mem_tail hw)⟩
      | failed failure c' => exact hr

theorem start : ∀ {arguments : List Node}, (∀ n ∈ arguments, n.Plain) →
    OdometerStays (.start arguments) c
  | [], _ => ⟨hc, nofun, trivial, nofun⟩
  | _ :: _, h => by
      rw [List.forall_mem_cons] at h
      exact odometer_asked hc ⟨⟨h.1.orderly, h.2, trivial⟩, nofun⟩

end Orderly

/-- **Orderly code leads to no other code.** -/
theorem orderly_kept : orderly.Kept where
  stream st c hcs := by
    obtain ⟨hc, hs⟩ := hcs
    cases st with
    | empty => exact hc
    | once outcome => exact ⟨hc, hs, trivial⟩
    | deferred what =>
        exact Orderly.ofResult (s := Stream.empty) hc
          (.deferred hc.values Value.orderly_of_isFunction (Deferred.Orderly.makes hs hc.host))
          (.deferred what) trivial
    | node n => exact Orderly.asked hc (s := .nested _ _) (Stream.orderly_build hs)
    | nested span inner => exact Orderly.nested hc (show inner.Orderly from hs) span
    | map inner f => exact Orderly.map hc (show inner.Orderly from hs) f
    | flatMap outer next => exact Orderly.flatMap hc hs.1 hs.2
    | append first second => exact Orderly.append hc hs.1 hs.2
    | calls span callee arguments => exact Orderly.calls hc hs.1 hs.2 span
    | amb alternatives => exact Orderly.amb hc hs
    | choice snapshot current later => exact Orderly.choice hc hs.1 hs.2.1 hs.2.2
    | block statements =>
        have entered : (c.addFrame (.child "block" c.current)).Orderly :=
          hc.addFrame fun v hv => by simp at hv
        exact Orderly.asked (s := .framed _ (.body statements)) entered hs
    | program statements => exact Orderly.asked (s := .body statements) hc.enterProgram hs
    | body statements => exact Orderly.body hc hs
    | sequence begun => exact Orderly.sequence hc hs
    | framed frame inner => exact Orderly.framed hc frame (show inner.Orderly from hs)
    | call span closure arguments this => exact Orderly.call hc span hs.1 hs.2.1 hs.2.2
    | activation frame inner => exact Orderly.activation hc frame (show inner.Orderly from hs)
  odometer o c hco := by
    obtain ⟨hc, ho⟩ := hco
    cases o with
    | start arguments => exact Orderly.start hc ho
    | turning begun values => exact Orderly.turning hc ho.2 ho.1

end Nondet
