import Nondet.Proofs.Context.Failing
import Nondet.Proofs.Native.Prelude
import Nondet.Proofs.Pull.Scopes

/-!
# Pull — Blame

What mistakes are blamed on.  Every mistake carries the span of a node, and the spans that a stream
can blame are those of the nodes in it (`Stream.Blames`).  A call adds the nodes of a function, which
is written in some script of the session; so if all spans of functions and all spans in a stream
satisfy `P`, the span of a mistake does, too (`blaming_kept`).  Natives are assumed to raise no
failures in the name of the evaluation (`Host.Quiet`).
-/

namespace Nondet

open Nondet.Action

variable {P : Span → Prop} {began : FrameId → List Node → Prop} {l : Limits} {c c' : Context}
  {α β σ : Type}

/-- The natives of the host raise failures of their own only. -/
def Host.Quiet (host : Host) : Prop :=
  ∀ name arguments e, host.call name arguments = .error e → e.Own

/-! ### Spans that are blamed -/

section

variable (P : Span → Prop)

/-- A mistake is blamed on a span that satisfies `P`. -/
def Failure.Blames : Failure → Prop
  | .mistake _ span    => P span
  | .exceeded _ _ _ _  => True

def Deferred.Blames : Deferred → Prop
  | .lookup span _ | .defineFunction span _ | .native span _ _ | .notFunction span _ => P span
  | .closure _                                                                       => True

def Transform.Blames : Transform → Prop
  | .unary span _ | .binary span _ _ | .define span _ _ | .assign span _ | .return span => P span

def Continuation.Blames : Continuation → Prop
  | .rightOperand span _ right          => P span ∧ right.Spanned P
  | .branch span _ consequent alternate =>
    P span ∧ consequent.Spanned P ∧ ∀ m ∈ alternate, m.Spanned P
  | .arguments span nodes               => P span ∧ ∀ m ∈ nodes, m.Spanned P

mutual

/-- All spans of nodes in the stream satisfy `P`, and so do those of nodes that it has begun. -/
def Stream.Blames : Stream → Prop
  | .empty | .once _              => True
  | .deferred what                => what.Blames P
  | .node n                       => n.Spanned P
  | .nested _ inner               => inner.Blames
  | .map inner f                  => inner.Blames ∧ f.Blames P
  | .flatMap outer next           => outer.Blames ∧ next.Blames P
  | .append first second          => first.Blames ∧ second.Blames
  | .calls span _ arguments       => P span ∧ arguments.Blames
  | .amb alternatives             => ∀ m ∈ alternatives, m.Spanned P
  | .choice _ current later       => current.Blames ∧ ∀ m ∈ later, m.Spanned P
  | .block statements | .program statements | .body statements => ∀ m ∈ statements, m.Spanned P
  | .sequence begun               => begun.Blames
  | .framed _ inner               => inner.Blames
  | .call span _ _ _              => P span
  | .activation _ inner           => inner.Blames

def Odometer.Blames : Odometer → Prop
  | .start arguments => ∀ m ∈ arguments, m.Spanned P
  | .turning begun _ => begun.Blames

def OpenArguments.Blames : OpenArguments → Prop
  | .none                           => True
  | .push stream span later earlier =>
    stream.Blames ∧ P span ∧ (∀ m ∈ later, m.Spanned P) ∧ earlier.Blames

def OpenStatements.Blames : OpenStatements → Prop
  | .none                      => True
  | .push stream later earlier => stream.Blames ∧ (∀ m ∈ later, m.Spanned P) ∧ earlier.Blames

end

end

/-- A node unfolds into a stream that blames what the node can blame. -/
theorem Stream.blames_build : ∀ {n : Node}, n.Spanned P → (Stream.build n).Blames P
  | .literal _ _, _ => trivial
  | .identifier _ _, h => by
      rw [Stream.build]
      split
      · trivial
      · exact h.self
  | .call _ callee arguments, h => by
      have ha : ∀ m ∈ arguments, m.Spanned P := fun m hm => h.child (List.mem_cons_of_mem _ hm)
      rw [Stream.build]
      split
      · exact ha
      · exact ⟨h.child List.mem_cons_self, h.self, ha⟩
  | .unary _ _ _, h => ⟨h.child List.mem_cons_self, h.self⟩
  | .binary _ _ _ _, h =>
    ⟨h.child (by simp [Node.children]), h.self, h.child (by simp [Node.children])⟩
  -- The constant of a logical operator has the operator's span.
  | .logical _ .and _ _, h =>
    ⟨h.child (by simp [Node.children]), h.self, h.child (by simp [Node.children]),
      fun _ hm => by cases hm; exact Node.every_iff.mpr ⟨h.self, List.forall_mem_nil _⟩⟩
  | .logical _ .or _ _, h =>
    ⟨h.child (by simp [Node.children]), h.self,
      Node.every_iff.mpr ⟨h.self, List.forall_mem_nil _⟩,
      fun _ hm => by cases hm; exact h.child (by simp [Node.children])⟩
  | .conditional _ _ _ _, h =>
    ⟨h.child (by simp [Node.children]), h.self, h.child (by simp [Node.children]),
      fun _ hm => by cases hm; exact h.child (by simp [Node.children])⟩
  | .variableDeclaration _ _ _ _, h | .assignment _ _ _, h => ⟨h.child List.mem_cons_self, h.self⟩
  | .functionDeclaration _ _ _ _ _, h => h.self
  | .arrowFunction _ _ _ _ _, _ => trivial
  | .ifStatement _ _ _ _, h =>
    ⟨h.child (by simp [Node.children]), h.self, h.child (by simp [Node.children]),
      fun _ hm => by cases hm; exact h.child (by simp [Node.children])⟩
  | .returnStatement _ none, _ => trivial
  | .returnStatement _ (some _), h => ⟨h.child (by simp [Node.children]), h.self⟩
  | .block _ _, h | .program _ _, h => fun _ hm => h.child hm
  | .expressionStatement _ expression, h =>
    Stream.blames_build (n := expression) (h.child List.mem_cons_self)

theorem Stream.blames_ofStatements : ∀ {ss : List Node}, (∀ m ∈ ss, m.Spanned P) →
    (Stream.ofStatements ss).Blames P
  | [], _ => trivial
  | _ :: _, h => ⟨h _ List.mem_cons_self, fun m hm => h m (List.mem_cons_of_mem _ hm), trivial⟩

theorem blames_apply (callee : Value) (arguments : List Value) {span : Span} (h : P span)
    (this : Option Value) : (apply callee arguments span this).Blames P := by
  cases callee <;> exact h

theorem Continuation.Next.blames {next : Continuation} {v : Value} {st : Stream}
    (h : next.Next v st) (hn : next.Blames P) : st.Blames P := by
  cases h with
  | right span op n => exact ⟨hn.2, hn.1⟩
  | consequent span test n alternate => exact hn.2.1
  | alternate span test consequent n => exact hn.2.2 n rfl
  | neither span test consequent => trivial
  | calls span nodes => exact hn

/-! ### Actions -/

theorem Transform.Blames.span {f : Transform} (h : f.Blames P) : P f.span := by
  cases f <;> exact h

theorem Continuation.Blames.span {next : Continuation} (h : next.Blames P) : P next.span := by
  cases next with
  | rightOperand _ _ _ | branch _ _ _ _ | arguments _ _ => exact h.1

namespace Action.Blames

theorem hoist : ∀ {ns : List Node}, (∀ n ∈ ns, n.Spanned P) → Fails (Failure.Blames P) (hoist ns)
  | [], _ => .pure _
  | n :: ns, h => by
      rw [List.forall_mem_cons] at h
      intro c
      rw [on_hoist_cons]
      cases n.declaredName? with
      | none => exact hoist h.2 c
      | some name => exact Fails.bind (.declare name fun _ => h.1.self) (fun _ => hoist h.2) c

/-- A quiet native that fails is blamed on its call. -/
theorem callNative (hq : c.host.Quiet) {span : Span} (h : P span) (name : String)
    (arguments : List Value) {failure : Failure}
    (e : (callNative span name arguments).on c = (.error failure, c')) : failure.Blames P := by
  rw [on_callNative] at e
  cases hr : c.host.call name arguments with
  | ok v =>
      rw [hr] at e
      cases e
  | error failure' =>
      rw [hr] at e
      have own := hq name arguments failure' hr
      cases failure' with
      | refused message | foreign message =>
          cases e
          exact h
      | mistake _ _ | failure _ => cases own

theorem deferred (hq : c.host.Quiet) {what : Deferred} (h : what.Blames P) {failure : Failure}
    (e : what.run.on c = (.error failure, c')) : failure.Blames P := by
  cases what with
  | lookup span name => exact Fails.bind (.lookup (fun _ _ => h) name) (fun _ => .pure _) c failure c' e
  | defineFunction span function =>
      exact Fails.bind (a := makeClosure function) nofun
        (fun _ => .bind (.define _ _ _ fun _ => h) fun _ => .pure _) c failure c' e
  | closure function => cases e
  | native span name arguments =>
      simp only [Deferred.run, on_bind] at e
      rcases hr : (Action.callNative span name arguments).on c with ⟨failure' | v, c₁⟩ <;>
        rw [hr] at e <;> cases e
      exact callNative hq h name arguments hr
  | notFunction span callee =>
      cases e
      exact h

end Action.Blames

/-! ### The contract -/

/-- What is left blames only spans that satisfy `P`, and so does a failure. -/
def Reply.Blames (P : Span → Prop) (rest : σ → Prop) : Reply σ α → Prop
  | .yield _ s _       => rest s
  | .finished _        => True
  | .failed failure _  => failure.Blames P

/-- Requests blame only spans that satisfy `P`. -/
def blaming (P : Span → Prop) : Contract where
  stream st c := c.host.Quiet ∧ st.Blames P
  streamReply _ _ r := r.Blames P (Stream.Blames P)
  odometer o c := c.host.Quiet ∧ o.Blames P
  odometerReply _ _ r := r.Blames P (Odometer.Blames P)

/-- The spans of functions in the scripts that were begun satisfy `P`. -/
def CoversFunctions (began : FrameId → List Node → Prop) (P : Span → Prop) : Prop :=
  ∀ i script, began i script → ∀ g : Node, g.In script → ∀ f, g.function? = some f → g.Spanned P

/-- What a call of a scoped closure runs blames spans of functions. -/
theorem Closure.Scoped.spanned {closure : Closure} {fs : Frames} (h : closure.Scoped began fs)
    (hP : CoversFunctions began P) : ∀ m ∈ closure.function.statements, m.Spanned P := by
  obtain ⟨i, script, hi, g, hg, hgf⟩ := h.written
  exact (hP i script hi g hg _ hgf).statements hgf

namespace Blaming

theorem quiet (h : c.host.Quiet) (ha : c.Alike c') : c'.host.Quiet := ha.host ▸ h

/-- What follows on the reply of a stream. -/
theorem inside {st : Stream} {next : Reply Stream Outcome → Move σ α} {R : Reply σ α → Prop}
    (hq : c.host.Quiet) (hs : st.Blames P)
    (h : ∀ r, c.Disciplined Stream.Placed r → r.Blames P (Stream.Blames P) →
      (next r).MeetsOver (scopedRequests began l) (blaming P) R) :
    (Move.stream st c next).MeetsOver (scopedRequests began l) (blaming P) R :=
  ⟨⟨hq, hs⟩, fun r hb hk => h r hb.1.1.2 hk⟩

/-- A stream that is asked for its answer. -/
theorem asked {s : Stream} (hq : c.host.Quiet) (hs : s.Blames P) :
    (Move.stream s c .answer).MeetsOver (scopedRequests began l) (blaming P)
      (Reply.Blames P (Stream.Blames P)) :=
  inside hq hs fun _ _ hk => hk

/-- An odometer that is asked for its answer. -/
theorem odometer_asked {o : Odometer} (hq : c.host.Quiet) (ho : o.Blames P) :
    (Move.odometer o c .answer).MeetsOver (scopedRequests began l) (blaming P)
      (Reply.Blames P (Odometer.Blames P)) :=
  ⟨⟨hq, ho⟩, fun _ _ hk => hk⟩

/-! ### One move of each stream -/

/-- The moves of the stream in the context blame only what the stream can blame. -/
def Stays (began : FrameId → List Node → Prop) (P : Span → Prop) (l : Limits) (st : Stream)
    (c : Context) : Prop :=
  (st.move c).MeetsOver (scopedRequests began l) (blaming P) (Reply.Blames P (Stream.Blames P))

/-- The moves of the odometer in the context blame only what the odometer can blame. -/
def OdometerStays (began : FrameId → List Node → Prop) (P : Span → Prop) (l : Limits) (o : Odometer)
    (c : Context) : Prop :=
  (o.move c).MeetsOver (scopedRequests began l) (blaming P) (Reply.Blames P (Odometer.Blames P))

variable (hq : c.host.Quiet)

include hq

theorem nested {inner : Stream} (hs : inner.Blames P) (span : Span) :
    Stays began P l (.nested span inner) c := by
  obtain ⟨-, h⟩ | ⟨-, h⟩ := Stream.move_nested_cases span inner c <;> rw [Stays, h]
  · trivial
  · refine inside (c := c.enterNested) hq hs fun r _ hr => ?_
    cases r <;> exact hr

theorem deferred {what : Deferred} (h : what.Blames P) : Stays began P l (.deferred what) c := by
  rw [Stays, Stream.move]
  rcases hx : what.run.on c with ⟨failure | outcome, c'⟩
  · exact Action.Blames.deferred hq h hx
  · trivial

theorem map {inner : Stream} (hs : inner.Blames P) {f : Transform} (hf : f.Blames P) :
    Stays began P l (.map inner f) c := by
  refine inside hq hs fun r _ hr => ?_
  cases r with
  | yield outcome inner' c' =>
      rcases hx : (f.run outcome).on c' with ⟨failure | x, c''⟩ <;> simp only [hx]
      · exact Fails.transform (Q := Failure.Blames P) (fun _ _ => hf.span) outcome c' failure c'' hx
      · exact ⟨hr, hf⟩
  | finished c' => trivial
  | failed failure c' => exact hr

theorem flatMap {outer : Stream} (hs : outer.Blames P) {next : Continuation} (hn : next.Blames P) :
    Stays began P l (.flatMap outer next) c := by
  refine inside hq hs fun r hd hr => ?_
  cases r with
  | yield outcome outer' c' =>
      obtain ⟨failure, e⟩ | ⟨inner, e, hi⟩ := next.on_run_cases outcome c' <;> simp only [e]
      · exact Fails.continuation (Q := Failure.Blames P) (fun _ _ => hn.span) outcome c' failure _ e
      · exact asked (quiet hq hd.1) ⟨hi.blames hn, hr, hn⟩
  | finished c' => trivial
  | failed failure c' => exact hr

theorem append {first second : Stream} (hs : first.Blames P) (hs' : second.Blames P) :
    Stays began P l (.append first second) c := by
  refine inside hq hs fun r hd hr => ?_
  cases r with
  | yield outcome first' c' => exact ⟨hr, hs'⟩
  | finished c' => exact asked (quiet hq hd) hs'
  | failed failure c' => exact hr

theorem calls {span : Span} (hspan : P span) (callee : Value) {arguments : Odometer}
    (ho : arguments.Blames P) : Stays began P l (.calls span callee arguments) c := by
  refine ⟨⟨hq, ho⟩, fun r hb hr => ?_⟩
  have hd : c.Disciplined Odometer.Placed r := hb.1.1.2
  cases r with
  | yield values arguments' c' =>
      exact asked (quiet hq hd.1) ⟨blames_apply callee values hspan none, hspan, hr⟩
  | finished c' => trivial
  | failed failure c' => exact hr

theorem amb : ∀ {alternatives : List Node}, (∀ m ∈ alternatives, m.Spanned P) →
    Stays began P l (.amb alternatives) c
  | [], _     => trivial
  | _ :: _, h => asked hq ⟨h _ List.mem_cons_self, fun m hm => h m (List.mem_cons_of_mem _ hm)⟩

theorem choice {snapshot : Snapshot} (hp : snapshot.place = c.place) {current : Stream}
    (hs : current.Blames P) {later : List Node} (hl : ∀ m ∈ later, m.Spanned P) :
    Stays began P l (.choice snapshot current later) c := by
  refine inside hq hs fun r hd hr => ?_
  cases r with
  | yield outcome current' c' => exact ⟨hr, hl⟩
  | finished c' =>
      cases later with
      | nil => trivial
      | cons n later =>
          rw [List.forall_mem_cons] at hl
          exact asked (quiet hq (.restore hd hp)) hl
  | failed failure c' => exact hr

theorem body {ss : List Node} (h : ∀ m ∈ ss, m.Spanned P) : Stays began P l (.body ss) c := by
  have step := Action.Steady.hoist ss c
  rw [Stays]
  simp only [Stream.move]
  rcases hx : (hoist ss).on c with ⟨failure | _, c'⟩ <;> rw [hx] at step
  · exact Action.Blames.hoist h c failure c' hx
  · exact asked (quiet hq step) (Stream.blames_ofStatements h)

theorem sequence : ∀ {begun : OpenStatements}, begun.Blames P → Stays began P l (.sequence begun) c
  | .none, _ => trivial
  | .push current later earlier, ⟨hs, hl, he⟩ => by
      refine inside hq hs fun r hd hr => ?_
      cases r with
      | yield outcome current' c' =>
          have rest : (OpenStatements.push current' later earlier).Blames P := ⟨hr, hl, he⟩
          cases outcome with
          | returned v => exact rest
          | value v =>
              cases later with
              | nil => exact rest
              | cons n later =>
                  rw [List.forall_mem_cons] at hl
                  exact asked (quiet hq hd.1) ⟨hl.1, hl.2, rest⟩
          | cut =>
              cases later with
              | nil => trivial
              | cons n later =>
                  rw [List.forall_mem_cons] at hl
                  exact asked (quiet hq hd.1) ⟨hl.1, hl.2, trivial⟩
      | finished c' => exact asked (s := .sequence earlier) (quiet hq hd) he
      | failed failure c' => exact hr

theorem framed (frame : FrameId) {inner : Stream} (hs : inner.Blames P) :
    Stays began P l (.framed frame inner) c := by
  refine inside (c := c.push frame) hq hs fun r _ hr => ?_
  cases r <;> exact hr

theorem activation (frame : FrameId) {inner : Stream} (hs : inner.Blames P) :
    Stays began P l (.activation frame inner) c := by
  refine inside (c := c.push frame) hq hs fun r _ hr => ?_
  cases r <;> exact hr

theorem call {span : Span} (hspan : P span) {closure : Closure} (arguments : List Value)
    (this : Option Value) (h : ∀ m ∈ closure.function.statements, m.Spanned P) :
    Stays began P l (.call span closure arguments this) c := by
  obtain ⟨-, e⟩ | ⟨-, -, e⟩ | ⟨-, -, e⟩ :=
    Stream.move_call_cases span this closure arguments c <;> rw [Stays, e]
  · exact hspan
  · trivial
  · exact asked (s := .activation _ (.body _)) hq h

theorem turning (values : List Value) : ∀ {begun : OpenArguments}, begun.Blames P →
    OdometerStays began P l (.turning begun values) c
  | .none, _ => trivial
  | .push current span later earlier, ⟨hs, hspan, hl, he⟩ => by
      refine inside hq hs fun r hd hr => ?_
      cases r with
      | yield outcome current' c' =>
          obtain ⟨failure, e⟩ | e := on_operand_cases span "call argument" outcome c' <;>
            simp only [e]
          · exact Fails.operand (Q := Failure.Blames P) (fun _ _ => hspan) _ outcome c' failure _ e
          · have opened : (OpenArguments.push current' span later earlier).Blames P :=
              ⟨hr, hspan, hl, he⟩
            cases later with
            | nil => exact opened
            | cons n later =>
                rw [List.forall_mem_cons] at hl
                exact odometer_asked (quiet hq hd.1) ⟨hl.1, hl.1.self, hl.2, opened⟩
      | finished c' => exact odometer_asked (o := .turning earlier _) (quiet hq hd) he
      | failed failure c' => exact hr

theorem start : ∀ {arguments : List Node}, (∀ m ∈ arguments, m.Spanned P) →
    OdometerStays began P l (.start arguments) c
  | [], _     => trivial
  | _ :: _, h => odometer_asked hq ⟨h _ List.mem_cons_self, (h _ List.mem_cons_self).self,
      fun m hm => h m (List.mem_cons_of_mem _ hm), trivial⟩

end Blaming

/-- **Mistakes are blamed on nodes** that the stream holds, or on nodes of functions. -/
theorem blaming_kept (l : Limits) (hP : CoversFunctions began P) :
    ((scopedRequests began l).and (blaming P)).Kept := by
  refine (scoping_kept l began).and (fun st c hb ⟨hq, hs⟩ => ?_) fun o c _ ⟨hq, ho⟩ => ?_
  · obtain ⟨⟨⟨-, placed, -⟩, -⟩, s, hscoped⟩ := hb
    cases st with
    | empty => trivial
    | once outcome => trivial
    | deferred what => exact Blaming.deferred hq hs
    | node n => exact Blaming.asked hq (Stream.blames_build hs)
    | nested span inner => exact Blaming.nested hq (show inner.Blames P from hs) span
    | map inner f => exact Blaming.map hq hs.1 hs.2
    | flatMap outer next => exact Blaming.flatMap hq hs.1 hs.2
    | append first second => exact Blaming.append hq hs.1 hs.2
    | calls span callee arguments => exact Blaming.calls hq hs.1 callee hs.2
    | amb alternatives => exact Blaming.amb hq hs
    | choice snapshot current later => exact Blaming.choice hq placed.1 hs.1 hs.2
    | block statements => exact Blaming.asked (s := .framed _ (.body statements)) hq hs
    | program statements => exact absurd placed id
    | body statements => exact Blaming.body hq hs
    | sequence begun => exact Blaming.sequence hq hs
    | framed frame inner => exact Blaming.framed hq frame hs
    | call span closure arguments this =>
        -- The function is written in a script that was begun.
        rcases hscoped with ⟨-, hcl, -⟩ | hbegins
        · exact Blaming.call hq hs arguments this (hcl.spanned hP)
        · cases hbegins
    | activation frame inner => exact Blaming.activation hq frame hs
  · cases o with
    | start arguments => exact Blaming.start hq ho
    | turning begun values => exact Blaming.turning hq values ho

end Nondet
