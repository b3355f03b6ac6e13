import Nondet.Proofs.Pull.Fits
import Nondet.Proofs.Pull.Signals

/-!
# Pull — Confined

Where outcomes are received.  Operands, arguments, callees, tests and what a name is given are
received by a node that works with their values.  A node is confined when the operands in it lack
return statements, a stream when everything that it works with does; so code that consists of confined
nodes receives no value on its way out of a function where it wants an operand (`confined_kept`).
-/

namespace Nondet

open Nondet.Action

variable {σ α : Type}

/-! ### What is confined -/

/-- The operands of the node lack return statements.  What is returned is returned anyway. -/
def Node.Confined (n : Node) : Prop :=
  n.sends .returned = false → ∀ e ∈ n.operands, e.Lacks .returned

/-- The regime under which all operands lack return statements. -/
def Regime.confined : Regime where
  node := Node.Confined
  frame _ _ := True
  first := 0
  literal _ _ _ := nofun
  returned _ _ h := nomatch h
  frame_mono _ h := h
  frame_new _ _ := trivial
  frame_old h _ := h

/-- The operands that are still to be evaluated lack return statements. -/
def Continuation.Confined : Continuation → Prop
  | .rightOperand _ _ right => right.Lacks .returned
  | .branch _ _ _ _         => True
  | .arguments _ nodes      => ∀ n ∈ nodes, n.Lacks .returned

mutual

/-- Whatever the stream works with lacks return statements. -/
def Stream.Confined : Stream → Prop
  | .map inner f         => (f.Lacks .returned → inner.Lacks .returned) ∧ inner.Confined
  | .flatMap outer next  => outer.Lacks .returned ∧ outer.Confined ∧ next.Confined
  | .append first second => first.Confined ∧ second.Confined
  | .calls _ _ arguments => arguments.Confined
  | .nested _ inner | .choice _ inner _ | .framed _ inner | .activation _ inner => inner.Confined
  | .sequence begun      => begun.Confined
  | _                    => True

def Odometer.Confined : Odometer → Prop
  | .start arguments => ∀ n ∈ arguments, n.Lacks .returned
  | .turning begun _ => begun.Confined

def OpenArguments.Confined : OpenArguments → Prop
  | .none                        => True
  | .push stream _ later earlier =>
    stream.Lacks .returned ∧ stream.Confined ∧ (∀ n ∈ later, n.Lacks .returned) ∧ earlier.Confined

def OpenStatements.Confined : OpenStatements → Prop
  | .none                    => True
  | .push stream _ earlier   => stream.Confined ∧ earlier.Confined

end

/-- A confined node unfolds into a confined stream. -/
theorem Stream.confined_build : ∀ {n : Node}, n.Every Node.Confined → (build n).Confined
  | .literal _ _, _ | .functionDeclaration _ _ _ _ _, _ | .arrowFunction _ _ _ _ _, _
  | .returnStatement _ none, _ | .block _ _, _ | .program _ _, _ => trivial
  | .identifier _ _, _ => by
      rw [build]
      split <;> trivial
  | .call _ callee arguments, h => by
      have operand := h.self rfl
      rw [build]
      split
      · trivial
      · exact ⟨operand callee List.mem_cons_self, trivial,
          fun n hn => operand n (List.mem_cons_of_mem _ hn)⟩
  | .unary _ _ _, h | .variableDeclaration _ _ _ _, h | .assignment _ _ _, h =>
    ⟨fun _ => h.self rfl _ (List.mem_singleton_self _), trivial⟩
  | .binary _ _ _ _, h =>
    ⟨h.self rfl _ List.mem_cons_self, trivial, h.self rfl _ (by simp [Node.operands])⟩
  | .logical _ .and _ _, h | .logical _ .or _ _, h | .conditional _ _ _ _, h
  | .ifStatement _ _ _ _, h => ⟨h.self rfl _ List.mem_cons_self, trivial, trivial⟩
  | .returnStatement _ (some _), _ => ⟨fun h => absurd rfl h, trivial⟩
  | .expressionStatement _ expression, h =>
    confined_build (n := expression) (h.child (List.mem_singleton_self _))

theorem Stream.confined_apply (callee : Value) (arguments : List Value) (span : Span)
    (this : Option Value) : (apply callee arguments span this).Confined := by
  cases callee <;> trivial

theorem OpenStatements.confined_begin (ss : List Node) {earlier : OpenStatements}
    (h : earlier.Confined) : (begin ss earlier).Confined := by
  cases ss with
  | nil => exact h
  | cons n ns => exact ⟨trivial, h⟩

theorem Stream.confined_ofStatements (ss : List Node) : (ofStatements ss).Confined := by
  cases ss with
  | nil => trivial
  | cons n ns => exact OpenStatements.confined_begin _ trivial

theorem Continuation.Next.confined {next : Continuation} {v : Value} {st : Stream}
    (h : next.Next v st) (hn : next.Confined) : st.Confined := by
  cases h with
  | right span op n => exact ⟨fun _ => hn, trivial⟩
  | calls span nodes => exact hn
  | consequent _ _ _ _ | alternate _ _ _ _ | neither _ _ _ => trivial

/-! ### The contract -/

/-- What is left by the request is confined. -/
def Reply.Confined (rest : σ → Prop) : Reply σ α → Prop
  | .yield _ s _              => rest s
  | .finished _ | .failed _ _ => True

/-- A confined stream asks confined streams and leaves one. -/
def confined : Contract where
  stream s _ := s.Confined
  streamReply _ _ r := r.Confined Stream.Confined
  odometer o _ := o.Confined
  odometerReply _ _ r := r.Confined Odometer.Confined

/-- Requests of code that keeps to the regime, with what is known of streams without return
statements. -/
def confinedRequests : Contract := Regime.confined.contract.and (lacks .returned)

namespace Confined

variable {s inner : Stream} {o : Odometer} {c : Context}

/-- A stream that is asked for its reply. -/
theorem asked (h : s.Confined) :
    (Move.stream s c .answer).MeetsOver confinedRequests confined (Reply.Confined Stream.Confined) :=
  ⟨h, fun _ _ hr => hr⟩

/-- An odometer that is asked for its reply. -/
theorem odometer_asked (h : o.Confined) :
    (Move.odometer o c .answer).MeetsOver confinedRequests confined
      (Reply.Confined Odometer.Confined) :=
  ⟨h, fun _ _ hr => hr⟩

/-- The moves of the stream leave what is confined. -/
def Stays (s : Stream) (c : Context) : Prop :=
  (s.move c).MeetsOver confinedRequests confined (Reply.Confined Stream.Confined)

/-- The moves of the odometer leave what is confined. -/
def OdometerStays (o : Odometer) (c : Context) : Prop :=
  (o.move c).MeetsOver confinedRequests confined (Reply.Confined Odometer.Confined)

theorem ofResult {rest : Stream} (h : rest.Confined) (result : Except Failure Outcome × Context) :
    (Reply.ofResult rest result).Confined Stream.Confined := by
  rcases result with ⟨_ | _, _⟩
  · trivial
  · exact h

theorem nested (h : inner.Confined) (span : Span) : Stays (.nested span inner) c := by
  rw [Stays, Stream.move]
  split
  · trivial
  · refine ⟨h, fun r _ hr => ?_⟩
    cases r <;> exact hr

theorem map {f : Transform} (h : (Stream.map inner f).Confined) : Stays (.map inner f) c := by
  refine ⟨h.2, fun r hb hr => ?_⟩
  cases r with
  | yield outcome inner' c' =>
      have rest : (Stream.map inner' f).Confined := ⟨fun hf => (hb.2 (h.1 hf)).2, hr⟩
      exact ofResult rest _
  | finished c' | failed failure c' => trivial

theorem flatMap {next : Continuation} (h : (Stream.flatMap inner next).Confined) :
    Stays (.flatMap inner next) c := by
  obtain ⟨hl, hs, hn⟩ := h
  refine ⟨hs, fun r hb hr => ?_⟩
  cases r with
  | yield outcome outer' c' =>
      obtain ⟨failure, e⟩ | ⟨chosen, e, hi⟩ := next.on_run_cases outcome c' <;> simp only [e]
      · trivial
      · exact asked ⟨hi.confined hn, (hb.2 hl).2, hr, hn⟩
  | finished c' | failed failure c' => trivial

theorem append {second : Stream} (h : inner.Confined) (h' : second.Confined) :
    Stays (.append inner second) c := by
  refine ⟨h, fun r _ hr => ?_⟩
  cases r with
  | yield outcome first' c' => exact ⟨hr, h'⟩
  | finished c' => exact asked h'
  | failed failure c' => trivial

theorem calls (span : Span) (callee : Value) (h : o.Confined) : Stays (.calls span callee o) c := by
  refine ⟨h, fun r _ hr => ?_⟩
  cases r with
  | yield values arguments' c' => exact asked ⟨Stream.confined_apply callee values span none, hr⟩
  | finished c' | failed failure c' => trivial

theorem amb : ∀ alternatives : List Node, Stays (.amb alternatives) c
  | []     => trivial
  | _ :: _ => asked (s := .choice _ _ _) trivial

theorem choice (snapshot : Snapshot) (later : List Node) (h : inner.Confined) :
    Stays (.choice snapshot inner later) c := by
  refine ⟨h, fun r _ hr => ?_⟩
  cases r with
  | yield outcome current' c' => exact hr
  | finished c' =>
      cases later with
      | nil => trivial
      | cons n later => exact asked (s := .choice _ _ _) trivial
  | failed failure c' => trivial

theorem body (ss : List Node) : Stays (.body ss) c := by
  rw [Stays, Stream.move]
  split
  · exact asked (Stream.confined_ofStatements ss)
  · trivial

theorem sequence : ∀ {begun : OpenStatements}, begun.Confined → Stays (.sequence begun) c
  | .none, _ => trivial
  | .push current later earlier, ⟨hs, hb⟩ => by
      refine ⟨hs, fun r _ hr => ?_⟩
      cases r with
      | yield outcome current' c' =>
          have rest : (OpenStatements.push current' later earlier).Confined := ⟨hr, hb⟩
          cases outcome with
          | returned v => exact rest
          | value v =>
              cases later with
              | nil => exact rest
              | cons n later => exact asked (s := .sequence _) (OpenStatements.confined_begin _ rest)
          | cut =>
              cases later with
              | nil => trivial
              | cons n later => exact asked (s := .sequence _) (OpenStatements.confined_begin _ trivial)
      | finished c' => exact asked (s := .sequence earlier) hb
      | failed failure c' => trivial

theorem framed (frame : FrameId) (h : inner.Confined) : Stays (.framed frame inner) c := by
  refine ⟨h, fun r _ hr => ?_⟩
  cases r <;> exact hr

theorem activation (frame : FrameId) (h : inner.Confined) : Stays (.activation frame inner) c := by
  refine ⟨h, fun r _ hr => ?_⟩
  cases r <;> exact hr

theorem call (span : Span) (closure : Closure) (arguments : List Value) (this : Option Value) :
    Stays (.call span closure arguments this) c := by
  rw [Stays, Stream.move]
  split
  · exact asked (s := .activation _ (.body _)) trivial
  · trivial

theorem turning (values : List Value) :
    ∀ {begun : OpenArguments}, begun.Confined → OdometerStays (.turning begun values) c
  | .none, _ => trivial
  | .push current span later earlier, ⟨hs, hc, hl, hb⟩ => by
      refine ⟨hc, fun r hbase hr => ?_⟩
      cases r with
      | yield outcome current' c' =>
          have begun : (OpenArguments.push current' span later earlier).Confined :=
            ⟨(hbase.2 hs).2, hr, hl, hb⟩
          rcases hx : (operand span "call argument" outcome).on c' with ⟨failure | v, c''⟩ <;>
            simp only [hx]
          · trivial
          · cases later with
            | nil => exact begun
            | cons n next =>
                rw [List.forall_mem_cons] at hl
                exact odometer_asked (o := .turning _ _) ⟨hl.1, trivial, hl.2, begun⟩
      | finished c' => exact odometer_asked (o := .turning earlier _) hb
      | failed failure c' => trivial

theorem start : ∀ {arguments : List Node}, (∀ n ∈ arguments, n.Lacks .returned) →
    OdometerStays (.start arguments) c
  | [], _ => trivial
  | _ :: _, h => by
      rw [List.forall_mem_cons] at h
      exact odometer_asked (o := .turning _ _) ⟨h.1, trivial, h.2, trivial⟩

end Confined

/-- **Code that keeps to the regime works with nothing that returns.** -/
theorem confined_kept : (confinedRequests.and confined).Kept := by
  have requests : confinedRequests.Kept :=
    Regime.confined.kept.and (fun s c _ hk => ((lacks_kept .returned).stream s c hk).over)
      fun o c _ hk => ((lacks_kept .returned).odometer o c hk).over
  refine requests.and (fun s c hb hs => ?_) fun o c _ ho => ?_
  · cases s with
    | empty => trivial
    | once outcome => trivial
    | deferred what => exact Confined.ofResult (show Stream.empty.Confined from trivial) _
    | node n =>
        exact Confined.asked (s := .nested _ _) (Stream.confined_build (n := n) hb.1.2)
    | nested span inner => exact Confined.nested (show inner.Confined from hs) span
    | map inner f => exact Confined.map hs
    | flatMap outer next => exact Confined.flatMap hs
    | append first second => exact Confined.append hs.1 hs.2
    | calls span callee arguments => exact Confined.calls (o := arguments) span callee hs
    | amb alternatives => exact Confined.amb alternatives
    | choice snapshot current later => exact Confined.choice snapshot later (show current.Confined from hs)
    | block statements => exact Confined.asked (s := .framed _ (.body _)) trivial
    | program statements => exact Confined.asked (s := .body _) trivial
    | body statements => exact Confined.body statements
    | sequence begun => exact Confined.sequence hs
    | framed frame inner => exact Confined.framed frame (show inner.Confined from hs)
    | call span closure arguments this => exact Confined.call span closure arguments this
    | activation frame inner => exact Confined.activation frame (show inner.Confined from hs)
  · cases o with
    | start arguments => exact Confined.start ho
    | turning begun values => exact Confined.turning values ho

end Nondet
