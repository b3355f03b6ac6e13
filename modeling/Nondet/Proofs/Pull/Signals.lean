import Nondet.Proofs.Context.Action
import Nondet.Proofs.Pull.Contract
import Nondet.Proofs.Tree.Signal

/-!
# Pull — Signals

Where a signal can come from.  A stream lacks a signal when nothing in it can give it, now or after
any number of requests: the nodes that it may still evaluate lack it, and whatever a call gives is a
value, so nothing is asked of the function that is called.  A stream that lacks a signal goes on to
lack it, in whatever contexts it is asked (`lacks_kept`), and so none of its outcomes is the signal
(`Stream.Lacks.yields`).
-/

namespace Nondet

open Nondet.Action

variable {k : Signal}

/-! ### What lacks a signal -/

/-- Only what a return statement does makes a signal of a value. -/
def Transform.Lacks (k : Signal) : Transform → Prop
  | .return _ => k ≠ .returned
  | _         => True

/-- What a test decides between lacks the signal.  Other continuations lead to values. -/
def Continuation.Lacks (k : Signal) : Continuation → Prop
  | .branch _ _ consequent alternate => consequent.Lacks k ∧ ∀ n ∈ alternate, n.Lacks k
  | _                                => True

mutual

/-- The stream never gives the signal.  Of streams whose outcomes are only worked with, nothing is
said. -/
def Stream.Lacks (k : Signal) : Stream → Prop
  | .empty | .deferred _ | .calls _ _ _ | .call _ _ _ _ | .activation _ _ => True
  | .once outcome                  => outcome.signal? ≠ some k
  | .node n                        => n.Lacks k
  | .nested _ inner | .framed _ inner => inner.Lacks k
  | .map _ f                       => f.Lacks k
  | .flatMap _ next                => next.Lacks k
  | .append first second           => first.Lacks k ∧ second.Lacks k
  | .amb nodes | .block nodes | .program nodes | .body nodes => ∀ n ∈ nodes, n.Lacks k
  | .choice _ current later        => current.Lacks k ∧ ∀ n ∈ later, n.Lacks k
  | .sequence begun                => begun.Lacks k

def OpenStatements.Lacks (k : Signal) : OpenStatements → Prop
  | .none                      => True
  | .push stream later earlier => stream.Lacks k ∧ (∀ n ∈ later, n.Lacks k) ∧ earlier.Lacks k

end

/-- Whatever is called, a call gives no signal. -/
theorem Stream.lacks_apply (callee : Value) (arguments : List Value) (span : Span)
    (this : Option Value) : (apply callee arguments span this).Lacks k := by
  cases callee <;> trivial

/-- A node that lacks the signal unfolds into a stream that does. -/
theorem Stream.lacks_build : ∀ {n : Node}, n.Lacks k → (build n).Lacks k
  | .literal _ value, _ => by cases value <;> simp [build, Stream.Lacks, Outcome.signal?]
  | .identifier _ name, h => by
      rw [build]
      split
      next hn =>
        subst hn
        have hs := h.sends
        cases k with
        | returned => simp [Stream.Lacks, Outcome.signal?]
        | cut => cases hs
      next => trivial
  | .call _ callee arguments, h => by
      rw [build]
      split
      · exact fun n hn => h.child rfl (List.mem_cons_of_mem _ hn)
      · trivial
  | .unary _ _ _, _ | .binary _ _ _ _, _ | .variableDeclaration _ _ _ _, _ | .assignment _ _ _, _
  | .functionDeclaration _ _ _ _ _, _ | .arrowFunction _ _ _ _ _, _ => trivial
  | .logical span .and _ _, h =>
    ⟨h.child rfl (by simp [Node.children]),
      fun _ hn => by cases hn; exact .of_literal k span (.bool false)⟩
  | .logical span .or _ _, h =>
    ⟨.of_literal k span (.bool true),
      fun _ hn => by cases hn; exact h.child rfl (by simp [Node.children])⟩
  | .conditional _ _ _ _, h =>
    ⟨h.child rfl (by simp [Node.children]),
      fun _ hn => by cases hn; exact h.child rfl (by simp [Node.children])⟩
  | .ifStatement _ _ _ _, h =>
    ⟨h.child rfl (by simp [Node.children]),
      fun _ hn => by cases hn; exact h.child rfl (by simp [Node.children])⟩
  | .returnStatement _ argument, h => by
      have hk : k ≠ .returned := by
        rintro rfl
        cases h.sends
      cases argument with
      | none => simpa [build, Stream.Lacks, Outcome.signal?] using hk.symm
      | some argument => exact hk
  | .block _ _, h | .program _ _, h => fun _ hn => h.child rfl hn
  | .expressionStatement _ expression, h =>
    lacks_build (n := expression) (h.child rfl (List.mem_singleton_self _))

/-- Statements that are begun after others. -/
theorem OpenStatements.lacks_begin {ss : List Node} {earlier : OpenStatements}
    (h : ∀ n ∈ ss, n.Lacks k) (he : earlier.Lacks k) : (begin ss earlier).Lacks k := by
  cases ss with
  | nil => exact he
  | cons n ns =>
      rw [List.forall_mem_cons] at h
      exact ⟨h.1, h.2, he⟩

theorem Stream.lacks_ofStatements {ss : List Node} (h : ∀ n ∈ ss, n.Lacks k) :
    (ofStatements ss).Lacks k := by
  cases ss with
  | nil => simp [ofStatements, Stream.Lacks, Outcome.signal?]
  | cons n ns => exact OpenStatements.lacks_begin h trivial

/-! ### What is made of outcomes -/

/-- A single computed outcome is a value. -/
theorem Deferred.returns (what : Deferred) :
    Action.Returns (fun o : Outcome => o.signal? ≠ some k) what.run := by
  have value (v : Value) : (Outcome.value v).signal? ≠ some k := nofun
  cases what with
  | lookup span name => exact .bind fun _ => .pure (value _)
  | defineFunction span function => exact .bind fun _ => .bind fun _ => .pure (value _)
  | closure function => exact .bind fun _ => .pure (value _)
  | native span name arguments => exact .bind fun _ => .pure (value _)
  | notFunction span callee => exact fun _ _ _ h => nomatch h

theorem Transform.Lacks.returns {f : Transform} (h : f.Lacks k) (outcome : Outcome) :
    Action.Returns (fun o : Outcome => o.signal? ≠ some k) (f.run outcome) := by
  have value (v : Value) : (Outcome.value v).signal? ≠ some k := nofun
  cases f with
  | unary span op | binary span op left => exact .bind fun _ => .bind fun _ => .pure (value _)
  | define span keyword name | assign span name =>
      exact .bind fun _ => .bind fun _ => .pure (value _)
  | «return» span => exact .bind fun v => .pure fun e => h (Option.some.inj e).symm

theorem Continuation.Next.lacks {next : Continuation} {v : Value} {st : Stream}
    (h : next.Next v st) (hn : next.Lacks k) : st.Lacks k := by
  cases h with
  | consequent span test n alternate => exact hn.1
  | alternate span test consequent n => exact hn.2 n rfl
  | neither span test consequent =>
      exact show (Outcome.value .undefined).signal? ≠ some k from nofun
  | right _ _ _ | calls _ _ => trivial

/-- A call makes a value of whatever its body gives. -/
theorem Outcome.signal?_ofBody (o : Outcome) : o.ofBody.signal? = none := by cases o <;> rfl

/-! ### What lacks a signal goes on to lack it -/

/-- The outcome is not the signal, and what is left will not give it. -/
def Reply.Lacks (k : Signal) : Reply Stream Outcome → Prop
  | .yield outcome rest _      => outcome.signal? ≠ some k ∧ rest.Lacks k
  | .finished _ | .failed _ _  => True

/-- Every stream may be asked, also one that does not lack the signal: another that does may work with
its outcomes. -/
def lacks (k : Signal) : Contract where
  stream _ _ := True
  streamReply s _ r := s.Lacks k → r.Lacks k
  odometer _ _ := True
  odometerReply _ _ _ := True

namespace Lacks

variable {s inner : Stream} {c : Context}

/-- A stream that is asked for its reply. -/
theorem asked (h : s.Lacks k) : (Move.stream s c .answer).Meets (lacks k) (Reply.Lacks k) :=
  ⟨trivial, fun _ hr => hr h⟩

theorem ofResult {rest : Stream} {a : Action Outcome} (h : rest.Lacks k)
    (ha : Returns (fun o : Outcome => o.signal? ≠ some k) a) (c : Context) :
    (Reply.ofResult rest (a.on c)).Lacks k := by
  rcases hr : a.on c with ⟨failure | outcome, c'⟩
  · trivial
  · exact ⟨ha c outcome c' hr, h⟩

/-- What has no promise to keep keeps it. -/
theorem meets_of_forall {σ α : Type} {Q : Reply σ α → Prop} (h : ∀ r, Q r) :
    ∀ m : Move σ α, m.Meets (lacks k) Q
  | .answer r => h r
  | .stream _ _ next => ⟨trivial, fun r _ => meets_of_forall h (next r)⟩
  | .odometer _ _ next => ⟨trivial, fun r _ => meets_of_forall h (next r)⟩

/-- The moves of the stream leave what lacks the signal. -/
def Stays (k : Signal) (s : Stream) (c : Context) : Prop :=
  (s.move c).Meets (lacks k) (Reply.Lacks k)

theorem nested (h : inner.Lacks k) (span : Span) : Stays k (.nested span inner) c := by
  rw [Stays, Stream.move]
  split
  · trivial
  · refine ⟨trivial, fun r hr => ?_⟩
    cases r with
    | yield outcome inner' c' => exact hr h
    | finished c' | failed failure c' => trivial

theorem map {f : Transform} (h : f.Lacks k) : Stays k (.map inner f) c := by
  refine ⟨trivial, fun r _ => ?_⟩
  cases r with
  | yield outcome inner' c' =>
      exact ofResult (show (Stream.map inner' f).Lacks k from h) (h.returns outcome) c'
  | finished c' | failed failure c' => trivial

theorem flatMap {next : Continuation} (h : next.Lacks k) : Stays k (.flatMap inner next) c := by
  refine ⟨trivial, fun r _ => ?_⟩
  cases r with
  | yield outcome outer' c' =>
      obtain ⟨failure, e⟩ | ⟨chosen, e, hi⟩ := next.on_run_cases outcome c' <;> simp only [e]
      · trivial
      · exact asked ⟨hi.lacks h, h⟩
  | finished c' | failed failure c' => trivial

theorem append {second : Stream} (h : inner.Lacks k) (h' : second.Lacks k) :
    Stays k (.append inner second) c := by
  refine ⟨trivial, fun r hr => ?_⟩
  cases r with
  | yield outcome first' c' => exact ⟨(hr h).1, (hr h).2, h'⟩
  | finished c' => exact asked h'
  | failed failure c' => trivial

theorem calls (span : Span) (callee : Value) (arguments : Odometer) :
    Stays k (.calls span callee arguments) c := by
  refine ⟨trivial, fun r _ => ?_⟩
  cases r with
  | yield values arguments' c' => exact asked ⟨Stream.lacks_apply callee values span none, trivial⟩
  | finished c' | failed failure c' => trivial

theorem amb : ∀ {alternatives : List Node}, (∀ n ∈ alternatives, n.Lacks k) →
    Stays k (.amb alternatives) c
  | [], _ => trivial
  | _ :: _, h => asked (List.forall_mem_cons.mp h)

theorem choice {snapshot : Snapshot} {later : List Node} (h : inner.Lacks k)
    (hl : ∀ n ∈ later, n.Lacks k) : Stays k (.choice snapshot inner later) c := by
  refine ⟨trivial, fun r hr => ?_⟩
  cases r with
  | yield outcome current' c' => exact ⟨(hr h).1, (hr h).2, hl⟩
  | finished c' =>
      cases later with
      | nil => trivial
      | cons n later => exact asked (List.forall_mem_cons.mp hl)
  | failed failure c' => trivial

theorem body {ss : List Node} (h : ∀ n ∈ ss, n.Lacks k) : Stays k (.body ss) c := by
  rw [Stays, Stream.move]
  split
  · exact asked (Stream.lacks_ofStatements h)
  · trivial

theorem sequence : ∀ {begun : OpenStatements}, begun.Lacks k → Stays k (.sequence begun) c
  | .none, _ => trivial
  | .push current later earlier, ⟨hs, hl, hb⟩ => by
      refine ⟨trivial, fun r hr => ?_⟩
      cases r with
      | yield outcome current' c' =>
          obtain ⟨ho, hs'⟩ := hr hs
          have rest : (OpenStatements.push current' later earlier).Lacks k := ⟨hs', hl, hb⟩
          cases outcome with
          | returned v => exact ⟨ho, rest⟩
          | value v =>
              cases later with
              | nil => exact ⟨ho, rest⟩
              | cons n later => exact asked (s := .sequence _) (OpenStatements.lacks_begin hl rest)
          | cut =>
              cases later with
              | nil => exact ⟨ho, trivial⟩
              | cons n later => exact asked (s := .sequence _) (OpenStatements.lacks_begin hl trivial)
      | finished c' => exact asked (s := .sequence earlier) hb
      | failed failure c' => trivial

theorem framed (h : inner.Lacks k) (frame : FrameId) : Stays k (.framed frame inner) c := by
  refine ⟨trivial, fun r hr => ?_⟩
  cases r with
  | yield outcome inner' c' => exact hr h
  | finished c' | failed failure c' => trivial

theorem activation (frame : FrameId) : Stays k (.activation frame inner) c := by
  refine ⟨trivial, fun r _ => ?_⟩
  cases r with
  | yield outcome inner' c' =>
      refine ⟨?_, trivial⟩
      rw [Outcome.signal?_ofBody]
      exact nofun
  | finished c' | failed failure c' => trivial

theorem call (span : Span) (closure : Closure) (arguments : List Value) (this : Option Value) :
    Stays k (.call span closure arguments this) c := by
  rw [Stays, Stream.move]
  split
  · exact asked (s := .activation _ _) trivial
  · trivial

end Lacks

/-- **A stream that lacks a signal goes on to lack it**, whatever it is asked in and whatever it works
with. -/
theorem lacks_kept (k : Signal) : (lacks k).Kept where
  stream s c _ := by
    by_cases h : s.Lacks k
    · refine Move.Meets.imp (fun r hr _ => hr) (show Lacks.Stays k s c from ?_)
      cases s with
      | empty => trivial
      | once outcome => exact ⟨h, trivial⟩
      | deferred what => exact Lacks.ofResult (show Stream.empty.Lacks k from trivial) what.returns c
      | node n => exact Lacks.asked (s := .nested _ _) (Stream.lacks_build h)
      | nested span inner => exact Lacks.nested (show inner.Lacks k from h) span
      | map inner f => exact Lacks.map h
      | flatMap outer next => exact Lacks.flatMap h
      | append first second => exact Lacks.append h.1 h.2
      | calls span callee arguments => exact Lacks.calls span callee arguments
      | amb alternatives => exact Lacks.amb h
      | choice snapshot current later => exact Lacks.choice h.1 h.2
      | block statements => exact Lacks.asked (s := .framed _ (.body statements)) h
      | program statements => exact Lacks.asked (s := .body statements) h
      | body statements => exact Lacks.body h
      | sequence begun => exact Lacks.sequence h
      | framed frame inner => exact Lacks.framed (show inner.Lacks k from h) frame
      | call span closure arguments this => exact Lacks.call span closure arguments this
      | activation frame inner => exact Lacks.activation frame
    · exact Lacks.meets_of_forall (fun r hs => absurd hs h) _
  odometer o c _ := Lacks.meets_of_forall (fun _ => trivial) _

/-- What lacks a signal does not give it, and what is left lacks it too. -/
theorem Stream.Lacks.gives {s : Stream} (h : s.Lacks k) {c : Context} {r : Reply Stream Outcome}
    (hr : s.Gives c r) : r.Lacks k :=
  (lacks_kept k).gives (s := s) trivial hr h

/-! ### Outcomes -/

/-- One of the outcomes of a stream that is asked again and again, in whatever contexts. -/
inductive Stream.Yields : Stream → Outcome → Prop
  | next {s outcome rest c c'} (h : s.Gives c (.yield outcome rest c')) : Yields s outcome
  | later {s outcome rest c c' outcome'} (h : s.Gives c (.yield outcome rest c'))
      (t : Yields rest outcome') : Yields s outcome'

/-- **No outcome of a stream that lacks a signal is the signal.** -/
theorem Stream.Lacks.yields {s : Stream} (h : s.Lacks k) {outcome : Outcome}
    (hy : s.Yields outcome) : outcome.signal? ≠ some k := by
  induction hy with
  | next hg => exact (h.gives hg).1
  | later hg _ ih => exact ih (h.gives hg).2

end Nondet
