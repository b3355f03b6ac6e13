import Nondet.Proofs.Pull.Scopes

/-!
# Pull — Refers

Where the names come from that a stream resolves.  A name is resolved when a value is looked up and
when one is assigned, in the frame that is innermost then; by that time the node with the name is no
longer part of the stream.  A frame bears a node when it stands for the place of the node
(`Frames.Bears`), and a stream refers to names of nodes alone that the frames bear in which it
resolves them (`Stream.Refers`).  Streams that keep to their places leave nothing else
(`referring_kept`).
-/

namespace Nondet

open Nondet.Action

variable {began began' : FrameId → List Node → Prop} {fs fs' : Frames} {s : Site} {c c' : Context}
  {α σ : Type} {l : Limits} {i : FrameId}

/-! ### Streams -/

section

variable (began : FrameId → List Node → Prop) (fs : Frames)

/-- The frame stands for a place of the node. -/
def Frames.Bears (i : FrameId) (n : Node) : Prop := ∃ s, fs.Stands began i s ∧ n.LiesAt s

def Deferred.Refers (i : FrameId) : Deferred → Prop
  | .lookup span name => fs.Bears began i (.identifier span name)
  | _                 => True

def Transform.Refers (i : FrameId) : Transform → Prop
  | .assign span name => ∃ value, fs.Bears began i (.assignment span name value)
  | _                 => True

mutual

/-- The names that the stream resolves are those of nodes that the frames bear in which it does
so. -/
def Stream.Refers : Stream → FrameId → Prop
  | .empty, _ | .once _, _ | .node _, _ | .amb _, _ | .block _, _ | .program _, _ | .body _, _
  | .call _ _ _ _, _               => True
  | .deferred what, i              => what.Refers began fs i
  | .nested _ inner, i             => inner.Refers i
  | .map inner f, i                => inner.Refers i ∧ f.Refers began fs i
  | .flatMap outer _, i            => outer.Refers i
  | .append first second, i        => first.Refers i ∧ second.Refers i
  | .calls _ _ arguments, i        => arguments.Refers i
  | .choice _ current _, i         => current.Refers i
  | .sequence begun, i             => begun.Refers i
  | .framed frame inner, _         => inner.Refers frame
  | .activation frame inner, _     => inner.Refers frame

def Odometer.Refers : Odometer → FrameId → Prop
  | .start _, _         => True
  | .turning begun _, i => begun.Refers i

def OpenArguments.Refers : OpenArguments → FrameId → Prop
  | .none, _                    => True
  | .push stream _ _ earlier, i => stream.Refers i ∧ earlier.Refers i

def OpenStatements.Refers : OpenStatements → FrameId → Prop
  | .none, _                  => True
  | .push stream _ earlier, i => stream.Refers i ∧ earlier.Refers i

end

end

section Growing

variable (hb : ∀ i script, began i script → began' i script) (he : fs.Extends .blank fs')

include hb he

/-- What a frame bears it goes on to bear. -/
theorem Frames.Bears.mono {n : Node} (h : fs.Bears began i n) : fs'.Bears began' i n :=
  have ⟨s, hs, hn⟩ := h
  ⟨s, hs.mono hb he, hn⟩

theorem Deferred.Refers.mono {what : Deferred} (h : what.Refers began fs i) :
    what.Refers began' fs' i := by
  cases what with
  | lookup _ _ => exact Frames.Bears.mono hb he h
  | _ => trivial

theorem Transform.Refers.mono {f : Transform} (h : f.Refers began fs i) : f.Refers began' fs' i := by
  cases f with
  | assign _ _ => exact h.imp fun _ h => Frames.Bears.mono hb he h
  | _ => trivial

end Growing

mutual

theorem Stream.Refers.mono (hb : ∀ i script, began i script → began' i script)
    (he : fs.Extends .blank fs') :
    ∀ {st : Stream} {i : FrameId}, st.Refers began fs i → st.Refers began' fs' i
  | .empty, _, _ | .once _, _, _ | .node _, _, _ | .amb _, _, _ | .block _, _, _ | .program _, _, _
  | .body _, _, _ | .call _ _ _ _, _, _ => trivial
  | .deferred _, _, h => Deferred.Refers.mono hb he h
  | .nested _ inner, i, h => (Stream.Refers.mono hb he : inner.Refers began fs i → _) h
  | .map _ _, _, h => ⟨h.1.mono hb he, h.2.mono hb he⟩
  | .flatMap outer _, i, h => (Stream.Refers.mono hb he : outer.Refers began fs i → _) h
  | .append _ _, _, h => ⟨h.1.mono hb he, h.2.mono hb he⟩
  | .calls _ _ arguments, i, h => (Odometer.Refers.mono hb he : arguments.Refers began fs i → _) h
  | .choice _ current _, i, h => (Stream.Refers.mono hb he : current.Refers began fs i → _) h
  | .sequence begun, i, h => (OpenStatements.Refers.mono hb he : begun.Refers began fs i → _) h
  | .framed frame inner, _, h => (Stream.Refers.mono hb he : inner.Refers began fs frame → _) h
  | .activation frame inner, _, h => (Stream.Refers.mono hb he : inner.Refers began fs frame → _) h

theorem Odometer.Refers.mono (hb : ∀ i script, began i script → began' i script)
    (he : fs.Extends .blank fs') :
    ∀ {o : Odometer} {i : FrameId}, o.Refers began fs i → o.Refers began' fs' i
  | .start _, _, _ => trivial
  | .turning begun _, i, h => (OpenArguments.Refers.mono hb he : begun.Refers began fs i → _) h

theorem OpenArguments.Refers.mono (hb : ∀ i script, began i script → began' i script)
    (he : fs.Extends .blank fs') :
    ∀ {begun : OpenArguments} {i : FrameId}, begun.Refers began fs i → begun.Refers began' fs' i
  | .none, _, _ => trivial
  | .push _ _ _ _, _, h => ⟨h.1.mono hb he, h.2.mono hb he⟩

theorem OpenStatements.Refers.mono (hb : ∀ i script, began i script → began' i script)
    (he : fs.Extends .blank fs') :
    ∀ {begun : OpenStatements} {i : FrameId}, begun.Refers began fs i → begun.Refers began' fs' i
  | .none, _, _ => trivial
  | .push _ _ _, _, h => ⟨h.1.mono hb he, h.2.mono hb he⟩

end

/-! ### The first unfolding -/

/-- A node unfolds into a stream that refers to the names of the node. -/
theorem Stream.refers_build (hs : fs.Stands began i s) : ∀ {n : Node}, n.LiesAt s →
    (Stream.build n).Refers began fs i
  | .identifier _ _, h => by
      rw [Stream.build]
      split
      · trivial
      · exact ⟨s, hs, h⟩
  | .call _ _ _, _ => by
      rw [Stream.build]
      split <;> trivial
  | .assignment _ _ value, h => ⟨trivial, value, s, hs, h⟩
  | .expressionStatement _ expression, h =>
    Stream.refers_build (n := expression) hs (h.part rfl (by simp [Node.children]))
  | .unary _ _ _, _ | .variableDeclaration _ _ _ _, _ | .returnStatement _ (some _), _ =>
    ⟨trivial, trivial⟩
  | .literal _ _, _ | .binary _ _ _ _, _ | .logical _ .and _ _, _ | .logical _ .or _ _, _
  | .conditional _ _ _ _, _ | .functionDeclaration _ _ _ _ _, _ | .arrowFunction _ _ _ _ _, _
  | .ifStatement _ _ _ _, _ | .returnStatement _ none, _ | .block _ _, _ | .program _ _, _ => trivial

theorem Stream.refers_ofStatements : ∀ ss : List Node, (Stream.ofStatements ss).Refers began fs i
  | []     => trivial
  | _ :: _ => ⟨trivial, trivial⟩

theorem refers_apply (callee : Value) (arguments : List Value) (span : Span)
    (this : Option Value) : (apply callee arguments span this).Refers began fs i := by
  cases callee <;> trivial

theorem Continuation.Next.refers {next : Continuation} {v : Value} {st : Stream}
    (h : next.Next v st) : st.Refers began fs i := by
  cases h with
  | right span op n => exact ⟨trivial, trivial⟩
  | _ => trivial

/-! ### The contract -/

/-- What is left of a request satisfies this in the frames that the request left. -/
def Reply.Rests (rest : Frames → σ → Prop) : Reply σ α → Prop
  | .yield _ st c => rest c.frames st
  | _             => True

section

variable (began : FrameId → List Node → Prop)

/-- Requests resolve names of nodes that the innermost frame bears. -/
def referring : Contract where
  stream st c := st.Refers began c.frames c.current
  streamReply _ c r := r.Rests fun fs st => st.Refers began fs c.current
  odometer o c := o.Refers began c.frames c.current
  odometerReply _ c r := r.Rests fun fs o => o.Refers began fs c.current

end

namespace Referring

/-- A stream that is asked for its answer. -/
theorem asked {t : Stream} (hi : c.current = i) (ht : t.Refers began c.frames i) :
    (Move.stream t c .answer).MeetsOver (scopedRequests began l) (referring began)
      (Reply.Rests fun fs st => st.Refers began fs i) := by
  subst hi
  exact ⟨ht, fun _ _ h => h⟩

/-- An odometer that is asked for its answer. -/
theorem odometer_asked {o : Odometer} (hi : c.current = i) (ho : o.Refers began c.frames i) :
    (Move.odometer o c .answer).MeetsOver (scopedRequests began l) (referring began)
      (Reply.Rests fun fs o => o.Refers began fs i) := by
  subst hi
  exact ⟨ho, fun _ _ h => h⟩

/-- What follows on the reply of a stream in which statements are not hoisted first. -/
theorem inside {st : Stream} {next : Reply Stream Outcome → Move σ α} {Q : Reply σ α → Prop}
    (hs : st.Scoped began c.frames s) (hr : st.Refers began c.frames c.current)
    (h : ∀ r, c.Disciplined Stream.Placed r → c.frames.Extends .blank r.context.frames →
      r.Rests (fun fs st => st.Refers began fs c.current) →
        (next r).MeetsOver (scopedRequests began l) (referring began) Q) :
    (Move.stream st c next).MeetsOver (scopedRequests began l) (referring began) Q := by
  refine ⟨hr, fun r hb hk => h r hb.1.1.2 ?_ hk⟩
  obtain ⟨⟨-, he, -⟩, -⟩ := hb
  rw [hs.opening?] at he
  exact he

/-- The reply of an action whose result is passed on. -/
theorem ofResult (rest : Frames → σ → Prop) {a : Action α} (ha : a.Extends .blank) {st : σ}
    (hst : ∀ {fs'}, c.frames.Extends .blank fs' → rest fs' st) :
    (Reply.ofResult st (a.on c)).Rests rest := by
  have longer := ha c
  rcases hr : a.on c with ⟨failure | x, c'⟩ <;> rw [hr] at longer
  · trivial
  · exact hst longer

/-! ### One move of each stream -/

/-- The moves of the stream in the context resolve names of nodes alone that their frames bear. -/
def Stays (began : FrameId → List Node → Prop) (l : Limits) (st : Stream) (c : Context) : Prop :=
  (st.move c).MeetsOver (scopedRequests began l) (referring began)
    (Reply.Rests fun fs st => st.Refers began fs c.current)

/-- The moves of the odometer in the context do so. -/
def OdometerStays (began : FrameId → List Node → Prop) (l : Limits) (o : Odometer) (c : Context) :
    Prop :=
  (o.move c).MeetsOver (scopedRequests began l) (referring began)
    (Reply.Rests fun fs o => o.Refers began fs c.current)

theorem nested {inner : Stream} (hr : inner.Refers began c.frames c.current) (span : Span) :
    Stays began l (.nested span inner) c := by
  obtain ⟨-, h⟩ | ⟨-, h⟩ := Stream.move_nested_cases span inner c <;> rw [Stays, h]
  · trivial
  · refine ⟨hr, fun r _ hk => ?_⟩
    cases r with
    | yield outcome inner' c' => exact hk
    | finished c' | failed failure c' => trivial

theorem map {inner : Stream} (hs : inner.Scoped began c.frames s)
    (hr : inner.Refers began c.frames c.current) {f : Transform}
    (hf : f.Refers began c.frames c.current) : Stays began l (.map inner f) c := by
  refine inside hs hr fun r hd he hk => ?_
  cases r with
  | yield outcome inner' c' =>
      exact ofResult _ (.transform f outcome) fun he' =>
        ⟨Stream.Refers.mono Scoping.same he' hk, hf.mono Scoping.same (he.trans he')⟩
  | finished c' | failed failure c' => trivial

theorem flatMap {outer : Stream} (hs : outer.Scoped began c.frames s)
    (hr : outer.Refers began c.frames c.current) (next : Continuation) :
    Stays began l (.flatMap outer next) c := by
  refine inside hs hr fun r hd he hk => ?_
  cases r with
  | yield outcome outer' c' =>
      obtain ⟨failure, e⟩ | ⟨inner, e, hi⟩ := next.on_run_cases outcome c' <;> simp only [e]
      · trivial
      · exact asked hd.1.current ⟨hi.refers, hk⟩
  | finished c' | failed failure c' => trivial

theorem append {first second : Stream} (hs : first.Scoped began c.frames s)
    (hr : first.Refers began c.frames c.current) (hr' : second.Refers began c.frames c.current) :
    Stays began l (.append first second) c := by
  refine inside hs hr fun r hd he hk => ?_
  cases r with
  | yield outcome first' c' => exact ⟨hk, hr'.mono Scoping.same he⟩
  | finished c' => exact asked (Context.Alike.current hd) (hr'.mono Scoping.same he)
  | failed failure c' => trivial

theorem calls {arguments : Odometer} (ho : arguments.Refers began c.frames c.current) (span : Span)
    (callee : Value) : Stays began l (.calls span callee arguments) c := by
  refine ⟨ho, fun r hb hk => ?_⟩
  obtain ⟨⟨⟨-, hd⟩, -⟩, -⟩ := hb
  cases r with
  | yield values arguments' c' =>
      exact asked hd.1.current ⟨refers_apply callee values span none, hk⟩
  | finished c' | failed failure c' => trivial

theorem amb : ∀ alternatives : List Node, Stays began l (.amb alternatives) c
  | []     => trivial
  | _ :: _ => asked rfl trivial

theorem choice {snapshot : Snapshot} (hp : snapshot.place = c.place) {current : Stream}
    (hr : current.Refers began c.frames c.current) (later : List Node) :
    Stays began l (.choice snapshot current later) c := by
  refine ⟨hr, fun r hb hk => ?_⟩
  obtain ⟨⟨⟨-, hd⟩, -⟩, -⟩ := hb
  cases r with
  | yield outcome current' c' => exact hk
  | finished c' =>
      have back : c.Alike (c'.restore snapshot) := Context.Alike.restore hd hp
      cases later with
      | nil => trivial
      | cons n later => exact asked back.current trivial
  | failed failure c' => trivial

theorem body (ss : List Node) : Stays began l (.body ss) c := by
  have alike := Action.Steady.hoist ss c
  rw [Stays]
  simp only [Stream.move]
  rcases hx : (hoist ss).on c with ⟨failure | _, c'⟩ <;> rw [hx] at alike
  · trivial
  · have alike : c.Alike c' := alike
    exact asked alike.current (Stream.refers_ofStatements ss)

theorem sequence : ∀ {begun : OpenStatements}, begun.Scoped began c.frames s →
    begun.Refers began c.frames c.current → Stays began l (.sequence begun) c
  | .none, _, _ => trivial
  | .push current later earlier, ⟨hs, _, _⟩, ⟨hr, hb⟩ => by
      refine inside hs hr fun r hd he hk => ?_
      cases r with
      | yield outcome current' c' =>
          have rest : (OpenStatements.push current' later earlier).Refers began c'.frames c.current :=
            ⟨hk, hb.mono Scoping.same he⟩
          cases outcome with
          | returned v => exact rest
          | value v =>
              cases later with
              | nil => exact rest
              | cons n later => exact asked hd.1.current ⟨trivial, rest⟩
          | cut =>
              cases later with
              | nil => trivial
              | cons n later => exact asked hd.1.current ⟨trivial, trivial⟩
      | finished c' =>
          exact asked (t := .sequence earlier) (Context.Alike.current hd) (hb.mono Scoping.same he)
      | failed failure c' => trivial

/-- What runs in a frame of its own goes on to refer to names in it. -/
theorem inFrame {W : Stream → Stream} {frame : FrameId} {f : Outcome → Outcome}
    (hW : ∀ {fs : Frames} {st : Stream}, st.Refers began fs frame → (W st).Refers began fs i) :
    ∀ {r : Reply Stream Outcome}, r.Rests (fun fs st => st.Refers began fs frame) →
      Move.MeetsOver (scopedRequests began l) (referring began)
        (Reply.Rests fun fs st => st.Refers began fs i)
        (match r with
          | .yield outcome inner c => .answer (.yield (f outcome) (W inner) c.pop)
          | .finished c            => .answer (.finished c.pop)
          | .failed failure c      => .answer (.failed failure c) : Move Stream Outcome)
  | .yield _ _ _, hk => hW hk
  | .finished _, _ | .failed _ _, _ => trivial

theorem framed {frame : FrameId} {inner : Stream} (hr : inner.Refers began c.frames frame) :
    Stays began l (.framed frame inner) c :=
  ⟨hr, fun _ _ hk => inFrame (W := .framed frame) (f := id) (fun h => h) hk⟩

theorem activation {frame : FrameId} {inner : Stream} (hr : inner.Refers began c.frames frame) :
    Stays began l (.activation frame inner) c :=
  ⟨hr, fun _ _ hk => inFrame (W := .activation frame) (fun h => h) hk⟩

theorem call (span : Span) (closure : Closure) (arguments : List Value) (this : Option Value) :
    Stays began l (.call span closure arguments this) c := by
  obtain ⟨-, h⟩ | ⟨-, -, h⟩ | ⟨-, -, h⟩ :=
    Stream.move_call_cases span this closure arguments c <;> rw [Stays, h]
  · trivial
  · trivial
  · exact asked rfl trivial

theorem turning : ∀ {begun : OpenArguments}, begun.Scoped began c.frames s →
    begun.Refers began c.frames c.current → ∀ values : List Value,
      OdometerStays began l (.turning begun values) c
  | .none, _, _, _ => trivial
  | .push current span later earlier, ⟨hs, _, _⟩, ⟨hr, hb⟩, values => by
      refine inside hs hr fun r hd he hk => ?_
      cases r with
      | yield outcome current' c' =>
          obtain ⟨failure, e⟩ | e := on_operand_cases span "call argument" outcome c' <;>
            simp only [e]
          · trivial
          · have opened : (OpenArguments.push current' span later earlier).Refers began c'.frames
                c.current := ⟨hk, hb.mono Scoping.same he⟩
            cases later with
            | nil => exact opened
            | cons n later => exact odometer_asked hd.1.current ⟨trivial, opened⟩
      | finished c' =>
          exact odometer_asked (o := .turning earlier _) (Context.Alike.current hd)
            (hb.mono Scoping.same he)
      | failed failure c' => trivial

theorem start : ∀ arguments : List Node, OdometerStays began l (.start arguments) c
  | []     => trivial
  | _ :: _ => odometer_asked rfl ⟨trivial, trivial⟩

end Referring

/-- **Requests resolve names of nodes alone that their frames bear.** -/
theorem referring_kept (l : Limits) (began : FrameId → List Node → Prop) :
    ((scopedRequests began l).and (referring began)).Kept := by
  refine (scoping_kept l began).and (fun st c hb hr => ?_) fun o c hb hr => ?_
  · obtain ⟨⟨⟨-, placed, -⟩, -⟩, s, ⟨hc, hs⟩ | begins⟩ := hb
    · cases st with
      | empty | once outcome => trivial
      | deferred what =>
          exact Referring.ofResult (fun fs (st : Stream) => st.Refers began fs c.current)
            (.deferred what) fun _ => trivial
      | node n => exact Referring.asked rfl (Stream.refers_build hc.stands hs)
      | nested span inner =>
          exact Referring.nested (show inner.Refers began c.frames c.current from hr) span
      | map inner f => exact Referring.map hs.1 hr.1 hr.2
      | flatMap outer next => exact Referring.flatMap hs.1 hr next
      | append first second => exact Referring.append hs.1 hr.1 hr.2
      | calls span callee arguments => exact Referring.calls hr span callee
      | amb alternatives => exact Referring.amb alternatives
      | choice snapshot current later =>
          have current : current.Refers began c.frames c.current := hr
          exact Referring.choice placed.1 current later
      | block statements => exact Referring.asked rfl trivial
      | program statements | body statements => exact absurd hs id
      | sequence begun => exact Referring.sequence hs hr
      | framed frame inner => exact Referring.framed hr
      | call span closure arguments this => exact Referring.call span closure arguments this
      | activation frame inner => exact Referring.activation hr
    · cases begins with
      | body _ _ => exact Referring.body _
      | framed _ _ => exact Referring.framed hr
      | activation _ _ => exact Referring.activation hr
  · obtain ⟨-, s, hc, hs⟩ := hb
    cases o with
    | start arguments => exact Referring.start arguments
    | turning begun values => exact Referring.turning hs.1 hr values

end Nondet
